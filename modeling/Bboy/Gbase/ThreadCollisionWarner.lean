/-
Lean model of `ThreadCollisionWarner` (`bboy/gbase/threading/thread_collision_warner.{h,cc}`), the check behind `DFAKE_MUTEX`.

A step is one access to a word: the compare-and-swap of `valid_thread_id_`, the increment or decrement of `counter_`, the
store that frees the former. A warning ends the process, as `DCheckAsserter` has it. Thread `i` has the id `i + 1`; the
words hold what is put into them.

- `Inside`: a thread is between the swap of its first guard and the store of its last.
- `Inv`: `valid_thread_id_` is the id of the only thread inside, and `counter_` its number of guards.
- `collision_exact`: without a warning no two threads are inside, and a warning comes exactly when a thread enters while
  another one is inside, or, if its guard is not for recursion, while it is inside itself.
Witness: `collision_exact_twoThreads`.
-/
import Bboy.Core.Atomic
import Bboy.Core.Machine

namespace Bboy.ThreadCollisionWarner

open Core

/-! ## Model -/

inductive Pc where
  | outside
  /-- behind the swap, before the increment -/
  | entering
  /-- behind the decrement to 0, before the store -/
  | leaving
  deriving DecidableEq, Repr

/-- `guards` of them leave the section, the `pinned` ones (`Check`) do not -/
structure Thread where
  pc : Pc
  guards : ℕ
  pinned : ℕ
  /-- the guard that is being entered leaves the section -/
  entersScoped : Bool
  deriving DecidableEq, Repr

def Thread.idle : Thread := ⟨.outside, 0, 0, false⟩

structure St where
  validThreadId : ℕ
  counter : ℤ
  threads : List Thread
  warned : Bool
  deriving DecidableEq, Repr

/-- `ScopedCheck`, `ScopedRecursiveCheck` and `Check` -/
inductive Guard where
  | scopedCheck
  | scopedRecursiveCheck
  | check
  deriving DecidableEq, Repr

/-- the guard is entered with `EnterSelf`, not with `Enter` -/
def Guard.entersSelf : Guard → Bool
  | .scopedCheck => false
  | _ => true

def Guard.isScoped : Guard → Bool
  | .check => false
  | _ => true

inductive Op where
  | enter (i : ℕ) (guard : Guard)
  /-- `Leave` of a guard that goes out of scope -/
  | leave (i : ℕ)
  /-- the second access of a call -/
  | step (i : ℕ)
  deriving DecidableEq, Repr

/-- the value found is a collision -/
def collides (entersSelf : Bool) (previousValue currentThreadId : ℕ) : Bool :=
  if entersSelf then previousValue ≠ 0 ∧ previousValue ≠ currentThreadId else previousValue ≠ 0

/-- the swap of `Enter` and `EnterSelf` -/
def enter (s : St) (i : ℕ) (t : Thread) (guard : Guard) : Option St :=
  if t.pc = .outside then
    let r := compareAndSwap s.validThreadId 0 (i + 1)
    if collides guard.entersSelf r.1 (i + 1) then some { s with validThreadId := r.2, warned := true }
    else some { s with
      validThreadId := r.2, threads := s.threads.set i { t with pc := .entering, entersScoped := guard.isScoped } }
  else none

/-- the decrement of `Leave` -/
def leave (s : St) (i : ℕ) (t : Thread) : Option St :=
  if t.pc = .outside ∧ 0 < t.guards then
    let counter := s.counter - 1
    let t := { t with guards := t.guards - 1 }
    some { s with counter, threads := s.threads.set i (if counter = 0 then { t with pc := .leaving } else t) }
  else none

def second (s : St) (i : ℕ) (t : Thread) : Option St :=
  match t.pc with
  | .outside => none
  | .entering =>
    let t := if t.entersScoped then { t with guards := t.guards + 1 } else { t with pinned := t.pinned + 1 }
    some { s with counter := s.counter + 1, threads := s.threads.set i { t with pc := .outside } }
  | .leaving => some { s with validThreadId := 0, threads := s.threads.set i { t with pc := .outside } }

/-- `n` threads and one warner -/
def machine (n : ℕ) : Machine St Op where
  init := ⟨0, 0, List.replicate n .idle, false⟩
  step s o :=
    if s.warned then none
    else
      match o with
      | .enter i guard => s.threads[i]?.bind fun t => enter s i t guard
      | .leave i => s.threads[i]?.bind fun t => leave s i t
      | .step i => s.threads[i]?.bind fun t => second s i t

/-! ## The invariant -/

def Thread.inside (t : Thread) : Prop := t.pc ≠ .outside ∨ 0 < t.guards + t.pinned

instance (t : Thread) : Decidable t.inside := inferInstanceAs (Decidable (_ ∨ _))

/-- no thread is inside, or the one whose id the warner holds -/
inductive Inv (s : St) : Prop
  | free (hid : s.validThreadId = 0) (hcounter : s.counter = 0)
    (hothers : ∀ (j : ℕ) (u : Thread), s.threads[j]? = some u → ¬ u.inside)
  | taken (i : ℕ) (t : Thread) (hid : s.validThreadId = i + 1) (hget : s.threads[i]? = some t) (hin : t.inside)
    (hcounter : s.counter = t.guards + t.pinned) (hleaving : t.pc = .leaving → s.counter = 0)
    (hothers : ∀ (j : ℕ) (u : Thread), s.threads[j]? = some u → j ≠ i → ¬ u.inside)

variable {n i : ℕ} {s s' : St} {t t' : Thread} {o : Op} {os : List Op}

/-- the others stay outside while thread `i` goes on -/
theorem others_set (h : ∀ (j : ℕ) (u : Thread), s.threads[j]? = some u → j ≠ i → ¬ u.inside) (t' : Thread) (j : ℕ)
    (u : Thread) (hu : (s.threads.set i t')[j]? = some u) (hij : j ≠ i) : ¬ u.inside := by
  rw [List.getElem?_set_ne (Ne.symm hij)] at hu
  exact h j u hu hij

theorem get_set (hget : s.threads[i]? = some t) (t' : Thread) : (s.threads.set i t')[i]? = some t' :=
  List.getElem?_set_self (List.getElem?_eq_some_iff.1 hget).1

/-- the thread that is inside has its id in the warner -/
theorem Inv.of_inside (hi : Inv s) (hget : s.threads[i]? = some t) (hin : t.inside) :
    s.validThreadId = i + 1 ∧ s.counter = t.guards + t.pinned ∧ (t.pc = .leaving → s.counter = 0) ∧
      ∀ (j : ℕ) (u : Thread), s.threads[j]? = some u → j ≠ i → ¬ u.inside := by
  cases hi with
  | free hid hcounter hothers => exact absurd hin (hothers i t hget)
  | taken k v hid hk hv hcounter hleaving hothers =>
    obtain rfl : i = k := by
      by_contra hne
      exact hothers i t hget hne hin
    obtain rfl : t = v := Option.some.inj (hget.symm.trans hk)
    exact ⟨hid, hcounter, hleaving, hothers⟩

/-- a warning tells that another thread is inside, or this one where recursion is not allowed -/
theorem Inv.collides_iff (hi : Inv s) (i : ℕ) (entersSelf : Bool) :
    collides entersSelf s.validThreadId (i + 1) = true ↔
      ∃ j u, s.threads[j]? = some u ∧ u.inside ∧ (j = i → entersSelf = false) := by
  cases hi with
  | free hid hcounter hothers =>
    rw [hid]
    constructor
    · intro h
      simp [collides] at h
    · rintro ⟨j, u, hu, hin, -⟩
      exact absurd hin (hothers j u hu)
  | taken k v hid hk hv hcounter hleaving hothers =>
    rw [hid]
    have hiff : collides entersSelf (k + 1) (i + 1) = true ↔ (k = i → entersSelf = false) := by
      cases entersSelf <;> simp [collides]
    rw [hiff]
    constructor
    · intro h
      exact ⟨k, v, hk, hv, h⟩
    · rintro ⟨j, u, hu, hin, h⟩
      obtain rfl : j = k := by
        by_contra hne
        exact hothers j u hu hne hin
      exact h

theorem enter_inv (hi : Inv s) (hget : s.threads[i]? = some t) {guard : Guard} (h : enter s i t guard = some s') :
    Inv s' ∧ (s'.warned = true ↔
      s.warned = true ∨ ∃ j u, s.threads[j]? = some u ∧ u.inside ∧ (j = i → guard.entersSelf = false)) := by
  unfold enter at h
  split_ifs at h with hpc
  dsimp only at h
  split_ifs at h with hcollides
  · rw [compareAndSwap_found] at hcollides
    have hne : s.validThreadId ≠ 0 := by
      intro h0
      rw [h0] at hcollides
      simp [collides] at hcollides
    cases h
    rw [compareAndSwap_lost hne]
    refine ⟨?_, iff_of_true rfl (Or.inr ((hi.collides_iff i _).1 hcollides))⟩
    cases hi with
    | free hid => exact absurd hid hne
    | taken k v hid hk hv hcounter hleaving hothers => exact Inv.taken k v hid hk hv hcounter hleaving hothers
  · rw [compareAndSwap_found] at hcollides
    cases h
    refine ⟨?_, (or_iff_left (fun hex => hcollides ((hi.collides_iff i _).2 hex))).symm⟩
    have hentering : ({ t with pc := .entering, entersScoped := guard.isScoped } : Thread).inside := Or.inl nofun
    cases hi with
    | free hid hcounter hothers =>
      have hout := hothers i t hget
      simp only [Thread.inside, hpc, ne_eq, not_true_eq_false, false_or, not_lt, nonpos_iff_eq_zero] at hout
      rw [compareAndSwap_won hid]
      refine Inv.taken i _ rfl (get_set hget _) hentering ?_ nofun (others_set (fun j u hu _ => hothers j u hu) _)
      show s.counter = ((t.guards : ℤ) + t.pinned)
      omega
    | taken k v hid hk hv hcounter hleaving hothers =>
      obtain rfl : k = i := by
        by_contra hne
        refine hcollides ((Inv.collides_iff ?_ i _).2 ⟨k, v, hk, hv, fun h => absurd h hne⟩)
        exact Inv.taken k v hid hk hv hcounter hleaving hothers
      obtain rfl : t = v := Option.some.inj (hget.symm.trans hk)
      rw [compareAndSwap_lost (by omega)]
      exact Inv.taken k _ hid (get_set hget _) hentering hcounter nofun (others_set hothers _)

theorem leave_inv (hi : Inv s) (hget : s.threads[i]? = some t) (h : leave s i t = some s') : Inv s' := by
  unfold leave at h
  split_ifs at h with hpc
  obtain ⟨hid, hcounter, -, hothers⟩ := hi.of_inside hget (Or.inr (by omega))
  cases h
  have hcast : s.counter - 1 = ((t.guards - 1 : ℕ) : ℤ) + t.pinned := by omega
  by_cases hzero : s.counter - 1 = 0
  · simp only [hzero, if_true]
    exact Inv.taken i _ hid (get_set hget _) (Or.inl nofun) (hzero.symm.trans hcast) (fun _ => rfl) (others_set hothers _)
  · simp only [hzero, if_false]
    refine Inv.taken i _ hid (get_set hget _) (Or.inr ?_) hcast (fun h => ?_) (others_set hothers _)
    · show 0 < t.guards - 1 + t.pinned
      omega
    · exact absurd (hpc.1.symm.trans h) nofun

theorem second_inv (hi : Inv s) (hget : s.threads[i]? = some t) (h : second s i t = some s') : Inv s' := by
  unfold second at h
  split at h
  case h_1 => cases h
  case h_2 hpc =>
    obtain ⟨hid, hcounter, -, hothers⟩ := hi.of_inside hget (Or.inl (by rw [hpc]; exact nofun))
    cases h
    refine Inv.taken i _ hid (get_set hget _) ?_ ?_ nofun (others_set hothers _)
    · cases t.entersScoped <;> exact Or.inr (by dsimp; omega)
    · cases t.entersScoped <;> (dsimp; omega)
  case h_3 hpc =>
    obtain ⟨hid, hcounter, hleaving, hothers⟩ := hi.of_inside hget (Or.inl (by rw [hpc]; exact nofun))
    cases h
    refine Inv.free rfl (hleaving hpc) fun j u hu => ?_
    by_cases hij : j = i
    · subst hij
      obtain rfl : u = { t with pc := .outside } := Option.some.inj (hu.symm.trans (get_set hget _))
      have hnone := hleaving hpc
      simp only [Thread.inside, ne_eq, not_true_eq_false, false_or]
      omega
    · exact others_set hothers _ j u hu hij

theorem step_inv (hi : Inv s) (h : (machine n).step s o = some s') : Inv s' := by
  obtain ⟨hrunning, h⟩ : s.warned ≠ true ∧ _ := by simpa only [machine, Option.ite_none_left_eq_some] using h
  cases o with
  | enter i guard =>
    obtain ⟨t, hget, hst⟩ := Option.bind_eq_some_iff.1 h
    exact (enter_inv hi hget hst).1
  | leave i =>
    obtain ⟨t, hget, hst⟩ := Option.bind_eq_some_iff.1 h
    exact leave_inv hi hget hst
  | step i =>
    obtain ⟨t, hget, hst⟩ := Option.bind_eq_some_iff.1 h
    exact second_inv hi hget hst

theorem init_inv (n : ℕ) : Inv (machine n).init := by
  refine Inv.free rfl rfl fun j u hu => ?_
  rw [List.eq_of_mem_replicate (List.mem_of_getElem? hu)]
  decide

theorem leave_warned (h : leave s i t = some s') : s'.warned = s.warned := by
  unfold leave at h
  split_ifs at h
  cases h
  rfl

theorem second_warned (h : second s i t = some s') : s'.warned = s.warned := by
  unfold second at h
  split at h
  · cases h
  · cases h
    rfl
  · cases h
    rfl

/-- the access is the swap of a thread that collides: another thread is inside, or itself where recursion is not allowed -/
def Collides (s : St) : Op → Prop
  | .enter i guard => ∃ j u, s.threads[j]? = some u ∧ u.inside ∧ (j = i → guard.entersSelf = false)
  | _ => False

/-- **A warning is a collision, and a collision a warning.** Whatever the threads do, at most one of them is inside, and the
next access warns exactly when it makes a second one enter, or the same one where its guard is not for recursion. -/
theorem collision_exact (h : (machine n).run (machine n).init os = some s) :
    (∀ (i j : ℕ) (t u : Thread), s.threads[i]? = some t → t.inside → s.threads[j]? = some u → u.inside → i = j) ∧
      ∀ o s', (machine n).step s o = some s' → (s'.warned = true ↔ Collides s o) := by
  have hi : Inv s := Machine.run_inv (fun _ _ _ hi hst => step_inv hi hst) (init_inv n) h
  constructor
  · intro i j t u ht htin hu huin
    obtain ⟨-, -, -, hothers⟩ := hi.of_inside ht htin
    by_contra hne
    exact hothers j u hu (Ne.symm hne) huin
  · intro o s' hst
    obtain ⟨hrunning, hst⟩ : s.warned ≠ true ∧ _ := by simpa only [machine, Option.ite_none_left_eq_some] using hst
    cases o with
    | enter i guard =>
      obtain ⟨t, hget, hst⟩ := Option.bind_eq_some_iff.1 hst
      exact (enter_inv hi hget hst).2.trans (or_iff_right hrunning)
    | leave i =>
      obtain ⟨t, hget, hst⟩ := Option.bind_eq_some_iff.1 hst
      rw [leave_warned hst]
      exact iff_of_false hrunning id
    | step i =>
      obtain ⟨t, hget, hst⟩ := Option.bind_eq_some_iff.1 hst
      rw [second_warned hst]
      exact iff_of_false hrunning id

/-! ### A run -/

/-- thread 0 enters twice and leaves twice; thread 1 enters behind its decrement to 0 and before its store -/
def twoOps : List Op :=
  [.enter 0 .scopedCheck, .step 0, .enter 0 .scopedRecursiveCheck, .step 0, .leave 0, .leave 0]

def twoState : St := ⟨1, 0, [⟨.leaving, 0, 0, true⟩, .idle], false⟩

theorem collision_exact_twoThreads :
    (∀ (i j : ℕ) (t u : Thread), twoState.threads[i]? = some t → t.inside → twoState.threads[j]? = some u → u.inside →
        i = j) ∧
      ∀ o s', (machine 2).step twoState o = some s' → (s'.warned = true ↔ Collides twoState o) := by
  exact @collision_exact 2 twoState twoOps (by decide +kernel)

end Bboy.ThreadCollisionWarner
