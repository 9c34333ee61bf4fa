/-
Lean model of `Promise` (`bboy/base/promise.h`) over the latch of `countdown_latch.h`: one thread sets a value, any number of
threads wait for it.

`Set` is three steps, the `DCHECK` on the latch, the store of the value and the `CountDown`; `Get` and `WaitFor` wait for the
latch and then read the value. The store and the reads are not protected by a lock.

- `Inv`: the latch opens behind the store of the one `Set`, and nobody reads before that.
- `promise_kept`: if `Set` is called at most once, as its comment asks, every value that was read is the one that was set,
  no read comes before or beside the store, no `DCHECK` fails, and nobody sleeps once the latch is open.
Witness: `promise_kept_threeThreads`.
-/
import Bboy.Core.Atomic
import Bboy.Core.Machine
import Bboy.Core.Waiters

namespace Bboy.Promise

open Core

/-! ## The promise -/

/-- where a thread is: waiting for the latch, in front of the read, or in `Set` before and behind the store -/
inductive Pc (α : Type) where
  | idle
  | waiting (timed : Bool)
  | woken (timed : Bool)
  | reading
  | storing (val : α)
  | stored
  deriving DecidableEq, Repr

/-- `sets` are the values of the calls of `Set`, `got` what was read -/
structure St (α : Type) where
  count_ : ℕ
  val_ : α
  threads : List (Pc α)
  sets : List α
  got : List α
  checkFailed : Bool
  deriving DecidableEq, Repr

inductive Op (α : Type) where
  | set (i : ℕ) (val : α)
  | store (i : ℕ)
  | countDown (i : ℕ)
  | wait (i : ℕ) (timed : Bool)
  | spurious (i : ℕ)
  | resume (i : ℕ)
  | expire (i : ℕ)
  | read (i : ℕ)
  deriving DecidableEq, Repr

variable {α : Type}

def Pc.isWaiting : Pc α → Bool
  | .waiting _ => true
  | _ => false

def Pc.wake : Pc α → Pc α
  | .waiting timed => .woken timed
  | pc => pc

def put (s : St α) (i : ℕ) (pc : Pc α) : St α := { s with threads := s.threads.set i pc }

/-- the test of the loops of the latch -/
def look (s : St α) (i : ℕ) (timed : Bool) : St α := put s i (if 0 < s.count_ then .waiting timed else .reading)

/-- latch_.CountDown() by thread `i` -/
def countDown (s : St α) (i : ℕ) : St α :=
  let s := put s i .idle
  if s.count_ = 0 then s
  else
    let count := if s.count_ ≤ 1 then 0 else s.count_ - 1
    { s with count_ := count, threads := if count = 0 then wakeAll Pc.isWaiting Pc.wake s.threads else s.threads }

def machine (dflt : α) (n : ℕ) : Machine (St α) (Op α) where
  init := ⟨1, dflt, List.replicate n .idle, [], [], false⟩
  step s
    -- DCHECK_EQ(latch_.count(), 1)
    | .set i val => s.threads[i]?.bind fun
      | .idle => some { put s i (.storing val) with sets := s.sets ++ [val], checkFailed := s.checkFailed || s.count_ ≠ 1 }
      | _ => none
    | .store i => s.threads[i]?.bind fun
      | .storing val => some { put s i .stored with val_ := val }
      | _ => none
    | .countDown i => s.threads[i]?.bind fun
      | .stored => some (countDown s i)
      | _ => none
    | .wait i timed => s.threads[i]?.bind fun
      | .idle => some (look s i timed)
      | _ => none
    | .spurious i => s.threads[i]?.bind fun
      | .waiting timed => some (put s i (.woken timed))
      | _ => none
    | .resume i => s.threads[i]?.bind fun
      | .woken timed => some (look s i timed)
      | _ => none
    | .expire i => s.threads[i]?.bind fun
      | .waiting true => some (put s i .idle)
      | .woken true => some (put s i .idle)
      | _ => none
    | .read i => s.threads[i]?.bind fun
      | .reading => some { put s i .idle with got := s.got ++ [s.val_] }
      | _ => none

/-! ## The invariant -/

/-- in `Set` -/
def Pc.isSetting : Pc α → Bool
  | .storing _ | .stored => true
  | _ => false

/-- before the value is set, while it is set by one thread, or after that -/
inductive Phase (count_ : ℕ) (val_ : α) (threads : List (Pc α)) (sets : List α) : Prop
  | fresh (hsets : sets = []) (hcount : count_ = 1) (hsetting : threads.countP Pc.isSetting = 0)
  | setting (val : α) (hsets : sets = [val]) (hcount : count_ = 1) (hsetting : threads.countP Pc.isSetting = 1)
    (hval : ∀ pc ∈ threads, pc = .storing val ∨ (pc = .stored ∧ val_ = val) ∨ pc.isSetting = false)
  | kept (hsets : sets = [val_]) (hcount : count_ = 0) (hsetting : threads.countP Pc.isSetting = 0)
    (hawake : ∀ pc ∈ threads, pc.isWaiting = false)

structure Inv (s : St α) : Prop where
  phase : Phase s.count_ s.val_ s.threads s.sets
  reading : .reading ∈ s.threads → s.count_ = 0
  got : ∀ v ∈ s.got, s.sets = [v]
  checked : s.checkFailed = false

def Op.isSet : Op α → Bool
  | .set _ _ => true
  | _ => false

/-- `Set` is called at most once -/
def SetOnce (s : St α) (o : Op α) : Prop := o.isSet = true → s.sets = []

instance (s : St α) (o : Op α) : Decidable (SetOnce s o) :=
  decidable_of_iff (o.isSet = true → s.sets.isEmpty = true) (by rw [SetOnce, List.isEmpty_iff])

variable {dflt : α} {n i : ℕ} {s t : St α} {o : Op α} {ops : List (Op α)} {pc pc' : Pc α}

theorem setting_set (hpc : s.threads[i]? = some pc) (pc' : Pc α) :
    (s.threads.set i pc').countP Pc.isSetting + pc.isSetting.toNat =
      s.threads.countP Pc.isSetting + pc'.isSetting.toNat :=
  slot_countP_exchange hpc Pc.isSetting pc'

/-- a thread outside of `Set` that goes on, without reading too early or falling asleep too late -/
theorem put_inv (hi : Inv s) (hpc : s.threads[i]? = some pc) (hset : pc.isSetting = false) (hset' : pc'.isSetting = false)
    (hreading : pc' = .reading → s.count_ = 0) (hwaiting : pc'.isWaiting = true → s.count_ ≠ 0) : Inv (put s i pc') := by
  have hcount : (s.threads.set i pc').countP Pc.isSetting = s.threads.countP Pc.isSetting := by
    have h := setting_set hpc pc'
    rwa [hset, hset'] at h
  refine ⟨?_, fun h => ?_, hi.got, hi.checked⟩
  · cases hi.phase with
    | fresh hsets hc hsetting => exact Phase.fresh hsets hc (hcount.trans hsetting)
    | setting val hsets hc hsetting hval =>
      exact Phase.setting val hsets hc (hcount.trans hsetting) (forall_set hval (Or.inr (Or.inr hset')))
    | kept hsets hc hsetting hawake =>
      exact Phase.kept hsets hc (hcount.trans hsetting)
        (forall_set hawake (Bool.eq_false_iff.2 fun hw => hwaiting hw hc))
  · rcases List.mem_or_eq_of_mem_set h with hmem | heq
    · exact hi.reading hmem
    · exact hreading heq.symm

theorem look_inv (hi : Inv s) (hpc : s.threads[i]? = some pc) (hset : pc.isSetting = false) (timed : Bool) :
    Inv (look s i timed) := by
  unfold look
  split_ifs with hpos
  · exact put_inv hi hpc hset rfl nofun fun _ => hpos.ne'
  · exact put_inv hi hpc hset rfl (fun _ => Nat.eq_zero_of_not_pos hpos) nofun

/-- the thread that is in `Set`: it is the only one, and nobody reads -/
theorem Inv.setting (hi : Inv s) (hpc : s.threads[i]? = some pc) (hset : pc.isSetting = true) :
    ∃ val, s.sets = [val] ∧ s.count_ = 1 ∧ s.threads.countP Pc.isSetting = 1 ∧
      (pc = .storing val ∨ pc = .stored ∧ s.val_ = val) := by
  have hmem := List.mem_of_getElem? hpc
  have hpos : 0 < s.threads.countP Pc.isSetting := List.countP_pos_iff.2 ⟨pc, hmem, hset⟩
  cases hi.phase with
  | fresh hsets hc hsetting => omega
  | kept hsets hc hsetting hawake => omega
  | setting val hsets hc hsetting hval =>
    refine ⟨val, hsets, hc, hsetting, ?_⟩
    rcases hval pc hmem with h | h | h
    · exact Or.inl h
    · exact Or.inr h
    · rw [hset] at h
      cases h

theorem set_inv (hi : Inv s) (hpc : s.threads[i]? = some .idle) (honce : s.sets = []) (val : α) :
    Inv { put s i (.storing val) with sets := s.sets ++ [val], checkFailed := s.checkFailed || s.count_ ≠ 1 } := by
  cases hi.phase with
  | setting v hsets => rw [honce] at hsets; cases hsets
  | kept hsets => rw [honce] at hsets; cases hsets
  | fresh hsets hc hsetting =>
    have hcount : (s.threads.set i (.storing val)).countP Pc.isSetting = 1 := by
      have h := setting_set hpc (.storing val)
      rw [hsetting] at h
      exact h
    have hnone : ∀ pc ∈ s.threads, pc.isSetting = false := fun pc hmem => by
      simpa using List.countP_eq_zero.1 hsetting pc hmem
    refine ⟨Phase.setting val (by simp [honce]) hc hcount ?_, fun h => hi.reading ?_, fun v hv => ?_, ?_⟩
    · exact forall_set (fun pc hmem => Or.inr (Or.inr (hnone pc hmem))) (Or.inl rfl)
    · exact (List.mem_or_eq_of_mem_set h).resolve_right nofun
    · exact absurd (honce.symm.trans (hi.got v hv)) nofun
    · simp [hi.checked, hc]

theorem store_inv {val : α} (hi : Inv s) (hpc : s.threads[i]? = some (.storing val)) :
    Inv { put s i .stored with val_ := val } := by
  obtain ⟨v, hsets, hc, hsetting, hv⟩ := hi.setting hpc rfl
  obtain rfl : val = v := by
    rcases hv with h | ⟨h, -⟩
    · cases h
      rfl
    · cases h
  have hcount : (s.threads.set i .stored).countP Pc.isSetting = 1 := by
    have h := setting_set hpc .stored
    rw [hsetting] at h
    exact Nat.add_right_cancel h
  have hothers : ∀ pc ∈ s.threads.eraseIdx i, pc.isSetting = false := by
    have h := slot_countP hpc Pc.isSetting
    rw [hsetting] at h
    simp only [Pc.isSetting, if_true] at h
    have hzero : (s.threads.eraseIdx i).countP Pc.isSetting = 0 := by omega
    exact fun pc hmem => by simpa using List.countP_eq_zero.1 hzero pc hmem
  refine ⟨Phase.setting val hsets hc hcount fun pc hmem => ?_, fun h => hi.reading ?_, hi.got, hi.checked⟩
  · rcases (slot_mem_set hpc .stored).1 hmem with rfl | hmem
    · exact Or.inr (Or.inl ⟨rfl, rfl⟩)
    · exact Or.inr (Or.inr (hothers pc hmem))
  · exact (List.mem_or_eq_of_mem_set h).resolve_right nofun

theorem countDown_inv (hi : Inv s) (hpc : s.threads[i]? = some .stored) : Inv (countDown s i) := by
  obtain ⟨v, hsets, hc, hsetting, hv⟩ := hi.setting hpc rfl
  obtain rfl : s.val_ = v := (hv.resolve_left nofun).2
  have heq : countDown s i = { put s i .idle with
      count_ := 0, threads := wakeAll Pc.isWaiting Pc.wake (s.threads.set i .idle) } := by
    simp [countDown, put, hc]
  have hcount : (s.threads.set i .idle).countP Pc.isSetting = 0 := by
    have h := setting_set hpc .idle
    rw [hsetting] at h
    exact Nat.add_right_cancel h
  have hwoken : (wakeAll Pc.isWaiting Pc.wake (s.threads.set i .idle)).countP Pc.isSetting = 0 := by
    rw [wakeAll_countP fun pc hpc => ?_, hcount]
    cases pc <;> rfl
  rw [heq]
  refine ⟨Phase.kept hsets rfl hwoken ?_, fun _ => rfl, hi.got, hi.checked⟩
  exact wakeAll_waiters fun pc hpc => by cases pc <;> rfl

theorem read_inv (hi : Inv s) (hpc : s.threads[i]? = some .reading) : Inv { put s i .idle with got := s.got ++ [s.val_] } := by
  have hput : Inv (put s i .idle) := put_inv hi hpc rfl rfl nofun nofun
  have hzero := hi.reading (List.mem_of_getElem? hpc)
  refine ⟨hput.phase, hput.reading, fun v hv => ?_, hput.checked⟩
  rcases List.mem_append.1 hv with hv | hv
  · exact hi.got v hv
  · rw [List.mem_singleton.1 hv]
    cases hi.phase with
    | fresh hsets hc => omega
    | setting val hsets hc => omega
    | kept hsets => exact hsets

theorem step_inv (hi : Inv s) (ho : SetOnce s o) (h : (machine dflt n).step s o = some t) : Inv t := by
  cases o with
  | set i val =>
    obtain ⟨pc, hpc, hstep⟩ := Option.bind_eq_some_iff.1 h
    cases pc with
    | idle =>
      cases hstep
      exact set_inv hi hpc (ho rfl) val
    | _ => cases hstep
  | store i =>
    obtain ⟨pc, hpc, hstep⟩ := Option.bind_eq_some_iff.1 h
    cases pc with
    | storing val =>
      cases hstep
      exact store_inv hi hpc
    | _ => cases hstep
  | countDown i =>
    obtain ⟨pc, hpc, hstep⟩ := Option.bind_eq_some_iff.1 h
    cases pc with
    | stored =>
      cases hstep
      exact countDown_inv hi hpc
    | _ => cases hstep
  | wait i timed =>
    obtain ⟨pc, hpc, hstep⟩ := Option.bind_eq_some_iff.1 h
    cases pc with
    | idle =>
      cases hstep
      exact look_inv hi hpc rfl timed
    | _ => cases hstep
  | spurious i =>
    obtain ⟨pc, hpc, hstep⟩ := Option.bind_eq_some_iff.1 h
    cases pc with
    | waiting timed =>
      cases hstep
      exact put_inv hi hpc rfl rfl nofun nofun
    | _ => cases hstep
  | resume i =>
    obtain ⟨pc, hpc, hstep⟩ := Option.bind_eq_some_iff.1 h
    cases pc with
    | woken timed =>
      cases hstep
      exact look_inv hi hpc rfl timed
    | _ => cases hstep
  | expire i =>
    obtain ⟨pc, hpc, hstep⟩ := Option.bind_eq_some_iff.1 h
    cases pc with
    | waiting timed =>
      cases timed <;> cases hstep
      exact put_inv hi hpc rfl rfl nofun nofun
    | woken timed =>
      cases timed <;> cases hstep
      exact put_inv hi hpc rfl rfl nofun nofun
    | _ => cases hstep
  | read i =>
    obtain ⟨pc, hpc, hstep⟩ := Option.bind_eq_some_iff.1 h
    cases pc with
    | reading =>
      cases hstep
      exact read_inv hi hpc
    | _ => cases hstep

theorem init_inv (dflt : α) (n : ℕ) : Inv (machine dflt n).init := by
  have hidle : ∀ pc ∈ (machine dflt n).init.threads, pc = .idle := fun pc hpc => List.eq_of_mem_replicate hpc
  refine ⟨Phase.fresh rfl rfl (List.countP_eq_zero.2 fun pc hpc => by simp [hidle pc hpc, Pc.isSetting]),
    fun h => absurd (hidle _ h) nofun, nofun, rfl⟩

/-- **The promise is kept.** Every value that was read is the one that was set; while a thread has yet to store it, nobody is
in front of a read; and once the latch is open nobody sleeps. -/
theorem promise_kept (honce : (machine dflt n).Along SetOnce (machine dflt n).init ops)
    (h : (machine dflt n).run (machine dflt n).init ops = some s) :
    (∀ v ∈ s.got, s.sets = [v]) ∧ (∀ val, .storing val ∈ s.threads → .reading ∉ s.threads) ∧
      (s.count_ = 0 → ∀ pc ∈ s.threads, pc.isWaiting = false) ∧ s.checkFailed = false := by
  have hi : Inv s := Machine.run_inv_along (fun _ _ _ hi ho hst => step_inv hi ho hst) (init_inv dflt n) honce h
  refine ⟨hi.got, fun val hval hread => ?_, fun hzero => ?_, hi.checked⟩
  · obtain ⟨i, hpc⟩ := List.mem_iff_getElem?.1 hval
    obtain ⟨-, -, hone, -⟩ := hi.setting hpc rfl
    exact absurd (hi.reading hread) (by omega)
  · cases hi.phase with
    | fresh hsets hc => omega
    | setting val hsets hc => omega
    | kept hsets hc hsetting hawake => exact hawake

/-! ### A run -/

/-- thread 1 waits before the value is set, thread 2 gives up, thread 0 sets it -/
def threeOps : List (Op ℕ) :=
  [.wait 1 false, .set 0 7, .wait 2 true, .store 0, .expire 2, .spurious 1, .resume 1, .countDown 0, .resume 1, .wait 2 true,
    .read 1]

def threeState : St ℕ := ⟨0, 7, [.idle, .idle, .reading], [7], [7], false⟩

theorem promise_kept_threeThreads :
    (∀ v ∈ threeState.got, threeState.sets = [v]) ∧ (∀ val, .storing val ∈ threeState.threads → .reading ∉ threeState.threads) ∧
      (threeState.count_ = 0 → ∀ pc ∈ threeState.threads, pc.isWaiting = false) ∧ threeState.checkFailed = false := by
  exact @promise_kept ℕ 0 3 threeState threeOps (by decide +kernel) (by decide +kernel)

end Bboy.Promise
