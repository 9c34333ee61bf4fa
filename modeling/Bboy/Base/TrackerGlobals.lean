/-
Global trackers (`mem_tracker.cc`): when all children of the root are made by `FindOrCreateGlobalTracker`, an id has one
live tracker.

`find_or_create_lock` is held from the lookup to the end of the creation, but references come and go without it, and a
tracker whose last reference is gone stays on the root's list until `~MemTracker` takes it off.

- `Covers`: what the lookup has still to look at holds every live tracker with the id. A tracker that it could not lock is
  dead, and never comes back (`step_refs`).
- `GlobalInv`: the invariant; `step_global`: every step keeps it.
- `global_tracker_unique`: at every moment, at most one live child of the root has an id, and those who hold a tracker for
  an id hold the same one.
Witness: `global_tracker_unique_twoThreads`.
-/
import Bboy.Base.TrackerReferences

namespace Bboy.MemTracker.Registry

open Core

/-- a child of the root that somebody refers to -/
def LiveChild (s : St) (c : ℕ) : Prop := (s.tracker c).parent = some 0 ∧ 0 < s.refs c

/-- a user, or a running call, has a reference to the tracker -/
def Holds (s : St) (c : ℕ) : Prop := 0 < s.held c ∨ 0 < inFrames s c

/-- no child of the root is made by `CreateTracker` directly -/
def GlobalOnly : Op → Prop
  | .createTracker _ _ _ parent => parent.getD 0 ≠ 0
  | _ => True

/-- every live child of the root with the id is on the list -/
def Covers (s : St) (id : String) (children : List ℕ) : Prop :=
  ∀ c, LiveChild s c → (s.tracker c).id = id → c ∈ children

/-- the tracker that the frame is about to put on the root's list -/
def Frame.registers : Frame → Option ℕ
  | .creating n _ _ true .adding => some n
  | .creating n _ _ true .inserting => some n
  | _ => none

/-- what a frame of `FindOrCreateGlobalTracker` knows; `~MemTracker` runs for dead trackers only -/
def GlobalFrame (s : St) : Frame → Prop
  | .finding parent _ id (some _) (.searching children found) => parent = 0 ∧ (found = [] → Covers s id children)
  | .finding parent _ id (some _) (.dropping _ children found) => parent = 0 ∧ (found = [] → Covers s id children)
  | .finding parent _ id (some _) (.clearing none _) => parent = 0 ∧ Covers s id []
  | .finding parent _ _ (some _) _ => parent = 0
  | .creating _ parent _ true _ => parent = 0
  | .destroying n _ _ => n < s.next ∧ s.refs n = 0
  | _ => True

structure GlobalInv (s : St) : Prop where
  refs : RefInv s
  exclusive : (s.threads.flatten.filter Frame.inGlobal).length ≤ 1
  registered : ∀ c, LiveChild s c → c ∈ s.children 0 ∨ ∃ f ∈ s.threads.flatten, f.registers = some c
  unique : ∀ c d, LiveChild s c → LiveChild s d → (s.tracker c).id = (s.tracker d).id → c = d
  frames : ∀ f ∈ s.threads.flatten, GlobalFrame s f

variable {s t u : St} {i n p : ℕ} {f f' : Frame} {old new below : List Frame}

/-! ## Frame rules -/

/-- the live children of the root were there before, under the same ids -/
def NoNewChild (s t : St) : Prop := ∀ c, LiveChild t c → LiveChild s c ∧ (t.tracker c).id = (s.tracker c).id

theorem noNewChild (h : RefStep s t) (hnext : t.next = s.next) : NoNewChild s t := by
  intro c ⟨hparent, hlive⟩
  have hc : c < s.next := hnext ▸ h.inv.lt_next hlive
  refine ⟨⟨(h.parent c hc).symm.trans hparent, ?_⟩, h.id c hc⟩
  by_contra hdead
  exact hlive.ne' (h.dead c hc (Nat.eq_zero_of_not_pos hdead))

theorem Covers.mono {id : String} {children : List ℕ} (h : Covers s id children) (hnew : NoNewChild s t) :
    Covers t id children := by
  intro c hc hid
  obtain ⟨hlive, hsame⟩ := hnew c hc
  exact h c hlive (hsame.symm.trans hid)

theorem GlobalFrame.mono (h : GlobalFrame s f) (href : RefStep s t) (hnew : NoNewChild s t) : GlobalFrame t f := by
  cases f with
  | finding parent arg id global pc =>
    cases global with
    | none => trivial
    | some byteLimit =>
      cases pc with
      | searching children found => exact ⟨h.1, fun hf => (h.2 hf).mono hnew⟩
      | dropping child children found => exact ⟨h.1, fun hf => (h.2 hf).mono hnew⟩
      | clearing result found =>
        cases result with
        | none => exact ⟨h.1, h.2.mono hnew⟩
        | some m => exact h
      | locking => exact h
      | copying => exact h
  | creating m parent arg global pc => cases global <;> exact h
  | destroying m parent pc => exact ⟨h.1.trans_le href.next, href.dead m h.1 h.2⟩
  | _ => trivial

/-- a step of thread `i` that makes no child of the root -/
theorem GlobalInv.step (h : GlobalInv s) (href : RefStep s t) (hnew : NoNewChild s t) (hi : s.threads[i]? = some old)
    (hthreads : t.threads = s.threads.set i new) (hexclusive : (t.threads.flatten.filter Frame.inGlobal).length ≤ 1)
    (hchildren : ∀ c, LiveChild t c → c ∈ s.children 0 → c ∈ t.children 0)
    (hregisters : ∀ g ∈ old, ∀ c, g.registers = some c → c ∈ t.children 0 ∨ ∃ g' ∈ new, g'.registers = some c)
    (hframes : ∀ g ∈ new, g ∈ old ∨ GlobalFrame t g) : GlobalInv t := by
  have hbefore : ∀ g, g ∈ s.threads.flatten ↔ g ∈ old ∨ g ∈ (s.threads.eraseIdx i).flatten := by
    intro g
    rw [((slot_perm hi).flatten).mem_iff, List.flatten_cons, List.mem_append]
  have hafter : ∀ g, g ∈ t.threads.flatten ↔ g ∈ new ∨ g ∈ (s.threads.eraseIdx i).flatten := by
    intro g
    rw [hthreads, ((slot_set_perm hi new).flatten).mem_iff, List.flatten_cons, List.mem_append]
  refine ⟨href.inv, hexclusive, fun c hc => ?_, fun c d hc hd hid => ?_, fun g hg => ?_⟩
  · rcases h.registered c (hnew c hc).1 with hin | ⟨g, hg, hreg⟩
    · exact Or.inl (hchildren c hc hin)
    · rcases (hbefore g).1 hg with hg | hg
      · rcases hregisters g hg c hreg with hin | ⟨g', hg', hreg'⟩
        · exact Or.inl hin
        · exact Or.inr ⟨g', (hafter g').2 (Or.inl hg'), hreg'⟩
      · exact Or.inr ⟨g, (hafter g).2 (Or.inr hg), hreg⟩
  · obtain ⟨hc, hcid⟩ := hnew c hc
    obtain ⟨hd, hdid⟩ := hnew d hd
    exact h.unique c d hc hd (hcid.symm.trans (hid.trans hdid))
  · rcases (hafter g).1 hg with hg | hg
    · rcases hframes g hg with hg | hg
      · exact (h.frames g ((hbefore g).2 (Or.inl hg))).mono href hnew
      · exact hg
    · exact (h.frames g ((hbefore g).2 (Or.inr hg))).mono href hnew

/-- the lock stays with those who have it -/
theorem exclusive_set (h : GlobalInv s) (hi : s.threads[i]? = some old) (hthreads : t.threads = s.threads.set i new)
    (hle : (new.filter Frame.inGlobal).length ≤ (old.filter Frame.inGlobal).length) :
    (t.threads.flatten.filter Frame.inGlobal).length ≤ 1 := by
  have hold := h.exclusive
  rw [(((slot_perm hi).flatten).filter Frame.inGlobal).length_eq, List.flatten_cons, List.filter_append,
    List.length_append] at hold
  rw [hthreads, (((slot_set_perm hi new).flatten).filter Frame.inGlobal).length_eq, List.flatten_cons,
    List.filter_append, List.length_append]
  omega

/-- the frame on top of the stack of thread `i` makes way for others -/
theorem GlobalInv.replaces (h : GlobalInv s) (top : List Frame) (hi : s.threads[i]? = some (f :: below)) (hthreads : t.threads = s.threads)
    (hnext : t.next = s.next) (hchildren : t.children = s.children) (href : RefStep s (setStack t i (top ++ below)))
    (hexclusive : (top.filter Frame.inGlobal).length ≤ ([f].filter Frame.inGlobal).length)
    (hregisters : ∀ c, f.registers = some c → ∃ g ∈ top, g.registers = some c)
    (hframes : ∀ g ∈ top, GlobalFrame (setStack t i (top ++ below)) g) : GlobalInv (setStack t i (top ++ below)) := by
  have hset : (setStack t i (top ++ below)).threads = s.threads.set i (top ++ below) := by rw [setStack, hthreads]
  have hlock : ((top ++ below).filter Frame.inGlobal).length ≤ ((f :: below).filter Frame.inGlobal).length := by
    rw [List.filter_append, List.length_append, ← List.singleton_append, List.filter_append, List.length_append]
    omega
  refine h.step href (noNewChild href hnext) hi hset (exclusive_set h hi hset hlock) (fun c _ hc => ?_)
    (fun g hg c hreg => ?_) fun g hg => ?_
  · change c ∈ t.children 0
    rwa [hchildren]
  · rcases List.mem_cons.1 hg with rfl | hg
    · obtain ⟨g', hg', hreg'⟩ := hregisters c hreg
      exact Or.inr ⟨g', List.mem_append_left below hg', hreg'⟩
    · exact Or.inr ⟨g, List.mem_append_right top hg, hreg⟩
  · rcases List.mem_append.1 hg with hg | hg
    · exact Or.inr (hframes g hg)
    · exact Or.inl (List.mem_cons_of_mem f hg)

/-- the frame on top goes on -/
theorem GlobalInv.goesOn (h : GlobalInv s) (hi : s.threads[i]? = some (f :: below)) (hthreads : t.threads = s.threads)
    (hnext : t.next = s.next) (hchildren : t.children = s.children) (href : RefStep s (setStack t i (f' :: below)))
    (hexclusive : f'.inGlobal = f.inGlobal) (hregisters : ∀ c, f.registers = some c → f'.registers = some c)
    (hframe : GlobalFrame (setStack t i (f' :: below)) f') : GlobalInv (setStack t i (f' :: below)) := by
  refine h.replaces [f'] hi hthreads hnext hchildren href ?_ (fun c hc => ⟨f', List.mem_singleton.2 rfl, hregisters c hc⟩)
    fun g hg => ?_
  · cases hf : f.inGlobal with
    | true => simp [hexclusive, hf]
    | false => simp [hexclusive, hf]
  · rw [List.mem_singleton.1 hg]
    exact hframe

/-- a call that registers nothing returns -/
theorem GlobalInv.returns (h : GlobalInv s) (hi : s.threads[i]? = some (f :: below)) (hthreads : t.threads = s.threads)
    (hnext : t.next = s.next) (hchildren : t.children = s.children) (href : RefStep s (setStack t i below))
    (hregisters : f.registers = none) : GlobalInv (setStack t i below) := by
  refine h.replaces [] hi hthreads hnext hchildren href (Nat.zero_le _) (fun c hc => ?_) fun g hg => ?_
  · rw [hregisters] at hc
    cases hc
  · exact absurd hg List.not_mem_nil

theorem mem_destructor (h : f ∈ destructor s n) : ∃ p, f = .destroying n p .locking := by
  unfold destructor at h
  cases hp : (s.tracker n).parent with
  | none =>
    rw [hp] at h
    exact absurd h List.not_mem_nil
  | some p =>
    rw [hp] at h
    exact ⟨p, List.mem_singleton.1 h⟩

theorem destructor_inGlobal (s : St) (n : ℕ) : (destructor s n).filter Frame.inGlobal = [] := by
  unfold destructor
  cases (s.tracker n).parent <;> rfl

/-- the frame on top drops a reference: those that follow it are not concerned, whether the tracker dies or not -/
theorem GlobalInv.drops (h : GlobalInv s) (top : List Frame) (hi : s.threads[i]? = some (f :: below)) (hn : 0 < s.refs n)
    (href : RefStep s (dropRef s i n (top ++ below)))
    (hexclusive : (top.filter Frame.inGlobal).length ≤ ([f].filter Frame.inGlobal).length)
    (hregisters : f.registers = none) (hframes : ∀ g ∈ top, GlobalFrame s g) :
    GlobalInv (dropRef s i n (top ++ below)) := by
  have hnone : ∀ (top' : List Frame) c, f.registers = some c → ∃ g ∈ top', g.registers = some c := by
    intro top' c hc
    rw [hregisters] at hc
    cases hc
  by_cases hlast : s.refs n = 1
  · rw [dropRef_last hlast, ← List.append_assoc] at href ⊢
    refine h.replaces _ hi rfl rfl rfl href ?_ (hnone _) fun g hg => ?_
    · rw [List.filter_append, destructor_inGlobal, List.nil_append]
      exact hexclusive
    · rcases List.mem_append.1 hg with hg | hg
      · obtain ⟨p, rfl⟩ := mem_destructor hg
        exact ⟨h.refs.lt_next hn, by simp [setStack]⟩
      · exact (hframes g hg).mono href (noNewChild href rfl)
  · have hmany : 1 < s.refs n := by omega
    rw [dropRef_live hmany] at href ⊢
    exact h.replaces top hi rfl rfl rfl href hexclusive (hnone _) fun g hg => (hframes g hg).mono href (noNewChild href rfl)

/-! ## Steps -/

theorem GlobalInv.frame_top (h : GlobalInv s) (hi : s.threads[i]? = some (f :: below)) : GlobalFrame s f :=
  h.frames f (List.mem_flatten.2 ⟨_, List.mem_of_getElem? hi, List.mem_cons_self⟩)

theorem global_creating {parent : ℕ} {arg : Option ℕ} {global : Bool} {pc : CreatePc} (h : GlobalInv s)
    (hi : s.threads[i]? = some (.creating n parent arg global pc :: below))
    (hs : stepCreating s i n parent arg global below pc = some t) : GlobalInv t := by
  have href := refStep_creating h.refs hi hs
  have hframe := h.frame_top hi
  have hsame : ∀ pc', GlobalFrame s (.creating n parent arg global pc') := by
    intro pc'
    cases global <;> exact hframe
  cases pc with
  | adding =>
    simp only [stepCreating] at hs
    split_ifs at hs
    cases hs
    refine h.goesOn hi rfl rfl rfl href rfl (fun c hc => ?_) ((hsame _).mono href (noNewChild href rfl))
    cases global <;> exact hc
  | inserting =>
    cases hs
    have hset : ∀ c, c ∈ s.children 0 → c ∈ (setChildren s parent (s.children parent ++ [n])).children 0 := by
      intro c hc
      by_cases hp : parent = 0
      · simp [setChildren, hp, hc]
      · simpa [setChildren, Ne.symm hp] using hc
    have hlock := exclusive_set (t := setStack s i (.creating n parent arg global (.initialising (some n)) :: below)) h hi
      rfl (by cases global <;> exact le_rfl)
    refine h.step href (noNewChild href rfl) hi rfl hlock (fun c _ hc => hset c hc) (fun g hg c hreg => ?_) fun g hg => ?_
    · rcases List.mem_cons.1 hg with rfl | hg
      · cases global with
        | false => cases hreg
        | true =>
          obtain rfl : parent = 0 := hframe
          obtain rfl : n = c := Option.some.inj hreg
          left
          simp [setStack, setChildren]
      · exact Or.inr ⟨g, List.mem_cons_of_mem _ hg, hreg⟩
    · rcases List.mem_cons.1 hg with rfl | hg
      · exact Or.inr ((hsame _).mono href (noNewChild href rfl))
      · exact Or.inl (List.mem_cons_of_mem _ hg)
  | initialising cursor =>
    cases cursor with
    | some c =>
      cases hs
      refine h.goesOn hi rfl rfl rfl href rfl (fun c hc => ?_) ((hsame _).mono href (noNewChild href rfl))
      cases global <;> cases hc
    | none =>
      cases hs
      obtain ⟨hnext, -, hchildren, hthreads, -⟩ := (sameTree_hold s n).trans (sameTree_giveBack (hold s n) arg)
      refine h.returns hi hthreads hnext hchildren href ?_
      cases global <;> rfl

/-- whoever has the lock has it alone -/
theorem lock_alone (h : GlobalInv s) (hi : s.threads[i]? = some (f :: below)) (hf : f.inGlobal = true) :
    ∀ g ∈ below ++ (s.threads.eraseIdx i).flatten, g.inGlobal = false := by
  have hlen := h.exclusive
  rw [(((slot_perm hi).flatten).filter Frame.inGlobal).length_eq, List.flatten_cons, List.cons_append,
    List.filter_cons_of_pos hf, List.length_cons] at hlen
  have hnil : (below ++ (s.threads.eraseIdx i).flatten).filter Frame.inGlobal = [] :=
    List.length_eq_zero_iff.1 (by omega)
  intro g hg
  exact Bool.eq_false_iff.2 (List.filter_eq_nil_iff.1 hnil g hg)

theorem inGlobal_of_registers {c : ℕ} (h : f.registers = some c) : f.inGlobal = true := by
  cases f with
  | creating m parent arg global pc =>
    cases global with
    | true => rfl
    | false => cases h
  | _ => cases h

/-- with the lock in hand, all live children of the root are on its list -/
theorem registered_of_lock (h : GlobalInv s) (hi : s.threads[i]? = some (f :: below)) (hf : f.inGlobal = true)
    (hnone : f.registers = none) (c : ℕ) (hc : LiveChild s c) : c ∈ s.children 0 := by
  rcases h.registered c hc with hin | ⟨g, hg, hreg⟩
  · exact hin
  · rw [((slot_perm hi).flatten).mem_iff, List.flatten_cons, List.cons_append, List.mem_cons] at hg
    rcases hg with rfl | hg
    · rw [hnone] at hreg
      cases hreg
    · have hfree := lock_alone h hi hf g hg
      rw [inGlobal_of_registers hreg] at hfree
      cases hfree

theorem GlobalFrame.mono_outside (h : GlobalFrame s f) (hf : f.inGlobal = false) (href : RefStep s t) :
    GlobalFrame t f := by
  cases f with
  | finding parent arg id global pc =>
    cases global with
    | none => trivial
    | some byteLimit => cases hf
  | creating m parent arg global pc =>
    cases global with
    | false => trivial
    | true => cases hf
  | destroying m parent pc => exact ⟨h.1.trans_le href.next, href.dead m h.1 h.2⟩
  | _ => trivial

/-- the lookup has found no live tracker: the new one is the only one with its id -/
theorem global_construct {arg : Option ℕ} {byteLimit : ℤ} {id : String} (h : GlobalInv s)
    (hi : s.threads[i]? = some (.finding p arg id (some byteLimit) (.clearing none []) :: below))
    (href : RefStep s (setStack (construct s 0 byteLimit id) i (.creating s.next 0 none true .adding :: below))) :
    GlobalInv (setStack (construct s 0 byteLimit id) i (.creating s.next 0 none true .adding :: below)) := by
  obtain ⟨-, hcovers⟩ : p = 0 ∧ Covers s id [] := h.frame_top hi
  have halone := lock_alone h hi rfl
  have hnext : ∀ c, LiveChild (setStack (construct s 0 byteLimit id) i
      (.creating s.next 0 none true .adding :: below)) c → c < s.next ∨ c = s.next := by
    intro c hc
    exact Nat.lt_succ_iff_lt_or_eq.1 (href.inv.lt_next hc.2)
  have hold : ∀ c < s.next, LiveChild (setStack (construct s 0 byteLimit id) i
      (.creating s.next 0 none true .adding :: below)) c → LiveChild s c := by
    intro c hlt hc
    refine ⟨(href.parent c hlt).symm.trans hc.1, ?_⟩
    by_contra hdead
    exact hc.2.ne' (href.dead c hlt (Nat.eq_zero_of_not_pos hdead))
  have hnewId : ((setStack (construct s 0 byteLimit id) i
      (.creating s.next 0 none true .adding :: below)).tracker s.next).id = id := by
    simp [setStack, construct, addRef]
  -- a live tracker with the new one's id would have been found
  have hother : ∀ c < s.next, LiveChild (setStack (construct s 0 byteLimit id) i
      (.creating s.next 0 none true .adding :: below)) c →
      ((setStack (construct s 0 byteLimit id) i
        (.creating s.next 0 none true .adding :: below)).tracker c).id ≠ id := by
    intro c hlt hc hid
    exact absurd (hcovers c (hold c hlt hc) ((href.id c hlt).symm.trans hid)) List.not_mem_nil
  have hlock : ∀ g, g ∈ (s.threads.set i (.creating s.next 0 none true .adding :: below)).flatten ↔
      g = .creating s.next 0 none true .adding ∨ g ∈ below ++ (s.threads.eraseIdx i).flatten := by
    intro g
    rw [((slot_set_perm hi _).flatten).mem_iff, List.flatten_cons, List.cons_append, List.mem_cons]
  refine ⟨href.inv, exclusive_set h hi rfl le_rfl, fun c hc => ?_, fun c d hc hd hid => ?_, fun g hg => ?_⟩
  · rcases hnext c hc with hlt | rfl
    · exact Or.inl (registered_of_lock h hi rfl rfl c (hold c hlt hc))
    · exact Or.inr ⟨_, (hlock _).2 (Or.inl rfl), rfl⟩
  · rcases hnext c hc with hc' | rfl
    · rcases hnext d hd with hd' | rfl
      · exact h.unique c d (hold c hc' hc) (hold d hd' hd)
          ((href.id c hc').symm.trans (hid.trans (href.id d hd')))
      · exact absurd (hid.trans hnewId) (hother c hc' hc)
    · rcases hnext d hd with hd' | rfl
      · exact absurd (hid.symm.trans hnewId) (hother d hd' hd)
      · rfl
  · rcases (hlock g).1 hg with rfl | hg
    · exact rfl
    · refine (h.frames g ?_).mono_outside (halone g hg) href
      rw [((slot_perm hi).flatten).mem_iff, List.flatten_cons, List.cons_append]
      exact List.mem_cons_of_mem _ hg

/-- what is left to look at after a child that is not the one -/
theorem Covers.tail {id : String} {child : ℕ} {children : List ℕ} (h : Covers s id (child :: children))
    (hchild : LiveChild s child → (s.tracker child).id ≠ id) : Covers s id children := by
  intro c hc hid
  rcases List.mem_cons.1 (h c hc hid) with rfl | hin
  · exact absurd hid (hchild hc)
  · exact hin

/-- a lookup goes on; only that for a global tracker has something to show -/
theorem GlobalInv.lookupGoesOn {parent : ℕ} {arg : Option ℕ} {id : String} {global : Option ℤ} {pc pc' : FindPc}
    (h : GlobalInv s) (hi : s.threads[i]? = some (.finding parent arg id global pc :: below))
    (hthreads : t.threads = s.threads) (hnext : t.next = s.next) (hchildren : t.children = s.children)
    (href : RefStep s (setStack t i (.finding parent arg id global pc' :: below)))
    (hframe : ∀ byteLimit, global = some byteLimit → GlobalFrame (setStack t i (.finding parent arg id global pc' :: below))
      (.finding parent arg id global pc')) :
    GlobalInv (setStack t i (.finding parent arg id global pc' :: below)) := by
  refine h.goesOn hi hthreads hnext hchildren href rfl (fun c hc => by cases hc) ?_
  cases global with
  | none => trivial
  | some byteLimit => exact hframe byteLimit rfl

theorem global_finding {parent : ℕ} {arg : Option ℕ} {id : String} {global : Option ℤ} {pc : FindPc} (h : GlobalInv s)
    (hi : s.threads[i]? = some (.finding parent arg id global pc :: below))
    (hs : stepFinding s i parent arg id global below pc = some t) : GlobalInv t := by
  have href := refStep_finding h.refs hi hs
  have hframe := h.frame_top hi
  cases stepFinding_cases hs with
  | locking hfree =>
    refine h.lookupGoesOn hi rfl rfl rfl href ?_
    rintro byteLimit rfl
    exact hframe
  | copying =>
    refine h.lookupGoesOn hi rfl rfl rfl href ?_
    rintro byteLimit rfl
    obtain rfl : parent = 0 := hframe
    have hcovers : Covers s id (s.children 0) := fun c hc _ => registered_of_lock h hi rfl rfl c hc
    exact ⟨rfl, fun _ => hcovers.mono (noNewChild href rfl)⟩
  | matching hlive hid =>
    refine h.lookupGoesOn hi rfl rfl rfl href ?_
    rintro byteLimit rfl
    exact ⟨hframe.1, fun hf => by simp at hf⟩
  | @other global child children found hlive hid =>
    refine h.lookupGoesOn hi rfl rfl rfl href ?_
    rintro byteLimit rfl
    have hrest : found = [] → Covers s id children := fun hf => (hframe.2 hf).tail fun _ => hid
    exact ⟨hframe.1, fun hf => (hrest hf).mono (noNewChild href rfl)⟩
  | @expired global child children found hdead =>
    refine h.lookupGoesOn hi rfl rfl rfl href ?_
    rintro byteLimit rfl
    have hrest : found = [] → Covers s id children := fun hf => (hframe.2 hf).tail fun hc => absurd hc.2 hdead
    exact ⟨hframe.1, fun hf => (hrest hf).mono (noNewChild href rfl)⟩
  | @searched global found =>
    refine h.lookupGoesOn hi rfl rfl rfl href ?_
    rintro byteLimit rfl
    cases found with
    | nil => exact ⟨hframe.1, (hframe.2 rfl).mono (noNewChild href rfl)⟩
    | cons m found => exact hframe.1
  | @dropping global child children found =>
    have hn : 0 < s.refs child := h.refs.held_live hi List.mem_cons_self List.mem_cons_self
    refine h.drops [_] hi hn href ?_ rfl fun g hg => ?_
    · cases global <;> exact le_rfl
    · rw [List.mem_singleton.1 hg]
      cases global with
      | none => trivial
      | some byteLimit => exact hframe
  | @clearing global result child found =>
    have hn : 0 < s.refs child := by
      apply h.refs.held_live hi List.mem_cons_self
      simp [Frame.holds]
    refine h.drops [_] hi hn href ?_ rfl fun g hg => ?_
    · cases global <;> exact le_rfl
    · rw [List.mem_singleton.1 hg]
      cases global with
      | none => trivial
      | some byteLimit => cases result <;> exact hframe
  | @returnFound global m =>
    obtain ⟨hnext, -, hchildren, hthreads, -⟩ := (sameTree_hold s m).trans (sameTree_giveBack (hold s m) arg)
    exact h.returns hi hthreads hnext hchildren href rfl
  | returnNone =>
    obtain ⟨hnext, -, hchildren, hthreads, -⟩ := sameTree_giveBack s arg
    exact h.returns hi hthreads hnext hchildren href rfl
  | construct => exact global_construct h hi href

theorem global_listing {trackers toProcess : List ℕ} {pc : ListPc} (h : GlobalInv s)
    (hi : s.threads[i]? = some (.listing trackers toProcess pc :: below))
    (hs : stepListing s i trackers toProcess below pc = some t) : GlobalInv t := by
  have href := refStep_listing h.refs hi hs
  have hregisters : ∀ {g : Frame} c, Frame.registers (.listing trackers toProcess pc) = some c → g.registers = some c :=
    fun c hc => by cases hc
  cases stepListing_cases hs with
  | returns =>
    obtain ⟨hnext, -, hchildren, hthreads, -⟩ := sameTree_holdAll s trackers
    exact h.returns hi hthreads hnext hchildren href rfl
  | next => exact h.goesOn hi rfl rfl rfl href rfl hregisters trivial
  | locking hfree => exact h.goesOn hi rfl rfl rfl href rfl hregisters trivial
  | live hlive => exact h.goesOn hi rfl rfl rfl href rfl hregisters trivial
  | expired hdead => exact h.goesOn hi rfl rfl rfl href rfl hregisters trivial
  | iterated => exact h.goesOn hi rfl rfl rfl href rfl hregisters trivial

theorem global_logging {nested : Bool} {pc : LogPc} (h : GlobalInv s)
    (hi : s.threads[i]? = some (.logging n nested pc :: below))
    (hs : stepLogging s i n nested below pc = some t) : GlobalInv t := by
  have href := refStep_logging h.refs hi hs
  have hregisters : ∀ {g : Frame} c, Frame.registers (.logging n nested pc) = some c → g.registers = some c :=
    fun c hc => by cases hc
  cases stepLogging_cases hs with
  | locking hfree => exact h.goesOn hi rfl rfl rfl href rfl hregisters trivial
  | @live nested child children hlive =>
    refine h.replaces [.logging child true .locking, .logging n nested (.inChild child children)] hi rfl rfl rfl href
      le_rfl (fun c hc => by cases hc) fun g hg => ?_
    rcases List.mem_cons.1 hg with rfl | hg
    · trivial
    · rw [List.mem_singleton.1 hg]
      trivial
  | expired hdead => exact h.goesOn hi rfl rfl rfl href rfl hregisters trivial
  | @inChild nested child children =>
    have hn : 0 < s.refs child := h.refs.held_live hi List.mem_cons_self List.mem_cons_self
    refine h.drops [_] hi hn href le_rfl rfl fun g hg => ?_
    rw [List.mem_singleton.1 hg]
    trivial
  | returnNested => exact h.returns hi rfl rfl rfl href rfl
  | returns => exact h.returns hi rfl rfl rfl href rfl

/-- `~MemTracker` takes a dead tracker off the list of its parent -/
theorem global_destroying {parent : ℕ} {pc : DestroyPc} (h : GlobalInv s)
    (hi : s.threads[i]? = some (.destroying n parent pc :: below))
    (hs : stepDestroying s i n parent below pc = some t) : GlobalInv t := by
  have href := refStep_destroying h.refs hi hs
  have hframe : n < s.next ∧ s.refs n = 0 := h.frame_top hi
  cases pc with
  | locking =>
    simp only [stepDestroying] at hs
    split_ifs at hs
    cases hs
    exact h.goesOn hi rfl rfl rfl href rfl (fun c hc => by cases hc) hframe
  | erasing =>
    cases hs
    have hlock := exclusive_set (t := setStack s i (.destroying n parent .releasingParent :: below)) h hi rfl le_rfl
    refine h.step href (noNewChild href rfl) hi rfl hlock (fun c hc hin => ?_) (fun g hg c hreg => ?_) fun g hg => ?_
    · have hne : c ≠ n := by
        rintro rfl
        exact hc.2.ne' hframe.2
      by_cases hp : parent = 0
      · simpa [setStack, setChildren, hp] using (List.mem_erase_of_ne hne).2 hin
      · simpa [setStack, setChildren, Ne.symm hp] using hin
    · rcases List.mem_cons.1 hg with rfl | hg
      · cases hreg
      · exact Or.inr ⟨g, List.mem_cons_of_mem _ hg, hreg⟩
    · rcases List.mem_cons.1 hg with rfl | hg
      · exact Or.inr hframe
      · exact Or.inl (List.mem_cons_of_mem _ hg)
  | releasingParent =>
    cases hs
    have hn : 0 < s.refs parent := h.refs.held_live hi List.mem_cons_self List.mem_cons_self
    exact h.drops [] hi hn href (Nat.zero_le _) rfl fun g hg => absurd hg List.not_mem_nil

theorem global_consuming {bytes : ℤ} {pc : ConsumePc} (h : GlobalInv s)
    (hi : s.threads[i]? = some (.consuming n bytes pc :: below))
    (hs : stepConsuming s i n bytes below pc = some t) : GlobalInv t := by
  have href := refStep_consuming h.refs hi hs
  cases pc with
  | starting =>
    cases hs
    exact h.goesOn hi rfl rfl rfl href rfl (fun c hc => by cases hc) trivial
  | adding added todo =>
    cases todo with
    | cons m todo =>
      cases hs
      exact h.goesOn hi rfl rfl rfl href rfl (fun c hc => by cases hc) trivial
    | nil =>
      cases hs
      exact h.returns hi rfl rfl rfl href rfl

theorem global_stepTop (h : GlobalInv s) (hi : s.threads[i]? = some (f :: below))
    (hs : stepTop s i f below = some t) : GlobalInv t := by
  cases f with
  | creating n parent arg global pc => exact global_creating h hi hs
  | lockingGlobal byteLimit id =>
    have href := refStep_stepTop h.refs hi hs
    simp only [stepTop] at hs
    split_ifs at hs with hfree
    cases hs
    -- nobody has the lock
    have hnone : ∀ g ∈ s.threads.flatten, g.inGlobal = false := by
      intro g hg
      obtain ⟨stack, hstack, hg⟩ := List.mem_flatten.1 hg
      exact Bool.eq_false_iff.2 fun hin => hfree ⟨stack, hstack, g, hg, hin⟩
    have hlock : ((s.threads.set i (.finding 0 none id (some byteLimit) .locking :: below)).flatten.filter
        Frame.inGlobal).length ≤ 1 := by
      have hrest : ∀ g ∈ below ++ (s.threads.eraseIdx i).flatten, ¬ g.inGlobal = true := by
        intro g hg
        rw [hnone g]
        · exact Bool.false_ne_true
        · rw [((slot_perm hi).flatten).mem_iff, List.flatten_cons, List.cons_append]
          exact List.mem_cons_of_mem _ hg
      rw [(((slot_set_perm hi _).flatten).filter Frame.inGlobal).length_eq, List.flatten_cons, List.cons_append,
        List.filter_cons_of_pos rfl, List.filter_eq_nil_iff.2 hrest]
      exact le_rfl
    refine h.step href (noNewChild href rfl) hi rfl hlock (fun c _ hin => hin) (fun g hg c hreg => ?_) fun g hg => ?_
    · rcases List.mem_cons.1 hg with rfl | hg
      · cases hreg
      · exact Or.inr ⟨g, List.mem_cons_of_mem _ hg, hreg⟩
    · rcases List.mem_cons.1 hg with rfl | hg
      · exact Or.inr rfl
      · exact Or.inl (List.mem_cons_of_mem _ hg)
  | finding parent arg id global pc => exact global_finding h hi hs
  | listing trackers toProcess pc => exact global_listing h hi hs
  | logging n nested pc => exact global_logging h hi hs
  | destroying n parent pc => exact global_destroying h hi hs
  | consuming n bytes pc => exact global_consuming h hi hs

/-- a call starts -/
theorem GlobalInv.starts (h : GlobalInv s) (hi : s.threads[i]? = some []) (href : RefStep s t) (hnew : NoNewChild s t)
    (hthreads : t.threads = s.threads.set i [f]) (hchildren : t.children = s.children) (hf : f.inGlobal = false)
    (hframe : GlobalFrame t f) : GlobalInv t := by
  have hlock : (t.threads.flatten.filter Frame.inGlobal).length ≤ 1 := by
    refine exclusive_set h hi hthreads ?_
    rw [List.filter_cons_of_neg (by simp [hf])]
  refine h.step href hnew hi hthreads hlock (fun c _ hin => ?_) (fun g hg => absurd hg List.not_mem_nil) fun g hg => ?_
  · rwa [hchildren]
  · rw [List.mem_singleton.1 hg]
    exact Or.inr hframe

variable {memoryLimitHardBytes totalRam : ℤ} {o : Op}

/-- no user's call concerns the lock -/
theorem GlobalInv.sameThreads (h : GlobalInv s) (href : RefStep s t) (hsame : SameTree s t) : GlobalInv t := by
  have hnew := noNewChild href hsame.next
  refine ⟨href.inv, hsame.threads ▸ h.exclusive, fun c hc => ?_, fun c d hc hd hid => ?_, fun g hg => ?_⟩
  · rw [hsame.children, hsame.threads]
    exact h.registered c (hnew c hc).1
  · obtain ⟨hc, hcid⟩ := hnew c hc
    obtain ⟨hd, hdid⟩ := hnew d hd
    exact h.unique c d hc hd (hcid.symm.trans (hid.trans hdid))
  · rw [hsame.threads] at hg
    exact (h.frames g hg).mono href hnew

/-- **Step rule.** -/
theorem step_global (h : GlobalInv s) (honly : GlobalOnly o)
    (hs : (registry memoryLimitHardBytes totalRam).step s o = some t) : GlobalInv t := by
  have href := step_refs h.refs hs
  cases step_cases hs with
  | spawn =>
    have hflat : (s.threads ++ [[]]).flatten = s.threads.flatten := by simp
    refine ⟨href.inv, ?_, fun c hc => ?_, h.unique, fun g hg => ?_⟩
    · rw [hflat]
      exact h.exclusive
    · rw [hflat]
      exact h.registered c hc
    · rw [hflat] at hg
      exact (h.frames g hg).mono href (noNewChild href rfl)
  | getRootTracker =>
    exact h.sameThreads href ((sameTree_addRef s 0).trans (sameTree_hold _ 0))
  | @copy n hheld =>
    exact h.sameThreads href ((sameTree_addRef s n).trans (sameTree_hold _ n))
  | @createTracker i byteLimit id parent hi harg =>
    obtain ⟨hnext, -, hchildren, hthreads, -⟩ := sameTree_borrowArg s parent
    refine h.starts hi href (fun c hc => ?_) (congrArg (List.set · i _) hthreads) hchildren rfl trivial
    -- the new tracker is not a child of the root
    rcases Nat.lt_succ_iff_lt_or_eq.1 (href.inv.lt_next hc.2) with hlt | rfl
    · have hlt' : c < s.next := hnext ▸ hlt
      refine ⟨⟨(href.parent c hlt').symm.trans hc.1, ?_⟩, href.id c hlt'⟩
      by_contra hdead
      exact hc.2.ne' (href.dead c hlt' (Nat.eq_zero_of_not_pos hdead))
    · have hparent := hc.1
      simp only [setStack, construct, addRef, Function.update_self, Option.some.injEq] at hparent
      exact absurd hparent honly
  | @findTracker i id parent hi harg =>
    obtain ⟨hnext, -, hchildren, hthreads, -⟩ := sameTree_borrowArg s parent
    exact h.starts hi href (noNewChild href hnext) (congrArg (List.set · i _) hthreads) hchildren rfl trivial
  | @findOrCreateGlobalTracker i byteLimit id hi =>
    exact h.starts hi href (noNewChild href rfl) rfl rfl rfl trivial
  | @listTrackers i hi =>
    exact h.starts hi href (noNewChild href rfl) rfl rfl rfl trivial
  | @logUsage i n hi hheld =>
    exact h.starts hi href (noNewChild href rfl) rfl rfl rfl trivial
  | @consume i n bytes hi hheld hpos =>
    exact h.starts hi href (noNewChild href rfl) rfl rfl rfl trivial
  | @drop i n hi hheld =>
    have hn : 0 < s.refs n := h.refs.refs_pos (Or.inl hheld.2)
    by_cases hlast : (borrow s n).refs n = 1
    · rw [dropRef_last hlast, List.append_nil] at href ⊢
      have hlock := exclusive_set (t := setStack (borrow s n) i (destructor (borrow s n) n)) h hi rfl
        (by simp [destructor_inGlobal])
      refine h.step href (noNewChild href rfl) hi rfl hlock (fun c _ hin => hin)
        (fun g hg => absurd hg List.not_mem_nil) fun g hg => ?_
      obtain ⟨p, rfl⟩ := mem_destructor hg
      exact Or.inr ⟨h.refs.lt_next hn, by simp [setStack]⟩
    · have hmany : 1 < (borrow s n).refs n := Nat.lt_of_le_of_ne hn (Ne.symm hlast)
      rw [dropRef_live hmany] at href ⊢
      have hlock := exclusive_set (t := setStack s i []) h hi rfl le_rfl
      exact h.step href (noNewChild href rfl) hi rfl hlock (fun c _ hin => hin)
        (fun g hg => absurd hg List.not_mem_nil) fun g hg => absurd hg List.not_mem_nil
  | @step i f below t hi htop => exact global_stepTop h hi htop

theorem global_init : GlobalInv (registry memoryLimitHardBytes totalRam).init := by
  have hnone : ∀ c, ¬ LiveChild (registry memoryLimitHardBytes totalRam).init c := by
    intro c hc
    have hparent := hc.1
    rw [parent_init] at hparent
    cases hparent
  exact ⟨refInv_init, Nat.zero_le _, fun c hc => absurd hc (hnone c), fun c _ hc => absurd hc (hnone c),
    fun g hg => absurd hg List.not_mem_nil⟩

/-! ## Main result -/

theorem run_global {ops : List Op} (honly : ∀ o ∈ ops, GlobalOnly o)
    (hrun : (registry memoryLimitHardBytes totalRam).run (registry memoryLimitHardBytes totalRam).init ops = some s) :
    GlobalInv s :=
  Machine.run_inv_along (P := fun _ o => GlobalOnly o) (fun _ _ _ h ho hs => step_global h ho hs) global_init
    (Machine.along_of_forall _ honly) hrun

/-- **One tracker for an id.** If the children of the root are made by `FindOrCreateGlobalTracker` only, then at every
moment at most one live child of the root has a given id, and two references that users or running calls have to children of
the root with one id are references to one tracker. -/
theorem global_tracker_unique (memoryLimitHardBytes totalRam : ℤ) (ops : List Op) (s : St)
    (honly : ∀ o ∈ ops, GlobalOnly o)
    (hrun : (registry memoryLimitHardBytes totalRam).run (registry memoryLimitHardBytes totalRam).init ops = some s) :
    (∀ c d, LiveChild s c → LiveChild s d → (s.tracker c).id = (s.tracker d).id → c = d) ∧
      ∀ c d, (s.tracker c).parent = some 0 → (s.tracker d).parent = some 0 → (s.tracker c).id = (s.tracker d).id →
        Holds s c → Holds s d → c = d := by
  have h := run_global honly hrun
  refine ⟨h.unique, fun c d hc hd hid hcheld hdheld => ?_⟩
  have hclive : LiveChild s c := ⟨hc, h.refs.refs_pos hcheld⟩
  have hdlive : LiveChild s d := ⟨hd, h.refs.refs_pos hdheld⟩
  exact h.unique c d hclive hdlive hid

/-- thread 0 makes a global tracker and drops it; before `~MemTracker` has taken it off the list, thread 1 asks for the same
id and gets a new one -/
def lingering : List Op :=
  [.spawn, .spawn, .findOrCreateGlobalTracker 0 (-1) "cache"] ++ List.replicate 10 (.step 0) ++
    [.drop 0 1, .findOrCreateGlobalTracker 1 (-1) "cache"] ++ List.replicate 11 (.step 1)

theorem global_tracker_unique_twoThreads :
    ∃ s, (registry 100 0).run (registry 100 0).init lingering = some s ∧ s.children 0 = [1, 2] ∧ s.held 2 = 1 ∧
      ∀ c d, LiveChild s c → LiveChild s d → (s.tracker c).id = (s.tracker d).id → c = d := by
  have hend : ((registry 100 0).run (registry 100 0).init lingering).map (fun s => (s.children 0, s.held 2)) =
      some ([1, 2], 1) := by decide +kernel
  obtain ⟨s, hrun, hcounts⟩ := Option.map_eq_some_iff.1 hend
  obtain ⟨hchildren, hheld⟩ := Prod.mk.inj hcounts
  have honly : ∀ o ∈ lingering, GlobalOnly o := by simp [lingering, GlobalOnly]
  exact ⟨s, hrun, hchildren, hheld, (global_tracker_unique 100 0 lingering s honly hrun).1⟩

end Bboy.MemTracker.Registry
