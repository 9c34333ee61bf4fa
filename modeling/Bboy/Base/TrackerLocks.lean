/-
The `child_trackers_lock_`s of the registry of `MemTracker`s: no thread waits for a lock that it holds.

A temporary `shared_ptr` to a child may become the last one, and dropping it runs `~MemTracker`, which takes the lock of
the parent. `FindTracker` and `ListTrackers` drop no reference under the lock. `LogUsage` drops the reference to each child
under the lock of its parent.

- `Stacked`: a frame stands on another one only where a `LogUsage` calls itself for a child, or where `~MemTracker` runs at
  the end of a round of `FindTracker`, which holds no lock there. Going down the levels, the numbers grow, so a nested
  `LogUsage` never waits for a lock of its own thread.
- `no_self_lock_iff`: in a run no thread waits for a lock it holds, exactly when no `LogUsage` drops the last reference to
  a child.
Witness: `logUsage_destroys_child`.
-/
import Bboy.Base.TrackerRegistry

namespace Bboy.MemTracker.Registry

open Core

/-- the frame on top waits for a lock that the thread holds -/
def SelfLocked : List Frame → Prop
  | [] => False
  | f :: below => ∃ n ∈ f.wants, n ∈ (f :: below).flatMap Frame.locks

instance (stack : List Frame) : Decidable (SelfLocked stack) :=
  match stack with
  | [] => isFalse fun h => h
  | f :: below => inferInstanceAs (Decidable (∃ n ∈ f.wants, n ∈ (f :: below).flatMap Frame.locks))

def NoSelfLock (s : St) : Prop := ∀ stack ∈ s.threads, ¬ SelfLocked stack

/-- a `LogUsage` that drops its reference to a child leaves another one -/
def LastRefElsewhere (s : St) : Op → Prop
  | .step i => ∀ n nested child children below,
      s.threads[i]? = some (.logging n nested (.inChild child children) :: below) → 1 < s.refs child
  | _ => True

/-! ## The stacks -/

/-- a frame, and the one that it stands on -/
def Fits : Frame → Frame → Prop
  | .logging n _ _, .logging _ _ (.inChild child _) => n = child
  | .destroying _ _ _, .finding _ _ _ _ pc => pc ≠ .copying
  | _, _ => False

def FrameInv (s : St) : Frame → Prop
  | .creating n parent _ _ _ => (s.tracker n).parent = some parent
  | .logging n _ (.iterating children) => ∀ c ∈ children, (s.tracker c).parent = some n
  | .logging n _ (.inChild child children) => ∀ c ∈ child :: children, (s.tracker c).parent = some n
  | _ => True

structure Stacked (s : St) (stack : List Frame) : Prop where
  chain : stack.IsChain Fits
  frames : ∀ f ∈ stack, FrameInv s f

structure LockInv (s : St) : Prop where
  pos : 0 < s.next
  ordered : Ordered s
  children : ∀ p, ∀ c ∈ s.children p, (s.tracker c).parent = some p
  threads : ∀ stack ∈ s.threads, Stacked s stack

variable {s t : St} {i n p : ℕ} {f f' g : Frame} {stack below : List Frame}

theorem Stacked.tail (h : Stacked s (f :: below)) : Stacked s below :=
  ⟨h.chain.tail, fun g hg => h.frames g (List.mem_cons_of_mem f hg)⟩

theorem Stacked.cons (h : Stacked s (g :: below)) (hfits : Fits f g) (hf : FrameInv s f) :
    Stacked s (f :: g :: below) := by
  refine ⟨List.isChain_cons_cons.2 ⟨hfits, h.chain⟩, fun f' hf' => ?_⟩
  rcases List.mem_cons.1 hf' with rfl | hf'
  · exact hf
  · exact h.frames f' hf'

/-- the frame on top goes on, as a frame that fits wherever it does -/
theorem Stacked.replace (h : Stacked s (f :: below)) (hfits : ∀ g, Fits f g → Fits f' g) (hf : FrameInv s f') :
    Stacked s (f' :: below) := by
  cases below with
  | nil => exact ⟨List.isChain_singleton f', fun g hg => List.mem_singleton.1 hg ▸ hf⟩
  | cons g below => exact h.tail.cons (hfits g (List.isChain_cons_cons.1 h.chain).1) hf

theorem fits_logging {nested nested' : Bool} {pc pc' : LogPc} :
    ∀ g, Fits (.logging n nested pc) g → Fits (.logging n nested' pc') g := by
  intro g hg
  cases g with
  | logging m b pc => cases pc <;> exact hg
  | _ => exact hg

theorem fits_destroying {m q : ℕ} {pc pc' : DestroyPc} :
    ∀ g, Fits (.destroying n p pc) g → Fits (.destroying m q pc') g := by
  intro g hg
  cases g <;> exact hg

/-- the locks held below a frame: only a nested `LogUsage` stands on any, and they are of smaller numbers -/
theorem locks_below (ho : Ordered s) (h : Stacked s (f :: below)) {m : ℕ} (hm : m ∈ below.flatMap Frame.locks) :
    ∃ n nested pc, f = .logging n nested pc ∧ m < n := by
  induction below generalizing f with
  | nil => exact absurd hm List.not_mem_nil
  | cons g below ih =>
    have hfits := (List.isChain_cons_cons.1 h.chain).1
    have hg := h.frames g (List.mem_cons_of_mem f List.mem_cons_self)
    rw [List.flatMap_cons, List.mem_append] at hm
    cases g with
    | logging q nested pc =>
      cases pc with
      | inChild child children =>
        cases f with
        | logging c nested' pc' =>
          obtain rfl : c = child := hfits
          have hqc : q < c := (ho c q (hg c List.mem_cons_self)).1
          refine ⟨c, nested', pc', rfl, ?_⟩
          rcases hm with hm | hm
          · rw [List.mem_singleton.1 hm]
            exact hqc
          · obtain ⟨_, _, _, heq, hlt⟩ := ih h.tail hm
            cases heq
            exact hlt.trans hqc
        | _ => exact hfits.elim
      | _ => cases f <;> exact hfits.elim
    | finding parent arg id global pc =>
      cases f with
      | destroying c q pc' =>
        rcases hm with hm | hm
        · cases pc with
          | copying => exact absurd rfl hfits
          | _ => exact absurd hm List.not_mem_nil
        · obtain ⟨_, _, _, heq, -⟩ := ih h.tail hm
          cases heq
      | _ => exact hfits.elim
    | _ => cases f <;> exact hfits.elim

/-- a frame that waits for a lock holds none -/
theorem locks_of_wants (hn : n ∈ f.wants) : f.locks = [] := by
  cases f with
  | creating m parent arg global pc => cases pc <;> first | rfl | cases hn
  | lockingGlobal byteLimit id => rfl
  | finding parent arg id global pc => cases pc <;> first | rfl | cases hn
  | listing trackers toProcess pc => cases pc <;> first | rfl | cases hn
  | logging m nested pc => cases pc <;> first | rfl | cases hn
  | destroying m parent pc => cases pc <;> first | rfl | cases hn
  | consuming m bytes pc => rfl

theorem not_selfLocked (ho : Ordered s) (h : Stacked s stack) : ¬ SelfLocked stack := by
  cases stack with
  | nil => exact fun h => h
  | cons f below =>
    rintro ⟨n, hn, hlock⟩
    rw [List.flatMap_cons, locks_of_wants hn, List.nil_append] at hlock
    obtain ⟨m, nested, pc, rfl, hlt⟩ := locks_below ho h hlock
    cases pc with
    | locking =>
      cases hn
      exact lt_irrefl n hlt
    | iterating children => cases hn
    | inChild child children => cases hn

theorem noSelfLock_of_inv (h : LockInv s) : NoSelfLock s := fun stack hs => not_selfLocked h.ordered (h.threads stack hs)

/-! ## Steps -/

theorem Stacked.mono (h : Stacked s stack)
    (hparent : ∀ c q, (s.tracker c).parent = some q → (t.tracker c).parent = some q) : Stacked t stack := by
  refine ⟨h.chain, fun f hf => ?_⟩
  have hinv := h.frames f hf
  cases f with
  | creating m parent arg global pc => exact hparent m parent hinv
  | logging m nested pc =>
    cases pc with
    | locking => trivial
    | iterating children => exact fun c hc => hparent c m (hinv c hc)
    | inChild child children => exact fun c hc => hparent c m (hinv c hc)
  | _ => trivial

/-- a step of thread `i` that keeps the parents -/
theorem LockInv.step (h : LockInv s) (hnext : s.next ≤ t.next)
    (hparent : ∀ c q, (s.tracker c).parent = some q → (t.tracker c).parent = some q) (hordered : Ordered t)
    (hchildren : ∀ q, ∀ c ∈ t.children q, (t.tracker c).parent = some q) (hthreads : t.threads = s.threads.set i stack)
    (hstack : Stacked t stack) : LockInv t := by
  refine ⟨h.pos.trans_le hnext, hordered, hchildren, fun st hst => ?_⟩
  rw [hthreads] at hst
  rcases List.mem_or_eq_of_mem_set hst with hst | rfl
  · exact (h.threads st hst).mono hparent
  · exact hstack

theorem LockInv.sameTree (h : LockInv s) (hsame : SameTree s t) : LockInv t := by
  obtain ⟨hnext, htracker, hchildren, hthreads, -⟩ := hsame
  refine ⟨hnext ▸ h.pos, fun c q hq => ?_, fun q c hc => ?_, fun st hst => ?_⟩
  · rw [htracker] at hq
    exact hnext ▸ h.ordered c q hq
  · rw [hchildren] at hc
    rw [htracker]
    exact h.children q c hc
  · rw [hthreads] at hst
    exact (h.threads st hst).mono fun c q hq => by rwa [htracker]

theorem lockInv_setStack (h : LockInv s) (hsame : SameTree s t) (hstack : Stacked s stack) :
    LockInv (setStack t i stack) := by
  have ht := h.sameTree hsame
  refine ht.step le_rfl (fun _ _ hq => hq) ht.ordered ht.children rfl ?_
  exact hstack.mono fun c q hq => by rwa [setStack, hsame.tracker]

/-- a reference goes away: `~MemTracker` of the last one must fit on the frames below -/
theorem lockInv_dropRef (h : LockInv s) (hsame : SameTree s t) (hstack : Stacked s below)
    (hlast : t.refs n ≤ 1 → ∀ p, Stacked s (.destroying n p .locking :: below)) : LockInv (dropRef t i n below) := by
  obtain ⟨u, hu, heq | ⟨p, -, hrefs, heq⟩⟩ := dropRef_eq t i n below
  · rw [heq]
    exact lockInv_setStack h (hsame.trans hu) hstack
  · rw [heq]
    exact lockInv_setStack h (hsame.trans hu) (hlast hrefs p)

theorem stacked_single (hf : FrameInv s f) : Stacked s [f] :=
  ⟨List.isChain_singleton f, fun _ hg => List.mem_singleton.1 hg ▸ hf⟩

/-- the frame on top goes on, and stands on nothing as before -/
theorem lockInv_goesOn (h : LockInv s) (hsame : SameTree s t) (hstack : Stacked s (f :: below))
    (hfits : ∀ g, Fits f g → Fits f' g) (hf : FrameInv s f') : LockInv (setStack t i (f' :: below)) :=
  lockInv_setStack h hsame (hstack.replace hfits hf)

theorem lockInv_construct (h : LockInv s) (hp : p < s.next) {byteLimit : ℤ} {id : String}
    (hstack : Stacked (construct s p byteLimit id) stack) : LockInv (setStack (construct s p byteLimit id) i stack) := by
  have hparent : ∀ c q, (s.tracker c).parent = some q → ((construct s p byteLimit id).tracker c).parent = some q :=
    fun c q hq => parent_construct h.ordered byteLimit id hq
  exact h.step (Nat.le_succ _) hparent (ordered_construct h.ordered hp byteLimit id)
    (fun q c hc => hparent c q (h.children q c hc)) rfl
    (hstack.mono fun _ _ hq => hq)

theorem frameInv_construct {byteLimit : ℤ} {id : String} {arg : Option ℕ} {global : Bool} {pc : CreatePc} :
    FrameInv (construct s p byteLimit id) (.creating s.next p arg global pc) := by
  simp [FrameInv, construct, addRef]

theorem lockInv_creating {parent : ℕ} {arg : Option ℕ} {global : Bool} {pc : CreatePc} (h : LockInv s)
    (hstack : Stacked s (.creating n parent arg global pc :: below))
    (hs : stepCreating s i n parent arg global below pc = some t) : LockInv t := by
  have hframe : (s.tracker n).parent = some parent := hstack.frames _ List.mem_cons_self
  have hfits : ∀ pc' g, Fits (.creating n parent arg global pc) g → Fits (.creating n parent arg global pc') g :=
    fun _ _ hg => hg.elim
  cases pc with
  | adding =>
    simp only [stepCreating] at hs
    split_ifs at hs
    cases hs
    exact lockInv_goesOn h (SameTree.refl s) hstack (hfits _) hframe
  | inserting =>
    cases hs
    refine h.step le_rfl (fun _ _ hq => hq) h.ordered (fun q c hc => ?_) rfl
      ((hstack.replace (hfits _) hframe).mono fun _ _ hq => hq)
    by_cases hq : q = parent
    · simp only [setStack, setChildren, hq, Function.update_self, List.mem_append, List.mem_singleton] at hc
      rcases hc with hc | rfl
      · exact hq ▸ h.children parent c hc
      · exact hq ▸ hframe
    · simp only [setStack, setChildren, Function.update_of_ne hq] at hc
      exact h.children q c hc
  | initialising cursor =>
    cases cursor with
    | none =>
      cases hs
      exact lockInv_setStack h ((sameTree_hold s n).trans (sameTree_giveBack _ arg)) hstack.tail
    | some m =>
      cases hs
      have hparent : ∀ c q, (s.tracker c).parent = some q → ((pushTracker s n m).tracker c).parent = some q := by
        intro c q hq
        rwa [parent_pushTracker]
      exact h.step le_rfl hparent (ordered_pushTracker h.ordered n m) (fun q c hc => hparent c q (h.children q c hc)) rfl
        ((hstack.replace (hfits _) hframe).mono hparent)

theorem lockInv_finding {parent : ℕ} {arg : Option ℕ} {id : String} {global : Option ℤ} {pc : FindPc} (h : LockInv s)
    (hstack : Stacked s (.finding parent arg id global pc :: below))
    (hs : stepFinding s i parent arg id global below pc = some t) : LockInv t := by
  have hgoes : ∀ {u : St} (pc' : FindPc), SameTree s u →
      LockInv (setStack u i (.finding parent arg id global pc' :: below)) :=
    fun pc' hu => lockInv_goesOn h hu hstack (fun _ hg => hg.elim) trivial
  have hdrops : ∀ (pc' : FindPc) (c : ℕ), pc' ≠ .copying →
      LockInv (dropRef s i c (.finding parent arg id global pc' :: below)) := by
    intro pc' c hpc
    have hbelow : Stacked s (.finding parent arg id global pc' :: below) :=
      hstack.replace (fun _ hg => hg.elim) trivial
    exact lockInv_dropRef h (SameTree.refl s) hbelow fun _ q => hbelow.cons hpc trivial
  cases stepFinding_cases hs with
  | locking hfree => exact hgoes _ (SameTree.refl s)
  | copying => exact hgoes _ (SameTree.refl s)
  | @matching global child children found hlive hid => exact hgoes _ (sameTree_addRef s child)
  | @other global child children found hlive hid => exact hgoes _ (sameTree_addRef s child)
  | expired hdead => exact hgoes _ (SameTree.refl s)
  | searched => exact hgoes _ (SameTree.refl s)
  | @dropping global child children found => exact hdrops _ child fun he => by cases he
  | @clearing global result child found => exact hdrops _ child fun he => by cases he
  | @returnFound global m =>
    exact lockInv_setStack h ((sameTree_hold s m).trans (sameTree_giveBack _ arg)) hstack.tail
  | returnNone => exact lockInv_setStack h (sameTree_giveBack s arg) hstack.tail
  | @construct byteLimit =>
    have hbelow := hstack.mono fun c q hq => parent_construct (p := 0) h.ordered byteLimit id hq
    exact lockInv_construct h h.pos (hbelow.replace (fun _ hg => hg.elim) frameInv_construct)

theorem lockInv_listing {trackers toProcess : List ℕ} {pc : ListPc} (h : LockInv s)
    (hstack : Stacked s (.listing trackers toProcess pc :: below))
    (hs : stepListing s i trackers toProcess below pc = some t) : LockInv t := by
  have hgoes : ∀ {u : St} (trackers' toProcess' : List ℕ) (pc' : ListPc), SameTree s u →
      LockInv (setStack u i (.listing trackers' toProcess' pc' :: below)) :=
    fun _ _ _ hu => lockInv_goesOn h hu hstack (fun _ hg => hg.elim) trivial
  cases stepListing_cases hs with
  | returns => exact lockInv_setStack h (sameTree_holdAll s trackers) hstack.tail
  | next => exact hgoes _ _ _ (SameTree.refl s)
  | locking hfree => exact hgoes _ _ _ (SameTree.refl s)
  | @live toProcess m child children hlive => exact hgoes _ _ _ (sameTree_addRef s child)
  | expired hdead => exact hgoes _ _ _ (SameTree.refl s)
  | iterated => exact hgoes _ _ _ (SameTree.refl s)

theorem lockInv_logging {nested : Bool} {pc : LogPc} (h : LockInv s)
    (hstack : Stacked s (.logging n nested pc :: below))
    (hP : ∀ child children, pc = .inChild child children → 1 < s.refs child)
    (hs : stepLogging s i n nested below pc = some t) : LockInv t := by
  have hframe := hstack.frames _ List.mem_cons_self
  cases stepLogging_cases hs with
  | locking hfree => exact lockInv_goesOn h (SameTree.refl s) hstack fits_logging (h.children n)
  | @live nested child children hlive =>
    -- the nested call stands on this one
    have hin : Stacked s (.logging n nested (.inChild child children) :: below) := hstack.replace fits_logging hframe
    exact lockInv_setStack h (sameTree_addRef s child) (hin.cons rfl trivial)
  | @expired nested child children hdead =>
    exact lockInv_goesOn h (SameTree.refl s) hstack fits_logging fun c hc => hframe c (List.mem_cons_of_mem child hc)
  | @inChild nested child children =>
    have hit : Stacked s (.logging n nested (.iterating children) :: below) :=
      hstack.replace fits_logging fun c hc => hframe c (List.mem_cons_of_mem child hc)
    exact lockInv_dropRef h (SameTree.refl s) hit fun hle => absurd (hP child children rfl) (not_lt.2 hle)
  | returnNested => exact lockInv_setStack h (SameTree.refl s) hstack.tail
  | returns => exact lockInv_setStack h (sameTree_hold s n) hstack.tail

theorem lockInv_destroying {parent : ℕ} {pc : DestroyPc} (h : LockInv s)
    (hstack : Stacked s (.destroying n parent pc :: below))
    (hs : stepDestroying s i n parent below pc = some t) : LockInv t := by
  cases pc with
  | locking =>
    simp only [stepDestroying] at hs
    split_ifs at hs
    cases hs
    exact lockInv_goesOn h (SameTree.refl s) hstack fits_destroying trivial
  | erasing =>
    cases hs
    refine h.step le_rfl (fun _ _ hq => hq) h.ordered (fun q c hc => ?_) rfl
      ((hstack.replace fits_destroying trivial).mono fun _ _ hq => hq)
    by_cases hq : q = parent
    · simp only [setStack, setChildren, hq, Function.update_self] at hc
      exact hq ▸ h.children parent c (List.mem_of_mem_erase hc)
    · simp only [setStack, setChildren, Function.update_of_ne hq] at hc
      exact h.children q c hc
  | releasingParent =>
    cases hs
    exact lockInv_dropRef h (SameTree.refl s) hstack.tail fun _ p => hstack.replace fits_destroying trivial

theorem lockInv_consuming {bytes : ℤ} {pc : ConsumePc} (h : LockInv s)
    (hstack : Stacked s (.consuming n bytes pc :: below)) (hs : stepConsuming s i n bytes below pc = some t) :
    LockInv t := by
  have hgoes : ∀ pc', LockInv (setStack s i (.consuming n bytes pc' :: below)) :=
    fun pc' => lockInv_goesOn h (SameTree.refl s) hstack (fun _ hg => hg.elim) trivial
  cases pc with
  | starting =>
    cases hs
    exact hgoes _
  | adding added todo =>
    cases todo with
    | cons m todo =>
      cases hs
      exact hgoes _
    | nil =>
      cases hs
      -- what a `Consume` has done is of no concern here
      have hdone : LockInv { s with consumed := (n, bytes, added) :: s.consumed } :=
        ⟨h.pos, h.ordered, h.children, fun st hst => (h.threads st hst).mono fun _ _ hq => hq⟩
      have hbelow : Stacked { s with consumed := (n, bytes, added) :: s.consumed } below :=
        hstack.tail.mono fun _ _ hq => hq
      exact lockInv_setStack hdone (sameTree_hold _ n) hbelow

theorem lockInv_stepTop (h : LockInv s) (hi : s.threads[i]? = some (f :: below)) (hP : LastRefElsewhere s (.step i))
    (hs : stepTop s i f below = some t) : LockInv t := by
  have hstack := h.threads _ (List.mem_of_getElem? hi)
  cases f with
  | creating n parent arg global pc => exact lockInv_creating h hstack hs
  | lockingGlobal byteLimit id =>
    simp only [stepTop] at hs
    split_ifs at hs
    cases hs
    exact lockInv_goesOn h (SameTree.refl s) hstack (fun _ hg => hg.elim) trivial
  | finding parent arg id global pc => exact lockInv_finding h hstack hs
  | listing trackers toProcess pc => exact lockInv_listing h hstack hs
  | logging n nested pc =>
    refine lockInv_logging h hstack (fun child children he => ?_) hs
    exact hP n nested child children below (he ▸ hi)
  | destroying n parent pc => exact lockInv_destroying h hstack hs
  | consuming n bytes pc => exact lockInv_consuming h hstack hs

variable {memoryLimitHardBytes totalRam : ℤ}

theorem step_lockInv {o : Op} (h : LockInv s) (hP : LastRefElsewhere s o)
    (hs : (registry memoryLimitHardBytes totalRam).step s o = some t) : LockInv t := by
  cases step_cases hs with
  | spawn =>
    refine ⟨h.pos, h.ordered, h.children, fun st hst => ?_⟩
    rcases List.mem_append.1 hst with hst | hst
    · exact (h.threads st hst).mono fun _ _ hq => hq
    · rw [List.mem_singleton.1 hst]
      exact ⟨List.isChain_nil, fun g hg => absurd hg List.not_mem_nil⟩
  | getRootTracker =>
    exact h.sameTree ((sameTree_addRef s 0).trans (sameTree_hold _ 0))
  | @copy n hheld =>
    exact h.sameTree ((sameTree_addRef s n).trans (sameTree_hold _ n))
  | @createTracker i byteLimit id parent hi harg =>
    have hb := h.sameTree (sameTree_borrowArg s parent)
    refine lockInv_construct hb (realParent_lt h.pos harg) (stacked_single ?_)
    rw [← (sameTree_borrowArg s parent).next]
    exact frameInv_construct
  | @findTracker i id parent hi harg =>
    exact lockInv_setStack h (sameTree_borrowArg s parent) (stacked_single trivial)
  | @findOrCreateGlobalTracker i byteLimit id hi =>
    exact lockInv_setStack h (SameTree.refl s) (stacked_single trivial)
  | @listTrackers i hi =>
    exact lockInv_setStack h (sameTree_addRef s 0) (stacked_single trivial)
  | @logUsage i n hi hheld =>
    exact lockInv_setStack h (sameTree_borrow s n) (stacked_single trivial)
  | @consume i n bytes hi hheld hpos =>
    exact lockInv_setStack h (sameTree_borrow s n) (stacked_single trivial)
  | @drop i n hi hheld =>
    exact lockInv_dropRef h (sameTree_borrow s n) ⟨List.isChain_nil, fun g hg => absurd hg List.not_mem_nil⟩
      fun _ _ => stacked_single trivial
  | @step i f below t hi htop => exact lockInv_stepTop h hi hP htop

theorem lockInv_init : LockInv (registry memoryLimitHardBytes totalRam).init := by
  refine ⟨Nat.one_pos, fun c q hq => ?_, fun q c hc => absurd hc List.not_mem_nil,
    fun st hst => absurd hst List.not_mem_nil⟩
  rw [parent_init] at hq
  cases hq

/-- a `LogUsage` that drops the last reference to a child waits for its own lock -/
theorem lastRef_selfLocks (memoryLimitHardBytes totalRam : ℤ) (h : LockInv s) {o : Op} (hP : ¬ LastRefElsewhere s o) :
    ∃ t, (registry memoryLimitHardBytes totalRam).step s o = some t ∧ ¬ NoSelfLock t := by
  cases o with
  | step i =>
    simp only [LastRefElsewhere, not_forall] at hP
    obtain ⟨n, nested, child, children, below, hi, hrefs⟩ := hP
    have hframe := (h.threads _ (List.mem_of_getElem? hi)).frames _ List.mem_cons_self
    have hparent : (s.tracker child).parent = some n := hframe child List.mem_cons_self
    have hzero : s.refs child - 1 = 0 := Nat.sub_eq_zero_of_le (not_lt.1 hrefs)
    have hstep : (registry memoryLimitHardBytes totalRam).step s (.step i) =
        some (dropRef s i child (.logging n nested (.iterating children) :: below)) := by
      simp [registry, hi, stepTop, stepLogging]
    refine ⟨_, hstep, fun hno => ?_⟩
    have hlt := (List.getElem?_eq_some_iff.1 hi).1
    apply hno (.destroying child n .locking :: .logging n nested (.iterating children) :: below)
    · simp only [dropRef, hparent, Function.update_self, hzero, if_true, setStack]
      exact List.mem_of_getElem? (List.getElem?_set_self hlt)
    · exact ⟨n, rfl, by simp [Frame.locks]⟩
  | _ => exact absurd trivial hP

/-! ## Main result -/

/-- **Lock discipline.** In a run no thread ever waits for a `child_trackers_lock_` that it holds, exactly when no
`LogUsage` drops the last reference to a child. -/
theorem no_self_lock_iff (memoryLimitHardBytes totalRam : ℤ) (ops : List Op) :
    (registry memoryLimitHardBytes totalRam).Always NoSelfLock (registry memoryLimitHardBytes totalRam).init ops ↔
      (registry memoryLimitHardBytes totalRam).Along LastRefElsewhere (registry memoryLimitHardBytes totalRam).init
        ops := by
  have htrue := Machine.along_true (M := registry memoryLimitHardBytes totalRam)
    (registry memoryLimitHardBytes totalRam).init ops
  refine Machine.always_iff_along (I := LockInv) (D := fun _ _ => True) (fun s o t h _ hP hs => step_lockInv h hP hs)
    (fun s o h _ _ => ⟨fun hall => ?_, fun hP t hs => ?_⟩) lockInv_init (noSelfLock_of_inv lockInv_init) htrue
  · by_contra hP
    obtain ⟨t, hs, hbad⟩ := lastRef_selfLocks memoryLimitHardBytes totalRam h hP
    exact hbad (hall t hs)
  · exact noSelfLock_of_inv (step_lockInv h hP hs)

/-- thread 0 creates a tracker; thread 1 logs the usage of the root, and has its temporary reference to the tracker when
thread 0 drops the one it has -/
def dropWhileLogging : List Op :=
  [.spawn, .spawn, .createTracker 0 (-1) "child" none, .step 0, .step 0, .step 0, .step 0, .step 0,
    .getRootTracker, .logUsage 1 0, .step 1, .step 1, .step 1, .step 1, .drop 0 1, .step 1]

/-- **`~MemTracker` under the lock of the parent.** The thread in `LogUsage` waits for the lock that it holds. -/
theorem logUsage_destroys_child :
    ∃ s, (registry 100 0).run (registry 100 0).init dropWhileLogging = some s ∧
      s.threads = [[], [.destroying 1 0 .locking, .logging 0 false (.iterating [])]] ∧ ¬ NoSelfLock s := by
  refine ⟨_, rfl, by decide, fun h => ?_⟩
  have hself : SelfLocked [.destroying 1 0 .locking, .logging 0 false (.iterating [])] := ⟨0, rfl, by decide⟩
  exact h _ (by decide) hself

end Bboy.MemTracker.Registry
