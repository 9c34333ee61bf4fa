/-
The lists of children in the registry of `MemTracker`s: they make up a tree.

A tracker is put on the list of its parent once, by the call that constructs it, and `~MemTracker` takes it off.

- `listed`: how often a tracker is on a list, or about to be put there. `TreeInv`: only on that of its parent, and once.
- `TreeInv.of_listed_le`: a step that puts nothing more on a list keeps the invariant.
- `run_treeInv`: the invariant holds in every run.
-/
import Bboy.Base.TrackerRegistry

namespace Bboy.MemTracker.Registry

open Core

/-- the tracker that the frame has still to put on a list, and whose list that is -/
def Frame.inserts : Frame → Option (ℕ × ℕ)
  | .creating n parent _ _ .adding => some (n, parent)
  | .creating n parent _ _ .inserting => some (n, parent)
  | _ => none

def insertions (stack : List Frame) : List (ℕ × ℕ) := stack.filterMap Frame.inserts

def listed (s : St) (p c : ℕ) : ℕ := (insertions s.threads.flatten).count (c, p) + (s.children p).count c

structure TreeInv (s : St) : Prop where
  pos : 0 < s.next
  ordered : Ordered s
  parent : ∀ p c, 0 < listed s p c → (s.tracker c).parent = some p
  once : ∀ p c, listed s p c ≤ 1

variable {s t : St} {i n p : ℕ} {stack stack' below : List Frame}

theorem TreeInv.nodup (h : TreeInv s) (p : ℕ) : (s.children p).Nodup := by
  rw [List.nodup_iff_count_le_one]
  intro c
  have honce := h.once p c
  rw [listed] at honce
  omega

theorem TreeInv.parent_of_mem (h : TreeInv s) {c : ℕ} (hc : c ∈ s.children p) : (s.tracker c).parent = some p := by
  have hcount := List.count_pos_iff.2 hc
  apply h.parent
  rw [listed]
  omega

/-! ## Counting -/

/-- the insertions of thread `i`, and of all others -/
theorem insertions_setStack (hthreads : t.threads = s.threads) (hi : s.threads[i]? = some stack) (x : ℕ × ℕ) :
    ∃ rest, (insertions s.threads.flatten).count x = (insertions stack).count x + rest ∧
      ∀ stack', (insertions (setStack t i stack').threads.flatten).count x = (insertions stack').count x + rest := by
  refine ⟨(insertions (s.threads.eraseIdx i).flatten).count x, ?_, fun stack' => ?_⟩
  · have hperm := ((slot_perm hi).flatten).filterMap Frame.inserts
    rw [insertions, hperm.count_eq, List.flatten_cons, List.filterMap_append, List.count_append]
    rfl
  · have hperm := ((slot_set_perm hi stack').flatten).filterMap Frame.inserts
    rw [insertions, setStack, hthreads, hperm.count_eq, List.flatten_cons, List.filterMap_append, List.count_append]
    rfl

/-- nothing more is put on a list -/
theorem TreeInv.of_listed_le (h : TreeInv s) (hnext : t.next = s.next)
    (hparent : ∀ c, (t.tracker c).parent = (s.tracker c).parent) (hle : ∀ p c, listed t p c ≤ listed s p c) : TreeInv t := by
  refine ⟨hnext ▸ h.pos, fun c q hq => ?_, fun q c hc => ?_, fun q c => (hle q c).trans (h.once q c)⟩
  · rw [hparent] at hq
    exact hnext ▸ h.ordered c q hq
  · rw [hparent]
    exact h.parent q c (hc.trans_le (hle q c))

theorem TreeInv.sameTree (h : TreeInv s) (hsame : SameTree s t) : TreeInv t := by
  refine h.of_listed_le hsame.next (fun c => by rw [hsame.tracker]) fun q c => ?_
  rw [listed, listed, hsame.threads, hsame.children]

/-- thread `i` goes on, and puts on lists what it was to put there -/
theorem TreeInv.goesOn (h : TreeInv s) (hi : s.threads[i]? = some stack) (hsame : SameTree s t)
    (hinserts : insertions stack' = insertions stack) : TreeInv (setStack t i stack') := by
  refine h.of_listed_le hsame.next (fun c => by rw [setStack, hsame.tracker]) fun q c => ?_
  obtain ⟨rest, hold, hnew⟩ := insertions_setStack hsame.threads hi (c, q)
  have hchildren : (setStack t i stack').children = s.children := hsame.children
  rw [listed, listed, hnew, hold, hinserts, hchildren]

theorem TreeInv.drops (h : TreeInv s) (hi : s.threads[i]? = some stack) (hsame : SameTree s t)
    (hinserts : insertions below = insertions stack) : TreeInv (dropRef t i n below) := by
  obtain ⟨u, hu, heq | ⟨p, -, -, heq⟩⟩ := dropRef_eq t i n below
  · rw [heq]
    exact h.goesOn hi (hsame.trans hu) hinserts
  · rw [heq]
    exact h.goesOn hi (hsame.trans hu) hinserts

/-- a new tracker is on no list, and will be put on one -/
theorem TreeInv.construct (h : TreeInv s) (hi : s.threads[i]? = some stack) (hp : p < s.next) {byteLimit : ℤ} {id : String}
    {arg : Option ℕ} {global : Bool} (hinserts : insertions below = insertions stack) :
    TreeInv (setStack (construct s p byteLimit id) i (.creating s.next p arg global .adding :: below)) := by
  have hlisted : ∀ q c, listed (setStack (Registry.construct s p byteLimit id) i
      (.creating s.next p arg global .adding :: below)) q c = listed s q c + if c = s.next ∧ q = p then 1 else 0 := by
    intro q c
    obtain ⟨rest, hold, hnew⟩ := insertions_setStack (s := s) (t := Registry.construct s p byteLimit id) rfl hi (c, q)
    have hcons : insertions (.creating s.next p arg global .adding :: below) = (s.next, p) :: insertions below := rfl
    rw [listed, listed, hnew, hold, hcons, List.count_cons, hinserts]
    have heq : ((s.next, p) == (c, q)) = decide (c = s.next ∧ q = p) := by
      rw [Bool.eq_iff_iff, beq_iff_eq, decide_eq_true_iff, Prod.mk.injEq, eq_comm, @eq_comm _ p]
    simp only [heq, decide_eq_true_eq]
    change _ + (s.children q).count c = _
    omega
  have hfresh : ∀ q, listed s q s.next = 0 := by
    intro q
    by_contra hne
    exact lt_irrefl _ (h.ordered _ q (h.parent q _ (Nat.pos_of_ne_zero hne))).2
  refine ⟨Nat.succ_pos _, ordered_construct h.ordered hp byteLimit id, fun q c hc => ?_, fun q c => ?_⟩
  · rw [hlisted] at hc
    by_cases hnew : c = s.next ∧ q = p
    · obtain ⟨rfl, rfl⟩ := hnew
      simp [setStack, Registry.construct, addRef]
    · rw [if_neg hnew, add_zero] at hc
      exact parent_construct h.ordered byteLimit id (h.parent q c hc)
  · have honce := h.once q c
    rw [hlisted]
    split_ifs with hnew
    · rw [hnew.1, hfresh]
    · exact honce

/-! ## Steps -/

theorem treeInv_creating {parent : ℕ} {arg : Option ℕ} {global : Bool} {pc : CreatePc} (h : TreeInv s)
    (hi : s.threads[i]? = some (.creating n parent arg global pc :: below))
    (hs : stepCreating s i n parent arg global below pc = some t) : TreeInv t := by
  cases pc with
  | adding =>
    simp only [stepCreating] at hs
    split_ifs at hs
    cases hs
    exact h.goesOn hi (SameTree.refl s) rfl
  | inserting =>
    cases hs
    refine h.of_listed_le rfl (fun _ => rfl) fun q c => ?_
    obtain ⟨rest, hold, hnew⟩ :=
      insertions_setStack (s := s) (t := setChildren s parent (s.children parent ++ [n])) rfl hi (c, q)
    have hbefore : insertions (.creating n parent arg global .inserting :: below) = (n, parent) :: insertions below := rfl
    have hafter : insertions (.creating n parent arg global (.initialising (some n)) :: below) = insertions below := rfl
    rw [listed, listed, hnew, hold, hbefore, hafter, List.count_cons]
    by_cases hq : q = parent
    · subst hq
      simp only [setStack, setChildren, Function.update_self, List.count_append, List.count_singleton]
      have heq : ((n, q) == (c, q)) = (n == c) := by simp
      rw [heq]
      omega
    · simp only [setStack, setChildren, Function.update_of_ne hq]
      omega
  | initialising cursor =>
    cases cursor with
    | none =>
      cases hs
      exact h.goesOn hi ((sameTree_hold s n).trans (sameTree_giveBack _ arg)) rfl
    | some m =>
      cases hs
      have hpushed : TreeInv (pushTracker s n m) := h.of_listed_le rfl (parent_pushTracker s n m) fun _ _ => le_rfl
      exact hpushed.goesOn hi (SameTree.refl _) rfl

theorem treeInv_finding {parent : ℕ} {arg : Option ℕ} {id : String} {global : Option ℤ} {pc : FindPc} (h : TreeInv s)
    (hi : s.threads[i]? = some (.finding parent arg id global pc :: below))
    (hs : stepFinding s i parent arg id global below pc = some t) : TreeInv t := by
  cases stepFinding_cases hs with
  | locking hfree => exact h.goesOn hi (SameTree.refl s) rfl
  | copying => exact h.goesOn hi (SameTree.refl s) rfl
  | @matching global child children found hlive hid => exact h.goesOn hi (sameTree_addRef s child) rfl
  | @other global child children found hlive hid => exact h.goesOn hi (sameTree_addRef s child) rfl
  | expired hdead => exact h.goesOn hi (SameTree.refl s) rfl
  | searched => exact h.goesOn hi (SameTree.refl s) rfl
  | @dropping global child children found => exact h.drops hi (SameTree.refl s) rfl
  | @clearing global result child found => exact h.drops hi (SameTree.refl s) rfl
  | @returnFound global m => exact h.goesOn hi ((sameTree_hold s m).trans (sameTree_giveBack _ arg)) rfl
  | returnNone => exact h.goesOn hi (sameTree_giveBack s arg) rfl
  | construct => exact h.construct hi h.pos rfl

theorem treeInv_listing {trackers toProcess : List ℕ} {pc : ListPc} (h : TreeInv s)
    (hi : s.threads[i]? = some (.listing trackers toProcess pc :: below))
    (hs : stepListing s i trackers toProcess below pc = some t) : TreeInv t := by
  cases stepListing_cases hs with
  | returns => exact h.goesOn hi (sameTree_holdAll s trackers) rfl
  | next => exact h.goesOn hi (SameTree.refl s) rfl
  | locking hfree => exact h.goesOn hi (SameTree.refl s) rfl
  | @live toProcess m child children hlive => exact h.goesOn hi (sameTree_addRef s child) rfl
  | expired hdead => exact h.goesOn hi (SameTree.refl s) rfl
  | iterated => exact h.goesOn hi (SameTree.refl s) rfl

theorem treeInv_logging {nested : Bool} {pc : LogPc} (h : TreeInv s)
    (hi : s.threads[i]? = some (.logging n nested pc :: below))
    (hs : stepLogging s i n nested below pc = some t) : TreeInv t := by
  cases stepLogging_cases hs with
  | locking hfree => exact h.goesOn hi (SameTree.refl s) rfl
  | @live nested child children hlive => exact h.goesOn hi (sameTree_addRef s child) rfl
  | expired hdead => exact h.goesOn hi (SameTree.refl s) rfl
  | @inChild nested child children => exact h.drops hi (SameTree.refl s) rfl
  | returnNested => exact h.goesOn hi (SameTree.refl s) rfl
  | returns => exact h.goesOn hi (sameTree_hold s n) rfl

theorem treeInv_destroying {parent : ℕ} {pc : DestroyPc} (h : TreeInv s)
    (hi : s.threads[i]? = some (.destroying n parent pc :: below))
    (hs : stepDestroying s i n parent below pc = some t) : TreeInv t := by
  cases pc with
  | locking =>
    simp only [stepDestroying] at hs
    split_ifs at hs
    cases hs
    exact h.goesOn hi (SameTree.refl s) rfl
  | erasing =>
    cases hs
    have herased : TreeInv (setChildren s parent ((s.children parent).erase n)) := by
      refine h.of_listed_le rfl (fun _ => rfl) fun q c => Nat.add_le_add_left ?_ _
      by_cases hq : q = parent
      · subst hq
        simp only [setChildren, Function.update_self]
        exact (List.erase_sublist).count_le c
      · simp only [setChildren, Function.update_of_ne hq]
        exact le_rfl
    exact herased.goesOn hi (SameTree.refl _) rfl
  | releasingParent =>
    cases hs
    exact h.drops hi (SameTree.refl s) rfl

theorem treeInv_consuming {bytes : ℤ} {pc : ConsumePc} (h : TreeInv s)
    (hi : s.threads[i]? = some (.consuming n bytes pc :: below)) (hs : stepConsuming s i n bytes below pc = some t) :
    TreeInv t := by
  cases pc with
  | starting =>
    cases hs
    exact h.goesOn hi (SameTree.refl s) rfl
  | adding added todo =>
    cases todo with
    | cons m todo =>
      cases hs
      exact h.goesOn hi (SameTree.refl s) rfl
    | nil =>
      cases hs
      have hdone : TreeInv { s with consumed := (n, bytes, added) :: s.consumed } :=
        h.of_listed_le rfl (fun _ => rfl) fun _ _ => le_rfl
      exact hdone.goesOn hi (sameTree_hold _ n) rfl

variable {memoryLimitHardBytes totalRam : ℤ}

/-- **Step.** Every step keeps the tree. -/
theorem step_treeInv {o : Op} (h : TreeInv s) (hs : (registry memoryLimitHardBytes totalRam).step s o = some t) :
    TreeInv t := by
  cases step_cases hs with
  | spawn =>
    refine h.of_listed_le rfl (fun _ => rfl) fun q c => le_of_eq ?_
    simp [listed, insertions]
  | getRootTracker => exact h.sameTree ((sameTree_addRef s 0).trans (sameTree_hold _ 0))
  | @copy n hheld => exact h.sameTree ((sameTree_addRef s n).trans (sameTree_hold _ n))
  | @createTracker i byteLimit id parent hi harg =>
    have hb := h.sameTree (sameTree_borrowArg s parent)
    rw [← (sameTree_borrowArg s parent).next]
    rw [← (sameTree_borrowArg s parent).threads] at hi
    exact hb.construct hi (realParent_lt h.pos harg) rfl
  | @findTracker i id parent hi harg => exact h.goesOn hi (sameTree_borrowArg s parent) rfl
  | @findOrCreateGlobalTracker i byteLimit id hi => exact h.goesOn hi (SameTree.refl s) rfl
  | @listTrackers i hi => exact h.goesOn hi (sameTree_addRef s 0) rfl
  | @logUsage i n hi hheld => exact h.goesOn hi (sameTree_borrow s n) rfl
  | @consume i n bytes hi hheld hpos => exact h.goesOn hi (sameTree_borrow s n) rfl
  | @drop i n hi hheld => exact h.drops hi (sameTree_borrow s n) rfl
  | @step i f below t hi htop =>
    cases f with
    | creating n parent arg global pc => exact treeInv_creating h hi htop
    | lockingGlobal byteLimit id =>
      simp only [stepTop] at htop
      split_ifs at htop
      cases htop
      exact h.goesOn hi (SameTree.refl s) rfl
    | finding parent arg id global pc => exact treeInv_finding h hi htop
    | listing trackers toProcess pc => exact treeInv_listing h hi htop
    | logging n nested pc => exact treeInv_logging h hi htop
    | destroying n parent pc => exact treeInv_destroying h hi htop
    | consuming n bytes pc => exact treeInv_consuming h hi htop

theorem treeInv_init : TreeInv (registry memoryLimitHardBytes totalRam).init := by
  have hnone : ∀ p c, listed (registry memoryLimitHardBytes totalRam).init p c = 0 := fun _ _ => rfl
  refine ⟨Nat.one_pos, fun c p hp => ?_, fun p c hc => ?_, fun p c => ?_⟩
  · rw [parent_init] at hp
    cases hp
  · rw [hnone] at hc
    cases hc
  · rw [hnone]
    exact Nat.zero_le 1

/-- **The trackers are a tree in every run**: each is on the list of its parent only, and at most once. -/
theorem run_treeInv {ops : List Op}
    (hrun : (registry memoryLimitHardBytes totalRam).run (registry memoryLimitHardBytes totalRam).init ops = some s) :
    TreeInv s :=
  Machine.run_inv (fun _ _ _ h hs => step_treeInv h hs) treeInv_init hrun

end Bboy.MemTracker.Registry
