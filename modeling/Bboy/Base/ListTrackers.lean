/-
Lean model of `MemTracker::ListTrackers` (`bboy/base/mem_tracker.cc`), called while no other thread changes the tree.

A tracker has a list of weak pointers to its children; one of them can be locked as long as its tracker lives.

- `listLoop_eq_explore`: the loop over the deque is the traversal of `Core/Worklist.lean`.
- `listTrackers_complete`: for every tree of live trackers the loop ends with each of them once, parents before children.
- `isTree_registry`: the trackers of `Base/TrackerRegistry.lean` are such a tree in every state of every run.
Witness: `listTrackers_complete_expired`.
-/
import Bboy.Base.TrackerTree
import Bboy.Core.Worklist

namespace Bboy.MemTracker.ListTrackers

open Core

/-! ## Model -/

variable {ι : Type}

/-- what `ListTrackers` reads of the trackers -/
structure Trackers (ι : Type) where
  root : ι
  /-- `child_trackers_` -/
  childTrackers : ι → List ι
  /-- whether there is still a `shared_ptr` to the tracker -/
  live : ι → Bool

/-- `child_weak.lock()` -/
def Trackers.lock (T : Trackers ι) (childWeak : ι) : Option ι := if T.live childWeak then some childWeak else none

/-- `to_process.emplace_back(..)` of the children that can be locked -/
def Trackers.pushChildren (T : Trackers ι) (toProcess : List ι) (t : ι) : List ι :=
  (T.childTrackers t).foldl (fun toProcess childWeak =>
    match T.lock childWeak with
    | some child => toProcess ++ [child]
    | none => toProcess) toProcess

/-- the loop, with fuel; the deque from its front to its back -/
def listLoop (T : Trackers ι) : ℕ → List ι → List ι → Option (List ι)
  | fuel, toProcess, trackers =>
    match toProcess.getLast? with
    | none => some trackers
    | some t =>
      match fuel with
      | 0 => none
      | fuel + 1 => listLoop T fuel (T.pushChildren toProcess.dropLast t) (trackers ++ [t])

def listTrackers (T : Trackers ι) (fuel : ℕ) : Option (List ι) := listLoop T fuel [T.root] []

/-! ## The loop as a traversal -/

/-- the children that can be locked -/
def Trackers.children (T : Trackers ι) (t : ι) : List ι := (T.childTrackers t).filter T.live

variable {T : Trackers ι}

theorem pushChildren_eq (toProcess : List ι) (t : ι) : T.pushChildren toProcess t = toProcess ++ T.children t := by
  unfold Trackers.pushChildren Trackers.children
  induction T.childTrackers t generalizing toProcess with
  | nil => simp
  | cons c children ih =>
    rw [List.foldl_cons, ih]
    by_cases hc : T.live c = true
    · simp [Trackers.lock, hc]
    · simp [Trackers.lock, hc]

theorem listLoop_eq_explore (fuel : ℕ) (pending trackers : List ι) :
    listLoop T fuel pending.reverse trackers = explore T.children fuel pending trackers := by
  induction fuel generalizing pending trackers with
  | zero =>
    match pending with
    | [] => rfl
    | t :: pending => simp [listLoop, explore]
  | succ fuel ih =>
    match pending with
    | [] => rfl
    | t :: pending =>
      have hpush : T.pushChildren (t :: pending).reverse.dropLast t = ((T.children t).reverse ++ pending).reverse := by
        rw [pushChildren_eq, List.reverse_cons, List.dropLast_concat, List.reverse_append, List.reverse_reverse]
      rw [listLoop, List.getLast?_reverse, List.head?_cons]
      simp only
      rw [hpush, ih]
      rfl

/-- **`ListTrackers` lists the tree**: it ends, with every live tracker below the root exactly once and every parent before
its children. -/
theorem listTrackers_complete (T : Trackers ι) (h : IsTree T.children T.root) :
    ∃ n trackers, (∀ fuel ≥ n, listTrackers T fuel = some trackers) ∧ trackers.Nodup ∧
      (∀ t, t ∈ trackers ↔ Reaches T.children T.root t) ∧ ParentsFirst T.children T.root trackers := by
  obtain ⟨n, trackers, hlist, hspec⟩ := explore_tree h
  refine ⟨n, trackers, fun fuel hfuel => ?_, hspec⟩
  rw [← hlist fuel hfuel]
  exact listLoop_eq_explore fuel [T.root] []

/-- the root, two children that live and one that is gone, and a grandchild -/
def oneExpired : Trackers ℕ where
  root := 0
  childTrackers
    | 0 => [1, 2, 3]
    | 1 => [4]
    | _ => []
  live t := t != 2

theorem oneExpired_children (t : ℕ) :
    oneExpired.children t = if t = 0 then [1, 3] else if t = 1 then [4] else [] := by
  match t with
  | 0 => rfl
  | 1 => rfl
  | t + 2 => rfl

theorem oneExpired_isTree : IsTree oneExpired.children 0 := by
  refine ⟨?_, ?_, ?_, ?_⟩
  · intro p _
    rw [oneExpired_children]
    split_ifs <;> decide
  · intro p q c _ _ hp hq
    rw [oneExpired_children] at hp hq
    split_ifs at hp hq <;> simp only [List.mem_cons, List.not_mem_nil, or_false] at hp hq <;> omega
  · intro p _
    rw [oneExpired_children]
    split_ifs <;> decide
  · refine (Set.finite_lt_nat 5).subset ?_
    intro t ht
    rcases Relation.ReflTransGen.cases_tail ht with rfl | ⟨p, -, hc⟩
    · decide
    · rw [oneExpired_children] at hc
      rw [Set.mem_ofPred_eq]
      split_ifs at hc <;> simp only [List.mem_cons, List.not_mem_nil, or_false] at hc <;> omega

theorem listTrackers_complete_expired :
    ∃ n trackers, (∀ fuel ≥ n, listTrackers oneExpired fuel = some trackers) ∧ trackers.Nodup ∧
      (∀ t, t ∈ trackers ↔ Reaches oneExpired.children 0 t) ∧ ParentsFirst oneExpired.children 0 trackers :=
  listTrackers_complete oneExpired oneExpired_isTree

example : listTrackers oneExpired 4 = some [0, 3, 1, 4] := by decide

/-! ## The trackers of the registry -/

/-- what `ListTrackers` reads in a state of the registry -/
def ofRegistry (s : Registry.St) : Trackers ℕ := ⟨0, s.children, fun t => decide (0 < s.refs t)⟩

/-- **The trackers of the registry are a tree** in every run. -/
theorem isTree_registry {memoryLimitHardBytes totalRam : ℤ} {ops : List Registry.Op} {s : Registry.St}
    (hrun : (Registry.registry memoryLimitHardBytes totalRam).run
      (Registry.registry memoryLimitHardBytes totalRam).init ops = some s) :
    IsTree (ofRegistry s).children (ofRegistry s).root := by
  have h := Registry.run_treeInv hrun
  have hparent : ∀ p c, c ∈ (ofRegistry s).children p → (s.tracker c).parent = some p :=
    fun p c hc => h.parent_of_mem (List.mem_of_mem_filter hc)
  refine ⟨?_, ?_, ?_, ?_⟩
  · intro p _
    exact (h.nodup p).filter _
  · intro p q c _ _ hp hq
    exact Option.some.inj ((hparent p c hp).symm.trans (hparent q c hq))
  · intro p _ hroot
    exact absurd (h.ordered 0 p (hparent p 0 hroot)).1 (Nat.not_lt_zero p)
  · refine (Set.finite_lt_nat s.next).subset ?_
    intro t ht
    rcases Relation.ReflTransGen.cases_tail ht with rfl | ⟨p, -, hc⟩
    · exact h.pos
    · exact (h.ordered t p (hparent p t hc)).2

end Bboy.MemTracker.ListTrackers
