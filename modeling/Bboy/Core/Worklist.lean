/-
Going through a tree that is given by the children of each node, with a list of the nodes still to be visited: the first one is
visited and its children take its place, the last of them in front.

- `Reaches`: the descendants of a node. `IsTree`: below a root, no node has two parents, and the root has none.
- `Explored`: what holds before every visit. It is kept by a visit (`Explored.visit`), and bounds how many there are.
- `explore_tree`: the traversal ends with every node exactly once, each behind its parent.
-/
import Mathlib.Tactic

namespace Core

variable {ι : Type*}

/-- a node and its descendants -/
def Reaches (children : ι → List ι) : ι → ι → Prop := Relation.ReflTransGen fun p c => c ∈ children p

structure IsTree (children : ι → List ι) (root : ι) : Prop where
  nodup : ∀ p, Reaches children root p → (children p).Nodup
  parent : ∀ p q c, Reaches children root p → Reaches children root q → c ∈ children p → c ∈ children q → p = q
  top : ∀ p, Reaches children root p → root ∉ children p
  finite : {t | Reaches children root t}.Finite

/-- the traversal, with fuel: what is still to be visited, and what was -/
def explore (children : ι → List ι) : ℕ → List ι → List ι → Option (List ι)
  | _, [], visited => some visited
  | 0, _ :: _, _ => none
  | fuel + 1, t :: pending, visited => explore children fuel ((children t).reverse ++ pending) (visited ++ [t])

/-- every parent is in front of its children -/
def ParentsFirst (children : ι → List ι) (root : ι) (visited : List ι) : Prop :=
  ∀ pre c post p, visited = pre ++ c :: post → Reaches children root p → c ∈ children p → p ∈ pre

variable {children : ι → List ι} {root t : ι} {pending visited : List ι}

/-- before a visit: nothing is met twice, and whatever was met has its parent visited and its children met -/
structure Explored (children : ι → List ι) (root : ι) (pending visited : List ι) : Prop where
  nodup : (pending ++ visited).Nodup
  sound : ∀ t ∈ pending ++ visited, Reaches children root t
  covers : root ∈ pending ++ visited
  down : ∀ t ∈ visited, ∀ c ∈ children t, c ∈ pending ++ visited
  up : ∀ c ∈ pending ++ visited, ∀ p, Reaches children root p → c ∈ children p → p ∈ visited
  first : ParentsFirst children root visited

theorem Explored.start (h : IsTree children root) : Explored children root [root] [] := by
  refine ⟨List.nodup_singleton root, ?_, List.mem_singleton_self root, ?_, ?_, ?_⟩
  · intro t ht
    rw [List.append_nil, List.mem_singleton] at ht
    rw [ht]
    exact Relation.ReflTransGen.refl
  · intro t ht
    exact absurd ht List.not_mem_nil
  · intro c hc p hp hchild
    rw [List.append_nil, List.mem_singleton] at hc
    rw [hc] at hchild
    exact absurd hchild (h.top p hp)
  · intro pre c post p heq
    exact absurd heq (by simp)

/-- **One visit.** The children of the node were not met before, since their only parent was not visited before. -/
theorem Explored.visit (h : IsTree children root) (he : Explored children root (t :: pending) visited) :
    Explored children root ((children t).reverse ++ pending) (visited ++ [t]) := by
  have ht : Reaches children root t := he.sound t (List.mem_append_left _ List.mem_cons_self)
  have hnew : t ∉ pending ++ visited := (List.nodup_cons.1 he.nodup).1
  have hfresh : ∀ c ∈ children t, c ∉ t :: (pending ++ visited) := by
    intro c hc hmem
    have hvisited := he.up c (by simpa using hmem) t ht hc
    exact hnew (List.mem_append_right _ hvisited)
  have hmem : ∀ c, c ∈ (children t).reverse ++ pending ++ (visited ++ [t]) ↔
      c ∈ children t ∨ c ∈ t :: pending ++ visited := by
    intro c
    simp only [List.mem_append, List.mem_reverse, List.mem_cons, List.not_mem_nil, or_false]
    tauto
  refine ⟨?_, ?_, ?_, ?_, ?_, ?_⟩
  · have hperm : ((children t).reverse ++ pending ++ (visited ++ [t])).Perm (children t ++ (t :: (pending ++ visited))) := by
      rw [List.append_assoc]
      refine (List.reverse_perm _).append ?_
      rw [← List.append_assoc]
      exact List.perm_append_singleton t _
    rw [hperm.nodup_iff, List.nodup_append]
    refine ⟨h.nodup t ht, he.nodup, ?_⟩
    rintro c hc d hd rfl
    exact hfresh c hc hd
  · intro c hc
    rcases (hmem c).1 hc with hc | hc
    · exact ht.tail hc
    · exact he.sound c hc
  · exact (hmem root).2 (Or.inr he.covers)
  · intro p hp c hc
    rw [hmem]
    rcases List.mem_append.1 hp with hp | hp
    · exact Or.inr (he.down p hp c hc)
    · rw [List.mem_singleton.1 hp] at hc
      exact Or.inl hc
  · intro c hc p hp hchild
    rcases (hmem c).1 hc with hc | hc
    · rw [h.parent p t c hp ht hchild hc]
      exact List.mem_append_right _ (List.mem_singleton_self t)
    · exact List.mem_append_left _ (he.up c hc p hp hchild)
  · intro pre c post p heq hp hchild
    rcases List.eq_nil_or_concat post with rfl | ⟨post, d, rfl⟩
    · obtain ⟨rfl, hlast⟩ := List.append_inj' heq rfl
      rw [← List.singleton_inj.1 hlast] at hchild
      exact he.up t (List.mem_append_left _ List.mem_cons_self) p hp hchild
    · rw [List.concat_eq_append, ← List.cons_append, ← List.append_assoc] at heq
      exact he.first pre c post p (List.append_inj' heq rfl).1 hp hchild

/-- when nothing is left, every node was visited -/
theorem Explored.complete (he : Explored children root [] visited) (t : ι) : t ∈ visited ↔ Reaches children root t := by
  constructor
  · exact he.sound t
  · intro ht
    induction ht with
    | refl => exact he.covers
    | tail _ hc ih => exact he.down _ ih _ hc

/-- no more nodes are met than there are -/
theorem Explored.length_le (h : IsTree children root) (he : Explored children root pending visited) :
    (pending ++ visited).length ≤ h.finite.toFinset.card := by
  let met : Finset ι := ⟨(pending ++ visited : List ι), he.nodup⟩
  have hsub : met ⊆ h.finite.toFinset := by
    intro t ht
    exact h.finite.mem_toFinset.2 (he.sound t ht)
  exact Finset.card_le_card hsub

/-- as many visits as there are nodes left are enough -/
theorem explore_spec (h : IsTree children root) (fuel : ℕ) (he : Explored children root pending visited)
    (hfuel : h.finite.toFinset.card ≤ visited.length + fuel) :
    ∃ out, explore children fuel pending visited = some out ∧ Explored children root [] out := by
  induction fuel generalizing pending visited with
  | zero =>
    match pending, he with
    | [], he => exact ⟨visited, rfl, he⟩
    | t :: pending, he =>
      have hlen := he.length_le h
      rw [List.length_append, List.length_cons] at hlen
      omega
  | succ fuel ih =>
    match pending, he with
    | [], he => exact ⟨visited, rfl, he⟩
    | t :: pending, he =>
      apply ih (he.visit h)
      rw [List.length_append, List.length_singleton]
      omega

/-- more fuel changes nothing -/
theorem explore_mono {out : List ι} {fuel fuel' : ℕ} (h : explore children fuel pending visited = some out)
    (hle : fuel ≤ fuel') : explore children fuel' pending visited = some out := by
  induction fuel generalizing fuel' pending visited with
  | zero =>
    match pending, h with
    | [], h =>
      rw [← h]
      simp only [explore]
  | succ fuel ih =>
    obtain ⟨k, rfl⟩ := Nat.exists_eq_add_of_le hle
    match pending, h with
    | [], h =>
      rw [← h]
      simp only [explore]
    | t :: pending, h =>
      rw [Nat.add_right_comm, explore]
      rw [explore] at h
      exact ih h (Nat.le_add_right fuel k)

/-- **The traversal** ends with every node of the tree exactly once, each behind its parent. -/
theorem explore_tree (h : IsTree children root) :
    ∃ n out, (∀ fuel ≥ n, explore children fuel [root] [] = some out) ∧ out.Nodup ∧
      (∀ t, t ∈ out ↔ Reaches children root t) ∧ ParentsFirst children root out := by
  obtain ⟨out, hout, he⟩ := explore_spec h h.finite.toFinset.card (Explored.start h) (by simp)
  exact ⟨h.finite.toFinset.card, out, fun fuel hfuel => explore_mono hout hfuel, he.nodup, he.complete, he.first⟩

end Core
