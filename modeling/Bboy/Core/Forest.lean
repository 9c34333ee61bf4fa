/-
Forests given by the chain of each node: the node itself, its parent, its parent's parent, and so on up to a root. A
program that stores such chains (to walk up without following pointers) instantiates `chain` with what it stores.

- `IsForest`: each chain is the node followed by its parent's chain. There is no cycle, since chains are finite.
- `chain_nodup`, `chain_suffix`, `exists_child`, `child_unique`: the order on a chain;
- `subtotal`: the sum of a quantity over a node and its descendants. `subtotal_eq` splits it into the node's own part and
  the subtotals of its children, `subtotal_add` is an update along a chain;
- `insertLeaf`, `eraseLeaf`: the forest and its subtotals when a leaf comes or goes.
-/
import Mathlib.Tactic

namespace Core

variable {ι : Type*}

structure IsForest (nodes : Set ι) (parent : ι → Option ι) (chain : ι → List ι) : Prop where
  chain_eq : ∀ n ∈ nodes, chain n = n :: (parent n).elim [] chain
  parent_mem : ∀ n ∈ nodes, ∀ p ∈ parent n, p ∈ nodes

namespace IsForest

variable {nodes : Set ι} {parent : ι → Option ι} {chain : ι → List ι} (h : IsForest nodes parent chain)

include h

theorem chain_root {n : ι} (hn : n ∈ nodes) (hp : parent n = none) : chain n = [n] := by
  rw [h.chain_eq n hn, hp]
  rfl

theorem chain_child {n p : ι} (hn : n ∈ nodes) (hp : parent n = some p) : chain n = n :: chain p := by
  rw [h.chain_eq n hn, hp]
  rfl

theorem self_mem {n : ι} (hn : n ∈ nodes) : n ∈ chain n := by
  rw [h.chain_eq n hn]
  exact List.mem_cons_self

theorem mem_chain_iff {n t : ι} (hn : n ∈ nodes) : t ∈ chain n ↔ t = n ∨ ∃ p ∈ parent n, t ∈ chain p := by
  rw [h.chain_eq n hn, List.mem_cons]
  cases parent n with
  | none => simp
  | some p => simp

/-- induction up the chain of a node -/
theorem induct {P : ι → Prop} (step : ∀ n ∈ nodes, (∀ p ∈ parent n, P p) → P n) : ∀ n ∈ nodes, P n := by
  have hall : ∀ k n, n ∈ nodes → (chain n).length = k → P n := by
    intro k
    induction k with
    | zero =>
      intro n hn hk
      rw [h.chain_eq n hn] at hk
      cases hk
    | succ k ih =>
      intro n hn hk
      refine step n hn fun p hp => ih p (h.parent_mem n hn p hp) ?_
      rw [h.chain_child hn hp, List.length_cons] at hk
      exact Nat.succ.inj hk
  exact fun n hn => hall _ n hn rfl

theorem mem_nodes {n t : ι} (hn : n ∈ nodes) (ht : t ∈ chain n) : t ∈ nodes := by
  refine h.induct (P := fun n => ∀ t, t ∈ chain n → t ∈ nodes) (fun n hn ih t ht => ?_) n hn t ht
  rcases (h.mem_chain_iff hn).1 ht with rfl | ⟨p, hp, ht⟩
  · exact hn
  · exact ih p hp t ht

theorem chain_suffix {n t : ι} (hn : n ∈ nodes) (ht : t ∈ chain n) : chain t <:+ chain n := by
  refine h.induct (P := fun n => ∀ t, t ∈ chain n → chain t <:+ chain n) (fun n hn ih t ht => ?_) n hn t ht
  rcases (h.mem_chain_iff hn).1 ht with rfl | ⟨p, hp, ht⟩
  · exact List.suffix_refl _
  · rw [h.chain_child hn hp]
    exact (ih p hp t ht).trans (List.suffix_cons n _)

theorem chain_trans {n t u : ι} (hn : n ∈ nodes) (ht : t ∈ chain n) (hu : u ∈ chain t) : u ∈ chain n :=
  (h.chain_suffix hn ht).subset hu

/-- a node is not on the chain of its parent -/
theorem not_mem_parent {n p : ι} (hn : n ∈ nodes) (hp : parent n = some p) : n ∉ chain p := by
  intro hmem
  have hle := (h.chain_suffix (h.parent_mem n hn p hp) hmem).length_le
  rw [h.chain_child hn hp, List.length_cons] at hle
  exact absurd hle (Nat.not_succ_le_self _)

theorem chain_nodup {n : ι} (hn : n ∈ nodes) : (chain n).Nodup := by
  apply h.induct (P := fun n => (chain n).Nodup) _ n hn
  intro n hn ih
  cases hp : parent n with
  | none =>
    rw [h.chain_root hn hp]
    exact List.nodup_singleton n
  | some p =>
    rw [h.chain_child hn hp]
    exact List.nodup_cons.2 ⟨h.not_mem_parent hn hp, ih p hp⟩

/-- above a node, other than the node itself, the chain passes a child -/
theorem exists_child {n t : ι} (hn : n ∈ nodes) (ht : t ∈ chain n) (hne : t ≠ n) :
    ∃ c ∈ chain n, parent c = some t := by
  refine h.induct (P := fun n => ∀ t, t ∈ chain n → t ≠ n → ∃ c ∈ chain n, parent c = some t)
    (fun n hn ih t ht hne => ?_) n hn t ht hne
  rcases (h.mem_chain_iff hn).1 ht with rfl | ⟨p, hp, ht⟩
  · exact absurd rfl hne
  · by_cases htp : t = p
    · exact ⟨n, h.self_mem hn, htp ▸ hp⟩
    · obtain ⟨c, hc, hct⟩ := ih p hp t ht htp
      exact ⟨c, (h.mem_chain_iff hn).2 (Or.inr ⟨p, hp, hc⟩), hct⟩

theorem child_unique {n t c c' : ι} (hn : n ∈ nodes) (hc : c ∈ chain n) (hc' : c' ∈ chain n) (hp : parent c = some t)
    (hp' : parent c' = some t) : c = c' := by
  have hs := h.chain_suffix hn hc
  have hs' := h.chain_suffix hn hc'
  rw [h.chain_child (h.mem_nodes hn hc) hp] at hs
  rw [h.chain_child (h.mem_nodes hn hc') hp'] at hs'
  have heq : c :: chain t = c' :: chain t :=
    (List.suffix_of_suffix_length_le hs hs' (by simp)).eq_of_length (by simp)
  exact (List.cons.inj heq).1

end IsForest

/-! ## Subtotals -/

variable [DecidableEq ι]

/-- the sum of `d` over the node `t` and its descendants -/
def subtotal (nodes : Finset ι) (chain : ι → List ι) (d : ι → ℤ) (t : ι) : ℤ :=
  ∑ n ∈ nodes with t ∈ chain n, d n

/-- what an update by `b` along a chain adds at `t` -/
def along (chain : List ι) (b : ℤ) (t : ι) : ℤ := if t ∈ chain then b else 0

theorem subtotal_congr {nodes : Finset ι} {chain : ι → List ι} {d d' : ι → ℤ} (hd : ∀ n ∈ nodes, d n = d' n) (t : ι) :
    subtotal nodes chain d t = subtotal nodes chain d' t :=
  Finset.sum_congr rfl fun n hn => hd n (Finset.mem_filter.1 hn).1

theorem subtotal_add {nodes : Finset ι} (chain : ι → List ι) (d : ι → ℤ) {n : ι} (hn : n ∈ nodes) (b : ℤ) (t : ι) :
    subtotal nodes chain (Function.update d n (d n + b)) t = subtotal nodes chain d t + along (chain n) b t := by
  have hupdate : ∀ m, Function.update d n (d n + b) m = d m + if m = n then b else 0 := by
    intro m
    by_cases hm : m = n
    · rw [hm, Function.update_self, if_pos rfl]
    · rw [Function.update_of_ne hm, if_neg hm, add_zero]
  simp only [subtotal, hupdate, Finset.sum_add_distrib, Finset.sum_ite_eq', Finset.mem_filter, hn, true_and, along]

theorem subtotal_congr_chain {nodes : Finset ι} {chain chain' : ι → List ι} (hc : ∀ n ∈ nodes, chain n = chain' n)
    (d : ι → ℤ) (t : ι) : subtotal nodes chain d t = subtotal nodes chain' d t := by
  have hfilter : {n ∈ nodes | t ∈ chain n} = {n ∈ nodes | t ∈ chain' n} :=
    Finset.filter_congr fun n hn => by rw [hc n hn]
  rw [subtotal, subtotal, hfilter]

theorem subtotal_insert {nodes : Finset ι} (chain : ι → List ι) (d : ι → ℤ) {c : ι} (hc : c ∉ nodes) (t : ι) :
    subtotal (insert c nodes) chain d t = along (chain c) (d c) t + subtotal nodes chain d t := by
  rw [subtotal, Finset.filter_insert, along]
  split_ifs
  · exact Finset.sum_insert fun hmem => hc (Finset.mem_filter.1 hmem).1
  · exact (zero_add _).symm

theorem subtotal_erase {nodes : Finset ι} (chain : ι → List ι) (d : ι → ℤ) {c : ι} (hc : c ∈ nodes) (t : ι) :
    subtotal (nodes.erase c) chain d t = subtotal nodes chain d t - along (chain c) (d c) t := by
  have hinsert := subtotal_insert chain d (Finset.notMem_erase c nodes) t
  rw [Finset.insert_erase hc] at hinsert
  rw [hinsert, add_sub_cancel_left]

theorem subtotal_zero (nodes : Finset ι) (chain : ι → List ι) (t : ι) : subtotal nodes chain (fun _ => 0) t = 0 :=
  Finset.sum_const_zero

/-- the subtotal of a node on every chain is the total -/
theorem subtotal_root {nodes : Finset ι} {chain : ι → List ι} (d : ι → ℤ) {r : ι} (hr : ∀ n ∈ nodes, r ∈ chain n) :
    subtotal nodes chain d r = ∑ n ∈ nodes, d n := by
  rw [subtotal, Finset.filter_true_of_mem hr]

namespace IsForest

variable {nodes : Finset ι} {parent : ι → Option ι} {chain : ι → List ι} (h : IsForest ↑nodes parent chain)

include h

/-- the nodes below `t` are `t` and, for each child of `t`, the nodes below it -/
theorem below_eq {t : ι} (ht : t ∈ nodes) :
    {n ∈ nodes | t ∈ chain n} =
      insert t ({c ∈ nodes | parent c = some t}.biUnion fun c => {n ∈ nodes | c ∈ chain n}) := by
  ext n
  simp only [Finset.mem_filter, Finset.mem_insert, Finset.mem_biUnion]
  constructor
  · rintro ⟨hn, hmem⟩
    by_cases hne : t = n
    · exact Or.inl hne.symm
    · obtain ⟨c, hc, hp⟩ := h.exists_child hn hmem hne
      exact Or.inr ⟨c, ⟨h.mem_nodes hn hc, hp⟩, hn, hc⟩
  · rintro (rfl | ⟨c, ⟨hc, hp⟩, hn, hmem⟩)
    · exact ⟨ht, h.self_mem ht⟩
    · refine ⟨hn, h.chain_trans hn hmem ?_⟩
      rw [h.chain_child hc hp]
      exact List.mem_cons_of_mem c (h.self_mem ht)

theorem subtotal_of_not_mem (d : ι → ℤ) {t : ι} (ht : t ∉ nodes) : subtotal nodes chain d t = 0 := by
  rw [subtotal, Finset.filter_false_of_mem fun n hn hmem => ht (h.mem_nodes hn hmem), Finset.sum_empty]

/-- a chain is no longer than the number of nodes -/
theorem chain_length_le {n : ι} (hn : n ∈ nodes) : (chain n).length ≤ nodes.card := by
  have hsubset : (chain n).toFinset ⊆ nodes := fun t ht => h.mem_nodes hn (List.mem_toFinset.1 ht)
  rw [← List.toFinset_card_of_nodup (h.chain_nodup hn)]
  exact Finset.card_le_card hsubset

/-- **Subtotals.** The subtotal of a node is its own part plus the subtotals of its children. -/
theorem subtotal_eq (d : ι → ℤ) {t : ι} (ht : t ∈ nodes) :
    subtotal nodes chain d t = d t + ∑ c ∈ nodes with parent c = some t, subtotal nodes chain d c := by
  rw [subtotal, h.below_eq ht, Finset.sum_insert, Finset.sum_biUnion]
  · rfl
  · -- two children have no node below both
    intro c hc c' hc' hne
    rw [Function.onFun, Finset.disjoint_left]
    intro n hn hn'
    obtain ⟨hn, hmem⟩ := Finset.mem_filter.1 hn
    exact hne (h.child_unique hn hmem (Finset.mem_filter.1 hn').2 (Finset.mem_filter.1 hc).2 (Finset.mem_filter.1 hc').2)
  · intro hmem
    obtain ⟨c, hc, hbelow⟩ := Finset.mem_biUnion.1 hmem
    obtain ⟨hc, hp⟩ := Finset.mem_filter.1 hc
    exact h.not_mem_parent hc hp (Finset.mem_filter.1 hbelow).2

/-- a new node under `p` -/
theorem insertLeaf {c p : ι} (hc : c ∉ nodes) (hp : p ∈ nodes) :
    IsForest ↑(insert c nodes) (Function.update parent c (some p)) (Function.update chain c (c :: chain p)) := by
  have hne : ∀ n ∈ nodes, n ≠ c := fun n hn he => hc (he ▸ hn)
  constructor
  · intro n hn
    rcases Finset.mem_insert.1 hn with rfl | hn
    · simp [hne p hp]
    · rw [Function.update_of_ne (hne n hn), Function.update_of_ne (hne n hn), h.chain_eq n hn]
      cases hpar : parent n with
      | none => rfl
      | some q => simp [hne q (h.parent_mem n hn q hpar)]
  · intro n hn q hq
    rcases Finset.mem_insert.1 hn with rfl | hn
    · rw [Function.update_self] at hq
      cases hq
      exact Finset.mem_insert_of_mem hp
    · rw [Function.update_of_ne (hne n hn)] at hq
      exact Finset.mem_insert_of_mem (h.parent_mem n hn q hq)

/-- a node without children goes -/
theorem eraseLeaf {c : ι} (hleaf : ∀ n ∈ nodes, parent n ≠ some c) : IsForest ↑(nodes.erase c) parent chain := by
  constructor
  · exact fun n hn => h.chain_eq n (Finset.mem_of_mem_erase hn)
  · intro n hn p hp
    have hn := Finset.mem_of_mem_erase hn
    refine Finset.mem_erase.2 ⟨fun he => hleaf n hn (he ▸ hp), h.parent_mem n hn p hp⟩

/-- the subtotal of a node without children is its own part -/
theorem subtotal_leaf (d : ι → ℤ) {c : ι} (hc : c ∈ nodes) (hleaf : ∀ n ∈ nodes, parent n ≠ some c) :
    subtotal nodes chain d c = d c := by
  rw [h.subtotal_eq d hc, Finset.filter_false_of_mem hleaf, Finset.sum_empty, add_zero]

end IsForest

end Core
