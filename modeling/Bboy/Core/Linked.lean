/-
Singly linked lists in a heap: `next a` is what the cell at `a` points to, if there is such a cell, and a list ends with a
null pointer. `IsList next p l`: the cells from `p` on are those of `l`.

- `IsList.unique`, `IsList.nodup`: the pointers decide the list, and a list that ends has no cycle;
- `IsList.congr`: a heap that keeps the cells of a list keeps the list.
-/
import Mathlib.Tactic

namespace Core

variable {Addr : Type*}

/-- the cells from a pointer on -/
def IsList (next : Addr → Option (Option Addr)) : Option Addr → List Addr → Prop
  | none, [] => True
  | some a, b :: l => a = b ∧ ∃ p, next a = some p ∧ IsList next p l
  | _, _ => False

namespace IsList

variable {next next' : Addr → Option (Option Addr)} {p q : Option Addr} {a : Addr} {l m : List Addr}

theorem nil : IsList next none [] := trivial

theorem cons (ha : next a = some p) (h : IsList next p l) : IsList next (some a) (a :: l) := ⟨rfl, p, ha, h⟩

theorem eq_nil (h : IsList next none l) : l = [] := by
  match l, h with
  | [], _ => rfl

theorem eq_cons (h : IsList next (some a) l) : ∃ p m, l = a :: m ∧ next a = some p ∧ IsList next p m := by
  match l, h with
  | _ :: m, ⟨rfl, p, ha, hm⟩ => exact ⟨p, m, rfl, ha, hm⟩

theorem of_cons (h : IsList next q (a :: l)) : q = some a ∧ ∃ p, next a = some p ∧ IsList next p l := by
  match q, h with
  | some _, ⟨rfl, hrest⟩ => exact ⟨rfl, hrest⟩

theorem unique (h : IsList next p l) (h' : IsList next p m) : l = m := by
  induction l generalizing p m with
  | nil =>
    match p, h with
    | none, _ => exact h'.eq_nil.symm
  | cons a l ih =>
    obtain ⟨rfl, q, ha, hl⟩ := h.of_cons
    obtain ⟨q', m', rfl, ha', hm⟩ := h'.eq_cons
    obtain rfl : q = q' := Option.some.inj (ha.symm.trans ha')
    rw [ih hl hm]

/-- the rest of a list from one of its cells on -/
theorem suffix (h : IsList next p l) (ha : a ∈ l) : ∃ m, IsList next (some a) m ∧ m.length ≤ l.length := by
  induction l generalizing p with
  | nil => exact absurd ha List.not_mem_nil
  | cons b l ih =>
    obtain ⟨rfl, q, hb, hl⟩ := h.of_cons
    rcases List.mem_cons.1 ha with rfl | ha
    · exact ⟨a :: l, h, le_rfl⟩
    · obtain ⟨m, hm, hlen⟩ := ih hl ha
      exact ⟨m, hm, hlen.trans (by simp)⟩

/-- **No cycle.** A cell that came again would be followed by the same cells again. -/
theorem nodup (h : IsList next p l) : l.Nodup := by
  induction l generalizing p with
  | nil => exact List.nodup_nil
  | cons a l ih =>
    obtain ⟨rfl, q, ha, hl⟩ := h.of_cons
    refine List.nodup_cons.2 ⟨fun hmem => ?_, ih hl⟩
    obtain ⟨m, hm, hlen⟩ := hl.suffix hmem
    rw [← h.unique hm, List.length_cons] at hlen
    omega

theorem congr (h : IsList next p l) (hnext : ∀ a ∈ l, next' a = next a) : IsList next' p l := by
  induction l generalizing p with
  | nil =>
    match p, h with
    | none, _ => exact nil
  | cons a l ih =>
    obtain ⟨rfl, q, ha, hl⟩ := h.of_cons
    exact cons ((hnext a List.mem_cons_self).trans ha) (ih hl fun b hb => hnext b (List.mem_cons_of_mem _ hb))

end IsList

end Core
