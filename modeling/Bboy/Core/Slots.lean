/-
A list of slots, updated or erased by position: what a slot's replacement or removal does to counts and to collected
data. Each fact follows from the slot and the others being a permutation of the whole.
-/
import Mathlib.Tactic

namespace Core

variable {α β : Type*} {l : List α} {i : ℕ} {a a' : α}

theorem slot_perm (h : l[i]? = some a) : l.Perm (a :: l.eraseIdx i) := by
  obtain ⟨hlt, rfl⟩ := List.getElem?_eq_some_iff.1 h
  exact (List.getElem_cons_eraseIdx_perm hlt).symm

theorem slot_set_perm (h : l[i]? = some a) (a' : α) : (l.set i a').Perm (a' :: l.eraseIdx i) :=
  List.set_perm_cons_eraseIdx (List.getElem?_eq_some_iff.1 h).1 a'

theorem slot_mem {b : α} (h : l[i]? = some a) : b ∈ l ↔ b = a ∨ b ∈ l.eraseIdx i := by
  rw [(slot_perm h).mem_iff, List.mem_cons]

theorem slot_mem_set {b : α} (h : l[i]? = some a) (a' : α) : b ∈ l.set i a' ↔ b = a' ∨ b ∈ l.eraseIdx i := by
  rw [(slot_set_perm h a').mem_iff, List.mem_cons]

/-- a relation between any two slots, by one of them and the others -/
theorem slot_pairwise {R : α → α → Prop} (hsymm : ∀ {x y}, R x y → R y x) (h : l[i]? = some a) :
    l.Pairwise R ↔ (∀ b ∈ l.eraseIdx i, R a b) ∧ (l.eraseIdx i).Pairwise R := by
  rw [(slot_perm h).pairwise_iff hsymm, List.pairwise_cons]

theorem slot_pairwise_set {R : α → α → Prop} (hsymm : ∀ {x y}, R x y → R y x) (h : l[i]? = some a) (a' : α) :
    (l.set i a').Pairwise R ↔ (∀ b ∈ l.eraseIdx i, R a' b) ∧ (l.eraseIdx i).Pairwise R := by
  rw [(slot_set_perm h a').pairwise_iff hsymm, List.pairwise_cons]

theorem slot_map_set {f : α → β} (h : l[i]? = some a) (hf : f a' = f a) : (l.set i a').map f = l.map f := by
  obtain ⟨hlt, rfl⟩ := List.getElem?_eq_some_iff.1 h
  rw [List.map_set, hf, ← List.getElem_map f (h := by simpa using hlt), List.set_getElem_self]

theorem slot_countP (h : l[i]? = some a) (p : α → Bool) :
    l.countP p = (l.eraseIdx i).countP p + if p a then 1 else 0 := by
  rw [(slot_perm h).countP_eq p, List.countP_cons]

theorem slot_countP_set (h : l[i]? = some a) (p : α → Bool) (a' : α) :
    (l.set i a').countP p = (l.eraseIdx i).countP p + if p a' then 1 else 0 := by
  rw [(slot_set_perm h a').countP_eq p, List.countP_cons]

/-- a count before and after a slot is set -/
theorem slot_countP_exchange (h : l[i]? = some a) (p : α → Bool) (a' : α) :
    (l.set i a').countP p + (p a).toNat = l.countP p + (p a').toNat := by
  rw [slot_countP h, slot_countP_set h]
  cases p a <;> cases p a' <;> simp

/-- of what is counted once at most there is none beside the one -/
theorem slot_unique {j : ℕ} {b : α} {p : α → Bool} (h : l[i]? = some a) (hone : l.countP p ≤ 1) (ha : p a = true)
    (hj : l[j]? = some b) (hij : j ≠ i) : p b = false := by
  by_contra hb
  have hother : 0 < (l.eraseIdx i).countP p :=
    List.countP_pos_iff.2 ⟨b, List.mem_eraseIdx_iff_getElem?.2 ⟨j, hij, hj⟩, Bool.eq_true_of_not_eq_false hb⟩
  rw [slot_countP h, if_pos ha] at hone
  omega

theorem slot_filterMap (h : l[i]? = some a) (f : α → Option β) :
    (l.filterMap f).Perm ((f a).toList ++ (l.eraseIdx i).filterMap f) := by
  refine ((slot_perm h).filterMap f).trans ?_
  cases hf : f a with
  | none => simp [hf]
  | some y => simp [hf]

theorem slot_filterMap_set (h : l[i]? = some a) (f : α → Option β) (a' : α) :
    ((l.set i a').filterMap f).Perm ((f a').toList ++ (l.eraseIdx i).filterMap f) := by
  refine ((slot_set_perm h a').filterMap f).trans ?_
  cases hf : f a' with
  | none => simp [hf]
  | some y => simp [hf]

theorem slot_sum (h : l[i]? = some a) (f : α → ℤ) : (l.map f).sum = f a + ((l.eraseIdx i).map f).sum := by
  rw [((slot_perm h).map f).sum_eq, List.map_cons, List.sum_cons]

theorem slot_sum_set (h : l[i]? = some a) (f : α → ℤ) (a' : α) :
    ((l.set i a').map f).sum = f a' + ((l.eraseIdx i).map f).sum := by
  rw [((slot_set_perm h a').map f).sum_eq, List.map_cons, List.sum_cons]

theorem slot_length (h : l[i]? = some a) : l.length = (l.eraseIdx i).length + 1 :=
  (slot_perm h).length_eq

end Core
