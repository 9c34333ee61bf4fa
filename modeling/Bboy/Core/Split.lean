/-
Texts that are split at a separator, over any type of elements.

- `splitNonempty`: the pieces between the separators, the empty ones left out. What is joined by a separator is split into
  the pieces of both parts (`splitNonempty_append_cons`), and pieces that were joined come back
  (`splitNonempty_intercalate`).
- `splitFirst`: the text in front of the first separator, and what is behind it.
-/
import Mathlib.Data.List.TakeWhile

namespace Core

variable {α : Type*} [DecidableEq α] {sep : α} {text rest a b : List α}

/-! ## All separators -/

def splitNonempty (sep : α) (text : List α) : List (List α) := (text.splitOn sep).filter (!·.isEmpty)

theorem not_mem_splitOn {piece : List α} (h : piece ∈ text.splitOn sep) : sep ∉ piece := by
  induction text generalizing piece with
  | nil =>
    rw [List.splitOn_nil, List.mem_singleton] at h
    rw [h]
    exact List.not_mem_nil
  | cons c text ih =>
    rw [List.splitOn_cons_eq_if_modifyHead] at h
    split at h
    · rcases List.mem_cons.1 h with rfl | h
      · exact List.not_mem_nil
      · exact ih h
    · next hc =>
      obtain ⟨first, others, hsplit⟩ := List.exists_cons_of_ne_nil (List.splitOn_ne_nil sep text)
      rw [hsplit] at h ih
      rcases List.mem_cons.1 h with rfl | h
      · intro hmem
        rcases List.mem_cons.1 hmem with rfl | hmem
        · exact hc (beq_self_eq_true _)
        · exact ih List.mem_cons_self hmem
      · exact ih (List.mem_cons_of_mem _ h)

/-- what a piece is like -/
theorem of_mem_splitNonempty {piece : List α} (h : piece ∈ splitNonempty sep text) : piece ≠ [] ∧ sep ∉ piece := by
  obtain ⟨hmem, hne⟩ := List.mem_filter.1 h
  refine ⟨?_, not_mem_splitOn hmem⟩
  rintro rfl
  simp at hne

@[simp] theorem splitNonempty_nil : splitNonempty sep [] = [] := rfl

theorem splitNonempty_append_cons : splitNonempty sep (a ++ sep :: b) = splitNonempty sep a ++ splitNonempty sep b := by
  rw [splitNonempty, List.splitOn_append_cons_self, List.filter_append]
  rfl

theorem splitNonempty_cons_self : splitNonempty sep (sep :: b) = splitNonempty sep b := splitNonempty_append_cons (a := [])

/-- a text without a separator is one piece -/
theorem splitNonempty_single (hne : a ≠ []) (h : sep ∉ a) : splitNonempty sep a = [a] := by
  rw [splitNonempty, List.splitOn_eq_singleton h, List.filter_cons_of_pos]
  · rfl
  · simpa using hne

/-- **Joined pieces come back.** -/
theorem splitNonempty_intercalate {pieces : List (List α)} (h : ∀ piece ∈ pieces, piece ≠ [] ∧ sep ∉ piece) :
    splitNonempty sep ([sep].intercalate pieces) = pieces := by
  by_cases hnil : pieces = []
  · rw [hnil]
    rfl
  · rw [splitNonempty, List.splitOn_intercalate sep (fun piece hp => (h piece hp).2) hnil, List.filter_eq_self]
    intro piece hp
    simpa using (h piece hp).1

/-! ## The first separator -/

def splitFirst (sep : α) (text : List α) : List α × List α :=
  (text.takeWhile (· != sep), (text.dropWhile (· != sep)).tail)

theorem not_mem_splitFirst : sep ∉ (splitFirst sep text).1 := by
  intro h
  have hne := List.mem_takeWhile_imp (p := (· != sep)) h
  exact absurd rfl (bne_iff_ne.1 hne)

theorem splitFirst_append_cons (h : sep ∉ a) : splitFirst sep (a ++ sep :: rest) = (a, rest) := by
  have hne : ∀ c ∈ a, (c != sep) = true := fun c hc => bne_iff_ne.2 fun heq => h (heq ▸ hc)
  rw [splitFirst, List.takeWhile_append_of_pos hne, List.dropWhile_append_of_pos hne, List.takeWhile_cons_of_neg (by simp),
    List.dropWhile_cons_of_neg (by simp), List.append_nil]
  rfl

end Core
