/-
A shared word with compare-and-swap, and what one access of one thread does to a predicate on the threads.

- `compareAndSwap`: the value found, and the word afterwards.
- `exists_set`, `forall_set`: a predicate on the slots after one of them is replaced.
-/
import Mathlib.Tactic

namespace Core

variable {α γ : Type*}

/-- the value found, and the word afterwards -/
def compareAndSwap [DecidableEq α] (word expected new : α) : α × α := (word, if word = expected then new else word)

@[simp] theorem compareAndSwap_found [DecidableEq α] (word expected new : α) :
    (compareAndSwap word expected new).1 = word := rfl

theorem compareAndSwap_won [DecidableEq α] {word expected : α} (h : word = expected) (new : α) :
    (compareAndSwap word expected new).2 = new := if_pos h

theorem compareAndSwap_lost [DecidableEq α] {word expected : α} (h : word ≠ expected) (new : α) :
    (compareAndSwap word expected new).2 = word := if_neg h

variable {l : List γ} {i : ℕ} {a a' : γ} {p : γ → Prop}

/-- a slot with `p` is still there, unless it was the one that was replaced -/
theorem exists_set (hi : l[i]? = some a) (h : ∃ b ∈ l, p b) : p a ∨ ∃ b ∈ l.set i a', p b := by
  obtain ⟨b, hb, hpb⟩ := h
  obtain ⟨j, hj⟩ := List.mem_iff_getElem?.1 hb
  by_cases hij : i = j
  · subst hij
    obtain rfl : a = b := Option.some.inj (hi.symm.trans hj)
    exact Or.inl hpb
  · exact Or.inr ⟨b, List.mem_iff_getElem?.2 ⟨j, by rw [List.getElem?_set_ne hij]; exact hj⟩, hpb⟩

theorem mem_set_self (hi : l[i]? = some a) (a' : γ) : a' ∈ l.set i a' :=
  List.mem_set (List.getElem?_eq_some_iff.1 hi).1 a'

theorem forall_set (h : ∀ b ∈ l, p b) (ha' : p a') : ∀ b ∈ l.set i a', p b := by
  intro b hb
  rcases List.mem_or_eq_of_mem_set hb with hb | rfl
  · exact h b hb
  · exact ha'

end Core
