/-
Heap cells that are owned by one pointer each: a list of variables, every one of them null or the only pointer to a live
cell, stands for a list of optional values (`Owns`).

- `read`, `alloc`, `free`: cells get new addresses; a cell that is gone cannot be read or freed.
- `Owns.push`, `Owns.set`: a variable that is new, or is set, when the heap keeps the cells of the others; from these come
  the rules for a variable that gives its cell up (`free`, `set_null`), gets a new cell (`alloc_set`, `alloc_push`), or takes
  over the cell of another one (`move_set`, `move_push`);
- `Owns.erase`: a variable that goes out of scope.
-/
import Mathlib.Tactic

namespace Core

/-- cells by their addresses; a cell is gone once it is freed -/
abbrev Heap (α : Type*) := List (Option α)

namespace Heap

variable {α β : Type*}

def read (heap : Heap α) (p : ℕ) : Option α := heap[p]?.join

/-- `new`: the heap, and the address of the cell -/
def alloc (heap : Heap α) (a : α) : Heap α × ℕ := (heap ++ [some a], heap.length)

/-- `delete`, which ignores a null pointer -/
def free (heap : Heap α) : Option ℕ → Option (Heap α)
  | none => some heap
  | some p => if (read heap p).isSome then some (heap.set p none) else none

variable {heap : Heap α} {a : α} {p q : ℕ}

theorem lt_of_read (h : read heap p = some a) : p < heap.length := by
  by_contra hle
  rw [read, List.getElem?_eq_none (not_lt.1 hle)] at h
  exact absurd h (by simp)

theorem read_alloc_self (heap : Heap α) (a : α) : read (alloc heap a).1 (alloc heap a).2 = some a := by
  simp [read, alloc]

theorem read_alloc {b : α} (h : read heap p = some a) : read (alloc heap b).1 p = some a := by
  rw [read, alloc, List.getElem?_append_left (lt_of_read h)]
  exact h

theorem read_set_none (hne : q ≠ p) : read (heap.set q none) p = read heap p := by
  rw [read, List.getElem?_set_ne hne]
  rfl

/-! ## Owners -/

variable {Rep : α → β → Prop} {vars : List (Option ℕ)} {values : List (Option β)} {i j : ℕ}

/-- a null pointer for no value, and otherwise a pointer to a cell that represents the value -/
def Holds (Rep : α → β → Prop) (heap : Heap α) : Option ℕ → Option β → Prop
  | none, none => True
  | some p, some v => ∃ a, read heap p = some a ∧ Rep a v
  | _, _ => False

structure Owns (Rep : α → β → Prop) (heap : Heap α) (vars : List (Option ℕ)) (values : List (Option β)) : Prop where
  length : vars.length = values.length
  holds : ∀ (i : ℕ) p v, vars[i]? = some p → values[i]? = some v → Holds Rep heap p v
  distinct : ∀ (i j : ℕ) p, vars[i]? = some (some p) → vars[j]? = some (some p) → i = j

/-- a heap that still has the cell -/
theorem Holds.mono {heap' : Heap α} {p : Option ℕ} {v : Option β} (h : Holds Rep heap p v)
    (hread : ∀ q a, p = some q → read heap q = some a → read heap' q = some a) : Holds Rep heap' p v := by
  match p, v, h with
  | none, none, _ => exact trivial
  | some q, some v, h =>
    obtain ⟨a, ha, hrep⟩ := h
    exact ⟨a, hread q a rfl ha, hrep⟩

theorem Owns.nil : Owns Rep heap [] [] :=
  ⟨rfl, fun _ _ _ h => absurd h (by simp), fun _ _ _ h => absurd h (by simp)⟩

/-- the variable of a value -/
theorem Owns.get (h : Owns Rep heap vars values) {v : Option β} (hv : values[i]? = some v) :
    ∃ p, vars[i]? = some p ∧ Holds Rep heap p v := by
  have hlt : i < vars.length := h.length ▸ (List.getElem?_eq_some_iff.1 hv).1
  exact ⟨vars[i], List.getElem?_eq_getElem hlt, h.holds i _ v (List.getElem?_eq_getElem hlt) hv⟩

/-- no variable points to the next address -/
theorem Owns.fresh (h : Owns Rep heap vars values) : vars[i]? ≠ some (some heap.length) := by
  intro hi
  have hlt : i < values.length := h.length ▸ (List.getElem?_eq_some_iff.1 hi).1
  have hholds := h.holds i _ values[i] hi (List.getElem?_eq_getElem hlt)
  match values[i], hholds with
  | some v, ⟨a, ha, _⟩ => exact absurd (lt_of_read ha) (lt_irrefl _)
  | none, hholds => exact hholds

/-- a heap that keeps the cells of all variables, and a new variable that shares none of them -/
theorem Owns.push (h : Owns Rep heap vars values) {heap' : Heap α} {p : Option ℕ} {v : Option β}
    (hheap : ∀ (i : ℕ) q a, vars[i]? = some (some q) → read heap q = some a → read heap' q = some a)
    (hnew : Holds Rep heap' p v) (hfresh : ∀ (i : ℕ) q, p = some q → vars[i]? ≠ some (some q)) :
    Owns Rep heap' (vars ++ [p]) (values ++ [v]) := by
  have hcases : ∀ (i : ℕ) q, (vars ++ [p])[i]? = some q → vars[i]? = some q ∨ i = vars.length ∧ p = q := by
    intro i q hi
    rcases lt_trichotomy i vars.length with hlt | heq | hgt
    · rw [List.getElem?_append_left hlt] at hi
      exact Or.inl hi
    · rw [heq, List.getElem?_concat_length, Option.some.injEq] at hi
      exact Or.inr ⟨heq, hi⟩
    · rw [List.getElem?_eq_none (by simp; omega)] at hi
      exact absurd hi (by simp)
  refine ⟨by simp [h.length], fun i q w hi hw => ?_, fun i j q hi hj => ?_⟩
  · rcases hcases i q hi with hi | ⟨rfl, rfl⟩
    · have hlt : i < values.length := h.length ▸ (List.getElem?_eq_some_iff.1 hi).1
      rw [List.getElem?_append_left hlt] at hw
      refine (h.holds i q w hi hw).mono fun q' a hq' => ?_
      exact hheap i q' a (hq' ▸ hi)
    · rw [h.length, List.getElem?_concat_length, Option.some.injEq] at hw
      exact hw ▸ hnew
  · rcases hcases i _ hi with hi' | ⟨rfl, rfl⟩ <;> rcases hcases j _ hj with hj' | ⟨rfl, hp⟩
    · exact h.distinct i j q hi' hj'
    · exact absurd hi' (hfresh i q hp)
    · exact absurd hj' (hfresh j q rfl)
    · rfl

/-- a heap that keeps the cells of the other variables, and a variable that gets a pointer which they do not have -/
theorem Owns.set (h : Owns Rep heap vars values) {heap' : Heap α} {p : Option ℕ} {v : Option β}
    (hheap : ∀ j ≠ i, ∀ q a, vars[j]? = some (some q) → read heap q = some a → read heap' q = some a)
    (hnew : Holds Rep heap' p v) (hfresh : ∀ j ≠ i, ∀ q, p = some q → vars[j]? ≠ some (some q)) :
    Owns Rep heap' (vars.set i p) (values.set i v) := by
  have hcases : ∀ (j : ℕ) q, (vars.set i p)[j]? = some q → j ≠ i ∧ vars[j]? = some q ∨ j = i ∧ p = q := by
    intro j q hj
    by_cases hji : j = i
    · subst hji
      have hlt : j < vars.length := by simpa using (List.getElem?_eq_some_iff.1 hj).1
      rw [List.getElem?_set_self hlt, Option.some.injEq] at hj
      exact Or.inr ⟨rfl, hj⟩
    · rw [List.getElem?_set_ne (Ne.symm hji)] at hj
      exact Or.inl ⟨hji, hj⟩
  refine ⟨by simp [h.length], fun j q w hj hw => ?_, fun j k q hj hk => ?_⟩
  · rcases hcases j q hj with ⟨hji, hj⟩ | ⟨rfl, rfl⟩
    · rw [List.getElem?_set_ne (Ne.symm hji)] at hw
      refine (h.holds j q w hj hw).mono fun q' a hq' => ?_
      exact hheap j hji q' a (hq' ▸ hj)
    · have hlt : j < values.length := by simpa using (List.getElem?_eq_some_iff.1 hw).1
      rw [List.getElem?_set_self hlt, Option.some.injEq] at hw
      exact hw ▸ hnew
  · rcases hcases j _ hj with ⟨hji, hj'⟩ | ⟨rfl, rfl⟩ <;> rcases hcases k _ hk with ⟨hki, hk'⟩ | ⟨rfl, hp⟩
    · exact h.distinct j k q hj' hk'
    · exact absurd hj' (hfresh j hji q hp)
    · exact absurd hk' (hfresh k hki q rfl)
    · rfl

theorem Owns.set_null (h : Owns Rep heap vars values) (i : ℕ) : Owns Rep heap (vars.set i none) (values.set i none) :=
  h.set (fun _ _ _ _ _ ha => ha) trivial fun _ _ _ hq => absurd hq (by simp)

/-- a variable gives its cell up -/
theorem Owns.free (h : Owns Rep heap vars values) {p : Option ℕ} (hp : vars[i]? = some p) :
    ∃ heap', Heap.free heap p = some heap' ∧ Owns Rep heap' (vars.set i none) (values.set i none) := by
  match p, hp with
  | none, hp => exact ⟨heap, rfl, h.set_null i⟩
  | some q, hp =>
    have hlt : i < values.length := h.length ▸ (List.getElem?_eq_some_iff.1 hp).1
    have hlive : (read heap q).isSome := by
      have hholds := h.holds i _ values[i] hp (List.getElem?_eq_getElem hlt)
      match values[i], hholds with
      | some _, ⟨a, ha, _⟩ => rw [ha]; rfl
    refine ⟨heap.set q none, if_pos hlive, h.set (fun j hji q' a hj ha => ?_) trivial fun _ _ _ hq => absurd hq (by simp)⟩
    have hne : q ≠ q' := fun heq => hji (h.distinct j i q' hj (heq ▸ hp))
    rw [read_set_none hne, ha]

theorem Owns.alloc_push (h : Owns Rep heap vars values) {v : β} (hrep : Rep a v) :
    Owns Rep (alloc heap a).1 (vars ++ [some (alloc heap a).2]) (values ++ [some v]) := by
  refine h.push (fun _ _ _ _ => read_alloc) ⟨a, read_alloc_self heap a, hrep⟩ fun i q hq hi => ?_
  rw [← hq] at hi
  exact h.fresh hi

theorem Owns.push_null (h : Owns Rep heap vars values) : Owns Rep heap (vars ++ [none]) (values ++ [none]) :=
  h.push (fun _ _ _ _ ha => ha) trivial fun _ _ hq => absurd hq (by simp)

theorem Owns.alloc_set (h : Owns Rep heap vars values) {v : β} (hrep : Rep a v) (i : ℕ) :
    Owns Rep (alloc heap a).1 (vars.set i (some (alloc heap a).2)) (values.set i (some v)) := by
  refine h.set (fun _ _ _ _ _ => read_alloc) ⟨a, read_alloc_self heap a, hrep⟩ fun j _ q hq hj => ?_
  rw [← hq] at hj
  exact h.fresh hj

/-- once a variable is null, no variable has its former pointer -/
theorem Owns.ne_of_set_null (h : Owns Rep heap vars values) (hp : vars[j]? = some (some q)) :
    (vars.set j none)[i]? ≠ some (some q) := by
  by_cases hij : j = i
  · subst hij
    rw [List.getElem?_set_self (List.getElem?_eq_some_iff.1 hp).1]
    simp
  · rw [List.getElem?_set_ne hij]
    exact fun hi => hij (h.distinct j i q hp hi)

/-- a variable takes over the cell of another one, which is null afterwards -/
theorem Owns.move_set (h : Owns Rep heap vars values) {p : Option ℕ} {v : Option β} (hij : i ≠ j)
    (hp : vars[j]? = some p) (hv : values[j]? = some v) :
    Owns Rep heap ((vars.set i p).set j none) ((values.set i v).set j none) := by
  rw [List.set_comm _ _ hij, List.set_comm _ _ hij]
  refine (h.set_null j).set (fun _ _ _ _ _ ha => ha) (h.holds j p v hp hv) fun k _ q hq => ?_
  exact h.ne_of_set_null (hq ▸ hp)

theorem Owns.move_push (h : Owns Rep heap vars values) {p : Option ℕ} {v : Option β} (hp : vars[j]? = some p)
    (hv : values[j]? = some v) : Owns Rep heap (vars.set j none ++ [p]) (values.set j none ++ [v]) := by
  refine (h.set_null j).push (fun _ _ _ _ ha => ha) (h.holds j p v hp hv) fun k q hq => ?_
  exact h.ne_of_set_null (hq ▸ hp)

theorem Owns.erase (h : Owns Rep heap vars values) (i : ℕ) : Owns Rep heap (vars.eraseIdx i) (values.eraseIdx i) := by
  refine ⟨by simp [List.length_eraseIdx, h.length], fun j p v hj hv => ?_, fun j k p hj hk => ?_⟩
  · rw [List.getElem?_eraseIdx] at hj hv
    split_ifs at hj hv
    · exact h.holds j p v hj hv
    · exact h.holds (j + 1) p v hj hv
  · rw [List.getElem?_eraseIdx] at hj hk
    split_ifs at hj hk <;> have := h.distinct _ _ _ hj hk <;> omega

end Heap

end Core
