/-
Threads that wait on a condition variable, as slots of a list: a predicate selects those that are asleep and not notified
yet, and `wake` notifies one.

- `wakeOne`: a signal. The environment chooses the waiter, and there is nobody to wake only if nobody waits.
- `wakeAll`: a broadcast.
- `wakeOne_countP`, `wakeAll_countP`: what they do to a count of slots that the waking changes, or does not concern.
-/
import Bboy.Core.Slots

namespace Core

variable {γ : Type*} {p q : γ → Bool} {wake : γ → γ} {l l' : List γ} {target : Option ℕ}

/-- wake the chosen waiter; `none` is a signal that finds nobody waiting -/
def wakeOne (p : γ → Bool) (wake : γ → γ) (l : List γ) : Option ℕ → Option (List γ)
  | some i => l[i]?.bind fun a => if p a then some (l.set i (wake a)) else none
  | none => if l.any p then none else some l

def wakeAll (p : γ → Bool) (wake : γ → γ) (l : List γ) : List γ := l.map fun a => if p a then wake a else a

theorem wakeOne_cases (h : wakeOne p wake l target = some l') :
    (∃ i a, l[i]? = some a ∧ p a = true ∧ l' = l.set i (wake a)) ∨ (∀ a ∈ l, p a = false) ∧ l' = l := by
  cases target with
  | some i =>
    obtain ⟨a, ha, hset⟩ := Option.bind_eq_some_iff.1 h
    split_ifs at hset with hp
    exact Or.inl ⟨i, a, ha, hp, (Option.some.inj hset).symm⟩
  | none =>
    simp only [wakeOne] at h
    split_ifs at h with hany
    refine Or.inr ⟨fun a ha => ?_, (Option.some.inj h).symm⟩
    by_contra hp
    exact hany (List.any_eq_true.2 ⟨a, ha, Bool.eq_true_of_not_eq_false hp⟩)

/-- a signal that finds nobody is always possible when nobody waits -/
theorem wakeOne_none (h : ∀ a ∈ l, p a = false) : wakeOne p wake l none = some l := by
  have hany : l.any p = false := List.any_eq_false.2 fun a ha => by simp [h a ha]
  simp [wakeOne, hany]

theorem wakeOne_mem (h : wakeOne p wake l target = some l') {b : γ} (hb : b ∈ l') :
    b ∈ l ∨ ∃ a ∈ l, p a = true ∧ b = wake a := by
  rcases wakeOne_cases h with ⟨i, a, ha, hp, rfl⟩ | ⟨-, rfl⟩
  · rcases List.mem_or_eq_of_mem_set hb with hb | rfl
    · exact Or.inl hb
    · exact Or.inr ⟨a, List.mem_of_getElem? ha, hp, rfl⟩
  · exact Or.inl hb

/-- what a waking keeps, a signal keeps -/
theorem wakeOne_forall {K : γ → Prop} (hl : ∀ a ∈ l, K a) (hwake : ∀ a, p a = true → K a → K (wake a))
    (h : wakeOne p wake l target = some l') : ∀ a ∈ l', K a := by
  intro b hb
  rcases wakeOne_mem h hb with hb | ⟨a, ha, hp, rfl⟩
  · exact hl b hb
  · exact hwake a hp (hl a ha)

theorem wakeAll_forall {K : γ → Prop} (hl : ∀ a ∈ l, K a) (hwake : ∀ a, p a = true → K a → K (wake a)) :
    ∀ a ∈ wakeAll p wake l, K a := by
  intro b hb
  obtain ⟨a, ha, rfl⟩ := List.mem_map.1 hb
  split_ifs with hp
  · exact hwake a hp (hl a ha)
  · exact hl a ha

/-- a count that a waking does not concern -/
theorem wakeOne_countP (hq : ∀ a, p a = true → q (wake a) = q a) (h : wakeOne p wake l target = some l') :
    l'.countP q = l.countP q := by
  rcases wakeOne_cases h with ⟨i, a, ha, hp, rfl⟩ | ⟨-, rfl⟩
  · rw [slot_countP_set ha, slot_countP ha, hq a hp]
  · rfl

/-- a signal makes one waiter less, and one woken slot more, if there is a waiter -/
theorem wakeOne_waiters (hp : ∀ a, p a = true → p (wake a) = false) (hq : ∀ a, p a = true → q (wake a) = true)
    (hpq : ∀ a, p a = true → q a = false) (h : wakeOne p wake l target = some l') :
    l.countP p = 0 ∧ l' = l ∨ l.countP p = l'.countP p + 1 ∧ l'.countP q = l.countP q + 1 := by
  rcases wakeOne_cases h with ⟨i, a, ha, hpa, rfl⟩ | ⟨hnone, rfl⟩
  · right
    rw [slot_countP ha, slot_countP_set ha, slot_countP ha, slot_countP_set ha, if_pos hpa, hp a hpa, hq a hpa,
      hpq a hpa]
    simp
  · left
    exact ⟨List.countP_eq_zero.2 fun a ha => by simp [hnone a ha], rfl⟩

theorem wakeAll_waiters (hp : ∀ a, p a = true → p (wake a) = false) : ∀ a ∈ wakeAll p wake l, p a = false := by
  intro a ha
  obtain ⟨b, -, rfl⟩ := List.mem_map.1 ha
  split_ifs with hb
  · exact hp b hb
  · exact Bool.eq_false_iff.2 hb

theorem wakeAll_countP (hq : ∀ a, p a = true → q (wake a) = q a) : (wakeAll p wake l).countP q = l.countP q := by
  unfold wakeAll
  rw [List.countP_map]
  refine List.countP_congr fun a _ => ?_
  simp only [Function.comp_apply]
  split_ifs with ha
  · rw [hq a ha]
  · rfl

end Core
