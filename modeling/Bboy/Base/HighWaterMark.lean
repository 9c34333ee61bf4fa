/-
Lean model of `HighWaterMark` (`bboy/base/high_water_mark.h`), with `AtomicInt::StoreMax` (`bboy/base/sync/atomic.h`).

A step of a call is one atomic access: a load, a compare-and-swap or the fetch-and-add of `IncrementBy`. The current value
and the maximum are two words, and any number of calls run at a time. No sum overflows, so the words are integers.

- `advance_cases`: what an access can do.
- `Tracked`: a value that the current value ever held is below the maximum, or a call is about to store it there.
- `marks_exact`: when all calls have returned, the current value is the initial one plus all successful increments, and the
  maximum is the largest value it ever held; a `TryIncrementBy` that returned true moved it in one step, below its bound.
Witness: `marks_exact_race`.
-/
import Bboy.Core.Machine
import Bboy.Core.Slots

namespace Bboy.HighWaterMark

open Core

/-! ## The counter -/

inductive Kind where
  | incrementBy (amount : ℤ)
  | tryIncrementBy (delta max : ℤ)
  deriving DecidableEq, Repr

/-- before an access: `compareAndSet` is that of `TryIncrementBy`, with the value it loaded; the last two are in `StoreMax` -/
inductive Pc where
  | entering
  | compareAndSet (oldVal : ℤ)
  | loadMax (value : ℤ)
  | compareAndSwap (value oldValue : ℤ)
  | returned (result : Bool)
  deriving DecidableEq, Repr

structure Call where
  kind : Kind
  pc : Pc
  deriving DecidableEq, Repr

structure St where
  currentValue : ℤ
  maxValue : ℤ
  calls : List Call
  deriving DecidableEq, Repr

inductive Op where
  | call (kind : Kind)
  | step (i : ℕ)
  deriving DecidableEq, Repr

/-- what an access leaves in the two words, and where the call goes on -/
structure Access where
  currentValue : ℤ
  maxValue : ℤ
  pc : Pc
  deriving DecidableEq, Repr

/-- one access of a call that finds `cur` and `mx` in the words -/
def advance (cur mx : ℤ) : Kind → Pc → Option Access
  | .incrementBy amount, .entering => some ⟨cur + amount, mx, .loadMax (cur + amount)⟩
  | .tryIncrementBy delta max, .entering =>
    let newVal := cur + delta
    some ⟨cur, mx, if newVal > max then .returned false else .compareAndSet cur⟩
  | .tryIncrementBy delta _, .compareAndSet oldVal =>
    let newVal := oldVal + delta
    some (if cur = oldVal then ⟨newVal, mx, .loadMax newVal⟩ else ⟨cur, mx, .entering⟩)
  | _, .loadMax value => some ⟨cur, mx, .compareAndSwap value mx⟩
  | _, .compareAndSwap value oldValue =>
    some (if mx = oldValue then ⟨cur, max oldValue value, .returned true⟩ else ⟨cur, mx, .compareAndSwap value mx⟩)
  | _, _ => none

def machine (initialValue : ℤ) : Machine St Op where
  init := ⟨initialValue, initialValue, []⟩
  step s
    | .call kind => some { s with calls := s.calls ++ [⟨kind, .entering⟩] }
    | .step i => s.calls[i]?.bind fun c => (advance s.currentValue s.maxValue c.kind c.pc).map fun acc =>
        ⟨acc.currentValue, acc.maxValue, s.calls.set i { c with pc := acc.pc }⟩

/-! ## Accesses -/

def Kind.amount : Kind → ℤ
  | .incrementBy amount => amount
  | .tryIncrementBy delta _ => delta

/-- the increment has been made -/
def Pc.hasAdded : Pc → Bool
  | .loadMax _ | .compareAndSwap _ _ | .returned true => true
  | _ => false

/-- the value on its way to `StoreMax` -/
def Pc.carries : Pc → Option ℤ
  | .loadMax value | .compareAndSwap value _ => some value
  | _ => none

def Pc.isReturned : Pc → Bool
  | .returned _ => true
  | _ => false

/-- what a call adds to the current value -/
def Call.increment (c : Call) : ℤ := if c.pc.hasAdded then c.kind.amount else 0

/-- a `TryIncrementBy` that has loaded a value may add to it -/
def Kind.Allows : Kind → Pc → Prop
  | .tryIncrementBy delta max, .compareAndSet oldVal => oldVal + delta ≤ max
  | _, _ => True

/-- what an access can do -/
inductive Advances (cur mx : ℤ) (kind : Kind) : Pc → Access → Prop
  | quiet {pc pc'} (hadded : pc'.hasAdded = pc.hasAdded) (hcarries : pc'.carries = pc.carries) (hallows : kind.Allows pc') :
    Advances cur mx kind pc ⟨cur, mx, pc'⟩
  | adds {pc} (hbefore : pc.hasAdded = false) (hnone : pc.carries = none)
    (hpc : pc = .compareAndSet cur ∨ ∃ amount, kind = .incrementBy amount) :
    Advances cur mx kind pc ⟨cur + kind.amount, mx, .loadMax (cur + kind.amount)⟩
  | stores {value} : Advances cur mx kind (.compareAndSwap value mx) ⟨cur, max mx value, .returned true⟩

variable {v₀ cur mx : ℤ} {kind : Kind} {pc : Pc} {acc : Access} {s t : St} {o : Op} {i : ℕ} {c : Call}

theorem storeMax_cases {value oldValue : ℤ} (h : advance cur mx kind (.compareAndSwap value oldValue) = some acc) :
    Advances cur mx kind (.compareAndSwap value oldValue) acc := by
  have hacc : acc = if mx = oldValue then ⟨cur, max oldValue value, .returned true⟩
      else ⟨cur, mx, .compareAndSwap value mx⟩ := by
    cases kind <;> exact (Option.some.inj h).symm
  rw [hacc]
  split_ifs with hsame
  · subst hsame
    exact Advances.stores
  · exact Advances.quiet rfl rfl (by cases kind <;> trivial)

/-- **What an access can do.** -/
theorem advance_cases (h : advance cur mx kind pc = some acc) : Advances cur mx kind pc acc := by
  cases pc with
  | entering =>
    cases kind with
    | incrementBy amount =>
      cases h
      exact Advances.adds rfl rfl (Or.inr ⟨amount, rfl⟩)
    | tryIncrementBy delta max =>
      cases h
      by_cases hover : cur + delta > max
      · rw [if_pos hover]
        exact Advances.quiet rfl rfl trivial
      · rw [if_neg hover]
        exact Advances.quiet rfl rfl (not_lt.1 hover)
  | compareAndSet oldVal =>
    cases kind with
    | incrementBy amount => cases h
    | tryIncrementBy delta max =>
      cases h
      by_cases hsame : cur = oldVal
      · rw [if_pos hsame, ← hsame]
        exact Advances.adds rfl rfl (Or.inl rfl)
      · rw [if_neg hsame]
        exact Advances.quiet rfl rfl trivial
  | loadMax value =>
    cases kind <;> cases h <;> exact Advances.quiet rfl rfl trivial
  | compareAndSwap value oldValue => exact storeMax_cases h
  | returned result => cases kind <;> cases h

/-- what a step can do -/
theorem step_cases (h : (machine v₀).step s o = some t) :
    (∃ kind, o = .call kind ∧ t = { s with calls := s.calls ++ [⟨kind, .entering⟩] }) ∨
      ∃ i c acc, o = .step i ∧ s.calls[i]? = some c ∧ Advances s.currentValue s.maxValue c.kind c.pc acc ∧
        t = ⟨acc.currentValue, acc.maxValue, s.calls.set i { c with pc := acc.pc }⟩ := by
  cases o with
  | call kind =>
    cases h
    exact Or.inl ⟨kind, rfl, rfl⟩
  | step i =>
    obtain ⟨c, hc, hacc⟩ := Option.bind_eq_some_iff.1 h
    obtain ⟨acc, hadv, rfl⟩ := Option.map_eq_some_iff.1 hacc
    exact Or.inr ⟨i, c, acc, rfl, hc, advance_cases hadv, rfl⟩

/-! ## The invariant -/

/-- a value of the current value is below the maximum, or a call will store it there -/
def Covered (s : St) (v : ℤ) : Prop := v ≤ s.maxValue ∨ ∃ c ∈ s.calls, ∃ value, c.pc.carries = some value ∧ v ≤ value

/-- of a state and the states visited up to it -/
structure Tracked (v₀ : ℤ) (V : Set St) (s : St) : Prop where
  here : s ∈ V
  sum : s.currentValue = v₀ + (s.calls.map Call.increment).sum
  covered : ∀ u ∈ V, Covered s u.currentValue
  attained : ∃ u ∈ V, u.currentValue = s.maxValue
  carried : ∀ c ∈ s.calls, ∀ value, c.pc.carries = some value → ∃ u ∈ V, u.currentValue = value
  allowed : ∀ c ∈ s.calls, c.kind.Allows c.pc

/-- the state after an access of call `i` -/
def St.after (s : St) (i : ℕ) (c : Call) (acc : Access) : St :=
  ⟨acc.currentValue, acc.maxValue, s.calls.set i { c with pc := acc.pc }⟩

@[simp] theorem after_currentValue : (s.after i c acc).currentValue = acc.currentValue := rfl
@[simp] theorem after_maxValue : (s.after i c acc).maxValue = acc.maxValue := rfl
@[simp] theorem after_calls : (s.after i c acc).calls = s.calls.set i { c with pc := acc.pc } := rfl

theorem advances_max_le (h : Advances cur mx kind pc acc) : mx ≤ acc.maxValue := by
  cases h with
  | quiet => exact le_rfl
  | adds => exact le_rfl
  | stores => exact le_max_left _ _

/-- what a call carries, it carries on or has stored -/
theorem advances_carries {value : ℤ} (h : Advances cur mx kind pc acc) (hcarry : pc.carries = some value) :
    value ≤ acc.maxValue ∨ acc.pc.carries = some value := by
  cases h with
  | quiet hadded hcarries hallows => exact Or.inr (hcarries.trans hcarry)
  | adds hbefore hnone hpc => exact absurd (hcarry.symm.trans hnone) (Option.some_ne_none value)
  | stores =>
    cases hcarry
    exact Or.inl (le_max_right _ _)

theorem advances_covered (hc : s.calls[i]? = some c) (h : Advances s.currentValue s.maxValue c.kind c.pc acc) {v : ℤ}
    (hv : Covered s v) : Covered (s.after i c acc) v := by
  obtain hle | ⟨b, hb, value, hcarry, hle⟩ := hv
  · exact Or.inl (hle.trans (advances_max_le h))
  · obtain rfl | hother := (slot_mem hc).1 hb
    · obtain hstored | hstill := advances_carries h hcarry
      · exact Or.inl (hle.trans hstored)
      · exact Or.inr ⟨_, (slot_mem_set hc _).2 (Or.inl rfl), value, hstill, hle⟩
    · exact Or.inr ⟨b, (slot_mem_set hc _).2 (Or.inr hother), value, hcarry, hle⟩

/-- the current value moves by what the access adds to the call -/
theorem advances_increment (h : Advances s.currentValue s.maxValue c.kind c.pc acc) :
    acc.currentValue - s.currentValue = Call.increment { c with pc := acc.pc } - c.increment := by
  unfold Call.increment
  generalize hp : c.pc = pc at h
  cases h with
  | quiet hadded hcarries hallows =>
    rw [hadded]
    simp
  | adds hbefore hnone hpc =>
    rw [hbefore]
    simp [Pc.hasAdded]
  | stores => simp [Pc.hasAdded]

theorem sum_step (hc : s.calls[i]? = some c) (h : Advances s.currentValue s.maxValue c.kind c.pc acc)
    (hsum : s.currentValue = v₀ + (s.calls.map Call.increment).sum) :
    acc.currentValue = v₀ + ((s.calls.set i { c with pc := acc.pc }).map Call.increment).sum := by
  have hmove := advances_increment h
  have hnew := slot_sum_set hc Call.increment { c with pc := acc.pc }
  rw [slot_sum hc] at hsum
  omega

/-- the current value that an access leaves is old, or the call carries it -/
theorem advances_current (h : Advances cur mx kind pc acc) :
    acc.currentValue = cur ∨ acc.pc.carries = some acc.currentValue := by
  cases h with
  | quiet => exact Or.inl rfl
  | adds => exact Or.inr rfl
  | stores => exact Or.inl rfl

/-- what a call carries after an access, it carried before or has just made the current value -/
theorem advances_carried {value : ℤ} (h : Advances cur mx kind pc acc) (hcarry : acc.pc.carries = some value) :
    pc.carries = some value ∨ acc.currentValue = value := by
  cases h with
  | quiet hadded hcarries hallows => exact Or.inl (hcarries.symm.trans hcarry)
  | adds => exact Or.inr (Option.some.inj hcarry)
  | stores => exact absurd hcarry.symm (Option.some_ne_none value)

/-- the maximum an access leaves is old, or the call carried it -/
theorem advances_max (h : Advances cur mx kind pc acc) : acc.maxValue = mx ∨ pc.carries = some acc.maxValue := by
  cases h with
  | quiet => exact Or.inl rfl
  | adds => exact Or.inl rfl
  | @stores value =>
    obtain hle | hle := le_total value mx
    · exact Or.inl (max_eq_left hle)
    · exact Or.inr (congrArg some (max_eq_right hle).symm)

theorem advances_allows (h : Advances cur mx kind pc acc) : kind.Allows acc.pc := by
  cases h with
  | quiet hadded hcarries hallows => exact hallows
  | adds => cases kind <;> trivial
  | stores => cases kind <;> trivial

variable {V : Set St}

theorem tracked_call (h : Tracked v₀ V s) (kind : Kind) :
    Tracked v₀ (insert { s with calls := s.calls ++ [⟨kind, .entering⟩] } V)
      { s with calls := s.calls ++ [⟨kind, .entering⟩] } := by
  have hnew : ∀ c ∈ s.calls ++ [⟨kind, .entering⟩], c ∈ s.calls ∨ c = ⟨kind, .entering⟩ := by
    intro c hc
    exact (List.mem_append.1 hc).imp_right List.mem_singleton.1
  have hcovered : ∀ v, Covered s v → Covered { s with calls := s.calls ++ [⟨kind, .entering⟩] } v := by
    intro v hv
    exact hv.imp_right fun ⟨c, hc, hcarry⟩ => ⟨c, List.mem_append_left _ hc, hcarry⟩
  constructor
  · exact Set.mem_insert _ _
  · simpa [Call.increment, Pc.hasAdded] using h.sum
  · rintro u (rfl | hu)
    · exact hcovered _ (h.covered s h.here)
    · exact hcovered _ (h.covered u hu)
  · obtain ⟨u, hu, hmax⟩ := h.attained
    exact ⟨u, Set.mem_insert_of_mem _ hu, hmax⟩
  · intro c hc value hcarry
    obtain hold | rfl := hnew c hc
    · obtain ⟨u, hu, hvalue⟩ := h.carried c hold value hcarry
      exact ⟨u, Set.mem_insert_of_mem _ hu, hvalue⟩
    · exact absurd hcarry.symm (Option.some_ne_none value)
  · intro c hc
    obtain hold | rfl := hnew c hc
    · exact h.allowed c hold
    · cases kind <;> trivial

theorem tracked_advance (h : Tracked v₀ V s) (hc : s.calls[i]? = some c)
    (hadv : Advances s.currentValue s.maxValue c.kind c.pc acc) :
    Tracked v₀ (insert (s.after i c acc) V) (s.after i c acc) := by
  have hcmem : c ∈ s.calls := List.mem_of_getElem? hc
  have hkeep : ∀ v, Covered s v → Covered (s.after i c acc) v := fun v => advances_covered hc hadv
  have hpast : ∀ value, (∃ u ∈ V, u.currentValue = value) → ∃ u ∈ insert (s.after i c acc) V, u.currentValue = value :=
    fun value ⟨u, hu, hvalue⟩ => ⟨u, Set.mem_insert_of_mem _ hu, hvalue⟩
  constructor
  · exact Set.mem_insert _ _
  · exact sum_step hc hadv h.sum
  · rintro u (rfl | hu)
    · obtain hsame | hcarry := advances_current hadv
      · rw [after_currentValue, hsame]
        exact hkeep _ (h.covered s h.here)
      · exact Or.inr ⟨_, (slot_mem_set hc _).2 (Or.inl rfl), _, hcarry, le_rfl⟩
    · exact hkeep _ (h.covered u hu)
  · apply hpast
    obtain hsame | hcarry := advances_max hadv
    · rw [after_maxValue, hsame]
      exact h.attained
    · exact h.carried c hcmem _ hcarry
  · intro b hb value hcarry
    obtain rfl | hother := (slot_mem_set hc _).1 hb
    · obtain hbefore | hnow := advances_carried hadv hcarry
      · exact hpast value (h.carried c hcmem value hbefore)
      · exact ⟨_, Set.mem_insert _ _, hnow⟩
    · exact hpast value (h.carried b ((slot_mem hc).2 (Or.inr hother)) value hcarry)
  · intro b hb
    obtain rfl | hother := (slot_mem_set hc _).1 hb
    · exact advances_allows hadv
    · exact h.allowed b ((slot_mem hc).2 (Or.inr hother))

theorem tracked_step (h : Tracked v₀ V s) (hst : (machine v₀).step s o = some t) : Tracked v₀ (insert t V) t := by
  obtain ⟨kind, rfl, rfl⟩ | ⟨i, c, acc, rfl, hc, hadv, rfl⟩ := step_cases hst
  · exact tracked_call h kind
  · exact tracked_advance h hc hadv

theorem run_tracked {ops : List Op} (h : (machine v₀).run (machine v₀).init ops = some s) :
    Tracked v₀ {u | (machine v₀).Visits (machine v₀).init ops u} s := by
  refine Machine.run_inv_visits (fun V s o t hs hst => tracked_step hs hst) ?_ h
  have hmem : (machine v₀).init ∈ ({(machine v₀).init} : Set St) := rfl
  constructor
  · exact hmem
  · exact (add_zero v₀).symm
  · rintro u rfl
    exact Or.inl le_rfl
  · exact ⟨_, hmem, rfl⟩
  · intro c hc
    exact absurd hc List.not_mem_nil
  · intro c hc
    exact absurd hc List.not_mem_nil

/-! ## The increments of `TryIncrementBy` -/

/-- call `i` is a `TryIncrementBy` that has made its increment -/
def Moved (i : ℕ) (delta mx : ℤ) (s : St) : Prop :=
  ∃ c, s.calls[i]? = some c ∧ c.kind = .tryIncrementBy delta mx ∧ c.pc.hasAdded = true

/-- the step by which it is made -/
theorem moved_step {delta : ℤ} (hallowed : ∀ c ∈ s.calls, c.kind.Allows c.pc) (hst : (machine v₀).step s o = some t)
    (hbefore : ¬ Moved i delta mx s) (hafter : Moved i delta mx t) :
    o = .step i ∧ t.currentValue = s.currentValue + delta ∧ t.currentValue ≤ mx := by
  obtain ⟨b, hb, hkind, hadded⟩ := hafter
  obtain ⟨kind, rfl, rfl⟩ | ⟨j, c, acc, rfl, hc, hadv, rfl⟩ := step_cases hst
  · obtain hold | hnew := List.mem_append.1 (List.mem_of_getElem? hb)
    · have hlt : i < s.calls.length := by
        by_contra hge
        rw [List.getElem?_append_right (not_lt.1 hge)] at hb
        obtain rfl := List.mem_singleton.1 (List.mem_of_getElem? hb)
        exact Bool.noConfusion hadded
      rw [List.getElem?_append_left hlt] at hb
      exact absurd ⟨b, hb, hkind, hadded⟩ hbefore
    · obtain rfl := List.mem_singleton.1 hnew
      exact Bool.noConfusion hadded
  · obtain rfl | hne := eq_or_ne j i
    · obtain rfl : b = { c with pc := acc.pc } := by
        rw [List.getElem?_set_self (List.getElem?_eq_some_iff.1 hc).1] at hb
        exact (Option.some.inj hb).symm
      have hnot : c.pc.hasAdded = false := by
        by_contra hyes
        exact hbefore ⟨c, hc, hkind, Bool.eq_true_of_not_eq_false hyes⟩
      have hallow := hallowed c (List.mem_of_getElem? hc)
      refine ⟨rfl, ?_⟩
      obtain ⟨kind, pc⟩ := c
      dsimp only at hadv hnot hallow hkind hadded
      subst hkind
      cases hadv with
      | quiet hsame => exact absurd hadded (by rw [hsame, hnot]; exact Bool.false_ne_true)
      | adds _ _ hpc =>
        obtain rfl | ⟨amount, heq⟩ := hpc
        · exact ⟨rfl, hallow⟩
        · cases heq
      | stores => exact Bool.noConfusion hnot
    · rw [List.getElem?_set_ne hne] at hb
      exact absurd ⟨b, hb, hkind, hadded⟩ hbefore

theorem try_moves {delta : ℤ} {ops : List Op} (h : (machine v₀).run (machine v₀).init ops = some s)
    (hmoved : Moved i delta mx s) :
    ∃ pre post u v, ops = pre ++ .step i :: post ∧ (machine v₀).run (machine v₀).init pre = some u ∧
      (machine v₀).step u (.step i) = some v ∧ v.currentValue = u.currentValue + delta ∧ v.currentValue ≤ mx := by
  have hstart : ¬ Moved i delta mx (machine v₀).init := by
    rintro ⟨c, hc, -⟩
    exact absurd hc (Option.not_mem_none c)
  obtain ⟨pre, o, post, u, v, hops, hu, hv, -, hnot, hyes⟩ := Machine.run_first hstart hmoved h
  obtain ⟨rfl, hvalue, hmax⟩ := moved_step (run_tracked hu).allowed hv hnot hyes
  exact ⟨pre, post, u, v, hops, hu, hv, hvalue, hmax⟩

/-! ## Main result -/

/-- no call is still running -/
def St.Quiet (s : St) : Prop := ∀ c ∈ s.calls, c.pc.isReturned = true

instance (s : St) : Decidable s.Quiet := inferInstanceAs (Decidable (∀ c ∈ s.calls, c.pc.isReturned = true))

def Call.successful (c : Call) : Option ℤ := if c.pc = .returned true then some c.kind.amount else none

/-- the increments of the calls that returned true -/
def St.increments (s : St) : List ℤ := s.calls.filterMap Call.successful

theorem returned_increment (h : c.pc.isReturned = true) : c.increment = c.successful.toList.sum := by
  obtain ⟨kind, pc⟩ := c
  cases pc with
  | returned result => cases result <;> simp [Call.increment, Call.successful, Pc.hasAdded]
  | entering => exact Bool.noConfusion h
  | compareAndSet oldVal => exact Bool.noConfusion h
  | loadMax value => exact Bool.noConfusion h
  | compareAndSwap value oldValue => exact Bool.noConfusion h

theorem returned_increments {calls : List Call} (h : ∀ c ∈ calls, c.pc.isReturned = true) :
    (calls.map Call.increment).sum = (calls.filterMap Call.successful).sum := by
  induction calls with
  | nil => rfl
  | cons c calls ih =>
    obtain ⟨hc, hcalls⟩ := List.forall_mem_cons.1 h
    rw [List.map_cons, List.sum_cons, returned_increment hc, ih hcalls, List.filterMap_cons]
    cases c.successful <;> simp

/-- the values that the current value had in a run -/
def held (v₀ : ℤ) (ops : List Op) : Set ℤ :=
  {v | ∃ u, (machine v₀).Visits (machine v₀).init ops u ∧ u.currentValue = v}

theorem quiet_max {ops : List Op} (h : (machine v₀).run (machine v₀).init ops = some s) (hquiet : s.Quiet) :
    IsGreatest (held v₀ ops) s.maxValue := by
  have htracked := run_tracked h
  constructor
  · exact htracked.attained
  · rintro v ⟨u, hu, rfl⟩
    obtain hle | ⟨c, hc, value, hcarry, -⟩ := htracked.covered u hu
    · exact hle
    · have hreturned := hquiet c hc
      revert hreturned hcarry
      cases c.pc <;> simp [Pc.carries, Pc.isReturned]

/-- **The two marks.** -/
theorem marks_exact (v₀ : ℤ) (ops : List Op) (s : St) (h : (machine v₀).run (machine v₀).init ops = some s) :
    (s.Quiet → s.currentValue = v₀ + s.increments.sum ∧ IsGreatest (held v₀ ops) s.maxValue) ∧
      ∀ i delta mx, s.calls[i]? = some ⟨.tryIncrementBy delta mx, .returned true⟩ →
        ∃ pre post u v, ops = pre ++ .step i :: post ∧ (machine v₀).run (machine v₀).init pre = some u ∧
          (machine v₀).step u (.step i) = some v ∧ v.currentValue = u.currentValue + delta ∧ v.currentValue ≤ mx := by
  constructor
  · intro hquiet
    exact ⟨(run_tracked h).sum.trans (by rw [returned_increments hquiet]; rfl), quiet_max h hquiet⟩
  · intro i delta mx hi
    exact try_moves h ⟨_, hi, rfl, rfl⟩

/-- a `TryIncrementBy` and a larger `IncrementBy` whose maximum is stored first -/
theorem marks_exact_race :
    ∃ ops s, (machine 5).run (machine 5).init ops = some s ∧ s.maxValue = 12 ∧ IsGreatest (held 5 ops) s.maxValue ∧
      ∃ u v, (machine 5).step u (.step 0) = some v ∧ v.currentValue = u.currentValue + 3 ∧ v.currentValue ≤ 10 := by
  let ops : List Op := [.call (.tryIncrementBy 3 10), .call (.incrementBy 4), .step 0, .step 0, .step 0, .step 1, .step 1,
    .step 1, .step 0, .step 0]
  let s : St := ⟨12, 12, [⟨.tryIncrementBy 3 10, .returned true⟩, ⟨.incrementBy 4, .returned true⟩]⟩
  have hrun : (machine 5).run (machine 5).init ops = some s := by decide +kernel
  obtain ⟨hmarks, htry⟩ := marks_exact 5 ops s hrun
  obtain ⟨pre, post, u, v, -, -, hstep, hvalue, hmax⟩ := htry 0 3 10 rfl
  exact ⟨ops, s, hrun, rfl, (hmarks (by decide)).2, u, v, hstep, hvalue, hmax⟩

end Bboy.HighWaterMark
