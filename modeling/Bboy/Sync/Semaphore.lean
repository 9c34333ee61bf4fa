/-
Lean model of `Semaphore::TimedAcquire` (`bboy/base/sync/semaphore.cc`): the deadline that it computes from a reading of the
wall clock, in microseconds, and the loop that passes it to sem_timedwait.

The arithmetic is that of `int64_t`; `none` is an overflow. The environment decides what each call of sem_timedwait returns;
if its results run out, the last call has not returned.

- `passed_eq`: every call in the loop gets the same deadline.
- `timedAcquire_exact`: the deadline is the reading plus the timeout exactly when their sum in nanoseconds fits.
- `wrapped_eq`, `wrapped_past`: the compiled code passes this deadline, and where the sum does not fit, one before 1970.
- `timedAcquire_broken`: the longest timeout in 2023.
Witness: `timedAcquire_exact_second`.
-/
import Bboy.Base.Monotime

namespace Bboy.Semaphore

open Core Monotime

/-! ## Model -/

def EINTR : ℤ := 4

def ETIMEDOUT : ℤ := 110

inductive Outcome where
  | waiting
  | returned (acquired : Bool)
  /-- `Fatal("timedwait")` -/
  | aborted
  deriving DecidableEq, Repr

/-- the deadlines of the calls of sem_timedwait, and how the loop ends -/
structure Run where
  passed : List Timespec
  outcome : Outcome
  deriving DecidableEq, Repr

variable (now : Int64) (timeout : MonoDelta)

/-- `abs_timeout` for a reading of `GetCurrentTimeMicros` -/
def absTimeout : Option Timespec := do
  let microtime ← addInt64 now timeout.toMicroseconds
  nanosToTimeSpec (← mulInt64 microtime kNanosecondsPerMicrosecond)

def waitLoop (absTimeout : Timespec) : List (Except ℤ Unit) → Run
  | [] => ⟨[absTimeout], .waiting⟩
  | .ok () :: _ => ⟨[absTimeout], .returned true⟩
  | .error errno :: results =>
    if errno = ETIMEDOUT then ⟨[absTimeout], .returned false⟩
    else if errno = EINTR then
      let run := waitLoop absTimeout results
      { run with passed := absTimeout :: run.passed }
    else ⟨[absTimeout], .aborted⟩

def timedAcquire (results : List (Except ℤ Unit)) : Option Run :=
  (absTimeout now timeout).map fun absTimeout => waitLoop absTimeout results

/-- the reading plus the timeout in whole microseconds, as nanoseconds -/
def dueNanos : ℤ := (now.toInt + timeout.nanoDelta.toInt.tdiv 1000) * 1000

/-- the deadline is not before the reading, and it is due then or saturated -/
structure OnTime (ts : Timespec) : Prop where
  normalised : ts.Normalised
  notBefore : now.toInt * 1000 ≤ ts.nanos
  due : ts.nanos = dueNanos now timeout ∨ ts.nanos = 2 ^ 63 - 1 ∧ ts.nanos < dueNanos now timeout

/-- no step overflows, and every call of sem_timedwait gets such a deadline -/
def Sound : Prop :=
  ∀ results, ∃ run, timedAcquire now timeout results = some run ∧ ∀ ts ∈ run.passed, OnTime now timeout ts

/-- the nanoseconds with sums and products that wrap around, as the compiled code has them -/
def wrappedNanos : Int64 := (now + timeout.toMicroseconds) * kNanosecondsPerMicrosecond

/-! ## The loop -/

variable {now timeout} {ts : Timespec}

/-- every call gets the deadline -/
theorem passed_eq (results : List (Except ℤ Unit)) :
    ∀ ts' ∈ (waitLoop ts results).passed, ts' = ts := by
  induction results with
  | nil => simp [waitLoop]
  | cons r results ih =>
    cases r with
    | ok _ => simp [waitLoop]
    | error errno =>
      rw [waitLoop]
      split_ifs with htimedOut hinterrupted
      · simp
      · exact List.forall_mem_cons.2 ⟨rfl, ih⟩
      · simp

theorem passed_ne_nil (results : List (Except ℤ Unit)) : ts ∈ (waitLoop ts results).passed := by
  cases results with
  | nil => exact List.mem_cons_self
  | cons r results =>
    cases r with
    | ok _ => exact List.mem_cons_self
    | error errno =>
      rw [waitLoop]
      split_ifs <;> exact List.mem_cons_self

/-- the loop adds nothing to what holds of the deadline -/
theorem sound_iff : Sound now timeout ↔ ∃ ts, absTimeout now timeout = some ts ∧ OnTime now timeout ts := by
  constructor
  · intro h
    obtain ⟨run, hrun, hpassed⟩ := h []
    obtain ⟨ts, hts, rfl⟩ := Option.map_eq_some_iff.1 hrun
    exact ⟨ts, hts, hpassed ts (passed_ne_nil [])⟩
  · rintro ⟨ts, hts, hontime⟩ results
    refine ⟨waitLoop ts results, Option.map_eq_some_iff.2 ⟨ts, hts, rfl⟩, fun ts' hmem => ?_⟩
    rw [passed_eq results ts' hmem]
    exact hontime

/-! ## The deadline -/

theorem toInt_micro : kNanosecondsPerMicrosecond.toInt = 1000 := rfl

/-- what a deadline that does not overflow is -/
theorem absTimeout_eq_some (h : absTimeout now timeout = some ts) :
    dueNanos now timeout < 2 ^ 63 ∧ ts.Normalised ∧ ts.nanos = dueNanos now timeout := by
  obtain ⟨microtime, hsum, h⟩ := Option.bind_eq_some_iff.1 h
  obtain ⟨nanos, hproduct, h⟩ := Option.bind_eq_some_iff.1 h
  obtain ⟨ts', hts, hnorm, hnanos⟩ := nanosToTimeSpec_spec nanos
  obtain rfl := Option.some.inj (hts.symm.trans h)
  have hmicrotime := checkInt64_eq_some.1 hsum
  have hvalue := checkInt64_eq_some.1 hproduct
  have hdue : nanos.toInt = dueNanos now timeout := by
    rw [hvalue, hmicrotime, toInt_micro, MonoDelta.toMicroseconds, toInt_div_micro, dueNanos]
  exact ⟨hdue ▸ nanos.toInt_lt, hnorm, hnanos.trans hdue⟩

/-- a deadline that does not overflow is the one that the compiled code passes -/
theorem wrapped_eq (h : absTimeout now timeout = some ts) : nanosToTimeSpec (wrappedNanos now timeout) = some ts := by
  obtain ⟨microtime, hsum, h⟩ := Option.bind_eq_some_iff.1 h
  obtain ⟨nanos, hproduct, h⟩ := Option.bind_eq_some_iff.1 h
  rw [wrappedNanos, ← eq_add_of_addInt64 hsum, ← eq_mul_of_mulInt64 hproduct]
  exact h

section Nonnegative

variable (hnow : 0 ≤ now) (htimeout : 0 ≤ timeout.nanoDelta)
include hnow htimeout

/-- the whole microseconds of the timeout -/
theorem micros_bounds : timeout.toMicroseconds.toInt = timeout.nanoDelta.toInt.tdiv 1000 ∧ 0 ≤ now.toInt ∧
    0 ≤ timeout.nanoDelta.toInt.tdiv 1000 ∧ timeout.nanoDelta.toInt.tdiv 1000 * 1000 ≤ timeout.nanoDelta.toInt ∧
      timeout.nanoDelta.toInt < timeout.nanoDelta.toInt.tdiv 1000 * 1000 + 1000 := by
  have hnow' : 0 ≤ now.toInt := Int64.le_iff_toInt_le.1 hnow
  have hnonneg : 0 ≤ timeout.nanoDelta.toInt := Int64.le_iff_toInt_le.1 htimeout
  obtain ⟨-, hlt, hrest, -⟩ := tdiv_remainder timeout.nanoDelta.toInt (show (0 : ℤ) < 1000 by norm_num)
  have hrest' := hrest hnonneg
  exact ⟨toInt_div_micro _, hnow', Int.tdiv_nonneg hnonneg (by norm_num), by omega, by omega⟩

theorem due_fits_iff :
    dueNanos now timeout < 2 ^ 63 ↔ timeout.nanoDelta.toInt + 1000 * now.toInt < 9223372036854776000 := by
  obtain ⟨-, -, -, hle, hlt⟩ := micros_bounds hnow htimeout
  rw [dueNanos]
  constructor
  · intro h
    omega
  · intro h
    omega

/-- **The deadline** is due if the sum fits. -/
theorem exists_absTimeout (h : dueNanos now timeout < 2 ^ 63) :
    ∃ ts, absTimeout now timeout = some ts ∧ OnTime now timeout ts := by
  obtain ⟨hmicros, hnow', hnonneg, -, -⟩ := micros_bounds hnow htimeout
  rw [dueNanos] at h
  obtain ⟨microtime, hsum, hmicrotime⟩ : ∃ microtime, addInt64 now timeout.toMicroseconds = some microtime ∧
      microtime.toInt = now.toInt + timeout.nanoDelta.toInt.tdiv 1000 := by
    rw [addInt64, hmicros]
    exact exists_checkInt64 (by omega) (by omega)
  obtain ⟨nanos, hproduct, hvalue⟩ : ∃ nanos, mulInt64 microtime kNanosecondsPerMicrosecond = some nanos ∧
      nanos.toInt = microtime.toInt * 1000 := exists_checkInt64 (by rw [toInt_micro]; omega) (by rw [toInt_micro]; omega)
  obtain ⟨ts, hts, hnorm, hnanos⟩ := nanosToTimeSpec_spec nanos
  have hdue : ts.nanos = dueNanos now timeout := by
    rw [hnanos, hvalue, hmicrotime, dueNanos]
  refine ⟨ts, ?_, hnorm, ?_, Or.inl hdue⟩
  · rw [absTimeout, hsum, Option.bind_eq_bind, Option.bind_some, hproduct]
    exact hts
  · rw [hdue, dueNanos]
    omega

/-- **A sum that does not fit** wraps around to a deadline before 1970, so that the longest timeouts are over at once. -/
theorem wrapped_past (h2200 : now.toInt < 7258118400000000) (hover : ¬dueNanos now timeout < 2 ^ 63) :
    ∃ ts, nanosToTimeSpec (wrappedNanos now timeout) = some ts ∧ ts.nanos < 0 := by
  obtain ⟨hmicros, hnow', hnonneg, hle, -⟩ := micros_bounds hnow htimeout
  have hlt := timeout.nanoDelta.toInt_lt
  have hsum : (now + timeout.toMicroseconds).toInt = now.toInt + timeout.nanoDelta.toInt.tdiv 1000 := by
    rw [Int64.toInt_add, hmicros]
    exact Int.bmod_eq_of_le (by omega) (by omega)
  obtain ⟨ts, hts, -, hnanos⟩ := nanosToTimeSpec_spec (wrappedNanos now timeout)
  refine ⟨ts, hts, ?_⟩
  rw [hnanos, wrappedNanos, Int64.toInt_mul, hsum, toInt_micro]
  rw [dueNanos] at hover
  have hbelow : (now.toInt + timeout.nanoDelta.toInt.tdiv 1000) * 1000 < 2 ^ 64 := by omega
  generalize (now.toInt + timeout.nanoDelta.toInt.tdiv 1000) * 1000 = due at hover hbelow ⊢
  rw [Int.bmod_def]
  split_ifs <;> omega

end Nonnegative

/-- **The deadline is right** exactly when the timeout and the reading together are less than 9223372036854776000
nanoseconds, the first whole microsecond that an `int64_t` does not hold. -/
theorem timedAcquire_exact (now : Int64) (timeout : MonoDelta) (hnow : 0 ≤ now) (htimeout : 0 ≤ timeout.nanoDelta) :
    Sound now timeout ↔ timeout.nanoDelta.toInt + 1000 * now.toInt < 9223372036854776000 := by
  rw [sound_iff, ← due_fits_iff hnow htimeout]
  constructor
  · rintro ⟨ts, hts, -⟩
    exact (absTimeout_eq_some hts).1
  · exact exists_absTimeout hnow htimeout

/-- a second from a reading in 2023 on -/
theorem timedAcquire_exact_second : Sound 1700000000000000 ⟨1000000000⟩ :=
  (timedAcquire_exact 1700000000000000 ⟨1000000000⟩ (by decide) (by decide)).2 (by decide)

/-- the longest timeout from a reading in 2023 on -/
def forever : MonoDelta := ⟨Int64.maxValue⟩

/-- **Waiting forever** overflows; the deadline that the compiled code passes is in the year 1731. -/
theorem timedAcquire_broken :
    ¬Sound 1700000000000000 forever ∧
      nanosToTimeSpec (wrappedNanos 1700000000000000 forever) = some ⟨-7523372037, 145223384⟩ := by
  refine ⟨fun h => ?_, by decide +kernel⟩
  obtain ⟨ts, hts, -⟩ := sound_iff.1 h
  have hfits := (absTimeout_eq_some hts).1
  exact absurd hfits (by decide)

end Bboy.Semaphore
