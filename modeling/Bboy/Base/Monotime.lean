/-
Lean model of the conversions of `MonoDelta` and `MonoTime` (`bboy/base/monotime.cc`), and of the timeout that
`Socket::SetTimeout` (`bboy/base/net/socket.cc`) makes of one.

The arithmetic is that of `int64_t`; `none` is an overflow, or a `CHECK` that fails. `DCHECK(Initialized())` is compiled out,
so that the results hold of uninitialized deltas, too.

- `nanosToTimeSpec_eq`: no step overflows, and the result is that of `Sync/TimedWait.lean` on unbounded integers.
- `toTimeVal_spec`: a `timeval` is within a microsecond of the delta, and has its sign.
- `conversions_exact`: both, and a `MonoTime` from a `timespec` has its nanoseconds.
- `checkPasses_iff`: which times the constructor accepts.
-/
import Bboy.Core.MachineInt
import Bboy.Sync.TimedWait

namespace Bboy.Monotime

open Core

/-! ## Model -/

def kNanosecondsPerSecond : Int64 := 1000000000

def kNanosecondsPerMicrosecond : Int64 := 1000

/-- `timespec` -/
structure Timespec where
  tvSec : Int64
  tvNsec : Int64
  deriving DecidableEq, Repr

/-- `timeval` -/
structure Timeval where
  tvSec : Int64
  tvUsec : Int64
  deriving DecidableEq, Repr

structure MonoDelta where
  nanoDelta : Int64
  deriving DecidableEq, Repr

structure MonoTime where
  nanos : Int64
  deriving DecidableEq, Repr

def MonoDelta.toMicroseconds (delta : MonoDelta) : Int64 := delta.nanoDelta / kNanosecondsPerMicrosecond

def nanosToTimeSpec (nanos : Int64) : Option Timespec := do
  let tvSec := nanos / kNanosecondsPerSecond
  let tvNsec ← subInt64 nanos (← mulInt64 tvSec kNanosecondsPerSecond)
  if tvNsec < 0 then
    return ⟨← subInt64 tvSec 1, ← addInt64 tvNsec kNanosecondsPerSecond⟩
  else
    return ⟨tvSec, tvNsec⟩

/-- the last two branches of `ToTimeVal`: a delta of less than a microsecond does not become zero -/
def keepNonzero (nanoDelta : Int64) (tv : Timeval) : Timeval :=
  let tv := if tv.tvUsec = 0 ∧ tv.tvSec = 0 ∧ nanoDelta > 0 then { tv with tvUsec := 1 } else tv
  if tv.tvUsec = 0 ∧ tv.tvSec = 0 ∧ nanoDelta < 0 then ⟨-1, 999999⟩ else tv

def MonoDelta.toTimeVal (delta : MonoDelta) : Option Timeval := do
  let tvSec := delta.nanoDelta / kNanosecondsPerSecond
  let tvUsec := (← subInt64 delta.nanoDelta (← mulInt64 tvSec kNanosecondsPerSecond)) / kNanosecondsPerMicrosecond
  if tvUsec < 0 then
    return keepNonzero delta.nanoDelta ⟨← subInt64 tvSec 1, ← addInt64 tvUsec 1000000⟩
  else
    return keepNonzero delta.nanoDelta ⟨tvSec, tvUsec⟩

/-- unsigned -/
def MAX_MONOTONIC_SECONDS : UInt64 := (((1 : UInt64) <<< 63) - 1) / 1000000000

/-- `CHECK_LT(ts.tv_sec, MAX_MONOTONIC_SECONDS)`, a comparison of unsigned numbers -/
def CheckPasses (ts : Timespec) : Prop := ts.tvSec.toUInt64 < MAX_MONOTONIC_SECONDS

instance (ts : Timespec) : Decidable (CheckPasses ts) := inferInstanceAs (Decidable (_ < _))

/-- the constructor from a `timespec` -/
def MonoTime.ofTimespec (ts : Timespec) : Option MonoTime := do
  guard (CheckPasses ts)
  let nanos ← mulInt64 ts.tvSec kNanosecondsPerSecond
  return ⟨← addInt64 nanos ts.tvNsec⟩

/-- the `timeval` that `SetTimeout` passes to setsockopt; it refuses a negative timeout -/
def setTimeoutVal (timeout : MonoDelta) : Option Timeval := do
  guard (0 ≤ timeout.nanoDelta)
  timeout.toTimeVal

/-! ## What the values mean -/

def Timespec.nanos (ts : Timespec) : ℤ := ts.tvSec.toInt * 1000000000 + ts.tvNsec.toInt

def Timespec.Normalised (ts : Timespec) : Prop := 0 ≤ ts.tvNsec.toInt ∧ ts.tvNsec.toInt < 1000000000

def Timeval.nanos (tv : Timeval) : ℤ := tv.tvSec.toInt * 1000000000 + tv.tvUsec.toInt * 1000

def Timeval.Normalised (tv : Timeval) : Prop := 0 ≤ tv.tvUsec.toInt ∧ tv.tvUsec.toInt < 1000000

/-- its members as unbounded integers -/
def Timespec.ints (ts : Timespec) : TimedWait.TimeSpec := ⟨ts.tvSec.toInt, ts.tvNsec.toInt⟩

/-! ## `NanosToTimeSpec` -/

variable {nanos : Int64} {delta : MonoDelta} {ts : Timespec} {tv : Timeval}

theorem toInt_second : kNanosecondsPerSecond.toInt = 1000000000 := rfl

theorem toInt_div_second (nanos : Int64) : (nanos / kNanosecondsPerSecond).toInt = nanos.toInt.tdiv 1000000000 :=
  Int64.toInt_div_of_ne_right _ _ (by decide)

theorem toInt_div_micro (nanos : Int64) : (nanos / kNanosecondsPerMicrosecond).toInt = nanos.toInt.tdiv 1000 :=
  Int64.toInt_div_of_ne_right _ _ (by decide)

/-- the whole seconds and what remains of them; neither step overflows -/
theorem exists_remainder (nanos : Int64) :
    ∃ whole rest, mulInt64 (nanos / kNanosecondsPerSecond) kNanosecondsPerSecond = some whole ∧
      subInt64 nanos whole = some rest ∧ rest.toInt = nanos.toInt - nanos.toInt.tdiv 1000000000 * 1000000000 := by
  have hle := nanos.le_toInt
  have hlt := nanos.toInt_lt
  obtain ⟨hlow, hhigh, hnonneg, hnonpos⟩ := tdiv_remainder nanos.toInt (show (0 : ℤ) < 1000000000 by norm_num)
  obtain ⟨whole, hwhole, hvalue⟩ : ∃ whole, mulInt64 (nanos / kNanosecondsPerSecond) kNanosecondsPerSecond = some whole ∧
      whole.toInt = nanos.toInt.tdiv 1000000000 * 1000000000 := by
    rw [mulInt64, toInt_div_second, toInt_second]
    exact exists_checkInt64 (by omega) (by omega)
  obtain ⟨rest, hrest, hremains⟩ : ∃ rest, subInt64 nanos whole = some rest ∧ rest.toInt = nanos.toInt - whole.toInt :=
    exists_checkInt64 (by omega) (by omega)
  exact ⟨whole, rest, hwhole, hrest, hvalue ▸ hremains⟩

/-- `--sec` for a quotient -/
theorem exists_borrow {sec : Int64} (h : -2 ^ 62 ≤ sec.toInt) :
    ∃ r, subInt64 sec 1 = some r ∧ r.toInt = sec.toInt - 1 := by
  have hlt := sec.toInt_lt
  have hone : (1 : Int64).toInt = 1 := rfl
  rw [subInt64, hone]
  exact exists_checkInt64 (by omega) (by omega)

/-- a unit that a negative remainder gets -/
theorem exists_carry {rest unit : Int64} (hneg : rest.toInt < 0) (hunit : 0 ≤ unit.toInt) :
    ∃ r, addInt64 rest unit = some r ∧ r.toInt = rest.toInt + unit.toInt := by
  have hle := rest.le_toInt
  have hlt := unit.toInt_lt
  exact exists_checkInt64 (by omega) (by omega)

/-- **`NanosToTimeSpec`** does not overflow, and computes as on unbounded integers. -/
theorem nanosToTimeSpec_eq (nanos : Int64) :
    ∃ ts, nanosToTimeSpec nanos = some ts ∧ ts.ints = TimedWait.nanosToTimeSpec nanos.toInt := by
  have hle := nanos.le_toInt
  obtain ⟨whole, rest, hwhole, hrest, hvalue⟩ := exists_remainder nanos
  have hsec := toInt_div_second nanos
  obtain ⟨hlow, hhigh, -, -⟩ := tdiv_remainder nanos.toInt (show (0 : ℤ) < 1000000000 by norm_num)
  simp only [nanosToTimeSpec, TimedWait.nanosToTimeSpec, Option.bind_eq_bind, hwhole, hrest, Option.bind_some,
    ← hvalue, Int64.lt_iff_toInt_lt, Int64.toInt_zero]
  by_cases hneg : rest.toInt < 0
  · obtain ⟨sec, hborrow, hsec'⟩ := @exists_borrow (nanos / kNanosecondsPerSecond) (by omega)
    obtain ⟨nsec, hcarry, hnsec⟩ := @exists_carry rest kNanosecondsPerSecond hneg (by decide)
    refine ⟨⟨sec, nsec⟩, ?_, ?_⟩
    · rw [if_pos hneg, hborrow, hcarry]
      rfl
    · rw [if_pos hneg, Timespec.ints, hsec', hsec, hnsec, toInt_second]
  · refine ⟨⟨nanos / kNanosecondsPerSecond, rest⟩, ?_, ?_⟩
    · rw [if_neg hneg]
      rfl
    · rw [if_neg hneg, Timespec.ints, hsec]

/-- the `timespec` is normalised and exact -/
theorem nanosToTimeSpec_spec (nanos : Int64) :
    ∃ ts, nanosToTimeSpec nanos = some ts ∧ ts.Normalised ∧ ts.nanos = nanos.toInt := by
  obtain ⟨ts, hts, hints⟩ := nanosToTimeSpec_eq nanos
  have hnsec := TimedWait.nsec_nanosToTimeSpec nanos.toInt
  have hnanos := TimedWait.nanos_nanosToTimeSpec nanos.toInt
  rw [← hints] at hnsec hnanos
  exact ⟨ts, hts, hnsec, hnanos⟩

/-! ## A `MonoTime` from a `timespec` -/

/-- a negative number is a large unsigned one -/
theorem checkPasses_iff_sec : CheckPasses ts ↔ 0 ≤ ts.tvSec.toInt ∧ ts.tvSec.toInt < 9223372036 := by
  have hmax : MAX_MONOTONIC_SECONDS.toNat = 9223372036 := rfl
  have hvalue : ts.tvSec.toInt = ts.tvSec.toBitVec.toInt := rfl
  have hunsigned : ts.tvSec.toUInt64.toNat = ts.tvSec.toBitVec.toNat := rfl
  have hlt := ts.tvSec.toBitVec.isLt
  rw [CheckPasses, UInt64.lt_iff_toNat_lt, hmax, hvalue, hunsigned, BitVec.toInt_eq_toNat_cond]
  split_ifs <;> omega

/-- the times that the constructor accepts: those of 0 to 9223372035 whole seconds -/
theorem checkPasses_iff (h : ts.Normalised) : CheckPasses ts ↔ 0 ≤ ts.nanos ∧ ts.nanos < 9223372036000000000 := by
  obtain ⟨hlow, hhigh⟩ := h
  rw [checkPasses_iff_sec, Timespec.nanos]
  constructor
  · rintro ⟨hnonneg, hlt⟩
    omega
  · rintro ⟨hnonneg, hlt⟩
    omega

/-- **The nanoseconds come back**, if the constructor accepts the `timespec`. -/
theorem ofTimespec_eq (h : ts.Normalised) (hcheck : CheckPasses ts) (hnanos : ts.nanos = nanos.toInt) :
    MonoTime.ofTimespec ts = some ⟨nanos⟩ := by
  obtain ⟨hlow, hhigh⟩ := h
  obtain ⟨hnonneg, hlt⟩ := checkPasses_iff_sec.1 hcheck
  rw [Timespec.nanos] at hnanos
  obtain ⟨whole, hwhole, hvalue⟩ : ∃ whole, mulInt64 ts.tvSec kNanosecondsPerSecond = some whole ∧
      whole.toInt = ts.tvSec.toInt * 1000000000 := by
    rw [mulInt64, toInt_second]
    exact exists_checkInt64 (by omega) (by omega)
  have hsum : addInt64 whole ts.tvNsec = some nanos := by
    rw [addInt64, checkInt64_eq_some, hvalue]
    exact hnanos.symm
  simp only [MonoTime.ofTimespec, guard, if_pos hcheck, hwhole, hsum, Option.bind_eq_bind, Option.bind_some]
  rfl

/-! ## `ToTimeVal` -/

/-- a delta rounded toward zero -/
structure Truncates (tv : Timeval) (n : ℤ) : Prop where
  normalised : tv.Normalised
  near : |tv.nanos - n| < 1000
  nonneg : 0 ≤ n → 0 ≤ tv.nanos
  nonpos : n ≤ 0 → tv.nanos ≤ 0

/-- a delta that only zero makes zero -/
structure Represents (tv : Timeval) (n : ℤ) : Prop where
  normalised : tv.Normalised
  near : |tv.nanos - n| < 1000
  sign : tv.nanos.sign = n.sign

theorem nanos_eq_zero (h : tv.Normalised) : tv.nanos = 0 ↔ tv.tvUsec = 0 ∧ tv.tvSec = 0 := by
  obtain ⟨hlow, hhigh⟩ := h
  have hzero : (0 : Int64).toInt = 0 := rfl
  rw [← Int64.toInt_inj, ← Int64.toInt_inj, hzero, Timeval.nanos]
  omega

theorem keepNonzero_of_ne (h : ¬(tv.tvUsec = 0 ∧ tv.tvSec = 0)) : keepNonzero nanos tv = tv := by
  have hno (q : Prop) : ¬(tv.tvUsec = 0 ∧ tv.tvSec = 0 ∧ q) := fun hz => h ⟨hz.1, hz.2.1⟩
  simp only [keepNonzero]
  rw [if_neg (hno _), if_neg (hno _)]

theorem keepNonzero_pos (h : tv.tvUsec = 0 ∧ tv.tvSec = 0) (hpos : nanos > 0) : keepNonzero nanos tv = ⟨0, 1⟩ := by
  obtain ⟨husec, hsec⟩ := h
  have hfirst : (if tv.tvUsec = 0 ∧ tv.tvSec = 0 ∧ nanos > 0 then ⟨tv.tvSec, 1⟩ else tv) = (⟨0, 1⟩ : Timeval) := by
    rw [if_pos ⟨husec, hsec, hpos⟩, hsec]
  simp only [keepNonzero]
  rw [hfirst, if_neg fun hz => absurd hz.1 (by decide)]

theorem keepNonzero_neg (h : tv.tvUsec = 0 ∧ tv.tvSec = 0) (hneg : nanos < 0) : keepNonzero nanos tv = ⟨-1, 999999⟩ := by
  obtain ⟨husec, hsec⟩ := h
  have hfirst : (if tv.tvUsec = 0 ∧ tv.tvSec = 0 ∧ nanos > 0 then ⟨tv.tvSec, 1⟩ else tv) = tv :=
    if_neg fun hz => Int64.lt_asymm hneg hz.2.2
  simp only [keepNonzero]
  rw [hfirst, if_pos ⟨husec, hsec, hneg⟩]

theorem keepNonzero_zero : keepNonzero 0 tv = tv := by
  simp only [keepNonzero]
  rw [if_neg (fun hz => absurd hz.2.2 (by decide)), if_neg (fun hz => absurd hz.2.2 (by decide))]

/-- **The last branches** keep a delta from becoming zero, and change nothing else. -/
theorem keepNonzero_represents (h : Truncates tv nanos.toInt) : Represents (keepNonzero nanos tv) nanos.toInt := by
  have hnear := abs_lt.1 h.near
  have hzero := nanos_eq_zero h.normalised
  rcases lt_trichotomy nanos.toInt 0 with hn | hn | hn
  · by_cases hz : tv.tvUsec = 0 ∧ tv.tvSec = 0
    · have hsec : (⟨-1, 999999⟩ : Timeval).tvSec.toInt = -1 := rfl
      have husec : (⟨-1, 999999⟩ : Timeval).tvUsec.toInt = 999999 := rfl
      have hnanos : (⟨-1, 999999⟩ : Timeval).nanos = -1000 := by
        rw [Timeval.nanos, hsec, husec]
        norm_num
      rw [hzero.2 hz] at hnear
      rw [keepNonzero_neg hz (Int64.lt_iff_toInt_lt.2 hn)]
      refine ⟨⟨by omega, by omega⟩, abs_lt.2 (by omega), ?_⟩
      rw [Int.sign_eq_neg_one_of_neg hn, hnanos]
      rfl
    · have hneg : tv.nanos < 0 := lt_of_le_of_ne (h.nonpos hn.le) (mt hzero.1 hz)
      rw [keepNonzero_of_ne hz]
      exact ⟨h.normalised, h.near, by rw [Int.sign_eq_neg_one_of_neg hn, Int.sign_eq_neg_one_of_neg hneg]⟩
  · have hnanos : tv.nanos = 0 := le_antisymm (h.nonpos hn.le) (h.nonneg hn.ge)
    obtain rfl : nanos = 0 := Int64.toInt_inj.1 hn
    rw [keepNonzero_zero]
    exact ⟨h.normalised, h.near, by rw [hnanos, hn]⟩
  · by_cases hz : tv.tvUsec = 0 ∧ tv.tvSec = 0
    · have hnanos : (⟨0, 1⟩ : Timeval).nanos = 1000 := rfl
      rw [hzero.2 hz] at hnear
      rw [keepNonzero_pos hz (Int64.lt_iff_toInt_lt.2 hn)]
      refine ⟨⟨by decide, by decide⟩, abs_lt.2 (by omega), ?_⟩
      rw [Int.sign_eq_one_of_pos hn, hnanos]
      rfl
    · have hpos : 0 < tv.nanos := lt_of_le_of_ne (h.nonneg hn.le) (Ne.symm (mt hzero.1 hz))
      rw [keepNonzero_of_ne hz]
      exact ⟨h.normalised, h.near, by rw [Int.sign_eq_one_of_pos hn, Int.sign_eq_one_of_pos hpos]⟩

/-- **`ToTimeVal`** does not overflow; its result is normalised, within a microsecond of the delta, and of its sign. -/
theorem toTimeVal_spec (delta : MonoDelta) :
    ∃ tv, delta.toTimeVal = some tv ∧ Represents tv delta.nanoDelta.toInt := by
  have hle := delta.nanoDelta.le_toInt
  have hlt := delta.nanoDelta.toInt_lt
  obtain ⟨whole, rest, hwhole, hrest, hvalue⟩ := exists_remainder delta.nanoDelta
  have hsec := toInt_div_second delta.nanoDelta
  have husec := toInt_div_micro rest
  obtain ⟨hlow, hhigh, hrestNonneg, hrestNonpos⟩ :=
    tdiv_remainder delta.nanoDelta.toInt (show (0 : ℤ) < 1000000000 by norm_num)
  obtain ⟨hlow', hhigh', hnonneg, hnonpos⟩ := tdiv_remainder rest.toInt (show (0 : ℤ) < 1000 by norm_num)
  rw [← hvalue] at hlow hhigh hrestNonneg hrestNonpos
  rw [← hsec] at hvalue
  rw [← husec] at hlow' hhigh' hnonneg hnonpos
  simp only [MonoDelta.toTimeVal, Option.bind_eq_bind, hwhole, hrest, Option.bind_some, Int64.lt_iff_toInt_lt,
    Int64.toInt_zero]
  generalize delta.nanoDelta / kNanosecondsPerSecond = sec at *
  generalize rest / kNanosecondsPerMicrosecond = usec at *
  by_cases hneg : usec.toInt < 0
  · obtain ⟨sec', hborrow, hsec'⟩ := @exists_borrow sec (by omega)
    obtain ⟨usec', hcarry, husec'⟩ := @exists_carry usec 1000000 hneg (by decide)
    have hmillion : (1000000 : Int64).toInt = 1000000 := rfl
    rw [hmillion] at husec'
    have htruncates : Truncates ⟨sec', usec'⟩ delta.nanoDelta.toInt := by
      refine ⟨⟨?_, ?_⟩, abs_lt.2 ⟨?_, ?_⟩, fun hn => ?_, fun hn => ?_⟩ <;>
        simp only [Timeval.nanos, hsec', husec'] <;> omega
    rw [if_pos hneg, hborrow, hcarry]
    exact ⟨_, rfl, keepNonzero_represents htruncates⟩
  · have htruncates : Truncates ⟨sec, usec⟩ delta.nanoDelta.toInt := by
      refine ⟨⟨?_, ?_⟩, abs_lt.2 ⟨?_, ?_⟩, fun hn => ?_, fun hn => ?_⟩ <;> simp only [Timeval.nanos] <;> omega
    rw [if_neg hneg]
    exact ⟨_, rfl, keepNonzero_represents htruncates⟩

/-- **`SetTimeout`** refuses a negative timeout, and asks to wait forever, with a zero `timeval`, only for a zero timeout. -/
theorem setTimeoutVal_spec (timeout : MonoDelta) :
    (timeout.nanoDelta < 0 → setTimeoutVal timeout = none) ∧
      (0 ≤ timeout.nanoDelta →
        ∃ tv, setTimeoutVal timeout = some tv ∧ (tv.tvUsec = 0 ∧ tv.tvSec = 0 ↔ timeout.nanoDelta = 0)) := by
  constructor
  · intro hneg
    rw [setTimeoutVal, guard, if_neg (Int64.not_le.2 hneg)]
    rfl
  · intro hnonneg
    obtain ⟨tv, htv, hrep⟩ := toTimeVal_spec timeout
    refine ⟨tv, ?_, ?_⟩
    · rw [setTimeoutVal, guard, if_pos hnonneg]
      exact htv
    · have hzero : (0 : Int64).toInt = 0 := rfl
      rw [← nanos_eq_zero hrep.normalised, ← Int.sign_eq_zero_iff_zero, hrep.sign, Int.sign_eq_zero_iff_zero,
        ← Int64.toInt_inj, hzero]

/-! ## All conversions -/

/-- **Conversions are exact.** `NanosToTimeSpec` does not overflow, normalises and keeps the nanoseconds, and a `MonoTime`
from its result has them again if the constructor accepts it. `ToTimeVal` does not overflow, normalises, is off by less than
a microsecond and keeps the sign, so that only zero becomes zero; `SetTimeout` passes such a `timeval` on. -/
theorem conversions_exact (nanos : Int64) (delta : MonoDelta) :
    (∃ ts, nanosToTimeSpec nanos = some ts ∧ ts.Normalised ∧ ts.nanos = nanos.toInt ∧
      (CheckPasses ts → MonoTime.ofTimespec ts = some ⟨nanos⟩)) ∧
    (∃ tv, delta.toTimeVal = some tv ∧ tv.Normalised ∧ |tv.nanos - delta.nanoDelta.toInt| < 1000 ∧
      tv.nanos.sign = delta.nanoDelta.toInt.sign) ∧
    (0 ≤ delta.nanoDelta →
      ∃ tv, setTimeoutVal delta = some tv ∧ (tv.tvUsec = 0 ∧ tv.tvSec = 0 ↔ delta.nanoDelta = 0)) := by
  refine ⟨?_, ?_, (setTimeoutVal_spec delta).2⟩
  · obtain ⟨ts, hts, hnorm, hnanos⟩ := nanosToTimeSpec_spec nanos
    exact ⟨ts, hts, hnorm, hnanos, fun hcheck => ofTimespec_eq hnorm hcheck hnanos⟩
  · obtain ⟨tv, htv, hrep⟩ := toTimeVal_spec delta
    exact ⟨tv, htv, hrep.normalised, hrep.near, hrep.sign⟩

/-- a delta of -1 ns is -1 us, and 1500000000 ns go through `timespec` and back -/
example : (MonoDelta.mk (-1)).toTimeVal = some ⟨-1, 999999⟩ ∧
    (nanosToTimeSpec 1500000000).bind MonoTime.ofTimespec = some ⟨1500000000⟩ := by decide +kernel

end Bboy.Monotime
