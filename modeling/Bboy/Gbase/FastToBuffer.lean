/-
Lean model of `FastUInt32ToBufferLeft` and its siblings (`bboy/gbase/strings/numbers.cc`), which print a number by pairs of
digits from a table, from left to right and without a remainder.

The `goto`s into the middle of the first branch are calls of what follows the label. A 32-bit subtraction is exact, since
what is subtracted is a multiple of the quotient. `none` is a read outside of the table.

- `pairThen_prints`: from a label on, the number is printed with a fixed number of digits.
- `fastToBufferLeft_exact`: for every 32-bit and 64-bit number the text is its decimal one, with a sign before a negative one
  also where it has no opposite, and it fits into a buffer of `kFastToBufferSize` with its NUL.
- `strto64_fastToBufferLeft`: `safe_strto64` reads it back.
-/
import Bboy.Base.OsUtil
import Bboy.Core.Decimal

namespace Bboy.FastToBuffer

open Core

/-! ## Model -/

def twoAsciiDigitsTable : List (List UInt8) := (List.range 100).map fun d => [digit (d / 10), digit (d % 10)]

/-- two_ASCII_digits[digits] -/
def twoAsciiDigits (digits : ℕ) : Option (List UInt8) := twoAsciiDigitsTable[digits]?

/-- two digits, the rest is printed by `next` -/
def pairThen (unit : ℕ) (next : ℕ → Option (List UInt8)) (u : ℕ) : Option (List UInt8) := do
  let digits := u / unit
  let two ← twoAsciiDigits digits
  let rest ← next (u - digits * unit)
  some (two ++ rest)

/-- one digit, then `next` -/
def oneThen (unit : ℕ) (next : ℕ → Option (List UInt8)) (u : ℕ) : Option (List UInt8) := do
  let digits := u / unit
  let rest ← next (u - digits * unit)
  some (UInt8.ofNat (48 + digits) :: rest)

def lt100 : ℕ → Option (List UInt8) := twoAsciiDigits

def lt10_000 : ℕ → Option (List UInt8) := pairThen 100 lt100

def lt1_000_000 : ℕ → Option (List UInt8) := pairThen 10000 lt10_000

def lt100_000_000 : ℕ → Option (List UInt8) := pairThen 1000000 lt1_000_000

def fastUInt32ToBufferLeft (u : ℕ) : Option (List UInt8) :=
  if 1000000000 ≤ u then pairThen 100000000 lt100_000_000 u
  else if u < 100 then if 10 ≤ u then lt100 u else some [UInt8.ofNat (48 + u)]
  else if u < 10000 then if 1000 ≤ u then lt10_000 u else oneThen 100 lt100 u
  else if u < 1000000 then if 100000 ≤ u then lt1_000_000 u else oneThen 10000 lt10_000 u
  else if u < 100000000 then if 10000000 ≤ u then lt100_000_000 u else oneThen 1000000 lt1_000_000 u
  else oneThen 100000000 lt100_000_000 u

def fastInt32ToBufferLeft (i : BitVec 32) : Option (List UInt8) :=
  if i.toInt < 0 then (fastUInt32ToBufferLeft (0 - i).toNat).map (45 :: ·) else fastUInt32ToBufferLeft i.toNat

/-- the last nine digits -/
def lastNine : ℕ → Option (List UInt8) :=
  pairThen 10000000 (pairThen 100000 (pairThen 1000 (pairThen 10 fun u => some [UInt8.ofNat (48 + u)])))

def fastUInt64ToBufferLeft (u64 : ℕ) : Option (List UInt8) :=
  if u64 % 2 ^ 32 = u64 then fastUInt32ToBufferLeft u64
  else do
    let top11Digits := u64 / 1000000000
    let front ← fastUInt64ToBufferLeft top11Digits
    let last ← lastNine ((u64 - top11Digits * 1000000000) % 2 ^ 32)
    some (front ++ last)
termination_by u64
decreasing_by omega

def fastInt64ToBufferLeft (i : BitVec 64) : Option (List UInt8) :=
  if i.toInt < 0 then (fastUInt64ToBufferLeft (0 - i).toNat).map (45 :: ·) else fastUInt64ToBufferLeft i.toNat

/-! ## Labels -/

/-- what prints every number below `10 ^ k` with `k` digits -/
def Prints (k : ℕ) (next : ℕ → Option (List UInt8)) : Prop := ∀ u < 10 ^ k, next u = some (padded k u)

variable {k u : ℕ} {next : ℕ → Option (List UInt8)}

theorem twoAsciiDigits_eq {u : ℕ} (h : u < 100) : twoAsciiDigits u = some (padded 2 u) := by
  rw [twoAsciiDigits, twoAsciiDigitsTable, List.getElem?_map, List.getElem?_range h, padded_two h]
  rfl

theorem sub_quotient (u unit : ℕ) : u - u / unit * unit = u % unit := by
  have hsum := Nat.div_add_mod' u unit
  omega

theorem lt100_prints : Prints 2 lt100 := fun _ hu => twoAsciiDigits_eq hu

theorem pairThen_eq (h : Prints k next) (hu : u / 10 ^ k < 100) :
    pairThen (10 ^ k) next u = some (padded (2 + k) u) := by
  have hrest : next (u % 10 ^ k) = some (padded k (u % 10 ^ k)) := h _ (Nat.mod_lt _ (by positivity))
  rw [pairThen]
  simp only [twoAsciiDigits_eq hu, sub_quotient, hrest, Option.bind_eq_bind, Option.bind_some, padded_split 2 k u]

/-- a label before another one -/
theorem pairThen_prints (h : Prints k next) : Prints (2 + k) (pairThen (10 ^ k) next) := by
  intro u hu
  refine pairThen_eq h (Nat.div_lt_of_lt_mul ?_)
  rwa [pow_add, mul_comm] at hu

theorem oneThen_eq (h : Prints k next) (hle : 10 ^ k ≤ u) (hlt : u < 10 ^ (k + 1)) :
    oneThen (10 ^ k) next u = some (decimal u) := by
  have hrest : next (u % 10 ^ k) = some (padded k (u % 10 ^ k)) := h _ (Nat.mod_lt _ (by positivity))
  have hdigit : u / 10 ^ k < 10 := Nat.div_lt_of_lt_mul (by rwa [← pow_succ])
  have hfirst : padded 1 (u / 10 ^ k) = [UInt8.ofNat (48 + u / 10 ^ k)] := by
    rw [padded, padded, Nat.mod_eq_of_lt hdigit]
    rfl
  rw [oneThen]
  simp only [sub_quotient, hrest, Option.bind_eq_bind, Option.bind_some, decimal_padded hle hlt, Nat.add_comm k 1,
    padded_split 1 k u, hfirst, List.singleton_append]

theorem lt10_000_prints : Prints 4 lt10_000 := pairThen_prints lt100_prints

theorem lt1_000_000_prints : Prints 6 lt1_000_000 := pairThen_prints lt10_000_prints

theorem lt100_000_000_prints : Prints 8 lt100_000_000 := pairThen_prints lt1_000_000_prints

theorem lastNine_prints : Prints 9 lastNine := by
  have hone : Prints 1 fun u => some [UInt8.ofNat (48 + u)] := by
    intro u hu
    rw [padded, padded, Nat.mod_eq_of_lt (by simpa using hu)]
    rfl
  exact pairThen_prints (pairThen_prints (pairThen_prints (pairThen_prints hone)))

/-! ## Numbers -/

theorem fastUInt32ToBufferLeft_eq (h : u < 2 ^ 32) : fastUInt32ToBufferLeft u = some (decimal u) := by
  unfold fastUInt32ToBufferLeft
  split_ifs with h9 h2 h1 h4 h3 h6 h5 h8 h7
  · have hten : decimal u = padded 10 u := decimal_padded h9 (by omega)
    rw [hten]
    exact pairThen_eq lt100_000_000_prints (by omega)
  · have htwo : decimal u = padded 2 u := decimal_padded h1 h2
    rw [htwo]
    exact lt100_prints u h2
  · rw [decimal_of_lt (not_le.1 h1)]
    rfl
  · have hfour : decimal u = padded 4 u := decimal_padded h3 h4
    rw [hfour]
    exact lt10_000_prints u h4
  · exact oneThen_eq lt100_prints (not_lt.1 h2) (not_le.1 h3)
  · have hsix : decimal u = padded 6 u := decimal_padded h5 h6
    rw [hsix]
    exact lt1_000_000_prints u h6
  · exact oneThen_eq lt10_000_prints (not_lt.1 h4) (not_le.1 h5)
  · have height : decimal u = padded 8 u := decimal_padded h7 h8
    rw [height]
    exact lt100_000_000_prints u h8
  · exact oneThen_eq lt1_000_000_prints (not_lt.1 h6) (not_le.1 h7)
  · exact oneThen_eq lt100_000_000_prints (not_lt.1 h8) (not_le.1 h9)

/-- the recursion on the digits in front of the last nine -/
theorem fastUInt64ToBufferLeft_eq (u : ℕ) : fastUInt64ToBufferLeft u = some (decimal u) := by
  induction u using Nat.strong_induction_on with
  | h u ih =>
    rw [fastUInt64ToBufferLeft]
    split_ifs with hsmall
    · exact fastUInt32ToBufferLeft_eq (by omega)
    · have hbig : 10 ^ 9 ≤ u := by omega
      have hlast : (u - u / 1000000000 * 1000000000) % 2 ^ 32 = u % 10 ^ 9 := by omega
      have hnine : lastNine (u % 10 ^ 9) = some (padded 9 (u % 10 ^ 9)) := lastNine_prints _ (Nat.mod_lt _ (by norm_num))
      dsimp only
      rw [hlast, ih _ (by omega), hnine, decimal_split hbig]
      rfl

/-- the least number is its own opposite, and prints as its absolute value -/
theorem toNat_opposite {w : ℕ} {i : BitVec w} (h : i.toInt < 0) : (0 - i).toNat = i.toInt.natAbs := by
  have hlt := i.isLt
  have hcond := BitVec.toInt_eq_toNat_cond i
  have hzero : (0 : BitVec w).toNat = 0 := by simp
  rw [BitVec.toNat_sub, hzero, add_zero]
  split_ifs at hcond with hsign
  · omega
  · rw [Nat.mod_eq_of_lt (by omega)]
    omega

theorem toNat_self {w : ℕ} {i : BitVec w} (h : ¬ i.toInt < 0) : i.toNat = i.toInt.natAbs := by
  have hlt := i.isLt
  have hcond := BitVec.toInt_eq_toNat_cond i
  split_ifs at hcond with hsign <;> omega

theorem fastInt32ToBufferLeft_eq (i : BitVec 32) : fastInt32ToBufferLeft i = some (decimalInt i.toInt) := by
  rw [fastInt32ToBufferLeft, decimalInt]
  split_ifs with h
  · rw [fastUInt32ToBufferLeft_eq (BitVec.isLt _), toNat_opposite h, Option.map_some]
  · rw [fastUInt32ToBufferLeft_eq i.isLt, toNat_self h]

theorem fastInt64ToBufferLeft_eq (i : BitVec 64) : fastInt64ToBufferLeft i = some (decimalInt i.toInt) := by
  rw [fastInt64ToBufferLeft, decimalInt]
  split_ifs with h
  · rw [fastUInt64ToBufferLeft_eq, toNat_opposite h, Option.map_some]
  · rw [fastUInt64ToBufferLeft_eq, toNat_self h]

def kFastToBufferSize : ℕ := 32

/-- **Numbers are printed exactly**, also the least one, which has no opposite, and there is room for the NUL. -/
theorem fastToBufferLeft_exact (i : BitVec 32) (j : BitVec 64) :
    fastInt32ToBufferLeft i = some (decimalInt i.toInt) ∧ fastUInt32ToBufferLeft i.toNat = some (decimal i.toNat) ∧
      fastInt64ToBufferLeft j = some (decimalInt j.toInt) ∧ fastUInt64ToBufferLeft j.toNat = some (decimal j.toNat) ∧
      (decimalInt j.toInt).length < kFastToBufferSize ∧ (decimal j.toNat).length < kFastToBufferSize := by
  have hunsigned : (decimal j.toNat).length ≤ 20 := decimal_length_le (by have hlt := j.isLt; omega)
  have hsigned : (decimal j.toInt.natAbs).length ≤ 19 := by
    have hlow := BitVec.le_two_mul_toInt (x := j)
    have hhigh := BitVec.two_mul_toInt_lt (x := j)
    exact decimal_length_le (by omega)
  have hsign : (decimalInt j.toInt).length ≤ (decimal j.toInt.natAbs).length + 1 := by
    rw [decimalInt]
    split_ifs <;> simp
  refine ⟨fastInt32ToBufferLeft_eq i, fastUInt32ToBufferLeft_eq i.isLt, fastInt64ToBufferLeft_eq j,
    fastUInt64ToBufferLeft_eq _, ?_, ?_⟩
  · rw [kFastToBufferSize]
    omega
  · rw [kFastToBufferSize]
    omega

/-- **Round trip** with `safe_strto64`. -/
theorem strto64_fastToBufferLeft (i : BitVec 64) :
    (fastInt64ToBufferLeft i).bind OsUtil.safeStrto64 = some i.toInt := by
  have hlow := BitVec.le_two_mul_toInt (x := i)
  have hhigh := BitVec.two_mul_toInt_lt (x := i)
  have hrange : OsUtil.InInt64 i.toInt := ⟨by omega, by omega⟩
  rw [fastInt64ToBufferLeft_eq, Option.bind_some, OsUtil.safeStrto64_decimalInt, if_pos hrange]

end Bboy.FastToBuffer
