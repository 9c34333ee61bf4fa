/-
Conversions between the integer types of a 64-bit machine, on the integers: `int32` truncates to a signed 32-bit value,
`toSize` converts to an unsigned 64-bit one and `sizeAdd` adds two such. All are plain arithmetic that `omega` sees through
once they are unfolded; they are irreducible, so that no other tactic computes with the large moduli. `checkInt` is the
value of an `int` expression that must not overflow, `checkInt64` that of an `int64_t` expression.
-/
import Mathlib.Tactic

namespace Core

/-- the 32-bit value that is congruent to `x` -/
def int32 (x : ℤ) : ℤ := (x + 2 ^ 31) % 2 ^ 32 - 2 ^ 31

/-- the conversion to `size_t` -/
def toSize (x : ℤ) : ℕ := (x % 2 ^ 64).toNat

/-- the sum of two `size_t` -/
def sizeAdd (a b : ℕ) : ℕ := (a + b) % 2 ^ 64

variable {x y : ℤ}

theorem int32_lt (x : ℤ) : int32 x < 2 ^ 31 := by
  unfold int32
  omega

theorem int32_le_self (n : ℕ) : int32 n ≤ n := by
  unfold int32
  omega

theorem int32_of_range (hle : -2 ^ 31 ≤ x) (hlt : x < 2 ^ 31) : int32 x = x := by
  unfold int32
  omega

theorem int32_congr : int32 x = int32 y ↔ x % 2 ^ 32 = y % 2 ^ 32 := by
  unfold int32
  omega

/-- a natural number that a 32-bit integer reports as it is -/
def FitsInt32 (n : ℕ) : Prop := toSize (int32 n) = n

instance (n : ℕ) : Decidable (FitsInt32 n) := inferInstanceAs (Decidable (toSize (int32 n) = n))

theorem fitsInt32_of_lt {n : ℕ} (h : n < 2 ^ 31) : FitsInt32 n := by
  unfold FitsInt32 toSize int32
  omega

@[simp] theorem int32_toSize (x : ℤ) : int32 (toSize (int32 x)) = int32 x := by
  unfold toSize int32
  omega

/-- truncation after a sum of `size_t` -/
theorem int32_sizeAdd (n r : ℕ) : int32 (sizeAdd (toSize (int32 n)) r) = int32 (n + r) := by
  unfold sizeAdd toSize int32
  omega

@[simp] theorem toSize_int32_zero : toSize (int32 0) = 0 := rfl

/-- a count that an unreported part is added to -/
theorem fitsInt32_add (n stale : ℕ) : toSize (int32 (n + stale)) = n ↔ stale % 2 ^ 32 = 0 ∧ FitsInt32 n := by
  have hsame : stale % 2 ^ 32 = 0 → int32 (n + stale) = int32 n := fun hmod => int32_congr.2 (by omega)
  constructor
  · intro h
    have hmod : stale % 2 ^ 32 = 0 := by
      unfold toSize int32 at h
      omega
    rw [hsame hmod] at h
    exact ⟨hmod, h⟩
  · intro h
    rw [hsame h.1]
    exact h.2

attribute [irreducible] int32 toSize sizeAdd

/-! ## Overflow -/

/-- `INT32_MAX` -/
def int32Max : ℤ := 2 ^ 31 - 1

/-- the value of an expression of type `int`; `none` if it overflows -/
def checkInt (v : ℤ) : Option ℤ := if -2 ^ 31 ≤ v ∧ v ≤ int32Max then some v else none

theorem checkInt_eq_some {v r : ℤ} : checkInt v = some r ↔ (-2 ^ 31 ≤ v ∧ v ≤ int32Max) ∧ r = v := by
  rw [checkInt]
  split_ifs with h
  · exact ⟨fun hr => ⟨h, (Option.some.inj hr).symm⟩, fun hr => congrArg some hr.2.symm⟩
  · exact ⟨fun hr => absurd hr (by simp), fun hr => absurd hr.1 h⟩

/-- the value of an expression of type `int64_t`; `none` if it overflows -/
def checkInt64 (v : ℤ) : Option Int64 := if -2 ^ 63 ≤ v ∧ v < 2 ^ 63 then some (Int64.ofInt v) else none

theorem checkInt64_eq_some {v : ℤ} {r : Int64} : checkInt64 v = some r ↔ r.toInt = v := by
  rw [checkInt64]
  split_ifs with h
  · have hv := Int64.toInt_ofInt_of_le h.1 h.2
    rw [Option.some.injEq, ← Int64.toInt_inj, hv]
    exact eq_comm
  · have hle := r.le_toInt
    have hlt := r.toInt_lt
    exact ⟨fun hr => absurd hr (by simp), fun hr => absurd ⟨hr ▸ hle, hr ▸ hlt⟩ h⟩

theorem exists_checkInt64 {v : ℤ} (hle : -2 ^ 63 ≤ v) (hlt : v < 2 ^ 63) : ∃ r, checkInt64 v = some r ∧ r.toInt = v :=
  ⟨_, if_pos ⟨hle, hlt⟩, Int64.toInt_ofInt_of_le hle hlt⟩

def addInt64 (a b : Int64) : Option Int64 := checkInt64 (a.toInt + b.toInt)

def subInt64 (a b : Int64) : Option Int64 := checkInt64 (a.toInt - b.toInt)

def mulInt64 (a b : Int64) : Option Int64 := checkInt64 (a.toInt * b.toInt)

/-- what does not overflow does not wrap around either -/
theorem eq_add_of_addInt64 {a b r : Int64} (h : addInt64 a b = some r) : r = a + b := by
  rw [← Int64.toInt_inj, Int64.toInt_add, ← checkInt64_eq_some.1 h]
  exact r.toInt_bmod.symm

theorem eq_mul_of_mulInt64 {a b r : Int64} (h : mulInt64 a b = some r) : r = a * b := by
  rw [← Int64.toInt_inj, Int64.toInt_mul, ← checkInt64_eq_some.1 h]
  exact r.toInt_bmod.symm

/-- what division by a positive constant leaves: it is smaller than the divisor and has the sign of the dividend -/
theorem tdiv_remainder (n : ℤ) {k : ℤ} (hk : 0 < k) :
    -k < n - n.tdiv k * k ∧ n - n.tdiv k * k < k ∧ (0 ≤ n → 0 ≤ n - n.tdiv k * k) ∧ (n ≤ 0 → n - n.tdiv k * k ≤ 0) := by
  have hrem : n - n.tdiv k * k = n.tmod k := by
    have hdiv := Int.mul_tdiv_add_tmod n k
    rw [mul_comm] at hdiv
    omega
  rw [hrem]
  refine ⟨Int.lt_tmod_of_pos n hk, Int.tmod_lt_of_pos n hk, fun hn => Int.tmod_nonneg k hn, fun hn => ?_⟩
  have hneg := Int.tmod_nonneg k (neg_nonneg.2 hn)
  rw [Int.neg_tmod] at hneg
  omega

end Core
