/-
Decimal numbers as bytes.

- `decimal`, `decimalInt`: the digits of a number, with a sign before those of a negative one;
- `digitsValue`: what a sequence of digits stands for;
- `padded`: a fixed number of digits, with `decimal_padded` and `decimal_split`;
- `digitsValue_decimal`: the digits of a number stand for it.
-/
import Mathlib.Tactic
import Mathlib.Data.Nat.Digits.Defs

namespace Core

def isDigit (c : UInt8) : Bool := 48 ≤ c && c ≤ 57

def digit (d : ℕ) : UInt8 := UInt8.ofNat (48 + d)

def decimal (n : ℕ) : List UInt8 := if n = 0 then [48] else (Nat.digits 10 n).reverse.map digit

def decimalInt (i : ℤ) : List UInt8 := if i < 0 then 45 :: decimal i.natAbs else decimal i.natAbs

def digitsValue (s : List UInt8) : ℕ := s.foldl (fun v c => v * 10 + (c.toNat - 48)) 0

/-! ## Digits -/

theorem digit_toNat {d : ℕ} (h : d < 10) : (digit d).toNat = 48 + d := by
  rw [digit, UInt8.toNat_ofNat']
  omega

theorem isDigit_digit {d : ℕ} (h : d < 10) : isDigit (digit d) = true := by
  have hnat := digit_toNat h
  simp only [isDigit, Bool.and_eq_true, decide_eq_true_eq, UInt8.le_iff_toNat_le, hnat]
  constructor
  · exact Nat.le_add_right 48 d
  · show 48 + d ≤ 57
    omega

theorem ne_of_isDigit {c x : UInt8} (h : isDigit c = true) (hx : isDigit x = false) : c ≠ x := by
  rintro rfl
  rw [h] at hx
  cases hx

theorem decimal_ne_nil (n : ℕ) : decimal n ≠ [] := by
  unfold decimal
  split_ifs with h
  · exact List.cons_ne_nil _ _
  · simpa using Nat.digits_ne_nil_iff_ne_zero.2 h

theorem isDigit_of_mem_decimal {n : ℕ} {c : UInt8} (h : c ∈ decimal n) : isDigit c = true := by
  unfold decimal at h
  split_ifs at h with hzero
  · rw [List.mem_singleton.1 h]
    rfl
  · obtain ⟨d, hd, rfl⟩ := List.mem_map.1 h
    exact isDigit_digit (Nat.digits_lt_base (by norm_num) (List.mem_reverse.1 hd))

theorem decimalInt_ne_nil (i : ℤ) : decimalInt i ≠ [] := by
  unfold decimalInt
  split_ifs
  · exact List.cons_ne_nil _ _
  · exact decimal_ne_nil _

/-- a number is printed with digits and the sign only -/
theorem mem_decimalInt {i : ℤ} {c : UInt8} (h : c ∈ decimalInt i) : c = 45 ∨ isDigit c = true := by
  unfold decimalInt at h
  split_ifs at h
  · exact (List.mem_cons.1 h).imp_right isDigit_of_mem_decimal
  · exact Or.inr (isDigit_of_mem_decimal h)

theorem decimal_of_lt {n : ℕ} (h : n < 10) : decimal n = [digit n] := by
  unfold decimal
  split_ifs with hzero
  · rw [hzero]
    rfl
  · rw [Nat.digits_of_lt 10 n hzero h]
    rfl

/-- the last digit stands behind the others -/
theorem decimal_of_le {n : ℕ} (h : 10 ≤ n) : decimal n = decimal (n / 10) ++ [digit (n % 10)] := by
  have hquotient : n / 10 ≠ 0 := by omega
  rw [decimal, decimal, if_neg (by omega), if_neg hquotient, Nat.digits_def' (by norm_num) (by omega), List.reverse_cons,
    List.map_append]
  rfl

theorem digitChar_toNat {d : ℕ} (h : d < 10) : UInt8.ofNat (Nat.digitChar d).toNat = digit d := by
  have hall : ∀ d < 10, UInt8.ofNat (Nat.digitChar d).toNat = digit d := by decide
  exact hall d h

/-! ## A fixed number of digits -/

/-- `k` digits, with zeros in front -/
def padded : ℕ → ℕ → List UInt8
  | 0, _ => []
  | k + 1, n => padded k (n / 10) ++ [digit (n % 10)]

theorem padded_last (k n : ℕ) :
    padded (k + 1) (n % 10 ^ (k + 1)) = padded k (n / 10 % 10 ^ k) ++ [digit (n % 10)] := by
  have hfront : n % 10 ^ (k + 1) / 10 = n / 10 % 10 ^ k := by rw [pow_succ', Nat.mod_mul_right_div_self]
  have hlast : n % 10 ^ (k + 1) % 10 = n % 10 := by rw [pow_succ', Nat.mod_mul_right_mod]
  rw [padded, hfront, hlast]

/-- the digits in front of the last `k`, and those -/
theorem padded_split (j k n : ℕ) : padded (j + k) n = padded j (n / 10 ^ k) ++ padded k (n % 10 ^ k) := by
  induction k generalizing n with
  | zero => simp [padded]
  | succ k ih =>
    have hfront : n / 10 / 10 ^ k = n / 10 ^ (k + 1) := by rw [Nat.div_div_eq_div_mul, pow_succ']
    rw [← Nat.add_assoc, padded, ih, hfront, padded_last, List.append_assoc]

theorem padded_two {u : ℕ} (h : u < 100) : padded 2 u = [digit (u / 10), digit (u % 10)] := by
  have hten : u / 10 % 10 = u / 10 := Nat.mod_eq_of_lt (by omega)
  simp [padded, hten]

/-- the number is not zero-padded if it has that many digits -/
theorem decimal_padded {k n : ℕ} (h : 10 ^ k ≤ n) (hlt : n < 10 ^ (k + 1)) : decimal n = padded (k + 1) n := by
  induction k generalizing n with
  | zero =>
    rw [decimal_of_lt (by simpa using hlt), padded, padded, List.nil_append, Nat.mod_eq_of_lt (by simpa using hlt)]
  | succ k ih =>
    have hten : 10 ≤ n := le_trans (Nat.le_self_pow (Nat.succ_ne_zero k) 10) h
    have hlow : 10 ^ k ≤ n / 10 := (Nat.le_div_iff_mul_le (by decide)).2 (by rwa [← pow_succ])
    have hhigh : n / 10 < 10 ^ (k + 1) := Nat.div_lt_of_lt_mul (by rwa [← pow_succ'])
    rw [decimal_of_le hten, ih hlow hhigh]
    rfl

/-- the last `k` digits of a larger number -/
theorem decimal_split {k n : ℕ} (h : 10 ^ k ≤ n) : decimal n = decimal (n / 10 ^ k) ++ padded k (n % 10 ^ k) := by
  induction k generalizing n with
  | zero => simp [padded]
  | succ k ih =>
    have hten : 10 ≤ n := le_trans (Nat.le_self_pow (Nat.succ_ne_zero k) 10) h
    have hlow : 10 ^ k ≤ n / 10 := (Nat.le_div_iff_mul_le (by decide)).2 (by rwa [← pow_succ])
    have hfront : n / 10 / 10 ^ k = n / 10 ^ (k + 1) := by rw [Nat.div_div_eq_div_mul, pow_succ']
    rw [decimal_of_le hten, ih hlow, hfront, padded_last, List.append_assoc]

theorem decimal_length_le {k u : ℕ} (h : u < 10 ^ (k + 1)) : (decimal u).length ≤ k + 1 := by
  induction k generalizing u with
  | zero =>
    rw [decimal_of_lt (by simpa using h)]
    rfl
  | succ k ih =>
    by_cases hlt : u < 10
    · rw [decimal_of_lt hlt]
      simp
    · rw [decimal_of_le (not_lt.1 hlt), List.length_append, List.length_singleton]
      have hle := ih (Nat.div_lt_of_lt_mul (by rwa [← pow_succ']))
      omega

/-! ## Values -/

theorem digitsValue_digits {digits : List ℕ} (h : ∀ d ∈ digits, d < 10) :
    digitsValue (digits.reverse.map digit) = Nat.ofDigits 10 digits := by
  induction digits with
  | nil => rfl
  | cons d digits ih =>
    have hd := digit_toNat (h d List.mem_cons_self)
    have hrest := ih fun e he => h e (List.mem_cons_of_mem d he)
    rw [digitsValue] at hrest ⊢
    rw [List.reverse_cons, List.map_append, List.foldl_append, hrest, Nat.ofDigits_cons]
    simp only [List.map_cons, List.map_nil, List.foldl_cons, List.foldl_nil, hd]
    omega

/-- **The digits of a number stand for it.** -/
theorem digitsValue_decimal (n : ℕ) : digitsValue (decimal n) = n := by
  unfold decimal
  split_ifs with h
  · rw [h]
    rfl
  · rw [digitsValue_digits fun d hd => Nat.digits_lt_base (by norm_num) hd, Nat.ofDigits_digits]

end Core
