/-
Doubles as the rationals they stand for, and rounding to nearest, ties to even. The exponent is unbounded: this is the
arithmetic of values that neither overflow nor underflow.

- `roundDouble_of_isDouble`: a double is rounded to itself;
- `isDouble_roundDouble`: every result is a double;
- `IsDouble.of_mul`: a factor of an integer that is a double is one, too;
- `le_roundDouble`, `roundDouble_le`: rounding does not pass a double;
- `roundDouble_lt_zpow`: what is rounded up to a power of two;
- `roundDouble_lt_intCast`: what is rounded up to an integer.
-/
import Mathlib.Tactic
import Mathlib.Data.Int.Log

namespace Core

/-- a significand of 53 bits -/
def IsDouble (x : ℚ) : Prop := ∃ m k : ℤ, |m| < 2 ^ 53 ∧ x = m * 2 ^ k

/-- the nearest integer, the even one of two -/
def roundEven (x : ℚ) : ℤ :=
  if x - ⌊x⌋ < 1 / 2 then ⌊x⌋
  else if 1 / 2 < x - ⌊x⌋ then ⌊x⌋ + 1
  else ⌊x⌋ + ⌊x⌋ % 2

/-- the exponent of the last of 53 bits -/
def lastBit (x : ℚ) : ℤ := Int.log 2 |x| - 52

def roundDouble (x : ℚ) : ℚ := roundEven (x / 2 ^ lastBit x) * 2 ^ lastBit x

variable {x : ℚ}

/-! ## Rounding -/

theorem roundEven_intCast (n : ℤ) : roundEven n = n := by
  simp [roundEven]

theorem floor_le_roundEven (x : ℚ) : ⌊x⌋ ≤ roundEven x := by
  unfold roundEven
  split_ifs <;> omega

/-- rounding does not pass an integer -/
theorem roundEven_le {n : ℤ} (h : x ≤ n) : roundEven x ≤ n := by
  rcases h.lt_or_eq with hlt | rfl
  · have hfloor : ⌊x⌋ < n := Int.floor_lt.2 hlt
    unfold roundEven
    split_ifs <;> omega
  · rw [roundEven_intCast]

theorem abs_roundEven_le {n : ℤ} (h : |x| ≤ n) : |roundEven x| ≤ n := by
  obtain ⟨hlow, hhigh⟩ := abs_le.1 h
  have hfloor : -n ≤ ⌊x⌋ := Int.le_floor.2 (by exact_mod_cast hlow)
  exact abs_le.2 ⟨hfloor.trans (floor_le_roundEven x), roundEven_le hhigh⟩

theorem abs_lt_lastBit (x : ℚ) : |x| < 2 ^ (lastBit x + 53) := by
  have hlog : |x| < ((2 : ℕ) : ℚ) ^ (Int.log 2 |x| + 1) := Int.lt_zpow_succ_log_self one_lt_two _
  have hexp : lastBit x + 53 = Int.log 2 |x| + 1 := by unfold lastBit; omega
  rw [hexp]
  exact_mod_cast hlog

/-- a double has no bit below the last one -/
theorem lastBit_le {m k : ℤ} (hm : |m| < 2 ^ 53) (h : x = m * 2 ^ k) (hx : x ≠ 0) : lastBit x ≤ k := by
  have hsmall : |x| < (2 : ℚ) ^ (53 + k) := by
    rw [h, abs_mul, abs_of_pos (zpow_pos two_pos k : (0 : ℚ) < 2 ^ k), zpow_add₀ two_ne_zero]
    refine mul_lt_mul_of_pos_right ?_ (zpow_pos two_pos k)
    exact_mod_cast hm
  have hlog : Int.log 2 |x| < 53 + k := (Int.lt_zpow_iff_log_lt one_lt_two (abs_pos.2 hx)).1 (by exact_mod_cast hsmall)
  unfold lastBit
  omega

/-- **Doubles are exact.** -/
theorem roundDouble_of_isDouble (h : IsDouble x) : roundDouble x = x := by
  obtain ⟨m, k, hm, hx⟩ := h
  rcases eq_or_ne x 0 with hzero | hzero
  · rw [hzero, roundDouble, zero_div, show roundEven 0 = 0 from roundEven_intCast 0, Int.cast_zero, zero_mul]
  · obtain ⟨n, hn⟩ := Int.le.dest (lastBit_le hm hx hzero)
    have hscale : x / 2 ^ lastBit x = ((m * 2 ^ n : ℤ) : ℚ) := by
      apply (div_eq_iff (zpow_ne_zero _ two_ne_zero)).2
      calc x = m * 2 ^ (lastBit x + n) := by rw [hn, ← hx]
        _ = ((m * 2 ^ n : ℤ) : ℚ) * 2 ^ lastBit x := by
          rw [zpow_add₀ two_ne_zero, zpow_natCast]
          push_cast
          ring
    rw [roundDouble, hscale, roundEven_intCast, ← hscale, div_mul_cancel₀ _ (zpow_ne_zero _ two_ne_zero)]

theorem isDouble_roundDouble (x : ℚ) : IsDouble (roundDouble x) := by
  have hpos : (0 : ℚ) < 2 ^ lastBit x := zpow_pos two_pos _
  have hsmall : |x / 2 ^ lastBit x| ≤ ((2 ^ 53 : ℤ) : ℚ) := by
    rw [abs_div, abs_of_pos hpos, div_le_iff₀ hpos]
    have hlt := abs_lt_lastBit x
    rw [zpow_add₀ two_ne_zero] at hlt
    push_cast
    rw [mul_comm]
    exact hlt.le
  have hround := abs_roundEven_le hsmall
  rcases hround.lt_or_eq with hlt | heq
  · exact ⟨_, _, hlt, rfl⟩
  · -- the significand was rounded up to `2 ^ 53`
    obtain ⟨n, hn⟩ : ∃ n : ℤ, roundEven (x / 2 ^ lastBit x) = n * 2 := by
      rcases abs_eq (by norm_num) |>.1 heq with h | h
      · exact ⟨2 ^ 52, by rw [h]; norm_num⟩
      · exact ⟨-2 ^ 52, by rw [h]; norm_num⟩
    refine ⟨n, lastBit x + 1, ?_, ?_⟩
    · rw [hn, abs_mul] at heq
      norm_num at heq ⊢
      omega
    · rw [roundDouble, hn, zpow_add₀ two_ne_zero]
      push_cast
      ring

/-- rounding an integer gives an integer -/
theorem roundDouble_intCast (n : ℤ) : ∃ r : ℤ, roundDouble n = r := by
  by_cases hlast : 0 ≤ lastBit n
  · obtain ⟨k, hk⟩ := Int.eq_ofNat_of_zero_le hlast
    refine ⟨roundEven (n / 2 ^ lastBit n) * 2 ^ k, ?_⟩
    rw [roundDouble, hk]
    push_cast
    rw [zpow_natCast]
  · refine ⟨n, roundDouble_of_isDouble ⟨n, 0, ?_, by simp⟩⟩
    have hlt := (abs_lt_lastBit n).trans_le (zpow_le_zpow_right₀ one_le_two (by omega : lastBit n + 53 ≤ (53 : ℕ)))
    rw [zpow_natCast] at hlt
    exact_mod_cast hlt

/-! ## Integers -/

theorem isDouble_of_lt {n : ℤ} (h : |n| < 2 ^ 53) : IsDouble n := ⟨n, 0, h, by simp⟩

/-- an integer that is a double, by a natural exponent -/
theorem IsDouble.natExponent {n : ℤ} (h : IsDouble n) : ∃ (m : ℤ) (k : ℕ), |m| < 2 ^ 53 ∧ n = m * 2 ^ k := by
  obtain ⟨m, k, hm, hn⟩ := h
  rcases Int.eq_nat_or_neg k with ⟨j, rfl | rfl⟩
  · rw [zpow_natCast] at hn
    exact ⟨m, j, hm, by exact_mod_cast hn⟩
  · have hmul : n * 2 ^ j = m := by
      rw [zpow_neg, zpow_natCast, ← div_eq_mul_inv, eq_div_iff (pow_ne_zero _ two_ne_zero)] at hn
      exact_mod_cast hn
    refine ⟨n, 0, ?_, by simp⟩
    calc |n| ≤ |n| * 2 ^ j := le_mul_of_one_le_right (abs_nonneg n) (one_le_pow₀ one_le_two)
      _ = |m| := by rw [← hmul, abs_mul, abs_of_pos (pow_pos two_pos j : (0 : ℤ) < 2 ^ j)]
      _ < 2 ^ 53 := hm

theorem IsDouble.of_mul {a b : ℤ} (hb : b ≠ 0) (h : IsDouble ((a * b : ℤ) : ℚ)) : IsDouble a := by
  rcases eq_or_ne a 0 with rfl | ha
  · exact isDouble_of_lt (by norm_num)
  obtain ⟨m, k, hm, hab⟩ := h.natExponent
  obtain ⟨i, g, hg, ha'⟩ := Nat.exists_eq_two_pow_mul_odd (Int.natAbs_ne_zero.2 ha)
  obtain ⟨j, o, ho, hb'⟩ := Nat.exists_eq_two_pow_mul_odd (Int.natAbs_ne_zero.2 hb)
  have hprod : 2 ^ (i + j) * (g * o) = m.natAbs * 2 ^ k := by
    have habs := congrArg Int.natAbs hab
    rw [Int.natAbs_mul, Int.natAbs_mul, Int.natAbs_pow, ha', hb'] at habs
    calc 2 ^ (i + j) * (g * o) = 2 ^ i * g * (2 ^ j * o) := by ring
      _ = m.natAbs * 2 ^ k := habs
  -- the odd part of the product divides the significand
  have hcoprime : Nat.Coprime (g * o) (2 ^ k) := (hg.mul ho).coprime_two_right.pow_right k
  have hdvd : g * o ∣ m.natAbs := hcoprime.dvd_of_dvd_mul_right (Dvd.intro_left _ hprod)
  have hmpos : 0 < m.natAbs := by
    rw [Int.natAbs_pos]
    rintro rfl
    rw [zero_mul] at hab
    exact mul_ne_zero ha hb hab
  have hle : g ≤ m.natAbs := (Nat.le_mul_of_pos_right g ho.pos).trans (Nat.le_of_dvd hmpos hdvd)
  refine ⟨a.sign * g, i, ?_, ?_⟩
  · rw [abs_mul, Int.abs_sign_of_ne_zero ha, one_mul, Nat.abs_cast]
    calc (g : ℤ) ≤ m.natAbs := by exact_mod_cast hle
      _ = |m| := Int.natCast_natAbs m
      _ < 2 ^ 53 := hm
  · have hsplit : a = a.sign * g * 2 ^ i := by
      calc a = a.sign * (a.natAbs : ℤ) := (Int.sign_mul_natAbs a).symm
        _ = a.sign * g * 2 ^ i := by rw [ha']; push_cast; ring
    rw [zpow_natCast]
    exact_mod_cast hsplit

/-! ## Bounds -/

variable {b : ℚ}

theorem zpow_le_of_pos (hx : 0 < x) : (2 : ℚ) ^ (lastBit x + 52) ≤ x := by
  have hlog : ((2 : ℕ) : ℚ) ^ Int.log 2 x ≤ x := Int.zpow_log_le_self one_lt_two hx
  rw [lastBit, abs_of_pos hx, sub_add_cancel]
  exact_mod_cast hlog

/-- the exponent of the last bit, from the binade -/
theorem lastBit_eq {e : ℤ} (hle : (2 : ℚ) ^ (e + 52) ≤ x) (hlt : x < 2 ^ (e + 53)) : lastBit x = e := by
  have hx : 0 < x := (zpow_pos two_pos _).trans_le hle
  have hlow : Int.log 2 x < e + 53 := (Int.lt_zpow_iff_log_lt one_lt_two hx).1 (by exact_mod_cast hlt)
  have hhigh : e + 52 ≤ Int.log 2 x := (Int.zpow_le_iff_le_log one_lt_two hx).1 (by exact_mod_cast hle)
  rw [lastBit, abs_of_pos hx]
  omega

/-- below `2 ^ 52` there are bits for fractions -/
theorem lastBit_neg (h : |x| < 2 ^ 52) : lastBit x < 0 := by
  rcases eq_or_ne x 0 with rfl | hx
  · simp [lastBit]
  · have hlog : Int.log 2 |x| < (52 : ℕ) :=
      (Int.lt_zpow_iff_log_lt one_lt_two (abs_pos.2 hx)).1 (by exact_mod_cast h)
    unfold lastBit
    omega

/-- a large double is a multiple of the last bit -/
theorem IsDouble.multiple (hb : IsDouble b) {e : ℤ} (h : (2 : ℚ) ^ (e + 52) ≤ b) : ∃ n : ℤ, b = n * 2 ^ e := by
  have hpos : 0 < b := (zpow_pos two_pos _).trans_le h
  obtain ⟨m, k, hm, rfl⟩ := hb
  have hlog : e + 52 ≤ Int.log 2 (m * 2 ^ k : ℚ) :=
    (Int.zpow_le_iff_le_log one_lt_two hpos).1 (by exact_mod_cast h)
  have hbit := lastBit_le hm rfl hpos.ne'
  rw [lastBit, abs_of_pos hpos] at hbit
  obtain ⟨j, hj⟩ := Int.le.dest (show e ≤ k by omega)
  refine ⟨m * 2 ^ j, ?_⟩
  rw [← hj, zpow_add₀ two_ne_zero, zpow_natCast]
  push_cast
  ring

theorem roundDouble_le (hb : IsDouble b) (hx : 0 < x) (h : x ≤ b) : roundDouble x ≤ b := by
  obtain ⟨n, hn⟩ := hb.multiple ((zpow_le_of_pos hx).trans h)
  have hpos : (0 : ℚ) < 2 ^ lastBit x := zpow_pos two_pos _
  have hscale : x / 2 ^ lastBit x ≤ n := (div_le_iff₀ hpos).2 (hn ▸ h)
  rw [roundDouble, hn]
  exact mul_le_mul_of_nonneg_right (by exact_mod_cast roundEven_le hscale) hpos.le

theorem le_roundEven {n : ℤ} (h : (n : ℚ) ≤ x) : n ≤ roundEven x := (Int.le_floor.2 h).trans (floor_le_roundEven x)

theorem le_roundDouble (hb : IsDouble b) (hx : 0 < x) (h : b ≤ x) : b ≤ roundDouble x := by
  have hpos : (0 : ℚ) < 2 ^ lastBit x := zpow_pos two_pos _
  rw [roundDouble]
  rcases le_or_gt ((2 : ℚ) ^ (lastBit x + 52)) b with hlarge | hsmall
  · obtain ⟨n, hn⟩ := hb.multiple hlarge
    have hscale : (n : ℚ) ≤ x / 2 ^ lastBit x := (le_div_iff₀ hpos).2 (hn ▸ h)
    calc b = n * 2 ^ lastBit x := hn
      _ ≤ roundEven (x / 2 ^ lastBit x) * 2 ^ lastBit x :=
        mul_le_mul_of_nonneg_right (by exact_mod_cast le_roundEven hscale) hpos.le
  · have hpow : (2 : ℚ) ^ (lastBit x + 52) = ((2 ^ 52 : ℤ) : ℚ) * 2 ^ lastBit x := by
      rw [zpow_add₀ two_ne_zero, mul_comm]
      norm_num
    have hscale : ((2 ^ 52 : ℤ) : ℚ) ≤ x / 2 ^ lastBit x := (le_div_iff₀ hpos).2 (hpow ▸ zpow_le_of_pos hx)
    calc b ≤ ((2 ^ 52 : ℤ) : ℚ) * 2 ^ lastBit x := hpow ▸ hsmall.le
      _ ≤ roundEven (x / 2 ^ lastBit x) * 2 ^ lastBit x :=
        mul_le_mul_of_nonneg_right (by exact_mod_cast le_roundEven hscale) hpos.le

/-- the half below an even integer is rounded to it -/
theorem roundEven_lt_iff {n : ℤ} (hn : n % 2 = 0) : roundEven x < n ↔ x < n - 1 / 2 := by
  have hfloor := Int.floor_le x
  have hlt := Int.lt_floor_add_one x
  rcases lt_trichotomy ⌊x⌋ (n - 1) with hlow | heq | hhigh
  · have hcast : (⌊x⌋ : ℚ) + 2 ≤ n := by exact_mod_cast (by omega : ⌊x⌋ + 2 ≤ n)
    have hround : roundEven x ≤ ⌊x⌋ + 1 := by
      unfold roundEven
      split_ifs <;> omega
    exact ⟨fun _ => by linarith, fun _ => by omega⟩
  · have hcast : (⌊x⌋ : ℚ) = n - 1 := by exact_mod_cast heq
    unfold roundEven
    split_ifs with h1 h2
    · exact ⟨fun _ => by linarith, fun _ => by omega⟩
    · exact ⟨fun h => by omega, fun h => by linarith⟩
    · exact ⟨fun h => by omega, fun h => by linarith⟩
  · have hcast : (n : ℚ) ≤ ⌊x⌋ := by exact_mod_cast (by omega : n ≤ ⌊x⌋)
    have hround := floor_le_roundEven x
    exact ⟨fun _ => by omega, fun _ => by linarith⟩

/-- **Below a power of two** by more than half of the last bit. -/
theorem roundDouble_lt_zpow (hx : 0 < x) (k : ℤ) : roundDouble x < 2 ^ k ↔ x < 2 ^ k - 2 ^ (k - 54) := by
  have hgap : (0 : ℚ) < 2 ^ (k - 54) := zpow_pos two_pos _
  have hdouble : ∀ j : ℤ, IsDouble ((2 : ℚ) ^ j) := fun j => ⟨1, j, by norm_num, by simp⟩
  have hhalf : (2 : ℚ) ^ k = 2 ^ (k - 1) + 2 ^ (k - 1) := by
    rw [← two_mul, ← zpow_one_add₀ two_ne_zero]
    congr 1
    omega
  rcases le_or_gt (2 ^ k) x with hlarge | hsmall
  · have hle := le_roundDouble (hdouble k) hx hlarge
    exact ⟨fun h => by linarith, fun h => by linarith⟩
  rcases le_or_gt (2 ^ (k - 1)) x with hbinade | hlow
  · have hbit : lastBit x = k - 53 := by
      apply lastBit_eq
      · rw [show k - 53 + 52 = k - 1 by omega]
        exact hbinade
      · rw [sub_add_cancel]
        exact hsmall
    have hscale : (0 : ℚ) < 2 ^ (k - 53) := zpow_pos two_pos _
    have hpow : (2 : ℚ) ^ k = ((2 ^ 53 : ℤ) : ℚ) * 2 ^ (k - 53) := by
      calc (2 : ℚ) ^ k = 2 ^ (53 + (k - 53)) := by rw [add_sub_cancel]
        _ = 2 ^ (53 : ℤ) * 2 ^ (k - 53) := zpow_add₀ two_ne_zero _ _
        _ = ((2 ^ 53 : ℤ) : ℚ) * 2 ^ (k - 53) := by norm_num
    have hstep : (2 : ℚ) ^ (k - 54) = 1 / 2 * 2 ^ (k - 53) := by
      rw [show k - 53 = k - 54 + 1 by omega, zpow_add_one₀ two_ne_zero]
      ring
    calc roundDouble x < 2 ^ k
        ↔ (roundEven (x / 2 ^ (k - 53)) : ℚ) < ((2 ^ 53 : ℤ) : ℚ) := by
          rw [roundDouble, hbit, hpow, mul_lt_mul_iff_left₀ hscale]
      _ ↔ x / 2 ^ (k - 53) < ((2 ^ 53 : ℤ) : ℚ) - 1 / 2 := by rw [Int.cast_lt, roundEven_lt_iff (by norm_num)]
      _ ↔ x < 2 ^ k - 2 ^ (k - 54) := by rw [div_lt_iff₀ hscale, sub_mul, ← hpow, ← hstep]
  · have hle := roundDouble_le (hdouble (k - 1)) hx hlow.le
    have hmono : (2 : ℚ) ^ (k - 54) < 2 ^ (k - 1) := zpow_lt_zpow_right₀ one_lt_two (by omega)
    have hpos : (0 : ℚ) < 2 ^ (k - 1) := zpow_pos two_pos _
    exact ⟨fun _ => by linarith, fun _ => by linarith⟩

/-- **Below an integer** by more than half of the last bit, which is a fraction. -/
theorem roundDouble_lt_intCast (hbit : lastBit x < 0) (n : ℤ) :
    roundDouble x < n ↔ x < n - 2 ^ (lastBit x - 1) := by
  have hpos : (0 : ℚ) < 2 ^ lastBit x := zpow_pos two_pos _
  obtain ⟨k, hk⟩ : ∃ k : ℕ, lastBit x = -(k + 1 : ℕ) := ⟨(-lastBit x - 1).toNat, by omega⟩
  -- in units of the last bit the integer is even
  have hscale : (n : ℚ) = ((n * 2 ^ k * 2 : ℤ) : ℚ) * 2 ^ lastBit x := by
    rw [hk, zpow_neg, zpow_natCast]
    push_cast
    field_simp
    ring
  have heven : n * 2 ^ k * 2 % 2 = 0 := Int.mul_emod_left _ _
  have hhalf : (2 : ℚ) ^ (lastBit x - 1) = 1 / 2 * 2 ^ lastBit x := by
    rw [zpow_sub_one₀ two_ne_zero]
    ring
  calc roundDouble x < n
      ↔ (roundEven (x / 2 ^ lastBit x) : ℚ) < ((n * 2 ^ k * 2 : ℤ) : ℚ) := by
        rw [roundDouble, hscale, mul_lt_mul_iff_left₀ hpos]
    _ ↔ x / 2 ^ lastBit x < ((n * 2 ^ k * 2 : ℤ) : ℚ) - 1 / 2 := by rw [Int.cast_lt, roundEven_lt_iff heven]
    _ ↔ x < n - 2 ^ (lastBit x - 1) := by rw [div_lt_iff₀ hpos, sub_mul, ← hscale, ← hhalf]

theorem roundDouble_nonneg (hx : 0 ≤ x) : 0 ≤ roundDouble x := by
  have hzero : IsDouble 0 := ⟨0, 0, by norm_num, by simp⟩
  rcases hx.eq_or_lt with rfl | hpos
  · exact (roundDouble_of_isDouble hzero).ge
  · exact le_roundDouble hzero hpos hx

end Core
