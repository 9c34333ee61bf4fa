/-
Lean model of `RenewThread`, `KinitContext::GetNextRenewInterval` and `GetBackedOffRenewInterval`
(`bboy/security/init.cc`).

`none` is undefined behaviour: a shift by more than 31, an int product that overflows, a double that does not fit in an
`int32_t`. What the random distributions return is given, and so is the time that remains at each round.

- `baseTime_eq_some`: the interval before the jitter.
- `backOff_exact`: for which times, retries and jitters the arithmetic is right: the product fits in an int, and the
  jitter does not take it out of it.
- `renewThread_failures`: it goes wrong after 26 failures in a row, whatever time remains.
- `backOff_broken`: an overflow, a shift and a jitter.
-/
import Bboy.Core.Double
import Bboy.Core.MachineInt

namespace Bboy.RenewInterval

open Core

/-! ## Model -/

/-- `1 << n`; the shift by 31 gives the least int -/
def shiftOne (n : ℕ) : Option ℤ := if n < 31 then some (2 ^ n) else if n = 31 then some (-2 ^ 31) else none

/-- what `uniform_real_distribution<> dist(0.5, 1.5)` returns -/
structure Jitter where
  value : ℚ
  half_le : 1 / 2 ≤ value
  lt : value < 3 / 2
  isDouble : IsDouble value

/-- `base_time` -/
def baseTime (timeRemaining : ℤ) (numRetries : ℕ) : Option ℤ :=
  let nextInterval := max timeRemaining 60
  (shiftOne numRetries).bind fun factor => (checkInt (nextInterval * factor)).map fun product => min product int32Max

/-- `static_cast<int32_t>` of a double that is not negative -/
def toInt32 (x : ℚ) : Option ℤ := checkInt ⌊x⌋

def getBackedOffRenewInterval (timeRemaining : ℤ) (numRetries : ℕ) (jitter : Jitter) : Option ℤ :=
  (baseTime timeRemaining numRetries).bind fun base => toInt32 (roundDouble (base * jitter.value))

/-- `draw a b` is what `uniform_int_distribution<> dist(a, b)` returns -/
def getNextRenewInterval (timeRemaining : ℤ) (numRetries : ℕ) (draw : ℤ → ℤ → ℤ) (jitter : Jitter) : Option ℤ :=
  if 0 < numRetries then getBackedOffRenewInterval timeRemaining numRetries jitter
  else if timeRemaining > 600 then checkInt (timeRemaining - draw 5 300)
  else if timeRemaining > 300 then checkInt (timeRemaining - draw 5 60)
  else some timeRemaining

/-- one round of `RenewThread`: what the interval depends on, and whether the renewal succeeds -/
structure Round where
  timeRemaining : ℤ
  draw : ℤ → ℤ → ℤ
  jitter : Jitter
  renewed : Bool

/-- `failure_retries` after some rounds -/
def renewThread : ℕ → List Round → Option ℕ
  | failureRetries, [] => some failureRetries
  | failureRetries, round :: rounds =>
    (getNextRenewInterval round.timeRemaining failureRetries round.draw round.jitter).bind fun _ =>
      renewThread (if round.renewed then 0 else (failureRetries + 1) % 2 ^ 32) rounds

/-- the interval is computed without overflow and in its range, and before the jitter it does not decrease with the
retries -/
def Sound (timeRemaining : ℤ) (numRetries : ℕ) (jitter : Jitter) : Prop :=
  (∃ r, getBackedOffRenewInterval timeRemaining numRetries jitter = some r ∧ 30 ≤ r ∧ r ≤ int32Max) ∧
    ∀ m ≤ numRetries, ∃ b b', baseTime timeRemaining m = some b ∧ baseTime timeRemaining numRetries = some b' ∧ b ≤ b'

/-! ## The interval before the jitter -/

variable {t b : ℤ} {n : ℕ}

/-- the product without a limit -/
def product (timeRemaining : ℤ) (numRetries : ℕ) : ℤ := max timeRemaining 60 * 2 ^ numRetries

theorem le_product (t : ℤ) (n : ℕ) : 60 * 2 ^ n ≤ product t n :=
  mul_le_mul_of_nonneg_right (le_max_right t 60) (pow_nonneg (by norm_num) n)

theorem product_pos (t : ℤ) (n : ℕ) : 0 < product t n := lt_of_lt_of_le (by positivity) (le_product t n)

theorem product_mono (t : ℤ) {m n : ℕ} (h : m ≤ n) : product t m ≤ product t n :=
  mul_le_mul_of_nonneg_left (pow_le_pow_right₀ (by norm_num) h) (by omega)

/-- a product that fits has few retries -/
theorem lt_of_product_le (h : product t n ≤ int32Max) : n < 26 := by
  by_contra hle
  have hpow : (2 : ℤ) ^ 26 ≤ 2 ^ n := pow_le_pow_right₀ (by norm_num) (not_lt.1 hle)
  have hprod := le_product t n
  have hmax : int32Max = 2 ^ 31 - 1 := rfl
  omega

/-- **`base_time`** is the product if this fits in an int, and there is none otherwise: the minimum comes too late. -/
theorem baseTime_eq_some : baseTime t n = some b ↔ product t n ≤ int32Max ∧ b = product t n := by
  have hpos : 0 < max t 60 := by omega
  constructor
  · intro h
    obtain ⟨factor, hfactor, h⟩ := Option.bind_eq_some_iff.1 h
    obtain ⟨p, hp, rfl⟩ := Option.map_eq_some_iff.1 h
    obtain ⟨⟨hlow, hhigh⟩, rfl⟩ := checkInt_eq_some.1 hp
    rw [shiftOne] at hfactor
    split_ifs at hfactor with hsmall hshift
    · obtain rfl := Option.some.inj hfactor
      exact ⟨hhigh, min_eq_left hhigh⟩
    · -- a shift by 31 makes the product too small
      obtain rfl := Option.some.inj hfactor
      exfalso
      have : max t 60 * -2 ^ 31 ≤ 60 * -2 ^ 31 := by omega
      omega
  · rintro ⟨hle, rfl⟩
    have hn := lt_of_product_le hle
    have hpos := product_pos t n
    have hcheck : checkInt (product t n) = some (product t n) := checkInt_eq_some.2 ⟨⟨by omega, hle⟩, rfl⟩
    rw [baseTime, shiftOne, if_pos (by omega), Option.bind_some, ← product, hcheck, Option.map_some, min_eq_left hle]

/-! ## With the jitter -/

theorem toInt32_eq_some {x : ℚ} {r : ℤ} (hx : 0 ≤ x) : toInt32 x = some r ↔ x < 2 ^ 31 ∧ r = ⌊x⌋ := by
  have hfloor : 0 ≤ ⌊x⌋ := Int.floor_nonneg.2 hx
  have hlt : ⌊x⌋ ≤ int32Max ↔ x < 2 ^ 31 := by
    rw [int32Max, Int.le_sub_one_iff, Int.floor_lt]
    norm_num
  rw [toInt32, checkInt_eq_some, hlt]
  constructor
  · rintro ⟨⟨-, hx⟩, hr⟩
    exact ⟨hx, hr⟩
  · rintro ⟨hx, hr⟩
    exact ⟨⟨by omega, hx⟩, hr⟩

theorem half_minute_le (t : ℤ) (n : ℕ) (jitter : Jitter) : 30 ≤ (product t n : ℚ) * jitter.value := by
  have hpow : (1 : ℤ) ≤ 2 ^ n := one_le_pow₀ (by norm_num)
  have hproduct : (60 : ℚ) ≤ product t n := by exact_mod_cast (by have := le_product t n; omega : 60 ≤ product t n)
  have hhalf := jitter.half_le
  calc (30 : ℚ) = 60 * (1 / 2) := by norm_num
    _ ≤ product t n * jitter.value := mul_le_mul hproduct hhalf (by norm_num) (by linarith)

theorem half_minute_le_round (t : ℤ) (n : ℕ) (jitter : Jitter) : 30 ≤ roundDouble (product t n * jitter.value) := by
  have hle := half_minute_le t n jitter
  have hdouble : IsDouble (30 : ℚ) := ⟨30, 0, by norm_num, by norm_num⟩
  exact le_roundDouble hdouble (by linarith) hle

/-- the interval after a failure -/
theorem getBackedOff_eq_some {jitter : Jitter} {r : ℤ} :
    getBackedOffRenewInterval t n jitter = some r ↔ (product t n ≤ int32Max ∧
      (product t n : ℚ) * jitter.value < 2 ^ 31 - 2 ^ (-23 : ℤ)) ∧ r = ⌊roundDouble (product t n * jitter.value)⌋ := by
  have hpos : (0 : ℚ) < product t n * jitter.value := lt_of_lt_of_le (by norm_num) (half_minute_le t n jitter)
  have hround : 0 ≤ roundDouble (product t n * jitter.value) := le_trans (by norm_num) (half_minute_le_round t n jitter)
  have hlt : roundDouble (product t n * jitter.value) < 2 ^ 31 ↔
      (product t n : ℚ) * jitter.value < 2 ^ 31 - 2 ^ (-23 : ℤ) := roundDouble_lt_zpow hpos 31
  constructor
  · intro h
    obtain ⟨b, hb, hr⟩ := Option.bind_eq_some_iff.1 h
    obtain ⟨hle, rfl⟩ := baseTime_eq_some.1 hb
    obtain ⟨hfits, rfl⟩ := (toInt32_eq_some hround).1 hr
    exact ⟨⟨hle, hlt.1 hfits⟩, rfl⟩
  · rintro ⟨⟨hle, hfits⟩, rfl⟩
    rw [getBackedOffRenewInterval, baseTime_eq_some.2 ⟨hle, rfl⟩, Option.bind_some]
    exact (toInt32_eq_some hround).2 ⟨hlt.2 hfits, rfl⟩

theorem getBackedOff_le {jitter : Jitter} {r : ℤ} (h : getBackedOffRenewInterval t n jitter = some r) :
    r ≤ int32Max := by
  obtain ⟨b, -, hr⟩ := Option.bind_eq_some_iff.1 h
  obtain ⟨hrange, rfl⟩ := checkInt_eq_some.1 hr
  exact hrange.2

/-! ## Runs -/

/-- a run of failures without an overflow is short -/
theorem renewThread_from {rounds : List Round} (hfail : ∀ round ∈ rounds, round.renewed = false) {failureRetries : ℕ}
    (hretries : 0 < failureRetries) (h : renewThread failureRetries rounds = some n) :
    rounds = [] ∨ failureRetries + rounds.length ≤ 26 := by
  induction rounds generalizing failureRetries with
  | nil => exact Or.inl rfl
  | cons round rounds ih =>
    obtain ⟨r, hr, hrest⟩ := Option.bind_eq_some_iff.1 h
    rw [getNextRenewInterval, if_pos hretries] at hr
    have hfew := lt_of_product_le (getBackedOff_eq_some.1 hr).1.1
    rw [hfail round List.mem_cons_self, if_neg Bool.false_ne_true, Nat.mod_eq_of_lt (by omega)] at hrest
    right
    rcases ih (fun round h => hfail round (List.mem_cons_of_mem _ h)) (Nat.succ_pos _) hrest with rfl | hlen
    · simpa using hfew
    · rw [List.length_cons]
      omega

/-- **A run of failures** overflows after 27 rounds at the latest, whatever time remains. -/
theorem renewThread_failures {rounds : List Round} (hfail : ∀ round ∈ rounds, round.renewed = false)
    (hlong : 27 ≤ rounds.length) : renewThread 0 rounds = none := by
  cases rounds with
  | nil => simp at hlong
  | cons round rounds =>
    by_contra hsome
    obtain ⟨n, hn⟩ := Option.ne_none_iff_exists'.1 hsome
    obtain ⟨r, -, hrest⟩ := Option.bind_eq_some_iff.1 hn
    rw [hfail round List.mem_cons_self, if_neg Bool.false_ne_true] at hrest
    have hlen := renewThread_from (fun round h => hfail round (List.mem_cons_of_mem _ h)) (by norm_num) hrest
    rw [List.length_cons] at hlong
    rcases hlen with rfl | hlen
    · simp at hlong
    · omega

/-! ## Main result -/

/-- **The arithmetic is right** exactly if the product fits in an int, and with the jitter it is rounded to a double below
`2 ^ 31`. -/
theorem backOff_exact (timeRemaining : ℤ) (numRetries : ℕ) (jitter : Jitter) :
    Sound timeRemaining numRetries jitter ↔
      max timeRemaining 60 * 2 ^ numRetries ≤ int32Max ∧
        ((max timeRemaining 60 * 2 ^ numRetries : ℤ) : ℚ) * jitter.value < 2 ^ 31 - 2 ^ (-23 : ℤ) := by
  rw [← product]
  constructor
  · rintro ⟨⟨r, hr, -⟩, -⟩
    exact (getBackedOff_eq_some.1 hr).1
  · intro hfits
    have hlow := Int.le_floor.2 (by exact_mod_cast half_minute_le_round timeRemaining numRetries jitter)
    have hr := getBackedOff_eq_some.2 ⟨hfits, rfl⟩
    refine ⟨⟨_, hr, hlow, getBackedOff_le hr⟩, fun m hm => ?_⟩
    have hmono := product_mono timeRemaining hm
    exact ⟨_, _, baseTime_eq_some.2 ⟨hmono.trans hfits.1, rfl⟩, baseTime_eq_some.2 ⟨hfits.1, rfl⟩, hmono⟩

/-- no jitter -/
def noJitter : Jitter := ⟨1, by norm_num, by norm_num, ⟨1, 0, by norm_num, by norm_num⟩⟩

def quarterJitter : Jitter := ⟨5 / 4, by norm_num, by norm_num, ⟨5, -2, by norm_num, by norm_num⟩⟩

/-- 26 retries overflow the product, 32 retries are shifted out of range, and a jitter takes a product that fits out of
the range -/
theorem backOff_broken : ¬Sound 60 26 noJitter ∧ ¬Sound 60 32 noJitter ∧ ¬Sound (2 ^ 30 - 1) 1 quarterJitter := by
  refine ⟨?_, ?_, ?_⟩
  · rintro ⟨⟨r, hr, -⟩, -⟩
    have hfits := (getBackedOff_eq_some.1 hr).1.1
    revert hfits
    decide
  · rintro ⟨⟨r, hr, -⟩, -⟩
    have hfits := (getBackedOff_eq_some.1 hr).1.1
    revert hfits
    decide
  · rintro ⟨⟨r, hr, -⟩, -⟩
    have hfits := (getBackedOff_eq_some.1 hr).1.2
    have hproduct : product (2 ^ 30 - 1) 1 = 2 ^ 31 - 2 := by decide
    rw [hproduct, quarterJitter] at hfits
    norm_num at hfits

end Bboy.RenewInterval
