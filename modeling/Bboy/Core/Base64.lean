/-
Bytes in groups of six bits. A digit is a number below 64; four digits are three bytes, and two or three digits at the end are
one or two.

- `digits`, `bytes`: the two directions, with `bytes_digits`.
- `bytes_group`: four digits in front.
- `value`: the number that digits stand for, with `value_concat`, and the bytes it is made of.
-/
import Mathlib.Tactic

namespace Core.Base64

/-- the digits of some bytes, the last of them filled with zero bits -/
def digits : List UInt8 → List ℕ
  | [] => []
  | [a] => [a.toNat / 4, a.toNat % 4 * 16]
  | [a, b] => [a.toNat / 4, a.toNat % 4 * 16 + b.toNat / 16, b.toNat % 16 * 4]
  | a :: b :: c :: rest =>
    a.toNat / 4 :: (a.toNat % 4 * 16 + b.toNat / 16) :: (b.toNat % 16 * 4 + c.toNat / 64) :: c.toNat % 64 :: digits rest

/-- the number of some digits -/
def value (ds : List ℕ) : ℕ := ds.foldl (fun v d => v * 64 + d) 0

/-- the three bytes of a number -/
def threeBytes (v : ℕ) : List UInt8 := [UInt8.ofNat (v / 65536), UInt8.ofNat (v / 256), UInt8.ofNat v]

theorem ofNat_congr {m n : ℕ} (h : m % 256 = n % 256) : UInt8.ofNat m = UInt8.ofNat n := by
  apply UInt8.toNat_inj.1
  rw [UInt8.toNat_ofNat', UInt8.toNat_ofNat']
  exact h

/-- only 24 bits matter -/
theorem threeBytes_congr {m n : ℕ} (h : m % 16777216 = n % 16777216) : threeBytes m = threeBytes n := by
  have hfirst : m / 65536 % 256 = n / 65536 % 256 := by omega
  have hsecond : m / 256 % 256 = n / 256 % 256 := by omega
  have hthird : m % 256 = n % 256 := by omega
  rw [threeBytes, threeBytes, ofNat_congr hfirst, ofNat_congr hsecond, ofNat_congr hthird]

/-- the bytes of some digits; one digit alone at the end is no byte -/
def bytes : List ℕ → Option (List UInt8)
  | [] => some []
  | [_] => none
  | [a, b] => some [UInt8.ofNat (value [a, b] / 16)]
  | [a, b, c] => some [UInt8.ofNat (value [a, b, c] / 1024), UInt8.ofNat (value [a, b, c] / 4)]
  | a :: b :: c :: d :: rest => (bytes rest).map (threeBytes (value [a, b, c, d]) ++ ·)

@[simp] theorem value_concat (ds : List ℕ) (d : ℕ) : value (ds ++ [d]) = value ds * 64 + d := by
  rw [value, List.foldl_append]
  rfl

theorem value_lt {ds : List ℕ} (h : ∀ d ∈ ds, d < 64) : value ds < 64 ^ ds.length := by
  induction ds using List.reverseRecOn with
  | nil => exact Nat.one_pos
  | append_singleton ds d ih =>
    have hd := h d (by simp)
    have hlt := ih fun e he => h e (List.mem_append_left _ he)
    rw [value_concat, List.length_append, List.length_singleton, pow_succ]
    omega

/-- four digits in front are a group of their own -/
theorem bytes_group {group : List ℕ} (h : group.length = 4) (rest : List ℕ) :
    bytes (group ++ rest) = (bytes rest).map (threeBytes (value group) ++ ·) := by
  obtain ⟨a, b, c, d, rfl⟩ := List.length_eq_four.1 h
  rfl

end Core.Base64
