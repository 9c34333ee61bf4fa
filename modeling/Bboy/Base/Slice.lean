/-
Lean model of the comparisons of `Slice` (`bboy/base/slice.h`) and of the routines under them (`memeq` and
`fastmemcmp_inlined`, `bboy/gbase/strings/fastmem.h`).

A pointer is the list of the bytes from it to the end of its slice; a read past that end is undefined. Word loads are
little-endian, as on the machine.

- `memeq_eq`, `fastmemcmpInlined_spec`: both routines agree with the plain byte sequences, for every length.
- `startsWith_eq`, `equals_eq`: `starts_with` and `operator==` are always right.
- `lexicographic_exact`: `compare`, which narrows the common length to an `int`, orders two slices as their byte sequences
  exactly when they are `Comparable`; on slices that are, it is a strict total order.
- `lexicographic_broken`: two different slices of 2^32 bytes that compare equal.
-/
import Bboy.Core.LittleEndian
import Bboy.Core.MachineInt

namespace Bboy

open Core

/-- a slice, by the bytes it points to; its size is a `size_t` -/
structure Slice where
  data : List UInt8
  size_lt : data.length < 2 ^ 64

namespace Slice

/-! ## `bboy/gbase/strings/fastmem.h` -/

def load64 (p : List UInt8) : Option UInt64 :=
  if 8 ≤ p.length then some (UInt64.ofNat (LittleEndian.load (p.take 8))) else none

def load32 (p : List UInt8) : Option UInt32 :=
  if 4 ≤ p.length then some (UInt32.ofNat (LittleEndian.load (p.take 4))) else none

/-- the difference of the first bytes that differ -/
def difference : List UInt8 → List UInt8 → ℤ
  | x :: a, y :: b => if x = y then difference a b else x.toNat - y.toNat
  | _, _ => 0

/-- `memcmp`; only the sign of its result is used -/
def memcmp (a b : List UInt8) (n : ℕ) : Option ℤ :=
  if n ≤ a.length ∧ n ≤ b.length then some (difference (a.take n) (b.take n)) else none

/-- the loop of `memeq` over 16 bytes, and the 8 bytes behind it -/
def memeqLoop : ℕ → List UInt8 → List UInt8 → Option Bool
  | n + 16, a, b => do
    let x := (← load64 a) ^^^ (← load64 b)
    let y := (← load64 (a.drop 8)) ^^^ (← load64 (b.drop 8))
    if x ||| y ≠ 0 then return false
    memeqLoop n (a.drop 16) (b.drop 16)
  | n, a, b => do
    if n = 0 then return true
    return (← load64 a) = (← load64 b)

def memeq (a b : List UInt8) (n : ℕ) : Option Bool := do
  -- `n & ~static_cast<size_t>(7)`
  let nRoundedDown := n &&& 0xfffffffffffffff8
  if nRoundedDown = 0 then return (← memcmp a b n) = 0
  let u := (← load64 a) ^^^ (← load64 b)
  let v := (← load64 (a.drop (n - 8))) ^^^ (← load64 (b.drop (n - 8)))
  if u ||| v ≠ 0 then return false
  let n := nRoundedDown - 8
  if n > 128 then return (← memcmp (a.drop 8) (b.drop 8) n) = 0
  memeqLoop n (a.drop 8) (b.drop 8)

/-- what is left to compare: a number of bytes, and the two pointers -/
abbrev Rest := ℕ × List UInt8 × List UInt8

/-- equal 64-bit words are skipped -/
def skip64 : ℕ → List UInt8 → List UInt8 → Option Rest
  | n + 8, a, b => do
    if (← load64 a) = (← load64 b) then skip64 n (a.drop 8) (b.drop 8) else return (n + 8, a, b)
  | n, a, b => some (n, a, b)

/-- one equal 32-bit word is skipped -/
def skip32 (n : ℕ) (a b : List UInt8) : Option Rest := do
  if n < 4 then return (n, a, b)
  if (← load32 a) = (← load32 b) then return (n - 4, a.drop 4, b.drop 4) else return (n, a, b)

/-- the loop over single bytes -/
def compareBytes : ℕ → List UInt8 → List UInt8 → Option ℤ
  | 0, _, _ => some 0
  | n + 1, x :: a, y :: b =>
    let d := int32 (x.toNat - y.toNat)
    if d ≠ 0 then some d else compareBytes n a b
  | _, _, _ => none

def fastmemcmpInlined (a b : List UInt8) (n : ℕ) : Option ℤ := do
  if n ≥ 64 then memcmp a b n
  else
    let (n, a, b) ← skip64 n a b
    let (n, a, b) ← skip32 n a b
    compareBytes n a b

/-! ## `bboy/base/slice.h` -/

def size (s : Slice) : ℕ := s.data.length

def startsWith (s x : Slice) : Option Bool := if s.size ≥ x.size then memeq s.data x.data x.size else some false

/-- `operator==` -/
def equals (x y : Slice) : Option Bool := if x.size = y.size then memeq x.data y.data x.size else some false

def compare (s b : Slice) : Option ℤ := do
  let smaller := if s.size < b.size then s.size else b.size
  let minLen := int32 smaller
  let r ← fastmemcmpInlined s.data b.data (toSize minLen)
  return if r = 0 then (if s.size < b.size then -1 else if s.size > b.size then 1 else r) else r

/-- `Comparator` -/
def Less (a b : Slice) : Prop := ∃ r < 0, a.compare b = some r

/-! ## Word loads -/

variable {a b : List UInt8} {n : ℕ}

/-- the 8 bytes at a pointer, as a word -/
def word64 (p : List UInt8) : UInt64 := UInt64.ofNat (LittleEndian.load (p.take 8))

def word32 (p : List UInt8) : UInt32 := UInt32.ofNat (LittleEndian.load (p.take 4))

theorem load64_eq (h : 8 ≤ a.length) : load64 a = some (word64 a) := if_pos h

theorem load32_eq (h : 4 ≤ a.length) : load32 a = some (word32 a) := if_pos h

/-- words are equal when their bytes are -/
theorem word64_inj (ha : 8 ≤ a.length) (hb : 8 ≤ b.length) : word64 a = word64 b ↔ a.take 8 = b.take 8 := by
  have hlength : ∀ p : List UInt8, 8 ≤ p.length → (p.take 8).length = 8 := fun p hp => by simp [hp]
  have hlt : ∀ p : List UInt8, 8 ≤ p.length → LittleEndian.load (p.take 8) < 2 ^ 64 := fun p hp => by
    have h := LittleEndian.load_lt (p.take 8)
    rw [hlength p hp] at h
    exact h
  rw [← LittleEndian.load_inj ((hlength a ha).trans (hlength b hb).symm), word64, word64, ← UInt64.toNat_inj,
    UInt64.toNat_ofNat_of_lt' (hlt a ha), UInt64.toNat_ofNat_of_lt' (hlt b hb)]

theorem word32_inj (ha : 4 ≤ a.length) (hb : 4 ≤ b.length) : word32 a = word32 b ↔ a.take 4 = b.take 4 := by
  have hlength : ∀ p : List UInt8, 4 ≤ p.length → (p.take 4).length = 4 := fun p hp => by simp [hp]
  have hlt : ∀ p : List UInt8, 4 ≤ p.length → LittleEndian.load (p.take 4) < 2 ^ 32 := fun p hp => by
    have h := LittleEndian.load_lt (p.take 4)
    rw [hlength p hp] at h
    exact h
  rw [← LittleEndian.load_inj ((hlength a ha).trans (hlength b hb).symm), word32, word32, ← UInt32.toNat_inj,
    UInt32.toNat_ofNat_of_lt' (hlt a ha), UInt32.toNat_ofNat_of_lt' (hlt b hb)]

/-! ## `memeq` -/

/-- bytes are compared one by one -/
theorem take_eq_take : a.take n = b.take n ↔ ∀ i < n, a[i]? = b[i]? := by
  constructor
  · intro h i hi
    have hi' := congrArg (·[i]?) h
    simpa [List.getElem?_take, hi] using hi'
  · intro h
    refine List.ext_getElem? fun i => ?_
    by_cases hi : i < n
    · simp [hi, h i hi]
    · simp [hi]

theorem take_add_eq_take_add (m n : ℕ) :
    a.take (m + n) = b.take (m + n) ↔ a.take m = b.take m ∧ (a.drop m).take n = (b.drop m).take n := by
  simp only [take_eq_take, List.getElem?_drop]
  constructor
  · intro h
    exact ⟨fun i hi => h i (by omega), fun i hi => h (m + i) (by omega)⟩
  · intro ⟨hfirst, hrest⟩ i hi
    by_cases him : i < m
    · exact hfirst i him
    · have h := hrest (i - m) (by omega)
      rwa [Nat.add_sub_cancel' (not_lt.1 him)] at h

theorem difference_eq_zero (h : a.length = b.length) : difference a b = 0 ↔ a = b := by
  induction a generalizing b with
  | nil => simp [difference, List.length_eq_zero_iff.1 h.symm]
  | cons x a ih =>
    match b, h with
    | y :: b, h =>
      rw [difference]
      by_cases hxy : x = y
      · rw [if_pos hxy, ih (by simpa using h), List.cons.injEq, and_iff_right hxy]
      · have hne : x.toNat ≠ y.toNat := fun h => hxy (UInt8.toNat_inj.1 h)
        rw [if_neg hxy, List.cons.injEq, iff_false_right (fun h => hxy h.1)]
        omega

theorem memcmp_eq_zero (ha : n ≤ a.length) (hb : n ≤ b.length) :
    ∃ r, memcmp a b n = some r ∧ (r = 0 ↔ a.take n = b.take n) :=
  ⟨_, if_pos ⟨ha, hb⟩, difference_eq_zero (by simp [ha, hb])⟩

theorem memeqLoop_eq (h8 : n % 8 = 0) (ha : n ≤ a.length) (hb : n ≤ b.length) :
    memeqLoop n a b = some (decide (a.take n = b.take n)) := by
  induction n using Nat.strongRecOn generalizing a b with
  | ind n ih =>
    obtain rfl | rfl | ⟨m, rfl⟩ : n = 0 ∨ n = 8 ∨ ∃ m, n = m + 16 := by
      have hcases : n = 0 ∨ n = 8 ∨ n = n - 16 + 16 := by omega
      exact hcases.imp_right (Or.imp_right fun h => ⟨_, h⟩)
    · simp [memeqLoop]
    · simp [memeqLoop, load64_eq ha, load64_eq hb, word64_inj ha hb]
    · have hdrop : ∀ p : List UInt8, m + 16 ≤ p.length → 8 ≤ (p.drop 8).length := fun p hp => by
        rw [List.length_drop]
        omega
      rw [memeqLoop, load64_eq (by omega), load64_eq (by omega), load64_eq (hdrop a ha), load64_eq (hdrop b hb)]
      have hrest := ih m (by omega) (a := a.drop 16) (b := b.drop 16) (by omega) (by simp; omega) (by simp; omega)
      have hwords : word64 a = word64 b ∧ word64 (a.drop 8) = word64 (b.drop 8) ↔ a.take 16 = b.take 16 := by
        rw [word64_inj (by omega) (by omega), word64_inj (hdrop a ha) (hdrop b hb), ← take_add_eq_take_add]
      have hsplit : a.take (m + 16) = b.take (m + 16) ↔ a.take 16 = b.take 16 ∧
          (a.drop 16).take m = (b.drop 16).take m := by
        rw [Nat.add_comm m, take_add_eq_take_add]
      by_cases hfirst : a.take 16 = b.take 16
      · obtain ⟨hlow, hhigh⟩ := hwords.2 hfirst
        simp [hlow, hhigh, hrest, hsplit, hfirst]
      · have hne : word64 a = word64 b → ¬ word64 (a.drop 8) = word64 (b.drop 8) :=
          fun hlow hhigh => hfirst (hwords.1 ⟨hlow, hhigh⟩)
        simpa [hsplit, hfirst] using fun hlow hhigh => absurd hhigh (hne hlow)

/-- the mask of `memeq` rounds down to a multiple of 8 -/
theorem mask_eq (h : n < 2 ^ 64) : n &&& 0xfffffffffffffff8 = n / 8 * 8 := by
  have hmask : 0xfffffffffffffff8 = (2 ^ 61 - 1) * 2 ^ 3 := by norm_num
  rw [hmask, show n / 8 * 8 = n / 2 ^ 3 * 2 ^ 3 from rfl]
  refine Nat.eq_of_testBit_eq fun i => ?_
  simp only [Nat.testBit_and, Nat.testBit_mul_two_pow, Nat.testBit_two_pow_sub_one, Nat.testBit_div_two_pow]
  by_cases hi : 3 ≤ i
  · have hbit : 64 ≤ i → n.testBit i = false := fun h64 =>
      Nat.testBit_lt_two_pow (h.trans_le (Nat.pow_le_pow_right (by norm_num) h64))
    by_cases h64 : 64 ≤ i
    · simp [hi, hbit h64]
    · have : i - 3 < 61 := by omega
      simp [hi, this]
  · simp [hi]

/-- the first and the last word, and the words between, cover all bytes -/
theorem take_eq_take_iff_words (h8 : 8 ≤ n) :
    a.take n = b.take n ↔ (a.take 8 = b.take 8 ∧ (a.drop (n - 8)).take 8 = (b.drop (n - 8)).take 8) ∧
      (a.drop 8).take (n / 8 * 8 - 8) = (b.drop 8).take (n / 8 * 8 - 8) := by
  simp only [take_eq_take, List.getElem?_drop]
  constructor
  · intro h
    exact ⟨⟨fun i hi => h i (by omega), fun i hi => h (n - 8 + i) (by omega)⟩, fun i hi => h (8 + i) (by omega)⟩
  · intro ⟨⟨hfirst, hlast⟩, hmiddle⟩ i hi
    by_cases hi8 : i < 8
    · exact hfirst i hi8
    by_cases hround : i < n / 8 * 8
    · have h := hmiddle (i - 8) (by omega)
      rwa [Nat.add_sub_cancel' (not_lt.1 hi8)] at h
    · have h := hlast (i - (n - 8)) (by omega)
      rwa [Nat.add_sub_cancel' (by omega)] at h

/-- **`memeq`** compares exactly the first `n` bytes -/
theorem memeq_eq (hn : n < 2 ^ 64) (ha : n ≤ a.length) (hb : n ≤ b.length) :
    memeq a b n = some (decide (a.take n = b.take n)) := by
  unfold memeq
  rw [mask_eq hn]
  by_cases hsmall : n / 8 * 8 = 0
  · obtain ⟨r, hr, hzero⟩ := memcmp_eq_zero ha hb
    simp [hsmall, hr, hzero]
  have h8 : 8 ≤ n := by omega
  have hlast : ∀ p : List UInt8, n ≤ p.length → 8 ≤ (p.drop (n - 8)).length := fun p hp => by
    rw [List.length_drop]
    omega
  have hmiddle : ∀ p : List UInt8, n ≤ p.length → n / 8 * 8 - 8 ≤ (p.drop 8).length := fun p hp => by
    rw [List.length_drop]
    omega
  have hwords := take_eq_take_iff_words (a := a) (b := b) h8
  rw [← word64_inj (h8.trans ha) (h8.trans hb), ← word64_inj (hlast a ha) (hlast b hb)] at hwords
  have hrest : (if n / 8 * 8 - 8 > 128 then do return (← memcmp (a.drop 8) (b.drop 8) (n / 8 * 8 - 8)) = 0
      else memeqLoop (n / 8 * 8 - 8) (a.drop 8) (b.drop 8)) =
      some (decide ((a.drop 8).take (n / 8 * 8 - 8) = (b.drop 8).take (n / 8 * 8 - 8))) := by
    split_ifs
    · obtain ⟨r, hr, hzero⟩ := memcmp_eq_zero (hmiddle a ha) (hmiddle b hb)
      simp [hr, hzero]
    · exact memeqLoop_eq (by omega) (hmiddle a ha) (hmiddle b hb)
  rw [load64_eq (h8.trans ha), load64_eq (h8.trans hb), load64_eq (hlast a ha), load64_eq (hlast b hb)]
  by_cases hequal : word64 a = word64 b ∧ word64 (a.drop (n - 8)) = word64 (b.drop (n - 8))
  · simpa [hsmall, hequal.1, hequal.2, hwords] using hrest
  · simp [hsmall, hwords, hequal]

/-! ## `fastmemcmp_inlined` -/

theorem compare_byte_self (x : UInt8) : Ord.compare x x = .eq := Std.ReflCmp.compare_self

theorem compare_byte_eq {x y : UInt8} : Ord.compare x y = .eq ↔ x = y := Std.LawfulEqCmp.compare_eq_iff_eq

/-- the order of two bytes is the sign of their difference -/
theorem compare_sub (x y : UInt8) : Ord.compare ((x.toNat : ℤ) - y.toNat) 0 = Ord.compare x y := by
  have hbyte : Ord.compare x y = compareOfLessAndEq x y := rfl
  rw [hbyte, compareOfLessAndEq]
  by_cases hlt : x < y
  · have hnat : x.toNat < y.toNat := hlt
    rw [if_pos hlt, compare_lt_iff_lt]
    omega
  by_cases heq : x = y
  · rw [if_neg hlt, if_pos heq, heq, sub_self]
    rfl
  · have hle : y.toNat ≤ x.toNat := not_lt.1 hlt
    have hne : x.toNat ≠ y.toNat := fun h => heq (UInt8.toNat_inj.1 h)
    rw [if_neg hlt, if_neg heq, compare_gt_iff_gt]
    omega

theorem compare_difference (h : a.length = b.length) : Ord.compare (difference a b) 0 = Ord.compare a b := by
  induction a generalizing b with
  | nil => simp [difference, List.length_eq_zero_iff.1 h.symm]
  | cons x a ih =>
    match b, h with
    | y :: b, h =>
      rw [difference, List.compare_cons_cons]
      by_cases hxy : x = y
      · rw [if_pos hxy, ih (by simpa using h), hxy, compare_byte_self, Ordering.eq_then]
      · have hne : Ord.compare x y ≠ .eq := fun h => hxy (compare_byte_eq.1 h)
        rw [if_neg hxy, compare_sub]
        generalize Ord.compare x y = o at hne
        match o, hne with
        | .lt, _ => rfl
        | .gt, _ => rfl

/-- sequences that differ at the front are ordered there -/
theorem compare_append {p q : List UInt8} (h : p.length = q.length) (a b : List UInt8) :
    Ord.compare (p ++ a) (q ++ b) = (Ord.compare p q).then (Ord.compare a b) := by
  induction p generalizing q with
  | nil => simp [List.length_eq_zero_iff.1 h.symm]
  | cons x p ih =>
    match q, h with
    | y :: q, h =>
      rw [List.cons_append, List.cons_append, List.compare_cons_cons, List.compare_cons_cons,
        ih (by simpa using h), Ordering.then_assoc]

theorem compare_self (a : List UInt8) : Ord.compare a a = .eq := Std.ReflCmp.compare_self

/-- the routine has skipped some equal bytes of the `n` it is to compare -/
def Skipped (n : ℕ) (a b : List UInt8) (rest : Rest) : Prop :=
  ∃ k, k + rest.1 = n ∧ rest.2.1 = a.drop k ∧ rest.2.2 = b.drop k ∧ a.take k = b.take k

theorem Skipped.refl (n : ℕ) (a b : List UInt8) : Skipped n a b (n, a, b) :=
  ⟨0, Nat.zero_add n, rfl, rfl, rfl⟩

theorem Skipped.trans {rest rest' : Rest} (h : Skipped n a b rest) (h' : Skipped rest.1 rest.2.1 rest.2.2 rest') :
    Skipped n a b rest' := by
  obtain ⟨k, hk, ha, hb, heq⟩ := h
  obtain ⟨k', hk', ha', hb', heq'⟩ := h'
  rw [ha, hb] at heq'
  refine ⟨k + k', by omega, ?_, ?_, (take_add_eq_take_add k k').2 ⟨heq, heq'⟩⟩
  · rw [ha', ha, List.drop_drop]
  · rw [hb', hb, List.drop_drop]

theorem Skipped.length_le {rest : Rest} (h : Skipped n a b rest) (ha : n ≤ a.length) (hb : n ≤ b.length) :
    rest.1 ≤ rest.2.1.length ∧ rest.1 ≤ rest.2.2.length := by
  obtain ⟨k, hk, ha', hb', -⟩ := h
  rw [ha', hb', List.length_drop, List.length_drop]
  omega

theorem Skipped.compare_eq {rest : Rest} (h : Skipped n a b rest) :
    Ord.compare (a.take n) (b.take n) = Ord.compare (rest.2.1.take rest.1) (rest.2.2.take rest.1) := by
  obtain ⟨k, hk, ha, hb, heq⟩ := h
  rw [← hk, List.take_add, List.take_add, heq, compare_append rfl, compare_self, Ordering.eq_then, ha, hb]

theorem skip64_spec (ha : n ≤ a.length) (hb : n ≤ b.length) : ∃ rest, skip64 n a b = some rest ∧ Skipped n a b rest := by
  induction n using Nat.strongRecOn generalizing a b with
  | ind n ih =>
    by_cases h8 : n < 8
    · refine ⟨_, ?_, Skipped.refl n a b⟩
      rw [skip64]
      omega
    · obtain ⟨m, rfl⟩ : ∃ m, n = m + 8 := ⟨n - 8, by omega⟩
      rw [skip64, load64_eq (by omega), load64_eq (by omega)]
      by_cases hword : word64 a = word64 b
      · obtain ⟨rest, hrest, hskipped⟩ := ih m (by omega) (a := a.drop 8) (b := b.drop 8) (by simp; omega) (by simp; omega)
        have hfirst : Skipped (m + 8) a b (m, a.drop 8, b.drop 8) :=
          ⟨8, by omega, rfl, rfl, (word64_inj (by omega) (by omega)).1 hword⟩
        exact ⟨rest, by simp [hword, hrest], hfirst.trans hskipped⟩
      · exact ⟨_, by simp [hword], Skipped.refl _ a b⟩

theorem skip32_spec (ha : n ≤ a.length) (hb : n ≤ b.length) : ∃ rest, skip32 n a b = some rest ∧ Skipped n a b rest := by
  unfold skip32
  by_cases h4 : n < 4
  · exact ⟨_, by simp [h4], Skipped.refl n a b⟩
  · rw [load32_eq (by omega), load32_eq (by omega)]
    by_cases hword : word32 a = word32 b
    · have hequal : a.take 4 = b.take 4 := (word32_inj (by omega) (by omega)).1 hword
      exact ⟨(n - 4, a.drop 4, b.drop 4), by simp [h4, hword], 4, Nat.add_sub_cancel' (by omega), rfl, rfl, hequal⟩
    · exact ⟨_, by simp [h4, hword], Skipped.refl n a b⟩

theorem compareBytes_spec (ha : n ≤ a.length) (hb : n ≤ b.length) :
    compareBytes n a b = some (difference (a.take n) (b.take n)) := by
  induction n generalizing a b with
  | zero => simp [compareBytes, difference]
  | succ n ih =>
    match a, b, ha, hb with
    | x :: a, y :: b, ha, hb =>
      have hint : int32 ((x.toNat : ℤ) - y.toNat) = x.toNat - y.toNat := by
        have hx := x.toNat_lt
        have hy := y.toNat_lt
        exact int32_of_range (by omega) (by omega)
      rw [compareBytes, hint, List.take_succ_cons, List.take_succ_cons, difference]
      by_cases hxy : x = y
      · rw [if_neg (by simp [hxy]), if_pos hxy, ih (by simpa using ha) (by simpa using hb)]
      · have hne : x.toNat ≠ y.toNat := fun h => hxy (UInt8.toNat_inj.1 h)
        rw [if_pos (by omega), if_neg hxy]

theorem memcmp_spec (ha : n ≤ a.length) (hb : n ≤ b.length) :
    ∃ r, memcmp a b n = some r ∧ Ord.compare r 0 = Ord.compare (a.take n) (b.take n) :=
  ⟨_, if_pos ⟨ha, hb⟩, compare_difference (by simp [ha, hb])⟩

/-- **`fastmemcmp_inlined`** has the sign of the order of the first `n` bytes -/
theorem fastmemcmpInlined_spec (ha : n ≤ a.length) (hb : n ≤ b.length) :
    ∃ r, fastmemcmpInlined a b n = some r ∧ Ord.compare r 0 = Ord.compare (a.take n) (b.take n) := by
  unfold fastmemcmpInlined
  by_cases h64 : n ≥ 64
  · rw [if_pos h64]
    exact memcmp_spec ha hb
  obtain ⟨rest, hrest, hskipped⟩ := skip64_spec ha hb
  obtain ⟨hrestA, hrestB⟩ := hskipped.length_le ha hb
  obtain ⟨last, hlast, hskipped'⟩ := skip32_spec hrestA hrestB
  obtain ⟨hlastA, hlastB⟩ := hskipped'.length_le hrestA hrestB
  refine ⟨difference (last.2.1.take last.1) (last.2.2.take last.1), ?_, ?_⟩
  · rw [if_neg h64, hrest]
    simp only [Option.bind_eq_bind, Option.bind_some, hlast]
    exact compareBytes_spec hlastA hlastB
  · rw [compare_difference (by simp [hlastA, hlastB]), (hskipped.trans hskipped').compare_eq]

/-- a length beyond an end is not compared at all -/
theorem fastmemcmpInlined_eq_none (h64 : n ≥ 64) (h : ¬ (n ≤ a.length ∧ n ≤ b.length)) : fastmemcmpInlined a b n = none := by
  unfold fastmemcmpInlined memcmp
  rw [if_pos h64, if_neg h]

/-! ## Slices -/

variable {s t : Slice}

/-- **Prefixes**: `starts_with` is defined and right for all slices -/
theorem startsWith_eq (s x : Slice) : s.startsWith x = some (decide (x.data <+: s.data)) := by
  unfold startsWith
  by_cases h : s.size ≥ x.size
  · have hmemeq : memeq s.data x.data x.size = _ := memeq_eq x.size_lt h le_rfl
    rw [if_pos h, hmemeq]
    simp only [size, List.take_length, List.prefix_iff_eq_take, eq_comm]
  · have hnot : ¬ x.data <+: s.data := fun hprefix => h hprefix.length_le
    rw [if_neg h]
    simp [hnot]

/-- **Equality**: `operator==` is defined and right for all slices -/
theorem equals_eq (x y : Slice) : x.equals y = some (decide (x.data = y.data)) := by
  unfold equals
  by_cases h : x.size = y.size
  · have hmemeq : memeq x.data y.data x.size = _ := memeq_eq x.size_lt le_rfl h.le
    rw [if_pos h, hmemeq]
    have hx : x.data.take x.size = x.data := List.take_length
    have hy : y.data.take x.size = y.data := by rw [h, size, List.take_length]
    rw [hx, hy]
  · have hnot : ¬ x.data = y.data := fun hdata => h (congrArg List.length hdata)
    rw [if_neg h]
    simp [hnot]

/-- the common length of two slices, and how much of it is left of it as an `int` -/
def minSize (s t : Slice) : ℕ := min s.size t.size

def compared (s t : Slice) : ℕ := toSize (int32 (minSize s t))

/-- the first bytes that are compared, and then the sizes: the condition under which that is the lexicographic order. It
holds whenever the common length fits an `int`. -/
def Comparable (s t : Slice) : Prop :=
  compared s t = minSize s t ∨ compared s t < minSize s t ∧ (s.data.take (compared s t) ≠ t.data.take (compared s t) ∨
    Ord.compare (s.data.drop (compared s t)) (t.data.drop (compared s t)) = Ord.compare s.size t.size)

/-- the length is not cut, cut, or turned into a huge one -/
theorem compared_cases (s t : Slice) : compared s t ≤ minSize s t ∨ minSize s t < compared s t ∧ 64 ≤ compared s t := by
  unfold compared toSize int32
  omega

/-- the order of the sizes, where the compared bytes are equal -/
def sizeOrder (s t : Slice) (r : ℤ) : ℤ :=
  if r = 0 then (if s.size < t.size then -1 else if s.size > t.size then 1 else r) else r

theorem compare_eq_map (s t : Slice) :
    s.compare t = (fastmemcmpInlined s.data t.data (compared s t)).map (sizeOrder s t) := by
  have hmin : (if s.size < t.size then s.size else t.size) = minSize s t := by
    unfold minSize
    split_ifs with h
    · exact (min_eq_left h.le).symm
    · exact (min_eq_right (not_lt.1 h)).symm
  simp only [compare, hmin]
  exact Option.map_eq_bind.symm

theorem compare_sizeOrder (s t : Slice) (r : ℤ) :
    Ord.compare (sizeOrder s t r) 0 = (Ord.compare r 0).then (Ord.compare s.size t.size) := by
  unfold sizeOrder
  by_cases hr : r = 0
  · have hzero : Ord.compare (0 : ℤ) 0 = .eq := rfl
    rw [if_pos hr, hr, hzero, Ordering.eq_then]
    rcases lt_trichotomy s.size t.size with h | h | h
    · rw [if_pos h, compare_lt_iff_lt.2 h, compare_lt_iff_lt]
      omega
    · rw [if_neg h.not_lt, if_neg h.symm.not_lt, compare_eq_iff_eq.2 h]
      rfl
    · rw [if_neg h.not_gt, if_pos h, compare_gt_iff_gt.2 h, compare_gt_iff_gt]
      omega
  · rw [if_neg hr]
    rcases lt_or_gt_of_ne hr with h | h
    · rw [compare_lt_iff_lt.2 h, Ordering.lt_then]
    · rw [compare_gt_iff_gt.2 h, Ordering.gt_then]

/-- a sequence that ends where another one goes on comes first -/
theorem compare_drop_minSize (s t : Slice) :
    Ord.compare (s.data.drop (minSize s t)) (t.data.drop (minSize s t)) = Ord.compare s.size t.size := by
  rcases lt_trichotomy s.size t.size with h | h | h
  · have hs : s.data.drop (minSize s t) = [] := List.drop_eq_nil_of_le (le_min le_rfl h.le)
    obtain ⟨y, l, ht⟩ : ∃ y l, t.data.drop (minSize s t) = y :: l := by
      refine List.exists_cons_of_length_pos ?_
      rw [List.length_drop]
      exact Nat.sub_pos_of_lt ((min_le_left _ _).trans_lt h)
    rw [hs, ht, List.compare_nil_cons, compare_lt_iff_lt.2 h]
  · have hs : s.data.drop (minSize s t) = [] := List.drop_eq_nil_of_le (le_min le_rfl h.le)
    have ht : t.data.drop (minSize s t) = [] := List.drop_eq_nil_of_le (le_min h.ge le_rfl)
    rw [hs, ht, compare_self, compare_eq_iff_eq.2 h]
  · have ht : t.data.drop (minSize s t) = [] := List.drop_eq_nil_of_le (le_min h.le le_rfl)
    obtain ⟨x, l, hs⟩ : ∃ x l, s.data.drop (minSize s t) = x :: l := by
      refine List.exists_cons_of_length_pos ?_
      rw [List.length_drop]
      exact Nat.sub_pos_of_lt ((min_le_right _ _).trans_lt h)
    rw [hs, ht, List.compare_cons_nil, compare_gt_iff_gt.2 h]

/-- two slices are ordered as their bytes, a proper prefix first; equality and prefixes agree with that -/
structure Lexicographic (s t : Slice) : Prop where
  compare : ∃ r, s.compare t = some r ∧ Ord.compare r 0 = Ord.compare s.data t.data
  equals : s.compare t = some 0 ↔ s.equals t = some true
  startsWith : s.startsWith t = some true ↔ t.data <+: s.data

theorem compare_eq {p q : List UInt8} : Ord.compare p q = .eq ↔ p = q := Std.LawfulEqCmp.compare_eq_iff_eq

theorem then_eq_then {o p q : Ordering} : o.then p = o.then q ↔ ¬ o = .eq ∨ p = q := by
  match o with
  | .lt | .gt => simp
  | .eq => simp

/-- the sign of `compare` is right exactly for slices that are comparable -/
theorem compare_exact (s t : Slice) :
    (∃ r, s.compare t = some r ∧ Ord.compare r 0 = Ord.compare s.data t.data) ↔ Comparable s t := by
  rw [compare_eq_map]
  rcases compared_cases s t with hle | ⟨hgt, h64⟩
  · have hs : compared s t ≤ s.data.length := hle.trans (min_le_left _ _)
    have ht : compared s t ≤ t.data.length := hle.trans (min_le_right _ _)
    obtain ⟨r, hr, horder⟩ := fastmemcmpInlined_spec hs ht
    have hlength : (s.data.take (compared s t)).length = (t.data.take (compared s t)).length := by simp [hs, ht]
    have hdata : Ord.compare s.data t.data = (Ord.compare (s.data.take (compared s t)) (t.data.take (compared s t))).then
        (Ord.compare (s.data.drop (compared s t)) (t.data.drop (compared s t))) := by
      rw [← compare_append hlength, List.take_append_drop, List.take_append_drop]
    rw [hr, Option.map_some]
    simp only [Option.some.injEq, exists_eq_left', compare_sizeOrder, horder, hdata]
    by_cases hm : compared s t = minSize s t
    · exact iff_of_true (by rw [hm, compare_drop_minSize]) (Or.inl hm)
    · have hlt : compared s t < minSize s t := lt_of_le_of_ne hle hm
      rw [then_eq_then, compare_eq, eq_comm (a := Ord.compare s.size t.size)]
      exact ⟨fun h => Or.inr ⟨hlt, h⟩, fun h => (h.resolve_left hm).2⟩
  · rw [fastmemcmpInlined_eq_none h64 fun h => absurd (le_min h.1 h.2) (not_le.2 hgt)]
    refine iff_of_false (by simp) ?_
    rintro (h | ⟨h, -⟩)
    · exact hgt.ne' h
    · exact hgt.not_gt h

theorem lexicographic_iff (s t : Slice) : Lexicographic s t ↔ Comparable s t := by
  refine ⟨fun h => (compare_exact s t).1 h.compare, fun h => ?_⟩
  obtain ⟨r, hr, horder⟩ := (compare_exact s t).2 h
  refine ⟨⟨r, hr, horder⟩, ?_, by simp [startsWith_eq]⟩
  calc s.compare t = some 0 ↔ Ord.compare r 0 = .eq := by rw [hr, Option.some.injEq, compare_eq_iff_eq]
    _ ↔ s.data = t.data := by rw [horder, compare_eq]
    _ ↔ s.equals t = some true := by simp [equals_eq]

/-- an order for the keys of a map: any two different keys are ordered one way -/
structure KeyOrder (keys : Set Slice) : Prop where
  irrefl : ∀ s ∈ keys, ¬ Less s s
  trans : ∀ s ∈ keys, ∀ t ∈ keys, ∀ u ∈ keys, Less s t → Less t u → Less s u
  total : ∀ s ∈ keys, ∀ t ∈ keys, s = t ∨ Less s t ∨ Less t s

theorem less_iff (h : Comparable s t) : Less s t ↔ Ord.compare s.data t.data = .lt := by
  obtain ⟨r, hr, horder⟩ := (compare_exact s t).2 h
  rw [← horder, compare_lt_iff_lt]
  constructor
  · intro ⟨r', hneg, hr'⟩
    rw [hr, Option.some.injEq] at hr'
    rwa [hr']
  · intro hneg
    exact ⟨r, hneg, hr⟩

theorem keyOrder {keys : Set Slice} (h : ∀ s ∈ keys, ∀ t ∈ keys, Comparable s t) : KeyOrder keys where
  irrefl s hs := by
    rw [less_iff (h s hs s hs), compare_self]
    exact Ordering.noConfusion
  trans s hs t ht u hu := by
    rw [less_iff (h s hs t ht), less_iff (h t ht u hu), less_iff (h s hs u hu)]
    exact Std.TransCmp.lt_trans
  total s hs t ht := by
    rw [less_iff (h s hs t ht), less_iff (h t ht s hs)]
    have hswap : Ord.compare t.data s.data = (Ord.compare s.data t.data).swap := Std.OrientedCmp.eq_swap
    rw [hswap]
    match hst : Ord.compare s.data t.data with
    | .lt => exact Or.inr (Or.inl rfl)
    | .gt => exact Or.inr (Or.inr rfl)
    | .eq =>
      have hdata := compare_eq.1 hst
      obtain ⟨data, _⟩ := s
      obtain ⟨data', _⟩ := t
      exact Or.inl (by simpa using hdata)

/-- **The order of slices.** `compare` orders two slices as their byte sequences, and agrees with equality, exactly when
they are comparable, as all are whose common length is below 2^31; on slices that are it is an order for keys. -/
theorem lexicographic_exact (s t : Slice) (keys : Set Slice) :
    (Lexicographic s t ↔ Comparable s t) ∧ ((∀ s ∈ keys, ∀ t ∈ keys, Comparable s t) → KeyOrder keys) :=
  ⟨lexicographic_iff s t, keyOrder⟩

/-- 2^32 times the same byte -/
def uniform (x : UInt8) : Slice := ⟨List.replicate (2 ^ 32) x, by rw [List.length_replicate]; norm_num⟩

/-- **Slices that differ and compare equal**: the length 2^32 becomes 0 -/
theorem lexicographic_broken : ¬ Lexicographic (uniform 0) (uniform 1) := by
  have hsize : ∀ x, (uniform x).size = 2 ^ 32 := fun x => List.length_replicate
  have hzero : compared (uniform 0) (uniform 1) = 0 := by
    unfold compared minSize toSize int32
    rw [hsize, hsize]
    norm_num
  have hcompare : (uniform 0).compare (uniform 1) = some 0 := by
    rw [compare_eq_map, hzero]
    simp [fastmemcmpInlined, skip64, skip32, compareBytes, sizeOrder, hsize]
  intro h
  have hequal : (uniform 0).data = (uniform 1).data := by
    have := h.equals.1 hcompare
    rwa [equals_eq, Option.some.injEq, decide_eq_true_iff] at this
  have hmem : (0 : UInt8) ∈ (uniform 1).data := hequal ▸ List.mem_replicate.2 ⟨by norm_num, rfl⟩
  exact absurd (List.eq_of_mem_replicate hmem) (by decide)

end Slice
end Bboy
