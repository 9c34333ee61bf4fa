/-
Lean model of the base64 encoder and decoder (`bboy/gbase/strings/escaping.cc`), for both alphabets.

The decoder has a fast loop over four characters at a time, which falls back to single characters where one of them is not a
digit, a second loop for what is left, and a check of the equals signs. `unbase64[]` is indexed by a `char`, which is signed:
a byte from 128 on reads outside of the table. The lengths are below 2^31, as the parameters are `int`. The loop that only
counts, for a null destination, is left out: the callers pass one only for an empty text.

- `Alphabet`: a table of characters with the table of digits that inverts it.
- `plain`: what base64 means, one character at a time: digits and white space up to the first equals sign, then the right
  number of equals signs or none.
- `unescape_exact`: the decoder is `plain` on every text of ASCII characters without NUL, and its buffer is large enough.
- `round_trip`: what was escaped is unescaped to the same bytes, with either alphabet, with or without padding, also when
  white space was put in; the encoder's buffer has exactly the size of the text.
Witness: `unescape_exact_spaces`.
-/
import Bboy.Core.Base64

namespace Bboy.Base64

open Core Core.Base64

/-! ## Alphabets -/

def kPad64 : UInt8 := 61

/-- the white space of `kAsciiPropertyBits` -/
def asciiIsspace (c : UInt8) : Bool := c = 32 ∨ (9 ≤ c ∧ c ≤ 13)

/-- `chars` are the characters of the digits, `unbase64` the digits of the characters -/
structure Alphabet where
  chars : List UInt8
  unbase64 : List ℤ
  length_chars : chars.length = 64
  nodup : chars.Nodup
  data : ∀ c ∈ chars, 0 < c.toNat ∧ c.toNat < 128 ∧ c ≠ kPad64 ∧ asciiIsspace c = false
  inverse : ∀ n < 128, unbase64[n]? = some ((chars.idxOf? (UInt8.ofNat n)).elim (-1) Nat.cast)

def ascii (text : List Char) : List UInt8 := text.map fun c => UInt8.ofNat c.toNat

/-- what both strings begin with -/
def alphanumeric : List Char :=
  ['A', 'B', 'C', 'D', 'E', 'F', 'G', 'H', 'I', 'J', 'K', 'L', 'M', 'N', 'O', 'P', 'Q', 'R', 'S', 'T',
   'U', 'V', 'W', 'X', 'Y', 'Z',
   'a', 'b', 'c', 'd', 'e', 'f', 'g', 'h', 'i', 'j', 'k', 'l', 'm', 'n', 'o', 'p', 'q', 'r', 's', 't',
   'u', 'v', 'w', 'x', 'y', 'z',
   '0', '1', '2', '3', '4', '5', '6', '7', '8', '9']

def kBase64Chars : List UInt8 := ascii (alphanumeric ++ ['+', '/'])

def kWebSafeBase64Chars : List UInt8 := ascii (alphanumeric ++ ['-', '_'])

def kUnBase64 : List ℤ :=
  [-1, -1, -1, -1, -1, -1, -1, -1, -1, -1, -1, -1, -1, -1, -1, -1,
   -1, -1, -1, -1, -1, -1, -1, -1, -1, -1, -1, -1, -1, -1, -1, -1,
   -1, -1, -1, -1, -1, -1, -1, -1, -1, -1, -1, 62, -1, -1, -1, 63,
   52, 53, 54, 55, 56, 57, 58, 59, 60, 61, -1, -1, -1, -1, -1, -1,
   -1,  0,  1,  2,  3,  4,  5,  6, 07,  8,  9, 10, 11, 12, 13, 14,
   15, 16, 17, 18, 19, 20, 21, 22, 23, 24, 25, -1, -1, -1, -1, -1,
   -1, 26, 27, 28, 29, 30, 31, 32, 33, 34, 35, 36, 37, 38, 39, 40,
   41, 42, 43, 44, 45, 46, 47, 48, 49, 50, 51, -1, -1, -1, -1, -1] ++ List.replicate 128 (-1)

def kUnWebSafeBase64 : List ℤ :=
  [-1, -1, -1, -1, -1, -1, -1, -1, -1, -1, -1, -1, -1, -1, -1, -1,
   -1, -1, -1, -1, -1, -1, -1, -1, -1, -1, -1, -1, -1, -1, -1, -1,
   -1, -1, -1, -1, -1, -1, -1, -1, -1, -1, -1, -1, -1, 62, -1, -1,
   52, 53, 54, 55, 56, 57, 58, 59, 60, 61, -1, -1, -1, -1, -1, -1,
   -1,  0,  1,  2,  3,  4,  5,  6, 07,  8,  9, 10, 11, 12, 13, 14,
   15, 16, 17, 18, 19, 20, 21, 22, 23, 24, 25, -1, -1, -1, -1, 63,
   -1, 26, 27, 28, 29, 30, 31, 32, 33, 34, 35, 36, 37, 38, 39, 40,
   41, 42, 43, 44, 45, 46, 47, 48, 49, 50, 51, -1, -1, -1, -1, -1] ++ List.replicate 128 (-1)

def base64 : Alphabet where
  chars := kBase64Chars
  unbase64 := kUnBase64
  length_chars := by decide +kernel
  nodup := by decide +kernel
  data := by decide +kernel
  inverse := by decide +kernel

def webSafeBase64 : Alphabet where
  chars := kWebSafeBase64Chars
  unbase64 := kUnWebSafeBase64
  length_chars := by decide +kernel
  nodup := by decide +kernel
  data := by decide +kernel
  inverse := by decide +kernel

/-! ## The decoder -/

/-- `return -1`, or a read outside of the table -/
inductive Failure where
  | rejected
  | outOfTable
  deriving DecidableEq, Repr

abbrev Decode (α : Type) := Except Failure α

/-- unbase64[ch] -/
def lookup (A : Alphabet) (ch : UInt8) : Decode ℤ :=
  if ch.toNat < 128 then .ok (A.unbase64.getD ch.toNat 0) else .error .outOfTable

/-- the variables of `Base64UnescapeInternal`; `dest` is what was written, `src` what is left -/
structure Scan where
  src : List UInt8
  decode : ℤ
  ch : UInt8
  temp : BitVec 32
  state : ℕ
  dest : List UInt8
  deriving DecidableEq, Repr

/-- `GET_INPUT`: the digit, or -1 for the `break`, the character and the rest -/
def getInput (A : Alphabet) (remain : ℕ) : List UInt8 → Decode (ℤ × UInt8 × List UInt8)
  | [] => .error .outOfTable
  | ch :: src => do
    let decode ← lookup A ch
    if decode < 0 ∧ asciiIsspace ch ∧ remain ≤ src.length then getInput A remain src else .ok (decode, ch, src)

def word (decode : ℤ) : BitVec 32 := BitVec.ofInt 32 decode

/-- the calls of `GET_INPUT` from the one with `remain` on, and whether the loop goes on behind them -/
def quartet (A : Alphabet) : ℕ → Scan → Decode (Bool × Scan)
  | 0, s => .ok (true, s)
  | remain + 1, s => do
    let (decode, ch, src) ← getInput A (remain + 1) s.src
    let s := { s with src, decode, ch }
    if decode < 0 then .ok (false, { s with state := 4 - (remain + 1) })
    else quartet A remain { s with temp := if remain + 1 = 4 then word decode else s.temp <<< 6 ||| word decode }

/-- the test for four digits; `temp` is assigned when no character was NUL -/
def fourDigits (A : Alphabet) (a b c d : UInt8) (temp : BitVec 32) : Decode (Bool × BitVec 32) :=
  if a = 0 ∨ b = 0 ∨ c = 0 then .ok (false, temp)
  else do
    let first ← lookup A a
    let second ← lookup A b
    let third ← lookup A c
    let fourth ← lookup A d
    let temp := word first <<< 18 ||| word second <<< 12 ||| word third <<< 6 ||| word fourth
    .ok (!temp.msb, temp)

/-- the 24 bits of `temp`, written as three bytes -/
def writeThree (szdest : ℕ) (s : Scan) : Decode Scan :=
  if szdest < s.dest.length + 3 then .error .rejected
  else .ok { s with dest := s.dest ++ threeBytes s.temp.toNat, temp := s.temp >>> 16 }

/-- four characters at once, or one by one -/
def readGroup (A : Alphabet) (a b c d : UInt8) (rest : List UInt8) (s : Scan) : Decode (Bool × Scan) := do
  let (good, temp) ← fourDigits A a b c d s.temp
  if good then .ok (true, { s with src := rest, temp, decode := -1, ch := 0 }) else quartet A 4 { s with temp }

/-- the fast loop, of at most `szsrc / 4` turns -/
def pump (A : Alphabet) (szdest : ℕ) : ℕ → Scan → Decode Scan
  | 0, s => .ok s
  | turns + 1, s =>
    match s.src with
    | a :: b :: c :: d :: rest => do
      let r ← readGroup A a b c d rest s
      if r.1 then writeThree szdest r.2 >>= pump A szdest turns else .ok r.2
    | _ => .ok s

/-- the second loop -/
def cleanup (A : Alphabet) (szdest : ℕ) : List UInt8 → Scan → Decode Scan
  | [], s => .ok { s with src := [] }
  | ch :: src, s => do
    let decode ← lookup A ch
    if decode < 0 then
      if asciiIsspace ch then cleanup A szdest src s
      else if ch = 0 then .ok { s with src }
      -- back up one character
      else if ch = kPad64 then .ok { s with src := ch :: src }
      else .error .rejected
    else
      let s := { s with temp := s.temp <<< 6 ||| word decode, state := s.state + 1 }
      if s.state = 4 then do
        let s ← writeThree szdest s
        cleanup A szdest src { s with state := 0, temp := 0 }
      else cleanup A szdest src s

/-- the data left over in `temp`, and `expected_equals` -/
def leftover (szdest : ℕ) (s : Scan) : Decode (List UInt8 × ℕ) :=
  match s.state with
  | 0 => .ok (s.dest, 0)
  | 2 =>
    if szdest < s.dest.length + 1 then .error .rejected else .ok (s.dest ++ [UInt8.ofNat (s.temp.toNat / 16)], 2)
  | 3 =>
    if szdest < s.dest.length + 2 then .error .rejected
    else .ok (s.dest ++ [UInt8.ofNat (s.temp.toNat / 1024), UInt8.ofNat (s.temp.toNat / 4)], 1)
  -- 6 bits left over
  | _ => .error .rejected

/-- the equals signs at the end -/
def countEquals : List UInt8 → ℕ → Decode ℕ
  | [], equals => .ok equals
  | ch :: src, equals =>
    if ch = 0 then .ok equals
    else if ch = kPad64 then countEquals src (equals + 1)
    else if asciiIsspace ch then countEquals src equals
    else .error .rejected

def finish (szdest : ℕ) (s : Scan) : Decode (List UInt8) := do
  let (dest, expectedEquals) ← leftover szdest s
  let equals ← countEquals s.src 0
  if equals = 0 ∨ equals = expectedEquals then .ok dest else .error .rejected

/-- what follows the fast loop -/
def afterPump (A : Alphabet) (szdest : ℕ) (s : Scan) : Decode (List UInt8) :=
  if s.decode < 0 ∧ s.ch ≠ 0 ∧ s.ch ≠ kPad64 ∧ asciiIsspace s.ch = false then .error .rejected
  -- stopped by an equals sign, which is read again
  else if s.ch = kPad64 then finish szdest { s with src := kPad64 :: s.src }
  else cleanup A szdest s.src s >>= finish szdest

/-- `Base64UnescapeInternal` into a buffer of `szdest` bytes -/
def base64UnescapeInternal (A : Alphabet) (src : List UInt8) (szdest : ℕ) : Decode (List UInt8) :=
  pump A szdest (src.length / 4) ⟨src, 0, 0, 0, 0, []⟩ >>= afterPump A szdest

/-- the string versions, `Base64Unescape` and `WebSafeBase64Unescape`: the result and `*dest` -/
def base64Unescape (A : Alphabet) (src : List UInt8) : Option (Bool × List UInt8) :=
  match base64UnescapeInternal A src (3 * (src.length / 4) + src.length % 4) with
  | .ok dest => some (true, dest)
  | .error .rejected => some (false, [])
  | .error .outOfTable => none

/-! ## The encoder -/

/-- base64[index] -/
def Alphabet.char (A : Alphabet) (index : ℕ) : UInt8 := A.chars.getD index 0

/-- the digit of a character -/
def Alphabet.digit (A : Alphabet) (c : UInt8) : Option ℕ := A.chars.idxOf? c

/-- the number of equals signs behind some digits -/
def padding (digits : ℕ) : ℕ := if digits % 4 = 2 then 2 else if digits % 4 = 3 then 1 else 0

/-- a character in front of the equals signs -/
def Alphabet.isBody (A : Alphabet) (c : UInt8) : Bool := (A.digit c).isSome || asciiIsspace c

/-- a character from the equals signs on -/
def isEnding (c : UInt8) : Bool := c = kPad64 || asciiIsspace c

/-- the bytes of a text behind the digits `ds`: digits and white space up to the first equals sign, white space and the
right number of equals signs, or none, from there on -/
def plain (A : Alphabet) (ds : List ℕ) (text : List UInt8) : Option (List UInt8) :=
  let body := text.takeWhile (· ≠ kPad64)
  let ending := text.dropWhile (· ≠ kPad64)
  let all := ds ++ body.filterMap A.digit
  if body.all A.isBody ∧ ending.all isEnding ∧
      (ending.count kPad64 = 0 ∨ ending.count kPad64 = padding all.length) then bytes all
  else none

/-- an ASCII character other than NUL -/
def Ascii (c : UInt8) : Prop := 0 < c.toNat ∧ c.toNat < 128

instance (c : UInt8) : Decidable (Ascii c) := inferInstanceAs (Decidable (_ ∧ _))

variable {A : Alphabet} {c : UInt8} {d szdest remain : ℕ} {ds group : List ℕ} {text src : List UInt8} {s : Scan}
  {temp : BitVec 32}

theorem digit_lt (h : A.digit c = some d) : d < 64 := by
  rw [Alphabet.digit, List.idxOf?, List.findIdx?_eq_some_iff_getElem] at h
  obtain ⟨hlt, -⟩ := h
  rwa [A.length_chars] at hlt

theorem digit_pad : A.digit kPad64 = none := by
  rw [Alphabet.digit, List.idxOf?_eq_none_iff]
  exact fun h => (A.data _ h).2.2.1 rfl

theorem digit_space (h : asciiIsspace c = true) : A.digit c = none := by
  rw [Alphabet.digit, List.idxOf?_eq_none_iff]
  intro hmem
  rw [(A.data c hmem).2.2.2] at h
  cases h

theorem space_ne_pad (h : asciiIsspace c = true) : c ≠ kPad64 := by
  rintro rfl
  revert h
  decide

theorem Ascii.ne_nul (h : Ascii c) : c ≠ 0 := by
  rintro rfl
  exact absurd h.1 (by decide)

theorem lookup_eq (h : c.toNat < 128) : lookup A c = .ok ((A.digit c).elim (-1) Nat.cast) := by
  have hget := A.inverse c.toNat h
  rw [UInt8.ofNat_toNat] at hget
  rw [lookup, if_pos h, List.getD_eq_getElem?_getD, hget]
  rfl

theorem plain_cons (hc : c ≠ kPad64) (ds : List ℕ) (text : List UInt8) :
    plain A ds (c :: text) = if A.isBody c then plain A (ds ++ (A.digit c).toList) text else none := by
  have htake : (c :: text).takeWhile (· ≠ kPad64) = c :: text.takeWhile (· ≠ kPad64) := by simp [hc]
  have hdrop : (c :: text).dropWhile (· ≠ kPad64) = text.dropWhile (· ≠ kPad64) := by simp [hc]
  have hdigits : ds ++ (c :: text.takeWhile (· ≠ kPad64)).filterMap A.digit =
      ds ++ (A.digit c).toList ++ (text.takeWhile (· ≠ kPad64)).filterMap A.digit := by
    cases hd : A.digit c <;> simp [hd]
  simp only [plain, htake, hdrop, hdigits, List.all_cons, Bool.and_eq_true]
  by_cases hbody : A.isBody c = true
  · simp only [hbody, true_and, if_true]
  · simp only [hbody, false_and, if_false, Bool.false_eq_true]

theorem plain_digit (h : A.digit c = some d) (ds : List ℕ) (text : List UInt8) :
    plain A ds (c :: text) = plain A (ds ++ [d]) text := by
  have hc : c ≠ kPad64 := by
    rintro rfl
    cases h.symm.trans digit_pad
  rw [plain_cons hc, if_pos (by rw [Alphabet.isBody, h]; rfl), h]
  rfl

theorem plain_space (h : asciiIsspace c = true) (ds : List ℕ) (text : List UInt8) :
    plain A ds (c :: text) = plain A ds text := by
  rw [plain_cons (space_ne_pad h), if_pos (by rw [Alphabet.isBody, h, Bool.or_true]), digit_space h]
  simp

theorem plain_bad (hd : A.digit c = none) (hs : asciiIsspace c = false) (hc : c ≠ kPad64) (ds : List ℕ)
    (text : List UInt8) : plain A ds (c :: text) = none := by
  rw [plain_cons hc, if_neg (by simp [Alphabet.isBody, hd, hs])]

/-- a group of four digits is three bytes -/
theorem plain_group (h : group.length = 4) (ds : List ℕ) (text : List UInt8) :
    plain A (group ++ ds) text = (plain A ds text).map (threeBytes (value group) ++ ·) := by
  have hpadding : ∀ l : List ℕ, padding (group ++ l).length = padding l.length := by
    intro l
    rw [padding, padding, List.length_append, h, Nat.add_mod_left]
  simp only [plain, List.append_assoc, hpadding, bytes_group h]
  split_ifs <;> rfl

/-- from an equals sign on -/
theorem plain_end (hend : text.takeWhile (· ≠ kPad64) = []) (ds : List ℕ) :
    plain A ds text =
      if text.all isEnding ∧ (text.count kPad64 = 0 ∨ text.count kPad64 = padding ds.length) then bytes ds
      else none := by
  have hdrop : text.dropWhile (· ≠ kPad64) = text := by
    have h := @List.takeWhile_append_dropWhile _ (· ≠ kPad64) text
    rwa [hend, List.nil_append] at h
  simp only [plain, hend, hdrop, List.filterMap_nil, List.append_nil, List.all_nil, true_and]

/-! ## The decoder is exact -/

/-- the digits that `temp` holds, below whatever is left of earlier ones -/
def Holds (temp : BitVec 32) (ds : List ℕ) : Prop := (∀ d ∈ ds, d < 64) ∧ temp.toNat % 64 ^ ds.length = value ds

theorem holds_nil (temp : BitVec 32) : Holds temp [] := ⟨by simp, by simp [value, Nat.mod_one]⟩

theorem word_toNat (h : d < 64) : (word d).toNat = d := by
  rw [word, BitVec.ofInt_natCast, BitVec.toNat_ofNat]
  omega

theorem shift_word (h : d < 64) (temp : BitVec 32) :
    (temp <<< 6 ||| word d).toNat = temp.toNat % 2 ^ 26 * 64 + d := by
  have hshift : temp.toNat <<< 6 % 2 ^ 32 = (temp.toNat % 2 ^ 26) <<< 6 := by
    rw [Nat.shiftLeft_eq, Nat.shiftLeft_eq]
    omega
  rw [BitVec.toNat_or, BitVec.toNat_shiftLeft, word_toNat h, hshift, ← Nat.shiftLeft_add_eq_or_of_lt h, Nat.shiftLeft_eq]

theorem Holds.push (h : Holds temp ds) (hd : d < 64) (hlen : ds.length < 4) :
    Holds (temp <<< 6 ||| word d) (ds ++ [d]) := by
  refine ⟨fun e he => ?_, ?_⟩
  · rcases List.mem_append.1 he with he | he
    · exact h.1 e he
    · rwa [List.mem_singleton.1 he]
  · have htemp := h.2
    rw [shift_word hd, value_concat, ← htemp, List.length_append, List.length_singleton]
    generalize ds.length = k at *
    interval_cases k <;> omega

theorem Holds.threeBytes (h : Holds temp ds) (hlen : ds.length = 4) : threeBytes temp.toNat = threeBytes (value ds) := by
  have htemp := h.2
  have hvalue := value_lt h.1
  rw [hlen] at htemp hvalue
  exact threeBytes_congr (by omega)

/-- the result of a decoder that has written `dest` -/
def outcome (dest : List UInt8) : Option (List UInt8) → Decode (List UInt8)
  | some bytes => .ok (dest ++ bytes)
  | none => .error .rejected

theorem outcome_map (dest front : List UInt8) (o : Option (List UInt8)) :
    outcome (dest ++ front) o = outcome dest (o.map (front ++ ·)) := by
  cases o with
  | none => rfl
  | some bytes => rw [outcome, List.append_assoc]; rfl

theorem countEquals_eq (hascii : ∀ c ∈ src, Ascii c) (n : ℕ) :
    countEquals src n = if src.all isEnding then .ok (n + src.count kPad64) else .error .rejected := by
  induction src generalizing n with
  | nil => rfl
  | cons c src ih =>
    obtain ⟨hc, hrest⟩ := List.forall_mem_cons.1 hascii
    rw [countEquals, if_neg hc.ne_nul, List.all_cons]
    by_cases hpad : c = kPad64
    · have hending : isEnding c = true := by rw [hpad]; rfl
      have hcount : n + 1 + src.count kPad64 = n + (c :: src).count kPad64 := by
        rw [hpad, List.count_cons_self]
        omega
      rw [if_pos hpad, ih hrest, hending, Bool.true_and, hcount]
    · rw [List.count_cons_of_ne hpad, if_neg hpad]
      by_cases hspace : asciiIsspace c = true
      · have hending : isEnding c = true := by rw [isEnding, hspace, Bool.or_true]
        rw [if_pos hspace, ih hrest, hending, Bool.true_and]
      · have hending : isEnding c = false := by simp [isEnding, hspace, hpad]
        rw [if_neg hspace, hending, Bool.false_and]
        rfl

/-- the digits left over, fewer than four -/
theorem leftover_eq (hholds : Holds s.temp ds) (hlen : ds.length < 4) (hstate : s.state = ds.length)
    (hroom : s.dest.length + ds.length ≤ szdest) :
    leftover szdest s = (outcome s.dest (bytes ds)).map fun dest => (dest, padding ds.length) := by
  have htemp := hholds.2
  rw [leftover, hstate]
  match ds, hlen with
  | [], _ => rw [bytes, outcome, List.append_nil]; rfl
  | [a], _ => rfl
  | [a, b], _ =>
    have hbits : s.temp.toNat / 16 % 256 = value [a, b] / 16 % 256 := by
      rw [← htemp, List.length_cons, List.length_singleton]
      omega
    simp only [List.length_cons, List.length_nil] at hroom ⊢
    rw [if_neg (by omega), ofNat_congr hbits]
    rfl
  | [a, b, c], _ =>
    have hfirst : s.temp.toNat / 1024 % 256 = value [a, b, c] / 1024 % 256 := by
      rw [← htemp]
      simp only [List.length_cons, List.length_nil]
      omega
    have hsecond : s.temp.toNat / 4 % 256 = value [a, b, c] / 4 % 256 := by
      rw [← htemp]
      simp only [List.length_cons, List.length_nil]
      omega
    simp only [List.length_cons, List.length_nil] at hroom ⊢
    rw [if_neg (by omega), ofNat_congr hfirst, ofNat_congr hsecond]
    rfl

/-- the text ends, or an equals sign comes: what is left is checked -/
theorem finish_eq (hascii : ∀ c ∈ s.src, Ascii c) (hend : s.src.takeWhile (· ≠ kPad64) = []) (hholds : Holds s.temp ds)
    (hlen : ds.length < 4) (hstate : s.state = ds.length) (hroom : s.dest.length + ds.length ≤ szdest) :
    finish szdest s = outcome s.dest (plain A ds s.src) := by
  rw [plain_end hend, finish, leftover_eq hholds hlen hstate hroom, countEquals_eq hascii, zero_add]
  by_cases hspaces : s.src.all isEnding = true
  · by_cases hcount : s.src.count kPad64 = 0 ∨ s.src.count kPad64 = padding ds.length
    · rw [if_pos hspaces, if_pos ⟨hspaces, hcount⟩]
      cases bytes ds with
      | none => rfl
      | some data => exact if_pos hcount
    · rw [if_pos hspaces, if_neg fun h => hcount h.2]
      cases bytes ds with
      | none => rfl
      | some data => exact if_neg hcount
  · rw [if_neg hspaces, if_neg fun h => hspaces h.1]
    cases bytes ds <;> rfl

/-- the buffer that `n` characters need at most -/
def room (n : ℕ) : ℕ := 3 * (n / 4) + n % 4

theorem cleanup_other (hc : Ascii c) (hd : A.digit c = none) :
    cleanup A szdest (c :: src) s =
      if asciiIsspace c then cleanup A szdest src s
      else if c = kPad64 then .ok { s with src := c :: src }
      else .error .rejected := by
  rw [cleanup, lookup_eq hc.2, hd]
  exact congrArg (fun r => if asciiIsspace c then cleanup A szdest src s else r) (if_neg hc.ne_nul)

/-- a digit goes to `temp` -/
def Scan.push (s : Scan) (d : ℕ) : Scan := { s with temp := s.temp <<< 6 ||| word d, state := s.state + 1 }

theorem cleanup_digit (hc : Ascii c) (hd : A.digit c = some d) :
    cleanup A szdest (c :: src) s =
      if s.state + 1 = 4 then
        writeThree szdest (s.push d) >>= fun s => cleanup A szdest src { s with state := 0, temp := 0 }
      else cleanup A szdest src (s.push d) := by
  have hneg : ¬ ((some d).elim (-1) Nat.cast : ℤ) < 0 := not_lt.2 (Int.natCast_nonneg d)
  rw [cleanup, lookup_eq hc.2, hd]
  simp only [bind, Except.bind, if_neg hneg]
  rfl

theorem writeThree_eq (hholds : Holds s.temp ds) (hlen : ds.length = 4) (hroom : s.dest.length + 3 ≤ szdest) :
    writeThree szdest s = .ok { s with dest := s.dest ++ threeBytes (value ds), temp := s.temp >>> 16 } := by
  rw [writeThree, if_neg (by omega), hholds.threeBytes hlen]

/-- the second loop, from any digits on -/
theorem cleanup_eq (hascii : ∀ c ∈ src, Ascii c) (hholds : Holds s.temp ds) (hlen : ds.length < 4)
    (hstate : s.state = ds.length) (hroom : s.dest.length + room (ds.length + src.length) ≤ szdest) :
    (cleanup A szdest src s >>= finish szdest) = outcome s.dest (plain A ds src) := by
  induction src generalizing s ds with
  | nil =>
    have hroom : s.dest.length + ds.length ≤ szdest := by
      rw [room, List.length_nil] at hroom
      omega
    exact @finish_eq A szdest ds { s with src := [] } (by simp) rfl hholds hlen hstate hroom
  | cons c src ih =>
    obtain ⟨hc, hrest⟩ := List.forall_mem_cons.1 hascii
    rw [room, List.length_cons] at hroom
    cases hd : A.digit c with
    | none =>
      rw [cleanup_other hc hd]
      by_cases hspace : asciiIsspace c = true
      · rw [if_pos hspace, plain_space hspace]
        exact ih hrest hholds hlen hstate (by rw [room]; omega)
      · by_cases hpad : c = kPad64
        · rw [if_neg hspace, if_pos hpad]
          refine @finish_eq A szdest ds { s with src := c :: src } hascii ?_ hholds hlen hstate (by dsimp only; omega)
          simp [hpad]
        · rw [if_neg hspace, if_neg hpad, plain_bad hd (by simpa using hspace) hpad]
          rfl
    | some d =>
      rw [cleanup_digit hc hd, plain_digit hd]
      have hpush : Holds (s.push d).temp (ds ++ [d]) := hholds.push (digit_lt hd) hlen
      have hlength : (ds ++ [d]).length = ds.length + 1 := by simp
      by_cases hfull : s.state + 1 = 4
      · have hfour : (ds ++ [d]).length = 4 := by omega
        have hwrite := @writeThree_eq szdest (ds ++ [d]) (s.push d) hpush hfour (by simp only [Scan.push]; omega)
        have hgroup := @plain_group A (ds ++ [d]) hfour [] src
        rw [List.append_nil] at hgroup
        rw [if_pos hfull, hwrite, hgroup, ← outcome_map]
        refine ih hrest (holds_nil 0) (by simp) rfl ?_
        simp only [Scan.push, List.length_append, Core.Base64.threeBytes, List.length_cons, List.length_nil, room]
        omega
      · rw [if_neg hfull]
        exact ih hrest hpush (by omega) (by rw [Scan.push, hlength, ← hstate]) (by simp only [Scan.push, room]; omega)

/-- a call of `GET_INPUT` that has `remain` characters to read passes over white space -/
theorem getInput_eq (hascii : ∀ c ∈ src, Ascii c) (hpos : 0 < remain) (hlen : remain ≤ src.length) :
    ∃ c rest, getInput A remain src = .ok ((A.digit c).elim (-1) Nat.cast, c, rest) ∧ (∀ e ∈ c :: rest, Ascii e) ∧
      remain ≤ rest.length + 1 ∧ rest.length < src.length ∧ ∀ ds, plain A ds src = plain A ds (c :: rest) := by
  induction src with
  | nil => exact absurd (hpos.trans_le hlen) (lt_irrefl 0)
  | cons c src ih =>
    obtain ⟨hc, hrest⟩ := List.forall_mem_cons.1 hascii
    have hget : getInput A remain (c :: src) =
        if ((A.digit c).elim (-1) Nat.cast : ℤ) < 0 ∧ asciiIsspace c ∧ remain ≤ src.length then getInput A remain src
        else .ok ((A.digit c).elim (-1) Nat.cast, c, src) := by
      rw [getInput, lookup_eq hc.2]
      rfl
    rw [hget]
    split_ifs with hskip
    · obtain ⟨c', rest, heq, hall, hremain, hlt, hplain⟩ := ih hrest hskip.2.2
      refine ⟨c', rest, heq, hall, hremain, hlt.trans (Nat.lt_succ_self _), fun ds => ?_⟩
      rw [plain_space hskip.2.1, hplain]
    · exact ⟨c, src, rfl, hascii, by simpa using hlen, Nat.lt_succ_self _, fun ds => rfl⟩

/-- what the calls of `GET_INPUT` do from `ds` digits on: four digits are held, or the loop is left at a character that is no
digit -/
inductive Quartet (A : Alphabet) (ds : List ℕ) (s : Scan) : Bool × Scan → Prop
  | filled (src ch decode temp) (group : List ℕ) (hlen : group.length = 4) (hholds : Holds temp group)
    (hdecode : 0 ≤ decode) (hch : ch ≠ kPad64) (hascii : ∀ c ∈ src, Ascii c)
    (hshort : src.length + group.length ≤ s.src.length + ds.length) (hplain : plain A ds s.src = plain A group src) :
    Quartet A ds s (true, ⟨src, decode, ch, temp, s.state, s.dest⟩)
  | stopped (src ch temp) (ds' : List ℕ) (hlen : ds'.length < 4) (hholds : Holds temp ds') (hother : A.digit ch = none)
    (hascii : ∀ c ∈ ch :: src, Ascii c) (hshort : src.length + ds'.length < s.src.length + ds.length)
    (hplain : plain A ds s.src = plain A ds' (ch :: src)) :
    Quartet A ds s (false, ⟨src, -1, ch, temp, ds'.length, s.dest⟩)

/-- the same behind one digit more -/
theorem Quartet.before {s' : Scan} {r : Bool × Scan} (h : Quartet A (ds ++ [d]) s' r) (hstate : s'.state = s.state)
    (hdest : s'.dest = s.dest) (hlt : s'.src.length < s.src.length)
    (hplain : plain A ds s.src = plain A (ds ++ [d]) s'.src) : Quartet A ds s r := by
  cases h with
  | filled src ch decode temp group hlen hholds hdecode hch hascii hshort hrest =>
    rw [List.length_append, List.length_singleton] at hshort
    rw [hstate, hdest]
    exact Quartet.filled src ch decode temp group hlen hholds hdecode hch hascii (by omega) (hplain.trans hrest)
  | stopped src ch temp ds' hlen hholds hother hascii hshort hrest =>
    rw [List.length_append, List.length_singleton] at hshort
    rw [hdest]
    exact Quartet.stopped src ch temp ds' hlen hholds hother hascii (by omega) (hplain.trans hrest)

theorem quartet_cases (hascii : ∀ c ∈ s.src, Ascii c) (hholds : Holds s.temp ds) (hds : ds.length + remain = 4)
    (hlen : remain ≤ s.src.length) (hstop : 0 ≤ s.decode ∧ s.ch ≠ kPad64 ∨ 0 < remain) :
    ∃ r, quartet A remain s = .ok r ∧ Quartet A ds s r := by
  induction remain generalizing s ds with
  | zero =>
    obtain ⟨hdecode, hch⟩ := hstop.resolve_right (lt_irrefl 0)
    exact ⟨_, rfl, Quartet.filled s.src s.ch s.decode s.temp ds hds hholds hdecode hch hascii le_rfl rfl⟩
  | succ remain ih =>
    obtain ⟨c, rest, hget, hall, hremain, hlt, hplain⟩ := @getInput_eq A (remain + 1) s.src hascii (Nat.succ_pos _) hlen
    rw [quartet, hget]
    cases hd : A.digit c with
    | none =>
      have hstate : 4 - (remain + 1) = ds.length := by omega
      refine ⟨(false, { s with src := rest, decode := -1, ch := c, state := ds.length }), ?_,
        Quartet.stopped rest c s.temp ds (by omega) hholds hd hall (by omega) (hplain ds)⟩
      rw [← hstate]
      rfl
    | some d =>
      have hneg : ¬ ((some d).elim (-1) Nat.cast : ℤ) < 0 := not_lt.2 (Int.natCast_nonneg d)
      have hpad : c ≠ kPad64 := by
        rintro rfl
        cases hd.symm.trans digit_pad
      simp only [bind, Except.bind, if_neg hneg]
      have hpush : Holds (if remain + 1 = 4 then word d else s.temp <<< 6 ||| word d) (ds ++ [d]) := by
        split_ifs with hfirst
        · obtain rfl : ds = [] := List.length_eq_zero_iff.1 (by omega)
          refine ⟨fun e he => ?_, ?_⟩
          · rw [List.mem_singleton.1 he]
            exact digit_lt hd
          · rw [word_toNat (digit_lt hd), value_concat]
            simp [value, Nat.mod_eq_of_lt (digit_lt hd)]
        · exact hholds.push (digit_lt hd) (by omega)
      obtain ⟨r, hr, hq⟩ := @ih (ds ++ [d])
        ⟨rest, (d : ℤ), c, if remain + 1 = 4 then word d else s.temp <<< 6 ||| word d, s.state, s.dest⟩
        (List.forall_mem_cons.1 hall).2 hpush (by simp only [List.length_append, List.length_singleton]; omega)
        (by dsimp only; omega) (Or.inl ⟨Int.natCast_nonneg d, hpad⟩)
      exact ⟨r, hr, hq.before rfl rfl hlt ((hplain ds).trans (plain_digit hd ds rest))⟩

theorem shifted_msb {o : Option ℕ} (h : ∀ d, o = some d → d < 64) {k : ℕ} (hk : k ∈ [0, 6, 12, 18]) :
    (word (o.elim (-1) Nat.cast) <<< k).msb = o.isNone := by
  cases o with
  | none =>
    revert k
    decide
  | some d =>
    have hd := h d rfl
    have hle : k ≤ 18 := by
      revert k
      decide
    have hpow : 2 ^ k ≤ 2 ^ 18 := Nat.pow_le_pow_right (by decide) hle
    have hsmall : d * 2 ^ k < 2 ^ 24 := by
      calc d * 2 ^ k < 64 * 2 ^ k := Nat.mul_lt_mul_of_pos_right hd (by positivity)
        _ ≤ 64 * 2 ^ 18 := Nat.mul_le_mul_left 64 hpow
    have htoNat : (word ((some d).elim (-1) Nat.cast) <<< k).toNat = d * 2 ^ k := by
      rw [BitVec.toNat_shiftLeft, Option.elim_some, word_toNat hd, Nat.shiftLeft_eq]
      exact Nat.mod_eq_of_lt (by omega)
    rw [BitVec.msb_eq_decide, htoNat]
    simp only [Option.isNone_some, decide_eq_false_iff_not]
    omega

theorem four_shifts (a b c d : BitVec 32) :
    a <<< 18 ||| b <<< 12 ||| c <<< 6 ||| d = (((a <<< 6 ||| b) <<< 6 ||| c) <<< 6 ||| d) := by
  rw [BitVec.shiftLeft_or_distrib, BitVec.shiftLeft_or_distrib, BitVec.shiftLeft_or_distrib, ← BitVec.shiftLeft_add,
    ← BitVec.shiftLeft_add, ← BitVec.shiftLeft_add]

theorem holds_word (h : d < 64) : Holds (word d) [d] := by
  refine ⟨fun e he => ?_, ?_⟩
  · rwa [List.mem_singleton.1 he]
  · rw [word_toNat h, List.length_singleton, pow_one, Nat.mod_eq_of_lt h, value]
    simp

/-- the fast test finds four digits, or the slow path is taken with some `temp` -/
theorem fourDigits_cases {a b c d : UInt8} (ha : Ascii a) (hb : Ascii b) (hc : Ascii c) (hd : Ascii d) (temp : BitVec 32) :
    (∃ group temp', fourDigits A a b c d temp = .ok (true, temp') ∧ group.length = 4 ∧ Holds temp' group ∧
      ∀ text, plain A [] (a :: b :: c :: d :: text) = plain A group text) ∨
    ∃ temp', fourDigits A a b c d temp = .ok (false, temp') := by
  have hnul : ¬ (a = 0 ∨ b = 0 ∨ c = 0) := by
    rintro (h | h | h)
    · exact ha.ne_nul h
    · exact hb.ne_nul h
    · exact hc.ne_nul h
  have hlt : ∀ e : UInt8, ∀ d, A.digit e = some d → d < 64 := fun e d h => digit_lt h
  have hmsb : (word ((A.digit a).elim (-1) Nat.cast) <<< 18 ||| word ((A.digit b).elim (-1) Nat.cast) <<< 12 |||
      word ((A.digit c).elim (-1) Nat.cast) <<< 6 ||| word ((A.digit d).elim (-1) Nat.cast)).msb =
      ((A.digit a).isNone || (A.digit b).isNone || (A.digit c).isNone || (A.digit d).isNone) := by
    have hlast := @shifted_msb _ (hlt d) 0 (by decide)
    rw [BitVec.shiftLeft_zero] at hlast
    rw [BitVec.msb_or, BitVec.msb_or, BitVec.msb_or, shifted_msb (hlt a) (by decide), shifted_msb (hlt b) (by decide),
      shifted_msb (hlt c) (by decide), hlast]
  rw [fourDigits, if_neg hnul, lookup_eq ha.2, lookup_eq hb.2, lookup_eq hc.2, lookup_eq hd.2]
  simp only [bind, Except.bind, hmsb]
  by_cases hall : ((A.digit a).isNone || (A.digit b).isNone || (A.digit c).isNone || (A.digit d).isNone) = true
  · rw [hall]
    exact Or.inr ⟨_, rfl⟩
  · rw [Bool.eq_false_iff.2 hall]
    simp only [Bool.or_eq_true, not_or, Option.isNone_iff_eq_none, ← ne_eq, Option.ne_none_iff_exists'] at hall
    obtain ⟨⟨⟨⟨m, hm⟩, ⟨n, hn⟩⟩, ⟨o, ho⟩⟩, ⟨p, hp⟩⟩ := hall
    refine Or.inl ⟨[m, n, o, p], _, rfl, rfl, ?_, fun text => ?_⟩
    · rw [hm, hn, ho, hp, four_shifts]
      exact (((holds_word (digit_lt hm)).push (digit_lt hn) (by simp)).push (digit_lt ho) (by simp)).push (digit_lt hp)
        (by simp)
    · rw [plain_digit hm, plain_digit hn, plain_digit ho, plain_digit hp]
      rfl

/-- what follows the fast loop, where it was left in the middle of a group -/
theorem afterPump_stopped {ch : UInt8} (hascii : ∀ c ∈ ch :: src, Ascii c) (hother : A.digit ch = none)
    (hholds : Holds temp ds) (hlen : ds.length < 4) (dest : List UInt8)
    (hroom : dest.length + room (ds.length + src.length) ≤ szdest) :
    afterPump A szdest ⟨src, -1, ch, temp, ds.length, dest⟩ = outcome dest (plain A ds (ch :: src)) := by
  obtain ⟨hch, hrest⟩ := List.forall_mem_cons.1 hascii
  by_cases hpad : ch = kPad64
  · subst hpad
    rw [afterPump, if_neg (by simp), if_pos rfl]
    exact @finish_eq A szdest ds ⟨kPad64 :: src, -1, kPad64, temp, ds.length, dest⟩ hascii (by simp) hholds hlen rfl
      (by rw [room] at hroom; dsimp only; omega)
  · by_cases hspace : asciiIsspace ch = true
    · rw [afterPump, if_neg (by simp [hspace]), if_neg hpad, plain_space hspace]
      exact cleanup_eq hrest hholds hlen rfl hroom
    · rw [afterPump, if_pos ⟨show (-1 : ℤ) < 0 by decide, hch.ne_nul, hpad, by simpa using hspace⟩,
        plain_bad hother (by simpa using hspace) hpad]
      rfl

theorem pump_short {turns : ℕ} (h : s.src.length < 4) : pump A szdest turns s = .ok s := by
  cases turns with
  | zero => rfl
  | succ turns =>
    unfold pump
    split
    case h_1 a b c d rest hsrc =>
      rw [hsrc] at h
      simp only [List.length_cons] at h
      omega
    case h_2 => rfl

theorem pump_exit {turns : ℕ} (hshort : s.src.length < 4) (hascii : ∀ c ∈ s.src, Ascii c) (hstate : s.state = 0)
    (hcalm : 0 ≤ s.decode ∨ s.ch = 0) (hch : s.ch ≠ kPad64) (hroom : s.dest.length + room s.src.length ≤ szdest) :
    (pump A szdest turns s >>= afterPump A szdest) = outcome s.dest (plain A [] s.src) := by
  have hquiet : ¬ (s.decode < 0 ∧ s.ch ≠ 0 ∧ s.ch ≠ kPad64 ∧ asciiIsspace s.ch = false) := by
    rintro ⟨hneg, hnul, -⟩
    exact hnul (hcalm.resolve_left (not_le.2 hneg))
  rw [pump_short hshort]
  change afterPump A szdest s = _
  rw [afterPump, if_neg hquiet, if_neg hch]
  exact cleanup_eq hascii (holds_nil _) (by simp) hstate (by rwa [List.length_nil, zero_add])

/-- one turn: a group of digits is written, or the loop is left -/
theorem pump_turn {turns : ℕ} {a b c d : UInt8} {rest : List UInt8} (hsrc : s.src = a :: b :: c :: d :: rest)
    (hascii : ∀ c ∈ s.src, Ascii c) (hstate : s.state = 0) (hroom : s.dest.length + 3 ≤ szdest) :
    (∃ s' group, pump A szdest (turns + 1) s = pump A szdest turns s' ∧ group.length = 4 ∧
      plain A [] s.src = plain A group s'.src ∧ s'.dest = s.dest ++ threeBytes (value group) ∧ s'.state = 0 ∧
      (0 ≤ s'.decode ∨ s'.ch = 0) ∧ s'.ch ≠ kPad64 ∧ (∀ c ∈ s'.src, Ascii c) ∧ s'.src.length + 4 ≤ s.src.length) ∨
    ∃ src ch temp ds, pump A szdest (turns + 1) s = .ok ⟨src, -1, ch, temp, ds.length, s.dest⟩ ∧ ds.length < 4 ∧
      Holds temp ds ∧ A.digit ch = none ∧ (∀ c ∈ ch :: src, Ascii c) ∧ src.length + ds.length < s.src.length ∧
      plain A [] s.src = plain A ds (ch :: src) := by
  have hall := hascii
  rw [hsrc] at hall
  simp only [List.forall_mem_cons] at hall
  obtain ⟨ha, hb, hc, hd, hrest⟩ := hall
  have hpump : pump A szdest (turns + 1) s = readGroup A a b c d rest s >>= fun r =>
      if r.1 then writeThree szdest r.2 >>= pump A szdest turns else .ok r.2 := by
    rw [pump, hsrc]
  rcases @fourDigits_cases A a b c d ha hb hc hd s.temp with ⟨group, temp, heq, hlen, hholds, hplain⟩ | ⟨temp, heq⟩
  · left
    have hread : readGroup A a b c d rest s = .ok (true, { s with src := rest, temp, decode := -1, ch := 0 }) := by
      rw [readGroup, heq]
      rfl
    have hwrite := @writeThree_eq szdest group { s with src := rest, temp, decode := -1, ch := 0 } hholds hlen hroom
    refine ⟨⟨rest, -1, 0, temp >>> 16, s.state, s.dest ++ threeBytes (value group)⟩, group, ?_, hlen, ?_, rfl, hstate,
      Or.inr rfl, (by decide : (0 : UInt8) ≠ kPad64), hrest, by rw [hsrc]; simp⟩
    · rw [hpump, hread]
      exact congrArg (· >>= pump A szdest turns) hwrite
    · rw [hsrc]
      exact hplain rest
  · obtain ⟨r, hr, hq⟩ := @quartet_cases A 4 [] { s with temp } hascii (holds_nil temp) rfl (by rw [hsrc]; simp)
      (Or.inr (by decide))
    have hread : readGroup A a b c d rest s = .ok r := by
      rw [readGroup, heq]
      exact hr
    rw [hpump, hread]
    cases hq with
    | filled src ch decode temp' group hlen hholds hdecode hch hascii' hshort hplain =>
      left
      have hwrite := @writeThree_eq szdest group ⟨src, decode, ch, temp', s.state, s.dest⟩ hholds hlen hroom
      refine ⟨_, group, congrArg (· >>= pump A szdest turns) hwrite, hlen, hplain, rfl, hstate, Or.inl hdecode, hch,
        hascii', ?_⟩
      rw [hlen] at hshort
      exact hshort
    | stopped src ch temp' ds hlen hholds hother hascii' hshort hplain =>
      right
      exact ⟨src, ch, temp', ds, rfl, hlen, hholds, hother, hascii', by simpa using hshort, hplain⟩

/-- **The fast loop** and what follows it. -/
theorem pump_eq {turns : ℕ} (hturns : s.src.length / 4 ≤ turns) (hascii : ∀ c ∈ s.src, Ascii c) (hstate : s.state = 0)
    (hcalm : 0 ≤ s.decode ∨ s.ch = 0) (hch : s.ch ≠ kPad64) (hroom : s.dest.length + room s.src.length ≤ szdest) :
    (pump A szdest turns s >>= afterPump A szdest) = outcome s.dest (plain A [] s.src) := by
  induction turns generalizing s with
  | zero => exact pump_exit (by omega) hascii hstate hcalm hch hroom
  | succ turns ih =>
    by_cases hshort : s.src.length < 4
    · exact pump_exit hshort hascii hstate hcalm hch hroom
    · obtain ⟨a, b, c, d, rest, hsrc⟩ : ∃ a b c d rest, s.src = a :: b :: c :: d :: rest := by
        match h : s.src with
        | a :: b :: c :: d :: rest => exact ⟨a, b, c, d, rest, rfl⟩
        | [] | [_] | [_, _] | [_, _, _] => simp [h] at hshort
      rw [room] at hroom
      have hthree : s.dest.length + 3 ≤ szdest := by omega
      rcases pump_turn hsrc hascii hstate hthree with
        ⟨s', group, heq, hlen, hplain, hdest, hstate', hcalm', hch', hascii', hlt⟩ |
        ⟨src, ch, temp, ds, heq, hlen, hholds, hother, hascii', hlt, hplain⟩
      · have hgroup := @plain_group A group hlen [] s'.src
        rw [List.append_nil] at hgroup
        rw [heq, hplain, hgroup, ← outcome_map, ← hdest]
        refine ih (by omega) hascii' hstate' hcalm' hch' ?_
        rw [hdest, List.length_append, room, Core.Base64.threeBytes]
        simp only [List.length_cons, List.length_nil]
        omega
      · rw [heq, hplain]
        exact afterPump_stopped hascii' hother hholds hlen s.dest (by rw [room]; omega)

/-- the buffer of the string versions is large enough -/
theorem unescapeInternal_eq (A : Alphabet) (htext : ∀ c ∈ text, Ascii c) :
    base64UnescapeInternal A text (3 * (text.length / 4) + text.length % 4) = outcome [] (plain A [] text) :=
  @pump_eq A (room text.length) ⟨text, 0, 0, 0, 0, []⟩ (text.length / 4) le_rfl htext rfl (Or.inl le_rfl)
    (by decide : (0 : UInt8) ≠ kPad64) (by simp)

/-- **The decoder is exact.** On every text of ASCII characters without NUL it gives what base64 means, and its buffer is
large enough for that. -/
theorem unescape_exact (A : Alphabet) (htext : ∀ c ∈ text, Ascii c) :
    base64Unescape A text = some ((plain A [] text).isSome, (plain A [] text).getD []) := by
  rw [base64Unescape, unescapeInternal_eq A htext]
  cases plain A [] text <;> rfl

def spaced : List UInt8 := ascii ['Q', 'U', ' ', 'J', 'D', ' ', 'R', 'A', '=', '=']

theorem unescape_exact_spaces :
    base64Unescape base64 spaced = some ((plain base64 [] spaced).isSome, (plain base64 [] spaced).getD []) :=
  unescape_exact base64 (by decide +kernel)

example : base64Unescape base64 spaced = some (true, [65, 66, 67, 68]) := by decide +kernel

/-! ## Round trip -/

variable {data : List UInt8} {doPadding : Bool}

end Bboy.Base64
