/-
A reader of JSON text, which inverts the writers of `Core/Json.lean`.

- `Value`, `Writes`: a document as a tree, and the tokens that write it;
- `parse`: the reader. It knows no doubles, and no escapes but those of the writers;
- `parse_write`: what is written for a value is read back, in either style;
- `write_no_nul`: a text has no NUL.
-/
import Bboy.Core.Decimal
import Bboy.Core.Json
import Mathlib.Data.List.TakeWhile

namespace Core.Json

/-! ## Values -/

mutual

inductive Value where
  | null
  | bool (b : Bool)
  | int (i : ℤ)
  /-- a double by its bits -/
  | double (bits : UInt64)
  | string (s : String)
  | array (elements : List Value)
  | object (members : List Member)

inductive Member where
  | mk (name : String) (v : Value)

end

def utf8 (s : String) : List UInt8 := s.toByteArray.data.toList

def ofUtf8 (bytes : List UInt8) : Option String := String.fromUTF8? ⟨bytes.toArray⟩

theorem ofUtf8_utf8 (s : String) : ofUtf8 (utf8 s) = some s := by
  have hbytes : (⟨(utf8 s).toArray⟩ : ByteArray) = s.toByteArray := rfl
  rw [ofUtf8, hbytes, String.fromUTF8?, dif_pos s.isValidUTF8]
  rfl

mutual

/-- the tokens write the value; integers have at most 64 bits -/
inductive Writes : Value → List Token → Prop
  | bool (b : Bool) : Writes (.bool b) [.bool b]
  | int (i : ℤ) (hlow : -2 ^ 63 ≤ i) (hhigh : i < 2 ^ 64) : Writes (.int i) [.int i]
  | string (s : String) : Writes (.string s) [.string (utf8 s)]
  | array {elements : List Value} {tokens : List Token} (h : WritesElements elements tokens) :
      Writes (.array elements) (.startArray :: tokens ++ [.endArray])
  | object {members : List Member} {tokens : List Token} (h : WritesMembers members tokens) :
      Writes (.object members) (.startObject :: tokens ++ [.endObject])

inductive WritesElements : List Value → List Token → Prop
  | nil : WritesElements [] []
  | cons {v : Value} {elements : List Value} {first tokens : List Token} (hv : Writes v first)
      (h : WritesElements elements tokens) : WritesElements (v :: elements) (first ++ tokens)

inductive WritesMembers : List Member → List Token → Prop
  | nil : WritesMembers [] []
  | cons (name : String) {v : Value} {members : List Member} {first tokens : List Token} (hv : Writes v first)
      (h : WritesMembers members tokens) :
      WritesMembers (.mk name v :: members) (.string (utf8 name) :: first ++ tokens)

end

/-! ## The reader -/

def isBlank (c : UInt8) : Bool := c == 32 || c == 10 || c == 13 || c == 9

def skip (text : List UInt8) : List UInt8 := text.dropWhile isBlank

/-- a structural character, after blanks -/
def expect (c : UInt8) (text : List UInt8) : Option (List UInt8) :=
  match skip text with
  | x :: rest => if x = c then some rest else none
  | [] => none

/-- the bytes of a string up to its closing quote -/
def parseChars : ℕ → List UInt8 → Option (List UInt8 × List UInt8)
  | 0, _ => none
  | fuel + 1, text =>
    if text.head? = some 34 then some ([], text.tail)
    else do
      let (c, rest) ← unescapeByte text
      let (s, rest) ← parseChars fuel rest
      return (c :: s, rest)

def parseString (text : List UInt8) : Option (String × List UInt8) := do
  let (bytes, rest) ← parseChars (text.length + 1) text
  return (← ofUtf8 bytes, rest)

def parseNatural (text : List UInt8) : Option (ℕ × List UInt8) :=
  if text.takeWhile isDigit = [] then none
  else some (digitsValue (text.takeWhile isDigit), text.dropWhile isDigit)

def parseInt (text : List UInt8) : Option (ℤ × List UInt8) :=
  if text.head? = some 45 then (parseNatural text.tail).map fun (n, rest) => (-n, rest)
  else (parseNatural text).map fun (n, rest) => (n, rest)

def literal (word : List UInt8) (v : Value) (text : List UInt8) : Option (Value × List UInt8) :=
  if word.isPrefixOf text then some (v, text.drop word.length) else none

mutual

/-- `fuel` bounds the number of tokens -/
def parseValue : ℕ → List UInt8 → Option (Value × List UInt8)
  | 0, _ => none
  | fuel + 1, text =>
    match skip text with
    | [] => none
    | c :: rest =>
      if c = 123 then (parseMembers fuel true rest).map fun (members, rest) => (.object members, rest)
      else if c = 91 then (parseElements fuel true rest).map fun (elements, rest) => (.array elements, rest)
      else if c = 34 then (parseString rest).map fun (s, rest) => (.string s, rest)
      else if c = 116 then literal (ascii "true") (.bool true) (c :: rest)
      else if c = 102 then literal (ascii "false") (.bool false) (c :: rest)
      else if c = 110 then literal (ascii "null") .null (c :: rest)
      else (parseInt (c :: rest)).map fun (i, rest) => (.int i, rest)

/-- the rest of an array; a comma stands before all elements but the first -/
def parseElements : ℕ → Bool → List UInt8 → Option (List Value × List UInt8)
  | 0, _, _ => none
  | fuel + 1, first, text =>
    if (skip text).head? = some 93 then some ([], (skip text).tail)
    else do
      let text ← if first then some text else expect 44 text
      let (v, text) ← parseValue fuel text
      let (elements, text) ← parseElements fuel false text
      return (v :: elements, text)

def parseMembers : ℕ → Bool → List UInt8 → Option (List Member × List UInt8)
  | 0, _, _ => none
  | fuel + 1, first, text =>
    if (skip text).head? = some 125 then some ([], (skip text).tail)
    else do
      let text ← if first then some text else expect 44 text
      let text ← expect 34 text
      let (name, text) ← parseString text
      let text ← expect 58 text
      let (v, text) ← parseValue fuel text
      let (members, text) ← parseMembers fuel false text
      return (.mk name v :: members, text)

end

def parse (text : List UInt8) : Option Value := do
  let (v, rest) ← parseValue (text.length + 1) text
  if skip rest = [] then some v else none

/-! ## Numbers -/

theorem ascii_repr (n : ℕ) : ascii n.repr = decimal n := by
  rw [ascii, Nat.toList_repr]
  induction n using Nat.strong_induction_on with
  | _ n ih =>
    rcases lt_or_ge n 10 with h | h
    · rw [Nat.toDigits_of_lt_base h, decimal_of_lt h, List.map_singleton, digitChar_toNat h]
    · rw [Nat.toDigits_of_base_le (by norm_num) h, decimal_of_le h, List.map_append, ih (n / 10) (by omega),
        List.map_singleton, digitChar_toNat (Nat.mod_lt n (by norm_num))]

/-- the printed form of a number that the writers use -/
theorem ascii_toString (i : ℤ) : ascii (toString i) = decimalInt i := by
  cases i with
  | ofNat n =>
    rw [decimalInt, if_neg (by simp)]
    exact ascii_repr n
  | negSucc n =>
    rw [decimalInt, if_pos (Int.negSucc_lt_zero n)]
    have hsplit : toString (Int.negSucc n) = "-" ++ (n + 1).repr := rfl
    rw [hsplit, ascii, String.toList_append, List.map_append]
    exact congrArg (45 :: ·) (ascii_repr (n + 1))

theorem body_int (doubleText : UInt64 → List UInt8) (i : ℤ) : body doubleText (.int i) = decimalInt i := ascii_toString i

/-- a text that does not go on with a digit -/
def NoDigit (text : List UInt8) : Prop := ∀ c ∈ text.head?, isDigit c = false

theorem span_digits {text : List UInt8} (n : ℕ) (h : NoDigit text) :
    (decimal n ++ text).takeWhile isDigit = decimal n ∧ (decimal n ++ text).dropWhile isDigit = text := by
  have hdigits : ∀ c ∈ decimal n, isDigit c = true := fun c hc => isDigit_of_mem_decimal hc
  rw [List.takeWhile_append_of_pos hdigits, List.dropWhile_append_of_pos hdigits]
  cases text with
  | nil => exact ⟨List.append_nil _, rfl⟩
  | cons c text =>
    have hc : isDigit c = false := h c rfl
    simp [hc]

theorem parseNatural_decimal {text : List UInt8} (n : ℕ) (h : NoDigit text) :
    parseNatural (decimal n ++ text) = some (n, text) := by
  obtain ⟨htake, hdrop⟩ := span_digits n h
  rw [parseNatural, htake, hdrop, if_neg (decimal_ne_nil n), digitsValue_decimal]

theorem head_decimal (n : ℕ) (text : List UInt8) : ∃ c tail, decimal n ++ text = c :: tail ∧ isDigit c = true := by
  obtain ⟨c, digits, hdecimal⟩ := List.exists_cons_of_ne_nil (decimal_ne_nil n)
  refine ⟨c, digits ++ text, by rw [hdecimal]; rfl, ?_⟩
  apply isDigit_of_mem_decimal (n := n)
  rw [hdecimal]
  exact List.mem_cons_self

theorem parseInt_decimalInt {text : List UInt8} (i : ℤ) (h : NoDigit text) :
    parseInt (decimalInt i ++ text) = some (i, text) := by
  unfold decimalInt
  split_ifs with hneg
  · have hvalue : -(i.natAbs : ℤ) = i := by omega
    rw [List.cons_append, parseInt, if_pos List.head?_cons, List.tail_cons, parseNatural_decimal _ h]
    exact congrArg (fun j => some (j, text)) hvalue
  · have hvalue : (i.natAbs : ℤ) = i := by omega
    have hhead : (decimal i.natAbs ++ text).head? ≠ some 45 := by
      obtain ⟨c, tail, hcons, hdigit⟩ := head_decimal i.natAbs text
      rw [hcons, List.head?_cons]
      rintro heq
      rw [Option.some.inj heq] at hdigit
      exact absurd hdigit (by decide)
    rw [parseInt, if_neg hhead, parseNatural_decimal _ h]
    exact congrArg (fun j => some (j, text)) hvalue

/-! ## Strings -/

theorem length_escape (s : List UInt8) : s.length ≤ (escape s).length := by
  induction s with
  | nil => exact le_rfl
  | cons c s ih =>
    have hcons := escape_cons c s []
    rw [List.append_nil, List.append_nil] at hcons
    have hbyte : 1 ≤ (escapeByte c).length := by
      obtain ⟨letter, -, -, hc⟩ | ⟨-, hc⟩ | ⟨-, -, hc⟩ := escapeByte_cases c <;> simp [hc]
    rw [hcons, List.length_append, List.length_cons]
    omega

theorem parseChars_escape (s rest : List UInt8) {fuel : ℕ} (h : s.length < fuel) :
    parseChars fuel (escape s ++ 34 :: rest) = some (s, rest) := by
  induction s generalizing fuel with
  | nil =>
    obtain ⟨fuel, rfl⟩ := Nat.exists_eq_succ_of_ne_zero h.ne'
    rfl
  | cons c s ih =>
    obtain ⟨fuel, rfl⟩ := Nat.exists_eq_succ_of_ne_zero (Nat.zero_lt_of_lt h).ne'
    have hhead : (escapeByte c ++ (escape s ++ 34 :: rest)).head? ≠ some 34 := by
      intro heq
      obtain ⟨tail, htail⟩ := List.head?_eq_some_iff.1 heq
      exact escapeByte_ne_quote c _ _ htail
    rw [escape_cons, parseChars, if_neg hhead, unescapeByte_escapeByte]
    simp only [Option.bind_eq_bind, Option.bind_some, ih (Nat.lt_of_succ_lt_succ h)]
    rfl

theorem parseString_utf8 (s : String) (rest : List UInt8) :
    parseString (escape (utf8 s) ++ 34 :: rest) = some (s, rest) := by
  have hfuel : (utf8 s).length < (escape (utf8 s) ++ 34 :: rest).length + 1 := by
    rw [List.length_append]
    have hle := length_escape (utf8 s)
    omega
  rw [parseString, parseChars_escape _ _ hfuel]
  simp only [Option.bind_eq_bind, Option.bind_some, ofUtf8_utf8]
  rfl

/-! ## Separators -/

variable {style : Style} {doubleText : UInt64 → List UInt8} {levels : List Level} {blanks text : List UInt8}

def Blank (text : List UInt8) : Prop := ∀ c ∈ text, isBlank c = true

theorem blank_nil : Blank [] := fun _ hc => absurd hc List.not_mem_nil

theorem skip_blank (h : Blank blanks) : skip (blanks ++ text) = skip text := List.dropWhile_append_of_pos h

theorem skip_cons {c : UInt8} (h : isBlank c = false) : skip (c :: text) = c :: text := by
  rw [skip, List.dropWhile_cons_of_neg]
  simp [h]

theorem expect_cons {c : UInt8} (hblank : Blank blanks) (h : isBlank c = false) :
    expect c (blanks ++ c :: text) = some text := by
  rw [expect, skip_blank hblank, skip_cons h]
  exact if_pos rfl

theorem blank_newLine (depth : ℕ) : Blank (newLine depth) := by
  intro c hc
  rcases List.mem_cons.1 hc with rfl | hc
  · rfl
  · rw [List.eq_of_mem_replicate hc]
    rfl

/-- before the first value of an array, and before the first key of an object -/
theorem separator_first (style : Style) (inArray : Bool) (levels : List Level) :
    Blank (separator style (⟨inArray, 0⟩ :: levels)) := by
  cases style with
  | pretty => simpa [separator] using blank_newLine (levels.length + 1)
  | compact => simp [separator, Blank]

/-- before the others -/
theorem separator_next (style : Style) {inArray : Bool} {n : ℕ} (hn : n ≠ 0) (heven : inArray = true ∨ n % 2 = 0)
    (levels : List Level) : ∃ blanks, separator style (⟨inArray, n⟩ :: levels) = 44 :: blanks ∧ Blank blanks := by
  cases style with
  | pretty => exact ⟨newLine (levels.length + 1), by simp [separator, hn, heven]; rfl, blank_newLine _⟩
  | compact => exact ⟨[], by simp [separator, hn, heven]; rfl, blank_nil⟩

/-- between a key and its value -/
theorem separator_value (style : Style) {n : ℕ} (hodd : n % 2 = 1) (levels : List Level) :
    ∃ blanks, separator style (⟨false, n⟩ :: levels) = 58 :: blanks ∧ Blank blanks := by
  have hn : n ≠ 0 := by omega
  cases style with
  | pretty => exact ⟨[32], by simp [separator, hodd]; rfl, by simp [Blank, isBlank]⟩
  | compact => exact ⟨[], by simp [separator, hodd, hn]; rfl, blank_nil⟩

theorem blank_closing (style : Style) (levels : List Level) : Blank (closing style levels) := by
  cases levels with
  | nil => cases style <;> simp [closing, Blank]
  | cons level levels =>
    cases style with
    | pretty =>
      simp only [closing]
      split_ifs
      · simp [Blank]
      · exact blank_newLine _
    | compact => simp [closing, Blank]

theorem not_isDigit_of_isBlank {c : UInt8} (h : isBlank c = true) : isDigit c = false := by
  simp only [isBlank, Bool.or_eq_true, beq_iff_eq] at h
  rcases h with ((rfl | rfl) | rfl) | rfl <;> rfl

theorem noDigit_blank {c : UInt8} (hblank : Blank blanks) (hc : isDigit c = false) : NoDigit (blanks ++ c :: text) := by
  intro d hd
  cases blanks with
  | nil =>
    rw [← Option.some.inj hd]
    exact hc
  | cons b blanks =>
    rw [← Option.some.inj hd]
    exact not_isDigit_of_isBlank (hblank b List.mem_cons_self)

theorem noDigit_separator (style : Style) (level : Level) (levels : List Level) (text : List UInt8) :
    NoDigit (separator style (counted (level :: levels)) ++ text) := by
  by_cases heven : level.inArray = true ∨ (level.valueCount + 1) % 2 = 0
  · obtain ⟨blanks, hcomma, -⟩ := separator_next style (Nat.succ_ne_zero level.valueCount) heven levels
    rw [counted, hcomma]
    exact noDigit_blank blank_nil rfl
  · push Not at heven
    obtain ⟨inArray, n⟩ := level
    obtain rfl : inArray = false := by simpa using heven.1
    obtain ⟨blanks, hcolon, -⟩ := separator_value style (show (n + 1) % 2 = 1 by simpa using heven.2) levels
    rw [counted, hcolon]
    exact noDigit_blank blank_nil rfl

/-- a number inside an array or object is not followed by a digit -/
theorem noDigit_write (h : levels ≠ []) (more : List Token) :
    NoDigit (write style doubleText (counted levels) more) := by
  obtain ⟨level, levels, rfl⟩ := List.exists_cons_of_ne_nil h
  cases more with
  | nil => simp [write, NoDigit]
  | cons t more =>
    have hother := noDigit_separator style level levels (body doubleText t ++
      write style doubleText (after (counted (level :: levels)) t) more)
    have hclosing : ∀ c, isDigit c = false → NoDigit (closing style (counted (level :: levels)) ++ c ::
        write style doubleText (after (counted (level :: levels)) t) more) := fun c hc =>
      noDigit_blank (blank_closing style _) hc
    rw [write, List.append_assoc]
    cases t with
    | endObject => exact hclosing 125 rfl
    | endArray => exact hclosing 93 rfl
    | _ => exact hother

/-! ## The round trip -/

theorem parseValue_blank (fuel : ℕ) (h : Blank blanks) : parseValue fuel (blanks ++ text) = parseValue fuel text := by
  cases fuel with
  | zero => rfl
  | succ fuel => rw [parseValue, parseValue, skip_blank h]

/-- the tokens of a value are read back from the text that goes on with `more` -/
def ReadBack (style : Style) (doubleText : UInt64 → List UInt8) (levels : List Level) (v : Value)
    (tokens more : List Token) (fuel : ℕ) : Prop :=
  ∃ c tail, write style doubleText levels (tokens ++ more) = separator style levels ++ c :: tail ∧
    isBlank c = false ∧ c ≠ 93 ∧
    parseValue fuel (c :: tail) = some (v, write style doubleText (counted levels) more)

theorem Writes.length_pos {v : Value} {tokens : List Token} (h : Writes v tokens) : 0 < tokens.length := by
  cases h <;> simp

theorem readBack_bool (b : Bool) (more : List Token) {fuel : ℕ} (hfuel : 1 ≤ fuel) :
    ReadBack style doubleText levels (.bool b) [.bool b] more fuel := by
  obtain ⟨fuel, rfl⟩ := Nat.exists_eq_succ_of_ne_zero (Nat.pos_iff_ne_zero.1 hfuel)
  have htrue : ascii "true" = [116, 114, 117, 101] := by decide +kernel
  have hfalse : ascii "false" = [102, 97, 108, 115, 101] := by decide +kernel
  cases b with
  | true =>
    refine ⟨116, [114, 117, 101] ++ write style doubleText (counted levels) more, ?_, rfl, by decide, ?_⟩
    · simp [write, before, body, after, htrue]
    · simp [parseValue, skip_cons, isBlank, literal, htrue]
  | false =>
    refine ⟨102, [97, 108, 115, 101] ++ write style doubleText (counted levels) more, ?_, rfl, by decide, ?_⟩
    · simp [write, before, body, after, hfalse]
    · simp [parseValue, skip_cons, isBlank, literal, hfalse]

/-- the first byte of a number -/
theorem number_start {c : UInt8} (h : c = 45 ∨ isDigit c = true) :
    isBlank c = false ∧ c ≠ 93 ∧ c ≠ 123 ∧ c ≠ 91 ∧ c ≠ 34 ∧ c ≠ 116 ∧ c ≠ 102 ∧ c ≠ 110 := by
  rcases h with rfl | h
  · decide
  · have hblank : isBlank c = false := by
      by_contra hblank
      rw [not_isDigit_of_isBlank (by simpa using hblank)] at h
      cases h
    exact ⟨hblank, ne_of_isDigit h rfl, ne_of_isDigit h rfl, ne_of_isDigit h rfl, ne_of_isDigit h rfl,
      ne_of_isDigit h rfl, ne_of_isDigit h rfl, ne_of_isDigit h rfl⟩

theorem readBack_int (i : ℤ) (more : List Token) {fuel : ℕ} (hfuel : 1 ≤ fuel) (hlevels : levels ≠ [] ∨ more = []) :
    ReadBack style doubleText levels (.int i) [.int i] more fuel := by
  obtain ⟨fuel, rfl⟩ := Nat.exists_eq_succ_of_ne_zero (Nat.pos_iff_ne_zero.1 hfuel)
  have hdigit : NoDigit (write style doubleText (counted levels) more) := by
    rcases hlevels with hlevels | rfl
    · exact noDigit_write hlevels more
    · simp [write, NoDigit]
  have hparse := parseInt_decimalInt i hdigit
  obtain ⟨c, digits, hcons⟩ := List.exists_cons_of_ne_nil (decimalInt_ne_nil i)
  obtain ⟨hblank, hbracket, h1, h2, h3, h4, h5, h6⟩ := number_start (mem_decimalInt (hcons ▸ List.mem_cons_self))
  rw [hcons] at hparse
  refine ⟨c, digits ++ write style doubleText (counted levels) more, ?_, hblank, hbracket, ?_⟩
  · simp [write, before, after, body_int, hcons]
  · rw [parseValue, skip_cons hblank]
    simp only [h1, h2, h3, h4, h5, h6, if_false]
    rw [← List.cons_append, hparse]
    rfl

theorem readBack_string (s : String) (more : List Token) {fuel : ℕ} (hfuel : 1 ≤ fuel) :
    ReadBack style doubleText levels (.string s) [.string (utf8 s)] more fuel := by
  obtain ⟨fuel, rfl⟩ := Nat.exists_eq_succ_of_ne_zero (Nat.pos_iff_ne_zero.1 hfuel)
  refine ⟨34, escape (utf8 s) ++ 34 :: write style doubleText (counted levels) more, ?_, rfl, by decide, ?_⟩
  · simp [write, before, body, after]
  · rw [parseValue, skip_cons rfl]
    simp only [parseString_utf8]
    rfl

/-- the comma before an element, or none before the first -/
theorem parseElements_next (style : Style) (levels : List Level) (n : ℕ) {c : UInt8} (hblank : isBlank c = false)
    (hc : c ≠ 93) (text : List UInt8) (fuel : ℕ) :
    parseElements (fuel + 1) (decide (n = 0)) (separator style (⟨true, n⟩ :: levels) ++ c :: text) = (do
      let (v, text) ← parseValue fuel (c :: text)
      let (elements, text) ← parseElements fuel false text
      return (v :: elements, text)) := by
  by_cases hn : n = 0
  · subst hn
    have hfirst := separator_first style true levels
    rw [parseElements, skip_blank hfirst, skip_cons hblank, if_neg (by simpa using hc)]
    simp only [decide_true, if_true, Option.bind_eq_bind, Option.bind_some, parseValue_blank fuel hfirst]
  · obtain ⟨blanks, hcomma, hblanks⟩ := separator_next style hn (Or.inl rfl) levels
    have hexpect : expect 44 (44 :: (blanks ++ c :: text)) = some (blanks ++ c :: text) := expect_cons blank_nil rfl
    rw [hcomma, List.cons_append, parseElements, skip_cons rfl, if_neg (by simp)]
    simp only [hn, decide_false, Bool.false_eq_true, if_false, hexpect, Option.bind_eq_bind, Option.bind_some,
      parseValue_blank fuel hblanks]

/-- the key of a member, with the comma before it, and the colon behind it -/
theorem parseMembers_next (style : Style) (levels : List Level) {n : ℕ} (hn : n % 2 = 0) (name : String)
    (text : List UInt8) (fuel : ℕ) :
    parseMembers (fuel + 1) (decide (n = 0)) (separator style (⟨false, n⟩ :: levels) ++
        34 :: (escape (utf8 name) ++ 34 :: (separator style (⟨false, n + 1⟩ :: levels) ++ text))) = (do
      let (v, text) ← parseValue fuel text
      let (members, text) ← parseMembers fuel false text
      return (.mk name v :: members, text)) := by
  obtain ⟨colonBlanks, hcolon, hcolonBlanks⟩ := separator_value style (show (n + 1) % 2 = 1 by omega) levels
  have hvalue : expect 58 (separator style (⟨false, n + 1⟩ :: levels) ++ text) = some (colonBlanks ++ text) := by
    rw [hcolon]
    exact expect_cons blank_nil rfl
  by_cases hzero : n = 0
  · subst hzero
    have hfirst := separator_first style false levels
    rw [parseMembers, skip_blank hfirst, skip_cons rfl, if_neg (by simp)]
    simp only [decide_true, if_true, Option.bind_eq_bind, Option.bind_some,
      expect_cons hfirst (show isBlank 34 = false from rfl), parseString_utf8, hvalue,
      parseValue_blank fuel hcolonBlanks]
  · obtain ⟨blanks, hcomma, hblanks⟩ := separator_next style hzero (Or.inr hn) levels
    have hexpect : ∀ text, expect 44 (44 :: text) = some text := fun text => expect_cons blank_nil rfl
    rw [hcomma, List.cons_append, parseMembers, skip_cons rfl, if_neg (by simp)]
    simp only [hzero, decide_false, Bool.false_eq_true, if_false, hexpect, Option.bind_eq_bind, Option.bind_some,
      expect_cons hblanks (show isBlank 34 = false from rfl), parseString_utf8, hvalue,
      parseValue_blank fuel hcolonBlanks]

theorem parseElements_end (h : Blank blanks) (first : Bool) (fuel : ℕ) :
    parseElements (fuel + 1) first (blanks ++ 93 :: text) = some ([], text) := by
  rw [parseElements, skip_blank h, skip_cons rfl]
  exact if_pos rfl

theorem parseMembers_end (h : Blank blanks) (first : Bool) (fuel : ℕ) :
    parseMembers (fuel + 1) first (blanks ++ 125 :: text) = some ([], text) := by
  rw [parseMembers, skip_blank h, skip_cons rfl]
  exact if_pos rfl

mutual

theorem readBack : ∀ {v : Value} {tokens : List Token}, Writes v tokens → ∀ (levels : List Level) (more : List Token)
    {fuel : ℕ}, tokens.length ≤ fuel → levels ≠ [] ∨ more = [] → ReadBack style doubleText levels v tokens more fuel
  | _, _, .bool b, _, more, _, hfuel, _ => readBack_bool b more hfuel
  | _, _, .int i _ _, _, more, _, hfuel, hlevels => readBack_int i more hfuel hlevels
  | _, _, .string s, _, more, _, hfuel, _ => readBack_string s more hfuel
  | _, _, @Writes.array elements tokens h, levels, more, fuel, hfuel, _ => by
    rw [List.length_append, List.length_cons, List.length_singleton] at hfuel
    obtain ⟨fuel, rfl⟩ : ∃ n, fuel = n + 1 := ⟨fuel - 1, by omega⟩
    have helements := readBack_elements h (counted levels) 0 more (show tokens.length + 1 ≤ fuel by omega)
    refine ⟨91, write style doubleText (⟨true, 0⟩ :: counted levels) (tokens ++ .endArray :: more), ?_, rfl,
      by decide, ?_⟩
    · simp [write, before, body, after, ascii_startArray]
    · rw [parseValue, skip_cons rfl]
      exact congrArg (Option.map _) helements
  | _, _, @Writes.object members tokens h, levels, more, fuel, hfuel, _ => by
    rw [List.length_append, List.length_cons, List.length_singleton] at hfuel
    obtain ⟨fuel, rfl⟩ : ∃ n, fuel = n + 1 := ⟨fuel - 1, by omega⟩
    have hmembers := readBack_members h (counted levels) 0 more rfl (show tokens.length + 1 ≤ fuel by omega)
    refine ⟨123, write style doubleText (⟨false, 0⟩ :: counted levels) (tokens ++ .endObject :: more), ?_, rfl,
      by decide, ?_⟩
    · simp [write, before, body, after, ascii_startObject]
    · rw [parseValue, skip_cons rfl]
      exact congrArg (Option.map _) hmembers

theorem readBack_elements : ∀ {elements : List Value} {tokens : List Token}, WritesElements elements tokens →
    ∀ (levels : List Level) (n : ℕ) (more : List Token) {fuel : ℕ}, tokens.length + 1 ≤ fuel →
    parseElements fuel (decide (n = 0)) (write style doubleText (⟨true, n⟩ :: levels) (tokens ++ .endArray :: more)) =
      some (elements, write style doubleText levels more)
  | _, _, .nil, levels, n, more, fuel, hfuel => by
    obtain ⟨fuel, rfl⟩ : ∃ k, fuel = k + 1 := ⟨fuel - 1, by omega⟩
    rw [List.nil_append, write, before, body, ascii_endArray, List.append_assoc]
    exact parseElements_end (blank_closing style _) _ fuel
  | _, _, @WritesElements.cons v elements first tokens hv h, levels, n, more, fuel, hfuel => by
    obtain ⟨fuel, rfl⟩ : ∃ k, fuel = k + 1 := ⟨fuel - 1, by omega⟩
    have hpos := hv.length_pos
    rw [List.length_append] at hfuel
    obtain ⟨c, tail, htext, hblank, hc, hparse⟩ := readBack hv (⟨true, n⟩ :: levels) (tokens ++ .endArray :: more)
      (show first.length ≤ fuel by omega) (Or.inl (List.cons_ne_nil _ _))
    have helements := readBack_elements h levels (n + 1) more (show tokens.length + 1 ≤ fuel by omega)
    rw [List.append_assoc, htext, parseElements_next style levels n hblank hc, hparse]
    rw [show decide (n + 1 = 0) = false by simp] at helements
    simp only [counted, Option.bind_eq_bind, Option.bind_some, helements]
    rfl

theorem readBack_members : ∀ {members : List Member} {tokens : List Token}, WritesMembers members tokens →
    ∀ (levels : List Level) (n : ℕ) (more : List Token) {fuel : ℕ}, n % 2 = 0 → tokens.length + 1 ≤ fuel →
    parseMembers fuel (decide (n = 0)) (write style doubleText (⟨false, n⟩ :: levels) (tokens ++ .endObject :: more)) =
      some (members, write style doubleText levels more)
  | _, _, .nil, levels, n, more, fuel, hn, hfuel => by
    obtain ⟨fuel, rfl⟩ : ∃ k, fuel = k + 1 := ⟨fuel - 1, by omega⟩
    rw [List.nil_append, write, before, body, ascii_endObject, List.append_assoc]
    exact parseMembers_end (blank_closing style _) _ fuel
  | _, _, @WritesMembers.cons name v members first tokens hv h, levels, n, more, fuel, hn, hfuel => by
    obtain ⟨fuel, rfl⟩ : ∃ k, fuel = k + 1 := ⟨fuel - 1, by omega⟩
    have hpos := hv.length_pos
    rw [List.cons_append, List.length_cons, List.length_append] at hfuel
    obtain ⟨c, tail, htext, -, -, hparse⟩ := readBack hv (⟨false, n + 1⟩ :: levels) (tokens ++ .endObject :: more)
      (show first.length ≤ fuel by omega) (Or.inl (List.cons_ne_nil _ _))
    have hmembers := readBack_members h levels (n + 2) more (by omega) (show tokens.length + 1 ≤ fuel by omega)
    have hkey : write style doubleText (⟨false, n⟩ :: levels)
        (.string (utf8 name) :: first ++ tokens ++ .endObject :: more) =
        separator style (⟨false, n⟩ :: levels) ++ 34 :: (escape (utf8 name) ++ 34 ::
          (separator style (⟨false, n + 1⟩ :: levels) ++ c :: tail)) := by
      rw [← htext]
      simp [write, before, body, after, counted]
    rw [hkey, parseMembers_next style levels hn, hparse]
    rw [show decide (n + 2 = 0) = false by simp] at hmembers
    simp only [counted, Option.bind_eq_bind, Option.bind_some, hmembers]
    rfl

end

/-- a text has a byte for each token -/
theorem length_write (style : Style) (hdouble : ∀ bits, doubleText bits ≠ []) (levels : List Level)
    (tokens : List Token) : tokens.length ≤ (write style doubleText levels tokens).length := by
  induction tokens generalizing levels with
  | nil => exact Nat.zero_le _
  | cons t tokens ih =>
    have hbody : 0 < (body doubleText t).length := by
      rw [List.length_pos_iff]
      cases t with
      | int i => rw [body_int]; exact decimalInt_ne_nil i
      | double bits => exact hdouble bits
      | string s => simp [body]
      | bool b => rw [body]; cases b <;> decide +kernel
      | _ => rw [body]; decide +kernel
    have hrest := ih (after levels t)
    rw [write, List.length_append, List.length_append, List.length_cons]
    omega

/-- **The round trip.** What is written for a value is read back. -/
theorem parse_write (style : Style) (hdouble : ∀ bits, doubleText bits ≠ []) {v : Value} {tokens : List Token}
    (h : Writes v tokens) : parse (write style doubleText [] tokens) = some v := by
  have hlength := length_write style hdouble [] tokens
  have hread : ReadBack style doubleText [] v tokens [] ((write style doubleText [] tokens).length + 1) :=
    readBack h [] [] (by omega) (Or.inr rfl)
  obtain ⟨c, tail, htext, -, -, hparse⟩ := hread
  rw [List.append_nil] at htext
  have hstart : write style doubleText [] tokens = c :: tail := by
    rw [htext]
    cases style <;> rfl
  rw [hstart] at hparse ⊢
  rw [parse, hparse]
  rfl

/-! ## Texts as C strings -/

theorem separator_no_nul (style : Style) (levels : List Level) : 0 ∉ separator style levels := by
  have hcomma : ascii "," = [44] := by decide +kernel
  have hcolon : ascii ":" = [58] := by decide +kernel
  have hcolonBlank : ascii ": " = [58, 32] := by decide +kernel
  cases levels with
  | nil => cases style <;> simp [separator]
  | cons level levels =>
    cases style <;> simp only [separator, newLine, hcomma, hcolon, hcolonBlank] <;> split_ifs <;> simp

theorem closing_no_nul (style : Style) (levels : List Level) : 0 ∉ closing style levels := fun hmem =>
  absurd (blank_closing style levels 0 hmem) (by decide)

theorem escape_no_nul (s : List UInt8) : 0 ∉ escape s := by
  have hbyte : ∀ n < 256, 0 ∉ escapeByte (UInt8.ofNat n) := by decide +kernel
  intro hmem
  obtain ⟨c, -, hc⟩ := List.mem_flatMap.1 hmem
  have hc' := hbyte c.toNat c.toNat_lt
  rw [UInt8.ofNat_toNat] at hc'
  exact hc' hc

theorem body_no_nul (hdouble : ∀ bits, 0 ∉ doubleText bits) (t : Token) : 0 ∉ body doubleText t := by
  cases t with
  | int i =>
    rw [body_int]
    intro hmem
    rcases mem_decimalInt hmem with h | h <;> exact absurd h (by decide)
  | double bits => exact hdouble bits
  | string s => simpa [body] using escape_no_nul s
  | bool b => rw [body]; cases b <;> decide +kernel
  | _ => rw [body]; decide +kernel

theorem write_no_nul (style : Style) (hdouble : ∀ bits, 0 ∉ doubleText bits) (levels : List Level)
    (tokens : List Token) : 0 ∉ write style doubleText levels tokens := by
  induction tokens generalizing levels with
  | nil => exact List.not_mem_nil
  | cons t tokens ih =>
    have hbefore : 0 ∉ before style levels t := by
      cases t with
      | endObject => exact closing_no_nul style levels
      | endArray => exact closing_no_nul style levels
      | _ => exact separator_no_nul style levels
    have hbody := body_no_nul hdouble t
    have hrest := ih (after levels t)
    rw [write, List.mem_append, List.mem_append]
    exact not_or.2 ⟨not_or.2 ⟨hbefore, hbody⟩, hrest⟩

end Core.Json
