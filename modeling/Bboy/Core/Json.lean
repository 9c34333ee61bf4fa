/-
JSON written call by call, as a stream of tokens.

- `Document`: the tokens form one JSON value;
- `SameShape`: two streams that differ in the contents of strings only;
- `write`: a compact and a pretty writer, which put the separators before each token and escape the strings;
- `write_injective`: of streams of one shape, the text tells the contents of all strings.
-/
import Mathlib.Tactic

namespace Core.Json

inductive Token where
  | bool (b : Bool)
  | int (i : ℤ)
  /-- a double by its bits -/
  | double (bits : UInt64)
  | string (s : List UInt8)
  | startObject
  | endObject
  | startArray
  | endArray
  deriving DecidableEq, Repr

/-! ## Documents -/

/-- what comes next in an open part of a document -/
inductive Expects where
  | document
  | element
  | key
  | value
  | nothing
  deriving DecidableEq, Repr

/-- after a value -/
def Expects.filled : Expects → Option Expects
  | .document => some .nothing
  | .element => some .element
  | .value => some .key
  | _ => none

/-- the open parts, the innermost first -/
def accept : Token → List Expects → Option (List Expects)
  | .string _, .key :: levels => some (.value :: levels)
  | .startObject, level :: levels => level.filled.map fun l => .key :: l :: levels
  | .endObject, .key :: levels => some levels
  | .startArray, level :: levels => level.filled.map fun l => .element :: l :: levels
  | .endArray, .element :: levels => some levels
  | .endObject, _ | .endArray, _ => none
  | _, level :: levels => level.filled.map fun l => l :: levels
  | _, [] => none

def acceptAll : List Token → List Expects → Option (List Expects)
  | [], levels => some levels
  | t :: tokens, levels => (accept t levels).bind (acceptAll tokens)

/-- the tokens form one value -/
def Document (tokens : List Token) : Prop := acceptAll tokens [.document] = some [.nothing]

theorem acceptAll_append (a b : List Token) (levels : List Expects) :
    acceptAll (a ++ b) levels = (acceptAll a levels).bind (acceptAll b) := by
  induction a generalizing levels with
  | nil => rfl
  | cons t a ih =>
    rw [List.cons_append, acceptAll, acceptAll, Option.bind_assoc]
    congr 1
    funext next
    exact ih next

/-- a string in the place of a value -/
theorem accept_string {level filled : Expects} (h : level.filled = some filled) (s : List UInt8)
    (levels : List Expects) : accept (.string s) (level :: levels) = some (filled :: levels) := by
  cases level with
  | key => cases h
  | document => simp [accept, h]
  | element => simp [accept, h]
  | value => simp [accept, h]
  | nothing => cases h

/-! ## Shapes -/

/-- the same token, or another string -/
inductive Token.Similar : Token → Token → Prop
  | same (t : Token) : Similar t t
  | string (a b : List UInt8) : Similar (.string a) (.string b)

def SameShape (a b : List Token) : Prop := List.Forall₂ Token.Similar a b

theorem SameShape.refl (a : List Token) : SameShape a a := List.forall₂_same.2 fun t _ => Token.Similar.same t

/-! ## Writers -/

inductive Style where
  | pretty
  | compact
  deriving DecidableEq, Repr

/-- an open array or object and the number of values in it, keys included -/
structure Level where
  inArray : Bool
  valueCount : ℕ

def ascii (s : String) : List UInt8 := s.toList.map fun c => UInt8.ofNat c.toNat

/-- a new line, indented by four blanks for each open part -/
def newLine (depth : ℕ) : List UInt8 := 10 :: List.replicate (4 * depth) 32

/-- what stands between a value and the one before it -/
def separator : Style → List Level → List UInt8
  | _, [] => []
  | .compact, level :: _ =>
    if level.valueCount = 0 then [] else if level.inArray ∨ level.valueCount % 2 = 0 then ascii "," else ascii ":"
  | .pretty, level :: levels =>
    if level.inArray ∨ level.valueCount % 2 = 0 then
      (if level.valueCount = 0 then [] else ascii ",") ++ newLine (levels.length + 1)
    else ascii ": "

/-- what stands before the end of an array or object -/
def closing : Style → List Level → List UInt8
  | .pretty, level :: levels => if level.valueCount = 0 then [] else newLine levels.length
  | _, _ => []

def before (style : Style) (levels : List Level) : Token → List UInt8
  | .endObject | .endArray => closing style levels
  | _ => separator style levels

def counted : List Level → List Level
  | [] => []
  | level :: levels => { level with valueCount := level.valueCount + 1 } :: levels

def after (levels : List Level) : Token → List Level
  | .startObject => ⟨false, 0⟩ :: counted levels
  | .startArray => ⟨true, 0⟩ :: counted levels
  | .endObject | .endArray => levels.tail
  | _ => counted levels

def hexDigit (n : UInt8) : UInt8 := if n < 10 then 48 + n else 55 + n

/-- a byte of a string: quotes, backslashes and control characters are escaped -/
def escapeByte (c : UInt8) : List UInt8 :=
  if c = 34 then [92, 34]
  else if c = 92 then [92, 92]
  else if c = 8 then [92, 98]
  else if c = 12 then [92, 102]
  else if c = 10 then [92, 110]
  else if c = 13 then [92, 114]
  else if c = 9 then [92, 116]
  else if c < 32 then [92, 117, 48, 48, hexDigit (c / 16), hexDigit (c % 16)]
  else [c]

def escape (s : List UInt8) : List UInt8 := s.flatMap escapeByte

/-- `doubleText` prints a double -/
def body (doubleText : UInt64 → List UInt8) : Token → List UInt8
  | .bool b => ascii (if b then "true" else "false")
  | .int i => ascii (toString i)
  | .double bits => doubleText bits
  | .string s => 34 :: escape s ++ [34]
  | .startObject => ascii "\x7b"
  | .endObject => ascii "\x7d"
  | .startArray => ascii "["
  | .endArray => ascii "]"

def write (style : Style) (doubleText : UInt64 → List UInt8) : List Level → List Token → List UInt8
  | _, [] => []
  | levels, t :: tokens =>
    before style levels t ++ body doubleText t ++ write style doubleText (after levels t) tokens

theorem ascii_startArray : ascii "[" = [91] := by decide +kernel

theorem ascii_endArray : ascii "]" = [93] := by decide +kernel

theorem ascii_startObject : ascii "\x7b" = [123] := by decide +kernel

theorem ascii_endObject : ascii "\x7d" = [125] := by decide +kernel

/-! ## The text tells the strings -/

/-- the value of an escape with one letter -/
def shortEscape (c : UInt8) : UInt8 :=
  if c = 98 then 8 else if c = 102 then 12 else if c = 110 then 10 else if c = 114 then 13 else if c = 116 then 9 else c

def hexValue (c : UInt8) : UInt8 := if c < 58 then c - 48 else c - 55

/-- the first byte of a string and the rest of the text -/
def unescapeByte : List UInt8 → Option (UInt8 × List UInt8)
  | [] => none
  | 92 :: 117 :: 48 :: 48 :: high :: low :: rest => some (hexValue high * 16 + hexValue low, rest)
  | 92 :: c :: rest => some (shortEscape c, rest)
  | c :: rest => some (c, rest)

theorem hexValue_hexDigit (c : UInt8) (h : c < 32) :
    hexValue (hexDigit (c / 16)) * 16 + hexValue (hexDigit (c % 16)) = c := by
  have hall : ∀ n < 32, hexValue (hexDigit (UInt8.ofNat n / 16)) * 16 + hexValue (hexDigit (UInt8.ofNat n % 16)) =
      UInt8.ofNat n := by decide
  have hc := hall c.toNat (UInt8.lt_iff_toNat_lt.1 h)
  rwa [UInt8.ofNat_toNat] at hc

/-- the escapes: with one letter, with the code of a control character, and none -/
theorem escapeByte_cases (c : UInt8) :
    (∃ letter ∈ ([34, 92, 98, 102, 110, 114, 116] : List UInt8), shortEscape letter = c ∧ escapeByte c = [92, letter]) ∨
      c < 32 ∧ escapeByte c = [92, 117, 48, 48, hexDigit (c / 16), hexDigit (c % 16)] ∨
      c ≠ 34 ∧ c ≠ 92 ∧ escapeByte c = [c] := by
  by_cases hletter : c ∈ ([34, 92, 8, 12, 10, 13, 9] : List UInt8)
  · have hall : ∀ c ∈ ([34, 92, 8, 12, 10, 13, 9] : List UInt8),
        ∃ letter ∈ ([34, 92, 98, 102, 110, 114, 116] : List UInt8),
          shortEscape letter = c ∧ escapeByte c = [92, letter] := by decide +kernel
    exact Or.inl (hall c hletter)
  simp only [List.mem_cons, List.not_mem_nil, or_false, not_or] at hletter
  obtain ⟨h1, h2, h3, h4, h5, h6, h7⟩ := hletter
  have hescape : escapeByte c =
      if c < 32 then [92, 117, 48, 48, hexDigit (c / 16), hexDigit (c % 16)] else [c] := by
    rw [escapeByte, if_neg h1, if_neg h2, if_neg h3, if_neg h4, if_neg h5, if_neg h6, if_neg h7]
  by_cases hcontrol : c < 32
  · exact Or.inr (Or.inl ⟨hcontrol, by rw [hescape, if_pos hcontrol]⟩)
  · exact Or.inr (Or.inr ⟨h1, h2, by rw [hescape, if_neg hcontrol]⟩)

theorem unescapeByte_escapeByte (c : UInt8) (rest : List UInt8) :
    unescapeByte (escapeByte c ++ rest) = some (c, rest) := by
  obtain ⟨letter, hletter, hshort, hc⟩ | ⟨hlt, hc⟩ | ⟨-, hbackslash, hc⟩ := escapeByte_cases c
  · have hne : letter ≠ 117 := by
      rintro rfl
      exact absurd hletter (by decide)
    rw [hc]
    simp [unescapeByte, hne, hshort]
  · have hhex := hexValue_hexDigit c hlt
    rw [hc]
    simp [unescapeByte, hhex]
  · rw [hc]
    simp [unescapeByte, hbackslash]

/-- an escaped byte does not end the string -/
theorem escapeByte_ne_quote (c : UInt8) (rest tail : List UInt8) : escapeByte c ++ rest ≠ 34 :: tail := by
  intro heq
  obtain ⟨letter, -, -, hc⟩ | ⟨-, hc⟩ | ⟨hquote, -, hc⟩ := escapeByte_cases c
  · rw [hc] at heq
    exact absurd (List.cons.inj heq).1 (by decide)
  · rw [hc] at heq
    exact absurd (List.cons.inj heq).1 (by decide)
  · rw [hc] at heq
    exact hquote (List.cons.inj heq).1

theorem escape_cons (c : UInt8) (s rest : List UInt8) : escape (c :: s) ++ rest = escapeByte c ++ (escape s ++ rest) := by
  rw [escape, List.flatMap_cons, List.append_assoc]
  rfl

/-- two strings in quotes with what follows them -/
theorem escape_injective {a b rest tail : List UInt8} (h : escape a ++ 34 :: rest = escape b ++ 34 :: tail) :
    a = b ∧ rest = tail := by
  induction a generalizing b with
  | nil =>
    cases b with
    | nil => exact ⟨rfl, (List.cons.inj h).2⟩
    | cons c b =>
      rw [escape_cons] at h
      exact absurd h.symm (escapeByte_ne_quote c _ _)
  | cons c a ih =>
    rw [escape_cons] at h
    cases b with
    | nil => exact absurd h (escapeByte_ne_quote c _ _)
    | cons d b =>
      rw [escape_cons] at h
      have hbyte := congrArg unescapeByte h
      rw [unescapeByte_escapeByte, unescapeByte_escapeByte] at hbyte
      obtain ⟨rfl, hrest⟩ := Prod.mk.inj (Option.some.inj hbyte)
      obtain ⟨rfl, htail⟩ := ih hrest
      exact ⟨rfl, htail⟩

variable {style : Style} {doubleText : UInt64 → List UInt8}

theorem before_similar {s t : Token} (h : s.Similar t) (levels : List Level) :
    before style levels s = before style levels t := by
  cases h <;> rfl

theorem after_similar {s t : Token} (h : s.Similar t) (levels : List Level) : after levels s = after levels t := by
  cases h <;> rfl

/-- **Strings can be read back.** Streams of one shape with the same text are the same. -/
theorem write_injective {a b : List Token} (h : SameShape a b) {levels : List Level}
    (htext : write style doubleText levels a = write style doubleText levels b) : a = b := by
  induction h generalizing levels with
  | nil => rfl
  | cons htoken hrest ih =>
    rw [write, write, before_similar htoken, after_similar htoken, List.append_assoc, List.append_assoc] at htext
    have hbody := List.append_cancel_left htext
    cases htoken with
    | same t => rw [ih (List.append_cancel_left hbody)]
    | string s t =>
      rw [body, body, List.cons_append, List.cons_append, List.append_assoc, List.append_assoc] at hbody
      obtain ⟨rfl, hmore⟩ := escape_injective (List.cons.inj hbody).2
      rw [ih hmore]

end Core.Json
