/-
Lean model of `JsonReader` (`bboy/base/json/jsonreader.cc`): `Init` and the extraction of integers and strings.

RapidJSON is a parameter: what its writers make of a sequence of calls, its parser, the tests of a value and its accessors,
with what is documented of them (`Documented`). An assertion that trips is `none`. A field is named by a C string, as in the
source.

- `roundTrip_exact`: a value that was written under a field name is read back exactly if it is not negative, and a string
  exactly if it has no NUL, in either mode.
- `roundTrip_broken`: -1 trips an assertion, and a string with a NUL is cut.
Witness: `roundTrip_exact_fields`.
-/
import Bboy.Base.JsonWriter
import Bboy.Base.Status
import Bboy.Core.JsonParser
import Bboy.Core.MachineInt

namespace Bboy.JsonReader

open Core Core.Json
open JsonWriter (Mode rapidText)

/-! ## RapidJSON -/

/-- a `const char*` that names a field -/
structure FieldName where
  name : String
  noNul : 0 ∉ utf8 name

/-- RapidJSON, with a value of the document for what a `Value` points to -/
structure RapidJson where
  /-- what the writers make of a sequence of calls -/
  text : Mode → List Token → List UInt8
  /-- `Parse`, or the text of its error -/
  parse : List UInt8 → Except String Value
  isInt : Value → Bool
  isInt64 : Value → Bool
  isString : Value → Bool
  isNull : Value → Bool
  getType : Value → ℕ
  getUint : Value → Option ℕ
  getUint64 : Value → Option ℕ
  /-- the bytes from the pointer on -/
  getString : Value → Option (List UInt8)
  hasMember : Value → FieldName → Option Bool
  /-- `operator[]` -/
  member : Value → FieldName → Option Value

/-- the first member with a name -/
def findMember (name : String) : List Member → Option Value
  | [] => none
  | .mk other v :: members => if other = name then some v else findMember name members

/-- The writers and the parser conform to JSON: control characters are escaped, and the parser reads back an object that the
writers wrote. `GetUint` and `GetUint64` assert that the number is unsigned, and `GetString` is terminated by a NUL. -/
structure RapidJson.Documented (rj : RapidJson) : Prop where
  noNul : ∀ mode {members : List Member} {tokens : List Token}, Writes (.object members) tokens → 0 ∉ rj.text mode tokens
  parses : ∀ mode {members : List Member} {tokens : List Token}, Writes (.object members) tokens →
    rj.parse (rj.text mode tokens) = .ok (.object members)
  isInt : ∀ i, rj.isInt (.int i) = true ↔ -2 ^ 31 ≤ i ∧ i < 2 ^ 31
  isInt64 : ∀ i, rj.isInt64 (.int i) = true ↔ -2 ^ 63 ≤ i ∧ i < 2 ^ 63
  isString : ∀ s, rj.isString (.string s) = true
  getUint : ∀ i, rj.getUint (.int i) = if 0 ≤ i ∧ i < 2 ^ 32 then some i.toNat else none
  getUint64 : ∀ i, rj.getUint64 (.int i) = if 0 ≤ i ∧ i < 2 ^ 64 then some i.toNat else none
  getString : ∀ s, ∃ rest, rj.getString (.string s) = some (utf8 s ++ 0 :: rest)
  hasMember : ∀ members field, rj.hasMember (.object members) field = some (findMember field.name members).isSome
  member : ∀ members field v, findMember field.name members = some v → rj.member (.object members) field = some v

/-! ## Model -/

/-- the bytes up to the first NUL -/
def cString (bytes : List UInt8) : List UInt8 := bytes.takeWhile (· != 0)

variable (rj : RapidJson)

def init (text : List UInt8) : Except BadStatus Value :=
  match rj.parse (cString text) with
  | .error e => .error (.corruption (BadStatus.joined "JSON text is corrupt" e))
  | .ok document => .ok document

def extractField (object : Value) (field : Option FieldName) : Option (Except BadStatus Value) :=
  match field with
  | none => some (.ok object)
  | some field => do
    if !(← rj.hasMember object field) then return .error (.notFound "Missing field" field.name (-1))
    return .ok (← rj.member object field)

def wrongType (expected : String) (val : Value) : BadStatus :=
  .invalidArgument ("Wrong type during field extraction: expected " ++ expected ++ " but got " ++ toString (rj.getType val))

/-- the extraction of a number: the test, its name in the message, the accessor, and the conversion to the result -/
def extractNumber (isType : Value → Bool) (expected : String) (get : Value → Option ℕ) (convert : ℤ → ℤ) (object : Value)
    (field : Option FieldName) (result : ℤ) : Option (Status × ℤ) := do
  match ← extractField rj object field with
  | .error e => return (.bad e, result)
  | .ok val =>
    if !isType val then return (.bad (wrongType rj expected val), result)
    return (.ok, convert (← get val))

/-- the conversion to `int64_t` -/
def int64 (x : ℤ) : ℤ := (x + 2 ^ 63) % 2 ^ 64 - 2 ^ 63

def extractInt32 : Value → Option FieldName → ℤ → Option (Status × ℤ) :=
  extractNumber rj rj.isInt "int32" rj.getUint int32

def extractInt64 : Value → Option FieldName → ℤ → Option (Status × ℤ) :=
  extractNumber rj rj.isInt64 "int64" rj.getUint64 int64

def extractString (object : Value) (field : Option FieldName) (result : List UInt8) :
    Option (Status × List UInt8) := do
  match ← extractField rj object field with
  | .error e => return (.bad e, result)
  | .ok val =>
    if !rj.isString val then
      if rj.isNull val then return (.ok, [])
      return (.bad (wrongType rj "string" val), result)
    -- `assign` from a pointer
    return (.ok, cString (← rj.getString val))

/-- a reader that is initialised with the text, and the field of its root -/
def read {α : Type} (text : List UInt8) (field : FieldName) (extract : Value → Option FieldName → α → Option (Status × α))
    (result : α) : Option (Status × α) :=
  match init rj text with
  | .error e => some (.bad e, result)
  | .ok root => extract root (some field) result

/-! ## Extraction -/

variable {rj : RapidJson} {members : List Member} {field : FieldName}

theorem extractField_found (h : rj.Documented) {v : Value} (hfound : findMember field.name members = some v) :
    extractField rj (.object members) (some field) = some (.ok v) := by
  simp [extractField, h.hasMember, h.member members field v hfound, hfound]

/-- an accessor of unsigned numbers trips an assertion for the negative ones that pass the test -/
theorem extractNumber_eq (h : rj.Documented) {isType : Value → Bool} {get : Value → Option ℕ} {convert : ℤ → ℤ} {i : ℤ}
    (hfound : findMember field.name members = some (.int i)) (htype : isType (.int i) = true)
    (hget : get (.int i) = if 0 ≤ i then some i.toNat else none) (hconvert : convert i = i) (expected : String) (result : ℤ) :
    extractNumber rj isType expected get convert (.object members) (some field) result =
      if 0 ≤ i then some (.ok, i) else none := by
  rw [extractNumber, extractField_found h hfound]
  simp only [Option.bind_eq_bind, Option.bind_some, htype, Bool.not_true, Bool.false_eq_true, if_false, hget]
  by_cases hi : 0 ≤ i
  · have hvalue : convert (i.toNat : ℤ) = i := by rw [Int.toNat_of_nonneg hi, hconvert]
    rw [if_pos hi, if_pos hi, Option.bind_some, hvalue]
    rfl
  · rw [if_neg hi, if_neg hi]
    rfl

theorem extractInt32_eq (h : rj.Documented) {v : Int32} (hfound : findMember field.name members = some (.int v.toInt))
    (result : ℤ) :
    extractInt32 rj (.object members) (some field) result = if 0 ≤ v.toInt then some (.ok, v.toInt) else none := by
  have hlow := v.le_toInt
  have hhigh := v.toInt_lt
  have hget : rj.getUint (.int v.toInt) = if 0 ≤ v.toInt then some v.toInt.toNat else none := by
    rw [h.getUint]
    exact if_congr (and_iff_left (by omega)) rfl rfl
  exact extractNumber_eq h hfound ((h.isInt _).2 ⟨hlow, hhigh⟩) hget (int32_of_range hlow hhigh) "int32" result

theorem extractInt64_eq (h : rj.Documented) {v : Int64} (hfound : findMember field.name members = some (.int v.toInt))
    (result : ℤ) :
    extractInt64 rj (.object members) (some field) result = if 0 ≤ v.toInt then some (.ok, v.toInt) else none := by
  have hlow := v.le_toInt
  have hhigh := v.toInt_lt
  have hget : rj.getUint64 (.int v.toInt) = if 0 ≤ v.toInt then some v.toInt.toNat else none := by
    rw [h.getUint64]
    exact if_congr (and_iff_left (by omega)) rfl rfl
  have hconvert : int64 v.toInt = v.toInt := by
    unfold int64
    omega
  exact extractNumber_eq h hfound ((h.isInt64 _).2 ⟨hlow, hhigh⟩) hget hconvert "int64" result

/-- the terminator ends the string, if no other NUL does -/
theorem cString_terminated (bytes rest : List UInt8) : cString (bytes ++ 0 :: rest) = cString bytes := by
  rw [cString, List.takeWhile_append]
  split_ifs with hall
  · rw [List.takeWhile_cons_of_neg (by decide), List.append_nil]
    exact ((List.takeWhile_prefix _).eq_of_length hall).symm
  · rfl

/-- a string is read up to its first NUL -/
theorem extractString_eq (h : rj.Documented) {s : String} (hfound : findMember field.name members = some (.string s))
    (result : List UInt8) :
    extractString rj (.object members) (some field) result = some (.ok, cString (utf8 s)) := by
  obtain ⟨rest, hbytes⟩ := h.getString s
  rw [extractString, extractField_found h hfound]
  simp [h.isString, hbytes, cString_terminated]

theorem cString_eq_self {bytes : List UInt8} : cString bytes = bytes ↔ 0 ∉ bytes := by
  rw [cString, List.takeWhile_eq_self_iff]
  constructor
  · intro h hmem
    simpa using h 0 hmem
  · intro h c hc
    exact bne_iff_ne.2 fun hzero => h (hzero ▸ hc)

/-! ## The round trip -/

variable {tokens : List Token}

/-- reading from what was written is extracting from the object -/
theorem read_written {α : Type} (h : rj.Documented) (mode : Mode) (hwritten : Writes (.object members) tokens)
    (extract : Value → Option FieldName → α → Option (Status × α)) (result : α) :
    read rj (rj.text mode tokens) field extract result = extract (.object members) (some field) result := by
  have hinit : init rj (rj.text mode tokens) = .ok (.object members) := by
    rw [init, cString_eq_self.2 (h.noNul mode hwritten), h.parses mode hwritten]
  rw [read, hinit]

/-- **The round trip.** What was written under a field name is read back exactly if it is a number that is not negative,
or a string without a NUL; no assertion trips then. -/
theorem roundTrip_exact (rj : RapidJson) (h : rj.Documented) (mode : Mode) (members : List Member) (tokens : List Token)
    (hwritten : Writes (.object members) tokens) (field : FieldName) :
    (∀ (v : Int32) (result : ℤ), findMember field.name members = some (.int v.toInt) →
      (read rj (rj.text mode tokens) field (extractInt32 rj) result = some (.ok, v.toInt) ↔ 0 ≤ v.toInt)) ∧
    (∀ (v : Int64) (result : ℤ), findMember field.name members = some (.int v.toInt) →
      (read rj (rj.text mode tokens) field (extractInt64 rj) result = some (.ok, v.toInt) ↔ 0 ≤ v.toInt)) ∧
    ∀ (s : String) (result : List UInt8), findMember field.name members = some (.string s) →
      (read rj (rj.text mode tokens) field (extractString rj) result = some (.ok, utf8 s) ↔ 0 ∉ utf8 s) := by
  refine ⟨fun v result hfound => ?_, fun v result hfound => ?_, fun s result hfound => ?_⟩
  · rw [read_written h mode hwritten, extractInt32_eq h hfound]
    simp
  · rw [read_written h mode hwritten, extractInt64_eq h hfound]
    simp
  · rw [read_written h mode hwritten, extractString_eq h hfound, ← cString_eq_self]
    simp

/-! ## Witnesses -/

/-- the reader of JSON text in the place of RapidJSON's parser -/
def rapidParse (text : List UInt8) : Except String Value :=
  match Json.parse text with
  | some v => .ok v
  | none => .error "Invalid value"

/-- a test for a signed number -/
def isSigned (half : ℤ) : Value → Bool
  | .int i => -half ≤ i ∧ i < half
  | _ => false

/-- an accessor that asserts an unsigned number below a bound -/
def getUnsigned (bound : ℤ) : Value → Option ℕ
  | .int i => if 0 ≤ i ∧ i < bound then some i.toNat else none
  | _ => none

/-- RapidJSON, with the JSON text of the core -/
def rapidJson : RapidJson where
  text := rapidText
  parse := rapidParse
  isInt := isSigned (2 ^ 31)
  isInt64 := isSigned (2 ^ 63)
  isString v := v matches .string _
  isNull v := v matches .null
  getType
    | .null => 0
    | .bool false => 1
    | .bool true => 2
    | .object _ => 3
    | .array _ => 4
    | .string _ => 5
    | .int _ | .double _ => 6
  getUint := getUnsigned (2 ^ 32)
  getUint64 := getUnsigned (2 ^ 64)
  getString
    | .string s => some (utf8 s ++ [0])
    | _ => none
  hasMember
    | .object members, field => some (findMember field.name members).isSome
    | _, _ => none
  member
    | .object members, field => findMember field.name members
    | _, _ => none

theorem rapidJson_documented : rapidJson.Documented := by
  have hdigits : ∀ bits : UInt64, ascii (toString bits) = decimalInt bits.toNat := fun bits => ascii_toString bits.toNat
  have hsigned : ∀ half i, isSigned half (.int i) = true ↔ -half ≤ i ∧ i < half := fun half i => decide_eq_true_iff
  refine ⟨?_, ?_, hsigned _, hsigned _, fun s => rfl, fun i => rfl, fun i => rfl, fun s => ⟨[], rfl⟩, fun _ _ => rfl,
    fun _ _ _ hfound => hfound⟩
  · intro mode members tokens hwritten
    apply write_no_nul
    intro bits hmem
    rw [hdigits] at hmem
    rcases mem_decimalInt hmem with h | h <;> exact absurd h (by decide)
  · intro mode members tokens hwritten
    have hdouble : ∀ bits : UInt64, ascii (toString bits) ≠ [] := fun bits => hdigits bits ▸ decimalInt_ne_nil _
    have hparse : Json.parse (rapidText mode tokens) = some (.object members) := parse_write _ hdouble hwritten
    change rapidParse (rapidText mode tokens) = _
    rw [rapidParse, hparse]

/-- an object with a number and a string -/
def fields (i : ℤ) (s : String) : List Member := [.mk "n" (.int i), .mk "s" (.string s)]

def fieldsTokens (i : ℤ) (s : String) : List Token :=
  [.startObject, .string (utf8 "n"), .int i, .string (utf8 "s"), .string (utf8 s), .endObject]

theorem fields_written {i : ℤ} (hlow : -2 ^ 63 ≤ i) (hhigh : i < 2 ^ 64) (s : String) :
    Writes (.object (fields i s)) (fieldsTokens i s) :=
  .object (.cons "n" (.int i hlow hhigh) (.cons "s" (.string s) .nil))

def fieldN : FieldName := ⟨"n", by decide +kernel⟩

def fieldS : FieldName := ⟨"s", by decide +kernel⟩

/-- **Read back wrongly.** -1 trips an assertion, and a string with a NUL is cut there. -/
theorem roundTrip_broken :
    rapidText .compact (fieldsTokens (-1) "a\x00b") = ascii "\x7b\"n\":-1,\"s\":\"a\\u0000b\"\x7d" ∧
      ∀ mode,
        read rapidJson (rapidText mode (fieldsTokens (-1) "a\x00b")) fieldN (extractInt32 rapidJson) 0 = none ∧
          read rapidJson (rapidText mode (fieldsTokens (-1) "a\x00b")) fieldN (extractInt64 rapidJson) 0 = none ∧
          read rapidJson (rapidText mode (fieldsTokens (-1) "a\x00b")) fieldS (extractString rapidJson) [] =
            some (.ok, utf8 "a") := by
  refine ⟨by decide +kernel, fun mode => ?_⟩
  have hwritten : Writes (.object (fields (-1) "a\x00b")) (fieldsTokens (-1) "a\x00b") :=
    fields_written (by norm_num) (by norm_num) _
  have hread : ∀ {α : Type} (field : FieldName) (extract : Value → Option FieldName → α → Option (Status × α)) (result : α),
      read rapidJson (rapidText mode (fieldsTokens (-1) "a\x00b")) field extract result =
        extract (.object (fields (-1) "a\x00b")) (some field) result :=
    fun _ => read_written rapidJson_documented mode hwritten
  have h32 : findMember fieldN.name (fields (-1) "a\x00b") = some (.int (-1 : Int32).toInt) := rfl
  have h64 : findMember fieldN.name (fields (-1) "a\x00b") = some (.int (-1 : Int64).toInt) := rfl
  have hs : findMember fieldS.name (fields (-1) "a\x00b") = some (.string "a\x00b") := rfl
  have hcut : cString (utf8 "a\x00b") = utf8 "a" := by decide +kernel
  rw [hread, hread, hread, extractInt32_eq rapidJson_documented h32, extractInt64_eq rapidJson_documented h64,
    extractString_eq rapidJson_documented hs, hcut]
  exact ⟨if_neg (by decide), if_neg (by decide), rfl⟩

theorem roundTrip_exact_fields :
    read rapidJson (rapidText .pretty (fieldsTokens 7 "ab")) fieldN (extractInt32 rapidJson) 0 = some (.ok, 7) ∧
      read rapidJson (rapidText .pretty (fieldsTokens 7 "ab")) fieldN (extractInt64 rapidJson) 0 = some (.ok, 7) ∧
      read rapidJson (rapidText .pretty (fieldsTokens 7 "ab")) fieldS (extractString rapidJson) [] =
        some (.ok, utf8 "ab") := by
  have hwritten : Writes (.object (fields 7 "ab")) (fieldsTokens 7 "ab") := fields_written (by norm_num) (by norm_num) _
  have h := roundTrip_exact rapidJson rapidJson_documented .pretty _ _ hwritten
  refine ⟨((h fieldN).1 7 0 rfl).2 (by decide), ((h fieldN).2.1 7 0 rfl).2 (by decide), ((h fieldS).2.2 "ab" [] ?_).2 ?_⟩
  · rfl
  · decide +kernel

end Bboy.JsonReader
