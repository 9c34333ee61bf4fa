/-
Lean model of `JsonWriter::ToJson` (`bboy/base/json/jsonwriter.cc`): the calls of the JSON writer that a protobuf message
makes.

A message is what `ListFields` returns: its set fields and its repeated fields with an element, with the descriptor of each.
A value's constructor is the cpp_type of its field, for `string` and `bytes` the same one. The writers of RapidJSON are a
parameter that turns the calls into a text.

- `protobuf_document`: the calls form one JSON document, for every message.
- `Alike`: two messages differ in the contents of redacted fields only, at any depth.
- `redaction_exact`: of such messages the outputs are the same only if the messages are, in both modes: nothing is redacted.
- `redaction_leaks`: two tokens with different signatures.
Witness: `redaction_exact_tokens`.
-/
import Bboy.Core.Json

namespace Bboy.JsonWriter

open Core.Json

/-! ## Messages -/

structure FieldDescriptor where
  name : String
  /-- the option `bb.REDACT` -/
  redact : Bool
  deriving DecidableEq, Repr

mutual

inductive Value where
  | int32 (v : Int32)
  | int64 (v : Int64)
  | uint32 (v : UInt32)
  | uint64 (v : UInt64)
  /-- a double by its bits -/
  | double (bits : UInt64)
  /-- a float by the bits of the double that it is converted to -/
  | float (bits : UInt64)
  | bool (v : Bool)
  | enum (name : String)
  | string (v : List UInt8)
  | message (fields : List Field)

inductive Field where
  | singular (field : FieldDescriptor) (v : Value)
  | repeated (field : FieldDescriptor) (vs : List Value)

end

structure Message where
  fields : List Field

inductive Mode where
  | pretty
  | compact
  deriving DecidableEq, Repr

/-! ## The writer -/

mutual

/-- the switch of `ProtobufField`, and the same one in `ProtobufRepeatedField` -/
def protobufField : Value → List Token
  | .int32 v => [.int v.toInt]
  | .int64 v => [.int v.toInt]
  | .uint32 v => [.int v.toNat]
  | .uint64 v => [.int v.toNat]
  | .double bits => [.double bits]
  | .float bits => [.double bits]
  | .bool v => [.bool v]
  | .enum name => [.string (ascii name)]
  -- the call that redacts is not compiled: the option of the field is not read
  | .string v => [.string v]
  | .message fields => .startObject :: protobufFields fields ++ [.endObject]

/-- the loop of `Protobuf` -/
def protobufFields : List Field → List Token
  | [] => []
  | .singular field v :: fields => .string (ascii field.name) :: protobufField v ++ protobufFields fields
  | .repeated field vs :: fields =>
    .string (ascii field.name) :: .startArray :: protobufRepeatedFields vs ++ .endArray :: protobufFields fields

/-- a call of `ProtobufRepeatedField` for each index -/
def protobufRepeatedFields : List Value → List Token
  | [] => []
  | v :: vs => protobufField v ++ protobufRepeatedFields vs

end

def protobuf (pb : Message) : List Token := protobufField (.message pb.fields)

/-- `text` is what the RapidJSON writer of a mode makes of its calls -/
def toJson (text : Mode → List Token → List UInt8) (pb : Message) (mode : Mode) : List UInt8 := text mode (protobuf pb)

/-! ## Documents -/

mutual

theorem accept_field : ∀ (v : Value) {level filled : Expects} (levels : List Expects), level.filled = some filled →
    acceptAll (protobufField v) (level :: levels) = some (filled :: levels)
  | .int32 v, _, _, levels, h => by simp [protobufField, acceptAll, accept, h]
  | .int64 v, _, _, levels, h => by simp [protobufField, acceptAll, accept, h]
  | .uint32 v, _, _, levels, h => by simp [protobufField, acceptAll, accept, h]
  | .uint64 v, _, _, levels, h => by simp [protobufField, acceptAll, accept, h]
  | .double bits, _, _, levels, h => by simp [protobufField, acceptAll, accept, h]
  | .float bits, _, _, levels, h => by simp [protobufField, acceptAll, accept, h]
  | .bool v, _, _, levels, h => by simp [protobufField, acceptAll, accept, h]
  | .enum name, _, _, levels, h => by simp [protobufField, acceptAll, accept_string h]
  | .string v, _, _, levels, h => by simp [protobufField, acceptAll, accept_string h]
  | .message fields, level, filled, levels, h => by
    have hfields := accept_fields fields (filled :: levels)
    simp only [protobufField, List.cons_append, acceptAll, accept, h, Option.map_some, Option.bind_some, acceptAll_append,
      hfields]

theorem accept_fields : ∀ (fields : List Field) (levels : List Expects),
    acceptAll (protobufFields fields) (.key :: levels) = some (.key :: levels)
  | [], levels => rfl
  | .singular field v :: fields, levels => by
    have hv : acceptAll (protobufField v) (.value :: levels) = some (.key :: levels) := accept_field v levels rfl
    have hfields := accept_fields fields levels
    rw [protobufFields, List.cons_append, acceptAll, accept, Option.bind_some, acceptAll_append, hv, Option.bind_some,
      hfields]
  | .repeated field vs :: fields, levels => by
    have hvs := accept_repeatedFields vs (.key :: levels)
    have hfields := accept_fields fields levels
    rw [protobufFields, List.cons_append, List.cons_append, acceptAll, accept, Option.bind_some, acceptAll, accept]
    simp only [Expects.filled, Option.map_some, Option.bind_some, acceptAll_append, hvs, acceptAll, accept, hfields]

theorem accept_repeatedFields : ∀ (vs : List Value) (levels : List Expects),
    acceptAll (protobufRepeatedFields vs) (.element :: levels) = some (.element :: levels)
  | [], levels => rfl
  | v :: vs, levels => by
    have hv : acceptAll (protobufField v) (.element :: levels) = some (.element :: levels) := accept_field v levels rfl
    have hvs := accept_repeatedFields vs levels
    rw [protobufRepeatedFields, acceptAll_append, hv, Option.bind_some, hvs]

end

/-- **Well-formed output.** The calls for a message form one JSON document. -/
theorem protobuf_document (pb : Message) : Document (protobuf pb) := accept_field (.message pb.fields) [] rfl

/-! ## Redaction -/

mutual

/-- the same value but for the contents of redacted strings; `redact` is the option of the field -/
inductive AlikeValue : Bool → Value → Value → Prop
  | same (redact : Bool) (v : Value) : AlikeValue redact v v
  | string (v w : List UInt8) : AlikeValue true (.string v) (.string w)
  | message {redact : Bool} {fields others : List Field} (h : AlikeFields fields others) :
      AlikeValue redact (.message fields) (.message others)

inductive AlikeFields : List Field → List Field → Prop
  | nil : AlikeFields [] []
  | singular {field : FieldDescriptor} {v w : Value} {fields others : List Field} (hv : AlikeValue field.redact v w)
      (h : AlikeFields fields others) : AlikeFields (.singular field v :: fields) (.singular field w :: others)
  | repeated {field : FieldDescriptor} {vs ws : List Value} {fields others : List Field}
      (hvs : AlikeValues field.redact vs ws) (h : AlikeFields fields others) :
      AlikeFields (.repeated field vs :: fields) (.repeated field ws :: others)

inductive AlikeValues : Bool → List Value → List Value → Prop
  | nil (redact : Bool) : AlikeValues redact [] []
  | cons {redact : Bool} {v w : Value} {vs ws : List Value} (hv : AlikeValue redact v w)
      (h : AlikeValues redact vs ws) : AlikeValues redact (v :: vs) (w :: ws)

end

/-- messages of one shape that differ in the contents of redacted fields only -/
def Alike (pb other : Message) : Prop := AlikeFields pb.fields other.fields

/-- two streams of one shape, which are the same only if `P` -/
structure Tells (a b : List Token) (P : Prop) : Prop where
  shape : SameShape a b
  tells : a = b → P

variable {a b c d : List Token} {P Q : Prop}

theorem Tells.append (h : Tells a b P) (hmore : Tells c d Q) : Tells (a ++ c) (b ++ d) (P ∧ Q) := by
  refine ⟨List.rel_append h.shape hmore.shape, fun heq => ?_⟩
  obtain ⟨hfirst, hrest⟩ := List.append_inj heq h.shape.length_eq
  exact ⟨h.tells hfirst, hmore.tells hrest⟩

theorem Tells.mono (h : Tells a b P) (hPQ : P → Q) : Tells a b Q := ⟨h.shape, fun heq => hPQ (h.tells heq)⟩

/-- tokens that do not depend on the message -/
theorem Tells.fixed (a : List Token) : Tells a a True := ⟨SameShape.refl a, fun _ => trivial⟩

mutual

theorem tells_field : ∀ {redact : Bool} {v w : Value}, AlikeValue redact v w →
    Tells (protobufField v) (protobufField w) (v = w)
  | _, _, _, .same _ v => (Tells.fixed _).mono fun _ => rfl
  | _, _, _, .string v w => by
    refine ⟨List.Forall₂.cons (Token.Similar.string v w) List.Forall₂.nil, fun heq => ?_⟩
    rw [protobufField, protobufField] at heq
    rw [Token.string.inj (List.cons.inj heq).1]
  | _, _, _, .message h => by
    have hall := ((Tells.fixed [.startObject]).append (tells_fields h)).append (Tells.fixed [.endObject])
    rw [protobufField, protobufField]
    exact hall.mono fun heq => congrArg Value.message heq.1.2

theorem tells_fields : ∀ {fields others : List Field}, AlikeFields fields others →
    Tells (protobufFields fields) (protobufFields others) (fields = others)
  | _, _, .nil => (Tells.fixed _).mono fun _ => rfl
  | _, _, @AlikeFields.singular field _ _ _ _ hv h => by
    have hall := ((Tells.fixed [.string (ascii field.name)]).append (tells_field hv)).append (tells_fields h)
    rw [protobufFields, protobufFields]
    exact hall.mono fun heq => by rw [heq.1.2, heq.2]
  | _, _, @AlikeFields.repeated field _ _ _ _ hvs h => by
    have hstart := (Tells.fixed [.string (ascii field.name), .startArray]).append (tells_repeatedFields hvs)
    have hall := hstart.append ((Tells.fixed [.endArray]).append (tells_fields h))
    rw [protobufFields, protobufFields]
    exact hall.mono fun heq => by rw [heq.1.2, heq.2.2]

theorem tells_repeatedFields : ∀ {redact : Bool} {vs ws : List Value}, AlikeValues redact vs ws →
    Tells (protobufRepeatedFields vs) (protobufRepeatedFields ws) (vs = ws)
  | _, _, _, .nil _ => (Tells.fixed _).mono fun _ => rfl
  | _, _, _, .cons hv h => by
    have hall := (tells_field hv).append (tells_repeatedFields h)
    rw [protobufRepeatedFields, protobufRepeatedFields]
    exact hall.mono fun heq => by rw [heq.1, heq.2]

end

/-! ## Main result -/

/-- JSON text tells the strings of a document: documents of one shape with the same text are the same -/
def Faithful (text : Mode → List Token → List UInt8) : Prop :=
  ∀ mode a b, Document a → Document b → SameShape a b → text mode a = text mode b → a = b

/-- **Redacted fields show in the output.** Two messages that differ in the contents of redacted fields only have the same
output exactly when they do not differ at all, in either mode. -/
theorem redaction_exact (text : Mode → List Token → List UInt8) (htext : Faithful text) (mode : Mode) (pb other : Message)
    (h : Alike pb other) : toJson text pb mode = toJson text other mode ↔ pb = other := by
  constructor
  · intro heq
    have halike : AlikeValue false (.message pb.fields) (.message other.fields) := .message h
    have htells : Tells (protobuf pb) (protobuf other) _ := tells_field halike
    have htokens := htext mode _ _ (protobuf_document pb) (protobuf_document other) htells.shape heq
    exact congrArg Message.mk (Value.message.inj (htells.tells htokens))
  · rintro rfl
    rfl

/-! ## Witnesses -/

/-- the writers of RapidJSON, up to how a double is printed -/
def rapidText (mode : Mode) : List Token → List UInt8 :=
  write (match mode with | .pretty => .pretty | .compact => .compact) (fun bits => ascii (toString bits)) []

theorem rapidText_faithful : Faithful rapidText := fun _ _ _ _ _ hshape htext => write_injective hshape htext

/-- a `SignedTokenPB` -/
def signedToken (signature : List UInt8) : Message :=
  ⟨[.singular ⟨"token_data", false⟩ (.string (ascii "data")), .singular ⟨"signature", true⟩ (.string signature),
    .singular ⟨"signing_key_seq_num", false⟩ (.int64 1)]⟩

theorem signedToken_alike (signature other : List UInt8) : Alike (signedToken signature) (signedToken other) :=
  .singular (.same _ _) (.singular (.string signature other) (.singular (.same _ _) .nil))

/-- **A signature shows in the output**, although its field is redacted. -/
theorem redaction_leaks :
    Alike (signedToken (ascii "ab")) (signedToken (ascii "cd")) ∧
      toJson rapidText (signedToken (ascii "ab")) .compact =
        ascii "\x7b\"token_data\":\"data\",\"signature\":\"ab\",\"signing_key_seq_num\":1\x7d" ∧
      ∀ mode, toJson rapidText (signedToken (ascii "ab")) mode ≠ toJson rapidText (signedToken (ascii "cd")) mode := by
  refine ⟨signedToken_alike _ _, by decide +kernel, fun mode => ?_⟩
  cases mode <;> decide +kernel

theorem redaction_exact_tokens :
    toJson rapidText (signedToken (ascii "ab")) .pretty = toJson rapidText (signedToken (ascii "cd")) .pretty ↔
      signedToken (ascii "ab") = signedToken (ascii "cd") :=
  redaction_exact rapidText rapidText_faithful .pretty _ _ (signedToken_alike _ _)

end Bboy.JsonWriter
