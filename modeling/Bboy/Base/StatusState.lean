/-
Lean model of the representation of `Status` (`bboy/base/status.h`, `bboy/base/status.cc`): the byte array behind `state_`,
the functions that pack and read it, and the special members and clones that hand it around.

A program is a list of `Status` variables over a heap of arrays. An array that is freed twice, or read after that, a copy
outside of an array and a `DCHECK` that fails are undefined. `code` is the number of an enumerator, of which 0 is `kOk`.

- `create_eq`, `copyState_encode`, `message_encode`: all functions agree on the layout (`encode`).
- `represents`: every sequence of constructions, copies, moves, assignments, clones and destructions that keeps its messages
  below 2^32 - 7 bytes is defined, and its variables are what the same sequence of plain values leaves.
Witness: `represents_chain`.
-/
import Bboy.Base.Status
import Bboy.Core.Bytes
import Bboy.Core.Heap
import Bboy.Core.LittleEndian
import Bboy.Core.Machine

namespace Bboy

open Core

/-- the enumerator of `Code` -/
def StatusCode.number : StatusCode → UInt8
  | .notFound => 1
  | .corruption => 2
  | .notSupported => 3
  | .invalidArgument => 4
  | .ioError => 5
  | .alreadyPresent => 6
  | .runtimeError => 7
  | .networkError => 8
  | .illegalState => 9
  | .notAuthorized => 10
  | .aborted => 11
  | .remoteError => 12
  | .serviceUnavailable => 13
  | .timedOut => 14
  | .uninitialized => 15
  | .configurationError => 16
  | .incomplete => 17
  | .endOfFile => 18

namespace StatusState

/-! ## The array behind `state_` -/

/-- the constructor of a status that is not OK -/
def create (garbage : ℕ → UInt8) (code : UInt8) (msg msg2 : List UInt8) (posixCode : Int16) : Option (List UInt8) := do
  -- DCHECK(code != kOk)
  if code = 0 then none
  let len1 := msg.length % 2 ^ 32
  let len2 := msg2.length % 2 ^ 32
  let size := (len1 + if len2 ≠ 0 then 2 + len2 else 0) % 2 ^ 32
  let result := newArray garbage ((size + 7) % 2 ^ 32)
  let result ← memcpy result 0 (LittleEndian.store 4 size) 4
  let result ← memcpy result 4 [code] 1
  let result ← memcpy result 5 (LittleEndian.store 2 posixCode.toUInt16.toNat) 2
  let result ← memcpy result 7 msg len1
  if len2 = 0 then return result
  -- ": "
  let result ← memcpy result ((7 + len1) % 2 ^ 32) [58] 1
  let result ← memcpy result ((8 + len1) % 2 ^ 32) [32] 1
  memcpy result (9 + len1) msg2 len2

/-- the length in the first four bytes -/
def length (state : List UInt8) : Option ℕ :=
  if 4 ≤ state.length then some (LittleEndian.load (state.take 4)) else none

def copyState (garbage : ℕ → UInt8) (state : List UInt8) : Option (List UInt8) := do
  let size ← length state
  let result := newArray garbage ((size + 7) % 2 ^ 32)
  memcpy result 0 state ((size + 7) % 2 ^ 32)

/-- the bytes of the slice that `message` returns -/
def message (state : List UInt8) : Option (List UInt8) := do
  let n ← length state
  if 7 + n ≤ state.length then some ((state.drop 7).take n) else none

def posixCode (state : List UInt8) : Option Int16 :=
  if 7 ≤ state.length then some (UInt16.ofNat (LittleEndian.load ((state.drop 5).take 2))).toInt16 else none

def code (state : List UInt8) : Option UInt8 := state[4]?

/-! ## Variables -/

/-- the variables of a program, each with its `state_` -/
structure St where
  heap : Heap (List UInt8)
  vars : List (Option ℕ)
  deriving DecidableEq, Repr

/-- the array of a variable that is not OK -/
def St.state (s : St) (i : ℕ) : Option (List UInt8) := do Heap.read s.heap (← (← s.vars[i]?))

/-- what `code()`, `posix_code()` and `message()` of a variable return -/
def St.observe (s : St) (i : ℕ) : Option (UInt8 × Int16 × List UInt8) := do
  match ← s.vars[i]? with
  | none => return (0, 0, [])
  | some p =>
    let state ← Heap.read s.heap p
    return (← code state, ← posixCode state, ← message state)

inductive Op where
  | construct (code : StatusCode) (msg msg2 : List UInt8) (posixCode : Int16)
  | copy (i : ℕ)
  | move (i : ℕ)
  | copyAssign (i j : ℕ)
  | moveAssign (i j : ℕ)
  | cloneAndPrepend (i : ℕ) (msg : List UInt8)
  | cloneAndAppend (i : ℕ) (msg : List UInt8)
  | destroy (i : ℕ)
  deriving DecidableEq, Repr

/-- an operation, with what a new array holds -/
structure Call where
  op : Op
  garbage : ℕ → UInt8

/-- a new variable that owns a new array -/
def St.push (s : St) (state : List UInt8) : St :=
  let (heap, p) := Heap.alloc s.heap state
  ⟨heap, s.vars ++ [some p]⟩

/-- `(s.state_ == NULL) ? NULL : CopyState(s.state_)` -/
def copyPointer (garbage : ℕ → UInt8) (heap : Heap (List UInt8)) : Option ℕ → Option (Heap (List UInt8) × Option ℕ)
  | none => some (heap, none)
  | some p => do
    let (heap, q) := Heap.alloc heap (← copyState garbage (← Heap.read heap p))
    return (heap, some q)

def step (s : St) (c : Call) : Option St :=
  match c.op with
  | .construct code msg msg2 posixCode => (create c.garbage code.number msg msg2 posixCode).map s.push
  | .copy i => do
    let (heap, p) ← copyPointer c.garbage s.heap (← s.vars[i]?)
    return ⟨heap, s.vars ++ [p]⟩
  | .move i => do
    let p ← s.vars[i]?
    return { s with vars := s.vars.set i none ++ [p] }
  | .copyAssign i j => do
    let p ← s.vars[i]?
    let q ← s.vars[j]?
    if p = q then return s
    let (heap, q) ← copyPointer c.garbage (← Heap.free s.heap p) q
    return ⟨heap, s.vars.set i q⟩
  | .moveAssign i j => do
    let p ← s.vars[i]?
    let q ← s.vars[j]?
    if p = q then return s
    return ⟨← Heap.free s.heap p, (s.vars.set i q).set j none⟩
  | .cloneAndPrepend i msg => do
    let state ← s.state i
    return s.push (← create c.garbage (← code state) msg (← message state) (← posixCode state))
  | .cloneAndAppend i msg => do
    let state ← s.state i
    return s.push (← create c.garbage (← code state) (← message state) msg (← posixCode state))
  | .destroy i => do return ⟨← Heap.free s.heap (← s.vars[i]?), s.vars.eraseIdx i⟩

def machine : Machine St Call where
  init := ⟨[], []⟩
  step := step

/-! ## Plain values -/

structure Value where
  code : StatusCode
  posixCode : Int16
  message : List UInt8
  deriving DecidableEq, Repr

/-- two parts with a colon between them, or the first alone if the second is empty -/
def joined (msg msg2 : List UInt8) : List UInt8 := if msg2 = [] then msg else msg ++ [58, 32] ++ msg2

/-- a value whose message is short enough -/
def fits (v : Value) : Option Value := if v.message.length + 7 < 2 ^ 32 then some v else none

/-- the operations on a list of values, of which those that are OK are `none` -/
def valueStep (a : List (Option Value)) (c : Call) : Option (List (Option Value)) :=
  match c.op with
  | .construct code msg msg2 posixCode => do return a ++ [some (← fits ⟨code, posixCode, joined msg msg2⟩)]
  | .copy i => do return a ++ [← a[i]?]
  | .move i => do return a.set i none ++ [← a[i]?]
  | .copyAssign i j => do
    let _ ← a[i]?
    return a.set i (← a[j]?)
  | .moveAssign i j => do
    let _ ← a[i]?
    let v ← a[j]?
    return if i = j then a else (a.set i v).set j none
  | .cloneAndPrepend i msg => do
    let v ← (← a[i]?)
    return a ++ [some (← fits { v with message := joined msg v.message })]
  | .cloneAndAppend i msg => do
    let v ← (← a[i]?)
    return a ++ [some (← fits { v with message := joined v.message msg })]
  | .destroy i => do
    let _ ← a[i]?
    return a.eraseIdx i

/-- what the accessors should return for a value -/
def observe : Option Value → UInt8 × Int16 × List UInt8
  | none => (0, 0, [])
  | some v => (v.code.number, v.posixCode, v.message)

def values : Machine (List (Option Value)) Call where
  init := []
  step := valueStep

/-! ## The layout -/

/-- the length of the message, the code, the POSIX code and the message -/
def encode (v : Value) : List UInt8 :=
  LittleEndian.store 4 v.message.length ++ [v.code.number] ++ LittleEndian.store 2 v.posixCode.toUInt16.toNat ++ v.message

variable {garbage : ℕ → UInt8} {msg msg2 : List UInt8} {v w : Value}

theorem number_ne_zero (code : StatusCode) : code.number ≠ 0 := by cases code <;> decide

theorem length_joined (msg msg2 : List UInt8) :
    (joined msg msg2).length = msg.length + if msg2.length ≠ 0 then 2 + msg2.length else 0 := by
  unfold joined
  by_cases h : msg2 = []
  · simp [h]
  · have hlength : msg2.length ≠ 0 := fun hzero => h (List.length_eq_zero_iff.1 hzero)
    rw [if_neg h, if_pos hlength]
    simp
    omega

theorem length_encode (v : Value) : (encode v).length = v.message.length + 7 := by
  simp [encode]
  omega

/-- the seven bytes before the message -/
def header (size : ℕ) (code : UInt8) (posixCode : Int16) : List UInt8 :=
  LittleEndian.store 4 size ++ [code] ++ LittleEndian.store 2 posixCode.toUInt16.toNat

theorem length_header (size : ℕ) (code : UInt8) (posixCode : Int16) : (header size code posixCode).length = 7 := by
  simp [header]

/-- the copies into the header of a new array -/
theorem memcpy_header {room : ℕ} {mem : List UInt8} (h : Filled (7 + room) [] mem) (size : ℕ) (code : UInt8)
    (posixCode : Int16) :
    ∃ r1 r2 r3, memcpy mem 0 (LittleEndian.store 4 size) 4 = some r1 ∧ memcpy r1 4 [code] 1 = some r2 ∧
      memcpy r2 5 (LittleEndian.store 2 posixCode.toUInt16.toNat) 2 = some r3 ∧
      Filled room (header size code posixCode) r3 := by
  rw [show 7 + room = 4 + (1 + (2 + room)) by omega] at h
  obtain ⟨r1, h1, f1⟩ := h.memcpy (LittleEndian.store 4 size) (show 0 = _ from rfl) (by simp)
  obtain ⟨r2, h2, f2⟩ := f1.memcpy [code] (show 4 = _ by simp) rfl
  obtain ⟨r3, h3, f3⟩ := f2.memcpy (LittleEndian.store 2 posixCode.toUInt16.toNat) (show 5 = _ by simp) (by simp)
  exact ⟨r1, r2, r3, h1, h2, h3, f3⟩

/-- the copies of the second message, behind a colon and a blank -/
theorem memcpy_second {pos : ℕ} {stored mem : List UInt8} (h : Filled (2 + msg2.length) stored mem)
    (hpos : pos = stored.length) :
    ∃ r1 r2, memcpy mem pos [58] 1 = some r1 ∧ memcpy r1 (pos + 1) [32] 1 = some r2 ∧
      memcpy r2 (pos + 2) msg2 msg2.length = some (stored ++ [58, 32] ++ msg2) := by
  rw [show 2 + msg2.length = 1 + (1 + (msg2.length + 0)) by omega] at h
  obtain ⟨r1, h1, f1⟩ := h.memcpy [58] hpos rfl
  obtain ⟨r2, h2, f2⟩ := f1.memcpy [32] (show pos + 1 = _ by simp [hpos]) rfl
  obtain ⟨r3, h3, f3⟩ := f2.memcpy msg2 (show pos + 2 = _ by simp [hpos]) rfl
  refine ⟨r1, r2, h1, h2, ?_⟩
  rw [h3, f3.full, List.append_assoc stored]
  rfl

/-- **The constructor** packs the value, with the two parts of its message joined -/
theorem create_eq (garbage : ℕ → UInt8) (code : StatusCode) (posixCode : Int16)
    (h : (joined msg msg2).length + 7 < 2 ^ 32) :
    create garbage code.number msg msg2 posixCode = some (encode ⟨code, posixCode, joined msg msg2⟩) := by
  have hlength := length_joined msg msg2
  have hlen1 : msg.length % 2 ^ 32 = msg.length := Nat.mod_eq_of_lt (by omega)
  have hlen2 : msg2.length % 2 ^ 32 = msg2.length := Nat.mod_eq_of_lt (by split_ifs at hlength <;> omega)
  have hsize : (joined msg msg2).length % 2 ^ 32 = (joined msg msg2).length := Nat.mod_eq_of_lt (by omega)
  have hroom : ((joined msg msg2).length + 7) % 2 ^ 32 = (joined msg msg2).length + 7 := Nat.mod_eq_of_lt h
  have hencode : encode ⟨code, posixCode, joined msg msg2⟩ =
      header (joined msg msg2).length code.number posixCode ++ joined msg msg2 := rfl
  have hstart : Filled (7 + (joined msg msg2).length) [] (newArray garbage ((joined msg msg2).length + 7)) := by
    rw [Nat.add_comm 7]
    exact filled_newArray garbage _
  obtain ⟨r1, r2, r3, h1, h2, h3, f3⟩ := memcpy_header hstart (joined msg msg2).length code.number posixCode
  rw [hlength] at f3
  obtain ⟨r4, h4, f4⟩ := f3.memcpy msg (length_header _ _ _).symm rfl
  rw [← hlength] at f4
  unfold create
  simp only [if_neg (number_ne_zero code), hlen1, hlen2, ← hlength, hsize, hroom, h1, h2, h3, h4, Option.bind_eq_bind,
    Option.bind_some]
  by_cases hempty : msg2.length = 0
  · have htext : joined msg msg2 = msg := if_pos (List.length_eq_zero_iff.1 hempty)
    rw [if_neg (not_not.2 hempty)] at f4
    rw [if_pos hempty, f4.full, hencode, htext]
    rfl
  · have htext : joined msg msg2 = msg ++ [58, 32] ++ msg2 := by
      rw [joined, if_neg fun h => hempty (List.length_eq_zero_iff.2 h)]
    rw [if_pos hempty] at f4 hlength
    have hpos7 : (7 + msg.length) % 2 ^ 32 = 7 + msg.length := Nat.mod_eq_of_lt (by omega)
    have hpos8 : (8 + msg.length) % 2 ^ 32 = 7 + msg.length + 1 := by omega
    have hpos9 : 9 + msg.length = 7 + msg.length + 2 := by omega
    obtain ⟨r5, r6, h5, h6, h7⟩ := memcpy_second f4 (show 7 + msg.length = _ by rw [List.length_append, length_header])
    simp only [if_neg hempty, hpos7, hpos8, hpos9, h5, h6, Option.bind_some]
    rw [h7, hencode, htext, List.append_assoc, List.append_assoc, List.append_assoc]

/-- a value whose length fits the array -/
def Packed (state : List UInt8) (v : Value) : Prop := state = encode v ∧ v.message.length + 7 < 2 ^ 32

variable {state : List UInt8}

theorem Packed.length (h : Packed state v) : StatusState.length state = some v.message.length := by
  obtain ⟨rfl, hlt⟩ := h
  have hfirst : (encode v).take 4 = LittleEndian.store 4 v.message.length := by
    rw [encode, List.append_assoc, List.append_assoc]
    exact List.take_left' (by simp)
  rw [StatusState.length, if_pos (by rw [length_encode]; omega), hfirst,
    LittleEndian.load_store_of_lt (by norm_num; omega)]

/-- **Copies** are equal byte for byte -/
theorem Packed.copyState (h : Packed state v) (garbage : ℕ → UInt8) : StatusState.copyState garbage state = some state := by
  have hlength := h.length
  obtain ⟨rfl, hlt⟩ := h
  have hroom : (v.message.length + 7) % 2 ^ 32 = v.message.length + 7 := Nat.mod_eq_of_lt hlt
  have hstart : Filled (v.message.length + 7 + 0) [] (newArray garbage (v.message.length + 7)) := filled_newArray _ _
  obtain ⟨mem, hmem, hfilled⟩ := hstart.memcpy (encode v) (show 0 = _ from rfl) (length_encode v)
  unfold StatusState.copyState
  simp only [hlength, Option.bind_eq_bind, Option.bind_some, hroom]
  rw [hmem, hfilled.full, List.nil_append]

/-- **What is read back** is what was packed -/
theorem Packed.message (h : Packed state v) : StatusState.message state = some v.message := by
  have hlength := h.length
  obtain ⟨rfl, hlt⟩ := h
  have htext : (encode v).drop 7 = v.message := List.drop_left' (by simp)
  unfold StatusState.message
  simp only [hlength, Option.bind_eq_bind, Option.bind_some]
  rw [if_pos (by rw [length_encode]; omega), htext, List.take_length]

theorem Packed.code (h : Packed state v) : StatusState.code state = some v.code.number := by
  obtain ⟨rfl, -⟩ := h
  rw [StatusState.code, encode, List.append_assoc, List.append_assoc, List.getElem?_append_right (by simp)]
  simp

theorem Packed.posixCode (h : Packed state v) : StatusState.posixCode state = some v.posixCode := by
  obtain ⟨rfl, -⟩ := h
  have hbytes : ((encode v).drop 5).take 2 = LittleEndian.store 2 v.posixCode.toUInt16.toNat := by
    rw [encode, List.append_assoc, List.drop_left' (by simp)]
    exact List.take_left' (by simp)
  have hlt : v.posixCode.toUInt16.toNat < 256 ^ 2 := v.posixCode.toUInt16.toNat_lt
  rw [StatusState.posixCode, if_pos (by rw [length_encode]; omega), hbytes, LittleEndian.load_store_of_lt hlt,
    UInt16.ofNat_toNat, Int16.toInt16_toUInt16]

/-! ## Texts -/

/-- the bytes of a text -/
def utf8 (text : String) : List UInt8 := text.toByteArray.data.toList

@[simp] theorem utf8_append (text text2 : String) : utf8 (text ++ text2) = utf8 text ++ utf8 text2 := by simp [utf8]

@[simp] theorem utf8_eq_nil {text : String} : utf8 text = [] ↔ text = "" := by
  constructor
  · intro h
    have hbytes : text.toByteArray = ByteArray.empty := ByteArray.ext (Array.toList_eq_nil_iff.1 h)
    exact String.toByteArray_inj.1 hbytes
  · rintro rfl
    rfl

/-- joined texts are joined bytes: the messages of `BadStatus` are those of the array -/
theorem utf8_joined (text text2 : String) : utf8 (BadStatus.joined text text2) = joined (utf8 text) (utf8 text2) := by
  unfold BadStatus.joined joined
  by_cases h : text2 = ""
  · simp [h]
  · rw [if_neg h, if_neg (mt utf8_eq_nil.1 h), utf8_append, utf8_append]
    rfl

/-! ## Variables and values -/

/-- the variables hold the values, each in an array of its own -/
def Represents (s : St) (a : List (Option Value)) : Prop := Heap.Owns Packed s.heap s.vars a

variable {s t : St} {a b : List (Option Value)} {i j : ℕ}

theorem Represents.push (h : Represents s a) (hpacked : Packed state v) : Represents (s.push state) (a ++ [some v]) :=
  h.alloc_push hpacked

/-- a value that fits is packed by the constructor -/
theorem Represents.create (h : Represents s a) (garbage : ℕ → UInt8) (code : StatusCode) (posixCode : Int16)
    (hfits : fits ⟨code, posixCode, joined msg msg2⟩ = some v) :
    ∃ t, (StatusState.create garbage code.number msg msg2 posixCode).map s.push = some t ∧ Represents t (a ++ [some v]) := by
  unfold fits at hfits
  split_ifs at hfits with hlt
  obtain rfl := Option.some.inj hfits
  rw [create_eq garbage code posixCode hlt]
  exact ⟨_, rfl, h.push ⟨rfl, hlt⟩⟩

/-- the array of a value -/
theorem Represents.array (h : Represents s a) (hv : a[i]? = some (some v)) :
    ∃ state, s.state i = some state ∧ Packed state v := by
  obtain ⟨p, hp, hholds⟩ := h.get hv
  match p, hholds with
  | some q, ⟨state, hread, hpacked⟩ => exact ⟨state, by simp [St.state, hp, hread], hpacked⟩

/-- a pointer copied to a place that had none -/
theorem copyPointer_spec (h : Represents s a) (garbage : ℕ → UInt8) {v : Option Value} (hv : a[j]? = some v) :
    ∃ q, s.vars[j]? = some q ∧ ∃ heap p, copyPointer garbage s.heap q = some (heap, p) ∧
      Represents ⟨heap, s.vars ++ [p]⟩ (a ++ [v]) ∧
      ∀ i, Represents ⟨heap, s.vars.set i p⟩ (a.set i v) := by
  obtain ⟨q, hq, hholds⟩ := h.get hv
  refine ⟨q, hq, ?_⟩
  match q, v, hholds with
  | none, none, _ => exact ⟨s.heap, none, rfl, h.push_null, h.set_null⟩
  | some q, some v, ⟨state, hread, hpacked⟩ =>
    refine ⟨_, _, ?_, h.alloc_push hpacked, h.alloc_set hpacked⟩
    simp [copyPointer, hread, hpacked.copyState garbage]

theorem set_self {α : Type*} {l : List α} {x : α} (h : l[i]? = some x) : l.set i x = l := by
  obtain ⟨hlt, rfl⟩ := List.getElem?_eq_some_iff.1 h
  exact List.set_getElem_self hlt

/-- equal pointers: the same variable, or two that are OK -/
theorem Represents.eq_of_pointer (h : Represents s a) {p : Option ℕ} (hi : s.vars[i]? = some p) (hj : s.vars[j]? = some p) :
    i = j ∨ a[i]? = some none ∧ a[j]? = some none := by
  match p, hi, hj with
  | some q, hi, hj => exact Or.inl (h.distinct i j q hi hj)
  | none, hi, hj =>
    have hnull : ∀ k : ℕ, s.vars[k]? = some none → a[k]? = some none := by
      intro k hk
      have hlt : k < a.length := h.length ▸ (List.getElem?_eq_some_iff.1 hk).1
      have hholds := h.holds k none a[k] hk (List.getElem?_eq_getElem hlt)
      rw [List.getElem?_eq_getElem hlt]
      match a[k], hholds with
      | none, _ => rfl
    exact Or.inr ⟨hnull i hi, hnull j hj⟩

/-- a copy assignment leaves its target with the value of its source -/
theorem copyAssign_spec (h : Represents s a) (garbage : ℕ → UInt8) {v : Option Value} {u : Option Value}
    (hu : a[i]? = some u) (hv : a[j]? = some v) :
    ∃ t, step s ⟨.copyAssign i j, garbage⟩ = some t ∧ Represents t (a.set i v) := by
  obtain ⟨p, hp, -⟩ := h.get hu
  obtain ⟨q, hq, -⟩ := h.get hv
  by_cases hpq : p = q
  · have hsame : a[i]? = some v := by
      rcases h.eq_of_pointer hp (hpq ▸ hq) with rfl | ⟨hi, hj⟩
      · exact hv
      · rw [hi, ← hv, hj]
    exact ⟨s, by simp [step, hp, hq, hpq], by rwa [set_self hsame]⟩
  · obtain ⟨heap, hfree, howns⟩ := h.free hp
    have hij : i ≠ j := fun heq => hpq (Option.some.inj (hp.symm.trans (heq ▸ hq)))
    have hv' : (a.set i none)[j]? = some v := by rwa [List.getElem?_set_ne hij]
    obtain ⟨q', hq', heap', p', hcopy, -, hset⟩ := copyPointer_spec (s := ⟨heap, s.vars.set i none⟩) howns garbage hv'
    rw [List.getElem?_set_ne hij, hq, Option.some.injEq] at hq'
    have hrep := hset i
    rw [List.set_set, List.set_set] at hrep
    refine ⟨_, ?_, hrep⟩
    rw [← hq'] at hcopy
    simp [step, hp, hq, hpq, hfree, hcopy]

/-- a move assignment hands the array over -/
theorem moveAssign_spec (h : Represents s a) (garbage : ℕ → UInt8) {v : Option Value} {u : Option Value}
    (hu : a[i]? = some u) (hv : a[j]? = some v) :
    ∃ t, step s ⟨.moveAssign i j, garbage⟩ = some t ∧ Represents t (if i = j then a else (a.set i v).set j none) := by
  obtain ⟨p, hp, -⟩ := h.get hu
  obtain ⟨q, hq, -⟩ := h.get hv
  by_cases hpq : p = q
  · have hsame : (if i = j then a else (a.set i v).set j none) = a := by
      split_ifs with hij
      · rfl
      · obtain ⟨hi, hj⟩ := (h.eq_of_pointer hp (hpq ▸ hq)).resolve_left hij
        have hnone : v = none := Option.some.inj (hv.symm.trans hj)
        rw [hnone, set_self hi, set_self hj]
    exact ⟨s, by simp [step, hp, hq, hpq], by rwa [hsame]⟩
  · obtain ⟨heap, hfree, howns⟩ := h.free hp
    have hij : i ≠ j := fun heq => hpq (Option.some.inj (hp.symm.trans (heq ▸ hq)))
    have hq' : (s.vars.set i none)[j]? = some q := by rwa [List.getElem?_set_ne hij]
    have hv' : (a.set i none)[j]? = some v := by rwa [List.getElem?_set_ne hij]
    have hrep := howns.move_set hij hq' hv'
    rw [List.set_set, List.set_set] at hrep
    refine ⟨⟨heap, (s.vars.set i q).set j none⟩, by simp [step, hp, hq, hpq, hfree], ?_⟩
    rw [if_neg hij]
    exact hrep

/-- **One operation** is defined when the values take it, and does to the variables what it does to the values -/
theorem step_represents {c : Call} (h : Represents s a) (hab : valueStep a c = some b) :
    ∃ t, step s c = some t ∧ Represents t b := by
  obtain ⟨op, garbage⟩ := c
  match op, hab with
  | .construct code msg msg2 posixCode, hab =>
    simp only [valueStep, Option.bind_eq_bind, Option.pure_def, Option.bind_eq_some_iff, Option.some.injEq] at hab
    obtain ⟨v, hfits, rfl⟩ := hab
    exact h.create garbage code posixCode hfits
  | .copy i, hab =>
    simp only [valueStep, Option.bind_eq_bind, Option.pure_def, Option.bind_eq_some_iff, Option.some.injEq] at hab
    obtain ⟨v, hv, rfl⟩ := hab
    obtain ⟨q, hq, heap, p, hcopy, hrep, -⟩ := copyPointer_spec h garbage hv
    exact ⟨_, by simp [step, hq, hcopy], hrep⟩
  | .move i, hab =>
    simp only [valueStep, Option.bind_eq_bind, Option.pure_def, Option.bind_eq_some_iff, Option.some.injEq] at hab
    obtain ⟨v, hv, rfl⟩ := hab
    obtain ⟨p, hp, -⟩ := h.get hv
    exact ⟨⟨s.heap, s.vars.set i none ++ [p]⟩, by simp [step, hp], h.move_push hp hv⟩
  | .copyAssign i j, hab =>
    simp only [valueStep, Option.bind_eq_bind, Option.pure_def, Option.bind_eq_some_iff, Option.some.injEq] at hab
    obtain ⟨u, hu, v, hv, rfl⟩ := hab
    exact copyAssign_spec h garbage hu hv
  | .moveAssign i j, hab =>
    simp only [valueStep, Option.bind_eq_bind, Option.pure_def, Option.bind_eq_some_iff, Option.some.injEq] at hab
    obtain ⟨u, hu, v, hv, rfl⟩ := hab
    exact moveAssign_spec h garbage hu hv
  | .cloneAndPrepend i msg, hab =>
    simp only [valueStep, Option.bind_eq_bind, Option.pure_def, Option.bind_eq_some_iff, Option.some.injEq] at hab
    obtain ⟨_, hi, v, rfl, w, hfits, rfl⟩ := hab
    obtain ⟨state, hstate, hpacked⟩ := h.array hi
    obtain ⟨t, ht, hrep⟩ := h.create garbage v.code v.posixCode hfits
    rw [Option.map_eq_bind] at ht
    exact ⟨t, by simpa [step, hstate, hpacked.code, hpacked.message, hpacked.posixCode] using ht, hrep⟩
  | .cloneAndAppend i msg, hab =>
    simp only [valueStep, Option.bind_eq_bind, Option.pure_def, Option.bind_eq_some_iff, Option.some.injEq] at hab
    obtain ⟨_, hi, v, rfl, w, hfits, rfl⟩ := hab
    obtain ⟨state, hstate, hpacked⟩ := h.array hi
    obtain ⟨t, ht, hrep⟩ := h.create garbage v.code v.posixCode hfits
    rw [Option.map_eq_bind] at ht
    exact ⟨t, by simpa [step, hstate, hpacked.code, hpacked.message, hpacked.posixCode] using ht, hrep⟩
  | .destroy i, hab =>
    simp only [valueStep, Option.bind_eq_bind, Option.pure_def, Option.bind_eq_some_iff, Option.some.injEq] at hab
    obtain ⟨v, hv, rfl⟩ := hab
    obtain ⟨p, hp, -⟩ := h.get hv
    obtain ⟨heap, hfree, howns⟩ := h.free hp
    refine ⟨⟨heap, s.vars.eraseIdx i⟩, by simp [step, hp, hfree], ?_⟩
    have herase := howns.erase i
    rwa [List.eraseIdx_set_eq, List.eraseIdx_set_eq] at herase

/-! ## Runs -/

theorem Represents.observe (h : Represents s a) {v : Option Value} (hv : a[i]? = some v) :
    s.observe i = some (StatusState.observe v) := by
  obtain ⟨p, hp, hholds⟩ := h.get hv
  match p, v, hholds with
  | none, none, _ => simp [St.observe, StatusState.observe, hp]
  | some q, some v, ⟨state, hread, hpacked⟩ =>
    simp [St.observe, StatusState.observe, hp, hread, hpacked.code, hpacked.message, hpacked.posixCode]

/-- the operation assigns to, moves from or destroys a variable (or one before it, which moves it up the list) -/
def Op.touches (k : ℕ) : Op → Bool
  | .move i | .copyAssign i _ => i = k
  | .moveAssign i j => i = k || j = k
  | .destroy i => i ≤ k
  | _ => false

/-- an operation leaves all variables alone that it does not touch -/
theorem getElem?_of_valueStep {c : Call} {k : ℕ} (hab : valueStep a c = some b) (hk : k < a.length)
    (htouch : ¬ c.op.touches k) : b[k]? = a[k]? := by
  obtain ⟨op, garbage⟩ := c
  match op, hab, htouch with
  | .construct .., hab, _ | .copy _, hab, _ | .cloneAndPrepend .., hab, _ | .cloneAndAppend .., hab, _ =>
    simp only [valueStep, Option.bind_eq_bind, Option.pure_def, Option.bind_eq_some_iff, Option.some.injEq] at hab
    grind
  | .move i, hab, htouch | .copyAssign i _, hab, htouch | .moveAssign i j, hab, htouch | .destroy i, hab, htouch =>
    simp only [valueStep, Option.bind_eq_bind, Option.pure_def, Option.bind_eq_some_iff, Option.some.injEq] at hab
    simp only [Op.touches] at htouch
    grind

theorem getElem?_of_run {calls : List Call} {k : ℕ} (hab : values.run a calls = some b) (hk : k < a.length)
    (htouch : ∀ c ∈ calls, ¬ c.op.touches k) : b[k]? = a[k]? := by
  induction calls generalizing a with
  | nil =>
    cases hab
    rfl
  | cons c calls ih =>
    obtain ⟨m, hm, hrun⟩ := values.run_cons_some hab
    have hfirst : m[k]? = a[k]? := getElem?_of_valueStep hm hk (htouch c List.mem_cons_self)
    have hk' : k < m.length := by
      rw [List.getElem?_eq_getElem hk] at hfirst
      exact (List.getElem?_eq_some_iff.1 hfirst).1
    rw [ih hrun hk' fun c hc => htouch c (List.mem_cons_of_mem _ hc), hfirst]

/-- **Statuses are values.** Whatever the values can do, the variables can: every access is to a live array and within it.
At any point of a run each variable reads as its value, with its code, its POSIX code and the message that the operations
describe; and what is not touched afterwards reads the same at the end. -/
theorem represents {pre post : List Call} {a b : List (Option Value)} (ha : values.run values.init pre = some a)
    (hb : values.run a post = some b) :
    ∃ s t, machine.run machine.init pre = some s ∧ machine.run s post = some t ∧
      (∀ (i : ℕ) v, a[i]? = some v → s.observe i = some (observe v)) ∧
      (∀ (i : ℕ) v, b[i]? = some v → t.observe i = some (observe v)) ∧
      ∀ k < a.length, (∀ c ∈ post, ¬ c.op.touches k) → t.observe k = s.observe k := by
  obtain ⟨s, hs, hsa⟩ := Machine.run_simulates (M := machine) (A := values) (R := Represents)
    (fun _ _ _ _ => step_represents) (s := machine.init) Heap.Owns.nil ha
  obtain ⟨t, ht, htb⟩ := Machine.run_simulates (M := machine) (A := values) (R := Represents)
    (fun _ _ _ _ => step_represents) hsa hb
  refine ⟨s, t, hs, ht, fun i v => hsa.observe, fun i v => htb.observe, fun k hk htouch => ?_⟩
  have hvalue : a[k]? = some a[k] := List.getElem?_eq_getElem hk
  rw [hsa.observe hvalue, htb.observe ((getElem?_of_run hb hk htouch).trans hvalue)]

/-- a status that is copied; the original is prepended to, moved from and assigned to, and the copy keeps its value -/
theorem represents_chain :
    ∃ s t, machine.run machine.init
        [⟨.construct .notFound [97] [98, 99] (-1), fun _ => 7⟩, ⟨.copy 0, fun _ => 7⟩] = some s ∧
      machine.run s [⟨.cloneAndPrepend 0 [120], fun _ => 8⟩, ⟨.moveAssign 0 2, fun _ => 9⟩, ⟨.copyAssign 2 0, fun _ => 9⟩,
        ⟨.destroy 2, fun _ => 9⟩] = some t ∧
      (∀ (i : ℕ) v, [some (⟨.notFound, -1, [97, 58, 32, 98, 99]⟩ : Value), some ⟨.notFound, -1, [97, 58, 32, 98, 99]⟩][i]? =
        some v → s.observe i = some (observe v)) ∧
      (∀ (i : ℕ) v, [some (⟨.notFound, -1, [120, 58, 32, 97, 58, 32, 98, 99]⟩ : Value),
        some ⟨.notFound, -1, [97, 58, 32, 98, 99]⟩][i]? = some v → t.observe i = some (observe v)) ∧
      ∀ k < 2, (∀ c ∈ [(⟨.cloneAndPrepend 0 [120], fun _ => 8⟩ : Call), ⟨.moveAssign 0 2, fun _ => 9⟩,
        ⟨.copyAssign 2 0, fun _ => 9⟩, ⟨.destroy 2, fun _ => 9⟩], ¬ c.op.touches k) → t.observe k = s.observe k :=
  represents (by decide) (by decide)

end StatusState
end Bboy
