/-
Lean model of `faststring` (`bboy/base/faststring.h`, `bboy/base/faststring.cc`).

`data_` points to the 32 bytes of `initial_data_` or to an array. A new array holds whatever the environment puts there
(`garbage`). A store or a copy that leaves a buffer is undefined, as is a `DCHECK` that fails; allocation succeeds, and the
sources of copies are no part of the string.

- `Valid`: what every operation keeps: the capacity is that of the current buffer and never below 32, the length is within it.
- `refines`: from any capacity on, every sequence of operations is defined and is one of the plain byte list.
- `assignCopy_agree`: the overload of `assign_copy` for strings copies the string exactly when its size is the length that
  the faststring had before; `assignCopy_disagree` is a state where it is not.
Witnesses: `refines_growing`, `assignCopy_agree_array`.
-/
import Bboy.Core.Bytes
import Bboy.Core.Machine
import Bboy.Core.MachineInt

namespace Bboy

open Core

/-- `data_`: it points to `initial_data_`, or to an array of its own -/
inductive FastString.Data where
  | initial
  | array (bytes : List UInt8)
  deriving DecidableEq, Repr

structure FastString where
  data : FastString.Data
  initialData : List UInt8
  len : ℕ
  capacity : ℕ
  deriving DecidableEq, Repr

namespace FastString

/-! ## Buffers -/

/-- `kInitialCapacity` -/
def initialCapacity : ℕ := 32

/-- what `data_` points to -/
def buffer (s : FastString) : List UInt8 :=
  match s.data with
  | .initial => s.initialData
  | .array bytes => bytes

/-- the first `len_` bytes -/
def contents (s : FastString) : List UInt8 := s.buffer.take s.len

def setBuffer (s : FastString) (bytes : List UInt8) : FastString :=
  match s.data with
  | .initial => { s with initialData := bytes }
  | .array _ => { s with data := .array bytes }

/-- bytes copied into the buffer -/
def store (s : FastString) (pos : ℕ) (src : List UInt8) (n : ℕ) : Option FastString :=
  (memcpy s.buffer pos src n).map s.setBuffer

/-! ## The operations -/

/-- the constructor that is given a capacity; the default constructor is that of capacity 0 -/
def construct (garbage initialGarbage : ℕ → UInt8) (capacity : ℕ) : FastString :=
  let s : FastString := ⟨.initial, newArray initialGarbage initialCapacity, 0, initialCapacity⟩
  if capacity > s.capacity then { s with data := .array (newArray garbage capacity), capacity := capacity } else s

variable (garbage : ℕ → UInt8)

def growArray (s : FastString) (newCapacity : ℕ) : Option FastString := do
  -- DCHECK_GE(new_capacity, capacity_)
  if newCapacity < s.capacity then none
  let newData := newArray garbage newCapacity
  let newData ← if s.len > 0 then memcpy newData 0 s.buffer s.len else some newData
  return { s with data := .array newData, capacity := newCapacity }

def growByAtLeast (s : FastString) (count : ℕ) : Option FastString :=
  let toReserve := sizeAdd s.len count
  let half := s.len * 3 % 2 ^ 64 / 2
  s.growArray garbage (if toReserve < half then half else toReserve)

def ensureRoomForAppend (s : FastString) (count : ℕ) : Option FastString :=
  if sizeAdd s.len count ≤ s.capacity then some s else s.growByAtLeast garbage count

def reserve (s : FastString) (newCapacity : ℕ) : Option FastString :=
  if newCapacity ≤ s.capacity then some s else s.growArray garbage newCapacity

def resize (s : FastString) (newSize : ℕ) : Option FastString := do
  let s ← if newSize > s.capacity then s.reserve garbage newSize else some s
  return { s with len := newSize }

def clear (s : FastString) : Option FastString := s.resize garbage 0

/-- the loop of short appends, from `pos` on -/
def storeBytes (s : FastString) (pos : ℕ) : List UInt8 → Option FastString
  | [] => some s
  | byte :: src => do (← s.store pos [byte] 1).storeBytes (pos + 1) src

def append (s : FastString) (src : List UInt8) : Option FastString := do
  let count := src.length
  let s ← s.ensureRoomForAppend garbage count
  let s ← if count ≤ 4 then s.storeBytes s.len src else s.store s.len src count
  return { s with len := sizeAdd s.len count }

def pushBack (s : FastString) (byte : UInt8) : Option FastString := do
  let s ← s.ensureRoomForAppend garbage 1
  let s ← s.store s.len [byte] 1
  return { s with len := sizeAdd s.len 1 }

/-- `assign_copy` of `len` bytes from `src` on -/
def assignCopy (s : FastString) (src : List UInt8) (len : ℕ) : Option FastString := do
  let s ← FastString.resize garbage { s with len := 0 } len
  s.store 0 src len

/-- `assign_copy` of a string, of which `c_str()` points to `src` and what is behind it in memory -/
def assignCopyString (s : FastString) (src behind : List UInt8) : Option FastString :=
  s.assignCopy garbage (src ++ behind) s.len

/-- `release`: the array that the caller gets, and the string after it -/
def release (s : FastString) : Option (List UInt8 × FastString) := do
  let ret ← match s.data with
    | .initial => memcpy (newArray garbage s.len) 0 s.initialData s.len
    | .array bytes => some bytes
  return (ret, { s with data := .initial, len := 0, capacity := initialCapacity })

/-! ## What a buffer keeps -/

variable {garbage} {s t : FastString} {src bytes : List UInt8} {pos n count : ℕ}

/-- `capacity_` is the size of the current buffer, which is never smaller than the inline one and holds the contents -/
structure Valid (s : FastString) : Prop where
  initial : s.initialData.length = initialCapacity
  buffer : s.buffer.length = s.capacity
  capacity : initialCapacity ≤ s.capacity
  len : s.len ≤ s.capacity

@[simp] theorem buffer_setBuffer (s : FastString) (bytes : List UInt8) : (s.setBuffer bytes).buffer = bytes := by
  unfold setBuffer buffer
  match s.data with
  | .initial => rfl
  | .array _ => rfl

@[simp] theorem len_setBuffer (s : FastString) (bytes : List UInt8) : (s.setBuffer bytes).len = s.len := by
  unfold setBuffer
  match s.data with
  | .initial => rfl
  | .array _ => rfl

@[simp] theorem capacity_setBuffer (s : FastString) (bytes : List UInt8) : (s.setBuffer bytes).capacity = s.capacity := by
  unfold setBuffer
  match s.data with
  | .initial => rfl
  | .array _ => rfl

theorem Valid.setBuffer (hv : s.Valid) (h : bytes.length = s.capacity) : (s.setBuffer bytes).Valid := by
  refine ⟨?_, by simpa using h, by simpa using hv.capacity, by simpa using hv.len⟩
  have hinitial := hv.initial
  have hbuffer := hv.buffer
  unfold FastString.setBuffer
  unfold FastString.buffer at hbuffer
  match hdata : s.data with
  | .array _ => exact hinitial
  | .initial =>
    rw [hdata] at hbuffer
    exact h.trans (hbuffer.symm.trans hinitial)

theorem Valid.length_contents (hv : s.Valid) : s.contents.length = s.len := by
  rw [contents, List.length_take, hv.buffer, Nat.min_eq_left hv.len]

theorem valid_construct (garbage initialGarbage : ℕ → UInt8) (capacity : ℕ) :
    (construct garbage initialGarbage capacity).Valid ∧ (construct garbage initialGarbage capacity).contents = [] := by
  unfold construct
  dsimp only
  split_ifs with h
  · exact ⟨⟨by simp, by simp [FastString.buffer], le_of_lt h, Nat.zero_le _⟩, rfl⟩
  · exact ⟨⟨by simp, by simp [FastString.buffer], le_rfl, Nat.zero_le _⟩, rfl⟩

/-- a string with another buffer that holds the same contents -/
structure Moved (s t : FastString) : Prop where
  valid : t.Valid
  len : t.len = s.len
  contents : t.contents = s.contents

theorem Moved.refl (hv : s.Valid) : Moved s s := ⟨hv, rfl, rfl⟩

/-- **Growth preserves all bytes** -/
theorem growArray_spec (garbage : ℕ → UInt8) (hv : s.Valid) (h : s.capacity ≤ n) :
    ∃ t, s.growArray garbage n = some t ∧ Moved s t ∧ t.capacity = n := by
  have hlen : s.len ≤ n := hv.len.trans h
  have hcapacity : initialCapacity ≤ n := hv.capacity.trans h
  unfold growArray
  rw [if_neg (not_lt.2 h)]
  by_cases hpos : s.len > 0
  · have hcopy : memcpy (newArray garbage n) 0 s.buffer s.len = _ :=
      memcpy_eq (hv.buffer.ge.trans' hv.len) (by simpa using hlen)
    have htake : (s.buffer.take s.len).length = s.len := hv.length_contents
    rw [if_pos hpos, hcopy]
    refine ⟨_, rfl, ⟨⟨hv.initial, ?_, hcapacity, hlen⟩, rfl, ?_⟩, rfl⟩
    · show (splice (newArray garbage n) 0 (s.buffer.take s.len)).length = n
      rw [length_splice (Nat.zero_le _), length_newArray, htake, Nat.zero_add, max_eq_left hlen]
    · have hfirst : (splice (newArray garbage n) 0 (s.buffer.take s.len)).take (0 + (s.buffer.take s.len).length) = _ :=
        take_splice (Nat.zero_le _)
      rwa [htake, Nat.zero_add] at hfirst
  · have hzero : s.len = 0 := Nat.eq_zero_of_not_pos hpos
    rw [if_neg hpos]
    refine ⟨_, rfl, ⟨⟨hv.initial, length_newArray garbage n, hcapacity, hlen⟩, rfl, ?_⟩, rfl⟩
    simp [FastString.contents, hzero]

/-- room for `count` more bytes: none of the sums wraps around below 2^62 -/
theorem ensureRoomForAppend_spec (garbage : ℕ → UInt8) (hv : s.Valid) (h : s.len + count < 2 ^ 62) :
    ∃ t, s.ensureRoomForAppend garbage count = some t ∧ Moved s t ∧ s.len + count ≤ t.capacity := by
  have hsum : sizeAdd s.len count = s.len + count := by
    unfold sizeAdd
    omega
  have hhalf : s.len * 3 % 2 ^ 64 = s.len * 3 := Nat.mod_eq_of_lt (by omega)
  unfold ensureRoomForAppend growByAtLeast
  rw [hsum, hhalf]
  by_cases hroom : s.len + count ≤ s.capacity
  · rw [if_pos hroom]
    exact ⟨s, rfl, Moved.refl hv, hroom⟩
  · rw [if_neg hroom]
    dsimp only
    split_ifs with hlt
    · obtain ⟨t, ht, hmoved, hcapacity⟩ := growArray_spec garbage hv (n := s.len * 3 / 2) (by omega)
      exact ⟨t, ht, hmoved, by omega⟩
    · obtain ⟨t, ht, hmoved, hcapacity⟩ := growArray_spec garbage hv (n := s.len + count) (by omega)
      exact ⟨t, ht, hmoved, hcapacity.ge⟩

theorem reserve_spec (garbage : ℕ → UInt8) (hv : s.Valid) (n : ℕ) :
    ∃ t, s.reserve garbage n = some t ∧ Moved s t ∧ n ≤ t.capacity := by
  unfold reserve
  split_ifs with h
  · exact ⟨s, rfl, Moved.refl hv, h⟩
  · obtain ⟨t, ht, hmoved, hcapacity⟩ := growArray_spec garbage hv (not_le.1 h).le
    exact ⟨t, ht, hmoved, hcapacity.ge⟩

/-- a store that stays in the buffer -/
theorem store_spec (hv : s.Valid) (pos : ℕ) (src : List UInt8) (hn : n ≤ src.length) (hpos : pos + n ≤ s.capacity) :
    ∃ t, s.store pos src n = some t ∧ t.Valid ∧ t.len = s.len ∧ t.capacity = s.capacity ∧
      t.buffer = splice s.buffer pos (src.take n) := by
  have hcopy : memcpy s.buffer pos src n = _ := memcpy_eq hn (hpos.trans hv.buffer.ge)
  rw [store, hcopy, Option.map_some]
  refine ⟨_, rfl, hv.setBuffer ?_, by simp, by simp, by simp⟩
  rw [length_splice (by rw [hv.buffer]; omega), hv.buffer, List.length_take, Nat.min_eq_left hn, max_eq_left hpos]

/-- the loop of short appends stores what a copy does -/
theorem storeBytes_spec (hv : s.Valid) (hpos : pos + src.length ≤ s.capacity) :
    ∃ t, s.storeBytes pos src = some t ∧ t.Valid ∧ t.len = s.len ∧ t.capacity = s.capacity ∧
      t.buffer = splice s.buffer pos src := by
  induction src generalizing s pos with
  | nil => exact ⟨s, rfl, hv, rfl, rfl, (splice_nil _ _).symm⟩
  | cons byte src ih =>
    rw [List.length_cons] at hpos
    obtain ⟨u, hu, hvu, hlen, hcapacity, hbuffer⟩ := store_spec hv pos [byte] (le_refl 1) (by omega)
    have hrest : pos + 1 + src.length ≤ u.capacity := by omega
    obtain ⟨t, ht, hvt, hlen', hcapacity', hbuffer'⟩ := ih hvu hrest
    refine ⟨t, ?_, hvt, hlen'.trans hlen, hcapacity'.trans hcapacity, ?_⟩
    · rw [storeBytes, hu]
      exact ht
    · have hle : pos ≤ s.buffer.length := by
        rw [hv.buffer]
        omega
      rw [hbuffer', hbuffer]
      exact splice_splice hle [byte] src

/-- the length moves behind the bytes that were stored at the end -/
theorem contents_of_store (src : List UInt8) (hv : s.Valid) (hroom : s.len + src.length ≤ s.capacity) (hvt : t.Valid)
    (hcapacity : t.capacity = s.capacity) (hbuffer : t.buffer = splice s.buffer s.len src) :
    Valid { t with len := s.len + src.length } ∧
      contents { t with len := s.len + src.length } = s.contents ++ src := by
  refine ⟨⟨hvt.initial, hvt.buffer, hvt.capacity, hroom.trans hcapacity.ge⟩, ?_⟩
  show t.buffer.take (s.len + src.length) = s.contents ++ src
  rw [hbuffer, take_splice (hv.len.trans hv.buffer.ge)]
  rfl

theorem sizeAdd_of_small (h : n + count < 2 ^ 62) : sizeAdd n count = n + count := by
  unfold sizeAdd
  omega

theorem append_spec (garbage : ℕ → UInt8) (hv : s.Valid) (h : s.len + src.length < 2 ^ 62) :
    ∃ t, s.append garbage src = some t ∧ t.Valid ∧ t.contents = s.contents ++ src := by
  obtain ⟨u, hu, hmoved, hroom⟩ := ensureRoomForAppend_spec garbage hv h
  rw [← hmoved.len] at hroom h
  have hstored : ∃ t, (if src.length ≤ 4 then u.storeBytes u.len src else u.store u.len src src.length) = some t ∧
      t.Valid ∧ t.len = u.len ∧ t.capacity = u.capacity ∧ t.buffer = splice u.buffer u.len src := by
    split_ifs
    · exact storeBytes_spec hmoved.valid hroom
    · have hstore := store_spec hmoved.valid u.len src le_rfl hroom
      rwa [List.take_length] at hstore
  obtain ⟨t, ht, hvt, hlen, hcapacity, hbuffer⟩ := hstored
  obtain ⟨hvalid, hcontents⟩ := contents_of_store src hmoved.valid hroom hvt hcapacity hbuffer
  refine ⟨{ t with len := u.len + src.length }, ?_, hvalid, by rw [hcontents, hmoved.contents]⟩
  unfold append
  simp only [hu, Option.bind_eq_bind, Option.bind_some]
  split_ifs at ht ⊢ <;> simp only [ht, Option.bind_some, hlen, sizeAdd_of_small h] <;> rfl

theorem pushBack_spec (garbage : ℕ → UInt8) (hv : s.Valid) (byte : UInt8) (h : s.len + 1 < 2 ^ 62) :
    ∃ t, s.pushBack garbage byte = some t ∧ t.Valid ∧ t.contents = s.contents ++ [byte] := by
  obtain ⟨u, hu, hmoved, hroom⟩ := ensureRoomForAppend_spec garbage hv h
  rw [← hmoved.len] at hroom h
  obtain ⟨t, ht, hvt, hlen, hcapacity, hbuffer⟩ := store_spec hmoved.valid u.len [byte] (le_refl 1) hroom
  obtain ⟨hvalid, hcontents⟩ := contents_of_store [byte] hmoved.valid hroom hvt hcapacity hbuffer
  refine ⟨{ t with len := u.len + 1 }, ?_, hvalid, hcontents.trans (by rw [hmoved.contents])⟩
  unfold pushBack
  simp only [hu, ht, Option.bind_eq_bind, Option.bind_some, hlen, sizeAdd_of_small h]
  rfl

/-- a resized string keeps what fits of its contents; the rest is not specified -/
theorem resize_spec (garbage : ℕ → UInt8) (hv : s.Valid) (n : ℕ) :
    ∃ t, s.resize garbage n = some t ∧ t.Valid ∧ t.len = n ∧ ∃ fill, t.contents = s.contents.take n ++ fill := by
  have hreserve : ∃ u, (if n > s.capacity then s.reserve garbage n else some s) = some u ∧ Moved s u ∧ n ≤ u.capacity := by
    split_ifs with h
    · exact reserve_spec garbage hv n
    · exact ⟨s, rfl, Moved.refl hv, not_lt.1 h⟩
  obtain ⟨u, hu, hmoved, hroom⟩ := hreserve
  refine ⟨{ u with len := n }, ?_, ⟨hmoved.valid.initial, hmoved.valid.buffer, hmoved.valid.capacity, hroom⟩, rfl, ?_⟩
  · unfold resize
    split_ifs at hu ⊢ <;> rw [hu] <;> rfl
  · have hcontents : s.contents = u.buffer.take s.len := by rw [← hmoved.contents, contents, hmoved.len]
    refine ⟨(u.buffer.take n).drop s.len, ?_⟩
    calc u.buffer.take n
        = (u.buffer.take n).take s.len ++ (u.buffer.take n).drop s.len := (List.take_append_drop _ _).symm
      _ = s.contents.take n ++ (u.buffer.take n).drop s.len := by rw [hcontents, List.take_take, List.take_take, Nat.min_comm]

theorem assignCopy_spec (garbage : ℕ → UInt8) (hv : s.Valid) (h : n ≤ src.length) :
    ∃ t, s.assignCopy garbage src n = some t ∧ t.Valid ∧ t.contents = src.take n := by
  have hempty : Valid { s with len := 0 } := ⟨hv.initial, hv.buffer, hv.capacity, Nat.zero_le _⟩
  obtain ⟨u, hu, hvu, hlen, -⟩ := resize_spec garbage hempty n
  obtain ⟨t, ht, hvt, hlen', -, hbuffer⟩ := store_spec hvu 0 src h (by rw [Nat.zero_add, ← hlen]; exact hvu.len)
  refine ⟨t, ?_, hvt, ?_⟩
  · unfold assignCopy
    rw [hu]
    exact ht
  · have hfirst : (splice u.buffer 0 (src.take n)).take (0 + (src.take n).length) = _ := take_splice (Nat.zero_le _)
    rw [Nat.zero_add, List.length_take, Nat.min_eq_left h] at hfirst
    rw [contents, hlen', hlen, hbuffer, hfirst]
    rfl

/-- a copy that reads beyond its source is undefined -/
theorem assignCopy_eq_none (garbage : ℕ → UInt8) (hv : s.Valid) (h : src.length < n) :
    s.assignCopy garbage src n = none := by
  have hempty : Valid { s with len := 0 } := ⟨hv.initial, hv.buffer, hv.capacity, Nat.zero_le _⟩
  obtain ⟨u, hu, -⟩ := resize_spec garbage hempty n
  unfold assignCopy
  rw [hu]
  show (memcpy u.buffer 0 src n).map u.setBuffer = none
  rw [memcpy, if_neg fun hcopy => absurd hcopy.1 (not_le.2 h), Option.map_none]

/-- the array of the caller begins with the contents, and the string is empty again -/
theorem release_spec (garbage : ℕ → UInt8) (hv : s.Valid) :
    ∃ ret t, s.release garbage = some (ret, t) ∧ t.Valid ∧ t.contents = [] ∧ s.contents <+: ret := by
  have hvalid : Valid { s with data := .initial, len := 0, capacity := initialCapacity } :=
    ⟨hv.initial, hv.initial, le_rfl, Nat.zero_le _⟩
  unfold release
  match hdata : s.data with
  | .array bytes =>
    refine ⟨bytes, _, rfl, hvalid, rfl, ?_⟩
    have hbuffer : s.buffer = bytes := by rw [FastString.buffer, hdata]
    rw [contents, hbuffer]
    exact List.take_prefix _ _
  | .initial =>
    have hbuffer : s.buffer = s.initialData := by rw [FastString.buffer, hdata]
    have hlen : s.len ≤ s.initialData.length := by
      rw [← hbuffer, hv.buffer]
      exact hv.len
    have hcopy : memcpy (newArray garbage s.len) 0 s.initialData s.len = _ := memcpy_eq hlen (by simp)
    simp only [hcopy]
    refine ⟨_, _, rfl, hvalid, rfl, ?_⟩
    rw [contents, hbuffer, splice, List.take_zero, List.nil_append]
    exact List.prefix_append _ _

/-! ## Sequences of operations -/

inductive Op where
  | append (src : List UInt8)
  | pushBack (byte : UInt8)
  | resize (newSize : ℕ)
  | reserve (newCapacity : ℕ)
  | clear
  | assignCopy (src : List UInt8)
  | release
  deriving DecidableEq, Repr

/-- a call, with what the arrays hold that it allocates -/
structure Call where
  op : Op
  garbage : ℕ → UInt8

/-- the string, and the arrays that `release` has handed away -/
structure St where
  string : FastString
  released : List (List UInt8)

def call (c : Call) (s : FastString) : Option FastString :=
  match c.op with
  | .append src => s.append c.garbage src
  | .pushBack byte => s.pushBack c.garbage byte
  | .resize newSize => s.resize c.garbage newSize
  | .reserve newCapacity => s.reserve c.garbage newCapacity
  | .clear => s.clear c.garbage
  | .assignCopy src => s.assignCopy c.garbage src src.length
  | .release => (s.release c.garbage).map Prod.snd

def machine (string : FastString) : Machine St Call where
  init := ⟨string, []⟩
  step s c := do
    let released ← if c.op = .release then (s.string.release c.garbage).map fun r => s.released.concat r.1
      else some s.released
    return ⟨← call c s.string, released⟩

/-- the sizes that a call names or reaches are below 2^62 -/
def Small (s : St) (c : Call) : Prop :=
  match c.op with
  | .append src => s.string.len + src.length < 2 ^ 62
  | .pushBack _ => s.string.len + 1 < 2 ^ 62
  | .resize newSize => newSize < 2 ^ 62
  | .reserve newCapacity => newCapacity < 2 ^ 62
  | .assignCopy src => src.length < 2 ^ 62
  | .clear | .release => True

instance (s : St) (c : Call) : Decidable (Small s c) := by
  unfold Small
  match c.op with
  | .append _ | .pushBack _ | .resize _ | .reserve _ | .assignCopy _ | .clear | .release => infer_instance

/-! ## The plain byte list -/

/-- a byte list, and the contents it had at each release -/
structure ByteList where
  bytes : List UInt8
  released : List (List UInt8)

/-- the operations of a byte list; what a growing `resize` exposes is not specified -/
def ByteList.Step (a : ByteList) (c : Call) (b : ByteList) : Prop :=
  match c.op with
  | .append src => b = { a with bytes := a.bytes ++ src }
  | .pushBack byte => b = { a with bytes := a.bytes ++ [byte] }
  | .resize newSize => ∃ fill, b = { a with bytes := a.bytes.take newSize ++ fill } ∧ b.bytes.length = newSize
  | .reserve _ => b = a
  | .clear => b = { a with bytes := [] }
  | .assignCopy src => b = { a with bytes := src }
  | .release => b = ⟨[], a.released.concat a.bytes⟩

/-- the string holds the bytes, and each array that was handed away begins with those of its release -/
structure Refines (s : St) (a : ByteList) : Prop where
  valid : s.string.Valid
  contents : s.string.contents = a.bytes
  released : List.Forall₂ (fun array bytes => bytes <+: array) s.released a.released

/-- **One operation** is defined, keeps the invariant and does to the contents what it does to the byte list -/
theorem step_refines (string : FastString) {s : St} {a : ByteList} {c : Call} (h : Refines s a) (hsmall : Small s c) :
    ∃ t b, (machine string).step s c = some t ∧ a.Step c b ∧ Refines t b := by
  obtain ⟨hv, hcontents, hreleased⟩ := h
  obtain ⟨op, garbage⟩ := c
  have hkeep : ∀ t : FastString, op ≠ .release → call ⟨op, garbage⟩ s.string = some t →
      (machine string).step s ⟨op, garbage⟩ = some ⟨t, s.released⟩ := by
    intro t hop ht
    simp only [machine, if_neg hop, ht]
    rfl
  match op, hsmall, hkeep with
  | .append src, hsmall, hkeep =>
    obtain ⟨t, ht, hvt, hbytes⟩ := append_spec garbage hv hsmall
    exact ⟨_, _, hkeep t (by simp) ht, rfl, hvt, hbytes.trans (by rw [hcontents]), hreleased⟩
  | .pushBack byte, hsmall, hkeep =>
    obtain ⟨t, ht, hvt, hbytes⟩ := pushBack_spec garbage hv byte hsmall
    exact ⟨_, _, hkeep t (by simp) ht, rfl, hvt, hbytes.trans (by rw [hcontents]), hreleased⟩
  | .resize n, hsmall, hkeep =>
    obtain ⟨t, ht, hvt, hlen, fill, hbytes⟩ := resize_spec garbage hv n
    have hlength := hvt.length_contents
    rw [hcontents] at hbytes
    rw [hbytes, hlen] at hlength
    exact ⟨_, _, hkeep t (by simp) ht, ⟨fill, rfl, hlength⟩, hvt, hbytes, hreleased⟩
  | .reserve n, hsmall, hkeep =>
    obtain ⟨t, ht, hmoved, -⟩ := reserve_spec garbage hv n
    exact ⟨_, _, hkeep t (by simp) ht, rfl, hmoved.valid, hmoved.contents.trans hcontents, hreleased⟩
  | .clear, hsmall, hkeep =>
    obtain ⟨t, ht, hvt, hlen, -⟩ := resize_spec garbage hv 0
    exact ⟨_, _, hkeep t (by simp) ht, rfl, hvt, by simp [FastString.contents, hlen], hreleased⟩
  | .assignCopy src, hsmall, hkeep =>
    obtain ⟨t, ht, hvt, hbytes⟩ := assignCopy_spec garbage hv (le_refl src.length)
    rw [List.take_length] at hbytes
    exact ⟨_, _, hkeep t (by simp) ht, rfl, hvt, hbytes, hreleased⟩
  | .release, _, _ =>
    obtain ⟨ret, t, ht, hvt, hbytes, hprefix⟩ := release_spec garbage hv
    refine ⟨⟨t, s.released.concat ret⟩, _, ?_, rfl, hvt, hbytes, ?_⟩
    · simp only [machine, call, if_true, ht]
      rfl
    · rw [List.concat_eq_append, List.concat_eq_append]
      exact List.rel_append hreleased (.cons (hcontents ▸ hprefix) .nil)

/-- **The string is a byte list.** From any initial capacity on, every sequence of operations below 2^62 is defined, is a
sequence of the plain byte list, and leaves the same bytes in a buffer that holds them; no store leaves its buffer. -/
theorem refines (garbage initialGarbage : ℕ → UInt8) (capacity : ℕ) (calls : List Call)
    (h : (machine (construct garbage initialGarbage capacity)).Along Small
      ⟨construct garbage initialGarbage capacity, []⟩ calls) :
    ∃ t b, (machine (construct garbage initialGarbage capacity)).run
        ⟨construct garbage initialGarbage capacity, []⟩ calls = some t ∧
      Machine.Steps ByteList.Step ⟨[], []⟩ calls b ∧ Refines t b := by
  obtain ⟨hvalid, hempty⟩ := valid_construct garbage initialGarbage capacity
  exact Machine.run_simulation (fun _ _ _ => step_refines _) ⟨hvalid, hempty, .nil⟩ h

/-- a string that outgrows its inline buffer, shrinks, grows again and is released -/
theorem refines_growing :
    ∃ t b, (machine (construct (fun _ => 1) (fun _ => 2) 8)).run ⟨construct (fun _ => 1) (fun _ => 2) 8, []⟩
        [⟨.append (List.replicate 33 7), fun _ => 3⟩, ⟨.resize 2, fun _ => 4⟩, ⟨.reserve 70, fun _ => 5⟩,
          ⟨.release, fun _ => 6⟩, ⟨.pushBack 9, fun _ => 8⟩] = some t ∧
      Machine.Steps ByteList.Step ⟨[], []⟩ [⟨.append (List.replicate 33 7), fun _ => 3⟩, ⟨.resize 2, fun _ => 4⟩,
        ⟨.reserve 70, fun _ => 5⟩, ⟨.release, fun _ => 6⟩, ⟨.pushBack 9, fun _ => 8⟩] b ∧ Refines t b :=
  refines _ _ _ _ (by decide +kernel)

/-! ## The overload of `assign_copy` -/

/-- a string is copied as its pointer and size would be, whatever is behind it in memory -/
def Agree (garbage : ℕ → UInt8) (s : FastString) (src : List UInt8) : Prop :=
  ∀ behind, ∃ t u, s.assignCopyString garbage src behind = some t ∧ s.assignCopy garbage src src.length = some u ∧
    t.contents = src ∧ u.contents = src

/-- **The overload** copies a string, and reads nothing behind it, exactly when the string is as long as the old contents -/
theorem assignCopy_agree (garbage : ℕ → UInt8) (hv : s.Valid) (src : List UInt8) :
    Agree garbage s src ↔ s.len = src.length := by
  constructor
  · intro h
    obtain ⟨t, u, ht, -, hcontents, -⟩ := h []
    rw [assignCopyString, List.append_nil] at ht
    by_cases hlt : src.length < s.len
    · rw [assignCopy_eq_none garbage hv hlt] at ht
      exact absurd ht (by simp)
    · obtain ⟨t', ht', -, hcontents'⟩ := assignCopy_spec garbage hv (not_lt.1 hlt)
      rw [ht, Option.some.injEq] at ht'
      rw [← ht', hcontents] at hcontents'
      have hlength := congrArg List.length hcontents'
      rw [List.length_take] at hlength
      omega
  · intro h behind
    have hle : s.len ≤ (src ++ behind).length := by
      rw [List.length_append]
      omega
    obtain ⟨t, ht, -, hcontents⟩ := assignCopy_spec garbage hv hle
    obtain ⟨u, hu, -, hcontents'⟩ := assignCopy_spec garbage hv (le_refl src.length)
    rw [h, List.take_left] at hcontents
    rw [List.take_length] at hcontents'
    exact ⟨t, u, ht, hu, hcontents, hcontents'⟩

/-- 35 bytes in an array of 40, and another 35 bytes -/
theorem assignCopy_agree_array :
    Agree (fun _ => 0) ⟨.array (List.replicate 40 7), List.replicate 32 9, 35, 40⟩ ((List.range 35).map UInt8.ofNat) :=
  (assignCopy_agree (fun _ => 0) ⟨rfl, rfl, by decide, by decide⟩ ((List.range 35).map UInt8.ofNat)).2 rfl

/-- **A copy that copies nothing**: `assign_copy` of `hi` to a new faststring -/
theorem assignCopy_disagree : ¬ Agree (fun _ => 0) (construct (fun _ => 0) (fun _ => 0) 0) [104, 105] := by
  intro h
  obtain ⟨t, u, ht, -, hcontents, -⟩ := h [0]
  have hempty : (assignCopyString (fun _ => 0) (construct (fun _ => 0) (fun _ => 0) 0) [104, 105] [0]).map contents =
      some [] := by decide
  rw [ht, Option.map_some, hcontents] at hempty
  exact absurd hempty (by decide)

end FastString
end Bboy
