/-
Memory and files as lists of bytes, and the calls that read and write a part of them.

- `splice`: bytes written over a part of a memory;
- `newArray`, `memcpy`: memory that holds anything, and a copy that is undefined outside of its source or its target;
- `resize`, `pwrite`: a file of another length, and a write at an offset of a file, which may be longer afterwards.
-/
import Mathlib.Tactic

namespace Core

variable {α : Type*}

/-- the memory after `bytes` are stored from position `pos` on -/
def splice (mem : List α) (pos : ℕ) (bytes : List α) : List α := mem.take pos ++ bytes ++ mem.drop (pos + bytes.length)

variable {mem bytes : List α} {pos : ℕ}

@[simp] theorem splice_nil (mem : List α) (pos : ℕ) : splice mem pos [] = mem := by simp [splice]

/-- bytes stored behind a part that stays -/
theorem splice_append {stored : List α} (h : stored.length = pos) (rest bytes : List α) :
    splice (stored ++ rest) pos bytes = stored ++ bytes ++ rest.drop bytes.length := by
  subst h
  rw [splice, List.take_left, List.drop_append, List.drop_eq_nil_of_le (Nat.le_add_right _ _), List.nil_append,
    Nat.add_sub_cancel_left]

/-- bytes stored behind bytes that were just stored -/
theorem splice_splice (h : pos ≤ mem.length) (a b : List α) :
    splice (splice mem pos a) (pos + a.length) b = splice mem pos (a ++ b) := by
  have hlength : (mem.take pos ++ a).length = pos + a.length := by simp [h]
  calc splice (splice mem pos a) (pos + a.length) b
      = mem.take pos ++ a ++ b ++ (mem.drop (pos + a.length)).drop b.length := splice_append hlength _ b
    _ = splice mem pos (a ++ b) := by simp [splice, Nat.add_assoc]

theorem take_splice (h : pos ≤ mem.length) :
    (splice mem pos bytes).take (pos + bytes.length) = mem.take pos ++ bytes := by
  have hlength : (mem.take pos ++ bytes).length = pos + bytes.length := by simp [h]
  rw [splice, ← hlength, List.take_left]

theorem length_splice (h : pos ≤ mem.length) : (splice mem pos bytes).length = max mem.length (pos + bytes.length) := by
  simp [splice]
  omega

/-- the next piece of a sequence that is taken piece by piece -/
theorem take_append_take_drop (l : List α) (m n : ℕ) : l.take m ++ (l.drop m).take n = l.take (m + n) :=
  (List.take_add ..).symm

/-! ## Copies -/

/-- `new uint8_t[n]`, which holds what the environment puts there -/
def newArray (garbage : ℕ → UInt8) (n : ℕ) : List UInt8 := (List.range n).map garbage

@[simp] theorem length_newArray (garbage : ℕ → UInt8) (n : ℕ) : (newArray garbage n).length = n := by simp [newArray]

/-- `memcpy` of `n` bytes from one memory to a position of another one -/
def memcpy (dst : List UInt8) (pos : ℕ) (src : List UInt8) (n : ℕ) : Option (List UInt8) :=
  if n ≤ src.length ∧ pos + n ≤ dst.length then some (splice dst pos (src.take n)) else none

theorem memcpy_eq {dst src : List UInt8} {n : ℕ} (hn : n ≤ src.length) (hpos : pos + n ≤ dst.length) :
    memcpy dst pos src n = some (splice dst pos (src.take n)) := if_pos ⟨hn, hpos⟩

/-- a memory that is filled from its start on: `stored` is in it, and `room` more bytes have space behind -/
def Filled (room : ℕ) (stored mem : List UInt8) : Prop := ∃ rest, mem = stored ++ rest ∧ rest.length = room

theorem filled_newArray (garbage : ℕ → UInt8) (n : ℕ) : Filled n [] (newArray garbage n) :=
  ⟨_, (List.nil_append _).symm, length_newArray garbage n⟩

/-- a whole source copied to the end of what is stored -/
theorem Filled.memcpy {room n : ℕ} {stored mem : List UInt8} (h : Filled (n + room) stored mem) (src : List UInt8)
    (hpos : pos = stored.length) (hn : src.length = n) :
    ∃ mem', Core.memcpy mem pos src n = some mem' ∧ Filled room (stored ++ src) mem' := by
  obtain ⟨rest, rfl, hrest⟩ := h
  refine ⟨_, memcpy_eq hn.ge (by simp; omega), rest.drop n, ?_, by simp [hrest]⟩
  rw [List.take_of_length_le hn.le, splice_append hpos.symm, hn]

theorem Filled.full {stored mem : List UInt8} (h : Filled 0 stored mem) : mem = stored := by
  obtain ⟨rest, rfl, hrest⟩ := h
  rw [List.length_eq_zero_iff.1 hrest, List.append_nil]

/-! ## Files -/

/-- a file that is made `n` bytes long: cut, or filled with zeros -/
def resize (file : List UInt8) (n : ℕ) : List UInt8 := file.take n ++ List.replicate (n - file.length) 0

/-- a write at offset `pos`; a gap before it is filled with zeros -/
def pwrite (file : List UInt8) (pos : ℕ) (bytes : List UInt8) : List UInt8 :=
  if bytes = [] then file else splice (resize file (max pos file.length)) pos bytes

variable {file bytes : List UInt8} {n : ℕ}

@[simp] theorem length_resize (file : List UInt8) (n : ℕ) : (resize file n).length = n := by
  simp [resize]
  omega

theorem resize_of_le (h : n ≤ file.length) : resize file n = file.take n := by
  simp [resize, h]

theorem take_resize_of_le {k : ℕ} (hn : k ≤ n) (hk : k ≤ file.length) : (resize file n).take k = file.take k := by
  rw [resize, List.take_append_of_le_length (by simp [hn, hk]), List.take_take, Nat.min_eq_left hn]

theorem pwrite_eq_splice (h : pos ≤ file.length) : pwrite file pos bytes = splice file pos bytes := by
  unfold pwrite
  split_ifs with hbytes
  · rw [hbytes, splice_nil]
  · rw [Nat.max_eq_right h, resize_of_le le_rfl, List.take_length]

end Core
