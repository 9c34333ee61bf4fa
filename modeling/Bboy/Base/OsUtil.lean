/-
Lean model of `ParseStat` (`bboy/base/os-util.cc`), which reads the text of `/proc/self/task/<tid>/stat`, of the part of
`strings::Split` under it (`bboy/gbase/strings/split_internal.h`), and of `safe_strto64`
(`bboy/gbase/strings/numbers.cc`).

A string is the list of its bytes. An exception, a failed assertion and a read past the end of a vector are faults.

- `pieces_fields`: fields with one blank between them are split as they were joined.
- `safeStrto64_decimalInt`: a printed number is read back if it is an `int64`.
- `ticksToNs_exact`: the conversion through doubles is exact for the numbers that `Scales` names, and for no others.
- `safe_exact`: no fault exactly for the texts with `Enough` behind the name; an error or filled outputs exactly if the
  fields that are read are numbers, too.
- `inverted_exact`: the line of the kernel is read back exactly if its name has no `)`, the fields are short and the
  three numbers are exact in nanoseconds.
- `safe_broken`, `inverted_broken`: `1 (a)`, a text of 39 fields, and a thread with the name `a)b`.
-/
import Bboy.Base.Status
import Bboy.Core.Decimal
import Bboy.Core.Double
import Mathlib.Data.List.TakeWhile

namespace Bboy.OsUtil

open Core

/-! ## Model -/

structure ThreadStats where
  userNs : ℤ
  kernelNs : ℤ
  iowaitNs : ℤ
deriving DecidableEq, Repr

/-- how a call ends that does not return -/
inductive Fault where
  /-- a start past the end: `substr` throws -/
  | substr
  /-- the assertion that a `StringPiece` has at most `INT_MAX` bytes -/
  | stringPiece
  /-- a vector read past its end -/
  | index
deriving DecidableEq, Repr

/-- `string::find` -/
def find (buf : List UInt8) (c : UInt8) : Option ℕ := buf.findIdx? (· == c)

def substr (buf : List UInt8) (pos count : ℕ) : Except Fault (List UInt8) :=
  if pos ≤ buf.length then .ok ((buf.drop pos).take count) else .error .substr

/-- the pieces that a `SplitIterator` for a blank goes through: the text up to the next blank, then what is behind it -/
def pieces (text : List UInt8) : List (List UInt8) :=
  match _h : text.dropWhile (· != 32) with
  | [] => [text]
  | _ :: rest => text.takeWhile (· != 32) :: pieces rest
termination_by text.length
decreasing_by
  have hle := (List.dropWhile_suffix (· != 32) (l := text)).length_le
  rw [_h, List.length_cons] at hle
  omega

/-- `Split(text, " ", SkipEmpty())` -/
def split (text : List UInt8) : Except Fault (List (List UInt8)) :=
  if text.length < 2 ^ 31 then .ok ((pieces text).filter (!·.isEmpty)) else .error .stringPiece

def isSpace (c : UInt8) : Bool := c == 32 || 9 ≤ c && c ≤ 13

def InInt64 (v : ℤ) : Prop := -2 ^ 63 ≤ v ∧ v < 2 ^ 63

instance (v : ℤ) : Decidable (InInt64 v) := inferInstanceAs (Decidable (_ ∧ _))

/-- an optional sign -/
def sign : List UInt8 → ℤ × List UInt8
  | 45 :: text => (-1, text)
  | 43 :: text => (1, text)
  | text => (1, text)

/-- `strtoll` on the C string, and that only white space is behind the number -/
def safeStrto64 (str : List UInt8) : Option ℤ :=
  let text := ((str.takeWhile (· != 0)).dropWhile isSpace)
  let digits := (sign text).2.takeWhile isDigit
  let value := (sign text).1 * digitsValue digits
  if digits = [] then none
  -- `ERANGE`
  else if ¬InInt64 value then none
  else if ((sign text).2.dropWhile isDigit).dropWhile isSpace = [] then some value
  else none

/-- the conversion of a double; out of range it is undefined, and `INT64_MIN` on x86-64 -/
def toInt64 (x : ℚ) : ℤ :=
  let v := if 0 ≤ x then ⌊x⌋ else ⌈x⌉
  if InInt64 v then v else -2 ^ 63

/-- `tmp * (1e9 / TICKS_PER_SEC)` -/
def ticksToNs (ticksPerSec : ℕ+) (tmp : ℤ) : ℤ :=
  toInt64 (roundDouble (roundDouble tmp * roundDouble (10 ^ 9 / roundDouble (ticksPerSec : ℕ))))

def kUserTicks : ℕ := 13 - 2

def kKernelTicks : ℕ := 14 - 2

def kIoWait : ℕ := 41 - 2

def kMaxOffset : ℕ := kIoWait

def unrecognised : BadStatus := .ioError "Unrecognised /proc format" "" (-1)

/-- one of the three counters, which keeps its value if the field is no number -/
def counter (ticksPerSec : ℕ+) (splits : List (List UInt8)) (offset : ℕ) (ns : ℤ) : Except Fault ℤ :=
  match splits[offset]? with
  | none => .error .index
  | some field =>
    match safeStrto64 field with
    | some tmp => .ok (ticksToNs ticksPerSec tmp)
    | none => .ok ns

/-- the status, and what `name` (if it is not null) and `stats` point to -/
abbrev Result := Except Fault (Status × Option (List UInt8) × ThreadStats)

/-- `ParseStat` from the check of the number of fields on -/
def readFields (ticksPerSec : ℕ+) (extractedName : List UInt8) (splits : List (List UInt8)) (name : Option (List UInt8))
    (stats : ThreadStats) : Result := do
  if splits.length < kMaxOffset then return (.bad unrecognised, name, stats)
  let userNs ← counter ticksPerSec splits kUserTicks stats.userNs
  let kernelNs ← counter ticksPerSec splits kKernelTicks stats.kernelNs
  let iowaitNs ← counter ticksPerSec splits kIoWait stats.iowaitNs
  return (.ok, name.map fun _ => extractedName, ⟨userNs, kernelNs, iowaitNs⟩)

def parseStat (ticksPerSec : ℕ+) (buf : List UInt8) (name : Option (List UInt8)) (stats : ThreadStats) : Result :=
  match find buf 40, find buf 41 with
  | some openParen, some closeParen =>
    if openParen ≥ closeParen ∨ closeParen + 2 = buf.length then .ok (.bad unrecognised, name, stats)
    else do
      let extractedName ← substr buf (openParen + 1) (closeParen - (openParen + 1))
      let rest ← substr buf (closeParen + 2) buf.length
      let splits ← split rest
      readFields ticksPerSec extractedName splits name stats
  | _, _ => .ok (.bad unrecognised, name, stats)

/-! ## Pieces -/

variable {text rest a b : List UInt8}

theorem ne_blank (h : 32 ∉ a) : ∀ c ∈ a, (c != 32) = true := fun _ hc => bne_iff_ne.2 fun heq => h (heq ▸ hc)

/-- a text without a blank is one piece -/
theorem pieces_single (h : 32 ∉ a) : pieces a = [a] := by
  have hdrop := List.dropWhile_eq_nil_iff.2 (ne_blank h)
  rw [pieces]
  split
  · rfl
  · next heq => rw [hdrop] at heq; cases heq

theorem pieces_blank (h : 32 ∉ a) : pieces (a ++ 32 :: rest) = a :: pieces rest := by
  have hdrop : (a ++ 32 :: rest).dropWhile (· != 32) = 32 :: rest := List.dropWhile_append_of_pos (ne_blank h)
  have htake : (a ++ 32 :: rest).takeWhile (· != 32) = a ++ [] := List.takeWhile_append_of_pos (ne_blank h)
  rw [pieces]
  split
  · next heq => rw [hdrop] at heq; cases heq
  · next heq =>
    rw [hdrop] at heq
    obtain ⟨-, rfl⟩ := List.cons.inj heq
    rw [htake, List.append_nil]

/-- fields that follow each other with one blank between them, and whatever comes behind the last one -/
theorem pieces_fields (first : List UInt8) (fields : List (List UInt8)) (ending : List UInt8)
    (h : ∀ s ∈ first :: fields, 32 ∉ s) :
    pieces (first ++ (fields.flatMap (32 :: ·) ++ ending)) =
      (first :: fields).dropLast ++ pieces ((first :: fields).getLast (List.cons_ne_nil _ _) ++ ending) := by
  induction fields generalizing first with
  | nil => rfl
  | cons second fields ih =>
    have hfirst := h first List.mem_cons_self
    have hrest := ih second fun s hs => h s (List.mem_cons_of_mem _ hs)
    calc pieces (first ++ ((second :: fields).flatMap (32 :: ·) ++ ending))
        = pieces (first ++ 32 :: (second ++ (fields.flatMap (32 :: ·) ++ ending))) := by simp
      _ = first :: pieces (second ++ (fields.flatMap (32 :: ·) ++ ending)) := pieces_blank hfirst
      _ = _ := by
        rw [hrest, List.dropLast_cons_cons, List.getLast_cons_cons]
        rfl

/-! ## Numbers -/

/-- what a printed number is made of -/
theorem decimalInt_plain {i : ℤ} {c : UInt8} (h : c ∈ decimalInt i) : c ≠ 0 ∧ isSpace c = false := by
  rcases mem_decimalInt h with rfl | hdigit
  · decide
  · have hblank : c ≠ 32 := ne_of_isDigit hdigit rfl
    have hhigh : ¬c ≤ 13 := by
      intro hle
      simp only [isDigit, Bool.and_eq_true, decide_eq_true_eq] at hdigit
      exact absurd (UInt8.le_trans hdigit.1 hle) (by decide)
    exact ⟨ne_of_isDigit hdigit rfl, by simp [isSpace, hblank, hhigh]⟩

theorem sign_decimal (n : ℕ) : sign (decimal n) = (1, decimal n) := by
  obtain ⟨c, digits, hdecimal⟩ := List.exists_cons_of_ne_nil (decimal_ne_nil n)
  have hdigit : isDigit c = true := isDigit_of_mem_decimal (n := n) (hdecimal ▸ List.mem_cons_self)
  rw [hdecimal]
  unfold sign
  split
  · next heq =>
    rw [(List.cons.inj heq).1] at hdigit
    exact absurd hdigit (by decide)
  · next heq =>
    rw [(List.cons.inj heq).1] at hdigit
    exact absurd hdigit (by decide)
  · rfl

theorem sign_decimalInt (i : ℤ) : ∃ s, sign (decimalInt i) = (s, decimal i.natAbs) ∧ s * i.natAbs = i := by
  by_cases h : i < 0
  · refine ⟨-1, ?_, by omega⟩
    rw [decimalInt, if_pos h]
    rfl
  · refine ⟨1, ?_, by omega⟩
    rw [decimalInt, if_neg h, sign_decimal]

/-- **Numbers are read back** if they are in range. -/
theorem safeStrto64_decimalInt (i : ℤ) : safeStrto64 (decimalInt i) = if InInt64 i then some i else none := by
  obtain ⟨s, hsign, hvalue⟩ := sign_decimalInt i
  have hzero : (decimalInt i).takeWhile (· != 0) = decimalInt i :=
    List.takeWhile_eq_self_iff.2 fun c hc => bne_iff_ne.2 (decimalInt_plain hc).1
  have hspace : (decimalInt i).dropWhile isSpace = decimalInt i := by
    obtain ⟨c, tail, hcons⟩ := List.exists_cons_of_ne_nil (decimalInt_ne_nil i)
    have hc : isSpace c = false := (decimalInt_plain (hcons ▸ List.mem_cons_self)).2
    rw [hcons, List.dropWhile_cons_of_neg]
    simp [hc]
  have hdigits : ∀ c ∈ decimal i.natAbs, isDigit c = true := fun c hc => isDigit_of_mem_decimal hc
  have hne := decimal_ne_nil i.natAbs
  simp only [safeStrto64, hzero, hspace, hsign, List.takeWhile_eq_self_iff.2 hdigits,
    List.dropWhile_eq_nil_iff.2 hdigits, digitsValue_decimal, hvalue, if_neg hne, List.dropWhile_nil, if_true]
  by_cases h : InInt64 i
  · rw [if_neg (not_not.2 h), if_pos h]
  · rw [if_pos h, if_neg h]

/-! ## Scaling -/

/-- a clock with a tick of a whole number of nanoseconds; on Linux it ticks 100 times a second -/
structure Clock where
  ticksPerSec : ℕ+
  nsPerTick : ℕ
  whole : ticksPerSec * nsPerTick = 10 ^ 9

namespace Clock

variable (clock : Clock)

theorem nsPerTick_pos : 0 < clock.nsPerTick := by
  rw [Nat.pos_iff_ne_zero]
  intro hzero
  have hwhole := clock.whole
  rw [hzero, mul_zero] at hwhole
  exact absurd hwhole (by norm_num)

/-- the length of a tick is computed without an error -/
theorem roundDouble_tick :
    roundDouble (10 ^ 9 / roundDouble (clock.ticksPerSec : ℕ)) = (clock.nsPerTick : ℤ) := by
  have hwhole : (clock.ticksPerSec : ℕ) * clock.nsPerTick = 10 ^ 9 := clock.whole
  have hticks : IsDouble (((clock.ticksPerSec : ℕ) : ℤ) : ℚ) := by
    apply isDouble_of_lt
    have hle := Nat.le_mul_of_pos_right (clock.ticksPerSec : ℕ) clock.nsPerTick_pos
    rw [Nat.abs_cast]
    omega
  have hns : IsDouble ((clock.nsPerTick : ℤ) : ℚ) := by
    apply isDouble_of_lt
    have hle := Nat.le_mul_of_pos_left clock.nsPerTick clock.ticksPerSec.pos
    rw [Nat.abs_cast]
    omega
  have hdiv : (10 ^ 9 : ℚ) / (clock.ticksPerSec : ℕ) = (clock.nsPerTick : ℤ) := by
    rw [div_eq_iff (Nat.cast_ne_zero.2 clock.ticksPerSec.pos.ne')]
    calc (10 ^ 9 : ℚ) = ((clock.ticksPerSec : ℕ) * clock.nsPerTick : ℕ) := by rw [hwhole]; norm_num
      _ = ((clock.nsPerTick : ℤ) : ℚ) * (clock.ticksPerSec : ℕ) := by push_cast; ring
  rw [show ((clock.ticksPerSec : ℕ) : ℚ) = (((clock.ticksPerSec : ℕ) : ℤ) : ℚ) by push_cast; rfl] at hdiv ⊢
  rw [roundDouble_of_isDouble hticks, hdiv, roundDouble_of_isDouble hns]

/-- `ticks` in nanoseconds is an `int64` and needs no more than the 53 bits of a double -/
def Scales (ticks : ℤ) : Prop :=
  InInt64 (ticks * clock.nsPerTick) ∧ IsDouble ((ticks * clock.nsPerTick : ℤ) : ℚ)

end Clock

theorem toInt64_intCast (v : ℤ) : toInt64 v = if InInt64 v then v else -2 ^ 63 := by
  simp [toInt64]

/-- **The conversion is exact** for the numbers that `Scales` names, and for no others. -/
theorem ticksToNs_exact (clock : Clock) (ticks : ℤ) :
    ticksToNs clock.ticksPerSec ticks = ticks * clock.nsPerTick ↔ clock.Scales ticks := by
  obtain ⟨r, hr⟩ := roundDouble_intCast ticks
  obtain ⟨v, hv⟩ := roundDouble_intCast (r * clock.nsPerTick)
  have hcompute : ticksToNs clock.ticksPerSec ticks = if InInt64 v then v else -2 ^ 63 := by
    rw [ticksToNs, clock.roundDouble_tick, hr, ← toInt64_intCast, ← hv]
    push_cast
    rfl
  have hexact : IsDouble ((ticks * clock.nsPerTick : ℤ) : ℚ) → v = ticks * clock.nsPerTick := by
    intro hdouble
    have hticks : r = ticks := by
      rw [roundDouble_of_isDouble (hdouble.of_mul (Int.natCast_ne_zero.2 clock.nsPerTick_pos.ne'))] at hr
      exact_mod_cast hr.symm
    rw [hticks, roundDouble_of_isDouble hdouble] at hv
    exact_mod_cast hv.symm
  rw [hcompute]
  constructor
  · intro h
    split_ifs at h with hrange
    · refine ⟨h ▸ hrange, ?_⟩
      rw [← h, ← hv]
      exact isDouble_roundDouble _
    · -- `INT64_MIN` is a double, so that it is no replacement for the product
      have hdouble : IsDouble ((ticks * clock.nsPerTick : ℤ) : ℚ) := ⟨-1, 63, by norm_num, by rw [← h]; norm_num⟩
      refine absurd ?_ hrange
      rw [hexact hdouble, ← h]
      decide
  · rintro ⟨hrange, hdouble⟩
    rw [hexact hdouble, if_pos hrange]

/-! ## What a call does -/

section Calls

variable {buf : List UInt8} {splits : List (List UInt8)} {openParen closeParen : ℕ} {ticksPerSec : ℕ+}
  {extractedName : List UInt8} {name : Option (List UInt8)} {stats : ThreadStats}

theorem find_append {c : UInt8} (h : c ∉ a) : find (a ++ c :: b) c = some a.length := by
  have hnone : a.findIdx? (· == c) = none := by
    rw [List.findIdx?_eq_none_iff]
    intro x hx
    exact beq_false_of_ne fun heq => h (heq ▸ hx)
  simp [find, List.findIdx?_append, hnone, List.findIdx?_cons]

theorem find_lt {c : UInt8} {i : ℕ} (h : find buf c = some i) : i < buf.length := by
  obtain ⟨hlt, -⟩ := List.findIdx?_eq_some_iff_getElem.1 h
  exact hlt

/-- the text passes the first check -/
def Recognised (buf : List UInt8) (openParen closeParen : ℕ) : Prop :=
  find buf 40 = some openParen ∧ find buf 41 = some closeParen ∧ openParen < closeParen ∧ closeParen + 2 ≠ buf.length

/-- the bytes between the parentheses -/
def nameOf (buf : List UInt8) (openParen closeParen : ℕ) : List UInt8 :=
  (buf.drop (openParen + 1)).take (closeParen - (openParen + 1))

/-- the fields behind the name -/
def fieldsOf (buf : List UInt8) (closeParen : ℕ) : List (List UInt8) :=
  (pieces (buf.drop (closeParen + 2))).filter (!·.isEmpty)

theorem parseStat_unrecognised (h : ∀ openParen closeParen, ¬Recognised buf openParen closeParen) :
    parseStat ticksPerSec buf name stats = .ok (.bad unrecognised, name, stats) := by
  unfold parseStat
  split
  · next openParen closeParen hopen hclose =>
    by_cases hcheck : openParen ≥ closeParen ∨ closeParen + 2 = buf.length
    · rw [if_pos hcheck]
    · push Not at hcheck
      exact absurd ⟨hopen, hclose, hcheck⟩ (h openParen closeParen)
  · rfl

theorem parseStat_recognised (h : Recognised buf openParen closeParen) :
    parseStat ticksPerSec buf name stats =
      if closeParen + 1 = buf.length then .error .substr
      else if 2 ^ 31 ≤ buf.length - (closeParen + 2) then .error .stringPiece
      else readFields ticksPerSec (nameOf buf openParen closeParen) (fieldsOf buf closeParen) name stats := by
  obtain ⟨hopen, hclose, hlt, hne⟩ := h
  have hopenLt := find_lt hopen
  have hcloseLt := find_lt hclose
  have hname : substr buf (openParen + 1) (closeParen - (openParen + 1)) = .ok (nameOf buf openParen closeParen) :=
    if_pos hopenLt
  unfold parseStat
  rw [hopen, hclose]
  simp only [ge_iff_le, not_le.2 hlt, hne, or_self, if_false, hname]
  by_cases hend : closeParen + 1 = buf.length
  · have hrest : substr buf (closeParen + 2) buf.length = .error .substr := if_neg (by omega)
    rw [if_pos hend, hrest]
    rfl
  · have hrest : substr buf (closeParen + 2) buf.length = .ok (buf.drop (closeParen + 2)) := by
      rw [substr, if_pos (by omega), List.take_of_length_le]
      exact List.length_drop.le.trans (Nat.sub_le _ _)
    have hlength : (buf.drop (closeParen + 2)).length = buf.length - (closeParen + 2) := List.length_drop
    rw [if_neg hend, hrest]
    by_cases hlong : 2 ^ 31 ≤ buf.length - (closeParen + 2)
    · have hsplit : split (buf.drop (closeParen + 2)) = .error .stringPiece := if_neg (by omega)
      rw [if_pos hlong]
      show (split (buf.drop (closeParen + 2)) >>= _) = _
      rw [hsplit]
      rfl
    · have hsplit : split (buf.drop (closeParen + 2)) = .ok (fieldsOf buf closeParen) := if_pos (by omega)
      rw [if_neg hlong]
      show (split (buf.drop (closeParen + 2)) >>= _) = _
      rw [hsplit]
      rfl

/-- what a counter is set to -/
def reading (ticksPerSec : ℕ+) (splits : List (List UInt8)) (offset : ℕ) (ns : ℤ) : ℤ :=
  match splits[offset]?.bind safeStrto64 with
  | some tmp => ticksToNs ticksPerSec tmp
  | none => ns

def readings (ticksPerSec : ℕ+) (splits : List (List UInt8)) (stats : ThreadStats) : ThreadStats :=
  ⟨reading ticksPerSec splits kUserTicks stats.userNs, reading ticksPerSec splits kKernelTicks stats.kernelNs,
    reading ticksPerSec splits kIoWait stats.iowaitNs⟩

theorem counter_eq {offset : ℕ} (h : offset < splits.length) (ns : ℤ) :
    counter ticksPerSec splits offset ns = .ok (reading ticksPerSec splits offset ns) := by
  unfold counter reading
  rw [List.getElem?_eq_getElem h, Option.bind_some]
  cases hfield : safeStrto64 splits[offset] <;> simp only [hfield]

theorem readFields_few (h : splits.length < 39) :
    readFields ticksPerSec extractedName splits name stats = .ok (.bad unrecognised, name, stats) := by
  unfold readFields
  rw [if_pos (show splits.length < kMaxOffset from h)]
  rfl

/-- the check passes, but the last field is not there -/
theorem readFields_edge (h : splits.length = 39) :
    readFields ticksPerSec extractedName splits name stats = .error .index := by
  unfold readFields
  have hlast : splits[kIoWait]? = none := List.getElem?_eq_none (by rw [h]; decide)
  rw [if_neg (show ¬splits.length < kMaxOffset by rw [h]; decide), counter_eq (by rw [h]; decide),
    counter_eq (by rw [h]; decide), counter, hlast]
  rfl

theorem readFields_full (h : 40 ≤ splits.length) :
    readFields ticksPerSec extractedName splits name stats =
      .ok (.ok, name.map fun _ => extractedName, readings ticksPerSec splits stats) := by
  have hlt : ∀ offset ≤ 39, offset < splits.length := fun offset hle => by omega
  unfold readFields
  rw [if_neg (show ¬splits.length < kMaxOffset from not_lt.2 ((by decide : kMaxOffset ≤ 40).trans h)),
    counter_eq (hlt _ (by decide)), counter_eq (hlt _ (by decide)), counter_eq (hlt _ (by decide))]
  rfl

/-- what a call does for a short text with enough fields -/
theorem parseStat_full (hrec : Recognised buf openParen closeParen) (hend : closeParen + 1 ≠ buf.length)
    (hlong : buf.length - (closeParen + 2) < 2 ^ 31) (hmany : 40 ≤ (fieldsOf buf closeParen).length) :
    parseStat ticksPerSec buf name stats = .ok (.ok, name.map fun _ => nameOf buf openParen closeParen,
      readings ticksPerSec (fieldsOf buf closeParen) stats) := by
  rw [parseStat_recognised hrec, if_neg hend, if_neg (not_le.2 hlong), readFields_full hmany]

/-- a name that is reported is what stands between the parentheses -/
theorem name_of_ok {oldName newName : List UInt8} {newStats : ThreadStats} (h : Recognised buf openParen closeParen)
    (hok : parseStat ticksPerSec buf (some oldName) stats = .ok (.ok, some newName, newStats)) :
    newName = nameOf buf openParen closeParen := by
  rw [parseStat_recognised h] at hok
  split_ifs at hok
  rcases lt_trichotomy (fieldsOf buf closeParen).length 39 with hfew | hedge | hmany
  · rw [readFields_few hfew] at hok
    cases hok
  · rw [readFields_edge hedge] at hok
    cases hok
  · rw [readFields_full hmany] at hok
    exact (Option.some.inj (Prod.mk.inj (Prod.mk.inj (Except.ok.inj hok)).2).1).symm

/-! ## Safety -/

/-- an error, and the outputs are left alone -/
def Refused (ticksPerSec : ℕ+) (buf : List UInt8) : Prop :=
  ∃ e, ∀ name stats, parseStat ticksPerSec buf name stats = .ok (.bad e, name, stats)

/-- OK, and every output is set from the text alone -/
def Filled (ticksPerSec : ℕ+) (buf : List UInt8) : Prop :=
  ∃ extractedName newStats, ∀ name stats,
    parseStat ticksPerSec buf name stats = .ok (.ok, name.map fun _ => extractedName, newStats)

/-- neither an index nor a start is out of bounds, nor does an assertion fail -/
def Bounded (ticksPerSec : ℕ+) (buf : List UInt8) : Prop :=
  ∀ name stats fault, parseStat ticksPerSec buf name stats ≠ .error fault

/-- something stands behind the name, it is shorter than 2^31 bytes, and it has not just the 39 fields that the check asks
for -/
def Enough (buf : List UInt8) : Prop :=
  ∀ openParen closeParen, Recognised buf openParen closeParen →
    closeParen + 1 ≠ buf.length ∧ buf.length - (closeParen + 2) < 2 ^ 31 ∧ (fieldsOf buf closeParen).length ≠ 39

def NumberAt (splits : List (List UInt8)) (offset : ℕ) : Prop := (splits[offset]?.bind safeStrto64).isSome

/-- the three fields that are read are numbers -/
def Numeric (buf : List UInt8) : Prop :=
  ∀ openParen closeParen, Recognised buf openParen closeParen → 40 ≤ (fieldsOf buf closeParen).length →
    NumberAt (fieldsOf buf closeParen) kUserTicks ∧ NumberAt (fieldsOf buf closeParen) kKernelTicks ∧
      NumberAt (fieldsOf buf closeParen) kIoWait

/-- a counter that does not keep any part of its value -/
theorem numberAt_iff (ticksPerSec : ℕ+) {offset : ℕ} :
    NumberAt splits offset ↔ ∃ v, ∀ ns, reading ticksPerSec splits offset ns = v := by
  unfold NumberAt reading
  generalize splits[offset]?.bind safeStrto64 = number
  cases number with
  | some tmp => exact iff_of_true rfl ⟨_, fun _ => rfl⟩
  | none =>
    refine iff_of_false (by simp) fun h => ?_
    obtain ⟨v, hv⟩ := h
    exact absurd ((hv 0).trans (hv 1).symm) zero_ne_one

theorem bounded_iff (ticksPerSec : ℕ+) (buf : List UInt8) : Bounded ticksPerSec buf ↔ Enough buf := by
  constructor
  · intro h openParen closeParen hrec
    have hfault := h none ⟨0, 0, 0⟩
    simp only [parseStat_recognised hrec] at hfault
    split_ifs at hfault with hend hlong
    · exact absurd rfl (hfault .substr)
    · exact absurd rfl (hfault .stringPiece)
    · refine ⟨hend, not_le.1 hlong, fun hedge => ?_⟩
      exact hfault .index (readFields_edge hedge)
  · intro h name stats fault
    by_cases hrec : ∃ openParen closeParen, Recognised buf openParen closeParen
    · obtain ⟨openParen, closeParen, hrec⟩ := hrec
      obtain ⟨hend, hlong, hedge⟩ := h _ _ hrec
      rw [parseStat_recognised hrec, if_neg hend, if_neg (not_le.2 hlong)]
      rcases lt_or_ge (fieldsOf buf closeParen).length 39 with hfew | hmany
      · rw [readFields_few hfew]
        exact fun heq => by cases heq
      · rw [readFields_full (by omega)]
        exact fun heq => by cases heq
    · push Not at hrec
      rw [parseStat_unrecognised hrec]
      exact fun heq => by cases heq

theorem refused_or_filled (henough : Enough buf) :
    Refused ticksPerSec buf ∨ Filled ticksPerSec buf ↔ Numeric buf := by
  constructor
  · intro h openParen closeParen hrec hmany
    obtain ⟨hend, hlong, -⟩ := henough _ _ hrec
    have hcall : ∀ name stats, parseStat ticksPerSec buf name stats = _ := fun _ _ =>
      parseStat_full hrec hend hlong hmany
    rcases h with ⟨e, he⟩ | ⟨extractedName, newStats, hfilled⟩
    · have hstatus := (hcall none ⟨0, 0, 0⟩).symm.trans (he none ⟨0, 0, 0⟩)
      cases hstatus
    · have hstats : ∀ stats : ThreadStats, _ = newStats := fun stats =>
        (Prod.mk.inj (Prod.mk.inj (Except.ok.inj ((hcall none stats).symm.trans (hfilled none stats)))).2).2
      refine ⟨(numberAt_iff ticksPerSec).2 ⟨newStats.userNs, fun ns => ?_⟩,
        (numberAt_iff ticksPerSec).2 ⟨newStats.kernelNs, fun ns => ?_⟩,
        (numberAt_iff ticksPerSec).2 ⟨newStats.iowaitNs, fun ns => ?_⟩⟩
      · exact congrArg ThreadStats.userNs (hstats ⟨ns, ns, ns⟩)
      · exact congrArg ThreadStats.kernelNs (hstats ⟨ns, ns, ns⟩)
      · exact congrArg ThreadStats.iowaitNs (hstats ⟨ns, ns, ns⟩)
  · intro hnumeric
    by_cases hrec : ∃ openParen closeParen, Recognised buf openParen closeParen
    · obtain ⟨openParen, closeParen, hrec⟩ := hrec
      obtain ⟨hend, hlong, hedge⟩ := henough _ _ hrec
      rcases lt_or_ge (fieldsOf buf closeParen).length 39 with hfew | hmany
      · refine Or.inl ⟨unrecognised, fun name stats => ?_⟩
        rw [parseStat_recognised hrec, if_neg hend, if_neg (not_le.2 hlong), readFields_few hfew]
      · have hmany : 40 ≤ (fieldsOf buf closeParen).length := by omega
        obtain ⟨huser, hkernel, hiowait⟩ := hnumeric _ _ hrec hmany
        obtain ⟨user, huser⟩ := (numberAt_iff ticksPerSec).1 huser
        obtain ⟨kernel, hkernel⟩ := (numberAt_iff ticksPerSec).1 hkernel
        obtain ⟨iowait, hiowait⟩ := (numberAt_iff ticksPerSec).1 hiowait
        refine Or.inr ⟨nameOf buf openParen closeParen, ⟨user, kernel, iowait⟩, fun name stats => ?_⟩
        rw [parseStat_full hrec hend hlong hmany, readings, huser, hkernel, hiowait]
    · push Not at hrec
      exact Or.inl ⟨_, fun name stats => parseStat_unrecognised hrec⟩

/-- **Safety.** A call stays in bounds exactly for the texts with `Enough` behind the name; it also reports an error or
fills its outputs exactly if the fields that it reads are numbers, too. -/
theorem safe_exact (ticksPerSec : ℕ+) (buf : List UInt8) :
    (Bounded ticksPerSec buf ↔ Enough buf) ∧
      (Bounded ticksPerSec buf ∧ (Refused ticksPerSec buf ∨ Filled ticksPerSec buf) ↔ Enough buf ∧ Numeric buf) := by
  have hbounded := bounded_iff ticksPerSec buf
  refine ⟨hbounded, ?_⟩
  rw [hbounded]
  exact and_congr_right fun henough => refused_or_filled henough

/-- `n` fields behind the name -/
def fieldsText (n : ℕ) : List UInt8 := [49, 32, 40, 97, 41, 32, 83] ++ (List.replicate (n - 1) [48]).flatMap (32 :: ·)

/-- **Reads out of bounds.** For `1 (a)` a start is past the end; with just 39 fields the vector is read past its end. -/
theorem safe_broken :
    parseStat 100 [49, 32, 40, 97, 41] none ⟨0, 0, 0⟩ = .error .substr ∧
      parseStat 100 (fieldsText 39) none ⟨0, 0, 0⟩ = .error .index := by
  refine ⟨rfl, ?_⟩
  have hrec : Recognised (fieldsText 39) 2 4 := by
    unfold Recognised
    decide +kernel
  have hfields : (fieldsOf (fieldsText 39) 4).length = 39 := by
    have hpieces := pieces_fields [83] (List.replicate 38 [48]) [] (by decide)
    have hlast : pieces (([83] :: List.replicate 38 [48]).getLast (List.cons_ne_nil _ _) ++ []) = [[48]] :=
      pieces_single (by decide)
    rw [hlast, List.append_nil] at hpieces
    have htext : (fieldsText 39).drop (4 + 2) = [83] ++ (List.replicate 38 [48]).flatMap (32 :: ·) := rfl
    rw [fieldsOf, htext, hpieces]
    rfl
  rw [parseStat_recognised hrec, if_neg (by decide +kernel), if_neg (by decide +kernel), readFields_edge hfields]

end Calls

/-! ## The line of the kernel -/

inductive TaskState where
  | running
  | sleeping
  | diskSleep
  | stopped
  | tracingStop
  | dead
  | zombie
  | parked
  | idle
deriving DecidableEq, Repr

def TaskState.letter : TaskState → UInt8
  | .running => 82
  | .sleeping => 83
  | .diskSleep => 68
  | .stopped => 84
  | .tracingStop => 116
  | .dead => 88
  | .zombie => 90
  | .parked => 80
  | .idle => 73

/-- the fields from the state on; `ending` is what follows field 52 -/
def afterName (state : TaskState) (fields : Fin 49 → ℤ) (ending : List UInt8) : List UInt8 :=
  [state.letter] ++ (((List.ofFn fields).map decimalInt).flatMap (32 :: ·) ++ ending)

/-- `tid (name) S f4 f5 ... f52`; field `n` is `fields (n - 4)` -/
def line (tid : ℕ) (name : List UInt8) (state : TaskState) (fields : Fin 49 → ℤ) (ending : List UInt8) : List UInt8 :=
  decimal tid ++ 32 :: 40 :: (name ++ 41 :: 32 :: afterName state fields ending)

/-- the line is read back: the name, and fields 14, 15 and 42 in nanoseconds -/
def Inverted (clock : Clock) (tid : ℕ) (name : List UInt8) (state : TaskState) (fields : Fin 49 → ℤ)
    (ending : List UInt8) : Prop :=
  ∀ oldName stats, parseStat clock.ticksPerSec (line tid name state fields ending) (some oldName) stats =
    .ok (.ok, some name,
      ⟨fields 10 * clock.nsPerTick, fields 11 * clock.nsPerTick, fields 38 * clock.nsPerTick⟩)

variable {clock : Clock} {tid : ℕ} {name : List UInt8} {state : TaskState} {fields : Fin 49 → ℤ} {ending : List UInt8}

theorem letter_ne (state : TaskState) : state.letter ≠ 32 := by
  cases state <;> decide

theorem not_mem_decimal {c : UInt8} (h : isDigit c = false) : c ∉ decimal tid := by
  intro hmem
  have hdigit := isDigit_of_mem_decimal hmem
  rw [h] at hdigit
  cases hdigit

/-- the fields that are split off, all but the last one as they were printed -/
theorem pieces_afterName (state : TaskState) (fields : Fin 49 → ℤ) (ending : List UInt8) :
    ∃ more, (pieces (afterName state fields ending)).filter (!·.isEmpty) =
      ([state.letter] :: (List.ofFn fields).map decimalInt).dropLast ++ more := by
  have hplain : ∀ s ∈ [state.letter] :: (List.ofFn fields).map decimalInt, 32 ∉ s ∧ s ≠ [] := by
    intro s hs
    rcases List.mem_cons.1 hs with rfl | hs
    · rw [List.mem_singleton]
      exact ⟨(letter_ne state).symm, List.cons_ne_nil _ _⟩
    · obtain ⟨i, -, rfl⟩ := List.mem_map.1 hs
      refine ⟨fun hmem => ?_, decimalInt_ne_nil i⟩
      exact absurd (decimalInt_plain hmem).2 (by decide)
  rw [afterName, pieces_fields _ _ _ fun s hs => (hplain s hs).1, List.filter_append]
  refine ⟨_, congrArg (· ++ _) (List.filter_eq_self.2 fun s hs => ?_)⟩
  simpa using (hplain s (List.mem_of_mem_dropLast hs)).2

/-- the line up to the name, and what follows the first `)` -/
theorem line_eq (tid : ℕ) (name : List UInt8) (state : TaskState) (fields : Fin 49 → ℤ) (ending : List UInt8) :
    line tid name state fields ending =
      (decimal tid ++ [32, 40] ++ name) ++ 41 :: 32 :: afterName state fields ending := by
  simp [line]

theorem find_open : find (line tid name state fields ending) 40 = some ((decimal tid).length + 1) := by
  have hopen : (40 : UInt8) ∉ decimal tid ++ [32] := by
    rw [List.mem_append]
    exact not_or.2 ⟨not_mem_decimal rfl, by decide⟩
  have hfind := find_append (b := name ++ 41 :: 32 :: afterName state fields ending) hopen
  rw [List.append_assoc, List.length_append] at hfind
  exact hfind

/-- the first `)`, with the part of the name before it -/
theorem recognised_line {before behind : List UInt8} (hbefore : 41 ∉ before)
    (hline : line tid name state fields ending = (decimal tid ++ [32, 40] ++ before) ++ 41 :: behind)
    (hbehind : 2 ≤ behind.length) :
    Recognised (line tid name state fields ending) ((decimal tid).length + 1) ((decimal tid).length + 2 + before.length) ∧
      nameOf (line tid name state fields ending) ((decimal tid).length + 1) ((decimal tid).length + 2 + before.length) =
        before := by
  have hclose : (41 : UInt8) ∉ decimal tid ++ [32, 40] ++ before := by
    rw [List.mem_append, List.mem_append]
    exact not_or.2 ⟨not_or.2 ⟨not_mem_decimal rfl, by decide⟩, hbefore⟩
  have hlength : (decimal tid ++ [32, 40] ++ before).length = (decimal tid).length + 2 + before.length := by
    rw [List.length_append, List.length_append]
    rfl
  have hfind := find_append (b := behind) hclose
  rw [← hline, hlength] at hfind
  refine ⟨⟨find_open, hfind, by omega, ?_⟩, ?_⟩
  · rw [hline, List.length_append, hlength, List.length_cons]
    omega
  · have hdrop : (line tid name state fields ending).drop ((decimal tid).length + 2) = before ++ 41 :: behind := by
      rw [hline, List.append_assoc]
      exact List.drop_left' (by rw [List.length_append]; rfl)
    rw [nameOf, hdrop]
    exact List.take_left' (by omega)

/-- the fields that are read are the printed ones -/
theorem fieldsOf_getElem (h : (pieces (afterName state fields ending)).filter (!·.isEmpty) = splits) (i : Fin 49)
    (hi : (i : ℕ) < 48) : splits[(i : ℕ) + 1]? = some (decimalInt (fields i)) := by
  obtain ⟨more, hmore⟩ := pieces_afterName state fields ending
  rw [← h, hmore, List.getElem?_append_left (by simp; omega), List.getElem?_dropLast, if_pos (by simp; omega),
    List.getElem?_cons_succ, List.getElem?_map, List.getElem?_ofFn, dif_pos i.isLt]
  rfl

theorem Clock.Scales.inInt64 {ticks : ℤ} (h : clock.Scales ticks) : InInt64 ticks := by
  obtain ⟨⟨hlow, hhigh⟩, -⟩ := h
  have hone : (1 : ℤ) ≤ clock.nsPerTick := by exact_mod_cast clock.nsPerTick_pos
  rcases le_or_gt 0 ticks with hsign | hsign
  · exact ⟨by omega, (le_mul_of_one_le_right hsign hone).trans_lt hhigh⟩
  · refine ⟨hlow.trans ?_, by omega⟩
    calc ticks * clock.nsPerTick ≤ ticks * 1 := mul_le_mul_of_nonpos_left hone hsign.le
      _ = ticks := mul_one ticks

/-- a field that is out of range leaves its counter alone -/
theorem reading_exact (clock : Clock) {offset : ℕ} {ticks : ℤ} (h : splits[offset]? = some (decimalInt ticks)) :
    (∀ ns, reading clock.ticksPerSec splits offset ns = ticks * clock.nsPerTick) ↔ clock.Scales ticks := by
  have hnumber : splits[offset]?.bind safeStrto64 = if InInt64 ticks then some ticks else none := by
    rw [h, Option.bind_some, safeStrto64_decimalInt]
  by_cases hrange : InInt64 ticks
  · rw [if_pos hrange] at hnumber
    simp only [reading, hnumber]
    rw [← ticksToNs_exact]
    exact ⟨fun hns => hns 0, fun heq _ => heq⟩
  · rw [if_neg hrange] at hnumber
    simp only [reading, hnumber]
    refine iff_of_false (fun hns => ?_) fun hscales => hrange hscales.inInt64
    exact absurd ((hns 0).trans (hns 1).symm) zero_ne_one

/-- the line of a thread with a name without `)` -/
theorem parseStat_line (hname : 41 ∉ name) (ticksPerSec : ℕ+) (oldName : Option (List UInt8)) (stats : ThreadStats) :
    parseStat ticksPerSec (line tid name state fields ending) oldName stats =
      if 2 ^ 31 ≤ (afterName state fields ending).length then .error .stringPiece
      else readFields ticksPerSec name ((pieces (afterName state fields ending)).filter (!·.isEmpty)) oldName stats := by
  have hline := line_eq tid name state fields ending
  obtain ⟨hrec, hnameOf⟩ := recognised_line hname hline (by simp [afterName])
  have hstart : (decimal tid ++ [32, 40] ++ name ++ [41, 32]).length = (decimal tid).length + 2 + name.length + 2 := by
    simp
    omega
  have hdrop : (line tid name state fields ending).drop ((decimal tid).length + 2 + name.length + 2) =
      afterName state fields ending := by
    rw [hline, ← hstart]
    have hsplit : decimal tid ++ [32, 40] ++ name ++ 41 :: 32 :: afterName state fields ending =
        (decimal tid ++ [32, 40] ++ name ++ [41, 32]) ++ afterName state fields ending := by simp
    rw [hsplit]
    exact List.drop_left
  have hlength := congrArg List.length hdrop
  rw [List.length_drop] at hlength
  have hpos : 0 < (afterName state fields ending).length := by simp [afterName]
  rw [parseStat_recognised hrec, hnameOf, fieldsOf, hdrop, hlength, if_neg (by omega)]

theorem length_fields (state : TaskState) (fields : Fin 49 → ℤ) (ending : List UInt8) :
    40 ≤ ((pieces (afterName state fields ending)).filter (!·.isEmpty)).length := by
  obtain ⟨more, hmore⟩ := pieces_afterName state fields ending
  rw [hmore, List.length_append, List.length_dropLast, List.length_cons, List.length_map, List.length_ofFn]
  omega

/-- **The inverse of the kernel's format.** A line is read back exactly if its name has no `)`, the text behind the name
is shorter than 2^31 bytes, and the three fields are exact in nanoseconds. -/
theorem inverted_exact (clock : Clock) (tid : ℕ) (name : List UInt8) (state : TaskState) (fields : Fin 49 → ℤ)
    (ending : List UInt8) :
    Inverted clock tid name state fields ending ↔
      41 ∉ name ∧ (afterName state fields ending).length < 2 ^ 31 ∧
        clock.Scales (fields 10) ∧ clock.Scales (fields 11) ∧ clock.Scales (fields 38) := by
  by_cases hname : 41 ∈ name
  · -- the name that is reported ends before its first `)`
    refine iff_of_false (fun h => ?_) fun h => h.1 hname
    obtain ⟨before, behind, rfl, hbefore⟩ := List.eq_append_cons_of_mem hname
    have hline : line tid (before ++ 41 :: behind) state fields ending =
        (decimal tid ++ [32, 40] ++ before) ++ 41 :: (behind ++ 41 :: 32 :: afterName state fields ending) := by
      simp [line]
    obtain ⟨hrec, hnameOf⟩ := recognised_line hbefore hline (by simp; omega)
    have hreported := name_of_ok hrec (h [] ⟨0, 0, 0⟩)
    rw [hnameOf] at hreported
    exact absurd (congrArg List.length hreported) (by simp)
  · set splits := (pieces (afterName state fields ending)).filter (!·.isEmpty) with hsplits
    have huser := reading_exact clock (fieldsOf_getElem hsplits.symm 10 (by decide))
    have hkernel := reading_exact clock (fieldsOf_getElem hsplits.symm 11 (by decide))
    have hiowait := reading_exact clock (fieldsOf_getElem hsplits.symm 38 (by decide))
    have hmany : 40 ≤ splits.length := length_fields state fields ending
    rw [← huser, ← hkernel, ← hiowait]
    constructor
    · intro h
      have hshort : (afterName state fields ending).length < 2 ^ 31 := by
        by_contra hlong
        have hcall := h [] ⟨0, 0, 0⟩
        rw [parseStat_line hname, if_pos (not_lt.1 hlong)] at hcall
        cases hcall
      have hstats : ∀ stats, readings clock.ticksPerSec splits stats =
          ⟨fields 10 * clock.nsPerTick, fields 11 * clock.nsPerTick, fields 38 * clock.nsPerTick⟩ := by
        intro stats
        have hcall := h [] stats
        rw [parseStat_line hname, if_neg (not_le.2 hshort), readFields_full hmany] at hcall
        exact (Prod.mk.inj (Prod.mk.inj (Except.ok.inj hcall)).2).2
      refine ⟨hname, hshort, fun ns => ?_, fun ns => ?_, fun ns => ?_⟩
      · exact congrArg ThreadStats.userNs (hstats ⟨ns, ns, ns⟩)
      · exact congrArg ThreadStats.kernelNs (hstats ⟨ns, ns, ns⟩)
      · exact congrArg ThreadStats.iowaitNs (hstats ⟨ns, ns, ns⟩)
    · rintro ⟨-, hshort, huserNs, hkernelNs, hiowaitNs⟩ oldName stats
      rw [parseStat_line hname, if_neg (not_le.2 hshort), readFields_full hmany]
      have hstats : readings clock.ticksPerSec splits stats =
          ⟨fields 10 * clock.nsPerTick, fields 11 * clock.nsPerTick, fields 38 * clock.nsPerTick⟩ := by
        rw [← huserNs stats.userNs, ← hkernelNs stats.kernelNs, ← hiowaitNs stats.iowaitNs]
        rfl
      rw [hstats, Option.map_some]

theorem length_decimalInt {i : ℤ} (h : i.natAbs < 2 ^ 64) : (decimalInt i).length ≤ 21 := by
  have hdigits : (decimal i.natAbs).length ≤ 20 := by
    unfold decimal
    split_ifs
    · simp
    · rw [List.length_map, List.length_reverse]
      exact (Nat.digits_length_le_iff (by norm_num) _).2 (h.trans (by norm_num))
  unfold decimalInt
  split_ifs
  · exact Nat.succ_le_succ hdigits
  · exact hdigits.trans (by norm_num)

/-- fields of 64 bits make a short text -/
theorem afterName_short (h : ∀ i, (fields i).natAbs < 2 ^ 64) :
    (afterName state fields ending).length ≤ 1079 + ending.length := by
  have hsum : (((List.ofFn fields).map decimalInt).flatMap (32 :: ·)).length ≤ 49 * 22 := by
    rw [List.length_flatMap]
    have hle := List.sum_le_card_nsmul (((List.ofFn fields).map decimalInt).map fun s => (32 :: s).length) 22 (by
      intro n hn
      obtain ⟨s, hs, rfl⟩ := List.mem_map.1 hn
      obtain ⟨f, hf, rfl⟩ := List.mem_map.1 hs
      obtain ⟨i, rfl⟩ := (List.mem_ofFn' fields f).1 hf
      exact Nat.succ_le_succ (length_decimalInt (h i)))
    simpa using hle
  rw [afterName, List.length_append, List.length_append, List.length_singleton]
  omega

/-- 100 ticks a second -/
def linux : Clock := ⟨100, 10 ^ 7, rfl⟩

/-- fields 4 to 52 with their own numbers -/
def someFields (i : Fin 49) : ℤ := i + 4

/-- **A parenthesis in a name.** A thread with the name `a)b` is reported as `a`. -/
theorem inverted_broken :
    (∃ newStats, parseStat linux.ticksPerSec (line 7 [97, 41, 98] .sleeping someFields [10]) (some []) ⟨0, 0, 0⟩ =
      .ok (.ok, some [97], newStats)) ∧
      ¬Inverted linux 7 [97, 41, 98] .sleeping someFields [10] := by
  have hline : line 7 [97, 41, 98] .sleeping someFields [10] =
      (decimal 7 ++ [32, 40] ++ [97]) ++ 41 :: ([98] ++ 41 :: 32 :: afterName .sleeping someFields [10]) := by
    simp [line]
  obtain ⟨hrec, hname⟩ := recognised_line (by decide) hline (by simp)
  have hdecimal : decimal 7 = [55] := by simp [decimal, digit]
  have hrest : (line 7 [97, 41, 98] .sleeping someFields [10]).drop ((decimal 7).length + 2 + [97].length + 2) =
      [41] ++ 32 :: afterName .sleeping someFields [10] := by
    rw [hline, hdecimal]
    rfl
  have hshort : (afterName .sleeping someFields [10]).length ≤ 1079 + 1 :=
    afterName_short fun i => by unfold someFields; omega
  have hmany : 40 ≤ (fieldsOf (line 7 [97, 41, 98] .sleeping someFields [10])
      ((decimal 7).length + 2 + [97].length)).length := by
    rw [fieldsOf, hrest, pieces_blank (by decide)]
    exact (length_fields .sleeping someFields [10]).trans (Nat.le_succ _)
  have hlength : (line 7 [97, 41, 98] .sleeping someFields [10]).length - ((decimal 7).length + 2 + [97].length + 2) =
      (afterName .sleeping someFields [10]).length + 2 := by
    rw [← List.length_drop, hrest]
    rfl
  have hok : ∃ newStats, parseStat linux.ticksPerSec (line 7 [97, 41, 98] .sleeping someFields [10]) (some [])
      ⟨0, 0, 0⟩ = .ok (.ok, some [97], newStats) := by
    rw [← hname]
    generalize line 7 [97, 41, 98] .sleeping someFields [10] = buf at hrec hmany hlength ⊢
    exact ⟨_, parseStat_full hrec (by omega) (by omega) hmany⟩
  refine ⟨hok, fun h => ?_⟩
  obtain ⟨newStats, hok⟩ := hok
  have hsame := hok.symm.trans (h [] ⟨0, 0, 0⟩)
  cases hsame

end Bboy.OsUtil
