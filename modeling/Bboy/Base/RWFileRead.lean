/-
Lean model of `PosixRWFile::Read` (`bboy/base/env_posix.cc`): the loop of pread calls with its `int rem`.

The environment decides for each pread whether it is interrupted, fails, or how much it reads at most; what it reads is in
the file. The length asked for is that of `scratch`. `dchecks` says whether the `DCHECK`s are compiled in; one that fails
ends the process, as an EIO can (`IOError`).

- `Served`: the preads deliver a number of bytes that the file has, before one of them fails.
- `loop_spec`: where the cursors are in the loop; it ends well exactly when the preads serve `rem`.
- `read_exact`: the promise of `RWFile::Read` holds exactly when what `rem` does not count of the length is no loss: a length
  below 2^31 does, as does a call that returns no OK, or a `scratch` that already holds the rest.
- `read_skips`: a length of 2^32 is read as 0.
-/
import Bboy.Base.EnvPosix
import Bboy.Core.Bytes
import Bboy.Core.MachineInt

namespace Bboy.EnvPosix.Read

open Core

/-! ## Model -/

/-- how a pread ends; `upTo short` reads at most `short + 1` bytes, and none only at the end of the file -/
inductive Outcome where
  | interrupted
  | failed (err : Errno)
  | upTo (short : ℕ)
  deriving DecidableEq, Repr

def EINVAL : Errno := .other 22

/-- a pread that is not interrupted; an offset from 2^63 on is negative as an `off_t` -/
def pread (file : File) (count offset : ℕ) : Outcome → Option (Except Errno (List UInt8))
  | .interrupted => none
  | .failed err => some (.error err)
  | .upTo short =>
    if 2 ^ 63 ≤ offset then some (.error EINVAL) else some (.ok ((file.content.drop offset).take (min count (short + 1))))

/-- the variables of the loop: `dst` is how far the pointer is into `scratch`; `failed` notes that a pread has failed -/
structure Vars where
  rem : ℤ
  dst : ℕ
  offset : ℕ
  scratch : List UInt8
  failed : Bool
  deriving DecidableEq, Repr

/-- the parameters of a call -/
structure Call where
  flags : Flags
  filename : String
  file : File
  offset : ℕ
  scratch : List UInt8

def Call.length (call : Call) : ℕ := call.scratch.length

/-- after a pread that delivered `bytes` -/
def advance (v : Vars) (bytes : List UInt8) : Vars :=
  { v with
    rem := int32 (v.rem - bytes.length)
    dst := v.dst + bytes.length
    offset := v.offset + bytes.length
    scratch := splice v.scratch v.dst bytes }

def eof (call : Call) (offset : ℕ) : BadStatus :=
  .ioError ("EOF trying to read " ++ toString call.length ++ " bytes at offset " ++ toString offset) "" (-1)

/-- a failed pread -/
def fails (call : Call) (err : Errno) (v : Vars) : Option (Status × Vars) :=
  failWith call.flags call.filename err { v with failed := true }

/-- `none` while the answers do not suffice, or when the process is killed -/
def readLoop (call : Call) : List Outcome → Vars → Option (Status × Vars)
  | [], v => if 0 < v.rem then none else some (.ok, v)
  | outcome :: outcomes, v =>
    if 0 < v.rem then
      match pread call.file v.rem.toNat v.offset outcome with
      | none => readLoop call outcomes v
      | some (.error err) => fails call err v
      | some (.ok []) => some (.bad (eof call v.offset), v)
      | some (.ok bytes) => readLoop call outcomes (advance v bytes)
    else some (.ok, v)

/-- on OK the result is `scratch`, of the length asked for -/
def read (dchecks : Bool) (call : Call) (outcomes : List Outcome) : Option (Status × Vars) :=
  match readLoop call outcomes ⟨int32 call.length, 0, call.offset, call.scratch, false⟩ with
  | some (.ok, v) => if dchecks = true ∧ v.rem ≠ 0 then none else some (.ok, v)
  | r => r

/-! ## The promise and the condition -/

/-- the file's bytes from `offset` on -/
def Call.wanted (call : Call) : List UInt8 := (call.file.content.drop call.offset).take call.length

/-- OK means that the result is what was asked for; a file that ends before and a failed pread exclude OK -/
structure Exact (call : Call) (s : Status) (v : Vars) : Prop where
  result : s = .ok → v.scratch.length = call.length ∧ v.scratch = call.wanted
  ends : (call.file.content.drop call.offset).length < call.length → s ≠ .ok
  errors : v.failed = true → s ≠ .ok

/-- the answers allow for `n` bytes before one of them is a failure -/
def Delivers : List Outcome → ℕ → Prop
  | [], n => n = 0
  | .interrupted :: outcomes, n => Delivers outcomes n
  | .failed _ :: _, n => n = 0
  | .upTo short :: outcomes, n => Delivers outcomes (n - (short + 1))

/-- `n` bytes can be read from `offset` on -/
def Served (file : File) (offset n : ℕ) (outcomes : List Outcome) : Prop :=
  n = 0 ∨ offset + n ≤ file.content.length ∧ Delivers outcomes n

/-- the bytes that `rem` counts at the start -/
def Call.counted (call : Call) : ℕ := (int32 call.length).toNat

/-- what `rem` does not count is no loss -/
def NothingLost (dchecks : Bool) (call : Call) (outcomes : List Outcome) : Prop :=
  call.length < 2 ^ 31 ∨ (dchecks = true ∧ int32 call.length < 0) ∨
    ¬ Served call.file call.offset call.counted outcomes ∨
    call.scratch.drop call.counted =
      (call.file.content.drop (call.offset + call.counted)).take (call.length - call.counted)

/-! ## The loop -/

variable {call : Call} {outcomes : List Outcome} {v w : Vars} {s : Status} {n : ℕ}

theorem delivers_zero (outcomes : List Outcome) : Delivers outcomes 0 := by
  induction outcomes with
  | nil => rfl
  | cons outcome outcomes ih =>
    cases outcome with
    | interrupted => exact ih
    | failed err => rfl
    | upTo short =>
      rw [Delivers, Nat.zero_sub]
      exact ih

/-- where the cursors are when `d` of `n` bytes are read -/
structure At (call : Call) (n d : ℕ) (v : Vars) : Prop where
  rem : v.rem = n - d
  dst : v.dst = d
  offset : v.offset = call.offset + d
  scratch : v.scratch = (call.file.content.drop call.offset).take d ++ call.scratch.drop d
  failed : v.failed = false
  read_le : d ≤ n
  within : d = 0 ∨ call.offset + d ≤ call.file.content.length

theorem advance_at {d : ℕ} (hv : At call n d v) (hn : n < 2 ^ 31) {count : ℕ}
    (hcount : count ≤ n - d) {bytes : List UInt8} (hbytes : bytes = (call.file.content.drop v.offset).take count)
    (hne : bytes ≠ []) : At call n (d + bytes.length) (advance v bytes) := by
  have hlength : bytes.length = min count (call.file.content.length - v.offset) := by
    rw [hbytes, List.length_take, List.length_drop]
  have hpos := List.length_pos_of_ne_nil hne
  have hoffset := hv.offset
  have hle := hv.read_le
  have hrem := hv.rem
  have hd : d ≤ (call.file.content.drop call.offset).length := by
    rw [List.length_drop]
    have hwithin := hv.within
    omega
  constructor
  · dsimp only [advance]
    rw [hrem, int32_of_range (by omega) (by omega)]
    push_cast
    ring
  · dsimp only [advance]
    rw [hv.dst]
  · dsimp only [advance]
    rw [hoffset, add_assoc]
  · have hread : ((call.file.content.drop call.offset).take d).length = d := List.length_take_of_le hd
    have hsame : bytes = ((call.file.content.drop call.offset).drop d).take bytes.length := by
      rw [List.drop_drop, ← hoffset]
      conv_lhs => rw [hbytes]
      rw [hlength, ← List.length_drop, List.take_eq_take_iff.2]
      simp
    calc splice v.scratch v.dst bytes
        = (call.file.content.drop call.offset).take d ++ bytes ++ (call.scratch.drop d).drop bytes.length := by
          rw [hv.scratch, hv.dst, splice_append hread]
      _ = (call.file.content.drop call.offset).take (d + bytes.length) ++ call.scratch.drop (d + bytes.length) := by
          rw [List.drop_drop]
          congr 1
          rw [← take_append_take_drop, ← hsame]
  · exact hv.failed
  · omega
  · right
    omega

/-- a pread that delivers bytes -/
theorem served_read (outcomes : List Outcome) {file : File} {offset short : ℕ} (hn : 0 < n) {bytes : List UInt8}
    (hbytes : bytes = (file.content.drop offset).take (min n (short + 1))) (hne : bytes ≠ []) :
    Served file offset n (.upTo short :: outcomes) ↔ Served file (offset + bytes.length) (n - bytes.length) outcomes := by
  have hlength : bytes.length = min (min n (short + 1)) (file.content.length - offset) := by
    rw [hbytes, List.length_take, List.length_drop]
  have hpos := List.length_pos_of_ne_nil hne
  unfold Served
  rw [Delivers]
  constructor
  · rintro (hzero | ⟨hfits, hdelivers⟩)
    · omega
    · have hsub : n - bytes.length = n - (short + 1) := by omega
      rw [hsub]
      exact Or.inr ⟨by omega, hdelivers⟩
  · rintro (hzero | ⟨hfits, hdelivers⟩)
    · have hsub : n - (short + 1) = 0 := by omega
      rw [hsub]
      exact Or.inr ⟨by omega, delivers_zero outcomes⟩
    · have hsub : n - bytes.length = n - (short + 1) := by omega
      rw [← hsub]
      exact Or.inr ⟨by omega, hdelivers⟩

theorem fails_bad {err : Errno} (h : fails call err v = some (s, w)) : s ≠ .ok := by
  obtain ⟨e, -, heq⟩ := Option.map_eq_some_iff.1 h
  cases heq
  exact Status.noConfusion

/-- a pread at an offset that a file of this size does not reach delivers nothing -/
theorem not_served {file : File} {offset : ℕ} (hn : 0 < n) (hend : file.content.length ≤ offset) :
    ¬ Served file offset n outcomes := by
  rintro (hzero | ⟨hfits, -⟩)
  · omega
  · omega

theorem readLoop_done (h : ¬ 0 < v.rem) (outcomes : List Outcome) : readLoop call outcomes v = some (.ok, v) := by
  cases outcomes with
  | nil => rw [readLoop, if_neg h]
  | cons outcome outcomes => rw [readLoop, if_neg h]

theorem loop_done {d : ℕ} (hv : At call n d v) (hrem : ¬ 0 < v.rem) (outcomes : List Outcome) :
    (∀ w, some (Status.ok, v) = some (.ok, w) → At call n n w) ∧
      ((∃ w, some (Status.ok, v) = some (.ok, w)) ↔ Served call.file (call.offset + d) (n - d) outcomes) := by
  have hread : d = n := by
    have hle := hv.read_le
    have heq := hv.rem
    omega
  subst hread
  constructor
  · rintro w h
    cases h
    exact hv
  · rw [Nat.sub_self]
    exact iff_of_true ⟨v, rfl⟩ (Or.inl rfl)

/-- a loop that ends badly, when the rest cannot be served -/
theorem loop_bad {d : ℕ} {r : Option (Status × Vars)} (hr : ∀ w, r ≠ some (.ok, w))
    (hnot : ¬ Served call.file (call.offset + d) (n - d) outcomes) :
    (∀ w, r = some (.ok, w) → At call n n w) ∧
      ((∃ w, r = some (.ok, w)) ↔ Served call.file (call.offset + d) (n - d) outcomes) :=
  ⟨fun w h => absurd h (hr w), iff_of_false (fun ⟨w, h⟩ => hr w h) hnot⟩

/-- **The loop**: it ends with all `n` bytes read or with an error, and well exactly when the preads serve what is left. -/
theorem loop_spec (outcomes : List Outcome) (hn : n < 2 ^ 31) {d : ℕ} (hv : At call n d v) :
    (∀ w, readLoop call outcomes v = some (.ok, w) → At call n n w) ∧
      ((∃ w, readLoop call outcomes v = some (.ok, w)) ↔ Served call.file (call.offset + d) (n - d) outcomes) := by
  induction outcomes generalizing v d with
  | nil =>
    rw [readLoop]
    by_cases hlt : 0 < v.rem
    · have hrem := hv.rem
      rw [if_pos hlt]
      refine loop_bad (fun w h => absurd h.symm (Option.some_ne_none _)) ?_
      rintro (hzero | ⟨-, hzero⟩)
      · omega
      · rw [Delivers] at hzero
        omega
    · rw [if_neg hlt]
      exact loop_done hv hlt []
  | cons outcome outcomes ih =>
    rw [readLoop]
    by_cases hlt : 0 < v.rem
    · have hrem : v.rem.toNat = n - d := by rw [hv.rem, ← Int.toNat_sub]
      have hleft : 0 < n - d := by omega
      have hfails : ∀ err w, fails call err v ≠ some (.ok, w) := fun err w h => fails_bad h rfl
      rw [if_pos hlt, hrem]
      cases outcome with
      | interrupted => exact ih hv
      | failed err =>
        refine loop_bad (hfails err) ?_
        rintro (hzero | ⟨-, hzero⟩)
        · omega
        · rw [Delivers] at hzero
          omega
      | upTo short =>
        have hsize := call.file.size_lt
        rw [pread]
        by_cases hoffset : 2 ^ 63 ≤ v.offset
        · rw [if_pos hoffset]
          refine loop_bad (hfails EINVAL) (not_served hleft ?_)
          rw [← hv.offset]
          omega
        · rw [if_neg hoffset]
          cases hbytes : (call.file.content.drop v.offset).take (min (n - d) (short + 1)) with
          | nil =>
            refine loop_bad (fun w h => Status.noConfusion (Prod.mk.inj (Option.some.inj h)).1) (not_served hleft ?_)
            rw [← hv.offset]
            obtain hzero | hend := List.take_eq_nil_iff.1 hbytes
            · omega
            · exact List.drop_eq_nil_iff.1 hend
          | cons b bytes =>
            have hne := List.cons_ne_nil b bytes
            have hread := served_read outcomes hleft hbytes.symm hne
            rw [← hv.offset, hread, hv.offset, Nat.sub_sub, add_assoc]
            exact ih (advance_at hv hn (min_le_left _ _) hbytes.symm hne)
    · rw [if_neg hlt]
      exact loop_done hv hlt _

/-! ## Main result -/

/-- at the start nothing is read, if `rem` is not negative -/
theorem at_start (h : 0 ≤ int32 call.length) :
    At call call.counted 0 ⟨int32 call.length, 0, call.offset, call.scratch, false⟩ := by
  constructor
  · rw [Call.counted, Int.toNat_of_nonneg h, Nat.cast_zero, sub_zero]
  · rfl
  · rfl
  · rfl
  · rfl
  · exact Nat.zero_le _
  · exact Or.inl rfl

theorem counted_lt (call : Call) : call.counted < 2 ^ 31 := by
  have hlt := int32_lt call.length
  unfold Call.counted
  omega

theorem counted_le (call : Call) : call.counted ≤ call.length := by
  have hmod := int32_le_self call.length
  unfold Call.counted
  omega

/-- **A call returns OK exactly when** the preads serve what `rem` counts and no `DCHECK` finds it negative; then it has read
that part into `scratch`. -/
theorem read_ok_iff (dchecks : Bool) (call : Call) (outcomes : List Outcome) :
    (∀ v, read dchecks call outcomes = some (.ok, v) →
      v.scratch = (call.file.content.drop call.offset).take call.counted ++ call.scratch.drop call.counted ∧
        v.failed = false) ∧
      ((∃ v, read dchecks call outcomes = some (.ok, v)) ↔
        Served call.file call.offset call.counted outcomes ∧ ¬ (dchecks = true ∧ int32 call.length < 0)) := by
  by_cases hneg : int32 call.length < 0
  · have hcounted : call.counted = 0 := Int.toNat_of_nonpos hneg.le
    have hserved : Served call.file call.offset call.counted outcomes := Or.inl hcounted
    unfold read
    rw [readLoop_done (not_lt.2 hneg.le), hcounted]
    cases dchecks with
    | true => simp [hneg, hneg.ne]
    | false => simp [hcounted ▸ hserved]
  · obtain ⟨hat, hok⟩ := loop_spec outcomes (counted_lt call) (at_start (not_lt.1 hneg))
    rw [add_zero, Nat.sub_zero] at hok
    have hread : ∀ v, read dchecks call outcomes = some (.ok, v) ↔
        readLoop call outcomes ⟨int32 call.length, 0, call.offset, call.scratch, false⟩ = some (.ok, v) := by
      intro v
      unfold read
      cases hloop : readLoop call outcomes ⟨int32 call.length, 0, call.offset, call.scratch, false⟩ with
      | none => rfl
      | some r =>
        obtain ⟨s, w⟩ := r
        cases s with
        | bad e => rfl
        | ok =>
          have hzero : w.rem = 0 := (hat w hloop).rem.trans (sub_self _)
          simp [hzero]
    simp only [hread, hok, hneg, and_false, not_false_eq_true, and_true, iff_self]
    intro v hv
    exact ⟨(hat v hv).scratch, (hat v hv).failed⟩

/-- what a call with OK has read is what was asked for, exactly when the rest of `scratch` is the file's -/
theorem wanted_iff (call : Call) :
    (call.file.content.drop call.offset).take call.counted ++ call.scratch.drop call.counted = call.wanted ↔
      call.scratch.drop call.counted =
        (call.file.content.drop (call.offset + call.counted)).take (call.length - call.counted) := by
  have hsplit : call.wanted = (call.file.content.drop call.offset).take call.counted ++
      (call.file.content.drop (call.offset + call.counted)).take (call.length - call.counted) := by
    rw [Call.wanted, ← List.drop_drop, take_append_take_drop, Nat.add_sub_cancel' (counted_le call)]
  rw [hsplit]
  exact List.append_right_inj _

theorem rest_of_lt (h : call.length < 2 ^ 31) : call.scratch.drop call.counted =
    (call.file.content.drop (call.offset + call.counted)).take (call.length - call.counted) := by
  have hcounted : call.counted = call.length := by
    rw [Call.counted, int32_of_range (by omega) (by omega), Int.toNat_natCast]
  rw [hcounted, Nat.sub_self, List.take_zero]
  exact List.drop_eq_nil_of_le le_rfl

theorem counted_length (h : Served call.file call.offset call.counted outcomes) :
    ((call.file.content.drop call.offset).take call.counted ++ call.scratch.drop call.counted).length = call.length := by
  have hle := counted_le call
  rw [List.length_append, List.length_take, List.length_drop, List.length_drop]
  change min call.counted (call.file.content.length - call.offset) + (call.length - call.counted) = call.length
  obtain hzero | ⟨hfits, -⟩ := h
  · omega
  · omega

/-- **The promise of `Read` holds exactly when nothing is lost** by counting the length in an `int`. -/
theorem read_exact (dchecks : Bool) (call : Call) (outcomes : List Outcome) :
    (∀ s v, read dchecks call outcomes = some (s, v) → Exact call s v) ↔ NothingLost dchecks call outcomes := by
  obtain ⟨hread, hok⟩ := read_ok_iff dchecks call outcomes
  constructor
  · intro h
    by_cases hreturns : ∃ v, read dchecks call outcomes = some (.ok, v)
    · obtain ⟨v, hv⟩ := hreturns
      right; right; right
      rw [← wanted_iff, ← (hread v hv).1]
      exact ((h .ok v hv).result rfl).2
    · rw [hok] at hreturns
      by_cases hneg : dchecks = true ∧ int32 call.length < 0
      · exact Or.inr (Or.inl hneg)
      · exact Or.inr (Or.inr (Or.inl fun hserved => hreturns ⟨hserved, hneg⟩))
  · intro h s v hv
    cases s with
    | bad e => exact ⟨fun hs => absurd hs Status.noConfusion, fun _ => Status.noConfusion, fun _ => Status.noConfusion⟩
    | ok =>
      obtain ⟨hscratch, hfailed⟩ := hread v hv
      obtain ⟨hserved, hdchecks⟩ := hok.1 ⟨v, hv⟩
      have hrest : call.scratch.drop call.counted =
          (call.file.content.drop (call.offset + call.counted)).take (call.length - call.counted) := by
        obtain hlt | hneg | hnot | hrest := h
        · exact rest_of_lt hlt
        · exact absurd hneg hdchecks
        · exact absurd hserved hnot
        · exact hrest
      have hresult : v.scratch.length = call.length ∧ v.scratch = call.wanted := by
        rw [hscratch]
        exact ⟨counted_length hserved, (wanted_iff call).2 hrest⟩
      refine ⟨fun _ => hresult, fun hend => ?_, fun hf => Bool.noConfusion (hfailed.symm.trans hf)⟩
      rw [hresult.2, Call.wanted, List.length_take] at hresult
      omega

/-- a multiple of 2^32 is read as 0 -/
theorem read_multiple (dchecks : Bool) (hzero : int32 call.length = 0) (outcomes : List Outcome) :
    read dchecks call outcomes = some (.ok, ⟨0, 0, call.offset, call.scratch, false⟩) := by
  unfold read
  rw [hzero, readLoop_done (lt_irrefl 0)]
  dsimp only
  rw [if_neg (fun h => h.2 rfl)]

/-- a call for 2^32 bytes of an empty file -/
def wholeRange : Call := ⟨defaultFlags, "", ⟨[], by norm_num⟩, 0, List.replicate (2 ^ 32) 7⟩

/-- **A length of 2^32 is read as 0**: OK without a pread, also with the `DCHECK`s, and what was in `scratch` is the result. -/
theorem read_skips : ∃ v, read true wholeRange [] = some (.ok, v) ∧ v.scratch = List.replicate (2 ^ 32) 7 ∧
    ¬ Exact wholeRange .ok v := by
  have hlength : wholeRange.length = 2 ^ 32 := List.length_replicate
  have hzero : int32 wholeRange.length = 0 := by
    rw [hlength]
    unfold int32
    norm_num
  refine ⟨_, read_multiple true hzero [], rfl, fun h => ?_⟩
  have hresult := (h.result rfl).2
  have hempty : wholeRange.wanted = [] := by
    rw [Call.wanted, show wholeRange.file.content = [] from rfl, List.drop_nil, List.take_nil]
  have hscratch := congrArg List.length (hresult.trans hempty)
  rw [List.length_nil] at hscratch
  have hsame : wholeRange.length = 0 := hscratch
  omega

end Bboy.EnvPosix.Read
