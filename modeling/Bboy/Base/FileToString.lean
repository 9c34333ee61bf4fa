/-
Lean model of `WriteStringToFile`, `WriteStringToFileSync` and `ReadFileToString` (`bboy/base/env.cc`), over the files of
`env_posix.cc`.

A write runs on the disk of `WritableContent.lean`, with the outcomes of its system calls given. A read of the C stream gives
the next bytes of the file, fewer than asked for only at the end of the file or with an error.

- `writeString_spec`: what a write leaves in the file system: all the data, or no file, or what a failed unlink left there.
- `readLoop_spec`: a read that returns OK has read the whole file, whatever the sizes of the pieces.
- `write_read`: what was written comes back, and a failed write leaves no part of the data behind, unless the unlink failed.
- `readFileToString_returns`: on a stream without errors the loop comes to an end, after a read for each 8192 bytes and one
  more, or two.
Witnesses: `write_read_hello`, `readFileToString_returns_hello`.
-/
import Bboy.Base.WritableContent

namespace Bboy.EnvPosix.FileToString

open Core Bboy.EnvPosix.Writable

/-! ## Writing -/

abbrev FileSystem := String → Option (List UInt8)

/-- the system calls of `DoWriteStringToFile`, in their order; `destroyed` is the `Close` of the destructor -/
structure WriteCalls where
  opened : Except Errno Unit
  written : List (Except Errno ℕ)
  synced : Except Errno Unit
  closed : CloseOutcomes
  destroyed : CloseOutcomes
  unlinked : Except Errno Unit

/-- `NewWritableFile` with the default options: the file is created, or truncated -/
def newWritableFile (flags : Flags) (fname : String) : Content.Disk :=
  (Content.disk flags true fname ⟨[], by decide⟩ false).init

/-- the append, and the sync if it is asked for -/
def writeAll (flags : Flags) (calls : WriteCalls) (data : List UInt8) (should_sync : Bool) (d : Content.Disk) :
    Option (Status × Content.Disk) :=
  (Content.append flags d data calls.written).bind fun r =>
    if r.1 = .ok ∧ should_sync then
      (Writable.sync flags r.2.file calls.synced).map fun q => (q.1, { r.2 with file := q.2 })
    else some r

/-- the close, by `Close` or by the destructor -/
def closeAll (flags : Flags) (calls : WriteCalls) (r : Status × Content.Disk) : Option (Status × Content.Disk) :=
  if r.1 = .ok then Content.close flags r.2 calls.closed
  -- Will auto-close if we did not close above
  else (Content.close flags r.2 calls.destroyed).map fun q => (r.1, q.2)

def doWriteStringToFile (flags : Flags) (calls : WriteCalls) (data : List UInt8) (fname : String) (should_sync : Bool)
    (fs : FileSystem) : Option (Status × FileSystem) :=
  match calls.opened with
  | .error err => failWith flags fname err fs
  | .ok () =>
    (writeAll flags calls data should_sync (newWritableFile flags fname)).bind fun r =>
      (closeAll flags calls r).bind fun r =>
        let fs := Function.update fs fname (some r.2.content)
        if r.1 = .ok then some (.ok, fs)
        else
          match calls.unlinked with
          | .ok () => some (r.1, Function.update fs fname none)
          | .error err => (failWith flags fname err fs).map fun q => (r.1, q.2)

def writeStringToFile (flags : Flags) (calls : WriteCalls) (data : List UInt8) (fname : String) (fs : FileSystem) :
    Option (Status × FileSystem) := doWriteStringToFile flags calls data fname false fs

def writeStringToFileSync (flags : Flags) (calls : WriteCalls) (data : List UInt8) (fname : String) (fs : FileSystem) :
    Option (Status × FileSystem) := doWriteStringToFile flags calls data fname true fs

/-! ## Reading -/

/-- one `fread_unlocked`: the bytes read, and what `feof` and `errno` say behind it -/
structure Fread where
  r : ℕ
  eof : Bool
  err : Errno
  deriving DecidableEq, Repr

/-- what the C library may answer to a read of `n` bytes at position `pos` of the file -/
def Fread.Possible (content : List UInt8) (pos n : ℕ) (o : Fread) : Prop :=
  o.r ≤ n ∧ pos + o.r ≤ content.length ∧ (o.eof = true → pos + o.r = content.length)

instance (content : List UInt8) (pos n : ℕ) (o : Fread) : Decidable (o.Possible content pos n) :=
  inferInstanceAs (Decidable (_ ∧ _ ∧ _))

/-- `PosixSequentialFile::Read`; `ferror` is 0 or 1, so `STREAM_RETRY_ON_EINTR` does not try again -/
def sequentialRead (flags : Flags) (fname : String) (content : List UInt8) (pos n : ℕ) (o : Fread) :
    Option (Status × List UInt8) :=
  if o.Possible content pos n then
    let fragment := (content.drop pos).take o.r
    if o.r < n ∧ o.eof = false then failWith flags fname o.err fragment else some (.ok, fragment)
  else none

def kBufferSize : ℕ := 8192

/-- the loop of `ReadFileToString`: one answer for each read -/
def readLoop (flags : Flags) (fname : String) (content : List UInt8) :
    ℕ → List UInt8 → List Fread → Option (Status × List UInt8)
  | _, _, [] => none
  | pos, data, o :: more =>
    (sequentialRead flags fname content pos kBufferSize o).bind fun r =>
      if r.1 ≠ .ok then some (r.1, data)
      else if r.2 = [] then some (.ok, data)
      else readLoop flags fname content (pos + r.2.length) (data ++ r.2) more

def readFileToString (flags : Flags) (opened : Except Errno Unit) (reads : List Fread) (fname : String) (fs : FileSystem) :
    Option (Status × List UInt8) :=
  match opened, fs fname with
  | .error err, _ => failWith flags fname err []
  | .ok (), none => failWith flags fname .enoent []
  | .ok (), some content => readLoop flags fname content 0 [] reads

/-! ## What a write leaves -/

variable {flags : Flags} {calls : WriteCalls} {data content : List UInt8} {fname : String} {should_sync : Bool}
  {fs fs' : FileSystem} {s : Status} {d : Content.Disk} {r : Status × Content.Disk}

/-- the disk holds what the one append left of the data -/
structure Appended (data : List UInt8) (r : Status × Content.Disk) : Prop where
  bounds : Content.Bounds true r.2
  whole : r.1 = .ok → r.2.content.take r.2.size = data

theorem newWritableFile_bounds (flags : Flags) (fname : String) : Content.Bounds true (newWritableFile flags fname) :=
  ⟨le_rfl, Nat.two_pow_pos 63, Nat.le_max_left _ _, fun h => by cases h⟩

theorem append_appended {written : List (Except Errno ℕ)}
    (h : Content.append flags (newWritableFile flags fname) data written = some r) : Appended data r := by
  have hnew := newWritableFile_bounds flags fname
  obtain ⟨piece, hpiece, -, hkept⟩ := Content.appendVector_spec hnew.within h
  refine ⟨hnew.wrote hpiece, fun hok => ?_⟩
  have hwhole : piece = data := by rw [hkept (decide_eq_true hok), List.flatten_singleton]
  rw [← hwhole]
  exact hpiece.content

theorem writeAll_appended (h : writeAll flags calls data should_sync (newWritableFile flags fname) = some r) :
    Appended data r := by
  obtain ⟨q, hq, h⟩ := Option.bind_eq_some_iff.1 h
  have happended := append_appended hq
  split_ifs at h with hsync
  · obtain ⟨p, hp, rfl⟩ := Option.map_eq_some_iff.1 h
    have hsizes := Content.sync_sizes hp
    refine ⟨happended.bounds.same hsizes.filesize hsizes.preAllocatedSize, fun _ => ?_⟩
    have hwhole := happended.whole hsync.1
    rw [Content.Disk.size] at hwhole ⊢
    rw [hsizes.filesize]
    exact hwhole
  · cases h
    exact happended

/-- **What a write leaves**: the data, or no file, or what could not be removed; and nothing if there was no file to write. -/
theorem writeString_spec (h : doWriteStringToFile flags calls data fname should_sync fs = some (s, fs')) :
    (s = .ok ∧ fs' = Function.update fs fname (some data)) ∨
      (s ≠ .ok ∧ (fs' = fs ∨ fs' = Function.update fs fname none ∨
        (∃ err left, calls.unlinked = .error err ∧ fs' = Function.update fs fname (some left)))) := by
  unfold doWriteStringToFile at h
  cases hopened : calls.opened with
  | error err =>
    rw [hopened] at h
    obtain ⟨e, -, heq⟩ := Option.map_eq_some_iff.1 h
    cases heq
    exact Or.inr ⟨nofun, Or.inl rfl⟩
  | ok u =>
    rw [hopened] at h
    obtain ⟨q, hq, h⟩ := Option.bind_eq_some_iff.1 h
    obtain ⟨r, hr, h⟩ := Option.bind_eq_some_iff.1 h
    have happended := writeAll_appended hq
    dsimp only at h
    split_ifs at h with hok
    · cases h
      left
      refine ⟨rfl, ?_⟩
      unfold closeAll at hr
      split_ifs at hr with hwritten
      · rw [Content.close_ok happended.bounds hr hok, happended.whole hwritten]
      · obtain ⟨p, -, rfl⟩ := Option.map_eq_some_iff.1 hr
        exact absurd hok hwritten
    · right
      cases hunlinked : calls.unlinked with
      | ok u =>
        rw [hunlinked] at h
        cases h
        exact ⟨hok, Or.inr (Or.inl (Function.update_idem _ _ _))⟩
      | error err =>
        rw [hunlinked] at h
        obtain ⟨p, hp, heq⟩ := Option.map_eq_some_iff.1 h
        obtain ⟨e, -, rfl⟩ := Option.map_eq_some_iff.1 hp
        cases heq
        exact ⟨hok, Or.inr (Or.inr ⟨err, _, rfl, rfl⟩)⟩

/-! ## What a read returns -/

theorem sequentialRead_ok {pos n : ℕ} {o : Fread} {fragment : List UInt8}
    (h : sequentialRead flags fname content pos n o = some (.ok, fragment)) :
    o.Possible content pos n ∧ fragment = (content.drop pos).take o.r ∧ (o.r < n → o.eof = true) := by
  unfold sequentialRead at h
  split_ifs at h with hpossible hbad
  · obtain ⟨e, -, heq⟩ := Option.map_eq_some_iff.1 h
    cases heq
  · cases h
    exact ⟨hpossible, rfl, fun hlt => by simpa [hlt] using hbad⟩

/-- **The loop reads on where it stopped**, and returns OK only behind the last byte. -/
theorem readLoop_spec {reads : List Fread} {pos : ℕ} {result : List UInt8} (hpos : pos ≤ content.length)
    (h : readLoop flags fname content pos (content.take pos) reads = some (s, result)) :
    result <+: content ∧ (s = .ok → result = content) := by
  induction reads generalizing pos with
  | nil => cases h
  | cons o more ih =>
    obtain ⟨⟨t, fragment⟩, hread, h⟩ := Option.bind_eq_some_iff.1 h
    dsimp only at h
    split_ifs at h with hbad hempty
    · cases h
      exact ⟨List.take_prefix pos content, fun hok => absurd hok hbad⟩
    · cases h
      refine ⟨List.take_prefix pos content, fun _ => ?_⟩
      rw [not_not.1 hbad] at hread
      obtain ⟨hpossible, hfragment, heof⟩ := sequentialRead_ok hread
      -- nothing was read: that is the end of the file
      have hlength := congrArg List.length (hempty.symm.trans hfragment)
      have hle := hpossible.2.1
      rw [List.length_take, List.length_drop, List.length_nil] at hlength
      have hzero : o.r = 0 := by omega
      have hend := hpossible.2.2 (heof (by rw [hzero]; decide))
      rw [List.take_of_length_le (by omega)]
    · rw [not_not.1 hbad] at hread
      obtain ⟨hpossible, hfragment, -⟩ := sequentialRead_ok hread
      have hle := hpossible.2.1
      have hlength : fragment.length = o.r := by
        rw [hfragment, List.length_take, List.length_drop]
        omega
      rw [hlength, hfragment, take_append_take_drop] at h
      exact ih hle h

/-- **Written strings come back.** A write that returns OK leaves a file that reads as the data, whatever the pieces of the
write and of the read; other files are as before. A write that fails after it made the file leaves none, unless the
unlink fails. -/
theorem write_read (h : doWriteStringToFile flags calls data fname should_sync fs = some (s, fs')) :
    (∀ other, other ≠ fname → fs' other = fs other) ∧
      (s = .ok → ∀ opened reads result, readFileToString flags opened reads fname fs' = some (.ok, result) →
        result = data) ∧
      (s ≠ .ok → calls.opened = .ok () → calls.unlinked = .ok () → fs' fname = none) := by
  rcases writeString_spec h with ⟨rfl, rfl⟩ | ⟨hbad, hfs⟩
  · refine ⟨fun other hne => Function.update_of_ne hne _ _, fun _ opened reads result hread => ?_, fun h => absurd rfl h⟩
    unfold readFileToString at hread
    rw [Function.update_self] at hread
    cases opened with
    | error err =>
      obtain ⟨e, -, heq⟩ := Option.map_eq_some_iff.1 hread
      cases heq
    | ok u => exact (readLoop_spec (Nat.zero_le _) hread).2 rfl
  · refine ⟨fun other hne => ?_, fun hok => absurd hok hbad, fun _ hopened hunlinked => ?_⟩
    · rcases hfs with rfl | rfl | ⟨err, left, -, rfl⟩
      · rfl
      · exact Function.update_of_ne hne _ _
      · exact Function.update_of_ne hne _ _
    · unfold doWriteStringToFile at h
      rw [hopened] at h
      obtain ⟨q, -, h⟩ := Option.bind_eq_some_iff.1 h
      obtain ⟨r, -, h⟩ := Option.bind_eq_some_iff.1 h
      dsimp only at h
      split_ifs at h with hok
      · cases h
        exact absurd rfl hbad
      · rw [hunlinked] at h
        cases h
        exact Function.update_self ..

def hello : List UInt8 := [104, 101, 108, 108, 111]

/-- every system call succeeds -/
def helloCalls : WriteCalls := ⟨.ok (), [.ok 5], .ok (), ⟨.ok (), .ok (), .ok ()⟩, ⟨.ok (), .ok (), .ok ()⟩, .ok ()⟩

theorem write_read_hello :
    ∃ fs', doWriteStringToFile defaultFlags helloCalls hello "f" true (fun _ => none) = some (.ok, fs') ∧
      fs' "g" = none ∧
      ∀ opened reads result, readFileToString defaultFlags opened reads "f" fs' = some (.ok, result) → result = hello := by
  obtain ⟨fs', h⟩ : ∃ fs', doWriteStringToFile defaultFlags helloCalls hello "f" true (fun _ => none) = some (.ok, fs') :=
    ⟨_, rfl⟩
  have hwritten := write_read h
  exact ⟨fs', h, hwritten.1 "g" (by decide), hwritten.2.1 rfl⟩

/-! ## The end of a read -/

/-- the answers of a stream without errors to `k` reads from `pos` on: all that is asked for and there is -/
def fullReads (content : List UInt8) : ℕ → ℕ → List Fread
  | _, 0 => []
  | pos, k + 1 =>
    let r := min kBufferSize (content.length - pos)
    ⟨r, decide (content.length - pos < kBufferSize), .other 0⟩ :: fullReads content (pos + r) k

/-- one read of such a stream -/
theorem fullRead_ok {pos : ℕ} (hpos : pos ≤ content.length) :
    sequentialRead flags fname content pos kBufferSize
        ⟨min kBufferSize (content.length - pos), decide (content.length - pos < kBufferSize), .other 0⟩ =
      some (.ok, (content.drop pos).take (min kBufferSize (content.length - pos))) := by
  have hpossible : Fread.Possible content pos kBufferSize
      ⟨min kBufferSize (content.length - pos), decide (content.length - pos < kBufferSize), .other 0⟩ := by
    refine ⟨Nat.min_le_left _ _, ?_, fun heof => ?_⟩
    · dsimp only
      omega
    · have hlt := of_decide_eq_true heof
      dsimp only
      omega
  rw [sequentialRead, if_pos hpossible, if_neg]
  rw [decide_eq_false_iff_not]
  dsimp only
  omega

theorem readLoop_full {pos k : ℕ} (hpos : pos ≤ content.length) (hk : content.length - pos ≤ kBufferSize * k) :
    readLoop flags fname content pos (content.take pos) (fullReads content pos (k + 1)) = some (.ok, content) := by
  induction k generalizing pos with
  | zero =>
    obtain rfl : pos = content.length := by omega
    rw [fullReads, readLoop, fullRead_ok le_rfl, Option.bind_some, Nat.sub_self, Nat.min_zero]
    dsimp only
    rw [if_neg (not_not_intro rfl), if_pos List.take_zero, List.take_length]
  | succ k ih =>
    have hle : pos + min kBufferSize (content.length - pos) ≤ content.length := by omega
    rw [fullReads, readLoop, fullRead_ok hpos, Option.bind_some]
    dsimp only
    rw [if_neg (not_not_intro rfl), List.length_take, List.length_drop, Nat.min_assoc, Nat.min_self,
      take_append_take_drop]
    split_ifs with hempty
    · have hzero := congrArg List.length hempty
      rw [List.length_take, List.length_drop, Nat.min_assoc, Nat.min_self, List.length_nil] at hzero
      have hbuffer : 0 < kBufferSize := by decide
      rw [List.take_of_length_le (by omega)]
    · refine ih hle ?_
      rw [Nat.mul_succ] at hk
      omega

/-- **A read comes to an end.** On a stream without errors `ReadFileToString` returns OK with the file, after one read for
each `kBufferSize` bytes and one more, or two. -/
theorem readFileToString_returns (hfile : fs fname = some content) :
    readFileToString flags (.ok ()) (fullReads content 0 (content.length / kBufferSize + 2)) fname fs =
      some (.ok, content) := by
  unfold readFileToString
  rw [hfile]
  refine readLoop_full (Nat.zero_le _) ?_
  have hdiv := Nat.lt_mul_div_succ content.length (show 0 < kBufferSize by decide)
  rw [Nat.sub_zero]
  exact hdiv.le

theorem readFileToString_returns_hello :
    readFileToString defaultFlags (.ok ()) (fullReads hello 0 2) "f" (fun _ => some hello) = some (.ok, hello) :=
  @readFileToString_returns _ hello _ _ rfl

end Bboy.EnvPosix.FileToString
