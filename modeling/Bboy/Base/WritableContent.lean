/-
Lean model of the bytes that `PosixWritableFile` leaves in its file (`bboy/base/env_posix.cc`): the system calls of
`WritableFile.lean` with what they do to the file.

A pwritev that returns `n` has put the first `n` bytes of its slices at its offset, an fallocate that succeeds makes the
file as long as its range, an ftruncate cuts it; a system call that fails leaves the file as it was. No file is longer than
an `off_t` holds, and fallocate refuses a range that is empty or does not fit an `off_t`; a kernel without fallocate
(`fallocates`) has it fail with ENOSYS every time.

- `AppendOnly`: what a file holds to which calls append, each all of its bytes or, if it fails, some first ones.
- `run_file`: the runs are those of `writableFile`, so what is proved of these holds here.
- `appendLoop_spec`: the chunks of at most `IOV_MAX` slices leave one piece of the bytes of the call.
- `content_exact`: in every run the first `filesize_` bytes are as `AppendOnly` says, and a `Close` that returns OK leaves
  just these.
-/
import Bboy.Core.Bytes
import Bboy.Base.WritableFile

namespace Bboy.EnvPosix.Writable.Content

open Core

/-! ## Append-only files -/

/-- what a call leaves of the bytes it was to append: all of them if it returned OK, else some first ones -/
def Kept (call : List UInt8 × Bool) (piece : List UInt8) : Prop := piece <+: call.1 ∧ (call.2 = true → piece = call.1)

/-- the contents that a file may have to which `calls` appended in turn -/
def AppendOnly (initial : List UInt8) (calls : List (List UInt8 × Bool)) : Set (List UInt8) :=
  {content | ∃ pieces, List.Forall₂ Kept calls pieces ∧ content = initial ++ pieces.flatten}

theorem appendOnly_nil (initial : List UInt8) : initial ∈ AppendOnly initial [] :=
  ⟨[], List.Forall₂.nil, (List.append_nil initial).symm⟩

/-- one more call -/
theorem appendOnly_concat {initial content piece : List UInt8} {calls : List (List UInt8 × Bool)}
    {call : List UInt8 × Bool} (h : content ∈ AppendOnly initial calls) (hkept : Kept call piece) :
    content ++ piece ∈ AppendOnly initial (calls.concat call) := by
  obtain ⟨pieces, hpieces, rfl⟩ := h
  refine ⟨pieces.concat piece, ?_, ?_⟩
  · rw [List.concat_eq_append, List.concat_eq_append]
    exact List.rel_append hpieces (List.Forall₂.cons hkept List.Forall₂.nil)
  · rw [List.concat_eq_append, List.flatten_append, List.flatten_singleton, List.append_assoc]

/-! ## Model -/

/-- the file behind a `PosixWritableFile`; as a ghost, the bytes of each append call and whether it returned OK -/
structure Disk where
  file : WritableFile
  content : List UInt8
  appends : List (List UInt8 × Bool)

/-- `Size()` -/
def Disk.size (d : Disk) : ℕ := d.file.filesize

/-- `DoWritev` on the slices it is given -/
def doWritev (flags : Flags) (d : Disk) (data : List Slice) (written : Except Errno ℕ) : Option (Status × Disk) :=
  match onFd d.file.isOpen written with
  | .ok n =>
    if d.file.filesize + n < 2 ^ 63 then
      (Writable.doWritev flags d.file data written).map fun r =>
        (r.1, { d with file := r.2, content := pwrite d.content d.file.filesize (data.flatten.take n) })
    else none
  | .error _ => (Writable.doWritev flags d.file data written).map fun r => (r.1, { d with file := r.2 })

/-- the loop of `AppendVector`: one outcome for each round -/
def appendLoop (flags : Flags) : Disk → List Slice → List (Except Errno ℕ) → Option (Status × Disk)
  | d, [], _ => some (.ok, d)
  | _, _ :: _, [] => none
  | d, data, written :: more =>
    match doWritev flags d (data.take iovMax) written with
    | none => none
    | some (.ok, d) => appendLoop flags d (data.drop iovMax) more
    | some (.bad e, d) => some (.bad e, d)

def appendVector (flags : Flags) (d : Disk) (data : List Slice) (written : List (Except Errno ℕ)) :
    Option (Status × Disk) :=
  (appendLoop flags d data written).map fun r =>
    let file := { r.2.file with pendingSync := true }
    (r.1, { r.2 with file := if r.1 = .ok then record file (.appended (nbytes data)) else file })

def append (flags : Flags) (d : Disk) (data : Slice) (written : List (Except Errno ℕ)) : Option (Status × Disk) :=
  appendVector flags d [data] written

def EINVAL : Errno := .other 22

/-- what an fallocate on an open file can return -/
abbrev FallocateReturns (fallocates : Bool) (offset size : ℕ) (outcome : Except Errno Unit) : Prop :=
  if fallocates then
    outcome ≠ .error .enosys ∧ (size = 0 ∨ 2 ^ 63 ≤ size ∨ 2 ^ 63 ≤ offset → outcome = .error EINVAL) ∧
      (outcome = .ok () → offset + size < 2 ^ 63)
  else outcome = .error .enosys

def preAllocate (flags : Flags) (fallocates : Bool) (d : Disk) (size : ℕ) (fallocate : Except Errno Unit) :
    Option (Status × Disk) :=
  let offset := max d.file.filesize d.file.preAllocatedSize
  if FallocateReturns fallocates offset size fallocate then
    (Writable.preAllocate flags d.file size fallocate).map fun r =>
      (r.1, { d with
        file := r.2
        content := if onFd d.file.isOpen fallocate = .ok () then resize d.content (max d.content.length (offset + size))
          else d.content })
  else none

def close (flags : Flags) (d : Disk) (o : CloseOutcomes) : Option (Status × Disk) :=
  (Writable.close flags d.file o).map fun r =>
    (r.1, { d with
      file := r.2
      content := if d.file.filesize < d.file.preAllocatedSize ∧ onFd d.file.isOpen o.ftruncate = .ok () then
          resize d.content d.file.filesize
        else d.content })

/-- the call to append `bytes` has returned -/
def logged (bytes : List UInt8) (r : Status × Disk) : Disk :=
  { r.2 with appends := r.2.appends.concat (bytes, decide (r.1 = .ok)) }

/-- a file that was opened with the bytes `initial` in it -/
def disk (flags : Flags) (fallocates : Bool) (filename : String) (initial : File) (syncOnClose : Bool) :
    Machine Disk Op where
  init := ⟨(writableFile flags filename initial.content.length syncOnClose).init, initial.content, []⟩
  step d
    | .append data written => (append flags d data written).map (logged data)
    | .appendVector data written => (appendVector flags d data written).map (logged data.flatten)
    | .preAllocate size fallocate => (preAllocate flags fallocates d size fallocate).map Prod.snd
    | .flush syncFileRange => (Writable.flush flags d.file syncFileRange).map fun r => { d with file := r.2 }
    | .sync synced => (Writable.sync flags d.file synced).map fun r => { d with file := promise r }
    | .close o => (close flags d o).map fun r =>
      { r.2 with file := if d.file.syncOnClose then promise (r.1, r.2.file) else r.2.file }

/-- what holds of the file: its first `filesize_` bytes are those of an append-only file, and a `Close` that returns OK
leaves these and no others -/
structure Exact (flags : Flags) (initial : List UInt8) (d : Disk) : Prop where
  appended : d.content.take d.size ∈ AppendOnly initial d.appends
  size : d.size = (d.content.take d.size).length
  closed : ∀ o r, close flags d o = some r → r.1 = .ok →
    r.2.content = d.content.take d.size ∧ r.2.content.length = r.2.size

/-! ## The runs of `writableFile` -/

variable {flags : Flags} {fallocates : Bool} {filename : String} {initial : File} {syncOnClose : Bool}
  {d e : Disk} {data : List Slice}

theorem doWritev_file {written : Except Errno ℕ} {r : Status × Disk} (h : doWritev flags d data written = some r) :
    Writable.doWritev flags d.file data written = some (r.1, r.2.file) := by
  unfold doWritev at h
  split at h
  · split_ifs at h
    obtain ⟨q, hq, rfl⟩ := Option.map_eq_some_iff.1 h
    exact hq
  · obtain ⟨q, hq, rfl⟩ := Option.map_eq_some_iff.1 h
    exact hq

theorem appendLoop_file {written : List (Except Errno ℕ)} {r : Status × Disk}
    (h : appendLoop flags d data written = some r) :
    Writable.appendLoop flags d.file data written = some (r.1, r.2.file) := by
  induction written generalizing d data with
  | nil =>
    cases data with
    | nil =>
      cases h
      rfl
    | cons slice data => cases h
  | cons w written ih =>
    cases data with
    | nil =>
      cases h
      rfl
    | cons slice data =>
      simp only [appendLoop] at h
      split at h
      · cases h
      · rename_i e hw
        simp only [Writable.appendLoop, doWritev_file hw]
        exact ih h
      · rename_i err e hw
        cases h
        simp only [Writable.appendLoop, doWritev_file hw]

theorem appendVector_file {written : List (Except Errno ℕ)} {r : Status × Disk}
    (h : appendVector flags d data written = some r) :
    Writable.appendVector flags d.file data written = some (r.1, r.2.file) := by
  obtain ⟨q, hq, rfl⟩ := Option.map_eq_some_iff.1 h
  rw [Writable.appendVector, appendLoop_file hq]
  rfl

theorem step_file {o : Op} (h : (disk flags fallocates filename initial syncOnClose).step d o = some e) :
    (writableFile flags filename initial.content.length syncOnClose).step d.file o = some e.file := by
  cases o with
  | append data written =>
    obtain ⟨r, hr, rfl⟩ := Option.map_eq_some_iff.1 h
    exact Option.map_eq_some_iff.2 ⟨_, appendVector_file hr, rfl⟩
  | appendVector data written =>
    obtain ⟨r, hr, rfl⟩ := Option.map_eq_some_iff.1 h
    exact Option.map_eq_some_iff.2 ⟨_, appendVector_file hr, rfl⟩
  | preAllocate size fallocate =>
    obtain ⟨r, hr, rfl⟩ := Option.map_eq_some_iff.1 h
    simp only [preAllocate] at hr
    split_ifs at hr
    all_goals
      obtain ⟨q, hq, rfl⟩ := Option.map_eq_some_iff.1 hr
      exact Option.map_eq_some_iff.2 ⟨q, hq, rfl⟩
  | flush syncFileRange =>
    obtain ⟨r, hr, rfl⟩ := Option.map_eq_some_iff.1 h
    exact Option.map_eq_some_iff.2 ⟨r, hr, rfl⟩
  | sync synced =>
    obtain ⟨r, hr, rfl⟩ := Option.map_eq_some_iff.1 h
    exact Option.map_eq_some_iff.2 ⟨r, hr, rfl⟩
  | close o =>
    obtain ⟨r, hr, rfl⟩ := Option.map_eq_some_iff.1 h
    obtain ⟨q, hq, rfl⟩ := Option.map_eq_some_iff.1 hr
    exact Option.map_eq_some_iff.2 ⟨q, hq, rfl⟩

/-- **Refinement.** What a run does to the members of the file is a run of `writableFile`. -/
theorem run_file {ops : List Op} (h : (disk flags fallocates filename initial syncOnClose).run d ops = some e) :
    (writableFile flags filename initial.content.length syncOnClose).run d.file ops = some e.file := by
  induction ops generalizing d with
  | nil =>
    cases h
    rfl
  | cons o ops ih =>
    obtain ⟨u, hu, hr⟩ := Machine.run_cons_some _ h
    rw [Machine.run_cons, step_file hu]
    exact ih hr

/-! ## Appends -/

/-- bytes written behind the first `filesize_` ones -/
structure Wrote (d e : Disk) (piece : List UInt8) : Prop where
  content : e.content.take e.size = d.content.take d.size ++ piece
  size : e.size = d.size + piece.length
  length : e.content.length = max d.content.length e.size
  preAllocatedSize : e.file.preAllocatedSize = d.file.preAllocatedSize
  appends : e.appends = d.appends
  small : d.size < 2 ^ 63 → e.size < 2 ^ 63

theorem Wrote.nothing (h : d.size ≤ d.content.length) : Wrote d d [] :=
  ⟨(List.append_nil _).symm, rfl, (Nat.max_eq_left h).symm, rfl, rfl, id⟩

theorem Wrote.trans {u : Disk} {piece more : List UInt8} (h : Wrote d u piece) (hmore : Wrote u e more) :
    Wrote d e (piece ++ more) where
  content := by rw [hmore.content, h.content, List.append_assoc]
  size := by
    have h1 := h.size
    have h2 := hmore.size
    rw [List.length_append]
    omega
  length := by
    have h1 := h.length
    have h2 := hmore.length
    have h3 := hmore.size
    omega
  preAllocatedSize := hmore.preAllocatedSize.trans h.preAllocatedSize
  appends := hmore.appends.trans h.appends
  small := fun hd => hmore.small (h.small hd)

theorem Wrote.within {piece : List UInt8} (h : Wrote d e piece) : e.size ≤ e.content.length := by
  rw [h.length]
  exact Nat.le_max_right _ _

/-- the bytes that a call to append `all` leaves, according to its result -/
def Written (d : Disk) (all : List UInt8) (r : Status × Disk) : Prop :=
  ∃ piece, Wrote d r.2 piece ∧ Kept (all, decide (r.1 = .ok)) piece

theorem nbytes_eq (data : List Slice) : nbytes data = data.flatten.length := List.length_flatten.symm

/-- all that `DoWritev` can do -/
theorem doWritev_cases {f : WritableFile} {written : Except Errno ℕ} {r : Status × WritableFile}
    (h : Writable.doWritev flags f data written = some r) :
    (∃ n ≤ data.flatten.length, onFd f.isOpen written = .ok n ∧ r.2 = { f with filesize := wrap (f.filesize + n) } ∧
        (r.1 = .ok → n = data.flatten.length)) ∨
      (∃ err, onFd f.isOpen written = .error err) ∧ r.1 ≠ .ok ∧ r.2 = f := by
  obtain ⟨out, hout, h⟩ := Option.bind_eq_some_iff.1 h
  have hfd : onFd f.isOpen written = out := by
    unfold retryOnEintr at hout
    split at hout
    · cases hout
    · exact Option.some.inj hout
  cases out with
  | error err => exact Or.inr ⟨⟨err, hfd⟩, failWith_some h⟩
  | ok n =>
    rw [nbytes_eq] at h
    by_cases hlt : data.flatten.length < n
    · simp only [if_pos hlt] at h
      cases h
    refine Or.inl ⟨n, Nat.le_of_not_lt hlt, hfd, ?_⟩
    simp only [if_neg hlt] at h
    by_cases hall : n = data.flatten.length
    · rw [if_pos hall] at h
      cases h
      exact ⟨rfl, fun _ => hall⟩
    · rw [if_neg hall] at h
      cases h
      exact ⟨rfl, fun hok => by cases hok⟩

/-- a pwritev at the end of the first `filesize_` bytes -/
theorem wrote_piece {piece : List UInt8} (hd : d.size ≤ d.content.length) (hsmall : d.size + piece.length < 2 ^ 63) :
    Wrote d { d with
      file := { d.file with filesize := d.size + piece.length }
      content := pwrite d.content d.size piece } piece where
  content := by
    rw [pwrite_eq_splice hd]
    exact take_splice hd
  size := rfl
  length := by
    rw [pwrite_eq_splice hd]
    exact length_splice hd
  preAllocatedSize := rfl
  appends := rfl
  small := fun _ => hsmall

theorem doWritev_spec {written : Except Errno ℕ} {r : Status × Disk} (hd : d.size ≤ d.content.length)
    (h : doWritev flags d data written = some r) : Written d data.flatten r := by
  have hcases := doWritev_cases (doWritev_file h)
  unfold doWritev at h
  split at h
  · rename_i n hn
    split_ifs at h with hsmall
    obtain ⟨q, hq, rfl⟩ := Option.map_eq_some_iff.1 h
    obtain ⟨m, hm, hfd, hfile, hall⟩ : ∃ m ≤ data.flatten.length, _ := by
      refine hcases.resolve_right ?_
      rintro ⟨⟨err, herr⟩, -⟩
      cases hn.symm.trans herr
    obtain rfl : n = m := Except.ok.inj (hn.symm.trans hfd)
    have hlength : (data.flatten.take n).length = n := by
      rw [List.length_take, Nat.min_eq_left hm]
    refine ⟨data.flatten.take n, ?_, List.take_prefix _ _, fun hok => ?_⟩
    · have hfits : d.size + (data.flatten.take n).length < 2 ^ 63 := by
        rw [hlength]
        exact hsmall
      have hwrote := wrote_piece hd hfits
      have hwrap : wrap (d.file.filesize + n) = d.file.filesize + n := Nat.mod_eq_of_lt (by omega)
      have hq2 : q.2 = { d.file with filesize := d.size + n } := by rw [hfile, hwrap, Disk.size]
      rw [hlength] at hwrote
      rw [hq2]
      exact hwrote
    · rw [hall (of_decide_eq_true hok), List.take_length]
  · rename_i err herr
    obtain ⟨q, hq, rfl⟩ := Option.map_eq_some_iff.1 h
    obtain ⟨-, hbad, hfile⟩ : _ ∧ q.1 ≠ .ok ∧ q.2 = d.file := by
      refine hcases.resolve_left ?_
      rintro ⟨n, -, hn, -⟩
      cases herr.symm.trans hn
    refine ⟨[], ?_, List.nil_prefix, fun hok => absurd (of_decide_eq_true hok) hbad⟩
    rw [hfile]
    exact Wrote.nothing hd

/-- the rounds of the loop leave one piece of the bytes of all slices -/
theorem appendLoop_spec {written : List (Except Errno ℕ)} {r : Status × Disk} (hd : d.size ≤ d.content.length)
    (h : appendLoop flags d data written = some r) : Written d data.flatten r := by
  induction written generalizing d data with
  | nil =>
    cases data with
    | nil =>
      cases h
      exact ⟨[], Wrote.nothing hd, List.nil_prefix, fun _ => rfl⟩
    | cons slice data => cases h
  | cons w written ih =>
    cases data with
    | nil =>
      cases h
      exact ⟨[], Wrote.nothing hd, List.nil_prefix, fun _ => rfl⟩
    | cons slice data =>
      simp only [appendLoop] at h
      have hsplit : (slice :: data).flatten =
          ((slice :: data).take iovMax).flatten ++ ((slice :: data).drop iovMax).flatten := by
        rw [← List.flatten_append, List.take_append_drop]
      rw [hsplit]
      split at h
      · cases h
      · -- this chunk is written in full
        rename_i e hw
        obtain ⟨first, hfirst, -, hall⟩ := doWritev_spec hd hw
        obtain ⟨rest, hrest, hprefix, hkept⟩ := ih hfirst.within h
        rw [hall rfl] at hfirst
        refine ⟨_, hfirst.trans hrest, (List.prefix_append_right_inj _).2 hprefix, fun hok => ?_⟩
        rw [hkept hok]
      · -- the call ends here
        rename_i err e hw
        cases h
        obtain ⟨piece, hpiece, hprefix, -⟩ := doWritev_spec hd hw
        exact ⟨piece, hpiece, hprefix.trans (List.prefix_append _ _), fun hok => by cases hok⟩

/-! ## The invariant -/

/-- how long the file is -/
structure Bounds (fallocates : Bool) (d : Disk) : Prop where
  within : d.size ≤ d.content.length
  small : d.size < 2 ^ 63
  /-- what is longer was preallocated -/
  tail : d.content.length ≤ max d.size d.file.preAllocatedSize
  bare : fallocates = false → d.content.length = d.size

structure Inv (fallocates : Bool) (initial : List UInt8) (d : Disk) : Prop extends Bounds fallocates d where
  appended : d.content.take d.size ∈ AppendOnly initial d.appends

variable {bytes : List UInt8}

/-- the end of the call changes the flag and the log only -/
theorem appended_sizes (s : Status) (f : WritableFile) (n : ℕ) :
    (if s = .ok then record f (.appended n) else f).filesize = f.filesize ∧
      (if s = .ok then record f (.appended n) else f).preAllocatedSize = f.preAllocatedSize := by
  split_ifs <;> exact ⟨rfl, rfl⟩

/-- what an append writes -/
theorem appendVector_spec {written : List (Except Errno ℕ)} {r : Status × Disk} (hd : d.size ≤ d.content.length)
    (hr : appendVector flags d data written = some r) : Written d data.flatten r := by
  obtain ⟨q, hq, rfl⟩ := Option.map_eq_some_iff.1 hr
  obtain ⟨piece, hpiece, hkept⟩ := appendLoop_spec hd hq
  refine ⟨piece, ⟨?_, ?_, ?_, ?_, hpiece.appends, ?_⟩, hkept⟩
  · simp only [Disk.size, appended_sizes]
    exact hpiece.content
  · simp only [Disk.size, appended_sizes]
    exact hpiece.size
  · simp only [Disk.size, appended_sizes]
    exact hpiece.length
  · simp only [appended_sizes]
    exact hpiece.preAllocatedSize
  · simp only [Disk.size, appended_sizes]
    exact hpiece.small

theorem Bounds.wrote {piece : List UInt8} (h : Bounds fallocates d) (hpiece : Wrote d e piece) : Bounds fallocates e := by
  have hsize := hpiece.size
  have hlength := hpiece.length
  have htail := h.tail
  refine ⟨hpiece.within, hpiece.small h.small, ?_, fun hbare => ?_⟩
  · rw [hpiece.preAllocatedSize]
    omega
  · have hd := h.bare hbare
    omega

theorem inv_append {written : List (Except Errno ℕ)} {r : Status × Disk} (h : Inv fallocates bytes d)
    (hr : appendVector flags d data written = some r) : Inv fallocates bytes (logged data.flatten r) := by
  obtain ⟨piece, hpiece, hkept⟩ := appendVector_spec h.within hr
  have hbounds := h.toBounds.wrote hpiece
  have happended := appendOnly_concat h.appended hkept
  rw [← hpiece.content, ← hpiece.appends] at happended
  exact ⟨⟨hbounds.within, hbounds.small, hbounds.tail, hbounds.bare⟩, happended⟩

/-- a step that appends nothing -/
theorem Inv.next (h : Inv fallocates bytes d) (hsize : e.size = d.size) (happends : e.appends = d.appends)
    (htake : e.content.take d.size = d.content.take d.size) (hwithin : d.size ≤ e.content.length)
    (htail : e.content.length ≤ max d.size e.file.preAllocatedSize)
    (hbare : fallocates = false → e.content.length = d.size) : Inv fallocates bytes e where
  appended := by
    rw [hsize, htake, happends]
    exact h.appended
  within := by
    rw [hsize]
    exact hwithin
  small := by
    rw [hsize]
    exact h.small
  tail := by
    rw [hsize]
    exact htail
  bare := by
    rw [hsize]
    exact hbare

/-- a system call that leaves the file as it is -/
theorem Bounds.same (h : Bounds fallocates d) {f : WritableFile} (hsize : f.filesize = d.file.filesize)
    (hpre : f.preAllocatedSize = d.file.preAllocatedSize) : Bounds fallocates { d with file := f } := by
  have hsame : ({ d with file := f } : Disk).size = d.size := hsize
  refine ⟨hsame ▸ h.within, hsame ▸ h.small, ?_, hsame ▸ h.bare⟩
  rw [hsame, hpre]
  exact h.tail

theorem Inv.same (h : Inv fallocates bytes d) {f : WritableFile} (hsize : f.filesize = d.file.filesize)
    (hpre : f.preAllocatedSize = d.file.preAllocatedSize) : Inv fallocates bytes { d with file := f } := by
  refine ⟨h.toBounds.same hsize hpre, ?_⟩
  rw [Disk.size, hsize]
  exact h.appended

/-- all that `PreAllocate` can do -/
theorem preAllocate_cases {f : WritableFile} {size : ℕ} {fallocate : Except Errno Unit} {r : Status × WritableFile}
    (h : Writable.preAllocate flags f size fallocate = some r) :
    (r.2 = { f with preAllocatedSize := wrap (max f.filesize f.preAllocatedSize + size) } ∧
        onFd f.isOpen fallocate ∈ [.ok (), .error .eopnotsupp, .error .enosys]) ∨
      r.2 = f ∧ onFd f.isOpen fallocate ≠ .ok () := by
  simp only [Writable.preAllocate] at h
  split at h
  · rename_i hfd
    cases h
    exact Or.inl ⟨rfl, by simp [hfd]⟩
  · rename_i hfd
    cases h
    exact Or.inl ⟨rfl, by simp [hfd]⟩
  · rename_i hfd
    cases h
    exact Or.inl ⟨rfl, by simp [hfd]⟩
  · rename_i err _ _ hfd
    exact Or.inr ⟨(failWith_some h).2, by simp [hfd]⟩

theorem onFd_eq {β : Type} {isOpen : Bool} {outcome out : Except Errno β} (h : onFd isOpen outcome = out)
    (hne : out ≠ .error .ebadf) : outcome = out := by
  unfold onFd at h
  split_ifs at h
  · exact h
  · exact absurd h.symm hne

/-- an allocated range fits an `off_t` -/
theorem fallocate_ok {offset size : ℕ} (h : FallocateReturns fallocates offset size (.ok ())) :
    fallocates = true ∧ offset + size < 2 ^ 63 := by
  cases fallocates with
  | false => cases h
  | true => exact ⟨rfl, h.2.2 rfl⟩

/-- so does one that is refused for want of support -/
theorem fallocate_unsupported {offset size : ℕ} (h : FallocateReturns true offset size (.error .eopnotsupp)) :
    size < 2 ^ 63 ∧ offset < 2 ^ 63 := by
  have hvalid : ¬(size = 0 ∨ 2 ^ 63 ≤ size ∨ 2 ^ 63 ≤ offset) := fun hinvalid => by cases h.2.1 hinvalid
  omega

theorem inv_preAllocate {size : ℕ} {fallocate : Except Errno Unit} {r : Status × Disk} (h : Inv fallocates bytes d)
    (hr : preAllocate flags fallocates d size fallocate = some r) : Inv fallocates bytes r.2 := by
  simp only [preAllocate] at hr
  by_cases hreturns : FallocateReturns fallocates (max d.file.filesize d.file.preAllocatedSize) size fallocate
  swap
  · rw [if_neg hreturns] at hr
    cases hr
  rw [if_pos hreturns] at hr
  obtain ⟨q, hq, rfl⟩ := Option.map_eq_some_iff.1 hr
  have htail : d.content.length ≤ max d.file.filesize d.file.preAllocatedSize := h.tail
  have hwrap : max d.file.filesize d.file.preAllocatedSize + size < 2 ^ 64 →
      wrap (max d.file.filesize d.file.preAllocatedSize + size) =
        max d.file.filesize d.file.preAllocatedSize + size := Nat.mod_eq_of_lt
  by_cases hok : onFd d.file.isOpen fallocate = .ok ()
  · simp only [if_pos hok]
    obtain ⟨hfallocates, hfits⟩ := fallocate_ok (onFd_eq hok (by simp) ▸ hreturns)
    have hq2 := (preAllocate_cases hq).resolve_right fun hbad => hbad.2 hok
    have hwithin := h.within
    refine h.next ?_ rfl ?_ ?_ ?_ fun hno => absurd (hfallocates.symm.trans hno) (by decide)
    · simp only [Disk.size, hq2.1]
    · exact take_resize_of_le (by omega) hwithin
    · simp only [length_resize]
      omega
    · simp only [length_resize, hq2.1, hwrap (by omega), Disk.size]
      omega
  · simp only [if_neg hok]
    rcases preAllocate_cases hq with ⟨hq2, hout⟩ | ⟨hq2, -⟩
    · -- fallocate is missing or not supported: the size is noted all the same
      refine h.next ?_ rfl rfl h.within ?_ h.bare
      · simp only [Disk.size, hq2]
      · simp only [hq2, Disk.size]
        cases hfallocates : fallocates with
        | true =>
          rw [hfallocates] at hreturns
          have hunsupported : fallocate = .error .eopnotsupp := by
            simp only [List.mem_cons, List.not_mem_nil, or_false] at hout
            rcases hout with hout | hout | hout
            · exact absurd hout hok
            · exact onFd_eq hout (by simp)
            · exact absurd (onFd_eq hout (by simp)) hreturns.1
          have hrange := fallocate_unsupported (hunsupported ▸ hreturns)
          rw [hwrap (by omega)]
          omega
        | false =>
          have hbare : d.content.length = d.file.filesize := h.bare hfallocates
          omega
    · rw [hq2]
      exact h

/-- the members that count bytes are the same -/
structure SameSizes (f g : WritableFile) : Prop where
  filesize : g.filesize = f.filesize
  preAllocatedSize : g.preAllocatedSize = f.preAllocatedSize

variable {f g k : WritableFile}

theorem SameSizes.trans (hf : SameSizes f g) (hg : SameSizes g k) : SameSizes f k :=
  ⟨hg.filesize.trans hf.filesize, hg.preAllocatedSize.trans hf.preAllocatedSize⟩

theorem promise_sizes (r : Status × WritableFile) : SameSizes r.2 (promise r) := by
  unfold promise
  split_ifs <;> exact ⟨rfl, rfl⟩

theorem sync_sizes {synced : Except Errno Unit} {r : Status × WritableFile}
    (h : Writable.sync flags f synced = some r) : SameSizes f r.2 := by
  rcases sync_cases h with ⟨rfl, -⟩ | ⟨-, call, -, ⟨-, hr⟩ | ⟨-, hr⟩⟩
  · exact ⟨rfl, rfl⟩
  · rw [hr]
    exact ⟨rfl, rfl⟩
  · rw [hr]
    exact ⟨rfl, rfl⟩

theorem flush_sizes {syncFileRange : Except Errno Unit} {r : Status × WritableFile}
    (h : Writable.flush flags f syncFileRange = some r) : SameSizes f r.2 := by
  unfold Writable.flush at h
  split at h
  · cases h
    exact ⟨rfl, rfl⟩
  · rw [(failWith_some h).2]
    exact ⟨rfl, rfl⟩

theorem closeTruncate_sizes {ftruncate : Except Errno Unit} {r : Status × WritableFile}
    (h : closeTruncate flags f ftruncate = some r) : SameSizes f r.2 := by
  unfold closeTruncate at h
  split_ifs at h
  · obtain ⟨out, -, h⟩ := Option.bind_eq_some_iff.1 h
    cases out with
    | ok u =>
      cases h
      exact ⟨rfl, rfl⟩
    | error err =>
      rw [(failWith_some h).2]
      exact ⟨rfl, rfl⟩
  · cases h
    exact ⟨rfl, rfl⟩

theorem closeSync_sizes {s : Status} {synced : Except Errno Unit} {r : Status × WritableFile}
    (h : closeSync flags f s synced = some r) : SameSizes f r.2 := by
  unfold closeSync at h
  split_ifs at h
  · obtain ⟨q, hq, rfl⟩ := Option.map_eq_some_iff.1 h
    exact ⟨(sync_sizes hq).filesize, (sync_sizes hq).preAllocatedSize⟩
  · cases h
    exact ⟨rfl, rfl⟩

theorem closeFd_sizes {s : Status} {close : Except Errno Unit} {r : Status × WritableFile}
    (h : closeFd flags f s close = some r) : SameSizes f r.2 := by
  simp only [closeFd] at h
  split at h
  · cases h
    exact ⟨rfl, rfl⟩
  · split_ifs at h
    · rw [(failWith_some h).2]
      exact ⟨rfl, rfl⟩
    · cases h
      exact ⟨rfl, rfl⟩

theorem close_sizes {o : CloseOutcomes} {r : Status × WritableFile} (h : Writable.close flags f o = some r) :
    SameSizes f r.2 := by
  obtain ⟨r1, h1, h⟩ := Option.bind_eq_some_iff.1 h
  obtain ⟨r2, h2, h3⟩ := Option.bind_eq_some_iff.1 h
  exact (closeTruncate_sizes h1).trans ((closeSync_sizes h2).trans (closeFd_sizes h3))

theorem inv_close {o : CloseOutcomes} {r : Status × Disk} (h : Inv fallocates bytes d)
    (hr : close flags d o = some r) : Inv fallocates bytes r.2 := by
  obtain ⟨q, hq, rfl⟩ := Option.map_eq_some_iff.1 hr
  have hsizes := close_sizes hq
  by_cases hcut : d.file.filesize < d.file.preAllocatedSize ∧ onFd d.file.isOpen o.ftruncate = .ok ()
  · simp only [if_pos hcut]
    refine h.next hsizes.filesize rfl (take_resize_of_le le_rfl h.within) ?_ ?_ fun _ => length_resize _ _
    · exact (length_resize _ _).ge
    · rw [length_resize]
      exact Nat.le_max_left _ _
  · simp only [if_neg hcut]
    exact h.same hsizes.filesize hsizes.preAllocatedSize

/-- the result of a `Close` that returns OK -/
theorem close_ok {o : CloseOutcomes} {r : Status × Disk} (h : Bounds fallocates d) (hr : close flags d o = some r)
    (hok : r.1 = .ok) : r.2.content = d.content.take d.size := by
  obtain ⟨q, hq, rfl⟩ := Option.map_eq_some_iff.1 hr
  have hcalls : CloseCallsSucceed d.file o := by
    by_contra hno
    exact close_bad hno hq hok
  obtain ⟨hopen, -, htruncate⟩ := hcalls
  by_cases hlt : d.file.filesize < d.file.preAllocatedSize
  · have hcut : onFd d.file.isOpen o.ftruncate = .ok () := by rw [htruncate hlt, hopen, onFd, if_pos rfl]
    simp only [if_pos (And.intro hlt hcut)]
    exact resize_of_le h.within
  · -- nothing is preallocated beyond the bytes that were written
    simp only [if_neg fun hcut : _ ∧ _ => hlt hcut.1]
    have htail : d.content.length ≤ max d.file.filesize d.file.preAllocatedSize := h.tail
    have hle : d.content.length ≤ d.size := htail.trans (max_le le_rfl (Nat.le_of_not_lt hlt))
    exact (List.take_of_length_le hle).symm

theorem inv_step (o : Op) (h : Inv fallocates bytes d)
    (hst : (disk flags fallocates filename initial syncOnClose).step d o = some e) : Inv fallocates bytes e := by
  cases o with
  | append data written =>
    obtain ⟨r, hr, rfl⟩ := Option.map_eq_some_iff.1 hst
    have hnext := inv_append h hr
    rwa [List.flatten_singleton] at hnext
  | appendVector data written =>
    obtain ⟨r, hr, rfl⟩ := Option.map_eq_some_iff.1 hst
    exact inv_append h hr
  | preAllocate size fallocate =>
    obtain ⟨r, hr, rfl⟩ := Option.map_eq_some_iff.1 hst
    exact inv_preAllocate h hr
  | flush syncFileRange =>
    obtain ⟨r, hr, rfl⟩ := Option.map_eq_some_iff.1 hst
    exact h.same (flush_sizes hr).filesize (flush_sizes hr).preAllocatedSize
  | sync synced =>
    obtain ⟨r, hr, rfl⟩ := Option.map_eq_some_iff.1 hst
    have hsizes := (sync_sizes hr).trans (promise_sizes r)
    exact h.same hsizes.filesize hsizes.preAllocatedSize
  | close o =>
    obtain ⟨r, hr, rfl⟩ := Option.map_eq_some_iff.1 hst
    have hclose := inv_close h hr
    dsimp only
    split_ifs
    · have hsizes := promise_sizes (r.1, r.2.file)
      exact hclose.same hsizes.filesize hsizes.preAllocatedSize
    · exact hclose

theorem exact_of_inv (h : Inv fallocates bytes d) : Exact flags bytes d := by
  have hlength : (d.content.take d.size).length = d.size := by rw [List.length_take, Nat.min_eq_left h.within]
  refine ⟨h.appended, hlength.symm, fun o r hr hok => ?_⟩
  have hcontent := close_ok h.toBounds hr hok
  have hsize : r.2.size = d.size := by
    obtain ⟨q, hq, rfl⟩ := Option.map_eq_some_iff.1 hr
    exact (close_sizes hq).filesize
  exact ⟨hcontent, by rw [hcontent, hlength, hsize]⟩

/-! ## Main result -/

/-- **The content of a writable file.** In every run, with every result of the system calls, the first `filesize_` bytes of
the file are the initial content and then, for each append in order, all of its bytes if it returned OK and some first
ones if not; `Size()` is their number, and a `Close` that returns OK leaves the file exactly these bytes. -/
theorem content_exact (flags : Flags) (fallocates : Bool) (filename : String) (initial : File) (syncOnClose : Bool)
    (ops : List Op) :
    let m := disk flags fallocates filename initial syncOnClose
    m.Always (Exact flags initial.content) m.init ops := by
  intro m
  have hinit : Inv fallocates initial.content m.init := by
    refine ⟨⟨le_rfl, initial.size_lt, Nat.le_max_left _ _, fun _ => rfl⟩, ?_⟩
    have htake : m.init.content.take m.init.size = initial.content := List.take_length
    rw [htake]
    exact appendOnly_nil _
  exact Machine.always_of_along (I := Inv fallocates initial.content) (fun d o e h _ => inv_step o h)
    (fun d => exact_of_inv) hinit (Machine.along_true _ _)

/-- ten bytes are preallocated; the first append is short, the second one and `Close` succeed -/
example :
    let m := disk defaultFlags true "f" ⟨[], by decide⟩ false
    let ops := [.preAllocate 10 (.ok ()), .append [1, 2, 3] [.ok 2], .append [4] [.ok 1], .close ⟨.ok (), .ok (), .ok ()⟩]
    (m.run m.init ops).map (fun d => (d.content, d.appends)) = some ([1, 2, 4], [([1, 2, 3], false), ([4], true)]) := by
  decide

end Bboy.EnvPosix.Writable.Content
