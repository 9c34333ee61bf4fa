/-
`PosixWritableFile` (`env_posix.cc`): appends, preallocation, `Sync` and `Close`, called by one thread in any order, with
every outcome of the system calls.

Model: the members of the file and, as a ghost, the log of what happened, newest first: bytes appended by calls that
returned OK, the truncation that `Close` makes, each fsync with its result, each return of OK that promises durability.

- `Covered`: every change of a log is followed by a successful fsync;
- `Durable`: at each OK of `Sync`, and of `Close` on a file opened with sync_on_close, all changes before are covered;
- `durable_iff`: a run is durable exactly when no such call relies on a cleared `pending_sync_` although a failed fsync
  left changes behind or the file was just truncated (`NothingSkipped`).
Witnesses: `retried_sync_loses_bytes` (the flag is cleared before the fsync that fails), `close_skips_truncation` (the flag
is set if the truncation fails, not if it succeeds).
-/
import Bboy.Core.Machine
import Bboy.Base.EnvPosix

namespace Bboy.EnvPosix.Writable

open Core

/-! ## Model -/

inductive Event where
  | appended (bytes : ℕ)
  | truncated
  | synced (call : SyncCall) (ok : Bool)
  | durableReturn
deriving DecidableEq, Repr

structure WritableFile where
  filename : String
  /-- `fd_ >= 0` -/
  isOpen : Bool
  syncOnClose : Bool
  filesize : ℕ
  preAllocatedSize : ℕ
  pendingSync : Bool
  /-- ghost: what happened, newest first -/
  log : List Event

abbrev Slice := List UInt8

/-- a `uint64_t` -/
def wrap (n : ℕ) : ℕ := n % 2 ^ 64

/-- `IOV_MAX` of Linux -/
def iovMax : ℕ := 1024

def record (f : WritableFile) (e : Event) : WritableFile := { f with log := e :: f.log }

def nbytes (data : List Slice) : ℕ := (data.map List.length).sum

/-- `DoWritev` on the slices it is given; the outcome of `pwritev` is the number of bytes written -/
def doWritev (flags : Flags) (f : WritableFile) (data : List Slice) (written : Except Errno ℕ) :
    Option (Status × WritableFile) :=
  (retryOnEintr (onFd f.isOpen written)).bind fun r =>
    match r with
    | .error err => failWith flags f.filename err f
    | .ok n =>
      if nbytes data < n then none
      else
        let f := { f with filesize := wrap (f.filesize + n) }
        if n = nbytes data then some (.ok, f)
        else some (.bad (.ioError ("pwritev error: expected to write " ++ toString (nbytes data) ++ " bytes, wrote " ++
          toString n ++ " bytes instead (perhaps the disk is out of space)") "" (-1)), f)

/-- the loop of `AppendVector`: one outcome for each round -/
def appendLoop (flags : Flags) : WritableFile → List Slice → List (Except Errno ℕ) → Option (Status × WritableFile)
  | f, [], _ => some (.ok, f)
  | _, _ :: _, [] => none
  | f, data, written :: more =>
    match doWritev flags f (data.take iovMax) written with
    | none => none
    | some (.ok, f) => appendLoop flags f (data.drop iovMax) more
    | some (.bad e, f) => some (.bad e, f)

def appendVector (flags : Flags) (f : WritableFile) (data : List Slice) (written : List (Except Errno ℕ)) :
    Option (Status × WritableFile) :=
  (appendLoop flags f data written).map fun r =>
    let f := { r.2 with pendingSync := true }
    (r.1, if r.1 = .ok then record f (.appended (nbytes data)) else f)

def append (flags : Flags) (f : WritableFile) (data : Slice) (written : List (Except Errno ℕ)) :
    Option (Status × WritableFile) :=
  appendVector flags f [data] written

def preAllocate (flags : Flags) (f : WritableFile) (size : ℕ) (fallocate : Except Errno Unit) :
    Option (Status × WritableFile) :=
  let offset := max f.filesize f.preAllocatedSize
  let done := some (Status.ok, { f with preAllocatedSize := wrap (offset + size) })
  match onFd f.isOpen fallocate with
  | .ok () => done
  | .error .eopnotsupp => done
  | .error .enosys => done
  | .error err => failWith flags f.filename err f

def flush (flags : Flags) (f : WritableFile) (syncFileRange : Except Errno Unit) : Option (Status × WritableFile) :=
  match onFd f.isOpen syncFileRange with
  | .ok () => some (.ok, f)
  | .error err => failWith flags f.filename err f

/-- `DoSync`, with its result in the log -/
def doSync (flags : Flags) (f : WritableFile) (synced : Except Errno Unit) : Option (Status × WritableFile) :=
  match syncCall flags with
  | none => some (.ok, f)
  | some call =>
    match onFd f.isOpen synced with
    | .ok () => some (.ok, record f (.synced call true))
    | .error err => failWith flags f.filename err (record f (.synced call false))

def sync (flags : Flags) (f : WritableFile) (synced : Except Errno Unit) : Option (Status × WritableFile) :=
  if f.pendingSync then doSync flags { f with pendingSync := false } synced else some (.ok, f)

/-- the system calls of `Close` -/
structure CloseOutcomes where
  ftruncate : Except Errno Unit
  synced : Except Errno Unit
  close : Except Errno Unit

/-- the truncation at the start of `Close` -/
def closeTruncate (flags : Flags) (f : WritableFile) (ftruncate : Except Errno Unit) : Option (Status × WritableFile) :=
  if f.filesize < f.preAllocatedSize then
    (retryOnEintr (onFd f.isOpen ftruncate)).bind fun r =>
      match r with
      | .ok () => some (.ok, record f .truncated)
      | .error err => failWith flags f.filename err { f with pendingSync := true }
  else some (.ok, f)

def firstError (s t : Status) : Status := if s = .ok then t else s

/-- the `if (sync_on_close_)` of `Close` -/
def closeSync (flags : Flags) (f : WritableFile) (s : Status) (synced : Except Errno Unit) :
    Option (Status × WritableFile) :=
  if f.syncOnClose then (sync flags f synced).map fun r => (firstError s r.1, r.2) else some (s, f)

/-- the end of `Close`: `IOError` is only called if there is no error yet -/
def closeFd (flags : Flags) (f : WritableFile) (s : Status) (close : Except Errno Unit) : Option (Status × WritableFile) :=
  let closed := { f with isOpen := false }
  match onFd f.isOpen close with
  | .ok () => some (s, closed)
  | .error err => if s = .ok then failWith flags f.filename err closed else some (s, closed)

def close (flags : Flags) (f : WritableFile) (o : CloseOutcomes) : Option (Status × WritableFile) :=
  (closeTruncate flags f o.ftruncate).bind fun r =>
    (closeSync flags r.2 r.1 o.synced).bind fun r => closeFd flags r.2 r.1 o.close

/-! ## Runs -/

inductive Op where
  | append (data : Slice) (written : List (Except Errno ℕ))
  | appendVector (data : List Slice) (written : List (Except Errno ℕ))
  | preAllocate (size : ℕ) (fallocate : Except Errno Unit)
  | flush (syncFileRange : Except Errno Unit)
  | sync (synced : Except Errno Unit)
  | close (o : CloseOutcomes)

/-- a return of OK that promises durability goes to the log -/
def promise (r : Status × WritableFile) : WritableFile := if r.1 = .ok then record r.2 .durableReturn else r.2

/-- a file that was opened with `fileSize` bytes in it -/
def writableFile (flags : Flags) (filename : String) (fileSize : ℕ) (syncOnClose : Bool) : Machine WritableFile Op where
  init := ⟨filename, true, syncOnClose, fileSize, 0, false, []⟩
  step f
    | .append data written => (append flags f data written).map Prod.snd
    | .appendVector data written => (appendVector flags f data written).map Prod.snd
    | .preAllocate size fallocate => (preAllocate flags f size fallocate).map Prod.snd
    | .flush syncFileRange => (flush flags f syncFileRange).map Prod.snd
    | .sync synced => (sync flags f synced).map promise
    | .close o => (close flags f o).map fun r => if f.syncOnClose then promise r else r.2

/-! ## Durability -/

/-- every change in the log is followed by a successful fsync -/
def Covered : List Event → Prop
  | [] => True
  | .synced _ true :: _ => True
  | .synced _ false :: log => Covered log
  | .appended n :: log => n = 0 ∧ Covered log
  | .truncated :: _ => False
  | .durableReturn :: log => Covered log

/-- at each return that promises durability all changes before are covered -/
def Durable : List Event → Prop
  | [] => True
  | .durableReturn :: log => Covered log ∧ Durable log
  | _ :: log => Durable log

/-- since the last successful fsync, the file was truncated or an fsync failed that had something to cover -/
def LeftBehind : List Event → Prop
  | [] => False
  | .synced _ true :: _ => False
  | .synced _ false :: log => ¬ Covered log
  | .truncated :: _ => True
  | _ :: log => LeftBehind log

/-- nothing was appended or truncated -/
def Untouched : List Event → Prop
  | [] => True
  | .appended n :: log => n = 0 ∧ Untouched log
  | .truncated :: _ => False
  | _ :: log => Untouched log

/-- a call that promises durability does not rely on a cleared `pending_sync_` (or on `FLAGS_never_fsync`) while something
is left behind -/
def NothingSkipped (flags : Flags) (f : WritableFile) : Op → Prop
  | .sync _ => (f.pendingSync = false → ¬ LeftBehind f.log) ∧ (flags.neverFsync = true → Untouched f.log)
  | .close o => f.syncOnClose = true → f.isOpen = true → o.close = .ok () →
      (f.filesize < f.preAllocatedSize → o.ftruncate = .ok ()) →
        (f.pendingSync = false → ¬ LeftBehind f.log ∧ ¬ f.filesize < f.preAllocatedSize) ∧
          (flags.neverFsync = true → Untouched f.log ∧ ¬ f.filesize < f.preAllocatedSize)
  | _ => True

theorem not_leftBehind_of_covered {log : List Event} (h : Covered log) : ¬ LeftBehind log := by
  induction log with
  | nil => exact id
  | cons e log ih =>
    match e with
    | .appended n => exact ih h.2
    | .truncated => exact absurd h id
    | .synced call true => exact id
    | .synced call false => exact not_not.2 h
    | .durableReturn => exact ih h

/-- without any fsync, nothing is covered but what did not change the file -/
theorem covered_iff_untouched {log : List Event} (h : ∀ call ok, .synced call ok ∉ log) : Covered log ↔ Untouched log := by
  induction log with
  | nil => exact Iff.rfl
  | cons e log ih =>
    have hlog : ∀ call ok, .synced call ok ∉ log := fun call ok hm => h call ok (List.mem_cons_of_mem e hm)
    match e with
    | .appended n => exact and_congr_right fun _ => ih hlog
    | .truncated => exact Iff.rfl
    | .synced call ok => exact absurd List.mem_cons_self (h call ok)
    | .durableReturn => exact ih hlog

/-! ## The invariant -/

structure Inv (flags : Flags) (f : WritableFile) : Prop where
  /-- with the flag cleared, what is not covered was left behind -/
  cleared : f.pendingSync = false → flags.neverFsync = false → ¬ LeftBehind f.log → Covered f.log
  never : flags.neverFsync = true → ∀ call ok, .synced call ok ∉ f.log

/-- a part of a call: it keeps the invariant and promises nothing -/
structure Silent (flags : Flags) (f g : WritableFile) : Prop where
  inv : Inv flags f → Inv flags g
  durable : Durable g.log ↔ Durable f.log

variable {flags : Flags} {f g h : WritableFile}

theorem Silent.refl (f : WritableFile) : Silent flags f f := ⟨id, Iff.rfl⟩

theorem Silent.trans (hf : Silent flags f g) (hg : Silent flags g h) : Silent flags f h :=
  ⟨fun hi => hg.inv (hf.inv hi), hg.durable.trans hf.durable⟩

/-- the log stays and the flag is not cleared -/
theorem Silent.same (hlog : g.log = f.log) (hflag : g.pendingSync = false → f.pendingSync = false) :
    Silent flags f g := by
  refine ⟨fun hi => ⟨fun hp hn => ?_, fun hn => ?_⟩, by rw [hlog]⟩
  · rw [hlog]
    exact hi.cleared (hflag hp) hn
  · rw [hlog]
    exact hi.never hn

theorem failWith_some {σ : Type} {context : String} {err : Errno} {s : σ} {r : Status × σ}
    (h : failWith flags context err s = some r) : r.1 ≠ .ok ∧ r.2 = s := by
  obtain ⟨e, -, rfl⟩ := Option.map_eq_some_iff.1 h
  exact ⟨by simp, rfl⟩

theorem doWritev_silent {data : List Slice} {written : Except Errno ℕ} {r : Status × WritableFile}
    (h : doWritev flags f data written = some r) : Silent flags f r.2 := by
  obtain ⟨out, -, h⟩ := Option.bind_eq_some_iff.1 h
  cases out with
  | error err =>
    rw [(failWith_some h).2]
    exact Silent.refl f
  | ok n =>
    simp only at h
    split_ifs at h
    · cases h
      exact Silent.same rfl id
    · cases h
      exact Silent.same rfl id

theorem appendLoop_silent {data : List Slice} {written : List (Except Errno ℕ)} {r : Status × WritableFile}
    (h : appendLoop flags f data written = some r) : Silent flags f r.2 := by
  induction written generalizing f data with
  | nil =>
    cases data with
    | nil =>
      cases h
      exact Silent.refl f
    | cons slice data => cases h
  | cons w written ih =>
    cases data with
    | nil =>
      cases h
      exact Silent.refl f
    | cons slice data =>
      simp only [appendLoop] at h
      split at h
      · cases h
      · rename_i g hw
        exact (doWritev_silent hw).trans (ih h)
      · rename_i e g hw
        cases h
        exact doWritev_silent hw

/-- the flag is set after every append, so an appended byte is not left behind -/
theorem appendVector_silent {data : List Slice} {written : List (Except Errno ℕ)} {r : Status × WritableFile}
    (h : appendVector flags f data written = some r) : Silent flags f r.2 := by
  obtain ⟨r', hloop, rfl⟩ := Option.map_eq_some_iff.1 h
  refine (appendLoop_silent hloop).trans ?_
  simp only
  split_ifs
  · refine ⟨fun hi => ⟨fun hp => absurd hp (by simp [record]), fun hn call ok hm => ?_⟩, Iff.rfl⟩
    rcases List.mem_cons.1 hm with he | hm
    · cases he
    · exact hi.never hn call ok hm
  · exact Silent.same rfl fun hp => by cases hp

theorem preAllocate_silent {size : ℕ} {fallocate : Except Errno Unit} {r : Status × WritableFile}
    (h : preAllocate flags f size fallocate = some r) : Silent flags f r.2 := by
  simp only [preAllocate] at h
  split at h
  · cases h
    exact Silent.same rfl id
  · cases h
    exact Silent.same rfl id
  · cases h
    exact Silent.same rfl id
  · rw [(failWith_some h).2]
    exact Silent.refl f

theorem flush_silent {syncFileRange : Except Errno Unit} {r : Status × WritableFile}
    (h : flush flags f syncFileRange = some r) : Silent flags f r.2 := by
  unfold flush at h
  split at h
  · cases h
    exact Silent.refl f
  · rw [(failWith_some h).2]
    exact Silent.refl f

theorem syncCall_none : syncCall flags = none ↔ flags.neverFsync = true := by
  unfold syncCall
  split_ifs with hn hf <;> simp [hn]

/-- all that `Sync` can do: skip the fsync, or make it, with the flag cleared -/
theorem sync_cases {synced : Except Errno Unit} {r : Status × WritableFile} (h : sync flags f synced = some r) :
    (r = (.ok, { f with pendingSync := false }) ∧ (f.pendingSync = false ∨ flags.neverFsync = true)) ∨
      (f.pendingSync = true ∧ ∃ call, syncCall flags = some call ∧
        ((r.1 = .ok ∧ r.2 = record { f with pendingSync := false } (.synced call true)) ∨
          (r.1 ≠ .ok ∧ r.2 = record { f with pendingSync := false } (.synced call false)))) := by
  unfold sync at h
  split_ifs at h with hp
  · unfold doSync at h
    split at h
    · rename_i hcall
      cases h
      exact Or.inl ⟨rfl, Or.inr (syncCall_none.1 hcall)⟩
    · rename_i call hcall
      refine Or.inr ⟨hp, call, hcall, ?_⟩
      split at h
      · cases h
        exact Or.inl ⟨rfl, rfl⟩
      · exact Or.inr (failWith_some h)
  · have hfalse : f.pendingSync = false := by simpa using hp
    cases h
    refine Or.inl ⟨?_, Or.inl hfalse⟩
    rw [← hfalse]

theorem record_synced {call : SyncCall} {ok : Bool} (hcall : syncCall flags = some call) :
    Silent flags f (record { f with pendingSync := false } (.synced call ok)) := by
  have hnever : flags.neverFsync ≠ true := by
    intro hn
    rw [syncCall_none.2 hn] at hcall
    cases hcall
  refine ⟨fun _ => ⟨fun _ _ hleft => ?_, fun hn => absurd hn hnever⟩, by cases ok <;> rfl⟩
  cases ok with
  | true => exact trivial
  | false => exact not_not.1 hleft

theorem sync_silent {synced : Except Errno Unit} {r : Status × WritableFile} (h : sync flags f synced = some r) :
    Silent flags f r.2 := by
  rcases sync_cases h with ⟨rfl, hskip⟩ | ⟨-, call, hcall, ⟨-, hr⟩ | ⟨-, hr⟩⟩
  · refine ⟨fun hi => ⟨fun _ hn => ?_, hi.never⟩, Iff.rfl⟩
    exact hi.cleared (hskip.resolve_right (by simp [hn])) hn
  · rw [hr]
    exact record_synced hcall
  · rw [hr]
    exact record_synced hcall

theorem closeTruncate_silent {ftruncate : Except Errno Unit} {r : Status × WritableFile}
    (h : closeTruncate flags f ftruncate = some r) : Silent flags f r.2 := by
  unfold closeTruncate at h
  split_ifs at h
  · obtain ⟨out, -, h⟩ := Option.bind_eq_some_iff.1 h
    cases out with
    | ok u =>
      cases h
      -- a truncation counts as left behind until an fsync
      refine ⟨fun hi => ⟨fun _ _ hleft => absurd trivial hleft, fun hn call ok hm => ?_⟩, Iff.rfl⟩
      rcases List.mem_cons.1 hm with he | hm
      · cases he
      · exact hi.never hn call ok hm
    | error err =>
      rw [(failWith_some h).2]
      exact Silent.same rfl fun hp => by cases hp
  · cases h
    exact Silent.refl f

theorem closeSync_silent {s : Status} {synced : Except Errno Unit} {r : Status × WritableFile}
    (h : closeSync flags f s synced = some r) : Silent flags f r.2 := by
  unfold closeSync at h
  split_ifs at h
  · obtain ⟨r', hs, rfl⟩ := Option.map_eq_some_iff.1 h
    have hsilent := sync_silent hs
    exact hsilent
  · cases h
    exact Silent.refl f

theorem closeFd_silent {s : Status} {close : Except Errno Unit} {r : Status × WritableFile}
    (h : closeFd flags f s close = some r) : Silent flags f r.2 := by
  simp only [closeFd] at h
  split at h
  · cases h
    exact Silent.same rfl id
  · split_ifs at h
    · rw [(failWith_some h).2]
      exact Silent.same rfl id
    · cases h
      exact Silent.same rfl id

theorem close_silent {o : CloseOutcomes} {r : Status × WritableFile} (h : close flags f o = some r) :
    Silent flags f r.2 := by
  obtain ⟨r1, h1, h⟩ := Option.bind_eq_some_iff.1 h
  obtain ⟨r2, h2, h3⟩ := Option.bind_eq_some_iff.1 h
  exact (closeTruncate_silent h1).trans ((closeSync_silent h2).trans (closeFd_silent h3))

theorem promise_inv {r : Status × WritableFile} (h : Inv flags r.2) : Inv flags (promise r) := by
  unfold promise
  split_ifs
  · refine ⟨h.cleared, fun hn call ok hm => ?_⟩
    rcases List.mem_cons.1 hm with he | hm
    · cases he
    · exact h.never hn call ok hm
  · exact h

theorem step_inv {filename : String} {fileSize : ℕ} {syncOnClose : Bool} (f : WritableFile) (o : Op) (g : WritableFile)
    (h : Inv flags f) (hst : (writableFile flags filename fileSize syncOnClose).step f o = some g) : Inv flags g := by
  cases o with
  | append data written =>
    obtain ⟨r, hr, rfl⟩ := Option.map_eq_some_iff.1 hst
    exact (appendVector_silent hr).inv h
  | appendVector data written =>
    obtain ⟨r, hr, rfl⟩ := Option.map_eq_some_iff.1 hst
    exact (appendVector_silent hr).inv h
  | preAllocate size fallocate =>
    obtain ⟨r, hr, rfl⟩ := Option.map_eq_some_iff.1 hst
    exact (preAllocate_silent hr).inv h
  | flush syncFileRange =>
    obtain ⟨r, hr, rfl⟩ := Option.map_eq_some_iff.1 hst
    exact (flush_silent hr).inv h
  | sync synced =>
    obtain ⟨r, hr, rfl⟩ := Option.map_eq_some_iff.1 hst
    exact promise_inv ((sync_silent hr).inv h)
  | close o =>
    obtain ⟨r, hr, rfl⟩ := Option.map_eq_some_iff.1 hst
    have hinv := (close_silent hr).inv h
    split_ifs
    · exact promise_inv hinv
    · exact hinv

/-! ## Calls that promise durability -/

theorem durable_promise (r : Status × WritableFile) :
    Durable (promise r).log ↔ (r.1 = .ok → Covered r.2.log) ∧ Durable r.2.log := by
  unfold promise
  split_ifs with hok
  · exact and_congr_left' ⟨fun hc _ => hc, fun hc => hc hok⟩
  · exact ⟨fun hd => ⟨fun h => absurd h hok, hd⟩, fun h => h.2⟩

/-- `NothingSkipped` of a `Sync` -/
def NothingLeft (flags : Flags) (f : WritableFile) : Prop :=
  (f.pendingSync = false → ¬ LeftBehind f.log) ∧ (flags.neverFsync = true → Untouched f.log)

/-- where no fsync is made, everything is covered exactly when nothing was left behind -/
theorem covered_iff_nothingLeft (h : Inv flags f) (hskip : f.pendingSync = false ∨ flags.neverFsync = true) :
    Covered f.log ↔ NothingLeft flags f := by
  by_cases hn : flags.neverFsync = true
  · have hu := covered_iff_untouched (h.never hn)
    exact ⟨fun hc => ⟨fun _ => not_leftBehind_of_covered hc, fun _ => hu.1 hc⟩, fun hl => hu.2 (hl.2 hn)⟩
  · have hp := hskip.resolve_right hn
    have hfalse : flags.neverFsync = false := by simpa using hn
    exact ⟨fun hc => ⟨fun _ => not_leftBehind_of_covered hc, fun h' => absurd h' hn⟩,
      fun hl => h.cleared hp hfalse (hl.1 hp)⟩

/-- a `Sync` keeps its promise exactly when nothing was left behind -/
theorem sync_durable (h : Inv flags f) (hd : Durable f.log) (synced : Except Errno Unit) :
    (∀ r, sync flags f synced = some r → Durable (promise r).log) ↔ NothingLeft flags f := by
  by_cases hskip : f.pendingSync = false ∨ flags.neverFsync = true
  · have hsync : sync flags f synced = some (.ok, { f with pendingSync := false }) := by
      unfold sync
      split_ifs with hp
      · simp only [doSync, syncCall_none.2 (hskip.resolve_left (by simp [hp]))]
      · have hfalse : f.pendingSync = false := by simpa using hp
        rw [← hfalse]
    rw [hsync, ← covered_iff_nothingLeft h hskip]
    constructor
    · intro hall
      exact ((durable_promise _).1 (hall _ rfl)).1 rfl
    · rintro hc r hr
      cases hr
      exact (durable_promise _).2 ⟨fun _ => hc, hd⟩
  · rw [not_or] at hskip
    refine iff_of_true (fun r hr => ?_) ⟨fun hp => absurd hp hskip.1, fun hn => absurd hn hskip.2⟩
    have hsilent := (sync_silent hr).durable.2 hd
    rcases sync_cases hr with ⟨-, hno⟩ | ⟨-, call, -, ⟨hok, hlog⟩ | ⟨hbad, -⟩⟩
    · exact absurd hno (not_or.2 hskip)
    · refine (durable_promise r).2 ⟨fun _ => ?_, hsilent⟩
      rw [hlog]
      exact trivial
    · exact (durable_promise r).2 ⟨fun hok => absurd hok hbad, hsilent⟩

/-- the file after the truncation at the start of `Close`, if that succeeds -/
def truncatedFile (f : WritableFile) : WritableFile :=
  if f.filesize < f.preAllocatedSize then record f .truncated else f

/-- no system call that `Close` makes itself fails -/
def CloseCallsSucceed (f : WritableFile) (o : CloseOutcomes) : Prop :=
  f.isOpen = true ∧ o.close = .ok () ∧ (f.filesize < f.preAllocatedSize → o.ftruncate = .ok ())

theorem closeTruncate_ok (hopen : f.isOpen = true) {ftruncate : Except Errno Unit}
    (h : f.filesize < f.preAllocatedSize → ftruncate = .ok ()) :
    closeTruncate flags f ftruncate = some (.ok, truncatedFile f) := by
  unfold closeTruncate truncatedFile
  split_ifs with hsize
  · rw [h hsize, hopen]
    rfl
  · rfl

theorem sync_isOpen {synced : Except Errno Unit} {r : Status × WritableFile} (h : sync flags f synced = some r) :
    r.2.isOpen = f.isOpen := by
  rcases sync_cases h with ⟨rfl, -⟩ | ⟨-, call, -, ⟨-, hr⟩ | ⟨-, hr⟩⟩
  · rfl
  · rw [hr]
    rfl
  · rw [hr]
    rfl

/-- then `Close` is the `Sync` of the truncated file, and closes it -/
theorem close_eq_sync {o : CloseOutcomes} (h : CloseCallsSucceed f o) (hsync : f.syncOnClose = true) :
    close flags f o = (sync flags (truncatedFile f) o.synced).map fun r => (r.1, { r.2 with isOpen := false }) := by
  obtain ⟨hopen, hclose, htruncate⟩ := h
  have hopen' : (truncatedFile f).isOpen = true := by
    unfold truncatedFile
    split_ifs <;> exact hopen
  have hsync' : (truncatedFile f).syncOnClose = true := by
    unfold truncatedFile
    split_ifs <;> exact hsync
  rw [close, closeTruncate_ok hopen htruncate]
  simp only [Option.bind_some, closeSync, hsync', if_true, firstError]
  cases hs : sync flags (truncatedFile f) o.synced with
  | none => rfl
  | some r =>
    have hopen2 : r.2.isOpen = true := (sync_isOpen hs).trans hopen'
    simp only [Option.map_some, Option.bind_some, closeFd, hopen2, hclose, onFd, if_true]

/-- the first error is the one that `Close` reports -/
theorem close_bad {o : CloseOutcomes} (h : ¬ CloseCallsSucceed f o) {r : Status × WritableFile}
    (hr : close flags f o = some r) : r.1 ≠ .ok := by
  intro hok
  obtain ⟨r1, h1, hr⟩ := Option.bind_eq_some_iff.1 hr
  obtain ⟨r2, h2, h3⟩ := Option.bind_eq_some_iff.1 hr
  -- the file is open, the close succeeds, and there was no error before
  have hclose : r2.1 = .ok ∧ r2.2.isOpen = true ∧ o.close = .ok () := by
    simp only [closeFd] at h3
    split at h3
    · rename_i hfd
      cases h3
      unfold onFd at hfd
      split_ifs at hfd with hopen
      exact ⟨hok, hopen, hfd⟩
    · split_ifs at h3 with hs
      · exact absurd hok (failWith_some h3).1
      · cases h3
        exact absurd hok hs
  have hsync : r1.1 = .ok ∧ r1.2.isOpen = true := by
    unfold closeSync at h2
    split_ifs at h2
    · obtain ⟨r', hs, rfl⟩ := Option.map_eq_some_iff.1 h2
      have hopen := hclose.2.1
      rw [sync_isOpen hs] at hopen
      refine ⟨?_, hopen⟩
      by_contra hne
      have hfirst := hclose.1
      rw [firstError, if_neg hne] at hfirst
      exact hne hfirst
    · cases h2
      exact ⟨hclose.1, hclose.2.1⟩
  apply h
  unfold closeTruncate at h1
  split_ifs at h1 with hsize
  · obtain ⟨out, hout, h1⟩ := Option.bind_eq_some_iff.1 h1
    cases out with
    | ok u =>
      cases h1
      have hopen : f.isOpen = true := hsync.2
      refine ⟨hopen, hclose.2.2, fun _ => ?_⟩
      rw [onFd, if_pos hopen] at hout
      cases hf : o.ftruncate with
      | ok u => rfl
      | error err => cases err <;> simp [hf, retryOnEintr] at hout
    | error err => exact absurd hsync.1 (failWith_some h1).1
  · cases h1
    exact ⟨hsync.2, hclose.2.2, fun hlt => absurd hlt hsize⟩

theorem truncatedFile_silent (f : WritableFile) : Silent flags f (truncatedFile f) := by
  unfold truncatedFile
  split_ifs
  · refine ⟨fun hi => ⟨fun _ _ hleft => absurd trivial hleft, fun hn call ok hm => ?_⟩, Iff.rfl⟩
    rcases List.mem_cons.1 hm with he | hm
    · cases he
    · exact hi.never hn call ok hm
  · exact Silent.refl f

theorem nothingLeft_truncatedFile : NothingLeft flags (truncatedFile f) ↔
    (f.pendingSync = false → ¬ LeftBehind f.log ∧ ¬ f.filesize < f.preAllocatedSize) ∧
      (flags.neverFsync = true → Untouched f.log ∧ ¬ f.filesize < f.preAllocatedSize) := by
  unfold truncatedFile NothingLeft
  split_ifs with hsize
  · simp [record, LeftBehind, Untouched, hsize]
  · simp [hsize]

/-- a `Close` on a file with sync_on_close keeps its promise exactly when nothing was left behind -/
theorem close_durable (h : Inv flags f) (hd : Durable f.log) (hsync : f.syncOnClose = true) (o : CloseOutcomes) :
    (∀ r, close flags f o = some r → Durable (promise r).log) ↔ NothingSkipped flags f (.close o) := by
  by_cases hcalls : CloseCallsSucceed f o
  · have hP : NothingSkipped flags f (.close o) ↔ NothingLeft flags (truncatedFile f) := by
      rw [nothingLeft_truncatedFile]
      exact ⟨fun hP => hP hsync hcalls.1 hcalls.2.1 hcalls.2.2, fun hl _ _ _ _ => hl⟩
    have hsilent : Silent flags f (truncatedFile f) := truncatedFile_silent f
    rw [hP, ← sync_durable (hsilent.inv h) (hsilent.durable.2 hd) o.synced, close_eq_sync hcalls hsync]
    constructor
    · intro hall r hr
      have hr' := hall (r.1, { r.2 with isOpen := false }) (by rw [hr]; rfl)
      rw [durable_promise] at hr' ⊢
      exact hr'
    · intro hall r hr
      obtain ⟨r', hr', rfl⟩ := Option.map_eq_some_iff.1 hr
      have hdur := hall r' hr'
      rw [durable_promise] at hdur ⊢
      exact hdur
  · refine iff_of_true (fun r hr => ?_) fun _ h1 h2 h3 => absurd ⟨h1, h2, h3⟩ hcalls
    exact (durable_promise r).2 ⟨fun hok => absurd hok (close_bad hcalls hr), (close_silent hr).durable.2 hd⟩

/-! ## Main result -/

/-- **When the promises hold.** In every run, at every OK of `Sync` (and of `Close` on a file opened with sync_on_close)
all bytes appended before, and the truncation of `Close`, are covered by a later successful fsync, exactly when no such
call skips the fsync with something left behind. -/
theorem durable_iff (flags : Flags) (filename : String) (fileSize : ℕ) (syncOnClose : Bool) (ops : List Op) :
    let m := writableFile flags filename fileSize syncOnClose
    m.Always (fun f => Durable f.log) m.init ops ↔ m.Along (NothingSkipped flags) m.init ops := by
  intro m
  have hinit : Inv flags m.init := ⟨fun _ _ _ => trivial, fun _ _ _ hm => absurd hm List.not_mem_nil⟩
  have htrue := Machine.along_true (M := m) m.init ops
  refine Machine.always_iff_along (I := Inv flags) (D := fun _ _ => True) (fun f o g h _ _ => step_inv f o g h) ?_
    hinit trivial htrue
  intro f o h hd _
  cases o with
  | append data written =>
    refine iff_of_true (fun g hg => ?_) trivial
    obtain ⟨r, hr, rfl⟩ := Option.map_eq_some_iff.1 hg
    exact (appendVector_silent hr).durable.2 hd
  | appendVector data written =>
    refine iff_of_true (fun g hg => ?_) trivial
    obtain ⟨r, hr, rfl⟩ := Option.map_eq_some_iff.1 hg
    exact (appendVector_silent hr).durable.2 hd
  | preAllocate size fallocate =>
    refine iff_of_true (fun g hg => ?_) trivial
    obtain ⟨r, hr, rfl⟩ := Option.map_eq_some_iff.1 hg
    exact (preAllocate_silent hr).durable.2 hd
  | flush syncFileRange =>
    refine iff_of_true (fun g hg => ?_) trivial
    obtain ⟨r, hr, rfl⟩ := Option.map_eq_some_iff.1 hg
    exact (flush_silent hr).durable.2 hd
  | sync synced =>
    have hP : NothingSkipped flags f (.sync synced) ↔ NothingLeft flags f := Iff.rfl
    rw [hP, ← sync_durable h hd synced]
    constructor
    · intro hall r hr
      exact hall _ (Option.map_eq_some_iff.2 ⟨r, hr, rfl⟩)
    · intro hall g hg
      obtain ⟨r, hr, rfl⟩ := Option.map_eq_some_iff.1 hg
      exact hall r hr
  | close o =>
    by_cases hsync : f.syncOnClose = true
    · rw [← close_durable h hd hsync o]
      constructor
      · intro hall r hr
        have hg := hall (if f.syncOnClose then promise r else r.2) (Option.map_eq_some_iff.2 ⟨r, hr, rfl⟩)
        rwa [if_pos hsync] at hg
      · intro hall g hg
        obtain ⟨r, hr, rfl⟩ := Option.map_eq_some_iff.1 hg
        rw [if_pos hsync]
        exact hall r hr
    · refine iff_of_true (fun g hg => ?_) fun hs => absurd hs hsync
      obtain ⟨r, hr, rfl⟩ := Option.map_eq_some_iff.1 hg
      rw [if_neg hsync]
      exact (close_silent hr).durable.2 hd

/-! ## Witnesses -/

/-- three bytes are appended; the first `Sync` fails, the second one returns OK -/
def retriedSync : List Op :=
  [.append [1, 2, 3] [.ok 3], .sync (.error (.other 28)), .sync (.ok ())]

/-- **A retry that syncs nothing.** The second `Sync` finds `pending_sync_` cleared and returns OK without an fsync. -/
theorem retried_sync_loses_bytes :
    let m := writableFile defaultFlags "f" 0 false
    ∃ f, m.run m.init retriedSync = some f ∧
      f.log = [.durableReturn, .synced .fsync false, .appended 3] ∧ ¬ Durable f.log := by
  refine ⟨_, rfl, by decide, fun h => ?_⟩
  have hcovered : Covered [.synced .fsync false, .appended 3] := h.1
  exact absurd hcovered.1 (by decide)

/-- ten bytes are preallocated, three appended and synced; `Close` truncates the file and finds nothing to sync -/
def preallocatedClose : List Op :=
  [.preAllocate 10 (.ok ()), .append [1, 2, 3] [.ok 3], .sync (.ok ()), .close ⟨.ok (), .ok (), .ok ()⟩]

/-- **A truncation that is not synced.** `Close` with sync_on_close returns OK without an fsync after its truncation. -/
theorem close_skips_truncation :
    let m := writableFile defaultFlags "f" 0 true
    ∃ f, m.run m.init preallocatedClose = some f ∧
      f.log = [.durableReturn, .truncated, .durableReturn, .synced .fsync true, .appended 3] ∧ ¬ Durable f.log := by
  refine ⟨_, rfl, by decide, fun h => ?_⟩
  have hcovered : Covered [.truncated, .durableReturn, .synced .fsync true, .appended 3] := h.1
  exact hcovered

end Bboy.EnvPosix.Writable
