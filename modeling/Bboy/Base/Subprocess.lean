/-
Lean model of `Subprocess` (`bboy/base/process/subprocess.{h,cc}`) and of the descriptors and children of its process.

The environment answers every system call. A descriptor or process id that is free may come back, so the kernel's
tables count acquisitions (`Core.Ledger`). A failed `CHECK` or `PCHECK`, unexpected data from the sync pipe and a read
that does not return end a run (`none`); `LOG(DFATAL)` logs. What the child does is seen through the sync pipe and
`waitpid` only. `OpenProcFdDir` does not notice that `opendir` failed: `Start` goes on without a directory stream, and the
child dies at a `PCHECK` before its exec.

- `start_handover`, `doWait_handover`, `destroy_handover`: what a call does to what its object has.
- `conserved`: in every run in which `fork` and the read from the sync pipe do not fail (EINTR aside) and the `waitpid` of
  no destructor is interrupted, all descriptors are closed once and all children reaped when the objects are gone.
- `not_conserved`: a failed `fork`, a failed read and an interrupted destructor.
Witness: `conserved_cat`.
-/
import Bboy.Base.EnvPosix
import Bboy.Core.Ledger
import Bboy.Core.Machine

namespace Bboy.Process

open Core EnvPosix

/-! ## Model -/

inductive Stream where
  | stdin
  | stdout
  | stderr
deriving DecidableEq, Repr

inductive State where
  | notStarted
  | running
  | exited
deriving DecidableEq, Repr

inductive StreamMode where
  | shared
  | disabled
  | piped
deriving DecidableEq, Repr

inductive WaitMode where
  | blocking
  | nonBlocking
deriving DecidableEq, Repr

/-- the status that `waitpid` stores -/
inductive WaitStatus where
  | exited (code : ℤ)
  | signaled (signal : ℤ)
  | other
deriving DecidableEq, Repr

structure Subprocess where
  program : String
  argv : List String
  state : State
  childPid : ℤ
  fdState : Stream → StreamMode
  childFds : Stream → ℤ
  /-- not set at first -/
  waitStatus : Option WaitStatus

def construct (program : String) (argv : List String) : Subprocess where
  program := program
  argv := argv
  state := .notStarted
  childPid := -1
  fdState
    | .stdin => .piped
    | _ => .shared
  childFds _ := -1
  waitStatus := none

/-- the open descriptors and the children that were not reaped -/
structure Kernel where
  files : Ledger ℤ
  children : Ledger ℤ
deriving DecidableEq, Repr

namespace Kernel

def openFd (k : Kernel) (fd : ℤ) : Option Kernel :=
  if 0 ≤ fd then (k.files.acquire fd).map fun files => { k with files := files } else none

/-- `none` for EBADF -/
def close (k : Kernel) (fd : ℤ) : Option Kernel := (k.files.release fd).map fun files => { k with files := files }

/-- a close whose result is not looked at -/
def closeIgnored (k : Kernel) (fd : ℤ) : Kernel := (k.close fd).getD k

def spawn (k : Kernel) (pid : ℤ) : Option Kernel :=
  (k.children.acquire pid).map fun children => { k with children := children }

def reap (k : Kernel) (pid : ℤ) : Option Kernel :=
  (k.children.release pid).map fun children => { k with children := children }

end Kernel

/-- `pipefd[0]` and `pipefd[1]` -/
structure Pipe where
  read : ℤ
  write : ℤ
deriving DecidableEq, Repr

/-- `PCHECK(pipe2(..) == 0)` -/
def pipe2 (k : Kernel) (result : Option Pipe) : Option (Pipe × Kernel) :=
  result.bind fun fds => (k.openFd fds.read).bind fun k => (k.openFd fds.write).map fun k => (fds, k)

def pipeIf (mode : StreamMode) (k : Kernel) (result : Option Pipe) : Option (Pipe × Kernel) :=
  if mode = .piped then pipe2 k result else some (⟨-1, -1⟩, k)

def closeIf (mode : StreamMode) (fd : ℤ) (k : Kernel) : Kernel := if mode = .piped then k.closeIgnored fd else k

/-- what `read` from the sync pipe returns -/
inductive SyncRead where
  | interrupted
  | eof
  | failed (err : Errno)
  | data
deriving DecidableEq, Repr

def SyncRead.isFailed : SyncRead → Bool
  | .failed _ => true
  | _ => false

/-- the answers to the system calls of `Start` -/
structure StartCalls where
  pipes : Stream → Option Pipe
  syncPipe : Option Pipe
  opendir : Except Errno ℤ
  fork : Except Errno ℤ
  reads : List SyncRead

/-- the loop around `read`; `none` if it does not end, and after data -/
def syncRead : List SyncRead → Option (Option Errno)
  | [] => none
  | .interrupted :: reads => syncRead reads
  | .eof :: _ => some none
  | .failed err :: _ => some (some err)
  | .data :: _ => none

structure Pipes where
  stdin : Pipe
  stdout : Pipe
  stderr : Pipe
  sync : Pipe
deriving DecidableEq, Repr

/-- "Keep parent's side of the pipes" -/
def Pipes.kept (pipes : Pipes) : Stream → ℤ
  | .stdin => pipes.stdin.write
  | .stdout => pipes.stdout.read
  | .stderr => pipes.stderr.read

def openPipes (p : Subprocess) (calls : StartCalls) (k : Kernel) : Option (Pipes × Kernel) :=
  (pipeIf (p.fdState .stdin) k (calls.pipes .stdin)).bind fun stdin =>
    (pipeIf (p.fdState .stdout) stdin.2 (calls.pipes .stdout)).bind fun stdout =>
      (pipeIf (p.fdState .stderr) stdout.2 (calls.pipes .stderr)).bind fun stderr =>
        (pipe2 stderr.2 calls.syncPipe).map fun sync => (⟨stdin.1, stdout.1, stderr.1, sync.1⟩, sync.2)

/-- `OpenProcFdDir`: the stream, null if `opendir` failed; `dir == nullptr` is tested of the address of the pointer -/
def openProcFdDir (k : Kernel) (opendir : Except Errno ℤ) : Option (Option ℤ × Kernel) :=
  match opendir with
  | .error _ => some (none, k)
  | .ok dir => (k.openFd dir).map fun k => (some dir, k)

/-- `fd_dir_closer`, which does nothing for a null pointer -/
def closeProcFdDir (dir : Option ℤ) (k : Kernel) : Kernel :=
  match dir with
  | none => k
  | some dir => k.closeIgnored dir

variable (errnoToString : Errno → String)

def runtimeError (msg : String) (err : Errno) : Status :=
  .bad ⟨.runtimeError, BadStatus.joined msg (errnoToString err), err.code⟩

/-- `Start` after `fork`, in the parent -/
def parentSide (p : Subprocess) (pipes : Pipes) (pid : ℤ) (reads : List SyncRead) (k : Kernel) :
    Option (Status × Subprocess × Kernel) :=
  let k := closeIf (p.fdState .stdin) pipes.stdin.read k
  let k := closeIf (p.fdState .stdout) pipes.stdout.write k
  let k := closeIf (p.fdState .stderr) pipes.stderr.write k
  let p := { p with childPid := pid, childFds := pipes.kept }
  (k.close pipes.sync.write).bind fun k =>
    (syncRead reads).bind fun result =>
      (k.close pipes.sync.read).map fun k =>
        match result with
        | none => (.ok, { p with state := .running }, k)
        | some err => (runtimeError errnoToString "Unexpected error from the sync pipe" err, p, k)

/-- the number of the state in messages -/
def State.number : State → String
  | .notStarted => "0"
  | .running => "1"
  | .exited => "2"

def illegalState (state : State) : Status := .bad (.illegalState (state.number ++ ": illegal sub-process state"))

def start (p : Subprocess) (calls : StartCalls) (k : Kernel) : Option (Status × Subprocess × Kernel) :=
  if p.state ≠ .notStarted then some (illegalState p.state, p, k)
  else if p.argv = [] then some (.bad (.invalidArgument "argv must have at least one elem"), p, k)
  else
    (openPipes p calls k).bind fun pipes =>
      (openProcFdDir pipes.2 calls.opendir).bind fun dir =>
        match calls.fork with
        | .error err => some (runtimeError errnoToString "Unable to fork" err, p, closeProcFdDir dir.1 dir.2)
        | .ok pid =>
          (dir.2.spawn pid).bind fun k =>
            (parentSide errnoToString p pipes.1 pid calls.reads k).map fun r =>
              (r.1, r.2.1, closeProcFdDir dir.1 r.2.2)

/-- what `waitpid` returns -/
inductive WaitResult where
  | reaped (status : WaitStatus)
  /-- the child is still running -/
  | zero
  | failed (err : Errno)
deriving DecidableEq, Repr

def WaitResult.isFailed : WaitResult → Bool
  | .failed _ => true
  | _ => false

/-- the status, `*wait_status`, and the object -/
def doWait (p : Subprocess) (mode : WaitMode) (result : WaitResult) (k : Kernel) :
    Option ((Status × Option WaitStatus) × Subprocess × Kernel) :=
  match p.state with
  | .exited => some ((.ok, p.waitStatus), p, k)
  | .notStarted => some ((illegalState p.state, none), p, k)
  | .running =>
    match result with
    | .failed err => some ((runtimeError errnoToString "Unable to wait on child" err, none), p, k)
    -- CHECK_EQ(rc, child_pid_)
    | .zero => if mode = .nonBlocking then some ((.bad (.timedOut ""), none), p, k) else none
    | .reaped status =>
      if status = .other then none
      else
        (k.reap p.childPid).map fun k =>
          ((.ok, some status), { p with childPid := -1, waitStatus := some status, state := .exited }, k)

def kill (p : Subprocess) (result : Option Errno) : Status × Subprocess :=
  if p.state ≠ .running then (.bad (.illegalState "Sub-process is not running"), p)
  else
    match result with
    | none => (.ok, p)
    | some err => (runtimeError errnoToString "Unable to kill" err, p)

def disable (p : Subprocess) (stream : Stream) : Option Subprocess :=
  if p.state = .notStarted then some { p with fdState := Function.update p.fdState stream .disabled } else none

def disableStdout (p : Subprocess) : Option Subprocess := disable p .stdout

def disableStderr (p : Subprocess) : Option Subprocess := disable p .stderr

def setFdShared (p : Subprocess) (stream : Stream) (share : Bool) : Option Subprocess :=
  if p.state = .notStarted ∧ p.fdState stream ≠ .disabled then
    some { p with fdState := Function.update p.fdState stream (if share then .shared else .piped) }
  else none

/-- the descriptor goes to the caller -/
def releaseChildFd (p : Subprocess) (stream : Stream) (k : Kernel) : Option (Subprocess × Kernel) :=
  if p.state = .running ∧ 0 ≤ p.childFds stream ∧ p.fdState stream = .piped then
    (k.files.give (p.childFds stream)).map fun files =>
      ({ p with childFds := Function.update p.childFds stream (-1) }, { k with files := files })
  else none

def closeChildFd (p : Subprocess) (stream : Stream) (k : Kernel) : Kernel :=
  if p.fdState stream = .piped ∧ 0 ≤ p.childFds stream then k.closeIgnored (p.childFds stream) else k

/-- the results of `Kill` and `Wait` are logged -/
def destroy (p : Subprocess) (wait : WaitResult) (k : Kernel) : Option Kernel :=
  let r := if p.state = .running then (doWait errnoToString p .blocking wait k).map Prod.snd else some (p, k)
  r.map fun r => closeChildFd r.1 .stderr (closeChildFd r.1 .stdout (closeChildFd r.1 .stdin r.2))

/-! ## Runs -/

inductive Op where
  | construct (program : String) (argv : List String)
  | disableStdout (i : ℕ)
  | disableStderr (i : ℕ)
  /-- `ShareParentStdin` and its siblings -/
  | shareParent (i : ℕ) (stream : Stream) (share : Bool)
  | start (i : ℕ) (calls : StartCalls)
  | wait (i : ℕ) (mode : WaitMode) (result : WaitResult)
  | kill (i : ℕ) (result : Option Errno)
  | releaseChildFd (i : ℕ) (stream : Stream)
  | destroy (i : ℕ) (wait : WaitResult)
  /-- the caller closes a descriptor that it was given -/
  | closeReleased (fd : ℤ)

/-- the objects, those that are gone included -/
structure Parent where
  objects : List (Option Subprocess)
  kernel : Kernel

/-- a call on an object that is there -/
def Parent.call (s : Parent) (i : ℕ) (f : Subprocess → Option (Option Subprocess × Kernel)) : Option Parent :=
  s.objects[i]?.join.bind fun p => (f p).map fun r => ⟨s.objects.set i r.1, r.2⟩

def step (s : Parent) : Op → Option Parent
  | .construct program argv => some { s with objects := s.objects ++ [some (construct program argv)] }
  | .disableStdout i => s.call i fun p => (disableStdout p).map fun p => (some p, s.kernel)
  | .disableStderr i => s.call i fun p => (disableStderr p).map fun p => (some p, s.kernel)
  | .shareParent i stream share => s.call i fun p => (setFdShared p stream share).map fun p => (some p, s.kernel)
  | .start i calls => s.call i fun p => (start errnoToString p calls s.kernel).map fun r => (some r.2.1, r.2.2)
  | .wait i mode result =>
    s.call i fun p => (doWait errnoToString p mode result s.kernel).map fun r => (some r.2.1, r.2.2)
  | .kill i result => s.call i fun p => some (some (kill errnoToString p result).2, s.kernel)
  | .releaseChildFd i stream => s.call i fun p => (releaseChildFd p stream s.kernel).map fun r => (some r.1, r.2)
  | .destroy i wait => s.call i fun p => (destroy errnoToString p wait s.kernel).map fun k => (none, k)
  | .closeReleased fd =>
    (s.kernel.files.dropLent fd).map fun files => { s with kernel := { s.kernel with files := files } }

def machine : Machine Parent Op where
  init := ⟨[], ⟨.empty, .empty⟩⟩
  step := step errnoToString

/-- when the objects are gone, every descriptor that was not given away was closed once, and every child was reaped -/
def Conserved (s : Parent) : Prop :=
  (∀ o ∈ s.objects, o = none) →
    (∀ n < s.kernel.files.next, s.kernel.files.released.count n = if n ∈ s.kernel.files.given then 0 else 1) ∧
      ∀ n < s.kernel.children.next, s.kernel.children.released.count n = 1

/-- `fork` and the read from the sync pipe, once it is not interrupted, do not fail -/
def StartCalls.Succeed (calls : StartCalls) : Prop :=
  calls.fork.isOk ∧ ((calls.reads.find? (· ≠ .interrupted)).all fun read => !read.isFailed)

/-- the calls that `Start` makes succeed, and the `waitpid` of a destructor does not fail -/
def Smooth (s : Parent) : Op → Prop
  | .start i calls => ∀ p ∈ s.objects[i]?.join, p.state = .notStarted → p.argv ≠ [] → calls.Succeed
  | .destroy i wait => ∀ p ∈ s.objects[i]?.join, p.state = .running → ¬wait.isFailed
  | _ => True

instance (calls : StartCalls) : Decidable calls.Succeed := inferInstanceAs (Decidable (_ ∧ _))

instance (s : Parent) : ∀ op, Decidable (Smooth s op)
  | .start i calls =>
    inferInstanceAs (Decidable (∀ p ∈ s.objects[i]?.join, p.state = .notStarted → p.argv ≠ [] → calls.Succeed))
  | .destroy i wait => inferInstanceAs (Decidable (∀ p ∈ s.objects[i]?.join, p.state = .running → ¬wait.isFailed))
  | .construct .. => isTrue trivial
  | .disableStdout _ => isTrue trivial
  | .disableStderr _ => isTrue trivial
  | .shareParent .. => isTrue trivial
  | .wait .. => isTrue trivial
  | .kill .. => isTrue trivial
  | .releaseChildFd .. => isTrue trivial
  | .closeReleased _ => isTrue trivial

/-! ## Descriptors and children of a call -/

/-- the kernel's tables, with the descriptors and children that somebody has -/
structure Holds (k : Kernel) (fds pids : Multiset ℤ) : Prop where
  files : k.files.Accounts fds
  children : k.children.Accounts pids
  notGiven : k.children.given = []

variable {errnoToString : Errno → String} {k k' : Kernel} {fds pids : Multiset ℤ} {fd pid : ℤ} {p p' : Subprocess}

theorem openFd_some (hopen : k.openFd fd = some k') :
    0 ≤ fd ∧ ∃ files, k.files.acquire fd = some files ∧ k' = { k with files := files } := by
  rw [Kernel.openFd] at hopen
  split at hopen
  · obtain ⟨files, hfiles, rfl⟩ := Option.map_eq_some_iff.1 hopen
    exact ⟨‹0 ≤ fd›, files, hfiles, rfl⟩
  · exact absurd hopen (by simp)

theorem Holds.openFd (h : Holds k fds pids) (hopen : k.openFd fd = some k') : Holds k' ({fd} + fds) pids := by
  obtain ⟨-, files, hfiles, rfl⟩ := openFd_some hopen
  exact ⟨h.files.acquire hfiles, h.children, h.notGiven⟩

theorem Holds.close (h : Holds k ({fd} + fds) pids) : ∃ k', k.close fd = some k' ∧ Holds k' fds pids := by
  obtain ⟨files, hfiles, haccounts⟩ := h.files.release
  exact ⟨{ k with files := files }, by rw [Kernel.close, hfiles, Option.map_some], haccounts, h.children, h.notGiven⟩

theorem Holds.closeIgnored (h : Holds k ({fd} + fds) pids) : Holds (k.closeIgnored fd) fds pids := by
  obtain ⟨k', hk, h'⟩ := h.close
  rw [Kernel.closeIgnored, hk]
  exact h'

theorem Holds.spawn (h : Holds k fds pids) (hspawn : k.spawn pid = some k') : Holds k' fds ({pid} + pids) := by
  obtain ⟨children, hchildren, rfl⟩ := Option.map_eq_some_iff.1 hspawn
  exact ⟨h.files, h.children.acquire hchildren, (Ledger.acquire_given hchildren).trans h.notGiven⟩

theorem Holds.reap (h : Holds k fds ({pid} + pids)) : ∃ k', k.reap pid = some k' ∧ Holds k' fds pids := by
  obtain ⟨children, hchildren, haccounts⟩ := h.children.release
  exact ⟨{ k with children := children }, by rw [Kernel.reap, hchildren, Option.map_some], h.files, haccounts,
    (Ledger.release_given hchildren).trans h.notGiven⟩

/-- the descriptor of a directory stream -/
def dirFd (dir : Option ℤ) : Multiset ℤ := dir.elim 0 fun fd => {fd}

theorem Holds.openProcFdDir (h : Holds k fds pids) {opendir : Except Errno ℤ} {r : Option ℤ × Kernel}
    (hopen : openProcFdDir k opendir = some r) : Holds r.2 (dirFd r.1 + fds) pids := by
  cases opendir with
  | error err =>
    obtain rfl := Option.some.inj hopen
    rw [dirFd, Option.elim_none, zero_add]
    exact h
  | ok dir =>
    obtain ⟨k', hk', rfl⟩ := Option.map_eq_some_iff.1 hopen
    exact h.openFd hk'

theorem Holds.closeProcFdDir {dir : Option ℤ} (h : Holds k (dirFd dir + fds) pids) :
    Holds (closeProcFdDir dir k) fds pids := by
  cases dir with
  | none =>
    rw [dirFd, Option.elim_none, zero_add] at h
    exact h
  | some fd => exact h.closeIgnored

/-- a descriptor that there is only for a stream that is piped -/
def ifPiped (mode : StreamMode) (fd : ℤ) : Multiset ℤ := if mode = .piped then {fd} else 0

theorem pipe2_some {result : Option Pipe} {r : Pipe × Kernel} (hpipe : pipe2 k result = some r) :
    ∃ k₁, k.openFd r.1.read = some k₁ ∧ k₁.openFd r.1.write = some r.2 := by
  obtain ⟨pipe, -, hpipe⟩ := Option.bind_eq_some_iff.1 hpipe
  obtain ⟨k₁, hread, hpipe⟩ := Option.bind_eq_some_iff.1 hpipe
  obtain ⟨k₂, hwrite, rfl⟩ := Option.map_eq_some_iff.1 hpipe
  exact ⟨k₁, hread, hwrite⟩

theorem Holds.pipe2 (h : Holds k fds pids) {result : Option Pipe} {r : Pipe × Kernel}
    (hpipe : pipe2 k result = some r) : Holds r.2 ({r.1.write} + ({r.1.read} + fds)) pids := by
  obtain ⟨k₁, hread, hwrite⟩ := pipe2_some hpipe
  exact (h.openFd hread).openFd hwrite

theorem pipeIf_nonneg {mode : StreamMode} {result : Option Pipe} {r : Pipe × Kernel}
    (hpipe : pipeIf mode k result = some r) (hmode : mode = .piped) : 0 ≤ r.1.read ∧ 0 ≤ r.1.write := by
  rw [pipeIf, if_pos hmode] at hpipe
  obtain ⟨k₁, hread, hwrite⟩ := pipe2_some hpipe
  exact ⟨(openFd_some hread).1, (openFd_some hwrite).1⟩

theorem Holds.pipeIf (h : Holds k fds pids) {mode : StreamMode} {result : Option Pipe} {r : Pipe × Kernel}
    (hpipe : pipeIf mode k result = some r) :
    Holds r.2 (ifPiped mode r.1.write + (ifPiped mode r.1.read + fds)) pids := by
  rw [Process.pipeIf] at hpipe
  split at hpipe
  · simp only [ifPiped, if_pos ‹mode = .piped›]
    exact h.pipe2 hpipe
  · obtain rfl := Option.some.inj hpipe
    simp only [ifPiped, if_neg ‹¬mode = .piped›, zero_add]
    exact h

theorem Holds.closeIf {mode : StreamMode} (h : Holds k (ifPiped mode fd + fds) pids) :
    Holds (closeIf mode fd k) fds pids := by
  rw [Process.closeIf]
  rw [ifPiped] at h
  split_ifs with hmode
  · rw [if_pos hmode] at h
    exact h.closeIgnored
  · rw [if_neg hmode, zero_add] at h
    exact h

/-- the descriptor that the destructor closes for a stream -/
def ownFd (p : Subprocess) (stream : Stream) : Multiset ℤ :=
  if p.fdState stream = .piped ∧ 0 ≤ p.childFds stream then {p.childFds stream} else 0

def ownFds : Option Subprocess → Multiset ℤ
  | none => 0
  | some p => ownFd p .stdin + (ownFd p .stdout + ownFd p .stderr)

def ownPids : Option Subprocess → Multiset ℤ
  | none => 0
  | some p => if p.state = .running then {p.childPid} else 0

/-- an object that was not started has no descriptors -/
def Unstarted : Option Subprocess → Prop
  | none => True
  | some p => p.state = .notStarted → ∀ stream, p.childFds stream = -1

/-- a call changes the tables by what it changes of its object -/
def Handover (o : Option Subprocess) (k : Kernel) (o' : Option Subprocess) (k' : Kernel) : Prop :=
  Unstarted o' ∧ ∀ fds pids, Holds k (ownFds o + fds) (ownPids o + pids) → Holds k' (ownFds o' + fds) (ownPids o' + pids)

theorem Handover.refl {o : Option Subprocess} (h : Unstarted o) : Handover o k o k := ⟨h, fun _ _ h => h⟩

theorem Holds.of_eq (h : Holds k fds pids) {fds' : Multiset ℤ} (heq : fds = fds') : Holds k fds' pids := heq ▸ h

/-! ## Start -/

/-- what the parent closes after `fork` -/
def childEnds (p : Subprocess) (pipes : Pipes) : Multiset ℤ :=
  ifPiped (p.fdState .stdin) pipes.stdin.read +
    (ifPiped (p.fdState .stdout) pipes.stdout.write + ifPiped (p.fdState .stderr) pipes.stderr.write)

/-- what the parent keeps -/
def parentEnds (p : Subprocess) (pipes : Pipes) : Multiset ℤ :=
  ifPiped (p.fdState .stdin) pipes.stdin.write +
    (ifPiped (p.fdState .stdout) pipes.stdout.read + ifPiped (p.fdState .stderr) pipes.stderr.read)

/-- both ends of every pipe are open -/
theorem Holds.openPipes (h : Holds k fds pids) {calls : StartCalls} {r : Pipes × Kernel}
    (hpipes : openPipes p calls k = some r) :
    Holds r.2 (childEnds p r.1 + ({r.1.sync.write} + ({r.1.sync.read} + (parentEnds p r.1 + fds)))) pids := by
  obtain ⟨stdin, hstdin, hpipes⟩ := Option.bind_eq_some_iff.1 hpipes
  obtain ⟨stdout, hstdout, hpipes⟩ := Option.bind_eq_some_iff.1 hpipes
  obtain ⟨stderr, hstderr, hpipes⟩ := Option.bind_eq_some_iff.1 hpipes
  obtain ⟨sync, hsync, rfl⟩ := Option.map_eq_some_iff.1 hpipes
  apply ((((h.pipeIf hstdin).pipeIf hstdout).pipeIf hstderr).pipe2 hsync).of_eq
  rw [childEnds, parentEnds]
  abel

theorem openPipes_nonneg {calls : StartCalls} {r : Pipes × Kernel} (hpipes : openPipes p calls k = some r)
    (stream : Stream) (hmode : p.fdState stream = .piped) : 0 ≤ r.1.kept stream := by
  obtain ⟨stdin, hstdin, hpipes⟩ := Option.bind_eq_some_iff.1 hpipes
  obtain ⟨stdout, hstdout, hpipes⟩ := Option.bind_eq_some_iff.1 hpipes
  obtain ⟨stderr, hstderr, hpipes⟩ := Option.bind_eq_some_iff.1 hpipes
  obtain ⟨sync, hsync, rfl⟩ := Option.map_eq_some_iff.1 hpipes
  cases stream with
  | stdin => exact (pipeIf_nonneg hstdin hmode).2
  | stdout => exact (pipeIf_nonneg hstdout hmode).1
  | stderr => exact (pipeIf_nonneg hstderr hmode).1

theorem syncRead_eof {reads : List SyncRead} {result : Option Errno} (h : syncRead reads = some result)
    (hread : (reads.find? (· ≠ .interrupted)).all fun read => !read.isFailed) : result = none := by
  induction reads with
  | nil => cases h
  | cons read reads ih =>
    cases read with
    | interrupted => exact ih h hread
    | eof => exact (Option.some.inj h).symm
    | failed err => exact absurd hread (by simp [SyncRead.isFailed])
    | data => cases h

/-- after the end of file on the sync pipe -/
def started (p : Subprocess) (pipes : Pipes) (pid : ℤ) : Subprocess :=
  { p with childPid := pid, childFds := pipes.kept, state := .running }

/-- the parent closes the child's ends and the sync pipe -/
theorem parentSide_eof {pipes : Pipes} {reads : List SyncRead} {r : Status × Subprocess × Kernel}
    (hread : (reads.find? (· ≠ .interrupted)).all fun read => !read.isFailed)
    (hr : parentSide errnoToString p pipes pid reads k = some r) :
    r.2.1 = started p pipes pid ∧ ∀ fds pids,
      Holds k (childEnds p pipes + ({pipes.sync.write} + ({pipes.sync.read} + fds))) pids → Holds r.2.2 fds pids := by
  obtain ⟨k₁, hwrite, hr⟩ := Option.bind_eq_some_iff.1 hr
  obtain ⟨result, hresult, hr⟩ := Option.bind_eq_some_iff.1 hr
  obtain ⟨k₂, hclose, rfl⟩ := Option.map_eq_some_iff.1 hr
  obtain rfl := syncRead_eof hresult hread
  refine ⟨rfl, fun fds pids h => ?_⟩
  rw [childEnds, add_assoc, add_assoc] at h
  obtain ⟨k₁', hwrite', h₁⟩ := h.closeIf.closeIf.closeIf.close
  obtain rfl := Option.some.inj (hwrite.symm.trans hwrite')
  obtain ⟨k₂', hclose', h₂⟩ := h₁.close
  obtain rfl := Option.some.inj (hclose.symm.trans hclose')
  exact h₂

/-- a running object owns its ends of the pipes -/
theorem ownFds_started {pipes : Pipes} (hpos : ∀ stream, p.fdState stream = .piped → 0 ≤ pipes.kept stream) :
    ownFds (some (started p pipes pid)) = parentEnds p pipes := by
  have hown : ∀ stream, ownFd (started p pipes pid) stream = ifPiped (p.fdState stream) (pipes.kept stream) := by
    intro stream
    rw [ownFd, ifPiped, started]
    by_cases hmode : p.fdState stream = .piped
    · rw [if_pos ⟨hmode, hpos stream hmode⟩, if_pos hmode]
    · rw [if_neg fun h => hmode h.1, if_neg hmode]
  rw [ownFds, hown, hown, hown]
  rfl

theorem ownFds_unstarted (h : Unstarted (some p)) (hstate : p.state = .notStarted) : ownFds (some p) = 0 := by
  have hown : ∀ stream, ownFd p stream = 0 := by
    intro stream
    rw [ownFd, h hstate stream, if_neg]
    rintro ⟨-, hpos⟩
    exact absurd hpos (by decide)
  rw [ownFds, hown, hown, hown]
  rfl

theorem start_handover {calls : StartCalls} {r : Status × Subprocess × Kernel}
    (hr : start errnoToString p calls k = some r) (hp : Unstarted (some p))
    (hsmooth : p.state = .notStarted → p.argv ≠ [] → calls.Succeed) :
    Handover (some p) k (some r.2.1) r.2.2 := by
  rw [start] at hr
  split_ifs at hr with hstate hargv
  · obtain rfl := Option.some.inj hr
    exact .refl hp
  · obtain rfl := Option.some.inj hr
    exact .refl hp
  · rw [not_not] at hstate
    obtain ⟨hfork, hread⟩ := hsmooth hstate hargv
    obtain ⟨pipes, hpipes, hr⟩ := Option.bind_eq_some_iff.1 hr
    obtain ⟨dir, hdir, hr⟩ := Option.bind_eq_some_iff.1 hr
    cases hpid : calls.fork with
    | error err =>
      rw [hpid] at hfork
      cases hfork
    | ok pid =>
      rw [hpid] at hr
      obtain ⟨k₂, hspawn, hr⟩ := Option.bind_eq_some_iff.1 hr
      obtain ⟨r', hparent, rfl⟩ := Option.map_eq_some_iff.1 hr
      obtain ⟨hobject, hclosed⟩ := parentSide_eof hread hparent
      rw [hobject]
      refine ⟨fun h => absurd h (by simp [started]), fun fds pids h => ?_⟩
      rw [ownFds_unstarted hp hstate, zero_add, ownPids, hstate, if_neg (by simp), zero_add] at h
      have hready : Holds k₂ (childEnds p pipes.1 + ({pipes.1.sync.write} + ({pipes.1.sync.read} +
          (dirFd dir.1 + (parentEnds p pipes.1 + fds))))) ({pid} + pids) := by
        apply (((h.openPipes hpipes).openProcFdDir hdir).spawn hspawn).of_eq
        abel
      rw [ownFds_started (openPipes_nonneg hpipes)]
      exact (hclosed _ _ hready).closeProcFdDir

/-! ## The other calls -/

theorem doWait_handover {mode : WaitMode} {result : WaitResult} {r : (Status × Option WaitStatus) × Subprocess × Kernel}
    (hr : doWait errnoToString p mode result k = some r) (hp : Unstarted (some p)) :
    Handover (some p) k (some r.2.1) r.2.2 := by
  unfold doWait at hr
  cases hstate : p.state with
  | exited =>
    rw [hstate] at hr
    obtain rfl := Option.some.inj hr
    exact .refl hp
  | notStarted =>
    rw [hstate] at hr
    obtain rfl := Option.some.inj hr
    exact .refl hp
  | running =>
    rw [hstate] at hr
    cases result with
    | failed err =>
      obtain rfl := Option.some.inj hr
      exact .refl hp
    | zero =>
      simp only at hr
      split_ifs at hr
      obtain rfl := Option.some.inj hr
      exact .refl hp
    | reaped status =>
      simp only at hr
      split_ifs at hr
      obtain ⟨k', hreap, rfl⟩ := Option.map_eq_some_iff.1 hr
      refine ⟨fun h => absurd h (by simp), fun fds pids h => ?_⟩
      rw [ownPids, if_pos hstate] at h
      obtain ⟨k'', hreap', h⟩ := h.reap
      obtain rfl := Option.some.inj (hreap.symm.trans hreap')
      rw [ownPids, if_neg (by simp), zero_add]
      exact h

theorem doWait_blocking {result : WaitResult} {r : (Status × Option WaitStatus) × Subprocess × Kernel}
    (hr : doWait errnoToString p .blocking result k = some r) (hstate : p.state = .running)
    (hwait : ¬result.isFailed) : r.2.1.state = .exited := by
  unfold doWait at hr
  rw [hstate] at hr
  cases result with
  | failed err => exact absurd rfl hwait
  | zero => exact absurd hr (by simp)
  | reaped status =>
    simp only at hr
    split_ifs at hr
    obtain ⟨k', hreap, rfl⟩ := Option.map_eq_some_iff.1 hr
    rfl

theorem kill_object (result : Option Errno) : (kill errnoToString p result).2 = p := by
  unfold kill
  split
  · rfl
  · cases result <;> rfl

/-- the settings of an object that was not started -/
theorem setting_handover (hp : Unstarted (some p)) (hstate : p.state = .notStarted) (fdState : Stream → StreamMode) :
    Handover (some p) k (some { p with fdState := fdState }) k := by
  have hp' : Unstarted (some { p with fdState := fdState }) := hp
  refine ⟨hp', fun fds pids h => ?_⟩
  rw [ownFds_unstarted hp hstate] at h
  rw [ownFds_unstarted hp' hstate]
  exact h

theorem disable_handover {stream : Stream} (hdisable : disable p stream = some p') (hp : Unstarted (some p)) :
    Handover (some p) k (some p') k := by
  rw [disable] at hdisable
  split_ifs at hdisable with hstate
  obtain rfl := Option.some.inj hdisable
  exact setting_handover hp hstate _

theorem setFdShared_handover {stream : Stream} {share : Bool} (hshare : setFdShared p stream share = some p')
    (hp : Unstarted (some p)) : Handover (some p) k (some p') k := by
  rw [setFdShared] at hshare
  split_ifs at hshare with hstate
  all_goals
    obtain rfl := Option.some.inj hshare
    exact setting_handover hp hstate.1 _

theorem releaseChildFd_handover {stream : Stream} {r : Subprocess × Kernel}
    (hrelease : releaseChildFd p stream k = some r) : Handover (some p) k (some r.1) r.2 := by
  rw [releaseChildFd] at hrelease
  split_ifs at hrelease with hcheck
  obtain ⟨hstate, hpos, hmode⟩ := hcheck
  obtain ⟨files, hgive, rfl⟩ := Option.map_eq_some_iff.1 hrelease
  have hother : ∀ other, other ≠ stream →
      ownFd { p with childFds := Function.update p.childFds stream (-1) } other = ownFd p other := by
    intro other hne
    simp only [ownFd, Function.update_of_ne hne]
  have hgone : ownFd { p with childFds := Function.update p.childFds stream (-1) } stream = 0 := by
    simp [ownFd]
  have hown : ownFd p stream = {p.childFds stream} := by rw [ownFd, if_pos ⟨hmode, hpos⟩]
  have hsplit : ownFds (some p) =
      {p.childFds stream} + ownFds (some { p with childFds := Function.update p.childFds stream (-1) }) := by
    rw [← hown, ownFds, ownFds]
    cases stream with
    | stdin => rw [hgone, hother .stdout (by decide), hother .stderr (by decide), zero_add]
    | stdout =>
      rw [hgone, hother .stdin (by decide), hother .stderr (by decide)]
      abel
    | stderr =>
      rw [hgone, hother .stdin (by decide), hother .stdout (by decide)]
      abel
  refine ⟨fun h => absurd (hstate.symm.trans h) (by decide), fun fds pids h => ?_⟩
  rw [hsplit, add_assoc] at h
  obtain ⟨files', hgive', haccounts⟩ := h.files.give
  obtain rfl := Option.some.inj (hgive.symm.trans hgive')
  exact ⟨haccounts, h.children, h.notGiven⟩

theorem Holds.closeChildFd {stream : Stream} (h : Holds k (ownFd p stream + fds) pids) :
    Holds (closeChildFd p stream k) fds pids := by
  rw [Process.closeChildFd]
  rw [ownFd] at h
  split_ifs with hown
  · rw [if_pos hown] at h
    exact h.closeIgnored
  · rw [if_neg hown, zero_add] at h
    exact h

theorem destroy_handover {wait : WaitResult} (hdestroy : destroy errnoToString p wait k = some k')
    (hp : Unstarted (some p)) (hsmooth : p.state = .running → ¬wait.isFailed) :
    Handover (some p) k none k' := by
  obtain ⟨r, hr, rfl⟩ := Option.map_eq_some_iff.1 hdestroy
  have hwaited : Handover (some p) k (some r.1) r.2 ∧ r.1.state ≠ .running := by
    split_ifs at hr with hstate
    · obtain ⟨r', hwait, rfl⟩ := Option.map_eq_some_iff.1 hr
      refine ⟨doWait_handover hwait hp, ?_⟩
      rw [doWait_blocking hwait hstate (hsmooth hstate)]
      decide
    · obtain rfl := Option.some.inj hr
      exact ⟨.refl hp, hstate⟩
  refine ⟨trivial, fun fds pids h => ?_⟩
  have h₁ := hwaited.1.2 fds pids h
  rw [ownPids, if_neg hwaited.2, ownFds, add_assoc, add_assoc] at h₁
  rw [ownFds, ownPids, zero_add]
  exact h₁.closeChildFd.closeChildFd.closeChildFd

/-! ## Runs keep the accounts -/

/-- what the objects have is what is open, and the children that were not reaped are those of the running objects -/
structure Kept (s : Parent) : Prop where
  holds : Holds s.kernel (s.objects.map ownFds).sum (s.objects.map ownPids).sum
  unstarted : ∀ o ∈ s.objects, Unstarted o

variable {s t : Parent}

/-- a call keeps the accounts if it accounts for its object -/
theorem Kept.call (h : Kept s) {i : ℕ} {f : Subprocess → Option (Option Subprocess × Kernel)}
    (hcall : s.call i f = some t)
    (hf : ∀ p r, p ∈ s.objects[i]?.join → Unstarted (some p) → f p = some r →
      Handover (some p) s.kernel r.1 r.2) : Kept t := by
  obtain ⟨p, hp, hcall⟩ := Option.bind_eq_some_iff.1 hcall
  obtain ⟨r, hr, rfl⟩ := Option.map_eq_some_iff.1 hcall
  have hget := Option.join_eq_some_iff.1 hp
  obtain ⟨hunstarted, hholds⟩ := hf p r hp (h.unstarted _ (List.mem_of_getElem? hget)) hr
  obtain ⟨fds, hfds, hfds'⟩ := Ledger.sum_set ownFds hget
  obtain ⟨pids, hpids, hpids'⟩ := Ledger.sum_set ownPids hget
  refine ⟨?_, fun o ho => ?_⟩
  · have hbefore := h.holds
    rw [hfds, hpids] at hbefore
    rw [hfds', hpids']
    exact hholds fds pids hbefore
  · rcases List.mem_or_eq_of_mem_set ho with ho | rfl
    · exact h.unstarted o ho
    · exact hunstarted

theorem step_kept {op : Op} (h : Kept s) (hsmooth : Smooth s op) (hstep : step errnoToString s op = some t) :
    Kept t := by
  cases op with
  | construct program argv =>
    obtain rfl := Option.some.inj hstep
    refine ⟨?_, fun o ho => ?_⟩
    · simpa [ownFds, ownPids, ownFd, construct] using h.holds
    · rcases List.mem_append.1 ho with ho | ho
      · exact h.unstarted o ho
      · rw [List.mem_singleton.1 ho]
        exact fun _ _ => rfl
  | disableStdout i =>
    apply h.call hstep
    intro p r _ hp hr
    obtain ⟨p', hp', rfl⟩ := Option.map_eq_some_iff.1 hr
    exact disable_handover hp' hp
  | disableStderr i =>
    apply h.call hstep
    intro p r _ hp hr
    obtain ⟨p', hp', rfl⟩ := Option.map_eq_some_iff.1 hr
    exact disable_handover hp' hp
  | shareParent i stream share =>
    apply h.call hstep
    intro p r _ hp hr
    obtain ⟨p', hp', rfl⟩ := Option.map_eq_some_iff.1 hr
    exact setFdShared_handover hp' hp
  | start i calls =>
    apply h.call hstep
    intro p r hi hp hr
    obtain ⟨r', hr', rfl⟩ := Option.map_eq_some_iff.1 hr
    exact start_handover hr' hp (hsmooth p hi)
  | wait i mode result =>
    apply h.call hstep
    intro p r _ hp hr
    obtain ⟨r', hr', rfl⟩ := Option.map_eq_some_iff.1 hr
    exact doWait_handover hr' hp
  | kill i result =>
    apply h.call hstep
    intro p r _ hp hr
    obtain rfl := Option.some.inj hr
    rw [kill_object]
    exact .refl hp
  | releaseChildFd i stream =>
    apply h.call hstep
    intro p r _ _ hr
    obtain ⟨r', hr', rfl⟩ := Option.map_eq_some_iff.1 hr
    exact releaseChildFd_handover hr'
  | destroy i wait =>
    apply h.call hstep
    intro p r hi hp hr
    obtain ⟨k', hk', rfl⟩ := Option.map_eq_some_iff.1 hr
    exact destroy_handover hk' hp (hsmooth p hi)
  | closeReleased fd =>
    obtain ⟨files, hfiles, rfl⟩ := Option.map_eq_some_iff.1 hstep
    exact ⟨⟨h.holds.files.dropLent hfiles, h.holds.children, h.holds.notGiven⟩, h.unstarted⟩

theorem Kept.settled (h : Kept s) : Conserved s := by
  intro hgone
  have hfds : (s.objects.map ownFds).sum = 0 := List.sum_eq_zero fun fds hfds => by
    obtain ⟨o, ho, rfl⟩ := List.mem_map.1 hfds
    rw [hgone o ho, ownFds]
  have hpids : (s.objects.map ownPids).sum = 0 := List.sum_eq_zero fun pids hpids => by
    obtain ⟨o, ho, rfl⟩ := List.mem_map.1 hpids
    rw [hgone o ho, ownPids]
  have hholds := h.holds
  rw [hfds, hpids] at hholds
  refine ⟨fun n hn => hholds.files.released_once hn, fun n hn => ?_⟩
  rw [hholds.children.released_once hn, hholds.notGiven, if_neg (by simp)]

/-! ## Main result -/

/-- **Descriptors and children are conserved** in every state of a run in which `fork` and the read from the sync pipe do
not fail and no destructor is interrupted. -/
theorem conserved (errnoToString : Errno → String) (ops : List Op) (s : Parent)
    (hrun : (machine errnoToString).run (machine errnoToString).init ops = some s)
    (hsmooth : (machine errnoToString).Along Smooth (machine errnoToString).init ops) : Conserved s := by
  have hinit : Kept (machine errnoToString).init :=
    ⟨⟨Ledger.accounts_empty, Ledger.accounts_empty, rfl⟩, fun o ho => absurd ho List.not_mem_nil⟩
  have hkept : Kept s :=
    Machine.run_inv_along (I := Kept) (fun _ _ _ h hop hstep => step_kept h hop hstep) hinit hsmooth hrun
  exact hkept.settled

/-- `cat` with two pipes: an interrupted read and an interrupted `Wait`, a descriptor that is given away and closed, and
its number in use again by an object whose `opendir` fails and whose child dies -/
def catRun : List Op :=
  [.construct "cat" ["cat"], .shareParent 0 .stdout false,
    .start 0 ⟨fun | .stdin => some ⟨3, 4⟩ | _ => some ⟨5, 6⟩, some ⟨7, 8⟩, .ok 9, .ok 100, [.interrupted, .eof]⟩,
    .releaseChildFd 0 .stdin, .closeReleased 4, .wait 0 .blocking (.failed .eintr), .construct "true" ["true"],
    .start 1 ⟨fun _ => some ⟨3, 4⟩, some ⟨6, 7⟩, .error (.other 24), .ok 101, [.eof]⟩, .wait 0 .nonBlocking (.reaped (.exited 0)),
    .destroy 0 .zero, .destroy 1 (.reaped (.signaled 6))]

theorem conserved_cat : ∃ s, (machine fun _ => "").run (machine fun _ => "").init catRun = some s ∧ Conserved s ∧
    s.objects.length = 2 ∧ s.kernel.files.next = 11 ∧ s.kernel.children.next = 2 :=
  ⟨_, rfl, conserved (fun _ => "") catRun _ rfl (by decide), rfl, rfl, rfl⟩

/-- a run of one object -/
def oneRun (calls : StartCalls) (wait : WaitResult) : List Op :=
  [.construct "ls" ["ls"], .start 0 calls, .destroy 0 wait]

def lsCalls : StartCalls := ⟨fun _ => some ⟨3, 4⟩, some ⟨5, 6⟩, .ok 7, .ok 100, [.eof]⟩

/-- the object is gone after each run: `fork` failed, and the pipes are open; the read from the sync pipe failed, or the
`waitpid` of the destructor was interrupted, and the child was not reaped -/
theorem not_conserved :
    (∃ s, (machine fun _ => "").run (machine fun _ => "").init
        (oneRun { lsCalls with fork := .error (.other 11) } .zero) = some s ∧ ¬Conserved s) ∧
      (∃ s, (machine fun _ => "").run (machine fun _ => "").init
        (oneRun { lsCalls with reads := [.failed .eio] } .zero) = some s ∧ ¬Conserved s) ∧
      ∃ s, (machine fun _ => "").run (machine fun _ => "").init (oneRun lsCalls (.failed .eintr)) = some s ∧
        ¬Conserved s := by
  have hgone : ∀ o ∈ [(none : Option Subprocess)], o = none := fun _ => List.mem_singleton.1
  refine ⟨⟨⟨[none], ⟨⟨[(6, 3), (5, 2), (4, 1), (3, 0)], [], 5, [4], []⟩, .empty⟩⟩, rfl, fun h => ?_⟩,
    ⟨⟨[none], ⟨⟨[], [], 5, [1, 4, 2, 3, 0], []⟩, ⟨[(100, 0)], [], 1, [], []⟩⟩⟩, rfl, fun h => ?_⟩,
    ⟨⟨[none], ⟨⟨[], [], 5, [1, 4, 2, 3, 0], []⟩, ⟨[(100, 0)], [], 1, [], []⟩⟩⟩, rfl, fun h => ?_⟩⟩
  · exact absurd ((h hgone).1 0 (by decide)) (by decide)
  · exact absurd ((h hgone).2 0 (by decide)) (by decide)
  · exact absurd ((h hgone).2 0 (by decide)) (by decide)

end Bboy.Process
