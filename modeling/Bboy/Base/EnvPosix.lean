/-
What the files of `env_posix.cc` share: their bytes, system calls and their outcomes, `IOError`, and `DoSync`.

- A system call's outcome is decided by the environment; on a closed file (`fd_` is -1) it is EBADF.
- `RETRY_ON_EINTR` repeats a call until it ends otherwise, so an outcome EINTR of such a call is not enabled.
- `IOError` on EIO kills the process if `FLAGS_suicide_on_eio` is set: `none`.
- What is durable is decided by the order of the calls: a successful fsync covers what was changed before it started.
-/
import Bboy.Base.Status

namespace Bboy.EnvPosix

inductive Errno where
  | enoent
  | eexist
  | eopnotsupp
  | eio
  | enosys
  | eintr
  | ebadf
  | other (code : ℤ)
deriving DecidableEq, Repr

/-- the value of `errno` on Linux -/
def Errno.code : Errno → ℤ
  | .enoent => 2
  | .eexist => 17
  | .eopnotsupp => 95
  | .eio => 5
  | .enosys => 38
  | .eintr => 4
  | .ebadf => 9
  | .other code => code

/-- a file, of a length that an `off_t` holds -/
structure File where
  content : List UInt8
  size_lt : content.length < 2 ^ 63

/-- the flags that this code reads, and `ErrnoToString` -/
structure Flags where
  envUseFsync : Bool
  suicideOnEio : Bool
  neverFsync : Bool
  errnoToString : Errno → String

/-- `IOError(context, err_number)`; `none` when the process is killed -/
def ioError (flags : Flags) (context : String) (err : Errno) : Option BadStatus :=
  match err with
  | .enoent => some (.notFound context (flags.errnoToString err) err.code)
  | .eexist => some (.alreadyPresent context (flags.errnoToString err) err.code)
  | .eopnotsupp => some (.notSupportedErrno context (flags.errnoToString err) err.code)
  | .eio => if flags.suicideOnEio then none else some (.ioError context (flags.errnoToString err) err.code)
  | _ => some (.ioError context (flags.errnoToString err) err.code)

/-- a function that ends with `return IOError(..)` on an error -/
def failWith {σ : Type} (flags : Flags) (context : String) (err : Errno) (s : σ) : Option (Status × σ) :=
  (ioError flags context err).map fun e => (.bad e, s)

/-- the outcome of a call on the descriptor -/
def onFd {β : Type} (isOpen : Bool) (outcome : Except Errno β) : Except Errno β :=
  if isOpen then outcome else .error .ebadf

/-- the outcome of `RETRY_ON_EINTR`; `none` while the call is still repeated -/
def retryOnEintr {β : Type} (outcome : Except Errno β) : Option (Except Errno β) :=
  match outcome with
  | .error .eintr => none
  | outcome => some outcome

inductive SyncCall where
  | fsync
deriving DecidableEq, Repr

/-- `#define fdatasync fsync` -/
abbrev SyncCall.fdatasync : SyncCall := .fsync

/-- the call that `DoSync` makes, if any -/
def syncCall (flags : Flags) : Option SyncCall :=
  if flags.neverFsync then none else if flags.envUseFsync then some .fsync else some .fdatasync

/-- a system that reports no error texts, with the flags as by default -/
def defaultFlags : Flags := ⟨false, true, false, fun _ => ""⟩

end Bboy.EnvPosix
