/-
`Status` of `base/status.h` as a value: OK, or a bad status with its code, message and POSIX code. The byte array behind
`state_` is that of `Base/StatusState.lean`; the code modelled on top of this file reads `ok()`, the code and the message,
and calls `CloneAndPrepend`. A function that yields a value or a bad status returns `Except BadStatus`, so an error is never
OK.
-/
import Mathlib.Tactic

namespace Bboy

inductive StatusCode where
  | notFound
  | corruption
  | notSupported
  | invalidArgument
  | ioError
  | alreadyPresent
  | runtimeError
  | networkError
  | illegalState
  | notAuthorized
  | aborted
  | remoteError
  | serviceUnavailable
  | timedOut
  | uninitialized
  | configurationError
  | incomplete
  | endOfFile
deriving DecidableEq, Repr

structure BadStatus where
  code : StatusCode
  message : String
  posixCode : ℤ
deriving DecidableEq, Repr

inductive Status where
  | ok
  | bad (e : BadStatus)
deriving DecidableEq, Repr

namespace BadStatus

def corruption (msg : String) : BadStatus := ⟨.corruption, msg, -1⟩

def notSupported (msg : String) : BadStatus := ⟨.notSupported, msg, -1⟩

def invalidArgument (msg : String) : BadStatus := ⟨.invalidArgument, msg, -1⟩

def runtimeError (msg : String) : BadStatus := ⟨.runtimeError, msg, -1⟩

def illegalState (msg : String) : BadStatus := ⟨.illegalState, msg, -1⟩

def serviceUnavailable (msg : String) : BadStatus := ⟨.serviceUnavailable, msg, -1⟩

def uninitialized (msg : String) : BadStatus := ⟨.uninitialized, msg, -1⟩

def timedOut (msg : String) : BadStatus := ⟨.timedOut, msg, -1⟩

/-- two texts joined by a colon, or the first alone if the second is empty -/
def joined (msg msg2 : String) : String := if msg2 = "" then msg else msg ++ ": " ++ msg2

def notFound (msg msg2 : String) (posixCode : ℤ) : BadStatus := ⟨.notFound, joined msg msg2, posixCode⟩

def alreadyPresent (msg msg2 : String) (posixCode : ℤ) : BadStatus := ⟨.alreadyPresent, joined msg msg2, posixCode⟩

def notSupportedErrno (msg msg2 : String) (posixCode : ℤ) : BadStatus := ⟨.notSupported, joined msg msg2, posixCode⟩

def ioError (msg msg2 : String) (posixCode : ℤ) : BadStatus := ⟨.ioError, joined msg msg2, posixCode⟩

def networkError (msg msg2 : String) (posixCode : ℤ) : BadStatus := ⟨.networkError, joined msg msg2, posixCode⟩

def incomplete (msg : String) : BadStatus := ⟨.incomplete, msg, -1⟩

def notAuthorized (msg msg2 : String) : BadStatus := ⟨.notAuthorized, joined msg msg2, -1⟩

def runtimeErrorWith (msg msg2 : String) : BadStatus := ⟨.runtimeError, joined msg msg2, -1⟩

/-- the old message follows after a colon unless it is empty -/
def cloneAndPrepend (e : BadStatus) (msg : String) : BadStatus :=
  { e with message := if e.message = "" then msg else msg ++ ": " ++ e.message }

end BadStatus

namespace Status

def isUninitialized : Status → Bool
  | .ok => false
  | .bad e => e.code = .uninitialized

end Status

end Bboy
