/-
Lean model of `Subprocess::Call` and `ReadFdsFully` (`bboy/base/process/subprocess.cc`) behind a successful `Start`: the parent
beside its child, with a pipe for stdin and one for each stream that is asked for.

The child is any program (`Action`). A pipe holds `capacity` bytes; a write blocks while it is full, a read while it is empty
and somebody may still write. The event loop runs the helper of any stream that can be read. The descriptors and the child
process itself are those of `Subprocess.lean`; other processes do not hold the pipes.

- `Inv`: where the bytes of each stream are.
- `call_ok`: when `Call` returns OK, the child has exited with 0, and the strings are all that it wrote, in any order of the
  reads. Its stdin got all of `stdin_in`, or nothing of it: a write that fails with -1 is taken for a success.
- `call_progress`: while no read fails, the parent and the child do not wait for each other, if `stdin_in` fits into a pipe.
- `stuck`: if it does not, they may.
Witnesses: `call_ok_echo`, `call_progress_echo`.
-/
import Bboy.Base.Subprocess

namespace Bboy.Process.Call

open Core EnvPosix

/-! ## The child and the pipes -/

inductive Output where
  | stdout
  | stderr
  deriving DecidableEq, Repr

/-- how a process ends -/
inductive Termination where
  | exited (code : ℤ)
  | signaled (signal : ℤ)
  deriving DecidableEq, Repr

/-- what a program in a state does next -/
inductive Action (τ : Type) where
  | read (n : ℕ) (resume : List UInt8 → τ)
  | closeStdin (resume : τ)
  | write (out : Output) (bytes : List UInt8) (resume : τ)
  | close (out : Output) (resume : τ)
  | exit (status : Termination)

/-- the bytes in a pipe, and whether its ends are open -/
structure Channel where
  buffer : List UInt8
  writable : Bool
  readable : Bool
  deriving DecidableEq, Repr

inductive Child (τ : Type) where
  | running (action : Action τ)
  | exited (status : Termination)

/-! ## The parent -/

/-- `ReadFdsFullyHelper` -/
structure Helper where
  active : Bool
  output : List UInt8
  status : Status
  deriving DecidableEq, Repr

inductive Phase where
  /-- in the write to stdin, with the bytes that are left -/
  | writing (rest : List UInt8)
  /-- before the close of stdin -/
  | closing
  /-- in the event loop -/
  | reading
  | waiting
  | returned (s : Status)
  deriving DecidableEq, Repr

/-- what does not change during a call -/
structure Config (τ : Type) where
  program : τ → Action τ
  start : τ
  argv0 : String
  capacity : ℕ
  stdinIn : List UInt8
  /-- `stdout_out` and `stderr_out` are not null -/
  captured : Output → Bool
  errnoToString : Errno → String

structure St (τ : Type) where
  phase : Phase
  child : Child τ
  stdin : Channel
  out : Output → Channel
  helper : Output → Helper
  /-- `*stdout_out` and `*stderr_out` -/
  result : Output → Option (List UInt8)
  /-- ghost: what the child has read from stdin -/
  consumed : List UInt8
  /-- ghost: what the child has written to each stream -/
  wrote : Output → List UInt8

inductive Op where
  | child (n : ℕ)
  | write (n : ℕ)
  /-- the child does not read stdin any more; `errno` is what this holds behind the write -/
  | brokenPipe (errno : Errno)
  | writeInterrupted (errno : Errno)
  | closeStdin (outcome : Except Errno Unit)
  | read (out : Output)
  | readFailed (out : Output) (err : Errno)
  | loopEnds
  | wait
  | waitFailed (err : Errno)
  deriving DecidableEq, Repr

variable {τ : Type}

/-- the size of the buffer of a helper -/
def arraysize : ℕ := 1024

section steps

variable (cfg : Config τ) (s : St τ)

/-- the child goes on in a new state -/
def resume (t : τ) : St τ := { s with child := .running (cfg.program t) }

/-- the child moves; `n` bytes of a write that may block -/
def childStep (n : ℕ) : Option (St τ) :=
  match s.child with
  | .exited _ => none
  | .running (.read size next) =>
    if s.stdin.readable = false then some (resume cfg s (next []))
    else if s.stdin.buffer = [] ∧ s.stdin.writable then none
    else
      let bytes := s.stdin.buffer.take size
      some (resume cfg { s with
        stdin := { s.stdin with buffer := s.stdin.buffer.drop size }, consumed := s.consumed ++ bytes } (next bytes))
  | .running (.closeStdin next) => some (resume cfg { s with stdin := { s.stdin with readable := false } } next)
  | .running (.write out bytes next) =>
    if cfg.captured out = false ∨ (s.out out).writable = false ∨ bytes = [] then some (resume cfg s next)
    else if 0 < n ∧ n ≤ bytes.length ∧ (s.out out).buffer.length + n ≤ cfg.capacity then
      let pipe := { s.out out with buffer := (s.out out).buffer ++ bytes.take n }
      some { s with
        out := Function.update s.out out pipe
        wrote := Function.update s.wrote out (s.wrote out ++ bytes.take n)
        child := .running (.write out (bytes.drop n) next) }
    else none
  | .running (.close out next) =>
    some (resume cfg { s with out := Function.update s.out out { s.out out with writable := false } } next)
  | .running (.exit status) =>
    some { s with
      child := .exited status
      stdin := { s.stdin with readable := false }
      out := fun o => { s.out o with writable := false } }

def ioError (message : String) (err : Errno) : Status := .bad (.ioError message (cfg.errnoToString err) err.code)

/-- the write to stdin ends before all is written: with -1 if nothing is, and -1 is not less than a size_t -/
def writeEnds (errno : Errno) : Option (St τ) :=
  match s.phase with
  | .writing rest =>
    if rest = cfg.stdinIn then some { s with phase := .closing }
    else some { s with phase := .returned (ioError cfg "Unable to write to child process stdin" errno) }
  | _ => none

/-- `ReadFdsFullyHelper::operator()` -/
def helperRead (out : Output) : Option (St τ) :=
  let h := s.helper out
  let pipe := s.out out
  if h.active = false then none
  else if pipe.buffer = [] then
    -- EOF, stop watching
    if pipe.writable then none else some { s with helper := Function.update s.helper out { h with active := false } }
  else
    some { s with
      helper := Function.update s.helper out { h with output := h.output ++ pipe.buffer.take arraysize }
      out := Function.update s.out out { pipe with buffer := pipe.buffer.drop arraysize } }

/-- the end of `ReadFdsFully`, and what `Call` does with its strings -/
def finishRead : St τ :=
  if (s.helper .stdout).status ≠ .ok then { s with phase := .returned (s.helper .stdout).status }
  else if (s.helper .stderr).status ≠ .ok then { s with phase := .returned (s.helper .stderr).status }
  else { s with phase := .waiting, result := fun o => if cfg.captured o then some (s.helper o).output else none }

/-- `GetExitStatus`, and the end of `Call` -/
def exitStatus : Termination → Status
  | .exited code =>
    if code = 0 then .ok
    else .bad (.runtimeError (cfg.argv0 ++ ": process exited with non-zero status " ++ toString code))
  | .signaled signal => .bad (.runtimeError (cfg.argv0 ++ ": process exited on signal " ++ toString signal))

def step : Op → Option (St τ)
  | .child n => childStep cfg s n
  | .write n =>
    match s.phase with
    | .writing rest =>
      if s.stdin.readable ∧ 0 < n ∧ n ≤ rest.length ∧ s.stdin.buffer.length + n ≤ cfg.capacity then
        some { s with
          stdin := { s.stdin with buffer := s.stdin.buffer ++ rest.take n }
          phase := if rest.drop n = [] then .closing else .writing (rest.drop n) }
      else none
    | _ => none
  | .brokenPipe errno => if s.stdin.readable then none else writeEnds cfg s errno
  | .writeInterrupted errno => writeEnds cfg s errno
  | .closeStdin outcome =>
    if s.phase = .closing then
      let s := { s with stdin := { s.stdin with writable := false } }
      match outcome with
      | .ok () => some { s with phase := .reading }
      | .error err => some { s with phase := .returned (ioError cfg "Unable to close child process stdin" err) }
    else none
  | .read out => if s.phase = .reading ∧ cfg.captured out then helperRead s out else none
  | .readFailed out err =>
    if s.phase = .reading ∧ cfg.captured out ∧ (s.helper out).active then
      if err = .eintr then some s
      else
        let status := ioError cfg ("IO error reading from " ++ cfg.argv0) err
        some { s with helper := Function.update s.helper out { s.helper out with active := false, status } }
    else none
  | .loopEnds =>
    if s.phase = .reading ∧ (s.helper .stdout).active = false ∧ (s.helper .stderr).active = false then
      some (finishRead cfg s)
    else none
  | .wait =>
    match s.phase, s.child with
    | .waiting, .exited status => some { s with phase := .returned (exitStatus cfg status) }
    | _, _ => none
  | .waitFailed err =>
    if s.phase = .waiting then
      let e : BadStatus := ⟨.runtimeError, BadStatus.joined "Unable to wait on child" (cfg.errnoToString err), err.code⟩
      some { s with phase := .returned (.bad (e.cloneAndPrepend ("Unable to wait() for " ++ cfg.argv0))) }
    else none

end steps

/-- a `Call` behind `Start` -/
def machine (cfg : Config τ) : Machine (St τ) Op where
  init := {
    phase := if cfg.stdinIn = [] then .closing else .writing cfg.stdinIn
    child := .running (cfg.program cfg.start)
    stdin := ⟨[], true, true⟩
    out := fun _ => ⟨[], true, true⟩
    helper := fun o => ⟨cfg.captured o, [], .ok⟩
    result := fun _ => none
    consumed := []
    wrote := fun _ => [] }
  step := step cfg

/-! ## The invariant -/

/-- the bytes that went into the pipe of stdin -/
def St.given (s : St τ) : List UInt8 := s.consumed ++ s.stdin.buffer

/-- the output was read, or the call is over without an error -/
def Phase.Settled (phase : Phase) : Prop := phase = .waiting ∨ phase = .returned .ok

structure Inv (cfg : Config τ) (s : St τ) : Prop where
  /-- what was written is in the string or in the pipe -/
  output : ∀ o, cfg.captured o = true → s.wrote o = (s.helper o).output ++ (s.out o).buffer
  /-- a helper that stops without an error has seen the end of its stream -/
  eof : ∀ o, cfg.captured o = true → (s.helper o).active = false → (s.helper o).status = .ok →
    (s.out o).buffer = [] ∧ (s.out o).writable = false
  idle : ∀ o, cfg.captured o = false → s.helper o = ⟨false, [], .ok⟩
  exited : ∀ status, s.child = .exited status → ∀ o, (s.out o).writable = false
  writing : ∀ rest, s.phase = .writing rest → rest ≠ [] ∧ s.given ++ rest = cfg.stdinIn
  delivered : s.phase = .closing ∨ s.phase = .reading ∨ s.phase.Settled → s.given = cfg.stdinIn ∨ s.given = []
  closed : s.phase = .reading ∨ s.phase = .waiting → s.stdin.writable = false
  settled : s.phase.Settled → ∀ o,
    (cfg.captured o = true → s.result o = some (s.wrote o) ∧ (s.out o).writable = false) ∧
      (cfg.captured o = false → s.result o = none)
  success : s.phase = .returned .ok → s.child = .exited (.exited 0)

variable {cfg : Config τ} {s s' : St τ}

/-- the child reads from stdin, or does nothing to the pipes -/
theorem reads_inv (hi : Inv cfg s) {stdin : Channel} {consumed : List UInt8} {t : τ} (hrun : ∀ st, s.child ≠ .exited st)
    (hgiven : consumed ++ stdin.buffer = s.given) (hwritable : stdin.writable = s.stdin.writable) :
    Inv cfg (resume cfg { s with stdin, consumed } t) := by
  have hsame : (resume cfg { s with stdin, consumed } t).given = s.given := hgiven
  refine ⟨hi.output, hi.eof, hi.idle, nofun, ?_, ?_, ?_, hi.settled, fun h => absurd (hi.success h) (hrun _)⟩
  · rw [hsame]
    exact hi.writing
  · rw [hsame]
    exact hi.delivered
  · intro h
    exact hwritable.trans (hi.closed h)

/-- the child writes to a stream that is read -/
theorem writes_inv (hi : Inv cfg s) {out : Output} {bytes : List UInt8} {action : Action τ}
    (hrun : ∀ st, s.child ≠ .exited st) (hopen : (s.out out).writable = true) :
    Inv cfg { s with
      out := Function.update s.out out { s.out out with buffer := (s.out out).buffer ++ bytes }
      wrote := Function.update s.wrote out (s.wrote out ++ bytes)
      child := .running action } := by
  refine ⟨fun o ho => ?_, fun o ho hstop hok => ?_, hi.idle, nofun, hi.writing, hi.delivered, hi.closed,
    fun hs o => ⟨fun ho => ?_, (hi.settled hs o).2⟩, fun h => absurd (hi.success h) (hrun _)⟩
  · by_cases heq : o = out
    · subst heq
      simp only [Function.update_self]
      rw [hi.output o ho, List.append_assoc]
    · simp only [Function.update_of_ne heq]
      exact hi.output o ho
  · have hend := hi.eof o ho hstop hok
    by_cases heq : o = out
    · subst heq
      rw [hend.2] at hopen
      cases hopen
    · simp only [Function.update_of_ne heq]
      exact hend
  · have hend := (hi.settled hs o).1 ho
    by_cases heq : o = out
    · subst heq
      rw [hend.2] at hopen
      cases hopen
    · simp only [Function.update_of_ne heq]
      exact hend

/-- the child closes some of its streams, by itself or at its end -/
theorem closes_inv (hi : Inv cfg s) {out : Output → Channel} {child : Child τ} {stdin : Channel}
    (hrun : ∀ st, s.child ≠ .exited st) (hbuffer : ∀ o, (out o).buffer = (s.out o).buffer)
    (hclosed : ∀ o, (s.out o).writable = false → (out o).writable = false)
    (hexited : ∀ st, child = .exited st → ∀ o, (out o).writable = false) (hstdin : stdin.buffer = s.stdin.buffer)
    (hwritable : stdin.writable = s.stdin.writable) : Inv cfg { s with out, child, stdin } := by
  have hgiven : ({ s with out, child, stdin } : St τ).given = s.given := by
    unfold St.given
    rw [hstdin]
  refine ⟨fun o ho => ?_, fun o ho hstop hok => ?_, hi.idle, hexited, ?_, ?_, ?_,
    fun hs o => ⟨fun ho => ⟨((hi.settled hs o).1 ho).1, hclosed o ((hi.settled hs o).1 ho).2⟩, (hi.settled hs o).2⟩,
    fun h => absurd (hi.success h) (hrun _)⟩
  · simp only [hbuffer]
    exact hi.output o ho
  · simp only [hbuffer]
    exact ⟨(hi.eof o ho hstop hok).1, hclosed o (hi.eof o ho hstop hok).2⟩
  · rw [hgiven]
    exact hi.writing
  · rw [hgiven]
    exact hi.delivered
  · intro h
    exact hwritable.trans (hi.closed h)

theorem childStep_inv {n : ℕ} (hi : Inv cfg s) (h : childStep cfg s n = some s') : Inv cfg s' := by
  unfold childStep at h
  split at h
  · cases h
  · rename_i size next hc
    have hrun : ∀ st, s.child ≠ .exited st := fun st heq => by rw [hc] at heq; cases heq
    split_ifs at h
    · cases h
      exact @reads_inv _ cfg s hi s.stdin s.consumed _ hrun rfl rfl
    · cases h
      refine reads_inv hi hrun ?_ rfl
      rw [List.append_assoc, List.take_append_drop]
      rfl
  · rename_i next hc
    have hrun : ∀ st, s.child ≠ .exited st := fun st heq => by rw [hc] at heq; cases heq
    cases h
    exact @reads_inv _ cfg s hi { s.stdin with readable := false } s.consumed _ hrun rfl rfl
  · rename_i out bytes next hc
    have hrun : ∀ st, s.child ≠ .exited st := fun st heq => by rw [hc] at heq; cases heq
    split_ifs at h with hnothing hroom
    · cases h
      exact @reads_inv _ cfg s hi s.stdin s.consumed _ hrun rfl rfl
    · cases h
      refine writes_inv hi hrun ?_
      by_contra hclosed
      exact hnothing (Or.inr (Or.inl (by simpa using hclosed)))
  · rename_i out next hc
    have hrun : ∀ st, s.child ≠ .exited st := fun st heq => by rw [hc] at heq; cases heq
    cases h
    refine @closes_inv _ cfg s hi _ (.running (cfg.program next)) s.stdin hrun (fun o => ?_) (fun o ho => ?_) nofun rfl rfl
    · by_cases heq : o = out
      · simp only [heq, Function.update_self]
      · simp only [Function.update_of_ne heq]
    · by_cases heq : o = out
      · simp only [heq, Function.update_self]
      · simp only [Function.update_of_ne heq]
        exact ho
  · rename_i status hc
    have hrun : ∀ st, s.child ≠ .exited st := fun st heq => by rw [hc] at heq; cases heq
    cases h
    exact closes_inv hi hrun (fun _ => rfl) (fun _ _ => rfl) (fun _ _ _ => rfl) rfl rfl

/-- the call ends with an error -/
theorem failed_inv (hi : Inv cfg s) (e : BadStatus) : Inv cfg { s with phase := .returned (.bad e) } := by
  refine ⟨hi.output, hi.eof, hi.idle, hi.exited, nofun, ?_, ?_, ?_, nofun⟩
  · rintro (h | h | h | h) <;> cases h
  · rintro (h | h) <;> cases h
  · rintro (h | h) <;> cases h

theorem given_eq_nil {given rest : List UInt8} (h : given ++ rest = rest) : given = [] := by
  simpa using h

theorem writeEnds_inv {errno : Errno} (hi : Inv cfg s) (h : writeEnds cfg s errno = some s') : Inv cfg s' := by
  unfold writeEnds at h
  split at h
  · rename_i rest hphase
    split_ifs at h with hall
    · cases h
      have hgiven := (hi.writing rest hphase).2
      rw [← hall] at hgiven
      refine ⟨hi.output, hi.eof, hi.idle, hi.exited, nofun, fun _ => Or.inr (given_eq_nil hgiven), ?_, ?_, nofun⟩
      · rintro (h | h) <;> cases h
      · rintro (h | h) <;> cases h
    · cases h
      exact failed_inv hi _
  · cases h

theorem write_inv {n : ℕ} (hi : Inv cfg s) (h : step cfg s (.write n) = some s') : Inv cfg s' := by
  simp only [step] at h
  split at h
  · rename_i rest hphase
    split_ifs at h with hroom hdone
    · -- the last bytes
      cases h
      have hgiven := (hi.writing rest hphase).2
      refine ⟨hi.output, hi.eof, hi.idle, hi.exited, nofun, fun _ => Or.inl ?_, ?_, ?_, nofun⟩
      · rw [← hgiven, St.given, St.given, ← List.append_assoc, List.take_of_length_le (List.drop_eq_nil_iff.1 hdone)]
      · rintro (h | h) <;> cases h
      · rintro (h | h) <;> cases h
    · cases h
      have hgiven := (hi.writing rest hphase).2
      refine ⟨hi.output, hi.eof, hi.idle, hi.exited, fun more hmore => ?_, ?_, ?_, ?_, nofun⟩
      · cases hmore
        refine ⟨hdone, ?_⟩
        rw [← hgiven, St.given, St.given, ← List.append_assoc, List.append_assoc _ (rest.take n), List.take_append_drop]
      · rintro (h | h | h | h) <;> cases h
      · rintro (h | h) <;> cases h
      · rintro (h | h) <;> cases h
  · cases h

theorem closeStdin_inv {outcome : Except Errno Unit} (hi : Inv cfg s) (h : step cfg s (.closeStdin outcome) = some s') :
    Inv cfg s' := by
  simp only [step] at h
  split_ifs at h with hphase
  have hdelivered := hi.delivered (Or.inl hphase)
  have hclosed : Inv cfg { s with stdin := { s.stdin with writable := false } } :=
    ⟨hi.output, hi.eof, hi.idle, hi.exited, hi.writing, hi.delivered, fun _ => rfl, hi.settled, hi.success⟩
  cases outcome with
  | error err =>
    cases h
    exact failed_inv hclosed _
  | ok u =>
    cases h
    refine ⟨hi.output, hi.eof, hi.idle, hi.exited, nofun, fun _ => hdelivered, fun _ => rfl, ?_, nofun⟩
    rintro (h | h) <;> cases h

theorem helperRead_inv {out : Output} (hi : Inv cfg s) (hphase : s.phase = .reading) (hout : cfg.captured out = true)
    (h : helperRead s out = some s') : Inv cfg s' := by
  have hsettled : ¬ s.phase.Settled := by
    rw [hphase]
    rintro (h | h) <;> cases h
  unfold helperRead at h
  simp only at h
  split_ifs at h with hactive hbuffer hwritable
  · -- the end of the stream
    cases h
    refine ⟨fun o ho => ?_, fun o ho hstop hok => ?_, fun o ho => ?_, hi.exited, hi.writing, hi.delivered, hi.closed,
      fun h => absurd h hsettled, hi.success⟩
    · by_cases heq : o = out
      · subst heq
        simp only [Function.update_self]
        exact hi.output o ho
      · simp only [Function.update_of_ne heq]
        exact hi.output o ho
    · by_cases heq : o = out
      · subst heq
        exact ⟨hbuffer, by simpa using hwritable⟩
      · simp only [Function.update_of_ne heq] at hstop hok
        exact hi.eof o ho hstop hok
    · have hne : o ≠ out := fun heq => by rw [heq, hout] at ho; cases ho
      simp only [Function.update_of_ne hne]
      exact hi.idle o ho
  · cases h
    refine ⟨fun o ho => ?_, fun o ho hstop hok => ?_, fun o ho => ?_, fun status hstatus o => ?_, hi.writing, hi.delivered,
      hi.closed, fun h => absurd h hsettled, hi.success⟩
    · by_cases heq : o = out
      · subst heq
        simp only [Function.update_self]
        rw [List.append_assoc, List.take_append_drop]
        exact hi.output o ho
      · simp only [Function.update_of_ne heq]
        exact hi.output o ho
    · by_cases heq : o = out
      · subst heq
        simp only [Function.update_self] at hstop
        exact absurd hstop hactive
      · simp only [Function.update_of_ne heq] at hstop hok ⊢
        exact hi.eof o ho hstop hok
    · have hne : o ≠ out := fun heq => by rw [heq, hout] at ho; cases ho
      simp only [Function.update_of_ne hne]
      exact hi.idle o ho
    · by_cases heq : o = out
      · subst heq
        simp only [Function.update_self]
        exact hi.exited status hstatus o
      · simp only [Function.update_of_ne heq]
        exact hi.exited status hstatus o

theorem readFailed_inv {out : Output} {err : Errno} (hi : Inv cfg s) (h : step cfg s (.readFailed out err) = some s') :
    Inv cfg s' := by
  simp only [step] at h
  split_ifs at h with hready heintr
  · cases h
    exact hi
  · cases h
    obtain ⟨hphase, hout, -⟩ := hready
    have hsettled : ¬ s.phase.Settled := by
      rw [hphase]
      rintro (h | h) <;> cases h
    refine ⟨fun o ho => ?_, fun o ho hstop hok => ?_, fun o ho => ?_, hi.exited, hi.writing, hi.delivered, hi.closed,
      fun h => absurd h hsettled, hi.success⟩
    · by_cases heq : o = out
      · subst heq
        simp only [Function.update_self]
        exact hi.output o ho
      · simp only [Function.update_of_ne heq]
        exact hi.output o ho
    · by_cases heq : o = out
      · subst heq
        simp only [Function.update_self] at hok
        cases hok
      · simp only [Function.update_of_ne heq] at hstop hok
        exact hi.eof o ho hstop hok
    · have hne : o ≠ out := fun heq => by rw [heq, hout] at ho; cases ho
      simp only [Function.update_of_ne hne]
      exact hi.idle o ho

/-- the event loop ends when both helpers have stopped -/
theorem loopEnds_inv (hi : Inv cfg s) (hphase : s.phase = .reading) (hstop : ∀ o, (s.helper o).active = false) :
    Inv cfg (finishRead cfg s) := by
  have hbad : ∀ r : Status, r ≠ .ok → Inv cfg { s with phase := .returned r } := by
    intro r hr
    cases r with
    | ok => exact absurd rfl hr
    | bad e => exact failed_inv hi e
  unfold finishRead
  split_ifs with hout herr
  · exact hbad _ hout
  · exact hbad _ herr
  · have hok : ∀ o, (s.helper o).status = .ok := by
      intro o
      cases o with
      | stdout => exact not_not.1 hout
      | stderr => exact not_not.1 herr
    refine ⟨hi.output, hi.eof, hi.idle, hi.exited, nofun, fun _ => hi.delivered (Or.inr (Or.inl hphase)),
      fun _ => hi.closed (Or.inl hphase), fun _ o => ⟨fun ho => ?_, fun ho => ?_⟩, nofun⟩
    · obtain ⟨hempty, hwritable⟩ := hi.eof o ho (hstop o) (hok o)
      simp only [if_pos ho]
      rw [hi.output o ho, hempty, List.append_nil]
      exact ⟨rfl, hwritable⟩
    · simp only [ho, Bool.false_eq_true, if_false]

theorem wait_inv (hi : Inv cfg s) (h : step cfg s .wait = some s') : Inv cfg s' := by
  simp only [step] at h
  split at h
  · rename_i status hphase hchild
    cases h
    cases hr : exitStatus cfg status with
    | bad e => exact failed_inv hi e
    | ok =>
      have hzero : status = .exited 0 := by
        cases status with
        | exited code =>
          simp only [exitStatus] at hr
          split_ifs at hr with hcode
          rw [hcode]
        | signaled signal => cases hr
      have hsettled := hi.settled (Or.inl hphase)
      refine ⟨hi.output, hi.eof, hi.idle, hi.exited, nofun, fun _ => hi.delivered (Or.inr (Or.inr (Or.inl hphase))), ?_,
        fun _ => hsettled, fun _ => ?_⟩
      · rintro (h | h) <;> cases h
      · rw [hchild, hzero]
  · cases h

theorem step_inv {o : Op} (hi : Inv cfg s) (h : (machine cfg).step s o = some s') : Inv cfg s' := by
  cases o with
  | child n => exact childStep_inv hi h
  | write n => exact write_inv hi h
  | brokenPipe errno =>
    simp only [machine, step] at h
    split_ifs at h
    exact writeEnds_inv hi h
  | writeInterrupted errno => exact writeEnds_inv hi h
  | closeStdin outcome => exact closeStdin_inv hi h
  | read out =>
    simp only [machine, step] at h
    split_ifs at h with hready
    exact helperRead_inv hi hready.1 hready.2 h
  | readFailed out err => exact readFailed_inv hi h
  | loopEnds =>
    simp only [machine, step] at h
    split_ifs at h with hready
    cases h
    refine loopEnds_inv hi hready.1 fun o => ?_
    cases o with
    | stdout => exact hready.2.1
    | stderr => exact hready.2.2
  | wait => exact wait_inv hi h
  | waitFailed err =>
    simp only [machine, step] at h
    split_ifs at h
    cases h
    exact failed_inv hi _

theorem init_inv (cfg : Config τ) : Inv cfg (machine cfg).init := by
  have hphase : ∀ phase, (machine cfg).init.phase = phase → phase = .closing ∨ ∃ rest, phase = .writing rest := by
    rintro _ rfl
    simp only [machine]
    split_ifs
    · exact Or.inl rfl
    · exact Or.inr ⟨_, rfl⟩
  refine ⟨fun _ _ => rfl, fun o ho hstop => ?_, fun o ho => ?_, nofun, fun rest hrest => ?_, fun _ => Or.inr rfl, ?_, ?_, ?_⟩
  · rw [show ((machine cfg).init.helper o).active = cfg.captured o from rfl, ho] at hstop
    cases hstop
  · simp only [machine, ho]
  · simp only [machine] at hrest
    split_ifs at hrest with hempty
    cases hrest
    exact ⟨hempty, rfl⟩
  · rintro (h | h) <;> rcases hphase _ h with h | ⟨rest, h⟩ <;> cases h
  · rintro (h | h) <;> rcases hphase _ h with h | ⟨rest, h⟩ <;> cases h
  · intro h
    rcases hphase _ h with h | ⟨rest, h⟩ <;> cases h

variable {ops : List Op}

theorem run_inv (h : (machine cfg).run (machine cfg).init ops = some s) : Inv cfg s :=
  Machine.run_inv (fun _ _ _ hi hst => step_inv hi hst) (init_inv cfg) h

/-! ## Results -/

/-- **When `Call` returns OK**, in whatever order the parent and the child moved, the child has exited with 0, and each string
that was asked for is all that the child wrote to its stream. The pipe of stdin got all bytes, or none: a write that fails
with -1 goes unnoticed. -/
theorem call_ok (h : (machine cfg).run (machine cfg).init ops = some s) (hok : s.phase = .returned .ok) :
    s.child = .exited (.exited 0) ∧
      (∀ o, s.result o = if cfg.captured o then some (s.wrote o) else none) ∧
        (s.given = cfg.stdinIn ∨ s.given = []) := by
  have hi := run_inv h
  refine ⟨hi.success hok, fun o => ?_, hi.delivered (Or.inr (Or.inr (Or.inr hok)))⟩
  have hsettled := hi.settled (Or.inr hok) o
  split_ifs with ho
  · exact (hsettled.1 ho).1
  · exact hsettled.2 (by simpa using ho)

/-- a step that needs no signal and no failure -/
def Op.Plain : Op → Prop
  | .writeInterrupted _ => False
  | .closeStdin (.error _) => False
  | .readFailed _ _ => False
  | .waitFailed _ => False
  | _ => True

/-! ## Progress -/

/-- a child that does not move waits for input that may still come, or for room in a pipe that is read -/
theorem child_moves {action : Action τ} (hchild : s.child = .running action) (hclosed : s.stdin.writable = false) :
    (∃ n s', childStep cfg s n = some s') ∨
      ∃ out, cfg.captured out = true ∧ (s.out out).writable = true ∧ cfg.capacity ≤ (s.out out).buffer.length := by
  cases action with
  | read size next =>
    refine Or.inl ⟨0, ?_⟩
    simp only [childStep, hchild, hclosed]
    split_ifs with hreadable hempty
    · exact ⟨_, rfl⟩
    · cases hempty.2
    · exact ⟨_, rfl⟩
  | closeStdin next => exact Or.inl ⟨0, by simp only [childStep, hchild]; exact ⟨_, rfl⟩⟩
  | write out bytes next =>
    by_cases hnothing : cfg.captured out = false ∨ (s.out out).writable = false ∨ bytes = []
    · exact Or.inl ⟨0, by simp only [childStep, hchild, if_pos hnothing]; exact ⟨_, rfl⟩⟩
    · obtain ⟨hcaptured, hwritable, hbytes⟩ := not_or.1 hnothing |>.imp id not_or.1
      by_cases hroom : (s.out out).buffer.length + 1 ≤ cfg.capacity
      · refine Or.inl ⟨1, ?_⟩
        have hlength : 1 ≤ bytes.length := List.length_pos_iff.2 hbytes
        simp only [childStep, hchild, if_neg hnothing, if_pos (show 0 < 1 ∧ _ ∧ _ from ⟨one_pos, hlength, hroom⟩)]
        exact ⟨_, rfl⟩
      · exact Or.inr ⟨out, by simpa using hcaptured, by simpa using hwritable, by omega⟩
  | close out next => exact Or.inl ⟨0, by simp only [childStep, hchild]; exact ⟨_, rfl⟩⟩
  | exit status => exact Or.inl ⟨0, by simp only [childStep, hchild]; exact ⟨_, rfl⟩⟩

theorem read_moves {out : Output} (hphase : s.phase = .reading) (hcaptured : cfg.captured out = true)
    (hactive : (s.helper out).active = true) (hready : (s.out out).buffer ≠ [] ∨ (s.out out).writable = false) :
    ∃ s', step cfg s (.read out) = some s' := by
  simp only [step, helperRead, if_pos (And.intro hphase hcaptured), hactive, Bool.true_eq_false, if_false]
  split_ifs with hempty hwritable
  · rcases hready with h | h
    · exact absurd hempty h
    · rw [h] at hwritable
      cases hwritable
  · exact ⟨_, rfl⟩
  · exact ⟨_, rfl⟩

/-- **The parent and the child do not wait for each other** while no read has failed, if `stdin_in` fits into a pipe: until
the call is over one of them can go on, without a signal or a failure. -/
theorem call_progress (hcapacity : 0 < cfg.capacity) (hfits : cfg.stdinIn.length ≤ cfg.capacity)
    (h : (machine cfg).run (machine cfg).init ops = some s) (hover : ∀ r, s.phase ≠ .returned r)
    (hreads : ∀ o, (s.helper o).status = .ok) : ∃ o s', o.Plain ∧ (machine cfg).step s o = some s' := by
  have hi := run_inv h
  cases hphase : s.phase with
  | writing rest =>
    obtain ⟨hrest, hgiven⟩ := hi.writing rest hphase
    cases hreadable : s.stdin.readable with
    | true =>
      have hlength := congrArg List.length hgiven
      rw [List.length_append, St.given, List.length_append] at hlength
      have hpos : 1 ≤ rest.length := List.length_pos_iff.2 hrest
      refine ⟨.write 1, ?_⟩
      simp only [machine, step, hphase, hreadable]
      rw [if_pos ⟨trivial, one_pos, hpos, by omega⟩]
      exact ⟨_, trivial, rfl⟩
    | false =>
      refine ⟨.brokenPipe (.other 32), ?_⟩
      simp only [machine, step, hreadable, Bool.false_eq_true, if_false, writeEnds, hphase]
      split_ifs
      · exact ⟨_, trivial, rfl⟩
      · exact ⟨_, trivial, rfl⟩
  | closing => exact ⟨.closeStdin (.ok ()), _, trivial, if_pos hphase⟩
  | reading =>
    by_cases hall : ∀ o, (s.helper o).active = false
    · exact ⟨.loopEnds, _, trivial, if_pos ⟨hphase, hall .stdout, hall .stderr⟩⟩
    · obtain ⟨out, hactive⟩ := not_forall.1 hall
      have hactive : (s.helper out).active = true := by simpa using hactive
      have hcaptured : ∀ o, (s.helper o).active = true → cfg.captured o = true := by
        intro o ho
        by_contra hnot
        rw [hi.idle o (by simpa using hnot)] at ho
        cases ho
      by_cases hready : (s.out out).buffer ≠ [] ∨ (s.out out).writable = false
      · obtain ⟨s', hs'⟩ := read_moves hphase (hcaptured out hactive) hactive hready
        exact ⟨.read out, s', trivial, hs'⟩
      · -- somebody may still write to this stream
        have hopen : (s.out out).writable = true := by simpa using (not_or.1 hready).2
        cases hchild : s.child with
        | exited status =>
          rw [hi.exited status hchild out] at hopen
          cases hopen
        | running action =>
          rcases @child_moves _ cfg s action hchild (hi.closed (Or.inl hphase)) with ⟨n, s', hs'⟩ | ⟨full, hcap, hwritable, hfull⟩
          · exact ⟨.child n, s', trivial, hs'⟩
          · -- a stream that is full is still read
            have hstill : (s.helper full).active = true := by
              by_contra hstopped
              have hend := (hi.eof full hcap (by simpa using hstopped) (hreads full)).2
              rw [hend] at hwritable
              cases hwritable
            have hbuffer : (s.out full).buffer ≠ [] := List.length_pos_iff.1 (by omega)
            obtain ⟨s', hs'⟩ := read_moves hphase hcap hstill (Or.inl hbuffer)
            exact ⟨.read full, s', trivial, hs'⟩
  | waiting =>
    cases hchild : s.child with
    | exited status => exact ⟨.wait, _, trivial, by simp only [machine, step, hphase, hchild]; rfl⟩
    | running action =>
      rcases @child_moves _ cfg s action hchild (hi.closed (Or.inr hphase)) with ⟨n, s', hs'⟩ | ⟨full, hcap, hwritable, -⟩
      · exact ⟨.child n, s', trivial, hs'⟩
      · rw [((hi.settled (Or.inl hphase) full).1 hcap).2] at hwritable
        cases hwritable
  | returned r => exact absurd hphase (hover r)

/-- a program that copies its input, two bytes at a time -/
def copy : Option (List UInt8) → Action (Option (List UInt8))
  | none => .read 2 some
  | some [] => .exit (.exited 0)
  | some bytes => .write .stdout bytes none

/-- three bytes through pipes of four -/
def echo : Config (Option (List UInt8)) := ⟨copy, none, "cat", 4, [1, 2, 3], (· = .stdout), fun _ => ""⟩

def echoOps : List Op :=
  [.write 3, .closeStdin (.ok ()), .child 0, .child 2, .read .stdout, .child 0, .child 0, .child 1, .child 0, .child 0,
    .child 0, .read .stdout, .read .stdout, .loopEnds, .wait]

theorem call_ok_echo : ∃ s, (machine echo).run (machine echo).init echoOps = some s ∧
    s.result .stdout = some (s.wrote .stdout) := by
  obtain ⟨s, hs, hok⟩ : ∃ s, (machine echo).run (machine echo).init echoOps = some s ∧ s.phase = .returned .ok :=
    ⟨_, rfl, rfl⟩
  exact ⟨s, hs, (call_ok hs hok).2.1 .stdout⟩

theorem call_progress_echo : ∃ s, (machine echo).run (machine echo).init (echoOps.take 5) = some s ∧
    ∃ o s', o.Plain ∧ (machine echo).step s o = some s' := by
  obtain ⟨s, hs, hphase, hstatus⟩ : ∃ s, (machine echo).run (machine echo).init (echoOps.take 5) = some s ∧
      s.phase = .reading ∧ ∀ o, (s.helper o).status = .ok := ⟨_, rfl, rfl, fun o => by cases o <;> rfl⟩
  refine ⟨s, hs, call_progress (by decide) (by decide) hs (fun r hr => ?_) hstatus⟩
  rw [hphase] at hr
  cases hr

/-- a program that does not read before it has written -/
def eager : ℕ → Action ℕ
  | 0 => .write .stdout [1, 2] 1
  | _ => .read 2 fun _ => 1

def narrow : Config ℕ := ⟨eager, 0, "cat", 1, [1, 2], (· = .stdout), fun _ => ""⟩

/-- **Input that does not fit**: the parent waits for room in stdin, the child for room in stdout. -/
theorem stuck : ∃ s, (machine narrow).run (machine narrow).init [.write 1, .child 1] = some s ∧
    ∀ o : Op, o.Plain → (machine narrow).step s o = none := by
  refine ⟨_, rfl, fun o ho => ?_⟩
  cases o with
  | child n => exact if_neg (show ¬ (0 < n ∧ n ≤ 1 ∧ 1 + n ≤ 1) by omega)
  | write n => exact if_neg (show ¬ ((true : Bool) = true ∧ 0 < n ∧ n ≤ 1 ∧ 1 + n ≤ 1) by omega)
  | brokenPipe errno => rfl
  | writeInterrupted errno => exact ho.elim
  | closeStdin outcome => rfl
  | read out => rfl
  | readFailed out err => exact ho.elim
  | loopEnds => rfl
  | wait => rfl
  | waitFailed err => exact ho.elim

end Bboy.Process.Call
