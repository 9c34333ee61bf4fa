/-
Lean model of the handshake of `DumpThreadStack` with `HandleStackTraceSignal` (`bboy/base/debug_util.cc`).

`g_dumper_thread_lock` lets one call run at a time. A step of the dumping thread ends where it gives up `g_comm.lock`, makes
a system call or reads `result_ready`. A signal is sent by `tgkill`, taken by its thread at any later time or never, and the
handler waits any time for `g_comm.lock`. Threads start and exit, and a tid is used again.

- `move_cases`: what a step can do.
- `Inv`: the target and the tid of the call in progress, in every run.
- `Fresh`: a ready result is of the call in progress, in a run along `Kept`.
- `dump_handshake`: in a run along `Kept` a returned stack was collected by the thread asked for during the call, and no
  `CHECK` fails; a step that misses `Kept` can be continued to a run that breaks this.
Witnesses: `dump_handshake_lateSignal`, `stale_result`.
-/
import Bboy.Core.Machine

namespace Bboy.DebugUtil

open Core

/-! ## The handshake -/

/-- `collector` and `call` record which thread collected the stack, and during which call -/
structure StackTrace where
  frames : List UInt64
  collector : Int32
  call : ℕ
  deriving DecidableEq, Repr

/-- `SignalCommunication`; its lock is held within a step only -/
structure Comm where
  stack : StackTrace
  targetTid : Int32
  resultReady : Bool
  deriving DecidableEq, Repr

/-- what `DumpThreadStack` returns: a message, or a stack to symbolize -/
inductive Report where
  | message (text : String)
  | stack (trace : StackTrace)
  deriving DecidableEq, Repr

def handlerUnavailable : Report := .message "<unable to take thread stack: signal handler unavailable>"

def unableToDeliver : Report := .message "(unable to deliver signal: process may have exited)"

def didNotRespond : Report := .message "(thread did not respond: maybe it is blocking signals)"

structure Return where
  number : ℕ
  tid : Int64
  report : Report
  deriving DecidableEq, Repr

/-- where `DumpThreadStack` is: before it sets the target, before `tgkill`, after `tgkill` failed, in the loop after `i`
sleeps, after the loop -/
inductive Pc where
  | locked
  | targeted
  | undelivered
  | waiting (i : ℕ)
  | responded
  deriving DecidableEq, Repr

structure Call where
  caller : Int32
  tid : Int64
  pc : Pc
  deriving DecidableEq, Repr

/-- `calls` have begun. `pending` and `handlers` are the threads with a signal to come and with a handler that waits for
`g_comm.lock`. -/
structure St where
  comm : Comm
  call : Option Call
  calls : ℕ
  live : List Int32
  pending : List Int32
  handlers : List Int32
  returns : List Return
  aborted : Bool
  deriving DecidableEq, Repr

inductive Op where
  | begin (caller : Int32) (tid : Int64) (installed : Bool)
  | dump
  | deliver (t : Int32)
  | handle (t : Int32) (frames : List UInt64)
  | spawn (t : Int32)
  | exit (t : Int32)
  deriving DecidableEq, Repr

def St.goto (s : St) (call : Call) (pc : Pc) : St := { s with call := some { call with pc := pc } }

def St.done (s : St) (call : Call) (report : Report) : St :=
  { s with call := none, returns := s.returns ++ [⟨s.calls, call.tid, report⟩] }

/-- up to the check of the handler; `installed` is the result of `InitSignalHandlerUnlocked` -/
def enter (s : St) (call : Call) (installed : Bool) : St :=
  if installed then { s with calls := s.calls + 1, call := some call }
  else ({ s with calls := s.calls + 1 } : St).done call handlerUnavailable

/-- the first critical section, with `CHECK_EQ(0, g_comm.target_tid)` -/
def setTarget (s : St) (call : Call) : St :=
  if s.comm.targetTid ≠ 0 then { s with aborted := true }
  else ({ s with comm := { s.comm with targetTid := call.tid.toInt32 } } : St).goto call .targeted

/-- the kernel takes the tid as a `pid_t`; a signal that is pending already is not queued again -/
def tgkill (s : St) (call : Call) : St :=
  if call.tid.toInt32 ∈ s.live then ({ s with pending := s.pending.insert call.tid.toInt32 } : St).goto call (.waiting 0)
  else s.goto call .undelivered

/-- the critical section after a failed `tgkill` -/
def clearTarget (s : St) (call : Call) : St :=
  ({ s with comm := { s.comm with targetTid := 0 } } : St).done call unableToDeliver

/-- `while (!result_ready && i++ < 100)` and the sleep -/
def poll (s : St) (call : Call) (i : ℕ) : St :=
  if s.comm.resultReady then s.goto call .responded
  else if i < 100 then s.goto call (.waiting (i + 1))
  else s.goto call .responded

/-- the last critical section, with `CHECK_EQ(tid, g_comm.target_tid)` -/
def takeResult (s : St) (call : Call) : St :=
  if call.tid ≠ s.comm.targetTid.toInt64 then { s with aborted := true }
  else ({ s with comm := { s.comm with targetTid := 0, resultReady := false } } : St).done call
    (if s.comm.resultReady then .stack s.comm.stack else didNotRespond)

def dump (s : St) (call : Call) : St :=
  match call.pc with
  | .locked => setTarget s call
  | .targeted => tgkill s call
  | .undelivered => clearTarget s call
  | .waiting i => poll s call i
  | .responded => takeResult s call

/-- the comparison is between 64-bit values -/
def handleStackTraceSignal (s : St) (t : Int32) (frames : List UInt64) : Comm :=
  if s.comm.targetTid.toInt64 ≠ t.toInt64 then s.comm
  else { s.comm with stack := ⟨frames, t, s.calls⟩, resultReady := true }

/-- a thread does nothing else while its handler runs, and the process is gone after a failed `CHECK` -/
def move (s : St) : Op → Option St
  | .begin caller tid installed =>
    if s.call = none ∧ caller ∈ s.live ∧ caller ∉ s.handlers then some (enter s ⟨caller, tid, .locked⟩ installed) else none
  | .dump => s.call.bind fun call => if call.caller ∈ s.handlers then none else some (dump s call)
  | .deliver t =>
    if t ∈ s.pending ∧ t ∉ s.handlers then
      some { s with pending := s.pending.filter (· ≠ t), handlers := s.handlers.insert t }
    else none
  | .handle t frames =>
    if t ∈ s.handlers then
      some { s with comm := handleStackTraceSignal s t frames, handlers := s.handlers.filter (· ≠ t) }
    else none
  | .spawn t => if 0 < t ∧ t ∉ s.live then some { s with live := s.live.insert t } else none
  | .exit t =>
    if t ∈ s.live ∧ t ∉ s.handlers ∧ ∀ call ∈ s.call, call.caller ≠ t then
      some { s with live := s.live.filter (· ≠ t), pending := s.pending.filter (· ≠ t) }
    else none

def machine : Machine St Op where
  init := ⟨⟨⟨[], 0, 0⟩, 0, false⟩, none, 0, [], [], [], [], false⟩
  step s o := if s.aborted then none else move s o

/-- every returned stack was collected by the thread asked for during the call, and no `CHECK` failed -/
def Good (s : St) : Prop :=
  s.aborted = false ∧ ∀ r ∈ s.returns, ∀ trace, r.report = .stack trace →
    trace.collector.toInt64 = r.tid ∧ trace.call = r.number

/-- a call that gives up after a failed `tgkill` leaves no result behind, and a signal is sent to a tid that fits in a
`pid_t` -/
def Call.Kept (s : St) (call : Call) : Prop :=
  (call.pc = .targeted → call.tid.toInt32 ∈ s.live → call.tid.toInt32.toInt64 = call.tid) ∧
    (call.pc = .undelivered → s.comm.resultReady = false)

instance (s : St) (call : Call) : Decidable (call.Kept s) := inferInstanceAs (Decidable (_ ∧ _))

def Kept (s : St) (o : Op) : Prop := o = .dump → ∀ call ∈ s.call, call.Kept s

instance (s : St) (o : Op) : Decidable (Kept s o) :=
  inferInstanceAs (Decidable (o = .dump → ∀ call ∈ s.call, call.Kept s))

/-! ## Steps -/

/-- what a step can do -/
inductive Moves (s : St) : Op → St → Prop
  | begins {call installed} (hidle : s.call = none) (hcaller : call.caller ∈ s.live) (hpc : call.pc = .locked) :
    Moves s (.begin call.caller call.tid installed) (enter s call installed)
  | sets {call} (hcall : s.call = some call) (hpc : call.pc = .locked) : Moves s .dump (setTarget s call)
  | sends {call} (hcall : s.call = some call) (hpc : call.pc = .targeted) : Moves s .dump (tgkill s call)
  | clears {call} (hcall : s.call = some call) (hpc : call.pc = .undelivered) : Moves s .dump (clearTarget s call)
  | polls {call i} (hcall : s.call = some call) (hpc : call.pc = .waiting i) : Moves s .dump (poll s call i)
  | takes {call} (hcall : s.call = some call) (hpc : call.pc = .responded) : Moves s .dump (takeResult s call)
  | delivers {t} (hpending : t ∈ s.pending) :
    Moves s (.deliver t) { s with pending := s.pending.filter (· ≠ t), handlers := s.handlers.insert t }
  | handles {t frames} (hrunning : t ∈ s.handlers) :
    Moves s (.handle t frames)
      { s with comm := handleStackTraceSignal s t frames, handlers := s.handlers.filter (· ≠ t) }
  | spawns {t} (hpos : 0 < t) : Moves s (.spawn t) { s with live := s.live.insert t }
  | exits {t} (hquiet : t ∉ s.handlers) (hcaller : ∀ call ∈ s.call, call.caller ≠ t) :
    Moves s (.exit t) { s with live := s.live.filter (· ≠ t), pending := s.pending.filter (· ≠ t) }

variable {s t : St} {o : Op} {call : Call}

/-- **What a step can do.** -/
theorem move_cases (h : move s o = some t) : Moves s o t := by
  cases o with
  | begin caller tid installed =>
    dsimp only [move] at h
    split_ifs at h with hguard
    cases h
    exact @Moves.begins s ⟨caller, tid, .locked⟩ installed hguard.1 hguard.2.1 rfl
  | dump =>
    obtain ⟨call, hcall, hdump⟩ := Option.bind_eq_some_iff.1 h
    split_ifs at hdump
    cases hdump
    unfold dump
    split
    · exact Moves.sets hcall ‹_›
    · exact Moves.sends hcall ‹_›
    · exact Moves.clears hcall ‹_›
    · exact Moves.polls hcall ‹_›
    · exact Moves.takes hcall ‹_›
  | deliver t =>
    dsimp only [move] at h
    split_ifs at h with hguard
    cases h
    exact Moves.delivers hguard.1
  | handle t frames =>
    dsimp only [move] at h
    split_ifs at h with hguard
    cases h
    exact Moves.handles hguard
  | spawn t =>
    dsimp only [move] at h
    split_ifs at h with hguard
    cases h
    exact Moves.spawns hguard.1
  | exit t =>
    dsimp only [move] at h
    split_ifs at h with hguard
    cases h
    exact Moves.exits hguard.2.1 hguard.2.2

theorem step_moves (h : machine.step s o = some t) : s.aborted = false ∧ move s o = some t := by
  dsimp only [machine] at h
  split_ifs at h with haborted
  exact ⟨Bool.eq_false_iff.2 haborted, h⟩

/-! ## The call in progress -/

/-- what a call has as `target_tid` -/
def Call.target (call : Call) : Int32 := if call.pc = .locked then 0 else call.tid.toInt32

/-- holds in every run -/
structure Inv (s : St) : Prop where
  idle : s.call = none → s.comm.targetTid = 0
  target : ∀ call ∈ s.call, s.comm.targetTid = call.target
  caller : ∀ call ∈ s.call, call.caller ∈ s.live
  collected : s.comm.stack.call ≤ s.calls
  live : ∀ t ∈ s.live, 0 < t
  pending : ∀ t ∈ s.pending, t ∈ s.live
  handlers : ∀ t ∈ s.handlers, t ∈ s.live

theorem target_locked (hpc : call.pc = .locked) : call.target = 0 := if_pos hpc

theorem target_unlocked (hpc : call.pc ≠ .locked) : call.target = call.tid.toInt32 := if_neg hpc

theorem Inv.failed (hi : Inv s) : Inv { s with aborted := true } :=
  ⟨hi.idle, hi.target, hi.caller, hi.collected, hi.live, hi.pending, hi.handlers⟩

/-- the call goes on -/
theorem Inv.goto {comm : Comm} {pc : Pc} (hi : Inv s) (hcall : s.call = some call)
    (htarget : comm.targetTid = ({ call with pc := pc } : Call).target) (hstack : comm.stack = s.comm.stack) :
    Inv (({ s with comm := comm } : St).goto call pc) where
  idle h := absurd h (Option.some_ne_none _)
  target call' h := by
    obtain rfl := Option.some.inj h
    exact htarget
  caller call' h := by
    obtain rfl := Option.some.inj h
    exact hi.caller call hcall
  collected := (congrArg StackTrace.call hstack).trans_le hi.collected
  live := hi.live
  pending := hi.pending
  handlers := hi.handlers

/-- the call returns -/
theorem Inv.done {comm : Comm} {report : Report} (hi : Inv s) (htarget : comm.targetTid = 0)
    (hstack : comm.stack = s.comm.stack) : Inv (({ s with comm := comm } : St).done call report) where
  idle _ := htarget
  target call' h := absurd h (Option.not_mem_none call')
  caller call' h := absurd h (Option.not_mem_none call')
  collected := (congrArg StackTrace.call hstack).trans_le hi.collected
  live := hi.live
  pending := hi.pending
  handlers := hi.handlers

theorem enter_inv {installed : Bool} (hi : Inv s) (hidle : s.call = none) (hcaller : call.caller ∈ s.live)
    (hpc : call.pc = .locked) : Inv (enter s call installed) := by
  have hlater : s.comm.stack.call ≤ s.calls + 1 := hi.collected.trans (Nat.le_succ _)
  cases installed with
  | true =>
    refine ⟨fun h => absurd h (Option.some_ne_none _), fun call' h => ?_, fun call' h => ?_, hlater, hi.live,
      hi.pending, hi.handlers⟩
    · obtain rfl := Option.some.inj h
      exact (hi.idle hidle).trans (target_locked hpc).symm
    · obtain rfl := Option.some.inj h
      exact hcaller
  | false =>
    exact ⟨fun _ => hi.idle hidle, fun call' h => absurd h (Option.not_mem_none call'),
      fun call' h => absurd h (Option.not_mem_none call'), hlater, hi.live, hi.pending, hi.handlers⟩

theorem setTarget_inv (hi : Inv s) (hcall : s.call = some call) : Inv (setTarget s call) := by
  unfold setTarget
  split_ifs
  · exact hi.failed
  · exact hi.goto hcall rfl rfl

theorem tgkill_inv (hi : Inv s) (hcall : s.call = some call) (hpc : call.pc = .targeted) : Inv (tgkill s call) := by
  have htarget : s.comm.targetTid = call.tid.toInt32 := by
    rw [hi.target call hcall, target_unlocked (by simp [hpc])]
  unfold tgkill
  split_ifs with hlive
  · have hi' : Inv { s with pending := s.pending.insert call.tid.toInt32 } := by
      refine ⟨hi.idle, hi.target, hi.caller, hi.collected, hi.live, fun t ht => ?_, hi.handlers⟩
      rcases List.mem_insert_iff.1 ht with rfl | ht
      · exact hlive
      · exact hi.pending t ht
    exact hi'.goto hcall htarget rfl
  · exact hi.goto hcall htarget rfl

theorem poll_inv {i : ℕ} (hi : Inv s) (hcall : s.call = some call) (hpc : call.pc = .waiting i) : Inv (poll s call i) := by
  have htarget : s.comm.targetTid = call.tid.toInt32 := by
    rw [hi.target call hcall, target_unlocked (by simp [hpc])]
  unfold poll
  split_ifs
  · exact hi.goto hcall htarget rfl
  · exact hi.goto hcall htarget rfl
  · exact hi.goto hcall htarget rfl

theorem takeResult_inv (hi : Inv s) : Inv (takeResult s call) := by
  unfold takeResult
  split_ifs
  · exact hi.failed
  · exact hi.done rfl rfl
  · exact hi.done rfl rfl

theorem handle_comm (s : St) (t : Int32) (frames : List UInt64) :
    handleStackTraceSignal s t frames = s.comm ∨
      s.comm.targetTid = t ∧ handleStackTraceSignal s t frames = ⟨⟨frames, t, s.calls⟩, s.comm.targetTid, true⟩ := by
  unfold handleStackTraceSignal
  split_ifs with hother
  · exact Or.inl rfl
  · have htarget := congrArg Int64.toInt32 (not_ne_iff.1 hother)
    rw [Int32.toInt32_toInt64, Int32.toInt32_toInt64] at htarget
    exact Or.inr ⟨htarget, rfl⟩

theorem handle_inv {t : Int32} {frames : List UInt64} (hi : Inv s) :
    Inv { s with comm := handleStackTraceSignal s t frames, handlers := s.handlers.filter (· ≠ t) } := by
  have hhandlers : ∀ u ∈ s.handlers.filter (· ≠ t), u ∈ s.live := fun u hu => hi.handlers u (List.mem_of_mem_filter hu)
  rcases handle_comm s t frames with hsame | ⟨-, hset⟩
  · rw [hsame]
    exact ⟨hi.idle, hi.target, hi.caller, hi.collected, hi.live, hi.pending, hhandlers⟩
  · rw [hset]
    exact ⟨hi.idle, hi.target, hi.caller, le_refl _, hi.live, hi.pending, hhandlers⟩

theorem exit_inv {t : Int32} (hi : Inv s) (hquiet : t ∉ s.handlers) (hcaller : ∀ call ∈ s.call, call.caller ≠ t) :
    Inv { s with live := s.live.filter (· ≠ t), pending := s.pending.filter (· ≠ t) } where
  idle := hi.idle
  target := hi.target
  caller call hcall := List.mem_filter.2 ⟨hi.caller call hcall, decide_eq_true (hcaller call hcall)⟩
  collected := hi.collected
  live u hu := hi.live u (List.mem_of_mem_filter hu)
  pending u hu := List.mem_filter.2 ⟨hi.pending u (List.mem_of_mem_filter hu), (List.mem_filter.1 hu).2⟩
  handlers u hu := List.mem_filter.2 ⟨hi.handlers u hu, decide_eq_true fun h => hquiet (h ▸ hu)⟩

theorem move_inv (hi : Inv s) (h : Moves s o t) : Inv t := by
  cases h with
  | begins hidle hcaller hpc => exact enter_inv hi hidle hcaller hpc
  | sets hcall => exact setTarget_inv hi hcall
  | sends hcall hpc => exact tgkill_inv hi hcall hpc
  | clears => exact hi.done rfl rfl
  | polls hcall hpc => exact poll_inv hi hcall hpc
  | takes => exact takeResult_inv hi
  | @delivers t hpending =>
    refine ⟨hi.idle, hi.target, hi.caller, hi.collected, hi.live, fun u hu => ?_, fun u hu => ?_⟩
    · exact hi.pending u (List.mem_of_mem_filter hu)
    · rcases List.mem_insert_iff.1 hu with rfl | hu
      · exact hi.pending u hpending
      · exact hi.handlers u hu
  | handles => exact handle_inv hi
  | @spawns t hpos =>
    have hmore : ∀ u ∈ s.live, u ∈ s.live.insert t := fun u hu => List.mem_insert_of_mem hu
    refine ⟨hi.idle, hi.target, fun call hcall => hmore _ (hi.caller call hcall), hi.collected, fun u hu => ?_,
      fun u hu => hmore u (hi.pending u hu), fun u hu => hmore u (hi.handlers u hu)⟩
    rcases List.mem_insert_iff.1 hu with rfl | hu
    · exact hpos
    · exact hi.live u hu
  | exits hquiet hcaller => exact exit_inv hi hquiet hcaller

theorem inv_init : Inv machine.init :=
  ⟨fun _ => rfl, fun call h => absurd h (Option.not_mem_none call), fun call h => absurd h (Option.not_mem_none call),
    le_refl 0, fun _ h => absurd h List.not_mem_nil, fun _ h => absurd h List.not_mem_nil,
    fun _ h => absurd h List.not_mem_nil⟩

theorem run_inv {ops : List Op} (hrun : machine.run machine.init ops = some s) : Inv s :=
  Machine.run_inv (fun _ _ _ hi h => move_inv hi (move_cases (step_moves h).2)) inv_init hrun

/-! ## Fresh results -/

/-- the signal of the call has been sent -/
def Pc.isSent : Pc → Bool
  | .waiting _ | .responded => true
  | _ => false

/-- holds in a run along `Kept` -/
structure Fresh (s : St) : Prop where
  good : Good s
  ready : s.comm.resultReady = true → ∃ call ∈ s.call, call.pc ≠ .locked ∧
    s.comm.stack.collector = call.tid.toInt32 ∧ s.comm.stack.call = s.calls
  sent : ∀ call ∈ s.call, call.pc.isSent = true → call.tid.toInt32.toInt64 = call.tid

theorem Fresh.not_ready (hf : Fresh s) (hlocked : ∀ call ∈ s.call, call.pc = .locked) : s.comm.resultReady = false := by
  by_contra hready
  obtain ⟨call, hcall, hpc, -⟩ := hf.ready (Bool.eq_true_of_not_eq_false hready)
  exact hpc (hlocked call hcall)

theorem good_done {report : Report} (hg : Good s)
    (hreport : ∀ trace, report = .stack trace → trace.collector.toInt64 = call.tid ∧ trace.call = s.calls) :
    Good (s.done call report) := by
  refine ⟨hg.1, fun r hr trace htrace => ?_⟩
  rcases List.mem_append.1 hr with hr | hr
  · exact hg.2 r hr trace htrace
  · obtain rfl := List.mem_singleton.1 hr
    exact hreport trace htrace

/-- the call goes on, with the same result -/
theorem Fresh.goto {comm : Comm} {pc : Pc} {pending : List Int32} (hf : Fresh s) (hcall : s.call = some call)
    (hpc : pc ≠ .locked) (hready : comm.resultReady = s.comm.resultReady) (hstack : comm.stack = s.comm.stack)
    (hsent : pc.isSent = true → call.tid.toInt32.toInt64 = call.tid) :
    Fresh (({ s with comm := comm, pending := pending } : St).goto call pc) where
  good := hf.good
  ready h := by
    obtain ⟨call', hcall', -, hcollector, hnumber⟩ := hf.ready (hready.symm.trans h)
    obtain rfl := Option.some.inj (hcall.symm.trans hcall')
    exact ⟨_, rfl, hpc, (congrArg _ hstack).trans hcollector, (congrArg _ hstack).trans hnumber⟩
  sent call' h := by
    obtain rfl := Option.some.inj h
    exact hsent

/-- the call returns and leaves no result behind -/
theorem Fresh.done {comm : Comm} {report : Report} {calls : ℕ} (hf : Fresh s) (hready : comm.resultReady = false)
    (hreport : ∀ trace, report = .stack trace → trace.collector.toInt64 = call.tid ∧ trace.call = calls) :
    Fresh (({ s with comm := comm, calls := calls } : St).done call report) where
  good := good_done hf.good hreport
  ready h := absurd (hready.symm.trans h) Bool.false_ne_true
  sent call' h := absurd h (Option.not_mem_none call')

theorem enter_fresh {installed : Bool} (hf : Fresh s) (hidle : s.call = none) (hpc : call.pc = .locked) :
    Fresh (enter s call installed) := by
  have hready : s.comm.resultReady = false :=
    hf.not_ready fun call' h => absurd (hidle.symm.trans h) (Option.some_ne_none call').symm
  cases installed with
  | true =>
    refine ⟨hf.good, fun h => absurd (hready.symm.trans h) Bool.false_ne_true, fun call' h hsent => ?_⟩
    obtain rfl := Option.some.inj h
    rw [hpc] at hsent
    cases hsent
  | false => exact hf.done hready fun trace h => by cases h

theorem setTarget_fresh (hi : Inv s) (hf : Fresh s) (hcall : s.call = some call) (hpc : call.pc = .locked) :
    Fresh (setTarget s call) := by
  have hready : s.comm.resultReady = false := by
    refine hf.not_ready fun call' h => ?_
    obtain rfl := Option.some.inj (hcall.symm.trans h)
    exact hpc
  have hzero : s.comm.targetTid = 0 := by rw [hi.target call hcall, target_locked hpc]
  unfold setTarget
  rw [if_neg (not_ne_iff.2 hzero)]
  exact hf.goto hcall (fun h => by cases h) rfl rfl fun h => by cases h

theorem tgkill_fresh (hf : Fresh s) (hcall : s.call = some call) (hpc : call.pc = .targeted) (hkept : call.Kept s) :
    Fresh (tgkill s call) := by
  unfold tgkill
  split_ifs with hlive
  · exact hf.goto hcall (fun h => by cases h) rfl rfl fun _ => hkept.1 hpc hlive
  · exact hf.goto hcall (fun h => by cases h) rfl rfl fun h => by cases h

theorem clearTarget_fresh (hf : Fresh s) (hpc : call.pc = .undelivered) (hkept : call.Kept s) :
    Fresh (clearTarget s call) :=
  hf.done (hkept.2 hpc) fun trace h => by cases h

theorem poll_fresh {i : ℕ} (hf : Fresh s) (hcall : s.call = some call) (hpc : call.pc = .waiting i) :
    Fresh (poll s call i) := by
  have hsent : call.tid.toInt32.toInt64 = call.tid := hf.sent call hcall (by rw [hpc]; rfl)
  unfold poll
  split_ifs
  · exact hf.goto hcall (fun h => by cases h) rfl rfl fun _ => hsent
  · exact hf.goto hcall (fun h => by cases h) rfl rfl fun _ => hsent
  · exact hf.goto hcall (fun h => by cases h) rfl rfl fun _ => hsent

theorem takeResult_fresh (hi : Inv s) (hf : Fresh s) (hcall : s.call = some call) (hpc : call.pc = .responded) :
    Fresh (takeResult s call) := by
  have hsent : call.tid.toInt32.toInt64 = call.tid := hf.sent call hcall (by rw [hpc]; rfl)
  have htarget : s.comm.targetTid.toInt64 = call.tid := by
    rw [hi.target call hcall, target_unlocked (by simp [hpc]), hsent]
  unfold takeResult
  rw [if_neg (not_ne_iff.2 htarget.symm)]
  refine hf.done rfl fun trace htrace => ?_
  split_ifs at htrace with hready
  · obtain ⟨call', hcall', -, hcollector, hnumber⟩ := hf.ready hready
    obtain rfl := Option.some.inj (hcall.symm.trans hcall')
    cases htrace
    exact ⟨by rw [hcollector, hsent], hnumber⟩
  · cases htrace

theorem handle_fresh {t : Int32} {frames : List UInt64} (hi : Inv s) (hf : Fresh s) (hrunning : t ∈ s.handlers) :
    Fresh { s with comm := handleStackTraceSignal s t frames, handlers := s.handlers.filter (· ≠ t) } := by
  rcases handle_comm s t frames with hsame | ⟨htarget, hset⟩
  · rw [hsame]
    exact ⟨hf.good, hf.ready, hf.sent⟩
  · have hpos := hi.live t (hi.handlers t hrunning)
    have hnonzero : s.comm.targetTid ≠ 0 := by
      intro hzero
      rw [← htarget, hzero] at hpos
      exact absurd hpos (by decide)
    -- the target is set, so a call is in progress
    rcases Option.eq_none_or_eq_some s.call with hidle | ⟨call, hcall⟩
    · exact absurd (hi.idle hidle) hnonzero
    · have hpc : call.pc ≠ .locked := by
        intro hlocked
        exact hnonzero ((hi.target call hcall).trans (target_locked hlocked))
      refine ⟨hf.good, fun _ => ⟨call, hcall, hpc, ?_, ?_⟩, hf.sent⟩
      · rw [hset, ← target_unlocked hpc, ← hi.target call hcall]
        exact htarget.symm
      · rw [hset]

theorem move_fresh (hi : Inv s) (hf : Fresh s) (hkept : Kept s o) (h : Moves s o t) : Fresh t := by
  cases h with
  | begins hidle hcaller hpc => exact enter_fresh hf hidle hpc
  | sets hcall hpc => exact setTarget_fresh hi hf hcall hpc
  | sends hcall hpc => exact tgkill_fresh hf hcall hpc (hkept rfl _ hcall)
  | clears hcall hpc => exact clearTarget_fresh hf hpc (hkept rfl _ hcall)
  | polls hcall hpc => exact poll_fresh hf hcall hpc
  | takes hcall hpc => exact takeResult_fresh hi hf hcall hpc
  | handles hrunning => exact handle_fresh hi hf hrunning
  | delivers | spawns | exits => exact ⟨hf.good, hf.ready, hf.sent⟩

theorem fresh_init : Fresh machine.init :=
  ⟨⟨rfl, fun _ h => absurd h List.not_mem_nil⟩, fun h => Bool.noConfusion h,
    fun call h => absurd h (Option.not_mem_none call)⟩

theorem run_fresh {ops : List Op} (hkept : machine.Along Kept machine.init ops)
    (hrun : machine.run machine.init ops = some s) : Fresh s := by
  have hstep : ∀ s o t, Inv s ∧ Fresh s → Kept s o → machine.step s o = some t → Inv t ∧ Fresh t := by
    intro s o t hi hk h
    have hmove := move_cases (step_moves h).2
    exact ⟨move_inv hi.1 hmove, move_fresh hi.1 hi.2 hk hmove⟩
  exact (Machine.run_inv_along hstep ⟨inv_init, fresh_init⟩ hkept hrun).2

/-! ## Steps that miss the condition -/

theorem step_dump (haborted : s.aborted = false) (hcall : s.call = some call) (hfree : call.caller ∉ s.handlers) :
    machine.step s .dump = some (dump s call) := by
  have hmove : move s .dump = some (dump s call) := by
    rw [move, hcall, Option.bind_some, if_neg hfree]
  rw [← hmove]
  exact if_neg (by rw [haborted]; exact Bool.false_ne_true)

theorem step_goto (haborted : s.aborted = false) (hfree : call.caller ∉ s.handlers) (pc : Pc) :
    machine.step (s.goto call pc) .dump = some (dump (s.goto call pc) { call with pc := pc }) :=
  step_dump haborted rfl hfree

/-- the loop ends -/
theorem poll_ends (haborted : s.aborted = false) (hfree : call.caller ∉ s.handlers) (i : ℕ) :
    ∃ n, machine.run (s.goto call (.waiting i)) (List.replicate n .dump) = some (s.goto call .responded) := by
  have hstep (i : ℕ) : machine.step (s.goto call (.waiting i)) .dump =
      some (poll (s.goto call (.waiting i)) { call with pc := .waiting i } i) := step_goto haborted hfree (.waiting i)
  have hexit (i : ℕ) (hpoll : poll (s.goto call (.waiting i)) { call with pc := .waiting i } i = s.goto call .responded) :
      ∃ n, machine.run (s.goto call (.waiting i)) (List.replicate n .dump) = some (s.goto call .responded) := by
    refine ⟨1, ?_⟩
    rw [List.replicate_one, Machine.run_cons, hstep, hpoll]
    rfl
  induction hleft : 100 - i generalizing i with
  | zero =>
    apply hexit
    unfold poll
    rw [if_neg (show ¬ i < 100 by omega), ite_self]
    rfl
  | succ k ih =>
    by_cases hready : s.comm.resultReady = true
    · apply hexit
      exact if_pos hready
    · obtain ⟨n, hn⟩ := ih (i + 1) (by omega)
      have hpoll : poll (s.goto call (.waiting i)) { call with pc := .waiting i } i = s.goto call (.waiting (i + 1)) :=
        (if_neg hready).trans (if_pos (show i < 100 by omega))
      refine ⟨n + 1, ?_⟩
      rw [List.replicate_succ, Machine.run_cons, hstep, hpoll, Option.bind_some, hn]

/-- a tid that does not fit: the last `CHECK` fails -/
theorem truncated_aborts (hi : Inv s) (haborted : s.aborted = false) (hcall : s.call = some call)
    (hfree : call.caller ∉ s.handlers) (hpc : call.pc = .targeted) (hlive : call.tid.toInt32 ∈ s.live)
    (htid : call.tid.toInt32.toInt64 ≠ call.tid) :
    ∃ ops u, machine.run (tgkill s call) ops = some u ∧ u.aborted = true := by
  have htarget : s.comm.targetTid = call.tid.toInt32 := by
    rw [hi.target call hcall, target_unlocked (by simp [hpc])]
  let sent : St := { s with pending := s.pending.insert call.tid.toInt32 }
  have hsent : tgkill s call = sent.goto call (.waiting 0) := if_pos hlive
  obtain ⟨n, hn⟩ := poll_ends (s := sent) haborted hfree 0
  have hcheck : call.tid ≠ (sent.goto call .responded).comm.targetTid.toInt64 := by
    intro h
    exact htid (htarget ▸ h.symm)
  have htake : machine.step (sent.goto call .responded) .dump =
      some { sent.goto call .responded with aborted := true } := by
    rw [step_goto (s := sent) haborted hfree]
    exact congrArg some (if_pos hcheck)
  refine ⟨List.replicate n .dump ++ [.dump], { sent.goto call .responded with aborted := true }, ?_, rfl⟩
  rw [hsent, Machine.run_append, hn, Option.bind_some, Machine.run_cons, htake]
  rfl

/-- a result left behind: the next call returns it -/
theorem leftover_returned (hi : Inv s) (haborted : s.aborted = false) (hcall : s.call = some call)
    (hfree : call.caller ∉ s.handlers) (hready : s.comm.resultReady = true) :
    ∃ ops u, machine.run (clearTarget s call) ops = some u ∧
      (⟨s.calls + 1, call.caller.toInt64, .stack s.comm.stack⟩ : Return) ∈ u.returns := by
  have hcaller := hi.caller call hcall
  have hnarrow : call.caller.toInt64.toInt32 = call.caller := Int32.toInt32_toInt64 _
  -- the states of the next call, which asks for its own thread
  let next : Call := ⟨call.caller, call.caller.toInt64, .locked⟩
  let begun : St := { clearTarget s call with calls := s.calls + 1 }
  let targeted : St := { begun with comm := { begun.comm with targetTid := next.tid.toInt32 } }
  let sent : St := { targeted with pending := targeted.pending.insert next.tid.toInt32 }
  have hbegin : machine.step (clearTarget s call) (.begin call.caller call.caller.toInt64 true) =
      some (begun.goto next .locked) := by
    have hmove : move (clearTarget s call) (.begin call.caller call.caller.toInt64 true) =
        some (begun.goto next .locked) := if_pos ⟨rfl, hcaller, hfree⟩
    rw [← hmove]
    exact if_neg (haborted ▸ Bool.false_ne_true)
  have hset : machine.step (begun.goto next .locked) .dump = some (targeted.goto next .targeted) := by
    have hzero : ¬ (begun.goto next .locked).comm.targetTid ≠ 0 := not_not.2 rfl
    have htarget : setTarget (begun.goto next .locked) next = targeted.goto next .targeted := by
      rw [setTarget, if_neg hzero]
      rfl
    rw [@step_goto begun next haborted hfree .locked]
    exact congrArg some htarget
  have hsend : machine.step (targeted.goto next .targeted) .dump = some (sent.goto next (.waiting 0)) := by
    have hlive : next.tid.toInt32 ∈ s.live := hnarrow.symm ▸ hcaller
    rw [@step_goto targeted next haborted hfree .targeted]
    exact congrArg some (if_pos hlive)
  have hpoll : machine.step (sent.goto next (.waiting 0)) .dump = some (sent.goto next .responded) := by
    rw [@step_goto sent next haborted hfree (.waiting 0)]
    exact congrArg some (if_pos hready)
  let result : St := { sent with comm := { sent.comm with targetTid := 0, resultReady := false } }
  have htake : machine.step (sent.goto next .responded) .dump = some (result.done next (.stack s.comm.stack)) := by
    have hsame : next.tid = next.tid.toInt32.toInt64 := (congrArg Int32.toInt64 hnarrow).symm
    have hreport : (if s.comm.resultReady then Report.stack s.comm.stack else didNotRespond) =
        .stack s.comm.stack := if_pos hready
    rw [@step_goto sent next haborted hfree .responded, ← hreport]
    exact congrArg some (if_neg (not_not.2 hsame))
  refine ⟨[.begin call.caller call.caller.toInt64 true, .dump, .dump, .dump, .dump],
    result.done next (.stack s.comm.stack), ?_, ?_⟩
  · simp only [Machine.run_cons, hbegin, hset, hsend, hpoll, htake, Option.bind_some]
    rfl
  · exact List.mem_append_right _ List.mem_cons_self

/-- a step that misses `Kept` can be continued to a run that breaks the handshake -/
theorem miss_breaks (hi : Inv s) (h : machine.step s o = some t) (hmiss : ¬ Kept s o) :
    ∃ ops u, machine.run t ops = some u ∧ ¬ Good u := by
  obtain ⟨haborted, hmove⟩ := step_moves h
  simp only [Kept, not_forall] at hmiss
  obtain ⟨rfl, call, hcall, hmiss⟩ := hmiss
  obtain ⟨call', hcall', hdump⟩ := Option.bind_eq_some_iff.1 hmove
  obtain rfl := Option.some.inj (hcall'.symm.trans hcall)
  split_ifs at hdump with hfree
  obtain rfl := Option.some.inj hdump
  rcases not_and_or.1 hmiss with hmiss | hmiss
  · simp only [not_forall] at hmiss
    obtain ⟨hpc, hlive, htid⟩ := hmiss
    obtain ⟨ops, u, hrun, hu⟩ := truncated_aborts hi haborted hcall hfree hpc hlive htid
    refine ⟨ops, u, ?_, fun hg => Bool.false_ne_true (hg.1.symm.trans hu)⟩
    simp only [dump, hpc]
    exact hrun
  · simp only [not_forall, Bool.not_eq_false] at hmiss
    obtain ⟨hpc, hready⟩ := hmiss
    obtain ⟨ops, u, hrun, hu⟩ := leftover_returned hi haborted hcall hfree hready
    refine ⟨ops, u, ?_, fun hg => ?_⟩
    · simp only [dump, hpc]
      exact hrun
    · -- the stack is of an earlier call
      have hnumber := (hg.2 _ hu _ rfl).2
      have hcollected := hi.collected
      dsimp only at hnumber
      omega

/-- **The handshake**, in a run along `Kept`: a returned stack was collected by the thread asked for during the call, and no
`CHECK` fails. Elsewhere some continuation of the run breaks this. -/
theorem dump_handshake {ops : List Op} (hrun : machine.run machine.init ops = some s) :
    (machine.Along Kept machine.init ops → Good s) ∧
    ∀ o t, machine.step s o = some t → ¬ Kept s o → ∃ more u, machine.run t more = some u ∧ ¬ Good u :=
  ⟨fun hkept => (run_fresh hkept hrun).good, fun _ _ h hmiss => miss_breaks (run_inv hrun) h hmiss⟩

/-- a first call that times out; its signal is delivered during the second one, before that sends its own -/
def lateSignal : List Op :=
  .spawn 1 :: .spawn 2 :: .begin 1 2 true :: List.append (List.replicate 104 .dump)
    [.begin 1 2 true, .dump, .deliver 2, .handle 2 [7]]

def afterLateSignal : St :=
  ⟨⟨⟨[7], 2, 2⟩, 2, true⟩, some ⟨1, 2, .targeted⟩, 2, [2, 1], [], [], [⟨1, 2, didNotRespond⟩], false⟩

theorem run_lateSignal (ops : List Op) :
    machine.run machine.init (lateSignal ++ ops) = machine.run afterLateSignal ops := by
  have hrun : machine.run machine.init lateSignal = some afterLateSignal := by decide +kernel
  rw [Machine.run_append, hrun, Option.bind_some]

/-- the second call returns the stack that the late signal collected -/
theorem dump_handshake_lateSignal :
    ∃ s, machine.run machine.init (lateSignal ++ [Op.dump, .dump, .dump]) = some s ∧
      s.returns = [⟨1, 2, didNotRespond⟩, ⟨2, 2, .stack ⟨[7], 2, 2⟩⟩] ∧ Good s := by
  have hkept : machine.Along Kept machine.init (lateSignal ++ [Op.dump, .dump, .dump]) := by decide +kernel
  have hrun : machine.run afterLateSignal [.dump, .dump, .dump] = some _ := rfl
  rw [← run_lateSignal] at hrun
  exact ⟨_, hrun, rfl, (dump_handshake hrun).1 hkept⟩

/-- after the late signal the thread exits, and the next call returns its stack for another thread; a tid above 32 bits
fails a `CHECK` -/
theorem stale_result :
    (∃ s, machine.run machine.init
        (lateSignal ++ [Op.exit 2, .dump, .dump, .spawn 3, .begin 1 3 true, .dump, .dump, .dump, .dump]) = some s ∧
      s.returns = [⟨1, 2, didNotRespond⟩, ⟨2, 2, unableToDeliver⟩, ⟨3, 3, .stack ⟨[7], 2, 2⟩⟩] ∧ ¬ Good s) ∧
    ∃ s, machine.run machine.init
        [.spawn 1, .spawn 2, .begin 1 0x100000002 true, .dump, .dump, .deliver 2, .handle 2 [7], .dump, .dump] = some s ∧
      s.aborted = true ∧ ¬ Good s := by
  refine ⟨?_, _, rfl, rfl, fun hg => Bool.noConfusion hg.1⟩
  rw [run_lateSignal]
  refine ⟨_, rfl, rfl, fun hg => ?_⟩
  have hnumber : 2 = 3 := (hg.2 ⟨3, 3, .stack ⟨[7], 2, 2⟩⟩ (List.mem_of_getElem? (i := 2) rfl) _ rfl).2
  omega

end Bboy.DebugUtil
