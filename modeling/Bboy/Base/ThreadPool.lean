/-
`ThreadPool` (`base/thread/threadpool.{h,cc}`) as a machine: any number of threads call Submit, Wait, WaitFor and
Shutdown while the pool's workers run DispatchThread, interleaved arbitrarily.

A step is what a thread does between two points where `lock_` is free: a whole critical section, or one of the things
done outside it (running a task, the `Signal()` that Submit sends after it has unlocked, waking up on a condition
variable). So in every state of a run the lock is free.

- Workers: each has its thread, its `permanent` flag and a program counter (`Pc`) that names where in DispatchThread it
  is. `dispatch` is the critical section, from `Lock()` (or the return of a wait) to the next wait, task or exit.
- Condition variables: a thread that waits is asleep until it wakes (`wake`, `resume`), notified or spuriously, or until
  its timeout passes (`expire`, `giveUp`). `notified` says that a signal or a broadcast has reached it.
- Thread creation succeeds or fails as the environment decides.
- A CHECK that fails sets `checkFailed`. A call from a pool thread that CheckNotPoolThreadUnlocked rejects is not enabled.
- Counters are exact integers. Times are nanoseconds.

Ghosts: `submitted` (each Submit's entry with its result), `enqueued`, `dequeued`, `dropped` (by Shutdown), `ran` (each
run, with the position of its entry among the dequeued ones).
-/
import Bboy.Core.Machine
import Bboy.Base.Status

namespace Bboy.ThreadPool

open Core

variable {α : Type}

/-! ## State -/

/-- what the builder accepts -/
structure Builder where
  minThreads : ℤ
  maxThreads : ℤ
  maxQueueSize : ℤ
  idleTimeout : ℤ
  min_nonneg : 0 ≤ minThreads
  max_pos : 0 < maxThreads

structure QueueEntry (α : Type) where
  runnable : α
  submitTime : ℤ
deriving DecidableEq, Repr

/-- where a worker is in `DispatchThread` -/
inductive Pc (α : Type) where
  /-- about to lock and to go round the loop -/
  | ready
  | asleep (notified : Bool)
  /-- `TimedWait` is about to return false -/
  | expired
  /-- the entry at a position has been dequeued and is about to run -/
  | fetched (pos : ℕ) (entry : QueueEntry α)
  /-- the task has returned, the lock is about to be taken again -/
  | ran (pos : ℕ) (entry : QueueEntry α)
deriving DecidableEq, Repr

/-- counted in `active_threads_` -/
def Pc.busy : Pc α → Bool
  | .fetched _ _ => true
  | .ran _ _ => true
  | _ => false

@[simp] theorem Pc.busy_ready : (Pc.ready : Pc α).busy = false := rfl

@[simp] theorem Pc.busy_asleep (notified : Bool) : (Pc.asleep notified : Pc α).busy = false := rfl

@[simp] theorem Pc.busy_expired : (Pc.expired : Pc α).busy = false := rfl

@[simp] theorem Pc.busy_fetched (pos : ℕ) (e : QueueEntry α) : (Pc.fetched pos e).busy = true := rfl

@[simp] theorem Pc.busy_ran (pos : ℕ) (e : QueueEntry α) : (Pc.ran pos e).busy = true := rfl

/-- asleep, and no signal has reached it -/
def Pc.unnotified : Pc α → Bool
  | .asleep false => true
  | _ => false

structure Worker (α : Type) where
  thread : ℕ
  permanent : Bool
  pc : Pc α
deriving DecidableEq, Repr

inductive Cond where
  | idle
  | noThreads
deriving DecidableEq, Repr

/-- a caller asleep in Wait or WaitFor (`idle`) or in Shutdown (`noThreads`) -/
structure Sleeper where
  cond : Cond
  timed : Bool
  notified : Bool
deriving DecidableEq, Repr

/-- the members of `ThreadPool` that change -/
structure Pool (α : Type) where
  poolStatus : Status
  numThreads : ℤ
  activeThreads : ℤ
  queueSize : ℤ
  queue : List (QueueEntry α)
  threads : List ℕ

structure St (α : Type) where
  pool : Pool α
  workers : List (Worker α)
  sleepers : List Sleeper
  /-- Submits between their unlock and their `Signal()` -/
  signalsDue : ℕ
  nextThread : ℕ
  checkFailed : Bool
  submitted : List (QueueEntry α × Status)
  enqueued : List (QueueEntry α)
  dequeued : List (QueueEntry α)
  dropped : List (QueueEntry α)
  ran : List (ℕ × QueueEntry α)

/-- the thread that calls a method -/
inductive Caller where
  | poolThread (thread : ℕ)
  | other
deriving DecidableEq, Repr

inductive Op (α : Type) where
  | init (created : ℕ → Except BadStatus Unit)
  | submit (task : α) (submitTime : ℤ) (created : Except BadStatus Unit)
  | signal (target : Option ℕ)
  | dispatch (i : ℕ)
  | runTask (i : ℕ)
  | wake (i : ℕ)
  | expire (i : ℕ)
  | shutdown (caller : Caller)
  | wait (caller : Caller)
  | waitFor (caller : Caller) (delta : ℤ)
  | resume (j : ℕ)
  | giveUp (j : ℕ)

def uninitializedStatus : Status := .bad (.uninitialized "The pool was not initialized.")

def shutDownStatus : Status := .bad (.serviceUnavailable "The pool has been shut down.")

def atCapacityStatus (b : Builder) (p : Pool α) : Status :=
  .bad (.serviceUnavailable ("Thread pool is at capacity (" ++ toString p.numThreads ++ "/" ++ toString b.maxThreads ++
    " tasks running, " ++ toString p.queueSize ++ "/" ++ toString b.maxQueueSize ++ " tasks queued)"))

/-! ## Condition variables -/

/-- `not_empty_.Broadcast()` -/
def broadcastNotEmpty (workers : List (Worker α)) : List (Worker α) :=
  workers.map fun w => match w.pc with
    | .asleep _ => { w with pc := .asleep true }
    | _ => w

/-- `Broadcast()` of `idle_cond_` or `no_threads_cond_` -/
def broadcast (cond : Cond) (sleepers : List Sleeper) : List Sleeper :=
  sleepers.map fun c => if c.cond = cond then { c with notified := true } else c

/-! ## Methods -/

/-- the new thread, registered with `InsertOrDie` -/
def addWorker (b : Builder) (s : St α) : St α :=
  { s with
    pool := { s.pool with
      numThreads := s.pool.numThreads + 1
      threads := s.pool.threads ++ [s.nextThread] }
    workers := s.workers ++ [⟨s.nextThread, s.pool.numThreads < b.minThreads, .ready⟩]
    nextThread := s.nextThread + 1
    checkFailed := s.checkFailed || s.pool.threads.contains s.nextThread }

/-- the status of `Thread::Create` is not returned -/
def createThreadUnlocked (b : Builder) (s : St α) (created : Except BadStatus Unit) : Status × St α :=
  match created with
  | .error _ => (.ok, s)
  | .ok () => (.ok, addWorker b s)

/-- `n` rounds of the loop of Init, from round `i` on -/
def initLoop (b : Builder) (created : ℕ → Except BadStatus Unit) : ℕ → ℕ → St α → Option (Status × St α)
  | _, 0, s => some (.ok, s)
  | i, n + 1, s =>
    match createThreadUnlocked b s (created i) with
    | (.ok, s) => initLoop b created (i + 1) n s
    -- Shutdown() would lock `lock_` again
    | (.bad _, _) => none

def init (b : Builder) (s : St α) (created : ℕ → Except BadStatus Unit) : Option (Status × St α) :=
  if s.pool.poolStatus.isUninitialized then
    initLoop b created 0 b.minThreads.toNat { s with pool := { s.pool with poolStatus := .ok } }
  else some (.bad (.notSupported "The thread pool is already initialized"), s)

/-- the end of Submit, from `QueueEntry e` on -/
def enqueue (s : St α) (e : QueueEntry α) : St α :=
  { s with
    pool := { s.pool with queue := s.pool.queue ++ [e], queueSize := s.pool.queueSize + 1 }
    signalsDue := s.signalsDue + 1
    enqueued := s.enqueued ++ [e] }

def submit (b : Builder) (s : St α) (e : QueueEntry α) (created : Except BadStatus Unit) : Status × St α :=
  if s.pool.poolStatus ≠ .ok then (s.pool.poolStatus, s)
  else if b.maxThreads - s.pool.activeThreads + b.maxQueueSize - s.pool.queueSize < 1 then
    (atCapacityStatus b s.pool, s)
  else
    let inactiveThreads := s.pool.numThreads - s.pool.activeThreads
    let additionalThreads := s.pool.queueSize + 1 - inactiveThreads
    if 0 < additionalThreads ∧ s.pool.numThreads < b.maxThreads then
      match createThreadUnlocked b s created with
      | (.ok, s) => (.ok, enqueue s e)
      | (.bad err, s) => if s.pool.numThreads = 0 then (.bad err, s) else (.ok, enqueue s e)
    else (.ok, enqueue s e)

/-- the end of DispatchThread, after its loop -/
def exitThread (s : St α) (i : ℕ) (w : Worker α) : St α :=
  let numThreads := s.pool.numThreads - 1
  { s with
    pool := { s.pool with numThreads := numThreads, threads := s.pool.threads.erase w.thread }
    workers := s.workers.eraseIdx i
    sleepers := if numThreads = 0 then broadcast .noThreads s.sleepers else s.sleepers
    checkFailed := s.checkFailed || !s.pool.threads.contains w.thread ||
      (numThreads = 0 && (!s.pool.queue.isEmpty || s.pool.queueSize != 0)) }

def setPc (s : St α) (i : ℕ) (w : Worker α) (pc : Pc α) : St α :=
  { s with workers := s.workers.set i { w with pc := pc } }

/-- `Fetch pending task` -/
def fetchTask (s : St α) (i : ℕ) (w : Worker α) (e : QueueEntry α) (rest : List (QueueEntry α)) : St α :=
  { setPc s i w (.fetched s.dequeued.length e) with
    pool := { s.pool with
      queue := rest
      queueSize := s.pool.queueSize - 1
      activeThreads := s.pool.activeThreads + 1 }
    dequeued := s.dequeued ++ [e] }

/-- one round of the loop of DispatchThread, up to where it gives up the lock -/
def dispatchLoop (b : Builder) (s : St α) (i : ℕ) (w : Worker α) : St α :=
  if s.pool.poolStatus ≠ .ok then exitThread s i w
  else
    match s.pool.queue with
    | [] =>
      -- TimedWait returns false at once on a negative timeout
      if w.permanent = false ∧ b.idleTimeout < 0 then exitThread s i w else setPc s i w (.asleep false)
    | e :: rest => fetchTask s i w e rest

/-- `if (--active_threads_ == 0) idle_cond_.Broadcast()` -/
def finishTask (s : St α) (i : ℕ) (w : Worker α) : St α :=
  { setPc s i w .ready with
    pool := { s.pool with activeThreads := s.pool.activeThreads - 1 }
    sleepers := if s.pool.activeThreads - 1 = 0 then broadcast .idle s.sleepers else s.sleepers }

/-- from the lock to where it is given up again -/
def dispatch (b : Builder) (s : St α) (i : ℕ) (w : Worker α) : Option (St α) :=
  match w.pc with
  | .ready => some (dispatchLoop b s i w)
  | .expired => some (if s.pool.queue.isEmpty then exitThread s i w else dispatchLoop b s i w)
  | .ran _ _ => some (dispatchLoop b (finishTask s i w) i { w with pc := .ready })
  | .asleep _ => none
  | .fetched _ _ => none

def runTask (s : St α) (i : ℕ) (w : Worker α) : Option (St α) :=
  match w.pc with
  | .fetched pos e => some { setPc s i w (.ran pos e) with ran := s.ran ++ [(pos, e)] }
  | _ => none

/-- Submit's `not_empty_.Signal()` wakes a worker that is not notified yet, if there is one -/
def signal (s : St α) : Option ℕ → Option (St α)
  | some i =>
    match s.workers[i]? with
    | some w =>
      if w.pc.unnotified then some { setPc s i w (.asleep true) with signalsDue := s.signalsDue - 1 } else none
    | none => none
  | none => if s.workers.any fun w => w.pc.unnotified then none else some { s with signalsDue := s.signalsDue - 1 }

def wake (s : St α) (i : ℕ) (w : Worker α) : Option (St α) :=
  match w.pc with
  | .asleep _ => some (setPc s i w .ready)
  | _ => none

def expire (s : St α) (i : ℕ) (w : Worker α) : Option (St α) :=
  match w.pc with
  | .asleep _ => if w.permanent then none else some (setPc s i w .expired)
  | _ => none

/-- `CheckNotPoolThreadUnlocked` -/
def notPoolThread (p : Pool α) : Caller → Bool
  | .poolThread t => !p.threads.contains t
  | .other => true

/-- Shutdown, up to its wait or its return -/
def shutdown (s : St α) : St α :=
  { s with
    pool := { s.pool with poolStatus := shutDownStatus, queue := [], queueSize := 0 }
    workers := broadcastNotEmpty s.workers
    sleepers := if 0 < s.pool.numThreads then s.sleepers ++ [⟨.noThreads, false, false⟩] else s.sleepers
    dropped := s.dropped ++ s.pool.queue }

/-- the condition of the loops of Wait and WaitFor, and of Shutdown -/
def mustWait (p : Pool α) : Cond → Bool
  | .idle => !p.queue.isEmpty || 0 < p.activeThreads
  | .noThreads => 0 < p.numThreads

/-- Wait and WaitFor, up to their wait or their return -/
def wait (s : St α) (delta : Option ℤ) : St α :=
  if mustWait s.pool .idle then
    match delta with
    | none => { s with sleepers := s.sleepers ++ [⟨.idle, false, false⟩] }
    | some d => if d < 0 then s else { s with sleepers := s.sleepers ++ [⟨.idle, true, false⟩] }
  else s

/-- a caller that wakes waits again or returns -/
def resume (s : St α) (j : ℕ) (c : Sleeper) : St α :=
  if mustWait s.pool c.cond then { s with sleepers := s.sleepers.set j { c with notified := false } }
  else { s with sleepers := s.sleepers.eraseIdx j }

/-! ## The machine -/

def initial : St α :=
  { pool := ⟨uninitializedStatus, 0, 0, 0, [], []⟩
    workers := []
    sleepers := []
    signalsDue := 0
    nextThread := 0
    checkFailed := false
    submitted := []
    enqueued := []
    dequeued := []
    dropped := []
    ran := [] }

def threadPool (α : Type) (b : Builder) : Machine (St α) (Op α) where
  init := initial
  step s
    | .init created => (init b s created).map Prod.snd
    | .submit task submitTime created =>
      let e : QueueEntry α := ⟨task, submitTime⟩
      let r := submit b s e created
      some { r.2 with submitted := s.submitted ++ [(e, r.1)] }
    | .signal target => if 0 < s.signalsDue then signal s target else none
    | .dispatch i => s.workers[i]?.bind (dispatch b s i)
    | .runTask i => s.workers[i]?.bind (runTask s i)
    | .wake i => s.workers[i]?.bind (wake s i)
    | .expire i => s.workers[i]?.bind (expire s i)
    | .shutdown caller => if notPoolThread s.pool caller then some (shutdown s) else none
    | .wait caller => if notPoolThread s.pool caller then some (wait s none) else none
    | .waitFor caller delta => if notPoolThread s.pool caller then some (wait s (some delta)) else none
    | .resume j => s.sleepers[j]?.map (resume s j)
    | .giveUp j => s.sleepers[j]?.bind fun c =>
        if c.timed then some { s with sleepers := s.sleepers.eraseIdx j } else none

end Bboy.ThreadPool
