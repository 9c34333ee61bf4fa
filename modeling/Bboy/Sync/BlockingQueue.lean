/-
Lean model of `BlockingQueue` (`bboy/base/sync/blocking_queue.h`), run by any number of producers and consumers.

A call takes `lock_` and runs up to where it gives the lock up again: it returns, it waits on a condition variable, or it
unlocks to signal `not_empty_`. Such a critical section is one step (`enter`). A waiter that is notified, or that wakes by
itself, runs the next round of its loop. `size_`, `max_size_` and the logical sizes are `size_t`, with its wraparound.

- `enter_cases`: what a critical section can do.
- `order_and_accounting`: what is delivered and what is queued are together what was inserted, in order; `size_` is the sum
  of the logical sizes and does not underflow; nothing is inserted at `size_ >= max_size_`; a call that does not succeed
  changes nothing.
Witness: `order_and_accounting_twoThreads`.
-/
import Bboy.Core.Machine
import Bboy.Core.Waiters

namespace Bboy.BlockingQueue

open Core

/-! ## The queue -/

inductive QueueStatus where
  | success
  | shutdown
  | full
  deriving DecidableEq, Repr

/-- the enumerators' values -/
def QueueStatus.code : QueueStatus → ℕ
  | .success => 0
  | .shutdown => 1
  | .full => 2

/-- the conversion to `bool` -/
def QueueStatus.toBool (s : QueueStatus) : Bool := s.code != 0

/-- `max_size_` and `LOGICAL_SIZE::logical_size` -/
structure Config (α : Type) where
  maxSize : UInt64
  logicalSize : α → UInt64

structure Queue (α : Type) where
  list : List α
  size : UInt64
  shutdown : Bool
  deriving DecidableEq, Repr

inductive Cond where
  | notEmpty
  | notFull
  deriving DecidableEq, Repr

/-- the calls; `Owned` are the overloads that take a `gscoped_ptr` -/
inductive Call (α : Type) where
  | put (v : α)
  | putOwned (v : α)
  | blockingPut (v : α)
  | blockingPutOwned (v : α)
  | blockingGet
  | blockingDrainTo
  | shutdown
  deriving DecidableEq, Repr

/-- what a call returns and does to the caller's arguments; `putStatus` is the result of the `Put` inside -/
inductive Report (α : Type) where
  | put (status : QueueStatus)
  | putOwned (status : QueueStatus) (released : Bool)
  | blockingPut (ok : Bool)
  | blockingPutOwned (putStatus : QueueStatus) (ok released : Bool)
  | blockingGet (out : Option α)
  | blockingDrainTo (out : Option (List α))
  | shutdown
  deriving DecidableEq, Repr

/-- what a critical section does to the condition variables before it gives up the lock -/
inductive Notify where
  | none
  | signalNotFull
  | broadcast
  deriving DecidableEq, Repr

/-- how a critical section ends; after `signals` the call still has to signal `not_empty_` -/
inductive Exit (α : Type) where
  | waits (cond : Cond)
  | returns (report : Report α) (notify : Notify)
  | signals (report : Report α)
  deriving DecidableEq, Repr

variable {α : Type} (cfg : Config α)

/-- `list_.push_back(val)` and `increment_size_unlocked` -/
def Queue.pushBack (q : Queue α) (v : α) : Queue α :=
  { q with list := q.list ++ [v], size := q.size + cfg.logicalSize v }

/-- `decrement_size_unlocked` for each element -/
def decrement (size : UInt64) (vs : List α) : UInt64 := vs.foldl (fun size v => size - cfg.logicalSize v) size

/-- `Put(const T&)`, up to its unlock or its return -/
def put (q : Queue α) (v : α) : Queue α × QueueStatus :=
  if q.size ≥ cfg.maxSize then (q, .full)
  else if q.shutdown then (q, .shutdown)
  else (q.pushBack cfg v, .success)

/-- a `Put` that inserted signals after its unlock -/
def putExit (s : QueueStatus) (report : Report α) : Exit α :=
  if s = .success then .signals report else .returns report .none

/-- one round of the loop -/
def blockingPut (q : Queue α) (v : α) : Queue α × Exit α :=
  if q.shutdown then (q, .returns (.blockingPut false) .none)
  else if q.size < cfg.maxSize then (q.pushBack cfg v, .signals (.blockingPut true))
  else (q, .waits .notFull)

/-- one round of the loop -/
def blockingGet (q : Queue α) : Queue α × Exit α :=
  match q.list with
  | v :: rest =>
    ({ q with list := rest, size := decrement cfg q.size [v] }, .returns (.blockingGet (some v)) .signalNotFull)
  | [] => if q.shutdown then (q, .returns (.blockingGet none) .none) else (q, .waits .notEmpty)

/-- one round of the loop -/
def blockingDrainTo (q : Queue α) : Queue α × Exit α :=
  match q.list with
  | v :: rest =>
    ({ q with list := [], size := decrement cfg q.size (v :: rest) },
      .returns (.blockingDrainTo (some (v :: rest))) .signalNotFull)
  | [] => if q.shutdown then (q, .returns (.blockingDrainTo none) .none) else (q, .waits .notEmpty)

def shutdown (q : Queue α) : Queue α × Exit α := ({ q with shutdown := true }, .returns .shutdown .broadcast)

/-- the critical section that a call runs next -/
def enter (q : Queue α) : Call α → Queue α × Exit α
  | .put v =>
    let r := put cfg q v
    (r.1, putExit r.2 (.put r.2))
  | .putOwned v =>
    let r := put cfg q v
    (r.1, putExit r.2 (.putOwned r.2 (r.2 = .success)))
  | .blockingPut v => blockingPut cfg q v
  | .blockingPutOwned v =>
    let r := put cfg q v
    -- bool ret = Put(val->get())
    let ret := r.2.toBool
    (r.1, putExit r.2 (.blockingPutOwned r.2 ret ret))
  | .blockingGet => blockingGet cfg q
  | .blockingDrainTo => blockingDrainTo cfg q
  | .shutdown => shutdown q

/-! ## Threads -/

inductive Pc where
  | entering
  | asleep (cond : Cond) (notified : Bool)
  | signalling
  deriving DecidableEq, Repr

/-- a thread inside a call -/
structure Thread (α : Type) where
  call : Call α
  pc : Pc
  deriving DecidableEq, Repr

/-- a thread that goes on as soon as it gets the lock -/
def Pc.ready : Pc → Bool
  | .entering => true
  | .asleep _ notified => notified
  | .signalling => false

def Thread.waitsOn (cond : Cond) (th : Thread α) : Bool := th.pc = .asleep cond false

def Thread.wokenOn (cond : Cond) (th : Thread α) : Bool := th.pc = .asleep cond true

def Thread.wake (th : Thread α) : Thread α :=
  match th.pc with
  | .asleep cond _ => { th with pc := .asleep cond true }
  | _ => th

/-- a critical section that was run: the call, the queue before and after, and its end -/
structure Section (α : Type) where
  call : Call α
  before : Queue α
  after : Queue α
  exit : Exit α
  deriving DecidableEq, Repr

/-- `history` is a ghost: every critical section, in order -/
structure St (α : Type) where
  queue : Queue α
  threads : List (Thread α)
  history : List (Section α)
  deriving DecidableEq, Repr

/-- `target` is the waiter that a signal wakes; `spurious` wakes one without a signal -/
inductive Op (α : Type) where
  | call (c : Call α)
  | run (i : ℕ) (target : Option ℕ)
  | signal (i : ℕ) (target : Option ℕ)
  | spurious (i : ℕ)
  deriving DecidableEq, Repr

/-- `not_full_.Signal()` or the broadcasts of `Shutdown` -/
def notifyThreads (threads : List (Thread α)) (target : Option ℕ) : Notify → Option (List (Thread α))
  | .none => some threads
  | .signalNotFull => wakeOne (Thread.waitsOn .notFull) Thread.wake threads target
  | .broadcast =>
    some (wakeAll (Thread.waitsOn .notEmpty) Thread.wake (wakeAll (Thread.waitsOn .notFull) Thread.wake threads))

/-- the end of a critical section; a call that returned is gone -/
def leave (threads : List (Thread α)) (i : ℕ) (c : Call α) (target : Option ℕ) :
    Exit α → Option (List (Thread α))
  | .waits cond => some (threads.set i ⟨c, .asleep cond false⟩)
  | .returns _ notify => notifyThreads (threads.eraseIdx i) target notify
  | .signals _ => some (threads.set i ⟨c, .signalling⟩)

def runThread (s : St α) (i : ℕ) (target : Option ℕ) (th : Thread α) : Option (St α) :=
  if th.pc.ready then
    let r := enter cfg s.queue th.call
    (leave s.threads i th.call target r.2).map fun threads =>
      ⟨r.1, threads, s.history ++ [⟨th.call, s.queue, r.1, r.2⟩]⟩
  else none

/-- `not_empty_.Signal()` after the unlock, and the return -/
def signalNotEmpty (s : St α) (i : ℕ) (target : Option ℕ) (th : Thread α) : Option (St α) :=
  if th.pc = .signalling then
    (wakeOne (Thread.waitsOn .notEmpty) Thread.wake (s.threads.eraseIdx i) target).map fun threads =>
      { s with threads := threads }
  else none

def spuriousWakeup (s : St α) (i : ℕ) (th : Thread α) : Option (St α) :=
  match th.pc with
  | .asleep cond false => some { s with threads := s.threads.set i { th with pc := .asleep cond true } }
  | _ => none

def machine : Machine (St α) (Op α) where
  init := ⟨⟨[], 0, false⟩, [], []⟩
  step s
    | .call c => some { s with threads := s.threads ++ [⟨c, .entering⟩] }
    | .run i target => s.threads[i]?.bind (runThread cfg s i target)
    | .signal i target => s.threads[i]?.bind (signalNotEmpty s i target)
    | .spurious i => s.threads[i]?.bind (spuriousWakeup s i)

/-! ## What a critical section does -/

def Call.element : Call α → Option α
  | .put v | .putOwned v | .blockingPut v | .blockingPutOwned v => some v
  | _ => none

def Call.consumer : Call α → Bool
  | .blockingGet | .blockingDrainTo => true
  | _ => false

def Call.blockingProducer : Call α → Bool
  | .blockingPut _ => true
  | _ => false

/-- the elements that a call hands to its caller -/
def Report.delivered : Report α → List α
  | .blockingGet (some v) => [v]
  | .blockingDrainTo (some vs) => vs
  | _ => []

/-- the call got or enqueued an element; for the overload of `BlockingPut` this is what the `Put` inside says -/
def Report.success : Report α → Bool
  | .put s | .putOwned s _ | .blockingPutOwned s _ _ => s = .success
  | .blockingPut ok => ok
  | .blockingGet out => out.isSome
  | .blockingDrainTo out => out.isSome
  | .shutdown => false

def Exit.report? : Exit α → Option (Report α)
  | .waits _ => none
  | .returns r _ | .signals r => some r

def Section.delivered (σ : Section α) : List α := (σ.exit.report?.map Report.delivered).getD []

/-- the element that was pushed: the call unlocks to signal `not_empty_` exactly then -/
def Section.inserted (σ : Section α) : List α :=
  match σ.exit with
  | .signals _ => σ.call.element.toList
  | _ => []

def Section.success (σ : Section α) : Bool := (σ.exit.report?.map Report.success).getD false

/-- the cases of a critical section of the call `c` at the queue `q` -/
inductive Enters (cfg : Config α) (c : Call α) (q : Queue α) : Queue α → Exit α → Prop
  | full (r : Report α) (hv : c.element.isSome) (hc : c.blockingProducer = false) (hfull : cfg.maxSize ≤ q.size)
    (hr : r.success = false) (hd : r.delivered = []) : Enters cfg c q q (.returns r .none)
  | refused (r : Report α) (hshut : q.shutdown = true) (hempty : c.consumer = true → q.list = [])
    (hr : r.success = false) (hd : r.delivered = []) : Enters cfg c q q (.returns r .none)
  | waitsNotFull (hc : c.blockingProducer = true) (hshut : q.shutdown = false) (hfull : cfg.maxSize ≤ q.size) :
    Enters cfg c q q (.waits .notFull)
  | waitsNotEmpty (hc : c.consumer = true) (hshut : q.shutdown = false) (hempty : q.list = []) :
    Enters cfg c q q (.waits .notEmpty)
  | inserts (v : α) (r : Report α) (hv : c.element = some v) (hshut : q.shutdown = false) (hroom : q.size < cfg.maxSize)
    (hr : r.success = true) (hd : r.delivered = []) : Enters cfg c q (q.pushBack cfg v) (.signals r)
  | delivers (rest : List α) (r : Report α) (hc : c.consumer = true) (hd : r.delivered ++ rest = q.list)
    (hne : r.delivered ≠ []) (hr : r.success = true) :
    Enters cfg c q { q with list := rest, size := decrement cfg q.size r.delivered } (.returns r .signalNotFull)
  | shuts (hc : c = .shutdown) : Enters cfg c q { q with shutdown := true } (.returns .shutdown .broadcast)

variable {cfg} {q q' : Queue α} {c : Call α} {v : α} {e : Exit α}

theorem put_cases (cfg : Config α) (q : Queue α) (v : α) :
    cfg.maxSize ≤ q.size ∧ put cfg q v = (q, .full) ∨
    q.size < cfg.maxSize ∧ q.shutdown = true ∧ put cfg q v = (q, .shutdown) ∨
    q.size < cfg.maxSize ∧ q.shutdown = false ∧ put cfg q v = (q.pushBack cfg v, .success) := by
  unfold put
  by_cases hfull : q.size ≥ cfg.maxSize
  · exact Or.inl ⟨hfull, if_pos hfull⟩
  · rw [if_neg hfull]
    have hroom : q.size < cfg.maxSize := UInt64.not_le.1 hfull
    by_cases hshut : q.shutdown = true
    · exact Or.inr (Or.inl ⟨hroom, hshut, if_pos hshut⟩)
    · exact Or.inr (Or.inr ⟨hroom, Bool.eq_false_iff.2 hshut, if_neg hshut⟩)

/-- a call that runs `Put`, and reports `r s` when the status is `s` -/
theorem put_enters {r : QueueStatus → Report α} (hv : c.element = some v) (hc : c.blockingProducer = false)
    (hcons : c.consumer = false) (hr : ∀ s, (r s).success = decide (s = .success)) (hd : ∀ s, (r s).delivered = []) :
    Enters cfg c q (put cfg q v).1 (putExit (put cfg q v).2 (r (put cfg q v).2)) := by
  rcases put_cases cfg q v with ⟨hfull, heq⟩ | ⟨-, hshut, heq⟩ | ⟨hroom, hshut, heq⟩
  · rw [heq]
    exact Enters.full _ (by simp [hv]) hc hfull (hr _) (hd _)
  · rw [heq]
    exact Enters.refused _ hshut (by simp [hcons]) (hr _) (hd _)
  · rw [heq]
    exact Enters.inserts v _ hv hshut hroom (hr _) (hd _)

/-- **What a critical section can do.** -/
theorem enter_cases (cfg : Config α) (q : Queue α) (c : Call α) : Enters cfg c q (enter cfg q c).1 (enter cfg q c).2 := by
  cases c with
  | put v => exact put_enters (r := .put) rfl rfl rfl (fun _ => rfl) fun _ => rfl
  | putOwned v =>
    exact put_enters (r := fun s => .putOwned s (s = .success)) rfl rfl rfl (fun _ => rfl) fun _ => rfl
  | blockingPutOwned v =>
    exact put_enters (r := fun s => .blockingPutOwned s s.toBool s.toBool) rfl rfl rfl (fun _ => rfl) fun _ => rfl
  | blockingPut v =>
    simp only [enter, blockingPut]
    by_cases hshut : q.shutdown = true
    · rw [if_pos hshut]
      exact Enters.refused _ hshut (by simp [Call.consumer]) rfl rfl
    · rw [if_neg hshut]
      have hshut := Bool.eq_false_iff.2 hshut
      by_cases hroom : q.size < cfg.maxSize
      · rw [if_pos hroom]
        exact Enters.inserts v _ rfl hshut hroom rfl rfl
      · rw [if_neg hroom]
        exact Enters.waitsNotFull rfl hshut (UInt64.not_lt.1 hroom)
  | blockingGet =>
    cases hlist : q.list with
    | nil =>
      simp only [enter, blockingGet, hlist]
      by_cases hshut : q.shutdown = true
      · rw [if_pos hshut]
        exact Enters.refused _ hshut (fun _ => hlist) rfl rfl
      · rw [if_neg hshut]
        exact Enters.waitsNotEmpty rfl (Bool.eq_false_iff.2 hshut) hlist
    | cons v rest =>
      simp only [enter, blockingGet, hlist]
      exact Enters.delivers rest (.blockingGet (some v)) rfl hlist.symm (List.cons_ne_nil v []) rfl
  | blockingDrainTo =>
    cases hlist : q.list with
    | nil =>
      simp only [enter, blockingDrainTo, hlist]
      by_cases hshut : q.shutdown = true
      · rw [if_pos hshut]
        exact Enters.refused _ hshut (fun _ => hlist) rfl rfl
      · rw [if_neg hshut]
        exact Enters.waitsNotEmpty rfl (Bool.eq_false_iff.2 hshut) hlist
    | cons v rest =>
      simp only [enter, blockingDrainTo, hlist]
      exact Enters.delivers [] (.blockingDrainTo (some (v :: rest))) rfl (by simp [Report.delivered, hlist])
        (List.cons_ne_nil v rest) rfl
  | shutdown => exact Enters.shuts rfl

/-! ## Steps -/

variable {s t : St α} {o : Op α}

/-- the steps of the machine, with the cases of a critical section -/
inductive Steps (cfg : Config α) (s : St α) : Op α → St α → Prop
  | call (c : Call α) : Steps cfg s (.call c) { s with threads := s.threads ++ [⟨c, .entering⟩] }
  | run {i target th q e threads} (hth : s.threads[i]? = some th) (hready : th.pc.ready = true)
    (hsec : enter cfg s.queue th.call = (q, e)) (henter : Enters cfg th.call s.queue q e)
    (hleave : leave s.threads i th.call target e = some threads) :
    Steps cfg s (.run i target) ⟨q, threads, s.history ++ [⟨th.call, s.queue, q, e⟩]⟩
  | signal {i target th threads} (hth : s.threads[i]? = some th) (hpc : th.pc = .signalling)
    (hwake : wakeOne (Thread.waitsOn .notEmpty) Thread.wake (s.threads.eraseIdx i) target = some threads) :
    Steps cfg s (.signal i target) { s with threads := threads }
  | spurious {i th cond} (hth : s.threads[i]? = some th) (hpc : th.pc = .asleep cond false) :
    Steps cfg s (.spurious i) { s with threads := s.threads.set i { th with pc := .asleep cond true } }

theorem step_cases (h : (machine cfg).step s o = some t) : Steps cfg s o t := by
  cases o with
  | call c =>
    cases h
    exact Steps.call c
  | run i target =>
    obtain ⟨th, hth, hrun⟩ := Option.bind_eq_some_iff.1 h
    unfold runThread at hrun
    split_ifs at hrun with hready
    obtain ⟨threads, hleave, rfl⟩ := Option.map_eq_some_iff.1 hrun
    exact Steps.run hth hready rfl (enter_cases cfg s.queue th.call) hleave
  | signal i target =>
    obtain ⟨th, hth, hsignal⟩ := Option.bind_eq_some_iff.1 h
    unfold signalNotEmpty at hsignal
    split_ifs at hsignal with hpc
    obtain ⟨threads, hwake, rfl⟩ := Option.map_eq_some_iff.1 hsignal
    exact Steps.signal hth hpc hwake
  | spurious i =>
    obtain ⟨th, hth, hspurious⟩ := Option.bind_eq_some_iff.1 h
    unfold spuriousWakeup at hspurious
    split at hspurious
    · cases hspurious
      exact Steps.spurious hth ‹_›
    · cases hspurious

/-- a waiter that is woken waits on nothing any more -/
theorem wake_waitsOn {th : Thread α} {cond : Cond} (h : th.waitsOn cond = true) (cond' : Cond) :
    th.wake.waitsOn cond' = false := by
  have hpc : th.pc = .asleep cond false := of_decide_eq_true h
  simp [Thread.waitsOn, Thread.wake, hpc]

/-- the broadcasts of `Shutdown` leave no waiter -/
theorem broadcast_awake (threads : List (Thread α)) :
    ∀ th ∈ wakeAll (Thread.waitsOn .notEmpty) Thread.wake (wakeAll (Thread.waitsOn .notFull) Thread.wake threads),
      ∀ cond, th.waitsOn cond = false := by
  have hfull : ∀ th ∈ wakeAll (Thread.waitsOn .notFull) Thread.wake threads, th.waitsOn .notFull = false :=
    wakeAll_waiters fun th hth => wake_waitsOn hth .notFull
  intro th hth cond
  cases cond with
  | notEmpty => exact wakeAll_waiters (p := Thread.waitsOn .notEmpty) (fun th hth => wake_waitsOn hth .notEmpty) th hth
  | notFull =>
    obtain ⟨th', hth', rfl⟩ := List.mem_map.1 hth
    split_ifs with hwait
    · exact wake_waitsOn hwait .notFull
    · exact hfull th' hth'

/-- what the waking of a thread keeps holds of the threads after a call returned -/
theorem returns_forall {K : Thread α → Prop} {l l' : List (Thread α)} {i : ℕ} {target : Option ℕ} {r : Report α}
    {n : Notify} (hl : ∀ th ∈ l, K th)
    (hwake : ∀ (th : Thread α) (cond : Cond), th.waitsOn cond = true → K th → K th.wake)
    (h : leave l i c target (.returns r n) = some l') : ∀ th ∈ l', K th := by
  have herase : ∀ th ∈ l.eraseIdx i, K th := fun th hth => hl th (List.mem_of_mem_eraseIdx hth)
  cases n with
  | none =>
    cases h
    exact herase
  | signalNotFull => exact wakeOne_forall herase (fun th => hwake th .notFull) h
  | broadcast =>
    cases h
    exact wakeAll_forall (wakeAll_forall herase fun th => hwake th .notFull) fun th => hwake th .notEmpty

/-- nobody is left asleep after `Shutdown` -/
def Awake (s : St α) : Prop := s.queue.shutdown = true → ∀ th ∈ s.threads, ∀ cond, th.waitsOn cond = false

theorem step_awake (hi : Awake s) (h : (machine cfg).step s o = some t) : Awake t := by
  intro hshut
  have hstays : ∀ {l l' : List (Thread α)} {i target c r n}, (∀ th ∈ l, ∀ cond, th.waitsOn cond = false) →
      leave l i c target (.returns r n) = some l' → ∀ th ∈ l', ∀ cond, th.waitsOn cond = false :=
    fun hl hleave => returns_forall hl (fun _ _ hwait _ => wake_waitsOn hwait) hleave
  cases step_cases h with
  | call c =>
    intro th hth cond
    rcases List.mem_append.1 hth with hth | hth
    · exact hi hshut th hth cond
    · rw [List.mem_singleton.1 hth]
      rfl
  | run hth hready hsec henter hleave =>
    cases henter with
    | full r hv hc hfull hr hd => exact hstays (hi hshut) hleave
    | refused r hshut' hempty hr hd => exact hstays (hi hshut) hleave
    | waitsNotFull hc hshut' hfull => exact absurd hshut (Bool.eq_false_iff.1 hshut')
    | waitsNotEmpty hc hshut' hempty => exact absurd hshut (Bool.eq_false_iff.1 hshut')
    | inserts v r hv hshut' hroom hr hd => exact absurd hshut (Bool.eq_false_iff.1 hshut')
    | delivers rest r hc hd hne hr => exact hstays (hi hshut) hleave
    | shuts hc =>
      cases hleave
      exact broadcast_awake _
  | signal hth hpc hwake =>
    exact wakeOne_forall (fun th hth => hi hshut th (List.mem_of_mem_eraseIdx hth))
      (fun _ hwait _ => wake_waitsOn hwait) hwake
  | spurious hth hpc =>
    intro th hth cond
    rcases List.mem_or_eq_of_mem_set hth with hth | rfl
    · exact hi hshut th hth cond
    · simp [Thread.waitsOn]

/-! ## Order and accounting -/

/-- the sum of the logical sizes, without wraparound -/
def load (cfg : Config α) (vs : List α) : ℕ := (vs.map fun v => (cfg.logicalSize v).toNat).sum

def delivered (s : St α) : List α := s.history.flatMap Section.delivered

def inserted (s : St α) : List α := s.history.flatMap Section.inserted

@[simp] theorem load_append (vs ws : List α) : load cfg (vs ++ ws) = load cfg vs + load cfg ws := by
  simp [load]

@[simp] theorem load_cons (v : α) (vs : List α) : load cfg (v :: vs) = (cfg.logicalSize v).toNat + load cfg vs := by
  simp [load]

@[simp] theorem load_nil : load cfg [] = 0 := rfl

/-- the elements are taken off modulo `2 ^ 64` -/
theorem decrement_mod (cfg : Config α) (size : UInt64) (vs : List α) :
    ((decrement cfg size vs).toNat + load cfg vs) % 2 ^ 64 = size.toNat := by
  induction vs generalizing size with
  | nil => exact Nat.mod_eq_of_lt size.toNat_lt
  | cons v vs ih =>
    have hstep : decrement cfg size (v :: vs) = decrement cfg (size - cfg.logicalSize v) vs := rfl
    have hsub : (size - cfg.logicalSize v).toNat = (2 ^ 64 - (cfg.logicalSize v).toNat + size.toNat) % 2 ^ 64 :=
      UInt64.toNat_sub size (cfg.logicalSize v)
    have hv := (cfg.logicalSize v).toNat_lt
    have hsize := size.toNat_lt
    have ih := ih (size - cfg.logicalSize v)
    rw [hstep, load_cons]
    omega

/-- what is not more than the size is taken off without underflow -/
theorem decrement_toNat {size : UInt64} {vs : List α} (h : load cfg vs ≤ size.toNat) :
    (decrement cfg size vs).toNat = size.toNat - load cfg vs := by
  have hmod := decrement_mod cfg size vs
  have hlt := (decrement cfg size vs).toNat_lt
  have hsize := size.toNat_lt
  omega

/-- what holds of a critical section -/
structure SectionInv (cfg : Config α) (σ : Section α) : Prop where
  list : σ.before.list ++ σ.inserted = σ.delivered ++ σ.after.list
  queued : σ.delivered <+: σ.before.list
  room : σ.inserted ≠ [] → σ.before.size < cfg.maxSize
  size : σ.before.size.toNat = load cfg σ.before.list % 2 ^ 64
  unchanged : σ.success = false → σ.after.list = σ.before.list ∧ σ.after.size = σ.before.size

structure QueueInv (cfg : Config α) (s : St α) : Prop where
  fifo : delivered s ++ s.queue.list = inserted s
  size : s.queue.size.toNat = load cfg s.queue.list % 2 ^ 64
  sections : ∀ σ ∈ s.history, SectionInv cfg σ

/-- a critical section keeps the size in step with the list -/
theorem enters_size (h : Enters cfg c q q' e) (hsize : q.size.toNat = load cfg q.list % 2 ^ 64) :
    q'.size.toNat = load cfg q'.list % 2 ^ 64 := by
  cases h with
  | inserts v r hv hshut hroom hr hd =>
    have hadd : (q.pushBack cfg v).size.toNat = (q.size.toNat + (cfg.logicalSize v).toNat) % 2 ^ 64 :=
      UInt64.toNat_add q.size (cfg.logicalSize v)
    rw [hadd, hsize]
    simp [Queue.pushBack]
  | delivers rest r hc hd hne hr =>
    have hmod := decrement_mod cfg q.size r.delivered
    have hlt := (decrement cfg q.size r.delivered).toNat_lt
    have hload : load cfg q.list = load cfg r.delivered + load cfg rest := by rw [← hd, load_append]
    show (decrement cfg q.size r.delivered).toNat = load cfg rest % 2 ^ 64
    omega
  | _ => exact hsize

theorem enters_section (h : Enters cfg c q q' e) (hsize : q.size.toNat = load cfg q.list % 2 ^ 64) :
    SectionInv cfg ⟨c, q, q', e⟩ := by
  have hlist : q.list ++ Section.inserted ⟨c, q, q', e⟩ = Section.delivered ⟨c, q, q', e⟩ ++ q'.list := by
    cases h with
    | full r hv hc hfull hr hd => simp [Section.inserted, Section.delivered, Exit.report?, hd]
    | refused r hshut hempty hr hd => simp [Section.inserted, Section.delivered, Exit.report?, hd]
    | waitsNotFull hc hshut hfull => simp [Section.inserted, Section.delivered, Exit.report?]
    | waitsNotEmpty hc hshut hempty => simp [Section.inserted, Section.delivered, Exit.report?]
    | inserts v r hv hshut hroom hr hd =>
      simp [Section.inserted, Section.delivered, Exit.report?, hv, hd, Queue.pushBack]
    | delivers rest r hc hd hne hr => simp [Section.inserted, Section.delivered, Exit.report?, hd]
    | shuts hc => simp [Section.inserted, Section.delivered, Exit.report?, Report.delivered]
  refine ⟨hlist, ?_, fun hne => ?_, hsize, fun hfail => ?_⟩
  · cases h with
    | inserts v r hv hshut hroom hr hd => simp [Section.delivered, Exit.report?, hd]
    | _ => exact ⟨_, hlist.symm.trans (List.append_nil q.list)⟩
  · cases h with
    | inserts v r hv hshut hroom hr hd => exact hroom
    | _ => exact absurd rfl hne
  · cases h with
    | inserts v r hv hshut hroom hr hd => simp [Section.success, Exit.report?, hr] at hfail
    | delivers rest r hc hd hne hr => simp [Section.success, Exit.report?, hr] at hfail
    | _ => exact ⟨rfl, rfl⟩

theorem step_queueInv (hi : QueueInv cfg s) (h : (machine cfg).step s o = some t) : QueueInv cfg t := by
  cases step_cases h with
  | run hth hready hsec henter hleave =>
    have hsec := enters_section henter hi.size
    refine ⟨?_, enters_size henter hi.size, fun σ hσ => ?_⟩
    · simp only [delivered, inserted, List.flatMap_append, List.flatMap_cons, List.flatMap_nil, List.append_nil,
        List.append_assoc]
      rw [← hsec.list, ← List.append_assoc]
      exact congrArg (· ++ _) hi.fifo
    · rcases List.mem_append.1 hσ with hσ | hσ
      · exact hi.sections σ hσ
      · rw [List.mem_singleton.1 hσ]
        exact hsec
  | _ => exact ⟨hi.fifo, hi.size, hi.sections⟩

theorem queueInv_init : QueueInv cfg (machine cfg).init := ⟨rfl, rfl, fun _ hσ => absurd hσ List.not_mem_nil⟩

/-- **FIFO order and the accounting of `size_`**, in every run. -/
theorem order_and_accounting {ops : List (Op α)} (hrun : (machine cfg).run (machine cfg).init ops = some s) :
    delivered s ++ s.queue.list = inserted s ∧
    (load cfg s.queue.list < 2 ^ 64 → s.queue.size.toNat = load cfg s.queue.list) ∧
    ∀ σ ∈ s.history,
      σ.before.list ++ σ.inserted = σ.delivered ++ σ.after.list ∧
      (σ.inserted ≠ [] → σ.before.size < cfg.maxSize) ∧
      (load cfg σ.before.list < 2 ^ 64 → ∀ vs v ws, σ.delivered = vs ++ v :: ws →
        cfg.logicalSize v ≤ decrement cfg σ.before.size vs) ∧
      (σ.success = false → σ.after.list = σ.before.list ∧ σ.after.size = σ.before.size) := by
  have hi : QueueInv cfg s := Machine.run_inv (fun _ _ _ hi h => step_queueInv hi h) queueInv_init hrun
  refine ⟨hi.fifo, fun hlt => by rw [hi.size, Nat.mod_eq_of_lt hlt], fun σ hσ => ?_⟩
  have hsec := hi.sections σ hσ
  refine ⟨hsec.list, hsec.room, fun hlt vs v ws hd => ?_, hsec.unchanged⟩
  have hsize : σ.before.size.toNat = load cfg σ.before.list := by rw [hsec.size, Nat.mod_eq_of_lt hlt]
  obtain ⟨rest, hrest⟩ := hsec.queued
  have hload : load cfg vs + ((cfg.logicalSize v).toNat + load cfg ws) + load cfg rest = load cfg σ.before.list := by
    rw [← hrest, hd, load_append, load_append, load_cons]
  rw [UInt64.le_iff_toNat_le, decrement_toNat (by omega)]
  omega

/-- a put, a consumer that sleeps before it, and the signal between them -/
theorem order_and_accounting_twoThreads :
    let cfg : Config ℕ := ⟨2, fun _ => 1⟩
    let ops : List (Op ℕ) := [.call .blockingGet, .run 0 none, .call (.put 7), .run 1 none, .signal 1 (some 0),
      .run 0 none]
    ∃ s, (machine cfg).run (machine cfg).init ops = some s ∧ delivered s = [7] ∧
      delivered s ++ s.queue.list = inserted s := by
  intro cfg ops
  refine ⟨_, rfl, rfl, ?_⟩
  exact (order_and_accounting (rfl : (machine cfg).run (machine cfg).init ops = some _)).1

end Bboy.BlockingQueue
