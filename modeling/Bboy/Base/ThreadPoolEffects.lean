/-
The steps of the pool, as far as its counters and its queue go. A critical section changes these in a few ways only
(`Effect`): a thread is created, an entry accepted or refused, an entry fetched, a task finished, a worker moves between
waiting and the loop or leaves, the pool shuts down. Each effect carries the condition under which the code gets there;
who waits for what is left out (`Move` has it). An invariant of the counters or of the queue is proved effect by effect;
`step_effects` says that every step is a sequence of effects.
-/
import Bboy.Base.ThreadPoolMoves

namespace Bboy.ThreadPool

open Core

variable {α : Type} {b : Builder}

inductive Effect (b : Builder) : St α → St α → Prop
  | start {s} (h : s.pool.poolStatus.isUninitialized) :
    Effect b s { s with pool := { s.pool with poolStatus := .ok } }
  | create {s} (hok : s.pool.poolStatus = .ok) (hroom : s.pool.numThreads < max b.minThreads b.maxThreads) :
    Effect b s (addWorker b s)
  | accept {s} (e : QueueEntry α) (hok : s.pool.poolStatus = .ok)
    (hroom : s.pool.activeThreads + s.pool.queueSize < b.maxThreads + b.maxQueueSize) :
    Effect b s { enqueue s e with submitted := s.submitted ++ [(e, .ok)] }
  | refuse {s} (e : QueueEntry α) (err : BadStatus) : Effect b s { s with submitted := s.submitted ++ [(e, .bad err)] }
  | fetch {s i w e rest} (hw : s.workers[i]? = some w) (hpc : w.pc.busy = false) (hok : s.pool.poolStatus = .ok)
    (hq : s.pool.queue = e :: rest) : Effect b s (fetchTask s i w e rest)
  | run {s i w pos e} (hw : s.workers[i]? = some w) (hpc : w.pc = .fetched pos e) :
    Effect b s { setPc s i w (.ran pos e) with ran := s.ran ++ [(pos, e)] }
  | finish {s i w pos e} (hw : s.workers[i]? = some w) (hpc : w.pc = .ran pos e) : Effect b s (finishTask s i w)
  | move {s i w} (pc : Pc α) (hw : s.workers[i]? = some w) (hfrom : w.pc.busy = false) (hto : pc.busy = false) :
    Effect b s (setPc s i w pc)
  | exit {s i w} (hw : s.workers[i]? = some w) (hpc : w.pc.busy = false)
    (hwhy : s.pool.poolStatus ≠ .ok ∨ s.pool.queue = []) : Effect b s (exitThread s i w)
  | shutdown {s} : Effect b s (shutdown s)
  | callers {s} (sleepers : List Sleeper) (signalsDue : ℕ) :
    Effect b s { s with sleepers := sleepers, signalsDue := signalsDue }

/-- a sequence of effects -/
abbrev Effects (b : Builder) (s t : St α) : Prop := Relation.ReflTransGen (Effect b) s t

theorem Effect.effects {s t : St α} (h : Effect b s t) : Effects b s t := Relation.ReflTransGen.single h

theorem isUninitialized_ok {s : Status} (h : s = .ok) : s.isUninitialized = false := by
  rw [h]
  rfl

/-! ## Steps -/

/-- a move is a sequence of effects -/
theorem Move.effects {s t : St α} (h : Move b s t) : Effects b s t := by
  cases h with
  | start hu => exact (Effect.start hu).effects
  | create hok hroom => exact (Effect.create hok hroom).effects
  | fetch hw hpc hok hq => exact (Effect.fetch hw hpc hok hq).effects
  | run hw hpc => exact (Effect.run hw hpc).effects
  | finish hw hpc => exact (Effect.finish hw hpc).effects
  | sleep hw hpc hok hq => exact (Effect.move (.asleep false) hw hpc rfl).effects
  | awaken pc hw hpc hto => exact (Effect.move pc hw (by rw [hpc]; rfl) (by rcases hto with rfl | rfl <;> rfl)).effects
  | notify hw hpc hdue =>
    rename_i i w
    exact Relation.ReflTransGen.head (Effect.move (.asleep true) hw (by rw [hpc]; rfl) rfl)
      (Effect.callers (s := setPc s i w (.asleep true)) s.sleepers (s.signalsDue - 1)).effects
  | unheard hno => exact (Effect.callers s.sleepers (s.signalsDue - 1)).effects
  | exit hw hpc hwhy => exact (Effect.exit hw hpc hwhy).effects
  | wait timed hmust => exact (Effect.callers _ s.signalsDue).effects
  | again hc hmust => exact (Effect.callers _ s.signalsDue).effects
  | leave j => exact (Effect.callers _ s.signalsDue).effects

theorem submit_effects (s : St α) (e : QueueEntry α) (created : Except BadStatus Unit) :
    Effects b s { (submit b s e created).2 with submitted := s.submitted ++ [(e, (submit b s e created).1)] } := by
  rcases submit_cases b s e created with ⟨err, hs⟩ | ⟨hok, hroom, hs | ⟨hmore, hs⟩⟩
  · rw [hs]
    exact (Effect.refuse _ err).effects
  · rw [hs]
    exact (Effect.accept _ hok hroom).effects
  · rw [hs]
    have hcreate : Effect b s (addWorker b s) := Effect.create hok (hmore.trans_le (le_max_right _ _))
    exact Relation.ReflTransGen.head hcreate (Effect.accept (s := addWorker b s) _ hok hroom).effects

/-- every step is a sequence of effects -/
theorem step_effects {s t : St α} {o : Op α} (hu : s.pool.poolStatus.isUninitialized → s.pool.numThreads = 0)
    (h : (threadPool α b).step s o = some t) : Effects b s t := by
  refine step_inv_moves (I := fun u => Effects b s u) (fun u v hu hm => hu.trans hm.effects)
    (fun u e created hu => hu.trans (submit_effects u e created)) (fun u hu => hu.trans Effect.shutdown.effects) hu
    Relation.ReflTransGen.refl h

end Bboy.ThreadPool
