/-
Progress of the pool: an accepted task has a thread, and nobody sleeps for nothing.

- `queued_task_has_thread_iff`: in a running pool, a queued task is never without a thread, exactly when every Submit
  that finds a running pool without threads and with room gets its thread. CreateThreadUnlocked returns OK even if there
  is no new thread, so Submit queues the task all the same (`task_without_thread`).
- `idle_wakeup_iff`: no caller of Wait sleeps un-notified while the queue is empty and no task runs, exactly when no
  Shutdown finds a caller asleep un-notified and no task running. Shutdown empties the queue and does not broadcast
  `idle_cond_` (`waiter_not_notified`).
- `no_lost_wakeup`: the workers and the callers of Shutdown lose no wakeup. The invariant (`Wakeful`) counts: as long as
  a worker sleeps un-notified, every queued task has a signal due or a worker on its way.
-/
import Bboy.Base.ThreadPoolAccounting

namespace Bboy.ThreadPool

open Core

variable {α : Type} {b : Builder}

theorem move_accounted {s t : St α} (h : Accounted b s) (hm : Move b s t) : Accounted b t :=
  effects_accounted h hm.effects

/-- what a move keeps in an accounted state, a sequence of moves keeps -/
theorem moves_inv {I : St α → Prop} (hmove : ∀ s t, Accounted b s → I s → Move b s t → I t) {s t : St α}
    (ha : Accounted b s) (h : I s) (hm : Moves b s t) : I t := by
  have hboth : Accounted b t ∧ I t := by
    induction hm with
    | refl => exact ⟨ha, h⟩
    | tail _ hm ih => exact ⟨move_accounted ih.1 hm, hmove _ _ ih.1 ih.2 hm⟩
  exact hboth.2

theorem unborn_num {s : St α} (h : Accounted b s) (hu : s.pool.poolStatus.isUninitialized) : s.pool.numThreads = 0 := by
  rw [h.num, h.unborn hu]
  rfl

theorem step_shutdown {s t : St α} {caller : Caller} (h : (threadPool α b).step s (.shutdown caller) = some t) :
    t = shutdown s := by
  simp only [threadPool] at h
  split_ifs at h
  exact (Option.some.inj h).symm

/-! ## A thread for every queued task -/

/-- a running pool with a queued task has a thread -/
def HasThread (s : St α) : Prop := s.pool.poolStatus = .ok → s.pool.queue ≠ [] → 0 < s.pool.numThreads

/-- a Submit that finds a running pool with room and without threads gets its thread -/
def FirstThreadCreated (b : Builder) (s : St α) : Op α → Prop
  | .submit _ _ created =>
    s.pool.poolStatus = .ok → 1 ≤ b.maxThreads - s.pool.activeThreads + b.maxQueueSize - s.pool.queueSize →
      s.pool.numThreads = 0 → created.isOk
  | _ => True

/-- a move that neither empties the pool nor fills the queue -/
theorem HasThread.same {s t : St α} (h : HasThread s) (hstatus : t.pool.poolStatus = s.pool.poolStatus)
    (hqueue : t.pool.queue = s.pool.queue) (hnum : t.pool.numThreads = s.pool.numThreads) : HasThread t := by
  unfold HasThread
  rw [hstatus, hqueue, hnum]
  exact h

theorem move_hasThread (s t : St α) (ha : Accounted b s) (h : HasThread s) (hm : Move b s t) : HasThread t := by
  cases hm with
  | start hu =>
    intro _ hne
    refine absurd (ha.closed fun hok => ?_) hne
    rw [isUninitialized_ok hok] at hu
    cases hu
  | create hok hroom =>
    have hnum := ha.num
    intro _ _
    simp only [addWorker]
    omega
  | fetch hw hpc hok hq =>
    intro _ _
    exact h hok (by simp [hq])
  | exit hw hpc hwhy =>
    intro hok hne
    exact absurd (hwhy.resolve_left (not_not.2 hok)) hne
  | run hw hpc => exact h.same rfl rfl rfl
  | finish hw hpc => exact h.same rfl rfl rfl
  | sleep hw hpc hok hq => exact h.same rfl rfl rfl
  | awaken pc hw hpc hto => exact h.same rfl rfl rfl
  | notify hw hpc hdue => exact h.same rfl rfl rfl
  | unheard hno => exact h.same rfl rfl rfl
  | wait timed hmust => exact h.same rfl rfl rfl
  | again hc hmust => exact h.same rfl rfl rfl
  | leave j => exact h.same rfl rfl rfl

/-- Submit keeps the property exactly when the pool has a thread for the task -/
theorem submit_hasThread {s : St α} (ha : Accounted b s) (h : HasThread s) (e : QueueEntry α)
    (created : Except BadStatus Unit) :
    HasThread (submit b s e created).2 ↔
      FirstThreadCreated b s (.submit e.runnable e.submitTime created) := by
  have hmax := b.max_pos
  have hnum : 0 ≤ s.pool.numThreads := by
    have hn := ha.num
    omega
  simp only [submit, FirstThreadCreated]
  split_ifs with hok hcap hmore
  · exact iff_of_true h fun hs => absurd hs hok
  · exact iff_of_true h fun _ hle => by omega
  · -- a thread is asked for
    cases created with
    | ok u =>
      refine iff_of_true (fun _ _ => ?_) fun _ _ _ => rfl
      simp only [createThreadUnlocked, enqueue, addWorker]
      omega
    | error err =>
      simp only [createThreadUnlocked]
      constructor
      · intro ht _ _ hzero
        have hpos : 0 < s.pool.numThreads := ht (not_not.1 hok) (by simp [enqueue])
        omega
      · intro hP _ _
        have hne : s.pool.numThreads ≠ 0 := fun hzero => by
          have hc := hP (not_not.1 hok) (by omega) hzero
          cases hc
        have hpos : 0 < s.pool.numThreads := by omega
        exact hpos
  · -- none is asked for: there is one that has nothing to do, or the pool is full
    have hactive := ha.active
    have hsize := ha.queueSize
    have hpos : 0 < s.pool.numThreads := by
      by_contra hzero
      apply hmore
      constructor <;> omega
    refine iff_of_true (fun _ _ => hpos) fun _ _ hzero => ?_
    omega

/-- **A queued task has a thread.** In every run, no state has a running pool, a queued task and no thread, exactly when
every Submit that finds a running pool with room and without threads gets its thread. -/
theorem queued_task_has_thread_iff (b : Builder) (ops : List (Op α)) :
    (threadPool α b).Always HasThread (threadPool α b).init ops ↔
      (threadPool α b).Along (FirstThreadCreated b) (threadPool α b).init ops := by
  have hinit : HasThread (threadPool α b).init := fun hs => by cases hs
  have htrue := Machine.along_true (M := threadPool α b) (threadPool α b).init ops
  refine Machine.always_iff_along (I := Accounted b) (D := fun _ _ => True) ?_ ?_ accounted_initial hinit htrue
  · intro s o t ha _ _ hst
    exact effects_accounted ha (step_accounted s o t ha hst)
  · intro s o ha h _
    cases ho : o.isSubmitOrShutdown with
    | true =>
      cases o with
      | submit task submitTime created =>
        have hstep : (threadPool α b).step s (.submit task submitTime created) = some
            { (submit b s ⟨task, submitTime⟩ created).2 with
              submitted := s.submitted ++ [(⟨task, submitTime⟩, (submit b s ⟨task, submitTime⟩ created).1)] } := rfl
        rw [hstep]
        simp only [Option.mem_some_iff, forall_eq']
        exact submit_hasThread ha h ⟨task, submitTime⟩ created
      | shutdown caller =>
        refine iff_of_true (fun t hst => ?_) trivial
        rw [step_shutdown hst]
        exact fun _ hne => absurd rfl hne
      | _ => cases ho
    | false =>
      refine iff_of_true (fun t hst => ?_) ?_
      · exact moves_inv move_hasThread ha h (step_moves ho (unborn_num ha) hst)
      · cases o with
        | submit task submitTime created => cases ho
        | _ => exact trivial

/-- a pool without permanent workers -/
def lazyBuilder : Builder := ⟨0, 1, 10, 500000000, by decide, by decide⟩

/-- the thread for the first task cannot be created -/
def noThreadRun : List (Op ℕ) := [.init fun _ => .ok (), .submit 10 0 (.error (.runtimeError "Could not create thread"))]

/-- **A task without a thread.** Submit returns OK, the task is queued, and there is no thread. -/
theorem task_without_thread :
    ∃ s, (threadPool ℕ lazyBuilder).run (threadPool ℕ lazyBuilder).init noThreadRun = some s ∧
      s.submitted = [(⟨10, 0⟩, .ok)] ∧ s.pool.queue = [⟨10, 0⟩] ∧ s.pool.numThreads = 0 ∧ ¬ HasThread s := by
  refine ⟨_, rfl, by decide, by decide, by decide, fun h => ?_⟩
  have hpos := h rfl (by decide)
  exact absurd hpos (by decide)

/-! ## Callers asleep on `idle_cond_` -/

/-- a caller that sleeps un-notified on `idle_cond_` has something to wait for -/
def IdleNotified (s : St α) : Prop :=
  ∀ c ∈ s.sleepers, c.cond = .idle → c.notified = false → s.pool.queue ≠ [] ∨ 0 < s.pool.activeThreads

/-- a Shutdown finds a task running, or no caller asleep un-notified on `idle_cond_` -/
def NobodyWaits (s : St α) : Op α → Prop
  | .shutdown caller => notPoolThread s.pool caller = true →
      0 < s.pool.activeThreads ∨ ∀ c ∈ s.sleepers, c.cond = .idle → c.notified = true
  | _ => True

theorem mustWait_idle {p : Pool α} (h : mustWait p .idle = true) : p.queue ≠ [] ∨ 0 < p.activeThreads := by
  simpa [mustWait] using h

/-- a broadcast of the other condition variable notifies nobody here -/
theorem mem_broadcast {cond : Cond} {sleepers : List Sleeper} {c : Sleeper} (hc : c ∈ broadcast cond sleepers)
    (hn : c.notified = false) : c ∈ sleepers ∧ c.cond ≠ cond := by
  obtain ⟨d, hd, rfl⟩ := List.mem_map.1 hc
  split_ifs at hn ⊢ with hcond
  exact ⟨hd, hcond⟩

theorem IdleNotified.same {s t : St α} (h : IdleNotified s) (hsleepers : ∀ c ∈ t.sleepers, c.notified = false →
    c ∈ s.sleepers) (hqueue : t.pool.queue = s.pool.queue) (hactive : t.pool.activeThreads = s.pool.activeThreads) :
    IdleNotified t := by
  intro c hc hcond hn
  rw [hqueue, hactive]
  exact h c (hsleepers c hc hn) hcond hn

/-- a move notifies the callers that it leaves without a reason to wait -/
theorem move_idleNotified (s t : St α) (ha : Accounted b s) (h : IdleNotified s) (hm : Move b s t) :
    IdleNotified t := by
  have hactive := ha.active
  cases hm with
  | start hu => exact h.same (fun _ hc _ => hc) rfl rfl
  | create hok hroom => exact h.same (fun _ hc _ => hc) rfl rfl
  | fetch hw hpc hok hq =>
    intro c hc hcond hn
    right
    simp only [fetchTask]
    omega
  | run hw hpc => exact h.same (fun _ hc _ => hc) rfl rfl
  | finish hw hpc =>
    rename_i i w pos e
    intro c hc hcond hn
    have hpos : 0 < s.workers.countP busy := List.countP_pos_iff.2
      ⟨w, List.mem_of_getElem? hw, by rw [busy, hpc]; rfl⟩
    simp only [finishTask] at hc ⊢
    by_cases hlast : s.pool.activeThreads - 1 = 0
    · rw [if_pos hlast] at hc
      exact absurd hcond (mem_broadcast hc hn).2
    · right
      omega
  | sleep hw hpc hok hq => exact h.same (fun _ hc _ => hc) rfl rfl
  | awaken pc hw hpc hto => exact h.same (fun _ hc _ => hc) rfl rfl
  | notify hw hpc hdue => exact h.same (fun _ hc _ => hc) rfl rfl
  | unheard hno => exact h.same (fun _ hc _ => hc) rfl rfl
  | exit hw hpc hwhy =>
    refine h.same (fun c hc hn => ?_) rfl rfl
    simp only [exitThread] at hc
    split_ifs at hc
    · exact (mem_broadcast hc hn).1
    · exact hc
  | wait timed hmust =>
    intro c hc hcond hn
    rcases List.mem_append.1 hc with hc | hc
    · exact h c hc hcond hn
    · exact mustWait_idle hmust
  | again hc' hmust =>
    rename_i j c'
    intro c hc hcond hn
    rcases List.mem_or_eq_of_mem_set hc with hc | rfl
    · exact h c hc hcond hn
    · have hidle : c'.cond = .idle := hcond
      rw [hidle] at hmust
      exact mustWait_idle hmust
  | leave j => exact h.same (fun c hc _ => (List.eraseIdx_sublist _ _).subset hc) rfl rfl

/-- a Submit leaves the callers alone and does not empty the queue -/
theorem submit_idleNotified {s : St α} (h : IdleNotified s) (e : QueueEntry α) (created : Except BadStatus Unit) :
    IdleNotified (submit b s e created).2 := by
  rcases submit_cases b s e created with ⟨err, hs⟩ | ⟨-, -, hs | ⟨-, hs⟩⟩
  · rw [hs]
    exact h
  · rw [hs]
    exact fun _ _ _ _ => Or.inl (by simp [enqueue])
  · rw [hs]
    exact fun _ _ _ _ => Or.inl (by simp [enqueue])

/-- a Shutdown clears the queue without a broadcast of `idle_cond_` -/
theorem shutdown_idleNotified (s : St α) :
    IdleNotified (shutdown s) ↔ 0 < s.pool.activeThreads ∨ ∀ c ∈ s.sleepers, c.cond = .idle → c.notified = true := by
  have hmem : ∀ c, c.cond = .idle → (c ∈ (shutdown s).sleepers ↔ c ∈ s.sleepers) := by
    intro c hcond
    simp only [shutdown]
    split_ifs
    · rw [List.mem_append, or_iff_left]
      intro hc
      rw [List.mem_singleton.1 hc] at hcond
      cases hcond
    · rfl
  constructor
  · intro h
    by_cases hactive : 0 < s.pool.activeThreads
    · exact Or.inl hactive
    · right
      intro c hc hcond
      by_contra hn
      rcases h c ((hmem c hcond).2 hc) hcond (by simpa using hn) with hq | ha
      · exact hq rfl
      · exact hactive ha
  · rintro (hactive | hall) c hc hcond hn
    · exact Or.inr hactive
    · have hnotified := hall c ((hmem c hcond).1 hc) hcond
      rw [hn] at hnotified
      cases hnotified

/-- **Callers of Wait.** In every run, no state has a caller asleep un-notified on `idle_cond_` with an empty queue and no
task running, exactly when every Shutdown finds a task running or no caller asleep un-notified there. -/
theorem idle_wakeup_iff (b : Builder) (ops : List (Op α)) :
    (threadPool α b).Always IdleNotified (threadPool α b).init ops ↔
      (threadPool α b).Along NobodyWaits (threadPool α b).init ops := by
  have hinit : IdleNotified (threadPool α b).init := fun _ hc => absurd hc List.not_mem_nil
  have htrue := Machine.along_true (M := threadPool α b) (threadPool α b).init ops
  refine Machine.always_iff_along (I := Accounted b) (D := fun _ _ => True) ?_ ?_ accounted_initial hinit htrue
  · intro s o t ha _ _ hst
    exact effects_accounted ha (step_accounted s o t ha hst)
  · intro s o ha h _
    cases ho : o.isSubmitOrShutdown with
    | true =>
      cases o with
      | submit task submitTime created =>
        refine iff_of_true (fun t hst => ?_) trivial
        cases hst
        exact submit_idleNotified h _ created
      | shutdown caller =>
        simp only [threadPool, NobodyWaits]
        split_ifs with hcaller
        · simp only [Option.mem_some_iff, forall_eq']
          exact (shutdown_idleNotified s).trans ⟨fun hs _ => hs, fun hs => hs hcaller⟩
        · exact iff_of_true (fun t hst => by cases hst) fun hs => absurd hs hcaller
      | _ => cases ho
    | false =>
      refine iff_of_true (fun t hst => ?_) ?_
      · exact moves_inv move_idleNotified ha h (step_moves ho (unborn_num ha) hst)
      · cases o with
        | shutdown caller => cases ho
        | _ => exact trivial

/-- a task is queued, a caller waits for it, and the pool shuts down before the worker fetches it -/
def shutdownRun : List (Op ℕ) :=
  [.init fun _ => .ok (), .submit 10 0 (.ok ()), .wait .other, .shutdown .other, .dispatch 0]

/-- **A waiter that nobody notifies.** After the Shutdown and the exit of all workers the caller of Wait still sleeps, with
an empty queue, no task and no thread. -/
theorem waiter_not_notified :
    ∃ s, (threadPool ℕ smallBuilder).run (threadPool ℕ smallBuilder).init shutdownRun = some s ∧
      ⟨.idle, false, false⟩ ∈ s.sleepers ∧ s.pool.queue = [] ∧ s.pool.activeThreads = 0 ∧ s.pool.numThreads = 0 ∧
      ¬ IdleNotified s := by
  refine ⟨_, rfl, by decide, by decide, by decide, by decide, fun h => ?_⟩
  rcases h ⟨.idle, false, false⟩ (by decide) rfl rfl with hq | ha
  · exact absurd rfl hq
  · exact absurd ha (by decide)

/-! ## Workers asleep on `not_empty_`, and callers of Shutdown -/

/-- on its way to the queue: it takes the lock next, or has been notified -/
def Pc.onTheWay : Pc α → Bool
  | .ready => true
  | .expired => true
  | .asleep notified => notified
  | _ => false

def onTheWay (w : Worker α) : Bool := w.pc.onTheWay

def unnotified (w : Worker α) : Bool := w.pc.unnotified

structure Wakeful (s : St α) : Prop where
  /-- if a worker sleeps un-notified, every queued entry has a signal due or a worker on its way -/
  workers : (∃ w ∈ s.workers, unnotified w) → s.pool.queue.length ≤ s.signalsDue + s.workers.countP onTheWay
  stopped : s.pool.poolStatus ≠ .ok → ∀ w ∈ s.workers, unnotified w = false
  shutdown : ∀ c ∈ s.sleepers, c.cond = .noThreads → c.notified = false → 0 < s.pool.numThreads

theorem wakeful_initial : Wakeful (initial : St α) where
  workers := fun ⟨_, hw, _⟩ => absurd hw List.not_mem_nil
  stopped := fun _ _ hw => absurd hw List.not_mem_nil
  shutdown := fun _ hc => absurd hc List.not_mem_nil

/-- a worker moves on and does not fall asleep; `hbalance` says that the count holds for it -/
theorem Wakeful.slot {s t : St α} (h : Wakeful s) {i : ℕ} {w : Worker α} (hw : s.workers[i]? = some w) (pc : Pc α)
    (hworkers : t.workers = s.workers.set i { w with pc := pc }) (hpc : pc.unnotified = false)
    (hbalance : t.pool.queue.length + s.signalsDue + (if w.pc.onTheWay then 1 else 0) ≤
      s.pool.queue.length + t.signalsDue + if pc.onTheWay then 1 else 0)
    (hstatus : t.pool.poolStatus = s.pool.poolStatus) (hnum : t.pool.numThreads = s.pool.numThreads)
    (hsleepers : ∀ c ∈ t.sleepers, c.notified = false → c ∈ s.sleepers) : Wakeful t := by
  have hsame : ∀ x ∈ t.workers, unnotified x → x ∈ s.workers := by
    intro x hx hun
    rw [hworkers] at hx
    rcases List.mem_or_eq_of_mem_set hx with hx | rfl
    · exact hx
    · rw [unnotified, hpc] at hun
      cases hun
  refine ⟨?_, ?_, ?_⟩
  · rintro ⟨x, hx, hun⟩
    have hle := h.workers ⟨x, hsame x hx hun, hun⟩
    have hold : s.workers.countP onTheWay = (s.workers.eraseIdx i).countP onTheWay + if w.pc.onTheWay then 1 else 0 :=
      slot_countP hw onTheWay
    have hnew : (s.workers.set i { w with pc := pc }).countP onTheWay =
        (s.workers.eraseIdx i).countP onTheWay + if pc.onTheWay then 1 else 0 := slot_countP_set hw onTheWay _
    rw [hworkers, hnew]
    rw [hold] at hle
    omega
  · intro hne x hx
    rw [hstatus] at hne
    by_contra hun
    have hun' : unnotified x = true := by simpa using hun
    exact hun (h.stopped hne x (hsame x hx hun'))
  · intro c hc hcond hn
    rw [hnum]
    exact h.shutdown c (hsleepers c hc hn) hcond hn

/-- only the callers change -/
theorem Wakeful.callers {s t : St α} (h : Wakeful s) (hpool : t.pool = s.pool) (hworkers : t.workers = s.workers)
    (hdue : t.signalsDue = s.signalsDue) (hsleepers : ∀ c ∈ t.sleepers, c.cond = .noThreads → c.notified = false →
      0 < s.pool.numThreads) : Wakeful t := by
  refine ⟨?_, ?_, ?_⟩
  · rw [hpool, hworkers, hdue]
    exact h.workers
  · rw [hpool, hworkers]
    exact h.stopped
  · rw [hpool]
    exact hsleepers

theorem addWorker_wakeful {s : St α} (ha : Accounted b s) (h : Wakeful s) : Wakeful (addWorker b s) := by
  have hready : unnotified (⟨s.nextThread, s.pool.numThreads < b.minThreads, .ready⟩ : Worker α) = false := rfl
  have hmem : ∀ w ∈ (addWorker b s).workers, unnotified w → w ∈ s.workers := by
    intro w hw hun
    rcases List.mem_append.1 hw with hw | hw
    · exact hw
    · rw [List.mem_singleton.1 hw, hready] at hun
      cases hun
  refine ⟨?_, ?_, ?_⟩
  · rintro ⟨w, hw, hun⟩
    have hle := h.workers ⟨w, hmem w hw hun, hun⟩
    simp only [addWorker, List.countP_append]
    omega
  · intro hne w hw
    by_contra hun
    have hun' : unnotified w = true := by simpa using hun
    exact hun (h.stopped hne w (hmem w hw hun'))
  · intro c _ _ _
    have hnum := ha.num
    simp only [addWorker]
    omega

/-- an empty queue needs nobody on the way -/
theorem sleep_wakeful {s : St α} (h : Wakeful s) {i : ℕ} {w : Worker α} (hok : s.pool.poolStatus = .ok)
    (hq : s.pool.queue = []) : Wakeful (setPc s i w (.asleep false)) := by
  refine ⟨fun _ => ?_, fun hne => absurd hok hne, h.shutdown⟩
  simp [setPc, hq]

/-- the last worker to leave notifies the callers of Shutdown -/
theorem exit_wakeful {s : St α} (ha : Accounted b s) (h : Wakeful s) {i : ℕ} {w : Worker α}
    (hw : s.workers[i]? = some w) (hwhy : s.pool.poolStatus ≠ .ok ∨ s.pool.queue = []) :
    Wakeful (exitThread s i w) := by
  have hempty : s.pool.queue = [] := hwhy.elim ha.closed id
  refine ⟨fun _ => ?_, fun hne x hx => h.stopped hne x ((List.eraseIdx_sublist _ _).subset hx), ?_⟩
  · simp [exitThread, hempty]
  · intro c hc hcond hn
    have hnum := ha.num
    have hlen := slot_length hw
    simp only [exitThread] at hc ⊢
    split_ifs at hc with hlast
    · exact absurd hcond (mem_broadcast hc hn).2
    · omega

theorem move_wakeful (s t : St α) (ha : Accounted b s) (h : Wakeful s) (hm : Move b s t) : Wakeful t := by
  cases hm with
  | start hu => exact ⟨h.workers, fun hne => absurd rfl hne, h.shutdown⟩
  | create hok hroom => exact addWorker_wakeful ha h
  | fetch hw hpc hok hq =>
    rename_i i w e rest
    refine h.slot hw (.fetched s.dequeued.length e) rfl rfl ?_ rfl rfl fun _ hc _ => hc
    simp only [fetchTask, setPc, hq, List.length_cons]
    split_ifs <;> omega
  | run hw hpc =>
    rename_i i w pos e
    exact h.slot hw (.ran pos e) rfl rfl (by simp [setPc, hpc, Pc.onTheWay]) rfl rfl fun _ hc _ => hc
  | finish hw hpc =>
    rename_i i w pos e
    refine h.slot hw .ready rfl rfl (by simp [finishTask, setPc, hpc, Pc.onTheWay]) rfl rfl fun c hc hn => ?_
    simp only [finishTask] at hc
    split_ifs at hc
    · exact (mem_broadcast hc hn).1
    · exact hc
  | sleep hw hpc hok hq => exact sleep_wakeful h hok hq
  | awaken pc hw hpc hto =>
    refine h.slot hw pc rfl (by rcases hto with rfl | rfl <;> rfl) ?_ rfl rfl fun _ hc _ => hc
    have hway : pc.onTheWay = true := by rcases hto with rfl | rfl <;> rfl
    simp only [setPc, hway]
    split_ifs <;> omega
  | notify hw hpc hdue =>
    refine h.slot hw (.asleep true) rfl rfl ?_ rfl rfl fun _ hc _ => hc
    simp only [setPc, hpc, Pc.onTheWay]
    simp
    omega
  | unheard hno =>
    refine ⟨?_, h.stopped, h.shutdown⟩
    rintro ⟨w, hw, hun⟩
    rw [unnotified, hno w hw] at hun
    cases hun
  | exit hw hpc hwhy => exact exit_wakeful ha h hw hwhy
  | wait timed hmust =>
    refine h.callers rfl rfl rfl fun c hc hcond hn => ?_
    rcases List.mem_append.1 hc with hc | hc
    · exact h.shutdown c hc hcond hn
    · rw [List.mem_singleton.1 hc] at hcond
      cases hcond
  | again hc' hmust =>
    rename_i j c'
    refine h.callers rfl rfl rfl fun c hc hcond hn => ?_
    rcases List.mem_or_eq_of_mem_set hc with hc | rfl
    · exact h.shutdown c hc hcond hn
    · have hthreads : c'.cond = .noThreads := hcond
      rw [hthreads] at hmust
      simpa [mustWait] using hmust
  | leave j =>
    exact h.callers rfl rfl rfl fun c hc hcond hn => h.shutdown c ((List.eraseIdx_sublist _ _).subset hc) hcond hn

/-- a queued entry comes with a signal that is due -/
theorem enqueue_wakeful {s : St α} (h : Wakeful s) (e : QueueEntry α) : Wakeful (enqueue s e) := by
  refine ⟨fun hun => ?_, h.stopped, h.shutdown⟩
  have hle := h.workers hun
  simp only [enqueue, List.length_append, List.length_singleton]
  omega

theorem submit_wakeful {s : St α} (ha : Accounted b s) (h : Wakeful s) (e : QueueEntry α)
    (created : Except BadStatus Unit) : Wakeful (submit b s e created).2 := by
  rcases submit_cases b s e created with ⟨err, hs⟩ | ⟨-, -, hs | ⟨-, hs⟩⟩
  · rw [hs]
    exact h
  · rw [hs]
    exact enqueue_wakeful h e
  · rw [hs]
    exact enqueue_wakeful (addWorker_wakeful ha h) e

theorem shutdown_wakeful {s : St α} (h : Wakeful s) : Wakeful (shutdown s) := by
  refine ⟨fun _ => by simp [shutdown], fun _ w hw => ?_, fun c hc hcond hn => ?_⟩
  · obtain ⟨x, -, rfl⟩ := List.mem_map.1 hw
    split
    · rfl
    · rename_i hx
      cases hp : x.pc with
      | asleep notified => exact absurd hp (hx notified)
      | _ => simp [unnotified, hp, Pc.unnotified]
  · simp only [shutdown] at hc ⊢
    split_ifs at hc with hnum
    · exact hnum
    · exact h.shutdown c hc hcond hn

theorem run_wakeful {ops : List (Op α)} {s : St α} (h : (threadPool α b).run (threadPool α b).init ops = some s) :
    Wakeful s := by
  have hboth : Accounted b s ∧ Wakeful s := by
    refine Machine.run_inv (I := fun s => Accounted b s ∧ Wakeful s) (fun s o t hs hst => ?_)
      ⟨accounted_initial, wakeful_initial⟩ h
    refine ⟨effects_accounted hs.1 (step_accounted s o t hs.1 hst), ?_⟩
    cases ho : o.isSubmitOrShutdown with
    | true =>
      cases o with
      | submit task submitTime created =>
        cases hst
        have hsub := submit_wakeful hs.1 hs.2 ⟨task, submitTime⟩ created
        exact ⟨hsub.workers, hsub.stopped, hsub.shutdown⟩
      | shutdown caller =>
        rw [step_shutdown hst]
        exact shutdown_wakeful hs.2
      | _ => cases ho
    | false => exact moves_inv move_wakeful hs.1 hs.2 (step_moves ho (unborn_num hs.1) hst)
  exact hboth.2

/-- **Workers and callers of Shutdown.** In every state that any interleaving reaches: a task is queued while a worker
sleeps un-notified only if a signal is due or a worker is on its way; once the pool is shut down no worker sleeps
un-notified; and a caller of Shutdown sleeps un-notified only while there are threads. -/
theorem no_lost_wakeup (b : Builder) (ops : List (Op α)) (s : St α)
    (hrun : (threadPool α b).run (threadPool α b).init ops = some s) :
    ¬ (s.pool.queue ≠ [] ∧ (∃ w ∈ s.workers, unnotified w) ∧ (∀ w ∈ s.workers, onTheWay w = false) ∧
        s.signalsDue = 0) ∧
      (s.pool.poolStatus = shutDownStatus → ∀ w ∈ s.workers, unnotified w = false) ∧
      ∀ c ∈ s.sleepers, c.cond = .noThreads → c.notified = false → 0 < s.pool.numThreads := by
  have h := run_wakeful hrun
  refine ⟨?_, fun hdown => h.stopped (by rw [hdown]; decide), h.shutdown⟩
  rintro ⟨hq, hun, hno, hdue⟩
  have hle := h.workers hun
  have hzero : s.workers.countP onTheWay = 0 := List.countP_eq_zero.2 fun w hw => by simp [hno w hw]
  rw [hdue, hzero] at hle
  exact hq (List.length_eq_zero_iff.1 (Nat.le_zero.1 hle))

/-- two workers; the second one falls asleep and times out just as a task is queued and signalled -/
def timeoutRun : List (Op ℕ) :=
  [.init fun _ => .ok (), .dispatch 0, .submit 10 0 (.ok ()), .signal (some 0), .submit 11 1 (.ok ()), .dispatch 1,
    .runTask 1, .signal none, .wake 0, .dispatch 0, .runTask 0, .dispatch 0, .dispatch 1, .submit 12 2 (.ok ()),
    .expire 1, .signal (some 0), .dispatch 1]

theorem no_lost_wakeup_timeoutRun :
    ∃ s, (threadPool ℕ smallBuilder).run (threadPool ℕ smallBuilder).init timeoutRun = some s ∧
      s.dequeued = [⟨10, 0⟩, ⟨11, 1⟩, ⟨12, 2⟩] ∧
      ∀ c ∈ s.sleepers, c.cond = .noThreads → c.notified = false → 0 < s.pool.numThreads := by
  refine ⟨_, rfl, by decide, ?_⟩
  exact (no_lost_wakeup smallBuilder timeoutRun _ rfl).2.2

end Bboy.ThreadPool
