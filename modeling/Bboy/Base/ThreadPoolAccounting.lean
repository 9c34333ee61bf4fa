/-
Accounting of the pool: its counters say what they count, in every state of every run.

- `Accounted`: `queue_size_` is the length of the queue, `active_threads_` the number of workers with a task,
  `num_threads_` the number of workers, all of them registered; the bounds of the builder hold; a pool that does not run
  has nothing queued; no CHECK has failed.
- `effect_accounted`: every effect keeps it. The exits need the queue to be empty, the capacity bound comes from Submit.
- `pool_accounted`: the result for every state of every run.
-/
import Bboy.Base.ThreadPoolEffects
import Bboy.Core.Slots

namespace Bboy.ThreadPool

open Core

variable {α : Type} {b : Builder}

def busy (w : Worker α) : Bool := w.pc.busy

structure Accounted (b : Builder) (s : St α) : Prop where
  queueSize : s.pool.queueSize = s.pool.queue.length
  active : s.pool.activeThreads = s.workers.countP busy
  num : s.pool.numThreads = s.workers.length
  threads : s.pool.threads = s.workers.map fun w => w.thread
  fresh : ∀ w ∈ s.workers, w.thread < s.nextThread
  nodup : (s.workers.map fun w => w.thread).Nodup
  most : s.pool.numThreads ≤ max b.minThreads b.maxThreads
  capacity : s.pool.activeThreads + s.pool.queueSize ≤ max 0 (b.maxThreads + b.maxQueueSize)
  closed : s.pool.poolStatus ≠ .ok → s.pool.queue = []
  unborn : s.pool.poolStatus.isUninitialized → s.workers = []
  checks : s.checkFailed = false

theorem accounted_initial : Accounted b (initial : St α) where
  queueSize := rfl
  active := rfl
  num := rfl
  threads := rfl
  fresh := fun _ hw => absurd hw List.not_mem_nil
  nodup := List.nodup_nil
  most := b.min_nonneg.trans (le_max_left _ _)
  capacity := le_max_left _ _
  closed := fun _ => rfl
  unborn := fun _ => rfl
  checks := rfl

/-! ## Effects -/

theorem addWorker_accounted {s : St α} (h : Accounted b s) (hok : s.pool.poolStatus = .ok)
    (hroom : s.pool.numThreads < max b.minThreads b.maxThreads) : Accounted b (addWorker b s) := by
  have hfresh : s.nextThread ∉ s.workers.map fun w => w.thread := by
    intro hm
    obtain ⟨w, hw, he⟩ := List.mem_map.1 hm
    exact absurd he (h.fresh w hw).ne
  refine { queueSize := h.queueSize, active := ?_, num := ?_, threads := ?_, fresh := ?_, nodup := ?_, most := ?_,
           capacity := h.capacity, closed := h.closed, unborn := ?_, checks := ?_ }
  · simp [addWorker, h.active, busy]
  · simp [addWorker, h.num]
  · simp [addWorker, h.threads]
  · intro w hw
    rcases List.mem_append.1 hw with hw | hw
    · exact (h.fresh w hw).trans (Nat.lt_succ_self _)
    · rw [List.mem_singleton.1 hw]
      exact Nat.lt_succ_self _
  · simp only [addWorker, List.map_append, List.map_singleton]
    exact List.nodup_append.2 ⟨h.nodup, List.nodup_singleton _, fun t ht t' ht' => by
      rw [List.mem_singleton.1 ht']
      exact fun he => hfresh (he ▸ ht)⟩
  · simp only [addWorker]
    omega
  · intro hu
    rw [show (addWorker b s).pool.poolStatus = s.pool.poolStatus from rfl, isUninitialized_ok hok] at hu
    cases hu
  · simp only [addWorker, h.checks, h.threads, Bool.false_or]
    simpa using hfresh

/-- a worker's slot changes, but not its thread -/
theorem threads_setPc {s : St α} {i : ℕ} {w : Worker α} (hw : s.workers[i]? = some w) (pc : Pc α) :
    ((setPc s i w pc).workers.map fun w => w.thread) = s.workers.map fun w => w.thread :=
  slot_map_set hw rfl

theorem fresh_setPc {s : St α} (h : Accounted b s) {i : ℕ} {w : Worker α} (hw : s.workers[i]? = some w) (pc : Pc α) :
    ∀ x ∈ (setPc s i w pc).workers, x.thread < s.nextThread := by
  intro x hx
  have hm : x.thread ∈ (setPc s i w pc).workers.map fun w => w.thread := List.mem_map_of_mem hx
  rw [threads_setPc hw] at hm
  obtain ⟨y, hy, he⟩ := List.mem_map.1 hm
  rw [← he]
  exact h.fresh y hy

theorem ne_nil_of_slot {s : St α} {i : ℕ} {w : Worker α} (hw : s.workers[i]? = some w) : s.workers ≠ [] := by
  intro hn
  rw [hn] at hw
  cases hw

/-- a worker moves on with the pool's other members given -/
theorem slot_accounted {s : St α} (h : Accounted b s) {i : ℕ} {w : Worker α} (hw : s.workers[i]? = some w) (pc : Pc α)
    {t : St α} (hworkers : t.workers = (setPc s i w pc).workers) (hnum : t.pool.numThreads = s.pool.numThreads)
    (hthreads : t.pool.threads = s.pool.threads) (hnext : t.nextThread = s.nextThread)
    (hstatus : t.pool.poolStatus = s.pool.poolStatus) (hchecks : t.checkFailed = s.checkFailed)
    (hsize : t.pool.queueSize = t.pool.queue.length)
    (hactive : t.pool.activeThreads - (if pc.busy then 1 else 0) = s.pool.activeThreads - if w.pc.busy then 1 else 0)
    (hcap : t.pool.activeThreads + t.pool.queueSize ≤ s.pool.activeThreads + s.pool.queueSize)
    (hclosed : s.pool.poolStatus ≠ .ok → t.pool.queue = []) : Accounted b t := by
  have hold : s.workers.countP busy = (s.workers.eraseIdx i).countP busy + if w.pc.busy then 1 else 0 :=
    slot_countP hw busy
  have hnew : (setPc s i w pc).workers.countP busy = (s.workers.eraseIdx i).countP busy + if pc.busy then 1 else 0 :=
    slot_countP_set hw busy _
  have hlen : (setPc s i w pc).workers.length = s.workers.length := List.length_set
  refine { queueSize := hsize, active := ?_, num := ?_, threads := ?_, fresh := ?_, nodup := ?_, most := ?_,
           capacity := hcap.trans h.capacity, closed := ?_, unborn := ?_, checks := hchecks.trans h.checks }
  · rw [h.active, hold] at hactive
    rw [hworkers, hnew]
    push_cast at hactive ⊢
    omega
  · rw [hnum, hworkers, hlen, h.num]
  · rw [hthreads, hworkers, threads_setPc hw, h.threads]
  · rw [hworkers, hnext]
    exact fresh_setPc h hw pc
  · rw [hworkers, threads_setPc hw]
    exact h.nodup
  · rw [hnum]
    exact h.most
  · rw [hstatus]
    exact hclosed
  · intro hu
    rw [hstatus] at hu
    exact absurd (h.unborn hu) (ne_nil_of_slot hw)

theorem exit_accounted {s : St α} (h : Accounted b s) {i : ℕ} {w : Worker α} (hw : s.workers[i]? = some w)
    (hpc : w.pc.busy = false) (hwhy : s.pool.poolStatus ≠ .ok ∨ s.pool.queue = []) : Accounted b (exitThread s i w) := by
  have hempty : s.pool.queue = [] := hwhy.elim h.closed id
  have hcount := slot_countP hw busy
  have hlen := slot_length hw
  have hmem : w ∈ s.workers := List.mem_of_getElem? hw
  have hsub : (s.workers.eraseIdx i).Sublist s.workers := List.eraseIdx_sublist _ _
  have hthreads : s.pool.threads.erase w.thread = (s.workers.eraseIdx i).map fun w => w.thread := by
    obtain ⟨hlt, hget⟩ := List.getElem?_eq_some_iff.1 hw
    have he := h.nodup.erase_getElem (i := i) (by simpa using hlt)
    rw [List.getElem_map, hget] at he
    rw [h.threads, he, List.eraseIdx_map]
  have hnum := h.num
  have hsize := h.queueSize
  refine { queueSize := h.queueSize, active := ?_, num := ?_, threads := hthreads, fresh := ?_, nodup := ?_, most := ?_,
           capacity := h.capacity, closed := h.closed, unborn := ?_, checks := ?_ }
  · simp only [exitThread, h.active, hcount, busy, hpc, Bool.false_eq_true, if_false, Nat.add_zero]
  · simp only [exitThread]
    omega
  · exact fun x hx => h.fresh x (hsub.subset hx)
  · exact h.nodup.sublist (hsub.map _)
  · have hmost := h.most
    simp only [exitThread]
    omega
  · intro hu
    exact absurd (h.unborn hu) (ne_nil_of_slot hw)
  · have hfound : w.thread ∈ s.pool.threads := by
      rw [h.threads]
      exact List.mem_map_of_mem hmem
    rw [hempty, List.length_nil] at hsize
    simp [exitThread, h.checks, hfound, hempty, hsize]

theorem threads_broadcast (workers : List (Worker α)) :
    ((broadcastNotEmpty workers).map fun w => w.thread) = workers.map fun w => w.thread := by
  rw [broadcastNotEmpty, List.map_map]
  refine List.map_congr_left fun w _ => ?_
  simp only [Function.comp]
  split <;> rfl

theorem countP_broadcast (workers : List (Worker α)) : (broadcastNotEmpty workers).countP busy = workers.countP busy := by
  rw [broadcastNotEmpty, List.countP_map]
  refine List.countP_congr fun w _ => ?_
  simp only [Function.comp, busy]
  split
  · rename_i hpc
    simp [hpc]
  · rfl

theorem shutdown_accounted {s : St α} (h : Accounted b s) : Accounted b (shutdown s) := by
  have hlen : (broadcastNotEmpty s.workers).length = s.workers.length := List.length_map _
  refine { queueSize := rfl, active := ?_, num := ?_, threads := ?_, fresh := ?_, nodup := ?_, most := h.most,
           capacity := ?_, closed := fun _ => rfl, unborn := ?_, checks := h.checks }
  · simp only [shutdown, countP_broadcast, h.active]
  · simp only [shutdown, hlen, h.num]
  · simp only [shutdown, threads_broadcast, h.threads]
  · intro w hw
    have hm : w.thread ∈ (broadcastNotEmpty s.workers).map fun w => w.thread := List.mem_map_of_mem hw
    rw [threads_broadcast] at hm
    obtain ⟨x, hx, he⟩ := List.mem_map.1 hm
    rw [← he]
    exact h.fresh x hx
  · simp only [shutdown, threads_broadcast]
    exact h.nodup
  · have hcap := h.capacity
    have hsize := h.queueSize
    simp only [shutdown]
    omega
  · intro hu
    have hno : shutDownStatus.isUninitialized = false := rfl
    exact absurd (hno.symm.trans hu) (by decide)

/-- every effect keeps the accounting -/
theorem effect_accounted (s t : St α) (h : Accounted b s) (he : Effect b s t) : Accounted b t := by
  cases he with
  | start hu =>
    have hnil := h.unborn hu
    exact { h with
      closed := fun hne => absurd rfl hne
      unborn := fun _ => hnil }
  | create hok hroom => exact addWorker_accounted h hok hroom
  | accept e hok hroom =>
    have hsize := h.queueSize
    refine { h with queueSize := ?_, capacity := ?_, closed := fun hne => absurd hok hne }
    · simp [enqueue, hsize]
    · simp only [enqueue]
      omega
  | refuse e err => exact { h with }
  | fetch hw hpc hok hq =>
    rename_i i w e rest
    have hsize := h.queueSize
    rw [hq, List.length_cons] at hsize
    push_cast at hsize
    refine slot_accounted h hw (.fetched s.dequeued.length e) rfl rfl rfl rfl rfl rfl ?_ ?_ ?_ fun hne => absurd hok hne
    · simp only [fetchTask]
      omega
    · simp [fetchTask, hpc]
    · simp only [fetchTask]
      omega
  | run hw hpc =>
    rename_i i w pos e
    exact slot_accounted h hw (.ran pos e) rfl rfl rfl rfl rfl rfl h.queueSize (by simp [setPc, hpc]) le_rfl h.closed
  | finish hw hpc =>
    rename_i i w pos e
    refine slot_accounted h hw .ready rfl rfl rfl rfl rfl rfl h.queueSize ?_ ?_ h.closed
    · simp [finishTask, hpc]
    · simp only [finishTask]
      omega
  | move pc hw hfrom hto =>
    exact slot_accounted h hw pc rfl rfl rfl rfl rfl rfl h.queueSize (by simp [setPc, hfrom, hto]) le_rfl h.closed
  | exit hw hpc hwhy => exact exit_accounted h hw hpc hwhy
  | shutdown => exact shutdown_accounted h
  | callers sleepers signalsDue => exact { h with }

theorem effects_accounted {s t : St α} (h : Accounted b s) (he : Effects b s t) : Accounted b t := by
  induction he with
  | refl => exact h
  | tail _ he ih => exact effect_accounted _ _ ih he

theorem step_accounted (s : St α) (o : Op α) (t : St α) (h : Accounted b s) (hst : (threadPool α b).step s o = some t) :
    Effects b s t := by
  refine step_effects (fun hu => ?_) hst
  rw [h.num, h.unborn hu]
  rfl

theorem run_accounted {ops : List (Op α)} {s : St α} (h : (threadPool α b).run (threadPool α b).init ops = some s) :
    Accounted b s :=
  Machine.run_inv_effects effect_accounted step_accounted accounted_initial h

/-! ## Main result -/

/-- **Accounting.** For every setting the builder accepts, and in every state that any interleaving reaches: the queue's
size is its length, the counters are in order and `num_threads_` is the number of registered workers, the bounds hold,
and no CHECK has failed. -/
theorem pool_accounted (b : Builder) (ops : List (Op α)) (s : St α)
    (hrun : (threadPool α b).run (threadPool α b).init ops = some s) :
    s.pool.queueSize = s.pool.queue.length ∧
      0 ≤ s.pool.activeThreads ∧ s.pool.activeThreads ≤ s.pool.numThreads ∧
      s.pool.numThreads = s.pool.threads.length ∧ s.pool.threads.Nodup ∧
      s.pool.threads = s.workers.map (fun w => w.thread) ∧
      s.pool.numThreads ≤ max b.minThreads b.maxThreads ∧
      s.pool.activeThreads + s.pool.queueSize ≤ max 0 (b.maxThreads + b.maxQueueSize) ∧
      s.checkFailed = false := by
  have h := run_accounted hrun
  have hactive := h.active
  have hnum := h.num
  have hle : s.workers.countP busy ≤ s.workers.length := List.countP_le_length
  refine ⟨h.queueSize, by omega, by omega, ?_, ?_, h.threads, h.most, h.capacity, h.checks⟩
  · rw [h.threads, List.length_map]
    exact hnum
  · rw [h.threads]
    exact h.nodup

/-! ## Witness -/

/-- one permanent worker, at most two, one place in the queue, 500 ms of idle time -/
def smallBuilder : Builder := ⟨1, 2, 1, 500000000, by decide, by decide⟩

/-- two tasks, the first run by a permanent worker; the second worker's thread cannot be created; then a shutdown -/
def smallRun : List (Op ℕ) :=
  [.init fun _ => .ok (), .submit 10 0 (.ok ()), .signal none, .dispatch 0,
    .submit 11 1 (.error (.runtimeError "Could not create thread")), .runTask 0, .shutdown .other, .dispatch 0]

theorem pool_accounted_smallRun :
    ∃ s, (threadPool ℕ smallBuilder).run (threadPool ℕ smallBuilder).init smallRun = some s ∧
      s.pool.numThreads = s.pool.threads.length ∧ s.checkFailed = false := by
  refine ⟨_, rfl, ?_, ?_⟩
  · exact (pool_accounted smallBuilder smallRun _ rfl).2.2.2.1
  · exact (pool_accounted smallBuilder smallRun _ rfl).2.2.2.2.2.2.2.2

end Bboy.ThreadPool
