/-
The tasks of the pool: nothing is lost, nothing runs twice.

- `Tasked`: what was enqueued is what was dequeued, dropped and is still queued, in this order; it is what Submit
  accepted; and every run, done or about to start, has a dequeued entry of its own.
- `effect_tasked`: every effect keeps it. Only Shutdown drops entries, and nothing is dequeued after it.
- `nothing_lost_or_duplicated`: the result for every state of every run.
-/
import Bboy.Base.ThreadPoolAccounting

namespace Bboy.ThreadPool

open Core

variable {α : Type} {b : Builder}

/-- the entry that a worker is about to run, with its position among the dequeued ones -/
def aboutToRun (w : Worker α) : Option (ℕ × QueueEntry α) :=
  match w.pc with
  | .fetched pos e => some (pos, e)
  | _ => none

/-- the entries that are about to run or have run -/
def runs (s : St α) : List (ℕ × QueueEntry α) := s.workers.filterMap aboutToRun ++ s.ran

/-- the entries whose Submit returned OK -/
def accepted (submitted : List (QueueEntry α × Status)) : List (QueueEntry α) :=
  (submitted.filter fun r => r.2 = .ok).map Prod.fst

structure Tasked (s : St α) : Prop where
  history : s.enqueued = s.dequeued ++ s.dropped ++ s.pool.queue
  accepted : s.enqueued = accepted s.submitted
  dropped : s.pool.poolStatus = .ok ∨ s.pool.poolStatus.isUninitialized → s.dropped = []
  once : ((runs s).map Prod.fst).Nodup
  entry : ∀ r ∈ runs s, s.dequeued[r.1]? = some r.2

theorem tasked_initial : Tasked (initial : St α) where
  history := rfl
  accepted := rfl
  dropped := fun _ => rfl
  once := List.nodup_nil
  entry := fun _ hr => absurd hr List.not_mem_nil

theorem aboutToRun_idle {w : Worker α} (h : w.pc.busy = false) : aboutToRun w = none := by
  cases hpc : w.pc with
  | fetched pos e => simp [hpc] at h
  | ran pos e => simp [hpc] at h
  | _ => simp [aboutToRun, hpc]

/-! ## Effects -/

/-- an effect that leaves the history alone and the runs as they are, up to their order -/
theorem Tasked.same {s t : St α} (h : Tasked s) (hqueue : t.pool.queue = s.pool.queue)
    (hstatus : t.pool.poolStatus = s.pool.poolStatus) (henq : t.enqueued = s.enqueued) (hdeq : t.dequeued = s.dequeued)
    (hdrop : t.dropped = s.dropped) (hsub : t.submitted = s.submitted) (hruns : (runs t).Perm (runs s)) : Tasked t where
  history := by rw [henq, hdeq, hdrop, hqueue, h.history]
  accepted := by rw [henq, hsub, h.accepted]
  dropped := by
    rw [hstatus, hdrop]
    exact h.dropped
  once := (hruns.map Prod.fst).nodup_iff.2 h.once
  entry := fun r hr => by
    rw [hdeq]
    exact h.entry r (hruns.subset hr)

/-- a worker that has nothing to run before and after moves on -/
theorem runs_setPc {s : St α} {i : ℕ} {w : Worker α} (hw : s.workers[i]? = some w) {pc : Pc α}
    (hfrom : aboutToRun w = none) (hto : aboutToRun { w with pc := pc } = none) :
    (runs (setPc s i w pc)).Perm (runs s) := by
  have hold := slot_filterMap hw aboutToRun
  have hnew := slot_filterMap_set hw aboutToRun { w with pc := pc }
  rw [hfrom] at hold
  rw [hto] at hnew
  exact (hnew.trans hold.symm).append_right _

theorem runs_exit {s : St α} {i : ℕ} {w : Worker α} (hw : s.workers[i]? = some w) (hpc : w.pc.busy = false) :
    (runs (exitThread s i w)).Perm (runs s) := by
  have hold := slot_filterMap hw aboutToRun
  rw [aboutToRun_idle hpc] at hold
  exact hold.symm.append_right _

theorem runs_broadcast (workers : List (Worker α)) :
    (broadcastNotEmpty workers).filterMap aboutToRun = workers.filterMap aboutToRun := by
  rw [broadcastNotEmpty, List.filterMap_map]
  refine List.filterMap_congr fun w _ => ?_
  simp only [Function.comp]
  split
  · rename_i hpc
    simp [aboutToRun, hpc]
  · rfl

/-- the entry that is fetched gets a position that no run has -/
theorem fetch_tasked {s : St α} (h : Tasked s) {i : ℕ} {w : Worker α} {e : QueueEntry α} {rest : List (QueueEntry α)}
    (hw : s.workers[i]? = some w) (hpc : w.pc.busy = false) (hok : s.pool.poolStatus = .ok)
    (hq : s.pool.queue = e :: rest) : Tasked (fetchTask s i w e rest) := by
  have hdrop := h.dropped (Or.inl hok)
  have hruns : (runs (fetchTask s i w e rest)).Perm ((s.dequeued.length, e) :: runs s) := by
    have hold := slot_filterMap hw aboutToRun
    have hnew := slot_filterMap_set hw aboutToRun { w with pc := .fetched s.dequeued.length e }
    rw [aboutToRun_idle hpc] at hold
    exact (hnew.trans (hold.symm.cons _)).append_right _
  have hbelow : ∀ r ∈ runs s, r.1 < s.dequeued.length := by
    intro r hr
    exact (List.getElem?_eq_some_iff.1 (h.entry r hr)).1
  refine ⟨?_, h.accepted, fun _ => hdrop, ?_, ?_⟩
  · simp [fetchTask, setPc, h.history, hdrop, hq]
  · refine (hruns.map Prod.fst).nodup_iff.2 (List.nodup_cons.2 ⟨fun hm => ?_, h.once⟩)
    obtain ⟨r, hr, he⟩ := List.mem_map.1 hm
    exact absurd he (hbelow r hr).ne
  · intro r hr
    change (s.dequeued ++ [e])[r.1]? = some r.2
    rcases List.mem_cons.1 (hruns.subset hr) with rfl | hr
    · simp
    · rw [List.getElem?_append_left (hbelow r hr)]
      exact h.entry r hr

/-- every effect keeps the tasks in order -/
theorem effect_tasked (s t : St α) (h : Tasked s) (he : Effect b s t) : Tasked t := by
  cases he with
  | start hu => exact ⟨h.history, h.accepted, fun _ => h.dropped (Or.inr hu), h.once, h.entry⟩
  | create hok hroom =>
    refine h.same rfl rfl rfl rfl rfl rfl ?_
    simp [runs, addWorker, List.filterMap_cons, aboutToRun]
  | accept e hok hroom =>
    refine ⟨?_, ?_, h.dropped, h.once, h.entry⟩
    · simp [enqueue, h.history]
    · have hacc := h.accepted
      simp [enqueue, ThreadPool.accepted, hacc]
  | refuse e err =>
    refine ⟨h.history, ?_, h.dropped, h.once, h.entry⟩
    have hacc := h.accepted
    simp [ThreadPool.accepted, hacc]
  | fetch hw hpc hok hq => exact fetch_tasked h hw hpc hok hq
  | run hw hpc =>
    rename_i i w pos e
    refine h.same rfl rfl rfl rfl rfl rfl ?_
    -- the entry moves from the worker to the runs that are done
    have hold := slot_filterMap hw aboutToRun
    have hnew := slot_filterMap_set hw aboutToRun { w with pc := .ran pos e }
    have hfrom : aboutToRun w = some (pos, e) := by simp [aboutToRun, hpc]
    rw [hfrom] at hold
    let rest := (s.workers.eraseIdx i).filterMap aboutToRun
    let workers := (s.workers.set i { w with pc := .ran pos e }).filterMap aboutToRun
    calc workers ++ (s.ran ++ [(pos, e)])
      _ = (workers ++ s.ran) ++ [(pos, e)] := (List.append_assoc _ _ _).symm
      List.Perm _ ((pos, e) :: (workers ++ s.ran)) := List.perm_append_singleton _ _
      List.Perm _ ((pos, e) :: (rest ++ s.ran)) := (hnew.append_right _).cons _
      List.Perm _ (runs s) := hold.symm.append_right _
  | finish hw hpc =>
    rename_i i w pos e
    exact h.same rfl rfl rfl rfl rfl rfl (runs_setPc hw (by simp [aboutToRun, hpc]) rfl)
  | move pc hw hfrom hto =>
    exact h.same rfl rfl rfl rfl rfl rfl (runs_setPc hw (aboutToRun_idle hfrom) (aboutToRun_idle hto))
  | exit hw hpc hwhy => exact h.same rfl rfl rfl rfl rfl rfl (runs_exit hw hpc)
  | shutdown =>
    have hruns : runs (shutdown s) = runs s := by simp [runs, shutdown, runs_broadcast]
    have hno : ¬ (shutDownStatus = .ok ∨ shutDownStatus.isUninitialized = true) := by decide
    refine ⟨?_, h.accepted, fun hs => absurd hs hno, ?_, ?_⟩
    · simp [shutdown, h.history]
    · rw [hruns]
      exact h.once
    · rw [hruns]
      exact h.entry
  | callers sleepers signalsDue => exact h.same rfl rfl rfl rfl rfl rfl (List.Perm.refl _)

theorem run_tasked {ops : List (Op α)} {s : St α} (h : (threadPool α b).run (threadPool α b).init ops = some s) :
    Tasked s := by
  have hboth : Accounted b s ∧ Tasked s := by
    refine Machine.run_inv_effects (I := fun s => Accounted b s ∧ Tasked s) (E := Effect b) (fun s t hs he => ?_)
      (fun s o t hs hst => ?_) ⟨accounted_initial, tasked_initial⟩ h
    · exact ⟨effect_accounted s t hs.1 he, effect_tasked s t hs.2 he⟩
    · exact step_accounted s o t hs.1 hst
  exact hboth.2

/-! ## Main result -/

/-- a Submit that returns OK puts its entry at the end of the queue; any other leaves the queue alone -/
theorem submit_queue (b : Builder) (s : St α) (e : QueueEntry α) (created : Except BadStatus Unit) :
    ((submit b s e created).1 = .ok → (submit b s e created).2.pool.queue = s.pool.queue ++ [e]) ∧
      ((submit b s e created).1 ≠ .ok → (submit b s e created).2.pool.queue = s.pool.queue ∧
        (submit b s e created).2.pool.queueSize = s.pool.queueSize) := by
  rcases submit_cases b s e created with ⟨err, hs⟩ | ⟨-, -, hs | ⟨-, hs⟩⟩
  · rw [hs]
    exact ⟨fun h => absurd h (by simp), fun _ => ⟨rfl, rfl⟩⟩
  · rw [hs]
    exact ⟨fun _ => rfl, fun h => absurd rfl h⟩
  · rw [hs]
    exact ⟨fun _ => rfl, fun h => absurd rfl h⟩

/-- **Nothing lost, nothing twice.** In every state that any interleaving reaches: the enqueued entries are the queued,
the dequeued and the dropped ones together, and exactly those whose Submit returned OK; they are dequeued in the order
they were enqueued, and each dequeued entry runs at most once. The next Submit enqueues its entry exactly when it returns
OK. -/
theorem nothing_lost_or_duplicated (b : Builder) (ops : List (Op α)) (s : St α)
    (hrun : (threadPool α b).run (threadPool α b).init ops = some s) :
    (s.enqueued : Multiset (QueueEntry α)) = s.pool.queue + s.dequeued + s.dropped ∧
      s.enqueued = accepted s.submitted ∧
      s.dequeued <+: s.enqueued ∧
      ((s.ran.map Prod.fst).Nodup ∧ ∀ r ∈ s.ran, s.dequeued[r.1]? = some r.2) ∧
      ∀ e created,
        ((submit b s e created).1 = .ok → (submit b s e created).2.pool.queue = s.pool.queue ++ [e]) ∧
          ((submit b s e created).1 ≠ .ok → (submit b s e created).2.pool.queue = s.pool.queue ∧
            (submit b s e created).2.pool.queueSize = s.pool.queueSize) := by
  have h := run_tasked hrun
  refine ⟨?_, h.accepted, ?_, ⟨?_, ?_⟩, submit_queue b s⟩
  · rw [h.history, ← Multiset.coe_add, ← Multiset.coe_add]
    abel
  · exact ⟨s.dropped ++ s.pool.queue, by rw [h.history, List.append_assoc]⟩
  · have honce := h.once
    rw [runs, List.map_append] at honce
    exact (List.nodup_append.1 honce).2.1
  · intro r hr
    exact h.entry r (List.mem_append_right _ hr)

/-! ## Witness -/

theorem nothing_lost_smallRun :
    ∃ s, (threadPool ℕ smallBuilder).run (threadPool ℕ smallBuilder).init smallRun = some s ∧
      s.ran = [(0, ⟨10, 0⟩)] ∧ s.dropped = [⟨11, 1⟩] ∧ s.dequeued <+: s.enqueued :=
  ⟨_, rfl, rfl, rfl, (nothing_lost_or_duplicated smallBuilder smallRun _ rfl).2.2.1⟩

end Bboy.ThreadPool
