/-
What a step of the pool is made of. A critical section is a sequence of moves (`Move`), each with the condition under
which the code gets there: a thread is created, an entry fetched, a task run or finished, a worker goes to sleep on
`not_empty_`, is notified, wakes or leaves, a caller waits, waits again or returns. The two calls that fill and clear the
queue are not made of these: `submit_cases` says what a Submit does, and a Shutdown is one `shutdown`.

- `step_moves`: every step other than a Submit or a Shutdown is a sequence of moves;
- `step_inv_moves`: what every move, Submit and Shutdown keep, every step keeps.
-/
import Bboy.Base.ThreadPool

namespace Bboy.ThreadPool

open Core

variable {α : Type} {b : Builder}

inductive Move (b : Builder) : St α → St α → Prop
  | start {s} (h : s.pool.poolStatus.isUninitialized) :
    Move b s { s with pool := { s.pool with poolStatus := .ok } }
  | create {s} (hok : s.pool.poolStatus = .ok) (hroom : s.pool.numThreads < max b.minThreads b.maxThreads) :
    Move b s (addWorker b s)
  | fetch {s i w e rest} (hw : s.workers[i]? = some w) (hpc : w.pc.busy = false) (hok : s.pool.poolStatus = .ok)
    (hq : s.pool.queue = e :: rest) : Move b s (fetchTask s i w e rest)
  | run {s i w pos e} (hw : s.workers[i]? = some w) (hpc : w.pc = .fetched pos e) :
    Move b s { setPc s i w (.ran pos e) with ran := s.ran ++ [(pos, e)] }
  | finish {s i w pos e} (hw : s.workers[i]? = some w) (hpc : w.pc = .ran pos e) : Move b s (finishTask s i w)
  | sleep {s i w} (hw : s.workers[i]? = some w) (hpc : w.pc.busy = false) (hok : s.pool.poolStatus = .ok)
    (hq : s.pool.queue = []) : Move b s (setPc s i w (.asleep false))
  | awaken {s i w n} (pc : Pc α) (hw : s.workers[i]? = some w) (hpc : w.pc = .asleep n)
    (hto : pc = .ready ∨ pc = .expired) : Move b s (setPc s i w pc)
  | notify {s i w} (hw : s.workers[i]? = some w) (hpc : w.pc = .asleep false) (hdue : 0 < s.signalsDue) :
    Move b s { setPc s i w (.asleep true) with signalsDue := s.signalsDue - 1 }
  | unheard {s} (hno : ∀ w ∈ s.workers, w.pc.unnotified = false) :
    Move b s { s with signalsDue := s.signalsDue - 1 }
  | exit {s i w} (hw : s.workers[i]? = some w) (hpc : w.pc.busy = false)
    (hwhy : s.pool.poolStatus ≠ .ok ∨ s.pool.queue = []) : Move b s (exitThread s i w)
  | wait {s} (timed : Bool) (hmust : mustWait s.pool .idle = true) :
    Move b s { s with sleepers := s.sleepers ++ [⟨.idle, timed, false⟩] }
  | again {s j c} (hc : s.sleepers[j]? = some c) (hmust : mustWait s.pool c.cond = true) :
    Move b s { s with sleepers := s.sleepers.set j { c with notified := false } }
  | leave {s} (j : ℕ) : Move b s { s with sleepers := s.sleepers.eraseIdx j }

/-- a sequence of moves -/
abbrev Moves (b : Builder) (s t : St α) : Prop := Relation.ReflTransGen (Move b) s t

theorem Move.moves {s t : St α} (h : Move b s t) : Moves b s t := Relation.ReflTransGen.single h

def Op.isSubmitOrShutdown : Op α → Bool
  | .submit _ _ _ => true
  | .shutdown _ => true
  | _ => false

/-! ## Init and Submit -/

/-- from fewer than `min_threads_` on, every round of Init has room for a thread -/
theorem initLoop_moves {created : ℕ → Except BadStatus Unit} {n : ℕ} (i : ℕ) {s : St α} {r : Status × St α}
    (hok : s.pool.poolStatus = .ok) (hroom : s.pool.numThreads + n ≤ b.minThreads)
    (h : initLoop b created i n s = some r) : Moves b s r.2 := by
  induction n generalizing i s with
  | zero =>
    cases h
    exact Relation.ReflTransGen.refl
  | succ n ih =>
    push_cast at hroom
    simp only [initLoop, createThreadUnlocked] at h
    cases hc : created i with
    | error e =>
      rw [hc] at h
      exact ih (i + 1) hok (by omega) h
    | ok u =>
      rw [hc] at h
      have hcreate : Move b s (addWorker b s) :=
        Move.create hok ((by omega : s.pool.numThreads < b.minThreads).trans_le (le_max_left _ _))
      refine Relation.ReflTransGen.head hcreate (ih (i + 1) hok ?_ h)
      simp only [addWorker]
      omega

theorem init_moves {s : St α} {created : ℕ → Except BadStatus Unit} {r : Status × St α}
    (hu : s.pool.poolStatus.isUninitialized → s.pool.numThreads = 0) (h : init b s created = some r) :
    Moves b s r.2 := by
  unfold init at h
  split_ifs at h with hinit
  · have hmin := Int.toNat_of_nonneg b.min_nonneg
    refine Relation.ReflTransGen.head (Move.start hinit) (initLoop_moves 0 rfl ?_ h)
    simp only [hu hinit, hmin, zero_add, le_refl]
  · cases h
    exact Relation.ReflTransGen.refl

/-- the three ways a Submit ends -/
theorem submit_cases (b : Builder) (s : St α) (e : QueueEntry α) (created : Except BadStatus Unit) :
    (∃ err, submit b s e created = (.bad err, s)) ∨
      (s.pool.poolStatus = .ok ∧ s.pool.activeThreads + s.pool.queueSize < b.maxThreads + b.maxQueueSize ∧
        (submit b s e created = (.ok, enqueue s e) ∨
          (s.pool.numThreads < b.maxThreads ∧ submit b s e created = (.ok, enqueue (addWorker b s) e)))) := by
  simp only [submit]
  split_ifs with hok hcap hmore
  · left
    cases hs : s.pool.poolStatus with
    | ok => exact absurd hs hok
    | bad err => exact ⟨err, rfl⟩
  · exact Or.inl ⟨_, rfl⟩
  · refine Or.inr ⟨not_not.1 hok, by omega, ?_⟩
    cases created with
    | error err => exact Or.inl rfl
    | ok u => exact Or.inr ⟨hmore.2, rfl⟩
  · exact Or.inr ⟨not_not.1 hok, by omega, Or.inl rfl⟩

/-! ## Workers -/

theorem dispatchLoop_moves {s : St α} {i : ℕ} {w : Worker α} (hw : s.workers[i]? = some w)
    (hpc : w.pc.busy = false) : Moves b s (dispatchLoop b s i w) := by
  unfold dispatchLoop
  by_cases hok : s.pool.poolStatus = .ok
  · rw [if_neg (not_not.2 hok)]
    cases hq : s.pool.queue with
    | nil =>
      simp only
      split_ifs
      · exact (Move.exit hw hpc (Or.inr hq)).moves
      · exact (Move.sleep hw hpc hok hq).moves
    | cons e rest => exact (Move.fetch hw hpc hok hq).moves
  · rw [if_pos hok]
    exact (Move.exit hw hpc (Or.inl hok)).moves

theorem dispatch_moves {s t : St α} {i : ℕ} {w : Worker α} (hw : s.workers[i]? = some w)
    (h : dispatch b s i w = some t) : Moves b s t := by
  unfold dispatch at h
  cases hpc : w.pc with
  | ready =>
    simp only [hpc, Option.some.injEq] at h
    rw [← h]
    exact dispatchLoop_moves hw (by rw [hpc]; rfl)
  | asleep notified => simp [hpc] at h
  | expired =>
    simp only [hpc, Option.some.injEq] at h
    rw [← h]
    have hidle : w.pc.busy = false := by rw [hpc]; rfl
    split_ifs with hq
    · exact (Move.exit hw hidle (Or.inr (List.isEmpty_iff.1 hq))).moves
    · exact dispatchLoop_moves hw hidle
  | fetched pos e => simp [hpc] at h
  | ran pos e =>
    simp only [hpc, Option.some.injEq] at h
    rw [← h]
    refine Relation.ReflTransGen.head (Move.finish hw hpc) (dispatchLoop_moves ?_ rfl)
    have hlt := (List.getElem?_eq_some_iff.1 hw).1
    simp [finishTask, setPc, hlt]

theorem signal_moves {s t : St α} {target : Option ℕ} (hdue : 0 < s.signalsDue) (h : signal s target = some t) :
    Moves b s t := by
  unfold signal at h
  split at h
  · rename_i i
    split at h
    · rename_i w hw
      split_ifs at h with hpc
      cases h
      have hasleep : w.pc = .asleep false := by
        cases hp : w.pc with
        | asleep notified => cases notified <;> simp [hp, Pc.unnotified] at hpc ⊢
        | _ => simp [hp, Pc.unnotified] at hpc
      exact (Move.notify hw hasleep hdue).moves
    · cases h
  · split_ifs at h with hany
    cases h
    refine (Move.unheard fun w hw => ?_).moves
    have hall := hany
    rw [List.any_eq_true] at hall
    by_contra hne
    exact hall ⟨w, hw, by simpa using hne⟩

/-! ## Callers -/

theorem wait_moves {s : St α} (delta : Option ℤ) : Moves b s (wait s delta) := by
  unfold wait
  split_ifs with hmust
  · split
    · exact (Move.wait false hmust).moves
    · split_ifs
      · exact Relation.ReflTransGen.refl
      · exact (Move.wait true hmust).moves
  · exact Relation.ReflTransGen.refl

theorem resume_moves {s : St α} {j : ℕ} {c : Sleeper} (hc : s.sleepers[j]? = some c) : Moves b s (resume s j c) := by
  unfold resume
  split_ifs with hmust
  · exact (Move.again hc hmust).moves
  · exact (Move.leave j).moves

/-! ## Steps -/

/-- every step other than a Submit or a Shutdown is a sequence of moves -/
theorem step_moves {s t : St α} {o : Op α} (ho : o.isSubmitOrShutdown = false)
    (hu : s.pool.poolStatus.isUninitialized → s.pool.numThreads = 0) (h : (threadPool α b).step s o = some t) :
    Moves b s t := by
  cases o with
  | init created =>
    obtain ⟨r, hr, rfl⟩ := Option.map_eq_some_iff.1 h
    exact init_moves hu hr
  | submit task submitTime created => cases ho
  | signal target =>
    simp only [threadPool] at h
    split_ifs at h with hdue
    exact signal_moves hdue h
  | dispatch i =>
    obtain ⟨w, hw, hd⟩ := Option.bind_eq_some_iff.1 h
    exact dispatch_moves hw hd
  | runTask i =>
    obtain ⟨w, hw, hd⟩ := Option.bind_eq_some_iff.1 h
    unfold runTask at hd
    split at hd
    · rename_i pos e hpc
      cases hd
      exact (Move.run hw hpc).moves
    · cases hd
  | wake i =>
    obtain ⟨w, hw, hd⟩ := Option.bind_eq_some_iff.1 h
    unfold wake at hd
    split at hd
    · rename_i notified hpc
      cases hd
      exact (Move.awaken .ready hw hpc (Or.inl rfl)).moves
    · cases hd
  | expire i =>
    obtain ⟨w, hw, hd⟩ := Option.bind_eq_some_iff.1 h
    unfold expire at hd
    split at hd
    · rename_i notified hpc
      split_ifs at hd
      cases hd
      exact (Move.awaken .expired hw hpc (Or.inr rfl)).moves
    · cases hd
  | shutdown caller => cases ho
  | wait caller =>
    simp only [threadPool] at h
    split_ifs at h
    cases h
    exact wait_moves none
  | waitFor caller delta =>
    simp only [threadPool] at h
    split_ifs at h
    cases h
    exact wait_moves (some delta)
  | resume j =>
    obtain ⟨c, hc, rfl⟩ := Option.map_eq_some_iff.1 h
    exact resume_moves hc
  | giveUp j =>
    obtain ⟨c, hc, hd⟩ := Option.bind_eq_some_iff.1 h
    split_ifs at hd
    cases hd
    exact (Move.leave j).moves

/-- what every move keeps, and Submit and Shutdown keep, every step keeps -/
theorem step_inv_moves {I : St α → Prop} (hmove : ∀ s t, I s → Move b s t → I t)
    (hsubmit : ∀ s e created, I s → I { (submit b s e created).2 with
      submitted := s.submitted ++ [(e, (submit b s e created).1)] })
    (hshutdown : ∀ s, I s → I (shutdown s)) {s t : St α} {o : Op α}
    (hu : s.pool.poolStatus.isUninitialized → s.pool.numThreads = 0) (hs : I s)
    (h : (threadPool α b).step s o = some t) : I t := by
  cases ho : o.isSubmitOrShutdown with
  | true =>
    cases o with
    | submit task submitTime created =>
      cases h
      exact hsubmit s _ created hs
    | shutdown caller =>
      simp only [threadPool] at h
      split_ifs at h
      cases h
      exact hshutdown s hs
    | _ => cases ho
  | false =>
    have hmoves := step_moves ho hu h
    clear h hu
    induction hmoves with
    | refl => exact hs
    | tail _ hm ih => exact hmove _ _ ih hm

end Bboy.ThreadPool
