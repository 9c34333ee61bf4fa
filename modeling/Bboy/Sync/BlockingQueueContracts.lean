/-
The documented contracts of `BlockingQueue`: what calls answer after `Shutdown`, and what the overload of `BlockingPut`
for a `gscoped_ptr` returns and releases.

- `Put` tests for a full queue before it tests for the shutdown, and the overload of `BlockingPut` converts the
  `QueueStatus` of a `Put` to `bool`, where `QUEUE_SUCCESS` is false.
- `shutdown_contract_iff`: a run keeps the contract of `Shutdown` exactly when every `Put` after it finds room, and no
  overload of `BlockingPut` runs after it. The elements that were queued are delivered, in order, either way.
Witness: `put_full_after_shutdown`.
- `blockingPutOwned_inverted`: the overload breaks its contract in every call. It returns true, and releases the pointer,
  exactly when the element was not enqueued.
Witnesses: `blockingPutOwned_inverted_empty`, `blockingPutOwned_leaks`.
-/
import Bboy.Sync.BlockingQueue

namespace Bboy.BlockingQueue

open Core

variable {α : Type} {cfg : Config α} {s t : St α} {o : Op α} {q q' : Queue α} {c : Call α} {e : Exit α} {σ : Section α}

/-! ## Shutdown -/

/-- what a call that finds `queued` returns after `Shutdown` -/
def shutdownReport (queued : List α) : Call α → Report α
  | .put _ => .put .shutdown
  | .putOwned _ => .putOwned .shutdown false
  | .blockingPut _ => .blockingPut false
  | .blockingPutOwned _ => .blockingPutOwned .shutdown false false
  | .blockingGet => .blockingGet queued.head?
  | .blockingDrainTo => .blockingDrainTo (if queued.isEmpty then none else some queued)
  | .shutdown => .shutdown

/-- a call after `Shutdown` returns what it should, adds nothing and takes what it delivers -/
structure AfterShutdown (σ : Section α) : Prop where
  report : σ.exit.report? = some (shutdownReport σ.before.list σ.call)
  nothingAdded : σ.inserted = []
  list : σ.before.list = σ.delivered ++ σ.after.list

/-- the history splits at a `Shutdown`: what is delivered after it and what is still queued are what was queued then -/
def Drains (s : St α) : Prop :=
  ∀ pre σ post, s.history = pre ++ σ :: post → σ.call = .shutdown →
    post.flatMap Section.delivered ++ s.queue.list = σ.after.list ∧ s.queue.shutdown = true ∧
      ∀ τ ∈ post, τ.before.shutdown = true

/-- the contract of `Shutdown`; with `Awake`, every call that waited goes on to its answer -/
structure Contract (s : St α) : Prop where
  sections : ∀ σ ∈ s.history, σ.before.shutdown = true → AfterShutdown σ
  drains : Drains s
  awake : Awake s

/-- after `Shutdown` a `Put` finds room, and no overload of `BlockingPut` runs -/
def Answers (cfg : Config α) (s : St α) : Op α → Prop
  | .run i _ => ∀ th, s.threads[i]? = some th → th.pc.ready = true → s.queue.shutdown = true →
      (∀ v, th.call ≠ .blockingPutOwned v) ∧ ((∃ v, th.call = .put v ∨ th.call = .putOwned v) → s.queue.size < cfg.maxSize)
  | _ => True

/-- a shut down queue stays so, and nothing is added to it -/
theorem enters_shutdown (h : Enters cfg c q q' e) (hshut : q.shutdown = true) :
    q'.shutdown = true ∧ Section.inserted ⟨c, q, q', e⟩ = [] := by
  cases h with
  | inserts v r hv hshut' hroom hr hd => exact absurd hshut (Bool.eq_false_iff.1 hshut')
  | shuts hc => exact ⟨rfl, rfl⟩
  | _ => exact ⟨hshut, rfl⟩

theorem enters_of_shutdown (h : Enters cfg c q q' e) (hc : c = .shutdown) : q'.shutdown = true := by
  subst hc
  cases h with
  | full r hv hc hfull hr hd => cases hv
  | refused r hshut hempty hr hd => exact hshut
  | waitsNotFull hc hshut hfull => cases hc
  | waitsNotEmpty hc hshut hempty => cases hc
  | inserts v r hv hshut hroom hr hd => cases hv
  | delivers rest r hc hd hne hr => cases hc
  | shuts hc => rfl

theorem step_drains (hi : QueueInv cfg s) (hd : Drains s) (h : (machine cfg).step s o = some t) : Drains t := by
  cases step_cases h with
  | run hth hready hsec henter hleave =>
    intro pre σ post heq hσ
    rcases List.eq_nil_or_concat post with rfl | ⟨post, τ, rfl⟩
    · -- the step is the Shutdown itself
      obtain ⟨-, hlast⟩ := List.append_inj' heq rfl
      obtain rfl := List.singleton_inj.1 hlast
      exact ⟨rfl, enters_of_shutdown henter hσ, fun τ hτ => absurd hτ List.not_mem_nil⟩
    · rw [List.concat_eq_append, ← List.cons_append, ← List.append_assoc] at heq
      obtain ⟨hpre, hlast⟩ := List.append_inj' heq rfl
      obtain rfl := List.singleton_inj.1 hlast
      obtain ⟨hlist, hshut, hpost⟩ := hd pre σ post hpre hσ
      obtain ⟨hshut', hnone⟩ := enters_shutdown henter hshut
      have hsection := (enters_section henter hi.size).list
      rw [hnone, List.append_nil] at hsection
      refine ⟨?_, hshut', fun τ hτ => ?_⟩
      · rw [List.concat_eq_append, List.flatMap_append, List.flatMap_singleton, List.append_assoc, ← hsection]
        exact hlist
      · rw [List.concat_eq_append] at hτ
        rcases List.mem_append.1 hτ with hτ | hτ
        · exact hpost τ hτ
        · rw [List.mem_singleton.1 hτ]
          exact hshut
  | _ => exact hd

/-- after `Shutdown` a call returns what it should, the overload of `BlockingPut` and a `Put` into a full queue apart -/
theorem enter_report_iff (hshut : q.shutdown = true) (c : Call α) :
    (enter cfg q c).2.report? = some (shutdownReport q.list c) ↔
      (∀ v, c ≠ .blockingPutOwned v) ∧ ((∃ v, c = .put v ∨ c = .putOwned v) → q.size < cfg.maxSize) := by
  cases c with
  | put v =>
    rcases put_cases cfg q v with ⟨hfull, heq⟩ | ⟨hroom, -, heq⟩ | ⟨-, hopen, -⟩
    · simp [enter, heq, putExit, Exit.report?, shutdownReport, UInt64.not_lt.2 hfull]
    · simp [enter, heq, putExit, Exit.report?, shutdownReport, hroom]
    · exact absurd hshut (Bool.eq_false_iff.1 hopen)
  | putOwned v =>
    rcases put_cases cfg q v with ⟨hfull, heq⟩ | ⟨hroom, -, heq⟩ | ⟨-, hopen, -⟩
    · simp [enter, heq, putExit, Exit.report?, shutdownReport, UInt64.not_lt.2 hfull]
    · simp [enter, heq, putExit, Exit.report?, shutdownReport, hroom]
    · exact absurd hshut (Bool.eq_false_iff.1 hopen)
  | blockingPutOwned v =>
    rcases put_cases cfg q v with ⟨hfull, heq⟩ | ⟨hroom, -, heq⟩ | ⟨-, hopen, -⟩
    · simp [enter, heq, putExit, Exit.report?, shutdownReport]
    · simp [enter, heq, putExit, Exit.report?, shutdownReport, QueueStatus.toBool, QueueStatus.code]
    · exact absurd hshut (Bool.eq_false_iff.1 hopen)
  | blockingPut v => simp [enter, blockingPut, hshut, Exit.report?, shutdownReport]
  | blockingGet => cases hlist : q.list <;> simp [enter, blockingGet, hlist, hshut, Exit.report?, shutdownReport]
  | blockingDrainTo => cases hlist : q.list <;> simp [enter, blockingDrainTo, hlist, hshut, Exit.report?, shutdownReport]
  | shutdown => simp [enter, shutdown, Exit.report?, shutdownReport]

/-- after `Shutdown` a call that runs `Put` changes nothing and returns -/
theorem enters_put_shutdown (h : Enters cfg c q q' e) (hshut : q.shutdown = true) (hv : c.element.isSome)
    (hc : c.blockingProducer = false) : ∃ r, e = .returns r .none := by
  cases h with
  | full r hv hc hfull hr hd => exact ⟨r, rfl⟩
  | refused r hshut hempty hr hd => exact ⟨r, rfl⟩
  | waitsNotFull hc' hshut hfull => simp [hc] at hc'
  | waitsNotEmpty hc' hshut' hempty => exact absurd hshut (Bool.eq_false_iff.1 hshut')
  | inserts v r hv hshut' hroom hr hd => exact absurd hshut (Bool.eq_false_iff.1 hshut')
  | delivers rest r hc' hd hne hr => cases c <;> simp [Call.element, Call.consumer] at hv hc'
  | shuts hc' => simp [hc', Call.element] at hv

/-- what every run keeps -/
structure ShutdownInv (cfg : Config α) (s : St α) : Prop where
  queue : QueueInv cfg s
  drains : Drains s
  awake : Awake s

theorem step_shutdownInv (hi : ShutdownInv cfg s) (h : (machine cfg).step s o = some t) : ShutdownInv cfg t :=
  ⟨step_queueInv hi.queue h, step_drains hi.queue hi.drains h, step_awake hi.awake h⟩

theorem shutdownInv_init : ShutdownInv cfg (machine cfg).init :=
  ⟨queueInv_init, fun _ _ _ heq => absurd heq (by simp [machine]), fun h => by cases h⟩

/-- a step from a state that keeps the contract keeps it exactly when `Answers` holds -/
theorem step_contract_iff (hi : ShutdownInv cfg s) (hc : Contract s) (o : Op α) :
    (∀ t ∈ (machine cfg).step s o, Contract t) ↔ Answers cfg s o := by
  constructor
  · intro h
    cases o with
    | run i target =>
      intro th hth hready hshut
      have henter := enter_cases cfg s.queue th.call
      by_cases hput : th.call.element.isSome ∧ th.call.blockingProducer = false
      · obtain ⟨r, hr⟩ := enters_put_shutdown henter hshut hput.1 hput.2
        have hrun : (machine cfg).step s (.run i target) = some ⟨(enter cfg s.queue th.call).1, s.threads.eraseIdx i,
            s.history ++ [⟨th.call, s.queue, (enter cfg s.queue th.call).1, (enter cfg s.queue th.call).2⟩]⟩ := by
          simp [machine, hth, runThread, hready, hr, leave, notifyThreads]
        have hsec := (h _ hrun).sections _ (List.mem_append_right _ (List.mem_singleton.2 rfl)) hshut
        exact (enter_report_iff hshut th.call).1 hsec.report
      · refine ⟨fun v hv => hput ?_, ?_⟩
        · rw [hv]
          exact ⟨rfl, rfl⟩
        · rintro ⟨v, hv | hv⟩
          · exact absurd ⟨by rw [hv]; rfl, by rw [hv]; rfl⟩ hput
          · exact absurd ⟨by rw [hv]; rfl, by rw [hv]; rfl⟩ hput
    | call c => exact trivial
    | signal i target => exact trivial
    | spurious i => exact trivial
  · intro ha t ht
    have hi' := step_shutdownInv hi ht
    refine ⟨?_, hi'.drains, hi'.awake⟩
    cases step_cases ht with
    | run hth hready hsec henter hleave =>
      intro σ hσ hshut
      rcases List.mem_append.1 hσ with hσ | hσ
      · exact hc.sections σ hσ hshut
      · obtain rfl := List.mem_singleton.1 hσ
        have hnone := (enters_shutdown henter hshut).2
        have hlist := (enters_section henter hi.queue.size).list
        rw [hnone, List.append_nil] at hlist
        refine ⟨?_, hnone, hlist⟩
        have hreport := (enter_report_iff hshut _).2 (ha _ hth hready hshut)
        rw [hsec] at hreport
        exact hreport
    | _ => exact hc.sections

/-- **The contract of `Shutdown`** is kept by exactly those runs in which every `Put` after it finds room, and in which no
overload of `BlockingPut` runs after it. -/
theorem shutdown_contract_iff (cfg : Config α) (ops : List (Op α)) :
    (machine cfg).Always Contract (machine cfg).init ops ↔ (machine cfg).Along (Answers cfg) (machine cfg).init ops :=
  Machine.always_iff_along (fun _ _ _ hi _ _ h => step_shutdownInv hi h) (fun _ o hi hc _ => step_contract_iff hi hc o)
    shutdownInv_init ⟨fun _ hσ => absurd hσ List.not_mem_nil, shutdownInv_init.drains, shutdownInv_init.awake⟩
    (Machine.along_true _ ops)

/-- a full queue that is shut down: `Put` returns `QUEUE_FULL` -/
theorem put_full_after_shutdown :
    let cfg : Config ℕ := ⟨1, fun _ => 1⟩
    ∃ s, (machine cfg).run (machine cfg).init
        [.call (.put 7), .run 0 none, .signal 0 none, .call .shutdown, .run 0 none, .call (.put 8), .run 0 none] = some s ∧
      (∃ σ ∈ s.history, σ.before.shutdown = true ∧ σ.call = .put 8 ∧ σ.exit.report? = some (.put .full)) ∧
      ¬ Contract s := by
  refine ⟨_, rfl, ⟨⟨.put 8, ⟨[7], 1, true⟩, ⟨[7], 1, true⟩, .returns (.put .full) .none⟩, by decide, rfl, rfl, rfl⟩, ?_⟩
  intro hc
  have hsec := hc.sections ⟨.put 8, ⟨[7], 1, true⟩, ⟨[7], 1, true⟩, .returns (.put .full) .none⟩ (by decide) rfl
  exact absurd hsec.report (by decide)

/-! ## The overload of BlockingPut -/

/-- the contract of `BlockingPut`, for what the overload returned and whether it released the pointer -/
def OwnedContract (σ : Section α) : Prop :=
  ∃ ok released, (∃ s, σ.exit.report? = some (.blockingPutOwned s ok released)) ∧
    (ok = true ↔ σ.inserted ≠ []) ∧ (released = true ↔ σ.inserted ≠ []) ∧ (σ.inserted ≠ [] ∨ σ.before.shutdown = true)

/-- the overload returns true, and releases, exactly when it did not enqueue -/
def Inverted (σ : Section α) : Prop :=
  ∃ s ok, σ.exit.report? = some (.blockingPutOwned s ok ok) ∧ (ok = true ↔ σ.inserted = [])

theorem inverted_breaks (h : Inverted σ) : ¬ OwnedContract σ := by
  rintro ⟨ok, released, ⟨s, hs⟩, hok, -, -⟩
  obtain ⟨s', ok', hs', hinv⟩ := h
  have heq := hs.symm.trans hs'
  simp only [Option.some.injEq, Report.blockingPutOwned.injEq] at heq
  rw [heq.2.1, hinv] at hok
  exact iff_not_self hok

theorem enter_inverted (cfg : Config α) (q : Queue α) (v : α) :
    Inverted ⟨.blockingPutOwned v, q, (enter cfg q (.blockingPutOwned v)).1, (enter cfg q (.blockingPutOwned v)).2⟩ := by
  rcases put_cases cfg q v with ⟨-, heq⟩ | ⟨-, -, heq⟩ | ⟨-, -, heq⟩
  · exact ⟨.full, true, by simp [enter, heq, putExit, Exit.report?, QueueStatus.toBool, QueueStatus.code],
      by simp [enter, heq, putExit, Section.inserted]⟩
  · exact ⟨.shutdown, true, by simp [enter, heq, putExit, Exit.report?, QueueStatus.toBool, QueueStatus.code],
      by simp [enter, heq, putExit, Section.inserted]⟩
  · exact ⟨.success, false, by simp [enter, heq, putExit, Exit.report?, QueueStatus.toBool, QueueStatus.code],
      by simp [enter, heq, putExit, Section.inserted, Call.element]⟩

theorem leave_putExit {threads : List (Thread α)} {i : ℕ} {target : Option ℕ} {status : QueueStatus} {r : Report α} :
    ∃ threads', leave threads i c target (putExit status r) = some threads' := by
  by_cases hs : status = .success
  · exact ⟨_, by rw [putExit, if_pos hs]; rfl⟩
  · exact ⟨_, by rw [putExit, if_neg hs]; rfl⟩

/-- each critical section of the overload that was run is inverted -/
def AllInverted (s : St α) : Prop := ∀ σ ∈ s.history, ∀ v, σ.call = .blockingPutOwned v → Inverted σ

theorem step_allInverted (hi : AllInverted s) (h : (machine cfg).step s o = some t) : AllInverted t := by
  cases step_cases h with
  | @run i target th q' e threads hth hready hsec henter hleave =>
    intro σ hσ v hv
    rcases List.mem_append.1 hσ with hσ | hσ
    · exact hi σ hσ v hv
    · obtain rfl := List.mem_singleton.1 hσ
      have hinv := enter_inverted cfg s.queue v
      have hcall : th.call = .blockingPutOwned v := hv
      rw [hcall] at hsec
      rw [hsec] at hinv
      rw [hcall]
      exact hinv
  | _ => exact hi

/-- **The overload of `BlockingPut` breaks its contract in every call.** In every run, every call of it that ran is
inverted, and every call of it that is about to run will be: it runs to its end without waiting. -/
theorem blockingPutOwned_inverted {ops : List (Op α)} (hrun : (machine cfg).run (machine cfg).init ops = some s) :
    (∀ σ ∈ s.history, ∀ v, σ.call = .blockingPutOwned v → Inverted σ ∧ ¬ OwnedContract σ) ∧
    ∀ i v, s.threads[i]? = some ⟨.blockingPutOwned v, .entering⟩ → ∃ t σ, (machine cfg).step s (.run i none) = some t ∧
      t.history = s.history ++ [σ] ∧ σ.call = .blockingPutOwned v ∧ σ.before = s.queue ∧ Inverted σ ∧ ¬ OwnedContract σ := by
  have hall : AllInverted s :=
    Machine.run_inv (fun _ _ _ hi h => step_allInverted hi h) (fun _ hσ => absurd hσ List.not_mem_nil) hrun
  refine ⟨fun σ hσ v hv => ⟨hall σ hσ v hv, inverted_breaks (hall σ hσ v hv)⟩, fun i v hth => ?_⟩
  have hinv := enter_inverted cfg s.queue v
  obtain ⟨threads, hleave⟩ : ∃ threads, leave s.threads i (.blockingPutOwned v) none
      (enter cfg s.queue (.blockingPutOwned v)).2 = some threads := leave_putExit
  refine ⟨⟨(enter cfg s.queue (.blockingPutOwned v)).1, threads, s.history ++ [_]⟩, _, ?_, rfl, rfl, rfl, hinv,
    inverted_breaks hinv⟩
  simp [machine, hth, runThread, Pc.ready, hleave]

/-- the first call of the overload, on an empty queue: it enqueues the element, and returns false -/
theorem blockingPutOwned_inverted_empty :
    let cfg : Config ℕ := ⟨1, fun _ => 1⟩
    let s : St ℕ := ⟨⟨[], 0, false⟩, [⟨.blockingPutOwned 7, .entering⟩], []⟩
    ∃ t σ, (machine cfg).step s (.run 0 none) = some t ∧ t.history = s.history ++ [σ] ∧ σ.call = .blockingPutOwned 7 ∧
      σ.before = s.queue ∧ Inverted σ ∧ ¬ OwnedContract σ := by
  intro cfg s
  have hrun : (machine cfg).run (machine cfg).init [.call (.blockingPutOwned 7)] = some s := rfl
  exact (blockingPutOwned_inverted hrun).2 0 7 rfl

/-- a full queue: the overload returns true at once and releases an element that nobody holds any more -/
theorem blockingPutOwned_leaks :
    let cfg : Config ℕ := ⟨1, fun _ => 1⟩
    ∃ s, (machine cfg).run (machine cfg).init
        [.call (.put 7), .run 0 none, .signal 0 none, .call (.blockingPutOwned 8), .run 0 none] = some s ∧
      s.queue.shutdown = false ∧ s.queue.list = [7] ∧
      ∃ σ ∈ s.history, σ.call = .blockingPutOwned 8 ∧ σ.exit.report? = some (.blockingPutOwned .full true true) ∧
        ¬ OwnedContract σ := by
  refine ⟨_, rfl, rfl, rfl, ⟨.blockingPutOwned 8, ⟨[7], 1, false⟩, ⟨[7], 1, false⟩,
    .returns (.blockingPutOwned .full true true) .none⟩, by decide, rfl, rfl, ?_⟩
  rintro ⟨ok, released, -, -, -, hshut⟩
  rcases hshut with hshut | hshut
  · exact hshut rfl
  · cases hshut

end Bboy.BlockingQueue
