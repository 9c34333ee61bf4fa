/-
Lean model of `AcceptorPool` (`bboy/rpc/acceptor_pool.cc`): `Start`, the accept loops and `Shutdown`.

A step is one system call of an acceptor thread with its result, its load of `closing_`, or one step of a `Shutdown`. Calls of
`Shutdown` run at any time but during `Start`, which fills `threads_` without a lock; `Start` itself calls it on a failure.
A call notes on its return whether an acceptor thread was still running.

- `Inv`: a thread that has not exited is in `threads_`, and a joining call has seen the ones before it exit.
- `lifecycle_exact`: threads exit on `closing_` only and no `Shutdown` returns before them, exactly when no thread finishes
  setting up a connection while `closing_` is not set, and no call that finds it set finds a running thread.
- `lifecycle_breaks`: the first accepted connection ends the loop, and a second `Shutdown` does not wait.
-/
import Bboy.Core.Machine
import Bboy.Core.Slots

namespace Bboy.AcceptorPool

open Core

/-! ## Threads and calls -/

/-- what a thread in `RunThread` does next -/
inductive ThreadPc where
  | accept
  | checkClosing
  | setNoDelay
  | exited
  deriving DecidableEq, Repr

/-- what a `Shutdown` does next -/
inductive ShutdownPc where
  | compareAndSwap
  | shutdownSocket
  | joining (j : ℕ)
  | returned (running : Bool)
  deriving DecidableEq, Repr

/-- `toCreate` are the rounds that `Start` still has to do; `pool` is `threads_` -/
structure St where
  closing : Bool
  toCreate : ℕ
  threads : List ThreadPc
  pool : List ℕ
  calls : List ShutdownPc
  deriving DecidableEq, Repr

inductive Op where
  | start (numThreads : ℕ)
  | create (ok : Bool)
  | thread (i : ℕ) (ok : Bool)
  | shutdown
  | call (i : ℕ)
  deriving DecidableEq, Repr

def St.anyRunning (s : St) : Bool := s.threads.any (· ≠ .exited)

/-- one round of the loop in steps; `ok` is the result of the system call -/
def runThread (closing : Bool) : ThreadPc → Bool → Option ThreadPc
  | .accept, ok => some (if ok then .setNoDelay else .checkClosing)
  | .checkClosing, _ => some (if closing then .exited else .accept)
  -- the connection is logged and the loop left
  | .setNoDelay, ok => some (if ok then .exited else .accept)
  | .exited, _ => none

def shutdownStep (s : St) (i : ℕ) : ShutdownPc → Option St
  | .compareAndSwap =>
    some (if s.closing then { s with calls := s.calls.set i (.returned s.anyRunning) }
      else { s with closing := true, calls := s.calls.set i .shutdownSocket })
  | .shutdownSocket => some { s with calls := s.calls.set i (.joining 0) }
  | .joining j =>
    match s.pool[j]? with
    | some k => if s.threads[k]? = some .exited then some { s with calls := s.calls.set i (.joining (j + 1)) } else none
    | none => some { s with pool := [], calls := s.calls.set i (.returned s.anyRunning) }
  | .returned _ => none

def ShutdownPc.isReturned : ShutdownPc → Bool
  | .returned _ => true
  | _ => false

def machine : Machine St Op where
  init := ⟨false, 0, [], [], []⟩
  step s
    | .start numThreads =>
      if s.toCreate = 0 ∧ s.calls.all ShutdownPc.isReturned then some { s with toCreate := numThreads } else none
    | .create ok =>
      if s.toCreate = 0 then none
      else if ok then
        some { s with
          toCreate := s.toCreate - 1
          threads := s.threads.concat .accept
          pool := s.pool.concat s.threads.length }
      else some { s with toCreate := 0, calls := s.calls.concat .compareAndSwap }
    | .thread i ok => s.threads[i]?.bind fun pc =>
        (runThread s.closing pc ok).map fun pc' => { s with threads := s.threads.set i pc' }
    | .shutdown => if s.toCreate = 0 then some { s with calls := s.calls.concat .compareAndSwap } else none
    | .call i => s.calls[i]?.bind (shutdownStep s i)

/-! ## The invariant -/

structure Inv (s : St) : Prop where
  pooled : ∀ k pc, s.threads[k]? = some pc → pc ≠ .exited → k ∈ s.pool
  creating : s.toCreate ≠ 0 → ∀ c ∈ s.calls, c.isReturned = true
  joined : ∀ j, .joining j ∈ s.calls → ∀ j' < j, ∀ k, s.pool[j']? = some k → s.threads[k]? = some .exited

variable {s t : St} {o : Op} {i k : ℕ} {ok : Bool} {pc pc' : ThreadPc} {c c' : ShutdownPc}

theorem anyRunning_eq_false : s.anyRunning = false ↔ ∀ (k : ℕ) pc, s.threads[k]? = some pc → pc = .exited := by
  unfold St.anyRunning
  rw [List.any_eq_false]
  constructor
  · intro h k pc hk
    simpa using h pc (List.mem_of_getElem? hk)
  · intro h pc hpc
    obtain ⟨k, hk⟩ := List.mem_iff_getElem?.1 hpc
    simpa using h k pc hk

/-- a call that has joined all of `threads_` leaves no thread behind -/
theorem Inv.joined_all (h : Inv s) {j : ℕ} (hc : .joining j ∈ s.calls) (hend : s.pool[j]? = none) :
    s.anyRunning = false := by
  rw [anyRunning_eq_false]
  intro k pc hk
  by_contra hrun
  obtain ⟨j', hj'⟩ := List.mem_iff_getElem?.1 (h.pooled k pc hk hrun)
  have hlt : j' < j := (List.getElem?_eq_some_iff.1 hj').1.trans_le (List.getElem?_eq_none_iff.1 hend)
  exact hrun (Option.some.inj (hk.symm.trans (h.joined j hc j' hlt k hj')))

theorem runThread_running (h : runThread s.closing pc ok = some pc') : pc ≠ .exited := by
  rintro rfl
  exact absurd h.symm (Option.some_ne_none pc')

theorem inv_thread (h : Inv s) (hi : s.threads[i]? = some pc) (hrun : pc ≠ .exited) (pc' : ThreadPc) :
    Inv { s with threads := s.threads.set i pc' } := by
  constructor
  · intro k pck hk hck
    obtain rfl | hne := eq_or_ne i k
    · exact h.pooled i pc hi hrun
    · rw [List.getElem?_set_ne hne] at hk
      exact h.pooled k pck hk hck
  · exact h.creating
  · intro j hj j' hlt k hk
    have hexited := h.joined j hj j' hlt k hk
    have hne : i ≠ k := by
      rintro rfl
      exact hrun (Option.some.inj (hi.symm.trans hexited))
    rw [List.getElem?_set_ne hne]
    exact hexited

/-- one call moves on -/
theorem inv_call (h : Inv s) (hi : s.calls[i]? = some c) (hc : c.isReturned = false) (c' : ShutdownPc) (closing : Bool)
    (hjoined : ∀ j, c' = .joining j → ∀ j' < j, ∀ k, s.pool[j']? = some k → s.threads[k]? = some .exited) :
    Inv { s with closing := closing, calls := s.calls.set i c' } := by
  constructor
  · exact h.pooled
  · intro hcreating
    exact Bool.noConfusion (hc.symm.trans (h.creating hcreating c (List.mem_of_getElem? hi)))
  · intro j hj
    obtain hold | hnew := List.mem_or_eq_of_mem_set hj
    · exact h.joined j hold
    · exact hjoined j hnew.symm

/-- a new call -/
theorem inv_shutdown (h : Inv s) {toCreate : ℕ} (hdone : toCreate = 0) :
    Inv { s with toCreate := toCreate, calls := s.calls.concat .compareAndSwap } := by
  constructor
  · exact h.pooled
  · exact fun hcreating => absurd hdone hcreating
  · intro j hj
    rw [List.concat_eq_append] at hj
    obtain hold | hnew := List.mem_append.1 hj
    · exact h.joined j hold
    · exact absurd (List.mem_singleton.1 hnew) ShutdownPc.noConfusion

theorem inv_create (h : Inv s) (hcreate : s.toCreate ≠ 0) :
    Inv { s with
      toCreate := s.toCreate - 1
      threads := s.threads.concat .accept
      pool := s.pool.concat s.threads.length } := by
  have hreturned := h.creating hcreate
  simp only [List.concat_eq_append]
  constructor
  · intro k pc hk hrun
    obtain hlt | rfl | hgt := lt_trichotomy k s.threads.length
    · rw [List.getElem?_append_left hlt] at hk
      exact List.mem_append_left _ (h.pooled k pc hk hrun)
    · exact List.mem_append_right _ (List.mem_singleton_self _)
    · have hlength := (List.getElem?_eq_some_iff.1 hk).1
      rw [List.length_append, List.length_singleton] at hlength
      omega
  · exact fun _ => hreturned
  · intro j hj
    exact Bool.noConfusion (hreturned _ hj)

theorem inv_clear (h : Inv s) (hi : s.calls[i]? = some c) (hc : c.isReturned = false) (hnone : s.anyRunning = false) :
    Inv { s with pool := [], calls := s.calls.set i (.returned s.anyRunning) } := by
  constructor
  · intro k pc hk hrun
    exact absurd (anyRunning_eq_false.1 hnone k pc hk) hrun
  · intro hcreating
    exact Bool.noConfusion (hc.symm.trans (h.creating hcreating c (List.mem_of_getElem? hi)))
  · intro j _ j' _ k hk
    exact absurd hk (Option.not_mem_none k)

theorem inv_shutdownStep (h : Inv s) (hi : s.calls[i]? = some c) (hst : shutdownStep s i c = some t) : Inv t := by
  cases c with
  | compareAndSwap =>
    cases hst
    split_ifs
    · exact inv_call h hi rfl _ s.closing fun j hj => absurd hj ShutdownPc.noConfusion
    · exact inv_call h hi rfl _ true fun j hj => absurd hj ShutdownPc.noConfusion
  | shutdownSocket =>
    cases hst
    refine inv_call h hi rfl _ s.closing fun j hj j' hlt => ?_
    cases hj
    exact absurd hlt (Nat.not_lt_zero j')
  | joining j =>
    dsimp only [shutdownStep] at hst
    cases hpool : s.pool[j]? with
    | some k =>
      rw [hpool] at hst
      dsimp only at hst
      split_ifs at hst with hexited
      cases hst
      refine inv_call h hi rfl _ s.closing fun j₁ hj j' hlt k' hk' => ?_
      cases hj
      obtain hlt | rfl := Nat.lt_succ_iff_lt_or_eq.1 hlt
      · exact h.joined j (List.mem_of_getElem? hi) j' hlt k' hk'
      · rwa [Option.some.inj (hk'.symm.trans hpool)]
    | none =>
      rw [hpool] at hst
      cases hst
      exact inv_clear h hi rfl (h.joined_all (List.mem_of_getElem? hi) hpool)
  | returned running => cases hst

theorem inv_step (h : Inv s) (hst : machine.step s o = some t) : Inv t := by
  cases o with
  | start numThreads =>
    dsimp only [machine] at hst
    split_ifs at hst with hguard
    cases hst
    exact ⟨h.pooled, fun _ => List.all_eq_true.1 hguard.2, h.joined⟩
  | create ok =>
    dsimp only [machine] at hst
    split_ifs at hst with hcreate hok
    · cases hst
      exact inv_create h hcreate
    · cases hst
      exact inv_shutdown h rfl
  | thread i ok =>
    obtain ⟨pc, hi, hmap⟩ := Option.bind_eq_some_iff.1 hst
    obtain ⟨pc', hpc, rfl⟩ := Option.map_eq_some_iff.1 hmap
    exact inv_thread h hi (runThread_running hpc) pc'
  | shutdown =>
    dsimp only [machine] at hst
    split_ifs at hst with hcreate
    cases hst
    exact inv_shutdown h hcreate
  | call i =>
    obtain ⟨c, hi, hcall⟩ := Option.bind_eq_some_iff.1 hst
    exact inv_shutdownStep h hi hcall

/-! ## Which steps keep the contract -/

structure Good (s : St) : Prop where
  exits : .exited ∈ s.threads → s.closing = true
  waits : ∀ running, .returned running ∈ s.calls → running = false

/-- no thread finishes setting up a connection while `closing_` is not set, and no call that finds it set finds a running
thread -/
def Cond (s : St) : Op → Prop
  | .thread i ok => s.threads[i]? = some .setNoDelay → ok = true → s.closing = true
  | .call i => s.calls[i]? = some .compareAndSwap → s.closing = true → s.anyRunning = false
  | _ => True

/-- one thread moves on -/
theorem good_thread (h : Good s) (hi : s.threads[i]? = some pc) (pc' : ThreadPc) :
    Good { s with threads := s.threads.set i pc' } ↔ (pc' = .exited → s.closing = true) := by
  constructor
  · rintro hgood rfl
    exact hgood.exits ((slot_mem_set hi _).2 (Or.inl rfl))
  · intro hpc
    refine ⟨fun hexited => ?_, h.waits⟩
    obtain hold | hnew := List.mem_or_eq_of_mem_set hexited
    · exact h.exits hold
    · exact hpc hnew.symm

/-- one call moves on -/
theorem good_call (h : Good s) (hi : s.calls[i]? = some c) (c' : ShutdownPc) (closing : Bool) (pool : List ℕ)
    (hclosing : s.closing = true → closing = true) :
    Good { s with closing := closing, pool := pool, calls := s.calls.set i c' } ↔
      ∀ running, c' = .returned running → running = false := by
  constructor
  · rintro hgood running rfl
    exact hgood.waits running ((slot_mem_set hi _).2 (Or.inl rfl))
  · intro hc
    refine ⟨fun hexited => hclosing (h.exits hexited), fun running hmem => ?_⟩
    obtain hold | hnew := List.mem_or_eq_of_mem_set hmem
    · exact h.waits running hold
    · exact hc running hnew.symm

theorem good_thread_iff (h : Good s) :
    (∀ t ∈ machine.step s (.thread i ok), Good t) ↔ Cond s (.thread i ok) := by
  cases hi : s.threads[i]? with
  | none => simp [machine, Cond, hi]
  | some pc =>
    have hstep : (∀ t ∈ machine.step s (.thread i ok), Good t) ↔
        ∀ pc' ∈ runThread s.closing pc ok, pc' = .exited → s.closing = true := by
      simp [machine, hi, good_thread h hi]
    rw [hstep]
    cases pc with
    | accept => cases ok <;> simp [Cond, hi, runThread]
    | checkClosing => cases hclosing : s.closing <;> simp [Cond, hi, runThread]
    | setNoDelay => cases ok <;> simp [Cond, hi, runThread]
    | exited => simp [Cond, hi, runThread]

theorem good_call_iff (hinv : Inv s) (h : Good s) : (∀ t ∈ machine.step s (.call i), Good t) ↔ Cond s (.call i) := by
  cases hi : s.calls[i]? with
  | none => simp [machine, Cond, hi]
  | some c =>
    have hstep : machine.step s (.call i) = shutdownStep s i c := by simp [machine, hi]
    rw [hstep]
    cases c with
    | compareAndSwap =>
      cases hclosing : s.closing with
      | true =>
        have hgood := good_call h hi (.returned s.anyRunning) s.closing s.pool id
        simpa [shutdownStep, Cond, hi, hclosing] using hgood
      | false =>
        have hgood := good_call h hi .shutdownSocket true s.pool fun _ => rfl
        simpa [shutdownStep, Cond, hi, hclosing] using hgood
    | shutdownSocket =>
      have hgood := good_call h hi (.joining 0) s.closing s.pool id
      simpa [shutdownStep, Cond, hi] using hgood
    | joining j =>
      cases hpool : s.pool[j]? with
      | none =>
        have hgood := good_call h hi (.returned s.anyRunning) s.closing [] id
        simpa [shutdownStep, Cond, hi, hpool, hinv.joined_all (List.mem_of_getElem? hi) hpool] using hgood
      | some k =>
        have hgood := good_call h hi (.joining (j + 1)) s.closing s.pool id
        by_cases hexited : s.threads[k]? = some .exited
        · simpa [shutdownStep, Cond, hi, hpool, hexited] using hgood
        · simp [shutdownStep, Cond, hi, hpool, hexited]
    | returned running => simp [Cond, hi, shutdownStep]

theorem good_iff (hinv : Inv s) (h : Good s) (o : Op) : (∀ t ∈ machine.step s o, Good t) ↔ Cond s o := by
  have hcalls : ∀ running, .returned running ∈ s.calls.concat .compareAndSwap → running = false := by
    intro running hmem
    rw [List.concat_eq_append] at hmem
    obtain hold | hnew := List.mem_append.1 hmem
    · exact h.waits running hold
    · exact absurd (List.mem_singleton.1 hnew) ShutdownPc.noConfusion
  cases o with
  | thread i ok => exact good_thread_iff h
  | call i => exact good_call_iff hinv h
  | start numThreads =>
    refine iff_of_true (fun t hst => ?_) trivial
    dsimp only [machine] at hst
    split_ifs at hst
    · cases hst
      exact ⟨h.exits, h.waits⟩
    · cases hst
  | create ok =>
    refine iff_of_true (fun t hst => ?_) trivial
    dsimp only [machine] at hst
    split_ifs at hst
    · cases hst
    · cases hst
      refine ⟨fun hmem => h.exits ?_, h.waits⟩
      dsimp only at hmem
      rw [List.concat_eq_append] at hmem
      exact (List.mem_append.1 hmem).resolve_right fun hnew => absurd (List.mem_singleton.1 hnew) ThreadPc.noConfusion
    · cases hst
      exact ⟨h.exits, hcalls⟩
  | shutdown =>
    refine iff_of_true (fun t hst => ?_) trivial
    dsimp only [machine] at hst
    split_ifs at hst
    · cases hst
      exact ⟨h.exits, hcalls⟩
    · cases hst

theorem inv_init : Inv machine.init := by
  constructor
  · exact fun k pc hk => absurd hk (Option.not_mem_none pc)
  · exact fun hcreating => absurd rfl hcreating
  · exact fun j hj => absurd hj List.not_mem_nil

theorem good_init : Good machine.init :=
  ⟨fun hmem => absurd hmem List.not_mem_nil, fun _ hmem => absurd hmem List.not_mem_nil⟩

/-- **The contract holds of exactly the runs whose steps all meet the condition.** -/
theorem lifecycle_exact (ops : List Op) : machine.Always Good machine.init ops ↔ machine.Along Cond machine.init ops :=
  Machine.always_iff_along (fun _ _ _ hi _ _ hst => inv_step hi hst) (fun _ o hi hg _ => good_iff hi hg o) inv_init
    good_init (Machine.along_true machine.init ops)

/-- **Both halves of the contract fail.** The only thread exits on its first connection; and with two calls of `Shutdown` the
second returns while the thread runs. -/
theorem lifecycle_breaks :
    (∃ s, machine.run machine.init [.start 1, .create true, .thread 0 true, .thread 0 true] = some s ∧
      s.threads = [.exited] ∧ s.closing = false ∧ ¬ Good s) ∧
      ∃ s, machine.run machine.init [.start 1, .create true, .shutdown, .shutdown, .call 0, .call 1] = some s ∧
        s.calls = [.shutdownSocket, .returned true] ∧ s.threads = [.accept] ∧ ¬ Good s := by
  constructor
  · refine ⟨⟨false, 0, [.exited], [0], []⟩, by decide, rfl, rfl, fun hgood => ?_⟩
    exact Bool.noConfusion (hgood.exits (List.mem_singleton_self _))
  · refine ⟨⟨true, 0, [.accept], [0], [.shutdownSocket, .returned true]⟩, by decide, rfl, rfl, fun hgood => ?_⟩
    exact Bool.noConfusion (hgood.waits true (List.mem_of_getElem? (i := 1) rfl))

end Bboy.AcceptorPool
