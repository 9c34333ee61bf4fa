/-
Lean model of `percpu_rwlock` (`bboy/base/sync/locks.h`): an array of `rw_spinlock`s, one for each CPU. A reader locks one of
them in shared mode; a writer locks all of them, one by one.

A `rw_spinlock` is a `rw_semaphore`. Each lock of the array is a state of that machine, and a step of a thread is a step of
the machine of one lock, or the return from a call of it (`next`).

- `Fits`: where a thread is at each lock follows from where it is in its own call. A writer holds what it has taken so far.
- `percpu_safety`: a writer that returned from `lock`, or with true from `try_lock`, excludes every reader and every other
  writer; a `try_lock` that returned false had released what it took, in the other order, and held no lock; nobody waits in
  a circle, readers included.
Witness: `percpu_safety_rollback`.
-/
import Bboy.Sync.RwSemaphore

namespace Bboy.PercpuRwlock

open Core
open RwSemaphore (Pc Call)

/-! ## The array of locks -/

/-- where a thread is in its call; `i` is the lock of the current round -/
inductive Phase where
  | idle
  | reader (cpu : ℕ)
  | locking (i : ℕ)
  | trying (i : ℕ)
  | rollingBack (i : ℕ)
  | holding
  | unlocking (i : ℕ)
  deriving DecidableEq, Repr

/-- `took` and `released` are ghosts: the locks that this `try_lock` has taken and released, in order -/
structure Thread where
  phase : Phase
  took : List ℕ
  released : List ℕ
  deriving DecidableEq, Repr

/-- a `try_lock` that returned false; `held` are the locks at which the thread was not idle then -/
structure Failure where
  took : List ℕ
  released : List ℕ
  held : List ℕ
  deriving DecidableEq, Repr

/-- `failures` is a ghost -/
structure St where
  locks : List RwSemaphore.St
  threads : List Thread
  failures : List Failure
  deriving DecidableEq, Repr

inductive Op where
  | lockShared (a cpu : ℕ)
  | unlockShared (a : ℕ)
  | lock (a : ℕ)
  | tryLock (a : ℕ)
  | unlock (a : ℕ)
  | step (a : ℕ)
  | next (a : ℕ)
  deriving DecidableEq, Repr

/-- the lock that the thread is at -/
def Phase.lock? : Phase → Option ℕ
  | .reader i | .locking i | .trying i | .rollingBack i | .unlocking i => some i
  | .idle => none
  | .holding => none

/-- a step of the machine of `locks_[i].lock` -/
def onLock (m : ℕ) (locks : List RwSemaphore.St) (i : ℕ) (o : RwSemaphore.Op) : Option (List RwSemaphore.St) :=
  locks[i]?.bind fun l => ((RwSemaphore.machine m).step l o).map fun l' => locks.set i l'

def pcAt (locks : List RwSemaphore.St) (i a : ℕ) : Option Pc := locks[i]?.bind fun l => l.threads[a]?

/-- the thread goes on in `th`, with a call of `locks_[i].lock` -/
def enter (m : ℕ) (s : St) (a : ℕ) (th : Thread) (i : ℕ) (c : Call) : Option St :=
  (onLock m s.locks i (.begin a c)).map fun locks => { s with locks := locks, threads := s.threads.set a th }

def setThread (s : St) (a : ℕ) (th : Thread) : St := { s with threads := s.threads.set a th }

/-- `while (i--) locks_[i].lock.unlock(); return false` -/
def rollBack (m : ℕ) (s : St) (a : ℕ) (th : Thread) : ℕ → Option St
  | 0 =>
    let held := (List.range s.locks.length).filter fun j => pcAt s.locks j a ≠ some .idle
    some { setThread s a { th with phase := .idle } with failures := s.failures ++ [⟨th.took, th.released, held⟩] }
  | i + 1 => enter m s a { th with phase := .rollingBack i } i .unlock

/-- the call of `locks_[i].lock` returned, and the thread goes on -/
def next (m : ℕ) (s : St) (a : ℕ) (th : Thread) : Option St :=
  let n := s.locks.length
  match th.phase with
  | .reader i => if pcAt s.locks i a = some .idle then some (setThread s a { th with phase := .idle }) else none
  | .locking i =>
    if pcAt s.locks i a = some .exclusive then
      if i + 1 < n then enter m s a { th with phase := .locking (i + 1) } (i + 1) .lock
      else some (setThread s a { th with phase := .holding })
    else none
  | .trying i =>
    if pcAt s.locks i a = some .exclusive then
      let th := { th with took := th.took ++ [i] }
      if i + 1 < n then enter m s a { th with phase := .trying (i + 1) } (i + 1) .tryLock
      else some (setThread s a { th with phase := .holding })
    else if pcAt s.locks i a = some .idle then rollBack m s a th i
    else none
  | .rollingBack i =>
    if pcAt s.locks i a = some .idle then rollBack m s a { th with released := th.released ++ [i] } i else none
  | .unlocking i =>
    if pcAt s.locks i a = some .idle then
      if i + 1 < n then enter m s a { th with phase := .unlocking (i + 1) } (i + 1) .unlock
      else some (setThread s a { th with phase := .idle })
    else none
  | .idle => none
  | .holding => none

/-- a call of the thread `a` begins where the brackets allow it -/
def begin (m : ℕ) (s : St) (a : ℕ) (th : Thread) : Op → Option St
  | .lockShared _ cpu => if th.phase = .idle then enter m s a { th with phase := .reader cpu } cpu .lockShared else none
  | .unlockShared _ =>
    match th.phase with
    | .reader cpu => enter m s a th cpu .unlockShared
    | _ => none
  | .lock _ => if th.phase = .idle then enter m s a { th with phase := .locking 0 } 0 .lock else none
  | .tryLock _ => if th.phase = .idle then enter m s a ⟨.trying 0, [], []⟩ 0 .tryLock else none
  | .unlock _ => if th.phase = .holding then enter m s a { th with phase := .unlocking 0 } 0 .unlock else none
  | _ => none

def machine (n m : ℕ) : Machine St Op where
  init := ⟨List.replicate n (RwSemaphore.machine m).init, List.replicate m ⟨.idle, [], []⟩, []⟩
  step s o :=
    match o with
    | .step a => s.threads[a]?.bind fun th => th.phase.lock?.bind fun i =>
        (onLock m s.locks i (.step a)).map fun locks => { s with locks := locks }
    | .next a => s.threads[a]?.bind (next m s a)
    | .lockShared a _ | .unlockShared a | .lock a | .tryLock a | .unlock a => s.threads[a]?.bind fun th => begin m s a th o

/-! ## Where a thread is -/

/-- what the thread can be at in the lock of its current round -/
def Phase.current : Phase → Pc → Bool
  | .reader _, .lockShared _ | .reader _, .shared | .reader _, .unlockShared _ | .reader _, .idle => true
  | .locking _, .lock _ | .locking _, .waitPendingReaders | .locking _, .exclusive => true
  | .trying _, .tryLock _ | .trying _, .waitPendingReaders | .trying _, .exclusive | .trying _, .idle => true
  | .rollingBack _, .unlock _ | .rollingBack _, .idle => true
  | .unlocking _, .unlock _ | .unlocking _, .idle => true
  | _, _ => false

/-- where it is at the lock `j` otherwise -/
def Phase.elsewhere : Phase → ℕ → Pc
  | .idle, _ | .reader _, _ => .idle
  | .locking i, j | .trying i, j | .rollingBack i, j => if j < i then .exclusive else .idle
  | .holding, _ => .exclusive
  | .unlocking i, j => if j < i then .idle else .exclusive

def Fits (ph : Phase) (j : ℕ) (pc : Pc) : Prop :=
  if ph.lock? = some j then ph.current pc = true else pc = ph.elsewhere j

/-- the ghosts of a `try_lock`: it took the locks in order, and has the ones below the current one still to release -/
def GhostInv (th : Thread) : Prop :=
  match th.phase with
  | .trying i => th.took = List.range i ∧ th.released = []
  | .rollingBack i => th.released ++ (List.range (i + 1)).reverse = th.took.reverse
  | _ => True

structure Inv (n m : ℕ) (s : St) : Prop where
  length : s.locks.length = n
  threads : s.threads.length = m
  locks : ∀ l ∈ s.locks, RwSemaphore.Inv m l
  nonempty : ∀ th ∈ s.threads, th.phase ≠ .idle → 0 < n
  fits : ∀ a th, s.threads[a]? = some th → ∀ j pc, pcAt s.locks j a = some pc → Fits th.phase j pc
  ghosts : ∀ th ∈ s.threads, GhostInv th
  failures : ∀ f ∈ s.failures, f.released = f.took.reverse ∧ f.held = []

variable {n m : ℕ} {s t : St} {o : Op} {a b i j k : ℕ} {th : Thread} {pc pc' : Pc}
  {locks locks' : List RwSemaphore.St}

/-! ## Steps of one lock -/

/-- a step of the thread `a` at the lock `i`, from `pc` to `pc'` -/
structure Touch (m : ℕ) (locks locks' : List RwSemaphore.St) (i a : ℕ) (pc pc' : Pc) : Prop where
  length : locks'.length = locks.length
  before : pcAt locks i a = some pc
  after : ∀ j b, pcAt locks' j b = if j = i ∧ b = a then some pc' else pcAt locks j b
  inv : m < 2 ^ 31 → (∀ l ∈ locks, RwSemaphore.Inv m l) → ∀ l ∈ locks', RwSemaphore.Inv m l

theorem touch_of_step {l l' : RwSemaphore.St} {o : RwSemaphore.Op} (hl : locks[i]? = some l)
    (hstep : (RwSemaphore.machine m).step l o = some l') (hpc : l.threads[a]? = some pc)
    (ht : l'.threads = l.threads.set a pc') : Touch m locks (locks.set i l') i a pc pc' := by
  have hi : i < locks.length := (List.getElem?_eq_some_iff.1 hl).1
  have ha : a < l.threads.length := (List.getElem?_eq_some_iff.1 hpc).1
  refine ⟨List.length_set, by simp [pcAt, hl, hpc], fun j b => ?_, fun hm hinv l₀ hl₀ => ?_⟩
  · unfold pcAt
    by_cases hj : j = i
    · subst hj
      rw [List.getElem?_set_self hi, hl, Option.bind_some, Option.bind_some, ht]
      by_cases hb : b = a
      · subst hb
        rw [List.getElem?_set_self ha, if_pos ⟨rfl, rfl⟩]
      · rw [List.getElem?_set_ne (Ne.symm hb), if_neg fun h => hb h.2]
    · rw [List.getElem?_set_ne (Ne.symm hj), if_neg fun h => hj h.1]
  · rcases List.mem_or_eq_of_mem_set hl₀ with hl₀ | rfl
    · exact hinv l₀ hl₀
    · exact RwSemaphore.step_inv hm (hinv l (List.mem_of_getElem? hl)) hstep

theorem touch_begin {c : Call} (h : onLock m locks i (.begin a c) = some locks') :
    ∃ pc pc', c.enter pc = some pc' ∧ Touch m locks locks' i a pc pc' := by
  obtain ⟨l, hl, hstep⟩ := Option.bind_eq_some_iff.1 h
  obtain ⟨l', hl', rfl⟩ := Option.map_eq_some_iff.1 hstep
  obtain ⟨pc, hpc, hbegin⟩ := Option.bind_eq_some_iff.1 hl'
  obtain ⟨pc', henter, rfl⟩ := Option.map_eq_some_iff.1 hbegin
  exact ⟨pc, pc', henter, touch_of_step hl hl' hpc rfl⟩

theorem touch_step (h : onLock m locks i (.step a) = some locks') :
    ∃ pc state acc, RwSemaphore.advance state pc = some acc ∧ Touch m locks locks' i a pc acc.pc := by
  obtain ⟨l, hl, hstep⟩ := Option.bind_eq_some_iff.1 h
  obtain ⟨l', hl', rfl⟩ := Option.map_eq_some_iff.1 hstep
  obtain ⟨pc, hpc, haccess⟩ := Option.bind_eq_some_iff.1 hl'
  obtain ⟨acc, hadvance, rfl⟩ := Option.map_eq_some_iff.1 haccess
  exact ⟨pc, l.state, acc, hadvance, touch_of_step hl hl' hpc rfl⟩

theorem follows_current {ph : Phase} (h : pc.follows pc') (hc : ph.current pc = true) : ph.current pc' = true := by
  cases ph <;> cases pc <;> cases hc <;> cases pc' <;> first | rfl | cases h

/-! ## The invariant -/

/-- a thread that a step takes from `pc` to `pc'` at the lock of its current round -/
theorem touch_inv {th' : Thread} (hi : Inv n m s) (hm : m < 2 ^ 31) (hth : s.threads[a]? = some th)
    (ht : Touch m s.locks locks' i a pc pc') (hlock : th'.phase.lock? = some i) (hcur : th'.phase.current pc' = true)
    (helse : ∀ j pc, j ≠ i → pcAt s.locks j a = some pc → Fits th.phase j pc → pc = th'.phase.elsewhere j)
    (hghost : GhostInv th') : Inv n m { s with locks := locks', threads := s.threads.set a th' } := by
  have ha : a < s.threads.length := (List.getElem?_eq_some_iff.1 hth).1
  have hbound : i < n := by
    obtain ⟨l, hl, -⟩ := Option.bind_eq_some_iff.1 ht.before
    exact hi.length ▸ (List.getElem?_eq_some_iff.1 hl).1
  refine ⟨by rw [ht.length, hi.length], by rw [List.length_set, hi.threads], ht.inv hm hi.locks,
    fun _ _ _ => (Nat.zero_le i).trans_lt hbound, fun b thb hb j q hq => ?_, fun th₀ hth₀ => ?_, hi.failures⟩
  · dsimp only at hb hq
    rw [ht.after] at hq
    by_cases hba : b = a
    · subst hba
      rw [List.getElem?_set_self ha] at hb
      cases hb
      by_cases hj : j = i
      · subst hj
        rw [if_pos ⟨rfl, rfl⟩] at hq
        cases hq
        exact (if_pos hlock).mpr hcur
      · rw [if_neg fun h => hj h.1] at hq
        have hne : th'.phase.lock? ≠ some j := fun h => hj (Option.some.inj (h.symm.trans hlock))
        exact (if_neg hne).mpr (helse j q hj hq (hi.fits b th hth j q hq))
    · rw [List.getElem?_set_ne (Ne.symm hba)] at hb
      rw [if_neg fun h => hba h.2] at hq
      exact hi.fits b thb hb j q hq
  · rcases List.mem_or_eq_of_mem_set hth₀ with hth₀ | rfl
    · exact hi.ghosts th₀ hth₀
    · exact hghost

/-- a thread that goes on without a step of a lock -/
theorem setThread_inv {th' : Thread} (hi : Inv n m s) (hth : s.threads[a]? = some th)
    (hnonempty : th'.phase ≠ .idle → 0 < n) (hfits : ∀ j pc, pcAt s.locks j a = some pc → Fits th'.phase j pc)
    (hghost : GhostInv th') : Inv n m (setThread s a th') := by
  have ha : a < s.threads.length := (List.getElem?_eq_some_iff.1 hth).1
  have hmem : ∀ {P : Thread → Prop}, (∀ th ∈ s.threads, P th) → P th' → ∀ th ∈ s.threads.set a th', P th := by
    intro P hall hnew th₀ hth₀
    rcases List.mem_or_eq_of_mem_set hth₀ with hth₀ | rfl
    · exact hall th₀ hth₀
    · exact hnew
  refine ⟨hi.length, by rw [setThread, List.length_set, hi.threads], hi.locks, hmem hi.nonempty hnonempty,
    fun b thb hb j q hq => ?_, hmem hi.ghosts hghost, hi.failures⟩
  by_cases hba : b = a
  · subst hba
    have hb : (s.threads.set b th')[b]? = some thb := hb
    rw [List.getElem?_set_self ha] at hb
    cases hb
    exact hfits j q hq
  · have hb : (s.threads.set a th')[b]? = some thb := hb
    rw [List.getElem?_set_ne (Ne.symm hba)] at hb
    exact hi.fits b thb hb j q hq

theorem Fits.away {ph : Phase} (h : Fits ph j pc) (hne : ph.lock? ≠ some j) : pc = ph.elsewhere j := by
  simpa [Fits, hne] using h

theorem Inv.pcAt_some (hi : Inv n m s) (hj : j < n) (hth : s.threads[a]? = some th) : ∃ pc, pcAt s.locks j a = some pc := by
  have hj' : j < s.locks.length := hi.length ▸ hj
  have ha : a < (s.locks[j]).threads.length := by
    rw [(hi.locks _ (List.getElem_mem hj')).length, ← hi.threads]
    exact (List.getElem?_eq_some_iff.1 hth).1
  exact ⟨_, by rw [pcAt, List.getElem?_eq_getElem hj', Option.bind_some, List.getElem?_eq_getElem ha]⟩

theorem pcAt_lt (hi : Inv n m s) (h : pcAt s.locks j a = some pc) : j < n := by
  obtain ⟨l, hl, -⟩ := Option.bind_eq_some_iff.1 h
  exact hi.length ▸ (List.getElem?_eq_some_iff.1 hl).1

/-- a call of a lock that begins -/
theorem enter_inv {th' : Thread} {c : Call} (hi : Inv n m s) (hm : m < 2 ^ 31) (hth : s.threads[a]? = some th)
    (h : enter m s a th' i c = some t) (hlock : th'.phase.lock? = some i)
    (hcur : ∀ pc pc', c.enter pc = some pc' → th'.phase.current pc' = true)
    (helse : ∀ j pc, j ≠ i → pcAt s.locks j a = some pc → Fits th.phase j pc → pc = th'.phase.elsewhere j)
    (hghost : GhostInv th') : Inv n m t := by
  obtain ⟨locks', hlocks, rfl⟩ := Option.map_eq_some_iff.1 h
  obtain ⟨pc, pc', henter, ht⟩ := touch_begin hlocks
  exact touch_inv hi hm hth ht hlock (hcur pc pc' henter) helse hghost

/-- the locks below `i` are released one by one, and then the call returns false -/
theorem rollBack_inv {th' : Thread} (hi : Inv n m s) (hm : m < 2 ^ 31) (hth : s.threads[a]? = some th) (hpos : 0 < n)
    (hpcs : ∀ j pc, pcAt s.locks j a = some pc → pc = if j < i then .exclusive else .idle)
    (hghost : th'.released ++ (List.range i).reverse = th'.took.reverse) (h : rollBack m s a th' i = some t) :
    Inv n m t := by
  cases i with
  | zero =>
    cases h
    have hidle : ∀ j pc, pcAt s.locks j a = some pc → pc = .idle := fun j pc hpc => by simpa using hpcs j pc hpc
    have hthread : Inv n m (setThread s a { th' with phase := .idle }) :=
      setThread_inv hi hth (fun _ => hpos) (fun j pc hpc => hidle j pc hpc) trivial
    refine ⟨hthread.length, hthread.threads, hthread.locks, hthread.nonempty, hthread.fits, hthread.ghosts, fun f hf => ?_⟩
    rcases List.mem_append.1 hf with hf | hf
    · exact hi.failures f hf
    · rw [List.mem_singleton.1 hf]
      refine ⟨by simpa using hghost, List.filter_eq_nil_iff.2 fun j hj => ?_⟩
      obtain ⟨pc, hpc⟩ := hi.pcAt_some (hi.length ▸ List.mem_range.1 hj) hth
      simp [hpc, hidle j pc hpc]
  | succ i =>
    refine enter_inv hi hm hth h rfl (fun pc pc' henter => ?_) (fun j pc hj hpc _ => ?_) hghost
    · cases pc <;> cases henter
      rfl
    · rw [hpcs j pc hpc]
      simp only [Phase.elsewhere]
      congr 1
      apply propext
      omega

/-- the places of a thread whose place at its current lock is known -/
theorem Inv.pcs (hi : Inv n m s) (hth : s.threads[a]? = some th) (hlock : th.phase.lock? = some i)
    (hpc : pcAt s.locks i a = some pc) {pc' : Pc} (hpc' : pcAt s.locks j a = some pc') :
    pc' = if j = i then pc else th.phase.elsewhere j := by
  by_cases hj : j = i
  · rw [if_pos hj]
    subst hj
    exact Option.some.inj (hpc'.symm.trans hpc)
  · rw [if_neg hj]
    exact (hi.fits a th hth j pc' hpc').away fun h => hj (Option.some.inj (h.symm.trans hlock))

/-- a walk over the locks that is through with the current one -/
theorem Inv.walked {done todo : Pc} (hi : Inv n m s) (hth : s.threads[a]? = some th) (hlock : th.phase.lock? = some i)
    (helse : ∀ j, th.phase.elsewhere j = if j < i then done else todo) (hpc : pcAt s.locks i a = some done)
    (hpc' : pcAt s.locks j a = some pc) : pc = if j < i + 1 then done else todo := by
  rw [hi.pcs hth hlock hpc hpc', helse]
  split_ifs <;> first | rfl | omega

/-- and the last lock was the current one -/
theorem Inv.walked_all {done todo : Pc} (hi : Inv n m s) (hth : s.threads[a]? = some th) (hlock : th.phase.lock? = some i)
    (helse : ∀ j, th.phase.elsewhere j = if j < i then done else todo) (hpc : pcAt s.locks i a = some done)
    (hlast : ¬ i + 1 < s.locks.length) (hpc' : pcAt s.locks j a = some pc) : pc = done := by
  have hj : j < n := pcAt_lt hi hpc'
  rw [hi.length] at hlast
  rw [hi.walked hth hlock helse hpc hpc', if_pos (show j < i + 1 by omega)]

/-- a walk that has not taken the current lock -/
theorem Inv.walking {done todo : Pc} (hi : Inv n m s) (hth : s.threads[a]? = some th) (hlock : th.phase.lock? = some i)
    (helse : ∀ j, th.phase.elsewhere j = if j < i then done else todo) (hpc : pcAt s.locks i a = some todo)
    (hpc' : pcAt s.locks j a = some pc) : pc = if j < i then done else todo := by
  rw [hi.pcs hth hlock hpc hpc', helse]
  split_ifs <;> first | rfl | omega

theorem next_inv (hi : Inv n m s) (hm : m < 2 ^ 31) (hth : s.threads[a]? = some th) (h : next m s a th = some t) :
    Inv n m t := by
  have hghost := hi.ghosts th (List.mem_of_getElem? hth)
  have hnonempty := hi.nonempty th (List.mem_of_getElem? hth)
  obtain ⟨phase, took, released⟩ := th
  cases phase with
  | idle => cases h
  | holding => cases h
  | reader i =>
    simp only [next] at h
    split_ifs at h with hpc
    cases h
    have hidle : ∀ j, (Phase.reader i).elsewhere j = if j < i then .idle else .idle := fun j => (ite_self _).symm
    refine setThread_inv hi hth (fun _ => hnonempty (by simp)) (fun j pc hj => ?_) trivial
    exact (hi.walking hth rfl hidle hpc hj).trans (ite_self _)
  | locking i =>
    simp only [next] at h
    split_ifs at h with hpc hmore
    · refine enter_inv hi hm hth h rfl (fun pc pc' henter => ?_) (fun j pc _ hj _ => ?_) trivial
      · cases pc <;> cases henter
        rfl
      · exact hi.walked hth rfl (fun _ => rfl) hpc hj
    · cases h
      refine setThread_inv hi hth (fun _ => hnonempty (by simp)) (fun j pc hj => ?_) trivial
      exact hi.walked_all hth rfl (fun _ => rfl) hpc hmore hj
  | trying i =>
    obtain ⟨htook, hreleased⟩ := hghost
    dsimp only at htook hreleased
    simp only [next] at h
    split_ifs at h with hpc hmore hpc
    · refine enter_inv hi hm hth h rfl (fun pc pc' henter => ?_) (fun j pc _ hj _ => ?_) ?_
      · cases pc <;> cases henter
        rfl
      · exact hi.walked hth rfl (fun _ => rfl) hpc hj
      · exact ⟨by rw [htook, List.range_succ], hreleased⟩
    · cases h
      refine setThread_inv hi hth (fun _ => hnonempty (by simp)) (fun j pc hj => ?_) trivial
      exact hi.walked_all hth rfl (fun _ => rfl) hpc hmore hj
    · refine rollBack_inv hi hm hth (hnonempty (by simp)) (fun j pc hj => ?_) ?_ h
      · exact hi.walking hth rfl (fun _ => rfl) hpc hj
      · dsimp only
        rw [htook, hreleased, List.nil_append]
  | rollingBack i =>
    simp only [next] at h
    split_ifs at h with hpc
    refine rollBack_inv hi hm hth (hnonempty (by simp)) (fun j pc hj => ?_) ?_ h
    · exact hi.walking hth rfl (fun _ => rfl) hpc hj
    · have hghost : released ++ (List.range (i + 1)).reverse = took.reverse := hghost
      rw [List.range_succ, List.reverse_append] at hghost
      simpa using hghost
  | unlocking i =>
    simp only [next] at h
    split_ifs at h with hpc hmore
    · refine enter_inv hi hm hth h rfl (fun pc pc' henter => ?_) (fun j pc _ hj _ => ?_) trivial
      · cases pc <;> cases henter
        rfl
      · exact hi.walked hth rfl (fun _ => rfl) hpc hj
    · cases h
      refine setThread_inv hi hth (fun _ => hnonempty (by simp)) (fun j pc hj => ?_) trivial
      exact hi.walked_all hth rfl (fun _ => rfl) hpc hmore hj

theorem begin_inv (hi : Inv n m s) (hm : m < 2 ^ 31) (hth : s.threads[a]? = some th) (h : begin m s a th o = some t) :
    Inv n m t := by
  obtain ⟨phase, took, released⟩ := th
  cases o with
  | lockShared b cpu =>
    simp only [begin] at h
    split_ifs at h with hphase
    subst hphase
    refine enter_inv hi hm hth h rfl (fun pc pc' henter => ?_) (fun j pc _ _ hfits => hfits) trivial
    cases pc <;> cases henter
    rfl
  | unlockShared b =>
    cases phase with
    | reader cpu =>
      refine enter_inv hi hm hth h rfl (fun pc pc' henter => ?_) (fun j pc hj _ hfits => ?_) trivial
      · cases pc <;> cases henter
        rfl
      · exact hfits.away fun heq => hj (Option.some.inj heq).symm
    | _ => cases h
  | lock b =>
    simp only [begin] at h
    split_ifs at h with hphase
    subst hphase
    refine enter_inv hi hm hth h rfl (fun pc pc' henter => ?_) (fun j pc _ _ hfits => hfits) trivial
    cases pc <;> cases henter
    rfl
  | tryLock b =>
    simp only [begin] at h
    split_ifs at h with hphase
    subst hphase
    refine enter_inv hi hm hth h rfl (fun pc pc' henter => ?_) (fun j pc _ _ hfits => hfits) ⟨rfl, rfl⟩
    cases pc <;> cases henter
    rfl
  | unlock b =>
    simp only [begin] at h
    split_ifs at h with hphase
    subst hphase
    refine enter_inv hi hm hth h rfl (fun pc pc' henter => ?_) (fun j pc _ _ hfits => hfits) trivial
    cases pc <;> cases henter
    rfl
  | _ => cases h

theorem step_inv (hm : m < 2 ^ 31) (hi : Inv n m s) (h : (machine n m).step s o = some t) : Inv n m t := by
  cases o with
  | step a =>
    obtain ⟨th, hth, hstep⟩ := Option.bind_eq_some_iff.1 h
    obtain ⟨i, hlock, hmap⟩ := Option.bind_eq_some_iff.1 hstep
    obtain ⟨locks', hlocks, rfl⟩ := Option.map_eq_some_iff.1 hmap
    obtain ⟨pc, state, acc, hadvance, ht⟩ := touch_step hlocks
    have hcur : th.phase.current pc = true := by simpa [Fits, hlock] using hi.fits a th hth i pc ht.before
    have hstate := touch_inv hi hm hth ht hlock (follows_current (RwSemaphore.advance_follows hadvance) hcur)
      (fun j pc hj _ hfits => hfits.away fun heq => hj (Option.some.inj (heq.symm.trans hlock)))
      (hi.ghosts th (List.mem_of_getElem? hth))
    obtain ⟨ha, rfl⟩ := List.getElem?_eq_some_iff.1 hth
    rw [List.set_getElem_self] at hstate
    exact hstate
  | next a =>
    obtain ⟨th, hth, hnext⟩ := Option.bind_eq_some_iff.1 h
    exact next_inv hi hm hth hnext
  | lockShared a cpu =>
    obtain ⟨th, hth, hbegin⟩ := Option.bind_eq_some_iff.1 h
    exact begin_inv hi hm hth hbegin
  | unlockShared a =>
    obtain ⟨th, hth, hbegin⟩ := Option.bind_eq_some_iff.1 h
    exact begin_inv hi hm hth hbegin
  | lock a =>
    obtain ⟨th, hth, hbegin⟩ := Option.bind_eq_some_iff.1 h
    exact begin_inv hi hm hth hbegin
  | tryLock a =>
    obtain ⟨th, hth, hbegin⟩ := Option.bind_eq_some_iff.1 h
    exact begin_inv hi hm hth hbegin
  | unlock a =>
    obtain ⟨th, hth, hbegin⟩ := Option.bind_eq_some_iff.1 h
    exact begin_inv hi hm hth hbegin

theorem inv_init (n m : ℕ) : Inv n m (machine n m).init := by
  refine ⟨List.length_replicate, List.length_replicate, fun l hl => ?_, fun th hth hne => ?_, fun a th hth j pc hpc => ?_,
    fun th hth => ?_, fun f hf => absurd hf List.not_mem_nil⟩
  · rw [List.eq_of_mem_replicate hl]
    exact RwSemaphore.inv_init m
  · rw [List.eq_of_mem_replicate hth] at hne
    exact absurd rfl hne
  · rw [List.eq_of_mem_replicate (List.mem_of_getElem? hth)]
    obtain ⟨l, hl, hpc⟩ := Option.bind_eq_some_iff.1 hpc
    rw [List.eq_of_mem_replicate (List.mem_of_getElem? hl)] at hpc
    exact List.eq_of_mem_replicate (List.mem_of_getElem? hpc)
  · rw [List.eq_of_mem_replicate hth]
    exact trivial

theorem run_inv {ops : List Op} (hm : m < 2 ^ 31) (hrun : (machine n m).run (machine n m).init ops = some s) : Inv n m s :=
  Machine.run_inv (fun _ _ _ hi h => step_inv hm hi h) (inv_init n m) hrun

/-! ## Exclusion -/

/-- two threads at one lock -/
theorem Inv.excludes (hi : Inv n m s) (hba : b ≠ a) (hpc : pcAt s.locks j a = some pc) (hpc' : pcAt s.locks j b = some pc')
    (hexcl : pc.isExclusive = true) : pc'.isShared = false ∧ pc'.isWriter = false := by
  obtain ⟨l, hl, hpc⟩ := Option.bind_eq_some_iff.1 hpc
  obtain ⟨l', hl', hpc'⟩ := Option.bind_eq_some_iff.1 hpc'
  obtain rfl : l = l' := Option.some.inj (hl.symm.trans hl')
  exact (hi.locks l (List.mem_of_getElem? hl)).excludes hba hpc hpc' hexcl

/-- a writer that holds keeps the others out of every lock -/
theorem Inv.holding_excludes {th' : Thread} (hi : Inv n m s) (hba : b ≠ a) (hth : s.threads[a]? = some th)
    (hth' : s.threads[b]? = some th') (hhold : th.phase = .holding) :
    th'.phase ≠ .holding ∧ ∀ j pc, pcAt s.locks j b = some pc → pc.isShared = false ∧ pc.isWriter = false := by
  have hout : ∀ j pc, pcAt s.locks j b = some pc → pc.isShared = false ∧ pc.isWriter = false := by
    intro j pc hpc
    obtain ⟨q, hq⟩ := hi.pcAt_some (pcAt_lt hi hpc) hth
    have hfits := (hi.fits a th hth j q hq).away (by simp [hhold, Phase.lock?])
    rw [hhold] at hfits
    exact hi.excludes hba hq hpc (by rw [hfits]; rfl)
  refine ⟨fun hhold' => ?_, hout⟩
  have hpos : 0 < n := hi.nonempty th (List.mem_of_getElem? hth) (by simp [hhold])
  obtain ⟨pc, hpc⟩ := hi.pcAt_some hpos hth'
  have hfits := (hi.fits b th' hth' 0 pc hpc).away (by simp [hhold', Phase.lock?])
  rw [hhold'] at hfits
  have hwriter := (hout 0 pc hpc).2
  rw [hfits] at hwriter
  cases hwriter

/-! ## Waiting -/

/-- in a loop that goes on while the flag is set; `try_lock` does not wait for another writer -/
def spins : Pc → Bool
  | .lockShared _ | .lock _ => true
  | _ => false

/-- at some lock `a` does not get on before `b` unlocks: `b` has the flag, or `a` drains and `b` is a reader -/
def WaitsFor (s : St) (a b : ℕ) : Prop :=
  a ≠ b ∧ ∃ i pc pc', pcAt s.locks i a = some pc ∧ pcAt s.locks i b = some pc' ∧
    (spins pc = true ∧ pc'.isWriter = true ∨ pc = .waitPendingReaders ∧ pc'.isShared = true)

/-- waiting readers first, then the writers by the lock that they are at, and those that wait for nobody last -/
def rank (n : ℕ) (s : St) (a : ℕ) : ℕ :=
  match s.threads[a]?.map Thread.phase with
  | some (.reader i) =>
    match pcAt s.locks i a with
    | some (.lockShared _) => 0
    | _ => 2 * n + 3
  | some (.locking i) =>
    match pcAt s.locks i a with
    | some (.lock _) => 2 * i + 1
    | _ => 2 * i + 2
  | some (.trying i) => 2 * i + 2
  | _ => 2 * n + 3

theorem Inv.thread_of_pc (hi : Inv n m s) (hpc : pcAt s.locks j a = some pc) :
    ∃ th, s.threads[a]? = some th ∧ Fits th.phase j pc := by
  obtain ⟨l, hl, hget⟩ := Option.bind_eq_some_iff.1 hpc
  have ha : a < s.threads.length := by
    rw [hi.threads, ← (hi.locks l (List.mem_of_getElem? hl)).length]
    exact (List.getElem?_eq_some_iff.1 hget).1
  exact ⟨_, List.getElem?_eq_getElem ha, hi.fits a _ (List.getElem?_eq_getElem ha) j pc hpc⟩

/-- a thread is idle or holds exclusively at the locks that it is not at -/
theorem Fits.here {ph : Phase} (h : Fits ph j pc) (hidle : pc ≠ .idle) (hexcl : pc ≠ .exclusive) :
    ph.lock? = some j ∧ ph.current pc = true := by
  by_cases hlock : ph.lock? = some j
  · exact ⟨hlock, by simpa [Fits, hlock] using h⟩
  · have haway := h.away hlock
    cases ph <;> simp only [Phase.elsewhere] at haway <;> (try split_ifs at haway) <;> contradiction

/-- a writer at a lock other than its current one holds it, and its current one is a later one -/
theorem Fits.writer {ph : Phase} (h : Fits ph j pc) (hwriter : pc.isWriter = true) :
    (∃ i, (ph = .locking i ∨ ph = .trying i) ∧ j ≤ i) ∨ (∃ i, ph = .rollingBack i) ∨ ph = .holding ∨
      ∃ i, ph = .unlocking i := by
  cases ph with
  | idle =>
    rw [h.away (by simp [Phase.lock?])] at hwriter
    cases hwriter
  | reader i =>
    by_cases hj : i = j
    · have hcur : (Phase.reader i).current pc = true := by simpa [Fits, Phase.lock?, hj] using h
      cases pc <;> cases hwriter <;> cases hcur
    · rw [h.away (by simpa [Phase.lock?] using hj)] at hwriter
      cases hwriter
  | locking i =>
    refine Or.inl ⟨i, Or.inl rfl, ?_⟩
    by_contra hlt
    rw [h.away (by simp [Phase.lock?]; omega)] at hwriter
    simp only [Phase.elsewhere] at hwriter
    rw [if_neg (by omega)] at hwriter
    cases hwriter
  | trying i =>
    refine Or.inl ⟨i, Or.inr rfl, ?_⟩
    by_contra hlt
    rw [h.away (by simp [Phase.lock?]; omega)] at hwriter
    simp only [Phase.elsewhere] at hwriter
    rw [if_neg (by omega)] at hwriter
    cases hwriter
  | rollingBack i => exact Or.inr (Or.inl ⟨i, rfl⟩)
  | holding => exact Or.inr (Or.inr (Or.inl rfl))
  | unlocking i => exact Or.inr (Or.inr (Or.inr ⟨i, rfl⟩))

/-- the rank of a writer is past the lock that it has the flag of -/
theorem Inv.writer_rank (hi : Inv n m s) (hpc : pcAt s.locks j a = some pc) (hwriter : pc.isWriter = true) :
    2 * j + 2 ≤ rank n s a := by
  obtain ⟨th, hth, hfits⟩ := hi.thread_of_pc hpc
  have hj := pcAt_lt hi hpc
  unfold rank
  rw [hth, Option.map_some]
  rcases hfits.writer hwriter with ⟨i, heq | heq, hji⟩ | ⟨i, heq⟩ | heq | ⟨i, heq⟩
  · simp only [heq]
    rcases Nat.lt_or_eq_of_le hji with hlt | rfl
    · split <;> omega
    · rw [hpc]
      cases pc <;> first | exact le_rfl | cases hwriter
  · simp only [heq]
    omega
  · simp only [heq]
    omega
  · simp only [heq]
    omega
  · simp only [heq]
    omega

theorem Fits.spins {ph : Phase} (h : Fits ph i pc) (hspins : spins pc = true) :
    (∃ cur, pc = .lockShared cur ∧ ph = .reader i) ∨ ∃ cur, pc = .lock cur ∧ ph = .locking i := by
  cases pc with
  | lockShared cur =>
    obtain ⟨hlock, hcur⟩ := h.here (by simp) (by simp)
    cases ph <;> cases hlock <;> cases hcur
    exact Or.inl ⟨cur, rfl, rfl⟩
  | lock cur =>
    obtain ⟨hlock, hcur⟩ := h.here (by simp) (by simp)
    cases ph <;> cases hlock <;> cases hcur
    exact Or.inr ⟨cur, rfl, rfl⟩
  | _ => cases hspins

theorem Fits.drains {ph : Phase} (h : Fits ph i .waitPendingReaders) : ph = .locking i ∨ ph = .trying i := by
  obtain ⟨hlock, hcur⟩ := h.here (by simp) (by simp)
  cases ph <;> cases hlock <;> cases hcur
  · exact Or.inl rfl
  · exact Or.inr rfl

theorem Fits.reads {ph : Phase} (h : Fits ph i pc) (hshared : pc.isShared = true) :
    ph = .reader i ∧ ∀ cur, pc ≠ .lockShared cur := by
  obtain ⟨hlock, hcur⟩ := h.here (fun h => by rw [h] at hshared; cases hshared) fun h => by rw [h] at hshared; cases hshared
  refine ⟨?_, fun cur heq => by rw [heq] at hshared; cases hshared⟩
  cases pc <;> cases hshared <;> cases ph <;> cases hlock <;> cases hcur <;> rfl

/-- **Who is waited for has the greater rank.** -/
theorem Inv.waitsFor_rank (hi : Inv n m s) (h : WaitsFor s a b) : rank n s a < rank n s b := by
  obtain ⟨-, i, pc, pc', hpc, hpc', ⟨hspins, hwriter⟩ | ⟨rfl, hshared⟩⟩ := h
  · -- `b` has the flag of the lock that `a` is at
    have hb := hi.writer_rank hpc' hwriter
    obtain ⟨th, hth, hfits⟩ := hi.thread_of_pc hpc
    have ha : rank n s a ≤ 2 * i + 1 := by
      rcases hfits.spins hspins with ⟨cur, rfl, hphase⟩ | ⟨cur, rfl, hphase⟩
      · simp [rank, hth, hphase, hpc]
      · simp [rank, hth, hphase, hpc]
    omega
  · -- `a` drains a lock that `b` reads, and a reader waits for nobody
    obtain ⟨th, hth, hfits⟩ := hi.thread_of_pc hpc
    obtain ⟨th', hth', hfits'⟩ := hi.thread_of_pc hpc'
    obtain ⟨hphase', hne⟩ := hfits'.reads hshared
    have hb : rank n s b = 2 * n + 3 := by
      simp only [rank, hth', Option.map_some, hphase', hpc']
      split
      · exact absurd (Option.some.inj ‹_›) (hne _)
      · rfl
    have ha : rank n s a ≤ 2 * i + 2 := by
      rcases hfits.drains with hphase | hphase
      · simp [rank, hth, hphase, hpc]
      · simp [rank, hth, hphase]
    have hin := pcAt_lt hi hpc
    omega

/-- a relation along which a rank grows has no cycle -/
theorem acyclic_of_rank {R : ℕ → ℕ → Prop} (rank : ℕ → ℕ) (h : ∀ a b, R a b → rank a < rank b) (a : ℕ) :
    ¬ Relation.TransGen R a a := by
  intro hcycle
  have hlt : ∀ b c, Relation.TransGen R b c → rank b < rank c := by
    intro b c hbc
    induction hbc with
    | single hstep => exact h _ _ hstep
    | tail _ hstep ih => exact ih.trans (h _ _ hstep)
  exact lt_irrefl _ (hlt a a hcycle)

/-- **Safety of the array of locks**, for fewer than `2 ^ 31` threads: a writer that holds excludes all others from every
lock; a `try_lock` that returned false released exactly what it took and held nothing; nobody waits in a circle. -/
theorem percpu_safety {ops : List Op} (hm : m < 2 ^ 31) (hrun : (machine n m).run (machine n m).init ops = some s) :
    (∀ (a b : ℕ) (th th' : Thread), b ≠ a → s.threads[a]? = some th → s.threads[b]? = some th' → th.phase = .holding →
      th'.phase ≠ .holding ∧ ∀ j pc, pcAt s.locks j b = some pc → pc.isShared = false ∧ pc.isWriter = false) ∧
    (∀ f ∈ s.failures, f.released = f.took.reverse ∧ f.held = []) ∧
    ∀ a, ¬ Relation.TransGen (WaitsFor s) a a := by
  have hi := run_inv hm hrun
  refine ⟨fun a b th th' hba hth hth' hhold => hi.holding_excludes hba hth hth' hhold, hi.failures, fun a => ?_⟩
  exact acyclic_of_rank (rank n s) (fun _ _ h => hi.waitsFor_rank h) a

/-- a `try_lock` beside an `unlock` on its way: it takes the first lock, finds the second one taken, and releases -/
theorem percpu_safety_rollback :
    let ops : List Op := [.lock 0, .step 0, .step 0, .step 0, .next 0, .step 0, .step 0, .step 0, .next 0,
      .unlock 0, .step 0, .step 0, .tryLock 1, .step 1, .step 1, .step 1, .next 1, .step 1, .step 1, .next 1, .step 1,
      .step 1, .next 1]
    ∃ s, (machine 2 2).run (machine 2 2).init ops = some s ∧ s.failures = [⟨[0], [0], []⟩] ∧
      ∀ f ∈ s.failures, f.released = f.took.reverse ∧ f.held = [] := by
  intro ops
  refine ⟨_, rfl, by decide, ?_⟩
  exact (percpu_safety (by norm_num) (rfl : (machine 2 2).run (machine 2 2).init ops = some _)).2.1

end Bboy.PercpuRwlock
