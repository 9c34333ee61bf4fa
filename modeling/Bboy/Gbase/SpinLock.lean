/-
Lean model of `SpinLock` (`bboy/gbase/spinlock.{h,cc}`, with `SpinLockDelay` and `SpinLockWake` of
`spinlock_linux-inl.h`): a lock on one 32-bit word, with a futex to sleep on.

A step of a thread is one access to the word: a load, a compare-and-swap, an exchange, or a futex call, which compares and
falls asleep at once. The clock is left to the environment, so the wait cycles that a thread stores are any 32 bits with
the bit of `kSpinLockSleeper`. Each thread unlocks what it locked.

- `advance_cases`: what an access can do to the word and to the thread.
- `Inv`: the word is free when nobody holds, and nobody sleeps without a thread that is on its way to the lock or to a wake,
  or a mark in the word that makes `Unlock` wake.
- `one_holder`: at most one thread holds, and the word is free exactly when none does.
- `sleeper_has_waker`: where no thread can go on by itself and somebody sleeps, a holder has yet to call `Unlock`, and its
  exchange finds the mark that leads to a wake. No sleeper depends on its timeout.
Witnesses: `one_holder_twoThreads`, `sleeper_has_waker_twoThreads`.
-/
import Bboy.Core.Atomic
import Bboy.Core.Machine
import Bboy.Core.Waiters

namespace Bboy.SpinLock

open Core

/-! ## The word -/

abbrev Atomic32 := BitVec 32

def kSpinLockFree : Atomic32 := 0

def kSpinLockHeld : Atomic32 := 1

def kSpinLockSleeper : Atomic32 := 2

/-- `elapsed` is the difference of the cycle clock, shifted by `PROFILE_TIMESTAMP_SHIFT` and cut to 32 bits -/
def calculateWaitCycles (elapsed : Atomic32) : Atomic32 := elapsed ||| kSpinLockSleeper

/-- neither free nor merely held: an exchange that finds such a word is followed by a wake -/
def Marked (w : Atomic32) : Prop := w ≠ kSpinLockFree ∧ w ≠ kSpinLockHeld

theorem calculateWaitCycles_marked (elapsed : Atomic32) : Marked (calculateWaitCycles elapsed) := by
  have hbit : (calculateWaitCycles elapsed).getLsbD 1 = true := by
    simp [calculateWaitCycles, kSpinLockSleeper]
  constructor
  · intro h
    rw [h] at hbit
    exact absurd hbit (by decide)
  · intro h
    rw [h] at hbit
    exact absurd hbit (by decide)

theorem sleeper_marked : Marked kSpinLockSleeper := ⟨by decide, by decide⟩

/-! ## Threads -/

/-- where a thread is: in `SpinLoop` it is `spinning` with the count `c`, then `grabbing`; `w` is `wait_cycles` and `v` the
`lock_value` that it goes to sleep on -/
inductive Pc where
  | idle
  | locking
  | tryLocking
  | spinning (c : ℕ)
  | grabbing
  | marking (w : Atomic32)
  | retrying (w : Atomic32)
  | delaying (v : Atomic32)
  | asleep
  | holding
  | unlocking
  | waking
  deriving DecidableEq, Repr

/-- `adaptive_spin_count` is 1000 on a machine with more than one processor, else 0; without a futex the thread just sleeps,
for two milliseconds -/
structure Config where
  adaptive_spin_count : ℕ
  have_futex : Bool
  deriving DecidableEq, Repr

/-- the test of the loop of `SlowLock`, and the branch on `lock_value` behind it -/
def slowLock (lock_value wait_cycles : Atomic32) : Pc :=
  if lock_value = kSpinLockFree then .holding
  else if lock_value = kSpinLockHeld then .marking wait_cycles
  else .delaying lock_value

/-- the next access of a thread that is inside a call: the word and the thread afterwards -/
def advance (cfg : Config) (lockword elapsed : Atomic32) : Pc → Option (Atomic32 × Pc)
  | .locking =>
    let r := compareAndSwap lockword kSpinLockFree kSpinLockHeld
    some (r.2, if r.1 ≠ kSpinLockFree then .spinning cfg.adaptive_spin_count else .holding)
  | .tryLocking =>
    let r := compareAndSwap lockword kSpinLockFree kSpinLockHeld
    some (r.2, if r.1 = kSpinLockFree then .holding else .idle)
  | .spinning c => some (lockword, if lockword ≠ kSpinLockFree ∧ 1 < c then .spinning (c - 1) else .grabbing)
  | .grabbing =>
    let spin_loop_wait_cycles := calculateWaitCycles elapsed
    let r := compareAndSwap lockword kSpinLockFree spin_loop_wait_cycles
    some (r.2, slowLock r.1 spin_loop_wait_cycles)
  | .marking w =>
    let r := compareAndSwap lockword kSpinLockHeld kSpinLockSleeper
    some (r.2,
      if r.1 = kSpinLockHeld then .delaying kSpinLockSleeper
      else if r.1 = kSpinLockFree then .retrying w
      else .delaying r.1)
  | .retrying w =>
    let r := compareAndSwap lockword kSpinLockFree w
    some (r.2, slowLock r.1 w)
  -- FUTEX_WAIT falls asleep only on the value it was given
  | .delaying v =>
    some (lockword, if cfg.have_futex && lockword ≠ v then .spinning cfg.adaptive_spin_count else .asleep)
  | .unlocking => some (kSpinLockFree, if lockword ≠ kSpinLockHeld then .waking else .idle)
  -- without a futex there is nothing to wake
  | .waking => if cfg.have_futex then none else some (lockword, .idle)
  | .idle => none
  | .asleep => none
  | .holding => none

inductive Call where
  | lock
  | tryLock
  | unlock
  deriving DecidableEq, Repr

/-- a call begins where the brackets allow it -/
def Call.enter : Call → Pc → Option Pc
  | .lock, .idle => some .locking
  | .tryLock, .idle => some .tryLocking
  | .unlock, .holding => some .unlocking
  | _, _ => none

structure St where
  lockword : Atomic32
  threads : List Pc
  deriving DecidableEq, Repr

/-- `wake` is the `FUTEX_WAKE` of thread `i`, with the thread that the kernel chose; `timeout` is any return of a sleeper
that no wake caused -/
inductive Op where
  | begin (i : ℕ) (c : Call)
  | step (i : ℕ) (elapsed : Atomic32)
  | wake (i : ℕ) (target : Option ℕ)
  | timeout (i : ℕ)
  deriving DecidableEq, Repr

def isAsleep (pc : Pc) : Bool := pc = .asleep

def machine (cfg : Config) (n : ℕ) : Machine St Op where
  init := ⟨kSpinLockFree, List.replicate n .idle⟩
  step s
    | .begin i c => s.threads[i]?.bind fun pc => (c.enter pc).map fun pc' => { s with threads := s.threads.set i pc' }
    | .step i elapsed => s.threads[i]?.bind fun pc => (advance cfg s.lockword elapsed pc).map fun a =>
        ⟨a.1, s.threads.set i a.2⟩
    | .wake i target => s.threads[i]?.bind fun pc =>
        if pc = .waking ∧ cfg.have_futex then
          (wakeOne isAsleep (fun _ => .spinning cfg.adaptive_spin_count) (s.threads.set i .idle) target).map fun ts =>
            { s with threads := ts }
        else none
    | .timeout i => s.threads[i]?.bind fun pc =>
        if pc = .asleep then some { s with threads := s.threads.set i (.spinning cfg.adaptive_spin_count) } else none

/-! ## Holders, and threads on their way -/

/-- past the compare-and-swap that took the lock, and not past the exchange of `Unlock` -/
def Pc.holds : Pc → Bool
  | .holding | .unlocking => true
  | _ => false

/-- on its way to the lock, in `SlowLock`, or to a wake -/
def Pc.busy : Pc → Bool
  | .spinning _ | .grabbing | .marking _ | .retrying _ | .delaying _ | .waking => true
  | _ => false

/-- what a thread stores or sleeps on is marked -/
def Pc.Carries : Pc → Prop
  | .retrying w => Marked w
  | .marking w => Marked w
  | .delaying v => Marked v
  | _ => True

def holders (s : St) : ℕ := s.threads.countP Pc.holds

/-! ## Accesses -/

/-- what an access can do: nothing to the word, a mark, the lock taken or given back -/
inductive Advances (cfg : Config) (lockword : Atomic32) : Pc → Atomic32 → Pc → Prop
  | quiet {pc pc'} (hholds : pc'.holds = pc.holds) (hasleep : pc' ≠ .asleep)
    (hbusy : cfg.have_futex = true → pc.busy = true → pc'.busy = true) (hcarries : pc'.Carries) :
    Advances cfg lockword pc lockword pc'
  | marks {w} (hheld : lockword = kSpinLockHeld) :
    Advances cfg lockword (.marking w) kSpinLockSleeper (.delaying kSpinLockSleeper)
  | sleeps {v} (hword : cfg.have_futex = true → lockword = v) : Advances cfg lockword (.delaying v) lockword .asleep
  | takes {pc w} (hfree : lockword = kSpinLockFree) (hw : w ≠ kSpinLockFree) (hholds : pc.holds = false)
    (hbusy : pc.busy = true → Marked w) : Advances cfg lockword pc w .holding
  | gives {pc'} (hholds : pc'.holds = false) (hasleep : pc' ≠ .asleep) (hcarries : pc'.Carries)
    (hmarked : lockword ≠ kSpinLockHeld → pc'.busy = true) : Advances cfg lockword .unlocking kSpinLockFree pc'

variable {cfg : Config} {lockword elapsed lockword' : Atomic32} {pc pc' : Pc}

theorem held_ne_free : kSpinLockHeld ≠ kSpinLockFree := by decide +kernel

/-- the compare-and-swap on a free word, by a thread that stores its wait cycles -/
theorem slowLock_advances {w : Atomic32} (hw : Marked w) (hholds : pc.holds = false) :
    Advances cfg lockword pc (compareAndSwap lockword kSpinLockFree w).2 (slowLock lockword w) := by
  unfold slowLock
  split_ifs with hfree hheld
  · rw [compareAndSwap_won hfree]
    exact Advances.takes hfree hw.1 hholds fun _ => hw
  · rw [compareAndSwap_lost hfree]
    exact Advances.quiet hholds.symm (by simp) (fun _ _ => rfl) hw
  · rw [compareAndSwap_lost hfree]
    exact Advances.quiet hholds.symm (by simp) (fun _ _ => rfl) ⟨hfree, hheld⟩

/-- **What an access can do** to the word and to the thread. -/
theorem advance_cases (h : advance cfg lockword elapsed pc = some (lockword', pc')) (hc : pc.Carries) :
    Advances cfg lockword pc lockword' pc' := by
  cases pc with
  | idle => cases h
  | asleep => cases h
  | holding => cases h
  | locking =>
    cases h
    by_cases hfree : lockword = kSpinLockFree
    · rw [compareAndSwap_won hfree, compareAndSwap_found, if_neg (not_not_intro hfree)]
      exact Advances.takes hfree held_ne_free rfl nofun
    · rw [compareAndSwap_lost hfree, compareAndSwap_found, if_pos hfree]
      exact Advances.quiet rfl (by simp) (fun _ _ => rfl) trivial
  | tryLocking =>
    cases h
    by_cases hfree : lockword = kSpinLockFree
    · rw [compareAndSwap_won hfree, compareAndSwap_found, if_pos hfree]
      exact Advances.takes hfree held_ne_free rfl nofun
    · rw [compareAndSwap_lost hfree, compareAndSwap_found, if_neg hfree]
      exact Advances.quiet rfl (by simp) (fun _ => nofun) trivial
  | spinning c =>
    cases h
    split_ifs
    · exact Advances.quiet rfl (by simp) (fun _ _ => rfl) trivial
    · exact Advances.quiet rfl (by simp) (fun _ _ => rfl) trivial
  | grabbing =>
    cases h
    exact slowLock_advances (calculateWaitCycles_marked elapsed) rfl
  | marking w =>
    cases h
    by_cases hheld : lockword = kSpinLockHeld
    · rw [compareAndSwap_won hheld, compareAndSwap_found, if_pos hheld]
      exact Advances.marks hheld
    · rw [compareAndSwap_lost hheld, compareAndSwap_found, if_neg hheld]
      split_ifs with hfree
      · exact Advances.quiet rfl (by simp) (fun _ _ => rfl) hc
      · exact Advances.quiet rfl (by simp) (fun _ _ => rfl) ⟨hfree, hheld⟩
  | retrying w =>
    cases h
    exact slowLock_advances hc rfl
  | delaying v =>
    cases h
    split_ifs with hword
    · exact Advances.quiet rfl (by simp) (fun _ _ => rfl) trivial
    · exact Advances.sleeps fun hfutex => by simpa [hfutex] using hword
  | unlocking =>
    cases h
    split_ifs with hheld
    · exact Advances.gives rfl (by simp) trivial fun _ => rfl
    · exact Advances.gives rfl (by simp) trivial fun hne => absurd hne hheld
  | waking =>
    simp only [advance] at h
    split_ifs at h with hfutex
    cases h
    exact Advances.quiet rfl (by simp) (fun hf => absurd hf hfutex) trivial

/-! ## The invariant -/

structure Inv (cfg : Config) (s : St) : Prop where
  one : holders s ≤ 1
  free : s.lockword = kSpinLockFree ↔ holders s = 0
  carries : ∀ pc ∈ s.threads, pc.Carries
  woken : cfg.have_futex = true → .asleep ∈ s.threads → Marked s.lockword ∨ ∃ pc ∈ s.threads, pc.busy = true

variable {n : ℕ} {s t : St} {o : Op} {i : ℕ}

theorem holders_set (hpc : s.threads[i]? = some pc) (lockword' : Atomic32) (pc' : Pc) :
    holders ⟨lockword', s.threads.set i pc'⟩ + pc.holds.toNat = holders s + pc'.holds.toNat :=
  slot_countP_exchange hpc Pc.holds pc'

/-- a thread that is put to another place without falling asleep -/
theorem asleep_of_set (hasleep : pc' ≠ .asleep) (h : .asleep ∈ s.threads.set i pc') : .asleep ∈ s.threads :=
  (List.mem_or_eq_of_mem_set h).resolve_right hasleep.symm

theorem Inv.holds_unlocking (hi : Inv cfg s) (hpc : s.threads[i]? = some .unlocking) :
    holders s = 1 ∧ s.lockword ≠ kSpinLockFree := by
  have hpos : 0 < holders s := List.countP_pos_iff.2 ⟨_, List.mem_of_getElem? hpc, rfl⟩
  exact ⟨Nat.le_antisymm hi.one hpos, fun hfree => hpos.ne' (hi.free.1 hfree)⟩

/-- a thread that holds neither before nor after, and is busy afterwards if it was before -/
theorem replace_inv (hi : Inv cfg s) (hpc : s.threads[i]? = some pc) (hholds : pc'.holds = pc.holds)
    (hasleep : pc' ≠ .asleep) (hbusy : cfg.have_futex = true → pc.busy = true → pc'.busy = true)
    (hcarries : pc'.Carries) : Inv cfg ⟨s.lockword, s.threads.set i pc'⟩ := by
  have hholders : holders ⟨s.lockword, s.threads.set i pc'⟩ = holders s := by
    have hset := holders_set hpc s.lockword pc'
    rw [hholds] at hset
    omega
  refine ⟨hholders ▸ hi.one, hholders ▸ hi.free, forall_set hi.carries hcarries, fun hfutex hmem => ?_⟩
  rcases hi.woken hfutex (asleep_of_set hasleep hmem) with hm | hb
  · exact Or.inl hm
  · rcases @exists_set _ _ _ _ pc' _ hpc hb with hpc' | hb
    · exact Or.inr ⟨pc', mem_set_self hpc pc', hbusy hfutex hpc'⟩
    · exact Or.inr hb

theorem advances_inv (hi : Inv cfg s) (hpc : s.threads[i]? = some pc) (ha : Advances cfg s.lockword pc lockword' pc') :
    Inv cfg ⟨lockword', s.threads.set i pc'⟩ := by
  have hset := holders_set hpc lockword' pc'
  cases ha with
  | quiet hholds hasleep hbusy hcarries => exact replace_inv hi hpc hholds hasleep hbusy hcarries
  | marks hheld =>
    have hholders : holders ⟨kSpinLockSleeper, s.threads.set i (.delaying kSpinLockSleeper)⟩ = holders s := by
      simpa [Pc.holds] using hset
    have hpos : holders s ≠ 0 := fun h0 => held_ne_free (hheld ▸ hi.free.2 h0)
    exact ⟨hholders ▸ hi.one, by simp [hholders, hpos, sleeper_marked.1], forall_set hi.carries sleeper_marked,
      fun _ _ => Or.inl sleeper_marked⟩
  | sleeps hword =>
    have hholders : holders ⟨s.lockword, s.threads.set i .asleep⟩ = holders s := by simpa [Pc.holds] using hset
    refine ⟨hholders ▸ hi.one, hholders ▸ hi.free, forall_set hi.carries trivial, fun hfutex _ => Or.inl ?_⟩
    have hcarried := hi.carries _ (List.mem_of_getElem? hpc)
    exact hword hfutex ▸ hcarried
  | takes hfree hw hholds hbusy =>
    have h0 : holders s = 0 := hi.free.1 hfree
    have hholders : holders ⟨lockword', s.threads.set i .holding⟩ = 1 := by
      rw [hholds, h0] at hset
      simpa [Pc.holds] using hset
    refine ⟨hholders.le, by simp [hholders, hw], forall_set hi.carries trivial, fun hfutex hmem => ?_⟩
    -- a free word is not marked: somebody is on its way, and if it is this thread, it leaves a mark
    rcases hi.woken hfutex (asleep_of_set (by simp) hmem) with hm | hb
    · exact absurd hfree hm.1
    · exact (exists_set hpc hb).imp hbusy id
  | gives hholds hasleep hcarries hmarked =>
    obtain ⟨h1, hne⟩ := hi.holds_unlocking hpc
    have hholders : holders ⟨kSpinLockFree, s.threads.set i pc'⟩ = 0 := by
      rw [hholds, h1] at hset
      simpa [Pc.holds] using hset
    refine ⟨by omega, by simp [hholders], forall_set hi.carries hcarries, fun hfutex hmem => Or.inr ?_⟩
    rcases hi.woken hfutex (asleep_of_set hasleep hmem) with hm | hb
    · exact ⟨pc', mem_set_self hpc pc', hmarked hm.2⟩
    · exact (exists_set hpc hb).resolve_left nofun

/-- a wake leaves a busy thread if anybody slept -/
theorem wake_inv {target : Option ℕ} {ts : List Pc} (hi : Inv cfg s) (hpc : s.threads[i]? = some .waking)
    (hwake : wakeOne isAsleep (fun _ => .spinning cfg.adaptive_spin_count) (s.threads.set i .idle) target = some ts) :
    Inv cfg ⟨s.lockword, ts⟩ := by
  have hholders : holders ⟨s.lockword, ts⟩ = holders s := by
    have hset := holders_set hpc s.lockword .idle
    have hcount : ts.countP Pc.holds = (s.threads.set i .idle).countP Pc.holds :=
      wakeOne_countP (fun a ha => by simp [isAsleep] at ha; simp [ha, Pc.holds]) hwake
    exact hcount.trans (by simpa [holders, Pc.holds] using hset)
  refine ⟨hholders ▸ hi.one, hholders ▸ hi.free, ?_, fun _ hmem => Or.inr ?_⟩
  · have hidle : ∀ pc ∈ s.threads.set i .idle, pc.Carries := forall_set hi.carries trivial
    refine wakeOne_forall hidle (fun _ _ _ => ?_) hwake
    exact trivial
  · rcases wakeOne_cases hwake with ⟨j, a, hj, -, rfl⟩ | ⟨hnone, rfl⟩
    · exact ⟨_, mem_set_self hj _, rfl⟩
    · exact absurd (hnone _ hmem) (by simp [isAsleep])

theorem step_inv (hi : Inv cfg s) (h : (machine cfg n).step s o = some t) : Inv cfg t := by
  cases o with
  | begin i c =>
    obtain ⟨pc, hpc, hbegin⟩ := Option.bind_eq_some_iff.1 h
    obtain ⟨pc', henter, rfl⟩ := Option.map_eq_some_iff.1 hbegin
    cases c <;> cases pc <;> simp only [Call.enter, Option.some.injEq, reduceCtorEq] at henter <;> subst henter <;>
      exact replace_inv hi hpc rfl (by simp) (fun _ => nofun) trivial
  | step i elapsed =>
    obtain ⟨pc, hpc, hstep⟩ := Option.bind_eq_some_iff.1 h
    obtain ⟨⟨lockword', pc'⟩, hadvance, rfl⟩ := Option.map_eq_some_iff.1 hstep
    exact advances_inv hi hpc (advance_cases hadvance (hi.carries pc (List.mem_of_getElem? hpc)))
  | wake i target =>
    obtain ⟨pc, hpc, hwake⟩ := Option.bind_eq_some_iff.1 h
    split_ifs at hwake with hwaking
    obtain ⟨ts, hts, rfl⟩ := Option.map_eq_some_iff.1 hwake
    exact wake_inv hi (hwaking.1 ▸ hpc) hts
  | timeout i =>
    obtain ⟨pc, hpc, htimeout⟩ := Option.bind_eq_some_iff.1 h
    split_ifs at htimeout with hasleep
    cases htimeout
    subst hasleep
    exact replace_inv hi hpc rfl (by simp) (fun _ _ => rfl) trivial

theorem init_inv (cfg : Config) (n : ℕ) : Inv cfg (machine cfg n).init := by
  have hidle : ∀ pc ∈ (machine cfg n).init.threads, pc = .idle := fun pc hpc => List.eq_of_mem_replicate hpc
  have hholders : holders (machine cfg n).init = 0 :=
    List.countP_eq_zero.2 fun pc hpc => by simp [hidle pc hpc, Pc.holds]
  refine ⟨by omega, iff_of_true rfl hholders, fun pc hpc => ?_, fun _ hmem => absurd (hidle _ hmem) (by simp)⟩
  rw [hidle pc hpc]
  exact trivial

theorem run_inv {ops : List Op} (h : (machine cfg n).run (machine cfg n).init ops = some s) : Inv cfg s :=
  Machine.run_inv (fun _ _ _ hi hst => step_inv hi hst) (init_inv cfg n) h

/-! ## Results -/

/-- **At most one thread holds the lock** in every state of every run, with or without a futex, and the word is free exactly
when none does. -/
theorem one_holder {ops : List Op} (h : (machine cfg n).run (machine cfg n).init ops = some s) :
    holders s ≤ 1 ∧ (s.lockword = kSpinLockFree ↔ holders s = 0) :=
  ⟨(run_inv h).one, (run_inv h).free⟩

theorem advance_busy (hbusy : pc.busy = true) (hwaking : pc ≠ .waking) :
    ∃ a, advance cfg lockword elapsed pc = some a := by
  cases pc <;> first | exact absurd rfl hwaking | exact ⟨_, rfl⟩ | cases hbusy

/-- a thread that is not blocked goes on by itself -/
theorem enabled_of_busy (hpc : s.threads[i]? = some pc) (hbusy : pc.busy = true) :
    (∃ elapsed, (machine cfg n).step s (.step i elapsed) ≠ none) ∨
      ∃ target, (machine cfg n).step s (.wake i target) ≠ none := by
  by_cases hwaking : pc = .waking
  · subst hwaking
    cases hfutex : cfg.have_futex with
    | false =>
      left
      exact ⟨0, by simp [machine, hpc, advance, hfutex]⟩
    | true =>
      right
      by_cases hany : ∃ j : ℕ, (s.threads.set i .idle)[j]? = some Pc.asleep
      · obtain ⟨j, hj⟩ := hany
        exact ⟨some j, by simp [machine, hpc, hfutex, wakeOne, hj, isAsleep]⟩
      · refine ⟨none, ?_⟩
        have hnone : ∀ a ∈ s.threads.set i .idle, isAsleep a = false := by
          intro a ha
          obtain ⟨j, hj⟩ := List.mem_iff_getElem?.1 ha
          by_contra hne
          have hasleep : a = .asleep := by simpa [isAsleep] using hne
          exact hany ⟨j, hasleep ▸ hj⟩
        simp [machine, hpc, hfutex, wakeOne_none hnone]
  · left
    obtain ⟨a, ha⟩ := @advance_busy cfg s.lockword 0 pc hbusy hwaking
    refine ⟨0, ?_⟩
    show (s.threads[i]?.bind fun pc => (advance cfg s.lockword 0 pc).map _) ≠ none
    rw [hpc, Option.bind_some, ha]
    exact Option.some_ne_none _

/-- no thread can go on by itself: what is left are new calls, and sleepers that return without a wake -/
def Quiescent (cfg : Config) (n : ℕ) (s : St) : Prop :=
  ∀ i, (∀ elapsed, (machine cfg n).step s (.step i elapsed) = none) ∧
    ∀ target, (machine cfg n).step s (.wake i target) = none

/-- **No sleeper is forgotten.** Where no thread can go on by itself and somebody sleeps, one thread holds the lock between
its calls, and the exchange of its `Unlock` finds a mark and leads it to a wake. -/
theorem sleeper_has_waker (hfutex : cfg.have_futex = true) {ops : List Op}
    (h : (machine cfg n).run (machine cfg n).init ops = some s) (hquiet : Quiescent cfg n s)
    (hasleep : Pc.asleep ∈ s.threads) :
    (∃ i : ℕ, s.threads[i]? = some Pc.holding) ∧
      ∀ elapsed, advance cfg s.lockword elapsed .unlocking = some (kSpinLockFree, .waking) := by
  have hi := run_inv h
  have hmarked : Marked s.lockword := by
    refine (hi.woken hfutex hasleep).resolve_right ?_
    rintro ⟨pc, hpc, hbusy⟩
    obtain ⟨i, hi⟩ := List.mem_iff_getElem?.1 hpc
    have henabled : (∃ elapsed, (machine cfg n).step s (.step i elapsed) ≠ none) ∨
        ∃ target, (machine cfg n).step s (.wake i target) ≠ none := enabled_of_busy hi hbusy
    rcases henabled with ⟨elapsed, he⟩ | ⟨target, he⟩
    · exact he ((hquiet i).1 elapsed)
    · exact he ((hquiet i).2 target)
  refine ⟨?_, fun elapsed => by simp [advance, hmarked.2]⟩
  have hpos : 0 < holders s := Nat.pos_of_ne_zero fun h0 => hmarked.1 (hi.free.2 h0)
  obtain ⟨pc, hpc, hholds⟩ := List.countP_pos_iff.1 hpos
  obtain ⟨i, hpci⟩ := List.mem_iff_getElem?.1 hpc
  cases pc with
  | holding => exact ⟨i, hpci⟩
  | unlocking =>
    have hblocked := (hquiet i).1 0
    simp [machine, hpci, advance] at hblocked
  | _ => cases hholds

/-! ### Witnesses -/

def oneCpu : Config := ⟨0, true⟩

/-- thread 1 takes the lock, thread 0 marks it and falls asleep -/
def sleeperOps : List Op :=
  [.begin 1 .lock, .step 1 0, .begin 0 .lock, .step 0 0, .step 0 0, .step 0 5, .step 0 0, .step 0 0]

def sleeperState : St := ⟨kSpinLockSleeper, [.asleep, .holding]⟩

theorem sleeper_run : (machine oneCpu 2).run (machine oneCpu 2).init sleeperOps = some sleeperState := by
  decide +kernel

theorem one_holder_twoThreads :
    holders sleeperState ≤ 1 ∧ (sleeperState.lockword = kSpinLockFree ↔ holders sleeperState = 0) :=
  one_holder sleeper_run

theorem sleeper_quiescent : Quiescent oneCpu 2 sleeperState := by
  intro i
  match i with
  | 0 => exact ⟨fun _ => rfl, fun _ => rfl⟩
  | 1 => exact ⟨fun _ => rfl, fun _ => rfl⟩
  | _ + 2 => exact ⟨fun _ => rfl, fun _ => rfl⟩

theorem sleeper_has_waker_twoThreads :
    (∃ i : ℕ, sleeperState.threads[i]? = some Pc.holding) ∧
      ∀ elapsed, advance oneCpu sleeperState.lockword elapsed .unlocking = some (kSpinLockFree, .waking) :=
  sleeper_has_waker rfl sleeper_run sleeper_quiescent (by decide +kernel)

end Bboy.SpinLock
