/-
Lean model of `RWCLock` (`bboy/base/sync/rwc_lock.h`, `rwc_lock.cc`): three modes, one mutex and two condition variables.

A step of a thread is a critical section, from the mutex to where it gives the mutex up. `UpgradeToCommitLock` returns with
the mutex held, and until `CommitUnlock` nobody else takes a step. A thread that was notified, or that wakes by itself, runs
the next round of its loop.

- `enter_cases`: what a critical section can do.
- `ModeInv`: the counts of the threads in each mode.
- `SleepInv`: a sleeper on `no_mutators_` has a notified one beside it when the write lock is free; nobody sleeps on
  `no_readers_` when there is no reader.
- `compatibility`: one thread at most in write or commit mode; beside a thread in commit mode nobody is, or gets, in any
  mode; `reader_count_` is the number of readers; no `DCHECK` fails; in a quiescent state who sleeps has a reason to.
Witness: `compatibility_threeThreads`.
-/
import Bboy.Core.Machine
import Bboy.Core.Waiters

namespace Bboy.RWCLock

open Core

/-! ## The lock -/

structure Lock where
  readerCount : ℤ
  writeLocked : Bool
  deriving DecidableEq, Repr

/-- where a thread is; `writeAsleep` is in `no_mutators_.Wait()` and `upgradeAsleep` in `no_readers_.Wait()` -/
inductive Pc where
  | idle
  | readLock
  | reading
  | readUnlock
  | writeLock
  | writeAsleep (notified : Bool)
  | writing
  | writeUnlock
  | upgrade
  | upgradeAsleep (notified : Bool)
  | committing
  | commitUnlock
  deriving DecidableEq, Repr

inductive Notify where
  | none
  | signalNoReaders
  | signalNoMutators
  | broadcastNoMutators
  deriving DecidableEq, Repr

/-- a critical section's end; `ok` says whether its `DCHECK`s held -/
structure Outcome where
  lock : Lock
  pc : Pc
  notify : Notify
  ok : Bool
  deriving DecidableEq, Repr

/-- the round of the loop of `WriteLock` -/
def writeRound (l : Lock) : Outcome :=
  if l.writeLocked then ⟨l, .writeAsleep false, .none, true⟩ else ⟨{ l with writeLocked := true }, .writing, .none, true⟩

/-- the round of the loop of `UpgradeToCommitLock` -/
def upgradeRound (l : Lock) (ok : Bool) : Outcome :=
  if 0 < l.readerCount then ⟨l, .upgradeAsleep false, .none, ok⟩ else ⟨l, .committing, .none, ok && l.writeLocked⟩

/-- the critical section that a thread runs next -/
def enter (l : Lock) : Pc → Option Outcome
  | .readLock => some ⟨{ l with readerCount := l.readerCount + 1 }, .reading, .none, true⟩
  | .readUnlock =>
    let readerCount := l.readerCount - 1
    some ⟨{ l with readerCount := readerCount }, .idle, if readerCount = 0 then .signalNoReaders else .none,
      0 < l.readerCount⟩
  | .writeLock => some (writeRound l)
  | .writeAsleep true => some (writeRound l)
  | .writeUnlock => some ⟨{ l with writeLocked := false }, .idle, .signalNoMutators, l.writeLocked⟩
  | .upgrade => some (upgradeRound l l.writeLocked)
  | .upgradeAsleep true => some (upgradeRound l true)
  | .commitUnlock => some ⟨{ l with writeLocked := false }, .idle, .broadcastNoMutators, l.readerCount = 0⟩
  | _ => none

/-! ## The machine -/

inductive Call where
  | readLock
  | readUnlock
  | writeLock
  | writeUnlock
  | upgradeToCommitLock
  | commitUnlock
  deriving DecidableEq, Repr

/-- a call begins where the brackets allow it -/
def Call.begin : Call → Pc → Option Pc
  | .readLock, .idle => some .readLock
  | .readUnlock, .reading => some .readUnlock
  | .writeLock, .idle => some .writeLock
  | .writeUnlock, .writing => some .writeUnlock
  | .upgradeToCommitLock, .writing => some .upgrade
  | .commitUnlock, .committing => some .commitUnlock
  | _, _ => none

def Pc.waitsMutators (pc : Pc) : Bool := pc = .writeAsleep false

def Pc.wokenMutators (pc : Pc) : Bool := pc = .writeAsleep true

def Pc.waitsReaders (pc : Pc) : Bool := pc = .upgradeAsleep false

def Pc.wake : Pc → Pc
  | .writeAsleep _ => .writeAsleep true
  | .upgradeAsleep _ => .upgradeAsleep true
  | pc => pc

/-- `locked`: the mutex is held between the steps -/
structure St where
  lock : Lock
  locked : Bool
  threads : List Pc
  checkFailed : Bool
  deriving DecidableEq, Repr

/-- `target` is the sleeper that a signal wakes; `spurious` wakes one without a signal -/
inductive Op where
  | begin (i : ℕ) (c : Call)
  | run (i : ℕ) (target : Option ℕ)
  | spurious (i : ℕ)
  deriving DecidableEq, Repr

def notifyThreads (threads : List Pc) (target : Option ℕ) : Notify → Option (List Pc)
  | .none => some threads
  | .signalNoReaders => wakeOne Pc.waitsReaders Pc.wake threads target
  | .signalNoMutators => wakeOne Pc.waitsMutators Pc.wake threads target
  | .broadcastNoMutators => some (wakeAll Pc.waitsMutators Pc.wake threads)

/-- `CommitUnlock` has the mutex already, all others take it -/
def runThread (s : St) (i : ℕ) (target : Option ℕ) (pc : Pc) : Option St :=
  if s.locked ∧ pc ≠ .commitUnlock then none
  else (enter s.lock pc).bind fun out => (notifyThreads (s.threads.set i out.pc) target out.notify).map fun threads =>
    ⟨out.lock, out.pc = .committing, threads, s.checkFailed || !out.ok⟩

def spuriousWakeup (s : St) (i : ℕ) (pc : Pc) : Option St :=
  if pc.waitsMutators ∨ pc.waitsReaders then some { s with threads := s.threads.set i pc.wake } else none

def machine (n : ℕ) : Machine St Op where
  init := ⟨⟨0, false⟩, false, List.replicate n .idle, false⟩
  step s
    | .begin i c => s.threads[i]?.bind fun pc => (c.begin pc).map fun pc' => { s with threads := s.threads.set i pc' }
    | .run i target => s.threads[i]?.bind (runThread s i target)
    | .spurious i => s.threads[i]?.bind (spuriousWakeup s i)

/-! ## Modes -/

/-- counted in `reader_count_` -/
def Pc.isReader : Pc → Bool
  | .reading | .readUnlock => true
  | _ => false

/-- in write or commit mode, also while it upgrades -/
def Pc.isMutator : Pc → Bool
  | .writing | .writeUnlock | .upgrade | .upgradeAsleep _ | .committing | .commitUnlock => true
  | _ => false

/-- in commit mode -/
def Pc.isCommitter : Pc → Bool
  | .committing | .commitUnlock => true
  | _ => false

def count (p : Pc → Bool) (s : St) : ℕ := s.threads.countP p

/-- the counts of the threads in each mode -/
structure ModeInv (s : St) : Prop where
  readers : s.lock.readerCount = count Pc.isReader s
  mutators : count Pc.isMutator s = s.lock.writeLocked.toNat
  committers : count Pc.isCommitter s = s.locked.toNat
  commit : s.locked = true → s.lock.readerCount = 0
  checked : s.checkFailed = false

/-- a sleeper waits for something that is still to come, or another one is notified -/
structure SleepInv (l : Lock) (threads : List Pc) : Prop where
  noMutators : l.writeLocked = false → 0 < threads.countP Pc.waitsMutators → 0 < threads.countP Pc.wokenMutators
  noReaders : l.readerCount = 0 → threads.countP Pc.waitsReaders = 0

/-! ## Critical sections -/

/-- what a critical section can do -/
inductive Enters (l : Lock) : Pc → Outcome → Prop
  | readIn : Enters l .readLock ⟨{ l with readerCount := l.readerCount + 1 }, .reading, .none, true⟩
  | readOut : Enters l .readUnlock ⟨{ l with readerCount := l.readerCount - 1 }, .idle,
      if l.readerCount - 1 = 0 then .signalNoReaders else .none, 0 < l.readerCount⟩
  | writeSleeps {pc} (hpc : pc = .writeLock ∨ pc = .writeAsleep true) (hlocked : l.writeLocked = true) :
    Enters l pc ⟨l, .writeAsleep false, .none, true⟩
  | writeIn {pc} (hpc : pc = .writeLock ∨ pc = .writeAsleep true) (hfree : l.writeLocked = false) :
    Enters l pc ⟨{ l with writeLocked := true }, .writing, .none, true⟩
  | writeOut : Enters l .writeUnlock ⟨{ l with writeLocked := false }, .idle, .signalNoMutators, l.writeLocked⟩
  | upgradeSleeps {pc ok} (hpc : pc = .upgrade ∨ pc = .upgradeAsleep true) (hreaders : 0 < l.readerCount)
    (hok : l.writeLocked = true → ok = true) : Enters l pc ⟨l, .upgradeAsleep false, .none, ok⟩
  | upgradeIn {pc ok} (hpc : pc = .upgrade ∨ pc = .upgradeAsleep true) (hnone : ¬ 0 < l.readerCount)
    (hok : l.writeLocked = true → ok = true) : Enters l pc ⟨l, .committing, .none, ok⟩
  | commitOut : Enters l .commitUnlock ⟨{ l with writeLocked := false }, .idle, .broadcastNoMutators, l.readerCount = 0⟩

variable {l : Lock} {pc pc' : Pc} {out : Outcome} {s t : St} {o : Op} {i j : ℕ} {target : Option ℕ} {threads threads' : List Pc}

theorem writeRound_cases (hpc : pc = .writeLock ∨ pc = .writeAsleep true) : Enters l pc (writeRound l) := by
  unfold writeRound
  by_cases hlocked : l.writeLocked = true
  · rw [if_pos hlocked]
    exact Enters.writeSleeps hpc hlocked
  · rw [if_neg hlocked]
    exact Enters.writeIn hpc (Bool.eq_false_iff.2 hlocked)

theorem upgradeRound_cases {ok : Bool} (hpc : pc = .upgrade ∨ pc = .upgradeAsleep true)
    (hok : l.writeLocked = true → ok = true) : Enters l pc (upgradeRound l ok) := by
  unfold upgradeRound
  by_cases hreaders : 0 < l.readerCount
  · rw [if_pos hreaders]
    exact Enters.upgradeSleeps hpc hreaders hok
  · rw [if_neg hreaders]
    exact Enters.upgradeIn hpc hreaders fun h => by rw [hok h, h]; rfl

/-- **What a critical section can do.** -/
theorem enter_cases (h : enter l pc = some out) : Enters l pc out := by
  cases pc with
  | readLock =>
    cases h
    exact Enters.readIn
  | readUnlock =>
    cases h
    exact Enters.readOut
  | writeLock =>
    cases h
    exact writeRound_cases (Or.inl rfl)
  | writeAsleep notified =>
    cases notified <;> cases h
    exact writeRound_cases (Or.inr rfl)
  | writeUnlock =>
    cases h
    exact Enters.writeOut
  | upgrade =>
    cases h
    exact upgradeRound_cases (Or.inl rfl) id
  | upgradeAsleep notified =>
    cases notified <;> cases h
    exact upgradeRound_cases (Or.inr rfl) fun _ => rfl
  | commitUnlock =>
    cases h
    exact Enters.commitOut
  | _ => cases h

theorem run_cases (h : runThread s i target pc = some t) :
    (s.locked = true → pc = .commitUnlock) ∧ ∃ out threads, Enters s.lock pc out ∧
      notifyThreads (s.threads.set i out.pc) target out.notify = some threads ∧
      t = ⟨out.lock, out.pc = .committing, threads, s.checkFailed || !out.ok⟩ := by
  unfold runThread at h
  split_ifs at h with hheld
  obtain ⟨out, henter, hmap⟩ := Option.bind_eq_some_iff.1 h
  obtain ⟨threads, hnotify, rfl⟩ := Option.map_eq_some_iff.1 hmap
  refine ⟨fun hlocked => ?_, out, threads, enter_cases henter, hnotify, rfl⟩
  by_contra hpc
  exact hheld ⟨hlocked, hpc⟩

/-! ## Wakeups -/

theorem waitsMutators_iff : pc.waitsMutators = true ↔ pc = .writeAsleep false := decide_eq_true_iff

theorem waitsReaders_iff : pc.waitsReaders = true ↔ pc = .upgradeAsleep false := decide_eq_true_iff

/-- a count that no waking concerns -/
theorem notify_count {p : Pc → Bool} {n : Notify} (hp : ∀ pc : Pc, p pc.wake = p pc)
    (h : notifyThreads threads target n = some threads') : threads'.countP p = threads.countP p := by
  cases n with
  | none =>
    cases h
    rfl
  | signalNoReaders => exact wakeOne_countP (fun pc _ => hp pc) h
  | signalNoMutators => exact wakeOne_countP (fun pc _ => hp pc) h
  | broadcastNoMutators =>
    cases h
    exact wakeAll_countP fun pc _ => hp pc

theorem isReader_wake (pc : Pc) : pc.wake.isReader = pc.isReader := by
  cases pc <;> rfl

theorem isMutator_wake (pc : Pc) : pc.wake.isMutator = pc.isMutator := by
  cases pc <;> rfl

theorem isCommitter_wake (pc : Pc) : pc.wake.isCommitter = pc.isCommitter := by
  cases pc <;> rfl

/-- the signal of the last reader wakes the upgrader, if it sleeps -/
theorem signalNoReaders_sleepers (h : wakeOne Pc.waitsReaders Pc.wake threads target = some threads') :
    threads'.countP Pc.waitsMutators = threads.countP Pc.waitsMutators ∧
      threads'.countP Pc.wokenMutators = threads.countP Pc.wokenMutators ∧
      threads'.countP Pc.waitsReaders = threads.countP Pc.waitsReaders - 1 := by
  refine ⟨wakeOne_countP (fun pc hpc => ?_) h, wakeOne_countP (fun pc hpc => ?_) h, ?_⟩
  · rw [waitsReaders_iff.1 hpc]
    rfl
  · rw [waitsReaders_iff.1 hpc]
    rfl
  · have hwake := wakeOne_waiters (p := Pc.waitsReaders) (q := fun pc => pc = .upgradeAsleep true)
      (fun pc hpc => by rw [waitsReaders_iff.1 hpc]; rfl) (fun pc hpc => by rw [waitsReaders_iff.1 hpc]; rfl)
      (fun pc hpc => by rw [waitsReaders_iff.1 hpc]; rfl) h
    rcases hwake with ⟨hnone, rfl⟩ | ⟨hone, -⟩
    · rw [hnone]
    · rw [hone, Nat.add_sub_cancel]

/-- the signal of a writer wakes another one, if one sleeps -/
theorem signalNoMutators_sleepers (h : wakeOne Pc.waitsMutators Pc.wake threads target = some threads') :
    threads'.countP Pc.waitsReaders = threads.countP Pc.waitsReaders ∧
      (threads'.countP Pc.waitsMutators = 0 ∨ 0 < threads'.countP Pc.wokenMutators) := by
  refine ⟨wakeOne_countP (fun pc hpc => ?_) h, ?_⟩
  · rw [waitsMutators_iff.1 hpc]
    rfl
  · have hwake := wakeOne_waiters (p := Pc.waitsMutators) (q := Pc.wokenMutators)
      (fun pc hpc => by rw [waitsMutators_iff.1 hpc]; rfl) (fun pc hpc => by rw [waitsMutators_iff.1 hpc]; rfl)
      (fun pc hpc => by rw [waitsMutators_iff.1 hpc]; rfl) h
    rcases hwake with ⟨hnone, rfl⟩ | ⟨-, hwoken⟩
    · exact Or.inl hnone
    · exact Or.inr (hwoken ▸ Nat.succ_pos _)

/-- the broadcast of `CommitUnlock` leaves no sleeping writer -/
theorem broadcastNoMutators_sleepers (threads : List Pc) :
    (wakeAll Pc.waitsMutators Pc.wake threads).countP Pc.waitsReaders = threads.countP Pc.waitsReaders ∧
      (wakeAll Pc.waitsMutators Pc.wake threads).countP Pc.waitsMutators = 0 := by
  refine ⟨wakeAll_countP fun pc hpc => ?_, List.countP_eq_zero.2 fun pc hpc => ?_⟩
  · rw [waitsMutators_iff.1 hpc]
    rfl
  · have hgone : ∀ pc : Pc, pc.waitsMutators = true → pc.wake.waitsMutators = false := by
      intro pc hwait
      rw [waitsMutators_iff.1 hwait]
      rfl
    simpa using wakeAll_waiters hgone pc hpc

/-! ## The invariant -/

/-- the modes after a critical section -/
theorem modes_after (hpc : s.threads[i]? = some pc) {n : Notify}
    (h : notifyThreads (s.threads.set i pc') target n = some threads) {p : Pc → Bool} (hp : ∀ pc : Pc, p pc.wake = p pc) :
    threads.countP p + (p pc).toNat = count p s + (p pc').toNat := by
  rw [notify_count hp h]
  exact slot_countP_exchange hpc p pc'

theorem ModeInv.locked_of_committer (hi : ModeInv s) (hpc : s.threads[i]? = some pc) (hc : pc.isCommitter = true) :
    s.locked = true := by
  have hpos : 0 < count Pc.isCommitter s := List.countP_pos_iff.2 ⟨pc, List.mem_of_getElem? hpc, hc⟩
  by_contra hopen
  rw [hi.committers, Bool.eq_false_iff.2 hopen] at hpos
  exact absurd hpos (lt_irrefl 0)

theorem ModeInv.writeLocked_of_mutator (hi : ModeInv s) (hpc : s.threads[i]? = some pc) (hm : pc.isMutator = true) :
    s.lock.writeLocked = true := by
  have hpos : 0 < count Pc.isMutator s := List.countP_pos_iff.2 ⟨pc, List.mem_of_getElem? hpc, hm⟩
  by_contra hopen
  rw [hi.mutators, Bool.eq_false_iff.2 hopen] at hpos
  exact absurd hpos (lt_irrefl 0)

theorem run_modes (hi : ModeInv s) (hpc : s.threads[i]? = some pc) (h : runThread s i target pc = some t) : ModeInv t := by
  obtain ⟨hlocked, out, threads, henter, hnotify, rfl⟩ := run_cases h
  have hr := modes_after hpc hnotify isReader_wake
  have hm := modes_after hpc hnotify isMutator_wake
  have hc := modes_after hpc hnotify isCommitter_wake
  have hreader : pc.isReader = true → 0 < count Pc.isReader s :=
    fun h => List.countP_pos_iff.2 ⟨pc, List.mem_of_getElem? hpc, h⟩
  have hlock := hi.writeLocked_of_mutator hpc
  have hheld := hi.locked_of_committer hpc
  have hfree : pc ≠ .commitUnlock → s.locked = false := fun hne => Bool.eq_false_iff.2 fun hheld => hne (hlocked hheld)
  obtain ⟨hreaders, hmutators, hcommitters, hcommit, hchecked⟩ := hi
  cases henter with
  | readIn =>
    rw [hfree (by simp)] at hcommitters
    simp [Pc.isReader, Pc.isMutator, Pc.isCommitter] at hr hm hc
    refine ⟨?_, hm.trans hmutators, hc.trans hcommitters, fun h => Bool.noConfusion h, by simp [hchecked]⟩
    show s.lock.readerCount + 1 = (threads.countP Pc.isReader : ℕ)
    omega
  | readOut =>
    rw [hfree (by simp)] at hcommitters
    have hpos := hreader rfl
    have hcount : 0 < s.lock.readerCount := by omega
    simp [Pc.isReader, Pc.isMutator, Pc.isCommitter] at hr hm hc
    refine ⟨?_, hm.trans hmutators, hc.trans hcommitters, fun h => Bool.noConfusion h, by simp [hchecked, hcount]⟩
    show s.lock.readerCount - 1 = (threads.countP Pc.isReader : ℕ)
    omega
  | writeSleeps hpc' hbusy =>
    rw [hfree (by rcases hpc' with rfl | rfl <;> simp)] at hcommitters
    rcases hpc' with rfl | rfl <;> simp [Pc.isReader, Pc.isMutator, Pc.isCommitter] at hr hm hc <;>
      exact ⟨hreaders.trans (congrArg _ hr.symm), hm.trans hmutators, hc.trans hcommitters, fun h => Bool.noConfusion h,
        by simp [hchecked]⟩
  | writeIn hpc' hopen =>
    rw [hfree (by rcases hpc' with rfl | rfl <;> simp)] at hcommitters
    rw [hopen] at hmutators
    rcases hpc' with rfl | rfl <;> simp [Pc.isReader, Pc.isMutator, Pc.isCommitter, hmutators] at hr hm hc <;>
      exact ⟨hreaders.trans (congrArg _ hr.symm), hm, hc.trans hcommitters, fun h => Bool.noConfusion h, by simp [hchecked]⟩
  | writeOut =>
    rw [hfree (by simp)] at hcommitters
    have hwrite := hlock rfl
    rw [hwrite] at hmutators
    have hm : threads.countP Pc.isMutator + 1 = count Pc.isMutator s := hm
    exact ⟨hreaders.trans (congrArg _ hr.symm), Nat.succ_injective (hm.trans hmutators), hc.trans hcommitters,
      fun h => Bool.noConfusion h, by simp [hchecked, hwrite]⟩
  | upgradeSleeps hpc' hbusy hok =>
    rw [hfree (by rcases hpc' with rfl | rfl <;> simp)] at hcommitters
    have hwrite := hlock (by rcases hpc' with rfl | rfl <;> rfl)
    rcases hpc' with rfl | rfl <;> simp [Pc.isReader, Pc.isMutator, Pc.isCommitter] at hr hm hc <;>
      exact ⟨hreaders.trans (congrArg _ hr.symm), hm.trans hmutators, hc.trans hcommitters, fun h => Bool.noConfusion h,
        by simp [hchecked, hok hwrite]⟩
  | upgradeIn hpc' hnone hok =>
    rw [hfree (by rcases hpc' with rfl | rfl <;> simp)] at hcommitters
    have hwrite := hlock (by rcases hpc' with rfl | rfl <;> rfl)
    have hzero : s.lock.readerCount = 0 := by omega
    rcases hpc' with rfl | rfl <;> simp [Pc.isReader, Pc.isMutator, Pc.isCommitter, hcommitters] at hr hm hc <;>
      exact ⟨hreaders.trans (congrArg _ hr.symm), hm.trans hmutators, hc, fun _ => hzero, by simp [hchecked, hok hwrite]⟩
  | commitOut =>
    have hwrite := hlock rfl
    have hheld := hheld rfl
    rw [hwrite] at hmutators
    have hm : threads.countP Pc.isMutator + 1 = count Pc.isMutator s := hm
    have hc : threads.countP Pc.isCommitter + 1 = count Pc.isCommitter s := hc
    have hzero := hcommit hheld
    rw [hheld] at hcommitters
    exact ⟨hreaders.trans (congrArg _ hr.symm), Nat.succ_injective (hm.trans hmutators),
      Nat.succ_injective (hc.trans hcommitters), fun h => Bool.noConfusion h, by simp [hchecked, hzero]⟩

/-- a count that does not see the change of a thread -/
theorem set_count (p : Pc → Bool) (pc' : Pc) (hpc : threads[i]? = some pc) (hp : p pc' = p pc) :
    (threads.set i pc').countP p = threads.countP p := by
  have hexchange := slot_countP_exchange hpc p pc'
  rw [hp] at hexchange
  exact Nat.add_right_cancel hexchange

/-- at most one thread sleeps on `no_readers_` -/
theorem ModeInv.one_upgrader (hi : ModeInv s) : s.threads.countP Pc.waitsReaders ≤ 1 := by
  calc s.threads.countP Pc.waitsReaders ≤ count Pc.isMutator s :=
        List.countP_mono_left fun pc _ hpc => by rw [waitsReaders_iff.1 hpc]; rfl
    _ = s.lock.writeLocked.toNat := hi.mutators
    _ ≤ 1 := Bool.toNat_le _

/-- the sleepers stay as they are, and nothing that they wait for comes -/
theorem SleepInv.frame {l' : Lock} (hi : SleepInv l threads) (hopen : l'.writeLocked = false → l.writeLocked = false)
    (hzero : l'.readerCount = 0 → l.readerCount = 0)
    (hwaits : threads'.countP Pc.waitsMutators = threads.countP Pc.waitsMutators)
    (hwoken : threads'.countP Pc.wokenMutators = threads.countP Pc.wokenMutators)
    (hreaders : threads'.countP Pc.waitsReaders = threads.countP Pc.waitsReaders) : SleepInv l' threads' := by
  refine ⟨fun h hpos => ?_, fun h => ?_⟩
  · rw [hwoken]
    rw [hwaits] at hpos
    exact hi.noMutators (hopen h) hpos
  · rw [hreaders]
    exact hi.noReaders (hzero h)

/-- what a critical section does to the sleepers -/
theorem enters_sleepers (hm : ModeInv s) (hi : SleepInv s.lock s.threads) (hpc : s.threads[i]? = some pc)
    (henter : Enters s.lock pc out) (hnotify : notifyThreads (s.threads.set i out.pc) target out.notify = some threads) :
    SleepInv out.lock threads := by
  have hset := fun (p : Pc → Bool) pc' => set_count p pc' hpc
  cases henter with
  | readIn =>
    cases hnotify
    have hreaders := hm.readers
    exact hi.frame id (fun hzero => by dsimp only at hzero; omega) (hset _ _ rfl) (hset _ _ rfl) (hset _ _ rfl)
  | readOut =>
    by_cases hlast : s.lock.readerCount - 1 = 0
    · -- the last reader wakes the one upgrader
      simp only [hlast, if_true] at hnotify
      obtain ⟨hwaits, hwoken, hgone⟩ := signalNoReaders_sleepers hnotify
      have hone := hm.one_upgrader
      rw [hset _ .idle rfl] at hwaits hwoken hgone
      refine ⟨fun hopen hpos => ?_, fun _ => by omega⟩
      rw [hwoken]
      rw [hwaits] at hpos
      exact hi.noMutators hopen hpos
    · simp only [hlast, if_false] at hnotify
      cases hnotify
      exact hi.frame id (fun hzero => absurd hzero hlast) (hset _ _ rfl) (hset _ _ rfl) (hset _ _ rfl)
  | writeSleeps hpc' hbusy =>
    cases hnotify
    have hsame := hset Pc.waitsReaders (.writeAsleep false) (by rcases hpc' with rfl | rfl <;> rfl)
    exact ⟨fun hopen => absurd hopen (by simp [hbusy]), fun hzero => hsame.trans (hi.noReaders hzero)⟩
  | writeIn hpc' hopen =>
    cases hnotify
    have hsame := hset Pc.waitsReaders .writing (by rcases hpc' with rfl | rfl <;> rfl)
    exact ⟨fun h => Bool.noConfusion h, fun hzero => hsame.trans (hi.noReaders hzero)⟩
  | writeOut =>
    obtain ⟨hreaders, hwake⟩ := signalNoMutators_sleepers hnotify
    have hreaders := hreaders.trans (hset Pc.waitsReaders .idle rfl)
    refine ⟨fun _ hpos => ?_, fun hzero => hreaders.trans (hi.noReaders hzero)⟩
    exact hwake.resolve_left hpos.ne'
  | upgradeSleeps hpc' hbusy hok =>
    cases hnotify
    have hwaits := hset Pc.waitsMutators (.upgradeAsleep false) (by rcases hpc' with rfl | rfl <;> rfl)
    have hwoken := hset Pc.wokenMutators (.upgradeAsleep false) (by rcases hpc' with rfl | rfl <;> rfl)
    refine ⟨fun hopen hpos => ?_, fun hzero => absurd hbusy (by dsimp only at hzero; omega)⟩
    rw [hwoken]
    rw [hwaits] at hpos
    exact hi.noMutators hopen hpos
  | upgradeIn hpc' hnone hok =>
    cases hnotify
    rcases hpc' with rfl | rfl <;> exact hi.frame id id (hset _ _ rfl) (hset _ _ rfl) (hset _ _ rfl)
  | commitOut =>
    cases hnotify
    obtain ⟨hreaders, hgone⟩ := broadcastNoMutators_sleepers (s.threads.set i .idle)
    have hreaders := hreaders.trans (hset Pc.waitsReaders .idle rfl)
    exact ⟨fun _ hpos => absurd hgone hpos.ne', fun hzero => hreaders.trans (hi.noReaders hzero)⟩

/-! ## Runs -/

structure Inv (s : St) : Prop where
  modes : ModeInv s
  sleepers : SleepInv s.lock s.threads

/-- a thread that stays in its mode -/
theorem ModeInv.frame (hi : ModeInv s) (hpc : s.threads[i]? = some pc) (hr : pc'.isReader = pc.isReader)
    (hm : pc'.isMutator = pc.isMutator) (hc : pc'.isCommitter = pc.isCommitter) :
    ModeInv { s with threads := s.threads.set i pc' } :=
  ⟨hi.readers.trans (congrArg _ (set_count _ pc' hpc hr).symm), (set_count _ pc' hpc hm).trans hi.mutators,
    (set_count _ pc' hpc hc).trans hi.committers, hi.commit, hi.checked⟩

theorem begin_inv {c : Call} (hi : Inv s) (hpc : s.threads[i]? = some pc) (h : c.begin pc = some pc') :
    Inv { s with threads := s.threads.set i pc' } := by
  have hmodes : pc'.isReader = pc.isReader ∧ pc'.isMutator = pc.isMutator ∧ pc'.isCommitter = pc.isCommitter := by
    cases c <;> cases pc <;> cases h <;> exact ⟨rfl, rfl, rfl⟩
  have hsleeps : pc'.waitsMutators = pc.waitsMutators ∧ pc'.wokenMutators = pc.wokenMutators ∧
      pc'.waitsReaders = pc.waitsReaders := by
    cases c <;> cases pc <;> cases h <;> exact ⟨rfl, rfl, rfl⟩
  exact ⟨hi.modes.frame hpc hmodes.1 hmodes.2.1 hmodes.2.2, hi.sleepers.frame id id (set_count _ pc' hpc hsleeps.1)
    (set_count _ pc' hpc hsleeps.2.1) (set_count _ pc' hpc hsleeps.2.2)⟩

theorem spurious_inv (hi : Inv s) (hpc : s.threads[i]? = some pc) (h : spuriousWakeup s i pc = some t) : Inv t := by
  unfold spuriousWakeup at h
  split_ifs at h with hasleep
  cases h
  refine ⟨hi.modes.frame hpc (isReader_wake pc) (isMutator_wake pc) (isCommitter_wake pc), ?_⟩
  rcases hasleep with hwait | hwait
  · rw [waitsMutators_iff.1 hwait] at hpc ⊢
    dsimp only [Pc.wake]
    refine ⟨fun _ _ => ?_, fun hzero => ?_⟩
    · have hwoken : (s.threads.set i (.writeAsleep true)).countP Pc.wokenMutators + 0 =
          s.threads.countP Pc.wokenMutators + 1 := slot_countP_exchange hpc Pc.wokenMutators (.writeAsleep true)
      omega
    · exact (set_count Pc.waitsReaders (.writeAsleep true) hpc rfl).trans (hi.sleepers.noReaders hzero)
  · rw [waitsReaders_iff.1 hwait] at hpc ⊢
    dsimp only [Pc.wake]
    refine ⟨fun hopen hpos => ?_, fun hzero => ?_⟩
    · rw [set_count Pc.waitsMutators (.upgradeAsleep true) hpc rfl] at hpos
      exact (hi.sleepers.noMutators hopen hpos).trans_eq (set_count Pc.wokenMutators (.upgradeAsleep true) hpc rfl).symm
    · have hgone := hi.sleepers.noReaders hzero
      have hpos : 0 < s.threads.countP Pc.waitsReaders := List.countP_pos_iff.2 ⟨_, List.mem_of_getElem? hpc, rfl⟩
      omega

theorem step_inv {n : ℕ} (hi : Inv s) (h : (machine n).step s o = some t) : Inv t := by
  cases o with
  | begin i c =>
    obtain ⟨pc, hpc, hbegin⟩ := Option.bind_eq_some_iff.1 h
    obtain ⟨pc', henter, rfl⟩ := Option.map_eq_some_iff.1 hbegin
    exact begin_inv hi hpc henter
  | run i target =>
    obtain ⟨pc, hpc, hrun⟩ := Option.bind_eq_some_iff.1 h
    refine ⟨run_modes hi.modes hpc hrun, ?_⟩
    obtain ⟨-, out, threads, henter, hnotify, rfl⟩ := run_cases hrun
    exact enters_sleepers hi.modes hi.sleepers hpc henter hnotify
  | spurious i =>
    obtain ⟨pc, hpc, hspurious⟩ := Option.bind_eq_some_iff.1 h
    exact spurious_inv hi hpc hspurious

theorem inv_init (n : ℕ) : Inv (machine n).init := by
  have hnone : ∀ p : Pc → Bool, p .idle = false → (List.replicate n Pc.idle).countP p = 0 := by
    intro p hp
    rw [List.countP_replicate, hp]
    rfl
  refine ⟨⟨?_, hnone _ rfl, hnone _ rfl, fun h => Bool.noConfusion h, rfl⟩, fun _ hpos => ?_, fun _ => hnone _ rfl⟩
  · exact congrArg Nat.cast (hnone Pc.isReader rfl).symm
  · exact absurd (hnone Pc.waitsMutators rfl) hpos.ne'

theorem run_inv {n : ℕ} {ops : List Op} (hrun : (machine n).run (machine n).init ops = some s) : Inv s :=
  Machine.run_inv (fun _ _ _ hi h => step_inv hi h) (inv_init n) hrun

/-! ## Compatibility and wakeups -/

theorem ModeInv.noReader (hi : ModeInv s) (hzero : s.lock.readerCount = 0) (hpc : pc ∈ s.threads) : pc.isReader = false := by
  have hnone : count Pc.isReader s = 0 := by
    have hreaders := hi.readers
    omega
  exact Bool.eq_false_iff.2 (List.countP_eq_zero.1 hnone pc hpc)

theorem ModeInv.noMutator (hi : ModeInv s) (hopen : s.lock.writeLocked = false) (hpc : pc ∈ s.threads) :
    pc.isMutator = false := by
  have hnone : count Pc.isMutator s = 0 := by rw [hi.mutators, hopen]; rfl
  exact Bool.eq_false_iff.2 (List.countP_eq_zero.1 hnone pc hpc)

/-- two threads are not both in write or commit mode -/
theorem ModeInv.one_mutator (hi : ModeInv s) (hpc : s.threads[i]? = some pc) (hm : pc.isMutator = true)
    (hpc' : s.threads[j]? = some pc') (hij : j ≠ i) : pc'.isMutator = false :=
  slot_unique hpc (hi.mutators.trans_le (Bool.toNat_le _)) hm hpc' hij

theorem Pc.isCommitter_mutator (h : pc.isCommitter = true) : pc.isMutator = true := by
  cases pc <;> first | rfl | cases h

/-- beside a thread in commit mode nobody is in any mode -/
theorem ModeInv.commit_excludes (hi : ModeInv s) (hpc : s.threads[i]? = some pc) (hc : pc.isCommitter = true)
    (hpc' : s.threads[j]? = some pc') (hij : j ≠ i) : pc'.isReader = false ∧ pc'.isMutator = false := by
  have hlocked := hi.locked_of_committer hpc hc
  exact ⟨hi.noReader (hi.commit hlocked) (List.mem_of_getElem? hpc'),
    hi.one_mutator hpc (Pc.isCommitter_mutator hc) hpc' hij⟩

/-- from a thread in commit mode a step leads to the same, or out of every mode -/
theorem commit_step {n : ℕ} (hi : Inv s) (hpc : s.threads[i]? = some pc) (hc : pc.isCommitter = true)
    (h : (machine n).step s o = some t) :
    (∃ pc', t.threads[i]? = some pc' ∧ pc'.isCommitter = true) ∨ t.lock.readerCount = 0 ∧ t.lock.writeLocked = false := by
  have hi' : i < s.threads.length := (List.getElem?_eq_some_iff.1 hpc).1
  have hset : ∀ (k : ℕ) (q q' : Pc), s.threads[k]? = some q → q'.isCommitter = q.isCommitter →
      ∃ pc', (s.threads.set k q')[i]? = some pc' ∧ pc'.isCommitter = true := by
    intro k q q' hq hsame
    by_cases hk : k = i
    · subst hk
      rw [hpc] at hq
      cases hq
      exact ⟨q', List.getElem?_set_self hi', hsame.trans hc⟩
    · exact ⟨pc, by rw [List.getElem?_set_ne hk, hpc], hc⟩
  cases o with
  | begin k c =>
    obtain ⟨q, hq, hbegin⟩ := Option.bind_eq_some_iff.1 h
    obtain ⟨q', henter, rfl⟩ := Option.map_eq_some_iff.1 hbegin
    exact Or.inl (hset k q q' hq (by cases c <;> cases q <;> cases henter <;> rfl))
  | spurious k =>
    obtain ⟨q, hq, hspurious⟩ := Option.bind_eq_some_iff.1 h
    unfold spuriousWakeup at hspurious
    split_ifs at hspurious
    cases hspurious
    exact Or.inl (hset k q q.wake hq (isCommitter_wake q))
  | run k target =>
    obtain ⟨q, hq, hrun⟩ := Option.bind_eq_some_iff.1 h
    obtain ⟨hlocked, out, threads, henter, hnotify, rfl⟩ := run_cases hrun
    have hheld := hi.modes.locked_of_committer hpc hc
    -- the mutex is held, so this is its CommitUnlock
    rw [hlocked hheld] at henter
    cases henter with
    | commitOut => exact Or.inr ⟨hi.modes.commit hheld, rfl⟩
    | writeSleeps hpc' hbusy => rcases hpc' with h | h <;> cases h
    | writeIn hpc' hopen => rcases hpc' with h | h <;> cases h
    | upgradeSleeps hpc' hbusy hok => rcases hpc' with h | h <;> cases h
    | upgradeIn hpc' hnone hok => rcases hpc' with h | h <;> cases h

/-- no thread is inside an operation other than asleep, and nobody is notified -/
def Pc.isQuiet : Pc → Bool
  | .idle | .reading | .writing | .committing | .writeAsleep false | .upgradeAsleep false => true
  | _ => false

def Quiescent (s : St) : Prop := ∀ pc ∈ s.threads, pc.isQuiet = true

instance (s : St) : Decidable (Quiescent s) := inferInstanceAs (Decidable (∀ pc ∈ s.threads, pc.isQuiet = true))

theorem sleepers_wait_for_reason (hi : Inv s) (hq : Quiescent s) (hpc : pc ∈ s.threads) :
    (pc.waitsMutators = true → s.lock.writeLocked = true) ∧ (pc.waitsReaders = true → 0 < s.lock.readerCount) := by
  constructor
  · intro hwait
    by_contra hopen
    have hpos : 0 < s.threads.countP Pc.waitsMutators := List.countP_pos_iff.2 ⟨pc, hpc, hwait⟩
    obtain ⟨q, hqmem, hwoken⟩ := List.countP_pos_iff.1 (hi.sleepers.noMutators (Bool.eq_false_iff.2 hopen) hpos)
    have hquiet := hq q hqmem
    rw [show q = .writeAsleep true from of_decide_eq_true hwoken] at hquiet
    cases hquiet
  · intro hwait
    by_contra hnone
    have hreaders := hi.modes.readers
    have hgone := hi.sleepers.noReaders (by omega)
    have hpos : 0 < s.threads.countP Pc.waitsReaders := List.countP_pos_iff.2 ⟨pc, hpc, hwait⟩
    omega

/-- **Compatibility and wakeups**, in every run of any number of threads. -/
theorem compatibility {n : ℕ} {ops : List Op} (hrun : (machine n).run (machine n).init ops = some s) :
    (∀ (i j : ℕ) (pc pc' : Pc), j ≠ i → s.threads[i]? = some pc → s.threads[j]? = some pc' → pc.isMutator = true →
      pc'.isMutator = false) ∧
    (∀ (i : ℕ) (pc : Pc), s.threads[i]? = some pc → pc.isCommitter = true →
      (∀ (j : ℕ) (pc' : Pc), j ≠ i → s.threads[j]? = some pc' → pc'.isReader = false ∧ pc'.isMutator = false) ∧
      ∀ o t, (machine n).step s o = some t → ∀ (j : ℕ) (pc' : Pc), j ≠ i → t.threads[j]? = some pc' →
        pc'.isReader = false ∧ pc'.isMutator = false) ∧
    s.lock.readerCount = count Pc.isReader s ∧ s.checkFailed = false ∧
    (Quiescent s → ∀ pc ∈ s.threads,
      (pc.waitsMutators = true → s.lock.writeLocked = true) ∧ (pc.waitsReaders = true → 0 < s.lock.readerCount)) := by
  have hi := run_inv hrun
  refine ⟨fun i j pc pc' hij hpc hpc' hm => hi.modes.one_mutator hpc hm hpc' hij, fun i pc hpc hc => ⟨?_, ?_⟩,
    hi.modes.readers, hi.modes.checked, fun hq pc hpc => sleepers_wait_for_reason hi hq hpc⟩
  · intro j pc' hij hpc'
    exact hi.modes.commit_excludes hpc hc hpc' hij
  · intro o t h j pc' hij hpc'
    have hi' := step_inv hi h
    rcases commit_step hi hpc hc h with ⟨pc'', hpc'', hc'⟩ | ⟨hzero, hopen⟩
    · exact hi'.modes.commit_excludes hpc'' hc' hpc' hij
    · exact ⟨hi'.modes.noReader hzero (List.mem_of_getElem? hpc'), hi'.modes.noMutator hopen (List.mem_of_getElem? hpc')⟩

/-- a reader that keeps an upgrader asleep, which keeps another writer asleep -/
theorem compatibility_threeThreads :
    let ops : List Op := [.begin 0 .readLock, .run 0 none, .begin 1 .writeLock, .run 1 none, .begin 2 .writeLock,
      .run 2 none, .begin 1 .upgradeToCommitLock, .run 1 none]
    ∃ s, (machine 3).run (machine 3).init ops = some s ∧ s.threads = [.reading, .upgradeAsleep false, .writeAsleep false] ∧
      s.lock.writeLocked = true ∧ 0 < s.lock.readerCount := by
  intro ops
  have hserved := (compatibility (rfl : (machine 3).run (machine 3).init ops = some _)).2.2.2.2 (by decide)
  refine ⟨_, rfl, rfl, ?_, ?_⟩
  · exact (hserved (.writeAsleep false) (by decide)).1 rfl
  · exact (hserved (.upgradeAsleep false) (by decide)).2 rfl

end Bboy.RWCLock
