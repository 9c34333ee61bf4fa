/-
Lean model of `CountDownLatch` (`bboy/base/sync/countdown_latch.h`): threads that wait until a count is down to zero.

A step is one critical section of `lock_`: a `CountDown`, a `Reset`, the entry of a `Wait` or a `WaitFor` up to its return or
its sleep, and a woken thread's look at the count. Sleepers may wake on their own, and a timed wait may expire at any time,
also when it has been woken already.

- `no_sleeper`: in every run, with any number of resets, nobody sleeps on an open latch.
- `countdown`: without a `Reset` the count is what the amounts have left of the first one, at zero once they reach it. A
  `Wait` has returned, or a `WaitFor` has returned true, only then, and from then on nobody waits.
Witnesses: `no_sleeper_reset`, `countdown_three`.
-/
import Bboy.Core.Atomic
import Bboy.Core.Machine
import Bboy.Core.Waiters

namespace Bboy.CountDownLatch

open Core

/-! ## The latch -/

/-- where a thread is: in `cond_.Wait`, or in `cond_.TimedWait` if it is `timed` -/
inductive Pc where
  | idle
  | waiting (timed : Bool)
  | woken (timed : Bool)
  deriving DecidableEq, Repr

/-- `down` is the sum of the amounts, and `passed` counts the waits that found the latch open -/
structure St where
  count_ : ℕ
  threads : List Pc
  down : ℕ
  passed : ℕ
  deriving DecidableEq, Repr

inductive Op where
  | countDown (amount : ℤ)
  | reset (count : ℕ)
  | wait (i : ℕ) (timed : Bool)
  | spurious (i : ℕ)
  | resume (i : ℕ)
  | expire (i : ℕ)
  deriving DecidableEq, Repr

def Pc.isWaiting : Pc → Bool
  | .waiting _ => true
  | _ => false

def Pc.wake : Pc → Pc
  | .waiting timed => .woken timed
  | pc => pc

/-- cond_.Broadcast() -/
def broadcast (threads : List Pc) : List Pc := wakeAll Pc.isWaiting Pc.wake threads

/-- the conversion of an int to uint64_t -/
def toUInt64 (amount : ℤ) : ℕ := (amount % 2 ^ 64).toNat

def countDown (s : St) (amount : ℤ) : St :=
  let s := { s with down := s.down + toUInt64 amount }
  if s.count_ = 0 then s
  else
    let count := if s.count_ ≤ toUInt64 amount then 0 else s.count_ - toUInt64 amount
    -- Latch has triggered.
    { s with count_ := count, threads := if count = 0 then broadcast s.threads else s.threads }

def reset (s : St) (count : ℕ) : St :=
  { s with count_ := count, threads := if count = 0 then broadcast s.threads else s.threads }

/-- the test of the loop of `Wait` and of `WaitFor` -/
def look (s : St) (i : ℕ) (timed : Bool) : St :=
  if 0 < s.count_ then { s with threads := s.threads.set i (.waiting timed) }
  else { s with threads := s.threads.set i .idle, passed := s.passed + 1 }

def machine (count n : ℕ) : Machine St Op where
  init := ⟨count, List.replicate n .idle, 0, 0⟩
  step s
    -- DCHECK_GE(amount, 0)
    | .countDown amount => some (countDown s amount)
    | .reset count => some (reset s count)
    | .wait i timed => s.threads[i]?.bind fun pc => if pc = .idle then some (look s i timed) else none
    | .spurious i => s.threads[i]?.bind fun pc =>
        if pc.isWaiting then some { s with threads := s.threads.set i pc.wake } else none
    | .resume i => s.threads[i]?.bind fun pc =>
        match pc with
        | .woken timed => some (look s i timed)
        | _ => none
    | .expire i => s.threads[i]?.bind fun pc =>
        if pc = .waiting true ∨ pc = .woken true then some { s with threads := s.threads.set i .idle } else none

/-! ## Sleepers -/

/-- nobody sleeps on an open latch -/
def Awake (s : St) : Prop := s.count_ = 0 → ∀ pc ∈ s.threads, pc.isWaiting = false

variable {count n i : ℕ} {s t : St} {o : Op} {ops : List Op}

theorem broadcast_awake (threads : List Pc) : ∀ pc ∈ broadcast threads, pc.isWaiting = false :=
  wakeAll_waiters fun pc hpc => by cases pc <;> rfl

theorem look_awake (h : Awake s) (timed : Bool) : Awake (look s i timed) := by
  unfold look
  split_ifs with hpos
  · exact fun hzero => absurd hzero hpos.ne'
  · exact fun hzero => forall_set (h hzero) rfl

theorem replace_awake {pc : Pc} (h : Awake s) (hpc : pc.isWaiting = false) :
    Awake { s with threads := s.threads.set i pc } := fun hzero => forall_set (h hzero) hpc

theorem countDown_awake (h : Awake s) (amount : ℤ) : Awake (countDown s amount) := by
  unfold countDown
  by_cases hzero : s.count_ = 0
  · simp only [hzero, if_true]
    exact fun _ => h hzero
  · simp only [hzero, if_false]
    intro htrigger
    dsimp only at htrigger ⊢
    rw [if_pos htrigger]
    exact broadcast_awake s.threads

theorem step_awake (h : Awake s) (hst : (machine count n).step s o = some t) : Awake t := by
  cases o with
  | countDown amount =>
    cases hst
    exact countDown_awake h amount
  | reset count =>
    cases hst
    intro hzero
    have hcount : count = 0 := hzero
    simp only [reset, hcount, if_true]
    exact broadcast_awake s.threads
  | wait i timed =>
    obtain ⟨pc, -, hwait⟩ := Option.bind_eq_some_iff.1 hst
    split_ifs at hwait
    cases hwait
    exact look_awake h timed
  | spurious i =>
    obtain ⟨pc, -, hspurious⟩ := Option.bind_eq_some_iff.1 hst
    split_ifs at hspurious
    cases hspurious
    exact replace_awake h (by cases pc <;> rfl)
  | resume i =>
    obtain ⟨pc, -, hresume⟩ := Option.bind_eq_some_iff.1 hst
    cases pc with
    | woken timed =>
      cases hresume
      exact look_awake h timed
    | _ => cases hresume
  | expire i =>
    obtain ⟨pc, -, hexpire⟩ := Option.bind_eq_some_iff.1 hst
    split_ifs at hexpire
    cases hexpire
    exact replace_awake h rfl

theorem init_idle {pc : Pc} (h : pc ∈ (machine count n).init.threads) : pc = .idle := List.eq_of_mem_replicate h

theorem run_awake (h : (machine count n).run (machine count n).init ops = some s) : Awake s := by
  have hinit : Awake (machine count n).init := fun _ pc hpc => by rw [init_idle hpc]; rfl
  exact Machine.run_inv (fun _ _ _ hi hst => step_awake hi hst) hinit h

/-- **Nobody sleeps on an open latch**, whatever the order of counts, resets, waits and wakeups. -/
theorem no_sleeper (h : (machine count n).run (machine count n).init ops = some s) (hopen : s.count_ = 0) :
    ∀ pc ∈ s.threads, pc.isWaiting = false := run_awake h hopen

/-! ## The count -/

/-- `Reset` is not called -/
def NoReset : Op → Prop
  | .reset _ => False
  | _ => True

/-- the count, and who may have passed -/
structure Counted (count : ℕ) (s : St) : Prop where
  left : s.count_ = count - s.down
  passed : 0 < s.passed → s.count_ = 0

theorem look_counted (h : Counted count s) (timed : Bool) : Counted count (look s i timed) := by
  unfold look
  split_ifs with hpos
  · exact ⟨h.left, h.passed⟩
  · exact ⟨h.left, fun _ => Nat.eq_zero_of_not_pos hpos⟩

theorem countDown_counted (h : Counted count s) (amount : ℤ) : Counted count (countDown s amount) := by
  have hleft := h.left
  unfold countDown
  dsimp only
  split_ifs with hzero hle hle
  · exact ⟨by dsimp only; omega, h.passed⟩
  all_goals
    refine ⟨by dsimp only; omega, fun hp => absurd (h.passed hp) hzero⟩

theorem step_counted (h : Counted count s) (ho : NoReset o) (hst : (machine count n).step s o = some t) :
    Counted count t := by
  cases o with
  | countDown amount =>
    cases hst
    exact countDown_counted h amount
  | reset count => exact absurd ho id
  | wait i timed =>
    obtain ⟨pc, -, hwait⟩ := Option.bind_eq_some_iff.1 hst
    split_ifs at hwait
    cases hwait
    exact look_counted h timed
  | spurious i =>
    obtain ⟨pc, -, hspurious⟩ := Option.bind_eq_some_iff.1 hst
    split_ifs at hspurious
    cases hspurious
    exact ⟨h.left, h.passed⟩
  | resume i =>
    obtain ⟨pc, -, hresume⟩ := Option.bind_eq_some_iff.1 hst
    cases pc with
    | woken timed =>
      cases hresume
      exact look_counted h timed
    | _ => cases hresume
  | expire i =>
    obtain ⟨pc, -, hexpire⟩ := Option.bind_eq_some_iff.1 hst
    split_ifs at hexpire
    cases hexpire
    exact ⟨h.left, h.passed⟩

/-- **The count** of a latch that is not reset is the first one less all amounts, and stays at zero. A wait has returned true
only when the amounts had reached it, and then nobody sleeps any more. -/
theorem countdown (hreset : ∀ o ∈ ops, NoReset o) (h : (machine count n).run (machine count n).init ops = some s) :
    s.count_ = count - s.down ∧ (0 < s.passed → count ≤ s.down) ∧
      (count ≤ s.down → ∀ pc ∈ s.threads, pc.isWaiting = false) := by
  have hinit : Counted count (machine count n).init := ⟨rfl, nofun⟩
  have hs : Counted count s :=
    Machine.run_inv_along (fun _ _ _ hi ho hst => step_counted hi ho hst) hinit (Machine.along_of_forall _ hreset) h
  have hleft := hs.left
  refine ⟨hleft, fun hp => ?_, fun hle => run_awake h (by omega)⟩
  have hzero := hs.passed hp
  omega

/-! ### Witnesses -/

/-- two threads wait for three counts, one of them with a timeout that expires -/
def threeOps : List Op :=
  [.wait 0 false, .countDown 1, .wait 1 true, .expire 1, .spurious 0, .resume 0, .countDown 2, .resume 0]

def threeState : St := ⟨0, [.idle, .idle], 3, 1⟩

theorem three_run : (machine 3 2).run (machine 3 2).init threeOps = some threeState := by decide +kernel

theorem countdown_three :
    threeState.count_ = 3 - threeState.down ∧ (0 < threeState.passed → 3 ≤ threeState.down) ∧
      (3 ≤ threeState.down → ∀ pc ∈ threeState.threads, pc.isWaiting = false) :=
  countdown (by simp [threeOps, NoReset]) three_run

/-- a thread that waits on a count of 5, and a `Reset` to 0 -/
def resetOps : List Op := [.wait 0 false, .reset 0]

def resetState : St := ⟨0, [.woken false, .idle], 0, 0⟩

theorem no_sleeper_reset :
    (machine 5 2).run (machine 5 2).init resetOps = some resetState ∧ ∀ pc ∈ resetState.threads, pc.isWaiting = false := by
  have hrun : (machine 5 2).run (machine 5 2).init resetOps = some resetState := by decide +kernel
  exact ⟨hrun, no_sleeper hrun rfl⟩

end Bboy.CountDownLatch
