/-
Lean model of the bounded waits: `ConditionVariable::TimedWait` (`bboy/base/sync/condition_variable.cc`) and the loops
around it in `CountDownLatch::WaitFor` (`bboy/base/sync/countdown_latch.h`) and `ThreadPool::WaitFor`
(`bboy/base/thread/threadpool.cc`).

The environment is a sequence of wakeups, signals and spurious ones alike: each comes some time after the wait it ends
began, and the caller finds some state when it has the lock again. Only waiting takes time. Times are nanoseconds.

- `deadline_eq`: the arithmetic of `TimedWait` on its `timespec`s.
- `waits_le`: no single round waits for longer than `delta`.
- `bounded_exact`: the rounds of a call wait no longer than `delta` together exactly when a wakeup within `delta` of the
  call finds that there is nothing to wait for, or no wakeup comes after the call and within `delta` of it.
- `bounded_broken`: a spurious wakeup after 6 of 10 nanoseconds, and a wait of 16.
-/
import Bboy.Base.ThreadPool

namespace Bboy.TimedWait

/-! ## `TimedWait` -/

structure TimeSpec where
  tvSec : ℤ
  tvNsec : ℤ
  deriving DecidableEq, Repr

def TimeSpec.nanos (ts : TimeSpec) : ℤ := ts.tvSec * 1000000000 + ts.tvNsec

def nanosToTimeSpec (nanos : ℤ) : TimeSpec :=
  let tvSec := nanos.tdiv 1000000000
  let tvNsec := nanos - tvSec * 1000000000
  if tvNsec < 0 then ⟨tvSec - 1, tvNsec + 1000000000⟩ else ⟨tvSec, tvNsec⟩

/-- the absolute time of a wait that begins at `now` -/
def absoluteTime (now relative : TimeSpec) : TimeSpec :=
  let tvNsec := now.tvNsec + relative.tvNsec
  ⟨now.tvSec + relative.tvSec + tvNsec.tdiv 1000000000, tvNsec.tmod 1000000000⟩

/-- when a wait that begins at `now` times out -/
def deadline (now waitTime : ℤ) : ℤ := (absoluteTime (nanosToTimeSpec now) (nanosToTimeSpec waitTime)).nanos

/-- a wakeup: how long after the wait began it comes, and what the caller finds then -/
structure Wakeup (S : Type*) where
  after : ℕ
  state : S
  deriving DecidableEq, Repr

variable {S : Type*}

/-- `TimedWait`: the time that it takes, and the state after a wakeup; without one it returns false -/
def timedWait (waitTime now : ℤ) (next : Option (Wakeup S)) : ℤ × Option S :=
  if waitTime < 0 then (0, none)
  else
    let timeout := deadline now waitTime
    match next with
    | none => (timeout - now, none)
    | some w => if timeout < now + w.after then (timeout - now, none) else (w.after, some w.state)

/-! ## The loops -/

/-- the result of a call, and how long each of its rounds waited -/
structure Waited where
  result : Bool
  waits : List ℤ
  deriving DecidableEq, Repr

def Waited.after (t : ℤ) (r : Waited) : Waited := { r with waits := t :: r.waits }

/-- the loop of `WaitFor` from time `now` and state `s` on: each round waits for the whole `delta` -/
def waitLoop (unmet : S → Bool) (delta : ℤ) : ℤ → S → List (Wakeup S) → Waited
  | now, s, [] => if unmet s then ⟨false, [(timedWait delta now (none : Option (Wakeup S))).1]⟩ else ⟨true, []⟩
  | now, s, w :: ws =>
    if unmet s then
      match timedWait delta now (some w) with
      | (t, none) => ⟨false, [t]⟩
      | (t, some s') => (waitLoop unmet delta (now + t) s' ws).after t
    else ⟨true, []⟩

namespace CountDownLatch

/-- the condition of the loop, on `count_` -/
def mustWait (count : ℕ) : Bool := 0 < count

def waitFor (delta now : ℤ) (count : ℕ) (ws : List (Wakeup ℕ)) : Waited := waitLoop mustWait delta now count ws

def waitUntil (until_ now : ℤ) (count : ℕ) (ws : List (Wakeup ℕ)) : Waited := waitFor (until_ - now) now count ws

end CountDownLatch

namespace ThreadPool

open Bboy.ThreadPool (Pool)

variable {α : Type}

/-- the condition of the loop, on the members of the pool -/
def mustWait (p : Pool α) : Bool := Bboy.ThreadPool.mustWait p .idle

def waitFor (delta now : ℤ) (p : Pool α) (ws : List (Wakeup (Pool α))) : Waited := waitLoop mustWait delta now p ws

def waitUntil (until_ now : ℤ) (p : Pool α) (ws : List (Wakeup (Pool α))) : Waited := waitFor (until_ - now) now p ws

end ThreadPool

/-! ## Deadlines -/

theorem nanos_nanosToTimeSpec (nanos : ℤ) : (nanosToTimeSpec nanos).nanos = nanos := by
  unfold nanosToTimeSpec TimeSpec.nanos
  dsimp only
  split_ifs <;> dsimp only <;> ring

theorem nsec_nanosToTimeSpec (nanos : ℤ) :
    0 ≤ (nanosToTimeSpec nanos).tvNsec ∧ (nanosToTimeSpec nanos).tvNsec < 1000000000 := by
  have hrem := Int.mul_tdiv_add_tmod nanos 1000000000
  have hlt := Int.tmod_lt_of_pos nanos (show (0 : ℤ) < 1000000000 by norm_num)
  have hgt := Int.lt_tmod_of_pos nanos (show (0 : ℤ) < 1000000000 by norm_num)
  unfold nanosToTimeSpec
  dsimp only
  split_ifs <;> dsimp only <;> omega

/-- **The deadline** of a wait is its beginning and the time it may take -/
theorem deadline_eq (now waitTime : ℤ) : deadline now waitTime = now + waitTime := by
  have hnow := nanos_nanosToTimeSpec now
  have hwait := nanos_nanosToTimeSpec waitTime
  have hcarry := Int.mul_tdiv_add_tmod ((nanosToTimeSpec now).tvNsec + (nanosToTimeSpec waitTime).tvNsec) 1000000000
  unfold deadline absoluteTime TimeSpec.nanos at *
  dsimp only
  linarith

/-- the nanoseconds of the deadline are fewer than a second, as `pthread_cond_timedwait` requires -/
theorem nsec_absoluteTime (now waitTime : ℤ) :
    0 ≤ (absoluteTime (nanosToTimeSpec now) (nanosToTimeSpec waitTime)).tvNsec ∧
      (absoluteTime (nanosToTimeSpec now) (nanosToTimeSpec waitTime)).tvNsec < 1000000000 := by
  have hnow := nsec_nanosToTimeSpec now
  have hwait := nsec_nanosToTimeSpec waitTime
  exact ⟨Int.tmod_nonneg _ (by omega), Int.tmod_lt_of_pos _ (by norm_num)⟩

/-! ## Rounds -/

variable {unmet : S → Bool} {delta now budget : ℤ} {s : S} {w : Wakeup S} {ws : List (Wakeup S)}

theorem timedWait_none (h : 0 ≤ delta) : timedWait delta now (none : Option (Wakeup S)) = (delta, none) := by
  rw [timedWait, if_neg (not_lt.2 h)]
  simp only [deadline_eq, add_sub_cancel_left]

theorem timedWait_some (h : 0 ≤ delta) :
    timedWait delta now (some w) = if delta < w.after then (delta, none) else ((w.after : ℤ), some w.state) := by
  rw [timedWait, if_neg (not_lt.2 h)]
  simp only [deadline_eq, add_sub_cancel_left, add_lt_add_iff_left]

theorem timedWait_neg (h : delta < 0) (next : Option (Wakeup S)) : timedWait delta now next = (0, none) := if_pos h

/-- a round waits no longer than `delta` -/
theorem timedWait_le (delta now : ℤ) (next : Option (Wakeup S)) :
    0 ≤ (timedWait delta now next).1 ∧ (timedWait delta now next).1 ≤ max delta 0 := by
  by_cases h : delta < 0
  · rw [timedWait_neg h]
    exact ⟨le_rfl, le_max_right _ _⟩
  · have hle : 0 ≤ delta := not_lt.1 h
    match next with
    | none =>
      rw [timedWait_none hle]
      exact ⟨hle, le_max_left _ _⟩
    | some w =>
      rw [timedWait_some hle]
      split_ifs with hw
      · exact ⟨hle, le_max_left _ _⟩
      · exact ⟨Int.natCast_nonneg _, (not_lt.1 hw).trans (le_max_left _ _)⟩

/-- **One round.** No round of a call waits for longer than `delta`. -/
theorem waits_le (unmet : S → Bool) (delta now : ℤ) (s : S) (ws : List (Wakeup S)) :
    ∀ t ∈ (waitLoop unmet delta now s ws).waits, 0 ≤ t ∧ t ≤ max delta 0 := by
  induction ws generalizing now s with
  | nil =>
    rw [waitLoop]
    split_ifs
    · intro t ht
      rw [List.mem_singleton.1 ht]
      exact timedWait_le delta now none
    · simp
  | cons w ws ih =>
    rw [waitLoop]
    split_ifs
    · have hround := timedWait_le delta now (some w)
      match timedWait delta now (some w), hround with
      | (t, none), hround => simpa using hround
      | (t, some s'), hround => exact List.forall_mem_cons.2 ⟨hround, ih (now + t) s'⟩
    · simp

theorem sum_waits_nonneg (unmet : S → Bool) (delta now : ℤ) (s : S) (ws : List (Wakeup S)) :
    0 ≤ (waitLoop unmet delta now s ws).waits.sum :=
  List.sum_nonneg fun t ht => (waits_le unmet delta now s ws t ht).1

/-! ## All rounds -/

/-- the wakeups by the time at which they come, when the first wait begins at `now` -/
def times : ℤ → List (Wakeup S) → List (ℤ × S)
  | _, [] => []
  | now, w :: ws => (now + w.after, w.state) :: times (now + w.after) ws

theorem le_times {e : ℤ × S} (he : e ∈ times now ws) : now ≤ e.1 := by
  induction ws generalizing now with
  | nil => exact absurd he (List.not_mem_nil)
  | cons w ws ih =>
    rcases List.mem_cons.1 he with rfl | he
    · simp
    · have := ih he
      omega

/-- no wakeup comes before the first -/
theorem le_times_cons {w : Wakeup S} {e : ℤ × S} (he : e ∈ times now (w :: ws)) : now + w.after ≤ e.1 := by
  rcases List.mem_cons.1 he with rfl | he
  · exact le_rfl
  · exact le_times he

/-- no round is too late, or none is needed: what a call must find to keep its bound -/
def Prompt (unmet : S → Bool) (delta now : ℤ) (s : S) (ws : List (Wakeup S)) : Prop :=
  unmet s = false ∨ (∃ e ∈ times now ws, e.1 ≤ now + delta ∧ unmet e.2 = false) ∨
    ∀ e ∈ times now ws, e.1 ≤ now + delta → e.1 = now

/-- the loop within a budget, which is less than `delta` from the second round on -/
theorem sum_waits_le (hle : budget ≤ delta) (hbudget : 0 ≤ budget) :
    (waitLoop unmet delta now s ws).waits.sum ≤ budget ↔
      unmet s = false ∨ (∃ e ∈ times now ws, e.1 ≤ now + budget ∧ unmet e.2 = false) ∨
        (budget = delta ∧ ∀ e ∈ times now ws, e.1 ≤ now + delta → e.1 = now) := by
  have hdelta : 0 ≤ delta := hbudget.trans hle
  induction ws generalizing now s budget with
  | nil =>
    rw [waitLoop, timedWait_none hdelta]
    cases unmet s
    · simpa using hbudget
    · have hall : delta ≤ budget ↔ budget = delta := ⟨fun h => le_antisymm hle h, ge_of_eq⟩
      simpa [times] using hall
  | cons w ws ih =>
    rw [waitLoop, timedWait_some hdelta]
    cases hs : unmet s
    · simpa using hbudget
    by_cases htimeout : delta < w.after
    -- the first wait times out
    · have hnone : ¬ ∃ e ∈ times now (w :: ws), e.1 ≤ now + budget ∧ unmet e.2 = false := by
        rintro ⟨e, he, hearly, -⟩
        have hlater := le_times_cons he
        omega
      have hvacuous : ∀ e ∈ times now (w :: ws), e.1 ≤ now + delta → e.1 = now := by
        intro e he hearly
        have hlater := le_times_cons he
        omega
      simp only [if_pos htimeout, if_true, Bool.true_eq_false, false_or, hnone, List.sum_singleton]
      exact ⟨fun h => ⟨le_antisymm hle h, hvacuous⟩, fun h => h.1.ge⟩
    · simp only [if_neg htimeout, if_true, Waited.after, List.sum_cons, Bool.true_eq_false, false_or]
      by_cases hspent : budget < w.after
      -- the first wakeup comes too late
      · have hrest := sum_waits_nonneg unmet delta (now + w.after) w.state ws
        refine iff_of_false (by omega) ?_
        rintro (⟨e, he, hearly, -⟩ | ⟨rfl, -⟩)
        · have hlater := le_times_cons he
          omega
        · exact htimeout hspent
      -- the first wakeup leaves a part of the budget
      · have hsum : ∀ r : ℤ, w.after + r ≤ budget ↔ r ≤ budget - w.after := fun r => by omega
        have hrest : now + w.after + (budget - w.after) = now + budget := by omega
        have hround : (waitLoop unmet delta (now + w.after) w.state ws).waits.sum ≤ budget - w.after ↔ _ :=
          ih (by omega) (by omega)
        rw [hsum, hround, hrest]
        simp only [times, List.exists_mem_cons_iff, List.forall_mem_cons]
        have hfirst : now + w.after ≤ now + budget := by omega
        rw [and_iff_right hfirst, or_assoc]
        refine or_congr_right (or_congr_right ⟨?_, ?_⟩)
        · intro ⟨hleft, hzero⟩
          have hafter : (w.after : ℤ) = 0 := by omega
          simp only [hafter, add_zero] at hzero ⊢
          exact ⟨by omega, fun _ => trivial, hzero⟩
        · intro ⟨hall, hzero, hlate⟩
          have hafter : (w.after : ℤ) = 0 := by
            have := hzero (by omega)
            omega
          simp only [hafter, add_zero] at hlate ⊢
          exact ⟨by omega, hlate⟩

/-- the time that a call waits in all its rounds, against `delta`; a negative `delta` allows no waiting -/
def Bounded (r : Waited) (delta : ℤ) : Prop := r.waits.sum ≤ max delta 0

theorem bounded_waitLoop (unmet : S → Bool) (delta now : ℤ) (s : S) (ws : List (Wakeup S)) :
    Bounded (waitLoop unmet delta now s ws) delta ↔ Prompt unmet delta now s ws := by
  unfold Bounded Prompt
  by_cases h : delta < 0
  · have hzero : (waitLoop unmet delta now s ws).waits.sum ≤ 0 := by
      have hall : ∀ t ∈ (waitLoop unmet delta now s ws).waits, t = 0 := fun t ht => by
        obtain ⟨hnonneg, hle⟩ := waits_le unmet delta now s ws t ht
        rw [max_eq_right h.le] at hle
        exact le_antisymm hle hnonneg
      exact (List.sum_eq_zero hall).le
    refine iff_of_true (hzero.trans (le_max_right _ _)) (Or.inr (Or.inr fun e he hearly => ?_))
    have := le_times he
    omega
  · rw [max_eq_left (not_lt.1 h), sum_waits_le le_rfl (not_lt.1 h), eq_self_iff_true, true_and]

/-- **The bound of a wait.** A call waits no longer than `delta`, or until `until_`, in all its rounds exactly when it
finds nothing to wait for at the call or at a wakeup within `delta` of it, or no wakeup comes after the call and within
`delta` of it. -/
theorem bounded_exact {α : Type} (delta until_ now : ℤ) :
    (∀ count ws, Bounded (CountDownLatch.waitFor delta now count ws) delta ↔
      Prompt CountDownLatch.mustWait delta now count ws) ∧
    (∀ count ws, Bounded (CountDownLatch.waitUntil until_ now count ws) (until_ - now) ↔
      Prompt CountDownLatch.mustWait (until_ - now) now count ws) ∧
    (∀ (p : Bboy.ThreadPool.Pool α) ws, Bounded (ThreadPool.waitFor delta now p ws) delta ↔
      Prompt ThreadPool.mustWait delta now p ws) ∧
    ∀ (p : Bboy.ThreadPool.Pool α) ws, Bounded (ThreadPool.waitUntil until_ now p ws) (until_ - now) ↔
      Prompt ThreadPool.mustWait (until_ - now) now p ws :=
  ⟨bounded_waitLoop _ delta now, bounded_waitLoop _ (until_ - now) now, bounded_waitLoop _ delta now,
    bounded_waitLoop _ (until_ - now) now⟩

/-- **A wait that is too long**: a wakeup after 6 nanoseconds finds the latch closed, and the wait goes on for 10 more -/
theorem bounded_broken : ¬ Bounded (CountDownLatch.waitFor 10 0 1 [⟨6, 1⟩]) 10 := by
  unfold Bounded
  decide

end Bboy.TimedWait
