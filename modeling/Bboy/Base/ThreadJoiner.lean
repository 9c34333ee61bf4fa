/-
Lean model of `ThreadJoiner::Join` (`bboy/base/thread/thread.cc`), with its time accounting in ints.

Time is in milliseconds from the call of `Join` on. The thread is done at a time that the environment decides, or never.
A wait that times out takes its whole time. `none` is an overflow.

- `round_eq`: what a round does.
- `stateAfter_gives_up`: with a time to give up and a warning interval, the loop ends at that time at the latest.
- `exists_intervals`, `reaches_interval`: without a time to give up, the loop comes to the times of all warnings.
- `soundLoop_iff`: for which settings and which times of the thread the accounting of the loop is right.
- `join_exact`: the same of `Join`, which does not come to the loop for the joining thread itself or one not joinable.
- `join_broken`: without a warning interval `Join` waits for no time, and with the default settings the sum overflows.
-/
import Bboy.Core.MachineInt
import Bboy.Base.Status

namespace Bboy.Join

open Core

/-! ## Model -/

/-- the settings, which are ints -/
structure ThreadJoiner where
  warnAfterMs : ℤ
  warnEveryMs : ℤ
  giveUpAfterMs : ℤ
  warnAfter_nonneg : 0 ≤ warnAfterMs
  warnAfter_le : warnAfterMs ≤ int32Max
  warnEvery_nonneg : 0 ≤ warnEveryMs
  warnEvery_le : warnEveryMs ≤ int32Max
  /-- -1: forever -/
  giveUp_ge : -1 ≤ giveUpAfterMs
  giveUp_le : giveUpAfterMs ≤ int32Max

/-- the thread that is joined -/
structure Thread where
  name : String
  /-- the joining thread itself -/
  isSelf : Bool
  joinable : Bool
  /-- `done_` is counted down at this time -/
  doneAt : Option ℕ

/-- the thread is done by the time -/
def Thread.DoneBy (thread : Thread) (time : ℤ) : Prop := ∃ d ∈ thread.doneAt, (d : ℤ) ≤ time

instance (thread : Thread) (time : ℤ) : Decidable (thread.DoneBy time) :=
  match h : thread.doneAt with
  | none => isFalse fun ⟨d, hd, _⟩ => by simp [h] at hd
  | some d => decidable_of_iff ((d : ℤ) ≤ time) (by simp [Thread.DoneBy, h])

/-- where the loop goes on -/
inductive State where
  | looping (waitedMs : ℤ)
  | joined
  | gaveUp (waitedMs : ℤ)
  | overflow
deriving DecidableEq, Repr

variable (joiner : ThreadJoiner) (thread : Thread)

/-- one round of the loop: `wait_for`, and where it goes on; `none` if an int overflows -/
def round (waitedMs : ℤ) : Option (ℤ × State) :=
  (if joiner.giveUpAfterMs ≠ -1 then checkInt (joiner.giveUpAfterMs - waitedMs) else some int32Max).bind
    fun remainingBeforeGiveup =>
      (if waitedMs < joiner.warnAfterMs then checkInt (joiner.warnAfterMs - waitedMs) else some joiner.warnEveryMs).bind
        fun remainingBeforeNextWarn =>
          let keepTrying := ¬remainingBeforeGiveup < remainingBeforeNextWarn
          let waitFor := min remainingBeforeGiveup remainingBeforeNextWarn
          -- done_.WaitFor
          if thread.DoneBy (waitedMs + waitFor) then some (waitFor, .joined)
          else
            (checkInt (waitedMs + waitFor)).map fun waitedMs =>
              (waitFor, if keepTrying then .looping waitedMs else .gaveUp waitedMs)

def next : State → State
  | .looping waitedMs => ((round joiner thread waitedMs).map Prod.snd).getD .overflow
  | s => s

def stateAfter (rounds : ℕ) : State := (next joiner thread)^[rounds] (.looping 0)

def timedOut (waitedMs : ℤ) : Status :=
  .bad ⟨.aborted, "Timed out after " ++ toString waitedMs ++ "ms joining on " ++ thread.name, -1⟩

/-- `Join`, if it returns within the given number of rounds -/
def join (rounds : ℕ) : Option Status :=
  if thread.isSelf then some (.bad ⟨.invalidArgument, BadStatus.joined "Can't join on own thread" thread.name, -1⟩)
  else if thread.joinable = false then some .ok
  else
    match stateAfter joiner thread rounds with
    | .joined => some .ok
    | .gaveUp waitedMs => some (timedOut thread waitedMs)
    | _ => none

/-- the loop gives up after the time, and `Join` says so -/
def GivesUpAfter (waitedMs : ℤ) : Prop :=
  ∃ rounds, stateAfter joiner thread rounds = .gaveUp waitedMs ∧
    (thread.isSelf = false → thread.joinable = true → join joiner thread rounds = some (timedOut thread waitedMs))

/-- in every round that the loop reaches no int overflows, and the wait is positive unless the time to give up has come;
and a thread that is not done by that time is given up then -/
def SoundLoop : Prop :=
  (∀ rounds waitedMs, stateAfter joiner thread rounds = .looping waitedMs →
    ∃ r, round joiner thread waitedMs = some r ∧ (0 < r.1 ∨ waitedMs = joiner.giveUpAfterMs)) ∧
  (0 ≤ joiner.giveUpAfterMs → ¬thread.DoneBy joiner.giveUpAfterMs →
    GivesUpAfter joiner thread joiner.giveUpAfterMs)

/-- `Join` does not return before its loop -/
def Thread.Waits (thread : Thread) : Prop := thread.isSelf = false ∧ thread.joinable = true

instance (thread : Thread) : Decidable thread.Waits := inferInstanceAs (Decidable (_ ∧ _))

/-- the loop is sound if `Join` runs it -/
def Sound : Prop := thread.Waits → SoundLoop joiner thread

/-- the time of the first warning that an int does not hold -/
def overflowAt (joiner : ThreadJoiner) : ℤ :=
  joiner.warnAfterMs + ((int32Max - joiner.warnAfterMs) / joiner.warnEveryMs + 1) * joiner.warnEveryMs

/-! ## Rounds -/

variable {joiner thread} {waited : ℤ}

/-- the time until `Join` gives up -/
def untilGiveUp (joiner : ThreadJoiner) (waited : ℤ) : ℤ :=
  if joiner.giveUpAfterMs = -1 then int32Max else joiner.giveUpAfterMs - waited

/-- the time until the next warning -/
def untilWarn (joiner : ThreadJoiner) (waited : ℤ) : ℤ :=
  if waited < joiner.warnAfterMs then joiner.warnAfterMs - waited else joiner.warnEveryMs

def waitFor (joiner : ThreadJoiner) (waited : ℤ) : ℤ := min (untilGiveUp joiner waited) (untilWarn joiner waited)

/-- the time to give up has not passed -/
def Trying (joiner : ThreadJoiner) (waited : ℤ) : Prop :=
  0 ≤ waited ∧ (joiner.giveUpAfterMs ≠ -1 → waited ≤ joiner.giveUpAfterMs)

theorem Trying.untilGiveUp_nonneg (h : Trying joiner waited) : 0 ≤ untilGiveUp joiner waited := by
  have hmax : int32Max = 2 ^ 31 - 1 := rfl
  unfold untilGiveUp
  split_ifs with hforever
  · omega
  · exact sub_nonneg.2 (h.2 hforever)

theorem Trying.waitFor_nonneg (h : Trying joiner waited) : 0 ≤ waitFor joiner waited := by
  have hevery := joiner.warnEvery_nonneg
  apply le_min h.untilGiveUp_nonneg
  unfold untilWarn
  split_ifs <;> omega

/-- **A round** before the time to give up: only the sum can overflow. -/
theorem round_eq (h : Trying joiner waited) :
    round joiner thread waited =
      if thread.DoneBy (waited + waitFor joiner waited) then some (waitFor joiner waited, .joined)
      else if waited + waitFor joiner waited ≤ int32Max then
        some (waitFor joiner waited, if untilGiveUp joiner waited < untilWarn joiner waited then
          .gaveUp (waited + waitFor joiner waited) else .looping (waited + waitFor joiner waited))
      else none := by
  have hwait := h.waitFor_nonneg
  obtain ⟨hnonneg, hle⟩ := h
  have hgiveUp : (if joiner.giveUpAfterMs ≠ -1 then checkInt (joiner.giveUpAfterMs - waited) else some int32Max) =
      some (untilGiveUp joiner waited) := by
    have hbound := joiner.giveUp_le
    unfold untilGiveUp
    by_cases hforever : joiner.giveUpAfterMs = -1
    · rw [if_neg (not_not.2 hforever), if_pos hforever]
    · have hbefore := hle hforever
      rw [if_pos hforever, if_neg hforever]
      exact checkInt_eq_some.2 ⟨⟨by omega, by omega⟩, rfl⟩
  have hwarn : (if waited < joiner.warnAfterMs then checkInt (joiner.warnAfterMs - waited)
      else some joiner.warnEveryMs) = some (untilWarn joiner waited) := by
    have hbound := joiner.warnAfter_le
    unfold untilWarn
    split_ifs with hw
    · exact checkInt_eq_some.2 ⟨⟨by omega, by omega⟩, rfl⟩
    · rfl
  rw [round, hgiveUp, Option.bind_some, hwarn, Option.bind_some]
  have hmin : min (untilGiveUp joiner waited) (untilWarn joiner waited) = waitFor joiner waited := rfl
  simp only [hmin]
  by_cases hdone : thread.DoneBy (waited + waitFor joiner waited)
  · rw [if_pos hdone, if_pos hdone]
  rw [if_neg hdone, if_neg hdone]
  by_cases hfits : waited + waitFor joiner waited ≤ int32Max
  · rw [checkInt_eq_some.2 ⟨⟨by omega, hfits⟩, rfl⟩, Option.map_some, if_pos hfits]
    by_cases hstop : untilGiveUp joiner waited < untilWarn joiner waited
    · rw [if_pos hstop, if_neg (not_not.2 hstop)]
    · rw [if_neg hstop, if_pos hstop]
  · rw [checkInt, if_neg fun h => hfits h.2, if_neg hfits, Option.map_none]

theorem stateAfter_succ (rounds : ℕ) :
    stateAfter joiner thread (rounds + 1) = next joiner thread (stateAfter joiner thread rounds) :=
  Function.iterate_succ_apply' _ _ _

theorem GivesUpAfter.of_state {rounds : ℕ} (h : stateAfter joiner thread rounds = .gaveUp waited) :
    GivesUpAfter joiner thread waited := by
  refine ⟨rounds, h, fun hself hjoinable => ?_⟩
  rw [join, h, hself, hjoinable]
  rfl

theorem trying_zero (joiner : ThreadJoiner) : Trying joiner 0 := by
  have hge := joiner.giveUp_ge
  exact ⟨le_rfl, fun hne => by omega⟩

/-- what a round leads to, if it goes on -/
theorem looping_of_round (h : Trying joiner waited) {waited' : ℤ}
    (hnext : next joiner thread (.looping waited) = .looping waited') :
    waited' = waited + waitFor joiner waited ∧ ¬thread.DoneBy waited' ∧ waited' ≤ int32Max ∧
      untilWarn joiner waited ≤ untilGiveUp joiner waited := by
  rw [next, round_eq h] at hnext
  split_ifs at hnext with hdone hfits hstop
  · cases hnext
  · cases hnext
  · cases hnext
    exact ⟨rfl, hdone, hfits, not_lt.1 hstop⟩
  · cases hnext

/-- a loop that goes on went on before -/
theorem exists_before {rounds : ℕ} (h : stateAfter joiner thread (rounds + 1) = .looping waited) :
    ∃ before, stateAfter joiner thread rounds = .looping before ∧
      next joiner thread (.looping before) = .looping waited := by
  rw [stateAfter_succ] at h
  cases hstate : stateAfter joiner thread rounds with
  | looping before => exact ⟨before, rfl, hstate ▸ h⟩
  | joined =>
    rw [hstate] at h
    cases h
  | gaveUp _ =>
    rw [hstate] at h
    cases h
  | overflow =>
    rw [hstate] at h
    cases h

/-- the loop does not pass the time to give up -/
theorem trying_of_looping {rounds : ℕ} (h : stateAfter joiner thread rounds = .looping waited) :
    Trying joiner waited := by
  induction rounds generalizing waited with
  | zero =>
    obtain rfl : 0 = waited := State.looping.inj h
    exact trying_zero joiner
  | succ rounds ih =>
    obtain ⟨before, hstate, hnext⟩ := exists_before h
    have hbefore := ih hstate
    obtain ⟨rfl, -, -, -⟩ := looping_of_round hbefore hnext
    refine ⟨add_nonneg hbefore.1 hbefore.waitFor_nonneg, fun hne => ?_⟩
    have hle : waitFor joiner before ≤ untilGiveUp joiner before := min_le_left _ _
    rw [untilGiveUp, if_neg hne] at hle
    omega

theorem Thread.DoneBy.mono {time time' : ℤ} (h : thread.DoneBy time) (hle : time ≤ time') : thread.DoneBy time' := by
  obtain ⟨d, hd, hdone⟩ := h
  exact ⟨d, hd, hdone.trans hle⟩

/-- the three ways in which a round ends -/
theorem next_joined (h : Trying joiner waited) (hdone : thread.DoneBy (waited + waitFor joiner waited)) :
    next joiner thread (.looping waited) = .joined := by
  rw [next, round_eq h, if_pos hdone]
  rfl

theorem next_gaveUp (h : Trying joiner waited) (hdone : ¬thread.DoneBy (waited + waitFor joiner waited))
    (hfits : waited + waitFor joiner waited ≤ int32Max) (hstop : untilGiveUp joiner waited < untilWarn joiner waited) :
    next joiner thread (.looping waited) = .gaveUp (waited + waitFor joiner waited) := by
  rw [next, round_eq h, if_neg hdone, if_pos hfits, if_pos hstop]
  rfl

theorem next_looping (h : Trying joiner waited) (hdone : ¬thread.DoneBy (waited + waitFor joiner waited))
    (hfits : waited + waitFor joiner waited ≤ int32Max) (hgo : untilWarn joiner waited ≤ untilGiveUp joiner waited) :
    next joiner thread (.looping waited) = .looping (waited + waitFor joiner waited) := by
  rw [next, round_eq h, if_neg hdone, if_pos hfits, if_neg (not_lt.2 hgo)]
  rfl

/-- a round that does not overflow -/
theorem round_some (h : Trying joiner waited)
    (hfits : waited + waitFor joiner waited ≤ int32Max ∨ thread.DoneBy (waited + waitFor joiner waited)) :
    ∃ r, round joiner thread waited = some r ∧ r.1 = waitFor joiner waited := by
  rw [round_eq h]
  by_cases hdone : thread.DoneBy (waited + waitFor joiner waited)
  · exact ⟨_, if_pos hdone, rfl⟩
  · rw [if_neg hdone, if_pos (hfits.resolve_right hdone)]
    exact ⟨_, rfl, rfl⟩

/-- what soundness says of a round that is reached -/
theorem SoundLoop.wait (h : SoundLoop joiner thread) {rounds : ℕ} (hstate : stateAfter joiner thread rounds = .looping waited) :
    (waited + waitFor joiner waited ≤ int32Max ∨ thread.DoneBy (waited + waitFor joiner waited)) ∧
      (0 < waitFor joiner waited ∨ waited = joiner.giveUpAfterMs) := by
  obtain ⟨r, hr, hpos⟩ := h.1 rounds waited hstate
  rw [round_eq (trying_of_looping hstate)] at hr
  split_ifs at hr with hdone hfits hstop
  · obtain rfl := Option.some.inj hr
    exact ⟨Or.inr hdone, hpos⟩
  · obtain rfl := Option.some.inj hr
    exact ⟨Or.inl hfits, hpos⟩
  · obtain rfl := Option.some.inj hr
    exact ⟨Or.inl hfits, hpos⟩

/-- if the first round ends the loop, no other is reached -/
theorem first_only (h : ∀ w, stateAfter joiner thread 1 ≠ .looping w) {rounds : ℕ}
    (hstate : stateAfter joiner thread rounds = .looping waited) : waited = 0 := by
  have hend : ∀ rounds, stateAfter joiner thread (rounds + 1) = stateAfter joiner thread 1 := by
    intro rounds
    induction rounds with
    | zero => rfl
    | succ rounds ih =>
      rw [stateAfter_succ, ih]
      cases hfirst : stateAfter joiner thread 1 with
      | looping w => exact absurd hfirst (h w)
      | joined => rfl
      | gaveUp w => rfl
      | overflow => rfl
  cases rounds with
  | zero =>
    cases hstate
    rfl
  | succ rounds =>
    rw [hend] at hstate
    exact absurd hstate (h waited)

/-! ## With a warning interval -/

theorem untilWarn_pos (hevery : 0 < joiner.warnEveryMs) (waited : ℤ) : 0 < untilWarn joiner waited := by
  unfold untilWarn
  split_ifs <;> omega

theorem waitFor_pos (hevery : 0 < joiner.warnEveryMs) (h : Trying joiner waited) (hne : waited ≠ joiner.giveUpAfterMs) :
    0 < waitFor joiner waited := by
  have hmax : int32Max = 2 ^ 31 - 1 := rfl
  apply lt_min _ (untilWarn_pos hevery waited)
  unfold untilGiveUp
  split_ifs with hforever
  · omega
  · have hle := h.2 hforever
    omega

theorem add_waitFor_le (hlimit : joiner.giveUpAfterMs ≠ -1) (waited : ℤ) :
    waited + waitFor joiner waited ≤ joiner.giveUpAfterMs := by
  have hle : waitFor joiner waited ≤ untilGiveUp joiner waited := min_le_left _ _
  rw [untilGiveUp, if_neg hlimit] at hle
  omega

/-- **The loop ends** at the time to give up. -/
theorem stateAfter_gives_up (hevery : 0 < joiner.warnEveryMs) (hlimit : joiner.giveUpAfterMs ≠ -1)
    (hdone : ¬thread.DoneBy joiner.giveUpAfterMs) {rounds : ℕ} (h : stateAfter joiner thread rounds = .looping waited) :
    GivesUpAfter joiner thread joiner.giveUpAfterMs := by
  induction hleft : (joiner.giveUpAfterMs - waited).toNat using Nat.strong_induction_on generalizing waited rounds with
  | _ left ih =>
    have htrying := trying_of_looping h
    have hle := add_waitFor_le hlimit waited
    have hnot : ¬thread.DoneBy (waited + waitFor joiner waited) := fun hd => hdone (hd.mono hle)
    have hfits := hle.trans joiner.giveUp_le
    rcases lt_or_ge (untilGiveUp joiner waited) (untilWarn joiner waited) with hstop | hgo
    · have hwait : waitFor joiner waited = joiner.giveUpAfterMs - waited := by
        rw [waitFor, min_eq_left hstop.le, untilGiveUp, if_neg hlimit]
      have hstep : stateAfter joiner thread (rounds + 1) = .gaveUp joiner.giveUpAfterMs := by
        rw [stateAfter_succ, h, next_gaveUp htrying hnot hfits hstop, hwait, add_sub_cancel]
      exact .of_state hstep
    · have hpos := untilWarn_pos hevery waited
      have hwait : waitFor joiner waited = untilWarn joiner waited := min_eq_right hgo
      have hstep : stateAfter joiner thread (rounds + 1) = .looping (waited + waitFor joiner waited) := by
        rw [stateAfter_succ, h, next_looping htrying hnot hfits hgo]
      exact ih _ (by omega) hstep rfl

theorem sound_of_limit (hevery : 0 < joiner.warnEveryMs) (hlimit : joiner.giveUpAfterMs ≠ -1) : SoundLoop joiner thread := by
  have hstart : stateAfter joiner thread 0 = .looping 0 := rfl
  refine ⟨fun rounds waited h => ?_, fun _ hdone => stateAfter_gives_up hevery hlimit hdone hstart⟩
  have htrying := trying_of_looping h
  obtain ⟨r, hr, hwait⟩ := round_some htrying (Or.inl ((add_waitFor_le hlimit waited).trans joiner.giveUp_le))
  refine ⟨r, hr, ?_⟩
  by_cases hend : waited = joiner.giveUpAfterMs
  · exact Or.inr hend
  · exact Or.inl (hwait ▸ waitFor_pos hevery htrying hend)

/-! ## Without a time to give up -/

theorem int32Max_lt_overflowAt (hevery : 0 < joiner.warnEveryMs) : int32Max < overflowAt joiner := by
  have hlt := Int.lt_ediv_add_one_mul_self (int32Max - joiner.warnAfterMs) hevery
  rw [overflowAt]
  linarith

section Forever

variable (hforever : joiner.giveUpAfterMs = -1)
include hforever

theorem waitFor_after (hle : joiner.warnAfterMs ≤ waited) : waitFor joiner waited = joiner.warnEveryMs := by
  rw [waitFor, untilGiveUp, if_pos hforever, untilWarn, if_neg (not_lt.2 hle)]
  exact min_eq_right joiner.warnEvery_le

theorem waitFor_before (hnonneg : 0 ≤ waited) (hlt : waited < joiner.warnAfterMs) :
    waitFor joiner waited = joiner.warnAfterMs - waited := by
  have hbound := joiner.warnAfter_le
  rw [waitFor, untilGiveUp, if_pos hforever, untilWarn, if_pos hlt]
  exact min_eq_right (by omega)

theorem untilWarn_le_max (h : 0 ≤ waited) : untilWarn joiner waited ≤ untilGiveUp joiner waited := by
  have hafter := joiner.warnAfter_le
  have hevery := joiner.warnEvery_le
  rw [untilGiveUp, if_pos hforever, untilWarn]
  split_ifs <;> omega

/-- the loop goes on as long as the thread is not done and the sum fits -/
theorem stateAfter_goes_on {rounds : ℕ} (h : stateAfter joiner thread rounds = .looping waited)
    (hdone : ¬thread.DoneBy (waited + waitFor joiner waited)) (hfits : waited + waitFor joiner waited ≤ int32Max) :
    stateAfter joiner thread (rounds + 1) = .looping (waited + waitFor joiner waited) := by
  have htrying := trying_of_looping h
  rw [stateAfter_succ, h, next_looping htrying hdone hfits (untilWarn_le_max hforever htrying.1)]

/-- after the first warning the loop waits for whole intervals -/
theorem exists_intervals {rounds : ℕ} (h : stateAfter joiner thread rounds = .looping waited)
    (hle : joiner.warnAfterMs ≤ waited) : ∃ j : ℕ, waited = joiner.warnAfterMs + j * joiner.warnEveryMs := by
  induction rounds generalizing waited with
  | zero =>
    obtain rfl : 0 = waited := State.looping.inj h
    refine ⟨0, ?_⟩
    have hzero : joiner.warnAfterMs = 0 := le_antisymm hle joiner.warnAfter_nonneg
    rw [hzero, Nat.cast_zero, zero_mul, add_zero]
  | succ rounds ih =>
    obtain ⟨before, hstate, hnext⟩ := exists_before h
    have htrying := trying_of_looping hstate
    obtain ⟨rfl, -, -, -⟩ := looping_of_round htrying hnext
    rcases lt_or_ge before joiner.warnAfterMs with hbefore | hafter
    · refine ⟨0, ?_⟩
      rw [waitFor_before hforever htrying.1 hbefore, add_sub_cancel, Nat.cast_zero, zero_mul, add_zero]
    · obtain ⟨j, hj⟩ := ih hstate hafter
      refine ⟨j + 1, ?_⟩
      rw [waitFor_after hforever hafter, hj, Nat.cast_succ]
      ring

variable (hevery : 0 < joiner.warnEveryMs)
include hevery

/-- a sum that does not fit is at least the one that overflows first -/
theorem overflowAt_le {rounds : ℕ} (h : stateAfter joiner thread rounds = .looping waited)
    (hbig : int32Max < waited + waitFor joiner waited) : overflowAt joiner ≤ waited + waitFor joiner waited := by
  have htrying := trying_of_looping h
  have hbound := joiner.warnAfter_le
  have hle : joiner.warnAfterMs ≤ waited := by
    by_contra hlt
    rw [waitFor_before hforever htrying.1 (not_le.1 hlt)] at hbig
    omega
  obtain ⟨j, hj⟩ := exists_intervals hforever h hle
  rw [waitFor_after hforever hle, hj] at hbig
  have hcount : (int32Max - joiner.warnAfterMs) / joiner.warnEveryMs < j + 1 := by
    apply Int.ediv_lt_of_lt_mul hevery
    linarith
  have hmul : ((int32Max - joiner.warnAfterMs) / joiner.warnEveryMs + 1) * joiner.warnEveryMs ≤
      (j + 1) * joiner.warnEveryMs := mul_le_mul_of_nonneg_right hcount hevery.le
  rw [waitFor_after hforever hle, hj, overflowAt]
  linarith

/-- from one warning to the next -/
theorem add_waitFor_interval (j : ℕ) :
    joiner.warnAfterMs + j * joiner.warnEveryMs + waitFor joiner (joiner.warnAfterMs + j * joiner.warnEveryMs) =
      joiner.warnAfterMs + (j + 1 : ℕ) * joiner.warnEveryMs := by
  have hle : joiner.warnAfterMs ≤ joiner.warnAfterMs + j * joiner.warnEveryMs := by
    have hmul : 0 ≤ (j : ℤ) * joiner.warnEveryMs := by positivity
    linarith
  rw [waitFor_after hforever hle, Nat.cast_succ]
  ring

/-- a thread that is not done lets the loop come to every warning that an int holds -/
theorem reaches_interval (hdone : ¬thread.DoneBy (overflowAt joiner)) (j : ℕ)
    (hj : (j : ℤ) ≤ (int32Max - joiner.warnAfterMs) / joiner.warnEveryMs) :
    ∃ rounds, stateAfter joiner thread rounds = .looping (joiner.warnAfterMs + j * joiner.warnEveryMs) := by
  have hafter := joiner.warnAfter_nonneg
  have hover := int32Max_lt_overflowAt hevery
  have hnot : ∀ {time : ℤ}, time ≤ int32Max → ¬thread.DoneBy time :=
    fun hle hd => hdone (hd.mono (hle.trans hover.le))
  induction j with
  | zero =>
    rw [Nat.cast_zero, zero_mul, add_zero]
    have hstart : stateAfter joiner thread 0 = .looping 0 := rfl
    rcases hafter.eq_or_lt with hzero | hpos
    · exact ⟨0, by rw [hstart, hzero]⟩
    · have hwait : 0 + waitFor joiner 0 = joiner.warnAfterMs := by
        rw [waitFor_before hforever le_rfl hpos, add_sub_cancel]
      have hfits : 0 + waitFor joiner 0 ≤ int32Max := hwait.le.trans joiner.warnAfter_le
      exact ⟨1, by rw [stateAfter_goes_on hforever hstart (hnot hfits) hfits, hwait]⟩
  | succ j ih =>
    rw [Nat.cast_succ] at hj
    obtain ⟨rounds, hstate⟩ := ih (by omega)
    have hsum := add_waitFor_interval hforever hevery j
    have hfits : joiner.warnAfterMs + (j + 1 : ℕ) * joiner.warnEveryMs ≤ int32Max := by
      have hmul := (Int.le_ediv_iff_mul_le hevery).1 hj
      rw [Nat.cast_succ]
      linarith
    refine ⟨rounds + 1, ?_⟩
    rw [stateAfter_goes_on hforever hstate (hsum ▸ hnot hfits) (hsum ▸ hfits), hsum]

theorem sound_forever_iff : SoundLoop joiner thread ↔ thread.DoneBy (overflowAt joiner) := by
  constructor
  · intro h
    by_contra hdone
    have hnonneg : 0 ≤ (int32Max - joiner.warnAfterMs) / joiner.warnEveryMs :=
      Int.ediv_nonneg (sub_nonneg.2 joiner.warnAfter_le) hevery.le
    obtain ⟨last, hlast⟩ := Int.eq_ofNat_of_zero_le hnonneg
    obtain ⟨rounds, hstate⟩ := reaches_interval hforever hevery hdone last hlast.ge
    have hsum : joiner.warnAfterMs + last * joiner.warnEveryMs +
        waitFor joiner (joiner.warnAfterMs + last * joiner.warnEveryMs) = overflowAt joiner := by
      rw [add_waitFor_interval hforever hevery, overflowAt, hlast, Nat.cast_succ]
    obtain ⟨hfits | hthread, -⟩ := h.wait hstate
    · have hover := int32Max_lt_overflowAt hevery
      omega
    · exact hdone (hsum ▸ hthread)
  · intro hdone
    refine ⟨fun rounds waited h => ?_, fun hnonneg => ?_⟩
    · have htrying := trying_of_looping h
      have hne : waited ≠ joiner.giveUpAfterMs := by
        have hnonneg := htrying.1
        omega
      have hok : waited + waitFor joiner waited ≤ int32Max ∨ thread.DoneBy (waited + waitFor joiner waited) := by
        rcases le_or_gt (waited + waitFor joiner waited) int32Max with hfits | hbig
        · exact Or.inl hfits
        · exact Or.inr (hdone.mono (overflowAt_le hforever hevery h hbig))
      obtain ⟨r, hr, hwait⟩ := round_some htrying hok
      exact ⟨r, hr, Or.inl (hwait ▸ waitFor_pos hevery htrying hne)⟩
    · omega

end Forever

/-! ## Without a warning interval -/

section NoInterval

variable (hevery : joiner.warnEveryMs = 0)
include hevery

theorem untilWarn_zero : untilWarn joiner 0 = joiner.warnAfterMs := by
  have hafter := joiner.warnAfter_nonneg
  unfold untilWarn
  split_ifs <;> omega

theorem untilWarn_warned : untilWarn joiner joiner.warnAfterMs = 0 := by
  rw [untilWarn, if_neg (lt_irrefl _), hevery]

/-- the wait after the warning is empty -/
theorem waitFor_warned (h : Trying joiner joiner.warnAfterMs) : waitFor joiner joiner.warnAfterMs = 0 :=
  le_antisymm ((min_le_right _ _).trans (untilWarn_warned hevery).le) h.waitFor_nonneg

/-- the loop gives up in its first round -/
theorem sound_of_giveUp_first (hnonneg : 0 ≤ joiner.giveUpAfterMs) (hlt : joiner.giveUpAfterMs < joiner.warnAfterMs) :
    SoundLoop joiner thread := by
  have htrying := trying_zero joiner
  have hlimit : joiner.giveUpAfterMs ≠ -1 := by omega
  have hgiveUp : untilGiveUp joiner 0 = joiner.giveUpAfterMs := by
    rw [untilGiveUp, if_neg hlimit, sub_zero]
  have hstop : untilGiveUp joiner 0 < untilWarn joiner 0 := by
    rwa [hgiveUp, untilWarn_zero hevery]
  have hsum : 0 + waitFor joiner 0 = joiner.giveUpAfterMs := by
    rw [zero_add, waitFor, min_eq_left hstop.le, hgiveUp]
  have hfits : 0 + waitFor joiner 0 ≤ int32Max := hsum.le.trans joiner.giveUp_le
  have hfirst : stateAfter joiner thread 1 = next joiner thread (.looping 0) := rfl
  refine ⟨fun rounds waited h => ?_, fun _ hdone => ?_⟩
  · have hends : ∀ w, stateAfter joiner thread 1 ≠ .looping w := by
      intro w hw
      obtain ⟨-, -, -, hgo⟩ := looping_of_round htrying (hfirst ▸ hw)
      omega
    obtain rfl := first_only hends h
    obtain ⟨r, hr, hwait⟩ := round_some htrying (Or.inl hfits)
    exact ⟨r, hr, by omega⟩
  · have hnot : ¬thread.DoneBy (0 + waitFor joiner 0) := hsum ▸ hdone
    have hstate : stateAfter joiner thread 1 = .gaveUp joiner.giveUpAfterMs := by
      rw [hfirst, next_gaveUp htrying hnot hfits hstop, hsum]
    exact .of_state hstate

variable (hlimit : joiner.giveUpAfterMs = -1 ∨ joiner.warnAfterMs ≤ joiner.giveUpAfterMs)
include hlimit

theorem untilWarn_zero_le : untilWarn joiner 0 ≤ untilGiveUp joiner 0 := by
  have hbound := joiner.warnAfter_le
  have hafter := joiner.warnAfter_nonneg
  rw [untilWarn_zero hevery, untilGiveUp]
  split_ifs <;> omega

/-- the first wait is the one until the warning -/
theorem zero_add_waitFor : 0 + waitFor joiner 0 = joiner.warnAfterMs := by
  rw [zero_add, waitFor, min_eq_right (untilWarn_zero_le hevery hlimit), untilWarn_zero hevery]

/-- the thread is done in the first round -/
theorem sound_of_done_first (hdone : thread.DoneBy joiner.warnAfterMs)
    (hstart : joiner.giveUpAfterMs = joiner.warnAfterMs ∨ 0 < joiner.warnAfterMs) : SoundLoop joiner thread := by
  have htrying := trying_zero joiner
  have hsum := zero_add_waitFor hevery hlimit
  have hjoined : thread.DoneBy (0 + waitFor joiner 0) := hsum ▸ hdone
  refine ⟨fun rounds waited h => ?_, fun hnonneg hnot => ?_⟩
  · have hends : ∀ w, stateAfter joiner thread 1 ≠ .looping w := by
      intro w hw
      have hfirst : next joiner thread (.looping 0) = .looping w := hw
      rw [next_joined htrying hjoined] at hfirst
      cases hfirst
    obtain rfl := first_only hends h
    obtain ⟨r, hr, hwait⟩ := round_some htrying (Or.inr hjoined)
    have hafter := joiner.warnAfter_nonneg
    exact ⟨r, hr, by omega⟩
  · exact absurd (hdone.mono (by omega)) hnot

/-- a thread that is not done when it is warned about is waited for in vain, for no time or forever -/
theorem not_sound_of_warned (hdone : ¬thread.DoneBy joiner.warnAfterMs) : ¬SoundLoop joiner thread := by
  intro h
  have hsum := zero_add_waitFor hevery hlimit
  have hnot : ¬thread.DoneBy (0 + waitFor joiner 0) := hsum ▸ hdone
  have hfits : 0 + waitFor joiner 0 ≤ int32Max := hsum.le.trans joiner.warnAfter_le
  have hfirst : stateAfter joiner thread 1 = .looping joiner.warnAfterMs := by
    have hnext := next_looping (trying_zero joiner) hnot hfits (untilWarn_zero_le hevery hlimit)
    rwa [hsum] at hnext
  have htrying := trying_of_looping hfirst
  have hempty := waitFor_warned hevery htrying
  have hgiveUp : joiner.warnAfterMs = joiner.giveUpAfterMs := by
    obtain ⟨-, hpos | heq⟩ := h.wait hfirst
    · omega
    · exact heq
  -- from the warning on, every round leads to the next
  have hspins : ∀ rounds, stateAfter joiner thread (rounds + 1) = .looping joiner.warnAfterMs := by
    intro rounds
    induction rounds with
    | zero => exact hfirst
    | succ rounds ih =>
      have hsame : joiner.warnAfterMs + waitFor joiner joiner.warnAfterMs = joiner.warnAfterMs := by
        rw [hempty, add_zero]
      have hgo : untilWarn joiner joiner.warnAfterMs ≤ untilGiveUp joiner joiner.warnAfterMs :=
        (untilWarn_warned hevery).le.trans htrying.untilGiveUp_nonneg
      have hfits : joiner.warnAfterMs + waitFor joiner joiner.warnAfterMs ≤ int32Max :=
        hsame.le.trans joiner.warnAfter_le
      rw [stateAfter_succ, ih, next_looping htrying (hsame.symm ▸ hdone) hfits hgo, hsame]
  have hnonneg : 0 ≤ joiner.giveUpAfterMs := hgiveUp ▸ joiner.warnAfter_nonneg
  obtain ⟨rounds, hend, -⟩ := h.2 hnonneg (hgiveUp ▸ hdone)
  cases rounds with
  | zero => cases hend
  | succ rounds =>
    rw [hspins] at hend
    cases hend

end NoInterval

/-! ## All settings -/

/-- the loop: with a warning interval, there is a time to give up, or the thread is done before the sum overflows; without
one, the time to give up comes before the warning, or the thread is done before the warning -/
theorem soundLoop_iff (joiner : ThreadJoiner) (thread : Thread) :
    SoundLoop joiner thread ↔
      if 0 < joiner.warnEveryMs then joiner.giveUpAfterMs ≠ -1 ∨ thread.DoneBy (overflowAt joiner)
      else
        (0 ≤ joiner.giveUpAfterMs ∧ joiner.giveUpAfterMs < joiner.warnAfterMs) ∨
        (thread.DoneBy joiner.warnAfterMs ∧
          (joiner.giveUpAfterMs = joiner.warnAfterMs ∨ 0 < joiner.warnAfterMs)) := by
  have hge := joiner.giveUp_ge
  have hnonneg := joiner.warnEvery_nonneg
  by_cases hevery : 0 < joiner.warnEveryMs
  · rw [if_pos hevery]
    by_cases hforever : joiner.giveUpAfterMs = -1
    · rw [sound_forever_iff hforever hevery]
      exact ⟨Or.inr, fun h => h.resolve_left (not_not.2 hforever)⟩
    · exact iff_of_true (sound_of_limit hevery hforever) (Or.inl hforever)
  rw [if_neg hevery]
  have hnone : joiner.warnEveryMs = 0 := by omega
  by_cases hbefore : 0 ≤ joiner.giveUpAfterMs ∧ joiner.giveUpAfterMs < joiner.warnAfterMs
  · exact iff_of_true (sound_of_giveUp_first hnone hbefore.1 hbefore.2) (Or.inl hbefore)
  have hlimit : joiner.giveUpAfterMs = -1 ∨ joiner.warnAfterMs ≤ joiner.giveUpAfterMs := by omega
  constructor
  · intro h
    have hdone : thread.DoneBy joiner.warnAfterMs := by
      by_contra hnot
      exact not_sound_of_warned hnone hlimit hnot h
    have hstart : stateAfter joiner thread 0 = .looping 0 := rfl
    have hsum := zero_add_waitFor hnone hlimit
    have hafter := joiner.warnAfter_nonneg
    obtain ⟨-, hpos⟩ := h.wait hstart
    exact Or.inr ⟨hdone, by omega⟩
  · rintro (h | ⟨hdone, hstart⟩)
    · exact absurd h hbefore
    · exact sound_of_done_first hnone hlimit hdone hstart

/-- **The accounting is right** exactly as follows. The thread is the joining one or not joinable, or with a warning interval
there is a time to give up or the thread is done before the sum overflows, or without one the time to give up comes before
the warning or the thread is done before the warning. -/
theorem join_exact (joiner : ThreadJoiner) (thread : Thread) :
    Sound joiner thread ↔
      (thread.isSelf = true ∨ thread.joinable = false) ∨
      if 0 < joiner.warnEveryMs then joiner.giveUpAfterMs ≠ -1 ∨ thread.DoneBy (overflowAt joiner)
      else
        (0 ≤ joiner.giveUpAfterMs ∧ joiner.giveUpAfterMs < joiner.warnAfterMs) ∨
        (thread.DoneBy joiner.warnAfterMs ∧
          (joiner.giveUpAfterMs = joiner.warnAfterMs ∨ 0 < joiner.warnAfterMs)) := by
  have hwaits : ¬thread.Waits ↔ thread.isSelf = true ∨ thread.joinable = false := by
    rw [Thread.Waits, not_and_or, Bool.not_eq_false, Bool.not_eq_true]
  rw [Sound, soundLoop_iff, imp_iff_not_or, hwaits]

/-- a joiner after `warn_after_ms`, `warn_every_ms` and `give_up_after_ms` -/
def configured (warnAfterMs warnEveryMs giveUpAfterMs : ℤ)
    (h : (0 ≤ warnAfterMs ∧ warnAfterMs ≤ int32Max) ∧ (0 ≤ warnEveryMs ∧ warnEveryMs ≤ int32Max) ∧
      -1 ≤ giveUpAfterMs ∧ giveUpAfterMs ≤ int32Max) : ThreadJoiner :=
  ⟨warnAfterMs, warnEveryMs, giveUpAfterMs, h.1.1, h.1.2, h.2.1.1, h.2.1.2, h.2.2.1, h.2.2.2⟩

/-- the settings of a caller that wants no second warning -/
def oneWarning : ThreadJoiner := configured 1000 0 5000 (by decide)

/-- the default settings -/
def defaults : ThreadJoiner := configured 1000 1000 (-1) (by decide)

/-- an acceptor thread that does not return -/
def acceptor : Thread := ⟨"acceptor", false, true, none⟩

/-- **Empty waits and an overflow**: after the warning the loop waits for no time; and with the default settings the sum
overflows. -/
theorem join_broken : ¬Sound oneWarning acceptor ∧ ¬Sound defaults acceptor := by
  have hnever : ∀ time, ¬acceptor.DoneBy time := by
    rintro time ⟨d, hd, -⟩
    cases hd
  constructor
  · exact fun h => not_sound_of_warned rfl (Or.inr (by decide)) (hnever _) (h (by decide))
  · exact fun h => hnever _ ((sound_forever_iff rfl (by decide)).1 (h (by decide)))

end Bboy.Join
