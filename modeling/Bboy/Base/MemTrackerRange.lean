/-
`Consume`, `Release` and `TryConsume` of `MemTracker` (`mem_tracker.cc`) with `HighWaterMark` (`high_water_mark.h`) on
`int64_t`, called by one thread. Sums and negations wrap around.

Model: the counters of a tree of trackers that does not change. `Consume` and `Release` call each other, so they have
fuel, and `none` is a call that has not returned. A GC function may do anything to the counters; no tracker has a
consumption function. `TryConsume` logs, newest first, each tracker it updated with the consumption before.

- `consume_exact`, `release_exact`: which calls return, and what they have changed.
- `honest_iff`, `honest_iff_nil`: when the trackers that `TryConsume` has updated had room for the bytes, with any GC
  functions and without.
- `range_exact`: all three, for every `int64_t`.
- `range_broken`: the least `int64_t`, and a sum that wraps around.
-/
import Bboy.Core.Forest

namespace Bboy.TrackerRange

open Core

/-! ## Model -/

structure HighWaterMark where
  currentValue : Int64
  maxValue : Int64
deriving DecidableEq, Repr

namespace HighWaterMark

def new (initialValue : Int64) : HighWaterMark := ⟨initialValue, initialValue⟩

/-- the current value becomes `v`, then `UpdateMax(v)` -/
def set (w : HighWaterMark) (v : Int64) : HighWaterMark := ⟨v, if w.maxValue < v then v else w.maxValue⟩

def incrementBy (w : HighWaterMark) (amount : Int64) : HighWaterMark := w.set (w.currentValue + amount)

def tryIncrementBy (w : HighWaterMark) (delta max : Int64) : Option HighWaterMark :=
  let newVal := w.currentValue + delta
  if max < newVal then none else some (w.set newVal)

end HighWaterMark

/-- trackers that are initialised -/
structure Tree (ι : Type) where
  nodes : Set ι
  parent : ι → Option ι
  /-- `all_trackers_` -/
  allTrackers : ι → List ι
  limit : ι → Int64
  forest : IsForest nodes parent allTrackers

variable {ι : Type} [DecidableEq ι]

/-- the members `consumption_` -/
abbrev Counters (ι : Type) := ι → HighWaterMark

def incrementBy (c : Counters ι) (t : ι) (amount : Int64) : Counters ι :=
  Function.update c t ((c t).incrementBy amount)

/-- a loop that increments the counters of a list of trackers -/
def incrementAll (c : Counters ι) (trackers : List ι) (amount : Int64) : Counters ι :=
  trackers.foldl (fun c t => incrementBy c t amount) c

mutual

def consume (T : Tree ι) (t : ι) : ℕ → Counters ι → Int64 → Option (Counters ι)
  | 0, _, _ => none
  | fuel + 1, c, bytes =>
    if bytes < 0 then release T t fuel c (-bytes)
    else if bytes = 0 then some c
    else some (incrementAll c (T.allTrackers t) bytes)

def release (T : Tree ι) (t : ι) : ℕ → Counters ι → Int64 → Option (Counters ι)
  | 0, _, _ => none
  | fuel + 1, c, bytes =>
    if bytes < 0 then consume T t fuel c (-bytes)
    else if bytes = 0 then some c
    else some (incrementAll c (T.allTrackers t) (-bytes))

end

/-- `gc_functions_` of each tracker -/
abbrev GcFunctions (ι : Type) := ι → List (Counters ι → Counters ι)

/-- the loop of `GcMemory` -/
def gcLoop (t : ι) (maxConsumption : Int64) : Counters ι → List (Counters ι → Counters ι) → Counters ι
  | c, [] => c
  | c, gcFunction :: more =>
    if (gcFunction c t).currentValue ≤ maxConsumption then gcFunction c
    else gcLoop t maxConsumption (gcFunction c) more

/-- true if the maximum is still exceeded; the first comparison is one of `uint64_t` -/
def gcMemory (gc : GcFunctions ι) (c : Counters ι) (t : ι) (maxConsumption : Int64) : Bool × Counters ι :=
  if maxConsumption < 0 then (true, c)
  else if (c t).currentValue.toUInt64 < maxConsumption.toUInt64 then (false, c)
  else
    let c := gcLoop t maxConsumption c (gc t)
    (decide (maxConsumption < (c t).currentValue), c)

/-- not implemented -/
def expandLimit (_bytes : Int64) : Bool := false

/-- `consumption_.TryIncrementBy(bytes, limit_)` -/
def tryIncrementBy (T : Tree ι) (c : Counters ι) (t : ι) (bytes : Int64) : Bool × Counters ι :=
  match (c t).tryIncrementBy bytes (T.limit t) with
  | some w => (true, Function.update c t w)
  | none => (false, c)

/-- one round of the loop of `TryConsume`: false for `break`, the consumption before the last try, and the counters -/
def tryUpdate (T : Tree ι) (gc : GcFunctions ι) (c : Counters ι) (t : ι) (bytes : Int64) : Bool × Int64 × Counters ι :=
  if T.limit t < 0 then (true, (c t).currentValue, incrementBy c t bytes)
  else
    let r := tryIncrementBy T c t bytes
    if r.1 then (true, (c t).currentValue, r.2)
    else
      let g := gcMemory gc c t (T.limit t - bytes)
      if !g.1 || expandLimit bytes then
        let r := tryIncrementBy T g.2 t bytes
        (r.1, (g.2 t).currentValue, r.2)
      else (false, (g.2 t).currentValue, g.2)

/-- the loop of `TryConsume` from the root down: whether all were updated, the log, and the counters -/
def tryLoop (T : Tree ι) (gc : GcFunctions ι) (bytes : Int64) :
    List (ι × Int64) → Counters ι → List ι → Bool × List (ι × Int64) × Counters ι
  | log, c, [] => (true, log, c)
  | log, c, t :: below =>
    let r := tryUpdate T gc c t bytes
    if r.1 then tryLoop T gc bytes ((t, r.2.1) :: log) r.2.2 below else (false, log, r.2.2)

def tryConsume (T : Tree ι) (gc : GcFunctions ι) (c : Counters ι) (t : ι) (bytes : Int64) :
    Bool × List (ι × Int64) × Counters ι :=
  if bytes ≤ 0 then (true, [], c)
  else
    let r := tryLoop T gc bytes [] c (T.allTrackers t).reverse
    if r.1 then r else (false, r.2.1, incrementAll r.2.2 (r.2.1.map Prod.fst).reverse (-bytes))

/-! ## What is claimed -/

/-- a call has changed every tracker of the chain by `amount`, where the sum fits, and no other tracker -/
def Changed (T : Tree ι) (c : Counters ι) (t : ι) (amount : ℤ) (c' : Counters ι) : Prop :=
  (∀ u ∈ T.allTrackers t, -2 ^ 63 ≤ (c u).currentValue.toInt + amount → (c u).currentValue.toInt + amount < 2 ^ 63 →
    (c' u).currentValue.toInt = (c u).currentValue.toInt + amount) ∧ ∀ u ∉ T.allTrackers t, c' u = c u

/-- `Consume` returns, and has added the bytes -/
def Consumes (T : Tree ι) (c : Counters ι) (t : ι) (bytes : Int64) : Prop :=
  ∃ fuel c', consume T t fuel c bytes = some c' ∧ Changed T c t bytes.toInt c'

/-- `Release` returns, and has subtracted the bytes -/
def Releases (T : Tree ι) (c : Counters ι) (t : ι) (bytes : Int64) : Prop :=
  ∃ fuel c', release T t fuel c bytes = some c' ∧ Changed T c t (-bytes.toInt) c'

/-- a tracker without a limit, or one that has room for the bytes -/
def HasRoom (T : Tree ι) (bytes : Int64) (e : ι × Int64) : Prop :=
  0 ≤ T.limit e.1 → e.2.toInt + bytes.toInt ≤ (T.limit e.1).toInt

/-- if `TryConsume` returns true, it has updated each tracker of the chain, and each had room -/
def Honest (T : Tree ι) (gc : GcFunctions ι) (c : Counters ι) (t : ι) (bytes : Int64) : Prop :=
  0 < bytes → (tryConsume T gc c t bytes).1 = true →
    (tryConsume T gc c t bytes).2.1.map Prod.fst = T.allTrackers t ∧
      ∀ e ∈ (tryConsume T gc c t bytes).2.1, HasRoom T bytes e

/-! ## Machine sums -/

variable {T : Tree ι} {gc : GcFunctions ι} {c c' : Counters ι} {t u : ι} {bytes a b : Int64} {trackers : List ι}

theorem toInt_add_of_fits (hle : -2 ^ 63 ≤ a.toInt + b.toInt) (hlt : a.toInt + b.toInt < 2 ^ 63) :
    (a + b).toInt = a.toInt + b.toInt := by
  rw [Int64.toInt_add]
  exact Int.bmod_eq_of_le (by omega) (by omega)

/-- a sum that is too large wraps around once -/
theorem toInt_add_of_over (h : 2 ^ 63 ≤ a.toInt + b.toInt) : (a + b).toInt = a.toInt + b.toInt - 2 ^ 64 := by
  have ha := a.toInt_lt
  have hb := b.toInt_lt
  rw [Int64.toInt_add, ← Int.sub_bmod_right]
  exact Int.bmod_eq_of_le (by omega) (by omega)

/-- only the least number is its own negation -/
theorem toInt_neg_of_ne (h : a ≠ Int64.minValue) : (-a).toInt = -a.toInt := by
  have hne : a.toInt ≠ -2 ^ 63 := fun heq => h (Int64.toInt_inj.1 heq)
  have hle := a.le_toInt
  have hlt := a.toInt_lt
  rw [Int64.toInt_neg]
  exact Int.bmod_eq_of_le (by omega) (by omega)

theorem toInt_pos (h : 0 < a) : 0 < a.toInt := by simpa [Int64.lt_iff_toInt_lt] using h

theorem toInt_nonneg : 0 ≤ a ↔ 0 ≤ a.toInt := by simp [Int64.le_iff_toInt_le]

theorem lt_zero_iff : a < 0 ↔ a.toInt < 0 := by simp [Int64.lt_iff_toInt_lt]

/-! ## `Consume` and `Release` -/

theorem incrementAll_apply (hnodup : trackers.Nodup) (c : Counters ι) (amount : Int64) (u : ι) :
    incrementAll c trackers amount u = if u ∈ trackers then (c u).incrementBy amount else c u := by
  induction trackers generalizing c with
  | nil => rfl
  | cons t trackers ih =>
    obtain ⟨ht, hnodup⟩ := List.nodup_cons.1 hnodup
    have hrest := ih hnodup (incrementBy c t amount)
    rw [incrementAll, List.foldl_cons, ← incrementAll, hrest, incrementBy]
    by_cases hu : u = t
    · subst hu
      rw [if_neg ht, if_pos List.mem_cons_self, Function.update_self]
    · simp only [Function.update_of_ne hu, List.mem_cons, hu, false_or]

theorem changed_incrementAll (ht : t ∈ T.nodes) (c : Counters ι) (a : Int64) :
    Changed T c t a.toInt (incrementAll c (T.allTrackers t) a) := by
  have hnodup := T.forest.chain_nodup ht
  refine ⟨fun u hu hle hlt => ?_, fun u hu => ?_⟩
  · rw [incrementAll_apply hnodup, if_pos hu]
    exact toInt_add_of_fits hle hlt
  · rw [incrementAll_apply hnodup, if_neg hu]

omit [DecidableEq ι] in
theorem changed_zero (T : Tree ι) (c : Counters ι) (t : ι) : Changed T c t 0 c :=
  ⟨fun _ _ _ _ => (add_zero _).symm, fun _ _ => rfl⟩

/-- calls with a number of bytes that is not negative -/
theorem consume_nonneg (ht : t ∈ T.nodes) (fuel : ℕ) (c : Counters ι) (hbytes : 0 ≤ bytes.toInt) :
    ∃ c', consume T t (fuel + 1) c bytes = some c' ∧ Changed T c t bytes.toInt c' := by
  rw [consume, if_neg (by rw [lt_zero_iff]; omega)]
  by_cases hzero : bytes = 0
  · subst hzero
    exact ⟨c, if_pos rfl, changed_zero T c t⟩
  · exact ⟨_, if_neg hzero, changed_incrementAll ht c bytes⟩

theorem release_nonneg (ht : t ∈ T.nodes) (fuel : ℕ) (c : Counters ι) (hbytes : 0 ≤ bytes.toInt) :
    ∃ c', release T t (fuel + 1) c bytes = some c' ∧ Changed T c t (-bytes.toInt) c' := by
  rw [release, if_neg (by rw [lt_zero_iff]; omega)]
  by_cases hzero : bytes = 0
  · subst hzero
    exact ⟨c, if_pos rfl, changed_zero T c t⟩
  · have hneg : (-bytes).toInt = -bytes.toInt := toInt_neg_of_ne fun h => by
      rw [h, Int64.toInt_minValue] at hbytes
      omega
    refine ⟨_, if_neg hzero, ?_⟩
    rw [← hneg]
    exact changed_incrementAll ht c (-bytes)

/-- the least number of bytes goes from one function to the other -/
theorem minValue_none (T : Tree ι) (t : ι) (fuel : ℕ) (c : Counters ι) :
    consume T t fuel c Int64.minValue = none ∧ release T t fuel c Int64.minValue = none := by
  have hneg : (Int64.minValue : Int64) < 0 := by decide
  have hself : -(Int64.minValue : Int64) = Int64.minValue := by decide
  induction fuel with
  | zero => exact ⟨rfl, rfl⟩
  | succ fuel ih =>
    refine ⟨?_, ?_⟩
    · rw [consume, if_pos hneg, hself]
      exact ih.2
    · rw [release, if_pos hneg, hself]
      exact ih.1

theorem consume_exact (ht : t ∈ T.nodes) (c : Counters ι) (bytes : Int64) :
    Consumes T c t bytes ↔ bytes ≠ Int64.minValue := by
  constructor
  · rintro ⟨fuel, c', hc', -⟩ rfl
    rw [(minValue_none T t fuel c).1] at hc'
    cases hc'
  · intro hne
    by_cases hneg : bytes < 0
    · have hswap := toInt_neg_of_ne hne
      have hlt := lt_zero_iff.1 hneg
      obtain ⟨c', hc', hchanged⟩ := @release_nonneg _ _ T t (-bytes) ht 0 c (by omega)
      refine ⟨2, c', by rw [consume, if_pos hneg]; exact hc', ?_⟩
      rw [hswap, neg_neg] at hchanged
      exact hchanged
    · obtain ⟨c', hc', hchanged⟩ := consume_nonneg ht 0 c (not_lt.1 fun h => hneg (lt_zero_iff.2 h))
      exact ⟨1, c', hc', hchanged⟩

theorem release_exact (ht : t ∈ T.nodes) (c : Counters ι) (bytes : Int64) :
    Releases T c t bytes ↔ bytes ≠ Int64.minValue := by
  constructor
  · rintro ⟨fuel, c', hc', -⟩ rfl
    rw [(minValue_none T t fuel c).2] at hc'
    cases hc'
  · intro hne
    by_cases hneg : bytes < 0
    · have hswap := toInt_neg_of_ne hne
      have hlt := lt_zero_iff.1 hneg
      obtain ⟨c', hc', hchanged⟩ := @consume_nonneg _ _ T t (-bytes) ht 0 c (by omega)
      refine ⟨2, c', by rw [release, if_pos hneg]; exact hc', ?_⟩
      rw [hswap] at hchanged
      exact hchanged
    · obtain ⟨c', hc', hchanged⟩ := release_nonneg ht 0 c (not_lt.1 fun h => hneg (lt_zero_iff.2 h))
      exact ⟨1, c', hc', hchanged⟩

/-! ## `TryConsume` -/

/-- the mathematical sum -/
def total (c : Counters ι) (t : ι) (bytes : Int64) : ℤ := (c t).currentValue.toInt + bytes.toInt

/-- a limited tracker has no room for the bytes, and garbage collection does not make it -/
def Refuses (T : Tree ι) (gc : GcFunctions ι) (bytes : Int64) (a : ι × Counters ι) : Prop :=
  0 ≤ T.limit a.1 ∧ (T.limit a.1).toInt < total a.2 a.1 bytes ∧ total a.2 a.1 bytes < 2 ^ 63 ∧
    (gcMemory gc a.2 a.1 (T.limit a.1 - bytes)).1 = true

/-- the sum at a limited tracker does not fit -/
def Overruns (T : Tree ι) (bytes : Int64) (a : ι × Counters ι) : Prop :=
  0 ≤ T.limit a.1 ∧ 2 ^ 63 ≤ total a.2 a.1 bytes

/-- the counters after a round that goes on -/
def after (T : Tree ι) (gc : GcFunctions ι) (c : Counters ι) (t : ι) (bytes : Int64) : Counters ι :=
  incrementBy (if 0 ≤ T.limit t ∧ (T.limit t).toInt < total c t bytes ∧ total c t bytes < 2 ^ 63 then
    (gcMemory gc c t (T.limit t - bytes)).2 else c) t bytes

/-- the counters as each round finds them, if all rounds before it go on -/
def arrivals (T : Tree ι) (gc : GcFunctions ι) (bytes : Int64) : Counters ι → List ι → List (ι × Counters ι)
  | _, [] => []
  | c, t :: below => (t, c) :: arrivals T gc bytes (after T gc c t bytes) below

/-- `TryIncrementBy` succeeds if the machine sum is within the limit -/
theorem tryIncrementBy_of_le (h : (c t).currentValue + bytes ≤ T.limit t) :
    tryIncrementBy T c t bytes = (true, incrementBy c t bytes) := by
  rw [tryIncrementBy, HighWaterMark.tryIncrementBy, if_neg (Int64.not_lt.2 h)]
  rfl

theorem tryIncrementBy_of_lt (h : T.limit t < (c t).currentValue + bytes) : tryIncrementBy T c t bytes = (false, c) := by
  rw [tryIncrementBy, HighWaterMark.tryIncrementBy, if_pos h]

omit [DecidableEq ι] in
theorem toInt_total (hbytes : 0 < bytes) (h : total c t bytes < 2 ^ 63) :
    ((c t).currentValue + bytes).toInt = total c t bytes := by
  have hpos := toInt_pos hbytes
  have hle := (c t).currentValue.le_toInt
  exact toInt_add_of_fits (by omega) h

omit [DecidableEq ι] in
/-- garbage collection that does not fail has made room -/
theorem gcMemory_room (hbytes : 0 < bytes) (hlimit : 0 ≤ T.limit t) (hfull : (T.limit t).toInt < total c t bytes)
    (hgc : (gcMemory gc c t (T.limit t - bytes)).1 = false) :
    total (gcMemory gc c t (T.limit t - bytes)).2 t bytes ≤ (T.limit t).toInt := by
  have hpos := toInt_pos hbytes
  have hnonneg := toInt_nonneg.1 hlimit
  have hbound := bytes.toInt_lt
  have hmax : (T.limit t - bytes).toInt = (T.limit t).toInt - bytes.toInt := by
    have hlt := (T.limit t).toInt_lt
    rw [Int64.toInt_sub]
    exact Int.bmod_eq_of_le (by omega) (by omega)
  rw [total] at hfull
  by_cases hneg : T.limit t - bytes < 0
  · rw [gcMemory, if_pos hneg] at hgc
    cases hgc
  by_cases hless : (c t).currentValue.toUInt64 < (T.limit t - bytes).toUInt64
  · -- the maximum is not negative, so the comparison is one of `int64_t`
    rw [lt_zero_iff, hmax, not_lt] at hneg
    have hcur : 0 ≤ (c t).currentValue := toInt_nonneg.2 (by omega)
    rw [UInt64.lt_iff_toNat_lt, Int64.toNat_toUInt64_of_le hcur,
      Int64.toNat_toUInt64_of_le (toInt_nonneg.2 (hmax ▸ hneg)), ← Int64.toNat_toInt, ← Int64.toNat_toInt, hmax] at hless
    omega
  · rw [gcMemory, if_neg hneg, if_neg hless] at hgc ⊢
    simp only [decide_eq_false_iff_not, Int64.not_lt, Int64.le_iff_toInt_le, hmax] at hgc
    simp only [total]
    omega

theorem tryUpdate_unlimited (hlimit : T.limit t < 0) :
    tryUpdate T gc c t bytes = (true, (c t).currentValue, incrementBy c t bytes) := by
  rw [tryUpdate, if_pos hlimit]

theorem tryUpdate_first (hlimited : 0 ≤ T.limit t) (hle : (c t).currentValue + bytes ≤ T.limit t) :
    tryUpdate T gc c t bytes = (true, (c t).currentValue, incrementBy c t bytes) := by
  rw [tryUpdate, if_neg (Int64.not_lt.2 hlimited), tryIncrementBy_of_le hle]
  rfl

theorem tryUpdate_second (hlimited : 0 ≤ T.limit t) (hlt : T.limit t < (c t).currentValue + bytes)
    (hgc : (gcMemory gc c t (T.limit t - bytes)).1 = false)
    (hle : ((gcMemory gc c t (T.limit t - bytes)).2 t).currentValue + bytes ≤ T.limit t) :
    tryUpdate T gc c t bytes = (true, ((gcMemory gc c t (T.limit t - bytes)).2 t).currentValue,
      incrementBy (gcMemory gc c t (T.limit t - bytes)).2 t bytes) := by
  rw [tryUpdate, if_neg (Int64.not_lt.2 hlimited), tryIncrementBy_of_lt hlt]
  simp [hgc, tryIncrementBy_of_le hle]

theorem tryUpdate_break (hlimited : 0 ≤ T.limit t) (hlt : T.limit t < (c t).currentValue + bytes)
    (hgc : (gcMemory gc c t (T.limit t - bytes)).1 = true) : (tryUpdate T gc c t bytes).1 = false := by
  rw [tryUpdate, if_neg (Int64.not_lt.2 hlimited), tryIncrementBy_of_lt hlt]
  simp [hgc, expandLimit]

/-- one round that goes on -/
theorem tryUpdate_true (hbytes : 0 < bytes) (h : ¬Refuses T gc bytes (t, c)) :
    (tryUpdate T gc c t bytes).1 = true ∧ (tryUpdate T gc c t bytes).2.2 = after T gc c t bytes ∧
      (HasRoom T bytes (t, (tryUpdate T gc c t bytes).2.1) ↔ ¬Overruns T bytes (t, c)) := by
  have hbound := (T.limit t).toInt_lt
  by_cases hlimit : T.limit t < 0
  · have hunlimited : ¬0 ≤ T.limit t := Int64.not_le.2 hlimit
    rw [tryUpdate_unlimited hlimit, after, if_neg fun h => hunlimited h.1]
    exact ⟨rfl, rfl, fun _ h => hunlimited h.1, fun _ h => absurd h hunlimited⟩
  have hlimited : 0 ≤ T.limit t := Int64.not_lt.1 hlimit
  have hnonneg := toInt_nonneg.1 hlimited
  rcases le_or_gt (total c t bytes) (T.limit t).toInt with hfits | hfull
  · -- the sum is within the limit
    have hlt : total c t bytes < 2 ^ 63 := by omega
    have hfirst : (c t).currentValue + bytes ≤ T.limit t := Int64.le_iff_toInt_le.2 (toInt_total hbytes hlt ▸ hfits)
    rw [tryUpdate_first hlimited hfirst, after, if_neg fun h => absurd h.2.1 (not_lt.2 hfits)]
    exact ⟨rfl, rfl, fun _ h => absurd h.2 (not_le.2 hlt), fun _ _ => hfits⟩
  rcases lt_or_ge (total c t bytes) (2 ^ 63) with hlt | hover
  · -- garbage collection makes room
    have hfirst : T.limit t < (c t).currentValue + bytes := Int64.lt_iff_toInt_lt.2 (toInt_total hbytes hlt ▸ hfull)
    have hgc : (gcMemory gc c t (T.limit t - bytes)).1 = false := by
      rw [← Bool.not_eq_true]
      exact fun hfail => h ⟨hlimited, hfull, hlt, hfail⟩
    have hroom := gcMemory_room hbytes hlimited hfull hgc
    have hsecond := Int64.le_iff_toInt_le.2 (toInt_total hbytes (hroom.trans_lt hbound) ▸ hroom)
    rw [tryUpdate_second hlimited hfirst hgc hsecond, after, if_pos ⟨hlimited, hfull, hlt⟩]
    exact ⟨rfl, rfl, fun _ h => absurd h.2 (not_le.2 hlt), fun _ _ => hroom⟩
  · -- the sum wraps around and is negative
    have hwrap : ((c t).currentValue + bytes).toInt < 0 := by
      have hcur := (c t).currentValue.toInt_lt
      have hadd := bytes.toInt_lt
      rw [toInt_add_of_over hover]
      omega
    have hfirst : (c t).currentValue + bytes ≤ T.limit t := Int64.le_iff_toInt_le.2 (hwrap.le.trans hnonneg)
    rw [tryUpdate_first hlimited hfirst, after, if_neg fun h => absurd h.2.2 (not_lt.2 hover)]
    exact ⟨rfl, rfl, fun hroom => absurd (hroom hlimited) (not_le.2 hfull), fun hno => absurd ⟨hlimited, hover⟩ hno⟩

/-- one round that breaks -/
theorem tryUpdate_false (hbytes : 0 < bytes) (h : Refuses T gc bytes (t, c)) : (tryUpdate T gc c t bytes).1 = false := by
  obtain ⟨hlimited, hfull, hlt, hgc⟩ := h
  exact tryUpdate_break hlimited (Int64.lt_iff_toInt_lt.2 (toInt_total hbytes hlt ▸ hfull)) hgc

/-- **All rounds go on**: each tracker is logged, with room exactly if no sum overruns. -/
theorem tryLoop_true (hbytes : 0 < bytes) (log : List (ι × Int64)) (c : Counters ι) (trackers : List ι)
    (h : ∀ a ∈ arrivals T gc bytes c trackers, ¬Refuses T gc bytes a) :
    (tryLoop T gc bytes log c trackers).1 = true ∧ ∃ updates,
      (tryLoop T gc bytes log c trackers).2.1 = updates ++ log ∧ updates.map Prod.fst = trackers.reverse ∧
        ((∀ e ∈ updates, HasRoom T bytes e) ↔ ∀ a ∈ arrivals T gc bytes c trackers, ¬Overruns T bytes a) := by
  induction trackers generalizing log c with
  | nil => exact ⟨rfl, [], rfl, rfl, by simp [arrivals]⟩
  | cons t trackers ih =>
    rw [arrivals] at h ⊢
    obtain ⟨htrue, hafter, hroom⟩ := tryUpdate_true hbytes (h _ List.mem_cons_self)
    obtain ⟨hall, updates, hlog, hnames, hrooms⟩ := ih ((t, (tryUpdate T gc c t bytes).2.1) :: log)
      (after T gc c t bytes) fun a ha => h a (List.mem_cons_of_mem _ ha)
    rw [tryLoop, if_pos htrue, hafter]
    refine ⟨hall, updates ++ [(t, (tryUpdate T gc c t bytes).2.1)], ?_, ?_, ?_⟩
    · rw [hlog, List.append_assoc]
      rfl
    · rw [List.map_append, hnames, List.reverse_cons]
      rfl
    · rw [List.forall_mem_cons, ← hroom, ← hrooms, List.forall_mem_append, List.forall_mem_singleton, and_comm]

/-- **A round breaks.** -/
theorem tryLoop_false (hbytes : 0 < bytes) (log : List (ι × Int64)) (c : Counters ι) (trackers : List ι)
    (h : ∃ a ∈ arrivals T gc bytes c trackers, Refuses T gc bytes a) :
    (tryLoop T gc bytes log c trackers).1 = false := by
  induction trackers generalizing log c with
  | nil =>
    obtain ⟨a, ha, -⟩ := h
    cases ha
  | cons t trackers ih =>
    by_cases hrefuses : Refuses T gc bytes (t, c)
    · rw [tryLoop, if_neg (by rw [tryUpdate_false hbytes hrefuses]; exact Bool.false_ne_true)]
    · obtain ⟨htrue, hafter, -⟩ := tryUpdate_true hbytes hrefuses
      obtain ⟨a, ha, hrest⟩ := h
      rw [tryLoop, if_pos htrue, hafter]
      rcases List.mem_cons.1 ha with rfl | ha
      · exact absurd hrest hrefuses
      · exact ih _ _ ⟨a, ha, hrest⟩

theorem honest_iff (T : Tree ι) (gc : GcFunctions ι) (c : Counters ι) (t : ι) (bytes : Int64) :
    Honest T gc c t bytes ↔ bytes ≤ 0 ∨
      (∃ a ∈ arrivals T gc bytes c (T.allTrackers t).reverse, Refuses T gc bytes a) ∨
        ∀ a ∈ arrivals T gc bytes c (T.allTrackers t).reverse, ¬Overruns T bytes a := by
  by_cases hbytes : bytes ≤ 0
  · exact ⟨fun _ => Or.inl hbytes, fun _ hpos => absurd hpos (Int64.not_lt.2 hbytes)⟩
  have hpos : 0 < bytes := Int64.not_le.1 hbytes
  rw [Honest, tryConsume, if_neg hbytes]
  by_cases hrefused : ∃ a ∈ arrivals T gc bytes c (T.allTrackers t).reverse, Refuses T gc bytes a
  · refine ⟨fun _ => Or.inr (Or.inl hrefused), fun _ _ htrue => ?_⟩
    simp [tryLoop_false hpos [] c _ hrefused] at htrue
  · have haccepted : ∀ a ∈ arrivals T gc bytes c (T.allTrackers t).reverse, ¬Refuses T gc bytes a :=
      fun a ha hr => hrefused ⟨a, ha, hr⟩
    obtain ⟨htrue, updates, hlog, hnames, hrooms⟩ := tryLoop_true hpos [] c _ haccepted
    rw [List.append_nil] at hlog
    rw [List.reverse_reverse] at hnames
    simp only [htrue, if_true, hlog, hnames, true_and, hrooms]
    exact ⟨fun h => Or.inr (Or.inr (h hpos trivial)),
      fun h _ _ => h.resolve_left hbytes |>.resolve_left hrefused⟩

/-! ## Without GC functions -/

omit [DecidableEq ι] in
theorem gcMemory_nil (hgc : gc t = []) (maxConsumption : Int64) : (gcMemory gc c t maxConsumption).2 = c := by
  rw [gcMemory, hgc]
  split_ifs <;> rfl

theorem after_nil (hgc : gc t = []) : after T gc c t bytes = incrementBy c t bytes := by
  rw [after, gcMemory_nil hgc, ite_self]

/-- the rounds find the consumption at the time of the call -/
theorem arrivals_nil (hgc : ∀ u, gc u = []) (hnodup : trackers.Nodup) (c : Counters ι) :
    (arrivals T gc bytes c trackers).map (fun a => (a.1, a.2 a.1)) = trackers.map fun u => (u, c u) := by
  induction trackers generalizing c with
  | nil => rfl
  | cons t trackers ih =>
    obtain ⟨ht, hnodup⟩ := List.nodup_cons.1 hnodup
    have hrest : trackers.map (fun u => (u, incrementBy c t bytes u)) = trackers.map fun u => (u, c u) := by
      refine List.map_congr_left fun u hu => ?_
      have hne : u ≠ t := fun heq => ht (heq ▸ hu)
      rw [incrementBy, Function.update_of_ne hne]
    rw [arrivals, List.map_cons, List.map_cons, after_nil (hgc t), ih hnodup, hrest]

omit [DecidableEq ι] in
theorem refuses_nil (hgc : ∀ u, gc u = []) (hbytes : 0 < bytes) (a : ι × Counters ι) :
    Refuses T gc bytes a ↔
      0 ≤ T.limit a.1 ∧ (T.limit a.1).toInt < total a.2 a.1 bytes ∧ total a.2 a.1 bytes < 2 ^ 63 := by
  refine ⟨fun h => ⟨h.1, h.2.1, h.2.2.1⟩, fun h => ⟨h.1, h.2.1, h.2.2, ?_⟩⟩
  by_contra hroom
  have hle := gcMemory_room hbytes h.1 h.2.1 (Bool.not_eq_true _ ▸ hroom)
  rw [total, gcMemory_nil (hgc a.1)] at hle
  exact absurd h.2.1 (not_lt.2 hle)

/-- **Without GC functions** it depends on the consumption at the time of the call: some tracker has no room for a sum
that fits, or all sums fit. -/
theorem honest_iff_nil (hgc : ∀ u, gc u = []) (ht : t ∈ T.nodes) (c : Counters ι) (hbytes : 0 < bytes) :
    Honest T gc c t bytes ↔
      (∃ u ∈ T.allTrackers t, 0 ≤ T.limit u ∧ (T.limit u).toInt < total c u bytes ∧ total c u bytes < 2 ^ 63) ∨
        ∀ u ∈ T.allTrackers t, 0 ≤ T.limit u → total c u bytes < 2 ^ 63 := by
  have hnodup := List.nodup_reverse.2 (T.forest.chain_nodup ht)
  have hmap := @arrivals_nil _ _ T gc bytes _ hgc hnodup c
  -- a property of the trackers and their counters holds of the rounds if it holds of the chain
  have hall : ∀ P : ι → HighWaterMark → Prop,
      (∀ a ∈ arrivals T gc bytes c (T.allTrackers t).reverse, P a.1 (a.2 a.1)) ↔ ∀ u ∈ T.allTrackers t, P u (c u) := by
    intro P
    have hpairs : (∀ e ∈ (arrivals T gc bytes c (T.allTrackers t).reverse).map (fun a => (a.1, a.2 a.1)), P e.1 e.2) ↔
        ∀ e ∈ (T.allTrackers t).reverse.map (fun u => (u, c u)), P e.1 e.2 := by rw [hmap]
    simpa only [List.forall_mem_map, List.mem_reverse] using hpairs
  have hany : ∀ P : ι → HighWaterMark → Prop,
      (∃ a ∈ arrivals T gc bytes c (T.allTrackers t).reverse, P a.1 (a.2 a.1)) ↔ ∃ u ∈ T.allTrackers t, P u (c u) := by
    intro P
    simpa only [not_forall, not_not, exists_prop] using not_congr (hall fun u w => ¬P u w)
  rw [honest_iff]
  simp only [Int64.not_le.2 hbytes, false_or, refuses_nil hgc hbytes, Overruns, not_and, not_le]
  refine or_congr ?_ ?_
  · exact hany fun u w => 0 ≤ T.limit u ∧ (T.limit u).toInt < w.currentValue.toInt + bytes.toInt ∧
      w.currentValue.toInt + bytes.toInt < 2 ^ 63
  · exact hall fun u w => 0 ≤ T.limit u → w.currentValue.toInt + bytes.toInt < 2 ^ 63

/-! ## Main result -/

/-- **The whole range of `int64_t`.** `Consume` and `Release` return with the chain changed by the bytes exactly if these
are not the least number. `TryConsume` is honest exactly if it has nothing to do, or some limited tracker refuses a sum
that fits, or the sum fits at each limited tracker. -/
theorem range_exact (T : Tree ι) (gc : GcFunctions ι) (c : Counters ι) (t : T.nodes) (bytes : Int64) :
    (Consumes T c t bytes ↔ bytes ≠ Int64.minValue) ∧ (Releases T c t bytes ↔ bytes ≠ Int64.minValue) ∧
      (Honest T gc c t bytes ↔ bytes ≤ 0 ∨
        (∃ a ∈ arrivals T gc bytes c (T.allTrackers t).reverse, Refuses T gc bytes a) ∨
          ∀ a ∈ arrivals T gc bytes c (T.allTrackers t).reverse, ¬Overruns T bytes a) :=
  ⟨consume_exact t.2 c bytes, release_exact t.2 c bytes, honest_iff T gc c t bytes⟩

/-- one tracker with a limit of 100 -/
def rootTree : Tree Unit where
  nodes := {()}
  parent _ := none
  allTrackers _ := [()]
  limit _ := 100
  forest := ⟨fun _ _ => rfl, fun _ _ _ hp => absurd hp (by simp)⟩

/-- `Consume` and `Release` of the least number do not return, and a consumption of 1 and the largest number are within
every limit -/
theorem range_broken : ¬Consumes rootTree (fun _ => .new 0) () Int64.minValue ∧
    ¬Releases rootTree (fun _ => .new 0) () Int64.minValue ∧
      ¬Honest rootTree (fun _ => []) (fun _ => .new 1) () Int64.maxValue := by
  refine ⟨?_, ?_, ?_⟩
  · rintro ⟨fuel, c', hc', -⟩
    rw [(minValue_none rootTree () fuel _).1] at hc'
    cases hc'
  · rintro ⟨fuel, c', hc', -⟩
    rw [(minValue_none rootTree () fuel _).2] at hc'
    cases hc'
  · intro hhonest
    have hroom := (hhonest (by decide) (by decide)).2 ((), 1) (by decide) (by decide)
    revert hroom
    decide

end Bboy.TrackerRange
