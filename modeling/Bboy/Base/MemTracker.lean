/-
`MemTracker` (`mem_tracker.cc`) and `HighWaterMark` (`high_water_mark.h`), called by one thread: `Consume`, `Release`,
`TryConsume` with its garbage collection and its rollback.

Model: a heap of trackers, with the members that these functions read and, apart from them, the counter `consumption_` of
each. No tracker has a consumption function, and the amounts are exact integers. What a GC function releases is decided
by the environment: `gc t` lists, for the GC functions of `t` in their order, what each releases if it is called.

- The ghost `log` records the last `TryConsume`, newest first: each tracker it updated, with the consumption right after
  the update, each release by a GC function, and where it gave up.
- `freed`: what the GC functions released through a tracker.
- `tryConsume_all_or_nothing`: if it returns true, every tracker of the chain has gained the bytes and each limited one was
  within its limit right after its update; if it returns false, nothing has changed apart from the GC releases, and it gave
  up at a limited tracker that had no room.
-/
import Bboy.Core.Forest

namespace Bboy

open Core

/-! ## Model -/

structure HighWaterMark where
  currentValue : ℤ
  maxValue : ℤ
  le_max : currentValue ≤ maxValue
deriving DecidableEq, Repr

namespace HighWaterMark

def new (initialValue : ℤ) : HighWaterMark := ⟨initialValue, initialValue, le_rfl⟩

/-- the current value becomes `v`, then `UpdateMax(v)` -/
def set (w : HighWaterMark) (v : ℤ) : HighWaterMark := ⟨v, max w.maxValue v, le_max_right _ _⟩

def incrementBy (w : HighWaterMark) (amount : ℤ) : HighWaterMark := w.set (w.currentValue + amount)

/-- `TryIncrementBy`, with no other thread between the load and the compare-and-set -/
def tryIncrementBy (w : HighWaterMark) (delta maximum : ℤ) : Option HighWaterMark :=
  if maximum < w.currentValue + delta then none else some (w.incrementBy delta)

end HighWaterMark

/-- the members that are fixed once the tracker is initialised; trackers are named by `ι` -/
structure MemTracker (ι : Type) where
  limit : ℤ
  id : String
  parent : Option ι
  /-- `all_trackers_` -/
  allTrackers : List ι
deriving DecidableEq, Repr

namespace MemTracker

variable {ι : Type} [DecidableEq ι]

inductive Event (ι : Type) where
  | updated (tracker : ι) (consumption : ℤ)
  | freed (tracker : ι) (bytes : ℤ)
  | gaveUp (tracker : ι) (consumption : ℤ)
deriving DecidableEq, Repr

structure Heap (ι : Type) where
  tracker : ι → MemTracker ι
  consumption : ι → HighWaterMark
  /-- ghost: what happened in the last `TryConsume`, newest first -/
  log : List (Event ι)

/-- the releases of each GC function of a tracker -/
abbrev GcFunctions (ι : Type) := ι → List (List (ι × ℤ))

/-- `consumption()` -/
def current (h : Heap ι) (t : ι) : ℤ := (h.consumption t).currentValue

def record (h : Heap ι) (e : Event ι) : Heap ι := { h with log := e :: h.log }

def setConsumption (h : Heap ι) (t : ι) (w : HighWaterMark) : Heap ι :=
  { h with consumption := Function.update h.consumption t w }

def incrementBy (h : Heap ι) (t : ι) (amount : ℤ) : Heap ι := setConsumption h t ((h.consumption t).incrementBy amount)

/-- a loop that increments the counters of a list of trackers -/
def incrementAll (h : Heap ι) (trackers : List ι) (amount : ℤ) : Heap ι :=
  trackers.foldl (fun h t => incrementBy h t amount) h

/-- `Consume` of a non-negative number of bytes -/
def consumeLoop (h : Heap ι) (t : ι) (bytes : ℤ) : Heap ι :=
  if bytes = 0 then h else incrementAll h (h.tracker t).allTrackers bytes

/-- `Release` of a non-negative number of bytes -/
def releaseLoop (h : Heap ι) (t : ι) (bytes : ℤ) : Heap ι :=
  if bytes = 0 then h else incrementAll h (h.tracker t).allTrackers (-bytes)

def consume (h : Heap ι) (t : ι) (bytes : ℤ) : Heap ι :=
  if bytes < 0 then releaseLoop h t (-bytes) else consumeLoop h t bytes

def release (h : Heap ι) (t : ι) (bytes : ℤ) : Heap ι :=
  if bytes < 0 then consumeLoop h t (-bytes) else releaseLoop h t bytes

/-- `gc_function()` -/
def callGcFunction (h : Heap ι) (releases : List (ι × ℤ)) : Heap ι :=
  releases.foldl (fun h r => record (release h r.1 r.2) (.freed r.1 r.2)) h

/-- the loop of `GcMemory` -/
def gcLoop (t : ι) (maxConsumption : ℤ) : Heap ι → List (List (ι × ℤ)) → Heap ι
  | h, [] => h
  | h, releases :: more =>
    if current (callGcFunction h releases) t ≤ maxConsumption then callGcFunction h releases
    else gcLoop t maxConsumption (callGcFunction h releases) more

/-- the conversion of an `int64_t` to a `uint64_t` -/
def toUint64 (v : ℤ) : ℤ := v % 2 ^ 64

/-- true if the maximum is still exceeded -/
def gcMemory (gc : GcFunctions ι) (h : Heap ι) (t : ι) (maxConsumption : ℤ) : Bool × Heap ι :=
  if maxConsumption < 0 then (true, h)
  else if toUint64 (current h t) < toUint64 maxConsumption then (false, h)
  else
    let h := gcLoop t maxConsumption h (gc t)
    (decide (maxConsumption < current h t), h)

/-- not implemented -/
def expandLimit (_bytes : ℤ) : Bool := false

/-- `consumption_.TryIncrementBy(bytes, limit_)` -/
def tryIncrementBy (h : Heap ι) (t : ι) (bytes : ℤ) : Bool × Heap ι :=
  match (h.consumption t).tryIncrementBy bytes (h.tracker t).limit with
  | some w => (true, setConsumption h t w)
  | none => (false, h)

/-- one round of the loop of `TryConsume`; false: `break` -/
def tryUpdate (gc : GcFunctions ι) (h : Heap ι) (t : ι) (bytes : ℤ) : Bool × Heap ι :=
  if (h.tracker t).limit < 0 then (true, incrementBy h t bytes)
  else
    let r := tryIncrementBy h t bytes
    if r.1 then r
    else
      let g := gcMemory gc h t ((h.tracker t).limit - bytes)
      if !g.1 || expandLimit bytes then tryIncrementBy g.2 t bytes else (false, g.2)

/-- the loop of `TryConsume` over the trackers from the root down: whether all were updated, and which -/
def tryLoop (gc : GcFunctions ι) (bytes : ℤ) : Heap ι → List ι → Bool × List ι × Heap ι
  | h, [] => (true, [], h)
  | h, t :: below =>
    let r := tryUpdate gc h t bytes
    if r.1 then
      let rest := tryLoop gc bytes (record r.2 (.updated t (current r.2 t))) below
      (rest.1, t :: rest.2.1, rest.2.2)
    else (false, [], record r.2 (.gaveUp t (current r.2 t)))

def tryConsume (gc : GcFunctions ι) (h : Heap ι) (t : ι) (bytes : ℤ) : Bool × Heap ι :=
  let h := { h with log := [] }
  if bytes ≤ 0 then (true, h)
  else
    let r := tryLoop gc bytes h (h.tracker t).allTrackers.reverse
    if r.1 then (true, r.2.2) else (false, incrementAll r.2.2 r.2.1 (-bytes))

/-! ## What the loops change -/

/-- each chain of the heap is as `Init` builds it: the tracker, its parent, and so on up to the root -/
def Initialised (nodes : Set ι) (h : Heap ι) : Prop :=
  IsForest nodes (fun t => (h.tracker t).parent) fun t => (h.tracker t).allTrackers

variable {h g k : Heap ι} {gc : GcFunctions ι} {t u : ι} {bytes amount maxConsumption : ℤ} {trackers : List ι}

theorem current_incrementBy (h : Heap ι) (t : ι) (amount : ℤ) (u : ι) :
    current (incrementBy h t amount) u = current h u + along [t] amount u := by
  by_cases hu : u = t
  · simp [current, incrementBy, setConsumption, HighWaterMark.incrementBy, HighWaterMark.set, along, hu]
  · simp [current, incrementBy, setConsumption, along, hu]

/-- a loop changes the counters of its trackers only -/
theorem incrementAll_frame (h : Heap ι) (trackers : List ι) (amount : ℤ) :
    (incrementAll h trackers amount).tracker = h.tracker ∧ (incrementAll h trackers amount).log = h.log := by
  induction trackers generalizing h with
  | nil => exact ⟨rfl, rfl⟩
  | cons t trackers ih => exact ih (incrementBy h t amount)

theorem current_incrementAll (hnodup : trackers.Nodup) (h : Heap ι) (amount : ℤ) (u : ι) :
    current (incrementAll h trackers amount) u = current h u + along trackers amount u := by
  induction trackers generalizing h with
  | nil => simp [incrementAll, along]
  | cons t trackers ih =>
    obtain ⟨ht, hnodup⟩ := List.nodup_cons.1 hnodup
    have hrest := ih hnodup (incrementBy h t amount)
    have hsplit : along (t :: trackers) amount u = along [t] amount u + along trackers amount u := by
      by_cases hu : u = t
      · simp [along, hu, ht]
      · simp [along, hu]
    calc current (incrementAll h (t :: trackers) amount) u
        = current (incrementBy h t amount) u + along trackers amount u := hrest
      _ = current h u + along [t] amount u + along trackers amount u := by rw [current_incrementBy]
      _ = current h u + along (t :: trackers) amount u := by rw [hsplit, add_assoc]

theorem along_zero (chain : List ι) (u : ι) : along chain 0 u = 0 := ite_self 0

theorem along_neg (chain : List ι) (b : ℤ) (u : ι) : along chain (-b) u = -along chain b u := by
  unfold along
  split_ifs
  · rfl
  · exact neg_zero.symm

/-- the two loops add to the chain, whatever the sign -/
theorem loop_current (hnodup : (h.tracker t).allTrackers.Nodup) (bytes : ℤ) (u : ι) :
    current (consumeLoop h t bytes) u = current h u + along (h.tracker t).allTrackers bytes u ∧
      current (releaseLoop h t bytes) u = current h u - along (h.tracker t).allTrackers bytes u := by
  unfold consumeLoop releaseLoop
  split_ifs with hb
  · simp [hb, along_zero]
  · refine ⟨current_incrementAll hnodup h bytes u, ?_⟩
    rw [current_incrementAll hnodup, along_neg, sub_eq_add_neg]

theorem loop_frame (h : Heap ι) (t : ι) (bytes : ℤ) :
    ((consumeLoop h t bytes).tracker = h.tracker ∧ (consumeLoop h t bytes).log = h.log) ∧
      (releaseLoop h t bytes).tracker = h.tracker ∧ (releaseLoop h t bytes).log = h.log := by
  unfold consumeLoop releaseLoop
  split_ifs
  · exact ⟨⟨rfl, rfl⟩, rfl, rfl⟩
  · exact ⟨incrementAll_frame _ _ _, incrementAll_frame _ _ _⟩

theorem consume_current (hnodup : (h.tracker t).allTrackers.Nodup) (bytes : ℤ) (u : ι) :
    current (consume h t bytes) u = current h u + along (h.tracker t).allTrackers bytes u := by
  unfold consume
  split_ifs
  · rw [(loop_current hnodup (-bytes) u).2, along_neg, sub_neg_eq_add]
  · exact (loop_current hnodup bytes u).1

theorem release_current (hnodup : (h.tracker t).allTrackers.Nodup) (bytes : ℤ) (u : ι) :
    current (release h t bytes) u = current h u - along (h.tracker t).allTrackers bytes u := by
  unfold release
  split_ifs
  · rw [(loop_current hnodup (-bytes) u).1, along_neg, sub_eq_add_neg]
  · exact (loop_current hnodup bytes u).2

theorem consume_frame (h : Heap ι) (t : ι) (bytes : ℤ) :
    (consume h t bytes).tracker = h.tracker ∧ (consume h t bytes).log = h.log := by
  unfold consume
  split_ifs
  · exact (loop_frame h t (-bytes)).2
  · exact (loop_frame h t bytes).1

theorem release_frame (h : Heap ι) (t : ι) (bytes : ℤ) :
    (release h t bytes).tracker = h.tracker ∧ (release h t bytes).log = h.log := by
  unfold release
  split_ifs
  · exact (loop_frame h t (-bytes)).1
  · exact (loop_frame h t bytes).2

/-! ## Garbage collection -/

/-- what the GC functions have released through `u` -/
def freed (tracker : ι → MemTracker ι) (log : List (Event ι)) (u : ι) : ℤ :=
  (log.map fun e => match e with
    | .freed n bytes => along (tracker n).allTrackers bytes u
    | _ => 0).sum

/-- the events other than the GC releases -/
def progress (log : List (Event ι)) : List (Event ι) :=
  log.filter fun e => match e with
    | .freed _ _ => false
    | _ => true

/-- the GC releases of the log are on trackers of the tree -/
def Targets (nodes : Set ι) (log : List (Event ι)) : Prop := ∀ n bytes, .freed n bytes ∈ log → n ∈ nodes

/-- `g` comes after `h`, and the counters have moved by `δ` apart from the GC releases -/
structure Moved (nodes : Set ι) (h g : Heap ι) (δ : ι → ℤ) : Prop where
  same : g.tracker = h.tracker
  events : progress g.log = progress h.log
  targets : Targets nodes h.log → Targets nodes g.log
  counters : ∀ u, current g u + freed g.tracker g.log u = current h u + freed h.tracker h.log u + δ u

variable {nodes : Set ι}

theorem Moved.refl (h : Heap ι) : Moved nodes h h fun _ => 0 := ⟨rfl, rfl, fun ht => ht, fun _ => (add_zero _).symm⟩

theorem Moved.trans {δ ε : ι → ℤ} (hg : Moved nodes h g δ) (hk : Moved nodes g k ε) :
    Moved nodes h k fun u => δ u + ε u := by
  refine ⟨hk.same.trans hg.same, hk.events.trans hg.events, fun ht => hk.targets (hg.targets ht), fun u => ?_⟩
  rw [hk.counters u, hg.counters u, add_assoc]

/-- a change of the counters without an event -/
theorem Moved.of_frame {δ : ι → ℤ} (hframe : g.tracker = h.tracker ∧ g.log = h.log)
    (hcurrent : ∀ u, current g u = current h u + δ u) : Moved nodes h g δ := by
  refine ⟨hframe.1, by rw [hframe.2], fun ht => by rwa [hframe.2], fun u => ?_⟩
  rw [hframe.1, hframe.2, hcurrent u, add_right_comm]

theorem Moved.initialised {δ : ι → ℤ} (hg : Moved nodes h g δ) (hinit : Initialised nodes h) :
    Initialised nodes g := by
  unfold Initialised
  rw [hg.same]
  exact hinit

/-- a GC function changes the counters by its releases only -/
theorem callGcFunction_moved {releases : List (ι × ℤ)} (hinit : Initialised nodes h)
    (hgc : ∀ r ∈ releases, r.1 ∈ nodes) : Moved nodes h (callGcFunction h releases) fun _ => 0 := by
  induction releases generalizing h with
  | nil => exact Moved.refl h
  | cons r releases ih =>
    have hfirst : Moved nodes h (record (release h r.1 r.2) (.freed r.1 r.2)) fun _ => 0 := by
      obtain ⟨htracker, hlog⟩ := release_frame h r.1 r.2
      have hnodup := hinit.chain_nodup (hgc r List.mem_cons_self)
      refine ⟨htracker, by simp [record, progress, hlog], fun ht n b hm => ?_, fun u => ?_⟩
      · rcases List.mem_cons.1 hm with he | hm
        · cases he
          exact hgc r List.mem_cons_self
        · exact ht n b (hlog ▸ hm)
      have hcurrent : current (record (release h r.1 r.2) (.freed r.1 r.2)) u =
          current h u - along (h.tracker r.1).allTrackers r.2 u := release_current hnodup r.2 u
      have hfreed : freed (record (release h r.1 r.2) (.freed r.1 r.2)).tracker
          (record (release h r.1 r.2) (.freed r.1 r.2)).log u =
            along (h.tracker r.1).allTrackers r.2 u + freed h.tracker h.log u := by
        simp [freed, record, htracker, hlog]
      rw [hcurrent, hfreed]
      ring
    have hrest := ih (hfirst.initialised hinit) fun r hr => hgc r (List.mem_cons_of_mem _ hr)
    exact hfirst.trans hrest

theorem gcLoop_moved {functions : List (List (ι × ℤ))} (hinit : Initialised nodes h)
    (hgc : ∀ releases ∈ functions, ∀ r ∈ releases, r.1 ∈ nodes) :
    Moved nodes h (gcLoop t maxConsumption h functions) fun _ => 0 := by
  induction functions generalizing h with
  | nil => exact Moved.refl h
  | cons releases functions ih =>
    have hcall := callGcFunction_moved hinit (hgc releases List.mem_cons_self)
    unfold gcLoop
    split_ifs
    · exact hcall
    · exact hcall.trans (ih (hcall.initialised hinit) fun f hf => hgc f (List.mem_cons_of_mem _ hf))

/-- the GC functions of the trackers on a chain release on trackers of the tree -/
def GcWithin (nodes : Set ι) (gc : GcFunctions ι) (chain : List ι) : Prop :=
  ∀ u ∈ chain, ∀ releases ∈ gc u, ∀ r ∈ releases, r.1 ∈ nodes

theorem gcMemory_moved (hinit : Initialised nodes h) (hgc : ∀ releases ∈ gc t, ∀ r ∈ releases, r.1 ∈ nodes) :
    Moved nodes h (gcMemory gc h t maxConsumption).2 fun _ => 0 := by
  unfold gcMemory
  split_ifs
  · exact Moved.refl h
  · exact Moved.refl h
  · exact gcLoop_moved hinit hgc

/-- if `GcMemory` fails, the maximum is exceeded, or it was hopeless from the start -/
theorem gcMemory_fails (hfail : (gcMemory gc h t maxConsumption).1 = true) :
    maxConsumption < current (gcMemory gc h t maxConsumption).2 t ∨
      maxConsumption < 0 ∧ (gcMemory gc h t maxConsumption).2 = h := by
  unfold gcMemory at hfail ⊢
  split_ifs at hfail ⊢ with hneg
  · exact Or.inr ⟨hneg, rfl⟩
  · exact Or.inl (of_decide_eq_true hfail)

/-! ## `TryConsume` -/

theorem tryIncrementBy_true (hr : (tryIncrementBy h t bytes).1 = true) :
    (tryIncrementBy h t bytes).2 = incrementBy h t bytes ∧ current h t + bytes ≤ (h.tracker t).limit := by
  unfold tryIncrementBy HighWaterMark.tryIncrementBy at hr ⊢
  by_cases hlt : (h.tracker t).limit < (h.consumption t).currentValue + bytes
  · rw [if_pos hlt] at hr
    cases hr
  · rw [if_neg hlt]
    exact ⟨rfl, not_lt.1 hlt⟩

theorem tryIncrementBy_false (hr : (tryIncrementBy h t bytes).1 ≠ true) :
    (tryIncrementBy h t bytes).2 = h ∧ (h.tracker t).limit < current h t + bytes := by
  unfold tryIncrementBy HighWaterMark.tryIncrementBy at hr ⊢
  by_cases hlt : (h.tracker t).limit < (h.consumption t).currentValue + bytes
  · rw [if_pos hlt]
    exact ⟨rfl, hlt⟩
  · rw [if_neg hlt] at hr
    exact absurd rfl hr

theorem incrementBy_moved (h : Heap ι) (t : ι) (amount : ℤ) :
    Moved nodes h (incrementBy h t amount) (along [t] amount) :=
  Moved.of_frame ⟨rfl, rfl⟩ (current_incrementBy h t amount)

theorem tryIncrementBy_moved (hr : (tryIncrementBy h t bytes).1 = true) :
    Moved nodes h (tryIncrementBy h t bytes).2 (along [t] bytes) ∧
      current (tryIncrementBy h t bytes).2 t ≤ (h.tracker t).limit := by
  obtain ⟨heq, hle⟩ := tryIncrementBy_true hr
  rw [heq]
  refine ⟨incrementBy_moved h t bytes, ?_⟩
  rw [current_incrementBy, along, if_pos (List.mem_singleton.2 rfl)]
  exact hle

/-- one round that goes on: the tracker is updated, within its limit -/
theorem tryUpdate_true (hinit : Initialised nodes h) (hgc : ∀ releases ∈ gc t, ∀ r ∈ releases, r.1 ∈ nodes)
    (hr : (tryUpdate gc h t bytes).1 = true) : Moved nodes h (tryUpdate gc h t bytes).2 (along [t] bytes) ∧
      (0 ≤ (h.tracker t).limit → current (tryUpdate gc h t bytes).2 t ≤ (h.tracker t).limit) := by
  unfold tryUpdate at hr ⊢
  by_cases hlimit : (h.tracker t).limit < 0
  · rw [if_pos hlimit]
    exact ⟨incrementBy_moved h t bytes, fun h0 => absurd hlimit (not_lt.2 h0)⟩
  rw [if_neg hlimit] at hr ⊢
  by_cases hfirst : (tryIncrementBy h t bytes).1 = true
  · obtain ⟨hmoved, hle⟩ := tryIncrementBy_moved hfirst
    simp only [hfirst, if_true]
    exact ⟨hmoved, fun _ => hle⟩
  -- garbage collection has made room, and the second try succeeds
  have hmoved : Moved nodes h (gcMemory gc h t ((h.tracker t).limit - bytes)).2 fun _ => 0 := gcMemory_moved hinit hgc
  simp only [hfirst, if_false, Bool.false_eq_true] at hr ⊢
  split_ifs at hr ⊢
  obtain ⟨hsecond, hle⟩ := tryIncrementBy_moved hr
  have hsum := hmoved.trans hsecond
  simp only [zero_add] at hsum
  rw [hmoved.same] at hle
  exact ⟨hsum, fun _ => hle⟩

/-- one round that breaks: the tracker is limited and has no room -/
theorem tryUpdate_false (hinit : Initialised nodes h) (hgc : ∀ releases ∈ gc t, ∀ r ∈ releases, r.1 ∈ nodes)
    (hr : (tryUpdate gc h t bytes).1 = false) : Moved nodes h (tryUpdate gc h t bytes).2 (fun _ => 0) ∧
      0 ≤ (h.tracker t).limit ∧ (h.tracker t).limit < current (tryUpdate gc h t bytes).2 t + bytes := by
  unfold tryUpdate at hr ⊢
  by_cases hlimit : (h.tracker t).limit < 0
  · rw [if_pos hlimit] at hr
    cases hr
  rw [if_neg hlimit] at hr ⊢
  by_cases hfirst : (tryIncrementBy h t bytes).1 = true
  · simp only [hfirst, if_true] at hr
    cases hr
  have hroom := (tryIncrementBy_false hfirst).2
  have hmoved : Moved nodes h (gcMemory gc h t ((h.tracker t).limit - bytes)).2 fun _ => 0 := gcMemory_moved hinit hgc
  simp only [hfirst, if_false, Bool.false_eq_true] at hr ⊢
  split_ifs at hr ⊢ with hgcok
  · obtain ⟨heq, hlt⟩ := tryIncrementBy_false (by rw [hr]; exact Bool.false_ne_true)
    rw [heq]
    rw [hmoved.same] at hlt
    exact ⟨hmoved, not_lt.1 hlimit, hlt⟩
  · refine ⟨hmoved, not_lt.1 hlimit, ?_⟩
    have hfails : (gcMemory gc h t ((h.tracker t).limit - bytes)).1 = true := by simpa [expandLimit] using hgcok
    rcases gcMemory_fails hfails with hover | ⟨-, heq⟩
    · exact sub_lt_iff_lt_add.1 hover
    · rw [heq]
      exact hroom

/-- recording a step of the loop leaves the counters and the releases as they are -/
theorem record_moved {e : Event ι} (he : ∀ n b, e ≠ .freed n b) {δ : ι → ℤ} (hg : Moved nodes h g δ) :
    (record g e).tracker = h.tracker ∧ progress (record g e).log = e :: progress h.log ∧
      (Targets nodes h.log → Targets nodes (record g e).log) ∧
      ∀ u, current (record g e) u + freed (record g e).tracker (record g e).log u =
        current h u + freed h.tracker h.log u + δ u := by
  have htargets : Targets nodes h.log → Targets nodes (record g e).log := by
    intro ht n b hm
    rcases List.mem_cons.1 hm with heq | hm
    · exact absurd heq.symm (he n b)
    · exact hg.targets ht n b hm
  cases e with
  | freed n b => exact absurd rfl (he n b)
  | updated n c =>
    refine ⟨hg.same, congrArg (Event.updated n c :: ·) hg.events, htargets, fun u => ?_⟩
    rw [← hg.counters u]
    simp [freed, record, current]
  | gaveUp n c =>
    refine ⟨hg.same, congrArg (Event.gaveUp n c :: ·) hg.events, htargets, fun u => ?_⟩
    rw [← hg.counters u]
    simp [freed, record, current]

theorem along_cons {t : ι} {l : List ι} (ht : t ∉ l) (b : ℤ) (u : ι) :
    along (t :: l) b u = along [t] b u + along l b u := by
  by_cases hu : u = t
  · simp [along, hu, ht]
  · simp [along, hu]

/-- what the loop of `TryConsume` leaves: the trackers it updated have gained the bytes, each of them within its limit;
they are all, or the first ones up to a limited tracker without room -/
structure LoopSpec (nodes : Set ι) (h : Heap ι) (bytes : ℤ) (todo : List ι) (r : Bool × List ι × Heap ι)
    (after : ι → ℤ) : Prop where
  same : r.2.2.tracker = h.tracker
  targets : Targets nodes h.log → Targets nodes r.2.2.log
  counters : ∀ u, current r.2.2 u + freed r.2.2.tracker r.2.2.log u =
    current h u + freed h.tracker h.log u + along r.2.1 bytes u
  within : ∀ u ∈ r.2.1, 0 ≤ (h.tracker u).limit → after u ≤ (h.tracker u).limit
  prefixed : r.2.1 <+: todo
  success : r.1 = true → r.2.1 = todo ∧
    progress r.2.2.log = (todo.reverse.map fun u => .updated u (after u)) ++ progress h.log
  failure : r.1 = false → ∃ u ∈ todo, ∃ c, (progress r.2.2.log).head? = some (.gaveUp u c) ∧
    0 ≤ (h.tracker u).limit ∧ (h.tracker u).limit < c + bytes

theorem tryLoop_spec {todo : List ι} (hinit : Initialised nodes h) (hgc : GcWithin nodes gc todo)
    (hnodup : todo.Nodup) : ∃ after, LoopSpec nodes h bytes todo (tryLoop gc bytes h todo) after := by
  induction todo generalizing h with
  | nil =>
    refine ⟨fun _ => 0, rfl, fun ht => ht, fun u => ?_, fun u hu => absurd hu List.not_mem_nil, List.prefix_refl _,
      fun _ => ⟨rfl, rfl⟩, fun hf => by cases hf⟩
    simp [tryLoop, along]
  | cons t below ih =>
    obtain ⟨ht, hnodup⟩ := List.nodup_cons.1 hnodup
    have hgct := hgc t List.mem_cons_self
    unfold tryLoop
    by_cases hr : (tryUpdate gc h t bytes).1 = true
    · obtain ⟨hmoved, hlimit⟩ := tryUpdate_true hinit hgct hr
      obtain ⟨hsame, hevents, htargets, hcounters⟩ :=
        record_moved (e := .updated t (current (tryUpdate gc h t bytes).2 t)) (fun n b he => by cases he) hmoved
      have hinit' : Initialised nodes
          (record (tryUpdate gc h t bytes).2 (.updated t (current (tryUpdate gc h t bytes).2 t))) := by
        unfold Initialised
        rw [hsame]
        exact hinit
      obtain ⟨after, hspec⟩ := ih hinit' (fun u hu => hgc u (List.mem_cons_of_mem t hu)) hnodup
      have hbelow : ∀ u ∈ below, u ≠ t := fun u hu he => ht (he ▸ hu)
      simp only [hr, if_true]
      refine ⟨Function.update after t (current (tryUpdate gc h t bytes).2 t), hspec.same.trans hsame,
        fun h0 => hspec.targets (htargets h0), fun u => ?_, fun u hu hl => ?_,
        (List.prefix_cons_inj t).2 hspec.prefixed, fun hok => ?_, fun hf => ?_⟩
      · rw [hspec.counters u, hcounters u, along_cons (fun hm => ht (hspec.prefixed.subset hm)), add_assoc]
      · rcases List.mem_cons.1 hu with rfl | hu
        · rw [Function.update_self]
          exact hlimit hl
        · rw [Function.update_of_ne (hbelow u (hspec.prefixed.subset hu))]
          have hle := hspec.within u hu
          rw [hsame] at hle
          exact hle hl
      · obtain ⟨hall, hlog⟩ := hspec.success hok
        refine ⟨by rw [hall], ?_⟩
        have hmap : (below.reverse.map fun u => Event.updated u
            (Function.update after t (current (tryUpdate gc h t bytes).2 t) u)) =
              below.reverse.map fun u => Event.updated u (after u) := by
          apply List.map_congr_left
          intro u hu
          rw [Function.update_of_ne (hbelow u (List.mem_reverse.1 hu))]
        rw [hlog, hevents, List.reverse_cons, List.map_append, hmap, List.map_singleton, Function.update_self,
          List.append_assoc, List.singleton_append]
      · obtain ⟨u, hu, c, hlog, hl, hroom⟩ := hspec.failure hf
        rw [hsame] at hl hroom
        exact ⟨u, List.mem_cons_of_mem t hu, c, hlog, hl, hroom⟩
    · have hr' : (tryUpdate gc h t bytes).1 = false := Bool.eq_false_iff.2 hr
      obtain ⟨hmoved, hlimit, hroom⟩ := tryUpdate_false hinit hgct hr'
      obtain ⟨hsame, hevents, htargets, hcounters⟩ :=
        record_moved (e := .gaveUp t (current (tryUpdate gc h t bytes).2 t)) (fun n b he => by cases he) hmoved
      simp only [hr', Bool.false_eq_true, if_false]
      refine ⟨fun _ => 0, hsame, htargets, fun u => ?_, fun u hu => absurd hu List.not_mem_nil, List.nil_prefix,
        fun hok => absurd hok Bool.false_ne_true, fun _ => ⟨t, List.mem_cons_self, _, ?_, hlimit, hroom⟩⟩
      · rw [hcounters u]
        simp [along]
      · rw [hevents]
        rfl

/-- the loop of a call of `TryConsume`, which starts with an empty log and at the root -/
theorem tryLoop_call (bytes : ℤ) (hinit : Initialised nodes h) (ht : t ∈ nodes)
    (hgc : GcWithin nodes gc (h.tracker t).allTrackers) :
    ∃ after, LoopSpec nodes { h with log := [] } bytes (h.tracker t).allTrackers.reverse
      (tryLoop gc bytes { h with log := [] } (h.tracker t).allTrackers.reverse) after := by
  have hinit' : Initialised nodes { h with log := [] } := hinit
  exact tryLoop_spec hinit' (fun u hu => hgc u (List.mem_reverse.1 hu)) (List.nodup_reverse.2 (hinit.chain_nodup ht))

/-- the number of bytes that a call of `TryConsume` with this result consumes -/
def consumed (ok : Bool) (bytes : ℤ) : ℤ := if ok && decide (0 < bytes) then bytes else 0

/-- what a call of `TryConsume` changes -/
theorem tryConsume_counters (bytes : ℤ) (hinit : Initialised nodes h) (ht : t ∈ nodes)
    (hgc : GcWithin nodes gc (h.tracker t).allTrackers) :
    (tryConsume gc h t bytes).2.tracker = h.tracker ∧ Targets nodes (tryConsume gc h t bytes).2.log ∧
      ∀ u, current (tryConsume gc h t bytes).2 u = current h u +
        along (h.tracker t).allTrackers (consumed (tryConsume gc h t bytes).1 bytes) u -
          freed h.tracker (tryConsume gc h t bytes).2.log u := by
  have hempty : Targets nodes ([] : List (Event ι)) := fun n b hm => absurd hm List.not_mem_nil
  unfold tryConsume
  by_cases hbytes : bytes ≤ 0
  · rw [if_pos hbytes]
    refine ⟨rfl, hempty, fun u => ?_⟩
    simp [consumed, not_lt.2 hbytes, along_zero, freed, current]
  obtain ⟨after, hspec⟩ := tryLoop_call bytes hinit ht hgc
  have hnodup := List.nodup_reverse.2 (hinit.chain_nodup ht)
  simp only [if_neg hbytes]
  have hcounters : ∀ u, current (tryLoop gc bytes { h with log := [] } (h.tracker t).allTrackers.reverse).2.2 u =
      current h u + along (tryLoop gc bytes { h with log := [] } (h.tracker t).allTrackers.reverse).2.1 bytes u -
        freed h.tracker (tryLoop gc bytes { h with log := [] } (h.tracker t).allTrackers.reverse).2.2.log u := by
    intro u
    have hu := hspec.counters u
    have hzero : freed h.tracker [] u = 0 := rfl
    have hcur : current { h with log := [] } u = current h u := rfl
    rw [hspec.same, hzero, hcur, add_zero] at hu
    exact eq_sub_of_add_eq hu
  by_cases hok : (tryLoop gc bytes { h with log := [] } (h.tracker t).allTrackers.reverse).1 = true
  · simp only [hok, if_true]
    refine ⟨hspec.same, hspec.targets hempty, fun u => ?_⟩
    rw [hcounters u, (hspec.success hok).1]
    simp [consumed, not_le.1 hbytes, along]
  · simp only [hok, Bool.false_eq_true, if_false]
    obtain ⟨hsame, hlog⟩ := incrementAll_frame
      (tryLoop gc bytes { h with log := [] } (h.tracker t).allTrackers.reverse).2.2
      (tryLoop gc bytes { h with log := [] } (h.tracker t).allTrackers.reverse).2.1 (-bytes)
    refine ⟨hsame.trans hspec.same, hlog ▸ hspec.targets hempty, fun u => ?_⟩
    rw [current_incrementAll (hnodup.sublist hspec.prefixed.sublist), hcounters u, along_neg, hlog]
    simp only [consumed, Bool.false_and, Bool.false_eq_true, if_false, along_zero]
    ring

/-- **All or nothing.** If `TryConsume` returns true, every tracker of the chain has gained exactly the bytes, apart from
what the GC functions released, and each limited one was within its limit right after its own update (`after`). If it
returns false, nothing but those releases has changed any counter, and it gave up at a limited tracker of the chain whose
consumption plus the bytes exceeded its limit. -/
theorem tryConsume_all_or_nothing (h : Heap ι) (gc : GcFunctions ι) (nodes : Set ι) (t : ι) (bytes : ℤ)
    (hinit : Initialised nodes h) (ht : t ∈ nodes) (hgc : GcWithin nodes gc (h.tracker t).allTrackers)
    (hbytes : 0 < bytes) :
    let r := tryConsume gc h t bytes
    let chain := (h.tracker t).allTrackers
    (r.1 = true →
      (∀ u, current r.2 u = current h u + along chain bytes u - freed h.tracker r.2.log u) ∧
        ∃ after : ι → ℤ, (progress r.2.log = chain.map fun u => .updated u (after u)) ∧
          ∀ u ∈ chain, 0 ≤ (h.tracker u).limit → after u ≤ (h.tracker u).limit) ∧
      (r.1 = false →
        (∀ u, current r.2 u = current h u - freed h.tracker r.2.log u) ∧
          ∃ u ∈ chain, ∃ c, (progress r.2.log).head? = some (.gaveUp u c) ∧
            0 ≤ (h.tracker u).limit ∧ (h.tracker u).limit < c + bytes) := by
  intro r chain
  have hcounters := (tryConsume_counters bytes hinit ht hgc).2.2
  obtain ⟨after, hspec⟩ := tryLoop_call bytes hinit ht hgc
  have hr : r = tryConsume gc h t bytes := rfl
  constructor
  · intro hok
    refine ⟨fun u => ?_, ?_⟩
    · rw [hcounters u, ← hr, hok]
      simp [consumed, hbytes, chain]
    · simp only [hr, tryConsume, if_neg (not_le.2 hbytes)] at hok ⊢
      split_ifs at hok ⊢ with hloop
      obtain ⟨hall, hlog⟩ := hspec.success hloop
      refine ⟨after, by simpa [progress] using hlog, fun u hu hl => ?_⟩
      apply hspec.within u _ hl
      rw [hall]
      exact List.mem_reverse.2 hu
  · intro hfail
    refine ⟨fun u => ?_, ?_⟩
    · rw [hcounters u, ← hr, hfail]
      simp [consumed, along_zero]
    · simp only [hr, tryConsume, if_neg (not_le.2 hbytes)] at hfail ⊢
      split_ifs at hfail ⊢ with hloop
      obtain ⟨u, hu, c, hlog, hl, hroom⟩ := hspec.failure (Bool.eq_false_iff.2 hloop)
      rw [(incrementAll_frame _ _ _).2]
      exact ⟨u, List.mem_reverse.1 hu, c, hlog, hl, hroom⟩

/-- a root with limit 10 and a child of it without a limit -/
def twoTrackers (n : ℕ) : MemTracker ℕ :=
  if n = 0 then ⟨10, "root", none, [0]⟩ else if n = 1 then ⟨-1, "child", some 0, [1, 0]⟩ else ⟨-1, "", none, [n]⟩

/-- eight bytes are consumed at the child; a GC function of the root will release four of them -/
def eightBytes : Heap ℕ := ⟨twoTrackers, fun n => HighWaterMark.new (if n < 2 then 8 else 0), []⟩

def releaseFour (n : ℕ) : List (List (ℕ × ℤ)) := if n = 0 then [[(1, 4)]] else []

theorem eightBytes_initialised : Initialised {0, 1} eightBytes := by
  constructor
  · rintro n (rfl | rfl)
    · rfl
    · rfl
  · rintro n (rfl | rfl) p hp
    · cases hp
    · cases hp
      exact Or.inl rfl

/-- five more bytes fit after the garbage collection; without it they do not -/
theorem tryConsume_all_or_nothing_five :
    ((tryConsume releaseFour eightBytes 1 5).1 = true ∧
      ∀ u, current (tryConsume releaseFour eightBytes 1 5).2 u = current eightBytes u + along [1, 0] 5 u -
        freed twoTrackers (tryConsume releaseFour eightBytes 1 5).2.log u) ∧
      (tryConsume (fun _ => []) eightBytes 1 5).1 = false ∧
        ∀ u, current (tryConsume (fun _ => []) eightBytes 1 5).2 u = current eightBytes u -
          freed twoTrackers (tryConsume (fun _ => []) eightBytes 1 5).2.log u := by
  have hnone : GcWithin {0, 1} (fun _ : ℕ => []) [1, 0] := fun u _ f hf => absurd hf List.not_mem_nil
  have hfour : GcWithin {0, 1} releaseFour [1, 0] := by
    simp [GcWithin, releaseFour]
  refine ⟨⟨by decide, ?_⟩, by decide, ?_⟩
  · exact ((tryConsume_all_or_nothing eightBytes releaseFour {0, 1} 1 5 eightBytes_initialised (Or.inr rfl) hfour
      (by decide)).1 (by decide)).1
  · exact ((tryConsume_all_or_nothing eightBytes (fun _ => []) {0, 1} 1 5 eightBytes_initialised (Or.inr rfl) hnone
      (by decide)).2 (by decide)).1

end MemTracker

end Bboy
