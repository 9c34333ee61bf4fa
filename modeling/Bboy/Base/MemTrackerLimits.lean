/-
`TryConsume` and `Release` (`mem_tracker.cc`) by any number of threads, on a tree of trackers that does not change. One
step is one atomic operation on a counter, or on a `gc_lock_`.

Model: the counters, the locks, and the calls that run, each with the place where it is. A GC function releases amounts
that were obtained before, at any tracker, for as long as it likes. As ghosts, the amounts obtained by each `TryConsume`
that returned true, and the amounts whose `Release` has begun.

- `Call.share`: what a call that has not returned has added to a counter, or has still to take from it.
- `Inv`: each counter is the subtotal of the amounts obtained minus released, plus the shares of the calls. Counters grow
  by `TryIncrementBy`, within the limit, or at trackers without a limit.
- `limits_hold`: no limit is ever exceeded; and when no call runs, the consumption of each tracker is what was obtained
  minus released through it and its descendants.
-/
import Bboy.Core.Machine
import Bboy.Core.Slots
import Bboy.Base.MemTracker

namespace Bboy.MemTracker.Concurrent

open Core

variable {ι : Type} [DecidableEq ι]

/-! ## Model -/

/-- a tree of initialised trackers, with the number of GC functions of each -/
structure Tree (ι : Type) where
  nodes : Finset ι
  tracker : ι → MemTracker ι
  gcFunctions : ι → ℕ
  forest : IsForest ↑nodes (fun t => (tracker t).parent) fun t => (tracker t).allTrackers

def Tree.chain (T : Tree ι) (t : ι) : List ι := (T.tracker t).allTrackers

def Tree.limit (T : Tree ι) (t : ι) : ℤ := (T.tracker t).limit

/-- where a thread is in `GcMemory` -/
inductive GcPc (ι : Type) where
  | locking
  | checking
  | calling (left : ℕ)
  /-- in a GC function, in a `Release` that has still to decrement the counters of `todo` -/
  | inFunction (left : ℕ) (bytes : ℤ) (todo : List ι)
  | rechecking (left : ℕ)
  | finishing
deriving DecidableEq, Repr

/-- where a call is: `updated` are the trackers that `TryConsume` has updated, `below` the ones below `t` -/
inductive Pc (ι : Type) where
  | releasing (todo : List ι)
  | trying (updated below : List ι)
  | loading (updated : List ι) (t : ι) (below : List ι) (retry : Bool)
  | swapping (updated : List ι) (t : ι) (below : List ι) (retry : Bool) (oldVal : ℤ)
  | collecting (updated : List ι) (t : ι) (below : List ι) (gc : GcPc ι)
  | rollingBack (todo : List ι)
  | returning (ok : Bool)
deriving DecidableEq, Repr

structure Call (ι : Type) where
  tracker : ι
  bytes : ℤ
  pc : Pc ι
deriving DecidableEq, Repr

structure St (ι : Type) where
  current : ι → ℤ
  gcLocked : ι → Bool
  calls : List (Call ι)
  /-- ghost: the amounts obtained at each tracker -/
  obtained : ι → ℤ
  /-- ghost: the amounts released at each tracker -/
  released : ι → ℤ

/-- an atomic increment of a counter -/
def add (s : St ι) (t : ι) (amount : ℤ) : St ι := { s with current := Function.update s.current t (s.current t + amount) }

def setLock (s : St ι) (t : ι) (locked : Bool) : St ι := { s with gcLocked := Function.update s.gcLocked t locked }

/-- the next step of a call in `GcMemory(limit_ - bytes)` of `t`, with what follows in `TryConsume` -/
def advanceGc (T : Tree ι) (s : St ι) (bytes : ℤ) (updated : List ι) (t : ι) (below : List ι) :
    GcPc ι → Option (St ι × Pc ι)
  | .locking => if s.gcLocked t then none else some (setLock s t true, .collecting updated t below .checking)
  | .checking =>
    if toUint64 (s.current t) < toUint64 (T.limit t - bytes) then
      some (setLock s t false, .loading updated t below true)
    else some (s, .collecting updated t below (.calling (T.gcFunctions t)))
  | .calling 0 => some (s, .collecting updated t below .finishing)
  | .calling (left + 1) => some (s, .collecting updated t below (.inFunction left 0 []))
  | .inFunction _ _ [] => none
  | .inFunction left amount (u :: todo) =>
    some (add s u (-amount), .collecting updated t below (.inFunction left amount todo))
  | .rechecking left =>
    if s.current t ≤ T.limit t - bytes then some (s, .collecting updated t below .finishing)
    else some (s, .collecting updated t below (.calling left))
  | .finishing =>
    if T.limit t - bytes < s.current t then some (setLock s t false, .rollingBack updated.reverse)
    else some (setLock s t false, .loading updated t below true)

/-- the next step of a call -/
def advance (T : Tree ι) (s : St ι) (c : Call ι) : Option (St ι × Pc ι) :=
  match c.pc with
  | .releasing [] => none
  | .releasing (t :: todo) => some (add s t (-c.bytes), .releasing todo)
  | .trying _ [] => some (s, .returning true)
  | .trying updated (t :: below) =>
    if T.limit t < 0 then some (add s t c.bytes, .trying (t :: updated) below)
    else some (s, .loading updated t below false)
  | .loading updated t below retry => some (s, .swapping updated t below retry (s.current t))
  | .swapping updated t below retry oldVal =>
    if T.limit t < oldVal + c.bytes then
      -- the second try ends the loop, and so does `GcMemory` of a negative maximum
      if retry then some (s, .rollingBack updated.reverse)
      else if T.limit t - c.bytes < 0 then some (s, .rollingBack updated.reverse)
      else some (s, .collecting updated t below .locking)
    else if s.current t = oldVal then
      some ({ s with current := Function.update s.current t (oldVal + c.bytes) }, .trying (t :: updated) below)
    else some (s, .loading updated t below retry)
  | .collecting updated t below gc => advanceGc T s c.bytes updated t below gc
  | .rollingBack [] => some (s, .returning false)
  | .rollingBack (t :: todo) => some (add s t (-c.bytes), .rollingBack todo)
  | .returning _ => none

/-- the counters that `Release` of `bytes` decrements -/
def releaseTodo (T : Tree ι) (t : ι) (bytes : ℤ) : List ι := if bytes = 0 then [] else T.chain t

/-- an amount that was obtained at `t` and not released yet -/
def Releasable (T : Tree ι) (s : St ι) (t : ι) (bytes : ℤ) : Prop :=
  t ∈ T.nodes ∧ 0 ≤ bytes ∧ bytes ≤ s.obtained t - s.released t

instance (T : Tree ι) (s : St ι) (t : ι) (bytes : ℤ) : Decidable (Releasable T s t bytes) :=
  inferInstanceAs (Decidable (_ ∧ _ ∧ _))

def credit (ledger : ι → ℤ) (t : ι) (bytes : ℤ) : ι → ℤ := Function.update ledger t (ledger t + bytes)

inductive Op (ι : Type) where
  | tryConsume (t : ι) (bytes : ℤ)
  | release (t : ι) (bytes : ℤ)
  | step (i : ℕ)
  /-- the GC function that call `i` is in begins a `Release` -/
  | gcRelease (i : ℕ) (t : ι) (bytes : ℤ)
  | gcReturn (i : ℕ)
  | ret (i : ℕ)

def startGcRelease (T : Tree ι) (s : St ι) (i : ℕ) (t : ι) (bytes : ℤ) : Option (St ι) :=
  match s.calls[i]? with
  | some ⟨tracker, b, .collecting updated u below (.inFunction left _ [])⟩ =>
    if Releasable T s t bytes then
      let pc := .collecting updated u below (.inFunction left bytes (releaseTodo T t bytes))
      some { s with calls := s.calls.set i ⟨tracker, b, pc⟩, released := credit s.released t bytes }
    else none
  | _ => none

def gcReturn (s : St ι) (i : ℕ) : Option (St ι) :=
  match s.calls[i]? with
  | some ⟨tracker, b, .collecting updated u below (.inFunction left _ [])⟩ =>
    some { s with calls := s.calls.set i ⟨tracker, b, .collecting updated u below (.rechecking left)⟩ }
  | _ => none

def ret (s : St ι) (i : ℕ) : Option (St ι) :=
  match s.calls[i]? with
  | some ⟨_, _, .releasing []⟩ => some { s with calls := s.calls.eraseIdx i }
  | some ⟨_, _, .returning false⟩ => some { s with calls := s.calls.eraseIdx i }
  | some ⟨t, bytes, .returning true⟩ =>
    some { s with calls := s.calls.eraseIdx i, obtained := credit s.obtained t bytes }
  | _ => none

def memTrackers (T : Tree ι) : Machine (St ι) (Op ι) where
  init := ⟨fun _ => 0, fun _ => false, [], fun _ => 0, fun _ => 0⟩
  step s
    | .tryConsume t bytes =>
      if t ∈ T.nodes ∧ 0 < bytes then
        some { s with calls := s.calls ++ [⟨t, bytes, .trying [] (T.chain t).reverse⟩] }
      else none
    | .release t bytes =>
      if Releasable T s t bytes then
        some { s with calls := s.calls ++ [⟨t, bytes, .releasing (releaseTodo T t bytes)⟩],
                      released := credit s.released t bytes }
      else none
    | .step i =>
      s.calls[i]?.bind fun c =>
        (advance T s c).map fun r => { r.1 with calls := s.calls.set i { c with pc := r.2 } }
    | .gcRelease i t bytes => startGcRelease T s i t bytes
    | .gcReturn i => gcReturn s i
    | .ret i => ret s i

/-! ## What a call has added -/

/-- the counters that a call has added its bytes to, or has still to take them from -/
def Pc.held (chain : List ι) : Pc ι → List ι
  | .releasing todo => todo
  | .trying updated _ => updated
  | .loading updated _ _ _ => updated
  | .swapping updated _ _ _ _ => updated
  | .collecting updated _ _ _ => updated
  | .rollingBack todo => todo
  | .returning ok => if ok then chain else []

/-- the amount that the GC function is releasing, and the counters it is still to be taken from -/
def Pc.gcHeld : Pc ι → ℤ × List ι
  | .collecting _ _ _ (.inFunction _ amount todo) => (amount, todo)
  | _ => (0, [])

/-- `amount` at each occurrence in the list -/
def spread (amount : ℤ) (l : List ι) (u : ι) : ℤ := amount * l.count u

def Call.share (T : Tree ι) (c : Call ι) (u : ι) : ℤ :=
  spread c.bytes (c.pc.held (T.chain c.tracker)) u + spread c.pc.gcHeld.1 c.pc.gcHeld.2 u

@[simp] theorem spread_nil (amount : ℤ) (u : ι) : spread amount [] u = 0 := by simp [spread]

theorem spread_cons (amount : ℤ) (t : ι) (l : List ι) (u : ι) :
    spread amount (t :: l) u = spread amount l u + if u = t then amount else 0 := by
  unfold spread
  rw [List.count_cons]
  by_cases hu : u = t
  · simp [hu, mul_add]
  · simp [hu, Ne.symm hu]

theorem spread_reverse (amount : ℤ) (l : List ι) (u : ι) : spread amount l.reverse u = spread amount l u := by
  rw [spread, List.count_reverse, spread]

/-- on a chain, which has no tracker twice, it is what an update along the chain adds -/
theorem spread_chain (T : Tree ι) {t : ι} (ht : t ∈ T.nodes) (amount : ℤ) (u : ι) :
    spread amount (T.chain t) u = along (T.chain t) amount u := by
  have hnodup : (T.chain t).Nodup := T.forest.chain_nodup ht
  unfold spread along
  by_cases hu : u ∈ T.chain t
  · rw [List.count_eq_one_of_mem hnodup hu, if_pos hu]
    simp
  · rw [List.count_eq_zero_of_not_mem hu, if_neg hu]
    simp

theorem spread_releaseTodo (T : Tree ι) {t : ι} (ht : t ∈ T.nodes) (bytes : ℤ) (u : ι) :
    spread bytes (releaseTodo T t bytes) u = along (T.chain t) bytes u := by
  unfold releaseTodo
  split_ifs with hb
  · simp [hb, along]
  · exact spread_chain T ht bytes u

/-! ## One step of a call -/

/-- the trackers of the chain are, from below, the ones still to come, the current one and the ones updated -/
def PcInv (chain : List ι) : Pc ι → Prop
  | .trying updated below => below.reverse ++ updated = chain
  | .loading updated t below _ => below.reverse ++ t :: updated = chain
  | .swapping updated t below _ _ => below.reverse ++ t :: updated = chain
  | .collecting updated t below _ => below.reverse ++ t :: updated = chain
  | _ => True

structure CallInv (T : Tree ι) (c : Call ι) : Prop where
  mem : c.tracker ∈ T.nodes
  nonneg : 0 ≤ c.bytes
  gcNonneg : 0 ≤ c.pc.gcHeld.1
  pc : PcInv (T.chain c.tracker) c.pc

/-- a step of call `c`, which goes on at `pc`: the counters move as the share of the call does, and within the limits -/
structure Advanced (T : Tree ι) (s : St ι) (c : Call ι) (s' : St ι) (pc : Pc ι) : Prop where
  frame : s'.calls = s.calls ∧ s'.obtained = s.obtained ∧ s'.released = s.released
  inv : CallInv T { c with pc := pc }
  share : ∀ u, s'.current u + c.share T u = s.current u + Call.share T { c with pc := pc } u
  limit : ∀ u, 0 ≤ T.limit u → s.current u ≤ T.limit u → s'.current u ≤ T.limit u

variable {T : Tree ι} {s s' : St ι} {c : Call ι} {pc : Pc ι} {t : ι} {i : ℕ}

theorem add_current (s : St ι) (t : ι) (amount : ℤ) (u : ι) :
    (add s t amount).current u = s.current u + if u = t then amount else 0 := by
  by_cases hu : u = t
  · simp [add, hu]
  · simp [add, hu]

/-- a step that changes no counter, and keeps what the call holds -/
theorem Advanced.silent (h : CallInv T c) (hcurrent : s'.current = s.current)
    (hframe : s'.calls = s.calls ∧ s'.obtained = s.obtained ∧ s'.released = s.released)
    (hshare : ∀ u, Call.share T { c with pc := pc } u = c.share T u) (hgc : 0 ≤ pc.gcHeld.1)
    (hpc : PcInv (T.chain c.tracker) pc) : Advanced T s c s' pc := by
  refine ⟨hframe, ⟨h.mem, h.nonneg, hgc, hpc⟩, fun u => ?_, fun u _ hle => ?_⟩
  · rw [hcurrent, hshare]
  · rwa [hcurrent]

/-- a step that takes an amount from the first counter of a list that the call holds -/
theorem Advanced.take (h : CallInv T c) {amount : ℤ} (hamount : 0 ≤ amount)
    (hshare : ∀ u, c.share T u = Call.share T { c with pc := pc } u + if u = t then amount else 0)
    (hgc : 0 ≤ pc.gcHeld.1) (hpc : PcInv (T.chain c.tracker) pc) : Advanced T s c (add s t (-amount)) pc := by
  refine ⟨⟨rfl, rfl, rfl⟩, ⟨h.mem, h.nonneg, hgc, hpc⟩, fun u => ?_, fun u _ hle => ?_⟩
  · rw [add_current, hshare]
    split_ifs <;> ring
  · rw [add_current]
    split_ifs <;> omega

/-- a step that adds the bytes to the counter of the current tracker -/
theorem Advanced.put (h : CallInv T c) {updated below : List ι} (hcurrent : s'.current = (add s t c.bytes).current)
    (hframe : s'.calls = s.calls ∧ s'.obtained = s.obtained ∧ s'.released = s.released)
    (hheld : ∀ u, c.share T u = spread c.bytes updated u) (hchain : below.reverse ++ t :: updated = T.chain c.tracker)
    (hlimit : 0 ≤ T.limit t → s.current t + c.bytes ≤ T.limit t) :
    Advanced T s c s' (.trying (t :: updated) below) := by
  refine ⟨hframe, ⟨h.mem, h.nonneg, le_rfl, hchain⟩, fun u => ?_, fun u hu hle => ?_⟩
  · have hnew : Call.share T { c with pc := .trying (t :: updated) below } u =
        spread c.bytes updated u + if u = t then c.bytes else 0 := by
      simp [Call.share, Pc.held, Pc.gcHeld, spread_cons]
    rw [hcurrent, add_current, hheld, hnew]
    ring
  · rw [hcurrent, add_current]
    by_cases hut : u = t
    · rw [hut, if_pos rfl]
      exact hlimit (hut ▸ hu)
    · rw [if_neg hut, add_zero]
      exact hle

theorem advanceGc_spec {updated below : List ι} {gc : GcPc ι} (h : CallInv T c)
    (hpc : c.pc = .collecting updated t below gc)
    (hs : advanceGc T s c.bytes updated t below gc = some (s', pc)) : Advanced T s c s' pc := by
  have hchain : below.reverse ++ t :: updated = T.chain c.tracker := by
    have hinv := h.pc
    rwa [hpc] at hinv
  have hgc := h.gcNonneg
  rw [hpc] at hgc
  have hshare : ∀ u, c.share T u =
      spread c.bytes updated u + spread (Pc.collecting updated t below gc).gcHeld.1
        (Pc.collecting updated t below gc).gcHeld.2 u := by
    intro u
    rw [Call.share, hpc]
    rfl
  cases gc with
  | locking =>
    simp only [advanceGc] at hs
    split_ifs at hs
    cases hs
    exact Advanced.silent h rfl ⟨rfl, rfl, rfl⟩ (fun u => by rw [hshare]; rfl) le_rfl hchain
  | checking =>
    simp only [advanceGc] at hs
    split_ifs at hs
    · cases hs
      exact Advanced.silent h rfl ⟨rfl, rfl, rfl⟩ (fun u => by rw [hshare]; rfl) le_rfl hchain
    · cases hs
      exact Advanced.silent h rfl ⟨rfl, rfl, rfl⟩ (fun u => by rw [hshare]; rfl) le_rfl hchain
  | calling left =>
    cases left with
    | zero =>
      cases hs
      exact Advanced.silent h rfl ⟨rfl, rfl, rfl⟩ (fun u => by rw [hshare]; rfl) le_rfl hchain
    | succ left =>
      cases hs
      exact Advanced.silent h rfl ⟨rfl, rfl, rfl⟩ (fun u => by rw [hshare]; rfl) le_rfl hchain
  | inFunction left amount todo =>
    cases todo with
    | nil => cases hs
    | cons v todo =>
      cases hs
      refine Advanced.take h hgc (fun u => ?_) hgc hchain
      have hcons : spread amount (v :: todo) u = spread amount todo u + if u = v then amount else 0 :=
        spread_cons amount v todo u
      rw [hshare]
      simp only [Call.share, Pc.held, Pc.gcHeld, hcons]
      ring
  | rechecking left =>
    simp only [advanceGc] at hs
    split_ifs at hs
    · cases hs
      exact Advanced.silent h rfl ⟨rfl, rfl, rfl⟩ (fun u => by rw [hshare]; rfl) le_rfl hchain
    · cases hs
      exact Advanced.silent h rfl ⟨rfl, rfl, rfl⟩ (fun u => by rw [hshare]; rfl) le_rfl hchain
  | finishing =>
    simp only [advanceGc] at hs
    split_ifs at hs
    · cases hs
      refine Advanced.silent h rfl ⟨rfl, rfl, rfl⟩ (fun u => ?_) le_rfl trivial
      rw [hshare]
      simp [Call.share, Pc.held, Pc.gcHeld, spread_reverse]
    · cases hs
      exact Advanced.silent h rfl ⟨rfl, rfl, rfl⟩ (fun u => by rw [hshare]; rfl) le_rfl hchain

/-- a step of the loop of `TryConsume` from one tracker to the next -/
theorem trying_spec {updated below : List ι} (h : CallInv T c) (hpc : c.pc = .trying updated below)
    (hs : advance T s c = some (s', pc)) : Advanced T s c s' pc := by
  have hinv := h.pc
  have hheld : ∀ u, c.share T u = spread c.bytes updated u := by
    intro u
    simp [Call.share, hpc, Pc.held, Pc.gcHeld]
  rw [hpc] at hinv
  simp only [advance, hpc] at hs
  cases below with
  | nil =>
    cases hs
    have hchain : updated = T.chain c.tracker := hinv
    refine Advanced.silent h rfl ⟨rfl, rfl, rfl⟩ (fun u => ?_) le_rfl trivial
    rw [hheld]
    simp [Call.share, Pc.held, Pc.gcHeld, hchain]
  | cons t below =>
    have hchain : below.reverse ++ t :: updated = T.chain c.tracker := by
      simpa [PcInv] using hinv
    simp only at hs
    split_ifs at hs with hlimit
    · cases hs
      exact Advanced.put h rfl ⟨rfl, rfl, rfl⟩ hheld hchain fun h0 => absurd hlimit (not_lt.2 h0)
    · cases hs
      refine Advanced.silent h rfl ⟨rfl, rfl, rfl⟩ (fun u => ?_) le_rfl hchain
      rw [hheld]
      simp [Call.share, Pc.held, Pc.gcHeld]

/-- the compare-and-set of `TryIncrementBy`, and what follows when there is no room -/
theorem swapping_spec {updated below : List ι} {retry : Bool} {oldVal : ℤ} (h : CallInv T c)
    (hpc : c.pc = .swapping updated t below retry oldVal) (hs : advance T s c = some (s', pc)) :
    Advanced T s c s' pc := by
  have hinv := h.pc
  have hheld : ∀ u, c.share T u = spread c.bytes updated u := by
    intro u
    simp [Call.share, hpc, Pc.held, Pc.gcHeld]
  have hback : ∀ u, Call.share T { c with pc := .rollingBack updated.reverse } u = c.share T u := by
    intro u
    rw [hheld]
    simp [Call.share, Pc.held, Pc.gcHeld, spread_reverse]
  rw [hpc] at hinv
  simp only [advance, hpc] at hs
  split_ifs at hs with hover hretry hneg hcas
  · cases hs
    exact Advanced.silent h rfl ⟨rfl, rfl, rfl⟩ hback le_rfl trivial
  · cases hs
    exact Advanced.silent h rfl ⟨rfl, rfl, rfl⟩ hback le_rfl trivial
  · cases hs
    refine Advanced.silent h rfl ⟨rfl, rfl, rfl⟩ (fun u => ?_) le_rfl hinv
    rw [hheld]
    simp [Call.share, Pc.held, Pc.gcHeld]
  · -- the compare-and-set succeeds, on a value that leaves room
    cases hs
    refine Advanced.put h ?_ ⟨rfl, rfl, rfl⟩ hheld hinv fun _ => ?_
    · simp only [add, hcas]
    · rw [hcas]
      exact not_lt.1 hover
  · cases hs
    refine Advanced.silent h rfl ⟨rfl, rfl, rfl⟩ (fun u => ?_) le_rfl hinv
    rw [hheld]
    simp [Call.share, Pc.held, Pc.gcHeld]

/-- every step of a call moves the counters as the share of the call does, and within the limits -/
theorem advance_spec (h : CallInv T c) (hs : advance T s c = some (s', pc)) : Advanced T s c s' pc := by
  have hinv := h.pc
  cases hpc : c.pc with
  | releasing todo =>
    simp only [advance, hpc] at hs
    cases todo with
    | nil => cases hs
    | cons t todo =>
      cases hs
      refine Advanced.take h h.nonneg (fun u => ?_) le_rfl trivial
      simp [Call.share, hpc, Pc.held, Pc.gcHeld, spread_cons]
  | trying updated below => exact trying_spec h hpc hs
  | loading updated t below retry =>
    rw [hpc] at hinv
    simp only [advance, hpc] at hs
    cases hs
    refine Advanced.silent h rfl ⟨rfl, rfl, rfl⟩ (fun u => ?_) le_rfl hinv
    simp [Call.share, hpc, Pc.held, Pc.gcHeld]
  | swapping updated t below retry oldVal => exact swapping_spec h hpc hs
  | collecting updated t below gc =>
    simp only [advance, hpc] at hs
    exact advanceGc_spec h hpc hs
  | rollingBack todo =>
    simp only [advance, hpc] at hs
    cases todo with
    | nil =>
      cases hs
      refine Advanced.silent h rfl ⟨rfl, rfl, rfl⟩ (fun u => ?_) le_rfl trivial
      simp [Call.share, hpc, Pc.held, Pc.gcHeld]
    | cons t todo =>
      cases hs
      refine Advanced.take h h.nonneg (fun u => ?_) le_rfl trivial
      simp [Call.share, hpc, Pc.held, Pc.gcHeld, spread_cons]
  | returning ok =>
    simp only [advance, hpc] at hs
    cases hs

/-! ## The invariant -/

/-- the amounts obtained minus released through `t` and its descendants -/
def outstanding (T : Tree ι) (s : St ι) (t : ι) : ℤ :=
  subtotal T.nodes T.chain (fun n => s.obtained n - s.released n) t

structure Inv (T : Tree ι) (s : St ι) : Prop where
  calls : ∀ c ∈ s.calls, CallInv T c
  account : ∀ u, s.current u = outstanding T s u + (s.calls.map fun c => c.share T u).sum
  limits : ∀ u, 0 ≤ T.limit u → s.current u ≤ T.limit u

theorem outstanding_obtained (ht : t ∈ T.nodes) {obtained released : ι → ℤ} (bytes : ℤ) (u : ι) :
    subtotal T.nodes T.chain (fun n => credit obtained t bytes n - released n) u =
      subtotal T.nodes T.chain (fun n => obtained n - released n) u + along (T.chain t) bytes u := by
  rw [← subtotal_add _ _ ht]
  refine subtotal_congr (fun n _ => ?_) u
  by_cases hn : n = t
  · simp only [hn, credit, Function.update_self]
    ring
  · simp [credit, hn]

theorem outstanding_released (ht : t ∈ T.nodes) (obtained released : ι → ℤ) (bytes : ℤ) (u : ι) :
    subtotal T.nodes T.chain (fun n => obtained n - credit released t bytes n) u =
      subtotal T.nodes T.chain (fun n => obtained n - released n) u - along (T.chain t) bytes u := by
  rw [sub_eq_add_neg, ← along_neg, ← subtotal_add _ _ ht]
  refine subtotal_congr (fun n _ => ?_) u
  by_cases hn : n = t
  · simp only [hn, credit, Function.update_self]
    ring
  · simp [credit, hn]

/-- a call is added, and the ledger pays for its share -/
theorem inv_append (h : Inv T s) (hc : CallInv T c) (hcalls : s'.calls = s.calls ++ [c]) (hcurrent : s'.current = s.current)
    (hpaid : ∀ u, outstanding T s u = outstanding T s' u + c.share T u) : Inv T s' := by
  refine ⟨fun d hd => ?_, fun u => ?_, fun u hu => ?_⟩
  · rw [hcalls] at hd
    rcases List.mem_append.1 hd with hd | hd
    · exact h.calls d hd
    · rw [List.mem_singleton.1 hd]
      exact hc
  · rw [hcurrent, h.account u, hcalls, hpaid u, List.map_append, List.sum_append]
    simp only [List.map_singleton, List.sum_singleton]
    ring
  · rw [hcurrent]
    exact h.limits u hu

/-- call `i` is replaced, and the ledger pays for the change of its share -/
theorem inv_set {d : Call ι} (h : Inv T s) (hi : s.calls[i]? = some c) (hd : CallInv T d)
    (hcalls : s'.calls = s.calls.set i d)
    (hpaid : ∀ u, s'.current u + outstanding T s u + c.share T u = s.current u + outstanding T s' u + d.share T u)
    (hlimit : ∀ u, 0 ≤ T.limit u → s.current u ≤ T.limit u → s'.current u ≤ T.limit u) : Inv T s' := by
  refine ⟨fun e he => ?_, fun u => ?_, fun u hu => hlimit u hu (h.limits u hu)⟩
  · rw [hcalls] at he
    rcases List.mem_or_eq_of_mem_set he with he | rfl
    · exact h.calls e he
    · exact hd
  · have hold := h.account u
    rw [slot_sum hi] at hold
    rw [hcalls, slot_sum_set hi]
    have hu := hpaid u
    omega

/-- call `i` is removed, and its share goes to the ledger -/
theorem inv_erase (h : Inv T s) (hi : s.calls[i]? = some c) (hcalls : s'.calls = s.calls.eraseIdx i)
    (hcurrent : s'.current = s.current) (hpaid : ∀ u, outstanding T s' u = outstanding T s u + c.share T u) :
    Inv T s' := by
  refine ⟨fun e he => ?_, fun u => ?_, fun u hu => ?_⟩
  · rw [hcalls] at he
    exact h.calls e (List.mem_of_mem_eraseIdx he)
  · rw [hcurrent, h.account u, hcalls, hpaid u, slot_sum hi]
    ring
  · rw [hcurrent]
    exact h.limits u hu

theorem inv_ret (h : Inv T s) (hs : ret s i = some s') : Inv T s' := by
  unfold ret at hs
  split at hs
  · rename_i t bytes hi
    cases hs
    exact inv_erase h hi rfl rfl fun u => by simp [outstanding, Call.share, Pc.held, Pc.gcHeld]
  · rename_i t bytes hi
    cases hs
    exact inv_erase h hi rfl rfl fun u => by simp [outstanding, Call.share, Pc.held, Pc.gcHeld]
  · rename_i t bytes hi
    cases hs
    have ht : t ∈ T.nodes := (h.calls _ (List.mem_of_getElem? hi)).mem
    refine inv_erase h hi rfl rfl fun u => ?_
    have hshare : Call.share T ⟨t, bytes, .returning true⟩ u = along (T.chain t) bytes u := by
      simp [Call.share, Pc.held, Pc.gcHeld, spread_chain T ht]
    rw [hshare]
    exact outstanding_obtained ht bytes u
  · cases hs

theorem inv_startGcRelease {bytes : ℤ} (h : Inv T s) (hs : startGcRelease T s i t bytes = some s') : Inv T s' := by
  unfold startGcRelease at hs
  split at hs
  · rename_i tracker b updated v below left amount hi
    simp only at hs
    split_ifs at hs with hguard
    cases hs
    have hc := h.calls _ (List.mem_of_getElem? hi)
    have hd : CallInv T ⟨tracker, b, .collecting updated v below (.inFunction left bytes (releaseTodo T t bytes))⟩ :=
      ⟨hc.mem, hc.nonneg, hguard.2.1, hc.pc⟩
    refine inv_set h hi hd rfl (fun u => ?_) fun u _ hle => hle
    have hledger := outstanding_released hguard.1 s.obtained s.released bytes u
    simp only [outstanding, Call.share, Pc.held, Pc.gcHeld, spread_nil, spread_releaseTodo T hguard.1]
    rw [hledger]
    ring
  · cases hs

theorem inv_gcReturn (h : Inv T s) (hs : gcReturn s i = some s') : Inv T s' := by
  unfold gcReturn at hs
  split at hs
  · rename_i tracker b updated v below left amount hi
    cases hs
    have hc := h.calls _ (List.mem_of_getElem? hi)
    have hd : CallInv T ⟨tracker, b, .collecting updated v below (.rechecking left)⟩ :=
      ⟨hc.mem, hc.nonneg, le_rfl, hc.pc⟩
    refine inv_set h hi hd rfl (fun u => ?_) fun u _ hle => hle
    simp [outstanding, Call.share, Pc.held, Pc.gcHeld]
  · cases hs

theorem step_inv {o : Op ι} (h : Inv T s) (hs : (memTrackers T).step s o = some s') : Inv T s' := by
  cases o with
  | tryConsume t bytes =>
    simp only [memTrackers] at hs
    split_ifs at hs with hguard
    cases hs
    have hpc : PcInv (T.chain t) (.trying [] (T.chain t).reverse) := by simp [PcInv]
    refine inv_append h ⟨hguard.1, hguard.2.le, le_rfl, hpc⟩ rfl rfl fun u => ?_
    simp [outstanding, Call.share, Pc.held, Pc.gcHeld]
  | release t bytes =>
    simp only [memTrackers] at hs
    split_ifs at hs with hguard
    cases hs
    have hc : CallInv T ⟨t, bytes, .releasing (releaseTodo T t bytes)⟩ := ⟨hguard.1, hguard.2.1, le_rfl, trivial⟩
    refine inv_append h hc rfl rfl fun u => ?_
    have hledger := outstanding_released hguard.1 s.obtained s.released bytes u
    simp only [outstanding, Call.share, Pc.held, Pc.gcHeld, spread_nil, spread_releaseTodo T hguard.1]
    rw [hledger]
    ring
  | step i =>
    obtain ⟨c, hi, hs⟩ := Option.bind_eq_some_iff.1 hs
    obtain ⟨⟨g, pc⟩, hadvance, rfl⟩ := Option.map_eq_some_iff.1 hs
    obtain ⟨hframe, hc, hshare, hlimit⟩ := advance_spec (h.calls c (List.mem_of_getElem? hi)) hadvance
    refine inv_set h hi hc rfl (fun u => ?_) hlimit
    have hsame : outstanding T { g with calls := s.calls.set i { c with pc := pc } } u = outstanding T s u := by
      simp only [outstanding, hframe.2.1, hframe.2.2]
    have hu := hshare u
    rw [hsame]
    simp only
    omega
  | gcRelease i t bytes => exact inv_startGcRelease h hs
  | gcReturn i => exact inv_gcReturn h hs
  | ret i => exact inv_ret h hs

theorem inv_init : Inv T (memTrackers T).init := by
  refine ⟨fun c hc => absurd hc List.not_mem_nil, fun u => ?_, fun u hu => hu⟩
  have hzero : outstanding T (memTrackers T).init u = 0 := subtotal_zero T.nodes T.chain u
  rw [hzero]
  rfl

theorem run_inv {ops : List (Op ι)} (hrun : (memTrackers T).run (memTrackers T).init ops = some s) : Inv T s :=
  Machine.run_inv (fun _ _ _ h hs => step_inv h hs) inv_init hrun

/-- **Limits hold.** At no instant is the consumption of a tracker above its limit. Once all calls have returned, the
consumption of each tracker is the sum of the amounts obtained minus released through it and its descendants. -/
theorem limits_hold (T : Tree ι) (ops : List (Op ι)) (s : St ι)
    (hrun : (memTrackers T).run (memTrackers T).init ops = some s) :
    (∀ t, 0 ≤ T.limit t → s.current t ≤ T.limit t) ∧ (s.calls = [] → ∀ t, s.current t = outstanding T s t) := by
  have h := run_inv hrun
  refine ⟨h.limits, fun hnone t => ?_⟩
  have ht := h.account t
  rw [hnone, List.map_nil, List.sum_nil, add_zero] at ht
  exact ht

def smallTree : Tree ℕ where
  nodes := {0, 1}
  tracker := twoTrackers
  gcFunctions n := if n = 0 then 1 else 0
  forest := by simpa [Initialised, eightBytes] using eightBytes_initialised

/-- two calls race for the root, and the first one fails its compare-and-set once; then a third call needs the GC function
of the root, which releases four bytes -/
def race : List (Op ℕ) :=
  [.tryConsume 1 8, .tryConsume 1 1, .step 0, .step 0, .step 1, .step 1, .step 1, .step 0, .step 0, .step 0, .step 0,
    .step 0, .ret 0, .step 0, .step 0, .ret 0, .tryConsume 1 5, .step 0, .step 0, .step 0, .step 0, .step 0, .step 0,
    .gcRelease 0 1 4, .step 0, .step 0, .gcReturn 0, .step 0, .step 0, .step 0, .step 0, .step 0, .step 0, .ret 0]

theorem limits_hold_race :
    ∃ s, (memTrackers smallTree).run (memTrackers smallTree).init race = some s ∧
      s.obtained 1 = 14 ∧ s.released 1 = 4 ∧ s.current 0 = 10 ∧ ∀ t, s.current t = outstanding smallTree s t := by
  refine ⟨_, rfl, by decide, by decide, by decide, ?_⟩
  exact (limits_hold smallTree race _ rfl).2 rfl

end Bboy.MemTracker.Concurrent
