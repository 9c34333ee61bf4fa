/-
The tree of `MemTracker`s over a whole run (`mem_tracker.cc`): trackers are created and destroyed, and consumed at
directly, through `TryConsume` or through a `ScopedTrackedConsumption` (`mem_tracker.h`), one call after the other.

Model: the heap, the trackers that are alive, the `ScopedTrackedConsumption` objects, and as a ghost the net amount
consumed directly at each tracker. A tracker is destroyed when nothing refers to it: no child, which holds its parent, and
no `ScopedTrackedConsumption`. It may still have consumption, since the check for that is a debug check.

- `Accounted`: the live trackers are a forest with one root, `all_trackers_` of each is its chain, and its consumption is
  the subtotal of the amounts consumed directly below it.
- `consumption_accounted`: in every state of a run, the consumption of a live tracker is the amount consumed directly at
  it plus the consumption of its live children, and that of the root is the total over all live trackers.
-/
import Bboy.Core.Machine
import Bboy.Base.MemTracker

namespace Bboy.MemTracker

open Core

variable {ι : Type} [DecidableEq ι]

/-! ## Model -/

/-- the loop of `Init`: the chain of parents from a tracker up -/
def initLoop (tracker : ι → MemTracker ι) : ℕ → Option ι → List ι
  | 0, _ => []
  | _ + 1, none => []
  | n + 1, some t => t :: initLoop tracker n (tracker t).parent

/-- `Init`; `n` bounds the number of trackers -/
def init (n : ℕ) (h : Heap ι) (t : ι) : Heap ι :=
  let initialised := { h.tracker t with allTrackers := initLoop h.tracker n (some t) }
  { h with tracker := Function.update h.tracker t initialised }

/-- the constructor without a consumption function -/
def construct (h : Heap ι) (t : ι) (byteLimit : ℤ) (id : String) (parent : Option ι) : Heap ι :=
  { h with
    tracker := Function.update h.tracker t ⟨byteLimit, id, parent, []⟩
    consumption := Function.update h.consumption t (HighWaterMark.new 0) }

/-- the limit that `CreateRootTracker` gives the root -/
def rootLimit (memoryLimitHardBytes totalRam : ℤ) : ℤ :=
  if memoryLimitHardBytes = 0 then (totalRam * 4).tdiv 5 else memoryLimitHardBytes

structure St (ι : Type) where
  heap : Heap ι
  live : Finset ι
  /-- the `ScopedTrackedConsumption` objects: `tracker_` and `consumption_` -/
  scopes : List (ι × ℤ)
  /-- ghost: the net amount consumed directly at each tracker -/
  direct : ι → ℤ

inductive Op (ι : Type) where
  | createTracker (byteLimit : ℤ) (id : String) (parent : Option ι) (t : ι)
  | destroy (t : ι)
  | consume (t : ι) (bytes : ℤ)
  | release (t : ι) (bytes : ℤ)
  | tryConsume (t : ι) (bytes : ℤ) (gc : GcFunctions ι)
  | scope (t : ι) (toConsume : ℤ)
  | reset (i : ℕ) (newConsumption : ℤ)
  | leave (i : ℕ)

/-- the amount consumed directly at `t` grows -/
def credit (direct : ι → ℤ) (t : ι) (amount : ℤ) : ι → ℤ := Function.update direct t (direct t + amount)

/-- the GC releases of the log were made directly at their trackers -/
def creditFreed (direct : ι → ℤ) (log : List (Event ι)) : ι → ℤ :=
  log.foldr (fun e d => match e with
    | .freed n bytes => credit d n (-bytes)
    | _ => d) direct

/-- `CreateTracker`; `t` is the new tracker -/
def createTracker (root : ι) (s : St ι) (byteLimit : ℤ) (id : String) (parent : Option ι) (t : ι) : Option (St ι) :=
  let realParent := parent.getD root
  if t ∉ s.live ∧ realParent ∈ s.live then
    some { s with
      heap := init (s.live.card + 1) (construct s.heap t byteLimit id (some realParent)) t
      live := insert t s.live
      direct := Function.update s.direct t 0 }
  else none

/-- nothing refers to the tracker any more -/
def Unreferenced (s : St ι) (t : ι) : Prop :=
  (∀ c ∈ s.live, (s.heap.tracker c).parent ≠ some t) ∧ ∀ p ∈ s.scopes, p.1 ≠ t

instance (s : St ι) (t : ι) : Decidable (Unreferenced s t) :=
  inferInstanceAs (Decidable ((∀ c ∈ s.live, _) ∧ ∀ p ∈ s.scopes, _))

/-- `~MemTracker` of a tracker other than the root -/
def destroy (s : St ι) (t : ι) : Option (St ι) :=
  match (s.heap.tracker t).parent with
  | some p =>
    if t ∈ s.live ∧ Unreferenced s t then
      some { s with heap := release s.heap p (current s.heap t), live := s.live.erase t }
    else none
  | none => none

/-- the GC functions called by a `TryConsume` release on live trackers -/
def gcAllowed (s : St ι) (t : ι) (gc : GcFunctions ι) : Prop :=
  GcWithin ↑s.live gc (s.heap.tracker t).allTrackers

instance (s : St ι) (t : ι) (gc : GcFunctions ι) : Decidable (gcAllowed s t gc) :=
  inferInstanceAs (Decidable (∀ u ∈ (s.heap.tracker t).allTrackers, ∀ f ∈ gc u, ∀ r ∈ f, r.1 ∈ s.live))

def memTrackers (root : ι) (memoryLimitHardBytes totalRam : ℤ) : Machine (St ι) (Op ι) where
  init :=
    { heap := init 1 (construct ⟨fun _ => ⟨-1, "", none, []⟩, fun _ => HighWaterMark.new 0, []⟩ root
        (rootLimit memoryLimitHardBytes totalRam) "root" none) root
      live := {root}
      scopes := []
      direct := fun _ => 0 }
  step s
    | .createTracker byteLimit id parent t => createTracker root s byteLimit id parent t
    | .destroy t => destroy s t
    | .consume t bytes =>
      if t ∈ s.live then some { s with heap := consume s.heap t bytes, direct := credit s.direct t bytes } else none
    | .release t bytes =>
      if t ∈ s.live then some { s with heap := release s.heap t bytes, direct := credit s.direct t (-bytes) } else none
    | .tryConsume t bytes gc =>
      if t ∈ s.live ∧ gcAllowed s t gc then
        let r := tryConsume gc s.heap t bytes
        some { s with heap := r.2, direct := credit (creditFreed s.direct r.2.log) t (consumed r.1 bytes) }
      else none
    | .scope t toConsume =>
      if t ∈ s.live then
        some { s with heap := consume s.heap t toConsume, scopes := s.scopes ++ [(t, toConsume)],
                      direct := credit s.direct t toConsume }
      else none
    | .reset i newConsumption =>
      s.scopes[i]?.map fun p =>
        { s with heap := consume s.heap p.1 (newConsumption - p.2), scopes := s.scopes.set i (p.1, newConsumption),
                 direct := credit s.direct p.1 (newConsumption - p.2) }
    | .leave i =>
      s.scopes[i]?.map fun p =>
        { s with heap := release s.heap p.1 p.2, scopes := s.scopes.eraseIdx i,
                 direct := credit s.direct p.1 (-p.2) }

/-! ## The invariant -/

/-- the chain of each tracker -/
def chains (h : Heap ι) (t : ι) : List ι := (h.tracker t).allTrackers

structure Accounted (root : ι) (s : St ι) : Prop where
  forest : Initialised ↑s.live s.heap
  root_mem : root ∈ s.live
  /-- only the root has no parent -/
  parent : ∀ t ∈ s.live, (s.heap.tracker t).parent = none ↔ t = root
  scopes : ∀ p ∈ s.scopes, p.1 ∈ s.live
  account : ∀ t ∈ s.live, current s.heap t = subtotal s.live (chains s.heap) s.direct t

variable {root t : ι} {s s' : St ι} {bytes : ℤ}

/-- the root is on every chain -/
theorem root_on_chain (h : Accounted root s) : ∀ t ∈ s.live, root ∈ chains s.heap t := by
  refine h.forest.induct (P := fun t => root ∈ chains s.heap t) fun t ht ih => ?_
  by_cases hroot : t = root
  · rw [hroot] at ht ⊢
    exact h.forest.self_mem ht
  · cases hp : (s.heap.tracker t).parent with
    | none => exact absurd ((h.parent t ht).1 hp) hroot
    | some p => exact (h.forest.mem_chain_iff ht).2 (Or.inr ⟨p, hp, ih p hp⟩)

/-- a call that adds along the chain of `t`, and is credited at `t` -/
theorem accounted_credit (h : Accounted root s) (ht : t ∈ s.live) {heap : Heap ι} {scopes : List (ι × ℤ)} {amount : ℤ}
    (hframe : heap.tracker = s.heap.tracker)
    (hcurrent : ∀ u, current heap u = current s.heap u + along (chains s.heap t) amount u)
    (hscopes : ∀ p ∈ scopes, p.1 ∈ s.live) :
    Accounted root { s with heap := heap, scopes := scopes, direct := credit s.direct t amount } := by
  have hchains : chains heap = chains s.heap := by
    unfold chains
    rw [hframe]
  refine ⟨?_, h.root_mem, ?_, hscopes, fun u hu => ?_⟩
  · have hforest := h.forest
    unfold Initialised at hforest ⊢
    rwa [hframe]
  · have hparent := h.parent
    rwa [← hframe] at hparent
  · calc current heap u
        = current s.heap u + along (chains s.heap t) amount u := hcurrent u
      _ = subtotal s.live (chains s.heap) s.direct u + along (chains s.heap t) amount u := by rw [h.account u hu]
      _ = subtotal s.live (chains heap) (credit s.direct t amount) u := by
        rw [hchains, credit, subtotal_add _ _ ht]

theorem accounted_consume (h : Accounted root s) (ht : t ∈ s.live) (bytes : ℤ) {scopes : List (ι × ℤ)}
    (hscopes : ∀ p ∈ scopes, p.1 ∈ s.live) :
    Accounted root { s with heap := consume s.heap t bytes, scopes := scopes, direct := credit s.direct t bytes } :=
  accounted_credit h ht (consume_frame _ _ _).1 (consume_current (h.forest.chain_nodup ht) bytes) hscopes

theorem accounted_release (h : Accounted root s) (ht : t ∈ s.live) (bytes : ℤ) {scopes : List (ι × ℤ)}
    (hscopes : ∀ p ∈ scopes, p.1 ∈ s.live) :
    Accounted root { s with heap := release s.heap t bytes, scopes := scopes, direct := credit s.direct t (-bytes) } := by
  refine accounted_credit h ht (release_frame _ _ _).1 (fun u => ?_) hscopes
  rw [release_current (h.forest.chain_nodup ht), along_neg, sub_eq_add_neg]
  rfl

/-- the releases of GC functions, credited at their trackers -/
theorem subtotal_creditFreed {live : Finset ι} (tracker : ι → MemTracker ι) (direct : ι → ℤ) {log : List (Event ι)}
    (hlog : Targets ↑live log) (u : ι) :
    subtotal live (fun t => (tracker t).allTrackers) (creditFreed direct log) u =
      subtotal live (fun t => (tracker t).allTrackers) direct u - freed tracker log u := by
  induction log with
  | nil => simp [creditFreed, freed]
  | cons e log ih =>
    have hrest := ih fun n b hm => hlog n b (List.mem_cons_of_mem e hm)
    cases e with
    | updated n c => simpa [creditFreed, freed] using hrest
    | gaveUp n c => simpa [creditFreed, freed] using hrest
    | freed n b =>
      have hn : n ∈ live := hlog n b List.mem_cons_self
      have hcredit : creditFreed direct (.freed n b :: log) = credit (creditFreed direct log) n (-b) := rfl
      have hfreed : freed tracker (.freed n b :: log) u = along (tracker n).allTrackers b u + freed tracker log u := by
        simp [freed]
      rw [hcredit, credit, subtotal_add _ _ hn, hrest, hfreed, along_neg]
      ring

theorem accounted_tryConsume (h : Accounted root s) (ht : t ∈ s.live) {gc : GcFunctions ι} (hgc : gcAllowed s t gc)
    (bytes : ℤ) : Accounted root { s with
      heap := (tryConsume gc s.heap t bytes).2
      direct := credit (creditFreed s.direct (tryConsume gc s.heap t bytes).2.log) t
        (consumed (tryConsume gc s.heap t bytes).1 bytes) } := by
  obtain ⟨hsame, htargets, hcurrent⟩ := tryConsume_counters bytes h.forest ht hgc
  have hchains : chains (tryConsume gc s.heap t bytes).2 = chains s.heap := by
    unfold chains
    rw [hsame]
  refine ⟨?_, h.root_mem, ?_, h.scopes, fun u hu => ?_⟩
  · have hforest := h.forest
    unfold Initialised at hforest ⊢
    rwa [hsame]
  · have hparent := h.parent
    rwa [← hsame] at hparent
  · have hfreed := subtotal_creditFreed s.heap.tracker s.direct htargets u
    simp only
    rw [hcurrent u, h.account u hu, hchains, credit, subtotal_add _ _ ht]
    unfold chains
    rw [hfreed]
    ring

/-! ## Creation and destruction -/

omit [DecidableEq ι] in
/-- `Init` walks up the parents, and finds the chain -/
theorem initLoop_chain {nodes : Set ι} {h : Heap ι} (hinit : Initialised nodes h) {tracker : ι → MemTracker ι}
    (hparent : ∀ n ∈ nodes, (tracker n).parent = (h.tracker n).parent) :
    ∀ n ∈ nodes, ∀ k, (chains h n).length ≤ k → initLoop tracker k (some n) = chains h n := by
  refine hinit.induct (P := fun n => ∀ k, (chains h n).length ≤ k → initLoop tracker k (some n) = chains h n)
    fun n hn ih k hk => ?_
  cases hp : (h.tracker n).parent with
  | none =>
    have hchain : chains h n = [n] := hinit.chain_root hn hp
    rw [hchain] at hk ⊢
    cases k with
    | zero => exact absurd hk (by simp)
    | succ k =>
      rw [initLoop, hparent n hn, hp]
      cases k <;> rfl
  | some p =>
    have hchain : chains h n = n :: chains h p := hinit.chain_child hn hp
    rw [hchain] at hk ⊢
    cases k with
    | zero => exact absurd hk (by simp)
    | succ k => rw [initLoop, hparent n hn, hp, ih p hp k (Nat.le_of_succ_le_succ hk)]

/-- a new tracker under `p`, with its chain and without consumption -/
theorem accounted_insert (h : Accounted root s) {p : ι} (ht : t ∉ s.live) (hp : p ∈ s.live) {heap : Heap ι}
    (byteLimit : ℤ) (id : String) (htracker : ∀ n, heap.tracker n =
      if n = t then ⟨byteLimit, id, some p, t :: chains s.heap p⟩ else s.heap.tracker n)
    (hcurrent : ∀ u, current heap u = if u = t then 0 else current s.heap u) :
    Accounted root { s with heap := heap, live := insert t s.live, direct := Function.update s.direct t 0 } := by
  have hne : ∀ n ∈ s.live, n ≠ t := fun n hn he => ht (he ▸ hn)
  have hparents : (fun n => (heap.tracker n).parent) =
      Function.update (fun n => (s.heap.tracker n).parent) t (some p) := by
    funext n
    rw [htracker n, Function.update_apply]
    split_ifs <;> rfl
  have hchains : chains heap = Function.update (chains s.heap) t (t :: chains s.heap p) := by
    funext n
    rw [chains, htracker n, Function.update_apply]
    split_ifs <;> rfl
  have hforest : IsForest ↑(insert t s.live) (fun n => (heap.tracker n).parent) (chains heap) := by
    rw [hparents, hchains]
    exact h.forest.insertLeaf ht hp
  refine ⟨hforest, Finset.mem_insert_of_mem h.root_mem, fun n hn => ?_,
    fun q hq => Finset.mem_insert_of_mem (h.scopes q hq), fun u hu => ?_⟩
  · rw [htracker n]
    split_ifs with hnt
    · exact iff_of_false (by simp) fun he => ht (by rw [← hnt, he]; exact h.root_mem)
    · exact h.parent n (Finset.mem_of_mem_insert_of_ne hn hnt)
  · -- the new tracker adds nothing to any subtotal
    have hchain : ∀ n ∈ s.live, chains heap n = chains s.heap n := by
      intro n hn
      rw [hchains, Function.update_of_ne (hne n hn)]
    have hdirect : ∀ n ∈ s.live, Function.update s.direct t 0 n = s.direct n :=
      fun n hn => Function.update_of_ne (hne n hn) _ _
    have hsubtotal : subtotal (insert t s.live) (chains heap) (Function.update s.direct t 0) u =
        subtotal s.live (chains s.heap) s.direct u := by
      rw [subtotal_insert _ _ ht, Function.update_self, along_zero, zero_add, subtotal_congr_chain hchain,
        subtotal_congr hdirect]
    simp only
    rw [hcurrent, hsubtotal]
    split_ifs with hut
    · exact (h.forest.subtotal_of_not_mem s.direct (hut ▸ ht)).symm
    · exact h.account u (Finset.mem_of_mem_insert_of_ne hu hut)

theorem accounted_createTracker (h : Accounted root s) {byteLimit : ℤ} {id : String} {parent : Option ι}
    (hs : createTracker root s byteLimit id parent t = some s') : Accounted root s' := by
  simp only [createTracker] at hs
  split_ifs at hs with hguard
  cases hs
  obtain ⟨ht, hp⟩ := hguard
  have hloop : initLoop (construct s.heap t byteLimit id (some (parent.getD root))).tracker (s.live.card + 1) (some t) =
      t :: chains s.heap (parent.getD root) := by
    have hparent : ∀ n ∈ (s.live : Set ι),
        ((construct s.heap t byteLimit id (some (parent.getD root))).tracker n).parent = (s.heap.tracker n).parent := by
      intro n hn
      have hne : n ≠ t := fun he => ht (he ▸ hn)
      simp [construct, hne]
    rw [initLoop, ← initLoop_chain h.forest hparent _ hp s.live.card (h.forest.chain_length_le hp)]
    simp [construct]
  refine accounted_insert h ht hp byteLimit id (fun n => ?_) fun u => ?_
  · unfold init
    rw [hloop]
    by_cases hn : n = t
    · simp [hn, construct]
    · simp [hn, construct]
  · by_cases hu : u = t
    · simp [current, init, construct, hu, HighWaterMark.new]
    · simp [current, init, construct, hu]

theorem accounted_destroy (h : Accounted root s) (hs : destroy s t = some s') : Accounted root s' := by
  unfold destroy at hs
  cases hp : (s.heap.tracker t).parent with
  | none =>
    rw [hp] at hs
    cases hs
  | some p =>
    rw [hp] at hs
    simp only at hs
    split_ifs at hs with hguard
    cases hs
    obtain ⟨ht, hleaf, hscopes⟩ := hguard
    have hpl : p ∈ s.live := h.forest.parent_mem t ht p hp
    have hframe := (release_frame s.heap p (current s.heap t)).1
    have hchains : chains (release s.heap p (current s.heap t)) = chains s.heap := by
      unfold chains
      rw [hframe]
    refine ⟨?_, ?_, ?_, fun q hq => ?_, fun u hu => ?_⟩
    · have hforest := h.forest.eraseLeaf hleaf
      unfold Initialised
      rwa [hframe]
    · refine Finset.mem_erase.2 ⟨fun he => ?_, h.root_mem⟩
      rw [← he, (h.parent root h.root_mem).2 rfl] at hp
      cases hp
    · intro n hn
      rw [hframe]
      exact h.parent n (Finset.mem_of_mem_erase hn)
    · exact Finset.mem_erase.2 ⟨hscopes q hq, h.scopes q hq⟩
    · -- the parent's chain loses what the tracker still had, and so do the subtotals
      obtain ⟨hut, hul⟩ := Finset.mem_erase.1 hu
      have hown : current s.heap t = s.direct t := by
        rw [h.account t ht]
        exact h.forest.subtotal_leaf s.direct ht hleaf
      have halong : along (chains s.heap t) (s.direct t) u = along (chains s.heap p) (s.direct t) u := by
        have hchain : chains s.heap t = t :: chains s.heap p := h.forest.chain_child ht hp
        simp [hchain, along, hut]
      calc current (release s.heap p (current s.heap t)) u
          = current s.heap u - along (chains s.heap p) (current s.heap t) u :=
            release_current (h.forest.chain_nodup hpl) _ u
        _ = subtotal s.live (chains s.heap) s.direct u - along (chains s.heap t) (s.direct t) u := by
            rw [h.account u hul, hown, halong]
        _ = subtotal (s.live.erase t) (chains (release s.heap p (current s.heap t))) s.direct u := by
            rw [hchains, subtotal_erase _ _ ht]

/-! ## Runs -/

variable {memoryLimitHardBytes totalRam : ℤ}

theorem accounted_init : Accounted root (memTrackers root memoryLimitHardBytes totalRam).init := by
  have htracker : ((memTrackers root memoryLimitHardBytes totalRam).init.heap.tracker root) =
      ⟨rootLimit memoryLimitHardBytes totalRam, "root", none, [root]⟩ := by
    simp [memTrackers, init, construct, initLoop]
  have hlive : ∀ n, n ∈ (memTrackers root memoryLimitHardBytes totalRam).init.live → n = root :=
    fun n hn => Finset.mem_singleton.1 hn
  refine ⟨⟨fun n hn => ?_, fun n hn q hq => ?_⟩, Finset.mem_singleton_self root, fun n hn => ?_,
    fun p hp => absurd hp List.not_mem_nil, fun n hn => ?_⟩
  · rw [hlive n hn, htracker]
    rfl
  · rw [hlive n hn, htracker] at hq
    cases hq
  · rw [hlive n hn, htracker]
    exact iff_of_true rfl rfl
  · rw [hlive n hn]
    have hcurrent : current (memTrackers root memoryLimitHardBytes totalRam).init.heap root = 0 := by
      simp [memTrackers, current, init, construct, HighWaterMark.new]
    rw [hcurrent]
    exact (subtotal_zero _ _ root).symm

theorem step_accounted {o : Op ι} (h : Accounted root s)
    (hs : (memTrackers root memoryLimitHardBytes totalRam).step s o = some s') : Accounted root s' := by
  cases o with
  | createTracker byteLimit id parent t => exact accounted_createTracker h hs
  | destroy t => exact accounted_destroy h hs
  | consume t bytes =>
    simp only [memTrackers] at hs
    split_ifs at hs with ht
    cases hs
    exact accounted_consume h ht bytes h.scopes
  | release t bytes =>
    simp only [memTrackers] at hs
    split_ifs at hs with ht
    cases hs
    exact accounted_release h ht bytes h.scopes
  | tryConsume t bytes gc =>
    simp only [memTrackers] at hs
    split_ifs at hs with hguard
    cases hs
    exact accounted_tryConsume h hguard.1 hguard.2 bytes
  | scope t toConsume =>
    simp only [memTrackers] at hs
    split_ifs at hs with ht
    cases hs
    refine accounted_consume h ht toConsume fun p hp => ?_
    rcases List.mem_append.1 hp with hp | hp
    · exact h.scopes p hp
    · rw [List.mem_singleton.1 hp]
      exact ht
  | reset i newConsumption =>
    obtain ⟨p, hi, rfl⟩ := Option.map_eq_some_iff.1 hs
    have hp := h.scopes p (List.mem_of_getElem? hi)
    refine accounted_consume h hp _ fun q hq => ?_
    rcases List.mem_or_eq_of_mem_set hq with hq | rfl
    · exact h.scopes q hq
    · exact hp
  | leave i =>
    obtain ⟨p, hi, rfl⟩ := Option.map_eq_some_iff.1 hs
    exact accounted_release h (h.scopes p (List.mem_of_getElem? hi)) p.2
      fun q hq => h.scopes q (List.mem_of_mem_eraseIdx hq)

theorem run_accounted {ops : List (Op ι)}
    (hrun : (memTrackers root memoryLimitHardBytes totalRam).run
      (memTrackers root memoryLimitHardBytes totalRam).init ops = some s) : Accounted root s :=
  Machine.run_inv (fun _ _ _ h hs => step_accounted h hs) accounted_init hrun

/-- **Tree accounting.** In every state of a run, the consumption of a live tracker is the net amount consumed directly at
it plus the consumption of its live children; the consumption of the root is the net amount consumed at all live
trackers. -/
theorem consumption_accounted (root : ι) (memoryLimitHardBytes totalRam : ℤ) (ops : List (Op ι)) (s : St ι)
    (hrun : (memTrackers root memoryLimitHardBytes totalRam).run
      (memTrackers root memoryLimitHardBytes totalRam).init ops = some s) :
    (∀ t ∈ s.live, current s.heap t = s.direct t +
      ∑ c ∈ s.live with (s.heap.tracker c).parent = some t, current s.heap c) ∧
      current s.heap root = ∑ t ∈ s.live, s.direct t := by
  have h := run_accounted hrun
  constructor
  · intro t ht
    have hsum : ∑ c ∈ s.live with (s.heap.tracker c).parent = some t, current s.heap c =
        ∑ c ∈ s.live with (s.heap.tracker c).parent = some t, subtotal s.live (chains s.heap) s.direct c :=
      Finset.sum_congr rfl fun c hc => h.account c (Finset.mem_filter.1 hc).1
    rw [h.account t ht, hsum]
    exact h.forest.subtotal_eq s.direct ht
  · rw [h.account root h.root_mem]
    exact subtotal_root s.direct (root_on_chain h)

/-- two levels below the root, a failed and a successful `TryConsume`, a `ScopedTrackedConsumption`, and a tracker
destroyed with three bytes unreleased -/
def threeLevels : List (Op ℕ) :=
  [.createTracker 20 "table" none 1, .createTracker (-1) "log" (some 1) 2, .consume 2 8,
    .tryConsume 2 20 fun _ => [], .tryConsume 2 16 fun n => if n = 1 then [[(2, 5)]] else [],
    .scope 1 1, .reset 0 (-2), .leave 0, .consume 2 (-16), .destroy 2]

theorem consumption_accounted_threeLevels :
    ∃ s, (memTrackers 0 100 0).run (memTrackers 0 100 0).init threeLevels = some s ∧
      s.live = {0, 1} ∧ current s.heap 0 = 0 ∧ current s.heap 0 = ∑ t ∈ s.live, s.direct t := by
  refine ⟨_, rfl, by decide, by decide, ?_⟩
  exact (consumption_accounted 0 100 0 threeLevels _ rfl).2

end Bboy.MemTracker
