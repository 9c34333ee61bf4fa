/-
Reference counts in the registry of `MemTracker`s: who has the `shared_ptr`s that `refs` counts.

- `Frame.holds`: the references of a running call, those borrowed from its caller included.
- `holders`: the static `root_tracker`, the users, the running calls, and `parent_` of each live child.
- `RefInv`: `refs` counts all holders. `RefStep`: what every step keeps, and that a tracker whose last reference is
  gone never comes back: a weak pointer to it cannot be locked.
-/
import Bboy.Base.TrackerRegistry

namespace Bboy.MemTracker.Registry

open Core

/-- the references that a call has -/
def Frame.holds : Frame → List ℕ
  | .creating n _ arg _ _ => n :: arg.toList
  | .lockingGlobal _ _ => []
  | .finding _ arg _ _ (.searching _ found) => found ++ arg.toList
  | .finding _ arg _ _ (.dropping child _ found) => child :: (found ++ arg.toList)
  | .finding _ arg _ _ (.clearing result found) => result.toList ++ (found ++ arg.toList)
  | .finding _ arg _ _ _ => arg.toList
  | .listing trackers toProcess _ => trackers ++ toProcess
  | .logging n nested (.inChild child _) => child :: if nested then [] else [n]
  | .logging n nested _ => if nested then [] else [n]
  | .destroying _ parent _ => [parent]
  | .consuming n _ _ => [n]

def inFrames (s : St) (p : ℕ) : ℕ := (s.threads.flatten.flatMap Frame.holds).count p

/-- the children whose `parent_` refers to the tracker; that of a child under destruction belongs to `~MemTracker` -/
def liveChildren (s : St) (p : ℕ) : ℕ :=
  {c ∈ Finset.range s.next | (s.tracker c).parent = some p ∧ 0 < s.refs c}.card

def holders (s : St) (p : ℕ) : ℕ := (if p = 0 then 1 else 0) + s.held p + inFrames s p + liveChildren s p

structure RefInv (s : St) : Prop where
  pos : 0 < s.next
  ordered : Ordered s
  fresh : ∀ n, s.next ≤ n → s.refs n = 0
  counted : ∀ p, holders s p ≤ s.refs p

/-- what a step does to the trackers constructed before -/
structure RefStep (s t : St) : Prop where
  inv : RefInv t
  next : s.next ≤ t.next
  parent : ∀ n < s.next, (t.tracker n).parent = (s.tracker n).parent
  id : ∀ n < s.next, (t.tracker n).id = (s.tracker n).id
  dead : ∀ n < s.next, s.refs n = 0 → t.refs n = 0

variable {s t u : St} {i n p : ℕ} {f : Frame} {stack stack' below : List Frame}

/-! ## Counting -/

/-- the references in the frames of thread `i`, and in all others -/
theorem inFrames_setStack (hthreads : t.threads = s.threads) (hi : s.threads[i]? = some stack) (p : ℕ) :
    ∃ rest, inFrames s p = (stack.flatMap Frame.holds).count p + rest ∧
      ∀ stack', inFrames (setStack t i stack') p = (stack'.flatMap Frame.holds).count p + rest := by
  refine ⟨((s.threads.eraseIdx i).flatten.flatMap Frame.holds).count p, ?_, fun stack' => ?_⟩
  · have hperm := ((slot_perm hi).flatten).flatMap_right Frame.holds
    rw [inFrames, hperm.count_eq, List.flatten_cons, List.flatMap_append, List.count_append]
  · have hperm := ((slot_set_perm hi stack').flatten).flatMap_right Frame.holds
    rw [inFrames, setStack, hthreads, hperm.count_eq, List.flatten_cons, List.flatMap_append, List.count_append]

theorem liveChildren_congr (hnext : t.next = s.next) (hparent : ∀ c, (t.tracker c).parent = (s.tracker c).parent)
    (hlive : ∀ c, (s.tracker c).parent = some p → (0 < t.refs c ↔ 0 < s.refs c)) : liveChildren t p = liveChildren s p := by
  unfold liveChildren
  rw [hnext]
  refine congrArg Finset.card (Finset.filter_congr fun c _ => ?_)
  rw [hparent c]
  exact and_congr_right fun hp => hlive c hp

/-- the last reference to a tracker goes away: its parent has one live child less -/
theorem liveChildren_dead (hn : n < s.next) (hlive : 0 < s.refs n) (htracker : t.tracker = s.tracker)
    (hnext : t.next = s.next) (hrefs : t.refs = Function.update s.refs n 0) (p : ℕ) :
    liveChildren s p = liveChildren t p + if (s.tracker n).parent = some p then 1 else 0 := by
  by_cases hp : (s.tracker n).parent = some p
  · have hmem : n ∈ {c ∈ Finset.range s.next | (s.tracker c).parent = some p ∧ 0 < s.refs c} := by
      simp [hn, hp, hlive]
    have herase : {c ∈ Finset.range t.next | (t.tracker c).parent = some p ∧ 0 < t.refs c} =
        {c ∈ Finset.range s.next | (s.tracker c).parent = some p ∧ 0 < s.refs c}.erase n := by
      ext c
      by_cases hc : c = n
      · simp [hc, hrefs]
      · simp [hc, hrefs, htracker, hnext]
    rw [if_pos hp, liveChildren, liveChildren, herase, Finset.card_erase_add_one hmem]
  · rw [if_neg hp, add_zero]
    refine (liveChildren_congr hnext (fun c => by rw [htracker]) fun c hc => ?_).symm
    have hne : c ≠ n := fun he => hp (he ▸ hc)
    simp [hrefs, hne]

/-- a new tracker is one more live child of its parent -/
theorem liveChildren_construct (hlt : p < s.next) (hp : 0 < s.refs p) (byteLimit : ℤ) (id : String) (q : ℕ) :
    liveChildren (construct s p byteLimit id) q = liveChildren s q + if q = p then 1 else 0 := by
  have hold : ∀ c < s.next, ((construct s p byteLimit id).tracker c = s.tracker c) ∧
      (0 < (construct s p byteLimit id).refs c ↔ 0 < s.refs c) := by
    intro c hc
    by_cases hcp : c = p
    · simp [construct, addRef, hcp, hlt.ne, hp]
    · simp [construct, addRef, hcp, hc.ne]
  have hrange : {c ∈ Finset.range s.next | ((construct s p byteLimit id).tracker c).parent = some q ∧
        0 < (construct s p byteLimit id).refs c} =
      {c ∈ Finset.range s.next | (s.tracker c).parent = some q ∧ 0 < s.refs c} := by
    refine Finset.filter_congr fun c hc => ?_
    obtain ⟨htracker, hrefs⟩ := hold c (Finset.mem_range.1 hc)
    rw [htracker, hrefs]
  have hnext : (construct s p byteLimit id).next = s.next + 1 := rfl
  have hnew : ((construct s p byteLimit id).tracker s.next).parent = some p ∧
      0 < (construct s p byteLimit id).refs s.next := by
    simp [construct, addRef, Function.update_of_ne hlt.ne']
  rw [liveChildren, hnext, Finset.range_add_one, Finset.filter_insert, hrange]
  by_cases hq : q = p
  · rw [if_pos ⟨hq ▸ hnew.1, hnew.2⟩, if_pos hq, Finset.card_insert_of_notMem (by simp), liveChildren]
  · have hne : ¬ (((construct s p byteLimit id).tracker s.next).parent = some q ∧
        0 < (construct s p byteLimit id).refs s.next) := by
      rw [hnew.1]
      exact fun hc => hq (Option.some.inj hc.1).symm
    rw [if_neg hne, if_neg hq, add_zero, liveChildren]

/-! ## Steps -/

theorem RefInv.refs_pos (h : RefInv s) (hn : 0 < s.held n ∨ 0 < inFrames s n) : 0 < s.refs n := by
  have hn' := h.counted n
  rw [holders] at hn'
  omega

theorem RefInv.lt_next (h : RefInv s) (hn : 0 < s.refs n) : n < s.next := by
  by_contra hle
  exact hn.ne' (h.fresh n (not_lt.1 hle))

theorem RefInv.root_live (h : RefInv s) : 0 < s.refs 0 := by
  have h0 := h.counted 0
  rw [holders, if_pos rfl] at h0
  omega

/-- a frame's reference is counted -/
theorem RefInv.held_live (h : RefInv s) (hi : s.threads[i]? = some stack) (hf : f ∈ stack) (hn : n ∈ f.holds) :
    0 < s.refs n := by
  apply h.refs_pos
  right
  exact List.count_pos_iff.2 (List.mem_flatMap.2 ⟨f, List.mem_flatten.2 ⟨stack, List.mem_of_getElem? hi, hf⟩, hn⟩)

/-- references change hands: between the stack of thread `i`, the users and the live children -/
theorem RefInv.exchange (h : RefInv s) (hi : s.threads[i]? = some stack) (hthreads : t.threads = s.threads)
    (htracker : ∀ c, (t.tracker c).parent = (s.tracker c).parent ∧ (t.tracker c).id = (s.tracker c).id)
    (hnext : t.next = s.next) (hdead : ∀ c, s.refs c = 0 → t.refs c = 0)
    (hsum : ∀ p, s.refs p + t.held p + liveChildren t p + (stack'.flatMap Frame.holds).count p ≤
      t.refs p + s.held p + liveChildren s p + (stack.flatMap Frame.holds).count p) :
    RefStep s (setStack t i stack') := by
  have hordered : Ordered (setStack t i stack') := by
    intro c q hq
    have hlt := h.ordered c q ((htracker c).1.symm.trans hq)
    exact ⟨hlt.1, hnext.symm ▸ hlt.2⟩
  refine ⟨⟨lt_of_lt_of_eq h.pos hnext.symm, hordered, fun c hc => hdead c (h.fresh c (hnext ▸ hc)), fun p => ?_⟩,
    hnext.ge, fun c _ => (htracker c).1, fun c _ => (htracker c).2, fun c _ => hdead c⟩
  obtain ⟨rest, hold, hnew⟩ := inFrames_setStack hthreads hi p
  have hs := h.counted p
  have hp := hsum p
  simp only [holders] at hs ⊢
  rw [hnew stack']
  change _ + t.held p + _ + liveChildren t p ≤ t.refs p
  omega

/-- no tracker dies -/
theorem RefInv.move (h : RefInv s) (hi : s.threads[i]? = some stack) (hthreads : t.threads = s.threads)
    (htracker : ∀ c, (t.tracker c).parent = (s.tracker c).parent ∧ (t.tracker c).id = (s.tracker c).id)
    (hnext : t.next = s.next) (hlive : ∀ c, 0 < t.refs c ↔ 0 < s.refs c)
    (hsum : ∀ p, t.refs p + s.held p + (stack.flatMap Frame.holds).count p =
      s.refs p + t.held p + (stack'.flatMap Frame.holds).count p) : RefStep s (setStack t i stack') := by
  refine h.exchange hi hthreads htracker hnext (fun c hc => ?_) fun p => ?_
  · have hc' := hlive c
    omega
  · have hchildren := liveChildren_congr (p := p) hnext (fun c => (htracker c).1) fun c _ => hlive c
    have hp := hsum p
    omega

theorem dropRef_live (hn : 1 < s.refs n) (i : ℕ) (below : List Frame) :
    dropRef s i n below = setStack { s with refs := Function.update s.refs n (s.refs n - 1) } i below := by
  have hne : s.refs n - 1 ≠ 0 := by omega
  simp only [dropRef, Function.update_self, if_neg hne]
  cases (s.tracker n).parent <;> rfl

/-- `~MemTracker` of a tracker that is not the root -/
def destructor (s : St) (n : ℕ) : List Frame := ((s.tracker n).parent.map fun p => .destroying n p .locking).toList

theorem dropRef_last (hn : s.refs n = 1) (i : ℕ) (below : List Frame) :
    dropRef s i n below = setStack { s with refs := Function.update s.refs n 0 } i (destructor s n ++ below) := by
  simp only [dropRef, Function.update_self, destructor, hn]
  cases (s.tracker n).parent <;> rfl

theorem count_destructor (s : St) (n p : ℕ) :
    ((destructor s n).flatMap Frame.holds).count p = if (s.tracker n).parent = some p then 1 else 0 := by
  unfold destructor
  cases hp : (s.tracker n).parent with
  | none => simp
  | some q => simp [Frame.holds, List.count_singleton]

/-- a reference goes away, with `~MemTracker` if it was the last one -/
theorem RefInv.drop (h : RefInv s) (hi : s.threads[i]? = some stack) (hsame : SameTree s t) (hrefs : t.refs = s.refs)
    (hsum : ∀ p, s.held p + (stack.flatMap Frame.holds).count p =
      t.held p + (below.flatMap Frame.holds).count p + if p = n then 1 else 0) : RefStep s (dropRef t i n below) := by
  have hpos : 0 < s.refs n := by
    have hn := hsum n
    rw [if_pos rfl] at hn
    obtain ⟨rest, hold, -⟩ := inFrames_setStack rfl hi n
    apply h.refs_pos
    omega
  have hparents : ∀ c, (t.tracker c).parent = (s.tracker c).parent ∧ (t.tracker c).id = (s.tracker c).id :=
    fun c => by simp [hsame.tracker]
  by_cases hlast : s.refs n = 1
  · -- the tracker dies: its reference to its parent goes from the tracker to its destructor
    rw [dropRef_last (hrefs ▸ hlast)]
    refine h.exchange hi hsame.threads hparents hsame.next (fun c hc => ?_) fun p => ?_
    · by_cases hcn : c = n
      · simp [hcn]
      · simpa [hcn, hrefs] using hc
    · have hchildren := liveChildren_dead (t := { t with refs := Function.update t.refs n 0 }) (h.lt_next hpos) hpos
        hsame.tracker hsame.next (congrArg (Function.update · n 0) hrefs) p
      have hp := hsum p
      rw [List.flatMap_append, List.count_append, count_destructor, (hparents n).1]
      have hset : Function.update t.refs n 0 p + (if p = n then 1 else 0) = s.refs p := by
        by_cases hpn : p = n
        · simp [hpn, hlast]
        · simp [hpn, hrefs]
      simp only
      omega
  · have hmany : 1 < t.refs n := by
      rw [hrefs]
      omega
    rw [dropRef_live hmany]
    refine h.move hi hsame.threads hparents hsame.next (fun c => ?_) fun p => ?_
    · by_cases hcn : c = n
      · simp only [hcn, Function.update_self]
        omega
      · simp [hcn, hrefs]
    · have hp := hsum p
      by_cases hpn : p = n
      · rw [if_pos hpn] at hp
        simp only [hpn, Function.update_self, hrefs]
        rw [hpn] at hp
        omega
      · rw [if_neg hpn] at hp
        simp only [Function.update_of_ne hpn, hrefs]
        omega

theorem addRef_refs (s : St) (n p : ℕ) : (addRef s n).refs p = s.refs p + if p = n then 1 else 0 := by
  by_cases hp : p = n
  · simp [addRef, hp]
  · simp [addRef, hp]

theorem hold_held (s : St) (n p : ℕ) : (hold s n).held p = s.held p + if p = n then 1 else 0 := by
  by_cases hp : p = n
  · simp [hold, hp]
  · simp [hold, hp]

theorem count_ref (n : ℕ) (l : List ℕ) (p : ℕ) : (n :: l).count p = l.count p + if p = n then 1 else 0 := by
  by_cases hp : p = n
  · simp [hp]
  · simp [hp, Ne.symm hp]

theorem giveBack_held (s : St) (arg : Option ℕ) (p : ℕ) :
    (giveBack s arg).held p = s.held p + arg.toList.count p := by
  cases arg with
  | none => rfl
  | some n =>
    refine (hold_held s n p).trans ?_
    simp [count_ref]

theorem giveBack_refs (s : St) (arg : Option ℕ) : (giveBack s arg).refs = s.refs := by
  cases arg <;> rfl

theorem holdAll_refs (s : St) (trackers : List ℕ) : (trackers.foldl hold s).refs = s.refs := by
  induction trackers generalizing s with
  | nil => rfl
  | cons n trackers ih => exact ih (hold s n)

theorem holdAll_held (s : St) (trackers : List ℕ) (p : ℕ) :
    (trackers.foldl hold s).held p = s.held p + trackers.count p := by
  induction trackers generalizing s with
  | nil => rfl
  | cons n trackers ih =>
    rw [List.foldl_cons, ih, hold_held, count_ref]
    omega

theorem construct_refs (hfresh : s.refs s.next = 0) (hlt : p < s.next) (byteLimit : ℤ) (id : String) (q : ℕ) :
    (construct s p byteLimit id).refs q = s.refs q + (if q = p then 1 else 0) + if q = s.next then 1 else 0 := by
  rw [construct, addRef_refs]
  by_cases hq : q = s.next
  · simp [hq, hlt.ne', hfresh]
  · simp [hq]

/-- a new tracker, with the reference to it on the stack of thread `i` -/
theorem RefInv.construct (h : RefInv s) (hi : s.threads[i]? = some stack) (hsame : SameTree s t)
    (hrefs : t.refs = s.refs) (hp : 0 < s.refs p) (byteLimit : ℤ) (id : String)
    (hsum : ∀ q, t.held q + (stack'.flatMap Frame.holds).count q ≤
      s.held q + (stack.flatMap Frame.holds).count q + if q = s.next then 1 else 0) :
    RefStep s (setStack (construct t p byteLimit id) i stack') := by
  have hlt := h.lt_next hp
  have hfresh : t.refs t.next = 0 := by
    rw [hrefs, hsame.next]
    exact h.fresh s.next le_rfl
  have hcount := construct_refs hfresh (hsame.next.symm ▸ hlt) byteLimit id
  have hold : ∀ c < s.next, (Registry.construct t p byteLimit id).tracker c = s.tracker c := by
    intro c hc
    rw [← hsame.tracker]
    simp [Registry.construct, addRef, (hsame.next.symm ▸ hc : c < t.next).ne]
  have hordered : Ordered t := by
    intro c q hq
    rw [hsame.tracker] at hq
    exact hsame.next.symm ▸ h.ordered c q hq
  refine ⟨⟨Nat.succ_pos _, ordered_construct hordered (hsame.next.symm ▸ hlt) byteLimit id, fun c hc => ?_, fun q => ?_⟩,
    ?_, fun c hc => ?_, fun c hc => ?_, fun c hc hdead => ?_⟩
  · have hlt' : t.next < c := hc
    have hc' : s.next ≤ c := hsame.next ▸ hlt'.le
    refine (hcount c).trans ?_
    rw [hrefs, h.fresh c hc', if_neg (hlt.trans_le hc').ne', if_neg hlt'.ne']
  · obtain ⟨rest, hin, hnew⟩ := inFrames_setStack (t := Registry.construct t p byteLimit id) hsame.threads hi q
    have hs := h.counted q
    have hq := hsum q
    have hchildren := liveChildren_construct (s := t) (hsame.next.symm ▸ hlt) (hrefs.symm ▸ hp) byteLimit id q
    have hsame' : liveChildren t q = liveChildren s q :=
      liveChildren_congr hsame.next (fun c => by rw [hsame.tracker]) fun c _ => by rw [hrefs]
    have hc := hcount q
    rw [hrefs, hsame.next] at hc
    simp only [holders] at hs ⊢
    rw [hnew stack']
    change _ + t.held q + _ + liveChildren (Registry.construct t p byteLimit id) q ≤
      (Registry.construct t p byteLimit id).refs q
    omega
  · exact hsame.next.ge.trans (Nat.le_succ t.next)
  · exact congrArg MemTracker.parent (hold c hc)
  · exact congrArg MemTracker.id (hold c hc)
  · refine (hcount c).trans ?_
    have hcp : c ≠ p := fun he => hp.ne' (he ▸ hdead)
    rw [hrefs, hdead, if_neg hcp, if_neg (hsame.next.symm ▸ hc : c < t.next).ne]

theorem count_holds (f : Frame) (below : List Frame) (p : ℕ) :
    ((f :: below).flatMap Frame.holds).count p = f.holds.count p + (below.flatMap Frame.holds).count p := by
  rw [List.flatMap_cons, List.count_append]

/-- the frame on top goes on, with the references it has -/
theorem RefInv.goesOn {f' : Frame} (h : RefInv s) (hi : s.threads[i]? = some (f :: below)) (hsame : SameTree s t)
    (hrefs : t.refs = s.refs) (hheld : t.held = s.held) (hholds : ∀ p, f'.holds.count p = f.holds.count p) :
    RefStep s (setStack t i (f' :: below)) := by
  refine h.move hi hsame.threads (fun c => by simp [hsame.tracker]) hsame.next (fun c => by rw [hrefs]) fun p => ?_
  rw [hrefs, hheld, count_holds, count_holds, hholds]

theorem addRef_live (hn : 0 < s.refs n) (c : ℕ) : 0 < (addRef s n).refs c ↔ 0 < s.refs c := by
  rw [addRef_refs]
  split_ifs with hc
  · rw [hc]
    omega
  · rfl

/-- thread `i` gets one more reference to a live tracker -/
theorem RefInv.gets (h : RefInv s) (hi : s.threads[i]? = some stack) (hn : 0 < s.refs n)
    (hholds : ∀ p, (stack'.flatMap Frame.holds).count p =
      (stack.flatMap Frame.holds).count p + if p = n then 1 else 0) :
    RefStep s (setStack (addRef s n) i stack') := by
  refine h.move hi rfl (fun c => ⟨rfl, rfl⟩) rfl (addRef_live hn) fun p => ?_
  rw [addRef_refs, hholds p]
  change s.refs p + _ + s.held p + _ = s.refs p + s.held p + _
  omega

/-- the frame on top has locked a weak pointer -/
theorem RefInv.locks {f' : Frame} (h : RefInv s) (hi : s.threads[i]? = some (f :: below)) (hn : 0 < s.refs n)
    (hholds : ∀ p, f'.holds.count p = f.holds.count p + if p = n then 1 else 0) :
    RefStep s (setStack (addRef s n) i (f' :: below)) := by
  refine h.gets hi hn fun p => ?_
  rw [count_holds, count_holds, hholds]
  omega

/-- a call returns: what it has goes to the users -/
theorem RefInv.returns (h : RefInv s) (hi : s.threads[i]? = some (f :: below)) (hsame : SameTree s t)
    (hrefs : t.refs = s.refs) (hheld : ∀ p, t.held p = s.held p + f.holds.count p) :
    RefStep s (setStack t i below) := by
  refine h.move hi hsame.threads (fun c => by simp [hsame.tracker]) hsame.next (fun c => by rw [hrefs]) fun p => ?_
  rw [hrefs, hheld, count_holds]
  omega

/-- the frame on top drops a reference and goes on -/
theorem RefInv.drops {f' : Frame} (h : RefInv s) (hi : s.threads[i]? = some (f :: below))
    (hholds : ∀ p, f.holds.count p = f'.holds.count p + if p = n then 1 else 0) :
    RefStep s (dropRef s i n (f' :: below)) := by
  refine h.drop hi (SameTree.refl s) rfl fun p => ?_
  rw [count_holds, count_holds, hholds]
  omega

theorem refStep_creating {parent : ℕ} {arg : Option ℕ} {global : Bool} {pc : CreatePc} (h : RefInv s)
    (hi : s.threads[i]? = some (.creating n parent arg global pc :: below))
    (hs : stepCreating s i n parent arg global below pc = some t) : RefStep s t := by
  cases pc with
  | adding =>
    simp only [stepCreating] at hs
    split_ifs at hs
    cases hs
    exact h.goesOn hi (SameTree.refl s) rfl rfl fun _ => rfl
  | inserting =>
    cases hs
    exact h.move hi rfl (fun c => ⟨rfl, rfl⟩) rfl (fun c => Iff.rfl) fun p => rfl
  | initialising cursor =>
    cases cursor with
    | some c =>
      cases hs
      refine h.move hi rfl (fun m => ⟨parent_pushTracker s n c m, ?_⟩) rfl (fun c => Iff.rfl) fun p => rfl
      by_cases hm : m = n
      · simp [pushTracker, hm]
      · simp [pushTracker, hm]
    | none =>
      cases hs
      refine h.returns hi ((sameTree_hold s n).trans (sameTree_giveBack _ arg)) (giveBack_refs _ arg) fun p => ?_
      rw [giveBack_held, hold_held, Frame.holds, count_ref]
      omega

theorem refStep_finding {parent : ℕ} {arg : Option ℕ} {id : String} {global : Option ℤ} {pc : FindPc} (h : RefInv s)
    (hi : s.threads[i]? = some (.finding parent arg id global pc :: below))
    (hs : stepFinding s i parent arg id global below pc = some t) : RefStep s t := by
  cases stepFinding_cases hs with
  | locking hfree => exact h.goesOn hi (SameTree.refl s) rfl rfl fun _ => rfl
  | copying => exact h.goesOn hi (SameTree.refl s) rfl rfl fun _ => rfl
  | @matching global child children found hlive hid =>
    refine h.locks hi hlive fun p => ?_
    simp only [Frame.holds, List.count_append, count_ref, List.count_nil]
    omega
  | @other global child children found hlive hid =>
    refine h.locks hi hlive fun p => ?_
    simp only [Frame.holds, List.count_append, count_ref]
  | expired hdead => exact h.goesOn hi (SameTree.refl s) rfl rfl fun _ => rfl
  | @searched global found =>
    refine h.goesOn hi (SameTree.refl s) rfl rfl fun p => ?_
    cases found <;> rfl
  | dropping =>
    refine h.drops hi fun p => ?_
    simp only [Frame.holds, List.count_append, count_ref]
  | clearing =>
    refine h.drops hi fun p => ?_
    simp only [Frame.holds, List.count_append, List.cons_append, count_ref]
    omega
  | @returnFound global n =>
    refine h.returns hi ((sameTree_hold s n).trans (sameTree_giveBack _ arg)) (giveBack_refs _ arg) fun p => ?_
    simp only [giveBack_held, hold_held, Frame.holds, List.count_append, Option.toList_some, count_ref, List.count_nil]
    omega
  | returnNone =>
    refine h.returns hi (sameTree_giveBack s arg) (giveBack_refs s arg) fun p => ?_
    simp [giveBack_held, Frame.holds]
  | @construct byteLimit =>
    refine h.construct hi (SameTree.refl s) rfl h.root_live byteLimit id fun q => ?_
    rw [count_holds, count_holds]
    simp only [Frame.holds, count_ref, Option.toList_none, List.count_nil]
    omega

theorem refStep_listing {trackers toProcess : List ℕ} {pc : ListPc} (h : RefInv s)
    (hi : s.threads[i]? = some (.listing trackers toProcess pc :: below))
    (hs : stepListing s i trackers toProcess below pc = some t) : RefStep s t := by
  cases stepListing_cases hs with
  | returns =>
    refine h.returns hi (sameTree_holdAll s trackers) (holdAll_refs s trackers) fun p => ?_
    rw [holdAll_held, Frame.holds, List.append_nil]
  | next =>
    refine h.goesOn hi (SameTree.refl s) rfl rfl fun p => ?_
    simp [Frame.holds]
  | locking hfree => exact h.goesOn hi (SameTree.refl s) rfl rfl fun _ => rfl
  | live hlive =>
    refine h.locks hi hlive fun p => ?_
    simp only [Frame.holds, List.count_append, count_ref]
    omega
  | expired hdead => exact h.goesOn hi (SameTree.refl s) rfl rfl fun _ => rfl
  | iterated => exact h.goesOn hi (SameTree.refl s) rfl rfl fun _ => rfl

theorem refStep_logging {nested : Bool} {pc : LogPc} (h : RefInv s)
    (hi : s.threads[i]? = some (.logging n nested pc :: below))
    (hs : stepLogging s i n nested below pc = some t) : RefStep s t := by
  cases stepLogging_cases hs with
  | locking hfree => exact h.goesOn hi (SameTree.refl s) rfl rfl fun _ => rfl
  | live hlive =>
    -- the temporary reference to the child belongs to the frame below the nested call
    refine h.gets hi hlive fun p => ?_
    simp only [count_holds, Frame.holds, count_ref, if_true, List.count_nil]
    omega
  | expired hdead => exact h.goesOn hi (SameTree.refl s) rfl rfl fun _ => rfl
  | inChild =>
    refine h.drops hi fun p => ?_
    simp only [Frame.holds, count_ref]
  | returnNested => exact h.returns hi (SameTree.refl s) rfl fun p => rfl
  | returns =>
    refine h.returns hi (sameTree_hold s n) rfl fun p => ?_
    simp [hold_held, Frame.holds, count_ref]

theorem refStep_destroying {parent : ℕ} {pc : DestroyPc} (h : RefInv s)
    (hi : s.threads[i]? = some (.destroying n parent pc :: below))
    (hs : stepDestroying s i n parent below pc = some t) : RefStep s t := by
  cases pc with
  | locking =>
    simp only [stepDestroying] at hs
    split_ifs at hs
    cases hs
    exact h.goesOn hi (SameTree.refl s) rfl rfl fun _ => rfl
  | erasing =>
    cases hs
    exact h.move hi rfl (fun c => ⟨rfl, rfl⟩) rfl (fun c => Iff.rfl) fun p => rfl
  | releasingParent =>
    cases hs
    refine h.drop hi (SameTree.refl s) rfl fun p => ?_
    simp only [count_holds, Frame.holds, count_ref, List.count_nil]
    omega

theorem refStep_consuming {bytes : ℤ} {pc : ConsumePc} (h : RefInv s)
    (hi : s.threads[i]? = some (.consuming n bytes pc :: below))
    (hs : stepConsuming s i n bytes below pc = some t) : RefStep s t := by
  cases pc with
  | starting =>
    cases hs
    exact h.goesOn hi (SameTree.refl s) rfl rfl fun _ => rfl
  | adding added todo =>
    cases todo with
    | cons m todo =>
      cases hs
      exact h.goesOn hi (SameTree.refl s) rfl rfl fun _ => rfl
    | nil =>
      cases hs
      refine h.move hi rfl (fun c => ⟨rfl, rfl⟩) rfl (fun c => Iff.rfl) fun p => ?_
      rw [count_holds, hold_held]
      simp only [Frame.holds, count_ref, List.count_nil]
      change s.refs p + s.held p + _ = s.refs p + (s.held p + _) + _
      omega

theorem refStep_stepTop (h : RefInv s) (hi : s.threads[i]? = some (f :: below))
    (hs : stepTop s i f below = some t) : RefStep s t := by
  cases f with
  | creating n parent arg global pc => exact refStep_creating h hi hs
  | lockingGlobal byteLimit id =>
    simp only [stepTop] at hs
    split_ifs at hs
    cases hs
    exact h.goesOn hi (SameTree.refl s) rfl rfl fun _ => rfl
  | finding parent arg id global pc => exact refStep_finding h hi hs
  | listing trackers toProcess pc => exact refStep_listing h hi hs
  | logging n nested pc => exact refStep_logging h hi hs
  | destroying n parent pc => exact refStep_destroying h hi hs
  | consuming n bytes pc => exact refStep_consuming h hi hs

/-! ## Calls -/

theorem borrow_held (hn : 0 < s.held n) (p : ℕ) : (borrow s n).held p + (if p = n then 1 else 0) = s.held p := by
  by_cases hp : p = n
  · simp [borrow, hp, Nat.sub_add_cancel hn]
  · simp [borrow, hp]

theorem borrowArg_held {arg : Option ℕ} (h : ArgHeld s arg) (p : ℕ) :
    (borrowArg s arg).held p + arg.toList.count p = s.held p := by
  cases arg with
  | none => rfl
  | some n =>
    rw [Option.toList_some, count_ref, List.count_nil, zero_add]
    exact borrow_held (h n rfl).2 p

theorem borrowArg_refs (s : St) (arg : Option ℕ) : (borrowArg s arg).refs = s.refs := by
  cases arg <;> rfl

/-- a call starts, with a reference that it borrows from its caller -/
theorem RefInv.starts (h : RefInv s) (hi : s.threads[i]? = some []) (hsame : SameTree s t) (hrefs : t.refs = s.refs)
    (hheld : ∀ p, t.held p + f.holds.count p = s.held p) : RefStep s (setStack t i [f]) := by
  refine h.move hi hsame.threads (fun c => by simp [hsame.tracker]) hsame.next (fun c => by rw [hrefs]) fun p => ?_
  have hp := hheld p
  rw [hrefs, count_holds]
  simp only [List.flatMap_nil, List.count_nil]
  omega

/-- a user gets one more reference to a live tracker -/
theorem RefInv.copied (h : RefInv s) (hn : 0 < s.refs n) : RefStep s (hold (addRef s n) n) := by
  have hlive := addRef_live hn
  refine ⟨⟨h.pos, h.ordered, fun c hc => ?_, fun p => ?_⟩, le_rfl, fun _ _ => rfl, fun _ _ => rfl, fun c _ hc => ?_⟩
  · have hc' := hlive c
    have hfresh := h.fresh c hc
    change (addRef s n).refs c = 0
    omega
  · have hp := h.counted p
    have hchildren : liveChildren (hold (addRef s n) n) p = liveChildren s p :=
      liveChildren_congr rfl (fun _ => rfl) fun c _ => hlive c
    have hframes : inFrames (hold (addRef s n) n) p = inFrames s p := rfl
    have hheld : (hold (addRef s n) n).held p = s.held p + if p = n then 1 else 0 := hold_held (addRef s n) n p
    have hrefs : (hold (addRef s n) n).refs p = s.refs p + if p = n then 1 else 0 := addRef_refs s n p
    rw [holders] at hp ⊢
    rw [hchildren, hframes, hheld, hrefs]
    omega
  · have hc' := hlive c
    change (addRef s n).refs c = 0
    omega

variable {memoryLimitHardBytes totalRam : ℤ} {o : Op}

/-- **Step rule.** Every step keeps the count of references, and never brings a dead tracker back. -/
theorem step_refs (h : RefInv s) (hs : (registry memoryLimitHardBytes totalRam).step s o = some t) : RefStep s t := by
  cases step_cases hs with
  | spawn =>
    refine ⟨⟨h.pos, h.ordered, h.fresh, fun p => ?_⟩, le_rfl, fun _ _ => rfl, fun _ _ => rfl, fun _ _ hc => hc⟩
    have hp := h.counted p
    simpa [holders, inFrames, liveChildren] using hp
  | getRootTracker =>
    exact h.copied h.root_live
  | @copy n hheld =>
    exact h.copied (h.refs_pos (Or.inl hheld.2))
  | @createTracker i byteLimit id parent hi harg =>
    have hp : 0 < s.refs (parent.getD 0) := by
      cases parent with
      | none => exact h.root_live
      | some p => exact h.refs_pos (Or.inl (harg p rfl).2)
    refine h.construct hi (sameTree_borrowArg s parent) (borrowArg_refs s parent) hp byteLimit id fun q => ?_
    have hq := borrowArg_held harg q
    simp only [List.flatMap_singleton, Frame.holds, count_ref]
    omega
  | @findTracker i id parent hi harg =>
    exact h.starts hi (sameTree_borrowArg s parent) (borrowArg_refs s parent) (borrowArg_held harg)
  | @findOrCreateGlobalTracker i byteLimit id hi =>
    exact h.starts hi (SameTree.refl s) rfl fun _ => rfl
  | @listTrackers i hi =>
    refine h.gets hi h.root_live fun p => ?_
    simp only [count_holds, Frame.holds, List.nil_append, count_ref, List.flatMap_nil, List.count_nil]
    omega
  | @logUsage i n hi hheld =>
    refine h.starts hi (sameTree_borrow s n) rfl fun p => ?_
    simpa [Frame.holds, count_ref] using borrow_held hheld.2 p
  | @consume i n bytes hi hheld hpos =>
    refine h.starts hi (sameTree_borrow s n) rfl fun p => ?_
    simpa [Frame.holds, count_ref] using borrow_held hheld.2 p
  | @drop i n hi hheld =>
    refine h.drop hi (sameTree_borrow s n) rfl fun p => ?_
    have hp := borrow_held hheld.2 p
    simp only [List.flatMap_nil, List.count_nil]
    omega
  | @step i f below t hi htop => exact refStep_stepTop h hi htop

theorem refInv_init : RefInv (registry memoryLimitHardBytes totalRam).init := by
  have hparent := parent_init memoryLimitHardBytes totalRam
  refine ⟨Nat.one_pos, fun n q hq => ?_, fun n hn => ?_, fun p => ?_⟩
  · rw [hparent] at hq
    cases hq
  · have hne : n ≠ 0 := Nat.one_le_iff_ne_zero.1 hn
    simp [registry, hne]
  · have hchildren : liveChildren (registry memoryLimitHardBytes totalRam).init p = 0 := by
      simp [liveChildren, hparent]
    rw [holders, hchildren]
    by_cases hp : p = 0
    · simp [registry, inFrames, hp]
    · simp [registry, inFrames, hp]

end Bboy.MemTracker.Registry
