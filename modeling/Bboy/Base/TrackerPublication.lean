/-
When a `MemTracker` becomes visible to other threads: `CreateTracker` puts it on its parent's list of children before `Init`
builds its `all_trackers_`, and a thread that finds it there may `Consume` at it.

- `chainOf`: a tracker and its ancestors. `ConsumesComplete`: every `Consume` that has returned has added its bytes to the
  whole chain of its tracker.
- `AfterInit`: a `Consume` starts its loop over `all_trackers_` after `Init` of the tracker has ended.
- `consumes_complete`: the property holds in every run that meets the condition, and the first `Consume` that misses it
  returns with a part of the chain left out.
Witness: `consume_before_init`.
-/
import Bboy.Base.TrackerRegistry

namespace Bboy.MemTracker.Registry

open Core

/-- the tracker and its ancestors -/
def chainOf (s : St) (n : ℕ) : List ℕ := initLoop s.tracker (n + 1) (some n)

def ConsumesComplete (s : St) : Prop := ∀ c ∈ s.consumed, c.2.2 = chainOf s c.1

/-- the tracker that the frame constructs -/
def Frame.creates : Frame → Option ℕ
  | .creating n _ _ _ _ => some n
  | _ => none

/-- the tracker whose `all_trackers_` the frame has still to build -/
def Frame.initialises : Frame → Option ℕ
  | .creating _ _ _ _ (.initialising none) => none
  | .creating n _ _ _ _ => some n
  | _ => none

/-- a `Consume` that starts its loop finds a tracker that no `CreateTracker` is still initialising -/
def AfterInit (s : St) : Op → Prop
  | .step i => ∀ n bytes below, s.threads[i]? = some (.consuming n bytes .starting :: below) →
      ∀ f ∈ s.threads.flatten, f.initialises ≠ some n
  | _ => True

/-! ## Chains -/

variable {s t u : St} {i n m : ℕ} {f : Frame} {stack stack' below below' : List Frame}

/-- more fuel changes nothing -/
theorem initLoop_fuel (ho : Ordered s) : ∀ k k' n, n < k → n < k' →
    initLoop s.tracker k (some n) = initLoop s.tracker k' (some n) := by
  intro k
  induction k with
  | zero => exact fun k' n h => absurd h (Nat.not_lt_zero n)
  | succ k ih =>
    intro k' n hk hk'
    cases k' with
    | zero => exact absurd hk' (Nat.not_lt_zero n)
    | succ k' =>
      rw [initLoop, initLoop]
      cases hp : (s.tracker n).parent with
      | none => cases k <;> cases k' <;> rfl
      | some p =>
        have hpn := (ho n p hp).1
        rw [ih k' p (by omega) (by omega)]

theorem chainOf_eq (ho : Ordered s) (n : ℕ) : chainOf s n = n :: (s.tracker n).parent.elim [] (chainOf s) := by
  rw [chainOf, initLoop]
  cases hp : (s.tracker n).parent with
  | none => cases n <;> rfl
  | some p => exact congrArg (n :: ·) (initLoop_fuel ho n (p + 1) p (ho n p hp).1 (Nat.lt_succ_self p))

theorem chainOf_ne_nil (ho : Ordered s) (n : ℕ) : chainOf s n ≠ [] := by
  rw [chainOf_eq ho]
  exact List.cons_ne_nil _ _

/-- the chain of a tracker is the same as long as the parents are -/
theorem chainOf_congr (hs : Ordered s) (ht : Ordered t)
    (hparent : ∀ m < s.next, (t.tracker m).parent = (s.tracker m).parent) :
    ∀ n < s.next, chainOf t n = chainOf s n := by
  intro n
  induction n using Nat.strong_induction_on with
  | _ n ih =>
    intro hn
    rw [chainOf_eq hs, chainOf_eq ht, hparent n hn]
    cases hp : (s.tracker n).parent with
    | none => rfl
    | some p =>
      have hpn := (hs n p hp).1
      exact congrArg (n :: ·) (ih p hpn (hpn.trans hn))

/-! ## The invariant -/

/-- the frames that the property is about -/
def Frame.relevant : Frame → Bool
  | .creating _ _ _ _ _ => true
  | .consuming _ _ _ => true
  | _ => false

def actors (s : St) : List Frame := s.threads.flatten.filter Frame.relevant

/-- `Init` has built the chain up to its cursor; a `Consume` goes through the whole chain -/
def ActorInv (s : St) : Frame → Prop
  | .creating n _ _ _ (.initialising cursor) => n < s.next ∧ (∀ c ∈ cursor, c < s.next) ∧
      (s.tracker n).allTrackers ++ cursor.elim [] (chainOf s) = chainOf s n
  | .creating n _ _ _ _ => n < s.next ∧ (s.tracker n).allTrackers = []
  | .consuming n _ .starting => n < s.next
  | .consuming n _ (.adding added todo) => n < s.next ∧ added ++ todo = chainOf s n
  | _ => True

structure PubInv (s : St) : Prop where
  pos : 0 < s.next
  ordered : Ordered s
  frames : ∀ f ∈ actors s, ActorInv s f
  unique : ((actors s).filterMap Frame.creates).Nodup
  complete : ∀ n < s.next, (∀ f ∈ actors s, f.initialises ≠ some n) → (s.tracker n).allTrackers = chainOf s n
  consumed : ∀ c ∈ s.consumed, c.1 < s.next ∧ c.2.2 = chainOf s c.1

theorem creates_of_initialises (h : f.initialises = some n) : f.creates = some n := by
  cases f with
  | creating m parent arg global pc =>
    cases pc with
    | initialising cursor => cases cursor <;> first | exact h | cases h
    | _ => exact h
  | _ => cases h

theorem creates_lt (h : ActorInv s f) (hn : f.creates = some n) : n < s.next := by
  cases f with
  | creating m parent arg global pc =>
    cases hn
    cases pc <;> exact h.1
  | _ => cases hn

/-- the frames of the other threads, and those of thread `i` -/
theorem actors_setStack (hthreads : t.threads = s.threads) (hi : s.threads[i]? = some stack) :
    ∃ rest, (actors s).Perm (stack.filter Frame.relevant ++ rest) ∧
      ∀ stack', (actors (setStack t i stack')).Perm (stack'.filter Frame.relevant ++ rest) := by
  refine ⟨(s.threads.eraseIdx i).flatten.filter Frame.relevant, ?_, fun stack' => ?_⟩
  · have hperm := ((slot_perm hi).flatten).filter Frame.relevant
    rwa [List.flatten_cons, List.filter_append] at hperm
  · have hperm := ((slot_set_perm hi stack').flatten).filter Frame.relevant
    rw [List.flatten_cons, List.filter_append] at hperm
    rw [actors, setStack, hthreads]
    exact hperm

/-- a frame keeps what it knows as long as the chains are as before and nobody else pushes on its tracker -/
theorem ActorInv.mono (h : ActorInv s f) (hnext : s.next ≤ t.next) (hchain : ∀ m < s.next, chainOf t m = chainOf s m)
    (hall : ∀ m, f.creates = some m → (t.tracker m).allTrackers = (s.tracker m).allTrackers) : ActorInv t f := by
  cases f with
  | creating m parent arg global pc =>
    cases pc with
    | initialising cursor =>
      obtain ⟨hm, hcursor, hbuilt⟩ := h
      refine ⟨hm.trans_le hnext, fun c hc => (hcursor c hc).trans_le hnext, ?_⟩
      rw [hall m rfl, hchain m hm, ← hbuilt]
      cases cursor with
      | none => rfl
      | some c => exact congrArg _ (hchain c (hcursor c rfl))
    | adding => exact ⟨h.1.trans_le hnext, (hall m rfl).trans h.2⟩
    | inserting => exact ⟨h.1.trans_le hnext, (hall m rfl).trans h.2⟩
  | consuming m bytes pc =>
    cases pc with
    | starting => exact lt_of_lt_of_le h hnext
    | adding added todo => exact ⟨h.1.trans_le hnext, h.2.trans (hchain m h.1).symm⟩
  | _ => trivial

/-- the frames in `old` become those in `new`; `all_trackers_` changes only where `old` creates a tracker -/
theorem PubInv.step {old new rest : List Frame} (h : PubInv s) (hs : (actors s).Perm (old ++ rest))
    (ht : (actors t).Perm (new ++ rest)) (hnext : s.next ≤ t.next) (hordered : Ordered t)
    (hparent : ∀ m < s.next, (t.tracker m).parent = (s.tracker m).parent)
    (hall : ∀ m < s.next, m ∉ old.filterMap Frame.creates → (t.tracker m).allTrackers = (s.tracker m).allTrackers)
    (hnew : ∀ f ∈ new, ActorInv t f) (hunique : (new.filterMap Frame.creates).Nodup)
    (hcreates : ∀ m ∈ new.filterMap Frame.creates, m ∈ old.filterMap Frame.creates ∨ s.next ≤ m)
    (hcomplete : ∀ m < t.next, m ∈ old.filterMap Frame.creates ∨ s.next ≤ m → (∀ f ∈ new, f.initialises ≠ some m) →
      (t.tracker m).allTrackers = chainOf t m)
    (hconsumed : ∀ c ∈ t.consumed, c ∈ s.consumed ∨ c.1 < t.next ∧ c.2.2 = chainOf t c.1) : PubInv t := by
  have hchain := chainOf_congr h.ordered hordered hparent
  have hold : ∀ f ∈ old ++ rest, ActorInv s f := fun f hf => h.frames f (hs.mem_iff.2 hf)
  have hnodup := h.unique
  rw [(hs.filterMap _).nodup_iff, List.filterMap_append, List.nodup_append] at hnodup
  obtain ⟨-, hrest, hdisjoint⟩ := hnodup
  have hcreator : ∀ m, m ∈ rest.filterMap Frame.creates → m < s.next ∧ m ∉ old.filterMap Frame.creates := by
    intro m hm
    obtain ⟨f, hf, hfm⟩ := List.mem_filterMap.1 hm
    exact ⟨creates_lt (hold f (List.mem_append_right old hf)) hfm, fun hmold => hdisjoint m hmold m hm rfl⟩
  refine ⟨h.pos.trans_le hnext, hordered, fun f hf => ?_, ?_, fun m hm hnone => ?_, fun c hc => ?_⟩
  · rcases List.mem_append.1 (ht.mem_iff.1 hf) with hf | hf
    · exact hnew f hf
    · -- a frame of another thread creates another tracker
      apply (hold f (List.mem_append_right old hf)).mono hnext hchain
      intro m hm
      obtain ⟨hlt, hmold⟩ := hcreator m (List.mem_filterMap.2 ⟨f, hf, hm⟩)
      exact hall m hlt hmold
  · rw [(ht.filterMap _).nodup_iff, List.filterMap_append, List.nodup_append]
    refine ⟨hunique, hrest, fun a ha b hb hab => ?_⟩
    obtain ⟨hb, hbold⟩ := hcreator b hb
    rcases hcreates a ha with ha | ha
    · exact hbold (hab ▸ ha)
    · exact absurd hb (not_lt.2 (hab ▸ ha))
  · by_cases hmold : m ∈ old.filterMap Frame.creates ∨ s.next ≤ m
    · exact hcomplete m hm hmold fun f hf => hnone f (ht.mem_iff.2 (List.mem_append_left rest hf))
    · rw [not_or, not_le] at hmold
      have hbefore : ∀ f ∈ actors s, f.initialises ≠ some m := by
        intro f hf hfm
        rcases List.mem_append.1 (hs.mem_iff.1 hf) with hf | hf
        · exact hmold.1 (List.mem_filterMap.2 ⟨f, hf, creates_of_initialises hfm⟩)
        · exact hnone f (ht.mem_iff.2 (List.mem_append_right new hf)) hfm
      rw [hall m hmold.2 hmold.1, hchain m hmold.2]
      exact h.complete m hmold.2 hbefore
  · rcases hconsumed c hc with hc | hc
    · obtain ⟨hlt, heq⟩ := h.consumed c hc
      exact ⟨hlt.trans_le hnext, heq.trans (hchain c.1 hlt).symm⟩
    · exact hc

theorem chainOf_tracker (htracker : t.tracker = s.tracker) (n : ℕ) : chainOf t n = chainOf s n := by
  rw [chainOf, chainOf, htracker]

/-- a step that changes no tracker -/
theorem PubInv.same {old new rest : List Frame} (h : PubInv s) (hs : (actors s).Perm (old ++ rest))
    (ht : (actors t).Perm (new ++ rest)) (htracker : t.tracker = s.tracker) (hnext : t.next = s.next)
    (hnew : ∀ f ∈ new, ActorInv s f) (hcreates : (new.filterMap Frame.creates).Sublist (old.filterMap Frame.creates))
    (hcomplete : ∀ m ∈ old.filterMap Frame.creates, (∀ f ∈ new, f.initialises ≠ some m) →
      (s.tracker m).allTrackers = chainOf s m)
    (hconsumed : ∀ c ∈ t.consumed, c ∈ s.consumed ∨ c.1 < s.next ∧ c.2.2 = chainOf s c.1) : PubInv t := by
  have hordered : Ordered t := by
    unfold Ordered
    rw [htracker, hnext]
    exact h.ordered
  have hnodup := h.unique
  rw [(hs.filterMap _).nodup_iff, List.filterMap_append, List.nodup_append] at hnodup
  refine h.step hs ht hnext.ge hordered (fun m _ => by rw [htracker]) (fun m _ _ => by rw [htracker])
    (fun f hf => (hnew f hf).mono hnext.ge (fun m _ => chainOf_tracker htracker m) fun m _ => by rw [htracker]) (hnodup.1.sublist hcreates)
    (fun m hm => Or.inl (hcreates.subset hm)) (fun m hm hor hnone => ?_) fun c hc => ?_
  · rw [htracker, chainOf_tracker htracker]
    exact hcomplete m (hor.resolve_right (not_le.2 (hnext ▸ hm))) hnone
  · rw [hnext, chainOf_tracker htracker]
    exact hconsumed c hc

/-- a step that is of no concern to the property -/
theorem PubInv.neutral (h : PubInv s) (htracker : t.tracker = s.tracker) (hnext : t.next = s.next)
    (hconsumed : t.consumed = s.consumed) (hactors : (actors t).Perm (actors s)) : PubInv t := by
  have hs : (actors s).Perm ([] ++ actors s) := List.Perm.refl _
  refine h.same hs hactors htracker hnext (fun f hf => absurd hf List.not_mem_nil) (List.Sublist.refl _)
    (fun m hm => absurd hm List.not_mem_nil) fun c hc => Or.inl (hconsumed ▸ hc)

theorem PubInv.sameTree (h : PubInv s) (hsame : SameTree s t) : PubInv t := by
  refine h.neutral hsame.tracker hsame.next hsame.consumed ?_
  rw [actors, actors, hsame.threads]

theorem neutral_setStack (h : PubInv s) (hi : s.threads[i]? = some stack) (hsame : SameTree s t)
    (hstack : stack'.filter Frame.relevant = stack.filter Frame.relevant) : PubInv (setStack t i stack') := by
  obtain ⟨rest, hs, ht⟩ := actors_setStack hsame.threads hi
  refine h.neutral hsame.tracker hsame.next hsame.consumed ((ht stack').trans ?_)
  rw [hstack]
  exact hs.symm

theorem neutral_dropRef (h : PubInv s) (hi : s.threads[i]? = some stack)
    (hstack : below.filter Frame.relevant = stack.filter Frame.relevant) : PubInv (dropRef s i n below) := by
  obtain ⟨u, hu, heq | ⟨p, -, -, heq⟩⟩ := dropRef_eq s i n below
  · rw [heq]
    exact neutral_setStack h hi hu hstack
  · rw [heq]
    exact neutral_setStack h hi hu hstack

/-- the frame on top of the stack of thread `i`, and all other frames -/
theorem actors_top (hthreads : t.threads = s.threads) (hi : s.threads[i]? = some (f :: below)) :
    ∃ rest, (actors s).Perm ([f].filter Frame.relevant ++ rest) ∧
      ∀ top, (actors (setStack t i (top ++ below))).Perm (top.filter Frame.relevant ++ rest) := by
  obtain ⟨rest, hs, ht⟩ := actors_setStack hthreads hi
  refine ⟨below.filter Frame.relevant ++ rest, ?_, fun top => ?_⟩
  · rwa [← List.append_assoc, ← List.filter_append, List.singleton_append]
  · rw [← List.append_assoc, ← List.filter_append]
    exact ht (top ++ below)

theorem mem_actors_top (hi : s.threads[i]? = some (f :: below)) (hf : f.relevant = true) : f ∈ actors s :=
  List.mem_filter.2 ⟨List.mem_flatten.2 ⟨_, List.mem_of_getElem? hi, List.mem_cons_self⟩, hf⟩

/-! ## Steps -/

/-- the frame on top goes on; if it creates a tracker, it is not done with it -/
theorem pubInv_goesOn {f' : Frame} (h : PubInv s) (hi : s.threads[i]? = some (f :: below))
    (hthreads : t.threads = s.threads) (htracker : t.tracker = s.tracker) (hnext : t.next = s.next)
    (hconsumed : t.consumed = s.consumed) (hf : f.relevant = true) (hf' : f'.relevant = true)
    (hcreates : f'.creates = f.creates) (hinitialises : ∀ m, f.creates = some m → f'.initialises = some m)
    (hinv : ActorInv s f') : PubInv (setStack t i (f' :: below)) := by
  obtain ⟨rest, hs, ht⟩ := actors_top hthreads hi
  have hold : [f].filter Frame.relevant = [f] := by simp [hf]
  have hnew : [f'].filter Frame.relevant = [f'] := by simp [hf']
  have ht' : (actors (setStack t i (f' :: below))).Perm ([f'] ++ rest) := by
    rw [← hnew]
    exact ht [f']
  rw [hold] at hs
  refine h.same hs ht' htracker hnext (fun g hg => ?_) ?_ (fun m hm hnone => ?_) fun c hc => Or.inl (hconsumed ▸ hc)
  · rw [List.mem_singleton.1 hg]
    exact hinv
  · rw [List.filterMap_cons, List.filterMap_cons, hcreates]
  · obtain ⟨g, hg, hm⟩ := List.mem_filterMap.1 hm
    rw [List.mem_singleton.1 hg] at hm
    exact absurd (hinitialises m hm) (hnone f' (List.mem_singleton.2 rfl))

/-- a new tracker: its `all_trackers_` is empty until `Init` -/
theorem pubInv_construct {p : ℕ} {byteLimit : ℤ} {id : String} {arg : Option ℕ} {global : Bool} {rest : List Frame}
    (h : PubInv s) (hp : p < s.next) (hs : (actors s).Perm ([] ++ rest))
    (ht : (actors (setStack (construct s p byteLimit id) i stack)).Perm
      ([.creating s.next p arg global .adding] ++ rest)) :
    PubInv (setStack (construct s p byteLimit id) i stack) := by
  have hold : ∀ m < s.next, (construct s p byteLimit id).tracker m = s.tracker m := by
    intro m hm
    simp [construct, addRef, hm.ne]
  have hnew : (construct s p byteLimit id).tracker s.next = ⟨byteLimit, id, some p, []⟩ := by
    simp [construct, addRef]
  refine h.step hs ht (Nat.le_succ _) (ordered_construct h.ordered hp byteLimit id)
    (fun m hm => by rw [← hold m hm]; rfl) (fun m hm _ => by rw [← hold m hm]; rfl) (fun f hf => ?_)
    (List.nodup_singleton _) (fun m hm => ?_) (fun m hm hor hnone => ?_) fun c hc => Or.inl hc
  · rw [List.mem_singleton.1 hf]
    exact ⟨Nat.lt_succ_self _, congrArg MemTracker.allTrackers hnew⟩
  · exact Or.inr (List.mem_singleton.1 hm).ge
  · obtain rfl : m = s.next := Nat.le_antisymm (Nat.le_of_lt_succ hm) (hor.resolve_left List.not_mem_nil)
    exact absurd rfl (hnone _ (List.mem_singleton.2 rfl))

/-- `Init` pushes a tracker, and the cursor moves to its parent -/
theorem actorInv_push {c parent : ℕ} {arg : Option ℕ} {global : Bool} (ho : Ordered s)
    (h : ActorInv s (.creating n parent arg global (.initialising (some c)))) :
    ActorInv (pushTracker s n c) (.creating n parent arg global (.initialising (s.tracker c).parent)) := by
  obtain ⟨hlt, hcursor, hbuilt⟩ := h
  have hc : c < s.next := hcursor c rfl
  have hchain := chainOf_congr ho (ordered_pushTracker ho n c) fun m _ => parent_pushTracker s n c m
  have hpushed : ((pushTracker s n c).tracker n).allTrackers = (s.tracker n).allTrackers ++ [c] := by
    simp [pushTracker]
  have hrest : (s.tracker c).parent.elim [] (chainOf (pushTracker s n c)) =
      (s.tracker c).parent.elim [] (chainOf s) := by
    cases hq : (s.tracker c).parent with
    | none => rfl
    | some q => exact hchain q ((ho c q hq).1.trans hc)
  refine ⟨hlt, fun q hq => (ho c q hq).1.trans hc, ?_⟩
  calc ((pushTracker s n c).tracker n).allTrackers ++ (s.tracker c).parent.elim [] (chainOf (pushTracker s n c))
      = (s.tracker n).allTrackers ++ c :: (s.tracker c).parent.elim [] (chainOf s) := by
        rw [hpushed, hrest, List.append_assoc, List.singleton_append]
    _ = (s.tracker n).allTrackers ++ chainOf s c := by rw [← chainOf_eq ho c]
    _ = chainOf s n := hbuilt
    _ = chainOf (pushTracker s n c) n := (hchain n hlt).symm

theorem pubInv_push {c parent : ℕ} {arg : Option ℕ} {global : Bool} (h : PubInv s)
    (hi : s.threads[i]? = some (.creating n parent arg global (.initialising (some c)) :: below)) :
    PubInv (setStack (pushTracker s n c) i
      (.creating n parent arg global (.initialising (s.tracker c).parent) :: below)) := by
  obtain ⟨rest, hold, hnew⟩ := actors_top (t := pushTracker s n c) rfl hi
  have hinv := actorInv_push h.ordered (h.frames _ (mem_actors_top hi rfl))
  refine h.step hold (hnew [.creating n parent arg global (.initialising (s.tracker c).parent)]) le_rfl
    (ordered_pushTracker h.ordered n c) (fun m _ => parent_pushTracker s n c m) (fun m _ hm => ?_) (fun f hf => ?_)
    (List.nodup_singleton n) (fun m hm => Or.inl hm) (fun m hm hor hnone => ?_) fun c hc => Or.inl hc
  · have hne : m ≠ n := fun he => hm (List.mem_singleton.2 he)
    simp [pushTracker, setStack, hne]
  · rw [List.mem_singleton.1 hf]
    exact hinv
  · -- `Init` is done with the tracker when the cursor passes the root
    obtain rfl : m = n := List.mem_singleton.1 (hor.resolve_right (not_le.2 hm))
    have hdone := hnone _ (List.mem_singleton.2 rfl)
    cases hq : (s.tracker c).parent with
    | none =>
      rw [hq] at hinv
      have hall := hinv.2.2
      exact (List.append_nil _).symm.trans hall
    | some q =>
      rw [hq] at hdone
      exact absurd rfl hdone

theorem pubInv_creating {parent : ℕ} {arg : Option ℕ} {global : Bool} {pc : CreatePc} (h : PubInv s)
    (hi : s.threads[i]? = some (.creating n parent arg global pc :: below))
    (hs : stepCreating s i n parent arg global below pc = some t) : PubInv t := by
  have hinv := h.frames _ (mem_actors_top hi rfl)
  cases pc with
  | adding =>
    simp only [stepCreating] at hs
    split_ifs at hs
    cases hs
    exact pubInv_goesOn h hi rfl rfl rfl rfl rfl rfl rfl (fun m hm => hm) hinv
  | inserting =>
    cases hs
    have hstart : ActorInv s (.creating n parent arg global (.initialising (some n))) := by
      refine ⟨hinv.1, fun c hc => ?_, ?_⟩
      · cases hc
        exact hinv.1
      · rw [hinv.2]
        rfl
    exact pubInv_goesOn h hi rfl rfl rfl rfl rfl rfl rfl (fun m hm => hm) hstart
  | initialising cursor =>
    cases cursor with
    | some c =>
      cases hs
      exact pubInv_push h hi
    | none =>
      cases hs
      obtain ⟨hnext, htracker, -, hthreads, hconsumed⟩ := (sameTree_hold s n).trans (sameTree_giveBack (hold s n) arg)
      obtain ⟨rest, hold', hnew⟩ := actors_top hthreads hi
      refine h.same hold' (hnew []) htracker hnext (fun f hf => absurd hf List.not_mem_nil)
        (List.nil_sublist _) (fun m hm _ => ?_) fun c hc => Or.inl (hconsumed ▸ hc)
      rw [List.mem_singleton.1 hm, ← hinv.2.2]
      exact (List.append_nil _).symm

theorem pubInv_consuming {bytes : ℤ} {pc : ConsumePc} (h : PubInv s)
    (hi : s.threads[i]? = some (.consuming n bytes pc :: below)) (hafter : AfterInit s (.step i))
    (hs : stepConsuming s i n bytes below pc = some t) : PubInv t := by
  have hinv := h.frames _ (mem_actors_top hi rfl)
  cases pc with
  | starting =>
    cases hs
    have hall : (s.tracker n).allTrackers = chainOf s n := by
      apply h.complete n hinv
      intro f hf
      exact hafter n bytes below hi f (List.mem_of_mem_filter hf)
    exact pubInv_goesOn h hi rfl rfl rfl rfl rfl rfl rfl (fun m hm => by cases hm) ⟨hinv, hall⟩
  | adding added todo =>
    obtain ⟨hlt, hchain⟩ := hinv
    cases todo with
    | cons m todo =>
      cases hs
      have hmoved : ActorInv s (.consuming n bytes (.adding (added ++ [m]) todo)) := by
        refine ⟨hlt, ?_⟩
        rw [List.append_assoc, List.singleton_append]
        exact hchain
      exact pubInv_goesOn h hi rfl rfl rfl rfl rfl rfl rfl (fun m hm => by cases hm) hmoved
    | nil =>
      cases hs
      obtain ⟨rest, hold, hnew⟩ := actors_top (t := hold { s with consumed := (n, bytes, added) :: s.consumed } n) rfl hi
      refine h.same hold (hnew []) rfl rfl (fun f hf => absurd hf List.not_mem_nil) (List.Sublist.refl _)
        (fun m hm => absurd hm List.not_mem_nil) fun c hc => ?_
      -- the `Consume` that returns has gone through the whole chain
      rcases List.mem_cons.1 hc with rfl | hc
      · exact Or.inr ⟨hlt, (List.append_nil added).symm.trans hchain⟩
      · exact Or.inl hc

theorem pubInv_finding {parent : ℕ} {arg : Option ℕ} {id : String} {global : Option ℤ} {pc : FindPc} (h : PubInv s)
    (hi : s.threads[i]? = some (.finding parent arg id global pc :: below))
    (hs : stepFinding s i parent arg id global below pc = some t) : PubInv t := by
  cases stepFinding_cases hs with
  | locking hfree => exact neutral_setStack h hi (SameTree.refl s) rfl
  | copying => exact neutral_setStack h hi (SameTree.refl s) rfl
  | @matching global child children found hlive hid => exact neutral_setStack h hi (sameTree_addRef s child) rfl
  | @other global child children found hlive hid => exact neutral_setStack h hi (sameTree_addRef s child) rfl
  | expired hdead => exact neutral_setStack h hi (SameTree.refl s) rfl
  | searched => exact neutral_setStack h hi (SameTree.refl s) rfl
  | dropping => exact neutral_dropRef h hi rfl
  | clearing => exact neutral_dropRef h hi rfl
  | @returnFound global n =>
    exact neutral_setStack h hi ((sameTree_hold s n).trans (sameTree_giveBack (hold s n) arg)) rfl
  | returnNone => exact neutral_setStack h hi (sameTree_giveBack s arg) rfl
  | @construct byteLimit =>
    obtain ⟨rest, hold, hnew⟩ := actors_top (t := construct s 0 byteLimit id) rfl hi
    exact pubInv_construct h h.pos hold (hnew [.creating s.next 0 none true .adding])

theorem pubInv_listing {trackers toProcess : List ℕ} {pc : ListPc} (h : PubInv s)
    (hi : s.threads[i]? = some (.listing trackers toProcess pc :: below))
    (hs : stepListing s i trackers toProcess below pc = some t) : PubInv t := by
  cases stepListing_cases hs with
  | returns => exact neutral_setStack h hi (sameTree_holdAll s trackers) rfl
  | next => exact neutral_setStack h hi (SameTree.refl s) rfl
  | locking hfree => exact neutral_setStack h hi (SameTree.refl s) rfl
  | @live toProcess m child children hlive => exact neutral_setStack h hi (sameTree_addRef s child) rfl
  | expired hdead => exact neutral_setStack h hi (SameTree.refl s) rfl
  | iterated => exact neutral_setStack h hi (SameTree.refl s) rfl

theorem pubInv_logging {nested : Bool} {pc : LogPc} (h : PubInv s)
    (hi : s.threads[i]? = some (.logging n nested pc :: below))
    (hs : stepLogging s i n nested below pc = some t) : PubInv t := by
  cases stepLogging_cases hs with
  | locking hfree => exact neutral_setStack h hi (SameTree.refl s) rfl
  | @live nested child children hlive => exact neutral_setStack h hi (sameTree_addRef s child) rfl
  | expired hdead => exact neutral_setStack h hi (SameTree.refl s) rfl
  | inChild => exact neutral_dropRef h hi rfl
  | returnNested => exact neutral_setStack h hi (SameTree.refl s) rfl
  | returns => exact neutral_setStack h hi (sameTree_hold s n) rfl

theorem pubInv_destroying {parent : ℕ} {pc : DestroyPc} (h : PubInv s)
    (hi : s.threads[i]? = some (.destroying n parent pc :: below))
    (hs : stepDestroying s i n parent below pc = some t) : PubInv t := by
  cases pc with
  | locking =>
    simp only [stepDestroying] at hs
    split_ifs at hs
    cases hs
    exact neutral_setStack h hi (SameTree.refl s) rfl
  | erasing =>
    cases hs
    obtain ⟨rest, hold, hnew⟩ := actors_top (t := setChildren s parent ((s.children parent).erase n)) rfl hi
    exact h.neutral rfl rfl rfl ((hnew [.destroying n parent .releasingParent]).trans hold.symm)
  | releasingParent =>
    cases hs
    exact neutral_dropRef h hi rfl

theorem pubInv_stepTop (h : PubInv s) (hi : s.threads[i]? = some (f :: below)) (hafter : AfterInit s (.step i))
    (hs : stepTop s i f below = some t) : PubInv t := by
  cases f with
  | creating n parent arg global pc => exact pubInv_creating h hi hs
  | lockingGlobal byteLimit id =>
    simp only [stepTop] at hs
    split_ifs at hs
    cases hs
    exact neutral_setStack h hi (SameTree.refl s) rfl
  | finding parent arg id global pc => exact pubInv_finding h hi hs
  | listing trackers toProcess pc => exact pubInv_listing h hi hs
  | logging n nested pc => exact pubInv_logging h hi hs
  | destroying n parent pc => exact pubInv_destroying h hi hs
  | consuming n bytes pc => exact pubInv_consuming h hi hafter hs

variable {memoryLimitHardBytes totalRam : ℤ} {o : Op}

/-- the step rule: a step that meets the condition keeps the invariant -/
theorem step_pubInv (h : PubInv s) (hafter : AfterInit s o)
    (hs : (registry memoryLimitHardBytes totalRam).step s o = some t) : PubInv t := by
  cases step_cases hs with
  | spawn =>
    refine h.neutral rfl rfl rfl ?_
    simp [actors]
  | getRootTracker =>
    exact h.sameTree ((sameTree_addRef s 0).trans (sameTree_hold (addRef s 0) 0))
  | @copy n hheld =>
    exact h.sameTree ((sameTree_addRef s n).trans (sameTree_hold (addRef s n) n))
  | @createTracker i byteLimit id parent hi harg =>
    have hsame := sameTree_borrowArg s parent
    have hi : (borrowArg s parent).threads[i]? = some [] := by
      rw [hsame.threads]
      exact hi
    rw [← hsame.next]
    obtain ⟨rest, hold, hnew⟩ :=
      actors_setStack (t := construct (borrowArg s parent) (parent.getD 0) byteLimit id) rfl hi
    exact pubInv_construct (h.sameTree hsame) (realParent_lt h.pos harg) hold
      (hnew [.creating (borrowArg s parent).next (parent.getD 0) parent false .adding])
  | @findTracker i id parent hi harg =>
    exact neutral_setStack h hi (sameTree_borrowArg s parent) rfl
  | @findOrCreateGlobalTracker i byteLimit id hi =>
    exact neutral_setStack h hi (SameTree.refl s) rfl
  | @listTrackers i hi =>
    exact neutral_setStack h hi (sameTree_addRef s 0) rfl
  | @logUsage i n hi hheld =>
    exact neutral_setStack h hi (sameTree_borrow s n) rfl
  | @consume i n bytes hi hheld hpos =>
    obtain ⟨rest, hold, hnew⟩ := actors_setStack (t := borrow s n) rfl hi
    refine h.same hold (hnew [.consuming n bytes .starting]) rfl rfl (fun f hf => ?_) (List.Sublist.refl _)
      (fun m hm => absurd hm List.not_mem_nil) fun c hc => Or.inl hc
    rw [List.mem_singleton.1 hf]
    exact hheld.1
  | @drop i n hi hheld =>
    exact neutral_dropRef (h.sameTree (sameTree_borrow s n)) hi rfl
  | @step i f below t hi htop => exact pubInv_stepTop h hi hafter htop

theorem pubInv_init : PubInv (registry memoryLimitHardBytes totalRam).init := by
  have hparent := parent_init memoryLimitHardBytes totalRam
  have hordered : Ordered (registry memoryLimitHardBytes totalRam).init := by
    intro n p hp
    rw [hparent] at hp
    cases hp
  refine ⟨Nat.one_pos, hordered, fun f hf => ?_, List.nodup_nil, fun n hn _ => ?_, fun c hc => ?_⟩
  · exact absurd hf List.not_mem_nil
  · obtain rfl : n = 0 := Nat.lt_one_iff.1 hn
    rw [chainOf_eq hordered, hparent]
    simp [registry]
  · exact absurd hc List.not_mem_nil

/-! ## A `Consume` before `Init` has ended -/

/-- a tracker that is still being initialised does not have its whole chain -/
theorem partial_chain (h : PubInv s) (hf : f ∈ s.threads.flatten) (hn : f.initialises = some n) :
    (s.tracker n).allTrackers ≠ chainOf s n := by
  have hcreates := creates_of_initialises hn
  cases f with
  | creating m parent arg global pc =>
    obtain rfl : m = n := Option.some.inj hcreates
    have hinv := h.frames _ (List.mem_filter.2 ⟨hf, rfl⟩)
    cases pc with
    | initialising cursor =>
      cases cursor with
      | none => cases hn
      | some c =>
        intro heq
        have hbuilt : (s.tracker m).allTrackers ++ chainOf s c = chainOf s m := hinv.2.2
        rw [heq, List.append_right_eq_self] at hbuilt
        exact chainOf_ne_nil h.ordered c hbuilt
    | adding => exact fun heq => chainOf_ne_nil h.ordered m (heq.symm.trans hinv.2)
    | inserting => exact fun heq => chainOf_ne_nil h.ordered m (heq.symm.trans hinv.2)
  | _ => cases hcreates

/-- the loop of a `Consume` waits for nobody: left alone, its thread adds the bytes to the trackers it has found -/
theorem finish_consume (memoryLimitHardBytes totalRam : ℤ) {bytes : ℤ} (todo : List ℕ) : ∀ (s : St) (added : List ℕ),
    s.threads[i]? = some (.consuming n bytes (.adding added todo) :: below) →
    ∃ u, (registry memoryLimitHardBytes totalRam).run s (List.replicate (todo.length + 1) (.step i)) = some u ∧
      u.tracker = s.tracker ∧ (n, bytes, added ++ todo) ∈ u.consumed := by
  induction todo with
  | nil =>
    intro s added hi
    refine ⟨setStack (hold { s with consumed := (n, bytes, added) :: s.consumed } n) i below, ?_, rfl, ?_⟩
    · simp [registry, Machine.run, hi, stepTop, stepConsuming]
    · rw [List.append_nil]
      exact List.mem_cons_self
  | cons m todo ih =>
    intro s added hi
    have hlt := (List.getElem?_eq_some_iff.1 hi).1
    have hstep : (registry memoryLimitHardBytes totalRam).step s (.step i) =
        some (setStack s i (.consuming n bytes (.adding (added ++ [m]) todo) :: below)) := by
      simp [registry, hi, stepTop, stepConsuming]
    obtain ⟨u, hrun, htracker, hmem⟩ := ih (setStack s i (.consuming n bytes (.adding (added ++ [m]) todo) :: below))
      (added ++ [m]) (List.getElem?_set_self hlt)
    refine ⟨u, ?_, htracker, ?_⟩
    · rw [List.length_cons, List.replicate_succ, Machine.run_cons, hstep]
      exact hrun
    · rwa [List.append_assoc, List.singleton_append] at hmem

/-- a `Consume` that starts while the tracker is being initialised returns with a part of the chain left out -/
theorem incomplete_of_not_afterInit (h : PubInv s) (hafter : ¬ AfterInit s o)
    (hs : (registry memoryLimitHardBytes totalRam).step s o = some t) :
    ∃ i k u, (registry memoryLimitHardBytes totalRam).run t (List.replicate k (.step i)) = some u ∧
      ¬ ConsumesComplete u := by
  cases o with
  | step i =>
    simp only [AfterInit, not_forall, not_not] at hafter
    obtain ⟨n, bytes, below, hi, f, hf, hn⟩ := hafter
    have hlt := (List.getElem?_eq_some_iff.1 hi).1
    have hstep : (registry memoryLimitHardBytes totalRam).step s (.step i) =
        some (setStack s i (.consuming n bytes (.adding [] (s.tracker n).allTrackers) :: below)) := by
      simp [registry, hi, stepTop, stepConsuming]
    obtain rfl := Option.some.inj (hstep.symm.trans hs)
    obtain ⟨u, hrun, htracker, hmem⟩ := finish_consume memoryLimitHardBytes totalRam (s.tracker n).allTrackers
      (setStack s i (.consuming n bytes (.adding [] (s.tracker n).allTrackers) :: below)) []
      (List.getElem?_set_self hlt)
    refine ⟨i, _, u, hrun, fun hcomplete => ?_⟩
    have hchain : chainOf u n = chainOf s n := chainOf_tracker htracker n
    have hall : (s.tracker n).allTrackers = chainOf u n := hcomplete _ hmem
    exact partial_chain h hf hn (hall.trans hchain)
  | _ => exact absurd trivial hafter

/-! ## Main result -/

/-- **Publication.** In a run in which every `Consume` starts after the `Init` of its tracker, every `Consume` that returns
has added its bytes to the tracker and all its ancestors. A step that misses the condition leads to one that has not. -/
theorem consumes_complete (memoryLimitHardBytes totalRam : ℤ) :
    (∀ ops, (registry memoryLimitHardBytes totalRam).Along AfterInit (registry memoryLimitHardBytes totalRam).init ops →
      (registry memoryLimitHardBytes totalRam).Always ConsumesComplete (registry memoryLimitHardBytes totalRam).init
        ops) ∧
    ∀ ops o s t, (registry memoryLimitHardBytes totalRam).Along AfterInit (registry memoryLimitHardBytes totalRam).init
        ops →
      (registry memoryLimitHardBytes totalRam).run (registry memoryLimitHardBytes totalRam).init ops = some s →
      (registry memoryLimitHardBytes totalRam).step s o = some t → ¬ AfterInit s o →
      ∃ i k u, (registry memoryLimitHardBytes totalRam).run t (List.replicate k (.step i)) = some u ∧
        ¬ ConsumesComplete u := by
  have hstep : ∀ s o t, PubInv s → AfterInit s o → (registry memoryLimitHardBytes totalRam).step s o = some t →
      PubInv t := fun s o t h hafter hs => step_pubInv h hafter hs
  constructor
  · intro ops halong
    apply Machine.always_of_along hstep _ pubInv_init halong
    exact fun s h c hc => (h.consumed c hc).2
  · intro ops o s t halong hrun hs hafter
    have hinv : PubInv s := Machine.run_inv_along hstep pubInv_init halong hrun
    exact incomplete_of_not_afterInit hinv hafter hs

/-- when `CreateTracker` has returned, a `Consume` reaches the root -/
example : ((registry 100 0).run (registry 100 0).init [.spawn, .createTracker 0 (-1) "child" none, .step 0, .step 0,
    .step 0, .step 0, .step 0, .consume 0 1 5, .step 0, .step 0, .step 0, .step 0]).map St.consumed =
      some [(1, 5, [1, 0])] := by decide

/-- thread 0 has put its new tracker on the root's list of children and is about to initialise it when thread 1 finds it
and consumes 5 bytes -/
def consumeWhileCreating : List Op :=
  [.spawn, .spawn, .createTracker 0 (-1) "child" none, .step 0, .step 0, .findTracker 1 "child" none, .step 1, .step 1,
    .step 1, .step 1, .step 1, .consume 1 1 5, .step 1, .step 1]

/-- **A tracker is used before it is initialised.** The 5 bytes are added to no tracker at all. -/
theorem consume_before_init :
    ∃ s, (registry 100 0).run (registry 100 0).init consumeWhileCreating = some s ∧
      s.consumed = [(1, 5, [])] ∧ chainOf s 1 = [1, 0] ∧ ¬ ConsumesComplete s := by
  refine ⟨_, rfl, rfl, by decide, fun h => ?_⟩
  have hcomplete := h (1, 5, []) List.mem_cons_self
  revert hcomplete
  decide

end Bboy.MemTracker.Registry
