/-
Guarded machines and their runs. A machine is an executable step function: `step s o = none` when operation `o` is not
enabled in state `s`. The same definition replays a concrete run (by `decide`) and carries the induction rules below,
so the guards that the proofs use are the guards that the replay uses.

- `run`: a list of operations, `none` as soon as one of them is not enabled;
- `Along P`: every operation of a run meets the condition `P` in the state before it. Conditions on a run (a clock that
  does not go back, a bound on the time between two operations) are stated this way and not built into the step;
- `Always Q`: every state that a run visits satisfies `Q`.

Rules:
- `run_inv_along`, `run_inv`: what one step preserves, a run preserves;
- `run_inv_effects`: the same for machines whose steps are made of smaller effects;
- `always_of_along`: an invariant along a run shows that every state it visits is good;
- `run_rel`: a reflexive and transitive relation that each step respects relates the two ends of a run;
- `always_iff_along`: the condition on the operations under which a run visits good states only;
- `run_inv_visits`: an invariant that looks back at all states that were visited;
- `run_first`: the step of a run at which something that is not so at its start becomes so;
- `run_congr`: two machines whose steps agree along a run have the same run;
- `run_simulation`: a machine whose steps are enabled and matched by an abstract step relation refines its runs (`Steps`);
- `run_simulates`: a machine that takes a step whenever an abstract machine does, and stays related to it, has its runs.
-/
import Mathlib.Tactic

namespace Core

/-- a guarded machine: `step s o = none` when `o` is not enabled in `s` -/
structure Machine (σ ι : Type*) where
  init : σ
  step : σ → ι → Option σ

namespace Machine

variable {σ ι : Type*} (M : Machine σ ι)

/-- run a list of operations from `s` -/
def run : σ → List ι → Option σ
  | s, [] => some s
  | s, o :: ops => (M.step s o).bind fun t => run t ops

/-- every operation of the run meets `P` in the state before it -/
def Along (P : σ → ι → Prop) : σ → List ι → Prop
  | _, [] => True
  | s, o :: ops => P s o ∧ ∀ t ∈ M.step s o, Along P t ops

/-- every state of the run, the first one included, satisfies `Q` -/
def Always (Q : σ → Prop) : σ → List ι → Prop
  | s, [] => Q s
  | s, o :: ops => Q s ∧ ∀ t ∈ M.step s o, Always Q t ops

/-- the run visits `u` -/
def Visits (s : σ) (ops : List ι) (u : σ) : Prop := ∃ pre post, ops = pre ++ post ∧ M.run s pre = some u

instance decidableAlong (P : σ → ι → Prop) [∀ s o, Decidable (P s o)] :
    ∀ s ops, Decidable (M.Along P s ops)
  | _, [] => isTrue trivial
  | s, o :: ops =>
    have : ∀ t, Decidable (M.Along P t ops) := fun t => decidableAlong P t ops
    inferInstanceAs (Decidable (P s o ∧ ∀ t ∈ M.step s o, M.Along P t ops))

instance decidableAlways (Q : σ → Prop) [DecidablePred Q] : ∀ s ops, Decidable (M.Always Q s ops)
  | s, [] => inferInstanceAs (Decidable (Q s))
  | s, o :: ops =>
    have : ∀ t, Decidable (M.Always Q t ops) := fun t => decidableAlways Q t ops
    inferInstanceAs (Decidable (Q s ∧ ∀ t ∈ M.step s o, M.Always Q t ops))

@[simp] theorem run_nil (s : σ) : M.run s [] = some s := rfl

theorem run_cons (s : σ) (o : ι) (ops : List ι) :
    M.run s (o :: ops) = (M.step s o).bind fun t => M.run t ops := rfl

theorem run_cons_some {s u : σ} {o : ι} {ops : List ι} (h : M.run s (o :: ops) = some u) :
    ∃ t, M.step s o = some t ∧ M.run t ops = some u := by
  rw [run_cons] at h
  exact Option.bind_eq_some_iff.1 h

theorem run_append (s : σ) (a b : List ι) : M.run s (a ++ b) = (M.run s a).bind fun t => M.run t b := by
  induction a generalizing s with
  | nil => rfl
  | cons o a ih => simp only [List.cons_append, run_cons, Option.bind_assoc, ih]

/-! ## Induction rules -/

variable {M} {P : σ → ι → Prop} {I : σ → Prop}

/-- **Invariant rule.** What every step that meets `P` preserves, a run along `P` preserves. -/
theorem run_inv_along (hstep : ∀ s o t, I s → P s o → M.step s o = some t → I t) {s t : σ} {ops : List ι}
    (hs : I s) (hP : M.Along P s ops) (h : M.run s ops = some t) : I t := by
  induction ops generalizing s with
  | nil =>
    cases h
    exact hs
  | cons o ops ih =>
    obtain ⟨u, hu, hr⟩ := M.run_cons_some h
    exact ih (hstep s o u hs hP.1 hu) (hP.2 u hu) hr

theorem along_true (s : σ) (ops : List ι) : M.Along (fun _ _ => True) s ops := by
  induction ops generalizing s with
  | nil => exact trivial
  | cons o ops ih => exact ⟨trivial, fun t _ => ih t⟩

/-- a condition on the operations alone -/
theorem along_of_forall {R : ι → Prop} (s : σ) {ops : List ι} (h : ∀ o ∈ ops, R o) : M.Along (fun _ o => R o) s ops := by
  induction ops generalizing s with
  | nil => exact trivial
  | cons o ops ih =>
    exact ⟨h o List.mem_cons_self, fun t _ => ih t fun o' ho => h o' (List.mem_cons_of_mem o ho)⟩

/-- the invariant rule for runs without a condition -/
theorem run_inv (hstep : ∀ s o t, I s → M.step s o = some t → I t) {s t : σ} {ops : List ι} (hs : I s)
    (h : M.run s ops = some t) : I t :=
  run_inv_along (fun s o t hi _ hst => hstep s o t hi hst) hs (along_true s ops) h

/-- **Effect rule.** When every step from an invariant state is a sequence of effects, what each effect preserves, a run
preserves. -/
theorem run_inv_effects {E : σ → σ → Prop} (heffect : ∀ s t, I s → E s t → I t)
    (hstep : ∀ s o t, I s → M.step s o = some t → Relation.ReflTransGen E s t) {s t : σ} {ops : List ι} (hs : I s)
    (h : M.run s ops = some t) : I t := by
  have heffects : ∀ u v, I u → Relation.ReflTransGen E u v → I v := by
    intro u v hu huv
    induction huv with
    | refl => exact hu
    | tail _ he ih => exact heffect _ _ ih he
  exact run_inv (fun s o t hi hst => heffects s t hi (hstep s o t hi hst)) hs h

/-- **Relation rule.** A reflexive and transitive relation that every step from an invariant state respects relates the
two ends of a run. -/
theorem run_rel {R : σ → σ → Prop} (refl : ∀ s, R s s) (trans : ∀ s t u, R s t → R t u → R s u)
    (hinv : ∀ s o t, I s → P s o → M.step s o = some t → I t)
    (hstep : ∀ s o t, I s → P s o → M.step s o = some t → R s t) {s t : σ} {ops : List ι} (hs : I s)
    (hP : M.Along P s ops) (h : M.run s ops = some t) : R s t := by
  induction ops generalizing s with
  | nil =>
    cases h
    exact refl _
  | cons o ops ih =>
    obtain ⟨u, hu, hr⟩ := M.run_cons_some h
    exact trans s u t (hstep s o u hs hP.1 hu) (ih (hinv s o u hs hP.1 hu) (hP.2 u hu) hr)

theorem along_and {Q : σ → ι → Prop} {s : σ} {ops : List ι} (hP : M.Along P s ops) (hQ : M.Along Q s ops) :
    M.Along (fun s o => P s o ∧ Q s o) s ops := by
  induction ops generalizing s with
  | nil => exact trivial
  | cons o ops ih => exact ⟨⟨hP.1, hQ.1⟩, fun t ht => ih (hP.2 t ht) (hQ.2 t ht)⟩

/-- a condition that follows from `P` where the invariant holds -/
theorem along_imp {Q : σ → ι → Prop} (hinv : ∀ s o t, I s → P s o → M.step s o = some t → I t)
    (h : ∀ s o, I s → P s o → Q s o) {s : σ} {ops : List ι} (hs : I s) (hP : M.Along P s ops) : M.Along Q s ops := by
  induction ops generalizing s with
  | nil => exact trivial
  | cons o ops ih => exact ⟨h s o hs hP.1, fun t ht => ih (hinv s o t hs hP.1 ht) (hP.2 t ht)⟩

theorem along_append {s t : σ} {a b : List ι} (h : M.Along P s (a ++ b)) (hr : M.run s a = some t) :
    M.Along P s a ∧ M.Along P t b := by
  induction a generalizing s with
  | nil =>
    cases hr
    exact ⟨trivial, h⟩
  | cons o a ih =>
    obtain ⟨u, hu, hr⟩ := M.run_cons_some hr
    refine ⟨⟨h.1, fun v hv => ?_⟩, (ih (h.2 u hu) hr).2⟩
    obtain rfl : u = v := Option.some.inj (hu.symm.trans hv)
    exact (ih (h.2 u hu) hr).1

/-- **Safety rule.** If every step that meets `P` keeps an invariant that implies `Q`, a run along `P` visits states with
`Q` only. -/
theorem always_of_along {Q : σ → Prop} (hstep : ∀ s o t, I s → P s o → M.step s o = some t → I t)
    (hQ : ∀ s, I s → Q s) {s : σ} {ops : List ι} (hs : I s) (hP : M.Along P s ops) : M.Always Q s ops := by
  induction ops generalizing s with
  | nil => exact hQ s hs
  | cons o ops ih => exact ⟨hQ s hs, fun t ht => ih (hstep s o t hs hP.1 ht) (hP.2 t ht)⟩

/-- **Exactness rule.** If `P` is what a step from a good state needs to reach a good state, then a run from a good state
visits good states only, exactly when it is a run along `P`. The invariant need not survive a step that misses `P`. -/
theorem always_iff_along {D : σ → ι → Prop} {Q : σ → Prop}
    (hinv : ∀ s o t, I s → D s o → P s o → M.step s o = some t → I t)
    (hiff : ∀ s o, I s → Q s → D s o → ((∀ t ∈ M.step s o, Q t) ↔ P s o)) {s : σ} {ops : List ι} (hs : I s) (hQ : Q s)
    (hD : M.Along D s ops) : M.Always Q s ops ↔ M.Along P s ops := by
  induction ops generalizing s with
  | nil => exact ⟨fun _ => trivial, fun _ => hQ⟩
  | cons o ops ih =>
    have hrest : P s o → ∀ t, M.step s o = some t → Q t → (M.Always Q t ops ↔ M.Along P t ops) :=
      fun hP t ht hq => ih (hinv s o t hs hD.1 hP ht) hq (hD.2 t ht)
    have hfirst : ∀ t, M.Always Q t ops → Q t := by
      intro t ht
      cases ops with
      | nil => exact ht
      | cons o' ops => exact ht.1
    constructor
    · intro h
      have hq : ∀ t ∈ M.step s o, Q t := fun t ht => hfirst t (h.2 t ht)
      have hP := (hiff s o hs hQ hD.1).1 hq
      exact ⟨hP, fun t ht => (hrest hP t ht (hq t ht)).1 (h.2 t ht)⟩
    · intro h
      have hq := (hiff s o hs hQ hD.1).2 h.1
      exact ⟨hQ, fun t ht => (hrest h.1 t ht (hq t ht)).2 (h.2 t ht)⟩

theorem run_concat {s t : σ} {ops : List ι} {o : ι} (h : M.run s (ops ++ [o]) = some t) :
    ∃ u, M.run s ops = some u ∧ M.step u o = some t := by
  rw [run_append] at h
  obtain ⟨u, hu, ht⟩ := Option.bind_eq_some_iff.1 h
  obtain ⟨v, hv, hr⟩ := M.run_cons_some ht
  cases hr
  exact ⟨u, hu, hv⟩

theorem visits_nil (s : σ) : {u | M.Visits s [] u} = {s} := by
  ext u
  constructor
  · rintro ⟨pre, post, h, hu⟩
    obtain ⟨rfl, -⟩ := List.append_eq_nil_iff.1 h.symm
    cases hu
    rfl
  · rintro rfl
    exact ⟨[], [], rfl, rfl⟩

theorem visits_concat {s t : σ} {ops : List ι} {o : ι} (h : M.run s (ops ++ [o]) = some t) :
    {u | M.Visits s (ops ++ [o]) u} = insert t {u | M.Visits s ops u} := by
  ext u
  constructor
  · rintro ⟨pre, post, heq, hu⟩
    rcases List.eq_nil_or_concat post with rfl | ⟨post', o', rfl⟩
    · left
      rw [List.append_nil] at heq
      rw [← heq, h] at hu
      exact (Option.some.inj hu).symm
    · right
      rw [List.concat_eq_append, ← List.append_assoc] at heq
      exact ⟨pre, post', (List.append_inj' heq rfl).1, hu⟩
  · rintro (rfl | ⟨pre, post, rfl, hu⟩)
    · exact ⟨ops ++ [o], [], (List.append_nil _).symm, h⟩
    · exact ⟨pre, post ++ [o], List.append_assoc _ _ _, hu⟩

/-- **History rule.** An invariant of a state and of the states visited so far, which every step carries to the next one. -/
theorem run_inv_visits {J : Set σ → σ → Prop} (hstep : ∀ V s o t, J V s → M.step s o = some t → J (insert t V) t)
    {s t : σ} {ops : List ι} (hs : J {s} s) (h : M.run s ops = some t) : J {u | M.Visits s ops u} t := by
  induction ops using List.reverseRecOn generalizing t with
  | nil =>
    cases h
    rw [visits_nil]
    exact hs
  | append_singleton ops o ih =>
    obtain ⟨u, hu, hst⟩ := run_concat h
    rw [visits_concat h]
    exact hstep _ u o t (ih hu) hst

/-- **First step.** What is not so at the start of a run and so at its end becomes so by one step. -/
theorem run_first {Q : σ → Prop} {s t : σ} {ops : List ι} (hs : ¬ Q s) (ht : Q t) (h : M.run s ops = some t) :
    ∃ pre o post u v, ops = pre ++ o :: post ∧ M.run s pre = some u ∧ M.step u o = some v ∧ M.run v post = some t ∧
      ¬ Q u ∧ Q v := by
  induction ops generalizing s with
  | nil =>
    cases h
    exact absurd ht hs
  | cons o ops ih =>
    obtain ⟨u, hu, hr⟩ := M.run_cons_some h
    by_cases hQ : Q u
    · exact ⟨[], o, ops, s, u, rfl, rfl, hu, hr, hs, hQ⟩
    · obtain ⟨pre, o', post, v, w, rfl, hv, hw, hpost, hnot, hyes⟩ := ih hQ hr
      exact ⟨o :: pre, o', post, v, w, rfl, by rw [run_cons, hu, Option.bind_some, hv], hw, hpost, hnot, hyes⟩

/-- **Same steps.** Where the steps of two machines agree, a run of one along `P` is a run of the other. -/
theorem run_congr {N : Machine σ ι} (hinv : ∀ s o t, I s → P s o → N.step s o = some t → I t)
    (hstep : ∀ s o, I s → P s o → M.step s o = N.step s o) {s : σ} {ops : List ι} (hs : I s) (hP : M.Along P s ops) :
    M.run s ops = N.run s ops ∧ N.Along P s ops := by
  induction ops generalizing s with
  | nil => exact ⟨rfl, trivial⟩
  | cons o ops ih =>
    have heq := hstep s o hs hP.1
    have hrest : ∀ t, N.step s o = some t → M.run t ops = N.run t ops ∧ N.Along P t ops :=
      fun t ht => ih (hinv s o t hs hP.1 ht) (hP.2 t (heq.trans ht))
    refine ⟨?_, hP.1, fun t ht => (hrest t ht).2⟩
    rw [run_cons, run_cons, heq]
    cases ht : N.step s o with
    | none => rfl
    | some t => exact (hrest t ht).1

/-! ## Refinement -/

/-- the runs of a step relation -/
inductive Steps {α : Type*} (T : α → ι → α → Prop) : α → List ι → α → Prop where
  | nil (a : α) : Steps T a [] a
  | cons {a b c : α} {o : ι} {ops : List ι} (head : T a o b) (tail : Steps T b ops c) : Steps T a (o :: ops) c

/-- **Simulation rule.** If every step from a related state that meets `P` is enabled, and the abstract relation takes a
step of its own that relates the states again, then a run along `P` is defined and the abstract relation has a run with it. -/
theorem run_simulation {α : Type*} {T : α → ι → α → Prop} {R : σ → α → Prop}
    (hstep : ∀ s a o, R s a → P s o → ∃ t b, M.step s o = some t ∧ T a o b ∧ R t b) {s : σ} {a : α} {ops : List ι}
    (hs : R s a) (hP : M.Along P s ops) : ∃ t b, M.run s ops = some t ∧ Steps T a ops b ∧ R t b := by
  induction ops generalizing s a with
  | nil => exact ⟨s, a, rfl, .nil a, hs⟩
  | cons o ops ih =>
    obtain ⟨u, b, hu, hab, hub⟩ := hstep s a o hs hP.1
    obtain ⟨t, c, ht, hbc, htc⟩ := ih hub (hP.2 u hu)
    exact ⟨t, c, by rw [run_cons, hu, Option.bind_some, ht], .cons hab hbc, htc⟩

/-- the rule for an abstract machine, which decides where a run may go -/
theorem run_simulates {α : Type*} {A : Machine α ι} {R : σ → α → Prop}
    (hstep : ∀ s a b o, R s a → A.step a o = some b → ∃ t, M.step s o = some t ∧ R t b) {s : σ} {a b : α} {ops : List ι}
    (hs : R s a) (h : A.run a ops = some b) : ∃ t, M.run s ops = some t ∧ R t b := by
  induction ops generalizing s a with
  | nil =>
    cases h
    exact ⟨s, rfl, hs⟩
  | cons o ops ih =>
    obtain ⟨c, hc, hr⟩ := A.run_cons_some h
    obtain ⟨u, hu, huc⟩ := hstep s a c o hs hc
    obtain ⟨t, ht, htb⟩ := ih huc hr
    exact ⟨t, by rw [run_cons, hu, Option.bind_some, ht], htb⟩

end Machine

end Core
