/-
Incremental replication of a verifier's keys: B pulls with `B.ImportKeys(A.ExportKeys(B.GetMaxKnownKeySequenceNumber()))`
while A keeps accepting keys.

A pull is three steps, with anything in between: B reads its maximum and asks (`request`), A answers with what it has
above that number (`serve`), B imports the answer (`deliver`). Requests and answers stay in flight, so they may overlap,
be answered or delivered late, repeatedly or never. A reply carries, as a ghost, the verifier A at the moment of the
export.

Results:
- `pull_complete`: if every number that is new to A is above everything A has exported so far, each pull that succeeds
  leaves B with every key that A knew at the export. Keys that reach A in increasing order meet the condition;
- `late_key_never_pulled`: a key that reaches A under a number below an exported one is missed by every later pull.
-/
import Bboy.Core.Machine
import Bboy.Security.TokenVerifier

namespace Bboy.Security.Replication

open Core TokenVerifier

variable {SK PK : Type} {C : Crypto SK PK}

/-! ## Model -/

structure Reply (C : Crypto SK PK) where
  after : ℤ
  keys : List TokenSigningPublicKeyPB
  /-- ghost: A at the moment of the export -/
  source : TokenVerifier C

structure St (C : Crypto SK PK) where
  a : TokenVerifier C
  b : TokenVerifier C
  requests : List ℤ
  replies : List (Reply C)
  /-- ghost: the largest number A has exported, -1 before the first -/
  exported : ℤ

inductive Op where
  | accept (keys : List TokenSigningPublicKeyPB)
  | request
  | serve (i : ℕ)
  | deliver (i : ℕ)

def exportTo (s : St C) (after : ℤ) : St C :=
  let keys := s.a.exportKeys after
  { s with
    replies := s.replies ++ [⟨after, keys, s.a⟩]
    exported := keys.foldl (fun top pb => max top pb.seqNum) s.exported }

/-- A starts with the keys of `a`, B with none -/
def replication (a : TokenVerifier C) : Machine (St C) Op where
  init := ⟨a, TokenVerifier.empty C, [], [], -1⟩
  step s
    | .accept keys => some { s with a := (s.a.importKeys keys).2 }
    | .request => some { s with requests := s.requests ++ [s.b.getMaxKnownKeySequenceNumber] }
    | .serve i => s.requests[i]?.map (exportTo s)
    | .deliver i => s.replies[i]?.map fun r => { s with b := (s.b.importKeys r.keys).2 }

/-- the number of every key that is new to A is above all that A has exported -/
def AboveExported (s : St C) : Op → Prop
  | .accept keys => ∀ pb ∈ keys, s.a.pbOf pb.seqNum = none → s.exported < pb.seqNum
  | _ => True

instance (s : St C) : ∀ o, Decidable (AboveExported s o)
  | .accept keys =>
    inferInstanceAs (Decidable (∀ pb ∈ keys, s.a.pbOf pb.seqNum = none → s.exported < pb.seqNum))
  | .request => isTrue trivial
  | .serve _ => isTrue trivial
  | .deliver _ => isTrue trivial

/-- the pull that ends with `r`: if its import succeeds, B knows all that A knew at the export -/
def PullComplete (s : St C) (r : Reply C) : Prop :=
  (s.b.importKeys r.keys).1 = .ok → ∀ n pb, r.source.pbOf n = some pb → (s.b.importKeys r.keys).2.pbOf n = some pb

/-! ## The invariant -/

/-- B knows every key of A with a number up to `m` -/
def Covered (a b : TokenVerifier C) (m : ℤ) : Prop := ∀ n ≤ m, ∀ pb, a.pbOf n = some pb → b.pbOf n = some pb

structure ReplyInv (s : St C) (r : Reply C) : Prop where
  keys : r.keys = r.source.exportKeys r.after
  low : r.after ≤ s.exported ∧ Covered s.a s.b r.after
  known : r.source.Extends s.a
  top : ∀ n pb, r.source.pbOf n = some pb → r.after < n → n ≤ s.exported
  /-- a key of A that the answer does not know has a number above all of the answer -/
  late : ∀ n pb, s.a.pbOf n = some pb →
    r.source.pbOf n = some pb ∨ ∀ k pb', r.source.pbOf k = some pb' → r.after < k → k < n

structure Inv (s : St C) : Prop where
  pos : ∀ n pb, s.a.pbOf n = some pb → 0 ≤ n
  start : -1 ≤ s.exported
  sub : ∀ n pb, s.b.pbOf n = some pb → s.a.pbOf n = some pb ∧ n ≤ s.exported
  max : Covered s.a s.b s.b.getMaxKnownKeySequenceNumber
  req : ∀ m ∈ s.requests, m ≤ s.exported ∧ Covered s.a s.b m
  rep : ∀ r ∈ s.replies, ReplyInv s r

theorem Inv.max_le {s : St C} (h : Inv s) : s.b.getMaxKnownKeySequenceNumber ≤ s.exported := by
  rcases getMax_cases s.b with ⟨hm, -⟩ | ⟨pb, hm⟩
  · rw [hm]
    exact h.start
  · exact (h.sub _ pb hm).2

theorem inv_init {a : TokenVerifier C} (ha : ∀ n pb, a.pbOf n = some pb → 0 ≤ n) : Inv (replication a).init where
  pos := ha
  start := le_rfl
  sub := fun n pb h => by
    rw [show (replication a).init.b = TokenVerifier.empty C from rfl, pbOf_empty] at h
    cases h
  max := fun n hn pb h => by
    have h1 := ha n pb h
    have h2 : n ≤ -1 := hn
    omega
  req := fun m hm => absurd hm List.not_mem_nil
  rep := fun r hr => absurd hr List.not_mem_nil

theorem accept_new {a : TokenVerifier C} {keys : List TokenSigningPublicKeyPB} {n : ℤ} {pb : TokenSigningPublicKeyPB}
    (h : (a.importKeys keys).2.pbOf n = some pb) :
    a.pbOf n = some pb ∨ (a.pbOf n = none ∧ ∃ pb ∈ keys, pb.seqNum = n) := by
  rcases importKeys_cases a keys with ⟨-, e, he⟩ | ⟨-, w, hw, hpb⟩
  · rw [he] at h
    exact Or.inl h
  · rw [hw, hpb] at h
    cases ha : a.pbOf n with
    | some pb' =>
      rw [ha] at h
      exact Or.inl h
    | none =>
      rw [ha, Option.none_or] at h
      exact Or.inr ⟨rfl, pb, firstListed_eq_some h⟩

theorem accept_inv {s : St C} {keys : List TokenSigningPublicKeyPB} (h : Inv s) (ho : AboveExported s (.accept keys)) :
    Inv { s with a := (s.a.importKeys keys).2 } := by
  have hext := importKeys_extends s.a keys
  -- a key of the new A is one of the old A, or its number is above everything exported
  have hnew : ∀ n pb, (s.a.importKeys keys).2.pbOf n = some pb → s.a.pbOf n = some pb ∨ s.exported < n := by
    intro n pb hn
    rcases accept_new hn with h1 | ⟨h1, pb', hm, rfl⟩
    · exact Or.inl h1
    · exact Or.inr (ho pb' hm h1)
  have hcov : ∀ m ≤ s.exported, Covered s.a s.b m → Covered (s.a.importKeys keys).2 s.b m := by
    intro m hm hc n hn pb hp
    rcases hnew n pb hp with h1 | h1
    · exact hc n hn pb h1
    · omega
  refine ⟨?_, h.start, ?_, hcov _ h.max_le h.max, ?_, ?_⟩
  · intro n pb hn
    rcases hnew n pb hn with h1 | h1
    · exact h.pos n pb h1
    · have := h.start
      omega
  · intro n pb hn
    exact ⟨hext n pb (h.sub n pb hn).1, (h.sub n pb hn).2⟩
  · intro m hm
    exact ⟨(h.req m hm).1, hcov m (h.req m hm).1 (h.req m hm).2⟩
  · intro r hr
    have hi := h.rep r hr
    refine ⟨hi.keys, ⟨hi.low.1, hcov _ hi.low.1 hi.low.2⟩, hi.known.trans hext, hi.top, ?_⟩
    intro n pb hn
    rcases hnew n pb hn with h1 | h1
    · exact hi.late n pb h1
    · right
      intro k pb' hk hlt
      have := hi.top k pb' hk hlt
      omega

theorem le_foldl_max (l : List TokenSigningPublicKeyPB) (t : ℤ) :
    t ≤ l.foldl (fun top pb => max top pb.seqNum) t ∧
      ∀ pb ∈ l, pb.seqNum ≤ l.foldl (fun top pb => max top pb.seqNum) t := by
  induction l generalizing t with
  | nil => simp
  | cons d l ih =>
    obtain ⟨h1, h2⟩ := ih (max t d.seqNum)
    refine ⟨(le_max_left _ _).trans h1, fun pb hpb => ?_⟩
    rcases List.mem_cons.1 hpb with rfl | hpb
    · exact (le_max_right _ _).trans h1
    · exact h2 pb hpb

theorem serve_inv {s : St C} {m : ℤ} (h : Inv s) (hm : m ≤ s.exported ∧ Covered s.a s.b m) : Inv (exportTo s m) := by
  obtain ⟨hle, hkeys⟩ := le_foldl_max (s.a.exportKeys m) s.exported
  refine ⟨h.pos, h.start.trans hle, ?_, h.max, ?_, ?_⟩
  · intro n pb hn
    exact ⟨(h.sub n pb hn).1, (h.sub n pb hn).2.trans hle⟩
  · intro k hk
    exact ⟨(h.req k hk).1.trans hle, (h.req k hk).2⟩
  · intro r hr
    rcases List.mem_append.1 hr with hr | hr
    · have hi := h.rep r hr
      exact ⟨hi.keys, ⟨hi.low.1.trans hle, hi.low.2⟩, hi.known, fun n pb hn hlt => (hi.top n pb hn hlt).trans hle, hi.late⟩
    · rw [List.mem_singleton] at hr
      subst hr
      refine ⟨rfl, ⟨hm.1.trans hle, hm.2⟩, Extends.refl _, ?_, fun n pb hn => Or.inl hn⟩
      intro n pb hn hlt
      have hs := pbOf_seqNum hn
      exact hs ▸ hkeys pb (mem_exportKeys.2 ⟨hs ▸ hlt, hs ▸ hn⟩)

/-- what B knows after a successful import of a reply -/
theorem deliver_pbOf {s : St C} {r : Reply C} (hr : ReplyInv s r) (hok : (s.b.importKeys r.keys).1 = .ok) (n : ℤ) :
    (s.b.importKeys r.keys).2.pbOf n = (s.b.pbOf n).or (if r.after < n then r.source.pbOf n else none) := by
  rw [importKeys_ok (Prod.ext hok rfl), hr.keys, firstListed_exportKeys]

theorem Inv.agree {s : St C} (h : Inv s) {n : ℤ} {pb : TokenSigningPublicKeyPB} (ha : s.a.pbOf n = some pb) :
    s.b.pbOf n = none ∨ s.b.pbOf n = some pb := by
  cases hb : s.b.pbOf n with
  | none => exact Or.inl rfl
  | some pb' => exact Or.inr ((h.sub n pb' hb).1.symm.trans ha)

/-- **One pull.** In an invariant state, B has all of the answer's source after importing the answer. -/
theorem pull_step {s : St C} {r : Reply C} (h : Inv s) (hr : r ∈ s.replies) : PullComplete s r := by
  intro hok n pb hn
  have hi := h.rep r hr
  have ha := hi.known n pb hn
  rw [deliver_pbOf hi hok]
  by_cases hlt : r.after < n
  · rw [if_pos hlt, hn]
    rcases h.agree ha with hb | hb <;> rw [hb] <;> rfl
  · rw [hi.low.2 n (not_lt.1 hlt) pb ha, Option.some_or]

theorem deliver_inv {s : St C} {r : Reply C} (h : Inv s) (hr : r ∈ s.replies) :
    Inv { s with b := (s.b.importKeys r.keys).2 } := by
  have hi := h.rep r hr
  rcases importKeys_cases s.b r.keys with ⟨-, e, he⟩ | ⟨-, w, hw, -⟩
  · rw [he]
    exact h
  have hok : (s.b.importKeys r.keys).1 = .ok := by rw [hw]
  have hext := importKeys_extends s.b r.keys
  have hcov : ∀ m, Covered s.a s.b m → Covered s.a (s.b.importKeys r.keys).2 m :=
    fun m hc n hn pb hp => hext n pb (hc n hn pb hp)
  have hmem : ∀ n pb, (s.b.importKeys r.keys).2.pbOf n = some pb →
      s.b.pbOf n = some pb ∨ (r.after < n ∧ r.source.pbOf n = some pb) := by
    intro n pb hn
    rw [deliver_pbOf hi hok, Option.or_eq_some_iff] at hn
    rcases hn with hn | ⟨-, hn⟩
    · exact Or.inl hn
    · split_ifs at hn with hlt
      exact Or.inr ⟨hlt, hn⟩
  refine ⟨h.pos, h.start, ?_, ?_, ?_, ?_⟩
  · intro n pb hn
    rcases hmem n pb hn with h1 | ⟨hlt, h1⟩
    · exact h.sub n pb h1
    · exact ⟨hi.known n pb h1, hi.top n pb h1 hlt⟩
  · -- the new maximum is the old one, or a number of the answer
    rcases getMax_cases (s.b.importKeys r.keys).2 with ⟨hm, -⟩ | ⟨pb, hm⟩
    · intro n hn pb hp
      have := h.pos n pb hp
      rw [hm] at hn
      omega
    · rcases hmem _ pb hm with h1 | ⟨hlt, h1⟩
      · intro n hn pb' hp
        exact hext n pb' (h.max n (hn.trans (le_getMax h1)) pb' hp)
      · intro n hn pb' hp
        rcases hi.late n pb' hp with h2 | h2
        · exact pull_step h hr hok n pb' h2
        · exact absurd (h2 _ pb h1 hlt) (not_lt.2 hn)
  · intro m hm
    exact ⟨(h.req m hm).1, hcov m (h.req m hm).2⟩
  · intro r' hr'
    have hi' := h.rep r' hr'
    exact ⟨hi'.keys, ⟨hi'.low.1, hcov _ hi'.low.2⟩, hi'.known, hi'.top, hi'.late⟩

theorem step_inv {a : TokenVerifier C} (s : St C) (o : Op) (t : St C) (h : Inv s) (ho : AboveExported s o)
    (hst : (replication a).step s o = some t) : Inv t := by
  cases o with
  | accept keys =>
    cases hst
    exact accept_inv h ho
  | request =>
    cases hst
    refine ⟨h.pos, h.start, h.sub, h.max, ?_, ?_⟩
    · intro m hm
      rcases List.mem_append.1 hm with hm | hm
      · exact h.req m hm
      · rw [List.mem_singleton] at hm
        subst hm
        exact ⟨h.max_le, h.max⟩
    · intro r hr
      have hi := h.rep r hr
      exact ⟨hi.keys, hi.low, hi.known, hi.top, hi.late⟩
  | serve i =>
    obtain ⟨m, hm, rfl⟩ := Option.map_eq_some_iff.1 hst
    exact serve_inv h (h.req m (List.mem_of_getElem? hm))
  | deliver i =>
    obtain ⟨r, hr, rfl⟩ := Option.map_eq_some_iff.1 hst
    exact deliver_inv h (List.mem_of_getElem? hr)

/-! ## Main result -/

/-- **Replication is complete when numbers arrive above what was exported.** A starts with any keys under numbers from 0
on. In every run in which each number that is new to A is above all that A has exported, every pull whose import succeeds
leaves B with every key A knew at the export. -/
theorem pull_complete (a : TokenVerifier C) (ha : ∀ n pb, a.pbOf n = some pb → 0 ≤ n) (ops : List Op) (s : St C)
    (hops : (replication a).Along AboveExported (replication a).init ops)
    (hrun : (replication a).run (replication a).init ops = some s) : ∀ r ∈ s.replies, PullComplete s r := by
  intro r hr
  have h : Inv s := Machine.run_inv_along step_inv (inv_init ha) hops hrun
  exact pull_step h hr

/-! ## Witnesses -/

def key (n : ℤ) : TokenSigningPublicKeyPB := ⟨some n, some [7], some 100⟩

/-- A accepts numbers 0 and 1, B pulls, A accepts number 2, B pulls -/
def inOrder : List Op := [.accept [key 0, key 1], .request, .serve 0, .deliver 0, .accept [key 2], .request, .serve 1]

theorem pull_complete_in_order :
    ∃ s, (replication (TokenVerifier.empty byteCrypto)).run (replication (TokenVerifier.empty byteCrypto)).init inOrder =
      some s ∧ ∀ r ∈ s.replies, PullComplete s r := by
  refine ⟨_, rfl, pull_complete (TokenVerifier.empty byteCrypto) ?_ inOrder _ (by decide) rfl⟩
  intro n pb h
  cases h

/-- **A late key is never pulled.** A accepts number 5 and B pulls it; A accepts number 3 and B pulls again. The import
succeeds, and B does not know number 3. -/
theorem late_key_never_pulled :
    ∃ s r, (replication (TokenVerifier.empty byteCrypto)).run (replication (TokenVerifier.empty byteCrypto)).init
        [.accept [key 5], .request, .serve 0, .deliver 0, .accept [key 3], .request, .serve 1] = some s ∧
      s.replies[1]? = some r ∧ ¬ PullComplete s r := by
  refine ⟨_, _, rfl, rfl, fun h => ?_⟩
  have h3 := h (by decide) 3 (key 3) (by decide)
  exact absurd h3 (by decide)

end Bboy.Security.Replication
