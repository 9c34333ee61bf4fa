/-
The propagation interval: how long a key other than the first one is in the queue before it signs. The signer never
looks at the age of the next key. It is generated when the front key is R seconds old and promoted when the front key is
2R seconds old, so it has R seconds only if it was generated on time.

Result, for the runs of `Maintenance` without imports and with a clock that does not go back, whose numbers do not
overflow (`belowLimit_of_length`):
- `full_propagation_iff`: no key is in front before it is R seconds old, exactly when no TryRotateKey runs while the
  front key is 2R seconds old and the next key is not yet R seconds old (`Punctual`).
Witness: `key_promoted_early` (R = 2, maintenance at every second from 0 to 6: the key generated at 5 signs from 6 on).
-/
import Bboy.Security.TokenLifetime

namespace Bboy.Security.Maintenance

open Core

variable {SK PK : Type} {C : Crypto SK PK} {params : TokenSignerParams} {known : TokenVerifier C} {t0 : ℤ}

/-! ## Model -/

/-- the key in front is the very first one, or a rotation interval has passed since its creation -/
def FullPropagation (s : St C) : Prop :=
  ∀ key ∈ s.signer.tskDeque.head?, s.first = some key.keySeqNum ∨
    s.signer.params.keyCreationTime key + s.signer.params.keyRotationSeconds ≤ s.clock

instance : DecidablePred (FullPropagation (C := C)) := fun s =>
  inferInstanceAs (Decidable (∀ key ∈ s.signer.tskDeque.head?, s.first = some key.keySeqNum ∨
    s.signer.params.keyCreationTime key + s.signer.params.keyRotationSeconds ≤ s.clock))

/-- an operation of the documented cycle, at a time that is not before the last one -/
def Documented (s : St C) : Op SK → Prop
  | .importKeys _ _ => False
  | o => s.clock ≤ o.now

instance (s : St C) : ∀ o, Decidable (Documented s o)
  | .importKeys _ _ => isFalse id
  | .checkNeedKey now _ => inferInstanceAs (Decidable (s.clock ≤ now))
  | .addKey now => inferInstanceAs (Decidable (s.clock ≤ now))
  | .tryRotateKey now => inferInstanceAs (Decidable (s.clock ≤ now))

/-- TryRotateKey does not run while the front key is due to leave and the next one is too young to take over -/
def PunctualAt (params : TokenSignerParams) (now : ℤ) : List (TokenSigningPrivateKey C) → Prop
  | key :: next :: _ =>
    now < params.keyCreationTime key + 2 * params.keyRotationSeconds ∨
      params.keyCreationTime next + params.keyRotationSeconds ≤ now
  | _ => True

def Punctual (s : St C) : Op SK → Prop
  | .tryRotateKey now => PunctualAt s.signer.params now s.signer.tskDeque
  | _ => True

instance (params : TokenSignerParams) (now : ℤ) :
    ∀ q : List (TokenSigningPrivateKey C), Decidable (PunctualAt params now q)
  | key :: next :: _ => inferInstanceAs (Decidable (now < params.keyCreationTime key + 2 * params.keyRotationSeconds ∨
      params.keyCreationTime next + params.keyRotationSeconds ≤ now))
  | [_] => isTrue trivial
  | [] => isTrue trivial

instance (s : St C) : ∀ o, Decidable (Punctual s o)
  | .tryRotateKey now => inferInstanceAs (Decidable (PunctualAt s.signer.params now s.signer.tskDeque))
  | .checkNeedKey _ _ => isTrue trivial
  | .addKey _ => isTrue trivial
  | .importKeys _ _ => isTrue trivial

/-! ## The invariant -/

/-- no key of the queue is older than the first one -/
structure FirstInv (s : St C) : Prop where
  queue : QueueInv s
  first : ∀ n ∈ s.first, ∀ x ∈ s.signer.tskDeque, n ≤ x.keySeqNum

theorem step_firstInv (s : St C) (o : Op SK) (t : St C) (h : FirstInv s) (ho : Documented s o)
    (hst : (maintenance params known t0).step s o = some t) : FirstInv t := by
  refine ⟨step_queueInv s o t h.queue hst, ?_⟩
  cases o with
  | checkNeedKey now gen =>
    obtain ⟨-, ⟨-, rfl⟩ | ⟨-, rfl⟩ | ⟨-, key, rfl⟩⟩ := step_checkNeedKey hst <;> exact h.first
  | addKey now =>
    obtain ⟨key, hp, ⟨next, -, rfl⟩ | ⟨-, v, -, rfl⟩⟩ := step_addKey hst
    · exact h.first
    · have hnew := h.queue.newest key hp
      have hfirst := h.first
      intro n hn x hx
      cases hd : s.signer.tskDeque with
      | nil =>
        simp only [hd, List.nil_append, List.mem_singleton] at hx
        simp only [hd, List.isEmpty_nil, if_true, Option.mem_some_iff] at hn
        rw [hx, hn]
      | cons front rest =>
        simp only [hd] at hn hx hnew hfirst
        have hf := hfirst n hn front List.mem_cons_self
        rcases List.mem_append.1 hx with hx | hx
        · exact hfirst n hn x hx
        · rw [List.mem_singleton.1 hx]
          exact hf.trans (hnew front List.mem_cons_self).le
  | tryRotateKey now =>
    rcases step_tryRotateKey hst with ⟨rfl, -⟩ | ⟨key, next, rest, hd, -, rfl⟩
    · exact h.first
    · intro n hn x hx
      refine h.first n hn x ?_
      rw [hd]
      exact List.mem_cons_of_mem key hx
  | importKeys now keys => exact absurd ho id

theorem firstInv_init : FirstInv (maintenance params known t0).init where
  queue := queueInv_init
  first := fun _ hn => by cases hn

/-! ## One step -/

/-- time alone does not end a full propagation -/
theorem FullPropagation.with_clock {s t : St C} (h : FullPropagation s) (hd : t.signer.tskDeque = s.signer.tskDeque)
    (hp : t.signer.params = s.signer.params) (hf : t.first = s.first) (hc : s.clock ≤ t.clock) : FullPropagation t := by
  intro key hk
  rw [hd] at hk
  rw [hp, hf]
  exact (h key hk).imp id fun hage => hage.trans hc

/-- a step keeps the full propagation exactly when it is punctual -/
theorem step_propagation (s : St C) (o : Op SK) (h : FirstInv s) (hs : FullPropagation s) (ho : Documented s o) :
    (∀ t ∈ (maintenance params known t0).step s o, FullPropagation t) ↔ Punctual s o := by
  cases o with
  | checkNeedKey now gen =>
    refine iff_of_true (fun t hst => ?_) trivial
    obtain ⟨-, ⟨-, rfl⟩ | ⟨-, rfl⟩ | ⟨-, key, rfl⟩⟩ := step_checkNeedKey hst <;> exact hs.with_clock rfl rfl rfl ho
  | addKey now =>
    refine iff_of_true (fun t hst => ?_) trivial
    obtain ⟨key, -, ⟨next, -, rfl⟩ | ⟨-, v, -, rfl⟩⟩ := step_addKey hst
    · exact hs.with_clock rfl rfl rfl ho
    · intro front hf
      cases hd : s.signer.tskDeque with
      | nil =>
        -- the first key of all
        simp only [hd, List.nil_append, List.head?_cons, Option.mem_some_iff] at hf
        exact Or.inl (by simp [hf])
      | cons front' rest =>
        simp only [hd, List.cons_append, List.head?_cons, Option.mem_some_iff] at hf
        exact (hs front (by simp [hd, hf])).imp id fun hage => hage.trans ho
  | tryRotateKey now =>
    have hstep : (maintenance params known t0).step s (.tryRotateKey now) =
        some { s with signer := (s.signer.tryRotateKey now).2, clock := now } := rfl
    rw [hstep]
    simp only [Option.mem_some_iff, forall_eq', Punctual]
    rcases s.signer.tryRotateKey_cases now with ⟨hr, hyoung⟩ | ⟨key, next, rest, hd, hage, hr⟩
    · rw [hr]
      refine iff_of_true (hs.with_clock rfl rfl rfl ho) ?_
      match hd : s.signer.tskDeque with
      | [] => exact trivial
      | [_] => exact trivial
      | key :: next :: rest => exact Or.inl (hyoung key next rest hd)
    · -- the next key has a larger number than the first one, so only its age counts
      have hsorted := h.queue.sorted
      rw [hd] at hsorted
      have hlt := (List.pairwise_cons.1 hsorted).1 next List.mem_cons_self
      have hne : s.first ≠ some next.keySeqNum := by
        intro hfirst
        have hle := h.first _ hfirst key (by rw [hd]; exact List.mem_cons_self)
        omega
      rw [hr, hd]
      constructor
      · intro ht
        exact Or.inr ((ht next rfl).resolve_left hne)
      · intro hp front hf
        obtain rfl : next = front := Option.some.inj hf
        exact Or.inr (hp.resolve_left (not_lt.2 hage))
  | importKeys now keys => exact absurd ho id

/-! ## Main result -/

/-- **When a key propagates for a full interval.** In every run of the documented operations with a clock that does not
go back, no key but the very first is in front of the queue before it is a rotation interval old, exactly when every
TryRotateKey is punctual. -/
theorem full_propagation_iff (params : TokenSignerParams) (known : TokenVerifier C) (t0 : ℤ) (ops : List (Op SK))
    (hops : (maintenance params known t0).Along Documented (maintenance params known t0).init ops) :
    (maintenance params known t0).Always FullPropagation (maintenance params known t0).init ops ↔
      (maintenance params known t0).Along Punctual (maintenance params known t0).init ops := by
  have hinit : FullPropagation (maintenance params known t0).init := by
    intro key hk
    cases hk
  exact Machine.always_iff_along (fun s o t h hd _ hs => step_firstInv s o t h hd hs) step_propagation firstInv_init
    hinit hops

/-! ## Witnesses -/

/-- maintenance at seconds 0 to 4: key 1, generated at 2, takes over at 4 -/
def toSecondFour : List (Op UInt8) := [0, 1, 2, 3, 4].flatMap (everySecond [0, 2])

theorem full_propagation_toSecondFour :
    let m := maintenance shortParams (TokenVerifier.empty byteCrypto) 0
    m.Always FullPropagation m.init toSecondFour :=
  (full_propagation_iff shortParams (TokenVerifier.empty byteCrypto) 0 toSecondFour (by decide)).2 (by decide)

/-- maintenance at seconds 0 to 6; keys are needed at 0, 2 and 5 -/
def toSecondSix : List (Op UInt8) := [0, 1, 2, 3, 4, 5, 6].flatMap (everySecond [0, 2, 5])

/-- **A key is promoted early.** With R = 2 and maintenance at every second, key 1 is generated at 2 and is alone in the
queue after second 4, key 2 is generated at 5, and at 6 it takes over, one second early. -/
theorem key_promoted_early :
    let m := maintenance shortParams (TokenVerifier.empty byteCrypto) 0
    m.Along Documented m.init toSecondSix ∧
      (∃ s, m.run m.init toSecondSix = some s ∧ s.clock = 6 ∧ s.first = some 0 ∧
        s.signer.tskDeque.map (fun key => (key.keySeqNum, s.signer.params.keyCreationTime key)) = [(2, 5)]) ∧
      ¬ m.Always FullPropagation m.init toSecondSix := by
  refine ⟨by decide, ⟨_, rfl, by decide, by decide, by decide⟩, by decide⟩

end Bboy.Security.Maintenance
