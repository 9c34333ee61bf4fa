/-
A remote verifier B that pulls the signer's public keys while the signer runs its maintenance cycle: CheckNeedKey,
AddKey of the key it produced, TryRotateKey, at one instant (`maintain`, the usage pattern of `token_signer.h`). A cycle
whose key generation fails stops there and does not count as one. Cycles are at most p seconds apart and pulls at most
R - 2p - 1, from the start on; a pull is B.ImportKeys(signer.verifier().ExportKeys(B.GetMaxKnownKeySequenceNumber())).
A cycle uses up one number at most, and the numbers do not overflow.

Why it works: the age tests of CheckNeedKey and TryRotateKey are each late by up to a cycle, so a key is in the queue for
at least R - 2p seconds before it signs (`Schedule`), and a pull falls into that time. B knows exactly what the signer's
verifier knew at the last pull (`Inv.remote`).

Results:
- `maintain_reaches`: a cycle is a run of `Maintenance`, so its invariants hold here;
- `step_inv`: the invariant, one lemma for each way a cycle can change the queue;
- `remote_knows_signing_key`: B never answers that it does not know the key of a token, the very first key apart.
-/
import Bboy.Security.SignerMaintenance

namespace Bboy.Security.Remote

open Core Maintenance

variable {SK PK : Type} {C : Crypto SK PK}

/-! ## Model -/

/-- one maintenance cycle at `now` -/
def maintain (s : TokenSigner C) (now : ℤ) (gen : Except BadStatus SK) : Status × TokenSigner C :=
  match s.checkNeedKey (· + 1) now gen with
  | (.error e, s) => (.bad e, s)
  | (.ok none, s) => (.ok, (s.tryRotateKey now).2)
  | (.ok (some key), s) =>
    match s.addKey (· + 1) now key with
    | (.bad e, s) => (.bad e, s)
    | (.ok, s) => (.ok, (s.tryRotateKey now).2)

structure St (C : Crypto SK PK) where
  signer : TokenSigner C
  b : TokenVerifier C
  clock : ℤ
  /-- the last cycle that ran through -/
  lastCycle : Option ℤ
  /-- the last pull, the start before the first -/
  lastPull : ℤ
  /-- ghost: the number of the very first key in the queue -/
  first : Option ℤ
  /-- ghost: the signer's next number at the last pull -/
  pulled : ℤ

inductive Op (SK : Type) where
  | cycle (now : ℤ) (gen : Except BadStatus SK)
  | pull (now : ℤ)

def runCycle (s : St C) (now : ℤ) (gen : Except BadStatus SK) : St C :=
  let r := maintain s.signer now gen
  { s with
    signer := r.2
    clock := now
    lastCycle := if r.1 = .ok then some now else s.lastCycle
    first := s.first.or (r.2.tskDeque.head?.map fun key => key.keySeqNum) }

def runPull (s : St C) (now : ℤ) : St C :=
  { s with
    b := (s.b.importKeys (s.signer.verifier.exportKeys s.b.getMaxKnownKeySequenceNumber)).2
    clock := now
    lastPull := now
    pulled := s.signer.nextKeySeqNum }

/-- a new signer with a verifier of its own, and B without keys, from time `t0` on -/
def remote (C : Crypto SK PK) (params : TokenSignerParams) (t0 : ℤ) : Machine (St C) (Op SK) where
  init := ⟨TokenSigner.new params (TokenVerifier.empty C), TokenVerifier.empty C, t0, none, t0, none, 0⟩
  step s
    | .cycle now gen => some (runCycle s now gen)
    | .pull now => some (runPull s now)

/-- the clock does not go back, the last pull is at most R - 2p - 1 seconds ago, and for a cycle the last one at most p -/
def Timely (params : TokenSignerParams) (p : ℕ) (s : St C) : Op SK → Prop
  | .cycle now _ =>
    s.clock ≤ now ∧ now ≤ s.lastPull + (params.keyRotationSeconds - 2 * p - 1) ∧ ∀ T ∈ s.lastCycle, now ≤ T + p
  | .pull now => s.clock ≤ now ∧ now ≤ s.lastPull + (params.keyRotationSeconds - 2 * p - 1)

instance (params : TokenSignerParams) (p : ℕ) (s : St C) : ∀ o, Decidable (Timely params p s o)
  | .cycle now _ => inferInstanceAs (Decidable (s.clock ≤ now ∧
      now ≤ s.lastPull + (params.keyRotationSeconds - 2 * p - 1) ∧ ∀ T ∈ s.lastCycle, now ≤ T + p))
  | .pull now => inferInstanceAs (Decidable (s.clock ≤ now ∧
      now ≤ s.lastPull + (params.keyRotationSeconds - 2 * p - 1)))

/-! ## A cycle -/

/-- the signer after AddKey of `key` -/
def added (s : TokenSigner C) (key : TokenSigningPrivateKey C) (v : TokenVerifier C) : TokenSigner C :=
  { s with nextKeySeqNum := s.nextKeySeqNum + 1, verifier := v, tskDeque := s.tskDeque ++ [key] }

/-- all that a cycle can do: stop at a key that could not be generated, or add a key if one is needed and rotate -/
theorem maintain_cases (hC : C.Sound) (s : TokenSigner C) (now : ℤ) (gen : Except BadStatus SK)
    (hnext : 0 ≤ s.nextKeySeqNum) (hlife : 0 < s.params.keyValiditySeconds) :
    (∃ e, maintain s now gen = (.bad e, s.reserved (· + 1))) ∨
      (¬ s.NeedsKey now ∧ maintain s now gen = (.ok, (s.tryRotateKey now).2)) ∨
      (s.NeedsKey now ∧ ∃ key v, key.keySeqNum = s.nextKeySeqNum ∧ key.expireTime = now + s.params.keyValiditySeconds ∧
        s.verifier.importKeys [key.exportPublicKeyPB] = (.ok, v) ∧
        maintain s now gen = (.ok, ((added s key v).tryRotateKey now).2)) := by
  unfold maintain
  rcases s.checkNeedKey_cases (· + 1) now gen with ⟨hn, hc⟩ | ⟨hn, e, e', -, hc⟩ | ⟨hn, sk, -, hc⟩
  · rw [hc]
    exact Or.inr (Or.inl ⟨hn, rfl⟩)
  · rw [hc]
    exact Or.inl ⟨e, rfl⟩
  · rw [hc]
    right
    right
    refine ⟨hn, .ofKey C s.nextKeySeqNum (now + s.params.keyValiditySeconds) sk, ?_⟩
    rcases (s.reserved (· + 1)).addKey_cases (· + 1) now
      (.ofKey C s.nextKeySeqNum (now + s.params.keyValiditySeconds) sk) with
      ⟨e, -, hbad⟩ | ⟨e, -, -, -, hbad⟩ | ⟨-, -, v, hv, ha⟩
    · simp only [TokenSigningPrivateKey.ofKey_keySeqNum, TokenSigningPrivateKey.ofKey_expireTime] at hbad
      omega
    · exact absurd (TokenVerifier.valid_exportPublicKeyPB hC _) hbad
    · refine ⟨v, rfl, rfl, hv, ?_⟩
      have hmax : max (s.nextKeySeqNum + 1) (s.nextKeySeqNum + 1) = s.nextKeySeqNum + 1 := max_self _
      simp only [ha]
      simp only [TokenSigner.reserved, TokenSigningPrivateKey.ofKey_keySeqNum, hmax]
      rfl

/-- without imports, and with nothing known at the start, a number denotes one key -/
theorem oneKey_addKey (s : Maintenance.St C) (now : ℤ) : OneKeyPerNumber (TokenVerifier.empty C) s (.addKey now) := by
  intro key _ pb hpb
  cases hpb

/-- a cycle is a run of `Maintenance` -/
theorem maintain_reaches (params : TokenSignerParams) (t0 : ℤ) (s : TokenSigner C) (now : ℤ) (gen : Except BadStatus SK)
    (clock : ℤ) (first : Option ℤ) :
    let m := maintenance params (TokenVerifier.empty C) t0
    ∃ ops clock' first', m.Along (OneKeyPerNumber (TokenVerifier.empty C)) ⟨s, none, clock, first⟩ ops ∧
      m.run ⟨s, none, clock, first⟩ ops = some ⟨(maintain s now gen).2, none, clock', first'⟩ := by
  intro m
  rcases s.checkNeedKey_cases (· + 1) now gen with ⟨-, hc⟩ | ⟨-, e, e', -, hc⟩ | ⟨-, sk, -, hc⟩
  · refine ⟨[.tryRotateKey now], now, first, ⟨trivial, fun _ _ => trivial⟩, ?_⟩
    simp [m, maintenanceWith, Machine.run, maintain, hc]
  · refine ⟨[.checkNeedKey now gen], now, first, ⟨trivial, fun _ _ => trivial⟩, ?_⟩
    simp [m, maintenanceWith, Machine.run, maintain, Maintenance.checkNeedKey, hc]
  · cases ha : (s.reserved (· + 1)).addKey (· + 1) now
      (.ofKey C s.nextKeySeqNum (now + s.params.keyValiditySeconds) sk) with
    | mk status t =>
      cases status with
      | bad e =>
        refine ⟨[.checkNeedKey now gen, .addKey now], now, first,
          ⟨trivial, fun _ _ => ⟨oneKey_addKey _ _, fun _ _ => trivial⟩⟩, ?_⟩
        simp [m, maintenanceWith, Machine.run, maintain, Maintenance.checkNeedKey, Maintenance.addKey, hc, ha]
      | ok =>
        refine ⟨[.checkNeedKey now gen, .addKey now, .tryRotateKey now], now,
          if (s.reserved (· + 1)).tskDeque.isEmpty then some s.nextKeySeqNum else first,
          ⟨trivial, fun _ _ => ⟨oneKey_addKey _ _, fun _ _ => ⟨trivial, fun _ _ => trivial⟩⟩⟩, ?_⟩
        simp [m, maintenanceWith, Machine.run, maintain, Maintenance.checkNeedKey, Maintenance.addKey, hc, ha]

/-- what `Maintenance` proves of the queue and the verifier survives a cycle -/
theorem maintain_inv {s : TokenSigner C} {clock : ℤ} {first : Option ℤ} (now : ℤ) (gen : Except BadStatus SK)
    (hq : QueueInv (C := C) ⟨s, none, clock, first⟩)
    (hk : KnownInv (C := C) (TokenVerifier.empty C) ⟨s, none, clock, first⟩) (clock' : ℤ) (first' : Option ℤ) :
    QueueInv (C := C) ⟨(maintain s now gen).2, none, clock', first'⟩ ∧
      KnownInv (C := C) (TokenVerifier.empty C) ⟨(maintain s now gen).2, none, clock', first'⟩ := by
  obtain ⟨ops, c, f, hops, hr⟩ := maintain_reaches s.params 0 s now gen clock first
  have hq' := Machine.run_inv step_queueInv hq hr
  have hk' := Machine.run_inv_along step_knownInv hk hops hr
  exact ⟨⟨hq'.sorted, hq'.size, hq'.next, hq'.below, hq'.room, hq'.newest⟩, ⟨hk'.deque, hk'.seen, hk'.pending⟩⟩

/-! ## The invariant -/

/-- the queue after a cycle at `T`, by its length -/
def Schedule (params : TokenSignerParams) (p : ℕ) (lastCycle : Option ℤ) : List (TokenSigningPrivateKey C) → Prop
  | [] => True
  | [key] => ∃ T, lastCycle = some T ∧ T < params.keyCreationTime key + params.keyRotationSeconds + p
  | [key, next] => ∃ T, lastCycle = some T ∧ T < params.keyCreationTime key + 2 * params.keyRotationSeconds ∧
      params.keyCreationTime key + params.keyRotationSeconds ≤ params.keyCreationTime next ∧
      params.keyCreationTime next < params.keyCreationTime key + params.keyRotationSeconds + 2 * p
  | _ => False

structure Inv (params : TokenSignerParams) (p : ℕ) (s : St C) : Prop where
  built : s.signer.params = params
  queue : QueueInv (C := C) ⟨s.signer, none, s.clock, s.first⟩
  known : KnownInv (C := C) (TokenVerifier.empty C) ⟨s.signer, none, s.clock, s.first⟩
  valid : ∀ n pb, s.signer.verifier.pbOf n = some pb → TokenVerifier.Valid C pb
  pulls : 0 ≤ s.pulled ∧ s.pulled ≤ s.signer.nextKeySeqNum ∧ s.lastPull ≤ s.clock
  /-- B knows what the signer's verifier knew at the last pull -/
  remote : ∀ n, s.b.pbOf n = if n < s.pulled then s.signer.verifier.pbOf n else none
  /-- a key that was not pulled yet was created after the last pull -/
  recent : ∀ x ∈ s.signer.tskDeque, s.pulled ≤ x.keySeqNum → s.lastPull ≤ params.keyCreationTime x
  schedule : Schedule params p s.lastCycle s.signer.tskDeque
  first : s.signer.tskDeque = [] ↔ s.first = none
  /-- the key in front is the very first one or was pulled -/
  front : ∀ key ∈ s.signer.tskDeque.head?, s.first = some key.keySeqNum ∨ key.keySeqNum < s.pulled

variable {params : TokenSignerParams} {p : ℕ} {t0 : ℤ}

theorem inv_init : Inv params p (remote C params t0).init where
  built := rfl
  queue := ⟨List.Pairwise.nil, Nat.zero_le _, le_rfl, fun _ hx => absurd hx List.not_mem_nil,
    fun _ hk => absurd hk (by simp), fun _ hk => absurd hk (by simp)⟩
  known := ⟨fun _ hx => absurd hx List.not_mem_nil, fun _ _ hn => Or.inr hn, fun _ hk => absurd hk (by simp)⟩
  valid := fun n pb hn => by cases hn
  pulls := ⟨le_rfl, le_rfl, le_rfl⟩
  remote := fun n => (ite_self none).symm
  recent := fun _ hx => absurd hx List.not_mem_nil
  schedule := trivial
  first := iff_of_true rfl rfl
  front := fun _ hk => by cases hk

/-- the first number does not change once it is set -/
theorem Inv.first_or {s : St C} (h : Inv params p s) (hne : s.signer.tskDeque ≠ []) (n : Option ℤ) :
    s.first.or n = s.first := by
  cases hf : s.first with
  | none => exact absurd (h.first.2 hf) hne
  | some k => rfl

/-! ## The queue through a cycle -/

section

variable {s : St C} {now : ℤ} {gen : Except BadStatus SK}

/-- a cycle that finds nothing to do -/
theorem schedule_idle (h : Inv params p s) (hn : ¬ s.signer.NeedsKey now)
    (hyoung : ∀ key next rest, s.signer.tskDeque = key :: next :: rest →
      now < s.signer.params.keyCreationTime key + 2 * s.signer.params.keyRotationSeconds) :
    Schedule params p (some now) s.signer.tskDeque := by
  have hs := h.schedule
  rw [h.built] at hyoung
  unfold TokenSigner.NeedsKey at hn
  rw [h.built, not_or] at hn
  match hd : s.signer.tskDeque with
  | [] => exact trivial
  | [key] =>
    have hage : ¬ params.keyCreationTime key + params.keyRotationSeconds ≤ now := fun hle => hn.2 ⟨key, hd, hle⟩
    exact ⟨now, rfl, by omega⟩
  | [key, next] =>
    rw [hd] at hs
    obtain ⟨T, -, -, h2, h3⟩ := hs
    exact ⟨now, rfl, hyoung key next [] hd, h2, h3⟩
  | key :: next :: k :: rest =>
    rw [hd] at hs
    exact hs

/-- a cycle that rotates: the next key has been pulled -/
theorem schedule_rotate (h : Inv params p s) (ho : Timely params p s (.cycle now gen))
    {key next : TokenSigningPrivateKey C} {rest : List (TokenSigningPrivateKey C)}
    (hd : s.signer.tskDeque = key :: next :: rest)
    (hage : params.keyCreationTime key + 2 * params.keyRotationSeconds ≤ now) :
    Schedule params p (some now) (next :: rest) ∧ next.keySeqNum < s.pulled := by
  obtain ⟨-, hpull, hgap⟩ := ho
  have hs := h.schedule
  have hrecent := h.recent next (by rw [hd]; exact List.mem_cons_of_mem _ List.mem_cons_self)
  rw [hd] at hs
  match rest with
  | [] =>
    obtain ⟨T, hT, h1, h2, h3⟩ := hs
    have hlate := hgap T hT
    refine ⟨⟨now, rfl, by omega⟩, ?_⟩
    -- otherwise the last pull is too old
    by_contra hlt
    have hold := hrecent (not_lt.1 hlt)
    have hself : now < now := by
      calc now ≤ s.lastPull + (params.keyRotationSeconds - 2 * p - 1) := hpull
        _ ≤ params.keyCreationTime next + (params.keyRotationSeconds - 2 * p - 1) := by omega
        _ < params.keyCreationTime key + 2 * params.keyRotationSeconds := by omega
        _ ≤ now := hage
    exact lt_irrefl now hself
  | k :: rest => exact absurd hs id

/-- a cycle that adds a key -/
theorem schedule_add (hp : 2 * (p : ℤ) + 1 < params.keyRotationSeconds) (h : Inv params p s)
    (ho : Timely params p s (.cycle now gen)) (hn : s.signer.NeedsKey now) {key : TokenSigningPrivateKey C}
    (hkey : params.keyCreationTime key = now) :
    Schedule params p (some now) (s.signer.tskDeque ++ [key]) ∧
      ∀ k next rest, s.signer.tskDeque ++ [key] = k :: next :: rest →
        now < params.keyCreationTime k + 2 * params.keyRotationSeconds := by
  obtain ⟨-, -, hgap⟩ := ho
  have hs := h.schedule
  unfold TokenSigner.NeedsKey at hn
  rw [h.built] at hn
  rcases hn with hd | ⟨front, hd, hage⟩
  · rw [hd]
    refine ⟨⟨now, rfl, by omega⟩, fun k next rest heq => ?_⟩
    cases heq
  · rw [hd] at hs ⊢
    obtain ⟨T, hT, h1⟩ := hs
    have hlate := hgap T hT
    have hyoung : now < params.keyCreationTime front + 2 * params.keyRotationSeconds := by omega
    refine ⟨⟨now, rfl, hyoung, by omega, by omega⟩, fun k next rest heq => ?_⟩
    cases heq
    exact hyoung

end

/-! ## Steps keep the invariant -/

theorem Inv.first_same {s : St C} (h : Inv params p s) :
    s.first.or (s.signer.tskDeque.head?.map fun key => key.keySeqNum) = s.first := by
  cases hd : s.signer.tskDeque with
  | nil => exact Option.or_none
  | cons key rest => exact h.first_or (by simp [hd]) _

/-- the new key is not among those that were pulled -/
theorem added_remote {s : St C} (h : Inv params p s) {key : TokenSigningPrivateKey C}
    (hnum : key.keySeqNum = s.signer.nextKeySeqNum) {v : TokenVerifier C}
    (hv : s.signer.verifier.importKeys [key.exportPublicKeyPB] = (.ok, v)) (n : ℤ) :
    s.b.pbOf n = if n < s.pulled then v.pbOf n else none := by
  rw [h.remote]
  split_ifs with hn
  · have hne : TokenVerifier.firstListed [key.exportPublicKeyPB] n = none := by
      apply TokenVerifier.firstListed_eq_none.2
      intro pb hpb
      have hle := h.pulls.2.1
      rw [List.mem_singleton.1 hpb, TokenSigningPrivateKey.exportPublicKeyPB_seqNum, hnum]
      omega
    rw [TokenVerifier.importKeys_ok hv, hne, Option.or_none]
  · rfl

theorem added_valid (hC : C.Sound) {s : St C} (h : Inv params p s) {key : TokenSigningPrivateKey C}
    {v : TokenVerifier C} (hv : s.signer.verifier.importKeys [key.exportPublicKeyPB] = (.ok, v)) (n : ℤ)
    (pb : TokenSigningPublicKeyPB) (hn : v.pbOf n = some pb) : TokenVerifier.Valid C pb := by
  rw [TokenVerifier.importKeys_ok hv, Option.or_eq_some_iff] at hn
  rcases hn with hn | ⟨-, hn⟩
  · exact h.valid n pb hn
  · rw [List.mem_singleton.1 (TokenVerifier.firstListed_eq_some hn).1]
    exact TokenVerifier.valid_exportPublicKeyPB hC key

/-- the first number is set by the first key, and the key in front is that one or was pulled -/
theorem added_first {s : St C} (h : Inv params p s) (key : TokenSigningPrivateKey C) :
    let deque := s.signer.tskDeque ++ [key]
    let first := s.first.or (deque.head?.map fun key => key.keySeqNum)
    (deque = [] ↔ first = none) ∧ ∀ k ∈ deque.head?, first = some k.keySeqNum ∨ k.keySeqNum < s.pulled := by
  intro deque first
  cases hd : s.signer.tskDeque with
  | nil =>
    have hnone : s.first = none := h.first.1 hd
    have hfirst : first = some key.keySeqNum := by simp [first, deque, hd, hnone]
    refine ⟨iff_of_false (by simp [deque]) (by simp [hfirst]), fun k hk => ?_⟩
    simp only [deque, hd] at hk
    obtain rfl : key = k := Option.some.inj hk
    exact Or.inl hfirst
  | cons front rest =>
    have hfirst : first = s.first := h.first_or (by simp [hd]) _
    have hne : s.first ≠ none := fun hf => absurd (h.first.2 hf) (by simp [hd])
    refine ⟨iff_of_false (by simp [deque]) (hfirst ▸ hne), fun k hk => ?_⟩
    rw [hfirst]
    simp only [deque, hd] at hk
    obtain rfl : front = k := Option.some.inj hk
    exact h.front front (by simp [hd])

theorem cycle_inv (hC : C.Sound) (hp : 2 * (p : ℤ) + 1 < params.keyRotationSeconds) {s : St C} {now : ℤ}
    {gen : Except BadStatus SK} (h : Inv params p s) (ho : Timely params p s (.cycle now gen)) :
    Inv params p (runCycle s now gen) := by
  have hlife : 0 < s.signer.params.keyValiditySeconds := by
    have hV := params.validity_nonneg
    rw [h.built, TokenSignerParams.keyValiditySeconds]
    omega
  obtain ⟨hq, hk⟩ := maintain_inv now gen h.queue h.known now
    (s.first.or ((maintain s.signer now gen).2.tskDeque.head?.map fun key => key.keySeqNum))
  obtain ⟨h0, hle, hclock⟩ := h.pulls
  have hpulls : ∀ next, s.signer.nextKeySeqNum ≤ next → 0 ≤ s.pulled ∧ s.pulled ≤ next ∧ s.lastPull ≤ now :=
    fun next hnext => ⟨h0, hle.trans hnext, hclock.trans ho.1⟩
  unfold runCycle
  rcases maintain_cases hC s.signer now gen h.queue.next hlife with
    ⟨e, hm⟩ | ⟨hn, hm⟩ | ⟨hn, key, v, hnum, hexp, hv, hm⟩
  · -- no key could be generated: only a number is used up
    rw [hm] at hq hk ⊢
    have hfirst : s.first.or ((s.signer.reserved (· + 1)).tskDeque.head?.map fun key => key.keySeqNum) = s.first :=
      h.first_same
    simp only [hfirst] at hq hk ⊢
    exact ⟨h.built, hq, hk, h.valid, hpulls _ (Int.le_add_one le_rfl), h.remote, h.recent, h.schedule, h.first, h.front⟩
  · rcases s.signer.tryRotateKey_cases now with ⟨hr, hyoung⟩ | ⟨front, next, rest, hd, hage, hr⟩
    · have hschedule := schedule_idle h hn hyoung
      rw [hm, hr] at hq hk ⊢
      simp only [h.first_same] at hq hk ⊢
      exact ⟨h.built, hq, hk, h.valid, hpulls _ le_rfl, h.remote, h.recent, hschedule, h.first, h.front⟩
    · rw [h.built] at hage
      obtain ⟨hschedule, hpulled⟩ := schedule_rotate h ho hd hage
      have hne : s.signer.tskDeque ≠ [] := by simp [hd]
      rw [hm, hr] at hq hk ⊢
      simp only [h.first_or hne] at hq hk ⊢
      refine ⟨h.built, hq, hk, h.valid, hpulls _ le_rfl, h.remote, ?_, hschedule, ?_, ?_⟩
      · intro x hx
        refine h.recent x ?_
        rw [hd]
        exact List.mem_cons_of_mem front hx
      · exact iff_of_false (List.cons_ne_nil next rest) fun hf => hne (h.first.2 hf)
      · intro key' hk'
        obtain rfl : next = key' := Option.some.inj hk'
        exact Or.inr hpulled
  · have hcreation : params.keyCreationTime key = now := by
      rw [TokenSignerParams.keyCreationTime, hexp, h.built]
      omega
    obtain ⟨hschedule, hyoung⟩ := schedule_add hp h ho hn hcreation
    have hr : ((added s.signer key v).tryRotateKey now).2 = added s.signer key v := by
      rcases (added s.signer key v).tryRotateKey_cases now with ⟨hr, -⟩ | ⟨front, next, rest, hd, hage, -⟩
      · rw [hr]
      · have hlt := hyoung front next rest hd
        have hp' : (added s.signer key v).params = params := h.built
        rw [hp'] at hage
        omega
    rw [hm, hr] at hq hk ⊢
    obtain ⟨hfirst, hfront⟩ := added_first h key
    refine ⟨h.built, hq, hk, added_valid hC h hv, hpulls _ (Int.le_add_one le_rfl), added_remote h hnum hv, ?_, hschedule,
      hfirst, hfront⟩
    intro x hx hnew
    rcases List.mem_append.1 hx with hx | hx
    · exact h.recent x hx hnew
    · rw [List.mem_singleton.1 hx, hcreation]
      exact hclock.trans ho.1

/-- a pull leaves B with all that the signer's verifier knows -/
theorem pull_remote {s : St C} (h : Inv params p s) (n : ℤ) :
    (s.b.importKeys (s.signer.verifier.exportKeys s.b.getMaxKnownKeySequenceNumber)).2.pbOf n =
      s.signer.verifier.pbOf n := by
  obtain ⟨h0, -, -⟩ := h.pulls
  rcases TokenVerifier.importKeys_cases s.b (s.signer.verifier.exportKeys s.b.getMaxKnownKeySequenceNumber) with
    ⟨hbad, -⟩ | ⟨-, w, hw, hpb⟩
  · refine absurd (fun pb hm => ?_) hbad
    exact h.valid _ pb (TokenVerifier.mem_exportKeys.1 hm).2
  · rw [hw, hpb, TokenVerifier.firstListed_exportKeys, h.remote]
    by_cases hn : n < s.pulled
    · rw [if_pos hn]
      cases s.signer.verifier.pbOf n with
      | none => simp
      | some pb => rfl
    · -- everything B knows is below what was pulled
      have hmax : s.b.getMaxKnownKeySequenceNumber < n := by
        rcases TokenVerifier.getMax_cases s.b with ⟨hm, -⟩ | ⟨pb, hm⟩
        · rw [hm]
          omega
        · rw [h.remote] at hm
          split_ifs at hm with hlt
          omega
      rw [if_neg hn, if_pos hmax, Option.none_or]

theorem pull_inv {s : St C} {now : ℤ} (h : Inv params p s) : Inv params p (runPull s now) := by
  obtain ⟨h0, hle, hclock⟩ := h.pulls
  have hq := h.queue
  have hk := h.known
  refine ⟨h.built, ⟨hq.sorted, hq.size, hq.next, hq.below, hq.room, hq.newest⟩, ⟨hk.deque, hk.seen, hk.pending⟩, h.valid,
    ⟨hq.next, le_rfl, le_rfl⟩, ?_, ?_, h.schedule, h.first, ?_⟩
  · intro n
    -- the signer's verifier knows no number from the next one on
    have hbelow : ¬ n < s.signer.nextKeySeqNum → s.signer.verifier.pbOf n = none := by
      intro hn
      cases hpb : s.signer.verifier.pbOf n with
      | none => rfl
      | some pb => exact ((hk.seen n pb hpb).resolve_left hn).symm
    have hb := pull_remote h n
    change (s.b.importKeys _).2.pbOf n = if n < s.signer.nextKeySeqNum then s.signer.verifier.pbOf n else none
    rw [hb]
    by_cases hn : n < s.signer.nextKeySeqNum
    · rw [if_pos hn]
    · rw [if_neg hn, hbelow hn]
  · intro x hx hnew
    exact absurd (hq.below x hx) (not_lt.2 hnew)
  · intro key hkey
    exact (h.front key hkey).imp id fun hlt => hlt.trans_le hle

theorem step_inv (hC : C.Sound) (hp : 2 * (p : ℤ) + 1 < params.keyRotationSeconds) (s : St C) (o : Op SK) (t : St C)
    (h : Inv params p s) (ho : Timely params p s o) (hst : (remote C params t0).step s o = some t) : Inv params p t := by
  cases o with
  | cycle now gen =>
    cases hst
    exact cycle_inv hC hp h ho
  | pull now =>
    cases hst
    exact pull_inv h

theorem step_extends (s : St C) (o : Op SK) (t : St C) (hst : (remote C params t0).step s o = some t) :
    s.b.Extends t.b := by
  cases o with
  | cycle now gen =>
    cases hst
    exact TokenVerifier.Extends.refl _
  | pull now =>
    cases hst
    exact TokenVerifier.importKeys_extends _ _

/-! ## Main result -/

/-- **A remote verifier never lacks the key.** Cycles at most p seconds apart, pulls at most R - 2p - 1, 2p + 1 < R: a
token signed with any key but the very first one is never answered with `unknownSigningKey`, at the moment it is signed
or later. -/
theorem remote_knows_signing_key (hC : C.Sound) (E : TokenCodec) (params : TokenSignerParams) (p : ℕ)
    (hp : 2 * (p : ℤ) + 1 < params.keyRotationSeconds) (t0 : ℤ) (ops : List (Op SK)) (s : St C)
    (hops : (remote C params t0).Along (Timely params p) (remote C params t0).init ops)
    (hrun : (remote C params t0).run (remote C params t0).init ops = some s)
    (token tok : SignedTokenPB) (hsign : s.signer.signToken token = .ok tok) (hfirst : tok.signingKeySeqNum ≠ s.first)
    (more : List (Op SK)) (s' : St C) (hmore : (remote C params t0).run s more = some s') (now : ℤ) :
    (s'.b.verifyTokenSignature E now tok).1 ≠ .unknownSigningKey := by
  have h : Inv params p s := Machine.run_inv_along (step_inv hC hp) inv_init hops hrun
  have hext : s.b.Extends s'.b := Machine.run_inv (I := fun u => s.b.Extends u.b)
    (fun u o v hu hst => hu.trans (step_extends u o v hst)) (TokenVerifier.Extends.refl _) hmore
  obtain ⟨key, rest, hd, hs⟩ := TokenSigner.signToken_ok hsign
  obtain ⟨sig, -, rfl⟩ := TokenSigningPrivateKey.sign_ok hs
  have hfront : key.keySeqNum < s.pulled := (h.front key (by rw [hd]; rfl)).resolve_left fun hf => hfirst hf.symm
  have hknown := h.known.deque key (by simp [hd])
  have hb : s.b.pbOf key.keySeqNum = some key.exportPublicKeyPB := by
    rw [h.remote, if_pos hfront]
    exact hknown
  intro hun
  have hnone := TokenVerifier.verify_unknown hun
  rw [Option.getD_some, hext _ _ hb] at hnone
  cases hnone

/-! ## Witness -/

/-- tokens live 1 s, keys rotate every 4 s -/
def slowParams : TokenSignerParams := .ofNat 1 4

/-- a cycle and a pull at every second from 0 to 9 (p = 1): key 1, generated at 4, signs from 8 on -/
def everySecondToNine : List (Op UInt8) :=
  [0, 1, 2, 3, 4, 5, 6, 7, 8, 9].flatMap fun now => [.cycle now (.ok 7), .pull now]

/-- a token of user `u` that expires at 10, before it is signed -/
def unsignedToken : SignedTokenPB := ⟨some [0x08, 10, 0x1A, 0x03, 0x0A, 0x01, 0x75], none, none⟩

theorem remote_knows_signing_key_at_nine :
    let m := remote byteCrypto slowParams 0
    ∃ s tok, m.run m.init everySecondToNine = some s ∧ s.signer.signToken unsignedToken = .ok tok ∧
      tok.signingKeySeqNum = some 1 ∧ s.first = some 0 ∧
      (s.b.verifyTokenSignature byteCodec 9 tok).1 ≠ .unknownSigningKey := by
  refine ⟨_, _, rfl, rfl, by decide, by decide, ?_⟩
  exact remote_knows_signing_key byteCrypto_sound byteCodec slowParams 1 (by decide) 0 everySecondToNine _ (by decide) rfl
    unsignedToken _ rfl (by decide) [] _ rfl 9

end Bboy.Security.Remote
