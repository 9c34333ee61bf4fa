/-
Maintenance of one `TokenSigner`: runs of CheckNeedKey, AddKey, TryRotateKey and ImportKeys in which the key that a
CheckNeedKey produced goes to AddKey before the next CheckNeedKey or ImportKeys, as in the usage pattern of
`token_signer.h`. TryRotateKey may run anywhere, each operation reads the clock on its own, and the clock may go back
unless a result says otherwise. `SignToken` only reads the signer: a token is signed in some state of a run.

The verifier that the constructor is given may already know keys. `OneKeyPerNumber` is the condition that a sequence
number denotes one key: the imported keys agree with each other, with the queue and with the verifier, and a generated
key with what the verifier was given.

The number that follows 2^63 - 1 is not larger (`succ64`). `maintenance64` counts as the source does, `maintenance` does
not overflow; they have the same runs as long as every number that is reserved, added or imported is below 2^63 - 1
(`run_eq`), so the invariants are proved of `maintenance`.

Results:
- `QueueInv`, `run_queueInv`: at most two keys, in increasing order, all numbers below the next one;
- `KnownInv`, `run_knownInv`: every key of the queue is known to the verifier under its number;
- `numbered_of_noImport`: without imports, fewer than 2^63 operations are below the limit;
- `queue_consistent`: below the limit, the signer and its verifier agree in every state, and what an import does to the
  queue.
Witness: `queue_out_of_order` (after the import of number 2^63 - 1 the next key gets number 0 and stands behind it).
-/
import Bboy.Core.Machine
import Bboy.Security.TokenSigner

namespace Bboy.Security.Maintenance

open Core

variable {SK PK : Type} {C : Crypto SK PK}

/-! ## Model -/

structure St (C : Crypto SK PK) where
  signer : TokenSigner C
  /-- the key of the last CheckNeedKey, until AddKey takes it -/
  pending : Option (TokenSigningPrivateKey C)
  /-- the last clock reading -/
  clock : ℤ
  /-- ghost: the number of the key that was added to the empty queue -/
  first : Option ℤ

inductive Op (SK : Type) where
  | checkNeedKey (now : ℤ) (gen : Except BadStatus SK)
  | addKey (now : ℤ)
  | tryRotateKey (now : ℤ)
  | importKeys (now : ℤ) (keys : List TokenSigningPrivateKeyPB)

def Op.now : Op SK → ℤ
  | .checkNeedKey now _ => now
  | .addKey now => now
  | .tryRotateKey now => now
  | .importKeys now _ => now

variable (succ : ℤ → ℤ)

def checkNeedKey (s : St C) (now : ℤ) (gen : Except BadStatus SK) : St C :=
  match s.signer.checkNeedKey succ now gen with
  | (.error _, t) => { s with signer := t, clock := now }
  | (.ok key, t) => { s with signer := t, pending := key, clock := now }

def addKey (s : St C) (now : ℤ) (key : TokenSigningPrivateKey C) : St C :=
  match s.signer.addKey succ now key with
  | (.bad _, t) => { s with signer := t, pending := none, clock := now }
  | (.ok, t) =>
    { signer := t
      pending := none
      clock := now
      first := if s.signer.tskDeque.isEmpty then some key.keySeqNum else s.first }

/-- a signer built with `params` and a verifier `known`, from time `t0` on -/
def maintenanceWith (params : TokenSignerParams) (known : TokenVerifier C) (t0 : ℤ) : Machine (St C) (Op SK) where
  init := ⟨TokenSigner.new params known, none, t0, none⟩
  step s
    | .checkNeedKey now gen => if s.pending.isSome then none else some (checkNeedKey succ s now gen)
    | .addKey now => s.pending.map (addKey succ s now)
    | .tryRotateKey now => some { s with signer := (s.signer.tryRotateKey now).2, clock := now }
    | .importKeys now keys =>
      if s.pending.isSome then none
      else (s.signer.importKeys succ now keys).map fun r => { s with signer := r.2, clock := now }

/-- with numbers that do not overflow -/
abbrev maintenance (params : TokenSignerParams) (known : TokenVerifier C) (t0 : ℤ) : Machine (St C) (Op SK) :=
  maintenanceWith (· + 1) params known t0

/-- with the numbers of the source -/
abbrev maintenance64 (params : TokenSignerParams) (known : TokenVerifier C) (t0 : ℤ) : Machine (St C) (Op SK) :=
  maintenanceWith succ64 params known t0

/-! ## What a step does -/

variable {params : TokenSignerParams} {known : TokenVerifier C} {t0 : ℤ}

theorem step_checkNeedKey {s t : St C} {now : ℤ} {gen : Except BadStatus SK}
    (h : (maintenance params known t0).step s (.checkNeedKey now gen) = some t) :
    s.pending = none ∧
      ((¬ s.signer.NeedsKey now ∧ t = { s with clock := now }) ∨
        (s.signer.NeedsKey now ∧ t = { s with signer := s.signer.reserved (· + 1), clock := now }) ∨
        (s.signer.NeedsKey now ∧ ∃ key, t = { s with
          signer := s.signer.reserved (· + 1)
          pending := some (.ofKey C s.signer.nextKeySeqNum (now + s.signer.params.keyValiditySeconds) key)
          clock := now })) := by
  simp only [maintenanceWith] at h
  split_ifs at h with hp
  have hnone : s.pending = none := by simpa using hp
  refine ⟨hnone, ?_⟩
  have ht : checkNeedKey (· + 1) s now gen = t := Option.some.inj h
  unfold checkNeedKey at ht
  rcases s.signer.checkNeedKey_cases (· + 1) now gen with ⟨hn, hc⟩ | ⟨hn, e, e', -, hc⟩ | ⟨hn, key, -, hc⟩
  · rw [hc] at ht
    exact Or.inl ⟨hn, by rw [← ht, ← hnone]⟩
  · rw [hc] at ht
    exact Or.inr (Or.inl ⟨hn, ht.symm⟩)
  · rw [hc] at ht
    exact Or.inr (Or.inr ⟨hn, key, ht.symm⟩)

theorem step_addKey {s t : St C} {now : ℤ} (h : (maintenance params known t0).step s (.addKey now) = some t) :
    ∃ key, s.pending = some key ∧
      ((∃ next, (s.signer.nextKeySeqNum ≤ next ∧ next ≤ max s.signer.nextKeySeqNum (key.keySeqNum + 1)) ∧
        t = { s with signer := { s.signer with nextKeySeqNum := next }, pending := none, clock := now }) ∨
      (now < key.expireTime ∧ ∃ v, s.signer.verifier.importKeys [key.exportPublicKeyPB] = (.ok, v) ∧
        t = { signer := { s.signer with
                nextKeySeqNum := max s.signer.nextKeySeqNum (key.keySeqNum + 1)
                verifier := v
                tskDeque := s.signer.tskDeque ++ [key] }
              pending := none
              clock := now
              first := if s.signer.tskDeque.isEmpty then some key.keySeqNum else s.first })) := by
  obtain ⟨key, hp, ht⟩ := Option.map_eq_some_iff.1 h
  refine ⟨key, hp, ?_⟩
  unfold addKey at ht
  rcases s.signer.addKey_cases (· + 1) now key with ⟨e, ha, -⟩ | ⟨e, ha, -⟩ | ⟨-, hexp, v, hv, ha⟩
  · rw [ha] at ht
    exact Or.inl ⟨_, ⟨le_rfl, le_max_left _ _⟩, ht.symm⟩
  · rw [ha] at ht
    exact Or.inl ⟨_, ⟨le_max_left _ _, le_rfl⟩, ht.symm⟩
  · rw [ha] at ht
    exact Or.inr ⟨hexp, v, hv, ht.symm⟩

theorem step_tryRotateKey {s t : St C} {now : ℤ}
    (h : (maintenance params known t0).step s (.tryRotateKey now) = some t) :
    (t = { s with clock := now } ∧ ∀ key next rest, s.signer.tskDeque = key :: next :: rest →
        now < s.signer.params.keyCreationTime key + 2 * s.signer.params.keyRotationSeconds) ∨
      ∃ key next rest, s.signer.tskDeque = key :: next :: rest ∧
        s.signer.params.keyCreationTime key + 2 * s.signer.params.keyRotationSeconds ≤ now ∧
        t = { s with signer := { s.signer with tskDeque := next :: rest }, clock := now } := by
  have ht := Option.some.inj h
  rcases s.signer.tryRotateKey_cases now with ⟨hr, hage⟩ | ⟨key, next, rest, hd, hage, hr⟩
  · rw [hr] at ht
    exact Or.inl ⟨ht.symm, hage⟩
  · rw [hr] at ht
    exact Or.inr ⟨key, next, rest, hd, hage, ht.symm⟩

theorem step_importKeys {s t : St C} {now : ℤ} {keys : List TokenSigningPrivateKeyPB}
    (h : (maintenance params known t0).step s (.importKeys now keys) = some t) :
    s.pending = none ∧ ∃ tsks next, checkedKeys C keys = some tsks ∧ s.signer.nextKeySeqNum ≤ next ∧
      (∀ tsk ∈ tsks, tsk.keySeqNum < next) ∧
      (t = { s with signer := { s.signer with nextKeySeqNum := next }, clock := now } ∨
        ∃ v, s.signer.verifier.importKeys ((unexpired now tsks).map fun tsk => tsk.exportPublicKeyPB) = (.ok, v) ∧
          t = { s with
            signer := { s.signer with
              nextKeySeqNum := next
              verifier := v
              tskDeque := (s.signer.mergedDeque now tsks).values }
            clock := now }) := by
  simp only [maintenanceWith] at h
  split_ifs at h with hp
  refine ⟨by simpa using hp, ?_⟩
  obtain ⟨r, hr, ht⟩ := Option.map_eq_some_iff.1 h
  rcases s.signer.importKeys_cases (· + 1) now keys with hn | ⟨tsks, next, hc, hle, hlt, -, hres⟩
  · rw [hn] at hr
    cases hr
  · refine ⟨tsks, next, hc, hle, fun tsk htsk => Int.lt_of_add_one_le (hlt tsk htsk), ?_⟩
    rcases hres with ⟨e, he⟩ | ⟨v, hv, hok⟩
    · rw [he] at hr
      cases hr
      exact Or.inl ht.symm
    · rw [hok] at hr
      cases hr
      exact Or.inr ⟨v, hv, ht.symm⟩

/-! ## The queue -/

structure QueueInv (s : St C) : Prop where
  sorted : s.signer.tskDeque.Pairwise fun x y => x.keySeqNum < y.keySeqNum
  size : s.signer.tskDeque.length ≤ 2
  next : 0 ≤ s.signer.nextKeySeqNum
  below : ∀ x ∈ s.signer.tskDeque, x.keySeqNum < s.signer.nextKeySeqNum
  /-- there is room for a key that is about to be added, and it is newer than all in the queue -/
  room : ∀ key ∈ s.pending, s.signer.tskDeque.length ≤ 1
  newest : ∀ key ∈ s.pending, ∀ x ∈ s.signer.tskDeque, x.keySeqNum < key.keySeqNum

theorem QueueInv.with_next {s : St C} {next : ℤ} (now : ℤ) {pending : Option (TokenSigningPrivateKey C)}
    (h : QueueInv s) (hle : s.signer.nextKeySeqNum ≤ next) (hp : ∀ key ∈ pending, key ∈ s.pending) :
    QueueInv { s with signer := { s.signer with nextKeySeqNum := next }, pending := pending, clock := now } where
  sorted := h.sorted
  size := h.size
  next := h.next.trans hle
  below := fun x hx => (h.below x hx).trans_le hle
  room := fun key hk => h.room key (hp key hk)
  newest := fun key hk => h.newest key (hp key hk)

theorem step_queueInv (s : St C) (o : Op SK) (t : St C) (h : QueueInv s)
    (hst : (maintenance params known t0).step s o = some t) : QueueInv t := by
  cases o with
  | checkNeedKey now gen =>
    obtain ⟨hnone, ⟨-, rfl⟩ | ⟨-, rfl⟩ | ⟨hn, key, rfl⟩⟩ := step_checkNeedKey hst
    · exact h.with_next now le_rfl fun _ hk => hk
    · exact h.with_next now (Int.le_add_one le_rfl) fun _ hk => hk
    · have hr := h.with_next now (Int.le_add_one (le_refl s.signer.nextKeySeqNum)) (fun _ hk => hk)
      refine ⟨hr.sorted, hr.size, hr.next, hr.below, fun _ _ => hn.length_le, ?_⟩
      intro key' hk x hx
      cases hk
      exact h.below x hx
  | addKey now =>
    obtain ⟨key, hp, ⟨next, ⟨hle, -⟩, rfl⟩ | ⟨-, v, -, rfl⟩⟩ := step_addKey hst
    · exact h.with_next now hle fun _ hk => absurd hk (by simp)
    · have hnew := h.newest key hp
      have hle := le_max_left s.signer.nextKeySeqNum (key.keySeqNum + 1)
      refine ⟨?_, ?_, h.next.trans hle, ?_, fun _ hk => absurd hk (by simp), fun _ hk => absurd hk (by simp)⟩
      · refine List.pairwise_append.2 ⟨h.sorted, List.pairwise_singleton _ _, fun x hx y hy => ?_⟩
        rw [List.mem_singleton.1 hy]
        exact hnew x hx
      · have hlen := h.room key hp
        simp only [List.length_append, List.length_singleton]
        omega
      · intro x hx
        rcases List.mem_append.1 hx with hx | hx
        · exact (h.below x hx).trans_le hle
        · rw [List.mem_singleton.1 hx]
          exact (Int.lt_succ _).trans_le (le_max_right _ _)
  | tryRotateKey now =>
    rcases step_tryRotateKey hst with ⟨rfl, -⟩ | ⟨key, next, rest, hd, -, rfl⟩
    · exact h.with_next now le_rfl fun _ hk => hk
    · have hsub : ∀ x ∈ next :: rest, x ∈ s.signer.tskDeque := by
        intro x hx
        rw [hd]
        exact List.mem_cons_of_mem key hx
      have hlen : (next :: rest).length ≤ s.signer.tskDeque.length := by
        rw [hd]
        exact Nat.le_succ _
      have hs := h.sorted
      rw [hd] at hs
      exact ⟨(List.pairwise_cons.1 hs).2, hlen.trans h.size, h.next, fun x hx => h.below x (hsub x hx),
        fun key' hk => hlen.trans (h.room key' hk), fun key' hk x hx => h.newest key' hk x (hsub x hx)⟩
  | importKeys now keys =>
    obtain ⟨hnone, tsks, next, -, hle, hlt, rfl | ⟨v, -, rfl⟩⟩ := step_importKeys hst
    · exact h.with_next now hle fun _ hk => hk
    · obtain ⟨hs, hl, hm⟩ := s.signer.mergedDeque_sorted now tsks
      have hno : ∀ key, key ∉ s.pending := fun key hk => by simp [hnone] at hk
      refine ⟨hs, hl, h.next.trans hle, fun x hx => ?_, fun key hk => absurd hk (hno key),
        fun key hk => absurd hk (hno key)⟩
      rcases hm x hx with hx | hx
      · exact (h.below x hx).trans_le hle
      · exact hlt x (mem_unexpired.1 hx).1

theorem queueInv_init : QueueInv (maintenance params known t0).init where
  sorted := List.Pairwise.nil
  size := Nat.zero_le _
  next := le_rfl
  below := fun _ hx => absurd hx List.not_mem_nil
  room := fun _ hk => by cases hk
  newest := fun _ hk => by cases hk

theorem run_queueInv {ops : List (Op SK)} {s : St C}
    (h : (maintenance params known t0).run (maintenance params known t0).init ops = some s) : QueueInv s :=
  Machine.run_inv step_queueInv queueInv_init h

/-! ## The verifier -/

/-- a sequence number denotes one key -/
def OneKeyPerNumber (known : TokenVerifier C) (s : St C) : Op SK → Prop
  | .addKey _ => ∀ key ∈ s.pending, ∀ pb ∈ known.pbOf key.keySeqNum, pb = key.exportPublicKeyPB
  | .importKeys _ keys => ∀ tsks ∈ checkedKeys C keys, ∀ x ∈ tsks,
      (∀ y ∈ tsks, y.keySeqNum = x.keySeqNum → y = x) ∧
        (∀ y ∈ s.signer.tskDeque, y.keySeqNum = x.keySeqNum → y = x) ∧
          ∀ pb ∈ s.signer.verifier.pbOf x.keySeqNum, pb = x.exportPublicKeyPB
  | _ => True

instance [DecidableEq SK] [DecidableEq PK] (known : TokenVerifier C) (s : St C) :
    ∀ o, Decidable (OneKeyPerNumber known s o)
  | .addKey _ =>
    inferInstanceAs (Decidable (∀ key ∈ s.pending, ∀ pb ∈ known.pbOf key.keySeqNum, pb = key.exportPublicKeyPB))
  | .importKeys _ keys => inferInstanceAs (Decidable (∀ tsks ∈ checkedKeys C keys, ∀ x ∈ tsks,
      (∀ y ∈ tsks, y.keySeqNum = x.keySeqNum → y = x) ∧
        (∀ y ∈ s.signer.tskDeque, y.keySeqNum = x.keySeqNum → y = x) ∧
          ∀ pb ∈ s.signer.verifier.pbOf x.keySeqNum, pb = x.exportPublicKeyPB))
  | .checkNeedKey _ _ => isTrue trivial
  | .tryRotateKey _ => isTrue trivial

structure KnownInv (known : TokenVerifier C) (s : St C) : Prop where
  deque : ∀ x ∈ s.signer.tskDeque, s.signer.verifier.pbOf x.keySeqNum = some x.exportPublicKeyPB
  /-- every known number was given to the verifier or is used up -/
  seen : ∀ n pb, s.signer.verifier.pbOf n = some pb → n < s.signer.nextKeySeqNum ∨ known.pbOf n = some pb
  pending : ∀ key ∈ s.pending, ∀ pb, s.signer.verifier.pbOf key.keySeqNum = some pb →
    known.pbOf key.keySeqNum = some pb

theorem KnownInv.with_next {s : St C} {next : ℤ} (now : ℤ) {pending : Option (TokenSigningPrivateKey C)}
    (h : KnownInv known s) (hle : s.signer.nextKeySeqNum ≤ next) (hp : ∀ key ∈ pending, key ∈ s.pending) :
    KnownInv known
      { s with signer := { s.signer with nextKeySeqNum := next }, pending := pending, clock := now } where
  deque := h.deque
  seen := fun n pb hn => (h.seen n pb hn).imp_left fun hlt => hlt.trans_le hle
  pending := fun key hk => h.pending key (hp key hk)

/-- a key that the verifier imports among others, and that agrees with all that is listed or known under its number, is
known afterwards -/
theorem known_of_import {v w : TokenVerifier C} {tsks : List (TokenSigningPrivateKey C)}
    (h : v.importKeys (tsks.map fun tsk => tsk.exportPublicKeyPB) = (.ok, w)) {x : TokenSigningPrivateKey C}
    (hx : x ∈ tsks) (huniq : ∀ y ∈ tsks, y.keySeqNum = x.keySeqNum → y = x)
    (hold : ∀ pb ∈ v.pbOf x.keySeqNum, pb = x.exportPublicKeyPB) :
    w.pbOf x.keySeqNum = some x.exportPublicKeyPB := by
  rw [TokenVerifier.importKeys_ok h]
  cases hv : v.pbOf x.keySeqNum with
  | some pb =>
    rw [hold pb hv]
    rfl
  | none =>
    rw [Option.none_or]
    cases hf : TokenVerifier.firstListed (tsks.map fun tsk => tsk.exportPublicKeyPB) x.keySeqNum with
    | none => exact absurd rfl (TokenVerifier.firstListed_eq_none.1 hf _ (List.mem_map_of_mem hx))
    | some pb =>
      obtain ⟨hm, hn⟩ := TokenVerifier.firstListed_eq_some hf
      obtain ⟨y, hy, rfl⟩ := List.mem_map.1 hm
      rw [huniq y hy hn]

theorem step_knownInv (s : St C) (o : Op SK) (t : St C) (h : KnownInv known s) (ho : OneKeyPerNumber known s o)
    (hst : (maintenance params known t0).step s o = some t) : KnownInv known t := by
  cases o with
  | checkNeedKey now gen =>
    obtain ⟨hnone, ⟨-, rfl⟩ | ⟨-, rfl⟩ | ⟨-, key, rfl⟩⟩ := step_checkNeedKey hst
    · exact h.with_next now le_rfl fun _ hk => hk
    · exact h.with_next now (Int.le_add_one le_rfl) fun _ hk => hk
    · have hr := h.with_next now (Int.le_add_one (le_refl s.signer.nextKeySeqNum)) (fun _ hk => hk)
      refine ⟨hr.deque, hr.seen, ?_⟩
      intro key' hk pb hpb
      cases hk
      exact (h.seen _ pb hpb).resolve_left (lt_irrefl _)
  | addKey now =>
    obtain ⟨key, hp, ⟨next, ⟨hle, -⟩, rfl⟩ | ⟨-, v, hv, rfl⟩⟩ := step_addKey hst
    · exact h.with_next now hle fun _ hk => absurd hk (by simp)
    · have hext := TokenVerifier.importKeys_extends s.signer.verifier [key.exportPublicKeyPB]
      rw [hv] at hext
      refine ⟨fun x hx => ?_, fun n pb hn => ?_, fun _ hk => absurd hk (by simp)⟩
      · rcases List.mem_append.1 hx with hx | hx
        · exact hext _ _ (h.deque x hx)
        · rw [List.mem_singleton.1 hx]
          have himport : s.signer.verifier.importKeys ([key].map fun tsk => tsk.exportPublicKeyPB) = (.ok, v) := hv
          refine known_of_import himport List.mem_cons_self (fun y hy _ => List.mem_singleton.1 hy) ?_
          intro pb hpb
          exact ho key hp pb (h.pending key hp pb hpb)
      · have hn' := hn
        rw [TokenVerifier.importKeys_ok hv, Option.or_eq_some_iff] at hn'
        rcases hn' with hn' | ⟨-, hn'⟩
        · exact (h.seen n pb hn').imp_left fun hlt => hlt.trans_le (le_max_left _ _)
        · left
          obtain ⟨hm, hnum⟩ := TokenVerifier.firstListed_eq_some hn'
          rw [← hnum, List.mem_singleton.1 hm]
          exact (Int.lt_succ _).trans_le (le_max_right _ _)
  | tryRotateKey now =>
    rcases step_tryRotateKey hst with ⟨rfl, -⟩ | ⟨key, next, rest, hd, -, rfl⟩
    · exact h.with_next now le_rfl fun _ hk => hk
    · refine ⟨fun x hx => h.deque x ?_, h.seen, h.pending⟩
      rw [hd]
      exact List.mem_cons_of_mem key hx
  | importKeys now keys =>
    obtain ⟨hnone, tsks, next, hc, hle, hlt, rfl | ⟨v, hv, rfl⟩⟩ := step_importKeys hst
    · exact h.with_next now hle fun _ hk => hk
    · have hext := TokenVerifier.importKeys_extends s.signer.verifier
        ((unexpired now tsks).map fun tsk => tsk.exportPublicKeyPB)
      rw [hv] at hext
      refine ⟨fun x hx => ?_, fun n pb hn => ?_, fun key hk => by simp [hnone] at hk⟩
      · rcases (s.signer.mergedDeque_sorted now tsks).2.2 x hx with hx | hx
        · exact hext _ _ (h.deque x hx)
        · obtain ⟨h1, -, h3⟩ := ho tsks hc x (mem_unexpired.1 hx).1
          exact known_of_import hv hx (fun y hy => h1 y (mem_unexpired.1 hy).1) h3
      · have hn' := hn
        rw [TokenVerifier.importKeys_ok hv, Option.or_eq_some_iff] at hn'
        rcases hn' with hn' | ⟨-, hn'⟩
        · exact (h.seen n pb hn').imp_left fun hlt => hlt.trans_le hle
        · left
          obtain ⟨hm, hnum⟩ := TokenVerifier.firstListed_eq_some hn'
          obtain ⟨y, hy, rfl⟩ := List.mem_map.1 hm
          rw [← hnum]
          exact hlt y (mem_unexpired.1 hy).1

theorem knownInv_init : KnownInv known (maintenance params known t0).init where
  deque := fun _ hx => absurd hx List.not_mem_nil
  seen := fun _ _ hn => Or.inr hn
  pending := fun _ hk => by cases hk

theorem run_knownInv {ops : List (Op SK)} {s : St C}
    (hops : (maintenance params known t0).Along (OneKeyPerNumber known) (maintenance params known t0).init ops)
    (h : (maintenance params known t0).run (maintenance params known t0).init ops = some s) : KnownInv known s :=
  Machine.run_inv_along step_knownInv knownInv_init hops h

/-! ## Main result -/

/-- the signer and its verifier in one state -/
structure Consistent (s : TokenSigner C) : Prop where
  size : s.tskDeque.length ≤ 2
  sorted : s.tskDeque.Pairwise fun x y => x.keySeqNum < y.keySeqNum
  known : ∀ key ∈ s.tskDeque, s.verifier.pbOf key.keySeqNum = some key.exportPublicKeyPB
  signs_known : ∀ token signed, s.signToken token = .ok signed →
    ∃ n pb, signed.signingKeySeqNum = some n ∧ s.verifier.pbOf n = some pb

/-- a successful import leaves the two largest-numbered keys of the queue and the imported unexpired keys -/
def ImportKeepsLargest (s : TokenSigner C) (now : ℤ) (keys : List TokenSigningPrivateKeyPB) : Prop :=
  ∀ s', s.importKeys succ64 now keys = some (.ok, s') → ∃ tsks, checkedKeys C keys = some tsks ∧
    IsLargest 2 TokenSigningPrivateKey.keySeqNum {x | x ∈ s.tskDeque ∨ x ∈ tsks ∧ now < x.expireTime} s'.tskDeque

theorem consistent_of_inv {s : St C} (hq : QueueInv s) (hk : KnownInv known s) : Consistent s.signer where
  size := hq.size
  sorted := hq.sorted
  known := hk.deque
  signs_known := fun token signed h => by
    obtain ⟨key, rest, hd, hs⟩ := TokenSigner.signToken_ok h
    obtain ⟨sig, -, rfl⟩ := TokenSigningPrivateKey.sign_ok hs
    exact ⟨_, _, rfl, hk.deque key (by rw [hd]; exact List.mem_cons_self)⟩

theorem QueueInv.one_key {s : St C} (h : QueueInv s) :
    ∀ x ∈ s.signer.tskDeque, ∀ y ∈ s.signer.tskDeque, y.keySeqNum = x.keySeqNum → y = x := by
  intro x hx y hy hn
  have hnodup : (s.signer.tskDeque.map fun key => key.keySeqNum).Nodup :=
    List.pairwise_map.2 (h.sorted.imp fun hlt => hlt.ne)
  exact List.inj_on_of_nodup_map hnodup hy hx hn

theorem import_keeps_largest {s : St C} (h : QueueInv s) {now : ℤ} {keys : List TokenSigningPrivateKeyPB}
    (ho : OneKeyPerNumber known s (.importKeys now keys)) : ImportKeepsLargest s.signer now keys := by
  intro s' hs
  rcases s.signer.importKeys_cases succ64 now keys with hn | ⟨tsks, next, hc, -, -, -, ⟨e, he⟩ | ⟨v, -, hok⟩⟩
  · rw [hn] at hs
    cases hs
  · rw [he] at hs
    cases hs
  · rw [hok] at hs
    cases hs
    refine ⟨tsks, hc, TokenSigner.mergedDeque_isLargest now (fun x hx => ?_) h.one_key⟩
    obtain ⟨h1, h2, -⟩ := ho tsks hc x hx
    exact ⟨h1, h2⟩

theorem step_nonempty (s : St C) (o : Op SK) (t : St C) (h : QueueInv s ∧ s.signer.tskDeque ≠ [])
    (ho : OneKeyPerNumber known s o) (hst : (maintenance params known t0).step s o = some t) :
    QueueInv t ∧ t.signer.tskDeque ≠ [] := by
  refine ⟨step_queueInv s o t h.1 hst, ?_⟩
  cases o with
  | checkNeedKey now gen => obtain ⟨-, ⟨-, rfl⟩ | ⟨-, rfl⟩ | ⟨-, key, rfl⟩⟩ := step_checkNeedKey hst <;> exact h.2
  | addKey now =>
    obtain ⟨key, -, ⟨next, -, rfl⟩ | ⟨-, v, -, rfl⟩⟩ := step_addKey hst
    · exact h.2
    · simp
  | tryRotateKey now =>
    rcases step_tryRotateKey hst with ⟨rfl, -⟩ | ⟨key, next, rest, -, -, rfl⟩
    · exact h.2
    · simp
  | importKeys now keys =>
    obtain ⟨-, tsks, next, hc, -, -, rfl | ⟨v, -, rfl⟩⟩ := step_importKeys hst
    · exact h.2
    · obtain ⟨x, hx⟩ := List.exists_mem_of_ne_nil _ h.2
      have hl := TokenSigner.mergedDeque_isLargest now
        (fun x hx => ⟨(ho tsks hc x hx).1, (ho tsks hc x hx).2.1⟩) h.1.one_key
      exact hl.ne_nil (Or.inl hx)

/-! ## Below the limit -/

/-- every number that is reserved, added or imported has a larger one behind it -/
def BelowLimit (s : St C) : Op SK → Prop
  | .checkNeedKey now _ => ∀ r ∈ (s.signer.reserveKey succ64 now).1, r.1 < 2 ^ 63 - 1
  | .addKey _ => ∀ key ∈ s.pending, key.keySeqNum < 2 ^ 63 - 1
  | .tryRotateKey _ => True
  | .importKeys _ keys => ∀ pb ∈ keys, -2 ^ 63 ≤ pb.keySeqNum.getD 0 ∧ pb.keySeqNum.getD 0 < 2 ^ 63 - 1

instance (s : St C) : ∀ o : Op SK, Decidable (BelowLimit s o)
  | .checkNeedKey now _ => inferInstanceAs (Decidable (∀ r ∈ (s.signer.reserveKey succ64 now).1, r.1 < 2 ^ 63 - 1))
  | .addKey _ => inferInstanceAs (Decidable (∀ key ∈ s.pending, key.keySeqNum < 2 ^ 63 - 1))
  | .tryRotateKey _ => isTrue trivial
  | .importKeys _ keys => inferInstanceAs
      (Decidable (∀ pb ∈ keys, -2 ^ 63 ≤ pb.keySeqNum.getD 0 ∧ pb.keySeqNum.getD 0 < 2 ^ 63 - 1))

/-- a step below the limit does not overflow -/
theorem step_eq (s : St C) (o : Op SK) (h : QueueInv s) (ho : BelowLimit s o) :
    (maintenance64 params known t0).step s o = (maintenance params known t0).step s o := by
  cases o with
  | checkNeedKey now gen =>
    have hnext : s.signer.NeedsKey now → succ64 s.signer.nextKeySeqNum = s.signer.nextKeySeqNum + 1 := by
      intro hn
      have hr := ((s.signer.reserveKey_cases succ64 now).resolve_left fun h' => h'.1 hn).2
      have hlt := ho (s.signer.nextKeySeqNum, _) (by rw [hr]; rfl)
      have hnonneg := h.next
      exact succ64_eq (by omega) hlt
    simp only [maintenanceWith, checkNeedKey, @TokenSigner.checkNeedKey_congr _ _ C succ64 (· + 1) _ _ hnext gen]
  | addKey now =>
    simp only [maintenanceWith]
    refine Option.map_congr fun key hp => ?_
    have hkey : 0 ≤ key.keySeqNum → succ64 key.keySeqNum = key.keySeqNum + 1 :=
      fun hnonneg => succ64_eq (by omega) (ho key hp)
    simp only [addKey, @TokenSigner.addKey_congr _ _ C succ64 (· + 1) s.signer _ hkey now]
  | tryRotateKey now => rfl
  | importKeys now keys =>
    have hkeys : ∀ pb ∈ keys, succ64 (pb.keySeqNum.getD 0) = pb.keySeqNum.getD 0 + 1 :=
      fun pb hpb => succ64_eq (ho pb hpb).1 (ho pb hpb).2
    simp only [maintenanceWith, @TokenSigner.importKeys_congr _ _ C succ64 (· + 1) s.signer _ hkeys now]

/-- an operation of the usage pattern without imports -/
def NoImport (_ : St C) : Op SK → Prop
  | .importKeys _ _ => False
  | _ => True

/-- without imports, a step uses up at most one number -/
theorem step_next {s t : St C} {o : Op SK} (ho : NoImport s o)
    (hpending : ∀ key ∈ s.pending, key.keySeqNum < s.signer.nextKeySeqNum)
    (hst : (maintenance params known t0).step s o = some t) :
    (∀ key ∈ t.pending, key.keySeqNum < t.signer.nextKeySeqNum) ∧
      t.signer.nextKeySeqNum ≤ s.signer.nextKeySeqNum + 1 := by
  cases o with
  | checkNeedKey now gen =>
    obtain ⟨hnone, ⟨-, rfl⟩ | ⟨-, rfl⟩ | ⟨-, key, rfl⟩⟩ := step_checkNeedKey hst
    · exact ⟨hpending, Int.le_add_one le_rfl⟩
    · exact ⟨fun key hk => (hpending key hk).trans (Int.lt_succ _), le_rfl⟩
    · refine ⟨fun key' hk => ?_, le_rfl⟩
      cases hk
      exact Int.lt_succ _
  | addKey now =>
    obtain ⟨key, hp, ⟨next, ⟨-, hle⟩, rfl⟩ | ⟨-, v, -, rfl⟩⟩ := step_addKey hst
    · have hlt := hpending key hp
      have hmax : max s.signer.nextKeySeqNum (key.keySeqNum + 1) = s.signer.nextKeySeqNum := max_eq_left hlt
      exact ⟨fun _ hk => absurd hk (by simp), (hle.trans hmax.le).trans (Int.le_add_one le_rfl)⟩
    · have hlt := hpending key hp
      have hmax : max s.signer.nextKeySeqNum (key.keySeqNum + 1) = s.signer.nextKeySeqNum := max_eq_left hlt
      exact ⟨fun _ hk => absurd hk (by simp), hmax.le.trans (Int.le_add_one le_rfl)⟩
  | tryRotateKey now =>
    rcases step_tryRotateKey hst with ⟨rfl, -⟩ | ⟨key, next, rest, -, -, rfl⟩ <;>
      exact ⟨hpending, Int.le_add_one le_rfl⟩
  | importKeys now keys => exact absurd ho id

/-- without imports, the limit is not reached in fewer than 2^63 operations -/
theorem belowLimit_of_length {s : St C} {ops : List (Op SK)} (h : QueueInv s)
    (hpending : ∀ key ∈ s.pending, key.keySeqNum < s.signer.nextKeySeqNum)
    (hlen : s.signer.nextKeySeqNum + ops.length < 2 ^ 63)
    (hops : (maintenance64 params known t0).Along NoImport s ops) :
    (maintenance64 params known t0).Along BelowLimit s ops := by
  induction ops generalizing s with
  | nil => exact trivial
  | cons o ops ih =>
    rw [List.length_cons] at hlen
    push_cast at hlen
    have hbelow : BelowLimit s o := by
      cases o with
      | checkNeedKey now gen =>
        intro r hr
        rcases s.signer.reserveKey_cases succ64 now with ⟨-, hc⟩ | ⟨-, hc⟩
        · rw [hc] at hr
          cases hr
        · rw [hc] at hr
          cases hr
          simp only
          omega
      | addKey now =>
        intro key hk
        have hlt := hpending key hk
        omega
      | tryRotateKey now => exact trivial
      | importKeys now keys => exact absurd hops.1 id
    refine ⟨hbelow, fun t hst => ?_⟩
    have hexact := hst
    rw [step_eq s o h hbelow] at hexact
    obtain ⟨hpending', hnext⟩ := step_next hops.1 hpending hexact
    exact ih (step_queueInv s o t h hexact) hpending' (by omega) (hops.2 t hst)

/-- an operation with one key for each number, below the limit -/
def Numbered (known : TokenVerifier C) (s : St C) (o : Op SK) : Prop := OneKeyPerNumber known s o ∧ BelowLimit s o

instance [DecidableEq SK] [DecidableEq PK] (known : TokenVerifier C) (s : St C) (o : Op SK) :
    Decidable (Numbered known s o) := inferInstanceAs (Decidable (_ ∧ _))

/-- without imports, with a verifier that knows no key yet, fewer than 2^63 operations meet both conditions -/
theorem numbered_of_noImport (hknown : ∀ n, known.pbOf n = none) {ops : List (Op SK)} (hlen : ops.length < 2 ^ 63)
    (hops : (maintenance64 params known t0).Along NoImport (maintenance64 params known t0).init ops) :
    (maintenance64 params known t0).Along (Numbered known) (maintenance64 params known t0).init ops := by
  have hone : (maintenance64 params known t0).Along (OneKeyPerNumber known) (maintenance64 params known t0).init ops := by
    refine Machine.along_imp (I := fun _ => True) (fun _ _ _ _ _ _ => trivial) ?_ trivial hops
    intro s o _ ho
    cases o with
    | addKey now =>
      intro key _ pb hpb
      rw [hknown] at hpb
      cases hpb
    | importKeys now keys => exact absurd ho id
    | checkNeedKey now gen => exact trivial
    | tryRotateKey now => exact trivial
  have hstart : (maintenance64 params known t0).init.signer.nextKeySeqNum + ops.length < 2 ^ 63 := by
    change (0 : ℤ) + ops.length < 2 ^ 63
    omega
  exact Machine.along_and hone (belowLimit_of_length queueInv_init (fun _ hk => by cases hk) hstart hops)

/-- a run below the limit does not overflow -/
theorem run_eq {s : St C} {ops : List (Op SK)} (h : QueueInv s)
    (hops : (maintenance64 params known t0).Along (Numbered known) s ops) :
    (maintenance64 params known t0).run s ops = (maintenance params known t0).run s ops ∧
      (maintenance params known t0).Along (OneKeyPerNumber known) s ops := by
  obtain ⟨hrun, halong⟩ := Machine.run_congr (I := QueueInv) (fun s o t hq _ hst => step_queueInv s o t hq hst)
    (fun s o hq ho => step_eq s o hq ho.2) h hops
  exact ⟨hrun, Machine.along_imp (fun s o t hq _ hst => step_queueInv s o t hq hst) (fun _ _ _ ho => ho.1) h halong⟩

/-- **The queue and the verifier agree.** In every run in which a sequence number denotes one key and is below 2^63 - 1, and
in every state of it: the queue has at most two keys, in increasing order, all known to the verifier under their numbers,
so that a signed token names a known key; once there is a key there always is one; and a successful import leaves the
two largest-numbered keys. -/
theorem queue_consistent (params : TokenSignerParams) (known : TokenVerifier C) (t0 : ℤ) (ops : List (Op SK)) (s : St C)
    (hops : (maintenance64 params known t0).Along (Numbered known) (maintenance64 params known t0).init ops)
    (hrun : (maintenance64 params known t0).run (maintenance64 params known t0).init ops = some s) :
    Consistent s.signer ∧
      (s.signer.tskDeque ≠ [] → ∀ more t, (maintenance64 params known t0).Along (Numbered known) s more →
        (maintenance64 params known t0).run s more = some t → t.signer.tskDeque ≠ []) ∧
      ∀ now keys, OneKeyPerNumber known s (.importKeys now keys) → ImportKeepsLargest s.signer now keys := by
  obtain ⟨hsame, halong⟩ := run_eq queueInv_init hops
  have hexact := hsame.symm.trans hrun
  have hq := run_queueInv hexact
  refine ⟨consistent_of_inv hq (run_knownInv halong hexact), ?_, fun now keys ho => import_keeps_largest hq ho⟩
  intro hne more t hmore hr
  obtain ⟨hsame', halong'⟩ := run_eq hq hmore
  exact (Machine.run_inv_along step_nonempty ⟨hq, hne⟩ halong' (hsame'.symm.trans hr)).2

/-! ## Witnesses -/

/-- tokens live 1 s, keys rotate every 2 s -/
def shortParams : TokenSignerParams := .ofNat 1 2

/-- a first key, a second one, an import of keys 5 and 6 (5 expired), a rotation -/
def mixedRun : List (Op UInt8) :=
  [.checkNeedKey 0 (.ok 1), .addKey 0, .checkNeedKey 2 (.ok 2), .tryRotateKey 2, .addKey 2,
    .importKeys 3 [⟨some 6, some [6], some 20⟩, ⟨some 5, some [5], some 3⟩], .tryRotateKey 6]

theorem queue_consistent_mixedRun :
    let m := maintenance64 shortParams (TokenVerifier.empty byteCrypto) 0
    ∃ s, m.run m.init mixedRun = some s ∧ Consistent s.signer ∧
      s.signer.tskDeque.map (fun key => key.keySeqNum) = [6] := by
  refine ⟨_, rfl, ?_, ?_⟩
  · exact (queue_consistent shortParams (TokenVerifier.empty byteCrypto) 0 mixedRun _ (by decide) rfl).1
  · decide

/-- key 2^63 - 1 is imported; it is a rotation interval old at 19 -/
def lastNumber : List (Op UInt8) :=
  [.importKeys 0 [⟨some (2 ^ 63 - 1), some [6], some 20⟩], .checkNeedKey 19 (.ok 7), .addKey 19]

/-- **Out of order.** No number follows 2^63 - 1, so the next key has number 0 and stands behind key 2^63 - 1. -/
theorem queue_out_of_order :
    let m := maintenance64 shortParams (TokenVerifier.empty byteCrypto) 0
    m.Along (OneKeyPerNumber (TokenVerifier.empty byteCrypto)) m.init lastNumber ∧
      ∃ s, m.run m.init lastNumber = some s ∧
        s.signer.tskDeque.map (fun key => key.keySeqNum) = [2 ^ 63 - 1, 0] ∧ ¬ Consistent s.signer := by
  refine ⟨by decide, _, rfl, by decide, fun h => ?_⟩
  have hsorted := h.sorted
  revert hsorted
  decide

end Bboy.Security.Maintenance
