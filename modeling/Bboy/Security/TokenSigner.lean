/-
`TokenSigner` (`security/token_signer.{h,cc}`): the queue of token signing keys, its rotation, and the signing of tokens.

Model: each method is a function of the signer and of what it reads from outside, the wall clock and the outcome of
generating a private key (`gen`). `CheckNeedKey` is split where the source drops the lock: `reserveKey` is its critical
section, `generateSigningKey` runs after it. A `CHECK` that fails is `none`.

Time: `now` is the whole part of a reading, to which the source converts it or which compares in the same way with the
times of keys, integers below 2^53. `GenerateAuthnToken` adds to the reading itself, a double (`WallTime`).

Sequence numbers are values of an `int64_t`. How one is added is a parameter: `succ64` wraps around after 2^63 - 1 and
is what the machine does; `(· + 1)` is the same for all other numbers (`succ64_eq`).

Each method has one lemma that says all it can do (`reserveKey_cases`, `addKey_cases`, `tryRotateKey_cases`,
`importKeys_cases`, `signToken_ok`, `generateAuthnToken_ok`); what follows in other modules is derived from these.

- `importKeys_cases`: the loop of `ImportKeys`, which trims its map to two keys as it goes, and the merge with the queue
  amount to keeping the last two of everything;
- `mergedDeque_isLargest`: with one key for each number, these are the two largest-numbered keys.
-/
import Bboy.Core.Double
import Bboy.Security.TokenVerifier

namespace Bboy.Security

open Core

variable {SK PK : Type} {C : Crypto SK PK}

/-! ## Clock readings and sequence numbers -/

/-- a reading of `WallTime_Now()`, in seconds -/
structure WallTime where
  seconds : ℚ
  isDouble : IsDouble seconds
  nonneg : 0 ≤ seconds

namespace WallTime

/-- the conversion to an `int64_t` -/
def whole (t : WallTime) : ℤ := ⌊t.seconds⌋

def ofNat (seconds : ℕ) (h : seconds < 2 ^ 53) : WallTime where
  seconds := seconds
  isDouble := isDouble_of_lt (n := seconds) (by rw [abs_of_nonneg (Int.natCast_nonneg seconds)]; exact_mod_cast h)
  nonneg := Nat.cast_nonneg seconds

theorem whole_nonneg (t : WallTime) : 0 ≤ t.whole := Int.floor_nonneg.2 t.nonneg

end WallTime

/-- `n + 1` in an `int64_t` -/
def succ64 (n : ℤ) : ℤ := (n + 1).bmod (2 ^ 64)

theorem succ64_eq {n : ℤ} (hlow : -2 ^ 63 ≤ n) (hhigh : n < 2 ^ 63 - 1) : succ64 n = n + 1 :=
  Int.bmod_eq_of_le (by omega) (by omega)

/-- a number below the largest one has a larger one behind it -/
theorem lt_succ64 {n : ℤ} (h : n < 2 ^ 63 - 1) : n < succ64 n := by
  rcases lt_or_ge n (-2 ^ 63) with hlow | hlow
  · have hmin : -(2 ^ 64 / 2) ≤ succ64 n := Int.le_bmod (by decide)
    omega
  · rw [succ64_eq hlow h]
    exact Int.lt_succ n

/-! ## Model -/

/-- the constructor's parameters, with its `CHECK_GE`s -/
structure TokenSignerParams where
  authnTokenValiditySeconds : ℤ
  keyRotationSeconds : ℤ
  rotation_nonneg : 0 ≤ keyRotationSeconds
  validity_nonneg : 0 ≤ authnTokenValiditySeconds

namespace TokenSignerParams

def ofNat (authnTokenValiditySeconds keyRotationSeconds : ℕ) : TokenSignerParams :=
  ⟨authnTokenValiditySeconds, keyRotationSeconds, Int.natCast_nonneg _, Int.natCast_nonneg _⟩

def keyValiditySeconds (p : TokenSignerParams) : ℤ := p.keyRotationSeconds + p.authnTokenValiditySeconds

/-- `key_creation_time` of `CheckNeedKey` and `TryRotateKey` -/
def keyCreationTime (p : TokenSignerParams) (key : TokenSigningPrivateKey C) : ℤ := key.expireTime - p.keyValiditySeconds

/-- `WallTime_Now() + authn_token_validity_seconds_`, a sum of doubles that is converted to an `int64_t` -/
def tokenExpiration (p : TokenSignerParams) (now : WallTime) : ℤ :=
  ⌊roundDouble (now.seconds + roundDouble p.authnTokenValiditySeconds)⌋

end TokenSignerParams

structure TokenSigner (C : Crypto SK PK) where
  params : TokenSignerParams
  verifier : TokenVerifier C
  nextKeySeqNum : ℤ
  /-- the active key is in front -/
  tskDeque : List (TokenSigningPrivateKey C)

/-- the locals of `ImportKeys`, with the member it advances in the loop -/
structure ImportState (C : Crypto SK PK) where
  nextKeySeqNum : ℤ
  tskBySeq : OrdMap ℤ (TokenSigningPrivateKey C)
  publicKeysPb : List TokenSigningPublicKeyPB

/-- the `CHECK`s on one imported message and the construction of its key -/
def checkedKey (C : Crypto SK PK) (pb : TokenSigningPrivateKeyPB) : Option (TokenSigningPrivateKey C) :=
  if pb.keySeqNum.isNone ∨ pb.expireUnixEpochSeconds.isNone ∨ pb.rsaKeyDer.isNone then none
  else TokenSigningPrivateKey.ofPB C pb

variable (succ : ℤ → ℤ)

/-- one round of the loop of `ImportKeys`, after the `CHECK`s -/
def importKey (now : ℤ) (st : ImportState C) (tsk : TokenSigningPrivateKey C) : ImportState C :=
  if tsk.expireTime ≤ now then { st with nextKeySeqNum := max st.nextKeySeqNum (succ tsk.keySeqNum) }
  else
    let tskBySeq := st.tskBySeq.assign tsk.keySeqNum tsk
    { nextKeySeqNum := max st.nextKeySeqNum (succ tsk.keySeqNum)
      publicKeysPb := st.publicKeysPb ++ [tsk.exportPublicKeyPB]
      tskBySeq := if 2 < tskBySeq.size then tskBySeq.eraseBegin else tskBySeq }

def importLoop (now : ℤ) : ImportState C → List TokenSigningPrivateKeyPB → Option (ImportState C)
  | st, [] => some st
  | st, pb :: pbs =>
    match checkedKey C pb with
    | none => none
    | some tsk => importLoop now (importKey succ now st tsk) pbs

/-- `while (deque.size() > n) deque.pop_front()` -/
def popFrontWhile {α : Type} (n : ℕ) : List α → List α
  | [] => []
  | x :: l => if n < (x :: l).length then popFrontWhile n l else x :: l

/-- `GenerateSigningKey`, given the outcome of `GeneratePrivateKey` -/
def generateSigningKey (C : Crypto SK PK) (keySeqNum keyExpiration : ℤ) (gen : Except BadStatus SK) :
    Except BadStatus (TokenSigningPrivateKey C) :=
  match gen with
  | .error e => .error (e.cloneAndPrepend "could not generate new RSA token-signing key")
  | .ok key => .ok (TokenSigningPrivateKey.ofKey C keySeqNum keyExpiration key)

namespace TokenSigner

def new (params : TokenSignerParams) (verifier : TokenVerifier C) : TokenSigner C := ⟨params, verifier, 0, []⟩

variable (succ : ℤ → ℤ)

def importKeys (s : TokenSigner C) (now : ℤ) (keys : List TokenSigningPrivateKeyPB) : Option (Status × TokenSigner C) :=
  match importLoop succ now ⟨s.nextKeySeqNum, OrdMap.empty, []⟩ keys with
  | none => none
  | some st =>
    match s.verifier.importKeys st.publicKeysPb with
    | (.bad e, v) => some (.bad e, { s with nextKeySeqNum := st.nextKeySeqNum, verifier := v })
    | (.ok, v) =>
      let tskBySeq := s.tskDeque.foldl (fun m e => m.assign e.keySeqNum e) st.tskBySeq
      some (.ok, { s with
        nextKeySeqNum := st.nextKeySeqNum
        verifier := v
        tskDeque := popFrontWhile 2 tskBySeq.values })

/-- the critical section of `CheckNeedKey`: the number and the expiration time of the key to generate, if one is needed -/
def reserveKey (s : TokenSigner C) (now : ℤ) : Option (ℤ × ℤ) × TokenSigner C :=
  match s.tskDeque with
  | [] =>
    (some (s.nextKeySeqNum, now + s.params.keyValiditySeconds), { s with nextKeySeqNum := succ s.nextKeySeqNum })
  | [key] =>
    if s.params.keyCreationTime key + s.params.keyRotationSeconds ≤ now then
      (some (s.nextKeySeqNum, now + s.params.keyValiditySeconds), { s with nextKeySeqNum := succ s.nextKeySeqNum })
    else (none, s)
  | _ :: _ :: _ => (none, s)

def checkNeedKey (s : TokenSigner C) (now : ℤ) (gen : Except BadStatus SK) :
    Except BadStatus (Option (TokenSigningPrivateKey C)) × TokenSigner C :=
  match s.reserveKey succ now with
  | (none, s) => (.ok none, s)
  | (some (keySeqNum, keyExpiration), s) => ((generateSigningKey C keySeqNum keyExpiration gen).map some, s)

def addKey (s : TokenSigner C) (now : ℤ) (tsk : TokenSigningPrivateKey C) : Status × TokenSigner C :=
  if tsk.keySeqNum < 0 then (.bad (.invalidArgument "invalid key sequence number"), s)
  else if tsk.expireTime ≤ now then (.bad (.invalidArgument "key has already expired"), s)
  else
    match s.verifier.importKeys [tsk.exportPublicKeyPB] with
    | (.bad e, v) =>
      (.bad e, { s with nextKeySeqNum := max s.nextKeySeqNum (succ tsk.keySeqNum), verifier := v })
    | (.ok, v) =>
      (.ok, { s with
        nextKeySeqNum := max s.nextKeySeqNum (succ tsk.keySeqNum)
        verifier := v
        tskDeque := s.tskDeque ++ [tsk] })

/-- `has_rotated` and the signer; the status is always OK -/
def tryRotateKey (s : TokenSigner C) (now : ℤ) : Bool × TokenSigner C :=
  match s.tskDeque with
  | key :: next :: rest =>
    if s.params.keyCreationTime key + 2 * s.params.keyRotationSeconds ≤ now then
      (true, { s with tskDeque := next :: rest })
    else (false, s)
  | _ => (false, s)

def signToken (s : TokenSigner C) (token : SignedTokenPB) : Except BadStatus SignedTokenPB :=
  match s.tskDeque with
  | [] => .error (.illegalState "no token signing key")
  | key :: _ =>
    match key.sign token with
    | .error e => .error (e.cloneAndPrepend "could not sign authn token")
    | .ok token => .ok token

def generateAuthnToken (E : TokenCodec) (s : TokenSigner C) (now : WallTime) (username : String) :
    Except BadStatus SignedTokenPB :=
  if username = "" then .error (.invalidArgument "no username provided for authn token")
  else
    match E.serialize ⟨some (s.params.tokenExpiration now), [], .authn (some username)⟩ with
    | none => .error (.runtimeError "could not serialize authn token")
    | some data => s.signToken ⟨some data, none, none⟩

end TokenSigner

/-! ## `ImportKeys` -/

theorem popFrontWhile_eq_drop {α : Type} (n : ℕ) (l : List α) : popFrontWhile n l = l.drop (l.length - n) := by
  induction l with
  | nil => simp [popFrontWhile]
  | cons x l ih =>
    rw [popFrontWhile]
    split_ifs with h
    · rw [ih, OrdMap.drop_cons_of_le (Nat.lt_succ_iff.1 h)]
    · rw [Nat.sub_eq_zero_of_le (not_lt.1 h), List.drop_zero]

/-- the imported keys, if all of them pass the `CHECK`s -/
def checkedKeys (C : Crypto SK PK) : List TokenSigningPrivateKeyPB → Option (List (TokenSigningPrivateKey C))
  | [] => some []
  | pb :: pbs =>
    match checkedKey C pb with
    | none => none
    | some tsk => (checkedKeys C pbs).map fun tsks => tsk :: tsks

/-- the keys have the numbers of the messages -/
theorem checkedKeys_numbers {keys : List TokenSigningPrivateKeyPB} {tsks : List (TokenSigningPrivateKey C)}
    (h : checkedKeys C keys = some tsks) :
    (keys.map fun pb => pb.keySeqNum.getD 0) = tsks.map fun tsk => tsk.keySeqNum := by
  induction keys generalizing tsks with
  | nil =>
    cases h
    rfl
  | cons pb keys ih =>
    simp only [checkedKeys] at h
    cases hc : checkedKey C pb with
    | none => simp [hc] at h
    | some tsk =>
      simp only [hc, Option.map_eq_some_iff] at h
      obtain ⟨tsks', hk, rfl⟩ := h
      have hn : tsk.keySeqNum = pb.keySeqNum.getD 0 := by
        unfold checkedKey TokenSigningPrivateKey.ofPB at hc
        split_ifs at hc
        split at hc
        · cases hc
        · cases hc
          rfl
      rw [List.map_cons, List.map_cons, ih hk, hn]

def unexpired (now : ℤ) (tsks : List (TokenSigningPrivateKey C)) : List (TokenSigningPrivateKey C) :=
  tsks.filter fun tsk => now < tsk.expireTime

/-- a key with its number, as an entry of `tsk_by_seq` -/
def numbered (tsks : List (TokenSigningPrivateKey C)) : List (ℤ × TokenSigningPrivateKey C) :=
  tsks.map fun tsk => (tsk.keySeqNum, tsk)

theorem mem_numbered {tsks : List (TokenSigningPrivateKey C)} {e : ℤ × TokenSigningPrivateKey C} :
    e ∈ numbered tsks ↔ e.2 ∈ tsks ∧ e.2.keySeqNum = e.1 := by
  obtain ⟨n, tsk⟩ := e
  simp only [numbered, List.mem_map, Prod.mk.injEq]
  constructor
  · rintro ⟨k, hk, rfl, rfl⟩
    exact ⟨hk, rfl⟩
  · intro ⟨hk, hn⟩
    exact ⟨tsk, hk, hn, rfl⟩

theorem mem_unexpired {now : ℤ} {tsks : List (TokenSigningPrivateKey C)} {tsk : TokenSigningPrivateKey C} :
    tsk ∈ unexpired now tsks ↔ tsk ∈ tsks ∧ now < tsk.expireTime := by
  simp [unexpired]

theorem foldl_assign (m : OrdMap ℤ (TokenSigningPrivateKey C)) (tsks : List (TokenSigningPrivateKey C)) :
    tsks.foldl (fun m e => m.assign e.keySeqNum e) m = m.assignAll (numbered tsks) := by
  rw [OrdMap.assignAll, numbered, List.foldl_map]

variable {succ : ℤ → ℤ}

theorem importLoop_eq (now : ℤ) (st : ImportState C) (keys : List TokenSigningPrivateKeyPB) :
    importLoop succ now st keys = (checkedKeys C keys).map fun tsks => tsks.foldl (importKey succ now) st := by
  induction keys generalizing st with
  | nil => rfl
  | cons pb keys ih =>
    rw [importLoop, checkedKeys]
    cases checkedKey C pb with
    | none => rfl
    | some tsk =>
      simp only [ih, Option.map_map]
      rfl

theorem importKey_expired {now : ℤ} {tsk : TokenSigningPrivateKey C} (h : tsk.expireTime ≤ now) (st : ImportState C) :
    importKey succ now st tsk = { st with nextKeySeqNum := max st.nextKeySeqNum (succ tsk.keySeqNum) } := if_pos h

/-- the map and the messages after the loop depend on the unexpired keys only, in order -/
theorem foldl_importKey (now : ℤ) (tsks : List (TokenSigningPrivateKey C)) (st : ImportState C)
    (m : OrdMap ℤ (TokenSigningPrivateKey C)) (hm : st.tskBySeq = m.keepLast 2) :
    (tsks.foldl (importKey succ now) st).tskBySeq = (m.assignAll (numbered (unexpired now tsks))).keepLast 2 ∧
      (tsks.foldl (importKey succ now) st).publicKeysPb =
        st.publicKeysPb ++ (unexpired now tsks).map fun tsk => tsk.exportPublicKeyPB := by
  induction tsks generalizing st m with
  | nil => exact ⟨hm, by simp [unexpired]⟩
  | cons tsk tsks ih =>
    rw [List.foldl_cons]
    by_cases h : tsk.expireTime ≤ now
    · have hf : unexpired now (tsk :: tsks) = unexpired now tsks := List.filter_cons_of_neg (by simpa using h)
      rw [importKey_expired h, hf]
      exact ih _ m hm
    · have hf : unexpired now (tsk :: tsks) = tsk :: unexpired now tsks :=
        List.filter_cons_of_pos (by simpa using not_le.1 h)
      have hmap : (importKey succ now st tsk).tskBySeq = (m.assign tsk.keySeqNum tsk).keepLast 2 := by
        rw [importKey, if_neg h, hm]
        exact (OrdMap.eraseBegin_eq_keepLast ((OrdMap.size_upsert_le _ _ _).trans
          (Nat.succ_le_succ (OrdMap.size_keepLast m 2)))).trans (OrdMap.keepLast_assign_keepLast m 2 _ _)
      have hpbs : (importKey succ now st tsk).publicKeysPb = st.publicKeysPb ++ [tsk.exportPublicKeyPB] := by
        rw [importKey, if_neg h]
      obtain ⟨h1, h2⟩ := ih (importKey succ now st tsk) _ hmap
      refine ⟨?_, ?_⟩
      · rw [h1, hf]
        rfl
      · rw [h2, hpbs, hf, List.map_cons, List.append_assoc, List.singleton_append]

/-- the next number after the loop: the largest of the old one and those that follow an imported one -/
theorem foldl_importKey_next (now : ℤ) (tsks : List (TokenSigningPrivateKey C)) (st : ImportState C) :
    st.nextKeySeqNum ≤ (tsks.foldl (importKey succ now) st).nextKeySeqNum ∧
      (∀ tsk ∈ tsks, succ tsk.keySeqNum ≤ (tsks.foldl (importKey succ now) st).nextKeySeqNum) ∧
      ((tsks.foldl (importKey succ now) st).nextKeySeqNum = st.nextKeySeqNum ∨
        ∃ tsk ∈ tsks, (tsks.foldl (importKey succ now) st).nextKeySeqNum = succ tsk.keySeqNum) := by
  induction tsks generalizing st with
  | nil => exact ⟨le_rfl, fun _ h => absurd h List.not_mem_nil, Or.inl rfl⟩
  | cons tsk tsks ih =>
    have hn : (importKey succ now st tsk).nextKeySeqNum = max st.nextKeySeqNum (succ tsk.keySeqNum) := by
      unfold importKey
      split_ifs <;> rfl
    obtain ⟨h1, h2, h3⟩ := ih (importKey succ now st tsk)
    rw [hn] at h1 h3
    rw [List.foldl_cons]
    refine ⟨(le_max_left _ _).trans h1, fun k hk => ?_, ?_⟩
    · rcases List.mem_cons.1 hk with rfl | hk
      · exact (le_max_right _ _).trans h1
      · exact h2 k hk
    · rcases h3 with h3 | ⟨k, hk, h3⟩
      · rcases max_choice st.nextKeySeqNum (succ tsk.keySeqNum) with hc | hc
        · exact Or.inl (h3.trans hc)
        · exact Or.inr ⟨tsk, List.mem_cons_self, h3.trans hc⟩
      · exact Or.inr ⟨k, List.mem_cons_of_mem tsk hk, h3⟩

namespace TokenSigner

/-- the queue after a successful import: the last two of the queue and the unexpired keys together -/
def mergedDeque (s : TokenSigner C) (now : ℤ) (tsks : List (TokenSigningPrivateKey C)) :
    OrdMap ℤ (TokenSigningPrivateKey C) :=
  (((OrdMap.empty.assignAll (numbered (unexpired now tsks))).assignAll (numbered s.tskDeque))).keepLast 2

/-- all that `ImportKeys` can do: fail a `CHECK`; advance the next number and report the verifier's error; or advance it,
register the unexpired keys with the verifier and merge them into the queue -/
theorem importKeys_cases (succ : ℤ → ℤ) (s : TokenSigner C) (now : ℤ) (keys : List TokenSigningPrivateKeyPB) :
    s.importKeys succ now keys = none ∨
      ∃ tsks next, checkedKeys C keys = some tsks ∧ s.nextKeySeqNum ≤ next ∧
        (∀ tsk ∈ tsks, succ tsk.keySeqNum ≤ next) ∧
        (next = s.nextKeySeqNum ∨ ∃ tsk ∈ tsks, next = succ tsk.keySeqNum) ∧
        ((∃ e, s.importKeys succ now keys = some (.bad e, { s with nextKeySeqNum := next })) ∨
          ∃ v, s.verifier.importKeys ((unexpired now tsks).map fun tsk => tsk.exportPublicKeyPB) = (.ok, v) ∧
            s.importKeys succ now keys = some (.ok, { s with
              nextKeySeqNum := next
              verifier := v
              tskDeque := (s.mergedDeque now tsks).values })) := by
  unfold importKeys
  rw [importLoop_eq]
  cases hc : checkedKeys C keys with
  | none => exact Or.inl rfl
  | some tsks =>
    right
    obtain ⟨hmap, hpbs⟩ := @foldl_importKey _ _ C succ now tsks ⟨s.nextKeySeqNum, OrdMap.empty, []⟩ OrdMap.empty rfl
    obtain ⟨h1, h2, h3⟩ := @foldl_importKey_next _ _ C succ now tsks ⟨s.nextKeySeqNum, OrdMap.empty, []⟩
    refine ⟨tsks, _, rfl, h1, h2, h3, ?_⟩
    simp only [Option.map_some]
    rw [hpbs, List.nil_append]
    rcases TokenVerifier.importKeys_cases s.verifier ((unexpired now tsks).map fun tsk => tsk.exportPublicKeyPB) with
      ⟨-, e, he⟩ | ⟨-, v, hv, -⟩
    · rw [he]
      exact Or.inl ⟨e, rfl⟩
    · rw [hv]
      refine Or.inr ⟨v, rfl, ?_⟩
      have hd : ∀ m : OrdMap ℤ (TokenSigningPrivateKey C),
          m = (OrdMap.empty.assignAll (numbered (unexpired now tsks))).keepLast 2 →
            popFrontWhile 2 (s.tskDeque.foldl (fun m e => m.assign e.keySeqNum e) m).values =
              (s.mergedDeque now tsks).values := by
        rintro m rfl
        rw [popFrontWhile_eq_drop, foldl_assign, ← OrdMap.values_keepLast, OrdMap.keepLast_assignAll, mergedDeque]
      simp only [hd _ hmap]

/-- before the trim: every entry is a key of the queue or an unexpired imported one, under its own number -/
theorem mem_merged {s : TokenSigner C} {now : ℤ} {tsks : List (TokenSigningPrivateKey C)}
    {e : ℤ × TokenSigningPrivateKey C}
    (h : e ∈ ((OrdMap.empty.assignAll (numbered (unexpired now tsks))).assignAll (numbered s.tskDeque)).entries) :
    (e.2 ∈ s.tskDeque ∨ e.2 ∈ unexpired now tsks) ∧ e.2.keySeqNum = e.1 := by
  rcases OrdMap.mem_of_mem_assignAll h with h | h
  · exact ⟨Or.inl (mem_numbered.1 h).1, (mem_numbered.1 h).2⟩
  · rcases OrdMap.mem_of_mem_assignAll h with h | h
    · exact ⟨Or.inr (mem_numbered.1 h).1, (mem_numbered.1 h).2⟩
    · exact absurd h List.not_mem_nil

/-- the trim keeps the largest-numbered entries of the merged map -/
theorem mergedDeque_values (s : TokenSigner C) (now : ℤ) (tsks : List (TokenSigningPrivateKey C)) :
    IsLargest 2 TokenSigningPrivateKey.keySeqNum {x | ∃ n, (n, x) ∈
      ((OrdMap.empty.assignAll (numbered (unexpired now tsks))).assignAll (numbered s.tskDeque)).entries}
      (s.mergedDeque now tsks).values := by
  apply OrdMap.keepLast_isLargest
  intro e he
  exact (mem_merged he).2

theorem mergedDeque_sorted (s : TokenSigner C) (now : ℤ) (tsks : List (TokenSigningPrivateKey C)) :
    (s.mergedDeque now tsks).values.Pairwise (fun x y => x.keySeqNum < y.keySeqNum) ∧
      (s.mergedDeque now tsks).values.length ≤ 2 ∧
      ∀ x ∈ (s.mergedDeque now tsks).values, x ∈ s.tskDeque ∨ x ∈ unexpired now tsks := by
  have h := s.mergedDeque_values now tsks
  refine ⟨h.sorted, h.size, fun x hx => ?_⟩
  obtain ⟨n, hn⟩ := h.sub x hx
  exact (mem_merged hn).1

/-- with one key for each number, the merge keeps the two largest-numbered of the queue and the unexpired keys -/
theorem mergedDeque_isLargest {s : TokenSigner C} (now : ℤ) {tsks : List (TokenSigningPrivateKey C)}
    (huniq : ∀ x ∈ tsks, (∀ y ∈ tsks, y.keySeqNum = x.keySeqNum → y = x) ∧
      ∀ y ∈ s.tskDeque, y.keySeqNum = x.keySeqNum → y = x)
    (hdeque : ∀ x ∈ s.tskDeque, ∀ y ∈ s.tskDeque, y.keySeqNum = x.keySeqNum → y = x) :
    IsLargest 2 TokenSigningPrivateKey.keySeqNum {x | x ∈ s.tskDeque ∨ x ∈ tsks ∧ now < x.expireTime}
      (s.mergedDeque now tsks).values := by
  have hset : {x | x ∈ s.tskDeque ∨ x ∈ tsks ∧ now < x.expireTime} = {x | ∃ n, (n, x) ∈
      ((OrdMap.empty.assignAll (numbered (unexpired now tsks))).assignAll (numbered s.tskDeque)).entries} := by
    apply Set.ext
    intro x
    constructor
    · intro hx
      refine ⟨x.keySeqNum, OrdMap.mem_assignAll ?_ ?_⟩
      · rcases hx with hx | hx
        · exact Or.inl (mem_numbered.2 ⟨hx, rfl⟩)
        · refine Or.inr (OrdMap.mem_assignAll (Or.inl (mem_numbered.2 ⟨mem_unexpired.2 hx, rfl⟩)) ?_)
          intro d hd hn
          obtain ⟨hd, hd'⟩ := mem_numbered.1 hd
          exact (huniq x hx.1).1 d.2 (mem_unexpired.1 hd).1 (hd'.trans hn)
      · intro d hd hn
        obtain ⟨hd, hd'⟩ := mem_numbered.1 hd
        rcases hx with hx | hx
        · exact hdeque x hx d.2 hd (hd'.trans hn)
        · exact (huniq x hx.1).2 d.2 hd (hd'.trans hn)
    · intro ⟨n, hn⟩
      exact (mem_merged hn).1.imp id mem_unexpired.1
  rw [hset]
  exact s.mergedDeque_values now tsks

/-! ## `CheckNeedKey`, `AddKey`, `TryRotateKey` -/

/-- the signer after `next_key_seq_num_++` -/
def reserved (succ : ℤ → ℤ) (s : TokenSigner C) : TokenSigner C := { s with nextKeySeqNum := succ s.nextKeySeqNum }

/-- the queue asks for a new key at `now`: it is empty, or its one key is a rotation interval old -/
def NeedsKey (s : TokenSigner C) (now : ℤ) : Prop :=
  s.tskDeque = [] ∨
    ∃ key, s.tskDeque = [key] ∧ s.params.keyCreationTime key + s.params.keyRotationSeconds ≤ now

/-- all that the critical section of `CheckNeedKey` can do -/
theorem reserveKey_cases (succ : ℤ → ℤ) (s : TokenSigner C) (now : ℤ) :
    (¬ s.NeedsKey now ∧ s.reserveKey succ now = (none, s)) ∨
      (s.NeedsKey now ∧
        s.reserveKey succ now = (some (s.nextKeySeqNum, now + s.params.keyValiditySeconds), s.reserved succ)) := by
  unfold reserveKey NeedsKey
  split
  · rename_i h
    exact Or.inr ⟨Or.inl h, rfl⟩
  · rename_i key h
    split_ifs with hage
    · exact Or.inr ⟨Or.inr ⟨key, h, hage⟩, rfl⟩
    · left
      refine ⟨?_, rfl⟩
      rintro (h' | ⟨key', h', hage'⟩)
      · rw [h] at h'
        cases h'
      · rw [h] at h'
        cases h'
        exact hage hage'
  · rename_i h
    left
    refine ⟨?_, rfl⟩
    rintro (h' | ⟨key', h', -⟩) <;> rw [h] at h' <;> cases h'

theorem NeedsKey.length_le {s : TokenSigner C} {now : ℤ} (h : s.NeedsKey now) : s.tskDeque.length ≤ 1 := by
  rcases h with h | ⟨key, h, -⟩ <;> simp [h]

/-- all that `CheckNeedKey` can do: need no key, fail to generate one (the number is used up), or generate one -/
theorem checkNeedKey_cases (succ : ℤ → ℤ) (s : TokenSigner C) (now : ℤ) (gen : Except BadStatus SK) :
    (¬ s.NeedsKey now ∧ s.checkNeedKey succ now gen = (.ok none, s)) ∨
      (s.NeedsKey now ∧ ∃ e e', gen = .error e' ∧ s.checkNeedKey succ now gen = (.error e, s.reserved succ)) ∨
      (s.NeedsKey now ∧ ∃ key, gen = .ok key ∧
        s.checkNeedKey succ now gen =
          (.ok (some (.ofKey C s.nextKeySeqNum (now + s.params.keyValiditySeconds) key)), s.reserved succ)) := by
  unfold checkNeedKey
  rcases s.reserveKey_cases succ now with ⟨hn, h⟩ | ⟨hn, h⟩
  · rw [h]
    exact Or.inl ⟨hn, rfl⟩
  · rw [h]
    right
    cases gen with
    | error e => exact Or.inl ⟨hn, _, e, rfl, rfl⟩
    | ok key => exact Or.inr ⟨hn, key, rfl, rfl⟩

/-- all that `AddKey` can do: reject the key, fail at the verifier, or append it -/
theorem addKey_cases (succ : ℤ → ℤ) (s : TokenSigner C) (now : ℤ) (tsk : TokenSigningPrivateKey C) :
    (∃ e, s.addKey succ now tsk = (.bad e, s) ∧ (tsk.keySeqNum < 0 ∨ tsk.expireTime ≤ now)) ∨
      (∃ e, s.addKey succ now tsk = (.bad e, { s with nextKeySeqNum := max s.nextKeySeqNum (succ tsk.keySeqNum) }) ∧
        0 ≤ tsk.keySeqNum ∧ now < tsk.expireTime ∧ ¬ TokenVerifier.Valid C tsk.exportPublicKeyPB) ∨
      (0 ≤ tsk.keySeqNum ∧ now < tsk.expireTime ∧
        ∃ v, s.verifier.importKeys [tsk.exportPublicKeyPB] = (.ok, v) ∧
          s.addKey succ now tsk = (.ok, { s with
            nextKeySeqNum := max s.nextKeySeqNum (succ tsk.keySeqNum)
            verifier := v
            tskDeque := s.tskDeque ++ [tsk] })) := by
  unfold addKey
  split_ifs with h1 h2
  · exact Or.inl ⟨_, rfl, Or.inl h1⟩
  · exact Or.inl ⟨_, rfl, Or.inr h2⟩
  · right
    rcases TokenVerifier.importKeys_cases s.verifier [tsk.exportPublicKeyPB] with ⟨hv, e, he⟩ | ⟨-, v, hv, -⟩
    · rw [he]
      exact Or.inl ⟨e, rfl, not_lt.1 h1, not_le.1 h2, by simpa using hv⟩
    · rw [hv]
      exact Or.inr ⟨not_lt.1 h1, not_le.1 h2, v, rfl, rfl⟩

/-- all that `TryRotateKey` can do: nothing, or drop a front key that is two rotation intervals old -/
theorem tryRotateKey_cases (s : TokenSigner C) (now : ℤ) :
    (s.tryRotateKey now = (false, s) ∧ ∀ key next rest, s.tskDeque = key :: next :: rest →
        now < s.params.keyCreationTime key + 2 * s.params.keyRotationSeconds) ∨
      ∃ key next rest, s.tskDeque = key :: next :: rest ∧
        s.params.keyCreationTime key + 2 * s.params.keyRotationSeconds ≤ now ∧
        s.tryRotateKey now = (true, { s with tskDeque := next :: rest }) := by
  unfold tryRotateKey
  split
  · rename_i key next rest h
    split_ifs with hage
    · exact Or.inr ⟨key, next, rest, h, hage, rfl⟩
    · refine Or.inl ⟨rfl, fun key' next' rest' h' => ?_⟩
      rw [h] at h'
      cases h'
      exact not_le.1 hage
  · rename_i h
    exact Or.inl ⟨rfl, fun key next rest h' => absurd h' (h key next rest)⟩

/-! ## Adding one to a number

The methods do the same with two ways to count that agree on the numbers that they count from.
-/

variable {succ' : ℤ → ℤ}

theorem foldl_importKey_congr {tsks : List (TokenSigningPrivateKey C)}
    (h : ∀ tsk ∈ tsks, succ tsk.keySeqNum = succ' tsk.keySeqNum) (now : ℤ) (st : ImportState C) :
    tsks.foldl (importKey succ now) st = tsks.foldl (importKey succ' now) st := by
  induction tsks generalizing st with
  | nil => rfl
  | cons tsk tsks ih =>
    have hround : importKey succ now st tsk = importKey succ' now st tsk := by
      simp only [importKey, h tsk List.mem_cons_self]
    rw [List.foldl_cons, List.foldl_cons, hround]
    exact ih (fun x hx => h x (List.mem_cons_of_mem tsk hx)) _

theorem importKeys_congr (s : TokenSigner C) {keys : List TokenSigningPrivateKeyPB}
    (h : ∀ pb ∈ keys, succ (pb.keySeqNum.getD 0) = succ' (pb.keySeqNum.getD 0)) (now : ℤ) :
    s.importKeys succ now keys = s.importKeys succ' now keys := by
  rw [importKeys, importKeys, importLoop_eq, importLoop_eq]
  cases hc : checkedKeys C keys with
  | none => rfl
  | some tsks =>
    have hnumbers : ∀ tsk ∈ tsks, succ tsk.keySeqNum = succ' tsk.keySeqNum := by
      intro tsk htsk
      have hmem : tsk.keySeqNum ∈ keys.map fun pb => pb.keySeqNum.getD 0 := by
        rw [checkedKeys_numbers hc]
        exact List.mem_map_of_mem htsk
      obtain ⟨pb, hpb, heq⟩ := List.mem_map.1 hmem
      rw [← heq]
      exact h pb hpb
    rw [Option.map_some, Option.map_some, foldl_importKey_congr hnumbers]

theorem checkNeedKey_congr {s : TokenSigner C} {now : ℤ}
    (h : s.NeedsKey now → succ s.nextKeySeqNum = succ' s.nextKeySeqNum) (gen : Except BadStatus SK) :
    s.checkNeedKey succ now gen = s.checkNeedKey succ' now gen := by
  have hreserve : s.reserveKey succ now = s.reserveKey succ' now := by
    rcases s.reserveKey_cases succ now with ⟨hn, hr⟩ | ⟨hn, hr⟩
    · rw [hr, ((s.reserveKey_cases succ' now).resolve_right fun h' => hn h'.1).2]
    · rw [hr, ((s.reserveKey_cases succ' now).resolve_left fun h' => h'.1 hn).2, reserved, reserved, h hn]
  rw [checkNeedKey, checkNeedKey, hreserve]

theorem addKey_congr (s : TokenSigner C) {tsk : TokenSigningPrivateKey C}
    (h : 0 ≤ tsk.keySeqNum → succ tsk.keySeqNum = succ' tsk.keySeqNum) (now : ℤ) :
    s.addKey succ now tsk = s.addKey succ' now tsk := by
  unfold addKey
  split_ifs with hneg
  · rfl
  · rfl
  · rw [h (not_lt.1 hneg)]

/-! ## Signing -/

theorem signToken_ok {s : TokenSigner C} {token token' : SignedTokenPB} (h : s.signToken token = .ok token') :
    ∃ key rest, s.tskDeque = key :: rest ∧ key.sign token = .ok token' := by
  unfold signToken at h
  split at h
  · cases h
  · rename_i key rest hd
    split at h
    · cases h
    · rename_i token'' hs
      cases h
      exact ⟨key, rest, hd, hs⟩

theorem generateAuthnToken_ok {E : TokenCodec} {s : TokenSigner C} {now : WallTime} {username : String}
    {token : SignedTokenPB} (h : s.generateAuthnToken E now username = .ok token) :
    ∃ data, E.serialize ⟨some (s.params.tokenExpiration now), [], .authn (some username)⟩ = some data ∧
      s.signToken ⟨some data, none, none⟩ = .ok token := by
  unfold generateAuthnToken at h
  split_ifs at h
  split at h
  · cases h
  · rename_i data hd
    exact ⟨data, hd, h⟩

end TokenSigner

end Bboy.Security
