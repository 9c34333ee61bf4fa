/-
`TokenVerifier` (`security/token_verifier.{h,cc}`): the public keys a server knows, by sequence number, and the check of
a signed token against them.

Model: `importKeys` (all keys are checked and parsed before the first one is inserted, and the insertion is
`map::emplace`), `exportKeys`, `getMaxKnownKeySequenceNumber` and `verifyTokenSignature` as the source has them. `now` is
the wall clock in whole seconds: every comparison with it has an integer on the other side. A verifier carries that each
key is filed under its own number.

Results:
- `importKeys_ok`: after a successful import, a known number keeps its key and a new one has the first listed;
- `importKeys_replaces_iff`: the header's "they are replaced by the new keys", and that a failed import changes nothing,
  hold of exactly those calls whose list is invalid or names, under each number, what the code keeps anyway;
- `verify_known`: what a verifier that knows the signing key answers to an unexpired token;
- `Extends`: no operation ever drops or changes a known key.
Witness: `import_keeps_stale_key` (a second import under a known number returns OK and leaves the old key).
-/
import Bboy.Core.OrdMap
import Bboy.Security.TokenSigningKey

namespace Bboy.Security

open Core

variable {SK PK : Type} {C : Crypto SK PK}

/-! ## Model -/

inductive VerificationResult where
  | valid
  | invalidToken
  | invalidSignature
  | expiredToken
  | expiredSigningKey
  | unknownSigningKey
  | incompatibleFeature
deriving DecidableEq, Repr

structure TokenVerifier (C : Crypto SK PK) where
  keysBySeq : OrdMap ℤ (TokenSigningPublicKey C)
  filed : ∀ e ∈ keysBySeq.entries, e.2.pb.seqNum = e.1

/-- the first loop of `ImportKeys`, one key -/
def checkKey (C : Crypto SK PK) (pb : TokenSigningPublicKeyPB) : Except BadStatus (TokenSigningPublicKey C) :=
  if pb.rsaKeyDer.isNone then
    .error (.runtimeError "token-signing public key message must include the signing key")
  else if pb.keySeqNum.isNone then
    .error (.runtimeError "token-signing public key message must include the signing key sequence number")
  else if pb.expireUnixEpochSeconds.isNone then
    .error (.runtimeError "token-signing public key message must include an expiration time")
  else TokenSigningPublicKey.init C pb

def checkKeys (C : Crypto SK PK) : List TokenSigningPublicKeyPB → Except BadStatus (List (TokenSigningPublicKey C))
  | [] => .ok []
  | pb :: pbs =>
    match checkKey C pb with
    | .error e => .error e
    | .ok tsk =>
      match checkKeys C pbs with
      | .error e => .error e
      | .ok tsks => .ok (tsk :: tsks)

namespace TokenVerifier

def empty (C : Crypto SK PK) : TokenVerifier C := ⟨OrdMap.empty, fun _ he => absurd he List.not_mem_nil⟩

/-- the second loop of `ImportKeys`, one key -/
def emplaceKey (v : TokenVerifier C) (tsk : TokenSigningPublicKey C) : TokenVerifier C where
  keysBySeq := v.keysBySeq.emplace tsk.pb.seqNum tsk
  filed := by
    rintro ⟨n, t⟩ he
    rw [OrdMap.mem_entries, OrdMap.find?_emplace] at he
    split_ifs at he with hn
    · cases hf : v.keysBySeq.find? tsk.pb.seqNum with
      | none =>
        rw [hf] at he
        cases he
        exact hn.symm
      | some old =>
        rw [hf] at he
        cases he
        rw [hn]
        exact v.filed (_, _) (OrdMap.mem_entries.2 hf)
    · exact v.filed (n, t) (OrdMap.mem_entries.2 he)

def importKeys (v : TokenVerifier C) (keys : List TokenSigningPublicKeyPB) : Status × TokenVerifier C :=
  match checkKeys C keys with
  | .error e => (.bad e, v)
  | .ok tsks => (.ok, tsks.foldl emplaceKey v)

/-- the highest key sequence number known, -1 if there is none -/
def getMaxKnownKeySequenceNumber (v : TokenVerifier C) : ℤ :=
  match v.keysBySeq.rbegin? with
  | none => -1
  | some e => e.1

def exportKeys (v : TokenVerifier C) (afterSequenceNumber : ℤ) : List TokenSigningPublicKeyPB :=
  (v.keysBySeq.upperBound afterSequenceNumber).map fun e => e.2.pb

/-- the result, and the token that was parsed into the output parameter -/
def verifyTokenSignature (E : TokenCodec) (v : TokenVerifier C) (now : ℤ) (signedToken : SignedTokenPB) :
    VerificationResult × Option TokenPB :=
  if signedToken.signature.isNone ∨ signedToken.signingKeySeqNum.isNone ∨ signedToken.tokenData.isNone then
    (.invalidToken, none)
  else
    match E.parse (signedToken.tokenData.getD []) with
    | none => (.invalidToken, none)
    | some token =>
      match token.expireUnixEpochSeconds with
      | none => (.invalidToken, some token)
      | some expire =>
        if expire < now then (.expiredToken, some token)
        else if token.incompatibleFeatures.any fun flag => !TokenPB.featureIsValid flag then
          (.incompatibleFeature, some token)
        else
          match v.keysBySeq.find? (signedToken.signingKeySeqNum.getD 0) with
          | none => (.unknownSigningKey, some token)
          | some tsk =>
            if tsk.pb.expireUnixEpochSeconds.getD 0 < now then (.expiredSigningKey, some token)
            else if tsk.verifySignature signedToken then (.valid, some token)
            else (.invalidSignature, some token)

/-- the message of the key known under `n` -/
def pbOf (v : TokenVerifier C) (n : ℤ) : Option TokenSigningPublicKeyPB := (v.keysBySeq.find? n).map fun tsk => tsk.pb

/-! ## The known keys as a partial function -/

@[simp] theorem pbOf_empty (n : ℤ) : (empty C).pbOf n = none := rfl

theorem pbOf_seqNum {v : TokenVerifier C} {n : ℤ} {pb : TokenSigningPublicKeyPB} (h : v.pbOf n = some pb) :
    pb.seqNum = n := by
  obtain ⟨tsk, hf, rfl⟩ := Option.map_eq_some_iff.1 h
  exact v.filed (n, tsk) (OrdMap.mem_entries.2 hf)

theorem find?_of_pbOf {v w : TokenVerifier C} {n : ℤ} (h : v.pbOf n = w.pbOf n) :
    v.keysBySeq.find? n = w.keysBySeq.find? n := by
  unfold pbOf at h
  cases hv : v.keysBySeq.find? n with
  | none =>
    rw [hv] at h
    exact (Option.map_eq_none_iff.1 h.symm).symm
  | some tsk =>
    rw [hv, eq_comm, Option.map_some, Option.map_eq_some_iff] at h
    obtain ⟨tsk', hw, hpb⟩ := h
    rw [hw, TokenSigningPublicKey.ext_pb hpb]

theorem pbOf_emplaceKey (v : TokenVerifier C) (tsk : TokenSigningPublicKey C) (n : ℤ) :
    (v.emplaceKey tsk).pbOf n = (v.pbOf n).or (if tsk.pb.seqNum = n then some tsk.pb else none) := by
  unfold pbOf emplaceKey
  rw [OrdMap.find?_emplace]
  by_cases hn : n = tsk.pb.seqNum
  · rw [if_pos hn, if_pos hn.symm, ← hn]
    cases v.keysBySeq.find? n <;> rfl
  · rw [if_neg hn, if_neg (Ne.symm hn), Option.or_none]

/-- the first message with number `n` in a list -/
def firstListed (keys : List TokenSigningPublicKeyPB) (n : ℤ) : Option TokenSigningPublicKeyPB :=
  keys.find? fun pb => pb.seqNum = n

theorem firstListed_eq_none {keys : List TokenSigningPublicKeyPB} {n : ℤ} :
    firstListed keys n = none ↔ ∀ pb ∈ keys, pb.seqNum ≠ n := by
  simp [firstListed, List.find?_eq_none]

theorem firstListed_eq_some {keys : List TokenSigningPublicKeyPB} {n : ℤ} {pb : TokenSigningPublicKeyPB}
    (h : firstListed keys n = some pb) : pb ∈ keys ∧ pb.seqNum = n :=
  ⟨List.mem_of_find?_eq_some h, by simpa using List.find?_some h⟩

theorem pbOf_emplaceAll (v : TokenVerifier C) (tsks : List (TokenSigningPublicKey C)) (n : ℤ) :
    (tsks.foldl emplaceKey v).pbOf n = (v.pbOf n).or (firstListed (tsks.map fun tsk => tsk.pb) n) := by
  induction tsks generalizing v with
  | nil => simp [firstListed]
  | cons tsk tsks ih =>
    rw [List.foldl_cons, ih, pbOf_emplaceKey, Option.or_assoc]
    congr 1
    by_cases hn : tsk.pb.seqNum = n
    · simp [firstListed, hn]
    · simp [firstListed, hn]

theorem checkKey_pb {pb : TokenSigningPublicKeyPB} {tsk : TokenSigningPublicKey C} (h : checkKey C pb = .ok tsk) :
    tsk.pb = pb := by
  unfold checkKey at h
  split_ifs at h
  exact TokenSigningPublicKey.init_pb h

theorem checkKeys_pbs {keys : List TokenSigningPublicKeyPB} {tsks : List (TokenSigningPublicKey C)}
    (h : checkKeys C keys = .ok tsks) : tsks.map (fun tsk => tsk.pb) = keys := by
  induction keys generalizing tsks with
  | nil =>
    cases h
    rfl
  | cons pb keys ih =>
    simp only [checkKeys] at h
    split at h
    · cases h
    · rename_i tsk htsk
      split at h
      · cases h
      · rename_i tsks' htsks
        cases h
        rw [List.map_cons, checkKey_pb htsk, ih htsks]

/-- a key that `ImportKeys` accepts -/
def Valid (C : Crypto SK PK) (pb : TokenSigningPublicKeyPB) : Prop := (checkKey C pb).isOk = true

instance (pb : TokenSigningPublicKeyPB) : Decidable (Valid C pb) := inferInstanceAs (Decidable (_ = true))

/-- the public half of a private key is accepted -/
theorem valid_exportPublicKeyPB (hC : C.Sound) (tsk : TokenSigningPrivateKey C) : Valid C tsk.exportPublicKeyPB := by
  have hkey : C.publicFromDer tsk.publicKeyDer = .ok (C.getPublicKey tsk.key) := by
    rw [tsk.publicKeyDer_eq]
    exact hC.public_der _
  have hder : tsk.exportPublicKeyPB.rsaKeyDer = some tsk.publicKeyDer := rfl
  obtain ⟨pub, hpub⟩ := TokenSigningPublicKey.init_ok (C := C) hder hkey
  have hcheck : checkKey C tsk.exportPublicKeyPB = .ok pub := hpub
  rw [Valid, hcheck]
  rfl

theorem checkKeys_isOk (keys : List TokenSigningPublicKeyPB) :
    (checkKeys C keys).isOk = true ↔ ∀ pb ∈ keys, Valid C pb := by
  induction keys with
  | nil => simp [checkKeys, Except.isOk, Except.toBool]
  | cons pb keys ih =>
    rw [List.forall_mem_cons, ← ih, Valid, checkKeys]
    cases checkKey C pb with
    | error e => simp [Except.isOk, Except.toBool]
    | ok tsk => cases checkKeys C keys <;> simp [Except.isOk, Except.toBool]

/-! ## `ImportKeys` -/

/-- what one call of `ImportKeys` does: nothing but report the error, or keep every known key and file, under each new
number, the first key listed with it -/
theorem importKeys_cases (v : TokenVerifier C) (keys : List TokenSigningPublicKeyPB) :
    ((¬ ∀ pb ∈ keys, Valid C pb) ∧ ∃ e, v.importKeys keys = (.bad e, v)) ∨
      ((∀ pb ∈ keys, Valid C pb) ∧ ∃ w, v.importKeys keys = (.ok, w) ∧
        ∀ n, w.pbOf n = (v.pbOf n).or (firstListed keys n)) := by
  have hok := checkKeys_isOk (C := C) keys
  unfold importKeys
  cases h : checkKeys C keys with
  | error e =>
    rw [h] at hok
    exact Or.inl ⟨fun hv => by simpa [Except.isOk, Except.toBool] using hok.2 hv, e, rfl⟩
  | ok tsks =>
    rw [h] at hok
    refine Or.inr ⟨hok.1 rfl, _, rfl, fun n => ?_⟩
    rw [pbOf_emplaceAll, checkKeys_pbs h]

theorem importKeys_ok {v w : TokenVerifier C} {keys : List TokenSigningPublicKeyPB}
    (h : v.importKeys keys = (.ok, w)) (n : ℤ) : w.pbOf n = (v.pbOf n).or (firstListed keys n) := by
  rcases importKeys_cases v keys with ⟨-, e, he⟩ | ⟨-, w', hw, hpb⟩
  · rw [he] at h
    cases h
  · rw [hw] at h
    cases h
    exact hpb n

/-! ## What the header promises of `ImportKeys` -/

/-- the last message with number `n` in a list -/
def lastListed (keys : List TokenSigningPublicKeyPB) (n : ℤ) : Option TokenSigningPublicKeyPB :=
  firstListed keys.reverse n

/-- an import that fails changes nothing; one that succeeds stores, under every number of the list, the last key listed
with it, and leaves every other entry as it was -/
def ImportContract (v : TokenVerifier C) (keys : List TokenSigningPublicKeyPB) (r : Status × TokenVerifier C) : Prop :=
  (r.1 ≠ .ok → r.2.keysBySeq = v.keysBySeq) ∧
    (r.1 = .ok → (∀ pb ∈ keys, r.2.pbOf pb.seqNum = lastListed keys pb.seqNum) ∧
      ∀ n, (∀ pb ∈ keys, pb.seqNum ≠ n) → r.2.keysBySeq.find? n = v.keysBySeq.find? n)

/-- **When `ImportKeys` replaces.** The contract holds of a call exactly when some listed key is invalid (then nothing is
imported), or, under every listed number, the key already known, or else the first one listed, is the last one listed. -/
theorem importKeys_replaces_iff (v : TokenVerifier C) (keys : List TokenSigningPublicKeyPB) :
    ImportContract v keys (v.importKeys keys) ↔
      (¬ ∀ pb ∈ keys, Valid C pb) ∨
        ∀ pb ∈ keys, (v.pbOf pb.seqNum).or (firstListed keys pb.seqNum) = lastListed keys pb.seqNum := by
  rcases importKeys_cases v keys with ⟨hbad, e, he⟩ | ⟨hval, w, hw, hpb⟩
  · rw [he]
    exact ⟨fun _ => Or.inl hbad, fun _ => ⟨fun _ => rfl, fun h => absurd h (by simp)⟩⟩
  · rw [hw, or_iff_right (not_not.2 hval)]
    constructor
    · intro h pb hm
      rw [← hpb]
      exact (h.2 rfl).1 pb hm
    · intro h
      refine ⟨fun hne => absurd rfl hne, fun _ => ⟨fun pb hm => ?_, fun n hn => ?_⟩⟩
      · rw [hpb]
        exact h pb hm
      · apply find?_of_pbOf
        rw [hpb, firstListed_eq_none.2 hn, Option.or_none]

/-- **A stale key stays.** Number 1 is known with key 7; an import that lists it with key 8 returns OK, and key 7 is
still the one that tokens are checked against. -/
theorem import_keeps_stale_key :
    let known : TokenSigningPublicKeyPB := ⟨some 1, some [7], some 100⟩
    let listed : TokenSigningPublicKeyPB := ⟨some 1, some [8], some 100⟩
    let v := ((empty byteCrypto).importKeys [known]).2
    (v.importKeys [listed]).1 = .ok ∧ (v.importKeys [listed]).2.pbOf 1 = some known ∧
      ¬ ImportContract v [listed] (v.importKeys [listed]) := by
  refine ⟨by decide, by decide, fun h => ?_⟩
  have hlast := (h.2 (by decide)).1 _ List.mem_cons_self
  exact absurd hlast (by decide)

/-! ## Known keys stay known -/

/-- `w` knows every key that `v` knows -/
def Extends (v w : TokenVerifier C) : Prop := ∀ n pb, v.pbOf n = some pb → w.pbOf n = some pb

theorem Extends.refl (v : TokenVerifier C) : v.Extends v := fun _ _ h => h

theorem Extends.trans {u v w : TokenVerifier C} (h1 : u.Extends v) (h2 : v.Extends w) : u.Extends w :=
  fun n pb h => h2 n pb (h1 n pb h)

theorem importKeys_extends (v : TokenVerifier C) (keys : List TokenSigningPublicKeyPB) :
    v.Extends (v.importKeys keys).2 := by
  rcases importKeys_cases v keys with ⟨-, e, he⟩ | ⟨-, w, hw, hpb⟩
  · rw [he]
    exact Extends.refl v
  · intro n pb h
    rw [hw, hpb, h, Option.some_or]

/-! ## Replication -/

theorem mem_exportKeys {v : TokenVerifier C} {m : ℤ} {pb : TokenSigningPublicKeyPB} :
    pb ∈ v.exportKeys m ↔ m < pb.seqNum ∧ v.pbOf pb.seqNum = some pb := by
  unfold exportKeys pbOf
  constructor
  · intro h
    obtain ⟨⟨n, tsk⟩, he, rfl⟩ := List.mem_map.1 h
    obtain ⟨he, hn⟩ := OrdMap.mem_upperBound.1 he
    have hf : tsk.pb.seqNum = n := v.filed _ he
    exact ⟨hf ▸ hn, by rw [hf, OrdMap.mem_entries.1 he, Option.map_some]⟩
  · rintro ⟨hn, hp⟩
    obtain ⟨tsk, hf, hpb⟩ := Option.map_eq_some_iff.1 hp
    exact List.mem_map.2 ⟨(pb.seqNum, tsk), OrdMap.mem_upperBound.2 ⟨OrdMap.mem_entries.2 hf, hn⟩, hpb⟩

/-- the export lists one key for each number, the known one -/
theorem firstListed_exportKeys (v : TokenVerifier C) (m n : ℤ) :
    firstListed (v.exportKeys m) n = if m < n then v.pbOf n else none := by
  cases h : firstListed (v.exportKeys m) n with
  | none =>
    rw [firstListed_eq_none] at h
    split_ifs with hn
    · cases hp : v.pbOf n with
      | none => rfl
      | some pb =>
        have hs := pbOf_seqNum hp
        exact absurd hs (h pb (mem_exportKeys.2 ⟨hs ▸ hn, hs ▸ hp⟩))
    · rfl
  | some pb =>
    obtain ⟨hm, hs⟩ := firstListed_eq_some h
    obtain ⟨hlt, hp⟩ := mem_exportKeys.1 hm
    rw [if_pos (hs ▸ hlt), ← hs, hp]

theorem le_getMax {v : TokenVerifier C} {n : ℤ} {pb : TokenSigningPublicKeyPB} (h : v.pbOf n = some pb) :
    n ≤ v.getMaxKnownKeySequenceNumber := by
  obtain ⟨tsk, hf, -⟩ := Option.map_eq_some_iff.1 h
  unfold getMaxKnownKeySequenceNumber
  cases hr : v.keysBySeq.rbegin? with
  | none =>
    rw [OrdMap.rbegin_eq_none hr] at hf
    cases hf
  | some e => exact (OrdMap.le_rbegin hr).2 _ (OrdMap.mem_entries.2 hf)

theorem getMax_cases (v : TokenVerifier C) :
    (v.getMaxKnownKeySequenceNumber = -1 ∧ ∀ n, v.pbOf n = none) ∨
      ∃ pb, v.pbOf v.getMaxKnownKeySequenceNumber = some pb := by
  unfold getMaxKnownKeySequenceNumber
  cases hr : v.keysBySeq.rbegin? with
  | none =>
    refine Or.inl ⟨rfl, fun n => ?_⟩
    rw [pbOf, OrdMap.rbegin_eq_none hr, Option.map_none]
  | some e =>
    refine Or.inr ⟨e.2.pb, ?_⟩
    simp only [pbOf]
    rw [OrdMap.mem_entries.1 (OrdMap.le_rbegin hr).1, Option.map_some]

/-! ## `VerifyTokenSignature` -/

/-- what a verifier that knows the signing key answers to a well-formed token that has not expired -/
theorem verify_known {E : TokenCodec} {v : TokenVerifier C} {now : ℤ} {tok : SignedTokenPB} {data sig : Bytes}
    {n expire : ℤ} {token : TokenPB} {tsk : TokenSigningPublicKey C} (hdata : tok.tokenData = some data)
    (hsig : tok.signature = some sig) (hn : tok.signingKeySeqNum = some n) (hparse : E.parse data = some token)
    (hexpire : token.expireUnixEpochSeconds = some expire) (hfeat : token.incompatibleFeatures = [])
    (hfind : v.keysBySeq.find? n = some tsk) (hverify : tsk.verifySignature tok = true) (hnow : now ≤ expire) :
    (verifyTokenSignature E v now tok).1 =
      if tsk.pb.expireUnixEpochSeconds.getD 0 < now then .expiredSigningKey else .valid := by
  unfold verifyTokenSignature
  rw [if_neg (by simp [hdata, hsig, hn]), hdata, Option.getD_some, hparse]
  simp only [hexpire, hfeat]
  rw [if_neg (not_lt.2 hnow), if_neg (by simp), hn, Option.getD_some, hfind]
  simp only [hverify]
  split_ifs <;> rfl

theorem verify_unknown {E : TokenCodec} {v : TokenVerifier C} {now : ℤ} {tok : SignedTokenPB}
    (h : (verifyTokenSignature E v now tok).1 = .unknownSigningKey) :
    v.pbOf (tok.signingKeySeqNum.getD 0) = none := by
  unfold verifyTokenSignature at h
  split_ifs at h with h1
  · split at h
    · cases h
    · split at h
      · cases h
      · split_ifs at h
        split at h
        · rename_i hf
          rw [pbOf, hf, Option.map_none]
        · split_ifs at h

end TokenVerifier

end Bboy.Security
