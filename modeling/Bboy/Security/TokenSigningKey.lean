/-
Token signing keys: the messages of `token.proto`, `TokenSigningPrivateKey` and `TokenSigningPublicKey`
(`security/token_signing_key.{h,cc}`).

- OpenSSL is a parameter (`Crypto`): key pairs, their DER forms, signing and verification, each of which may fail with a
  bad status. `Crypto.Sound` is what the token code relies on: a signature made with a key verifies with the key's public
  half, and the DER form of a public key parses back to it.
- Protobuf's generated code is a parameter too (`TokenCodec`), as far as `TokenPB` is turned into bytes and back.
- `byteCrypto` and `byteCodec` are small instances that meet both conditions, for concrete runs.
- A field of a message is an `Option`: `has_x()` is `isSome`, and the getter of an unset number or byte string yields 0
  or the empty string.
- Both key classes carry what their constructors establish: the cached DER form is the one of the key, and a public key
  in use is the parsed form of its message. So the message determines the public key (`TokenSigningPublicKey.ext_pb`).
-/
import Bboy.Base.Status

namespace Bboy.Security

/-- a `std::string` or a `bytes` field -/
abbrev Bytes := List UInt8

/-! ## OpenSSL and protobuf, as the token code uses them -/

/-- `PrivateKey` and `PublicKey` of `security/crypto.h`, with SHA256 digests and DER -/
structure Crypto (SK PK : Type) where
  getPublicKey : SK → PK
  publicToDer : PK → Bytes
  publicFromDer : Bytes → Except BadStatus PK
  privateToDer : SK → Bytes
  privateFromDer : Bytes → Except BadStatus SK
  makeSignature : SK → Bytes → Except BadStatus Bytes
  verifySignature : PK → Bytes → Bytes → Except BadStatus Unit

structure Crypto.Sound {SK PK : Type} (C : Crypto SK PK) : Prop where
  sign_verify : ∀ sk data sig, C.makeSignature sk data = .ok sig →
    C.verifySignature (C.getPublicKey sk) data sig = .ok ()
  public_der : ∀ pk, C.publicFromDer (C.publicToDer pk) = .ok pk

structure TokenSigningPrivateKeyPB where
  keySeqNum : Option ℤ
  rsaKeyDer : Option Bytes
  expireUnixEpochSeconds : Option ℤ
deriving DecidableEq, Repr

structure TokenSigningPublicKeyPB where
  keySeqNum : Option ℤ
  rsaKeyDer : Option Bytes
  expireUnixEpochSeconds : Option ℤ
deriving DecidableEq, Repr

/-- `pb.key_seq_num()` -/
def TokenSigningPublicKeyPB.seqNum (pb : TokenSigningPublicKeyPB) : ℤ := pb.keySeqNum.getD 0

/-- the `oneof token` of `TokenPB` -/
inductive TokenPB.Token where
  | notSet
  | authn (username : Option String)
  | authz
deriving DecidableEq, Repr

structure TokenPB where
  expireUnixEpochSeconds : Option ℤ
  incompatibleFeatures : List ℤ
  token : TokenPB.Token
deriving DecidableEq, Repr

/-- `TokenPB::Feature_IsValid`: the enum has the one value `UNUSED_PLACEHOLDER` -/
def TokenPB.featureIsValid (flag : ℤ) : Bool := flag = 999

structure SignedTokenPB where
  tokenData : Option Bytes
  signature : Option Bytes
  signingKeySeqNum : Option ℤ
deriving DecidableEq, Repr

/-- `SerializeToString` and `ParseFromString` of `TokenPB` -/
structure TokenCodec where
  serialize : TokenPB → Option Bytes
  parse : Bytes → Option TokenPB

/-- what was serialized parses back -/
def TokenCodec.Sound (E : TokenCodec) : Prop := ∀ token data, E.serialize token = some data → E.parse data = some token

/-- the `expire_unix_epoch_seconds` of a signed token -/
def TokenCodec.expireTime (E : TokenCodec) (signedToken : SignedTokenPB) : Option ℤ :=
  (signedToken.tokenData.bind E.parse).bind fun token => token.expireUnixEpochSeconds

variable {SK PK : Type} {C : Crypto SK PK}

/-! ## Private keys -/

structure TokenSigningPrivateKey (C : Crypto SK PK) where
  key : SK
  privateKeyDer : Bytes
  publicKeyDer : Bytes
  keySeqNum : ℤ
  expireTime : ℤ
  publicKeyDer_eq : publicKeyDer = C.publicToDer (C.getPublicKey key)
deriving DecidableEq

namespace TokenSigningPrivateKey

/-- the constructor from a message; `none` is its `CHECK_OK` on a key that does not parse -/
def ofPB (C : Crypto SK PK) (pb : TokenSigningPrivateKeyPB) : Option (TokenSigningPrivateKey C) :=
  match C.privateFromDer (pb.rsaKeyDer.getD []) with
  | .error _ => none
  | .ok key => some
    { key := key
      privateKeyDer := pb.rsaKeyDer.getD []
      publicKeyDer := C.publicToDer (C.getPublicKey key)
      keySeqNum := pb.keySeqNum.getD 0
      expireTime := pb.expireUnixEpochSeconds.getD 0
      publicKeyDer_eq := rfl }

/-- the constructor from a generated key -/
def ofKey (C : Crypto SK PK) (keySeqNum expireTime : ℤ) (key : SK) : TokenSigningPrivateKey C :=
  { key := key
    privateKeyDer := C.privateToDer key
    publicKeyDer := C.publicToDer (C.getPublicKey key)
    keySeqNum := keySeqNum
    expireTime := expireTime
    publicKeyDer_eq := rfl }

def exportPublicKeyPB (tsk : TokenSigningPrivateKey C) : TokenSigningPublicKeyPB :=
  ⟨some tsk.keySeqNum, some tsk.publicKeyDer, some tsk.expireTime⟩

def sign (tsk : TokenSigningPrivateKey C) (token : SignedTokenPB) : Except BadStatus SignedTokenPB :=
  match C.makeSignature tsk.key (token.tokenData.getD []) with
  | .error e => .error e
  | .ok sig => .ok { token with signature := some sig, signingKeySeqNum := some tsk.keySeqNum }

@[simp] theorem ofKey_keySeqNum (n e : ℤ) (key : SK) : (ofKey C n e key).keySeqNum = n := rfl

@[simp] theorem ofKey_expireTime (n e : ℤ) (key : SK) : (ofKey C n e key).expireTime = e := rfl

@[simp] theorem exportPublicKeyPB_seqNum (tsk : TokenSigningPrivateKey C) :
    tsk.exportPublicKeyPB.seqNum = tsk.keySeqNum := rfl

theorem sign_ok {tsk : TokenSigningPrivateKey C} {token token' : SignedTokenPB} (h : tsk.sign token = .ok token') :
    ∃ sig, C.makeSignature tsk.key (token.tokenData.getD []) = .ok sig ∧
      token' = { token with signature := some sig, signingKeySeqNum := some tsk.keySeqNum } := by
  unfold sign at h
  split at h
  · cases h
  · rename_i sig hsig
    cases h
    exact ⟨sig, hsig, rfl⟩

end TokenSigningPrivateKey

/-! ## Public keys -/

/-- a public key after a successful `Init()` -/
structure TokenSigningPublicKey (C : Crypto SK PK) where
  pb : TokenSigningPublicKeyPB
  key : PK
  inited : ∃ der, pb.rsaKeyDer = some der ∧ C.publicFromDer der = .ok key

namespace TokenSigningPublicKey

/-- the constructor followed by `Init()` -/
def init (C : Crypto SK PK) (pb : TokenSigningPublicKeyPB) : Except BadStatus (TokenSigningPublicKey C) :=
  match hder : pb.rsaKeyDer with
  | none => .error (.runtimeError "no key for token signing helper")
  | some der =>
    match hkey : C.publicFromDer der with
    | .error e => .error e
    | .ok key => .ok ⟨pb, key, der, hder, hkey⟩

def verifySignature (tsk : TokenSigningPublicKey C) (token : SignedTokenPB) : Bool :=
  (C.verifySignature tsk.key (token.tokenData.getD []) (token.signature.getD [])).isOk

theorem init_pb {pb : TokenSigningPublicKeyPB} {tsk : TokenSigningPublicKey C} (h : init C pb = .ok tsk) :
    tsk.pb = pb := by
  unfold init at h
  split at h
  · cases h
  · split at h
    · cases h
    · cases h
      rfl

theorem init_ok {pb : TokenSigningPublicKeyPB} {der : Bytes} {key : PK} (hder : pb.rsaKeyDer = some der)
    (hkey : C.publicFromDer der = .ok key) : ∃ tsk, init C pb = .ok tsk := by
  unfold init
  split
  · rename_i h
    rw [hder] at h
    cases h
  · rename_i der' h
    obtain rfl : der = der' := Option.some.inj (hder.symm.trans h)
    split
    · rename_i e h
      rw [hkey] at h
      cases h
    · exact ⟨_, rfl⟩

theorem ext_pb {a b : TokenSigningPublicKey C} (h : a.pb = b.pb) : a = b := by
  obtain ⟨pb, ka, der, hder, hka⟩ := a
  obtain ⟨pb', kb, der', hder', hkb⟩ := b
  obtain rfl : pb = pb' := h
  obtain rfl : der = der' := Option.some.inj (hder.symm.trans hder')
  obtain rfl : ka = kb := Except.ok.inj (hka.symm.trans hkb)
  rfl

/-- what a private key signs, its public half verifies -/
theorem verifySignature_of_sign (hC : C.Sound) {tsk : TokenSigningPrivateKey C} {pub : TokenSigningPublicKey C}
    (hpub : pub.pb = tsk.exportPublicKeyPB) {token token' : SignedTokenPB} (h : tsk.sign token = .ok token') :
    pub.verifySignature token' = true := by
  obtain ⟨sig, hsig, rfl⟩ := TokenSigningPrivateKey.sign_ok h
  obtain ⟨der, hder, hkey⟩ := pub.inited
  rw [hpub] at hder
  cases hder
  rw [tsk.publicKeyDer_eq, hC.public_der] at hkey
  have hk : C.getPublicKey tsk.key = pub.key := Except.ok.inj hkey
  simp only [verifySignature, Option.getD_some, ← hk, hC.sign_verify _ _ _ hsig]
  rfl

end TokenSigningPublicKey

/-! ## Instances for concrete runs -/

/-- a key is one byte and its DER form that byte; a signature is the key's byte before the data -/
def byteCrypto : Crypto UInt8 UInt8 where
  getPublicKey := fun k => k
  publicToDer := fun k => [k]
  publicFromDer
    | [k] => .ok k
    | _ => .error (.runtimeError "")
  privateToDer := fun k => [k]
  privateFromDer
    | [k] => .ok k
    | _ => .error (.runtimeError "")
  makeSignature := fun k data => .ok (k :: data)
  verifySignature := fun k data sig =>
    if sig = k :: data then .ok () else .error (.corruption "data signature verification failed")

theorem byteCrypto_sound : byteCrypto.Sound where
  sign_verify := by
    intro sk data sig h
    cases h
    exact if_pos rfl
  public_der := fun _ => rfl

/-- the wire format of authn tokens for user `u` with a time below 128, where a number is one byte -/
def byteCodec : TokenCodec where
  serialize
    | ⟨some e, [], .authn (some username)⟩ =>
      if 0 ≤ e ∧ e < 128 ∧ username = "u" then some [0x08, UInt8.ofNat e.toNat, 0x1A, 0x03, 0x0A, 0x01, 0x75] else none
    | _ => none
  parse
    | [0x08, e, 0x1A, 0x03, 0x0A, 0x01, 0x75] => if e < 128 then some ⟨some e.toNat, [], .authn (some "u")⟩ else none
    | _ => none

theorem byteCodec_sound : byteCodec.Sound := by
  intro token data h
  simp only [byteCodec] at h
  split at h
  · rename_i e username
    split_ifs at h with hc
    cases h
    obtain ⟨h0, h1, rfl⟩ := hc
    have hn : (UInt8.ofNat e.toNat).toNat = e.toNat := by
      rw [UInt8.toNat_ofNat']
      omega
    have hlt : UInt8.ofNat e.toNat < 128 := by
      rw [UInt8.lt_iff_toNat_lt, hn]
      change e.toNat < 128
      omega
    simp [byteCodec, hlt]
    omega
  · cases h

end Bboy.Security
