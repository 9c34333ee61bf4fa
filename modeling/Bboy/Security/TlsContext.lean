/-
Lean model of the certificates of `TlsContext` (`bboy/security/tls_context.cc`): the trust store, the certificate in use and
the CSR, after `Init`.

What OpenSSL says about certificates and keys is a parameter; X509_verify_cert gets no certificates besides the trust store,
and succeeds exactly if the issuer chain ends in a self-signed certificate of the store (`Documented`). Whether the other
calls of OpenSSL succeed is up to the environment. A `CHECK` that fails ends the process: the call is not enabled, as is one
that overflows `trusted_cert_count_`. A CSR is its public key. Each `AdoptSignedCert` that returns OK notes, as a ghost,
whether `has_signed_cert()` holds then.

- `Good`: a certificate that counts as signed has its chain in the trust store, and every OK of `AdoptSignedCert` left one.
- `checks_pass`: the `CHECK` in `AdoptSignedCert` never fails.
- `signed_exact`: a run visits good states only, exactly when no call adopts a self-signed certificate from outside the store
  and none is told that it adopted a certificate that is not there.
- `signed_breaks`: a self-signed certificate counts as signed with an empty trust store, and `AdoptSignedCert` without a
  certificate returns OK.
Witness: `signed_exact_adopted`.
-/
import Bboy.Base.Status
import Bboy.Core.Machine

namespace Bboy.Tls

open Core

/-! ## OpenSSL -/

inductive VerifyError where
  | depthZeroSelfSignedCert
  | other (code : ℤ)
  deriving DecidableEq, Repr

/-- what OpenSSL says about certificates and keys -/
structure OpenSsl (Cert PrivateKey PublicKey : Type) where
  /-- the certificate that signed this one, itself if it is self-signed -/
  issuer : Cert → Cert
  certKey : Cert → PublicKey
  publicKey : PrivateKey → PublicKey
  /-- EVP_PKEY_cmp -/
  cmp : PublicKey → PublicKey → ℤ
  /-- X509_verify_cert with a trust store: `none` on success, else the error and the current certificate, if any -/
  verifyCert : List Cert → Cert → Option (VerifyError × Option Cert)
  errorString : VerifyError → String
  subjectName : Cert → String
  issuerName : Cert → String

variable {Cert PrivateKey PublicKey : Type}

/-- the issuer chain of a certificate ends in a self-signed one of the store -/
inductive Chained (issuer : Cert → Cert) (store : List Cert) : Cert → Prop
  | root {c : Cert} : issuer c = c → c ∈ store → Chained issuer store c
  | signed {c : Cert} : issuer c ∈ store → Chained issuer store (issuer c) → Chained issuer store c

structure OpenSsl.Documented (ssl : OpenSsl Cert PrivateKey PublicKey) : Prop where
  verifies : ∀ store c, ssl.verifyCert store c = none ↔ Chained ssl.issuer store c
  equal : ∀ a b, ssl.cmp a b = 1 ↔ a = b

/-- a call of OpenSSL that can fail; `GetOpenSSLErrors()` then says why -/
abbrev Outcome := Except String Unit

/-- OPENSSL_RET_NOT_OK -/
def opensslRetNotOk (msg : String) : Outcome → Status
  | .ok () => .ok
  | .error errors => .bad (.runtimeErrorWith msg errors)

/-- `PublicKey::Equals` -/
def equals (ssl : OpenSsl Cert PrivateKey PublicKey) (a b : PublicKey) : Except BadStatus Bool :=
  let cmp := ssl.cmp a b
  if cmp = -2 then .error (.notSupported "failed to compare public keys")
  else if cmp = -1 ∨ cmp = 0 then .ok false
  else if cmp = 1 then .ok true
  else .error (.runtimeErrorWith "unexpected public key comparison result" (toString cmp))

/-- `Cert::CheckKeyMatch` -/
def checkKeyMatch (ssl : OpenSsl Cert PrivateKey PublicKey) (cert : Cert) (key : PrivateKey) (errors : String) : Status :=
  if ssl.cmp (ssl.certKey cert) (ssl.publicKey key) = 1 then .ok
  else .bad (.runtimeErrorWith "certificate does not match private key" errors)

/-! ## The context -/

/-- `store`, `privateKey` and `certificate` are those of the SSL_CTX -/
structure TlsContext (Cert PrivateKey PublicKey : Type) where
  store : List Cert
  privateKey : Option PrivateKey
  certificate : Option Cert
  trustedCertCount : ℕ
  hasCert : Bool
  csr : Option PublicKey
  /-- ghost -/
  adoptions : List Bool

abbrev Result (Cert PrivateKey PublicKey : Type) := Option (Status × TlsContext Cert PrivateKey PublicKey)

namespace TlsContext

def hasSignedCert (s : TlsContext Cert PrivateKey PublicKey) : Bool := s.hasCert && s.csr.isNone

def hasTrustedCert (s : TlsContext Cert PrivateKey PublicKey) : Bool := 0 < s.trustedCertCount

/-- `GetCsrIfNecessary` -/
def getCsrIfNecessary (s : TlsContext Cert PrivateKey PublicKey) : Option PublicKey := s.csr

end TlsContext

/-- RETURN_NOT_OK -/
def returnNotOk (status : Status) (s : TlsContext Cert PrivateKey PublicKey) (next : Result Cert PrivateKey PublicKey) :
    Result Cert PrivateKey PublicKey :=
  if status = .ok then next else some (status, s)

def certDetails (ssl : OpenSsl Cert PrivateKey PublicKey) : Option Cert → String
  | none => ""
  | some c => " (error with cert: subject=" ++ ssl.subjectName c ++ ", issuer=" ++ ssl.issuerName c ++ ")"

/-- `init` is the outcome of X509_STORE_CTX_init -/
def verifyCertChain (ssl : OpenSsl Cert PrivateKey PublicKey) (store : List Cert) (init : Outcome) (cert : Cert) : Status :=
  match opensslRetNotOk "could not init X509_STORE_CTX" init with
  | .bad e => .bad e
  | .ok =>
    match ssl.verifyCert store cert with
    | none => .ok
    -- it's OK to provide a self-signed cert
    | some (.depthZeroSelfSignedCert, _) => .ok
    | some (err, curCert) =>
      .bad (.runtimeErrorWith ("could not verify certificate chain" ++ certDetails ssl curCert) (ssl.errorString err))

structure UseOutcomes where
  init : Outcome
  mismatch : String
  usePrivateKey : Outcome
  useCertificate : Outcome

/-- SSL_CTX_use_certificate: a private key that does not match is dropped -/
def setCertificate (ssl : OpenSsl Cert PrivateKey PublicKey) (s : TlsContext Cert PrivateKey PublicKey) (cert : Cert) :
    TlsContext Cert PrivateKey PublicKey :=
  { s with
    certificate := some cert
    privateKey := s.privateKey.filter fun key => decide (ssl.cmp (ssl.certKey cert) (ssl.publicKey key) = 1) }

/-- the end of `UseCertificateAndKey` and `GenerateSelfSignedCertAndKey` -/
def adoptKeyPair (ssl : OpenSsl Cert PrivateKey PublicKey) (s : TlsContext Cert PrivateKey PublicKey) (cert : Cert)
    (key : PrivateKey) (csr : Option PublicKey) (usePrivateKey useCertificate : Outcome) :
    Result Cert PrivateKey PublicKey :=
  if s.hasCert then none
  else
    returnNotOk (opensslRetNotOk "failed to use private key" usePrivateKey) s <|
      let s := { s with privateKey := some key }
      returnNotOk (opensslRetNotOk "failed to use certificate" useCertificate) s <|
        some (.ok, { setCertificate ssl s cert with hasCert := true, csr := csr })

def useCertificateAndKey (ssl : OpenSsl Cert PrivateKey PublicKey) (s : TlsContext Cert PrivateKey PublicKey) (cert : Cert)
    (key : PrivateKey) (o : UseOutcomes) : Result Cert PrivateKey PublicKey :=
  returnNotOk (verifyCertChain ssl s.store o.init cert) s <|
    returnNotOk (checkKeyMatch ssl cert key o.mismatch) s <|
      adoptKeyPair ssl s cert key s.csr o.usePrivateKey o.useCertificate

/-- X509_STORE_add_cert -/
inductive AddOutcome where
  | added
  | alreadyInHashTable
  | failed (errors : String)
  deriving DecidableEq, Repr

def addTrustedCertificate [DecidableEq Cert] (s : TlsContext Cert PrivateKey PublicKey) (cert : Cert) :
    AddOutcome → Result Cert PrivateKey PublicKey
  | .added =>
    if s.trustedCertCount + 1 < 2 ^ 31 then
      some (.ok, { s with store := cert :: s.store, trustedCertCount := s.trustedCertCount + 1 })
    else none
  | .alreadyInHashTable => if cert ∈ s.store then some (.ok, s) else none
  | .failed errors => some (.bad (.runtimeErrorWith "failed to add trusted certificate" errors), s)

/-- `generated` are the results of the first three steps -/
structure GenerateOutcomes (Cert PrivateKey : Type) where
  generated : Except BadStatus (PrivateKey × Cert)
  usePrivateKey : Outcome
  useCertificate : Outcome

/-- the certificate that is generated is self-signed and for the key, as is the CSR -/
def generateSelfSignedCertAndKey [DecidableEq Cert] (ssl : OpenSsl Cert PrivateKey PublicKey)
    (s : TlsContext Cert PrivateKey PublicKey) (o : GenerateOutcomes Cert PrivateKey) : Result Cert PrivateKey PublicKey :=
  match o.generated with
  | .error e => some (.bad e, s)
  | .ok (key, cert) =>
    if ssl.issuer cert = cert ∧ ssl.cmp (ssl.certKey cert) (ssl.publicKey key) = 1 then
      adoptKeyPair ssl s cert key (some (ssl.publicKey key)) o.usePrivateKey o.useCertificate
    else none

/-- SSL_CTX_check_private_key -/
def checkPrivateKey (ssl : OpenSsl Cert PrivateKey PublicKey) (s : TlsContext Cert PrivateKey PublicKey) : Bool :=
  match s.certificate, s.privateKey with
  | some cert, some key => decide (ssl.cmp (ssl.certKey cert) (ssl.publicKey key) = 1)
  | _, _ => false

structure AdoptOutcomes where
  init : Outcome
  csrKey : Outcome
  certKey : Outcome
  useCertificate : Outcome

def adoptSignedCert (ssl : OpenSsl Cert PrivateKey PublicKey) (s : TlsContext Cert PrivateKey PublicKey) (cert : Cert)
    (o : AdoptOutcomes) : Result Cert PrivateKey PublicKey :=
  returnNotOk (verifyCertChain ssl s.store o.init cert) s <|
    match s.csr with
    -- a signed cert has already been adopted
    | none => some (.ok, s)
    | some csrKey =>
      returnNotOk (opensslRetNotOk "unable to get CSR public key" o.csrKey) s <|
        returnNotOk (opensslRetNotOk "unable to get certificate public key" o.certKey) s <|
          match equals ssl csrKey (ssl.certKey cert) with
          | .error e => some (.bad e, s)
          | .ok false => some (.bad (.runtimeError "certificate public key does not match the CSR public key"), s)
          | .ok true =>
            returnNotOk (opensslRetNotOk "failed to use certificate" o.useCertificate) s <|
              let s := setCertificate ssl s cert
              if checkPrivateKey ssl s then some (.ok, { s with csr := none }) else none

/-! ## Runs -/

inductive Op (Cert PrivateKey : Type) where
  | addTrustedCertificate (cert : Cert) (outcome : AddOutcome)
  | useCertificateAndKey (cert : Cert) (key : PrivateKey) (o : UseOutcomes)
  | generateSelfSignedCertAndKey (o : GenerateOutcomes Cert PrivateKey)
  | adoptSignedCert (cert : Cert) (o : AdoptOutcomes)

/-- an OK of `AdoptSignedCert` -/
def noteAdoption (r : Status × TlsContext Cert PrivateKey PublicKey) : TlsContext Cert PrivateKey PublicKey :=
  if r.1 = .ok then { r.2 with adoptions := r.2.hasSignedCert :: r.2.adoptions } else r.2

def machine [DecidableEq Cert] (ssl : OpenSsl Cert PrivateKey PublicKey) :
    Machine (TlsContext Cert PrivateKey PublicKey) (Op Cert PrivateKey) where
  init := ⟨[], none, none, 0, false, none, []⟩
  step s
    | .addTrustedCertificate cert outcome => (addTrustedCertificate s cert outcome).map Prod.snd
    | .useCertificateAndKey cert key o => (useCertificateAndKey ssl s cert key o).map Prod.snd
    | .generateSelfSignedCertAndKey o => (generateSelfSignedCertAndKey ssl s o).map Prod.snd
    | .adoptSignedCert cert o => (adoptSignedCert ssl s cert o).map noteAdoption

/-! ## The contract and the condition -/

/-- a certificate that counts as signed has its chain in the trust store, and every OK of `AdoptSignedCert` left one -/
structure Good (ssl : OpenSsl Cert PrivateKey PublicKey) (s : TlsContext Cert PrivateKey PublicKey) : Prop where
  signed : s.hasSignedCert = true →
    (∃ cert, s.certificate = some cert ∧ Chained ssl.issuer s.store cert) ∧ s.hasTrustedCert = true
  adopted : ∀ signed ∈ s.adoptions, signed = true

/-- X509_verify_cert takes the certificate for a self-signed one that is not trusted -/
def Untrusted (ssl : OpenSsl Cert PrivateKey PublicKey) (store : List Cert) (cert : Cert) : Prop :=
  (ssl.verifyCert store cert).map Prod.fst = some .depthZeroSelfSignedCert

instance (ssl : OpenSsl Cert PrivateKey PublicKey) (store : List Cert) (cert : Cert) :
    Decidable (Untrusted ssl store cert) :=
  inferInstanceAs (Decidable (_ = _))

/-- the steps of `UseCertificateAndKey` but the verification succeed -/
def UseSucceeds (ssl : OpenSsl Cert PrivateKey PublicKey) (s : TlsContext Cert PrivateKey PublicKey) (cert : Cert)
    (key : PrivateKey) (o : UseOutcomes) : Prop :=
  s.hasCert = false ∧ o.init = .ok () ∧ ssl.cmp (ssl.certKey cert) (ssl.publicKey key) = 1 ∧ o.usePrivateKey = .ok () ∧
    o.useCertificate = .ok ()

/-- the steps of `AdoptSignedCert` but the verification succeed -/
def AdoptSucceeds (ssl : OpenSsl Cert PrivateKey PublicKey) (csrKey : PublicKey) (cert : Cert) (o : AdoptOutcomes) : Prop :=
  o.init = .ok () ∧ o.csrKey = .ok () ∧ o.certKey = .ok () ∧ ssl.cmp csrKey (ssl.certKey cert) = 1 ∧
    o.useCertificate = .ok ()

/-- no call adopts an untrusted self-signed certificate, and none is told that a certificate is adopted when there is none -/
def Cond (ssl : OpenSsl Cert PrivateKey PublicKey) (s : TlsContext Cert PrivateKey PublicKey) : Op Cert PrivateKey → Prop
  | .useCertificateAndKey cert key o => UseSucceeds ssl s cert key o → ¬ Untrusted ssl s.store cert
  | .adoptSignedCert cert o =>
    match s.csr with
    | some csrKey => AdoptSucceeds ssl csrKey cert o → ¬ Untrusted ssl s.store cert
    | none => s.hasCert = false → o.init = .ok () →
      ssl.verifyCert s.store cert ≠ none ∧ ¬ Untrusted ssl s.store cert
  | _ => True

/-! ## Verification -/

variable {ssl : OpenSsl Cert PrivateKey PublicKey} {s : TlsContext Cert PrivateKey PublicKey} {cert : Cert}
  {key : PrivateKey} {status : Status} {next : Result Cert PrivateKey PublicKey}
  {r : Status × TlsContext Cert PrivateKey PublicKey}

theorem chained_mono {issuer : Cert → Cert} {store more : List Cert} (hmore : store ⊆ more)
    (h : Chained issuer store cert) : Chained issuer more cert := by
  induction h with
  | root hself hmem => exact Chained.root hself (hmore hmem)
  | signed hmem _ ih => exact Chained.signed (hmore hmem) ih

theorem chained_nonempty {issuer : Cert → Cert} {store : List Cert} (h : Chained issuer store cert) : store ≠ [] := by
  cases h with
  | root _ hmem => exact List.ne_nil_of_mem hmem
  | signed hmem _ => exact List.ne_nil_of_mem hmem

theorem opensslRetNotOk_ok {msg : String} {outcome : Outcome} : opensslRetNotOk msg outcome = .ok ↔ outcome = .ok () := by
  cases outcome <;> simp [opensslRetNotOk]

/-- `VerifyCertChain` lets an untrusted self-signed certificate pass -/
theorem verifyCertChain_ok {store : List Cert} {init : Outcome} : verifyCertChain ssl store init cert = .ok ↔
    init = .ok () ∧ (ssl.verifyCert store cert = none ∨ Untrusted ssl store cert) := by
  unfold verifyCertChain Untrusted
  cases init with
  | error errors => simp [opensslRetNotOk]
  | ok u =>
    simp only [opensslRetNotOk]
    cases hverify : ssl.verifyCert store cert with
    | none => simp
    | some p =>
      obtain ⟨err, cur⟩ := p
      cases err <;> simp

theorem checkKeyMatch_ok {errors : String} : checkKeyMatch ssl cert key errors = .ok ↔
    ssl.cmp (ssl.certKey cert) (ssl.publicKey key) = 1 := by
  unfold checkKeyMatch
  split_ifs with h <;> simp [h]

theorem equals_true {a b : PublicKey} : equals ssl a b = .ok true ↔ ssl.cmp a b = 1 := by
  unfold equals
  dsimp only
  split_ifs <;> simp <;> omega

theorem returnNotOk_some : returnNotOk status s next = some r ↔
    (status = .ok ∧ next = some r) ∨ (status ≠ .ok ∧ r = (status, s)) := by
  unfold returnNotOk
  by_cases h : status = .ok
  · simp [h]
  · simp [h, eq_comm]

/-- an untrusted certificate has no chain in the store -/
theorem untrusted_not_chained (hssl : ssl.Documented) {store : List Cert} (h : Untrusted ssl store cert) :
    ¬ Chained ssl.issuer store cert := by
  intro hchained
  rw [Untrusted, (hssl.verifies store cert).2 hchained] at h
  cases h

/-! ## What the calls do -/

/-- the context with a certificate and a key -/
def withKeyPair (s : TlsContext Cert PrivateKey PublicKey) (cert : Cert) (key : PrivateKey) (csr : Option PublicKey) :
    TlsContext Cert PrivateKey PublicKey :=
  { s with privateKey := some key, certificate := some cert, hasCert := true, csr := csr }

/-- a call that fails can leave a private key behind if there is no certificate yet -/
def Fails (s : TlsContext Cert PrivateKey PublicKey) (r : Status × TlsContext Cert PrivateKey PublicKey) : Prop :=
  r.1 ≠ .ok ∧ ∃ key, r.2 = { s with privateKey := key } ∧ (s.hasCert = true → key = s.privateKey)

theorem fails_same (h : status ≠ .ok) : Fails s (status, s) := ⟨h, s.privateKey, rfl, fun _ => rfl⟩

theorem adoptKeyPair_eq {csr : Option PublicKey} (hcert : s.hasCert = false)
    (hmatch : ssl.cmp (ssl.certKey cert) (ssl.publicKey key) = 1) :
    adoptKeyPair ssl s cert key csr (.ok ()) (.ok ()) = some (.ok, withKeyPair s cert key csr) := by
  simp [adoptKeyPair, hcert, returnNotOk, opensslRetNotOk, setCertificate, hmatch, withKeyPair]

theorem adoptKeyPair_cases {csr : Option PublicKey} {usePrivateKey useCertificate : Outcome}
    (h : adoptKeyPair ssl s cert key csr usePrivateKey useCertificate = some r) : s.hasCert = false ∧
      ((usePrivateKey = .ok () ∧ useCertificate = .ok ()) ∨ Fails s r) := by
  unfold adoptKeyPair at h
  split_ifs at h with hcert
  refine ⟨by simpa using hcert, ?_⟩
  obtain ⟨hkey, h⟩ | ⟨hkey, rfl⟩ := returnNotOk_some.1 h
  · obtain ⟨hused, -⟩ | ⟨hused, rfl⟩ := returnNotOk_some.1 h
    · exact Or.inl ⟨opensslRetNotOk_ok.1 hkey, opensslRetNotOk_ok.1 hused⟩
    · exact Or.inr ⟨hused, some key, rfl, fun htrue => absurd htrue hcert⟩
  · exact Or.inr (fails_same hkey)

theorem use_eq {o : UseOutcomes} (h : UseSucceeds ssl s cert key o)
    (hverify : ssl.verifyCert s.store cert = none ∨ Untrusted ssl s.store cert) :
    useCertificateAndKey ssl s cert key o = some (.ok, withKeyPair s cert key s.csr) := by
  obtain ⟨hcert, hinit, hmatch, hkey, hused⟩ := h
  have hchain : verifyCertChain ssl s.store o.init cert = .ok := verifyCertChain_ok.2 ⟨hinit, hverify⟩
  rw [useCertificateAndKey, returnNotOk, if_pos hchain, returnNotOk, if_pos (checkKeyMatch_ok.2 hmatch), hkey, hused,
    adoptKeyPair_eq hcert hmatch]

theorem use_fails {o : UseOutcomes} (h : useCertificateAndKey ssl s cert key o = some r) :
    (UseSucceeds ssl s cert key o ∧ (ssl.verifyCert s.store cert = none ∨ Untrusted ssl s.store cert)) ∨ Fails s r := by
  obtain ⟨hchain, h⟩ | ⟨hchain, rfl⟩ := returnNotOk_some.1 h
  · obtain ⟨hmatch, h⟩ | ⟨hmatch, rfl⟩ := returnNotOk_some.1 h
    · obtain ⟨hcert, ⟨hkey, hused⟩ | hfails⟩ := adoptKeyPair_cases h
      · obtain ⟨hinit, hverify⟩ := verifyCertChain_ok.1 hchain
        exact Or.inl ⟨⟨hcert, hinit, checkKeyMatch_ok.1 hmatch, hkey, hused⟩, hverify⟩
      · exact Or.inr hfails
    · exact Or.inr (fails_same hmatch)
  · exact Or.inr (fails_same hchain)

theorem generate_cases [DecidableEq Cert] {o : GenerateOutcomes Cert PrivateKey}
    (h : generateSelfSignedCertAndKey ssl s o = some r) : Fails s r ∨
      s.hasCert = false ∧ ∃ cert key, r = (.ok, withKeyPair s cert key (some (ssl.publicKey key))) := by
  unfold generateSelfSignedCertAndKey at h
  split at h
  · cases h
    exact Or.inl (fails_same (by simp))
  · rename_i key cert _
    split_ifs at h with hmade
    obtain ⟨hcert, ⟨hkey, hused⟩ | hfails⟩ := adoptKeyPair_cases h
    · rw [hkey, hused, adoptKeyPair_eq hcert hmade.2] at h
      exact Or.inr ⟨hcert, cert, key, (Option.some.inj h).symm⟩
    · exact Or.inl hfails

theorem adopt_without_csr {o : AdoptOutcomes} (hcsr : s.csr = none) :
    adoptSignedCert ssl s cert o = some (verifyCertChain ssl s.store o.init cert, s) := by
  simp only [adoptSignedCert, hcsr, returnNotOk]
  split_ifs with h
  · rw [h]
  · rfl

/-- the private key for the CSR -/
def KeyFor (ssl : OpenSsl Cert PrivateKey PublicKey) (s : TlsContext Cert PrivateKey PublicKey) (csrKey : PublicKey) : Prop :=
  ∃ key, s.privateKey = some key ∧ ssl.publicKey key = csrKey

theorem setCertificate_checked (hssl : ssl.Documented) (cert : Cert) {csrKey : PublicKey} (hkey : KeyFor ssl s csrKey)
    (hequal : ssl.cmp csrKey (ssl.certKey cert) = 1) :
    setCertificate ssl s cert = { s with certificate := some cert } ∧ checkPrivateKey ssl (setCertificate ssl s cert) = true := by
  obtain ⟨key, hprivate, rfl⟩ := hkey
  have hmatch : ssl.cmp (ssl.certKey cert) (ssl.publicKey key) = 1 :=
    (hssl.equal _ _).2 ((hssl.equal _ _).1 hequal).symm
  simp [setCertificate, checkPrivateKey, hprivate, hmatch, Option.filter]

theorem adopt_eq (hssl : ssl.Documented) {o : AdoptOutcomes} {csrKey : PublicKey} (hcsr : s.csr = some csrKey)
    (hkey : KeyFor ssl s csrKey) (h : AdoptSucceeds ssl csrKey cert o)
    (hverify : ssl.verifyCert s.store cert = none ∨ Untrusted ssl s.store cert) :
    adoptSignedCert ssl s cert o = some (.ok, { s with certificate := some cert, csr := none }) := by
  obtain ⟨hinit, hcsrKey, hcertKey, hequal, hused⟩ := h
  have hchain : verifyCertChain ssl s.store o.init cert = .ok := verifyCertChain_ok.2 ⟨hinit, hverify⟩
  obtain ⟨hset, hcheck⟩ := setCertificate_checked hssl cert hkey hequal
  simp only [adoptSignedCert, returnNotOk, hchain, hcsr, hcsrKey, hcertKey, hused, opensslRetNotOk, if_true,
    equals_true.2 hequal, hcheck]
  rw [hset]

/-- otherwise the call fails without an effect -/
theorem adopt_fails (ssl : OpenSsl Cert PrivateKey PublicKey) (cert : Cert) (o : AdoptOutcomes) {csrKey : PublicKey}
    (hcsr : s.csr = some csrKey) :
    (AdoptSucceeds ssl csrKey cert o ∧ (ssl.verifyCert s.store cert = none ∨ Untrusted ssl s.store cert)) ∨
      ∃ status, status ≠ .ok ∧ adoptSignedCert ssl s cert o = some (status, s) := by
  unfold adoptSignedCert
  by_cases hchain : verifyCertChain ssl s.store o.init cert = .ok
  swap
  · exact Or.inr ⟨_, hchain, by rw [returnNotOk, if_neg hchain]⟩
  rw [returnNotOk, if_pos hchain]
  simp only [hcsr]
  by_cases hcsrKey : opensslRetNotOk "unable to get CSR public key" o.csrKey = .ok
  swap
  · exact Or.inr ⟨_, hcsrKey, by rw [returnNotOk, if_neg hcsrKey]⟩
  rw [returnNotOk, if_pos hcsrKey]
  by_cases hcertKey : opensslRetNotOk "unable to get certificate public key" o.certKey = .ok
  swap
  · exact Or.inr ⟨_, hcertKey, by rw [returnNotOk, if_neg hcertKey]⟩
  rw [returnNotOk, if_pos hcertKey]
  split
  · exact Or.inr ⟨_, by simp, rfl⟩
  · exact Or.inr ⟨_, by simp, rfl⟩
  · rename_i hequal
    by_cases hused : opensslRetNotOk "failed to use certificate" o.useCertificate = .ok
    · obtain ⟨hinit, hverify⟩ := verifyCertChain_ok.1 hchain
      exact Or.inl ⟨⟨hinit, opensslRetNotOk_ok.1 hcsrKey, opensslRetNotOk_ok.1 hcertKey, equals_true.1 hequal,
        opensslRetNotOk_ok.1 hused⟩, hverify⟩
    · exact Or.inr ⟨_, hused, by rw [returnNotOk, if_neg hused]⟩

/-! ## The invariant -/

structure Inv (ssl : OpenSsl Cert PrivateKey PublicKey) (s : TlsContext Cert PrivateKey PublicKey) : Prop where
  count : s.trustedCertCount = s.store.length
  csr : ∀ csrKey, s.csr = some csrKey → s.hasCert = true ∧ KeyFor ssl s csrKey

theorem Inv.no_csr (h : Inv ssl s) (hcert : s.hasCert = false) : s.csr = none := by
  cases hcsr : s.csr with
  | none => rfl
  | some csrKey => exact absurd (h.csr csrKey hcsr).1 (by simp [hcert])

theorem inv_fails (h : Inv ssl s) (hr : Fails s r) : Inv ssl r.2 := by
  obtain ⟨-, key, heq, hsame⟩ := hr
  rw [heq]
  refine ⟨h.count, fun csrKey hcsr => ?_⟩
  obtain ⟨hcert, hkey⟩ := h.csr csrKey hcsr
  rw [hsame hcert]
  exact ⟨hcert, hkey⟩

theorem inv_withKeyPair (h : Inv ssl s) {csr : Option PublicKey} (hcsr : csr = none ∨ csr = some (ssl.publicKey key)) :
    Inv ssl (withKeyPair s cert key csr) := by
  refine ⟨h.count, fun csrKey hsome => ⟨rfl, key, rfl, ?_⟩⟩
  obtain rfl | rfl := hcsr
  · cases hsome
  · exact Option.some.inj hsome

theorem noteAdoption_of_ok (h : r.1 = .ok) :
    noteAdoption r = { r.2 with adoptions := r.2.hasSignedCert :: r.2.adoptions } := by rw [noteAdoption, if_pos h]

theorem noteAdoption_of_bad (h : r.1 ≠ .ok) : noteAdoption r = r.2 := by rw [noteAdoption, if_neg h]

theorem inv_step [DecidableEq Cert] (hssl : ssl.Documented) (s : TlsContext Cert PrivateKey PublicKey)
    (o : Op Cert PrivateKey) (t : TlsContext Cert PrivateKey PublicKey) (h : Inv ssl s)
    (hst : (machine ssl).step s o = some t) : Inv ssl t := by
  cases o with
  | addTrustedCertificate cert outcome =>
    obtain ⟨r, hr, rfl⟩ := Option.map_eq_some_iff.1 hst
    cases outcome with
    | added =>
      simp only [addTrustedCertificate] at hr
      split_ifs at hr
      cases hr
      exact ⟨congrArg (· + 1) h.count, h.csr⟩
    | alreadyInHashTable =>
      simp only [addTrustedCertificate] at hr
      split_ifs at hr
      cases hr
      exact h
    | failed errors =>
      cases hr
      exact h
  | useCertificateAndKey cert key o =>
    obtain ⟨r, hr, rfl⟩ := Option.map_eq_some_iff.1 hst
    obtain ⟨hsucceeds, hverify⟩ | hfails := use_fails hr
    · rw [use_eq hsucceeds hverify] at hr
      cases hr
      exact inv_withKeyPair h (Or.inl (h.no_csr hsucceeds.1))
    · exact inv_fails h hfails
  | generateSelfSignedCertAndKey o =>
    obtain ⟨r, hr, rfl⟩ := Option.map_eq_some_iff.1 hst
    obtain hfails | ⟨-, cert, key, rfl⟩ := generate_cases hr
    · exact inv_fails h hfails
    · exact inv_withKeyPair h (Or.inr rfl)
  | adoptSignedCert cert o =>
    obtain ⟨r, hr, rfl⟩ := Option.map_eq_some_iff.1 hst
    have hnote : Inv ssl r.2 → Inv ssl (noteAdoption r) := by
      intro hinv
      unfold noteAdoption
      split_ifs
      · exact ⟨hinv.count, hinv.csr⟩
      · exact hinv
    apply hnote
    cases hcsr : s.csr with
    | none =>
      rw [adopt_without_csr hcsr] at hr
      cases hr
      exact h
    | some csrKey =>
      obtain ⟨hsucceeds, hverify⟩ | ⟨status, -, heq⟩ := adopt_fails ssl cert o hcsr
      · rw [adopt_eq hssl hcsr (h.csr csrKey hcsr).2 hsucceeds hverify] at hr
        cases hr
        exact ⟨h.count, fun k hk => by cases hk⟩
      · rw [heq] at hr
        cases hr
        exact h

/-- **The `CHECK` holds**: `AdoptSignedCert` always returns. -/
theorem checks_pass (hssl : ssl.Documented) (h : Inv ssl s) (cert : Cert) (o : AdoptOutcomes) :
    adoptSignedCert ssl s cert o ≠ none := by
  cases hcsr : s.csr with
  | none =>
    rw [adopt_without_csr hcsr]
    simp
  | some csrKey =>
    obtain ⟨hsucceeds, hverify⟩ | ⟨status, -, heq⟩ := adopt_fails ssl cert o hcsr
    · rw [adopt_eq hssl hcsr (h.csr csrKey hcsr).2 hsucceeds hverify]
      simp
    · rw [heq]
      simp

/-! ## Good states -/

/-- a call that fails -/
theorem good_fails (h : Good ssl s) (hr : Fails s r) : Good ssl r.2 := by
  obtain ⟨-, key, heq, -⟩ := hr
  rw [heq]
  exact ⟨h.signed, h.adopted⟩

theorem trusted_of_chained (hinv : Inv ssl s) (hchained : Chained ssl.issuer s.store cert) : s.hasTrustedCert = true := by
  have hpos := List.length_pos_of_ne_nil (chained_nonempty hchained)
  have hcount := hinv.count
  simp only [TlsContext.hasTrustedCert, decide_eq_true_eq]
  omega

/-- a certificate that is taken as signed -/
theorem good_signed (hinv : Inv ssl s) {t : TlsContext Cert PrivateKey PublicKey}
    (hsigned : t.hasSignedCert = true) (hcertificate : t.certificate = some cert) (hstore : t.store = s.store)
    (hcount : t.trustedCertCount = s.trustedCertCount) (hadopted : ∀ signed ∈ t.adoptions, signed = true) :
    Good ssl t ↔ Chained ssl.issuer s.store cert := by
  constructor
  · intro hgood
    obtain ⟨⟨c, hc, hchained⟩, -⟩ := hgood.signed hsigned
    obtain rfl : cert = c := Option.some.inj (hcertificate.symm.trans hc)
    rw [hstore] at hchained
    exact hchained
  · intro hchained
    refine ⟨fun _ => ⟨⟨cert, hcertificate, ?_⟩, ?_⟩, hadopted⟩
    · rw [hstore]
      exact hchained
    · have htrusted := trusted_of_chained hinv hchained
      simp only [TlsContext.hasTrustedCert, hcount] at htrusted ⊢
      exact htrusted

theorem chained_iff (hssl : ssl.Documented) {store : List Cert}
    (hverify : ssl.verifyCert store cert = none ∨ Untrusted ssl store cert) :
    Chained ssl.issuer store cert ↔ ¬ Untrusted ssl store cert := by
  constructor
  · intro hchained huntrusted
    exact untrusted_not_chained hssl huntrusted hchained
  · intro hno
    exact (hssl.verifies store cert).1 (hverify.resolve_right hno)

variable [DecidableEq Cert]

theorem good_add (h : Good ssl s) (outcome : AddOutcome) :
    ∀ t ∈ (machine ssl).step s (.addTrustedCertificate cert outcome), Good ssl t := by
  intro t ht
  obtain ⟨r, hr, rfl⟩ := Option.map_eq_some_iff.1 ht
  cases outcome with
  | added =>
    simp only [addTrustedCertificate] at hr
    split_ifs at hr
    cases hr
    refine ⟨fun hsigned => ?_, h.adopted⟩
    obtain ⟨⟨c, hc, hchained⟩, -⟩ := h.signed hsigned
    exact ⟨⟨c, hc, chained_mono (List.subset_cons_self cert s.store) hchained⟩, decide_eq_true (Nat.succ_pos _)⟩
  | alreadyInHashTable =>
    simp only [addTrustedCertificate] at hr
    split_ifs at hr
    cases hr
    exact h
  | failed errors =>
    cases hr
    exact h

/-- `UseCertificateAndKey` keeps the contract unless it takes an untrusted certificate -/
theorem good_use (hssl : ssl.Documented) (hinv : Inv ssl s) (h : Good ssl s) (o : UseOutcomes) :
    (∀ t ∈ (machine ssl).step s (.useCertificateAndKey cert key o), Good ssl t) ↔
      Cond ssl s (.useCertificateAndKey cert key o) := by
  by_cases hsucceeds : UseSucceeds ssl s cert key o ∧ (ssl.verifyCert s.store cert = none ∨ Untrusted ssl s.store cert)
  · have hgood : Good ssl (withKeyPair s cert key s.csr) ↔ Chained ssl.issuer s.store cert := by
      have hcsr := hinv.no_csr hsucceeds.1.1
      refine good_signed hinv ?_ rfl rfl rfl h.adopted
      simp [TlsContext.hasSignedCert, withKeyPair, hcsr]
    have hstep : (machine ssl).step s (.useCertificateAndKey cert key o) = some (withKeyPair s cert key s.csr) := by
      simp only [machine, use_eq hsucceeds.1 hsucceeds.2, Option.map_some]
    simp [hstep, hgood, chained_iff hssl hsucceeds.2, Cond, hsucceeds.1]
  · refine iff_of_true (fun t ht => ?_) fun hs huntrusted => hsucceeds ⟨hs, Or.inr huntrusted⟩
    obtain ⟨r, hr, rfl⟩ := Option.map_eq_some_iff.1 ht
    exact good_fails h ((use_fails hr).resolve_left hsucceeds)

theorem good_generate (h : Good ssl s) (o : GenerateOutcomes Cert PrivateKey) :
    ∀ t ∈ (machine ssl).step s (.generateSelfSignedCertAndKey o), Good ssl t := by
  intro t ht
  obtain ⟨r, hr, rfl⟩ := Option.map_eq_some_iff.1 ht
  obtain hfails | ⟨-, cert, key, rfl⟩ := generate_cases hr
  · exact good_fails h hfails
  · -- the CSR says that the certificate is not signed yet
    exact ⟨fun hsigned => by simp [TlsContext.hasSignedCert, withKeyPair] at hsigned, h.adopted⟩

/-- an `AdoptSignedCert` without a CSR changes nothing -/
theorem good_adopt_without_csr (h : Good ssl s) (hcsr : s.csr = none) (o : AdoptOutcomes) :
    (∀ t ∈ (machine ssl).step s (.adoptSignedCert cert o), Good ssl t) ↔ Cond ssl s (.adoptSignedCert cert o) := by
  have hstep : (machine ssl).step s (.adoptSignedCert cert o) =
      some (noteAdoption (verifyCertChain ssl s.store o.init cert, s)) := by
    simp only [machine, adopt_without_csr hcsr, Option.map_some]
  have hsigned : s.hasSignedCert = s.hasCert := by simp [TlsContext.hasSignedCert, hcsr]
  have hcond : Cond ssl s (.adoptSignedCert cert o) ↔
      (verifyCertChain ssl s.store o.init cert = .ok → s.hasCert = true) := by
    simp only [Cond, hcsr, verifyCertChain_ok]
    cases s.hasCert <;> simp
  rw [hstep, hcond]
  constructor
  · intro hall hok
    have hgood := hall _ rfl
    rw [noteAdoption_of_ok hok] at hgood
    rw [← hsigned]
    exact hgood.adopted _ List.mem_cons_self
  · intro hcert t ht
    obtain rfl := Option.some.inj ht
    by_cases hok : verifyCertChain ssl s.store o.init cert = .ok
    · rw [noteAdoption_of_ok hok]
      refine ⟨h.signed, fun signed hmem => ?_⟩
      obtain rfl | hmem := List.mem_cons.1 hmem
      · exact hsigned.trans (hcert hok)
      · exact h.adopted signed hmem
    · rw [noteAdoption_of_bad hok]
      exact h

/-- with a CSR `AdoptSignedCert` keeps the contract unless it takes an untrusted certificate -/
theorem good_adopt (hssl : ssl.Documented) (hinv : Inv ssl s) (h : Good ssl s) {csrKey : PublicKey}
    (hcsr : s.csr = some csrKey) (o : AdoptOutcomes) :
    (∀ t ∈ (machine ssl).step s (.adoptSignedCert cert o), Good ssl t) ↔ Cond ssl s (.adoptSignedCert cert o) := by
  have hcond : Cond ssl s (.adoptSignedCert cert o) ↔
      (AdoptSucceeds ssl csrKey cert o → ¬ Untrusted ssl s.store cert) := by simp only [Cond, hcsr]
  obtain ⟨hcert, hkey⟩ := hinv.csr csrKey hcsr
  rw [hcond]
  by_cases hsucceeds : AdoptSucceeds ssl csrKey cert o ∧
      (ssl.verifyCert s.store cert = none ∨ Untrusted ssl s.store cert)
  · let t : TlsContext Cert PrivateKey PublicKey :=
      { s with certificate := some cert, csr := none, adoptions := true :: s.adoptions }
    have hstep : (machine ssl).step s (.adoptSignedCert cert o) = some t := by
      simp [machine, adopt_eq hssl hcsr hkey hsucceeds.1 hsucceeds.2, noteAdoption, TlsContext.hasSignedCert, hcert, t]
    have hadopted : ∀ signed ∈ t.adoptions, signed = true := by
      intro signed hmem
      obtain rfl | hmem := List.mem_cons.1 hmem
      · rfl
      · exact h.adopted signed hmem
    have hsigned : t.hasSignedCert = true := by simp [TlsContext.hasSignedCert, t, hcert]
    have hgood : Good ssl t ↔ Chained ssl.issuer s.store cert := good_signed hinv hsigned rfl rfl rfl hadopted
    simp [hstep, hgood, chained_iff hssl hsucceeds.2, hsucceeds.1]
  · refine iff_of_true (fun t ht => ?_) fun hs huntrusted => hsucceeds ⟨hs, Or.inr huntrusted⟩
    obtain ⟨status, hbad, heq⟩ := (adopt_fails ssl cert o hcsr).resolve_left hsucceeds
    obtain ⟨r, hr, rfl⟩ := Option.map_eq_some_iff.1 ht
    obtain rfl := Option.some.inj (heq.symm.trans hr)
    rw [noteAdoption_of_bad hbad]
    exact h

theorem good_iff (hssl : ssl.Documented) (s : TlsContext Cert PrivateKey PublicKey) (o : Op Cert PrivateKey)
    (hinv : Inv ssl s) (h : Good ssl s) : (∀ t ∈ (machine ssl).step s o, Good ssl t) ↔ Cond ssl s o := by
  cases o with
  | addTrustedCertificate cert outcome => exact iff_of_true (good_add h outcome) trivial
  | useCertificateAndKey cert key o => exact good_use hssl hinv h o
  | generateSelfSignedCertAndKey o => exact iff_of_true (good_generate h o) trivial
  | adoptSignedCert cert o =>
    cases hcsr : s.csr with
    | none => exact good_adopt_without_csr h hcsr o
    | some csrKey => exact good_adopt hssl hinv h hcsr o

/-! ## Main result -/

theorem inv_init (ssl : OpenSsl Cert PrivateKey PublicKey) : Inv ssl (machine ssl).init :=
  ⟨rfl, fun _ h => nomatch h⟩

theorem good_init (ssl : OpenSsl Cert PrivateKey PublicKey) : Good ssl (machine ssl).init :=
  ⟨fun h => Bool.noConfusion h, fun _ h => absurd h List.not_mem_nil⟩

/-- **When a signed certificate is one.** In a run from `Init` every certificate that counts as signed has its chain in the
trust store, and every OK of `AdoptSignedCert` left a signed one, exactly when no call adopts an untrusted self-signed
certificate and no `AdoptSignedCert` verifies a certificate while there is none to replace. -/
theorem signed_exact (ssl : OpenSsl Cert PrivateKey PublicKey) (hssl : ssl.Documented) (ops : List (Op Cert PrivateKey)) :
    (machine ssl).Always (Good ssl) (machine ssl).init ops ↔ (machine ssl).Along (Cond ssl) (machine ssl).init ops :=
  Machine.always_iff_along (fun s o t h _ _ hst => inv_step hssl s o t h hst)
    (fun s o hinv h _ => good_iff hssl s o hinv h) (inv_init ssl) (good_init ssl) (Machine.along_true _ _)

/-! ## Witnesses -/

/-- certificate 2 is signed by 0 and has the key of 1; all others are self-signed -/
def fewCerts : OpenSsl ℕ ℕ ℕ where
  issuer c := if c = 2 then 0 else c
  certKey c := if c = 2 then 1 else c
  publicKey := id
  cmp a b := if a = b then 1 else 0
  verifyCert store c :=
    if c = 2 then if 0 ∈ store then none else some (.other 20, some c)
    else if c ∈ store then none else some (.depthZeroSelfSignedCert, some c)
  errorString _ := ""
  subjectName c := toString c
  issuerName c := toString c

theorem fewCerts_documented : fewCerts.Documented := by
  have hself : ∀ store c, c ≠ 2 → (Chained fewCerts.issuer store c ↔ c ∈ store) := by
    intro store c hc
    have hissuer : fewCerts.issuer c = c := if_neg hc
    constructor
    · intro h
      induction h with
      | root _ hmem => exact hmem
      | signed hmem _ _ =>
        rw [hissuer] at hmem
        exact hmem
    · exact Chained.root hissuer
  refine ⟨fun store c => ?_, fun a b => by simp [fewCerts]⟩
  by_cases hc : c = 2
  · subst hc
    have hsigned : Chained fewCerts.issuer store 2 ↔ 0 ∈ store := by
      constructor
      · rintro (⟨hroot, -⟩ | ⟨hmem, -⟩)
        · exact absurd hroot (by decide)
        · exact hmem
      · intro hmem
        exact Chained.signed hmem ((hself store 0 (by decide)).2 hmem)
    rw [hsigned]
    by_cases hmem : 0 ∈ store <;> simp [fewCerts, hmem]
  · rw [hself store c hc]
    by_cases hmem : c ∈ store <;> simp [fewCerts, hc, hmem]

def useOk : UseOutcomes := ⟨.ok (), "", .ok (), .ok ()⟩

def adoptOk : AdoptOutcomes := ⟨.ok (), .ok (), .ok (), .ok ()⟩

/-- **A self-signed certificate counts as signed, and OK can mean that nothing was adopted.** With an empty trust store
`UseCertificateAndKey` takes a self-signed certificate, and so does `AdoptSignedCert` with the one that the context generated
itself; without any certificate `AdoptSignedCert` returns OK. -/
theorem signed_breaks :
    let m := machine fewCerts
    fewCerts.Documented ∧
      (∃ s, m.run m.init [.useCertificateAndKey 3 3 useOk] = some s ∧
        s.hasSignedCert = true ∧ s.hasTrustedCert = false ∧ ¬ Good fewCerts s) ∧
      (∃ s, m.run m.init [.generateSelfSignedCertAndKey ⟨.ok (1, 1), .ok (), .ok ()⟩, .adoptSignedCert 1 adoptOk] = some s ∧
        s.hasSignedCert = true ∧ s.hasTrustedCert = false ∧ ¬ Good fewCerts s) ∧
      ∃ s, m.run m.init [.addTrustedCertificate 0 .added, .adoptSignedCert 2 adoptOk] = some s ∧
        s.hasSignedCert = false ∧ s.adoptions = [false] ∧ ¬ Good fewCerts s := by
  refine ⟨fewCerts_documented, ⟨_, rfl, rfl, rfl, fun h => ?_⟩, ⟨_, rfl, rfl, rfl, fun h => ?_⟩,
    _, rfl, rfl, rfl, fun h => ?_⟩
  · exact Bool.noConfusion (h.signed rfl).2
  · exact Bool.noConfusion (h.signed rfl).2
  · exact Bool.noConfusion (h.adopted false (List.mem_singleton_self _))

/-- the certificate that the context generates is replaced by the signed one, twice -/
def adoption : List (Op ℕ ℕ) :=
  [.generateSelfSignedCertAndKey ⟨.ok (1, 1), .ok (), .ok ()⟩, .adoptSignedCert 2 adoptOk, .addTrustedCertificate 0 .added,
    .adoptSignedCert 2 adoptOk, .adoptSignedCert 2 adoptOk]

theorem signed_exact_adopted :
    (machine fewCerts).Always (Good fewCerts) (machine fewCerts).init adoption ∧
      ((machine fewCerts).run (machine fewCerts).init adoption).map (fun s => (s.certificate, s.hasSignedCert, s.adoptions)) =
        some (some 2, true, [true, true]) := by
  have hcond : (machine fewCerts).Along (Cond fewCerts) (machine fewCerts).init adoption := by
    refine ⟨trivial, fun t ht => ?_⟩
    obtain rfl := Option.some.inj ht
    refine ⟨fun _ h => absurd h (by decide), fun t ht => ?_⟩
    obtain rfl := Option.some.inj ht
    refine ⟨trivial, fun t ht => ?_⟩
    obtain rfl := Option.some.inj ht
    refine ⟨fun _ h => absurd h (by decide), fun t ht => ?_⟩
    obtain rfl := Option.some.inj ht
    exact ⟨fun hcert => Bool.noConfusion hcert, fun t ht => trivial⟩
  exact ⟨(signed_exact fewCerts fewCerts_documented adoption).2 hcond, rfl⟩

end Bboy.Tls
