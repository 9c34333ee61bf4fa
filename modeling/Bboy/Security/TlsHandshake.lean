/-
Lean model of `TlsHandshake` (`bboy/security/tls_handshake.{h,cc}`) and `TlsContext::InitiateHandshake`, and of a client and a
server that pass each other what `Continue` gives them to send.

What `SSL_do_handshake` does is up to the environment (`Answer`): it takes some of the bytes it was given and writes others;
once it is complete it changes nothing. Every check, `DCHECK`s included, ends the process: the call is not enabled. The
descriptor of the socket is that of `Socket::Release`.

- `Inv`: once the handshake started, OpenSSL works in the mode that `Verify` reads; the certificate kept is the peer's.
- `finish_exact`: in every run, when `Finish` gives the socket to OpenSSL, when it leaves it alone, and when it loses the
  descriptor. A peer that has to be verified is verified by then.
- `bytes_in_order`: in every run what one side wrote is what the other side read, with what is on its way between them.
Witnesses: `finish_exact_server`, `bytes_in_order_server`.
-/
import Bboy.Base.Status
import Bboy.Core.Machine

namespace Bboy.Handshake

open Core

/-! ## OpenSSL -/

inductive TlsHandshakeType where
  | client
  | server
  deriving DecidableEq, Repr

inductive TlsVerificationMode where
  | verifyNone
  | verifyRemoteCertAndHost
  deriving DecidableEq, Repr

def sslVerifyNone : ℕ := 0

def sslVerifyPeer : ℕ := 1

def sslVerifyFailIfNoPeerCert : ℕ := 2

def sslVerifyClientOnce : ℕ := 4

def x509VOk : ℤ := 0

variable {Cert : Type}

/-- an `SSL` between two memory BIOs -/
structure Ssl (Cert : Type) where
  state : TlsHandshakeType
  verifyMode : ℕ
  initFinished : Bool
  verifyResult : ℤ
  certificate : Option Cert
  peerCertificate : Option Cert
  rbio : List UInt8
  wbio : List UInt8

inductive SslError where
  | wantRead
  | wantWrite
  | other (description : String)
  deriving DecidableEq, Repr

/-- what an `SSL_do_handshake` does; `rc` is OK for 1, else what `SSL_get_error` says -/
structure Answer (Cert : Type) where
  rc : Except SslError Unit
  consumed : ℕ
  produced : List UInt8
  verifyResult : ℤ
  certificate : Option Cert
  peerCertificate : Option Cert

/-- it reads no more than there is, and a complete handshake stays as it is -/
def Answer.Possible (ssl : Ssl Cert) (a : Answer Cert) : Prop :=
  a.consumed ≤ ssl.rbio.length ∧
    (ssl.initFinished = true → a.rc = .ok () ∧ a.produced = [] ∧ a.verifyResult = ssl.verifyResult ∧
      a.certificate = ssl.certificate ∧ a.peerCertificate = ssl.peerCertificate)

instance [DecidableEq Cert] (ssl : Ssl Cert) (a : Answer Cert) : Decidable (a.Possible ssl) :=
  inferInstanceAs (Decidable (_ ∧ (_ → _)))

def sslDoHandshake (ssl : Ssl Cert) (a : Answer Cert) : Ssl Cert :=
  { ssl with
    initFinished := decide (a.rc = .ok ())
    verifyResult := a.verifyResult
    certificate := a.certificate
    peerCertificate := a.peerCertificate
    rbio := ssl.rbio.drop a.consumed
    wbio := ssl.wbio ++ a.produced }

/-! ## The handshake -/

structure TlsHandshake (Cert : Type) where
  hasStarted : Bool
  verificationMode : TlsVerificationMode
  ssl : Option (Ssl Cert)
  localCert : Option Cert
  remoteCert : Option Cert

def TlsHandshake.new : TlsHandshake Cert := ⟨false, .verifyRemoteCertAndHost, none, none, none⟩

/-- `Continue`: the status, what `*send` holds then, and the handshake -/
abbrev Continued (Cert : Type) := Status × List UInt8 × TlsHandshake Cert

/-- a socket by its descriptor, -1 if it was released -/
inductive Socket (Cert : Type) where
  | plain (fd : ℤ)
  | tls (fd : ℤ) (ssl : Ssl Cert)

namespace Socket

def fd : Socket Cert → ℤ
  | plain fd => fd
  | tls fd _ => fd

def release : Socket Cert → Socket Cert
  | plain _ => plain (-1)
  | tls _ ssl => tls (-1) ssl

end Socket

namespace TlsHandshake

variable (h : TlsHandshake Cert)

def setVerificationMode (mode : TlsVerificationMode) : Option (TlsHandshake Cert) :=
  if h.hasStarted then none else some { h with verificationMode := mode }

/-- `TlsContext::InitiateHandshake`; SSL_new takes the certificate of the context, or fails with the errors given -/
def initiateHandshake (handshakeType : TlsHandshakeType) (sslNew : Except String (Option Cert)) :
    Option (Status × TlsHandshake Cert) :=
  if h.ssl.isSome then none
  else
    match sslNew with
    | .error errors => some (.bad (.runtimeErrorWith "failed to create SSL handle" errors), h)
    | .ok certificate =>
      some (.ok, { h with ssl := some ⟨handshakeType, sslVerifyNone, false, x509VOk, certificate, none, [], []⟩ })

def sslMode : TlsVerificationMode → ℕ
  | .verifyNone => sslVerifyNone
  | .verifyRemoteCertAndHost => sslVerifyPeer ||| sslVerifyFailIfNoPeerCert ||| sslVerifyClientOnce

def setSSLVerify : Option (TlsHandshake Cert) :=
  match h.ssl with
  | none => none
  | some ssl =>
    if h.hasStarted then none else some { h with ssl := some { ssl with verifyMode := sslMode h.verificationMode } }

/-- the start of `Continue` -/
def start : Option (TlsHandshake Cert) :=
  if h.hasStarted then some h else h.setSSLVerify.map fun h => { h with hasStarted := true }

/-- the end of `Continue`: behind SSL_do_handshake -/
def respond (ssl : Ssl Cert) (rc : Except SslError Unit) (send : List UInt8) : Option (Continued Cert) :=
  let drained := { h with ssl := some { ssl with wbio := [] } }
  match rc with
  | .ok () => some (.ok, ssl.wbio, drained)
  | .error (.other description) =>
    some (.bad (.runtimeErrorWith "TLS Handshake error" description), send, { h with ssl := some ssl })
  | .error _ =>
    -- DCHECK_GT(send->size(), 0)
    if ssl.wbio = [] then none else some (.bad (.incomplete "TLS Handshake incomplete"), ssl.wbio, drained)

variable [DecidableEq Cert]

def continueWith (recv send : List UInt8) (a : Answer Cert) : Option (Continued Cert) :=
  h.start.bind fun h =>
    match h.ssl with
    | none => none
    | some ssl =>
      -- an int counts the bytes, and DCHECK_EQ(BIO_ctrl_pending(rbio), recv.size())
      if recv.length < 2 ^ 31 ∧ ssl.rbio = [] then
        let ssl := { ssl with rbio := recv }
        if a.Possible ssl then h.respond (sslDoHandshake ssl a) a.rc send else none
      else none

omit [DecidableEq Cert]

def getCerts : Option (TlsHandshake Cert) :=
  h.ssl.map fun ssl => { h with
    localCert := ssl.certificate.or h.localCert
    remoteCert := ssl.peerCertificate.or h.remoteCert }

def verify (errorString : ℤ → String) : Option Status :=
  match h.ssl with
  | none => none
  | some ssl =>
    -- DCHECK(SSL_is_init_finished(ssl_.get()))
    if ssl.initFinished = false then none
    else if h.verificationMode = .verifyNone then some .ok
    else if ssl.verifyResult ≠ x509VOk then
      some (.bad (.notAuthorized "SSL_get_verify_result()" (errorString ssl.verifyResult)))
    else if h.remoteCert = none ∧ ssl.verifyMode &&& sslVerifyFailIfNoPeerCert ≠ 0 then
      some (.bad (.notAuthorized "Handshake failed: unable to retreive peer certificate" ""))
    else some .ok

/-- `Finish`: the status, the handshake and the socket then; `setFd` is what SSL_set_fd says -/
def finish (errorString : ℤ → String) (socket : Socket Cert) (setFd : Except String Unit) :
    Option (Status × TlsHandshake Cert × Socket Cert) :=
  h.getCerts.bind fun h =>
    (h.verify errorString).bind fun s =>
      match s, h.ssl, setFd with
      | .bad e, _, _ => some (.bad e, h, socket)
      | .ok, none, _ => none
      | .ok, some _, .error errors => some (.bad (.runtimeErrorWith "TLS handshake error" errors), h, socket.release)
      | .ok, some ssl, .ok () => some (.ok, { h with ssl := none }, .tls socket.fd ssl)

def finishNoWrap (errorString : ℤ → String) : Option (Status × TlsHandshake Cert) :=
  h.getCerts.bind fun h => (h.verify errorString).map fun s => (s, h)

def getLocalCert : Except BadStatus Cert :=
  match h.localCert with
  | none => .error (.runtimeError "no local certificate")
  | some cert => .ok cert

def getRemoteCert : Except BadStatus Cert :=
  match h.remoteCert with
  | none => .error (.runtimeError "no remote certificate")
  | some cert => .ok cert

end TlsHandshake

/-! ## A client and a server -/

/-- a side with its socket; as ghosts, all bytes that its SSL has read and has written -/
structure Endpoint (Cert : Type) where
  handshake : TlsHandshake Cert
  socket : Socket Cert
  read : List UInt8
  wrote : List UInt8

/-- the SSL of a side; one that a socket took over holds what it had not read when its buffers were freed -/
def Endpoint.ssl (e : Endpoint Cert) : Option (Ssl Cert) :=
  match e.handshake.ssl, e.socket with
  | some ssl, _ => some ssl
  | none, .tls _ ssl => some ssl
  | none, .plain _ => none

/-- both sides, and the messages on their way to each -/
structure St (Cert : Type) where
  endpoint : TlsHandshakeType → Endpoint Cert
  inFlight : TlsHandshakeType → List (List UInt8)

inductive Op (Cert : Type) where
  | setVerificationMode (side : TlsHandshakeType) (mode : TlsVerificationMode)
  | continueWith (side : TlsHandshakeType) (a : Answer Cert)
  | finish (side : TlsHandshakeType) (setFd : Except String Unit)
  | finishNoWrap (side : TlsHandshakeType)

def TlsHandshakeType.peer : TlsHandshakeType → TlsHandshakeType
  | .client => .server
  | .server => .client

def St.setEndpoint (s : St Cert) (side : TlsHandshakeType) (e : Endpoint Cert) : St Cert :=
  { s with endpoint := Function.update s.endpoint side e }

/-- what OpenSSL read and wrote in a `Continue` -/
def Endpoint.continued (e : Endpoint Cert) (recv : List UInt8) (a : Answer Cert) (h : TlsHandshake Cert) : Endpoint Cert :=
  { e with handshake := h, read := e.read ++ recv.take a.consumed, wrote := e.wrote ++ a.produced }

/-- the next message to a side is gone, and what it sends, if anything, is on its way -/
def passOn (inFlight : TlsHandshakeType → List (List UInt8)) (side : TlsHandshakeType) (send : List UInt8) :
    TlsHandshakeType → List (List UInt8) :=
  let received := Function.update inFlight side (inFlight side).tail
  if send = [] then received else Function.update received side.peer ((received side.peer).concat send)

/-- one round of a side: it takes the next message to it, or none, and sends what it has to send, unless it failed -/
def continueSide [DecidableEq Cert] (s : St Cert) (side : TlsHandshakeType) (a : Answer Cert) : Option (St Cert) :=
  let e := s.endpoint side
  let recv := (s.inFlight side).headD []
  (e.handshake.continueWith recv [] a).map fun r =>
    ⟨Function.update s.endpoint side (e.continued recv a r.2.2), passOn s.inFlight side r.2.1⟩

def endpoint (certificate : Option Cert) (side : TlsHandshakeType) (fd : ℤ) : Endpoint Cert :=
  ⟨((TlsHandshake.new.initiateHandshake side (.ok certificate)).map Prod.snd).getD .new, .plain fd, [], []⟩

/-- both sides have an SSL; `certificates` and `fds` are theirs -/
def exchange [DecidableEq Cert] (errorString : ℤ → String) (certificates : TlsHandshakeType → Option Cert)
    (fds : TlsHandshakeType → ℤ) : Machine (St Cert) (Op Cert) where
  init := ⟨fun side => endpoint (certificates side) side (fds side), fun _ => []⟩
  step s
    | .setVerificationMode side mode =>
      let e := s.endpoint side
      (e.handshake.setVerificationMode mode).map fun h => s.setEndpoint side { e with handshake := h }
    | .continueWith side a => continueSide s side a
    | .finish side setFd =>
      let e := s.endpoint side
      (e.handshake.finish errorString e.socket setFd).map fun r =>
        s.setEndpoint side { e with handshake := r.2.1, socket := r.2.2 }
    | .finishNoWrap side =>
      let e := s.endpoint side
      (e.handshake.finishNoWrap errorString).map fun r => s.setEndpoint side { e with handshake := r.2 }

/-! ## What a call does -/

variable {errorString : ℤ → String} {h : TlsHandshake Cert} {recv send : List UInt8} {a : Answer Cert}

namespace TlsHandshake

/-- the mode in which OpenSSL works from the first `Continue` on -/
def modeOf (h : TlsHandshake Cert) (ssl : Ssl Cert) : ℕ :=
  if h.hasStarted then ssl.verifyMode else sslMode h.verificationMode

theorem start_some {h' : TlsHandshake Cert} {ssl' : Ssl Cert} (hs : h.start = some h') (hssl : h'.ssl = some ssl') :
    ∃ ssl, h.ssl = some ssl ∧ ssl' = { ssl with verifyMode := h.modeOf ssl } ∧
      h' = { h with hasStarted := true, ssl := some ssl' } := by
  unfold start at hs
  split_ifs at hs with hstarted
  · cases hs
    refine ⟨ssl', hssl, ?_, ?_⟩
    · rw [modeOf, if_pos hstarted]
    · rw [← hstarted, ← hssl]
  · obtain ⟨u, hu, rfl⟩ := Option.map_eq_some_iff.1 hs
    unfold setSSLVerify at hu
    cases hold : h.ssl with
    | none =>
      rw [hold] at hu
      cases hu
    | some ssl =>
      rw [hold] at hu
      simp only [if_neg hstarted] at hu
      cases hu
      cases hssl
      refine ⟨ssl, rfl, ?_, rfl⟩
      rw [modeOf, if_neg hstarted]

/-- all that a `Continue` can do to the SSL, and what it gives to send -/
structure Continues (h : TlsHandshake Cert) (recv send : List UInt8) (a : Answer Cert) (ssl : Ssl Cert)
    (r : Continued Cert) (ssl' : Ssl Cert) : Prop where
  before : h.ssl = some ssl
  empty : ssl.rbio = []
  possible : a.Possible { ssl with verifyMode := h.modeOf ssl, rbio := recv }
  after : r.2.2 = { h with hasStarted := true, ssl := some ssl' }
  verifyMode : ssl'.verifyMode = h.modeOf ssl
  initFinished : ssl'.initFinished = decide (a.rc = .ok ())
  verifyResult : ssl'.verifyResult = a.verifyResult
  peerCertificate : ssl'.peerCertificate = a.peerCertificate
  rbio : ssl'.rbio = recv.drop a.consumed
  sent : (r.2.1 = ssl.wbio ++ a.produced ∧ ssl'.wbio = []) ∨
    r.2.1 = send ∧ ssl'.wbio = ssl.wbio ++ a.produced ∧ a.rc ≠ .ok ()

theorem continueWith_cases [DecidableEq Cert] {r : Continued Cert} (hr : h.continueWith recv send a = some r) :
    ∃ ssl ssl', Continues h recv send a ssl r ssl' := by
  obtain ⟨u, hu, hr⟩ := Option.bind_eq_some_iff.1 hr
  cases hssl : u.ssl with
  | none =>
    rw [hssl] at hr
    cases hr
  | some v =>
    obtain ⟨ssl, hold, rfl, rfl⟩ := start_some hu hssl
    simp only at hr
    split_ifs at hr with hempty hpossible
    unfold respond at hr
    split at hr
    · rename_i hrc
      cases hr
      exact ⟨ssl, _, hold, hempty.2, hpossible, rfl, rfl, rfl, rfl, rfl, rfl, Or.inl ⟨rfl, rfl⟩⟩
    · rename_i description hrc
      cases hr
      refine ⟨ssl, _, hold, hempty.2, hpossible, rfl, rfl, rfl, rfl, rfl, rfl, Or.inr ⟨rfl, rfl, ?_⟩⟩
      rw [hrc]
      nofun
    · split_ifs at hr
      cases hr
      exact ⟨ssl, _, hold, hempty.2, hpossible, rfl, rfl, rfl, rfl, rfl, rfl, Or.inl ⟨rfl, rfl⟩⟩

theorem getCerts_some {h' : TlsHandshake Cert} (hc : h.getCerts = some h') : ∃ ssl, h.ssl = some ssl ∧
    h' = { h with localCert := ssl.certificate.or h.localCert, remoteCert := ssl.peerCertificate.or h.remoteCert } := by
  obtain ⟨ssl, hssl, rfl⟩ := Option.map_eq_some_iff.1 hc
  exact ⟨ssl, hssl, rfl⟩

end TlsHandshake

/-! ## The mode -/

/-- the peer may stay unknown, or its certificate was accepted -/
def Verified (mode : TlsVerificationMode) (ssl : Ssl Cert) : Prop :=
  mode = .verifyNone ∨ ssl.verifyResult = x509VOk ∧ ssl.peerCertificate ≠ none

/-- once the handshake started, OpenSSL works in the mode that `Verify` reads; the certificate kept is the peer's -/
structure Good (h : TlsHandshake Cert) (ssl : Ssl Cert) : Prop where
  started : ssl.initFinished = true → h.hasStarted = true
  mode : h.hasStarted = true → ssl.verifyMode = TlsHandshake.sslMode h.verificationMode
  remote : ∀ cert, h.remoteCert = some cert → ssl.initFinished = true ∧ ssl.peerCertificate = some cert

/-- the members of a handshake that nobody gave away yet -/
def TlsHandshake.Ok (h : TlsHandshake Cert) : Prop := ∀ ssl, h.ssl = some ssl → Good h ssl

open TlsHandshake

theorem continueWith_ok [DecidableEq Cert] {r : Continued Cert} (hok : h.Ok) (hr : h.continueWith recv send a = some r) :
    r.2.2.Ok := by
  obtain ⟨ssl, ssl', hc⟩ := continueWith_cases hr
  have hgood := hok ssl hc.before
  rw [hc.after]
  rintro _ ⟨⟩
  have hmode : h.modeOf ssl = sslMode h.verificationMode := by
    unfold modeOf
    split_ifs with hstarted
    · exact hgood.mode hstarted
    · rfl
  refine ⟨fun _ => rfl, fun _ => hc.verifyMode.trans hmode, fun cert hcert => ?_⟩
  -- a certificate was kept: the handshake was complete, and stays as it was
  obtain ⟨hfinished, hpeer⟩ := hgood.remote cert hcert
  obtain ⟨hrc, -, -, -, hsame⟩ := hc.possible.2 hfinished
  exact ⟨hc.initFinished.trans (decide_eq_true hrc), hc.peerCertificate.trans (hsame.trans hpeer)⟩

theorem verify_some {s : Status} (hv : h.verify errorString = some s) : ∃ ssl, h.ssl = some ssl ∧ ssl.initFinished = true := by
  unfold verify at hv
  cases hssl : h.ssl with
  | none =>
    rw [hssl] at hv
    cases hv
  | some ssl =>
    rw [hssl] at hv
    simp only at hv
    split_ifs at hv with hfinished
    all_goals exact ⟨ssl, rfl, by simpa using hfinished⟩

theorem sslMode_fails : sslMode .verifyRemoteCertAndHost &&& sslVerifyFailIfNoPeerCert ≠ 0 := by decide

/-- **`Verify` accepts exactly** a peer that is verified, and otherwise answers that it is not authorized. -/
theorem verify_exact {ssl : Ssl Cert} {s : Status} (hgood : Good h ssl) (hssl : h.ssl = some ssl)
    (hremote : h.remoteCert = ssl.peerCertificate) (hv : h.verify errorString = some s) :
    (s = .ok ∧ Verified h.verificationMode ssl) ∨
      ∃ e, s = .bad e ∧ e.code = .notAuthorized ∧ ¬ Verified h.verificationMode ssl := by
  unfold verify at hv
  rw [hssl] at hv
  simp only at hv
  split_ifs at hv with hfinished hnone hresult hmissing
  · cases hv
    exact Or.inl ⟨rfl, Or.inl hnone⟩
  · cases hv
    refine Or.inr ⟨_, rfl, rfl, ?_⟩
    rintro (h | h)
    · exact hnone h
    · exact hresult h.1
  · cases hv
    refine Or.inr ⟨_, rfl, rfl, ?_⟩
    rintro (h | h)
    · exact hnone h
    · exact h.2 (hremote ▸ hmissing.1)
  · cases hv
    refine Or.inl ⟨rfl, Or.inr ⟨not_not.1 hresult, fun hpeer => hmissing ⟨hremote.trans hpeer, ?_⟩⟩⟩
    -- the mode is the one that asks for a certificate
    have hmode : h.verificationMode = .verifyRemoteCertAndHost := by
      cases hm : h.verificationMode with
      | verifyNone => exact absurd hm hnone
      | verifyRemoteCertAndHost => rfl
    rw [hgood.mode (hgood.started (by simpa using hfinished)), hmode]
    exact sslMode_fails

theorem getCerts_remote {h' : TlsHandshake Cert} (hok : h.Ok) (hc : h.getCerts = some h') :
    ∃ ssl, h.ssl = some ssl ∧ h'.ssl = some ssl ∧ h'.hasStarted = h.hasStarted ∧
      h'.verificationMode = h.verificationMode ∧ h'.remoteCert = ssl.peerCertificate := by
  obtain ⟨ssl, hssl, rfl⟩ := getCerts_some hc
  refine ⟨ssl, hssl, hssl, rfl, rfl, ?_⟩
  cases hremote : h.remoteCert with
  | none => exact Option.or_none
  | some cert =>
    rw [((hok ssl hssl).remote cert hremote).2]
    rfl

/-- a call that fetched the certificates of a complete handshake -/
theorem getCerts_good {h' : TlsHandshake Cert} {ssl : Ssl Cert} {s : Status} (hok : h.Ok) (hc : h.getCerts = some h')
    (hssl : h'.ssl = some ssl) (hv : h'.verify errorString = some s) : Good h' ssl := by
  obtain ⟨ssl', hold, hnew, hstarted, hmode, hremote⟩ := getCerts_remote hok hc
  obtain rfl : ssl' = ssl := Option.some.inj (hnew.symm.trans hssl)
  obtain ⟨ssl', hssl', hfinished⟩ := verify_some hv
  obtain rfl : ssl' = _ := Option.some.inj (hssl'.symm.trans hssl)
  have hgood := hok _ hold
  refine ⟨fun hf => hstarted.trans (hgood.started hf), fun hs => ?_, fun cert hcert => ⟨hfinished, hremote.symm.trans hcert⟩⟩
  rw [hmode]
  exact hgood.mode (hstarted.symm.trans hs)

/-! ## The end of a handshake -/

/-- the three ways in which `Finish` ends -/
inductive Finished (mode : TlsVerificationMode) (ssl : Ssl Cert) (socket : Socket Cert) (setFd : Except String Unit) :
    Status × TlsHandshake Cert × Socket Cert → Prop
  /-- the peer is not the one it should be; the socket is as before -/
  | refused {h' : TlsHandshake Cert} (e : BadStatus) : ¬ Verified mode ssl → e.code = .notAuthorized → h'.ssl = some ssl →
      Finished mode ssl socket setFd (.bad e, h', socket)
  /-- the descriptor was released, and nobody has it -/
  | lost {h' : TlsHandshake Cert} (errors : String) : Verified mode ssl → setFd = .error errors → h'.ssl = some ssl →
      Finished mode ssl socket setFd (.bad (.runtimeErrorWith "TLS handshake error" errors), h', socket.release)
  | wrapped {h' : TlsHandshake Cert} : Verified mode ssl → setFd = .ok () → h'.ssl = none →
      Finished mode ssl socket setFd (.ok, h', .tls socket.fd ssl)

theorem finish_cases {socket : Socket Cert} {setFd : Except String Unit} {r : Status × TlsHandshake Cert × Socket Cert}
    (hok : h.Ok) (hf : h.finish errorString socket setFd = some r) :
    ∃ ssl, h.ssl = some ssl ∧ ssl.initFinished = true ∧ r.2.1.remoteCert = ssl.peerCertificate ∧ r.2.1.Ok ∧
      Finished h.verificationMode ssl socket setFd r := by
  obtain ⟨u, hu, hf⟩ := Option.bind_eq_some_iff.1 hf
  obtain ⟨s, hs, hf⟩ := Option.bind_eq_some_iff.1 hf
  obtain ⟨ssl, hold, hnew, -, hmode, hremote⟩ := getCerts_remote hok hu
  obtain ⟨ssl', hssl', hfinished⟩ := verify_some hs
  obtain rfl : ssl' = ssl := Option.some.inj (hssl'.symm.trans hnew)
  have hgood := getCerts_good hok hu hnew hs
  have huok : u.Ok := by
    intro v hv
    obtain rfl : v = ssl' := Option.some.inj (hv.symm.trans hnew)
    exact hgood
  have hverify := verify_exact hgood hnew hremote hs
  rw [hmode] at hverify
  refine ⟨ssl', hold, hfinished, ?_⟩
  rcases hverify with ⟨rfl, hverified⟩ | ⟨e, rfl, hcode, hbad⟩
  · rw [hnew] at hf
    cases setFd with
    | error errors =>
      cases hf
      exact ⟨hremote, huok, Finished.lost errors hverified rfl hnew⟩
    | ok v =>
      cases hf
      exact ⟨hremote, (fun _ hv => nomatch hv), Finished.wrapped hverified rfl rfl⟩
  · cases hf
    exact ⟨hremote, huok, Finished.refused e hbad hcode hnew⟩

theorem finishNoWrap_cases {r : Status × TlsHandshake Cert} (hok : h.Ok) (hf : h.finishNoWrap errorString = some r) :
    ∃ ssl, h.ssl = some ssl ∧ r.2.ssl = some ssl ∧ r.2.Ok ∧ (r.1 = .ok ↔ Verified h.verificationMode ssl) := by
  obtain ⟨u, hu, hf⟩ := Option.bind_eq_some_iff.1 hf
  obtain ⟨s, hs, rfl⟩ := Option.map_eq_some_iff.1 hf
  obtain ⟨ssl, hold, hnew, -, hmode, hremote⟩ := getCerts_remote hok hu
  have hgood := getCerts_good hok hu hnew hs
  refine ⟨ssl, hold, hnew, fun v hv => ?_, ?_⟩
  · obtain rfl : v = ssl := Option.some.inj (hv.symm.trans hnew)
    exact hgood
  · have hverify := verify_exact hgood hnew hremote hs
    rw [hmode] at hverify
    rcases hverify with ⟨rfl, hverified⟩ | ⟨e, rfl, -, hbad⟩
    · exact iff_of_true rfl hverified
    · exact iff_of_false nofun hbad

/-! ## The bytes between the sides -/

/-- what a side was given and did not read -/
def Endpoint.unread (e : Endpoint Cert) : List UInt8 := (e.ssl.map Ssl.rbio).getD []

/-- what a side wrote and did not send -/
def Endpoint.unsent (e : Endpoint Cert) : List UInt8 := (e.ssl.map Ssl.wbio).getD []

/-- what the one side wrote is what the other side read, what it has not read yet, what is on its way, and what is not sent -/
def Link (s : St Cert) (side : TlsHandshakeType) : Prop :=
  (s.endpoint side.peer).wrote =
    (s.endpoint side).read ++ (s.endpoint side).unread ++ (s.inFlight side).flatten ++ (s.endpoint side.peer).unsent

structure Inv (s : St Cert) : Prop where
  ok : ∀ side, (s.endpoint side).handshake.Ok
  /-- who is complete has sent all it wrote -/
  sent : ∀ side ssl, (s.endpoint side).ssl = some ssl → ssl.initFinished = true → ssl.wbio = []
  link : ∀ side, Link s side

theorem peer_peer (side : TlsHandshakeType) : side.peer.peer = side := by cases side <;> rfl

theorem peer_ne (side : TlsHandshakeType) : side.peer ≠ side := by cases side <;> nofun

theorem eq_or_peer (side d : TlsHandshakeType) : d = side ∨ d = side.peer := by
  cases side <;> cases d <;> simp [TlsHandshakeType.peer]

theorem headD_append_flatten (messages : List (List UInt8)) : messages.headD [] ++ messages.tail.flatten = messages.flatten := by
  cases messages <;> rfl

theorem passOn_self (inFlight : TlsHandshakeType → List (List UInt8)) (side : TlsHandshakeType) (send : List UInt8) :
    passOn inFlight side send side = (inFlight side).tail := by
  unfold passOn
  split_ifs
  · exact Function.update_self ..
  · rw [Function.update_of_ne (peer_ne side).symm]
    exact Function.update_self ..

theorem passOn_peer (inFlight : TlsHandshakeType → List (List UInt8)) (side : TlsHandshakeType) (send : List UInt8) :
    (passOn inFlight side send side.peer).flatten = (inFlight side.peer).flatten ++ send := by
  unfold passOn
  split_ifs with hsend
  · rw [Function.update_of_ne (peer_ne side), hsend, List.append_nil]
  · rw [Function.update_self, Function.update_of_ne (peer_ne side), List.concat_eq_append, List.flatten_append,
      List.flatten_singleton]

/-- a call gives all that is there to send, or leaves it -/
theorem TlsHandshake.Continues.bytes {ssl ssl' : Ssl Cert} {r : Continued Cert} (hc : Continues h recv [] a ssl r ssl') :
    r.2.1 ++ ssl'.wbio = ssl.wbio ++ a.produced := by
  rcases hc.sent with ⟨hsend, hwbio⟩ | ⟨hsend, hwbio, -⟩
  · rw [hsend, hwbio, List.append_nil]
  · rw [hsend, hwbio, List.nil_append]

section steps

variable {s : St Cert} {side : TlsHandshakeType}

theorem continueSide_inv [DecidableEq Cert] {s' : St Cert} (hi : Inv s) (hs : continueSide s side a = some s') : Inv s' := by
  obtain ⟨r, hr, rfl⟩ := Option.map_eq_some_iff.1 hs
  obtain ⟨ssl, ssl', hc⟩ := continueWith_cases hr
  have hssl : (s.endpoint side).ssl = some ssl := by
    unfold Endpoint.ssl
    rw [hc.before]
  set recv := (s.inFlight side).headD [] with hrecv
  set e' := (s.endpoint side).continued recv a r.2.2 with he'
  have hssl' : e'.ssl = some ssl' := by
    rw [he', Endpoint.continued, Endpoint.ssl, hc.after]
  have hself : Function.update s.endpoint side e' side = e' := Function.update_self ..
  have hpeer : Function.update s.endpoint side e' side.peer = s.endpoint side.peer :=
    Function.update_of_ne (peer_ne side) _ _
  refine ⟨fun d => ?_, fun d v hv hfinished => ?_, fun d => ?_⟩
  · rcases eq_or_peer side d with rfl | rfl
    · simp only [hself]
      exact continueWith_ok (hi.ok d) hr
    · simp only [hpeer]
      exact hi.ok _
  · rcases eq_or_peer side d with rfl | rfl
    · simp only [hself, hssl'] at hv
      cases hv
      -- a complete handshake ends with OK, and that call gave all there was
      have hrc : a.rc = .ok () := of_decide_eq_true (hc.initFinished.symm.trans hfinished)
      exact (hc.sent.resolve_right fun h => h.2.2 hrc).2
    · simp only [hpeer] at hv
      exact hi.sent _ v hv hfinished
  · rcases eq_or_peer side d with rfl | rfl
    · -- what it read comes from the message, and the rest of it is not read yet
      have hlink := hi.link d
      have hunread : (s.endpoint d).unread = [] := by rw [Endpoint.unread, hssl]; exact hc.empty
      have hunread' : e'.unread = recv.drop a.consumed := by rw [Endpoint.unread, hssl']; exact hc.rbio
      have hread : e'.read = (s.endpoint d).read ++ recv.take a.consumed := rfl
      unfold Link at hlink ⊢
      simp only [hself, hpeer, passOn_self]
      rw [hlink, hunread, hunread', hread, ← headD_append_flatten (s.inFlight d), ← hrecv]
      simp only [List.append_assoc, List.nil_append]
      rw [← List.append_assoc (recv.take _) (recv.drop _), List.take_append_drop]
    · -- what it wrote is given to send, or not
      have hlink := hi.link side.peer
      have hunsent : (s.endpoint side).unsent = ssl.wbio := by rw [Endpoint.unsent, hssl]; rfl
      have hunsent' : e'.unsent = ssl'.wbio := by rw [Endpoint.unsent, hssl']; rfl
      have hwrote : e'.wrote = (s.endpoint side).wrote ++ a.produced := rfl
      unfold Link at hlink ⊢
      rw [peer_peer] at hlink ⊢
      simp only [hself, hpeer, passOn_peer]
      rw [hwrote, hlink, hunsent, hunsent']
      simp only [List.append_assoc]
      rw [hc.bytes]

/-- a call that leaves the buffers of a side as they are -/
theorem setEndpoint_inv {e : Endpoint Cert} (hi : Inv s) (hok : e.handshake.Ok) (hssl : e.ssl = (s.endpoint side).ssl)
    (hread : e.read = (s.endpoint side).read) (hwrote : e.wrote = (s.endpoint side).wrote) :
    Inv (s.setEndpoint side e) := by
  have hself : (s.setEndpoint side e).endpoint side = e := Function.update_self ..
  have hpeer : (s.setEndpoint side e).endpoint side.peer = s.endpoint side.peer :=
    Function.update_of_ne (peer_ne side) _ _
  refine ⟨fun d => ?_, fun d v hv => ?_, fun d => ?_⟩
  · rcases eq_or_peer side d with rfl | rfl
    · rw [hself]
      exact hok
    · rw [hpeer]
      exact hi.ok _
  · rcases eq_or_peer side d with rfl | rfl
    · rw [hself, hssl] at hv
      exact hi.sent _ v hv
    · rw [hpeer] at hv
      exact hi.sent _ v hv
  · have hlink := hi.link d
    unfold Link Endpoint.unread Endpoint.unsent at hlink ⊢
    rcases eq_or_peer side d with rfl | rfl
    · rw [hself, hpeer, hssl, hread]
      exact hlink
    · rw [peer_peer] at hlink ⊢
      rw [hself, hpeer, hssl, hwrote]
      exact hlink

variable [DecidableEq Cert] {certificates : TlsHandshakeType → Option Cert} {fds : TlsHandshakeType → ℤ}

theorem step_inv {s' : St Cert} {o : Op Cert} (hi : Inv s)
    (hs : (exchange errorString certificates fds).step s o = some s') : Inv s' := by
  cases o with
  | setVerificationMode side mode =>
    obtain ⟨h', hh', rfl⟩ := Option.map_eq_some_iff.1 hs
    unfold setVerificationMode at hh'
    split_ifs at hh' with hstarted
    cases hh'
    refine setEndpoint_inv hi (fun ssl hssl => ?_) rfl rfl rfl
    have hgood := hi.ok side ssl hssl
    exact ⟨hgood.started, fun h => absurd h hstarted, hgood.remote⟩
  | continueWith side a => exact continueSide_inv hi hs
  | finish side setFd =>
    obtain ⟨r, hr, rfl⟩ := Option.map_eq_some_iff.1 hs
    obtain ⟨ssl, hssl, -, -, hok, hfinished⟩ := finish_cases (hi.ok side) hr
    refine setEndpoint_inv hi hok ?_ rfl rfl
    have hold : (s.endpoint side).ssl = some ssl := by
      unfold Endpoint.ssl
      rw [hssl]
    rw [hold]
    cases hfinished with
    | refused e hbad hcode hnew =>
      unfold Endpoint.ssl
      simp only [hnew]
    | lost errors hverified hfd hnew =>
      unfold Endpoint.ssl
      simp only [hnew]
    | wrapped hverified hfd hnew =>
      unfold Endpoint.ssl
      simp only [hnew]
  | finishNoWrap side =>
    obtain ⟨r, hr, rfl⟩ := Option.map_eq_some_iff.1 hs
    obtain ⟨ssl, hssl, hnew, hok, -⟩ := finishNoWrap_cases (hi.ok side) hr
    refine setEndpoint_inv hi hok ?_ rfl rfl
    unfold Endpoint.ssl
    simp only [hssl, hnew]

theorem init_inv : Inv (exchange errorString certificates fds).init := by
  refine ⟨fun side => ?_, fun side ssl hssl _ => ?_, fun side => rfl⟩
  · rintro _ ⟨⟩
    exact ⟨nofun, nofun, nofun⟩
  · cases hssl
    rfl

theorem run_inv {ops : List (Op Cert)}
    (hrun : (exchange errorString certificates fds).run (exchange errorString certificates fds).init ops = some s) : Inv s :=
  Machine.run_inv (fun _ _ _ hi hst => step_inv hi hst) init_inv hrun

/-! ## Results -/

/-- **`Finish` in every run.** It is possible only on a complete handshake that OpenSSL made in the mode of the handshake. It
wraps the socket exactly when the peer is verified and OpenSSL takes the descriptor; it refuses a peer that is not verified,
and keeps the socket; and if OpenSSL does not take the descriptor, nobody has it any more. -/
theorem finish_exact {ops : List (Op Cert)} {setFd : Except String Unit} {r : Status × TlsHandshake Cert × Socket Cert}
    (hrun : (exchange errorString certificates fds).run (exchange errorString certificates fds).init ops = some s)
    (hf : (s.endpoint side).handshake.finish errorString (s.endpoint side).socket setFd = some r) :
    ∃ ssl, (s.endpoint side).handshake.ssl = some ssl ∧ ssl.initFinished = true ∧
      ssl.verifyMode = sslMode (s.endpoint side).handshake.verificationMode ∧ r.2.1.remoteCert = ssl.peerCertificate ∧
      Finished (s.endpoint side).handshake.verificationMode ssl (s.endpoint side).socket setFd r := by
  have hok := (run_inv hrun).ok side
  obtain ⟨ssl, hssl, hfinished, hremote, -, hr⟩ := finish_cases hok hf
  have hgood := hok ssl hssl
  exact ⟨ssl, hssl, hfinished, hgood.mode (hgood.started hfinished), hremote, hr⟩

/-- **No byte is lost** between the sides, and none comes twice or out of order: what one side wrote is what the other has
read, then what it was given and has not read, what is on its way, and what the last `Continue` kept back. A side whose
handshake is complete keeps nothing back. -/
theorem bytes_in_order {ops : List (Op Cert)}
    (hrun : (exchange errorString certificates fds).run (exchange errorString certificates fds).init ops = some s) :
    (s.endpoint side.peer).wrote =
        (s.endpoint side).read ++ (s.endpoint side).unread ++ (s.inFlight side).flatten ++ (s.endpoint side.peer).unsent ∧
      ∀ ssl, (s.endpoint side.peer).ssl = some ssl → ssl.initFinished = true → (s.endpoint side.peer).unsent = [] := by
  have hi := run_inv hrun
  refine ⟨hi.link side, fun ssl hssl hfinished => ?_⟩
  rw [Endpoint.unsent, hssl]
  exact hi.sent _ ssl hssl hfinished

end steps

/-- the certificates 1 and 2; the client writes 1 and 3, the server 2 -/
def twoRounds : List (Op ℕ) :=
  [.continueWith .client ⟨.error .wantRead, 0, [1], 0, some 1, none⟩,
    .continueWith .server ⟨.error .wantRead, 1, [2], 0, some 2, none⟩,
    .continueWith .client ⟨.ok (), 1, [3], 0, some 1, some 2⟩,
    .continueWith .server ⟨.ok (), 1, [], 0, some 2, some 1⟩]

def twoSides : Machine (St ℕ) (Op ℕ) :=
  exchange (fun _ => "") (fun side => if side = .client then some 1 else some 2) (fun side => if side = .client then 5 else 6)

theorem finish_exact_server : ∃ s r ssl, twoSides.run twoSides.init twoRounds = some s ∧
    (s.endpoint .server).handshake.finish (fun _ => "") (s.endpoint .server).socket (.ok ()) = some r ∧
      (s.endpoint .server).handshake.ssl = some ssl ∧ ssl.initFinished = true ∧
      r.2.1.remoteCert = ssl.peerCertificate := by
  obtain ⟨s, r, hs, hr⟩ : ∃ s r, twoSides.run twoSides.init twoRounds = some s ∧
      (s.endpoint .server).handshake.finish (fun _ => "") (s.endpoint .server).socket (.ok ()) = some r := ⟨_, _, rfl, rfl⟩
  obtain ⟨ssl, hssl, hfinished, -, hremote, -⟩ := finish_exact hs hr
  exact ⟨s, r, ssl, hs, hr, hssl, hfinished, hremote⟩

theorem bytes_in_order_server : ∃ s, twoSides.run twoSides.init twoRounds = some s ∧
    (s.endpoint .client).wrote = (s.endpoint .server).read ++ (s.endpoint .server).unread ++
      (s.inFlight .server).flatten ++ (s.endpoint .client).unsent := by
  obtain ⟨s, hs⟩ : ∃ s, twoSides.run twoSides.init twoRounds = some s := ⟨_, rfl⟩
  exact ⟨s, hs, (@bytes_in_order _ _ _ .server _ _ _ _ hs).1⟩

/-- a client without a certificate is refused -/
example : (twoSides.run twoSides.init (twoRounds.set 3 (.continueWith .server ⟨.ok (), 1, [], 0, some 2, none⟩))).bind
    (fun s => ((s.endpoint .server).handshake.finish (fun _ => "") (s.endpoint .server).socket (.ok ())).map Prod.fst) =
      some (.bad (.notAuthorized "Handshake failed: unable to retreive peer certificate" "")) := rfl

end Bboy.Handshake
