/-
How long a token stays valid. A key lives R + V seconds from its creation, where R is the rotation interval and V the
validity of a token, so a token outlives its key when it is signed more than R seconds after the key was created. The
signer does that: a key is in front of the queue for R seconds after its propagation interval of R seconds.

A key is created at the whole second of a reading. The expiration of a token is the whole part of a sum of doubles, which
may be a second more than the whole second of the reading plus V (`carry`): the fraction is lost to rounding.

Results, for the runs of `Maintenance` in which a sequence number denotes one key and is below 2^63 - 1:
- `generated_token_verifies`: what the signer's verifier answers, in any later state, to a token that has not expired;
- `carry_eq`: the sum gains a second exactly when the fraction lacks at most half of the last bit of the sum;
- `valid_until_expiry_iff`: a token is valid up to its expiration exactly when the second of its reading, with the one
  that the sum may gain, is at most R after the creation of its key.
Witness: `token_outlives_key` (V = 1, R = 2, maintenance at every second: the token of second 3 expires at 4, its key at
3).
-/
import Bboy.Security.SignerMaintenance

namespace Bboy.Security.Maintenance

open Core

variable {SK PK : Type} {C : Crypto SK PK} {params : TokenSignerParams} {known : TokenVerifier C} {t0 : ℤ}

/-! ## The verifier keeps what it knows -/

theorem step_extends {succ : ℤ → ℤ} (s : St C) (o : Op SK) (t : St C)
    (hst : (maintenanceWith succ params known t0).step s o = some t) : s.signer.verifier.Extends t.signer.verifier := by
  have himport : ∀ keys v, s.signer.verifier.importKeys keys = (.ok, v) → s.signer.verifier.Extends v := by
    intro keys v hv
    have hext := TokenVerifier.importKeys_extends s.signer.verifier keys
    rwa [hv] at hext
  simp only [maintenanceWith] at hst
  cases o with
  | checkNeedKey now gen =>
    obtain ⟨-, hst⟩ := Option.ite_none_left_eq_some.1 hst
    cases hst
    unfold checkNeedKey
    rcases s.signer.checkNeedKey_cases succ now gen with ⟨-, hc⟩ | ⟨-, e, e', -, hc⟩ | ⟨-, key, -, hc⟩ <;>
      rw [hc] <;> exact TokenVerifier.Extends.refl _
  | addKey now =>
    obtain ⟨key, -, rfl⟩ := Option.map_eq_some_iff.1 hst
    unfold addKey
    rcases s.signer.addKey_cases succ now key with ⟨e, ha, -⟩ | ⟨e, ha, -⟩ | ⟨-, -, v, hv, ha⟩ <;> rw [ha]
    · exact TokenVerifier.Extends.refl _
    · exact TokenVerifier.Extends.refl _
    · exact himport _ v hv
  | tryRotateKey now =>
    cases hst
    rcases s.signer.tryRotateKey_cases now with ⟨hr, -⟩ | ⟨key, next, rest, -, -, hr⟩ <;> rw [hr] <;>
      exact TokenVerifier.Extends.refl _
  | importKeys now keys =>
    obtain ⟨-, hst⟩ := Option.ite_none_left_eq_some.1 hst
    obtain ⟨r, hr, rfl⟩ := Option.map_eq_some_iff.1 hst
    rcases s.signer.importKeys_cases succ now keys with hn | ⟨tsks, next, -, -, -, -, ⟨e, he⟩ | ⟨v, hv, hok⟩⟩
    · rw [hn] at hr
      cases hr
    · rw [he] at hr
      cases hr
      exact TokenVerifier.Extends.refl _
    · rw [hok] at hr
      cases hr
      exact himport _ v hv

theorem run_extends {succ : ℤ → ℤ} {s t : St C} {more : List (Op SK)}
    (h : (maintenanceWith succ params known t0).run s more = some t) :
    s.signer.verifier.Extends t.signer.verifier := by
  refine Machine.run_inv (I := fun u => s.signer.verifier.Extends u.signer.verifier) ?_ (TokenVerifier.Extends.refl _) h
  intro u o v hu hst
  exact hu.trans (step_extends u o v hst)

/-! ## Verification of a generated token -/

/-- a generated token expires at the whole part of the sum of the reading it was generated with and V -/
theorem generated_expireTime {E : TokenCodec} (hE : E.Sound) {s : TokenSigner C} {now : WallTime} {username : String}
    {tok : SignedTokenPB} (hgen : s.generateAuthnToken E now username = .ok tok) :
    E.expireTime tok = some (s.params.tokenExpiration now) := by
  obtain ⟨data, hdata, hsign⟩ := TokenSigner.generateAuthnToken_ok hgen
  obtain ⟨key, rest, -, hs⟩ := TokenSigner.signToken_ok hsign
  obtain ⟨sig, -, rfl⟩ := TokenSigningPrivateKey.sign_ok hs
  simp [TokenCodec.expireTime, hE _ _ hdata]

/-- a verifier that knows the signing key accepts an unexpired token as long as the key has not expired -/
theorem generated_token_verifies (hC : C.Sound) {E : TokenCodec} (hE : E.Sound) {s : TokenSigner C} {now : WallTime}
    {username : String} {tok : SignedTokenPB} (hgen : s.generateAuthnToken E now username = .ok tok)
    {key : TokenSigningPrivateKey C} {rest : List (TokenSigningPrivateKey C)} (hfront : s.tskDeque = key :: rest)
    {v : TokenVerifier C} (hv : v.pbOf key.keySeqNum = some key.exportPublicKeyPB) {t' : ℤ}
    (ht' : t' ≤ s.params.tokenExpiration now) :
    (v.verifyTokenSignature E t' tok).1 = if key.expireTime < t' then .expiredSigningKey else .valid := by
  obtain ⟨data, hdata, hsign⟩ := TokenSigner.generateAuthnToken_ok hgen
  obtain ⟨key', rest', hd, hs⟩ := TokenSigner.signToken_ok hsign
  obtain ⟨rfl, -⟩ : key = key' ∧ rest = rest' := by
    rw [hfront] at hd
    exact List.cons.inj hd
  obtain ⟨tsk, hfind, hpb⟩ := Option.map_eq_some_iff.1 hv
  have hverify := TokenSigningPublicKey.verifySignature_of_sign hC hpb hs
  obtain ⟨sig, -, rfl⟩ := TokenSigningPrivateKey.sign_ok hs
  have h := TokenVerifier.verify_known rfl rfl rfl (hE _ _ hdata) rfl rfl hfind hverify ht'
  rw [hpb] at h
  exact h

/-! ## The expiration of a token -/

/-- the second that the sum of doubles gains over the whole second of the reading and V -/
def carry (params : TokenSignerParams) (now : WallTime) : ℤ :=
  params.tokenExpiration now - (now.whole + params.authnTokenValiditySeconds)

/-- a token does not expire before the reading it was generated with -/
theorem seconds_le_sum (params : TokenSignerParams) (now : WallTime) :
    now.seconds ≤ roundDouble (now.seconds + roundDouble params.authnTokenValiditySeconds) := by
  have hvalidity : 0 ≤ roundDouble params.authnTokenValiditySeconds :=
    roundDouble_nonneg (by exact_mod_cast params.validity_nonneg)
  rcases now.nonneg.eq_or_lt with hzero | hpos
  · rw [← hzero, zero_add]
    exact roundDouble_nonneg hvalidity
  · exact le_roundDouble now.isDouble (by linarith) (by linarith)

/-- **When the sum gains a second.** The fraction of the reading lacks at most half of the last bit of the sum. -/
theorem carry_eq (params : TokenSignerParams) (now : WallTime)
    (hsum : now.whole + params.authnTokenValiditySeconds < 2 ^ 52) :
    carry params now =
      if now.whole + 1 - now.seconds ≤ 2 ^ (lastBit (now.seconds + params.authnTokenValiditySeconds) - 1) then 1 else 0 := by
  have hV := params.validity_nonneg
  have hwhole := now.whole_nonneg
  have hlow : (now.whole : ℚ) ≤ now.seconds := Int.floor_le now.seconds
  have hhigh : now.seconds < now.whole + 1 := Int.lt_floor_add_one now.seconds
  have hsmall : |params.authnTokenValiditySeconds| < 2 ^ 53 := by
    rw [abs_of_nonneg hV]
    omega
  set x : ℚ := now.seconds + params.authnTokenValiditySeconds with hx
  have hbit : lastBit x < 0 := by
    apply lastBit_neg
    have hcast : ((now.whole + params.authnTokenValiditySeconds + 1 : ℤ) : ℚ) ≤ ((2 ^ 52 : ℤ) : ℚ) := by
      exact_mod_cast hsum
    push_cast at hcast
    have hnonneg : (0 : ℚ) ≤ params.authnTokenValiditySeconds := by exact_mod_cast hV
    rw [abs_of_nonneg (add_nonneg now.nonneg hnonneg)]
    linarith
  have hhalf : (2 : ℚ) ^ (lastBit x - 1) ≤ 1 := zpow_le_one_of_nonpos₀ one_le_two (by omega)
  have hgap : (0 : ℚ) < 2 ^ (lastBit x - 1) := zpow_pos two_pos _
  have hstep : ∀ n : ℤ, ⌊roundDouble x⌋ < n ↔ x < n - 2 ^ (lastBit x - 1) := by
    intro n
    rw [Int.floor_lt]
    exact roundDouble_lt_intCast hbit n
  -- the sum is between its whole part and the next second but one
  have hfloor := hstep (now.whole + params.authnTokenValiditySeconds + 1)
  have hmin := (hstep (now.whole + params.authnTokenValiditySeconds)).not.2 (by push_cast; linarith)
  have hmax := (hstep (now.whole + params.authnTokenValiditySeconds + 2)).2 (by push_cast; linarith)
  push_cast at hfloor
  have hexpire : params.tokenExpiration now = ⌊roundDouble x⌋ := by
    rw [TokenSignerParams.tokenExpiration, roundDouble_of_isDouble (isDouble_of_lt hsmall)]
  rw [carry, hexpire]
  split_ifs with hfraction
  · have hgain := hfloor.not.2 (by linarith)
    omega
  · have hless := hfloor.2 (by linarith)
    omega

/-! ## Main result -/

/-- a token issued at reading `now` in state `s`: in every later state, the signer's verifier finds it valid at every
reading from `now` to the token's expiration -/
def ValidUntilExpiry (m : Machine (St C) (Op SK)) (E : TokenCodec) (s : St C) (now : WallTime) (tok : SignedTokenPB) :
    Prop :=
  ∀ more s', m.run s more = some s' → ∀ expire ∈ E.expireTime tok, ∀ t' : WallTime,
    now.seconds ≤ t'.seconds → t'.whole ≤ expire → (s'.signer.verifier.verifyTokenSignature E t'.whole tok).1 = .valid

/-- **When a token is valid for its lifetime.** In every run in which a sequence number denotes one key and is below
2^63 - 1, a token that the signer generates at reading `now` is valid until it expires exactly when the second of `now`
and the one that the sum of `now` and V gains are at most a rotation interval after the creation of the key in front. -/
theorem valid_until_expiry_iff (hC : C.Sound) (E : TokenCodec) (hE : E.Sound) (params : TokenSignerParams)
    (known : TokenVerifier C) (t0 : ℤ) (ops : List (Op SK)) (s : St C)
    (hops : (maintenance64 params known t0).Along (Numbered known) (maintenance64 params known t0).init ops)
    (hrun : (maintenance64 params known t0).run (maintenance64 params known t0).init ops = some s)
    (now : WallTime) (username : String) (tok : SignedTokenPB)
    (hgen : s.signer.generateAuthnToken E now username = .ok tok)
    (key : TokenSigningPrivateKey C) (rest : List (TokenSigningPrivateKey C)) (hfront : s.signer.tskDeque = key :: rest) :
    ValidUntilExpiry (maintenance64 params known t0) E s now tok ↔
      now.whole + carry s.signer.params now ≤
        s.signer.params.keyCreationTime key + s.signer.params.keyRotationSeconds := by
  obtain ⟨hsame, halong⟩ := run_eq queueInv_init hops
  have hknown := (run_knownInv halong (hsame.symm.trans hrun)).deque key (by rw [hfront]; exact List.mem_cons_self)
  have hexpire := generated_expireTime hE hgen
  have hlife : s.signer.params.keyCreationTime key + s.signer.params.keyRotationSeconds +
      s.signer.params.authnTokenValiditySeconds = key.expireTime := by
    simp only [TokenSignerParams.keyCreationTime, TokenSignerParams.keyValiditySeconds]
    omega
  have hcond : now.whole + carry s.signer.params now ≤
      s.signer.params.keyCreationTime key + s.signer.params.keyRotationSeconds ↔
        s.signer.params.tokenExpiration now ≤ key.expireTime := by
    unfold carry
    omega
  rw [hcond]
  constructor
  · intro h
    -- the sum itself is the last reading at which the token has not expired
    have hlater := seconds_le_sum s.signer.params now
    have hlast := h [] s rfl _ hexpire ⟨_, isDouble_roundDouble _, now.nonneg.trans hlater⟩ hlater le_rfl
    have hanswer := (generated_token_verifies hC hE hgen hfront hknown le_rfl).symm.trans hlast
    split_ifs at hanswer with hlt
    exact not_lt.1 hlt
  · intro hle more s' hr expire he t' _ ht'
    obtain rfl : _ = expire := Option.some.inj (hexpire.symm.trans he)
    rw [generated_token_verifies hC hE hgen hfront (run_extends hr _ _ hknown) ht', if_neg]
    exact not_lt.2 (ht'.trans hle)

/-- the last reading before second 2^31: with V = 1 the sum is rounded to 2^31 + 1 -/
example : carry (.ofNat 1 1) ⟨2 ^ 31 - 2 ^ (-22 : ℤ), ⟨2 ^ 53 - 1, -22, by norm_num, by norm_num⟩, by norm_num⟩ = 1 := by
  decide +kernel

/-! ## Witnesses -/

/-- CheckNeedKey, AddKey of the key if one is needed, TryRotateKey, at second `now` -/
def everySecond (keyAt : List ℤ) (now : ℤ) : List (Op UInt8) :=
  [.checkNeedKey now (.ok 7)] ++ (if now ∈ keyAt then [.addKey now] else []) ++ [.tryRotateKey now]

/-- maintenance at seconds 0 to 2; keys are needed at 0 and at 2 -/
def toSecondTwo : List (Op UInt8) := [0, 1, 2].flatMap (everySecond [0, 2])

/-- a reading that is a whole second -/
abbrev second (seconds : ℕ) (h : seconds < 2 ^ 53 := by decide) : WallTime := WallTime.ofNat seconds h

/-- the token for user `u` that the signer of `s` issues at `now` -/
def issued (s : St byteCrypto) (now : WallTime) : SignedTokenPB :=
  (s.signer.generateAuthnToken byteCodec now "u").toOption.getD ⟨none, none, none⟩

theorem valid_until_expiry_at_two :
    let m := maintenance64 shortParams (TokenVerifier.empty byteCrypto) 0
    ∃ s, m.run m.init toSecondTwo = some s ∧ ValidUntilExpiry m byteCodec s (second 2) (issued s (second 2)) := by
  refine ⟨_, rfl, ?_⟩
  exact (valid_until_expiry_iff byteCrypto_sound byteCodec byteCodec_sound shortParams (TokenVerifier.empty byteCrypto) 0
    toSecondTwo _ (by decide) rfl (second 2) "u" _ (by decide +kernel) _ _ rfl).2 (by decide +kernel)

/-- **A token outlives its key.** With V = 1, R = 2 and maintenance at every second from 0 to 4, the token of second 3
expires at 4, and at 4 the verifier answers that the signing key has expired. -/
theorem token_outlives_key :
    let m := maintenance64 shortParams (TokenVerifier.empty byteCrypto) 0
    ∃ s s', m.run m.init (toSecondTwo ++ everySecond [0, 2] 3) = some s ∧ m.run s (everySecond [0, 2] 4) = some s' ∧
      s.signer.generateAuthnToken byteCodec (second 3) "u" = .ok (issued s (second 3)) ∧
      byteCodec.expireTime (issued s (second 3)) = some 4 ∧
      (s'.signer.verifier.verifyTokenSignature byteCodec 4 (issued s (second 3))).1 = .expiredSigningKey ∧
      ¬ ValidUntilExpiry m byteCodec s (second 3) (issued s (second 3)) := by
  refine ⟨_, _, rfl, rfl, by decide +kernel, by decide +kernel, by decide +kernel, fun h => ?_⟩
  have hvalid := h (everySecond [0, 2] 4) _ rfl 4 (by decide +kernel) (second 4) (by decide +kernel) (by decide +kernel)
  exact absurd hvalid (by decide +kernel)

end Bboy.Security.Maintenance
