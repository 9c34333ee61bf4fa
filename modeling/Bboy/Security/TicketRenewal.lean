/-
Lean model of `KinitContext::Kinit`, `DoRenewal` and `RenewThread` (`bboy/security/init.cc`): the credential cache of a server
and the thread that renews the ticket in it. The intervals between the rounds are those of `RenewInterval.lean`.

The calls of Kerberos are not part of the repository: their results are up to the environment. What they document is that the
credentials they get are a ticket for the local realm (`Calls.Possible`), that a login puts them into the cache, beside
configuration entries, and that krb5_cc_initialize empties the cache. A login that fails may have emptied it.

- `Held`: there is a ticket for the local realm in the cache.
- `ticket_exact`: a server has such a ticket exactly as long as no round lost it, by emptying the cache and failing to store;
  and `ticket_end_timestamp_` is then the end of that ticket.
- `loss_unnoticed`: without one, `DoRenewal` returns OK and does nothing.
Witnesses: `ticket_exact_lost`, `loss_unnoticed_empty`.
-/
import Bboy.Base.Status
import Bboy.Core.Machine

namespace Bboy.TicketRenewal

open Core

/-! ## Credentials -/

/-- a `krb5_principal` -/
structure Principal where
  data : List String
  realm : String
  deriving DecidableEq, Repr

/-- a `krb5_creds`; `isConfig` is what krb5_is_config_principal says of the server -/
structure Creds where
  server : Principal
  isConfig : Bool
  endtime : ℤ
  renewTill : ℤ
  deriving DecidableEq, Repr

def KRB5_TGS_NAME : String := "krbtgt"

/-- a ticket granting ticket of the realm; all others are skipped -/
def IsLocalTgt (realm : String) (creds : Creds) : Prop :=
  creds.isConfig = false ∧ creds.server.data = [KRB5_TGS_NAME, realm] ∧ creds.server.realm = realm

instance (realm : String) (creds : Creds) : Decidable (IsLocalTgt realm creds) :=
  inferInstanceAs (Decidable (_ ∧ _ ∧ _))

structure KinitContext where
  /-- of `principal_` -/
  realm : String
  /-- what `ccache_` holds -/
  ccache : List Creds
  ticketEndTimestamp : ℤ
  deriving DecidableEq, Repr

/-- krb5_get_init_creds_keytab: the new credentials and the cache with them, or an error, and whether the cache is empty -/
abbrev Login := Except (String × Bool) (Creds × List Creds)

/-- what the calls of Kerberos say in a round; `unread` is none if krb5_cc_next_cred gets to the end of the cache -/
structure Calls where
  started : Except String Unit
  unread : Option ℕ
  login : Login
  renewed : Except String Creds
  initialized : Except String Unit
  stored : Except String Unit

def runtimeError (context message : String) : Status := .bad ((BadStatus.runtimeError message).cloneAndPrepend context)

/-- the ticket is expired, or the time in which it can be renewed is about to end -/
def Due (creds : Creds) (now : ℤ) : Prop := creds.endtime < now ∨ creds.renewTill - 30 < now

instance (creds : Creds) (now : ℤ) : Decidable (Due creds now) := inferInstanceAs (Decidable (_ ∨ _))

/-- what happens to the first ticket of the local realm -/
def renewTicket (k : KinitContext) (now : ℤ) (calls : Calls) (creds : Creds) : Status × KinitContext :=
  if Due creds now then
    match calls.login with
    | .error (message, emptied) =>
      (runtimeError "Reacquire error: unable to login from keytab" message, if emptied then { k with ccache := [] } else k)
    | .ok (newCreds, ccache) => (.ok, { k with ccache, ticketEndTimestamp := newCreds.endtime })
  else
    match calls.renewed, calls.initialized, calls.stored with
    | .error message, _, _ => (runtimeError "Failed to renew ticket" message, k)
    | .ok _, .error message, _ => (runtimeError "Failed to re-initialize ccache" message, k)
    | .ok _, .ok (), .error message =>
      (runtimeError "Failed to store credentials in ccache" message, { k with ccache := [] })
    | .ok newCreds, .ok (), .ok () => (.ok, { k with ccache := [newCreds], ticketEndTimestamp := newCreds.endtime })

/-- the loop over the cache -/
def renewLoop (k : KinitContext) (now : ℤ) (calls : Calls) : List Creds → Status × KinitContext
  | [] => (.ok, k)
  | creds :: more => if IsLocalTgt k.realm creds then renewTicket k now calls creds else renewLoop k now calls more

def doRenewal (k : KinitContext) (now : ℤ) (calls : Calls) : Status × KinitContext :=
  match calls.started with
  | .error message => (runtimeError "Failed to peek into ccache" message, k)
  | .ok () => renewLoop k now calls (k.ccache.take (calls.unread.getD k.ccache.length))

/-- `Kinit`, from the login on -/
def kinit (realm : String) (login : Login) : Status × KinitContext :=
  match login with
  | .error (message, _) => (runtimeError "unable to login from keytab" message, ⟨realm, [], 0⟩)
  | .ok (creds, ccache) => (.ok, ⟨realm, ccache, creds.endtime⟩)

/-! ## The renewal thread -/

/-- a login gets a ticket of the realm, and leaves configuration entries beside it -/
def LoginPossible (realm : String) : Login → Prop
  | .error _ => True
  | .ok (creds, ccache) =>
    IsLocalTgt realm creds ∧ creds ∈ ccache ∧ ∀ other ∈ ccache, IsLocalTgt realm other → other = creds

instance (realm : String) : ∀ login, Decidable (LoginPossible realm login)
  | .error _ => .isTrue trivial
  | .ok (creds, ccache) => inferInstanceAs (Decidable (_ ∧ creds ∈ ccache ∧ ∀ other ∈ ccache, _))

def RenewedPossible (realm : String) : Except String Creds → Prop
  | .error _ => True
  | .ok creds => IsLocalTgt realm creds

instance (realm : String) : ∀ renewed, Decidable (RenewedPossible realm renewed)
  | .error _ => .isTrue trivial
  | .ok creds => inferInstanceAs (Decidable (IsLocalTgt realm creds))

structure St where
  ctx : KinitContext
  failureRetries : ℕ
  deriving DecidableEq, Repr

/-- a round at `now` -/
structure Round where
  now : ℤ
  calls : Calls

/-- `RenewThread`, on the context that `Kinit` left -/
def renewThread (realm : String) (login : Login) : Machine St Round where
  init := ⟨(kinit realm login).2, 0⟩
  step s round :=
    if LoginPossible realm round.calls.login ∧ RenewedPossible realm round.calls.renewed then
      let r := doRenewal s.ctx round.now round.calls
      some ⟨r.2, if r.1 = .ok then 0 else (s.failureRetries + 1) % 2 ^ 32⟩
    else none

/-! ## Rounds -/

def Held (k : KinitContext) : Prop := ∃ creds ∈ k.ccache, IsLocalTgt k.realm creds

instance (k : KinitContext) : Decidable (Held k) := inferInstanceAs (Decidable (∃ creds ∈ k.ccache, _))

/-- the part of the cache that a round reads -/
def readable (k : KinitContext) (calls : Calls) : List Creds := k.ccache.take (calls.unread.getD k.ccache.length)

/-- the round empties the cache and does not fill it again -/
def Empties (calls : Calls) (due : Bool) : Bool :=
  if due then
    match calls.login with
    | .error (_, emptied) => emptied
    | .ok _ => false
  else
    match calls.renewed, calls.initialized, calls.stored with
    | .ok _, .ok (), .error _ => true
    | _, _, _ => false

/-- a round that comes to a ticket and loses it -/
def Loses (k : KinitContext) (round : Round) : Prop :=
  round.calls.started = .ok () ∧ ∃ creds, (readable k round.calls).find? (IsLocalTgt k.realm ·) = some creds ∧
    Empties round.calls (Due creds round.now) = true

variable {realm : String} {k : KinitContext} {now : ℤ} {calls : Calls}

/-- the tickets in the cache end when the context says -/
def Current (k : KinitContext) : Prop := ∀ creds ∈ k.ccache, IsLocalTgt k.realm creds → creds.endtime = k.ticketEndTimestamp

theorem renewLoop_eq (l : List Creds) : renewLoop k now calls l =
    match l.find? (IsLocalTgt k.realm ·) with
    | none => (.ok, k)
    | some creds => renewTicket k now calls creds := by
  induction l with
  | nil => rfl
  | cons creds more ih =>
    unfold renewLoop
    rw [List.find?_cons]
    by_cases hlocal : IsLocalTgt k.realm creds
    · rw [if_pos hlocal, decide_eq_true hlocal]
    · rw [if_neg hlocal, decide_eq_false hlocal]
      exact ih

/-- all that a round can do to the context -/
theorem renewTicket_cases {creds : Creds} (hlogin : LoginPossible k.realm calls.login)
    (hrenewed : RenewedPossible k.realm calls.renewed) :
    (Empties calls (Due creds now) = true ∧ (renewTicket k now calls creds).2 = { k with ccache := [] }) ∨
      Empties calls (Due creds now) = false ∧ ((renewTicket k now calls creds).2 = k ∨
        Held (renewTicket k now calls creds).2 ∧ Current (renewTicket k now calls creds).2 ∧
          (renewTicket k now calls creds).2.realm = k.realm) := by
  unfold renewTicket Empties
  by_cases hdue : Due creds now
  · simp only [hdue, if_true, decide_true]
    cases hl : calls.login with
    | error e =>
      obtain ⟨message, emptied⟩ := e
      cases emptied with
      | true => exact Or.inl ⟨rfl, rfl⟩
      | false => exact Or.inr ⟨rfl, Or.inl rfl⟩
    | ok got =>
      obtain ⟨newCreds, ccache⟩ := got
      rw [hl] at hlogin
      obtain ⟨hnew, hmem, honly⟩ := hlogin
      refine Or.inr ⟨rfl, Or.inr ⟨⟨newCreds, hmem, hnew⟩, fun other hother hlocal => ?_, rfl⟩⟩
      rw [honly other hother hlocal]
  · simp only [hdue, if_false, decide_false, Bool.false_eq_true]
    cases hr : calls.renewed with
    | error message => exact Or.inr ⟨rfl, Or.inl rfl⟩
    | ok newCreds =>
      cases hi : calls.initialized with
      | error message => exact Or.inr ⟨rfl, Or.inl rfl⟩
      | ok u =>
        cases hs : calls.stored with
        | error message => exact Or.inl ⟨rfl, rfl⟩
        | ok u =>
          rw [hr] at hrenewed
          refine Or.inr ⟨rfl, Or.inr ⟨⟨newCreds, List.mem_singleton_self _, hrenewed⟩, fun other hother _ => ?_, rfl⟩⟩
          rw [List.mem_singleton.1 hother]

theorem not_held_empty : ¬ Held { k with ccache := [] } := by
  rintro ⟨creds, hmem, -⟩
  cases hmem

/-- **A round** that does not lose the ticket leaves one, and one that does leaves none. -/
theorem doRenewal_held (hheld : Held k) (hcurrent : Current k) (hlogin : LoginPossible k.realm calls.login)
    (hrenewed : RenewedPossible k.realm calls.renewed) :
    (Held (doRenewal k now calls).2 ↔ ¬ Loses k ⟨now, calls⟩) ∧ Current (doRenewal k now calls).2 ∧
      (doRenewal k now calls).2.realm = k.realm := by
  unfold doRenewal Loses
  cases hstarted : calls.started with
  | error message => exact ⟨iff_of_true hheld (fun h => nomatch h.1), hcurrent, rfl⟩
  | ok u =>
    simp only [renewLoop_eq, true_and]
    rw [show List.take (calls.unread.getD k.ccache.length) k.ccache = readable k calls from rfl]
    cases hfound : (readable k calls).find? (IsLocalTgt k.realm ·) with
    | none => exact ⟨iff_of_true hheld (by rintro ⟨creds, h, -⟩; cases h), hcurrent, rfl⟩
    | some creds =>
      simp only
      rcases @renewTicket_cases k now calls creds hlogin hrenewed with ⟨hempties, hk⟩ | ⟨hkeeps, hk⟩
      · rw [hk]
        exact ⟨iff_of_false not_held_empty (not_not_intro ⟨creds, rfl, hempties⟩), nofun, rfl⟩
      · have hnot : ¬ ∃ c, some creds = some c ∧ Empties calls (Due c now) = true := by
          rintro ⟨c, heq, h⟩
          cases heq
          rw [hkeeps] at h
          cases h
        rcases hk with hk | ⟨hheld', hcurrent', hrealm⟩
        · rw [hk]
          exact ⟨iff_of_true hheld hnot, hcurrent, rfl⟩
        · exact ⟨iff_of_true hheld' hnot, hcurrent', hrealm⟩

/-- **Without a ticket** a round does nothing, and reports only that it could not look into the cache. -/
theorem doRenewal_not_held (hheld : ¬ Held k) :
    (doRenewal k now calls).2 = k ∧ (calls.started = .ok () → (doRenewal k now calls).1 = .ok) := by
  unfold doRenewal
  cases hstarted : calls.started with
  | error message => exact ⟨rfl, nofun⟩
  | ok u =>
    have hfound : (readable k calls).find? (IsLocalTgt k.realm ·) = none := by
      rw [List.find?_eq_none]
      intro creds hmem hlocal
      exact hheld ⟨creds, List.mem_of_mem_take hmem, of_decide_eq_true hlocal⟩
    simp only [renewLoop_eq]
    rw [show List.take (calls.unread.getD k.ccache.length) k.ccache = readable k calls from rfl, hfound]
    exact ⟨rfl, fun _ => rfl⟩

/-! ## Runs -/

variable {login : Login} {s t : St} {rounds : List Round}

theorem step_cases {round : Round} (h : (renewThread realm login).step s round = some t) :
    LoginPossible realm round.calls.login ∧ RenewedPossible realm round.calls.renewed ∧
      t.ctx = (doRenewal s.ctx round.now round.calls).2 ∧
      ((doRenewal s.ctx round.now round.calls).1 = .ok → t.failureRetries = 0) := by
  unfold renewThread at h
  by_cases hpossible : LoginPossible realm round.calls.login ∧ RenewedPossible realm round.calls.renewed
  · simp only [if_pos hpossible] at h
    cases h
    exact ⟨hpossible.1, hpossible.2, rfl, fun hok => if_pos hok⟩
  · simp only [if_neg hpossible] at h
    cases h

theorem run_not_held (hheld : ¬ Held s.ctx) (h : (renewThread realm login).run s rounds = some t) : t.ctx = s.ctx := by
  induction rounds generalizing s with
  | nil =>
    cases h
    rfl
  | cons round rounds ih =>
    obtain ⟨u, hu, hrun⟩ := Machine.run_cons_some _ h
    have hctx : u.ctx = s.ctx := (step_cases hu).2.2.1.trans (doRenewal_not_held hheld).1
    rw [ih (by rw [hctx]; exact hheld) hrun, hctx]

/-- the rounds in which the ticket is not lost -/
def Keeps (s : St) (round : Round) : Prop := ¬ Loses s.ctx round

theorem run_held (hheld : Held s.ctx) (hcurrent : Current s.ctx) (hrealm : s.ctx.realm = realm)
    (h : (renewThread realm login).run s rounds = some t) :
    (Held t.ctx ↔ (renewThread realm login).Along Keeps s rounds) ∧ (Held t.ctx → Current t.ctx) := by
  induction rounds generalizing s with
  | nil =>
    cases h
    exact ⟨iff_of_true hheld trivial, fun _ => hcurrent⟩
  | cons round rounds ih =>
    obtain ⟨u, hu, hrun⟩ := Machine.run_cons_some _ h
    obtain ⟨hlogin, hrenewed, hctx, -⟩ := step_cases hu
    subst hrealm
    obtain ⟨hiff, hcurrent', hrealm'⟩ := @doRenewal_held s.ctx round.now round.calls hheld hcurrent hlogin hrenewed
    rw [← hctx] at hiff hcurrent' hrealm'
    have halong : (renewThread s.ctx.realm login).Along Keeps s (round :: rounds) ↔
        Keeps s round ∧ (renewThread s.ctx.realm login).Along Keeps u rounds := by
      simp only [Machine.Along, hu, Option.mem_some_iff, forall_eq']
    rw [halong]
    by_cases hlost : Loses s.ctx round
    · have hgone : ¬ Held u.ctx := fun h => hiff.1 h hlost
      have ht : t.ctx = u.ctx := run_not_held hgone hrun
      rw [ht]
      exact ⟨iff_of_false hgone fun h => h.1 hlost, fun h => absurd h hgone⟩
    · obtain ⟨hrest, hend⟩ := ih (hiff.2 hlost) hcurrent' hrealm' hrun
      exact ⟨hrest.trans ⟨fun h => ⟨hlost, h⟩, fun h => h.2⟩, hend⟩

/-! ## Results -/

/-- **A server has a ticket for as long as no round loses it**: exactly the rounds that emptied the cache and then could not
fill it make the difference, and none is made good later. While there is a ticket, `ticket_end_timestamp_` is its end. -/
theorem ticket_exact {creds : Creds} {ccache : List Creds} (hlogin : LoginPossible realm (.ok (creds, ccache)))
    (h : (renewThread realm (.ok (creds, ccache))).run (renewThread realm (.ok (creds, ccache))).init rounds = some s) :
    (Held s.ctx ↔ (renewThread realm (.ok (creds, ccache))).Along Keeps (renewThread realm (.ok (creds, ccache))).init rounds) ∧
      (Held s.ctx → ∀ c ∈ s.ctx.ccache, IsLocalTgt s.ctx.realm c → c.endtime = s.ctx.ticketEndTimestamp) := by
  obtain ⟨hlocal, hmem, honly⟩ := hlogin
  refine run_held ⟨creds, hmem, hlocal⟩ (fun other hother hl => ?_) rfl h
  rw [honly other hother hl]
  rfl

/-- **A loss goes unnoticed.** Once a server has no ticket, every round leaves the context as it is, and as long as the cache
can be read every round is a success. -/
theorem loss_unnoticed (hheld : ¬ Held s.ctx) (hstarted : ∀ round ∈ rounds, round.calls.started = .ok ())
    (h : (renewThread realm login).run s rounds = some t) :
    t.ctx = s.ctx ∧ (rounds ≠ [] → t.failureRetries = 0) := by
  refine ⟨run_not_held hheld h, ?_⟩
  induction rounds generalizing s with
  | nil => exact fun hne => absurd rfl hne
  | cons round rounds ih =>
    intro
    obtain ⟨u, hu, hrun⟩ := Machine.run_cons_some _ h
    obtain ⟨-, -, hctx, hretries⟩ := step_cases hu
    obtain ⟨hsame, hok⟩ := @doRenewal_not_held s.ctx round.now round.calls hheld
    cases rounds with
    | nil =>
      cases hrun
      exact hretries (hok (hstarted round List.mem_cons_self))
    | cons next rest =>
      have hheld' : ¬ Held u.ctx := by
        rw [hctx, hsame]
        exact hheld
      exact ih hheld' (fun r hr => hstarted r (List.mem_cons_of_mem _ hr)) hrun (List.cons_ne_nil _ _)

/-- a ticket until 100, that can be renewed until 1000 -/
def ticket : Creds := ⟨⟨[KRB5_TGS_NAME, "R"], "R"⟩, false, 100, 1000⟩

/-- the ticket is renewed until 200, then the cache is emptied and not filled again, then nothing is there to renew -/
def threeRounds : List Round :=
  [⟨50, .ok (), none, .error ("", false), .ok { ticket with endtime := 200 }, .ok (), .ok ()⟩,
    ⟨150, .ok (), none, .error ("", false), .ok { ticket with endtime := 300 }, .ok (), .error "no memory"⟩,
    ⟨250, .ok (), none, .error ("", false), .ok ticket, .ok (), .ok ()⟩]

def server : Machine St Round := renewThread "R" (.ok (ticket, [ticket]))

theorem ticket_exact_lost : ∃ s, server.run server.init threeRounds = some s ∧ ¬ Held s.ctx ∧
    ¬ server.Along Keeps server.init threeRounds := by
  obtain ⟨s, hs, hempty⟩ : ∃ s, server.run server.init threeRounds = some s ∧ s.ctx.ccache = [] := ⟨_, rfl, rfl⟩
  have hlost : ¬ Held s.ctx := by
    rintro ⟨creds, hmem, -⟩
    rw [hempty] at hmem
    cases hmem
  have hexact := ticket_exact (by decide) hs
  exact ⟨s, hs, hlost, fun h => hlost (hexact.1.2 h)⟩

theorem loss_unnoticed_empty : ∃ t, server.run ⟨⟨"R", [], 200⟩, 1⟩ (threeRounds.drop 2) = some t ∧ t.failureRetries = 0 := by
  obtain ⟨t, ht⟩ : ∃ t, server.run ⟨⟨"R", [], 200⟩, 1⟩ (threeRounds.drop 2) = some t := ⟨_, rfl⟩
  exact ⟨t, ht, (loss_unnoticed (by decide) (by decide) ht).2 (by decide)⟩

end Bboy.TicketRenewal
