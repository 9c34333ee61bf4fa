/-
Any number of callers on one `TokenSigner`. Each critical section of `lock_` is one step, so CheckNeedKey is two: it
reserves a number under the lock (`reserve`) and generates the key after the lock is dropped (`generate`), in any order
and with any other operation in between. AddKey takes any key, as the method does.

The ghost `seen` collects the numbers that were reserved, added or contained in an import, also in one that fails at the
verifier or has only expired keys. A reservation remembers what was seen before it. Numbers are those of an `int64_t`.

Results:
- `generated_numbers_fresh`: the number of a generated key is above all that was seen before it was reserved exactly when
  all of that is below 2^63 - 1, and no two such keys share one;
- `deque_order_iff`: the queue stays in increasing order exactly when each AddKey that succeeds brings a number above
  all in the queue, and then SignToken never goes back to a smaller number;
- `addsInOrder_of_reserved`: tasks that add their keys in the order in which the numbers were reserved do that.
Witnesses: `numbers_start_over` (an import of 2^63 - 2, then reservations of 2^63 - 1 and of -2^63);
`tasks_add_out_of_order` (two tasks reserve 0 and 1, and add 1 before 0: tokens are signed with 1, then with 0).
-/
import Bboy.Core.Machine
import Bboy.Security.SignerMaintenance

namespace Bboy.Security.Concurrent

open Core Maintenance

variable {SK PK : Type} {C : Crypto SK PK}

/-! ## Model -/

/-- a CheckNeedKey that has left its critical section -/
structure Reservation where
  keySeqNum : ℤ
  keyExpiration : ℤ
  /-- ghost: what was seen before -/
  before : List ℤ

/-- a key that CheckNeedKey returned -/
structure Generated (C : Crypto SK PK) where
  key : TokenSigningPrivateKey C
  /-- ghost: what was seen before its number was reserved -/
  before : List ℤ

structure St (C : Crypto SK PK) where
  signer : TokenSigner C
  inFlight : List Reservation
  generated : List (Generated C)
  /-- ghost: numbers reserved, added or imported so far -/
  seen : List ℤ

inductive Op (C : Crypto SK PK) where
  | reserve (now : ℤ)
  | generate (i : ℕ) (gen : Except BadStatus SK)
  | addKey (now : ℤ) (key : TokenSigningPrivateKey C)
  | importKeys (now : ℤ) (keys : List TokenSigningPrivateKeyPB)
  | tryRotateKey (now : ℤ)

def reserve (s : St C) (now : ℤ) : St C :=
  match s.signer.reserveKey succ64 now with
  | (none, t) => { s with signer := t }
  | (some (keySeqNum, keyExpiration), t) =>
    { s with
      signer := t
      inFlight := s.inFlight ++ [⟨keySeqNum, keyExpiration, s.seen⟩]
      seen := s.seen ++ [keySeqNum] }

def generate (s : St C) (i : ℕ) (r : Reservation) (gen : Except BadStatus SK) : St C :=
  match generateSigningKey C r.keySeqNum r.keyExpiration gen with
  | .error _ => { s with inFlight := s.inFlight.eraseIdx i }
  | .ok key => { s with inFlight := s.inFlight.eraseIdx i, generated := s.generated ++ [⟨key, r.before⟩] }

/-- a key that is not rejected outright counts as seen -/
def addKey (s : St C) (now : ℤ) (key : TokenSigningPrivateKey C) : St C :=
  { s with
    signer := (s.signer.addKey succ64 now key).2
    seen := if 0 ≤ key.keySeqNum ∧ now < key.expireTime then s.seen ++ [key.keySeqNum] else s.seen }

def concurrent (params : TokenSignerParams) (known : TokenVerifier C) : Machine (St C) (Op C) where
  init := ⟨TokenSigner.new params known, [], [], []⟩
  step s
    | .reserve now => some (reserve s now)
    | .generate i gen => s.inFlight[i]?.map fun r => generate s i r gen
    | .addKey now key => some (addKey s now key)
    | .importKeys now keys => (s.signer.importKeys succ64 now keys).map fun r =>
        { s with signer := r.2, seen := s.seen ++ keys.map fun pb => pb.keySeqNum.getD 0 }
    | .tryRotateKey now => some { s with signer := (s.signer.tryRotateKey now).2 }

variable {params : TokenSignerParams} {known : TokenVerifier C}

/-! ## Numbers -/

/-- a reserved number, and what was seen before it -/
structure Entry where
  num : ℤ
  before : List ℤ

/-- all that was seen before has a larger number behind it -/
def Entry.Below (e : Entry) : Prop := ∀ n ∈ e.before, n < 2 ^ 63 - 1

def Reservation.entry (r : Reservation) : Entry := ⟨r.keySeqNum, r.before⟩

def Generated.entry (g : Generated C) : Entry := ⟨g.key.keySeqNum, g.before⟩

/-- the numbers of the reservations and of the generated keys -/
def inUse (inFlight : List Reservation) (generated : List (Generated C)) : List Entry :=
  inFlight.map Reservation.entry ++ generated.map Generated.entry

/-- one was seen when the other was reserved -/
def Apart (e e' : Entry) : Prop := e.num ∈ e'.before ∨ e'.num ∈ e.before

theorem Apart.symm {e e' : Entry} (h : Apart e e') : Apart e' e := Or.symm h

structure Inv (s : St C) : Prop where
  next : s.signer.nextKeySeqNum ≤ 2 ^ 63 - 1
  seen : (∀ n ∈ s.seen, n < 2 ^ 63 - 1) → ∀ n ∈ s.seen, n < s.signer.nextKeySeqNum
  bounded : ∀ e ∈ inUse s.inFlight s.generated, e.num ≤ 2 ^ 63 - 1 ∧ e.num ∈ s.seen
  fresh : ∀ e ∈ inUse s.inFlight s.generated, e.Below → ∀ n ∈ e.before, n < e.num
  /-- a number is reserved once -/
  apart : (inUse s.inFlight s.generated).Pairwise Apart

theorem inUse_reserve (r : Reservation) (inFlight : List Reservation) (generated : List (Generated C)) :
    (inUse (inFlight ++ [r]) generated).Perm (r.entry :: inUse inFlight generated) := by
  rw [inUse, List.map_append, List.map_singleton, List.append_assoc, List.singleton_append]
  exact List.perm_middle

/-- a number moves from the reservations to the generated keys -/
theorem inUse_generate {inFlight : List Reservation} {i : ℕ} {r : Reservation} (hi : inFlight[i]? = some r)
    (generated : List (Generated C)) {g : Generated C} (hg : g.entry = r.entry) :
    (inUse (inFlight.eraseIdx i) (generated ++ [g])).Perm (inUse inFlight generated) := by
  obtain ⟨hlt, hget⟩ := List.getElem?_eq_some_iff.1 hi
  have hperm : (r :: inFlight.eraseIdx i).Perm inFlight := by
    rw [← hget]
    exact List.getElem_cons_eraseIdx_perm hlt
  rw [inUse, List.map_append, List.map_singleton, hg, ← List.append_assoc]
  refine (List.perm_append_singleton _ _).trans ?_
  exact (hperm.map Reservation.entry).append_right _

theorem inv_init : Inv (concurrent params known).init where
  next := show (0 : ℤ) ≤ 2 ^ 63 - 1 by decide
  seen := fun _ _ hn => absurd hn List.not_mem_nil
  bounded := fun _ he => absurd he List.not_mem_nil
  fresh := fun _ he => absurd he List.not_mem_nil
  apart := List.Pairwise.nil

/-- a step that only moves the next number past new numbers -/
theorem Inv.advance {s : St C} (h : Inv s) (t : TokenSigner C) (new : List ℤ) (hnext : t.nextKeySeqNum ≤ 2 ^ 63 - 1)
    (hle : (∀ n ∈ new, n < 2 ^ 63 - 1) → s.signer.nextKeySeqNum ≤ t.nextKeySeqNum)
    (hnew : ∀ n ∈ new, n < 2 ^ 63 - 1 → n < t.nextKeySeqNum) :
    Inv { s with signer := t, seen := s.seen ++ new } where
  next := hnext
  seen := by
    intro hbelow n hn
    rcases List.mem_append.1 hn with hn | hn
    · have hlt := h.seen (fun m hm => hbelow m (List.mem_append_left new hm)) n hn
      exact hlt.trans_le (hle fun m hm => hbelow m (List.mem_append_right s.seen hm))
    · exact hnew n hn (hbelow n (List.mem_append_right s.seen hn))
  bounded := fun e he => ⟨(h.bounded e he).1, List.mem_append_left new (h.bounded e he).2⟩
  fresh := h.fresh
  apart := h.apart

/-- what holds of the numbers in use does not depend on their order -/
theorem Inv.of_perm {s : St C} (h : Inv s) {inFlight : List Reservation} {generated : List (Generated C)}
    (hperm : (inUse inFlight generated).Perm (inUse s.inFlight s.generated)) :
    Inv { s with inFlight := inFlight, generated := generated } where
  next := h.next
  seen := h.seen
  bounded := fun e he => h.bounded e (hperm.subset he)
  fresh := fun e he => h.fresh e (hperm.subset he)
  apart := (hperm.pairwise_iff Apart.symm).2 h.apart

theorem succ64_le (n : ℤ) : succ64 n ≤ 2 ^ 63 - 1 := by
  have hlt : succ64 n < (2 ^ 64 + 1) / 2 := Int.bmod_lt (by decide)
  omega

theorem reserve_inv {s : St C} (h : Inv s) (now : ℤ) : Inv (reserve s now) := by
  unfold reserve
  rcases s.signer.reserveKey_cases succ64 now with ⟨-, hr⟩ | ⟨-, hr⟩
  · rw [hr]
    exact h
  · rw [hr]
    have ha := h.advance (s.signer.reserved succ64) [s.signer.nextKeySeqNum] (succ64_le _)
      (fun hnew => (lt_succ64 (hnew _ List.mem_cons_self)).le)
      (fun n hn hlt => by
        rw [List.mem_singleton.1 hn] at hlt ⊢
        exact lt_succ64 hlt)
    have hperm := inUse_reserve ⟨s.signer.nextKeySeqNum, now + s.signer.params.keyValiditySeconds, s.seen⟩ s.inFlight
      s.generated
    refine ⟨ha.next, ha.seen, fun e he => ?_, fun e he => ?_, ?_⟩
    · rcases List.mem_cons.1 (hperm.subset he) with rfl | he
      · exact ⟨h.next, List.mem_append_right s.seen List.mem_cons_self⟩
      · exact ha.bounded e he
    · rcases List.mem_cons.1 (hperm.subset he) with rfl | he
      · exact fun hbelow => h.seen hbelow
      · exact h.fresh e he
    · refine (hperm.pairwise_iff Apart.symm).2 (List.pairwise_cons.2 ⟨fun e he => ?_, h.apart⟩)
      exact Or.inr (h.bounded e he).2

theorem generate_inv {s : St C} (h : Inv s) {i : ℕ} {r : Reservation} (hi : s.inFlight[i]? = some r)
    (gen : Except BadStatus SK) : Inv (generate s i r gen) := by
  unfold generate generateSigningKey
  cases gen with
  | error e =>
    have hsub : (inUse (s.inFlight.eraseIdx i) s.generated).Sublist (inUse s.inFlight s.generated) :=
      ((List.eraseIdx_sublist _ _).map _).append (List.Sublist.refl _)
    exact ⟨h.next, h.seen, fun e he => h.bounded e (hsub.subset he), fun e he => h.fresh e (hsub.subset he),
      h.apart.sublist hsub⟩
  | ok sk => exact h.of_perm (inUse_generate hi s.generated rfl)

theorem addKey_inv {s : St C} (h : Inv s) (now : ℤ) (key : TokenSigningPrivateKey C) : Inv (addKey s now key) := by
  unfold addKey
  have hcases : ∀ t : TokenSigner C, t.nextKeySeqNum = max s.signer.nextKeySeqNum (succ64 key.keySeqNum) →
      Inv { s with signer := t, seen := s.seen ++ [key.keySeqNum] } := by
    intro t ht
    refine h.advance t [key.keySeqNum] ?_ (fun _ => ht ▸ le_max_left _ _) (fun n hn hlt => ?_)
    · rw [ht]
      exact max_le h.next (succ64_le _)
    · rw [List.mem_singleton.1 hn] at hlt ⊢
      rw [ht]
      exact (lt_succ64 hlt).trans_le (le_max_right _ _)
  rcases s.signer.addKey_cases succ64 now key with ⟨e, ha, hbad⟩ | ⟨e, ha, hpos, hexp, -⟩ | ⟨hpos, hexp, v, -, ha⟩
  · rw [ha, if_neg (by omega)]
    exact h
  · rw [ha, if_pos ⟨hpos, hexp⟩]
    exact hcases _ rfl
  · rw [ha, if_pos ⟨hpos, hexp⟩]
    exact hcases _ rfl

theorem importKeys_inv {s : St C} (h : Inv s) {now : ℤ} {keys : List TokenSigningPrivateKeyPB}
    {r : Status × TokenSigner C} (hr : s.signer.importKeys succ64 now keys = some r) :
    Inv { s with signer := r.2, seen := s.seen ++ keys.map fun pb => pb.keySeqNum.getD 0 } := by
  rcases s.signer.importKeys_cases succ64 now keys with hn | ⟨tsks, next, hc, hle, hlt, hnext, hres⟩
  · rw [hn] at hr
    cases hr
  · have hcases : ∀ t : TokenSigner C, t.nextKeySeqNum = next →
        Inv { s with signer := t, seen := s.seen ++ keys.map fun pb => pb.keySeqNum.getD 0 } := by
      rintro t rfl
      rw [checkedKeys_numbers hc]
      refine h.advance t _ ?_ (fun _ => hle) (fun n hn hbelow => ?_)
      · rcases hnext with he | ⟨tsk, -, he⟩
        · exact he.trans_le h.next
        · exact he.trans_le (succ64_le _)
      · obtain ⟨tsk, ht, rfl⟩ := List.mem_map.1 hn
        exact (lt_succ64 hbelow).trans_le (hlt tsk ht)
    rcases hres with ⟨e, he⟩ | ⟨v, -, hok⟩
    · rw [he] at hr
      cases hr
      exact hcases _ rfl
    · rw [hok] at hr
      cases hr
      exact hcases _ rfl

theorem step_inv (s : St C) (o : Op C) (t : St C) (h : Inv s) (hst : (concurrent params known).step s o = some t) :
    Inv t := by
  cases o with
  | reserve now =>
    cases hst
    exact reserve_inv h now
  | generate i gen =>
    obtain ⟨r, hi, rfl⟩ := Option.map_eq_some_iff.1 hst
    exact generate_inv h hi gen
  | addKey now key =>
    cases hst
    exact addKey_inv h now key
  | importKeys now keys =>
    obtain ⟨r, hr, rfl⟩ := Option.map_eq_some_iff.1 hst
    exact importKeys_inv h hr
  | tryRotateKey now =>
    cases hst
    rcases s.signer.tryRotateKey_cases now with ⟨hr, -⟩ | ⟨key, next, rest, -, -, hr⟩
    · rw [hr]
      exact ⟨h.next, h.seen, h.bounded, h.fresh, h.apart⟩
    · rw [hr]
      exact ⟨h.next, h.seen, h.bounded, h.fresh, h.apart⟩

theorem run_inv {ops : List (Op C)} {s : St C}
    (h : (concurrent params known).run (concurrent params known).init ops = some s) : Inv s :=
  Machine.run_inv step_inv inv_init h

theorem mem_inUse {s : St C} {g : Generated C} (hg : g ∈ s.generated) :
    g.entry ∈ inUse s.inFlight s.generated := List.mem_append_right _ (List.mem_map_of_mem hg)

/-- two numbers that are apart and above all that was seen before are different -/
theorem Apart.ne {e e' : Entry} (h : Apart e e') (he : ∀ n ∈ e.before, n < e.num) (he' : ∀ n ∈ e'.before, n < e'.num) :
    e.num ≠ e'.num := by
  rcases h with h | h
  · exact (he' _ h).ne
  · exact (he _ h).ne'

/-- **Fresh numbers.** In every interleaving, the number of a key that CheckNeedKey generated is above every number that
was reserved, added or imported before its own was reserved, exactly when all of these are below 2^63 - 1; and no two
such keys share a number. -/
theorem generated_numbers_fresh (params : TokenSignerParams) (known : TokenVerifier C) (ops : List (Op C)) (s : St C)
    (hrun : (concurrent params known).run (concurrent params known).init ops = some s) :
    (∀ g ∈ s.generated, (∀ n ∈ g.before, n < g.key.keySeqNum) ↔ ∀ n ∈ g.before, n < 2 ^ 63 - 1) ∧
      s.generated.Pairwise fun g g' => (∀ n ∈ g.before, n < 2 ^ 63 - 1) → (∀ n ∈ g'.before, n < 2 ^ 63 - 1) →
        g.key.keySeqNum ≠ g'.key.keySeqNum := by
  have h := run_inv hrun
  constructor
  · intro g hg
    have hmem := mem_inUse hg
    exact ⟨fun habove n hn => (habove n hn).trans_le (h.bounded _ hmem).1, h.fresh _ hmem⟩
  · have hapart : s.generated.Pairwise fun g g' => Apart g.entry g'.entry :=
      List.pairwise_map.1 (List.pairwise_append.1 h.apart).2.1
    refine hapart.imp_of_mem fun {g g'} hg hg' hne hbelow hbelow' => ?_
    exact hne.ne (h.fresh _ (mem_inUse hg) hbelow) (h.fresh _ (mem_inUse hg') hbelow')

/-! ## Order of the queue -/

def Sorted (s : St C) : Prop := s.signer.tskDeque.Pairwise fun x y => x.keySeqNum < y.keySeqNum

instance : DecidablePred (Sorted (C := C)) := fun s =>
  inferInstanceAs (Decidable (s.signer.tskDeque.Pairwise fun x y => x.keySeqNum < y.keySeqNum))

/-- an operation of a maintenance task: no imports, and AddKey takes a key that some CheckNeedKey returned -/
def Task (s : St C) : Op C → Prop
  | .addKey _ key => ∃ g ∈ s.generated, g.key = key
  | .importKeys _ _ => False
  | _ => True

instance [DecidableEq SK] [DecidableEq PK] (s : St C) : ∀ o, Decidable (Task s o)
  | .addKey _ key => inferInstanceAs (Decidable (∃ g ∈ s.generated, g.key = key))
  | .importKeys _ _ => isFalse id
  | .reserve _ => isTrue trivial
  | .generate _ _ => isTrue trivial
  | .tryRotateKey _ => isTrue trivial

/-- an AddKey that succeeds brings a number above all in the queue -/
def AddsInOrder (s : St C) : Op C → Prop
  | .addKey now key =>
    (s.signer.addKey succ64 now key).1 = .ok → ∀ x ∈ s.signer.tskDeque, x.keySeqNum < key.keySeqNum
  | _ => True

instance (s : St C) : ∀ o, Decidable (AddsInOrder s o)
  | .addKey now key => inferInstanceAs (Decidable
      ((s.signer.addKey succ64 now key).1 = .ok → ∀ x ∈ s.signer.tskDeque, x.keySeqNum < key.keySeqNum))
  | .reserve _ => isTrue trivial
  | .generate _ _ => isTrue trivial
  | .importKeys _ _ => isTrue trivial
  | .tryRotateKey _ => isTrue trivial

/-- AddKey takes a generated key whose number was reserved after those of the queue -/
def AddsAsReserved (s : St C) : Op C → Prop
  | .addKey _ key => ∃ g ∈ s.generated, g.key = key ∧ (∀ x ∈ s.signer.tskDeque, x.keySeqNum ∈ g.before) ∧
      ∀ n ∈ g.before, n < 2 ^ 63 - 1
  | _ => True

/-- tasks that add their keys in the order of the reservations add them in the order of the numbers -/
theorem addsInOrder_of_reserved {ops : List (Op C)}
    (hops : (concurrent params known).Along AddsAsReserved (concurrent params known).init ops) :
    (concurrent params known).Along AddsInOrder (concurrent params known).init ops := by
  refine Machine.along_imp (fun s o t h _ hst => step_inv s o t h hst) ?_ inv_init hops
  intro s o h ho
  cases o with
  | addKey now key =>
    obtain ⟨g, hg, rfl, hreserved, hbelow⟩ := ho
    intro _ x hx
    exact h.fresh _ (mem_inUse hg) hbelow _ (hreserved x hx)
  | reserve now => exact trivial
  | generate i gen => exact trivial
  | importKeys now keys => exact trivial
  | tryRotateKey now => exact trivial

/-- what a task can do to the queue: nothing, append a key, or drop the front of at least two -/
theorem step_deque {s t : St C} {o : Op C} (ho : Task s o) (hst : (concurrent params known).step s o = some t) :
    (t.signer.tskDeque = s.signer.tskDeque ∧ (AddsInOrder s o ↔ True)) ∨
      (∃ key, t.signer.tskDeque = s.signer.tskDeque ++ [key] ∧
        (AddsInOrder s o ↔ ∀ x ∈ s.signer.tskDeque, x.keySeqNum < key.keySeqNum)) ∨
      (∃ key next rest, s.signer.tskDeque = key :: next :: rest ∧ t.signer.tskDeque = next :: rest ∧
        (AddsInOrder s o ↔ True)) := by
  cases o with
  | reserve now =>
    cases hst
    left
    refine ⟨?_, Iff.rfl⟩
    unfold reserve
    rcases s.signer.reserveKey_cases succ64 now with ⟨-, hr⟩ | ⟨-, hr⟩
    · rw [hr]
    · rw [hr]
      rfl
  | generate i gen =>
    obtain ⟨r, -, rfl⟩ := Option.map_eq_some_iff.1 hst
    left
    refine ⟨?_, Iff.rfl⟩
    unfold generate
    split <;> rfl
  | addKey now key =>
    cases hst
    simp only [addKey, AddsInOrder]
    rcases s.signer.addKey_cases succ64 now key with ⟨e, ha, -⟩ | ⟨e, ha, -⟩ | ⟨-, -, v, -, ha⟩
    · rw [ha]
      exact Or.inl ⟨rfl, by simp⟩
    · rw [ha]
      exact Or.inl ⟨rfl, by simp⟩
    · rw [ha]
      exact Or.inr (Or.inl ⟨key, rfl, by simp⟩)
  | importKeys now keys => exact absurd ho id
  | tryRotateKey now =>
    cases hst
    rcases s.signer.tryRotateKey_cases now with ⟨hr, -⟩ | ⟨key, next, rest, hd, -, hr⟩
    · rw [hr]
      exact Or.inl ⟨rfl, Iff.rfl⟩
    · rw [hr]
      exact Or.inr (Or.inr ⟨key, next, rest, hd, rfl, Iff.rfl⟩)

theorem sorted_append {q : List (TokenSigningPrivateKey C)} (h : q.Pairwise fun x y => x.keySeqNum < y.keySeqNum)
    (key : TokenSigningPrivateKey C) :
    ((q ++ [key]).Pairwise fun x y => x.keySeqNum < y.keySeqNum) ↔ ∀ x ∈ q, x.keySeqNum < key.keySeqNum := by
  simp [List.pairwise_append, h]

/-- a step of a task keeps the order exactly when it adds in order -/
theorem step_sorted {s t : St C} {o : Op C} (hs : Sorted s) (ho : Task s o)
    (hst : (concurrent params known).step s o = some t) : Sorted t ↔ AddsInOrder s o := by
  unfold Sorted at hs ⊢
  rcases step_deque ho hst with ⟨hd, hi⟩ | ⟨key, hd, hi⟩ | ⟨key, next, rest, hs', hd, hi⟩
  · rw [hd, hi]
    exact iff_of_true hs trivial
  · rw [hd, hi]
    exact sorted_append hs key
  · rw [hd, hi]
    rw [hs'] at hs
    exact iff_of_true (List.pairwise_cons.1 hs).2 trivial

/-- a step that is not enabled adds nothing out of order -/
theorem addsInOrder_of_stuck {s : St C} {o : Op C} (h : (concurrent params known).step s o = none) : AddsInOrder s o := by
  cases o with
  | addKey now key => cases h
  | reserve now => exact trivial
  | generate i gen => exact trivial
  | importKeys now keys => exact trivial
  | tryRotateKey now => exact trivial

/-- the front key of `t` is not older than the one of `s` -/
def Ahead (s t : St C) : Prop :=
  ∀ x ∈ s.signer.tskDeque.head?, ∃ y ∈ t.signer.tskDeque.head?, x.keySeqNum ≤ y.keySeqNum

theorem step_ahead {s t : St C} {o : Op C} (hs : Sorted s) (ho : Task s o)
    (hst : (concurrent params known).step s o = some t) : Ahead s t := by
  intro x hx
  rcases step_deque ho hst with ⟨hd, -⟩ | ⟨key, hd, -⟩ | ⟨key, next, rest, hs', hd, -⟩
  · rw [hd]
    exact ⟨x, hx, le_rfl⟩
  · rw [hd]
    exact ⟨x, by simp [Option.mem_def.1 hx], le_rfl⟩
  · unfold Sorted at hs
    rw [hs'] at hs hx
    obtain rfl : key = x := Option.some.inj hx
    rw [hd]
    exact ⟨next, rfl, ((List.pairwise_cons.1 hs).1 next List.mem_cons_self).le⟩

/-- SignToken in `t` does not use a smaller number than in `s` -/
def NeverGoesBack (s t : St C) : Prop :=
  ∀ token signed token' signed', s.signer.signToken token = .ok signed → t.signer.signToken token' = .ok signed' →
    ∃ n m, signed.signingKeySeqNum = some n ∧ signed'.signingKeySeqNum = some m ∧ n ≤ m

theorem Ahead.neverGoesBack {s t : St C} (h : Ahead s t) : NeverGoesBack s t := by
  intro token signed token' signed' hs ht
  obtain ⟨x, rest, hx, hsign⟩ := TokenSigner.signToken_ok hs
  obtain ⟨y, rest', hy, hsign'⟩ := TokenSigner.signToken_ok ht
  obtain ⟨sig, -, rfl⟩ := TokenSigningPrivateKey.sign_ok hsign
  obtain ⟨sig', -, rfl⟩ := TokenSigningPrivateKey.sign_ok hsign'
  obtain ⟨y', hy', hle⟩ := h x (by simp [hx])
  rw [hy] at hy'
  obtain rfl : y = y' := Option.some.inj hy'
  exact ⟨_, _, rfl, rfl, hle⟩

/-- **Order of the queue.** For every interleaving of maintenance tasks the queue is in strictly increasing order in all
states exactly when every AddKey that succeeds brings a number above all in the queue, and then SignToken never goes back
to a smaller number. -/
theorem deque_order_iff (params : TokenSignerParams) (known : TokenVerifier C) (ops : List (Op C))
    (hops : (concurrent params known).Along Task (concurrent params known).init ops) :
    ((concurrent params known).Always Sorted (concurrent params known).init ops ↔
      (concurrent params known).Along AddsInOrder (concurrent params known).init ops) ∧
      ((concurrent params known).Along AddsInOrder (concurrent params known).init ops →
        ∀ a b s t, ops = a ++ b → (concurrent params known).run (concurrent params known).init a = some s →
          (concurrent params known).run s b = some t → NeverGoesBack s t) := by
  have hinit : Sorted (concurrent params known).init := List.Pairwise.nil
  constructor
  · refine Machine.always_iff_along (I := fun _ => True) (D := Task) (fun _ _ _ _ _ _ _ => trivial) ?_ trivial hinit
      hops
    intro s o _ hs ho
    constructor
    · intro h
      cases hst : (concurrent params known).step s o with
      | none => exact addsInOrder_of_stuck hst
      | some t => exact (step_sorted hs ho hst).1 (h t hst)
    · intro h t hst
      exact (step_sorted hs ho hst).2 h
  · rintro hadds a b s t rfl ha hb
    obtain ⟨hfirst, hrest⟩ := Machine.along_append (Machine.along_and hops hadds) ha
    have hkeep : ∀ s o t, Sorted s → Task s o ∧ AddsInOrder s o → (concurrent params known).step s o = some t →
        Sorted t := by
      intro s o t hs ho hst
      exact (step_sorted hs ho.1 hst).2 ho.2
    have hs : Sorted s := Machine.run_inv_along hkeep hinit hfirst ha
    have hahead : Ahead s t := by
      refine Machine.run_rel (R := Ahead) (fun _ x hx => ⟨x, hx, le_rfl⟩) ?_ hkeep ?_ hs hrest hb
      · intro s t u hst htu x hx
        obtain ⟨y, hy, hxy⟩ := hst x hx
        obtain ⟨z, hz, hyz⟩ := htu y hy
        exact ⟨z, hz, hxy.trans hyz⟩
      · intro s o t hs ho hst
        exact step_ahead hs ho.1 hst
    exact hahead.neverGoesBack

/-! ## Witnesses -/

/-- the key that a CheckNeedKey at `now` generates under number `n` -/
def keyAt (now n : ℤ) (sk : UInt8) : TokenSigningPrivateKey byteCrypto := .ofKey byteCrypto n (now + 3) sk

/-- two tasks run their cycles one after the other: number 0 at 0, number 1 at 2, and key 1 signs from 4 on -/
def tasksInOrder : List (Op byteCrypto) :=
  [.reserve 0, .generate 0 (.ok 7), .addKey 0 (keyAt 0 0 7), .tryRotateKey 0,
    .reserve 2, .generate 0 (.ok 8), .addKey 2 (keyAt 2 1 8), .tryRotateKey 4]

/-- two tasks reserve 0 and 1, keys up to 5 are imported although they have expired, and a task reserves 6 -/
def importBetween : List (Op byteCrypto) :=
  [.reserve 0, .reserve 0, .importKeys 0 [⟨some 5, some [6], some 0⟩], .generate 1 (.ok 8), .addKey 0 (keyAt 0 1 8),
    .reserve 2, .generate 0 (.ok 7), .generate 0 (.ok 9)]

theorem generated_numbers_fresh_importBetween :
    let m := concurrent shortParams (TokenVerifier.empty byteCrypto)
    ∃ s, m.run m.init importBetween = some s ∧
      (s.generated.map fun g => (g.key.keySeqNum, g.before)) = [(1, [0]), (0, []), (6, [0, 1, 5, 1])] ∧
      ∀ g ∈ s.generated, ∀ n ∈ g.before, n < g.key.keySeqNum := by
  refine ⟨_, rfl, by decide, fun g hg => ?_⟩
  refine ((generated_numbers_fresh shortParams (TokenVerifier.empty byteCrypto) importBetween _ rfl).1 g hg).2 ?_
  revert g
  decide

/-- an expired key 2^63 - 2 is imported, and two tasks find the queue empty -/
def importBelowLimit : List (Op byteCrypto) :=
  [.importKeys 0 [⟨some (2 ^ 63 - 2), some [6], some 0⟩], .reserve 0, .reserve 0, .generate 0 (.ok 7), .generate 0 (.ok 8)]

/-- **The numbers start over.** No number follows 2^63 - 1: the key that is reserved after it has number -2^63. -/
theorem numbers_start_over :
    let m := concurrent shortParams (TokenVerifier.empty byteCrypto)
    ∃ s, m.run m.init importBelowLimit = some s ∧
      (s.generated.map fun g => (g.key.keySeqNum, g.before)) =
        [(2 ^ 63 - 1, [2 ^ 63 - 2]), (-2 ^ 63, [2 ^ 63 - 2, 2 ^ 63 - 1])] ∧
      ¬ ∀ g ∈ s.generated, ∀ n ∈ g.before, n < g.key.keySeqNum := by
  refine ⟨_, rfl, by decide, by decide⟩

theorem deque_order_tasksInOrder :
    let m := concurrent shortParams (TokenVerifier.empty byteCrypto)
    m.Always Sorted m.init tasksInOrder :=
  (deque_order_iff shortParams (TokenVerifier.empty byteCrypto) tasksInOrder (by decide)).1.2 (by decide)

/-- two tasks find the queue empty at 0; the one with number 1 adds its key first -/
def tasksOutOfOrder : List (Op byteCrypto) :=
  [.reserve 0, .reserve 0, .generate 0 (.ok 7), .generate 0 (.ok 8), .addKey 0 (keyAt 0 1 8), .tryRotateKey 0,
    .addKey 0 (keyAt 0 0 7), .tryRotateKey 0]

/-- **Out of order.** The queue is 1, 0: tokens are signed with key 1 until it leaves at 4, then with key 0. -/
theorem tasks_add_out_of_order :
    let m := concurrent shortParams (TokenVerifier.empty byteCrypto)
    ∃ s t, m.run m.init tasksOutOfOrder = some s ∧ m.run s [.tryRotateKey 4] = some t ∧
      m.Along Task m.init (tasksOutOfOrder ++ [.tryRotateKey 4]) ∧
      (s.signer.tskDeque.map fun key => key.keySeqNum) = [1, 0] ∧
      (t.signer.tskDeque.map fun key => key.keySeqNum) = [0] ∧ ¬ Sorted s ∧ ¬ NeverGoesBack s t := by
  refine ⟨_, _, rfl, rfl, by decide, by decide, by decide, by decide, fun h => ?_⟩
  obtain ⟨n, m, hn, hm, hle⟩ := h ⟨some [], none, none⟩ _ ⟨some [], none, none⟩ _ rfl rfl
  cases hn
  cases hm
  exact absurd hle (by decide)

end Bboy.Security.Concurrent
