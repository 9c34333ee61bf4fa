/-
Lean model of `Socket::BlockingWrite` and `Socket::BlockingRead` (`bboy/base/net/socket.cc`): transfers in rounds until all
is transferred, the deadline passes or a call fails.

The two loops differ in the call, in what it does and in the texts. A round is what the environment decides in it: the
clock, the result of setsockopt, and what send or recv would answer for each length, a number that is at most the length.
A buffer is no longer than the `DCHECK`s at the start allow, so an `int` holds each answer.

- `loop_spec`: the pointer and the output count stay at the number of bytes transferred, and all of them are only on OK.
- `loop_returns`: the loop ends when as many rounds are not interrupted as there are bytes.
- `blocking_exact`: on OK the buffer is sent or filled, once and in order; otherwise a strict prefix of it, as long as the
  output count says, and nothing after it. Each call ends when enough rounds are not interrupted, and is OK when every round
  is in time and transfers something or is interrupted.
Witness: `blocking_exact_short`.
-/
import Bboy.Base.Status
import Bboy.Core.Bytes

namespace Bboy.Socket

open Core

/-! ## System calls -/

def EINTR : ℤ := 4

def EAGAIN : ℤ := 11

def EINVAL : ℤ := 22

def ESHUTDOWN : ℤ := 108

def INT32_MAX : ℕ := 2 ^ 31 - 1

/-- `ErrnoToString` and `MonoDelta::ToString` -/
structure Texts where
  errnoToString : ℤ → String
  deltaToString : ℤ → String

/-- a buffer of a length that both loops accept -/
structure Buffer where
  bytes : List UInt8
  size_le : bytes.length ≤ INT32_MAX

/-- what the environment decides in one round; `call` is send or recv for a buffer of that many bytes -/
structure Round (τ : Type) where
  now : ℤ
  setsockopt : Except ℤ Unit
  call : ℕ → Except ℤ τ

def setTimeout (texts : Texts) (optname : String) (timeout : ℤ) (setsockopt : Except ℤ Unit) : Except BadStatus Unit :=
  if timeout < 0 then
    .error (.invalidArgument (BadStatus.joined "Timeout specified as negative to SetTimeout" (texts.deltaToString timeout)))
  else
    match setsockopt with
    | .error err =>
      .error (.networkError ("Failed to set " ++ optname ++ " to " ++ texts.deltaToString timeout) (texts.errnoToString err) err)
    | .ok () => .ok ()

/-- `Write`: the number of bytes, or an error with `*nwritten` as it was -/
def write (texts : Texts) (amt : ℕ) (send : ℕ → Except ℤ ℕ) : Except BadStatus ℕ :=
  if amt ≤ 0 then .error (.networkError ("invalid send of " ++ toString amt ++ " bytes") "" EINVAL)
  else
    match send amt with
    | .error err => .error (.networkError ("write error: " ++ texts.errnoToString err) "" err)
    | .ok res => .ok res

/-- `Read`: the bytes received, or an error -/
def read (texts : Texts) (amt : ℕ) (recv : ℕ → Except ℤ (List UInt8)) : Except BadStatus (List UInt8) :=
  if amt ≤ 0 then .error (.networkError ("invalid recv of " ++ toString amt ++ " bytes") "" EINVAL)
  else
    match recv amt with
    | .error err => .error (.networkError ("recv error: " ++ texts.errnoToString err) "" err)
    | .ok [] => .error (.networkError "Recv() got EOF from remote" "" ESHUTDOWN)
    | .ok res => .ok res

/-! ## The loops -/

/-- what the two loops differ in: `effect` is what a call does when the pointer is so far into the buffer -/
structure Transfer (τ δ : Type) where
  optname : String
  timedOut : String
  errorPrefix : String
  zeroBytes : String
  io : ℕ → (ℕ → Except ℤ τ) → Except BadStatus τ
  size : τ → ℕ
  effect : ℕ → τ → δ → δ

/-- the variables of a loop: how far `buf` has moved, the total, the output count, and what was transferred -/
structure Vars (δ : Type) where
  buf : ℕ
  tot : ℕ
  out : ℕ
  data : δ

inductive Next where
  | again
  | leave
  | ret (e : BadStatus)

variable {τ δ : Type}

def round (T : Transfer τ δ) (texts : Texts) (deadline : ℤ) (length : ℕ) (r : Round τ) (v : Vars δ) : Next × Vars δ :=
  let num := length - v.tot
  let timeout := deadline - r.now
  if timeout ≤ 0 then (.ret (.timedOut T.timedOut), v)
  else
    match setTimeout texts T.optname timeout r.setsockopt with
    | .error e => (.ret e, v)
    | .ok () =>
      match T.io num r.call with
      | .error e =>
        let v := { v with out := v.tot }
        if e.posixCode = EINTR then (.again, v)
        else if e.posixCode = EAGAIN then (.ret (.timedOut ""), v)
        else (.ret (e.cloneAndPrepend T.errorPrefix), v)
      | .ok x =>
        let inc := T.size x
        let v := { buf := v.buf + inc, tot := v.tot + inc, out := v.tot + inc, data := T.effect v.buf x v.data }
        (if inc = 0 then .leave else .again, v)

/-- after the loop -/
def finish (T : Transfer τ δ) (length : ℕ) (v : Vars δ) : Status × Vars δ :=
  if v.tot < length then
    (.bad (.ioError T.zeroBytes ("Transferred " ++ toString v.tot ++ " of " ++ toString length ++ " bytes") (-1)), v)
  else (.ok, v)

/-- `none` while the rounds do not suffice -/
def loop (T : Transfer τ δ) (texts : Texts) (deadline : ℤ) (length : ℕ) : List (Round τ) → Vars δ → Option (Status × Vars δ)
  | [], v => if v.tot < length then none else some (finish T length v)
  | r :: rounds, v =>
    if v.tot < length then
      match round T texts deadline length r v with
      | (.again, v) => loop T texts deadline length rounds v
      | (.leave, v) => some (finish T length v)
      | (.ret e, v) => some (.bad e, v)
    else some (finish T length v)

/-- `data` are the bytes on the wire -/
def writeTransfer (texts : Texts) (buf : Buffer) : Transfer ℕ (List UInt8) where
  optname := "SO_SNDTIMEO"
  timedOut := "BlockingWrite timed out"
  errorPrefix := "BlockingWrite error"
  zeroBytes := "Wrote zero bytes on a BlockingWrite() call"
  io := write texts
  size := id
  effect pos n wire := wire ++ (buf.bytes.drop pos).take n

def blockingWrite (texts : Texts) (deadline : ℤ) (buf : Buffer) (rounds : List (Round ℕ)) :
    Option (Status × Vars (List UInt8)) :=
  loop (writeTransfer texts buf) texts deadline buf.bytes.length rounds ⟨0, 0, 0, []⟩

/-- the memory at the buffer, and all bytes that recv delivered -/
structure Received where
  memory : List UInt8
  stream : List UInt8

def readTransfer (texts : Texts) : Transfer (List UInt8) Received where
  optname := "SO_RCVTIMEO"
  timedOut := ""
  errorPrefix := "BlockingRecv error"
  zeroBytes := "Read zero bytes on a blocking Recv() call"
  io := read texts
  size := List.length
  effect pos bytes d := ⟨splice d.memory pos bytes, d.stream ++ bytes⟩

def blockingRead (texts : Texts) (deadline : ℤ) (buf : Buffer) (rounds : List (Round (List UInt8))) :
    Option (Status × Vars Received) :=
  loop (readTransfer texts) texts deadline buf.bytes.length rounds ⟨0, 0, 0, ⟨buf.bytes, []⟩⟩

/-! ## The loop invariant -/

variable {T : Transfer τ δ} {texts : Texts} {deadline : ℤ} {length : ℕ} {r : Round τ} {rounds : List (Round τ)} {v w : Vars δ}
  {s : Status} {R : ℕ → δ → Prop}

/-- what a call in round `r` may do when `tot` bytes are transferred -/
def Keeps (T : Transfer τ δ) (R : ℕ → δ → Prop) (length : ℕ) (r : Round τ) : Prop :=
  ∀ tot d x, tot < length → R tot d → T.io (length - tot) r.call = .ok x →
    T.size x ≤ length - tot ∧ R (tot + T.size x) (T.effect tot x d)

/-- the pointer and the output count are where the total is -/
structure Aligned (R : ℕ → δ → Prop) (length : ℕ) (v : Vars δ) : Prop where
  buf : v.buf = v.tot
  out : v.out = v.tot
  tot_le : v.tot ≤ length
  data : R v.tot v.data

/-- what a round can do: return an error, be interrupted, or transfer something -/
theorem round_cases {next : Next} (h : round T texts deadline length r v = (next, w)) :
    (∃ e, next = .ret e ∧ (w = v ∨ w = { v with out := v.tot })) ∨
    (next = .again ∧ w = { v with out := v.tot } ∧ ∃ e, T.io (length - v.tot) r.call = .error e ∧ e.posixCode = EINTR) ∨
    ∃ x, T.io (length - v.tot) r.call = .ok x ∧ next = (if T.size x = 0 then .leave else .again) ∧
      w = ⟨v.buf + T.size x, v.tot + T.size x, v.tot + T.size x, T.effect v.buf x v.data⟩ := by
  unfold round at h
  dsimp only at h
  split_ifs at h with htimeout
  · cases h
    exact Or.inl ⟨_, rfl, Or.inl rfl⟩
  · cases hset : setTimeout texts T.optname (deadline - r.now) r.setsockopt with
    | error e =>
      rw [hset] at h
      cases h
      exact Or.inl ⟨_, rfl, Or.inl rfl⟩
    | ok =>
      rw [hset] at h
      dsimp only at h
      cases hio : T.io (length - v.tot) r.call with
      | error e =>
        rw [hio] at h
        dsimp only at h
        split_ifs at h with hintr hagain
        · cases h
          exact Or.inr (Or.inl ⟨rfl, rfl, e, rfl, hintr⟩)
        · cases h
          exact Or.inl ⟨_, rfl, Or.inr rfl⟩
        · cases h
          exact Or.inl ⟨_, rfl, Or.inr rfl⟩
      | ok x =>
        rw [hio] at h
        cases h
        exact Or.inr (Or.inr ⟨x, rfl, rfl, rfl⟩)

/-- a round leaves the variables aligned, and ends the loop only when something is missing -/
theorem round_spec (hr : Keeps T R length r) (hv : Aligned R length v) (hlt : v.tot < length) {next : Next}
    (h : round T texts deadline length r v = (next, w)) : Aligned R length w ∧ (next ≠ .again → w.tot < length) := by
  have hout : Aligned R length { v with out := v.tot } := ⟨hv.buf, rfl, hv.tot_le, hv.data⟩
  obtain ⟨e, rfl, rfl | rfl⟩ | ⟨rfl, rfl, -⟩ | ⟨x, hio, rfl, rfl⟩ := round_cases h
  · exact ⟨hv, fun _ => hlt⟩
  · exact ⟨hout, fun _ => hlt⟩
  · exact ⟨hout, fun _ => hlt⟩
  · obtain ⟨hsize, hR⟩ := hr v.tot v.data x hlt hv.data hio
    refine ⟨⟨by rw [hv.buf], rfl, by dsimp only; omega, by rw [hv.buf]; exact hR⟩, fun hnext => ?_⟩
    by_cases hzero : T.size x = 0
    · dsimp only
      omega
    · rw [if_neg hzero] at hnext
      exact absurd rfl hnext

theorem finish_spec (hv : Aligned R length v) (h : finish T length v = (s, w)) :
    Aligned R length w ∧ (s = .ok ↔ w.tot = length) := by
  have hle := hv.tot_le
  unfold finish at h
  split_ifs at h with hlt
  · cases h
    exact ⟨hv, fun hok => absurd hok Status.noConfusion, fun heq => absurd heq hlt.ne⟩
  · cases h
    exact ⟨hv, fun _ => le_antisymm hle (not_lt.1 hlt), fun _ => rfl⟩

/-- **The loop ends aligned, and OK only with all bytes transferred.** -/
theorem loop_spec (hrounds : ∀ r ∈ rounds, Keeps T R length r) (hv : Aligned R length v)
    (h : loop T texts deadline length rounds v = some (s, w)) : Aligned R length w ∧ (s = .ok ↔ w.tot = length) := by
  induction rounds generalizing v with
  | nil =>
    dsimp only [loop] at h
    split_ifs at h
    exact finish_spec hv (Option.some.inj h)
  | cons r rounds ih =>
    obtain ⟨hr, hrest⟩ := List.forall_mem_cons.1 hrounds
    dsimp only [loop] at h
    split_ifs at h with hlt
    · cases hround : round T texts deadline length r v with
      | mk next u =>
        rw [hround] at h
        obtain ⟨hu, hmissing⟩ := round_spec hr hv hlt hround
        cases next with
        | again => exact ih hrest hu h
        | leave => exact finish_spec hu (Option.some.inj h)
        | ret e =>
          cases h
          have hlt' := hmissing Next.noConfusion
          exact ⟨hu, fun hok => absurd hok Status.noConfusion, fun heq => absurd heq hlt'.ne⟩
    · exact finish_spec hv (Option.some.inj h)

/-! ## Termination -/

/-- the call of round `r` is not interrupted -/
def Uninterrupted (r : Round τ) : Prop := ∀ amt, r.call amt ≠ .error EINTR

/-- an interruption comes from the call -/
def Interrupts (T : Transfer τ δ) : Prop :=
  ∀ num call e, T.io num call = .error e → e.posixCode = EINTR → call num = .error EINTR

/-- a round that does not end the loop transfers something, unless it is interrupted -/
theorem round_progress (hT : Interrupts T) (h : round T texts deadline length r v = (.again, w)) :
    v.tot < w.tot ∨ w.tot = v.tot ∧ ¬ Uninterrupted r := by
  obtain ⟨e, hret, -⟩ | ⟨-, rfl, e, hio, hintr⟩ | ⟨x, -, hnext, rfl⟩ := round_cases h
  · exact absurd hret Next.noConfusion
  · exact Or.inr ⟨rfl, fun hr => hr _ (hT _ _ e hio hintr)⟩
  · left
    dsimp only
    split_ifs at hnext with hzero
    omega

open Classical in
/-- as many rounds are not interrupted as there are bytes -/
def Enough (length : ℕ) (rounds : List (Round τ)) : Prop := length ≤ rounds.countP fun r => Uninterrupted r

open Classical in
theorem enough_of_all (h : ∀ r ∈ rounds, Uninterrupted r) (hlength : length ≤ rounds.length) : Enough length rounds := by
  rwa [Enough, List.countP_eq_length.2 fun r hr => decide_eq_true (h r hr)]

open Classical in
/-- **The loop ends** when there are as many uninterrupted rounds as bytes are missing. -/
theorem loop_returns (hT : Interrupts T) (h : length ≤ v.tot + rounds.countP (fun r => Uninterrupted r)) :
    ∃ s w, loop T texts deadline length rounds v = some (s, w) := by
  induction rounds generalizing v with
  | nil =>
    rw [List.countP_nil, add_zero] at h
    exact ⟨_, _, by rw [loop, if_neg (not_lt.2 h)]⟩
  | cons r rounds ih =>
    dsimp only [loop]
    split_ifs with hlt
    · cases hround : round T texts deadline length r v with
      | mk next u =>
        cases next with
        | again =>
          apply ih
          rw [List.countP_cons] at h
          obtain hmore | ⟨hsame, hintr⟩ := round_progress hT hround
          · split_ifs at h <;> omega
          · rw [if_neg (by simpa using hintr)] at h
            omega
        | leave => exact ⟨_, _, rfl⟩
        | ret e => exact ⟨_, _, rfl⟩
    · exact ⟨_, _, rfl⟩

/-! ## Success -/

/-- in round `r`, in time, what is asked for is transferred in part at least, or interrupted -/
structure Serves (size : τ → ℕ) (deadline : ℤ) (r : Round τ) : Prop where
  inTime : r.now < deadline
  setsockopt : r.setsockopt = .ok ()
  call : ∀ amt, 0 < amt → r.call amt = .error EINTR ∨ ∃ x, r.call amt = .ok x ∧ 0 < size x

/-- what the loop gets of such a round -/
def Answers (T : Transfer τ δ) : Prop := ∀ num call, 0 < num →
  (call num = .error EINTR → ∃ e, T.io num call = .error e ∧ e.posixCode = EINTR) ∧
  ∀ x, call num = .ok x → 0 < T.size x → T.io num call = .ok x

theorem setTimeout_ok {optname : String} {timeout : ℤ} (h : 0 < timeout) : setTimeout texts optname timeout (.ok ()) = .ok () :=
  if_neg (not_lt.2 h.le)

/-- such a round does not end the loop -/
theorem round_again (hT : Answers T) (hr : Serves T.size deadline r) (hlt : v.tot < length) :
    ∃ w, round T texts deadline length r v = (.again, w) := by
  have hnum : 0 < length - v.tot := Nat.sub_pos_of_lt hlt
  have htimeout : 0 < deadline - r.now := Int.sub_pos_of_lt hr.inTime
  have hset : setTimeout texts T.optname (deadline - r.now) r.setsockopt = .ok () := by
    rw [hr.setsockopt]
    exact setTimeout_ok htimeout
  unfold round
  dsimp only
  rw [if_neg (not_le.2 htimeout), hset]
  obtain hintr | ⟨x, hx, hsize⟩ := hr.call _ hnum
  · obtain ⟨e, hio, he⟩ := (hT _ _ hnum).1 hintr
    exact ⟨_, by rw [hio]; exact if_pos he⟩
  · have hio := (hT _ _ hnum).2 x hx hsize
    exact ⟨_, by rw [hio]; dsimp only; rw [if_neg hsize.ne']⟩

/-- **The loop is OK** when every round serves it. -/
theorem loop_ok (hT : Answers T) (hrounds : ∀ r ∈ rounds, Serves T.size deadline r)
    (h : loop T texts deadline length rounds v = some (s, w)) : s = .ok := by
  have hfinish : ∀ u : Vars δ, ¬u.tot < length → finish T length u = (s, w) → s = .ok := by
    intro u hge hu
    rw [finish, if_neg hge] at hu
    exact (congrArg Prod.fst hu).symm
  induction rounds generalizing v with
  | nil =>
    dsimp only [loop] at h
    split_ifs at h with hlt
    exact hfinish v hlt (Option.some.inj h)
  | cons r rounds ih =>
    obtain ⟨hr, hrest⟩ := List.forall_mem_cons.1 hrounds
    dsimp only [loop] at h
    split_ifs at h with hlt
    · obtain ⟨u, hround⟩ := round_again hT hr hlt
      rw [hround] at h
      exact ih hrest h
    · exact hfinish v hlt (Option.some.inj h)

/-! ## Main result -/

/-- send takes no more than it is given -/
def SendDocumented (rounds : List (Round ℕ)) : Prop := ∀ r ∈ rounds, ∀ amt n, r.call amt = .ok n → n ≤ amt

/-- recv delivers no more than it is asked for -/
def RecvDocumented (rounds : List (Round (List UInt8))) : Prop :=
  ∀ r ∈ rounds, ∀ amt bytes, r.call amt = .ok bytes → bytes.length ≤ amt

theorem write_ok {amt n : ℕ} {send : ℕ → Except ℤ ℕ} (h : write texts amt send = .ok n) : send amt = .ok n := by
  unfold write at h
  split_ifs at h
  cases hsend : send amt with
  | error err => simp [hsend] at h
  | ok res =>
    rw [hsend] at h
    cases h
    rfl

theorem read_ok {amt : ℕ} {bytes : List UInt8} {recv : ℕ → Except ℤ (List UInt8)} (h : read texts amt recv = .ok bytes) :
    recv amt = .ok bytes := by
  unfold read at h
  split_ifs at h
  cases hrecv : recv amt with
  | error err => simp [hrecv] at h
  | ok res =>
    cases res with
    | nil => simp [hrecv] at h
    | cons b res =>
      rw [hrecv] at h
      cases h
      rfl

theorem write_interrupts (buf : Buffer) : Interrupts (writeTransfer texts buf) := by
  intro amt send e h hintr
  change write texts amt send = .error e at h
  unfold write at h
  split_ifs at h with hle
  · cases h
    cases hintr
  · cases hsend : send amt with
    | error err =>
      rw [hsend] at h
      cases h
      exact congrArg Except.error hintr
    | ok res => simp [hsend] at h

theorem read_interrupts : Interrupts (readTransfer texts) := by
  intro amt recv e h hintr
  change read texts amt recv = .error e at h
  unfold read at h
  split_ifs at h with hle
  · cases h
    cases hintr
  · cases hrecv : recv amt with
    | error err =>
      rw [hrecv] at h
      cases h
      exact congrArg Except.error hintr
    | ok res =>
      rw [hrecv] at h
      cases res with
      | nil =>
        cases h
        cases hintr
      | cons b res => cases h

theorem write_answers (buf : Buffer) : Answers (writeTransfer texts buf) := by
  intro amt send hpos
  constructor
  · intro hintr
    exact ⟨_, by change write texts amt send = _; rw [write, if_neg (not_le.2 hpos), hintr], rfl⟩
  · intro n hn _
    change write texts amt send = _
    rw [write, if_neg (not_le.2 hpos), hn]

theorem read_answers : Answers (readTransfer texts) := by
  intro amt recv hpos
  constructor
  · intro hintr
    exact ⟨_, by change read texts amt recv = _; rw [read, if_neg (not_le.2 hpos), hintr], rfl⟩
  · intro bytes hbytes hsize
    change read texts amt recv = _
    rw [read, if_neg (not_le.2 hpos), hbytes]
    cases bytes with
    | nil => cases hsize
    | cons b bytes => rfl

/-- what is on the wire after `tot` bytes -/
def Sent (buf : Buffer) (tot : ℕ) (wire : List UInt8) : Prop := wire = buf.bytes.take tot

/-- the memory after `tot` bytes: the bytes received, and the rest as it was -/
def Filled (buf : Buffer) (tot : ℕ) (d : Received) : Prop :=
  d.stream.length = tot ∧ d.memory = d.stream ++ buf.bytes.drop tot

theorem write_transfers (buf : Buffer) (rounds : List (Round ℕ)) (hsend : SendDocumented rounds) {v : Vars (List UInt8)}
    (h : blockingWrite texts deadline buf rounds = some (s, v)) :
    v.out ≤ buf.bytes.length ∧ Sent buf v.out v.data ∧ (s = .ok ↔ v.out = buf.bytes.length) := by
  have hkeeps : ∀ r ∈ rounds, Keeps (writeTransfer texts buf) (Sent buf) buf.bytes.length r := by
    intro r hr tot wire n hlt hwire hio
    refine ⟨hsend r hr _ _ (write_ok hio), ?_⟩
    calc wire ++ (buf.bytes.drop tot).take n = buf.bytes.take tot ++ (buf.bytes.drop tot).take n := by rw [hwire]
      _ = buf.bytes.take (tot + n) := take_append_take_drop _ _ _
  have hstart : Aligned (Sent buf) buf.bytes.length ⟨0, 0, 0, []⟩ := ⟨rfl, rfl, Nat.zero_le _, rfl⟩
  obtain ⟨haligned, hok⟩ := loop_spec hkeeps hstart h
  rw [haligned.out]
  exact ⟨haligned.tot_le, haligned.data, hok⟩

theorem read_transfers (buf : Buffer) (rounds : List (Round (List UInt8))) (hrecv : RecvDocumented rounds) {v : Vars Received}
    (h : blockingRead texts deadline buf rounds = some (s, v)) :
    v.out ≤ buf.bytes.length ∧ Filled buf v.out v.data ∧ (s = .ok ↔ v.out = buf.bytes.length) := by
  have hkeeps : ∀ r ∈ rounds, Keeps (readTransfer texts) (Filled buf) buf.bytes.length r := by
    rintro r hr tot ⟨memory, stream⟩ bytes hlt ⟨hstream, hmemory⟩ hio
    dsimp only at hstream hmemory
    refine ⟨hrecv r hr _ _ (read_ok hio), ?_, ?_⟩
    · exact (List.length_append ..).trans (by rw [hstream]; rfl)
    · change splice memory tot bytes = stream ++ bytes ++ buf.bytes.drop (tot + bytes.length)
      rw [hmemory, splice_append hstream, List.drop_drop]
  have hstart : Aligned (Filled buf) buf.bytes.length ⟨0, 0, 0, ⟨buf.bytes, []⟩⟩ := ⟨rfl, rfl, Nat.zero_le _, rfl, rfl⟩
  obtain ⟨haligned, hok⟩ := loop_spec hkeeps hstart h
  rw [haligned.out]
  exact ⟨haligned.tot_le, haligned.data, hok⟩

/-- **Each byte is transferred once and in order**: on OK all of them; otherwise a strict prefix of the buffer, as long as the
output count says, is sent or filled, and nothing after it. When enough rounds are not interrupted each call ends, and with
OK when every round serves it. -/
theorem blocking_exact (texts : Texts) (deadline : ℤ) (buf : Buffer) :
    (∀ rounds s v, SendDocumented rounds → blockingWrite texts deadline buf rounds = some (s, v) →
      Sent buf v.out v.data ∧ (s = .ok → v.out = buf.bytes.length) ∧ (s ≠ .ok → v.out < buf.bytes.length)) ∧
    (∀ rounds s v, RecvDocumented rounds → blockingRead texts deadline buf rounds = some (s, v) →
      Filled buf v.out v.data ∧ (s = .ok → v.out = buf.bytes.length) ∧ (s ≠ .ok → v.out < buf.bytes.length)) ∧
    (∀ rounds, Enough buf.bytes.length rounds → ∃ s v, blockingWrite texts deadline buf rounds = some (s, v) ∧
      ((∀ r ∈ rounds, Serves id deadline r) → s = .ok)) ∧
    ∀ rounds, Enough buf.bytes.length rounds → ∃ s v, blockingRead texts deadline buf rounds = some (s, v) ∧
      ((∀ r ∈ rounds, Serves List.length deadline r) → s = .ok) := by
  refine ⟨?_, ?_, ?_, ?_⟩
  · intro rounds s v hsend h
    obtain ⟨hle, hwire, hok⟩ := write_transfers buf rounds hsend h
    exact ⟨hwire, hok.1, fun hne => lt_of_le_of_ne hle fun heq => hne (hok.2 heq)⟩
  · intro rounds s v hrecv h
    obtain ⟨hle, hfilled, hok⟩ := read_transfers buf rounds hrecv h
    exact ⟨hfilled, hok.1, fun hne => lt_of_le_of_ne hle fun heq => hne (hok.2 heq)⟩
  · intro rounds henough
    obtain ⟨s, v, h⟩ : ∃ s v, blockingWrite texts deadline buf rounds = some (s, v) :=
      loop_returns (write_interrupts buf) (henough.trans (Nat.le_add_left _ _))
    exact ⟨s, v, h, fun hserves => loop_ok (write_answers buf) hserves h⟩
  · intro rounds henough
    obtain ⟨s, v, h⟩ : ∃ s v, blockingRead texts deadline buf rounds = some (s, v) :=
      loop_returns read_interrupts (henough.trans (Nat.le_add_left _ _))
    exact ⟨s, v, h, fun hserves => loop_ok read_answers hserves h⟩

def noTexts : Texts := ⟨fun _ => "", fun _ => ""⟩

/-- a short count, an interruption, and a deadline of 10 that passes -/
def shortWrite : List (Round ℕ) :=
  [⟨1, .ok (), fun amt => .ok (min amt 2)⟩, ⟨2, .ok (), fun _ => .error EINTR⟩, ⟨10, .ok (), fun amt => .ok amt⟩]

/-- two bytes at most in each round -/
def steadyWrite : List (Round ℕ) := List.replicate 3 ⟨1, .ok (), fun amt => .ok (min amt 2)⟩

/-- two pieces -/
def pieces : List (Round (List UInt8)) :=
  [⟨1, .ok (), fun amt => .ok ([7, 8].take amt)⟩, ⟨2, .ok (), fun amt => .ok ([9].take amt)⟩]

theorem steadyWrite_enough : Enough 3 steadyWrite := by
  refine enough_of_all (fun r hr amt h => ?_) (by decide)
  rw [List.eq_of_mem_replicate hr] at h
  cases h

theorem steadyWrite_serves : ∀ r ∈ steadyWrite, Serves id 10 r := by
  intro r hr
  rw [List.eq_of_mem_replicate hr]
  exact ⟨by decide, rfl, fun amt hpos => Or.inr ⟨min amt 2, rfl, lt_min hpos (by decide)⟩⟩

/-- a write that times out, one that is OK after two rounds, and a read in two pieces -/
theorem blocking_exact_short :
    (∃ s v, blockingWrite noTexts 10 ⟨[1, 2, 3], by decide⟩ shortWrite = some (s, v) ∧
        Sent ⟨[1, 2, 3], by decide⟩ v.out v.data ∧ v.out < 3) ∧
      (∃ v, blockingWrite noTexts 10 ⟨[1, 2, 3], by decide⟩ steadyWrite = some (.ok, v) ∧
        Sent ⟨[1, 2, 3], by decide⟩ v.out v.data ∧ v.out = 3) ∧
      ∃ s v, blockingRead noTexts 10 ⟨[1, 2, 3], by decide⟩ pieces = some (s, v) ∧
        Filled ⟨[1, 2, 3], by decide⟩ v.out v.data ∧ v.out = 3 := by
  let buf : Buffer := ⟨[1, 2, 3], by decide⟩
  obtain ⟨hwrite, hread, hreturns, -⟩ := blocking_exact noTexts 10 buf
  have hshort : SendDocumented shortWrite := by
    intro r hr amt n h
    fin_cases hr <;> simp at h
    · omega
    · omega
  have hsteady : SendDocumented steadyWrite := by
    intro r hr amt n h
    rw [List.eq_of_mem_replicate hr] at h
    cases h
    exact min_le_left amt 2
  have hrecv : RecvDocumented pieces := by
    intro r hr amt bytes h
    fin_cases hr <;> simp at h <;> rw [← h, List.length_take] <;> exact min_le_left _ _
  have hwritten : blockingWrite noTexts 10 buf shortWrite =
      some (.bad (.timedOut "BlockingWrite timed out"), ⟨2, 2, 2, [1, 2]⟩) := rfl
  have hfilled : blockingRead noTexts 10 buf pieces = some (.ok, ⟨3, 3, 3, ⟨[7, 8, 9], [7, 8, 9]⟩⟩) := rfl
  obtain ⟨hsent, -, hless⟩ := hwrite _ _ _ hshort hwritten
  obtain ⟨s, v, hcall, hok⟩ := hreturns steadyWrite steadyWrite_enough
  rw [hok steadyWrite_serves] at hcall
  obtain ⟨hall, hwhole, -⟩ := hwrite _ _ _ hsteady hcall
  obtain ⟨hread, htotal, -⟩ := hread _ _ _ hrecv hfilled
  exact ⟨⟨_, _, hwritten, hsent, hless Status.noConfusion⟩, ⟨v, hcall, hall, hwhole rfl⟩, _, _, hfilled, hread, htotal rfl⟩

end Bboy.Socket
