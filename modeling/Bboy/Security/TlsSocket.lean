/-
Lean model of `TlsSocket::Write` and `TlsSocket::Writev` (`bboy/security/tls_socket.cc`): a vector of frames over SSL_write.

`SSL_write` is not part of the repository: its answers are arbitrary, but for what its documentation says of a positive one.
The widths are those of the code: `frame_size` and `total_written` are `int32_t`, the rest is `size_t`. The attempts are
recorded beside the variables of the loop.

- `Contract`: what the bytes accepted by the TLS layer have to do with the frames, the count and the status.
- `Harmless`: how a frame may fail to be written in full without harm.
- `writev_exact`: the contract holds exactly when the first frame that is not written in full, if there is one, is harmless,
  and an `int32_t` holds the number of bytes accepted.
- `writev_skips`: a failed write in the middle is counted as written, and the frames after it are still sent.
Witness: `writev_exact_blocked`.
-/
import Bboy.Base.Status
import Bboy.Core.MachineInt

namespace Bboy.TlsSocket

open Core

/-! ## Write and Writev -/

/-- how an SSL_write ends: with a number of bytes, with SSL_ERROR_WANT_WRITE, or with another error -/
inductive Outcome where
  | wrote (bytes : ℕ)
  | wantWrite
  | failed (description : String)
  deriving DecidableEq, Repr

/-- the answers of SSL_write: in round `i` of the loop, for a buffer of that many bytes -/
abbrev SslWrite := ℕ → ℤ → Outcome

/-- a positive result is at most the size of the buffer -/
def SslWrite.Documented (sslWrite : SslWrite) : Prop := ∀ i num n, sslWrite i num = .wrote n → 0 < n ∧ (n : ℤ) ≤ num

/-- a call of `Write`: the frame, the bytes of it that SSL_write took, and whether it failed -/
structure Attempt where
  frame : List UInt8
  accepted : ℕ
  failed : Bool
  deriving DecidableEq, Repr

structure Written where
  status : Status
  nwritten : ℕ
  accepted : ℕ
  deriving DecidableEq, Repr

/-- `Write`, with `*nwritten` as it finds it -/
def write (sslWrite : ℤ → Outcome) (amt nwritten : ℕ) : Written :=
  if amt = 0 then ⟨.ok, 0, 0⟩
  else
    match sslWrite (int32 amt) with
    | .wrote n => ⟨.ok, n, n⟩
    | .wantWrite => ⟨.ok, 0, 0⟩
    | .failed description => ⟨.bad (.networkError "failed to write to TLS socket" description (-1)), nwritten, 0⟩

/-- the variables of `Writev`, and the attempts so far -/
structure Vars where
  writeStatus : Status
  nwritten : ℕ
  totalWritten : ℤ
  attempts : List Attempt
  deriving DecidableEq, Repr

/-- one round of the loop -/
def writevRound (sslWrite : SslWrite) (i : ℕ) (frame : List UInt8) (v : Vars) : Vars :=
  let frameSize := int32 frame.length
  let r := write (sslWrite i) (toSize frameSize) v.nwritten
  { writeStatus := r.status
    nwritten := r.nwritten
    totalWritten := int32 (sizeAdd (toSize v.totalWritten) r.nwritten)
    attempts := v.attempts.concat ⟨frame, r.accepted, r.status ≠ .ok⟩ }

def writevLoop (sslWrite : SslWrite) : ℕ → List (List UInt8) → Vars → Vars
  | _, [], v => v
  | i, frame :: iov, v =>
    let v := writevRound sslWrite i frame v
    if v.nwritten < toSize (int32 frame.length) then v else writevLoop sslWrite (i + 1) iov v

/-- `Writev`: the status, `*nwritten` afterwards, and the attempts; the first two arguments are the results of SetTcpCork -/
def writev (cork uncork : Status) (sslWrite : SslWrite) (iov : List (List UInt8)) (nwritten : ℕ) :
    Status × ℕ × List Attempt :=
  if cork = .ok then
    let v := writevLoop sslWrite 0 iov ⟨.ok, nwritten, 0, []⟩
    if uncork = .ok then (v.writeStatus, toSize v.totalWritten, v.attempts) else (uncork, v.nwritten, v.attempts)
  else (cork, nwritten, [])

/-! ## The contract -/

/-- the bytes that the TLS layer took -/
def accepted (attempts : List Attempt) : List UInt8 := attempts.flatMap fun a => a.frame.take a.accepted

def Attempt.Full (a : Attempt) : Prop := a.accepted = a.frame.length

/-- `*nwritten` counts the bytes accepted, these are a prefix of the frames, each frame but the last one attempted was
written in full, and a failure is reported -/
structure Contract (iov : List (List UInt8)) (r : Status × ℕ × List Attempt) : Prop where
  count : r.2.1 = (accepted r.2.2).length
  exact : accepted r.2.2 = iov.flatten.take r.2.1
  inOrder : r.2.2.map Attempt.frame <+: iov
  full : ∀ a ∈ r.2.2.dropLast, a.Full
  reported : (∃ a ∈ r.2.2, a.failed = true) → r.1 ≠ .ok

/-! ## The condition -/

/-- round `i` writes the frame in full -/
def Full (sslWrite : SslWrite) (i : ℕ) (frame : List UInt8) : Prop :=
  frame = [] ∨ sslWrite i (int32 frame.length) = .wrote frame.length

instance (sslWrite : SslWrite) (i : ℕ) (frame : List UInt8) : Decidable (Full sslWrite i frame) :=
  inferInstanceAs (Decidable (_ ∨ _))

/-- a frame that is not written in full ends the loop or is the last one, and a failure finds nothing in `*nwritten`, where
`stale` is left by the round before -/
def Harmless (outcome : Outcome) (stale : ℕ) (frame : List UInt8) (last : Prop) : Prop :=
  let size := toSize (int32 frame.length)
  if size = 0 then last
  else
    match outcome with
    | .wrote n => n < size ∨ last
    | .wantWrite => True
    | .failed _ => (stale < size ∨ last) ∧ stale % 2 ^ 32 = 0

/-- of the first frame that is not written in full; before it each round leaves the size of its frame -/
def StopsHarmless (sslWrite : SslWrite) : ℕ → ℕ → List (List UInt8) → Prop
  | _, _, [] => True
  | i, stale, frame :: iov =>
    if Full sslWrite i frame then StopsHarmless sslWrite (i + 1) frame.length iov
    else Harmless (sslWrite i (int32 frame.length)) stale frame (iov = [])

instance decidableHarmless (stale : ℕ) (frame : List UInt8) (last : Prop) [Decidable last] :
    ∀ outcome, Decidable (Harmless outcome stale frame last)
  | .wrote n => inferInstanceAs (Decidable (if toSize (int32 frame.length) = 0 then last
      else n < toSize (int32 frame.length) ∨ last))
  | .wantWrite => inferInstanceAs (Decidable (if toSize (int32 frame.length) = 0 then last else True))
  | .failed _ => inferInstanceAs (Decidable (if toSize (int32 frame.length) = 0 then last
      else (stale < toSize (int32 frame.length) ∨ last) ∧ stale % 2 ^ 32 = 0))

instance decidableStops (sslWrite : SslWrite) : ∀ i stale iov, Decidable (StopsHarmless sslWrite i stale iov)
  | _, _, [] => isTrue trivial
  | i, stale, frame :: iov =>
    have := decidableStops sslWrite (i + 1) frame.length iov
    inferInstanceAs (Decidable (if Full sslWrite i frame then StopsHarmless sslWrite (i + 1) frame.length iov
      else Harmless (sslWrite i (int32 frame.length)) stale frame (iov = [])))

def Outcome.bytes : Outcome → ℕ
  | .wrote n => n
  | _ => 0

/-- what is accepted of a frame that is not written in full -/
def acceptedBytes (outcome : Outcome) (frame : List UInt8) : ℕ :=
  if toSize (int32 frame.length) = 0 then 0 else outcome.bytes

/-- the number of bytes accepted up to the end of the first frame that is not written in full -/
def bytesTaken (sslWrite : SslWrite) : ℕ → List (List UInt8) → ℕ
  | _, [] => 0
  | i, frame :: iov =>
    if Full sslWrite i frame then frame.length + bytesTaken sslWrite (i + 1) iov
    else acceptedBytes (sslWrite i (int32 frame.length)) frame

/-! ## A round -/

variable {sslWrite : SslWrite} {i k : ℕ} {frame : List UInt8} {iov : List (List UInt8)} {v : Vars}

def taken (attempts : List Attempt) : ℕ := (attempts.map Attempt.accepted).sum

/-- the variables while every frame was written in full -/
structure Clear (v : Vars) : Prop where
  total : v.totalWritten = int32 (taken v.attempts)
  full : ∀ a ∈ v.attempts, a.Full ∧ a.failed = false

/-- the contract on the variables -/
structure Kept (v : Vars) : Prop where
  count : toSize v.totalWritten = taken v.attempts
  full : ∀ a ∈ v.attempts.dropLast, a.Full
  reported : (∃ a ∈ v.attempts, a.failed = true) → v.writeStatus ≠ .ok

theorem taken_concat (attempts : List Attempt) (a : Attempt) : taken (attempts.concat a) = taken attempts + a.accepted := by
  simp [taken]

/-- a frame that is written in full fits `frame_size` -/
theorem full_size (hssl : sslWrite.Documented) (h : Full sslWrite i frame) : toSize (int32 frame.length) = frame.length := by
  obtain rfl | hwrote := h
  · exact toSize_int32_zero
  · have hle := (hssl i _ _ hwrote).2
    unfold toSize
    unfold int32 at hle ⊢
    omega

theorem write_full (hssl : sslWrite.Documented) (h : Full sslWrite i frame) (nwritten : ℕ) :
    write (sslWrite i) (toSize (int32 frame.length)) nwritten = ⟨.ok, frame.length, frame.length⟩ := by
  have hsize := full_size hssl h
  obtain rfl | hwrote := h
  · rw [hsize]
    rfl
  · have hpos := (hssl i _ _ hwrote).1
    rw [write, int32_toSize, hwrote, if_neg (by omega)]

theorem round_full (hssl : sslWrite.Documented) (h : Full sslWrite i frame) (hv : Clear v) :
    Clear (writevRound sslWrite i frame v) ∧ (writevRound sslWrite i frame v).nwritten = frame.length ∧
      taken (writevRound sslWrite i frame v).attempts = taken v.attempts + frame.length := by
  have hround : writevRound sslWrite i frame v =
      ⟨.ok, frame.length, int32 (sizeAdd (toSize v.totalWritten) frame.length),
        v.attempts.concat ⟨frame, frame.length, false⟩⟩ := by
    simp only [writevRound, write_full hssl h]
    rfl
  rw [hround]
  refine ⟨⟨?_, ?_⟩, rfl, taken_concat _ _⟩
  · dsimp only
    rw [hv.total, int32_sizeAdd, taken_concat]
    push_cast
    rfl
  · intro a ha
    dsimp only at ha
    rw [List.concat_eq_append] at ha
    obtain hold | hnew := List.mem_append.1 ha
    · exact hv.full a hold
    · obtain rfl := List.mem_singleton.1 hnew
      exact ⟨rfl, rfl⟩

/-! ## A round that does not write its frame in full -/

/-- SSL_write is called and fails -/
def Fails (outcome : Outcome) (frame : List UInt8) : Prop :=
  toSize (int32 frame.length) ≠ 0 ∧ ∃ description, outcome = .failed description

/-- what it leaves in `*nwritten` -/
def reportedBytes (outcome : Outcome) (stale : ℕ) (frame : List UInt8) : ℕ :=
  if toSize (int32 frame.length) = 0 then 0
  else
    match outcome with
    | .failed _ => stale
    | outcome => outcome.bytes

theorem harmless_iff {outcome : Outcome} {stale : ℕ} {last : Prop} : Harmless outcome stale frame last ↔
    (reportedBytes outcome stale frame < toSize (int32 frame.length) ∨ last) ∧
      (Fails outcome frame → stale % 2 ^ 32 = 0) := by
  unfold Harmless reportedBytes Fails
  by_cases hsize : toSize (int32 frame.length) = 0
  · simp [hsize]
  · cases outcome with
    | wrote n => simp [hsize, Outcome.bytes]
    | wantWrite => simp [hsize, Outcome.bytes, Nat.pos_of_ne_zero hsize]
    | failed description => simp [hsize]

/-- a round from the result of its `Write` -/
theorem round_eq {w : Written} (hw : write (sslWrite i) (toSize (int32 frame.length)) v.nwritten = w) :
    writevRound sslWrite i frame v = ⟨w.status, w.nwritten, int32 (sizeAdd (toSize v.totalWritten) w.nwritten),
      v.attempts.concat ⟨frame, w.accepted, w.status ≠ .ok⟩⟩ := by
  subst hw
  rfl

theorem round_nwritten {w : Written} (hw : write (sslWrite i) (toSize (int32 frame.length)) v.nwritten = w) :
    (writevRound sslWrite i frame v).nwritten = w.nwritten := by rw [round_eq hw]

theorem write_short (frame : List UInt8) (outcome : ℤ → Outcome) (stale : ℕ) :
    (write outcome (toSize (int32 frame.length)) stale).nwritten = reportedBytes (outcome (int32 frame.length)) stale frame ∧
      (write outcome (toSize (int32 frame.length)) stale).accepted = acceptedBytes (outcome (int32 frame.length)) frame ∧
      ((write outcome (toSize (int32 frame.length)) stale).status ≠ .ok ↔ Fails (outcome (int32 frame.length)) frame) := by
  unfold write reportedBytes acceptedBytes Fails
  rw [int32_toSize]
  by_cases hsize : toSize (int32 frame.length) = 0
  · simp [hsize]
  · cases outcome (int32 frame.length) <;> simp [hsize, Outcome.bytes]

/-- it takes fewer bytes than the frame has -/
theorem acceptedBytes_lt (hssl : sslWrite.Documented) (h : ¬ Full sslWrite i frame) :
    acceptedBytes (sslWrite i (int32 frame.length)) frame < frame.length := by
  obtain ⟨hne, hwrote⟩ := not_or.1 h
  have hpos : 0 < frame.length := List.length_pos_of_ne_nil hne
  unfold acceptedBytes
  split_ifs
  · exact hpos
  · cases houtcome : sslWrite i (int32 frame.length) with
    | wrote n =>
      have hle := (hssl i _ _ houtcome).2
      have hdiff : n ≠ frame.length := by
        rintro rfl
        exact hwrote houtcome
      unfold int32 at hle
      simp only [Outcome.bytes]
      omega
    | wantWrite => exact hpos
    | failed description => exact hpos

theorem reported_fails {outcome : Outcome} (stale : ℕ) (h : Fails outcome frame) :
    reportedBytes outcome stale frame = stale ∧ acceptedBytes outcome frame = 0 := by
  obtain ⟨hsize, description, rfl⟩ := h
  unfold reportedBytes acceptedBytes
  rw [if_neg hsize, if_neg hsize]
  exact ⟨rfl, rfl⟩

theorem reported_accepted {outcome : Outcome} {stale : ℕ} (h : ¬ Fails outcome frame) :
    reportedBytes outcome stale frame = acceptedBytes outcome frame := by
  unfold reportedBytes acceptedBytes
  split_ifs with hsize
  · rfl
  · cases outcome with
    | wrote n => rfl
    | wantWrite => rfl
    | failed description => exact absurd ⟨hsize, description, rfl⟩ h

/-- after another attempt only the count can be wrong -/
theorem kept_concat (hv : Clear v) (w : Written) :
    Kept ⟨w.status, w.nwritten, int32 (sizeAdd (toSize v.totalWritten) w.nwritten),
        v.attempts.concat ⟨frame, w.accepted, w.status ≠ .ok⟩⟩ ↔
      toSize (int32 (taken v.attempts + w.nwritten)) = taken v.attempts + w.accepted := by
  have htotal : toSize (int32 (sizeAdd (toSize v.totalWritten) w.nwritten)) =
      toSize (int32 (taken v.attempts + w.nwritten)) := by
    rw [hv.total, int32_sizeAdd]
  rw [← htotal]
  constructor
  · intro h
    have hcount := h.count
    rw [taken_concat] at hcount
    exact hcount
  · intro h
    refine ⟨?_, fun a ha => (hv.full a ?_).1, ?_⟩
    · rw [taken_concat]
      exact h
    · simp only [List.concat_eq_append, List.dropLast_concat] at ha
      exact ha
    · rintro ⟨a, ha, hfailed⟩
      simp only [List.concat_eq_append] at ha
      obtain hold | hnew := List.mem_append.1 ha
      · exact Bool.noConfusion (hfailed.symm.trans (hv.full a hold).2)
      · obtain rfl := List.mem_singleton.1 hnew
        exact of_decide_eq_true hfailed

theorem kept_short (hv : Clear v) : Kept (writevRound sslWrite i frame v) ↔
    (Fails (sslWrite i (int32 frame.length)) frame → v.nwritten % 2 ^ 32 = 0) ∧
      FitsInt32 (taken v.attempts + acceptedBytes (sslWrite i (int32 frame.length)) frame) := by
  obtain ⟨hnwritten, haccepted, -⟩ := write_short frame (sslWrite i) v.nwritten
  rw [round_eq rfl, kept_concat hv, hnwritten, haccepted]
  by_cases hfails : Fails (sslWrite i (int32 frame.length)) frame
  · obtain ⟨hreported, haccepted⟩ := reported_fails v.nwritten hfails
    rw [hreported, haccepted, add_zero, fitsInt32_add]
    exact and_congr_left' ⟨fun h _ => h, fun h => h hfails⟩
  · rw [reported_accepted hfails, ← Nat.cast_add]
    exact ⟨fun h => ⟨fun hf => absurd hf hfails, h⟩, fun h => h.2⟩

/-! ## The loop -/

theorem concat_attempt {w : Written} {attempts : List Attempt} (hle : w.accepted ≤ frame.length) :
    ∃ a, attempts.concat ⟨frame, w.accepted, w.status ≠ .ok⟩ = attempts ++ [a] ∧ a.frame = frame ∧
      a.accepted ≤ a.frame.length :=
  ⟨⟨frame, w.accepted, w.status ≠ .ok⟩, List.concat_eq_append, rfl, hle⟩

/-- the attempt of a round -/
theorem round_attempt (hssl : sslWrite.Documented) (i : ℕ) (frame : List UInt8) (v : Vars) :
    ∃ a, (writevRound sslWrite i frame v).attempts = v.attempts ++ [a] ∧ a.frame = frame ∧ a.accepted ≤ a.frame.length := by
  have hle : (write (sslWrite i) (toSize (int32 frame.length)) v.nwritten).accepted ≤ frame.length := by
    by_cases hfull : Full sslWrite i frame
    · rw [write_full hssl hfull]
    · obtain ⟨-, haccepted, -⟩ := write_short frame (sslWrite i) v.nwritten
      exact haccepted.trans_le (acceptedBytes_lt hssl hfull).le
  rw [round_eq rfl]
  exact concat_attempt hle

/-- the loop attempts frames in their order, and at least one if there is one -/
theorem loop_attempts (hssl : sslWrite.Documented) (i : ℕ) (iov : List (List UInt8)) (v : Vars) :
    ∃ more, (writevLoop sslWrite i iov v).attempts = v.attempts ++ more ∧ more.map Attempt.frame <+: iov ∧
      (iov ≠ [] → more ≠ []) ∧ ∀ a ∈ more, a.accepted ≤ a.frame.length := by
  induction iov generalizing i v with
  | nil =>
    refine ⟨[], (List.append_nil _).symm, List.nil_prefix, fun hne => absurd rfl hne, fun a ha => ?_⟩
    exact absurd ha List.not_mem_nil
  | cons frame iov ih =>
    obtain ⟨a, hattempts, hframe, hle⟩ := round_attempt hssl i frame v
    simp only [writevLoop]
    split_ifs
    · refine ⟨[a], hattempts, ?_, fun _ => List.cons_ne_nil _ _, fun b hb => ?_⟩
      · rw [List.map_singleton, hframe]
        exact List.cons_prefix_cons.2 ⟨rfl, List.nil_prefix⟩
      · obtain rfl := List.mem_singleton.1 hb
        exact hle
    · obtain ⟨more, hmore, hprefix, -, hall⟩ := ih (i + 1) (writevRound sslWrite i frame v)
      refine ⟨a :: more, ?_, ?_, fun _ => List.cons_ne_nil _ _, fun b hb => ?_⟩
      · rw [hmore, hattempts, List.append_assoc, List.singleton_append]
      · rw [List.map_cons, hframe]
        exact List.cons_prefix_cons.2 ⟨rfl, hprefix⟩
      · obtain rfl | hb := List.mem_cons.1 hb
        · exact hle
        · exact hall b hb

theorem exists_short {w : Written} {n : ℕ} {attempts : List Attempt} (haccepted : w.accepted = n) (hlt : n < frame.length) :
    ∃ a ∈ attempts.concat ⟨frame, w.accepted, w.status ≠ .ok⟩, ¬ a.Full := by
  refine ⟨⟨frame, w.accepted, w.status ≠ .ok⟩, ?_, fun hfull => hlt.ne (haccepted.symm.trans hfull)⟩
  rw [List.concat_eq_append]
  exact List.mem_append_right _ (List.mem_singleton_self _)

theorem short_attempt (hssl : sslWrite.Documented) (hnot : ¬ Full sslWrite i frame) :
    ∃ a ∈ (writevRound sslWrite i frame v).attempts, ¬ a.Full := by
  obtain ⟨-, haccepted, -⟩ := write_short frame (sslWrite i) v.nwritten
  rw [round_eq rfl]
  exact exists_short haccepted (acceptedBytes_lt hssl hnot)

/-- a frame is attempted after one that was not written in full -/
theorem not_kept_later (hssl : sslWrite.Documented) (hnot : ¬ Full sslWrite i frame) (hiov : iov ≠ []) (j : ℕ) :
    ¬ Kept (writevLoop sslWrite j iov (writevRound sslWrite i frame v)) := by
  intro h
  obtain ⟨more, hmore, -, hne, -⟩ := loop_attempts hssl j iov (writevRound sslWrite i frame v)
  obtain ⟨a, ha, hshort⟩ := short_attempt (v := v) hssl hnot
  have hfull := h.full
  rw [hmore, List.dropLast_append_of_ne_nil (hne hiov)] at hfull
  exact hshort (hfull a (List.mem_append_left _ ha))

theorem kept_loop (hssl : sslWrite.Documented) (hv : Clear v) : Kept (writevLoop sslWrite i iov v) ↔
    StopsHarmless sslWrite i v.nwritten iov ∧ FitsInt32 (taken v.attempts + bytesTaken sslWrite i iov) := by
  induction iov generalizing i v with
  | nil =>
    simp only [writevLoop, StopsHarmless, bytesTaken, true_and, add_zero]
    constructor
    · intro h
      rw [FitsInt32, ← hv.total]
      exact h.count
    · intro h
      refine ⟨?_, fun a ha => (hv.full a (List.dropLast_subset _ ha)).1, ?_⟩
      · rw [hv.total]
        exact h
      · rintro ⟨a, ha, hfailed⟩
        exact Bool.noConfusion (hfailed.symm.trans (hv.full a ha).2)
  | cons frame iov ih =>
    simp only [writevLoop, StopsHarmless, bytesTaken]
    by_cases hfull : Full sslWrite i frame
    · obtain ⟨hclear, hnwritten, htaken⟩ := round_full hssl hfull hv
      rw [hnwritten, full_size hssl hfull, if_neg (lt_irrefl _), if_pos hfull, if_pos hfull, ih hclear, hnwritten, htaken,
        add_assoc]
    · obtain ⟨hnwritten, -, -⟩ := write_short frame (sslWrite i) v.nwritten
      have hround : (writevRound sslWrite i frame v).nwritten =
          reportedBytes (sslWrite i (int32 frame.length)) v.nwritten frame := (round_nwritten rfl).trans hnwritten
      rw [if_neg hfull, if_neg hfull, harmless_iff, hround, and_assoc, ← kept_short hv]
      by_cases hstop : reportedBytes (sslWrite i (int32 frame.length)) v.nwritten frame < toSize (int32 frame.length)
      · rw [if_pos hstop]
        exact ⟨fun h => ⟨Or.inl hstop, h⟩, fun h => h.2⟩
      · rw [if_neg hstop]
        by_cases hiov : iov = []
        · subst hiov
          exact ⟨fun h => ⟨Or.inr rfl, h⟩, fun h => h.2⟩
        · exact iff_of_false (not_kept_later hssl hfull hiov _) fun h => (h.1.resolve_left hstop) |> hiov

/-! ## Main result -/

/-- attempts of which all but the last were in full took a prefix of the frames -/
theorem prefix_accepted {attempts : List Attempt} (hframes : attempts.map Attempt.frame <+: iov)
    (hfull : ∀ a ∈ attempts.dropLast, a.Full) : accepted attempts <+: iov.flatten := by
  induction attempts generalizing iov with
  | nil => exact List.nil_prefix
  | cons a attempts ih =>
    obtain ⟨rest, rfl⟩ := hframes
    cases attempts with
    | nil =>
      simp only [accepted, List.flatMap_cons, List.flatMap_nil, List.append_nil, List.map_cons, List.cons_append,
        List.flatten_cons]
      exact (List.take_prefix _ _).trans (List.prefix_append _ _)
    | cons b attempts =>
      have ha : a.Full := hfull a List.mem_cons_self
      have hrest : accepted (b :: attempts) <+: ((b :: attempts).map Attempt.frame ++ rest).flatten :=
        ih (List.prefix_append _ _) fun x hx => hfull x (List.mem_cons_of_mem a hx)
      simp only [accepted, List.flatMap_cons, List.map_cons, List.cons_append, List.flatten_cons] at hrest ⊢
      rw [ha, List.take_length]
      exact (List.prefix_append_right_inj _).2 hrest

theorem accepted_length {attempts : List Attempt} (hle : ∀ a ∈ attempts, a.accepted ≤ a.frame.length) :
    (accepted attempts).length = taken attempts := by
  induction attempts with
  | nil => rfl
  | cons a attempts ih =>
    obtain ⟨ha, hrest⟩ := List.forall_mem_cons.1 hle
    have hlength := ih hrest
    simp only [accepted, taken, List.flatMap_cons, List.map_cons, List.sum_cons, List.length_append] at hlength ⊢
    rw [List.length_take, min_eq_left ha, hlength]

/-- the contract is one on the variables of the loop -/
theorem contract_iff (hframes : v.attempts.map Attempt.frame <+: iov) (hle : ∀ a ∈ v.attempts, a.accepted ≤ a.frame.length) :
    Contract iov (v.writeStatus, toSize v.totalWritten, v.attempts) ↔ Kept v := by
  constructor
  · intro h
    exact ⟨h.count.trans (accepted_length hle), h.full, h.reported⟩
  · intro h
    have hcount : toSize v.totalWritten = (accepted v.attempts).length := h.count.trans (accepted_length hle).symm
    refine ⟨hcount, ?_, hframes, h.full, h.reported⟩
    dsimp only
    rw [hcount]
    exact List.prefix_iff_eq_take.1 (prefix_accepted hframes h.full)

/-- **The contract holds exactly when** the first frame that is not written in full is harmless and an `int32_t` holds the
number of bytes accepted. -/
theorem writev_exact (sslWrite : SslWrite) (hssl : sslWrite.Documented) (iov : List (List UInt8)) (nwritten : ℕ) :
    Contract iov (writev .ok .ok sslWrite iov nwritten) ↔
      StopsHarmless sslWrite 0 nwritten iov ∧ FitsInt32 (bytesTaken sslWrite 0 iov) := by
  obtain ⟨more, hmore, hframes, -, hle⟩ := loop_attempts hssl 0 iov ⟨.ok, nwritten, 0, []⟩
  rw [List.nil_append] at hmore
  have hzero : int32 0 = 0 := int32_of_range (by norm_num) (by norm_num)
  have hclear : Clear ⟨.ok, nwritten, 0, []⟩ := ⟨hzero.symm, fun a ha => absurd ha List.not_mem_nil⟩
  have hkept : Kept (writevLoop sslWrite 0 iov ⟨.ok, nwritten, 0, []⟩) ↔ _ := kept_loop hssl hclear
  rw [show taken [] = 0 from rfl, zero_add] at hkept
  rw [← hkept, ← contract_iff (hmore ▸ hframes) (hmore ▸ hle)]
  rfl

/-- the second of three frames fails -/
def failsInTheMiddle : SslWrite := fun i _ => if i = 1 then .failed "" else .wrote 1

/-- **A write that fails is counted and the next frame is sent**: OK with three bytes, of which the TLS layer took two. -/
theorem writev_skips :
    writev .ok .ok failsInTheMiddle [[1], [2], [3]] 0 =
        (.ok, 3, [⟨[1], 1, false⟩, ⟨[2], 0, true⟩, ⟨[3], 1, false⟩]) ∧
      ¬ Contract [[1], [2], [3]] (writev .ok .ok failsInTheMiddle [[1], [2], [3]] 0) := by
  have hrun : writev .ok .ok failsInTheMiddle [[1], [2], [3]] 0 =
      (.ok, 3, [⟨[1], 1, false⟩, ⟨[2], 0, true⟩, ⟨[3], 1, false⟩]) := by decide +kernel
  refine ⟨hrun, fun h => ?_⟩
  rw [hrun] at h
  exact h.reported ⟨⟨[2], 0, true⟩, by simp, rfl⟩ rfl

/-- SSL_write takes what it is given, up to its third call, which has to wait -/
def blocksAtTheEnd : SslWrite := fun i num => if i < 2 ∧ 0 < num then .wrote num.toNat else .wantWrite

theorem writev_exact_blocked :
    Contract [[1, 2], [], [3], [4]] (writev .ok .ok blocksAtTheEnd [[1, 2], [], [3], [4]] 7) ∧
      (writev .ok .ok blocksAtTheEnd [[1, 2], [], [3], [4]] 7).2.1 = 2 := by
  have hssl : blocksAtTheEnd.Documented := by
    intro i num n h
    unfold blocksAtTheEnd at h
    split_ifs at h with hnum
    cases h
    omega
  have hstops : StopsHarmless blocksAtTheEnd 0 7 [[1, 2], [], [3], [4]] := by decide +kernel
  have hfits : FitsInt32 (bytesTaken blocksAtTheEnd 0 [[1, 2], [], [3], [4]]) := by decide +kernel
  exact ⟨(writev_exact blocksAtTheEnd hssl _ 7).2 ⟨hstops, hfits⟩, by decide +kernel⟩

end Bboy.TlsSocket
