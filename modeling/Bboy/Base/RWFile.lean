/-
`PosixRWFile` (`env_posix.cc`): `Write`, `PreAllocate`, `Truncate`, `PunchHole` and `Sync` on one file by any number of
threads, with every outcome of the system calls.

Model: `pending_sync_` and the calls that run, each with the next thing it does. One step is one system call or one
access of the flag; starting and returning are steps of their own. As ghosts, the changes of the file in their order, the
ones whose calls have returned OK, and up to which change a successful fsync covers the file.

- A change is named by its position in `changes`. An fsync covers the changes made before it started.
- `SyncsDurable`: at each OK of `Sync`, the changes whose calls had returned OK before it began are covered.
- `Unflagged`: the changes that the flag does not stand for: those that no `Write` made, and those of a `Write` whose flag
  was taken by a `Sync` that failed or is still running.
- `syncs_durable`: the promise is kept in every run in which no `Sync` finds the flag cleared while such a change is
  not covered (`NothingSkipped`), and the first step that misses the condition can break it.
Witnesses: `truncation_not_synced`, `failed_sync_forgotten`, `concurrent_sync_returns_early`.
-/
import Bboy.Core.Machine
import Bboy.Core.Slots
import Bboy.Base.EnvPosix

namespace Bboy.EnvPosix.RW

open Core

/-! ## Model -/

inductive PreAllocateMode where
  | changeFileSize
  | dontChangeFileSize
deriving DecidableEq, Repr

/-- a change of the file -/
inductive Change where
  | written (offset : ℕ) (data : List UInt8)
  | allocated (offset length : ℕ) (mode : PreAllocateMode)
  | truncated (length : ℕ)
  | holePunched (offset length : ℕ)
deriving DecidableEq, Repr

/-- what a running call does next -/
inductive Call where
  /-- `Write`: `pending_sync_.Store(true)` -/
  | storing (change : ℕ)
  | returning (change : Option ℕ) (status : Status)
  /-- `Sync`: `pending_sync_.CompareAndSwap(true, false)` -/
  | swapping (required : List ℕ)
  /-- `Sync`: `DoSync`; it has taken the flag of the writes in `took` -/
  | syncing (required took : List ℕ)
  /-- in fsync -/
  | inSync (call : SyncCall) (required took : List ℕ) (covers : ℕ)
  | returningSync (required : List ℕ) (status : Status)
deriving DecidableEq, Repr

structure RWFile where
  pendingSync : Bool
  calls : List Call
  /-- ghost: the changes made, oldest first -/
  changes : List Change
  /-- ghost: the changes whose calls have returned OK -/
  returned : List ℕ
  /-- ghost: the writes that have set the flag since it was last taken -/
  stored : List ℕ
  /-- ghost: the writes whose flag was taken by a `Sync` that has ended without a successful fsync -/
  lost : List ℕ
  /-- ghost: the changes before this one are covered by a successful fsync -/
  durable : ℕ
  /-- ghost: for each OK of `Sync`, the changes returned before it began, and `durable` when it returned -/
  synced : List (List ℕ × ℕ)
deriving DecidableEq, Repr

/-- a call starts -/
def started (f : RWFile) (call : Call) : RWFile := { f with calls := f.calls ++ [call] }

/-- a call has changed the file -/
def changed (f : RWFile) (change : Change) (call : ℕ → Call) : RWFile :=
  { started f (call f.changes.length) with changes := f.changes ++ [change] }

/-- a call that ends with `return IOError(..)`; the process may be killed -/
def failed (flags : Flags) (filename : String) (err : Errno) (f : RWFile) : Option RWFile :=
  (ioError flags filename err).map fun e => started f (.returning none (.bad e))

/-- the outcome of `pwrite` is the number of bytes written -/
def write (flags : Flags) (filename : String) (f : RWFile) (offset : ℕ) (data : List UInt8) (written : Except Errno ℕ) :
    Option RWFile :=
  (retryOnEintr written).bind fun r =>
    match r with
    | .error err => failed flags filename err f
    | .ok n =>
      if data.length < n then none
      else if n = data.length then some (changed f (.written offset data) .storing)
      else some (changed f (.written offset (data.take n)) fun _ => .returning none (.bad (.ioError
        ("pwrite error: expected to write " ++ toString data.length ++ " bytes, wrote " ++ toString n ++
          " bytes instead (perhaps the disk is out of space)") "" (-1))))

def preAllocate (flags : Flags) (filename : String) (f : RWFile) (offset length : ℕ) (mode : PreAllocateMode)
    (fallocate : Except Errno Unit) : Option RWFile :=
  match fallocate with
  | .ok () => some (changed f (.allocated offset length mode) fun c => .returning (some c) .ok)
  | .error .eopnotsupp => some (started f (.returning none .ok))
  | .error .enosys => some (started f (.returning none .ok))
  | .error err => failed flags filename err f

def truncate (flags : Flags) (filename : String) (f : RWFile) (length : ℕ) (ftruncate : Except Errno Unit) :
    Option RWFile :=
  (retryOnEintr ftruncate).map fun r =>
    match r with
    | .ok () => changed f (.truncated length) fun c => .returning (some c) .ok
    | .error err => started f (.returning none (.bad (.ioError ("Unable to truncate file " ++ filename)
        ("ftruncate() failed: " ++ flags.errnoToString err) err.code)))

def punchHole (flags : Flags) (filename : String) (f : RWFile) (offset length : ℕ) (fallocate : Except Errno Unit) :
    Option RWFile :=
  match fallocate with
  | .ok () => some (changed f (.holePunched offset length) fun c => .returning (some c) .ok)
  | .error err => failed flags filename err f

/-- call `i` goes on as `call` -/
def goesOn (f : RWFile) (i : ℕ) (call : Call) : RWFile := { f with calls := f.calls.set i call }

/-- `pending_sync_.Store(true)` of `Write` -/
def store (f : RWFile) (i : ℕ) : Option RWFile :=
  match f.calls[i]? with
  | some (.storing c) =>
    some { goesOn f i (.returning (some c) .ok) with pendingSync := true, stored := c :: f.stored }
  | _ => none

/-- the first line of `Sync` -/
def compareAndSwap (f : RWFile) (i : ℕ) : Option RWFile :=
  match f.calls[i]? with
  | some (.swapping required) =>
    if f.pendingSync then some { goesOn f i (.syncing required f.stored) with pendingSync := false, stored := [] }
    else some (goesOn f i (.returningSync required .ok))
  | _ => none

/-- `DoSync`, up to its system call -/
def startSync (flags : Flags) (f : RWFile) (i : ℕ) : Option RWFile :=
  match f.calls[i]? with
  | some (.syncing required took) =>
    match syncCall flags with
    | none => some { goesOn f i (.returningSync required .ok) with lost := took ++ f.lost }
    | some call => some (goesOn f i (.inSync call required took f.changes.length))
  | _ => none

/-- the system call of `DoSync` ends -/
def endSync (flags : Flags) (filename : String) (f : RWFile) (i : ℕ) (outcome : Except Errno Unit) : Option RWFile :=
  match f.calls[i]? with
  | some (.inSync _ required took covers) =>
    match outcome with
    | .ok () => some { goesOn f i (.returningSync required .ok) with durable := max f.durable covers }
    | .error err => (ioError flags filename err).map fun e =>
        { goesOn f i (.returningSync required (.bad e)) with lost := took ++ f.lost }
  | _ => none

/-- call `i` returns -/
def ret (f : RWFile) (i : ℕ) : Option RWFile :=
  match f.calls[i]? with
  | some (.returning change status) =>
    some { f with calls := f.calls.eraseIdx i
                  returned := if status = .ok then change.toList ++ f.returned else f.returned }
  | some (.returningSync required status) =>
    some { f with calls := f.calls.eraseIdx i
                  synced := if status = .ok then (required, f.durable) :: f.synced else f.synced }
  | _ => none

inductive Op where
  | write (offset : ℕ) (data : List UInt8) (written : Except Errno ℕ)
  | preAllocate (offset length : ℕ) (mode : PreAllocateMode) (fallocate : Except Errno Unit)
  | truncate (length : ℕ) (ftruncate : Except Errno Unit)
  | punchHole (offset length : ℕ) (fallocate : Except Errno Unit)
  | sync
  | store (i : ℕ)
  | compareAndSwap (i : ℕ)
  | startSync (i : ℕ)
  | endSync (i : ℕ) (outcome : Except Errno Unit)
  | ret (i : ℕ)

def rwFile (flags : Flags) (filename : String) : Machine RWFile Op where
  init := ⟨false, [], [], [], [], [], 0, []⟩
  step f
    | .write offset data written => write flags filename f offset data written
    | .preAllocate offset length mode fallocate => preAllocate flags filename f offset length mode fallocate
    | .truncate length ftruncate => truncate flags filename f length ftruncate
    | .punchHole offset length fallocate => punchHole flags filename f offset length fallocate
    | .sync => some (started f (.swapping f.returned))
    | .store i => store f i
    | .compareAndSwap i => compareAndSwap f i
    | .startSync i => startSync flags f i
    | .endSync i outcome => endSync flags filename f i outcome
    | .ret i => ret f i

/-! ## Durability -/

/-- at each OK of `Sync`, the changes whose calls had returned OK before it began are covered by a successful fsync -/
def SyncsDurable (f : RWFile) : Prop := ∀ s ∈ f.synced, ∀ c ∈ s.1, c < s.2

/-- the writes whose flag a call has taken -/
def Call.took : Call → List ℕ
  | .syncing _ took => took
  | .inSync _ _ took _ => took
  | _ => []

def Taken (f : RWFile) (c : ℕ) : Prop := ∃ call ∈ f.calls, c ∈ call.took

def IsWrite (f : RWFile) (c : ℕ) : Prop := ∃ offset data, f.changes[c]? = some (.written offset data)

/-- no `Write` made the change, or a `Sync` that failed or is still running has taken its flag -/
def Unflagged (f : RWFile) (c : ℕ) : Prop := ¬ IsWrite f c ∨ c ∈ f.lost ∨ Taken f c

/-- a `Sync` that finds the flag cleared leaves no unflagged change behind, and with `FLAGS_never_fsync` no change was
returned before -/
def NothingSkipped (flags : Flags) (f : RWFile) : Op → Prop
  | .compareAndSwap i => f.pendingSync = false → ∀ required, f.calls[i]? = some (.swapping required) →
      ∀ c ∈ required, Unflagged f c → c < f.durable
  | .startSync i => flags.neverFsync = true → ∀ required took, f.calls[i]? = some (.syncing required took) →
      required = []
  | _ => True

/-! ## The invariant -/

/-- the flag stands for the change, or the change is unflagged, or it is covered -/
def Accounted (f : RWFile) (c : ℕ) : Prop :=
  c < f.changes.length ∧ (c ∈ f.stored ∨ Unflagged f c ∨ c < f.durable)

def CallInv (flags : Flags) (f : RWFile) : Call → Prop
  | .storing c => c < f.changes.length
  | .returning (some c) _ => Accounted f c
  | .returning none _ => True
  | .swapping required => required ⊆ f.returned
  | .syncing required took => required ⊆ f.returned ∧ ∀ c ∈ took, c < f.changes.length
  | .inSync _ required took covers =>
      flags.neverFsync = false ∧ (∀ c ∈ required, c < covers) ∧ ∀ c ∈ took, c < covers
  | .returningSync required status => status = .ok → ∀ c ∈ required, c < f.durable

structure Inv (flags : Flags) (f : RWFile) : Prop where
  cleared : f.pendingSync = false → f.stored = []
  stored : ∀ c ∈ f.stored, c < f.changes.length
  returned : ∀ c ∈ f.returned, Accounted f c
  calls : ∀ call ∈ f.calls, CallInv flags f call
  never : flags.neverFsync = true → f.durable = 0
  synced : SyncsDurable f

/-- what a step does to the file's past: nothing that was accounted for is forgotten -/
structure Grows (f g : RWFile) : Prop where
  changes : f.changes <+: g.changes
  returned : f.returned ⊆ g.returned
  durable : f.durable ≤ g.durable
  accounted : ∀ c, Accounted f c → Accounted g c

variable {flags : Flags} {filename : String} {f g : RWFile} {i : ℕ} {call old new : Call}

theorem isWrite_mono (h : f.changes <+: g.changes) {c : ℕ} (hc : c < f.changes.length) (hw : IsWrite g c) :
    IsWrite f c := by
  obtain ⟨offset, data, hw⟩ := hw
  refine ⟨offset, data, ?_⟩
  obtain ⟨more, hmore⟩ := h
  rw [← hmore, List.getElem?_append_left hc] at hw
  exact hw

theorem Grows.of (changes : f.changes <+: g.changes) (returned : f.returned ⊆ g.returned)
    (durable : f.durable ≤ g.durable) (lost : f.lost ⊆ g.lost) (stored : ∀ c ∈ f.stored, c ∈ g.stored ∨ Taken g c)
    (taken : ∀ c, Taken f c → Taken g c ∨ c ∈ g.lost ∨ c < g.durable) : Grows f g := by
  refine ⟨changes, returned, durable, fun c hc => ⟨hc.1.trans_le changes.length_le, ?_⟩⟩
  rcases hc.2 with hs | (hw | hl | ht) | hd
  · rcases stored c hs with hs | ht
    · exact Or.inl hs
    · exact Or.inr (Or.inl (Or.inr (Or.inr ht)))
  · exact Or.inr (Or.inl (Or.inl fun hg => hw (isWrite_mono changes hc.1 hg)))
  · exact Or.inr (Or.inl (Or.inr (Or.inl (lost hl))))
  · rcases taken c ht with ht | hl | hd
    · exact Or.inr (Or.inl (Or.inr (Or.inr ht)))
    · exact Or.inr (Or.inl (Or.inr (Or.inl hl)))
    · exact Or.inr (Or.inr hd)
  · exact Or.inr (Or.inr (hd.trans_le durable))

theorem CallInv.grows (h : Grows f g) (hc : CallInv flags f call) : CallInv flags g call := by
  have hlen := h.changes.length_le
  cases call with
  | storing c => exact lt_of_lt_of_le hc hlen
  | returning change status =>
    cases change with
    | none => trivial
    | some c => exact h.accounted c hc
  | swapping required => exact fun c hm => h.returned (hc hm)
  | syncing required took => exact ⟨fun c hm => h.returned (hc.1 hm), fun c hm => (hc.2 c hm).trans_le hlen⟩
  | inSync call required took covers => exact hc
  | returningSync required status => exact fun hok c hm => (hc hok c hm).trans_le h.durable

/-- a step keeps the invariant if what it adds to the lists is as the invariant wants it -/
theorem Inv.grows (h : Inv flags f) (hg : Grows f g) (cleared : g.pendingSync = false → g.stored = [])
    (stored : ∀ c ∈ g.stored, c ∈ f.stored ∨ c < g.changes.length)
    (returned : ∀ c ∈ g.returned, c ∈ f.returned ∨ Accounted g c)
    (calls : ∀ call ∈ g.calls, call ∈ f.calls ∨ CallInv flags g call)
    (never : flags.neverFsync = true → g.durable = f.durable)
    (synced : ∀ s ∈ g.synced, s ∈ f.synced ∨ ∀ c ∈ s.1, c < s.2) : Inv flags g where
  cleared := cleared
  stored c hc := (stored c hc).elim (fun hs => (h.stored c hs).trans_le hg.changes.length_le) id
  returned c hc := (returned c hc).elim (fun hr => hg.accounted c (h.returned c hr)) id
  calls call hc := (calls call hc).elim (fun hf => (h.calls call hf).grows hg) id
  never hn := (never hn).trans (h.never hn)
  synced s hs := (synced s hs).elim (h.synced s) id

/-! ## Steps -/

/-- a step in which call `i` goes on: what it took stays taken, or is lost or covered -/
theorem inv_goesOn {p : Bool} {stored lost : List ℕ} {durable : ℕ} (h : Inv flags f) (hi : f.calls[i]? = some old)
    (hg : g = ⟨p, f.calls.set i new, f.changes, f.returned, stored, lost, durable, f.synced⟩)
    (hnew : CallInv flags g new) (cleared : p = false → stored = [])
    (added : ∀ c ∈ stored, c ∈ f.stored ∨ c < f.changes.length) (kept : ∀ c ∈ f.stored, c ∈ stored ∨ c ∈ new.took)
    (took : ∀ c ∈ old.took, c ∈ new.took ∨ c ∈ lost ∨ c < durable) (hlost : f.lost ⊆ lost)
    (hdurable : f.durable ≤ durable) (never : flags.neverFsync = true → durable = f.durable) : Inv flags g := by
  subst hg
  have hmem : ∀ call, call ∈ f.calls.set i new ↔ call = new ∨ call ∈ f.calls.eraseIdx i :=
    fun call => (slot_set_perm hi new).mem_iff.trans List.mem_cons
  have hgrows : Grows f ⟨p, f.calls.set i new, f.changes, f.returned, stored, lost, durable, f.synced⟩ := by
    refine Grows.of (List.prefix_refl _) (List.Subset.refl _) hdurable hlost (fun c hs => ?_) fun c ht => ?_
    · exact (kept c hs).imp id fun ht => ⟨new, (hmem new).2 (Or.inl rfl), ht⟩
    · obtain ⟨call, hm, hc⟩ := ht
      rcases List.mem_cons.1 ((slot_perm hi).mem_iff.1 hm) with rfl | hm
      · exact (took c hc).imp (fun ht => ⟨new, (hmem new).2 (Or.inl rfl), ht⟩) id
      · exact Or.inl ⟨call, (hmem call).2 (Or.inr hm), hc⟩
  refine h.grows hgrows cleared added (fun c hr => Or.inl hr) (fun call hm => ?_) never fun s hs => Or.inl hs
  rcases (hmem call).1 hm with rfl | hm
  · exact Or.inr hnew
  · exact Or.inl (List.mem_of_mem_eraseIdx hm)

/-- nothing but the place where call `i` is changes -/
theorem inv_goesOn_same (h : Inv flags f) (hi : f.calls[i]? = some old) (hnew : CallInv flags (goesOn f i new) new)
    (took : old.took ⊆ new.took) : Inv flags (goesOn f i new) := by
  apply inv_goesOn h hi rfl hnew
  case cleared => exact h.cleared
  case added => exact fun c hm => Or.inl hm
  case kept => exact fun c hm => Or.inl hm
  case took => exact fun c hm => Or.inl (took hm)
  case hlost => exact List.Subset.refl _
  case hdurable => exact le_rfl
  case never => exact fun _ => rfl

/-- call `i` ends without a successful fsync: what it took is lost -/
theorem inv_goesOn_lost (h : Inv flags f) (hi : f.calls[i]? = some old)
    (hnew : CallInv flags { goesOn f i new with lost := old.took ++ f.lost } new) :
    Inv flags { goesOn f i new with lost := old.took ++ f.lost } := by
  apply inv_goesOn h hi rfl hnew
  case cleared => exact h.cleared
  case added => exact fun c hm => Or.inl hm
  case kept => exact fun c hm => Or.inl hm
  case took => exact fun c hm => Or.inr (Or.inl (List.mem_append_left _ hm))
  case hlost => exact List.subset_append_right _ _
  case hdurable => exact le_rfl
  case never => exact fun _ => rfl

theorem inv_started (h : Inv flags f) (hc : CallInv flags f call) : Inv flags (started f call) := by
  have hg : Grows f (started f call) :=
    Grows.of (List.prefix_refl _) (List.Subset.refl _) le_rfl (List.Subset.refl _) (fun c hs => Or.inl hs)
      fun c ⟨old, hm, ht⟩ => Or.inl ⟨old, List.mem_append_left _ hm, ht⟩
  refine h.grows hg h.cleared (fun c hs => Or.inl hs) (fun c hr => Or.inl hr) (fun call' hm => ?_) (fun _ => rfl)
    fun s hs => Or.inl hs
  rcases List.mem_append.1 hm with hm | hm
  · exact Or.inl hm
  · rw [List.mem_singleton.1 hm]
    exact Or.inr (hc.grows hg)

theorem inv_changed {change : Change} {next : ℕ → Call} (h : Inv flags f)
    (hc : ∀ g, f.changes ++ [change] = g.changes → CallInv flags g (next f.changes.length)) :
    Inv flags (changed f change next) := by
  have hg : Grows f (changed f change next) :=
    Grows.of (List.prefix_append _ _) (List.Subset.refl _) le_rfl (List.Subset.refl _) (fun c hs => Or.inl hs)
      fun c ⟨old, hm, ht⟩ => Or.inl ⟨old, List.mem_append_left _ hm, ht⟩
  refine h.grows hg h.cleared (fun c hs => Or.inl hs) (fun c hr => Or.inl hr) (fun call hm => ?_) (fun _ => rfl)
    fun s hs => Or.inl hs
  rcases List.mem_append.1 hm with hm | hm
  · exact Or.inl hm
  · rw [List.mem_singleton.1 hm]
    exact Or.inr (hc _ rfl)

/-- a change that no `Write` made is unflagged -/
theorem callInv_changed {change : Change} (hw : ∀ offset data, change ≠ .written offset data)
    (hg : f.changes ++ [change] = g.changes) : CallInv flags g (.returning (some f.changes.length) .ok) := by
  have hat : g.changes[f.changes.length]? = some change := by rw [← hg, List.getElem?_concat_length]
  refine ⟨(List.getElem?_eq_some_iff.1 hat).1, Or.inr (Or.inl (Or.inl fun hwrite => ?_))⟩
  obtain ⟨offset, data, hd⟩ := hwrite
  rw [hat] at hd
  exact hw offset data (Option.some.inj hd)

theorem inv_failed {err : Errno} (h : Inv flags f) (hs : failed flags filename err f = some g) : Inv flags g := by
  obtain ⟨e, -, rfl⟩ := Option.map_eq_some_iff.1 hs
  exact inv_started h trivial

theorem inv_write {offset : ℕ} {data : List UInt8} {written : Except Errno ℕ} (h : Inv flags f)
    (hs : write flags filename f offset data written = some g) : Inv flags g := by
  obtain ⟨r, -, hs⟩ := Option.bind_eq_some_iff.1 hs
  cases r with
  | error err => exact inv_failed h hs
  | ok n =>
    simp only at hs
    split_ifs at hs
    · cases hs
      refine inv_changed h fun g hg => ?_
      have hlt : f.changes.length < g.changes.length := by simp [← hg]
      exact hlt
    · cases hs
      exact inv_changed h fun _ _ => trivial

theorem inv_preAllocate {offset length : ℕ} {mode : PreAllocateMode} {fallocate : Except Errno Unit} (h : Inv flags f)
    (hs : preAllocate flags filename f offset length mode fallocate = some g) : Inv flags g := by
  unfold preAllocate at hs
  split at hs
  · cases hs
    exact inv_changed h fun g hg => callInv_changed (fun _ _ he => by cases he) hg
  · cases hs
    exact inv_started h trivial
  · cases hs
    exact inv_started h trivial
  · exact inv_failed h hs

theorem inv_truncate {length : ℕ} {ftruncate : Except Errno Unit} (h : Inv flags f)
    (hs : truncate flags filename f length ftruncate = some g) : Inv flags g := by
  obtain ⟨r, -, rfl⟩ := Option.map_eq_some_iff.1 hs
  cases r with
  | ok u => exact inv_changed h fun g hg => callInv_changed (fun _ _ he => by cases he) hg
  | error err => exact inv_started h trivial

theorem inv_punchHole {offset length : ℕ} {fallocate : Except Errno Unit} (h : Inv flags f)
    (hs : punchHole flags filename f offset length fallocate = some g) : Inv flags g := by
  unfold punchHole at hs
  split at hs
  · cases hs
    exact inv_changed h fun g hg => callInv_changed (fun _ _ he => by cases he) hg
  · exact inv_failed h hs

theorem inv_store (h : Inv flags f) (hs : store f i = some g) : Inv flags g := by
  unfold store at hs
  split at hs
  · rename_i c hi
    cases hs
    have hc : c < f.changes.length := h.calls _ (List.mem_of_getElem? hi)
    apply inv_goesOn h hi rfl
    case hnew => exact ⟨hc, Or.inl List.mem_cons_self⟩
    case cleared => exact fun hp => by cases hp
    case added => exact fun c' hm => (List.mem_cons.1 hm).elim (fun he => Or.inr (he ▸ hc)) Or.inl
    case kept => exact fun c' hm => Or.inl (List.mem_cons_of_mem c hm)
    case took => exact fun c' hm => absurd hm List.not_mem_nil
    case hlost => exact List.Subset.refl _
    case hdurable => exact le_rfl
    case never => exact fun _ => rfl
  · cases hs

/-- with the flag cleared, a returned change is covered if it is not skipped -/
theorem required_covered (h : Inv flags f) (hp : f.pendingSync = false) {required : List ℕ}
    (hr : required ⊆ f.returned) (hskip : ∀ c ∈ required, Unflagged f c → c < f.durable) :
    ∀ c ∈ required, c < f.durable := by
  intro c hc
  rcases (h.returned c (hr hc)).2 with hs | hu | hd
  · rw [h.cleared hp] at hs
    exact absurd hs List.not_mem_nil
  · exact hskip c hc hu
  · exact hd

theorem inv_compareAndSwap (h : Inv flags f) (hP : NothingSkipped flags f (.compareAndSwap i))
    (hs : compareAndSwap f i = some g) : Inv flags g := by
  unfold compareAndSwap at hs
  split at hs
  · rename_i required hi
    have hr : required ⊆ f.returned := h.calls _ (List.mem_of_getElem? hi)
    split_ifs at hs with hp
    · cases hs
      apply inv_goesOn h hi rfl
      case hnew => exact ⟨hr, h.stored⟩
      case cleared => exact fun _ => rfl
      case added => exact fun c hm => absurd hm List.not_mem_nil
      case kept => exact fun c hm => Or.inr hm
      case took => exact fun c hm => absurd hm List.not_mem_nil
      case hlost => exact List.Subset.refl _
      case hdurable => exact le_rfl
      case never => exact fun _ => rfl
    · cases hs
      have hp : f.pendingSync = false := Bool.eq_false_iff.2 hp
      apply inv_goesOn_same h hi
      · exact fun _ => required_covered h hp hr (hP hp required hi)
      · exact List.nil_subset _
  · cases hs

theorem inv_startSync (h : Inv flags f) (hP : NothingSkipped flags f (.startSync i))
    (hs : startSync flags f i = some g) : Inv flags g := by
  unfold startSync at hs
  split at hs
  · rename_i required took hi
    have hc : required ⊆ f.returned ∧ ∀ c ∈ took, c < f.changes.length := h.calls _ (List.mem_of_getElem? hi)
    cases hcall : syncCall flags with
    | none =>
      rw [hcall] at hs
      cases hs
      have hnever : flags.neverFsync = true := by
        unfold syncCall at hcall
        split_ifs at hcall with hn
        exact hn
      apply inv_goesOn_lost h hi
      rw [hP hnever required took hi]
      exact fun _ c hm => absurd hm List.not_mem_nil
    | some call =>
      rw [hcall] at hs
      cases hs
      have hnever : flags.neverFsync = false := by
        unfold syncCall at hcall
        split_ifs at hcall with hn
        all_goals exact Bool.eq_false_iff.2 hn
      apply inv_goesOn_same h hi
      · exact ⟨hnever, fun c hm => (h.returned c (hc.1 hm)).1, hc.2⟩
      · exact List.Subset.refl _
  · cases hs

theorem inv_endSync {outcome : Except Errno Unit} (h : Inv flags f)
    (hs : endSync flags filename f i outcome = some g) : Inv flags g := by
  unfold endSync at hs
  split at hs
  · rename_i call required took covers hi
    have hc : flags.neverFsync = false ∧ (∀ c ∈ required, c < covers) ∧ ∀ c ∈ took, c < covers :=
      h.calls _ (List.mem_of_getElem? hi)
    cases outcome with
    | ok u =>
      cases hs
      apply inv_goesOn h hi rfl
      case hnew => exact fun _ c hm => lt_max_of_lt_right (hc.2.1 c hm)
      case cleared => exact h.cleared
      case added => exact fun c hm => Or.inl hm
      case kept => exact fun c hm => Or.inl hm
      case took => exact fun c hm => Or.inr (Or.inr (lt_max_of_lt_right (hc.2.2 c hm)))
      case hlost => exact List.Subset.refl _
      case hdurable => exact le_max_left _ _
      case never => exact fun hn => absurd (hc.1.symm.trans hn) (by simp)
    | error err =>
      obtain ⟨e, -, rfl⟩ := Option.map_eq_some_iff.1 hs
      apply inv_goesOn_lost h hi
      exact fun hok => by cases hok
  · cases hs

/-- nothing is forgotten when a call that has taken no flag returns -/
theorem grows_erase (hi : f.calls[i]? = some old) (htook : old.took = []) {returned : List ℕ}
    {synced : List (List ℕ × ℕ)} (hr : f.returned ⊆ returned) :
    Grows f { f with calls := f.calls.eraseIdx i, returned := returned, synced := synced } := by
  refine Grows.of (List.prefix_refl _) hr le_rfl (List.Subset.refl _) (fun c hs => Or.inl hs) fun c ht => ?_
  obtain ⟨call, hm, hc⟩ := ht
  rcases List.mem_cons.1 ((slot_perm hi).mem_iff.1 hm) with rfl | hm
  · rw [htook] at hc
    exact absurd hc List.not_mem_nil
  · exact Or.inl ⟨call, hm, hc⟩

theorem inv_ret (h : Inv flags f) (hs : ret f i = some g) : Inv flags g := by
  unfold ret at hs
  split at hs
  · rename_i change status hi
    cases hs
    have hc := h.calls _ (List.mem_of_getElem? hi)
    have hg : Grows f { f with calls := f.calls.eraseIdx i
                               returned := if status = .ok then change.toList ++ f.returned else f.returned } := by
      apply grows_erase hi rfl
      split_ifs
      · exact List.subset_append_right _ _
      · exact List.Subset.refl _
    refine h.grows hg h.cleared (fun c hm => Or.inl hm) (fun c hm => ?_)
      (fun call hm => Or.inl (List.mem_of_mem_eraseIdx hm)) (fun _ => rfl) fun s hm => Or.inl hm
    simp only at hm
    split_ifs at hm
    · rcases List.mem_append.1 hm with hm | hm
      · obtain rfl := Option.mem_toList.1 hm
        exact Or.inr (hg.accounted c hc)
      · exact Or.inl hm
    · exact Or.inl hm
  · rename_i required status hi
    cases hs
    have hc := h.calls _ (List.mem_of_getElem? hi)
    refine h.grows (grows_erase hi rfl (List.Subset.refl _)) h.cleared (fun c hm => Or.inl hm) (fun c hm => Or.inl hm)
      (fun call hm => Or.inl (List.mem_of_mem_eraseIdx hm)) (fun _ => rfl) fun s hm => ?_
    simp only at hm
    split_ifs at hm with hok
    · rcases List.mem_cons.1 hm with rfl | hm
      · exact Or.inr (hc hok)
      · exact Or.inl hm
    · exact Or.inl hm
  · cases hs

theorem step_inv {o : Op} (h : Inv flags f) (hP : NothingSkipped flags f o) (hs : (rwFile flags filename).step f o = some g) :
    Inv flags g := by
  cases o with
  | write offset data written => exact inv_write h hs
  | preAllocate offset length mode fallocate => exact inv_preAllocate h hs
  | truncate length ftruncate => exact inv_truncate h hs
  | punchHole offset length fallocate => exact inv_punchHole h hs
  | sync =>
    cases hs
    exact inv_started h (List.Subset.refl _)
  | store i => exact inv_store h hs
  | compareAndSwap i => exact inv_compareAndSwap h hP hs
  | startSync i => exact inv_startSync h hP hs
  | endSync i outcome => exact inv_endSync h hs
  | ret i => exact inv_ret h hs

theorem inv_init : Inv flags (rwFile flags filename).init where
  cleared _ := rfl
  stored _ hc := absurd hc List.not_mem_nil
  returned _ hc := absurd hc List.not_mem_nil
  calls _ hc := absurd hc List.not_mem_nil
  never _ := rfl
  synced _ hs := absurd hs List.not_mem_nil

/-! ## Main result -/

/-- the return of a `Sync` that owes a change which is not covered breaks the promise -/
theorem ret_breaks {required : List ℕ} (hi : f.calls[i]? = some (.returningSync required .ok)) {c : ℕ}
    (hc : c ∈ required) (hd : ¬ c < f.durable) : ∃ g, ret f i = some g ∧ ¬ SyncsDurable g := by
  refine ⟨{ f with calls := f.calls.eraseIdx i, synced := (required, f.durable) :: f.synced }, ?_, fun hg => ?_⟩
  · simp [ret, hi]
  · exact hd (hg _ List.mem_cons_self c hc)

/-- the first step that misses the condition can be followed by a return that breaks the promise -/
theorem skipped_breaks {o : Op} (h : Inv flags f) (hP : ¬ NothingSkipped flags f o)
    (hs : (rwFile flags filename).step f o = some g) :
    ∃ i u, (rwFile flags filename).step g (.ret i) = some u ∧ ¬ SyncsDurable u := by
  cases o with
  | compareAndSwap i =>
    simp only [NothingSkipped, not_forall] at hP
    obtain ⟨hp, required, hi, c, hc, -, hd⟩ := hP
    have hlt := (List.getElem?_eq_some_iff.1 hi).1
    have hg : goesOn f i (.returningSync required .ok) = g := by
      simpa [rwFile, compareAndSwap, hi, hp] using hs
    refine ⟨i, ret_breaks ?_ hc ?_⟩
    · rw [← hg]
      exact List.getElem?_set_self hlt
    · rw [← hg]
      exact hd
  | startSync i =>
    simp only [NothingSkipped, not_forall] at hP
    obtain ⟨hn, required, took, hi, hne⟩ := hP
    have hlt := (List.getElem?_eq_some_iff.1 hi).1
    obtain ⟨c, hc⟩ := List.exists_mem_of_ne_nil required hne
    have hg : { goesOn f i (.returningSync required .ok) with lost := took ++ f.lost } = g := by
      simpa [rwFile, startSync, hi, syncCall, hn] using hs
    refine ⟨i, ret_breaks ?_ hc ?_⟩
    · rw [← hg]
      exact List.getElem?_set_self hlt
    · rw [← hg]
      have hzero : f.durable = 0 := h.never hn
      exact hzero ▸ Nat.not_lt_zero c
  | write offset data written => exact absurd trivial hP
  | preAllocate offset length mode fallocate => exact absurd trivial hP
  | truncate length ftruncate => exact absurd trivial hP
  | punchHole offset length fallocate => exact absurd trivial hP
  | sync => exact absurd trivial hP
  | store i => exact absurd trivial hP
  | endSync i outcome => exact absurd trivial hP
  | ret i => exact absurd trivial hP

/-- **When `Sync` keeps its promise.** In every run in which no `Sync` that finds the flag cleared skips an unflagged
change, each OK of `Sync` covers all changes that had returned OK before it began. The first step that misses the
condition can be followed by a return that breaks the promise. -/
theorem syncs_durable (flags : Flags) (filename : String) :
    let m := rwFile flags filename
    (∀ ops, m.Along (NothingSkipped flags) m.init ops → m.Always SyncsDurable m.init ops) ∧
      ∀ ops o f g, m.Along (NothingSkipped flags) m.init ops → m.run m.init ops = some f → m.step f o = some g →
        ¬ NothingSkipped flags f o → ∃ i h, m.step g (.ret i) = some h ∧ ¬ SyncsDurable h := by
  intro m
  have hstep : ∀ f o g, Inv flags f → NothingSkipped flags f o → m.step f o = some g → Inv flags g :=
    fun f o g h hP hs => step_inv h hP hs
  constructor
  · intro ops hP
    exact Machine.always_of_along hstep (fun f h => h.synced) inv_init hP
  · intro ops o f g hP hr hs hmiss
    exact skipped_breaks (Machine.run_inv_along hstep inv_init hP hr) hmiss hs

/-! ## Witnesses -/

/-- a truncation returns OK, then a `Sync` -/
def truncateSync : List Op :=
  [.truncate 0 (.ok ()), .ret 0, .sync, .compareAndSwap 0, .ret 0]

/-- **A truncation that no `Sync` covers.** `Truncate` does not set the flag, so `Sync` returns OK without an fsync. -/
theorem truncation_not_synced :
    let m := rwFile defaultFlags "f"
    ∃ f, m.run m.init truncateSync = some f ∧
      f.changes = [.truncated 0] ∧ f.synced = [([0], 0)] ∧ ¬ SyncsDurable f := by
  refine ⟨_, rfl, by decide, by decide, fun h => ?_⟩
  exact absurd (h ([0], 0) (by decide) 0 (by decide)) (by decide)

/-- a write, a `Sync` whose fsync fails, and a second `Sync` -/
def failedSync : List Op :=
  [.write 0 [1, 2, 3] (.ok 3), .store 0, .ret 0, .sync, .compareAndSwap 0, .startSync 0, .endSync 0 (.error (.other 28)),
    .ret 0, .sync, .compareAndSwap 0, .ret 0]

/-- **A failed `Sync` is forgotten.** The flag was cleared before the fsync failed, and the next `Sync` returns OK. -/
theorem failed_sync_forgotten :
    let m := rwFile defaultFlags "f"
    ∃ f, m.run m.init failedSync = some f ∧ f.lost = [0] ∧ f.synced = [([0], 0)] := by
  exact ⟨_, rfl, by decide, by decide⟩

/-- a write, and two `Sync` calls at the same time -/
def concurrentSyncs : List Op :=
  [.write 0 [1, 2, 3] (.ok 3), .store 0, .ret 0, .sync, .sync, .compareAndSwap 0, .startSync 0, .compareAndSwap 1, .ret 1]

/-- **A `Sync` that does not wait.** It returns OK while the fsync of another one is still running. -/
theorem concurrent_sync_returns_early :
    let m := rwFile defaultFlags "f"
    ∃ f, m.run m.init concurrentSyncs = some f ∧ f.synced = [([0], 0)] ∧ f.calls = [.inSync .fsync [0] [0] 1] := by
  exact ⟨_, rfl, by decide, by decide⟩

end Bboy.EnvPosix.RW
