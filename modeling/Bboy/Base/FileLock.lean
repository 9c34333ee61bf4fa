/-
Lean model of `PosixEnv::LockFile` and `UnlockFile` (`bboy/base/env_posix.cc`), and of processes that use them.

The lock is one of `fcntl` on the whole file: it belongs to a process, not to a descriptor, so a process gets what it already
has, and loses it when it closes any descriptor of the file. A file has one name. A call that ends the process
(`FLAGS_suicide_on_eio`) is not enabled; the exit is a step of its own.

- `Alone`: a process neither locks nor opens and closes a file for which it has a `FileLock`.
- `Inv`: a `FileLock` that was handed out stands for the lock of the kernel, and each of these for a `FileLock`.
- `lock_exclusive`: in every run of such processes, whoever exits or fails in between, a file has one `FileLock` at most.
- `lockFile_refused`: then whoever else asks for the file gets an error, and the lock stays where it is.
Witnesses: `lock_exclusive_handover`, `lockFile_refused_second`.
-/
import Bboy.Base.EnvPosix
import Bboy.Core.Machine
import Bboy.Core.Slots

namespace Bboy.EnvPosix.FileLock

open Core

abbrev Pid := ℕ

/-! ## The kernel -/

/-- the file behind each descriptor of each process, and the process that has the lock of a file -/
@[ext] structure Kernel where
  file : Pid → ℤ → Option String
  owner : String → Option Pid

namespace Kernel

variable (k : Kernel)

def openFd (pid : Pid) (fd : ℤ) (fname : String) : Kernel :=
  { k with file := Function.update k.file pid (Function.update (k.file pid) fd (some fname)) }

/-- the locks of a process on a file go -/
def drop (pid : Pid) (fname : String) : Kernel :=
  if k.owner fname = some pid then { k with owner := Function.update k.owner fname none } else k

def close (pid : Pid) (fd : ℤ) : Kernel :=
  match k.file pid fd with
  | none => k
  | some fname => { k.drop pid fname with file := Function.update k.file pid (Function.update (k.file pid) fd none) }

def exit (pid : Pid) : Kernel where
  file := Function.update k.file pid fun _ => none
  owner fname := if k.owner fname = some pid then none else k.owner fname

/-- F_SETLK with F_WRLCK or F_UNLCK; `outcome` is what it says where no other process is in the way -/
def setLk (pid : Pid) (fd : ℤ) (lock : Bool) (outcome : Except Errno Unit) : Except Errno Unit × Kernel :=
  match k.file pid fd, outcome with
  | none, _ => (.error .ebadf, k)
  | some fname, outcome =>
    if lock = true ∧ k.owner fname ≠ none ∧ k.owner fname ≠ some pid then (.error (.other 11), k)
    else
      match outcome with
      | .error err => (.error err, k)
      | .ok () =>
        (.ok (), if lock then { k with owner := Function.update k.owner fname (some pid) } else k.drop pid fname)

end Kernel

/-! ## LockFile and UnlockFile -/

def lockOrUnlock (k : Kernel) (pid : Pid) (fd : ℤ) (lock : Bool) (outcome : Except Errno Unit) :
    Except Errno Unit × Kernel := k.setLk pid fd lock outcome

/-- what `*lock` gets, with the status -/
abbrev Locked := Status × Option ℤ

def lockFile (flags : Flags) (k : Kernel) (pid : Pid) (fname : String) (opened : Except Errno ℤ)
    (locked : Except Errno Unit) : Option (Locked × Kernel) :=
  match opened with
  | .error err => (ioError flags fname err).map fun e => ((.bad e, none), k)
  | .ok fd =>
    match lockOrUnlock (k.openFd pid fd fname) pid fd true locked with
    | (.error err, k) => (ioError flags ("lock " ++ fname) err).map fun e => ((.bad e, none), k.close pid fd)
    | (.ok (), k) => some ((.ok, some fd), k)

def unlockFile (flags : Flags) (k : Kernel) (pid : Pid) (fd : ℤ) (unlocked : Except Errno Unit) :
    Option (Status × Kernel) :=
  match lockOrUnlock k pid fd false unlocked with
  | (.error err, k) => (ioError flags "unlock" err).map fun e => (.bad e, k.close pid fd)
  | (.ok (), k) => some (.ok, k.close pid fd)

/-! ## Processes -/

/-- a `PosixFileLock`, with the process that it is in; as a ghost, the file it is for -/
structure PosixFileLock where
  pid : Pid
  fd : ℤ
  fname : String
  deriving DecidableEq, Repr

structure St where
  kernel : Kernel
  locks : List PosixFileLock

inductive Op where
  | lockFile (pid : Pid) (fname : String) (opened : Except Errno ℤ) (locked : Except Errno Unit)
  | unlockFile (i : ℕ) (unlocked : Except Errno Unit)
  /-- the process opens the file for something else, and closes it -/
  | openClose (pid : Pid) (fname : String) (fd : ℤ)
  | exit (pid : Pid)

/-- `open` gives a descriptor that the process does not use -/
def Kernel.Fresh (k : Kernel) (pid : Pid) : Except Errno ℤ → Prop
  | .error _ => True
  | .ok fd => k.file pid fd = none

instance (k : Kernel) (pid : Pid) : ∀ opened, Decidable (k.Fresh pid opened)
  | .error _ => .isTrue trivial
  | .ok fd => inferInstanceAs (Decidable (k.file pid fd = none))

def processes (flags : Flags) : Machine St Op where
  init := ⟨⟨fun _ _ => none, fun _ => none⟩, []⟩
  step s
    | .lockFile pid fname opened locked =>
      if s.kernel.Fresh pid opened then
        (lockFile flags s.kernel pid fname opened locked).map fun r =>
          ⟨r.2, (r.1.2.map fun fd => ⟨pid, fd, fname⟩).toList ++ s.locks⟩
      else none
    | .unlockFile i unlocked =>
      s.locks[i]?.bind fun l =>
        (unlockFile flags s.kernel l.pid l.fd unlocked).map fun r => ⟨r.2, s.locks.eraseIdx i⟩
    | .openClose pid fname fd =>
      if s.kernel.file pid fd = none then some { s with kernel := (s.kernel.openFd pid fd fname).close pid fd } else none
    | .exit pid => some ⟨s.kernel.exit pid, s.locks.filter fun l => l.pid ≠ pid⟩

/-- the process has no `FileLock` for the file -/
def Free (s : St) (pid : Pid) (fname : String) : Prop := ∀ l ∈ s.locks, l.pid = pid → l.fname ≠ fname

instance (s : St) (pid : Pid) (fname : String) : Decidable (Free s pid fname) :=
  inferInstanceAs (Decidable (∀ l ∈ s.locks, l.pid = pid → l.fname ≠ fname))

/-- a process neither locks nor opens and closes a file for which it has a `FileLock` -/
def Alone (s : St) : Op → Prop
  | .lockFile pid fname _ _ => Free s pid fname
  | .openClose pid fname _ => Free s pid fname
  | _ => True

/-! ## What a call does to the kernel -/

variable {flags : Flags} {k : Kernel} {pid : Pid} {fd : ℤ} {fname : String}

theorem drop_file : (k.drop pid fname).file = k.file := by
  unfold Kernel.drop
  split_ifs <;> rfl

theorem drop_of_ne (h : k.owner fname ≠ some pid) : k.drop pid fname = k := if_neg h

/-- the owners after a process gave up a file -/
theorem drop_owner (other : String) :
    (k.drop pid fname).owner other = if other = fname ∧ k.owner fname = some pid then none else k.owner other := by
  unfold Kernel.drop
  split_ifs with hown hboth hboth
  · rw [hboth.1]
    exact Function.update_self ..
  · exact Function.update_of_ne (fun h => hboth ⟨h, hown⟩) _ _
  · exact absurd hboth.2 hown
  · rfl

theorem openFd_self : (k.openFd pid fd fname).file pid fd = some fname := by
  simp only [Kernel.openFd, Function.update_self]

theorem close_of_file (h : k.file pid fd = some fname) : k.close pid fd =
    { k.drop pid fname with file := Function.update k.file pid (Function.update (k.file pid) fd none) } := by
  unfold Kernel.close
  rw [h]

/-- a descriptor that is opened and closed again -/
theorem openFd_close (h : k.file pid fd = none) : (k.openFd pid fd fname).close pid fd = k.drop pid fname := by
  rw [close_of_file openFd_self]
  ext1
  · rw [drop_file]
    simp only [Kernel.openFd, Function.update_idem, Function.update_self]
    rw [← h, Function.update_eq_self, Function.update_eq_self]
  · funext other
    simp only [drop_owner]
    rfl

/-- all that `LockFile` can do -/
theorem lockFile_cases {opened : Except Errno ℤ} {locked : Except Errno Unit} {r : Locked × Kernel}
    (hfresh : k.Fresh pid opened) (h : lockFile flags k pid fname opened locked = some r) :
    (∃ fd, opened = .ok fd ∧ r.1 = (.ok, some fd) ∧ (k.owner fname = none ∨ k.owner fname = some pid) ∧
        r.2 = { k.openFd pid fd fname with owner := Function.update k.owner fname (some pid) }) ∨
      r.1.1 ≠ .ok ∧ r.1.2 = none ∧ (r.2 = k ∨ r.2 = k.drop pid fname) := by
  unfold lockFile at h
  cases opened with
  | error err =>
    obtain ⟨e, -, rfl⟩ := Option.map_eq_some_iff.1 h
    exact Or.inr ⟨nofun, rfl, Or.inl rfl⟩
  | ok fd =>
    simp only [lockOrUnlock, Kernel.setLk, openFd_self] at h
    by_cases hheld : k.owner fname ≠ none ∧ k.owner fname ≠ some pid
    · rw [if_pos (by exact ⟨trivial, hheld⟩)] at h
      obtain ⟨e, -, rfl⟩ := Option.map_eq_some_iff.1 h
      exact Or.inr ⟨nofun, rfl, Or.inr (openFd_close hfresh)⟩
    · rw [if_neg (by exact fun h => hheld h.2)] at h
      cases locked with
      | error err =>
        obtain ⟨e, -, rfl⟩ := Option.map_eq_some_iff.1 h
        exact Or.inr ⟨nofun, rfl, Or.inr (openFd_close hfresh)⟩
      | ok u =>
        cases h
        refine Or.inl ⟨fd, rfl, rfl, ?_, rfl⟩
        by_contra hnot
        exact hheld (not_or.1 hnot)

/-- `UnlockFile` closes the descriptor, also if the unlocking fails -/
theorem unlockFile_cases {unlocked : Except Errno Unit} {r : Status × Kernel} (hfile : k.file pid fd = some fname)
    (h : unlockFile flags k pid fd unlocked = some r) :
    r.2 = { k.drop pid fname with file := Function.update k.file pid (Function.update (k.file pid) fd none) } := by
  unfold unlockFile at h
  simp only [lockOrUnlock, Kernel.setLk, hfile, Bool.false_eq_true, false_and, if_false] at h
  cases unlocked with
  | error err =>
    obtain ⟨e, -, rfl⟩ := Option.map_eq_some_iff.1 h
    exact close_of_file hfile
  | ok u =>
    cases h
    have hdropped : (k.drop pid fname).file pid fd = some fname := by rw [drop_file, hfile]
    rw [close_of_file hdropped, drop_file]
    have htwice : (k.drop pid fname).drop pid fname = k.drop pid fname := by
      refine drop_of_ne ?_
      rw [drop_owner]
      split_ifs with hown
      · nofun
      · exact fun h => hown ⟨rfl, h⟩
    rw [htwice]

/-! ## The invariant -/

structure Inv (s : St) : Prop where
  /-- a `FileLock` stands for the lock of its process -/
  held : ∀ l ∈ s.locks, s.kernel.file l.pid l.fd = some l.fname ∧ s.kernel.owner l.fname = some l.pid
  /-- and each lock has one -/
  owned : ∀ fname pid, s.kernel.owner fname = some pid → ∃ l ∈ s.locks, l.fname = fname ∧ l.pid = pid
  one : s.locks.Pairwise fun a b => a.fname ≠ b.fname

variable {s s' : St}

theorem Inv.owner_ne (hi : Inv s) (hfree : Free s pid fname) : s.kernel.owner fname ≠ some pid := by
  intro hown
  obtain ⟨l, hl, hfname, hpid⟩ := hi.owned fname pid hown
  exact hfree l hl hpid hfname

/-- the process takes a lock that nobody has -/
theorem take_inv {l : PosixFileLock} (hi : Inv s) (hfresh : s.kernel.file l.pid l.fd = none)
    (hfree : s.kernel.owner l.fname = none) :
    Inv ⟨{ s.kernel.openFd l.pid l.fd l.fname with owner := Function.update s.kernel.owner l.fname (some l.pid) },
      l :: s.locks⟩ := by
  have hnone : ∀ m ∈ s.locks, m.fname ≠ l.fname := by
    intro m hm heq
    have hown := (hi.held m hm).2
    rw [heq, hfree] at hown
    cases hown
  refine ⟨fun m hm => ?_, fun fname pid hown => ?_, List.pairwise_cons.2 ⟨fun m hm => (hnone m hm).symm, hi.one⟩⟩
  · rcases List.mem_cons.1 hm with rfl | hm
    · exact ⟨openFd_self, Function.update_self ..⟩
    · obtain ⟨hfile, hown⟩ := hi.held m hm
      refine ⟨?_, (Function.update_of_ne (hnone m hm) _ _).trans hown⟩
      simp only [Kernel.openFd]
      by_cases hpid : m.pid = l.pid
      · rw [hpid, Function.update_self, Function.update_of_ne, ← hpid]
        · exact hfile
        · rintro hfd
          rw [hpid, hfd, hfresh] at hfile
          cases hfile
      · rw [Function.update_of_ne hpid]
        exact hfile
  · simp only at hown
    by_cases hname : fname = l.fname
    · rw [hname, Function.update_self] at hown
      exact ⟨l, List.mem_cons_self, hname.symm, Option.some.inj hown⟩
    · rw [Function.update_of_ne hname] at hown
      obtain ⟨m, hm, h⟩ := hi.owned fname pid hown
      exact ⟨m, List.mem_cons_of_mem _ hm, h⟩

/-- a lock is given back, with its descriptor -/
theorem giveBack_inv {i : ℕ} {l : PosixFileLock} (hi : Inv s) (hl : s.locks[i]? = some l) :
    Inv ⟨{ s.kernel.drop l.pid l.fname with
        file := Function.update s.kernel.file l.pid (Function.update (s.kernel.file l.pid) l.fd none) },
      s.locks.eraseIdx i⟩ := by
  obtain ⟨hothers, hrest⟩ := (slot_pairwise (fun h => h.symm) hl).1 hi.one
  have hmem : ∀ m ∈ s.locks.eraseIdx i, m ∈ s.locks := fun m hm => (slot_mem hl).2 (Or.inr hm)
  have hown := (hi.held l ((slot_mem hl).2 (Or.inl rfl))).2
  refine ⟨fun m hm => ?_, fun fname pid howner => ?_, hrest⟩
  · obtain ⟨hfile, hmine⟩ := hi.held m (hmem m hm)
    have hne := hothers m hm
    constructor
    · simp only
      by_cases hpid : m.pid = l.pid
      · rw [hpid, Function.update_self, Function.update_of_ne, ← hpid]
        · exact hfile
        · intro hfd
          have hsame := (hi.held l ((slot_mem hl).2 (Or.inl rfl))).1
          rw [hpid, hfd, hsame] at hfile
          exact hne (Option.some.inj hfile)
      · rw [Function.update_of_ne hpid]
        exact hfile
    · simp only [drop_owner]
      rw [if_neg fun h => hne h.1.symm]
      exact hmine
  · simp only [drop_owner] at howner
    split_ifs at howner with hgone
    obtain ⟨m, hm, hname, hpid⟩ := hi.owned fname pid howner
    refine ⟨m, ?_, hname, hpid⟩
    rcases (slot_mem hl).1 hm with rfl | hm
    · exact absurd ⟨hname.symm, hown⟩ hgone
    · exact hm

theorem exit_inv (hi : Inv s) (pid : Pid) : Inv ⟨s.kernel.exit pid, s.locks.filter fun l => l.pid ≠ pid⟩ := by
  refine ⟨fun m hm => ?_, fun fname other howner => ?_, hi.one.filter _⟩
  · obtain ⟨hm, hne⟩ := List.mem_filter.1 hm
    have hne : m.pid ≠ pid := of_decide_eq_true hne
    obtain ⟨hfile, hown⟩ := hi.held m hm
    simp only [Kernel.exit]
    rw [Function.update_of_ne hne, if_neg (by rw [hown]; exact fun h => hne (Option.some.inj h))]
    exact ⟨hfile, hown⟩
  · simp only [Kernel.exit] at howner
    split_ifs at howner with hgone
    obtain ⟨m, hm, hname, hpid⟩ := hi.owned fname other howner
    refine ⟨m, List.mem_filter.2 ⟨hm, decide_eq_true fun h => hgone ?_⟩, hname, hpid⟩
    rw [howner, ← hpid, h]

theorem step_inv {o : Op} (hi : Inv s) (halone : Alone s o) (h : (processes flags).step s o = some s') : Inv s' := by
  cases o with
  | lockFile pid fname opened locked =>
    simp only [processes] at h
    split_ifs at h with hfresh
    obtain ⟨r, hr, rfl⟩ := Option.map_eq_some_iff.1 h
    have hne := hi.owner_ne halone
    rcases lockFile_cases hfresh hr with ⟨fd, rfl, hgot, hfree, hkernel⟩ | ⟨-, hnone, hkernel⟩
    · rw [hgot, hkernel]
      exact @take_inv s ⟨pid, fd, fname⟩ hi hfresh (hfree.resolve_right hne)
    · have hsame : r.2 = s.kernel := by
        rcases hkernel with h | h
        · exact h
        · rw [h, drop_of_ne hne]
      rw [hnone, hsame]
      exact hi
  | unlockFile i unlocked =>
    obtain ⟨l, hl, h⟩ := Option.bind_eq_some_iff.1 h
    obtain ⟨r, hr, rfl⟩ := Option.map_eq_some_iff.1 h
    have hheld := hi.held l ((slot_mem hl).2 (Or.inl rfl))
    rw [unlockFile_cases hheld.1 hr]
    exact giveBack_inv hi hl
  | openClose pid fname fd =>
    simp only [processes] at h
    split_ifs at h with hfresh
    cases h
    rw [openFd_close hfresh, drop_of_ne (hi.owner_ne halone)]
    exact hi
  | exit pid =>
    cases h
    exact exit_inv hi pid

theorem init_inv : Inv (processes flags).init := ⟨nofun, nofun, List.Pairwise.nil⟩

/-! ## Results -/

variable {ops : List Op}

/-- **A file has one `FileLock` at most** in every state of every run of processes that leave their own locked files alone,
whatever fails and whoever exits; and the file is locked in the kernel, by the process of this `FileLock`, as long as there
is one. -/
theorem lock_exclusive (halone : (processes flags).Along Alone (processes flags).init ops)
    (h : (processes flags).run (processes flags).init ops = some s) :
    (s.locks.Pairwise fun a b => a.fname ≠ b.fname) ∧
      ∀ fname pid, s.kernel.owner fname = some pid ↔ ∃ l ∈ s.locks, l.fname = fname ∧ l.pid = pid := by
  have hi : Inv s := Machine.run_inv_along (fun _ _ _ hi ha hst => step_inv hi ha hst) init_inv halone h
  refine ⟨hi.one, fun fname pid => ⟨hi.owned fname pid, ?_⟩⟩
  rintro ⟨l, hl, rfl, rfl⟩
  exact (hi.held l hl).2

/-- **Who comes second is refused** at once, whatever the system calls say, and the first keeps the lock. -/
theorem lockFile_refused {l : PosixFileLock} {opened : Except Errno ℤ} {locked : Except Errno Unit} {r : Locked × Kernel}
    (halone : (processes flags).Along Alone (processes flags).init ops)
    (h : (processes flags).run (processes flags).init ops = some s) (hl : l ∈ s.locks) (hpid : pid ≠ l.pid)
    (hfresh : s.kernel.Fresh pid opened) (hr : lockFile flags s.kernel pid l.fname opened locked = some r) :
    r.1.1 ≠ .ok ∧ r.1.2 = none ∧ r.2 = s.kernel := by
  have hi : Inv s := Machine.run_inv_along (fun _ _ _ hi ha hst => step_inv hi ha hst) init_inv halone h
  have hown := (hi.held l hl).2
  have hne : s.kernel.owner l.fname ≠ some pid := by
    rw [hown]
    exact fun h => hpid (Option.some.inj h).symm
  rcases lockFile_cases hfresh hr with ⟨fd, -, -, hfree, -⟩ | ⟨hbad, hnone, hkernel⟩
  · rw [hown] at hfree
    rcases hfree with h | h
    · cases h
    · exact absurd (Option.some.inj h).symm hpid
  · refine ⟨hbad, hnone, ?_⟩
    rcases hkernel with h | h
    · exact h
    · rw [h, drop_of_ne hne]

/-- process 1 locks the file and exits, process 2 locks it and fails to unlock it, and process 1 has it again -/
def handover : List Op :=
  [.lockFile 1 "LOCK" (.ok 3) (.ok ()), .lockFile 2 "LOCK" (.ok 3) (.ok ()), .exit 1,
    .lockFile 2 "LOCK" (.ok 3) (.ok ()), .unlockFile 0 (.error (.other 37)), .lockFile 1 "LOCK" (.ok 3) (.ok ())]

instance (s : St) : ∀ o, Decidable (Alone s o)
  | .lockFile pid fname _ _ => inferInstanceAs (Decidable (Free s pid fname))
  | .openClose pid fname _ => inferInstanceAs (Decidable (Free s pid fname))
  | .unlockFile _ _ => .isTrue trivial
  | .exit _ => .isTrue trivial

theorem handover_alone : (processes defaultFlags).Along Alone (processes defaultFlags).init handover := by decide

theorem lock_exclusive_handover : ∃ s, (processes defaultFlags).run (processes defaultFlags).init handover = some s ∧
    s.locks = [⟨1, 3, "LOCK"⟩] ∧ s.kernel.owner "LOCK" = some 1 := by
  obtain ⟨s, hs, hlocks⟩ : ∃ s, (processes defaultFlags).run (processes defaultFlags).init handover = some s ∧
      s.locks = [⟨1, 3, "LOCK"⟩] := ⟨_, rfl, rfl⟩
  refine ⟨s, hs, hlocks, ((lock_exclusive handover_alone hs).2 "LOCK" 1).2 ⟨⟨1, 3, "LOCK"⟩, ?_, rfl, rfl⟩⟩
  rw [hlocks]
  exact List.mem_cons_self

theorem lockFile_refused_second : ∃ s r, (processes defaultFlags).run (processes defaultFlags).init handover = some s ∧
    lockFile defaultFlags s.kernel 2 "LOCK" (.ok 5) (.ok ()) = some r ∧ r.1.2 = none := by
  obtain ⟨s, r, hs, hlocks, hfresh, hr⟩ : ∃ s r,
      (processes defaultFlags).run (processes defaultFlags).init handover = some s ∧ s.locks = [⟨1, 3, "LOCK"⟩] ∧
        s.kernel.Fresh 2 (.ok 5) ∧ lockFile defaultFlags s.kernel 2 "LOCK" (.ok 5) (.ok ()) = some r :=
    ⟨_, _, rfl, rfl, rfl, rfl⟩
  have hl : (⟨1, 3, "LOCK"⟩ : PosixFileLock) ∈ s.locks := by
    rw [hlocks]
    exact List.mem_cons_self
  exact ⟨s, r, hs, hr, (lockFile_refused handover_alone hs hl (by decide) hfresh hr).2.1⟩

/-- a process that locks the file twice and unlocks it once lets in a second one -/
example : ((processes defaultFlags).run (processes defaultFlags).init
    [.lockFile 1 "LOCK" (.ok 3) (.ok ()), .lockFile 1 "LOCK" (.ok 4) (.ok ()), .unlockFile 0 (.ok ()),
      .lockFile 2 "LOCK" (.ok 3) (.ok ())]).map St.locks = some [⟨2, 3, "LOCK"⟩, ⟨1, 3, "LOCK"⟩] := rfl

end Bboy.EnvPosix.FileLock
