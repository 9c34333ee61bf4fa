/-
Lean model of `rw_semaphore` (`bboy/base/sync/rw_semaphore.h`): readers and writers that race on one 32-bit word.

A step of a thread is one atomic access: a load, a compare-and-swap or a store. A loop keeps the value it expects from its
last access, however old that is. Each thread keeps to the brackets: it unlocks what it locked, in the mode it locked it.

- `advance_cases`: what an access can do to the word and to the thread.
- `Inv`: the word counts the shared holders, with the write flag while a writer holds or drains. A writer past
  `WaitPendingReaders` has no reader beside it, because no reader gets past the flag.
- `mutual_exclusion`: a thread that holds exclusively excludes all others; the word is the count with the flag; the store
  of `unlock` finds the flag alone; no `DCHECK` fails.
Witness: `mutual_exclusion_twoThreads`.
-/
import Bboy.Core.Machine
import Bboy.Core.Slots

namespace Bboy.RwSemaphore

open Core

/-! ## The word -/

abbrev Atomic32 := BitVec 32

def kNumReadersMask : Atomic32 := 0x7fffffff#32

def kWriteFlag : Atomic32 := 1#32 <<< 31

/-- the value found, and the word afterwards -/
def compareAndSwap (state expected new : Atomic32) : Atomic32 × Atomic32 :=
  (state, if state = expected then new else state)

/-! ## Threads -/

/-- where a thread is; `cur` is `cur_state`, none before the first load of a loop -/
inductive Pc where
  | idle
  | lockShared (cur : Option Atomic32)
  | shared
  | unlockShared (cur : Option Atomic32)
  | tryLock (cur : Option Atomic32)
  | lock (cur : Option Atomic32)
  | waitPendingReaders
  | exclusive
  | unlock (checked : Bool)
  deriving DecidableEq, Repr

/-- the word and the thread after an access, and whether the `DCHECK`s on the way held -/
structure Access where
  state : Atomic32
  pc : Pc
  ok : Bool
  deriving DecidableEq, Repr

/-- a round of a loop around a compare-and-swap: out of the loop to `won`, or again with the value found -/
def casRound (state expected new : Atomic32) (won : Pc) (again : Option Atomic32 → Pc) (ok : Bool) : Access :=
  let r := compareAndSwap state expected new
  ⟨r.2, if r.1 = expected then won else again (some r.1), ok⟩

/-- the next access of a thread that is inside a call -/
def advance (state : Atomic32) : Pc → Option Access
  | .lockShared none => some ⟨state, .lockShared (some state), true⟩
  | .lockShared (some cur) =>
    let expected := cur &&& kNumReadersMask
    some (casRound state expected (expected + 1) .shared .lockShared true)
  | .unlockShared none => some ⟨state, .unlockShared (some state), true⟩
  | .unlockShared (some cur) =>
    -- DCHECK_GT(cur_state & kNumReadersMask, 0)
    some (casRound state cur (cur - 1) .idle .unlockShared (0 < cur &&& kNumReadersMask))
  | .tryLock none => some ⟨state, .tryLock (some state), true⟩
  | .tryLock (some cur) =>
    if cur &&& kWriteFlag ≠ 0 then some ⟨state, .idle, true⟩
    else
      let expected := cur &&& kNumReadersMask
      some (casRound state expected (kWriteFlag ||| expected) .waitPendingReaders .tryLock true)
  | .lock none => some ⟨state, .lock (some state), true⟩
  | .lock (some cur) =>
    let expected := cur &&& kNumReadersMask
    some (casRound state expected (kWriteFlag ||| expected) .waitPendingReaders .lock true)
  | .waitPendingReaders => some ⟨state, if 0 < state &&& kNumReadersMask then .waitPendingReaders else .exclusive, true⟩
  -- DCHECK_EQ(state_, kWriteFlag)
  | .unlock false => some ⟨state, .unlock true, state = kWriteFlag⟩
  | .unlock true => some ⟨0, .idle, true⟩
  | .idle => none
  | .shared => none
  | .exclusive => none

inductive Call where
  | lockShared
  | unlockShared
  | tryLock
  | lock
  | unlock
  deriving DecidableEq, Repr

/-- a call begins where the brackets allow it -/
def Call.enter : Call → Pc → Option Pc
  | .lockShared, .idle => some (.lockShared none)
  | .unlockShared, .shared => some (.unlockShared none)
  | .tryLock, .idle => some (.tryLock none)
  | .lock, .idle => some (.lock none)
  | .unlock, .exclusive => some (.unlock false)
  | _, _ => none

structure St where
  state : Atomic32
  threads : List Pc
  checkFailed : Bool
  deriving DecidableEq, Repr

inductive Op where
  | begin (i : ℕ) (c : Call)
  | step (i : ℕ)
  deriving DecidableEq, Repr

def machine (n : ℕ) : Machine St Op where
  init := ⟨0, List.replicate n .idle, false⟩
  step s
    | .begin i c => s.threads[i]?.bind fun pc => (c.enter pc).map fun pc' => { s with threads := s.threads.set i pc' }
    | .step i => s.threads[i]?.bind fun pc => (advance s.state pc).map fun a =>
        ⟨a.state, s.threads.set i a.pc, s.checkFailed || !a.ok⟩

/-! ## Holders -/

/-- registered as a reader -/
def Pc.isShared : Pc → Bool
  | .shared | .unlockShared _ => true
  | _ => false

/-- past `WaitPendingReaders`, and not yet past the store of `unlock` -/
def Pc.isExclusive : Pc → Bool
  | .exclusive | .unlock _ => true
  | _ => false

/-- a writer that holds or drains -/
def Pc.isWriter : Pc → Bool
  | .waitPendingReaders | .exclusive | .unlock _ => true
  | _ => false

theorem Pc.isExclusive_writer {pc : Pc} (h : pc.isExclusive = true) : pc.isWriter = true := by
  cases pc <;> first | rfl | cases h

theorem Pc.isWriter_shared {pc : Pc} (h : pc.isWriter = true) : pc.isShared = false := by
  cases pc <;> first | rfl | cases h

def readers (s : St) : ℕ := s.threads.countP Pc.isShared

def writers (s : St) : ℕ := s.threads.countP Pc.isWriter

/-! ## Bits -/

theorem mask_toNat (x : Atomic32) : (x &&& kNumReadersMask).toNat = x.toNat % 2 ^ 31 := by
  rw [BitVec.toNat_and]
  exact Nat.and_two_pow_sub_one_eq_mod x.toNat 31

theorem mask_lt (x : Atomic32) : (x &&& kNumReadersMask).toNat < 2 ^ 31 := by
  rw [mask_toNat]
  exact Nat.mod_lt _ (by norm_num)

theorem flag_toNat : kWriteFlag.toNat = 2 ^ 31 := by decide

theorem flag_or_toNat {x : Atomic32} (h : x.toNat < 2 ^ 31) : (kWriteFlag ||| x).toNat = 2 ^ 31 + x.toNat := by
  rw [BitVec.toNat_or, flag_toNat]
  simpa using (Nat.two_pow_add_eq_or_of_lt h 1).symm

/-! ## Accesses -/

/-- what the `DCHECK` at a place asks -/
def Dcheck (state : Atomic32) : Pc → Prop
  | .unlockShared (some cur) => 0 < cur &&& kNumReadersMask
  | .unlock false => state = kWriteFlag
  | _ => True

/-- what an access can do -/
inductive Advances (state : Atomic32) : Pc → Access → Prop
  | quiet {pc pc' ok} (hshared : pc'.isShared = pc.isShared) (hwriter : pc'.isWriter = pc.isWriter)
    (hexclusive : pc'.isExclusive = pc.isExclusive) (hcur : ∀ cur, pc' = .unlockShared (some cur) → cur = state) :
    Advances state pc ⟨state, pc', ok⟩
  | readerIn {cur} (hfree : state.toNat < 2 ^ 31) : Advances state (.lockShared cur) ⟨state + 1, .shared, true⟩
  | readerOut {cur ok} : Advances state (.unlockShared cur) ⟨state - 1, .idle, ok⟩
  | writerIn {pc} (hshared : pc.isShared = false) (hwriter : pc.isWriter = false) (hfree : state.toNat < 2 ^ 31) :
    Advances state pc ⟨kWriteFlag ||| state, .waitPendingReaders, true⟩
  | drained (hnone : state &&& kNumReadersMask = 0) : Advances state .waitPendingReaders ⟨state, .exclusive, true⟩
  | writerOut : Advances state (.unlock true) ⟨0, .idle, true⟩

variable {state : Atomic32} {pc : Pc} {a : Access}

/-- a round that expects no flag: lost, or won on a word without the flag -/
theorem casRound_free (state cur : Atomic32) (new : Atomic32 → Atomic32) (won : Pc) (again : Option Atomic32 → Pc) :
    let expected := cur &&& kNumReadersMask
    casRound state expected (new expected) won again true = ⟨state, again (some state), true⟩ ∨
      state.toNat < 2 ^ 31 ∧ casRound state expected (new expected) won again true = ⟨new state, won, true⟩ := by
  intro expected
  by_cases h : state = expected
  · right
    have hlt : expected.toNat < 2 ^ 31 := mask_lt cur
    rw [← h] at hlt ⊢
    exact ⟨hlt, by simp [casRound, compareAndSwap]⟩
  · left
    simp [casRound, compareAndSwap, h]

/-- **What an access can do** to the word and to the thread. -/
theorem advance_cases (h : advance state pc = some a) : Advances state pc a := by
  cases pc with
  | idle => cases h
  | shared => cases h
  | exclusive => cases h
  | lockShared cur =>
    cases cur with
    | none =>
      cases h
      exact Advances.quiet rfl rfl rfl (by simp)
    | some cur =>
      cases h
      rcases casRound_free state cur (· + 1) .shared .lockShared with heq | ⟨hfree, heq⟩
      · rw [heq]
        exact Advances.quiet rfl rfl rfl (by simp)
      · rw [heq]
        exact Advances.readerIn hfree
  | unlockShared cur =>
    cases cur with
    | none =>
      cases h
      exact Advances.quiet rfl rfl rfl (by simp)
    | some cur =>
      cases h
      by_cases heq : state = cur
      · simp only [casRound, compareAndSwap, heq, if_true]
        exact Advances.readerOut
      · simp only [casRound, compareAndSwap, heq, if_false]
        exact Advances.quiet rfl rfl rfl (by simp)
  | tryLock cur =>
    cases cur with
    | none =>
      cases h
      exact Advances.quiet rfl rfl rfl (by simp)
    | some cur =>
      simp only [advance] at h
      split_ifs at h with hflag
      · cases h
        exact Advances.quiet rfl rfl rfl (by simp)
      · cases h
        rcases casRound_free state cur (kWriteFlag ||| ·) .waitPendingReaders .tryLock with heq | ⟨hfree, heq⟩
        · rw [heq]
          exact Advances.quiet rfl rfl rfl (by simp)
        · rw [heq]
          exact Advances.writerIn rfl rfl hfree
  | lock cur =>
    cases cur with
    | none =>
      cases h
      exact Advances.quiet rfl rfl rfl (by simp)
    | some cur =>
      cases h
      rcases casRound_free state cur (kWriteFlag ||| ·) .waitPendingReaders .lock with heq | ⟨hfree, heq⟩
      · rw [heq]
        exact Advances.quiet rfl rfl rfl (by simp)
      · rw [heq]
        exact Advances.writerIn rfl rfl hfree
  | waitPendingReaders =>
    cases h
    by_cases hwait : 0 < state &&& kNumReadersMask
    · rw [if_pos hwait]
      exact Advances.quiet rfl rfl rfl (by simp)
    · rw [if_neg hwait]
      exact Advances.drained (by simpa [BitVec.pos_iff_ne_zero] using hwait)
  | unlock checked =>
    cases checked with
    | false =>
      cases h
      exact Advances.quiet rfl rfl rfl (by simp)
    | true =>
      cases h
      exact Advances.writerOut

/-- the places that a call goes through, and the one where it returns -/
def Pc.follows : Pc → Pc → Prop
  | .lockShared _, .lockShared _ | .lockShared _, .shared => True
  | .unlockShared _, .unlockShared _ | .unlockShared _, .idle => True
  | .tryLock _, .tryLock _ | .tryLock _, .idle | .tryLock _, .waitPendingReaders => True
  | .lock _, .lock _ | .lock _, .waitPendingReaders => True
  | .waitPendingReaders, .waitPendingReaders | .waitPendingReaders, .exclusive => True
  | .unlock _, .unlock _ | .unlock _, .idle => True
  | _, _ => False

theorem casRound_pc (state expected new : Atomic32) (won : Pc) (again : Option Atomic32 → Pc) (ok : Bool) :
    (casRound state expected new won again ok).pc = won ∨
      (casRound state expected new won again ok).pc = again (some state) :=
  ite_eq_or_eq _ _ _

/-- an access stays inside the call -/
theorem advance_follows (h : advance state pc = some a) : pc.follows a.pc := by
  cases pc with
  | lockShared cur =>
    cases cur <;> cases h
    · exact trivial
    · rcases casRound_pc state _ _ .shared .lockShared true with heq | heq <;> rw [heq] <;> exact trivial
  | unlockShared cur =>
    cases cur <;> cases h
    · exact trivial
    · rcases casRound_pc state _ _ .idle .unlockShared _ with heq | heq <;> rw [heq] <;> exact trivial
  | tryLock cur =>
    cases cur with
    | none =>
      cases h
      exact trivial
    | some cur =>
      simp only [advance] at h
      split_ifs at h <;> cases h
      · exact trivial
      · rcases casRound_pc state _ _ .waitPendingReaders .tryLock true with heq | heq <;> rw [heq] <;> exact trivial
  | lock cur =>
    cases cur <;> cases h
    · exact trivial
    · rcases casRound_pc state _ _ .waitPendingReaders .lock true with heq | heq <;> rw [heq] <;> exact trivial
  | waitPendingReaders =>
    cases h
    dsimp only
    split_ifs <;> exact trivial
  | unlock checked => cases checked <;> cases h <;> exact trivial
  | _ => cases h

theorem advance_ok (h : advance state pc = some a) (hd : Dcheck state pc) : a.ok = true := by
  cases pc with
  | unlockShared cur =>
    cases cur with
    | none =>
      cases h
      rfl
    | some cur =>
      cases h
      exact decide_eq_true hd
  | unlock checked =>
    cases checked with
    | false =>
      cases h
      exact decide_eq_true hd
    | true =>
      cases h
      rfl
  | tryLock cur =>
    cases cur with
    | none =>
      cases h
      rfl
    | some cur =>
      simp only [advance] at h
      split_ifs at h <;> cases h <;> rfl
  | lockShared cur => cases cur <;> cases h <;> rfl
  | lock cur => cases cur <;> cases h <;> rfl
  | waitPendingReaders =>
    cases h
    rfl
  | _ => cases h

/-! ## The invariant -/

structure Inv (n : ℕ) (s : St) : Prop where
  length : s.threads.length = n
  word : s.state.toNat = readers s + 2 ^ 31 * writers s
  one : writers s ≤ 1
  drained : ∀ pc ∈ s.threads, pc.isExclusive = true → readers s = 0
  loaded : ∀ cur, .unlockShared (some cur) ∈ s.threads → 0 < cur &&& kNumReadersMask
  checked : s.checkFailed = false

variable {n : ℕ} {s t : St} {o : Op} {i j : ℕ}

theorem Inv.readers_lt (hi : Inv n s) (hn : n < 2 ^ 31) : readers s < 2 ^ 31 :=
  lt_of_le_of_lt (hi.length ▸ List.countP_le_length) hn

/-- the reader count of the word -/
theorem Inv.mask (hi : Inv n s) (hn : n < 2 ^ 31) : (s.state &&& kNumReadersMask).toNat = readers s := by
  rw [mask_toNat, hi.word, Nat.add_mul_mod_self_left, Nat.mod_eq_of_lt (hi.readers_lt hn)]

theorem Inv.free (hi : Inv n s) (hfree : s.state.toNat < 2 ^ 31) : writers s = 0 := by
  have hword := hi.word
  omega

/-- a thread that holds exclusively: it is the writer, and there is no reader -/
theorem Inv.exclusive (hi : Inv n s) (hpc : s.threads[i]? = some pc) (hexcl : pc.isExclusive = true) :
    readers s = 0 ∧ writers s = 1 := by
  have hmem := List.mem_of_getElem? hpc
  have hpos : 0 < writers s := List.countP_pos_iff.2 ⟨pc, hmem, Pc.isExclusive_writer hexcl⟩
  exact ⟨hi.drained pc hmem hexcl, Nat.le_antisymm hi.one hpos⟩

/-- the `DCHECK`s hold -/
theorem Inv.dcheck (hi : Inv n s) (hpc : s.threads[i]? = some pc) : Dcheck s.state pc := by
  have hmem := List.mem_of_getElem? hpc
  cases pc with
  | unlockShared cur =>
    cases cur with
    | none => exact trivial
    | some cur => exact hi.loaded cur hmem
  | unlock checked =>
    cases checked with
    | false =>
      obtain ⟨hr, hw⟩ := hi.exclusive hpc rfl
      apply BitVec.eq_of_toNat_eq
      rw [hi.word, hr, hw, flag_toNat, Nat.zero_add, Nat.mul_one]
    | true => exact trivial
  | _ => exact trivial

/-- the counts of a slot, and of what it is set to -/
theorem slot_holders {l : List Pc} (h : l[i]? = some pc) (pc' : Pc) :
    l.countP Pc.isShared + pc'.isShared.toNat = (l.set i pc').countP Pc.isShared + pc.isShared.toNat ∧
      l.countP Pc.isWriter + pc'.isWriter.toNat = (l.set i pc').countP Pc.isWriter + pc.isWriter.toNat :=
  ⟨(slot_countP_exchange h Pc.isShared pc').symm, (slot_countP_exchange h Pc.isWriter pc').symm⟩

/-- **The word follows the registrations.** A thread that changes its place, and the word by the difference: it joins the
readers or the writers only when there is no writer, and holds exclusively only when there is no reader. -/
theorem replace_inv {state' : Atomic32} {pc' : Pc} (hi : Inv n s) (hpc : s.threads[i]? = some pc)
    (hword : state'.toNat + (pc.isShared.toNat + 2 ^ 31 * pc.isWriter.toNat) =
      s.state.toNat + (pc'.isShared.toNat + 2 ^ 31 * pc'.isWriter.toNat))
    (hshared : pc'.isShared = true → pc.isShared = true ∨ writers s = 0)
    (hwriter : pc'.isWriter = true → pc.isWriter = true ∨ writers s = 0)
    (hexclusive : pc'.isExclusive = true → pc.isExclusive = true ∨ readers s = 0)
    (hcur : ∀ cur, pc' = .unlockShared (some cur) → 0 < cur &&& kNumReadersMask) :
    Inv n ⟨state', s.threads.set i pc', false⟩ := by
  have hmem := List.mem_of_getElem? hpc
  obtain ⟨hr, hw⟩ := slot_holders hpc pc'
  have hone := hi.one
  refine ⟨?_, ?_, ?_, fun q hq hexcl => ?_, fun cur hq => ?_, rfl⟩
  · rw [List.length_set, hi.length]
  · have hbefore := hi.word
    simp only [readers, writers] at hbefore ⊢
    omega
  · by_cases hpc' : pc'.isWriter = true
    · rw [hpc'] at hw
      rcases hwriter hpc' with hold | hnone
      · rw [hold] at hw
        exact (Nat.add_right_cancel hw).symm.le.trans hone
      · simp only [writers, Bool.toNat_true] at hw hnone ⊢
        omega
    · rw [Bool.eq_false_iff.2 hpc'] at hw
      simp only [writers, Bool.toNat_false] at hw hone ⊢
      omega
  · show (s.threads.set i pc').countP Pc.isShared = 0
    rcases List.mem_or_eq_of_mem_set hq with hq | rfl
    · -- a writer that holds keeps the others out
      have hnone := hi.drained q hq hexcl
      have hpos : 0 < writers s := List.countP_pos_iff.2 ⟨q, hq, Pc.isExclusive_writer hexcl⟩
      have hout : pc'.isShared = false := by
        by_contra hin
        rcases hshared (Bool.eq_true_of_not_eq_false hin) with hold | hfree
        · have hin : 0 < readers s := List.countP_pos_iff.2 ⟨pc, hmem, hold⟩
          exact absurd hnone hin.ne'
        · exact absurd hfree hpos.ne'
      rw [hout] at hr
      simp only [readers, Bool.toNat_false] at hr hnone
      omega
    · have hnone : readers s = 0 := (hexclusive hexcl).elim (hi.drained pc hmem) id
      rw [Pc.isWriter_shared (Pc.isExclusive_writer hexcl)] at hr
      simp only [readers, Bool.toNat_false] at hr hnone
      omega
  · rcases List.mem_or_eq_of_mem_set hq with hq | heq
    · exact hi.loaded cur hq
    · exact hcur cur heq.symm

theorem enter_quiet {c : Call} {pc' : Pc} (h : c.enter pc = some pc') :
    pc'.isShared = pc.isShared ∧ pc'.isWriter = pc.isWriter ∧ pc'.isExclusive = pc.isExclusive ∧
      ∀ cur, pc' ≠ .unlockShared (some cur) := by
  cases c <;> cases pc <;> cases h <;> exact ⟨rfl, rfl, rfl, by simp⟩

/-- what an access does to the word and to the thread keeps the invariant -/
theorem advances_inv (hi : Inv n s) (hn : n < 2 ^ 31) (hpc : s.threads[i]? = some pc) (h : Advances s.state pc a) :
    Inv n ⟨a.state, s.threads.set i a.pc, false⟩ := by
  have hmem := List.mem_of_getElem? hpc
  have hword := hi.word
  cases h with
  | @quiet pc pc' ok hshared hwriter hexclusive hcur =>
    refine replace_inv hi hpc (by rw [hshared, hwriter]) (fun h => Or.inl (hshared ▸ h)) (fun h => Or.inl (hwriter ▸ h))
      (fun h => Or.inl (hexclusive ▸ h)) fun cur heq => ?_
    -- the word that was loaded counts the thread itself
    have heq : pc' = .unlockShared (some cur) := heq
    have hin : pc.isShared = true := by
      rw [← hshared, heq]
      rfl
    rw [hcur cur heq, BitVec.lt_def, hi.mask hn]
    exact List.countP_pos_iff.2 ⟨pc, hmem, hin⟩
  | readerIn hfree =>
    refine replace_inv hi hpc ?_ (fun _ => Or.inr (hi.free hfree)) (fun h => by cases h) (fun h => by cases h) (by simp)
    have hadd : (s.state + 1).toNat = s.state.toNat + 1 := by
      rw [BitVec.toNat_add]
      exact Nat.mod_eq_of_lt (by simp; omega)
    rw [hadd]
    rfl
  | readerOut =>
    refine replace_inv hi hpc ?_ (fun h => by cases h) (fun h => by cases h) (fun h => by cases h) (by simp)
    have hpos : 0 < readers s := List.countP_pos_iff.2 ⟨_, hmem, rfl⟩
    have hsub : (s.state - 1).toNat = s.state.toNat - 1 := BitVec.toNat_sub_of_le (by rw [BitVec.le_def]; simp; omega)
    rw [hsub]
    show s.state.toNat - 1 + 1 = s.state.toNat
    omega
  | writerIn hshared hwriter hfree =>
    refine replace_inv hi hpc ?_ (fun h => by cases h) (fun _ => Or.inr (hi.free hfree)) (fun h => by cases h) (by simp)
    rw [flag_or_toNat hfree, hshared, hwriter]
    simp only [Pc.isShared, Pc.isWriter, Bool.toNat_true, Bool.toNat_false]
    omega
  | drained hnone =>
    refine replace_inv hi hpc rfl (fun h => by cases h) (fun _ => Or.inl rfl) (fun _ => Or.inr ?_) (by simp)
    rw [← hi.mask hn, hnone]
    rfl
  | writerOut =>
    refine replace_inv hi hpc ?_ (fun h => by cases h) (fun h => by cases h) (fun h => by cases h) (by simp)
    obtain ⟨hnone, hlone⟩ := hi.exclusive hpc rfl
    rw [hword, hnone, hlone]
    rfl

theorem step_inv (hn : n < 2 ^ 31) (hi : Inv n s) (h : (machine n).step s o = some t) : Inv n t := by
  cases o with
  | begin i c =>
    obtain ⟨pc, hpc, hbegin⟩ := Option.bind_eq_some_iff.1 h
    obtain ⟨pc', henter, rfl⟩ := Option.map_eq_some_iff.1 hbegin
    obtain ⟨hshared, hwriter, hexclusive, hcur⟩ := enter_quiet henter
    have hstate : Inv n ⟨s.state, s.threads.set i pc', false⟩ :=
      replace_inv hi hpc (by rw [hshared, hwriter]) (fun h => Or.inl (hshared ▸ h)) (fun h => Or.inl (hwriter ▸ h))
        (fun h => Or.inl (hexclusive ▸ h)) fun cur heq => absurd heq (hcur cur)
    rw [← hi.checked] at hstate
    exact hstate
  | step i =>
    obtain ⟨pc, hpc, hstep⟩ := Option.bind_eq_some_iff.1 h
    obtain ⟨a, hadvance, rfl⟩ := Option.map_eq_some_iff.1 hstep
    rw [hi.checked, advance_ok hadvance (hi.dcheck hpc)]
    exact advances_inv hi hn hpc (advance_cases hadvance)

theorem inv_init (n : ℕ) : Inv n (machine n).init := by
  refine ⟨List.length_replicate, ?_, ?_, fun pc hpc hexcl => ?_, fun cur hcur => ?_, rfl⟩
  · simp [machine, readers, writers, List.countP_replicate, Pc.isShared, Pc.isWriter]
  · simp [machine, writers, List.countP_replicate, Pc.isWriter]
  · rw [List.eq_of_mem_replicate hpc] at hexcl
    cases hexcl
  · cases List.eq_of_mem_replicate hcur

theorem run_inv {ops : List Op} (hn : n < 2 ^ 31) (hrun : (machine n).run (machine n).init ops = some s) : Inv n s :=
  Machine.run_inv (fun _ _ _ hi h => step_inv hn hi h) (inv_init n) hrun

/-! ## Mutual exclusion -/

/-- a thread that holds exclusively has no reader and no other writer beside it -/
theorem Inv.excludes {pc' : Pc} (hi : Inv n s) (hij : j ≠ i) (hpc : s.threads[i]? = some pc)
    (hpc' : s.threads[j]? = some pc') (hexcl : pc.isExclusive = true) : pc'.isShared = false ∧ pc'.isWriter = false := by
  obtain ⟨hnone, hlone⟩ := hi.exclusive hpc hexcl
  constructor
  · by_contra hin
    have hpos : 0 < readers s := List.countP_pos_iff.2 ⟨pc', List.mem_of_getElem? hpc', Bool.eq_true_of_not_eq_false hin⟩
    exact absurd hnone hpos.ne'
  · exact slot_unique hpc hlone.le (Pc.isExclusive_writer hexcl) hpc' hij

/-- the flag is set exactly when a writer holds or drains -/
theorem Inv.flagged (hi : Inv n s) :
    s.state.toNat = readers s + if ∃ pc ∈ s.threads, pc.isWriter = true then 2 ^ 31 else 0 := by
  rw [hi.word]
  split_ifs with hw
  · have hlone : writers s = 1 := Nat.le_antisymm hi.one (List.countP_pos_iff.2 hw)
    rw [hlone, Nat.mul_one]
  · have hnone : writers s = 0 := List.countP_eq_zero.2 fun pc hpc h => hw ⟨pc, hpc, h⟩
    rw [hnone, Nat.mul_zero]

/-- **Mutual exclusion**, for fewer than `2 ^ 31` threads: who holds exclusively excludes the others, the word is what the
holders make it, and the store of `unlock` finds the flag and nobody else's registration. -/
theorem mutual_exclusion {ops : List Op} (hn : n < 2 ^ 31) (hrun : (machine n).run (machine n).init ops = some s) :
    (∀ (i j : ℕ) (pc pc' : Pc), j ≠ i → s.threads[i]? = some pc → s.threads[j]? = some pc' → pc.isExclusive = true →
      pc'.isShared = false ∧ pc'.isWriter = false) ∧
    (s.state.toNat = readers s + if ∃ pc ∈ s.threads, pc.isWriter = true then 2 ^ 31 else 0) ∧
    (∀ i : ℕ, s.threads[i]? = some (.unlock true) → s.state = kWriteFlag ∧
      (∀ (j : ℕ) (pc : Pc), j ≠ i → s.threads[j]? = some pc → pc.isShared = false ∧ pc.isWriter = false) ∧
      (machine n).step s (.step i) = some ⟨0, s.threads.set i .idle, false⟩) ∧
    s.checkFailed = false := by
  have hi := run_inv hn hrun
  refine ⟨fun i j pc pc' hij hpc hpc' hexcl => hi.excludes hij hpc hpc' hexcl, hi.flagged, fun i hpc => ?_, hi.checked⟩
  obtain ⟨hnone, hlone⟩ := hi.exclusive hpc rfl
  refine ⟨?_, fun j pc hij hpc' => hi.excludes hij hpc hpc' rfl, ?_⟩
  · apply BitVec.eq_of_toNat_eq
    rw [hi.word, hnone, hlone, flag_toNat, Nat.zero_add, Nat.mul_one]
  · simp [machine, hpc, advance, hi.checked]

/-- a writer that drains while a reader leaves, and then unlocks -/
theorem mutual_exclusion_twoThreads :
    ∃ s, (machine 2).run (machine 2).init [.begin 0 .lockShared, .step 0, .step 0, .begin 1 .lock, .step 1, .step 1,
        .step 1, .begin 0 .unlockShared, .step 0, .step 0, .step 1, .begin 1 .unlock, .step 1] = some s ∧
      s.threads = [.idle, .unlock true] ∧ s.state = kWriteFlag := by
  refine ⟨_, rfl, by decide, ?_⟩
  exact ((mutual_exclusion (by norm_num) (rfl : (machine 2).run (machine 2).init [.begin 0 .lockShared, .step 0, .step 0,
    .begin 1 .lock, .step 1, .step 1, .step 1, .begin 0 .unlockShared, .step 0, .step 0, .step 1, .begin 1 .unlock,
    .step 1] = some _)).2.2.1 1 (by decide)).1

end Bboy.RwSemaphore
