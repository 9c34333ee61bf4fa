/-
Lean model of `Thread` (`bboy/base/thread/thread.cc`): how `StartThread` and the new thread agree on one `tid_` word, and who
keeps the object alive.

A step is one access to the object: a store, a load of a spin loop, the taking or the dropping of a reference. `ext` counts
the references of all other threads, the holder's included. They copy and drop them and join at any time, and a joiner keeps
its reference for the call. The user functor can take references as well.

- `Handshake`: the four phases of the parent and the child, and what `tid_` is in each.
- `Inv`: the reference count is the number of those who hold one.
- `start_handshake`: the functor runs only when the thread is joinable and in the holder; `StartThread` returns OK only when
  `tid_` is the child's; whoever takes a step finds the object alive.
Witness: `start_handshake_noHolder`.
-/
import Bboy.Core.Machine
import Bboy.Core.Slots

namespace Bboy.Thread

open Core

/-! ## The object and its users -/

def CHILD_WAITING_TID : ℤ := -2

def PARENT_WAITING_TID : ℤ := -3

/-- what `StartThread` does next; the flag says whether `pthread_create` succeeded -/
inductive ParentPc where
  | create
  | setJoinable
  | storeHolder
  | storeTid
  | spin
  | log
  | release (ok : Bool)
  | returned (ok : Bool)
  deriving DecidableEq, Repr

/-- what `SuperviseThread` and `FinishThread` do next -/
inductive ChildPc where
  | absent
  | start
  | addRef
  | spin
  | storeTid
  | register
  | functor
  | callbacks
  | removeThread
  | countDown
  | log
  | release
  | exited
  deriving DecidableEq, Repr

/-- what a `Join` does next -/
inductive JoinPc where
  | check
  | waitFor
  | pthreadJoin
  | clear
  deriving DecidableEq, Repr

structure St where
  refCount : ℤ
  tid : ℤ
  joinable : Bool
  done : Bool
  destroyed : Bool
  detached : Bool
  joined : Bool
  stored : Bool
  systemTid : ℤ
  parent : ParentPc
  child : ChildPc
  ext : ℕ
  joiners : List JoinPc
  deriving DecidableEq, Repr

inductive Op where
  | parent
  | createFails
  | currentThreadId (systemTid : ℤ)
  | child
  | copy
  | drop
  | join
  | joiner (i : ℕ)
  | giveUp (i : ℕ)
  deriving DecidableEq, Repr

/-- AddRef -/
def addRef (s : St) : St := { s with refCount := s.refCount + 1 }

/-- Release, with the destructor when it was the last reference -/
def release (s : St) : St :=
  if s.refCount - 1 = 0 then { s with refCount := s.refCount - 1, destroyed := true, detached := s.joinable }
  else { s with refCount := s.refCount - 1 }

/-- the next step of `StartThread` -/
def parentStep (holder : Bool) (s : St) : Option St :=
  match s.parent with
  | .create => some { s with parent := .setJoinable, child := .start }
  | .setJoinable => some { s with parent := if holder then .storeHolder else .storeTid, joinable := true }
  | .storeHolder => some { addRef s with parent := .storeTid, ext := s.ext + 1, stored := true }
  | .storeTid => some { s with parent := .spin, tid := PARENT_WAITING_TID }
  | .spin => some (if s.tid = PARENT_WAITING_TID then s else { s with parent := .log })
  | .log => some { s with parent := .release true }
  | .release ok => some (release { s with parent := .returned ok })
  | .returned _ => none

/-- the next step of the new thread; its first one is `currentThreadId` -/
def childStep (s : St) : Option St :=
  match s.child with
  | .absent | .start | .exited => none
  | .addRef => some { addRef s with child := .spin }
  | .spin => some (if s.tid = CHILD_WAITING_TID then s else { s with child := .storeTid })
  | .storeTid => some { s with child := .register, tid := s.systemTid }
  | .register => some { s with child := .functor }
  -- by a return or by pthread_exit
  | .functor => some { s with child := .callbacks }
  | .callbacks => some { s with child := .removeThread }
  | .removeThread => some { s with child := .countDown }
  | .countDown => some { s with child := .log, done := true }
  | .log => some { s with child := .release }
  | .release => some (release { s with child := .exited })

/-- the joiner `i` returns and its caller has the reference again -/
def joinReturns (s : St) (i : ℕ) : St := { s with joiners := s.joiners.eraseIdx i, ext := s.ext + 1 }

/-- the next step of joiner `i` -/
def joinStep (s : St) (i : ℕ) : JoinPc → Option St
  | .check => some (if s.joinable then { s with joiners := s.joiners.set i .waitFor } else joinReturns s i)
  | .waitFor => if s.done then some { s with joiners := s.joiners.set i .pthreadJoin } else none
  -- blocks until the thread has exited; a thread is joined once
  | .pthreadJoin =>
    if s.child = .exited ∧ s.joined = false then some { s with joiners := s.joiners.set i .clear, joined := true }
    else none
  | .clear => some { joinReturns s i with joinable := false }

/-- user code runs on the new thread -/
def ChildPc.inUserCode : ChildPc → Bool
  | .functor | .callbacks => true
  | _ => false

def machine (holder : Bool) : Machine St Op where
  init :=
    { refCount := 1, tid := CHILD_WAITING_TID, joinable := false, done := false, destroyed := false, detached := false
      joined := false, stored := false, systemTid := 0, parent := .create, child := .absent, ext := 0, joiners := [] }
  step s
    | .parent => parentStep holder s
    | .createFails => if s.parent = .create then some { s with parent := .release false } else none
    | .currentThreadId systemTid =>
      if s.child = .start then some { s with child := .addRef, systemTid := systemTid } else none
    | .child => childStep s
    | .copy => if 0 < s.ext ∨ s.child.inUserCode then some { addRef s with ext := s.ext + 1 } else none
    | .drop => if 0 < s.ext then some (release { s with ext := s.ext - 1 }) else none
    | .join => if 0 < s.ext then some { s with ext := s.ext - 1, joiners := s.joiners ++ [.check] } else none
    | .joiner i => s.joiners[i]?.bind (joinStep s i)
    | .giveUp i => s.joiners[i]?.bind fun pc =>
        if pc = .check ∨ pc = .waitFor then some (joinReturns s i) else none

/-! ## The phases of the handshake -/

/-- before the child's thread, or without one -/
def ParentPc.isAlone : ParentPc → Bool
  | .create | .release false | .returned false => true
  | _ => false

def ParentPc.isPreparing : ParentPc → Bool
  | .setJoinable | .storeHolder | .storeTid => true
  | _ => false

/-- in the spin loop or past it -/
def ParentPc.isReady : ParentPc → Bool
  | .spin | .log | .release true | .returned true => true
  | _ => false

def ChildPc.isStarting : ChildPc → Bool
  | .start | .addRef | .spin => true
  | _ => false

/-- past the store of its tid -/
def ChildPc.hasStored : ChildPc → Bool
  | .absent | .start | .addRef | .spin | .storeTid => false
  | _ => true

/-- from the parent, the child, its system tid and `tid_` -/
inductive Handshake : ParentPc → ChildPc → ℤ → ℤ → Prop
  | alone {p systemTid} (hp : p.isAlone = true) : Handshake p .absent systemTid CHILD_WAITING_TID
  | preparing {p c systemTid} (hp : p.isPreparing = true) (hc : c.isStarting = true) :
    Handshake p c systemTid CHILD_WAITING_TID
  | waiting {c systemTid} (hc : c.isStarting = true ∨ c = .storeTid) : Handshake .spin c systemTid PARENT_WAITING_TID
  | stored {p c systemTid} (hp : p.isReady = true) (hc : c.hasStored = true) : Handshake p c systemTid systemTid

/-! ## The references -/

def ParentPc.refs : ParentPc → ℤ
  | .returned _ => 0
  | _ => 1

def ChildPc.refs : ChildPc → ℤ
  | .absent | .start | .addRef | .exited => 0
  | _ => 1

def ParentPc.hasSetJoinable : ParentPc → Bool
  | .storeHolder | .storeTid | .spin | .log | .release true | .returned true => true
  | _ => false

/-- the holder, if there is one, has the thread -/
def ParentPc.hasPublished : ParentPc → Bool
  | .storeTid | .spin | .log | .release true | .returned true => true
  | _ => false

structure Inv (holder : Bool) (s : St) : Prop where
  handshake : Handshake s.parent s.child s.systemTid s.tid
  counted : s.refCount = s.parent.refs + s.child.refs + s.ext + s.joiners.length
  destroyed : s.destroyed = true → s.refCount = 0
  joinable : s.parent.hasSetJoinable = true → s.child ≠ .exited → s.joinable = true
  stored : s.parent.hasPublished = true → holder = true → s.stored = true
  joined : .clear ∈ s.joiners → s.child = .exited

variable {holder : Bool} {s t : St} {o : Op} {i : ℕ} {p p' : ParentPc} {c c' : ChildPc} {systemTid tid : ℤ}

theorem parent_refs_nonneg (p : ParentPc) : 0 ≤ p.refs := by cases p <;> simp [ParentPc.refs]

theorem child_refs_nonneg (c : ChildPc) : 0 ≤ c.refs := by cases c <;> decide

theorem starting_not_stored (hc : c.isStarting = true) : c.hasStored = false := by
  cases c <;> first | rfl | exact Bool.noConfusion hc

theorem preparing_not_alone (hp : p.isPreparing = true) : p.isAlone = false := by
  cases p <;> first | rfl | exact Bool.noConfusion hp

theorem preparing_not_ready (hp : p.isPreparing = true) : p.isReady = false := by
  cases p <;> first | rfl | exact Bool.noConfusion hp

theorem alone_not_ready (hp : p.isAlone = true) : p.isReady = false := by
  cases p with
  | release ok => cases ok <;> first | rfl | exact Bool.noConfusion hp
  | returned ok => cases ok <;> first | rfl | exact Bool.noConfusion hp
  | create => rfl
  | _ => exact Bool.noConfusion hp

theorem preparing_refs (hp : p.isPreparing = true) : p.refs = 1 := by cases p <;> first | rfl | exact Bool.noConfusion hp

/-- until the child has stored its tid, the parent keeps its reference -/
theorem Handshake.early (h : Handshake p c systemTid tid) (hc : c.isStarting = true ∨ c = .storeTid) : p.refs = 1 := by
  cases h with
  | alone => obtain hc | hc := hc <;> exact absurd hc (by decide)
  | preparing hp => exact preparing_refs hp
  | waiting => rfl
  | stored hp hstored =>
    obtain hc | rfl := hc
    · exact Bool.noConfusion (hstored.symm.trans (starting_not_stored hc))
    · exact Bool.noConfusion hstored

/-- the parent goes on after an answer only -/
theorem Handshake.answered (h : Handshake p c systemTid tid) (hp : p.isReady = true)
    (htid : p ≠ .spin ∨ tid ≠ PARENT_WAITING_TID) : c.hasStored = true ∧ tid = systemTid := by
  cases h with
  | alone halone => exact Bool.noConfusion (hp.symm.trans (alone_not_ready halone))
  | preparing hprep => exact Bool.noConfusion (hp.symm.trans (preparing_not_ready hprep))
  | waiting => simp at htid
  | stored _ hc => exact ⟨hc, rfl⟩

/-- a child that stores its tid has a parent in the spin loop -/
theorem Handshake.storing (h : Handshake p .storeTid systemTid tid) : p.isReady = true := by
  cases h with
  | preparing _ hc => exact Bool.noConfusion hc
  | waiting => rfl
  | stored _ hc => exact Bool.noConfusion hc

/-- a parent without a child's thread -/
theorem Handshake.unstarted (h : Handshake p c systemTid tid) (hp : p.isAlone = true) :
    c = .absent ∧ tid = CHILD_WAITING_TID := by
  cases h with
  | alone => exact ⟨rfl, rfl⟩
  | preparing hprep => exact Bool.noConfusion (hp.symm.trans (preparing_not_alone hprep))
  | waiting => exact Bool.noConfusion hp
  | stored hready => exact Bool.noConfusion (hready.symm.trans (alone_not_ready hp))

/-- and the child after a question -/
theorem Handshake.asked (h : Handshake p .spin systemTid tid) (htid : tid ≠ CHILD_WAITING_TID) :
    p = .spin ∧ tid = PARENT_WAITING_TID := by
  cases h with
  | preparing => exact absurd rfl htid
  | waiting => exact ⟨rfl, rfl⟩
  | stored _ hc => exact Bool.noConfusion hc

/-- a child past its store moves on -/
theorem Handshake.child_later (h : Handshake p c systemTid tid) (hc : c.hasStored = true) (hc' : c'.hasStored = true) :
    Handshake p c' systemTid tid := by
  cases h with
  | alone => exact Bool.noConfusion hc
  | preparing _ hstart => exact Bool.noConfusion (hc.symm.trans (starting_not_stored hstart))
  | waiting hwait =>
    obtain hwait | rfl := hwait
    · exact Bool.noConfusion (hc.symm.trans (starting_not_stored hwait))
    · exact Bool.noConfusion hc
  | stored hp => exact Handshake.stored hp hc'

/-- so does a child before it -/
theorem Handshake.child_early (h : Handshake p c systemTid tid) (hc : c.isStarting = true) (hc' : c'.isStarting = true)
    (systemTid' : ℤ) : Handshake p c' systemTid' tid := by
  cases h with
  | alone => exact Bool.noConfusion hc
  | preparing hp => exact Handshake.preparing hp hc'
  | waiting => exact Handshake.waiting (Or.inl hc')
  | stored _ hstored => exact Bool.noConfusion (hstored.symm.trans (starting_not_stored hc))

/-- a parent that prepares the handshake has asked nothing yet -/
theorem Handshake.prepared (h : Handshake p c systemTid tid) (hp : p.isPreparing = true) :
    c.isStarting = true ∧ tid = CHILD_WAITING_TID := by
  cases h with
  | alone halone => exact Bool.noConfusion (halone.symm.trans (preparing_not_alone hp))
  | preparing _ hc => exact ⟨hc, rfl⟩
  | waiting => exact Bool.noConfusion hp
  | stored hready => exact Bool.noConfusion (hready.symm.trans (preparing_not_ready hp))

/-! ## Steps -/

@[simp] theorem release_refCount : (release s).refCount = s.refCount - 1 := by unfold release; split_ifs <;> rfl
@[simp] theorem release_tid : (release s).tid = s.tid := by unfold release; split_ifs <;> rfl
@[simp] theorem release_systemTid : (release s).systemTid = s.systemTid := by unfold release; split_ifs <;> rfl
@[simp] theorem release_joinable : (release s).joinable = s.joinable := by unfold release; split_ifs <;> rfl
@[simp] theorem release_stored : (release s).stored = s.stored := by unfold release; split_ifs <;> rfl
@[simp] theorem release_parent : (release s).parent = s.parent := by unfold release; split_ifs <;> rfl
@[simp] theorem release_child : (release s).child = s.child := by unfold release; split_ifs <;> rfl
@[simp] theorem release_ext : (release s).ext = s.ext := by unfold release; split_ifs <;> rfl
@[simp] theorem release_joiners : (release s).joiners = s.joiners := by unfold release; split_ifs <;> rfl

theorem release_destroyed (h : s.destroyed = false) (hd : (release s).destroyed = true) : (release s).refCount = 0 := by
  rw [release_refCount]
  by_contra hne
  rw [release, if_neg hne] at hd
  exact Bool.noConfusion (h.symm.trans hd)

/-- whoever holds a reference finds the object alive -/
theorem Inv.live (h : Inv holder s) (href : 0 < s.parent.refs + s.child.refs + s.ext + s.joiners.length) :
    0 < s.refCount ∧ s.destroyed = false := by
  rw [← h.counted] at href
  refine ⟨href, ?_⟩
  by_contra hd
  exact href.ne' (h.destroyed (Bool.eq_true_of_not_eq_false hd))

theorem Inv.live_parent (h : Inv holder s) (hp : s.parent.refs = 1) : 0 < s.refCount ∧ s.destroyed = false := by
  have hc := child_refs_nonneg s.child
  apply h.live
  omega

theorem Inv.live_child (h : Inv holder s) (hc : s.child.refs = 1) : 0 < s.refCount ∧ s.destroyed = false := by
  have hp := parent_refs_nonneg s.parent
  apply h.live
  omega

theorem Inv.live_others (h : Inv holder s) (hothers : 0 < s.ext ∨ 0 < s.joiners.length) :
    0 < s.refCount ∧ s.destroyed = false := by
  have hp := parent_refs_nonneg s.parent
  have hc := child_refs_nonneg s.child
  apply h.live
  omega

theorem live_parentStep (h : Inv holder s) (hst : parentStep holder s = some t) : 0 < s.refCount ∧ s.destroyed = false := by
  apply h.live_parent
  unfold parentStep at hst
  cases hp : s.parent with
  | returned ok => simp [hp] at hst
  | _ => rfl

theorem live_childStep (h : Inv holder s) (hst : childStep s = some t) : 0 < s.refCount ∧ s.destroyed = false := by
  unfold childStep at hst
  cases hc : s.child with
  | absent => simp [hc] at hst
  | start => simp [hc] at hst
  | exited => simp [hc] at hst
  | addRef => exact h.live_parent (h.handshake.early (Or.inl (by rw [hc]; rfl)))
  | _ => exact h.live_child (by rw [hc]; rfl)

/-- **Every step is taken by somebody who has a reference, or whose parent has.** -/
theorem live_step (h : Inv holder s) (hst : (machine holder).step s o = some t) : 0 < s.refCount ∧ s.destroyed = false := by
  have hjoiner : ∀ (i : ℕ) (pc : JoinPc), s.joiners[i]? = some pc → 0 < s.joiners.length := by
    intro i pc hi
    exact Nat.zero_lt_of_lt (List.getElem?_eq_some_iff.1 hi).1
  cases o with
  | parent => exact live_parentStep h hst
  | createFails =>
    dsimp only [machine] at hst
    split_ifs at hst with hp
    exact h.live_parent (by rw [hp]; rfl)
  | currentThreadId systemTid =>
    dsimp only [machine] at hst
    split_ifs at hst with hc
    exact h.live_parent (h.handshake.early (Or.inl (by rw [hc]; rfl)))
  | child => exact live_childStep h hst
  | copy =>
    dsimp only [machine] at hst
    split_ifs at hst with hcopy
    obtain hext | huser := hcopy
    · exact h.live_others (Or.inl hext)
    · refine h.live_child ?_
      revert huser
      cases s.child <;> simp [ChildPc.inUserCode, ChildPc.refs]
  | drop =>
    dsimp only [machine] at hst
    split_ifs at hst with hext
    exact h.live_others (Or.inl hext)
  | join =>
    dsimp only [machine] at hst
    split_ifs at hst with hext
    exact h.live_others (Or.inl hext)
  | joiner i =>
    obtain ⟨pc, hi, -⟩ := Option.bind_eq_some_iff.1 hst
    exact h.live_others (Or.inr (hjoiner i pc hi))
  | giveUp i =>
    obtain ⟨pc, hi, -⟩ := Option.bind_eq_some_iff.1 hst
    exact h.live_others (Or.inr (hjoiner i pc hi))

/-! ## The invariant -/

/-- the object, as the handshake does not see it: its count is that of the references, and it is destroyed with the last -/
theorem Inv.release (h : Inv holder s) (p : ParentPc) (c : ChildPc) (ext : ℕ) (hlive : s.destroyed = false)
    (hs : Handshake p c s.systemTid s.tid) (hrefs : p.refs + c.refs + ext + 1 = s.parent.refs + s.child.refs + s.ext)
    (hjoinable : p.hasSetJoinable = true → s.parent.hasSetJoinable = true)
    (hpublished : p.hasPublished = true → s.parent.hasPublished = true) (hexit : s.child = .exited → c = .exited) :
    Inv holder (release { s with parent := p, child := c, ext := ext }) := by
  constructor
  · simpa using hs
  · rw [release_refCount, release_parent, release_child, release_ext, release_joiners]
    have hcounted := h.counted
    dsimp only
    omega
  · exact release_destroyed hlive
  · intro hp hc
    rw [release_parent, release_child] at *
    rw [release_joinable]
    exact h.joinable (hjoinable hp) fun hexited => hc (hexit hexited)
  · intro hp hh
    rw [release_parent] at hp
    rw [release_stored]
    exact h.stored (hpublished hp) hh
  · intro hclear
    rw [release_joiners] at hclear
    rw [release_child]
    exact hexit (h.joined hclear)

/-- the parent moves on, and `tid_` with it -/
theorem Inv.parent_moves (h : Inv holder s) (p : ParentPc) (tid : ℤ) (hs : Handshake p s.child s.systemTid tid)
    (hrefs : p.refs = s.parent.refs) (hjoinable : p.hasSetJoinable = true → s.parent.hasSetJoinable = true)
    (hpublished : p.hasPublished = true → s.parent.hasPublished = true) :
    Inv holder { s with parent := p, tid := tid } := by
  constructor
  · exact hs
  · dsimp only
    rw [hrefs]
    exact h.counted
  · exact h.destroyed
  · exact fun hp => h.joinable (hjoinable hp)
  · exact fun hp => h.stored (hpublished hp)
  · exact h.joined

/-- the child moves on -/
theorem Inv.child_moves (h : Inv holder s) (c : ChildPc) (systemTid tid : ℤ) (done : Bool)
    (hs : Handshake s.parent c systemTid tid) (hrefs : c.refs = s.child.refs) (hexit : s.child ≠ .exited) :
    Inv holder { s with child := c, systemTid := systemTid, tid := tid, done := done } := by
  constructor
  · exact hs
  · dsimp only
    rw [hrefs]
    exact h.counted
  · exact h.destroyed
  · exact fun hp _ => h.joinable hp hexit
  · exact h.stored
  · exact fun hclear => absurd (h.joined hclear) hexit

theorem inv_setJoinable (h : Inv holder s) (hp : s.parent = .setJoinable) :
    Inv holder { s with parent := if holder then .storeHolder else .storeTid, joinable := true } := by
  have hs := h.handshake
  rw [hp] at hs
  obtain ⟨hc, htid⟩ := hs.prepared rfl
  have hcounted := h.counted
  rw [hp] at hcounted
  constructor
  · dsimp only
    rw [htid]
    apply Handshake.preparing _ hc
    split_ifs <;> rfl
  · dsimp only
    split_ifs <;> exact hcounted
  · exact h.destroyed
  · exact fun _ _ => rfl
  · intro hpub hholder
    dsimp only at hpub
    rw [if_pos hholder] at hpub
    exact Bool.noConfusion hpub
  · exact h.joined

theorem inv_storeHolder (h : Inv holder s) (hp : s.parent = .storeHolder) :
    Inv holder { addRef s with parent := .storeTid, ext := s.ext + 1, stored := true } := by
  have hs := h.handshake
  rw [hp] at hs
  obtain ⟨hc, htid⟩ := hs.prepared rfl
  have hcounted := h.counted
  rw [hp] at hcounted
  have hlive := (h.live_parent (by rw [hp]; rfl)).2
  constructor
  · dsimp only [addRef]
    rw [htid]
    exact Handshake.preparing rfl hc
  · dsimp only [addRef, ParentPc.refs] at hcounted ⊢
    push_cast
    omega
  · exact fun hd => Bool.noConfusion (hlive.symm.trans hd)
  · exact fun _ hc => h.joinable (by rw [hp]; rfl) hc
  · exact fun _ _ => rfl
  · exact h.joined

theorem inv_create (h : Inv holder s) (hp : s.parent = .create) :
    Inv holder { s with parent := .setJoinable, child := .start } := by
  have hs := h.handshake
  rw [hp] at hs
  obtain ⟨hc, htid⟩ := hs.unstarted rfl
  have hcounted := h.counted
  rw [hp, hc] at hcounted
  constructor
  · dsimp only
    rw [htid]
    exact Handshake.preparing rfl rfl
  · exact hcounted
  · exact h.destroyed
  · exact fun hset => Bool.noConfusion hset
  · exact fun hpub => Bool.noConfusion hpub
  · exact fun hclear => absurd (hc.symm.trans (h.joined hclear)) ChildPc.noConfusion

theorem inv_parentRelease (h : Inv holder s) {ok : Bool} (hp : s.parent = .release ok) :
    Inv holder (release { s with parent := .returned ok }) := by
  have hs := h.handshake
  have hlive := (h.live_parent (by rw [hp]; rfl)).2
  rw [hp] at hs
  have hs' : Handshake (.returned ok) s.child s.systemTid s.tid := by
    cases ok with
    | false =>
      obtain ⟨hc, htid⟩ := hs.unstarted rfl
      rw [hc, htid]
      exact Handshake.alone rfl
    | true =>
      obtain ⟨hc, htid⟩ := hs.answered rfl (Or.inl ParentPc.noConfusion)
      rw [htid]
      exact Handshake.stored rfl hc
  refine h.release (.returned ok) s.child s.ext hlive hs' ?_ ?_ ?_ id
  · rw [hp]
    simp only [ParentPc.refs]
    omega
  · rw [hp]
    cases ok <;> exact id
  · rw [hp]
    cases ok <;> exact id

theorem inv_parentStep (h : Inv holder s) (hst : parentStep holder s = some t) : Inv holder t := by
  have hs := h.handshake
  unfold parentStep at hst
  cases hp : s.parent with
  | create =>
    rw [hp] at hst
    cases hst
    exact inv_create h hp
  | setJoinable =>
    rw [hp] at hst
    cases hst
    exact inv_setJoinable h hp
  | storeHolder =>
    rw [hp] at hst
    cases hst
    exact inv_storeHolder h hp
  | storeTid =>
    rw [hp] at hst hs
    cases hst
    obtain ⟨hc, -⟩ := hs.prepared rfl
    apply h.parent_moves .spin _ (Handshake.waiting (Or.inl hc)) <;> simp [hp, ParentPc.refs, ParentPc.hasPublished,
      ParentPc.hasSetJoinable]
  | spin =>
    rw [hp] at hst hs
    cases hst
    split_ifs with htid
    · exact h
    · obtain ⟨hc, heq⟩ := hs.answered rfl (Or.inr htid)
      have hs' : Handshake .log s.child s.systemTid s.tid := heq ▸ Handshake.stored rfl hc
      apply h.parent_moves .log _ hs' <;> simp [hp, ParentPc.refs, ParentPc.hasPublished, ParentPc.hasSetJoinable]
  | log =>
    rw [hp] at hst hs
    cases hst
    obtain ⟨hc, heq⟩ := hs.answered rfl (Or.inl ParentPc.noConfusion)
    have hs' : Handshake (.release true) s.child s.systemTid s.tid := heq ▸ Handshake.stored rfl hc
    apply h.parent_moves (.release true) _ hs' <;> simp [hp, ParentPc.refs, ParentPc.hasPublished,
      ParentPc.hasSetJoinable]
  | release ok =>
    rw [hp] at hst
    cases hst
    exact inv_parentRelease h hp
  | returned ok => simp [hp] at hst

theorem inv_createFails (h : Inv holder s) (hp : s.parent = .create) :
    Inv holder { s with parent := .release false } := by
  have hs := h.handshake
  rw [hp] at hs
  obtain ⟨hc, htid⟩ := hs.unstarted rfl
  have hs' : Handshake (.release false) s.child s.systemTid s.tid := by
    rw [hc, htid]
    exact Handshake.alone rfl
  apply h.parent_moves (.release false) s.tid hs' <;> simp [hp, ParentPc.refs, ParentPc.hasPublished,
    ParentPc.hasSetJoinable]

/-- a step of the child past its store -/
theorem Inv.child_later (h : Inv holder s) (c : ChildPc) (done : Bool) (hstored : s.child.hasStored = true)
    (hstored' : c.hasStored = true) (hrefs : c.refs = s.child.refs) (hexit : s.child ≠ .exited) :
    Inv holder { s with child := c, done := done } :=
  h.child_moves c s.systemTid s.tid done (h.handshake.child_later hstored hstored') hrefs hexit

theorem inv_addRef (h : Inv holder s) (hc : s.child = .addRef) : Inv holder { addRef s with child := .spin } := by
  have hs := h.handshake
  have hcounted := h.counted
  rw [hc] at hs hcounted
  have hlive := (h.live_parent (h.handshake.early (Or.inl (by rw [hc]; rfl)))).2
  constructor
  · exact hs.child_early rfl rfl _
  · dsimp only [addRef, ChildPc.refs] at hcounted ⊢
    omega
  · exact fun hd => Bool.noConfusion (hlive.symm.trans hd)
  · exact fun hset _ => h.joinable hset (by rw [hc]; exact ChildPc.noConfusion)
  · exact h.stored
  · exact fun hclear => absurd (hc.symm.trans (h.joined hclear)) ChildPc.noConfusion

theorem inv_childRelease (h : Inv holder s) (hc : s.child = .release) :
    Inv holder (release { s with child := .exited }) := by
  have hs' : Handshake s.parent .exited s.systemTid s.tid := h.handshake.child_later (by rw [hc]; rfl) rfl
  refine h.release s.parent .exited s.ext (h.live_child (by rw [hc]; rfl)).2 hs' ?_ id id fun _ => rfl
  rw [hc]
  simp only [ChildPc.refs]
  omega

theorem inv_childStep (h : Inv holder s) (hst : childStep s = some t) : Inv holder t := by
  have hs := h.handshake
  unfold childStep at hst
  cases hc : s.child with
  | absent => simp [hc] at hst
  | start => simp [hc] at hst
  | exited => simp [hc] at hst
  | addRef =>
    rw [hc] at hst
    cases hst
    exact inv_addRef h hc
  | spin =>
    rw [hc] at hst hs
    cases hst
    split_ifs with htid
    · exact h
    · obtain ⟨hp, heq⟩ := hs.asked htid
      have hs' : Handshake s.parent .storeTid s.systemTid s.tid := by
        rw [hp, heq]
        exact Handshake.waiting (Or.inr rfl)
      exact h.child_moves .storeTid _ _ _ hs' (by rw [hc]; rfl) (by rw [hc]; exact ChildPc.noConfusion)
  | storeTid =>
    rw [hc] at hst hs
    cases hst
    have hs' : Handshake s.parent .register s.systemTid s.systemTid := Handshake.stored (hs.storing) rfl
    exact h.child_moves .register _ _ _ hs' (by rw [hc]; rfl) (by rw [hc]; exact ChildPc.noConfusion)
  | release =>
    rw [hc] at hst
    cases hst
    exact inv_childRelease h hc
  | _ =>
    rw [hc] at hst
    cases hst
    exact h.child_later _ _ (by rw [hc]; rfl) rfl (by rw [hc]; rfl) (by rw [hc]; exact ChildPc.noConfusion)

/-- other threads take and drop references and join -/
theorem Inv.others (h : Inv holder s) (refCount : ℤ) (ext : ℕ) (joiners : List JoinPc) (joinable joined : Bool)
    (hlive : s.destroyed = false) (hcounted : refCount - ext - joiners.length = s.refCount - s.ext - s.joiners.length)
    (hjoinable : joinable = s.joinable ∨ s.child = .exited) (hclear : .clear ∈ joiners → s.child = .exited) :
    Inv holder { s with refCount := refCount, ext := ext, joiners := joiners, joinable := joinable, joined := joined } := by
  constructor
  · exact h.handshake
  · have hold := h.counted
    dsimp only
    omega
  · exact fun hd => Bool.noConfusion (hlive.symm.trans hd)
  · intro hset hexit
    exact (hjoinable.resolve_right hexit).trans (h.joinable hset hexit)
  · exact h.stored
  · exact hclear

theorem inv_joinReturns (h : Inv holder s) {pc : JoinPc} (hi : s.joiners[i]? = some pc) (joinable : Bool)
    (hjoinable : joinable = s.joinable ∨ s.child = .exited) : Inv holder { joinReturns s i with joinable := joinable } := by
  have hlt := (List.getElem?_eq_some_iff.1 hi).1
  refine h.others s.refCount (s.ext + 1) (s.joiners.eraseIdx i) joinable s.joined (h.live_others (Or.inr (by omega))).2 ?_
    hjoinable fun hclear => h.joined ((List.eraseIdx_sublist _ _).subset hclear)
  have hlength := slot_length hi
  push_cast
  omega

theorem inv_joinSet (h : Inv holder s) {pc pc' : JoinPc} (hi : s.joiners[i]? = some pc) (joined : Bool)
    (hclear : pc' = .clear → s.child = .exited) :
    Inv holder { s with joiners := s.joiners.set i pc', joined := joined } := by
  have hlt := (List.getElem?_eq_some_iff.1 hi).1
  refine h.others s.refCount s.ext (s.joiners.set i pc') s.joinable joined (h.live_others (Or.inr (by omega))).2
    (by rw [List.length_set]) (Or.inl rfl) fun hmem => ?_
  obtain hold | hnew := List.mem_or_eq_of_mem_set hmem
  · exact h.joined hold
  · exact hclear hnew.symm

theorem inv_joinStep (h : Inv holder s) {pc : JoinPc} (hi : s.joiners[i]? = some pc) (hst : joinStep s i pc = some t) :
    Inv holder t := by
  cases pc with
  | check =>
    cases hst
    split_ifs with hjoinable
    · exact inv_joinSet h hi s.joined fun hpc => absurd hpc JoinPc.noConfusion
    · exact inv_joinReturns h hi s.joinable (Or.inl rfl)
  | waitFor =>
    dsimp only [joinStep] at hst
    split_ifs at hst
    cases hst
    exact inv_joinSet h hi s.joined fun hpc => absurd hpc JoinPc.noConfusion
  | pthreadJoin =>
    dsimp only [joinStep] at hst
    split_ifs at hst with hexited
    cases hst
    exact inv_joinSet h hi true fun _ => hexited.1
  | clear =>
    cases hst
    exact inv_joinReturns h hi false (Or.inr (h.joined (List.mem_of_getElem? hi)))

theorem inv_step (h : Inv holder s) (hst : (machine holder).step s o = some t) : Inv holder t := by
  have hlive := (live_step h hst).2
  cases o with
  | parent => exact inv_parentStep h hst
  | createFails =>
    dsimp only [machine] at hst
    split_ifs at hst with hp
    cases hst
    exact inv_createFails h hp
  | currentThreadId systemTid =>
    dsimp only [machine] at hst
    split_ifs at hst with hc
    cases hst
    have hs' : Handshake s.parent .addRef systemTid s.tid := h.handshake.child_early (by rw [hc]; rfl) rfl systemTid
    exact h.child_moves .addRef systemTid s.tid s.done hs' (by rw [hc]; rfl) (by rw [hc]; exact ChildPc.noConfusion)
  | child => exact inv_childStep h hst
  | copy =>
    dsimp only [machine] at hst
    split_ifs at hst
    cases hst
    refine h.others _ _ s.joiners s.joinable s.joined hlive ?_ (Or.inl rfl) h.joined
    push_cast [addRef]
    omega
  | drop =>
    dsimp only [machine] at hst
    split_ifs at hst with hext
    cases hst
    refine h.release s.parent s.child (s.ext - 1) hlive h.handshake ?_ id id id
    omega
  | join =>
    dsimp only [machine] at hst
    split_ifs at hst with hext
    cases hst
    refine h.others s.refCount _ _ s.joinable s.joined hlive ?_ (Or.inl rfl) fun hclear => ?_
    · rw [List.length_append, List.length_singleton]
      push_cast
      omega
    · obtain hold | hnew := List.mem_append.1 hclear
      · exact h.joined hold
      · exact absurd (List.mem_singleton.1 hnew) JoinPc.noConfusion
  | joiner i =>
    obtain ⟨pc, hi, hjoin⟩ := Option.bind_eq_some_iff.1 hst
    exact inv_joinStep h hi hjoin
  | giveUp i =>
    obtain ⟨pc, hi, hgive⟩ := Option.bind_eq_some_iff.1 hst
    split_ifs at hgive
    cases hgive
    exact inv_joinReturns h hi s.joinable (Or.inl rfl)

theorem inv_init : Inv holder (machine holder).init := by
  constructor
  · exact Handshake.alone rfl
  · rfl
  · exact fun hd => Bool.noConfusion hd
  · exact fun hset => Bool.noConfusion hset
  · exact fun hpub => Bool.noConfusion hpub
  · exact fun hclear => absurd hclear List.not_mem_nil

/-! ## Main result -/

/-- the functor has been started -/
def ChildPc.hasStarted : ChildPc → Bool
  | .functor | .callbacks | .removeThread | .countDown | .log | .release | .exited => true
  | _ => false

structure Good (holder : Bool) (s : St) : Prop where
  published : s.child.hasStarted = true → s.parent.hasSetJoinable = true ∧ (holder = true → s.stored = true)
  joinable : s.child.hasStarted = true → s.child ≠ .exited → s.joinable = true
  answered : s.parent = .returned true → s.child.hasStored = true ∧ s.tid = s.systemTid
  alive : ∀ o t, (machine holder).step s o = some t → 0 < s.refCount ∧ s.destroyed = false

theorem started_ready (hs : Handshake p c systemTid tid) (hc : c.hasStarted = true) : p.isReady = true := by
  have hstored : c.hasStored = true := by cases c <;> first | rfl | exact Bool.noConfusion hc
  cases hs with
  | alone => exact Bool.noConfusion hc
  | preparing _ hstart => exact Bool.noConfusion (hstored.symm.trans (starting_not_stored hstart))
  | waiting => rfl
  | stored hp => exact hp

/-- **The handshake at a thread's start.** -/
theorem start_handshake (holder : Bool) (ops : List Op) (s : St)
    (h : (machine holder).run (machine holder).init ops = some s) : Good holder s := by
  have hinv : Inv holder s := Machine.run_inv (fun s o t hi hst => inv_step hi hst) inv_init h
  have hpublished : s.parent.isReady = true → s.parent.hasPublished = true ∧ s.parent.hasSetJoinable = true := by
    cases s.parent with
    | release ok => cases ok <;> decide
    | returned ok => cases ok <;> decide
    | _ => decide
  constructor
  · intro hc
    obtain ⟨hpub, hset⟩ := hpublished (started_ready hinv.handshake hc)
    exact ⟨hset, hinv.stored hpub⟩
  · intro hc
    exact hinv.joinable (hpublished (started_ready hinv.handshake hc)).2
  · intro hp
    have hs := hinv.handshake
    rw [hp] at hs
    exact hs.answered rfl (Or.inl ParentPc.noConfusion)
  · exact fun o t hst => live_step hinv hst

/-- without a holder the child outlives the parent's call and drops the last reference itself -/
theorem start_handshake_noHolder :
    ∃ ops s, (machine false).run (machine false).init ops = some s ∧ s.destroyed = true ∧ s.detached = true ∧
      Good false s := by
  let ops : List Op := [.parent, .parent, .currentThreadId 7, .child, .parent, .child, .child, .parent, .parent, .parent,
    .child, .copy, .child, .drop, .child, .child, .child, .child, .child]
  let s : St :=
    { refCount := 0, tid := 7, joinable := true, done := true, destroyed := true, detached := true, joined := false
      stored := false, systemTid := 7, parent := .returned true, child := .exited, ext := 0, joiners := [] }
  have hrun : (machine false).run (machine false).init ops = some s := by decide +kernel
  exact ⟨ops, s, hrun, rfl, rfl, start_handshake false ops s hrun⟩

end Bboy.Thread
