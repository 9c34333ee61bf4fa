/-
Lean model of `Barrier` (`bboy/base/sync/barrier.h`): threads that wait for each other, cycle after cycle.

A step is one critical section of `mutex_`: the entry of a `Wait` up to its return or its sleep, or a waking thread's look
at the cycle counter. Threads call `Wait` again as soon as their last call has returned, and sleepers may wake on their own.
`completed` counts the cycles without wrapping, and each call keeps the number of its cycle.

- `Inv`: the sleepers belong to the current cycle, which has `count_` calls to go; each cycle before it had all its calls.
- `barrier_reusable`: below 2^32 cycles, a returned call had `n` threads in its cycle, `count_` is between 1 and `n`, and a
  call of a completed cycle has been notified and returns when it looks at the counter.
Witness: `barrier_reusable_overlap`.
-/
import Bboy.Core.Machine
import Bboy.Core.Waiters

namespace Bboy.Barrier

open Core

/-! ## The barrier -/

/-- where a call of `Wait` is, with its `initial_cycle`: before the lock, asleep, woken, or back -/
inductive Pc where
  | calling
  | sleeping (initialCycle : Int32)
  | notified (initialCycle : Int32)
  | returned
  deriving DecidableEq, Repr

structure Call where
  thread : ℕ
  cycle : Option ℕ
  pc : Pc
  deriving DecidableEq, Repr

structure St where
  count : ℤ
  cycleCount : UInt32
  completed : ℕ
  calls : List Call
  deriving DecidableEq, Repr

inductive Op where
  | call (thread : ℕ)
  | enter (i : ℕ)
  | spurious (i : ℕ)
  | wake (i : ℕ)
  deriving DecidableEq, Repr

def Call.isSleeping (c : Call) : Bool :=
  match c.pc with
  | .sleeping _ => true
  | _ => false

def Call.notify (c : Call) : Call :=
  match c.pc with
  | .sleeping initialCycle => { c with pc := .notified initialCycle }
  | _ => c

/-- cond_.Broadcast() -/
def broadcast (calls : List Call) : List Call := wakeAll Call.isSleeping Call.notify calls

/-- the critical section of a call that takes the lock -/
def enter (initialCount : ℕ) (s : St) (i : ℕ) (c : Call) : St :=
  let count := s.count - 1
  if count = 0 then
    { count := initialCount
      cycleCount := s.cycleCount + 1
      completed := s.completed + 1
      calls := broadcast (s.calls.set i { c with cycle := some s.completed, pc := .returned }) }
  else
    let initialCycle := s.cycleCount.toInt32
    { s with
      count := count
      calls := s.calls.set i { c with cycle := some s.completed, pc := .sleeping initialCycle } }

/-- the loop condition, when a woken call has the lock again -/
def look (s : St) (initialCycle : Int32) : Pc :=
  if s.cycleCount = initialCycle.toUInt32 then .sleeping initialCycle else .returned

def machine (initialCount : ℕ) : Machine St Op where
  init := ⟨initialCount, 0, 0, []⟩
  step s
    | .call thread =>
      if s.calls.all fun c => c.thread ≠ thread || c.pc = .returned then
        some { s with calls := s.calls ++ [⟨thread, none, .calling⟩] }
      else none
    | .enter i => s.calls[i]?.bind fun c =>
        match c.pc with
        | .calling => some (enter initialCount s i c)
        | _ => none
    | .spurious i => s.calls[i]?.bind fun c =>
        if c.isSleeping then some { s with calls := s.calls.set i c.notify } else none
    | .wake i => s.calls[i]?.bind fun c =>
        match c.pc with
        | .notified initialCycle => some { s with calls := s.calls.set i { c with pc := look s initialCycle } }
        | _ => none

/-! ## The invariant -/

def Call.inCycle (k : ℕ) (c : Call) : Bool := c.cycle = some k

/-- how far a call can be after `completed` cycles -/
def CallOk (completed : ℕ) (c : Call) : Prop :=
  match c.pc with
  | .calling => c.cycle = none
  | .sleeping initialCycle => c.cycle = some completed ∧ initialCycle = (UInt32.ofNat completed).toInt32
  | .notified initialCycle => ∃ k ≤ completed, c.cycle = some k ∧ initialCycle = (UInt32.ofNat k).toInt32
  | .returned => ∃ k < completed, c.cycle = some k

/-- a thread has one call at a time -/
def Alone (a b : Call) : Prop := a.thread = b.thread → a.pc = .returned ∨ b.pc = .returned

/-- and one call in a cycle -/
def Distinct (a b : Call) : Prop := ∀ k, a.cycle = some k → b.cycle = some k → a.thread ≠ b.thread

/-- the calls that a cycle has so far -/
def share (n : ℕ) (count : ℤ) (completed k : ℕ) : ℤ :=
  if k < completed then n else if k = completed then n - count else 0

structure Inv (n : ℕ) (s : St) : Prop where
  count_pos : 1 ≤ s.count
  count_le : s.count ≤ n
  cycle : s.cycleCount = UInt32.ofNat s.completed
  calls : ∀ c ∈ s.calls, CallOk s.completed c
  shares : ∀ k, (s.calls.countP (Call.inCycle k) : ℤ) = share n s.count s.completed k
  alone : s.calls.Pairwise Alone
  distinct : s.calls.Pairwise Distinct

variable {n i : ℕ} {s t : St} {o : Op} {c c' a b : Call} {l : List Call}

theorem Alone.symm (h : Alone a b) : Alone b a := fun heq => (h heq.symm).symm

theorem Distinct.symm (h : Distinct a b) : Distinct b a := fun k hb ha heq => h k ha hb heq.symm

/-- what a step can do -/
theorem step_cases (h : (machine n).step s o = some t) :
    (∃ thread, o = .call thread ∧ (∀ c ∈ s.calls, c.thread = thread → c.pc = .returned) ∧
      t = { s with calls := s.calls ++ [⟨thread, none, .calling⟩] }) ∨
    (∃ i c, o = .enter i ∧ s.calls[i]? = some c ∧ c.pc = .calling ∧ t = enter n s i c) ∨
    (∃ i c, o = .spurious i ∧ s.calls[i]? = some c ∧ c.isSleeping = true ∧
      t = { s with calls := s.calls.set i c.notify }) ∨
    ∃ i c initialCycle, o = .wake i ∧ s.calls[i]? = some c ∧ c.pc = .notified initialCycle ∧
      t = { s with calls := s.calls.set i { c with pc := look s initialCycle } } := by
  cases o with
  | call thread =>
    dsimp only [machine] at h
    split_ifs at h with hfree
    left
    refine ⟨thread, rfl, fun c hc hthread => ?_, (Option.some.inj h).symm⟩
    simpa [hthread] using List.all_eq_true.1 hfree c hc
  | enter i =>
    obtain ⟨c, hc, hst⟩ := Option.bind_eq_some_iff.1 h
    right; left
    cases hpc : c.pc with
    | calling =>
      rw [hpc] at hst
      exact ⟨i, c, rfl, hc, hpc, (Option.some.inj hst).symm⟩
    | sleeping _ => simp [hpc] at hst
    | notified _ => simp [hpc] at hst
    | returned => simp [hpc] at hst
  | spurious i =>
    obtain ⟨c, hc, hst⟩ := Option.bind_eq_some_iff.1 h
    split_ifs at hst with hsleep
    right; right; left
    exact ⟨i, c, rfl, hc, hsleep, (Option.some.inj hst).symm⟩
  | wake i =>
    obtain ⟨c, hc, hst⟩ := Option.bind_eq_some_iff.1 h
    right; right; right
    cases hpc : c.pc with
    | notified initialCycle =>
      rw [hpc] at hst
      exact ⟨i, c, initialCycle, rfl, hc, hpc, (Option.some.inj hst).symm⟩
    | calling => simp [hpc] at hst
    | sleeping _ => simp [hpc] at hst
    | returned => simp [hpc] at hst

/-! ## Woken calls -/

@[simp] theorem notify_thread : c.notify.thread = c.thread := by unfold Call.notify; split <;> rfl
@[simp] theorem notify_cycle : c.notify.cycle = c.cycle := by unfold Call.notify; split <;> rfl

theorem notify_awake : c.notify.isSleeping = false := by
  obtain ⟨thread, cycle, pc⟩ := c
  cases pc <;> rfl

theorem notify_returned : c.notify.pc = .returned ↔ c.pc = .returned := by
  obtain ⟨thread, cycle, pc⟩ := c
  cases pc <;> simp [Call.notify]

theorem notify_inCycle (k : ℕ) : c.notify.inCycle k = c.inCycle k := by unfold Call.inCycle; rw [notify_cycle]

theorem notify_ok {completed : ℕ} (h : CallOk completed c) : CallOk completed c.notify := by
  obtain ⟨thread, cycle, pc⟩ := c
  cases pc with
  | sleeping initialCycle => exact ⟨completed, le_rfl, h.1, h.2⟩
  | _ => exact h

/-- a call that has the same thread, and has returned if the old one had -/
theorem Alone.congr (h : Alone a b) (hthread : c.thread = a.thread) (hreturned : a.pc = .returned → c.pc = .returned) :
    Alone c b := fun heq => (h (hthread.symm.trans heq)).imp_left hreturned

theorem Distinct.congr (h : Distinct a b) (hthread : c.thread = a.thread) (hcycle : c.cycle = a.cycle) : Distinct c b := by
  intro k hc hb
  rw [hthread]
  exact h k (hcycle.symm.trans hc) hb

/-- a relation between calls that a change of one call respects -/
theorem set_pairwise {R : Call → Call → Prop} (hsymm : ∀ {x y}, R x y → R y x) (hc : l[i]? = some c)
    (hR : ∀ b, R c b → R c' b) (h : l.Pairwise R) : (l.set i c').Pairwise R := by
  obtain ⟨hone, hrest⟩ := (slot_pairwise hsymm hc).1 h
  exact (slot_pairwise_set hsymm hc c').2 ⟨fun b hb => hR b (hone b hb), hrest⟩

theorem broadcast_eq : broadcast l = l.map Call.notify := by
  refine List.map_congr_left fun c _ => ?_
  obtain ⟨thread, cycle, pc⟩ := c
  cases pc <;> rfl

theorem broadcast_pairwise {R : Call → Call → Prop} (hsymm : ∀ {x y}, R x y → R y x)
    (hR : ∀ a b, R a b → R a.notify b) (h : l.Pairwise R) : (broadcast l).Pairwise R := by
  rw [broadcast_eq, List.pairwise_map]
  exact h.imp fun {a b} hab => hR a b.notify (hsymm (hR b a (hsymm hab)))

theorem broadcast_countP (k : ℕ) : (broadcast l).countP (Call.inCycle k) = l.countP (Call.inCycle k) := by
  rw [broadcast_eq, List.countP_map]
  exact List.countP_congr fun c _ => by rw [Function.comp_apply, notify_inCycle]

/-- one call changes, and keeps its thread and its cycle -/
theorem inv_set (h : Inv n s) (hc : s.calls[i]? = some c) (hok : CallOk s.completed c') (hthread : c'.thread = c.thread)
    (hcycle : c'.cycle = c.cycle) (hreturned : c.pc = .returned → c'.pc = .returned) :
    Inv n { s with calls := s.calls.set i c' } := by
  constructor
  · exact h.count_pos
  · exact h.count_le
  · exact h.cycle
  · intro b hb
    obtain hb | rfl := List.mem_or_eq_of_mem_set hb
    · exact h.calls b hb
    · exact hok
  · intro k
    rw [← h.shares k]
    have hsame : c'.inCycle k = c.inCycle k := by unfold Call.inCycle; rw [hcycle]
    rw [slot_countP_set hc, slot_countP hc, hsame]
  · exact set_pairwise Alone.symm hc (fun b hb => hb.congr hthread hreturned) h.alone
  · exact set_pairwise Distinct.symm hc (fun b hb => hb.congr hthread hcycle) h.distinct

theorem inv_spurious (h : Inv n s) (hc : s.calls[i]? = some c) : Inv n { s with calls := s.calls.set i c.notify } :=
  inv_set h hc (notify_ok (h.calls c (List.mem_of_getElem? hc))) notify_thread notify_cycle notify_returned.2

/-- below 2^32 the counter tells the cycles apart -/
theorem look_eq {initialCycle : Int32} {k : ℕ} (hcycle : s.cycleCount = UInt32.ofNat s.completed) (hk : k ≤ s.completed)
    (hinitial : initialCycle = (UInt32.ofNat k).toInt32) (hbound : s.completed < 2 ^ 32) :
    look s initialCycle = if k = s.completed then .sleeping initialCycle else .returned := by
  have hsame : s.cycleCount = initialCycle.toUInt32 ↔ k = s.completed := by
    rw [hcycle, hinitial, UInt32.toUInt32_toInt32, ← UInt32.toNat_inj, UInt32.toNat_ofNat', UInt32.toNat_ofNat',
      Nat.mod_eq_of_lt hbound, Nat.mod_eq_of_lt (hk.trans_lt hbound)]
    exact eq_comm
  unfold look
  simp only [hsame]

theorem inv_wake (h : Inv n s) (hbound : s.completed < 2 ^ 32) (hc : s.calls[i]? = some c) {initialCycle : Int32}
    (hpc : c.pc = .notified initialCycle) : Inv n { s with calls := s.calls.set i { c with pc := look s initialCycle } } := by
  have hok := h.calls c (List.mem_of_getElem? hc)
  unfold CallOk at hok
  rw [hpc] at hok
  obtain ⟨k, hk, hcycle, hinitial⟩ := hok
  have hlook := look_eq h.cycle hk hinitial hbound
  refine inv_set h hc ?_ rfl rfl (fun hreturned => absurd (hpc.symm.trans hreturned) Pc.noConfusion)
  rw [hlook]
  split_ifs with hnow
  · subst hnow
    exact ⟨hcycle, hinitial⟩
  · exact ⟨k, lt_of_le_of_ne hk hnow, hcycle⟩

/-! ## New calls -/

theorem inv_call {thread : ℕ} (h : Inv n s) (hfree : ∀ c ∈ s.calls, c.thread = thread → c.pc = .returned) :
    Inv n { s with calls := s.calls ++ [⟨thread, none, .calling⟩] } := by
  constructor
  · exact h.count_pos
  · exact h.count_le
  · exact h.cycle
  · intro c hc
    obtain hc | hc := List.mem_append.1 hc
    · exact h.calls c hc
    · obtain rfl := List.mem_singleton.1 hc
      rfl
  · intro k
    rw [← h.shares k, List.countP_append]
    rfl
  · refine List.pairwise_append.2 ⟨h.alone, List.pairwise_singleton _ _, fun a ha b hb heq => ?_⟩
    obtain rfl := List.mem_singleton.1 hb
    exact Or.inl (hfree a ha heq)
  · refine List.pairwise_append.2 ⟨h.distinct, List.pairwise_singleton _ _, fun a ha b hb k _ hcycle => ?_⟩
    obtain rfl := List.mem_singleton.1 hb
    exact absurd hcycle.symm (Option.some_ne_none k)

/-! ## Critical sections of entering calls -/

/-- the call with its cycle -/
def Call.entered (c : Call) (completed : ℕ) (pc : Pc) : Call := { c with cycle := some completed, pc := pc }

theorem entered_inCycle {completed : ℕ} {pc : Pc} (k : ℕ) :
    (c.entered completed pc).inCycle k = true ↔ k = completed := by
  simp [Call.entered, Call.inCycle, eq_comm]

theorem calling_cycle (h : Inv n s) (hc : s.calls[i]? = some c) (hpc : c.pc = .calling) : c.cycle = none := by
  have hok := h.calls c (List.mem_of_getElem? hc)
  unfold CallOk at hok
  rwa [hpc] at hok

theorem entered_countP (h : Inv n s) (hc : s.calls[i]? = some c) (hpc : c.pc = .calling) (pc : Pc) (k : ℕ) :
    ((s.calls.set i (c.entered s.completed pc)).countP (Call.inCycle k) : ℤ) =
      share n s.count s.completed k + if k = s.completed then 1 else 0 := by
  have hnot : c.inCycle k = false := by simp [Call.inCycle, calling_cycle h hc hpc]
  have hold := h.shares k
  rw [slot_countP hc, hnot, if_neg Bool.false_ne_true, add_zero] at hold
  rw [slot_countP_set hc, ← hold]
  simp only [entered_inCycle, Nat.cast_add, Nat.cast_ite, Nat.cast_one, Nat.cast_zero]

theorem entered_alone (h : Inv n s) (hc : s.calls[i]? = some c) (hpc : c.pc = .calling) (pc : Pc) :
    (s.calls.set i (c.entered s.completed pc)).Pairwise Alone := by
  refine set_pairwise Alone.symm hc (fun b hb heq => ?_) h.alone
  exact Or.inr ((hb heq).resolve_left fun hreturned => absurd (hpc.symm.trans hreturned) Pc.noConfusion)

/-- the other calls of its thread have returned, so they belong to earlier cycles -/
theorem entered_distinct (h : Inv n s) (hc : s.calls[i]? = some c) (hpc : c.pc = .calling) (pc : Pc) :
    (s.calls.set i (c.entered s.completed pc)).Pairwise Distinct := by
  obtain ⟨halone, -⟩ := (slot_pairwise Alone.symm hc).1 h.alone
  obtain ⟨-, hrest⟩ := (slot_pairwise Distinct.symm hc).1 h.distinct
  refine (slot_pairwise_set Distinct.symm hc _).2 ⟨fun b hb k hk hbk hthread => ?_, hrest⟩
  obtain rfl : s.completed = k := Option.some.inj hk
  have hreturned : b.pc = .returned :=
    (halone b hb hthread).resolve_left fun hreturned => absurd (hpc.symm.trans hreturned) Pc.noConfusion
  have hok := h.calls b ((slot_mem hc).2 (Or.inr hb))
  unfold CallOk at hok
  rw [hreturned] at hok
  obtain ⟨k, hlt, hcycle⟩ := hok
  exact absurd (Option.some.inj (hcycle.symm.trans hbk)) hlt.ne

theorem ok_next {completed : ℕ} (h : CallOk completed c) (hawake : c.isSleeping = false) : CallOk (completed + 1) c := by
  obtain ⟨thread, cycle, pc⟩ := c
  cases pc with
  | calling => exact h
  | sleeping initialCycle => exact Bool.noConfusion hawake
  | notified initialCycle =>
    obtain ⟨k, hk, hrest⟩ := h
    exact ⟨k, Nat.le_succ_of_le hk, hrest⟩
  | returned =>
    obtain ⟨k, hk, hcycle⟩ := h
    exact ⟨k, Nat.lt_succ_of_lt hk, hcycle⟩

theorem share_sleep {count : ℤ} {completed : ℕ} (k : ℕ) :
    (share n count completed k + if k = completed then 1 else 0) = share n (count - 1) completed k := by
  unfold share
  split_ifs <;> omega

theorem share_last {completed : ℕ} (k : ℕ) :
    (share n 1 completed k + if k = completed then 1 else 0) = share n n (completed + 1) k := by
  unfold share
  split_ifs <;> omega

/-- a call that is not the last of its cycle goes to sleep -/
theorem inv_sleep (h : Inv n s) (hc : s.calls[i]? = some c) (hpc : c.pc = .calling) (hmore : s.count - 1 ≠ 0) :
    Inv n { s with
      count := s.count - 1
      calls := s.calls.set i (c.entered s.completed (.sleeping s.cycleCount.toInt32)) } := by
  have hpos := h.count_pos
  have hle := h.count_le
  constructor
  · change 1 ≤ s.count - 1
    omega
  · change s.count - 1 ≤ n
    omega
  · exact h.cycle
  · intro b hb
    obtain hb | rfl := List.mem_or_eq_of_mem_set hb
    · exact h.calls b hb
    · exact ⟨rfl, by rw [h.cycle]⟩
  · intro k
    rw [entered_countP h hc hpc]
    exact share_sleep k
  · exact entered_alone h hc hpc _
  · exact entered_distinct h hc hpc _

/-- the last one starts the next cycle -/
theorem inv_last (hn : 1 ≤ n) (h : Inv n s) (hc : s.calls[i]? = some c) (hpc : c.pc = .calling)
    (hlast : s.count - 1 = 0) :
    Inv n ⟨n, s.cycleCount + 1, s.completed + 1, broadcast (s.calls.set i (c.entered s.completed .returned))⟩ := by
  constructor
  · exact Int.ofNat_le.2 hn
  · exact le_rfl
  · calc s.cycleCount + 1 = UInt32.ofNat s.completed + UInt32.ofNat 1 := by rw [h.cycle]; rfl
      _ = UInt32.ofNat (s.completed + 1) := (UInt32.ofNat_add _ _).symm
  · intro b hb
    rw [broadcast_eq] at hb
    obtain ⟨a, ha, rfl⟩ := List.mem_map.1 hb
    obtain ha | rfl := List.mem_or_eq_of_mem_set ha
    · exact ok_next (notify_ok (h.calls a ha)) notify_awake
    · exact ⟨s.completed, Nat.lt_succ_self _, rfl⟩
  · intro k
    rw [broadcast_countP, entered_countP h hc hpc, sub_eq_zero.1 hlast]
    exact share_last k
  · refine broadcast_pairwise Alone.symm (fun a b hab => ?_) (entered_alone h hc hpc _)
    exact hab.congr notify_thread notify_returned.2
  · refine broadcast_pairwise Distinct.symm (fun a b hab => ?_) (entered_distinct h hc hpc _)
    exact hab.congr notify_thread notify_cycle

theorem inv_enter (hn : 1 ≤ n) (h : Inv n s) (hc : s.calls[i]? = some c) (hpc : c.pc = .calling) :
    Inv n (enter n s i c) := by
  unfold enter
  dsimp only
  split_ifs with hlast
  · exact inv_last hn h hc hpc hlast
  · exact inv_sleep h hc hpc hlast

/-! ## Runs -/

theorem step_completed (h : (machine n).step s o = some t) : s.completed ≤ t.completed := by
  obtain ⟨thread, rfl, hfree, rfl⟩ | ⟨i, c, rfl, hc, hpc, rfl⟩ | ⟨i, c, rfl, hc, hsleep, rfl⟩ |
    ⟨i, c, initialCycle, rfl, hc, hpc, rfl⟩ := step_cases h
  · exact le_rfl
  · unfold enter
    dsimp only
    split_ifs
    · exact Nat.le_succ _
    · exact le_rfl
  · exact le_rfl
  · exact le_rfl

theorem inv_step (hn : 1 ≤ n) (hbound : s.completed < 2 ^ 32) (h : Inv n s) (hst : (machine n).step s o = some t) :
    Inv n t := by
  obtain ⟨thread, rfl, hfree, rfl⟩ | ⟨i, c, rfl, hc, hpc, rfl⟩ | ⟨i, c, rfl, hc, hsleep, rfl⟩ |
    ⟨i, c, initialCycle, rfl, hc, hpc, rfl⟩ := step_cases hst
  · exact inv_call h hfree
  · exact inv_enter hn h hc hpc
  · exact inv_spurious h hc
  · exact inv_wake h hbound hc hpc

theorem inv_init (hn : 1 ≤ n) : Inv n (machine n).init := by
  constructor
  · exact Int.ofNat_le.2 hn
  · exact le_rfl
  · rfl
  · exact fun c hc => absurd hc List.not_mem_nil
  · intro k
    simp [machine, share]
  · exact List.Pairwise.nil
  · exact List.Pairwise.nil

theorem run_inv {ops : List Op} (hn : 1 ≤ n) (h : (machine n).run (machine n).init ops = some s)
    (hbound : s.completed < 2 ^ 32) : Inv n s := by
  have hstep : ∀ s o t, (s.completed < 2 ^ 32 → Inv n s) → (machine n).step s o = some t →
      t.completed < 2 ^ 32 → Inv n t := by
    intro s o t hinv hst ht
    have hs : s.completed < 2 ^ 32 := (step_completed hst).trans_lt ht
    exact inv_step hn hs (hinv hs) hst
  exact Machine.run_inv hstep (fun _ => inv_init hn) h hbound

/-! ## Main result -/

/-- the calls of a cycle -/
def St.waits (s : St) (k : ℕ) : List Call := s.calls.filter (Call.inCycle k)

/-- what a user of the barrier relies on -/
structure Good (n : ℕ) (s : St) : Prop where
  count_pos : 1 ≤ s.count
  count_le : s.count ≤ n
  returned : ∀ c ∈ s.calls, c.pc = .returned → ∃ k < s.completed, c.cycle = some k
  full : ∀ k < s.completed, (s.waits k).length = n ∧ ((s.waits k).map Call.thread).Nodup
  awake : ∀ c ∈ s.calls, ∀ k < s.completed, c.cycle = some k → c.isSleeping = false
  leaves : ∀ i c, s.calls[i]? = some c → ∀ k < s.completed, c.cycle = some k → c.pc = .returned ∨
    (machine n).step s (.wake i) = some { s with calls := s.calls.set i { c with pc := .returned } }

theorem inv_full (h : Inv n s) {k : ℕ} (hk : k < s.completed) :
    (s.waits k).length = n ∧ ((s.waits k).map Call.thread).Nodup := by
  constructor
  · have hshare := h.shares k
    unfold share at hshare
    rw [if_pos hk, List.countP_eq_length_filter] at hshare
    exact_mod_cast hshare
  · refine List.pairwise_map.2 (List.pairwise_filter.2 (h.distinct.imp fun {a b} hab ha hb => ?_))
    exact hab k (of_decide_eq_true ha) (of_decide_eq_true hb)

/-- a call of a completed cycle has returned, or has been notified -/
theorem inv_past (h : Inv n s) (hc : c ∈ s.calls) {k : ℕ} (hk : k < s.completed) (hcycle : c.cycle = some k) :
    c.pc = .returned ∨ c.pc = .notified (UInt32.ofNat k).toInt32 := by
  have hok := h.calls c hc
  obtain ⟨thread, cycle, pc⟩ := c
  dsimp only at hcycle
  subst hcycle
  cases pc with
  | calling => exact absurd hok (Option.some_ne_none k)
  | sleeping initialCycle => exact absurd (Option.some.inj hok.1) hk.ne
  | notified initialCycle =>
    obtain ⟨k', -, heq, rfl⟩ := hok
    obtain rfl := Option.some.inj heq
    exact Or.inr rfl
  | returned => exact Or.inl rfl

theorem inv_leaves (h : Inv n s) (hbound : s.completed < 2 ^ 32) (hc : s.calls[i]? = some c) {k : ℕ}
    (hk : k < s.completed) (hcycle : c.cycle = some k) : c.pc = .returned ∨
      (machine n).step s (.wake i) = some { s with calls := s.calls.set i { c with pc := .returned } } := by
  refine (inv_past h (List.mem_of_getElem? hc) hk hcycle).imp_right fun hpc => ?_
  have hlook : look s (UInt32.ofNat k).toInt32 = .returned := by
    rw [look_eq h.cycle hk.le rfl hbound, if_neg hk.ne]
  simp only [machine, hc, hpc, hlook, Option.bind_some]

/-- **The barrier can be reused.** -/
theorem barrier_reusable (n : ℕ) (hn : 1 ≤ n) (ops : List Op) (s : St)
    (h : (machine n).run (machine n).init ops = some s) (hcycles : s.completed < 2 ^ 32) : Good n s := by
  have hinv := run_inv hn h hcycles
  constructor
  · exact hinv.count_pos
  · exact hinv.count_le
  · intro c hc hpc
    have hok := hinv.calls c hc
    unfold CallOk at hok
    rwa [hpc] at hok
  · exact fun k hk => inv_full hinv hk
  · intro c hc k hk hcycle
    unfold Call.isSleeping
    obtain hpc | hpc := inv_past hinv hc hk hcycle <;> rw [hpc]
  · exact fun i c hc k hk hcycle => inv_leaves hinv hcycles hc hk hcycle

/-- the first thread of a cycle of two calls again while the second one, woken on its own before, is still to look -/
theorem barrier_reusable_overlap :
    ∃ ops s, (machine 2).run (machine 2).init ops = some s ∧ s.completed = 1 ∧ s.count = 1 ∧ s.calls.length = 3 ∧
      Good 2 s := by
  let ops : List Op := [.call 0, .call 1, .enter 0, .spurious 0, .wake 0, .enter 1, .call 1, .enter 2]
  let s : St := ⟨1, 1, 1, [⟨0, some 0, .notified 0⟩, ⟨1, some 0, .returned⟩, ⟨1, some 1, .sleeping 1⟩]⟩
  have hrun : (machine 2).run (machine 2).init ops = some s := by decide +kernel
  exact ⟨ops, s, hrun, rfl, rfl, rfl, barrier_reusable 2 (by decide) ops s hrun (by decide)⟩

end Bboy.Barrier
