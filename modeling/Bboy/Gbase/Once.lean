/-
Lean model of `BBoyOnceDynamic::Init` (`bboy/base/sync/once.h`) over `GoogleOnceDynamic::Init` and
`GoogleOnceInternalInit` (`bboy/gbase/once.{h,cc}`), with `SpinLockWait` and its table of transitions
(`bboy/gbase/spinlock_internal.cc`).

A step of a thread is one access to `control`, or one statement of the callback `InitCb`; how long the member function
runs and what it returns is left to the environment. `results` collects what member functions returned, `returned` what
calls of `Init` returned.

- `advance_cases`: what an access to `control` can do.
- `Inv`: the function has not begun, or one thread is at it, or it is done, as `control` says.
- `init_once`: the function begins at most once; every `Init` that returned, returned what it gave, after it had finished;
  `initted()` says so only then; `control` never leaves its four values, so the `LOG(FATAL)` is never reached.
- `timely_wakeup`: in a run where no waiter marks `control` between the runner's last load and its store of `DONE`, a
  sleeper has a runner or a wake before it. `sleeper_is_lost` is a run with such a mark: only the timeout of the
  futex ends the sleep.
Witnesses: `init_once_twoThreads`, `timely_wakeup_twoThreads`.
-/
import Bboy.Core.Atomic
import Bboy.Core.Machine
import Bboy.Core.Waiters

namespace Bboy.Once

open Core

/-! ## The control word -/

abbrev Atomic32 := BitVec 32

def GOOGLE_ONCE_INTERNAL_INIT : Atomic32 := 0

def GOOGLE_ONCE_INTERNAL_RUNNING : Atomic32 := 0x65C2937B

def GOOGLE_ONCE_INTERNAL_WAITER : Atomic32 := 0x05A308D2

def GOOGLE_ONCE_INTERNAL_DONE : Atomic32 := 0x3F2D8AB0

structure SpinLockWaitTransition where
  from_ : Atomic32
  to_ : Atomic32
  done : Bool
  deriving DecidableEq, Repr

def trans : List SpinLockWaitTransition :=
  [⟨GOOGLE_ONCE_INTERNAL_INIT, GOOGLE_ONCE_INTERNAL_RUNNING, true⟩,
    ⟨GOOGLE_ONCE_INTERNAL_RUNNING, GOOGLE_ONCE_INTERNAL_WAITER, false⟩,
    ⟨GOOGLE_ONCE_INTERNAL_DONE, GOOGLE_ONCE_INTERNAL_DONE, true⟩]

/-- the values that the check under `DEBUG_MODE` lets pass -/
def KnownControl (c : Atomic32) : Prop :=
  c = GOOGLE_ONCE_INTERNAL_INIT ∨ c = GOOGLE_ONCE_INTERNAL_RUNNING ∨ c = GOOGLE_ONCE_INTERNAL_WAITER ∨
    c = GOOGLE_ONCE_INTERNAL_DONE

instance (c : Atomic32) : Decidable (KnownControl c) := inferInstanceAs (Decidable (_ ∨ _ ∨ _ ∨ _))

theorem waiter_ne_init : GOOGLE_ONCE_INTERNAL_WAITER ≠ GOOGLE_ONCE_INTERNAL_INIT := by decide

theorem waiter_ne_done : GOOGLE_ONCE_INTERNAL_WAITER ≠ GOOGLE_ONCE_INTERNAL_DONE := by decide

theorem running_ne_done : GOOGLE_ONCE_INTERNAL_RUNNING ≠ GOOGLE_ONCE_INTERNAL_DONE := by decide

theorem done_ne_init : GOOGLE_ONCE_INTERNAL_DONE ≠ GOOGLE_ONCE_INTERNAL_INIT := by decide

/-! ## Threads -/

/-- where a thread is: `waiting` to `asleep` are in `SpinLockWait`, with its `loop`, the loaded `v` and the transition `t`
that matched; `calling` to `waking` is the thread that runs the function -/
inductive Pc where
  | idle
  | loading
  | checking
  | trying
  | waiting (loop : ℕ)
  | moving (loop : ℕ) (v : Atomic32) (t : SpinLockWaitTransition)
  | delaying (loop : ℕ) (v : Atomic32)
  | asleep (loop : ℕ)
  | calling
  | initting
  | finishing
  | storing (old_control : Atomic32)
  | waking
  | returning
  deriving DecidableEq, Repr

structure Config where
  debug_mode : Bool
  have_futex : Bool
  deriving DecidableEq, Repr

/-- `control` and the thread after an access, and whether the check on the way held -/
structure Access where
  control : Atomic32
  pc : Pc
  ok : Bool
  deriving DecidableEq, Repr

/-- behind a transition from `v` in round `loop` of `SpinLockWait`: out of the wait, or the next round -/
def settle (done : Bool) (loop : ℕ) (v : Atomic32) : Pc :=
  if done then (if v = GOOGLE_ONCE_INTERNAL_INIT then .calling else .returning) else .waiting (loop + 1)

/-- a round of `SpinLockWait` up to its compare-and-swap -/
def spinLockWait (control : Atomic32) (loop : ℕ) : Pc :=
  match trans.find? (·.from_ = control) with
  | none => .delaying loop control
  | some t => if t.to_ = control then settle t.done loop control else .moving loop control t

/-- the next access to `control` of a thread that is inside a call -/
def advance (cfg : Config) (control : Atomic32) : Pc → Option Access
  | .loading => some ⟨control, if control ≠ GOOGLE_ONCE_INTERNAL_DONE then
      (if cfg.debug_mode then .checking else .trying) else .returning, true⟩
  | .checking => some ⟨control, .trying, KnownControl control⟩
  | .trying =>
    let r := compareAndSwap control GOOGLE_ONCE_INTERNAL_INIT GOOGLE_ONCE_INTERNAL_RUNNING
    some ⟨r.2, if r.1 = GOOGLE_ONCE_INTERNAL_INIT then .calling else .waiting 0, true⟩
  | .waiting loop => some ⟨control, spinLockWait control loop, true⟩
  | .moving loop v t =>
    let r := compareAndSwap control v t.to_
    some ⟨r.2, if r.1 = v then settle t.done loop v else .waiting (loop + 1), true⟩
  -- SpinLockDelay: nothing in the first round, then FUTEX_WAIT on the value loaded
  | .delaying loop v =>
    some ⟨control, if loop ≠ 0 ∧ (cfg.have_futex → control = v) then .asleep loop else .waiting (loop + 1), true⟩
  | .finishing => some ⟨control, .storing control, true⟩
  | .storing old_control =>
    some ⟨GOOGLE_ONCE_INTERNAL_DONE, if old_control = GOOGLE_ONCE_INTERNAL_WAITER then .waking else .returning, true⟩
  | _ => none

variable {σ : Type}

structure St (σ : Type) where
  control : Atomic32
  threads : List Pc
  status_ : σ
  initted_ : Bool
  begun : ℕ
  results : List σ
  returned : List σ
  checkFailed : Bool
  deriving DecidableEq

/-- `call` is the member function of thread `i`, with the status it returns; `timeout` is any return of a sleeper that no
wake caused -/
inductive Op (σ : Type) where
  | begin (i : ℕ)
  | step (i : ℕ)
  | call (i : ℕ) (st : σ)
  | timeout (i : ℕ)
  deriving DecidableEq, Repr

def Pc.isAsleep : Pc → Bool
  | .asleep _ => true
  | _ => false

/-- back from `SpinLockDelay` -/
def Pc.wake : Pc → Pc
  | .asleep loop => .waiting (loop + 1)
  | pc => pc

def St.setThread (s : St σ) (i : ℕ) (pc : Pc) : St σ := { s with threads := s.threads.set i pc }

/-- thread `i` made an access to `control` -/
def St.access (s : St σ) (i : ℕ) (a : Access) : St σ :=
  { s with
    control := a.control, threads := s.threads.set i a.pc, checkFailed := s.checkFailed || !a.ok,
    begun := if a.pc = .calling then s.begun + 1 else s.begun }

/-- a step of thread `i` at `pc` -/
def stepThread (cfg : Config) (s : St σ) (i : ℕ) : Pc → Option (St σ)
  | .initting => some { s with initted_ := true, threads := s.threads.set i .finishing }
  | .waking =>
    let threads := s.threads.set i .returning
    some { s with threads := if cfg.have_futex then wakeAll Pc.isAsleep Pc.wake threads else threads }
  | .returning => some { s with returned := s.returned ++ [s.status_], threads := s.threads.set i .idle }
  | pc => (advance cfg s.control pc).map fun a => s.access i a

def machine (cfg : Config) (ok : σ) (n : ℕ) : Machine (St σ) (Op σ) where
  init := ⟨GOOGLE_ONCE_INTERNAL_INIT, List.replicate n .idle, ok, false, 0, [], [], false⟩
  step s
    | .begin i => s.threads[i]?.bind fun pc => if pc = .idle then some (s.setThread i .loading) else none
    | .step i => s.threads[i]?.bind fun pc => stepThread cfg s i pc
    | .call i st => s.threads[i]?.bind fun pc =>
        if pc = .calling then
          some { s with status_ := st, results := s.results ++ [st], threads := s.threads.set i .initting }
        else none
    | .timeout i => s.threads[i]?.bind fun pc => if pc.isAsleep then some (s.setThread i pc.wake) else none

/-! ## The runner -/

/-- from the transition to `RUNNING` to the store of `DONE` -/
def Pc.runs : Pc → Bool
  | .calling | .initting | .finishing | .storing _ => true
  | _ => false

/-- the runner, once the function returned -/
def Pc.called : Pc → Bool
  | .initting | .finishing | .storing _ => true
  | _ => false

/-- behind the store of `DONE`, or a load that found it -/
def Pc.ended : Pc → Bool
  | .waking | .returning => true
  | _ => false

/-- the transition that a thread is about to try is one of the table that changes the word, and a thread that found none
is about to sleep on `WAITER` -/
def Pc.Moves : Pc → Prop
  | .moving _ v t => t ∈ trans ∧ t.from_ = v ∧ t.to_ ≠ v
  | .delaying _ v => v = GOOGLE_ONCE_INTERNAL_WAITER
  | _ => True

def runners (s : St σ) : ℕ := s.threads.countP Pc.runs

/-! ## Accesses -/

/-- what an access can do to `control` and to the thread -/
inductive Advances (cfg : Config) (control : Atomic32) : Pc → Access → Prop
  | quiet {pc pc' ok} (hok : KnownControl control → ok = true) (hruns : pc.runs = false) (hruns' : pc'.runs = false)
    (hended : pc'.ended = true → control = GOOGLE_ONCE_INTERNAL_DONE) (hmoves : KnownControl control → pc'.Moves)
    (hasleep : cfg.have_futex = true → pc'.isAsleep = true → control = GOOGLE_ONCE_INTERNAL_WAITER) :
    Advances cfg control pc ⟨control, pc', ok⟩
  | marks {pc loop} (hrunning : control = GOOGLE_ONCE_INTERNAL_RUNNING) (hruns : pc.runs = false) :
    Advances cfg control pc ⟨GOOGLE_ONCE_INTERNAL_WAITER, .waiting loop, true⟩
  | starts {pc} (hinit : control = GOOGLE_ONCE_INTERNAL_INIT) (hruns : pc.runs = false) :
    Advances cfg control pc ⟨GOOGLE_ONCE_INTERNAL_RUNNING, .calling, true⟩
  | loads : Advances cfg control .finishing ⟨control, .storing control, true⟩
  | stores {old pc'} (hended : pc'.ended = true) (hwaking : old = GOOGLE_ONCE_INTERNAL_WAITER → pc' = .waking) :
    Advances cfg control (.storing old) ⟨GOOGLE_ONCE_INTERNAL_DONE, pc', true⟩

variable {cfg : Config} {control : Atomic32} {pc pc' : Pc} {a : Access}

/-- the table: a word that is not in it, the null transition, or one of two transitions that change the word -/
theorem spinLockWait_cases (control : Atomic32) (loop : ℕ) :
    (spinLockWait control loop = .delaying loop control ∧
        (KnownControl control → control = GOOGLE_ONCE_INTERNAL_WAITER)) ∨
      (control = GOOGLE_ONCE_INTERNAL_DONE ∧ spinLockWait control loop = .returning) ∨
      ∃ t, spinLockWait control loop = .moving loop control t ∧ t ∈ trans ∧ t.from_ = control ∧ t.to_ ≠ control := by
  unfold spinLockWait
  cases hfind : trans.find? (·.from_ = control) with
  | none =>
    refine Or.inl ⟨rfl, fun hknown => ?_⟩
    simp only [trans, List.find?_eq_none, List.mem_cons, List.not_mem_nil, or_false, forall_eq_or_imp, forall_eq,
      decide_eq_true_eq] at hfind
    rcases hknown with h | h | h | h
    · exact absurd h.symm hfind.1
    · exact absurd h.symm hfind.2.1
    · exact h
    · exact absurd h.symm hfind.2.2
  | some t =>
    have hmem : t ∈ trans := List.mem_of_find?_eq_some hfind
    have hfrom : t.from_ = control := by simpa using List.find?_some hfind
    by_cases hto : t.to_ = control
    · right; left
      simp only [hto, if_true]
      subst hfrom
      simp only [trans, List.mem_cons, List.not_mem_nil, or_false] at hmem
      rcases hmem with rfl | rfl | rfl
      · exact absurd hto (by decide)
      · exact absurd hto (by decide)
      · exact ⟨rfl, rfl⟩
    · right; right
      exact ⟨t, by simp [hto], hmem, hfrom, hto⟩

/-- **What an access can do** to `control` and to the thread. -/
theorem advance_cases (h : advance cfg control pc = some a) (hm : pc.Moves) : Advances cfg control pc a := by
  cases pc with
  | loading =>
    cases h
    split_ifs with hdone hdebug
    · exact Advances.quiet (fun _ => rfl) rfl rfl nofun (fun _ => trivial) nofun
    · exact Advances.quiet (fun _ => rfl) rfl rfl nofun (fun _ => trivial) nofun
    · exact Advances.quiet (fun _ => rfl) rfl rfl (fun _ => not_not.1 hdone) (fun _ => trivial) nofun
  | checking =>
    cases h
    exact Advances.quiet (fun hknown => decide_eq_true hknown) rfl rfl nofun (fun _ => trivial) nofun
  | trying =>
    cases h
    by_cases hinit : control = GOOGLE_ONCE_INTERNAL_INIT
    · rw [compareAndSwap_won hinit, compareAndSwap_found, if_pos hinit]
      exact Advances.starts hinit rfl
    · rw [compareAndSwap_lost hinit, compareAndSwap_found, if_neg hinit]
      exact Advances.quiet (fun _ => rfl) rfl rfl nofun (fun _ => trivial) nofun
  | waiting loop =>
    cases h
    rcases spinLockWait_cases control loop with ⟨heq, hwaiter⟩ | ⟨hdone, heq⟩ | ⟨t, heq, ht⟩
    · rw [heq]
      exact Advances.quiet (fun _ => rfl) rfl rfl nofun hwaiter nofun
    · rw [heq]
      exact Advances.quiet (fun _ => rfl) rfl rfl (fun _ => hdone) (fun _ => trivial) nofun
    · rw [heq]
      exact Advances.quiet (fun _ => rfl) rfl rfl nofun (fun _ => ht) nofun
  | moving loop v t =>
    cases h
    obtain ⟨hmem, rfl, hto⟩ := hm
    by_cases hfrom : control = t.from_
    · rw [compareAndSwap_won hfrom, compareAndSwap_found, if_pos hfrom]
      simp only [trans, List.mem_cons, List.not_mem_nil, or_false] at hmem
      rcases hmem with rfl | rfl | rfl
      · exact Advances.starts hfrom rfl
      · exact Advances.marks hfrom rfl
      · exact absurd rfl hto
    · rw [compareAndSwap_lost hfrom, compareAndSwap_found, if_neg hfrom]
      exact Advances.quiet (fun _ => rfl) rfl rfl nofun (fun _ => trivial) nofun
  | delaying loop v =>
    cases h
    split_ifs with hsleep
    · exact Advances.quiet (fun _ => rfl) rfl rfl nofun (fun _ => trivial) fun hfutex _ => (hsleep.2 hfutex).trans hm
    · exact Advances.quiet (fun _ => rfl) rfl rfl nofun (fun _ => trivial) nofun
  | finishing =>
    cases h
    exact Advances.loads
  | storing old =>
    cases h
    split_ifs with hwaiter
    · exact Advances.stores rfl fun _ => rfl
    · exact Advances.stores rfl fun heq => absurd heq hwaiter
  | _ => cases h

/-! ## The invariant -/

structure Inv (s : St σ) : Prop where
  phase : runners s + (if s.control = GOOGLE_ONCE_INTERNAL_INIT then 1 else 0) +
    (if s.control = GOOGLE_ONCE_INTERNAL_DONE then 1 else 0) = 1
  known : KnownControl s.control
  begun : s.begun = if s.control = GOOGLE_ONCE_INTERNAL_INIT then 0 else 1
  before : s.control = GOOGLE_ONCE_INTERNAL_INIT ∨ .calling ∈ s.threads → s.results = [] ∧ s.initted_ = false
  after : (s.control = GOOGLE_ONCE_INTERNAL_DONE ∨ ∃ pc ∈ s.threads, pc.called = true) → s.results = [s.status_]
  ended : ∀ pc ∈ s.threads, pc.ended = true → s.control = GOOGLE_ONCE_INTERNAL_DONE
  moves : ∀ pc ∈ s.threads, pc.Moves
  initted : s.initted_ = true → s.results = [s.status_]
  returned : ∀ st ∈ s.returned, s.results = [st]
  checked : s.checkFailed = false

variable {s t : St σ} {o : Op σ} {ok : σ} {n i : ℕ}

theorem Pc.called_runs (h : pc.called = true) : pc.runs = true := by
  cases pc <;> first | rfl | cases h

theorem Pc.ended_runs (h : pc.ended = true) : pc.runs = false := by
  cases pc <;> first | rfl | cases h

theorem runners_set (hpc : s.threads[i]? = some pc) (pc' : Pc) :
    (s.threads.set i pc').countP Pc.runs + pc.runs.toNat = runners s + pc'.runs.toNat :=
  slot_countP_exchange hpc Pc.runs pc'

theorem Inv.runners_le (hi : Inv s) : runners s ≤ 1 := by
  have hphase := hi.phase
  omega

/-- the runner: `control` is neither before nor behind it -/
theorem Inv.runner (hi : Inv s) (hpc : s.threads[i]? = some pc) (hruns : pc.runs = true) :
    runners s = 1 ∧ s.control ≠ GOOGLE_ONCE_INTERNAL_INIT ∧ s.control ≠ GOOGLE_ONCE_INTERNAL_DONE := by
  have hpos : 0 < runners s := List.countP_pos_iff.2 ⟨pc, List.mem_of_getElem? hpc, hruns⟩
  have hphase := hi.phase
  refine ⟨by omega, fun h => ?_, fun h => ?_⟩
  · rw [if_pos h] at hphase
    omega
  · rw [if_pos h] at hphase
    omega

/-- beside the runner nobody runs -/
theorem Inv.others (hi : Inv s) (hpc : s.threads[i]? = some pc) (hruns : pc.runs = true) {b : Pc}
    (hb : b ∈ s.threads.set i pc') : b = pc' ∨ b.runs = false := by
  refine ((slot_mem_set hpc pc').1 hb).imp id fun hmem => ?_
  have hone := hi.runners_le
  rw [runners, slot_countP hpc, if_pos hruns] at hone
  have hnone : (s.threads.eraseIdx i).countP Pc.runs = 0 := by omega
  simpa using List.countP_eq_zero.1 hnone b hmem

/-- before the function begins nobody runs -/
theorem Inv.fresh (hi : Inv s) (hinit : s.control = GOOGLE_ONCE_INTERNAL_INIT) :
    runners s = 0 ∧ ∀ b ∈ s.threads, b.runs = false := by
  have hphase := hi.phase
  rw [if_pos hinit] at hphase
  have hnone : runners s = 0 := by omega
  exact ⟨hnone, fun b hb => by simpa using List.countP_eq_zero.1 hnone b hb⟩

/-- a thread that is neither the runner before nor after -/
theorem replace_inv (hi : Inv s) (hpc : s.threads[i]? = some pc) (hruns : pc.runs = false) (hruns' : pc'.runs = false)
    (hended : pc'.ended = true → s.control = GOOGLE_ONCE_INTERNAL_DONE) (hmoves : pc'.Moves) :
    Inv (s.setThread i pc') := by
  have hrunners : runners (s.setThread i pc') = runners s := by
    have hset := runners_set hpc pc'
    rw [hruns, hruns'] at hset
    exact hset
  have hmem : ∀ b ∈ s.threads.set i pc', b.runs = true → b ∈ s.threads := by
    intro b hb hb'
    rcases List.mem_or_eq_of_mem_set hb with hb | rfl
    · exact hb
    · exact absurd hb' (by simp [hruns'])
  exact
    { phase := by rw [hrunners]; exact hi.phase
      known := hi.known
      begun := hi.begun
      before := fun h => hi.before (h.imp id fun hcalling => hmem _ hcalling rfl)
      after := fun h => hi.after (h.imp id fun ⟨b, hb, hc⟩ => ⟨b, hmem b hb (Pc.called_runs hc), hc⟩)
      ended := forall_set hi.ended hended
      moves := forall_set hi.moves hmoves
      initted := hi.initted
      returned := hi.returned
      checked := hi.checked }

theorem access_inv (hi : Inv s) (hpc : s.threads[i]? = some pc) (ha : Advances cfg s.control pc a) : Inv (s.access i a) := by
  cases ha with
  | @quiet _ pc' ok hok hruns hruns' hended hmoves hasleep =>
    have hne : pc' ≠ .calling := by
      rintro rfl
      cases hruns'
    have heq : s.access i ⟨s.control, pc', ok⟩ = s.setThread i pc' := by
      simp [St.access, St.setThread, hne, hok hi.known]
    rw [heq]
    exact replace_inv hi hpc hruns hruns' hended (hmoves hi.known)
  | @marks _ loop hrunning hruns =>
    have hset : Inv (s.setThread i (.waiting loop)) := replace_inv hi hpc hruns rfl nofun trivial
    have hphase := hset.phase
    have hbegun := hi.begun
    rw [hrunning] at hbegun
    simp only [St.setThread, hrunning] at hphase
    exact
      { phase := hphase
        known := Or.inr (Or.inr (Or.inl rfl))
        begun := hbegun
        before := fun h => hset.before (h.imp (fun h => absurd h waiter_ne_init) id)
        after := fun h => hset.after (h.imp (fun h => absurd h waiter_ne_done) id)
        ended := fun b hb hended => absurd (hrunning.symm.trans (hset.ended b hb hended)) running_ne_done
        moves := hset.moves
        initted := hi.initted
        returned := hi.returned
        checked := by simp [St.access, hi.checked] }
  | @starts _ hinit hruns =>
    obtain ⟨h0, hnone⟩ := hi.fresh hinit
    have hbefore := hi.before (Or.inl hinit)
    have hrunners : (s.threads.set i .calling).countP Pc.runs = 1 := by
      have hset := runners_set hpc .calling
      rw [hruns, h0] at hset
      exact hset
    have hbegun := hi.begun
    rw [if_pos hinit] at hbegun
    exact
      { phase := by
          show (s.threads.set i .calling).countP Pc.runs + _ + _ = 1
          rw [hrunners]
          rfl
        known := Or.inr (Or.inl rfl)
        begun := by
          show (if Pc.calling = .calling then s.begun + 1 else s.begun) = _
          rw [if_pos rfl, hbegun]
          rfl
        before := fun _ => hbefore
        after := by
          rintro (h | ⟨b, hb, hcalled⟩)
          · exact absurd h running_ne_done
          · rcases List.mem_or_eq_of_mem_set hb with hb | rfl
            · exact absurd (Pc.called_runs hcalled) (by simp [hnone b hb])
            · cases hcalled
        ended := by
          intro b hb hended
          rcases List.mem_or_eq_of_mem_set hb with hb | rfl
          · exact absurd (hinit.symm.trans (hi.ended b hb hended)) done_ne_init.symm
          · cases hended
        moves := forall_set hi.moves trivial
        initted := hi.initted
        returned := hi.returned
        checked := by simp [St.access, hi.checked] }
  | loads =>
    have hrunners : (s.threads.set i (.storing s.control)).countP Pc.runs = runners s :=
      Nat.add_right_cancel (runners_set hpc (.storing s.control))
    exact
      { phase := by
          show (s.threads.set i (.storing s.control)).countP Pc.runs + _ + _ = 1
          rw [hrunners]
          exact hi.phase
        known := hi.known
        begun := hi.begun
        before := fun h => hi.before (h.imp id fun hmem => (List.mem_or_eq_of_mem_set hmem).resolve_right (by simp))
        after := fun _ => hi.after (Or.inr ⟨_, List.mem_of_getElem? hpc, rfl⟩)
        ended := forall_set hi.ended nofun
        moves := forall_set hi.moves trivial
        initted := hi.initted
        returned := hi.returned
        checked := by simp [St.access, hi.checked] }
  | @stores old pc' hended hwaking =>
    obtain ⟨h1, hinit, hdone⟩ := hi.runner hpc rfl
    have hruns' := Pc.ended_runs hended
    have hrunners : (s.threads.set i pc').countP Pc.runs = 0 := by
      have hset := runners_set hpc pc'
      rw [hruns', h1] at hset
      exact Nat.add_right_cancel hset
    have hne : pc' ≠ .calling := by
      rintro rfl
      cases hruns'
    have hbegun := hi.begun
    rw [if_neg hinit] at hbegun
    have hresults := hi.after (Or.inr ⟨_, List.mem_of_getElem? hpc, rfl⟩)
    exact
      { phase := by
          show (s.threads.set i pc').countP Pc.runs + _ + _ = 1
          rw [hrunners]
          rfl
        known := Or.inr (Or.inr (Or.inr rfl))
        begun := by
          show (if pc' = .calling then s.begun + 1 else s.begun) = _
          rw [if_neg hne, hbegun]
          rfl
        before := by
          rintro (h | hmem)
          · exact absurd h done_ne_init
          · rcases hi.others hpc rfl hmem with h | h
            · exact absurd h.symm hne
            · cases h
        after := fun _ => hresults
        ended := fun _ _ _ => rfl
        moves := by
          refine forall_set hi.moves ?_
          cases pc' <;> trivial
        initted := fun _ => hresults
        returned := hi.returned
        checked := by simp [St.access, hi.checked] }

/-- what a step of thread `i` can do: an access to `control`, or a statement behind it -/
inductive ThreadSteps (cfg : Config) (s : St σ) (i : ℕ) : Pc → St σ → Prop
  | inits : ThreadSteps cfg s i .initting { s with initted_ := true, threads := s.threads.set i .finishing }
  | wakes (hfutex : cfg.have_futex = true) :
    ThreadSteps cfg s i .waking { s with threads := wakeAll Pc.isAsleep Pc.wake (s.threads.set i .returning) }
  | noFutex (hfutex : cfg.have_futex = false) : ThreadSteps cfg s i .waking (s.setThread i .returning)
  | returns :
    ThreadSteps cfg s i .returning { s with returned := s.returned ++ [s.status_], threads := s.threads.set i .idle }
  | accesses {pc : Pc} {a : Access} (h : advance cfg s.control pc = some a) : ThreadSteps cfg s i pc (s.access i a)

theorem stepThread_cases (h : stepThread cfg s i pc = some t) : ThreadSteps cfg s i pc t := by
  cases pc with
  | initting =>
    cases h
    exact ThreadSteps.inits
  | waking =>
    simp only [stepThread] at h
    split_ifs at h with hfutex
    · cases h
      exact ThreadSteps.wakes hfutex
    · cases h
      exact ThreadSteps.noFutex (by simpa using hfutex)
  | returning =>
    cases h
    exact ThreadSteps.returns
  | _ =>
    simp only [stepThread, Option.map_eq_some_iff] at h
    obtain ⟨a, ha, rfl⟩ := h
    exact ThreadSteps.accesses ha

theorem Pc.wake_cases (h : pc.isAsleep = true) : ∃ loop, pc = .asleep loop ∧ pc.wake = .waiting (loop + 1) := by
  cases pc <;> first | exact ⟨_, rfl, rfl⟩ | cases h

/-- a wake changes no runner, and nobody behind the end -/
theorem wakeAll_inv (hi : Inv s) : Inv { s with threads := wakeAll Pc.isAsleep Pc.wake s.threads } := by
  have hwake : ∀ (f : Pc → Bool), (∀ loop, f (.waiting loop) = false) → ∀ b ∈ wakeAll Pc.isAsleep Pc.wake s.threads,
      f b = true → b ∈ s.threads := by
    intro f hf b hb hfb
    obtain ⟨c, hc, rfl⟩ := List.mem_map.1 hb
    split_ifs at hfb ⊢ with hasleep
    · obtain ⟨loop, -, heq⟩ := Pc.wake_cases hasleep
      rw [heq, hf] at hfb
      cases hfb
    · exact hc
  have hrunners : (wakeAll Pc.isAsleep Pc.wake s.threads).countP Pc.runs = runners s := by
    refine wakeAll_countP fun b hb => ?_
    obtain ⟨loop, rfl, -⟩ := Pc.wake_cases hb
    rfl
  exact
    { phase := by
        show (wakeAll Pc.isAsleep Pc.wake s.threads).countP Pc.runs + _ + _ = 1
        rw [hrunners]
        exact hi.phase
      known := hi.known
      begun := hi.begun
      before := fun h => hi.before (h.imp id fun hmem => hwake Pc.runs (fun _ => rfl) _ hmem rfl)
      after := fun h => hi.after (h.imp id fun ⟨b, hb, hc⟩ => ⟨b, hwake Pc.called (fun _ => rfl) b hb hc, hc⟩)
      ended := fun b hb hc => hi.ended b (hwake Pc.ended (fun _ => rfl) b hb hc) hc
      moves := by
        refine wakeAll_forall hi.moves fun b hb _ => ?_
        obtain ⟨loop, -, heq⟩ := Pc.wake_cases hb
        rw [heq]
        exact trivial
      initted := hi.initted
      returned := hi.returned
      checked := hi.checked }

/-- the callback returned `st` -/
theorem call_inv (hi : Inv s) (hpc : s.threads[i]? = some .calling) (st : σ) :
    Inv { s with status_ := st, results := s.results ++ [st], threads := s.threads.set i .initting } := by
  obtain ⟨hresults, hinitted⟩ := hi.before (Or.inr (List.mem_of_getElem? hpc))
  obtain ⟨-, hinit, -⟩ := hi.runner hpc rfl
  have hrunners : (s.threads.set i .initting).countP Pc.runs = runners s :=
    Nat.add_right_cancel (runners_set hpc .initting)
  have honly : s.results ++ [st] = [st] := by rw [hresults, List.nil_append]
  exact
    { phase := by
        show (s.threads.set i .initting).countP Pc.runs + _ + _ = 1
        rw [hrunners]
        exact hi.phase
      known := hi.known
      begun := hi.begun
      before := by
        rintro (h | hmem)
        · exact absurd h hinit
        · rcases hi.others hpc rfl hmem with h | h
          · cases h
          · cases h
      after := fun _ => honly
      ended := forall_set hi.ended nofun
      moves := forall_set hi.moves trivial
      initted := fun _ => honly
      returned := fun u hu => absurd (hresults.symm.trans (hi.returned u hu)) (by simp)
      checked := hi.checked }

theorem stepThread_inv (hi : Inv s) (hpc : s.threads[i]? = some pc) (h : stepThread cfg s i pc = some t) : Inv t := by
  cases stepThread_cases h with
  | inits =>
    have hresults := hi.after (Or.inr ⟨_, List.mem_of_getElem? hpc, rfl⟩)
    obtain ⟨-, hinit, -⟩ := hi.runner hpc rfl
    have hrunners : (s.threads.set i .finishing).countP Pc.runs = runners s :=
      Nat.add_right_cancel (runners_set hpc .finishing)
    exact
      { phase := by
          show (s.threads.set i .finishing).countP Pc.runs + _ + _ = 1
          rw [hrunners]
          exact hi.phase
        known := hi.known
        begun := hi.begun
        before := by
          rintro (h | hmem)
          · exact absurd h hinit
          · rcases hi.others hpc rfl hmem with h | h
            · cases h
            · cases h
        after := fun _ => hresults
        ended := forall_set hi.ended nofun
        moves := forall_set hi.moves trivial
        initted := fun _ => hresults
        returned := hi.returned
        checked := hi.checked }
  | wakes hfutex =>
    have hdone := hi.ended _ (List.mem_of_getElem? hpc) rfl
    exact wakeAll_inv (s := s.setThread i .returning) (replace_inv hi hpc rfl rfl (fun _ => hdone) trivial)
  | noFutex hfutex =>
    have hdone := hi.ended _ (List.mem_of_getElem? hpc) rfl
    exact replace_inv hi hpc rfl rfl (fun _ => hdone) trivial
  | returns =>
    have hdone := hi.ended _ (List.mem_of_getElem? hpc) rfl
    have hset : Inv (s.setThread i .idle) := replace_inv hi hpc rfl rfl nofun trivial
    refine { hset with returned := fun st hst => ?_ }
    rcases List.mem_append.1 hst with hst | hst
    · exact hi.returned st hst
    · rw [List.mem_singleton.1 hst]
      exact hi.after (Or.inl hdone)
  | accesses ha => exact access_inv hi hpc (advance_cases ha (hi.moves pc (List.mem_of_getElem? hpc)))

theorem step_inv (hi : Inv s) (h : (machine cfg ok n).step s o = some t) : Inv t := by
  cases o with
  | begin i =>
    obtain ⟨pc, hpc, hbegin⟩ := Option.bind_eq_some_iff.1 h
    split_ifs at hbegin with hidle
    cases hbegin
    subst hidle
    exact replace_inv hi hpc rfl rfl nofun trivial
  | step i =>
    obtain ⟨pc, hpc, hstep⟩ := Option.bind_eq_some_iff.1 h
    exact stepThread_inv hi hpc hstep
  | call i st =>
    obtain ⟨pc, hpc, hcall⟩ := Option.bind_eq_some_iff.1 h
    split_ifs at hcall with hcalling
    cases hcall
    exact call_inv hi (hcalling ▸ hpc) st
  | timeout i =>
    obtain ⟨pc, hpc, htimeout⟩ := Option.bind_eq_some_iff.1 h
    split_ifs at htimeout with hasleep
    cases htimeout
    obtain ⟨loop, rfl, heq⟩ := Pc.wake_cases hasleep
    exact replace_inv hi hpc rfl rfl nofun trivial

theorem init_inv (cfg : Config) (ok : σ) (n : ℕ) : Inv (machine cfg ok n).init := by
  have hidle : ∀ pc ∈ (machine cfg ok n).init.threads, pc = .idle := fun pc hpc => List.eq_of_mem_replicate hpc
  have hrunners : runners (machine cfg ok n).init = 0 :=
    List.countP_eq_zero.2 fun pc hpc => by simp [hidle pc hpc, Pc.runs]
  exact
    { phase := by
        rw [hrunners]
        rfl
      known := Or.inl rfl
      begun := rfl
      before := fun _ => ⟨rfl, rfl⟩
      after := by
        rintro (h | ⟨pc, hpc, hcalled⟩)
        · exact absurd h done_ne_init.symm
        · rw [hidle pc hpc] at hcalled
          cases hcalled
      ended := fun pc hpc hended => by
        rw [hidle pc hpc] at hended
        cases hended
      moves := fun pc hpc => by
        rw [hidle pc hpc]
        exact trivial
      initted := nofun
      returned := nofun
      checked := rfl }

theorem run_inv {ops : List (Op σ)} (h : (machine cfg ok n).run (machine cfg ok n).init ops = some s) : Inv s :=
  Machine.run_inv (fun _ _ _ hi hst => step_inv hi hst) (init_inv cfg ok n) h

/-- **Once.** In every run the function begins at most once, and not again after it returned. What an `Init` returned is what
it gave, `initted()` is true only when that is stored, and `control` keeps to its four values. -/
theorem init_once {ops : List (Op σ)} (h : (machine cfg ok n).run (machine cfg ok n).init ops = some s) :
    s.begun ≤ 1 ∧ s.results.length ≤ s.begun ∧ (∀ st ∈ s.returned, s.results = [st]) ∧
      (s.initted_ = true → s.results = [s.status_]) ∧ KnownControl s.control ∧ s.checkFailed = false := by
  have hi := run_inv h
  refine ⟨?_, ?_, hi.returned, hi.initted, hi.known, hi.checked⟩
  · rw [hi.begun]
    split_ifs <;> omega
  · rw [hi.begun]
    have hphase := hi.phase
    split_ifs with hinit
    · simp [(hi.before (Or.inl hinit)).1]
    · rw [if_neg hinit] at hphase
      by_cases hdone : s.control = GOOGLE_ONCE_INTERNAL_DONE
      · simp [hi.after (Or.inl hdone)]
      · rw [if_neg hdone] at hphase
        have hpos : 0 < runners s := by omega
        obtain ⟨pc, hpc, hruns⟩ := List.countP_pos_iff.1 hpos
        cases pc with
        | calling => simp [(hi.before (Or.inr hpc)).1]
        | initting => simp [hi.after (Or.inr ⟨_, hpc, rfl⟩)]
        | finishing => simp [hi.after (Or.inr ⟨_, hpc, rfl⟩)]
        | storing old => simp [hi.after (Or.inr ⟨_, hpc, rfl⟩)]
        | _ => cases hruns

/-! ## Sleepers -/

/-- between the last load and the store of `DONE` -/
def Pc.isStoring : Pc → Bool
  | .storing _ => true
  | _ => false

/-- no waiter marks `control` while the runner is between its last load and its store -/
def Timely (cfg : Config) (ok : σ) (n : ℕ) (s : St σ) (o : Op σ) : Prop :=
  ∀ t ∈ (machine cfg ok n).step s o, s.control = GOOGLE_ONCE_INTERNAL_RUNNING →
    t.control = GOOGLE_ONCE_INTERNAL_WAITER → ∀ pc ∈ s.threads, pc.isStoring = false

instance [DecidableEq σ] (cfg : Config) (ok : σ) (n : ℕ) (s : St σ) (o : Op σ) : Decidable (Timely cfg ok n s o) :=
  inferInstanceAs (Decidable (∀ t ∈ (machine cfg ok n).step s o, s.control = GOOGLE_ONCE_INTERNAL_RUNNING →
    t.control = GOOGLE_ONCE_INTERNAL_WAITER → ∀ pc ∈ s.threads, pc.isStoring = false))

/-- the runner knows of the mark that is in `control`, and who sleeps, sleeps on the mark or is about to be woken -/
structure Awaited (cfg : Config) (s : St σ) : Prop where
  inv : Inv s
  loaded : ∀ old, .storing old ∈ s.threads → s.control = old
  woken : cfg.have_futex = true → (∃ pc ∈ s.threads, pc.isAsleep = true) →
    s.control = GOOGLE_ONCE_INTERNAL_WAITER ∨ .waking ∈ s.threads

/-- a thread that neither falls asleep nor reaches the store, and is not the one that wakes -/
theorem replace_woken (hw : cfg.have_futex = true → (∃ pc ∈ s.threads, pc.isAsleep = true) →
      s.control = GOOGLE_ONCE_INTERNAL_WAITER ∨ .waking ∈ s.threads)
    (hpc : s.threads[i]? = some pc) (hwaking : pc ≠ .waking) (hasleep : pc'.isAsleep = false)
    (hfutex : cfg.have_futex = true) (h : ∃ pc ∈ s.threads.set i pc', pc.isAsleep = true) :
    s.control = GOOGLE_ONCE_INTERNAL_WAITER ∨ .waking ∈ s.threads.set i pc' := by
  obtain ⟨b, hb, hba⟩ := h
  rcases List.mem_or_eq_of_mem_set hb with hb | rfl
  · refine (hw hfutex ⟨b, hb, hba⟩).imp id fun hmem => ?_
    obtain ⟨c, hc, rfl⟩ := (@exists_set _ _ _ _ pc' _ hpc ⟨Pc.waking, hmem, rfl⟩).resolve_left hwaking.symm
    exact hc
  · rw [hasleep] at hba
    cases hba

theorem access_awaited (hs : Awaited cfg s) (hpc : s.threads[i]? = some pc) (ha : Advances cfg s.control pc a)
    (hwaking : pc ≠ .waking) (htimely : s.control = GOOGLE_ONCE_INTERNAL_RUNNING →
      a.control = GOOGLE_ONCE_INTERNAL_WAITER → ∀ pc ∈ s.threads, pc.isStoring = false) :
    Awaited cfg (s.access i a) := by
  refine ⟨access_inv hs.inv hpc ha, ?_, ?_⟩
  · intro old hold
    rcases List.mem_or_eq_of_mem_set hold with hmem | heq
    · cases ha with
      | quiet => exact hs.loaded old hmem
      | marks hrunning hruns => exact absurd (htimely hrunning rfl _ hmem) (by simp [Pc.isStoring])
      | starts hinit hruns => exact absurd ((hs.inv.fresh hinit).2 _ hmem) (by simp [Pc.runs])
      | loads => exact hs.loaded old hmem
      | @stores _ pc' hended _ =>
        rcases hs.inv.others hpc rfl hold with h | h
        · obtain rfl : Pc.storing old = pc' := h
          cases hended
        · cases h
    · cases ha with
      | @quiet _ pc' ok hok hruns hruns' hended hmoves hasleep =>
        obtain rfl : Pc.storing old = pc' := heq
        cases hruns'
      | marks hrunning hruns => cases heq
      | starts hinit hruns => cases heq
      | loads =>
        cases heq
        rfl
      | @stores _ pc' hended _ =>
        obtain rfl : Pc.storing old = pc' := heq
        cases hended
  · intro hfutex hsome
    cases ha with
    | @quiet _ pc' ok hok hruns hruns' hended hmoves hasleep =>
      cases hpc' : pc'.isAsleep with
      | true => exact Or.inl (hasleep hfutex hpc')
      | false => exact replace_woken hs.woken hpc hwaking hpc' hfutex hsome
    | marks hrunning hruns => exact Or.inl rfl
    | starts hinit hruns =>
      rcases replace_woken hs.woken hpc hwaking rfl hfutex hsome with h | h
      · exact absurd (h.symm.trans hinit) waiter_ne_init
      · have hended := hs.inv.ended .waking ((List.mem_or_eq_of_mem_set h).resolve_right nofun) rfl
        exact absurd (hended.symm.trans hinit) done_ne_init
    | loads => exact replace_woken hs.woken hpc hwaking rfl hfutex hsome
    | @stores old pc' hended hwakes =>
      right
      have hpc' : pc'.isAsleep = false := by
        cases pc' <;> first | rfl | cases hended
      rcases replace_woken hs.woken hpc hwaking hpc' hfutex hsome with h | h
      · have hold : old = GOOGLE_ONCE_INTERNAL_WAITER :=
          (hs.loaded old (List.mem_of_getElem? hpc)).symm.trans h
        exact hwakes hold ▸ mem_set_self hpc pc'
      · exact h

/-- a thread that goes on without an access to `control` -/
theorem replace_awaited (hs : Awaited cfg s) (hpc : s.threads[i]? = some pc) (hwaking : pc ≠ .waking)
    (hasleep : pc'.isAsleep = false) (hstoring : pc'.isStoring = false) (hthreads : t.threads = s.threads.set i pc')
    (hcontrol : t.control = s.control) (ht : Inv t) : Awaited cfg t := by
  refine ⟨ht, fun old hold => ?_, fun hfutex hsome => ?_⟩
  · rw [hthreads] at hold
    rw [hcontrol]
    refine hs.loaded old ((List.mem_or_eq_of_mem_set hold).resolve_right ?_)
    rintro rfl
    cases hstoring
  · rw [hthreads] at hsome ⊢
    rw [hcontrol]
    exact replace_woken hs.woken hpc hwaking hasleep hfutex hsome

theorem stepThread_awaited (hs : Awaited cfg s) (hpc : s.threads[i]? = some pc) (h : stepThread cfg s i pc = some t)
    (htimely : s.control = GOOGLE_ONCE_INTERNAL_RUNNING → t.control = GOOGLE_ONCE_INTERNAL_WAITER →
      ∀ pc ∈ s.threads, pc.isStoring = false) : Awaited cfg t := by
  have ht := stepThread_inv hs.inv hpc h
  cases stepThread_cases h with
  | inits => exact replace_awaited hs hpc nofun rfl rfl rfl rfl ht
  | returns => exact replace_awaited hs hpc nofun rfl rfl rfl rfl ht
  | accesses ha =>
    have hwaking : pc ≠ .waking := by
      rintro rfl
      cases ha
    exact access_awaited hs hpc (advance_cases ha (hs.inv.moves pc (List.mem_of_getElem? hpc))) hwaking htimely
  | wakes hfutex =>
    have hnone : ∀ b ∈ wakeAll Pc.isAsleep Pc.wake (s.threads.set i .returning), b.isAsleep = false :=
      wakeAll_waiters fun b hb => by
        obtain ⟨loop, -, heq⟩ := Pc.wake_cases hb
        rw [heq]
        rfl
    refine ⟨ht, fun old hold => ?_, fun _ hsome => ?_⟩
    · have hdone := hs.inv.ended _ (List.mem_of_getElem? hpc) rfl
      exact absurd hdone (ht.runner (List.getElem?_of_mem hold).choose_spec rfl).2.2
    · obtain ⟨b, hb, hasleep⟩ := hsome
      rw [hnone b hb] at hasleep
      cases hasleep
  | noFutex hfutex =>
    refine ⟨ht, fun old hold => ?_, fun hf => absurd hf (by simp [hfutex])⟩
    exact hs.loaded old ((List.mem_or_eq_of_mem_set hold).resolve_right (by simp))

theorem step_awaited (hs : Awaited cfg s) (htimely : Timely cfg ok n s o) (h : (machine cfg ok n).step s o = some t) :
    Awaited cfg t := by
  have ht := step_inv hs.inv h
  cases o with
  | begin i =>
    obtain ⟨pc, hpc, hbegin⟩ := Option.bind_eq_some_iff.1 h
    split_ifs at hbegin with hidle
    cases hbegin
    subst hidle
    exact replace_awaited hs hpc nofun rfl rfl rfl rfl ht
  | step i =>
    obtain ⟨pc, hpc, hstep⟩ := Option.bind_eq_some_iff.1 h
    exact stepThread_awaited hs hpc hstep (htimely t h)
  | call i st =>
    obtain ⟨pc, hpc, hcall⟩ := Option.bind_eq_some_iff.1 h
    split_ifs at hcall with hcalling
    cases hcall
    subst hcalling
    exact replace_awaited hs hpc nofun rfl rfl rfl rfl ht
  | timeout i =>
    obtain ⟨pc, hpc, htimeout⟩ := Option.bind_eq_some_iff.1 h
    split_ifs at htimeout with hasleep
    cases htimeout
    obtain ⟨loop, rfl, heq⟩ := Pc.wake_cases hasleep
    exact replace_awaited hs hpc nofun rfl rfl rfl rfl ht

theorem init_awaited (cfg : Config) (ok : σ) (n : ℕ) : Awaited cfg (machine cfg ok n).init := by
  have hidle : ∀ pc ∈ (machine cfg ok n).init.threads, pc = .idle := fun pc hpc => List.eq_of_mem_replicate hpc
  refine ⟨init_inv cfg ok n, fun old hold => absurd (hidle _ hold) nofun, ?_⟩
  rintro - ⟨pc, hpc, hasleep⟩
  rw [hidle pc hpc] at hasleep
  cases hasleep

/-- **No sleeper is forgotten** in a run without a late mark: as long as one sleeps, the function has a runner, who finds the
mark and wakes, or a thread is about to wake them all. -/
theorem timely_wakeup (hfutex : cfg.have_futex = true) {ops : List (Op σ)}
    (htimely : (machine cfg ok n).Along (Timely cfg ok n) (machine cfg ok n).init ops)
    (h : (machine cfg ok n).run (machine cfg ok n).init ops = some s) (hasleep : ∃ pc ∈ s.threads, pc.isAsleep = true) :
    (runners s = 1 ∧ s.control = GOOGLE_ONCE_INTERNAL_WAITER ∧
        ∀ old, .storing old ∈ s.threads → old = GOOGLE_ONCE_INTERNAL_WAITER) ∨ .waking ∈ s.threads := by
  have hs : Awaited cfg s :=
    Machine.run_inv_along (fun _ _ _ hi hP hst => step_awaited hi hP hst) (init_awaited cfg ok n) htimely h
  refine (hs.woken hfutex hasleep).imp (fun hwaiter => ⟨?_, hwaiter, fun old hold => ?_⟩) id
  · have hphase := hs.inv.phase
    rwa [hwaiter, if_neg waiter_ne_init, if_neg waiter_ne_done] at hphase
  · exact (hs.loaded old hold).symm.trans hwaiter

/-! ### Runs -/

def release : Config := ⟨false, true⟩

/-- thread 1 finds `RUNNING`, marks it, and sleeps in the second round; thread 0 finds the mark and wakes -/
def timelyOps : List (Op ℕ) :=
  [.begin 0, .step 0, .step 0, .begin 1, .step 1, .step 1, .step 1, .step 1, .step 1, .step 1, .call 0 7, .step 0, .step 0]

def timelyState : St ℕ :=
  ⟨GOOGLE_ONCE_INTERNAL_WAITER, [.storing GOOGLE_ONCE_INTERNAL_WAITER, .asleep 1], 7, true, 1, [7], [], false⟩

theorem timely_run : (machine release 0 2).run (machine release 0 2).init timelyOps = some timelyState := by
  decide +kernel

theorem init_once_twoThreads :
    timelyState.begun ≤ 1 ∧ timelyState.results.length ≤ timelyState.begun ∧
      (∀ st ∈ timelyState.returned, timelyState.results = [st]) ∧
      (timelyState.initted_ = true → timelyState.results = [timelyState.status_]) ∧
      KnownControl timelyState.control ∧ timelyState.checkFailed = false :=
  init_once timely_run

theorem timely_wakeup_twoThreads :
    (runners timelyState = 1 ∧ timelyState.control = GOOGLE_ONCE_INTERNAL_WAITER ∧
        ∀ old, .storing old ∈ timelyState.threads → old = GOOGLE_ONCE_INTERNAL_WAITER) ∨ .waking ∈ timelyState.threads :=
  timely_wakeup rfl (by decide +kernel) timely_run ⟨.asleep 1, by decide +kernel, rfl⟩

/-- the mark comes after the runner's load: the runner stores `DONE` and wakes nobody -/
theorem sleeper_is_lost :
    (machine release 0 2).run (machine release 0 2).init
        [.begin 0, .step 0, .step 0, .begin 1, .step 1, .step 1, .call 0 7, .step 0, .step 0, .step 1, .step 1, .step 1,
          .step 1, .step 0, .step 0] =
      some ⟨GOOGLE_ONCE_INTERNAL_DONE, [.idle, .asleep 1], 7, true, 1, [7], [7], false⟩ := by
  decide +kernel

end Bboy.Once
