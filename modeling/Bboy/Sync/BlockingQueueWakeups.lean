/-
The wakeups of `BlockingQueue`. A quiescent state is one in which every thread is asleep and not notified.

- `Announced`: if a consumer sleeps, there are as many notified consumers and signals to come as elements. A producer adds
  an element together with a signal, a signal notifies a sleeper, and who takes an element was notified for it or found
  one that another consumer was notified for.
- `no_lost_consumer_wakeup`: a consumer that sleeps in a quiescent state sleeps on an empty, open queue.
Witness: `no_lost_consumer_wakeup_twoConsumers`.
- A consumer signals `not_full_` once, however much it took, and a producer that this wakes does not pass the signal on
  when there is still room (`PassesOn`).
- `no_lost_producer_wakeup`: in a run along `PassesOn` a producer that sleeps in a quiescent state sleeps on a full, open
  queue. A step that misses `PassesOn` when all others sleep leads to a quiescent state in which one sleeps for good.
Witnesses: `no_lost_producer_wakeup_twoProducers`, `drain_wakes_one_producer`.
-/
import Bboy.Sync.BlockingQueue

namespace Bboy.BlockingQueue

open Core

variable {α : Type} {cfg : Config α} {s t : St α} {o : Op α} {cond : Cond} {th : Thread α}

/-- nobody runs, and no notification is on its way -/
def Quiescent (s : St α) : Prop := ∀ th ∈ s.threads, th.waitsOn .notEmpty = true ∨ th.waitsOn .notFull = true

instance (s : St α) : Decidable (Quiescent s) :=
  inferInstanceAs (Decidable (∀ th ∈ s.threads, th.waitsOn .notEmpty = true ∨ th.waitsOn .notFull = true))

def Thread.isSignalling (th : Thread α) : Bool := th.pc = .signalling

/-- consumers sleep on `not_empty_`, blocking producers on `not_full_`, and only producers signal -/
def Thread.Kind (th : Thread α) : Prop :=
  match th.pc with
  | .entering => True
  | .asleep .notEmpty _ => th.call.consumer = true
  | .asleep .notFull _ => th.call.blockingProducer = true
  | .signalling => th.call.consumer = false

def Kinds (s : St α) : Prop := ∀ th ∈ s.threads, th.Kind

/-! ## Threads one by one -/

theorem waitsOn_iff : th.waitsOn cond = true ↔ th.pc = .asleep cond false := decide_eq_true_iff

theorem wokenOn_iff : th.wokenOn cond = true ↔ th.pc = .asleep cond true := decide_eq_true_iff

theorem wake_wokenOn (h : th.waitsOn cond = true) (cond' : Cond) : th.wake.wokenOn cond' = decide (cond' = cond) := by
  have hpc := waitsOn_iff.1 h
  simp [Thread.wokenOn, Thread.wake, hpc, eq_comm]

theorem waitsOn_wokenOn (h : th.waitsOn cond = true) (cond' : Cond) : th.wokenOn cond' = false := by
  have hpc := waitsOn_iff.1 h
  simp [Thread.wokenOn, hpc]

theorem waitsOn_other (h : th.waitsOn cond = true) {cond' : Cond} (hne : cond' ≠ cond) : th.waitsOn cond' = false := by
  have hpc := waitsOn_iff.1 h
  simp [Thread.waitsOn, hpc, Ne.symm hne]

theorem wake_isSignalling (h : th.waitsOn cond = true) : th.wake.isSignalling = th.isSignalling := by
  have hpc := waitsOn_iff.1 h
  simp [Thread.isSignalling, Thread.wake, hpc]

theorem wake_call (th : Thread α) : th.wake.call = th.call := by
  unfold Thread.wake
  split <;> rfl

theorem wake_kind (h : th.waitsOn cond = true) (hk : th.Kind) : th.wake.Kind := by
  have hpc := waitsOn_iff.1 h
  cases cond <;> simpa [Thread.Kind, Thread.wake, hpc] using hk

/-- the counts of a slot whose pc is known -/
theorem slot_tally {l : List (Thread α)} {i : ℕ} (h : l[i]? = some th) (cond : Cond) :
    l.countP (Thread.waitsOn cond) = (l.eraseIdx i).countP (Thread.waitsOn cond) +
      (if th.pc = .asleep cond false then 1 else 0) ∧
    l.countP (Thread.wokenOn cond) = (l.eraseIdx i).countP (Thread.wokenOn cond) +
      (if th.pc = .asleep cond true then 1 else 0) ∧
    l.countP Thread.isSignalling = (l.eraseIdx i).countP Thread.isSignalling + (if th.pc = .signalling then 1 else 0) := by
  refine ⟨?_, ?_, ?_⟩
  · simpa [Thread.waitsOn] using slot_countP h (Thread.waitsOn cond)
  · simpa [Thread.wokenOn] using slot_countP h (Thread.wokenOn cond)
  · simpa [Thread.isSignalling] using slot_countP h Thread.isSignalling

/-- and those of a slot that is set to a pc -/
theorem slot_tally_set {l : List (Thread α)} {i : ℕ} (h : l[i]? = some th) (c : Call α) (pc : Pc) (cond : Cond) :
    (l.set i ⟨c, pc⟩).countP (Thread.waitsOn cond) = (l.eraseIdx i).countP (Thread.waitsOn cond) +
      (if pc = .asleep cond false then 1 else 0) ∧
    (l.set i ⟨c, pc⟩).countP (Thread.wokenOn cond) = (l.eraseIdx i).countP (Thread.wokenOn cond) +
      (if pc = .asleep cond true then 1 else 0) ∧
    (l.set i ⟨c, pc⟩).countP Thread.isSignalling = (l.eraseIdx i).countP Thread.isSignalling +
      (if pc = .signalling then 1 else 0) := by
  refine ⟨?_, ?_, ?_⟩
  · simpa [Thread.waitsOn] using slot_countP_set h (Thread.waitsOn cond) ⟨c, pc⟩
  · simpa [Thread.wokenOn] using slot_countP_set h (Thread.wokenOn cond) ⟨c, pc⟩
  · simpa [Thread.isSignalling] using slot_countP_set h Thread.isSignalling ⟨c, pc⟩

/-- who runs a critical section neither sleeps nor signals -/
theorem ready_awake (h : th.pc.ready = true) (cond : Cond) : th.pc ≠ .asleep cond false ∧ th.pc ≠ .signalling := by
  constructor
  · intro hpc
    rw [hpc] at h
    cases h
  · intro hpc
    rw [hpc] at h
    cases h

/-- a signal either finds a sleeper, or nobody sleeps -/
theorem signal_waiters {l l' : List (Thread α)} {target : Option ℕ}
    (h : wakeOne (Thread.waitsOn cond) Thread.wake l target = some l') :
    l.countP (Thread.waitsOn cond) = 0 ∧ l' = l ∨
      l.countP (Thread.waitsOn cond) = l'.countP (Thread.waitsOn cond) + 1 ∧
        l'.countP (Thread.wokenOn cond) = l.countP (Thread.wokenOn cond) + 1 := by
  refine wakeOne_waiters (fun _ hw => wake_waitsOn hw cond) (fun _ hw => ?_) (fun _ hw => waitsOn_wokenOn hw cond) h
  simp [wake_wokenOn hw]

/-- a producer is not woken on `not_empty_` -/
theorem Thread.Kind.notConsumer (hk : th.Kind) (hc : th.call.consumer = false) : th.wokenOn .notEmpty = false := by
  by_contra hw
  have hpc := wokenOn_iff.1 (Bool.eq_true_of_not_eq_false hw)
  simp [Thread.Kind, hpc, hc] at hk

/-- a consumer is not woken on `not_full_` -/
theorem Thread.Kind.consumer (hk : th.Kind) (hc : th.call.consumer = true) : th.wokenOn .notFull = false := by
  by_contra hw
  have hpc := wokenOn_iff.1 (Bool.eq_true_of_not_eq_false hw)
  have hp : th.call.blockingProducer = true := by simpa [Thread.Kind, hpc] using hk
  cases hcall : th.call <;> simp [hcall, Call.consumer, Call.blockingProducer] at hc hp

theorem element_consumer {c : Call α} (h : c.element.isSome) : c.consumer = false := by
  cases c <;> first | rfl | cases h

theorem producer_element {c : Call α} (h : c.blockingProducer = true) : c.element.isSome := by
  cases c <;> first | rfl | cases h

theorem step_kinds (hi : Kinds s) (h : (machine cfg).step s o = some t) : Kinds t := by
  intro th hth
  cases step_cases h with
  | call c =>
    rcases List.mem_append.1 hth with hth | hth
    · exact hi th hth
    · rw [List.mem_singleton.1 hth]
      exact trivial
  | run hth₀ hready hsec henter hleave =>
    cases henter with
    | waitsNotFull hc hshut hfull =>
      cases hleave
      rcases List.mem_or_eq_of_mem_set hth with hth | rfl
      · exact hi th hth
      · exact hc
    | waitsNotEmpty hc hshut hempty =>
      cases hleave
      rcases List.mem_or_eq_of_mem_set hth with hth | rfl
      · exact hi th hth
      · exact hc
    | inserts v r hv hshut hroom hr hd =>
      cases hleave
      rcases List.mem_or_eq_of_mem_set hth with hth | rfl
      · exact hi th hth
      · exact element_consumer (by rw [hv]; rfl)
    | _ => exact returns_forall hi (fun _ _ hwait hk => wake_kind hwait hk) hleave th hth
  | signal hth₀ hpc hwake =>
    exact wakeOne_forall (fun th hth => hi th (List.mem_of_mem_eraseIdx hth)) (fun _ hwait hk => wake_kind hwait hk) hwake
      th hth
  | @spurious i th₀ cond hth₀ hpc =>
    rcases List.mem_or_eq_of_mem_set hth with hth | rfl
    · exact hi th hth
    · have hk := hi th₀ (List.mem_of_getElem? hth₀)
      cases cond <;> simpa [Thread.Kind, hpc] using hk

/-! ## Consumers -/

def waiters (cond : Cond) (s : St α) : ℕ := s.threads.countP (Thread.waitsOn cond)

def woken (cond : Cond) (s : St α) : ℕ := s.threads.countP (Thread.wokenOn cond)

def signalling (s : St α) : ℕ := s.threads.countP Thread.isSignalling

/-- **The announced elements.** If a consumer sleeps, each element has a notified consumer or a signal to come. -/
def Announced (s : St α) : Prop := 0 < waiters .notEmpty s → s.queue.list.length ≤ woken .notEmpty s + signalling s

theorem awake_waiters (ha : Awake s) (hshut : s.queue.shutdown = true) (cond : Cond) : waiters cond s = 0 :=
  List.countP_eq_zero.2 fun th hth => by simp [ha hshut th hth cond]

/-- a call that returned without waking a consumer: the counts of the others -/
theorem returns_notEmpty {l l' : List (Thread α)} {i : ℕ} {c : Call α} {target : Option ℕ} {r : Report α} {n : Notify}
    {p : Thread α → Bool} (hn : n ≠ .broadcast) (hp : ∀ th : Thread α, th.waitsOn .notFull = true → p th.wake = p th)
    (h : leave l i c target (.returns r n) = some l') : l'.countP p = (l.eraseIdx i).countP p := by
  cases n with
  | none =>
    cases h
    rfl
  | signalNotFull => exact wakeOne_countP hp h
  | broadcast => exact absurd rfl hn

theorem wake_notEmpty {th : Thread α} (h : th.waitsOn .notFull = true) :
    th.wake.waitsOn .notEmpty = th.waitsOn .notEmpty ∧ th.wake.wokenOn .notEmpty = th.wokenOn .notEmpty := by
  rw [wake_waitsOn h, waitsOn_other h (by simp), wake_wokenOn h, waitsOn_wokenOn h]
  simp

theorem step_announced (hk : Kinds s) (ha : Awake t) (hi : Announced s) (h : (machine cfg).step s o = some t) :
    Announced t := by
  intro hwait
  have hopen : t.queue.shutdown = false := by
    by_contra hshut
    rw [awake_waiters ha (Bool.eq_true_of_not_eq_false hshut)] at hwait
    exact absurd hwait (lt_irrefl 0)
  unfold Announced at hi
  simp only [waiters, woken, signalling] at hi hwait ⊢
  cases step_cases h with
  | call c =>
    rw [List.countP_append] at hwait
    rw [List.countP_append, List.countP_append]
    exact hi hwait
  | @run i target th q e threads hth hready hsec henter hleave =>
    dsimp only at hwait hopen ⊢
    obtain ⟨hwaits, hwoken, hsig⟩ := slot_tally hth .notEmpty
    have hnot := ready_awake hready .notEmpty
    rw [if_neg hnot.1] at hwaits
    rw [if_neg hnot.2] at hsig
    have hproducer : th.call.consumer = false → th.pc ≠ .asleep .notEmpty true := by
      intro hc hpc
      have hkind := (hk th (List.mem_of_getElem? hth)).notConsumer hc
      exact absurd (wokenOn_iff.2 hpc) (by simp [hkind])
    cases henter with
    | full r hv hc hfull hr hd =>
      cases hleave
      rw [if_neg (hproducer (element_consumer hv))] at hwoken
      omega
    | refused r hshut hempty hr hd => exact absurd hopen (by simp [hshut])
    | waitsNotFull hc hshut hfull =>
      cases hleave
      rw [if_neg (hproducer (element_consumer (producer_element hc)))] at hwoken
      obtain ⟨hwaits', hwoken', hsig'⟩ := slot_tally_set hth th.call (.asleep .notFull false) .notEmpty
      simp only [Pc.asleep.injEq, reduceCtorEq, false_and, if_false] at hwaits' hwoken' hsig'
      omega
    | waitsNotEmpty hc hshut hempty => simp [hempty]
    | inserts v r hv hshut hroom hr hd =>
      -- one element more, and the signal for it
      cases hleave
      rw [if_neg (hproducer (element_consumer (by rw [hv]; rfl)))] at hwoken
      obtain ⟨hwaits', hwoken', hsig'⟩ := slot_tally_set hth th.call .signalling .notEmpty
      simp only [reduceCtorEq, if_false, if_true] at hwaits' hwoken' hsig'
      simp only [Queue.pushBack, List.length_append, List.length_singleton]
      omega
    | delivers rest r hc hd hne hr =>
      -- at most the consumer itself is a notified one less, and it took an element
      have hcount : ∀ p : Thread α → Bool, (∀ th : Thread α, th.waitsOn .notFull = true → p th.wake = p th) →
          threads.countP p = (s.threads.eraseIdx i).countP p := fun p hp => returns_notEmpty (by simp) hp hleave
      have hwaits' := hcount (Thread.waitsOn .notEmpty) fun _ hw => (wake_notEmpty hw).1
      have hwoken' := hcount (Thread.wokenOn .notEmpty) fun _ hw => (wake_notEmpty hw).2
      have hsig' := hcount Thread.isSignalling fun _ hw => wake_isSignalling hw
      have hlength : r.delivered.length + rest.length = s.queue.list.length := by rw [← hd, List.length_append]
      have htaken : 0 < r.delivered.length := List.length_pos_iff.2 hne
      dsimp only
      split_ifs at hwoken <;> omega
    | shuts hc => cases hopen
  | @signal i target th threads hth hpc hwake =>
    obtain ⟨hwaits, hwoken, hsig⟩ := slot_tally hth .notEmpty
    simp only [hpc, reduceCtorEq, if_false, if_true] at hwaits hwoken hsig
    have hsig' := wakeOne_countP (q := Thread.isSignalling) (fun _ hw => wake_isSignalling hw) hwake
    dsimp only at hwait ⊢
    rcases signal_waiters hwake with ⟨hnone, rfl⟩ | ⟨hw, hn⟩ <;> omega
  | @spurious i th cond hth hpc =>
    obtain ⟨hwaits, hwoken, hsig⟩ := slot_tally hth .notEmpty
    obtain ⟨hwaits', hwoken', hsig'⟩ := slot_tally_set hth th.call (.asleep cond true) .notEmpty
    simp only [hpc, reduceCtorEq, if_false] at hwaits hwoken hsig hsig' hwaits' hwoken' hwait ⊢
    cases cond <;> simp at hwaits hwoken hwaits' hwoken' <;> omega

/-- what every run keeps -/
structure WakeInv (s : St α) : Prop where
  kinds : Kinds s
  awake : Awake s
  announced : Announced s

theorem step_wakeInv (hi : WakeInv s) (h : (machine cfg).step s o = some t) : WakeInv t := by
  have ha := step_awake hi.awake h
  exact ⟨step_kinds hi.kinds h, ha, step_announced hi.kinds ha hi.announced h⟩

theorem wakeInv_init : WakeInv (machine cfg).init :=
  ⟨fun _ hth => absurd hth List.not_mem_nil, fun h => Bool.noConfusion h, fun h => absurd h (lt_irrefl 0)⟩

theorem run_wakeInv {ops : List (Op α)} (hrun : (machine cfg).run (machine cfg).init ops = some s) : WakeInv s :=
  Machine.run_inv (fun _ _ _ hi h => step_wakeInv hi h) wakeInv_init hrun

theorem Quiescent.waits (hq : Quiescent s) (hth : th ∈ s.threads) : ∃ cond, th.waitsOn cond = true := by
  rcases hq th hth with hwait | hwait
  · exact ⟨.notEmpty, hwait⟩
  · exact ⟨.notFull, hwait⟩

theorem Quiescent.woken (hq : Quiescent s) (cond : Cond) : woken cond s = 0 := by
  apply List.countP_eq_zero.2
  intro th hth
  obtain ⟨cond', hwait⟩ := hq.waits hth
  simp [waitsOn_wokenOn hwait]

theorem Quiescent.signalling (hq : Quiescent s) : signalling s = 0 := by
  apply List.countP_eq_zero.2
  intro th hth
  obtain ⟨cond', hwait⟩ := hq.waits hth
  simp [Thread.isSignalling, waitsOn_iff.1 hwait]

/-- **No lost wakeup of a consumer.** In a quiescent state a consumer sleeps on an empty, open queue only. -/
theorem no_lost_consumer_wakeup {ops : List (Op α)} (hrun : (machine cfg).run (machine cfg).init ops = some s)
    (hq : Quiescent s) (hth : th ∈ s.threads) (hwait : th.waitsOn .notEmpty = true) :
    s.queue.list = [] ∧ s.queue.shutdown = false := by
  have hi := run_wakeInv hrun
  have hpos : 0 < waiters .notEmpty s := List.countP_pos_iff.2 ⟨th, hth, hwait⟩
  have hlen := hi.announced hpos
  rw [hq.woken, hq.signalling] at hlen
  refine ⟨List.length_eq_zero_iff.1 (Nat.le_zero.1 hlen), ?_⟩
  by_contra hshut
  have hawake := hi.awake (Bool.eq_true_of_not_eq_false hshut) th hth .notEmpty
  exact absurd hwait (by simp [hawake])

/-- two sleeping consumers: an element is put, the signal wakes one of them, which takes it -/
def oneElement : List (Op ℕ) :=
  [.call .blockingGet, .run 0 none, .call .blockingGet, .run 1 none, .call (.put 5), .run 2 none, .signal 2 (some 0),
    .run 0 none]

theorem no_lost_consumer_wakeup_twoConsumers :
    let cfg : Config ℕ := ⟨2, fun _ => 1⟩
    ∃ s, (machine cfg).run (machine cfg).init oneElement = some s ∧ Quiescent s ∧
      s.threads = [⟨.blockingGet, .asleep .notEmpty false⟩] ∧ s.queue.list = [] ∧ s.queue.shutdown = false := by
  intro cfg
  refine ⟨_, rfl, by decide, rfl, ?_⟩
  exact no_lost_consumer_wakeup (rfl : (machine cfg).run (machine cfg).init oneElement = some _) (by decide)
    (List.mem_singleton.2 rfl) rfl

/-! ## Producers -/

/-- the threads in a `BlockingGet` or a `BlockingDrainTo` -/
def consumers (s : St α) : ℕ := s.threads.countP fun th => th.call.consumer

/-- a producer that was woken and inserts leaves no room, nobody asleep, or someone who will signal again: another woken
producer, or a consumer in the midst of its call -/
def PassesOn (cfg : Config α) (s : St α) : Op α → Prop
  | .run i _ => ∀ th v, s.threads[i]? = some th → th.wokenOn .notFull = true → th.call = .blockingPut v →
      s.queue.shutdown = false → s.queue.size < cfg.maxSize →
      waiters .notFull s = 0 ∨ cfg.maxSize ≤ s.queue.size + cfg.logicalSize v ∨ 1 < woken .notFull s ∨ 0 < consumers s
  | _ => True

/-- **Room is announced.** If a producer sleeps while there is room, another one is woken, or a consumer is about to take
an element. -/
def RoomAnnounced (cfg : Config α) (s : St α) : Prop :=
  0 < waiters .notFull s → s.queue.size < cfg.maxSize → s.queue.shutdown = false →
    0 < woken .notFull s ∨ s.queue.list ≠ [] ∧ 0 < consumers s

theorem wake_notFull {th : Thread α} (h : th.waitsOn .notEmpty = true) :
    th.wake.waitsOn .notFull = th.waitsOn .notFull ∧ th.wake.wokenOn .notFull = th.wokenOn .notFull := by
  rw [wake_waitsOn h, waitsOn_other h (by simp), wake_wokenOn h, waitsOn_wokenOn h]
  simp

/-- a blocking producer that inserts `v` is a `BlockingPut` of `v` -/
theorem blockingPut_of_element {c : Call α} {v : α} (hp : c.blockingProducer = true) (hv : c.element = some v) :
    c = .blockingPut v := by
  cases c with
  | blockingPut w => rw [Option.some.inj hv]
  | _ => cases hp

theorem slot_consumers {l : List (Thread α)} {i : ℕ} (h : l[i]? = some th) (pc : Pc) :
    (l.set i ⟨th.call, pc⟩).countP (fun th => th.call.consumer) = l.countP fun th => th.call.consumer := by
  rw [slot_countP_set h, slot_countP h]

/-- a producer that signals `not_empty_` and returns leaves the other producers and the consumers as they are -/
theorem signal_producers {l l' : List (Thread α)} {i : ℕ} {target : Option ℕ} (hth : l[i]? = some th)
    (hpc : th.pc = .signalling) (hk : th.Kind)
    (hwake : wakeOne (Thread.waitsOn .notEmpty) Thread.wake (l.eraseIdx i) target = some l') :
    l'.countP (Thread.waitsOn .notFull) = l.countP (Thread.waitsOn .notFull) ∧
      l'.countP (Thread.wokenOn .notFull) = l.countP (Thread.wokenOn .notFull) ∧
      l'.countP (fun th => th.call.consumer) = l.countP fun th => th.call.consumer := by
  obtain ⟨hwaits, hwoken, -⟩ := slot_tally hth .notFull
  have hproducer : th.call.consumer = false := by simpa [Thread.Kind, hpc] using hk
  have hcons := slot_countP hth fun th => th.call.consumer
  simp only [hpc, hproducer, reduceCtorEq, Bool.false_eq_true, if_false, Nat.add_zero] at hwaits hwoken hcons
  rw [hwaits, hwoken, hcons]
  refine ⟨wakeOne_countP (fun _ hw => (wake_notFull hw).1) hwake, wakeOne_countP (fun _ hw => (wake_notFull hw).2) hwake, ?_⟩
  exact wakeOne_countP (q := fun th => th.call.consumer) (fun th _ => by rw [wake_call]) hwake

instance (s : St α) : ∀ o, Decidable (PassesOn cfg s o)
  | .run i _ => decidable_of_iff (∀ th ∈ s.threads[i]?, ∀ v ∈ th.call.element, th.call.blockingProducer = true →
      th.wokenOn .notFull = true → s.queue.shutdown = false → s.queue.size < cfg.maxSize → waiters .notFull s = 0 ∨
        cfg.maxSize ≤ s.queue.size + cfg.logicalSize v ∨ 1 < woken .notFull s ∨ 0 < consumers s) (by
    constructor
    · intro h th v hth hwoken hcall
      exact h th hth v (by rw [hcall]; rfl) (by rw [hcall]; rfl) hwoken
    · intro h th hth v hv hp hwoken
      exact h th v hth hwoken (blockingPut_of_element hp hv))
  | .call _ => isTrue trivial
  | .signal _ _ => isTrue trivial
  | .spurious _ => isTrue trivial

theorem step_roomAnnounced (hk : Kinds s) (hi : RoomAnnounced cfg s) (hp : PassesOn cfg s o)
    (h : (machine cfg).step s o = some t) : RoomAnnounced cfg t := by
  intro hwait hroom hopen
  unfold RoomAnnounced at hi
  simp only [waiters, woken, consumers] at hi hwait ⊢
  cases step_cases h with
  | call c =>
    rw [List.countP_append] at hwait
    rw [List.countP_append, List.countP_append]
    rcases hi hwait hroom hopen with hn | ⟨hne, hc⟩
    · exact Or.inl (Nat.lt_add_right _ hn)
    · exact Or.inr ⟨hne, Nat.lt_add_right _ hc⟩
  | @run i target th q e threads hth hready hsec henter hleave =>
    dsimp only at hwait hroom hopen ⊢
    obtain ⟨hwaits, hwoken, -⟩ := slot_tally hth .notFull
    rw [if_neg (ready_awake hready .notFull).1] at hwaits
    have hkind := hk th (List.mem_of_getElem? hth)
    cases henter with
    | full r hv hc hfull hr hd => exact absurd hroom (UInt64.not_lt.2 hfull)
    | refused r hshut hempty hr hd => exact absurd hopen (by simp [hshut])
    | waitsNotFull hc hshut hfull => exact absurd hroom (UInt64.not_lt.2 hfull)
    | waitsNotEmpty hc hshut hempty =>
      cases hleave
      have hnwoken : th.pc ≠ .asleep .notFull true := fun hpc =>
        absurd (wokenOn_iff.2 hpc) (by simp [hkind.consumer hc])
      rw [if_neg hnwoken] at hwoken
      obtain ⟨hwaits', hwoken', -⟩ := slot_tally_set hth th.call (.asleep .notEmpty false) .notFull
      simp only [Pc.asleep.injEq, reduceCtorEq, false_and, if_false] at hwaits' hwoken'
      rcases hi (by omega) hroom hopen with hn | ⟨hne, -⟩
      · left
        omega
      · exact absurd hempty hne
    | inserts v r hv hshut hbefore hr hd =>
      cases hleave
      obtain ⟨hwaits', hwoken', -⟩ := slot_tally_set hth th.call .signalling .notFull
      simp only [reduceCtorEq, if_false] at hwaits' hwoken'
      have hne : (s.queue.pushBack cfg v).list ≠ [] := List.append_ne_nil_of_right_ne_nil _ (List.cons_ne_nil v [])
      rw [slot_consumers hth]
      by_cases hpc : th.pc = .asleep .notFull true
      · -- the producer was woken for the room that it uses
        have hproducer : th.call.blockingProducer = true := by simpa [Thread.Kind, hpc] using hkind
        have hpass := hp th v hth (wokenOn_iff.2 hpc) (blockingPut_of_element hproducer hv) hshut hbefore
        simp only [waiters, woken, consumers] at hpass
        rw [if_pos hpc] at hwoken
        rcases hpass with hzero | hfull | hother | hcons
        · omega
        · exact absurd hroom (UInt64.not_lt.2 hfull)
        · left
          omega
        · exact Or.inr ⟨hne, hcons⟩
      · rw [if_neg hpc] at hwoken
        rcases hi (by omega) hbefore hshut with hn | ⟨-, hcons⟩
        · left
          omega
        · exact Or.inr ⟨hne, hcons⟩
    | delivers rest r hc hd hne hr =>
      left
      rcases signal_waiters hleave with ⟨hnone, rfl⟩ | ⟨hw, hn⟩ <;> omega
    | shuts hc => cases hopen
  | @signal i target th threads hth hpc hwake =>
    dsimp only at hwait hroom hopen ⊢
    obtain ⟨hwaits, hwoken, hcons⟩ := signal_producers hth hpc (hk th (List.mem_of_getElem? hth)) hwake
    rw [hwaits] at hwait
    rw [hwoken, hcons]
    exact hi hwait hroom hopen
  | @spurious i th cond hth hpc =>
    dsimp only at hwait hroom hopen ⊢
    obtain ⟨hwaits, hwoken, -⟩ := slot_tally hth .notFull
    obtain ⟨hwaits', hwoken', -⟩ := slot_tally_set hth th.call (.asleep cond true) .notFull
    rw [slot_consumers hth]
    cases cond with
    | notFull =>
      left
      simp only [if_true] at hwoken'
      omega
    | notEmpty =>
      simp only [hpc, Pc.asleep.injEq, reduceCtorEq, false_and, if_false] at hwaits hwoken hwaits' hwoken'
      rw [hwaits'] at hwait
      rw [hwoken']
      rw [hwaits, hwoken] at hi
      exact hi hwait hroom hopen

theorem run_roomAnnounced {ops : List (Op α)} (hpass : (machine cfg).Along (PassesOn cfg) (machine cfg).init ops)
    (hrun : (machine cfg).run (machine cfg).init ops = some s) : RoomAnnounced cfg s := by
  have hstep : ∀ (s : St α) o t, WakeInv s ∧ RoomAnnounced cfg s → PassesOn cfg s o → (machine cfg).step s o = some t →
      WakeInv t ∧ RoomAnnounced cfg t :=
    fun s o t hi hp h => ⟨step_wakeInv hi.1 h, step_roomAnnounced hi.1.kinds hi.2 hp h⟩
  exact (Machine.run_inv_along hstep ⟨wakeInv_init, fun h => absurd h (lt_irrefl 0)⟩ hpass hrun).2

/-- a state in which producers sleep only for a reason -/
def ProducersServed (cfg : Config α) (s : St α) : Prop :=
  ∀ th ∈ s.threads, th.waitsOn .notFull = true → cfg.maxSize ≤ s.queue.size ∧ s.queue.shutdown = false

theorem quiescent_served (hi : WakeInv s) (hr : RoomAnnounced cfg s) (hq : Quiescent s) : ProducersServed cfg s := by
  intro th hth hwait
  have hopen : s.queue.shutdown = false := by
    by_contra hshut
    have hawake := hi.awake (Bool.eq_true_of_not_eq_false hshut) th hth .notFull
    exact absurd hwait (by simp [hawake])
  refine ⟨?_, hopen⟩
  by_contra hroom
  have hpos : 0 < waiters .notFull s := List.countP_pos_iff.2 ⟨th, hth, hwait⟩
  rcases hr hpos (UInt64.not_le.1 hroom) hopen with hn | ⟨hne, hc⟩
  · rw [hq.woken] at hn
    exact absurd hn (lt_irrefl 0)
  · -- the consumer sleeps, and not on an element
    obtain ⟨th', hth', hc⟩ := List.countP_pos_iff.1 hc
    have hnotFull : th'.waitsOn .notFull = false := by
      by_contra hw
      have hpc := waitsOn_iff.1 (Bool.eq_true_of_not_eq_false hw)
      have hp : th'.call.blockingProducer = true := by simpa [Thread.Kind, hpc] using hi.kinds th' hth'
      rw [element_consumer (producer_element hp)] at hc
      cases hc
    have hnotEmpty : th'.waitsOn .notEmpty = true := by simpa [hnotFull] using hq th' hth'
    have hlen := hi.announced (List.countP_pos_iff.2 ⟨th', hth', hnotEmpty⟩)
    rw [hq.woken, hq.signalling] at hlen
    exact hne (List.length_eq_zero_iff.1 (Nat.le_zero.1 hlen))

/-- a step that misses `PassesOn` when all others sleep: a producer sleeps for good while there is room -/
theorem miss_strands (hi : WakeInv s) {i : ℕ}
    (hothers : ∀ j th, j ≠ i → s.threads[j]? = some th → th.waitsOn .notEmpty = true ∨ th.waitsOn .notFull = true)
    (hmiss : ¬ PassesOn cfg s (.run i none)) :
    ∃ u, (machine cfg).run s [.run i none, .signal i none] = some u ∧ Quiescent u ∧ ¬ ProducersServed cfg u := by
  simp only [PassesOn, not_forall, not_or] at hmiss
  obtain ⟨th, v, hth, hwoken, hcall, hopen, hroom, hwait, hleft, -, hcons⟩ := hmiss
  have hpc := wokenOn_iff.1 hwoken
  have henter : enter cfg s.queue th.call = (s.queue.pushBack cfg v, .signals (.blockingPut true)) := by
    simp [enter, hcall, blockingPut, hopen, hroom]
  have hnobody : ∀ th' ∈ s.threads.eraseIdx i, th'.waitsOn .notEmpty = false := by
    intro th' hth'
    have hmem := List.mem_of_mem_eraseIdx hth'
    by_contra hw
    have hpc' := waitsOn_iff.1 (Bool.eq_true_of_not_eq_false hw)
    have hc : th'.call.consumer = true := by simpa [Thread.Kind, hpc'] using hi.kinds th' hmem
    exact hcons (List.countP_pos_iff.2 ⟨th', hmem, hc⟩)
  let history := s.history ++ [⟨th.call, s.queue, s.queue.pushBack cfg v, .signals (.blockingPut true)⟩]
  let mid : St α := ⟨s.queue.pushBack cfg v, s.threads.set i ⟨th.call, .signalling⟩, history⟩
  have hinsert : (machine cfg).step s (.run i none) = some mid := by
    simp [machine, hth, runThread, hpc, Pc.ready, henter, leave, mid, history]
  have hsignal : (machine cfg).step mid (.signal i none) = some ⟨mid.queue, s.threads.eraseIdx i, history⟩ := by
    have hi' : mid.threads[i]? = some ⟨th.call, .signalling⟩ :=
      List.getElem?_set_self (List.getElem?_eq_some_iff.1 hth).1
    have herase : mid.threads.eraseIdx i = s.threads.eraseIdx i := List.eraseIdx_set_eq
    simp [machine, hi', signalNotEmpty, herase, wakeOne_none hnobody, mid]
  refine ⟨⟨mid.queue, s.threads.eraseIdx i, history⟩, ?_, ?_, ?_⟩
  · rw [Machine.run_cons, hinsert, Option.bind_some, Machine.run_cons, hsignal]
    rfl
  · intro th' hth'
    obtain ⟨j, hj, hget⟩ := List.mem_eraseIdx_iff_getElem?.1 hth'
    exact hothers j th' hj hget
  · intro hserved
    obtain ⟨hwaits, -, -⟩ := slot_tally hth .notFull
    rw [if_neg (by simp [hpc])] at hwaits
    have hpos : 0 < (s.threads.eraseIdx i).countP (Thread.waitsOn .notFull) := by
      simp only [waiters] at hwait
      omega
    obtain ⟨th', hth', hw⟩ := List.countP_pos_iff.1 hpos
    exact hleft (hserved th' hth' hw).1

/-- **No lost wakeup of a producer**, in a run in which every producer that is woken passes the signal on when it has to.
Where one does not, and all others sleep, some producer sleeps for good. -/
theorem no_lost_producer_wakeup {ops : List (Op α)} (hrun : (machine cfg).run (machine cfg).init ops = some s) :
    ((machine cfg).Along (PassesOn cfg) (machine cfg).init ops → Quiescent s → ProducersServed cfg s) ∧
    ∀ i, (∀ j th, j ≠ i → s.threads[j]? = some th → th.waitsOn .notEmpty = true ∨ th.waitsOn .notFull = true) →
      ¬ PassesOn cfg s (.run i none) →
      ∃ u, (machine cfg).run s [.run i none, .signal i none] = some u ∧ Quiescent u ∧ ¬ ProducersServed cfg u :=
  ⟨fun hpass hq => quiescent_served (run_wakeInv hrun) (run_roomAnnounced hpass hrun) hq,
    fun _ hothers hmiss => miss_strands (run_wakeInv hrun) hothers hmiss⟩

/-- one slot, an element and two sleeping producers: a consumer takes the element and wakes one of them, which inserts -/
def oneSlot : List (Op ℕ) :=
  [.call (.put 1), .run 0 none, .signal 0 none, .call (.blockingPut 2), .run 0 none, .call (.blockingPut 3), .run 1 none,
    .call .blockingGet, .run 2 (some 0), .run 0 none, .signal 0 none]

theorem no_lost_producer_wakeup_twoProducers :
    let cfg : Config ℕ := ⟨1, fun _ => 1⟩
    ∃ s, (machine cfg).run (machine cfg).init oneSlot = some s ∧ Quiescent s ∧
      s.threads = [⟨.blockingPut 3, .asleep .notFull false⟩] ∧ s.queue.list = [2] ∧ ProducersServed cfg s := by
  refine ⟨_, rfl, by decide, rfl, rfl, ?_⟩
  exact (@no_lost_producer_wakeup ℕ ⟨1, fun _ => 1⟩ _ oneSlot rfl).1 (by decide) (by decide)

/-- two slots, a full queue and two sleeping producers: the drain empties the queue and wakes one of them -/
theorem drain_wakes_one_producer :
    let cfg : Config ℕ := ⟨2, fun _ => 1⟩
    ∃ s, (machine cfg).run (machine cfg).init
        [.call (.put 1), .run 0 none, .signal 0 none, .call (.put 2), .run 0 none, .signal 0 none,
          .call (.blockingPut 3), .run 0 none, .call (.blockingPut 4), .run 1 none,
          .call .blockingDrainTo, .run 2 (some 0), .run 0 none, .signal 0 none] = some s ∧
      Quiescent s ∧ s.threads = [⟨.blockingPut 4, .asleep .notFull false⟩] ∧ s.queue.list = [3] ∧
      s.queue.size < cfg.maxSize ∧ ¬ ProducersServed cfg s := by
  refine ⟨_, rfl, by decide, rfl, rfl, by decide, ?_⟩
  intro hserved
  exact absurd (hserved _ (List.mem_singleton.2 rfl) rfl).1 (by decide)

end Bboy.BlockingQueue
