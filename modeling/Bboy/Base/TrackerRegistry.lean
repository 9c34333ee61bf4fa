/-
The registry of `MemTracker`s (`mem_tracker.cc`) shared by any number of threads: `CreateTracker`, `FindTracker`,
`FindOrCreateGlobalTracker`, `ListTrackers`, `LogUsage`, `Consume`, and the destruction of a tracker when its last
`shared_ptr` goes away.

Model: trackers are numbered in the order of their construction, the root is 0. Each has its number of `shared_ptr`s and
its `child_trackers_`, a list of weak pointers: a child whose number of references is 0 cannot be locked any more. Each
thread has a stack of frames; a frame stands for a call and says what it does next. One step is one access of what the
threads share.

- A `child_trackers_lock_` is held by the frames that are in its critical section (`Frame.locks`).
- Dropping the last reference puts `~MemTracker` on the stack of the thread that drops it (`dropRef`).
- A call borrows the caller's reference to its argument, so that no other thread can drop it meanwhile.
- The counters are those of `MemTracker`; here only the trackers that a `Consume` has added to are recorded.

What a step can do is said once, by `step_cases` and by `stepFinding_cases`, `stepListing_cases` and `stepLogging_cases`.
-/
import Bboy.Core.Machine
import Bboy.Core.Slots
import Bboy.Base.MemTrackerAccounting

namespace Bboy.MemTracker.Registry

open Core

/-! ## Frames -/

inductive CreatePc where
  /-- `AddChildTracker`: before its lock -/
  | adding
  | inserting
  /-- the loop of `Init`, at `tracker` -/
  | initialising (tracker : Option ℕ)
deriving DecidableEq, Repr

inductive FindPc where
  | locking
  | copying
  /-- the loop over the copied list -/
  | searching (children found : List ℕ)
  /-- the end of a round: the reference to `child` goes away -/
  | dropping (child : ℕ) (children found : List ℕ)
  /-- the return: the first tracker found stays referenced, the others do not -/
  | clearing (result : Option ℕ) (found : List ℕ)
deriving DecidableEq, Repr

inductive ListPc where
  | next
  | locking (t : ℕ)
  | iterating (t : ℕ) (children : List ℕ)
deriving DecidableEq, Repr

inductive LogPc where
  | locking
  | iterating (children : List ℕ)
  /-- `child->LogUsage(prefix)`, by the frame above or returned from it -/
  | inChild (child : ℕ) (children : List ℕ)
deriving DecidableEq, Repr

inductive DestroyPc where
  | locking
  | erasing
  /-- the reference `parent_` goes away -/
  | releasingParent
deriving DecidableEq, Repr

inductive ConsumePc where
  | starting
  /-- the loop over `all_trackers_` -/
  | adding (added todo : List ℕ)
deriving DecidableEq, Repr

/-- a call; `arg` is the parent that its caller passed, `global` says that it is a part of `FindOrCreateGlobalTracker` -/
inductive Frame where
  | creating (n parent : ℕ) (arg : Option ℕ) (global : Bool) (pc : CreatePc)
  /-- `FindOrCreateGlobalTracker`: before its lock -/
  | lockingGlobal (byteLimit : ℤ) (id : String)
  | finding (parent : ℕ) (arg : Option ℕ) (id : String) (global : Option ℤ) (pc : FindPc)
  | listing (trackers toProcess : List ℕ) (pc : ListPc)
  | logging (n : ℕ) (nested : Bool) (pc : LogPc)
  | destroying (n parent : ℕ) (pc : DestroyPc)
  | consuming (n : ℕ) (bytes : ℤ) (pc : ConsumePc)
deriving DecidableEq, Repr

/-- the `child_trackers_lock_`s that a frame holds -/
def Frame.locks : Frame → List ℕ
  | .creating _ parent _ _ .inserting => [parent]
  | .finding parent _ _ _ .copying => [parent]
  | .listing _ _ (.iterating t _) => [t]
  | .logging n _ (.iterating _) => [n]
  | .logging n _ (.inChild _ _) => [n]
  | .destroying _ parent .erasing => [parent]
  | _ => []

/-- the `child_trackers_lock_` that a frame acquires next -/
def Frame.wants : Frame → Option ℕ
  | .creating _ parent _ _ .adding => some parent
  | .finding parent _ _ _ .locking => some parent
  | .listing _ _ (.locking t) => some t
  | .logging n _ .locking => some n
  | .destroying _ parent .locking => some parent
  | _ => none

/-- the frame is inside `FindOrCreateGlobalTracker` -/
def Frame.inGlobal : Frame → Bool
  | .creating _ _ _ global _ => global
  | .finding _ _ _ global _ => global.isSome
  | _ => false

/-! ## States -/

structure St where
  /-- the number of trackers constructed -/
  next : ℕ
  tracker : ℕ → MemTracker ℕ
  /-- the number of `shared_ptr`s to each tracker -/
  refs : ℕ → ℕ
  children : ℕ → List ℕ
  /-- the references that the users have, except those borrowed by a running call -/
  held : ℕ → ℕ
  threads : List (List Frame)
  /-- ghost: for each `Consume` that has returned, the tracker, the bytes and the trackers they were added to -/
  consumed : List (ℕ × ℤ × List ℕ)

/-- some thread holds the lock -/
def Locked (s : St) (n : ℕ) : Prop := ∃ stack ∈ s.threads, n ∈ stack.flatMap Frame.locks

def GlobalLocked (s : St) : Prop := ∃ stack ∈ s.threads, ∃ f ∈ stack, f.inGlobal = true

/-- the users have a reference to the tracker -/
def Held (s : St) (n : ℕ) : Prop := n < s.next ∧ 0 < s.held n

instance (s : St) (n : ℕ) : Decidable (Locked s n) := inferInstanceAs (Decidable (∃ stack ∈ s.threads, _))

instance (s : St) : Decidable (GlobalLocked s) := inferInstanceAs (Decidable (∃ stack ∈ s.threads, _))

instance (s : St) (n : ℕ) : Decidable (Held s n) := inferInstanceAs (Decidable (_ ∧ _))

def setStack (s : St) (i : ℕ) (stack : List Frame) : St := { s with threads := s.threads.set i stack }

def addRef (s : St) (n : ℕ) : St := { s with refs := Function.update s.refs n (s.refs n + 1) }

def hold (s : St) (n : ℕ) : St := { s with held := Function.update s.held n (s.held n + 1) }

def borrow (s : St) (n : ℕ) : St := { s with held := Function.update s.held n (s.held n - 1) }

/-- the caller's reference to the argument of a call that returns -/
def giveBack (s : St) (arg : Option ℕ) : St := arg.elim s (hold s)

def setChildren (s : St) (n : ℕ) (children : List ℕ) : St :=
  { s with children := Function.update s.children n children }

/-- thread `i`, with the frames `below` still to run, drops a reference; the last one runs `~MemTracker` -/
def dropRef (s : St) (i : ℕ) (n : ℕ) (below : List Frame) : St :=
  let s := { s with refs := Function.update s.refs n (s.refs n - 1) }
  match (s.tracker n).parent with
  | some p => setStack s i (if s.refs n = 0 then .destroying n p .locking :: below else below)
  | none => setStack s i below

/-- `new MemTracker(..)` with the parent `p`, which it references -/
def construct (s : St) (p : ℕ) (byteLimit : ℤ) (id : String) : St :=
  addRef { s with
    next := s.next + 1
    tracker := Function.update s.tracker s.next ⟨byteLimit, id, some p, []⟩
    refs := Function.update s.refs s.next 1 } p

/-- `all_trackers_.push_back(t)` of tracker `n` -/
def pushTracker (s : St) (n t : ℕ) : St :=
  let pushed := { s.tracker n with allTrackers := (s.tracker n).allTrackers ++ [t] }
  { s with tracker := Function.update s.tracker n pushed }

/-! ## Steps -/

/-- the next step of the frame on top of the stack of thread `i` -/
def stepCreating (s : St) (i : ℕ) (n parent : ℕ) (arg : Option ℕ) (global : Bool) (below : List Frame) :
    CreatePc → Option St
  | .adding =>
    if Locked s parent then none else some (setStack s i (.creating n parent arg global .inserting :: below))
  | .inserting =>
    some (setStack (setChildren s parent (s.children parent ++ [n])) i
      (.creating n parent arg global (.initialising (some n)) :: below))
  | .initialising (some t) =>
    some (setStack (pushTracker s n t) i
      (.creating n parent arg global (.initialising (s.tracker t).parent) :: below))
  | .initialising none => some (setStack (giveBack (hold s n) arg) i below)

def stepFinding (s : St) (i : ℕ) (parent : ℕ) (arg : Option ℕ) (id : String) (global : Option ℤ) (below : List Frame) :
    FindPc → Option St
  | .locking =>
    if Locked s parent then none else some (setStack s i (.finding parent arg id global .copying :: below))
  | .copying => some (setStack s i (.finding parent arg id global (.searching (s.children parent) []) :: below))
  | .searching (child :: children) found =>
    if 0 < s.refs child then
      some (setStack (addRef s child) i
        (if (s.tracker child).id = id then .finding parent arg id global (.searching children (found ++ [child])) :: below
        else .finding parent arg id global (.dropping child children found) :: below))
    else some (setStack s i (.finding parent arg id global (.searching children found) :: below))
  | .dropping child children found =>
    some (dropRef s i child (.finding parent arg id global (.searching children found) :: below))
  | .searching [] found => some (setStack s i (.finding parent arg id global (.clearing found.head? found.tail) :: below))
  | .clearing result (child :: found) =>
    some (dropRef s i child (.finding parent arg id global (.clearing result found) :: below))
  | .clearing (some n) [] => some (setStack (giveBack (hold s n) arg) i below)
  | .clearing none [] =>
    match global with
    | some byteLimit =>
      some (setStack (construct s 0 byteLimit id) i (.creating s.next 0 none true .adding :: below))
    | none => some (setStack (giveBack s arg) i below)

def stepListing (s : St) (i : ℕ) (trackers toProcess : List ℕ) (below : List Frame) : ListPc → Option St
  | .next =>
    match toProcess with
    | [] => some (setStack (trackers.foldl hold s) i below)
    | t :: toProcess => some (setStack s i (.listing (trackers ++ [t]) toProcess (.locking t) :: below))
  | .locking t =>
    if Locked s t then none
    else some (setStack s i (.listing trackers toProcess (.iterating t (s.children t)) :: below))
  | .iterating t (child :: children) =>
    if 0 < s.refs child then
      some (setStack (addRef s child) i (.listing trackers (child :: toProcess) (.iterating t children) :: below))
    else some (setStack s i (.listing trackers toProcess (.iterating t children) :: below))
  | .iterating _ [] => some (setStack s i (.listing trackers toProcess .next :: below))

def stepLogging (s : St) (i : ℕ) (n : ℕ) (nested : Bool) (below : List Frame) : LogPc → Option St
  | .locking =>
    if Locked s n then none else some (setStack s i (.logging n nested (.iterating (s.children n)) :: below))
  | .iterating (child :: children) =>
    if 0 < s.refs child then
      some (setStack (addRef s child) i
        (.logging child true .locking :: .logging n nested (.inChild child children) :: below))
    else some (setStack s i (.logging n nested (.iterating children) :: below))
  | .inChild child children => some (dropRef s i child (.logging n nested (.iterating children) :: below))
  | .iterating [] => some (setStack (if nested then s else hold s n) i below)

def stepDestroying (s : St) (i : ℕ) (n parent : ℕ) (below : List Frame) : DestroyPc → Option St
  | .locking => if Locked s parent then none else some (setStack s i (.destroying n parent .erasing :: below))
  | .erasing =>
    some (setStack (setChildren s parent ((s.children parent).erase n)) i (.destroying n parent .releasingParent :: below))
  | .releasingParent => some (dropRef s i parent below)

def stepConsuming (s : St) (i : ℕ) (n : ℕ) (bytes : ℤ) (below : List Frame) : ConsumePc → Option St
  | .starting => some (setStack s i (.consuming n bytes (.adding [] (s.tracker n).allTrackers) :: below))
  | .adding added (t :: todo) => some (setStack s i (.consuming n bytes (.adding (added ++ [t]) todo) :: below))
  | .adding added [] =>
    some (setStack (hold { s with consumed := (n, bytes, added) :: s.consumed } n) i below)

def stepTop (s : St) (i : ℕ) (f : Frame) (below : List Frame) : Option St :=
  match f with
  | .creating n parent arg global pc => stepCreating s i n parent arg global below pc
  | .lockingGlobal byteLimit id =>
    if GlobalLocked s then none else some (setStack s i (.finding 0 none id (some byteLimit) .locking :: below))
  | .finding parent arg id global pc => stepFinding s i parent arg id global below pc
  | .listing trackers toProcess pc => stepListing s i trackers toProcess below pc
  | .logging n nested pc => stepLogging s i n nested below pc
  | .destroying n parent pc => stepDestroying s i n parent below pc
  | .consuming n bytes pc => stepConsuming s i n bytes below pc

inductive Op where
  | spawn
  | getRootTracker
  /-- a user copies a `shared_ptr` -/
  | copy (n : ℕ)
  | createTracker (i : ℕ) (byteLimit : ℤ) (id : String) (parent : Option ℕ)
  | findTracker (i : ℕ) (id : String) (parent : Option ℕ)
  | findOrCreateGlobalTracker (i : ℕ) (byteLimit : ℤ) (id : String)
  | listTrackers (i : ℕ)
  | logUsage (i : ℕ) (n : ℕ)
  | consume (i : ℕ) (n : ℕ) (bytes : ℤ)
  /-- a user drops a `shared_ptr` -/
  | drop (i : ℕ) (n : ℕ)
  | step (i : ℕ)

/-- the caller of a call has a reference to its argument -/
def ArgHeld (s : St) (arg : Option ℕ) : Prop := ∀ p ∈ arg, Held s p

instance (s : St) (arg : Option ℕ) : Decidable (ArgHeld s arg) := inferInstanceAs (Decidable (∀ p ∈ arg, _))

def borrowArg (s : St) (arg : Option ℕ) : St := arg.elim s (borrow s)

def registry (memoryLimitHardBytes totalRam : ℤ) : Machine St Op where
  init :=
    { next := 1
      tracker := Function.update (fun _ => ⟨-1, "", none, []⟩) 0
        ⟨rootLimit memoryLimitHardBytes totalRam, "root", none, [0]⟩
      refs := Function.update (fun _ => 0) 0 1
      children := fun _ => []
      held := fun _ => 0
      threads := []
      consumed := [] }
  step s
    | .spawn => some { s with threads := s.threads ++ [[]] }
    | .getRootTracker => some (hold (addRef s 0) 0)
    | .copy n => if Held s n then some (hold (addRef s n) n) else none
    | .createTracker i byteLimit id parent =>
      if s.threads[i]? = some [] ∧ ArgHeld s parent then
        some (setStack (construct (borrowArg s parent) (parent.getD 0) byteLimit id) i
          [.creating s.next (parent.getD 0) parent false .adding])
      else none
    | .findTracker i id parent =>
      if s.threads[i]? = some [] ∧ ArgHeld s parent then
        some (setStack (borrowArg s parent) i [.finding (parent.getD 0) parent id none .locking])
      else none
    | .findOrCreateGlobalTracker i byteLimit id =>
      if s.threads[i]? = some [] then some (setStack s i [.lockingGlobal byteLimit id]) else none
    | .listTrackers i =>
      if s.threads[i]? = some [] then some (setStack (addRef s 0) i [.listing [] [0] .next]) else none
    | .logUsage i n =>
      if s.threads[i]? = some [] ∧ Held s n then some (setStack (borrow s n) i [.logging n false .locking]) else none
    | .consume i n bytes =>
      if s.threads[i]? = some [] ∧ Held s n ∧ 0 < bytes then
        some (setStack (borrow s n) i [.consuming n bytes .starting])
      else none
    | .drop i n => if s.threads[i]? = some [] ∧ Held s n then some (dropRef (borrow s n) i n []) else none
    | .step i =>
      match s.threads[i]? with
      | some (f :: below) => stepTop s i f below
      | _ => none

/-- what a step can do -/
inductive Steps (s : St) : Op → St → Prop
  | spawn : Steps s .spawn { s with threads := s.threads ++ [[]] }
  | getRootTracker : Steps s .getRootTracker (hold (addRef s 0) 0)
  | copy {n} (hheld : Held s n) : Steps s (.copy n) (hold (addRef s n) n)
  | createTracker {i byteLimit id parent} (hi : s.threads[i]? = some []) (harg : ArgHeld s parent) :
    Steps s (.createTracker i byteLimit id parent)
      (setStack (construct (borrowArg s parent) (parent.getD 0) byteLimit id) i
        [.creating s.next (parent.getD 0) parent false .adding])
  | findTracker {i id parent} (hi : s.threads[i]? = some []) (harg : ArgHeld s parent) :
    Steps s (.findTracker i id parent)
      (setStack (borrowArg s parent) i [.finding (parent.getD 0) parent id none .locking])
  | findOrCreateGlobalTracker {i byteLimit id} (hi : s.threads[i]? = some []) :
    Steps s (.findOrCreateGlobalTracker i byteLimit id) (setStack s i [.lockingGlobal byteLimit id])
  | listTrackers {i} (hi : s.threads[i]? = some []) :
    Steps s (.listTrackers i) (setStack (addRef s 0) i [.listing [] [0] .next])
  | logUsage {i n} (hi : s.threads[i]? = some []) (hheld : Held s n) :
    Steps s (.logUsage i n) (setStack (borrow s n) i [.logging n false .locking])
  | consume {i n bytes} (hi : s.threads[i]? = some []) (hheld : Held s n) (hpos : 0 < bytes) :
    Steps s (.consume i n bytes) (setStack (borrow s n) i [.consuming n bytes .starting])
  | drop {i n} (hi : s.threads[i]? = some []) (hheld : Held s n) : Steps s (.drop i n) (dropRef (borrow s n) i n [])
  | step {i f below t} (hi : s.threads[i]? = some (f :: below)) (htop : stepTop s i f below = some t) :
    Steps s (.step i) t

/-- **What a step can do.** -/
theorem step_cases {memoryLimitHardBytes totalRam : ℤ} {s t : St} {o : Op}
    (hs : (registry memoryLimitHardBytes totalRam).step s o = some t) : Steps s o t := by
  cases o with
  | spawn =>
    cases hs
    exact .spawn
  | getRootTracker =>
    cases hs
    exact .getRootTracker
  | copy n =>
    simp only [registry] at hs
    split_ifs at hs with hheld
    cases hs
    exact .copy hheld
  | createTracker i byteLimit id parent =>
    simp only [registry] at hs
    split_ifs at hs with hcall
    cases hs
    exact .createTracker hcall.1 hcall.2
  | findTracker i id parent =>
    simp only [registry] at hs
    split_ifs at hs with hcall
    cases hs
    exact .findTracker hcall.1 hcall.2
  | findOrCreateGlobalTracker i byteLimit id =>
    simp only [registry] at hs
    split_ifs at hs with hcall
    cases hs
    exact .findOrCreateGlobalTracker hcall
  | listTrackers i =>
    simp only [registry] at hs
    split_ifs at hs with hcall
    cases hs
    exact .listTrackers hcall
  | logUsage i n =>
    simp only [registry] at hs
    split_ifs at hs with hcall
    cases hs
    exact .logUsage hcall.1 hcall.2
  | consume i n bytes =>
    simp only [registry] at hs
    split_ifs at hs with hcall
    cases hs
    exact .consume hcall.1 hcall.2.1 hcall.2.2
  | drop i n =>
    simp only [registry] at hs
    split_ifs at hs with hcall
    cases hs
    exact .drop hcall.1 hcall.2
  | step i =>
    simp only [registry] at hs
    split at hs
    next f below hi => exact .step hi hs
    next => cases hs

/-- what a step of a lookup can do -/
inductive FindingSteps (s : St) (i : ℕ) (parent : ℕ) (arg : Option ℕ) (id : String) (below : List Frame) :
    Option ℤ → FindPc → St → Prop
  | locking {global} (hfree : ¬Locked s parent) :
    FindingSteps s i parent arg id below global .locking
      (setStack s i (.finding parent arg id global .copying :: below))
  | copying {global} :
    FindingSteps s i parent arg id below global .copying
      (setStack s i (.finding parent arg id global (.searching (s.children parent) []) :: below))
  | matching {global child children found} (hlive : 0 < s.refs child) (hid : (s.tracker child).id = id) :
    FindingSteps s i parent arg id below global (.searching (child :: children) found)
      (setStack (addRef s child) i (.finding parent arg id global (.searching children (found ++ [child])) :: below))
  | other {global child children found} (hlive : 0 < s.refs child) (hid : (s.tracker child).id ≠ id) :
    FindingSteps s i parent arg id below global (.searching (child :: children) found)
      (setStack (addRef s child) i (.finding parent arg id global (.dropping child children found) :: below))
  | expired {global child children found} (hdead : ¬0 < s.refs child) :
    FindingSteps s i parent arg id below global (.searching (child :: children) found)
      (setStack s i (.finding parent arg id global (.searching children found) :: below))
  | searched {global found} :
    FindingSteps s i parent arg id below global (.searching [] found)
      (setStack s i (.finding parent arg id global (.clearing found.head? found.tail) :: below))
  | dropping {global child children found} :
    FindingSteps s i parent arg id below global (.dropping child children found)
      (dropRef s i child (.finding parent arg id global (.searching children found) :: below))
  | clearing {global result child found} :
    FindingSteps s i parent arg id below global (.clearing result (child :: found))
      (dropRef s i child (.finding parent arg id global (.clearing result found) :: below))
  | returnFound {global n} :
    FindingSteps s i parent arg id below global (.clearing (some n) []) (setStack (giveBack (hold s n) arg) i below)
  | returnNone :
    FindingSteps s i parent arg id below none (.clearing none []) (setStack (giveBack s arg) i below)
  | construct {byteLimit} :
    FindingSteps s i parent arg id below (some byteLimit) (.clearing none [])
      (setStack (construct s 0 byteLimit id) i (.creating s.next 0 none true .adding :: below))

theorem stepFinding_cases {s t : St} {i parent : ℕ} {arg : Option ℕ} {id : String} {global : Option ℤ}
    {below : List Frame} {pc : FindPc} (hs : stepFinding s i parent arg id global below pc = some t) :
    FindingSteps s i parent arg id below global pc t := by
  cases pc with
  | locking =>
    simp only [stepFinding] at hs
    split_ifs at hs with hlocked
    cases hs
    exact .locking hlocked
  | copying =>
    cases hs
    exact .copying
  | searching children found =>
    cases children with
    | nil =>
      cases hs
      exact .searched
    | cons child children =>
      simp only [stepFinding] at hs
      split_ifs at hs with hlive hid
      · cases hs
        exact .matching hlive hid
      · cases hs
        exact .other hlive hid
      · cases hs
        exact .expired hlive
  | dropping child children found =>
    cases hs
    exact .dropping
  | clearing result found =>
    cases found with
    | cons child found => cases result <;> cases hs <;> exact .clearing
    | nil =>
      cases result with
      | some n =>
        cases hs
        exact .returnFound
      | none =>
        cases global <;> cases hs
        · exact .returnNone
        · exact .construct

/-- what a step of `ListTrackers` can do -/
inductive ListingSteps (s : St) (i : ℕ) (trackers : List ℕ) (below : List Frame) : List ℕ → ListPc → St → Prop
  | returns : ListingSteps s i trackers below [] .next (setStack (trackers.foldl hold s) i below)
  | next {t toProcess} :
    ListingSteps s i trackers below (t :: toProcess) .next
      (setStack s i (.listing (trackers ++ [t]) toProcess (.locking t) :: below))
  | locking {toProcess t} (hfree : ¬Locked s t) :
    ListingSteps s i trackers below toProcess (.locking t)
      (setStack s i (.listing trackers toProcess (.iterating t (s.children t)) :: below))
  | live {toProcess t child children} (hlive : 0 < s.refs child) :
    ListingSteps s i trackers below toProcess (.iterating t (child :: children))
      (setStack (addRef s child) i (.listing trackers (child :: toProcess) (.iterating t children) :: below))
  | expired {toProcess t child children} (hdead : ¬0 < s.refs child) :
    ListingSteps s i trackers below toProcess (.iterating t (child :: children))
      (setStack s i (.listing trackers toProcess (.iterating t children) :: below))
  | iterated {toProcess t} :
    ListingSteps s i trackers below toProcess (.iterating t [])
      (setStack s i (.listing trackers toProcess .next :: below))

theorem stepListing_cases {s t : St} {i : ℕ} {trackers toProcess : List ℕ} {below : List Frame} {pc : ListPc}
    (hs : stepListing s i trackers toProcess below pc = some t) : ListingSteps s i trackers below toProcess pc t := by
  cases pc with
  | next =>
    cases toProcess <;> cases hs
    · exact .returns
    · exact .next
  | locking m =>
    simp only [stepListing] at hs
    split_ifs at hs with hlocked
    cases hs
    exact .locking hlocked
  | iterating m children =>
    cases children with
    | nil =>
      cases hs
      exact .iterated
    | cons child children =>
      simp only [stepListing] at hs
      split_ifs at hs with hlive <;> cases hs
      · exact .live hlive
      · exact .expired hlive

/-- what a step of `LogUsage` can do -/
inductive LoggingSteps (s : St) (i : ℕ) (n : ℕ) (below : List Frame) : Bool → LogPc → St → Prop
  | locking {nested} (hfree : ¬Locked s n) :
    LoggingSteps s i n below nested .locking (setStack s i (.logging n nested (.iterating (s.children n)) :: below))
  | live {nested child children} (hlive : 0 < s.refs child) :
    LoggingSteps s i n below nested (.iterating (child :: children)) (setStack (addRef s child) i
      (.logging child true .locking :: .logging n nested (.inChild child children) :: below))
  | expired {nested child children} (hdead : ¬0 < s.refs child) :
    LoggingSteps s i n below nested (.iterating (child :: children))
      (setStack s i (.logging n nested (.iterating children) :: below))
  | inChild {nested child children} :
    LoggingSteps s i n below nested (.inChild child children)
      (dropRef s i child (.logging n nested (.iterating children) :: below))
  | returnNested : LoggingSteps s i n below true (.iterating []) (setStack s i below)
  | returns : LoggingSteps s i n below false (.iterating []) (setStack (hold s n) i below)

theorem stepLogging_cases {s t : St} {i n : ℕ} {nested : Bool} {below : List Frame} {pc : LogPc}
    (hs : stepLogging s i n nested below pc = some t) : LoggingSteps s i n below nested pc t := by
  cases pc with
  | locking =>
    simp only [stepLogging] at hs
    split_ifs at hs with hlocked
    cases hs
    exact .locking hlocked
  | iterating children =>
    cases children with
    | nil =>
      cases nested <;> cases hs
      · exact .returns
      · exact .returnNested
    | cons child children =>
      simp only [stepLogging] at hs
      split_ifs at hs with hlive <;> cases hs
      · exact .live hlive
      · exact .expired hlive
  | inChild child children =>
    cases hs
    exact .inChild

/-! ## Frame lemmas -/

/-- the trackers, their children and the threads are as before: only references have changed hands -/
structure SameTree (s t : St) : Prop where
  next : t.next = s.next
  tracker : t.tracker = s.tracker
  children : t.children = s.children
  threads : t.threads = s.threads
  consumed : t.consumed = s.consumed

variable {s t u : St} {i n p : ℕ} {below : List Frame}

theorem SameTree.refl (s : St) : SameTree s s := ⟨rfl, rfl, rfl, rfl, rfl⟩

theorem SameTree.trans (ht : SameTree s t) (hu : SameTree t u) : SameTree s u :=
  ⟨hu.next.trans ht.next, hu.tracker.trans ht.tracker, hu.children.trans ht.children, hu.threads.trans ht.threads,
    hu.consumed.trans ht.consumed⟩

theorem sameTree_addRef (s : St) (n : ℕ) : SameTree s (addRef s n) := ⟨rfl, rfl, rfl, rfl, rfl⟩

theorem sameTree_hold (s : St) (n : ℕ) : SameTree s (hold s n) := ⟨rfl, rfl, rfl, rfl, rfl⟩

theorem sameTree_borrow (s : St) (n : ℕ) : SameTree s (borrow s n) := ⟨rfl, rfl, rfl, rfl, rfl⟩

theorem sameTree_giveBack (s : St) (arg : Option ℕ) : SameTree s (giveBack s arg) := by
  cases arg with
  | none => exact SameTree.refl s
  | some n => exact sameTree_hold s n

theorem sameTree_borrowArg (s : St) (arg : Option ℕ) : SameTree s (borrowArg s arg) := by
  cases arg with
  | none => exact SameTree.refl s
  | some n => exact sameTree_borrow s n

theorem sameTree_holdAll (s : St) (trackers : List ℕ) : SameTree s (trackers.foldl hold s) := by
  induction trackers generalizing s with
  | nil => exact SameTree.refl s
  | cons n trackers ih => exact (sameTree_hold s n).trans (ih (hold s n))

/-- dropping a reference: the frames below go on, or `~MemTracker` comes on top of them if it was the last one -/
theorem dropRef_eq (s : St) (i n : ℕ) (below : List Frame) :
    ∃ t, SameTree s t ∧ (dropRef s i n below = setStack t i below ∨
      ∃ p, (s.tracker n).parent = some p ∧ s.refs n ≤ 1 ∧
        dropRef s i n below = setStack t i (.destroying n p .locking :: below)) := by
  refine ⟨{ s with refs := Function.update s.refs n (s.refs n - 1) }, ⟨rfl, rfl, rfl, rfl, rfl⟩, ?_⟩
  simp only [dropRef, Function.update_self]
  cases hp : (s.tracker n).parent with
  | none => exact Or.inl rfl
  | some p =>
    by_cases hlast : s.refs n - 1 = 0
    · exact Or.inr ⟨p, rfl, Nat.sub_eq_zero_iff_le.1 hlast, by simp [hlast]⟩
    · exact Or.inl (by simp [hlast])

/-- the root is the only tracker of the first state, and it has no parent -/
theorem parent_init (memoryLimitHardBytes totalRam : ℤ) (c : ℕ) :
    ((registry memoryLimitHardBytes totalRam).init.tracker c).parent = none := by
  by_cases hc : c = 0
  · simp [registry, hc]
  · simp [registry, hc]

/-- a parent is constructed before its children -/
def Ordered (s : St) : Prop := ∀ n p, (s.tracker n).parent = some p → p < n ∧ n < s.next

theorem ordered_construct (h : Ordered s) (hp : p < s.next) (byteLimit : ℤ) (id : String) :
    Ordered (construct s p byteLimit id) := by
  intro n q hq
  by_cases hn : n = s.next
  · simp only [construct, addRef, hn, Function.update_self, Option.some.injEq] at hq
    rw [hn, ← hq]
    exact ⟨hp, Nat.lt_succ_self _⟩
  · simp only [construct, addRef, Function.update_of_ne hn] at hq
    exact ⟨(h n q hq).1, Nat.lt_succ_of_lt (h n q hq).2⟩

/-- the parents of trackers stay as they are -/
theorem parent_construct (h : Ordered s) (byteLimit : ℤ) (id : String) {c q : ℕ} (hq : (s.tracker c).parent = some q) :
    ((construct s p byteLimit id).tracker c).parent = some q := by
  have hne : c ≠ s.next := (h c q hq).2.ne
  simpa [construct, addRef, hne] using hq

theorem parent_pushTracker (s : St) (n m c : ℕ) : ((pushTracker s n m).tracker c).parent = (s.tracker c).parent := by
  by_cases hc : c = n
  · simp [pushTracker, hc]
  · simp [pushTracker, hc]

theorem ordered_pushTracker (h : Ordered s) (n m : ℕ) : Ordered (pushTracker s n m) := by
  intro c q hq
  rw [parent_pushTracker] at hq
  exact h c q hq

/-- the real parent of `CreateTracker`, the root or the caller's argument, has been constructed -/
theorem realParent_lt (hpos : 0 < s.next) {parent : Option ℕ} (h : ArgHeld s parent) :
    parent.getD 0 < (borrowArg s parent).next := by
  rw [(sameTree_borrowArg s parent).next]
  cases parent with
  | none => exact hpos
  | some p => exact (h p rfl).1

end Bboy.MemTracker.Registry
