/-
Lean model of `ObjectPool` (`bboy/base/object_pool.h`): nodes that are linked into a list of all nodes and, while they hold no
object, into a free list.

A read of memory that is not a node, the destruction of an object that is not alive and a failed `DCHECK` are undefined
(`none`). Constructors do not throw. `new` returns memory that is not in use, and which one is up to the allocator.
A ghost log records what is constructed, destroyed, allocated and freed; objects are numbered as they are constructed.

- `step_inv`: every legal call is defined and keeps the invariant `Inv`.
- `destroyLoop_spec`: the loop of the destructor ends, and settles the log.
- `live_kept`: over every sequence of calls the free list has the free nodes without a cycle, `Construct` returns no live
  object, `Destroy` ends the object and leaves its node to the next `Construct`, and with the destructor every object is
  destroyed once and every node is freed once.
Witness: `live_kept_reuse`.
-/
import Bboy.Core.Linked
import Bboy.Core.Machine

namespace Bboy.ObjectPool

open Core

/-! ## Model -/

variable {Addr : Type} [DecidableEq Addr]

structure ListNode (Addr : Type) where
  /-- the number of the object in `space_`, if there is one -/
  object : Option ℕ
  nextOnFreeList : Option Addr
  nextOnAllocList : Option Addr
  isOnFreelist : Bool

inductive Event (Addr : Type) where
  | constructed (object : ℕ)
  | destroyed (object : ℕ)
  | allocated (node : Addr)
  | freed (node : Addr)
deriving DecidableEq

structure St (Addr : Type) where
  freeListHead : Option Addr
  allocListHead : Option Addr
  heap : Addr → Option (ListNode Addr)
  /-- ghost: the number of objects constructed -/
  objects : ℕ
  /-- ghost: what happened, newest first -/
  log : List (Event Addr)

def St.record (s : St Addr) (e : Event Addr) : St Addr := { s with log := e :: s.log }

def St.write (s : St Addr) (a : Addr) (node : Option (ListNode Addr)) : St Addr :=
  { s with heap := Function.update s.heap a node }

/-- the node, and the state; `fresh` is what `new` returns -/
def getObject (s : St Addr) (fresh : Addr) : Option (St Addr × Addr) :=
  match s.freeListHead with
  | some tmp => do
    let node ← s.heap tmp
    let s := { s with freeListHead := node.nextOnFreeList }
    -- DCHECK(tmp->is_on_freelist)
    if node.isOnFreelist then
      some (s.write tmp (some { node with nextOnFreeList := none, isOnFreelist := false }), tmp)
    else none
  | none =>
    let s := (s.write fresh (some ⟨none, none, s.allocListHead, false⟩)).record (.allocated fresh)
    some ({ s with allocListHead := some fresh }, fresh)

def construct (s : St Addr) (fresh : Addr) : Option (St Addr × Addr) := do
  let (s, obj) ← getObject s fresh
  let node ← s.heap obj
  -- `Init()` runs the constructor in `space_`
  let s := (s.write obj (some { node with object := some s.objects })).record (.constructed s.objects)
  return ({ s with objects := s.objects + 1 }, obj)

/-- `node->Destroy()` -/
def destroyObject (s : St Addr) (node : ListNode Addr) : Option (St Addr) := do
  let object ← node.object
  return s.record (.destroyed object)

def destroy (s : St Addr) (t : Addr) : Option (St Addr) := do
  let node ← s.heap t
  let s ← destroyObject s node
  -- DCHECK(!node->is_on_freelist)
  if node.isOnFreelist then none
  else
    let node := { node with object := none, isOnFreelist := true, nextOnFreeList := s.freeListHead }
    some { s.write t (some node) with freeListHead := some t }

/-- `if (!tmp->is_on_freelist) tmp->Destroy()` -/
def destroyForgotten (s : St Addr) (tmp : ListNode Addr) : Option (St Addr) :=
  if tmp.isOnFreelist then some s else destroyObject s tmp

/-- the loop of the destructor, with fuel -/
def destroyLoop : ℕ → St Addr → Option Addr → Option (St Addr)
  | _, s, none => some s
  | 0, _, some _ => none
  | fuel + 1, s, some tmp => do
    let node ← s.heap tmp
    let s ← destroyForgotten s node
    destroyLoop fuel ((s.write tmp none).record (.freed tmp)) node.nextOnAllocList

inductive Op (Addr : Type) where
  | construct (fresh : Addr)
  | destroy (t : Addr)

def pool : Machine (St Addr) (Op Addr) where
  init := ⟨none, none, fun _ => none, 0, []⟩
  step
    | s, .construct fresh => (construct s fresh).map Prod.fst
    | s, .destroy t => destroy s t

/-- there is an object in the node -/
def Live (s : St Addr) (a : Addr) : Prop := ∃ node, s.heap a = some node ∧ node.object.isSome

instance (s : St Addr) (a : Addr) : Decidable (Live s a) :=
  decidable_of_iff (((s.heap a).bind ListNode.object).isSome = true) (by
    rw [Live, Option.isSome_bind, Option.any_eq_true])

/-- `new` returns memory that is not in use, and only live objects are destroyed -/
def Legal (s : St Addr) : Op Addr → Prop
  | .construct fresh => (s.heap fresh).isNone
  | .destroy t => Live s t

instance (s : St Addr) : (o : Op Addr) → Decidable (Legal s o)
  | .construct fresh => inferInstanceAs (Decidable ((s.heap fresh).isNone = true))
  | .destroy t => inferInstanceAs (Decidable (Live s t))

/-! ## Invariant -/

variable {s t : St Addr} {a b : Addr} {p : Option Addr} {l : List Addr}

def St.nextFree (s : St Addr) (a : Addr) : Option (Option Addr) := (s.heap a).map ListNode.nextOnFreeList

def St.nextAlloc (s : St Addr) (a : Addr) : Option (Option Addr) := (s.heap a).map ListNode.nextOnAllocList

/-- the nodes from `p` on are all that there are; the log and the nodes agree on the objects -/
structure Owned (s : St Addr) (p : Option Addr) (l : List Addr) : Prop where
  list : IsList s.nextAlloc p l
  mem : ∀ a, a ∈ l ↔ (s.heap a).isSome
  flag : ∀ a node, s.heap a = some node → (node.isOnFreelist = true ↔ node.object = none)
  distinct : ∀ a b node node' object, s.heap a = some node → s.heap b = some node' → node.object = some object →
    node'.object = some object → a = b
  nodes : ∀ a, s.log.count (.freed a) + (if a ∈ l then 1 else 0) = s.log.count (.allocated a) ∧
    s.log.count (.allocated a) ≤ 1
  constructed : ∀ object, s.log.count (.constructed object) = if object < s.objects then 1 else 0
  alive : ∀ a node object, s.heap a = some node → node.object = some object →
    object < s.objects ∧ s.log.count (.destroyed object) = 0
  dead : ∀ object, (∀ a node, s.heap a = some node → node.object ≠ some object) →
    s.log.count (.destroyed object) = s.log.count (.constructed object)

def Marked (s : St Addr) (a : Addr) : Prop := ∃ node, s.heap a = some node ∧ node.isOnFreelist = true

/-- the free list has the nodes that are marked -/
structure FreeList (s : St Addr) (free : List Addr) : Prop where
  list : IsList s.nextFree s.freeListHead free
  mem : ∀ a, a ∈ free ↔ Marked s a

structure Inv (s : St Addr) : Prop where
  owned : ∃ l, Owned s s.allocListHead l
  free : ∃ free, FreeList s free
  noneFreed : ∀ a, s.log.count (.freed a) = 0

theorem heap_write_self (s : St Addr) (a : Addr) (node : Option (ListNode Addr)) : (s.write a node).heap a = node :=
  Function.update_self _ _ _

theorem heap_write_ne (s : St Addr) (node : Option (ListNode Addr)) (h : b ≠ a) : (s.write a node).heap b = s.heap b :=
  Function.update_of_ne h _ _

variable {node node' : ListNode Addr} {object : ℕ}

/-- what the heap holds after one node is written -/
theorem of_heap_write (h : (s.write a (some node)).heap b = some node') :
    b = a ∧ node' = node ∨ b ≠ a ∧ s.heap b = some node' := by
  by_cases hb : b = a
  · subst hb
    rw [heap_write_self] at h
    exact Or.inl ⟨rfl, (Option.some.inj h).symm⟩
  · rw [heap_write_ne s _ hb] at h
    exact Or.inr ⟨hb, h⟩

/-- a node that is written keeps its place in the list of all nodes -/
theorem Owned.mem_write (h : Owned s p l) (ha : s.heap a = some node) (node' : ListNode Addr) (b : Addr) :
    b ∈ l ↔ ((s.write a (some node')).heap b).isSome := by
  by_cases hb : b = a
  · subst hb
    rw [heap_write_self, h.mem, ha]
    simp
  · rw [heap_write_ne s _ hb, h.mem]

theorem Owned.list_write (h : Owned s p l) (ha : s.heap a = some node)
    (hnext : node'.nextOnAllocList = node.nextOnAllocList) : IsList (s.write a (some node')).nextAlloc p l := by
  apply h.list.congr
  intro b _
  by_cases hb : b = a
  · subst hb
    rw [St.nextAlloc, St.nextAlloc, heap_write_self, ha, Option.map_some, Option.map_some, hnext]
  · rw [St.nextAlloc, St.nextAlloc, heap_write_ne s _ hb]

/-- a node without an object gets a new one -/
theorem Owned.fill (h : Owned s p l) (ha : s.heap a = some node) (node' : ListNode Addr) (hnode : node.object = none)
    (hnext : node'.nextOnAllocList = node.nextOnAllocList) (hobject : node'.object = some s.objects)
    (hflag : node'.isOnFreelist = false) {free alloc : Option Addr} :
    Owned ⟨free, alloc, (s.write a (some node')).heap, s.objects + 1, .constructed s.objects :: s.log⟩ p l := by
  have hfresh : ∀ b node object, s.heap b = some node → node.object = some object → object < s.objects :=
    fun b node object hb ho => (h.alive b node object hb ho).1
  refine ⟨h.list_write ha hnext, h.mem_write ha node', ?_, ?_, ?_, ?_, ?_, ?_⟩
  · intro b m hb
    rcases of_heap_write hb with ⟨-, rfl⟩ | ⟨-, hb⟩
    · simp [hflag, hobject]
    · exact h.flag b m hb
  · intro b c m m' object hb hc hm hm'
    rcases of_heap_write hb with ⟨rfl, rfl⟩ | ⟨-, hb'⟩ <;> rcases of_heap_write hc with ⟨rfl, rfl⟩ | ⟨-, hc'⟩
    · rfl
    · have hlt := hfresh c m' object hc' hm'
      rw [hobject, Option.some.injEq] at hm
      omega
    · have hlt := hfresh b m object hb' hm
      rw [hobject, Option.some.injEq] at hm'
      omega
    · exact h.distinct b c m m' object hb' hc' hm hm'
  · intro b
    simpa using h.nodes b
  · intro object
    have hcount := h.constructed object
    by_cases heq : object = s.objects
    · subst heq
      simpa using hcount
    · have hne : s.objects ≠ object := Ne.symm heq
      simp only [List.count_cons, beq_iff_eq, Event.constructed.injEq, hne, if_false, hcount]
      split_ifs <;> omega
  · intro b m object hb hm
    rcases of_heap_write hb with ⟨-, rfl⟩ | ⟨-, hb⟩
    · rw [hobject, Option.some.injEq] at hm
      subst hm
      have hnone : ∀ c m, s.heap c = some m → m.object ≠ some s.objects :=
        fun c m hc ho => absurd (hfresh c m _ hc ho) (lt_irrefl _)
      have hdead := h.dead s.objects hnone
      rw [h.constructed, if_neg (lt_irrefl _)] at hdead
      simpa using hdead
    · obtain ⟨hlt, hcount⟩ := h.alive b m object hb hm
      exact ⟨by simp only; omega, by simpa using hcount⟩
  · intro object hnone
    have hne : s.objects ≠ object := by
      rintro rfl
      exact hnone a node' (heap_write_self s a _) hobject
    have hold : ∀ b m, s.heap b = some m → m.object ≠ some object := by
      intro b m hb
      by_cases hba : b = a
      · subst hba
        obtain rfl : node = m := Option.some.inj (ha.symm.trans hb)
        rw [hnode]
        exact Option.some_ne_none _ |>.symm
      · exact hnone b m ((heap_write_ne s _ hba).trans hb)
    simpa [List.count_cons, hne] using h.dead object hold

/-- the object of a node is destroyed -/
theorem Owned.empty (h : Owned s p l) (ha : s.heap a = some node) (node' : ListNode Addr) (hnode : node.object = some object)
    (hnext : node'.nextOnAllocList = node.nextOnAllocList) (hobject : node'.object = none)
    (hflag : node'.isOnFreelist = true) {free alloc : Option Addr} :
    Owned ⟨free, alloc, (s.write a (some node')).heap, s.objects, .destroyed object :: s.log⟩ p l := by
  obtain ⟨hlt, hcount⟩ := h.alive a node object ha hnode
  refine ⟨h.list_write ha hnext, h.mem_write ha node', ?_, ?_, ?_, ?_, ?_, ?_⟩
  · intro b m hb
    rcases of_heap_write hb with ⟨-, rfl⟩ | ⟨-, hb⟩
    · simp [hflag, hobject]
    · exact h.flag b m hb
  · intro b c m m' o hb hc hm hm'
    rcases of_heap_write hb with ⟨-, rfl⟩ | ⟨-, hb⟩
    · rw [hobject] at hm
      cases hm
    rcases of_heap_write hc with ⟨-, rfl⟩ | ⟨-, hc⟩
    · rw [hobject] at hm'
      cases hm'
    exact h.distinct b c m m' o hb hc hm hm'
  · intro b
    simpa using h.nodes b
  · intro o
    simpa using h.constructed o
  · intro b m o hb hm
    rcases of_heap_write hb with ⟨-, rfl⟩ | ⟨hba, hb⟩
    · rw [hobject] at hm
      cases hm
    have hne : object ≠ o := by
      rintro rfl
      exact hba (h.distinct b a m node object hb ha hm hnode)
    obtain ⟨hlt', hcount'⟩ := h.alive b m o hb hm
    exact ⟨hlt', by simpa [List.count_cons, hne] using hcount'⟩
  · intro o hnone
    by_cases heq : object = o
    · subst heq
      have hconstructed := h.constructed object
      rw [if_pos hlt] at hconstructed
      simp [hcount, hconstructed]
    · have hold : ∀ b m, s.heap b = some m → m.object ≠ some o := by
        intro b m hb
        by_cases hba : b = a
        · subst hba
          obtain rfl : node = m := Option.some.inj (ha.symm.trans hb)
          rw [hnode]
          simpa using heq
        · exact hnone b m ((heap_write_ne s _ hba).trans hb)
      simpa [List.count_cons, heq] using h.dead o hold

/-- a new node -/
theorem Owned.grow (h : Owned s p l) (ha : s.heap a = none) (hfreed : s.log.count (.freed a) = 0) (hnext : node.nextOnAllocList = p)
    (hobject : node.object = none) (hflag : node.isOnFreelist = true) {free alloc : Option Addr} :
    Owned ⟨free, alloc, (s.write a (some node)).heap, s.objects, .allocated a :: s.log⟩ (some a) (a :: l) := by
  have hmem : a ∉ l := by
    rw [h.mem, ha]
    simp
  refine ⟨?_, ?_, ?_, ?_, ?_, ?_, ?_, ?_⟩
  · refine IsList.cons (p := p) (by rw [St.nextAlloc, heap_write_self, Option.map_some, hnext]) (h.list.congr ?_)
    intro b hb
    have hne : b ≠ a := fun heq => hmem (heq ▸ hb)
    exact congrArg (Option.map _) (heap_write_ne s _ hne)
  · intro b
    by_cases hb : b = a
    · subst hb
      rw [heap_write_self]
      simp
    · rw [heap_write_ne s _ hb, ← h.mem]
      simp [hb]
  · intro b m hb
    rcases of_heap_write hb with ⟨-, rfl⟩ | ⟨-, hb⟩
    · simp [hflag, hobject]
    · exact h.flag b m hb
  · intro b c m m' o hb hc hm hm'
    rcases of_heap_write hb with ⟨-, rfl⟩ | ⟨-, hb⟩
    · rw [hobject] at hm
      cases hm
    rcases of_heap_write hc with ⟨-, rfl⟩ | ⟨-, hc⟩
    · rw [hobject] at hm'
      cases hm'
    exact h.distinct b c m m' o hb hc hm hm'
  · intro b
    obtain ⟨hcount, hle⟩ := h.nodes b
    by_cases hb : a = b
    · subst hb
      rw [if_neg hmem, hfreed] at hcount
      simp [hfreed, ← hcount]
    · simpa [List.count_cons, hb, Ne.symm hb] using ⟨hcount, hle⟩
  · intro o
    simpa using h.constructed o
  · intro b m o hb hm
    rcases of_heap_write hb with ⟨-, rfl⟩ | ⟨-, hb⟩
    · rw [hobject] at hm
      cases hm
    · simpa using h.alive b m o hb hm
  · intro o hnone
    have hold : ∀ b m, s.heap b = some m → m.object ≠ some o := by
      intro b m hb
      refine hnone b m ((heap_write_ne s _ ?_).trans hb)
      rintro rfl
      rw [ha] at hb
      cases hb
    simpa using h.dead o hold

/-! ## The free list -/

theorem marked_write (s : St Addr) (a b : Addr) (node : ListNode Addr) :
    Marked (s.write a (some node)) b ↔ b = a ∧ node.isOnFreelist = true ∨ b ≠ a ∧ Marked s b := by
  constructor
  · rintro ⟨m, hm, hflag⟩
    rcases of_heap_write hm with ⟨hb, rfl⟩ | ⟨hb, hm⟩
    · exact Or.inl ⟨hb, hflag⟩
    · exact Or.inr ⟨hb, m, hm, hflag⟩
  · rintro (⟨rfl, hflag⟩ | ⟨hb, m, hm, hflag⟩)
    · exact ⟨node, heap_write_self s b _, hflag⟩
    · exact ⟨m, (heap_write_ne s _ hb).trans hm, hflag⟩

/-- a list that does not have the node that is written -/
theorem nextFree_write {free : List Addr} (h : IsList s.nextFree p free) (ha : a ∉ free) (node : ListNode Addr) :
    IsList (s.write a (some node)).nextFree p free := by
  apply h.congr
  intro b hb
  have hne : b ≠ a := fun heq => ha (heq ▸ hb)
  exact congrArg (Option.map _) (heap_write_ne s _ hne)

variable {free : List Addr} {alloc : Option Addr} {objects : ℕ} {log : List (Event Addr)}

/-- the first node is taken off the list -/
theorem FreeList.pop (h : FreeList s free) (hhead : s.freeListHead = some a) (ha : s.heap a = some node)
    (hflag : node'.isOnFreelist = false) :
    ∃ rest, FreeList ⟨node.nextOnFreeList, alloc, (s.write a (some node')).heap, objects, log⟩ rest := by
  have hlist := h.list
  rw [hhead] at hlist
  obtain ⟨p, rest, rfl, hp, hrest⟩ := hlist.eq_cons
  have hne : a ∉ rest := (List.nodup_cons.1 h.list.nodup).1
  rw [St.nextFree, ha, Option.map_some, Option.some.injEq] at hp
  subst hp
  refine ⟨rest, nextFree_write hrest hne node', fun b => ?_⟩
  refine Iff.trans ?_ (marked_write s a b node').symm
  rw [← h.mem, List.mem_cons, hflag]
  constructor
  · intro hb
    exact Or.inr ⟨fun heq => hne (heq ▸ hb), Or.inr hb⟩
  · rintro (⟨-, hfalse⟩ | ⟨hb, heq | hmem⟩)
    · cases hfalse
    · exact absurd heq hb
    · exact hmem

/-- a node that is not marked is put in front of the list -/
theorem FreeList.push (h : FreeList s free) (ha : ¬Marked s a) (hflag : node'.isOnFreelist = true)
    (hnext : node'.nextOnFreeList = s.freeListHead) :
    FreeList ⟨some a, alloc, (s.write a (some node')).heap, objects, log⟩ (a :: free) := by
  have hne : a ∉ free := fun hmem => ha ((h.mem a).1 hmem)
  refine ⟨IsList.cons (p := s.freeListHead) ?_ (nextFree_write h.list hne node'), fun b => ?_⟩
  · rw [St.nextFree, heap_write_self, Option.map_some, hnext]
  · refine Iff.trans ?_ (marked_write s a b node').symm
    rw [← h.mem, List.mem_cons]
    by_cases hb : b = a
    · simp [hb, hflag]
    · simp [hb]

/-- a new node is not in the list -/
theorem FreeList.grow (h : FreeList s free) (ha : s.heap a = none) (hflag : node'.isOnFreelist = false) :
    FreeList ⟨s.freeListHead, alloc, (s.write a (some node')).heap, objects, log⟩ free := by
  have hmark : ¬Marked s a := by
    rintro ⟨node, hnode, -⟩
    rw [ha] at hnode
    cases hnode
  have hne : a ∉ free := fun hmem => hmark ((h.mem a).1 hmem)
  refine ⟨nextFree_write h.list hne node', fun b => ?_⟩
  refine Iff.trans ?_ (marked_write s a b node').symm
  rw [← h.mem, hflag]
  by_cases hb : b = a
  · simp [hb, hne]
  · simp [hb]

/-! ## Calls -/

theorem construct_reuse (hhead : s.freeListHead = some a) (ha : s.heap a = some node)
    (hflag : node.isOnFreelist = true) (fresh : Addr) :
    construct s fresh = some (⟨node.nextOnFreeList, s.allocListHead,
      (s.write a (some ⟨some s.objects, none, node.nextOnAllocList, false⟩)).heap, s.objects + 1,
      .constructed s.objects :: s.log⟩, a) := by
  simp [construct, getObject, hhead, ha, hflag, St.write, St.record]

theorem construct_fresh (hhead : s.freeListHead = none) (fresh : Addr) :
    construct s fresh = some (⟨none, some fresh,
      (s.write fresh (some ⟨some s.objects, none, s.allocListHead, false⟩)).heap, s.objects + 1,
      .constructed s.objects :: .allocated fresh :: s.log⟩, fresh) := by
  simp [construct, getObject, hhead, St.write, St.record]

theorem destroy_eq (ha : s.heap a = some node) (hobject : node.object = some object)
    (hflag : node.isOnFreelist = false) :
    destroy s a = some ⟨some a, s.allocListHead,
      (s.write a (some ⟨none, s.freeListHead, node.nextOnAllocList, true⟩)).heap, s.objects, .destroyed object :: s.log⟩ := by
  simp [destroy, destroyObject, ha, hobject, hflag, St.write, St.record]

/-- **`Construct`** returns memory in which no object lives. -/
theorem construct_spec (h : Inv s) {fresh : Addr} (hfresh : s.heap fresh = none) :
    ∃ t a, construct s fresh = some (t, a) ∧ ¬Live s a ∧ Inv t := by
  obtain ⟨l, howned⟩ := h.owned
  obtain ⟨free, hfree⟩ := h.free
  cases hhead : s.freeListHead with
  | some a =>
    have hmem : a ∈ free := by
      have hlist := hfree.list
      rw [hhead] at hlist
      obtain ⟨_, rest, rfl, -, -⟩ := hlist.eq_cons
      exact List.mem_cons_self
    obtain ⟨node, ha, hflag⟩ := (hfree.mem a).1 hmem
    have hobject := (howned.flag a node ha).1 hflag
    refine ⟨_, a, construct_reuse hhead ha hflag fresh, ?_, ⟨l, ?_⟩, ?_, ?_⟩
    · rintro ⟨node', ha', hlive⟩
      obtain rfl : node = node' := Option.some.inj (ha.symm.trans ha')
      rw [hobject] at hlive
      cases hlive
    · exact howned.fill ha ⟨some s.objects, none, node.nextOnAllocList, false⟩ hobject rfl rfl rfl
    · exact hfree.pop hhead ha rfl
    · intro b
      simpa using h.noneFreed b
  | none =>
    refine ⟨_, fresh, construct_fresh hhead fresh, ?_, ⟨fresh :: l, ?_⟩, ⟨free, ?_⟩, ?_⟩
    · rintro ⟨node, hnode, -⟩
      rw [hfresh] at hnode
      cases hnode
    · -- the node is linked first, and filled then
      have hgrow : Owned ⟨none, some fresh, (s.write fresh (some ⟨none, none, s.allocListHead, true⟩)).heap, s.objects,
          .allocated fresh :: s.log⟩ (some fresh) (fresh :: l) := howned.grow hfresh (h.noneFreed fresh) rfl rfl rfl
      have hfill : Owned ⟨none, some fresh, _, _, _⟩ (some fresh) (fresh :: l) :=
        hgrow.fill (heap_write_self s fresh _) ⟨some s.objects, none, s.allocListHead, false⟩ rfl rfl rfl rfl
      simpa [St.write] using hfill
    · rw [← hhead]
      exact hfree.grow hfresh rfl
    · intro b
      simpa using h.noneFreed b

/-- the object in the node `a` of `s` is destroyed in `t`, and the next object is put there -/
structure Ended (s : St Addr) (a : Addr) (t : St Addr) : Prop where
  destroyed : ∃ object, (s.heap a).bind ListNode.object = some object ∧ t.log = .destroyed object :: s.log
  dead : ¬Live t a
  reused : ∀ fresh, ∃ u, construct t fresh = some (u, a)

/-- **`Destroy`** ends the object, and `Construct` takes its node first. -/
theorem destroy_spec (h : Inv s) (hlive : Live s a) : ∃ t, destroy s a = some t ∧ Inv t ∧ Ended s a t := by
  obtain ⟨l, howned⟩ := h.owned
  obtain ⟨free, hfree⟩ := h.free
  obtain ⟨node, ha, hsome⟩ := hlive
  obtain ⟨object, hobject⟩ := Option.isSome_iff_exists.1 hsome
  have hflag : node.isOnFreelist = false := by
    rw [← Bool.not_eq_true, howned.flag a node ha, hobject]
    simp
  have hmark : ¬Marked s a := by
    rintro ⟨node', ha', hflag'⟩
    obtain rfl : node = node' := Option.some.inj (ha.symm.trans ha')
    rw [hflag] at hflag'
    cases hflag'
  have hself := heap_write_self s a (some ⟨none, s.freeListHead, node.nextOnAllocList, true⟩)
  refine ⟨_, destroy_eq ha hobject hflag, ⟨⟨l, ?_⟩, ⟨a :: free, ?_⟩, ?_⟩, ⟨object, ?_, rfl⟩, ?_, fun fresh => ?_⟩
  · exact howned.empty ha ⟨none, s.freeListHead, node.nextOnAllocList, true⟩ hobject rfl rfl rfl
  · exact hfree.push hmark rfl rfl
  · intro b
    simpa using h.noneFreed b
  · rw [ha, Option.bind_some, hobject]
  · rintro ⟨node', ha', hsome'⟩
    rw [hself, Option.some.injEq] at ha'
    subst ha'
    cases hsome'
  · exact ⟨_, construct_reuse (s := ⟨some a, s.allocListHead, _, s.objects, _⟩) rfl hself rfl fresh⟩

theorem inv_init : Inv (pool : Machine (St Addr) (Op Addr)).init := by
  refine ⟨⟨[], IsList.nil, ?_, ?_, ?_, ?_, ?_, ?_, ?_⟩, ⟨[], IsList.nil, ?_⟩, ?_⟩ <;> simp [pool, Marked]

/-- **Step.** A legal call is defined, and keeps the invariant. -/
theorem step_inv (h : Inv s) {o : Op Addr} (hlegal : Legal s o) : ∃ t, pool.step s o = some t ∧ Inv t := by
  cases o with
  | construct fresh =>
    obtain ⟨t, a, hcall, -, hinv⟩ := construct_spec h (Option.isNone_iff_eq_none.1 hlegal)
    exact ⟨t, congrArg (Option.map Prod.fst) hcall, hinv⟩
  | destroy a =>
    obtain ⟨t, hcall, hinv, -⟩ := destroy_spec h hlegal
    exact ⟨t, hcall, hinv⟩

/-! ## The destructor -/

/-- what the heap holds after one node is freed -/
theorem of_heap_clear (h : (s.write a none).heap b = some node) : b ≠ a ∧ s.heap b = some node := by
  by_cases hb : b = a
  · subst hb
    rw [heap_write_self] at h
    cases h
  · exact ⟨hb, (heap_write_ne s _ hb).symm.trans h⟩

/-- the first node is freed, in which there is no object -/
theorem Owned.clear (h : Owned s (some a) (a :: l)) (ha : s.heap a = some node) (hobject : node.object = none) :
    Owned ((s.write a none).record (.freed a)) node.nextOnAllocList l := by
  have hne : a ∉ l := (List.nodup_cons.1 h.list.nodup).1
  refine ⟨?_, ?_, ?_, ?_, ?_, ?_, ?_, ?_⟩
  · obtain ⟨-, q, hq, hl⟩ := h.list.of_cons
    rw [St.nextAlloc, ha, Option.map_some, Option.some.injEq] at hq
    subst hq
    apply hl.congr
    intro b hb
    exact congrArg (Option.map _) (heap_write_ne s _ fun heq => hne (heq ▸ hb))
  · intro b
    by_cases hb : b = a
    · subst hb
      simp [St.record, heap_write_self, hne]
    · have hmem := h.mem b
      simpa [St.record, heap_write_ne s _ hb, hb] using hmem
  · intro b m hm
    exact h.flag b m (of_heap_clear hm).2
  · intro b c m m' o hm hm'
    exact h.distinct b c m m' o (of_heap_clear hm).2 (of_heap_clear hm').2
  · intro b
    have hnodes := h.nodes b
    by_cases hb : a = b
    · subst hb
      simpa [St.record, St.write, hne] using hnodes
    · simpa [St.record, St.write, List.count_cons, hb, Ne.symm hb] using hnodes
  · intro o
    refine Eq.trans ?_ (h.constructed o)
    simp [St.record, St.write]
  · intro b m o hm ho
    simpa [St.record, St.write] using h.alive b m o (of_heap_clear hm).2 ho
  · intro o hnone
    have hold : ∀ b m, s.heap b = some m → m.object ≠ some o := by
      intro b m hm
      by_cases hb : b = a
      · subst hb
        obtain rfl : node = m := Option.some.inj (ha.symm.trans hm)
        rw [hobject]
        simp
      · exact hnone b m ((heap_write_ne s _ hb).trans hm)
    simpa [St.record, St.write] using h.dead o hold

/-- one round: the object that may be in the node is destroyed, and the node is freed -/
theorem Owned.shrink (h : Owned s (some a) (a :: l)) :
    ∃ node t, s.heap a = some node ∧ destroyForgotten s node = some t ∧
      Owned ((t.write a none).record (.freed a)) node.nextOnAllocList l := by
  obtain ⟨node, ha⟩ := Option.isSome_iff_exists.1 ((h.mem a).1 List.mem_cons_self)
  cases hflag : node.isOnFreelist with
  | true => exact ⟨node, s, ha, if_pos hflag, h.clear ha ((h.flag a node ha).1 hflag)⟩
  | false =>
    obtain ⟨object, hobject⟩ : ∃ object, node.object = some object := by
      rw [← Option.ne_none_iff_exists', ne_eq, ← h.flag a node ha, hflag]
      simp
    have hempty : Owned ⟨s.freeListHead, s.allocListHead, _, s.objects, .destroyed object :: s.log⟩ (some a) (a :: l) :=
      h.empty ha ⟨none, none, node.nextOnAllocList, true⟩ hobject rfl rfl rfl
    refine ⟨node, s.record (.destroyed object), ha, ?_, ?_⟩
    · simp [destroyForgotten, hflag, destroyObject, hobject]
    · have hclear := hempty.clear (heap_write_self s a _) rfl
      simpa [St.write, St.record] using hclear

/-- **The loop of the destructor** ends after as many rounds as there are nodes. -/
theorem destroyLoop_spec (h : Owned s p l) : ∃ t, destroyLoop l.length s p = some t ∧ Owned t none [] := by
  induction l generalizing s p with
  | nil =>
    match p, h.list with
    | none, _ => exact ⟨s, rfl, h⟩
  | cons a l ih =>
    obtain ⟨rfl, -⟩ := h.list.of_cons
    obtain ⟨node, t, ha, ht, howned⟩ := h.shrink
    obtain ⟨u, hu, hdone⟩ := ih howned
    refine ⟨u, ?_, hdone⟩
    simp only [List.length_cons, destroyLoop, ha, ht, Option.bind_eq_bind, Option.bind_some, hu]

/-- every object that was constructed is destroyed once and every node is freed once, and nothing else is -/
structure Settled (s : St Addr) : Prop where
  objects : ∀ object, .constructed object ∈ s.log →
    s.log.count (.constructed object) = 1 ∧ s.log.count (.destroyed object) = 1
  destroyed : ∀ object, .destroyed object ∈ s.log → .constructed object ∈ s.log
  nodes : ∀ a, .allocated a ∈ s.log → s.log.count (.allocated a) = 1 ∧ s.log.count (.freed a) = 1
  freed : ∀ a, .freed a ∈ s.log → .allocated a ∈ s.log

theorem Owned.settled (h : Owned s none []) : Settled s := by
  have hempty : ∀ a node, s.heap a = some node → False := by
    intro a node ha
    have hmem := (h.mem a).2 (by rw [ha]; rfl)
    exact List.not_mem_nil hmem
  have hdead : ∀ object, s.log.count (.destroyed object) = s.log.count (.constructed object) :=
    fun object => h.dead object fun a node ha => (hempty a node ha).elim
  have hnodes : ∀ a, s.log.count (.freed a) = s.log.count (.allocated a) ∧ s.log.count (.allocated a) ≤ 1 := by
    intro a
    simpa using h.nodes a
  refine ⟨fun object hmem => ?_, fun object hmem => ?_, fun a hmem => ?_, fun a hmem => ?_⟩
  · have hpos := List.count_pos_iff.2 hmem
    have hcount := h.constructed object
    rw [hdead object]
    split_ifs at hcount <;> omega
  · have hpos := List.count_pos_iff.2 hmem
    rw [hdead object] at hpos
    exact List.count_pos_iff.1 hpos
  · have hpos := List.count_pos_iff.2 hmem
    have := hnodes a
    omega
  · have hpos := List.count_pos_iff.2 hmem
    rw [(hnodes a).1] at hpos
    exact List.count_pos_iff.1 hpos

/-! ## Runs -/

theorem run_inv {ops : List (Op Addr)} (h : pool.Along Legal pool.init ops) :
    ∃ s, pool.run pool.init ops = some s ∧ Inv s := by
  obtain ⟨s, _, hrun, -, hinv⟩ := Machine.run_simulation (T := fun (_ : Unit) _ _ => True) (R := fun s _ => Inv s)
    (fun s _ o hs ho => by
      obtain ⟨t, ht, hinv⟩ := step_inv hs ho
      exact ⟨t, (), ht, trivial, hinv⟩) (a := ()) inv_init h
  exact ⟨s, hrun, hinv⟩

/-- **Live objects are kept.** After every sequence of legal calls the free list has exactly the nodes that are marked, and
no cycle; `Construct` returns memory in which no object lives; `Destroy` ends the object, and its node is the next that
`Construct` returns; and the destructor of the pool ends with every object destroyed once and every node freed once. -/
theorem live_kept (ops : List (Op Addr)) (h : pool.Along Legal pool.init ops) :
    ∃ s, pool.run pool.init ops = some s ∧
      (∃ free, IsList s.nextFree s.freeListHead free ∧ free.Nodup ∧ ∀ a, a ∈ free ↔ Marked s a) ∧
      (∀ fresh, s.heap fresh = none → ∃ t a, construct s fresh = some (t, a) ∧ ¬Live s a) ∧
      (∀ a, Live s a → ∃ t, destroy s a = some t ∧ Ended s a t) ∧
      ∃ fuel t, destroyLoop fuel s s.allocListHead = some t ∧ Settled t := by
  obtain ⟨s, hrun, hinv⟩ := run_inv h
  refine ⟨s, hrun, ?_, ?_, ?_, ?_⟩
  · obtain ⟨free, hfree⟩ := hinv.free
    exact ⟨free, hfree.list, hfree.list.nodup, hfree.mem⟩
  · intro fresh hfresh
    obtain ⟨t, a, hcall, hlive, -⟩ := construct_spec hinv hfresh
    exact ⟨t, a, hcall, hlive⟩
  · intro a hlive
    obtain ⟨t, hcall, -, hended⟩ := destroy_spec hinv hlive
    exact ⟨t, hcall, hended⟩
  · obtain ⟨l, howned⟩ := hinv.owned
    obtain ⟨t, ht, hdone⟩ := destroyLoop_spec howned
    exact ⟨l.length, t, ht, hdone.settled⟩

/-- two objects, of which the first is destroyed, and a third one in its place -/
theorem live_kept_reuse :
    ∃ s, pool.run pool.init [.construct 5, .construct 8, .destroy 5, .construct 9] = some s ∧
      (∃ free, IsList s.nextFree s.freeListHead free ∧ free.Nodup ∧ ∀ a, a ∈ free ↔ Marked s a) ∧
      (∀ fresh : ℕ, s.heap fresh = none → ∃ t a, construct s fresh = some (t, a) ∧ ¬Live s a) ∧
      (∀ a, Live s a → ∃ t, destroy s a = some t ∧ Ended s a t) ∧
      ∃ fuel t, destroyLoop fuel s s.allocListHead = some t ∧ Settled t :=
  live_kept [.construct 5, .construct 8, .destroy 5, .construct 9] (by decide)

end Bboy.ObjectPool
