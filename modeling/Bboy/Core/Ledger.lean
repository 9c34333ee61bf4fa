/-
Accounts of resources with reusable names (descriptors, process ids). A name may be taken again once it is free, so each
acquisition has a number of its own; what was acquired is held under its name, or released, or given away.

- `Accounts l owners`: every acquisition is in exactly one of the three places, and what is held is what the owners have.
- `acquire`, `release`, `give`, `dropLent`: the operations, each with what it does to the accounts.
- `Accounts.released_once`: with no owners left, everything was released exactly once, except what was given away.
- `sum_set`: the owners in a list, of which one changes.
-/
import Mathlib.Tactic

namespace Core

structure Ledger (ι : Type*) where
  /-- names with the number of their acquisition -/
  held : List (ι × ℕ)
  /-- given away, and not yet released by the one who has it now -/
  lent : List (ι × ℕ)
  next : ℕ
  released : List ℕ
  given : List ℕ
deriving DecidableEq, Repr

namespace Ledger

variable {ι : Type*}

def empty : Ledger ι := ⟨[], [], 0, [], []⟩

/-- every acquisition is released, given away or held, once, and the owners have what is held -/
structure Accounts (l : Ledger ι) (owners : Multiset ι) : Prop where
  balanced : (l.released + l.given + l.held.map Prod.snd : Multiset ℕ) = Multiset.range l.next
  owned : (l.held.map Prod.fst : Multiset ι) = owners

variable {l : Ledger ι} {owners : Multiset ι} {name : ι}

theorem accounts_empty : Accounts (empty : Ledger ι) 0 := ⟨rfl, rfl⟩

/-- **Exactly once.** When no owner has anything, each acquisition was either given away once or released once. -/
theorem Accounts.released_once (h : Accounts l 0) {n : ℕ} (hn : n < l.next) :
    l.released.count n = if n ∈ l.given then 0 else 1 := by
  have hheld : l.held.map Prod.snd = [] := by
    have hnil : l.held.map Prod.fst = [] := Multiset.coe_eq_zero _ |>.1 h.owned
    rw [List.map_eq_nil_iff.1 hnil, List.map_nil]
  have hcount := congrArg (Multiset.count n) h.balanced
  rw [hheld, Multiset.count_add, Multiset.count_add, Multiset.coe_count, Multiset.coe_count,
    Multiset.count_eq_one_of_mem (Multiset.nodup_range _) (Multiset.mem_range.2 hn)] at hcount
  have hgiven := List.count_pos_iff (a := n) (l := l.given)
  split_ifs with hmem
  · have hpos := hgiven.2 hmem
    simp at hcount
    omega
  · have hzero : l.given.count n = 0 := List.count_eq_zero.2 hmem
    simp at hcount
    omega

/-! ## Operations -/

variable [DecidableEq ι]

def find (name : ι) (entries : List (ι × ℕ)) : Option (ι × ℕ) := entries.find? fun e => e.1 = name

/-- `none` if the name is taken -/
def acquire (l : Ledger ι) (name : ι) : Option (Ledger ι) :=
  if name ∈ (l.held ++ l.lent).map Prod.fst then none
  else some { l with held := (name, l.next) :: l.held, next := l.next + 1 }

/-- whoever has it; `none` if nothing has the name -/
def release (l : Ledger ι) (name : ι) : Option (Ledger ι) :=
  match find name l.held with
  | some e => some { l with held := l.held.erase e, released := e.2 :: l.released }
  | none => (find name l.lent).map fun e => { l with lent := l.lent.erase e, released := e.2 :: l.released }

def give (l : Ledger ι) (name : ι) : Option (Ledger ι) :=
  (find name l.held).map fun e => { l with held := l.held.erase e, lent := e :: l.lent, given := e.2 :: l.given }

/-- what was given away is released by the one who has it -/
def dropLent (l : Ledger ι) (name : ι) : Option (Ledger ι) :=
  (find name l.lent).map fun e => { l with lent := l.lent.erase e }

/-! ## What the operations do to the accounts -/

theorem Accounts.acquire (h : Accounts l owners) {l' : Ledger ι} (hl : l.acquire name = some l') :
    Accounts l' ({name} + owners) := by
  rw [Ledger.acquire] at hl
  split at hl
  · exact absurd hl (by simp)
  · obtain rfl := Option.some.inj hl
    refine ⟨?_, ?_⟩
    · rw [Multiset.range_succ, ← h.balanced]
      simp only [List.map_cons, ← Multiset.cons_coe, Multiset.add_cons]
    · rw [← h.owned]
      rfl

/-- what an owner has is found, and the rest is held without it -/
theorem Accounts.find (h : Accounts l ({name} + owners)) :
    ∃ e, Ledger.find name l.held = some e ∧
      (l.held.map Prod.snd : Multiset ℕ) = e.2 ::ₘ ((l.held.erase e).map Prod.snd : Multiset ℕ) ∧
      ((l.held.erase e).map Prod.fst : Multiset ι) = owners := by
  have hname : name ∈ (l.held.map Prod.fst : Multiset ι) := by
    rw [h.owned]
    exact Multiset.mem_add.2 (Or.inl (Multiset.mem_singleton_self name))
  obtain ⟨e', he', rfl⟩ := List.mem_map.1 (Multiset.mem_coe.1 hname)
  have hsome : (Ledger.find e'.1 l.held).isSome := by
    rw [Ledger.find, List.find?_isSome]
    exact ⟨e', he', by simp⟩
  obtain ⟨e, he⟩ := Option.isSome_iff_exists.1 hsome
  have hkey : e.1 = e'.1 := by simpa using List.find?_some he
  have hperm := List.perm_cons_erase (List.mem_of_find?_eq_some he)
  refine ⟨e, he, Multiset.coe_eq_coe.2 (hperm.map Prod.snd), ?_⟩
  have hfst := Multiset.coe_eq_coe.2 (hperm.map Prod.fst)
  rw [h.owned, List.map_cons, hkey, Multiset.singleton_add, ← Multiset.cons_coe] at hfst
  exact ((Multiset.cons_inj_right _).1 hfst).symm

theorem Accounts.release (h : Accounts l ({name} + owners)) : ∃ l', l.release name = some l' ∧ Accounts l' owners := by
  obtain ⟨e, he, hsnd, hfst⟩ := h.find
  refine ⟨_, by rw [Ledger.release, he], ?_, hfst⟩
  rw [← h.balanced, hsnd, ← Multiset.cons_coe]
  simp only [Multiset.cons_add, Multiset.add_cons]

theorem Accounts.give (h : Accounts l ({name} + owners)) : ∃ l', l.give name = some l' ∧ Accounts l' owners := by
  obtain ⟨e, he, hsnd, hfst⟩ := h.find
  refine ⟨_, by rw [Ledger.give, he, Option.map_some], ?_, hfst⟩
  rw [← h.balanced, hsnd, ← Multiset.cons_coe]
  simp only [Multiset.cons_add, Multiset.add_cons]

theorem Accounts.dropLent (h : Accounts l owners) {l' : Ledger ι} (hl : l.dropLent name = some l') :
    Accounts l' owners := by
  obtain ⟨e, -, rfl⟩ := Option.map_eq_some_iff.1 hl
  exact ⟨h.balanced, h.owned⟩

theorem acquire_given {l' : Ledger ι} (h : l.acquire name = some l') : l'.given = l.given := by
  rw [acquire] at h
  split_ifs at h
  obtain rfl := Option.some.inj h
  rfl

theorem release_given {l' : Ledger ι} (h : l.release name = some l') : l'.given = l.given := by
  rw [release] at h
  split at h
  · obtain rfl := Option.some.inj h
    rfl
  · obtain ⟨e, -, rfl⟩ := Option.map_eq_some_iff.1 h
    rfl

/-! ## Owners in a list -/

/-- what one element of a list contributes, and the others do -/
theorem sum_set {α β : Type*} [AddCommMonoid β] (f : α → β) {as : List α} {i : ℕ} {a : α} (h : as[i]? = some a) :
    ∃ rest, (as.map f).sum = f a + rest ∧ ∀ b, ((as.set i b).map f).sum = f b + rest := by
  obtain ⟨hlt, rfl⟩ := List.getElem?_eq_some_iff.1 h
  refine ⟨((as.take i).map f).sum + ((as.drop (i + 1)).map f).sum, ?_, fun b => ?_⟩
  · conv_lhs => rw [← List.take_append_drop i as, List.drop_eq_getElem_cons hlt]
    rw [List.map_append, List.sum_append, List.map_cons, List.sum_cons, add_left_comm]
  · rw [List.set_eq_take_append_cons_drop, if_pos hlt, List.map_append, List.sum_append, List.map_cons, List.sum_cons,
      add_left_comm]

end Ledger

end Core
