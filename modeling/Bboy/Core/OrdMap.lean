/-
Ordered maps in the manner of `std::map`: a list of entries, strictly sorted by key. The sortedness is a field, so an
unsorted map cannot be built.

- `upsert k f`: the one insertion; `f` sees the value found under `k`. `emplace` keeps a value that is there,
  `assign` (operator[] =) replaces it;
- `find?`, `rbegin?`, `eraseBegin`, `upperBound` (the entries from `upper_bound(k)` to the end);
- `keepLast n`: the `n` entries with the largest keys.

Results:
- `find?_upsert`, `mem_entries`: the map as a partial function;
- `mem_upperBound`, `le_rbegin`: the two reads that use the order;
- `keepLast_assign_keepLast`: trimming to the `n` largest keys before an insertion loses nothing that a trim after it
  would keep, so a loop that trims as it goes ends where one trim at the end would (`keepLast_assignAll`);
- `keepLast_isLargest`: what is kept is the `n` largest-numbered elements of the whole (`IsLargest`).
-/
import Mathlib.Tactic

namespace Core

/-- the at most `n` largest-numbered elements of `U`, smallest number first: nothing of `U` is left out unless there are
`n` elements and all of them have a larger number -/
structure IsLargest {α K : Type*} [LinearOrder K] (n : ℕ) (num : α → K) (U : Set α) (l : List α) : Prop where
  sorted : l.Pairwise fun x y => num x < num y
  sub : ∀ x ∈ l, x ∈ U
  size : l.length ≤ n
  rest : ∀ x ∈ U, x ∉ l → l.length = n ∧ ∀ y ∈ l, num x < num y

theorem IsLargest.ne_nil {α K : Type*} [LinearOrder K] {n : ℕ} {num : α → K} {U : Set α} {l : List α}
    (h : IsLargest (n + 1) num U l) {x : α} (hx : x ∈ U) : l ≠ [] := by
  rintro rfl
  have := (h.rest x hx List.not_mem_nil).1
  simp at this

structure OrdMap (K V : Type*) [LinearOrder K] where
  entries : List (K × V)
  sorted : entries.Pairwise fun a b => a.1 < b.1

namespace OrdMap

variable {K V : Type*} [LinearOrder K]

theorem ext {m m' : OrdMap K V} (h : m.entries = m'.entries) : m = m' := by
  cases m
  cases m'
  cases h
  rfl

def empty : OrdMap K V := ⟨[], List.Pairwise.nil⟩

/-! ## Entry lists -/

def lookup (k : K) : List (K × V) → Option V
  | [] => none
  | e :: l => if e.1 = k then some e.2 else lookup k l

def upsertList (k : K) (f : Option V → V) : List (K × V) → List (K × V)
  | [] => [(k, f none)]
  | e :: l =>
    if k < e.1 then (k, f none) :: e :: l
    else if e.1 < k then e :: upsertList k f l
    else (k, f (some e.2)) :: l

theorem mem_upsertList {k : K} {f : Option V → V} {l : List (K × V)} {e : K × V} (h : e ∈ upsertList k f l) :
    e.1 = k ∨ e ∈ l := by
  induction l with
  | nil =>
    simp only [upsertList, List.mem_singleton] at h
    exact Or.inl (by rw [h])
  | cons d l ih =>
    simp only [upsertList] at h
    split_ifs at h with h1 h2
    · rcases List.mem_cons.1 h with rfl | h
      · exact Or.inl rfl
      · exact Or.inr h
    · rcases List.mem_cons.1 h with rfl | h
      · exact Or.inr List.mem_cons_self
      · exact (ih h).imp id (List.mem_cons_of_mem d)
    · rcases List.mem_cons.1 h with rfl | h
      · exact Or.inl rfl
      · exact Or.inr (List.mem_cons_of_mem d h)

theorem sorted_upsertList (k : K) (f : Option V → V) {l : List (K × V)} (h : l.Pairwise fun a b => a.1 < b.1) :
    (upsertList k f l).Pairwise fun a b => a.1 < b.1 := by
  induction l with
  | nil => exact List.pairwise_singleton _ _
  | cons d l ih =>
    obtain ⟨hd, hl⟩ := List.pairwise_cons.1 h
    simp only [upsertList]
    split_ifs with h1 h2
    · refine List.pairwise_cons.2 ⟨fun e he => ?_, h⟩
      rcases List.mem_cons.1 he with rfl | he
      · exact h1
      · exact h1.trans (hd e he)
    · refine List.pairwise_cons.2 ⟨fun e he => ?_, ih hl⟩
      rcases mem_upsertList he with he | he
      · rw [he]
        exact h2
      · exact hd e he
    · obtain hk : d.1 = k := le_antisymm (not_lt.1 h1) (not_lt.1 h2)
      exact List.pairwise_cons.2 ⟨fun e he => hk ▸ hd e he, hl⟩

theorem lookup_eq_none {k : K} {l : List (K × V)} (h : ∀ e ∈ l, e.1 ≠ k) : lookup k l = none := by
  induction l with
  | nil => rfl
  | cons d l ih =>
    rw [lookup, if_neg (h d List.mem_cons_self)]
    exact ih fun e he => h e (List.mem_cons_of_mem d he)

theorem lookup_upsertList (k k' : K) (f : Option V → V) {l : List (K × V)} (h : l.Pairwise fun a b => a.1 < b.1) :
    lookup k' (upsertList k f l) = if k' = k then some (f (lookup k l)) else lookup k' l := by
  induction l with
  | nil => simp [upsertList, lookup, eq_comm]
  | cons d l ih =>
    obtain ⟨hd, hl⟩ := List.pairwise_cons.1 h
    simp only [upsertList]
    split_ifs with h1 h2 h3 h4
    · -- inserted before every larger key
      have hnone : lookup k (d :: l) = none := lookup_eq_none fun e he => by
        rcases List.mem_cons.1 he with rfl | he
        · exact h1.ne'
        · exact (h1.trans (hd e he)).ne'
      rw [hnone, h2]
      simp [lookup]
    · simp [lookup, Ne.symm h2]
    · rw [lookup, if_neg (by rw [h4]; exact h3.ne), ih hl, if_pos h4, lookup, if_neg h3.ne]
    · rw [lookup, lookup, ih hl, if_neg h4]
    · -- found: the key of the head is `k`
      have hk : d.1 = k := le_antisymm (not_lt.1 h1) (not_lt.1 h3)
      rename_i h5
      simp [lookup, h5, hk]
    · have hk : d.1 = k := le_antisymm (not_lt.1 h1) (not_lt.1 h3)
      rename_i h5
      simp [lookup, Ne.symm h5, hk]

theorem mem_iff_lookup {l : List (K × V)} (h : l.Pairwise fun a b => a.1 < b.1) (k : K) (v : V) :
    (k, v) ∈ l ↔ lookup k l = some v := by
  induction l with
  | nil => simp [lookup]
  | cons d l ih =>
    obtain ⟨hd, hl⟩ := List.pairwise_cons.1 h
    rw [lookup, List.mem_cons]
    split_ifs with hk
    · constructor
      · rintro (rfl | hm)
        · rfl
        · exact absurd hk (hd _ hm).ne
      · intro hv
        exact Or.inl (Prod.ext hk.symm (Option.some.inj hv).symm)
    · rw [← ih hl, or_iff_right]
      rintro rfl
      exact hk rfl

/-! ## Maps -/

variable (m : OrdMap K V)

def size : ℕ := m.entries.length

def values : List V := m.entries.map Prod.snd

def find? (k : K) : Option V := lookup k m.entries

def upsert (k : K) (f : Option V → V) : OrdMap K V := ⟨upsertList k f m.entries, sorted_upsertList k f m.sorted⟩

/-- `map.emplace(k, v)`: a value that is already there stays -/
def emplace (k : K) (v : V) : OrdMap K V := m.upsert k fun old => old.getD v

/-- `map[k] = v` -/
def assign (k : K) (v : V) : OrdMap K V := m.upsert k fun _ => v

def rbegin? : Option (K × V) := m.entries.getLast?

def eraseBegin : OrdMap K V := ⟨m.entries.tail, m.sorted.tail⟩

/-- the entries from `map.upper_bound(k)` to the end -/
def upperBound (k : K) : List (K × V) := m.entries.dropWhile fun e => e.1 ≤ k

/-- the `n` entries with the largest keys -/
def keepLast (n : ℕ) : OrdMap K V := ⟨m.entries.drop (m.size - n), m.sorted.drop⟩

theorem mem_entries {m : OrdMap K V} {k : K} {v : V} : (k, v) ∈ m.entries ↔ m.find? k = some v :=
  mem_iff_lookup m.sorted k v

theorem find?_upsert (k k' : K) (f : Option V → V) :
    (m.upsert k f).find? k' = if k' = k then some (f (m.find? k)) else m.find? k' :=
  lookup_upsertList k k' f m.sorted

theorem find?_emplace (k k' : K) (v : V) :
    (m.emplace k v).find? k' = if k' = k then some ((m.find? k).getD v) else m.find? k' :=
  m.find?_upsert k k' _

theorem find?_assign (k k' : K) (v : V) :
    (m.assign k v).find? k' = if k' = k then some v else m.find? k' :=
  m.find?_upsert k k' _

theorem le_rbegin {m : OrdMap K V} {e : K × V} (h : m.rbegin? = some e) :
    e ∈ m.entries ∧ ∀ d ∈ m.entries, d.1 ≤ e.1 := by
  have hm := List.mem_of_getLast? h
  refine ⟨hm, fun d hd => ?_⟩
  obtain ⟨l, hl⟩ := List.getLast?_eq_some_iff.1 h
  have hs := m.sorted
  rw [hl] at hd hs
  rcases List.mem_append.1 hd with hd | hd
  · exact ((List.pairwise_append.1 hs).2.2 d hd e (List.mem_singleton_self e)).le
  · rw [List.mem_singleton.1 hd]

theorem rbegin_eq_none {m : OrdMap K V} (h : m.rbegin? = none) (k : K) : m.find? k = none := by
  rw [find?, List.getLast?_eq_none_iff.1 h, lookup]

theorem mem_upperBound {m : OrdMap K V} {k : K} {e : K × V} : e ∈ m.upperBound k ↔ e ∈ m.entries ∧ k < e.1 := by
  obtain ⟨l, hs⟩ := m
  simp only [upperBound]
  induction l with
  | nil => simp
  | cons d l ih =>
    obtain ⟨hd, hl⟩ := List.pairwise_cons.1 hs
    rw [List.dropWhile_cons]
    split_ifs with h
    · have h : d.1 ≤ k := by simpa using h
      rw [ih hl, List.mem_cons]
      constructor
      · exact fun ⟨he, hk⟩ => ⟨Or.inr he, hk⟩
      · rintro ⟨rfl | he, hk⟩
        · exact absurd hk (not_lt.2 h)
        · exact ⟨he, hk⟩
    · have h : k < d.1 := by simpa using h
      rw [List.mem_cons]
      constructor
      · rintro (rfl | he)
        · exact ⟨Or.inl rfl, h⟩
        · exact ⟨Or.inr he, h.trans (hd e he)⟩
      · exact fun he => he.1

/-! ## The largest keys -/

theorem drop_cons_of_le {α : Type*} {n : ℕ} {a : α} {l : List α} (h : n ≤ l.length) :
    (a :: l).drop ((a :: l).length - n) = l.drop (l.length - n) := by
  rw [List.length_cons, Nat.sub_add_comm h, List.drop_succ_cons]

theorem length_le_upsertList (k : K) (f : Option V → V) (l : List (K × V)) : l.length ≤ (upsertList k f l).length := by
  induction l with
  | nil => exact Nat.zero_le _
  | cons d l ih =>
    simp only [upsertList]
    split_ifs
    · exact Nat.le_succ _
    · exact Nat.succ_le_succ ih
    · exact le_rfl

theorem length_upsertList_le (k : K) (f : Option V → V) (l : List (K × V)) :
    (upsertList k f l).length ≤ l.length + 1 := by
  induction l with
  | nil => exact le_rfl
  | cons d l ih =>
    simp only [upsertList]
    split_ifs
    · exact le_rfl
    · exact Nat.succ_le_succ ih
    · exact Nat.le_succ _

/-- the head of a sorted list that is not among its last `n` entries makes no difference to the last `n` entries after
an insertion -/
theorem drop_upsertList_cons {n : ℕ} (k : K) (v : V) {d : K × V} {l : List (K × V)} (hn : n ≤ l.length)
    (hd : ∀ e ∈ l, d.1 < e.1) :
    (upsertList k (fun _ => v) (d :: l)).drop ((upsertList k (fun _ => v) (d :: l)).length - n) =
      (upsertList k (fun _ => v) l).drop ((upsertList k (fun _ => v) l).length - n) := by
  have hfront : ∀ h : ∀ e ∈ l, k < e.1, upsertList k (fun _ => v) l = (k, v) :: l := by
    intro h
    cases l with
    | nil => rfl
    | cons e l => rw [upsertList, if_pos (h e List.mem_cons_self)]
  simp only [upsertList]
  split_ifs with h1 h2
  · rw [drop_cons_of_le (hn.trans (Nat.le_succ _)), drop_cons_of_le hn, hfront fun e he => h1.trans (hd e he),
      drop_cons_of_le hn]
  · exact drop_cons_of_le (hn.trans (length_le_upsertList k _ l))
  · have hk : d.1 = k := le_antisymm (not_lt.1 h1) (not_lt.1 h2)
    rw [hfront fun e he => hk ▸ hd e he]

theorem drop_upsertList (n : ℕ) (k : K) (v : V) {l : List (K × V)} (h : l.Pairwise fun a b => a.1 < b.1) :
    (upsertList k (fun _ => v) (l.drop (l.length - n))).drop
        ((upsertList k (fun _ => v) (l.drop (l.length - n))).length - n) =
      (upsertList k (fun _ => v) l).drop ((upsertList k (fun _ => v) l).length - n) := by
  induction l with
  | nil => rw [List.drop_nil]
  | cons d l ih =>
    obtain ⟨hd, hl⟩ := List.pairwise_cons.1 h
    by_cases hn : n ≤ l.length
    · rw [drop_cons_of_le hn, ih hl, drop_upsertList_cons k v hn hd]
    · have h0 : (d :: l).length - n = 0 := by
        rw [List.length_cons]
        omega
      rw [h0, List.drop_zero]

/-- **Trim early, trim late.** An insertion after a trim keeps what a trim after the insertion keeps. -/
theorem keepLast_assign_keepLast (n : ℕ) (k : K) (v : V) :
    ((m.keepLast n).assign k v).keepLast n = (m.assign k v).keepLast n :=
  ext (drop_upsertList n k v m.sorted)

theorem entries_keepLast (n : ℕ) : (m.keepLast n).entries = m.entries.drop (m.size - n) := rfl

theorem size_keepLast (n : ℕ) : (m.keepLast n).size ≤ n := by
  rw [size, entries_keepLast, List.length_drop, size]
  omega

theorem values_keepLast (n : ℕ) : (m.keepLast n).values = m.values.drop (m.values.length - n) := by
  rw [values, values, entries_keepLast, List.map_drop, List.length_map, size]

theorem size_upsert_le (k : K) (f : Option V → V) : (m.upsert k f).size ≤ m.size + 1 :=
  length_upsertList_le k f m.entries

/-- erasing the first entry of a map that is one too large -/
theorem eraseBegin_eq_keepLast {m : OrdMap K V} {n : ℕ} (h : m.size ≤ n + 1) :
    (if n < m.size then m.eraseBegin else m) = m.keepLast n := by
  apply ext
  rw [entries_keepLast]
  split_ifs with hn
  · rw [show m.size - n = 1 by omega, List.drop_one]
    rfl
  · rw [Nat.sub_eq_zero_of_le (not_lt.1 hn), List.drop_zero]

/-- insert all of `l` in order, a later entry replacing an earlier one -/
def assignAll (l : List (K × V)) : OrdMap K V := l.foldl (fun m e => m.assign e.1 e.2) m

@[simp] theorem assignAll_nil : m.assignAll [] = m := rfl

@[simp] theorem assignAll_cons (e : K × V) (l : List (K × V)) :
    m.assignAll (e :: l) = (m.assign e.1 e.2).assignAll l := rfl

theorem keepLast_assignAll (n : ℕ) (l : List (K × V)) :
    ((m.keepLast n).assignAll l).keepLast n = (m.assignAll l).keepLast n := by
  induction l generalizing m with
  | nil =>
    apply ext
    rw [assignAll_nil, assignAll_nil, entries_keepLast, Nat.sub_eq_zero_of_le (size_keepLast m n), List.drop_zero]
  | cons e l ih =>
    rw [assignAll_cons, assignAll_cons, ← ih, keepLast_assign_keepLast, ih]

theorem mem_of_mem_assignAll {m : OrdMap K V} {l : List (K × V)} {e : K × V} (h : e ∈ (m.assignAll l).entries) :
    e ∈ l ∨ e ∈ m.entries := by
  induction l generalizing m with
  | nil => exact Or.inr h
  | cons d l ih =>
    rcases ih h with h | h
    · exact Or.inl (List.mem_cons_of_mem d h)
    · obtain ⟨k, v⟩ := e
      rw [mem_entries, find?_assign] at h
      split_ifs at h with hk
      · cases h
        exact Or.inl (by rw [hk]; exact List.mem_cons_self)
      · exact Or.inr (mem_entries.2 h)

/-- with one value for each key nothing that is inserted is lost -/
theorem mem_assignAll {m : OrdMap K V} {l : List (K × V)} {e : K × V} (h : e ∈ l ∨ e ∈ m.entries)
    (huniq : ∀ d ∈ l, d.1 = e.1 → d.2 = e.2) : e ∈ (m.assignAll l).entries := by
  induction l generalizing m with
  | nil => exact h.resolve_left List.not_mem_nil
  | cons d l ih =>
    have hd := huniq d List.mem_cons_self
    refine ih ?_ fun d' hd' => huniq d' (List.mem_cons_of_mem d hd')
    rw [List.mem_cons, or_assoc] at h
    have hin : e.1 = d.1 → e ∈ (m.assign d.1 d.2).entries := by
      intro hk
      rw [← Prod.mk.eta (p := e), mem_entries, find?_assign, if_pos hk, hd hk.symm]
    rcases h with rfl | h | h
    · exact Or.inr (hin rfl)
    · exact Or.inl h
    · by_cases hk : e.1 = d.1
      · exact Or.inr (hin hk)
      · right
        rw [← Prod.mk.eta (p := e), mem_entries] at h ⊢
        rwa [find?_assign, if_neg hk]

theorem keepLast_isLargest {num : V → K} {m : OrdMap K V} (hnum : ∀ e ∈ m.entries, num e.2 = e.1) (n : ℕ) :
    IsLargest n num {v | ∃ k, (k, v) ∈ m.entries} (m.keepLast n).values := by
  have hsub : (m.keepLast n).entries.Sublist m.entries := List.drop_sublist _ _
  have hmem : ∀ v, v ∈ (m.keepLast n).values ↔ ∃ k, (k, v) ∈ (m.keepLast n).entries := by
    intro v
    simp [values]
  refine ⟨?_, fun v hv => ?_, ?_, fun v hv hout => ?_⟩
  · rw [values, List.pairwise_map]
    refine (m.keepLast n).sorted.imp_of_mem fun ha hb hab => ?_
    rwa [hnum _ (hsub.subset ha), hnum _ (hsub.subset hb)]
  · obtain ⟨k, hk⟩ := (hmem v).1 hv
    exact ⟨k, hsub.subset hk⟩
  · rw [values, List.length_map]
    exact size_keepLast m n
  · obtain ⟨k, hk⟩ := hv
    -- an entry that was left out stands before the cut
    have hsplit := List.take_append_drop (m.size - n) m.entries
    have htake : (k, v) ∈ m.entries.take (m.size - n) := by
      rw [← hsplit] at hk
      exact (List.mem_append.1 hk).resolve_right fun h => hout ((hmem v).2 ⟨k, h⟩)
    have hlen : n < m.size := by
      by_contra hle
      rw [Nat.sub_eq_zero_of_le (not_lt.1 hle), List.take_zero] at htake
      exact absurd htake List.not_mem_nil
    refine ⟨?_, fun w hw => ?_⟩
    · rw [values, List.length_map, entries_keepLast, List.length_drop]
      exact Nat.sub_sub_self hlen.le
    · obtain ⟨k', hk'⟩ := (hmem w).1 hw
      have hs := m.sorted
      rw [← hsplit] at hs
      rw [hnum _ hk, hnum _ (hsub.subset hk')]
      exact (List.pairwise_append.1 hs).2.2 _ htake _ hk'

end OrdMap

end Core
