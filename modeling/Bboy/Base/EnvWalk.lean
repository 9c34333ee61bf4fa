/-
Lean model of `PosixEnv::Walk` and `DeleteRecursively` (`bboy/base/env_posix.cc`).

The entries that `fts_read` returns are presented by a tree (`Forest`): a directory comes as `FTS_D`, then its entries,
then `FTS_DP`, or in its place `FTS_DNR` if it cannot be read and `FTS_ERR` after an error; everything else comes once.
Kinds that the options of `fts_open` rule out are left out. The path of an entry is the prefix of its directory and its
name: of the root, the part up to the last slash and the part after it, which is empty for a root that ends with a slash.
A failed `CHECK` and `IOError` on EIO with `FLAGS_suicide_on_eio` end the process (`none`).

- `walkLoop_present`: the calls of the callback, and when an error is recorded.
- `removal_path`, `removal_eq_none`: `DeleteRecursivelyCb` removes the entry that it is called for; the process ends for an
  empty or absolute name, or in `DeleteFile` or `DeleteDir`.
- `reports_exact`: `Walk` reports what it could not visit, and `DeleteRecursively` deletes what it reports as deleted,
  exactly when no entry is of a kind that is only logged (for `DeleteRecursively`: none at the top), or another entry is
  an error, or (for `DeleteRecursively`) the process ends.
- `reports_broken`: an unreadable directory, and OK.
Witness: `reports_exact_file`.
-/
import Bboy.Base.EnvPosix
import Bboy.Base.PathUtil

namespace Bboy.EnvWalk

open EnvPosix PathUtil

/-! ## Model -/

inductive FileType where
  | directory
  | file
deriving DecidableEq, Repr

inductive DirectoryOrder where
  | preOrder
  | postOrder
deriving DecidableEq, Repr

/-- `fts_info` -/
inductive FtsInfo where
  | d
  | dp
  | f
  | sl
  | slnone
  | default
  | err
  /-- a directory that cannot be read -/
  | dnr
  /-- a file that `stat` failed for -/
  | ns
  /-- a directory that closes a cycle -/
  | dc
deriving DecidableEq, Repr

structure FtsEnt where
  info : FtsInfo
  path : Path
  name : Path
deriving DecidableEq, Repr

/-- the arguments of the callback -/
structure Visit where
  type : FileType
  dirname : Path
  name : Path
deriving DecidableEq, Repr

abbrev WalkCallback (σ : Type) := σ → Visit → Status × σ

/-- what the loop has done: `had_errors`, the calls with their results, and the state of the callback -/
structure Progress (σ : Type) where
  hadErrors : Bool
  visits : List (Visit × Status)
  state : σ

variable {σ : Type}

/-- the body of `switch (ent->fts_info)`: the type to call the callback with, and whether an error is recorded -/
def classify (order : DirectoryOrder) : FtsInfo → Option FileType × Bool
  | .d => (if order = .preOrder then some .directory else none, false)
  | .dp => (if order = .postOrder then some .directory else none, false)
  | .f => (some .file, false)
  | .sl => (some .file, false)
  | .slnone => (some .file, false)
  | .default => (some .file, false)
  | .err => (none, true)
  -- logged
  | _ => (none, false)

def runCb (cb : WalkCallback σ) (p : Progress σ) (visit : Visit) : Progress σ :=
  let r := cb p.state visit
  ⟨p.hadErrors || decide (r.1 ≠ .ok), p.visits ++ [(visit, r.1)], r.2⟩

def walkLoop (order : DirectoryOrder) (cb : WalkCallback σ) : List FtsEnt → Progress σ → Progress σ
  | [], p => p
  | ent :: entries, p =>
    let r := classify order ent.info
    let p := { p with hadErrors := p.hadErrors || r.2 }
    match r.1 with
    | some type => walkLoop order cb entries (runCb cb p ⟨type, dirName ent.path, ent.name⟩)
    | none => walkLoop order cb entries p

/-- the bytes of a path in a message -/
def text (path : Path) : String := String.ofList (path.map fun b => Char.ofNat b.toNat)

/-- the roots that the `CHECK_NE`s refuse: "/", "./", "." and "" -/
abbrev Refused (root : Path) : Prop := root = [47] ∨ root = [46, 47] ∨ root = [46] ∨ root = []

/-- `tree` is what `fts_open` and the calls of `fts_read` return -/
def walk (flags : Flags) (root : Path) (order : DirectoryOrder) (cb : WalkCallback σ) (s : σ)
    (tree : Except Errno (List FtsEnt)) : Option (Status × Progress σ) :=
  if Refused root then none
  else
    match tree with
    | .error err => failWith flags (text root) err ⟨false, [], s⟩
    | .ok entries =>
      let p := walkLoop order cb entries ⟨false, [], s⟩
      if p.hadErrors then some (.bad (.ioError (text root) "One or more errors occurred" (-1)), p) else some (.ok, p)

/-- what `DeleteFile` or `DeleteDir` returns for a path -/
abbrev Remove := Path → Option Status

def removal (remove : Remove) (dirname name : Path) : Option Status := (joinPathSegments dirname name).bind remove

/-- `DeleteRecursivelyCb`; its state is `none` when the process has ended -/
def deleteRecursivelyCb (remove : Remove) : WalkCallback (Option Unit) :=
  fun alive visit =>
    match alive, removal remove visit.dirname visit.name with
    | some (), some s => (s, some ())
    | _, _ => (.ok, none)

def deleteRecursively (flags : Flags) (root : Path) (remove : Remove) (tree : Except Errno (List FtsEnt)) :
    Option (Status × Progress (Option Unit)) :=
  (walk flags root .postOrder (deleteRecursivelyCb remove) (some ()) tree).bind fun r => r.2.state.map fun _ => r

/-! ## Trees -/

/-- an entry that comes once -/
inductive Leaf where
  | f
  | sl
  | slnone
  | default
  | err
  | ns
  | dc
deriving DecidableEq, Repr

def Leaf.info : Leaf → FtsInfo
  | .f => .f
  | .sl => .sl
  | .slnone => .slnone
  | .default => .default
  | .err => .err
  | .ns => .ns
  | .dc => .dc

/-- how a directory comes for the second time -/
inductive Ending where
  | dp
  | dnr
  | err
deriving DecidableEq, Repr

def Ending.info : Ending → FtsInfo
  | .dp => .dp
  | .dnr => .dnr
  | .err => .err

/-- the entries of a directory, each with those that follow it -/
inductive Forest where
  | nil
  | leaf (kind : Leaf) (name : Path) (siblings : Forest)
  | dir (ending : Ending) (name : Path) (children siblings : Forest)
deriving DecidableEq, Repr

/-- the prefix of the entries of a directory (`NAPPEND` of `fts`) -/
def inside (path : Path) : Path := if path.getLast? = some 47 then path else path ++ [47]

/-- what `fts_read` returns for the entries with a prefix -/
def present (pre : Path) : Forest → List FtsEnt
  | .nil => []
  | .leaf kind name siblings => ⟨kind.info, pre ++ name, name⟩ :: present pre siblings
  | .dir ending name children siblings =>
    ⟨.d, pre ++ name, name⟩ :: (present (inside (pre ++ name)) children ++
      ⟨ending.info, pre ++ name, name⟩ :: present pre siblings)

/-- the kinds that mean that something could not be visited -/
def FtsInfo.inaccessible (info : FtsInfo) : Bool := info ∈ [.err, .dnr, .ns, .dc]

/-- the kinds that are only logged -/
def FtsInfo.silent (info : FtsInfo) : Bool := info ∈ [.dnr, .ns, .dc]

/-- every directory that can be read and every other entry that is accessible -/
def accessible (pre : Path) : Forest → List Visit
  | .nil => []
  | .leaf kind name siblings =>
    (if kind.info.inaccessible then [] else [⟨.file, dirName (pre ++ name), name⟩]) ++ accessible pre siblings
  | .dir ending name children siblings =>
    (if ending = .dp then [⟨.directory, dirName (pre ++ name), name⟩] else []) ++
      accessible (inside (pre ++ name)) children ++ accessible pre siblings

/-- the directories that turn out not to be readable -/
def unreadable (pre : Path) : Forest → List Visit
  | .nil => []
  | .leaf _ _ siblings => unreadable pre siblings
  | .dir ending name children siblings =>
    (if ending = .dp then [] else [⟨.directory, dirName (pre ++ name), name⟩]) ++
      unreadable (inside (pre ++ name)) children ++ unreadable pre siblings

/-- the calls of the callback, with their results -/
def results (cb : WalkCallback σ) : σ → List Visit → List (Visit × Status)
  | _, [] => []
  | s, visit :: visits => (visit, (cb s visit).1) :: results cb (cb s visit).2 visits

/-- what the callback is called with -/
def visits (order : DirectoryOrder) (entries : List FtsEnt) : List Visit :=
  entries.filterMap fun ent => (classify order ent.info).1.map fun type => ⟨type, dirName ent.path, ent.name⟩

/-! ## What the loop does -/

variable {order : DirectoryOrder} {cb : WalkCallback σ}

theorem classify_error (order : DirectoryOrder) (info : FtsInfo) : (classify order info).2 = decide (info = .err) := by
  cases info <;> rfl

/-- **The loop** calls the callback for the visits, and records an error for each `FTS_ERR` and each call that fails. -/
theorem walkLoop_present (entries : List FtsEnt) (p : Progress σ) :
    (walkLoop order cb entries p).visits = p.visits ++ results cb p.state (visits order entries) ∧
      ((walkLoop order cb entries p).hadErrors = true ↔ p.hadErrors = true ∨ (∃ ent ∈ entries, ent.info = .err) ∨
        ∃ r ∈ results cb p.state (visits order entries), r.2 ≠ .ok) := by
  induction entries generalizing p with
  | nil => simp [walkLoop, visits, results]
  | cons ent entries ih =>
    have herror := classify_error order ent.info
    simp only [walkLoop]
    cases hdo : (classify order ent.info).1 with
    | none =>
      have hvisits : visits order (ent :: entries) = visits order entries := by simp [visits, hdo]
      obtain ⟨hlog, hiff⟩ := ih { p with hadErrors := p.hadErrors || (classify order ent.info).2 }
      refine ⟨by rw [hvisits]; exact hlog, ?_⟩
      rw [hvisits]
      refine hiff.trans ?_
      simp [herror, or_assoc]
    | some type =>
      have hvisits : visits order (ent :: entries) = ⟨type, dirName ent.path, ent.name⟩ :: visits order entries := by
        simp [visits, hdo]
      obtain ⟨hlog, hiff⟩ := ih (runCb cb { p with hadErrors := p.hadErrors || (classify order ent.info).2 }
        ⟨type, dirName ent.path, ent.name⟩)
      rw [hvisits]
      refine ⟨?_, hiff.trans ?_⟩
      · simpa [runCb, results] using hlog
      · simp only [runCb, results, herror, Bool.or_eq_true, decide_eq_true_eq, List.mem_cons, exists_eq_or_imp, or_assoc,
          or_left_comm]

theorem visits_leaf (order : DirectoryOrder) (pre : Path) (kind : Leaf) (name : Path) (siblings : Forest) :
    visits order (present pre (.leaf kind name siblings)) =
      (if kind.info.inaccessible then [] else [⟨.file, dirName (pre ++ name), name⟩]) ++
        visits order (present pre siblings) := by
  cases kind <;> simp [present, visits, Leaf.info, classify, FtsInfo.inaccessible]

theorem visits_dir (order : DirectoryOrder) (pre : Path) (ending : Ending) (name : Path)
    (children siblings : Forest) :
    visits order (present pre (.dir ending name children siblings)) =
      (if order = .preOrder then [⟨.directory, dirName (pre ++ name), name⟩] else []) ++
        visits order (present (inside (pre ++ name)) children) ++
        (if order = .postOrder ∧ ending = .dp then [⟨.directory, dirName (pre ++ name), name⟩] else []) ++
        visits order (present pre siblings) := by
  cases ending <;> cases order <;> simp [present, visits, Ending.info, classify]

/-- each readable directory and each other accessible entry is visited once; before a directory is read, it is not known
whether it can be -/
theorem visits_perm (order : DirectoryOrder) (pre : Path) (tree : Forest) :
    (visits order (present pre tree)).Perm
      (accessible pre tree ++ if order = .preOrder then unreadable pre tree else []) := by
  induction tree generalizing pre with
  | nil => simp [present, visits, accessible, unreadable]
  | leaf kind name siblings ih =>
    rw [visits_leaf, accessible, unreadable, List.append_assoc]
    exact (ih pre).append_left _
  | dir ending name children siblings ihc ihs =>
    rw [List.perm_iff_count]
    intro visit
    have hc := (ihc (inside (pre ++ name))).count_eq visit
    have hs := (ihs pre).count_eq visit
    rw [visits_dir, accessible, unreadable]
    cases order <;> cases ending <;> simp [List.count_cons] at hc hs ⊢ <;> omega

/-! ## Reports -/

/-- a callback refuses one of the visits -/
def Refuses (cb : WalkCallback σ) (s : σ) (visits : List Visit) : Prop := ∃ r ∈ results cb s visits, r.2 ≠ .ok

/-- `Walk` visits what is accessible once, and returns OK only if there was no error -/
def Reports (flags : Flags) (root : Path) (order : DirectoryOrder) (cb : WalkCallback σ) (s : σ) (pre : Path)
    (tree : Forest) : Prop :=
  ∃ r, walk flags root order cb s (.ok (present pre tree)) = some r ∧
    (r.2.visits.map Prod.fst).Perm (accessible pre tree ++ if order = .preOrder then unreadable pre tree else []) ∧
    (r.1 = .ok → (∀ ent ∈ present pre tree, ent.info.inaccessible = false) ∧ ∀ visit ∈ r.2.visits, visit.2 = .ok)

theorem results_fst (cb : WalkCallback σ) (s : σ) (visits : List Visit) :
    (results cb s visits).map Prod.fst = visits := by
  induction visits generalizing s with
  | nil => rfl
  | cons visit visits ih => rw [results, List.map_cons, ih]

theorem inaccessible_iff (info : FtsInfo) : info.inaccessible = true ↔ info.silent = true ∨ info = .err := by
  cases info <;> decide

/-- what `Walk` returns: OK exactly if there is no `FTS_ERR`, and no call fails -/
theorem walk_eq (flags : Flags) {root : Path} (hroot : ¬Refused root) (order : DirectoryOrder)
    (cb : WalkCallback σ) (s : σ) (entries : List FtsEnt) :
    ∃ r, walk flags root order cb s (.ok entries) = some r ∧ r.2.visits = results cb s (visits order entries) ∧
      (r.1 = .ok ↔ (∀ ent ∈ entries, ent.info ≠ .err) ∧ ¬Refuses cb s (visits order entries)) := by
  obtain ⟨hlog, hiff⟩ := @walkLoop_present _ order cb entries ⟨false, [], s⟩
  rw [List.nil_append] at hlog
  have herrors : (walkLoop order cb entries ⟨false, [], s⟩).hadErrors = true ↔
      ¬((∀ ent ∈ entries, ent.info ≠ .err) ∧ ¬Refuses cb s (visits order entries)) := by
    rw [hiff, not_and_or, not_not]
    simp only [Bool.false_eq_true, false_or, Refuses, ne_eq, not_forall, not_not, exists_prop]
  rw [walk, if_neg hroot]
  simp only
  split_ifs with h
  · exact ⟨_, rfl, hlog, by simpa using herrors.1 h⟩
  · exact ⟨_, rfl, hlog, by simpa using (not_congr herrors).1 h⟩

theorem reports_iff (flags : Flags) {root : Path} (hroot : ¬Refused root) (order : DirectoryOrder)
    (cb : WalkCallback σ) (s : σ) (pre : Path) (tree : Forest) :
    Reports flags root order cb s pre tree ↔
      (∀ ent ∈ present pre tree, ent.info.silent = false) ∨ (∃ ent ∈ present pre tree, ent.info = .err) ∨
        Refuses cb s (visits order (present pre tree)) := by
  obtain ⟨r, hr, hlog, hok⟩ := walk_eq flags hroot order cb s (present pre tree)
  have hperm := visits_perm order pre tree
  rw [← results_fst cb s (visits order (present pre tree)), ← hlog] at hperm
  constructor
  · rintro ⟨r', hr', -, hhonest⟩
    obtain rfl : r = r' := Option.some.inj (hr.symm.trans hr')
    by_cases hstatus : r.1 = .ok
    · refine Or.inl fun ent hent => ?_
      have hclean := (hhonest hstatus).1 ent hent
      rw [← Bool.not_eq_true, inaccessible_iff] at hclean
      simpa using fun h => hclean (Or.inl h)
    · rw [hok, not_and_or, not_not] at hstatus
      simp only [ne_eq, not_forall, not_not, exists_prop] at hstatus
      exact Or.inr hstatus
  · intro hcond
    refine ⟨r, hr, hperm, fun hstatus => ?_⟩
    obtain ⟨hnoErr, haccepts⟩ := hok.1 hstatus
    have hloud : ∀ ent ∈ present pre tree, ent.info.silent = false := by
      rcases hcond with h | ⟨ent, hent, herr⟩ | h
      · exact h
      · exact absurd herr (hnoErr ent hent)
      · exact absurd h haccepts
    refine ⟨fun ent hent => ?_, fun visit hvisit => ?_⟩
    · rw [← Bool.not_eq_true, inaccessible_iff, hloud ent hent]
      simpa using hnoErr ent hent
    · by_contra hbad
      exact haccepts ⟨visit, hlog ▸ hvisit, hbad⟩

/-! ## Deletion -/

/-- an entry was removed -/
def Removed (remove : Remove) (pre name : Path) : Prop := removal remove (dirName (pre ++ name)) name = some .ok

/-- every entry with the prefix, and what is inside it, is deleted -/
def AllDeleted (remove : Remove) (pre : Path) : Forest → Prop
  | .nil => True
  | .leaf kind name siblings =>
    (kind.info.inaccessible = false ∧ Removed remove pre name) ∧ AllDeleted remove pre siblings
  | .dir ending name children siblings =>
    (ending = .dp ∧ Removed remove pre name) ∧ AllDeleted remove (inside (pre ++ name)) children ∧
      AllDeleted remove pre siblings

/-- every entry with the prefix is deleted -/
def TopDeleted (remove : Remove) (pre : Path) : Forest → Prop
  | .nil => True
  | .leaf kind name siblings =>
    (kind.info.inaccessible = false ∧ Removed remove pre name) ∧ TopDeleted remove pre siblings
  | .dir ending name _ siblings => (ending = .dp ∧ Removed remove pre name) ∧ TopDeleted remove pre siblings

/-- `rmdir` removes empty directories only -/
def RemovesEmpty (remove : Remove) (pre : Path) : Forest → Prop
  | .nil => True
  | .leaf _ _ siblings => RemovesEmpty remove pre siblings
  | .dir _ name children siblings =>
    (Removed remove pre name → TopDeleted remove (inside (pre ++ name)) children) ∧
      RemovesEmpty remove (inside (pre ++ name)) children ∧ RemovesEmpty remove pre siblings

/-- no entry at the top is of a kind that is only logged -/
def TopLoud : Forest → Prop
  | .nil => True
  | .leaf kind _ siblings => kind.info.silent = false ∧ TopLoud siblings
  | .dir ending _ _ siblings => ending.info.silent = false ∧ TopLoud siblings

/-- OK means that everything was deleted -/
def Deletes (flags : Flags) (root : Path) (remove : Remove) (pre : Path) (tree : Forest) : Prop :=
  ∀ r, deleteRecursively flags root remove (.ok (present pre tree)) = some r → r.1 = .ok → AllDeleted remove pre tree

/-- the process ends at the removal of one of the visits -/
def Aborts (remove : Remove) (visits : List Visit) : Prop :=
  ∃ visit ∈ visits, removal remove visit.dirname visit.name = none

variable {remove : Remove} {pre : Path} {tree : Forest}

/-- the `CHECK`s of `JoinPathSegments`, and what ends the process in `DeleteFile` and `DeleteDir` -/
theorem removal_eq_none {path name : Path} :
    removal remove (dirName path) name = none ↔
      (name = [] ∨ name.head? = some 47) ∨ ∃ full, joinPathSegments (dirName path) name = some full ∧ remove full = none := by
  rw [← joinPathSegments_eq_none (dirName_ne_nil path), removal]
  cases joinPathSegments (dirName path) name with
  | none => simp
  | some full => simp

/-- an entry is removed at a path with its own segments -/
theorem removal_path {name : Path} (hname : IsName name) (hpre : pre = [] ∨ pre.getLast? = some 47) :
    ∃ full, removal remove (dirName (pre ++ name)) name = remove full ∧
      splitPath full = (if pre = [] then [[46]] else []) ++ splitPath (pre ++ name) := by
  obtain ⟨full, hfull, hsplit⟩ := join_dirName hname hpre
  exact ⟨full, by rw [removal, hfull, Option.bind_some], hsplit⟩

theorem AllDeleted.loud (h : AllDeleted remove pre tree) : TopLoud tree := by
  induction tree with
  | nil => trivial
  | leaf kind name siblings ih =>
    refine ⟨?_, ih h.2⟩
    have hkind := h.1.1
    cases kind <;> first | rfl | cases hkind
  | dir ending name children siblings _ ih =>
    refine ⟨?_, ih h.2.2⟩
    rw [h.1.1]
    rfl

/-- at the top, what is not only logged was deleted -/
theorem TopLoud.deleted (h : TopLoud tree) (hnoErr : ∀ ent ∈ present pre tree, ent.info ≠ .err)
    (hremoved : ∀ visit ∈ visits .postOrder (present pre tree), removal remove visit.dirname visit.name = some .ok) :
    TopDeleted remove pre tree := by
  induction tree with
  | nil => trivial
  | leaf kind name siblings ih =>
    have hclean : kind.info.inaccessible = false := by
      rw [← Bool.not_eq_true, inaccessible_iff, h.1]
      simpa using hnoErr ⟨kind.info, pre ++ name, name⟩ List.mem_cons_self
    rw [visits_leaf, hclean] at hremoved
    refine ⟨⟨hclean, hremoved ⟨.file, dirName (pre ++ name), name⟩ List.mem_cons_self⟩, ih h.2 ?_ ?_⟩
    · intro ent hent
      exact hnoErr ent (List.mem_cons_of_mem _ hent)
    · intro visit hvisit
      exact hremoved visit (List.mem_cons_of_mem _ hvisit)
  | dir ending name children siblings _ ih =>
    rw [visits_dir] at hremoved
    refine ⟨?_, ih h.2 ?_ ?_⟩
    · have hending := h.1
      have herr := hnoErr ⟨ending.info, pre ++ name, name⟩ (by simp [present])
      cases ending with
      | dp => exact ⟨rfl, hremoved ⟨.directory, dirName (pre ++ name), name⟩ (by simp)⟩
      | dnr => cases hending
      | err => exact absurd rfl herr
    · intro ent hent
      exact hnoErr ent (by simp [present, hent])
    · intro visit hvisit
      exact hremoved visit (List.mem_append_right _ hvisit)

/-- what is deleted at the top is deleted with everything below, since `rmdir` removes empty directories only -/
theorem TopDeleted.all (h : TopDeleted remove pre tree) (hempty : RemovesEmpty remove pre tree) :
    AllDeleted remove pre tree := by
  induction tree generalizing pre with
  | nil => trivial
  | leaf kind name siblings ih => exact ⟨h.1, ih h.2 hempty⟩
  | dir ending name children siblings ihc ihs =>
    exact ⟨h.1, ihc (hempty.1 h.1.2) hempty.2.1, ihs h.2 hempty.2.2⟩

/-! ### The callback -/

/-- the state of the callback after some calls -/
def after (cb : WalkCallback σ) (s : σ) (visits : List Visit) : σ := visits.foldl (fun s visit => (cb s visit).2) s

theorem walkLoop_state {σ : Type} {order : DirectoryOrder} {cb : WalkCallback σ} (entries : List FtsEnt) (p : Progress σ) :
    (walkLoop order cb entries p).state = after cb p.state (visits order entries) := by
  induction entries generalizing p with
  | nil => rfl
  | cons ent entries ih =>
    simp only [walkLoop]
    cases hdo : (classify order ent.info).1 with
    | none =>
      have hvisits : visits order (ent :: entries) = visits order entries := by simp [visits, hdo]
      rw [ih, hvisits]
    | some type =>
      have hvisits : visits order (ent :: entries) = ⟨type, dirName ent.path, ent.name⟩ :: visits order entries := by
        simp [visits, hdo]
      rw [ih, hvisits, after, after, List.foldl_cons, runCb]

/-- what `Walk` leaves as the state of the callback -/
theorem walk_state {σ : Type} {flags : Flags} {root : Path} {order : DirectoryOrder} {cb : WalkCallback σ} {s : σ}
    {entries : List FtsEnt} {r : Status × Progress σ} (h : walk flags root order cb s (.ok entries) = some r) :
    r.2.state = after cb s (visits order entries) := by
  unfold walk at h
  split_ifs at h
  dsimp only at h
  split_ifs at h <;> (cases h; exact walkLoop_state _ _)

/-- nothing goes on after the end -/
theorem after_delete_none (visits : List Visit) : after (deleteRecursivelyCb remove) none visits = none := by
  induction visits with
  | nil => rfl
  | cons visit visits ih => exact ih

/-- the calls of `DeleteRecursivelyCb` are the removals, as long as the process goes on -/
theorem delete_calls (visits : List Visit) :
    (Aborts remove visits → after (deleteRecursivelyCb remove) (some ()) visits = none) ∧
      (¬ Aborts remove visits → after (deleteRecursivelyCb remove) (some ()) visits = some () ∧
        ∀ visit ∈ visits, ∃ s, removal remove visit.dirname visit.name = some s ∧
          (visit, s) ∈ results (deleteRecursivelyCb remove) (some ()) visits) := by
  induction visits with
  | nil => exact ⟨fun ⟨_, h, _⟩ => absurd h List.not_mem_nil, fun _ => ⟨rfl, fun _ h => absurd h List.not_mem_nil⟩⟩
  | cons visit visits ih =>
    obtain ⟨hdead, halive⟩ := ih
    cases hremoval : removal remove visit.dirname visit.name with
    | none =>
      have hcall : deleteRecursivelyCb remove (some ()) visit = (.ok, none) := by simp [deleteRecursivelyCb, hremoval]
      refine ⟨fun _ => ?_, fun h => absurd ⟨visit, List.mem_cons_self, hremoval⟩ h⟩
      rw [after, List.foldl_cons, hcall]
      exact after_delete_none visits
    | some s =>
      have hcall : deleteRecursivelyCb remove (some ()) visit = (s, some ()) := by simp [deleteRecursivelyCb, hremoval]
      have haborts : Aborts remove (visit :: visits) ↔ Aborts remove visits := by
        simp [Aborts, hremoval]
      rw [haborts, after, List.foldl_cons, results, hcall]
      refine ⟨hdead, fun h => ⟨(halive h).1, fun visit' hvisit => ?_⟩⟩
      rcases List.mem_cons.1 hvisit with rfl | hvisit
      · exact ⟨s, hremoval, List.mem_cons_self⟩
      · obtain ⟨s', hs', hmem⟩ := (halive h).2 visit' hvisit
        exact ⟨s', hs', List.mem_cons_of_mem _ hmem⟩

theorem deletes_iff (flags : Flags) {root : Path} (hroot : ¬Refused root)
    (hempty : RemovesEmpty remove pre tree) :
    Deletes flags root remove pre tree ↔
      TopLoud tree ∨ (∃ ent ∈ present pre tree, ent.info = .err) ∨
        Refuses (deleteRecursivelyCb remove) (some ()) (visits .postOrder (present pre tree)) ∨
        Aborts remove (visits .postOrder (present pre tree)) := by
  obtain ⟨r, hr, -, hok⟩ := walk_eq flags hroot .postOrder (deleteRecursivelyCb remove) (some ()) (present pre tree)
  obtain ⟨hdead, halive⟩ := @delete_calls remove (visits .postOrder (present pre tree))
  by_cases haborts : Aborts remove (visits .postOrder (present pre tree))
  · refine iff_of_true (fun r' hr' => ?_) (Or.inr (Or.inr (Or.inr haborts)))
    rw [deleteRecursively, hr, Option.bind_some, walk_state hr, hdead haborts] at hr'
    cases hr'
  have hreturns : deleteRecursively flags root remove (.ok (present pre tree)) = some r := by
    rw [deleteRecursively, hr, Option.bind_some, walk_state hr, (halive haborts).1]
    rfl
  constructor
  · intro hdeleted
    by_cases hstatus : r.1 = .ok
    · exact Or.inl (hdeleted r hreturns hstatus).loud
    · rw [hok, not_and_or, not_not] at hstatus
      simp only [ne_eq, not_forall, not_not, exists_prop] at hstatus
      exact Or.inr (hstatus.imp_right Or.inl)
  · intro hcond r' hr' hstatus
    obtain rfl : r = r' := Option.some.inj (hreturns.symm.trans hr')
    obtain ⟨hnoErr, haccepts⟩ := hok.1 hstatus
    have hloud : TopLoud tree := by
      rcases hcond with h | ⟨ent, hent, herr⟩ | h | h
      · exact h
      · exact absurd herr (hnoErr ent hent)
      · exact absurd h haccepts
      · exact absurd h haborts
    refine (hloud.deleted hnoErr fun visit hvisit => ?_).all hempty
    obtain ⟨s, hs, hmem⟩ := (halive haborts).2 visit hvisit
    by_contra hbad
    exact haccepts ⟨_, hmem, fun hs' : s = .ok => hbad (hs' ▸ hs)⟩

/-! ## Main result -/

/-- **`Walk` reports** what it could not visit exactly if no entry is of a kind that is only logged, or an error is
recorded for something else. **`DeleteRecursively`** deletes what it reports as deleted exactly if no entry at the top is
of such a kind, or an error is recorded (below the top, `rmdir` fails for the directory that is not empty), or the process
ends. -/
theorem reports_exact (flags : Flags) (root : Path) (hroot : ¬Refused root) (order : DirectoryOrder)
    (cb : WalkCallback σ) (s : σ) (remove : Remove) (pre : Path) (tree : Forest)
    (hempty : RemovesEmpty remove pre tree) :
    (Reports flags root order cb s pre tree ↔
      (∀ ent ∈ present pre tree, ent.info.silent = false) ∨ (∃ ent ∈ present pre tree, ent.info = .err) ∨
        Refuses cb s (visits order (present pre tree))) ∧
    (Deletes flags root remove pre tree ↔
      TopLoud tree ∨ (∃ ent ∈ present pre tree, ent.info = .err) ∨
        Refuses (deleteRecursivelyCb remove) (some ()) (visits .postOrder (present pre tree)) ∨
        Aborts remove (visits .postOrder (present pre tree))) :=
  ⟨reports_iff flags hroot order cb s pre tree, deletes_iff flags hroot hempty⟩

/-- `dir` -/
def dirRoot : Path := [100, 105, 114]

/-- `a/dir` with the readable file `f` in it: the directory is removed after the file -/
theorem reports_exact_file :
    Reports defaultFlags ([97, 47] ++ dirRoot) .postOrder (deleteRecursivelyCb fun _ => some .ok) (some ()) [97, 47]
        (.dir .dp dirRoot (.leaf .f [102] .nil) .nil) ∧
      Deletes defaultFlags ([97, 47] ++ dirRoot) (fun _ => some .ok) [97, 47]
        (.dir .dp dirRoot (.leaf .f [102] .nil) .nil) := by
  have h := reports_exact defaultFlags ([97, 47] ++ dirRoot) (by decide) .postOrder
    (deleteRecursivelyCb fun _ => some .ok) (some ()) (fun _ => some .ok) [97, 47]
    (.dir .dp dirRoot (.leaf .f [102] .nil) .nil)
    ⟨fun _ => ⟨⟨rfl, rfl⟩, trivial⟩, trivial, trivial⟩
  exact ⟨h.1.2 (Or.inl (by decide)), h.2.2 (Or.inl ⟨rfl, trivial⟩)⟩

/-- `dir/`: the file in the directory is removed, then the process ends at the directory, whose name is empty -/
example : deleteRecursively defaultFlags (dirRoot ++ [47]) (fun _ => some .ok)
    (.ok (present (dirRoot ++ [47]) (.dir .dp [] (.leaf .f [102] .nil) .nil))) = none := by decide

/-- a directory that cannot be read: OK in both orders, and nothing is deleted -/
theorem reports_broken :
    ¬Reports defaultFlags dirRoot .preOrder (deleteRecursivelyCb fun _ => some .ok) (some ()) []
        (.dir .dnr dirRoot .nil .nil) ∧
      ¬Deletes defaultFlags dirRoot (fun _ => some .ok) [] (.dir .dnr dirRoot .nil .nil) := by
  constructor
  · rintro ⟨r, hr, -, hhonest⟩
    obtain rfl := Option.some.inj hr
    have hclean := (hhonest rfl).1 ⟨.dnr, dirRoot, dirRoot⟩ (by decide)
    cases hclean
  · intro hdeletes
    have hend := (hdeletes _ rfl rfl).1.1
    cases hend

end Bboy.EnvWalk
