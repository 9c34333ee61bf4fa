/-
Lean model of `PosixEnv::GetFileSizeOnDisk` and `GetFileSizeOnDiskRecursively` (`bboy/base/env_posix.cc`) over `Walk`.

`stat` gives the blocks of a path, or an error. The sums are 64-bit; no file has 2^54 blocks, for which the product would
overflow before it is a `uint64_t`. The callback's state is `none` once `IOError`, or a `CHECK` of `JoinPathSegments`, has
ended the process.

- `cb_files`: the callback adds up the files it is called with and refuses those that `stat` fails for.
- `size_exact`: what is returned is the sum over the files that the walk found, each of them once for each name; OK means that
  there was no `FTS_ERR` and that each of them has a size. A directory that cannot be read is left out of the sum.
Witness: `size_exact_link`.
-/
import Bboy.Base.EnvWalk

namespace Bboy.EnvWalk.SizeOnDisk

open EnvPosix EnvWalk PathUtil

/-! ## Model -/

/-- `st_blocks` of the file at a path -/
abbrev Stat := Path → Except Errno ℕ

def getFileSizeOnDisk (flags : Flags) (stat : Stat) (fname : Path) : Option (Status × BitVec 64) :=
  match stat fname with
  | .error err => failWith flags (text fname) err 0
  | .ok blocks => some (.ok, BitVec.ofNat 64 (blocks * 512))

def getFileSizeOnDiskRecursivelyCb (flags : Flags) (stat : Stat) : WalkCallback (Option (BitVec 64)) :=
  fun bytesUsed visit =>
    match visit.type with
    | .file =>
      match bytesUsed, (joinPathSegments visit.dirname visit.name).bind (getFileSizeOnDisk flags stat) with
      | some bytesUsed, some r => (r.1, some (if r.1 = .ok then bytesUsed + r.2 else bytesUsed))
      | _, _ => (.ok, none)
    -- the space of directories is ignored
    | .directory => (.ok, bytesUsed)

/-- with `*bytes_used`, which is written on success only -/
def getFileSizeOnDiskRecursively (flags : Flags) (root : Path) (stat : Stat) (tree : Except Errno (List FtsEnt))
    (bytesUsed : BitVec 64) : Option (Status × BitVec 64) :=
  (walk flags root .preOrder (getFileSizeOnDiskRecursivelyCb flags stat) (some 0) tree).bind fun r =>
    r.2.state.map fun total => (r.1, if r.1 = .ok then total else bytesUsed)

/-! ## Disk usage -/

/-- the paths that are joined for the files that are found; `none` if a `CHECK` fails -/
def files (pre : Path) : Forest → List (Option Path)
  | .nil => []
  | .leaf kind name siblings =>
    (if kind.info.inaccessible then [] else [joinPathSegments (dirName (pre ++ name)) name]) ++ files pre siblings
  | .dir _ name children siblings => files (inside (pre ++ name)) children ++ files pre siblings

/-- what a file counts for -/
def usage (stat : Stat) (path : Option Path) : ℕ :=
  match path.map stat with
  | some (.ok blocks) => blocks * 512
  | _ => 0

def diskUsage (stat : Stat) (paths : List (Option Path)) : ℕ := (paths.map (usage stat)).sum

/-- the process ends at this file -/
def Kills (flags : Flags) (stat : Stat) (path : Option Path) : Prop :=
  path = none ∨ flags.suicideOnEio = true ∧ path.map stat = some (.error .eio)

def HasSize (stat : Stat) (path : Option Path) : Prop := ∃ blocks, path.map stat = some (.ok blocks)

/-- the path of a call for a file -/
def filePath (visit : Visit) : Option (Option Path) :=
  match visit.type with
  | .file => some (joinPathSegments visit.dirname visit.name)
  | .directory => none

variable {flags : Flags} {stat : Stat}

theorem visits_files (pre : Path) (tree : Forest) :
    (visits .preOrder (present pre tree)).filterMap filePath = files pre tree := by
  induction tree generalizing pre with
  | nil => rfl
  | leaf kind name siblings ih =>
    rw [visits_leaf, List.filterMap_append, ih, files]
    split_ifs <;> rfl
  | dir ending name children siblings ihc ihs =>
    rw [visits_dir, if_pos rfl, if_neg (by simp), List.append_nil, List.filterMap_append, List.filterMap_append, ihc, ihs,
      files]
    rfl

/-! ## The callback -/

theorem ioError_none {context : String} {err : Errno} :
    ioError flags context err = none ↔ flags.suicideOnEio = true ∧ err = .eio := by
  cases err <;> simp [ioError]

/-- a call for a file ends the process, or adds what the file counts for and is refused if it has no size -/
theorem cb_file (dirname name : Path) (total : ℕ) :
    (Kills flags stat (joinPathSegments dirname name) ∧
        getFileSizeOnDiskRecursivelyCb flags stat (some (BitVec.ofNat 64 total)) ⟨.file, dirname, name⟩ = (.ok, none)) ∨
      (¬ Kills flags stat (joinPathSegments dirname name) ∧
        ∃ s, (s ≠ .ok ↔ ¬ HasSize stat (joinPathSegments dirname name)) ∧
          getFileSizeOnDiskRecursivelyCb flags stat (some (BitVec.ofNat 64 total)) ⟨.file, dirname, name⟩ =
            (s, some (BitVec.ofNat 64 (total + usage stat (joinPathSegments dirname name))))) := by
  simp only [getFileSizeOnDiskRecursivelyCb]
  cases joinPathSegments dirname name with
  | none => exact Or.inl ⟨Or.inl rfl, rfl⟩
  | some path =>
    simp only [Kills, HasSize, usage, Option.map_some, Option.bind_some, reduceCtorEq, false_or, Option.some.injEq]
    cases hstat : stat path with
    | ok blocks =>
      right
      refine ⟨(fun h => by cases h.2), .ok, iff_of_false (not_not.2 rfl) (not_not.2 ⟨blocks, rfl⟩), ?_⟩
      rw [getFileSizeOnDisk, hstat, BitVec.ofNat_add]
      rfl
    | error err =>
      cases herr : ioError flags (text path) err with
      | none =>
        left
        obtain ⟨hflag, rfl⟩ := ioError_none.1 herr
        refine ⟨⟨hflag, rfl⟩, ?_⟩
        rw [getFileSizeOnDisk, hstat]
        simp only [failWith, herr]
        rfl
      | some e =>
        right
        refine ⟨fun h => ?_, .bad e, iff_of_true (fun h => by cases h) (fun ⟨blocks, h⟩ => by cases h), ?_⟩
        · have hnone := (@ioError_none flags (text path) err).2 ⟨h.1, Except.error.inj h.2⟩
          cases herr.symm.trans hnone
        · rw [getFileSizeOnDisk, hstat]
          simp only [failWith, herr]
          rfl

/-- nothing goes on after the end -/
theorem after_none (visits : List Visit) : after (getFileSizeOnDiskRecursivelyCb flags stat) none visits = none := by
  induction visits with
  | nil => rfl
  | cons visit visits ih =>
    have hnone : (getFileSizeOnDiskRecursivelyCb flags stat none visit).2 = none := by
      unfold getFileSizeOnDiskRecursivelyCb
      split <;> rfl
    rw [after, List.foldl_cons, hnone]
    exact ih

/-- **The callback.** If no file ends the process, the sizes are added up, and a call is refused exactly for a file that has
none. -/
theorem cb_files (visits : List Visit) (total : ℕ) :
    ((∃ path ∈ visits.filterMap filePath, Kills flags stat path) →
      after (getFileSizeOnDiskRecursivelyCb flags stat) (some (BitVec.ofNat 64 total)) visits = none) ∧
    ((∀ path ∈ visits.filterMap filePath, ¬ Kills flags stat path) →
      after (getFileSizeOnDiskRecursivelyCb flags stat) (some (BitVec.ofNat 64 total)) visits =
        some (BitVec.ofNat 64 (total + diskUsage stat (visits.filterMap filePath))) ∧
      (Refuses (getFileSizeOnDiskRecursivelyCb flags stat) (some (BitVec.ofNat 64 total)) visits ↔
        ∃ path ∈ visits.filterMap filePath, ¬ HasSize stat path)) := by
  induction visits generalizing total with
  | nil => simp [after, diskUsage, Refuses, results]
  | cons visit visits ih =>
    obtain ⟨type, dirname, name⟩ := visit
    cases type with
    | directory =>
      have hsame : ∀ s, getFileSizeOnDiskRecursivelyCb flags stat s ⟨.directory, dirname, name⟩ = (.ok, s) := fun s => rfl
      have hpaths : (Visit.mk .directory dirname name :: visits).filterMap filePath = visits.filterMap filePath := rfl
      have hrefuses : ∀ s, Refuses (getFileSizeOnDiskRecursivelyCb flags stat) s (⟨.directory, dirname, name⟩ :: visits) ↔
          Refuses (getFileSizeOnDiskRecursivelyCb flags stat) s visits := by
        intro s
        simp [Refuses, results, hsame]
      rw [hpaths, hrefuses]
      exact ih total
    | file =>
      have hpaths : (Visit.mk .file dirname name :: visits).filterMap filePath =
          joinPathSegments dirname name :: visits.filterMap filePath := rfl
      rw [hpaths]
      simp only [List.exists_mem_cons_iff, List.forall_mem_cons, diskUsage, List.map_cons, List.sum_cons]
      rcases @cb_file flags stat dirname name total with ⟨hkills, hcall⟩ | ⟨hlives, s, hs, hcall⟩
      · refine ⟨fun _ => ?_, fun h => absurd hkills h.1⟩
        rw [after, List.foldl_cons, hcall]
        exact after_none visits
      · obtain ⟨hdead, halive⟩ := ih (total + usage stat (joinPathSegments dirname name))
        rw [after, List.foldl_cons, Refuses, results, hcall]
        refine ⟨fun h => hdead (h.resolve_left hlives), fun h => ?_⟩
        obtain ⟨hsum, hrefuses⟩ := halive h.2
        refine ⟨hsum.trans (by rw [diskUsage, add_assoc]), ?_⟩
        rw [List.exists_mem_cons_iff]
        exact or_congr hs hrefuses

/-! ## Main result -/

/-- **The size is exact.** The process ends exactly if a file gives EIO and the flag asks for it, or has no name. Otherwise OK
means that no entry was an `FTS_ERR` and that every file that was found has a size; then the result is their sum, modulo
2^64. Else the result is not written. -/
theorem size_exact (flags : Flags) {root : Path} (hroot : ¬Refused root) (stat : Stat) (pre : Path)
    (tree : Forest) (bytesUsed : BitVec 64) :
    (getFileSizeOnDiskRecursively flags root stat (.ok (present pre tree)) bytesUsed = none ↔
      ∃ path ∈ files pre tree, Kills flags stat path) ∧
    ∀ s total, getFileSizeOnDiskRecursively flags root stat (.ok (present pre tree)) bytesUsed = some (s, total) →
      (s = .ok ↔ (∀ ent ∈ present pre tree, ent.info ≠ .err) ∧ ∀ path ∈ files pre tree, HasSize stat path) ∧
      total = if s = .ok then BitVec.ofNat 64 (diskUsage stat (files pre tree)) else bytesUsed := by
  obtain ⟨⟨s', p⟩, hwalk, -, hok⟩ :=
    walk_eq flags hroot .preOrder (getFileSizeOnDiskRecursivelyCb flags stat) (some 0) (present pre tree)
  have hstate : p.state = after (getFileSizeOnDiskRecursivelyCb flags stat) (some 0)
      (visits .preOrder (present pre tree)) := walk_state hwalk
  obtain ⟨hdead, halive⟩ := @cb_files flags stat (visits .preOrder (present pre tree)) 0
  rw [visits_files] at hdead halive
  rw [getFileSizeOnDiskRecursively, hwalk, Option.bind_some]
  dsimp only at hok ⊢
  by_cases hkills : ∃ path ∈ files pre tree, Kills flags stat path
  · rw [hstate, show (0 : BitVec 64) = BitVec.ofNat 64 0 from rfl, hdead hkills]
    refine ⟨iff_of_true rfl hkills, fun s total h => ?_⟩
    cases h
  · have hlives : ∀ path ∈ files pre tree, ¬ Kills flags stat path := fun path hpath h => hkills ⟨path, hpath, h⟩
    obtain ⟨hsum, hrefuses⟩ := halive hlives
    rw [zero_add] at hsum
    rw [hstate, show (0 : BitVec 64) = BitVec.ofNat 64 0 from rfl, hsum]
    refine ⟨iff_of_false (Option.some_ne_none _) hkills, fun s total h => ?_⟩
    obtain ⟨rfl, rfl⟩ := Prod.mk.inj (Option.some.inj h)
    refine ⟨hok.trans (and_congr_right fun _ => ?_), rfl⟩
    rw [show (0 : BitVec 64) = BitVec.ofNat 64 0 from rfl, hrefuses]
    simp only [not_exists, not_and, not_not]

/-! ### A run -/

/-- in `dir`, a file `f` with a second name `l`, next to a directory `x` that cannot be read -/
def linkTree : Forest := .dir .dp dirRoot (.leaf .f [102] (.dir .dnr [120] .nil (.leaf .f [108] .nil))) .nil

def eightBlocks : Stat := fun _ => .ok 8

/-- both names count, and the directory that cannot be read is not missed -/
theorem size_exact_link :
    getFileSizeOnDiskRecursively defaultFlags dirRoot eightBlocks (.ok (present [] linkTree)) 0 = some (.ok, 8192) ∧
      (Status.ok = .ok ↔ (∀ ent ∈ present [] linkTree, ent.info ≠ .err) ∧
        ∀ path ∈ files [] linkTree, HasSize eightBlocks path) ∧
      (8192 : BitVec 64) = if Status.ok = .ok then BitVec.ofNat 64 (diskUsage eightBlocks (files [] linkTree)) else 0 :=
  ⟨rfl, (@size_exact defaultFlags dirRoot (by decide) eightBlocks [] linkTree 0).2 .ok 8192 rfl⟩

end Bboy.EnvWalk.SizeOnDisk
