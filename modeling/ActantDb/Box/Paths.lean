import ActantDb.Lib.PosixPath
import ActantDb.Lib.Run

/-!
# Paths in a box

A path given to `files` or to `cd` is resolved from the current directory of the box, unless it is absolute, and the text is compared with the text of the workspace. The comparison is one of characters: it lets in what stands beside the workspace under a name that continues its name, and an absolute path is compared before its dot-dot segments are resolved.
-/

namespace ActantDb.Box

open PosixPath

structure BoxError where
  code : String
  message : List Char
deriving DecidableEq

section Definitions

variable (processCwd workspaceDir : List Char)

def resolveInsideWorkspace (cwd path : List Char) : Except BoxError (List Char) :=
  let base := if cwd ≠ [] then join [workspaceDir, cwd] else workspaceDir
  let target := if isAbsolute path then path else resolve processCwd [base, path]
  let wsResolved := resolve processCwd [workspaceDir]
  if ¬ wsResolved <+: target then
    .error ⟨"invalid_argument", "path '".toList ++ path ++ "' resolves to '".toList ++ target ++
      "' which escapes the workspace at '".toList ++ wsResolved ++ "'".toList⟩
  else .ok target

def stripWorkspace (absPath : List Char) : List Char :=
  let ws := resolve processCwd [workspaceDir]
  let rel := if ws <+: absPath then absPath.drop ws.length else absPath
  rel.dropWhile fun c => c = '/' ∨ c = '\\'

/-- `Box.cd`, where a path that is refused leaves the directory as it is. -/
def cd (cwd path : List Char) : List Char :=
  match resolveInsideWorkspace processCwd workspaceDir cwd path with
  | .ok resolved => stripWorkspace processCwd workspaceDir resolved
  | .error _ => cwd

end Definitions

/-! ### What is let in -/

/-- What is let in leads to the workspace or below it. -/
def StaysInside (processCwd workspaceDir cwd path : List Char) : Prop :=
  ∀ target, resolveInsideWorkspace processCwd workspaceDir cwd path = .ok target →
    place [] workspaceDir <+: place [] target

/-- The place a relative path leads to from the current directory. -/
def placeFrom (workspaceDir cwd path : List Char) : List (List Char) :=
  walk (walk (place [] workspaceDir) (segments cwd)) (segments path)

/-- An absolute path that begins with the text of the workspace leads into it, and a relative one does not lead beside it, to a name that continues its name. -/
def LeadsInside (workspaceDir cwd path : List Char) : Prop :=
  if isAbsolute path then
    text (place [] workspaceDir) <+: path → place [] workspaceDir <+: place [] path
  else ¬ Beside (place [] workspaceDir) (placeFrom workspaceDir cwd path)

instance (workspaceDir cwd path : List Char) : Decidable (LeadsInside workspaceDir cwd path) :=
  inferInstanceAs (Decidable (if isAbsolute path then _ → _ else ¬ _))

section Resolved

variable {workspaceDir : List Char} (processCwd : List Char) (hws : isAbsolute workspaceDir = true)

theorem proper_root (p : List Char) : ∀ s ∈ place [] p, Proper s :=
  proper_place (fun _ hs => absurd hs List.not_mem_nil) p

theorem proper_placeFrom (workspaceDir cwd path : List Char) : ∀ s ∈ placeFrom workspaceDir cwd path, Proper s := by
  apply proper_walk
  · exact proper_walk (proper_root workspaceDir) fun _ hs => no_slash_of_mem_segments hs
  · exact fun _ hs => no_slash_of_mem_segments hs

/-- What is compared. -/
theorem ok_iff {wsResolved target target' : List Char} {err : BoxError} :
    (if ¬ wsResolved <+: target then Except.error err else .ok target) = .ok target' ↔
      target' = target ∧ wsResolved <+: target := by
  split_ifs with h
  · rw [Except.ok.injEq]
    exact ⟨fun heq => ⟨heq.symm, h⟩, fun heq => heq.1.symm⟩
  · exact ⟨nofun, fun heq => absurd heq.2 h⟩

include hws

/-- The base is absolute and leads to the current directory. -/
theorem base_spec (cwd : List Char) :
    isAbsolute (if cwd ≠ [] then join [workspaceDir, cwd] else workspaceDir) = true ∧
      place [] (if cwd ≠ [] then join [workspaceDir, cwd] else workspaceDir) =
        walk (place [] workspaceDir) (segments cwd) := by
  by_cases hcwd : cwd = []
  · rw [if_neg (not_not_intro hcwd), hcwd]
    exact ⟨hws, rfl⟩
  · rw [if_pos hcwd]
    exact ⟨isAbsolute_join_pair hws hcwd, place_join_pair [] workspaceDir cwd (.inl (ne_nil_of_isAbsolute hws))⟩

theorem resolveInsideWorkspace_relative {path : List Char} (hpath : isAbsolute path = false) (cwd target : List Char) :
    resolveInsideWorkspace processCwd workspaceDir cwd path = .ok target ↔
      target = text (placeFrom workspaceDir cwd path) ∧
        (place [] workspaceDir <+: placeFrom workspaceDir cwd path ∨
          Beside (place [] workspaceDir) (placeFrom workspaceDir cwd path)) := by
  obtain ⟨habsolute, hplace⟩ := base_spec hws cwd
  have htarget : resolve processCwd [if cwd ≠ [] then join [workspaceDir, cwd] else workspaceDir, path] =
      text (placeFrom workspaceDir cwd path) := by
    rw [resolve_from processCwd habsolute hpath, hplace, place_relative hpath, placeFrom]
  have hproper := proper_placeFrom workspaceDir cwd path
  simp only [resolveInsideWorkspace, hpath, Bool.false_eq_true, if_false, htarget, resolve_absolute processCwd hws]
  rw [← text_prefix_iff (proper_root workspaceDir) hproper]
  exact ok_iff

theorem resolveInsideWorkspace_absolute {path : List Char} (hpath : isAbsolute path = true) (cwd target : List Char) :
    resolveInsideWorkspace processCwd workspaceDir cwd path = .ok target ↔
      target = path ∧ text (place [] workspaceDir) <+: path := by
  simp only [resolveInsideWorkspace, hpath, if_true, resolve_absolute processCwd hws]
  exact ok_iff

/-- One call. -/
theorem staysInside_iff (cwd path : List Char) :
    StaysInside processCwd workspaceDir cwd path ↔ LeadsInside workspaceDir cwd path := by
  rw [StaysInside, LeadsInside]
  cases hpath : isAbsolute path with
  | true =>
    simp only [resolveInsideWorkspace_absolute processCwd hws hpath, if_true]
    constructor
    · exact fun h htext => h path ⟨rfl, htext⟩
    · rintro h target ⟨rfl, htext⟩
      exact h htext
  | false =>
    simp only [resolveInsideWorkspace_relative processCwd hws hpath, Bool.false_eq_true, if_false]
    have hproper := proper_placeFrom workspaceDir cwd path
    constructor
    · intro h hbeside
      have hinside := h _ ⟨rfl, .inr hbeside⟩
      rw [place_text hproper] at hinside
      exact hbeside.not_prefix hinside
    · rintro h target ⟨rfl, hor⟩
      rw [place_text hproper]
      exact hor.resolve_right h

end Resolved

/-- **Box paths stay in the workspace** exactly where the path leads inside, after any calls of `cd`. -/
theorem boxPath_stays_iff (processCwd workspaceDir : List Char) (hws : isAbsolute workspaceDir = true)
    (start : List Char) (calls : List (List Char)) (path : List Char) :
    StaysInside processCwd workspaceDir (Lts.run (cd processCwd workspaceDir) start calls) path ↔
      LeadsInside workspaceDir (Lts.run (cd processCwd workspaceDir) start calls) path :=
  staysInside_iff processCwd hws _ path

/-- A box at `/w/box`, whose directory is changed to `src`, and a path up and down again. -/
theorem boxPath_stays_inside :
    StaysInside "/".toList "/w/box".toList
      (Lts.run (cd "/".toList "/w/box".toList) [] ["src".toList]) "../a/./b".toList :=
  (boxPath_stays_iff "/".toList "/w/box".toList (by decide) [] ["src".toList] "../a/./b".toList).mpr (by decide)

/-- The sibling `box-evil` of the workspace `box` is let in. -/
theorem sibling_let_in : ∃ target,
    resolveInsideWorkspace "/".toList "/w/box".toList (Lts.run (cd "/".toList "/w/box".toList) [] ["src".toList])
        "../../box-evil/x".toList = .ok target ∧
      ¬ place [] "/w/box".toList <+: place [] target :=
  ⟨"/w/box-evil/x".toList, by decide, by decide⟩

end ActantDb.Box
