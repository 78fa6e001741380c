import ActantDb.Box.Paths

/-!
# Deleting a snapshot

The snapshots of a store stand in `.snapshots` under its root, each a directory with its `snapshot.json`. `deleteSnapshot` joins the id it is given to that directory, and removes with all that is below it whatever the path leads to. It is a snapshot that is removed exactly where the path leads to an entry of `.snapshots`; an id that is empty, or has dots or slashes in it, can also lead to `.snapshots` itself, out of it, or into a snapshot.
-/

namespace ActantDb.Box

open PosixPath

/-! ### The file system -/

inductive Node where
  | dir
  | file (content : List Char)
deriving DecidableEq

/-- What stands at each place, which is named by its segments from the root. -/
abbrev FileTree := List (List (List Char) × Node)

namespace FileTree

def node (tree : FileTree) (spot : List (List Char)) : Option Node := tree.lookup spot

/-- `rmSync` of what stands at a place and below it. -/
def rm (tree : FileTree) (removed : List (List Char)) : FileTree := tree.filter fun e => ¬ removed <+: e.1

theorem node_rm (tree : FileTree) (removed spot : List (List Char)) :
    (tree.rm removed).node spot = if removed <+: spot then none else tree.node spot := by
  induction tree with
  | nil => exact (ite_self none).symm
  | cons e tree ih =>
    obtain ⟨place, n⟩ := e
    rw [rm, node] at ih ⊢
    by_cases hremoved : removed <+: place
    · rw [List.filter_cons_of_neg (by simpa using hremoved), ih]
      by_cases hat : removed <+: spot
      · rw [if_pos hat, if_pos hat]
      · have hne : (spot == place) = false := by
          rw [beq_eq_false_iff_ne]
          rintro rfl
          exact hat hremoved
        rw [if_neg hat, if_neg hat, node, node, List.lookup_cons, hne]
    · rw [List.filter_cons_of_pos (by simpa using hremoved), List.lookup_cons, node, List.lookup_cons]
      cases heq : spot == place with
      | true =>
        obtain rfl := eq_of_beq heq
        rw [if_neg hremoved]
      | false => exact ih

/-- What is removed can be told from what is left. -/
theorem eq_of_node_rm {tree : FileTree} {removed dir : List (List Char)} (hremoved : tree.node removed ≠ none)
    (hdir : tree.node dir ≠ none) (hgone : (tree.rm removed).node dir = none)
    (helsewhere : ∀ spot, ¬ dir <+: spot → (tree.rm removed).node spot = tree.node spot) : removed = dir := by
  have hinside : dir <+: removed := by
    by_contra hout
    have hkept := helsewhere removed hout
    rw [node_rm, if_pos (List.prefix_refl _)] at hkept
    exact hremoved hkept.symm
  have hbelow : removed <+: dir := by
    by_contra hout
    rw [node_rm, if_neg hout] at hgone
    exact hdir hgone
  exact hbelow.eq_of_length_le hinside.length_le

end FileTree

/-! ### Snapshots -/

section Definitions

variable (processDir : List (List Char))

/-- Names with a NUL do not exist, nor does a file under a name that ends with a slash. -/
def existsSync (tree : FileTree) (p : List Char) : Bool :=
  if Char.ofNat 0 ∈ p then false
  else match tree.node (place processDir p) with
    | none => false
    | some .dir => true
    | some (.file _) => p.getLast? ≠ some '/'

def snapshotsRoot (storeRoot : List Char) : List Char := join [storeRoot, ".snapshots".toList]

def deleteSnapshot (tree : FileTree) (storeRoot id : List Char) : Except BoxError FileTree :=
  let snapDir := join [snapshotsRoot storeRoot, id]
  if !existsSync processDir tree snapDir then
    .error ⟨"snapshot_not_found", "snapshot ".toList ++ id ++ " not found".toList⟩
  else .ok (tree.rm (place processDir snapDir))

/-- A directory with the file that `snapshotBox` writes into it. -/
def IsSnapshot (tree : FileTree) (dir : List (List Char)) : Prop :=
  tree.node dir = some .dir ∧ ∃ content, tree.node (dir ++ ["snapshot.json".toList]) = some (.file content)

/-- A file system with a store in it: whatever stands in `.snapshots` is a snapshot. -/
structure Store where
  storeRoot : List Char
  tree : FileTree
  snapshots : ∀ name, tree.node (place processDir (snapshotsRoot storeRoot) ++ [name]) ≠ none →
    IsSnapshot tree (place processDir (snapshotsRoot storeRoot) ++ [name])

end Definitions

section Deleting

variable {processDir : List (List Char)}

/-- The directory `.snapshots`. -/
def Store.snapshotsDir (s : Store processDir) : List (List Char) := place processDir (snapshotsRoot s.storeRoot)

/-- Where an id leads from there. -/
def Store.leads (s : Store processDir) (id : List Char) : List (List Char) := walk s.snapshotsDir (segments id)

/-- The call fails, and nothing is changed, or what it removes is the directory of one snapshot. -/
def RemovesOneSnapshot (s : Store processDir) (id : List Char) : Prop :=
  match deleteSnapshot processDir s.tree s.storeRoot id with
  | .error _ => True
  | .ok tree => ∃ name, IsSnapshot s.tree (s.snapshotsDir ++ [name]) ∧
      (∀ below, tree.node (s.snapshotsDir ++ name :: below) = none) ∧
      ∀ elsewhere, ¬ s.snapshotsDir ++ [name] <+: elsewhere → tree.node elsewhere = s.tree.node elsewhere

theorem snapshotsDir_eq (s : Store processDir) :
    s.snapshotsDir = place processDir s.storeRoot ++ [".snapshots".toList] := by
  have hproper : ∀ name ∈ segments ".snapshots".toList, Proper name := by
    intro name hname
    obtain rfl := List.mem_singleton.mp (show name ∈ [".snapshots".toList] from hname)
    exact ⟨by decide, by decide, by decide, by decide⟩
  have hsegments : segments ".snapshots".toList = [".snapshots".toList] := by decide
  rw [Store.snapshotsDir, snapshotsRoot, place_join_pair _ _ _ (.inr (by decide)), walk_of_proper hproper, hsegments]

theorem place_snapDir (s : Store processDir) (id : List Char) :
    place processDir (join [snapshotsRoot s.storeRoot, id]) = s.leads id :=
  place_join_pair processDir (snapshotsRoot s.storeRoot) id (.inl (normalize_ne_nil _))

theorem exists_node {tree : FileTree} {p : List Char} (h : existsSync processDir tree p = true) :
    tree.node (place processDir p) ≠ none := by
  intro hnone
  rw [existsSync, hnone] at h
  split at h
  all_goals exact absurd h Bool.false_ne_true

/-- What a call that does not fail leaves. -/
theorem deleteSnapshot_ok {s : Store processDir} {id : List Char}
    (h : existsSync processDir s.tree (join [snapshotsRoot s.storeRoot, id]) = true) :
    deleteSnapshot processDir s.tree s.storeRoot id = .ok (s.tree.rm (s.leads id)) := by
  simp only [deleteSnapshot, h, Bool.not_true, Bool.false_eq_true, if_false, place_snapDir]

/-- **Deleting a snapshot touches only that snapshot** exactly where there is nothing to delete, or the id leads to an entry of `.snapshots`. -/
theorem removesOneSnapshot_iff (s : Store processDir) (id : List Char) :
    RemovesOneSnapshot s id ↔
      existsSync processDir s.tree (join [snapshotsRoot s.storeRoot, id]) = false ∨
        ∃ name, s.leads id = s.snapshotsDir ++ [name] := by
  rw [RemovesOneSnapshot]
  cases hexists : existsSync processDir s.tree (join [snapshotsRoot s.storeRoot, id]) with
  | false =>
    have herror : ∃ e, deleteSnapshot processDir s.tree s.storeRoot id = .error e := by
      refine ⟨⟨"snapshot_not_found", "snapshot ".toList ++ id ++ " not found".toList⟩, ?_⟩
      simp only [deleteSnapshot, hexists, Bool.not_false, if_true]
    obtain ⟨e, he⟩ := herror
    rw [he]
    exact iff_of_true trivial (.inl rfl)
  | true =>
    have hnode := exists_node hexists
    rw [place_snapDir] at hnode
    rw [deleteSnapshot_ok hexists]
    simp only [Bool.true_eq_false, false_or]
    constructor
    · rintro ⟨name, ⟨hdir, -⟩, hbelow, helsewhere⟩
      have hdirNode : s.tree.node (s.snapshotsDir ++ [name]) ≠ none := by
        rw [hdir]
        exact Option.some_ne_none _
      exact ⟨name, FileTree.eq_of_node_rm hnode hdirNode (hbelow []) helsewhere⟩
    · rintro ⟨name, hleads⟩
      rw [hleads] at hnode ⊢
      simp only [FileTree.node_rm]
      refine ⟨name, s.snapshots name hnode, fun below => ?_, fun elsewhere hout => if_neg hout⟩
      have hstart : s.snapshotsDir ++ [name] <+: s.snapshotsDir ++ name :: below := by
        rw [List.prefix_append_right_inj, List.cons_prefix_cons]
        exact ⟨rfl, List.nil_prefix⟩
      exact if_pos hstart

end Deleting

/-- A store at `/s` with a box and a snapshot. -/
def sampleTree : FileTree :=
  [([], .dir), (["s".toList], .dir), (["s".toList, "box1".toList], .dir),
    (["s".toList, "box1".toList, "box.json".toList], .file []), (["s".toList, ".snapshots".toList], .dir),
    (["s".toList, ".snapshots".toList, "snap-1".toList], .dir),
    (["s".toList, ".snapshots".toList, "snap-1".toList, "snapshot.json".toList], .file []),
    (["s".toList, ".snapshots".toList, "snap-1".toList, "workspace".toList], .dir)]

def sampleStore : Store [] where
  storeRoot := "/s".toList
  tree := sampleTree
  snapshots := by
    have hroot : place [] (snapshotsRoot "/s".toList) = ["s".toList, ".snapshots".toList] := by decide
    intro name hname
    rw [hroot] at hname ⊢
    by_cases hsnap : name = "snap-1".toList
    · rw [hsnap]
      exact ⟨by decide, [], by decide⟩
    · have hnone : sampleTree.node (["s".toList, ".snapshots".toList] ++ [name]) = none := by
        have hkeys : ∀ e ∈ sampleTree, e.1.dropLast = ["s".toList, ".snapshots".toList] →
            e.1.getLast? = some "snap-1".toList := by decide
        rw [FileTree.node, List.lookup_eq_none_iff]
        intro e he
        rw [bne_iff_ne]
        intro hkey
        have hlast := hkeys e he (by rw [← hkey, List.dropLast_concat])
        rw [← hkey, List.getLast?_concat] at hlast
        exact hsnap (Option.some.inj hlast)
      exact absurd hnone hname

/-- The box is deleted under an id that leads to it. -/
theorem box_deleted : ∃ id tree, deleteSnapshot [] sampleStore.tree sampleStore.storeRoot id = .ok tree ∧
    sampleStore.tree.node ["s".toList, "box1".toList] = some .dir ∧ tree.node ["s".toList, "box1".toList] = none ∧
    ¬ RemovesOneSnapshot sampleStore id := by
  have hok : deleteSnapshot [] sampleStore.tree sampleStore.storeRoot "../box1".toList =
      .ok (sampleTree.rm ["s".toList, "box1".toList]) := by decide
  refine ⟨_, _, hok, by decide, by decide, fun h => ?_⟩
  rw [RemovesOneSnapshot, hok] at h
  obtain ⟨name, -, -, helsewhere⟩ := h
  have hdir : sampleStore.snapshotsDir = ["s".toList, ".snapshots".toList] := by decide
  have hout : ¬ sampleStore.snapshotsDir ++ [name] <+: ["s".toList, "box1".toList] := by
    rw [hdir]
    intro hinside
    exact absurd hinside.length_le (Nat.not_succ_le_self 2)
  exact absurd (helsewhere _ hout) (by decide)

end ActantDb.Box
