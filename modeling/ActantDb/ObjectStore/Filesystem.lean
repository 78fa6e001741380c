import Mathlib.Data.List.TakeWhile
import Mathlib.Logic.Function.Basic
import ActantDb.ObjectStore.Blob

/-!
# The filesystem store

An object lives in the file of its key, in the directory of the key's first two characters. `put` writes to a file beside it, with the extension `tmp` in place of the key's own, and renames that to the file of the key. That file may be the one of another key: of `abc` and of `abc.txt` it is the one of `abc.tmp`. So a store keeps a map as long as no key is put while there is an object under its stem with `.tmp`.
-/

namespace ActantDb

namespace ObjectStore

namespace FilesystemStore

/-! ### Files -/

/-- A file below the root: its directory and its name. -/
structure Path where
  dir : String
  name : String
deriving DecidableEq, Repr

abbrev Files := Path → Option Bytes

/-- A name without what follows its last dot, unless that is all there is before. -/
def fileStem (name : String) : String :=
  match name.toList.reverse.dropWhile (· ≠ '.') with
  | [] | [_] => name
  | _ :: before => String.ofList before.reverse

/-- `path.with_extension("tmp")`. -/
def Path.temporary (path : Path) : Path := { path with name := fileStem path.name ++ ".tmp" }

def Files.write (files : Files) (path : Path) (body : Bytes) : Files := Function.update files path (some body)

def Files.rename (files : Files) (source target : Path) : Files :=
  if source = target then files else Function.update (Function.update files target (files source)) source none

def Files.remove (files : Files) (path : Path) : Files := Function.update files path none

/-! ### The store -/

/-- `path_for`, for a safe key. -/
def pathOf (key : String) : Path :=
  ⟨if 2 ≤ key.toList.length then String.ofList (key.toList.take 2) else "__", key⟩

/-- `Path::file_name`, of a path with slashes. -/
def fileName (path : String) : Option String :=
  match ((path.toList.splitOnP (· = '/')).filter fun c => c ≠ [] ∧ c ≠ ['.']).getLast? with
  | none => none
  | some name => if name = ['.', '.'] then none else some (String.ofList name)

-- the root, as it stands in a URL
variable (X : BlobCrates) (root : String)

def pathFor (key : String) : Except BlobError Path :=
  if isSafeKey key then .ok (pathOf key)
  else .error (.invalidKey ("key " ++ X.debug key ++ " contains characters outside [A-Za-z0-9_-.]"))

def keyFrom (keyOrUri : String) : Except BlobError String :=
  match stripPrefix "file://" keyOrUri with
  | none => .ok keyOrUri
  | some rest =>
    match fileName rest with
    | none => .error (.invalidKey ("URI " ++ X.debug keyOrUri ++ " has no basename"))
    | some name => .ok name

def uriFor (path : Path) : String := "file://" ++ (root ++ "/" ++ path.dir ++ "/" ++ path.name)

/-- The key that a reference is to, if it may be one. -/
def resolve (keyOrUri : String) : Except BlobError String := do
  let key ← keyFrom X keyOrUri
  let _ ← pathFor X key
  return key

def refOf (key : String) (body : Bytes) : BlobRef := ⟨uriFor root (pathOf key), body.length, X.sha256Hex body⟩

def notFound (key : String) : BlobError := .notFound (key ++ ": No such file or directory (os error 2)")

def respond (files : Files) : Op → Response
  | .put key body =>
    match pathFor X key with
    | .error e => .failed e
    | .ok _ => .stored (refOf X root key body)
  | .get keyOrUri =>
    match resolve X keyOrUri with
    | .error e => .failed e
    | .ok key =>
      match files (pathOf key) with
      | none => .failed (notFound key)
      | some body => .body body
  | .delete keyOrUri =>
    match resolve X keyOrUri with
    | .error e => .failed e
    | .ok _ => .deleted
  | .exists? keyOrUri =>
    match resolve X keyOrUri with
    | .error e => .failed e
    | .ok key => .found (files (pathOf key)).isSome

def step (files : Files) : Op → Files
  | .put key body =>
    match pathFor X key with
    | .error _ => files
    | .ok path => (files.write path.temporary body).rename path.temporary path
  | .delete keyOrUri =>
    match resolve X keyOrUri with
    | .error _ => files
    | .ok key => files.remove (pathOf key)
  | .get _ | .exists? _ => files

/-! ### What it is for -/

abbrev Objects := String → Option Bytes

/-- A map from keys to objects, asked in the same way. -/
def Objects.respond (m : Objects) : Op → Response
  | .put key body =>
    match pathFor X key with
    | .error e => .failed e
    | .ok _ => .stored (refOf X root key body)
  | .get keyOrUri =>
    match resolve X keyOrUri with
    | .error e => .failed e
    | .ok key =>
      match m key with
      | none => .failed (notFound key)
      | some body => .body body
  | .delete keyOrUri =>
    match resolve X keyOrUri with
    | .error e => .failed e
    | .ok _ => .deleted
  | .exists? keyOrUri =>
    match resolve X keyOrUri with
    | .error e => .failed e
    | .ok key => .found (m key).isSome

def Objects.step (m : Objects) : Op → Objects
  | .put key body =>
    match pathFor X key with
    | .error _ => m
    | .ok _ => Function.update m key (some body)
  | .delete keyOrUri =>
    match resolve X keyOrUri with
    | .error _ => m
    | .ok key => Function.update m key none
  | .get _ | .exists? _ => m

/-- The objects that the files hold. -/
def objects (files : Files) : Objects := fun key => if isSafeKey key then files (pathOf key) else none

/-- The files and the map answer alike and hold the same afterwards. -/
structure Agrees (s : Files × Objects) (op : Op) : Prop where
  answers : respond X root s.1 op = s.2.respond X root op
  holds : objects (step X s.1 op) = s.2.step X op

/-- No key is put while there is an object under its stem with `.tmp`. -/
def Clear (files : Files) : Op → Prop
  | .put key _ =>
    isSafeKey key = true → 2 ≤ key.toList.length → fileStem key ++ ".tmp" ≠ key →
      objects files (fileStem key ++ ".tmp") = none
  | _ => True

instance (files : Files) : ∀ op, Decidable (Clear files op)
  | .put key _ => inferInstanceAs (Decidable (isSafeKey key = true → 2 ≤ key.toList.length →
      fileStem key ++ ".tmp" ≠ key → objects files (fileStem key ++ ".tmp") = none))
  | .get _ | .delete _ | .exists? _ => instDecidableTrue

/-! ### Keys and their files -/

section Keys

variable {key key' : String}

/-- The stem of a safe key ends before its last dot. -/
theorem stem_cases (h : isSafeKey key = true) :
    (fileStem key = key ∧ '.' ∉ key.toList) ∨
      (fileStem key).toList ≠ [] ∧ ∃ ext, key.toList = (fileStem key).toList ++ '.' :: ext := by
  obtain ⟨-, hhead, -, -⟩ := isSafeKey_iff.mp h
  have hsplit := List.takeWhile_append_dropWhile (l := key.toList.reverse) (p := (· ≠ '.'))
  rw [fileStem]
  cases hdrop : key.toList.reverse.dropWhile (· ≠ '.') with
  | nil =>
    refine Or.inl ⟨rfl, fun hdot => ?_⟩
    have hall := List.dropWhile_eq_nil_iff.mp hdrop '.' (List.mem_reverse.mpr hdot)
    simp at hall
  | cons d before =>
    have hd : d = '.' := by
      have hne := List.head?_dropWhile_not (fun c => decide (c ≠ '.')) key.toList.reverse
      rw [hdrop] at hne
      simpa using hne
    subst hd
    obtain ⟨after, hafter⟩ : ∃ after, key.toList.reverse = after ++ '.' :: before :=
      ⟨_, by rw [← hdrop]; exact hsplit.symm⟩
    have hkey : key.toList = before.reverse ++ '.' :: after.reverse := by
      rw [← List.reverse_reverse key.toList, hafter]
      simp
    cases before with
    | nil =>
      rw [List.reverse_nil, List.nil_append] at hkey
      exact absurd (by rw [hkey]; rfl) hhead
    | cons c before =>
      refine Or.inr ⟨by simp, after.reverse, ?_⟩
      rw [String.toList_ofList]
      exact hkey

/-- Beside a safe key its stem with `.tmp` is one, in the same directory. -/
theorem temporary_pathOf (h : isSafeKey key = true) (hlength : 2 ≤ key.toList.length) :
    isSafeKey (fileStem key ++ ".tmp") = true ∧ (pathOf key).temporary = pathOf (fileStem key ++ ".tmp") := by
  obtain ⟨hne, hhead, hchain, hchars⟩ := isSafeKey_iff.mp h
  have htmp : (fileStem key ++ ".tmp").toList = ((fileStem key).toList ++ ['.']) ++ ['t', 'm', 'p'] := by
    rw [String.toList_append]
    simp
  have hshape : (fileStem key).toList ≠ [] ∧ (fileStem key).toList.head? = key.toList.head? ∧
      (∀ c ∈ (fileStem key).toList, c ∈ key.toList) ∧ ((fileStem key).toList ++ ['.']).IsChain (apart · ·) ∧
      (fileStem key ++ ".tmp").toList.take 2 = key.toList.take 2 := by
    rcases stem_cases h with ⟨hstem, hdot⟩ | ⟨hstem, ext, hkey⟩
    · rw [hstem]
      refine ⟨hne, rfl, fun c hc => hc, ?_, ?_⟩
      · rw [List.isChain_append]
        refine ⟨hchain, List.isChain_singleton _, fun x hx y _ => ?_⟩
        have hx' : x ≠ '.' := fun heq => hdot (heq ▸ List.mem_of_getLast? hx)
        simp [apart, hx']
      · rw [String.toList_append, List.take_append_of_le_length hlength]
    · refine ⟨hstem, ?_, fun c hc => ?_, ?_, ?_⟩
      · rw [hkey, List.head?_append_of_ne_nil _ hstem]
      · rw [hkey]
        exact List.mem_append_left _ hc
      · have hpre : (fileStem key).toList ++ ['.'] <+: key.toList := ⟨ext, by rw [hkey]; simp⟩
        exact hchain.prefix hpre
      · have hlong : 2 ≤ ((fileStem key).toList ++ ['.']).length := by
          have := List.length_pos_iff.mpr hstem
          simp
          omega
        have hkey' : key.toList = ((fileStem key).toList ++ ['.']) ++ ext := by rw [hkey]; simp
        rw [htmp, hkey', List.take_append_of_le_length hlong, List.take_append_of_le_length hlong]
  obtain ⟨hstem, hstemhead, hmem, hstemchain, htake⟩ := hshape
  have hlength' : 2 ≤ (fileStem key ++ ".tmp").toList.length := by
    rw [htmp]
    simp
  refine ⟨isSafeKey_iff.mpr ⟨?_, ?_, ?_, ?_⟩, ?_⟩
  · rw [htmp]
    simp
  · rw [htmp, List.append_assoc, List.head?_append_of_ne_nil _ hstem, hstemhead]
    exact hhead
  · rw [htmp, List.isChain_append]
    refine ⟨hstemchain, by decide, fun x _ y hy => ?_⟩
    obtain rfl : 't' = y := Option.some.inj hy
    simp [apart]
  · intro c hc
    rw [String.toList_append] at hc
    rcases List.mem_append.mp hc with hc | hc
    · exact hchars c (hmem c hc)
    · have htail : (".tmp".toList.all fun c => c.isAlphanum || c = '_' || c = '-' || c = '.') = true := by decide
      simpa [or_assoc] using List.all_eq_true.mp htail c hc
  · rw [Path.temporary, pathOf, pathOf, if_pos hlength, if_pos hlength', htake]

/-- The file beside the one of a short key is of no key. -/
theorem temporary_of_short (h : isSafeKey key = true) (hshort : ¬ 2 ≤ key.toList.length) (key' : String) :
    (pathOf key).temporary ≠ pathOf key' := by
  intro heq
  have hstem : (fileStem key).toList.length ≤ 1 := by
    rcases stem_cases h with ⟨hstem, -⟩ | ⟨-, ext, hkey⟩
    · rw [hstem]
      omega
    · rw [hkey, List.length_append] at hshort
      omega
  have hname : key' = fileStem key ++ ".tmp" := (congrArg Path.name heq).symm
  have hdir : "__" = (pathOf key').dir := by
    have hdir := congrArg Path.dir heq
    rwa [Path.temporary, pathOf, if_neg hshort] at hdir
  have hlist : key'.toList = (fileStem key).toList ++ ['.', 't', 'm', 'p'] := by
    rw [hname, String.toList_append]
    rfl
  rw [pathOf, if_pos (by rw [hlist]; simp), hlist] at hdir
  have hunder : "__".toList = ['_', '_'] := by decide
  have htake := congrArg String.toList hdir
  rw [hunder, String.toList_ofList] at htake
  have hother : ∀ stem : List Char, stem.length ≤ 1 → (stem ++ ['.', 't', 'm', 'p']).take 2 ≠ ['_', '_']
    | [], _ => by decide
    | [c], _ => by simp
  exact hother _ hstem htake.symm

theorem pathOf_injective : Function.Injective pathOf := fun _ _ h => congrArg Path.name h

/-- A safe key has no slash, and is not made of dots. -/
theorem slash_notMem (h : isSafeKey key = true) : ∀ c ∈ key.toList, decide (c = '/') = false := by
  intro c hc
  rcases (isSafeKey_iff.mp h).2.2.2 c hc with hc | rfl | rfl | rfl
  · rw [decide_eq_false_iff_not]
    rintro rfl
    cases hc
  all_goals rfl

variable {X : BlobCrates} {root : String}

theorem pathFor_safe (h : isSafeKey key = true) : pathFor X key = .ok (pathOf key) := by
  rw [pathFor, if_pos h]

theorem pathFor_eq_ok {path : Path} (h : pathFor X key = .ok path) : isSafeKey key = true ∧ path = pathOf key := by
  rw [pathFor] at h
  split at h
  · rename_i hsafe
    exact ⟨hsafe, (Except.ok.inj h).symm⟩
  · cases h

/-- What a reference resolves to is a safe key. -/
theorem resolve_safe {keyOrUri : String} (h : resolve X keyOrUri = .ok key) : isSafeKey key = true := by
  rw [resolve] at h
  cases hkey : keyFrom X keyOrUri with
  | error e =>
    rw [hkey] at h
    cases h
  | ok k =>
    rw [hkey] at h
    cases hpath : pathFor X k with
    | error e =>
      simp only [bind, Except.bind, hpath] at h
      cases h
    | ok path =>
      simp only [bind, Except.bind, hpath] at h
      cases h
      exact (pathFor_eq_ok hpath).1

/-- A safe key resolves to itself, and so does the reference that `put` returns. -/
theorem resolve_key (h : isSafeKey key = true) : resolve X key = .ok key := by
  have hscheme : stripPrefix "file://" key = none := by
    rw [stripPrefix, if_neg]
    intro hpre
    have hslash := slash_notMem h '/' (hpre.subset (by decide))
    simp at hslash
  simp only [resolve, keyFrom, hscheme, bind, Except.bind, pathFor_safe h]
  rfl

end Keys

/-! ### One operation -/

section Step

variable {X : BlobCrates} {root : String} {files : Files} {key : String} {body : Bytes}

/-- What `put` leaves: the body under its key, and nothing beside it. -/
theorem put_files (path : Path) : (files.write path.temporary body).rename path.temporary path =
    if path.temporary = path then Function.update files path (some body)
    else Function.update (Function.update files path (some body)) path.temporary none := by
  rw [Files.rename]
  split
  · rename_i heq
    rw [Files.write, heq]
  · rename_i hne
    rw [Files.write, Function.update_self]
    funext p
    by_cases hp : p = path.temporary
    · subst hp
      rw [Function.update_self, Function.update_self]
    · rw [Function.update_of_ne hp, Function.update_of_ne hp]
      by_cases hpath : p = path
      · subst hpath
        rw [Function.update_self, Function.update_self]
      · rw [Function.update_of_ne hpath, Function.update_of_ne hpath, Function.update_of_ne hp]

theorem objects_safe (h : isSafeKey key = true) : objects files key = files (pathOf key) := by
  rw [objects, if_pos h]

/-- A `put` changes its own object, and takes away the one of the file that it wrote first. -/
theorem objects_put (h : isSafeKey key = true) (key' : String) :
    objects (step X files (.put key body)) key' =
      if key' = key then some body else if pathOf key' = (pathOf key).temporary then none else objects files key' := by
  simp only [objects, step, pathFor_safe h, put_files]
  by_cases hkey : key' = key
  · subst hkey
    rw [if_pos h, if_pos rfl]
    split
    · rw [Function.update_self]
    · rename_i hne
      rw [Function.update_of_ne (Ne.symm hne), Function.update_self]
  · rw [if_neg hkey]
    have hpath : pathOf key' ≠ pathOf key := fun heq => hkey (pathOf_injective heq)
    by_cases hsafe : isSafeKey key' = true
    · rw [if_pos hsafe, if_pos hsafe]
      split
      · rename_i heq
        rw [Function.update_of_ne hpath, heq, if_neg hpath]
      · by_cases htemporary : pathOf key' = (pathOf key).temporary
        · rw [if_pos htemporary, htemporary, Function.update_self]
        · rw [if_neg htemporary, Function.update_of_ne htemporary, Function.update_of_ne hpath]
    · rw [if_neg hsafe, if_neg hsafe, ite_self]

theorem objects_delete (h : isSafeKey key = true) :
    objects (files.remove (pathOf key)) = Function.update (objects files) key none := by
  funext key'
  by_cases hkey : key' = key
  · subst hkey
    rw [objects_safe h, Files.remove, Function.update_self, Function.update_self]
  · have hpath : pathOf key' ≠ pathOf key := fun heq => hkey (pathOf_injective heq)
    rw [Function.update_of_ne hkey, objects, objects, Files.remove, Function.update_of_ne hpath]

theorem respond_objects (op : Op) : respond X root files op = (objects files).respond X root op := by
  cases op with
  | put key body => rfl
  | delete keyOrUri => rfl
  | get keyOrUri =>
    rw [respond, Objects.respond]
    cases hkey : resolve X keyOrUri with
    | error e => rfl
    | ok key =>
      dsimp only
      rw [objects_safe (resolve_safe hkey)]
  | exists? keyOrUri =>
    rw [respond, Objects.respond]
    cases hkey : resolve X keyOrUri with
    | error e => rfl
    | ok key =>
      dsimp only
      rw [objects_safe (resolve_safe hkey)]

/-- A `put` does what it does to the map just when it takes no object away. -/
theorem put_iff (h : isSafeKey key = true) :
    objects (step X files (.put key body)) = Function.update (objects files) key (some body) ↔
      Clear files (.put key body) := by
  have hcases : ∀ key', key' ≠ key → (objects (step X files (.put key body)) key' = objects files key' ↔
      (pathOf key' = (pathOf key).temporary → objects files key' = none)) := by
    intro key' hkey
    rw [objects_put h, if_neg hkey]
    by_cases htemporary : pathOf key' = (pathOf key).temporary
    · rw [if_pos htemporary]
      exact ⟨fun heq _ => heq.symm, fun hnone => (hnone htemporary).symm⟩
    · rw [if_neg htemporary]
      exact ⟨fun _ heq => absurd heq htemporary, fun _ => rfl⟩
  constructor
  · intro heq _ hlength hne
    refine (hcases _ hne).mp ?_ (temporary_pathOf h hlength).2.symm
    rw [heq, Function.update_of_ne hne]
  · intro hclear
    funext key'
    by_cases hkey : key' = key
    · subst hkey
      rw [objects_put h, if_pos rfl, Function.update_self]
    · rw [Function.update_of_ne hkey, hcases key' hkey]
      intro htemporary
      by_cases hlength : 2 ≤ key.toList.length
      · have hstem : key' = fileStem key ++ ".tmp" := congrArg Path.name htemporary
        subst hstem
        exact hclear h hlength hkey
      · exact absurd htemporary.symm (temporary_of_short h hlength key')

theorem agrees_iff (op : Op) : Agrees X root (files, objects files) op ↔ Clear files op := by
  have hstep : Agrees X root (files, objects files) op ↔ objects (step X files op) = (objects files).step X op :=
    ⟨Agrees.holds, fun h => ⟨respond_objects op, h⟩⟩
  rw [hstep]
  cases op with
  | put key body =>
    by_cases h : isSafeKey key = true
    · rw [Objects.step, pathFor_safe h, put_iff h]
    · have herror : ∃ e, pathFor X key = .error e := ⟨_, if_neg h⟩
      obtain ⟨e, he⟩ := herror
      simp only [step, Objects.step, he, Clear]
      exact iff_of_true trivial fun hsafe => absurd hsafe h
  | delete keyOrUri =>
    refine iff_of_true ?_ trivial
    rw [step, Objects.step]
    cases hkey : resolve X keyOrUri with
    | error e => rfl
    | ok key => exact objects_delete (resolve_safe hkey)
  | get keyOrUri => exact iff_of_true rfl trivial
  | exists? keyOrUri => exact iff_of_true rfl trivial

end Step

/-! ### Runs -/

/-- The store and the map, asked the same. -/
def both (X : BlobCrates) (s : Files × Objects) (op : Op) : Files × Objects := (step X s.1 op, s.2.step X op)

/-- **The filesystem store refines a map in every run that is clear**, and in no other. -/
theorem refines_iff (X : BlobCrates) (root : String) (files : Files) (ops : List Op) :
    Lts.EveryStep (both X) (Agrees X root) (files, objects files) ops ↔ Lts.EveryStep (step X) Clear files ops := by
  induction ops generalizing files with
  | nil => rfl
  | cons op ops ih =>
    rw [Lts.everyStep_cons, Lts.everyStep_cons, agrees_iff]
    refine and_congr_right fun hclear => ?_
    have hagrees : Agrees X root (files, objects files) op := (agrees_iff op).mpr hclear
    have hholds : objects (step X files op) = (objects files).step X op := hagrees.holds
    rw [← ih, hholds, both]

/-! ### Two keys with one stem -/

def empty : Files := fun _ => none

/-- The object `notes.tmp` is gone once `notes` is put. -/
theorem notes_lost : ¬ Lts.EveryStep (both sampleCrates) (Agrees sampleCrates "/blobs") (empty, objects empty)
    [.put "notes.tmp" [1], .put "notes" [2], .get "notes.tmp"] := by
  intro h
  have hanswers := h.2.2.1.answers
  revert hanswers
  decide +kernel

end FilesystemStore

end ObjectStore

end ActantDb
