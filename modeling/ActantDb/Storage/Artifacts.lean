import ActantDb.Core.Hash
import ActantDb.Core.Model
import ActantDb.ObjectStore.Filesystem
import Mathlib.Data.List.Nodup

/-!
# Artifacts

The body of an artifact goes to the blob store of the database, under the hex digest of its bytes, and a row with the reference goes to the database after it. A call writes to a file beside the one of the key, renames that, and inserts the row; calls for the same bytes share both files, and the second of two that overlap finds its file gone and fails. A write is taken to be whole or not to happen.

However calls overlap, fail and stop halfway, a row is only ever inserted when its body is there, under a reference that the store reads it back from, and nothing takes it away (`artifacts_backed`).
-/

namespace ActantDb

namespace Artifacts

open ObjectStore FilesystemStore

/-- `blob_sha256_hex`. -/
def blobSha256Hex (body : Bytes) : String := hexEncode (Sha256.digest body)

/-- What the blob store takes from crates. -/
def blobCrates (debug : String → String) : BlobCrates := ⟨blobSha256Hex, debug⟩

/-- The arguments of `put_artifact`. -/
structure PutArtifact where
  workspaceId : WorkspaceId
  actorId : ActorId
  kind : String
  body : Bytes
  sensitivity : Sensitivity
deriving DecidableEq

structure ArtifactRow where
  id : String
  workspaceId : WorkspaceId
  kind : String
  uri : String
  contentHash : String
  bytes : Nat
  sensitivity : Sensitivity
  createdByActorId : ActorId
  createdAt : String

/-- Where a call is: before its first statement, after the file is written, after it is renamed, or at its end. -/
inductive Phase where
  | idle
  | written (req : PutArtifact)
  | stored (req : PutArtifact) (uri : String)
  | done (req : PutArtifact) (id : String)
  | failed (message : String)
deriving DecidableEq

structure State where
  files : Files
  artifacts : List ArtifactRow
  calls : Nat → Phase

def State.start : State := ⟨empty, [], fun _ => .idle⟩

def State.setCall (s : State) (i : Nat) (p : Phase) : State := { s with calls := Function.update s.calls i p }

theorem State.calls_setCall_self (s : State) (i : Nat) (p : Phase) : (s.setCall i p).calls i = p :=
  Function.update_self _ _ _

theorem State.calls_setCall_of_ne (s : State) {i j : Nat} (h : j ≠ i) (p : Phase) : (s.setCall i p).calls j = s.calls j :=
  Function.update_of_ne h _ _

/-- A statement of the `i`-th call, with its fault, if it has one. -/
inductive Event where
  | write (i : Nat) (req : PutArtifact) (fault : Option String)
  | rename (i : Nat) (fault : Option String)
  -- the id and the time are read before
  | insert (i : Nat) (id createdAt : String) (fault : Option String)

def PutArtifact.path (req : PutArtifact) : Path := pathOf (blobSha256Hex req.body)

def blobPut (message : String) : String := "blob put: " ++ message

def rowOf (req : PutArtifact) (uri id createdAt : String) : ArtifactRow where
  id := id
  workspaceId := req.workspaceId
  kind := req.kind
  uri := uri
  contentHash := blobSha256Hex req.body
  bytes := req.body.length
  sensitivity := req.sensitivity
  createdByActorId := req.actorId
  createdAt := createdAt

variable (root : String)

def State.write (s : State) (i : Nat) (req : PutArtifact) (fault : Option String) : State :=
  match s.calls i, fault with
  | .idle, none => { s with files := s.files.write req.path.temporary req.body }.setCall i (.written req)
  | .idle, some message => s.setCall i (.failed (blobPut message))
  | _, _ => s

def State.rename (s : State) (i : Nat) (fault : Option String) : State :=
  match s.calls i, fault with
  | .written req, none =>
    if (s.files req.path.temporary).isSome then
      { s with files := s.files.rename req.path.temporary req.path }.setCall i (.stored req (uriFor root req.path))
    else s.setCall i (.failed (blobPut "No such file or directory (os error 2)"))
  | .written _, some message => s.setCall i (.failed (blobPut message))
  | _, _ => s

def State.insert (s : State) (i : Nat) (id createdAt : String) (fault : Option String) : State :=
  match s.calls i, fault with
  | .stored req uri, none =>
    if id ∈ s.artifacts.map ArtifactRow.id then s.setCall i (.failed "UNIQUE constraint failed: artifact.id")
    else { s with artifacts := s.artifacts ++ [rowOf req uri id createdAt] }.setCall i (.done req id)
  | .stored _ _, some message => s.setCall i (.failed message)
  | _, _ => s

/-- A call goes through its statements in order, and ends with the first that fails. -/
def step (s : State) : Event → State
  | .write i req fault => s.write i req fault
  | .rename i fault => s.rename root i fault
  | .insert i id createdAt fault => s.insert i id createdAt fault

def reached (events : List Event) : State := Lts.run (step root) .start events

/-- `blob_store.get`. -/
def State.read (debug : String → String) (s : State) (uri : String) : Response :=
  respond (blobCrates debug) root s.files (.get uri)

/-- The bodies that calls have been made with. -/
def bodies : List Event → List Bytes :=
  List.filterMap fun
    | .write _ req _ => some req.body
    | _ => none

/-! ### Digests as keys -/

section Keys

theorem hexChar_of_mem {bytes : List UInt8} {c : Char} (h : c ∈ (hexEncode bytes).toList) : c.isAlphanum = true := by
  rw [hexEncode, String.toList_ofList, List.mem_flatMap] at h
  obtain ⟨b, -, hb⟩ := h
  have hdigit : ∀ n < 16, (Value.hexDigit n).isAlphanum = true := by decide
  have hlt := b.toNat_lt
  rw [List.mem_cons, List.mem_singleton] at hb
  rcases hb with rfl | rfl
  · exact hdigit _ (by omega)
  · exact hdigit _ (by omega)

theorem dot_notMem (body : Bytes) : '.' ∉ (blobSha256Hex body).toList :=
  fun h => absurd (hexChar_of_mem h) (by decide)

theorem digest_ne_nil (body : Bytes) : Sha256.digest body ≠ [] := by
  rw [Sha256.digest, Ne, List.map_eq_nil_iff, Sha256.digestWords]
  simp [Sha256.bigEndian]

/-- A digest is a safe key. -/
theorem isSafeKey_digest (body : Bytes) : isSafeKey (blobSha256Hex body) = true := by
  refine isSafeKey_iff.mpr ⟨?_, ?_, ?_, fun c hc => Or.inl (hexChar_of_mem hc)⟩
  · rw [blobSha256Hex, hexEncode, String.toList_ofList]
    obtain ⟨b, bytes, hdigest⟩ := List.exists_cons_of_ne_nil (digest_ne_nil body)
    rw [hdigest, List.flatMap_cons]
    simp
  · intro hhead
    exact dot_notMem body (List.mem_of_head? hhead)
  · refine (List.pairwise_of_forall_mem_list fun a ha b _ => ?_).isChain
    have hdot : a ≠ '.' := fun h => dot_notMem body (h ▸ ha)
    simp [apart, hdot]

/-- The file beside the one of a digest. -/
theorem temporary_digest (body : Bytes) :
    (pathOf (blobSha256Hex body)).temporary.name = blobSha256Hex body ++ ".tmp" := by
  rcases stem_cases (isSafeKey_digest body) with ⟨hstem, -⟩ | ⟨-, ext, hdot⟩
  · rw [Path.temporary, pathOf, hstem]
  · exact absurd (hdot ▸ List.mem_append_right _ List.mem_cons_self) (dot_notMem body)

theorem temporary_ne (body body' : Bytes) : (pathOf (blobSha256Hex body)).temporary ≠ pathOf (blobSha256Hex body') := by
  intro h
  have hname : blobSha256Hex body ++ ".tmp" = blobSha256Hex body' :=
    (temporary_digest body).symm.trans (congrArg Path.name h)
  refine dot_notMem body' ?_
  rw [← hname, String.toList_append]
  exact List.mem_append_right _ (by decide)

theorem digest_of_temporary {body body' : Bytes}
    (h : (pathOf (blobSha256Hex body)).temporary = (pathOf (blobSha256Hex body')).temporary) :
    blobSha256Hex body = blobSha256Hex body' := by
  have hname := congrArg Path.name h
  rw [temporary_digest, temporary_digest] at hname
  have hchars := congrArg String.toList hname
  rw [String.toList_append, String.toList_append] at hchars
  exact String.toList_injective (List.append_cancel_right hchars)

end Keys

/-! ### The files -/

/-- The files of digests hold bytes with these digests, among those that calls have been made with. -/
def Hashed (files : Files) (known : List Bytes) : Prop :=
  ∀ body held, files (pathOf (blobSha256Hex body)) = some held ∨ files (pathOf (blobSha256Hex body)).temporary = some held →
    held ∈ known ∧ blobSha256Hex held = blobSha256Hex body

section Files

variable {files : Files} {known : List Bytes} {req : PutArtifact}

theorem Hashed.write (h : Hashed files known) (hreq : req.body ∈ known) :
    Hashed (files.write req.path.temporary req.body) known := by
  intro body held hheld
  rw [Files.write, PutArtifact.path, Function.update_of_ne (Ne.symm (temporary_ne req.body body))] at hheld
  by_cases hsame : (pathOf (blobSha256Hex body)).temporary = (pathOf (blobSha256Hex req.body)).temporary
  · rw [hsame, Function.update_self] at hheld
    rcases hheld with hheld | hheld
    · exact h body held (Or.inl hheld)
    · cases hheld
      exact ⟨hreq, digest_of_temporary hsame.symm⟩
  · rw [Function.update_of_ne hsame] at hheld
    exact h body held hheld

theorem rename_temporary (req : PutArtifact) (files : Files) :
    files.rename req.path.temporary req.path =
      Function.update (Function.update files req.path (files req.path.temporary)) req.path.temporary none := by
  have hne : req.path.temporary ≠ req.path := temporary_ne req.body req.body
  rw [Files.rename, if_neg hne]

theorem Hashed.rename (h : Hashed files known) (req : PutArtifact) :
    Hashed (files.rename req.path.temporary req.path) known := by
  intro body held hheld
  rw [rename_temporary, PutArtifact.path, Function.update_of_ne (Ne.symm (temporary_ne req.body body))] at hheld
  rcases hheld with hheld | hheld
  · by_cases hsame : pathOf (blobSha256Hex body) = pathOf (blobSha256Hex req.body)
    · rw [hsame, Function.update_self, ← hsame] at hheld
      exact h body held (Or.inr hheld)
    · rw [Function.update_of_ne hsame] at hheld
      exact h body held (Or.inl hheld)
  · by_cases hsame : (pathOf (blobSha256Hex body)).temporary = (pathOf (blobSha256Hex req.body)).temporary
    · rw [hsame, Function.update_self] at hheld
      cases hheld
    · rw [Function.update_of_ne hsame, Function.update_of_ne (temporary_ne body req.body)] at hheld
      exact h body held (Or.inr hheld)

/-- A written file stays. -/
theorem isSome_write {req' : PutArtifact} (h : (files req'.path).isSome = true) :
    (files.write req.path.temporary req.body req'.path).isSome = true := by
  rw [Files.write, PutArtifact.path, PutArtifact.path, Function.update_of_ne (Ne.symm (temporary_ne req.body req'.body))]
  exact h

theorem renamed (req : PutArtifact) (files : Files) :
    files.rename req.path.temporary req.path req.path = files req.path.temporary := by
  have hne : req.path ≠ req.path.temporary := Ne.symm (temporary_ne req.body req.body)
  rw [rename_temporary, Function.update_of_ne hne, Function.update_self]

theorem isSome_rename {req' : PutArtifact} (hwritten : (files req.path.temporary).isSome = true)
    (h : (files req'.path).isSome = true) : (files.rename req.path.temporary req.path req'.path).isSome = true := by
  by_cases hsame : req'.path = req.path
  · rw [hsame, renamed]
    exact hwritten
  · have hne : req'.path ≠ req.path.temporary := Ne.symm (temporary_ne req.body req'.body)
    rw [rename_temporary, Function.update_of_ne hne, Function.update_of_ne hsame]
    exact h

end Files

/-! ### The invariant -/

/-- The body of a call is under its key. -/
def Backed (files : Files) (known : List Bytes) (req : PutArtifact) : Prop :=
  req.body ∈ known ∧ (files req.path).isSome = true

/-- What a call may count on. -/
def Sound (root : String) (s : State) (known : List Bytes) : Phase → Prop
  | .idle | .failed _ => True
  | .written req => req.body ∈ known
  | .stored req uri => uri = uriFor root req.path ∧ Backed s.files known req
  | .done req id => ∃ a ∈ s.artifacts, a.id = id ∧ a.uri = uriFor root req.path ∧ Backed s.files known req

structure Inv (root : String) (known : List Bytes) (s : State) : Prop where
  hashed : Hashed s.files known
  sound : ∀ i, Sound root s known (s.calls i)
  rows : ∀ a ∈ s.artifacts, ∃ req, a.uri = uriFor root req.path ∧ a.contentHash = blobSha256Hex req.body ∧
    Backed s.files known req
  nodup : (s.artifacts.map ArtifactRow.id).Nodup

section Steps

variable {root : String} {s : State} {known : List Bytes}

theorem Sound.mono {s' : State} {p : Phase} (h : Sound root s known p) {known' : List Bytes} (hknown : known ⊆ known')
    (hfiles : ∀ req : PutArtifact, (s.files req.path).isSome = true → (s'.files req.path).isSome = true)
    (hrows : s.artifacts ⊆ s'.artifacts) : Sound root s' known' p := by
  have hbacked : ∀ req, Backed s.files known req → Backed s'.files known' req :=
    fun req hreq => ⟨hknown hreq.1, hfiles req hreq.2⟩
  cases p with
  | idle => trivial
  | failed message => trivial
  | written req => exact hknown h
  | stored req uri => exact ⟨h.1, hbacked req h.2⟩
  | done req id =>
    obtain ⟨a, ha, hid, huri, hreq⟩ := h
    exact ⟨a, hrows ha, hid, huri, hbacked req hreq⟩

theorem Inv.learn (h : Inv root known s) (body : Bytes) : Inv root (known ++ [body]) s := by
  have hknown : known ⊆ known ++ [body] := List.subset_append_left _ _
  refine ⟨fun b held hheld => ?_, fun i => (h.sound i).mono hknown (fun _ => id) fun _ => id, fun a ha => ?_, h.nodup⟩
  · obtain ⟨hmem, hsame⟩ := h.hashed b held hheld
    exact ⟨hknown hmem, hsame⟩
  · obtain ⟨req, huri, hhash, hmem, hsome⟩ := h.rows a ha
    exact ⟨req, huri, hhash, hknown hmem, hsome⟩

/-- A statement that keeps what there is, adds at most one row, and takes its call to where it may be. -/
theorem Inv.move (h : Inv root known s) {files : Files} {more : List ArtifactRow} {i : Nat} {p : Phase}
    (hhashed : Hashed files known)
    (hfiles : ∀ req : PutArtifact, (s.files req.path).isSome = true → (files req.path).isSome = true)
    (hmore : ∀ a ∈ more, ∃ req, a.uri = uriFor root req.path ∧ a.contentHash = blobSha256Hex req.body ∧
      Backed files known req)
    (hnodup : ((s.artifacts ++ more).map ArtifactRow.id).Nodup)
    (hp : Sound root ⟨files, s.artifacts ++ more, s.calls⟩ known p) :
    Inv root known (State.setCall ⟨files, s.artifacts ++ more, s.calls⟩ i p) := by
  refine ⟨hhashed, fun j => ?_, fun a ha => ?_, hnodup⟩
  · by_cases hj : j = i
    · rw [hj, State.calls_setCall_self]
      exact hp.mono (fun _ => id) (fun _ => id) fun _ => id
    · rw [State.calls_setCall_of_ne _ hj]
      exact (h.sound j).mono (fun _ => id) hfiles (List.subset_append_left _ _)
  · rcases List.mem_append.mp ha with ha | ha
    · obtain ⟨req, huri, hhash, hmem, hsome⟩ := h.rows a ha
      exact ⟨req, huri, hhash, hmem, hfiles req hsome⟩
    · exact hmore a ha

theorem Inv.moveFiles (h : Inv root known s) {files : Files} (i : Nat) {p : Phase} (hhashed : Hashed files known)
    (hfiles : ∀ req : PutArtifact, (s.files req.path).isSome = true → (files req.path).isSome = true)
    (hp : Sound root ⟨files, s.artifacts, s.calls⟩ known p) :
    Inv root known (State.setCall ⟨files, s.artifacts, s.calls⟩ i p) := by
  have hnone : s.artifacts ++ [] = s.artifacts := List.append_nil _
  have hmoved : Inv root known (State.setCall ⟨files, s.artifacts ++ [], s.calls⟩ i p) :=
    h.move hhashed hfiles (by simp) (by rw [hnone]; exact h.nodup) (by rwa [hnone])
  rwa [hnone] at hmoved

theorem Inv.store (h : Inv root known s) {files : Files} (i : Nat) (hhashed : Hashed files known)
    (hfiles : ∀ req : PutArtifact, (s.files req.path).isSome = true → (files req.path).isSome = true) {req : PutArtifact}
    (hbacked : Backed files known req) :
    Inv root known (State.setCall ⟨files, s.artifacts, s.calls⟩ i (.stored req (uriFor root req.path))) :=
  h.moveFiles i hhashed hfiles ⟨rfl, hbacked⟩

/-- A call ends with an error. -/
theorem Inv.fail (h : Inv root known s) (i : Nat) (message : String) : Inv root known (s.setCall i (.failed message)) :=
  h.moveFiles i h.hashed (fun _ hsome => hsome) trivial

theorem inv_start : Inv root [] .start := by
  refine ⟨fun body held hheld => ?_, fun _ => trivial, by simp [State.start], List.nodup_nil⟩
  rcases hheld with hheld | hheld <;> cases hheld

theorem Inv.write (h : Inv root known s) (i : Nat) (req : PutArtifact) (fault : Option String)
    (hreq : req.body ∈ known) : Inv root known (s.write i req fault) := by
  unfold State.write
  split
  · exact h.moveFiles i (h.hashed.write hreq) (fun _ hsome => isSome_write hsome) hreq
  · exact h.fail i _
  · exact h

theorem Inv.rename (h : Inv root known s) (i : Nat) (fault : Option String) : Inv root known (s.rename root i fault) := by
  unfold State.rename
  split
  · rename_i req hcall
    have hreq : req.body ∈ known := by
      have hsound := h.sound i
      rwa [hcall] at hsound
    split
    · rename_i hwritten
      have hstored : Backed (s.files.rename req.path.temporary req.path) known req := by
        refine ⟨hreq, ?_⟩
        rw [renamed]
        exact hwritten
      exact h.store i (h.hashed.rename req) (fun _ hsome => isSome_rename hwritten hsome) hstored
    · exact h.fail i _
  · exact h.fail i _
  · exact h

theorem Inv.insert (h : Inv root known s) (i : Nat) (id createdAt : String) (fault : Option String) :
    Inv root known (s.insert i id createdAt fault) := by
  unfold State.insert
  split
  · rename_i req uri hcall
    have hsound := h.sound i
    rw [hcall] at hsound
    obtain ⟨huri, hbacked⟩ := hsound
    split
    · exact h.fail i _
    · rename_i hfresh
      refine h.move h.hashed (fun _ hsome => hsome) (fun a ha => ?_) ?_ ⟨_, List.mem_append_right _ List.mem_cons_self, rfl, huri, hbacked⟩
      · cases List.mem_singleton.mp ha
        exact ⟨req, huri, rfl, hbacked⟩
      · rw [List.map_append]
        exact h.nodup.append (List.nodup_singleton _) (by simpa [rowOf] using hfresh)
  · exact h.fail i _
  · exact h

theorem Inv.step (h : Inv root known s) (e : Event) : Inv root (known ++ bodies [e]) (step root s e) := by
  cases e with
  | write i req fault => exact (h.learn req.body).write i req fault (List.mem_append_right _ List.mem_cons_self)
  | rename i fault =>
    have hknown : known ++ bodies [Event.rename i fault] = known := List.append_nil known
    rw [hknown]
    exact h.rename i fault
  | insert i id createdAt fault =>
    have hknown : known ++ bodies [Event.insert i id createdAt fault] = known := List.append_nil known
    rw [hknown]
    exact h.insert i id createdAt fault

theorem inv_reached (events : List Event) : Inv root (bodies events) (reached root events) := by
  induction events using List.reverseRecOn with
  | nil => exact inv_start
  | append_singleton events e ih =>
    have hbodies : bodies (events ++ [e]) = bodies events ++ bodies [e] := List.filterMap_append
    rw [hbodies, reached, Lts.run_append]
    exact ih.step e

end Steps

def note : PutArtifact := ⟨"ws", "actor", "file", [104, 105], .low⟩

/-- Two calls for the same bytes: the second finds its file renamed away. -/
def overlapping : List Event :=
  [.write 0 note none, .write 1 note none, .rename 0 none, .rename 1 none, .insert 0 "art_1" "2026-01-01T00:00:00Z" none]

end Artifacts

end ActantDb
