import ActantDb.Storage.Ingest

/-!
# Sync to a filesystem destination

A sync pass copies the events of a workspace, in the order of `(created_at, id)`, to one JSON file each, and remembers the last one it has copied in a cursor file next to them. Each file is written under a temporary name and renamed.

The passes, the appends and the ingests are programs over the operations below: those of the storage, the two queries of `storage_query.rs`, and the steps on the file system. Of the file system the model keeps what each file holds; which directory a path leads to, and which step fails, is the environment's.
-/

namespace ActantDb

/-! ### Paths -/

structure FilePath where
  -- with the slash at its end
  parent : String
  name : String
deriving DecidableEq, Repr

/-- `Path::file_stem`: the name up to its last dot, unless that is all of it. -/
def fileStem (name : String) : String :=
  match (name.toList.reverse.dropWhile (· ≠ '.')).tail with
  | [] => name
  | before => String.ofList before.reverse

def FilePath.withExtension (p : FilePath) (extension : String) : FilePath :=
  { p with name := fileStem p.name ++ "." ++ extension }

def sanitize (raw : String) : String :=
  String.ofList (raw.toList.map fun c => if c.isAlphanum || c ∈ ['_', '-', '.'] then c else '_')

/-- The characters of the first `n` bytes, when the text has so many and no character straddles their end. -/
def getBytes : Nat → List Char → Option (List Char)
  | 0, _ => some []
  | _ + 1, [] => none
  | n + 1, c :: rest =>
    if c.utf8Size ≤ n + 1 then (getBytes (n + 1 - c.utf8Size) rest).map (c :: ·) else none
termination_by _ cs => cs.length

/-- The leading `YYYY-MM-DD`. -/
def partition (createdAt : String) : String :=
  ((getBytes 10 createdAt.toList).map String.ofList).getD "0000-00-00"

def keyFor (ws : WorkspaceId) (e : AgentEvent) : FilePath :=
  ⟨sanitize ws ++ "/" ++ partition e.createdAt ++ "/", sanitize e.id ++ ".json"⟩

def cursorKey (ws : WorkspaceId) : FilePath := ⟨sanitize ws ++ "/", "_cursor.txt"⟩

structure FilesystemDestination where
  root : String

namespace FilesystemDestination

variable (d : FilesystemDestination)

/-- `Path::join`: an absolute key replaces the root. -/
def join (key : FilePath) : FilePath :=
  if key.parent.toList.head? = some '/' then key
  else { key with parent := d.root ++ "/" ++ key.parent }

def eventPath (ws : WorkspaceId) (e : AgentEvent) : FilePath := d.join (keyFor ws e)

def eventTmp (ws : WorkspaceId) (e : AgentEvent) : FilePath := (d.eventPath ws e).withExtension "json.tmp"

def cursorPath (ws : WorkspaceId) : FilePath := d.join (cursorKey ws)

def cursorTmp (ws : WorkspaceId) : FilePath := (d.cursorPath ws).withExtension "txt.tmp"

end FilesystemDestination

/-! ### The world -/

/-- What a file holds: the pretty-printed JSON of an event, or text. -/
inductive Contents where
  | json (e : AgentEvent)
  | text (s : String)
deriving DecidableEq

/-- A name in a directory. -/
structure File where
  directory : Nat
  name : String
deriving DecidableEq

inductive IoError where
  | notFound
  | other (message : String)
deriving DecidableEq, Repr

structure SyncWorld where
  world : World
  files : File → Option Contents
  ios : Nat

/-- Besides the environment of the storage: which steps on the file system fail, which directory a path leads to, and how an event is printed. -/
structure SyncEnv where
  env : Env
  ioFault : Nat → Option String
  directory : String → Nat
  toVecPretty : AgentEvent → String

def SyncEnv.file (E : SyncEnv) (p : FilePath) : File := ⟨E.directory p.parent, p.name⟩

def Contents.print (E : SyncEnv) : Contents → String
  | .json e => E.toVecPretty e
  | .text s => s

/-- What a file reads as. -/
def textOf (E : SyncEnv) (files : File → Option Contents) (p : FilePath) : Option String :=
  (files (E.file p)).map (·.print E)

/-- Where an event stands in the order of the queries. -/
abbrev Position := String × EventId

def AgentEvent.position (e : AgentEvent) : Position := (e.createdAt, e.id)

/-- `created_at > ? OR (created_at = ? AND id > ?)`. -/
def AgentEvent.isAfter (e : AgentEvent) (p : Position) : Prop :=
  p.1 < e.createdAt ∨ e.createdAt = p.1 ∧ p.2 < e.id

instance (e : AgentEvent) (p : Position) : Decidable (e.isAfter p) :=
  inferInstanceAs (Decidable (_ ∨ _ ∧ _))

/-- The event is after the cursor's position, if there is one. -/
def AgentEvent.follows (e : AgentEvent) (since : Option Position) : Prop := ∀ p ∈ since, e.isAfter p

instance (e : AgentEvent) (since : Option Position) : Decidable (e.follows since) :=
  inferInstanceAs (Decidable (∀ p ∈ since, e.isAfter p))

/-- The events stored, in the order they were inserted. -/
def Db.stored (db : Db) : List AgentEvent := db.agentEvent.rows.map (·.event)

/-- `SELECT created_at FROM agent_event WHERE id = ? AND workspace_id = ?`. -/
def Db.createdAt (db : Db) (id : EventId) (ws : WorkspaceId) : Option String :=
  (db.stored.find? fun e => e.id = id && e.workspaceId = ws).map (·.createdAt)

/-- All that the second query selects, were there no limit. -/
def Db.eventsBeyond (db : Db) (ws : WorkspaceId) (since : Option Position) : List AgentEvent :=
  (inOrder (db.agentEvent.rows.filter fun r =>
    r.event.workspaceId = ws ∧ r.event.follows since)).map (·.event)

inductive SyncOp where
  | base (o : Op)
  | createdAt (id : EventId) (ws : WorkspaceId)
  | eventsAfter (ws : WorkspaceId) (since : Option Position) (limit : Nat)
  | readToString (p : FilePath)
  | createDirAll (parent : String)
  | write (p : FilePath) (contents : Contents)
  | rename (src dst : FilePath)

abbrev SyncOp.Res : SyncOp → Type
  | .base o => o.Res
  | .createdAt _ _ => Except SqlError (Option String)
  | .eventsAfter _ _ _ => Except SqlError (List AgentEvent)
  | .readToString _ => Except IoError String
  | _ => Except IoError Unit

/-- A statement of the sync's own, which changes nothing. -/
def SyncWorld.query {α : Type} (E : SyncEnv) (w : SyncWorld) (answer : Db → α) :
    Except SqlError α × SyncWorld :=
  let w' := { w with world := { w.world with statements := w.world.statements + 1 } }
  if E.env.fault w.world.statements then (.error .unavailable, w') else (.ok (answer w.world.db), w')

/-- A step on the file system, unless it fails. -/
def SyncWorld.io {α : Type} (E : SyncEnv) (w : SyncWorld)
    (act : (File → Option Contents) → Except IoError (α × (File → Option Contents))) :
    Except IoError α × SyncWorld :=
  let w' := { w with ios := w.ios + 1 }
  match E.ioFault w.ios with
  | some message => (.error (.other message), w')
  | none =>
    match act w.files with
    | .error e => (.error e, w')
    | .ok (a, files) => (.ok a, { w' with files := files })

def SyncOp.handle (E : SyncEnv) : (o : SyncOp) → SyncWorld → o.Res × SyncWorld
  | .base o, w =>
    ((ActantDb.handle E.env o w.world).1, { w with world := (ActantDb.handle E.env o w.world).2 })
  | .createdAt id ws, w => w.query E (·.createdAt id ws)
  | .eventsAfter ws since limit, w => w.query E fun db => (db.eventsBeyond ws since).take limit
  | .readToString p, w => w.io E fun files =>
    match files (E.file p) with
    | none => .error .notFound
    | some contents => .ok (contents.print E, files)
  | .createDirAll _, w => w.io E fun files => .ok ((), files)
  | .write p contents, w => w.io E fun files =>
    .ok ((), Function.update files (E.file p) (some contents))
  | .rename src dst, w => w.io E fun files =>
    match files (E.file src) with
    | none => .error .notFound
    | some contents =>
      .ok ((), Function.update (Function.update files (E.file src) none) (E.file dst) (some contents))

/-! ### The calls -/

inductive SyncError where
  | io (cause : IoError)
  | storage (cause : SqlError)
  -- of an append or an ingest
  | actant (e : ActantError)
  -- the bound on the turns of the loop, which only the model has
  | turns
deriving DecidableEq, Repr

abbrev SyncAction := Prog SyncOp SyncOp.Res SyncError

/-- A file that is missing or blank is no cursor. -/
def parseCursor : Except IoError String → Except IoError (Option EventId)
  | .ok s => .ok (if trimmed s = "" then none else some (trimmed s))
  | .error .notFound => .ok none
  | .error e => .error e

namespace FilesystemDestination

variable (d : FilesystemDestination)

def cursor (ws : WorkspaceId) : SyncAction (Option EventId) :=
  .performOr (.readToString (d.cursorPath ws)) parseCursor .io

/-- Write `contents` to the path, through a temporary file. -/
def replace (path tmp : FilePath) (contents : Contents) : SyncAction Unit := do
  (.performOr (.createDirAll path.parent) id .io : SyncAction Unit)
  (.performOr (.write tmp contents) id .io : SyncAction Unit)
  .performOr (.rename tmp path) id .io

def writeEvent (ws : WorkspaceId) (e : AgentEvent) : SyncAction Unit :=
  replace (d.eventPath ws e) (d.eventTmp ws e) (.json e)

def writeCursor (ws : WorkspaceId) (id : EventId) : SyncAction Unit :=
  replace (d.cursorPath ws) (d.cursorTmp ws) (.text id)

def writeEvents (ws : WorkspaceId) : List AgentEvent → SyncAction Unit
  | [] => pure ()
  | e :: rest => do
    d.writeEvent ws e
    writeEvents ws rest

def push (ws : WorkspaceId) (batch : List AgentEvent) : SyncAction (Option EventId) :=
  match batch.getLast? with
  | none => d.cursor ws
  | some last => do
    d.writeEvents ws batch
    d.writeCursor ws last.id
    return some last.id

end FilesystemDestination

def eventsAfter (ws : WorkspaceId) (since : Option EventId) (limit : Nat) :
    SyncAction (List AgentEvent) :=
  match since with
  | none => .performOr (.eventsAfter ws none limit) id .storage
  | some id => do
    let created ← (.performOr (.createdAt id ws) (fun r => r) .storage : SyncAction (Option String))
    -- an id that is not found is passed over: the query starts from the beginning
    .performOr (.eventsAfter ws (created.map fun t => (t, id)) limit) (fun r => r) .storage

structure SyncStats where
  eventsPushed : Nat
  batches : Nat
  finalCursor : Option EventId
deriving DecidableEq, Repr

/-- The loop of `run_once`, for so many turns. -/
def runOnceLoop (d : FilesystemDestination) (ws : WorkspaceId) (batchSize : Nat) :
    Nat → SyncStats → SyncAction SyncStats
  | 0, _ => .fail .turns
  | n + 1, stats => do
    let cursor ← d.cursor ws
    let batch ← eventsAfter ws cursor batchSize
    if batch = [] then return { stats with finalCursor := cursor }
    else do
      let newCursor ← d.push ws batch
      let stats := ⟨stats.eventsPushed + batch.length, stats.batches + 1, newCursor⟩
      if batch.length < batchSize then return stats else runOnceLoop d ws batchSize n stats

def runOnce (d : FilesystemDestination) (ws : WorkspaceId) (batchSize turns : Nat) : SyncAction SyncStats :=
  runOnceLoop d ws batchSize turns ⟨0, 0, none⟩

/-- A call of the storage's interface. -/
def Action.lift {α : Type} (p : Action α) : SyncAction α := p.embed .base (fun _ r => r) .actant

inductive SyncCall where
  | appendEvent (e : AgentEvent)
  | ingestEvents (batch : List IngestEvent)
  | runOnce (ws : WorkspaceId) (batchSize turns : Nat)

inductive SyncReply where
  | appended
  | ingested (progress : IngestProgress)
  | synced (stats : SyncStats)

def SyncCall.issue (X : Crates) (d : FilesystemDestination) : SyncCall → SyncAction SyncReply
  | .appendEvent e => (fun _ => .appended) <$> Action.lift (execute (.appendEvent e))
  | .ingestEvents batch => .ingested <$> Action.lift (ActantDb.ingestEvents X batch)
  | .runOnce ws batchSize turns => .synced <$> ActantDb.runOnce d ws batchSize turns

abbrev SyncPool (ι : Type) := Pool ι SyncWorld SyncOp SyncOp.Res SyncError SyncReply

/-! ### For sample runs -/

def AgentEvent.sample (id : EventId) (createdAt : String) : AgentEvent where
  id := id
  workspaceId := "ws_demo"
  actorId := "act_demo"
  sessionId := none
  parentEventId := none
  eventType := "note"
  causalityKind := .audit
  sensitivity := .low
  authorityScopeId := none
  payloadInline := none
  payloadRef := none
  payloadHash := "h"
  eventHash := "h"
  createdAt := createdAt
  modelCallId := none
  toolCallId := none
  workflowRunId := none
  memoryId := none
  artifactId := none
  commandId := none
  effectId := none

def SyncEnv.sample : SyncEnv where
  env := .wholeSeconds
  ioFault _ := none
  directory path := path.length
  toVecPretty e := e.id

def FilesystemDestination.sample : FilesystemDestination := ⟨"/sync"⟩

/-- One workspace with the events given, and nothing at the destination. -/
def SyncWorld.ledger (events : List AgentEvent) (h : (events.map (·.id)).Nodup) : SyncWorld where
  world := .start
    { Db.sample with
      agentEvent := ⟨events.map fun e => { event := e }, by rw [List.map_map]; exact h⟩ }
  files _ := none
  ios := 0

def SyncWorld.sample : SyncWorld := .ledger [] List.nodup_nil

/-! ### What the queries select -/

section Order

variable {db : Db} {ws : WorkspaceId} {since : Option Position} {a b e : AgentEvent} {p : Position}

theorem isAfter_iff_lex : e.isAfter p ↔ toLex p < toLex e.position := by
  rw [Prod.Lex.lt_iff]
  exact or_congr_right (and_congr_left fun _ => eq_comm)

theorem not_isAfter_iff_lex : ¬ e.isAfter p ↔ toLex e.position ≤ toLex p := by
  rw [isAfter_iff_lex, not_lt]

theorem isAfter_trans (hab : b.isAfter a.position) (hp : a.isAfter p) : b.isAfter p := by
  rw [isAfter_iff_lex] at hab hp ⊢
  exact hp.trans hab

theorem not_isAfter_self : ¬ e.isAfter e.position := by
  rw [isAfter_iff_lex]
  exact lt_irrefl _

theorem mem_eventsBeyond :
    e ∈ db.eventsBeyond ws since ↔ e ∈ db.stored ∧ e.workspaceId = ws ∧ e.follows since := by
  simp only [Db.eventsBeyond, Db.stored, List.mem_map, mem_inOrder, List.mem_filter,
    decide_eq_true_eq]
  constructor
  · intro h
    obtain ⟨r, ⟨hr, hws⟩, rfl⟩ := h
    exact ⟨⟨r, hr, rfl⟩, hws⟩
  · intro h
    obtain ⟨⟨r, hr, rfl⟩, hws⟩ := h
    exact ⟨r, ⟨hr, hws⟩, rfl⟩

theorem stored_ids_nodup (db : Db) : (db.stored.map (·.id)).Nodup := by
  rw [Db.stored, List.map_map]
  exact db.agentEvent.keysNodup

/-- An id names at most one event. -/
theorem eq_of_id_eq (ha : a ∈ db.stored) (hb : b ∈ db.stored) (h : a.id = b.id) : a = b :=
  List.inj_on_of_nodup_map (stored_ids_nodup db) ha hb h

/-- What is selected comes in strictly increasing order. -/
theorem eventsBeyond_sorted : (db.eventsBeyond ws since).Pairwise fun a b => b.isAfter a.position := by
  have hle : (db.eventsBeyond ws since).Pairwise fun a b => toLex a.position ≤ toLex b.position := by
    rw [Db.eventsBeyond, List.pairwise_map]
    exact (List.pairwise_insertionSort _ _).imp fun h => before_iff_lex.mp h
  have hne : (db.eventsBeyond ws since).Pairwise fun a b => a.id ≠ b.id := by
    rw [← List.pairwise_map (f := fun e : AgentEvent => e.id), ← List.nodup_iff_pairwise_ne]
    have hperm := ((inOrder_perm (db.agentEvent.rows.filter fun r =>
      r.event.workspaceId = ws ∧ r.event.follows since)).map fun r => r.event.id).nodup_iff
    rw [Db.eventsBeyond, List.map_map]
    exact hperm.mpr (db.agentEvent.keysNodup.sublist (List.filter_sublist.map _))
  refine (hle.and hne).imp fun h => ?_
  rw [isAfter_iff_lex]
  refine lt_of_le_of_ne h.1 fun heq => h.2 ?_
  exact congrArg Prod.snd (toLex_inj.mp heq)

theorem createdAt_eq_some {id : EventId} {t : String} :
    db.createdAt id ws = some t ↔ ∃ e ∈ db.stored, e.id = id ∧ e.workspaceId = ws ∧ e.createdAt = t := by
  rw [Db.createdAt, Option.map_eq_some_iff]
  constructor
  · intro h
    obtain ⟨e, hfound, rfl⟩ := h
    have hselected := List.find?_some hfound
    simp only [Bool.and_eq_true, decide_eq_true_eq] at hselected
    exact ⟨e, List.mem_of_find?_eq_some hfound, hselected.1, hselected.2, rfl⟩
  · intro h
    obtain ⟨e, he, rfl, rfl, rfl⟩ := h
    refine ⟨e, ?_, rfl⟩
    cases hfound : db.stored.find? fun x => x.id = e.id && x.workspaceId = e.workspaceId with
    | none =>
      have := List.find?_eq_none.mp hfound e he
      simp at this
    | some x =>
      have hselected := List.find?_some hfound
      simp only [Bool.and_eq_true, decide_eq_true_eq] at hselected
      rw [eq_of_id_eq (List.mem_of_find?_eq_some hfound) he hselected.1]

end Order

/-! ### What an operation does -/

section Handle

variable {E : SyncEnv} {w : SyncWorld}

/-- Outside the storage's own interface an operation leaves the database as it is. -/
theorem handle_db {o : SyncOp} (ho : ∀ b, o ≠ .base b) : (o.handle E w).2.world.db = w.world.db := by
  have hio : ∀ {α : Type} (act : (File → Option Contents) → Except IoError (α × (File → Option Contents))),
      (w.io E act).2.world.db = w.world.db := by
    intro α act
    simp only [SyncWorld.io]
    split
    · rfl
    · split <;> rfl
  have hquery : ∀ {α : Type} (answer : Db → α), (w.query E answer).2.world.db = w.world.db := by
    intro α answer
    simp only [SyncWorld.query]
    split <;> rfl
  cases o with
  | base b => exact absurd rfl (ho b)
  | createdAt | eventsAfter => exact hquery _
  | _ => exact hio _

/-- An operation that touches no file. -/
def SyncOp.touches : SyncOp → Bool
  | .write _ _ | .rename _ _ => true
  | _ => false

theorem handle_files {o : SyncOp} (ho : o.touches = false) : (o.handle E w).2.files = w.files := by
  cases o with
  | base b => rfl
  | createdAt | eventsAfter =>
    simp only [SyncOp.handle, SyncWorld.query]
    split <;> rfl
  | readToString p =>
    simp only [SyncOp.handle, SyncWorld.io]
    split
    · rfl
    · cases w.files (E.file p) <;> rfl
  | createDirAll parent =>
    simp only [SyncOp.handle, SyncWorld.io]
    split <;> rfl
  | write | rename => cases ho

theorem handle_write (p : FilePath) (contents : Contents) :
    ((∃ err, ((SyncOp.write p contents).handle E w).1 = .error err) ∧
        ((SyncOp.write p contents).handle E w).2.files = w.files) ∨
      (((SyncOp.write p contents).handle E w).1 = .ok () ∧
        ((SyncOp.write p contents).handle E w).2.files =
          Function.update w.files (E.file p) (some contents)) := by
  simp only [SyncOp.handle, SyncWorld.io]
  cases E.ioFault w.ios with
  | some message => exact Or.inl ⟨⟨_, rfl⟩, rfl⟩
  | none => exact Or.inr ⟨rfl, rfl⟩

theorem handle_rename (src dst : FilePath) :
    ((∃ err, ((SyncOp.rename src dst).handle E w).1 = .error err) ∧
        ((SyncOp.rename src dst).handle E w).2.files = w.files) ∨
      (((SyncOp.rename src dst).handle E w).1 = .ok () ∧
        ∃ contents, w.files (E.file src) = some contents ∧
          ((SyncOp.rename src dst).handle E w).2.files =
            Function.update (Function.update w.files (E.file src) none) (E.file dst) (some contents)) := by
  simp only [SyncOp.handle, SyncWorld.io]
  cases E.ioFault w.ios with
  | some message => exact Or.inl ⟨⟨_, rfl⟩, rfl⟩
  | none =>
    cases hsrc : w.files (E.file src) with
    | none => exact Or.inl ⟨⟨_, rfl⟩, rfl⟩
    | some contents => exact Or.inr ⟨rfl, contents, rfl, rfl⟩

/-- What is read of a file: nothing, or what it holds. -/
theorem handle_readToString (p : FilePath) :
    (∃ message, ((SyncOp.readToString p).handle E w).1 = .error (.other message)) ∨
      (w.files (E.file p) = none ∧ ((SyncOp.readToString p).handle E w).1 = .error .notFound) ∨
        ∃ contents, w.files (E.file p) = some contents ∧
          ((SyncOp.readToString p).handle E w).1 = .ok (contents.print E) := by
  simp only [SyncOp.handle, SyncWorld.io]
  cases E.ioFault w.ios with
  | some message => exact Or.inl ⟨_, rfl⟩
  | none =>
    cases hfile : w.files (E.file p) with
    | none => exact Or.inr (Or.inl ⟨rfl, rfl⟩)
    | some contents => exact Or.inr (Or.inr ⟨contents, rfl, rfl⟩)

theorem textOf_update {files : File → Option Contents} {file : File} {contents : Option Contents}
    {p : FilePath} (h : E.file p ≠ file) :
    textOf E (Function.update files file contents) p = textOf E files p := by
  rw [textOf, textOf, Function.update_of_ne h]

/-- A query is refused, or answers what the database holds. -/
theorem query_cases {α : Type} (answer : Db → α) :
    (w.query E answer).1 = .error .unavailable ∨ (w.query E answer).1 = .ok (answer w.world.db) := by
  simp only [SyncWorld.query]
  split
  · exact Or.inl rfl
  · exact Or.inr rfl

end Handle

/-! ### The paths are apart -/

section Paths

variable {E : SyncEnv} {d : FilesystemDestination} {p q : FilePath}

theorem file_eq_iff :
    E.file p = E.file q ↔ E.directory p.parent = E.directory q.parent ∧ p.name = q.name := by
  rw [SyncEnv.file, SyncEnv.file, File.mk.injEq]

/-- Names that end differently are names of different files. -/
theorem file_ne_of_suffix {x y : List Char} (hp : x <:+ p.name.toList) (hq : y <:+ q.name.toList)
    (hlength : x.length = y.length) (hxy : x ≠ y) : E.file p ≠ E.file q := by
  intro h
  rw [(file_eq_iff.mp h).2] at hp
  exact hxy ((List.suffix_of_suffix_length_le hp hq (le_of_eq hlength)).eq_of_length hlength)

theorem withExtension_parent (p : FilePath) (extension : String) :
    (p.withExtension extension).parent = p.parent := rfl

theorem withExtension_suffix (p : FilePath) (extension : String) :
    '.' :: extension.toList <:+ (p.withExtension extension).name.toList :=
  ⟨(fileStem p.name).toList, by simp [FilePath.withExtension]⟩

theorem join_name (key : FilePath) : (d.join key).name = key.name := by
  rw [FilesystemDestination.join]
  split <;> rfl

theorem eventPath_suffix (ws : WorkspaceId) (e : AgentEvent) :
    "json".toList <:+ (d.eventPath ws e).name.toList := by
  rw [FilesystemDestination.eventPath, join_name]
  exact ⟨(sanitize e.id).toList ++ ['.'], by simp [keyFor]⟩

theorem eventTmp_suffix (ws : WorkspaceId) (e : AgentEvent) :
    "json.tmp".toList <:+ (d.eventTmp ws e).name.toList :=
  (List.suffix_cons _ _).trans (withExtension_suffix _ _)

theorem cursorPath_name (ws : WorkspaceId) : (d.cursorPath ws).name = "_cursor.txt" := by
  rw [FilesystemDestination.cursorPath, join_name]
  rfl

theorem cursorTmp_suffix (ws : WorkspaceId) :
    ".txt.tmp".toList <:+ (d.cursorTmp ws).name.toList := by
  have hdot : ".txt.tmp".toList = '.' :: "txt.tmp".toList := by decide
  rw [hdot]
  exact withExtension_suffix _ _

variable (ws ws' : WorkspaceId) (e e' : AgentEvent)

theorem eventPath_ne_eventTmp : E.file (d.eventPath ws e) ≠ E.file (d.eventTmp ws' e') :=
  file_ne_of_suffix (eventPath_suffix ws e)
    ((show ".tmp".toList <:+ "json.tmp".toList by decide).trans (eventTmp_suffix ws' e')) (by simp) (by decide)

theorem eventPath_ne_cursorPath : E.file (d.eventPath ws e) ≠ E.file (d.cursorPath ws') :=
  file_ne_of_suffix (eventPath_suffix ws e)
    (show ".txt".toList <:+ _ by rw [cursorPath_name]; decide) (by simp) (by decide)

theorem eventPath_ne_cursorTmp : E.file (d.eventPath ws e) ≠ E.file (d.cursorTmp ws') :=
  file_ne_of_suffix (eventPath_suffix ws e)
    ((show ".tmp".toList <:+ ".txt.tmp".toList by decide).trans (cursorTmp_suffix ws')) (by simp) (by decide)

theorem cursorPath_ne_eventTmp : E.file (d.cursorPath ws) ≠ E.file (d.eventTmp ws' e) :=
  file_ne_of_suffix (show ".txt".toList <:+ _ by rw [cursorPath_name]; decide)
    ((show ".tmp".toList <:+ "json.tmp".toList by decide).trans (eventTmp_suffix ws' e)) (by simp) (by decide)

theorem cursorPath_ne_cursorTmp : E.file (d.cursorPath ws) ≠ E.file (d.cursorTmp ws') :=
  file_ne_of_suffix (show ".txt".toList <:+ _ by rw [cursorPath_name]; decide)
    ((show ".tmp".toList <:+ ".txt.tmp".toList by decide).trans (cursorTmp_suffix ws')) (by simp) (by decide)

theorem eventTmp_ne_cursorTmp : E.file (d.eventTmp ws e) ≠ E.file (d.cursorTmp ws') :=
  file_ne_of_suffix (eventTmp_suffix ws e) (cursorTmp_suffix ws') (by simp) (by decide)

/-- Two workspaces share their temporary cursor file just when they share their cursor file. -/
theorem cursorTmp_file_eq :
    E.file (d.cursorTmp ws) = E.file (d.cursorTmp ws') ↔
      E.file (d.cursorPath ws) = E.file (d.cursorPath ws') := by
  have hparent : ∀ ws, (d.cursorTmp ws).parent = (d.cursorPath ws).parent :=
    fun ws => withExtension_parent _ _
  have hname : (d.cursorTmp ws).name = (d.cursorTmp ws').name := by
    simp only [FilesystemDestination.cursorTmp, FilePath.withExtension, cursorPath_name]
  rw [file_eq_iff, file_eq_iff, hparent, hparent, cursorPath_name, cursorPath_name]
  exact and_congr_right fun _ => ⟨fun _ => rfl, fun _ => hname⟩

end Paths

end ActantDb
