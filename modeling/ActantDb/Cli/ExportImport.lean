import ActantDb.Core.Hash
import ActantDb.Lib.Table
import ActantDb.Lib.Words
import Mathlib.Data.List.Sort
import Mathlib.Data.String.Basic

/-!
# Export and import of events

`actantdb export` writes an object for each event, a line for each, ordered by id, with thirteen of the columns of `agent_event`; `actantdb import` inserts a row for each line, one statement after the other. The columns that are not written are filled with their defaults, and an event whose parent has a greater id is refused, since its parent is not there yet.
-/

namespace ActantDb

namespace ExportImport

/-! ### Rows -/

/-- The columns of `agent_event` that are not exported. -/
structure Unexported where
  authorityScopeId : Option String := none
  modelCallId : Option String := none
  toolCallId : Option String := none
  workflowRunId : Option String := none
  memoryId : Option String := none
  artifactId : Option String := none
  commandId : Option String := none
  effectId : Option String := none
  causalParentIds : Option String := none
  otelTraceId : Option String := none
  otelSpanId : Option String := none
  deviceId : String := "_legacy_"
  hlcPhysicalMs : Int := 0
  hlcLogical : Int := 0
deriving DecidableEq

structure EventRow where
  id : String
  workspaceId : String
  actorId : String
  sessionId : Option String
  parentEventId : Option String
  eventType : String
  causalityKind : String
  sensitivity : String
  payloadInline : Option String
  payloadRef : Option String
  payloadHash : String
  eventHash : String
  createdAt : String
  rest : Unexported
deriving DecidableEq

/-- The events, and the ids of what they refer to. -/
structure EventDb where
  workspace : List String
  actor : List String
  session : List String
  agentEvent : Table EventRow.id

namespace EventDb

/-- The references of an event, where these are the ids of the events. -/
def references (db : EventDb) (ids : List String) (e : EventRow) : Bool :=
  db.workspace.contains e.workspaceId && db.actor.contains e.actorId && e.sessionId.all db.session.contains &&
    e.parentEventId.all ids.contains

def ids (db : EventDb) : List String := db.agentEvent.rows.map EventRow.id

/-- `INSERT OR IGNORE`, for which a dangling reference is an error all the same. -/
def insertOrIgnore (db : EventDb) (e : EventRow) : Option EventDb :=
  match db.agentEvent.insert? e with
  | none => some db
  | some t => if db.references (t.rows.map EventRow.id) e then some { db with agentEvent := t } else none

/-- A database with the same workspaces, actors and sessions. -/
def fresh (db : EventDb) : EventDb := { db with agentEvent := .empty }

end EventDb

/-! ### Export -/

def optional : Option String → Value
  | some s => .string s
  | none => .null

/-- The object of a row; a map keeps its keys in order. -/
def rowToJson (e : EventRow) : Value :=
  let secret : Bool := e.sensitivity = "secret"
  .object
    [("actor_id", .string e.actorId), ("causality_kind", .string e.causalityKind), ("created_at", .string e.createdAt),
      ("event_hash", .string e.eventHash), ("event_type", .string e.eventType), ("id", .string e.id),
      ("parent_event_id", optional e.parentEventId), ("payload_hash", .string e.payloadHash),
      ("payload_inline", if secret then .string "<redacted: secret>" else optional e.payloadInline),
      ("payload_ref", if secret then .null else optional e.payloadRef), ("sensitivity", .string e.sensitivity),
      ("session_id", optional e.sessionId), ("workspace_id", .string e.workspaceId)]

/-- `SELECT .. FROM agent_event ORDER BY id ASC`, of one session if it is named. -/
def exported (db : EventDb) (session : Option String) : List EventRow :=
  (db.agentEvent.rows.filter fun e => session.all fun sid => e.sessionId = some sid).insertionSort
    fun a b => a.id ≤ b.id

variable (X : Crates)

/-- The NDJSON file. -/
def runExport (db : EventDb) (session : Option String) : List Char :=
  (exported db session).flatMap fun e => (rowToJson e).print X.formatF64 ++ ['\n']

/-! ### Import -/

inductive ImportError where
  | badJson (line : Nat)
  | eventsExist (id : String)
  | foreignKey
deriving DecidableEq

/-- The records of the lines, of which the first has the number `n`; empty ones are passed over. -/
def readRecords (n : Nat) : List (List Char) → Except ImportError (List Value)
  | [] => .ok []
  | line :: rest =>
    let trimmed := trim line
    if trimmed.isEmpty then readRecords (n + 1) rest
    else match X.fromStr (String.ofList trimmed) with
      | none => .error (.badJson n)
      | some v => (readRecords (n + 1) rest).map (v :: ·)

def textOr (v : Value) (key default : String) : String := ((v.get key).bind Value.asStr).getD default

def textOf (v : Value) (key : String) : Option String := (v.get key).bind Value.asStr

/-- What is bound in the insertion of a record. -/
def rowOfRecord (v : Value) : EventRow where
  id := textOr v "id" ""
  workspaceId := textOr v "workspace_id" ""
  actorId := textOr v "actor_id" ""
  sessionId := textOf v "session_id"
  parentEventId := textOf v "parent_event_id"
  eventType := textOr v "event_type" ""
  causalityKind := textOr v "causality_kind" "audit"
  sensitivity := textOr v "sensitivity" "low"
  payloadInline := textOf v "payload_inline"
  payloadRef := textOf v "payload_ref"
  payloadHash := textOr v "payload_hash" ""
  eventHash := textOr v "event_hash" ""
  createdAt := textOr v "created_at" ""
  rest := {}

/-- The run or session that a record is of. -/
def runId (v : Value) : Option String := (textOf v "workflow_run_id").or (textOf v "session_id")

def insertAll (db : EventDb) : List EventRow → EventDb × Option ImportError
  | [] => (db, none)
  | e :: rest => match db.insertOrIgnore e with
    | none => (db, some .foreignKey)
    | some db' => insertAll db' rest

/-- The database after the import, and the error that ended it. -/
def runImport (db : EventDb) (file : List Char) : EventDb × Option ImportError :=
  match readRecords X 1 (file.splitOnP (· = '\n')) with
  | .error e => (db, some e)
  | .ok records =>
    match (records.filterMap runId).find? fun id => db.agentEvent.rows.any fun e => e.sessionId = some id with
    | some id => (db, some (.eventsExist id))
    | none => insertAll db (records.map rowOfRecord)

/-! ### The round trip -/

/-- The import of what was exported, into a database with the same workspaces, actors and sessions, ends without error and restores every event that is not secret. -/
def RoundTrips (db : EventDb) (session : Option String) : Prop :=
  let imported := runImport X db.fresh (runExport X db session)
  imported.2 = none ∧ ∀ e ∈ exported db session, e.sensitivity ≠ "secret" → e ∈ imported.1.agentEvent

/-- What is imported can refer to what it did, and its parent comes before it; and what is not secret has nothing in the columns that are left out. -/
structure Portable (db : EventDb) (session : Option String) : Prop where
  references : ∀ e ∈ exported db session, db.references
    (((exported db session).filter fun f => f.id ≤ e.id).map EventRow.id) e = true
  complete : ∀ e ∈ exported db session, e.sensitivity ≠ "secret" → e.rest = {}

/-- The parser reads the objects of these rows as they were printed. -/
def ReadsBack (db : EventDb) (session : Option String) : Prop :=
  ∀ e ∈ exported db session, X.fromStr ((rowToJson e).toText X) = some (rowToJson e)

/-! ### Lines -/

section Lines

theorem hexDigit_ne_newline {n : Nat} (h : n < 16) : Value.hexDigit n ≠ '\n' := by
  have hall : ∀ m < 16, Value.hexDigit m ≠ '\n' := by decide
  exact hall n h

theorem newline_notMem_escapeChar (c : Char) : '\n' ∉ Value.escapeChar c := by
  unfold Value.escapeChar
  split_ifs with _ _ _ _ hten _ _ hsmall
  all_goals try decide
  · have hhigh : c.toNat / 16 < 16 := by omega
    have hlow : c.toNat % 16 < 16 := Nat.mod_lt _ (by decide)
    simp only [List.mem_cons, List.not_mem_nil, or_false, not_or]
    exact ⟨by decide, by decide, by decide, by decide, (hexDigit_ne_newline hhigh).symm, (hexDigit_ne_newline hlow).symm⟩
  · rw [List.mem_singleton]
    rintro rfl
    exact hten rfl

theorem newline_notMem_quote (s : String) : '\n' ∉ Value.quote s := by
  rw [Value.quote]
  simp only [List.cons_append, List.mem_cons, List.mem_append, List.mem_flatMap, List.not_mem_nil, or_false, not_or,
    not_exists, not_and]
  exact ⟨by decide, fun c _ => newline_notMem_escapeChar c, by decide⟩

/-- A string or `null`. -/
def IsText (v : Value) : Prop := v = .null ∨ ∃ s, v = .string s

variable {X : Crates}

theorem newline_notMem_text {v : Value} (h : IsText v) : '\n' ∉ v.print X.formatF64 := by
  obtain rfl | ⟨s, rfl⟩ := h
  · rw [Value.print]
    decide
  · rw [Value.print]
    exact newline_notMem_quote s

theorem newline_notMem_entries {entries : List (String × Value)} (h : ∀ e ∈ entries, IsText e.2) :
    '\n' ∉ Value.printEntries X.formatF64 entries := by
  induction entries with
  | nil => simp [Value.printEntries]
  | cons e rest ih =>
    obtain ⟨key, v⟩ := e
    have hv := newline_notMem_text (X := X) (h _ List.mem_cons_self)
    have hrest := ih fun e he => h e (List.mem_cons_of_mem _ he)
    have hkey := newline_notMem_quote key
    cases rest with
    | nil =>
      rw [Value.printEntries]
      simp [hkey, hv]
    | cons e rest =>
      rw [Value.printEntries]
      simp [hkey, hv, hrest]

/-- An object of texts is one line, which is trimmed to itself. -/
theorem line_of_object {entries : List (String × Value)} (h : ∀ e ∈ entries, IsText e.2) :
    (∀ c ∈ (Value.object entries).print X.formatF64, decide (c = '\n') = false) ∧
      trim ((Value.object entries).print X.formatF64) = (Value.object entries).print X.formatF64 ∧
      ((Value.object entries).print X.formatF64).isEmpty = false := by
  have hprint : (Value.object entries).print X.formatF64 =
      '\x7b' :: (Value.printEntries X.formatF64 entries ++ ['\x7d']) := by
    rw [Value.print]
    rfl
  have hbody := newline_notMem_entries (X := X) h
  refine ⟨fun c hc => ?_, ?_, by rw [hprint]; rfl⟩
  · rw [decide_eq_false_iff_not]
    rintro rfl
    rw [hprint] at hc
    simp [hbody] at hc
  · exact Words.trim_eq_self hprint (hprint.trans (List.cons_append ..).symm) (by decide) (by decide)

theorem isText_optional (o : Option String) : IsText (optional o) := by
  cases o with
  | none => exact .inl rfl
  | some s => exact .inr ⟨s, rfl⟩

theorem rowToJson_texts (e : EventRow) : ∃ entries, rowToJson e = .object entries ∧ ∀ p ∈ entries, IsText p.2 := by
  refine ⟨_, rfl, ?_⟩
  have htext (s : String) : IsText (.string s) := .inr ⟨s, rfl⟩
  have hnull : IsText .null := .inl rfl
  intro p hp
  simp only [List.mem_cons, List.not_mem_nil, or_false] at hp
  obtain rfl | rfl | rfl | rfl | rfl | rfl | rfl | rfl | rfl | rfl | rfl | rfl | rfl := hp
  all_goals first | exact htext _ | exact isText_optional _ | skip
  · dsimp only
    split
    · exact htext _
    · exact isText_optional _
  · dsimp only
    split
    · exact hnull
    · exact isText_optional _

/-- The file is read as the objects it was written from. -/
theorem readRecords_file {rows : List EventRow} (h : ∀ e ∈ rows, X.fromStr ((rowToJson e).toText X) = some (rowToJson e))
    (n : Nat) :
    readRecords X n ((rows.flatMap fun e => (rowToJson e).print X.formatF64 ++ ['\n']).splitOnP (· = '\n')) =
      .ok (rows.map rowToJson) := by
  induction rows generalizing n with
  | nil => rfl
  | cons e rest ih =>
    obtain ⟨entries, hobject, htexts⟩ := rowToJson_texts e
    obtain ⟨hline, htrim, hfull⟩ := line_of_object (X := X) htexts
    have hread : X.fromStr (String.ofList ((rowToJson e).print X.formatF64)) = some (rowToJson e) :=
      h e List.mem_cons_self
    have hrest := ih (fun e he => h e (List.mem_cons_of_mem _ he)) (n + 1)
    rw [← hobject] at hline htrim hfull
    rw [List.flatMap_cons, List.append_assoc, List.singleton_append,
      List.splitOnP_append_cons_of_forall_mem hline '\n' (by decide), readRecords, htrim]
    simp only [hfull, Bool.false_eq_true, if_false, hread, hrest]
    rfl

end Lines

/-! ### Rows and records -/

/-- The row that is inserted for an exported one. -/
def received (e : EventRow) : EventRow :=
  { e with
    payloadInline := if e.sensitivity = "secret" then some "<redacted: secret>" else e.payloadInline
    payloadRef := if e.sensitivity = "secret" then none else e.payloadRef
    rest := {} }

section Records

variable {db : EventDb} {session : Option String} {e : EventRow} {ids : List String}

theorem asStr_optional (o : Option String) : (optional o).asStr = o := by
  cases o <;> rfl

/-- A row is read back from its object, but for what is not exported. -/
theorem rowOfRecord_rowToJson (e : EventRow) : rowOfRecord (rowToJson e) = received e := by
  have hstring (t : String) : (Value.string t).asStr = some t := rfl
  have hnull : Value.null.asStr = none := rfl
  by_cases hsecret : e.sensitivity = "secret"
  · simp [rowOfRecord, rowToJson, received, textOr, textOf, Value.get, asStr_optional, hsecret, hstring, hnull]
  · simp [rowOfRecord, rowToJson, received, textOr, textOf, Value.get, asStr_optional, hsecret, hstring]

@[simp] theorem received_id (e : EventRow) : (received e).id = e.id := rfl

@[simp] theorem references_received : db.references ids (received e) = db.references ids e := rfl

/-- What is not secret is received as it was, if nothing is left out of it. -/
theorem received_eq_self_iff (h : e.sensitivity ≠ "secret") : received e = e ↔ e.rest = {} := by
  constructor
  · intro heq
    rw [← heq]
    rfl
  · intro hrest
    rw [received, if_neg h, if_neg h, ← hrest]

end Records

/-! ### Insertions -/

section Insertions

variable {db : EventDb} {rows : List EventRow}

/-- Every row refers to rows of the database, those before it and itself. -/
def Admissible (db : EventDb) : List String → List EventRow → Prop
  | _, [] => True
  | ids, e :: rest => db.references (ids ++ [e.id]) e = true ∧ Admissible db (ids ++ [e.id]) rest

theorem admissible_iff {ids : List String} :
    Admissible db ids rows ↔
      ∀ pre e post, rows = pre ++ e :: post → db.references (ids ++ pre.map EventRow.id ++ [e.id]) e = true := by
  induction rows generalizing ids with
  | nil => simp [Admissible]
  | cons e rest ih =>
    rw [Admissible, ih]
    constructor
    · rintro ⟨hfirst, hrest⟩ pre f post hsplit
      cases pre with
      | nil =>
        obtain ⟨rfl, rfl⟩ := List.cons.inj hsplit
        simpa using hfirst
      | cons g pre =>
        obtain ⟨rfl, rfl⟩ := List.cons.inj hsplit
        simpa using hrest pre f post rfl
    · intro h
      refine ⟨by simpa using h [] e rest rfl, fun pre f post hsplit => ?_⟩
      simpa using h (e :: pre) f post (by rw [hsplit, List.cons_append])

theorem admissible_withEvents {t : Table EventRow.id} {ids : List String} :
    Admissible { db with agentEvent := t } ids rows ↔ Admissible db ids rows := by
  induction rows generalizing ids with
  | nil => exact Iff.rfl
  | cons e rest ih => exact and_congr Iff.rfl ih

theorem admissible_received {ids : List String} :
    Admissible db ids (rows.map received) ↔ Admissible db ids rows := by
  induction rows generalizing ids with
  | nil => exact Iff.rfl
  | cons e rest ih => exact and_congr Iff.rfl ih

/-- New rows are all inserted, if each refers to what is there. -/
theorem insertAll_ok (hnodup : (db.ids ++ rows.map EventRow.id).Nodup) :
    ((insertAll db rows).2 = none ↔ Admissible db db.ids rows) ∧
      ((insertAll db rows).2 = none → (insertAll db rows).1.agentEvent.rows = db.agentEvent.rows ++ rows) := by
  induction rows generalizing db with
  | nil => exact ⟨⟨fun _ => trivial, fun _ => rfl⟩, fun _ => (List.append_nil _).symm⟩
  | cons e rest ih =>
    have hnew : db.agentEvent.contains e.id = false := by
      rw [Table.contains_eq_false]
      intro f hf heq
      rw [List.map_cons, List.nodup_append] at hnodup
      exact hnodup.2.2 _ (List.mem_map_of_mem hf) _ List.mem_cons_self heq
    obtain ⟨t, ht⟩ : ∃ t, db.agentEvent.insert? e = some t := by
      cases hins : db.agentEvent.insert? e with
      | none =>
        rw [Table.insert?_eq_none, hnew] at hins
        cases hins
      | some t => exact ⟨t, rfl⟩
    have hrows := (Table.insert?_eq_some.mp ht).2
    have hids : t.rows.map EventRow.id = db.ids ++ [e.id] := by
      rw [hrows, List.map_append]
      rfl
    by_cases href : db.references (db.ids ++ [e.id]) e = true
    · have hinsert : db.insertOrIgnore e = some { db with agentEvent := t } := by
        rw [EventDb.insertOrIgnore, ht]
        dsimp only
        rw [hids, if_pos href]
      have hrest : (EventDb.ids { db with agentEvent := t } ++ rest.map EventRow.id).Nodup := by
        rw [EventDb.ids, hids, List.append_assoc]
        exact hnodup
      obtain ⟨hiff, hall⟩ := ih hrest
      rw [insertAll, hinsert]
      dsimp only
      refine ⟨?_, fun hnone => ?_⟩
      · rw [hiff, Admissible, EventDb.ids, hids, admissible_withEvents]
        exact ⟨fun h => ⟨href, h⟩, fun h => h.2⟩
      · rw [hall hnone, hrows, List.append_assoc]
        rfl
    · have hinsert : db.insertOrIgnore e = none := by
        rw [EventDb.insertOrIgnore, ht]
        dsimp only
        rw [hids, if_neg href]
      rw [insertAll, hinsert]
      have hfails : ¬ (some ImportError.foreignKey = none) := by simp
      exact ⟨⟨fun h => absurd h hfails, fun h => absurd h.1 href⟩, fun h => absurd h hfails⟩

end Insertions

/-! ### The round trip of events -/

section RoundTrip

variable {db : EventDb} {session : Option String} {X : Crates}

theorem exported_nodup (db : EventDb) (session : Option String) : ((exported db session).map EventRow.id).Nodup := by
  have hperm : (exported db session).Perm
      (db.agentEvent.rows.filter fun e => session.all fun sid => e.sessionId = some sid) := List.perm_insertionSort _ _
  rw [(hperm.map EventRow.id).nodup_iff]
  exact db.agentEvent.keysNodup.sublist (List.filter_sublist.map _)

theorem exported_sorted (db : EventDb) (session : Option String) :
    (exported db session).Pairwise fun a b => a.id ≤ b.id := List.pairwise_insertionSort _ _

/-- What comes before a row in the file are the rows with lesser ids. -/
theorem mem_before_iff {pre post : List EventRow} {e : EventRow} (hsplit : exported db session = pre ++ e :: post)
    (id : String) : id ∈ pre.map EventRow.id ++ [e.id] ↔
      id ∈ ((exported db session).filter fun f => f.id ≤ e.id).map EventRow.id := by
  have hsorted := exported_sorted db session
  have hnodup := exported_nodup db session
  rw [hsplit] at hsorted hnodup ⊢
  rw [List.pairwise_append] at hsorted
  have hpre : pre.filter (fun f => f.id ≤ e.id) = pre := by
    rw [List.filter_eq_self]
    exact fun f hf => decide_eq_true (hsorted.2.2 f hf e List.mem_cons_self)
  have hpost : post.filter (fun f => f.id ≤ e.id) = [] := by
    rw [List.filter_eq_nil_iff]
    intro f hf hle
    have hge := (List.pairwise_cons.mp hsorted.2.1).1 f hf
    have hsame : f.id = e.id := le_antisymm (of_decide_eq_true hle) hge
    rw [List.map_append, List.map_cons, List.nodup_append] at hnodup
    exact (List.nodup_cons.mp hnodup.2.1).1 (hsame ▸ List.mem_map_of_mem hf)
  rw [List.filter_append, List.filter_cons_of_pos (by simp), hpre, hpost, List.map_append]
  simp

theorem references_congr {ids ids' : List String} (e : EventRow) (h : ∀ id, id ∈ ids ↔ id ∈ ids') :
    db.references ids e = db.references ids' e := by
  have hcontains : ids.contains = ids'.contains := by
    funext id
    rw [Bool.eq_iff_iff, List.contains_iff_mem, List.contains_iff_mem]
    exact h id
  rw [EventDb.references, EventDb.references, hcontains]

/-- The import of an exported file inserts the rows as they are received. -/
theorem runImport_exported (hreads : ReadsBack X db session) :
    runImport X db.fresh (runExport X db session) = insertAll db.fresh ((exported db session).map received) := by
  have hread := readRecords_file hreads 1
  rw [runImport, runExport, hread]
  have hnone : (((exported db session).map rowToJson).filterMap runId).find?
      (fun id => db.fresh.agentEvent.rows.any fun e => e.sessionId = some id) = none := by
    rw [List.find?_eq_none]
    intro id _
    simp [EventDb.fresh]
  dsimp only
  have hrows : (exported db session).map (rowOfRecord ∘ rowToJson) = (exported db session).map received :=
    List.map_congr_left fun e _ => rowOfRecord_rowToJson e
  rw [hnone, List.map_map, hrows]

theorem received_ids (db : EventDb) (session : Option String) :
    ((exported db session).map received).map EventRow.id = (exported db session).map EventRow.id := by
  rw [List.map_map]
  rfl

/-- An empty database meets no id of the file twice. -/
theorem fresh_nodup (db : EventDb) (session : Option String) :
    (db.fresh.ids ++ ((exported db session).map received).map EventRow.id).Nodup := by
  rw [received_ids]
  exact exported_nodup db session

/-- Nothing is refused where each row refers to rows before it in the file. -/
theorem insertAll_accepts_iff : (insertAll db.fresh ((exported db session).map received)).2 = none ↔
    ∀ e ∈ exported db session,
      db.references (((exported db session).filter fun f => f.id ≤ e.id).map EventRow.id) e = true := by
  rw [(insertAll_ok (fresh_nodup db session)).1, admissible_received]
  show Admissible { db with agentEvent := .empty } [] _ ↔ _
  rw [admissible_withEvents, admissible_iff]
  constructor
  · intro h e he
    obtain ⟨pre, post, hsplit⟩ := List.append_of_mem he
    rw [← references_congr e (mem_before_iff hsplit)]
    exact h pre e post hsplit
  · intro h pre e post hsplit
    rw [List.nil_append, references_congr e (mem_before_iff hsplit)]
    exact h e (by rw [hsplit]; simp)

/-- A row is received as it was where it has nothing that is not exported. -/
theorem mem_received_iff {e : EventRow} (he : e ∈ exported db session) (hsecret : e.sensitivity ≠ "secret") :
    e ∈ (exported db session).map received ↔ e.rest = {} := by
  rw [← received_eq_self_iff hsecret, List.mem_map]
  constructor
  · rintro ⟨f, hf, heq⟩
    have hsame : f = e := List.inj_on_of_nodup_map (exported_nodup db session) hf he (by rw [← heq]; rfl)
    rw [← hsame, heq, hsame]
  · exact fun heq => ⟨e, he, heq⟩

/-- **The round trip** of a database is exact where nothing else than what is exported is set, and parents sort before their children. -/
theorem roundTrips_iff (X : Crates) (db : EventDb) (session : Option String) (hreads : ReadsBack X db session) :
    RoundTrips X db session ↔ Portable db session := by
  have hrows := (insertAll_ok (fresh_nodup db session)).2
  rw [RoundTrips, runImport_exported hreads]
  constructor
  · rintro ⟨hok, hall⟩
    refine ⟨insertAll_accepts_iff.mp hok, fun e he hsecret => (mem_received_iff he hsecret).mp ?_⟩
    have hin := hall e he hsecret
    rwa [Table.mem_iff, hrows hok] at hin
  · intro h
    have hok := insertAll_accepts_iff.mpr h.references
    refine ⟨hok, fun e he hsecret => ?_⟩
    rw [Table.mem_iff, hrows hok]
    exact (mem_received_iff he hsecret).mpr (h.complete e he hsecret)

end RoundTrip

def sampleEvent (id : String) (parent command : Option String) : EventRow :=
  ⟨id, "ws", "act", none, parent, "user_message", "observation", "low", some "hi", none, "h", "c",
    "2026-01-01T00:00:00Z", { commandId := command }⟩

/-- Two events, of which the second has the first for its parent. -/
def sampleDb (command : Option String) : EventDb :=
  ⟨["ws"], ["act"], [], ⟨[sampleEvent "evt_1" none none, sampleEvent "evt_2" (some "evt_1") command],
    by simp [sampleEvent]⟩⟩

/-- A parser that knows the objects of these two events. -/
def sampleFromStr (command : Option String) (text : String) : Option Value :=
  if text = (rowToJson (sampleEvent "evt_1" none none)).toText Crates.sample then
    some (rowToJson (sampleEvent "evt_1" none none))
  else if text = (rowToJson (sampleEvent "evt_2" (some "evt_1") command)).toText Crates.sample then
    some (rowToJson (sampleEvent "evt_2" (some "evt_1") command))
  else none

def sampleCrates (command : Option String) : Crates := { Crates.sample with fromStr := sampleFromStr command }

theorem exported_sample (command : Option String) : exported (sampleDb command) none =
    [sampleEvent "evt_1" none none, sampleEvent "evt_2" (some "evt_1") command] := by
  have hle : ("evt_1" : String) ≤ "evt_2" := by decide
  simp [exported, sampleDb, sampleEvent, hle]

theorem readsBack_sample (command : Option String) : ReadsBack (sampleCrates command) (sampleDb command) none := by
  intro e he
  have hformat : (sampleCrates command).formatF64 = fun _ => "0.5" := rfl
  have hsample : Crates.sample.formatF64 = fun _ => "0.5" := rfl
  have htext (v : Value) : v.toText (sampleCrates command) = v.toText Crates.sample := by
    rw [Value.toText, Value.toText, hformat, hsample]
  rw [exported_sample] at he
  have hparse (text : String) : (sampleCrates command).fromStr text = sampleFromStr command text := by
    simp only [sampleCrates]
  rw [htext, hparse, sampleFromStr]
  simp only [List.mem_cons, List.not_mem_nil, or_false] at he
  obtain rfl | rfl := he
  · rw [if_pos rfl]
  · have hother : (rowToJson (sampleEvent "evt_2" (some "evt_1") command)).toText Crates.sample ≠
        (rowToJson (sampleEvent "evt_1" none none)).toText Crates.sample := by
      show (rowToJson (sampleEvent "evt_2" (some "evt_1") none)).toText Crates.sample ≠ _
      rw [Ne, Value.toText, Value.toText, String.ofList_inj]
      decide +kernel
    rw [if_neg hother, if_pos rfl]

theorem roundTrips_sample : RoundTrips (sampleCrates none) (sampleDb none) none :=
  (roundTrips_iff _ _ _ (readsBack_sample none)).mpr ⟨by decide, by decide⟩

/-- An event that a command has recorded comes back without its `command_id`. -/
theorem command_lost : ∃ X db, ReadsBack X db none ∧ ¬ RoundTrips X db none := by
  refine ⟨sampleCrates (some "cmd_1"), sampleDb (some "cmd_1"), readsBack_sample _, fun h => ?_⟩
  have hsecond : sampleEvent "evt_2" (some "evt_1") (some "cmd_1") ∈ exported (sampleDb (some "cmd_1")) none := by
    rw [exported_sample]
    simp
  have hrestored := h.2 _ hsecond (by decide)
  rw [runImport_exported (readsBack_sample _), exported_sample] at hrestored
  exact absurd hrestored (by decide)

end ExportImport

end ActantDb
