import ActantDb.Cli.ExportImport
import ActantDb.Core.Model
import ActantDb.Ledger.Canonical

/-!
# What an export shows

The three formats of `actantdb export` are written from the same objects. The payload of an event is blotted out where its sensitivity is the text `secret`; its hashes are written as they are, and so is the payload of an event that is `regulated`, which ranks higher.
-/

namespace ActantDb

/-! ### Indented text -/

namespace Value

/-- The line break and the indentation before an item. -/
def indented (depth : Nat) : List Char := '\n' :: List.replicate (2 * depth) ' '

mutual

/-- `serde_json::to_string_pretty`. -/
def pretty (formatF64 : F64 → String) (depth : Nat) : Value → List Char
  | .array [] => "[]".toList
  | .array (v :: rest) =>
    '[' :: indented (depth + 1) ++ prettyItems formatF64 (depth + 1) (v :: rest) ++ indented depth ++ [']']
  | .object [] => "\x7b\x7d".toList
  | .object (e :: rest) =>
    '\x7b' :: indented (depth + 1) ++ prettyEntries formatF64 (depth + 1) (e :: rest) ++ indented depth ++ ['\x7d']
  | .null => print formatF64 .null
  | .bool b => print formatF64 (.bool b)
  | .number n => print formatF64 (.number n)
  | .string s => print formatF64 (.string s)

def prettyItems (formatF64 : F64 → String) (depth : Nat) : List Value → List Char
  | [] => []
  | [v] => pretty formatF64 depth v
  | v :: w :: rest =>
    pretty formatF64 depth v ++ ',' :: indented depth ++ prettyItems formatF64 depth (w :: rest)

def prettyEntries (formatF64 : F64 → String) (depth : Nat) : List (String × Value) → List Char
  | [] => []
  | [(key, v)] => quote key ++ ": ".toList ++ pretty formatF64 depth v
  | (key, v) :: e :: rest =>
    quote key ++ ": ".toList ++ pretty formatF64 depth v ++ ',' :: indented depth ++
      prettyEntries formatF64 depth (e :: rest)

end

end Value

namespace ExportImport

/-! ### The formats -/

inductive ExportFormat where
  | json | ndjson | csv
deriving DecidableEq

/-- A field is quoted where it has to be. -/
def csv (s : List Char) : List Char :=
  if ',' ∈ s ∨ '"' ∈ s ∨ '\n' ∈ s then '"' :: s.flatMap (fun c => if c = '"' then ['"', '"'] else [c]) ++ ['"']
  else s

/-- The columns of a line of CSV. -/
def csvColumns : List String :=
  ["id", "created_at", "event_type", "actor_id", "session_id", "sensitivity", "payload_inline"]

def csvHeader : String := "id,created_at,event_type,actor_id,session_id,sensitivity,payload\n"

def csvLine (obj : Value) : List Char :=
  [','].intercalate (csvColumns.map fun column => csv (textOr obj column "").toList) ++ ['\n']

variable (X : Crates)

/-- What `run_export` writes. -/
def runExportAs (format : ExportFormat) (db : EventDb) (session : Option String) : List Char :=
  match format with
  | .ndjson => runExport X db session
  | .json => (Value.array ((exported db session).map rowToJson)).pretty X.formatF64 0 ++ ['\n']
  | .csv => csvHeader.toList ++ ((exported db session).map rowToJson).flatMap csvLine

/-! ### Databases that differ in what is secret -/

/-- How a column of the database is read as a sensitivity; other texts are `low`. -/
def sensitivityOf (text : String) : Sensitivity :=
  if text = "public" then .«public»
  else if text = "medium" then .medium
  else if text = "high" then .high
  else if text = "secret" then .secret
  else if text = "regulated" then .regulated
  else .low

/-- The same event, but for the payload and the hashes where it ranks at or above `secret`. -/
def SecretlyOther (e e' : EventRow) : Prop :=
  e' = { e with
    payloadInline := e'.payloadInline, payloadRef := e'.payloadRef, payloadHash := e'.payloadHash,
    eventHash := e'.eventHash } ∧
    ((sensitivityOf e.sensitivity).rank < Sensitivity.secret.rank → e' = e)

/-- The events of two databases are the same, one by one, but for what is secret. -/
structure DifferInSecrets (db db' : EventDb) : Prop where
  workspace : db'.workspace = db.workspace
  actor : db'.actor = db.actor
  session : db'.session = db.session
  events : List.Forall₂ SecretlyOther db.agentEvent.rows db'.agentEvent.rows

/-- What is written of the two events is the same: the hashes, and the payload of what is not `secret` by that name. -/
structure Concealed (e e' : EventRow) : Prop where
  payloadHash : e.payloadHash = e'.payloadHash
  eventHash : e.eventHash = e'.eventHash
  payload : e.sensitivity ≠ "secret" → e.payloadInline = e'.payloadInline ∧ e.payloadRef = e'.payloadRef

section Rows

variable {X} {e e' : EventRow}

theorem SecretlyOther.columns (h : SecretlyOther e e') :
    e'.id = e.id ∧ e'.workspaceId = e.workspaceId ∧ e'.actorId = e.actorId ∧ e'.sessionId = e.sessionId ∧
      e'.parentEventId = e.parentEventId ∧ e'.eventType = e.eventType ∧ e'.causalityKind = e.causalityKind ∧
      e'.sensitivity = e.sensitivity ∧ e'.createdAt = e.createdAt := by
  rw [h.1]
  exact ⟨rfl, rfl, rfl, rfl, rfl, rfl, rfl, rfl, rfl⟩

theorem optional_inj {o o' : Option String} (h : optional o = optional o') : o = o' := by
  rw [← asStr_optional o, h, asStr_optional]

theorem rowToJson_eq_iff (h : SecretlyOther e e') : rowToJson e = rowToJson e' ↔ Concealed e e' := by
  obtain ⟨hid, hws, hactor, hsession, hparent, htype, hkind, hsens, hcreated⟩ := h.columns
  constructor
  · intro heq
    simp only [rowToJson, Value.object.injEq, List.cons.injEq, Prod.mk.injEq, Value.string.injEq, true_and,
      and_true] at heq
    obtain ⟨-, -, -, hevent, -, -, -, hpayload, hinline, href, -⟩ := heq
    refine ⟨hpayload, hevent, fun hsecret => ?_⟩
    rw [hsens] at hinline href
    simp only [hsecret, decide_false, Bool.false_eq_true, if_false] at hinline href
    exact ⟨optional_inj hinline, optional_inj href⟩
  · intro hsame
    rw [rowToJson, rowToJson, hid, hws, hactor, hsession, hparent, htype, hkind, hsens, hcreated,
      hsame.payloadHash, hsame.eventHash]
    by_cases hsecret : e.sensitivity = "secret"
    · simp [hsecret]
    · rw [(hsame.payload hsecret).1, (hsame.payload hsecret).2]

/-- The texts of two objects of rows are different where the objects are. -/
theorem print_rowToJson_inj
    (h : (rowToJson e).print X.formatF64 = (rowToJson e').print X.formatF64) : rowToJson e = rowToJson e' := by
  have hjson : ∀ e : EventRow, ∃ j : Json, rowToJson e = j.toValue := by
    intro e
    have htext : ∀ v, IsText v → ∃ j : Json, v = j.toValue := by
      rintro v (rfl | ⟨s, rfl⟩)
      · exact ⟨.null, rfl⟩
      · exact ⟨.string s, rfl⟩
    obtain ⟨entries, hobject, htexts⟩ := rowToJson_texts e
    rw [hobject]
    clear hobject
    have hentries : ∃ js : List (String × Json), entries = Json.toValueEntries js := by
      induction entries with
      | nil => exact ⟨[], rfl⟩
      | cons p rest ih =>
        obtain ⟨js, rfl⟩ := ih fun q hq => htexts q (List.mem_cons_of_mem _ hq)
        obtain ⟨j, hj⟩ := htext p.2 (htexts p List.mem_cons_self)
        exact ⟨(p.1, j) :: js, by rw [Json.toValueEntries, ← hj]⟩
    obtain ⟨js, rfl⟩ := hentries
    exact ⟨.object js, rfl⟩
  obtain ⟨j, hj⟩ := hjson e
  obtain ⟨j', hj'⟩ := hjson e'
  rw [hj, hj', Json.print_toValue, Json.print_toValue, Json.text_inj] at h
  rw [hj, hj', h]

end Rows

/-! ### The lists of rows -/

section Lists

variable {X} {db db' : EventDb} {session : Option String} {es es' : List EventRow}

/-- The rows of the two databases that are exported, each beside the other. -/
def exportedPairs (session : Option String) (pairs : List (EventRow × EventRow)) : List (EventRow × EventRow) :=
  (pairs.filter fun p => session.all fun sid => p.1.sessionId = some sid).insertionSort
    fun p q => p.1.id ≤ q.1.id

theorem map_exportedPairs (session : Option String) {pairs : List (EventRow × EventRow)}
    (f : EventRow × EventRow → EventRow) (hf : ∀ p ∈ pairs, SecretlyOther p.1 (f p))
    (hrows : db.agentEvent.rows = pairs.map f) :
    exported db session = (exportedPairs session pairs).map f := by
  have hselected : (pairs.map f).filter (fun e => session.all fun sid => e.sessionId = some sid) =
      (pairs.filter fun p => session.all fun sid => p.1.sessionId = some sid).map f := by
    rw [List.filter_map]
    congr 1
    refine List.filter_congr fun p hp => ?_
    rw [Function.comp_apply, (hf p hp).columns.2.2.2.1]
  rw [exported, hrows, hselected, exportedPairs]
  symm
  apply List.map_insertionSort
  intro p hp q hq
  rw [(hf p (List.mem_filter.mp hp).1).columns.1, (hf q (List.mem_filter.mp hq).1).columns.1]

theorem forall₂_map_iff {α β γ : Type} {R : β → γ → Prop} {f : α → β} {g : α → γ} {as : List α} :
    List.Forall₂ R (as.map f) (as.map g) ↔ ∀ a ∈ as, R (f a) (g a) := by
  rw [List.forall₂_map_left_iff, List.forall₂_map_right_iff, List.forall₂_same]

/-- The lines of a file tell its objects. -/
theorem runExport_inj (h : runExport X db session = runExport X db' session) :
    (exported db session).map rowToJson = (exported db' session).map rowToJson := by
  have hlines : ∀ es : List EventRow,
      (es.flatMap fun e => (rowToJson e).print X.formatF64 ++ ['\n']).splitOnP (· = '\n') =
        es.map (fun e => (rowToJson e).print X.formatF64) ++ [[]] := by
    intro es
    induction es with
    | nil => rfl
    | cons e rest ih =>
      obtain ⟨entries, hobject, htexts⟩ := rowToJson_texts e
      have hline := (line_of_object (X := X) htexts).1
      rw [← hobject] at hline
      rw [List.flatMap_cons, List.append_assoc, List.singleton_append,
        List.splitOnP_append_cons_of_forall_mem hline '\n' (by decide), ih, List.map_cons, List.cons_append]
  have hprinted := congrArg (List.splitOnP (· = '\n')) h
  rw [runExport, runExport, hlines, hlines, List.append_left_inj] at hprinted
  generalize exported db session = es at hprinted ⊢
  generalize exported db' session = es' at hprinted ⊢
  induction es generalizing es' with
  | nil =>
    rw [List.map_nil, eq_comm, List.map_eq_nil_iff] at hprinted
    rw [hprinted]
  | cons e rest ih =>
    cases es' with
    | nil => cases hprinted
    | cons e' rest' =>
      rw [List.map_cons, List.map_cons, List.cons.injEq] at hprinted
      rw [List.map_cons, List.map_cons, print_rowToJson_inj hprinted.1, ih _ hprinted.2]

end Lists

/-- **Two databases that differ in secrets** are exported alike, in every format, exactly where the events of the session have the same hashes and those that are secret are so by that name. -/
theorem runExportAs_eq_iff {db db' : EventDb} (h : DifferInSecrets db db') (session : Option String) :
    (∀ format, runExportAs X format db session = runExportAs X format db' session) ↔
      List.Forall₂ (fun e e' => (session.all fun sid => e.sessionId = some sid) = true → Concealed e e')
        db.agentEvent.rows db'.agentEvent.rows := by
  obtain ⟨hlength, hzip⟩ := List.forall₂_iff_zip.mp h.events
  generalize hpairs : db.agentEvent.rows.zip db'.agentEvent.rows = pairs at hzip
  have hfst : db.agentEvent.rows = pairs.map Prod.fst := by rw [← hpairs, List.map_fst_zip hlength.le]
  have hsnd : db'.agentEvent.rows = pairs.map Prod.snd := by rw [← hpairs, List.map_snd_zip hlength.ge]
  have hother : ∀ p ∈ pairs, SecretlyOther p.1 p.2 := fun p hp => hzip hp
  have hself : ∀ e, SecretlyOther e e := fun e => ⟨rfl, fun _ => rfl⟩
  have hleft := map_exportedPairs session Prod.fst (fun p _ => hself p.1) hfst
  have hright := map_exportedPairs session Prod.snd hother hsnd
  -- the formats are written from the objects, and the lines tell these apart
  have hobjects : (∀ format, runExportAs X format db session = runExportAs X format db' session) ↔
      (exported db session).map rowToJson = (exported db' session).map rowToJson := by
    refine ⟨fun hall => runExport_inj (hall .ndjson), fun hsame format => ?_⟩
    cases format with
    | ndjson =>
      have hprint := congrArg (List.flatMap fun v => v.print X.formatF64 ++ ['\n']) hsame
      rwa [List.flatMap_map, List.flatMap_map] at hprint
    | json => rw [runExportAs, runExportAs, hsame]
    | csv => rw [runExportAs, runExportAs, hsame]
  rw [hobjects, hleft, hright, List.map_map, List.map_map, List.map_inj_left, hfst, hsnd, forall₂_map_iff]
  constructor
  · intro hall p hp hselected
    have hin : p ∈ exportedPairs session pairs :=
      (List.mem_insertionSort _).mpr (List.mem_filter.mpr ⟨hp, hselected⟩)
    exact (rowToJson_eq_iff (hother p hp)).mp (hall p hin)
  · intro hall p hin
    obtain ⟨hp, hselected⟩ := List.mem_filter.mp ((List.mem_insertionSort _).mp hin)
    exact (rowToJson_eq_iff (hother p hp)).mpr (hall p hp hselected)

/-! ### A regulated event -/

/-- An event with this sensitivity and payload, of which the hash is taken. -/
def payloadEvent (sensitivity payload : String) (ref : Option String) : EventRow :=
  { sampleEvent "evt_1" none none with
    sensitivity := sensitivity
    payloadInline := some payload
    payloadRef := ref
    payloadHash := sha256Hex Crates.sample (asBytes payload) }

def payloadDb (sensitivity payload : String) (ref : Option String) : EventDb :=
  ⟨["ws"], ["act"], [], ⟨[payloadEvent sensitivity payload ref], List.nodup_singleton _⟩⟩

theorem payloadDb_differ {sensitivity : String} (h : 4 ≤ (sensitivityOf sensitivity).rank)
    (payload payload' : String) (ref ref' : Option String) :
    DifferInSecrets (payloadDb sensitivity payload ref) (payloadDb sensitivity payload' ref') := by
  refine ⟨rfl, rfl, rfl, .cons ⟨rfl, fun hlow => ?_⟩ .nil⟩
  exact absurd hlow (Nat.not_lt.mpr h)

/-- A secret event with its payload kept elsewhere too. -/
theorem runExportAs_eq_elsewhere :
    runExportAs Crates.sample .csv (payloadDb "secret" "a" none) none =
      runExportAs Crates.sample .csv (payloadDb "secret" "a" (some "blob")) none :=
  (runExportAs_eq_iff Crates.sample (payloadDb_differ (by decide) "a" "a" none (some "blob")) none).mpr
    (.cons (fun _ => ⟨rfl, rfl, fun h => absurd rfl h⟩) .nil) .csv

/-- The payload of a regulated event is written out. -/
theorem regulated_shown : ∃ db db', DifferInSecrets db db' ∧
    runExportAs Crates.sample .ndjson db none ≠ runExportAs Crates.sample .ndjson db' none := by
  have hrank : 4 ≤ (sensitivityOf "regulated").rank := by decide
  refine ⟨_, _, payloadDb_differ hrank "a" "b" none none, fun heq => ?_⟩
  have hobjects := (List.cons.inj (runExport_inj heq)).1
  have hother : SecretlyOther (payloadEvent "regulated" "a" none) (payloadEvent "regulated" "b" none) :=
    ⟨rfl, fun hlow => absurd hlow (Nat.not_lt.mpr hrank)⟩
  have hconcealed := (rowToJson_eq_iff hother).mp hobjects
  have hsame := (hconcealed.payload (by decide)).1
  revert hsame
  decide

end ExportImport

end ActantDb
