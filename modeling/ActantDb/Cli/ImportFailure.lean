import ActantDb.Cli.Redaction

/-!
# Imports that fail

The lines of a file are all read, and its sessions all looked up, before the first insertion. The insertions themselves stand each on its own: a row that refers to something the database does not have ends the import, and what was inserted before it stays.
-/

namespace ActantDb.ExportImport

variable (X : Crates)

/-- An import that ends with an error leaves nothing behind that a later import would meet. -/
structure AllOrNothing (db : EventDb) (file : List Char) : Prop where
  unchanged : (runImport X db file).2 ≠ none → (runImport X db file).1 = db
  again : (runImport X db file).2 ≠ none → ∀ file' id,
    (runImport X (runImport X db file).1 file').2 = some (.eventsExist id) →
      (runImport X db file').2 = some (.eventsExist id)

/-- Every row that is new where it stands refers to rows of the database, those before it and itself. -/
def Accepts (db : EventDb) : List String → List EventRow → Prop
  | _, [] => True
  | ids, e :: rest =>
    if e.id ∈ ids then Accepts db ids rest
    else db.references (ids ++ [e.id]) e = true ∧ Accepts db (ids ++ [e.id]) rest

/-- The first row that the database does not have is refused, if any is. -/
def RefusedAtOnce (db : EventDb) (rows : List EventRow) : Prop :=
  Accepts db db.ids rows ∨
    ∀ e, rows.find? (fun e => e.id ∉ db.ids) = some e → db.references (db.ids ++ [e.id]) e = false

section Insertions

variable {db : EventDb} {e : EventRow} {rows : List EventRow}

theorem insertOrIgnore_known (h : e.id ∈ db.ids) : db.insertOrIgnore e = some db := by
  obtain ⟨f, hf, hid⟩ := List.mem_map.mp h
  have hnone : db.agentEvent.insert? e = none :=
    Table.insert?_eq_none.mpr (Table.contains_iff.mpr ⟨f, hf, hid⟩)
  rw [EventDb.insertOrIgnore, hnone]

/-- A new row is put after the others, if what it refers to is there. -/
theorem insertOrIgnore_new (h : e.id ∉ db.ids) :
    ∃ t : Table EventRow.id, t.rows = db.agentEvent.rows ++ [e] ∧
      db.insertOrIgnore e =
        if db.references (db.ids ++ [e.id]) e then some { db with agentEvent := t } else none := by
  have hnew : db.agentEvent.contains e.id = false := by
    rw [Table.contains_eq_false]
    exact fun f hf heq => h (heq ▸ List.mem_map_of_mem hf)
  cases ht : db.agentEvent.insert? e with
  | none =>
    rw [Table.insert?_eq_none, hnew] at ht
    cases ht
  | some t =>
    have hrows := (Table.insert?_eq_some.mp ht).2
    have hids : t.rows.map EventRow.id = db.ids ++ [e.id] := by
      rw [hrows, List.map_append]
      rfl
    refine ⟨t, hrows, ?_⟩
    rw [EventDb.insertOrIgnore, ht]
    dsimp only
    rw [hids]

theorem accepts_withEvents {t : Table EventRow.id} {ids : List String} :
    Accepts { db with agentEvent := t } ids rows ↔ Accepts db ids rows := by
  induction rows generalizing ids with
  | nil => exact Iff.rfl
  | cons e rest ih =>
    rw [Accepts, Accepts]
    split
    · exact ih
    · exact and_congr Iff.rfl ih

theorem insertAll_ends_well_iff : (insertAll db rows).2 = none ↔ Accepts db db.ids rows := by
  induction rows generalizing db with
  | nil => exact iff_of_true rfl trivial
  | cons e rest ih =>
    rw [Accepts]
    by_cases hknown : e.id ∈ db.ids
    · rw [if_pos hknown, insertAll, insertOrIgnore_known hknown]
      exact ih
    · obtain ⟨t, hrows, hinsert⟩ := insertOrIgnore_new hknown
      have hids : EventDb.ids { db with agentEvent := t } = db.ids ++ [e.id] := by
        rw [EventDb.ids, hrows, List.map_append]
        rfl
      rw [if_neg hknown, insertAll, hinsert]
      by_cases href : db.references (db.ids ++ [e.id]) e = true
      · rw [if_pos href]
        dsimp only
        rw [ih, hids, accepts_withEvents]
        simp [href]
      · rw [if_neg href]
        simp [href]

/-- What was inserted stays. -/
theorem insertAll_grows : ∃ added, (insertAll db rows).1.agentEvent.rows = db.agentEvent.rows ++ added := by
  induction rows generalizing db with
  | nil => exact ⟨[], (List.append_nil _).symm⟩
  | cons e rest ih =>
    by_cases hknown : e.id ∈ db.ids
    · rw [insertAll, insertOrIgnore_known hknown]
      exact ih
    · obtain ⟨t, hrows, hinsert⟩ := insertOrIgnore_new hknown
      rw [insertAll, hinsert]
      split_ifs
      · obtain ⟨added, hadded⟩ := @ih { db with agentEvent := t }
        exact ⟨e :: added, by rw [hadded, hrows, List.append_assoc]; rfl⟩
      · exact ⟨[], (List.append_nil _).symm⟩

theorem insertAll_unchanged_iff : (insertAll db rows).1 = db ↔
    ∀ e, rows.find? (fun e => e.id ∉ db.ids) = some e → db.references (db.ids ++ [e.id]) e = false := by
  induction rows with
  | nil => exact iff_of_true rfl fun e he => by cases he
  | cons e rest ih =>
    by_cases hknown : e.id ∈ db.ids
    · rw [insertAll, insertOrIgnore_known hknown, List.find?_cons_of_neg (by simpa using hknown)]
      exact ih
    · obtain ⟨t, hrows, hinsert⟩ := insertOrIgnore_new hknown
      rw [List.find?_cons_of_pos (by simpa using hknown), insertAll, hinsert]
      simp only [Option.some.injEq, forall_eq']
      by_cases href : db.references (db.ids ++ [e.id]) e = true
      · rw [if_pos href, href]
        refine iff_of_false (fun heq => ?_) (by simp)
        obtain ⟨added, hadded⟩ := @insertAll_grows { db with agentEvent := t } rest
        dsimp only at heq hadded
        rw [heq, hrows, List.append_assoc, List.self_eq_append_right] at hadded
        cases hadded
      · rw [if_neg href]
        exact iff_of_true rfl (Bool.eq_false_of_not_eq_true href)

end Insertions

section Phases

variable {X} {db : EventDb} {file : List Char} {records : List Value}

theorem runImport_badLine {err : ImportError}
    (h : readRecords X 1 (file.splitOnP (· = '\n')) = .error err) : runImport X db file = (db, some err) := by
  simp only [runImport, h]

theorem runImport_conflict {id : String} (h : readRecords X 1 (file.splitOnP (· = '\n')) = .ok records)
    (hfind : (records.filterMap runId).find? (fun id =>
      db.agentEvent.rows.any fun e => e.sessionId = some id) = some id) :
    runImport X db file = (db, some (.eventsExist id)) := by
  simp only [runImport, h, hfind]

theorem runImport_inserts (h : readRecords X 1 (file.splitOnP (· = '\n')) = .ok records)
    (hfind : (records.filterMap runId).find? (fun id =>
      db.agentEvent.rows.any fun e => e.sessionId = some id) = none) :
    runImport X db file = insertAll db (records.map rowOfRecord) := by
  simp only [runImport, h, hfind]

end Phases

/-- **All or nothing** is what an import is exactly where no row is refused after another was inserted. -/
theorem allOrNothing_iff (db : EventDb) (file : List Char) :
    AllOrNothing X db file ↔
      ∀ records, readRecords X 1 (file.splitOnP (· = '\n')) = .ok records →
        ((records.filterMap runId).find? fun id =>
          db.agentEvent.rows.any fun e => e.sessionId = some id) = none →
        RefusedAtOnce db (records.map rowOfRecord) := by
  have hagain : AllOrNothing X db file ↔ ((runImport X db file).2 ≠ none → (runImport X db file).1 = db) :=
    ⟨fun h => h.unchanged, fun h => ⟨h, fun herr file' id hexists => by rwa [h herr] at hexists⟩⟩
  rw [hagain]
  cases hread : readRecords X 1 (file.splitOnP (· = '\n')) with
  | error err =>
    rw [runImport_badLine hread]
    exact iff_of_true (fun _ => rfl) fun records heq => by cases heq
  | ok records =>
    simp only [Except.ok.injEq, forall_eq']
    cases hfind : (records.filterMap runId).find? fun id =>
        db.agentEvent.rows.any fun e => e.sessionId = some id with
    | some id =>
      rw [runImport_conflict hread hfind]
      exact iff_of_true (fun _ => rfl) fun hnone => by cases hnone
    | none =>
      rw [runImport_inserts hread hfind, RefusedAtOnce, ← insertAll_ends_well_iff, ← insertAll_unchanged_iff]
      simp only [true_imp_iff]
      exact not_imp_comm.trans (or_iff_not_imp_left.trans (not_imp_comm)).symm

/-! ### A file that fails half-way -/

/-- A parser that knows the objects of these rows. -/
def Crates.knowing (rows : List EventRow) : Crates :=
  { Crates.sample with
    fromStr := fun text => (rows.map rowToJson).find? fun v => v.toText Crates.sample = text }

theorem knowing_reads {rows : List EventRow} {e : EventRow} (he : e ∈ rows) :
    (Crates.knowing rows).fromStr ((rowToJson e).toText (Crates.knowing rows)) = some (rowToJson e) := by
  show (rows.map rowToJson).find? (fun v => v.toText Crates.sample = (rowToJson e).toText Crates.sample) = _
  cases hfind : (rows.map rowToJson).find?
      fun v => v.toText Crates.sample = (rowToJson e).toText Crates.sample with
  | none =>
    have := List.find?_eq_none.mp hfind (rowToJson e) (List.mem_map_of_mem he)
    simp at this
  | some v =>
    obtain ⟨f, -, rfl⟩ := List.mem_map.mp (List.mem_of_find?_eq_some hfind)
    have htext : (rowToJson f).toText Crates.sample = (rowToJson e).toText Crates.sample := by
      simpa using List.find?_some hfind
    rw [Value.toText, Value.toText, String.ofList_inj] at htext
    rw [print_rowToJson_inj htext]

/-- An event of the session `s`. -/
def sessionEvent (id : String) (parent : Option String) : EventRow :=
  { sampleEvent id parent none with sessionId := some "s" }

/-- The second event has a parent that is nowhere. -/
def orphanRows : List EventRow := [sessionEvent "evt_1" none, sessionEvent "evt_2" (some "evt_0")]

def orphanFile : List Char :=
  orphanRows.flatMap fun e => (rowToJson e).print Crates.sample.formatF64 ++ ['\n']

def sessionDb : EventDb := ⟨["ws"], ["act"], ["s"], .empty⟩

theorem orphan_left_behind : ¬ AllOrNothing (Crates.knowing orphanRows) sessionDb orphanFile := by
  intro h
  have hread := readRecords_file (X := Crates.knowing orphanRows) (fun e he => knowing_reads he) 1
  have hrun : runImport (Crates.knowing orphanRows) sessionDb orphanFile =
      insertAll sessionDb ((orphanRows.map rowToJson).map rowOfRecord) :=
    runImport_inserts hread (List.find?_eq_none.mpr fun id _ => by simp [sessionDb])
  have hsame := h.unchanged
  rw [hrun] at hsame
  have hids := congrArg EventDb.ids (hsame (by decide))
  revert hids
  decide

end ActantDb.ExportImport
