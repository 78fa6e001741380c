import ActantDb.Ffi.EventsSince
import ActantDb.Lib.Feed
import ActantDb.Lib.Run

/-!
# Pulling events by their ids

`sync_since` returns the events of a workspace whose ids are greater than the last one the peer has seen. That follows the table only as far as ids grow in the order in which rows are inserted. A generated id holds the millisecond it was made in and is random within it, and a content-derived id is a hash; a row whose id is not greater than the peer's cursor when it is inserted is never sent.
-/

namespace ActantDb

namespace Server

/-- An event in the answer. -/
structure SyncedEvent where
  id : String
  eventType : String
  actorId : String
  payloadHash : String
  payloadInline : Option String
  createdAt : String
deriving DecidableEq, Repr

def syncedEvent (r : AgentEventRow) : SyncedEvent where
  id := r.event.id
  eventType := r.event.eventType
  actorId := r.event.actorId
  payloadHash := r.event.payloadHash
  payloadInline := r.event.payloadInline
  createdAt := r.event.createdAt

structure SyncSinceRequest where
  workspaceId : String
  sinceEventId : String
  limit : UInt32

structure SyncSinceResponse where
  events : List SyncedEvent
  nextSince : Option String

/-- `limit.clamp(1, 10_000)`. -/
def syncLimit (limit : UInt32) : Nat := min (max limit.toNat 1) 10000

/-- `sync_since`, with the storage answering. -/
def syncSince (db : Db) (req : SyncSinceRequest) : SyncSinceResponse :=
  let rows := (db.agentEvent.rows.filter fun r => r.event.workspaceId = req.workspaceId && decide (req.sinceEventId < r.id))
    |>.insertionSort fun a b => a.id ≤ b.id
  let events := (rows.take (syncLimit req.limit)).map syncedEvent
  { events := events, nextSince := events.getLast?.map SyncedEvent.id }

/-! ### A peer and the writers -/

/-- The peer keeps the last `next_since` that is not null. -/
structure Peer where
  since : String
  received : List SyncedEvent

def Peer.answered (p : Peer) (res : SyncSinceResponse) : Peer where
  since := res.nextSince.getD p.since
  received := p.received ++ res.events

structure SyncedWorld where
  db : Db
  peer : Peer

/-- A row is written, or the peer polls. A batch is ingested row by row, and a poll may come in between. -/
inductive SyncStep where
  | append (e : AgentEvent)
  | ingest (ie : IngestEvent)
  | poll (limit : UInt32)

variable (X : Crates) (workspace : WorkspaceId)

/-- The database after a write; one that fails changes nothing. -/
def written (db : Db) : SyncStep → Db
  | .append e => ((db.insertEvent { event := e }).toOption).getD db
  | .ingest ie => ((landRow X db ie).toOption).getD db
  | .poll _ => db

namespace SyncedWorld

def step (w : SyncedWorld) (l : SyncStep) : SyncedWorld where
  db := written X w.db l
  peer :=
    match l with
    | .poll limit => w.peer.answered (syncSince w.db ⟨workspace, w.peer.since, limit⟩)
    | _ => w.peer

/-- The peer starts from the beginning. -/
def start (db : Db) : SyncedWorld := ⟨db, ⟨"", []⟩⟩

/-- The events of the workspace, as they are sent. -/
def events (db : Db) : List SyncedEvent :=
  (db.agentEvent.rows.filter fun r => r.event.workspaceId = workspace).map syncedEvent

/-- The peer has received every event of the workspace once. -/
def Complete (w : SyncedWorld) : Prop := w.peer.received.Perm (events workspace w.db)

/-- An event of the workspace that is written has a greater id than the last one the peer has seen. -/
def WritesAhead (w : SyncedWorld) (l : SyncStep) : Prop :=
  ∀ r ∈ (written X w.db l).agentEvent, r.event.workspaceId = workspace → r ∈ w.db.agentEvent ∨ w.peer.since < r.id

end SyncedWorld

/-! ### What a step does -/

variable {X workspace} {db : Db} {w : SyncedWorld} {l : SyncStep}

theorem written_insert {row : AgentEventRow} {db' : Db} (h : db.insertEvent row = .ok db') :
    ∃ t, db.agentEvent.insert? row = some t ∧ db'.agentEvent = t := by
  obtain ⟨-, t, ht, rfl⟩ := Db.insertEvent_eq_ok.mp h
  exact ⟨t, ht, rfl⟩

/-- A write leaves the events as they are or adds one with a new id. -/
theorem written_cases (X : Crates) (db : Db) (l : SyncStep) :
    (written X db l).agentEvent = db.agentEvent ∨
      ∃ row, db.agentEvent.insert? row = some (written X db l).agentEvent := by
  cases l with
  | append e =>
    cases h : db.insertEvent { event := e } with
    | error err => exact Or.inl (by rw [written, h]; rfl)
    | ok db' =>
      obtain ⟨t, ht, hdb⟩ := written_insert h
      refine Or.inr ⟨_, ht.trans ?_⟩
      rw [written, h, ← hdb]
      rfl
  | ingest ie =>
    cases h : landRow X db ie with
    | error err => exact Or.inl (by rw [written, h]; rfl)
    | ok db' =>
      rcases landRow_cases h with ⟨-, rfl⟩ | ⟨-, -, -, t, ht, rfl⟩
      · exact Or.inl (by rw [written, h]; rfl)
      · exact Or.inr ⟨_, by rw [written, h]; exact ht⟩
  | poll limit => exact Or.inl rfl

namespace SyncedWorld

theorem events_keys (workspace : WorkspaceId) (db : Db) : ((events workspace db).map SyncedEvent.id).Nodup := by
  rw [events, List.map_map]
  exact db.agentEvent.keysNodup.sublist (List.filter_sublist.map AgentEventRow.id)

/-- The answer is a page of the events of the workspace. -/
theorem syncSince_events (db : Db) (since : String) (limit : UInt32) :
    (syncSince db ⟨workspace, since, limit⟩).events =
      Feed.page SyncedEvent.id (events workspace db) since (syncLimit limit) := by
  have hfilter : (events workspace db).filter (fun e => since < e.id) =
      (db.agentEvent.rows.filter fun r => r.event.workspaceId = workspace && decide (since < r.id)).map syncedEvent := by
    rw [events, List.filter_map, List.filter_filter]
    congr 2
    funext r
    rw [Bool.and_comm]
    rfl
  have hsort : ∀ rows : List AgentEventRow, (rows.insertionSort fun a b => a.id ≤ b.id).map syncedEvent =
      (rows.map syncedEvent).insertionSort fun a b => a.id ≤ b.id := by
    intro rows
    apply List.map_insertionSort
    exact fun a _ b _ => Iff.rfl
  rw [Feed.page, hfilter, ← hsort, ← List.map_take]
  rfl

/-- The peer, as a reader of a feed. -/
def reader (w : SyncedWorld) : Feed.Reader SyncedEvent String := ⟨w.peer.since, w.peer.received⟩

theorem reader_poll (limit : UInt32) : (w.step X workspace (.poll limit)).reader =
    w.reader.take SyncedEvent.id (Feed.page SyncedEvent.id (events workspace w.db) w.reader.since (syncLimit limit)) := by
  rw [← syncSince_events]
  rfl

theorem mem_events {e : SyncedEvent} :
    e ∈ events workspace db ↔ ∃ r ∈ db.agentEvent, r.event.workspaceId = workspace ∧ syncedEvent r = e := by
  simp only [events, List.mem_map, List.mem_filter, decide_eq_true_eq, Table.mem_iff, and_assoc]

theorem step_db (X : Crates) (workspace : WorkspaceId) (w : SyncedWorld) (l : SyncStep) :
    (w.step X workspace l).db = written X w.db l := rfl

/-- The peer moves when it polls, and only then. -/
theorem reader_step (X : Crates) (workspace : WorkspaceId) (w : SyncedWorld) (l : SyncStep) :
    ((w.step X workspace l).reader = w.reader ∧ ∀ limit, l ≠ .poll limit) ∨
      ∃ limit, l = .poll limit ∧ (w.step X workspace l).reader =
        w.reader.take SyncedEvent.id (Feed.page SyncedEvent.id (events workspace w.db) w.reader.since (syncLimit limit)) := by
  cases l with
  | append e => exact Or.inl ⟨rfl, fun limit => SyncStep.noConfusion⟩
  | ingest ie => exact Or.inl ⟨rfl, fun limit => SyncStep.noConfusion⟩
  | poll limit => exact Or.inr ⟨limit, rfl, reader_poll limit⟩

theorem not_insert_poll {limit : UInt32} {row : AgentEventRow} :
    db.agentEvent.insert? row ≠ some (written X db (.poll limit)).agentEvent := by
  intro h
  have hlength := congrArg List.length (Table.insert?_eq_some.mp h).2
  rw [List.length_append, List.length_singleton, written] at hlength
  omega

/-- A step leaves the events of the workspace as they are, or one arrives and the peer does not move. -/
theorem step_cases (X : Crates) (workspace : WorkspaceId) (w : SyncedWorld) (l : SyncStep) :
    (events workspace (w.step X workspace l).db = events workspace w.db ∧ WritesAhead X workspace w l) ∨
      ∃ row : AgentEventRow, events workspace (w.step X workspace l).db = events workspace w.db ++ [syncedEvent row] ∧
        (syncedEvent row).id ∉ (events workspace w.db).map SyncedEvent.id ∧ (w.step X workspace l).reader = w.reader ∧
        (WritesAhead X workspace w l ↔ w.reader.since < (syncedEvent row).id) := by
  rcases written_cases X w.db l with hsame | ⟨row, hinsert⟩
  · refine Or.inl ⟨?_, fun r hr _ => Or.inl (hsame ▸ hr)⟩
    rw [events, step_db, hsame, events]
  · obtain ⟨hnew, hrows⟩ := Table.insert?_eq_some.mp hinsert
    by_cases hworkspace : row.event.workspaceId = workspace
    · refine Or.inr ⟨row, ?_, ?_, ?_, fun hahead => ?_, fun hahead r hr _ => ?_⟩
      · rw [events, step_db, hrows, List.filter_append, List.map_append]
        simp [events, hworkspace]
      · rw [events, List.map_map]
        intro hmem
        obtain ⟨r, hr, hid⟩ := List.mem_map.mp hmem
        exact Table.contains_eq_false.mp hnew r (List.mem_of_mem_filter hr) hid
      · rcases reader_step X workspace w l with ⟨hreader, -⟩ | ⟨limit, rfl, -⟩
        · exact hreader
        · exact absurd hinsert not_insert_poll
      · refine (hahead row ((Table.mem_insert? hinsert).mpr (Or.inr rfl)) hworkspace).resolve_left fun hold => ?_
        exact Table.contains_eq_false.mp hnew row hold rfl
      · rcases (Table.mem_insert? hinsert).mp hr with hold | rfl
        · exact Or.inl hold
        · exact Or.inr hahead
    · refine Or.inl ⟨?_, fun r hr hr' => ?_⟩
      · rw [events, step_db, hrows, List.filter_append]
        simp [events, hworkspace]
      · rcases (Table.mem_insert? hinsert).mp hr with hold | rfl
        · exact Or.inl hold
        · exact absurd hr' hworkspace

/-! ### Every run -/

theorem reading_step (h : Feed.Reading SyncedEvent.id (events workspace w.db) w.reader) :
    Feed.Reading SyncedEvent.id (events workspace (w.step X workspace l).db) (w.step X workspace l).reader := by
  rcases step_cases X workspace w l with ⟨hevents, -⟩ | ⟨row, hevents, -, hreader, -⟩
  · rw [hevents]
    rcases reader_step X workspace w l with ⟨hreader, -⟩ | ⟨limit, -, hreader⟩
    · rw [hreader]
      exact h
    · rw [hreader]
      exact h.take (events_keys workspace w.db)
  · rw [hevents, hreader]
    exact h.arrive _

/-- A step leaves the peer with nothing missing exactly when nothing was and what it writes is ahead. -/
theorem caught_step (h : Feed.Reading SyncedEvent.id (events workspace w.db) w.reader) :
    Feed.Caught SyncedEvent.id (events workspace (w.step X workspace l).db) (w.step X workspace l).reader ↔
      Feed.Caught SyncedEvent.id (events workspace w.db) w.reader ∧ WritesAhead X workspace w l := by
  rcases step_cases X workspace w l with ⟨hevents, hahead⟩ | ⟨row, hevents, hnew, hreader, hahead⟩
  · rw [hevents, and_iff_left hahead]
    rcases reader_step X workspace w l with ⟨hreader, -⟩ | ⟨limit, -, hreader⟩
    · rw [hreader]
    · rw [hreader, Feed.caught_take (events_keys workspace w.db)]
  · rw [hevents, hreader, h.caught_arrive hnew, hahead]

theorem caught_run (h : Feed.Reading SyncedEvent.id (events workspace w.db) w.reader) (steps : List SyncStep) :
    Feed.Reading SyncedEvent.id (events workspace (Lts.run (step X workspace) w steps).db) (Lts.run (step X workspace) w steps).reader ∧
      (Feed.Caught SyncedEvent.id (events workspace (Lts.run (step X workspace) w steps).db) (Lts.run (step X workspace) w steps).reader ↔
        Feed.Caught SyncedEvent.id (events workspace w.db) w.reader ∧
          Lts.EveryStep (step X workspace) (WritesAhead X workspace) w steps) := by
  induction steps generalizing w with
  | nil => exact ⟨h, (and_iff_left trivial).symm⟩
  | cons l steps ih =>
    obtain ⟨hreading, hcaught⟩ := ih (reading_step h)
    refine ⟨hreading, hcaught.trans ?_⟩
    rw [caught_step h, Lts.everyStep_cons, and_assoc]

end SyncedWorld

open SyncedWorld

theorem syncLimit_pos (limit : UInt32) : 0 < syncLimit limit := by
  rw [syncLimit]
  omega

/-- **A peer that polls until a page is empty has received every event of the workspace once** exactly when the ids of the events that were there are greater than the empty one, and every event was written with an id greater than the last one the peer had seen. -/
theorem syncSince_complete_iff (X : Crates) (workspace : WorkspaceId) (db : Db) (steps : List SyncStep) (limit : UInt32)
    (hend : (syncSince (Lts.run (step X workspace) (start db) steps).db
      ⟨workspace, (Lts.run (step X workspace) (start db) steps).peer.since, limit⟩).events = []) :
    Complete workspace (Lts.run (step X workspace) (start db) steps) ↔
      (∀ r ∈ db.agentEvent, r.event.workspaceId = workspace → "" < r.id) ∧
        Lts.EveryStep (step X workspace) (WritesAhead X workspace) (start db) steps := by
  have hstart : Feed.Reading SyncedEvent.id (events workspace (start db).db) (start db).reader :=
    ⟨List.Pairwise.nil, fun a => List.not_mem_nil.elim, fun a => List.not_mem_nil.elim⟩
  obtain ⟨hreading, hcaught⟩ := caught_run (X := X) hstart steps
  rw [syncSince_events, Feed.page_eq_nil (syncLimit_pos limit)] at hend
  refine (hreading.perm_iff (events_keys _ _) hend).trans (hcaught.trans (and_congr_left fun _ => ?_))
  constructor
  · intro h r hr hworkspace
    by_contra hle
    have hmem := h (syncedEvent r) (mem_events.mpr ⟨r, hr, hworkspace, rfl⟩) (not_lt.mp hle)
    cases hmem
  · intro h e he hle
    obtain ⟨r, hr, hworkspace, rfl⟩ := mem_events.mp he
    exact absurd (h r hr hworkspace) (not_lt.mpr hle)

/-! ### Two events of one millisecond -/

def earlier : EventId := "evt_01HF7YAT0000000000000000000"
def later : EventId := "evt_01HF7YAT00ZZZZZZZZZZZZZZZZZ"

/-- The peer polls between two writes. -/
def polledBetween (first second : EventId) : SyncedWorld :=
  Lts.run (step Crates.sample "ws_demo") (start Db.sample)
    [.append (Ffi.noted first), .poll 100, .append (Ffi.noted second), .poll 100]

theorem written_noted {id : EventId} {db : Db} {r : AgentEventRow}
    (hr : r ∈ (written Crates.sample db (.append (Ffi.noted id))).agentEvent) : r ∈ db.agentEvent ∨ r.id = id := by
  rw [written] at hr
  cases h : db.insertEvent { event := Ffi.noted id } with
  | error err =>
    rw [h] at hr
    exact Or.inl hr
  | ok db' =>
    obtain ⟨t, ht, hdb⟩ := written_insert h
    rw [h] at hr
    change r ∈ db'.agentEvent at hr
    rw [hdb, Table.mem_insert? ht] at hr
    exact hr.imp_right fun hrow => by rw [hrow]; rfl

/-- Written in the order of their ids, both are received. -/
theorem polledBetween_complete : Complete "ws_demo" (polledBetween earlier later) := by
  refine (syncSince_complete_iff Crates.sample "ws_demo" Db.sample _ 100 (by decide +kernel)).mpr ⟨fun r hr _ => ?_, ?_⟩
  · cases hr
  · refine ⟨fun r hr _ => ?_, fun r hr _ => Or.inl hr, fun r hr _ => ?_, fun r hr _ => Or.inl hr, trivial⟩
    · refine (written_noted hr).imp_right fun hid => ?_
      rw [hid]
      decide +kernel
    · refine (written_noted hr).imp_right fun hid => ?_
      rw [hid]
      decide +kernel

/-- Written the other way, the second is never received, though the peer has polled until nothing came. -/
theorem second_never_received :
    (syncSince (polledBetween later earlier).db ⟨"ws_demo", (polledBetween later earlier).peer.since, 100⟩).events = [] ∧
      ¬ Complete "ws_demo" (polledBetween later earlier) := by
  refine ⟨by decide +kernel, fun hperm => ?_⟩
  have hlength := hperm.length_eq
  revert hlength
  decide +kernel

end Server

end ActantDb
