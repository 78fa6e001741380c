import ActantDb.Command.Isolation
import ActantDb.Server.Auth
import ActantDb.Server.SyncSince

/-!
# The core routes

Of the routes that answer from the SQLite store, `dispatch_command` asks `enforce_auth` about the workspace of the request before anything else happens. The others, which list the events of a session, the approvals of a workspace and the events after a cursor, make and run replay checkpoints, and stream a topic, take the workspace from the request, or from the rows that it names, and never ask. The routes of the Postgres server ask. So a request is authorised exactly when it is a command whose updates stay in workspaces that it carries a credential for, or the rows that it asks for are of such workspaces anyway (`Covered`).
-/

namespace ActantDb

namespace Server

/-! ### The state -/

structure ReplayCheckpoint where
  id : String
  workspaceId : WorkspaceId
  eventId : EventId
  sessionId : Option SessionId
  stateSnapshotRef : String
  modelRouteSnapshotRef : String
  permissionSnapshotRef : String
  memorySnapshotRef : String
  createdAt : String

structure ReplayRun where
  id : String
  workspaceId : WorkspaceId
  checkpointId : String
  mode : String
  requestedByActorId : ActorId
  status : String
  startedAt : String
  finishedAt : Option String

structure CoreWorld where
  world : World
  replayCheckpoint : Table ReplayCheckpoint.id
  replayRun : Table ReplayRun.id

/-- A topic of the hub. -/
structure Topic where
  workspaceId : WorkspaceId
  sessionId : Option SessionId
  kind : String
deriving DecidableEq

structure Message where
  topic : Topic
  payload : Value

inductive ReplayMode where
  | recorded | model | policy | memory
deriving DecidableEq, Repr

def ReplayMode.text : ReplayMode → String
  | .recorded => "recorded"
  | .model => "model"
  | .policy => "policy"
  | .memory => "memory"

def ReplayMode.parse (mode : String) : Except ActantError ReplayMode :=
  match mode with
  | "recorded" => .ok .recorded
  | "model" => .ok .model
  | "policy" => .ok .policy
  | "memory" => .ok .memory
  | other => .error (.invalidInput ("unknown replay mode: " ++ other))

/-- The server: its crates and state for `enforce_auth`, the environment of the storage, the policy of the engine, and how many seconds `enforce_rate_limit` makes a workspace wait. -/
structure CoreServer where
  crates : AuthCrates
  auth : AuthState
  env : Env
  policy : PolicyDoc
  rateLimit : WorkspaceId → Option Nat

/-! ### Requests and answers -/

inductive CoreRequest where
  | dispatchCommand (c : Call)
  | listEvents (sessionId : SessionId)
  | listApprovals (workspaceId : WorkspaceId)
  | syncSince (req : SyncSinceRequest)
  | replayCheckpoint (workspaceId : WorkspaceId) (eventId : EventId)
  | replayRun (actorId : ActorId) (checkpointId mode : String)
  -- with what the hub publishes while the socket is open, and how many messages get through before it closes
  | ws (topic : Topic) (published : List Message) (sent : Nat)

def CoreRequest.method : CoreRequest → HttpMethod
  | .dispatchCommand _ | .syncSince _ | .replayCheckpoint .. | .replayRun .. => .post
  | .listEvents _ | .listApprovals _ | .ws .. => .get

structure Approval where
  id : String
  toolCallId : String
  requestedBy : String
  riskLevel : RiskLevel
  summary : String
  status : ApprovalStatus

structure DiffEntry where
  eventType : String
  kind : String
  summary : Option String
deriving DecidableEq, Repr

structure ReplayDiff where
  runId : String
  entries : List DiffEntry

inductive CoreResponse where
  | refused (e : AuthError)
  | rateLimited (retryAfterSeconds : Nat)
  | failed (e : ActantError)
  | command (outcome : CommandOutcome)
  | events (events : List AgentEvent)
  | approvals (approvals : List Approval)
  | synced (res : SyncSinceResponse)
  | checkpoint (id : String)
  | diff (diff : ReplayDiff)
  | streamed (messages : List Message)

/-- What a request did: its answer, the state after it, and of which workspaces the rows and messages are that the answer is made of. -/
structure CoreOutcome where
  response : CoreResponse
  world : CoreWorld
  returned : List WorkspaceId

section Handlers

variable (s : CoreServer) (headers : HeaderMap) (w : CoreWorld)

/-! ### Statements -/

def CoreWorld.counted : CoreWorld :=
  { w with world := { w.world with statements := w.world.statements + 1 } }

/-- A statement that reads, unless the storage fails. -/
def CoreWorld.query {α : Type} (answer : CoreWorld → Except SqlError α) : Except ActantError α × CoreWorld :=
  if s.env.fault w.world.statements then (.error (.storage .unavailable), w.counted)
  else
    match answer w with
    | .error e => (.error (.storage e), w.counted)
    | .ok a => (.ok a, w.counted)

/-- A statement that writes, unless the storage fails or refuses it. -/
def CoreWorld.write (act : CoreWorld → Except SqlError CoreWorld) : Except ActantError Unit × CoreWorld :=
  if s.env.fault w.world.statements then (.error (.storage .unavailable), w.counted)
  else
    match act w.counted with
    | .error e => (.error (.storage e), w.counted)
    | .ok w' => (.ok (), w')

/-- An id has been generated and the time has been read. -/
def CoreWorld.prepared : CoreWorld :=
  { w with world := { w.world with ulids := w.world.ulids + 1, readings := w.world.readings + 1 } }

def CoreWorld.timed : CoreWorld := { w with world := { w.world with readings := w.world.readings + 1 } }

def nowOf : String := (s.env.clock w.world.readings).formatRfc3339

/-! ### Replay -/

def CoreWorld.insertCheckpoint (cp : ReplayCheckpoint) (w : CoreWorld) : Except SqlError CoreWorld :=
  let db := w.world.db
  (insertRow "replay_checkpoint" w.replayCheckpoint cp
    (db.workspace.contains cp.workspaceId && db.agentEvent.contains cp.eventId && refersTo db.session cp.sessionId)).map
      fun t => { w with replayCheckpoint := t }

def CoreWorld.insertRun (run : ReplayRun) (w : CoreWorld) : Except SqlError CoreWorld :=
  (insertRow "replay_run" w.replayRun run
    (w.world.db.workspace.contains run.workspaceId && w.replayCheckpoint.contains run.checkpointId &&
      w.world.db.actor.contains run.requestedByActorId)).map
      fun t => { w with replayRun := t }

/-- `UPDATE replay_run SET status='completed', finished_at=? WHERE id=?`. -/
def CoreWorld.finishRun (id now : String) (w : CoreWorld) : CoreWorld :=
  let replayRun := w.replayRun.update (fun run => decide (run.id = id))
    (fun run => { run with status := "completed", finishedAt := some now }) fun _ => rfl
  { w with replayRun := replayRun }

/-- The checkpoint of an event. -/
def checkpointOf (ws : WorkspaceId) (event : AgentEvent) (id now : String) : ReplayCheckpoint where
  id := id
  workspaceId := ws
  eventId := event.id
  sessionId := event.sessionId
  stateSnapshotRef := "snap:state:" ++ event.id
  modelRouteSnapshotRef := "snap:routes:" ++ event.id
  permissionSnapshotRef := "snap:perms:" ++ event.id
  memorySnapshotRef := "snap:mem:" ++ event.id
  createdAt := now

/-- The event that a checkpoint is asked for. -/
def eventOf (ws : WorkspaceId) (id : EventId) (w : CoreWorld) : Option AgentEvent :=
  (w.world.db.agentEvent.rows.find? fun r => r.event.id = id && r.event.workspaceId = ws).map (·.event)

/-- The checkpoint that is made. -/
def nextCheckpoint (ws : WorkspaceId) (event : AgentEvent) : ReplayCheckpoint :=
  checkpointOf ws event (newId "chk" (s.env.ulid w.world.ulids)) (nowOf s w)

def makeCheckpoint (ws : WorkspaceId) (event : AgentEvent) : Except ActantError String × CoreWorld :=
  match w.prepared.write s (CoreWorld.insertCheckpoint (nextCheckpoint s w ws event)) with
  | (.error e, w) => (.error e, w)
  | (.ok (), w') => (.ok (nextCheckpoint s w ws event).id, w')

/-- `actant_replay::checkpoint`. -/
def checkpoint (ws : WorkspaceId) (eventId : EventId) : Except ActantError String × CoreWorld :=
  match w.query s fun w => .ok (eventOf ws eventId w) with
  | (.error e, w) => (.error e, w)
  | (.ok none, w) => (.error (.notFound ("event " ++ eventId)), w)
  | (.ok (some event), w) => makeCheckpoint s w ws event

/-- What the diff of each mode says of an event; no memory is excluded. -/
def diffKind (mode : ReplayMode) (eventType : String) : String :=
  match mode with
  | .recorded | .memory => "identical"
  | .model => if eventType = "model_call" then "changed" else "identical"
  | .policy =>
    if eventType = "tool_call_requested" ∨ eventType = "tool_call_approved" ∨ eventType = "tool_call_denied" then "changed"
    else "identical"

def diffOf (mode : ReplayMode) (events : List AgentEvent) : List DiffEntry :=
  events.map fun e => ⟨e.eventType, diffKind mode e.eventType, none⟩

/-- The events of the checkpoint's session, if it has one. -/
def sessionEvents (cp : ReplayCheckpoint) : Except ActantError (List AgentEvent) × CoreWorld :=
  match cp.sessionId with
  | none => (.ok [], w)
  | some session => w.query s fun w => .ok (w.world.db.eventsInSession session)

/-- The run is recorded as completed, and its diff is returned. -/
def finish (cp : ReplayCheckpoint) (mode : ReplayMode) (id : String) (events : List AgentEvent) : CoreOutcome :=
  match w.timed.write s fun w' => .ok (w'.finishRun id (nowOf s w)) with
  | (.error e, w) => ⟨.failed e, w, []⟩
  | (.ok (), w) => ⟨.diff ⟨id, diffOf mode events⟩, w, cp.workspaceId :: events.map (·.workspaceId)⟩

/-- The session is read. -/
def compare (cp : ReplayCheckpoint) (mode : ReplayMode) (id : String) : CoreOutcome :=
  match sessionEvents s w cp with
  | (.error e, w) => ⟨.failed e, w, []⟩
  | (.ok events, w) => finish s w cp mode id events

/-- The run that is recorded. -/
def nextRun (actorId : ActorId) (cp : ReplayCheckpoint) (mode : ReplayMode) : ReplayRun :=
  ⟨newId "rr" (s.env.ulid w.world.ulids), cp.workspaceId, cp.id, mode.text, actorId, "running", nowOf s w, none⟩

def runCheckpoint (actorId : ActorId) (cp : ReplayCheckpoint) (mode : ReplayMode) : CoreOutcome :=
  match w.prepared.write s (CoreWorld.insertRun (nextRun s w actorId cp mode)) with
  | (.error e, w) => ⟨.failed e, w, []⟩
  | (.ok (), w') => compare s w' cp mode (nextRun s w actorId cp mode).id

/-- `actant_replay::run`. -/
def run (actorId : ActorId) (checkpointId : String) (mode : ReplayMode) : CoreOutcome :=
  match w.query s fun w => .ok (w.replayCheckpoint.find? checkpointId) with
  | (.error e, w) => ⟨.failed e, w, []⟩
  | (.ok none, w) => ⟨.failed (.notFound ("checkpoint " ++ checkpointId)), w, []⟩
  | (.ok (some cp), w) => runCheckpoint s w actorId cp mode

/-! ### Routes -/

def dispatchCommand (c : Call) : CoreOutcome :=
  match s.rateLimit c.workspaceId with
  | some seconds => ⟨.rateLimited seconds, w, []⟩
  | none =>
    match enforceAuth s.crates s.auth headers .post c.workspaceId with
    | .error e => ⟨.refused e, w, []⟩
    | .ok () =>
      let (outcome, world) := (dispatch s.crates.toCrates s.policy c).run (handle s.env) w.world
      match outcome with
      | .ok outcome => ⟨.command outcome, { w with world := world }, [c.workspaceId]⟩
      | .error e => ⟨.failed e, { w with world := world }, []⟩

def listEvents (sessionId : SessionId) : CoreOutcome :=
  match w.query s fun w => .ok (w.world.db.eventsInSession sessionId) with
  | (.error e, w) => ⟨.failed e, w, []⟩
  | (.ok events, w) => ⟨.events events, w, events.map (·.workspaceId)⟩

/-- `WHERE workspace_id = ? AND status = 'pending' ORDER BY created_at ASC`. -/
def pendingApprovals (ws : WorkspaceId) (w : CoreWorld) : List ApprovalRequest :=
  (w.world.db.approvalRequest.rows.filter fun ar => ar.workspaceId = ws ∧ ar.status = .pending).insertionSort
    fun a b => a.createdAt ≤ b.createdAt

/-- A row as it is decoded, into a text for each column. -/
def approval (ar : ApprovalRequest) : Except SqlError Approval :=
  match ar.toolCallId with
  | none => .error (.decode "tool_call_id")
  | some toolCallId => .ok ⟨ar.id, toolCallId, ar.requestedByActorId, ar.riskLevel, ar.summary, ar.status⟩

def listApprovals (ws : WorkspaceId) : CoreOutcome :=
  match w.query s fun w => (pendingApprovals ws w).mapM approval with
  | (.error e, w) => ⟨.failed e, w, []⟩
  | (.ok approvals, w) => ⟨.approvals approvals, w, approvals.map fun _ => ws⟩

def syncSinceRoute (req : SyncSinceRequest) : CoreOutcome :=
  match w.query s fun w => .ok (syncSince w.world.db req) with
  | (.error e, w) => ⟨.failed e, w, []⟩
  | (.ok res, w) => ⟨.synced res, w, res.events.map fun _ => req.workspaceId⟩

def replayCheckpointRoute (ws : WorkspaceId) (eventId : EventId) : CoreOutcome :=
  match checkpoint s w ws eventId with
  | (.error e, w) => ⟨.failed e, w, []⟩
  | (.ok id, w) => ⟨.checkpoint id, w, [ws]⟩

def replayRunRoute (actorId : ActorId) (checkpointId mode : String) : CoreOutcome :=
  match ReplayMode.parse mode with
  | .error e => ⟨.failed e, w, []⟩
  | .ok mode => run s w actorId checkpointId mode

/-- What the subscription is sent. -/
def received (topic : Topic) (published : List Message) (sent : Nat) : List Message :=
  (published.filter fun m => m.topic = topic).take sent

def wsHandler (topic : Topic) (published : List Message) (sent : Nat) : CoreOutcome :=
  ⟨.streamed (received topic published sent), w, (received topic published sent).map fun m => m.topic.workspaceId⟩

def handleRequest : CoreRequest → CoreOutcome
  | .dispatchCommand c => dispatchCommand s headers w c
  | .listEvents sessionId => listEvents s w sessionId
  | .listApprovals ws => listApprovals s w ws
  | .syncSince req => syncSinceRoute s w req
  | .replayCheckpoint ws eventId => replayCheckpointRoute s w ws eventId
  | .replayRun actorId checkpointId mode => replayRunRoute s w actorId checkpointId mode
  | .ws topic published sent => wsHandler w topic published sent

end Handlers

end Server

end ActantDb
