import ActantDb.Policy.Evaluate
import ActantDb.Storage.Statement

/-!
# The command engine

`Engine::dispatch` over the SQLite backend, with its ten commands. A command is a sequence of statements with no transaction around them, so each of the functions here is a program over `Op`: where it can fail it fails between two statements, and what it has written by then stays written.

Prologue and epilogue of `dispatch` are functions of their own; the arms keep the source's names.
-/

namespace ActantDb

structure CommandOutcome where
  commandId : CommandId
  eventId : Option EventId
  result : Value

structure EventBackrefs where
  commandId : Option CommandId := none
  toolCallId : Option ToolCallId := none
  modelCallId : Option String := none
  workflowRunId : Option String := none
  memoryId : Option MemoryId := none
  artifactId : Option String := none
  effectId : Option EffectId := none

/-- The arguments of one call of `dispatch`. -/
structure Call where
  workspaceId : WorkspaceId
  actorId : ActorId
  commandType : String
  input : Value
  idempotencyKey : Option String

/-- A call with a text-valued input and no key, for sample runs. -/
def Call.sample (commandType : String) (fields : List (String × String)) : Call where
  workspaceId := "ws_demo"
  actorId := "act_demo"
  commandType := commandType
  input := .ofFields (fields.map fun f => (f.1, .string f.2))
  idempotencyKey := none

/-! ### Reading the input -/

def requiredStr (input : Value) (key : String) : Action String :=
  match (input.get key).bind Value.asStr with
  | some s => pure s
  | none => .fail (.invalidInput ("missing required " ++ key))

def optionalStr (input : Value) (key : String) : Option String := (input.get key).bind Value.asStr

variable (X : Crates) (policy : PolicyDoc)

/-! ### The chronicle -/

def appendChronicle (ws : WorkspaceId) (actor : ActorId) (session : Option SessionId)
    (eventType : String) (causalityKind : CausalityKind) (sensitivity : Sensitivity)
    (payload : Value) (backrefs : EventBackrefs) : Action EventId := do
  let payloadCanon := canonicalJson X payload
  let payloadHash := sha256Hex X (asBytes payloadCanon)
  let prev ← execute (.lastEventHash ws session)
  let eventHash := chainHash X (prev.getD zeros) payloadHash
  let id ← freshId "evt"
  let createdAt ← nowRfc3339
  execute (.appendEvent
    { id := id
      workspaceId := ws
      actorId := actor
      sessionId := session
      parentEventId := none
      eventType := eventType
      causalityKind := causalityKind
      sensitivity := sensitivity
      authorityScopeId := none
      payloadRef := none
      payloadInline := some payloadCanon
      payloadHash := payloadHash
      eventHash := eventHash
      createdAt := createdAt
      modelCallId := backrefs.modelCallId
      toolCallId := backrefs.toolCallId
      workflowRunId := backrefs.workflowRunId
      memoryId := backrefs.memoryId
      artifactId := backrefs.artifactId
      commandId := backrefs.commandId
      effectId := backrefs.effectId })
  return id

/-! ### The commands -/

def ensureActor (ws : WorkspaceId) (id : ActorId) (kind : ActorKind) : Action Unit := do
  match ← execute (.getActor id) with
  | some _ => pure ()
  | none =>
    let now ← nowRfc3339
    execute (.insertActor
      { id := id, workspaceId := ws, kind := kind, displayName := id, createdAt := now,
        disabledAt := none })

def ensureAgent (ws : WorkspaceId) (agent : Option ActorId) : Action Unit :=
  match agent with
  | none => pure ()
  | some id => ensureActor ws id .agent

/-- The session id of the input, a new one when there is none. -/
def sessionIdOf (input : Value) : Action SessionId :=
  match optionalStr input "session_id" with
  | some s => pure s
  | none => freshId "sess"

def createSession (ws : WorkspaceId) (actor : ActorId) (cmd : CommandRecord) (input : Value) :
    Action CommandOutcome := do
  let title := optionalStr input "title"
  let agent := optionalStr input "agent_actor_id"
  ensureAgent ws agent
  let sessionId ← sessionIdOf input
  let result := Value.ofFields [("session_id", .string sessionId)]
  if ← execute (.sessionExists ws sessionId) then
    return { commandId := cmd.id, eventId := none, result := result }
  else
    let now ← nowRfc3339
    execute (.insertSession
      { id := sessionId, workspaceId := ws, title := title, initiatorActorId := actor,
        agentActorId := agent, status := .active, createdAt := now, closedAt := none })
    let eventId ← appendChronicle X ws actor (some sessionId) "session_created" .control .low
      result { commandId := some cmd.id }
    return { commandId := cmd.id, eventId := some eventId, result := result }

def appendMessage (ws : WorkspaceId) (actor : ActorId) (cmd : CommandRecord) (input : Value)
    (role eventType : String) : Action CommandOutcome := do
  let sessionId ← requiredStr input "session_id"
  let text ← requiredStr input "text"
  let bodyHash := sha256Hex X (asBytes text)
  let msgId ← freshId "msg"
  let now ← nowRfc3339
  execute (.insertMessage
    { id := msgId, sessionId := sessionId, workspaceId := ws, authorActorId := actor, role := role,
      bodyRef := none, bodyText := some text, bodyHash := bodyHash, createdAt := now })
  let eventId ← appendChronicle X ws actor (some sessionId) eventType .observation .low
    (.ofFields [("message_id", .string msgId), ("text", .string text)]) { commandId := some cmd.id }
  return { commandId := cmd.id, eventId := some eventId,
           result := .ofFields [("message_id", .string msgId)] }

/-- `name.split('.').next()`. -/
def toolKind (name : String) : String := String.ofList (name.toList.takeWhile (· ≠ '.'))

def upsertTool (ws : WorkspaceId) (name : String) : Action ToolId := do
  match ← execute (.selectTool ws name) with
  | some id => return id
  | none =>
    let id ← freshId "tool"
    let now ← nowRfc3339
    execute (.insertTool
      { id := id, workspaceId := ws, name := name, kind := toolKind name, requiredPermission := name,
        defaultRiskLevel := .medium, createdAt := now })
    return id

/-- The status a verdict gives the tool call, or the error it ends the command with. -/
def Verdict.status : Verdict → Except ActantError ToolCallStatus
  | .allow _ => .ok .approved
  | .constrain _ _ _ => .ok .approved
  | .requireApproval _ _ _ => .ok .pendingApproval
  | .block reason => .error (.permissionDenied reason)
  | .halt reason => .error (.policyHalt reason)

/-- The insertion of a tool call and, when the verdict asks for it, of its approval request, which is then linked to it. -/
def fileToolCall (ws : WorkspaceId) (actor : ActorId) (toolCallId : ToolCallId)
    (sessionId : SessionId) (toolId : ToolId) (toolName argumentsCanon argumentsHash : String)
    (risk : RiskLevel) (status : ToolCallStatus) (v : Verdict) : Action Unit := do
  let now ← nowRfc3339
  execute (.insertToolCall
    { id := toolCallId, workspaceId := ws, sessionId := some sessionId, requestedByActorId := actor,
      toolId := toolId, schemaVersion := 1, argumentsInline := some argumentsCanon,
      argumentsHash := argumentsHash, status := status, riskLevel := risk,
      approvalRequestId := none, resultRef := none, resultHash := none, createdAt := now,
      completedAt := none })
  match v with
  | .requireApproval _ _ _ =>
    let arId ← freshId "appr"
    let now ← nowRfc3339
    execute (.insertApprovalRequest
      { id := arId, workspaceId := ws, toolCallId := some toolCallId, requestedByActorId := actor,
        riskLevel := risk, requiredPermission := toolName,
        summary := toolName ++ ": " ++ argumentsCanon, status := .pending, scopeGranted := none,
        createdAt := now, approvedAt := none, approvedByActorId := none, deniedReason := none })
    execute (.setToolCallApprovalRequest toolCallId arId)
  | _ => pure ()

def requestToolCall (ws : WorkspaceId) (actor : ActorId) (cmd : CommandRecord) (input : Value) :
    Action CommandOutcome := do
  let sessionId ← requiredStr input "session_id"
  let toolName ← requiredStr input "tool_name"
  let arguments := (input.get "arguments").getD (.object [])
  let argumentsCanon := canonicalJson X arguments
  let argumentsHash := sha256Hex X (asBytes argumentsCanon)
  let toolId ← upsertTool ws toolName
  let v := evaluate X policy
    { actorId := actor, tool := toolName, argumentsJson := argumentsCanon,
      riskLevel := riskFor toolName policy, sensitivity := .low }
  let toolCallId ← freshId "tc"
  let status ← Prog.done v.status
  fileToolCall ws actor toolCallId sessionId toolId toolName argumentsCanon argumentsHash
    (riskFor toolName policy) status v
  let eventId ← appendChronicle X ws actor (some sessionId) "tool_call_requested" .intent .low
    (.ofFields [("tool_call_id", .string toolCallId), ("tool", .string toolName),
      ("arguments", arguments), ("verdict", v.toValue)])
    { commandId := some cmd.id, toolCallId := some toolCallId }
  return { commandId := cmd.id, eventId := some eventId,
           result := .ofFields [("tool_call_id", .string toolCallId),
             ("status", .string status.name), ("verdict", v.toValue)] }

def approvePendingToolCall (toolCallId : ToolCallId) (actor : ActorId) (scope : String) :
    Action Unit := do
  let now ← nowRfc3339
  execute (.approveApprovalRequest toolCallId actor scope now)
  execute (.approveToolCall toolCallId)

def approveToolCall (ws : WorkspaceId) (actor : ActorId) (cmd : CommandRecord) (input : Value) :
    Action CommandOutcome := do
  let toolCallId ← requiredStr input "tool_call_id"
  let scope := (optionalStr input "scope").getD "once"
  let sessionId ← execute (.sessionForToolCall toolCallId)
  approvePendingToolCall toolCallId actor scope
  let eventId ← appendChronicle X ws actor sessionId "tool_call_approved" .control .low
    (.ofFields [("tool_call_id", .string toolCallId), ("scope", .string scope),
      ("approver", .string actor)])
    { commandId := some cmd.id, toolCallId := some toolCallId }
  return { commandId := cmd.id, eventId := some eventId,
           result := .ofFields [("approved", .string toolCallId), ("scope", .string scope)] }

def denyPendingToolCall (toolCallId : ToolCallId) (actor : ActorId) (reason : String) :
    Action Unit := do
  let now ← nowRfc3339
  execute (.denyApprovalRequest toolCallId actor reason now)
  execute (.denyToolCall toolCallId)

def denyToolCall (ws : WorkspaceId) (actor : ActorId) (cmd : CommandRecord) (input : Value) :
    Action CommandOutcome := do
  let toolCallId ← requiredStr input "tool_call_id"
  let reason := (optionalStr input "reason").getD "denied"
  let sessionId ← execute (.sessionForToolCall toolCallId)
  denyPendingToolCall toolCallId actor reason
  let eventId ← appendChronicle X ws actor sessionId "tool_call_denied" .control .low
    (.ofFields [("tool_call_id", .string toolCallId), ("reason", .string reason)])
    { commandId := some cmd.id, toolCallId := some toolCallId }
  return { commandId := cmd.id, eventId := some eventId,
           result := .ofFields [("denied", .string toolCallId), ("reason", .string reason)] }

def completeToolCall (toolCallId : ToolCallId) (resultCanon resultHash : String) : Action Unit := do
  let now ← nowRfc3339
  execute (.completeToolCall toolCallId resultCanon resultHash now)

def recordToolResult (ws : WorkspaceId) (actor : ActorId) (cmd : CommandRecord) (input : Value) :
    Action CommandOutcome := do
  let toolCallId ← requiredStr input "tool_call_id"
  let result := (input.get "result").getD (.object [])
  let resultCanon := canonicalJson X result
  let resultHash := sha256Hex X (asBytes resultCanon)
  let sessionId ← execute (.sessionForToolCall toolCallId)
  completeToolCall toolCallId resultCanon resultHash
  let eventId ← appendChronicle X ws actor sessionId "tool_call_finished" .effect .low
    (.ofFields [("tool_call_id", .string toolCallId), ("result", result)])
    { commandId := some cmd.id, toolCallId := some toolCallId }
  return { commandId := cmd.id, eventId := some eventId,
           result := .ofFields [("tool_call_id", .string toolCallId),
             ("result_hash", .string resultHash)] }

def proposeMemory (ws : WorkspaceId) (actor : ActorId) (cmd : CommandRecord) (input : Value) :
    Action CommandOutcome := do
  let text ← requiredStr input "text"
  let category := (optionalStr input "category").getD "fact"
  let confidence := ((input.get "confidence").bind Value.asF64).getD .half
  let sensitivity := (optionalStr input "sensitivity").getD "low"
  let sourceEventIds := (input.get "source_event_ids").getD (.array [])
  let mcId ← freshId "memc"
  let now ← nowRfc3339
  execute (.insertMemoryCandidate
    { id := mcId, workspaceId := ws, proposedByActorId := actor,
      sourceEventIds := sourceEventIds.toText X, text := text, category := category,
      confidence := confidence, sensitivity := sensitivity, status := .pendingReview,
      reviewReason := none, createdAt := now })
  let eventId ← appendChronicle X ws actor none "memory_proposed" .observation .low
    (.ofFields [("memory_candidate_id", .string mcId), ("text", .string text),
      ("confidence", .number (.float confidence))])
    { commandId := some cmd.id }
  return { commandId := cmd.id, eventId := some eventId,
           result := .ofFields [("memory_candidate_id", .string mcId)] }

def approveMemory (ws : WorkspaceId) (actor : ActorId) (cmd : CommandRecord) (input : Value) :
    Action CommandOutcome := do
  let mcId ← requiredStr input "memory_candidate_id"
  match ← execute (.memoryCandidate mcId) with
  | none => .fail (.notFound ("memory_candidate " ++ mcId))
  | some candidate =>
    let memId ← freshId "mem"
    let now ← nowRfc3339
    execute (.insertMemory
      { id := memId, workspaceId := ws, text := candidate.text, category := candidate.category,
        sensitivity := candidate.sensitivity, confidence := some candidate.confidence,
        scope := "global", sourceCandidateId := some mcId,
        sourceEventIds := candidate.sourceEventIds, usageCount := 0, createdAt := now })
    execute (.approveMemoryCandidate mcId)
    let eventId ← appendChronicle X ws actor none "memory_approved" .control .low
      (.ofFields [("memory_id", .string memId), ("memory_candidate_id", .string mcId)])
      { commandId := some cmd.id, memoryId := some memId }
    return { commandId := cmd.id, eventId := some eventId,
             result := .ofFields [("memory_id", .string memId)] }

def rejectMemory (ws : WorkspaceId) (actor : ActorId) (cmd : CommandRecord) (input : Value) :
    Action CommandOutcome := do
  let mcId ← requiredStr input "memory_candidate_id"
  let reason := (optionalStr input "reason").getD "rejected"
  execute (.rejectMemoryCandidate mcId reason)
  let eventId ← appendChronicle X ws actor none "memory_rejected" .control .low
    (.ofFields [("memory_candidate_id", .string mcId), ("reason", .string reason)])
    { commandId := some cmd.id }
  return { commandId := cmd.id, eventId := some eventId,
           result := .ofFields [("memory_candidate_id", .string mcId)] }

/-! ### Dispatch -/

/-- The `match` on the command type. -/
def runCommand (c : Call) (cmd : CommandRecord) : Action CommandOutcome :=
  match c.commandType with
  | "create_session" => createSession X c.workspaceId c.actorId cmd c.input
  | "append_user_message" =>
    appendMessage X c.workspaceId c.actorId cmd c.input "user" "user_message_received"
  | "append_agent_message" =>
    appendMessage X c.workspaceId c.actorId cmd c.input "agent" "agent_message"
  | "request_tool_call" => requestToolCall X policy c.workspaceId c.actorId cmd c.input
  | "approve_tool_call" => approveToolCall X c.workspaceId c.actorId cmd c.input
  | "deny_tool_call" => denyToolCall X c.workspaceId c.actorId cmd c.input
  | "record_tool_result" => recordToolResult X c.workspaceId c.actorId cmd c.input
  | "propose_memory" => proposeMemory X c.workspaceId c.actorId cmd c.input
  | "approve_memory" => approveMemory X c.workspaceId c.actorId cmd c.input
  | "reject_memory" => rejectMemory X c.workspaceId c.actorId cmd c.input
  | other => .fail (.invalidInput ("unknown command_type: " ++ other))

def ensureWorkspace (id : WorkspaceId) : Action Unit := do
  match ← execute (.getWorkspace id) with
  | some _ => pure ()
  | none =>
    let now ← nowRfc3339
    execute (.insertWorkspace { id := id, name := id, createdAt := now, archivedAt := none })

/-- The workspace and the actor of the call, inserted when they are new. -/
def register (c : Call) : Action Unit := do
  ensureWorkspace c.workspaceId
  ensureActor c.workspaceId c.actorId .human

/-- The command id an earlier dispatch recorded under this call's key. -/
def lookupKey (c : Call) : Action (Option CommandId) :=
  match c.idempotencyKey with
  | none => pure none
  | some key => execute (.idempotencyLookup c.workspaceId key)

def receive (c : Call) : Action CommandRecord := do
  let canonical := canonicalJson X c.input
  let inputHash := sha256Hex X (asBytes canonical)
  let id ← freshId "cmd"
  let now ← nowRfc3339
  let cmd : CommandRecord :=
    { id := id, workspaceId := c.workspaceId, actorId := c.actorId, sessionId := none,
      commandType := c.commandType, inputInline := some canonical, inputHash := inputHash,
      policyId := none, status := .received, error := none, createdAt := now, committedAt := none }
  execute (.insertCommand cmd)
  return cmd

/-- The recording of the key, whose own outcome is discarded. -/
def recordKey (c : Call) (cmd : CommandRecord) : Action Unit :=
  match c.idempotencyKey with
  | none => pure ()
  | some key => Prog.ignore do
    let now ← nowRfc3339
    execute (.idempotencyRecord
      { workspaceId := c.workspaceId, idempotencyKey := key, actorId := c.actorId,
        commandType := c.commandType, inputHash := cmd.inputHash, resultRef := some cmd.id,
        createdAt := now })

def dispatch (c : Call) : Action CommandOutcome := do
  register c
  match ← lookupKey c with
  | some prior =>
    return { commandId := prior, eventId := none,
             result := .ofFields [("idempotent_replay", .bool true)] }
  | none =>
    let cmd ← receive X c
    let outcome ← runCommand X policy c cmd
    recordKey c cmd
    return outcome

/-- One dispatch executed to its end. -/
def dispatchIn (E : Env) (w : World) (c : Call) : World :=
  ((dispatch X policy c).run (handle E) w).2

/-- Dispatches whose statements interleave. -/
abbrev DispatchPool (ι : Type) := Pool ι World Op Op.Res ActantError CommandOutcome

end ActantDb
