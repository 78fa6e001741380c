import ActantDb.Core.Hash
import ActantDb.Core.Time

/-!
# Row types

The enumerations and rows the command engine and the repositories exchange with the database. An id is text; a column that may be `NULL` is an option; a column whose values the code takes from an enumeration holds that enumeration.
-/

namespace ActantDb

abbrev WorkspaceId := String
abbrev ActorId := String
abbrev SessionId := String
abbrev MessageId := String
abbrev EventId := String
abbrev CommandId := String
abbrev ToolId := String
abbrev ToolCallId := String
abbrev ApprovalRequestId := String
abbrev MemoryId := String
abbrev MemoryCandidateId := String
abbrev EffectId := String
abbrev WorkerId := String

inductive ActorKind where
  | human | agent | subagent | model | tool | worker | system
deriving DecidableEq, Repr

inductive Sensitivity where
  | «public» | low | medium | high | secret | regulated
deriving DecidableEq, Repr

/-- From least to most sensitive. -/
def Sensitivity.rank : Sensitivity → Nat
  | .«public» => 0
  | .low => 1
  | .medium => 2
  | .high => 3
  | .secret => 4
  | .regulated => 5

inductive RiskLevel where
  | low | medium | high | critical
deriving DecidableEq, Repr

inductive CausalityKind where
  | observation | intent | effect | control | audit
deriving DecidableEq, Repr

inductive SessionStatus where
  | active | paused | closed
deriving DecidableEq, Repr

inductive CommandStatus where
  | received | committed | rejected
deriving DecidableEq, Repr

inductive ToolCallStatus where
  | requested | pendingApproval | approved | denied | running | completed | failed | cancelled
deriving DecidableEq, Repr

inductive ApprovalStatus where
  | pending | approved | denied | expired | escalated | cancelled
deriving DecidableEq, Repr

inductive MemoryCandidateStatus where
  | proposed | pendingReview | approved | rejected | edited
deriving DecidableEq, Repr

/-- The serialized name of a tool call's status. -/
def ToolCallStatus.name : ToolCallStatus → String
  | .requested => "requested"
  | .pendingApproval => "pending_approval"
  | .approved => "approved"
  | .denied => "denied"
  | .running => "running"
  | .completed => "completed"
  | .failed => "failed"
  | .cancelled => "cancelled"

structure Workspace where
  id : WorkspaceId
  name : String
  createdAt : String
  archivedAt : Option String
deriving DecidableEq

structure Actor where
  id : ActorId
  workspaceId : WorkspaceId
  kind : ActorKind
  displayName : String
  createdAt : String
  disabledAt : Option String
deriving DecidableEq

structure Session where
  id : SessionId
  workspaceId : WorkspaceId
  title : Option String
  initiatorActorId : ActorId
  agentActorId : Option ActorId
  status : SessionStatus
  createdAt : String
  closedAt : Option String
deriving DecidableEq

structure Message where
  id : MessageId
  sessionId : SessionId
  workspaceId : WorkspaceId
  authorActorId : ActorId
  role : String
  bodyRef : Option String
  bodyText : Option String
  bodyHash : String
  createdAt : String
deriving DecidableEq

structure Tool where
  id : ToolId
  workspaceId : WorkspaceId
  name : String
  kind : String
  requiredPermission : String
  defaultRiskLevel : RiskLevel
  createdAt : String
deriving DecidableEq

structure ToolCall where
  id : ToolCallId
  workspaceId : WorkspaceId
  sessionId : Option SessionId
  requestedByActorId : ActorId
  toolId : ToolId
  schemaVersion : Int
  argumentsInline : Option String
  argumentsHash : String
  status : ToolCallStatus
  riskLevel : RiskLevel
  approvalRequestId : Option ApprovalRequestId
  resultRef : Option String
  resultHash : Option String
  createdAt : String
  completedAt : Option String
deriving DecidableEq

structure ApprovalRequest where
  id : ApprovalRequestId
  workspaceId : WorkspaceId
  toolCallId : Option ToolCallId
  requestedByActorId : ActorId
  riskLevel : RiskLevel
  requiredPermission : String
  summary : String
  status : ApprovalStatus
  scopeGranted : Option String
  createdAt : String
  approvedAt : Option String
  approvedByActorId : Option ActorId
  deniedReason : Option String
deriving DecidableEq

structure MemoryCandidate where
  id : MemoryCandidateId
  workspaceId : WorkspaceId
  proposedByActorId : ActorId
  sourceEventIds : String
  text : String
  category : String
  confidence : F64
  sensitivity : String
  status : MemoryCandidateStatus
  reviewReason : Option String
  createdAt : String
deriving DecidableEq

structure Memory where
  id : MemoryId
  workspaceId : WorkspaceId
  text : String
  category : String
  sensitivity : String
  confidence : Option F64
  scope : String
  sourceCandidateId : Option MemoryCandidateId
  sourceEventIds : String
  usageCount : Int
  createdAt : String
deriving DecidableEq

structure AgentEvent where
  id : EventId
  workspaceId : WorkspaceId
  actorId : ActorId
  sessionId : Option SessionId
  parentEventId : Option EventId
  eventType : String
  causalityKind : CausalityKind
  sensitivity : Sensitivity
  authorityScopeId : Option String
  payloadInline : Option String
  payloadRef : Option String
  payloadHash : String
  eventHash : String
  createdAt : String
  modelCallId : Option String
  toolCallId : Option ToolCallId
  workflowRunId : Option String
  memoryId : Option MemoryId
  artifactId : Option String
  commandId : Option CommandId
  effectId : Option EffectId
deriving DecidableEq

/-- A stored event: the event and the replication columns, which have defaults. -/
structure AgentEventRow where
  event : AgentEvent
  deviceId : String := "_legacy_"
  hlcPhysicalMs : Int := 0
  hlcLogical : Int := 0
deriving DecidableEq

def AgentEventRow.id (r : AgentEventRow) : EventId := r.event.id

structure CommandRecord where
  id : CommandId
  workspaceId : WorkspaceId
  actorId : ActorId
  sessionId : Option SessionId
  commandType : String
  inputInline : Option String
  inputHash : String
  policyId : Option String
  status : CommandStatus
  error : Option String
  createdAt : String
  committedAt : Option String
deriving DecidableEq

structure IdempotencyRecord where
  workspaceId : WorkspaceId
  idempotencyKey : String
  actorId : ActorId
  commandType : String
  inputHash : String
  resultRef : Option String
  createdAt : String
deriving DecidableEq

def IdempotencyRecord.key (r : IdempotencyRecord) : WorkspaceId × String :=
  (r.workspaceId, r.idempotencyKey)

inductive EffectStatus where
  | pending | claimed | running | succeeded | failed | cancelled | awaitingApproval
deriving DecidableEq, Repr

structure Effect where
  id : EffectId
  workspaceId : WorkspaceId
  commandId : CommandId
  requestedByActorId : ActorId
  effectType : String
  status : EffectStatus
  riskLevel : RiskLevel
  inputInline : Option String
  inputHash : String
  assignedWorkerId : Option WorkerId
  attemptCount : Int
  maxAttempts : Int
  nextAttemptAt : Option String
  startedAt : Option String
  finishedAt : Option String
  resultRef : Option String
  resultHash : Option String
  error : Option String
  createdAt : String
deriving DecidableEq

structure EffectClaim where
  id : String
  effectId : EffectId
  workerId : WorkerId
  claimedAt : String
  expiresAt : String
  releasedAt : Option String
deriving DecidableEq

structure EffectResult where
  id : String
  effectId : EffectId
  attemptNumber : Int
  succeeded : Int
  outputRef : Option String
  outputHash : Option String
  startedAt : String
  finishedAt : String
deriving DecidableEq

structure Worker where
  id : WorkerId
  workspaceId : WorkspaceId
  actorId : ActorId
  name : String
  host : Option String
  version : Option String
  status : String
  lastHeartbeatAt : Option String
  createdAt : String
  disabledAt : Option String
deriving DecidableEq

structure WorkerHeartbeat where
  id : String
  workerId : WorkerId
  at_ : String
  inFlightCount : Int
deriving DecidableEq

/-- Why a statement was refused. -/
inductive SqlError where
  | unique (table : String)
  | foreignKey (table : String)
  | notNull (table : String)
  -- a column that does not parse
  | decode (column : String)
  | unavailable
deriving DecidableEq, Repr

/-- The errors of the public interface. A storage error carries the cause the driver reported. -/
inductive ActantError where
  | storage (cause : SqlError)
  | invalidInput (message : String)
  | permissionDenied (message : String)
  | notFound (message : String)
  | policyHalt (message : String)
  | internal (message : String)
deriving DecidableEq, Repr

end ActantDb
