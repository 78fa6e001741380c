import ActantDb.Command.Engine

/-!
# The blocks of a dispatch

A property of what dispatches do to some of the tables depends on a few blocks of the engine only: appending to the chronicle, filing a tool call, approving and denying one. `Blocks` asks a monitor to accept these four and to be indifferent to every other operation, and `dispatch_steady` concludes that it accepts every dispatch. It is the only traversal of the ten commands for properties of this kind.
-/

namespace ActantDb

open Prog

/-- The operations outside the four blocks. -/
def Op.Plain : Op → Prop
  | .sql (.appendEvent _) => False
  | .sql (.ingestEvent _) => False
  | .sql (.insertToolCall _) => False
  | .sql (.insertApprovalRequest _) => False
  | .sql (.setToolCallApprovalRequest _ _) => False
  | .sql (.approveApprovalRequest _ _ _ _) => False
  | .sql (.approveToolCall _) => False
  | .sql (.denyApprovalRequest _ _ _ _) => False
  | .sql (.denyToolCall _) => False
  | _ => True

variable {L : Type*}

structure Blocks (X : Crates) (M : Monitor Op Op.Res L) (K : L → Prop) : Prop where
  plain : ∀ l o, o.Plain → K l → M.allowed l o ∧ ∀ r, K (M.next l o r)
  chronicle : ∀ ws actor session eventType causalityKind sensitivity payload backrefs,
    Steady M K (appendChronicle X ws actor session eventType causalityKind sensitivity payload backrefs)
  file : ∀ ws actor toolCallId sessionId toolId toolName canon hash risk status v,
    Verdict.status v = .ok status →
      Steady M K (fileToolCall ws actor toolCallId sessionId toolId toolName canon hash risk status v)
  approve : ∀ toolCallId actor scope, Steady M K (approvePendingToolCall toolCallId actor scope)
  deny : ∀ toolCallId actor reason, Steady M K (denyPendingToolCall toolCallId actor reason)

variable {X : Crates} {M : Monitor Op Op.Res L} {K : L → Prop}

theorem steady_requiredStr (input : Value) (key : String) : Steady M K (requiredStr input key) := by
  unfold requiredStr
  split
  · exact steady_done _
  · exact steady_done _

/-- The operations that register a call's workspace and actor. -/
def Op.Registers : Op → Prop
  | .sql (.getWorkspace _) => True
  | .sql (.insertWorkspace _) => True
  | .sql (.getActor _) => True
  | .sql (.insertActor _) => True
  | .now => True
  | _ => False

section Registers

variable (h : ∀ l o, o.Registers → K l → M.allowed l o ∧ ∀ r, K (M.next l o r))

include h

theorem registers_execute {s : Sql} (hs : Op.Registers (.sql s)) : Steady M K (execute s) :=
  steady_execute fun l => h l _ hs

theorem registers_now : Steady M K nowRfc3339 := steady_now fun l => h l .now trivial

theorem ensureActor_steady (ws : WorkspaceId) (id : ActorId) (kind : ActorKind) :
    Steady M K (ensureActor ws id kind) := by
  apply (registers_execute h (by trivial)).bind
  intro found
  cases found with
  | some a => exact steady_done _
  | none => exact (registers_now h).bind fun now => registers_execute h (by trivial)

theorem register_steady (c : Call) : Steady M K (register c) := by
  refine Steady.bind ?_ fun _ => ensureActor_steady h _ _ _
  apply (registers_execute h (by trivial)).bind
  intro found
  cases found with
  | some ws => exact steady_done _
  | none => exact (registers_now h).bind fun now => registers_execute h (by trivial)

end Registers

theorem Op.Registers.plain {o : Op} (h : o.Registers) : o.Plain := by
  cases o with
  | now => trivial
  | ulid => exact h.elim
  | sql s => cases s <;> first | exact h.elim | trivial

namespace Blocks

variable (B : Blocks X M K)

include B

theorem execute {s : Sql} (h : Op.Plain (.sql s)) : Steady M K (execute s) :=
  steady_execute fun l => B.plain l _ h

theorem now : Steady M K nowRfc3339 := steady_now fun l => B.plain l .now trivial

theorem freshId (tag : String) : Steady M K (freshId tag) :=
  steady_freshId (fun l => B.plain l .ulid trivial) tag

theorem registers (l : L) (o : Op) (ho : o.Registers) (hl : K l) :
    M.allowed l o ∧ ∀ r, K (M.next l o r) :=
  B.plain l o ho.plain hl

theorem createSession (ws : WorkspaceId) (actor : ActorId) (cmd : CommandRecord) (input : Value) :
    Steady M K (createSession X ws actor cmd input) := by
  have hagent : ∀ agent, Steady M K (ensureAgent ws agent) := by
    intro agent
    cases agent with
    | none => exact steady_done _
    | some id => exact ensureActor_steady B.registers ws id .agent
  apply (hagent _).bind
  intro _
  have hsession : Steady M K (sessionIdOf input) := by
    unfold sessionIdOf
    split
    · exact steady_done _
    · exact B.freshId _
  apply hsession.bind
  intro sessionId
  apply (B.execute (by trivial)).bind
  intro found
  cases found with
  | true => exact steady_done _
  | false =>
    refine B.now.bind fun now => (B.execute (by trivial)).bind fun _ => ?_
    exact (B.chronicle ..).bind fun eventId => steady_done _

theorem appendMessage (ws : WorkspaceId) (actor : ActorId) (cmd : CommandRecord) (input : Value)
    (role eventType : String) : Steady M K (appendMessage X ws actor cmd input role eventType) := by
  apply (steady_requiredStr input _).bind
  intro sessionId
  apply (steady_requiredStr input _).bind
  intro text
  refine (B.freshId _).bind fun msgId => B.now.bind fun now => ?_
  apply (B.execute (by trivial)).bind
  intro _
  exact (B.chronicle ..).bind fun eventId => steady_done _

theorem upsertTool (ws : WorkspaceId) (name : String) : Steady M K (upsertTool ws name) := by
  apply (B.execute (by trivial)).bind
  intro found
  cases found with
  | some id => exact steady_done _
  | none =>
    refine (B.freshId _).bind fun id => B.now.bind fun now => ?_
    exact (B.execute (by trivial)).bind fun _ => steady_done _

theorem requestToolCall (policy : PolicyDoc) (ws : WorkspaceId) (actor : ActorId)
    (cmd : CommandRecord) (input : Value) :
    Steady M K (requestToolCall X policy ws actor cmd input) := by
  apply (steady_requiredStr input _).bind
  intro sessionId
  apply (steady_requiredStr input _).bind
  intro toolName
  apply (B.upsertTool ws toolName).bind
  intro toolId
  apply (B.freshId _).bind
  intro toolCallId
  cases hstatus : Verdict.status (evaluate X policy _) with
  | error e => exact steady_done _
  | ok status =>
    apply (B.file _ _ _ _ _ _ _ _ _ _ _ hstatus).bind
    intro _
    exact (B.chronicle ..).bind fun eventId => steady_done _

theorem approveToolCall (ws : WorkspaceId) (actor : ActorId) (cmd : CommandRecord)
    (input : Value) : Steady M K (approveToolCall X ws actor cmd input) := by
  apply (steady_requiredStr input _).bind
  intro toolCallId
  apply (B.execute (by trivial)).bind
  intro sessionId
  apply (B.approve ..).bind
  intro _
  exact (B.chronicle ..).bind fun eventId => steady_done _

theorem denyToolCall (ws : WorkspaceId) (actor : ActorId) (cmd : CommandRecord) (input : Value) :
    Steady M K (denyToolCall X ws actor cmd input) := by
  apply (steady_requiredStr input _).bind
  intro toolCallId
  apply (B.execute (by trivial)).bind
  intro sessionId
  apply (B.deny ..).bind
  intro _
  exact (B.chronicle ..).bind fun eventId => steady_done _

theorem recordToolResult (ws : WorkspaceId) (actor : ActorId) (cmd : CommandRecord)
    (input : Value) : Steady M K (recordToolResult X ws actor cmd input) := by
  apply (steady_requiredStr input _).bind
  intro toolCallId
  apply (B.execute (by trivial)).bind
  intro sessionId
  refine Steady.bind (B.now.bind fun now => B.execute (by trivial)) fun _ => ?_
  exact (B.chronicle ..).bind fun eventId => steady_done _

theorem proposeMemory (ws : WorkspaceId) (actor : ActorId) (cmd : CommandRecord) (input : Value) :
    Steady M K (proposeMemory X ws actor cmd input) := by
  apply (steady_requiredStr input _).bind
  intro text
  refine (B.freshId _).bind fun mcId => B.now.bind fun now => ?_
  apply (B.execute (by trivial)).bind
  intro _
  exact (B.chronicle ..).bind fun eventId => steady_done _

theorem approveMemory (ws : WorkspaceId) (actor : ActorId) (cmd : CommandRecord) (input : Value) :
    Steady M K (approveMemory X ws actor cmd input) := by
  apply (steady_requiredStr input _).bind
  intro mcId
  apply (B.execute (by trivial)).bind
  intro candidate
  cases candidate with
  | none => exact steady_done _
  | some candidate =>
    refine (B.freshId _).bind fun memId => B.now.bind fun now => ?_
    refine (B.execute (by trivial)).bind fun _ => (B.execute (by trivial)).bind fun _ => ?_
    exact (B.chronicle ..).bind fun eventId => steady_done _

theorem rejectMemory (ws : WorkspaceId) (actor : ActorId) (cmd : CommandRecord) (input : Value) :
    Steady M K (rejectMemory X ws actor cmd input) := by
  apply (steady_requiredStr input _).bind
  intro mcId
  apply (B.execute (by trivial)).bind
  intro _
  exact (B.chronicle ..).bind fun eventId => steady_done _

theorem runCommand (policy : PolicyDoc) (c : Call) (cmd : CommandRecord) :
    Steady M K (runCommand X policy c cmd) := by
  unfold ActantDb.runCommand
  split
  · exact B.createSession ..
  · exact B.appendMessage ..
  · exact B.appendMessage ..
  · exact B.requestToolCall ..
  · exact B.approveToolCall ..
  · exact B.denyToolCall ..
  · exact B.recordToolResult ..
  · exact B.proposeMemory ..
  · exact B.approveMemory ..
  · exact B.rejectMemory ..
  · exact steady_done _

theorem receive (c : Call) : Steady M K (receive X c) :=
  (B.freshId _).bind fun _ => B.now.bind fun _ => (B.execute (by trivial)).bind fun _ => steady_done _

theorem recordKey (c : Call) (cmd : CommandRecord) : Steady M K (recordKey c cmd) := by
  unfold ActantDb.recordKey
  split
  · exact steady_done _
  · exact Steady.ignore (B.now.bind fun _ => B.execute (by trivial))

end Blocks

/-- Where a monitor minds nothing but the chronicle, only that block has to be looked at. -/
theorem Blocks.of_chronicle (hother : ∀ l o, o.writes ≠ some .agentEvent →
    K l → M.allowed l o ∧ ∀ r, K (M.next l o r))
    (hchronicle : ∀ ws actor session eventType causalityKind sensitivity payload backrefs,
      Steady M K
        (appendChronicle X ws actor session eventType causalityKind sensitivity payload backrefs)) :
    Blocks X M K := by
  have hexec : ∀ s : Sql, s.writes ≠ some .agentEvent → Steady M K (ActantDb.execute s) :=
    fun s hs => steady_execute fun l hl => hother l _ hs hl
  have hnow : Steady M K nowRfc3339 := steady_now fun l => hother l .now (by decide)
  constructor
  case plain =>
    intro l o ho hl
    refine hother l o ?_ hl
    cases o with
    | now => simp [Op.writes]
    | ulid => simp [Op.writes]
    | sql s => cases s <;> first | exact ho.elim | simp [Op.writes, Sql.writes]
  case chronicle => exact hchronicle
  case file =>
    intro ws actor toolCallId sessionId toolId toolName canon hash risk status v _
    refine hnow.bind fun now => (hexec _ (by simp [Sql.writes])).bind fun _ => ?_
    have hid : Steady M K (ActantDb.freshId "appr") :=
      steady_freshId (fun l => hother l .ulid (by decide)) _
    cases v with
    | requireApproval =>
      refine hid.bind fun arId => hnow.bind fun now => ?_
      exact (hexec _ (by simp [Sql.writes])).bind fun _ => hexec _ (by simp [Sql.writes])
    | allow | constrain | block | halt => exact steady_done _
  case approve =>
    intro toolCallId actor scope
    refine hnow.bind fun now => (hexec _ (by simp [Sql.writes])).bind fun _ => ?_
    exact hexec _ (by simp [Sql.writes])
  case deny =>
    intro toolCallId actor reason
    refine hnow.bind fun now => (hexec _ (by simp [Sql.writes])).bind fun _ => ?_
    exact hexec _ (by simp [Sql.writes])

/-- A monitor that accepts the four blocks accepts every dispatch. -/
theorem dispatch_steady (B : Blocks X M K) (policy : PolicyDoc) (c : Call) :
    Steady M K (dispatch X policy c) := by
  apply (register_steady B.registers c).bind
  intro _
  have hlookup : Steady M K (lookupKey c) := by
    unfold lookupKey
    split
    · exact steady_done _
    · exact B.execute (by trivial)
  apply hlookup.bind
  intro prior
  cases prior with
  | some id => exact steady_done _
  | none =>
    refine (B.receive c).bind fun cmd => (B.runCommand policy c cmd).bind fun outcome => ?_
    exact (B.recordKey c cmd).bind fun _ => steady_done _

end ActantDb
