import Mathlib.Data.List.Sort
import Mathlib.Data.Prod.Lex
import ActantDb.Core.Ids
import ActantDb.Lib.Table

/-!
# The database

The tables the command engine, the ingest path and the effect queue read and write, with the constraints of the migrations: primary keys and the one unique index by construction, foreign keys checked by every insertion (the pool opens each connection with them on). A column no modelled function sets or reads is left out.

Two queries order events by the text of `created_at` and then by id; that order and its two uses are at the end.
-/

namespace ActantDb

structure Db where
  workspace : Table Workspace.id
  actor : Table Actor.id
  session : Table Session.id
  message : Table Message.id
  tool : Table Tool.id
  toolCall : Table ToolCall.id
  approvalRequest : Table ApprovalRequest.id
  memoryCandidate : Table MemoryCandidate.id
  memory : Table Memory.id
  agentEvent : Table AgentEventRow.id
  commandRecord : Table CommandRecord.id
  idempotencyRecord : Table IdempotencyRecord.key
  effect : Table Effect.id
  effectClaim : Table EffectClaim.id
  effectResult : Table EffectResult.id
  worker : Table Worker.id
  workerHeartbeat : Table WorkerHeartbeat.id
  -- only the ids of these are referred to
  authorityScope : List String
  policy : List String
deriving DecidableEq

namespace Db

def empty : Db :=
  ⟨.empty, .empty, .empty, .empty, .empty, .empty, .empty, .empty, .empty, .empty, .empty, .empty,
    .empty, .empty, .empty, .empty, .empty, [], []⟩

/-- One workspace and one actor, for sample runs. -/
def sample : Db :=
  { empty with
    workspace := ⟨[⟨"ws_demo", "demo", "2023-11-14T22:13:20Z", none⟩], by decide⟩
    actor := ⟨[⟨"act_demo", "ws_demo", .agent, "demo", "2023-11-14T22:13:20Z", none⟩], by decide⟩ }

/-- The tables the commands are about: all but workspaces, actors and the bookkeeping. -/
structure SameDomain (a b : Db) : Prop where
  session : a.session = b.session
  message : a.message = b.message
  tool : a.tool = b.tool
  toolCall : a.toolCall = b.toolCall
  approvalRequest : a.approvalRequest = b.approvalRequest
  memoryCandidate : a.memoryCandidate = b.memoryCandidate
  memory : a.memory = b.memory
  agentEvent : a.agentEvent = b.agentEvent

theorem SameDomain.refl (a : Db) : SameDomain a a :=
  ⟨rfl, rfl, rfl, rfl, rfl, rfl, rfl, rfl⟩

theorem SameDomain.symm {a b : Db} (h : SameDomain a b) : SameDomain b a :=
  ⟨h.session.symm, h.message.symm, h.tool.symm, h.toolCall.symm, h.approvalRequest.symm,
    h.memoryCandidate.symm, h.memory.symm, h.agentEvent.symm⟩

theorem SameDomain.trans {a b c : Db} (hab : SameDomain a b) (hbc : SameDomain b c) :
    SameDomain a c :=
  ⟨hab.session.trans hbc.session, hab.message.trans hbc.message, hab.tool.trans hbc.tool,
    hab.toolCall.trans hbc.toolCall, hab.approvalRequest.trans hbc.approvalRequest,
    hab.memoryCandidate.trans hbc.memoryCandidate, hab.memory.trans hbc.memory,
    hab.agentEvent.trans hbc.agentEvent⟩

instance (a b : Db) : Decidable (SameDomain a b) :=
  decidable_of_iff
    (a.session = b.session ∧ a.message = b.message ∧ a.tool = b.tool ∧ a.toolCall = b.toolCall ∧
      a.approvalRequest = b.approvalRequest ∧ a.memoryCandidate = b.memoryCandidate ∧
      a.memory = b.memory ∧ a.agentEvent = b.agentEvent)
    ⟨fun h => ⟨h.1, h.2.1, h.2.2.1, h.2.2.2.1, h.2.2.2.2.1, h.2.2.2.2.2.1, h.2.2.2.2.2.2.1,
      h.2.2.2.2.2.2.2⟩, fun h => ⟨h.1, h.2, h.3, h.4, h.5, h.6, h.7, h.8⟩⟩

end Db

/-! ### Constraints -/

/-- A foreign key that may be `NULL`. -/
def refersTo {Row Key : Type} {key : Row → Key} [DecidableEq Key] (t : Table key) :
    Option Key → Bool
  | none => true
  | some k => t.contains k

/-- `INSERT`: a key that is taken fails at once, a dangling reference when the statement ends. -/
def insertRow {Row Key : Type} {key : Row → Key} [DecidableEq Key] (name : String)
    (t : Table key) (r : Row) (references : Bool) : Except SqlError (Table key) :=
  match t.insert? r with
  | none => .error (.unique name)
  | some t' => if references then .ok t' else .error (.foreignKey name)

theorem insertRow_eq_ok {Row Key : Type} {key : Row → Key} [DecidableEq Key] {name : String}
    {t t' : Table key} {r : Row} {references : Bool} :
    insertRow name t r references = .ok t' ↔ references = true ∧ t.insert? r = some t' := by
  rw [insertRow]
  cases t.insert? r with
  | none => simp
  | some u => cases references <;> simp

section InsertRow

variable {Row Key : Type} {key : Row → Key} [DecidableEq Key] {name : String} {t : Table key}
  {r : Row} {references : Bool}

/-- With a new key and references that hold the insertion is accepted. -/
theorem insertRow_accepted (hkey : t.contains (key r) = false) (href : references = true) :
    ∃ t', insertRow name t r references = .ok t' ∧ t.insert? r = some t' := by
  cases hins : t.insert? r with
  | none =>
    rw [Table.insert?_eq_none, hkey] at hins
    cases hins
  | some t' => exact ⟨t', insertRow_eq_ok.mpr ⟨href, hins⟩, rfl⟩

theorem insertRow_refused (h : t.contains (key r) = true ∨ references = false) (t' : Table key) :
    insertRow name t r references ≠ .ok t' := by
  intro hok
  obtain ⟨href, hins⟩ := insertRow_eq_ok.mp hok
  rcases h with hkey | hdangling
  · rw [Table.insert?_eq_none.mpr hkey] at hins
    cases hins
  · rw [hdangling] at href
    cases href

end InsertRow

namespace Db

variable (db : Db)

def actorReferences (a : Actor) : Bool := db.workspace.contains a.workspaceId

def sessionReferences (s : Session) : Bool :=
  db.workspace.contains s.workspaceId && db.actor.contains s.initiatorActorId &&
    refersTo db.actor s.agentActorId

def messageReferences (m : Message) : Bool :=
  db.session.contains m.sessionId && db.workspace.contains m.workspaceId &&
    db.actor.contains m.authorActorId

def toolReferences (t : Tool) : Bool := db.workspace.contains t.workspaceId

def toolCallReferences (tc : ToolCall) : Bool :=
  db.workspace.contains tc.workspaceId && refersTo db.session tc.sessionId &&
    db.actor.contains tc.requestedByActorId && db.tool.contains tc.toolId

def approvalRequestReferences (ar : ApprovalRequest) : Bool :=
  db.workspace.contains ar.workspaceId && refersTo db.toolCall ar.toolCallId &&
    db.actor.contains ar.requestedByActorId && refersTo db.actor ar.approvedByActorId

def memoryCandidateReferences (mc : MemoryCandidate) : Bool :=
  db.workspace.contains mc.workspaceId && db.actor.contains mc.proposedByActorId

def memoryReferences (m : Memory) : Bool :=
  db.workspace.contains m.workspaceId && refersTo db.memoryCandidate m.sourceCandidateId

/-- An event may name itself as its parent: the check comes after the insertion. -/
def agentEventReferences (e : AgentEvent) : Bool :=
  db.workspace.contains e.workspaceId && db.actor.contains e.actorId &&
    refersTo db.session e.sessionId &&
    (refersTo db.agentEvent e.parentEventId || e.parentEventId == some e.id) &&
    e.authorityScopeId.all (db.authorityScope.contains ·)

def commandRecordReferences (c : CommandRecord) : Bool :=
  db.workspace.contains c.workspaceId && db.actor.contains c.actorId &&
    refersTo db.session c.sessionId && c.policyId.all (db.policy.contains ·)

def idempotencyRecordReferences (r : IdempotencyRecord) : Bool := db.actor.contains r.actorId

def effectReferences (e : Effect) : Bool :=
  db.workspace.contains e.workspaceId && db.commandRecord.contains e.commandId &&
    db.actor.contains e.requestedByActorId && e.assignedWorkerId.all (db.worker.contains ·)

def effectClaimReferences (c : EffectClaim) : Bool :=
  db.effect.contains c.effectId && db.worker.contains c.workerId

def workerHeartbeatReferences (hb : WorkerHeartbeat) : Bool := db.worker.contains hb.workerId

/-- `UNIQUE (effect_id, worker_id, claimed_at)` on `effect_claim`. -/
def claimedAlready (c : EffectClaim) : Bool :=
  db.effectClaim.rows.any fun c' =>
    c'.effectId = c.effectId && c'.workerId = c.workerId && c'.claimedAt = c.claimedAt

/-- `UNIQUE (workspace_id, name)` on `tool`. -/
def toolNamed (ws : WorkspaceId) (name : String) : Option Tool :=
  db.tool.rows.find? fun t => t.workspaceId = ws && t.name = name

end Db

/-! ### The order of events -/

/-- `ORDER BY created_at ASC, id ASC`. -/
def AgentEventRow.before (a b : AgentEventRow) : Prop :=
  a.event.createdAt < b.event.createdAt ∨
    a.event.createdAt = b.event.createdAt ∧ a.event.id ≤ b.event.id

instance (a b : AgentEventRow) : Decidable (a.before b) :=
  inferInstanceAs (Decidable (_ ∨ _ ∧ _))

theorem before_iff_lex {a b : AgentEventRow} :
    a.before b ↔ toLex (a.event.createdAt, a.event.id) ≤ toLex (b.event.createdAt, b.event.id) := by
  rw [Prod.Lex.le_iff]
  rfl

instance : IsTrans AgentEventRow AgentEventRow.before :=
  ⟨fun a b c hab hbc => by
    rw [before_iff_lex] at hab hbc ⊢
    exact hab.trans hbc⟩

instance : Std.Total AgentEventRow.before :=
  ⟨fun a b => by
    rw [before_iff_lex, before_iff_lex]
    exact le_total _ _⟩

def inOrder (rows : List AgentEventRow) : List AgentEventRow :=
  rows.insertionSort AgentEventRow.before

theorem inOrder_perm (rows : List AgentEventRow) : (inOrder rows).Perm rows :=
  List.perm_insertionSort _ _

theorem mem_inOrder {rows : List AgentEventRow} {r : AgentEventRow} :
    r ∈ inOrder rows ↔ r ∈ rows :=
  (inOrder_perm rows).mem_iff

theorem orderedInsert_append {α : Type*} {r : α → α → Prop} [DecidableRel r] {a b : α}
    (h : r a b) (l : List α) : (l ++ [b]).orderedInsert r a = l.orderedInsert r a ++ [b] := by
  induction l with
  | nil => simp [h]
  | cons c l ih =>
    simp only [List.cons_append, List.orderedInsert_cons]
    split
    · rfl
    · rw [ih, List.cons_append]

theorem before_refl (a : AgentEventRow) : a.before a := by
  rw [before_iff_lex]

theorem id_eq_of_before {a b : AgentEventRow} (hab : a.before b) (hba : b.before a) :
    a.id = b.id := by
  rw [before_iff_lex] at hab hba
  exact congrArg Prod.snd (toLex_inj.mp (le_antisymm hab hba))

/-- The row listed last sorts after every other. -/
theorem getLast?_inOrder {rows : List AgentEventRow} {r : AgentEventRow}
    (h : (inOrder rows).getLast? = some r) : r ∈ rows ∧ ∀ r' ∈ rows, r'.before r := by
  obtain ⟨init, hinit⟩ := List.getLast?_eq_some_iff.mp h
  have hsorted : (inOrder rows).Pairwise AgentEventRow.before := List.pairwise_insertionSort _ _
  rw [hinit, List.pairwise_append] at hsorted
  refine ⟨mem_inOrder.mp (by simp [hinit]), fun r' hr' => ?_⟩
  have hmem := mem_inOrder.mpr hr'
  rw [hinit, List.mem_append, List.mem_singleton] at hmem
  rcases hmem with hmem | rfl
  · exact hsorted.2.2 r' hmem r List.mem_cons_self
  · exact before_refl r'

/-- A row that sorts after all others is listed last. -/
theorem inOrder_append {rows : List AgentEventRow} {r : AgentEventRow}
    (h : ∀ r' ∈ rows, r'.before r) : inOrder (rows ++ [r]) = inOrder rows ++ [r] := by
  induction rows with
  | nil => rfl
  | cons a rows ih =>
    have htail := ih fun r' hr' => h r' (List.mem_cons_of_mem _ hr')
    simp only [inOrder] at htail ⊢
    rw [List.cons_append, List.insertionSort_cons, htail,
      orderedInsert_append (h a List.mem_cons_self), List.insertionSort_cons]

namespace Db

variable (db : Db)

/-- The rows of a session, in the order they were inserted. -/
def sessionLine (s : SessionId) : List AgentEventRow :=
  db.agentEvent.rows.filter fun r => r.event.sessionId = some s

/-- The rows `events_in_session` lists, in its order. -/
def sessionRows (s : SessionId) : List AgentEventRow := inOrder (db.sessionLine s)

/-- `events_in_session`. -/
def eventsInSession (s : SessionId) : List AgentEvent := (db.sessionRows s).map (·.event)

/-- The rows `last_event_hash` selects: those of a workspace, and of one session when it is given. -/
def chronicle (ws : WorkspaceId) (s : Option SessionId) : List AgentEventRow :=
  db.agentEvent.rows.filter fun r =>
    r.event.workspaceId = ws && (s.isNone || r.event.sessionId = s)

/-- `last_event_hash`. -/
def lastEventHash (ws : WorkspaceId) (s : Option SessionId) : Option String :=
  (inOrder (db.chronicle ws s)).getLast?.map (·.event.eventHash)

variable {db} {s : SessionId} {r : AgentEventRow}

theorem mem_sessionLine : r ∈ db.sessionLine s ↔ r ∈ db.agentEvent ∧ r.event.sessionId = some s := by
  simp [sessionLine, Table.mem_iff]

theorem mem_sessionRows : r ∈ db.sessionRows s ↔ r ∈ db.sessionLine s := mem_inOrder

theorem mem_chronicle {ws : WorkspaceId} :
    r ∈ db.chronicle ws (some s) ↔ r ∈ db.sessionLine s ∧ r.event.workspaceId = ws := by
  simp only [chronicle, mem_sessionLine, Table.mem_iff, List.mem_filter, Option.isNone_some,
    Bool.false_or, Bool.and_eq_true, decide_eq_true_eq]
  tauto

/-- The query finds the row that sorts last in its session, when asked for that row's workspace. -/
theorem lastEventHash_of_last (hr : r ∈ db.sessionLine s)
    (hlast : ∀ r' ∈ db.sessionLine s, r'.before r) :
    db.lastEventHash r.event.workspaceId (some s) = some r.event.eventHash := by
  have hmem : r ∈ db.chronicle r.event.workspaceId (some s) := mem_chronicle.mpr ⟨hr, rfl⟩
  cases hfound : (inOrder (db.chronicle r.event.workspaceId (some s))).getLast? with
  | none =>
    have hlisted := mem_inOrder.mpr hmem
    rw [List.getLast?_eq_none_iff.mp hfound] at hlisted
    exact absurd hlisted List.not_mem_nil
  | some last =>
    -- both rows sort after each other, so they are one row
    obtain ⟨hselected, hall⟩ := getLast?_inOrder hfound
    have hline := (mem_chronicle.mp hselected).1
    have hid := id_eq_of_before (hlast last hline) (hall r hmem)
    have hsame : last = r :=
      Table.eq_of_key_eq (mem_sessionLine.mp hline).1 (mem_sessionLine.mp hr).1 hid
    rw [lastEventHash, hfound, hsame, Option.map_some]

theorem lastEventHash_of_empty {ws : WorkspaceId} (h : db.sessionLine s = []) :
    db.lastEventHash ws (some s) = none := by
  have hnone : db.chronicle ws (some s) = [] := by
    rw [List.eq_nil_iff_forall_not_mem]
    intro r hr
    have hline := (mem_chronicle.mp hr).1
    rw [h] at hline
    exact List.not_mem_nil hline
  rw [lastEventHash, hnone]
  rfl

end Db

end ActantDb
