import ActantDb.Lib.Program
import ActantDb.Storage.Schema

/-!
# Statements and the world they run in

A repository function is one SQL statement, or a few in a row; each statement is one constructor of `Sql` and one atomic operation. `exec` is its meaning: the reply with the new database, or an error and then no change at all.

A call runs in a world that has, besides the database, the sources of everything the code does not decide: the wall clock, the ULID generator, and the storage itself, which may refuse any statement. The environment fixes all three as sequences, so every theorem that holds for all environments holds for every clock, every generator and every failure point.
-/

namespace ActantDb

/-- One statement of `repo.rs`, the engine or the effect queue, named after the function that executes it or after what it does there. A timestamp the function takes while it binds the statement is an argument. -/
inductive Sql where
  | getWorkspace (id : WorkspaceId)
  | insertWorkspace (ws : Workspace)
  | getActor (id : ActorId)
  | insertActor (a : Actor)
  | sessionExists (ws : WorkspaceId) (id : SessionId)
  | insertSession (s : Session)
  | insertMessage (m : Message)
  | selectTool (ws : WorkspaceId) (name : String)
  | insertTool (t : Tool)
  | insertToolCall (tc : ToolCall)
  | insertApprovalRequest (ar : ApprovalRequest)
  | setToolCallApprovalRequest (toolCallId : ToolCallId) (id : ApprovalRequestId)
  | sessionForToolCall (toolCallId : ToolCallId)
  | approveApprovalRequest (toolCallId : ToolCallId) (actor : ActorId) (scope now : String)
  | approveToolCall (toolCallId : ToolCallId)
  | denyApprovalRequest (toolCallId : ToolCallId) (actor : ActorId) (reason now : String)
  | denyToolCall (toolCallId : ToolCallId)
  | completeToolCall (toolCallId : ToolCallId) (resultCanon resultHash now : String)
  | insertMemoryCandidate (mc : MemoryCandidate)
  | memoryCandidate (id : MemoryCandidateId)
  | insertMemory (m : Memory)
  | approveMemoryCandidate (id : MemoryCandidateId)
  | rejectMemoryCandidate (id : MemoryCandidateId) (reason : String)
  | lastEventHash (ws : WorkspaceId) (session : Option SessionId)
  | appendEvent (e : AgentEvent)
  | ingestEvent (row : AgentEventRow)
  | insertCommand (c : CommandRecord)
  | idempotencyLookup (ws : WorkspaceId) (key : String)
  | idempotencyRecord (r : IdempotencyRecord)
  | insertEffect (e : Effect)
  | oldestPending (ws : WorkspaceId) (types : List String)
  | claimEffect (id : EffectId) (worker : WorkerId) (now : String)
  | insertEffectClaim (c : EffectClaim)
  | startEffect (id : EffectId)
  | completeEffect (id : EffectId) (canon hash now : String)
  | insertEffectResult (id : String) (effectId : EffectId) (canon hash now : String)
  | failEffect (id : EffectId) (err now : String)
  | expiredClaims (now : String)
  | releaseClaim (id now : String)
  | reclaimEffect (id : EffectId) (now : String)
  | exhaustEffect (id : EffectId) (now : String)
  | heartbeatWorker (id : WorkerId) (now : String)
  | insertWorkerHeartbeat (hb : WorkerHeartbeat)

/-- What the statement answers with. -/
abbrev Sql.Reply : Sql → Type
  | .getWorkspace _ => Option Workspace
  | .getActor _ => Option Actor
  | .sessionExists _ _ => Bool
  | .selectTool _ _ => Option ToolId
  | .sessionForToolCall _ => Option SessionId
  | .memoryCandidate _ => Option MemoryCandidate
  | .lastEventHash _ _ => Option String
  -- whether the row was inserted
  | .ingestEvent _ => Bool
  | .idempotencyLookup _ _ => Option String
  | .oldestPending _ _ => Option (EffectId × String × Option String)
  -- whether the row was updated
  | .claimEffect _ _ _ => Bool
  | .expiredClaims _ => List (EffectId × String × Int × Int)
  | _ => Unit

/-! ### The updates -/

def ApprovalRequest.pendingFor (toolCallId : ToolCallId) (ar : ApprovalRequest) : Bool :=
  ar.toolCallId = some toolCallId && ar.status = .pending

def ApprovalRequest.approve (actor : ActorId) (scope now : String) (ar : ApprovalRequest) :
    ApprovalRequest :=
  { ar with status := .approved, approvedAt := some now, approvedByActorId := some actor,
            scopeGranted := some scope }

def ApprovalRequest.deny (actor : ActorId) (reason now : String) (ar : ApprovalRequest) :
    ApprovalRequest :=
  { ar with status := .denied, approvedAt := some now, approvedByActorId := some actor,
            deniedReason := some reason }

def ToolCall.complete (resultCanon resultHash now : String) (tc : ToolCall) : ToolCall :=
  { tc with status := .completed, resultRef := some resultCanon, resultHash := some resultHash,
            completedAt := some now }

/-- `UPDATE tool_call … WHERE id = ?`. -/
def Db.updateToolCall (db : Db) (id : ToolCallId) (f : ToolCall → ToolCall)
    (hf : ∀ tc, (f tc).id = tc.id) : Db :=
  { db with toolCall := db.toolCall.update (fun tc => tc.id = id) f hf }

theorem Db.mem_updateToolCall {db : Db} {id : ToolCallId} {f : ToolCall → ToolCall}
    {hf : ∀ tc, (f tc).id = tc.id} {tc' : ToolCall}
    (h : tc' ∈ (db.updateToolCall id f hf).toolCall) :
    ∃ tc ∈ db.toolCall, (tc.id = id ∧ tc' = f tc) ∨ (tc.id ≠ id ∧ tc' = tc) := by
  have hmem : tc' ∈ db.toolCall.update (fun tc => tc.id = id) f hf := h
  simpa using Table.mem_update_cases hmem

theorem Db.updateToolCall_eq_self {db : Db} {id : ToolCallId} {f : ToolCall → ToolCall}
    {hf : ∀ tc, (f tc).id = tc.id} :
    db.updateToolCall id f hf = db ↔ ∀ tc ∈ db.toolCall, tc.id = id → f tc = tc := by
  have htable : db.updateToolCall id f hf = db ↔
      db.toolCall.update (fun tc => tc.id = id) f hf = db.toolCall :=
    ⟨congrArg Db.toolCall, fun h => by rw [Db.updateToolCall, h]⟩
  rw [htable, Table.update_eq_self]
  simp only [decide_eq_true_eq]

/-- `UPDATE memory_candidate … WHERE id = ?`. -/
def Db.updateMemoryCandidate (db : Db) (id : MemoryCandidateId)
    (f : MemoryCandidate → MemoryCandidate) (hf : ∀ mc, (f mc).id = mc.id) : Db :=
  { db with memoryCandidate := db.memoryCandidate.update (fun mc => mc.id = id) f hf }

theorem Db.updateMemoryCandidate_eq_self {db : Db} {id : MemoryCandidateId}
    {f : MemoryCandidate → MemoryCandidate} {hf : ∀ mc, (f mc).id = mc.id} :
    db.updateMemoryCandidate id f hf = db ↔
      ∀ mc ∈ db.memoryCandidate, mc.id = id → f mc = mc := by
  have htable : db.updateMemoryCandidate id f hf = db ↔
      db.memoryCandidate.update (fun mc => mc.id = id) f hf = db.memoryCandidate :=
    ⟨congrArg Db.memoryCandidate, fun h => by rw [Db.updateMemoryCandidate, h]⟩
  rw [htable, Table.update_eq_self]
  simp only [decide_eq_true_eq]

/-- `UPDATE approval_request … WHERE tool_call_id = ? AND status = 'pending'`. -/
def Db.decidePending (db : Db) (id : ToolCallId) (f : ApprovalRequest → ApprovalRequest)
    (hf : ∀ ar, (f ar).id = ar.id) : Db :=
  { db with approvalRequest := db.approvalRequest.update (·.pendingFor id) f hf }

theorem Db.mem_decidePending {db : Db} {id : ToolCallId} {f : ApprovalRequest → ApprovalRequest}
    {hf : ∀ ar, (f ar).id = ar.id} {ar' : ApprovalRequest}
    (h : ar' ∈ (db.decidePending id f hf).approvalRequest) :
    ∃ ar ∈ db.approvalRequest, (ar.toolCallId = some id ∧ ar.status = .pending ∧ ar' = f ar) ∨
      (¬ (ar.toolCallId = some id ∧ ar.status = .pending) ∧ ar' = ar) := by
  have hmem : ar' ∈ db.approvalRequest.update (·.pendingFor id) f hf := h
  rcases Table.mem_update_cases hmem with ⟨ar, har, ⟨hp, heq⟩ | ⟨hp, heq⟩⟩
  · simp only [ApprovalRequest.pendingFor, Bool.and_eq_true, decide_eq_true_eq] at hp
    exact ⟨ar, har, Or.inl ⟨hp.1, hp.2, heq⟩⟩
  · simp only [ApprovalRequest.pendingFor, Bool.and_eq_false_iff, decide_eq_false_iff_not] at hp
    exact ⟨ar, har, Or.inr ⟨by tauto, heq⟩⟩

theorem Db.decidePending_eq_self {db : Db} {id : ToolCallId} {f : ApprovalRequest → ApprovalRequest}
    {hf : ∀ ar, (f ar).id = ar.id} :
    db.decidePending id f hf = db ↔
      ∀ ar ∈ db.approvalRequest, ar.pendingFor id = true → f ar = ar := by
  have htable : db.decidePending id f hf = db ↔
      db.approvalRequest.update (·.pendingFor id) f hf = db.approvalRequest :=
    ⟨congrArg Db.approvalRequest, fun h => by rw [Db.decidePending, h]⟩
  exact htable.trans Table.update_eq_self

/-- The statement sets the deciding actor, and so checks that reference whenever it selects a row. -/
def Db.decide (db : Db) (id : ToolCallId) (actor : ActorId) (f : ApprovalRequest → ApprovalRequest)
    (hf : ∀ ar, (f ar).id = ar.id) : Except SqlError Db :=
  if db.approvalRequest.rows.any (·.pendingFor id) && !db.actor.contains actor then
    .error (.foreignKey "approval_request")
  else .ok (db.decidePending id f hf)

/-- The insertion of an event, whose row takes the defaults of the replication columns. -/
def Db.insertEvent (db : Db) (row : AgentEventRow) : Except SqlError Db :=
  (insertRow "agent_event" db.agentEvent row (db.agentEventReferences row.event)).map fun t =>
    { db with agentEvent := t }

def Effect.claim (worker : WorkerId) (now : String) (e : Effect) : Effect :=
  { e with status := .claimed, assignedWorkerId := some worker, attemptCount := e.attemptCount + 1,
           startedAt := some now }

def Effect.complete (canon hash now : String) (e : Effect) : Effect :=
  { e with status := .succeeded, resultRef := some canon, resultHash := some hash,
           finishedAt := some now }

def Effect.fail (err now : String) (e : Effect) : Effect :=
  { e with status := .failed, error := some err, finishedAt := some now }

def Effect.reclaim (now : String) (e : Effect) : Effect :=
  { e with status := .pending, assignedWorkerId := none, nextAttemptAt := some now }

def Effect.exhaust (now : String) (e : Effect) : Effect := e.fail "exceeded max_attempts" now

/-- `UPDATE effect … WHERE id = ?`. -/
def Db.updateEffect (db : Db) (id : EffectId) (f : Effect → Effect)
    (hf : ∀ e, (f e).id = e.id) : Db :=
  { db with effect := db.effect.update (fun e => e.id = id) f hf }

/-- `UPDATE effect_claim SET released_at = ? WHERE id = ?`. -/
def Db.releaseClaim (db : Db) (id now : String) : Db :=
  { db with
    effectClaim := db.effectClaim.update (fun c => c.id = id)
      (fun c => { c with releasedAt := some now }) fun _ => rfl }

/-- The pending effects of a workspace with one of the types; `ORDER BY created_at ASC` leaves the order of equal timestamps open, which is that of insertion here. -/
def Db.pendingEffects (db : Db) (ws : WorkspaceId) (types : List String) : List Effect :=
  (db.effect.rows.filter fun e =>
      e.workspaceId = ws && e.status = .pending && types.contains e.effectType).insertionSort
    fun a b => a.createdAt ≤ b.createdAt

/-- The join of the unreleased claims that expired before `now` with their claimed or running effects. -/
def Db.expired (db : Db) (now : String) : List (EffectId × String × Int × Int) :=
  db.effectClaim.rows.filterMap fun c =>
    if c.expiresAt < now ∧ c.releasedAt = none then
      match db.effect.find? c.effectId with
      | some e =>
        if e.status = .claimed ∨ e.status = .running then
          some (c.effectId, c.id, e.attemptCount, e.maxAttempts)
        else none
      | none => none
    else none

/-! ### The meaning of a statement -/

def Sql.exec : (s : Sql) → Db → Except SqlError (s.Reply × Db)
  | .getWorkspace id, db => .ok (db.workspace.find? id, db)
  | .insertWorkspace ws, db =>
    (insertRow "workspace" db.workspace ws true).map fun t => ((), { db with workspace := t })
  | .getActor id, db => .ok (db.actor.find? id, db)
  | .insertActor a, db =>
    (insertRow "actor" db.actor a (db.actorReferences a)).map fun t => ((), { db with actor := t })
  | .sessionExists ws id, db =>
    .ok (db.session.rows.any fun s => s.id = id && s.workspaceId = ws, db)
  | .insertSession s, db =>
    (insertRow "session" db.session s (db.sessionReferences s)).map fun t =>
      ((), { db with session := t })
  | .insertMessage m, db =>
    (insertRow "message" db.message m (db.messageReferences m)).map fun t =>
      ((), { db with message := t })
  | .selectTool ws name, db => .ok ((db.toolNamed ws name).map (·.id), db)
  | .insertTool t, db =>
    if (db.toolNamed t.workspaceId t.name).isSome then .error (.unique "tool")
    else
      (insertRow "tool" db.tool t (db.toolReferences t)).map fun u => ((), { db with tool := u })
  | .insertToolCall tc, db =>
    (insertRow "tool_call" db.toolCall tc (db.toolCallReferences tc)).map fun t =>
      ((), { db with toolCall := t })
  | .insertApprovalRequest ar, db =>
    (insertRow "approval_request" db.approvalRequest ar (db.approvalRequestReferences ar)).map
      fun t => ((), { db with approvalRequest := t })
  | .setToolCallApprovalRequest tcId id, db =>
    .ok ((), db.updateToolCall tcId (fun tc => { tc with approvalRequestId := some id })
      fun _ => rfl)
  | .sessionForToolCall id, db => .ok ((db.toolCall.find? id).bind (·.sessionId), db)
  | .approveApprovalRequest tcId actor scope now, db =>
    (db.decide tcId actor (·.approve actor scope now) fun _ => rfl).map fun db' => ((), db')
  | .approveToolCall id, db =>
    .ok ((), db.updateToolCall id (fun tc => { tc with status := .approved }) fun _ => rfl)
  | .denyApprovalRequest tcId actor reason now, db =>
    (db.decide tcId actor (·.deny actor reason now) fun _ => rfl).map fun db' => ((), db')
  | .denyToolCall id, db =>
    .ok ((), db.updateToolCall id (fun tc => { tc with status := .denied }) fun _ => rfl)
  | .completeToolCall id canon hash now, db =>
    .ok ((), db.updateToolCall id (·.complete canon hash now) fun _ => rfl)
  | .insertMemoryCandidate mc, db =>
    (insertRow "memory_candidate" db.memoryCandidate mc (db.memoryCandidateReferences mc)).map
      fun t => ((), { db with memoryCandidate := t })
  | .memoryCandidate id, db => .ok (db.memoryCandidate.find? id, db)
  | .insertMemory m, db =>
    (insertRow "memory" db.memory m (db.memoryReferences m)).map fun t =>
      ((), { db with memory := t })
  | .approveMemoryCandidate id, db =>
    .ok ((), db.updateMemoryCandidate id (fun mc => { mc with status := .approved }) fun _ => rfl)
  | .rejectMemoryCandidate id reason, db =>
    .ok ((), db.updateMemoryCandidate id
      (fun mc => { mc with status := .rejected, reviewReason := some reason }) fun _ => rfl)
  | .lastEventHash ws session, db => .ok (db.lastEventHash ws session, db)
  | .appendEvent e, db => (db.insertEvent { event := e }).map fun db' => ((), db')
  | .ingestEvent row, db =>
    -- `ON CONFLICT(id) DO NOTHING`: with the id taken nothing is inserted and nothing is checked
    if db.agentEvent.contains row.id then .ok (false, db)
    else (db.insertEvent row).map fun db' => (true, db')
  | .insertCommand c, db =>
    (insertRow "command_record" db.commandRecord c (db.commandRecordReferences c)).map fun t =>
      ((), { db with commandRecord := t })
  | .idempotencyLookup ws key, db =>
    .ok ((db.idempotencyRecord.find? (ws, key)).bind (·.resultRef), db)
  | .idempotencyRecord r, db =>
    -- `INSERT OR IGNORE`: likewise, but a dangling reference is still an error
    if db.idempotencyRecord.contains r.key then .ok ((), db)
    else
      (insertRow "idempotency_record" db.idempotencyRecord r
        (db.idempotencyRecordReferences r)).map fun t => ((), { db with idempotencyRecord := t })
  | .insertEffect e, db =>
    (insertRow "effect" db.effect e (db.effectReferences e)).map fun t => ((), { db with effect := t })
  | .oldestPending ws types, db =>
    .ok ((db.pendingEffects ws types).head?.map fun e => (e.id, e.effectType, e.inputInline), db)
  | .claimEffect id worker now, db =>
    -- the guard of the claim: the effect is still pending
    let p := fun e : Effect => e.id = id && e.status = .pending
    if db.effect.rows.any p && !db.worker.contains worker then .error (.foreignKey "effect")
    else
      .ok (db.effect.rows.any p,
        { db with effect := db.effect.update p (·.claim worker now) fun _ => rfl })
  | .insertEffectClaim c, db =>
    if db.claimedAlready c then .error (.unique "effect_claim")
    else
      (insertRow "effect_claim" db.effectClaim c (db.effectClaimReferences c)).map fun t =>
        ((), { db with effectClaim := t })
  | .startEffect id, db =>
    .ok ((), db.updateEffect id (fun e => { e with status := .running }) fun _ => rfl)
  | .completeEffect id canon hash now, db =>
    .ok ((), db.updateEffect id (·.complete canon hash now) fun _ => rfl)
  | .insertEffectResult id effectId canon hash now, db =>
    match db.effect.find? effectId with
    -- the attempt number is `NULL`
    | none => .error (.notNull "effect_result")
    | some e =>
      (insertRow "effect_result" db.effectResult
        { id := id, effectId := effectId, attemptNumber := e.attemptCount, succeeded := 1,
          outputRef := some canon, outputHash := some hash, startedAt := now, finishedAt := now }
        true).map fun t => ((), { db with effectResult := t })
  | .failEffect id err now, db =>
    .ok ((), db.updateEffect id (·.fail err now) fun _ => rfl)
  | .expiredClaims now, db => .ok (db.expired now, db)
  | .releaseClaim id now, db => .ok ((), db.releaseClaim id now)
  | .reclaimEffect id now, db => .ok ((), db.updateEffect id (·.reclaim now) fun _ => rfl)
  | .exhaustEffect id now, db => .ok ((), db.updateEffect id (·.exhaust now) fun _ => rfl)
  | .heartbeatWorker id now, db =>
    .ok ((), { db with
      worker := db.worker.update (fun w => w.id = id)
        (fun w => { w with lastHeartbeatAt := some now }) fun _ => rfl })
  | .insertWorkerHeartbeat hb, db =>
    (insertRow "worker_heartbeat" db.workerHeartbeat hb (db.workerHeartbeatReferences hb)).map
      fun t => ((), { db with workerHeartbeat := t })

/-! ### What a statement leaves alone -/

inductive TableName where
  | workspace | actor | session | message | tool | toolCall | approvalRequest | memoryCandidate
  | memory | agentEvent | commandRecord | idempotencyRecord | effect | effectClaim | effectResult
  | worker | workerHeartbeat
deriving DecidableEq

/-- The table a statement may change. -/
def Sql.writes : Sql → Option TableName
  | .insertWorkspace _ => some .workspace
  | .insertActor _ => some .actor
  | .insertSession _ => some .session
  | .insertMessage _ => some .message
  | .insertTool _ => some .tool
  | .insertToolCall _ | .setToolCallApprovalRequest _ _ | .approveToolCall _ | .denyToolCall _
  | .completeToolCall _ _ _ _ => some .toolCall
  | .insertApprovalRequest _ | .approveApprovalRequest _ _ _ _ | .denyApprovalRequest _ _ _ _ =>
    some .approvalRequest
  | .insertMemoryCandidate _ | .approveMemoryCandidate _ | .rejectMemoryCandidate _ _ =>
    some .memoryCandidate
  | .insertMemory _ => some .memory
  | .appendEvent _ | .ingestEvent _ => some .agentEvent
  | .insertCommand _ => some .commandRecord
  | .idempotencyRecord _ => some .idempotencyRecord
  | .insertEffect _ | .claimEffect _ _ _ | .startEffect _ | .completeEffect _ _ _ _
  | .failEffect _ _ _ | .reclaimEffect _ _ | .exhaustEffect _ _ => some .effect
  | .insertEffectClaim _ | .releaseClaim _ _ => some .effectClaim
  | .insertEffectResult _ _ _ _ _ => some .effectResult
  | .heartbeatWorker _ _ => some .worker
  | .insertWorkerHeartbeat _ => some .workerHeartbeat
  | _ => none

/-- `b` is `a` but for the one table `t`. -/
structure Db.Frame (t : Option TableName) (a b : Db) : Prop where
  workspace : t ≠ some .workspace → b.workspace = a.workspace
  actor : t ≠ some .actor → b.actor = a.actor
  session : t ≠ some .session → b.session = a.session
  message : t ≠ some .message → b.message = a.message
  tool : t ≠ some .tool → b.tool = a.tool
  toolCall : t ≠ some .toolCall → b.toolCall = a.toolCall
  approvalRequest : t ≠ some .approvalRequest → b.approvalRequest = a.approvalRequest
  memoryCandidate : t ≠ some .memoryCandidate → b.memoryCandidate = a.memoryCandidate
  memory : t ≠ some .memory → b.memory = a.memory
  agentEvent : t ≠ some .agentEvent → b.agentEvent = a.agentEvent
  commandRecord : t ≠ some .commandRecord → b.commandRecord = a.commandRecord
  idempotencyRecord : t ≠ some .idempotencyRecord → b.idempotencyRecord = a.idempotencyRecord
  effect : t ≠ some .effect → b.effect = a.effect
  effectClaim : t ≠ some .effectClaim → b.effectClaim = a.effectClaim
  effectResult : t ≠ some .effectResult → b.effectResult = a.effectResult
  worker : t ≠ some .worker → b.worker = a.worker
  workerHeartbeat : t ≠ some .workerHeartbeat → b.workerHeartbeat = a.workerHeartbeat

theorem Db.Frame.refl (t : Option TableName) (a : Db) : Db.Frame t a a := by
  constructor <;> intro _ <;> rfl

theorem map_eq_ok {ε α β : Type} {f : α → β} {x : Except ε α} {b : β} :
    x.map f = .ok b ↔ ∃ a, x = .ok a ∧ f a = b := by
  cases x <;> simp [Except.map]

theorem Db.decide_eq_ok {db db' : Db} {id : ToolCallId} {actor : ActorId}
    {f : ApprovalRequest → ApprovalRequest} {hf : ∀ ar, (f ar).id = ar.id}
    (h : db.decide id actor f hf = .ok db') :
    db' = db.decidePending id f hf := by
  unfold Db.decide at h
  split at h
  · cases h
  · cases h
    rfl

theorem Db.insertEvent_eq_ok {db db' : Db} {row : AgentEventRow} :
    db.insertEvent row = .ok db' ↔ db.agentEventReferences row.event = true ∧
      ∃ t, db.agentEvent.insert? row = some t ∧ db' = { db with agentEvent := t } := by
  rw [Db.insertEvent, map_eq_ok]
  constructor
  · intro h
    obtain ⟨t, ht, rfl⟩ := h
    obtain ⟨href, hins⟩ := insertRow_eq_ok.mp ht
    exact ⟨href, t, hins, rfl⟩
  · intro h
    obtain ⟨href, t, hins, rfl⟩ := h
    exact ⟨t, insertRow_eq_ok.mpr ⟨href, hins⟩, rfl⟩

/-- **Frame rule.** A statement changes the table it writes and no other. -/
theorem Sql.exec_frame {s : Sql} {db db' : Db} {reply : s.Reply}
    (h : s.exec db = .ok (reply, db')) : Db.Frame s.writes db db' := by
  cases s with
  | getWorkspace | getActor | sessionExists | selectTool | sessionForToolCall | memoryCandidate
  | lastEventHash | idempotencyLookup | oldestPending | expiredClaims =>
    simp only [Sql.exec, Except.ok.injEq, Prod.mk.injEq] at h
    rw [← h.2]
    exact Db.Frame.refl _ _
  | insertWorkspace | insertActor | insertSession | insertMessage | insertToolCall
  | insertApprovalRequest | insertMemoryCandidate | insertMemory | insertCommand | insertEffect
  | insertWorkerHeartbeat =>
    obtain ⟨t, -, ht⟩ := map_eq_ok.mp h
    cases ht
    constructor <;> intro hne <;> first | rfl | exact absurd rfl hne
  | setToolCallApprovalRequest | approveToolCall | denyToolCall | completeToolCall
  | approveMemoryCandidate | rejectMemoryCandidate | startEffect | completeEffect | failEffect
  | releaseClaim | reclaimEffect | exhaustEffect | heartbeatWorker =>
    cases h
    constructor <;> intro hne <;> first | rfl | exact absurd rfl hne
  | approveApprovalRequest | denyApprovalRequest =>
    obtain ⟨t, ht, hdb⟩ := map_eq_ok.mp h
    cases hdb
    rw [Db.decide_eq_ok ht]
    constructor <;> intro hne <;> first | rfl | exact absurd rfl hne
  | insertTool t =>
    simp only [Sql.exec] at h
    split at h
    · cases h
    · obtain ⟨t, -, ht⟩ := map_eq_ok.mp h
      cases ht
      constructor <;> intro hne <;> first | rfl | exact absurd rfl hne
  | claimEffect id worker now =>
    simp only [Sql.exec] at h
    split at h
    · cases h
    · cases h
      constructor <;> intro hne <;> first | rfl | exact absurd rfl hne
  | insertEffectClaim c =>
    simp only [Sql.exec] at h
    split at h
    · cases h
    · obtain ⟨t, -, ht⟩ := map_eq_ok.mp h
      cases ht
      constructor <;> intro hne <;> first | rfl | exact absurd rfl hne
  | insertEffectResult id effectId canon hash now =>
    simp only [Sql.exec] at h
    split at h
    · cases h
    · obtain ⟨t, -, ht⟩ := map_eq_ok.mp h
      cases ht
      constructor <;> intro hne <;> first | rfl | exact absurd rfl hne
  | appendEvent e =>
    obtain ⟨t, ht, hdb⟩ := map_eq_ok.mp h
    cases hdb
    obtain ⟨-, t, -, rfl⟩ := Db.insertEvent_eq_ok.mp ht
    constructor <;> intro hne <;> first | rfl | exact absurd rfl hne
  | ingestEvent row =>
    simp only [Sql.exec] at h
    split at h
    · cases h
      exact Db.Frame.refl _ _
    · obtain ⟨t, ht, hdb⟩ := map_eq_ok.mp h
      cases hdb
      obtain ⟨-, t, -, rfl⟩ := Db.insertEvent_eq_ok.mp ht
      constructor <;> intro hne <;> first | rfl | exact absurd rfl hne
  | idempotencyRecord r =>
    simp only [Sql.exec] at h
    split at h
    · cases h
      exact Db.Frame.refl _ _
    · obtain ⟨t, -, ht⟩ := map_eq_ok.mp h
      cases ht
      constructor <;> intro hne <;> first | rfl | exact absurd rfl hne

/-! ### The world -/

/-- What a call asks of the world: a statement, the time, or the ULID of a new id. -/
inductive Op where
  | sql (s : Sql)
  | now
  | ulid

abbrev Op.Res : Op → Type
  | .sql s => Except SqlError s.Reply
  | .now => OffsetDateTime
  | .ulid => String

/-- The clock's readings, the generator's ULIDs, and which statements the storage refuses, each in the order asked for. -/
structure Env where
  clock : Nat → OffsetDateTime
  ulid : Nat → String
  fault : Nat → Bool

structure World where
  db : Db
  readings : Nat
  ulids : Nat
  statements : Nat

def World.start (db : Db) : World := ⟨db, 0, 0, 0⟩

/-- Of the readings and ULIDs handed out so far, the readings never went back and the ULIDs are distinct. -/
structure World.Regular (E : Env) (w : World) : Prop where
  clock : ((List.range w.readings).map fun n => (E.clock n).nanos).Pairwise (· ≤ ·)
  ulid : ((List.range w.ulids).map E.ulid).Nodup

instance (E : Env) (w : World) : Decidable (World.Regular E w) :=
  decidable_of_iff (_ ∧ _) ⟨fun h => ⟨h.1, h.2⟩, fun h => ⟨h.1, h.2⟩⟩

/-- An environment for sample runs: the nanoseconds of each reading, ULIDs counting up. -/
def Env.sample (nanos : Nat → Nat) (fault : Nat → Bool) : Env where
  clock n := ⟨nanos n % (253402300800 * 10 ^ 9), Nat.mod_lt _ (by decide)⟩
  ulid n := String.ofList (OffsetDateTime.digits 26 n)
  fault := fault

/-- A second passes between two readings, and the storage never fails. -/
def Env.wholeSeconds : Env := Env.sample (fun n => (1700000000 + n) * 10 ^ 9) fun _ => false

def handle (E : Env) : (o : Op) → World → o.Res × World
  | .sql s, w =>
    let w' := { w with statements := w.statements + 1 }
    if E.fault w.statements then (.error .unavailable, w')
    else
      match s.exec w.db with
      | .ok (reply, db) => (.ok reply, { w' with db := db })
      | .error e => (.error e, w')
  | .now, w => (E.clock w.readings, { w with readings := w.readings + 1 })
  | .ulid, w => (E.ulid w.ulids, { w with ulids := w.ulids + 1 })

/-- A statement is refused and changes nothing, or is accepted and does what it means. -/
theorem handle_sql (E : Env) (s : Sql) (w : World) :
    ((∃ err, (handle E (.sql s) w).1 = .error err) ∧ (handle E (.sql s) w).2.db = w.db ∧
      (E.fault w.statements = true ∨ ∃ err, s.exec w.db = .error err)) ∨
    ∃ reply db', E.fault w.statements = false ∧ s.exec w.db = .ok (reply, db') ∧
      (handle E (.sql s) w).1 = .ok reply ∧ (handle E (.sql s) w).2.db = db' := by
  cases hfault : E.fault w.statements with
  | true =>
    simp only [handle, hfault, if_true]
    exact Or.inl ⟨⟨_, rfl⟩, trivial, Or.inl trivial⟩
  | false =>
    simp only [handle, hfault, Bool.false_eq_true, if_false]
    cases hexec : s.exec w.db with
    | error err => exact Or.inl ⟨⟨_, rfl⟩, rfl, Or.inr ⟨err, rfl⟩⟩
    | ok r => exact Or.inr ⟨r.1, r.2, trivial, rfl, rfl, rfl⟩

/-- What an operation does: nothing to the database, unless it is a statement that the storage accepts. -/
theorem handle_cases (E : Env) (o : Op) (w : World) :
    (handle E o w).2.db = w.db ∨
      ∃ s reply db', o = .sql s ∧ E.fault w.statements = false ∧ s.exec w.db = .ok (reply, db') ∧
        (handle E o w).2.db = db' := by
  cases o with
  | now => exact Or.inl rfl
  | ulid => exact Or.inl rfl
  | sql s =>
    rcases handle_sql E s w with ⟨-, hsame, -⟩ | ⟨reply, db', hfault, hexec, -, hdb⟩
    · exact Or.inl hsame
    · exact Or.inr ⟨s, reply, db', rfl, hfault, hexec, hdb⟩

/-- The table an operation may change. -/
def Op.writes : Op → Option TableName
  | .sql s => s.writes
  | _ => none

theorem handle_frame (E : Env) (o : Op) (w : World) :
    Db.Frame o.writes w.db (handle E o w).2.db := by
  rcases handle_cases E o w with h | ⟨s, reply, db', rfl, -, hexec, h⟩
  · rw [h]
    exact Db.Frame.refl _ _
  · rw [h]
    exact Sql.exec_frame hexec

/-- A call of the public interface. -/
abbrev Action := Prog Op Op.Res ActantError

/-- Execute a statement, a refusal becoming a storage error. -/
def execute (s : Sql) : Action s.Reply := .performOr (.sql s) id .storage

theorem run_execute_ok {E : Env} {s : Sql} {w : World} {reply : s.Reply}
    (h : (handle E (.sql s) w).1 = .ok reply) :
    (execute s).run (handle E) w = (.ok reply, (handle E (.sql s) w).2) := by
  rw [execute, Prog.run_performOr, id, h]
  rfl

theorem run_execute_error {E : Env} {s : Sql} {w : World} {err : SqlError}
    (h : (handle E (.sql s) w).1 = .error err) :
    (execute s).run (handle E) w = (.error (.storage err), (handle E (.sql s) w).2) := by
  rw [execute, Prog.run_performOr, id, h]
  rfl

def nowRfc3339 : Action String := do
  let t ← (Prog.perform Op.now : Action OffsetDateTime)
  return t.formatRfc3339

def freshId (tag : String) : Action String := do
  let ulid ← (Prog.perform Op.ulid : Action String)
  return newId tag ulid

section Steady

variable {L : Type*} {M : Monitor Op Op.Res L} {K : L → Prop}

theorem steady_execute {s : Sql}
    (h : ∀ l, K l → M.allowed l (.sql s) ∧ ∀ r, K (M.next l (.sql s) r)) :
    Prog.Steady M K (execute s) :=
  Prog.steady_performOr h _ _

theorem steady_now (h : ∀ l, K l → M.allowed l .now ∧ ∀ r, K (M.next l .now r)) :
    Prog.Steady M K nowRfc3339 :=
  (Prog.steady_perform h).bind fun _ => Prog.steady_done _

theorem steady_freshId (h : ∀ l, K l → M.allowed l .ulid ∧ ∀ r, K (M.next l .ulid r))
    (tag : String) : Prog.Steady M K (freshId tag) :=
  (Prog.steady_perform h).bind fun _ => Prog.steady_done _

end Steady

end ActantDb
