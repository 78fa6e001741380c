import ActantDb.Command.Failure
import ActantDb.Command.Shape

/-!
# Commands that change nothing before their last statement

`Harmless` says of a database and a call, command by command, that nothing changes before the append to the chronicle. Apart from refused inputs these are calls about rows that are not there or are already as the command would leave them. Whatever fails in such a dispatch, or in a replay, the domain tables are as they were.
-/

namespace ActantDb

open Prog

variable (X : Crates) (policy : PolicyDoc)

/-- The lookup finds a command recorded under the call's key. -/
def Replayed (db : Db) (c : Call) : Prop :=
  ∃ key prior, c.idempotencyKey = some key ∧
    (db.idempotencyRecord.find? (c.workspaceId, key)).bind (·.resultRef) = some prior

/-- The verdict on a request of the tool `name`. -/
def requestVerdict (c : Call) (name : String) : Verdict :=
  evaluate X policy
    { actorId := c.actorId, tool := name
      argumentsJson := canonicalJson X ((c.input.get "arguments").getD (.object []))
      riskLevel := riskFor name policy, sensitivity := .low }

/-- Command by command, that nothing changes before the append to the chronicle. -/
structure Harmless (db : Db) (c : Call) : Prop where
  createSession : c.commandType = "create_session" →
    ∃ id, optionalStr c.input "session_id" = some id ∧ db.session.contains id = true
  appendMessage : c.commandType = "append_user_message" ∨ c.commandType = "append_agent_message" →
    ∀ id text, optionalStr c.input "session_id" = some id → optionalStr c.input "text" = some text →
      db.session.contains id = false
  requestToolCall : c.commandType = "request_tool_call" →
    ∀ id name, optionalStr c.input "session_id" = some id →
      optionalStr c.input "tool_name" = some name →
        (db.toolNamed c.workspaceId name).isSome = true ∧
          (db.session.contains id = false ∨ ∃ e, (requestVerdict X policy c name).status = .error e)
  approveToolCall : c.commandType = "approve_tool_call" →
    ∀ id, optionalStr c.input "tool_call_id" = some id →
      (∀ ar ∈ db.approvalRequest, ar.pendingFor id = false) ∧
        ∀ tc ∈ db.toolCall, tc.id = id → tc.status = .approved
  denyToolCall : c.commandType = "deny_tool_call" →
    ∀ id, optionalStr c.input "tool_call_id" = some id →
      (∀ ar ∈ db.approvalRequest, ar.pendingFor id = false) ∧
        ∀ tc ∈ db.toolCall, tc.id = id → tc.status = .denied
  recordToolResult : c.commandType = "record_tool_result" →
    ∀ id, optionalStr c.input "tool_call_id" = some id → db.toolCall.contains id = false
  proposeMemory : c.commandType = "propose_memory" → optionalStr c.input "text" = none
  approveMemory : c.commandType = "approve_memory" →
    ∀ id, optionalStr c.input "memory_candidate_id" = some id →
      db.memoryCandidate.contains id = false
  rejectMemory : c.commandType = "reject_memory" →
    ∀ id, optionalStr c.input "memory_candidate_id" = some id →
      ∀ mc ∈ db.memoryCandidate, mc.id = id →
        mc.status = .rejected ∧
          mc.reviewReason = some ((optionalStr c.input "reason").getD "rejected")

/-- The condition is about the domain tables only. -/
theorem Harmless.congr {X : Crates} {policy : PolicyDoc} {a b : Db} {c : Call}
    (h : Harmless X policy a c) (hab : a.SameDomain b) : Harmless X policy b c := by
  have htool : ∀ ws name, b.toolNamed ws name = a.toolNamed ws name := fun ws name => by
    rw [Db.toolNamed, Db.toolNamed, hab.tool]
  obtain ⟨hcreate, happend, hrequest, happrove, hdeny, hrecord, hpropose, hmemory, hreject⟩ := h
  simp only [hab.session, hab.toolCall, hab.approvalRequest, hab.memoryCandidate, ← htool]
    at hcreate happend hrequest happrove hdeny hrecord hmemory hreject
  exact ⟨hcreate, happend, hrequest, happrove, hdeny, hrecord, hpropose, hmemory, hreject⟩

/-! ### A harmless command keeps the tables when it fails -/

section Keeps

variable {X policy} {E : Env} {w : World} {c : Call} {cmd : CommandRecord}

theorem requiredStr_some {input : Value} {key s : String} (h : optionalStr input key = some s) :
    requiredStr input key = .done (.ok s) := by
  rw [requiredStr]
  rw [optionalStr] at h
  rw [h]
  rfl

theorem requiredStr_none {input : Value} {key : String} (h : optionalStr input key = none) :
    requiredStr input key = .done (.error (.invalidInput ("missing required " ++ key))) := by
  rw [requiredStr]
  rw [optionalStr] at h
  rw [h]
  rfl

/-- A required argument is there and the command goes on with it, or the command ends. -/
theorem keepsOnError_requiredStr {α : Type} {input : Value} {key : String} {f : String → Action α}
    (h : ∀ s, optionalStr input key = some s → KeepsOnError E (f s) w) :
    KeepsOnError E (requiredStr input key >>= f) w := by
  cases hkey : optionalStr input key with
  | none =>
    rw [requiredStr_none hkey]
    exact (keeps_done _).onError
  | some s =>
    rw [requiredStr_some hkey]
    exact h s hkey

/-- The append is the only change, and nothing after it fails. -/
theorem keepsOnError_chronicle {α : Type} {ws : WorkspaceId} {actor : ActorId}
    {session : Option SessionId} {eventType : String} {causalityKind : CausalityKind}
    {sensitivity : Sensitivity} {payload : Value} {backrefs : EventBackrefs} (g : EventId → α) :
    KeepsOnError E
      (appendChronicle X ws actor session eventType causalityKind sensitivity payload backrefs >>=
        fun id => .done (.ok (g id))) w := by
  refine KeepsOnError.bind_ok ?_ fun id w' => ⟨_, w', rfl⟩
  apply (keeps_other rfl).bindOnError
  intro prev w₁ _ _
  apply (keeps_freshId _).bindOnError
  intro id w₂ _ _
  apply keeps_now.bindOnError
  intro now w₃ _ _
  exact (keepsOnError_execute _).bind_ok fun _ w' => ⟨_, w', rfl⟩

theorem keeps_ensureActor (ws : WorkspaceId) (id : ActorId) (kind : ActorKind) :
    Keeps E (ensureActor ws id kind) w := by
  apply (keeps_other rfl).bind
  intro found w₁ _ _
  cases found with
  | some a => exact keeps_done _
  | none => exact keeps_now.bind fun now w₂ _ _ => keeps_other rfl

theorem keeps_ensureAgent (ws : WorkspaceId) (agent : Option ActorId) :
    Keeps E (ensureAgent ws agent) w := by
  cases agent with
  | none => exact keeps_done _
  | some id => exact keeps_ensureActor _ _ _

theorem keepsOnError_createSession (h : ∃ id, optionalStr c.input "session_id" = some id ∧
    w.db.session.contains id = true) :
    KeepsOnError E (createSession X c.workspaceId c.actorId cmd c.input) w := by
  obtain ⟨id, hid, hstored⟩ := h
  apply (keeps_ensureAgent _ _).bindOnError
  intro _ w₁ _ hsame₁
  have hsession : sessionIdOf c.input = .done (.ok id) := by
    rw [sessionIdOf, hid]
    rfl
  rw [hsession, ok_bind]
  have hcheck : Keeps E (execute (.sessionExists c.workspaceId id)) w₁ := keeps_other rfl
  apply hcheck.bindOnError
  intro found w₂ _ hsame₂
  cases found with
  | true => exact (keeps_done _).onError
  | false =>
    -- the id is taken by a session of another workspace
    apply keeps_now.bindOnError
    intro now w₃ _ hsame₃
    refine (keeps_refused ?_ _).onError
    intro reply db' hexec
    obtain ⟨t, hok, -⟩ := map_eq_ok.mp hexec
    refine insertRow_refused (Or.inl ?_) t hok
    rw [← hsame₃.session, ← hsame₂.session, ← hsame₁.session]
    exact hstored

theorem keepsOnError_appendMessage {role eventType : String}
    (h : ∀ id text, optionalStr c.input "session_id" = some id →
      optionalStr c.input "text" = some text → w.db.session.contains id = false) :
    KeepsOnError E (appendMessage X c.workspaceId c.actorId cmd c.input role eventType) w := by
  apply keepsOnError_requiredStr
  intro id hid
  apply keepsOnError_requiredStr
  intro text htext
  apply (keeps_freshId _).bindOnError
  intro msgId w₁ _ hsame₁
  apply keeps_now.bindOnError
  intro now w₂ _ hsame₂
  refine (keeps_refused ?_ _).onError
  intro reply db' hexec
  obtain ⟨t, hok, -⟩ := map_eq_ok.mp hexec
  refine insertRow_refused (Or.inr ?_) t hok
  rw [Db.messageReferences, ← hsame₂.session, ← hsame₁.session, h id text hid htext]
  rfl

/-- A tool call needs its session. -/
theorem keeps_fileToolCall_refused {ws : WorkspaceId} {actor : ActorId} {toolCallId : ToolCallId}
    {id : SessionId} {toolId : ToolId} {name canon hash : String} {risk : RiskLevel}
    {status : ToolCallStatus} {v : Verdict} (h : w.db.session.contains id = false) :
    Keeps E (fileToolCall ws actor toolCallId id toolId name canon hash risk status v) w := by
  unfold fileToolCall
  apply keeps_now.bind
  intro now w₁ _ hsame
  refine keeps_refused ?_ _
  intro reply db' hexec
  obtain ⟨t, hok, -⟩ := map_eq_ok.mp hexec
  refine insertRow_refused (Or.inr ?_) t hok
  simp only [Db.toolCallReferences, refersTo, ← hsame.session, h, Bool.and_false, Bool.false_and]

theorem keepsOnError_requestToolCall
    (h : ∀ id name, optionalStr c.input "session_id" = some id →
      optionalStr c.input "tool_name" = some name →
        (w.db.toolNamed c.workspaceId name).isSome = true ∧
          (w.db.session.contains id = false ∨
            ∃ e, (requestVerdict X policy c name).status = .error e)) :
    KeepsOnError E (requestToolCall X policy c.workspaceId c.actorId cmd c.input) w := by
  apply keepsOnError_requiredStr
  intro id hid
  apply keepsOnError_requiredStr
  intro name hname
  obtain ⟨htool, hfails⟩ := h id name hid hname
  have hupsert : Keeps E (upsertTool c.workspaceId name) w := by
    have hselect : Keeps E (execute (.selectTool c.workspaceId name)) w := keeps_other rfl
    apply hselect.bind
    intro found w₁ hrun _
    cases found with
    | some toolId => exact keeps_done _
    | none =>
      have hexec := exec_of_run hrun
      simp only [Sql.exec, Except.ok.injEq, Prod.mk.injEq, Option.map_eq_none_iff] at hexec
      rw [hexec.1] at htool
      cases htool
  apply hupsert.bindOnError
  intro toolId w₁ _ hsame₁
  apply (keeps_freshId _).bindOnError
  intro toolCallId w₂ _ hsame₂
  show KeepsOnError E ((Prog.done (requestVerdict X policy c name).status : Action _) >>= _) w₂
  rcases hfails with hsession | ⟨e, he⟩
  · apply (keeps_done _).bindOnError
    intro status w₃ _ hsame₃
    have hfile : Keeps E (fileToolCall c.workspaceId c.actorId toolCallId id toolId name
        (canonicalJson X ((c.input.get "arguments").getD (.object [])))
        (sha256Hex X (asBytes (canonicalJson X ((c.input.get "arguments").getD (.object [])))))
        (riskFor name policy) status (requestVerdict X policy c name)) w₃ := by
      apply keeps_fileToolCall_refused
      rw [← hsame₃.session, ← hsame₂.session, ← hsame₁.session]
      exact hsession
    exact hfile.bindOnError fun _ w₄ _ _ => keepsOnError_chronicle _
  · rw [he]
    exact (keeps_done _).onError

/-- Deciding selects nothing, and so changes nothing. -/
theorem decide_eq_self {db db' : Db} {id : ToolCallId} {actor : ActorId} {reply : Unit}
    {f : ApprovalRequest → ApprovalRequest} {hf : ∀ ar, (f ar).id = ar.id}
    (hnone : ∀ ar ∈ db.approvalRequest, ar.pendingFor id = false)
    (h : (db.decide id actor f hf).map (fun db' => ((), db')) = .ok (reply, db')) : db' = db := by
  obtain ⟨db'', hdecide, heq⟩ := map_eq_ok.mp h
  rw [← (Prod.mk.inj heq).2, Db.decide_eq_ok hdecide, Db.decidePending_eq_self.mpr]
  intro ar har hpending
  rw [hnone ar har] at hpending
  cases hpending

/-- A statement that leaves this database as it is. -/
theorem keeps_idle {s : Sql} (h : ∀ reply db', s.exec w.db = .ok (reply, db') → db' = w.db) :
    Keeps E (execute s) w :=
  keeps_execute fun reply db' hexec => h reply db' hexec ▸ Db.SameDomain.refl _

/-- The two updates of a decision, on a call that has the decided status already and whose request, if it has one, is not pending. -/
theorem keeps_decision {id : ToolCallId} {status : ToolCallStatus} (decision : String → Sql)
    (mark : Sql)
    (hdecision : ∀ now db, (∀ ar ∈ db.approvalRequest, ar.pendingFor id = false) →
      ∀ reply db', (decision now).exec db = .ok (reply, db') → db' = db)
    (hmark : ∀ db, (∀ tc ∈ db.toolCall, tc.id = id → tc.status = status) →
      ∀ reply db', mark.exec db = .ok (reply, db') → db' = db)
    (hpending : ∀ ar ∈ w.db.approvalRequest, ar.pendingFor id = false)
    (hstatus : ∀ tc ∈ w.db.toolCall, tc.id = id → tc.status = status) :
    Keeps E (nowRfc3339 >>= fun now => execute (decision now) >>= fun _ => execute mark) w := by
  apply keeps_now.bind
  intro now w₁ _ hsame₁
  rw [hsame₁.approvalRequest] at hpending
  apply (keeps_idle (hdecision now _ hpending)).bind
  intro _ w₂ _ hsame₂
  rw [hsame₁.toolCall, hsame₂.toolCall] at hstatus
  exact keeps_idle (hmark _ hstatus)

theorem keeps_approveNothing {id : ToolCallId} {actor : ActorId} {scope : String}
    (hpending : ∀ ar ∈ w.db.approvalRequest, ar.pendingFor id = false)
    (hstatus : ∀ tc ∈ w.db.toolCall, tc.id = id → tc.status = .approved) :
    Keeps E (approvePendingToolCall id actor scope) w := by
  refine keeps_decision (fun now => .approveApprovalRequest id actor scope now)
    (.approveToolCall id) (fun now db hnone reply db' hexec => decide_eq_self hnone hexec)
    (fun db hdone reply db' hexec => ?_) hpending hstatus
  cases hexec
  exact Db.updateToolCall_eq_self.mpr fun tc htc hid => by rw [← hdone tc htc hid]

theorem keeps_denyNothing {id : ToolCallId} {actor : ActorId} {reason : String}
    (hpending : ∀ ar ∈ w.db.approvalRequest, ar.pendingFor id = false)
    (hstatus : ∀ tc ∈ w.db.toolCall, tc.id = id → tc.status = .denied) :
    Keeps E (denyPendingToolCall id actor reason) w := by
  refine keeps_decision (fun now => .denyApprovalRequest id actor reason now)
    (.denyToolCall id) (fun now db hnone reply db' hexec => decide_eq_self hnone hexec)
    (fun db hdone reply db' hexec => ?_) hpending hstatus
  cases hexec
  exact Db.updateToolCall_eq_self.mpr fun tc htc hid => by rw [← hdone tc htc hid]

/-- A command that decides on a tool call and says so in the chronicle. -/
theorem keepsOnError_decision {α : Type} {status : ToolCallStatus} {input : Value}
    {decision : ToolCallId → Action Unit} {report : ToolCallId → Option SessionId → Action α}
    (hdecision : ∀ id w, (∀ ar ∈ w.db.approvalRequest, ar.pendingFor id = false) →
      (∀ tc ∈ w.db.toolCall, tc.id = id → tc.status = status) → Keeps E (decision id) w)
    (hreport : ∀ id session w, KeepsOnError E (report id session) w)
    (h : ∀ id, optionalStr input "tool_call_id" = some id →
      (∀ ar ∈ w.db.approvalRequest, ar.pendingFor id = false) ∧
        ∀ tc ∈ w.db.toolCall, tc.id = id → tc.status = status) :
    KeepsOnError E (requiredStr input "tool_call_id" >>= fun id =>
      execute (.sessionForToolCall id) >>= fun session =>
        decision id >>= fun _ => report id session) w := by
  apply keepsOnError_requiredStr
  intro id hid
  obtain ⟨hpending, hstatus⟩ := h id hid
  apply (keeps_other rfl).bindOnError
  intro session w₁ _ hsame
  rw [hsame.approvalRequest] at hpending
  rw [hsame.toolCall] at hstatus
  exact (hdecision id w₁ hpending hstatus).bindOnError fun _ w₂ _ _ => hreport id session w₂

theorem keepsOnError_approveToolCall
    (h : ∀ id, optionalStr c.input "tool_call_id" = some id →
      (∀ ar ∈ w.db.approvalRequest, ar.pendingFor id = false) ∧
        ∀ tc ∈ w.db.toolCall, tc.id = id → tc.status = .approved) :
    KeepsOnError E (approveToolCall X c.workspaceId c.actorId cmd c.input) w :=
  keepsOnError_decision (fun _ _ hpending hstatus => keeps_approveNothing hpending hstatus)
    (fun _ _ _ => keepsOnError_chronicle _) h

theorem keepsOnError_denyToolCall
    (h : ∀ id, optionalStr c.input "tool_call_id" = some id →
      (∀ ar ∈ w.db.approvalRequest, ar.pendingFor id = false) ∧
        ∀ tc ∈ w.db.toolCall, tc.id = id → tc.status = .denied) :
    KeepsOnError E (denyToolCall X c.workspaceId c.actorId cmd c.input) w :=
  keepsOnError_decision (fun _ _ hpending hstatus => keeps_denyNothing hpending hstatus)
    (fun _ _ _ => keepsOnError_chronicle _) h

theorem keepsOnError_recordToolResult
    (h : ∀ id, optionalStr c.input "tool_call_id" = some id → w.db.toolCall.contains id = false) :
    KeepsOnError E (recordToolResult X c.workspaceId c.actorId cmd c.input) w := by
  apply keepsOnError_requiredStr
  intro id hid
  have habsent := Table.contains_eq_false.mp (h id hid)
  apply (keeps_other rfl).bindOnError
  intro session w₁ _ hsame₁
  refine Keeps.bindOnError ?_ fun _ w₂ _ _ => keepsOnError_chronicle _
  apply keeps_now.bind
  intro now w₂ _ hsame₂
  rw [hsame₁.toolCall, hsame₂.toolCall] at habsent
  apply keeps_idle
  intro reply db' hexec
  cases hexec
  exact Db.updateToolCall_eq_self.mpr fun tc htc htcid => absurd htcid (habsent tc htc)

theorem keepsOnError_proposeMemory (h : optionalStr c.input "text" = none) :
    KeepsOnError E (proposeMemory X c.workspaceId c.actorId cmd c.input) w := by
  apply keepsOnError_requiredStr
  intro text htext
  rw [h] at htext
  cases htext

theorem keepsOnError_approveMemory
    (h : ∀ id, optionalStr c.input "memory_candidate_id" = some id →
      w.db.memoryCandidate.contains id = false) :
    KeepsOnError E (approveMemory X c.workspaceId c.actorId cmd c.input) w := by
  apply keepsOnError_requiredStr
  intro id hid
  have hselect : Keeps E (execute (.memoryCandidate id)) w := keeps_other rfl
  apply hselect.bindOnError
  intro found w₁ hrun _
  have hexec := exec_of_run hrun
  simp only [Sql.exec, Except.ok.injEq, Prod.mk.injEq] at hexec
  have habsent := h id hid
  rw [← Table.isSome_find?, hexec.1] at habsent
  cases found with
  | none => exact (keeps_done _).onError
  | some candidate => cases habsent

theorem keepsOnError_rejectMemory
    (h : ∀ id, optionalStr c.input "memory_candidate_id" = some id →
      ∀ mc ∈ w.db.memoryCandidate, mc.id = id →
        mc.status = .rejected ∧
          mc.reviewReason = some ((optionalStr c.input "reason").getD "rejected")) :
    KeepsOnError E (rejectMemory X c.workspaceId c.actorId cmd c.input) w := by
  apply keepsOnError_requiredStr
  intro id hid
  refine Keeps.bindOnError ?_ fun _ w₂ _ _ => keepsOnError_chronicle _
  apply keeps_idle
  intro reply db' hexec
  cases hexec
  rw [Db.updateMemoryCandidate, Table.update_eq_self.mpr]
  intro mc hmc hkey
  obtain ⟨hstatus, hreason⟩ := h id hid mc hmc (of_decide_eq_true hkey)
  rw [← hstatus, ← hreason]

theorem keepsOnError_runCommand (h : Harmless X policy w.db c) :
    KeepsOnError E (runCommand X policy c cmd) w := by
  unfold runCommand
  split
  · exact keepsOnError_createSession (h.createSession ‹_›)
  · exact keepsOnError_appendMessage (h.appendMessage (Or.inl ‹_›))
  · exact keepsOnError_appendMessage (h.appendMessage (Or.inr ‹_›))
  · exact keepsOnError_requestToolCall (h.requestToolCall ‹_›)
  · exact keepsOnError_approveToolCall (h.approveToolCall ‹_›)
  · exact keepsOnError_denyToolCall (h.denyToolCall ‹_›)
  · exact keepsOnError_recordToolResult (h.recordToolResult ‹_›)
  · exact keepsOnError_proposeMemory (h.proposeMemory ‹_›)
  · exact keepsOnError_approveMemory (h.approveMemory ‹_›)
  · exact keepsOnError_rejectMemory (h.rejectMemory ‹_›)
  · exact (keeps_done _).onError

theorem keeps_register : Keeps E (register c) w := by
  have hworkspace : Keeps E (ensureWorkspace c.workspaceId) w := by
    apply (keeps_other rfl).bind
    intro found w₁ _ _
    cases found with
    | some ws => exact keeps_done _
    | none => exact keeps_now.bind fun now w₂ _ _ => keeps_other rfl
  exact hworkspace.bind fun _ w₁ _ _ => keeps_ensureActor _ _ _

theorem keeps_lookupKey : Keeps E (lookupKey c) w := by
  unfold lookupKey
  split
  · exact keeps_done _
  · exact keeps_other rfl

theorem keeps_receive : Keeps E (receive X c) w := by
  refine (keeps_freshId _).bind fun id w₁ _ _ => keeps_now.bind fun now w₂ _ _ => ?_
  exact (keeps_other rfl).bind fun _ w₃ _ _ => keeps_done _

theorem recordKey_ok (c : Call) (cmd : CommandRecord) (w : World) :
    ∃ w', (recordKey c cmd).run (handle E) w = (.ok (), w') := by
  unfold recordKey
  split
  · exact ⟨w, rfl⟩
  · exact ⟨_, run_ignore _ _ _⟩

/-- A harmless command, dispatched. -/
theorem keepsOnError_dispatch (h : Harmless X policy w.db c) :
    KeepsOnError E (dispatch X policy c) w := by
  apply keeps_register.bindOnError
  intro _ w₁ _ hsame₁
  apply keeps_lookupKey.bindOnError
  intro prior w₂ _ hsame₂
  cases prior with
  | some prior => exact (keeps_done _).onError
  | none =>
    apply keeps_receive.bindOnError
    intro cmd w₃ _ hsame₃
    have hcommand := h.congr ((hsame₁.trans hsame₂).trans hsame₃)
    apply (keepsOnError_runCommand hcommand).bind_ok
    intro outcome w₄
    obtain ⟨w₅, hrecord⟩ := recordKey_ok (E := E) c cmd w₄
    exact ⟨outcome, w₅, by rw [run_bind_ok _ hrecord]; rfl⟩

/-- Registering leaves the keys and the commands alone. -/
theorem register_frame {out : Except ActantError Unit} {w' : World}
    (h : (register c).run (handle E) w = (out, w')) :
    w'.db.idempotencyRecord = w.db.idempotencyRecord ∧ w'.db.commandRecord = w.db.commandRecord := by
  let M : Monitor Op Op.Res Unit :=
    ⟨fun _ o => o.writes ≠ some .idempotencyRecord ∧ o.writes ≠ some .commandRecord, fun _ _ _ => ()⟩
  have hsteady : Steady M (fun _ => True) (register c) := by
    refine register_steady (fun l o ho _ => ⟨?_, fun _ => trivial⟩) c
    cases o with
    | now | ulid => simp [M, Op.writes]
    | sql s => cases s <;> first | exact ho.elim | simp [M, Op.writes, Sql.writes]
  let J : Unit → World → Prop := fun _ v =>
    v.db.idempotencyRecord = w.db.idempotencyRecord ∧ v.db.commandRecord = w.db.commandRecord
  have hcall : ∀ l v o, J l v → M.allowed l o → True → J () (handle E o v).2 := by
    intro l v o hv hallowed _
    have hframe := handle_frame E o v
    exact ⟨(hframe.idempotencyRecord hallowed.1).trans hv.1,
      (hframe.commandRecord hallowed.2).trans hv.2⟩
  obtain ⟨_, hkept, -⟩ := run_joint (handle E) J (fun _ _ => True) hcall
    (hsteady.safe () trivial) ⟨rfl, rfl⟩ (along_true _ _ _)
  rw [h] at hkept
  exact hkept

/-- A replayed call, dispatched. -/
theorem keepsOnError_replay (h : Replayed w.db c) : KeepsOnError E (dispatch X policy c) w := by
  obtain ⟨key, prior, hkey, hfound⟩ := h
  apply keeps_register.bindOnError
  intro _ w₁ hrun _
  have hlookup : lookupKey c = execute (.idempotencyLookup c.workspaceId key) := by
    rw [lookupKey, hkey]
  apply keeps_lookupKey.bindOnError
  intro answer w₂ hrun₂ _
  rw [hlookup] at hrun₂
  have hexec := exec_of_run hrun₂
  simp only [Sql.exec, Except.ok.injEq, Prod.mk.injEq] at hexec
  rw [(register_frame hrun).1, hfound] at hexec
  rw [← hexec.1]
  exact (keeps_done _).onError

end Keeps

end ActantDb
