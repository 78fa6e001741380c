import Mathlib.Algebra.Order.BigOperators.Group.List
import ActantDb.Command.Harmless

/-!
# Commands that fail halfway

There is no transaction around the statements of a command, so a dispatch that has changed a domain row and is refused a later statement returns an error and leaves the change behind. `dispatch_atomic_iff` says for which databases and calls that cannot happen, whatever the clock, the generated ids and the storage do: the replays and the calls that are `Harmless`. For every other call there are a clock, a generator and a storage with which the dispatch tears the tables.
-/

namespace ActantDb

open Prog

variable (X : Crates) (policy : PolicyDoc)

/-- Whatever the clock, the generator and the storage do, a dispatch that fails leaves the domain tables as they were. -/
def Atomic (db : Db) (c : Call) : Prop :=
  ∀ E w, w.db = db → KeepsOnError E (dispatch X policy c) w

/-! ### A command that changes something before its last statement -/

/-- The clock stands still, the generator repeats itself and the storage does not fail. -/
def Env.still (t : OffsetDateTime) (u : String) : Env := ⟨fun _ => t, fun _ => u, fun _ => false⟩

/-- No id made from this ULID is in use. -/
structure Unused (db : Db) (u : String) : Prop where
  session : ∀ tag, db.session.contains (newId tag u) = false
  message : ∀ tag, db.message.contains (newId tag u) = false
  tool : ∀ tag, db.tool.contains (newId tag u) = false
  toolCall : ∀ tag, db.toolCall.contains (newId tag u) = false
  memoryCandidate : ∀ tag, db.memoryCandidate.contains (newId tag u) = false
  memory : ∀ tag, db.memory.contains (newId tag u) = false

structure Registered (db : Db) (c : Call) : Prop where
  workspace : db.workspace.contains c.workspaceId = true
  actor : db.actor.contains c.actorId = true

section Tears

variable {X policy} {t : OffsetDateTime} {u : String} {db : Db} {w : World} {c : Call}
  {cmd : CommandRecord}

theorem still_fault (n : Nat) : (Env.still t u).fault n = false := rfl

theorem run_freshId (E : Env) (tag : String) (w : World) :
    (freshId tag).run (handle E) w = (.ok (newId tag (E.ulid w.ulids)), { w with ulids := w.ulids + 1 }) :=
  rfl

theorem run_now (E : Env) (w : World) :
    nowRfc3339.run (handle E) w =
      (.ok (E.clock w.readings).formatRfc3339, { w with readings := w.readings + 1 }) :=
  rfl

theorem tears_chronicle {α : Type} (h : ¬ db.SameDomain w.db) {ws : WorkspaceId} {actor : ActorId}
    {session : Option SessionId} {eventType : String} {causalityKind : CausalityKind}
    {sensitivity : Sensitivity} {payload : Value} {backrefs : EventBackrefs}
    (f : EventId → Action α) :
    Tears (Env.still t u) db
      (appendChronicle X ws actor session eventType causalityKind sensitivity payload backrefs >>= f)
      w :=
  ((tears_execute h _).bind _).bind f

theorem appendMessage_tears (hdb : db.SameDomain w.db) (hu : Unused w.db u)
    (hreg : Registered w.db c) {role eventType id text : String}
    (hid : optionalStr c.input "session_id" = some id)
    (htext : optionalStr c.input "text" = some text) (hsession : w.db.session.contains id = true) :
    Tears (Env.still t u) db
      (appendMessage X c.workspaceId c.actorId cmd c.input role eventType) w := by
  rw [appendMessage, requiredStr_some hid, requiredStr_some htext, ok_bind, ok_bind]
  apply tears_bind_ok still_fault (run_freshId _ _ _)
  apply tears_bind_ok still_fault (run_now _ _)
  refine tears_of_change still_fault ?_ fun _ w' hchanged => tears_chronicle hchanged _
  refine insert_changes (fun t' => { w.db with message := t' })
    (fun t' h => h.message.symm.trans hdb.message) (hu.message _) ?_
  rw [Db.messageReferences, hsession, hreg.workspace, hreg.actor]
  rfl

theorem ensureActor_run {ws : WorkspaceId} (id : ActorId) (kind : ActorKind)
    (hws : w.db.workspace.contains ws = true) :
    ∃ w', (ensureActor ws id kind).run (handle (Env.still t u)) w = (.ok (), w') ∧
      w'.db.workspace = w.db.workspace ∧ w'.db.actor.contains id = true ∧
      ∀ other, w.db.actor.contains other = true → w'.db.actor.contains other = true := by
  have hselect : (Sql.getActor id).exec w.db = .ok (w.db.actor.find? id, w.db) := rfl
  rw [ensureActor, run_bind_ok _ (run_accepted still_fault hselect)]
  cases hfind : w.db.actor.find? id with
  | some a =>
    refine ⟨w.after w.db, rfl, rfl, ?_, fun _ hother => hother⟩
    show w.db.actor.contains id = true
    rw [← Table.isSome_find?, hfind]
    rfl
  | none =>
    have hkey : w.db.actor.contains id = false := by
      rw [← Table.isSome_find?, hfind]
      rfl
    let a : Actor := ⟨id, ws, kind, id, t.formatRfc3339, none⟩
    obtain ⟨t', hok, hins⟩ : ∃ t', insertRow "actor" w.db.actor a (w.db.actorReferences a) =
        .ok t' ∧ w.db.actor.insert? a = some t' := insertRow_accepted hkey hws
    have hexec : (Sql.insertActor a).exec w.db = .ok ((), { w.db with actor := t' }) :=
      map_eq_ok.mpr ⟨t', hok, rfl⟩
    refine ⟨World.after _ { w.db with actor := t' },
      (run_bind_ok _ (run_now _ _)).trans (run_accepted still_fault hexec), rfl, ?_, ?_⟩
    · show t'.contains id = true
      rw [Table.contains_insert? hins]
      simp [a]
    · intro other hother
      show t'.contains other = true
      rw [Table.contains_insert? hins, hother]
      rfl

theorem register_run : ∃ w', (register c).run (handle (Env.still t u)) w = (.ok (), w') ∧
    Registered w'.db c := by
  have hworkspace : ∃ w', (ensureWorkspace c.workspaceId).run (handle (Env.still t u)) w =
      (.ok (), w') ∧ w'.db.workspace.contains c.workspaceId = true := by
    have hselect : (Sql.getWorkspace c.workspaceId).exec w.db =
        .ok (w.db.workspace.find? c.workspaceId, w.db) := rfl
    rw [ensureWorkspace, run_bind_ok _ (run_accepted still_fault hselect)]
    cases hfind : w.db.workspace.find? c.workspaceId with
    | some ws =>
      refine ⟨w.after w.db, rfl, ?_⟩
      show w.db.workspace.contains c.workspaceId = true
      rw [← Table.isSome_find?, hfind]
      rfl
    | none =>
      have hkey : w.db.workspace.contains c.workspaceId = false := by
        rw [← Table.isSome_find?, hfind]
        rfl
      let ws : Workspace := ⟨c.workspaceId, c.workspaceId, t.formatRfc3339, none⟩
      obtain ⟨t', hok, hins⟩ : ∃ t', insertRow "workspace" w.db.workspace ws true = .ok t' ∧
          w.db.workspace.insert? ws = some t' := insertRow_accepted hkey rfl
      have hexec : (Sql.insertWorkspace ws).exec w.db = .ok ((), { w.db with workspace := t' }) :=
        map_eq_ok.mpr ⟨t', hok, rfl⟩
      refine ⟨World.after _ { w.db with workspace := t' },
        (run_bind_ok _ (run_now _ _)).trans (run_accepted still_fault hexec), ?_⟩
      show t'.contains c.workspaceId = true
      rw [Table.contains_insert? hins]
      simp [ws]
  obtain ⟨w₁, hrun₁, hws⟩ := hworkspace
  obtain ⟨w₂, hrun₂, hsame, hactor, -⟩ := ensureActor_run c.actorId .human hws
  exact ⟨w₂, (run_bind_ok _ hrun₁).trans hrun₂, ⟨by rw [hsame, hws], hactor⟩⟩

theorem createSession_tears (hdb : db.SameDomain w.db) (hu : Unused w.db u)
    (hreg : Registered w.db c)
    (hnew : ∀ id, optionalStr c.input "session_id" = some id → w.db.session.contains id = false) :
    Tears (Env.still t u) db (createSession X c.workspaceId c.actorId cmd c.input) w := by
  have hagent : ∃ w', (ensureAgent c.workspaceId (optionalStr c.input "agent_actor_id")).run
      (handle (Env.still t u)) w = (.ok (), w') ∧ Registered w'.db c ∧
        refersTo w'.db.actor (optionalStr c.input "agent_actor_id") = true := by
    cases optionalStr c.input "agent_actor_id" with
    | none => exact ⟨w, rfl, hreg, rfl⟩
    | some agent =>
      obtain ⟨w', hrun, hsame, hagent, hother⟩ := ensureActor_run agent .agent hreg.workspace
      exact ⟨w', hrun, ⟨by rw [hsame, hreg.workspace], hother _ hreg.actor⟩, hagent⟩
  have hkeeps : Keeps (Env.still t u)
      (ensureAgent c.workspaceId (optionalStr c.input "agent_actor_id")) w := keeps_ensureAgent _ _
  obtain ⟨w₁, hrun, hreg₁, hagent⟩ := hagent
  have hdb₁ := hdb.trans (hkeeps.sameDomain hrun)
  have hsession₁ := (hkeeps.sameDomain hrun).session
  have hid : ∃ id w₂, (sessionIdOf c.input).run (handle (Env.still t u)) w₁ = (.ok id, w₂) ∧
      w₂.db = w₁.db ∧ w₁.db.session.contains id = false := by
    rw [← hsession₁]
    unfold sessionIdOf
    split
    · exact ⟨_, w₁, rfl, rfl, hnew _ ‹_›⟩
    · exact ⟨_, _, run_freshId _ _ _, rfl, hu.session _⟩
  obtain ⟨id, w₂, hrun₂, hw₂, hfresh⟩ := hid
  rw [← hw₂] at hdb₁ hreg₁ hagent hfresh
  have hmissing : (Sql.sessionExists c.workspaceId id).exec w₂.db = .ok (false, w₂.db) := by
    rw [Table.contains_eq_false] at hfresh
    rw [Sql.exec, List.any_eq_false.mpr]
    intro s hs
    simp [hfresh s hs]
  rw [createSession]
  refine tears_bind_ok still_fault hrun (tears_bind_ok still_fault hrun₂ ?_)
  apply tears_bind_ok still_fault (run_accepted still_fault hmissing)
  apply tears_bind_ok still_fault (run_now _ _)
  refine tears_of_change still_fault ?_ fun _ w' hchanged => tears_chronicle hchanged _
  refine insert_changes (fun t' => { w₂.db with session := t' })
    (fun t' h => h.session.symm.trans hdb₁.session) hfresh ?_
  show (w₂.db.workspace.contains c.workspaceId && w₂.db.actor.contains c.actorId &&
    refersTo w₂.db.actor (optionalStr c.input "agent_actor_id")) = true
  rw [hreg₁.workspace, hreg₁.actor, hagent]
  rfl

/-- Deciding changes every request it selects. -/
theorem decide_changes {a : Db} {id : ToolCallId} {actor : ActorId}
    {f : ApprovalRequest → ApprovalRequest} {hf : ∀ ar, (f ar).id = ar.id}
    (hdb : db.SameDomain a) (hactor : a.actor.contains actor = true)
    (hne : ∀ ar, ar.status = .pending → f ar ≠ ar)
    (hpending : ∃ ar ∈ a.approvalRequest, ar.pendingFor id = true) :
    ∃ (reply : Unit) (db' : Db), (a.decide id actor f hf).map (fun db' => ((), db')) =
      .ok (reply, db') ∧ ¬ db.SameDomain db' := by
  obtain ⟨ar, har, hselected⟩ := hpending
  refine ⟨(), a.decidePending id f hf, ?_, ?_⟩
  · rw [Db.decide, hactor]
    simp [Except.map]
  · refine update_changes (fun t' => { a with approvalRequest := t' })
      (fun t' h => h.approvalRequest.symm.trans hdb.approvalRequest) har hselected (hne ar ?_)
    rw [ApprovalRequest.pendingFor, Bool.and_eq_true] at hselected
    exact of_decide_eq_true hselected.2

theorem decide_accepted {a : Db} {id : ToolCallId} {actor : ActorId}
    {f : ApprovalRequest → ApprovalRequest} {hf : ∀ ar, (f ar).id = ar.id}
    (hactor : a.actor.contains actor = true) :
    (a.decide id actor f hf).map (fun db' => ((), db')) = .ok ((), a.decidePending id f hf) := by
  rw [Db.decide, hactor]
  simp [Except.map]

theorem updateToolCall_changes {a : Db} {id : ToolCallId} {f : ToolCall → ToolCall}
    {hf : ∀ tc, (f tc).id = tc.id} (hdb : db.toolCall = a.toolCall) {tc : ToolCall}
    (htc : tc ∈ a.toolCall) (hid : tc.id = id) (hne : f tc ≠ tc) :
    ∃ (reply : Unit) (db' : Db), (Except.ok ((), a.updateToolCall id f hf) : Except SqlError _) =
      .ok (reply, db') ∧ ¬ db.SameDomain db' :=
  ⟨(), _, rfl, update_changes (fun t' => { a with toolCall := t' })
    (fun _ h => h.toolCall.symm.trans hdb) htc (decide_eq_true hid) hne⟩

/-- A decision that changes a request, or accepts to change none and then changes the call. -/
theorem tears_decision {α : Type} {id : ToolCallId} {status : ToolCallStatus} {decision mark : Sql}
    {f : decision.Reply → mark.Reply → Action α}
    (hopen : (∃ ar ∈ w.db.approvalRequest, ar.pendingFor id = true) ∨
      ∃ tc ∈ w.db.toolCall, tc.id = id ∧ tc.status ≠ status)
    (hdecision : (∃ ar ∈ w.db.approvalRequest, ar.pendingFor id = true) →
      ∃ reply db', decision.exec w.db = .ok (reply, db') ∧ ¬ db.SameDomain db')
    (haccepted : ∃ reply db', decision.exec w.db = .ok (reply, db') ∧
      db'.toolCall = w.db.toolCall)
    (hmark : ∀ a : Db, a.toolCall = w.db.toolCall →
      (∃ tc ∈ a.toolCall, tc.id = id ∧ tc.status ≠ status) →
        ∃ reply db', mark.exec a = .ok (reply, db') ∧ ¬ db.SameDomain db')
    (hf : ∀ r r' w', ¬ db.SameDomain w'.db → Tears (Env.still t u) db (f r r') w') :
    Tears (Env.still t u) db (execute decision >>= fun r => execute mark >>= f r) w := by
  rcases hopen with hpending | hstatus
  · apply tears_of_change still_fault (hdecision hpending)
    intro reply w' hchanged
    exact (tears_execute hchanged _).bind _
  · obtain ⟨reply, a, hexec, hsame⟩ := haccepted
    apply tears_bind_ok still_fault (run_accepted still_fault hexec)
    apply tears_of_change still_fault (hmark a hsame (hsame ▸ hstatus))
    intro reply' w' hchanged
    exact hf reply reply' w' hchanged

theorem approveToolCall_tears {id : ToolCallId} (hdb : db.SameDomain w.db)
    (hreg : Registered w.db c) (hid : optionalStr c.input "tool_call_id" = some id)
    (hopen : (∃ ar ∈ w.db.approvalRequest, ar.pendingFor id = true) ∨
      ∃ tc ∈ w.db.toolCall, tc.id = id ∧ tc.status ≠ .approved) :
    Tears (Env.still t u) db (approveToolCall X c.workspaceId c.actorId cmd c.input) w := by
  rw [approveToolCall, requiredStr_some hid, ok_bind]
  apply tears_bind_ok still_fault (run_accepted still_fault rfl)
  rw [approvePendingToolCall, Prog.bind_assoc]
  apply tears_bind_ok still_fault (run_now _ _)
  rw [Prog.bind_assoc]
  refine tears_decision hopen (decide_changes hdb hreg.actor fun ar har heq => ?_)
    ⟨_, _, decide_accepted hreg.actor, rfl⟩ ?_ fun _ _ w' hchanged => tears_chronicle hchanged _
  · rw [← heq] at har
    cases har
  · rintro a hsame ⟨tc, htc, htcid, hstatus⟩
    exact updateToolCall_changes (hdb.toolCall.trans hsame.symm) htc htcid
      fun heq => hstatus (by rw [← heq])

theorem denyToolCall_tears {id : ToolCallId} (hdb : db.SameDomain w.db)
    (hreg : Registered w.db c) (hid : optionalStr c.input "tool_call_id" = some id)
    (hopen : (∃ ar ∈ w.db.approvalRequest, ar.pendingFor id = true) ∨
      ∃ tc ∈ w.db.toolCall, tc.id = id ∧ tc.status ≠ .denied) :
    Tears (Env.still t u) db (denyToolCall X c.workspaceId c.actorId cmd c.input) w := by
  rw [denyToolCall, requiredStr_some hid, ok_bind]
  apply tears_bind_ok still_fault (run_accepted still_fault rfl)
  rw [denyPendingToolCall, Prog.bind_assoc]
  apply tears_bind_ok still_fault (run_now _ _)
  rw [Prog.bind_assoc]
  refine tears_decision hopen (decide_changes hdb hreg.actor fun ar har heq => ?_)
    ⟨_, _, decide_accepted hreg.actor, rfl⟩ ?_ fun _ _ w' hchanged => tears_chronicle hchanged _
  · rw [← heq] at har
    cases har
  · rintro a hsame ⟨tc, htc, htcid, hstatus⟩
    exact updateToolCall_changes (hdb.toolCall.trans hsame.symm) htc htcid
      fun heq => hstatus (by rw [← heq])

/-- The result carries the time, so that recording one anew changes the row at some time. -/
theorem recordToolResult_tears {id : ToolCallId} (hdb : db.SameDomain w.db)
    (hid : optionalStr c.input "tool_call_id" = some id) {tc : ToolCall}
    (htc : tc ∈ w.db.toolCall) (htcid : tc.id = id) (ht : tc.completedAt ≠ some t.formatRfc3339) :
    Tears (Env.still t u) db (recordToolResult X c.workspaceId c.actorId cmd c.input) w := by
  have hselect : (Sql.sessionForToolCall id).exec w.db =
      .ok ((w.db.toolCall.find? id).bind (·.sessionId), w.db) := rfl
  rw [recordToolResult, requiredStr_some hid, ok_bind]
  apply tears_bind_ok still_fault (run_accepted still_fault hselect)
  rw [completeToolCall, Prog.bind_assoc]
  apply tears_bind_ok still_fault (run_now _ _)
  refine tears_of_change still_fault ?_ fun _ w' hchanged => tears_chronicle hchanged _
  exact updateToolCall_changes hdb.toolCall htc htcid fun heq => ht (by rw [← heq]; rfl)

theorem proposeMemory_tears {text : String} (hdb : db.SameDomain w.db) (hu : Unused w.db u)
    (hreg : Registered w.db c) (htext : optionalStr c.input "text" = some text) :
    Tears (Env.still t u) db (proposeMemory X c.workspaceId c.actorId cmd c.input) w := by
  rw [proposeMemory, requiredStr_some htext, ok_bind]
  apply tears_bind_ok still_fault (run_freshId _ _ _)
  apply tears_bind_ok still_fault (run_now _ _)
  refine tears_of_change still_fault ?_ fun _ w' hchanged => tears_chronicle hchanged _
  refine insert_changes (fun t' => { w.db with memoryCandidate := t' })
    (fun t' h => h.memoryCandidate.symm.trans hdb.memoryCandidate) (hu.memoryCandidate _) ?_
  show (w.db.workspace.contains c.workspaceId && w.db.actor.contains c.actorId) = true
  rw [hreg.workspace, hreg.actor]
  rfl

theorem approveMemory_tears {id : MemoryCandidateId} (hdb : db.SameDomain w.db)
    (hu : Unused w.db u) (hreg : Registered w.db c)
    (hid : optionalStr c.input "memory_candidate_id" = some id)
    (hstored : w.db.memoryCandidate.contains id = true) :
    Tears (Env.still t u) db (approveMemory X c.workspaceId c.actorId cmd c.input) w := by
  have hselect : (Sql.memoryCandidate id).exec w.db = .ok (w.db.memoryCandidate.find? id, w.db) :=
    rfl
  rw [approveMemory, requiredStr_some hid, ok_bind]
  apply tears_bind_ok still_fault (run_accepted still_fault hselect)
  obtain ⟨candidate, hfind⟩ := Option.isSome_iff_exists.mp (Table.isSome_find?.trans hstored)
  rw [hfind]
  apply tears_bind_ok still_fault (run_freshId _ _ _)
  apply tears_bind_ok still_fault (run_now _ _)
  refine tears_of_change still_fault ?_ fun _ w' hchanged => (tears_execute hchanged _).bind _
  refine insert_changes (fun t' => { w.db with memory := t' })
    (fun t' h => h.memory.symm.trans hdb.memory) (hu.memory _) ?_
  show (w.db.workspace.contains c.workspaceId && w.db.memoryCandidate.contains id) = true
  rw [hreg.workspace, hstored]
  rfl

theorem rejectMemory_tears {id : MemoryCandidateId} (hdb : db.SameDomain w.db)
    (hid : optionalStr c.input "memory_candidate_id" = some id) {mc : MemoryCandidate}
    (hmc : mc ∈ w.db.memoryCandidate) (hmcid : mc.id = id)
    (hopen : ¬ (mc.status = .rejected ∧
      mc.reviewReason = some ((optionalStr c.input "reason").getD "rejected"))) :
    Tears (Env.still t u) db (rejectMemory X c.workspaceId c.actorId cmd c.input) w := by
  rw [rejectMemory, requiredStr_some hid, ok_bind]
  refine tears_of_change still_fault ?_ fun _ w' hchanged => tears_chronicle hchanged _
  refine ⟨(), _, rfl, update_changes (fun t' => { w.db with memoryCandidate := t' })
    (fun _ h => h.memoryCandidate.symm.trans hdb.memoryCandidate) hmc (decide_eq_true hmcid)
    fun heq => hopen ?_⟩
  rw [← heq]
  exact ⟨rfl, rfl⟩

/-- The tool is new to the workspace, and its row is in. -/
theorem upsertTool_changes {name : String} (hdb : db.SameDomain w.db) (hu : Unused w.db u)
    (hreg : Registered w.db c) (hnew : w.db.toolNamed c.workspaceId name = none) :
    ∃ id w', (upsertTool c.workspaceId name).run (handle (Env.still t u)) w = (.ok id, w') ∧
      ¬ db.SameDomain w'.db := by
  have hselect : (Sql.selectTool c.workspaceId name).exec w.db = .ok (none, w.db) := by
    rw [Sql.exec, hnew]
    rfl
  have hinsert : ∀ tool : Tool, tool.id = newId "tool" u → tool.workspaceId = c.workspaceId →
      tool.name = name → ∃ (reply : Unit) (db' : Db),
        (Sql.insertTool tool).exec w.db = .ok (reply, db') ∧ ¬ db.SameDomain db' := by
    intro tool hid hws hname
    simp only [Sql.exec, hws, hname, hnew, Option.isSome_none, Bool.false_eq_true, if_false]
    refine insert_changes (fun t' => { w.db with tool := t' })
      (fun t' h => h.tool.symm.trans hdb.tool) (by rw [hid]; exact hu.tool _) ?_
    rw [Db.toolReferences, hws, hreg.workspace]
  obtain ⟨reply, db', hexec, hchanged⟩ := hinsert
    { id := newId "tool" u, workspaceId := c.workspaceId, name := name, kind := toolKind name,
      requiredPermission := name, defaultRiskLevel := .medium, createdAt := t.formatRfc3339 }
    rfl rfl rfl
  refine ⟨newId "tool" u, World.after _ db',
    (run_bind_ok _ (run_accepted still_fault hselect)).trans
      ((run_bind_ok _ (run_freshId _ _ _)).trans ((run_bind_ok _ (run_now _ _)).trans
        (run_bind_ok _ (run_accepted still_fault hexec)))), hchanged⟩

theorem fileToolCall_tears {toolCallId : ToolCallId} {id : SessionId} {toolId : ToolId}
    {name canon hash : String} {risk : RiskLevel} {status : ToolCallStatus} {v : Verdict}
    {α : Type} {f : Unit → Action α} (hdb : db.SameDomain w.db) (hreg : Registered w.db c)
    (hkey : w.db.toolCall.contains toolCallId = false) (hsession : w.db.session.contains id = true)
    (htool : w.db.tool.contains toolId = true)
    (hf : ∀ w', ¬ db.SameDomain w'.db → Tears (Env.still t u) db (f ()) w') :
    Tears (Env.still t u) db
      (fileToolCall c.workspaceId c.actorId toolCallId id toolId name canon hash risk status v >>= f)
      w := by
  unfold fileToolCall
  rw [Prog.bind_assoc]
  apply tears_bind_ok still_fault (run_now _ _)
  rw [Prog.bind_assoc]
  refine tears_of_change still_fault ?_ fun _ w' hchanged => ?_
  · refine insert_changes (fun t' => { w.db with toolCall := t' })
      (fun t' h => h.toolCall.symm.trans hdb.toolCall) hkey ?_
    show (w.db.workspace.contains c.workspaceId && w.db.session.contains id &&
      w.db.actor.contains c.actorId && w.db.tool.contains toolId) = true
    rw [hreg.workspace, hsession, hreg.actor, htool]
    rfl
  · cases v with
    | requireApproval reason hint args =>
      rw [Prog.bind_assoc]
      apply tears_bind_ok still_fault (run_freshId _ _ _)
      rw [Prog.bind_assoc]
      apply tears_bind_ok still_fault (run_now _ _)
      rw [Prog.bind_assoc]
      refine (tears_execute ?_ _).bind _
      exact hchanged
    | allow | constrain | block | halt => exact hf w' hchanged

theorem requestToolCall_tears {id name : String} (hdb : db.SameDomain w.db) (hu : Unused w.db u)
    (hreg : Registered w.db c) (hid : optionalStr c.input "session_id" = some id)
    (hname : optionalStr c.input "tool_name" = some name)
    (hopen : w.db.toolNamed c.workspaceId name = none ∨
      (w.db.session.contains id = true ∧ ∃ status, (requestVerdict X policy c name).status = .ok status)) :
    Tears (Env.still t u) db (requestToolCall X policy c.workspaceId c.actorId cmd c.input) w := by
  rw [requestToolCall, requiredStr_some hid, requiredStr_some hname, ok_bind, ok_bind]
  cases hnamed : w.db.toolNamed c.workspaceId name with
  | none =>
    obtain ⟨toolId, w₁, hrun, hchanged⟩ := upsertTool_changes hdb hu hreg hnamed
    apply tears_bind_ok still_fault hrun
    apply tears_bind_ok still_fault (run_freshId _ _ _)
    show Tears _ db ((Prog.done (requestVerdict X policy c name).status : Action _) >>= _) _
    cases (requestVerdict X policy c name).status with
    | error e =>
      rw [error_bind]
      exact tears_error (by exact hchanged) e
    | ok status =>
      rw [ok_bind]
      unfold fileToolCall
      rw [Prog.bind_assoc]
      apply tears_bind_ok still_fault (run_now _ _)
      rw [Prog.bind_assoc]
      refine (tears_execute ?_ _).bind _
      exact hchanged
  | some tool =>
    rw [hnamed] at hopen
    obtain ⟨hsession, status, hstatus⟩ := hopen.resolve_left (by simp)
    have hselect : (Sql.selectTool c.workspaceId name).exec w.db = .ok (some tool.id, w.db) := by
      rw [Sql.exec, hnamed]
      rfl
    have hrun : (upsertTool c.workspaceId name).run (handle (Env.still t u)) w =
        (.ok tool.id, w.after w.db) := run_bind_ok _ (run_accepted still_fault hselect)
    apply tears_bind_ok still_fault hrun
    apply tears_bind_ok still_fault (run_freshId _ _ _)
    show Tears _ db ((Prog.done (requestVerdict X policy c name).status : Action _) >>= _) _
    rw [hstatus, ok_bind]
    have htool : w.db.tool.contains tool.id = true :=
      Table.contains_iff.mpr ⟨tool, List.mem_of_find?_eq_some hnamed, rfl⟩
    exact fileToolCall_tears hdb hreg (hu.toolCall _) hsession htool fun w' hchanged =>
      tears_chronicle hchanged _

theorem lookupKey_run (h : ¬ Replayed w.db c) :
    ∃ w', (lookupKey c).run (handle (Env.still t u)) w = (.ok none, w') ∧ w'.db = w.db := by
  cases hkey : c.idempotencyKey with
  | none => exact ⟨w, by rw [lookupKey, hkey]; rfl, rfl⟩
  | some key =>
    have hexec : (Sql.idempotencyLookup c.workspaceId key).exec w.db = .ok (none, w.db) := by
      rw [Sql.exec]
      cases hfound : (w.db.idempotencyRecord.find? (c.workspaceId, key)).bind (·.resultRef) with
      | none => rfl
      | some prior => exact absurd ⟨key, prior, hkey, hfound⟩ h
    refine ⟨w.after w.db, ?_, rfl⟩
    rw [lookupKey, hkey]
    exact run_accepted still_fault hexec

theorem receive_run (hreg : Registered w.db c)
    (hu : ∀ tag, w.db.commandRecord.contains (newId tag u) = false) :
    ∃ cmd w', (receive X c).run (handle (Env.still t u)) w = (.ok cmd, w') ∧
      Registered w'.db c := by
  let cmd : CommandRecord :=
    { id := newId "cmd" u, workspaceId := c.workspaceId, actorId := c.actorId, sessionId := none,
      commandType := c.commandType, inputInline := some (canonicalJson X c.input),
      inputHash := sha256Hex X (asBytes (canonicalJson X c.input)), policyId := none,
      status := .received, error := none, createdAt := t.formatRfc3339, committedAt := none }
  have href : w.db.commandRecordReferences cmd = true := by
    simp [Db.commandRecordReferences, cmd, hreg.workspace, hreg.actor, refersTo]
  obtain ⟨t', hok, -⟩ : ∃ t', insertRow "command_record" w.db.commandRecord cmd
      (w.db.commandRecordReferences cmd) = .ok t' ∧ w.db.commandRecord.insert? cmd = some t' :=
    insertRow_accepted (hu _) href
  have hexec : (Sql.insertCommand cmd).exec w.db = .ok ((), { w.db with commandRecord := t' }) :=
    map_eq_ok.mpr ⟨t', hok, rfl⟩
  exact ⟨cmd, World.after _ { w.db with commandRecord := t' },
    (run_bind_ok _ (run_freshId _ _ _)).trans ((run_bind_ok _ (run_now _ _)).trans
      (run_bind_ok _ (run_accepted still_fault hexec))), hreg.workspace, hreg.actor⟩

/-- A dispatch that is no replay gets to its command. -/
theorem dispatch_tears (hkey : ¬ Replayed db c)
    (hu : ∀ tag, db.commandRecord.contains (newId tag u) = false)
    (hcommand : ∀ cmd w, db.SameDomain w.db → Registered w.db c →
      Tears (Env.still t u) db (runCommand X policy c cmd) w) :
    Tears (Env.still t u) db (dispatch X policy c) (World.start db) := by
  obtain ⟨w₁, hrun₁, hreg₁⟩ := register_run (t := t) (u := u) (w := World.start db) (c := c)
  obtain ⟨hkeys, hcommands⟩ := register_frame hrun₁
  have hmissed : ¬ Replayed w₁.db c := by
    rw [Replayed, hkeys]
    exact hkey
  obtain ⟨w₂, hrun₂, hw₂⟩ := lookupKey_run (t := t) (u := u) hmissed
  have hu₂ : ∀ tag, w₂.db.commandRecord.contains (newId tag u) = false := by
    rw [hw₂, hcommands]
    exact hu
  obtain ⟨cmd, w₃, hrun₃, hreg₃⟩ := receive_run (X := X) (t := t) (hw₂ ▸ hreg₁) hu₂
  have hsame := (keeps_register.sameDomain hrun₁).trans
    ((keeps_lookupKey.sameDomain hrun₂).trans (keeps_receive.sameDomain hrun₃))
  refine tears_bind_ok still_fault hrun₁ (tears_bind_ok still_fault hrun₂ ?_)
  exact tears_bind_ok still_fault hrun₃ ((hcommand cmd w₃ hsame hreg₃).bind _)

theorem Unused.congr {a b : Db} (h : Unused a u) (hab : a.SameDomain b) : Unused b u := by
  obtain ⟨hsession, hmessage, htool, htoolCall, hcandidate, hmemory⟩ := h
  rw [hab.session] at hsession
  rw [hab.message] at hmessage
  rw [hab.tool] at htool
  rw [hab.toolCall] at htoolCall
  rw [hab.memoryCandidate] at hcandidate
  rw [hab.memory] at hmemory
  exact ⟨hsession, hmessage, htool, htoolCall, hcandidate, hmemory⟩

/-- A ULID longer than every string of a list makes ids that are not in it. -/
theorem exists_newId_not_mem (ids : List String) : ∃ u, ∀ tag, ¬ newId tag u ∈ ids := by
  refine ⟨String.ofList (List.replicate ((ids.map String.length).sum + 1) '0'), fun tag hmem => ?_⟩
  have hle : (newId tag _).length ≤ (ids.map String.length).sum :=
    List.single_le_sum (fun n _ => Nat.zero_le n) _ (List.mem_map_of_mem hmem)
  simp only [newId, String.length_append, String.length_ofList, List.length_replicate] at hle
  omega

theorem exists_unused (db : Db) :
    ∃ u, Unused db u ∧ ∀ tag, db.commandRecord.contains (newId tag u) = false := by
  obtain ⟨u, hu⟩ := exists_newId_not_mem
    (db.session.rows.map Session.id ++ db.message.rows.map Message.id ++ db.tool.rows.map Tool.id ++
      db.toolCall.rows.map ToolCall.id ++ db.memoryCandidate.rows.map MemoryCandidate.id ++
      db.memory.rows.map Memory.id ++ db.commandRecord.rows.map CommandRecord.id)
  simp only [List.mem_append, List.mem_map, not_or] at hu
  refine ⟨u, ⟨?_, ?_, ?_, ?_, ?_, ?_⟩, ?_⟩ <;> intro tag <;> rw [Table.contains_eq_false] <;>
    intro r hr heq
  · exact (hu tag).1.1.1.1.1.1 ⟨r, hr, heq⟩
  · exact (hu tag).1.1.1.1.1.2 ⟨r, hr, heq⟩
  · exact (hu tag).1.1.1.1.2 ⟨r, hr, heq⟩
  · exact (hu tag).1.1.1.2 ⟨r, hr, heq⟩
  · exact (hu tag).1.1.2 ⟨r, hr, heq⟩
  · exact (hu tag).1.2 ⟨r, hr, heq⟩
  · exact (hu tag).2 ⟨r, hr, heq⟩

/-- Two instants, so that any one text is not the text of one of them. -/
theorem exists_other_instant (text : Option String) :
    ∃ t : OffsetDateTime, text ≠ some t.formatRfc3339 := by
  let first : OffsetDateTime := ⟨0, by decide⟩
  let second : OffsetDateTime := ⟨10 ^ 9, by decide⟩
  by_cases h : text = some first.formatRfc3339
  · refine ⟨second, fun h' => ?_⟩
    rw [h] at h'
    exact absurd h' (by decide +kernel)
  · exact ⟨first, h⟩

/-- What an atomic call's command cannot do. -/
theorem Atomic.not_tears (hatomic : Atomic X policy db c) (hkey : ¬ Replayed db c)
    (t : OffsetDateTime) : ∃ u, ∃ w : World, ∃ cmd, db.SameDomain w.db ∧ Unused w.db u ∧
      Registered w.db c ∧ ¬ Tears (Env.still t u) db (runCommand X policy c cmd) w := by
  obtain ⟨u, hu, hcommands⟩ := exists_unused db
  by_contra hall
  simp only [not_exists, not_and, not_not] at hall
  obtain ⟨n, e, w', -, hrun, hchanged⟩ := dispatch_tears hkey hcommands
    fun cmd w hdb hreg => hall u w cmd hdb (hu.congr hdb) hreg
  exact hchanged (hatomic _ _ rfl e w' hrun)

/-- A call that is not as its decision would leave it. -/
theorem open_of_not_decided {id : ToolCallId} {status : ToolCallStatus}
    (h : ¬ ((∀ ar ∈ db.approvalRequest, ar.pendingFor id = false) ∧
      ∀ tc ∈ db.toolCall, tc.id = id → tc.status = status)) :
    (∃ ar ∈ db.approvalRequest, ar.pendingFor id = true) ∨
      ∃ tc ∈ db.toolCall, tc.id = id ∧ tc.status ≠ status := by
  by_contra hclosed
  rw [not_or] at hclosed
  refine h ⟨fun ar har => ?_, fun tc htc htcid => ?_⟩
  · rw [← Bool.not_eq_true]
    exact fun hpending => hclosed.1 ⟨ar, har, hpending⟩
  · by_contra hstatus
    exact hclosed.2 ⟨tc, htc, htcid, hstatus⟩

theorem harmless_of_atomic (hatomic : Atomic X policy db c) (hkey : ¬ Replayed db c) :
    Harmless X policy db c := by
  obtain ⟨u, w, cmd, hdb, hu, hreg, hkept⟩ := hatomic.not_tears hkey ⟨0, by decide⟩
  unfold runCommand at hkept
  constructor
  case createSession =>
    intro hc
    by_contra hnone
    rw [hc] at hkept
    refine hkept (createSession_tears hdb hu hreg fun id hid => ?_)
    rw [← hdb.session, ← Bool.not_eq_true]
    exact fun hstored => hnone ⟨id, hid, hstored⟩
  case appendMessage =>
    intro hc id text hid htext
    by_contra hstored
    rw [Bool.not_eq_false, hdb.session] at hstored
    rcases hc with hc | hc
    · rw [hc] at hkept
      exact hkept (appendMessage_tears hdb hu hreg hid htext hstored)
    · rw [hc] at hkept
      exact hkept (appendMessage_tears hdb hu hreg hid htext hstored)
  case requestToolCall =>
    intro hc id name hid hname
    rw [hc] at hkept
    by_contra hno
    refine hkept (requestToolCall_tears hdb hu hreg hid hname ?_)
    rw [Db.toolNamed, ← hdb.tool, ← hdb.session]
    cases hnamed : db.toolNamed c.workspaceId name with
    | none => exact Or.inl hnamed
    | some tool =>
      rw [hnamed, Option.isSome_some, eq_self, true_and, not_or, Bool.not_eq_false] at hno
      refine Or.inr ⟨hno.1, ?_⟩
      cases hstatus : (requestVerdict X policy c name).status with
      | ok status => exact ⟨status, rfl⟩
      | error e => exact absurd ⟨e, hstatus⟩ hno.2
  case approveToolCall =>
    intro hc id hid
    rw [hc] at hkept
    by_contra hno
    rw [hdb.approvalRequest, hdb.toolCall] at hno
    exact hkept (approveToolCall_tears hdb hreg hid (open_of_not_decided hno))
  case denyToolCall =>
    intro hc id hid
    rw [hc] at hkept
    by_contra hno
    rw [hdb.approvalRequest, hdb.toolCall] at hno
    exact hkept (denyToolCall_tears hdb hreg hid (open_of_not_decided hno))
  case recordToolResult =>
    intro hc id hid
    by_contra hstored
    rw [Bool.not_eq_false] at hstored
    obtain ⟨tc, htc, htcid⟩ := Table.contains_iff.mp hstored
    -- at an instant other than the one the row carries
    obtain ⟨t', ht'⟩ := exists_other_instant tc.completedAt
    obtain ⟨u', w', cmd', hdb', -, -, hkept'⟩ := hatomic.not_tears hkey t'
    unfold runCommand at hkept'
    rw [hc] at hkept'
    exact hkept' (recordToolResult_tears hdb' hid (hdb'.toolCall ▸ htc) htcid ht')
  case proposeMemory =>
    intro hc
    by_contra hsome
    obtain ⟨text, htext⟩ := Option.ne_none_iff_exists'.mp hsome
    rw [hc] at hkept
    exact hkept (proposeMemory_tears hdb hu hreg htext)
  case approveMemory =>
    intro hc id hid
    by_contra hstored
    rw [Bool.not_eq_false, hdb.memoryCandidate] at hstored
    rw [hc] at hkept
    exact hkept (approveMemory_tears hdb hu hreg hid hstored)
  case rejectMemory =>
    intro hc id hid mc hmc hmcid
    by_contra hopen
    rw [hdb.memoryCandidate] at hmc
    rw [hc] at hkept
    exact hkept (rejectMemory_tears hdb hid hmc hmcid hopen)

end Tears

/-- **A dispatch is atomic**, whatever the clock, the generator and the storage do, exactly when it is a replay or its command changes nothing before the append to the chronicle. -/
theorem dispatch_atomic_iff (X : Crates) (policy : PolicyDoc) (db : Db) (c : Call) :
    Atomic X policy db c ↔ Replayed db c ∨ Harmless X policy db c := by
  constructor
  · intro hatomic
    by_cases hkey : Replayed db c
    · exact Or.inl hkey
    · exact Or.inr (harmless_of_atomic hatomic hkey)
  · intro h E w hdb
    subst hdb
    rcases h with h | h
    · exact keepsOnError_replay h
    · exact keepsOnError_dispatch h

/-- A request for a tool the workspace does not know yet, in a session that does not exist. -/
def unknownSession : Call :=
  Call.sample "request_tool_call" [("session_id", "sess_missing"), ("tool_name", "file.read")]

/-- The dispatch fails on the tool call's foreign key, and the tool's row stays. -/
theorem unknownSession_not_atomic : ¬ Atomic Crates.sample alphaDemoPolicy .empty unknownSession := by
  intro hatomic
  have hfails : ((dispatch Crates.sample alphaDemoPolicy unknownSession).run (handle .wholeSeconds)
      (World.start .empty)).1.isOk = false := by
    decide +kernel
  have hchanged : ¬ Db.empty.SameDomain ((dispatch Crates.sample alphaDemoPolicy unknownSession).run
      (handle .wholeSeconds) (World.start .empty)).2.db := by
    decide +kernel
  have hkeeps := hatomic .wholeSeconds (World.start .empty) rfl
  generalize hrun : (dispatch Crates.sample alphaDemoPolicy unknownSession).run
    (handle .wholeSeconds) (World.start .empty) = out at hfails hchanged
  obtain ⟨r, w'⟩ := out
  cases r with
  | ok outcome => cases hfails
  | error e => exact hchanged (hkeeps e w' hrun)

end ActantDb
