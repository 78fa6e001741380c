import ActantDb.Command.Shape
import ActantDb.Lib.View

/-!
# What a dispatch does to other workspaces

Every row a dispatch inserts carries the workspace of the call. Its updates, however, find their rows by the id in the input alone: approving and denying a tool call, recording a result, approving and rejecting a memory. `elsewhere` is the part of the database that belongs to other workspaces, and the dispatch leaves it as it was exactly when each of these updates does. The same holds of what lies outside of any set of workspaces that the one of the call is in.
-/

namespace ActantDb

open Prog

/-! ### The rows of other workspaces -/

/-- The database without the rows of the workspace `ws`. The tables whose rows name no workspace are kept. -/
def Db.elsewhere (ws : WorkspaceId) (db : Db) : Db :=
  { db with
    workspace := db.workspace.filter (·.id ≠ ws)
    actor := db.actor.filter (·.workspaceId ≠ ws)
    session := db.session.filter (·.workspaceId ≠ ws)
    message := db.message.filter (·.workspaceId ≠ ws)
    tool := db.tool.filter (·.workspaceId ≠ ws)
    toolCall := db.toolCall.filter (·.workspaceId ≠ ws)
    approvalRequest := db.approvalRequest.filter (·.workspaceId ≠ ws)
    memoryCandidate := db.memoryCandidate.filter (·.workspaceId ≠ ws)
    memory := db.memory.filter (·.workspaceId ≠ ws)
    agentEvent := db.agentEvent.filter (·.event.workspaceId ≠ ws)
    commandRecord := db.commandRecord.filter (·.workspaceId ≠ ws)
    idempotencyRecord := db.idempotencyRecord.filter (·.workspaceId ≠ ws)
    effect := db.effect.filter (·.workspaceId ≠ ws)
    worker := db.worker.filter (·.workspaceId ≠ ws) }

open Classical in
/-- The database without the rows of the workspaces in `S`. -/
noncomputable def Db.outside (S : Set WorkspaceId) (db : Db) : Db :=
  { db with
    workspace := db.workspace.filter (·.id ∉ S)
    actor := db.actor.filter (·.workspaceId ∉ S)
    session := db.session.filter (·.workspaceId ∉ S)
    message := db.message.filter (·.workspaceId ∉ S)
    tool := db.tool.filter (·.workspaceId ∉ S)
    toolCall := db.toolCall.filter (·.workspaceId ∉ S)
    approvalRequest := db.approvalRequest.filter (·.workspaceId ∉ S)
    memoryCandidate := db.memoryCandidate.filter (·.workspaceId ∉ S)
    memory := db.memory.filter (·.workspaceId ∉ S)
    agentEvent := db.agentEvent.filter (·.event.workspaceId ∉ S)
    commandRecord := db.commandRecord.filter (·.workspaceId ∉ S)
    idempotencyRecord := db.idempotencyRecord.filter (·.workspaceId ∉ S)
    effect := db.effect.filter (·.workspaceId ∉ S)
    worker := db.worker.filter (·.workspaceId ∉ S) }

variable {S : Set WorkspaceId} {ws : WorkspaceId} {db : Db}

theorem outside_singleton : db.outside {ws} = db.elsewhere ws := by
  simp only [Db.outside, Db.elsewhere, Set.mem_singleton_iff]

/-- Outside of a set is elsewhere than in each of its workspaces. -/
theorem outside_elsewhere (h : ws ∈ S) : (db.elsewhere ws).outside S = db.outside S := by
  have hne : ∀ {x : WorkspaceId}, x ∉ S → x ≠ ws := fun hx heq => hx (heq ▸ h)
  simp only [Db.outside, Db.elsewhere]
  congr 1 <;>
    exact Table.filter_filter_of_imp fun x hx => by simpa using hne (by simpa using hx)

theorem outside_updateToolCall {id : ToolCallId} {f : ToolCall → ToolCall}
    {hf : ∀ tc, (f tc).id = tc.id} (hws : ∀ tc, (f tc).workspaceId = tc.workspaceId) :
    (db.updateToolCall id f hf).outside S = (db.outside S).updateToolCall id f hf := by
  simp only [Db.outside, Db.updateToolCall]
  rw [Table.filter_update fun tc => by rw [hws]]

theorem outside_updateMemoryCandidate {id : MemoryCandidateId}
    {f : MemoryCandidate → MemoryCandidate} {hf : ∀ mc, (f mc).id = mc.id}
    (hws : ∀ mc, (f mc).workspaceId = mc.workspaceId) :
    (db.updateMemoryCandidate id f hf).outside S = (db.outside S).updateMemoryCandidate id f hf := by
  simp only [Db.outside, Db.updateMemoryCandidate]
  rw [Table.filter_update fun mc => by rw [hws]]

theorem outside_decidePending {id : ToolCallId} {f : ApprovalRequest → ApprovalRequest}
    {hf : ∀ ar, (f ar).id = ar.id} (hws : ∀ ar, (f ar).workspaceId = ar.workspaceId) :
    (db.decidePending id f hf).outside S = (db.outside S).decidePending id f hf := by
  simp only [Db.outside, Db.decidePending]
  rw [Table.filter_update fun ar => by rw [hws]]

theorem mem_outside_toolCall {tc : ToolCall} :
    tc ∈ (db.outside S).toolCall ↔ tc ∈ db.toolCall ∧ tc.workspaceId ∉ S := by
  simp [Db.outside, Table.mem_filter]

theorem mem_outside_approvalRequest {ar : ApprovalRequest} :
    ar ∈ (db.outside S).approvalRequest ↔ ar ∈ db.approvalRequest ∧ ar.workspaceId ∉ S := by
  simp [Db.outside, Table.mem_filter]

theorem mem_outside_memoryCandidate {mc : MemoryCandidate} :
    mc ∈ (db.outside S).memoryCandidate ↔ mc ∈ db.memoryCandidate ∧ mc.workspaceId ∉ S := by
  simp [Db.outside, Table.mem_filter]

/-! ### What is asked of the updates -/

/-- The storage does not execute the statement. -/
def Refused (E : Env) (w : World) (s : Sql) : Prop :=
  E.fault w.statements = true ∨ (s.exec w.db).isOk = false

instance (E : Env) (w : World) (s : Sql) : Decidable (Refused E w s) := by
  unfold Refused
  infer_instance

/-- Each update the storage executes finds no row of another workspace, or finds it as the update would leave it: the call's request decided, the call or the candidate in the state it is to be put in. -/
def OwnRows (E : Env) (ws : WorkspaceId) (w : World) (o : Op) : Prop :=
  let other := w.db.elsewhere ws
  match o with
  | .sql (.approveApprovalRequest id actor scope now) =>
    Refused E w (.approveApprovalRequest id actor scope now) ∨
      ∀ ar ∈ other.approvalRequest.rows, ar.pendingFor id = false
  | .sql (.denyApprovalRequest id actor reason now) =>
    Refused E w (.denyApprovalRequest id actor reason now) ∨
      ∀ ar ∈ other.approvalRequest.rows, ar.pendingFor id = false
  | .sql (.approveToolCall id) =>
    E.fault w.statements = true ∨ ∀ tc ∈ other.toolCall.rows, tc.id = id → tc.status = .approved
  | .sql (.denyToolCall id) =>
    E.fault w.statements = true ∨ ∀ tc ∈ other.toolCall.rows, tc.id = id → tc.status = .denied
  | .sql (.completeToolCall id canon hash now) =>
    E.fault w.statements = true ∨
      ∀ tc ∈ other.toolCall.rows, tc.id = id → tc.complete canon hash now = tc
  | .sql (.approveMemoryCandidate id) =>
    E.fault w.statements = true ∨
      ∀ mc ∈ other.memoryCandidate.rows, mc.id = id → mc.status = .approved
  | .sql (.rejectMemoryCandidate id reason) =>
    E.fault w.statements = true ∨
      ∀ mc ∈ other.memoryCandidate.rows, mc.id = id →
        mc.status = .rejected ∧ mc.reviewReason = some reason
  | _ => True

/-- Each update the storage executes selects rows of the workspaces in `S` only, or rows as the update would leave them. -/
def OwnRowsOf (E : Env) (S : Set WorkspaceId) (w : World) (o : Op) : Prop :=
  match o with
  | .sql (.approveApprovalRequest id actor scope now) =>
    Refused E w (.approveApprovalRequest id actor scope now) ∨
      ∀ ar ∈ w.db.approvalRequest, ar.pendingFor id = true → ar.workspaceId ∈ S
  | .sql (.denyApprovalRequest id actor reason now) =>
    Refused E w (.denyApprovalRequest id actor reason now) ∨
      ∀ ar ∈ w.db.approvalRequest, ar.pendingFor id = true → ar.workspaceId ∈ S
  | .sql (.approveToolCall id) =>
    E.fault w.statements = true ∨
      ∀ tc ∈ w.db.toolCall, tc.id = id → tc.workspaceId ∈ S ∨ tc.status = .approved
  | .sql (.denyToolCall id) =>
    E.fault w.statements = true ∨
      ∀ tc ∈ w.db.toolCall, tc.id = id → tc.workspaceId ∈ S ∨ tc.status = .denied
  | .sql (.completeToolCall id canon hash now) =>
    E.fault w.statements = true ∨
      ∀ tc ∈ w.db.toolCall, tc.id = id → tc.workspaceId ∈ S ∨ tc.complete canon hash now = tc
  | .sql (.approveMemoryCandidate id) =>
    E.fault w.statements = true ∨
      ∀ mc ∈ w.db.memoryCandidate, mc.id = id → mc.workspaceId ∈ S ∨ mc.status = .approved
  | .sql (.rejectMemoryCandidate id reason) =>
    E.fault w.statements = true ∨
      ∀ mc ∈ w.db.memoryCandidate, mc.id = id →
        mc.workspaceId ∈ S ∨ (mc.status = .rejected ∧ mc.reviewReason = some reason)
  | _ => True

/-- The part of the world that belongs to other workspaces. -/
abbrev elsewhereIn (ws : WorkspaceId) (w : World) : Db := w.db.elsewhere ws

/-- The part of the world that belongs to no workspace in `S`. -/
noncomputable abbrev outsideIn (S : Set WorkspaceId) (w : World) : Db := w.db.outside S

/-- An action that leaves the other workspaces alone. -/
abbrev Inside {α : Type} (E : Env) (ws : WorkspaceId) (p : Action α) : Prop :=
  Blind (handle E) (elsewhereIn ws) (OwnRows E ws) Anywhere p

/-- An action that leaves them alone exactly when its updates do. -/
abbrev Isolated {α : Type} (E : Env) (ws : WorkspaceId) (p : Action α) : Prop :=
  Exact (handle E) (elsewhereIn ws) (OwnRows E ws) p

/-- The same, for the workspaces outside of `S`. -/
abbrev Confined {α : Type} (E : Env) (S : Set WorkspaceId) (p : Action α) : Prop :=
  Exact (handle E) (outsideIn S) (OwnRowsOf E S) p

/-! ### The statements -/

variable {E : Env} {w : World}

theorem mem_elsewhere_toolCall {tc : ToolCall} :
    tc ∈ (db.elsewhere ws).toolCall.rows ↔ tc ∈ db.toolCall ∧ tc.workspaceId ≠ ws := by
  rw [← outside_singleton]
  exact mem_outside_toolCall

theorem mem_elsewhere_approvalRequest {ar : ApprovalRequest} :
    ar ∈ (db.elsewhere ws).approvalRequest.rows ↔ ar ∈ db.approvalRequest ∧ ar.workspaceId ≠ ws := by
  rw [← outside_singleton]
  exact mem_outside_approvalRequest

theorem mem_elsewhere_memoryCandidate {mc : MemoryCandidate} :
    mc ∈ (db.elsewhere ws).memoryCandidate.rows ↔ mc ∈ db.memoryCandidate ∧ mc.workspaceId ≠ ws := by
  rw [← outside_singleton]
  exact mem_outside_memoryCandidate

/-- The rows of a selection that are elsewhere. -/
theorem elsewhere_congr {Row : Type*} {mem : Row → Prop} {rowWs : Row → WorkspaceId} {sel same : Row → Prop} :
    (∀ r, mem r → sel r → rowWs r = ws ∨ same r) ↔ ∀ r, mem r ∧ rowWs r ≠ ws → sel r → same r := by
  refine forall_congr' fun r => ?_
  tauto

theorem ownRowsOf_singleton (o : Op) : OwnRowsOf E {ws} w o ↔ OwnRows E ws w o := by
  cases o with
  | sql s =>
    cases s with
    | approveApprovalRequest | denyApprovalRequest =>
      simp only [OwnRowsOf, OwnRows, mem_elsewhere_approvalRequest, Set.mem_singleton_iff]
      refine or_congr_right (forall_congr' fun ar => ?_)
      cases ar.pendingFor _ <;> simp
    | approveToolCall | denyToolCall | completeToolCall =>
      simp only [OwnRowsOf, OwnRows, mem_elsewhere_toolCall, Set.mem_singleton_iff]
      exact or_congr_right elsewhere_congr
    | approveMemoryCandidate | rejectMemoryCandidate =>
      simp only [OwnRowsOf, OwnRows, mem_elsewhere_memoryCandidate, Set.mem_singleton_iff]
      exact or_congr_right elsewhere_congr
    | _ => exact Iff.rfl
  | _ => exact Iff.rfl

/-- Fewer rows are outside of a larger set. -/
theorem ownRowsOf_mono {T : Set WorkspaceId} (hsub : S ⊆ T) {o : Op} (h : OwnRowsOf E S w o) : OwnRowsOf E T w o := by
  cases o with
  | sql s =>
    cases s with
    | approveApprovalRequest | denyApprovalRequest =>
      exact h.imp_right fun h ar har hpending => hsub (h ar har hpending)
    | approveToolCall | denyToolCall | completeToolCall =>
      exact h.imp_right fun h tc htc hid => (h tc htc hid).imp_left fun hws => hsub hws
    | approveMemoryCandidate | rejectMemoryCandidate =>
      exact h.imp_right fun h mc hmc hid => (h mc hmc hid).imp_left fun hws => hsub hws
    | _ => trivial
  | _ => trivial

theorem ownRowsOf_of_mem (hws : ws ∈ S) {o : Op} (h : OwnRows E ws w o) : OwnRowsOf E S w o :=
  ownRowsOf_mono (Set.singleton_subset_iff.mpr hws) ((ownRowsOf_singleton o).mpr h)

/-- A statement that updates nothing and inserts into the workspace `ws` only. -/
def Sql.InsertsInto (ws : WorkspaceId) : Sql → Prop
  | .insertWorkspace x => x.id = ws
  | .insertActor a => a.workspaceId = ws
  | .insertSession s => s.workspaceId = ws
  | .insertMessage m => m.workspaceId = ws
  | .insertTool t => t.workspaceId = ws
  | .insertToolCall tc => tc.workspaceId = ws
  | .insertApprovalRequest ar => ar.workspaceId = ws
  | .insertMemoryCandidate mc => mc.workspaceId = ws
  | .insertMemory m => m.workspaceId = ws
  | .appendEvent e => e.workspaceId = ws
  | .insertCommand c => c.workspaceId = ws
  | .idempotencyRecord r => r.workspaceId = ws
  | s => s.writes = none

theorem elsewhere_insert {s : Sql} (hs : s.InsertsInto ws) {reply : s.Reply} {db' : Db}
    (hexec : s.exec db = .ok (reply, db')) : db'.elsewhere ws = db.elsewhere ws := by
  cases s with
  | insertWorkspace | insertActor | insertSession | insertMessage | insertToolCall
  | insertApprovalRequest | insertMemoryCandidate | insertMemory | insertCommand =>
    obtain ⟨t, ht, heq⟩ := map_eq_ok.mp hexec
    cases heq
    simp only [Sql.InsertsInto] at hs
    simp only [Db.elsewhere]
    rw [Table.filter_insert? (insertRow_eq_ok.mp ht).2]
    simp [hs]
  | insertTool t =>
    simp only [Sql.exec] at hexec
    split at hexec
    · cases hexec
    · obtain ⟨u, hu, heq⟩ := map_eq_ok.mp hexec
      cases heq
      simp only [Sql.InsertsInto] at hs
      simp only [Db.elsewhere]
      rw [Table.filter_insert? (insertRow_eq_ok.mp hu).2]
      simp [hs]
  | appendEvent e =>
    obtain ⟨t, ht, heq⟩ := map_eq_ok.mp hexec
    cases heq
    obtain ⟨-, t, hins, rfl⟩ := Db.insertEvent_eq_ok.mp ht
    simp only [Sql.InsertsInto] at hs
    simp only [Db.elsewhere]
    rw [Table.filter_insert? hins]
    simp [hs]
  | idempotencyRecord r =>
    simp only [Sql.exec] at hexec
    split at hexec
    · cases hexec
      rfl
    · obtain ⟨t, ht, heq⟩ := map_eq_ok.mp hexec
      cases heq
      simp only [Sql.InsertsInto] at hs
      simp only [Db.elsewhere]
      rw [Table.filter_insert? (insertRow_eq_ok.mp ht).2]
      simp [hs]
  | getWorkspace | getActor | sessionExists | selectTool | sessionForToolCall | memoryCandidate
  | lastEventHash | idempotencyLookup | oldestPending | expiredClaims =>
    simp only [Sql.exec, Except.ok.injEq, Prod.mk.injEq] at hexec
    rw [← hexec.2]
  | _ => cases hs

/-- An operation that touches no other workspace, whatever the storage says. -/
theorem elsewhere_handle {s : Sql} (hs : s.InsertsInto ws) :
    elsewhereIn ws (handle E (.sql s) w).2 = elsewhereIn ws w := by
  rcases handle_sql E s w with ⟨-, hsame, -⟩ | ⟨reply, db', -, hexec, -, hdb⟩
  · rw [elsewhereIn, hsame]
  · rw [elsewhereIn, hdb, elsewhere_insert hs hexec]

section Blind

variable {P : Db → Prop}

/-- An insertion that keeps what is known of the database. -/
theorem blind_execute {s : Sql} (hs : s.InsertsInto ws)
    (hkeeps : ∀ w : World, P w.db → P (handle E (.sql s) w).2.db) :
    Blind (handle E) (elsewhereIn ws) (OwnRows E ws) (fun w => P w.db) (execute s) := by
  refine blind_performOr fun w hw => ⟨elsewhere_handle hs, ?_, hkeeps w hw⟩
  cases s <;> first | exact trivial | cases hs

theorem blind_now : Blind (handle E) (elsewhereIn ws) (OwnRows E ws) (fun w => P w.db) nowRfc3339 :=
  Blind.bind (blind_perform fun _ hw => ⟨rfl, trivial, hw⟩) fun _ => blind_done _

theorem blind_freshId (tag : String) :
    Blind (handle E) (elsewhereIn ws) (OwnRows E ws) (fun w => P w.db) (freshId tag) :=
  Blind.bind (blind_perform fun _ hw => ⟨rfl, trivial, hw⟩) fun _ => blind_done _

end Blind

theorem inside_execute {s : Sql} (hs : s.InsertsInto ws) : Inside E ws (execute s) :=
  blind_execute (P := fun _ => True) hs fun _ _ => trivial

theorem inside_now : Inside E ws nowRfc3339 := blind_now (P := fun _ => True)

theorem inside_freshId (tag : String) : Inside E ws (freshId tag) :=
  blind_freshId (P := fun _ => True) tag

theorem inside_requiredStr (input : Value) (key : String) : Inside E ws (requiredStr input key) := by
  unfold requiredStr
  split
  · exact blind_done _
  · exact blind_done _

section Confined

variable {α β : Type} {p : Action α} {f : α → Action β}

/-- What leaves all workspaces but one alone leaves alone what lies outside of a set with that one. -/
theorem Inside.within (hp : Inside E ws p) (hws : ws ∈ S) :
    Blind (handle E) (outsideIn S) (OwnRowsOf E S) Anywhere p := by
  refine hp.mono (fun w w' hview => ?_) fun w o howned => ownRowsOf_of_mem hws howned
  have helsewhere : w'.db.elsewhere ws = w.db.elsewhere ws := hview
  rw [outsideIn, ← outside_elsewhere hws, helsewhere, outside_elsewhere hws]

theorem Inside.bind_confined (hp : Inside E ws p) (hws : ws ∈ S) (hf : ∀ a, Confined E S (f a)) :
    Confined E S (p >>= f) :=
  (hp.within hws).bind_exact hf

theorem Confined.bind_inside (hp : Confined E S p) (hws : ws ∈ S) (hf : ∀ a, Inside E ws (f a)) :
    Confined E S (p >>= f) :=
  hp.bind_blind fun a => (hf a).within hws

/-- Outside of one workspace is elsewhere than in it. -/
theorem Confined.isolated (hp : Confined E {ws} p) : Isolated E ws p := by
  have hview : outsideIn {ws} = elsewhereIn ws := funext fun w => outside_singleton
  have howned : OwnRowsOf E {ws} = OwnRows E ws := by
    ext w o
    exact ownRowsOf_singleton o
  rwa [Confined, hview, howned] at hp

end Confined

/-- An update that the storage executes whenever it does not fail. -/
theorem confined_update {s : Sql} {f : Db → Db} (hexec : ∀ w : World,
    E.fault w.statements = false → (handle E (.sql s) w).2.db = f w.db)
    (hown : ∀ w : World, OwnRowsOf E S w (.sql s) ↔
      E.fault w.statements = true ∨ (f w.db).outside S = w.db.outside S) :
    Confined E S (execute s) := by
  refine exact_performOr fun w => ?_
  rw [hown w]
  cases hfault : E.fault w.statements with
  | true =>
    have hsame : (handle E (.sql s) w).2.db = w.db := by
      simp only [handle, hfault, if_true]
    simp [outsideIn, hsame]
  | false =>
    rw [outsideIn, hexec w hfault]
    simp [outsideIn]

/-- A decision on the pending requests of a call, which the storage may refuse for the deciding actor. -/
theorem confined_decide {s : Sql} {id : ToolCallId} {f : ApprovalRequest → ApprovalRequest}
    {hf : ∀ ar, (f ar).id = ar.id}
    (hexec : ∀ (db db' : Db) (reply : s.Reply), s.exec db = .ok (reply, db') →
      db' = db.decidePending id f hf)
    (hws : ∀ ar, (f ar).workspaceId = ar.workspaceId) (hstatus : ∀ ar, (f ar).status ≠ .pending)
    (hown : ∀ w : World, OwnRowsOf E S w (.sql s) ↔ Refused E w s ∨
      ∀ ar ∈ w.db.approvalRequest, ar.pendingFor id = true → ar.workspaceId ∈ S) :
    Confined E S (execute s) := by
  refine exact_performOr fun w => ?_
  rw [hown w]
  rcases handle_sql E s w with ⟨-, hsame, hrefused⟩ | ⟨reply, db', hfault, hok, -, hdb⟩
  · refine iff_of_true (by rw [outsideIn, hsame]) (Or.inl (hrefused.imp_right ?_))
    intro h
    obtain ⟨err, herr⟩ := h
    rw [herr]
    rfl
  · have hnot : ¬ Refused E w s := by
      rintro (h | h)
      · rw [hfault] at h
        cases h
      · rw [hok] at h
        cases h
    rw [outsideIn, hdb, hexec _ _ _ hok, outside_decidePending hws, Db.decidePending_eq_self,
      or_iff_right hnot]
    refine forall_congr' fun ar => ?_
    rw [mem_outside_approvalRequest]
    -- a row that is pending is not what the decision makes of it
    have hchanges : ar.pendingFor id = true → f ar ≠ ar := by
      intro hpending heq
      simp only [ApprovalRequest.pendingFor, Bool.and_eq_true, decide_eq_true_eq] at hpending
      exact hstatus ar (by rw [heq, hpending.2])
    tauto

/-! ### The updates -/

theorem approveApprovalRequest_exec {id : ToolCallId} {actor : ActorId} {scope now : String}
    (db db' : Db) (reply : Unit)
    (h : (Sql.approveApprovalRequest id actor scope now).exec db = .ok (reply, db')) :
    db' = db.decidePending id (·.approve actor scope now) fun _ => rfl := by
  obtain ⟨_, hdecide, heq⟩ := map_eq_ok.mp h
  cases heq
  exact Db.decide_eq_ok hdecide

theorem denyApprovalRequest_exec {id : ToolCallId} {actor : ActorId} {reason now : String}
    (db db' : Db) (reply : Unit)
    (h : (Sql.denyApprovalRequest id actor reason now).exec db = .ok (reply, db')) :
    db' = db.decidePending id (·.deny actor reason now) fun _ => rfl := by
  obtain ⟨_, hdecide, heq⟩ := map_eq_ok.mp h
  cases heq
  exact Db.decide_eq_ok hdecide

theorem confined_approveApprovalRequest (id : ToolCallId) (actor : ActorId) (scope now : String) :
    Confined E S (execute (.approveApprovalRequest id actor scope now)) :=
  confined_decide approveApprovalRequest_exec (fun _ => rfl)
    (fun _ => by simp [ApprovalRequest.approve]) fun _ => Iff.rfl

theorem confined_denyApprovalRequest (id : ToolCallId) (actor : ActorId) (reason now : String) :
    Confined E S (execute (.denyApprovalRequest id actor reason now)) :=
  confined_decide denyApprovalRequest_exec (fun _ => rfl)
    (fun _ => by simp [ApprovalRequest.deny]) fun _ => Iff.rfl

/-- An update of the call with this id. -/
theorem confined_updateToolCall {s : Sql} (id : ToolCallId) (f : ToolCall → ToolCall)
    (hf : ∀ tc, (f tc).id = tc.id) (hws : ∀ tc, (f tc).workspaceId = tc.workspaceId)
    (hexec : ∀ w : World, E.fault w.statements = false →
      (handle E (.sql s) w).2.db = w.db.updateToolCall id f hf)
    (hown : ∀ w : World, OwnRowsOf E S w (.sql s) ↔ E.fault w.statements = true ∨
      ∀ tc ∈ w.db.toolCall, tc.id = id → tc.workspaceId ∈ S ∨ f tc = tc) :
    Confined E S (execute s) := by
  refine confined_update (f := fun db => db.updateToolCall id f hf) hexec fun w => ?_
  rw [hown w, outside_updateToolCall hws, Db.updateToolCall_eq_self]
  refine or_congr_right (forall_congr' fun tc => ?_)
  rw [mem_outside_toolCall]
  tauto

/-- An update of the candidate with this id. -/
theorem confined_updateMemoryCandidate {s : Sql} (id : MemoryCandidateId)
    (f : MemoryCandidate → MemoryCandidate) (hf : ∀ mc, (f mc).id = mc.id)
    (hws : ∀ mc, (f mc).workspaceId = mc.workspaceId)
    (hexec : ∀ w : World, E.fault w.statements = false →
      (handle E (.sql s) w).2.db = w.db.updateMemoryCandidate id f hf)
    (hown : ∀ w : World, OwnRowsOf E S w (.sql s) ↔ E.fault w.statements = true ∨
      ∀ mc ∈ w.db.memoryCandidate, mc.id = id → mc.workspaceId ∈ S ∨ f mc = mc) :
    Confined E S (execute s) := by
  refine confined_update (f := fun db => db.updateMemoryCandidate id f hf) hexec fun w => ?_
  rw [hown w, outside_updateMemoryCandidate hws, Db.updateMemoryCandidate_eq_self]
  refine or_congr_right (forall_congr' fun mc => ?_)
  rw [mem_outside_memoryCandidate]
  tauto

theorem setStatus_eq_self {tc : ToolCall} {status : ToolCallStatus} :
    { tc with status := status } = tc ↔ tc.status = status := by
  cases tc
  simp [eq_comm]

theorem confined_approveToolCall (id : ToolCallId) :
    Confined E S (execute (.approveToolCall id)) := by
  refine confined_updateToolCall id (fun tc => { tc with status := .approved }) (fun _ => rfl)
    (fun _ => rfl) (fun w hfault => ?_) fun w => ?_
  · simp [handle, hfault, Sql.exec]
  · simp only [OwnRowsOf, setStatus_eq_self]

theorem confined_denyToolCall (id : ToolCallId) : Confined E S (execute (.denyToolCall id)) := by
  refine confined_updateToolCall id (fun tc => { tc with status := .denied }) (fun _ => rfl)
    (fun _ => rfl) (fun w hfault => ?_) fun w => ?_
  · simp [handle, hfault, Sql.exec]
  · simp only [OwnRowsOf, setStatus_eq_self]

theorem confined_completeToolCall (id : ToolCallId) (canon hash now : String) :
    Confined E S (execute (.completeToolCall id canon hash now)) := by
  refine confined_updateToolCall id (·.complete canon hash now) (fun _ => rfl) (fun _ => rfl)
    (fun w hfault => ?_) fun w => Iff.rfl
  simp [handle, hfault, Sql.exec]

theorem confined_approveMemoryCandidate (id : MemoryCandidateId) :
    Confined E S (execute (.approveMemoryCandidate id)) := by
  refine confined_updateMemoryCandidate id (fun mc => { mc with status := .approved })
    (fun _ => rfl) (fun _ => rfl) (fun w hfault => ?_) fun w => ?_
  · simp [handle, hfault, Sql.exec]
  · have hself : ∀ mc : MemoryCandidate,
        { mc with status := .approved } = mc ↔ mc.status = .approved := by
      intro mc
      cases mc
      simp [eq_comm]
    simp only [OwnRowsOf, hself]

theorem confined_rejectMemoryCandidate (id : MemoryCandidateId) (reason : String) :
    Confined E S (execute (.rejectMemoryCandidate id reason)) := by
  refine confined_updateMemoryCandidate id
    (fun mc => { mc with status := .rejected, reviewReason := some reason }) (fun _ => rfl)
    (fun _ => rfl) (fun w hfault => ?_) fun w => ?_
  · simp [handle, hfault, Sql.exec]
  · have hself : ∀ mc : MemoryCandidate,
        { mc with status := .rejected, reviewReason := some reason } = mc ↔
          mc.status = .rejected ∧ mc.reviewReason = some reason := by
      intro mc
      cases mc
      simp [eq_comm]
    simp only [OwnRowsOf, hself]

/-! ### The blocks -/

open Classical in
theorem outside_lasting {db' : Db} {id : ToolCallId} {f : ApprovalRequest → ApprovalRequest}
    {hf : ∀ ar, (f ar).id = ar.id}
    (hsame : db'.approvalRequest = (db.decidePending id f hf).approvalRequest)
    (h : db'.outside S = db.outside S) :
    (db.decidePending id f hf).outside S = db.outside S := by
  have hfilter : (db.decidePending id f hf).approvalRequest.filter (·.workspaceId ∉ S) =
      (db.outside S).approvalRequest := by
    rw [← hsame, ← h]
    rfl
  show { db.outside S with
    approvalRequest := (db.decidePending id f hf).approvalRequest.filter (·.workspaceId ∉ S) } = _
  rw [hfilter]

/-- The decision on the requests and the update of the call change different tables, so neither makes good for the other. -/
theorem confined_decision {s s' : Sql} {id : ToolCallId} {f : ApprovalRequest → ApprovalRequest}
    {hf : ∀ ar, (f ar).id = ar.id}
    (hexec : ∀ (db db' : Db) (reply : s.Reply), s.exec db = .ok (reply, db') →
      db' = db.decidePending id f hf)
    (hs : Confined E S (execute s)) (hs' : Confined E S (execute s'))
    (hwrites : s'.writes = some .toolCall) : Confined E S (execute s >>= fun _ => execute s') := by
  refine hs.bind (fun _ => hs') fun w a w' hrun hview => ?_
  rw [execute, run_performOr] at hrun hview
  have hworld : w' = (handle E (.sql s) w).2 := (congrArg Prod.snd hrun).symm
  subst hworld
  rcases handle_sql E s w with ⟨-, hsame, -⟩ | ⟨reply, db', -, hok, -, hdb⟩
  · rw [outsideIn, hsame]
  · have hdecided : (handle E (.sql s) w).2.db = w.db.decidePending id f hf :=
      hdb.trans (hexec _ _ _ hok)
    have hframe := handle_frame E (.sql s') (handle E (.sql s) w).2
    have hkept := hframe.approvalRequest (by simp [Op.writes, hwrites])
    rw [hdecided] at hkept
    rw [outsideIn, hdecided]
    exact outside_lasting hkept hview

theorem confined_approvePendingToolCall (hws : ws ∈ S) (id : ToolCallId) (actor : ActorId) (scope : String) :
    Confined E S (approvePendingToolCall id actor scope) :=
  inside_now.bind_confined hws fun now =>
    confined_decision approveApprovalRequest_exec
      (confined_approveApprovalRequest id actor scope now) (confined_approveToolCall id) rfl

theorem confined_denyPendingToolCall (hws : ws ∈ S) (id : ToolCallId) (actor : ActorId) (reason : String) :
    Confined E S (denyPendingToolCall id actor reason) :=
  inside_now.bind_confined hws fun now =>
    confined_decision denyApprovalRequest_exec
      (confined_denyApprovalRequest id actor reason now) (confined_denyToolCall id) rfl

/-- The call with this id, if there is one, belongs to the workspace. -/
def OwnCall (ws : WorkspaceId) (id : ToolCallId) (db : Db) : Prop :=
  ∀ tc ∈ db.toolCall, tc.id = id → tc.workspaceId = ws

theorem ownCall_handle {id : ToolCallId} {o : Op} (ho : o.writes ≠ some .toolCall)
    (h : OwnCall ws id w.db) : OwnCall ws id (handle E o w).2.db := by
  rw [OwnCall, (handle_frame E o w).toolCall ho]
  exact h

/-- Linking the request to a call of the workspace. -/
theorem blind_setToolCallApprovalRequest (toolCallId : ToolCallId) (id : ApprovalRequestId) :
    Blind (handle E) (elsewhereIn ws) (OwnRows E ws) (fun w => OwnCall ws toolCallId w.db)
      (execute (.setToolCallApprovalRequest toolCallId id)) := by
  refine blind_performOr fun w hw => ?_
  rcases handle_sql E (.setToolCallApprovalRequest toolCallId id) w with
    ⟨-, hsame, -⟩ | ⟨reply, db', -, hexec, -, hdb⟩
  · rw [elsewhereIn, hsame]
    exact ⟨rfl, trivial, hw⟩
  · cases hexec
    rw [elsewhereIn, hdb]
    refine ⟨?_, trivial, fun tc' htc' hid' => ?_⟩
    · rw [elsewhereIn, ← outside_singleton, ← outside_singleton]
      refine (outside_updateToolCall (f := fun tc => { tc with approvalRequestId := some id })
        fun _ => rfl).trans (Db.updateToolCall_eq_self.mpr fun tc htc hid => ?_)
      -- no row of another workspace has the id of the call
      obtain ⟨hmem, hother⟩ := mem_outside_toolCall.mp htc
      exact absurd (hw tc hmem hid) hother
    · rcases Db.mem_updateToolCall htc' with ⟨tc, htc, ⟨hid, rfl⟩ | ⟨hid, rfl⟩⟩
      · exact hw tc htc hid
      · exact absurd hid' hid

theorem inside_fileToolCall (actor : ActorId) (toolCallId : ToolCallId) (sessionId : SessionId)
    (toolId : ToolId) (toolName canon hash : String) (risk : RiskLevel) (status : ToolCallStatus)
    (v : Verdict) :
    Inside E ws
      (fileToolCall ws actor toolCallId sessionId toolId toolName canon hash risk status v) := by
  refine inside_now.bind fun now => ?_
  refine Blind.bind_of (fun w => OwnCall ws toolCallId w.db) (inside_execute (by rfl))
    (fun w a w' _ hrun => ?_) (fun _ => ?_) fun _ _ => trivial
  · -- the call that was inserted is the one with the id
    rw [execute, run_performOr] at hrun
    rcases handle_sql E (.insertToolCall _) w with ⟨⟨err, herr⟩, -, -⟩ | ⟨_, db', -, hexec, -, hdb⟩
    · rw [herr] at hrun
      cases hrun
    · obtain ⟨t, ht, heq⟩ := map_eq_ok.mp hexec
      have hworld : w'.db = db' := (congrArg (·.2.db) hrun).symm.trans hdb
      cases heq
      rw [hworld]
      intro tc htc hid
      have hmem := (Table.mem_insert? (insertRow_eq_ok.mp ht).2).mpr (Or.inr rfl)
      rw [Table.eq_of_key_eq htc hmem hid]
  · cases v with
    | requireApproval =>
      refine (blind_freshId "appr").bind fun arId => blind_now.bind fun now => ?_
      refine Blind.bind (blind_execute (by rfl) fun w => ownCall_handle (by simp [Op.writes, Sql.writes]))
        fun _ => ?_
      exact blind_setToolCallApprovalRequest _ _
    | allow | constrain | block | halt => exact blind_done _

/-! ### The commands -/

variable {X : Crates}

theorem inside_appendChronicle (actor : ActorId) (session : Option SessionId) (eventType : String)
    (causalityKind : CausalityKind) (sensitivity : Sensitivity) (payload : Value)
    (backrefs : EventBackrefs) :
    Inside E ws
      (appendChronicle X ws actor session eventType causalityKind sensitivity payload backrefs) := by
  refine (inside_execute (by rfl)).bind fun prev => (inside_freshId _).bind fun id => ?_
  refine inside_now.bind fun createdAt => (inside_execute (by rfl)).bind fun _ => blind_done _

theorem inside_ensureActor (id : ActorId) (kind : ActorKind) :
    Inside E ws (ensureActor ws id kind) := by
  apply (inside_execute (by rfl)).bind
  intro found
  cases found with
  | some a => exact blind_done _
  | none => exact inside_now.bind fun now => inside_execute (by rfl)

theorem inside_register (c : Call) : Inside E c.workspaceId (register c) := by
  refine Blind.bind ?_ fun _ => inside_ensureActor _ _
  apply (inside_execute (by rfl)).bind
  intro found
  cases found with
  | some x => exact blind_done _
  | none => exact inside_now.bind fun now => inside_execute (by rfl)

variable (actor : ActorId) (cmd : CommandRecord) (input : Value)

theorem inside_createSession : Inside E ws (createSession X ws actor cmd input) := by
  have hagent : ∀ agent, Inside E ws (ensureAgent ws agent) := by
    intro agent
    cases agent with
    | none => exact blind_done _
    | some id => exact inside_ensureActor id .agent
  have hsession : Inside E ws (sessionIdOf input) := by
    unfold sessionIdOf
    split
    · exact blind_done _
    · exact inside_freshId _
  refine (hagent _).bind fun _ => hsession.bind fun sessionId => ?_
  apply (inside_execute (by rfl)).bind
  intro found
  cases found with
  | true => exact blind_done _
  | false =>
    refine inside_now.bind fun now => (inside_execute (by rfl)).bind fun _ => ?_
    exact (inside_appendChronicle ..).bind fun eventId => blind_done _

theorem inside_appendMessage (role eventType : String) :
    Inside E ws (appendMessage X ws actor cmd input role eventType) := by
  refine (inside_requiredStr input _).bind fun sessionId => ?_
  refine (inside_requiredStr input _).bind fun text => (inside_freshId _).bind fun msgId => ?_
  refine inside_now.bind fun now => (inside_execute (by rfl)).bind fun _ => ?_
  exact (inside_appendChronicle ..).bind fun eventId => blind_done _

theorem inside_upsertTool (name : String) : Inside E ws (upsertTool ws name) := by
  apply (inside_execute (by rfl)).bind
  intro found
  cases found with
  | some id => exact blind_done _
  | none =>
    refine (inside_freshId _).bind fun id => inside_now.bind fun now => ?_
    exact (inside_execute (by rfl)).bind fun _ => blind_done _

theorem inside_requestToolCall (policy : PolicyDoc) :
    Inside E ws (requestToolCall X policy ws actor cmd input) := by
  refine (inside_requiredStr input _).bind fun sessionId => ?_
  refine (inside_requiredStr input _).bind fun toolName => ?_
  refine (inside_upsertTool toolName).bind fun toolId => (inside_freshId _).bind fun toolCallId => ?_
  refine (blind_done _).bind fun status => (inside_fileToolCall ..).bind fun _ => ?_
  exact (inside_appendChronicle ..).bind fun eventId => blind_done _

theorem inside_proposeMemory : Inside E ws (proposeMemory X ws actor cmd input) := by
  refine (inside_requiredStr input _).bind fun text => (inside_freshId _).bind fun mcId => ?_
  refine inside_now.bind fun now => (inside_execute (by rfl)).bind fun _ => ?_
  exact (inside_appendChronicle ..).bind fun eventId => blind_done _

section Updating

variable (hws : ws ∈ S)

include hws

theorem confined_approveToolCallCommand :
    Confined E S (approveToolCall X ws actor cmd input) := by
  refine (inside_requiredStr input _).bind_confined hws fun toolCallId => ?_
  refine (inside_execute (by rfl)).bind_confined hws fun sessionId => ?_
  refine (confined_approvePendingToolCall hws ..).bind_inside hws fun _ => ?_
  exact (inside_appendChronicle ..).bind fun eventId => blind_done _

theorem confined_denyToolCallCommand : Confined E S (denyToolCall X ws actor cmd input) := by
  refine (inside_requiredStr input _).bind_confined hws fun toolCallId => ?_
  refine (inside_execute (by rfl)).bind_confined hws fun sessionId => ?_
  refine (confined_denyPendingToolCall hws ..).bind_inside hws fun _ => ?_
  exact (inside_appendChronicle ..).bind fun eventId => blind_done _

theorem confined_recordToolResult : Confined E S (recordToolResult X ws actor cmd input) := by
  refine (inside_requiredStr input _).bind_confined hws fun toolCallId => ?_
  refine (inside_execute (by rfl)).bind_confined hws fun sessionId => ?_
  refine Confined.bind_inside (inside_now.bind_confined hws fun now => confined_completeToolCall ..) hws fun _ => ?_
  exact (inside_appendChronicle ..).bind fun eventId => blind_done _

theorem confined_approveMemory : Confined E S (approveMemory X ws actor cmd input) := by
  refine (inside_requiredStr input _).bind_confined hws fun mcId => ?_
  apply (inside_execute (by rfl)).bind_confined hws
  intro candidate
  cases candidate with
  | none => exact (blind_done _).exact
  | some candidate =>
    refine (inside_freshId _).bind_confined hws fun memId => inside_now.bind_confined hws fun now => ?_
    refine (inside_execute (by rfl)).bind_confined hws fun _ => ?_
    refine (confined_approveMemoryCandidate mcId).bind_inside hws fun _ => ?_
    exact (inside_appendChronicle ..).bind fun eventId => blind_done _

theorem confined_rejectMemory : Confined E S (rejectMemory X ws actor cmd input) := by
  refine (inside_requiredStr input _).bind_confined hws fun mcId => ?_
  refine (confined_rejectMemoryCandidate mcId _).bind_inside hws fun _ => ?_
  exact (inside_appendChronicle ..).bind fun eventId => blind_done _

end Updating

theorem confined_runCommand (policy : PolicyDoc) (c : Call) (cmd : CommandRecord) (hc : c.workspaceId ∈ S) :
    Confined E S (runCommand X policy c cmd) := by
  unfold runCommand
  split
  · exact ((inside_createSession ..).within hc).exact
  · exact ((inside_appendMessage ..).within hc).exact
  · exact ((inside_appendMessage ..).within hc).exact
  · exact ((inside_requestToolCall ..).within hc).exact
  · exact confined_approveToolCallCommand _ _ _ hc
  · exact confined_denyToolCallCommand _ _ _ hc
  · exact confined_recordToolResult _ _ _ hc
  · exact ((inside_proposeMemory ..).within hc).exact
  · exact confined_approveMemory _ _ _ hc
  · exact confined_rejectMemory _ _ _ hc
  · exact (blind_done _).exact

theorem inside_recordKey (c : Call) (cmd : CommandRecord) :
    Inside E c.workspaceId (recordKey c cmd) := by
  unfold recordKey
  split
  · exact blind_done _
  · exact Blind.ignore (inside_now.bind fun _ => inside_execute (by rfl))

theorem confined_dispatch (policy : PolicyDoc) (c : Call) (hc : c.workspaceId ∈ S) :
    Confined E S (dispatch X policy c) := by
  have hlookup : Inside E c.workspaceId (lookupKey c) := by
    unfold lookupKey
    split
    · exact blind_done _
    · exact inside_execute (by rfl)
  have hreceive : Inside E c.workspaceId (receive X c) :=
    (inside_freshId _).bind fun _ => inside_now.bind fun _ =>
      (inside_execute (by rfl)).bind fun _ => blind_done _
  apply (inside_register c).bind_confined hc
  intro _
  apply hlookup.bind_confined hc
  intro prior
  cases prior with
  | some id => exact (blind_done _).exact
  | none =>
    refine hreceive.bind_confined hc fun cmd => ?_
    refine (confined_runCommand policy c cmd hc).bind_inside hc fun outcome => ?_
    exact (inside_recordKey c cmd).bind fun _ => blind_done _

theorem isolated_dispatch (policy : PolicyDoc) (c : Call) : Isolated E c.workspaceId (dispatch X policy c) :=
  (confined_dispatch policy c (Set.mem_singleton _)).isolated

/-! ### The whole dispatch -/

/-- **Isolation.** A dispatch leaves the rows of every other workspace as they were exactly when its updates do. -/
theorem dispatch_isolated_iff (X : Crates) (policy : PolicyDoc) (E : Env) (w : World) (c : Call) :
    (dispatchIn X policy E w c).db.elsewhere c.workspaceId = w.db.elsewhere c.workspaceId ↔
      (dispatch X policy c).Along (handle E) (OwnRows E c.workspaceId) w :=
  (isolated_dispatch policy c).leaves_iff w

/-- A memory is proposed in one workspace, and another rejects it. -/
def proposed : World :=
  dispatchIn Crates.sample alphaDemoPolicy .wholeSeconds (World.start .empty)
    (Call.sample "propose_memory" [("text", "likes tea")])

def rejectFromOther : Call :=
  { Call.sample "reject_memory" [("memory_candidate_id", "memc_00000000000000000000000001")] with
    workspaceId := "ws_other" }

theorem proposed_rejectFromOther :
    (dispatchIn Crates.sample alphaDemoPolicy .wholeSeconds proposed rejectFromOther).db.elsewhere
      "ws_other" ≠ proposed.db.elsewhere "ws_other" := by
  decide +kernel

end ActantDb
