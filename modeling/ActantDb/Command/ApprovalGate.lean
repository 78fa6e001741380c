import ActantDb.Command.Shape

/-!
# The approval gate

A tool call that needs approval is linked to an approval request, and the statuses of the two rows are meant to agree: the call is approved or completed only if the request is approved, and denied exactly when the request is denied. Four commands write the two tables. Approving and denying update the request only while it is pending, but then update the tool call whatever became of the request, and recording a result looks at neither; so the two rows agree as long as nobody decides a request twice with different outcomes or records the result of a call that was never approved.
-/

namespace ActantDb

open Prog

/-! ### The two rows of one request -/

/-- What the gate is for. -/
def GateHolds (db : Db) : Prop :=
  ∀ tc ∈ db.toolCall.rows, ∀ ar ∈ db.approvalRequest.rows, tc.approvalRequestId = some ar.id →
    (tc.status = .approved ∨ tc.status = .completed → ar.status = .approved) ∧
      (tc.status = .denied ↔ ar.status = .denied) ∧
      (ar.status = .pending ∨ ar.status = .denied → tc.status ≠ .completed)

instance (db : Db) : Decidable (GateHolds db) := by
  unfold GateHolds
  infer_instance

/-- A call and the request it is linked to. While a denial is under way its call is exempt: the request is already denied. -/
structure GatePair (exempt : Option ToolCallId) (tc : ToolCall) (ar : ApprovalRequest) : Prop where
  requestOf : ar.toolCallId = some tc.id
  granted : tc.status = .approved ∨ tc.status = .completed → ar.status = .approved
  denied : tc.status = .denied → ar.status = .denied
  refused : ar.status = .denied → exempt ≠ some tc.id → tc.status = .denied

structure GateInv (exempt : Option ToolCallId) (db : Db) : Prop where
  pair : ∀ tc ∈ db.toolCall, ∀ ar ∈ db.approvalRequest, tc.approvalRequestId = some ar.id →
    GatePair exempt tc ar
  referenced : ∀ tc ∈ db.toolCall, ∀ id, tc.approvalRequestId = some id →
    db.approvalRequest.contains id = true
  status : ∀ ar ∈ db.approvalRequest,
    ar.status = .pending ∨ ar.status = .approved ∨ ar.status = .denied

theorem GateInv.gateHolds {db : Db} (h : GateInv none db) : GateHolds db := by
  intro tc htc ar har hlink
  have hpair := h.pair tc htc ar har hlink
  refine ⟨hpair.granted, ⟨hpair.denied, fun hd => hpair.refused hd (by simp)⟩, ?_⟩
  intro hstatus hcompleted
  rw [hpair.granted (Or.inr hcompleted)] at hstatus
  obtain hstatus | hstatus := hstatus <;> cases hstatus

theorem GateInv.congr {exempt : Option ToolCallId} {a b : Db} (h : GateInv exempt a)
    (htc : b.toolCall = a.toolCall) (har : b.approvalRequest = a.approvalRequest) :
    GateInv exempt b := by
  constructor
  · rw [htc, har]
    exact h.pair
  · rw [htc, har]
    exact h.referenced
  · rw [har]
    exact h.status

/-- The call awaits approval. -/
def Awaiting (id : ToolCallId) (db : Db) : Prop :=
  ∀ tc ∈ db.toolCall, tc.id = id → tc.status = .pendingApproval

/-- No request of the call is pending. -/
def Settled (id : ToolCallId) (db : Db) : Prop :=
  ∀ ar ∈ db.approvalRequest, ar.toolCallId = some id → ar.status ≠ .pending

section Updates

variable {db : Db} {exempt exempt' : Option ToolCallId} {id : ToolCallId}

theorem GateInv.updateToolCall {f : ToolCall → ToolCall} {hf : ∀ tc, (f tc).id = tc.id}
    (h : GateInv exempt db) (hlink : ∀ tc, (f tc).approvalRequestId = tc.approvalRequestId)
    (hupdated : ∀ tc ∈ db.toolCall, tc.id = id → ∀ ar ∈ db.approvalRequest,
      tc.approvalRequestId = some ar.id → GatePair exempt' (f tc) ar)
    (hother : ∀ tc ar, tc.id ≠ id → GatePair exempt tc ar → GatePair exempt' tc ar) :
    GateInv exempt' (db.updateToolCall id f hf) := by
  constructor
  · intro tc' htc' ar har hlinked
    rcases Db.mem_updateToolCall htc' with ⟨tc, htc, ⟨hid, rfl⟩ | ⟨hid, rfl⟩⟩
    · rw [hlink] at hlinked
      exact hupdated tc htc hid ar har hlinked
    · exact hother tc' ar hid (h.pair tc' htc ar har hlinked)
  · intro tc' htc' arId hlinked
    rcases Db.mem_updateToolCall htc' with ⟨tc, htc, ⟨-, rfl⟩ | ⟨-, rfl⟩⟩
    · rw [hlink] at hlinked
      exact h.referenced tc htc arId hlinked
    · exact h.referenced tc' htc arId hlinked
  · exact h.status

theorem GateInv.insertToolCall {t : Table ToolCall.id} {tc : ToolCall} (h : GateInv none db)
    (hins : db.toolCall.insert? tc = some t) (hunlinked : tc.approvalRequestId = none) :
    GateInv none { db with toolCall := t } := by
  constructor
  · intro tc' htc' ar har hlinked
    rcases (Table.mem_insert? hins).mp htc' with hold | rfl
    · exact h.pair tc' hold ar har hlinked
    · rw [hunlinked] at hlinked
      cases hlinked
  · intro tc' htc' arId hlinked
    rcases (Table.mem_insert? hins).mp htc' with hold | rfl
    · exact h.referenced tc' hold arId hlinked
    · rw [hunlinked] at hlinked
      cases hlinked
  · exact h.status

theorem awaiting_insertToolCall {t : Table ToolCall.id} {tc : ToolCall}
    (hins : db.toolCall.insert? tc = some t) (hstatus : tc.status = .pendingApproval) :
    Awaiting tc.id { db with toolCall := t } := by
  intro tc' htc' hid
  have hmem : tc ∈ t := (Table.mem_insert? hins).mpr (Or.inr rfl)
  rw [Table.eq_of_key_eq htc' hmem hid, hstatus]

theorem GateInv.insertApprovalRequest {t : Table ApprovalRequest.id} {ar : ApprovalRequest}
    (h : GateInv none db) (hins : db.approvalRequest.insert? ar = some t)
    (hpending : ar.status = .pending) : GateInv none { db with approvalRequest := t } := by
  constructor
  · intro tc htc ar' har' hlinked
    rcases (Table.mem_insert? hins).mp har' with hold | rfl
    · exact h.pair tc htc ar' hold hlinked
    · -- a call that refers to the new id would have referred to a row with that id before
      have hcontains := h.referenced tc htc ar'.id hlinked
      rw [(Table.insert?_eq_some.mp hins).1] at hcontains
      cases hcontains
  · intro tc htc arId hlinked
    rw [Table.contains_insert? hins, h.referenced tc htc arId hlinked, Bool.true_or]
  · intro ar' har'
    rcases (Table.mem_insert? hins).mp har' with hold | rfl
    · exact h.status ar' hold
    · exact Or.inl hpending

/-- Linking a pending request to a call that awaits approval. -/
theorem GateInv.link {tcId : ToolCallId} {ar : ApprovalRequest} (h : GateInv none db)
    (hawaiting : Awaiting tcId db) (har : ar ∈ db.approvalRequest)
    (hof : ar.toolCallId = some tcId) (hpending : ar.status = .pending) :
    GateInv none (db.updateToolCall tcId (fun tc => { tc with approvalRequestId := some ar.id })
      fun _ => rfl) := by
  constructor
  · intro tc' htc' ar' har' hlinked
    rcases Db.mem_updateToolCall htc' with ⟨tc, htc, ⟨hid, rfl⟩ | ⟨hid, rfl⟩⟩
    · have hsame : ar' = ar := Table.eq_of_key_eq har' har (Option.some_inj.mp hlinked).symm
      have hstatus : tc.status = .pendingApproval := hawaiting tc htc hid
      subst hsame
      exact ⟨by rw [hof, ← hid], by simp [hstatus], by simp [hstatus], by simp [hpending]⟩
    · exact h.pair tc' htc ar' har' hlinked
  · intro tc' htc' arId hlinked
    rcases Db.mem_updateToolCall htc' with ⟨tc, htc, ⟨-, rfl⟩ | ⟨-, rfl⟩⟩
    · exact Table.contains_iff.mpr ⟨ar, har, Option.some_inj.mp hlinked⟩
    · exact h.referenced tc' htc arId hlinked
  · exact h.status

/-- Deciding the pending requests of a call, for a denial with the call exempt from then on. -/
theorem GateInv.decidePending {f : ApprovalRequest → ApprovalRequest}
    {hf : ∀ ar, (f ar).id = ar.id} (h : GateInv none db)
    (hof : ∀ ar, (f ar).toolCallId = ar.toolCallId)
    (hstatus : ∀ ar, (f ar).status = .approved ∨ (f ar).status = .denied ∧ exempt = some id) :
    GateInv exempt (db.decidePending id f hf) := by
  constructor
  · intro tc htc ar' har' hlinked
    rcases Db.mem_decidePending har' with ⟨ar, har, ⟨hid, hpending, rfl⟩ | ⟨-, rfl⟩⟩
    · rw [hf] at hlinked
      have hpair := h.pair tc htc ar har hlinked
      have hgranted : ¬ (tc.status = .approved ∨ tc.status = .completed) := fun hg => by
        have := hpair.granted hg
        simp [hpending] at this
      have hdenied : tc.status ≠ .denied := fun hd => by
        have := hpair.denied hd
        simp [hpending] at this
      refine ⟨by rw [hof, hpair.requestOf], fun hg => absurd hg hgranted,
        fun hd => absurd hd hdenied, fun hd hexempt => ?_⟩
      rcases hstatus ar with happroved | ⟨-, hself⟩
      · rw [happroved] at hd
        cases hd
      · rw [hself, ← hid, hpair.requestOf] at hexempt
        exact absurd rfl hexempt
    · have hpair := h.pair tc htc ar' har hlinked
      exact ⟨hpair.requestOf, hpair.granted, hpair.denied, fun hd _ => hpair.refused hd (by simp)⟩
  · intro tc htc arId hlinked
    show (db.approvalRequest.update _ f hf).contains arId = true
    rw [Table.contains_update]
    exact h.referenced tc htc arId hlinked
  · intro ar' har'
    rcases Db.mem_decidePending har' with ⟨ar, har, ⟨-, -, rfl⟩ | ⟨-, rfl⟩⟩
    · exact Or.inr ((hstatus ar).imp_right And.left)
    · exact h.status ar' har

theorem settled_decidePending {f : ApprovalRequest → ApprovalRequest}
    {hf : ∀ ar, (f ar).id = ar.id} (hstatus : ∀ ar, (f ar).status ≠ .pending) :
    Settled id (db.decidePending id f hf) := by
  intro ar' har' hid hpending
  rcases Db.mem_decidePending har' with ⟨ar, har, ⟨-, -, rfl⟩ | ⟨hnot, rfl⟩⟩
  · exact hstatus ar hpending
  · exact hnot ⟨hid, hpending⟩

end Updates

/-! ### The protocol a dispatch follows -/

/-- Where a dispatch stands between the statements that write the two tables. -/
inductive GateStage where
  | idle
  | filed (toolCallId : ToolCallId)
  | opened (toolCallId : ToolCallId) (id : ApprovalRequestId)
  | approving (toolCallId : ToolCallId)
  | denying (toolCallId : ToolCallId)

def gateMonitor : Monitor Op Op.Res GateStage where
  allowed l o :=
    match o with
    | .now => True
    | .ulid => True
    | .sql (.insertToolCall tc) => l = .idle ∧ tc.approvalRequestId = none
    | .sql (.insertApprovalRequest ar) =>
      ar.status = .pending ∧ ∃ id, l = .filed id ∧ ar.toolCallId = some id
    | .sql (.setToolCallApprovalRequest toolCallId id) => l = .opened toolCallId id
    | .sql (.approveToolCall id) => l = .approving id
    | .sql (.denyToolCall id) => l = .denying id
    | .sql _ => l = .idle
  next l o r :=
    match o, r with
    | .now, _ => l
    | .ulid, _ => l
    | .sql (.insertToolCall tc), .ok _ =>
      if tc.status = .pendingApproval then .filed tc.id else .idle
    | .sql (.insertApprovalRequest ar), .ok _ =>
      match ar.toolCallId with
      | some id => .opened id ar.id
      | none => .idle
    | .sql (.approveApprovalRequest id _ _ _), .ok _ => .approving id
    | .sql (.denyApprovalRequest id _ _ _), .ok _ => .denying id
    | _, _ => .idle

def StageHolds : GateStage → Db → Prop
  | .idle, db => GateInv none db
  | .filed id, db => GateInv none db ∧ Awaiting id db
  | .opened toolCallId id, db => GateInv none db ∧ Awaiting toolCallId db ∧
      ∃ ar ∈ db.approvalRequest, ar.id = id ∧ ar.toolCallId = some toolCallId ∧ ar.status = .pending
  | .approving id, db => GateInv none db ∧ Settled id db
  | .denying id, db => GateInv (some id) db ∧ Settled id db

variable {X : Crates}

theorem gateMonitor_blocks : Blocks X gateMonitor (· = .idle) := by
  constructor
  case plain =>
    intro l o ho hl
    subst hl
    cases o with
    | now => exact ⟨trivial, fun _ => rfl⟩
    | ulid => exact ⟨trivial, fun _ => rfl⟩
    | sql s => cases s <;> first | exact ho.elim | exact ⟨rfl, fun _ => rfl⟩
  case chronicle =>
    intro ws actor session eventType causalityKind sensitivity payload backrefs
    constructor
    intro l hl
    subst hl
    refine ⟨rfl, fun r => ?_⟩
    cases r with
    | error e => rfl
    | ok prev =>
      refine ⟨trivial, fun ulid => ⟨trivial, fun t => ⟨rfl, fun r => ?_⟩⟩⟩
      cases r with
      | error e => rfl
      | ok r => rfl
  case file =>
    intro ws actor toolCallId sessionId toolId toolName canon hash risk status v hv
    constructor
    intro l hl
    subst hl
    refine ⟨trivial, fun now => ⟨⟨rfl, rfl⟩, fun r => ?_⟩⟩
    cases r with
    | error e => rfl
    | ok r =>
      cases v with
      | requireApproval =>
        cases hv
        refine ⟨trivial, fun ulid => ⟨trivial, fun now => ⟨⟨rfl, _, rfl, rfl⟩, fun r => ?_⟩⟩⟩
        cases r with
        | error e => rfl
        | ok r =>
          refine ⟨rfl, fun r => ?_⟩
          cases r with
          | error e => rfl
          | ok r => rfl
      | allow => cases hv; rfl
      | constrain => cases hv; rfl
      | block => cases hv
      | halt => cases hv
  case approve =>
    intro toolCallId actor scope
    constructor
    intro l hl
    subst hl
    refine ⟨trivial, fun now => ⟨rfl, fun r => ?_⟩⟩
    cases r with
    | error e => rfl
    | ok r =>
      refine ⟨rfl, fun r => ?_⟩
      cases r with
      | error e => rfl
      | ok r => rfl
  case deny =>
    intro toolCallId actor reason
    constructor
    intro l hl
    subst hl
    refine ⟨trivial, fun now => ⟨rfl, fun r => ?_⟩⟩
    cases r with
    | error e => rfl
    | ok r =>
      refine ⟨rfl, fun r => ?_⟩
      cases r with
      | error e => rfl
      | ok r => rfl

/-! ### What the run is asked to respect -/

/-- A property of the call with this id and its linked request, if there are such. -/
def EachLinked (db : Db) (id : ToolCallId) (P : ToolCall → ApprovalRequest → Prop) : Prop :=
  ∀ tc ∈ db.toolCall.rows, tc.id = id → ∀ ar ∈ db.approvalRequest.rows,
    tc.approvalRequestId = some ar.id → P tc ar

instance (db : Db) (id : ToolCallId) (P : ToolCall → ApprovalRequest → Prop)
    [∀ tc ar, Decidable (P tc ar)] : Decidable (EachLinked db id P) := by
  unfold EachLinked
  infer_instance

/-- No call is approved whose request is denied, none denied whose request is approved, none completed whose request is not approved, and the storage does not refuse the second half of a denial. -/
def GateRespected (E : Env) (w : World) (o : Op) : Prop :=
  match o with
  | .sql (.approveToolCall id) =>
    E.fault w.statements = true ∨ EachLinked w.db id fun _ ar => ar.status ≠ .denied
  | .sql (.denyToolCall id) =>
    if E.fault w.statements then
      EachLinked w.db id fun tc ar => ar.status = .denied → tc.status = .denied
    else EachLinked w.db id fun _ ar => ar.status ≠ .approved
  | .sql (.completeToolCall id _ _ _) =>
    E.fault w.statements = true ∨ EachLinked w.db id fun _ ar => ar.status = .approved
  | _ => True

instance (E : Env) (w : World) (o : Op) : Decidable (GateRespected E w o) := by
  unfold GateRespected
  split <;> infer_instance

/-! ### What a statement does at each stage -/

theorem StageHolds.inv {l : GateStage} {db : Db} (h : StageHolds l db)
    (hl : ∀ id, l ≠ .denying id) : GateInv none db := by
  cases l with
  | idle => exact h
  | filed => exact h.1
  | opened => exact h.1
  | approving => exact h.1
  | denying id => exact absurd rfl (hl id)

/-- The requests of a settled call that are not in the given state are in the other. -/
theorem GateInv.status_of_settled {exempt : Option ToolCallId} {db : Db} {id : ToolCallId}
    (h : GateInv exempt db) (hsettled : Settled id db) {ar : ApprovalRequest}
    (har : ar ∈ db.approvalRequest) (hof : ar.toolCallId = some id) :
    ar.status = .approved ∨ ar.status = .denied := by
  rcases h.status ar har with hpending | hdecided
  · exact absurd hpending (hsettled ar har hof)
  · exact hdecided

section Statements

variable {db : Db} {id : ToolCallId}

theorem GateInv.approveToolCall (h : GateInv none db) (hsettled : Settled id db)
    (hnot : EachLinked db id fun _ ar => ar.status ≠ .denied) :
    GateInv none (db.updateToolCall id (fun tc => { tc with status := .approved }) fun _ => rfl) := by
  refine h.updateToolCall (fun _ => rfl) (fun tc htc hid ar har hlinked => ?_)
    fun tc ar _ hpair => hpair
  have hpair := h.pair tc htc ar har hlinked
  have happroved : ar.status = .approved :=
    (h.status_of_settled hsettled har (hid ▸ hpair.requestOf)).resolve_right
      (hnot tc htc hid ar har hlinked)
  exact ⟨hpair.requestOf, fun _ => happroved, by simp, by simp [happroved]⟩

theorem GateInv.denyToolCall (h : GateInv (some id) db) (hsettled : Settled id db)
    (hnot : EachLinked db id fun _ ar => ar.status ≠ .approved) :
    GateInv none (db.updateToolCall id (fun tc => { tc with status := .denied }) fun _ => rfl) := by
  refine h.updateToolCall (fun _ => rfl) (fun tc htc hid ar har hlinked => ?_)
    fun tc ar hid hpair => ?_
  · have hpair := h.pair tc htc ar har hlinked
    have hdenied : ar.status = .denied :=
      (h.status_of_settled hsettled har (hid ▸ hpair.requestOf)).resolve_left
        (hnot tc htc hid ar har hlinked)
    exact ⟨hpair.requestOf, by simp, fun _ => hdenied, fun _ _ => rfl⟩
  · exact ⟨hpair.requestOf, hpair.granted, hpair.denied,
      fun hd _ => hpair.refused hd fun heq => hid (Option.some_inj.mp heq).symm⟩

/-- A denial that stops halfway leaves the gate shut only on a call that was denied before. -/
theorem GateInv.denyRefused (h : GateInv (some id) db)
    (hdenied : EachLinked db id fun tc ar => ar.status = .denied → tc.status = .denied) :
    GateInv none db := by
  refine ⟨fun tc htc ar har hlinked => ?_, h.referenced, h.status⟩
  have hpair := h.pair tc htc ar har hlinked
  refine ⟨hpair.requestOf, hpair.granted, hpair.denied, fun hd _ => ?_⟩
  by_cases hid : tc.id = id
  · exact hdenied tc htc hid ar har hlinked hd
  · exact hpair.refused hd fun heq => hid (Option.some_inj.mp heq).symm

theorem GateInv.completeToolCall {canon hash now : String} (h : GateInv none db)
    (happroved : EachLinked db id fun _ ar => ar.status = .approved) :
    GateInv none (db.updateToolCall id (·.complete canon hash now) fun _ => rfl) := by
  refine h.updateToolCall (fun _ => rfl) (fun tc htc hid ar har hlinked => ?_)
    fun tc ar _ hpair => hpair
  have hstatus : ar.status = .approved := happroved tc htc hid ar har hlinked
  exact ⟨(h.pair tc htc ar har hlinked).requestOf, fun _ => hstatus,
    by simp [ToolCall.complete], by simp [hstatus]⟩

end Statements

/-- A refused statement ends the block it belongs to. -/
theorem stage_refused {E : Env} {l : GateStage} {w : World} {s : Sql}
    (hstage : StageHolds l w.db) (hallowed : gateMonitor.allowed l (.sql s))
    (hrespected : GateRespected E w (.sql s))
    (hrefused : E.fault w.statements = true ∨ ∃ err, s.exec w.db = .error err) :
    GateInv none w.db := by
  cases s with
  | denyToolCall id =>
    have hl : l = .denying id := hallowed
    subst hl
    rcases hrefused with hfault | ⟨err, herr⟩
    · simp only [GateRespected, hfault, if_true] at hrespected
      exact hstage.1.denyRefused hrespected
    · cases herr
  | insertApprovalRequest ar =>
    obtain ⟨-, id, hl, -⟩ := hallowed
    exact hstage.inv (by simp [hl])
  | setToolCallApprovalRequest tcId id =>
    have hl : l = .opened tcId id := hallowed
    exact hstage.inv (by simp [hl])
  | approveToolCall id =>
    have hl : l = .approving id := hallowed
    exact hstage.inv (by simp [hl])
  | insertToolCall tc => exact hstage.inv (by simp [hallowed.1])
  | _ =>
    have hl : l = .idle := hallowed
    exact hstage.inv (by simp [hl])

/-- An accepted statement leads to the stage the monitor names. -/
theorem stage_accepted {E : Env} {l : GateStage} {w : World} {s : Sql} {reply : s.Reply} {db' : Db}
    (hstage : StageHolds l w.db) (hallowed : gateMonitor.allowed l (.sql s))
    (hrespected : GateRespected E w (.sql s)) (hfault : E.fault w.statements = false)
    (hexec : s.exec w.db = .ok (reply, db')) :
    StageHolds (gateMonitor.next l (.sql s) (.ok reply)) db' := by
  cases s with
  | insertToolCall tc =>
    obtain ⟨hl, hunlinked⟩ := hallowed
    subst hl
    obtain ⟨t, ht, heq⟩ := map_eq_ok.mp hexec
    cases heq
    have hins := (insertRow_eq_ok.mp ht).2
    simp only [gateMonitor]
    split
    · rename_i hstatus
      exact ⟨GateInv.insertToolCall hstage hins hunlinked, awaiting_insertToolCall hins hstatus⟩
    · exact GateInv.insertToolCall hstage hins hunlinked
  | insertApprovalRequest ar =>
    obtain ⟨hpending, id, hl, hof⟩ := hallowed
    subst hl
    obtain ⟨t, ht, heq⟩ := map_eq_ok.mp hexec
    cases heq
    have hins := (insertRow_eq_ok.mp ht).2
    simp only [gateMonitor, hof]
    exact ⟨hstage.1.insertApprovalRequest hins hpending, hstage.2, ar,
      (Table.mem_insert? hins).mpr (Or.inr rfl), rfl, hof, hpending⟩
  | setToolCallApprovalRequest tcId id =>
    have hl : l = .opened tcId id := hallowed
    subst hl
    cases hexec
    obtain ⟨hinv, hawaiting, ar, har, rfl, hof, hpending⟩ := hstage
    exact hinv.link hawaiting har hof hpending
  | approveApprovalRequest id actor scope now =>
    have hl : l = .idle := hallowed
    subst hl
    obtain ⟨db'', hdecide, heq⟩ := map_eq_ok.mp hexec
    cases heq
    rw [Db.decide_eq_ok hdecide]
    exact ⟨GateInv.decidePending hstage (fun _ => rfl) fun _ => Or.inl rfl,
      settled_decidePending fun _ => by simp [ApprovalRequest.approve]⟩
  | denyApprovalRequest id actor reason now =>
    have hl : l = .idle := hallowed
    subst hl
    obtain ⟨db'', hdecide, heq⟩ := map_eq_ok.mp hexec
    cases heq
    rw [Db.decide_eq_ok hdecide]
    exact ⟨GateInv.decidePending hstage (fun _ => rfl) fun _ => Or.inr ⟨rfl, rfl⟩,
      settled_decidePending fun _ => by simp [ApprovalRequest.deny]⟩
  | approveToolCall id =>
    have hl : l = .approving id := hallowed
    subst hl
    cases hexec
    rcases hrespected with hrefused | hnot
    · rw [hfault] at hrefused
      cases hrefused
    · exact hstage.1.approveToolCall hstage.2 hnot
  | denyToolCall id =>
    have hl : l = .denying id := hallowed
    subst hl
    cases hexec
    simp only [GateRespected, hfault, Bool.false_eq_true, if_false] at hrespected
    exact hstage.1.denyToolCall hstage.2 hrespected
  | completeToolCall id canon hash now =>
    have hl : l = .idle := hallowed
    subst hl
    cases hexec
    rcases hrespected with hrefused | happroved
    · rw [hfault] at hrefused
      cases hrefused
    · exact GateInv.completeToolCall hstage happroved
  | _ =>
    have hl : l = .idle := hallowed
    subst hl
    have hframe := Sql.exec_frame hexec
    exact GateInv.congr hstage (hframe.toolCall (by simp [Sql.writes]))
      (hframe.approvalRequest (by simp [Sql.writes]))

theorem stage_handle {E : Env} {l : GateStage} {w : World} {o : Op}
    (hstage : StageHolds l w.db) (hallowed : gateMonitor.allowed l o)
    (hrespected : GateRespected E w o) :
    StageHolds (gateMonitor.next l o (handle E o w).1) (handle E o w).2.db := by
  cases o with
  | now => exact hstage
  | ulid => exact hstage
  | sql s =>
    obtain ⟨⟨err, hanswer⟩, hsame, hrefused⟩ | ⟨reply, db', hfault, hexec, hanswer, hdb⟩ :=
      handle_sql E s w
    · have hinv := stage_refused hstage hallowed hrespected hrefused
      have hidle : gateMonitor.next l (.sql s) (.error err) = .idle := by
        cases s <;> rfl
      rw [hanswer, hsame, hidle]
      exact hinv
    · rw [hanswer, hdb]
      exact stage_accepted hstage hallowed hrespected hfault hexec

/-! ### The run -/

variable {policy : PolicyDoc}

theorem gate_dispatchIn {E : Env} {w : World} {c : Call} (hinv : GateInv none w.db)
    (hrespected : (dispatch X policy c).Along (handle E) (GateRespected E) w) :
    GateInv none (dispatchIn X policy E w c).db := by
  have hsteady : Steady gateMonitor (· = .idle) (dispatch X policy c) :=
    dispatch_steady gateMonitor_blocks policy c
  obtain ⟨l, hstage, hl⟩ := run_joint (handle E) (fun l w => StageHolds l w.db) (GateRespected E)
    (fun l w o => stage_handle) (hsteady.safe .idle rfl) hinv hrespected
  subst hl
  exact hstage

/-- The id of the one tool call of the sample runs. -/
def sampleToolCall : ToolCallId := "tc_00000000000000000000000004"

/-- A tool call is requested, denied, and then approved all the same. -/
def deniedThenApproved : World :=
  Lts.run (dispatchIn Crates.sample alphaDemoPolicy .wholeSeconds) (World.start .empty)
    [Call.sample "create_session" [("session_id", "sess_demo")],
      Call.sample "request_tool_call" [("session_id", "sess_demo"), ("tool_name", "shell.run")],
      Call.sample "deny_tool_call" [("tool_call_id", sampleToolCall)],
      Call.sample "approve_tool_call" [("tool_call_id", sampleToolCall)]]

theorem deniedThenApproved_gate_open :
    World.Regular .wholeSeconds deniedThenApproved ∧ ¬ GateHolds deniedThenApproved.db := by
  decide +kernel

/-- **The approval gate holds** in every state of a run from the empty database that respects it. -/
theorem approval_gate (X : Crates) (policy : PolicyDoc) (E : Env) (calls : List Call)
    (hrespected : Lts.EveryStep (dispatchIn X policy E)
      (fun w c => (dispatch X policy c).Along (handle E) (GateRespected E) w)
      (World.start .empty) calls) :
    Lts.Always (dispatchIn X policy E) (fun w => GateHolds w.db) (World.start .empty) calls := by
  have hempty : GateInv none (World.start .empty).db :=
    ⟨fun tc htc => absurd htc Table.not_mem_empty, fun tc htc => absurd htc Table.not_mem_empty,
      fun ar har => absurd har Table.not_mem_empty⟩
  have hinv := Lts.always_of_invariant (fun w => GateInv none w.db)
    (fun _ _ hinv hstep => gate_dispatchIn hinv hstep) hempty hrespected
  intro pre post hsplit
  exact (hinv pre post hsplit).gateHolds

theorem approval_gate_approved :
    Lts.Always (dispatchIn Crates.sample alphaDemoPolicy .wholeSeconds) (fun w => GateHolds w.db)
      (World.start .empty)
      [Call.sample "create_session" [("session_id", "sess_demo")],
        Call.sample "request_tool_call" [("session_id", "sess_demo"), ("tool_name", "shell.run")],
        Call.sample "approve_tool_call" [("tool_call_id", sampleToolCall)],
        Call.sample "record_tool_result" [("tool_call_id", sampleToolCall)]] :=
  approval_gate Crates.sample alphaDemoPolicy .wholeSeconds _ (by decide +kernel)

end ActantDb
