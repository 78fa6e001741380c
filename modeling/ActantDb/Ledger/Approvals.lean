import ActantDb.Ledger.Ledger
import ActantDb.Lib.Run

/-!
# Deciding an approval

An approval is kept twice. The approval store has a row for each tool call, which `enqueue` replaces and `decide` overwrites, whatever its status is; the ledger has the events, to which `decideApproval` adds a decision whenever one was asked for. None of the three looks at what has been decided before. A decision is final in the runs in which each call is about an approval that neither store has as decided, or repeats what they have.
-/

namespace ActantDb

namespace Approvals

inductive Status where
  | pending | approved | approvedConstrained | denied
deriving DecidableEq, Repr

inductive Decision where
  | approve (approver scope : String)
  | approveConstrained (approver scope : String) (acceptedInput : JsValue)
  | deny (approver reason : String)

namespace Decision

/-- Its field `decision`. -/
def verdict : Decision → String
  | .approve .. => "approve"
  | .approveConstrained .. => "approve_constrained"
  | .deny .. => "deny"

def entries : Decision → List (String × JsValue)
  | .approve approver scope =>
    [("decision", .string "approve"), ("approver", .string approver), ("scope", .string scope)]
  | .approveConstrained approver scope acceptedInput =>
    [("decision", .string "approve_constrained"), ("approver", .string approver), ("scope", .string scope),
      ("accepted_input", acceptedInput)]
  | .deny approver reason =>
    [("decision", .string "deny"), ("approver", .string approver), ("reason", .string reason)]

/-- What `decide` makes of it. -/
def status (decision : Decision) : Status :=
  if decision.verdict = "approve" then .approved
  else if decision.verdict = "approve_constrained" then .approvedConstrained
  else .denied

end Decision

/-- The request, with its id and all of its fields. -/
structure Request where
  toolCallId : String
  value : JsValue

/-- A row of the table `approvals`; JSON texts are the values they are parsed to. -/
structure Row where
  runId : String
  status : Status
  request : JsValue
  decision : Option JsValue
  createdAt : String
  decidedAt : Option String

/-- The table by its primary key, and the ledger, which are in one database. -/
structure Stores where
  approvals : String → Option Row
  ledger : Ledger

variable (E : LedgerEnv)

/-- A statement on the table, which may fail. -/
def runStatement (l : Ledger) : Except Thrown Unit × Ledger :=
  let counted := { l with statements := l.statements + 1 }
  match E.fault l.statements with
  | some e => (.error e, counted)
  | none => (.ok (), counted)

namespace Stores

/-- `INSERT OR REPLACE`. -/
def enqueue (s : Stores) (req : Request) (runId now : String) : Except Thrown Unit × Stores :=
  match throughJson req.value with
  | .error e => (.error e, s)
  | .ok request =>
    let (ran, ledger) := runStatement E s.ledger
    match ran with
    | .error e => (.error e, { s with ledger := ledger })
    | .ok () =>
      let row := ⟨runId, .pending, request, none, now, none⟩
      (.ok (), { approvals := Function.update s.approvals req.toolCallId (some row), ledger := ledger })

/-- The row is updated, if there is one, and then read. -/
def decide (s : Stores) (toolCallId : String) (decision : Decision) (now : String) : Except Thrown Row × Stores :=
  match throughJson (.object decision.entries) with
  | .error e => (.error e, s)
  | .ok json =>
    let (ran, ledger) := runStatement E s.ledger
    match ran with
    | .error e => (.error e, { s with ledger := ledger })
    | .ok () =>
      let approvals := Function.update s.approvals toolCallId ((s.approvals toolCallId).map fun row =>
        { row with status := decision.status, decision := some json, decidedAt := some now })
      let (got, ledger) := runStatement E ledger
      let s := { approvals := approvals, ledger := ledger }
      match got with
      | .error e => (.error e, s)
      | .ok () =>
        match approvals toolCallId with
        | none => (.error ⟨"Error", "approval not found: " ++ toolCallId⟩, s)
        | some row => (.ok row, s)

end Stores

/-- `(e.payload as { tool_call_id?: string } | undefined)?.tool_call_id === id`. -/
def isAbout (id : String) (e : ActantEvent) : Bool := (e.payload.get "tool_call_id").isString id

inductive DecisionKind where
  | approve | approveConstrained | deny
deriving DecidableEq, Repr

structure Extras where
  reason : Option String := none
  approver : Option String := none
  acceptedInput : JsValue := .undefined
  scope : Option String := none

def buildDecision (kind : DecisionKind) (extras : Extras) : Decision :=
  let approver := extras.approver.getD "mcp-client"
  match kind with
  | .approve => .approve approver (extras.scope.getD "single-call")
  | .approveConstrained =>
    .approveConstrained approver (extras.scope.getD "single-call") (extras.acceptedInput.orElse .null)
  | .deny => .deny approver (extras.reason.getD "denied via mcp")

/-- The event of a decision. -/
def decisionInput (runId requestId : String) (decision : Decision) : AppendInput where
  kind := .approvalDecision
  runId := runId
  payload := .object (("tool_call_id", .string requestId) :: decision.entries)

namespace Stores

/-- The decision goes to the run of the first event that asks for it. -/
def decideApproval (s : Stores) (process : Nat) (requestId : String) (kind : DecisionKind) (extras : Extras) :
    Except Thrown String × Stores :=
  let (found, ledger) := s.ledger.query E { kind := some [.approvalRequired] }
  match found with
  | .error e => (.error e, { s with ledger := ledger })
  | .ok events =>
    match events.find? (isAbout requestId) with
    | none => (.error ⟨"Error", "pending approval not found: " ++ requestId⟩, { s with ledger := ledger })
    | some reqEvent =>
      let (appended, ledger) := ledger.append E process (decisionInput reqEvent.runId requestId (buildDecision kind extras))
      (appended.map fun _ => requestId, { s with ledger := ledger })

end Stores

/-! ### Decisions that are final -/

inductive Call where
  | enqueue (req : Request) (runId now : String)
  | decide (toolCallId : String) (decision : Decision) (now : String)
  | decideApproval (process : Nat) (requestId : String) (kind : DecisionKind) (extras : Extras)

namespace Stores

def apply (s : Stores) : Call → Stores
  | .enqueue req runId now => (s.enqueue E req runId now).2
  | .decide toolCallId decision now => (s.decide E toolCallId decision now).2
  | .decideApproval process requestId kind extras => (s.decideApproval E process requestId kind extras).2

/-- The decisions about a tool call that the ledger holds. -/
def decisionsOf (s : Stores) (id : String) : List ActantEvent :=
  s.ledger.events.rows.filter fun e => e.kind = .approvalDecision && isAbout id e

/-- The event and the status name one decision. -/
def Matches (e : ActantEvent) (status : Status) : Prop :=
  ∀ decision : Decision, decision.status = status → e.payload.get "decision" = .string decision.verdict

/-- The ledger holds one decision at most about each tool call, and the table, if it has one, has the same. -/
structure Consistent (s : Stores) : Prop where
  once : ∀ id, (s.decisionsOf id).length ≤ 1
  agree : ∀ id row, s.approvals id = some row → ∀ e ∈ s.decisionsOf id, row.status = .pending ∨ Matches e row.status

/-- What was decided before the call is decided alike after it. -/
structure Final (s s' : Stores) : Prop where
  /-- A row that is decided keeps its decision. -/
  kept : ∀ id row, s.approvals id = some row → row.status ≠ .pending →
    ∃ row', s'.approvals id = some row' ∧ row'.status = row.status ∧ row'.decision = row.decision
  /-- The row of an approval that the ledger has as decided does not become pending. -/
  decided : ∀ id, s.decisionsOf id ≠ [] → ∀ row', s'.approvals id = some row' → row'.status = .pending →
    ∃ row, s.approvals id = some row ∧ row.status = .pending
  /-- The ledger keeps its decisions. -/
  events : ∀ id, ∀ e ∈ s.decisionsOf id, e ∈ s'.decisionsOf id
  consistent : Consistent s'

/-- The call is about an approval that is not decided, or it repeats the decision. -/
def Fresh (s : Stores) : Call → Prop
  | .enqueue req _ _ =>
    (∀ row, s.approvals req.toolCallId = some row → row.status = .pending) ∧
      (s.decisionsOf req.toolCallId = [] ∨ ∃ row, s.approvals req.toolCallId = some row ∧ row.status = .pending)
  | .decide id decision _ =>
    (∀ row, s.approvals id = some row → row.status ≠ .pending →
      row.status = decision.status ∧ ∃ json, throughJson (.object decision.entries) = .ok json ∧ row.decision = some json) ∧
      ∀ e ∈ s.decisionsOf id, Matches e decision.status
  | .decideApproval _ id kind extras =>
    s.decisionsOf id = [] ∧
      ∀ row, s.approvals id = some row → row.status = .pending ∨ row.status = (buildDecision kind extras).status

end Stores

/-! ### What a call does -/

variable {E} {s : Stores} {c : Call}

@[simp] theorem runStatement_events (l : Ledger) : (runStatement E l).2.events = l.events := by
  rw [runStatement]
  cases E.fault l.statements <;> rfl

namespace Stores

theorem decisionsOf_congr {s s' : Stores} (h : s'.ledger.events = s.ledger.events) (id : String) :
    s'.decisionsOf id = s.decisionsOf id := by
  rw [decisionsOf, h, decisionsOf]

/-- What a call changes: nothing, or one row of the table, or the ledger gains a decision. -/
inductive Effect (s s' : Stores) : Call → Prop
  | none {c : Call} (happrovals : s'.approvals = s.approvals) (hevents : s'.ledger.events = s.ledger.events) : Effect s s' c
  | enqueued {req : Request} {runId now : String} (row : Row) (hrow : row.status = .pending)
      (happrovals : s'.approvals = Function.update s.approvals req.toolCallId (some row))
      (hevents : s'.ledger.events = s.ledger.events) : Effect s s' (.enqueue req runId now)
  | decided {id : String} {decision : Decision} {now : String} (json : JsValue)
      (hjson : throughJson (.object decision.entries) = .ok json)
      (happrovals : s'.approvals = Function.update s.approvals id ((s.approvals id).map fun row =>
        { row with status := decision.status, decision := some json, decidedAt := some now }))
      (hevents : s'.ledger.events = s.ledger.events) : Effect s s' (.decide id decision now)
  | recorded {process : Nat} {id : String} {kind : DecisionKind} {extras : Extras} (e : ActantEvent)
      (hkind : e.kind = .approvalDecision) (hid : e.payload.get "tool_call_id" = .string id)
      (hdecision : e.payload.get "decision" = .string (buildDecision kind extras).verdict)
      (happrovals : s'.approvals = s.approvals) (hevents : s'.ledger.events.rows = s.ledger.events.rows ++ [e]) :
      Effect s s' (.decideApproval process id kind extras)

theorem canonicalJSON_string (text : String) : canonicalJSON (.string text) = .ok (.string text) := rfl

/-- The event of a decision tells the tool call and the verdict. -/
theorem get_decision {id : String} {decision : Decision} {payload : JsValue}
    (h : canonicalJSON (.object (("tool_call_id", .string id) :: decision.entries)) = .ok payload) :
    payload.get "tool_call_id" = .string id ∧ payload.get "decision" = .string decision.verdict := by
  have hnodup : (((("tool_call_id", .string id) :: decision.entries : List (String × JsValue))).map Prod.fst).Nodup := by
    cases decision <;> simp [Decision.entries]
  have hid := get_canonicalJSON hnodup h "tool_call_id"
  have hdecision := get_canonicalJSON hnodup h "decision"
  rw [get_cons, if_pos rfl, canonicalJSON_string, Except.ok.injEq] at hid
  have hverdict : (JsValue.object (("tool_call_id", .string id) :: decision.entries)).get "decision" = .string decision.verdict := by
    cases decision <;> simp [Decision.entries, Decision.verdict, get_cons]
  rw [hverdict, canonicalJSON_string, Except.ok.injEq] at hdecision
  exact ⟨hid.symm, hdecision.symm⟩

theorem apply_effect (E : LedgerEnv) (s : Stores) (c : Call) : Effect s (s.apply E c) c := by
  cases c with
  | enqueue req runId now =>
    rw [apply, enqueue]
    cases throughJson req.value with
    | error e => exact .none rfl rfl
    | ok request =>
      have hevents := runStatement_events (E := E) s.ledger
      rcases hran : runStatement E s.ledger with ⟨_ | _, ledger⟩ <;> rw [hran] at hevents
      · exact .none rfl hevents
      · exact .enqueued _ rfl rfl hevents
  | decide id decision now =>
    rw [apply, decide]
    cases hjson : throughJson (.object decision.entries) with
    | error e => exact .none rfl rfl
    | ok json =>
      have hevents := runStatement_events (E := E) s.ledger
      rcases hran : runStatement E s.ledger with ⟨_ | _, ledger⟩ <;> rw [hran] at hevents
      · exact .none rfl hevents
      · have hevents' := (runStatement_events (E := E) ledger).trans hevents
        rcases hgot : runStatement E ledger with ⟨_ | _, ledger'⟩ <;> rw [hgot] at hevents' <;> dsimp only
        · rw [hgot]
          exact .decided json hjson rfl hevents'
        · rw [hgot]
          dsimp only
          split <;> exact .decided json hjson rfl hevents'
  | decideApproval process id kind extras =>
    rw [apply, decideApproval]
    have hevents := query_events (E := E) (l := s.ledger) { kind := some [.approvalRequired] }
    rcases hquery : s.ledger.query E { kind := some [.approvalRequired] } with ⟨e | found, ledger⟩ <;> rw [hquery] at hevents
    · exact .none rfl hevents
    · dsimp only
      cases found.find? (isAbout id) with
      | none => exact .none rfl hevents
      | some reqEvent =>
        dsimp only
        rcases append_cases E process ledger (decisionInput reqEvent.runId id (buildDecision kind extras)) with
          ⟨-, hsame⟩ | ⟨payload, hpayload, -, -, -, hrows⟩
        · exact .none rfl (hsame.trans hevents)
        · obtain ⟨hid, hdecision⟩ := get_decision hpayload
          exact .recorded _ rfl hid hdecision rfl (by rw [hrows, hevents])

/-- A step that changes nothing is final. -/
theorem final_of_same {s' : Stores} (h : Consistent s) (happrovals : s'.approvals = s.approvals)
    (hevents : s'.ledger.events = s.ledger.events) : Final s s' := by
  refine ⟨fun id row hrow _ => ⟨row, by rw [happrovals, hrow], rfl, rfl⟩, fun id _ row hrow hpending => ?_, fun id e he => ?_, ?_⟩
  · rw [happrovals] at hrow
    exact ⟨row, hrow, hpending⟩
  · rwa [decisionsOf_congr hevents]
  · refine ⟨fun id => ?_, fun id row hrow e he => ?_⟩
    · rw [decisionsOf_congr hevents]
      exact h.once id
    · rw [happrovals] at hrow
      rw [decisionsOf_congr hevents] at he
      exact h.agree id row hrow e he

/-- A step that changes one row of the table is final if it keeps what is decided there, and agrees with the ledger. -/
theorem final_of_row {s' : Stores} (id : String) (h : Consistent s) (hevents : s'.ledger.events = s.ledger.events)
    (hother : ∀ id', id' ≠ id → s'.approvals id' = s.approvals id')
    (hkept : ∀ row, s.approvals id = some row → row.status ≠ .pending →
      ∃ row', s'.approvals id = some row' ∧ row'.status = row.status ∧ row'.decision = row.decision)
    (hdecided : s.decisionsOf id ≠ [] → ∀ row', s'.approvals id = some row' → row'.status = .pending →
      ∃ row, s.approvals id = some row ∧ row.status = .pending)
    (hagree : ∀ row', s'.approvals id = some row' → ∀ e ∈ s.decisionsOf id,
      row'.status = .pending ∨ Matches e row'.status) : Final s s' := by
  refine ⟨fun id' row hrow hstatus => ?_, fun id' hsome row' hrow' hpending => ?_, fun id' e he => ?_, fun id' => ?_,
    fun id' row' hrow' e he => ?_⟩
  · by_cases hid : id' = id
    · subst hid
      exact hkept row hrow hstatus
    · exact ⟨row, (hother id' hid).trans hrow, rfl, rfl⟩
  · by_cases hid : id' = id
    · subst hid
      exact hdecided hsome row' hrow' hpending
    · exact ⟨row', (hother id' hid).symm.trans hrow', hpending⟩
  · rwa [decisionsOf_congr hevents]
  · rw [decisionsOf_congr hevents]
    exact h.once id'
  · rw [decisionsOf_congr hevents] at he
    by_cases hid : id' = id
    · subst hid
      exact hagree row' hrow' e he
    · exact h.agree id' row' ((hother id' hid).symm.trans hrow') e he

theorem status_eq_of_verdict {d d' : Decision} (h : d.status = d'.status) : d.verdict = d'.verdict := by
  cases d <;> cases d' <;> simp [Decision.status, Decision.verdict] at h ⊢

/-- **A call that is about nothing decided, or repeats what is, keeps every decision.** -/
theorem final_step (h : Consistent s) (hfresh : s.Fresh c) : Final s (s.apply E c) := by
  have heffect := apply_effect E s c
  generalize s.apply E c = s' at heffect
  cases heffect with
  | none happrovals hevents => exact final_of_same h happrovals hevents
  | @enqueued req runId now row hstatus happrovals hevents =>
    obtain ⟨hundecided, hpending⟩ := hfresh
    have hrow : s'.approvals req.toolCallId = some row := by rw [happrovals, Function.update_self]
    refine final_of_row req.toolCallId h hevents (fun id hid => ?_) (fun old hold hdecided => ?_) (fun hdecided _ _ _ => ?_)
      fun row' hrow' _ _ => ?_
    · rw [happrovals, Function.update_of_ne hid]
    · exact absurd (hundecided old hold) hdecided
    · exact hpending.resolve_left hdecided
    · rw [hrow, Option.some.injEq] at hrow'
      subst hrow'
      exact Or.inl hstatus
  | @decided id decision now json hjson happrovals hevents =>
    obtain ⟨hrepeats, hagrees⟩ := hfresh
    have hrow : s'.approvals id = (s.approvals id).map fun row =>
        { row with status := decision.status, decision := some json, decidedAt := some now } := by
      rw [happrovals, Function.update_self]
    have hstatus : ∀ row', s'.approvals id = some row' → row'.status = decision.status := by
      intro row' hrow'
      rw [hrow] at hrow'
      obtain ⟨row, -, rfl⟩ := Option.map_eq_some_iff.mp hrow'
      rfl
    have hdecided : decision.status ≠ .pending := by
      rw [Decision.status]
      split
      · simp
      · split <;> simp
    refine final_of_row id h hevents (fun id' hid => ?_) (fun old hold hold' => ?_) (fun _ row' hrow' hpending => ?_)
      fun row' hrow' e he => ?_
    · rw [happrovals, Function.update_of_ne hid]
    · obtain ⟨hsame, json', hjson', hdecision⟩ := hrepeats old hold hold'
      rw [hjson, Except.ok.injEq] at hjson'
      subst hjson'
      exact ⟨_, by rw [hrow, hold, Option.map_some], hsame.symm, hdecision.symm⟩
    · exact absurd ((hstatus row' hrow').symm.trans hpending) hdecided
    · rw [hstatus row' hrow']
      exact Or.inr (hagrees e he)
  | @recorded process id kind extras e hkind hid hdecision happrovals hevents =>
    obtain ⟨hnone, hsame⟩ := hfresh
    have hdecisions : ∀ id', s'.decisionsOf id' = s.decisionsOf id' ++ if id = id' then [e] else [] := by
      intro id'
      rw [decisionsOf, hevents, List.filter_append, List.filter_singleton, hkind, decisionsOf, isAbout, hid]
      by_cases heq : id = id' <;> simp [JsValue.isString, heq]
    refine ⟨fun id' row hrow _ => ⟨row, by rw [happrovals, hrow], rfl, rfl⟩, fun id' _ row' hrow' hpending' => ?_,
      fun id' e' he' => ?_, fun id' => ?_, fun id' row' hrow' e' he' => ?_⟩
    · rw [happrovals] at hrow'
      exact ⟨row', hrow', hpending'⟩
    · rw [hdecisions]
      exact List.mem_append_left _ he'
    · rw [hdecisions]
      by_cases heq : id = id'
      · subst heq
        rw [hnone, if_pos rfl]
        simp
      · rw [if_neg heq, List.append_nil]
        exact h.once id'
    · rw [happrovals] at hrow'
      rw [hdecisions] at he'
      rcases List.mem_append.mp he' with hold | hnew
      · exact h.agree id' row' hrow' e' hold
      · by_cases heq : id = id'
        · subst heq
          rw [if_pos rfl, List.mem_singleton] at hnew
          subst hnew
          refine (hsame row' hrow').imp_right fun hstatus decision hdecided => ?_
          rw [hdecision, status_eq_of_verdict (hdecided.trans hstatus)]
        · rw [if_neg heq] at hnew
          cases hnew

/-- **Decisions are final in every run of such calls.** -/
theorem final_of_fresh (h : Consistent s) {calls : List Call} (hfresh : Lts.EveryStep (apply E) Fresh s calls) :
    ∀ before c after, calls = before ++ c :: after →
      Final (Lts.run (apply E) s before) ((Lts.run (apply E) s before).apply E c) := by
  rintro before c after rfl
  rw [Lts.everyStep_append, Lts.everyStep_cons] at hfresh
  have hconsistent := Lts.run_invariant Consistent (fun _ _ hs hc => (final_step hs hc).consistent) h hfresh.1
  exact final_step hconsistent hfresh.2.1

/-! ### An approval that is decided twice -/

def empty : Stores := ⟨fun _ => none, Ledger.empty⟩

def sampleRequest : Request :=
  ⟨"tc_1", .object [("tool_call_id", .string "tc_1"), ("tool", .string "shell"), ("reason", .string "risk"), ("args", .object [])]⟩

def asked : Call := .enqueue sampleRequest "run_1" "2023-11-14T22:13:20.000Z"
def approves : Call := .decide "tc_1" (.approve "alice" "single-call") "2023-11-14T22:13:21.000Z"
def denies : Call := .decide "tc_1" (.deny "bob" "no") "2023-11-14T22:13:22.000Z"

theorem consistent_empty : Consistent empty := ⟨fun _ => Nat.zero_le 1, fun _ _ hrow => by cases hrow⟩

theorem status_asked : ((empty.apply .sample asked).approvals "tc_1").map Row.status = some .pending := by
  decide +kernel

theorem final_approves : Final (empty.apply .sample asked) ((empty.apply .sample asked).apply .sample approves) := by
  have hfresh : Lts.EveryStep (apply .sample) Fresh empty [asked, approves] := by
    refine ⟨⟨fun row hrow => (by cases hrow), Or.inl rfl⟩, ⟨fun row hrow hdecided => ?_, fun e he => ?_⟩, trivial⟩
    · have hstatus := status_asked
      rw [hrow, Option.map_some, Option.some.injEq] at hstatus
      exact absurd hstatus hdecided
    · have hnone : (empty.apply .sample asked).decisionsOf "tc_1" = [] := by rfl
      rw [hnone] at he
      cases he
  exact final_of_fresh consistent_empty hfresh [asked] approves [] rfl

/-- Denied after it was approved, the approval is denied. -/
theorem approved_then_denied :
    ¬ Final (Lts.run (apply .sample) empty [asked, approves]) ((Lts.run (apply .sample) empty [asked, approves]).apply .sample denies) := by
  intro hfinal
  have happroved : ((Lts.run (apply .sample) empty [asked, approves]).approvals "tc_1").map Row.status = some .approved := by
    decide +kernel
  have hdenied : (((Lts.run (apply .sample) empty [asked, approves]).apply .sample denies).approvals "tc_1").map Row.status =
      some .denied := by decide +kernel
  obtain ⟨row, hrow, hstatus⟩ := Option.map_eq_some_iff.mp happroved
  obtain ⟨row', hrow', hsame, -⟩ := hfinal.kept "tc_1" row hrow (by rw [hstatus]; simp)
  rw [hrow', Option.map_some, hsame, hstatus] at hdenied
  simp at hdenied

end Stores

end Approvals

end ActantDb
