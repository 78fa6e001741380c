import Mathlib.Algebra.Order.Field.Basic
import Mathlib.Algebra.Order.Field.Rat
import Mathlib.Data.List.Infix
import Mathlib.Tactic.Linarith
import ActantDb.Command.EventTypes

/-!
# The drift score

`score_session` counts events of a session by their names, and the fractions are taken exactly. Two of the names it looks for, `approval_required` and `approval_denied`, are of no event that the engine writes: an approval request is a row of its own table, and a denial is a `tool_call_denied`. So for what the engine has written the approval density and the denial rate are always zero, which is right only for sessions in which no tool call was ever put to approval.
-/

namespace ActantDb.Drift

/-! ### The program -/

structure DriftScore where
  score : ℚ
  approvalDensity : ℚ
  denialRate : ℚ
  errorRate : ℚ
  toolCalls : Nat

structure Counts where
  toolCalls : Nat := 0
  approvalsRequired : Nat := 0
  approvalsDenied : Nat := 0
  toolFinished : Nat := 0
  toolErrors : Nat := 0

def contains (text pattern : String) : Bool := decide (pattern.toList <:+: text.toList)

def reportsError (payload : Option String) : Bool :=
  payload.any fun p => contains p "\"status\":\"error\"" || contains p "\"error\":"

def Counts.count (c : Counts) (e : AgentEvent) : Counts :=
  match e.eventType with
  | "tool_call_requested" => { c with toolCalls := c.toolCalls + 1 }
  | "approval_required" => { c with approvalsRequired := c.approvalsRequired + 1 }
  | "approval_denied" => { c with approvalsDenied := c.approvalsDenied + 1 }
  | "tool_call_finished" =>
    { c with
      toolFinished := c.toolFinished + 1
      toolErrors := if reportsError e.payloadInline then c.toolErrors + 1 else c.toolErrors }
  | _ => c

/-- A fraction, zero of nothing. -/
def fraction (part whole : Nat) : ℚ := if whole = 0 then 0 else part / whole

def scoreSession (db : Db) (session : SessionId) : DriftScore :=
  let c := (db.eventsInSession session).foldl Counts.count {}
  let approvalDensity := fraction c.approvalsRequired c.toolCalls
  let denialRate := fraction c.approvalsDenied c.approvalsRequired
  let errorRate := fraction c.toolErrors c.toolFinished
  ⟨(approvalDensity + denialRate + errorRate) / 3, approvalDensity, denialRate, errorRate, c.toolCalls⟩

/-! ### What it is to measure -/

def toolCallsOf (db : Db) (session : SessionId) : List ToolCall := db.toolCall.rows.filter fun tc => tc.sessionId = some session

/-- The tool call has received an approval request. -/
def asked (db : Db) (tc : ToolCall) : Bool := db.approvalRequest.rows.any fun ar => ar.toolCallId = some tc.id

/-- The requests of a session's tool calls. -/
def requestsOf (db : Db) (session : SessionId) : List ApprovalRequest :=
  db.approvalRequest.rows.filter fun ar => (toolCallsOf db session).any fun tc => ar.toolCallId = some tc.id

def InUnit (x : ℚ) : Prop := 0 ≤ x ∧ x ≤ 1

/-- The density and the rate are those of the session, and nothing leaves the unit interval. -/
structure Measures (db : Db) (session : SessionId) (d : DriftScore) : Prop where
  approvalDensity : d.approvalDensity = fraction ((toolCallsOf db session).countP (asked db)) (toolCallsOf db session).length
  denialRate : d.denialRate =
    fraction ((requestsOf db session).countP fun ar => ar.status = .denied) (requestsOf db session).length
  densityInUnit : InUnit d.approvalDensity
  denialInUnit : InUnit d.denialRate
  errorInUnit : InUnit d.errorRate
  scoreInUnit : InUnit d.score

section Score

variable {db : Db} {session : SessionId} {part whole : Nat}

theorem fraction_zero : fraction 0 whole = 0 := by
  rw [fraction]
  split
  · rfl
  · rw [Nat.cast_zero, zero_div]

theorem inUnit_fraction (h : part ≤ whole) : InUnit (fraction part whole) := by
  rw [fraction]
  split
  next => exact ⟨le_refl 0, zero_le_one⟩
  next hwhole =>
    have hpos : (0 : ℚ) < whole := by exact_mod_cast Nat.pos_of_ne_zero hwhole
    refine ⟨div_nonneg (Nat.cast_nonneg part) hpos.le, (div_le_one hpos).mpr ?_⟩
    exact_mod_cast h

theorem fraction_pos (hpart : 0 < part) (h : part ≤ whole) : 0 < fraction part whole := by
  have hwhole : whole ≠ 0 := by omega
  rw [fraction, if_neg hwhole]
  have hp : (0 : ℚ) < part := by exact_mod_cast hpart
  have hw : (0 : ℚ) < whole := by exact_mod_cast Nat.pos_of_ne_zero hwhole
  exact div_pos hp hw

/-- What the loop keeps, over events of the engine: no approval is counted, and no more errors than results. -/
structure Counts.Sound (c : Counts) : Prop where
  required : c.approvalsRequired = 0
  denied : c.approvalsDenied = 0
  errors : c.toolErrors ≤ c.toolFinished

theorem Counts.Sound.count {c : Counts} {e : AgentEvent} (h : c.Sound) (he : e.eventType ∈ engineEventTypes) :
    (c.count e).Sound := by
  rw [Counts.count]
  split
  next => exact ⟨h.required, h.denied, h.errors⟩
  next htype =>
    rw [htype] at he
    exact absurd he (by decide)
  next htype =>
    rw [htype] at he
    exact absurd he (by decide)
  next =>
    refine ⟨h.required, h.denied, ?_⟩
    have herrors := h.errors
    dsimp only
    split <;> omega
  next => exact h

theorem sound_foldl {events : List AgentEvent} {c : Counts} (h : c.Sound)
    (hevents : ∀ e ∈ events, e.eventType ∈ engineEventTypes) : (events.foldl Counts.count c).Sound := by
  induction events generalizing c with
  | nil => exact h
  | cons e events ih =>
    exact ih (h.count (hevents e List.mem_cons_self)) fun e' he' => hevents e' (List.mem_cons_of_mem _ he')

theorem sound_session (session : SessionId) (h : EventsTyped db) :
    ((db.eventsInSession session).foldl Counts.count {}).Sound := by
  refine sound_foldl ⟨rfl, rfl, Nat.le_refl 0⟩ fun e he => ?_
  obtain ⟨r, hr, rfl⟩ := List.mem_map.mp he
  exact h r (Db.mem_sessionLine.mp (Db.mem_sessionRows.mp hr)).1

/-- Of what the engine has written, the score is a third of the error rate. -/
theorem scoreSession_written (session : SessionId) (h : EventsTyped db) :
    (scoreSession db session).approvalDensity = 0 ∧ (scoreSession db session).denialRate = 0 ∧
      InUnit (scoreSession db session).errorRate ∧
      (scoreSession db session).score = (scoreSession db session).errorRate / 3 := by
  obtain ⟨hrequired, hdenied, herrors⟩ := sound_session session h
  have hdensity : (scoreSession db session).approvalDensity = 0 := by
    rw [scoreSession]
    dsimp only
    rw [hrequired, fraction_zero]
  have hrate : (scoreSession db session).denialRate = 0 := by
    rw [scoreSession]
    dsimp only
    rw [hdenied, fraction_zero]
  refine ⟨hdensity, hrate, inUnit_fraction herrors, ?_⟩
  show ((scoreSession db session).approvalDensity + (scoreSession db session).denialRate +
    (scoreSession db session).errorRate) / 3 = _
  rw [hdensity, hrate, zero_add, zero_add]

theorem measures_iff (h : EventsTyped db) :
    Measures db session (scoreSession db session) ↔ ∀ tc ∈ toolCallsOf db session, asked db tc = false := by
  obtain ⟨hdensity, hrate, herror, hscore⟩ := scoreSession_written session h
  constructor
  · intro hmeasures tc htc
    by_contra hasked
    have hpos : 0 < (toolCallsOf db session).countP (asked db) :=
      List.countP_pos_iff.mpr ⟨tc, htc, Bool.not_eq_false _ ▸ hasked⟩
    have hne := (fraction_pos hpos List.countP_le_length).ne'
    rw [← hmeasures.approvalDensity, hdensity] at hne
    exact hne rfl
  · intro hnone
    have hcount : (toolCallsOf db session).countP (asked db) = 0 :=
      List.countP_eq_zero.mpr fun tc htc => Bool.eq_false_iff.mp (hnone tc htc)
    have hrequests : requestsOf db session = [] := by
      refine List.filter_eq_nil_iff.mpr fun ar har hof => ?_
      obtain ⟨tc, htc, hlink⟩ := List.any_eq_true.mp hof
      have hasked : asked db tc = true := List.any_eq_true.mpr ⟨ar, har, hlink⟩
      rw [hnone tc htc] at hasked
      cases hasked
    have hunit : InUnit 0 := ⟨le_refl 0, zero_le_one⟩
    refine ⟨?_, ?_, hdensity ▸ hunit, hrate ▸ hunit, herror, ?_⟩
    · rw [hdensity, hcount, fraction_zero]
    · rw [hrate, hrequests]
      rfl
    · rw [hscore]
      exact ⟨by linarith [herror.1], by linarith [herror.2]⟩

end Score

/-- **The score measures a session** of interleaved dispatches if and only if no tool call of the session has received an approval request. -/
theorem score_measures_iff {ι : Type} [DecidableEq ι] (X : Crates) (policy : PolicyDoc) (E : Env) (calls : ι → Call)
    (schedule : List ι) (session : SessionId) :
    let db := (Lts.run (Pool.step (handle E)) (Pool.init (World.start .empty) fun i => dispatch X policy (calls i))
      schedule).world.db
    Measures db session (scoreSession db session) ↔ ∀ tc ∈ toolCallsOf db session, asked db tc = false :=
  measures_iff (eventsTyped_run X policy E calls schedule)

/-- A session is created, and then a tool call is put to approval. -/
def createAndRequest : Bool → Call
  | true => Call.sample "create_session" [("session_id", "sess_demo")]
  | false => Call.sample "request_tool_call" [("session_id", "sess_demo"), ("tool_name", "shell.run")]

/-- The one tool call has received a request, and the density is zero. -/
def askedOnce : Db :=
  (Lts.run (Pool.step (handle .wholeSeconds))
    (Pool.init (World.start .empty) fun i => dispatch Crates.sample alphaDemoPolicy (createAndRequest i))
    (List.replicate 20 true ++ List.replicate 30 false)).world.db

theorem askedOnce_not_measured : ¬ Measures askedOnce "sess_demo" (scoreSession askedOnce "sess_demo") := by
  intro h
  have hone : (toolCallsOf askedOnce "sess_demo").countP (asked askedOnce) = 1 ∧
      (toolCallsOf askedOnce "sess_demo").length = 1 := by
    decide +kernel
  have hdensity := h.approvalDensity
  have hzero := (scoreSession_written "sess_demo"
    (eventsTyped_run Crates.sample alphaDemoPolicy .wholeSeconds createAndRequest
      (List.replicate 20 true ++ List.replicate 30 false))).1
  rw [hone.1, hone.2] at hdensity
  exact absurd (hzero.symm.trans hdensity) (fraction_pos Nat.one_pos (Nat.le_refl 1)).ne

end ActantDb.Drift
