import ActantDb.Ledger.Approvals
import ActantDb.Lib.EState
import ActantDb.Policy.Guard

/-!
# The gate of a tool call

`runGatedTool` asks the policy, asks for an approval where the policy says so, and calls the tool at most once. What it records goes through the run context, of which any call may throw. The tool is called with what the policy and the approver let through and with nothing else (`gated`). That the end of the call is recorded is another matter: only the tool stands in a `try`, so where the approver throws, or a record before the tool fails, there is no `tool_call_completed` (`protocol_iff`).
-/

namespace ActantDb

namespace Mastra

open Approvals (Decision)
open Guard (Policy PolicyVerdict)

/-- What is thrown: an `Error`, or any other value. -/
inductive Raised where
  | error (e : Thrown)
  | value (v : JsValue)

/-- What a call of the gate depends on besides its arguments. -/
structure GateEnv where
  library : JsLibrary
  /-- What each call on the run context throws, if it does. -/
  fault : Nat → Option Raised
  /-- `Math.round(performance.now() - t0)`. -/
  elapsed : Nat → F64
  /-- `String(v)`. -/
  stringOf : JsValue → Except Thrown String

/-- Nothing throws. -/
def GateEnv.sample : GateEnv := ⟨.sample, fun _ => none, fun _ => ⟨0⟩, fun _ => .ok ""⟩

/-- What has been appended to the ledger, how many calls on the run context there were, and what the tool was called with. -/
structure GateState where
  recorded : List AppendInput
  attempts : Nat
  calls : List JsValue

def GateState.start : GateState := ⟨[], 0, []⟩

abbrev Gate := EStateM Raised GateState

structure Options where
  autoApprove : Bool
  /-- With the request and the verdict, it returns or throws. -/
  resolveApproval : Option (JsValue → PolicyVerdict → Except Raised Decision)

structure GatedCall where
  runId : String
  policy : Policy
  toolName : String
  args : JsValue
  /-- With the final arguments, the tool returns or throws. -/
  execute : JsValue → Except Raised JsValue
  opts : Options
  /-- The ULID of the call. -/
  toolCallId : String

variable (E : GateEnv)

/-! ### The run context -/

/-- A call on a store, which may throw. -/
def attempt : Gate Unit := fun s =>
  let tried := { s with attempts := s.attempts + 1 }
  match E.fault s.attempts with
  | some r => .error r tried
  | none => .ok () tried

/-- `ledger.append`. -/
def append (input : AppendInput) : Gate Unit := do
  attempt E
  modify fun s => { s with recorded := s.recorded ++ [input] }

def liftExcept {α : Type} : Except Raised α → Gate α
  | .ok a => pure a
  | .error r => throw r

namespace GatedCall

variable (c : GatedCall)

def request : JsValue :=
  .object [("tool_call_id", .string c.toolCallId), ("tool", .string c.toolName), ("args", c.args.orEmpty), ("risk", .string "low")]

def requested : AppendInput := ⟨.toolCallRequested, c.runId, c.request⟩

def verdictInput (v : PolicyVerdict) : AppendInput :=
  ⟨.guardVerdict, c.runId, .object (("tool_call_id", .string c.toolCallId) :: v.entries)⟩

def requiredInput (v : PolicyVerdict) : AppendInput :=
  ⟨.approvalRequired, c.runId,
    .object ([("tool_call_id", .string c.toolCallId), ("tool", .string c.toolName), ("args", c.args.orEmpty),
      ("reason", .string v.reason)] ++ v.hint.toList.map (fun hint => ("hint", .string hint)) ++
      v.constrainedInput.toList.map fun args => ("constrained_input", args))⟩

def startedInput (finalArgs : JsValue) : AppendInput :=
  ⟨.toolCallStarted, c.runId, .object [("tool_call_id", .string c.toolCallId), ("final_args", finalArgs)]⟩

def completedInput (status : String) (result : JsValue) (elapsed : F64) : AppendInput :=
  ⟨.toolCallCompleted, c.runId,
    .object [("tool_call_id", .string c.toolCallId), ("status", .string status), ("result", result), ("duration_ms", .number elapsed)]⟩

def recordToolCallRequested : Gate Unit := append E c.requested

def recordGuardVerdict (v : PolicyVerdict) : Gate Unit := append E (c.verdictInput v)

/-- `enqueue`, `append` and `get`. -/
def recordApprovalRequired (v : PolicyVerdict) : Gate Unit := do
  attempt E
  append E (c.requiredInput v)
  attempt E

/-- `decide` and `append`. -/
def recordApprovalDecision (decision : Decision) : Gate Unit := do
  attempt E
  append E (Approvals.decisionInput c.runId c.toolCallId decision)

def recordToolCallStarted (finalArgs : JsValue) : Gate Unit := append E (c.startedInput finalArgs)

/-- `duration_ms` is read before the event is appended. -/
def recordToolCallCompleted (status : String) (result : JsValue) : Gate Unit := fun s =>
  append E (c.completedInput status result (E.elapsed s.attempts)) s

/-! ### The call -/

def resolveApproval (v : PolicyVerdict) : Except Raised Decision :=
  match c.opts.resolveApproval with
  | some resolver => resolver c.request v
  | none =>
    if c.opts.autoApprove then
      match v.decision, v.constrainedInput with
      | .requireApproval, some constrained => .ok (.approveConstrained "auto" "once" constrained)
      | _, _ => .ok (.approve "auto" "once")
    else .ok (.deny "system" "no approver attached and autoApprove=false")

/-- `evaluate(policy, req)`. -/
def verdict : Except Raised PolicyVerdict :=
  match Guard.evaluate E.library c.policy c.request with
  | .ok v => .ok v
  | .error e => .error (.error e)

/-- `(e as Error).message ?? String(e)`. -/
def errorText : Raised → Except Raised JsValue
  | .error e => .ok (.string e.message)
  | .value v =>
    match v.read "message" with
    | .error e => .error (.error e)
    | .ok .undefined | .ok .null =>
      match E.stringOf v with
      | .ok text => .ok (.string text)
      | .error e => .error (.error e)
    | .ok message => .ok message

def callTool (finalArgs : JsValue) : Gate JsValue := fun s =>
  liftExcept (c.execute finalArgs) { s with calls := s.calls ++ [finalArgs] }

/-- What is in the `try`. -/
def tryTool (finalArgs : JsValue) : Gate JsValue := do
  let out ← c.callTool finalArgs
  c.recordToolCallCompleted E "ok" out
  return out

/-- The `catch`. -/
def onThrow (e : Raised) : Gate JsValue := do
  let text ← liftExcept (errorText E e)
  c.recordToolCallCompleted E "error" (.object [("error", text)])
  throw e

/-- From `recordToolCallStarted` on. -/
def runTool (finalArgs : JsValue) : Gate JsValue := do
  c.recordToolCallStarted E finalArgs
  tryCatch (c.tryTool E finalArgs) (c.onThrow E)

def reasonObject (reason : String) : JsValue := .object [("reason", .string reason)]

/-- What follows a decision of the approver. -/
def actOnDecision : Decision → Gate JsValue
  | .deny _ reason => do
    c.recordToolCallCompleted E "denied" (reasonObject reason)
    return .object [("denied", .bool true), ("reason", .string reason)]
  | .approveConstrained _ _ acceptedInput => c.runTool E acceptedInput
  | .approve _ _ => c.runTool E c.args.orEmpty

def askApproval (v : PolicyVerdict) : Gate JsValue := do
  c.recordApprovalRequired E v
  let decision ← liftExcept (c.resolveApproval v)
  c.recordApprovalDecision E decision
  c.actOnDecision E decision

/-- What follows the verdict. -/
def actOn (v : PolicyVerdict) : Gate JsValue :=
  match v.decision with
  | .halt => do
    c.recordToolCallCompleted E "blocked" (reasonObject v.reason)
    throw (.error ⟨"Error", "Actant Guard halted run: " ++ v.reason⟩)
  | .block => do
    c.recordToolCallCompleted E "blocked" (reasonObject v.reason)
    return .object [("blocked", .bool true), ("reason", .string v.reason)]
  | .constrain => c.runTool E (v.constrainedInput.getD .undefined)
  | .allow => c.runTool E c.args.orEmpty
  | .requireApproval => c.askApproval E v

def runGatedTool : Gate JsValue := do
  c.recordToolCallRequested E
  let v ← liftExcept (c.verdict E)
  c.recordGuardVerdict E v
  c.actOn E v

/-- What a call leaves, however it ends. -/
def final : GateState := (c.runGatedTool E .start).state

/-! ### The protocol -/

/-- What an approver lets through. -/
def throughDecision : Except Raised Decision → Option JsValue
  | .ok (.approve _ _) => some c.args.orEmpty
  | .ok (.approveConstrained _ _ acceptedInput) => some acceptedInput
  | .ok (.deny _ _) => none
  | .error _ => none

/-- What a verdict lets through. -/
def throughVerdict (v : PolicyVerdict) : Option JsValue :=
  match v.decision with
  | .allow => some c.args.orEmpty
  | .constrain => some (v.constrainedInput.getD .undefined)
  | .requireApproval => c.throughDecision (c.resolveApproval v)
  | .block => none
  | .halt => none

/-- What the tool may be called with: the arguments of the request, which are `{}` where none are given, the constrained input, or what the approver has accepted. -/
def permitted : Option JsValue := (c.verdict E).toOption.bind c.throughVerdict

/-- The events of a kind that have been recorded. -/
def ofKind (kind : EventKind) (s : GateState) : List AppendInput := s.recorded.filter fun e => e.kind = kind

/-- One completion is recorded, and the tool is called at most once, with what is permitted and recorded as its start. -/
structure Protocol (s : GateState) : Prop where
  once : s.calls.length ≤ 1
  permitted : ∀ a ∈ s.calls, c.permitted E = some a
  started : ofKind .toolCallStarted s = s.calls.map c.startedInput
  completed : (ofKind .toolCallCompleted s).length = 1

/-- The end of the tool is recorded: the `n`-th call on the run context records its start, and then there is something to record. -/
def ToolCompletes (n : Nat) (finalArgs : JsValue) : Prop :=
  E.fault n = none ∧
    match c.execute finalArgs with
    | .ok _ => E.fault (n + 1) = none ∨ ∃ r text, E.fault (n + 1) = some r ∧ errorText E r = .ok text ∧ E.fault (n + 2) = none
    | .error e => (∃ text, errorText E e = .ok text) ∧ E.fault (n + 1) = none

def DecisionCompletes : Decision → Prop
  | .deny _ _ => E.fault 7 = none
  | .approveConstrained _ _ acceptedInput => c.ToolCompletes E 7 acceptedInput
  | .approve _ _ => c.ToolCompletes E 7 c.args.orEmpty

def ApprovalCompletes (v : PolicyVerdict) : Prop :=
  E.fault 2 = none ∧ E.fault 3 = none ∧ E.fault 4 = none ∧
    ∃ decision, c.resolveApproval v = .ok decision ∧
      E.fault 5 = none ∧ E.fault 6 = none ∧ c.DecisionCompletes E decision

def VerdictCompletes (v : PolicyVerdict) : Prop :=
  match v.decision with
  | .halt => E.fault 2 = none
  | .block => E.fault 2 = none
  | .constrain => c.ToolCompletes E 2 (v.constrainedInput.getD .undefined)
  | .allow => c.ToolCompletes E 2 c.args.orEmpty
  | .requireApproval => c.ApprovalCompletes E v

/-- Nothing throws on the way but the tool or the record of what it returned. -/
def Completes : Prop :=
  E.fault 0 = none ∧ ∃ v, c.verdict E = .ok v ∧ E.fault 1 = none ∧ c.VerdictCompletes E v

end GatedCall

/-! ### Steps -/

section Steps

variable {E} {s : GateState} {input : AppendInput} {r : Raised}

theorem attempt_ok (h : E.fault s.attempts = none) : attempt E s = .ok () { s with attempts := s.attempts + 1 } := by
  simp only [attempt, h]

theorem attempt_error (h : E.fault s.attempts = some r) : attempt E s = .error r { s with attempts := s.attempts + 1 } := by
  simp only [attempt, h]

theorem append_ok (h : E.fault s.attempts = none) :
    append E input s = .ok () ⟨s.recorded ++ [input], s.attempts + 1, s.calls⟩ := by
  rw [append, EStateM.bind_of_ok (attempt_ok h)]
  rfl

theorem append_error (h : E.fault s.attempts = some r) :
    append E input s = .error r { s with attempts := s.attempts + 1 } := by
  rw [append, EStateM.bind_of_error (attempt_error h)]

end Steps

namespace GatedCall

variable {E} {c : GatedCall} {s : GateState} {finalArgs : JsValue} {e : Raised}

theorem liftExcept_error {α : Type} {x : Except Raised α} (h : x = .error e) : liftExcept x s = .error e s := by
  rw [h]
  rfl

theorem liftExcept_ok {α : Type} {x : Except Raised α} {a : α} (h : x = .ok a) : liftExcept x s = .ok a s := by
  rw [h]
  rfl

theorem callTool_error (h : c.execute finalArgs = .error e) :
    c.callTool finalArgs s = .error e { s with calls := s.calls ++ [finalArgs] } := liftExcept_error h

theorem callTool_ok {out : JsValue} (h : c.execute finalArgs = .ok out) :
    c.callTool finalArgs s = .ok out { s with calls := s.calls ++ [finalArgs] } := liftExcept_ok h

theorem recordToolCallCompleted_ok {status : String} {result : JsValue} (h : E.fault s.attempts = none) :
    c.recordToolCallCompleted E status result s =
      .ok () ⟨s.recorded ++ [c.completedInput status result (E.elapsed s.attempts)], s.attempts + 1, s.calls⟩ := append_ok h

theorem recordToolCallCompleted_error {status : String} {result : JsValue} (h : E.fault s.attempts = some e) :
    c.recordToolCallCompleted E status result s = .error e { s with attempts := s.attempts + 1 } := append_error h

/-- The end of the call is recorded in `s'`, or nothing is. -/
def Ends (c : GatedCall) (s s' : GateState) (recorded : Prop) : Prop :=
  s'.calls = s.calls ∧
    ((recorded ∧ ∃ status result elapsed, s'.recorded = s.recorded ++ [c.completedInput status result elapsed]) ∨
      ¬ recorded ∧ s'.recorded = s.recorded)

theorem onThrow_ends (e : Raised) :
    Ends c s (c.onThrow E e s).state ((∃ text, errorText E e = .ok text) ∧ E.fault s.attempts = none) := by
  rw [onThrow]
  cases htext : errorText E e with
  | error e' =>
    rw [EStateM.bind_of_error (liftExcept_error rfl)]
    refine ⟨rfl, Or.inr ⟨?_, rfl⟩⟩
    rintro ⟨⟨text, htext'⟩, -⟩
    cases htext'
  | ok text =>
    rw [EStateM.bind_of_ok (liftExcept_ok rfl)]
    cases hfault : E.fault s.attempts with
    | none =>
      rw [EStateM.bind_of_ok (recordToolCallCompleted_ok hfault)]
      exact ⟨rfl, Or.inl ⟨⟨⟨text, rfl⟩, rfl⟩, _, _, _, rfl⟩⟩
    | some r =>
      rw [EStateM.bind_of_error (recordToolCallCompleted_error hfault)]
      exact ⟨rfl, Or.inr ⟨fun hends => Option.some_ne_none r hends.2, rfl⟩⟩

/-- The tool is called, and then the end is recorded or not. -/
theorem tryTool_ends (hstart : E.fault s.attempts = none) :
    Ends c { s with recorded := s.recorded ++ [c.startedInput finalArgs], calls := s.calls ++ [finalArgs] }
      (tryCatch (c.tryTool E finalArgs) (c.onThrow E) ⟨s.recorded ++ [c.startedInput finalArgs], s.attempts + 1, s.calls⟩).state
      (c.ToolCompletes E s.attempts finalArgs) := by
  rw [ToolCompletes, and_iff_right hstart]
  cases hexecute : c.execute finalArgs with
  | error e =>
    have htry : c.tryTool E finalArgs ⟨s.recorded ++ [c.startedInput finalArgs], s.attempts + 1, s.calls⟩ =
        .error e ⟨s.recorded ++ [c.startedInput finalArgs], s.attempts + 1, s.calls ++ [finalArgs]⟩ := by
      rw [tryTool, EStateM.bind_of_error (callTool_error hexecute)]
    rw [EStateM.tryCatch_of_error htry]
    exact onThrow_ends e
  | ok out =>
    cases hfirst : E.fault (s.attempts + 1) with
    | none =>
      have htry : c.tryTool E finalArgs ⟨s.recorded ++ [c.startedInput finalArgs], s.attempts + 1, s.calls⟩ =
          .ok out ⟨s.recorded ++ [c.startedInput finalArgs] ++ [c.completedInput "ok" out (E.elapsed (s.attempts + 1))],
            s.attempts + 2, s.calls ++ [finalArgs]⟩ := by
        rw [tryTool, EStateM.bind_of_ok (callTool_ok hexecute), EStateM.bind_of_ok (recordToolCallCompleted_ok hfirst)]
        rfl
      rw [EStateM.tryCatch_of_ok htry]
      exact ⟨rfl, Or.inl ⟨Or.inl rfl, _, _, _, rfl⟩⟩
    | some r =>
      have htry : c.tryTool E finalArgs ⟨s.recorded ++ [c.startedInput finalArgs], s.attempts + 1, s.calls⟩ =
          .error r ⟨s.recorded ++ [c.startedInput finalArgs], s.attempts + 2, s.calls ++ [finalArgs]⟩ := by
        rw [tryTool, EStateM.bind_of_ok (callTool_ok hexecute), EStateM.bind_of_error (recordToolCallCompleted_error hfirst)]
      rw [EStateM.tryCatch_of_error htry]
      have hiff : (some r = none ∨ ∃ r' text, some r = some r' ∧ errorText E r' = .ok text ∧ E.fault (s.attempts + 2) = none) ↔
          (∃ text, errorText E r = .ok text) ∧ E.fault (s.attempts + 2) = none := by
        constructor
        · rintro (hnone | ⟨r', text, hr, htext, hfault⟩)
          · cases hnone
          · cases hr
            exact ⟨⟨text, htext⟩, hfault⟩
        · rintro ⟨⟨text, htext⟩, hfault⟩
          exact Or.inr ⟨r, text, rfl, htext, hfault⟩
      dsimp only
      rw [hiff]
      exact onThrow_ends r

/-- What a call does from `recordToolCallStarted` on: nothing where the start cannot be recorded, and else it calls the tool. -/
theorem runTool_run (E : GateEnv) (c : GatedCall) (s : GateState) (finalArgs : JsValue) :
    (E.fault s.attempts ≠ none ∧ (c.runTool E finalArgs s).state = { s with attempts := s.attempts + 1 }) ∨
      Ends c { s with recorded := s.recorded ++ [c.startedInput finalArgs], calls := s.calls ++ [finalArgs] }
        (c.runTool E finalArgs s).state (c.ToolCompletes E s.attempts finalArgs) := by
  rw [runTool, recordToolCallStarted]
  cases hstart : E.fault s.attempts with
  | some r =>
    rw [EStateM.bind_of_error (append_error hstart)]
    exact Or.inl ⟨Option.some_ne_none r, rfl⟩
  | none =>
    rw [EStateM.bind_of_ok (append_ok hstart)]
    exact Or.inr (tryTool_ends hstart)

/-! ### What the tool is called with -/

/-- What holds of the state whatever is recorded under the run, and with whatever permitted arguments the tool is called. -/
structure Stable (E : GateEnv) (c : GatedCall) (I : GateState → Prop) : Prop where
  tried : ∀ s, I s → I { s with attempts := s.attempts + 1 }
  recorded : ∀ s input, input.runId = c.runId → I s → I ⟨s.recorded ++ [input], s.attempts + 1, s.calls⟩
  called : ∀ s a, c.permitted E = some a → I s → I { s with calls := s.calls ++ [a] }

section Stable

variable {I : GateState → Prop} (hI : c.Stable E I)

include hI

theorem keeps_attempt : (attempt E).Keeps I := by
  intro s hs
  cases hfault : E.fault s.attempts with
  | none =>
    rw [attempt_ok hfault]
    exact hI.tried s hs
  | some r =>
    rw [attempt_error hfault]
    exact hI.tried s hs

theorem keeps_append {input : AppendInput} (hrun : input.runId = c.runId) : (append E input).Keeps I := by
  intro s hs
  cases hfault : E.fault s.attempts with
  | none =>
    rw [append_ok hfault]
    exact hI.recorded s input hrun hs
  | some r =>
    rw [append_error hfault]
    exact hI.tried s hs

theorem keeps_completed (status : String) (result : JsValue) : (c.recordToolCallCompleted E status result).Keeps I :=
  fun s hs => keeps_append hI rfl s hs

omit hI in
theorem keeps_liftExcept_bind {α β : Type} {x : Except Raised α} {f : α → Gate β}
    (h : ∀ a, x = .ok a → (f a).Keeps I) : (liftExcept x >>= f).Keeps I := by
  cases x with
  | error e => exact fun s hs => hs
  | ok a => exact h a rfl

theorem keeps_runTool (h : c.permitted E = some finalArgs) : (c.runTool E finalArgs).Keeps I := by
  have htool : (c.callTool finalArgs).Keeps I := by
    intro s hs
    cases hexecute : c.execute finalArgs with
    | error e =>
      rw [callTool_error hexecute]
      exact hI.called s finalArgs h hs
    | ok out =>
      rw [callTool_ok hexecute]
      exact hI.called s finalArgs h hs
  have htry : (c.tryTool E finalArgs).Keeps I :=
    EStateM.keeps_bind htool fun out => EStateM.keeps_bind (keeps_completed hI "ok" out) fun _ => EStateM.keeps_pure out
  have hcatch (e : Raised) : (c.onThrow E e).Keeps I :=
    keeps_liftExcept_bind fun _ _ => EStateM.keeps_bind (keeps_completed hI "error" _) fun _ => EStateM.keeps_throw e
  exact EStateM.keeps_bind (keeps_append hI rfl) fun _ => EStateM.keeps_tryCatch htry hcatch

theorem keeps_askApproval {v : PolicyVerdict} (h : c.permitted E = c.throughDecision (c.resolveApproval v)) :
    (c.askApproval E v).Keeps I := by
  refine EStateM.keeps_bind ?_ fun _ => keeps_liftExcept_bind fun decision hresolve => ?_
  · exact EStateM.keeps_bind (keeps_attempt hI) fun _ => EStateM.keeps_bind (keeps_append hI rfl) fun _ => keeps_attempt hI
  refine EStateM.keeps_bind (EStateM.keeps_bind (keeps_attempt hI) fun _ => keeps_append hI rfl) fun _ => ?_
  rw [hresolve] at h
  cases decision with
  | deny approver reason => exact EStateM.keeps_bind (keeps_completed hI _ _) fun _ => EStateM.keeps_pure _
  | approveConstrained approver scope acceptedInput => exact keeps_runTool hI h
  | approve approver scope => exact keeps_runTool hI h

theorem keeps_actOn {v : PolicyVerdict} (h : c.permitted E = c.throughVerdict v) : (c.actOn E v).Keeps I := by
  rw [throughVerdict] at h
  rw [actOn]
  cases hdecision : v.decision with
  | halt => exact EStateM.keeps_bind (keeps_completed hI _ _) fun _ => EStateM.keeps_throw _
  | block => exact EStateM.keeps_bind (keeps_completed hI _ _) fun _ => EStateM.keeps_pure _
  | constrain =>
    rw [hdecision] at h
    exact keeps_runTool hI h
  | allow =>
    rw [hdecision] at h
    exact keeps_runTool hI h
  | requireApproval =>
    rw [hdecision] at h
    exact keeps_askApproval hI h

/-- What is done once the request is recorded. -/
theorem keeps_judge : (do let v ← liftExcept (c.verdict E); c.recordGuardVerdict E v; c.actOn E v).Keeps I := by
  refine keeps_liftExcept_bind fun v hverdict => ?_
  refine EStateM.keeps_bind (keeps_append hI rfl) fun _ => keeps_actOn hI ?_
  rw [GatedCall.permitted, hverdict]
  rfl

theorem keeps_runGatedTool : (c.runGatedTool E).Keeps I := EStateM.keeps_bind (keeps_append hI rfl) fun _ => keeps_judge hI

end Stable

/-- Every event carries the id of the run, and the tool has been called with nothing but what is permitted. -/
structure Gated (E : GateEnv) (c : GatedCall) (s : GateState) : Prop where
  filed : ∀ e ∈ s.recorded, e.runId = c.runId
  permitted : ∀ a ∈ s.calls, c.permitted E = some a

theorem gated_stable (E : GateEnv) (c : GatedCall) : c.Stable E (Gated E c) where
  tried _ hs := ⟨hs.filed, hs.permitted⟩
  recorded s input hrun hs := by
    refine ⟨fun e he => ?_, hs.permitted⟩
    rcases List.mem_append.mp he with hold | hnew
    · exact hs.filed e hold
    · rw [List.mem_singleton.mp hnew, hrun]
  called s a ha hs := by
    refine ⟨hs.filed, fun b hb => ?_⟩
    rcases List.mem_append.mp hb with hold | hnew
    · exact hs.permitted b hold
    · rw [List.mem_singleton.mp hnew, ha]

/-- However a call ends, what it has recorded is under its run, and the tool got only what is permitted. -/
theorem gated (E : GateEnv) (c : GatedCall) : Gated E c (c.final E) :=
  keeps_runGatedTool (gated_stable E c) .start ⟨List.forall_mem_nil _, List.forall_mem_nil _⟩

/-- Nothing is taken back: once the request is recorded, it stays. -/
theorem requested_recorded (h : E.fault 0 = none) : c.requested ∈ (c.final E).recorded := by
  have hstable : c.Stable E fun s => c.requested ∈ s.recorded :=
    ⟨fun _ hs => hs, fun _ _ _ hs => List.mem_append_left _ hs, fun _ _ _ hs => hs⟩
  have hfirst : c.recordToolCallRequested E .start = .ok () ⟨[c.requested], 1, []⟩ := append_ok h
  rw [final, runGatedTool, EStateM.bind_of_ok hfirst]
  exact keeps_judge hstable ⟨[c.requested], 1, []⟩ List.mem_cons_self

theorem final_of_fault {r : Raised} (h : E.fault 0 = some r) : c.final E = ⟨[], 1, []⟩ := by
  have hfirst : c.recordToolCallRequested E .start = .error r ⟨[], 1, []⟩ := append_error h
  rw [final, runGatedTool, EStateM.bind_of_error hfirst]
  rfl

/-! ### What is recorded -/

/-- The tool has not been called, nor has a start or an end been recorded. -/
def Quiet (s : GateState) : Prop :=
  s.calls = [] ∧ ∀ e ∈ s.recorded, e.kind ∉ [EventKind.toolCallStarted, .toolCallCompleted]

theorem ofKind_append {kind : EventKind} {input : AppendInput} {recorded : List AppendInput} {n : Nat} {calls : List JsValue} :
    ofKind kind ⟨recorded ++ [input], n, calls⟩ =
      ofKind kind ⟨recorded, n, calls⟩ ++ if input.kind = kind then [input] else [] := by
  simp only [ofKind, List.filter_append, List.filter_singleton, Bool.cond_decide]

theorem ofKind_quiet (h : Quiet s) {kind : EventKind} (hkind : kind ∈ [EventKind.toolCallStarted, .toolCallCompleted]) :
    ofKind kind s = [] := by
  refine List.filter_eq_nil_iff.mpr fun e he hmarked => h.2 e he ?_
  rw [of_decide_eq_true hmarked]
  exact hkind

theorem ofKind_started (h : Quiet s) : ofKind .toolCallStarted s = [] := ofKind_quiet h List.mem_cons_self

theorem ofKind_completed (h : Quiet s) : ofKind .toolCallCompleted s = [] :=
  ofKind_quiet h (List.mem_cons_of_mem _ List.mem_cons_self)

theorem not_protocol (h : Quiet s) : ¬ c.Protocol E s := by
  intro hprotocol
  have hcompleted := hprotocol.completed
  rw [ofKind_completed h] at hcompleted
  cases hcompleted

theorem quiet_append {input : AppendInput} (h : Quiet s) (kind : EventKind) (hkind : input.kind = kind)
    (hquiet : kind ∉ [EventKind.toolCallStarted, .toolCallCompleted]) (n : Nat) :
    Quiet ⟨s.recorded ++ [input], n, s.calls⟩ := by
  refine ⟨h.1, fun e he => ?_⟩
  rcases List.mem_append.mp he with hold | hnew
  · exact h.2 e hold
  · rw [List.mem_singleton.mp hnew, hkind]
    exact hquiet

/-! ### The protocol, step by step -/

section Protocol

variable {α : Type} {f : Unit → Gate α} {input : AppendInput}

theorem protocol_attempt (h : Quiet s) :
    c.Protocol E ((attempt E >>= f) s).state ↔
      E.fault s.attempts = none ∧ c.Protocol E (f () { s with attempts := s.attempts + 1 }).state := by
  cases hfault : E.fault s.attempts with
  | none =>
    rw [EStateM.bind_of_ok (attempt_ok hfault)]
    exact (and_iff_right rfl).symm
  | some r =>
    rw [EStateM.bind_of_error (attempt_error hfault)]
    exact iff_of_false (not_protocol h) fun hnone => Option.some_ne_none r hnone.1

theorem protocol_append (h : Quiet s) :
    c.Protocol E ((append E input >>= f) s).state ↔
      E.fault s.attempts = none ∧
        c.Protocol E (f () ⟨s.recorded ++ [input], s.attempts + 1, s.calls⟩).state := by
  cases hfault : E.fault s.attempts with
  | none =>
    rw [EStateM.bind_of_ok (append_ok hfault)]
    exact (and_iff_right rfl).symm
  | some r =>
    rw [EStateM.bind_of_error (append_error hfault)]
    exact iff_of_false (not_protocol h) fun hnone => Option.some_ne_none r hnone.1

theorem protocol_error {β : Type} {x : Except Raised β} {g : β → Gate α} (h : Quiet s) (he : x = .error e) :
    ¬ c.Protocol E ((liftExcept x >>= g) s).state := by
  rw [EStateM.bind_of_error (liftExcept_error he)]
  exact not_protocol h

/-- The last step of a call that the tool has no part in. -/
theorem protocol_completed {status : String} {result : JsValue} (h : Quiet s) (hf : ∀ s', (f () s').state = s') :
    c.Protocol E ((c.recordToolCallCompleted E status result >>= f) s).state ↔ E.fault s.attempts = none := by
  cases hfault : E.fault s.attempts with
  | none =>
    rw [EStateM.bind_of_ok (recordToolCallCompleted_ok hfault), hf]
    refine iff_of_true ⟨?_, ?_, ?_, ?_⟩ rfl
    · rw [h.1]
      exact Nat.zero_le 1
    · rw [h.1]
      exact List.forall_mem_nil _
    · rw [ofKind_append, h.1]
      have hnone : ofKind .toolCallStarted ⟨s.recorded, s.attempts + 1, []⟩ = [] := ofKind_started ⟨rfl, h.2⟩
      rw [hnone]
      rfl
    · rw [ofKind_append]
      have hnone : ofKind .toolCallCompleted ⟨s.recorded, s.attempts + 1, s.calls⟩ = [] := ofKind_completed ⟨h.1, h.2⟩
      rw [hnone]
      rfl
  | some r =>
    rw [EStateM.bind_of_error (recordToolCallCompleted_error hfault)]
    exact iff_of_false (not_protocol h) (Option.some_ne_none r)

/-- The last step of a call that has the tool called. -/
theorem protocol_runTool (h : Quiet s) :
    c.Protocol E (c.runTool E finalArgs s).state ↔ c.permitted E = some finalArgs ∧ c.ToolCompletes E s.attempts finalArgs := by
  rcases runTool_run E c s finalArgs with ⟨hstart, hstate⟩ | ⟨hcalls, hends⟩
  · rw [hstate]
    exact iff_of_false (not_protocol h) fun hcompletes => hstart hcompletes.2.1
  · have hstarted (n : Nat) (calls : List JsValue) :
        ofKind .toolCallStarted ⟨s.recorded ++ [c.startedInput finalArgs], n, calls⟩ = [c.startedInput finalArgs] := by
      rw [ofKind_append]
      have hnone : ofKind .toolCallStarted ⟨s.recorded, n, calls⟩ = [] := ofKind_started (s := ⟨s.recorded, n, []⟩) ⟨rfl, h.2⟩
      rw [hnone]
      rfl
    have hcompleted (n : Nat) (calls : List JsValue) :
        ofKind .toolCallCompleted ⟨s.recorded ++ [c.startedInput finalArgs], n, calls⟩ = [] := by
      rw [ofKind_append]
      have hnone : ofKind .toolCallCompleted ⟨s.recorded, n, calls⟩ = [] := ofKind_completed (s := ⟨s.recorded, n, []⟩) ⟨rfl, h.2⟩
      rw [hnone]
      rfl
    cases hfinal : (c.runTool E finalArgs s).state with
    | mk recorded n calls =>
      rw [hfinal] at hcalls hends
      simp only [h.1, List.nil_append] at hcalls hends
      subst hcalls
      rcases hends with ⟨hcompletes, status, result, elapsed, rfl⟩ | ⟨hcompletes, rfl⟩
      · rw [and_iff_left hcompletes]
        constructor
        · exact fun hprotocol => hprotocol.permitted finalArgs List.mem_cons_self
        · intro hpermitted
          refine ⟨Nat.le_refl 1, fun a ha => ?_, ?_, ?_⟩
          · rw [List.mem_singleton.mp ha, hpermitted]
          · rw [ofKind_append, hstarted]
            rfl
          · rw [ofKind_append, hcompleted]
            rfl
      · refine iff_of_false (fun hprotocol => ?_) fun hall => hcompletes hall.2
        have hone := hprotocol.completed
        rw [hcompleted] at hone
        cases hone

end Protocol

theorem protocol_actOnDecision {decision : Decision} {recorded : List AppendInput} (h : Quiet ⟨recorded, 7, []⟩)
    (hpermitted : c.permitted E = c.throughDecision (.ok decision)) :
    c.Protocol E (c.actOnDecision E decision ⟨recorded, 7, []⟩).state ↔ c.DecisionCompletes E decision := by
  cases decision with
  | deny approver reason => exact protocol_completed h fun _ => rfl
  | approveConstrained approver scope acceptedInput => exact (protocol_runTool h).trans (and_iff_right hpermitted)
  | approve approver scope => exact (protocol_runTool h).trans (and_iff_right hpermitted)

theorem protocol_askApproval {v : PolicyVerdict} {recorded : List AppendInput} (h : Quiet ⟨recorded, 2, []⟩)
    (hpermitted : c.permitted E = c.throughDecision (c.resolveApproval v)) :
    c.Protocol E (c.askApproval E v ⟨recorded, 2, []⟩).state ↔ c.ApprovalCompletes E v := by
  have hasked : Quiet ⟨recorded ++ [c.requiredInput v], 5, []⟩ := quiet_append h .approvalRequired rfl (by decide) 5
  have hdecided (decision : Decision) :
      Quiet ⟨recorded ++ [c.requiredInput v] ++ [Approvals.decisionInput c.runId c.toolCallId decision], 7, []⟩ :=
    quiet_append hasked .approvalDecision rfl (by decide) 7
  have hrequired (n : Nat) : Quiet ⟨recorded ++ [c.requiredInput v], n, []⟩ := hasked
  rw [askApproval, recordApprovalRequired, ApprovalCompletes]
  simp only [bind_assoc]
  rw [protocol_attempt h]
  refine and_congr_right fun _ => ?_
  rw [protocol_append (s := ⟨recorded, 3, []⟩) h]
  refine and_congr_right fun _ => ?_
  rw [protocol_attempt (hrequired 4)]
  refine and_congr_right fun _ => ?_
  cases hresolve : c.resolveApproval v with
  | error e =>
    refine iff_of_false (protocol_error hasked rfl) ?_
    rintro ⟨decision, hdecision, -⟩
    cases hdecision
  | ok decision =>
    rw [hresolve] at hpermitted
    rw [EStateM.bind_of_ok (liftExcept_ok rfl), recordApprovalDecision]
    simp only [bind_assoc]
    rw [protocol_attempt hasked, protocol_append (hrequired 6), protocol_actOnDecision (hdecided decision) hpermitted]
    constructor
    · exact fun hrest => ⟨decision, rfl, hrest⟩
    · rintro ⟨decision', hdecision, hrest⟩
      cases hdecision
      exact hrest

theorem protocol_actOn {v : PolicyVerdict} {recorded : List AppendInput} (h : Quiet ⟨recorded, 2, []⟩)
    (hpermitted : c.permitted E = c.throughVerdict v) :
    c.Protocol E (c.actOn E v ⟨recorded, 2, []⟩).state ↔ c.VerdictCompletes E v := by
  rw [throughVerdict] at hpermitted
  rw [actOn, VerdictCompletes]
  cases hdecision : v.decision with
  | halt => exact protocol_completed h fun _ => rfl
  | block => exact protocol_completed h fun _ => rfl
  | constrain =>
    rw [hdecision] at hpermitted
    exact (protocol_runTool h).trans (and_iff_right hpermitted)
  | allow =>
    rw [hdecision] at hpermitted
    exact (protocol_runTool h).trans (and_iff_right hpermitted)
  | requireApproval =>
    rw [hdecision] at hpermitted
    exact protocol_askApproval h hpermitted

theorem protocol_of_verdict {v : PolicyVerdict} (hverdict : c.verdict E = .ok v) :
    c.Protocol E (c.final E) ↔ E.fault 0 = none ∧ E.fault 1 = none ∧ c.VerdictCompletes E v := by
  have hquiet : Quiet .start := ⟨rfl, List.forall_mem_nil _⟩
  have hrequested : Quiet ⟨[c.requested], 1, []⟩ := quiet_append hquiet .toolCallRequested rfl (by decide) 1
  have hjudged : Quiet ⟨[c.requested, c.verdictInput v], 2, []⟩ := quiet_append hrequested .guardVerdict rfl (by decide) 2
  have hpermitted : c.permitted E = c.throughVerdict v := by
    rw [GatedCall.permitted, hverdict]
    rfl
  have hrest : c.Protocol E ((c.recordGuardVerdict E v >>= fun _ => c.actOn E v) ⟨[c.requested], 1, []⟩).state ↔
      E.fault 1 = none ∧ c.VerdictCompletes E v :=
    (protocol_append hrequested).trans (and_congr_right fun _ => protocol_actOn hjudged hpermitted)
  refine (protocol_append hquiet).trans (and_congr_right fun _ => Iff.trans ?_ hrest)
  rw [EStateM.bind_of_ok (liftExcept_ok hverdict)]
  rfl

/-- The protocol is kept exactly where nothing throws but the tool or the record of its result. -/
theorem protocol_iff (E : GateEnv) (c : GatedCall) : c.Protocol E (c.final E) ↔ c.Completes E := by
  cases hverdict : c.verdict E with
  | error e =>
    have hquiet : Quiet .start := ⟨rfl, List.forall_mem_nil _⟩
    have hrequested : Quiet ⟨[c.requested], 1, []⟩ := quiet_append hquiet .toolCallRequested rfl (by decide) 1
    refine iff_of_false (fun hprotocol => ?_) ?_
    · exact protocol_error hrequested hverdict ((protocol_append hquiet).mp hprotocol).2
    · rintro ⟨-, v, hv, -⟩
      rw [hverdict] at hv
      cases hv
  | ok v =>
    rw [protocol_of_verdict hverdict, Completes, hverdict]
    refine and_congr_right fun _ => ⟨fun hrest => ⟨v, rfl, hrest⟩, ?_⟩
    rintro ⟨v', hv', hrest⟩
    cases hv'
    exact hrest

/-! ### A call that nobody approves -/

/-- The policy asks for an approval of `mail.send`, and the approver throws. -/
def unattended : GatedCall where
  runId := "run"
  policy := ⟨none, none, some [⟨"mail.send", .low, true⟩], none⟩
  toolName := "mail.send"
  args := .object []
  execute := fun _ => .ok .null
  opts := ⟨false, some fun _ _ => .error (.error ⟨"Error", "no one is there to approve"⟩)⟩
  toolCallId := "call"

theorem unattended_verdict : ∃ v, unattended.verdict .sample = .ok v ∧ v.decision = .requireApproval := by
  have hargs : Guard.argsJson .sample unattended.request = .ok (String.ofList (printJson .sample (.object []))) := by
    have hthrough : throughJson (.object []) = .ok (.object []) := by
      simp [throughJson, entriesThroughJson, ownEntries, bind, Except.bind, pure, Except.pure]
    have hobject : (unattended.request.get "args").orEmpty = .object [] := rfl
    rw [Guard.argsJson, hobject, hthrough]
    rfl
  refine ⟨Guard.verdictOn .sample unattended.policy unattended.request none (String.ofList (printJson .sample (.object []))), ?_, rfl⟩
  rw [verdict]
  have hlibrary : GateEnv.sample.library = .sample := rfl
  rw [hlibrary, Guard.evaluate, hargs]
  rfl

/-- No end is recorded of it. -/
theorem approver_throws : ¬ unattended.Protocol .sample (unattended.final .sample) := by
  obtain ⟨v, hverdict, hdecision⟩ := unattended_verdict
  rw [protocol_of_verdict hverdict]
  rintro ⟨-, -, hcompletes⟩
  rw [VerdictCompletes, hdecision] at hcompletes
  obtain ⟨-, -, -, decision, hresolve, -⟩ := hcompletes
  cases hresolve

end GatedCall

end Mastra

end ActantDb
