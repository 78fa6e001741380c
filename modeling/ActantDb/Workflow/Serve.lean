import ActantDb.Workflow.Runner

/-!
# Invocations

`serve` turns a handler into a function that is called for every request and every resume of a run. A handler is a tree: it returns, throws, or asks its context for a step and goes on with what that gives. Handlers of successive invocations need not be the same tree: what a handler does may depend on its payload, and on whatever else the program reads.
-/

namespace ActantDb

/-! ### Handlers -/

inductive Workflow where
  | ret (output : JsValue)
  | throw (e : JsError)
  | step (request : Step) (next : Except JsError JsValue → Workflow)

/-- `WorkflowContext`, as far as a handler reads it. -/
structure WorkflowContext where
  runId : String
  payload : JsValue
  requestHeaders : List (String × String)

/-- What the context does for a step. -/
def Step.perform (X : JsLibrary) (s : RunnerState) : Step → WorkflowProg (StepOutcome × RunnerState)
  | .run name => doRun s name
  | .call name args => doCall s name args
  | .sleep name duration =>
    match parseDuration X duration with
    | .error e => pure (.threw e, s)
    | .ok ms => .call (.now s.runId (stepKey "sleep" name)) fun now => doSleep s name (ms.applyNat (now + ·))
  | .sleepUntil name time =>
    match parseAbsoluteTime X time with
    | .error e => pure (.threw e, s)
    | .ok untilMs => doSleep s name untilMs
  | .waitForEvent name eventId timeout =>
    match timeout.mapM (parseDuration X) with
    | .error e => pure (.threw e, s)
    | .ok timeoutMs => doWaitForEvent s name eventId timeoutMs
  | .notify eventId data =>
    .call (.append s.process ⟨.effectObserved, s.runId, eventMarker eventId data⟩) fun
      | .error e => pure (.threw (.other e), s)
      | .ok _ => pure (.value .undefined, s)
  | .cancel =>
    .call (.append s.process ⟨.effectObserved, s.runId, cancelMarker⟩) fun
      | .error e => pure (.threw (.other e), s)
      | .ok _ => pure (.threw .cancelled, s)

/-- Run a handler from a state of the runner. -/
def Workflow.exec (X : JsLibrary) : Workflow → RunnerState → WorkflowProg (Except JsError JsValue)
  | .ret output, _ => pure (.ok output)
  | .throw e, _ => pure (.error e)
  | .step request next, s =>
    request.perform X s >>= fun (outcome, s') =>
      .call (.observe (.settled s.runId request outcome)) fun _ => (next outcome.result).exec X s'

/-! ### An invocation -/

inductive WorkflowRunStatus where
  | completed
  | suspended
  | failed
  | cancelled
deriving DecidableEq, Repr

def WorkflowRunStatus.text : WorkflowRunStatus → String
  | .completed => "completed"
  | .suspended => "suspended"
  | .failed => "failed"
  | .cancelled => "cancelled"

structure WorkflowRunResult where
  runId : String
  status : WorkflowRunStatus
  output : JsValue := .undefined
  retryAfterMs : Option F64 := none
  waitingForEventId : Option String := none
  error : Option (String × Option WorkflowErrorCode) := none

/-- Call the ledger, and reject with what it throws. -/
def ledgerAppend (process : Nat) (input : AppendInput) : WorkflowProg Stamp :=
  .performOr (.append process input) id .other

def ledgerQuery (filter : LedgerFilter) : WorkflowProg (List ActantEvent) :=
  .performOr (.query filter) id .other

/-- The row that holds the end of a run. -/
def ActantEvent.recordsEnd (e : ActantEvent) (status : String) : Bool :=
  e.kind = .agentRunFinished && (e.payload.get "status").isString status

def finished (status : WorkflowRunStatus) : JsValue := .object [("status", .string status.text)]

def failed (e : JsError) : JsValue :=
  .object [("status", .string "failed"),
    ("error", .object [("message", .string e.message), ("name", .string e.name)])]

def JsError.code? : JsError → Option WorkflowErrorCode
  | .workflow code _ => some code
  | _ => none

/-- What `invoke` is called with: the process it runs in and the options of `serve` come with it. -/
structure Invocation where
  process : Nat
  autoResume : Bool
  input : InvokeInput
  handler : WorkflowContext → Workflow

namespace Invocation

variable (inv : Invocation) (runId : String)

def append (kind : EventKind) (payload : JsValue) : WorkflowProg Stamp :=
  ledgerAppend inv.process ⟨kind, runId, payload⟩

/-- The run id that was given, or a new one. -/
def assign : WorkflowProg String :=
  match inv.input.runId with
  | some runId => pure runId
  | none => .call (.ulid inv.process) fun id => pure ("wfr_" ++ id)

/-- The first invocation of a run files its start. -/
def start : WorkflowProg Unit := do
  let existing ← ledgerQuery { runId := some runId, limit := some 1 }
  if existing.isEmpty then
    let payload := if inv.input.body.isUndefined then .null else inv.input.body
    let _ ← inv.append runId .agentRunStarted (.object [("workflow", .bool true), ("payload", payload)])

def makeState : WorkflowProg RunnerState := do
  let history ← ledgerQuery { runId := some runId }
  return ⟨inv.process, runId, history, []⟩

/-- The handler itself, and the record that it has returned: either may throw. -/
def attempt (X : JsLibrary) (s : RunnerState) : WorkflowProg (Except JsError JsValue) := do
  match ← (inv.handler ⟨runId, inv.input.body, inv.input.headers⟩).exec X s with
  | .error e => return .error e
  | .ok output =>
    .call (.append inv.process ⟨.agentRunFinished, runId, finished .completed⟩) fun
      | .error e => pure (.error (.other e))
      | .ok _ => pure (.ok output)

def scheduleResume (retryAfterMs : Option F64) : WorkflowProg Unit :=
  if inv.autoResume then
    .call (.setTimeout (retryAfterMs.getD (.ofNat 0)) ⟨some runId, inv.input.body, []⟩) fun _ => pure ()
  else pure ()

/-- Record a cancelled run as finished, unless it already is. -/
def finishCancelled : WorkflowProg Unit := do
  let events ← ledgerQuery { runId := some runId }
  if events.any (·.recordsEnd "cancelled") then
    return ()
  else
    let _ ← inv.append runId .agentRunFinished (finished .cancelled)

/-- The result of the invocation, by what the handler came to. -/
def conclude : Except JsError JsValue → WorkflowProg WorkflowRunResult
  | .ok output => return { runId, status := .completed, output }
  | .error (.suspended _ _ retryAfterMs waitingForEventId) => do
    inv.scheduleResume runId retryAfterMs
    return { runId, status := .suspended, retryAfterMs, waitingForEventId }
  | .error .cancelled => do
    let _ ← inv.append runId .agentRunFinished (finished .cancelled)
    return { runId, status := .cancelled }
  | .error (.workflow .runCancelled _) => do
    inv.finishCancelled runId
    return { runId, status := .cancelled }
  | .error e => do
    let _ ← inv.append runId .agentRunFinished (failed e)
    return { runId, status := .failed, error := some (e.message, e.code?) }

end Invocation

/-- An invocation of a run whose id is known. -/
def Invocation.invokeRun (X : JsLibrary) (inv : Invocation) (runId : String) :
    WorkflowProg WorkflowRunResult :=
  .call (.observe (.invoked runId)) fun _ => do
    inv.start runId
    let s ← inv.makeState runId
    let result ← inv.attempt runId X s
    inv.conclude runId result

def invoke (X : JsLibrary) (inv : Invocation) : WorkflowProg WorkflowRunResult := do
  let runId ← inv.assign
  inv.invokeRun X runId

/-! ### The client -/

/-- `Client.notify` of a client that has the ledger. -/
def Client.notify (process : Nat) (workflowRunId : Option String) (eventId : String)
    (eventData : JsValue) : WorkflowProg Unit :=
  match workflowRunId with
  | some runId => recordNotify process runId eventId eventData
  | none => .call (.ulid process) fun id =>
    recordNotify process ("wfr_notify_" ++ id) eventId eventData

def Client.cancel (process : Nat) (workflowRunId : String) : WorkflowProg Unit :=
  recordCancel process workflowRunId

/-! ### Calls -/

inductive WorkflowCall where
  | invoke (inv : Invocation)
  | notify (process : Nat) (workflowRunId : Option String) (eventId : String) (eventData : JsValue)
  | cancel (process : Nat) (workflowRunId : String)

inductive WorkflowReply where
  | invoked (result : WorkflowRunResult)
  | done

def WorkflowCall.issue (X : JsLibrary) : WorkflowCall → WorkflowProg WorkflowReply
  | .invoke inv => .invoked <$> ActantDb.invoke X inv
  | .notify process workflowRunId eventId eventData =>
    (fun _ => .done) <$> Client.notify process workflowRunId eventId eventData
  | .cancel process workflowRunId => (fun _ => .done) <$> Client.cancel process workflowRunId

/-- One call after the other: each runs to its end. -/
def WorkflowWorld.step (E : WorkflowEnv) (X : JsLibrary) (w : WorkflowWorld) (call : WorkflowCall) :
    WorkflowWorld :=
  ((call.issue X).run (WorkflowOp.handle E) w).2

/-- Every operation of the call meets `C` in the world it is made in. -/
def CallAlong (E : WorkflowEnv) (X : JsLibrary) (C : WorkflowWorld → WorkflowOp → Prop)
    (w : WorkflowWorld) (call : WorkflowCall) : Prop :=
  (call.issue X).Along (WorkflowOp.handle E) C w

instance (E : WorkflowEnv) (X : JsLibrary) (C : WorkflowWorld → WorkflowOp → Prop)
    [∀ w o, Decidable (C w o)] (w : WorkflowWorld) (call : WorkflowCall) :
    Decidable (CallAlong E X C w call) :=
  inferInstanceAs (Decidable ((call.issue X).Along (WorkflowOp.handle E) C w))

end ActantDb
