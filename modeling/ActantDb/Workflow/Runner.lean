import Mathlib.Data.List.Infix
import ActantDb.Lib.Program
import ActantDb.Ledger.Ledger

/-!
# Workflow steps

A workflow handler is called from the top on every invocation of its run; each step asks the history of the run whether it has been completed, and what its result was. The history is read when the invocation begins and from then on only grows by what the invocation itself records.

The steps are programs over the operations below: those of the ledger, the clock, and the calls of the user's functions and of `fetch`. One operation is not the code's: `observe` writes down what a step gave its handler, so that a run can be looked at afterwards.
-/

namespace ActantDb

/-! ### Errors -/

inductive WorkflowErrorCode where
  | duplicateStep
  | runCancelled
  | notFound
  | invalidDuration
  | invalidRequest
  | stepThrew
deriving DecidableEq, Repr

inductive SuspensionReason where
  | sleep
  | waitForEvent
deriving DecidableEq, Repr

/-- What a handler can see thrown. -/
inductive JsError where
  | workflow (code : WorkflowErrorCode) (message : String)
  | suspended (reason : SuspensionReason) (stepName : String) (retryAfterMs : Option F64)
    (waitingForEventId : Option String)
  | cancelled
  | other (e : Thrown)
deriving DecidableEq

def SuspensionReason.text : SuspensionReason → String
  | .sleep => "sleep"
  | .waitForEvent => "wait_for_event"

def JsError.message : JsError → String
  | .workflow _ message => message
  | .suspended reason stepName _ _ => "workflow suspended: " ++ reason.text ++ " @ " ++ stepName
  | .cancelled => "workflow cancelled"
  | .other e => e.message

def JsError.name : JsError → String
  | .workflow _ _ => "WorkflowError"
  | .suspended _ _ _ _ | .cancelled => "Error"
  | .other e => e.name

/-! ### Times -/

inductive Duration where
  | ms (x : F64)
  | text (s : String)

def isJsSpace (c : Char) : Bool :=
  (9 ≤ c.toNat && c.toNat ≤ 13) || (0x2000 ≤ c.toNat && c.toNat ≤ 0x200a) ||
    c.toNat ∈ [0x20, 0xa0, 0x1680, 0x2028, 0x2029, 0x202f, 0x205f, 0x3000, 0xfeff]

def trimSpaces (s : String) : List Char :=
  ((s.toList.dropWhile isJsSpace).reverse.dropWhile isJsSpace).reverse

def unitMs : List Char → Option Nat
  | ['m', 's'] => some 1
  | ['s'] => some 1000
  | ['m'] => some 60000
  | ['h'] => some 3600000
  | ['d'] => some 86400000
  | _ => none

/-- Arithmetic on a number of milliseconds that may be infinite. -/
def F64.applyNat (f : Nat → Nat) (x : F64) : F64 := if x.isFinite then .ofNat (f x.toNat) else .infinity

def parseDuration (X : JsLibrary) : Duration → Except JsError F64
  | .ms x =>
    if !x.isFinite || x.rank < 0 then
      .error (.workflow .invalidDuration ("bad duration: " ++ X.numberToString x))
    else .ok (.ofNat x.toNat)
  | .text s =>
    let digits := (trimSpaces s).takeWhile Char.isDigit
    match digits, unitMs ((trimSpaces s).dropWhile Char.isDigit) with
    | _ :: _, some unit =>
      let n := F64.ofNat (digits.foldl (fun n c => 10 * n + (c.toNat - 48)) 0)
      .ok (n.applyNat (· * unit))
    | _, _ => .error (.workflow .invalidDuration ("bad duration: \"" ++ s ++ "\""))

inductive AbsoluteTime where
  | ms (x : F64)
  | text (s : String)

def parseAbsoluteTime (X : JsLibrary) : AbsoluteTime → Except JsError F64
  | .ms x =>
    if !x.isFinite || x.rank < 0 then
      .error (.workflow .invalidDuration ("bad timestamp: " ++ X.numberToString x))
    else .ok (.ofNat x.toNat)
  | .text s =>
    match X.dateParse s with
    | none => .error (.workflow .invalidDuration ("bad ISO timestamp: \"" ++ s ++ "\""))
    | some at_ => .ok at_

/-- `now >= deadline`, for a deadline as a marker holds it: one that was infinite reads back as `null`, which counts as `0`. -/
def reached (now : Nat) : JsValue → Bool
  | .number deadline => deadline.le (.ofNat now)
  | .null => true
  | _ => false

/-- `Math.max(0, deadline - now)`. -/
def remainingMs (now : Nat) : JsValue → F64
  | .number deadline => deadline.applyNat (· - now)
  | _ => .ofNat 0

/-! ### Requests and observations -/

structure CallArgs where
  url : String
  method : Option String
  body : JsValue
  headers : Option (List (String × String))

inductive BodyInit where
  | text (s : String)
  -- the JSON text of the value
  | json (v : JsValue)

structure RequestInit where
  method : String
  headers : Option (List (String × String))
  body : Option BodyInit

structure Response where
  status : Nat
  headers : List (String × String)
  -- what reading the body as JSON or as text gives
  json : Except JsError JsValue
  text : Except JsError String

/-- What a handler asks of its context. -/
inductive Step where
  | run (name : String)
  | call (name : String) (args : CallArgs)
  | sleep (name : String) (duration : Duration)
  | sleepUntil (name : String) (time : AbsoluteTime)
  | waitForEvent (name eventId : String) (timeout : Option Duration)
  | notify (eventId : String) (data : JsValue)
  | cancel

/-- What a step gives its handler: a value, or nothing because a wait has timed out, or an error. -/
inductive StepOutcome where
  | value (v : JsValue)
  | timedOut
  | threw (e : JsError)

def StepOutcome.result : StepOutcome → Except JsError JsValue
  | .value v => .ok v
  | .timedOut => .ok .undefined
  | .threw e => .error e

inductive Observation where
  | invoked (runId : String)
  -- the function of a step, or its `fetch`, was called
  | called (runId key : String) (result : Except JsError JsValue)
  | settled (runId : String) (step : Step) (outcome : StepOutcome)

/-- The input of an invocation. -/
structure InvokeInput where
  runId : Option String
  body : JsValue
  headers : List (String × String)

/-! ### Operations -/

/-- What the ledger gives an event besides what it is appended with. -/
structure Stamp where
  id : String
  payloadHash : String
  chainHash : String

def ActantEvent.stamp (e : ActantEvent) : Stamp := ⟨e.id, e.payloadHash, e.chainHash⟩

/-- The event that `append` returns. -/
def AppendInput.event (input : AppendInput) (stamp : Stamp) : ActantEvent :=
  ⟨stamp.id, input.kind, input.runId, input.payload, stamp.payloadHash, stamp.chainHash⟩

inductive WorkflowOp where
  -- answered by what the ledger adds to the input
  | append (process : Nat) (input : AppendInput)
  | query (filter : LedgerFilter)
  | ulid (process : Nat)
  -- the clock, read in a step of a run
  | now (runId key : String)
  | run (runId key : String)
  | fetch (runId key url : String) (init : RequestInit)
  | setTimeout (delay : F64) (input : InvokeInput)
  | observe (o : Observation)

abbrev WorkflowOp.Res : WorkflowOp → Type
  | .append _ _ => Except Thrown Stamp
  | .query _ => Except Thrown (List ActantEvent)
  | .ulid _ => String
  | .now _ _ => Nat
  | .run _ _ => Except JsError JsValue
  | .fetch _ _ _ _ => Except JsError Response
  | .setTimeout _ _ | .observe _ => Unit

structure WorkflowWorld where
  ledger : Ledger
  calls : Nat
  log : List Observation

/-- Besides the environment of the ledger: what the functions of the steps return or throw, and what is fetched. -/
structure WorkflowEnv where
  ledger : LedgerEnv
  answer : Nat → Except JsError JsValue
  response : Nat → Except JsError Response

abbrev WorkflowProg := Prog WorkflowOp WorkflowOp.Res JsError

/-- The result of a call, once the body has been read. -/
def Response.result (res : Response) : Except JsError JsValue := do
  let contentType := ((res.headers.find? fun h => h.1 = "content-type").map Prod.snd).getD ""
  let body ← if "application/json".toList <:+: contentType.toList then res.json
    else JsValue.string <$> res.text
  return .object
    [("status", .number (.ofNat res.status)),
      ("headers", .object (res.headers.map fun h => (h.1, .string h.2))),
      ("body", body)]

def WorkflowWorld.logged (w : WorkflowWorld) (o : Observation) : WorkflowWorld := { w with log := w.log ++ [o] }

def WorkflowOp.handle (E : WorkflowEnv) : (o : WorkflowOp) → WorkflowWorld → o.Res × WorkflowWorld
  | .append process input, w =>
    ((w.ledger.append E.ledger process input).1.map (·.stamp),
      { w with ledger := (w.ledger.append E.ledger process input).2 })
  | .query filter, w =>
    ((w.ledger.query E.ledger filter).1, { w with ledger := (w.ledger.query E.ledger filter).2 })
  | .ulid process, w =>
    ((w.ledger.ulid E.ledger process).1, { w with ledger := (w.ledger.ulid E.ledger process).2 })
  | .now _ _, w => ((w.ledger.now E.ledger).1, { w with ledger := (w.ledger.now E.ledger).2 })
  | .run runId key, w =>
    (E.answer w.calls, { w with calls := w.calls + 1 }.logged (.called runId key (E.answer w.calls)))
  | .fetch runId key _ _, w =>
    (E.response w.calls,
      { w with calls := w.calls + 1 }.logged (.called runId key (E.response w.calls >>= Response.result)))
  | .setTimeout _ _, w => ((), w)
  | .observe o, w => ((), w.logged o)

/-! ### Markers -/

def stepResult (key : String) (result : JsValue) : JsValue :=
  .object [("tool_call_id", .string key), ("status", .string "ok"), ("result", result)]

def sleepMarker (name : String) (untilMs : F64) : JsValue :=
  .object [("kind", .string "sleep"), ("name", .string name), ("until", .number untilMs)]

def waitMarker (name eventId : String) (timeoutAt : Option F64) : JsValue :=
  .object ([("kind", .string "wait"), ("name", .string name), ("eventId", .string eventId)] ++
    timeoutAt.toList.map fun deadline => ("timeoutAt", .number deadline))

def eventMarker (eventId : String) (data : JsValue) : JsValue :=
  .object [("kind", .string "event"), ("eventId", .string eventId), ("data", data)]

def cancelMarker : JsValue := .object [("kind", .string "cancel")]

namespace ActantEvent

variable (e : ActantEvent)

/-- The row that holds the result of a step. -/
def completes (key : String) : Bool :=
  e.kind = .toolCallCompleted && (e.payload.get "tool_call_id").isString key

def isEffect (kind : String) : Bool := e.kind = .effectObserved && (e.payload.get "kind").isString kind

/-- The marker of a sleep or a wait. -/
def marks (kind name : String) : Bool := e.isEffect kind && (e.payload.get "name").isString name

def notifies (eventId : String) : Bool := e.isEffect "event" && (e.payload.get "eventId").isString eventId

end ActantEvent

/-! ### The runner -/

/-- The name of a step within its run. -/
def stepKey (kind name : String) : String := kind ++ ":" ++ name

def findStepResult (history : List ActantEvent) (key : String) : JsValue :=
  ((history.find? (·.completes key)).map fun e => e.payload.get "result").getD .undefined

def findEffect (history : List ActantEvent) (kind name : String) : Option JsValue :=
  (history.find? (·.marks kind name)).map (·.payload)

/-- The history from the marker of the wait on. -/
def fromMarker (history : List ActantEvent) (name : String) : List ActantEvent :=
  history.drop ((history.findIdx? (·.marks "wait" name)).getD 0)

structure RunnerState where
  process : Nat
  runId : String
  history : List ActantEvent
  seenNames : List String

/-- What every step of a cancelled run throws. -/
def refusal (runId : String) : JsError := .workflow .runCancelled ("run " ++ runId ++ " was cancelled")

namespace RunnerState

variable (s : RunnerState)

def ensureNotCancelled : Except JsError Unit :=
  if s.history.any (·.isEffect "cancel") then .error (refusal s.runId) else .ok ()

def recordStepName (kind name : String) : Except JsError (String × RunnerState) :=
  let key := stepKey kind name
  if key ∈ s.seenNames then
    .error (.workflow .duplicateStep
      ("duplicate step name \"" ++ name ++ "\" within run " ++ s.runId))
  else .ok (key, { s with seenNames := key :: s.seenNames })

/-- How every step begins. -/
def enter (kind name : String) : Except JsError (String × RunnerState) := do
  s.ensureNotCancelled
  s.recordStepName kind name

/-- Append to the ledger and to the history. -/
def append (kind : EventKind) (payload : JsValue) : WorkflowProg (Except Thrown RunnerState) :=
  let input : AppendInput := ⟨kind, s.runId, payload⟩
  .call (.append s.process input) fun appended =>
    pure (appended.map fun stamp => { s with history := s.history ++ [input.event stamp] })

def appendStepResult (key : String) (result : JsValue) : WorkflowProg (StepOutcome × RunnerState) := do
  match ← s.append .toolCallCompleted (stepResult key result) with
  | .error e => return (.threw (.other e), s)
  | .ok s => return (.value result, s)

/-- The recorded result, or what `live` makes of the step. -/
def cachedOr (key : String) (live : WorkflowProg (StepOutcome × RunnerState)) :
    WorkflowProg (StepOutcome × RunnerState) :=
  let cached := findStepResult s.history key
  if cached.isUndefined then live else pure (.value cached, s)

end RunnerState

def doRun (s : RunnerState) (name : String) : WorkflowProg (StepOutcome × RunnerState) :=
  match s.enter "step" name with
  | .error e => pure (.threw e, s)
  | .ok (key, s) => s.cachedOr key <| .call (.run s.runId key) fun
    | .error e => pure (.threw (.workflow .stepThrew ("step \"" ++ name ++ "\" threw: " ++ e.message)), s)
    | .ok result => s.appendStepResult key result

def CallArgs.init (args : CallArgs) : Except Thrown RequestInit := do
  let method := args.method.getD "GET"
  if args.body.isUndefined then return ⟨method, args.headers, none⟩
  else
    let body ← match args.body with
      | .string s => pure (some (.text s))
      | v => do
        let printed ← throughJson v
        pure (if printed.isUndefined then none else some (.json printed))
    let typed := (args.headers.getD []).any fun h => h.1.toLower = "content-type"
    return ⟨method,
      if typed then args.headers else some (("content-type", "application/json") :: args.headers.getD []),
      body⟩

def doCall (s : RunnerState) (name : String) (args : CallArgs) : WorkflowProg (StepOutcome × RunnerState) :=
  match s.enter "call" name with
  | .error e => pure (.threw e, s)
  | .ok (key, s) => s.cachedOr key <|
    match args.init with
    | .error e => pure (.threw (.other e), s)
    | .ok init => .call (.fetch s.runId key args.url init) fun fetched =>
      match fetched >>= Response.result with
      | .error e => pure (.threw e, s)
      | .ok result => s.appendStepResult key result

/-- Return once the deadline is reached, and suspend before. -/
def sleepUntilReached (s : RunnerState) (key name : String) (deadline : JsValue) :
    WorkflowProg (StepOutcome × RunnerState) :=
  .call (.now s.runId key) fun now =>
    if reached now deadline then pure (.value .undefined, s)
    else .call (.now s.runId key) fun now =>
      pure (.threw (.suspended .sleep name (some (remainingMs now deadline)) none), s)

def doSleep (s : RunnerState) (name : String) (untilMs : F64) : WorkflowProg (StepOutcome × RunnerState) :=
  match s.enter "sleep" name with
  | .error e => pure (.threw e, s)
  | .ok (key, s) =>
    match findEffect s.history "sleep" name with
    | some existing => sleepUntilReached s key name (existing.get "until")
    | none => do
      -- the first time this sleep is seen
      match ← s.append .effectObserved (sleepMarker name untilMs) with
      | .error e => return (.threw (.other e), s)
      | .ok s => sleepUntilReached s key name (.number untilMs)

/-- Look for the event after the marker, then at the deadline. -/
def awaitEvent (s : RunnerState) (key name eventId : String) (marker : JsValue) :
    WorkflowProg (StepOutcome × RunnerState) :=
  match (fromMarker s.history name).find? (·.notifies eventId) with
  | some e => pure (.value (e.payload.get "data"), s)
  | none =>
    let timeoutAt := marker.get "timeoutAt"
    if timeoutAt.isUndefined then
      pure (.threw (.suspended .waitForEvent name none (some eventId)), s)
    else .call (.now s.runId key) fun now =>
      if reached now timeoutAt then pure (.timedOut, s)
      else .call (.now s.runId key) fun now =>
        pure (.threw (.suspended .waitForEvent name (some (remainingMs now timeoutAt)) (some eventId)), s)

/-- Record the marker of a wait that is seen for the first time. -/
def beginWait (s : RunnerState) (key name eventId : String) (timeoutAt : Option F64) :
    WorkflowProg (StepOutcome × RunnerState) := do
  match ← s.append .effectObserved (waitMarker name eventId timeoutAt) with
  | .error e => return (.threw (.other e), s)
  | .ok s => awaitEvent s key name eventId (waitMarker name eventId timeoutAt)

def doWaitForEvent (s : RunnerState) (name eventId : String) (timeoutMs : Option F64) :
    WorkflowProg (StepOutcome × RunnerState) :=
  match s.enter "wait" name with
  | .error e => pure (.threw e, s)
  | .ok (key, s) =>
    match findEffect s.history "wait" name with
    | some marker => awaitEvent s key name eventId marker
    | none =>
      match timeoutMs with
      | none => beginWait s key name eventId none
      | some ms => .call (.now s.runId key) fun now =>
        beginWait s key name eventId (some (ms.applyNat (now + ·)))

def recordCancel (process : Nat) (runId : String) : WorkflowProg Unit :=
  .performOr (.append process ⟨.effectObserved, runId, cancelMarker⟩) (fun r => r.map fun _ => ()) .other

def recordNotify (process : Nat) (runId eventId : String) (data : JsValue) : WorkflowProg Unit :=
  .performOr (.append process ⟨.effectObserved, runId, eventMarker eventId data⟩)
    (fun r => r.map fun _ => ()) .other

end ActantDb
