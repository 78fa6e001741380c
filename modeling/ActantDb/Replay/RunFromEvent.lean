import ActantDb.Ledger.Ledger
import ActantDb.Policy.Guard

/-!
# Replaying a run

`runFromEvent` reads a recorded run, keeps what came before the checkpoint, and passes each later event through one handler: the first that applies among planner, tool request, verdict, completion and default. `diffReplayAgainstOriginal` then compares the two streams by position, through the recorded hashes.
-/

namespace ActantDb

def EventKind.text : EventKind → String
  | .agentRunStarted => "agent_run_started"
  | .userMessageReceived => "user_message_received"
  | .modelCall => "model_call"
  | .toolCallRequested => "tool_call_requested"
  | .guardVerdict => "guard_verdict"
  | .approvalRequired => "approval_required"
  | .approvalDecision => "approval_decision"
  | .toolCallStarted => "tool_call_started"
  | .toolCallCompleted => "tool_call_completed"
  | .contextBuild => "context_build"
  | .effectObserved => "effect_observed"
  | .agentRunFinished => "agent_run_finished"

namespace Replay

open JsValue

inductive Mode where
  | recorded
  | tool
  | experimental
deriving DecidableEq, Repr

structure RunFromEventOptions where
  eventId : String
  -- `overrides.without_memory`
  withoutMemory : Option (List String) := none
  policy : Option Guard.Policy := none
  mode : Option Mode := none
  toolSubstitutions : Option (List (String × JsValue)) := none
  experimentalToolCallId : Option String := none
  experimentalReplacementResult : JsValue := .undefined
  alternatePlannerOutput : Option String := none

structure ReplayRun where
  id : String
  fromEvent : String
  originalRun : String
  events : List ActantEvent

/-- `{ ...v, key: w }`. -/
def withEntry (v : JsValue) (key : String) (w : JsValue) : JsValue := .object (setEntry key w v.spread)

def isNull : JsValue → Bool
  | .null => true
  | .undefined => true
  | _ => false

/-! ### Experimental mode -/

def eventReferencesToolCall (event : ActantEvent) (toolCallId : String) : Bool :=
  (event.kind = .toolCallRequested || event.kind = .toolCallCompleted || event.kind = .toolCallStarted) &&
    (event.payload.get "tool_call_id").isString toolCallId

def validateExperimentalReplay (opts : RunFromEventOptions) (original : List ActantEvent) (runId : String) :
    Except Thrown Unit :=
  if opts.mode ≠ some .experimental then .ok ()
  else
    let target := opts.experimentalToolCallId.getD ""
    if target = "" then .error ⟨"Error", "experimental mode requires `experimentalToolCallId`"⟩
    else if original.any (eventReferencesToolCall · target) then .ok ()
    else .error ⟨"Error", "tool_call_id \"" ++ target ++ "\" not present in run " ++ runId⟩

/-! ### The manifest of the checkpoint -/

section Manifest

variable (X : JsLibrary) (excluded : List String)

/-- `excluded.has(v)`. -/
def isExcluded (v : JsValue) : Bool := excluded.any v.isString

/-- `Array.from(new Set(items))`. -/
def distinct (items : List JsValue) : List JsValue :=
  items.foldl (fun seen v => if seen.any (strictEq v) then seen else seen ++ [v]) []

/-- An item that is moved to the blocked ones. -/
def blockItem (item : JsValue) : Except Thrown JsValue := do
  let flags ← ((item.get "flags").orElse (.array [])).iterate
  return withEntry item "flags" (.array (distinct (flags ++ [.string "replay_excluded"])))

/-- The array whose `filter` is called. -/
def filterable : JsValue → Except Thrown (List JsValue)
  | .array items => .ok items
  | _ => .error ⟨"TypeError", "manifest.included.filter is not a function"⟩

/-- The blocked items, if the manifest has the field or now gets it. -/
def blockedEntry (blocked : JsValue) (newlyBlocked : List JsValue) :
    Except Thrown (List (String × JsValue)) :=
  if blocked.truthy ∨ newlyBlocked ≠ [] then do
    return [("blocked", .array ((← (blocked.orElse (.array [])).iterate) ++ newlyBlocked))]
  else .ok []

def contextManifestWithoutExcluded (manifest : JsValue) : Except Thrown JsValue := do
  let included ← filterable (← manifest.read "included")
  let ids ← included.mapM (·.read "id")
  let kept := ((included.zip ids).filter fun p => !isExcluded excluded p.2).map (·.1)
  let newlyBlocked ← (((included.zip ids).filter fun p => isExcluded excluded p.2).map (·.1)).mapM blockItem
  let manifestHash ← sha256OfJSON X (.object [("included", .array (kept.map fun i =>
    .object [("id", i.get "id"), ("content_hash", i.get "content_hash")]))])
  let blocked ← blockedEntry (manifest.get "blocked") newlyBlocked
  return .object ([("manifest_hash", .string manifestHash), ("included", .array kept)] ++ blocked)

def lastContextManifestEvent (events : List ActantEvent) : Option ActantEvent :=
  events.reverse.find? fun e => e.kind = .contextBuild

/-- The events with the one of this id, the first of them, replaced. -/
def replaceFirst (id : String) (f : ActantEvent → ActantEvent) : List ActantEvent → List ActantEvent
  | [] => []
  | e :: rest => if e.id = id then f e :: rest else e :: replaceFirst id f rest

def rebuildReplayManifest (events before : List ActantEvent) : Except Thrown (List ActantEvent) :=
  if excluded = [] then .ok events
  else
    match lastContextManifestEvent before with
    | none => .ok events
    | some manifestEvent => do
      let rebuilt ← contextManifestWithoutExcluded X excluded manifestEvent.payload
      let hash ← sha256OfJSON X rebuilt
      return replaceFirst manifestEvent.id
        (fun event => { event with payload := rebuilt, payloadHash := hash }) events

end Manifest

/-! ### Tool arguments -/

/-- `mem.replace(/^mem_\d+_/, "").replace(/^mem_/, "")`. -/
def memorySuffix (mem : List Char) : List Char :=
  let numbered :=
    match dropPrefix? "mem_".toList mem with
    | none => mem
    | some rest =>
      if rest.takeWhile Char.isDigit = [] then mem
      else
        match rest.dropWhile Char.isDigit with
        | '_' :: suffix => suffix
        | _ => mem
  (dropPrefix? "mem_".toList numbered).getD numbered

/-- `cmd.split(/\s+/)`: an empty token stands for space at either end. -/
def splitSpaces (cmd : List Char) : List (List Char) :=
  match cmd.splitOnP Guard.isSpace with
  | [] => []
  | first :: rest =>
    match rest.getLast? with
    | none => [first]
    | some last => first :: rest.dropLast.filter (· ≠ []) ++ [last]

/-- The token names the memory. -/
def mentions (t : List Char) (mem : String) : Bool :=
  let suffix := memorySuffix mem.toList
  suffix ≠ [] && (t = suffix || ('/' :: suffix).isSuffixOf t)

def adjustToolArgsForExclusions (req : JsValue) (excluded : List String) : Except Thrown JsValue :=
  if excluded = [] then .ok req
  else do
    let args ← req.read "args"
    match args.get "command" with
    | .string cmd =>
      let tokens := splitSpaces cmd.toList
      let filtered := tokens.filter fun t => !excluded.any (mentions t)
      if filtered.length = tokens.length then return req
      else
        let newCmd := String.ofList ([' '].intercalate filtered)
        return withEntry req "args" (withEntry args "command" (.string newCmd))
    | _ => return req

/-! ### Completions -/

mutual

/-- The name under which a value is looked up in an object. -/
def propertyKey (X : JsLibrary) : JsValue → String
  | .undefined => "undefined"
  | .null => "null"
  | .bool b => if b then "true" else "false"
  | .number x => X.numberToString x
  | .bigint n => toString n
  | .string s => s
  | .array items => ",".intercalate (joinedKeys X items)
  | _ => "[object Object]"

/-- The elements of an array in its text. -/
def joinedKeys (X : JsLibrary) : List JsValue → List String
  | [] => []
  | .undefined :: rest => "" :: joinedKeys X rest
  | .null :: rest => "" :: joinedKeys X rest
  | v :: rest => propertyKey X v :: joinedKeys X rest

end

/-- What every object inherits. -/
def inherited : List String :=
  ["constructor", "__defineGetter__", "__defineSetter__", "hasOwnProperty", "__lookupGetter__",
    "__lookupSetter__", "isPrototypeOf", "propertyIsEnumerable", "toString", "valueOf", "__proto__",
    "toLocaleString"]

/-- `obj[key]` if `key in obj`. -/
def lookup (entries : List (String × JsValue)) (key : String) : Option JsValue :=
  match entries.find? fun e => e.1 = key with
  | some e => some e.2
  | none => if key ∈ inherited then some (if key = "__proto__" then .object [] else .function) else none

def toolSubstitutionPayload (X : JsLibrary) (recorded toolCallId : JsValue) (opts : RunFromEventOptions) :
    Option JsValue :=
  if opts.mode ≠ some .tool ∨ ¬ toolCallId.truthy then none
  else
    opts.toolSubstitutions.bind fun substitutions =>
      (lookup substitutions (propertyKey X toolCallId)).map fun result =>
        withEntry (withEntry recorded "status" (.string "substituted")) "result" result

def experimentalCompletionPayload (recorded toolCallId : JsValue) (opts : RunFromEventOptions) :
    Option JsValue :=
  if opts.mode ≠ some .experimental ∨
      ¬ toolCallId.strictEq ((opts.experimentalToolCallId.map .string).getD .undefined) then none
  else
    some (withEntry (withEntry recorded "status" (.string "reinvoked")) "result"
      (opts.experimentalReplacementResult.orElse
        (.object [("status", .string "live-reinvocation-pending")])))

/-! ### The handlers -/

section Handlers

variable (X : JsLibrary) (opts : RunFromEventOptions)

/-- The event under its new id, with another payload and the hash it has. -/
def replayed (event : ActantEvent) (id : String) (payload : JsValue) : ActantEvent :=
  { event with id := id, payload := payload }

/-- The same, with the hash of the payload. -/
def rehashed (event : ActantEvent) (id : String) (payload : JsValue) : Except Thrown ActantEvent := do
  let hash ← sha256OfJSON X payload
  return { event with id := id, payload := payload, payloadHash := hash }

def replayAlternatePlannerEvent (event : ActantEvent) (id : String) : Option ActantEvent :=
  if event.kind = .modelCall then
    opts.alternatePlannerOutput.map fun output =>
      replayed event id (withEntry event.payload "summary" (.string output))
  else none

def replayToolRequestEvent (event : ActantEvent) (excluded : List String) (id : String) :
    Except Thrown (Option ActantEvent) :=
  if event.kind = .toolCallRequested then do
    return some (replayed event id (← adjustToolArgsForExclusions event.payload excluded))
  else .ok none

/-- The newest request comes first. -/
def lastReplayToolRequest (toolCallId : JsValue) : List ActantEvent → Except Thrown JsValue
  | [] => .ok .undefined
  | e :: older => do
    if e.kind = .toolCallRequested then
      if (← e.payload.read "tool_call_id").strictEq toolCallId then return e.payload
    lastReplayToolRequest toolCallId older

def replayGuardVerdictEvent (event : ActantEvent) (events : List ActantEvent) (id : String) :
    Except Thrown (Option ActantEvent) :=
  match opts.policy with
  | none => .ok none
  | some policy =>
    if event.kind ≠ .guardVerdict then .ok none
    else do
      let toolCallId ← event.payload.read "tool_call_id"
      let req ← lastReplayToolRequest toolCallId events.reverse
      if req.truthy then
        let verdict ← Guard.evaluate X policy req
        return some (← rehashed X event id
          (.object (("tool_call_id", req.get "tool_call_id") :: verdict.entries)))
      else return none

def replayToolCompletionEvent (event : ActantEvent) (substituted : Bool) (id : String) :
    Except Thrown (Option (ActantEvent × Bool)) :=
  if event.kind ≠ .toolCallCompleted then .ok none
  else do
    let recorded := event.payload
    let toolCallId ← recorded.read "tool_call_id"
    match toolSubstitutionPayload X recorded toolCallId opts with
    | some payload => return some (← rehashed X event id payload, substituted)
    | none =>
      match experimentalCompletionPayload recorded toolCallId opts with
      | some payload => return some (← rehashed X event id payload, true)
      | none =>
        return some (replayed event id (withEntry recorded "status" (.string "replayed")), substituted)

def replayDefaultEvent (event : ActantEvent) (substituted : Bool) (id : String) :
    Except Thrown ActantEvent :=
  if !substituted then .ok (replayed event id event.payload)
  else
    rehashed X event id (withEntry event.payload "_replay"
      (.object [("mode", .string "experimental"),
        ("downstream_of", (opts.experimentalToolCallId.map JsValue.string).getD .undefined)]))

/-- The replayed event, and whether a tool call has been invoked again by now. Every handler that applies draws one id. -/
def replayPostCheckpointEvent (excluded : List String) (event : ActantEvent) (events : List ActantEvent)
    (substituted : Bool) (id : String) : Except Thrown (ActantEvent × Bool) := do
  if let some e := replayAlternatePlannerEvent opts event id then return (e, substituted)
  if let some e ← replayToolRequestEvent event excluded id then return (e, substituted)
  if let some e ← replayGuardVerdictEvent X opts event events id then return (e, substituted)
  if let some r ← replayToolCompletionEvent X opts event substituted id then return r
  return (← replayDefaultEvent X opts event substituted id, substituted)

end Handlers

/-! ### The replay -/

variable (E : LedgerEnv) (process : Nat)

/-- The loop over what came after the checkpoint. -/
def replayAll (opts : RunFromEventOptions) (excluded : List String) (l : Ledger) (substituted : Bool)
    (events : List ActantEvent) : List ActantEvent → Except Thrown (List ActantEvent)
  | [] => .ok events
  | e :: rest => do
    let (id, l) := l.ulid E process
    let (r, substituted) ← replayPostCheckpointEvent E.library opts excluded e events substituted id
    replayAll opts excluded l substituted (events ++ [r]) rest

/-- The run as `query` lists it. -/
def recordedRun (l : Ledger) (runId : String) : List ActantEvent := l.select { runId := some runId }

/-- Ids are ASCII, so that `<=` orders them as the table does. -/
def runFromEvent (l : Ledger) (opts : RunFromEventOptions) : Except Thrown ReplayRun :=
  match l.get? opts.eventId with
  | none => .error ⟨"Error", "event not found: " ++ opts.eventId⟩
  | some anchor => do
    let original := recordedRun l anchor.runId
    validateExperimentalReplay opts original anchor.runId
    let before := original.filter fun e => e.id ≤ opts.eventId
    let after := original.filter fun e => opts.eventId < e.id
    let (replayId, l) := l.ulid E process
    let excluded := opts.withoutMemory.getD []
    let events ← rebuildReplayManifest E.library excluded before before
    let events ← replayAll E process opts excluded l false events after
    return { id := replayId, fromEvent := opts.eventId, originalRun := anchor.runId, events }

/-! ### The diff -/

inductive DiffKind where
  | identical
  | changed
  | missing
  | extra
deriving DecidableEq, Repr

structure DiffEntry where
  kind : String
  diff : DiffKind
  a : JsValue := .undefined
  b : JsValue := .undefined

def diff : List ActantEvent → List ActantEvent → List DiffEntry
  | [], [] => []
  | x :: xs, [] => { kind := x.kind.text, diff := .missing, a := x.payload } :: diff xs []
  | [], y :: ys => { kind := y.kind.text, diff := .extra, b := y.payload } :: diff [] ys
  | x :: xs, y :: ys =>
    (if x.kind ≠ y.kind then
      { kind := x.kind.text ++ "≠" ++ y.kind.text, diff := .changed, a := x.payload, b := y.payload }
    else if x.payloadHash = y.payloadHash then
      { kind := x.kind.text, diff := .identical, a := x.payload, b := y.payload }
    else { kind := x.kind.text, diff := .changed, a := x.payload, b := y.payload }) :: diff xs ys

def diffReplayAgainstOriginal (l : Ledger) (replay : ReplayRun) : List DiffEntry :=
  diff (recordedRun l replay.originalRun) replay.events

end Replay

end ActantDb
