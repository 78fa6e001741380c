import Mathlib.Data.List.Dedup
import Mathlib.Data.List.Lex
import Mathlib.Data.List.MinMax
import ActantDb.Lib.Ranking
import ActantDb.Replay.RunFromEvent

/-!
# What the tools read

Three tools of the MCP server look at the first events of a ledger only: `listRuns` at fifty for every run that is asked for, `queryPredicate` at ten for every event, and `getWorkspaceSummary` at ten thousand, while `listPendingApprovals` looks at all of them. Events come in the order of their ids, so what is cut off is what happened last. Each of the tools is right exactly when nothing that matters is cut off.
-/

namespace ActantDb

namespace Mcp

/-- A row of the ledger's table, with the time at which it was made. -/
structure LedgerRow extends ActantEvent where
  createdAt : String

/-- The ledger of a workspace. -/
abbrev Workspace := Table fun e : LedgerRow => e.id

namespace Tools

def defaultLimit : Nat := 100

def maxLimit : Nat := 1000

def clampLimit : Option F64 → Nat
  | none => defaultLimit
  | some limit => if !limit.isFinite || limit.rank ≤ 0 then defaultLimit else min limit.toNat maxLimit

/-- In the order of the ids; a limit of zero is no limit. -/
def query (ledger : Workspace) (selects : LedgerRow → Bool) (limit : Nat) : List LedgerRow :=
  let found := (ledger.rows.filter selects).insertionSort fun a b => a.id ≤ b.id
  if limit = 0 then found else found.take limit

/-! ### Runs -/

/-- JavaScript compares strings by their code units. -/
def units (s : String) : List Nat := s.toList.flatMap codeUnits

structure RunEntry where
  runId : String
  startedAt : String
  eventCount : Nat
deriving DecidableEq, Repr

/-- One more event of the run. -/
def RunEntry.addEvent (cur : RunEntry) (e : LedgerRow) : RunEntry :=
  { cur with
    eventCount := cur.eventCount + 1
    startedAt := if units e.createdAt < units cur.startedAt then e.createdAt else cur.startedAt }

/-- The body of the loop over the events. -/
def countEvent (byRun : List RunEntry) (e : LedgerRow) : List RunEntry :=
  if byRun.any fun cur => cur.runId = e.runId then
    byRun.map fun cur => if cur.runId = e.runId then cur.addEvent e else cur
  else byRun ++ [⟨e.runId, e.createdAt, 1⟩]

/-- The map in the order in which its keys were set. -/
def byRun (events : List LedgerRow) : List RunEntry := events.foldl countEvent []

/-- `(a, b) => (a.started_at < b.started_at ? 1 : -1)` says nothing of runs that started at one time, and they may come in any order. -/
def Sorts (sort : List RunEntry → List RunEntry) : Prop :=
  ∀ runs, Ranking.Ranked (fun run => units run.startedAt) runs (sort runs)

def listRuns (sort : List RunEntry → List RunEntry) (ledger : Workspace) (limit : Option F64) : List RunEntry :=
  (sort (byRun (query ledger (fun _ => true) (clampLimit limit * 50)))).take (clampLimit limit)

/-! ### Matches -/

def ofTopic (topic : String) (e : LedgerRow) : Bool := topic = "*" || topic = "" || e.kind.text = topic

/-- The loop, with what it has found. -/
def collect (evaluate : LedgerRow → Bool) (limit : Nat) : List LedgerRow → List LedgerRow → List LedgerRow
  | found, [] => found
  | found, e :: rest =>
    if evaluate e then
      if limit ≤ (found ++ [e]).length then found ++ [e] else collect evaluate limit (found ++ [e]) rest
    else collect evaluate limit found rest

/-- The predicate is one of the type `Predicate`: it is true or false of the kind, the run and the payload of an event. -/
def queryPredicate (ledger : Workspace) (topic : String) (evaluate : LedgerRow → Bool) (limit : Option F64) :
    List LedgerRow :=
  collect evaluate (clampLimit limit) [] (query ledger (ofTopic topic) (clampLimit limit * 10))

/-! ### Pending approvals -/

/-- Its fields are whatever the payload has. -/
structure PendingApproval where
  toolCallId : JsValue
  runId : String
  tool : JsValue
  reason : JsValue
  createdAt : String

/-- `set.has(v)`; no number of a payload is `NaN`. -/
def has (set : List JsValue) (v : JsValue) : Bool := set.any fun w => w.strictEq v

def readPending (e : LedgerRow) : Except Thrown PendingApproval := do
  let toolCallId ← e.payload.read "tool_call_id"
  let tool ← e.payload.read "tool"
  let reason ← e.payload.read "reason"
  return ⟨toolCallId.orElse (.string ""), e.runId, tool.orElse (.string ""), reason.orElse (.string ""), e.createdAt⟩

def listPendingApprovals (ledger : Workspace) : Except Thrown (List PendingApproval) := do
  let events := query ledger (fun e => e.kind = .approvalRequired) 0
  let decisions := query ledger (fun e => e.kind = .approvalDecision) 0
  let decided := (decisions.map fun e => e.payload.get "tool_call_id").filter JsValue.truthy
  let pending ← events.mapM readPending
  return pending.filter fun p => p.toolCallId.truthy && !has decided p.toolCallId

/-! ### Summary -/

structure Summary where
  sessionCount : Nat
  eventCount : Nat
  actorCount : Nat
  pendingApprovals : Nat
deriving DecidableEq, Repr

/-- The sets of the first loop, in the order in which their members were added. Of `decided` only the members matter. -/
structure Seen where
  sessions : List String
  actors : List JsValue
  decided : List JsValue

def Seen.empty : Seen := ⟨[], [], []⟩

def Seen.addSession (seen : Seen) (runId : String) : Seen :=
  if runId ∈ seen.sessions then seen else { seen with sessions := seen.sessions ++ [runId] }

def Seen.addDecided (seen : Seen) (toolCallId : JsValue) : Seen :=
  if toolCallId.truthy then { seen with decided := seen.decided ++ [toolCallId] } else seen

def Seen.addActor (seen : Seen) (approver : JsValue) : Seen :=
  if approver.truthy && !has seen.actors approver then { seen with actors := seen.actors ++ [approver] } else seen

/-- The body of the first loop. -/
def Seen.addEvent (seen : Seen) (e : LedgerRow) : Except Thrown Seen := do
  let seen := seen.addSession e.runId
  if e.kind = .approvalDecision then
    let toolCallId ← e.payload.read "tool_call_id"
    let approver ← e.payload.read "approver"
    return (seen.addDecided toolCallId).addActor approver
  else return seen

/-- The body of the second loop. -/
def addPending (decided : List JsValue) (pending : Nat) (e : LedgerRow) : Except Thrown Nat := do
  if e.kind = .approvalRequired then
    let toolCallId ← e.payload.read "tool_call_id"
    return if toolCallId.truthy && !has decided toolCallId then pending + 1 else pending
  else return pending

def getWorkspaceSummary (ledger : Workspace) : Except Thrown Summary := do
  let all := query ledger (fun _ => true) (maxLimit * 10)
  let seen ← all.foldlM Seen.addEvent .empty
  let pending ← all.foldlM (addPending seen.decided) 0
  return ⟨seen.sessions.length, all.length, seen.actors.length, pending⟩

/-! ### The ledger and what agrees with it -/

/-- All events, in the order of their ids. -/
def history (ledger : Workspace) : List LedgerRow := query ledger (fun _ => true) 0

def eventsOf (events : List LedgerRow) (runId : String) : List LedgerRow := events.filter fun e => e.runId = runId

def runIds (events : List LedgerRow) : List String := (events.map (·.runId)).dedup

/-- The least of them, if there are any. -/
def least {κ : Type} [LinearOrder κ] (keys : List κ) : WithTop κ := keys.minimum

/-- The earliest time of an event of the run. -/
def startOf (events : List LedgerRow) (runId : String) : WithTop (List Nat) :=
  least ((eventsOf events runId).map fun e => units e.createdAt)

/-- The entry of a run that has these events. -/
structure Exact (events : List LedgerRow) (run : RunEntry) : Prop where
  count : run.eventCount = (eventsOf events run.runId).length
  start : startOf events run.runId = units run.startedAt

/-- The runs that started last, as many as are asked for or as there are. -/
structure MostRecent (events : List LedgerRow) (limit : Nat) (runs : List RunEntry) : Prop where
  nodup : (runs.map RunEntry.runId).Nodup
  exact : ∀ run ∈ runs, Exact events run
  few : runs.length ≤ limit
  recent : ∀ runId ∈ runIds events, ¬ runId ∈ runs.map RunEntry.runId →
    runs.length = limit ∧ ∀ run ∈ runs, startOf events runId ≤ units run.startedAt

/-- The summary counts what is in the ledger and what the other tool lists. -/
def SummaryAgrees (ledger : Workspace) : Prop :=
  ∃ summary pending, getWorkspaceSummary ledger = .ok summary ∧ listPendingApprovals ledger = .ok pending ∧
    summary.sessionCount = (runIds (history ledger)).length ∧ summary.eventCount = (history ledger).length ∧
    summary.pendingApprovals = pending.length

/-- The tools agree with the ledger, up to what `clampLimit` makes of the limit. -/
structure Agree (ledger : Workspace) (limit : Option F64) (topic : String) (evaluate : LedgerRow → Bool) : Prop where
  runs : ∀ sort, Sorts sort → MostRecent (history ledger) (clampLimit limit) (listRuns sort ledger limit)
  found : queryPredicate ledger topic evaluate limit =
    (((history ledger).filter (ofTopic topic)).filter evaluate).take (clampLimit limit)
  summary : SummaryAgrees ledger

/-- Fewer than `limit` runs start later. -/
def Listable (events : List LedgerRow) (limit : Nat) (runId : String) : Prop :=
  Ranking.ahead (startOf events) (runIds events) runId < limit

/-- The events that are read are all there are. Or they have enough runs, and of those that can be listed each has all its events among them, and no run that begins in the rest starts later. -/
structure RunsCovered (read rest : List LedgerRow) (limit : Nat) : Prop where
  enough : rest = [] ∨ limit ≤ (runIds read).length
  covered : ∀ runId ∈ runIds read, Listable read limit runId → ∀ e ∈ rest, e.runId ≠ runId ∧
    (¬ e.runId ∈ runIds read → startOf rest e.runId ≤ startOf read runId)

/-- The rest has no match, or the events that are read have enough. -/
def MatchesCovered (read rest : List LedgerRow) (evaluate : LedgerRow → Bool) (limit : Nat) : Prop :=
  (∀ e ∈ rest, evaluate e = false) ∨ 0 < limit ∧ limit ≤ read.countP evaluate

/-- There are ten thousand events at most, and no request and no decision has `null` for its payload. -/
structure SummaryCovered (events : List LedgerRow) : Prop where
  few : events.length ≤ maxLimit * 10
  readable : ∀ e ∈ events, e.kind = .approvalRequired ∨ e.kind = .approvalDecision → Replay.isNull e.payload = false

end Tools

end Mcp

end ActantDb
