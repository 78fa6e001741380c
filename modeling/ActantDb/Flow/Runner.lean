import ActantDb.Core.Json
import ActantDb.Lib.Kahn
import ActantDb.Lib.Run
import Mathlib.Data.List.Sort
import Mathlib.Data.List.Dedup

/-!
# The workflow runner

A runner walks through the nodes of a workflow in a topological order and tells its caller what to do for the first step that is open; the caller reports back by the other three operations, at any time and about any node. What is issued waits for its predecessors and stops after a failure or a denial, whatever the caller does. But `complete_step` asks neither what kind a node is nor what its step is waiting for, and `resolve_approval` does not ask the latter: an approval gate can be passed without an approval.
-/

namespace ActantDb

namespace Flow

inductive NodeType where
  | agentTask | modelCall | toolCall | approvalGate | humanTask | condition | parallelGroup | memoryWrite
  | fileOperation | delay | subworkflow
deriving DecidableEq, Repr

/-- The kinds that are done as soon as they are issued. -/
def NodeType.instant : NodeType → Bool
  | .toolCall | .modelCall | .approvalGate | .delay => false
  | _ => true

structure Node where
  key : String
  nodeType : NodeType
  config : Option Value

structure Edge where
  «from» : String
  «to» : String

structure Workflow where
  name : String
  nodes : List Node
  edges : List Edge

namespace Workflow

variable (w : Workflow)

def pairs : List (String × String) := w.edges.map fun e => (e.«from», e.«to»)

/-- The indegrees, and on the stack the nodes without an edge to them, sorted, the last on top. -/
def initial : Kahn.Progress String where
  indeg := Kahn.indegree w.pairs
  ready := (((w.nodes.map Node.key ++ w.edges.map Edge.«to»).dedup.filter fun k => Kahn.indegree w.pairs k = 0)
    |>.insertionSort (· ≤ ·)).reverse
  out := []

def listing : Kahn.Progress String := Kahn.drain w.pairs (Kahn.measure w.pairs w.initial) w.initial

def topologicalOrder : Except String (List String) :=
  if w.listing.out.length ≠ w.nodes.length then .error "cycle detected" else .ok w.listing.out

/-- A key stands for the first node that has it. -/
def node (key : String) : Option Node := w.nodes.find? fun n => n.key = key

/-- The loop ends with nothing left to visit. -/
theorem ready_listing : w.listing.ready = [] := Kahn.ready_drain le_rfl

theorem inv_initial : Kahn.Inv w.pairs w.initial := by
  refine ⟨fun m => ?_, fun m hm => ?_, fun pre n post heq => ?_⟩
  · simp [initial, Kahn.indegree]
  · rw [initial, List.mem_reverse, List.mem_insertionSort, List.mem_filter, decide_eq_true_eq] at hm
    exact hm.2
  · simp [initial] at heq

theorem topological_of_ok {order : List String} (h : w.topologicalOrder = .ok order) : Kahn.Topological w.pairs order := by
  rw [topologicalOrder] at h
  split at h
  · cases h
  · cases h
    exact (w.inv_initial.drain _).order

end Workflow

inductive StepStatus where
  | pending | running | succeeded | failed | skipped | awaitingApproval
deriving DecidableEq, Repr

/-- The statuses at which the runner stops to issue a step. -/
def StepStatus.isOpen : StepStatus → Bool
  | .pending | .running | .awaitingApproval => true
  | _ => false

structure StepRun where
  nodeKey : String
  status : StepStatus
  output : Option Value
  error : Option String
  startedAt : Option String
  finishedAt : Option String

structure Run where
  id : String
  workflowName : String
  steps : String → Option StepRun
  status : StepStatus

/-- `if let Some(s) = steps.get_mut(key)`. -/
def Run.updateStep (run : Run) (key : String) (f : StepRun → StepRun) : Run :=
  { run with steps := fun k => if k = key then (run.steps k).map f else run.steps k }

inductive Action where
  | toolCall (nodeKey tool : String) (args : Value)
  | modelCall (nodeKey prompt : String)
  | awaitApproval (nodeKey summary : String)
  | delay (nodeKey : String) (seconds : Nat)
  | done (run : Run)

/-- The node an action is issued for. -/
def Action.nodeKey : Action → Option String
  | .toolCall key .. | .modelCall key .. | .awaitApproval key .. | .delay key .. => some key
  | .done _ => none

structure Runner where
  workflow : Workflow
  order : List String
  run : Run

namespace Runner

def pendingStep (key : String) : StepRun := ⟨key, .pending, none, none, none, none⟩

/-- The run id is generated. -/
def new (workflow : Workflow) (id : String) : Except String Runner := do
  let order ← workflow.topologicalOrder
  return {
    workflow := workflow
    order := order
    run := {
      id := id
      workflowName := workflow.name
      steps := fun k => if k ∈ workflow.nodes.map Node.key then some (pendingStep k) else none
      status := .pending } }

/-- The first open step in the order; without a step for a key before it the runner panics. -/
def firstOpen (steps : String → Option StepRun) : List String → Option (Option String)
  | [] => some none
  | key :: order =>
    match steps key with
    | none => none
    | some s => if s.status.isOpen then some (some key) else firstOpen steps order

variable (r : Runner)

def completeStep (key : String) (output : Value) (now : String) : Runner :=
  { r with run := r.run.updateStep key fun s =>
      { s with status := .succeeded, output := some output, finishedAt := some now } }

def failStep (key error now : String) : Runner :=
  { r with run := { r.run.updateStep key fun s =>
      { s with status := .failed, error := some error, finishedAt := some now } with status := .failed } }

def resolveApproval (key : String) (approved : Bool) (now : String) : Runner :=
  if approved then
    { r with run := r.run.updateStep key fun s =>
        { s with status := .succeeded, output := some (.object [("approved", .bool true)]), finishedAt := some now } }
  else
    { r with run := { r.run.updateStep key fun s =>
        { s with status := .failed, error := some "denied", finishedAt := some now } with
          status := if (r.run.steps key).isSome then .failed else r.run.status } }

def configText (config : Value) (key default_ : String) : String := ((config.get key).bind Value.asStr).getD default_

def actionFor (key now : String) : Option (Action × Runner) := do
  let node ← r.workflow.node key
  let cfg := node.config.getD (.object [])
  match node.nodeType with
  | .toolCall => return (.toolCall key (configText cfg "tool" "") ((cfg.get "arguments").getD (.object [])), r)
  | .modelCall => return (.modelCall key (configText cfg "prompt" ""), r)
  | .approvalGate =>
    return (.awaitApproval key (configText cfg "summary" "approval required"),
      { r with run := r.run.updateStep key fun s => { s with status := .awaitingApproval } })
  | .delay =>
    let seconds :=
      match cfg.get "seconds" with
      | some (.number (.posInt n)) => n.toNat
      | _ => 0
    return (.delay key seconds, r)
  | _ => return (.toolCall key "noop" (.object []), r.completeStep key (.object [("noop", .bool true)]) now)

/-- `next_action`, or nothing where it panics. -/
def nextAction (now : String) : Option (Action × Runner) := do
  if r.run.status = .failed then
    return (.done r.run, r)
  match ← firstOpen r.run.steps r.order with
  | some key =>
    let started := r.run.updateStep key fun s =>
      if s.status = .pending then { s with status := .running, startedAt := some now } else s
    actionFor { r with run := started } key now
  | none =>
    let run := { r.run with status := .succeeded }
    return (.done run, { r with run := run })

end Runner

/-! ### Calls in any order -/

inductive Call where
  | nextAction (now : String)
  | completeStep (key : String) (output : Value) (now : String)
  | failStep (key error now : String)
  | resolveApproval (key : String) (approved : Bool) (now : String)

namespace Runner

/-- A call that panics leaves the runner as it was. -/
def apply (r : Runner) : Call → Runner
  | .nextAction now => ((r.nextAction now).map Prod.snd).getD r
  | .completeStep key output now => r.completeStep key output now
  | .failStep key error now => r.failStep key error now
  | .resolveApproval key approved now => r.resolveApproval key approved now

/-- What a call issues a node for. -/
def issues (r : Runner) : Call → Option String
  | .nextAction now => (r.nextAction now).bind fun a => a.1.nodeKey
  | _ => none

def statusOf (r : Runner) (key : String) : Option StepStatus := (r.run.steps key).map StepRun.status

/-- There is an approval gate with this key. -/
def IsGate (r : Runner) (key : String) : Prop := ∃ n ∈ r.workflow.nodes, n.key = key ∧ n.nodeType = .approvalGate

/-- A step fails, or an approval is denied. -/
def Halts (r : Runner) : Call → Prop
  | .failStep .. => True
  | .resolveApproval key false _ => (r.run.steps key).isSome = true
  | _ => False

/-- After some calls the runner is `r`, and there is one more call. -/
structure Gated (start : Runner) (before : List Call) (r : Runner) (c : Call) : Prop where
  /-- All that the issued node depends on has succeeded. -/
  predecessors : ∀ key, r.issues c = some key → ∀ e ∈ r.workflow.edges, e.«to» = key → r.statusOf e.«from» = some .succeeded
  /-- A gate succeeds by an approval it waits for. -/
  gates : ∀ key, r.IsGate key → r.statusOf key ≠ some .succeeded → (r.apply c).statusOf key = some .succeeded →
    (∃ now, c = .resolveApproval key true now) ∧ r.statusOf key = some .awaitingApproval
  /-- Nothing is issued after a failure or a denial. -/
  halted : (∃ pre call post, before = pre ++ call :: post ∧ (Lts.run apply start pre).Halts call) → r.issues c = none

/-- The first step that is open. -/
def current (r : Runner) : Option String := (firstOpen r.run.steps r.order).join

/-- A gate is completed by an approval it waits for, if at all, and no other node hides it. -/
def Orderly (r : Runner) : Call → Prop
  | .completeStep key _ _ => r.IsGate key → r.statusOf key = some .succeeded
  | .resolveApproval key true _ =>
    r.IsGate key → r.statusOf key = some .awaitingApproval ∨ r.statusOf key = some .succeeded
  | .nextAction _ =>
    r.run.status ≠ .failed → ∀ key, r.current = some key → r.IsGate key → ∀ n, r.workflow.node key = some n →
      n.nodeType.instant = false
  | _ => True

end Runner

end Flow

end ActantDb
