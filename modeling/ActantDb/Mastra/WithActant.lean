import Mathlib.Data.List.Induction
import ActantDb.Lib.Run
import ActantDb.Mastra.Gate

/-!
# The runs of a wrapped agent

`withActant` keeps the run context that its tools report to in one variable. Every run sets it when it starts and clears it when it is over, whichever run's it is by then. So a call of a tool is gated and filed under the run that makes it where nothing else has started or finished since that run has started (`filed_iff`), and in particular where the runs come one after the other (`filed_of_serial`).
-/

namespace ActantDb

namespace Mastra

open Guard (Policy)

/-- What a tool was called with, and by name. -/
structure ToolCall where
  toolName : String
  args : JsValue
  /-- The original `execute`. -/
  execute : JsValue → Except Raised JsValue
  toolCallId : String

structure WithActantOptions where
  policy : Option Policy
  opts : Options

namespace WithActantOptions

def gatePolicy (o : WithActantOptions) : Policy := o.policy.getD ⟨none, none, some [], some []⟩

def gatedCall (o : WithActantOptions) (runId : String) (t : ToolCall) : GatedCall where
  runId := runId
  policy := o.gatePolicy
  toolName := t.toolName
  args := t.args
  execute := t.execute
  opts := o.opts
  toolCallId := t.toolCallId

end WithActantOptions

/-- A point at which the runs of an agent take turns. -/
inductive Event where
  /-- `run` starts, unless the first record of the run throws. -/
  | start (run : Nat) (runId : String) (thrown : Option Raised)
  /-- The `finally` of `run`, whether the agent has returned or thrown. -/
  | finish (run : Nat)
  /-- `startRun`, from outside of any `run`. -/
  | startRun (runId : String) (thrown : Option Raised)
  /-- The agent calls a tool on behalf of a run. -/
  | call (run : Nat) (E : GateEnv) (t : ToolCall)

/-- What became of a call: the gated call, if it was one, and what it left. -/
structure Handled where
  gate : Option GatedCall
  left : GateState

/-- `tool.execute` of a wrapped tool. -/
def toolExecute (o : WithActantOptions) (active : Option String) (E : GateEnv) (t : ToolCall) : Handled :=
  match active with
  | none => ⟨none, { GateState.start with calls := [t.args] }⟩
  | some runId => ⟨some (o.gatedCall runId t), (o.gatedCall runId t).final E⟩

/-- The call passed through the gate, everything it has recorded is under the run, and the tool was called with nothing but what the policy and the approver permit. -/
structure Handled.Filed (o : WithActantOptions) (runId : String) (E : GateEnv) (t : ToolCall) (h : Handled) : Prop where
  throughGate : h.gate.isSome
  underRun : ∀ input ∈ h.left.recorded, input.runId = runId
  permitted : ∀ a ∈ h.left.calls, (o.gatedCall runId t).permitted E = some a

/-- The run context that the tools see, and the ids of the runs in flight. -/
structure Wrapper where
  active : Option String
  inFlight : List (Nat × String)

namespace Wrapper

def init : Wrapper := ⟨none, []⟩

def step (w : Wrapper) : Event → Wrapper
  | .start run runId none => ⟨some runId, (run, runId) :: w.inFlight⟩
  | .start _ _ (some _) => w
  | .startRun runId none => { w with active := some runId }
  | .startRun _ (some _) => w
  | .finish run => ⟨none, w.inFlight.filter (·.1 ≠ run)⟩
  | .call _ _ _ => w

/-- A call on behalf of a run in flight is gated and filed under that run. -/
def FiledStep (o : WithActantOptions) (w : Wrapper) : Event → Prop
  | .call run E t => ∀ runId, w.inFlight.lookup run = some runId → (toolExecute o w.active E t).Filed o runId E t
  | _ => True

end Wrapper

/-- The run context that the events leave, the last of them first: the one of the last start, unless a run has finished since. -/
def lastStarted : List Event → Option String
  | [] => none
  | .start _ runId none :: _ => some runId
  | .start _ _ (some _) :: before => lastStarted before
  | .startRun runId none :: _ => some runId
  | .startRun _ (some _) :: before => lastStarted before
  | .finish _ :: _ => none
  | .call _ _ _ :: before => lastStarted before

/-- The last start or finish before a call was a start under the id of its run, or else the call comes to nothing: another run has been started, and the first record throws. -/
def Undisturbed (before : List Event) (runId : String) (E : GateEnv) : Prop :=
  ∃ active, lastStarted before.reverse = some active ∧ (active = runId ∨ E.fault 0 ≠ none)

theorem active_run (events : List Event) : (Lts.run Wrapper.step .init events).active = lastStarted events.reverse := by
  induction events using List.reverseRecOn with
  | nil => rfl
  | append_singleton events event ih =>
    rw [List.reverse_append, Lts.run_append, List.reverse_singleton, List.singleton_append, Lts.run_cons, Lts.run_nil]
    cases event with
    | start run runId thrown =>
      cases thrown with
      | none => rfl
      | some r => exact ih
    | finish run => rfl
    | startRun runId thrown =>
      cases thrown with
      | none => rfl
      | some r => exact ih
    | call run E t => exact ih

/-- A call is filed under a run where that run is active, and where it leaves nothing. -/
theorem toolExecute_filed {o : WithActantOptions} {active : Option String} {runId : String} {E : GateEnv} {t : ToolCall} :
    (toolExecute o active E t).Filed o runId E t ↔ ∃ other, active = some other ∧ (other = runId ∨ E.fault 0 ≠ none) := by
  cases active with
  | none =>
    refine iff_of_false (fun hfiled => Bool.noConfusion hfiled.throughGate) ?_
    rintro ⟨other, hother, -⟩
    cases hother
  | some active =>
    constructor
    · intro hfiled
      refine ⟨active, rfl, or_iff_not_imp_right.mpr fun hfault => ?_⟩
      exact hfiled.underRun _ (GatedCall.requested_recorded (not_not.mp hfault))
    · rintro ⟨other, hother, hrun | hfault⟩
      · cases hother
        cases hrun
        have hgated := GatedCall.gated E (o.gatedCall runId t)
        exact ⟨rfl, hgated.filed, hgated.permitted⟩
      · cases hother
        obtain ⟨r, hr⟩ := Option.ne_none_iff_exists'.mp hfault
        have hleft : (toolExecute o (some active) E t).left = ⟨[], 1, []⟩ := GatedCall.final_of_fault hr
        refine ⟨rfl, ?_, ?_⟩
        · rw [hleft]
          exact List.forall_mem_nil _
        · rw [hleft]
          exact List.forall_mem_nil _

/-- Over an interleaving of the runs, every call of a run in flight is gated and filed under its run exactly where no call is disturbed by another run's start or by a finish. -/
theorem filed_iff (o : WithActantOptions) (events : List Event) :
    Lts.EveryStep Wrapper.step (Wrapper.FiledStep o) .init events ↔
      ∀ before run E t rest runId, events = before ++ .call run E t :: rest →
        (Lts.run Wrapper.step .init before).inFlight.lookup run = some runId → Undisturbed before runId E := by
  rw [Lts.everyStep_iff]
  constructor
  · intro h before run E t rest runId hevents hlookup
    have hfiled := h before (.call run E t) rest hevents runId hlookup
    rw [toolExecute_filed, active_run] at hfiled
    exact hfiled
  · intro h before event rest hevents
    cases event with
    | start run runId thrown => trivial
    | finish run => trivial
    | startRun runId thrown => trivial
    | call run E t =>
      intro runId hlookup
      rw [toolExecute_filed, active_run]
      exact h before run E t rest runId hevents hlookup

/-! ### One run at a time -/

namespace Wrapper

/-- A run starts when no other is in flight, and what finishes is in flight. -/
def SerialStep (w : Wrapper) : Event → Prop
  | .start _ _ none => w.inFlight = []
  | .startRun _ none => False
  | .finish run => (w.inFlight.lookup run).isSome
  | _ => True

/-- Nothing is in flight, or one run, and it is the active one. -/
def AtMostOne (w : Wrapper) : Prop := w.inFlight = [] ∨ ∃ run runId, w.inFlight = [(run, runId)] ∧ w.active = some runId

theorem atMostOne_step (w : Wrapper) (event : Event) (h : w.AtMostOne) (hserial : w.SerialStep event) :
    (w.step event).AtMostOne := by
  cases event with
  | start run runId thrown =>
    cases thrown with
    | some r => exact h
    | none =>
      have hidle : w.inFlight = [] := hserial
      refine Or.inr ⟨run, runId, ?_, rfl⟩
      rw [step, hidle]
  | startRun runId thrown =>
    cases thrown with
    | some r => exact h
    | none => exact absurd hserial id
  | call run E t => exact h
  | finish run =>
    refine Or.inl ?_
    rcases h with hidle | ⟨run', runId, hone, -⟩
    · rw [step, hidle]
      rfl
    · have hrun : run = run' := by
        by_contra hne
        have hlookup : (w.inFlight.lookup run).isSome := hserial
        rw [hone, List.lookup_cons, beq_false_of_ne hne] at hlookup
        cases hlookup
      rw [step, hone, hrun]
      simp

end Wrapper

/-- Runs that come one after the other do not disturb each other. -/
theorem filed_of_serial (o : WithActantOptions) (events : List Event)
    (h : Lts.EveryStep Wrapper.step Wrapper.SerialStep .init events) :
    Lts.EveryStep Wrapper.step (Wrapper.FiledStep o) .init events := by
  have halways := Lts.always_of_invariant Wrapper.AtMostOne Wrapper.atMostOne_step (Or.inl rfl) h
  refine Lts.everyStep_iff.mpr fun before event rest hevents => ?_
  cases event with
  | start run runId thrown => trivial
  | finish run => trivial
  | startRun runId thrown => trivial
  | call run E t =>
    intro runId hlookup
    rcases halways before _ hevents with hidle | ⟨run', runId', hone, hactive⟩
    · rw [hidle] at hlookup
      cases hlookup
    · have hrun : runId' = runId := by
        rw [hone, List.lookup_cons] at hlookup
        cases hsame : run == run' with
        | true =>
          rw [hsame] at hlookup
          exact Option.some_inj.mp hlookup
        | false =>
          rw [hsame] at hlookup
          cases hlookup
      exact toolExecute_filed.mpr ⟨runId', hactive, Or.inl hrun⟩

/-! ### Two runs at a time -/

/-- The run that is still going calls a tool when the other has finished. -/
def overlapping : List Event :=
  [.start 0 "run_a" none, .start 1 "run_b" none, .finish 1,
    .call 0 .sample ⟨"shell.run", .object [], fun _ => .ok .null, "call"⟩]

/-- The tool is called without the gate. -/
theorem overlapping_ungated : ¬ Lts.EveryStep Wrapper.step (Wrapper.FiledStep ⟨none, ⟨false, none⟩⟩) .init overlapping := by
  rintro ⟨-, -, -, hcall, -⟩
  exact Bool.noConfusion (hcall "run_a" rfl).throughGate

end Mastra

end ActantDb
