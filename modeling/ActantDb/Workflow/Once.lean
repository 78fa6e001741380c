import ActantDb.Workflow.Finality

/-!
# Steps that are not called again

A step whose result is in the history is answered from it, so its function is called again only where the history does not show the result: it was read before the result was recorded, the result was not recorded, or what was recorded reads back as nothing.
-/

namespace ActantDb

open Prog Lts

variable {ι : Type} [DecidableEq ι]

/-! ### Successes and records -/

/-- The function of the step has been called in the run, and has returned. -/
def Observation.succeeds (runId key : String) : Observation → Bool
  | .called r k (.ok _) => r = runId && k = key
  | _ => false

/-- The row that records the step in the run. -/
def ActantEvent.records (e : ActantEvent) (runId key : String) : Bool := e.runId = runId && e.completes key

/-- No function has succeeded twice, and no step is recorded twice. -/
def OnceEach (c : WorkflowPool ι) : Prop :=
  ∀ runId key, c.world.log.countP (·.succeeds runId key) ≤ 1 ∧ c.world.rows.countP (·.records runId key) ≤ 1

/-! ### What an invocation has read and called -/

inductive TrailStage where
  -- its history has not been read
  | opening
  | running
  -- a function has returned, and the result is next to be recorded
  | recording (key : String) (v : JsValue)

structure Trail where
  runId : String
  snapshot : List ActantEvent
  called : List String
  stage : TrailStage

namespace Trail

def start : Trail := ⟨"", [], [], .opening⟩

variable (l : Trail)

def calledWith (key : String) : Except JsError JsValue → Trail
  | .ok v => { l with called := key :: l.called, stage := .recording key v }
  | .error _ => { l with called := key :: l.called }

def read (events : List ActantEvent) : Trail :=
  match l.stage with
  | .opening => { l with snapshot := events, stage := .running }
  | _ => l

def settle : Trail :=
  match l.stage with
  | .recording _ _ => { l with stage := .running }
  | _ => l

def next : (o : WorkflowOp) → o.Res → Trail
  | .append _ _, _ => l.settle
  | .query filter, .ok events => if filter.limit = none then l.read events else l
  | .run _ key, r => l.calledWith key r
  | .fetch _ key _ _, r => l.calledWith key (r >>= Response.result)
  | .observe (.invoked runId), _ => { l with runId := runId }
  | _, _ => l

/-- The snapshot has no result for the step. -/
def Unrecorded (key : String) : Prop := (findStepResult l.snapshot key).isUndefined = true

def MayCall (runId key : String) : Prop :=
  runId = l.runId ∧ l.stage = .running ∧ key ∉ l.called ∧ l.Unrecorded key

end Trail

/-- Refused, as a step of a cancelled run or by its name. -/
def StepOutcome.refused : StepOutcome → Bool
  | .threw (.workflow .runCancelled _) | .threw (.workflow .duplicateStep _) => true
  | _ => false

namespace Trail

variable (l : Trail)

/-- A step that was not called gives what is recorded, if anything is. -/
def Explains (step : Step) (outcome : StepOutcome) : Prop :=
  ∀ key, step.key? = some key →
    key ∈ l.called ∨ outcome.refused = true ∨ l.Unrecorded key ∨ outcome = .value (findStepResult l.snapshot key)

def MayAppend (input : AppendInput) : Prop :=
  match l.stage with
  | .recording key v => input = ⟨.toolCallCompleted, l.runId, stepResult key v⟩
  | _ => input.kind ≠ .toolCallCompleted

def allowed : WorkflowOp → Prop
  | .append _ input => l.MayAppend input
  | .query filter => filter.limit = none → filter = { runId := some l.runId }
  | .run runId key => l.MayCall runId key
  | .fetch runId key _ _ => l.MayCall runId key
  | .observe (.invoked _) => l.stage = .opening
  | .observe (.called _ _ _) => False
  | .observe (.settled runId step outcome) => runId = l.runId ∧ l.stage = .running ∧ l.Explains step outcome
  | _ => True

end Trail

def once : Monitor WorkflowOp WorkflowOp.Res Trail where
  allowed l o := l.allowed o
  next l o r := l.next o r

/-- What call `i` has read and called. -/
def WorkflowPool.trail (c : WorkflowPool ι) (i : ι) : Trail := Pool.summary once .start i c.trace

/-! ### Every call keeps to the monitor -/

/-- The history is the snapshot and what the invocation has added, and the steps it has called it has also named. -/
structure Retraces (l : Trail) (s : RunnerState) : Prop where
  running : l.stage = .running
  runId : s.runId = l.runId
  history : ∃ added, s.history = l.snapshot ++ added ∧ ∀ e ∈ added, ∀ key, e.completes key = true → key ∈ l.called
  named : ∀ key ∈ l.called, key ∈ s.seenNames

/-- What a step returns. -/
def Takes (runId : String) (step : Step) (l : Trail) (r : Except JsError (StepOutcome × RunnerState)) : Prop :=
  ∃ outcome s, r = .ok (outcome, s) ∧ Retraces l s ∧ l.runId = runId ∧ l.Explains step outcome

section Steps

variable {X : JsLibrary} {l : Trail} {s : RunnerState} {key name : String} {step : Step}

theorem Retraces.push (h : Retraces l s) {e : ActantEvent} (he : ∀ key, e.completes key = true → key ∈ l.called) :
    Retraces l { s with history := s.history ++ [e] } := by
  obtain ⟨added, hhistory, hadded⟩ := h.history
  refine ⟨h.running, h.runId, ⟨added ++ [e], by simp [hhistory], fun e' he' => ?_⟩, h.named⟩
  rcases List.mem_append.mp he' with hin | hin
  · exact hadded e' hin
  · rw [List.mem_singleton.mp hin]
    exact he

theorem Retraces.seen (h : Retraces l s) (key : String) :
    Retraces l { s with seenNames := key :: s.seenNames } :=
  ⟨h.running, h.runId, h.history, fun k hk => List.mem_cons_of_mem _ (h.named k hk)⟩

theorem calm_once (l : Trail) (hrunning : l.stage = .running) : Calm once (· = l) (Retraces l) where
  now _ _ l' hl := ⟨trivial, fun _ => hl⟩
  note process input l' hl hkind := by
    subst hl
    constructor
    · show l'.MayAppend input
      rw [Trail.MayAppend, hrunning]
      show input.kind ≠ .toolCallCompleted
      rw [hkind]
      nofun
    · intro r
      show l'.settle = l'
      rw [Trail.settle, hrunning]
  push s e h hkind _ _ _ := by
    refine h.push fun key hcompletes => ?_
    rw [ActantEvent.completes, hkind] at hcompletes
    cases hcompletes
  seen s key h := h.seen key

/-- For a step that the invocation has not named, the history says what the snapshot says. -/
theorem Retraces.findStepResult_eq (h : Retraces l s) (hfresh : key ∉ s.seenNames) :
    findStepResult s.history key = findStepResult l.snapshot key := by
  obtain ⟨added, hhistory, hadded⟩ := h.history
  have hnone : added.find? (·.completes key) = none := by
    rw [List.find?_eq_none]
    exact fun e he hcompletes => hfresh (h.named key (hadded e he key hcompletes))
  rw [findStepResult, findStepResult, hhistory, List.find?_append, hnone, Option.or_none]

theorem takes_refused {outcome : StepOutcome} (h : Retraces l s) (hrefused : outcome.refused = true) :
    Safe once (Takes l.runId step) l (pure (outcome, s)) :=
  ⟨outcome, s, rfl, h, rfl, fun _ _ => Or.inr (Or.inl hrefused)⟩

/-- The function of the step has been called. -/
theorem takes_called {outcome : StepOutcome} (h : Retraces l s) (hkey : step.key? = some key) (hcalled : key ∈ l.called) :
    Safe once (Takes l.runId step) l (pure (outcome, s)) := by
  refine ⟨outcome, s, rfl, h, rfl, fun k hk => Or.inl ?_⟩
  rw [hkey] at hk
  cases hk
  exact hcalled

theorem appendStepResult_takes {v : JsValue} (hkey : step.key? = some key) (hstage : l.stage = .recording key v)
    (h : Retraces { l with stage := .running } s) (hcalled : key ∈ l.called) :
    Safe once (Takes l.runId step) l (s.appendStepResult key v) := by
  have hsettle : l.settle = { l with stage := .running } := by rw [Trail.settle, hstage]
  refine ⟨?_, fun r => ?_⟩
  · show l.MayAppend _
    rw [Trail.MayAppend, hstage, ← show s.runId = l.runId from h.runId]
  · show Safe once _ l.settle _
    rw [hsettle]
    cases r with
    | error e => exact takes_called h hkey hcalled
    | ok stamp =>
      refine takes_called (h.push fun k hcompletes => ?_) hkey hcalled
      rw [AppendInput.event, ActantEvent.completes, Bool.and_eq_true] at hcompletes
      have : k = key := by simpa [stepResult, JsValue.get, JsValue.isString, eq_comm] using hcompletes.2
      rw [this]
      exact hcalled

theorem Retraces.calling (h : Retraces l s) (hnamed : key ∈ s.seenNames) :
    Retraces { l with called := key :: l.called, stage := .running } s := by
  obtain ⟨added, hhistory, hadded⟩ := h.history
  refine ⟨rfl, h.runId, ⟨added, hhistory, fun e he k hk => List.mem_cons_of_mem _ (hadded e he k hk)⟩, ?_⟩
  intro k hk
  rcases List.mem_cons.mp hk with rfl | hin
  · exact hnamed
  · exact h.named k hin

/-- The function has been called: it has thrown, or what it returned is recorded. -/
theorem threw_takes {outcome : StepOutcome} (hkey : step.key? = some key) (h : Retraces l s)
    (hnamed : key ∈ s.seenNames) (e : JsError) :
    Safe once (Takes l.runId step) (l.calledWith key (.error e)) (pure (outcome, s)) := by
  have hcalling : Retraces (l.calledWith key (.error e)) s := by
    obtain ⟨-, hrunId, hhistory, hcalled⟩ := h.calling hnamed
    exact ⟨h.running, hrunId, hhistory, hcalled⟩
  exact takes_called hcalling hkey List.mem_cons_self

theorem returned_takes (hkey : step.key? = some key) (h : Retraces l s) (hnamed : key ∈ s.seenNames)
    (v : JsValue) :
    Safe once (Takes l.runId step) (l.calledWith key (.ok v)) (s.appendStepResult key v) :=
  appendStepResult_takes hkey rfl (h.calling hnamed) List.mem_cons_self

/-- The result is in the history, or the step is carried out. -/
theorem cachedOr_takes {live : WorkflowProg (StepOutcome × RunnerState)} (hkey : step.key? = some key)
    (hfresh : key ∉ s.seenNames) (h : Retraces l s)
    (hlive : l.Unrecorded key →
      Safe once (Takes l.runId step) l live) :
    Safe once (Takes l.runId step) l
      (RunnerState.cachedOr { s with seenNames := key :: s.seenNames } key live) := by
  rw [RunnerState.cachedOr]
  have hsame : findStepResult s.history key = findStepResult l.snapshot key := h.findStepResult_eq hfresh
  show Safe once _ l (if (findStepResult s.history key).isUndefined then live else _)
  rw [hsame]
  by_cases hcached : (findStepResult l.snapshot key).isUndefined = true
  · rw [if_pos hcached]
    exact hlive hcached
  · rw [if_neg hcached]
    refine ⟨_, _, rfl, h.seen key, rfl, fun k hk => ?_⟩
    rw [hkey] at hk
    cases hk
    exact Or.inr (Or.inr (Or.inr rfl))

theorem mayCall_of_fresh (h : Retraces l s) (hfresh : key ∉ s.seenNames) (hnone : l.Unrecorded key) :
    l.MayCall s.runId key :=
  ⟨h.runId, h.running, fun hcalled => hfresh (h.named key hcalled), hnone⟩

theorem doRun_takes (h : Retraces l s) (name : String) :
    Safe once (Takes l.runId (.run name)) l (doRun s name) := by
  rw [doRun]
  rcases enter_cases s "step" name with ⟨-, henter⟩ | ⟨-, ⟨message, henter⟩ | ⟨hfresh, henter⟩⟩
  · rw [henter]
    exact takes_refused h rfl
  · rw [henter]
    exact takes_refused h rfl
  · rw [henter]
    refine cachedOr_takes rfl hfresh h fun hnone => ⟨mayCall_of_fresh (s := s) h hfresh hnone, fun r => ?_⟩
    have hseen := h.seen (stepKey "step" name)
    cases r with
    | error e => exact threw_takes rfl hseen List.mem_cons_self e
    | ok v => exact returned_takes rfl hseen List.mem_cons_self v

theorem doCall_takes (h : Retraces l s) (name : String) (args : CallArgs) :
    Safe once (Takes l.runId (.call name args)) l (doCall s name args) := by
  rw [doCall]
  rcases enter_cases s "call" name with ⟨-, henter⟩ | ⟨-, ⟨message, henter⟩ | ⟨hfresh, henter⟩⟩
  · rw [henter]
    exact takes_refused h rfl
  · rw [henter]
    exact takes_refused h rfl
  · rw [henter]
    refine cachedOr_takes rfl hfresh h fun hnone => ?_
    have hseen := h.seen (stepKey "call" name)
    cases args.init with
    | error e =>
      refine ⟨_, _, rfl, hseen, rfl, fun k hk => ?_⟩
      cases hk
      exact Or.inr (Or.inr (Or.inl hnone))
    | ok init =>
      refine ⟨mayCall_of_fresh (s := s) h hfresh hnone, fun fetched => ?_⟩
      show Safe once _ (l.calledWith _ (fetched >>= Response.result)) _
      dsimp only
      cases fetched >>= Response.result with
      | error e => exact threw_takes rfl hseen List.mem_cons_self e
      | ok v => exact returned_takes rfl hseen List.mem_cons_self v

theorem perform_takes (h : Retraces l s) (step : Step) :
    Safe once (Takes l.runId step) l (step.perform X s) := by
  cases hkey : step.key? with
  | none =>
    refine (within_perform X (calm_once l h.running) h step hkey l rfl).mono fun l' r hr => ?_
    obtain ⟨rfl, outcome, s', hr, hretraces, -⟩ := hr
    exact ⟨outcome, s', hr, hretraces, rfl, fun key hsome => by rw [hkey] at hsome; cases hsome⟩
  | some key =>
    cases step with
    | run name => exact doRun_takes h name
    | call name args => exact doCall_takes h name args
    | _ => cases hkey

/-- Not about to record anything, and of the run. -/
def Settles (runId : String) (l : Trail) : Prop := l.stage = .running ∧ l.runId = runId

theorem exec_settles (workflow : Workflow) (h : Retraces l s) :
    Safe once (fun l' _ => Settles l.runId l') l (workflow.exec X s) := by
  induction workflow generalizing l s with
  | ret output => exact ⟨h.running, rfl⟩
  | throw e => exact ⟨h.running, rfl⟩
  | step request next ih =>
    rw [Workflow.exec]
    refine safe_bind ((perform_takes h request).mono fun l' r hr => ?_)
    obtain ⟨outcome, s', rfl, hretraces, hrun, hexplains⟩ := hr
    refine ⟨⟨h.runId.trans hrun.symm, hretraces.running, hexplains⟩, fun _ => ?_⟩
    rw [← hrun]
    exact ih outcome.result hretraces

end Steps

section Invocations

variable {X : JsLibrary} {inv : Invocation} {runId : String}

/-- An operation after the history has been read, that calls no function and records no result. -/
theorem settles_append {l : Trail} (hl : Settles runId l) (process : Nat) (input : AppendInput)
    (hkind : input.kind ≠ .toolCallCompleted) :
    once.allowed l (.append process input) ∧ ∀ r, Settles runId (once.next l (.append process input) r) := by
  obtain ⟨hstage, hrun⟩ := hl
  constructor
  · show l.MayAppend input
    rw [Trail.MayAppend, hstage]
    exact hkind
  · intro r
    show Settles runId l.settle
    rw [Trail.settle, hstage]
    exact ⟨hstage, hrun⟩

theorem append_steady {kind : EventKind} {payload : JsValue} (hkind : kind ≠ .toolCallCompleted) :
    Steady once (Settles runId) (inv.append runId kind payload) :=
  steady_performOr (fun _ hl => settles_append hl _ _ hkind) _ _

theorem query_steady : Steady once (Settles runId) (ledgerQuery { runId := some runId }) := by
  refine steady_performOr (fun l hl => ⟨fun _ => by rw [hl.2], fun r => ?_⟩) _ _
  cases r with
  | error e => exact hl
  | ok events =>
    show Settles runId (l.read events)
    rw [Trail.read, hl.1]
    exact hl

theorem conclude_steady (r : Except JsError JsValue) :
    Steady once (Settles runId) (inv.conclude runId r) :=
  steady_conclude query_steady (fun _ => append_steady (by decide)) (fun _ _ _ hl => ⟨trivial, fun _ => hl⟩) r

theorem attempt_settles {l : Trail} {s : RunnerState} (h : Retraces l s) (hrun : l.runId = runId) :
    Safe once (fun l' _ => Settles runId l') l (inv.attempt runId X s) := by
  subst hrun
  refine safe_bind ((exec_settles _ h).mono fun l' r hr => ?_)
  cases r with
  | error e => exact hr
  | ok a =>
    cases a with
    | error e => exact hr
    | ok output =>
      obtain ⟨hallowed, hnext⟩ := settles_append hr inv.process ⟨.agentRunFinished, l.runId, finished .completed⟩
        nofun
      refine ⟨hallowed, fun r => ?_⟩
      cases r with
      | error e => exact hnext (.error e)
      | ok stamp => exact hnext (.ok stamp)

/-- What every call leaves behind: nothing is about to be recorded. -/
def Idle (l : Trail) : Prop := ∀ key v, l.stage ≠ .recording key v

theorem Settles.idle {l : Trail} (h : Settles runId l) : Idle l := by
  intro key v hstage
  rw [h.1] at hstage
  cases hstage

theorem start_opening {l : Trail} (hl : l.stage = .opening) :
    Safe once (fun l' _ => l' = l) l (inv.start runId) := by
  have happend : ∀ {payload : JsValue}, Steady once (· = l) (inv.append runId .agentRunStarted payload) := by
    intro payload
    refine steady_performOr (fun l' hl' => ?_) _ _
    subst hl'
    constructor
    · show l'.MayAppend _
      rw [Trail.MayAppend, hl]
      show EventKind.agentRunStarted ≠ .toolCallCompleted
      decide
    · intro r
      show l'.settle = l'
      rw [Trail.settle, hl]
  have hquery : Steady once (· = l) (ledgerQuery { runId := some runId, limit := some 1 }) := by
    refine steady_performOr (fun l' hl' => ⟨(by nofun), fun r => ?_⟩) _ _
    cases r <;> exact hl'
  exact (steady_start hquery fun _ => happend).safe l rfl

theorem invokeRun_idle {l : Trail} (hl : l.stage = .opening) (hcalled : l.called = []) (runId : String) :
    Safe once (fun l' _ => Idle l') l (inv.invokeRun X runId) := by
  refine ⟨hl, fun _ => ?_⟩
  have hopening : Trail.stage { l with runId := runId } = .opening := hl
  have hidle : Idle { l with runId := runId } := by
    intro key v hstage
    rw [hopening] at hstage
    cases hstage
  refine safe_bind ((start_opening hopening).mono fun l' r hr => ?_)
  subst hr
  cases r with
  | error e => exact hidle
  | ok _ =>
    refine safe_bind ⟨fun _ => rfl, fun r => ?_⟩
    cases r with
    | error e => exact hidle
    | ok events =>
      have hread : Trail.read { l with runId := runId } events = ⟨runId, events, [], .running⟩ := by
        rw [Trail.read, hopening, hcalled]
      show Safe once (fun l' _ => Idle l') (Trail.read { l with runId := runId } events) _
      rw [hread]
      have hretraces : Retraces ⟨runId, events, [], .running⟩ ⟨inv.process, runId, events, []⟩ :=
        ⟨rfl, rfl, ⟨[], by simp, nofun⟩, nofun⟩
      refine safe_bind ((attempt_settles hretraces rfl).mono fun l' r hr => ?_)
      cases r with
      | error e => exact hr.idle
      | ok a => exact ((conclude_steady a).safe l' hr).mono fun _ _ h => h.idle

end Invocations

/-- **Every call keeps to the monitor.** -/
theorem issue_idle (X : JsLibrary) (call : WorkflowCall) :
    Safe once (fun l _ => Idle l) .start (call.issue X) := by
  have hidle : Idle .start := nofun
  have hnote : ∀ (l : Trail) (process : Nat) (runId : String) (payload : JsValue), l = .start →
      Safe once (fun l _ => Idle l) l ((fun _ => WorkflowReply.done) <$>
        (.performOr (.append process ⟨.effectObserved, runId, payload⟩) (fun r => r.map fun _ => ()) JsError.other :
          WorkflowProg Unit)) := by
    rintro l process runId payload rfl
    refine safe_bind ⟨nofun, fun r => ?_⟩
    cases r <;> exact hidle
  cases call with
  | invoke inv =>
    refine safe_bind (Safe.mono (Q := fun l _ => Idle l) ?_ fun l r hr => ?_)
    · rw [invoke, Invocation.assign]
      cases inv.input.runId with
      | some runId => exact invokeRun_idle rfl rfl runId
      | none => exact ⟨trivial, fun id => invokeRun_idle rfl rfl _⟩
    · cases r <;> exact hr
  | notify process workflowRunId eventId eventData =>
    cases workflowRunId with
    | some runId => exact hnote _ _ _ _ rfl
    | none => exact ⟨trivial, fun id => hnote _ _ _ _ rfl⟩
  | cancel process workflowRunId => exact hnote _ _ _ _ rfl

/-! ### What is asked of a step -/

/-- A function of the step has returned to the call, which has not recorded the result yet. -/
def Trail.Records (l : Trail) (runId key : String) : Prop := l.runId = runId ∧ ∃ v, l.stage = .recording key v

/-- No result of the step is about to be recorded, and the snapshot of call `i` has the record of the step if the ledger has. -/
structure MayCallNow (c : WorkflowPool ι) (i : ι) (runId key : String) : Prop where
  pending : ∀ j, ¬ (c.trail j).Records runId key
  current : c.world.rows.any (·.records runId key) = true → (c.trail i).snapshot.any (·.records runId key) = true

/-- The result reads back as something, and the ledger takes the record. -/
structure Recordable (E : WorkflowEnv) (w : WorkflowWorld) (process : Nat) (input : AppendInput) : Prop where
  result : ∃ j, canonicalJSON (input.payload.get "result") = .ok j ∧ j.isUndefined = false
  taken : (w.ledger.append E.ledger process input).1.isOk = true

def AsksOnce (E : WorkflowEnv) (c : WorkflowPool ι) (i : ι) : WorkflowOp → Prop
  | .append process input => input.kind = .toolCallCompleted → Recordable E c.world process input
  | .run runId key => MayCallNow c i runId key
  | .fetch runId key _ _ => MayCallNow c i runId key
  | _ => True

def CallsAlone (E : WorkflowEnv) (c : WorkflowPool ι) (i : ι) : Prop :=
  ∀ o, c.next? i = some o → AsksOnce E c i o

/-! ### All calls together -/

structure OnceInv (c : WorkflowPool ι) : Prop where
  safe : Pool.AllSafe once (fun l _ => Idle l) (fun _ => .start) c
  stored : ∀ i, ∀ e ∈ (c.trail i).snapshot, e ∈ c.world.rows
  readable : ∀ e ∈ c.world.rows, e.kind = .toolCallCompleted → (e.payload.get "result").isUndefined = false
  each : OnceEach c
  recorded : ∀ runId key, c.world.log.countP (·.succeeds runId key) ≠ 0 →
    c.world.rows.countP (·.records runId key) ≠ 0 ∨ ∃ i, (c.trail i).Records runId key
  pending : ∀ i runId key, (c.trail i).Records runId key → c.world.rows.countP (·.records runId key) = 0
  alone : ∀ i j runId key, (c.trail i).Records runId key → (c.trail j).Records runId key → i = j

section Worlds

variable {E : WorkflowEnv} {w : WorkflowWorld} {o : WorkflowOp} {runId key : String}

/-- What the operation writes down. -/
def loggedBy : (o : WorkflowOp) → o.Res → List Observation
  | .run runId key, r => [.called runId key r]
  | .fetch runId key _ _, r => [.called runId key (r >>= Response.result)]
  | .observe o, _ => [o]
  | _, _ => []

theorem handle_log (E : WorkflowEnv) (o : WorkflowOp) (w : WorkflowWorld) :
    (o.handle E w).2.log = w.log ++ loggedBy o (o.handle E w).1 := by
  cases o <;> simp [WorkflowOp.handle, loggedBy, WorkflowWorld.logged]

theorem records_eq {e : ActantEvent} (h : e.records runId key = true) :
    e.runId = runId ∧ e.kind = .toolCallCompleted ∧ e.completes key = true := by
  have hboth := (Bool.and_eq_true _ _).mp h
  have hkind := ((Bool.and_eq_true _ _).mp hboth.2).1
  exact ⟨of_decide_eq_true hboth.1, of_decide_eq_true hkind, hboth.2⟩

/-- A row completes one step only. -/
theorem completes_unique {e : ActantEvent} {key' : String} (h : e.completes key = true)
    (h' : e.completes key' = true) : key = key' := by
  rw [ActantEvent.completes, Bool.and_eq_true] at h h'
  cases hid : e.payload.get "tool_call_id" with
  | string s =>
    rw [hid] at h h'
    have hkey : s = key := by simpa [JsValue.isString] using h.2
    have hkey' : s = key' := by simpa [JsValue.isString] using h'.2
    rw [← hkey, ← hkey']
  | _ =>
    rw [hid] at h
    cases h.2

/-- The record of a result that reads back as something. -/
theorem append_result {process : Nat} {runId key : String} {v : JsValue}
    (h : Recordable E w process ⟨.toolCallCompleted, runId, stepResult key v⟩) :
    ∃ e, (WorkflowOp.handle E (.append process ⟨.toolCallCompleted, runId, stepResult key v⟩) w).2.rows =
        w.rows ++ [e] ∧ e.runId = runId ∧ e.kind = .toolCallCompleted ∧ e.completes key = true ∧
      (e.payload.get "result").isUndefined = false := by
  rcases append_cases E.ledger process w.ledger ⟨.toolCallCompleted, runId, stepResult key v⟩ with
    ⟨⟨e, herror⟩, -⟩ | ⟨payload, hpayload, -, -, -, hrows⟩
  · have htaken := h.taken
    rw [herror] at htaken
    cases htaken
  · have hkeys : ([("tool_call_id", JsValue.string key), ("status", JsValue.string "ok"), ("result", v)].map
        Prod.fst).Nodup := by simp
    refine ⟨_, hrows, rfl, rfl, ?_, ?_⟩
    · have hid := get_canonicalJSON hkeys hpayload "tool_call_id"
      have hstring : payload.get "tool_call_id" = .string key := (Except.ok.inj hid).symm
      show (EventKind.toolCallCompleted = .toolCallCompleted && (payload.get "tool_call_id").isString key) = true
      rw [hstring]
      simp [JsValue.isString]
    · have hresult := get_canonicalJSON hkeys hpayload "result"
      obtain ⟨j, hj, hdefined⟩ := h.result
      have hsame : payload.get "result" = j := Except.ok.inj (hresult.symm.trans hj)
      show (payload.get "result").isUndefined = false
      rw [hsame]
      exact hdefined

/-- Any other append adds no record of a step. -/
theorem append_other (E : WorkflowEnv) (w : WorkflowWorld) (process : Nat) {input : AppendInput} (hkind : input.kind ≠ .toolCallCompleted) :
    ∃ added, (WorkflowOp.handle E (.append process input) w).2.rows = w.rows ++ added ∧
      ∀ e ∈ added, e.kind ≠ .toolCallCompleted := by
  rcases handle_rows E (.append process input) w with hsame | ⟨_, _, e, ho, hkind', -, hrows⟩
  · exact ⟨[], by rw [hsame, List.append_nil], nofun⟩
  · cases ho
    refine ⟨[e], hrows, fun e' he' => ?_⟩
    rw [List.mem_singleton.mp he', hkind']
    exact hkind

/-- The step is recorded in the snapshot, and what is recorded is something. -/
theorem not_unrecorded {l : Trail} (hreadable : ∀ e ∈ l.snapshot, e.kind = .toolCallCompleted →
    (e.payload.get "result").isUndefined = false) (h : l.snapshot.any (·.records runId key) = true) :
    ¬ l.Unrecorded key := by
  obtain ⟨e, he, hrecords⟩ := List.any_eq_true.mp h
  intro hnone
  rw [Trail.Unrecorded, findStepResult] at hnone
  cases hfind : l.snapshot.find? (·.completes key) with
  | none =>
    have hnot := List.find?_eq_none.mp hfind e he
    exact hnot (records_eq hrecords).2.2
  | some found =>
    rw [hfind] at hnone
    have hcompletes : found.completes key = true := by simpa using List.find?_some hfind
    have hkind := of_decide_eq_true ((Bool.and_eq_true _ _).mp hcompletes).1
    have hdefined := hreadable found (List.mem_of_find?_eq_some hfind) hkind
    rw [Option.map_some, Option.getD_some, hdefined] at hnone
    cases hnone

end Worlds

/-- The operation calls the function of the step. -/
def WorkflowOp.CallsStep (o : WorkflowOp) (runId key : String) : Prop :=
  o = .run runId key ∨ ∃ url init, o = .fetch runId key url init

/-- What an operation that is allowed does, to the trail of its call and to the world. -/
inductive Trail.Moves (l : Trail) (w w' : WorkflowWorld) (o : WorkflowOp) : Trail → Prop where
  | records {key : String} {v : JsValue} {e : ActantEvent} (hstage : l.stage = .recording key v)
      (hlog : w'.log = w.log) (hrows : w'.rows = w.rows ++ [e]) (hrun : e.runId = l.runId)
      (hkind : e.kind = .toolCallCompleted) (hcompletes : e.completes key = true)
      (hdefined : (e.payload.get "result").isUndefined = false) : Moves l w w' o { l with stage := .running }
  | calls {runId key : String} {r : Except JsError JsValue} (ho : o.CallsStep runId key)
      (hmay : l.MayCall runId key) (hlog : w'.log = w.log ++ [.called runId key r]) (hrows : w'.rows = w.rows) :
      Moves l w w' o (l.calledWith key r)
  | reads (hopening : l.stage = .opening) (hlog : w'.log = w.log) (hrows : w'.rows = w.rows) :
      Moves l w w' o { l with snapshot := w.ledger.select { runId := some l.runId }, stage := .running }
  | begins {runId : String} (hopening : l.stage = .opening) (hlog : w'.log = w.log ++ [.invoked runId])
      (hrows : w'.rows = w.rows) : Moves l w w' o { l with runId := runId }
  | notes {added : List ActantEvent} {logged : List Observation} (hrows : w'.rows = w.rows ++ added)
      (hadded : ∀ e ∈ added, e.kind ≠ .toolCallCompleted) (hlog : w'.log = w.log ++ logged)
      (hlogged : ∀ ob ∈ logged, ∀ runId key, ob.succeeds runId key = false) : Moves l w w' o l

section Moves

variable {E : WorkflowEnv} {w : WorkflowWorld} {l : Trail} {o : WorkflowOp}

theorem succeeds_none : ∀ ob ∈ ([] : List Observation), ∀ runId key, ob.succeeds runId key = false :=
  fun _ hob => absurd hob List.not_mem_nil

theorem notes_append {process : Nat} {input : AppendInput} (hkind : input.kind ≠ .toolCallCompleted)
    (hsettle : l.settle = l) :
    l.Moves w (WorkflowOp.handle E (.append process input) w).2 (.append process input)
      (l.next (.append process input) (WorkflowOp.handle E (.append process input) w).1) := by
  obtain ⟨added, hrows, hadded⟩ := append_other E w process hkind
  show l.Moves w _ _ l.settle
  rw [hsettle]
  exact .notes hrows hadded (List.append_nil _).symm succeeds_none

theorem notes_same (hrows : (o.handle E w).2.rows = w.rows)
    (hlogged : ∀ ob ∈ loggedBy o (o.handle E w).1, ∀ runId key, ob.succeeds runId key = false) :
    l.Moves w (o.handle E w).2 o l :=
  .notes (hrows.trans (List.append_nil _).symm) nofun (handle_log E o w) hlogged

/-- An allowed operation makes one of these moves, if it records what can be recorded. -/
theorem moves_of_allowed (hallowed : l.allowed o)
    (hrecordable : ∀ process input, o = .append process input → input.kind = .toolCallCompleted →
      Recordable E w process input) :
    l.Moves w (o.handle E w).2 o (l.next o (o.handle E w).1) := by
  cases o with
  | append process input =>
    have hallowed : l.MayAppend input := hallowed
    cases hstage : l.stage with
    | recording key v =>
      rw [Trail.MayAppend, hstage] at hallowed
      obtain rfl := hallowed
      obtain ⟨e, hrows, hrun, hkind, hcompletes, hdefined⟩ := append_result (hrecordable _ _ rfl rfl)
      have hsettle : l.settle = { l with stage := .running } := by rw [Trail.settle, hstage]
      show l.Moves w _ _ l.settle
      rw [hsettle]
      exact .records hstage rfl hrows hrun hkind hcompletes hdefined
    | opening =>
      rw [Trail.MayAppend, hstage] at hallowed
      exact notes_append hallowed (by rw [Trail.settle, hstage])
    | running =>
      rw [Trail.MayAppend, hstage] at hallowed
      exact notes_append hallowed (by rw [Trail.settle, hstage])
  | run runId key => exact .calls (Or.inl rfl) hallowed rfl rfl
  | fetch runId key url init => exact .calls (Or.inr ⟨url, init, rfl⟩) hallowed rfl rfl
  | query filter =>
    have hsame : (WorkflowOp.handle E (.query filter) w).2.rows = w.rows :=
      congrArg Table.rows (query_events filter)
    cases hr : (WorkflowOp.handle E (.query filter) w).1 with
    | error e => exact notes_same hsame succeeds_none
    | ok events =>
      obtain rfl : events = w.ledger.select filter := query_ok hr
      show l.Moves w _ _ (if filter.limit = none then l.read _ else l)
      by_cases hlimit : filter.limit = none
      · rw [if_pos hlimit, Trail.read]
        cases hstage : l.stage with
        | opening =>
          have hfilter : filter = { runId := some l.runId } := hallowed hlimit
          dsimp only
          rw [hfilter]
          exact .reads hstage rfl (hfilter ▸ hsame)
        | running => exact notes_same hsame succeeds_none
        | recording key v => exact notes_same hsame succeeds_none
      · rw [if_neg hlimit]
        exact notes_same hsame succeeds_none
  | observe ob =>
    cases ob with
    | called runId key result => exact hallowed.elim
    | settled runId step outcome =>
      refine notes_same rfl fun ob hob => ?_
      rw [List.mem_singleton.mp hob]
      exact fun _ _ => rfl
    | invoked runId => exact .begins hallowed rfl rfl
  | ulid process => exact notes_same rfl succeeds_none
  | now runId key => exact notes_same rfl succeeds_none
  | setTimeout delay input => exact notes_same rfl succeeds_none

end Moves

section Steps

variable {E : WorkflowEnv} {c c' : WorkflowPool ι} {i : ι} {runId key : String}

theorem onceInv_start (X : JsLibrary) (calls : ι → WorkflowCall) : OnceInv (WorkflowPool.start X calls) where
  safe i := issue_idle X (calls i)
  stored _ _ he := by cases he
  readable _ he := by cases he
  each _ _ := ⟨Nat.zero_le _, Nat.zero_le _⟩
  recorded _ _ h := absurd rfl h
  pending _ _ _ h := by
    obtain ⟨-, v, hstage⟩ := h
    cases hstage
  alone _ _ _ _ h := by
    obtain ⟨-, v, hstage⟩ := h
    cases hstage

/-- A step that neither calls a function nor records a result. -/
theorem OnceInv.quiet (h : OnceInv c) (hsafe : Pool.AllSafe once (fun l _ => Idle l) (fun _ => .start) c')
    (hstored : ∀ i, ∀ e ∈ (c'.trail i).snapshot, e ∈ c'.world.rows)
    (hreadable : ∀ e ∈ c'.world.rows, e.kind = .toolCallCompleted → (e.payload.get "result").isUndefined = false)
    (hlog : ∀ runId key, c'.world.log.countP (·.succeeds runId key) = c.world.log.countP (·.succeeds runId key))
    (hrows : ∀ runId key, c'.world.rows.countP (·.records runId key) = c.world.rows.countP (·.records runId key))
    (hrecords : ∀ i runId key, (c'.trail i).Records runId key ↔ (c.trail i).Records runId key) : OnceInv c' where
  safe := hsafe
  stored := hstored
  readable := hreadable
  each runId key := by
    rw [hlog, hrows]
    exact h.each runId key
  recorded runId key hcount := by
    rw [hlog] at hcount
    rw [hrows]
    simp only [hrecords]
    exact h.recorded runId key hcount
  pending i runId key hrec := by
    rw [hrows]
    exact h.pending i runId key ((hrecords i runId key).mp hrec)
  alone i j runId key hi hj :=
    h.alone i j runId key ((hrecords i runId key).mp hi) ((hrecords j runId key).mp hj)

/-- What call `i` does to the trails. -/
theorem trail_step {o : WorkflowOp} {next : o.Res → WorkflowProg WorkflowReply}
    (hstep : c.step E i = { world := (o.handle E c.world).2
                            thread := Function.update c.thread i (next (o.handle E c.world).1)
                            trace := c.trace ++ [⟨i, o, (o.handle E c.world).1⟩] }) (j : ι) :
    (c.step E i).trail j = if i = j then (c.trail i).next o (o.handle E c.world).1 else c.trail j := by
  rw [hstep, WorkflowPool.trail, Pool.summary_call (l := fun _ => Trail.start) j]
  split <;> rfl

/-- The result that was about to be recorded is recorded. -/
theorem OnceInv.record (h : OnceInv c) {v : JsValue} {e : ActantEvent}
    (hsafe : Pool.AllSafe once (fun l _ => Idle l) (fun _ => .start) c')
    (hstage : (c.trail i).stage = .recording key v)
    (htrail : ∀ j, c'.trail j = if i = j then { c.trail i with stage := .running } else c.trail j)
    (hlog : c'.world.log = c.world.log) (hrows : c'.world.rows = c.world.rows ++ [e])
    (hrun : e.runId = (c.trail i).runId) (hkind : e.kind = .toolCallCompleted) (hcompletes : e.completes key = true)
    (hdefined : (e.payload.get "result").isUndefined = false) : OnceInv c' := by
  have hmine : (c.trail i).Records (c.trail i).runId key := ⟨rfl, v, hstage⟩
  have hzero := h.pending i _ _ hmine
  have hrec : ∀ runId' key', e.records runId' key' = true ↔ runId' = (c.trail i).runId ∧ key' = key := by
    intro runId' key'
    constructor
    · intro hrecords
      obtain ⟨hrun', -, hcompletes'⟩ := records_eq hrecords
      exact ⟨hrun'.symm.trans hrun, completes_unique hcompletes' hcompletes⟩
    · rintro ⟨rfl, rfl⟩
      simp [ActantEvent.records, hrun, hcompletes]
  have hothers : ∀ j runId' key', (c'.trail j).Records runId' key' → j ≠ i ∧ (c.trail j).Records runId' key' := by
    intro j runId' key' hj
    rw [htrail j] at hj
    by_cases hij : i = j
    · rw [if_pos hij] at hj
      obtain ⟨-, v', hstage'⟩ := hj
      cases hstage'
    · rw [if_neg hij] at hj
      exact ⟨fun hji => hij hji.symm, hj⟩
  have hcount : ∀ runId' key', c'.world.rows.countP (·.records runId' key') =
      c.world.rows.countP (·.records runId' key') + if e.records runId' key' then 1 else 0 := by
    intro runId' key'
    rw [hrows, List.countP_append, List.countP_singleton]
  refine ⟨hsafe, fun j e' he' => ?_, fun e' he' => ?_, fun runId' key' => ⟨?_, ?_⟩, fun runId' key' hsucc => ?_,
    fun j runId' key' hj => ?_, fun j k runId' key' hj hk => ?_⟩
  · have hsnapshot : (c'.trail j).snapshot = (c.trail j).snapshot := by
      rw [htrail j]
      by_cases hij : i = j
      · subst hij
        rw [if_pos rfl]
      · rw [if_neg hij]
    rw [hsnapshot] at he'
    rw [hrows]
    exact List.mem_append_left _ (h.stored j e' he')
  · rw [hrows, List.mem_append, List.mem_singleton] at he'
    rcases he' with he' | rfl
    · exact h.readable e' he'
    · exact fun _ => hdefined
  · rw [hlog]
    exact (h.each runId' key').1
  · rw [hcount]
    by_cases hmatch : e.records runId' key' = true
    · obtain ⟨rfl, rfl⟩ := (hrec runId' key').mp hmatch
      rw [hzero, if_pos hmatch]
    · rw [if_neg hmatch]
      exact (h.each runId' key').2
  · rw [hlog] at hsucc
    rw [hcount]
    rcases h.recorded runId' key' hsucc with hsome | ⟨j, hj⟩
    · exact Or.inl (by omega)
    · by_cases hij : i = j
      · subst hij
        obtain ⟨hrun', v', hstage'⟩ := hj
        rw [hstage] at hstage'
        cases hstage'
        left
        rw [if_pos ((hrec runId' key).mpr ⟨hrun'.symm, rfl⟩)]
        omega
      · refine Or.inr ⟨j, ?_⟩
        rw [htrail j, if_neg hij]
        exact hj
  · obtain ⟨hji, hj⟩ := hothers j runId' key' hj
    rw [hcount, h.pending j runId' key' hj, Nat.zero_add, if_neg]
    intro hmatch
    obtain ⟨rfl, rfl⟩ := (hrec runId' key').mp hmatch
    exact hji (h.alone j i _ _ hj hmine)
  · exact h.alone j k runId' key' (hothers j runId' key' hj).2 (hothers k runId' key' hk).2

/-- The function of a step is called. -/
theorem OnceInv.call (h : OnceInv c) {r : Except JsError JsValue}
    (hsafe : Pool.AllSafe once (fun l _ => Idle l) (fun _ => .start) c')
    (hmay : (c.trail i).MayCall runId key) (hnow : MayCallNow c i runId key)
    (htrail : ∀ j, c'.trail j = if i = j then (c.trail i).calledWith key r else c.trail j)
    (hlog : c'.world.log = c.world.log ++ [.called runId key r]) (hrows : c'.world.rows = c.world.rows) :
    OnceInv c' := by
  obtain ⟨hrun, hrunning, -, hunrecorded⟩ := hmay
  have hidle : ∀ runId' key', ¬ (c.trail i).Records runId' key' := by
    rintro runId' key' ⟨-, v, hstage⟩
    rw [hrunning] at hstage
    cases hstage
  have hsnapshot : ∀ j, (c'.trail j).snapshot = (c.trail j).snapshot := by
    intro j
    rw [htrail j]
    by_cases hij : i = j
    · subst hij
      rw [if_pos rfl]
      cases r <;> rfl
    · rw [if_neg hij]
  have hstored : ∀ j, ∀ e ∈ (c'.trail j).snapshot, e ∈ c'.world.rows := by
    intro j e he
    rw [hsnapshot j] at he
    rw [hrows]
    exact h.stored j e he
  have hreadable : ∀ e ∈ c'.world.rows, e.kind = .toolCallCompleted → (e.payload.get "result").isUndefined = false := by
    rw [hrows]
    exact h.readable
  cases r with
  | error e =>
    refine h.quiet hsafe hstored hreadable (fun runId' key' => ?_) (fun runId' key' => by rw [hrows])
      fun j runId' key' => ?_
    · rw [hlog, List.countP_append]
      rfl
    · rw [htrail j]
      by_cases hij : i = j
      · subst hij
        rw [if_pos rfl]
        exact Iff.rfl
      · rw [if_neg hij]
  | ok v =>
    have hnone : c.world.rows.countP (·.records runId key) = 0 := by
      rw [List.countP_eq_zero]
      intro e he hrecords
      refine not_unrecorded (fun e he => h.readable e (h.stored i e he))
        (hnow.current (List.any_eq_true.mpr ⟨e, he, hrecords⟩)) hunrecorded
    have hfirst : c.world.log.countP (·.succeeds runId key) = 0 := by
      by_contra hsome
      rcases h.recorded runId key hsome with hsome | ⟨j, hj⟩
      · exact hsome hnone
      · exact hnow.pending j hj
    have hother : ∀ runId' key', (runId = runId' ∧ key = key') ∨
        c'.world.log.countP (·.succeeds runId' key') = c.world.log.countP (·.succeeds runId' key') := by
      intro runId' key'
      by_cases hsame : runId = runId' ∧ key = key'
      · exact Or.inl hsame
      · right
        rw [hlog, List.countP_append, List.countP_singleton, if_neg (by simpa [Observation.succeeds] using hsame)]
        rfl
    have hrecords : ∀ j runId' key', (c'.trail j).Records runId' key' ↔
        i = j ∧ runId = runId' ∧ key = key' ∨ i ≠ j ∧ (c.trail j).Records runId' key' := by
      intro j runId' key'
      rw [htrail j]
      by_cases hij : i = j
      · subst hij
        rw [if_pos rfl]
        constructor
        · rintro ⟨hrun', v', hstage'⟩
          cases hstage'
          exact Or.inl ⟨rfl, hrun.trans hrun', rfl⟩
        · rintro (⟨-, rfl, rfl⟩ | ⟨hne, -⟩)
          · exact ⟨hrun.symm, v, rfl⟩
          · exact absurd rfl hne
      · rw [if_neg hij]
        simp [hij]
    refine ⟨hsafe, hstored, hreadable, fun runId' key' => ⟨?_, ?_⟩, fun runId' key' hsucc => ?_,
      fun j runId' key' hj => ?_, fun j k runId' key' hj hk => ?_⟩
    · rcases hother runId' key' with ⟨rfl, rfl⟩ | hsame
      · rw [hlog, List.countP_append, hfirst, Nat.zero_add]
        exact List.countP_le_length
      · rw [hsame]
        exact (h.each runId' key').1
    · rw [hrows]
      exact (h.each runId' key').2
    · rcases hother runId' key' with ⟨rfl, rfl⟩ | hsame
      · exact Or.inr ⟨i, (hrecords i runId key).mpr (Or.inl ⟨rfl, rfl, rfl⟩)⟩
      · rw [hsame] at hsucc
        rw [hrows]
        rcases h.recorded runId' key' hsucc with hsome | ⟨j, hj⟩
        · exact Or.inl hsome
        · refine Or.inr ⟨j, (hrecords j runId' key').mpr (Or.inr ⟨?_, hj⟩)⟩
          rintro rfl
          exact hidle runId' key' hj
    · rw [hrows]
      rcases (hrecords j runId' key').mp hj with ⟨-, rfl, rfl⟩ | ⟨-, hj⟩
      · exact hnone
      · exact h.pending j runId' key' hj
    · rcases (hrecords j runId' key').mp hj with ⟨rfl, rfl, rfl⟩ | ⟨-, hj⟩
      · rcases (hrecords k runId key).mp hk with ⟨hik, -, -⟩ | ⟨-, hk⟩
        · exact hik
        · exact absurd hk (hnow.pending k)
      · rcases (hrecords k runId' key').mp hk with ⟨-, rfl, rfl⟩ | ⟨-, hk⟩
        · exact absurd hj (hnow.pending j)
        · exact h.alone j k runId' key' hj hk

/-- Rows that record no step. -/
theorem countP_records_append {rows added : List ActantEvent} (hadded : ∀ e ∈ added, e.kind ≠ .toolCallCompleted)
    (runId key : String) :
    (rows ++ added).countP (·.records runId key) = rows.countP (·.records runId key) := by
  rw [List.countP_append, List.countP_eq_zero.mpr fun e he hrecords => hadded e he (records_eq hrecords).2.1,
    Nat.add_zero]

/-- A step whose operation neither records a result nor calls a function, by what it does to the trail of its call. -/
theorem OnceInv.other (h : OnceInv c) {l : Trail} {added : List ActantEvent} {logged : List Observation}
    (hsafe : Pool.AllSafe once (fun l _ => Idle l) (fun _ => .start) c')
    (htrail : ∀ j, c'.trail j = if i = j then l else c.trail j)
    (hrows : c'.world.rows = c.world.rows ++ added) (hadded : ∀ e ∈ added, e.kind ≠ .toolCallCompleted)
    (hlog : c'.world.log = c.world.log ++ logged) (hlogged : ∀ o ∈ logged, ∀ runId key, o.succeeds runId key = false)
    (hsnapshot : ∀ e ∈ l.snapshot, e ∈ c.world.rows)
    (hrecords : ∀ runId key, l.Records runId key ↔ (c.trail i).Records runId key) : OnceInv c' := by
  refine h.quiet hsafe (fun j e he => ?_) (fun e he hkind => ?_) (fun runId key => ?_) (fun runId key => ?_)
    fun j runId key => ?_
  · rw [hrows]
    rw [htrail j] at he
    by_cases hij : i = j
    · rw [if_pos hij] at he
      exact List.mem_append_left _ (hsnapshot e he)
    · rw [if_neg hij] at he
      exact List.mem_append_left _ (h.stored j e he)
  · rw [hrows] at he
    rcases List.mem_append.mp he with he | he
    · exact h.readable e he hkind
    · exact absurd hkind (hadded e he)
  · have hzero : logged.countP (·.succeeds runId key) = 0 := by
      rw [List.countP_eq_zero]
      intro o ho hyes
      rw [hlogged o ho runId key] at hyes
      cases hyes
    rw [hlog, List.countP_append, hzero, Nat.add_zero]
  · rw [hrows]
    exact countP_records_append hadded runId key
  · rw [htrail j]
    by_cases hij : i = j
    · subst hij
      rw [if_pos rfl]
      exact hrecords runId key
    · rw [if_neg hij]

/-- What a step of call `i` does: it leaves everything, or makes one of its moves. -/
theorem step_moves (h : Pool.AllSafe once (fun l _ => Idle l) (fun _ => .start) c)
    (hrecordable : ∀ process input, c.next? i = some (.append process input) → input.kind = .toolCallCompleted →
      Recordable E c.world process input) :
    (c.step E i = c ∧ ∃ r, c.thread i = .done r) ∨
      ∃ o l, c.next? i = some o ∧ (c.trail i).allowed o ∧ (c.trail i).Moves c.world (c.step E i).world o l ∧
        (∀ j, (c.step E i).trail j = if i = j then l else c.trail j) ∧
        ∀ j, j ≠ i → (c.step E i).thread j = c.thread j := by
  rcases Pool.step_cases (WorkflowOp.handle E) c i with ⟨r, hdone, hsame⟩ | ⟨o, next, hthread, hnext, hstep⟩
  · exact Or.inl ⟨hsame, r, hdone⟩
  · have hstep : c.step E i = _ := hstep
    have hallowed : (c.trail i).allowed o := h.allowed hthread
    refine Or.inr ⟨o, _, hnext, hallowed, ?_, trail_step hstep, fun j hji => ?_⟩
    · rw [hstep]
      exact moves_of_allowed hallowed fun process input ho => hrecordable process input (ho ▸ hnext)
    · rw [hstep]
      exact Function.update_of_ne hji _ _

theorem onceInv_step (h : OnceInv c) (hasks : CallsAlone E c i) : OnceInv (c.step E i) := by
  have hsafe : Pool.AllSafe once (fun l _ => Idle l) (fun _ => .start) (c.step E i) :=
    Pool.allSafe_step h.safe i
  rcases step_moves h.safe fun process input hnext hkind => hasks _ hnext hkind with
    ⟨hsame, -⟩ | ⟨o, l, hnext, -, hmoves, htrail, -⟩
  · rwa [hsame]
  · cases hmoves with
    | records hstage hlog hrows hrun hkind hcompletes hdefined =>
      exact h.record hsafe hstage htrail hlog hrows hrun hkind hcompletes hdefined
    | calls ho hmay hlog hrows =>
      refine h.call hsafe hmay ?_ htrail hlog hrows
      rcases ho with rfl | ⟨url, init, rfl⟩
      · exact hasks _ hnext
      · exact hasks _ hnext
    | reads hopening hlog hrows =>
      refine h.other hsafe htrail (hrows.trans (List.append_nil _).symm) nofun
        (hlog.trans (List.append_nil _).symm) succeeds_none (fun e he => (mem_select.mp he).1) fun runId key => ?_
      simp [Trail.Records, hopening]
    | begins hopening hlog hrows =>
      refine h.other hsafe htrail (hrows.trans (List.append_nil _).symm) nofun hlog (fun ob hob => ?_) (h.stored i)
        fun runId key => ?_
      · rw [List.mem_singleton.mp hob]
        exact fun _ _ => rfl
      · simp [Trail.Records, hopening]
    | notes hrows hadded hlog hlogged =>
      exact h.other hsafe htrail hrows hadded hlog hlogged (h.stored i) fun _ _ => Iff.rfl

end Steps

/-- Two invocations of a run with one step. -/
def twoInvocations (_ : Bool) : WorkflowCall :=
  .invoke ⟨0, false, ⟨some "run", .undefined, []⟩, fun _ => .step (.run "a") fun _ => .ret .null⟩

end ActantDb
