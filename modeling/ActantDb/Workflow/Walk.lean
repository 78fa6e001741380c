import ActantDb.Workflow.Serve

/-!
# Walking through a step

A step reads the clock, calls its function, appends its marker or its result and looks at the history. For a monitor to which these are all one, a step changes nothing: it is walked through once, here.
-/

namespace ActantDb

open Prog

variable {L : Type} {M : Monitor WorkflowOp WorkflowOp.Res L} {K : L → Prop} {P : RunnerState → Prop}

/-- From every summary in `K` the program is safe, and returns in `K` and in `Q`. -/
def Within {α : Type} (M : Monitor WorkflowOp WorkflowOp.Res L) (K : L → Prop) (Q : Except JsError α → Prop)
    (p : WorkflowProg α) : Prop :=
  ∀ l, K l → Safe M (fun l r => K l ∧ Q r) l p

section Within

variable {α β : Type} {Q Q' : Except JsError α → Prop}

theorem within_pure {a : α} (h : Q (.ok a)) : Within M K Q (pure a) := fun _ hl => ⟨hl, h⟩

theorem within_call {o : WorkflowOp} {next : o.Res → WorkflowProg α}
    (ho : ∀ l, K l → M.allowed l o ∧ ∀ r, K (M.next l o r)) (h : ∀ r, Within M K Q (next r)) :
    Within M K Q (.call o next) :=
  fun l hl => ⟨(ho l hl).1, fun r => h r _ ((ho l hl).2 r)⟩

theorem Within.mono {p : WorkflowProg α} (h : Within M K Q p) (hQ : ∀ r, Q r → Q' r) : Within M K Q' p :=
  fun l hl => (h l hl).mono fun _ r hr => ⟨hr.1, hQ r hr.2⟩

end Within

/-- The clock and the markers are all one to `M` on `K`, and `P` is of the state of the runner but for its markers and the names it has seen. -/
structure Calm (M : Monitor WorkflowOp WorkflowOp.Res L) (K : L → Prop) (P : RunnerState → Prop) : Prop where
  now : ∀ runId key l, K l → M.allowed l (.now runId key) ∧ ∀ r, K (M.next l (.now runId key) r)
  note : ∀ process input l, K l → input.kind = .effectObserved →
    M.allowed l (.append process input) ∧ ∀ r, K (M.next l (.append process input) r)
  push : ∀ s e, P s → e.kind = .effectObserved → e.isEffect "cancel" = false →
    (∀ eventId, e.notifies eventId = false) →
    (∀ name, e.marks "wait" name = true → stepKey "wait" name ∈ s.seenNames) →
    P { s with history := s.history ++ [e] }
  seen : ∀ s key, P s → P { s with seenNames := key :: s.seenNames }

/-- The calls of functions are all one as well, and so are their results where the history has no cancel marker. -/
structure CalmCalls (M : Monitor WorkflowOp WorkflowOp.Res L) (K : L → Prop) (P : RunnerState → Prop) : Prop
    extends Calm M K P where
  run : ∀ runId key l, K l → M.allowed l (.run runId key) ∧ ∀ r, K (M.next l (.run runId key) r)
  fetch : ∀ runId key url init l, K l →
    M.allowed l (.fetch runId key url init) ∧ ∀ r, K (M.next l (.fetch runId key url init) r)
  record : ∀ process s key v l, K l → P s → s.history.any (·.isEffect "cancel") = false →
    M.allowed l (.append process ⟨.toolCallCompleted, s.runId, stepResult key v⟩) ∧
      ∀ r, K (M.next l (.append process ⟨.toolCallCompleted, s.runId, stepResult key v⟩) r)
  result : ∀ s e, P s → e.kind = .toolCallCompleted → P { s with history := s.history ++ [e] }

/-- The name under which a step that calls a function is recorded. -/
def Step.key? : Step → Option String
  | .run name => some (stepKey "step" name)
  | .call name _ => some (stepKey "call" name)
  | _ => none

/-- Whether a step asks if the run is cancelled. -/
def Step.checked (X : JsLibrary) : Step → Bool
  | .run _ | .call _ _ => true
  | .sleep _ duration => (parseDuration X duration).isOk
  | .sleepUntil _ time => (parseAbsoluteTime X time).isOk
  | .waitForEvent _ _ timeout => (timeout.mapM (parseDuration X)).isOk
  | .notify _ _ | .cancel => false

/-- A step is refused as one of a cancelled run, or its name was used, or it goes on. -/
theorem enter_cases (s : RunnerState) (kind name : String) :
    s.history.any (·.isEffect "cancel") = true ∧ s.enter kind name = .error (refusal s.runId) ∨
      s.history.any (·.isEffect "cancel") = false ∧
        ((∃ message, s.enter kind name = .error (.workflow .duplicateStep message)) ∨
          stepKey kind name ∉ s.seenNames ∧ s.enter kind name =
            .ok (stepKey kind name, { s with seenNames := stepKey kind name :: s.seenNames })) := by
  rw [RunnerState.enter, RunnerState.ensureNotCancelled]
  by_cases hcancelled : s.history.any (·.isEffect "cancel") = true
  · exact Or.inl ⟨hcancelled, by rw [if_pos hcancelled]; rfl⟩
  · refine Or.inr ⟨by simpa using hcancelled, ?_⟩
    rw [if_neg hcancelled, RunnerState.recordStepName]
    by_cases hseen : stepKey kind name ∈ s.seenNames
    · exact Or.inl ⟨_, by rw [if_pos hseen]; rfl⟩
    · exact Or.inr ⟨hseen, by rw [if_neg hseen]; rfl⟩

/-- A step throws, the refusal if the run is cancelled, or goes on. -/
theorem enter_throws_or (s : RunnerState) (kind name : String) :
    (∃ e, (e = refusal s.runId ∨ s.history.any (·.isEffect "cancel") = false) ∧ s.enter kind name = .error e) ∨
      s.history.any (·.isEffect "cancel") = false ∧
        s.enter kind name = .ok (stepKey kind name, { s with seenNames := stepKey kind name :: s.seenNames }) := by
  rcases enter_cases s kind name with ⟨-, henter⟩ | ⟨hcancelled, ⟨message, henter⟩ | ⟨-, henter⟩⟩
  · exact Or.inl ⟨_, Or.inl rfl, henter⟩
  · exact Or.inl ⟨_, Or.inr hcancelled, henter⟩
  · exact Or.inr ⟨hcancelled, henter⟩

/-- A step returns, with the state of the runner in `P`, and has thrown the refusal where it asks and the run is cancelled. -/
def Walks (P : RunnerState → Prop) (asks : Prop) (s : RunnerState)
    (r : Except JsError (StepOutcome × RunnerState)) : Prop :=
  ∃ outcome s', r = .ok (outcome, s') ∧ P s' ∧
    (asks → s.history.any (·.isEffect "cancel") = true → outcome = .threw (refusal s.runId))

section Steps

variable {s t : RunnerState} {key name : String}

theorem within_settled {outcome : StepOutcome} (h : P t) : Within M K (Walks P False s) (pure (outcome, t)) :=
  within_pure ⟨outcome, t, rfl, h, False.elim⟩

theorem Walks.of_not_cancelled {asks : Prop} {r : Except JsError (StepOutcome × RunnerState)}
    (hcancelled : s.history.any (·.isEffect "cancel") = false) (h : Walks P False t r) : Walks P asks s r := by
  obtain ⟨outcome, s', hr, hP, -⟩ := h
  refine ⟨outcome, s', hr, hP, fun _ hyes => ?_⟩
  rw [hcancelled] at hyes
  cases hyes

theorem within_refused {e : JsError} (h : P s) (he : e = refusal s.runId ∨ s.history.any (·.isEffect "cancel") = false) :
    Within M K (Walks P True s) (pure (.threw e, s)) := by
  refine within_pure ⟨_, s, rfl, h, fun _ hcancelled => ?_⟩
  rcases he with rfl | hnot
  · rfl
  · rw [hnot] at hcancelled
    cases hcancelled

theorem within_sleepUntilReached (hcalm : Calm M K P) (h : P t) (deadline : JsValue) :
    Within M K (Walks P False s) (sleepUntilReached t key name deadline) := by
  refine within_call (fun l hl => hcalm.now _ _ l hl) fun now => ?_
  by_cases hreached : reached now deadline = true
  · rw [if_pos hreached]
    exact within_settled h
  · rw [if_neg hreached]
    exact within_call (fun l hl => hcalm.now _ _ l hl) fun now => within_settled h

theorem within_awaitEvent (hcalm : Calm M K P) (h : P t) (eventId : String) (marker : JsValue) :
    Within M K (Walks P False s) (awaitEvent t key name eventId marker) := by
  rw [awaitEvent]
  cases (fromMarker t.history name).find? (·.notifies eventId) with
  | some e => exact within_settled h
  | none =>
    dsimp only
    by_cases hundefined : (marker.get "timeoutAt").isUndefined = true
    · rw [if_pos hundefined]
      exact within_settled h
    · rw [if_neg hundefined]
      refine within_call (fun l hl => hcalm.now _ _ l hl) fun now => ?_
      by_cases hreached : reached now (marker.get "timeoutAt") = true
      · rw [if_pos hreached]
        exact within_settled h
      · rw [if_neg hreached]
        exact within_call (fun l hl => hcalm.now _ _ l hl) fun now => within_settled h

theorem waitMarker_marks {runId eventId name' : String} {timeoutAt : Option F64} {stamp : Stamp} :
    (AppendInput.event ⟨.effectObserved, runId, waitMarker name eventId timeoutAt⟩ stamp).marks "wait" name' = true ↔
      name = name' := by
  cases timeoutAt <;>
    simp [ActantEvent.marks, ActantEvent.isEffect, AppendInput.event, waitMarker, JsValue.get, JsValue.isString]

theorem within_beginWait (hcalm : Calm M K P) (h : P t) (hnamed : stepKey "wait" name ∈ t.seenNames)
    (eventId : String) (timeoutAt : Option F64) :
    Within M K (Walks P False s) (beginWait t key name eventId timeoutAt) := by
  refine within_call (fun l hl => hcalm.note _ _ l hl rfl) fun r => ?_
  cases r with
  | error e => exact within_settled h
  | ok stamp =>
    refine within_awaitEvent hcalm (hcalm.push t _ h rfl (by cases timeoutAt <;> rfl)
      (fun _ => by cases timeoutAt <;> rfl) fun name' hmarks => ?_) _ _
    rw [← waitMarker_marks.mp hmarks]
    exact hnamed

theorem within_doSleep (hcalm : Calm M K P) (h : P s) (name : String) (untilMs : F64) :
    Within M K (Walks P True s) (doSleep s name untilMs) := by
  rw [doSleep]
  rcases enter_throws_or s "sleep" name with ⟨e, he, henter⟩ | ⟨hcancelled, henter⟩
  · rw [henter]
    exact within_refused h he
  · rw [henter]
    refine Within.mono ?_ fun r => Walks.of_not_cancelled (t := s) hcancelled
    have hseen := hcalm.seen s (stepKey "sleep" name) h
    dsimp only
    cases findEffect s.history "sleep" name with
    | some existing => exact within_sleepUntilReached hcalm hseen _
    | none =>
      refine within_call (fun l hl => hcalm.note _ _ l hl rfl) fun r => ?_
      cases r with
      | error e => exact within_settled hseen
      | ok stamp => exact within_sleepUntilReached hcalm (hcalm.push _ _ hseen rfl rfl (fun _ => rfl) fun _ h => by cases h) _

theorem within_doWaitForEvent (hcalm : Calm M K P) (h : P s) (name eventId : String) (timeoutMs : Option F64) :
    Within M K (Walks P True s) (doWaitForEvent s name eventId timeoutMs) := by
  rw [doWaitForEvent]
  rcases enter_throws_or s "wait" name with ⟨e, he, henter⟩ | ⟨hcancelled, henter⟩
  · rw [henter]
    exact within_refused h he
  · rw [henter]
    refine Within.mono ?_ fun r => Walks.of_not_cancelled (t := s) hcancelled
    have hseen := hcalm.seen s (stepKey "wait" name) h
    dsimp only
    cases findEffect s.history "wait" name with
    | some marker => exact within_awaitEvent hcalm hseen _ _
    | none =>
      cases timeoutMs with
      | none => exact within_beginWait hcalm hseen List.mem_cons_self _ _
      | some ms =>
        exact within_call (fun l hl => hcalm.now _ _ l hl) fun now => within_beginWait hcalm hseen List.mem_cons_self _ _

/-- A step that calls no function is walked through, if it asks or not. -/
theorem within_perform (X : JsLibrary) (hcalm : Calm M K P) (h : P s) (step : Step)
    (hquiet : step.key? = none) : Within M K (Walks P (step.checked X = true) s) (step.perform X s) := by
  have hasks : ∀ {asks : Prop} {p}, Within M K (Walks P True s) p → Within M K (Walks P asks s) p := by
    intro asks p hp
    refine hp.mono fun r hr => ?_
    obtain ⟨outcome, s', hr, hP, hthrew⟩ := hr
    exact ⟨outcome, s', hr, hP, fun _ => hthrew trivial⟩
  have hsettled : ∀ {asks : Prop} {outcome}, ¬ asks → Within M K (Walks P asks s) (pure (outcome, s)) :=
    fun hnot => within_pure ⟨_, s, rfl, h, fun hasked => absurd hasked hnot⟩
  cases step with
  | run name => cases hquiet
  | call name args => cases hquiet
  | sleep name duration =>
    rw [Step.perform, Step.checked]
    cases parseDuration X duration with
    | error e => exact hsettled fun h => by cases h
    | ok ms =>
      exact within_call (fun l hl => hcalm.now _ _ l hl) fun now => hasks (within_doSleep hcalm h name _)
  | sleepUntil name time =>
    rw [Step.perform, Step.checked]
    cases parseAbsoluteTime X time with
    | error e => exact hsettled fun h => by cases h
    | ok untilMs => exact hasks (within_doSleep hcalm h name untilMs)
  | waitForEvent name eventId timeout =>
    rw [Step.perform, Step.checked]
    cases timeout.mapM (parseDuration X) with
    | error e => exact hsettled fun h => by cases h
    | ok timeoutMs => exact hasks (within_doWaitForEvent hcalm h name eventId timeoutMs)
  | notify eventId data =>
    refine within_call (fun l hl => hcalm.note _ _ l hl rfl) fun r => ?_
    cases r <;> exact hsettled fun h => by cases h
  | cancel =>
    refine within_call (fun l hl => hcalm.note _ _ l hl rfl) fun r => ?_
    cases r <;> exact hsettled fun h => by cases h

theorem within_appendStepResult (hcalm : CalmCalls M K P) (h : P t)
    (hcancelled : t.history.any (·.isEffect "cancel") = false) (v : JsValue) :
    Within M K (Walks P False s) (t.appendStepResult key v) := by
  refine within_call (fun l hl => hcalm.record _ t key v l hl h hcancelled) fun r => ?_
  cases r with
  | error e => exact within_settled h
  | ok stamp => exact within_settled (hcalm.result t _ h rfl)

theorem within_cachedOr {live : WorkflowProg (StepOutcome × RunnerState)} (h : P t)
    (hlive : Within M K (Walks P False s) live) : Within M K (Walks P False s) (t.cachedOr key live) := by
  rw [RunnerState.cachedOr]
  by_cases hcached : (findStepResult t.history key).isUndefined = true
  · rw [if_pos hcached]
    exact hlive
  · rw [if_neg hcached]
    exact within_settled h

theorem within_doRun (hcalm : CalmCalls M K P) (h : P s) (name : String) :
    Within M K (Walks P True s) (doRun s name) := by
  rw [doRun]
  rcases enter_throws_or s "step" name with ⟨e, he, henter⟩ | ⟨hcancelled, henter⟩
  · rw [henter]
    exact within_refused h he
  · rw [henter]
    refine Within.mono ?_ fun r => Walks.of_not_cancelled (t := s) hcancelled
    have hseen := hcalm.seen s (stepKey "step" name) h
    refine within_cachedOr hseen (within_call (fun l hl => hcalm.run _ _ l hl) fun r => ?_)
    cases r with
    | error e => exact within_settled hseen
    | ok v => exact within_appendStepResult hcalm hseen hcancelled v

theorem within_doCall (hcalm : CalmCalls M K P) (h : P s) (name : String) (args : CallArgs) :
    Within M K (Walks P True s) (doCall s name args) := by
  rw [doCall]
  rcases enter_throws_or s "call" name with ⟨e, he, henter⟩ | ⟨hcancelled, henter⟩
  · rw [henter]
    exact within_refused h he
  · rw [henter]
    refine Within.mono ?_ fun r => Walks.of_not_cancelled (t := s) hcancelled
    have hseen := hcalm.seen s (stepKey "call" name) h
    refine within_cachedOr hseen ?_
    cases args.init with
    | error e => exact within_settled hseen
    | ok init =>
      refine within_call (fun l hl => hcalm.fetch _ _ _ _ l hl) fun fetched => ?_
      cases fetched >>= Response.result with
      | error e => exact within_settled hseen
      | ok v => exact within_appendStepResult hcalm hseen hcancelled v

/-- Every step is walked through. -/
theorem within_step (X : JsLibrary) (hcalm : CalmCalls M K P) (h : P s) (step : Step) :
    Within M K (Walks P (step.checked X = true) s) (step.perform X s) := by
  have hasks : ∀ {asks : Prop} {p}, Within M K (Walks P True s) p → Within M K (Walks P asks s) p := by
    intro asks p hp
    refine hp.mono fun r hr => ?_
    obtain ⟨outcome, s', hr, hP, hthrew⟩ := hr
    exact ⟨outcome, s', hr, hP, fun _ => hthrew trivial⟩
  cases hkey : step.key? with
  | none => exact within_perform X hcalm.toCalm h step hkey
  | some key =>
    cases step with
    | run name => exact hasks (within_doRun hcalm h name)
    | call name args => exact hasks (within_doCall hcalm h name args)
    | _ => cases hkey

end Steps

/-! ### Around the handler -/

section Invocations

variable {inv : Invocation} {runId : String}

theorem steady_start (hquery : Steady M K (ledgerQuery { runId := some runId, limit := some 1 }))
    (hstart : ∀ payload, Steady M K (inv.append runId .agentRunStarted payload)) : Steady M K (inv.start runId) := by
  refine hquery.bind fun existing => ?_
  by_cases hempty : existing.isEmpty = true
  · rw [if_pos hempty]
    exact (hstart _).bind fun _ => steady_done _
  · rw [if_neg hempty]
    exact steady_done _

/-- An invocation ends with a timer, a record of the end, or a look at the history before that. -/
theorem steady_conclude (hquery : Steady M K (ledgerQuery { runId := some runId }))
    (hfinished : ∀ payload, Steady M K (inv.append runId .agentRunFinished payload))
    (htimer : ∀ delay input l, K l → M.allowed l (.setTimeout delay input) ∧
      ∀ r, K (M.next l (.setTimeout delay input) r))
    (r : Except JsError JsValue) : Steady M K (inv.conclude runId r) := by
  have hend : ∀ {payload : JsValue} {result : WorkflowRunResult}, Steady M K
      (inv.append runId .agentRunFinished payload >>= fun _ => pure result) :=
    (hfinished _).bind fun _ => steady_done _
  cases r with
  | ok output => exact steady_done _
  | error e =>
    cases e with
    | suspended reason stepName retryAfterMs waitingForEventId =>
      refine Steady.bind ?_ fun _ => steady_done _
      rw [Invocation.scheduleResume]
      by_cases hauto : inv.autoResume = true
      · rw [if_pos hauto]
        exact ⟨fun l hl => ⟨(htimer _ _ l hl).1, fun r => (htimer _ _ l hl).2 r⟩⟩
      · rw [if_neg hauto]
        exact steady_done _
    | cancelled => exact hend
    | other e => exact hend
    | workflow code message =>
      cases code with
      | runCancelled =>
        refine Steady.bind (hquery.bind fun events => ?_) fun _ => steady_done _
        by_cases hrecorded : events.any (·.recordsEnd "cancelled") = true
        · rw [if_pos hrecorded]
          exact steady_done _
        · rw [if_neg hrecorded]
          exact (hfinished _).bind fun _ => steady_done _
      | duplicateStep => exact hend
      | notFound => exact hend
      | invalidDuration => exact hend
      | invalidRequest => exact hend
      | stepThrew => exact hend

end Invocations

end ActantDb
