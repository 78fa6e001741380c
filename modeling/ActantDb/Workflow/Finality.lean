import ActantDb.Workflow.Walk

/-!
# The end of a run

An invocation reads the history of its run once, and asks that history whether the run has been cancelled. Nothing asks whether the run has ended. So a cancel marker that lands after the reading stops no step, a handler that asks for no step or swallows the refusal completes a cancelled run, and a run that has ended ends again when it is invoked again. Those are the only ways (`end_is_final`).
-/

namespace ActantDb

open Prog Lts

variable {ι : Type} [DecidableEq ι]

namespace ActantEvent

variable (e : ActantEvent) (runId : String)

def cancels : Bool := e.runId = runId && e.isEffect "cancel"

def endsRun : Bool := e.runId = runId && e.kind = .agentRunFinished

def holdsResult : Bool := e.runId = runId && e.kind = .toolCallCompleted

end ActantEvent

/-- The input of a record that the run is completed. -/
def AppendInput.completesRun (input : AppendInput) : Bool :=
  input.kind = .agentRunFinished && (input.payload.get "status").isString "completed"

def WorkflowWorld.rows (w : WorkflowWorld) : List ActantEvent := w.ledger.events.rows

/-! ### Calls that interleave -/

abbrev WorkflowPool (ι : Type) := Pool ι WorkflowWorld WorkflowOp WorkflowOp.Res JsError WorkflowReply

def WorkflowWorld.empty : WorkflowWorld := ⟨.empty, 0, []⟩

/-- Every call at its start, over an empty ledger. -/
def WorkflowPool.start (X : JsLibrary) (calls : ι → WorkflowCall) : WorkflowPool ι :=
  Pool.init .empty fun i => (calls i).issue X

def WorkflowPool.step (E : WorkflowEnv) (c : WorkflowPool ι) (i : ι) : WorkflowPool ι :=
  Pool.step (WorkflowOp.handle E) c i

/-- The call returns, and says that the run is completed. -/
def WorkflowPool.Reports (E : WorkflowEnv) (c : WorkflowPool ι) (i : ι) (runId : String) : Prop :=
  (c.next? i).isSome ∧ ∃ result : WorkflowRunResult,
    (c.step E i).thread i = .done (.ok (.invoked result)) ∧ result.status = .completed ∧ result.runId = runId

/-- What a step does to a cancelled run: no result of a step is recorded, and the run is not reported completed. -/
structure CancelHolds (E : WorkflowEnv) (c : WorkflowPool ι) (i : ι) (runId : String) : Prop where
  results : (c.step E i).world.rows.filter (·.holdsResult runId) = c.world.rows.filter (·.holdsResult runId)
  reports : ¬ c.Reports E i runId

def CancelIsFinal (E : WorkflowEnv) (c : WorkflowPool ι) (i : ι) : Prop :=
  ∀ runId, c.world.rows.any (·.cancels runId) = true → CancelHolds E c i runId

/-- No run has ended twice. -/
def EndsOnce (c : WorkflowPool ι) : Prop := ∀ runId, c.world.rows.countP (·.endsRun runId) ≤ 1

/-! ### What is asked of a step -/

/-- An error after which an invocation records no end of its own. -/
def JsError.isRefusal : JsError → Bool
  | .workflow .runCancelled _ => true
  | .suspended _ _ _ _ => true
  | _ => false

/-- With every step refused that asks whether the run is cancelled, the handler lets the refusal through. -/
def Workflow.Heeds (X : JsLibrary) (runId : String) : Workflow → Prop
  | .ret _ => False
  | .throw e => e.isRefusal = true
  | .step request next =>
    if request.checked X then (next (.error (refusal runId))).Heeds X runId
    else ∀ r, (next r).Heeds X runId

/-- How far an invocation is. -/
inductive Stage where
  -- its history has not been read
  | opening
  | running
  -- it was refused, and has found no record of that
  | unrecorded
deriving DecidableEq

/-- What a call knows of its run. -/
structure Course where
  heeds : String → Prop
  runId : String
  snapshot : List ActantEvent
  stage : Stage

namespace Course

variable (l : Course) (w : WorkflowWorld)

/-- The snapshot shows what the ledger does. -/
def Shows (p : String → ActantEvent → Bool) : Prop :=
  w.rows.any (p l.runId) = true → l.snapshot.any (p l.runId) = true

/-- The handler heeds a refusal if the run is cancelled, and the run has not ended but by that. -/
structure MayRead : Prop where
  heeds : w.rows.any (·.cancels l.runId) = true → l.heeds l.runId
  ends : ∀ e ∈ w.rows, e.endsRun l.runId = true →
    e.recordsEnd "cancelled" = true ∧ w.rows.any (·.cancels l.runId) = true

/-- The record of a result or of a completion finds the snapshot up to date with the cancel markers of the run, and every record of an end finds it up to date with the ends; the history is read of a run that may be. -/
def Meets : WorkflowOp → Prop
  | .append _ input =>
    (input.kind = .toolCallCompleted ∨ input.completesRun = true → l.Shows w fun runId e => e.cancels runId) ∧
    (input.kind = .agentRunFinished → l.Shows w fun runId e => e.endsRun runId)
  | .query filter => l.stage = .opening → filter.limit = none → l.MayRead w
  | _ => True

/-- The history has the cancel marker that makes every step throw. -/
def refuses : Bool := l.snapshot.any (·.isEffect "cancel")

def read (events : List ActantEvent) : Course :=
  match l.stage with
  | .opening => { l with snapshot := events, stage := .running }
  | _ => if events.any (·.recordsEnd "cancelled") then l else { l with stage := .unrecorded }

def next : (o : WorkflowOp) → o.Res → Course
  | .query filter, .ok events => if filter.limit = none then l.read events else l
  | .observe (.invoked runId), _ => { l with runId := runId }
  | _, _ => l

/-- A result is recorded of a run whose steps are not refused, and the end of the run by a handler that is not refused, does not heed it, or has its refusal to record. -/
def allowed : WorkflowOp → Prop
  | .append _ input =>
    (input.kind = .toolCallCompleted → input.runId = l.runId ∧ l.stage = .running ∧ l.refuses = false) ∧
    (input.kind = .agentRunFinished → input.runId = l.runId ∧
      (l.stage = .running ∧ (l.refuses = true → ¬ l.heeds l.runId) ∨
        l.stage = .unrecorded ∧ input.completesRun = false))
  | .query filter => filter.limit = none → filter = { runId := some l.runId }
  | .observe (.invoked _) => l.stage = .opening
  | _ => True

end Course

/-- The run that the operation has recorded as completed. -/
def completedBy : (o : WorkflowOp) → o.Res → Option String
  | .append _ input, .ok _ => if input.completesRun then some input.runId else none
  | _, _ => none

/-- What a call knows of its run, and what its last operation has completed. -/
def finality : Monitor WorkflowOp WorkflowOp.Res (Course × Option String) where
  allowed l o := l.1.allowed o
  next l o r := (l.1.next o r, completedBy o r)

def WorkflowCall.course (X : JsLibrary) : WorkflowCall → Course
  | .invoke inv =>
    ⟨fun runId => (inv.handler ⟨runId, inv.input.body, inv.input.headers⟩).Heeds X runId, "", [], .opening⟩
  | _ => ⟨fun _ => True, "", [], .opening⟩

/-- What call `i` knows after the operations of the trace. -/
def WorkflowPool.course (X : JsLibrary) (calls : ι → WorkflowCall) (c : WorkflowPool ι) (i : ι) : Course :=
  (Pool.summary finality ((calls i).course X, none) i c.trace).1

def StepMeets (X : JsLibrary) (calls : ι → WorkflowCall) (c : WorkflowPool ι) (i : ι) : Prop :=
  ∀ o, c.next? i = some o → (c.course X calls i).Meets c.world o

/-! ### What an invocation does -/

/-- The program leaves what it knows as it is, and returns in `Q`. -/
def Stays {α : Type} (l : Course) (Q : Except JsError α → Prop) (p : WorkflowProg α) : Prop :=
  Within finality (fun l' => l'.1 = l) Q p

section Stays

variable {α β : Type} {l : Course} {Q : Except JsError α → Prop}

theorem stays_call {o : WorkflowOp} {next : o.Res → WorkflowProg α} (hallowed : l.allowed o)
    (hnext : ∀ r, l.next o r = l) (h : ∀ r, Stays l Q (next r)) : Stays l Q (.call o next) := by
  refine within_call (fun l' hl => ?_) h
  subst hl
  exact ⟨hallowed, hnext⟩

theorem Stays.bind {p : WorkflowProg α} {f : α → WorkflowProg β} {Q' : Except JsError β → Prop}
    (h : Stays l Q p) (hok : ∀ a, Q (.ok a) → Stays l Q' (f a)) (herror : ∀ e, Q (.error e) → Q' (.error e)) :
    Stays l Q' (p >>= f) := by
  intro l' hl'
  refine safe_bind ((h l' hl').mono fun l'' r hr => ?_)
  cases r with
  | ok a => exact hok a hr.2 l'' hr.1
  | error e => exact ⟨hr.1, herror e hr.2⟩

/-- An append that records neither a result nor an end. -/
theorem stays_note {process : Nat} {input : AppendInput} {next : Except Thrown Stamp → WorkflowProg α}
    (hkind : input.kind = .effectObserved ∨ input.kind = .agentRunStarted) (h : ∀ r, Stays l Q (next r)) :
    Stays l Q (.call (.append process input) next) := by
  refine stays_call ⟨fun hk => ?_, fun hk => ?_⟩ (fun r => by cases r <;> rfl) h
  · rcases hkind with hkind | hkind <;> cases hkind.symm.trans hk
  · rcases hkind with hkind | hkind <;> cases hkind.symm.trans hk

end Stays

/-- The state of the runner is of the run, and has the cancel marker if the snapshot has. -/
structure Follows (l : Course) (s : RunnerState) : Prop where
  running : l.stage = .running
  runId : s.runId = l.runId
  refuses : s.history.any (·.isEffect "cancel") = l.refuses

section Steps

variable {X : JsLibrary} {l : Course} {s : RunnerState}

theorem Follows.push (h : Follows l s) {e : ActantEvent} (he : e.isEffect "cancel" = false) :
    Follows l { s with history := s.history ++ [e] } := by
  refine ⟨h.running, h.runId, ?_⟩
  simp [List.any_append, he, h.refuses]

theorem calm_finality (l : Course) : CalmCalls finality (fun l' => l'.1 = l) (Follows l) where
  now _ _ l' hl := ⟨trivial, fun _ => hl⟩
  note process input l' hl hkind := by
    refine ⟨⟨fun hk => ?_, fun hk => ?_⟩, fun r => hl⟩
    · cases hkind.symm.trans hk
    · cases hkind.symm.trans hk
  push _ _ h _ he _ _ := h.push he
  seen _ _ h := ⟨h.running, h.runId, h.refuses⟩
  run _ _ _ hl := ⟨trivial, fun _ => hl⟩
  fetch _ _ _ _ _ hl := ⟨trivial, fun _ => hl⟩
  record process s key v l' hl h hcancelled := by
    subst hl
    refine ⟨⟨fun _ => ⟨h.runId, h.running, h.refuses ▸ hcancelled⟩, fun hk => ?_⟩, fun _ => rfl⟩
    cases hk
  result s e h hkind := h.push (by rw [ActantEvent.isEffect, hkind]; rfl)

/-- A handler that heeds a refusal ends with one where every step is refused. -/
theorem exec_stays (workflow : Workflow) (h : Follows l s) :
    Stays l (fun r => l.refuses = true → workflow.Heeds X l.runId →
        ∃ e, r = .ok (.error e) ∧ e.isRefusal = true)
      (workflow.exec X s) := by
  induction workflow generalizing s with
  | ret output => exact within_pure fun _ hheeds => hheeds.elim
  | throw e => exact within_pure fun _ hheeds => ⟨e, rfl, hheeds⟩
  | step request next ih =>
    rw [Workflow.exec]
    refine Stays.bind (within_step X (calm_finality l) h request) (fun a ha => ?_) fun e he => ?_
    · obtain ⟨outcome, s', ha, hfollows, hthrew⟩ := ha
      cases ha
      refine stays_call trivial (fun _ => rfl) fun _ => Within.mono (ih outcome.result hfollows) fun r hr => ?_
      intro hrefuses hheeds
      refine hr hrefuses ?_
      rw [Workflow.Heeds] at hheeds
      by_cases hchecked : request.checked X = true
      · rw [if_pos hchecked] at hheeds
        rw [hthrew hchecked (h.refuses.trans hrefuses), h.runId]
        exact hheeds
      · rw [if_neg hchecked] at hheeds
        exact hheeds _
    · obtain ⟨_, _, he, -⟩ := he
      cases he

end Steps

/-- The handler has returned and that is recorded, or it has thrown, the refusal where it heeds one. -/
def Attempted (l : Course) (l' : Course × Option String) (r : Except JsError (Except JsError JsValue)) : Prop :=
  l'.1 = l ∧ (∀ output, r = .ok (.ok output) → l'.2 = some l.runId) ∧
    ∀ e, r = .ok (.error e) → l.refuses = true → l.heeds l.runId → e.isRefusal = true

/-- A result that says completed is returned right after the record of it. -/
def ToldResult (l : Course × Option String) (r : Except JsError WorkflowRunResult) : Prop :=
  ∀ result, r = .ok result → result.status = .completed → l.2 = some result.runId

def Told (l : Course × Option String) (r : Except JsError WorkflowReply) : Prop :=
  ∀ result, r = .ok (.invoked result) → result.status = .completed → l.2 = some result.runId

section Invocations

variable {X : JsLibrary} {l : Course} {s : RunnerState} {inv : Invocation}

theorem attempt_safe (h : Follows l s) (done : Option String)
    (hheeds : l.heeds l.runId → (inv.handler ⟨l.runId, inv.input.body, inv.input.headers⟩).Heeds X l.runId) :
    Safe finality (Attempted l) (l, done) (inv.attempt l.runId X s) := by
  refine safe_bind ((exec_stays _ h (l, done) rfl).mono fun l' r hr => ?_)
  obtain ⟨l', done'⟩ := l'
  obtain ⟨rfl, hr⟩ := hr
  cases r with
  | error e => exact ⟨rfl, nofun, nofun⟩
  | ok a =>
    cases a with
    | error e =>
      refine ⟨rfl, nofun, fun _ he hrefuses hheed => ?_⟩
      cases he
      obtain ⟨e', he', href⟩ := hr hrefuses (hheeds hheed)
      cases he'
      exact href
    | ok output =>
      have hunheeded : l'.refuses = true → ¬ l'.heeds l'.runId := by
        intro hrefuses hheed
        obtain ⟨_, he, -⟩ := hr hrefuses (hheeds hheed)
        cases he
      refine ⟨⟨nofun, fun _ => ⟨rfl, Or.inl ⟨h.running, hunheeded⟩⟩⟩, fun r => ?_⟩
      cases r with
      | error e => exact ⟨rfl, nofun, fun _ _ hrefuses hheed => absurd hheed (hunheeded hrefuses)⟩
      | ok stamp => exact ⟨rfl, fun _ _ => rfl, nofun⟩

/-- The record of an end, and a result that does not say completed. -/
theorem recordEnd_safe {payload : JsValue} {result : WorkflowRunResult} {done : Option String}
    (hallowed : l.stage = .running ∧ (l.refuses = true → ¬ l.heeds l.runId) ∨
      l.stage = .unrecorded ∧ AppendInput.completesRun ⟨.agentRunFinished, l.runId, payload⟩ = false)
    (hstatus : result.status ≠ .completed) :
    Safe finality ToldResult (l, done)
      (inv.append l.runId .agentRunFinished payload >>= fun _ => pure result) := by
  refine safe_bind ⟨⟨nofun, fun _ => ⟨rfl, hallowed⟩⟩, fun r => ?_⟩
  cases r with
  | error e => exact fun _ h => by cases h
  | ok stamp =>
    rintro _ ⟨⟩ hcompleted
    exact absurd hcompleted hstatus

theorem finishCancelled_safe {result : WorkflowRunResult} {done : Option String} (hrunning : l.stage = .running)
    (hstatus : result.status ≠ .completed) :
    Safe finality ToldResult (l, done) (inv.finishCancelled l.runId >>= fun _ => pure result) := by
  have hreturn : ∀ l', Safe finality ToldResult l' (pure result : WorkflowProg WorkflowRunResult) := by
    rintro l' _ ⟨⟩ hcompleted
    exact absurd hcompleted hstatus
  rw [Invocation.finishCancelled, bind_assoc]
  refine safe_bind ⟨fun _ => rfl, fun r => ?_⟩
  cases r with
  | error e => exact fun _ h => by cases h
  | ok events =>
    show Safe finality ToldResult (l.read events, none) _
    rw [Course.read, hrunning]
    dsimp only
    by_cases hrecorded : events.any (·.recordsEnd "cancelled") = true
    · rw [if_pos hrecorded, if_pos hrecorded]
      exact hreturn _
    · rw [if_neg hrecorded, if_neg hrecorded, bind_assoc]
      exact recordEnd_safe (l := { l with stage := .unrecorded }) (Or.inr ⟨rfl, rfl⟩) hstatus

theorem conclude_safe {r : Except JsError JsValue} {done : Option String} (hrunning : l.stage = .running)
    (hok : ∀ output, r = .ok output → done = some l.runId)
    (hthrew : ∀ e, r = .error e → l.refuses = true → l.heeds l.runId → e.isRefusal = true) :
    Safe finality ToldResult (l, done) (inv.conclude l.runId r) := by
  have hends : ∀ e payload, r = .error e → e.isRefusal = false →
      l.stage = .running ∧ (l.refuses = true → ¬ l.heeds l.runId) ∨
        l.stage = .unrecorded ∧ AppendInput.completesRun ⟨.agentRunFinished, l.runId, payload⟩ = false := by
    refine fun e payload he hnot => Or.inl ⟨hrunning, fun hrefuses hheed => ?_⟩
    rw [hthrew e he hrefuses hheed] at hnot
    cases hnot
  cases r with
  | ok output =>
    rintro _ ⟨⟩ -
    exact hok output rfl
  | error e =>
    cases e with
    | suspended reason stepName retryAfterMs waitingForEventId =>
      have hschedule : ∀ (result : WorkflowRunResult), result.status ≠ .completed →
          Safe finality ToldResult (l, done) (inv.scheduleResume l.runId retryAfterMs >>= fun _ => pure result) := by
        intro result hstatus
        rw [Invocation.scheduleResume]
        by_cases hauto : inv.autoResume = true
        · rw [if_pos hauto]
          refine ⟨trivial, fun _ => ?_⟩
          rintro _ ⟨⟩ hcompleted
          exact absurd hcompleted hstatus
        · rw [if_neg hauto]
          rintro _ ⟨⟩ hcompleted
          exact absurd hcompleted hstatus
      exact hschedule _ fun h => by cases h
    | cancelled => exact recordEnd_safe (hends _ _ rfl rfl) fun h => by cases h
    | other e => exact recordEnd_safe (hends _ _ rfl rfl) fun h => by cases h
    | workflow code message =>
      cases code with
      | runCancelled => exact finishCancelled_safe hrunning fun h => by cases h
      | duplicateStep => exact recordEnd_safe (hends _ _ rfl rfl) fun h => by cases h
      | notFound => exact recordEnd_safe (hends _ _ rfl rfl) fun h => by cases h
      | invalidDuration => exact recordEnd_safe (hends _ _ rfl rfl) fun h => by cases h
      | invalidRequest => exact recordEnd_safe (hends _ _ rfl rfl) fun h => by cases h
      | stepThrew => exact recordEnd_safe (hends _ _ rfl rfl) fun h => by cases h

theorem start_stays : Stays l (fun _ => True) (inv.start l.runId) := by
  refine Stays.bind (Q := fun _ => True) ?_ (fun existing _ => ?_) fun _ _ => trivial
  · refine stays_call (fun hlimit => by cases hlimit) (fun r => by cases r <;> rfl) fun r => ?_
    cases r with
    | error e => exact fun _ hl => ⟨hl, trivial⟩
    | ok events => exact within_pure trivial
  · by_cases hempty : existing.isEmpty = true
    · rw [if_pos hempty]
      refine stays_note (Or.inr rfl) fun r => ?_
      cases r <;> exact fun _ hl => ⟨hl, trivial⟩
    · rw [if_neg hempty]
      exact within_pure trivial

/-- From where the run id is known. -/
theorem invokeRun_safe (runId : String) (done : Option String) (hopening : l.stage = .opening)
    (hheeds : l.heeds runId → (inv.handler ⟨runId, inv.input.body, inv.input.headers⟩).Heeds X runId) :
    Safe finality ToldResult (l, done) (inv.invokeRun X runId) := by
  refine ⟨hopening, fun _ => ?_⟩
  refine safe_bind ((start_stays (l := { l with runId := runId }) (_, none) rfl).mono fun l' r hr => ?_)
  obtain ⟨l', done'⟩ := l'
  obtain ⟨rfl, -⟩ := hr
  cases r with
  | error e => exact fun _ h => by cases h
  | ok _ =>
    refine safe_bind ⟨fun _ => rfl, fun r => ?_⟩
    cases r with
    | error e => exact fun _ h => by cases h
    | ok events =>
      have hread : Course.read { l with runId := runId } events =
          ⟨l.heeds, runId, events, .running⟩ := by
        rw [Course.read]
        simp only [hopening]
      show Safe finality ToldResult (Course.read { l with runId := runId } events, none) _
      rw [hread]
      refine safe_bind ((attempt_safe (l := ⟨l.heeds, runId, events, .running⟩) ⟨rfl, rfl, rfl⟩ none
        hheeds).mono fun l' r hr => ?_)
      obtain ⟨l', done'⟩ := l'
      obtain ⟨rfl, hr⟩ := hr
      cases r with
      | error e => exact fun _ h => by cases h
      | ok a =>
        exact conclude_safe rfl (fun output ha => hr.1 output (congrArg _ ha))
          fun e ha => hr.2 e (congrArg _ ha)

end Invocations

/-- What the client appends is neither a result nor an end. -/
theorem note_told (l : Course × Option String) (process : Nat) (runId : String) (payload : JsValue) :
    Safe finality Told l ((fun _ => WorkflowReply.done) <$>
      (.performOr (.append process ⟨.effectObserved, runId, payload⟩) (fun r => r.map fun _ => ()) JsError.other :
        WorkflowProg Unit)) := by
  refine safe_bind ⟨⟨nofun, nofun⟩, fun r => ?_⟩
  cases r <;> exact nofun

/-- **Every call keeps to the monitor.** -/
theorem issue_told (X : JsLibrary) (call : WorkflowCall) :
    Safe finality Told (call.course X, none) (call.issue X) := by
  cases call with
  | invoke inv =>
    have hinvoke : ∀ done, Safe finality ToldResult ((WorkflowCall.invoke inv).course X, done) (invoke X inv) := by
      intro done
      rw [invoke, Invocation.assign]
      cases inv.input.runId with
      | some runId => exact invokeRun_safe runId done rfl id
      | none => exact ⟨trivial, fun id => invokeRun_safe _ none rfl fun h => h⟩
    refine safe_bind ((hinvoke none).mono fun l r hr => ?_)
    cases r with
    | error e => exact fun _ h => by cases h
    | ok result =>
      rintro _ ⟨⟩
      exact hr result rfl
  | notify process workflowRunId eventId eventData =>
    cases workflowRunId with
    | some runId => exact note_told _ _ _ _
    | none => exact ⟨trivial, fun id => note_told _ _ _ _⟩
  | cancel process workflowRunId => exact note_told _ _ _ _

/-! ### The ledger -/

section Worlds

variable {E : WorkflowEnv} {w : WorkflowWorld} {o : WorkflowOp}

/-- An operation leaves the rows, or is an append that adds one of its kind to its run. -/
theorem handle_rows (E : WorkflowEnv) (o : WorkflowOp) (w : WorkflowWorld) :
    (o.handle E w).2.rows = w.rows ∨
      ∃ process input e, o = .append process input ∧ e.kind = input.kind ∧ e.runId = input.runId ∧
        (o.handle E w).2.rows = w.rows ++ [e] := by
  cases o with
  | append process input =>
    rcases append_cases E.ledger process w.ledger input with ⟨-, hevents⟩ | ⟨payload, -, -, -, -, hrows⟩
    · exact Or.inl (congrArg Table.rows hevents)
    · exact Or.inr ⟨process, input, _, rfl, rfl, rfl, hrows⟩
  | query filter => exact Or.inl (congrArg Table.rows (query_events filter))
  | ulid process => exact Or.inl rfl
  | now runId key => exact Or.inl rfl
  | run runId key => exact Or.inl rfl
  | fetch runId key url init => exact Or.inl rfl
  | setTimeout delay input => exact Or.inl rfl
  | observe o => exact Or.inl rfl

theorem mem_handle_rows {e : ActantEvent} (h : e ∈ w.rows) : e ∈ (o.handle E w).2.rows := by
  rcases handle_rows E o w with hsame | ⟨_, _, _, -, -, -, hrows⟩
  · rwa [hsame]
  · rw [hrows]
    exact List.mem_append_left _ h

/-- What is listed for a run is stored, and all of the run is listed. -/
theorem mem_select {l : Ledger} {runId : String} {e : ActantEvent} :
    e ∈ l.select { runId := some runId } ↔ e ∈ l.events.rows ∧ (runId = "" ∨ e.runId = runId) := by
  simp [Ledger.select, LedgerFilter.selects, List.mem_insertionSort]

end Worlds

/-! ### All calls together -/

/-- What a call knows of its run is true of the ledger. -/
structure Informed (l : Course) (w : WorkflowWorld) : Prop where
  opening : l.stage = .opening → l.snapshot = []
  stored : ∀ e ∈ l.snapshot, e ∈ w.rows
  heeds : l.snapshot.any (·.cancels l.runId) = true → l.heeds l.runId
  ends : ∀ e ∈ l.snapshot, e.endsRun l.runId = true →
    e.recordsEnd "cancelled" = true ∧ l.snapshot.any (·.cancels l.runId) = true
  unrecorded : l.stage = .unrecorded → ∀ e ∈ l.snapshot, e.endsRun l.runId = true →
    e.recordsEnd "cancelled" = false

section Knowledge

variable {E : WorkflowEnv} {w : WorkflowWorld} {l : Course} {o : WorkflowOp}

theorem informed_start (X : JsLibrary) (call : WorkflowCall) (w : WorkflowWorld) :
    Informed (call.course X) w := by
  cases call <;> exact ⟨fun _ => rfl, nofun, nofun, nofun, nofun⟩

/-- The ledger only grows. -/
theorem Informed.grow (h : Informed l w) {w' : WorkflowWorld} (hgrow : ∀ e ∈ w.rows, e ∈ w'.rows) :
    Informed l w' :=
  { h with stored := fun e he => hgrow e (h.stored e he) }

theorem Informed.read (h : Informed l w) (hopening : l.stage = .opening → l.MayRead w) :
    Informed (l.read (w.ledger.select { runId := some l.runId })) w := by
  have hshow : ∀ e ∈ w.rows, e.runId = l.runId → e ∈ w.ledger.select { runId := some l.runId } :=
    fun e he hrun => mem_select.mpr ⟨he, Or.inr hrun⟩
  have hstored : ∀ e ∈ w.ledger.select { runId := some l.runId }, e ∈ w.rows :=
    fun e he => (mem_select.mp he).1
  have hcancels : (w.ledger.select { runId := some l.runId }).any (·.cancels l.runId) =
      w.rows.any (·.cancels l.runId) := by
    rw [Bool.eq_iff_iff, List.any_eq_true, List.any_eq_true]
    refine ⟨fun ⟨e, he, hc⟩ => ⟨e, hstored e he, hc⟩, fun ⟨e, he, hc⟩ => ⟨e, hshow e he ?_, hc⟩⟩
    rw [ActantEvent.cancels, Bool.and_eq_true, decide_eq_true_eq] at hc
    exact hc.1
  cases hstage : l.stage with
  | opening =>
    obtain ⟨hheeds, hends⟩ := hopening hstage
    rw [Course.read]
    simp only [hstage]
    refine ⟨nofun, hstored, fun hc => hheeds (hcancels ▸ hc), fun e he hend => ?_, nofun⟩
    simp only
    rw [hcancels]
    exact hends e (hstored e he) hend
  | running =>
    rw [Course.read]
    simp only [hstage]
    by_cases hrecorded : (w.ledger.select { runId := some l.runId }).any (·.recordsEnd "cancelled") = true
    · rw [if_pos hrecorded]
      exact h
    · rw [if_neg hrecorded]
      refine ⟨nofun, h.stored, h.heeds, h.ends, fun _ e he hend => ?_⟩
      by_contra hyes
      refine hrecorded (List.any_eq_true.mpr ⟨e, hshow e (h.stored e he) ?_, by simpa using hyes⟩)
      rw [ActantEvent.endsRun, Bool.and_eq_true, decide_eq_true_eq] at hend
      exact hend.1
  | unrecorded =>
    rw [Course.read]
    simp only [hstage]
    by_cases hrecorded : (w.ledger.select { runId := some l.runId }).any (·.recordsEnd "cancelled") = true
    · rw [if_pos hrecorded]
      exact h
    · rw [if_neg hrecorded]
      refine ⟨nofun, h.stored, h.heeds, h.ends, fun _ => h.unrecorded hstage⟩

/-- An operation that its monitor allows and that meets the condition keeps its call informed. -/
theorem Informed.next (h : Informed l w) (hallowed : l.allowed o) (hmeets : l.Meets w o) :
    Informed (l.next o (o.handle E w).1) (o.handle E w).2 := by
  have hsame : Informed l (o.handle E w).2 := h.grow fun e he => mem_handle_rows he
  cases o with
  | query filter =>
    cases hr : (WorkflowOp.handle E (.query filter) w).1 with
    | error e => exact hsame
    | ok events =>
      have hevents : events = w.ledger.select filter := query_ok hr
      rw [hevents, Course.next]
      by_cases hlimit : filter.limit = none
      · rw [if_pos hlimit, hallowed hlimit]
        exact (h.read fun hstage => hmeets hstage hlimit).grow fun e he => mem_handle_rows he
      · rw [if_neg hlimit]
        exact hsame
  | observe ob =>
    cases ob with
    | invoked runId =>
      have hempty := h.opening hallowed
      refine ⟨h.opening, ?_, ?_, ?_, ?_⟩
      · intro e he
        rw [Course.next, hempty] at he
        cases he
      · intro hc
        rw [Course.next, hempty] at hc
        cases hc
      · intro e he
        rw [Course.next, hempty] at he
        cases he
      · intro _ e he
        rw [Course.next, hempty] at he
        cases he
    | called runId key result => exact hsame
    | settled runId step outcome => exact hsame
  | append process input => exact hsame
  | ulid process => exact hsame
  | now runId key => exact hsame
  | run runId key => exact hsame
  | fetch runId key url init => exact hsame
  | setTimeout delay input => exact hsame

theorem refuses_of_cancelled (h : l.snapshot.any (·.cancels l.runId) = true) : l.refuses = true := by
  obtain ⟨m, hm, hcancels⟩ := List.any_eq_true.mp h
  have hmarker := (Bool.and_eq_true _ _).mp hcancels
  exact List.any_eq_true.mpr ⟨m, hm, hmarker.2⟩

/-- A result is recorded of a run that the ledger does not show cancelled. -/
theorem Informed.result {process : Nat} {input : AppendInput} (hallowed : l.allowed (.append process input))
    (hmeets : l.Meets w (.append process input)) (hkind : input.kind = .toolCallCompleted) :
    input.runId = l.runId ∧ w.rows.any (·.cancels l.runId) = false := by
  obtain ⟨hrun, -, hrefuses⟩ := hallowed.1 hkind
  refine ⟨hrun, ?_⟩
  by_contra hcancelled
  have hcancels := hmeets.1 (Or.inl hkind) (by simpa using hcancelled)
  rw [refuses_of_cancelled hcancels] at hrefuses
  cases hrefuses

/-- An end is recorded of a run that the ledger does not show ended, and a completion of one that it does not show cancelled. -/
theorem Informed.ending (h : Informed l w) {process : Nat} {input : AppendInput}
    (hallowed : l.allowed (.append process input)) (hmeets : l.Meets w (.append process input))
    (hkind : input.kind = .agentRunFinished) :
    input.runId = l.runId ∧ w.rows.any (·.endsRun l.runId) = false := by
  obtain ⟨hrun, hhow⟩ := hallowed.2 hkind
  refine ⟨hrun, ?_⟩
  by_contra hended
  obtain ⟨e, he, hend⟩ := List.any_eq_true.mp (hmeets.2 hkind (by simpa using hended))
  obtain ⟨hrecords, hcancels⟩ := h.ends e he hend
  rcases hhow with ⟨-, hunheeded⟩ | hunrecorded
  · exact hunheeded (refuses_of_cancelled hcancels) (h.heeds hcancels)
  · rw [h.unrecorded hunrecorded.1 e he hend] at hrecords
    cases hrecords

theorem Informed.completion (h : Informed l w) {process : Nat} {input : AppendInput}
    (hallowed : l.allowed (.append process input)) (hmeets : l.Meets w (.append process input))
    (hcompletes : input.completesRun = true) : w.rows.any (·.cancels l.runId) = false := by
  have hkind : input.kind = .agentRunFinished := by
    rw [AppendInput.completesRun, Bool.and_eq_true, decide_eq_true_eq] at hcompletes
    exact hcompletes.1
  by_contra hcancelled
  have hcancels := hmeets.1 (Or.inr hcompletes) (by simpa using hcancelled)
  rcases (hallowed.2 hkind).2 with ⟨-, hunheeded⟩ | ⟨-, hnot⟩
  · exact hunheeded (refuses_of_cancelled hcancels) (h.heeds hcancels)
  · rw [hcompletes] at hnot
    cases hnot

end Knowledge

/-- The invariant of a run. -/
structure FinalityInv (X : JsLibrary) (calls : ι → WorkflowCall) (c : WorkflowPool ι) : Prop where
  safe : Pool.AllSafe finality Told (fun i => ((calls i).course X, none)) c
  informed : ∀ i, Informed (c.course X calls i) c.world
  once : EndsOnce c

section Runs

variable {E : WorkflowEnv} {X : JsLibrary} {calls : ι → WorkflowCall} {c : WorkflowPool ι} {i : ι}

theorem finalityInv_start : FinalityInv X calls (WorkflowPool.start X calls) where
  safe i := issue_told X (calls i)
  informed i := informed_start X (calls i) _
  once _ := Nat.zero_le _

/-- An append of a kind adds to no list of another kind, and to that of no other run. -/
theorem endsRun_eq {e : ActantEvent} {runId : String} (h : e.endsRun runId = true) :
    e.runId = runId ∧ e.kind = .agentRunFinished := by
  simpa [ActantEvent.endsRun] using h

theorem holdsResult_eq {e : ActantEvent} {runId : String} (h : e.holdsResult runId = true) :
    e.runId = runId ∧ e.kind = .toolCallCompleted := by
  simpa [ActantEvent.holdsResult] using h

theorem completedBy_eq {o : WorkflowOp} {r : o.Res} {runId : String} (h : completedBy o r = some runId) :
    ∃ process input, o = .append process input ∧ input.completesRun = true ∧ input.runId = runId := by
  cases o with
  | append process input =>
    cases r with
    | error e => cases h
    | ok stamp =>
      rw [completedBy] at h
      by_cases hcompletes : input.completesRun = true
      · rw [if_pos hcompletes] at h
        exact ⟨process, input, rfl, hcompletes, Option.some.inj h⟩
      · rw [if_neg hcompletes] at h
        cases h
  | _ => cases h

variable {o : WorkflowOp} {next : o.Res → WorkflowProg WorkflowReply}

theorem once_step (h : FinalityInv X calls c) (hallowed : (c.course X calls i).allowed o)
    (hmeets : (c.course X calls i).Meets c.world o) (runId : String) :
    (o.handle E c.world).2.rows.countP (·.endsRun runId) ≤ 1 := by
  rcases handle_rows E o c.world with hsame | ⟨process, input, e, rfl, hkind, hrun, hrows⟩
  · rw [hsame]
    exact h.once runId
  · rw [hrows, List.countP_append]
    by_cases hend : e.endsRun runId = true
    · obtain ⟨hof, hfinished⟩ := endsRun_eq hend
      obtain ⟨hinput, hnone⟩ := (h.informed i).ending hallowed hmeets (hkind ▸ hfinished)
      have hzero : c.world.rows.countP (·.endsRun runId) = 0 := by
        rw [List.countP_eq_zero]
        rw [← hinput, ← hrun, hof, List.any_eq_false] at hnone
        exact hnone
      rw [hzero, Nat.zero_add]
      exact List.countP_le_length
    · rw [List.countP_singleton, if_neg hend]
      exact h.once runId

/-- No step records a result of a cancelled run. -/
theorem results_step (hallowed : (c.course X calls i).allowed o)
    (hmeets : (c.course X calls i).Meets c.world o) {runId : String}
    (hcancelled : c.world.rows.any (·.cancels runId) = true) :
    (o.handle E c.world).2.rows.filter (·.holdsResult runId) = c.world.rows.filter (·.holdsResult runId) := by
  rcases handle_rows E o c.world with hsame | ⟨process, input, e, rfl, hkind, hrun, hrows⟩
  · rw [hsame]
  · rw [hrows, List.filter_append]
    by_cases hresult : e.holdsResult runId = true
    · obtain ⟨hof, hcompleted⟩ := holdsResult_eq hresult
      obtain ⟨hinput, hnot⟩ := Informed.result hallowed hmeets (hkind ▸ hcompleted)
      rw [← hinput, ← hrun, hof, hcancelled] at hnot
      cases hnot
    · simp [hresult]

theorem finality_step (h : FinalityInv X calls c) (hmeets : StepMeets X calls c i) :
    FinalityInv X calls (c.step E i) ∧ CancelIsFinal E c i := by
  have hsafe : Pool.AllSafe finality Told (fun i => ((calls i).course X, none)) (c.step E i) :=
    Pool.allSafe_step h.safe i
  rcases Pool.step_cases (WorkflowOp.handle E) c i with ⟨r, hthread, hsame⟩ | ⟨o, next, hthread, hnext, hstep⟩
  · have hstays : c.step E i = c := hsame
    refine ⟨hstays.symm ▸ h, fun runId _ => ⟨by rw [hstays], fun hreports => ?_⟩⟩
    have hidle : c.next? i = none := Pool.next?_done hthread
    rw [WorkflowPool.Reports, hidle] at hreports
    cases hreports.1
  · have hstep : c.step E i = _ := hstep
    have hallowed : (c.course X calls i).allowed o := h.safe.allowed hthread
    have hmeets := hmeets o hnext
    have hknows : ∀ j, (c.step E i).course X calls j =
        if i = j then (c.course X calls i).next o (o.handle E c.world).1 else c.course X calls j := by
      intro j
      rw [hstep, WorkflowPool.course, Pool.summary_call (l := fun i => ((calls i).course X, none)) j]
      split <;> rfl
    have hworld : (c.step E i).world = (o.handle E c.world).2 := by rw [hstep]
    refine ⟨⟨hsafe, fun j => ?_, fun runId => ?_⟩, fun runId hcancelled => ⟨?_, ?_⟩⟩
    · rw [hknows j, hworld]
      by_cases hj : i = j
      · rw [if_pos hj]
        exact (h.informed i).next hallowed hmeets
      · rw [if_neg hj]
        exact (h.informed j).grow fun e he => mem_handle_rows he
    · rw [hworld]
      exact once_step h hallowed hmeets runId
    · rw [hworld]
      exact results_step hallowed hmeets hcancelled
    · -- the report comes right after the record, and that was allowed
      rintro ⟨-, result, hdone, hcompleted, hrun⟩
      have htold := hsafe i
      rw [hdone] at htold
      have hrecorded := htold result rfl hcompleted
      rw [hstep, Pool.summary_append, if_pos rfl] at hrecorded
      obtain ⟨process, input, rfl, hcompletes, hinput⟩ := completedBy_eq hrecorded
      have hnot := (h.informed i).completion hallowed hmeets hcompletes
      have hkind : input.kind = .agentRunFinished := by
        rw [AppendInput.completesRun, Bool.and_eq_true, decide_eq_true_eq] at hcompletes
        exact hcompletes.1
      rw [← (hallowed.2 hkind).1, hinput, hrun, hcancelled] at hnot
      cases hnot

/-- **Cancellation and completion are final** in every run, with all calls interleaved, in which invocations record results and ends of runs whose cancel markers and ends they have read, and read the history only of runs that have not ended but by being cancelled, with a handler that heeds the refusal if the run is cancelled. -/
theorem end_is_final (E : WorkflowEnv) (X : JsLibrary) (calls : ι → WorkflowCall) (schedule : List ι)
    (h : EveryStep (WorkflowPool.step E) (StepMeets X calls) (WorkflowPool.start X calls) schedule) :
    EveryStep (WorkflowPool.step E) (CancelIsFinal E) (WorkflowPool.start X calls) schedule ∧
      Always (WorkflowPool.step E) EndsOnce (WorkflowPool.start X calls) schedule := by
  have hinv := always_of_invariant (FinalityInv X calls) (fun _ _ h hmeets => (finality_step h hmeets).1)
    finalityInv_start h
  refine ⟨everyStep_iff.mpr fun pre i post hsplit => ?_, fun pre post hsplit => (hinv pre post hsplit).once⟩
  exact (finality_step (hinv pre (i :: post) hsplit) (everyStep_iff.mp h pre i post hsplit)).2

end Runs

/-- For sample runs: every function returns `true`, and nothing is fetched. -/
def WorkflowEnv.sample : WorkflowEnv := ⟨.sample, fun _ => .ok (.bool true), fun _ => .error .cancelled⟩

/-- A run with one step is invoked, and then cancelled. -/
def invokedThenCancelled : Bool → WorkflowCall
  | true => .invoke ⟨0, false, ⟨some "run", .undefined, []⟩, fun _ => .step (.run "a") fun _ => .ret .null⟩
  | false => .cancel 0 "run"

theorem stepMeets_of {X : JsLibrary} {calls : ι → WorkflowCall} {c : WorkflowPool ι} {i : ι} {o : WorkflowOp}
    (hnext : c.next? i = some o) (h : (c.course X calls i).Meets c.world o) : StepMeets X calls c i := by
  intro o' ho'
  rw [hnext] at ho'
  cases ho'
  exact h

theorem Course.shows_of_none {l : Course} {w : WorkflowWorld} {p : String → ActantEvent → Bool}
    (h : w.rows.any (p l.runId) = false) : l.Shows w p := by
  intro hyes
  rw [h] at hyes
  cases hyes

theorem Course.mayRead_of_none {l : Course} {w : WorkflowWorld}
    (hcancels : w.rows.any (·.cancels l.runId) = false) (hends : w.rows.any (·.endsRun l.runId) = false) :
    l.MayRead w := by
  refine ⟨fun hyes => ?_, fun e he hend => ?_⟩
  · rw [hcancels] at hyes
    cases hyes
  · exact absurd hend (List.any_eq_false.mp hends e he)

theorem end_is_final_invokedThenCancelled :
    EveryStep (WorkflowPool.step WorkflowEnv.sample) (CancelIsFinal WorkflowEnv.sample)
        (WorkflowPool.start JsLibrary.sample invokedThenCancelled) (List.replicate 8 true ++ [false]) ∧
      Always (WorkflowPool.step WorkflowEnv.sample) EndsOnce
        (WorkflowPool.start JsLibrary.sample invokedThenCancelled) (List.replicate 8 true ++ [false]) := by
  refine end_is_final WorkflowEnv.sample JsLibrary.sample invokedThenCancelled _ ?_
  refine ⟨stepMeets_of rfl trivial, stepMeets_of rfl nofun, stepMeets_of rfl ⟨nofun, nofun⟩,
    stepMeets_of rfl fun _ _ => Course.mayRead_of_none ?_ ?_, stepMeets_of rfl trivial,
    stepMeets_of rfl ⟨fun _ => Course.shows_of_none ?_, nofun⟩, stepMeets_of rfl trivial,
    stepMeets_of rfl ⟨fun _ => Course.shows_of_none ?_, fun _ => Course.shows_of_none ?_⟩,
    stepMeets_of rfl ⟨nofun, nofun⟩, trivial⟩
  all_goals decide

/-- A run without steps is invoked twice. -/
def invokedTwice (_ : Bool) : WorkflowCall :=
  .invoke ⟨0, false, ⟨some "run", .undefined, []⟩, fun _ => .ret .null⟩

/-- It ends twice. -/
theorem second_end : ¬ Always (WorkflowPool.step WorkflowEnv.sample) EndsOnce
    (WorkflowPool.start JsLibrary.sample invokedTwice)
    (List.replicate 5 true ++ List.replicate 4 false) := by
  intro h
  have hend := h (List.replicate 5 true ++ List.replicate 4 false) [] rfl "run"
  have htwo : (run (WorkflowPool.step WorkflowEnv.sample) (WorkflowPool.start JsLibrary.sample invokedTwice)
      (List.replicate 5 true ++ List.replicate 4 false)).world.rows.countP (·.endsRun "run") = 2 := by
    decide
  omega

end ActantDb
