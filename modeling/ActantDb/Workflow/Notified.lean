import ActantDb.Workflow.Finality

/-!
# Notifications and waits

A wait looks for its event in the history of its own run, from its marker on, in the order of the ids. A notification that names no run is filed under an id of its own, which no history of a run lists; one that was written before the marker stands before it. What a wait gives is decided by that alone (`delivered_iff`).
-/

namespace ActantDb

open Prog Lts

variable {ι : Type} [DecidableEq ι]

/-- The ids under which notifications are filed that name no run. -/
def isBroadcast (runId : String) : Bool := "wfr_notify_".toList.isPrefixOf runId.toList

/-- A notification for the run: of it alone, or of every run. -/
def ActantEvent.addresses (e : ActantEvent) (runId eventId : String) : Bool :=
  e.notifies eventId && (e.runId = runId || isBroadcast e.runId)

/-- The notification that a history shows to a wait whose marker it has. -/
def shownIn (history : List ActantEvent) (name eventId : String) : Option ActantEvent :=
  if history.any (·.marks "wait" name) then (fromMarker history name).find? (·.notifies eventId) else none

/-! ### What a call has read -/

structure WaitView where
  runId : String
  history : Option (List ActantEvent)

namespace WaitView

def start : WaitView := ⟨"", none⟩

variable (l : WaitView)

def read (events : List ActantEvent) : WaitView :=
  match l.history with
  | none => { l with history := some events }
  | some _ => l

def next : (o : WorkflowOp) → o.Res → WaitView
  | .query filter, .ok events => if filter.limit = none then l.read events else l
  | .observe (.invoked runId), _ => { l with runId := runId }
  | _, _ => l

end WaitView

/-- What a wait gives, by the notification that it is shown. -/
def StepOutcome.Answers (shown : Option ActantEvent) : StepOutcome → Prop
  | .value v => ∃ n, shown = some n ∧ v = n.payload.get "data"
  | .timedOut => shown = none
  | .threw (.suspended _ _ _ _) => shown = none
  | .threw _ => True

namespace WaitView

variable (l : WaitView)

def Explains : Step → StepOutcome → Prop
  | .waitForEvent name eventId _, outcome =>
    ∃ history, l.history = some history ∧ outcome.Answers (shownIn history name eventId)
  | _, _ => True

def allowed : WorkflowOp → Prop
  | .query filter => filter.limit = none → filter = { runId := some l.runId }
  | .observe (.invoked _) => l.history = none
  | .observe (.settled runId step outcome) => runId = l.runId ∧ l.Explains step outcome
  | _ => True

end WaitView

def watching : Monitor WorkflowOp WorkflowOp.Res WaitView where
  allowed l o := l.allowed o
  next l o r := l.next o r

/-! ### Calls that interleave, and what was in the ledger when each began -/

structure WaitPool (ι : Type) where
  pool : WorkflowPool ι
  beganAt : ι → List ActantEvent

namespace WaitPool

def start (X : JsLibrary) (calls : ι → WorkflowCall) : WaitPool ι := ⟨WorkflowPool.start X calls, fun _ => []⟩

def step (E : WorkflowEnv) (s : WaitPool ι) (i : ι) : WaitPool ι where
  pool := s.pool.step E i
  beganAt :=
    match s.pool.next? i with
    | some (.observe (.invoked _)) => Function.update s.beganAt i s.pool.world.rows
    | _ => s.beganAt

/-- What call `i` has read. -/
def watch (s : WaitPool ι) (i : ι) : WaitView := Pool.summary watching .start i s.pool.trace

end WaitPool

/-- Neither refused nor failed, nor timed out. -/
def StepOutcome.isOpen : StepOutcome → Bool
  | .value _ => true
  | .threw (.suspended _ _ _ _) => true
  | _ => false

/-- A step gives its handler the outcome of a wait that is open, and the ledger had a notification for it when the invocation began. -/
def WaitPool.Owes (s : WaitPool ι) (i : ι) (runId name eventId : String) (outcome : StepOutcome) : Prop :=
  (∃ timeout, s.pool.next? i = some (.observe (.settled runId (.waitForEvent name eventId timeout) outcome))) ∧
    outcome.isOpen = true ∧ (s.beganAt i).any (·.addresses runId eventId) = true

/-- The wait gives what was notified. -/
def Delivered (s : WaitPool ι) (i : ι) : Prop :=
  ∀ runId name eventId outcome, s.Owes i runId name eventId outcome →
    ∃ n ∈ s.pool.world.rows, n.addresses runId eventId = true ∧ outcome = .value (n.payload.get "data")

/-- The run has an id, and the history that was read has a notification after the marker of the wait. -/
def ShownAfterMarker (s : WaitPool ι) (i : ι) : Prop :=
  ∀ runId name eventId outcome, s.Owes i runId name eventId outcome →
    runId ≠ "" ∧ ∃ history, (s.watch i).history = some history ∧ (shownIn history name eventId).isSome = true

/-- A wait that returns gives what it is shown. -/
def GivesShown (shown : Option ActantEvent) (r : Except JsError (StepOutcome × RunnerState)) : Prop :=
  ∀ outcome s, r = .ok (outcome, s) → outcome.Answers shown

/-! ### Every call keeps to the monitor -/

/-- The history is what was read and what the invocation has added, no notification among it. -/
structure AppendsTo (l : WaitView) (s : RunnerState) : Prop where
  runId : s.runId = l.runId
  history : ∃ history added, l.history = some history ∧ s.history = history ++ added ∧
    ∀ e ∈ added, ∀ eventId, e.notifies eventId = false

section Steps

variable {X : JsLibrary} {l : WaitView} {s : RunnerState} {key name eventId : String} {K : WaitView → Prop}

theorem AppendsTo.push (h : AppendsTo l s) {e : ActantEvent} (he : ∀ eventId, e.notifies eventId = false) :
    AppendsTo l { s with history := s.history ++ [e] } := by
  obtain ⟨history, added, hread, hhistory, hadded⟩ := h.history
  refine ⟨h.runId, history, added ++ [e], hread, by simp [hhistory], fun e' he' => ?_⟩
  rcases List.mem_append.mp he' with hin | hin
  · exact hadded e' hin
  · rw [List.mem_singleton.mp hin]
    exact he

theorem calm_watching (l : WaitView) : CalmCalls watching (· = l) (AppendsTo l) where
  now _ _ l' hl := ⟨trivial, fun _ => hl⟩
  note _ _ l' hl _ := ⟨trivial, fun _ => hl⟩
  push _ _ h _ _ he _ := h.push he
  seen _ _ h := ⟨h.runId, h.history⟩
  run _ _ _ hl := ⟨trivial, fun _ => hl⟩
  fetch _ _ _ _ _ hl := ⟨trivial, fun _ => hl⟩
  record _ _ _ _ _ hl _ _ := ⟨trivial, fun _ => hl⟩
  result s e h hkind := h.push fun eventId => by rw [ActantEvent.notifies, ActantEvent.isEffect, hkind]; rfl

/-- What an invocation adds to the history shows a wait nothing. -/
theorem shown_append {history added : List ActantEvent} (hadded : ∀ e ∈ added, ∀ eventId, e.notifies eventId = false)
    (hmarked : (history ++ added).any (·.marks "wait" name) = true) :
    (fromMarker (history ++ added) name).find? (·.notifies eventId) = shownIn history name eventId := by
  have hnone : ∀ k, (added.drop k).find? (·.notifies eventId) = none := by
    intro k
    rw [List.find?_eq_none]
    intro e he hnotifies
    rw [hadded e (List.mem_of_mem_drop he) eventId] at hnotifies
    cases hnotifies
  rw [shownIn, fromMarker, fromMarker, List.findIdx?_append]
  cases hidx : history.findIdx? (·.marks "wait" name) with
  | some k =>
    have hk : k < history.length := (List.findIdx?_eq_some_iff_getElem.mp hidx).1
    have hany : history.any (·.marks "wait" name) = true := by
      obtain ⟨hk, hmarks, -⟩ := List.findIdx?_eq_some_iff_getElem.mp hidx
      exact List.any_eq_true.mpr ⟨_, List.getElem_mem hk, hmarks⟩
    rw [if_pos hany, Option.some_or, Option.getD_some, List.drop_append_of_le_length (le_of_lt hk),
      List.find?_append, ← List.drop_zero (l := added), hnone, Option.or_none]
  | none =>
    have hany : history.any (·.marks "wait" name) = false := by
      simpa using hidx
    rw [hany, if_neg Bool.false_ne_true]
    cases hmark : added.findIdx? (·.marks "wait" name) with
    | none =>
      have hno : added.any (·.marks "wait" name) = false := by
        simpa using hmark
      rw [List.any_append, hany, hno] at hmarked
      cases hmarked
    | some k =>
      have hpast : history.drop (history.length + k) = [] := List.drop_eq_nil_of_le (Nat.le_add_right _ _)
      rw [Option.none_or, Option.map_some, Option.getD_some, Nat.add_comm, List.drop_append, hpast, List.nil_append,
        hnone]

theorem fails_gives {shown : Option ActantEvent} {e : JsError}
    (he : ∀ reason stepName ms id, e ≠ .suspended reason stepName ms id) :
    Within watching K (GivesShown shown) (pure (.threw e, s)) := by
  refine within_pure fun outcome s' hr => ?_
  cases hr
  cases e with
  | suspended reason stepName ms id => exact absurd rfl (he reason stepName ms id)
  | _ => trivial

/-- A duration that cannot be parsed suspends nothing. -/
theorem parseDuration_error {duration : Duration} {e : JsError} (h : parseDuration X duration = .error e) :
    ∃ message, e = .workflow .invalidDuration message := by
  cases duration with
  | ms x =>
    rw [parseDuration] at h
    split at h
    · exact ⟨_, (Except.error.inj h).symm⟩
    · cases h
  | text t =>
    rw [parseDuration] at h
    dsimp only at h
    split at h
    · cases h
    · exact ⟨_, (Except.error.inj h).symm⟩

theorem parseTimeout_error {timeout : Option Duration} {e : JsError} (h : timeout.mapM (parseDuration X) = .error e) :
    ∃ message, e = .workflow .invalidDuration message := by
  cases timeout with
  | none => cases h
  | some duration =>
    have h : some <$> parseDuration X duration = .error e := h
    cases hone : parseDuration X duration with
    | ok ms =>
      rw [hone] at h
      cases h
    | error e' =>
      rw [hone] at h
      cases h
      exact parseDuration_error hone

/-- A wait that has its marker gives what it is shown. -/
theorem awaitEvent_answers {history : List ActantEvent} {marker : JsValue} (added : List ActantEvent)
    (hcalm : Calm watching K (AppendsTo l)) (hhistory : s.history = history ++ added)
    (hadded : ∀ e ∈ added, ∀ eventId, e.notifies eventId = false)
    (hmarked : s.history.any (·.marks "wait" name) = true) :
    Within watching K (GivesShown (shownIn history name eventId))
      (awaitEvent s key name eventId marker) := by
  have hgives : ∀ {outcome : StepOutcome}, outcome.Answers (shownIn history name eventId) →
      Within watching K (GivesShown (shownIn history name eventId)) (pure (outcome, s)) := by
    intro outcome hanswers
    refine within_pure fun outcome' s' hr => ?_
    cases hr
    exact hanswers
  rw [awaitEvent, hhistory, shown_append hadded (hhistory ▸ hmarked)]
  cases hshown : shownIn history name eventId with
  | some n =>
    rw [hshown] at hgives
    exact hgives ⟨n, rfl, rfl⟩
  | none =>
    rw [hshown] at hgives
    dsimp only
    by_cases hundefined : (marker.get "timeoutAt").isUndefined = true
    · rw [if_pos hundefined]
      exact hgives rfl
    · rw [if_neg hundefined]
      refine within_call (fun l hl => hcalm.now _ _ l hl) fun now => ?_
      by_cases hreached : reached now (marker.get "timeoutAt") = true
      · rw [if_pos hreached]
        exact hgives rfl
      · rw [if_neg hreached]
        exact within_call (fun l hl => hcalm.now _ _ l hl) fun now => hgives rfl

theorem beginWait_answers {history added : List ActantEvent} {timeoutAt : Option F64}
    (hcalm : Calm watching K (AppendsTo l)) (hhistory : s.history = history ++ added)
    (hadded : ∀ e ∈ added, ∀ eventId, e.notifies eventId = false) :
    Within watching K (GivesShown (shownIn history name eventId))
      (beginWait s key name eventId timeoutAt) := by
  refine within_call (fun l hl => hcalm.note _ _ l hl rfl) fun r => ?_
  cases r with
  | error e =>
    refine within_pure fun outcome s' hr => ?_
    cases hr
    trivial
  | ok stamp =>
    have hmarks : (AppendInput.event ⟨.effectObserved, s.runId, waitMarker name eventId timeoutAt⟩ stamp).marks
        "wait" name = true := by
      cases timeoutAt <;>
        simp [ActantEvent.marks, ActantEvent.isEffect, AppendInput.event, waitMarker, JsValue.get, JsValue.isString]
    refine awaitEvent_answers (added ++ [AppendInput.event
      ⟨.effectObserved, s.runId, waitMarker name eventId timeoutAt⟩ stamp]) hcalm (by simp [hhistory]) (fun e he => ?_) ?_
    · rcases List.mem_append.mp he with hin | hin
      · exact hadded e hin
      · rw [List.mem_singleton.mp hin]
        cases timeoutAt <;> exact fun _ => rfl
    · exact List.any_eq_true.mpr ⟨_, List.mem_append_right _ List.mem_cons_self, hmarks⟩

theorem doWaitForEvent_answers {history added : List ActantEvent} (hcalm : Calm watching K (AppendsTo l))
    (hhistory : s.history = history ++ added) (hadded : ∀ e ∈ added, ∀ eventId, e.notifies eventId = false)
    (name eventId : String) (timeoutMs : Option F64) :
    Within watching K (GivesShown (shownIn history name eventId))
      (doWaitForEvent s name eventId timeoutMs) := by
  have hfails : ∀ {e : JsError}, (∀ reason stepName ms id, e ≠ .suspended reason stepName ms id) →
      Within watching K (GivesShown (shownIn history name eventId)) (pure (.threw e, s)) :=
    fun he => fails_gives he
  rw [doWaitForEvent]
  rcases enter_cases s "wait" name with ⟨-, henter⟩ | ⟨-, ⟨message, henter⟩ | ⟨-, henter⟩⟩
  · rw [henter]
    exact hfails fun _ _ _ _ h => by cases h
  · rw [henter]
    exact hfails fun _ _ _ _ h => by cases h
  · rw [henter]
    dsimp only
    cases hmarker : findEffect s.history "wait" name with
    | some marker =>
      refine awaitEvent_answers added hcalm hhistory hadded ?_
      rw [findEffect, Option.map_eq_some_iff] at hmarker
      obtain ⟨e, hfind, -⟩ := hmarker
      exact List.any_eq_true.mpr ⟨e, List.mem_of_find?_eq_some hfind, by simpa using List.find?_some hfind⟩
    | none =>
      cases timeoutMs with
      | none => exact beginWait_answers hcalm hhistory hadded
      | some ms =>
        exact within_call (fun l hl => hcalm.now _ _ l hl) fun now => beginWait_answers hcalm hhistory hadded

/-- What a step gives is explained by what was read. -/
theorem perform_explained (h : AppendsTo l s) (step : Step) :
    Within watching (· = l) (fun r => ∀ outcome s', r = .ok (outcome, s') → l.Explains step outcome)
      (step.perform X s) := by
  have htrivial : ∀ {step : Step}, (∀ outcome, l.Explains step outcome) →
      Within watching (· = l) (fun r => ∀ outcome s', r = .ok (outcome, s') → l.Explains step outcome)
        (step.perform X s) :=
    fun hall => (within_step X (calm_watching l) h _).mono fun _ _ outcome _ _ => hall outcome
  cases step with
  | waitForEvent name eventId timeout =>
    obtain ⟨history, added, hread, hhistory, hadded⟩ := h.history
    rw [Step.perform]
    cases hparse : timeout.mapM (parseDuration X) with
    | error e =>
      obtain ⟨message, rfl⟩ := parseTimeout_error hparse
      exact (fails_gives fun _ _ _ _ h => by cases h).mono
        fun r hr outcome s' hok => ⟨history, hread, hr outcome s' hok⟩
    | ok timeoutMs =>
      refine (doWaitForEvent_answers (calm_watching l).toCalm hhistory hadded name eventId timeoutMs).mono ?_
      exact fun r hr outcome s' hok => ⟨history, hread, hr outcome s' hok⟩
  | _ => exact htrivial fun _ => trivial

/-- Taken together: the step goes on, and is explained. -/
theorem exec_watched (workflow : Workflow) (h : AppendsTo l s) :
    Within watching (· = l) (fun _ => True) (workflow.exec X s) := by
  induction workflow generalizing s with
  | ret output => exact within_pure trivial
  | throw e => exact within_pure trivial
  | step request next ih =>
    rw [Workflow.exec]
    rintro _ rfl
    refine safe_bind ((Safe.and (within_step X (calm_watching _) h request _ rfl)
      (perform_explained h request _ rfl)).mono fun l' r hr => ?_)
    obtain ⟨⟨rfl, outcome, s', rfl, hextends, -⟩, -, hexplained⟩ := hr
    exact ⟨⟨h.runId, hexplained outcome s' rfl⟩, fun _ => ih outcome.result hextends _ rfl⟩

end Steps

section Invocations

variable {X : JsLibrary} {l : WaitView} {inv : Invocation} {runId : String}

theorem append_watched {kind : EventKind} {payload : JsValue} :
    Steady watching (· = l) (inv.append runId kind payload) :=
  steady_performOr (fun _ hl => ⟨trivial, fun _ => hl⟩) _ _

theorem conclude_watched {history : List ActantEvent} (hrun : l.runId = runId) (hread : l.history = some history)
    (r : Except JsError JsValue) : Steady watching (· = l) (inv.conclude runId r) := by
  have hquery : Steady watching (· = l) (ledgerQuery { runId := some runId }) := by
    refine steady_performOr (fun l' hl => ?_) _ _
    subst hl
    refine ⟨fun _ => by rw [hrun], fun r => ?_⟩
    cases r with
    | error e => rfl
    | ok events =>
      show l'.read events = l'
      rw [WaitView.read, hread]
  exact steady_conclude hquery (fun _ => append_watched) (fun _ _ _ hl => ⟨trivial, fun _ => hl⟩) r

theorem start_watched : Steady watching (· = l) (inv.start runId) := by
  have hquery : Steady watching (· = l) (ledgerQuery { runId := some runId, limit := some 1 }) := by
    refine steady_performOr (fun l' hl' => ⟨(by nofun), fun r => ?_⟩) _ _
    cases r <;> exact hl'
  exact steady_start hquery fun _ => append_watched

theorem invokeRun_watched (hunread : l.history = none) (runId : String) :
    Safe watching (fun _ _ => True) l (inv.invokeRun X runId) := by
  refine ⟨hunread, fun _ => safe_bind ((start_watched.safe _ rfl).mono fun l' r hr => ?_)⟩
  subst hr
  cases r with
  | error e => trivial
  | ok _ =>
    refine safe_bind ⟨fun _ => rfl, fun r => ?_⟩
    cases r with
    | error e => trivial
    | ok events =>
      have hread : WaitView.read { l with runId := runId } events = ⟨runId, some events⟩ := by
        rw [WaitView.read]
        simp only [hunread]
      show Safe watching (fun _ _ => True) (WaitView.read { l with runId := runId } events) _
      rw [hread]
      have hextends : AppendsTo ⟨runId, some events⟩ ⟨inv.process, runId, events, []⟩ :=
        ⟨rfl, events, [], rfl, by simp, nofun⟩
      refine safe_bind (safe_bind ((exec_watched _ hextends _ rfl).mono fun l' r hr => ?_))
      obtain ⟨rfl, -⟩ := hr
      cases r with
      | error e => trivial
      | ok a =>
        cases a with
        | error e => exact ((conclude_watched rfl rfl _).safe _ rfl).mono fun _ _ _ => trivial
        | ok output =>
          refine ⟨trivial, fun r => ?_⟩
          cases r with
          | error e => exact ((conclude_watched rfl rfl _).safe _ rfl).mono fun _ _ _ => trivial
          | ok stamp => exact ((conclude_watched rfl rfl _).safe _ rfl).mono fun _ _ _ => trivial

end Invocations

/-- **Every call keeps to the monitor.** -/
theorem issue_watched (X : JsLibrary) (call : WorkflowCall) :
    Safe watching (fun _ _ => True) .start (call.issue X) := by
  cases call with
  | invoke inv =>
    refine safe_bind (Safe.mono (Q := fun _ _ => True) ?_ fun l r hr => ?_)
    · rw [invoke, Invocation.assign]
      cases inv.input.runId with
      | some runId => exact invokeRun_watched rfl runId
      | none => exact ⟨trivial, fun id => invokeRun_watched rfl _⟩
    · cases r <;> trivial
  | notify process workflowRunId eventId eventData =>
    cases workflowRunId with
    | some runId =>
      refine safe_bind ⟨trivial, fun r => ?_⟩
      cases r <;> trivial
    | none =>
      refine ⟨trivial, fun id => safe_bind ⟨trivial, fun r => ?_⟩⟩
      cases r <;> trivial
  | cancel process workflowRunId =>
    refine safe_bind ⟨trivial, fun r => ?_⟩
    cases r <;> trivial

/-! ### All calls together -/

/-- What a call has read is stored, and is of its run if that has an id. -/
structure WatchInv (s : WaitPool ι) : Prop where
  safe : Pool.AllSafe watching (fun _ _ => True) (fun _ => .start) s.pool
  listed : ∀ i history, (s.watch i).history = some history →
    ∀ e ∈ history, e ∈ s.pool.world.rows ∧ ((s.watch i).runId = "" ∨ e.runId = (s.watch i).runId)

section Runs

variable {E : WorkflowEnv} {X : JsLibrary} {s : WaitPool ι} {i : ι}

theorem watchInv_start (X : JsLibrary) (calls : ι → WorkflowCall) : WatchInv (WaitPool.start X calls) where
  safe i := issue_watched X (calls i)
  listed _ _ hread := by cases hread

/-- What an operation does to what its call has read. -/
theorem listed_next {l : WaitView} {w : WorkflowWorld} {o : WorkflowOp} (hallowed : l.allowed o)
    (h : ∀ history, l.history = some history → ∀ e ∈ history, e ∈ w.rows ∧ (l.runId = "" ∨ e.runId = l.runId))
    (history : List ActantEvent) (hread : (l.next o (o.handle E w).1).history = some history) :
    ∀ e ∈ history, e ∈ w.rows ∧
      ((l.next o (o.handle E w).1).runId = "" ∨ e.runId = (l.next o (o.handle E w).1).runId) := by
  cases o with
  | query filter =>
    cases hr : (WorkflowOp.handle E (.query filter) w).1 with
    | error e =>
      rw [hr] at hread
      exact h history hread
    | ok events =>
      rw [hr] at hread
      obtain rfl : events = w.ledger.select filter := query_ok hr
      rw [WaitView.next] at hread ⊢
      by_cases hlimit : filter.limit = none
      · rw [if_pos hlimit, WaitView.read] at hread ⊢
        cases hhistory : l.history with
        | none =>
          rw [hhistory] at hread
          rw [hallowed hlimit] at hread
          cases hread
          exact fun e he => mem_select.mp he
        | some known =>
          rw [hhistory] at hread
          exact h history (hhistory.trans (hhistory.symm.trans hread))
      · rw [if_neg hlimit] at hread ⊢
        exact h history hread
  | observe ob =>
    cases ob with
    | invoked runId =>
      have hunread : l.history = none := hallowed
      rw [WaitView.next, hunread] at hread
      cases hread
    | called runId key result => exact h history hread
    | settled runId step outcome => exact h history hread
  | append process input => exact h history hread
  | ulid process => exact h history hread
  | now runId key => exact h history hread
  | run runId key => exact h history hread
  | fetch runId key url init => exact h history hread
  | setTimeout delay input => exact h history hread

theorem watchInv_step (h : WatchInv s) (i : ι) : WatchInv (s.step E i) := by
  have hsafe : Pool.AllSafe watching (fun _ _ => True) (fun _ => .start) (s.step E i).pool :=
    Pool.allSafe_step h.safe i
  rcases Pool.step_cases (WorkflowOp.handle E) s.pool i with ⟨r, -, hsame⟩ | ⟨o, next, hthread, -, hstep⟩
  · have hstays : (s.step E i).pool = s.pool := hsame
    refine ⟨hsafe, fun j history hread => ?_⟩
    rw [WaitPool.watch, hstays] at hread ⊢
    exact h.listed j history hread
  · have hpool : (s.step E i).pool = _ := hstep
    refine ⟨hsafe, fun j history hread e he => ?_⟩
    have hgrow : ∀ e ∈ s.pool.world.rows, e ∈ (s.step E i).pool.world.rows := by
      rw [hpool]
      exact fun e he => mem_handle_rows he
    have hwatch : (s.step E i).watch j =
        if i = j then (s.watch i).next o (o.handle E s.pool.world).1 else s.watch j := by
      rw [WaitPool.watch, hpool, Pool.summary_call (l := fun _ => WaitView.start) j]
      split <;> rfl
    rw [hwatch] at hread ⊢
    by_cases hj : i = j
    · rw [if_pos hj] at hread ⊢
      obtain ⟨hin, hrun⟩ := listed_next (h.safe.allowed hthread) (h.listed i) history hread e he
      exact ⟨hgrow e hin, hrun⟩
    · rw [if_neg hj] at hread ⊢
      obtain ⟨hin, hrun⟩ := h.listed j history hread e he
      exact ⟨hgrow e hin, hrun⟩

/-- **What decides what a wait gives.** An open wait of a run with an id gives what was notified exactly if the history that was read has a notification of the event after the marker. -/
theorem delivered_iff (h : WatchInv s) {runId name eventId : String} {timeout : Option Duration}
    {outcome : StepOutcome}
    (hnext : s.pool.next? i = some (.observe (.settled runId (.waitForEvent name eventId timeout) outcome)))
    (hopen : outcome.isOpen = true) (hnamed : runId ≠ "") :
    (∃ n ∈ s.pool.world.rows, n.addresses runId eventId = true ∧ outcome = .value (n.payload.get "data")) ↔
      ∃ history, (s.watch i).history = some history ∧ (shownIn history name eventId).isSome = true := by
  have hallowed : (s.watch i).allowed (.observe (.settled runId (.waitForEvent name eventId timeout) outcome)) :=
    h.safe.allowed_next hnext
  obtain ⟨hrun, history, hread, hanswers⟩ := hallowed
  constructor
  · rintro ⟨n, -, -, rfl⟩
    obtain ⟨shown, hshown, -⟩ := hanswers
    exact ⟨history, hread, by rw [hshown]; rfl⟩
  · rintro ⟨history', hread', hsome⟩
    rw [hread] at hread'
    cases hread'
    obtain ⟨n, hshown⟩ := Option.isSome_iff_exists.mp hsome
    have hfound : (fromMarker history name).find? (·.notifies eventId) = some n := by
      rw [shownIn] at hshown
      split at hshown
      · exact hshown
      · cases hshown
    have hin : n ∈ history := List.mem_of_mem_drop (List.mem_of_find?_eq_some hfound)
    obtain ⟨hstored, hof⟩ := h.listed i history hread n hin
    refine ⟨n, hstored, ?_, ?_⟩
    · have hnotifies : n.notifies eventId = true := by simpa using List.find?_some hfound
      have hfiled : n.runId = runId := (hof.resolve_left (hrun ▸ hnamed)).trans hrun.symm
      rw [ActantEvent.addresses, hnotifies, hfiled]
      simp
    · cases outcome with
      | value v =>
        obtain ⟨m, hm, hv⟩ := hanswers
        rw [hshown] at hm
        cases hm
        rw [hv]
      | timedOut => cases hopen
      | threw e =>
        cases e with
        | suspended reason stepName ms id =>
          have hnone : shownIn history name eventId = none := hanswers
          rw [hshown] at hnone
          cases hnone
        | _ => cases hopen

/-- **No notification is lost** in every run, with all calls interleaved, in which a wait that has been notified is of a run with an id, and the history that was read has a notification of the event after the marker. -/
theorem notifications_delivered (E : WorkflowEnv) (X : JsLibrary) (calls : ι → WorkflowCall) (schedule : List ι)
    (h : EveryStep (WaitPool.step E) ShownAfterMarker (WaitPool.start X calls) schedule) :
    EveryStep (WaitPool.step E) Delivered (WaitPool.start X calls) schedule := by
  have hinv := always_of_invariant WatchInv (fun _ i h (_ : True) => watchInv_step (E := E) h i)
    (watchInv_start X calls) (everyStep_true schedule)
  refine everyStep_iff.mpr fun pre i post hsplit runId name eventId outcome howes => ?_
  obtain ⟨hnamed, hshown⟩ := everyStep_iff.mp h pre i post hsplit runId name eventId outcome howes
  obtain ⟨⟨timeout, hnext⟩, hopen, -⟩ := howes
  exact (delivered_iff (hinv pre (i :: post) hsplit) hnext hopen hnamed).mpr hshown

end Runs

/-- One that waits for an event. -/
def waiting : WorkflowCall :=
  .invoke ⟨0, false, ⟨some "run", .undefined, []⟩, fun _ => .step (.waitForEvent "w" "go" none) fun _ => .ret .null⟩

/-- A run that waits is invoked, notified, and invoked again. -/
def notifiedBetween : Nat → WorkflowCall
  | 1 => .notify 0 (some "run") "go" (.bool true)
  | _ => waiting

theorem notifications_delivered_between : EveryStep (WaitPool.step WorkflowEnv.sample) Delivered
    (WaitPool.start JsLibrary.sample notifiedBetween) (List.replicate 6 0 ++ [1] ++ List.replicate 5 2) := by
  refine notifications_delivered WorkflowEnv.sample JsLibrary.sample notifiedBetween _ ?_
  refine ⟨?_, ?_, ?_, ?_, ?_, ?_, ?_, ?_, ?_, ?_, ?_, ?_, trivial⟩
  case refine_6 =>
    -- nothing had been notified when the first invocation began
    rintro _ _ _ _ ⟨⟨_, ⟨⟩⟩, -, hbegan⟩
    exact absurd hbegan (by decide)
  case refine_11 =>
    rintro _ _ _ _ ⟨⟨_, ⟨⟩⟩, -, -⟩
    exact ⟨by decide, _, rfl, by decide⟩
  all_goals rintro _ _ _ _ ⟨⟨_, ⟨⟩⟩, -⟩

/-- A notification that names no run, and then a run that waits for it. -/
def notifiedBefore : Bool → WorkflowCall
  | true => .notify 0 none "go" (.bool true)
  | false => waiting

/-- The run is suspended. -/
theorem broadcast_lost : ¬ EveryStep (WaitPool.step WorkflowEnv.sample) Delivered
    (WaitPool.start JsLibrary.sample notifiedBefore) ([true, true] ++ List.replicate 6 false) := by
  intro h
  have hstep := everyStep_iff.mp h ([true, true] ++ List.replicate 5 false) false [] rfl "run" "w" "go"
    (.threw (.suspended .waitForEvent "w" none (some "go"))) ⟨⟨none, rfl⟩, rfl, by decide⟩
  obtain ⟨n, -, -, hvalue⟩ := hstep
  cases hvalue

end ActantDb
