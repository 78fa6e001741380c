import ActantDb.Workflow.Finality

/-!
# The payload of a run

A handler gets the body of the invocation it is called in as `ctx.payload`. The row that starts a run records the body it was started with, but nothing reads it back: an invocation from outside that resumes the run brings its own body, or none. A timer brings the body of the invocation that has set it. So the payload of a run is stable exactly as long as every invocation from outside repeats the body the run was started with (`payload_stable_iff`).
-/

namespace ActantDb

open Prog

/-! ### Timers -/

/-- The inputs that timers have been set with, beside the world. -/
abbrev TimedWorld := WorkflowWorld × List InvokeInput

def WorkflowOp.handleTimed (E : WorkflowEnv) (o : WorkflowOp) (w : TimedWorld) : o.Res × TimedWorld :=
  ((o.handle E w.1).1, (o.handle E w.1).2,
    match o with
    | .setTimeout _ input => w.2 ++ [input]
    | _ => w.2)

namespace Invocation

variable (inv : Invocation) (runId : String)

/-- What the handler of the invocation is called with. -/
def context : WorkflowContext := ⟨runId, inv.input.body, inv.input.headers⟩

/-- What a timer that is set by the invocation will call it with. -/
def resumeInput : InvokeInput := ⟨some runId, inv.input.body, []⟩

/-- The invocation up to the start of the run. -/
def begin : WorkflowProg Unit := .call (.observe (.invoked runId)) fun _ => inv.start runId

/-- The invocation up to the call of the handler. -/
def enter : WorkflowProg RunnerState := do
  inv.begin runId
  inv.makeState runId

/-- The run id, given or new. -/
def assigned (E : WorkflowEnv) (w : WorkflowWorld) : String × WorkflowWorld :=
  match inv.input.runId with
  | some runId => (runId, w)
  | none => ("wfr_" ++ ((WorkflowOp.ulid inv.process).handle E w).1, ((WorkflowOp.ulid inv.process).handle E w).2)

end Invocation

/-! ### The served handlers -/

/-- The world, the timers that are set, the body that each run was started with, and what handlers were called with. -/
structure Serving where
  world : WorkflowWorld
  timers : List Invocation
  started : String → Option JsValue
  contexts : List WorkflowContext

/-- A call from outside, or a timer that goes off. -/
inductive ServeEvent where
  | call (c : WorkflowCall)
  | timer (i : Nat)

section Step

variable (E : WorkflowEnv) (X : JsLibrary)

/-- The invocation gets past the start of its run. -/
def Invocation.begins (inv : Invocation) (w : WorkflowWorld) : Bool :=
  ((inv.begin (inv.assigned E w).1).run (WorkflowOp.handle E) (inv.assigned E w).2).1.isOk

/-- The handler is called. -/
def Invocation.enters (inv : Invocation) (w : WorkflowWorld) : Bool :=
  ((inv.enter (inv.assigned E w).1).run (WorkflowOp.handle E) (inv.assigned E w).2).1.isOk

def Serving.invoke (s : Serving) (inv : Invocation) : Serving :=
  let runId := (inv.assigned E s.world).1
  let after := ((ActantDb.invoke X inv).run (WorkflowOp.handleTimed E) (s.world, [])).2
  { world := after.1
    timers := s.timers ++ after.2.map fun input => { inv with input := input }
    started := if inv.begins E s.world && (s.started runId).isNone then Function.update s.started runId (some inv.input.body) else s.started
    contexts := if inv.enters E s.world then s.contexts ++ [inv.context runId] else s.contexts }

def Serving.step (s : Serving) : ServeEvent → Serving
  | .call (.invoke inv) => s.invoke E X inv
  | .call c => { s with world := s.world.step E X c }
  | .timer i =>
    match s.timers[i]? with
    | none => s
    | some inv => Serving.invoke E X { s with timers := s.timers.eraseIdx i } inv

end Step

/-- Every handler has been called with the body its run was started with. -/
def Serving.Stable (s : Serving) : Prop := ∀ c ∈ s.contexts, s.started c.runId = some c.payload

/-- A call from outside that enters the handler of a started run repeats the body the run was started with. -/
def Serving.Repeats (E : WorkflowEnv) (s : Serving) : ServeEvent → Prop
  | .call (.invoke inv) => inv.enters E s.world = true →
      ∀ body, s.started (inv.assigned E s.world).1 = some body → inv.input.body = body
  | _ => True

/-! ### What an invocation sets timers with -/

section Timers

variable {E : WorkflowEnv} {X : JsLibrary} {inv : Invocation} {runId : String} {p : InvokeInput → Prop}

/-- A program may set timers with such inputs only. -/
def timerMonitor (p : InvokeInput → Prop) : Monitor WorkflowOp WorkflowOp.Res Unit where
  allowed _ o := ∀ delay input, o = .setTimeout delay input → p input
  next l _ _ := l

/-- The program sets timers with such inputs only. -/
abbrev SetsOnly {α : Type} (p : InvokeInput → Prop) (prog : WorkflowProg α) : Prop := Steady (timerMonitor p) (fun _ => True) prog

theorem allowed_of_ne {o : WorkflowOp} (h : ∀ delay input, o ≠ .setTimeout delay input) (l : Unit) : (timerMonitor p).allowed l o :=
  fun delay input heq => absurd heq (h delay input)

theorem setsOnly_append (process : Nat) (row : AppendInput) : SetsOnly p (ledgerAppend process row) :=
  steady_performOr (fun l _ => ⟨allowed_of_ne (by simp) l, fun _ => trivial⟩) _ _

theorem setsOnly_query (filter : LedgerFilter) : SetsOnly p (ledgerQuery filter) :=
  steady_performOr (fun l _ => ⟨allowed_of_ne (by simp) l, fun _ => trivial⟩) _ _

theorem calmCalls_timers : CalmCalls (timerMonitor p) (fun _ => True) (fun _ => True) where
  now _ _ l _ := ⟨allowed_of_ne (by simp) l, fun _ => trivial⟩
  note _ _ l _ _ := ⟨allowed_of_ne (by simp) l, fun _ => trivial⟩
  push _ _ _ _ _ _ _ := trivial
  seen _ _ _ := trivial
  run _ _ l _ := ⟨allowed_of_ne (by simp) l, fun _ => trivial⟩
  fetch _ _ _ _ l _ := ⟨allowed_of_ne (by simp) l, fun _ => trivial⟩
  record _ _ _ _ l _ _ _ := ⟨allowed_of_ne (by simp) l, fun _ => trivial⟩
  result _ _ _ _ := trivial

theorem setsOnly_enter : SetsOnly p (inv.enter runId) := by
  have hstart : SetsOnly p (inv.start runId) := steady_start (setsOnly_query _) fun _ => setsOnly_append _ _
  have hbegin : SetsOnly p (inv.begin runId) := ⟨fun l _ => ⟨allowed_of_ne (by simp) l, fun _ => hstart.safe _ trivial⟩⟩
  exact hbegin.bind fun _ => (setsOnly_query _).bind fun _ => steady_done _

/-- A handler sets no timer. -/
theorem setsOnly_exec (w : Workflow) (s : RunnerState) : SetsOnly p (w.exec X s) := by
  induction w generalizing s with
  | ret output => exact steady_done _
  | throw e => exact steady_done _
  | step request next ih =>
    have hperform : SetsOnly p (request.perform X s) :=
      ⟨fun l hl => (within_step X calmCalls_timers trivial request l hl).mono fun _ _ h => h.1⟩
    exact hperform.bind fun a =>
      ⟨fun l _ => ⟨allowed_of_ne (by simp) l, fun _ => (ih a.1.result a.2).safe _ trivial⟩⟩

theorem setsOnly_attempt (s : RunnerState) : SetsOnly p (inv.attempt runId X s) := by
  refine (setsOnly_exec (inv.handler (inv.context runId)) s).bind fun r => ?_
  cases r with
  | error e => exact steady_done _
  | ok output =>
    refine ⟨fun l _ => ⟨allowed_of_ne (by simp) l, fun answer => ?_⟩⟩
    cases answer <;> trivial

/-- The timer that an invocation sets brings its own body. -/
theorem setsOnly_scheduleResume (delay : Option F64) :
    SetsOnly (· = inv.resumeInput runId) (inv.scheduleResume runId delay) := by
  rw [Invocation.scheduleResume]
  split
  · refine ⟨fun l _ => ⟨?_, fun _ => trivial⟩⟩
    rintro delay given heq
    obtain ⟨-, rfl⟩ := WorkflowOp.setTimeout.inj heq
    rfl
  · exact steady_done _

theorem setsOnly_conclude (r : Except JsError JsValue) :
    SetsOnly (· = inv.resumeInput runId) (inv.conclude runId r) := by
  have hend : ∀ {payload : JsValue} {result : WorkflowRunResult},
      SetsOnly (· = inv.resumeInput runId) (inv.append runId .agentRunFinished payload >>= fun _ => pure result) :=
    (setsOnly_append _ _).bind fun _ => steady_done _
  cases r with
  | ok output => exact steady_done _
  | error e =>
    cases e with
    | suspended reason stepName retryAfterMs waitingForEventId =>
      exact (setsOnly_scheduleResume retryAfterMs).bind fun _ => steady_done _
    | cancelled => exact hend
    | other e => exact hend
    | workflow code message =>
      cases code with
      | runCancelled =>
        refine Steady.bind ((setsOnly_query _).bind fun events => ?_) fun _ => steady_done _
        split
        · exact steady_done _
        · exact (setsOnly_append _ _).bind fun _ => steady_done _
      | _ => exact hend

theorem invokeRun_eq : inv.invokeRun X runId = inv.enter runId >>= fun s =>
    inv.attempt runId X s >>= fun r => inv.conclude runId r := by
  simp only [Invocation.invokeRun, Invocation.enter, Invocation.begin, call_bind, bind_assoc]

theorem setsOnly_invokeRun : SetsOnly (· = inv.resumeInput runId) (inv.invokeRun X runId) := by
  rw [invokeRun_eq]
  exact setsOnly_enter.bind fun s => (setsOnly_attempt s).bind fun r => setsOnly_conclude r

def TimersMeet (p : InvokeInput → Prop) (_ : Unit) (w : TimedWorld) : Prop := ∀ input ∈ w.2, p input

/-- What timers are set with while such a program runs. -/
theorem SetsOnly.timers {α : Type} {prog : WorkflowProg α} (h : SetsOnly p prog) (w : WorkflowWorld) :
    ∀ input ∈ (prog.run (WorkflowOp.handleTimed E) (w, [])).2.2, p input := by
  have hnone : TimersMeet p () ((w, []) : TimedWorld) := fun input hmem => absurd hmem List.not_mem_nil
  have hkept : ∀ (l : Unit) (w : TimedWorld) (o : WorkflowOp), TimersMeet p l w → (timerMonitor p).allowed l o → True →
      TimersMeet p ((timerMonitor p).next l o (o.handleTimed E w).1) (o.handleTimed E w).2 := by
    intro l w o hmeet hallowed _
    cases o with
    | setTimeout delay input =>
      intro input' hmem
      rcases List.mem_append.mp hmem with hmem | hmem
      · exact hmeet input' hmem
      · rw [List.mem_singleton.mp hmem]
        exact hallowed delay input rfl
    | _ => exact hmeet
  obtain ⟨_, hmeet, -⟩ := run_joint (WorkflowOp.handleTimed E) (TimersMeet p) (fun _ _ => True) hkept (h.safe () trivial) hnone
    (along_true _ _ _)
  exact hmeet

/-- The timers are kept beside the world and change nothing of it. -/
theorem run_handleTimed {α : Type} (prog : WorkflowProg α) (w : TimedWorld) :
    (prog.run (WorkflowOp.handleTimed E) w).1 = (prog.run (WorkflowOp.handle E) w.1).1
      ∧ (prog.run (WorkflowOp.handleTimed E) w).2.1 = (prog.run (WorkflowOp.handle E) w.1).2 := by
  induction prog generalizing w with
  | done r => exact ⟨rfl, rfl⟩
  | call o next ih => exact ih _ _

theorem run_invoke (w : WorkflowWorld) : (invoke X inv).run (WorkflowOp.handleTimed E) (w, []) =
    (inv.invokeRun X (inv.assigned E w).1).run (WorkflowOp.handleTimed E) ((inv.assigned E w).2, []) := by
  unfold invoke Invocation.assign Invocation.assigned
  cases inv.input.runId <;> rfl

/-- **An invocation sets timers with its own run and body,** and only after its handler has been called. -/
theorem timers_invoke {w : WorkflowWorld} {input : InvokeInput}
    (h : input ∈ ((invoke X inv).run (WorkflowOp.handleTimed E) (w, [])).2.2) :
    input = inv.resumeInput (inv.assigned E w).1 ∧ inv.enters E w = true := by
  rw [run_invoke] at h
  refine ⟨setsOnly_invokeRun.timers _ input h, ?_⟩
  by_contra hnot
  rw [invokeRun_eq, run_bind] at h
  obtain ⟨hresult, -⟩ := run_handleTimed (E := E) (inv.enter (inv.assigned E w).1) ((inv.assigned E w).2, [])
  split at h
  · next s w' hok =>
    rw [hok] at hresult
    rw [Invocation.enters, ← hresult] at hnot
    exact hnot rfl
  · next e w' herror =>
    have henter : SetsOnly (fun _ => False) (inv.enter (inv.assigned E w).1) := setsOnly_enter
    have hnone := henter.timers (E := E) (inv.assigned E w).2
    rw [herror] at hnone
    exact hnone input h

theorem begins_of_enters {w : WorkflowWorld} (h : inv.enters E w = true) : inv.begins E w = true := by
  rw [Invocation.enters, Invocation.enter, run_bind] at h
  rw [Invocation.begins]
  split at h
  · next hok => rw [hok]; rfl
  · cases h

end Timers

/-! ### Runs -/

section Runs

variable {E : WorkflowEnv} {X : JsLibrary} {s : Serving} {inv : Invocation}

/-- A timer is for a run that was started with the body it brings. -/
def Serving.TimersRepeat (s : Serving) : Prop :=
  ∀ inv ∈ s.timers, ∃ runId, inv.input.runId = some runId ∧ s.started runId = some inv.input.body

/-- What a run was started with stays so. -/
theorem started_invoke {runId : String} {body : JsValue} (h : s.started runId = some body) :
    (s.invoke E X inv).started runId = some body := by
  simp only [Serving.invoke]
  split
  · next hnew =>
    rw [Function.update_apply]
    split
    · next heq =>
      subst heq
      rw [h] at hnew
      simp at hnew
    · exact h
  · exact h

/-- Once its handler is called, a run is started: with the body of this invocation, if it was not before. -/
theorem started_of_enters (h : inv.enters E s.world = true) :
    (∃ body, s.started (inv.assigned E s.world).1 = some body)
      ∨ (s.invoke E X inv).started (inv.assigned E s.world).1 = some inv.input.body := by
  cases hstarted : s.started (inv.assigned E s.world).1 with
  | some body => exact .inl ⟨body, rfl⟩
  | none =>
    right
    simp only [Serving.invoke, begins_of_enters h, hstarted, Option.isNone_none, Bool.and_self, if_true, Function.update_self]

/-- The body agrees with what the run was started with, if it was. -/
def Agrees (E : WorkflowEnv) (s : Serving) (inv : Invocation) : Prop :=
  inv.enters E s.world = true → ∀ body, s.started (inv.assigned E s.world).1 = some body → inv.input.body = body

theorem started_of_agrees (h : Agrees E s inv) (henters : inv.enters E s.world = true) :
    (s.invoke E X inv).started (inv.assigned E s.world).1 = some inv.input.body := by
  rcases started_of_enters (X := X) henters with ⟨body, hbody⟩ | hnew
  · rw [h henters body hbody]
    exact started_invoke hbody
  · exact hnew

theorem stable_invoke_iff (hstable : s.Stable) : (s.invoke E X inv).Stable ↔ Agrees E s inv := by
  constructor
  · intro h henters body hbody
    have hmem : inv.context (inv.assigned E s.world).1 ∈ (s.invoke E X inv).contexts := by
      simp only [Serving.invoke, henters, if_true]
      exact List.mem_append_right _ (List.mem_singleton.mpr rfl)
    exact Option.some.inj ((h _ hmem).symm.trans (started_invoke hbody))
  · intro hagrees c hc
    simp only [Serving.invoke] at hc
    split at hc
    · next henters =>
      rcases List.mem_append.mp hc with hc | hc
      · exact started_invoke (hstable c hc)
      · rw [List.mem_singleton.mp hc]
        exact started_of_agrees hagrees henters
    · exact started_invoke (hstable c hc)

theorem timersRepeat_invoke (h : s.TimersRepeat) (hagrees : Agrees E s inv) : (s.invoke E X inv).TimersRepeat := by
  intro inv' hinv'
  rcases List.mem_append.mp hinv' with hold | hnew
  · obtain ⟨runId, hrunId, hstarted⟩ := h inv' hold
    exact ⟨runId, hrunId, started_invoke hstarted⟩
  · obtain ⟨input, hinput, rfl⟩ := List.mem_map.mp hnew
    obtain ⟨rfl, henters⟩ := timers_invoke hinput
    exact ⟨_, rfl, started_of_agrees hagrees henters⟩

/-- A timer's invocation agrees with its run. -/
theorem agrees_of_timer {runId : String} (hrunId : inv.input.runId = some runId) (hstarted : s.started runId = some inv.input.body) :
    Agrees E s inv := by
  intro _ body hbody
  have hassigned : (inv.assigned E s.world).1 = runId := by rw [Invocation.assigned, hrunId]
  rw [hassigned, hstarted] at hbody
  exact Option.some.inj hbody

theorem TimersRepeat.erase (h : s.TimersRepeat) (i : Nat) : Serving.TimersRepeat { s with timers := s.timers.eraseIdx i } :=
  fun inv hinv => h inv (List.mem_of_mem_eraseIdx hinv)

theorem stable_step_iff (hstable : s.Stable) (htimers : s.TimersRepeat) (event : ServeEvent) :
    (s.step E X event).Stable ↔ s.Repeats E event := by
  cases event with
  | call c =>
    cases c with
    | invoke inv => exact stable_invoke_iff hstable
    | notify process runId eventId eventData => exact iff_of_true hstable trivial
    | cancel process runId => exact iff_of_true hstable trivial
  | timer i =>
    refine iff_of_true ?_ trivial
    simp only [Serving.step]
    split
    · exact hstable
    · next inv hinv =>
      obtain ⟨runId, hrunId, hstarted⟩ := htimers inv (List.mem_of_getElem? hinv)
      exact (stable_invoke_iff (s := { s with timers := s.timers.eraseIdx i }) hstable).mpr (agrees_of_timer hrunId hstarted)

theorem timersRepeat_step (htimers : s.TimersRepeat) {event : ServeEvent} (h : s.Repeats E event) :
    (s.step E X event).TimersRepeat := by
  cases event with
  | call c =>
    cases c with
    | invoke inv => exact timersRepeat_invoke htimers h
    | notify process runId eventId eventData => exact htimers
    | cancel process runId => exact htimers
  | timer i =>
    simp only [Serving.step]
    split
    · exact htimers
    · next inv hinv =>
      obtain ⟨runId, hrunId, hstarted⟩ := htimers inv (List.mem_of_getElem? hinv)
      exact timersRepeat_invoke (TimersRepeat.erase htimers i) (agrees_of_timer hrunId hstarted)

end Runs

/-- No run has been started. -/
def Serving.fresh (w : WorkflowWorld) : Serving := ⟨w, [], fun _ => none, []⟩

/-- **The payload is stable exactly where it is repeated.** Along a run every handler is called with the body its run was started with if and only if each call from outside that enters the handler of a started run has that body; the timers always have it. -/
theorem payload_stable_iff (E : WorkflowEnv) (X : JsLibrary) (w : WorkflowWorld) (events : List ServeEvent) :
    Lts.Always (Serving.step E X) Serving.Stable (Serving.fresh w) events
      ↔ Lts.EveryStep (Serving.step E X) (Serving.Repeats E) (Serving.fresh w) events :=
  Lts.always_iff_everyStep (fun s => s.Stable ∧ s.TimersRepeat) Serving.Stable (fun _ h => h.1)
    (fun _ event h => stable_step_iff h.1 h.2 event)
    (fun _ event h hrepeats => ⟨(stable_step_iff h.1 h.2 event).mpr hrepeats, timersRepeat_step h.2 hrepeats⟩)
    ⟨fun _ hc => absurd hc List.not_mem_nil, fun _ hinv => absurd hinv List.not_mem_nil⟩

/-! ### A resume without a body -/

/-- A handler that waits for an event, and its run as it is started and resumed. -/
def waitingInvocation (body : JsValue) : Invocation :=
  ⟨0, true, ⟨some "wfr_1", body, []⟩, fun _ => .step (.waitForEvent "approved" "evt" none) fun _ => .ret .undefined⟩

def startedThenResumed : List ServeEvent :=
  [.call (.invoke (waitingInvocation (.string "order-7"))), .call (.invoke (waitingInvocation .undefined))]

/-- The second call of the handler has no payload. -/
theorem resumed_without_payload : ¬ Lts.Always (Serving.step .sample .sample) Serving.Stable
    (Serving.fresh WorkflowWorld.empty) startedThenResumed := by
  intro h
  have hstable := h startedThenResumed [] rfl
  have hcontexts : (Lts.run (Serving.step .sample .sample) (Serving.fresh .empty) startedThenResumed).contexts =
      [(waitingInvocation (.string "order-7")).context "wfr_1", (waitingInvocation .undefined).context "wfr_1"] := rfl
  have hfirst := hstable ((waitingInvocation (.string "order-7")).context "wfr_1") (hcontexts ▸ List.mem_cons_self)
  have hsecond := hstable ((waitingInvocation .undefined).context "wfr_1")
    (hcontexts ▸ List.mem_cons_of_mem _ List.mem_cons_self)
  cases Option.some.inj (hfirst.symm.trans hsecond)

end ActantDb
