import ActantDb.Workflow.Once

/-!
# Invocations one after the other

An invocation that begins when no other is under way reads all that was recorded, so it calls no function whose result is in the ledger, and gives its handler that result. What is left to ask is that every result can be recorded: one that reads back as nothing, or that the ledger does not take, is called for again.
-/

namespace ActantDb

open Prog Lts

variable {ι : Type} [DecidableEq ι]

/-- The call has not begun, or has returned. -/
def WorkflowPool.AtRest (c : WorkflowPool ι) (i : ι) : Prop :=
  (∀ a ∈ c.trace, a.thread ≠ i) ∨ ∃ r, c.thread i = .done r

/-- No other call is under way; a result that is recorded can be, and the run has an id. -/
structure TakesTurn (E : WorkflowEnv) (c : WorkflowPool ι) (i : ι) : Prop where
  turn : ∀ j, j ≠ i → c.AtRest j
  recordable : ∀ process input, c.next? i = some (.append process input) → input.kind = .toolCallCompleted →
    Recordable E c.world process input
  named : ∀ runId step outcome, c.next? i = some (.observe (.settled runId step outcome)) → runId ≠ ""

/-- A function is called of a step that is not recorded only, and a step that is recorded and whose function the call has not called itself gives the recorded result, unless it is refused. -/
structure Recalls (c : WorkflowPool ι) (i : ι) : Prop where
  calls : ∀ o runId key, c.next? i = some o → o.CallsStep runId key →
    c.world.rows.any (·.records runId key) = false
  gives : ∀ runId step outcome key, c.next? i = some (.observe (.settled runId step outcome)) →
    step.key? = some key → key ∉ (c.trail i).called → outcome.refused = false →
      ∀ e ∈ c.world.rows, e.records runId key = true → outcome = .value (e.payload.get "result")

/-- The trail has all results of its run, but for those of functions it has called. -/
structure SeesAll (l : Trail) (w : WorkflowWorld) : Prop where
  results : ∀ e ∈ w.rows, e.kind = .toolCallCompleted → e.runId = l.runId →
    e ∈ l.snapshot ∨ ∃ key ∈ l.called, e.completes key = true
  own : l.runId ≠ "" → ∀ e ∈ l.snapshot, e.runId = l.runId

structure TurnInv (c : WorkflowPool ι) : Prop where
  once : OnceInv c
  sees : ∀ i, (c.trail i).stage ≠ .opening → (∀ r, c.thread i ≠ .done r) → SeesAll (c.trail i) c.world
  calling : ∀ i key v, (c.trail i).stage = .recording key v → key ∈ (c.trail i).called

section Steps

variable {E : WorkflowEnv} {c : WorkflowPool ι} {i : ι} {runId key : String}

theorem trail_of_not_begun (h : ∀ a ∈ c.trace, a.thread ≠ i) : c.trail i = .start := by
  have hskip : ∀ (trace : List (Answered ι WorkflowOp WorkflowOp.Res)) (l : Trail), (∀ a ∈ trace, a.thread ≠ i) →
      Pool.summary ActantDb.once l i trace = l := by
    intro trace l
    induction trace generalizing l with
    | nil => exact fun _ => rfl
    | cons a trace ih =>
      intro hothers
      rw [Pool.summary, List.foldl_cons, if_neg (hothers a List.mem_cons_self)]
      exact ih l fun b hb => hothers b (List.mem_cons_of_mem _ hb)
  exact hskip c.trace .start h

/-- A call at rest is about to record nothing. -/
theorem idle_of_atRest (h : OnceInv c) (hrest : c.AtRest i) : ¬ (c.trail i).Records runId key := by
  rintro ⟨-, v, hstage⟩
  rcases hrest with hnot | ⟨r, hdone⟩
  · rw [trail_of_not_begun hnot] at hstage
    cases hstage
  · have hidle := h.safe i
    rw [hdone] at hidle
    exact hidle key v hstage

/-- The step is recorded, and the call has not called its function. -/
theorem SeesAll.mem {l : Trail} {w : WorkflowWorld} (h : SeesAll l w) {e : ActantEvent} (he : e ∈ w.rows)
    (hrecords : e.records l.runId key = true) (hcalled : key ∉ l.called) : e ∈ l.snapshot := by
  obtain ⟨hrun, hkind, hcompletes⟩ := records_eq hrecords
  rcases h.results e he hkind hrun with hin | ⟨key', hkey', hcompletes'⟩
  · exact hin
  · rw [completes_unique hcompletes hcompletes'] at hcalled
    exact absurd hkey' hcalled

omit [DecidableEq ι] in
theorem running_of_next {o : WorkflowOp} (h : c.next? i = some o) (r : Except JsError WorkflowReply) :
    c.thread i ≠ .done r := by
  intro hdone
  rw [Pool.next?_done hdone] at h
  cases h

/-- In its turn a call finds what has to be found. -/
theorem callsAlone_of_takesTurn (h : TurnInv c) (hturn : TakesTurn E c i) : CallsAlone E c i := by
  intro o hnext
  have hnow : ∀ runId key, (c.trail i).allowed o → o.CallsStep runId key → MayCallNow c i runId key := by
    intro runId key hallowed ho
    have hmay : (c.trail i).MayCall runId key := by
      rcases ho with rfl | ⟨url, init, rfl⟩
      · exact hallowed
      · exact hallowed
    obtain ⟨hrun, hrunning, hcalled, -⟩ := hmay
    refine ⟨fun j => ?_, fun hsome => ?_⟩
    · by_cases hji : j = i
      · rintro ⟨-, v, hstage⟩
        rw [hji, hrunning] at hstage
        cases hstage
      · exact idle_of_atRest h.once (hturn.turn j hji)
    · obtain ⟨e, he, hrecords⟩ := List.any_eq_true.mp hsome
      have hsees := h.sees i (by rw [hrunning]; nofun) (running_of_next hnext)
      exact List.any_eq_true.mpr ⟨e, hsees.mem he (hrun ▸ hrecords) hcalled, hrecords⟩
  have hallowed : (c.trail i).allowed o := h.once.safe.allowed_next hnext
  cases o with
  | append process input => exact fun hkind => hturn.recordable process input hnext hkind
  | run runId key => exact hnow runId key hallowed (Or.inl rfl)
  | fetch runId key url init => exact hnow runId key hallowed (Or.inr ⟨url, init, rfl⟩)
  | _ => trivial

/-- One record of a step only. -/
theorem record_unique {rows : List ActantEvent} (hone : rows.countP (·.records runId key) ≤ 1) {e e' : ActantEvent}
    (he : e ∈ rows) (he' : e' ∈ rows) (hrecords : e.records runId key = true)
    (hrecords' : e'.records runId key = true) : e = e' := by
  rw [List.countP_eq_length_filter] at hone
  have hin : e ∈ rows.filter (·.records runId key) := List.mem_filter.mpr ⟨he, hrecords⟩
  have hin' : e' ∈ rows.filter (·.records runId key) := List.mem_filter.mpr ⟨he', hrecords'⟩
  cases hrows : rows.filter (·.records runId key) with
  | nil =>
    rw [hrows] at hin
    cases hin
  | cons first rest =>
    rw [hrows] at hone hin hin'
    have hrest : rest = [] := List.length_eq_zero_iff.mp (by rw [List.length_cons] at hone; omega)
    rw [hrest, List.mem_singleton] at hin hin'
    rw [hin, hin']

theorem turnInv_start (X : JsLibrary) (calls : ι → WorkflowCall) : TurnInv (WorkflowPool.start X calls) where
  once := onceInv_start X calls
  sees _ hopening := absurd rfl hopening
  calling _ _ _ hstage := by cases hstage

/-- A move of a call keeps what it sees. -/
theorem sees_move {l l' : Trail} {w w' : WorkflowWorld} {o : WorkflowOp} (hmoves : l.Moves w w' o l')
    (h : l.stage ≠ .opening → SeesAll l w) (hcalling : ∀ key v, l.stage = .recording key v → key ∈ l.called)
    (hread : l'.stage ≠ .opening) : SeesAll l' w' := by
  cases hmoves with
  | records hstage hlog hrows hrun hkind hcompletes hdefined =>
    obtain ⟨hresults, hown⟩ := h (by rw [hstage]; nofun)
    refine ⟨fun e he hkind' hrun' => ?_, hown⟩
    rw [hrows, List.mem_append, List.mem_singleton] at he
    rcases he with he | rfl
    · exact hresults e he hkind' hrun'
    · exact Or.inr ⟨_, hcalling _ _ hstage, hcompletes⟩
  | calls ho hmay hlog hrows =>
    rename_i runId key r
    obtain ⟨hresults, hown⟩ := h (by rw [hmay.2.1]; nofun)
    have hcall : (l.calledWith key r).runId = l.runId ∧ (l.calledWith key r).snapshot = l.snapshot ∧
        (l.calledWith key r).called = key :: l.called := by
      cases r <;> exact ⟨rfl, rfl, rfl⟩
    obtain ⟨hrunId, hsnapshot, hcalled⟩ := hcall
    refine ⟨fun e he hkind hrun => ?_, ?_⟩
    · rw [hsnapshot, hcalled]
      rw [hrows] at he
      rcases hresults e he hkind (hrun.trans hrunId) with hin | ⟨key', hkey', hcompletes⟩
      · exact Or.inl hin
      · exact Or.inr ⟨key', List.mem_cons_of_mem _ hkey', hcompletes⟩
    · rw [hrunId, hsnapshot]
      exact hown
  | reads hopening hlog hrows =>
    refine ⟨fun e he _ hrun => Or.inl (mem_select.mpr ⟨?_, Or.inr hrun⟩), fun hnamed e he => ?_⟩
    · rw [hrows] at he
      exact he
    · exact (mem_select.mp he).2.resolve_left hnamed
  | begins hopening hlog hrows => exact absurd hopening hread
  | notes hrows hadded hlog hlogged =>
    obtain ⟨hresults, hown⟩ := h hread
    refine ⟨fun e he hkind hrun => ?_, hown⟩
    rw [hrows] at he
    rcases List.mem_append.mp he with he | he
    · exact hresults e he hkind hrun
    · exact absurd hkind (hadded e he)

theorem calling_move {l l' : Trail} {w w' : WorkflowWorld} {o : WorkflowOp} (hmoves : l.Moves w w' o l')
    (h : ∀ key v, l.stage = .recording key v → key ∈ l.called) (key : String) (v : JsValue)
    (hstage : l'.stage = .recording key v) : key ∈ l'.called := by
  cases hmoves with
  | records => cases hstage
  | calls ho hmay hlog hrows =>
    rename_i runId key' r
    cases r with
    | error e => exact List.mem_cons_of_mem _ (h key v hstage)
    | ok v' =>
      cases hstage
      exact List.mem_cons_self
  | reads => cases hstage
  | begins hopening =>
    rw [show l.stage = _ from hstage] at hopening
    cases hopening
  | notes => exact h key v hstage

theorem turnInv_step (h : TurnInv c) (hturn : TakesTurn E c i) : TurnInv (c.step E i) := by
  have honce := onceInv_step h.once (callsAlone_of_takesTurn h hturn)
  rcases step_moves h.once.safe hturn.recordable with
    ⟨hsame, -⟩ | ⟨o, l, hnext, -, hmoves, htrail, hothers⟩
  · rwa [hsame]
  · refine ⟨honce, fun j hread hrunning => ?_, fun j key v hstage => ?_⟩
    · by_cases hji : j = i
      · subst hji
        rw [htrail j, if_pos rfl] at hread ⊢
        exact sees_move hmoves (fun hopen => h.sees j hopen (running_of_next hnext)) (h.calling j) hread
      · -- another call is at rest
        rw [htrail j, if_neg (Ne.symm hji)] at hread
        rcases hturn.turn j hji with hnot | ⟨r, hdone⟩
        · rw [trail_of_not_begun hnot] at hread
          exact absurd rfl hread
        · exact absurd ((hothers j hji).trans hdone) (hrunning r)
    · rw [htrail j] at hstage ⊢
      by_cases hij : i = j
      · rw [if_pos hij] at hstage ⊢
        exact calling_move hmoves (h.calling i) key v hstage
      · rw [if_neg hij] at hstage ⊢
        exact h.calling j key v hstage

theorem recalls_of_turnInv (h : TurnInv c) (hturn : TakesTurn E c i) : Recalls c i := by
  refine ⟨fun o runId key hnext ho => ?_, fun runId step outcome key hnext hkey hcalled hrefused e he hrecords => ?_⟩
  · have hasks := callsAlone_of_takesTurn h hturn o hnext
    have hallowed : (c.trail i).allowed _ := h.once.safe.allowed_next hnext
    by_contra hsome
    have hboth : MayCallNow c i runId key ∧ (c.trail i).MayCall runId key := by
      rcases ho with rfl | ⟨url, init, rfl⟩
      · exact ⟨hasks, hallowed⟩
      · exact ⟨hasks, hallowed⟩
    refine not_unrecorded (fun e he => h.once.readable e (h.once.stored i e he))
      (hboth.1.current (by simpa using hsome)) hboth.2.2.2.2
  · obtain ⟨hrun, hrunning, hexplains⟩ : (c.trail i).allowed _ := h.once.safe.allowed_next hnext
    subst hrun
    have hsees := h.sees i (by rw [hrunning]; nofun) (running_of_next hnext)
    have hin := hsees.mem he hrecords hcalled
    obtain ⟨found, hfound⟩ : ∃ found, (c.trail i).snapshot.find? (·.completes key) = some found := by
      cases hfind : (c.trail i).snapshot.find? (·.completes key) with
      | some found => exact ⟨found, rfl⟩
      | none => exact absurd (records_eq hrecords).2.2 (List.find?_eq_none.mp hfind e hin)
    have hmem := List.mem_of_find?_eq_some hfound
    have hcompletes : found.completes key = true := by simpa using List.find?_some hfound
    have hfoundRecords : found.records (c.trail i).runId key = true := by
      rw [ActantEvent.records, hsees.own (hturn.named _ _ _ hnext) found hmem, hcompletes]
      simp
    have hsame : found = e := record_unique (h.once.each _ _).2 (h.once.stored i found hmem) he hfoundRecords hrecords
    rcases hexplains key hkey with hyes | hyes | hnone | hgives
    · exact absurd hyes hcalled
    · rw [hyes] at hrefused
      cases hrefused
    · exact absurd hnone (not_unrecorded (fun e he => h.once.readable e (h.once.stored i e he))
        (List.any_eq_true.mpr ⟨e, hin, hrecords⟩))
    · rw [hgives, findStepResult, hfound, hsame]
      rfl

/-- **Steps run at most once** in every run whose calls take turns and record what can be recorded: each function succeeds at most once in each run, none is called whose step is recorded, and a recorded step gives what is recorded. -/
theorem steps_run_once (E : WorkflowEnv) (X : JsLibrary) (calls : ι → WorkflowCall) (schedule : List ι)
    (h : EveryStep (WorkflowPool.step E) (TakesTurn E) (WorkflowPool.start X calls) schedule) :
    Always (WorkflowPool.step E) OnceEach (WorkflowPool.start X calls) schedule ∧
      EveryStep (WorkflowPool.step E) Recalls (WorkflowPool.start X calls) schedule := by
  have hinv := always_of_invariant TurnInv (fun _ _ h hturn => turnInv_step h hturn) (turnInv_start X calls) h
  refine ⟨fun pre post hsplit => (hinv pre post hsplit).once.each, everyStep_iff.mpr fun pre i post hsplit => ?_⟩
  exact recalls_of_turnInv (hinv pre (i :: post) hsplit) (everyStep_iff.mp h pre i post hsplit)

end Steps

omit [DecidableEq ι] in
theorem takesTurn_of {E : WorkflowEnv} {c : WorkflowPool ι} {i : ι} {o : WorkflowOp} (hnext : c.next? i = some o)
    (hturn : ∀ j, j ≠ i → c.AtRest j)
    (hrecordable : ∀ process input, o = .append process input → input.kind = .toolCallCompleted →
      Recordable E c.world process input)
    (hnamed : ∀ runId step outcome, o = .observe (.settled runId step outcome) → runId ≠ "") : TakesTurn E c i := by
  refine ⟨hturn, fun process input ho => hrecordable process input ?_, fun runId step outcome ho =>
    hnamed runId step outcome ?_⟩
  · rw [hnext] at ho
    exact Option.some.inj ho
  · rw [hnext] at ho
    exact Option.some.inj ho

/-- The second invocation begins when the first has returned. -/
def oneThenOther : List Bool := List.replicate 8 true ++ List.replicate 5 false

theorem steps_run_once_inTurn :
    Always (WorkflowPool.step WorkflowEnv.sample) OnceEach (WorkflowPool.start JsLibrary.sample twoInvocations) oneThenOther ∧
      EveryStep (WorkflowPool.step WorkflowEnv.sample) Recalls
        (WorkflowPool.start JsLibrary.sample twoInvocations) oneThenOther := by
  refine steps_run_once WorkflowEnv.sample JsLibrary.sample twoInvocations oneThenOther ?_
  have hfirst : ∀ c : WorkflowPool Bool, (∀ a ∈ c.trace, a.thread ≠ false) → ∀ j, j ≠ true → c.AtRest j := by
    intro c hnot j hj
    cases j with
    | true => exact absurd rfl hj
    | false => exact Or.inl hnot
  have hsecond : ∀ (c : WorkflowPool Bool) r, c.thread true = .done r → ∀ j, j ≠ false → c.AtRest j := by
    intro c r hdone j hj
    cases j with
    | true => exact Or.inr ⟨r, hdone⟩
    | false => exact absurd rfl hj
  refine ⟨takesTurn_of rfl (hfirst _ (by decide)) ?_ ?_, takesTurn_of rfl (hfirst _ (by decide)) ?_ ?_,
    takesTurn_of rfl (hfirst _ (by decide)) ?_ ?_, takesTurn_of rfl (hfirst _ (by decide)) ?_ ?_,
    takesTurn_of rfl (hfirst _ (by decide)) ?_ ?_, takesTurn_of rfl (hfirst _ (by decide)) ?_ ?_,
    takesTurn_of rfl (hfirst _ (by decide)) ?_ ?_, takesTurn_of rfl (hfirst _ (by decide)) ?_ ?_,
    takesTurn_of rfl (hsecond _ _ rfl) ?_ ?_, takesTurn_of rfl (hsecond _ _ rfl) ?_ ?_,
    takesTurn_of rfl (hsecond _ _ rfl) ?_ ?_, takesTurn_of rfl (hsecond _ _ rfl) ?_ ?_,
    takesTurn_of rfl (hsecond _ _ rfl) ?_ ?_, trivial⟩
  -- the operation that records the result, and the two that give it to the handler
  case refine_11 =>
    rintro _ _ ⟨⟩ -
    exact ⟨⟨.bool true, rfl, rfl⟩, by decide⟩
  case refine_14 | refine_24 =>
    rintro _ _ _ ⟨⟩
    decide
  all_goals rintro _ _ ⟨⟩ ⟨⟩

/-- Functions that return nothing. -/
def WorkflowEnv.silent : WorkflowEnv := { WorkflowEnv.sample with answer := fun _ => .ok .undefined }

/-- What reads back as nothing is called for again. -/
theorem undefined_called_twice : ¬ (Always (WorkflowPool.step WorkflowEnv.silent) OnceEach
    (WorkflowPool.start JsLibrary.sample twoInvocations) (List.replicate 8 true ++ List.replicate 7 false) ∧
      EveryStep (WorkflowPool.step WorkflowEnv.silent) Recalls
        (WorkflowPool.start JsLibrary.sample twoInvocations) (List.replicate 8 true ++ List.replicate 7 false)) := by
  rintro ⟨h, -⟩
  have hone := (h (List.replicate 8 true ++ List.replicate 7 false) [] rfl "run" "step:a").1
  have htwo : (run (WorkflowPool.step WorkflowEnv.silent) (WorkflowPool.start JsLibrary.sample twoInvocations)
      (List.replicate 8 true ++ List.replicate 7 false)).world.log.countP (·.succeeds "run" "step:a") = 2 := by
    decide
  omega

end ActantDb
