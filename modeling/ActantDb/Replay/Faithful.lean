import ActantDb.Replay.Stream

/-!
# Faithful replays and excluded memories

Two properties of the stream as a whole. A replay without options reproduces the recorded run unless a completion after the checkpoint has `null` for a payload, which the handler reads without the guard its neighbour has. Excluding memories rewrites one manifest, the last before the checkpoint; later ones are passed on as they were recorded.
-/

namespace ActantDb

namespace Replay

open JsValue

variable {X : JsLibrary} {opts : RunFromEventOptions} {excluded : List String} {events : List ActantEvent}
  {e r : ActantEvent} {E : LedgerEnv} {process : Nat} {l : Ledger} {run : ReplayRun}

/-! ### Length and kinds -/

/-- An event of the front is the recorded one or the manifest made anew. -/
def Fronts (X : JsLibrary) (e r : ActantEvent) : Prop := r = e ∨ Rehashed X e r

theorem replaceFirst_fronts {id : String} {f : ActantEvent → ActantEvent} (hf : ∀ e, Rehashed X e (f e)) :
    List.Forall₂ (Fronts X) events (replaceFirst id f events) := by
  induction events with
  | nil => exact List.Forall₂.nil
  | cons e rest ih =>
    rw [replaceFirst]
    split
    · exact List.Forall₂.cons (Or.inr (hf e)) (List.forall₂_same.mpr fun _ _ => Or.inl rfl)
    · exact List.Forall₂.cons (Or.inl rfl) ih

theorem rebuild_fronts {before front : List ActantEvent}
    (h : rebuildReplayManifest X excluded events before = .ok front) :
    List.Forall₂ (Fronts X) events front := by
  rw [rebuildReplayManifest] at h
  split at h
  · cases h
    exact List.forall₂_same.mpr fun _ _ => Or.inl rfl
  · cases hlast : lastContextManifestEvent before with
    | none =>
      rw [hlast] at h
      cases h
      exact List.forall₂_same.mpr fun _ _ => Or.inl rfl
    | some manifestEvent =>
      rw [hlast] at h
      obtain ⟨rebuilt, -, h⟩ := bind_eq_ok.mp h
      obtain ⟨hash, hhash, h⟩ := bind_eq_ok.mp h
      cases h
      exact replaceFirst_fronts fun e => ⟨rfl, hhash⟩

theorem map_kind_of_forall₂ {R : ActantEvent → ActantEvent → Prop} {rs : List ActantEvent}
    (h : List.Forall₂ R events rs) (hR : ∀ e r, R e r → r.kind = e.kind) :
    rs.map (·.kind) = events.map (·.kind) := by
  induction h with
  | nil => rfl
  | cons hr _ ih => rw [List.map_cons, List.map_cons, hR _ _ hr, ih]

/-- The replayed stream has the kinds of the recorded run, one by one. -/
theorem replay_kinds (h : runFromEvent E process l opts = .ok run) :
    run.events.map (·.kind) = (recordedRun l run.originalRun).map (·.kind) := by
  obtain ⟨front, rs, hfront, hevents, hrs⟩ := runFromEvent_ok h
  rw [hevents, ← before_append_after l opts, List.map_append, List.map_append,
    map_kind_of_forall₂ hrs fun _ _ => handles_kind, map_kind_of_forall₂ (rebuild_fronts hfront)]
  rintro e r (rfl | hrehashed)
  · rfl
  · exact hrehashed.1

/-! ### Without options -/

/-- No overrides, no policy, no alternate planner and no mode. -/
structure Plain (opts : RunFromEventOptions) : Prop where
  memory : opts.withoutMemory.getD [] = []
  policy : opts.policy = none
  mode : opts.mode = none ∨ opts.mode = some .recorded
  planner : opts.alternatePlannerOutput = none

/-- The replay from an event is faithful: without options it returns and the diff finds nothing, and with any it keeps length and kinds. -/
structure FaithfulReplay (E : LedgerEnv) (process : Nat) (l : Ledger) (eventId : String) : Prop where
  identity : ∀ opts, opts.eventId = eventId → Plain opts → ∃ run, runFromEvent E process l opts = .ok run ∧
    run.events.map (·.kind) = (recordedRun l run.originalRun).map (·.kind) ∧
      ∀ entry ∈ diffReplayAgainstOriginal l run, entry.diff = .identical
  kinds : ∀ opts run, opts.eventId = eventId → runFromEvent E process l opts = .ok run →
    run.events.map (·.kind) = (recordedRun l run.originalRun).map (·.kind)

theorem plain_mode (h : Plain opts) : opts.mode ≠ some .tool ∧ opts.mode ≠ some .experimental := by
  rcases h.mode with hmode | hmode <;> simp [hmode]

theorem plain_completion (h : Plain opts) (hkind : e.kind = .toolCallCompleted)
    (hpayload : isNull e.payload = false) (id : String) :
    replayToolCompletionEvent X opts e false id =
      .ok (some (replayed e id (withEntry e.payload "status" (.string "replayed")), false)) := by
  have hsub : toolSubstitutionPayload X e.payload (e.payload.get "tool_call_id") opts = none := by
    rw [toolSubstitutionPayload, if_pos (Or.inl (plain_mode h).1)]
  have hexp : experimentalCompletionPayload e.payload (e.payload.get "tool_call_id") opts = none := by
    rw [experimentalCompletionPayload, if_pos (Or.inl (plain_mode h).2)]
  rw [replayToolCompletionEvent, if_neg (not_not.mpr hkind)]
  simp only [read_of_isNull hpayload, bind, Except.bind, hsub, hexp]
  rfl

/-- Neither kind nor hash is touched. -/
theorem plain_step (h : Plain opts) (hpayload : e.kind = .toolCallCompleted → isNull e.payload = false)
    (events : List ActantEvent) (id : String) :
    ∃ r, replayPostCheckpointEvent X opts [] e events false id = .ok (r, false) ∧
      r.kind = e.kind ∧ r.payloadHash = e.payloadHash := by
  have hplanner : replayAlternatePlannerEvent opts e id = none := by
    simp [replayAlternatePlannerEvent, h.planner]
  have hguard : replayGuardVerdictEvent X opts e events id = .ok none := by
    rw [replayGuardVerdictEvent, h.policy]
  rw [replayPostCheckpointEvent, hplanner, hguard, replayToolRequestEvent]
  by_cases hrequest : e.kind = .toolCallRequested
  · rw [if_pos hrequest]
    exact ⟨replayed e id e.payload, rfl, rfl, rfl⟩
  · rw [if_neg hrequest]
    by_cases hcompleted : e.kind = .toolCallCompleted
    · rw [plain_completion h hcompleted (hpayload hcompleted)]
      exact ⟨replayed e id (withEntry e.payload "status" (.string "replayed")), rfl, rfl, rfl⟩
    · rw [replayToolCompletionEvent, if_pos hcompleted]
      exact ⟨replayed e id e.payload, rfl, rfl, rfl⟩

theorem plain_replayAll (E : LedgerEnv) (process : Nat) (h : Plain opts) {after : List ActantEvent}
    (hafter : ∀ e ∈ after, e.kind = .toolCallCompleted → isNull e.payload = false)
    (l : Ledger) (events : List ActantEvent) :
    ∃ rs, replayAll E process opts [] l false events after = .ok (events ++ rs) ∧
      List.Forall₂ (fun e r => r.kind = e.kind ∧ r.payloadHash = e.payloadHash) after rs := by
  induction after generalizing l events with
  | nil => exact ⟨[], by rw [List.append_nil]; rfl, List.Forall₂.nil⟩
  | cons e rest ih =>
    obtain ⟨r, hr, hsame⟩ := plain_step (X := E.library) h (hafter e List.mem_cons_self) events
      (l.ulid E process).1
    obtain ⟨rs, hrs, hall⟩ := ih (fun e he => hafter e (List.mem_cons_of_mem _ he)) (l.ulid E process).2
      (events ++ [r])
    refine ⟨r :: rs, ?_, List.Forall₂.cons hsame hall⟩
    rw [List.append_assoc, List.singleton_append] at hrs
    rw [replayAll, ← hrs]
    simp only [bind, Except.bind, hr]

theorem diff_of_forall₂ {rs : List ActantEvent}
    (h : List.Forall₂ (fun e r => r.kind = e.kind ∧ r.payloadHash = e.payloadHash) events rs) :
    ∀ entry ∈ diff events rs, entry.diff = .identical := by
  induction h with
  | nil =>
    intro entry hentry
    rw [diff] at hentry
    cases hentry
  | cons hr _ ih =>
    intro entry hentry
    rw [diff, if_neg (not_not.mpr hr.1.symm), if_pos hr.2.symm, List.mem_cons] at hentry
    rcases hentry with rfl | hentry
    · rfl
    · exact ih entry hentry

theorem exists_of_forall₂ {R : ActantEvent → ActantEvent → Prop} {rs : List ActantEvent}
    (h : List.Forall₂ R events rs) (he : e ∈ events) : ∃ r ∈ rs, R e r := by
  induction h with
  | nil => cases he
  | cons hr _ ih =>
    rcases List.mem_cons.mp he with rfl | he
    · exact ⟨_, List.mem_cons_self, hr⟩
    · obtain ⟨r, hmem, hR⟩ := ih he
      exact ⟨r, List.mem_cons_of_mem _ hmem, hR⟩

/-- A replay that returns has read every completion. -/
theorem isNull_of_runFromEvent (h : runFromEvent E process l opts = .ok run) :
    ∀ e ∈ afterCheckpoint l opts run.originalRun, e.kind = .toolCallCompleted → isNull e.payload = false := by
  obtain ⟨front, rs, -, -, hrs⟩ := runFromEvent_ok h
  intro e he hkind
  obtain ⟨r, -, hr⟩ := exists_of_forall₂ hrs he
  exact (handles_completed hkind hr).1

theorem originalRun_of_runFromEvent {anchor : ActantEvent} (h : runFromEvent E process l opts = .ok run)
    (hanchor : l.get? opts.eventId = some anchor) : run.originalRun = anchor.runId := by
  rw [runFromEvent, hanchor] at h
  obtain ⟨-, -, h⟩ := bind_eq_ok.mp h
  obtain ⟨front, -, h⟩ := bind_eq_ok.mp h
  obtain ⟨events, -, h⟩ := bind_eq_ok.mp h
  obtain rfl := Except.ok.inj h
  rfl

theorem plain_runFromEvent (E : LedgerEnv) (process : Nat) {anchor : ActantEvent} (h : Plain opts)
    (hanchor : l.get? opts.eventId = some anchor)
    (hafter : ∀ e ∈ afterCheckpoint l opts anchor.runId, e.kind = .toolCallCompleted →
      isNull e.payload = false) :
    ∃ run, runFromEvent E process l opts = .ok run ∧
      List.Forall₂ (fun e r => r.kind = e.kind ∧ r.payloadHash = e.payloadHash)
        (recordedRun l anchor.runId) run.events := by
  obtain ⟨rs, hrs, hall⟩ := plain_replayAll E process h hafter (l.ulid E process).2
    (beforeCheckpoint l opts anchor.runId)
  have hvalid : validateExperimentalReplay opts (recordedRun l anchor.runId) anchor.runId = .ok () := by
    rw [validateExperimentalReplay, if_pos (plain_mode h).2]
  have hfront : rebuildReplayManifest E.library [] (beforeCheckpoint l opts anchor.runId)
      (beforeCheckpoint l opts anchor.runId) = .ok (beforeCheckpoint l opts anchor.runId) := by
    rw [rebuildReplayManifest, if_pos rfl]
  refine ⟨⟨(l.ulid E process).1, opts.eventId, anchor.runId, beforeCheckpoint l opts anchor.runId ++ rs⟩,
    ?_, ?_⟩
  · rw [runFromEvent, hanchor]
    dsimp only
    rw [hvalid, h.memory]
    rw [beforeCheckpoint] at hfront hrs
    rw [afterCheckpoint] at hrs
    simp only [bind, Except.bind, hfront, hrs]
    rfl
  · rw [← before_append_after l opts anchor.runId]
    exact List.rel_append (List.forall₂_same.mpr fun _ _ => ⟨rfl, rfl⟩) hall

/-- **Faithful replay** from an event of the ledger: exactly when no tool completion recorded after it has `null` for a payload. -/
theorem faithfulReplay_iff (E : LedgerEnv) (process : Nat) (l : Ledger) (anchor : ActantEvent)
    (hanchor : l.get? anchor.id = some anchor) :
    FaithfulReplay E process l anchor.id ↔
      ∀ e ∈ recordedRun l anchor.runId, anchor.id < e.id → e.kind = .toolCallCompleted →
        isNull e.payload = false := by
  constructor
  · intro h e he hlt hkind
    have hplain : Plain { eventId := anchor.id } := ⟨rfl, rfl, Or.inl rfl, rfl⟩
    obtain ⟨run, hrun, -, -⟩ := h.identity _ rfl hplain
    have horiginal := originalRun_of_runFromEvent hrun hanchor
    refine isNull_of_runFromEvent hrun e ?_ hkind
    rw [horiginal]
    exact List.mem_filter.mpr ⟨he, decide_eq_true hlt⟩
  · intro hafter
    refine ⟨fun opts hid hplain => ?_, fun opts run _ hrun => replay_kinds hrun⟩
    rw [← hid] at hanchor
    obtain ⟨run, hrun, hall⟩ := plain_runFromEvent E process hplain hanchor
      fun e he => hafter e (List.mem_filter.mp he).1 (hid ▸ of_decide_eq_true (List.mem_filter.mp he).2)
    refine ⟨run, hrun, replay_kinds hrun, ?_⟩
    rw [diffReplayAgainstOriginal, originalRun_of_runFromEvent hrun hanchor]
    exact diff_of_forall₂ hall

/-! ### Sample runs -/

/-- An event of the run "run", with the hash of its payload. -/
def hashedEvent (id : String) (kind : EventKind) (payload : JsValue) : ActantEvent :=
  ⟨id, kind, "run", payload, (sha256OfJSON .sample payload).toOption.getD "", genesisHash⟩

def recordedLedger (rows : List ActantEvent) (h : (rows.map (·.id)).Nodup) : Ledger :=
  { Ledger.empty with events := ⟨rows, h⟩ }

/-- A message and a completed call. -/
def completedRun (payload : JsValue) : Ledger :=
  recordedLedger [hashedEvent "a" .userMessageReceived (.object []), hashedEvent "b" .toolCallCompleted payload]
    (by simp [hashedEvent])

theorem faithfulReplay_completed :
    FaithfulReplay LedgerEnv.sample 0 (completedRun (.object [("status", .string "ok")])) "a" := by
  refine (faithfulReplay_iff LedgerEnv.sample 0 (completedRun (.object [("status", .string "ok")]))
    (hashedEvent "a" .userMessageReceived (.object [])) rfl).mpr ?_
  rw [show recordedRun (completedRun (.object [("status", .string "ok")]))
      (hashedEvent "a" .userMessageReceived (.object [])).runId =
    [hashedEvent "a" .userMessageReceived (.object []),
      hashedEvent "b" .toolCallCompleted (.object [("status", .string "ok")])] from rfl]
  intro e he _ hkind
  simp only [List.mem_cons, List.not_mem_nil, or_false] at he
  rcases he with rfl | rfl
  · cases hkind
  · rfl

/-- A completion that was recorded with `null` makes the replay throw. -/
theorem replay_throws_on_null :
    (∀ e ∈ recordedRun (completedRun .null) "run", sha256OfJSON .sample e.payload = .ok e.payloadHash) ∧
      ¬ FaithfulReplay LedgerEnv.sample 0 (completedRun .null) "a" := by
  constructor
  · rw [show recordedRun (completedRun .null) "run" =
      [hashedEvent "a" .userMessageReceived (.object []), hashedEvent "b" .toolCallCompleted .null] from rfl]
    intro e he
    simp only [List.mem_cons, List.not_mem_nil, or_false] at he
    rcases he with rfl | rfl
    · rfl
    · rfl
  · intro h
    obtain ⟨run, hrun, -, -⟩ := h.identity { eventId := "a" } rfl ⟨rfl, rfl, Or.inl rfl, rfl⟩
    cases hrun

end Replay

end ActantDb
