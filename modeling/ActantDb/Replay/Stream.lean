import ActantDb.Replay.RunFromEvent

/-!
# The replayed stream

What the loop does to each event, through one relation: `Handles` says that an event is what one handler made of the recorded one, whatever had been replayed before it. The stream is the rebuilt events of the checkpoint followed by one handled event for each recorded one, which keeps length and kinds. Without options nothing is rebuilt and no hash is touched; the one way to fail is a completion whose payload has no properties to read.
-/

namespace ActantDb

namespace Replay

open JsValue

variable {X : JsLibrary} {opts : RunFromEventOptions} {excluded : List String}
  {e r : ActantEvent} {E : LedgerEnv} {process : Nat} {l : Ledger}

/-- `r` is what the handlers may make of `e`. -/
def Handles (X : JsLibrary) (opts : RunFromEventOptions) (excluded : List String) (e r : ActantEvent) :
    Prop :=
  ∃ events substituted substituted' id,
    replayPostCheckpointEvent X opts excluded e events substituted id = .ok (r, substituted')

/-- The event of the same kind, with the hash of its own payload. -/
def Rehashed (X : JsLibrary) (e r : ActantEvent) : Prop :=
  r.kind = e.kind ∧ sha256OfJSON X r.payload = .ok r.payloadHash

theorem rehashed_ok {id : String} {payload : JsValue} (h : rehashed X e id payload = .ok r) :
    Rehashed X e r ∧ r.payload = payload := by
  obtain ⟨hash, hhash, h⟩ := bind_eq_ok.mp h
  cases h
  exact ⟨⟨rfl, hhash⟩, rfl⟩

/-! ### One handler each -/

theorem handles_planner {output : String} (hkind : e.kind = .modelCall)
    (houtput : opts.alternatePlannerOutput = some output) (h : Handles X opts excluded e r) :
    ∃ id, r = replayed e id (withEntry e.payload "summary" (.string output)) := by
  obtain ⟨events, substituted, substituted', id, h⟩ := h
  simp only [replayPostCheckpointEvent, replayAlternatePlannerEvent, hkind, houtput, if_true,
    Option.map_some] at h
  cases h
  exact ⟨id, rfl⟩

theorem handles_request (hkind : e.kind = .toolCallRequested) (h : Handles X opts excluded e r) :
    ∃ id payload, adjustToolArgsForExclusions e.payload excluded = .ok payload ∧
      r = replayed e id payload := by
  obtain ⟨events, substituted, substituted', id, h⟩ := h
  simp only [replayPostCheckpointEvent, replayAlternatePlannerEvent, replayToolRequestEvent, hkind,
    reduceCtorEq, if_false, if_true] at h
  obtain ⟨found, hfound, h⟩ := bind_eq_ok.mp h
  obtain ⟨payload, hpayload, hfound⟩ := bind_eq_ok.mp hfound
  cases hfound
  cases h
  exact ⟨id, payload, hpayload, rfl⟩

/-- Neither mode puts another result into the completion. -/
def Remarks (X : JsLibrary) (opts : RunFromEventOptions) (recorded : JsValue) : Prop :=
  ∀ toolCallId, recorded.read "tool_call_id" = .ok toolCallId →
    toolSubstitutionPayload X recorded toolCallId opts = none ∧
      experimentalCompletionPayload recorded toolCallId opts = none

theorem isNull_of_read {v w : JsValue} {key : String} (h : v.read key = .ok w) : isNull v = false := by
  cases v <;> first | rfl | cases h

theorem read_of_isNull {v : JsValue} (h : isNull v = false) (key : String) : v.read key = .ok (v.get key) := by
  cases v <;> first | rfl | cases h

theorem handles_completed (hkind : e.kind = .toolCallCompleted) (h : Handles X opts excluded e r) :
    isNull e.payload = false ∧
      ((Remarks X opts e.payload ∧
        ∃ id, r = replayed e id (withEntry e.payload "status" (.string "replayed"))) ∨
      ¬ Remarks X opts e.payload ∧ Rehashed X e r) := by
  obtain ⟨events, substituted, substituted', id, h⟩ := h
  have hguard : replayGuardVerdictEvent X opts e events id = .ok none := by
    rw [replayGuardVerdictEvent]
    cases opts.policy with
    | none => rfl
    | some policy => simp [hkind]
  simp only [replayPostCheckpointEvent, replayAlternatePlannerEvent, replayToolRequestEvent, hkind,
    reduceCtorEq, if_false, hguard] at h
  obtain ⟨_, hnone, h⟩ := bind_eq_ok.mp h
  cases hnone
  obtain ⟨_, hnone, h⟩ := bind_eq_ok.mp h
  cases hnone
  obtain ⟨found, hfound, h⟩ := bind_eq_ok.mp h
  simp only [replayToolCompletionEvent, hkind, ne_eq, not_true_eq_false, if_false] at hfound
  obtain ⟨toolCallId, hid, hfound⟩ := bind_eq_ok.mp hfound
  refine ⟨isNull_of_read hid, ?_⟩
  cases hsub : toolSubstitutionPayload X e.payload toolCallId opts with
  | some payload =>
    rw [hsub] at hfound
    obtain ⟨made, hmade, hfound⟩ := bind_eq_ok.mp hfound
    cases hfound
    cases h
    refine Or.inr ⟨fun hremarks => ?_, (rehashed_ok hmade).1⟩
    rw [(hremarks toolCallId hid).1] at hsub
    cases hsub
  | none =>
    rw [hsub] at hfound
    cases hexp : experimentalCompletionPayload e.payload toolCallId opts with
    | some payload =>
      rw [hexp] at hfound
      obtain ⟨made, hmade, hfound⟩ := bind_eq_ok.mp hfound
      cases hfound
      cases h
      refine Or.inr ⟨fun hremarks => ?_, (rehashed_ok hmade).1⟩
      rw [(hremarks toolCallId hid).2] at hexp
      cases hexp
    | none =>
      rw [hexp] at hfound
      cases hfound
      cases h
      refine Or.inl ⟨fun other hother => ?_, id, rfl⟩
      cases hid.symm.trans hother
      exact ⟨hsub, hexp⟩

theorem replayDefaultEvent_ok {substituted : Bool} {id : String}
    (h : replayDefaultEvent X opts e substituted id = .ok r) :
    (∃ id, r = replayed e id e.payload) ∨
      Rehashed X e r ∧ ∃ tag, r.payload = withEntry e.payload "_replay" tag := by
  rw [replayDefaultEvent] at h
  cases substituted with
  | false =>
    cases h
    exact Or.inl ⟨id, rfl⟩
  | true => exact Or.inr ⟨(rehashed_ok h).1, _, (rehashed_ok h).2⟩

/-- An event that is none of these keeps payload and hash, is tagged, or is a verdict made anew. -/
theorem handles_other (hplanner : e.kind = .modelCall → opts.alternatePlannerOutput = none)
    (hrequest : e.kind ≠ .toolCallRequested) (hcompleted : e.kind ≠ .toolCallCompleted)
    (h : Handles X opts excluded e r) :
    (∃ id, r = replayed e id e.payload) ∨
      Rehashed X e r ∧ (e.kind ≠ .guardVerdict → ∃ tag, r.payload = withEntry e.payload "_replay" tag) := by
  obtain ⟨events, substituted, substituted', id, h⟩ := h
  have hnoPlanner : replayAlternatePlannerEvent opts e id = none := by
    rw [replayAlternatePlannerEvent]
    split
    · rw [hplanner ‹_›]
      rfl
    · rfl
  simp only [replayPostCheckpointEvent, hnoPlanner, replayToolRequestEvent, hrequest, if_false] at h
  obtain ⟨_, hnone, h⟩ := bind_eq_ok.mp h
  cases hnone
  obtain ⟨verdict, hverdict, h⟩ := bind_eq_ok.mp h
  cases verdict with
  | some made =>
    cases h
    rw [replayGuardVerdictEvent] at hverdict
    cases hpolicy : opts.policy with
    | none => simp [hpolicy] at hverdict
    | some policy =>
      rw [hpolicy] at hverdict
      dsimp only at hverdict
      split at hverdict
      · cases hverdict
      · rename_i hkind
        obtain ⟨toolCallId, -, hverdict⟩ := bind_eq_ok.mp hverdict
        obtain ⟨req, -, hverdict⟩ := bind_eq_ok.mp hverdict
        split at hverdict
        · obtain ⟨v, -, hverdict⟩ := bind_eq_ok.mp hverdict
          obtain ⟨made', hmade, hverdict⟩ := bind_eq_ok.mp hverdict
          cases hverdict
          exact Or.inr ⟨(rehashed_ok hmade).1, fun hne => absurd hne hkind⟩
        · cases hverdict
  | none =>
    obtain ⟨completion, hcompletion, h⟩ := bind_eq_ok.mp h
    rw [replayToolCompletionEvent, if_pos hcompleted] at hcompletion
    cases hcompletion
    obtain ⟨made, hmade, h⟩ := bind_eq_ok.mp h
    cases h
    exact (replayDefaultEvent_ok hmade).imp_right fun ⟨hrehashed, htag⟩ => ⟨hrehashed, fun _ => htag⟩

theorem handles_kind (h : Handles X opts excluded e r) : r.kind = e.kind := by
  by_cases hrequest : e.kind = .toolCallRequested
  · obtain ⟨id, payload, -, rfl⟩ := handles_request hrequest h
    rfl
  · by_cases hcompleted : e.kind = .toolCallCompleted
    · obtain ⟨-, ⟨-, id, rfl⟩ | ⟨-, hrehashed⟩⟩ := handles_completed hcompleted h
      · rfl
      · exact hrehashed.1
    · by_cases hplanner : e.kind = .modelCall → opts.alternatePlannerOutput = none
      · obtain ⟨id, rfl⟩ | ⟨hrehashed, -⟩ := handles_other hplanner hrequest hcompleted h
        · rfl
        · exact hrehashed.1
      · push Not at hplanner
        obtain ⟨hkind, houtput⟩ := hplanner
        obtain ⟨output, houtput⟩ := Option.ne_none_iff_exists'.mp houtput
        obtain ⟨id, rfl⟩ := handles_planner hkind houtput h
        rfl

/-! ### The stream -/

theorem replayAll_ok {substituted : Bool} {events after result : List ActantEvent}
    (h : replayAll E process opts excluded l substituted events after = .ok result) :
    ∃ rs, result = events ++ rs ∧ List.Forall₂ (Handles E.library opts excluded) after rs := by
  induction after generalizing l substituted events with
  | nil =>
    cases h
    exact ⟨[], (List.append_nil _).symm, List.Forall₂.nil⟩
  | cons e rest ih =>
    rw [replayAll] at h
    obtain ⟨⟨r, substituted'⟩, hr, h⟩ := bind_eq_ok.mp h
    obtain ⟨rs, rfl, hrs⟩ := ih h
    exact ⟨r :: rs, by simp, List.Forall₂.cons ⟨_, _, _, _, hr⟩ hrs⟩

/-- The part up to the checkpoint and the part after it. -/
def beforeCheckpoint (l : Ledger) (opts : RunFromEventOptions) (runId : String) : List ActantEvent :=
  (recordedRun l runId).filter fun e => e.id ≤ opts.eventId

def afterCheckpoint (l : Ledger) (opts : RunFromEventOptions) (runId : String) : List ActantEvent :=
  (recordedRun l runId).filter fun e => opts.eventId < e.id

/-- A list whose first part satisfies a predicate and whose rest does not is the two parts. -/
theorem filter_append_filter {α : Type} {p q : α → Bool} {s : List α}
    (h : s.Pairwise fun a b => p b = true → p a = true) (hq : ∀ a, q a = !p a) :
    s.filter p ++ s.filter q = s := by
  induction s with
  | nil => rfl
  | cons a rest ih =>
    obtain ⟨hfirst, hrest⟩ := List.pairwise_cons.mp h
    cases ha : p a with
    | true =>
      rw [List.filter_cons_of_pos ha, List.filter_cons_of_neg (by rw [hq, ha]; simp), List.cons_append,
        ih hrest]
    | false =>
      have hnone : rest.filter p = [] := by
        rw [List.filter_eq_nil_iff]
        intro b hb hpb
        rw [hfirst b hb hpb] at ha
        cases ha
      have hall := ih hrest
      rw [hnone, List.nil_append] at hall
      rw [List.filter_cons_of_neg (by rw [ha]; simp), List.filter_cons_of_pos (by rw [hq, ha]; rfl), hnone,
        hall, List.nil_append]

theorem mem_recordedRun {runId : String} :
    e ∈ recordedRun l runId ↔ e ∈ l.events.rows ∧ (runId = "" ∨ e.runId = runId) := by
  simp [recordedRun, Ledger.select, LedgerFilter.selects]

theorem sorted_recordedRun (l : Ledger) (runId : String) :
    (recordedRun l runId).Pairwise fun a b => a.id ≤ b.id := by
  have : Std.Total fun a b : ActantEvent => a.id ≤ b.id := ⟨fun a b => le_total a.id b.id⟩
  have : IsTrans ActantEvent fun a b => a.id ≤ b.id := ⟨fun _ _ _ => le_trans⟩
  exact List.pairwise_insertionSort _ _

theorem before_append_after (l : Ledger) (opts : RunFromEventOptions) (runId : String) :
    beforeCheckpoint l opts runId ++ afterCheckpoint l opts runId = recordedRun l runId :=
  filter_append_filter
    ((sorted_recordedRun l runId).imp fun hle hb => decide_eq_true (hle.trans (of_decide_eq_true hb)))
    fun e => by rw [← decide_not]; exact decide_eq_decide.mpr not_le.symm

/-- A replay that returns: the rebuilt front, then a handled event for each one after the checkpoint. -/
theorem runFromEvent_ok {run : ReplayRun} (h : runFromEvent E process l opts = .ok run) :
    ∃ front rs, rebuildReplayManifest E.library (opts.withoutMemory.getD [])
        (beforeCheckpoint l opts run.originalRun) (beforeCheckpoint l opts run.originalRun) = .ok front ∧
      run.events = front ++ rs ∧
      List.Forall₂ (Handles E.library opts (opts.withoutMemory.getD []))
        (afterCheckpoint l opts run.originalRun) rs := by
  rw [runFromEvent] at h
  cases hanchor : l.get? opts.eventId with
  | none =>
    rw [hanchor] at h
    cases h
  | some anchor =>
    rw [hanchor] at h
    obtain ⟨-, -, h⟩ := bind_eq_ok.mp h
    obtain ⟨front, hfront, h⟩ := bind_eq_ok.mp h
    obtain ⟨events, hevents, h⟩ := bind_eq_ok.mp h
    obtain rfl := Except.ok.inj h
    obtain ⟨rs, rfl, hrs⟩ := replayAll_ok hevents
    exact ⟨front, rs, hfront, rfl, hrs⟩

end Replay

end ActantDb
