import ActantDb.Replay.Memory

/-!
# What the diff calls identical

The diff compares recorded hashes. A handler that edits a payload and hashes it again cannot hide the edit; the planner's and the request's handlers edit without hashing, so their edits go unseen, and so does all that a completion loses by being spread when its payload is no object.
-/

namespace ActantDb

namespace Replay

open JsValue

variable {X : JsLibrary} {opts : RunFromEventOptions} {excluded : List String}
  {xs ys : List ActantEvent} {x y e r : ActantEvent} {E : LedgerEnv} {process : Nat} {l : Ledger}
  {run : ReplayRun}

/-- Equal as canonical JSON. -/
def SameText (X : JsLibrary) (a b : JsValue) : Prop :=
  ∃ text, canonicalText X a = .ok text ∧ canonicalText X b = .ok text

/-- A recorded completion and the same with its status re-marked. -/
def Remarked (a b : JsValue) : Prop :=
  (∃ entries, a = .object entries) ∧ b = withEntry a "status" (.string "replayed")

/-- Whatever is labelled identical is. -/
def SoundDiff (X : JsLibrary) (l : Ledger) (run : ReplayRun) : Prop :=
  ∀ entry ∈ diffReplayAgainstOriginal l run, entry.diff = .identical →
    SameText X entry.a entry.b ∨ (entry.kind = "tool_call_completed" ∧ Remarked entry.a entry.b)

/-- The events carry the hash of their payload. -/
def Hashed (X : JsLibrary) (events : List ActantEvent) : Prop :=
  ∀ e ∈ events, sha256OfJSON X e.payload = .ok e.payloadHash

/-- No recorded payload collides with the one that stands in its place. -/
def CollisionFree (X : JsLibrary) (l : Ledger) (run : ReplayRun) : Prop :=
  ∀ p ∈ (recordedRun l run.originalRun).zip run.events, ∀ t u,
    canonicalText X p.1.payload = .ok t → canonicalText X p.2.payload = .ok u →
      X.sha256 t = X.sha256 u → t = u

/-- The edits that are not hashed again leave the payload as it is. -/
structure EditsNothing (X : JsLibrary) (opts : RunFromEventOptions) (e : ActantEvent) : Prop where
  planner : ∀ output, e.kind = .modelCall → opts.alternatePlannerOutput = some output →
    SameText X e.payload (withEntry e.payload "summary" (.string output))
  request : ∀ payload, e.kind = .toolCallRequested →
    adjustToolArgsForExclusions e.payload (opts.withoutMemory.getD []) = .ok payload →
      SameText X e.payload payload
  completion : e.kind = .toolCallCompleted → Remarks X opts e.payload →
    (∃ entries, e.payload = .object entries) ∨
      SameText X e.payload (withEntry e.payload "status" (.string "replayed"))

/-! ### The entries of the diff -/

theorem text_injective {a b : EventKind} (h : a.text = b.text) : a = b := by
  cases a <;> cases b <;> first | rfl | (revert h; decide)

/-- Identical entries are the pairs of equal kind and hash. -/
theorem mem_diff_identical {entry : DiffEntry} :
    entry ∈ diff xs ys ∧ entry.diff = .identical ↔
      ∃ p ∈ xs.zip ys, p.1.kind = p.2.kind ∧ p.1.payloadHash = p.2.payloadHash ∧
        entry = { kind := p.1.kind.text, diff := .identical, a := p.1.payload, b := p.2.payload } := by
  induction xs, ys using diff.induct with
  | case1 => simp [diff]
  | case2 x xs ih =>
    rw [diff, List.mem_cons]
    constructor
    · rintro ⟨rfl | hmem, hdiff⟩
      · cases hdiff
      · simpa using ih.mp ⟨hmem, hdiff⟩
    · simp
  | case3 y ys ih =>
    rw [diff, List.mem_cons]
    constructor
    · rintro ⟨rfl | hmem, hdiff⟩
      · cases hdiff
      · simpa using ih.mp ⟨hmem, hdiff⟩
    · simp
  | case4 x xs y ys ih =>
    rw [diff, List.mem_cons, List.zip_cons_cons, or_and_right, ih, List.exists_mem_cons_iff]
    refine or_congr ?_ Iff.rfl
    by_cases hkind : x.kind = y.kind
    · rw [if_neg (not_not.mpr hkind)]
      by_cases hhash : x.payloadHash = y.payloadHash
      · rw [if_pos hhash]
        constructor
        · rintro ⟨heq, -⟩
          exact ⟨hkind, hhash, heq⟩
        · rintro ⟨-, -, heq⟩
          exact ⟨heq, by rw [heq]⟩
      · rw [if_neg hhash]
        constructor
        · rintro ⟨heq, hdiff⟩
          rw [heq] at hdiff
          cases hdiff
        · rintro ⟨-, h, -⟩
          exact absurd h hhash
    · rw [if_pos hkind]
      constructor
      · rintro ⟨heq, hdiff⟩
        rw [heq] at hdiff
        cases hdiff
      · rintro ⟨h, -⟩
        exact absurd h hkind

/-- Soundness, pair by pair. -/
theorem soundDiff_iff :
    SoundDiff X l run ↔
      ∀ p ∈ (recordedRun l run.originalRun).zip run.events, p.1.kind = p.2.kind →
        p.1.payloadHash = p.2.payloadHash →
          SameText X p.1.payload p.2.payload ∨
            (p.1.kind = .toolCallCompleted ∧ Remarked p.1.payload p.2.payload) := by
  constructor
  · intro h p hp hkind hhash
    obtain ⟨hmem, hdiff⟩ := mem_diff_identical.mpr ⟨p, hp, hkind, hhash, rfl⟩
    exact (h _ hmem hdiff).imp_right fun ⟨htext, hremarked⟩ =>
      ⟨text_injective (htext.trans (by rfl)), hremarked⟩
  · intro h entry hentry hdiff
    obtain ⟨p, hp, hkind, hhash, rfl⟩ := mem_diff_identical.mp ⟨hentry, hdiff⟩
    exact (h p hp hkind hhash).imp_right fun ⟨hcompleted, hremarked⟩ => ⟨by rw [hcompleted]; rfl, hremarked⟩

theorem sha256OfJSON_ok {v : JsValue} {hash : String} :
    sha256OfJSON X v = .ok hash ↔ ∃ text, canonicalText X v = .ok text ∧ X.sha256 text = hash := by
  rw [sha256OfJSON, bind_eq_ok]
  constructor
  · rintro ⟨text, htext, h⟩
    cases h
    exact ⟨text, htext, rfl⟩
  · rintro ⟨text, htext, rfl⟩
    exact ⟨text, htext, rfl⟩

/-- A payload that was hashed again and kept its hash kept its text. -/
theorem sameText_of_rehashed (hhashed : sha256OfJSON X e.payload = .ok e.payloadHash)
    (hrehashed : Rehashed X e r) (hhash : e.payloadHash = r.payloadHash)
    (hfree : ∀ t u, canonicalText X e.payload = .ok t → canonicalText X r.payload = .ok u →
      X.sha256 t = X.sha256 u → t = u) : SameText X e.payload r.payload := by
  obtain ⟨t, ht, hthash⟩ := sha256OfJSON_ok.mp hhashed
  obtain ⟨u, hu, huhash⟩ := sha256OfJSON_ok.mp hrehashed.2
  obtain rfl := hfree t u ht hu (hthash.trans (hhash.trans huhash.symm))
  exact ⟨t, ht, hu⟩

theorem sameText_refl (hhashed : sha256OfJSON X e.payload = .ok e.payloadHash) :
    SameText X e.payload e.payload := by
  obtain ⟨t, ht, -⟩ := sha256OfJSON_ok.mp hhashed
  exact ⟨t, ht, ht⟩

/-- A handled event of equal hash has the same text, or is a completion with another status. -/
theorem handles_sound (hhashed : sha256OfJSON X e.payload = .ok e.payloadHash)
    (hedits : EditsNothing X opts e) (h : Handles X opts (opts.withoutMemory.getD []) e r)
    (hhash : e.payloadHash = r.payloadHash)
    (hfree : ∀ t u, canonicalText X e.payload = .ok t → canonicalText X r.payload = .ok u →
      X.sha256 t = X.sha256 u → t = u) :
    SameText X e.payload r.payload ∨ (e.kind = .toolCallCompleted ∧ Remarked e.payload r.payload) := by
  by_cases hrequest : e.kind = .toolCallRequested
  · obtain ⟨id, payload, hpayload, rfl⟩ := handles_request hrequest h
    exact Or.inl (hedits.request payload hrequest hpayload)
  · by_cases hcompleted : e.kind = .toolCallCompleted
    · obtain ⟨-, ⟨hremarks, id, rfl⟩ | ⟨-, hrehashed⟩⟩ := handles_completed hcompleted h
      · rcases hedits.completion hcompleted hremarks with hobject | hsame
        · exact Or.inr ⟨hcompleted, hobject, rfl⟩
        · exact Or.inl hsame
      · exact Or.inl (sameText_of_rehashed hhashed hrehashed hhash hfree)
    · by_cases hplanner : e.kind = .modelCall → opts.alternatePlannerOutput = none
      · obtain ⟨id, rfl⟩ | ⟨hrehashed, -⟩ := handles_other hplanner hrequest hcompleted h
        · exact Or.inl (sameText_refl hhashed)
        · exact Or.inl (sameText_of_rehashed hhashed hrehashed hhash hfree)
      · push Not at hplanner
        obtain ⟨hkind, houtput⟩ := hplanner
        obtain ⟨output, houtput⟩ := Option.ne_none_iff_exists'.mp houtput
        obtain ⟨id, rfl⟩ := handles_planner hkind houtput h
        exact Or.inl (hedits.planner output hkind houtput)

/-- What is not hashed again keeps its hash, so the diff calls it identical. -/
theorem editsNothing_of_sound (h : Handles X opts (opts.withoutMemory.getD []) e r)
    (hsound : e.payloadHash = r.payloadHash →
      SameText X e.payload r.payload ∨ (e.kind = .toolCallCompleted ∧ Remarked e.payload r.payload)) :
    EditsNothing X opts e := by
  refine ⟨fun output hkind houtput => ?_, fun payload hkind hpayload => ?_, fun hkind hremarks => ?_⟩
  · obtain ⟨id, rfl⟩ := handles_planner hkind houtput h
    rcases hsound rfl with hsame | ⟨hcompleted, -⟩
    · exact hsame
    · rw [hkind] at hcompleted
      cases hcompleted
  · obtain ⟨id, payload', hpayload', rfl⟩ := handles_request hkind h
    cases hpayload.symm.trans hpayload'
    rcases hsound rfl with hsame | ⟨hcompleted, -⟩
    · exact hsame
    · rw [hkind] at hcompleted
      cases hcompleted
  · obtain ⟨-, ⟨-, id, rfl⟩ | ⟨hnot, -⟩⟩ := handles_completed hkind h
    · rcases hsound rfl with hsame | ⟨-, hobject, -⟩
      · exact Or.inr hsame
      · exact Or.inl hobject
    · exact absurd hremarks hnot

/-- The pairs that the diff compares. -/
theorem zip_events {front rs : List ActantEvent}
    (hfront : List.Forall₂ (Fronts X) (beforeCheckpoint l opts run.originalRun) front)
    (hevents : run.events = front ++ rs) :
    (recordedRun l run.originalRun).zip run.events =
      (beforeCheckpoint l opts run.originalRun).zip front ++
        (afterCheckpoint l opts run.originalRun).zip rs := by
  rw [hevents, ← before_append_after l opts, List.zip_append hfront.length_eq]

theorem mem_zip_of_forall₂ {R : ActantEvent → ActantEvent → Prop} (h : List.Forall₂ R xs ys)
    (hx : x ∈ xs) : ∃ y, (x, y) ∈ xs.zip ys ∧ R x y := by
  induction h with
  | nil => cases hx
  | cons hR _ ih =>
    rcases List.mem_cons.mp hx with rfl | hx
    · exact ⟨_, List.mem_cons_self, hR⟩
    · obtain ⟨y, hmem, hy⟩ := ih hx
      exact ⟨y, List.mem_cons_of_mem _ hmem, hy⟩

/-- A sound diff shows that an event after the checkpoint was not edited. -/
theorem edits_of_sound (h : runFromEvent E process l opts = .ok run) (hsound : SoundDiff X l run)
    (hX : E.library = X) (he : e ∈ recordedRun l run.originalRun) (hlt : opts.eventId < e.id) :
    EditsNothing X opts e := by
  subst hX
  obtain ⟨front, rs, hfront, hevents, hrs⟩ := runFromEvent_ok h
  obtain ⟨r, hmem, hhandles⟩ := mem_zip_of_forall₂ hrs (List.mem_filter.mpr ⟨he, decide_eq_true hlt⟩)
  refine editsNothing_of_sound hhandles fun hhash => ?_
  refine soundDiff_iff.mp hsound (e, r) ?_ (handles_kind hhandles).symm hhash
  rw [zip_events (rebuild_fronts hfront) hevents]
  exact List.mem_append_right _ hmem

/-- **The diff is sound** for a replay of hashed events exactly when the edits that the planner's, the request's and the completion's handlers make to the events after the checkpoint change nothing but a status. -/
theorem diff_sound_iff (E : LedgerEnv) (process : Nat) (l : Ledger) (opts : RunFromEventOptions)
    (run : ReplayRun) (h : runFromEvent E process l opts = .ok run)
    (hhashed : Hashed E.library (recordedRun l run.originalRun)) (hfree : CollisionFree E.library l run) :
    SoundDiff E.library l run ↔
      ∀ e ∈ recordedRun l run.originalRun, opts.eventId < e.id → EditsNothing E.library opts e := by
  constructor
  · intro hsound e he hlt
    exact edits_of_sound h hsound rfl he hlt
  · intro hedits
    obtain ⟨front, rs, hfront, hevents, hrs⟩ := runFromEvent_ok h
    have hzip := zip_events (rebuild_fronts hfront) hevents
    rw [soundDiff_iff]
    rintro ⟨e, r⟩ hp - hhash
    have hpfree := hfree (e, r) hp
    have he : e ∈ recordedRun l run.originalRun := (List.of_mem_zip hp).1
    rw [hzip] at hp
    rcases List.mem_append.mp hp with hp | hp
    · rcases List.forall₂_zip (rebuild_fronts hfront) hp with rfl | hrehashed
      · exact Or.inl (sameText_refl (hhashed r he))
      · exact Or.inl (sameText_of_rehashed (hhashed e he) hrehashed hhash hpfree)
    · have hlt := of_decide_eq_true (List.mem_filter.mp (List.of_mem_zip hp).1).2
      exact handles_sound (hhashed e he) (hedits e he hlt) (List.forall₂_zip hrs hp) hhash hpfree

/-! ### Sample replays -/

/-- A recorded plan after the event "a". -/
def plannedRun : Ledger :=
  recordedLedger
    [hashedEvent "a" .userMessageReceived (.object []),
      hashedEvent "b" .modelCall (.object [("summary", .string "rm -rf build dist")])]
    (by simp [hashedEvent])

theorem mem_plannedRun :
    e ∈ recordedRun plannedRun "run" ↔
      e = hashedEvent "a" .userMessageReceived (.object []) ∨
        e = hashedEvent "b" .modelCall (.object [("summary", .string "rm -rf build dist")]) := by
  rw [mem_recordedRun, plannedRun, recordedLedger]
  constructor
  · rintro ⟨he, -⟩
    simpa using he
  · intro he
    refine ⟨by simpa using he, Or.inr ?_⟩
    rcases he with rfl | rfl <;> rfl

theorem hashed_plannedRun : Hashed .sample (recordedRun plannedRun "run") := by
  intro e he
  rcases mem_plannedRun.mp he with rfl | rfl
  · rfl
  · rfl

theorem payloads_plannedRun : (recordedRun plannedRun "run").map (·.payload) =
    [.object [], .object [("summary", .string "rm -rf build dist")]] := rfl

theorem diff_sound_plannedRun :
    ∃ run, runFromEvent LedgerEnv.sample 0 plannedRun { eventId := "a" } = .ok run ∧
      SoundDiff .sample plannedRun run := by
  obtain ⟨run, hrun⟩ : ∃ run, runFromEvent LedgerEnv.sample 0 plannedRun { eventId := "a" } = .ok run :=
    ⟨_, rfl⟩
  have horiginal : run.originalRun = "run" :=
    originalRun_of_runFromEvent hrun (show plannedRun.get? "a" = some _ from rfl)
  have hpayloads : (runFromEvent LedgerEnv.sample 0 plannedRun { eventId := "a" }).map
      (fun run => run.events.map (·.payload)) =
        .ok [.object [], .object [("summary", .string "rm -rf build dist")]] := rfl
  rw [hrun] at hpayloads
  have hsame : run.events.map (·.payload) = (recordedRun plannedRun run.originalRun).map (·.payload) := by
    rw [horiginal, payloads_plannedRun]
    exact Except.ok.inj hpayloads
  have hfree : CollisionFree .sample plannedRun run := by
    intro p hp t u ht hu _
    have hpair := List.mem_map_of_mem
      (f := Prod.map (fun e : ActantEvent => e.payload) fun e : ActantEvent => e.payload) hp
    rw [← List.zip_map, hsame, List.zip_map'] at hpair
    obtain ⟨e, -, he⟩ := List.mem_map.mp hpair
    obtain ⟨hleft, hright⟩ := Prod.mk.inj he
    beta_reduce at hleft hright
    rw [← hleft] at ht
    rw [← hright] at hu
    exact Except.ok.inj (ht.symm.trans hu)
  refine ⟨run, hrun, (diff_sound_iff LedgerEnv.sample 0 plannedRun _ run hrun
    (horiginal ▸ hashed_plannedRun) hfree).mpr ?_⟩
  rw [horiginal]
  intro e he _
  rcases mem_plannedRun.mp he with rfl | rfl
  · constructor
    · intro _ hkind
      cases hkind
    · intro _ hkind
      cases hkind
    · intro hkind
      cases hkind
  · constructor
    · intro _ _ houtput
      cases houtput
    · intro _ hkind
      cases hkind
    · intro hkind
      cases hkind

/-- The plan of the replay is another one, and the diff calls it identical. -/
theorem diff_misses_planner :
    ∃ run, runFromEvent LedgerEnv.sample 0 plannedRun
        { eventId := "a", alternatePlannerOutput := some "rm -rf build" } = .ok run ∧
      Hashed .sample (recordedRun plannedRun run.originalRun) ∧ ¬ SoundDiff .sample plannedRun run := by
  obtain ⟨run, hrun⟩ : ∃ run, runFromEvent LedgerEnv.sample 0 plannedRun
      { eventId := "a", alternatePlannerOutput := some "rm -rf build" } = .ok run := ⟨_, rfl⟩
  have horiginal : run.originalRun = "run" :=
    originalRun_of_runFromEvent hrun (show plannedRun.get? "a" = some _ from rfl)
  refine ⟨run, hrun, horiginal ▸ hashed_plannedRun, fun hsound => ?_⟩
  have hedits := edits_of_sound hrun hsound rfl
    (horiginal ▸ mem_plannedRun.mpr (Or.inr rfl)) (by decide)
  obtain ⟨text, htext, hother⟩ := hedits.planner "rm -rf build" rfl rfl
  have hrecorded : canonicalText .sample (.object [("summary", .string "rm -rf build dist")]) =
      .ok "\x7b\"summary\":\"rm -rf build dist\"\x7d" := rfl
  have hreplayed : canonicalText .sample (.object [("summary", .string "rm -rf build")]) =
      .ok "\x7b\"summary\":\"rm -rf build\"\x7d" := rfl
  have heq := Except.ok.inj (hrecorded.symm.trans htext)
  have hne := Except.ok.inj (hreplayed.symm.trans hother)
  rw [← hne] at heq
  revert heq
  decide

end Replay

end ActantDb
