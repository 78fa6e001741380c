import ActantDb.Server.CoreRoutes

/-!
# Authorisation of the core routes

A request is authorised when the rows that its answer is made of, and those that it changes, are of workspaces that it carries a credential for. What is outside of a set of workspaces is looked at as a whole: the request leaves it as it was.
-/

namespace ActantDb

namespace Server

/-! ### What is asked of a request -/

/-- The rows of the store. -/
def CoreWorld.data (w : CoreWorld) : Db × Table ReplayCheckpoint.id × Table ReplayRun.id :=
  (w.world.db, w.replayCheckpoint, w.replayRun)

open Classical in
/-- The rows that are of no workspace in `S`. -/
noncomputable def CoreWorld.outside (S : Set WorkspaceId) (w : CoreWorld) :
    Db × Table ReplayCheckpoint.id × Table ReplayRun.id :=
  (w.world.db.outside S, w.replayCheckpoint.filter (·.workspaceId ∉ S),
    w.replayRun.filter (·.workspaceId ∉ S))

theorem outside_congr {S : Set WorkspaceId} {w w' : CoreWorld} (h : w'.data = w.data) :
    w'.outside S = w.outside S := by
  simp only [CoreWorld.data, Prod.mk.injEq] at h
  rw [CoreWorld.outside, h.1, h.2.1, h.2.2, CoreWorld.outside]

section Authorisation

variable (s : CoreServer) (headers : HeaderMap) (w : CoreWorld)

/-- The workspaces that the request carries a credential for. -/
def carried (req : CoreRequest) : Set WorkspaceId := fun ws => Carries s.crates s.auth headers req.method ws

/-- What the answer is made of, and what is changed, is of workspaces that the request carries a credential for. -/
structure RouteAuthorised (req : CoreRequest) : Prop where
  returned : ∀ ws ∈ (handleRequest s headers w req).returned, ws ∈ carried s headers req
  changed :
    (handleRequest s headers w req).world.outside (carried s headers req) = w.outside (carried s headers req)

/-- None of the next `n` statements fails. -/
def Answers (n : Nat) : Prop := ∀ k < n, s.env.fault (w.world.statements + k) = false

/-- The events of the checkpoint's session. -/
def eventsOfCheckpoint (cp : ReplayCheckpoint) : List AgentEvent :=
  (cp.sessionId.map w.world.db.eventsInSession).getD []

/-- A run of the checkpoint will be recorded. -/
structure Records (actorId : ActorId) (checkpointId mode : String) (cp : ReplayCheckpoint) (m : ReplayMode) :
    Prop where
  mode : ReplayMode.parse mode = .ok m
  found : w.replayCheckpoint.find? checkpointId = some cp
  answers : Answers s w 2
  accepted : ∃ w', CoreWorld.insertRun (nextRun s w actorId cp m) w = .ok w'

/-- A command keeps its updates to workspaces that the request carries a credential for, if it comes to be dispatched; whatever else is asked for is of workspaces that the request carries a credential for, or is not there. -/
def Covered (req : CoreRequest) : Prop :=
  match req with
  | .dispatchCommand c =>
    s.rateLimit c.workspaceId = none → credential s.crates s.auth headers .post = some c.workspaceId →
      (dispatch s.crates.toCrates s.policy c).Along (handle s.env)
        (OwnRowsOf s.env (carried s headers req)) w.world
  | .listEvents sessionId =>
    Answers s w 1 → ∀ e ∈ w.world.db.eventsInSession sessionId, e.workspaceId ∈ carried s headers req
  | .listApprovals ws =>
    Answers s w 1 → (∀ ar ∈ pendingApprovals ws w, ar.toolCallId ≠ none) → pendingApprovals ws w ≠ [] →
      ws ∈ carried s headers req
  | .syncSince r =>
    Answers s w 1 →
      (∃ row ∈ w.world.db.agentEvent, row.event.workspaceId = r.workspaceId ∧ r.sinceEventId < row.id) →
      r.workspaceId ∈ carried s headers req
  | .replayCheckpoint ws eventId =>
    Answers s w 2 →
      (∃ event w', eventOf ws eventId w = some event ∧
        CoreWorld.insertCheckpoint (nextCheckpoint s w ws event) w = .ok w') →
        ws ∈ carried s headers req
  | .replayRun actorId checkpointId mode =>
    ∀ cp m, Records s w actorId checkpointId mode cp m →
      cp.workspaceId ∈ carried s headers req ∧
        (Answers s w (if cp.sessionId = none then 3 else 4) →
          ∀ e ∈ eventsOfCheckpoint w cp, e.workspaceId ∈ carried s headers req)
  | .ws topic published sent =>
    (∃ m ∈ published, m.topic = topic) → 0 < sent → topic.workspaceId ∈ carried s headers req

end Authorisation

variable {s : CoreServer} {headers : HeaderMap} {w w' : CoreWorld}

/-! ### Statements -/

section Statements

variable {α : Type} {answer : CoreWorld → Except SqlError α} {act : CoreWorld → Except SqlError CoreWorld}

theorem answers_one : Answers s w 1 ↔ s.env.fault w.world.statements = false := by
  constructor
  · intro h
    exact h 0 Nat.zero_lt_one
  · intro h k hk
    obtain rfl : k = 0 := by omega
    exact h

theorem answers_succ {n : Nat} :
    Answers s w (n + 1) ↔ s.env.fault w.world.statements = false ∧ Answers s w.counted n := by
  have hcount : ∀ k, w.world.statements + (k + 1) = w.counted.world.statements + k := by
    intro k
    simp only [CoreWorld.counted]
    omega
  constructor
  · intro h
    refine ⟨h 0 (by omega), fun k hk => ?_⟩
    rw [← hcount]
    exact h (k + 1) (by omega)
  · rintro ⟨hfirst, hrest⟩ k hk
    cases k with
    | zero => exact hfirst
    | succ k =>
      rw [hcount]
      exact hrest k (by omega)

theorem query_refused (h : s.env.fault w.world.statements = true) :
    w.query s answer = (.error (.storage .unavailable), w.counted) := by
  rw [CoreWorld.query, if_pos h]

theorem query_answered (h : s.env.fault w.world.statements = false) {a : α} (ha : answer w = .ok a) :
    w.query s answer = (.ok a, w.counted) := by
  rw [CoreWorld.query, h, ha]
  rfl

theorem query_read (h : s.env.fault w.world.statements = false) (read : CoreWorld → α) :
    w.query s (fun w => .ok (read w)) = (.ok (read w), w.counted) := query_answered h rfl

theorem query_failed (h : s.env.fault w.world.statements = false) {e : SqlError} (he : answer w = .error e) :
    w.query s answer = (.error (.storage e), w.counted) := by
  rw [CoreWorld.query, h, he]
  rfl

theorem write_refused (h : s.env.fault w.world.statements = true) :
    w.write s act = (.error (.storage .unavailable), w.counted) := by
  rw [CoreWorld.write, if_pos h]

theorem write_done (h : s.env.fault w.world.statements = false) (ha : act w.counted = .ok w') :
    w.write s act = (.ok (), w') := by
  rw [CoreWorld.write, h, ha]
  rfl

theorem write_failed (h : s.env.fault w.world.statements = false) {e : SqlError} (he : act w.counted = .error e) :
    w.write s act = (.error (.storage e), w.counted) := by
  rw [CoreWorld.write, h, he]
  rfl

end Statements

/-! ### Routes that read -/

theorem authorised_of_quiet {req : CoreRequest} (hreturned : (handleRequest s headers w req).returned = [])
    (hdata : (handleRequest s headers w req).world.data = w.data) : RouteAuthorised s headers w req := by
  refine ⟨fun ws hws => ?_, outside_congr hdata⟩
  rw [hreturned] at hws
  cases hws

/-- A request that changes nothing is authorised just when its answer is. -/
theorem authorised_of_read {req : CoreRequest} (hdata : (handleRequest s headers w req).world.data = w.data) :
    RouteAuthorised s headers w req ↔ ∀ ws ∈ (handleRequest s headers w req).returned, ws ∈ carried s headers req :=
  ⟨fun h => h.returned, fun h => ⟨h, outside_congr hdata⟩⟩

theorem not_answers {n : Nat} (hn : 0 < n) (h : s.env.fault w.world.statements = true) : ¬ Answers s w n := by
  intro hanswers
  have hfirst : s.env.fault w.world.statements = false := hanswers 0 hn
  rw [h] at hfirst
  cases hfirst

/-- A route with a single query does nothing if it fails; if not, it is authorised just when its answer is. -/
theorem read_iff {req : CoreRequest} {P : Prop}
    (hrefused : s.env.fault w.world.statements = true →
      (handleRequest s headers w req).returned = [] ∧ (handleRequest s headers w req).world.data = w.data)
    (hanswered : s.env.fault w.world.statements = false →
      (handleRequest s headers w req).world.data = w.data ∧
        ((∀ ws ∈ (handleRequest s headers w req).returned, ws ∈ carried s headers req) ↔ P)) :
    RouteAuthorised s headers w req ↔ (Answers s w 1 → P) := by
  cases hfault : s.env.fault w.world.statements with
  | true =>
    obtain ⟨hreturned, hdata⟩ := hrefused hfault
    exact iff_of_true (authorised_of_quiet hreturned hdata) fun h => absurd h (not_answers Nat.zero_lt_one hfault)
  | false =>
    obtain ⟨hdata, hiff⟩ := hanswered hfault
    rw [authorised_of_read hdata, hiff, answers_one]
    exact ⟨fun h _ => h, fun h => h hfault⟩

theorem listEvents_iff (sessionId : SessionId) :
    RouteAuthorised s headers w (.listEvents sessionId) ↔ Covered s headers w (.listEvents sessionId) := by
  apply read_iff
  · intro hfault
    rw [handleRequest, listEvents, query_refused hfault]
    exact ⟨rfl, rfl⟩
  · intro hfault
    rw [handleRequest, listEvents, query_read hfault]
    refine ⟨rfl, ?_⟩
    simp only [List.mem_map, forall_exists_index, and_imp, forall_apply_eq_imp_iff₂]

/-- Each approval is decoded, or one of them has no tool call. -/
theorem mapM_approval (rows : List ApprovalRequest) :
    (∃ approvals, rows.mapM approval = .ok approvals ∧ approvals.length = rows.length ∧
      ∀ ar ∈ rows, ar.toolCallId ≠ none) ∨
    ∃ e, rows.mapM approval = .error e ∧ ¬ ∀ ar ∈ rows, ar.toolCallId ≠ none := by
  induction rows with
  | nil => exact Or.inl ⟨[], rfl, rfl, fun ar har => by cases har⟩
  | cons ar rest ih =>
    rw [List.mapM_cons, approval]
    cases hid : ar.toolCallId with
    | none => exact Or.inr ⟨_, rfl, fun h => h ar List.mem_cons_self hid⟩
    | some toolCallId =>
      rcases ih with ⟨approvals, hok, hlength, hall⟩ | ⟨e, herror, hnot⟩
      · refine Or.inl ⟨_, by rw [hok]; rfl, by simp [hlength], fun ar' har' => ?_⟩
        rcases List.mem_cons.mp har' with rfl | har'
        · rw [hid]
          exact Option.some_ne_none _
        · exact hall ar' har'
      · refine Or.inr ⟨e, by rw [herror]; rfl, fun h => hnot fun ar' har' => h ar' (List.mem_cons_of_mem _ har')⟩

theorem listApprovals_iff (ws : WorkspaceId) :
    RouteAuthorised s headers w (.listApprovals ws) ↔ Covered s headers w (.listApprovals ws) := by
  apply read_iff
  · intro hfault
    rw [handleRequest, listApprovals, query_refused hfault]
    exact ⟨rfl, rfl⟩
  · intro hfault
    rw [handleRequest, listApprovals]
    rcases mapM_approval (pendingApprovals ws w) with ⟨approvals, hok, hlength, hall⟩ | ⟨e, herror, hnot⟩
    · rw [query_answered hfault hok]
      have hempty : pendingApprovals ws w = [] ↔ approvals = [] := by
        rw [← List.length_eq_zero_iff, ← hlength, List.length_eq_zero_iff]
      refine ⟨rfl, ?_, ?_⟩
      · intro h _ hpending
        obtain ⟨first, hfirst⟩ := List.exists_mem_of_ne_nil _ fun h => hpending (hempty.mpr h)
        exact h ws (List.mem_map.mpr ⟨first, hfirst, rfl⟩)
      · intro h ws' hws'
        obtain ⟨first, hfirst, rfl⟩ := List.mem_map.mp hws'
        exact h hall fun h => List.ne_nil_of_mem hfirst (hempty.mp h)
    · rw [query_failed hfault herror]
      exact ⟨rfl, fun _ hall => absurd hall hnot, fun _ ws' hws' => by cases hws'⟩

/-- A pull returns something just when there is something after its cursor. -/
theorem syncSince_events (db : Db) (r : SyncSinceRequest) :
    (syncSince db r).events ≠ [] ↔
      ∃ row ∈ db.agentEvent, row.event.workspaceId = r.workspaceId ∧ r.sinceEventId < row.id := by
  have hpositive : syncLimit r.limit ≠ 0 := by
    rw [syncLimit]
    omega
  rw [syncSince]
  dsimp only
  rw [ne_eq, List.map_eq_nil_iff, List.take_eq_nil_iff, not_or, ← List.length_eq_zero_iff, List.length_insertionSort,
    List.length_eq_zero_iff, List.filter_eq_nil_iff]
  constructor
  · rintro ⟨-, hsome⟩
    simp only [not_forall, not_not, exists_prop] at hsome
    obtain ⟨row, hrow, hselected⟩ := hsome
    rw [Bool.and_eq_true, decide_eq_true_eq, decide_eq_true_eq] at hselected
    exact ⟨row, hrow, hselected⟩
  · rintro ⟨row, hrow, hselected⟩
    refine ⟨hpositive, fun hnone => hnone row hrow ?_⟩
    rw [Bool.and_eq_true, decide_eq_true_eq, decide_eq_true_eq]
    exact hselected

theorem syncSince_iff (r : SyncSinceRequest) :
    RouteAuthorised s headers w (.syncSince r) ↔ Covered s headers w (.syncSince r) := by
  apply read_iff
  · intro hfault
    rw [handleRequest, syncSinceRoute, query_refused hfault]
    exact ⟨rfl, rfl⟩
  · intro hfault
    rw [handleRequest, syncSinceRoute, query_read hfault, ← syncSince_events]
    refine ⟨rfl, ?_, ?_⟩
    · intro h hevents
      obtain ⟨first, hfirst⟩ := List.exists_mem_of_ne_nil _ hevents
      exact h r.workspaceId (List.mem_map.mpr ⟨first, hfirst, rfl⟩)
    · intro h ws hws
      obtain ⟨first, hfirst, rfl⟩ := List.mem_map.mp hws
      exact h (List.ne_nil_of_mem hfirst)

theorem ws_iff (topic : Topic) (published : List Message) (sent : Nat) :
    RouteAuthorised s headers w (.ws topic published sent) ↔ Covered s headers w (.ws topic published sent) := by
  have hmem : ∀ m ∈ received topic published sent, m.topic = topic := by
    intro m hm
    exact of_decide_eq_true (List.mem_filter.mp (List.mem_of_mem_take hm)).2
  rw [Covered, authorised_of_read rfl]
  constructor
  · rintro h ⟨m, hm, htopic⟩ hsent
    have hne : received topic published sent ≠ [] := by
      rw [received, ne_eq, List.take_eq_nil_iff, not_or]
      exact ⟨by omega, List.ne_nil_of_mem (List.mem_filter.mpr ⟨hm, decide_eq_true htopic⟩)⟩
    obtain ⟨first, hfirst⟩ := List.exists_mem_of_ne_nil _ hne
    rw [← hmem first hfirst]
    exact h _ (List.mem_map.mpr ⟨first, hfirst, rfl⟩)
  · intro h ws hws
    obtain ⟨m, hm, rfl⟩ := List.mem_map.mp hws
    rw [hmem m hm]
    refine h ⟨m, (List.mem_filter.mp (List.mem_of_mem_take hm)).1, hmem m hm⟩ ?_
    cases sent with
    | zero => cases hm
    | succ n => exact Nat.succ_pos n

/-! ### Commands -/

/-- Once a command is let in, nothing outside of the workspaces of the request's credentials changes just when its updates stay in them. -/
theorem dispatch_iff (hsecret : s.auth.authSecret.isSome = true) (c : Call) :
    RouteAuthorised s headers w (.dispatchCommand c) ↔ Covered s headers w (.dispatchCommand c) := by
  rw [Covered]
  cases hrate : s.rateLimit c.workspaceId with
  | some seconds =>
    have hout : handleRequest s headers w (.dispatchCommand c) = ⟨.rateLimited seconds, w, []⟩ := by
      rw [handleRequest, dispatchCommand, hrate]
    exact iff_of_true (authorised_of_quiet (by rw [hout]) (by rw [hout])) fun h => by cases h
  | none =>
    cases hauth : enforceAuth s.crates s.auth headers .post c.workspaceId with
    | error e =>
      have hout : handleRequest s headers w (.dispatchCommand c) = ⟨.refused e, w, []⟩ := by
        rw [handleRequest, dispatchCommand, hrate, hauth]
      refine iff_of_true (authorised_of_quiet (by rw [hout]) (by rw [hout])) fun _ hcredential => ?_
      rw [(enforceAuth_iff_credential hsecret).mpr hcredential] at hauth
      cases hauth
    | ok u =>
      have hcredential := (enforceAuth_iff_credential hsecret).mp hauth
      have hcarried : c.workspaceId ∈ carried s headers (.dispatchCommand c) := carries_of_credential hcredential
      have hworld : (handleRequest s headers w (.dispatchCommand c)).world =
          { w with world := dispatchIn s.crates.toCrates s.policy s.env w.world c } := by
        rw [handleRequest, dispatchCommand, hrate, hauth]
        dsimp only
        cases hrun : (dispatch s.crates.toCrates s.policy c).run (handle s.env) w.world with
        | mk outcome world => cases outcome <;> simp only [dispatchIn, hrun]
      have hreturned : ∀ ws ∈ (handleRequest s headers w (.dispatchCommand c)).returned, ws = c.workspaceId := by
        rw [handleRequest, dispatchCommand, hrate, hauth]
        dsimp only
        cases (dispatch s.crates.toCrates s.policy c).run (handle s.env) w.world with
        | mk outcome world => cases outcome <;> simp
      have hleaves :
          (dispatchIn s.crates.toCrates s.policy s.env w.world c).db.outside (carried s headers (.dispatchCommand c)) =
          w.world.db.outside (carried s headers (.dispatchCommand c)) ↔
          (dispatch s.crates.toCrates s.policy c).Along (handle s.env)
            (OwnRowsOf s.env (carried s headers (.dispatchCommand c))) w.world :=
        (confined_dispatch s.policy c hcarried).leaves_iff w.world
      constructor
      · intro h _ _
        have hchanged := h.changed
        rw [hworld, CoreWorld.outside, CoreWorld.outside, Prod.mk.injEq] at hchanged
        exact hleaves.mp hchanged.1
      · intro h
        refine ⟨fun ws hws => (hreturned ws hws).symm ▸ hcarried, ?_⟩
        rw [hworld, CoreWorld.outside, CoreWorld.outside, Prod.mk.injEq]
        exact ⟨hleaves.mpr (h rfl hcredential), rfl⟩

/-! ### Replay -/

theorem insertCheckpoint_ok {cp : ReplayCheckpoint} (h : CoreWorld.insertCheckpoint cp w = .ok w') :
    ∃ t, w.replayCheckpoint.insert? cp = some t ∧ w' = { w with replayCheckpoint := t } := by
  obtain ⟨t, ht, rfl⟩ := map_eq_ok.mp h
  exact ⟨t, (insertRow_eq_ok.mp ht).2, rfl⟩

theorem insertRun_ok {run : ReplayRun} (h : CoreWorld.insertRun run w = .ok w') :
    ∃ t, w.replayRun.insert? run = some t ∧ w' = { w with replayRun := t } := by
  obtain ⟨t, ht, rfl⟩ := map_eq_ok.mp h
  exact ⟨t, (insertRow_eq_ok.mp ht).2, rfl⟩

/-- Whether a row is accepted does not depend on the clock and the counters. -/
theorem insertCheckpoint_same {cp : ReplayCheckpoint} (h : w'.data = w.data) :
    (∃ v, CoreWorld.insertCheckpoint cp w' = .ok v) ↔ ∃ v, CoreWorld.insertCheckpoint cp w = .ok v := by
  simp only [CoreWorld.data, Prod.mk.injEq] at h
  simp only [CoreWorld.insertCheckpoint, h.1, h.2.1, map_eq_ok]
  constructor
  · intro h
    obtain ⟨_, t, ht, _⟩ := h
    exact ⟨_, t, ht, rfl⟩
  · intro h
    obtain ⟨_, t, ht, _⟩ := h
    exact ⟨_, t, ht, rfl⟩

theorem insertRun_same {run : ReplayRun} (h : w'.data = w.data) :
    (∃ v, CoreWorld.insertRun run w' = .ok v) ↔ ∃ v, CoreWorld.insertRun run w = .ok v := by
  simp only [CoreWorld.data, Prod.mk.injEq] at h
  simp only [CoreWorld.insertRun, h.1, h.2.1, h.2.2, map_eq_ok]
  constructor
  · intro h
    obtain ⟨_, t, ht, _⟩ := h
    exact ⟨_, t, ht, rfl⟩
  · intro h
    obtain ⟨_, t, ht, _⟩ := h
    exact ⟨_, t, ht, rfl⟩

theorem write_total (f : CoreWorld → CoreWorld) :
    w.write s (fun w => .ok (f w)) =
      if s.env.fault w.world.statements then (.error (.storage .unavailable), w.counted)
      else (.ok (), f w.counted) := by
  rw [CoreWorld.write]

theorem nextCheckpoint_counted (ws : WorkspaceId) (event : AgentEvent) :
    nextCheckpoint s w.counted ws event = nextCheckpoint s w ws event := rfl

theorem nextRun_counted (actorId : ActorId) (cp : ReplayCheckpoint) (m : ReplayMode) :
    nextRun s w.counted actorId cp m = nextRun s w actorId cp m := rfl

/-- A checkpoint is made, in the workspace of the request, or nothing is. -/
theorem replayCheckpoint_cases (ws : WorkspaceId) (eventId : EventId) :
    (∃ event v t, Answers s w 2 ∧ eventOf ws eventId w = some event ∧
      CoreWorld.insertCheckpoint (nextCheckpoint s w ws event) w = .ok v ∧
      w.replayCheckpoint.insert? (nextCheckpoint s w ws event) = some t ∧
      (handleRequest s headers w (.replayCheckpoint ws eventId)).returned = [ws] ∧
      (handleRequest s headers w (.replayCheckpoint ws eventId)).world.data = (w.world.db, t, w.replayRun)) ∨
    ((handleRequest s headers w (.replayCheckpoint ws eventId)).returned = [] ∧
      (handleRequest s headers w (.replayCheckpoint ws eventId)).world.data = w.data ∧
      (Answers s w 2 → ¬ ∃ event v, eventOf ws eventId w = some event ∧
        CoreWorld.insertCheckpoint (nextCheckpoint s w ws event) w = .ok v)) := by
  rw [handleRequest, replayCheckpointRoute, checkpoint]
  cases hfault : s.env.fault w.world.statements with
  | true =>
    rw [query_refused hfault]
    exact Or.inr ⟨rfl, rfl, fun h => absurd h (not_answers Nat.zero_lt_two hfault)⟩
  | false =>
    rw [query_read hfault]
    have hanswers : Answers s w 2 ↔ s.env.fault w.counted.prepared.world.statements = false := by
      rw [answers_succ, and_iff_right hfault, answers_one]
      rfl
    cases hevent : eventOf ws eventId w with
    | none =>
      refine Or.inr ⟨rfl, rfl, fun _ => ?_⟩
      rintro ⟨event, v, hsome, -⟩
      cases hsome
    | some event =>
      dsimp only
      rw [makeCheckpoint, nextCheckpoint_counted]
      have hsame : (∃ v, CoreWorld.insertCheckpoint (nextCheckpoint s w ws event) w.counted.prepared.counted = .ok v) ↔
          ∃ v, CoreWorld.insertCheckpoint (nextCheckpoint s w ws event) w = .ok v := insertCheckpoint_same rfl
      cases hnext : s.env.fault w.counted.prepared.world.statements with
      | true =>
        rw [write_refused hnext]
        refine Or.inr ⟨rfl, rfl, fun h => ?_⟩
        rw [hanswers, hnext] at h
        cases h
      | false =>
        cases hinsert : CoreWorld.insertCheckpoint (nextCheckpoint s w ws event) w.counted.prepared.counted with
        | error e =>
          rw [write_failed hnext hinsert]
          refine Or.inr ⟨rfl, rfl, fun _ => ?_⟩
          rintro ⟨event', v, hsome, haccepted⟩
          cases hsome
          obtain ⟨v', hv'⟩ := hsame.mpr ⟨v, haccepted⟩
          rw [hinsert] at hv'
          cases hv'
        | ok v =>
          rw [write_done hnext hinsert]
          obtain ⟨t, ht, rfl⟩ := insertCheckpoint_ok hinsert
          obtain ⟨v', hv'⟩ := hsame.mp ⟨_, hinsert⟩
          exact Or.inl ⟨event, v', t, hanswers.mpr hnext, rfl, hv', ht, rfl, rfl⟩

theorem replayCheckpoint_iff (ws : WorkspaceId) (eventId : EventId) :
    RouteAuthorised s headers w (.replayCheckpoint ws eventId) ↔ Covered s headers w (.replayCheckpoint ws eventId) := by
  rw [Covered]
  rcases @replayCheckpoint_cases s headers w ws eventId with
    ⟨event, v, t, hanswers, hevent, haccepted, ht, hreturned, hdata⟩ | ⟨hreturned, hdata, hnone⟩
  · constructor
    · intro h _ _
      exact h.returned ws (hreturned.symm ▸ List.mem_cons_self)
    · intro h
      have hcarried := h hanswers ⟨event, v, hevent, haccepted⟩
      refine ⟨fun ws' hws' => ?_, ?_⟩
      · rw [hreturned, List.mem_singleton] at hws'
        rwa [hws']
      · simp only [CoreWorld.data, Prod.mk.injEq] at hdata
        rw [CoreWorld.outside, hdata.1, hdata.2.1, hdata.2.2, CoreWorld.outside]
        rw [Table.filter_insert? ht (by exact decide_eq_false_iff_not.mpr (not_not.mpr hcarried))]
  · exact iff_of_true (authorised_of_quiet hreturned hdata) fun hanswers h => absurd h (hnone hanswers)

/-- What is changed by the end of a run, and what is then returned. -/
theorem finish_cases (cp : ReplayCheckpoint) (m : ReplayMode) (id : String) (events : List AgentEvent) :
    (s.env.fault w.world.statements = true ∧ (finish s w cp m id events).returned = [] ∧
      (finish s w cp m id events).world.data = w.data) ∨
    s.env.fault w.world.statements = false ∧
      (finish s w cp m id events).returned = cp.workspaceId :: events.map (·.workspaceId) ∧
      (finish s w cp m id events).world.data = (w.finishRun id (nowOf s w)).data := by
  rw [finish, write_total]
  cases hfault : s.env.fault w.world.statements with
  | true =>
    rw [if_pos (show s.env.fault w.timed.world.statements = true from hfault)]
    exact Or.inl ⟨rfl, rfl, rfl⟩
  | false =>
    rw [if_neg (show ¬ s.env.fault w.timed.world.statements = true by simp [CoreWorld.timed, hfault])]
    exact Or.inr ⟨rfl, rfl, rfl⟩

/-- The session of a checkpoint is read with a statement, if there is one. -/
theorem compare_cases (cp : ReplayCheckpoint) (m : ReplayMode) (id : String) :
    (¬ Answers s w (if cp.sessionId = none then 1 else 2) ∧ (compare s w cp m id).returned = [] ∧
      (compare s w cp m id).world.data = w.data) ∨
    Answers s w (if cp.sessionId = none then 1 else 2) ∧
      (compare s w cp m id).returned = cp.workspaceId :: (eventsOfCheckpoint w cp).map (·.workspaceId) ∧
      (compare s w cp m id).world.data = (w.finishRun id (nowOf s w)).data := by
  rw [compare, sessionEvents, eventsOfCheckpoint]
  cases cp.sessionId with
  | none =>
    rw [if_pos rfl, answers_one]
    dsimp only
    rcases finish_cases (s := s) (w := w) cp m id [] with
      ⟨hfault, hreturned, hdata⟩ | ⟨hfault, hreturned, hdata⟩
    · exact Or.inl ⟨by simp [hfault], hreturned, hdata⟩
    · exact Or.inr ⟨hfault, hreturned, hdata⟩
  | some session =>
    rw [if_neg (Option.some_ne_none session), answers_succ, answers_one]
    dsimp only
    cases hfault : s.env.fault w.world.statements with
    | true =>
      rw [query_refused hfault]
      exact Or.inl ⟨by simp, rfl, rfl⟩
    | false =>
      rw [query_read hfault]
      dsimp only
      rcases finish_cases (s := s) (w := w.counted) cp m id
        (w.world.db.eventsInSession session) with ⟨hnext, hreturned, hdata⟩ | ⟨hnext, hreturned, hdata⟩
      · exact Or.inl ⟨by simp [hnext], hreturned, hdata⟩
      · exact Or.inr ⟨⟨rfl, hnext⟩, hreturned, hdata⟩

theorem answers_congr {n : Nat} (h : w'.world.statements = w.world.statements) :
    Answers s w' n ↔ Answers s w n := by
  rw [Answers, h, Answers]

open Classical in
/-- A new run is seen outside of a set of workspaces just when its workspace is not in it. -/
theorem filter_insertRun {S : Set WorkspaceId} {t t' : Table ReplayRun.id} {run : ReplayRun}
    (h : t.insert? run = some t') :
    t'.filter (·.workspaceId ∉ S) = t.filter (·.workspaceId ∉ S) ↔ run.workspaceId ∈ S := by
  constructor
  · intro hsame
    by_contra hrun
    have hlength := congrArg (fun t => t.rows.length) hsame
    simp only [Table.filter, (Table.insert?_eq_some.mp h).2, List.filter_append, List.filter_singleton,
      List.length_append,
      decide_eq_true hrun] at hlength
    simp at hlength
  · intro hrun
    exact Table.filter_insert? h (decide_eq_false_iff_not.mpr (not_not.mpr hrun))

open Classical in
/-- The run that is finished is the new one. -/
theorem filter_finishRun {S : Set WorkspaceId} {t : Table ReplayRun.id} {run : ReplayRun}
    (h : t.insert? run = some w.replayRun) (hrun : run.workspaceId ∈ S) (now : String) :
    (w.finishRun run.id now).replayRun.filter (·.workspaceId ∉ S) = w.replayRun.filter (·.workspaceId ∉ S) := by
  rw [CoreWorld.finishRun]
  dsimp only
  rw [Table.filter_update (by intro r; rfl), Table.update_eq_self]
  intro r hr hid
  obtain ⟨hmem, hout⟩ := Table.mem_filter.mp hr
  have hnew : run ∈ w.replayRun := (Table.mem_insert? h).mpr (Or.inr rfl)
  have heq : r = run := Table.eq_of_key_eq hmem hnew (of_decide_eq_true hid)
  rw [heq] at hout
  exact absurd hrun (of_decide_eq_true hout)

/-- Once a run is recorded, the request is authorised just when the checkpoint's workspace is carried, and those of the events that are compared. -/
theorem recorded_iff {actorId : ActorId} {checkpointId mode : String} {cp : ReplayCheckpoint} {m : ReplayMode}
    {t : Table ReplayRun.id} (ht : w.replayRun.insert? (nextRun s w actorId cp m) = some t)
    (hfaults : Answers s w 2)
    (hout : handleRequest s headers w (.replayRun actorId checkpointId mode) =
      compare s { w.counted.prepared.counted with replayRun := t } cp m (nextRun s w actorId cp m).id) :
    RouteAuthorised s headers w (.replayRun actorId checkpointId mode) ↔
      cp.workspaceId ∈ carried s headers (.replayRun actorId checkpointId mode) ∧
        (Answers s w (if cp.sessionId = none then 3 else 4) →
          ∀ e ∈ eventsOfCheckpoint w cp, e.workspaceId ∈ carried s headers (.replayRun actorId checkpointId mode)) := by
  have hanswers : Answers s w (if cp.sessionId = none then 3 else 4) ↔
      Answers s { w.counted.prepared.counted with replayRun := t } (if cp.sessionId = none then 1 else 2) := by
    have hcount : (if cp.sessionId = none then 3 else 4) = (if cp.sessionId = none then 1 else 2) + 1 + 1 := by
      split <;> rfl
    rw [answers_succ, answers_one] at hfaults
    rw [hcount, answers_succ, answers_succ, and_iff_right hfaults.1, and_iff_right hfaults.2]
    exact answers_congr rfl
  rw [hanswers]
  rcases @compare_cases s { w.counted.prepared.counted with replayRun := t } cp m (nextRun s w actorId cp m).id with
    ⟨hfails, hreturned, hdata⟩ | ⟨hdone, hreturned, hdata⟩
  · simp only [CoreWorld.data, Prod.mk.injEq] at hdata
    constructor
    · intro h
      have hchanged := h.changed
      rw [hout, CoreWorld.outside, CoreWorld.outside, hdata.2.2, Prod.mk.injEq, Prod.mk.injEq] at hchanged
      exact ⟨(filter_insertRun ht).mp hchanged.2.2, fun hdone => absurd hdone hfails⟩
    · rintro ⟨hcarried, -⟩
      refine ⟨fun ws hws => ?_, ?_⟩
      · rw [hout, hreturned] at hws
        cases hws
      · rw [hout, CoreWorld.outside, CoreWorld.outside, hdata.1, hdata.2.1, hdata.2.2,
          (filter_insertRun ht).mpr hcarried]
        rfl
  · simp only [CoreWorld.data, Prod.mk.injEq] at hdata
    have hall : (∀ ws ∈ (handleRequest s headers w (.replayRun actorId checkpointId mode)).returned,
        ws ∈ carried s headers (.replayRun actorId checkpointId mode)) ↔
        cp.workspaceId ∈ carried s headers (.replayRun actorId checkpointId mode) ∧
          ∀ e ∈ eventsOfCheckpoint w cp, e.workspaceId ∈ carried s headers (.replayRun actorId checkpointId mode) := by
      rw [hout, hreturned, List.forall_mem_cons, List.forall_mem_map]
      rfl
    constructor
    · intro h
      obtain ⟨hcarried, hevents⟩ := hall.mp h.returned
      exact ⟨hcarried, fun _ => hevents⟩
    · rintro ⟨hcarried, hevents⟩
      refine ⟨hall.mpr ⟨hcarried, hevents hdone⟩, ?_⟩
      have hfinished := filter_finishRun (w := { w.counted.prepared.counted with replayRun := t }) ht hcarried
        (nowOf s { w.counted.prepared.counted with replayRun := t })
      rw [hout, CoreWorld.outside, CoreWorld.outside, hdata.1, hdata.2.1, hdata.2.2, hfinished,
        (filter_insertRun ht).mpr hcarried]
      rfl

/-- A run of the checkpoint is recorded, or nothing is. -/
theorem runCheckpoint_cases (actorId : ActorId) (cp : ReplayCheckpoint) (m : ReplayMode) :
    (∃ t, s.env.fault w.counted.world.statements = false ∧
      (∃ v, CoreWorld.insertRun (nextRun s w actorId cp m) w = .ok v) ∧
      w.replayRun.insert? (nextRun s w actorId cp m) = some t ∧
      runCheckpoint s w.counted actorId cp m =
        compare s { w.counted.prepared.counted with replayRun := t } cp m (nextRun s w actorId cp m).id) ∨
    ¬ (s.env.fault w.counted.world.statements = false ∧
        ∃ v, CoreWorld.insertRun (nextRun s w actorId cp m) w = .ok v) ∧
      (runCheckpoint s w.counted actorId cp m).returned = [] ∧
      (runCheckpoint s w.counted actorId cp m).world.data = w.data := by
  have hsame : (∃ v, CoreWorld.insertRun (nextRun s w actorId cp m) w.counted.prepared.counted = .ok v) ↔
      ∃ v, CoreWorld.insertRun (nextRun s w actorId cp m) w = .ok v := insertRun_same rfl
  rw [runCheckpoint, nextRun_counted]
  cases hfault : s.env.fault w.counted.prepared.world.statements with
  | true =>
    rw [write_refused hfault]
    refine Or.inr ⟨fun h => ?_, rfl, rfl⟩
    rw [show s.env.fault w.counted.world.statements = true from hfault] at h
    cases h.1
  | false =>
    cases hinsert : CoreWorld.insertRun (nextRun s w actorId cp m) w.counted.prepared.counted with
    | error e =>
      rw [write_failed hfault hinsert]
      refine Or.inr ⟨fun h => ?_, rfl, rfl⟩
      obtain ⟨v, hv⟩ := hsame.mpr h.2
      rw [hinsert] at hv
      cases hv
    | ok v =>
      obtain ⟨t, ht, rfl⟩ := insertRun_ok hinsert
      rw [write_done hfault hinsert]
      exact Or.inl ⟨t, hfault, hsame.mp ⟨_, hinsert⟩, ht, rfl⟩

/-- The request records a run, or it does nothing. -/
theorem replayRun_cases (actorId : ActorId) (checkpointId mode : String) :
    (∃ cp m t, Records s w actorId checkpointId mode cp m ∧
      w.replayRun.insert? (nextRun s w actorId cp m) = some t ∧
      handleRequest s headers w (.replayRun actorId checkpointId mode) =
        compare s { w.counted.prepared.counted with replayRun := t } cp m (nextRun s w actorId cp m).id) ∨
    (∀ cp m, ¬ Records s w actorId checkpointId mode cp m) ∧
      (handleRequest s headers w (.replayRun actorId checkpointId mode)).returned = [] ∧
      (handleRequest s headers w (.replayRun actorId checkpointId mode)).world.data = w.data := by
  rw [handleRequest, replayRunRoute]
  cases hmode : ReplayMode.parse mode with
  | error e =>
    refine Or.inr ⟨fun cp m h => ?_, rfl, rfl⟩
    rw [h.mode] at hmode
    cases hmode
  | ok m =>
    dsimp only
    rw [run]
    cases hfault : s.env.fault w.world.statements with
    | true =>
      rw [query_refused hfault]
      exact Or.inr ⟨fun cp m h => not_answers Nat.zero_lt_two hfault h.answers, rfl, rfl⟩
    | false =>
      rw [query_read hfault]
      cases hfound : w.replayCheckpoint.find? checkpointId with
      | none =>
        refine Or.inr ⟨fun cp m h => ?_, rfl, rfl⟩
        rw [h.found] at hfound
        cases hfound
      | some cp =>
        rcases @runCheckpoint_cases s w actorId cp m with
          ⟨t, hnext, haccepted, ht, hrun⟩ | ⟨hnot, hreturned, hdata⟩
        · have hanswers := answers_succ.mpr ⟨hfault, answers_one.mpr hnext⟩
          exact Or.inl ⟨cp, m, t, ⟨hmode, hfound, hanswers, haccepted⟩, ht, hrun⟩
        · refine Or.inr ⟨fun cp' m' h => hnot ?_, hreturned, hdata⟩
          obtain rfl : m = m' := Except.ok.inj (hmode.symm.trans h.mode)
          obtain rfl : cp = cp' := Option.some.inj (hfound.symm.trans h.found)
          exact ⟨answers_one.mp (answers_succ.mp h.answers).2, h.accepted⟩

theorem replayRun_iff (actorId : ActorId) (checkpointId mode : String) :
    RouteAuthorised s headers w (.replayRun actorId checkpointId mode) ↔
      Covered s headers w (.replayRun actorId checkpointId mode) := by
  rw [Covered]
  rcases @replayRun_cases s headers w actorId checkpointId mode with
    ⟨cp, m, t, h, ht, hout⟩ | ⟨hnone, hreturned, hdata⟩
  · rw [recorded_iff ht h.answers hout]
    constructor
    · intro hcovered cp' m' h'
      obtain rfl : cp = cp' := Option.some.inj (h.found.symm.trans h'.found)
      exact hcovered
    · intro hcovered
      exact hcovered cp m h
  · exact iff_of_true (authorised_of_quiet hreturned hdata) fun cp m h => absurd h (hnone cp m)

/-! ### Every route -/

/-- **A request is authorised** exactly when it is covered. -/
theorem routeAuthorised_iff (hsecret : s.auth.authSecret.isSome = true) (req : CoreRequest) :
    RouteAuthorised s headers w req ↔ Covered s headers w req := by
  cases req with
  | dispatchCommand c => exact dispatch_iff hsecret c
  | listEvents sessionId => exact listEvents_iff sessionId
  | listApprovals ws => exact listApprovals_iff ws
  | syncSince r => exact syncSince_iff r
  | replayCheckpoint ws eventId => exact replayCheckpoint_iff ws eventId
  | replayRun actorId checkpointId mode => exact replayRun_iff actorId checkpointId mode
  | ws topic published sent => exact ws_iff topic published sent

/-! ### A pending approval -/

def sampleServer : CoreServer where
  crates := .sample
  auth := .sample
  env := .wholeSeconds
  policy := alphaDemoPolicy
  rateLimit _ := none

def pendingApproval : ApprovalRequest where
  id := "appr_1"
  workspaceId := "ws_a"
  toolCallId := some "tc_1"
  requestedByActorId := "act_1"
  riskLevel := .high
  requiredPermission := "shell"
  summary := "run a command"
  status := .pending
  scopeGranted := none
  createdAt := "2026-05-19T12:00:00Z"
  approvedAt := none
  approvedByActorId := none
  deniedReason := none

def sampleWorld : CoreWorld where
  world := .start { Db.empty with approvalRequest := ⟨[pendingApproval], by simp⟩ }
  replayCheckpoint := .empty
  replayRun := .empty

/-- With the token of its workspace the approval is listed. -/
theorem approvals_authorised :
    RouteAuthorised sampleServer sampleHeaders sampleWorld (.listApprovals "ws_a") := by
  have hcredential := sampleHeaders_credential .get
  exact (routeAuthorised_iff rfl (.listApprovals "ws_a")).mpr fun _ _ _ => carries_of_credential hcredential

/-- Without any credential it is listed as well. -/
theorem approvals_unauthorised : ¬ RouteAuthorised sampleServer [] sampleWorld (.listApprovals "ws_a") := by
  intro h
  have hpending : pendingApprovals "ws_a" sampleWorld = [pendingApproval] := by rfl
  have hreturned : "ws_a" ∈ (handleRequest sampleServer [] sampleWorld (.listApprovals "ws_a")).returned := by
    have hout : handleRequest sampleServer [] sampleWorld (.listApprovals "ws_a") =
        ⟨.approvals [⟨"appr_1", "tc_1", "act_1", .high, "run a command", .pending⟩], sampleWorld.counted,
          ["ws_a"]⟩ := by
      rw [handleRequest, listApprovals, query_answered rfl (by rw [hpending]; rfl)]
      rfl
    rw [hout]
    exact List.mem_cons_self
  have hcarried : Carries .sample .sample [] .get "ws_a" := h.returned "ws_a" hreturned
  cases hcarried with
  | bearer htoken => cases htoken
  | session hcookie => cases hcookie

end Server

end ActantDb
