import ActantDb.Command.Shape
import ActantDb.Lib.HashChain
import ActantDb.Lib.Sha256

/-!
# The chain of a session's events

Every event carries `chain_hash` of the hash that `last_event_hash` returned and of its own payload hash. Two things decide whether a session's events are then one chain: which row the query finds, which is a matter of how the timestamps sort as text and of the workspace the row is in, and whether that row is still the newest when the event is inserted, which is a matter of what other dispatches do in between.

For dispatches executed one after another only the first matters (`sessions_chained`), for interleaved ones both do (`sessions_form_lines`). Each result is preceded by a run in which what it asks for is missing.
-/

namespace ActantDb

open HashChain Prog

variable (X : Crates)

def linkRow (prev : String) (r : AgentEventRow) : String := chainHash X prev r.event.payloadHash

def rowHash (r : AgentEventRow) : String := r.event.eventHash

/-! ### What the engine hands to `append_event` -/

/-- The last predecessor read that no insertion has used yet. -/
abbrev LastRead := Option (WorkspaceId × Option SessionId × Option String)

/-- An event is only appended with the hash chained from the predecessor just read for its session. -/
def chainMonitor : Monitor Op Op.Res LastRead where
  allowed l o :=
    match o with
    | .sql (.appendEvent e) =>
      ∃ prev, l = some (e.workspaceId, e.sessionId, prev) ∧
        e.eventHash = chainHash X (prev.getD zeros) e.payloadHash
    | .sql (.ingestEvent _) => False
    | _ => True
  next l o r :=
    match o, r with
    | .sql (.lastEventHash ws s), .ok prev => some (ws, s, prev)
    | .sql (.appendEvent _), _ => none
    | _, _ => l

variable {X}

theorem chainMonitor_allowed {l : LastRead} {o : Op} (h : o.writes ≠ some .agentEvent) :
    (chainMonitor X).allowed l o := by
  cases o with
  | now => trivial
  | ulid => trivial
  | sql s => cases s <;> trivial

theorem chainMonitor_blocks : Blocks X (chainMonitor X) (fun _ => True) := by
  apply Blocks.of_chronicle
  · intro l o h _
    exact ⟨chainMonitor_allowed h, fun _ => trivial⟩
  · intro ws actor session eventType causalityKind sensitivity payload backrefs
    constructor
    intro l _
    refine ⟨trivial, fun r => ?_⟩
    cases r with
    | error e => trivial
    | ok prev =>
      refine ⟨trivial, fun ulid => ⟨trivial, fun t => ⟨⟨prev, rfl, rfl⟩, fun r => ?_⟩⟩⟩
      cases r with
      | error e => trivial
      | ok r => trivial

theorem appendEvent_of_allowed {l : LastRead} {o : Op} (hallowed : (chainMonitor X).allowed l o)
    (ho : o.writes = some .agentEvent) : ∃ e, o = .sql (.appendEvent e) := by
  cases o with
  | now => cases ho
  | ulid => cases ho
  | sql s =>
    cases s with
    | appendEvent e => exact ⟨e, rfl⟩
    | ingestEvent row => exact hallowed.elim
    | _ => cases ho

/-! ### What an insertion does to a session -/

theorem sessionLine_insertEvent {db db' : Db} {row : AgentEventRow}
    (h : db.insertEvent row = .ok db') (s : SessionId) :
    db'.sessionLine s =
      if row.event.sessionId = some s then db.sessionLine s ++ [row] else db.sessionLine s := by
  obtain ⟨-, t, hins, rfl⟩ := Db.insertEvent_eq_ok.mp h
  simp only [Db.sessionLine, (Table.insert?_eq_some.mp hins).2, List.filter_append]
  split
  · rename_i hsession
    simp [hsession]
  · rename_i hsession
    simp [hsession]

/-- Outside the chronicle an operation leaves every session's rows alone. -/
theorem agentEvent_handle {E : Env} {o : Op} (h : o.writes ≠ some .agentEvent) (w : World) :
    (handle E o w).2.db.agentEvent = w.db.agentEvent :=
  (handle_frame E o w).agentEvent h

theorem sessionLine_congr {a b : Db} (h : a.agentEvent = b.agentEvent) (s : SessionId) :
    a.sessionLine s = b.sessionLine s := by
  rw [Db.sessionLine, Db.sessionLine, h]

theorem lastEventHash_congr {a b : Db} (h : a.agentEvent = b.agentEvent) (ws : WorkspaceId)
    (s : Option SessionId) : a.lastEventHash ws s = b.lastEventHash ws s := by
  rw [Db.lastEventHash, Db.lastEventHash, Db.chronicle, Db.chronicle, h]

/-- An append either is refused and changes nothing, or inserts its row. -/
theorem handle_appendEvent (E : Env) (e : AgentEvent) (w : World) :
    ((∃ err, (handle E (.sql (.appendEvent e)) w).1 = .error err) ∧
      (handle E (.sql (.appendEvent e)) w).2.db = w.db) ∨
    (handle E (.sql (.appendEvent e)) w).1 = .ok () ∧ E.fault w.statements = false ∧
      w.db.insertEvent { event := e } = .ok (handle E (.sql (.appendEvent e)) w).2.db := by
  obtain ⟨herr, hsame, -⟩ | ⟨reply, db', hfault, hexec, hanswer, hdb⟩ :=
    handle_sql E (.appendEvent e) w
  · exact Or.inl ⟨herr, hsame⟩
  · obtain ⟨db'', hins, heq⟩ := map_eq_ok.mp hexec
    cases heq
    rw [hdb]
    exact Or.inr ⟨hanswer, hfault, hins⟩

/-! ### Dispatches one after another -/

variable (X)

/-- The sessions of the database are chains in the order `events_in_session` lists them. -/
def SessionsChained (db : Db) : Prop :=
  ∀ s, Linked (fun prev (e : AgentEvent) => chainHash X prev e.payloadHash) (·.eventHash) zeros
    (db.eventsInSession s)

variable {X}

theorem sessionsChained_iff {db : Db} :
    SessionsChained X db ↔ ∀ s, Linked (linkRow X) rowHash zeros (db.sessionRows s) := by
  have hmap : ∀ (root : String) (rows : List AgentEventRow),
      Linked (fun prev (e : AgentEvent) => chainHash X prev e.payloadHash) (·.eventHash) root
        (rows.map (·.event)) ↔ Linked (linkRow X) rowHash root rows := by
    intro root rows
    induction rows generalizing root with
    | nil => rfl
    | cons r rows ih => exact and_congr Iff.rfl (ih r.event.eventHash)
  exact forall_congr' fun s => hmap zeros (db.sessionRows s)

/-- The event sorts after every event listed for its session, the last of which is in the same workspace. -/
def Extends (db : Db) (e : AgentEvent) : Prop :=
  match e.sessionId with
  | none => True
  | some s => (∀ r ∈ db.sessionRows s, r.before { event := e }) ∧
      ∀ r ∈ (db.sessionRows s).getLast?, r.event.workspaceId = e.workspaceId

instance (db : Db) (e : AgentEvent) : Decidable (Extends db e) := by
  unfold Extends
  split <;> infer_instance

/-- What is asked of every operation of a dispatch: an event that the storage accepts extends its session. -/
def ExtendsSession (E : Env) (w : World) (o : Op) : Prop :=
  match o with
  | .sql (.appendEvent e) =>
    E.fault w.statements = true ∨ (w.db.insertEvent { event := e }).isOk = false ∨ Extends w.db e
  | _ => True

instance (E : Env) (w : World) (o : Op) : Decidable (ExtendsSession E w o) := by
  unfold ExtendsSession
  split <;> infer_instance

theorem lastEventHash_eq_tip {db : Db} {ws : WorkspaceId} {s : SessionId}
    (hws : ∀ r ∈ (db.sessionRows s).getLast?, r.event.workspaceId = ws) :
    (db.lastEventHash ws (some s)).getD zeros = tip rowHash zeros (db.sessionRows s) := by
  cases hlast : (db.sessionRows s).getLast? with
  | none =>
    have hempty : db.sessionLine s = [] := by
      have hperm := inOrder_perm (db.sessionLine s)
      rw [← Db.sessionRows, List.getLast?_eq_none_iff.mp hlast] at hperm
      exact hperm.symm.eq_nil
    rw [Db.lastEventHash_of_empty hempty, tip, hlast]
    rfl
  | some r =>
    obtain ⟨hmem, hall⟩ := getLast?_inOrder hlast
    rw [← hws r hlast, Db.lastEventHash_of_last hmem hall, tip, hlast]
    rfl

/-- The read of the last predecessor is still what the query returns. -/
def ReadCurrent (l : LastRead) (db : Db) : Prop :=
  ∀ ws s prev, l = some (ws, s, prev) → prev = db.lastEventHash ws s

theorem sessionRows_insertEvent {db db' : Db} {row : AgentEventRow}
    (hins : db.insertEvent row = .ok db') {s : SessionId}
    (horder : row.event.sessionId = some s → ∀ r ∈ db.sessionRows s, r.before row) :
    db'.sessionRows s =
      if row.event.sessionId = some s then db.sessionRows s ++ [row] else db.sessionRows s := by
  rw [Db.sessionRows, sessionLine_insertEvent hins]
  split
  · rename_i hsession
    exact inOrder_append fun r hr => horder hsession r (Db.mem_sessionRows.mpr hr)
  · rfl

theorem readCurrent_none (db : Db) : ReadCurrent none db := by
  intro ws s prev h
  cases h

/-- Outside the chronicle a read is current when it is answered, and nothing makes it stale. -/
theorem readCurrent_handle {E : Env} {l : LastRead} {w : World} {o : Op}
    (ho : o.writes ≠ some .agentEvent) (hread : ReadCurrent l w.db) :
    ReadCurrent ((chainMonitor X).next l o (handle E o w).1) (handle E o w).2.db := by
  intro ws s prev h
  rw [lastEventHash_congr (agentEvent_handle ho w)]
  cases o with
  | now => exact hread ws s prev h
  | ulid => exact hread ws s prev h
  | sql st =>
    cases st with
    | lastEventHash ws' s' =>
      simp only [handle] at h
      split at h
      · exact hread ws s prev h
      · cases h
        rfl
    | appendEvent => exact absurd rfl ho
    | _ => exact hread ws s prev h

/-- One operation of a dispatch keeps the sessions chained. -/
theorem chained_handle {E : Env} {l : LastRead} {w : World} {o : Op}
    (hchained : SessionsChained X w.db) (hread : ReadCurrent l w.db)
    (hallowed : (chainMonitor X).allowed l o) (hextends : ExtendsSession E w o) :
    SessionsChained X (handle E o w).2.db ∧
      ReadCurrent ((chainMonitor X).next l o (handle E o w).1) (handle E o w).2.db := by
  by_cases ho : o.writes = some .agentEvent
  · obtain ⟨e, rfl⟩ := appendEvent_of_allowed hallowed ho
    refine ⟨?_, readCurrent_none _⟩
    rcases handle_appendEvent E e w with ⟨-, hsame⟩ | ⟨-, hfault, hins⟩
    · rw [hsame]
      exact hchained
    · obtain ⟨prev, hl, hhash⟩ := hallowed
      rcases hextends with hrefused | hrefused | hext
      · rw [hfault] at hrefused
        cases hrefused
      · rw [hins] at hrefused
        cases hrefused
      · rw [sessionsChained_iff] at hchained ⊢
        intro s
        have hrow : e.sessionId = some s → (∀ r ∈ w.db.sessionRows s, r.before { event := e }) ∧
            ∀ r ∈ (w.db.sessionRows s).getLast?, r.event.workspaceId = e.workspaceId := by
          intro hs
          rwa [Extends, hs] at hext
        rw [sessionRows_insertEvent hins fun hs => (hrow hs).1]
        split
        · rename_i hs
          rw [linked_append_singleton]
          refine ⟨hchained s, ?_⟩
          -- the row listed last is the one the engine chained from
          have htip := lastEventHash_eq_tip (hrow hs).2
          rw [← hs, ← hread _ _ _ hl] at htip
          rw [rowHash, linkRow, ← htip, hhash]
        · exact hchained s
  · refine ⟨?_, readCurrent_handle ho hread⟩
    rw [sessionsChained_iff] at hchained ⊢
    intro s
    rw [Db.sessionRows, sessionLine_congr (agentEvent_handle ho w)]
    exact hchained s

theorem chained_dispatchIn {policy : PolicyDoc} {E : Env} {w : World} {c : Call}
    (hchained : SessionsChained X w.db)
    (hextends : (dispatch X policy c).Along (handle E) (ExtendsSession E) w) :
    SessionsChained X (dispatchIn X policy E w c).db := by
  have hsteady : Steady (chainMonitor X) (fun _ => True) (dispatch X policy c) :=
    dispatch_steady chainMonitor_blocks policy c
  obtain ⟨l, hJ, -⟩ := run_joint (handle E)
    (fun l w => SessionsChained X w.db ∧ ReadCurrent l w.db) (ExtendsSession E)
    (fun l w o hJ hallowed hext => chained_handle hJ.1 hJ.2 hallowed hext) (hsteady.safe none trivial)
    ⟨hchained, readCurrent_none _⟩ hextends
  exact hJ.1

def halfSecond : Env :=
  Env.sample (fun n => 1700000000 * 10 ^ 9 + (if n < 7 then 0 else 500000000)) fun _ => false

/-- A session is created at a whole second and a message appended half a second later. -/
def halfSecondRun : World :=
  Lts.run (dispatchIn Crates.sample alphaDemoPolicy halfSecond) (World.start .empty)
    [Call.sample "create_session" [("session_id", "sess_demo")],
      Call.sample "append_user_message" [("session_id", "sess_demo"), ("text", "hello")]]

/-- `…:20.5Z` sorts before `…:20Z`, so the message is listed first and follows nothing. -/
theorem halfSecondRun_not_chained :
    World.Regular halfSecond halfSecondRun ∧ ¬ SessionsChained Crates.sample halfSecondRun.db := by
  constructor
  · decide +kernel
  · intro h
    have hlinked := h "sess_demo"
    revert hlinked
    decide +kernel

/-- **Dispatches one after another keep every session a chain**, as long as each event they insert sorts after the events of its session and follows one of its own workspace. -/
theorem sessions_chained (X : Crates) (policy : PolicyDoc) (E : Env) (w : World) (calls : List Call)
    (hstart : SessionsChained X w.db)
    (hextends : Lts.EveryStep (dispatchIn X policy E)
      (fun w c => (dispatch X policy c).Along (handle E) (ExtendsSession E) w) w calls) :
    Lts.Always (dispatchIn X policy E) (fun w => SessionsChained X w.db) w calls := by
  apply Lts.always_of_invariant (fun w => SessionsChained X w.db) _ hstart hextends
  intro w c hchained hext
  exact chained_dispatchIn hchained hext

theorem sessions_chained_wholeSeconds :
    Lts.Always (dispatchIn Crates.sample alphaDemoPolicy .wholeSeconds)
      (fun w => SessionsChained Crates.sample w.db) (World.start .empty)
      [Call.sample "create_session" [("session_id", "sess_demo")],
        Call.sample "append_user_message" [("session_id", "sess_demo"), ("text", "hello")]] :=
  sessions_chained Crates.sample alphaDemoPolicy .wholeSeconds _ _ (fun _ => linked_nil)
    (by decide +kernel)

/-! ### Dispatches that interleave -/

variable {ι : Type} [DecidableEq ι]

/-- One answered call: a read of thread `i` in session `s` is fresh, an insertion into `s` ends that. -/
def freshAfter (s : SessionId) (i : ι) (fresh : Bool) (a : Answered ι Op Op.Res) : Bool :=
  match a with
  | ⟨j, .sql (.lastEventHash _ s'), .ok _⟩ => if j = i ∧ s' = some s then true else fresh
  | ⟨_, .sql (.appendEvent e), .ok _⟩ => if e.sessionId = some s then false else fresh
  | _ => fresh

/-- Thread `i` has read the last hash of session `s` since the latest insertion into it. -/
def undisturbed (s : SessionId) (i : ι) (trace : List (Answered ι Op Op.Res)) : Bool :=
  trace.foldl (freshAfter s i) false

theorem undisturbed_append (s : SessionId) (i : ι) (trace : List (Answered ι Op Op.Res))
    (a : Answered ι Op Op.Res) :
    undisturbed s i (trace ++ [a]) = freshAfter s i (undisturbed s i trace) a := by
  rw [undisturbed, List.foldl_append]
  rfl

/-- The row inserted last into the session is in the given workspace and sorts after all its rows. -/
def NewestIsLast (db : Db) (ws : WorkspaceId) (s : SessionId) : Prop :=
  ∀ newest ∈ (db.sessionLine s).getLast?,
    newest.event.workspaceId = ws ∧ ∀ r ∈ db.sessionLine s, r.before newest

instance (db : Db) (ws : WorkspaceId) (s : SessionId) : Decidable (NewestIsLast db ws s) := by
  unfold NewestIsLast
  infer_instance

/-- Thread `i` chains `e` after the newest row of its session. -/
def ChainsNewest (c : DispatchPool ι) (i : ι) (e : AgentEvent) : Prop :=
  match e.sessionId with
  | none => True
  | some s => undisturbed s i c.trace = true ∧ NewestIsLast c.world.db e.workspaceId s

instance (c : DispatchPool ι) (i : ι) (e : AgentEvent) : Decidable (ChainsNewest c i e) := by
  unfold ChainsNewest
  split <;> infer_instance

/-- What is asked of a step: an event that the storage accepts is chained after the newest row. -/
def FollowsNewest (E : Env) (c : DispatchPool ι) (i : ι) : Prop :=
  match c.next? i with
  | some (.sql (.appendEvent e)) =>
    E.fault c.world.statements = true ∨ (c.world.db.insertEvent { event := e }).isOk = false ∨
      ChainsNewest c i e
  | _ => True

instance (E : Env) (c : DispatchPool ι) (i : ι) : Decidable (FollowsNewest E c i) := by
  unfold FollowsNewest
  split <;> infer_instance

/-- The rows of every session, in the order they were inserted, are one chain. -/
def SessionsInLine (X : Crates) (db : Db) : Prop :=
  ∀ s, Linked (linkRow X) rowHash zeros (db.sessionLine s)

/-- A thread's read that no insertion has followed is still what the query returns. -/
def ReadsCurrent (X : Crates) (c : DispatchPool ι) : Prop :=
  ∀ i ws s prev, Pool.summary (chainMonitor X) none i c.trace = some (ws, some s, prev) →
    undisturbed s i c.trace = true → prev = c.world.db.lastEventHash ws (some s)

theorem lastEventHash_insertEvent {db db' : Db} {row : AgentEventRow}
    (h : db.insertEvent row = .ok db') {s : SessionId} (hs : row.event.sessionId ≠ some s)
    (ws : WorkspaceId) : db'.lastEventHash ws (some s) = db.lastEventHash ws (some s) := by
  obtain ⟨-, t, hins, rfl⟩ := Db.insertEvent_eq_ok.mp h
  have hchronicle : Db.chronicle { db with agentEvent := t } ws (some s) = db.chronicle ws (some s) := by
    simp [Db.chronicle, (Table.insert?_eq_some.mp hins).2, hs]
  rw [Db.lastEventHash, hchronicle, Db.lastEventHash]

theorem lastEventHash_eq_tip_line {db : Db} {ws : WorkspaceId} {s : SessionId}
    (hnewest : NewestIsLast db ws s) :
    (db.lastEventHash ws (some s)).getD zeros = tip rowHash zeros (db.sessionLine s) := by
  cases hlast : (db.sessionLine s).getLast? with
  | none =>
    rw [Db.lastEventHash_of_empty (List.getLast?_eq_none_iff.mp hlast), tip, hlast]
    rfl
  | some r =>
    obtain ⟨hws, hall⟩ := hnewest r hlast
    rw [← hws, Db.lastEventHash_of_last (List.mem_of_getLast? hlast) hall, tip, hlast]
    rfl

/-- Reads stay current: an answered read is, and an insertion leaves no fresh read in its session. -/
theorem readsCurrent_step {E : Env} {c : DispatchPool ι} {i : ι} (hread : ReadsCurrent X c)
    (hsafe : Pool.AllSafe (chainMonitor X) (fun _ _ => True) (fun _ => none) c) :
    ReadsCurrent X (Pool.step (handle E) c i) := by
  rcases Pool.step_cases (handle E) c i with ⟨r, -, hsame⟩ | ⟨o, next, hthread, -, hstep⟩
  · rwa [hsame]
  rw [hstep]
  intro j ws s prev hsummary hfresh
  rw [Pool.summary_append] at hsummary
  rw [undisturbed_append] at hfresh
  by_cases ho : o.writes = some .agentEvent
  · obtain ⟨e, rfl⟩ := appendEvent_of_allowed (hsafe.allowed hthread) ho
    split at hsummary
    · cases hsummary
    rcases handle_appendEvent E e c.world with ⟨⟨err, hanswer⟩, hsame⟩ | ⟨hanswer, -, hins⟩
    · rw [hanswer] at hfresh
      rw [hsame]
      exact hread j ws s prev hsummary hfresh
    · rw [hanswer] at hfresh
      simp only [freshAfter] at hfresh
      split at hfresh
      · cases hfresh
      · rename_i hsession
        rw [lastEventHash_insertEvent hins hsession]
        exact hread j ws s prev hsummary hfresh
  · rw [lastEventHash_congr (agentEvent_handle ho c.world)]
    cases o with
    | now => split at hsummary <;> exact hread j ws s prev hsummary hfresh
    | ulid => split at hsummary <;> exact hread j ws s prev hsummary hfresh
    | sql st =>
      cases st with
      | lastEventHash ws' s' =>
        cases hfault : E.fault c.world.statements with
        | true =>
          simp only [handle, hfault, if_true] at hsummary hfresh
          split at hsummary <;> exact hread j ws s prev hsummary hfresh
        | false =>
          have hanswer : (handle E (.sql (.lastEventHash ws' s')) c.world).1 =
              .ok (c.world.db.lastEventHash ws' s') := by
            simp [handle, hfault, Sql.exec]
          rw [hanswer] at hsummary hfresh
          split at hsummary
          · cases hsummary
            rfl
          · rename_i hji
            simp only [freshAfter, hji, false_and, if_false] at hfresh
            exact hread j ws s prev hsummary hfresh
      | appendEvent => exact absurd rfl ho
      | ingestEvent => exact absurd rfl ho
      | _ => split at hsummary <;> exact hread j ws s prev hsummary hfresh

/-- One step of an interleaving keeps every session one chain. -/
theorem inLine_step {E : Env} {c : DispatchPool ι} {i : ι} (hline : SessionsInLine X c.world.db)
    (hread : ReadsCurrent X c)
    (hsafe : Pool.AllSafe (chainMonitor X) (fun _ _ => True) (fun _ => none) c)
    (hfollows : FollowsNewest E c i) : SessionsInLine X (Pool.step (handle E) c i).world.db := by
  rcases Pool.step_cases (handle E) c i with ⟨r, -, hsame⟩ | ⟨o, next, hthread, hnext, hstep⟩
  · rwa [hsame]
  rw [hstep]
  intro s
  by_cases ho : o.writes = some .agentEvent
  · obtain ⟨e, rfl⟩ := appendEvent_of_allowed (hsafe.allowed hthread) ho
    rcases handle_appendEvent E e c.world with ⟨-, hsame⟩ | ⟨-, hfault, hins⟩
    · rw [hsame]
      exact hline s
    rw [sessionLine_insertEvent hins]
    split
    · rename_i hs
      rw [FollowsNewest, hnext] at hfollows
      rcases hfollows with hrefused | hrefused | hchains
      · rw [hfault] at hrefused
        cases hrefused
      · rw [hins] at hrefused
        cases hrefused
      · rw [ChainsNewest, hs] at hchains
        obtain ⟨prev, hl, hhash⟩ := hsafe.allowed hthread
        rw [show e.sessionId = some s from hs] at hl
        rw [linked_append_singleton]
        refine ⟨hline s, ?_⟩
        have htip := lastEventHash_eq_tip_line hchains.2
        rw [← hread i _ s prev hl hchains.1] at htip
        rw [rowHash, linkRow, ← htip, hhash]
    · exact hline s
  · rw [sessionLine_congr (agentEvent_handle ho c.world)]
    exact hline s

/-- **Interleaved dispatches keep every session one line**, as long as each event they insert is chained after the newest row of its session; and where the hashes of a session do not collide, no two of its events are chained from the same predecessor. -/
theorem sessions_form_lines (X : Crates) (policy : PolicyDoc) (E : Env) (w : World)
    (calls : ι → Call) (schedule : List ι) (hstart : SessionsInLine X w.db)
    (hfollows : Lts.EveryStep (Pool.step (handle E)) (FollowsNewest E)
      (Pool.init w fun i => dispatch X policy (calls i)) schedule) :
    Lts.Always (Pool.step (handle E))
      (fun c => ∀ s, Linked (linkRow X) rowHash zeros (c.world.db.sessionLine s) ∧
        (CollisionFree (linkRow X) rowHash zeros (c.world.db.sessionLine s) →
          NoFork (linkRow X) rowHash zeros (c.world.db.sessionLine s)))
      (Pool.init w fun i => dispatch X policy (calls i)) schedule := by
  have hreads : ReadsCurrent X (Pool.init w fun i => dispatch X policy (calls i)) := by
    intro i ws s prev h
    cases h
  have hsafe : Pool.AllSafe (chainMonitor X) (fun _ _ => True) (fun _ => none)
      (Pool.init w fun i => dispatch X policy (calls i)) :=
    fun i => (dispatch_steady chainMonitor_blocks policy (calls i)).safe none trivial
  have hinv := Lts.always_of_invariant
    (fun c => SessionsInLine X c.world.db ∧ ReadsCurrent X c ∧
      Pool.AllSafe (chainMonitor X) (fun _ _ => True) (fun _ => none) c)
    (fun c i hc hstep => ⟨inLine_step hc.1 hc.2.1 hc.2.2 hstep, readsCurrent_step hc.2.1 hc.2.2,
      Pool.allSafe_step hc.2.2 i⟩)
    ⟨hstart, hreads, hsafe⟩ hfollows
  intro pre post hsplit s
  have hlinked := (hinv pre post hsplit).1 s
  exact ⟨hlinked, fun hfree => hlinked.noFork hfree⟩

/-- One thread creates a session, the other appends a message to it. -/
def createAndAppend : Bool → Call
  | true => Call.sample "create_session" [("session_id", "sess_demo")]
  | false => Call.sample "append_user_message" [("session_id", "sess_demo"), ("text", "hello")]

theorem sessions_form_lines_inTurn :
    Lts.Always (Pool.step (handle .wholeSeconds))
      (fun c => ∀ s, Linked (linkRow Crates.sample) rowHash zeros (c.world.db.sessionLine s) ∧
        (CollisionFree (linkRow Crates.sample) rowHash zeros (c.world.db.sessionLine s) →
          NoFork (linkRow Crates.sample) rowHash zeros (c.world.db.sessionLine s)))
      (Pool.init (World.start .empty) fun i =>
        dispatch Crates.sample alphaDemoPolicy (createAndAppend i))
      (List.replicate 16 true ++ List.replicate 12 false) :=
  sessions_form_lines Crates.sample alphaDemoPolicy .wholeSeconds _ _ _ (fun _ => linked_nil)
    (by decide +kernel)

/-- Both threads read the session's last hash before either has inserted its event. -/
def bothRead : DispatchPool Bool :=
  Lts.run (Pool.step (handle .wholeSeconds))
    (Pool.init (World.start .empty) fun i =>
      dispatch Crates.sample alphaDemoPolicy (createAndAppend i))
    (List.replicate 13 true ++ List.replicate 9 false ++ List.replicate 3 true ++
      List.replicate 3 false)

theorem bothRead_forks :
    World.Regular .wholeSeconds bothRead.world ∧
      ¬ NoFork (linkRow Crates.sample) rowHash zeros (bothRead.world.db.sessionLine "sess_demo") := by
  constructor
  · decide +kernel
  · intro h
    have hfork : ∃ a ∈ bothRead.world.db.sessionLine "sess_demo",
        ∃ b ∈ bothRead.world.db.sessionLine "sess_demo",
          rowHash a = linkRow Crates.sample zeros a ∧ rowHash b = linkRow Crates.sample zeros b ∧
            a ≠ b := by
      decide +kernel
    obtain ⟨a, ha, b, hb, hlinka, hlinkb, hne⟩ := hfork
    exact hne (h a ha b hb zeros (Or.inl rfl) hlinka hlinkb)

end ActantDb
