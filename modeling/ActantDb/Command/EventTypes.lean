import ActantDb.Command.Shape

/-!
# The kinds of events that dispatches write

Every event of the chronicle is appended by one of the ten commands under a name of its own. `Blocks` leaves the name of an event open, so the commands are gone through once more, with a monitor that looks at the names.
-/

namespace ActantDb

open Prog

/-- The event types of the ten commands. -/
def engineEventTypes : List String :=
  ["session_created", "user_message_received", "agent_message", "tool_call_requested", "tool_call_approved",
    "tool_call_denied", "tool_call_finished", "memory_proposed", "memory_approved", "memory_rejected"]

/-- Events are only appended under these names. -/
def typeMonitor : Monitor Op Op.Res Unit where
  allowed _ o :=
    match o with
    | .sql (.appendEvent e) => e.eventType ∈ engineEventTypes
    | .sql (.ingestEvent _) => False
    | _ => True
  next l _ _ := l

variable {X : Crates}

/-- The program appends no event under another name. -/
abbrev Typed {α : Type} (p : Action α) : Prop := Steady typeMonitor (fun _ => True) p

theorem typeMonitor_allowed {o : Op} (h : o.writes ≠ some .agentEvent) : typeMonitor.allowed () o := by
  cases o with
  | now => trivial
  | ulid => trivial
  | sql s => cases s <;> trivial

theorem typed_other (l : Unit) (o : Op) (h : o.writes ≠ some .agentEvent) (_ : True) :
    typeMonitor.allowed l o ∧ ∀ r, (fun _ => True) (typeMonitor.next l o r) :=
  ⟨typeMonitor_allowed h, fun _ => trivial⟩

theorem typed_execute {s : Sql} (h : s.writes ≠ some .agentEvent) : Typed (execute s) :=
  steady_execute fun l => typed_other l (.sql s) h

theorem typed_now : Typed nowRfc3339 := steady_now fun l => typed_other l .now (by decide)

theorem typed_freshId (tag : String) : Typed (freshId tag) := steady_freshId (fun l => typed_other l .ulid (by decide)) tag

theorem typed_requiredStr (input : Value) (key : String) : Typed (requiredStr input key) := steady_requiredStr input key

theorem typed_registers (l : Unit) (o : Op) (ho : o.Registers) (hl : True) :
    typeMonitor.allowed l o ∧ ∀ r, (fun _ => True) (typeMonitor.next l o r) := by
  refine typed_other l o ?_ hl
  cases o with
  | now => decide
  | ulid => exact ho.elim
  | sql s => cases s <;> first | exact ho.elim | simp [Op.writes, Sql.writes]

/-- The one place where events are appended. -/
theorem typed_chronicle {eventType : String} (h : eventType ∈ engineEventTypes) (ws : WorkspaceId) (actor : ActorId)
    (session : Option SessionId) (causalityKind : CausalityKind) (sensitivity : Sensitivity) (payload : Value)
    (backrefs : EventBackrefs) :
    Typed (appendChronicle X ws actor session eventType causalityKind sensitivity payload backrefs) := by
  refine (typed_execute (by simp [Sql.writes])).bind fun prev => (typed_freshId _).bind fun id => ?_
  refine typed_now.bind fun createdAt => ?_
  exact (steady_execute fun l _ => ⟨h, fun _ => trivial⟩).bind fun _ => steady_done _

/-! ### The commands -/

section Commands

variable (ws : WorkspaceId) (actor : ActorId) (cmd : CommandRecord) (input : Value)

theorem typed_createSession : Typed (createSession X ws actor cmd input) := by
  have hagent : ∀ agent, Typed (ensureAgent ws agent) := by
    intro agent
    cases agent with
    | none => exact steady_done _
    | some id => exact ensureActor_steady typed_registers ws id .agent
  have hsession : Typed (sessionIdOf input) := by
    unfold sessionIdOf
    split
    · exact steady_done _
    · exact typed_freshId _
  refine (hagent _).bind fun _ => hsession.bind fun sessionId => ?_
  refine (typed_execute (by simp [Sql.writes])).bind fun found => ?_
  cases found with
  | true => exact steady_done _
  | false =>
    refine typed_now.bind fun now => (typed_execute (by simp [Sql.writes])).bind fun _ => ?_
    exact (typed_chronicle (by decide) ..).bind fun eventId => steady_done _

theorem typed_appendMessage {eventType : String} (role : String) (h : eventType ∈ engineEventTypes) :
    Typed (appendMessage X ws actor cmd input role eventType) := by
  refine (typed_requiredStr input _).bind fun sessionId => (typed_requiredStr input _).bind fun text => ?_
  refine (typed_freshId _).bind fun msgId => typed_now.bind fun now => ?_
  refine (typed_execute (by simp [Sql.writes])).bind fun _ => ?_
  exact (typed_chronicle h ..).bind fun eventId => steady_done _

theorem typed_upsertTool (name : String) : Typed (upsertTool ws name) := by
  refine (typed_execute (by simp [Sql.writes])).bind fun found => ?_
  cases found with
  | some id => exact steady_done _
  | none =>
    refine (typed_freshId _).bind fun id => typed_now.bind fun now => ?_
    exact (typed_execute (by simp [Sql.writes])).bind fun _ => steady_done _

theorem typed_fileToolCall (toolCallId : ToolCallId) (sessionId : SessionId) (toolId : ToolId) (toolName canon hash : String)
    (risk : RiskLevel) (status : ToolCallStatus) (v : Verdict) :
    Typed (fileToolCall ws actor toolCallId sessionId toolId toolName canon hash risk status v) := by
  refine typed_now.bind fun now => (typed_execute (by simp [Sql.writes])).bind fun _ => ?_
  cases v with
  | requireApproval =>
    refine (typed_freshId _).bind fun arId => typed_now.bind fun now => ?_
    exact (typed_execute (by simp [Sql.writes])).bind fun _ => typed_execute (by simp [Sql.writes])
  | allow | constrain | block | halt => exact steady_done _

theorem typed_requestToolCall (policy : PolicyDoc) : Typed (requestToolCall X policy ws actor cmd input) := by
  refine (typed_requiredStr input _).bind fun sessionId => (typed_requiredStr input _).bind fun toolName => ?_
  refine (typed_upsertTool ws toolName).bind fun toolId => (typed_freshId _).bind fun toolCallId => ?_
  refine (steady_done _).bind fun status => (typed_fileToolCall ws actor ..).bind fun _ => ?_
  exact (typed_chronicle (by decide) ..).bind fun eventId => steady_done _

theorem typed_approveToolCall : Typed (approveToolCall X ws actor cmd input) := by
  refine (typed_requiredStr input _).bind fun toolCallId => (typed_execute (by simp [Sql.writes])).bind fun sessionId => ?_
  refine Steady.bind (typed_now.bind fun now => ?_) fun _ => ?_
  · exact (typed_execute (by simp [Sql.writes])).bind fun _ => typed_execute (by simp [Sql.writes])
  · exact (typed_chronicle (by decide) ..).bind fun eventId => steady_done _

theorem typed_denyToolCall : Typed (denyToolCall X ws actor cmd input) := by
  refine (typed_requiredStr input _).bind fun toolCallId => (typed_execute (by simp [Sql.writes])).bind fun sessionId => ?_
  refine Steady.bind (typed_now.bind fun now => ?_) fun _ => ?_
  · exact (typed_execute (by simp [Sql.writes])).bind fun _ => typed_execute (by simp [Sql.writes])
  · exact (typed_chronicle (by decide) ..).bind fun eventId => steady_done _

theorem typed_recordToolResult : Typed (recordToolResult X ws actor cmd input) := by
  refine (typed_requiredStr input _).bind fun toolCallId => (typed_execute (by simp [Sql.writes])).bind fun sessionId => ?_
  refine Steady.bind (typed_now.bind fun now => typed_execute (by simp [Sql.writes])) fun _ => ?_
  exact (typed_chronicle (by decide) ..).bind fun eventId => steady_done _

theorem typed_proposeMemory : Typed (proposeMemory X ws actor cmd input) := by
  refine (typed_requiredStr input _).bind fun text => (typed_freshId _).bind fun mcId => typed_now.bind fun now => ?_
  refine (typed_execute (by simp [Sql.writes])).bind fun _ => ?_
  exact (typed_chronicle (by decide) ..).bind fun eventId => steady_done _

theorem typed_approveMemory : Typed (approveMemory X ws actor cmd input) := by
  refine (typed_requiredStr input _).bind fun mcId => (typed_execute (by simp [Sql.writes])).bind fun candidate => ?_
  cases candidate with
  | none => exact steady_done _
  | some candidate =>
    refine (typed_freshId _).bind fun memId => typed_now.bind fun now => ?_
    refine (typed_execute (by simp [Sql.writes])).bind fun _ => (typed_execute (by simp [Sql.writes])).bind fun _ => ?_
    exact (typed_chronicle (by decide) ..).bind fun eventId => steady_done _

theorem typed_rejectMemory : Typed (rejectMemory X ws actor cmd input) := by
  refine (typed_requiredStr input _).bind fun mcId => (typed_execute (by simp [Sql.writes])).bind fun _ => ?_
  exact (typed_chronicle (by decide) ..).bind fun eventId => steady_done _

theorem typed_runCommand (policy : PolicyDoc) (c : Call) : Typed (runCommand X policy c cmd) := by
  unfold runCommand
  split
  · exact typed_createSession ..
  · exact typed_appendMessage _ _ _ _ _ (by decide)
  · exact typed_appendMessage _ _ _ _ _ (by decide)
  · exact typed_requestToolCall ..
  · exact typed_approveToolCall ..
  · exact typed_denyToolCall ..
  · exact typed_recordToolResult ..
  · exact typed_proposeMemory ..
  · exact typed_approveMemory ..
  · exact typed_rejectMemory ..
  · exact steady_done _

end Commands

theorem typed_dispatch (policy : PolicyDoc) (c : Call) : Typed (dispatch X policy c) := by
  have hlookup : Typed (lookupKey c) := by
    unfold lookupKey
    split
    · exact steady_done _
    · exact typed_execute (by simp [Sql.writes])
  refine (register_steady typed_registers c).bind fun _ => hlookup.bind fun prior => ?_
  cases prior with
  | some id => exact steady_done _
  | none =>
    have hreceive : Typed (receive X c) :=
      (typed_freshId _).bind fun _ => typed_now.bind fun _ => (typed_execute (by simp [Sql.writes])).bind fun _ => steady_done _
    have hrecord : ∀ cmd, Typed (recordKey c cmd) := by
      intro cmd
      unfold recordKey
      split
      · exact steady_done _
      · exact Steady.ignore (typed_now.bind fun _ => typed_execute (by simp [Sql.writes]))
    refine hreceive.bind fun cmd => (typed_runCommand cmd policy c).bind fun outcome => ?_
    exact (hrecord cmd).bind fun _ => steady_done _

/-! ### Runs -/

/-- Every event of the chronicle has one of these names. -/
def EventsTyped (db : Db) : Prop := ∀ r ∈ db.agentEvent, r.event.eventType ∈ engineEventTypes

theorem eventsTyped_handle {E : Env} {w : World} {o : Op} (h : EventsTyped w.db) (hallowed : typeMonitor.allowed () o) :
    EventsTyped (handle E o w).2.db := by
  by_cases ho : o.writes = some .agentEvent
  · obtain ⟨e, rfl⟩ : ∃ e, o = .sql (.appendEvent e) := by
      cases o with
      | now => cases ho
      | ulid => cases ho
      | sql s =>
        cases s with
        | appendEvent e => exact ⟨e, rfl⟩
        | ingestEvent row => exact hallowed.elim
        | _ => cases ho
    obtain ⟨-, hsame, -⟩ | ⟨reply, db', -, hexec, -, hdb⟩ := handle_sql E (.appendEvent e) w
    · rw [hsame]
      exact h
    · obtain ⟨db'', hins, heq⟩ := map_eq_ok.mp hexec
      cases heq
      obtain ⟨-, t, hrow, rfl⟩ := Db.insertEvent_eq_ok.mp hins
      rw [hdb]
      intro r hr
      rw [Table.mem_iff, (Table.insert?_eq_some.mp hrow).2, List.mem_append, List.mem_singleton] at hr
      rcases hr with hr | rfl
      · exact h r hr
      · exact hallowed
  · intro r hr
    rw [(handle_frame E o w).agentEvent ho] at hr
    exact h r hr

section Runs

variable {ι : Type} [DecidableEq ι] {E : Env}

theorem eventsTyped_step {c : DispatchPool ι} {i : ι} (h : EventsTyped c.world.db)
    (hsafe : Pool.AllSafe typeMonitor (fun _ _ => True) (fun _ => ()) c) :
    EventsTyped (Pool.step (handle E) c i).world.db := by
  rcases Pool.step_cases (handle E) c i with ⟨r, -, hsame⟩ | ⟨o, next, hthread, -, hstep⟩
  · rwa [hsame]
  · rw [hstep]
    exact eventsTyped_handle h (hsafe.allowed hthread)

/-- In every state of interleaved dispatches on an empty database. -/
theorem eventsTyped_run (X : Crates) (policy : PolicyDoc) (E : Env) (calls : ι → Call) (schedule : List ι) :
    EventsTyped (Lts.run (Pool.step (handle E)) (Pool.init (World.start .empty) fun i => dispatch X policy (calls i))
      schedule).world.db := by
  have hsafe : Pool.AllSafe typeMonitor (fun _ _ => True) (fun _ => ())
      (Pool.init (World.start .empty) fun i => dispatch X policy (calls i)) :=
    fun i => (typed_dispatch policy (calls i)).safe () trivial
  have hinv : ∀ (schedule : List ι) (c : DispatchPool ι), EventsTyped c.world.db →
      Pool.AllSafe typeMonitor (fun _ _ => True) (fun _ => ()) c →
      EventsTyped (Lts.run (Pool.step (handle E)) c schedule).world.db := by
    intro schedule
    induction schedule with
    | nil => exact fun c h _ => h
    | cons i rest ih => exact fun c h hs => ih _ (eventsTyped_step h hs) (Pool.allSafe_step hs i)
  exact hinv schedule _ (fun r hr => absurd hr Table.not_mem_empty) hsafe

end Runs

end ActantDb
