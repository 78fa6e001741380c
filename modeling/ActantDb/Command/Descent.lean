import ActantDb.Command.Chain
import ActantDb.Lib.HashForest

/-!
# Where the events come from

Dispatches that interleave may chain two events from the same predecessor, and timestamps that sort badly may make a session chain from an event that is not its newest. What no interleaving does is to lose the thread altogether: every event carries the hash of the payload that is stored beside it, and every event is the last one of a chain that starts at the 64 zeros and runs through earlier events of its workspace, and of its session if it has one (`events_descend`).
-/

namespace ActantDb

open HashChain Prog

/-! ### What the engine hands to `append_event` -/

/-- Events are only appended with their payload and its hash. -/
def payloadMonitor (X : Crates) : Monitor Op Op.Res Unit where
  allowed _ o :=
    match o with
    | .sql (.appendEvent e) =>
      ∃ payload, e.payloadInline = some (canonicalJson X payload) ∧
        e.payloadHash = sha256Hex X (asBytes (canonicalJson X payload))
    | .sql (.ingestEvent _) => False
    | _ => True
  next l _ _ := l

variable {X : Crates}

theorem payloadMonitor_blocks : Blocks X (payloadMonitor X) (fun _ => True) := by
  apply Blocks.of_chronicle
  · intro l o h _
    refine ⟨?_, fun _ => trivial⟩
    cases o with
    | now | ulid => trivial
    | sql s => cases s <;> trivial
  · intro ws actor session eventType causalityKind sensitivity payload backrefs
    constructor
    intro l _
    refine ⟨trivial, fun r => ?_⟩
    cases r with
    | error e => trivial
    | ok prev =>
      refine ⟨trivial, fun ulid => ⟨trivial, fun t => ⟨⟨payload, rfl, rfl⟩, fun r => ?_⟩⟩⟩
      cases r with
      | error e => trivial
      | ok r => trivial

/-! ### The chronicle -/

/-- The event that another one may be chained from: of its workspace, and of its session if it has one. -/
def MayFollow (r r' : AgentEventRow) : Prop :=
  r'.event.workspaceId = r.event.workspaceId ∧ (r.event.sessionId = none ∨ r'.event.sessionId = r.event.sessionId)

theorem MayFollow.trans {r r' r'' : AgentEventRow} (h : MayFollow r r') (h' : MayFollow r' r'') : MayFollow r r'' := by
  refine ⟨h'.1.trans h.1, ?_⟩
  rcases h.2 with hnone | hsame
  · exact Or.inl hnone
  · rcases h'.2 with hnone | hsame'
    · exact Or.inl (hsame.symm.trans hnone)
    · exact Or.inr (hsame'.trans hsame)

/-- The payload of an event is stored beside its hash. -/
def Sealed (X : Crates) (e : AgentEvent) : Prop :=
  ∃ payload, e.payloadInline = some (canonicalJson X payload) ∧
    e.payloadHash = sha256Hex X (asBytes (canonicalJson X payload))

structure Descends (X : Crates) (db : Db) : Prop where
  forest : Forest (linkRow X) rowHash MayFollow zeros db.agentEvent.rows
  payload : ∀ r ∈ db.agentEvent.rows, Sealed X r.event

theorem descends_empty : Descends X .empty := ⟨.nil, fun _ h => nomatch h⟩

/-- What was read as the last hash is the hash of an event that is there. -/
def ReadKnown (l : LastRead) (db : Db) : Prop :=
  ∀ ws s h, l = some (ws, s, some h) →
    ∃ r ∈ db.agentEvent.rows, r.event.eventHash = h ∧ r.event.workspaceId = ws ∧ (s = none ∨ r.event.sessionId = s)

theorem known_lastEventHash {db : Db} {ws : WorkspaceId} {s : Option SessionId} {h : String}
    (hlast : db.lastEventHash ws s = some h) :
    ∃ r ∈ db.agentEvent.rows, r.event.eventHash = h ∧ r.event.workspaceId = ws ∧ (s = none ∨ r.event.sessionId = s) := by
  obtain ⟨r, hr, rfl⟩ := Option.map_eq_some_iff.mp hlast
  have hmem := mem_inOrder.mp (List.mem_of_getLast? hr)
  rw [Db.chronicle, List.mem_filter, Bool.and_eq_true, decide_eq_true_eq, Bool.or_eq_true, decide_eq_true_eq,
    Option.isNone_iff_eq_none] at hmem
  exact ⟨r, hmem.1, rfl, hmem.2.1, hmem.2.2⟩

theorem ReadKnown.mono {l : LastRead} {db db' : Db} (h : ReadKnown l db)
    (hrows : ∀ r ∈ db.agentEvent.rows, r ∈ db'.agentEvent.rows) : ReadKnown l db' := by
  intro ws s hash hl
  obtain ⟨r, hr, hknown⟩ := h ws s hash hl
  exact ⟨r, hrows r hr, hknown⟩

/-- One statement of a dispatch, after a read that is known. -/
theorem descends_handle {E : Env} {l : LastRead} {w : World} {o : Op} (h : Descends X w.db) (hread : ReadKnown l w.db)
    (hchain : (chainMonitor X).allowed l o) (hpayload : (payloadMonitor X).allowed () o) :
    Descends X (handle E o w).2.db ∧ (∀ r ∈ w.db.agentEvent.rows, r ∈ (handle E o w).2.db.agentEvent.rows) ∧
      ReadKnown ((chainMonitor X).next l o (handle E o w).1) (handle E o w).2.db := by
  by_cases ho : o.writes = some .agentEvent
  · obtain ⟨e, rfl⟩ := appendEvent_of_allowed hchain ho
    have hnone : ReadKnown ((chainMonitor X).next l (.sql (.appendEvent e)) (handle E (.sql (.appendEvent e)) w).1)
        (handle E (.sql (.appendEvent e)) w).2.db := fun _ _ _ hl => nomatch hl
    rcases handle_appendEvent E e w with ⟨-, hsame⟩ | ⟨-, -, hins⟩
    · rw [hsame] at hnone ⊢
      exact ⟨h, fun _ hr => hr, hnone⟩
    · obtain ⟨-, t, hrow, hdb⟩ := Db.insertEvent_eq_ok.mp hins
      have hrows : (handle E (.sql (.appendEvent e)) w).2.db.agentEvent.rows = w.db.agentEvent.rows ++ [{ event := e }] := by
        rw [hdb]
        exact (Table.insert?_eq_some.mp hrow).2
      refine ⟨?_, fun r hr => by rw [hrows]; exact List.mem_append_left _ hr, hnone⟩
      obtain ⟨prev, hl, hhash⟩ := hchain
      constructor
      case forest =>
        rw [hrows]
        cases prev with
        | none => exact .root h.forest hhash
        | some prev =>
          obtain ⟨r, hr, hprev, hws, hsession⟩ := hread _ _ _ hl
          refine .branch h.forest hr ⟨hws, hsession⟩ ?_
          rw [rowHash, linkRow, rowHash, hprev]
          exact hhash
      case payload =>
        rw [hrows]
        intro r hr
        rcases List.mem_append.mp hr with hr | hr
        · exact h.payload r hr
        · rw [List.mem_singleton.mp hr]
          exact hpayload
  · have hsame := agentEvent_handle (E := E) ho w
    refine ⟨⟨by rw [hsame]; exact h.forest, by rw [hsame]; exact h.payload⟩, fun r hr => by rwa [hsame], ?_⟩
    have hkept : ReadKnown l (handle E o w).2.db := hread.mono fun r hr => by rwa [hsame]
    cases o with
    | now | ulid => exact hkept
    | sql st =>
      cases st with
      | lastEventHash ws s =>
        intro ws' s' hash hl
        simp only [handle] at hl
        rw [hsame]
        split at hl
        · exact hread _ _ _ hl
        · have hanswer : some (ws, s, w.db.lastEventHash ws s) = some (ws', s', some hash) := hl
          rw [Option.some_inj, Prod.mk.injEq, Prod.mk.injEq] at hanswer
          obtain ⟨rfl, rfl, hlast⟩ := hanswer
          exact known_lastEventHash hlast
      | appendEvent => exact absurd rfl ho
      | _ => exact hkept

/-! ### Runs -/

section Runs

variable {ι : Type} [DecidableEq ι] {E : Env}

/-- Every thread's last read is known. -/
def ReadsKnown (X : Crates) (c : DispatchPool ι) : Prop :=
  ∀ i, ReadKnown (Pool.summary (chainMonitor X) none i c.trace) c.world.db

theorem descends_step {c : DispatchPool ι} (h : Descends X c.world.db) (hread : ReadsKnown X c)
    (hchain : Pool.AllSafe (chainMonitor X) (fun _ _ => True) (fun _ => none) c)
    (hpayload : Pool.AllSafe (payloadMonitor X) (fun _ _ => True) (fun _ => ()) c) (i : ι) :
    Descends X (Pool.step (handle E) c i).world.db ∧ ReadsKnown X (Pool.step (handle E) c i) := by
  rcases Pool.step_cases (handle E) c i with ⟨r, -, hsame⟩ | ⟨o, next, hthread, -, hstep⟩
  · rw [hsame]
    exact ⟨h, hread⟩
  · rw [hstep]
    obtain ⟨hdescends, hrows, hknown⟩ := descends_handle (E := E) h (hread i) (hchain.allowed hthread) (hpayload.allowed hthread)
    refine ⟨hdescends, fun j => ?_⟩
    rw [Pool.summary_append]
    split
    · rename_i hij
      rw [← show i = j from hij]
      exact hknown
    · exact (hread j).mono hrows

/-- **Every event descends from the zeros**: it carries the hash of the payload stored beside it, and it is the last one of a chain through earlier events of its workspace, and of its session if it has one, however the dispatches interleave and however their timestamps sort. -/
theorem events_descend (X : Crates) (policy : PolicyDoc) (E : Env) (calls : ι → Call) (schedule : List ι) :
    ∀ r ∈ (Lts.run (Pool.step (handle E)) (Pool.init (World.start .empty) fun i => dispatch X policy (calls i))
        schedule).world.db.agentEvent.rows,
      Sealed X r.event ∧ ∃ chain, (chain ++ [r]).Sublist (Lts.run (Pool.step (handle E))
          (Pool.init (World.start .empty) fun i => dispatch X policy (calls i)) schedule).world.db.agentEvent.rows ∧
        Linked (linkRow X) rowHash zeros (chain ++ [r]) ∧ ∀ r' ∈ chain, MayFollow r r' := by
  have hrun : ∀ (schedule : List ι) (c : DispatchPool ι), Descends X c.world.db → ReadsKnown X c →
      Pool.AllSafe (chainMonitor X) (fun _ _ => True) (fun _ => none) c →
      Pool.AllSafe (payloadMonitor X) (fun _ _ => True) (fun _ => ()) c →
      Descends X (Lts.run (Pool.step (handle E)) c schedule).world.db := by
    intro schedule
    induction schedule with
    | nil => exact fun c h _ _ _ => h
    | cons i rest ih =>
      intro c h hread hchain hpayload
      obtain ⟨h', hread'⟩ := descends_step (E := E) h hread hchain hpayload i
      exact ih _ h' hread' (Pool.allSafe_step hchain i) (Pool.allSafe_step hpayload i)
  have hdescends := hrun schedule (Pool.init (World.start .empty) fun i => dispatch X policy (calls i)) descends_empty
    (fun i ws s h hl => nomatch hl)
    (fun i => (dispatch_steady chainMonitor_blocks policy (calls i)).safe none trivial)
    (fun i => (dispatch_steady payloadMonitor_blocks policy (calls i)).safe () trivial)
  intro r hr
  exact ⟨hdescends.payload r hr, hdescends.forest.ancestry MayFollow.trans hr⟩

end Runs

/-- Also where the session forks. -/
theorem events_descend_bothRead :
    ∃ r ∈ bothRead.world.db.agentEvent.rows, Sealed Crates.sample r.event ∧
      ∃ chain, (chain ++ [r]).Sublist bothRead.world.db.agentEvent.rows ∧
        Linked (linkRow Crates.sample) rowHash zeros (chain ++ [r]) ∧ ∀ r' ∈ chain, MayFollow r r' := by
  obtain ⟨r, hr⟩ : ∃ r, r ∈ bothRead.world.db.agentEvent.rows := List.exists_mem_of_length_pos (by decide +kernel)
  exact ⟨r, hr, events_descend Crates.sample alphaDemoPolicy .wholeSeconds createAndAppend _ r hr⟩

end ActantDb
