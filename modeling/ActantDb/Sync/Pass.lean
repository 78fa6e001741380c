import ActantDb.Sync.Destination

/-!
# What a sync pass does next

A pass of `run_once` reads the cursor, looks up where it stands, selects a batch, writes each event of the batch and then the cursor, each through a temporary file, and begins again when the batch was full. Here this is a monitor over the operations, and every call keeps to it: what holds of all passes, alone, interrupted or side by side, is then a matter of one operation at a time.
-/

namespace ActantDb

open Prog

/-- Where a pass of `run_once` stands. -/
inductive SyncPhase where
  -- a call that is no pass
  | idle
  | start
  | read (cursor : EventId)
  | located (since : Option Position)
  -- the events of the batch that are not written yet; with all of them written, the cursor is next
  | pushing (batch todo : List AgentEvent) (written : Bool)
  | drained
  | failed
deriving DecidableEq

structure SyncPass where
  workspaceId : WorkspaceId
  batchSize : Nat
  phase : SyncPhase
deriving DecidableEq

namespace SyncPass

def begin (ws : WorkspaceId) (batchSize : Nat) : SyncPass := ⟨ws, batchSize, .start⟩

def at_ (p : SyncPass) (phase : SyncPhase) : SyncPass := { p with phase := phase }

@[simp] theorem at_workspaceId (p : SyncPass) (phase : SyncPhase) :
    (p.at_ phase).workspaceId = p.workspaceId := rfl

@[simp] theorem at_batchSize (p : SyncPass) (phase : SyncPhase) :
    (p.at_ phase).batchSize = p.batchSize := rfl

@[simp] theorem at_phase (p : SyncPass) (phase : SyncPhase) : (p.at_ phase).phase = phase := rfl

/-- The answer to a read of the cursor file. -/
def afterCursor : Except IoError (Option EventId) → SyncPhase
  | .ok none => .located none
  | .ok (some id) => .read id
  | .error _ => .failed

def afterBatch : Except SqlError (List AgentEvent) → SyncPhase
  | .ok [] => .drained
  | .ok (e :: rest) => .pushing (e :: rest) (e :: rest) false
  | .error _ => .failed

def afterWrite : SyncPhase → SyncPhase
  | .pushing batch todo _ => .pushing batch todo true
  | phase => phase

/-- An event is at its path, or the cursor is. -/
def afterRename (batchSize : Nat) : SyncPhase → SyncPhase
  | .pushing batch (_ :: rest) _ => .pushing batch rest false
  | .pushing batch [] _ => if batch.length < batchSize then .drained else .start
  | phase => phase

/-- A step that may fail. -/
def unlessFailed {ε α : Type} (p : SyncPass) (r : Except ε α) (phase : SyncPhase) : SyncPass :=
  match r with
  | .ok _ => p.at_ phase
  | .error _ => p.at_ .failed

def next (p : SyncPass) : (o : SyncOp) → o.Res → SyncPass
  | .base _, _ => p
  | .readToString _, r => p.at_ (afterCursor (parseCursor r))
  | .createdAt id _, r =>
    match r with
    | .ok created => p.at_ (.located (created.map fun t => (t, id)))
    | .error _ => p.at_ .failed
  | .eventsAfter _ _ _, r => p.at_ (afterBatch r)
  | .createDirAll _, r => p.unlessFailed r p.phase
  | .write _ _, r => p.unlessFailed r (afterWrite p.phase)
  | .rename _ _, r => p.unlessFailed r (afterRename p.batchSize p.phase)

/-- The file that is next: of the first event to be written, or the cursor's with the last of the batch. -/
def item (d : FilesystemDestination) (ws : WorkspaceId) (batch : List AgentEvent) :
    List AgentEvent → Option (FilePath × FilePath × Contents)
  | e :: _ => some (d.eventPath ws e, d.eventTmp ws e, .json e)
  | [] => batch.getLast?.map fun last => (d.cursorPath ws, d.cursorTmp ws, .text last.id)

def allowed (d : FilesystemDestination) (p : SyncPass) : SyncOp → Prop
  | .base _ => p.phase = .idle
  | .readToString path => p.phase = .start ∧ path = d.cursorPath p.workspaceId
  | .createdAt id ws => p.phase = .read id ∧ ws = p.workspaceId
  | .eventsAfter ws since limit =>
    p.phase = .located since ∧ ws = p.workspaceId ∧ limit = p.batchSize
  | .createDirAll _ => ∃ batch todo, p.phase = .pushing batch todo false
  | .write tmp contents => ∃ batch todo path,
    p.phase = .pushing batch todo false ∧ item d p.workspaceId batch todo = some (path, tmp, contents)
  | .rename tmp path => ∃ batch todo contents,
    p.phase = .pushing batch todo true ∧ item d p.workspaceId batch todo = some (path, tmp, contents)

end SyncPass

def syncMonitor (d : FilesystemDestination) : Monitor SyncOp SyncOp.Res SyncPass where
  allowed := SyncPass.allowed d
  next := SyncPass.next

/-- Where a call begins. -/
def SyncCall.pass : SyncCall → SyncPass
  | .runOnce ws batchSize _ => .begin ws batchSize
  | _ => ⟨"", 0, .idle⟩

section Next

variable {d : FilesystemDestination} {p : SyncPass} {o : SyncOp}

theorem SyncPass.next_failed {r : Except IoError Unit} {phase : SyncPhase} (h : ∃ err, r = .error err) :
    p.unlessFailed r phase = p.at_ .failed := by
  obtain ⟨err, rfl⟩ := h
  rfl

theorem item_cons {ws : WorkspaceId} {batch rest : List AgentEvent} {e : AgentEvent} {path tmp : FilePath}
    {contents : Contents} (h : SyncPass.item d ws batch (e :: rest) = some (path, tmp, contents)) :
    path = d.eventPath ws e ∧ tmp = d.eventTmp ws e ∧ contents = .json e := by
  rw [SyncPass.item, Option.some.injEq, Prod.mk.injEq, Prod.mk.injEq] at h
  exact ⟨h.1.symm, h.2.1.symm, h.2.2.symm⟩

theorem item_nil {ws : WorkspaceId} {batch : List AgentEvent} {path tmp : FilePath} {contents : Contents}
    (h : SyncPass.item d ws batch [] = some (path, tmp, contents)) :
    ∃ last, batch.getLast? = some last ∧ path = d.cursorPath ws ∧ tmp = d.cursorTmp ws ∧ contents = .text last.id := by
  obtain ⟨last, hlast, heq⟩ := Option.map_eq_some_iff.mp h
  rw [Prod.mk.injEq, Prod.mk.injEq] at heq
  exact ⟨last, hlast, heq.1.symm, heq.2.1.symm, heq.2.2.symm⟩

theorem next_batchSize (p : SyncPass) (o : SyncOp) (r : o.Res) : (p.next o r).batchSize = p.batchSize := by
  cases o with
  | createdAt => cases r <;> rfl
  | createDirAll | write | rename => cases r <;> rfl
  | _ => rfl

/-- Only between its start and its end does a pass do anything. -/
theorem not_allowed {phase : SyncPhase} (hphase : p.phase = phase)
    (h : phase = .idle ∨ phase = .drained) (ho : ∀ b, o ≠ .base b) : ¬ p.allowed d o := by
  have hne : p.phase ≠ .start ∧ (∀ id, p.phase ≠ .read id) ∧ (∀ since, p.phase ≠ .located since) ∧
      ∀ batch todo written, p.phase ≠ .pushing batch todo written := by
    rw [hphase]
    rcases h with rfl | rfl <;>
      exact ⟨SyncPhase.noConfusion, fun _ => SyncPhase.noConfusion, fun _ => SyncPhase.noConfusion,
        fun _ _ _ => SyncPhase.noConfusion⟩
  intro hallowed
  cases o with
  | base b => exact ho b rfl
  | readToString => exact hne.1 hallowed.1
  | createdAt => exact hne.2.1 _ hallowed.1
  | eventsAfter => exact hne.2.2.1 _ hallowed.1
  | createDirAll =>
    obtain ⟨batch, todo, hpushing⟩ := hallowed
    exact hne.2.2.2 _ _ _ hpushing
  | write | rename =>
    obtain ⟨batch, todo, x, hpushing, -⟩ := hallowed
    exact hne.2.2.2 _ _ _ hpushing

end Next

/-! ### The calls keep to it -/

section Safe

variable {d : FilesystemDestination} {p : SyncPass}

/-- Returns a value in a phase that `Q` allows for it, or fails before it has drained. -/
abbrev ReturnsIn {α : Type} (p : SyncPass) (Q : α → SyncPhase → Prop) :
    SyncPass → Except SyncError α → Prop
  | l, .ok a => ∃ phase, l = p.at_ phase ∧ Q a phase
  | l, .error _ => l.phase ≠ .drained

theorem cursor_safe (hphase : p.phase = .start) :
    Safe (syncMonitor d) (ReturnsIn p fun c phase => phase = SyncPass.afterCursor (.ok c)) p
      (d.cursor p.workspaceId) := by
  refine ⟨⟨hphase, rfl⟩, fun r => ?_⟩
  beta_reduce
  simp only [syncMonitor, SyncPass.next]
  cases parseCursor r with
  | ok c => exact ⟨_, rfl, rfl⟩
  | error e => exact fun h => SyncPhase.noConfusion h

theorem eventsAfter_safe {since : Option EventId}
    (hphase : p.phase = SyncPass.afterCursor (.ok since)) :
    Safe (syncMonitor d) (ReturnsIn p fun batch phase => phase = SyncPass.afterBatch (.ok batch)) p
      (eventsAfter p.workspaceId since p.batchSize) := by
  have hselect : ∀ (q : SyncPass) (position : Option Position), q.phase = .located position →
      q.workspaceId = p.workspaceId → q.batchSize = p.batchSize →
      Safe (syncMonitor d) (ReturnsIn p fun batch phase => phase = SyncPass.afterBatch (.ok batch)) q
        (.performOr (.eventsAfter p.workspaceId position p.batchSize) id .storage) := by
    intro q position hq hws hsize
    refine ⟨⟨hq, hws.symm, hsize.symm⟩, fun r => ?_⟩
    have hat : (syncMonitor d).next q (.eventsAfter p.workspaceId position p.batchSize) r =
        p.at_ (SyncPass.afterBatch r) := by
      simp only [syncMonitor, SyncPass.next, SyncPass.at_, hws, hsize]
    rw [hat]
    cases r with
    | ok batch => exact ⟨_, rfl, rfl⟩
    | error e => exact fun h => SyncPhase.noConfusion h
  cases since with
  | none => exact hselect p none hphase rfl rfl
  | some id =>
    refine ⟨⟨hphase, rfl⟩, fun r => ?_⟩
    cases r with
    | error e => exact fun h => SyncPhase.noConfusion h
    | ok created => exact hselect _ _ rfl rfl rfl

theorem replace_safe {batch todo : List AgentEvent} {path tmp : FilePath} {contents : Contents}
    (hphase : p.phase = .pushing batch todo false)
    (hitem : SyncPass.item d p.workspaceId batch todo = some (path, tmp, contents)) :
    Safe (syncMonitor d)
      (ReturnsIn p fun (_ : Unit) phase =>
        phase = SyncPass.afterRename p.batchSize (.pushing batch todo true)) p
      (FilesystemDestination.replace path tmp contents) := by
  refine ⟨⟨batch, todo, hphase⟩, fun r => ?_⟩
  cases r with
  | error e => exact fun h => SyncPhase.noConfusion h
  | ok u =>
    refine ⟨⟨batch, todo, path, hphase, hitem⟩, fun r => ?_⟩
    cases r with
    | error e => exact fun h => SyncPhase.noConfusion h
    | ok u =>
      have hwritten : ((syncMonitor d).next ((syncMonitor d).next p (.createDirAll path.parent) (.ok u))
          (.write tmp contents) (.ok ())) = p.at_ (.pushing batch todo true) := by
        simp only [syncMonitor, SyncPass.next, SyncPass.unlessFailed, SyncPass.at_, hphase,
          SyncPass.afterWrite]
      refine ⟨?_, fun r => ?_⟩
      · rw [hwritten]
        exact ⟨batch, todo, contents, rfl, hitem⟩
      · rw [hwritten]
        cases r with
        | error e => exact fun h => SyncPhase.noConfusion h
        | ok u => exact ⟨_, rfl, rfl⟩

theorem writeEvents_safe {batch : List AgentEvent} (todo : List AgentEvent) {p : SyncPass}
    (hphase : p.phase = .pushing batch todo false) :
    Safe (syncMonitor d)
      (ReturnsIn p fun (_ : Unit) phase => phase = .pushing batch [] false) p
      (d.writeEvents p.workspaceId todo) := by
  induction todo generalizing p with
  | nil => exact ⟨_, by rw [SyncPass.at_, ← hphase], rfl⟩
  | cons e rest ih =>
    refine safe_bind ((replace_safe hphase rfl).mono fun l r hr => ?_)
    cases r with
    | error err => exact hr
    | ok u =>
      obtain ⟨phase, rfl, rfl⟩ := hr
      exact ih (p := p.at_ _) rfl

theorem push_safe {batch : List AgentEvent} (hbatch : batch ≠ [])
    (hphase : p.phase = .pushing batch batch false) :
    Safe (syncMonitor d)
      (ReturnsIn p fun _ phase =>
        phase = if batch.length < p.batchSize then .drained else .start) p
      (d.push p.workspaceId batch) := by
  obtain ⟨last, hlast⟩ : ∃ last, batch.getLast? = some last :=
    ⟨_, List.getLast?_eq_some_getLast hbatch⟩
  rw [FilesystemDestination.push, hlast]
  refine safe_bind ((writeEvents_safe batch hphase).mono fun l r hr => ?_)
  cases r with
  | error e => exact hr
  | ok u =>
    obtain ⟨phase, rfl, rfl⟩ := hr
    have hitem : SyncPass.item d p.workspaceId batch [] =
        some (d.cursorPath p.workspaceId, d.cursorTmp p.workspaceId, .text last.id) := by
      rw [SyncPass.item, hlast]
      rfl
    refine safe_bind ((replace_safe (p := p.at_ _) rfl hitem).mono fun l r hr => ?_)
    cases r with
    | error e => exact hr
    | ok u =>
      obtain ⟨phase, rfl, rfl⟩ := hr
      exact ⟨_, rfl, rfl⟩

theorem runOnceLoop_safe (turns : Nat) {p : SyncPass} (hphase : p.phase = .start) (stats : SyncStats) :
    Safe (syncMonitor d) (ReturnsIn p fun _ phase => phase = .drained) p
      (runOnceLoop d p.workspaceId p.batchSize turns stats) := by
  induction turns generalizing p stats with
  | zero =>
    show p.phase ≠ .drained
    rw [hphase]
    exact fun h => SyncPhase.noConfusion h
  | succ n ih =>
    refine safe_bind ((cursor_safe hphase).mono fun l r hr => ?_)
    cases r with
    | error e => exact hr
    | ok cursor =>
      obtain ⟨phase, rfl, hcursor⟩ := hr
      refine safe_bind ((eventsAfter_safe (p := p.at_ phase) hcursor).mono fun l r hr => ?_)
      cases r with
      | error e => exact hr
      | ok batch =>
        obtain ⟨phase, rfl, rfl⟩ := hr
        dsimp only
        split
        · rename_i hempty
          rw [hempty]
          exact ⟨_, rfl, rfl⟩
        · rename_i hbatch
          have hpushing : SyncPass.afterBatch (.ok batch) = .pushing batch batch false := by
            cases batch with
            | nil => exact absurd rfl hbatch
            | cons e rest => rfl
          refine safe_bind ((push_safe (p := p.at_ _) hbatch hpushing).mono fun l r hr => ?_)
          cases r with
          | error e => exact hr
          | ok newCursor =>
            obtain ⟨phase, rfl, hend⟩ := hr
            rw [SyncPass.at_batchSize] at hend
            by_cases hpartial : batch.length < p.batchSize
            · rw [if_pos hpartial] at hend
              simp only [if_pos hpartial]
              exact ⟨phase, rfl, hend⟩
            · rw [if_neg hpartial] at hend
              simp only [if_neg hpartial]
              exact ih (p := p.at_ phase) hend _

/-- A pass that returns has drained. -/
def SyncReturn (l : SyncPass) (r : Except SyncError SyncReply) : Prop :=
  ∀ reply, r = .ok reply → l.phase = .idle ∨ l.phase = .drained

/-- Every call keeps to the monitor. -/
theorem syncIssue_safe (X : Crates) (call : SyncCall) :
    Safe (syncMonitor d) SyncReturn call.pass (call.issue X d) := by
  have hidle : ∀ {α : Type} (a : Action α) (f : α → SyncReply),
      Safe (syncMonitor d) SyncReturn ⟨"", 0, .idle⟩ (f <$> a.lift) := by
    intro α a f
    have hsteady : Steady (syncMonitor d) (fun l => l.phase = .idle) a.lift := by
      apply steady_embed
      intro l o hl
      exact ⟨hl, fun r => hl⟩
    refine safe_bind ((hsteady.safe _ rfl).mono fun l r hl => ?_)
    cases r with
    | error e =>
      intro reply h
      cases h
    | ok x => exact fun reply _ => Or.inl hl
  cases call with
  | appendEvent e => exact hidle _ _
  | ingestEvents batch => exact hidle _ _
  | runOnce ws batchSize turns =>
    refine safe_bind ((runOnceLoop_safe turns (p := .begin ws batchSize) rfl _).mono fun l r hr => ?_)
    cases r with
    | error e =>
      intro reply h
      cases h
    | ok stats =>
      obtain ⟨phase, rfl, rfl⟩ := hr
      exact fun reply _ => Or.inr rfl

end Safe

end ActantDb
