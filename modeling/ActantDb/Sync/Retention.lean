import ActantDb.Lib.Run
import ActantDb.Sync.Pass

/-!
# Sync and retention

A pass takes up after the event that the cursor names, whose timestamp it looks up in the store. Retention deletes events from the store, that one among them; the lookup then finds nothing and the pass reads from the beginning. So it does where the destination reads the cursor back as another id than was written, and two passes side by side move the cursor each from where it read.

The destination is any that a sync has: it takes the events of a batch one by one and then the cursor. In the runs in which each pass selects from where the cursor stands, or finds nothing stored up to there, and no other pass has moved the cursor when it moves it, the cursor only moves forward and nothing behind it is read again (`advances_of_undisturbed`).
-/

namespace ActantDb

namespace Retention

/-! ### Purging -/

structure RetentionPolicy where
  keepDays : Nat
  alwaysKeepAtLeast : Sensitivity

def nanosecondsPerDay : Int := 86400 * 1000000000

/-- The first moment of the year -9999, before which there is no `OffsetDateTime`. -/
def earliest : Int := -377705116800 * 1000000000

/-- Whether to keep an event, by the time it is `now`; the cutoff is computed by a subtraction that may panic. -/
def RetentionPolicy.shouldRetain (policy : RetentionPolicy) (parse : String → Option Int) (now : Int)
    (createdAt : String) (sens : Sensitivity) : Option Bool :=
  if policy.alwaysKeepAtLeast.rank ≤ sens.rank then some true
  else
    match parse createdAt with
    | none => some true
    | some t =>
      let cutoff := now - policy.keepDays * nanosecondsPerDay
      if cutoff < earliest then none else some (decide (cutoff ≤ t))

/-- A call of `purge_by_policy`, with the rows it has read and not yet looked at. -/
structure Purge where
  policy : RetentionPolicy
  rows : List AgentEvent

/-! ### The store, the destination and the passes -/

/-- What the crates of the environment do: parse a timestamp, and read the cursor back. -/
structure SyncCrates where
  parse : String → Option Int
  readBack : EventId → Option EventId

structure Uploading (ι κ : Type) where
  db : Db
  cursor : Option EventId
  -- where the event stands that the cursor was last set to
  position : Option Position
  destination : List AgentEvent
  pass : ι → SyncPass
  -- where the cursor stood when the pass selected its batch
  selectedAt : ι → Option Position
  purge : κ → Purge

variable {ι κ : Type} [DecidableEq ι] [DecidableEq κ]

/-- Who goes next. -/
inductive Turn (ι κ : Type) where
  -- an event is appended or ingested
  | insert (r : AgentEventRow)
  | runOnce (i : ι) (batchSize : Nat)
  | pass (i : ι)
  -- a call of the pass fails
  | passFails (i : ι)
  | purgeByPolicy (j : κ) (policy : RetentionPolicy)
  | purge (j : κ) (now : Int)
  | purgeFails (j : κ)

namespace Uploading

variable (X : SyncCrates) (ws : WorkspaceId) (s : Uploading ι κ)

def moves (i : ι) (phase : SyncPhase) : Uploading ι κ :=
  { s with pass := Function.update s.pass i ((s.pass i).at_ phase) }

/-- `DELETE FROM agent_event WHERE id = ?`. -/
def delete (id : EventId) : Uploading ι κ :=
  { s with db := { s.db with agentEvent := s.db.agentEvent.filter fun r => r.event.id ≠ id } }

/-- What the pass is about to read. -/
def selection (i : ι) (since : Option Position) : List AgentEvent :=
  (s.db.eventsBeyond ws since).take (s.pass i).batchSize

/-- The next step of the pass: each phase goes on as the pass of `run_once` does. -/
def passStep (i : ι) : Uploading ι κ :=
  match (s.pass i).phase with
  | .start => s.moves i (SyncPass.afterCursor (.ok (s.cursor.bind X.readBack)))
  | .read id => s.moves i (.located ((s.db.createdAt id ws).map fun t => (t, id)))
  | .located since =>
    { s.moves i (SyncPass.afterBatch (.ok (s.selection ws i since))) with
      selectedAt := Function.update s.selectedAt i s.position }
  | .pushing batch (e :: rest) _ =>
    { s.moves i (.pushing batch rest false) with destination := e :: s.destination }
  | .pushing batch [] _ =>
    match batch.getLast? with
    | none => s
    | some last =>
      { s.moves i (SyncPass.afterRename (s.pass i).batchSize (.pushing batch [] true)) with
        cursor := some last.id
        position := some last.position }
  | .idle | .drained | .failed => s

/-- The next row of the purge is looked at, and deleted unless it is kept. -/
def purgeStep (j : κ) (now : Int) : Uploading ι κ :=
  match (s.purge j).rows with
  | [] => s
  | e :: rest =>
    let purge (rows : List AgentEvent) := Function.update s.purge j { s.purge j with rows := rows }
    match (s.purge j).policy.shouldRetain X.parse now e.createdAt e.sensitivity with
    | none => { s with purge := purge [] }
    | some true => { s with purge := purge rest }
    | some false => { s.delete e.id with purge := purge rest }

def step (s : Uploading ι κ) : Turn ι κ → Uploading ι κ
  | .insert r =>
    match s.db.agentEvent.insert? r with
    | none => s
    | some agentEvent => { s with db := { s.db with agentEvent := agentEvent } }
  | .runOnce i batchSize => { s with pass := Function.update s.pass i (.begin ws batchSize) }
  | .pass i => s.passStep X ws i
  | .passFails i => s.moves i .failed
  | .purgeByPolicy j policy =>
    { s with purge := Function.update s.purge j ⟨policy, s.db.stored.filter fun e => e.workspaceId = ws⟩ }
  | .purge j now => s.purgeStep X j now
  | .purgeFails j => { s with purge := Function.update s.purge j { s.purge j with rows := [] } }

/-! ### A cursor that never regresses -/

/-- What the turn reads for upload. -/
def reads : Turn ι κ → List AgentEvent
  | .pass i =>
    match (s.pass i).phase with
    | .located since => s.selection ws i since
    | _ => []
  | _ => []

/-- The cursor does not move back, and what is read anew of the destination is beyond it. -/
structure Advances (turn : Turn ι κ) : Prop where
  cursor : ∀ p ∈ s.position, ∃ q ∈ (s.step X ws turn).position, toLex p ≤ toLex q
  read : ∀ e ∈ s.reads ws turn, e ∈ s.destination → e.follows s.position

/-- A pass that selects does so from where the cursor stands, unless nothing up to there is stored; and a pass moves the cursor from where it stood when the pass selected. -/
def UndisturbedIn (i : ι) : SyncPhase → Prop
  | .located since => since = s.position ∨ ∀ e ∈ s.db.stored, e.workspaceId = ws → e.follows s.position
  | .pushing _ [] _ => s.position = s.selectedAt i
  | _ => True

def Undisturbed (s : Uploading ι κ) : Turn ι κ → Prop
  | .pass i => s.UndisturbedIn ws i (s.pass i).phase
  | _ => True

instance decidableUndisturbedIn (i : ι) : (phase : SyncPhase) → Decidable (s.UndisturbedIn ws i phase)
  | .located _ => inferInstanceAs (Decidable (_ ∨ ∀ e ∈ s.db.stored, _))
  | .pushing _ [] _ => inferInstanceAs (Decidable (_ = _))
  | .pushing _ (_ :: _) _ | .idle | .start | .read _ | .drained | .failed => instDecidableTrue

instance decidableUndisturbed : (turn : Turn ι κ) → Decidable (s.Undisturbed ws turn)
  | .pass i => decidableUndisturbedIn ws s i _
  | .insert _ | .runOnce _ _ | .passFails _ | .purgeByPolicy _ _ | .purge _ _ | .purgeFails _ => instDecidableTrue

/-- No pass has begun. -/
def Resting : Prop := ∀ i, (s.pass i).phase = .idle

/-- A pass that pushes has selected beyond where the cursor then stood. -/
def SelectedBeyond : Prop :=
  ∀ i batch todo written, (s.pass i).phase = .pushing batch todo written →
    ∀ e ∈ batch, e.follows (s.selectedAt i)

/-! ### What a turn does to the passes -/

variable {X : SyncCrates} {ws : WorkspaceId} {s s' : Uploading ι κ} {i : ι}

omit [DecidableEq ι] [DecidableEq κ] in
theorem SelectedBeyond.of_same (h : s.SelectedBeyond) (hpass : s'.pass = s.pass)
    (hselected : s'.selectedAt = s.selectedAt) : s'.SelectedBeyond := by
  intro i batch todo written hphase
  rw [hpass] at hphase
  rw [hselected]
  exact h i batch todo written hphase

omit [DecidableEq κ] in
/-- Only the pass that goes on has a new phase. -/
theorem SelectedBeyond.moves (h : s.SelectedBeyond) {phase : SyncPhase} {selectedAt : Option Position}
    (hpass : s'.pass = (s.moves i phase).pass)
    (hselected : s'.selectedAt = Function.update s.selectedAt i selectedAt)
    (hphase : ∀ batch todo written, phase = .pushing batch todo written → ∀ e ∈ batch, e.follows selectedAt) :
    s'.SelectedBeyond := by
  intro j batch todo written hj
  rw [hpass] at hj
  change (Function.update s.pass i ((s.pass i).at_ phase) j).phase = _ at hj
  rw [hselected]
  by_cases hji : j = i
  · subst hji
    rw [Function.update_self, SyncPass.at_phase] at hj
    rw [Function.update_self]
    exact hphase batch todo written hj
  · rw [Function.update_of_ne hji] at hj
    rw [Function.update_of_ne hji]
    exact h j batch todo written hj

theorem afterCursor_ne_pushing (cursor : Option EventId) (batch todo : List AgentEvent) (written : Bool) :
    SyncPass.afterCursor (.ok cursor) ≠ .pushing batch todo written := by
  cases cursor <;> simp [SyncPass.afterCursor]

theorem afterRename_ne_pushing (batchSize : Nat) (done batch todo : List AgentEvent) (written : Bool) :
    SyncPass.afterRename batchSize (.pushing done [] true) ≠ .pushing batch todo written := by
  rw [SyncPass.afterRename]
  split <;> simp

theorem eq_of_afterBatch {selected batch todo : List AgentEvent} {written : Bool}
    (h : SyncPass.afterBatch (.ok selected) = .pushing batch todo written) : batch = selected := by
  cases selected with
  | nil => simp [SyncPass.afterBatch] at h
  | cons e rest =>
    simp only [SyncPass.afterBatch, SyncPhase.pushing.injEq] at h
    exact h.1.symm

omit [DecidableEq ι] [DecidableEq κ] in
/-- A selection from where the cursor stands is beyond it, and so is every selection when nothing up to there is stored. -/
theorem follows_of_selected {since : Option Position} {e : AgentEvent}
    (hsince : since = s.position ∨ ∀ e ∈ s.db.stored, e.workspaceId = ws → e.follows s.position)
    (he : e ∈ s.selection ws i since) : e.follows s.position := by
  obtain ⟨hstored, hws, hfollows⟩ := mem_eventsBeyond.mp (List.mem_of_mem_take he)
  rcases hsince with rfl | hnone
  · exact hfollows
  · exact hnone e hstored hws

theorem advances_of_same {turn : Turn ι κ} (hposition : (s.step X ws turn).position = s.position)
    (hreads : s.reads ws turn = []) : s.Advances X ws turn := by
  refine ⟨fun p hp => ⟨p, ?_, le_refl _⟩, fun e he => ?_⟩
  · rwa [hposition]
  · rw [hreads] at he
    cases he

/-! ### A step of a pass -/

section Pass

variable (hbeyond : s.SelectedBeyond) (hundisturbed : s.Undisturbed ws (.pass i : Turn ι κ))
include hbeyond hundisturbed

theorem pass_advances : s.Advances X ws (.pass i) := by
  rw [Undisturbed] at hundisturbed
  have hsame : ∀ phase, (s.moves i phase).position = s.position := fun _ => rfl
  cases hphase : (s.pass i).phase with
  | located since =>
    rw [hphase] at hundisturbed
    refine ⟨fun p hp => ⟨p, ?_, le_refl _⟩, fun e he _ => ?_⟩
    · rw [step, passStep, hphase]
      exact hp
    · rw [reads, hphase] at he
      exact follows_of_selected hundisturbed he
  | pushing batch todo written =>
    rw [hphase] at hundisturbed
    cases todo with
    | cons e rest =>
      apply advances_of_same
      · rw [step, passStep, hphase]
        rfl
      · rw [reads, hphase]
    | nil =>
      cases hlast : batch.getLast? with
      | none =>
        apply advances_of_same
        · rw [step, passStep, hphase]
          dsimp only
          rw [hlast]
        · rw [reads, hphase]
      | some last =>
        refine ⟨fun p hp => ⟨last.position, ?_, ?_⟩, fun e he => ?_⟩
        · rw [step, passStep, hphase]
          dsimp only
          rw [hlast]
          rfl
        · -- the last event of the batch is beyond where the cursor stood at the selection, and still stands
          have hafter := hbeyond i batch [] written hphase last (List.mem_of_getLast? hlast)
          rw [← hundisturbed] at hafter
          exact (isAfter_iff_lex.mp (hafter p hp)).le
        · rw [reads, hphase] at he
          cases he
  | start | read =>
    apply advances_of_same
    · rw [step, passStep, hphase]
      rfl
    · rw [reads, hphase]
  | idle | drained | failed =>
    apply advances_of_same
    · rw [step, passStep, hphase]
    · rw [reads, hphase]

omit [DecidableEq κ] in
theorem pass_selectedBeyond : (s.passStep X ws i).SelectedBeyond := by
  rw [Undisturbed] at hundisturbed
  have hupdate : s.selectedAt = Function.update s.selectedAt i (s.selectedAt i) :=
    (Function.update_eq_self i s.selectedAt).symm
  cases hphase : (s.pass i).phase with
  | start =>
    rw [passStep, hphase]
    exact hbeyond.moves rfl hupdate fun batch todo written h => absurd h (afterCursor_ne_pushing _ batch todo written)
  | read id =>
    rw [passStep, hphase]
    exact hbeyond.moves rfl hupdate fun batch todo written h => by cases h
  | located since =>
    rw [hphase] at hundisturbed
    rw [passStep, hphase]
    refine hbeyond.moves rfl rfl fun batch todo written h e he => ?_
    rw [eq_of_afterBatch h] at he
    exact follows_of_selected hundisturbed he
  | pushing batch todo written =>
    have hbatch := hbeyond i batch todo written hphase
    cases todo with
    | cons e rest =>
      rw [passStep, hphase]
      refine hbeyond.moves rfl hupdate fun batch' todo' written' h => ?_
      rw [SyncPhase.pushing.injEq] at h
      rwa [← h.1]
    | nil =>
      rw [passStep, hphase]
      dsimp only
      cases batch.getLast? with
      | none => exact hbeyond
      | some last =>
        exact hbeyond.moves rfl hupdate fun batch' todo' written' h =>
          absurd h (afterRename_ne_pushing _ batch batch' todo' written')
  | idle | drained | failed =>
    rw [passStep, hphase]
    exact hbeyond

end Pass

/-! ### Runs -/

omit [DecidableEq ι] in
theorem purgeStep_same (j : κ) (now : Int) :
    (s.purgeStep X j now).pass = s.pass ∧ (s.purgeStep X j now).selectedAt = s.selectedAt ∧
      (s.purgeStep X j now).position = s.position := by
  rw [purgeStep]
  split
  · exact ⟨rfl, rfl, rfl⟩
  · dsimp only
    split <;> exact ⟨rfl, rfl, rfl⟩

/-- A turn that is not disturbed advances, and leaves what the passes have selected beyond where the cursor stood. -/
theorem step_advances {turn : Turn ι κ} (hbeyond : s.SelectedBeyond) (hundisturbed : s.Undisturbed ws turn) :
    s.Advances X ws turn ∧ (s.step X ws turn).SelectedBeyond := by
  have hupdate : ∀ i, s.selectedAt = Function.update s.selectedAt i (s.selectedAt i) :=
    fun i => (Function.update_eq_self i s.selectedAt).symm
  cases turn with
  | insert r =>
    cases hinsert : s.db.agentEvent.insert? r <;>
      exact ⟨advances_of_same (by rw [step, hinsert]) rfl, by rw [step, hinsert]; exact hbeyond.of_same rfl rfl⟩
  | runOnce i batchSize =>
    refine ⟨advances_of_same rfl rfl, fun j batch todo written hphase => ?_⟩
    change (Function.update s.pass i (.begin ws batchSize) j).phase = _ at hphase
    by_cases hji : j = i
    · subst hji
      rw [Function.update_self, SyncPass.begin] at hphase
      cases hphase
    · rw [Function.update_of_ne hji] at hphase
      exact hbeyond j batch todo written hphase
  | pass i => exact ⟨pass_advances hbeyond hundisturbed, pass_selectedBeyond hbeyond hundisturbed⟩
  | passFails i =>
    exact ⟨advances_of_same rfl rfl, hbeyond.moves rfl (hupdate i) fun batch todo written h => by cases h⟩
  | purgeByPolicy j policy => exact ⟨advances_of_same rfl rfl, hbeyond.of_same rfl rfl⟩
  | purge j now =>
    obtain ⟨hpass, hselected, hposition⟩ := purgeStep_same (X := X) (s := s) j now
    exact ⟨advances_of_same hposition rfl, hbeyond.of_same hpass hselected⟩
  | purgeFails j => exact ⟨advances_of_same rfl rfl, hbeyond.of_same rfl rfl⟩

/-- **The cursor of a sync never regresses where no pass is disturbed**: in every run of passes, purges and arrivals, whichever events are deleted. -/
theorem advances_of_undisturbed (hresting : s.Resting) {turns : List (Turn ι κ)}
    (h : Lts.EveryStep (step X ws) (Undisturbed ws) s turns) :
    ∀ before turn after, turns = before ++ turn :: after → (Lts.run (step X ws) s before).Advances X ws turn := by
  rintro before turn after rfl
  rw [Lts.everyStep_append, Lts.everyStep_cons] at h
  have hstart : s.SelectedBeyond := by
    intro i batch todo written hphase
    rw [hresting i] at hphase
    cases hphase
  have hbeyond := Lts.run_invariant SelectedBeyond (fun _ _ hs hturn => (step_advances hs hturn).2) hstart h.1
  exact (step_advances hbeyond h.2.1).1

/-! ### An event the cursor names is purged -/

/-- The timestamps of the sample are read, and the cursor as it was written. -/
def sampleCrates : SyncCrates where
  parse text :=
    if text = "2026-05-18T12:00:00Z" then some (1779105600 * 1000000000)
    else if text = "2026-05-19T12:00:00Z" then some (1779192000 * 1000000000)
    else none
  readBack := some

/-- One task syncs, another purges; of the two events the first is always kept. -/
def sample : Uploading Unit Unit where
  db := (SyncWorld.ledger [{ AgentEvent.sample "evt_1" "2026-05-18T12:00:00Z" with sensitivity := .high },
    .sample "evt_2" "2026-05-19T12:00:00Z"] (by decide)).world.db
  cursor := none
  position := none
  destination := []
  pass _ := ⟨"ws_demo", 0, .idle⟩
  selectedAt _ := none
  purge _ := ⟨⟨365, .high⟩, []⟩

/-- A pass over both events, up to the cursor. -/
def pushed : List (Turn Unit Unit) := [.runOnce () 10, .pass (), .pass (), .pass (), .pass ()]

/-- Both events are looked at, in July of the next year. -/
def purged : List (Turn Unit Unit) :=
  [.purgeByPolicy () ⟨365, .high⟩, .purge () (1814400000 * 1000000000), .purge () (1814400000 * 1000000000)]

/-- The next pass, up to its selection. -/
def resumed : List (Turn Unit Unit) := [.runOnce () 10, .pass (), .pass ()]

theorem pushed_advances : (Lts.run (step sampleCrates "ws_demo") sample pushed).Advances sampleCrates "ws_demo" (.pass ()) := by
  have hundisturbed : Lts.EveryStep (step sampleCrates "ws_demo") (Undisturbed "ws_demo") sample (pushed ++ [.pass ()]) := by
    decide +kernel
  exact advances_of_undisturbed (fun _ => rfl) hundisturbed pushed (.pass ()) [] rfl

/-- With the event of the cursor gone, the first is read for upload again. -/
theorem resumed_reads_again :
    ¬ (Lts.run (step sampleCrates "ws_demo") sample (pushed ++ .pass () :: purged ++ resumed)).Advances sampleCrates "ws_demo"
      (.pass ()) := by
  intro h
  exact absurd h.read (by decide +kernel)

end Uploading

end Retention

end ActantDb
