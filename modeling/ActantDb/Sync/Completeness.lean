import Mathlib.Data.Fintype.Basic
import ActantDb.Sync.Pass

/-!
# Completeness of sync

A pass asks for what sorts after the cursor, so an event that is inserted with a position the cursor has passed is never copied. Timestamps are taken before the insertion, and ingested events carry their sender's, so that happens. Two more ways of losing an event are in the files: two events whose ids differ in characters that no file name has share one object, and a cursor is trimmed when it is read, so it may name another event than the one that was written.

Where each event arrives beyond every position that a cursor or a pass in progress stands for, and none shares its files or its trimmed id with another, a pass that returns has left all that it read at the destination (`sync_complete`).
-/

namespace ActantDb

open Prog

variable {ι : Type} [DecidableEq ι]

/-! ### Passes side by side -/

/-- Calls that interleave, and for each pass what its workspace held at its last read. -/
structure Syncing (ι : Type) where
  pool : SyncPool ι
  read : ι → List AgentEvent

/-- The workspace an operation selects events of. -/
def SyncOp.selects? : SyncOp → Option WorkspaceId
  | .eventsAfter ws _ _ => some ws
  | _ => none

def Db.eventsOf (db : Db) (ws : WorkspaceId) : List AgentEvent :=
  db.stored.filter fun e => e.workspaceId = ws

def Syncing.step (E : SyncEnv) (s : Syncing ι) (i : ι) : Syncing ι where
  pool := Pool.step (SyncOp.handle E) s.pool i
  read :=
    match (s.pool.next? i).bind SyncOp.selects? with
    | some ws => Function.update s.read i (s.pool.world.world.db.eventsOf ws)
    | none => s.read

/-- The calls, none begun yet. -/
def Syncing.start (X : Crates) (d : FilesystemDestination) (w : SyncWorld) (calls : ι → SyncCall) :
    Syncing ι :=
  ⟨Pool.init w fun i => (calls i).issue X d, fun _ => []⟩

section Present

variable (E : SyncEnv) (d : FilesystemDestination)

/-- The object of the event holds the event. -/
def Present (files : File → Option Contents) (e : AgentEvent) : Prop :=
  files (E.file (d.eventPath e.workspaceId e)) = some (.json e)

instance (files : File → Option Contents) (e : AgentEvent) : Decidable (Present E d files e) :=
  inferInstanceAs (Decidable (_ = _))

/-- A call that has returned has left what it read at the destination; only passes read. -/
def SyncComplete (s : Syncing ι) : Prop :=
  ∀ i, (s.pool.thread i).returned = true → ∀ e ∈ s.read i, Present E d s.pool.world.files e

instance [Fintype ι] (s : Syncing ι) : Decidable (SyncComplete E d s) :=
  inferInstanceAs (Decidable (∀ i, _ → ∀ e ∈ s.read i, _))

/-! ### What is asked of an event that arrives -/

/-- Neither shares a file with the other, nor has the other's id but for the white space around it. -/
structure Apart (a b : AgentEvent) : Prop where
  object : E.file (d.eventPath a.workspaceId a) ≠ E.file (d.eventPath b.workspaceId b)
  temporary : E.file (d.eventTmp a.workspaceId a) ≠ E.file (d.eventTmp b.workspaceId b)
  idTrimmed : a.id ≠ trimmed b.id
  idTrims : trimmed a.id ≠ b.id

instance (a b : AgentEvent) : Decidable (Apart E d a b) :=
  decidable_of_iff (_ ∧ _ ∧ _ ∧ _) ⟨fun h => ⟨h.1, h.2.1, h.2.2.1, h.2.2.2⟩,
    fun h => ⟨h.1, h.2, h.3, h.4⟩⟩

/-- The event comes after the one of its workspace that the id names, and is not itself that one. -/
def NamedBefore (stored : List AgentEvent) (e : AgentEvent) (id : EventId) : Prop :=
  ∀ x ∈ e :: stored, x.workspaceId = e.workspaceId → x.id = id → e.isAfter x.position

instance (stored : List AgentEvent) (e : AgentEvent) (id : EventId) :
    Decidable (NamedBefore stored e id) :=
  inferInstanceAs (Decidable (∀ x ∈ e :: stored, _ → _ → _))

/-- The id a pass is about to look up. -/
def SyncPhase.cursor? : SyncPhase → Option EventId
  | .read id => some id
  | _ => none

/-- The position a pass is about to select from, or to move the cursor to. -/
def SyncPhase.position? : SyncPhase → Option Position
  | .located since => since
  | .pushing batch _ _ => batch.getLast?.map (·.position)
  | _ => none

/-- The temporary cursor file is written and about to be renamed. -/
def SyncPhase.movesCursor : SyncPhase → Bool
  | .pushing _ [] true => true
  | _ => false

/-- The pass is about to rename the temporary cursor file of the workspace. -/
def SyncPass.MovesCursor (p : SyncPass) (ws : WorkspaceId) : Prop :=
  p.phase.movesCursor = true ∧ E.file (d.cursorTmp p.workspaceId) = E.file (d.cursorTmp ws)

instance (p : SyncPass) (ws : WorkspaceId) : Decidable (p.MovesCursor E d ws) :=
  inferInstanceAs (Decidable (_ ∧ _))

/-- The event is beyond every position that the cursor, or a pass in progress, stands for. -/
structure ArrivesBeyond (stored : List AgentEvent) (files : File → Option Contents)
    (pass : ι → SyncPass) (e : AgentEvent) : Prop where
  cursor : ∀ s ∈ textOf E files (d.cursorPath e.workspaceId), NamedBefore stored e (trimmed s)
  temporary : ∀ i, (pass i).MovesCursor E d e.workspaceId →
    ∀ s ∈ textOf E files (d.cursorTmp e.workspaceId), NamedBefore stored e (trimmed s)
  read : ∀ i, (pass i).workspaceId = e.workspaceId →
    ∀ id ∈ (pass i).phase.cursor?, NamedBefore stored e id
  position : ∀ i, (pass i).workspaceId = e.workspaceId →
    ∀ p ∈ (pass i).phase.position?, e.isAfter p
  apart : ∀ x ∈ stored, Apart E d e x

instance [Fintype ι] (stored : List AgentEvent) (files : File → Option Contents)
    (pass : ι → SyncPass) (e : AgentEvent) : Decidable (ArrivesBeyond E d stored files pass e) :=
  decidable_of_iff
    ((∀ s ∈ textOf E files (d.cursorPath e.workspaceId), NamedBefore stored e (trimmed s)) ∧
      (∀ i, (pass i).MovesCursor E d e.workspaceId →
        ∀ s ∈ textOf E files (d.cursorTmp e.workspaceId), NamedBefore stored e (trimmed s)) ∧
      (∀ i, (pass i).workspaceId = e.workspaceId →
        ∀ id ∈ (pass i).phase.cursor?, NamedBefore stored e id) ∧
      (∀ i, (pass i).workspaceId = e.workspaceId →
        ∀ p ∈ (pass i).phase.position?, e.isAfter p) ∧
      ∀ x ∈ stored, Apart E d e x)
    ⟨fun h => ⟨h.1, h.2.1, h.2.2.1, h.2.2.2.1, h.2.2.2.2⟩, fun h => ⟨h.1, h.2, h.3, h.4, h.5⟩⟩

/-- The pass of thread `i`, as its calls so far leave it. -/
def SyncPool.pass (calls : ι → SyncCall) (c : SyncPool ι) (i : ι) : SyncPass :=
  Pool.summary (syncMonitor d) (calls i).pass i c.trace

/-- The events that the next call of thread `i` inserts. -/
def Syncing.arrivals (s : Syncing ι) (i : ι) : List AgentEvent :=
  (s.step E i).pool.world.world.db.stored.drop s.pool.world.world.db.stored.length

def ArrivalsBeyond (calls : ι → SyncCall) (s : Syncing ι) (i : ι) : Prop :=
  ∀ e ∈ s.arrivals E i,
    ArrivesBeyond E d s.pool.world.world.db.stored s.pool.world.files (s.pool.pass d calls) e

instance [Fintype ι] (calls : ι → SyncCall) (s : Syncing ι) (i : ι) :
    Decidable (ArrivalsBeyond E d calls s i) :=
  inferInstanceAs (Decidable (∀ e ∈ s.arrivals E i, _))

/-! ### The invariant -/

/-- What is stored of the workspace up to the position is at the destination, but for the events `todo`. -/
def Behind (stored : List AgentEvent) (files : File → Option Contents) (ws : WorkspaceId)
    (p : Position) (todo : List AgentEvent) : Prop :=
  ∀ e ∈ stored, e.workspaceId = ws → ¬ e.isAfter p → Present E d files e ∨ e ∈ todo

/-- What is stored up to the event that the id names is at the destination. -/
def Covered (stored : List AgentEvent) (files : File → Option Contents) (ws : WorkspaceId)
    (id : EventId) : Prop :=
  ∀ x ∈ stored, x.workspaceId = ws → x.id = id → Behind E d stored files ws x.position []

/-- A destination that a run may start from, such as an empty one: no event lies behind the cursor, and all events are apart. -/
structure Truthful (stored : List AgentEvent) (files : File → Option Contents) : Prop where
  apart : ∀ a ∈ stored, ∀ b ∈ stored, a ≠ b → Apart E d a b
  cursor : ∀ ws, ∀ s ∈ textOf E files (d.cursorPath ws), Covered E d stored files ws (trimmed s)

structure Pushing (stored : List AgentEvent) (files : File → Option Contents) (p : SyncPass)
    (read batch todo : List AgentEvent) (written : Bool) : Prop where
  selected : ∀ e ∈ batch, e ∈ stored ∧ e.workspaceId = p.workspaceId
  within : ∀ e ∈ todo, e ∈ batch
  behind : ∀ last ∈ batch.getLast?, Behind E d stored files p.workspaceId last.position todo
  drains : batch.length < p.batchSize → ∀ e ∈ read, Present E d files e ∨ e ∈ todo
  temporary : written = true → ∀ e ∈ todo.head?,
    ∀ c ∈ files (E.file (d.eventTmp e.workspaceId e)), c = .json e

/-- What a pass knows of the destination. -/
def PassInv (stored : List AgentEvent) (files : File → Option Contents) (p : SyncPass)
    (read : List AgentEvent) : Prop :=
  match p.phase with
  | .idle => read = []
  | .read id => Covered E d stored files p.workspaceId id
  | .located since => ∀ position ∈ since, Behind E d stored files p.workspaceId position []
  | .pushing batch todo written => Pushing E d stored files p read batch todo written
  | .drained => ∀ e ∈ read, Present E d files e
  | _ => True

structure SyncInv (stored : List AgentEvent) (files : File → Option Contents) (pass : ι → SyncPass)
    (read : ι → List AgentEvent) : Prop where
  truthful : Truthful E d stored files
  temporary : ∀ ws i, (pass i).MovesCursor E d ws →
    ∀ s ∈ textOf E files (d.cursorTmp ws), Covered E d stored files ws (trimmed s)
  readStored : ∀ i, ∀ e ∈ read i, e ∈ stored
  each : ∀ i, PassInv E d stored files (pass i) (read i)

end Present

variable {E : SyncEnv} {d : FilesystemDestination} {stored : List AgentEvent}
  {files files' : File → Option Contents} {pass : ι → SyncPass} {read : ι → List AgentEvent}

/-! ### A step on the files -/

/-- Objects stay, and a temporary file of an event is rewritten with that event only. -/
structure FilesKept (E : SyncEnv) (d : FilesystemDestination) (stored : List AgentEvent)
    (files files' : File → Option Contents) : Prop where
  object : ∀ e ∈ stored, Present E d files e → Present E d files' e
  temporary : ∀ e ∈ stored, ∀ c ∈ files' (E.file (d.eventTmp e.workspaceId e)),
    c ∈ files (E.file (d.eventTmp e.workspaceId e)) ∨ c = .json e

theorem FilesKept.refl : FilesKept E d stored files files := ⟨fun _ _ h => h, fun _ _ _ h => Or.inl h⟩

section FilesKept

variable (hk : FilesKept E d stored files files')
include hk

theorem Behind.keep {ws : WorkspaceId} {p : Position} {todo : List AgentEvent}
    (h : Behind E d stored files ws p todo) : Behind E d stored files' ws p todo :=
  fun e he hws hp => (h e he hws hp).imp_left (hk.object e he)

theorem Covered.keep {ws : WorkspaceId} {id : EventId} (h : Covered E d stored files ws id) :
    Covered E d stored files' ws id :=
  fun x hx hws hid => (h x hx hws hid).keep hk

theorem PassInv.keep {p : SyncPass} {r : List AgentEvent} (h : PassInv E d stored files p r)
    (hr : ∀ e ∈ r, e ∈ stored) : PassInv E d stored files' p r := by
  obtain ⟨ws, batchSize, phase⟩ := p
  cases phase with
  | idle => exact h
  | start | failed => trivial
  | read id => exact Covered.keep hk h
  | located since => exact fun position hsince => (h position hsince).keep hk
  | drained => exact fun e he => hk.object e (hr e he) (h e he)
  | pushing batch todo written =>
    have hp : Pushing E d stored files _ _ _ _ _ := h
    exact
      { selected := hp.selected
        within := hp.within
        behind := fun last hlast => (hp.behind last hlast).keep hk
        drains := fun hpartial e he => (hp.drains hpartial e he).imp_left (hk.object e (hr e he))
        temporary := fun hwritten e he c hc => by
          have hin := (hp.selected e (hp.within e (List.mem_of_mem_head? he))).1
          rcases hk.temporary e hin c hc with hold | hnew
          · exact hp.temporary hwritten e he c hold
          · exact hnew }

/-- A step on the files by thread `i` keeps the invariant, if what the two cursor files then hold is covered and the thread knows what it should. -/
theorem SyncInv.keep (h : SyncInv E d stored files pass read) {i : ι} {l : SyncPass}
    (hcursor : ∀ ws, ∀ s ∈ textOf E files' (d.cursorPath ws), Covered E d stored files' ws (trimmed s))
    (htemporary : ∀ ws j, (Function.update pass i l j).MovesCursor E d ws →
      ∀ s ∈ textOf E files' (d.cursorTmp ws), Covered E d stored files' ws (trimmed s))
    (hpass : PassInv E d stored files' l (read i)) :
    SyncInv E d stored files' (Function.update pass i l) read := by
  refine ⟨⟨h.truthful.apart, hcursor⟩, htemporary, h.readStored, fun j => ?_⟩
  by_cases hj : j = i
  · rw [hj, Function.update_self]
    exact hpass
  · rw [Function.update_of_ne hj]
    exact (h.each j).keep hk (h.readStored j)

end FilesKept

/-- A step that changes no file, after which thread `i` does not rename the cursor, or goes on to. -/
theorem SyncInv.move (h : SyncInv E d stored files pass read) {i : ι} {l : SyncPass}
    {r : List AgentEvent} (hmoves : l.phase.movesCursor = false ∨ l = pass i)
    (hr : ∀ e ∈ r, e ∈ stored) (hpass : PassInv E d stored files l r) :
    SyncInv E d stored files (Function.update pass i l) (Function.update read i r) := by
  refine ⟨h.truthful, fun ws j hj => ?_, fun j => ?_, fun j => ?_⟩
  · by_cases hji : j = i
    · subst hji
      rw [Function.update_self] at hj
      rcases hmoves with hno | rfl
      · exact absurd hj.1 (by rw [hno]; exact Bool.false_ne_true)
      · exact h.temporary ws j hj
    · rw [Function.update_of_ne hji] at hj
      exact h.temporary ws j hj
  · by_cases hji : j = i
    · rw [hji, Function.update_self]
      exact hr
    · rw [Function.update_of_ne hji]
      exact h.readStored j
  · by_cases hji : j = i
    · rw [hji, Function.update_self, Function.update_self]
      exact hpass
    · rw [Function.update_of_ne hji, Function.update_of_ne hji]
      exact h.each j

/-! ### What a pass reads -/

section Read

variable {p : SyncPass} {r : List AgentEvent} {db : Db}

theorem passInv_cursor (hcursor : ∀ s ∈ textOf E files (d.cursorPath p.workspaceId),
      Covered E d stored files p.workspaceId (trimmed s)) {w : SyncWorld} (hfiles : w.files = files) :
    PassInv E d stored files (p.at_ (SyncPass.afterCursor (parseCursor
      ((SyncOp.readToString (d.cursorPath p.workspaceId)).handle E w).1))) r := by
  have hnone : PassInv E d stored files (p.at_ (.located none)) r := by
    intro position hsince
    cases hsince
  rcases handle_readToString (E := E) (w := w) (d.cursorPath p.workspaceId) with
    ⟨message, hr⟩ | ⟨-, hr⟩ | ⟨contents, hfile, hr⟩
  · rw [hr]
    trivial
  · rw [hr]
    exact hnone
  · rw [hr, parseCursor]
    have hs : contents.print E ∈ textOf E files (d.cursorPath p.workspaceId) := by
      rw [textOf, ← hfiles, hfile]
      rfl
    split
    · exact hnone
    · exact hcursor _ hs

theorem passInv_located {id : EventId} (h : Covered E d db.stored files p.workspaceId id) :
    PassInv E d db.stored files
      (p.at_ (.located ((db.createdAt id p.workspaceId).map fun t => (t, id)))) r := by
  intro position hposition
  obtain ⟨t, ht, rfl⟩ := Option.map_eq_some_iff.mp hposition
  obtain ⟨x, hx, rfl, hws, rfl⟩ := createdAt_eq_some.mp ht
  exact h x hx hws rfl

theorem mem_eventsOf {ws : WorkspaceId} {e : AgentEvent} :
    e ∈ db.eventsOf ws ↔ e ∈ db.stored ∧ e.workspaceId = ws := by
  simp [Db.eventsOf]

/-- The batch is all there is beyond the position, or full; up to its last event nothing else is missing. -/
theorem passInv_batch {since : Option Position} (hsize : 0 < p.batchSize)
    (hsince : ∀ position ∈ since, Behind E d db.stored files p.workspaceId position []) :
    PassInv E d db.stored files
      (p.at_ (SyncPass.afterBatch
        (.ok ((db.eventsBeyond p.workspaceId since).take p.batchSize))))
      (db.eventsOf p.workspaceId) := by
  have hall : ∀ e ∈ db.eventsOf p.workspaceId,
      Present E d files e ∨ e ∈ db.eventsBeyond p.workspaceId since := by
    intro e he
    obtain ⟨hstored, hws⟩ := mem_eventsOf.mp he
    by_cases hfollows : e.follows since
    · exact Or.inr (mem_eventsBeyond.mpr ⟨hstored, hws, hfollows⟩)
    · rw [AgentEvent.follows] at hfollows
      push Not at hfollows
      obtain ⟨position, hposition, hbehind⟩ := hfollows
      exact Or.inl ((hsince position hposition e hstored hws hbehind).resolve_right List.not_mem_nil)
  have hsorted : (db.eventsBeyond p.workspaceId since).Pairwise fun a b => b.isAfter a.position :=
    eventsBeyond_sorted
  generalize hselected : db.eventsBeyond p.workspaceId since = beyond at hall hsorted
  have hmem : ∀ e ∈ beyond, e ∈ db.stored ∧ e.workspaceId = p.workspaceId := by
    intro e he
    rw [← hselected, mem_eventsBeyond] at he
    exact ⟨he.1, he.2.1⟩
  cases hbatch : beyond.take p.batchSize with
  | nil =>
    have hempty : beyond = [] := by
      rcases List.take_eq_nil_iff.mp hbatch with h | h
      · exact absurd h (Nat.pos_iff_ne_zero.mp hsize)
      · exact h
    intro e he
    rcases hall e he with hpresent | hbeyond
    · exact hpresent
    · rw [hempty] at hbeyond
      cases hbeyond
  | cons first rest =>
    rw [SyncPass.afterBatch, ← hbatch]
    exact
      { selected := fun e he => hmem e (List.mem_of_mem_take he)
        within := fun e he => he
        behind := fun last hlast e hstored hws hnot => by
          rcases hall e (mem_eventsOf.mpr ⟨hstored, hws⟩) with hpresent | hbeyond
          · exact Or.inl hpresent
          · right
            rw [← List.take_append_drop p.batchSize beyond, List.mem_append] at hbeyond
            apply hbeyond.resolve_right
            -- what is left out sorts after the last event of the batch
            intro hdropped
            rw [← List.take_append_drop p.batchSize beyond, List.pairwise_append] at hsorted
            exact hnot (hsorted.2.2 last (List.mem_of_getLast? hlast) e hdropped)
        drains := fun hpartial e he => by
          rw [SyncPass.at_batchSize, List.length_take] at hpartial
          rw [List.take_of_length_le (by omega)]
          exact hall e he
        temporary := fun hwritten => by cases hwritten }

end Read

/-! ### What a pass writes -/

section Write

variable {i : ι} {e last : AgentEvent} {batch todo : List AgentEvent}

omit [DecidableEq ι] in
theorem SyncInv.pushing (h : SyncInv E d stored files pass read) {written : Bool}
    (hphase : (pass i).phase = .pushing batch todo written) :
    Pushing E d stored files (pass i) (read i) batch todo written := by
  have hi := h.each i
  rw [PassInv, hphase] at hi
  exact hi

/-- Where thread `i` is not about to rename the cursor, the others know what the temporary file covers. -/
theorem SyncInv.temporary_others (h : SyncInv E d stored files pass read) {l : SyncPass}
    (hl : l.phase.movesCursor = false) (ws : WorkspaceId) (j : ι)
    (hj : (Function.update pass i l j).MovesCursor E d ws) :
    ∀ s ∈ textOf E files (d.cursorTmp ws), Covered E d stored files ws (trimmed s) := by
  by_cases hji : j = i
  · rw [hji, Function.update_self] at hj
    exact absurd hj.1 (by rw [hl]; exact Bool.false_ne_true)
  · rw [Function.update_of_ne hji] at hj
    exact h.temporary ws j hj

theorem SyncInv.writeEvent (h : SyncInv E d stored files pass read)
    (hphase : (pass i).phase = .pushing batch (e :: todo) false) :
    SyncInv E d stored
      (Function.update files (E.file (d.eventTmp (pass i).workspaceId e)) (some (.json e)))
      (Function.update pass i ((pass i).at_ (.pushing batch (e :: todo) true))) read := by
  have hp := h.pushing hphase
  obtain ⟨he, hws⟩ := hp.selected e (hp.within e List.mem_cons_self)
  rw [← hws]
  have hk : FilesKept E d stored files
      (Function.update files (E.file (d.eventTmp e.workspaceId e)) (some (.json e))) := by
    constructor
    · intro x _ hx
      rwa [Present, Function.update_of_ne (eventPath_ne_eventTmp _ _ _ _)]
    · intro x hx c hc
      by_cases hsame : E.file (d.eventTmp x.workspaceId x) = E.file (d.eventTmp e.workspaceId e)
      · have hxe : x = e := by
          by_contra hne
          exact (h.truthful.apart x hx e he hne).temporary hsame
        rw [hsame, Function.update_self] at hc
        rw [hxe]
        exact Or.inr (Option.some.inj hc).symm
      · rw [Function.update_of_ne hsame] at hc
        exact Or.inl hc
  apply h.keep hk
  · intro ws s hs
    rw [textOf_update (cursorPath_ne_eventTmp _ _ _)] at hs
    exact (h.truthful.cursor ws s hs).keep hk
  · intro ws j hj s hs
    rw [textOf_update (eventTmp_ne_cursorTmp _ _ _).symm] at hs
    exact (h.temporary_others rfl ws j hj s hs).keep hk
  · exact
      { selected := hp.selected
        within := hp.within
        behind := fun l hl => (hp.behind l hl).keep hk
        drains := fun hpartial x hx =>
          (hp.drains hpartial x hx).imp_left (hk.object x (h.readStored i x hx))
        temporary := fun _ x hx c hc => by
          cases hx
          rw [Function.update_self] at hc
          exact (Option.some.inj hc).symm }

theorem SyncInv.renameEvent (h : SyncInv E d stored files pass read)
    (hphase : (pass i).phase = .pushing batch (e :: todo) true) {contents : Contents}
    (hcontents : files (E.file (d.eventTmp (pass i).workspaceId e)) = some contents) :
    SyncInv E d stored
      (Function.update
        (Function.update files (E.file (d.eventTmp (pass i).workspaceId e)) none)
        (E.file (d.eventPath (pass i).workspaceId e)) (some contents))
      (Function.update pass i ((pass i).at_ (.pushing batch todo false))) read := by
  have hp := h.pushing hphase
  obtain ⟨he, hws⟩ := hp.selected e (hp.within e List.mem_cons_self)
  rw [← hws] at hcontents ⊢
  obtain rfl : contents = .json e := hp.temporary rfl e rfl contents hcontents
  have hpresent : Present E d (Function.update
      (Function.update files (E.file (d.eventTmp e.workspaceId e)) none)
      (E.file (d.eventPath e.workspaceId e)) (some (.json e))) e := by
    rw [Present, Function.update_self]
  have hk : FilesKept E d stored files (Function.update
      (Function.update files (E.file (d.eventTmp e.workspaceId e)) none)
      (E.file (d.eventPath e.workspaceId e)) (some (.json e))) := by
    constructor
    · intro x hx hold
      by_cases hxe : x = e
      · rw [hxe]
        exact hpresent
      · rw [Present, Function.update_of_ne (h.truthful.apart x hx e he hxe).object,
          Function.update_of_ne (eventPath_ne_eventTmp _ _ _ _)]
        exact hold
    · intro x _ c hc
      rw [Function.update_of_ne (eventPath_ne_eventTmp _ _ _ _).symm] at hc
      by_cases hsame : E.file (d.eventTmp x.workspaceId x) = E.file (d.eventTmp e.workspaceId e)
      · rw [hsame, Function.update_self] at hc
        cases hc
      · rw [Function.update_of_ne hsame] at hc
        exact Or.inl hc
  apply h.keep hk
  · intro ws s hs
    rw [textOf_update (eventPath_ne_cursorPath _ _ _).symm,
      textOf_update (cursorPath_ne_eventTmp _ _ _)] at hs
    exact (h.truthful.cursor ws s hs).keep hk
  · intro ws j hj s hs
    rw [textOf_update (eventPath_ne_cursorTmp _ _ _).symm,
      textOf_update (eventTmp_ne_cursorTmp _ _ _).symm] at hs
    have hstays : (SyncPhase.pushing batch todo false).movesCursor = false := by
      cases todo <;> rfl
    exact (h.temporary_others hstays ws j hj s hs).keep hk
  · have hdone : ∀ x, Present E d files x ∨ x ∈ e :: todo → x ∈ stored →
        Present E d (Function.update
          (Function.update files (E.file (d.eventTmp e.workspaceId e)) none)
          (E.file (d.eventPath e.workspaceId e)) (some (.json e))) x ∨ x ∈ todo := by
      intro x hx hstored
      rcases hx with hold | hin
      · exact Or.inl (hk.object x hstored hold)
      · rcases List.mem_cons.mp hin with rfl | hrest
        · exact Or.inl hpresent
        · exact Or.inr hrest
    exact
      { selected := hp.selected
        within := fun x hx => hp.within x (List.mem_cons_of_mem e hx)
        behind := fun l hl x hx hws' hnot => hdone x (hp.behind l hl x hx hws' hnot) hx
        drains := fun hpartial x hx => hdone x (hp.drains hpartial x hx) (h.readStored i x hx)
        temporary := fun hwritten => by cases hwritten }

theorem SyncInv.writeCursor (h : SyncInv E d stored files pass read)
    (hphase : (pass i).phase = .pushing batch [] false) (hlast : batch.getLast? = some last) :
    SyncInv E d stored
      (Function.update files (E.file (d.cursorTmp (pass i).workspaceId)) (some (.text last.id)))
      (Function.update pass i ((pass i).at_ (.pushing batch [] true))) read := by
  have hp := h.pushing hphase
  obtain ⟨hin, hws⟩ := hp.selected last (List.mem_of_getLast? hlast)
  have hk : FilesKept E d stored files
      (Function.update files (E.file (d.cursorTmp (pass i).workspaceId)) (some (.text last.id))) := by
    constructor
    · intro x _ hx
      rwa [Present, Function.update_of_ne (eventPath_ne_cursorTmp _ _ _)]
    · intro x _ c hc
      rw [Function.update_of_ne (eventTmp_ne_cursorTmp _ _ _)] at hc
      exact Or.inl hc
  apply h.keep hk
  · intro ws s hs
    rw [textOf_update (cursorPath_ne_cursorTmp _ _)] at hs
    exact (h.truthful.cursor ws s hs).keep hk
  · intro ws j hj s hs
    by_cases hsame : E.file (d.cursorTmp ws) = E.file (d.cursorTmp (pass i).workspaceId)
    · -- the id just written, trimmed, names no event but the last of the batch
      rw [textOf, hsame, Function.update_self] at hs
      cases hs
      intro x hx hxws hid
      obtain rfl : x = last := by
        by_contra hne
        exact (h.truthful.apart x hx last hin hne).idTrimmed hid
      obtain rfl : ws = (pass i).workspaceId := hxws.symm.trans hws
      exact (hp.behind x hlast).keep hk
    · rw [textOf_update hsame] at hs
      by_cases hji : j = i
      · rw [hji, Function.update_self] at hj
        exact absurd hj.2.symm hsame
      · rw [Function.update_of_ne hji] at hj
        exact (h.temporary ws j hj s hs).keep hk
  · exact
      { selected := hp.selected
        within := hp.within
        behind := fun l hl => (hp.behind l hl).keep hk
        drains := fun hpartial x hx =>
          (hp.drains hpartial x hx).imp_left (hk.object x (h.readStored i x hx))
        temporary := fun _ x hx => by cases hx }

theorem SyncInv.renameCursor (h : SyncInv E d stored files pass read)
    (hphase : (pass i).phase = .pushing batch [] true) {contents : Contents}
    (hcontents : files (E.file (d.cursorTmp (pass i).workspaceId)) = some contents) :
    SyncInv E d stored
      (Function.update
        (Function.update files (E.file (d.cursorTmp (pass i).workspaceId)) none)
        (E.file (d.cursorPath (pass i).workspaceId)) (some contents))
      (Function.update pass i
        ((pass i).at_ (if batch.length < (pass i).batchSize then .drained else .start))) read := by
  have hp := h.pushing hphase
  have hk : FilesKept E d stored files (Function.update
      (Function.update files (E.file (d.cursorTmp (pass i).workspaceId)) none)
      (E.file (d.cursorPath (pass i).workspaceId)) (some contents)) := by
    constructor
    · intro x _ hx
      rwa [Present, Function.update_of_ne (eventPath_ne_cursorPath _ _ _),
        Function.update_of_ne (eventPath_ne_cursorTmp _ _ _)]
    · intro x _ c hc
      rw [Function.update_of_ne (cursorPath_ne_eventTmp _ _ _).symm,
        Function.update_of_ne (eventTmp_ne_cursorTmp _ _ _)] at hc
      exact Or.inl hc
  have hstays : ((pass i).at_ (if batch.length < (pass i).batchSize then .drained
      else .start)).phase.movesCursor = false := by
    rw [SyncPass.at_phase]
    split <;> rfl
  apply h.keep hk
  · intro ws s hs
    by_cases hsame : E.file (d.cursorPath ws) = E.file (d.cursorPath (pass i).workspaceId)
    · -- the file renamed was the temporary file of this workspace too
      have htmp := (cursorTmp_file_eq ws (pass i).workspaceId).mpr hsame
      have hmoves : (pass i).MovesCursor E d ws := ⟨by rw [hphase]; rfl, htmp.symm⟩
      rw [textOf, hsame, Function.update_self] at hs
      refine (h.temporary ws i hmoves s ?_).keep hk
      rw [textOf, htmp, hcontents]
      exact hs
    · rw [textOf_update hsame, textOf_update (cursorPath_ne_cursorTmp _ _)] at hs
      exact (h.truthful.cursor ws s hs).keep hk
  · intro ws j hj s hs
    rw [textOf_update (cursorPath_ne_cursorTmp _ _).symm] at hs
    by_cases hsame : E.file (d.cursorTmp ws) = E.file (d.cursorTmp (pass i).workspaceId)
    · rw [textOf, hsame, Function.update_self] at hs
      cases hs
    · rw [textOf_update hsame] at hs
      exact (h.temporary_others hstays ws j hj s hs).keep hk
  · by_cases hpartial : batch.length < (pass i).batchSize
    · rw [if_pos hpartial]
      intro x hx
      have hold := (hp.drains hpartial x hx).resolve_right List.not_mem_nil
      exact hk.object x (h.readStored i x hx) hold
    · rw [if_neg hpartial]
      trivial

end Write

/-! ### An event that arrives -/

section Arrive

variable {e : AgentEvent}

theorem Behind.append {ws : WorkspaceId} {p : Position} {todo : List AgentEvent}
    (h : Behind E d stored files ws p todo) (he : e.workspaceId = ws → e.isAfter p) :
    Behind E d (stored ++ [e]) files ws p todo := by
  intro x hx hws hnot
  rcases List.mem_append.mp hx with hold | hnew
  · exact h x hold hws hnot
  · obtain rfl := List.mem_singleton.mp hnew
    exact absurd (he hws) hnot

theorem Covered.append {ws : WorkspaceId} {id : EventId} (h : Covered E d stored files ws id)
    (he : e.workspaceId = ws → NamedBefore stored e id) :
    Covered E d (stored ++ [e]) files ws id := by
  intro x hx hws hid
  rcases List.mem_append.mp hx with hold | hnew
  · exact (h x hold hws hid).append fun hews =>
      he hews x (List.mem_cons_of_mem e hold) (hws.trans hews.symm) hid
  · obtain rfl := List.mem_singleton.mp hnew
    exact absurd (he hws x List.mem_cons_self rfl hid) not_isAfter_self

omit [DecidableEq ι] in
theorem SyncInv.arrive (h : SyncInv E d stored files pass read)
    (he : ArrivesBeyond E d stored files pass e) :
    SyncInv E d (stored ++ [e]) files pass read := by
  have hin : ∀ x ∈ stored, x ∈ stored ++ [e] := fun x hx => List.mem_append_left _ hx
  refine ⟨⟨fun a ha b hb hne => ?_, fun ws s hs => ?_⟩, fun ws i hi s hs => ?_,
    fun i x hx => hin x (h.readStored i x hx), fun i => ?_⟩
  · rcases List.mem_append.mp ha with haold | hanew
    · rcases List.mem_append.mp hb with hbold | hbnew
      · exact h.truthful.apart a haold b hbold hne
      · obtain rfl := List.mem_singleton.mp hbnew
        have hapart := he.apart a haold
        exact ⟨hapart.object.symm, hapart.temporary.symm, hapart.idTrims.symm, hapart.idTrimmed.symm⟩
    · obtain rfl := List.mem_singleton.mp hanew
      rcases List.mem_append.mp hb with hbold | hbnew
      · exact he.apart b hbold
      · exact absurd (List.mem_singleton.mp hbnew).symm hne
  · refine (h.truthful.cursor ws s hs).append fun hws => ?_
    subst hws
    exact he.cursor s hs
  · refine (h.temporary ws i hi s hs).append fun hws => ?_
    subst hws
    exact he.temporary i hi s hs
  · have hi := h.each i
    have hread := he.read i
    have hposition := he.position i
    rw [PassInv] at hi ⊢
    cases hphase : (pass i).phase with
    | start | failed => trivial
    | idle | drained =>
      rw [hphase] at hi
      exact hi
    | read id =>
      rw [hphase] at hi hread
      exact hi.append fun hws => hread hws.symm id rfl
    | located since =>
      rw [hphase] at hi hposition
      exact fun position hsince => (hi position hsince).append fun hws =>
        hposition hws.symm position hsince
    | pushing batch todo written =>
      rw [hphase] at hi hposition
      exact
        { selected := fun x hx => ⟨hin x (hi.selected x hx).1, (hi.selected x hx).2⟩
          within := hi.within
          behind := fun last hlast => (hi.behind last hlast).append fun hws =>
            hposition hws.symm last.position (by rw [SyncPhase.position?, hlast]; rfl)
          drains := hi.drains
          temporary := hi.temporary }

end Arrive

/-- An operation of the storage's interface inserts one event at most, after those that are stored. -/
theorem handle_stored (E : Env) (o : Op) (w : World) :
    (handle E o w).2.db.stored = w.db.stored ∨
      ∃ e, (handle E o w).2.db.stored = w.db.stored ++ [e] := by
  have hinsert : ∀ {db : Db} {row : AgentEventRow}, w.db.insertEvent row = .ok db →
      ∃ e, db.stored = w.db.stored ++ [e] := by
    intro db row h
    obtain ⟨-, t, hins, rfl⟩ := Db.insertEvent_eq_ok.mp h
    refine ⟨row.event, ?_⟩
    rw [Db.stored, (Table.insert?_eq_some.mp hins).2, List.map_append]
    rfl
  by_cases ho : o.writes = some .agentEvent
  · rcases handle_cases E o w with hsame | ⟨s, reply, db', rfl, -, hexec, hdb⟩
    · exact Or.inl (congrArg Db.stored hsame)
    · rw [hdb]
      cases s with
      | appendEvent e =>
        obtain ⟨db'', hins, heq⟩ := map_eq_ok.mp hexec
        cases heq
        exact Or.inr (hinsert hins)
      | ingestEvent row =>
        simp only [Sql.exec] at hexec
        split at hexec
        · cases hexec
          exact Or.inl rfl
        · obtain ⟨db'', hins, heq⟩ := map_eq_ok.mp hexec
          cases heq
          exact Or.inr (hinsert hins)
      | _ => cases ho
  · left
    rw [Db.stored, (handle_frame E o w).agentEvent ho, Db.stored]

/-! ### Runs -/

structure SyncPoolInv (E : SyncEnv) (d : FilesystemDestination) (calls : ι → SyncCall)
    (s : Syncing ι) : Prop where
  safe : Pool.AllSafe (syncMonitor d) SyncReturn (fun i => (calls i).pass) s.pool
  sizes : ∀ i, (s.pool.pass d calls i).phase = .idle ∨ 0 < (s.pool.pass d calls i).batchSize
  inv : SyncInv E d s.pool.world.world.db.stored s.pool.world.files (s.pool.pass d calls) s.read

section Step

variable {calls : ι → SyncCall} {s : Syncing ι} {i : ι}

/-- One call of a thread keeps the invariant of the passes. -/
theorem SyncInv.call {w : SyncWorld} (h : SyncInv E d w.world.db.stored w.files pass read) {o : SyncOp}
    (hallowed : (pass i).allowed d o) (hsize : (pass i).phase = .idle ∨ 0 < (pass i).batchSize)
    (harrive : ∀ e ∈ (o.handle E w).2.world.db.stored.drop w.world.db.stored.length,
      ArrivesBeyond E d w.world.db.stored w.files pass e) :
    SyncInv E d (o.handle E w).2.world.db.stored (o.handle E w).2.files
      (Function.update pass i ((pass i).next o (o.handle E w).1))
      (match o.selects? with
        | some ws => Function.update read i (w.world.db.eventsOf ws)
        | none => read) := by
  have hsame : Function.update read i (read i) = read := Function.update_eq_self i read
  have hfailed : ∀ {files : File → Option Contents}, files = w.files →
      SyncInv E d w.world.db.stored files (Function.update pass i ((pass i).at_ .failed)) read := by
    rintro files rfl
    rw [← hsame]
    exact h.move (Or.inl rfl) (h.readStored i) trivial
  cases o with
  | base b =>
    have hpass : Function.update pass i ((pass i).next (.base b) ((SyncOp.base b).handle E w).1) = pass :=
      Function.update_eq_self i pass
    rw [hpass]
    show SyncInv E d (handle E.env b w.world).2.db.stored w.files pass read
    change ∀ e ∈ (handle E.env b w.world).2.db.stored.drop w.world.db.stored.length, _ at harrive
    rcases handle_stored E.env b w.world with hstored | ⟨e, hstored⟩
    · rw [hstored]
      exact h
    · rw [hstored, List.drop_left] at harrive
      rw [hstored]
      exact h.arrive (harrive e List.mem_cons_self)
  | readToString path =>
    obtain ⟨hphase, rfl⟩ := hallowed
    rw [handle_db (by intro b hb; cases hb), handle_files rfl]
    show SyncInv E d _ _ (Function.update pass i _) read
    rw [← hsame]
    refine h.move (Or.inl ?_) (h.readStored i) (passInv_cursor (h.truthful.cursor _) rfl)
    rw [SyncPass.next, SyncPass.at_phase]
    cases parseCursor ((SyncOp.readToString (d.cursorPath (pass i).workspaceId)).handle E w).1 with
    | error e => rfl
    | ok c => cases c <;> rfl
  | createdAt id ws =>
    obtain ⟨hphase, rfl⟩ := hallowed
    rw [handle_db (by intro b hb; cases hb), handle_files rfl]
    show SyncInv E d _ _ (Function.update pass i _) read
    rw [← hsame]
    have hi := h.each i
    rw [PassInv, hphase] at hi
    rcases query_cases (E := E) (w := w) (·.createdAt id (pass i).workspaceId) with hr | hr
    · rw [SyncOp.handle, hr]
      exact h.move (Or.inl rfl) (h.readStored i) trivial
    · rw [SyncOp.handle, hr]
      exact h.move (Or.inl rfl) (h.readStored i) (passInv_located hi)
  | eventsAfter ws since limit =>
    obtain ⟨hphase, rfl, rfl⟩ := hallowed
    rw [handle_db (by intro b hb; cases hb), handle_files rfl]
    show SyncInv E d _ _ (Function.update pass i _)
      (Function.update read i (w.world.db.eventsOf (pass i).workspaceId))
    have hi := h.each i
    rw [PassInv, hphase] at hi
    have hread : ∀ e ∈ w.world.db.eventsOf (pass i).workspaceId, e ∈ w.world.db.stored :=
      fun e he => (mem_eventsOf.mp he).1
    rcases query_cases (E := E) (w := w) fun db =>
      (db.eventsBeyond (pass i).workspaceId since).take (pass i).batchSize with hr | hr
    · rw [SyncOp.handle, hr]
      exact h.move (Or.inl rfl) hread trivial
    · rw [SyncOp.handle, hr]
      have hpositive : 0 < (pass i).batchSize :=
        hsize.resolve_left fun hidle => by
          rw [hphase] at hidle
          cases hidle
      refine h.move (Or.inl ?_) hread (passInv_batch hpositive hi)
      rw [SyncPass.next, SyncPass.at_phase]
      cases (w.world.db.eventsBeyond (pass i).workspaceId since).take (pass i).batchSize <;> rfl
  | createDirAll parent =>
    obtain ⟨batch, todo, hphase⟩ := hallowed
    rw [handle_db (by intro b hb; cases hb), handle_files rfl]
    show SyncInv E d _ _ (Function.update pass i _) read
    rw [SyncPass.next]
    cases ((SyncOp.createDirAll parent).handle E w).1 with
    | error e => exact hfailed rfl
    | ok u =>
      have hpass : Function.update pass i ((pass i).at_ (pass i).phase) = pass :=
        Function.update_eq_self i pass
      rw [SyncPass.unlessFailed, hpass]
      exact h
  | write tmp contents =>
    obtain ⟨batch, todo, path, hphase, hitem⟩ := hallowed
    rw [handle_db (by intro b hb; cases hb), SyncPass.next]
    show SyncInv E d _ _ (Function.update pass i _) read
    rcases handle_write (E := E) (w := w) tmp contents with ⟨herr, hfiles⟩ | ⟨hok, hfiles⟩
    · rw [SyncPass.next_failed herr]
      exact hfailed hfiles
    · rw [hok, hfiles, hphase]
      cases todo with
      | cons e rest =>
        obtain ⟨rfl, rfl, rfl⟩ := item_cons hitem
        exact h.writeEvent hphase
      | nil =>
        obtain ⟨last, hlast, rfl, rfl, rfl⟩ := item_nil hitem
        exact h.writeCursor hphase hlast
  | rename tmp path =>
    obtain ⟨batch, todo, contents, hphase, hitem⟩ := hallowed
    rw [handle_db (by intro b hb; cases hb), SyncPass.next]
    show SyncInv E d _ _ (Function.update pass i _) read
    rcases handle_rename (E := E) (w := w) tmp path with ⟨herr, hfiles⟩ | ⟨hok, found, hfound, hfiles⟩
    · rw [SyncPass.next_failed herr]
      exact hfailed hfiles
    · rw [hok, hfiles, hphase]
      cases todo with
      | cons e rest =>
        obtain ⟨rfl, rfl, rfl⟩ := item_cons hitem
        exact h.renameEvent hphase hfound
      | nil =>
        obtain ⟨last, hlast, rfl, rfl, rfl⟩ := item_nil hitem
        exact h.renameCursor hphase hfound

theorem syncPool_step (h : SyncPoolInv E d calls s) (hbeyond : ArrivalsBeyond E d calls s i) :
    SyncPoolInv E d calls (s.step E i) := by
  have hsafe : Pool.AllSafe (syncMonitor d) SyncReturn (fun i => (calls i).pass)
      (Pool.step (SyncOp.handle E) s.pool i) := Pool.allSafe_step h.safe i
  rcases Pool.step_cases (SyncOp.handle E) s.pool i with
    ⟨r, hthread, hsame⟩ | ⟨o, next, hthread, hnext, hstep⟩
  · have hstays : s.step E i = s := by
      rw [Syncing.step, hsame, Pool.next?_done hthread]
      rfl
    rw [hstays]
    exact h
  · have hpass : SyncPool.pass d calls (s.step E i).pool =
        Function.update (s.pool.pass d calls) i
          ((s.pool.pass d calls i).next o (o.handle E s.pool.world).1) := by
      show SyncPool.pass d calls (Pool.step (SyncOp.handle E) s.pool i) = _
      rw [hstep]
      exact Pool.summary_update
    have hallowed : (s.pool.pass d calls i).allowed d o := h.safe.allowed hthread
    have hworld : (s.step E i).pool.world = (o.handle E s.pool.world).2 := congrArg Pool.world hstep
    have hread : (s.step E i).read =
        match o.selects? with
        | some ws => Function.update s.read i (s.pool.world.world.db.eventsOf ws)
        | none => s.read := by
      rw [Syncing.step, hnext]
      rfl
    refine ⟨hsafe, fun j => ?_, ?_⟩
    · rw [hpass]
      by_cases hj : j = i
      · rw [hj, Function.update_self, next_batchSize]
        refine (h.sizes i).imp_left fun hidle => ?_
        cases o with
        | base b => exact hidle
        | _ => exact absurd hallowed (not_allowed hidle (Or.inl rfl) fun b hb => SyncOp.noConfusion hb)
      · rw [Function.update_of_ne hj]
        exact h.sizes j
    · rw [hpass, hworld, hread]
      apply h.inv.call hallowed (h.sizes i)
      intro e he
      rw [← hworld] at he
      exact hbeyond e he

theorem SyncPoolInv.complete (h : SyncPoolInv E d calls s) : SyncComplete E d s := by
  intro i hreturned e he
  obtain ⟨reply, hthread⟩ := returned_iff.mp hreturned
  have hreturn := h.safe i
  rw [hthread] at hreturn
  have hi := h.inv.each i
  rw [PassInv] at hi
  rcases hreturn reply rfl with hphase | hphase
  · rw [show (s.pool.pass d calls i).phase = .idle from hphase] at hi
    rw [show s.read i = [] from hi] at he
    cases he
  · rw [show (s.pool.pass d calls i).phase = .drained from hphase] at hi
    exact hi e he

end Step

theorem syncPool_start (X : Crates) {w : SyncWorld} {calls : ι → SyncCall}
    (hsize : ∀ i ws batchSize turns, calls i = .runOnce ws batchSize turns → 0 < batchSize)
    (h : Truthful E d w.world.db.stored w.files) :
    SyncPoolInv E d calls (Syncing.start X d w calls) := by
  have hpass : ∀ i, (calls i).pass.phase = .idle ∨
      ((calls i).pass.phase = .start ∧ 0 < (calls i).pass.batchSize) := by
    intro i
    cases hcall : calls i with
    | appendEvent e => exact Or.inl rfl
    | ingestEvents batch => exact Or.inl rfl
    | runOnce ws batchSize turns => exact Or.inr ⟨rfl, hsize i ws batchSize turns hcall⟩
  refine ⟨fun i => syncIssue_safe X (calls i), fun i => (hpass i).imp_right (·.2), h, ?_, ?_, ?_⟩
  · intro ws i hi
    have hmoves : (calls i).pass.phase.movesCursor = true := hi.1
    rcases hpass i with hphase | ⟨hphase, -⟩
    · rw [hphase] at hmoves
      cases hmoves
    · rw [hphase] at hmoves
      cases hmoves
  · intro i e he
    cases he
  · intro i
    show PassInv E d _ _ (calls i).pass []
    rw [PassInv]
    rcases hpass i with hphase | ⟨hphase, -⟩
    · rw [hphase]
    · rw [hphase]
      trivial

/-- An empty destination hides nothing behind its cursor. -/
theorem truthful_of_noFile (hapart : ∀ a ∈ stored, ∀ b ∈ stored, a ≠ b → Apart E d a b)
    (hfiles : ∀ file, files file = none) : Truthful E d stored files := by
  refine ⟨hapart, fun ws s hs => ?_⟩
  rw [textOf, hfiles] at hs
  cases hs

/-- **Sync completeness.** In every run of appends, ingests and passes in which each event that arrives is beyond all positions in play, a pass that returns has left all that its workspace held at its last read at the destination. -/
theorem sync_complete (X : Crates) (E : SyncEnv) (d : FilesystemDestination) {w : SyncWorld}
    {calls : ι → SyncCall} {schedule : List ι}
    (hsize : ∀ i ws batchSize turns, calls i = .runOnce ws batchSize turns → 0 < batchSize)
    (hstart : Truthful E d w.world.db.stored w.files)
    (hbeyond : Lts.EveryStep (Syncing.step E) (ArrivalsBeyond E d calls) (Syncing.start X d w calls)
      schedule) :
    Lts.Always (Syncing.step E) (SyncComplete E d) (Syncing.start X d w calls) schedule := by
  intro pre post hsplit
  exact (Lts.always_of_invariant (SyncPoolInv E d calls) (fun s i => syncPool_step)
    (syncPool_start X hsize hstart) hbeyond pre post hsplit).complete

/-! ### Sample runs -/

/-- Two appends and two passes. -/
inductive SyncThread where
  | later | pass | earlier | nextPass
deriving DecidableEq

instance : Fintype SyncThread :=
  ⟨{.later, .pass, .earlier, .nextPass}, fun i => by cases i <;> decide⟩

def appendsAndPasses : SyncThread → SyncCall
  | .later => .appendEvent (.sample "evt_b" "2026-05-19T12:00:01Z")
  | .earlier => .appendEvent (.sample "evt_a" "2026-05-19T12:00:00Z")
  | .pass => .runOnce "ws_demo" 2 2
  | .nextPass => .runOnce "ws_demo" 2 2

/-- Both events are there before the passes, which run one after the other. -/
def inOrderOfTime : List SyncThread :=
  .later :: .earlier :: (List.replicate 14 .pass ++ List.replicate 3 .nextPass)

theorem sync_complete_inOrderOfTime :
    Lts.Always (Syncing.step .sample) (SyncComplete .sample .sample)
      (Syncing.start .sample .sample .sample appendsAndPasses) inOrderOfTime :=
  sync_complete .sample .sample .sample
    (by
      intro i ws batchSize turns h
      cases i with
      | later | earlier => cases h
      | pass | nextPass =>
        cases h
        decide)
    (truthful_of_noFile (fun a ha => absurd ha List.not_mem_nil) fun _ => rfl) (by decide +kernel)

/-- The event with the earlier timestamp is inserted after the first pass, and the second does not see it. -/
def earlierAfterwards : List SyncThread :=
  .later :: (List.replicate 8 .pass ++ .earlier :: List.replicate 3 .nextPass)

theorem earlierAfterwards_missed :
    ¬ SyncComplete .sample .sample
      (Lts.run (Syncing.step .sample)
        (Syncing.start .sample .sample .sample appendsAndPasses) earlierAfterwards) := by
  decide +kernel

end ActantDb
