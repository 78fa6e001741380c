import ActantDb.Core.Hash
import ActantDb.Core.Ids
import ActantDb.Lib.Run

/-!
# Ingress

An event from outside is inserted into `ingress_event`, whose rows differ in workspace, source and deduplication key. Whatever the insertion fails with is taken for a duplicate, so an event can be passed over that is stored nowhere.
-/

namespace ActantDb

structure IngressEvent where
  source : String
  eventType : String
  dedupeKey : String
  payload : Value

namespace Ingress

/-- A row of `ingress_event`. -/
structure IngressRow where
  id : String
  workspaceId : WorkspaceId
  source : String
  eventType : String
  payloadRef : String
  signatureValid : Option Int
  dedupeKey : Option String
  receivedAt : String

structure Database where
  workspace : List WorkspaceId
  ingressEvent : List IngressRow

/-- The unique columns are the same; keys that are `NULL` are not. -/
def IngressRow.clashes (r r' : IngressRow) : Bool :=
  r.workspaceId = r'.workspaceId && r.source = r'.source && r.dedupeKey = r'.dedupeKey && r.dedupeKey.isSome

/-- `INSERT INTO ingress_event`. -/
def insertIngressEvent (db : Database) (row : IngressRow) : Except SqlError Database :=
  if db.ingressEvent.any fun r => r.id = row.id || r.clashes row then .error (.unique "ingress_event")
  else if row.workspaceId ∉ db.workspace then .error (.foreignKey "ingress_event")
  else .ok { db with ingressEvent := db.ingressEvent ++ [row] }

/-- What one call meets: the id that it draws, the time, and what its statement fails with before it gets to the tables. -/
structure Circumstances where
  ulid : String
  now : String
  fault : Option SqlError

/-- The row that `ingest` inserts. -/
def rowOf (X : Crates) (workspace : WorkspaceId) (event : IngressEvent) (C : Circumstances) : IngressRow where
  id := newId "ig" C.ulid
  workspaceId := workspace
  source := event.source
  eventType := event.eventType
  payloadRef := canonicalJson X event.payload
  signatureValid := some 1
  dedupeKey := some event.dedupeKey
  receivedAt := C.now

/-- What comes of the insertion. -/
def store (X : Crates) (db : Database) (workspace : WorkspaceId) (event : IngressEvent) (C : Circumstances) :
    Except SqlError Database :=
  match C.fault with
  | some e => .error e
  | none => insertIngressEvent db (rowOf X workspace event C)

/-- The id for a new event, `none` for one taken for a duplicate. -/
def ingest (X : Crates) (db : Database) (workspace : WorkspaceId) (event : IngressEvent) (C : Circumstances) :
    Except ActantError (Option String) × Database :=
  match store X db workspace event C with
  | .ok db' => (.ok (some (newId "ig" C.ulid)), db')
  | .error _ => (.ok none, db)

/-! ### Runs -/

inductive Label where
  | insertWorkspace (id : WorkspaceId)
  | ingest (workspace : WorkspaceId) (event : IngressEvent) (C : Circumstances)

def step (X : Crates) (db : Database) : Label → Database
  | .insertWorkspace id => { db with workspace := id :: db.workspace }
  | .ingest workspace event C => (ingest X db workspace event C).2

/-- An event with this key is stored. -/
def Stored (db : Database) (workspace : WorkspaceId) (event : IngressEvent) : Prop :=
  ∃ r ∈ db.ingressEvent, r.workspaceId = workspace ∧ r.source = event.source ∧ r.dedupeKey = some event.dedupeKey

/-- A call answers `None` for an event that is stored already only, and an error where it cannot store another one. -/
def Honest (X : Crates) (db : Database) : Label → Prop
  | .insertWorkspace _ => True
  | .ingest workspace event C =>
    ((ingest X db workspace event C).1 = .ok none → Stored db workspace event) ∧
      ((store X db workspace event C).isOk = false → ¬ Stored db workspace event →
        (ingest X db workspace event C).1.isOk = false)

/-- The event is stored already, or there is nothing to keep it from being stored: the statement gets to the tables, the id is new, and the workspace is there. -/
def Storable (db : Database) : Label → Prop
  | .insertWorkspace _ => True
  | .ingest workspace event C =>
    Stored db workspace event ∨
      (C.fault = none ∧ (∀ r ∈ db.ingressEvent, r.id ≠ newId "ig" C.ulid) ∧ workspace ∈ db.workspace)

/-! ### One call -/

section Call

variable {X : Crates} {db : Database} {workspace : WorkspaceId} {event : IngressEvent} {C : Circumstances}

theorem clashes_rowOf {r : IngressRow} :
    r.clashes (rowOf X workspace event C) = true ↔
      r.workspaceId = workspace ∧ r.source = event.source ∧ r.dedupeKey = some event.dedupeKey := by
  rw [IngressRow.clashes, Bool.and_eq_true, Bool.and_eq_true, Bool.and_eq_true, decide_eq_true_iff, decide_eq_true_iff,
    decide_eq_true_iff, and_assoc, and_assoc]
  constructor
  · rintro ⟨hworkspace, hsource, hkey, -⟩
    exact ⟨hworkspace, hsource, hkey⟩
  · rintro ⟨hworkspace, hsource, hkey⟩
    exact ⟨hworkspace, hsource, hkey, by rw [hkey]; rfl⟩

/-- The insertion succeeds when the statement gets to the tables and violates nothing there. -/
theorem store_isOk : (store X db workspace event C).isOk = true ↔
    C.fault = none ∧ (∀ r ∈ db.ingressEvent, r.id ≠ newId "ig" C.ulid) ∧ workspace ∈ db.workspace ∧
      ¬ Stored db workspace event := by
  rw [store]
  cases hfault : C.fault with
  | some e => exact iff_of_false (fun h => by cases h) fun h => by cases h.1
  | none =>
    dsimp only
    rw [insertIngressEvent]
    split
    · rename_i hclash
      obtain ⟨r, hr, hsame⟩ := List.any_eq_true.mp hclash
      refine iff_of_false (fun h => by cases h) fun ⟨_, hfresh, _, hstored⟩ => ?_
      rw [Bool.or_eq_true, decide_eq_true_eq] at hsame
      rcases hsame with hid | hkey
      · exact hfresh r hr hid
      · exact hstored ⟨r, hr, clashes_rowOf.mp hkey⟩
    · rename_i hclash
      have hnone (r : IngressRow) (hr : r ∈ db.ingressEvent) :
          r.id ≠ newId "ig" C.ulid ∧ ¬ r.clashes (rowOf X workspace event C) = true := by
        refine not_or.mp fun hsame => hclash (List.any_eq_true.mpr ⟨r, hr, ?_⟩)
        rw [Bool.or_eq_true, decide_eq_true_iff]
        exact hsame
      have hstored : ¬ Stored db workspace event := fun ⟨r, hr, hkey⟩ => (hnone r hr).2 (clashes_rowOf.mpr hkey)
      have hworkspace : (rowOf X workspace event C).workspaceId = workspace := rfl
      split
      · rename_i hmissing
        exact iff_of_false (fun h => by cases h) fun h => hmissing (hworkspace ▸ h.2.2.1)
      · rename_i hthere
        exact iff_of_true rfl ⟨rfl, fun r hr => (hnone r hr).1, not_not.mp (hworkspace ▸ hthere), hstored⟩

/-- A call answers `None` exactly when its insertion fails, whatever with. -/
theorem ingest_none : (ingest X db workspace event C).1 = .ok none ↔ (store X db workspace event C).isOk = false := by
  rw [ingest]
  cases store X db workspace event C with
  | ok db' => exact iff_of_false (fun h => by cases h) fun h => by cases h
  | error e => exact iff_of_true rfl rfl

theorem honest_iff (label : Label) : Honest X db label ↔ Storable db label := by
  cases label with
  | insertWorkspace id => exact Iff.rfl
  | ingest workspace event C =>
    rw [Honest, Storable, ingest_none, ← Bool.not_eq_true (store X db workspace event C).isOk, store_isOk]
    by_cases hstored : Stored db workspace event
    · exact iff_of_true ⟨fun _ => hstored, fun _ hnot => absurd hstored hnot⟩ (Or.inl hstored)
    · constructor
      · intro h
        by_contra hstorable
        refine hstored (h.1 fun hok => hstorable (Or.inr ⟨hok.1, hok.2.1, hok.2.2.1⟩))
      · rintro (h | ⟨hfault, hfresh, hworkspace⟩)
        · exact absurd h hstored
        · exact ⟨fun hnot => absurd ⟨hfault, hfresh, hworkspace, hstored⟩ hnot,
            fun hnot _ => absurd ⟨hfault, hfresh, hworkspace, hstored⟩ hnot⟩

end Call

/-- **Nothing is passed over silently** in exactly the runs in which every event that comes in is stored already or can be stored. -/
theorem honest_iff_storable (X : Crates) (db : Database) (labels : List Label) :
    Lts.EveryStep (step X) (Honest X) db labels ↔ Lts.EveryStep (step X) Storable db labels :=
  Lts.everyStep_congr (fun _ => True) (fun _ _ _ => trivial) (fun _ label _ => honest_iff label) trivial

def IngressEvent.sample : IngressEvent := ⟨"stripe", "charge.created", "evt_1", .null⟩

/-- The event comes in for a workspace that is not there. -/
def noWorkspace : Label := .ingest "ws_gone" IngressEvent.sample ⟨"01HF7YAT00", "2026-05-19T12:34:56Z", none⟩

/-- It is answered as a duplicate. -/
theorem noWorkspace_dropped : ¬ Lts.EveryStep (step Crates.sample) (Honest Crates.sample) ⟨[], []⟩ [noWorkspace] := by
  rintro ⟨⟨hnone, -⟩, -⟩
  obtain ⟨r, hr, -⟩ := hnone rfl
  cases hr

end Ingress

end ActantDb
