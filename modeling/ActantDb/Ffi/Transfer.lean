import ActantDb.Ffi.EventsSince

/-!
# Transfer from device to device

`events_since` shows some columns of a row, and `ingest` makes a row of them again with the actor of its own handle, `low` for the sensitivity and the payload hash for the event hash. The id is then derived again, with that actor. So a row arrives as it was just when it is one that this puts together: of the actor of the receiving handle, of low sensitivity, with its payload inline, its payload hash as its event hash, and a stamp that the interface can show. Other rows are rejected, or arrive changed.
-/

namespace ActantDb

namespace Ffi

/-- What an open `ActantDb` is bound to. -/
structure Handle where
  workspace : WorkspaceId
  actor : ActorId

/-- The stamp that a row is shown with. -/
def EventRow.hlc (row : EventRow) : Hlc := ⟨row.hlcPhysicalMs, row.hlcLogical⟩

/-- The event that `ingest` makes of a row. -/
def Handle.ingestEvent (h : Handle) (row : EventRow) : IngestEvent where
  event :=
    { id := row.id
      workspaceId := h.workspace
      actorId := h.actor
      sessionId := row.sessionId
      parentEventId := none
      eventType := row.eventType
      causalityKind := .audit
      sensitivity := .low
      authorityScopeId := none
      payloadInline := some row.payloadJson
      payloadRef := none
      payloadHash := row.payloadHash
      eventHash := row.payloadHash
      createdAt := row.createdAt
      modelCallId := none
      toolCallId := none
      workflowRunId := none
      memoryId := none
      artifactId := none
      commandId := none
      effectId := none }
  hlc := row.hlc
  deviceId := row.deviceId
  canonicalPayload := asBytes row.payloadJson

structure IngestSummary where
  accepted : Nat
  skipped : Nat
  rejected : List String
deriving DecidableEq, Repr

def rejectText (r : IngestReject) : String :=
  match r.eventId with
  | some eventId => toString r.index ++ ":" ++ r.reason ++ ":" ++ eventId
  | none => toString r.index ++ ":" ++ r.reason

def Handle.ingest (X : Crates) (h : Handle) (events : List EventRow) : Action IngestSummary := do
  let progress ← ingestEvents X (events.map h.ingestEvent)
  return ⟨progress.1.accepted, progress.1.skipped, progress.1.rejected.map rejectText⟩

/-- The rows that `events_since` returns. -/
def selected (db : Db) (workspace : WorkspaceId) (cursorHlcPhysicalMs : Option UInt64) (cursorHlcLogical : Option UInt32)
    (limit : UInt32) : List AgentEventRow :=
  ((db.agentEvent.rows.filter fun r => r.event.workspaceId = workspace &&
    sinceCursor (cursorHlcPhysicalMs.map fun p => toI64 p.toNat) (cursorHlcLogical.map fun l => (l.toNat : Int)) r)
      |>.insertionSort byStamp).take (pageSize limit)

theorem eventsSince_eq (db : Db) (workspace : WorkspaceId) (physical : Option UInt64) (logical : Option UInt32) (limit : UInt32) :
    eventsSince db workspace physical logical limit = (selected db workspace physical logical limit).map eventRow := rfl

/-! ### What a transfer is to keep -/

/-- The columns that are to arrive as they were. -/
structure SameEvent (r r' : AgentEventRow) : Prop where
  id : r'.event.id = r.event.id
  actor : r'.event.actorId = r.event.actorId
  session : r'.event.sessionId = r.event.sessionId
  eventType : r'.event.eventType = r.event.eventType
  payload : r'.event.payloadInline = r.event.payloadInline
  payloadHash : r'.event.payloadHash = r.event.payloadHash
  eventHash : r'.event.eventHash = r.event.eventHash
  sensitivity : r'.event.sensitivity = r.event.sensitivity
  physical : r'.hlcPhysicalMs = r.hlcPhysicalMs
  logical : r'.hlcLogical = r.hlcLogical

instance (r r' : AgentEventRow) : Decidable (SameEvent r r') :=
  decidable_of_iff (r'.event.id = r.event.id ∧ r'.event.actorId = r.event.actorId ∧ r'.event.sessionId = r.event.sessionId ∧
      r'.event.eventType = r.event.eventType ∧ r'.event.payloadInline = r.event.payloadInline ∧
      r'.event.payloadHash = r.event.payloadHash ∧ r'.event.eventHash = r.event.eventHash ∧
      r'.event.sensitivity = r.event.sensitivity ∧ r'.hlcPhysicalMs = r.hlcPhysicalMs ∧ r'.hlcLogical = r.hlcLogical)
    ⟨fun h => ⟨h.1, h.2.1, h.2.2.1, h.2.2.2.1, h.2.2.2.2.1, h.2.2.2.2.2.1, h.2.2.2.2.2.2.1, h.2.2.2.2.2.2.2.1,
        h.2.2.2.2.2.2.2.2.1, h.2.2.2.2.2.2.2.2.2⟩,
      fun h => ⟨h.1, h.2, h.3, h.4, h.5, h.6, h.7, h.8, h.9, h.10⟩⟩

/-- From a storage that does not fail the call returns `Ok`, rejects nothing, and leaves a row for each that it was given. -/
def Lossless (X : Crates) (db₁ db₂ : Db) (h : Handle) (physical : Option UInt64) (logical : Option UInt32) (limit : UInt32) : Prop :=
  ∀ (E : Env) (w : World), (∀ n, E.fault n = false) → w.db = db₂ →
    ∃ summary w', (h.ingest X (eventsSince db₁ h.workspace physical logical limit)).run (handle E) w = (.ok summary, w') ∧
      summary.rejected = [] ∧
      ∀ r ∈ selected db₁ h.workspace physical logical limit, ∃ r' ∈ w'.db.agentEvent, SameEvent r r'

/-- A row that is put together again from what is shown of it. -/
structure Fits (h : Handle) (r : AgentEventRow) : Prop where
  actor : r.event.actorId = h.actor
  sensitivity : r.event.sensitivity = .low
  eventHash : r.event.eventHash = r.event.payloadHash
  payload : r.event.payloadInline.isSome
  physical : 0 ≤ r.hlcPhysicalMs ∧ r.hlcPhysicalMs < 2 ^ 63
  logical : 0 ≤ r.hlcLogical ∧ r.hlcLogical < 2 ^ 32

/-- The row passes the checks, and it is stored already, or it fits and its references are there. -/
structure Carried (X : Crates) (db₂ : Db) (h : Handle) (r : AgentEventRow) : Prop where
  device : r.deviceId ≠ ""
  id : contentDerived X (asBytes (eventRow r).payloadJson) (eventRow r).hlc h.actor = r.event.id
  workspace : db₂.workspace.contains h.workspace = true
  lands : (∃ r' ∈ db₂.agentEvent, SameEvent r r') ∨
    db₂.agentEvent.contains r.event.id = false ∧ Fits h r ∧ db₂.actor.contains h.actor = true ∧
      refersTo db₂.session r.event.sessionId = true

/-! ### A row and its copy -/

section Copy

variable {X : Crates} {h : Handle} {r : AgentEventRow}

theorem toI64_toU64 {i : Int} : toI64 (toU64 i).toNat = i ↔ 0 ≤ i ∧ i < 2 ^ 63 := by
  rw [toU64, UInt64.toNat_ofNat', toI64]
  constructor
  · intro heq
    split at heq <;> omega
  · rintro ⟨hle, hlt⟩
    rw [Nat.mod_eq_of_lt (by omega), if_pos (by omega), Int.toNat_of_nonneg hle]

theorem toU32_eq {i : Int} : ((toU32 i).toNat : Int) = i ↔ 0 ≤ i ∧ i < 2 ^ 32 := by
  rw [toU32, UInt32.toNat_ofNat']
  constructor <;> intro heq <;> omega

/-- The copy of a row is the row just where it fits. -/
theorem sameEvent_copy : SameEvent r (h.ingestEvent (eventRow r)).row ↔ Fits h r := by
  constructor
  · intro hsame
    have hpayload : some (r.event.payloadInline.getD "\x7b\x7d") = r.event.payloadInline := hsame.payload
    refine ⟨hsame.actor.symm, hsame.sensitivity.symm, hsame.eventHash.symm, ?_, toI64_toU64.mp hsame.physical,
      toU32_eq.mp hsame.logical⟩
    rw [← hpayload]
    rfl
  · intro hfits
    obtain ⟨payload, hpayload⟩ := Option.isSome_iff_exists.mp hfits.payload
    refine ⟨rfl, hfits.actor.symm, rfl, rfl, ?_, rfl, hfits.eventHash.symm, hfits.sensitivity.symm,
      toI64_toU64.mpr hfits.physical, toU32_eq.mpr hfits.logical⟩
    show some (r.event.payloadInline.getD "\x7b\x7d") = r.event.payloadInline
    rw [hpayload]
    rfl

end Copy

/-! ### The batch -/

section Batch

variable {X : Crates} {db₁ db₂ : Db} {h : Handle} {physical : Option UInt64} {logical : Option UInt32} {limit : UInt32}
  {rows : List AgentEventRow} {r : AgentEventRow}

variable (db₁ h physical logical limit) in
theorem nodup_selected : ((selected db₁ h.workspace physical logical limit).map AgentEventRow.id).Nodup := by
  have hids := db₁.agentEvent.keysNodup.sublist ((List.filter_sublist (p := fun r : AgentEventRow => r.event.workspaceId = h.workspace &&
    sinceCursor (physical.map fun p => toI64 p.toNat) (logical.map fun l => (l.toNat : Int)) r)).map AgentEventRow.id)
  rw [← ((List.perm_insertionSort byStamp _).map AgentEventRow.id).nodup_iff] at hids
  exact hids.sublist ((List.take_sublist _ _).map _)

theorem copies_eq : (eventsSince db₁ h.workspace physical logical limit).map h.ingestEvent =
    (selected db₁ h.workspace physical logical limit).map fun r => h.ingestEvent (eventRow r) := by
  rw [eventsSince_eq, List.map_map]
  rfl

theorem valid_copy : Valid X db₂ (h.ingestEvent (eventRow r)) ↔
    r.deviceId ≠ "" ∧ contentDerived X (asBytes (eventRow r).payloadJson) (eventRow r).hlc h.actor = r.event.id ∧
      db₂.workspace.contains h.workspace = true :=
  ⟨fun hv => ⟨hv.device, hv.id, hv.workspace⟩, fun hv => ⟨hv.1, hv.2.1, hv.2.2⟩⟩

/-- Of a batch of copies, the row of one is stored before it only in the database: the others have other ids. -/
theorem storedAfter_copies {pre : List AgentEventRow} (hfresh : r.id ∉ pre.map AgentEventRow.id) :
    StoredAfter X db₂ (pre.map fun r => h.ingestEvent (eventRow r)) r.event.id ↔ db₂.agentEvent.contains r.event.id = true := by
  rw [StoredAfter, or_iff_left]
  rintro ⟨ie, hie, -, hid⟩
  obtain ⟨r', hr', rfl⟩ := List.mem_map.mp hie
  exact hfresh (List.mem_map.mpr ⟨r', hr', hid⟩)

theorem refers_copy {pre : List IngestEvent} : RefersAfter X db₂ pre (h.ingestEvent (eventRow r)).event ↔
    db₂.actor.contains h.actor = true ∧ refersTo db₂.session r.event.sessionId = true := by
  constructor
  · intro hrefers
    exact ⟨hrefers.actor, hrefers.session⟩
  · rintro ⟨hactor, hsession⟩
    refine ⟨hactor, hsession, fun id hid => ?_, rfl⟩
    cases hid

theorem split_copies {p q : List IngestEvent} {ie : IngestEvent}
    (hsplit : (rows.map fun r => h.ingestEvent (eventRow r)) = p ++ ie :: q) :
    ∃ pre r post, rows = pre ++ r :: post ∧ p = pre.map (fun r => h.ingestEvent (eventRow r)) ∧ ie = h.ingestEvent (eventRow r) := by
  obtain ⟨pre, rest, rfl, rfl, hrest⟩ := List.map_eq_append_iff.mp hsplit
  obtain ⟨r, post, rfl, rfl, -⟩ := List.map_eq_cons_iff.mp hrest
  exact ⟨pre, r, post, rfl, rfl, rfl⟩

theorem fresh_of_split {pre post : List AgentEventRow} (hnodup : ((pre ++ r :: post).map AgentEventRow.id).Nodup) :
    r.id ∉ pre.map AgentEventRow.id := by
  rw [List.map_append, List.map_cons, List.nodup_append] at hnodup
  exact fun hmem => hnodup.2.2 _ hmem _ List.mem_cons_self rfl

/-- Copies of rows of different ids, and what a fault-free call does with them. -/
theorem allPass_copies (hnodup : (rows.map AgentEventRow.id).Nodup) (hcarried : ∀ r ∈ rows, Carried X db₂ h r) :
    AllPass X db₂ (rows.map fun r => h.ingestEvent (eventRow r)) := by
  intro p ie q hsplit _
  obtain ⟨pre, r, post, rfl, rfl, rfl⟩ := split_copies hsplit
  have hfresh := fresh_of_split hnodup
  rcases (hcarried r (List.mem_append_right _ List.mem_cons_self)).lands with ⟨r', hr', hsame⟩ | ⟨-, -, hactor, hsession⟩
  · exact Or.inl ((storedAfter_copies hfresh).mpr (Table.contains_iff.mpr ⟨r', hr', hsame.id⟩))
  · exact Or.inr (refers_copy.mpr ⟨hactor, hsession⟩)

theorem run_ingest {E : Env} {w w' : World} {progress : IngestProgress} {events : List EventRow}
    (hrun : (ingestEvents X (events.map h.ingestEvent)).run (handle E) w = (.ok progress, w')) :
    (h.ingest X events).run (handle E) w =
      (.ok ⟨progress.1.accepted, progress.1.skipped, progress.1.rejected.map rejectText⟩, w') := by
  rw [Handle.ingest, Prog.run_bind_ok _ hrun]
  rfl

theorem lossless_of_carried (hcarried : ∀ r ∈ selected db₁ h.workspace physical logical limit, Carried X db₂ h r) :
    Lossless X db₁ db₂ h physical logical limit := by
  rintro E w hfault rfl
  have hnodup := nodup_selected db₁ h physical logical limit
  obtain ⟨progress, w', hrun, hlanded⟩ := ingestEvents_of_allPass hfault (allPass_copies hnodup hcarried)
  have hrejected : progress.1.rejected = [] := by
    refine (ingestLoop_rejected hrun).mpr ⟨rfl, fun ie hie => ?_⟩
    obtain ⟨r, hr, rfl⟩ := List.mem_map.mp hie
    exact valid_copy.mpr ⟨(hcarried r hr).device, (hcarried r hr).id, (hcarried r hr).workspace⟩
  rw [← copies_eq] at hrun
  refine ⟨_, w', run_ingest hrun, by rw [hrejected]; rfl, fun r hr => ?_⟩
  have hrow := hcarried r hr
  rcases hrow.lands with ⟨r', hr', hsame⟩ | ⟨hunstored, hfits, hactor, hsession⟩
  · exact ⟨r', (hlanded.mem r').mpr (Or.inl hr'), hsame⟩
  · obtain ⟨pre, post, hsplit⟩ := List.append_of_mem hr
    rw [hsplit] at hnodup hlanded
    refine ⟨(h.ingestEvent (eventRow r)).row, (hlanded.mem _).mpr (Or.inr ?_), sameEvent_copy.mpr hfits⟩
    refine ⟨pre.map fun r => h.ingestEvent (eventRow r), _, post.map fun r => h.ingestEvent (eventRow r),
      by rw [List.map_append, List.map_cons], ⟨valid_copy.mpr ⟨hrow.device, hrow.id, hrow.workspace⟩, ?_,
        refers_copy.mpr ⟨hactor, hsession⟩⟩, rfl⟩
    intro hstored
    rw [(storedAfter_copies (fresh_of_split hnodup)).mp hstored] at hunstored
    cases hunstored

theorem carried_of_lossless (hlossless : Lossless X db₁ db₂ h physical logical limit) :
    ∀ r ∈ selected db₁ h.workspace physical logical limit, Carried X db₂ h r := by
  have hnodup := nodup_selected db₁ h physical logical limit
  obtain ⟨summary, w', hrun, hrejected, harrive⟩ := hlossless .wholeSeconds (World.start db₂) (fun _ => rfl) rfl
  rw [Handle.ingest, Prog.run_bind, copies_eq] at hrun
  generalize hloop : (ingestEvents X ((selected db₁ h.workspace physical logical limit).map fun r => h.ingestEvent (eventRow r))).run
    (handle .wholeSeconds) (World.start db₂) = out at hrun
  have hout : BatchOutcome X .wholeSeconds _ (World.start db₂) out := hloop ▸ ingestEvents_outcome .wholeSeconds _ _
  cases hout with
  | stopped e w'' => cases hrun
  | finished progress w'' hall =>
    cases hrun
    obtain ⟨-, hlanded⟩ := (landAll_spec db₂ _).1 _ hall
    have hvalid := ((ingestLoop_rejected hloop).mp (List.map_eq_nil_iff.mp hrejected)).2
    intro r hr
    obtain ⟨hdevice, hid, hworkspace⟩ := valid_copy.mp (hvalid _ (List.mem_map_of_mem hr))
    refine ⟨hdevice, hid, hworkspace, ?_⟩
    obtain ⟨r', hr', hsame⟩ := harrive r hr
    rcases (hlanded.mem r').mp hr' with hold | ⟨p, ie, q, hsplit, hnew, rfl⟩
    · exact Or.inl ⟨r', hold, hsame⟩
    · -- the copy that was inserted under this id is that of the row itself
      obtain ⟨pre, r'', post, hselected, rfl, rfl⟩ := split_copies hsplit
      have hr'' : r'' ∈ selected db₁ h.workspace physical logical limit := by
        rw [hselected]
        exact List.mem_append_right _ List.mem_cons_self
      obtain rfl : r'' = r := List.inj_on_of_nodup_map hnodup hr'' hr hsame.id
      rw [hselected] at hnodup
      have hrefers := refers_copy.mp hnew.refers
      refine Or.inr ⟨?_, sameEvent_copy.mp hsame, hrefers.1, hrefers.2⟩
      exact Bool.eq_false_iff.mpr fun hstored => hnew.first ((storedAfter_copies (fresh_of_split hnodup)).mpr hstored)

end Batch

/-- **What is transferred arrives as it was just where each row fits the receiving handle**, or had arrived before. -/
theorem lossless_iff (X : Crates) (db₁ db₂ : Db) (h : Handle) (physical : Option UInt64) (logical : Option UInt32) (limit : UInt32) :
    Lossless X db₁ db₂ h physical logical limit ↔
      ∀ r ∈ selected db₁ h.workspace physical logical limit, Carried X db₂ h r :=
  ⟨carried_of_lossless, lossless_of_carried⟩

/-- An event of `act_demo`, with its derived id. -/
def paid : AgentEventRow where
  event := { noted (contentDerived Crates.sample (asBytes "\"paid\"") ⟨1700000000000, 0⟩ "act_demo") with payloadInline := some "\"paid\"" }
  deviceId := "device_a"
  hlcPhysicalMs := 1700000000000

def paidDb : Db := { Db.sample with agentEvent := ⟨[paid], List.nodup_singleton _⟩ }

/-- It is rejected by a handle of another actor. -/
theorem paid_rejected : ¬ Lossless Crates.sample paidDb Db.sample ⟨"ws_demo", "act_other"⟩ none none 100 := by
  intro hlossless
  have hselected : paid ∈ selected paidDb "ws_demo" none none 100 := List.mem_singleton.mpr rfl
  have hid := (carried_of_lossless hlossless paid hselected).id
  revert hid
  decide +kernel

end Ffi

end ActantDb
