import ActantDb.Storage.Ingest

/-!
# What ingestion promises its replicas

Two promises are made of the content-derived id: that a row's payload is the one its id stands for, and that replicas which received the same rows hold the same table. Neither is checked beyond the id itself. The first holds of a batch exactly when the rows it inserts are honest about their payload (`payload_integrity_iff`), the second of two replicas exactly when no id comes with two different rows that could each arrive first (`converges_iff`).
-/

namespace ActantDb

variable {X : Crates}

/-! ### Payload integrity -/

/-- The inline payload, if there is one, is the canonical payload, and the payload hash is its hash. -/
def Honest (X : Crates) (ie : IngestEvent) : Prop :=
  ∀ inline, ie.event.payloadInline = some inline →
    asBytes inline = ie.canonicalPayload ∧
      ie.event.payloadHash = sha256Hex X ie.canonicalPayload

/-- In a call on a batch that starts with `pre` and `ie`, it is `ie` that inserts its row. -/
def InsertsRow (X : Crates) (E : Env) (w : World) (pre : List IngestEvent) (ie : IngestEvent) : Prop :=
  ¬ ie.row ∈ ((ingestEvents X pre).run (handle E) w).2.db.agentEvent ∧
    ie.row ∈ ((ingestEvents X (pre ++ [ie])).run (handle E) w).2.db.agentEvent

/-- Every row that a call on the batch inserts is honest, whatever the storage does. -/
def PayloadIntegrity (X : Crates) (db : Db) (batch : List IngestEvent) : Prop :=
  ∀ E w, w.db = db → ∀ pre ie post, batch = pre ++ ie :: post → InsertsRow X E w pre ie → Honest X ie

theorem ingestEvents_append_singleton (pre : List IngestEvent) (ie : IngestEvent) :
    ingestEvents X (pre ++ [ie]) =
      ingestEvents X pre >>= fun progress => ingestRow X pre.length ie progress := by
  have hrow : ∀ index progress, ingestLoop X index progress [ie] = ingestRow X index ie progress := by
    intro index progress
    rw [ingestLoop]
    exact Prog.bind_pure _
  rw [ingestEvents, ingestLoop_append]
  refine congrArg _ (funext fun progress => ?_)
  rw [hrow, Nat.zero_add]

/-- An entry that inserts its row is a new one, after entries that all pass. -/
theorem new_of_insertsRow {E : Env} {w : World} {pre : List IngestEvent} {ie : IngestEvent}
    (h : InsertsRow X E w pre ie) : AllPass X w.db pre ∧ New X w.db pre ie := by
  obtain ⟨hbefore, hafter⟩ := h
  rw [ingestEvents_append_singleton, Prog.run_bind] at hafter
  generalize hrun : (ingestEvents X pre).run (handle E) w = out at hbefore hafter
  have hbatch : BatchOutcome X E pre w out := hrun ▸ ingestEvents_outcome E pre w
  cases hbatch with
  | stopped e w' => exact absurd hafter hbefore
  | finished progress w' hall =>
    obtain ⟨hpass, hlanded⟩ := (landAll_spec w.db pre).1 _ hall
    dsimp only at hbefore hafter
    generalize hstep : (ingestRow X pre.length ie progress).run (handle E) w' = out at hafter
    have hrow : RowOutcome X E ie w' out := hstep ▸ ingestRow_outcome E pre.length ie progress w'
    cases hrow with
    | stopped e w'' hdb =>
      dsimp only at hafter
      rw [hdb] at hafter
      exact absurd hafter hbefore
    | landed progress' w'' hland =>
      obtain ⟨-, hlanded'⟩ := hlanded.append hland
      have hmem := (hlanded'.mem _).mp hafter
      rw [inserted_append, ← or_assoc, ← hlanded.mem] at hmem
      exact ⟨hpass, (hmem.resolve_left hbefore).1⟩

/-- A new entry after entries that all pass inserts its row, when the storage does not fail. -/
theorem insertsRow_of_new {E : Env} (hfault : ∀ n, E.fault n = false) {w : World}
    {pre : List IngestEvent} {ie : IngestEvent} (hpass : AllPass X w.db pre)
    (hnew : New X w.db pre ie) : InsertsRow X E w pre ie := by
  have hpass' : AllPass X w.db (pre ++ [ie]) := by
    intro p ie' q hsplit
    rcases append_singleton_eq.mp hsplit with ⟨q', -, hpre⟩ | ⟨-, rfl, rfl⟩
    · exact hpass p ie' q' hpre
    · exact fun _ => Or.inr hnew.refers
  obtain ⟨progress, w', hrun, hlanded⟩ := ingestEvents_of_allPass hfault hpass
  obtain ⟨progress', w'', hrun', hlanded'⟩ := ingestEvents_of_allPass hfault hpass'
  rw [InsertsRow, hrun, hrun']
  constructor
  · intro hmem
    exact hnew.first ((hlanded.contains _).mp (Table.contains_iff.mpr ⟨ie.row, hmem, rfl⟩))
  · exact (hlanded'.mem _).mpr (Or.inr (inserted_append.mpr (Or.inr ⟨hnew, rfl⟩)))

/-- **Payload integrity** holds of a batch exactly when its new entries are honest. -/
theorem payload_integrity_iff (X : Crates) (db : Db) (batch : List IngestEvent) :
    PayloadIntegrity X db batch ↔
      ∀ pre ie post, batch = pre ++ ie :: post → AllPass X db pre → New X db pre ie →
        Honest X ie := by
  constructor
  · intro h pre ie post hsplit hpass hnew
    have hfault : ∀ n, Env.wholeSeconds.fault n = false := fun _ => rfl
    exact h .wholeSeconds (World.start db) rfl pre ie post hsplit
      (insertsRow_of_new hfault hpass hnew)
  · intro h E w hdb pre ie post hsplit hinserts
    subst hdb
    obtain ⟨hpass, hnew⟩ := new_of_insertsRow hinserts
    exact h pre ie post hsplit hpass hnew

/-- An event whose id is derived from `payload`, whatever its row says. -/
def IngestEvent.sample (payload inline payloadHash eventType : String) : IngestEvent where
  event :=
    { id := contentDerived Crates.sample (asBytes payload) ⟨1700000000000, 0⟩ "act_demo"
      workspaceId := "ws_demo"
      actorId := "act_demo"
      sessionId := none
      parentEventId := none
      eventType := eventType
      causalityKind := .observation
      sensitivity := .low
      authorityScopeId := none
      payloadRef := none
      payloadInline := some inline
      payloadHash := payloadHash
      eventHash := zeros
      createdAt := "2023-11-14T22:13:20Z"
      modelCallId := none
      toolCallId := none
      workflowRunId := none
      memoryId := none
      artifactId := none
      commandId := none
      effectId := none }
  hlc := ⟨1700000000000, 0⟩
  deviceId := "device_a"
  canonicalPayload := asBytes payload

/-- The id stands for one payload and the row carries another. -/
def swappedPayload : IngestEvent := IngestEvent.sample "\"paid\"" "\"refunded\"" zeros "note"

theorem swappedPayload_inserted : ¬ PayloadIntegrity Crates.sample Db.sample [swappedPayload] := by
  intro h
  have hinserts : InsertsRow Crates.sample .wholeSeconds (World.start Db.sample) [] swappedPayload := by
    unfold InsertsRow
    decide +kernel
  have hhonest := h .wholeSeconds (World.start Db.sample) rfl [] swappedPayload [] rfl hinserts
    "\"refunded\"" rfl
  exact absurd hhonest.1 (by decide +kernel)

/-! ### Convergence -/

/-- Batches delivered one after another, if every call returns `Ok`. -/
def deliver (X : Crates) (E : Env) : World → List (List IngestEvent) → Option World
  | w, [] => some w
  | w, batch :: rest =>
    match (ingestEvents X batch).run (handle E) w with
    | (.ok _, w') => deliver X E w' rest
    | (.error _, _) => none

/-- Every event of `M` is delivered at least once, and nothing else is. -/
def Delivers (M : List IngestEvent) (batches : List (List IngestEvent)) : Prop :=
  ∀ ie, ie ∈ batches.flatten ↔ ie ∈ M

structure SameStart (db₁ db₂ : Db) : Prop where
  workspace : db₁.workspace = db₂.workspace
  actor : db₁.actor = db₂.actor
  agentEvent : ∀ r, r ∈ db₁.agentEvent ↔ r ∈ db₂.agentEvent

/-- However the events of `M` are delivered to the two databases, the tables end up equal. -/
def Converges (X : Crates) (db₁ db₂ : Db) (M : List IngestEvent) : Prop :=
  ∀ E₁ E₂ w₁ w₂, w₁.db = db₁ → w₂.db = db₂ → ∀ batches₁ batches₂, Delivers M batches₁ →
    Delivers M batches₂ → ∀ w₁' w₂', deliver X E₁ w₁ batches₁ = some w₁' →
      deliver X E₂ w₂ batches₂ = some w₂' →
        ∀ r, r ∈ w₁'.db.agentEvent ↔ r ∈ w₂'.db.agentEvent

/-- Some order of the events, in which every row passes, has `a` as the first of its id. -/
def FirstIn (X : Crates) (db : Db) (M : List IngestEvent) (a : IngestEvent) : Prop :=
  ∃ pre post, (∀ ie, ie ∈ pre ++ a :: post ↔ ie ∈ M) ∧ AllPass X db (pre ++ a :: post) ∧
    ¬ StoredAfter X db pre a.event.id

theorem deliver_eq_some {E : Env} {w w' : World} {batches : List (List IngestEvent)}
    (h : deliver X E w batches = some w') :
    AllPass X w.db batches.flatten ∧ Landed X w.db batches.flatten w'.db := by
  apply (landAll_spec _ _).1 _
  induction batches generalizing w with
  | nil =>
    cases h
    rfl
  | cons batch rest ih =>
    rw [deliver] at h
    generalize hrun : (ingestEvents X batch).run (handle E) w = out at h
    have hbatch : BatchOutcome X E batch w out := hrun ▸ ingestEvents_outcome E batch w
    cases hbatch with
    | stopped e w'' => cases h
    | finished progress w'' hall =>
      rw [List.flatten_cons, landAll_append, hall]
      exact ih h

theorem SameStart.symm {db₁ db₂ : Db} (h : SameStart db₁ db₂) : SameStart db₂ db₁ :=
  ⟨h.workspace.symm, h.actor.symm, fun r => (h.agentEvent r).symm⟩

theorem SameStart.contains {db₁ db₂ : Db} (h : SameStart db₁ db₂) {id : EventId}
    (hid : db₁.agentEvent.contains id = true) : db₂.agentEvent.contains id = true := by
  obtain ⟨r, hr, hkey⟩ := Table.contains_iff.mp hid
  exact Table.contains_iff.mpr ⟨r, (h.agentEvent r).mp hr, hkey⟩

theorem SameStart.valid {db₁ db₂ : Db} (h : SameStart db₁ db₂) {ie : IngestEvent}
    (hv : Valid X db₁ ie) : Valid X db₂ ie :=
  ⟨hv.device, hv.id, h.workspace ▸ hv.workspace⟩

/-- A row the first replica holds is held by the second, when rows of one id that could come first are one row. -/
theorem mem_of_converging {db₁ db₂ db₁' db₂' : Db} {M order₁ order₂ : List IngestEvent}
    (hsame : SameStart db₁ db₂)
    (hagree : ∀ a ∈ M, ∀ b ∈ M, a.event.id = b.event.id → FirstIn X db₁ M a →
      FirstIn X db₂ M b → a.row = b.row)
    (hM₁ : ∀ ie, ie ∈ order₁ ↔ ie ∈ M) (hM₂ : ∀ ie, ie ∈ order₂ ↔ ie ∈ M)
    (hpass₁ : AllPass X db₁ order₁) (hpass₂ : AllPass X db₂ order₂)
    (hlanded₁ : Landed X db₁ order₁ db₁') (hlanded₂ : Landed X db₂ order₂ db₂')
    {r : AgentEventRow} (hr : r ∈ db₁'.agentEvent) : r ∈ db₂'.agentEvent := by
  rcases (hlanded₁.mem r).mp hr with hold | ⟨p, a, q, rfl, hnew, rfl⟩
  · exact (hlanded₂.mem r).mpr (Or.inl ((hsame.agentEvent r).mp hold))
  · have ha : a ∈ M := (hM₁ a).mp (by simp)
    have hfirst : ∀ {id}, a.event.id = id → ¬ db₂.agentEvent.contains id = true := by
      intro id hid hcontains
      exact hnew.first (Or.inl (hsame.symm.contains (hid ▸ hcontains)))
    have hstored : StoredAfter X db₂ order₂ a.event.id :=
      Or.inr ⟨a, (hM₂ a).mpr ha, hsame.valid hnew.valid, rfl⟩
    -- the second replica holds a row of this id, and it came first there
    obtain ⟨r', hr', hid⟩ := Table.contains_iff.mp ((hlanded₂.contains _).mpr hstored)
    rcases (hlanded₂.mem r').mp hr' with hold | ⟨p', b, q', rfl, hnew', rfl⟩
    · exact absurd (Table.contains_iff.mpr ⟨r', hold, rfl⟩) (hfirst hid.symm)
    · have hrow : a.row = b.row :=
        hagree a ha b ((hM₂ b).mp (by simp)) hid.symm ⟨p, q, hM₁, hpass₁, hnew.first⟩
          ⟨p', q', hM₂, hpass₂, hnew'.first⟩
      rw [hrow]
      exact hr'

/-- A valid event that comes first of its id in an order can be delivered first, and its row is then stored. -/
theorem exists_deliver_of_firstIn {db : Db} {M : List IngestEvent} {a : IngestEvent}
    (hvalid : Valid X db a) (hfirst : FirstIn X db M a) :
    ∃ batches w', Delivers M batches ∧
      deliver X .wholeSeconds (World.start db) batches = some w' ∧ a.row ∈ w'.db.agentEvent := by
  obtain ⟨pre, post, hM, hpass, hfresh⟩ := hfirst
  have hfault : ∀ n, Env.wholeSeconds.fault n = false := fun _ => rfl
  obtain ⟨progress, w', hrun, hlanded⟩ :=
    ingestEvents_of_allPass (w := World.start db) hfault hpass
  refine ⟨[pre ++ a :: post], w', ?_, ?_, ?_⟩
  · intro ie
    rw [List.flatten_singleton]
    exact hM ie
  · rw [deliver, hrun]
    rfl
  · have hrefers := (hpass pre a post rfl hvalid).resolve_left hfresh
    exact (hlanded.mem _).mpr (Or.inr ⟨pre, a, post, rfl, ⟨hvalid, hfresh, hrefers⟩, rfl⟩)

/-- **Replicas converge** on a set of valid events exactly when events of one id that could each come first are one row. -/
theorem converges_iff (X : Crates) (db₁ db₂ : Db) (M : List IngestEvent)
    (hsame : SameStart db₁ db₂) (hvalid : ∀ ie ∈ M, Valid X db₁ ie) :
    Converges X db₁ db₂ M ↔
      ∀ a ∈ M, ∀ b ∈ M, a.event.id = b.event.id → FirstIn X db₁ M a → FirstIn X db₂ M b →
        a.row = b.row := by
  constructor
  · intro h a ha b hb hid hfirsta hfirstb
    obtain ⟨batches₁, w₁, hM₁, hdel₁, hrow₁⟩ :=
      exists_deliver_of_firstIn (hvalid a ha) hfirsta
    obtain ⟨batches₂, w₂, hM₂, hdel₂, hrow₂⟩ :=
      exists_deliver_of_firstIn (hsame.valid (hvalid b hb)) hfirstb
    have hmem := (h _ _ _ _ rfl rfl batches₁ batches₂ hM₁ hM₂ w₁ w₂ hdel₁ hdel₂ a.row).mp hrow₁
    exact Table.eq_of_key_eq hmem hrow₂ hid
  · intro h E₁ E₂ w₁ w₂ hdb₁ hdb₂ batches₁ batches₂ hM₁ hM₂ w₁' w₂' hdel₁ hdel₂ r
    obtain ⟨hpass₁, hlanded₁⟩ := deliver_eq_some hdel₁
    obtain ⟨hpass₂, hlanded₂⟩ := deliver_eq_some hdel₂
    rw [hdb₁] at hpass₁ hlanded₁
    rw [hdb₂] at hpass₂ hlanded₂
    constructor
    · exact mem_of_converging hsame h hM₁ hM₂ hpass₁ hpass₂ hlanded₁ hlanded₂
    · refine mem_of_converging hsame.symm ?_ hM₂ hM₁ hpass₂ hpass₁ hlanded₂ hlanded₁
      intro a ha b hb hid hfirsta hfirstb
      exact (h b hb a ha hid.symm hfirstb hfirsta).symm

/-- Two devices' rows for one id, which differ in the event type. -/
def sameId : List IngestEvent :=
  [IngestEvent.sample "\"paid\"" "\"paid\"" zeros "note",
    IngestEvent.sample "\"paid\"" "\"paid\"" zeros "payment"]

theorem converges_one :
    Converges Crates.sample Db.sample Db.sample (sameId.take 1) := by
  refine (converges_iff Crates.sample Db.sample Db.sample (sameId.take 1)
    ⟨rfl, rfl, fun _ => Iff.rfl⟩ (by decide +kernel)).mpr ?_
  intro a ha b hb _ _ _
  rw [List.mem_singleton.mp ha, List.mem_singleton.mp hb]

theorem sameId_diverges : ¬ Converges Crates.sample Db.sample Db.sample sameId := by
  intro h
  have hnote : (deliver Crates.sample .wholeSeconds (World.start Db.sample) [sameId]).any
      (fun w => (IngestEvent.sample "\"paid\"" "\"paid\"" zeros "note").row ∈ w.db.agentEvent) := by
    decide +kernel
  have hpayment : (deliver Crates.sample .wholeSeconds (World.start Db.sample) [sameId.reverse]).any
      (fun w => ¬ (IngestEvent.sample "\"paid\"" "\"paid\"" zeros "note").row ∈ w.db.agentEvent) := by
    decide +kernel
  obtain ⟨w₁, hdel₁, hrow₁⟩ := (Option.any_eq_true _ _).mp hnote
  obtain ⟨w₂, hdel₂, hrow₂⟩ := (Option.any_eq_true _ _).mp hpayment
  have hsame := h .wholeSeconds .wholeSeconds _ _ rfl rfl [sameId] [sameId.reverse]
    (fun ie => by simp) (fun ie => by simp) w₁ w₂ hdel₁ hdel₂
  exact of_decide_eq_true hrow₂ ((hsame _).mp (of_decide_eq_true hrow₁))

end ActantDb
