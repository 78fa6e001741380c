import Mathlib.Data.Finset.Card
import Mathlib.Data.List.Range
import ActantDb.Storage.Replicas

/-!
# The accounts of a batch

The report of a batch that is processed to its end adds up: what was accepted is what was added to the table, one row for each new id among the valid rows, and what was rejected is the other rows by their index. The counters saturate, which a batch of fewer than `2 ^ 32` rows does not come to. After the batch each of its valid rows is stored, so that the batch changes nothing when it comes again.
-/

namespace ActantDb

variable (X : Crates)

/-- The ids of the valid rows that are not stored yet. -/
def newIds (db : Db) (batch : List IngestEvent) : Finset EventId :=
  ((batch.filter fun ie => Valid X db ie).map (·.event.id)).toFinset.filter fun id =>
    db.agentEvent.contains id = false

/-- The indices of the rows that fail a check, the first row having this index. -/
def invalidIndices (db : Db) (index : Nat) (batch : List IngestEvent) : List Nat :=
  ((batch.zipIdx index).filter fun row => ¬ Valid X db row.1).map (·.2)

/-- The report of a batch, held against the tables before and after it. -/
structure Accounts (db : Db) (batch : List IngestEvent) (report : IngestReport) (db' : Db) : Prop where
  total : report.accepted + report.skipped + report.rejected.length = batch.length
  rejectedIncreasing : (report.rejected.map (·.index)).Pairwise (· < ·)
  rejectedInvalid : ∀ index, index ∈ report.rejected.map (·.index) ↔
    ∃ ie, batch[index]? = some ie ∧ ¬ Valid X db ie
  acceptedNew : report.accepted = (newIds X db batch).card
  /-- The rows that are added are the accepted ones: the first valid row of each new id. -/
  added : ∃ rows, db'.agentEvent.rows = db.agentEvent.rows ++ rows ∧ rows.length = report.accepted ∧
    (∀ r, r ∈ rows ↔ Inserted X db batch r) ∧ db' = { db with agentEvent := db'.agentEvent }

/-- The batch, ingested again whatever the storage does, accepts and adds nothing. -/
structure BatchSettled (batch : List IngestEvent) (db : Db) : Prop where
  unchanged : ∀ E w, w.db = db → ((ingestEvents X batch).run (handle E) w).2.db = db
  accepted : ∀ E w progress w', w.db = db →
    (ingestEvents X batch).run (handle E) w = (.ok progress, w') → progress.1.accepted = 0
  succeeds : ∀ E w, w.db = db → (∀ n, E.fault n = false) →
    ∃ progress w', (ingestEvents X batch).run (handle E) w = (.ok progress, w')

variable {X} {db db' : Db} {ie : IngestEvent} {batch : List IngestEvent}

/-! ### New ids -/

theorem mem_newIds {id : EventId} :
    id ∈ newIds X db batch ↔
      (∃ ie ∈ batch, Valid X db ie ∧ ie.event.id = id) ∧ db.agentEvent.contains id = false := by
  simp [newIds, and_assoc]

theorem newIds_skip (h : ¬ Valid X db ie ∨ db.agentEvent.contains ie.event.id = true) :
    newIds X db (ie :: batch) = newIds X db batch := by
  ext id
  rw [mem_newIds, mem_newIds]
  refine and_congr_left fun hfresh => ?_
  simp only [List.mem_cons, or_and_right, exists_or, exists_eq_left, or_iff_right_iff_imp]
  rintro ⟨hvalid, rfl⟩
  rcases h with h | h
  · exact absurd hvalid h
  · rw [h] at hfresh
    cases hfresh

/-- The id of a row that has been inserted is new no more. -/
theorem newIds_insert {t : Table AgentEventRow.id} (hvalid : Valid X db ie)
    (hfresh : db.agentEvent.contains ie.event.id = false) (hins : db.agentEvent.insert? ie.row = some t) :
    (newIds X db (ie :: batch)).card = (newIds X { db with agentEvent := t } batch).card + 1 := by
  have hcontains : ∀ id, t.contains id = false ↔ db.agentEvent.contains id = false ∧ ie.event.id ≠ id := by
    intro id
    rw [Table.contains_insert? hins, Bool.or_eq_false_iff, decide_eq_false_iff_not]
    rfl
  have hvalid_iff : ∀ ie', Valid X { db with agentEvent := t } ie' ↔ Valid X db ie' := fun _ => valid_congr rfl
  have hinsert : newIds X db (ie :: batch) = insert ie.event.id (newIds X { db with agentEvent := t } batch) := by
    ext id
    rw [Finset.mem_insert, mem_newIds, mem_newIds, hcontains]
    constructor
    · rintro ⟨⟨ie', hie', hvalid', hid⟩, hnew⟩
      by_cases hsame : ie.event.id = id
      · exact Or.inl hsame.symm
      · rcases List.mem_cons.mp hie' with rfl | hie'
        · exact absurd hid hsame
        · exact Or.inr ⟨⟨ie', hie', (hvalid_iff ie').mpr hvalid', hid⟩, hnew, hsame⟩
    · rintro (rfl | ⟨⟨ie', hie', hvalid', hid⟩, hnew, -⟩)
      · exact ⟨⟨ie, List.mem_cons_self, hvalid, rfl⟩, hfresh⟩
      · exact ⟨⟨ie', List.mem_cons_of_mem _ hie', (hvalid_iff ie').mp hvalid', hid⟩, hnew⟩
  rw [hinsert, Finset.card_insert_of_notMem]
  rw [mem_newIds]
  rintro ⟨-, hnew⟩
  exact ((hcontains _).mp hnew).2 rfl

/-- The rows that a batch adds come after those that were there, one for each new id. -/
theorem landAll_rows (batch : List IngestEvent) {db : Db} (h : landAll X db batch = .ok db') :
    ∃ rows, db'.agentEvent.rows = db.agentEvent.rows ++ rows ∧ rows.length = (newIds X db batch).card ∧
      db' = { db with agentEvent := db'.agentEvent } := by
  induction batch generalizing db with
  | nil =>
    cases h
    exact ⟨[], by simp, rfl, rfl⟩
  | cons ie batch ih =>
    rw [landAll] at h
    cases hrow : landRow X db ie with
    | error e =>
      rw [hrow] at h
      cases h
    | ok db₁ =>
      rw [hrow] at h
      obtain ⟨rows, hrows, hlength, hframe⟩ := ih h
      rcases landRow_cases hrow with ⟨hskip, rfl⟩ | ⟨hvalid, hfresh, -, t, hins, rfl⟩
      · rw [newIds_skip hskip]
        exact ⟨rows, hrows, hlength, hframe⟩
      · refine ⟨ie.row :: rows, ?_, ?_, hframe⟩
        · rw [hrows, (Table.insert?_eq_some.mp hins).2, List.append_assoc, List.singleton_append]
        · rw [newIds_insert hvalid hfresh hins, List.length_cons, hlength]

/-! ### The report -/

theorem invalidIndices_cons (index : Nat) :
    invalidIndices X db index (ie :: batch) =
      (if Valid X db ie then [] else [index]) ++ invalidIndices X db (index + 1) batch := by
  rw [invalidIndices, List.zipIdx_cons, List.filter_cons]
  by_cases h : Valid X db ie <;> simp [h, invalidIndices]

theorem invalidIndices_congr (h : db'.workspace = db.workspace) (index : Nat) :
    invalidIndices X db' index batch = invalidIndices X db index batch := by
  simp only [invalidIndices, valid_congr h]

theorem mem_invalidIndices {index : Nat} :
    index ∈ invalidIndices X db 0 batch ↔ ∃ ie, batch[index]? = some ie ∧ ¬ Valid X db ie := by
  simp [invalidIndices, List.mem_zipIdx_iff_getElem?]

theorem invalidIndices_increasing (index : Nat) (batch : List IngestEvent) :
    (invalidIndices X db index batch).Pairwise (· < ·) := by
  have hsub : (invalidIndices X db index batch).Sublist (List.range' index batch.length) := by
    rw [← List.zipIdx_map_snd, invalidIndices]
    exact (List.filter_sublist).map _
  exact (List.pairwise_lt_range' 1 Nat.one_pos).sublist hsub

theorem saturatingSucc_of_lt {n : Nat} (h : n + 1 < 2 ^ 32) : saturatingSucc n = n + 1 := by
  rw [saturatingSucc]
  omega

/-- What the loop adds to the report, as long as its counters have room. -/
theorem ingestLoop_counts {E : Env} {index : Nat} {progress progress' : IngestProgress} {w w' : World}
    (hroom : progress.1.accepted + batch.length < 2 ^ 32 ∧ progress.1.skipped + batch.length < 2 ^ 32)
    (h : (ingestLoop X index progress batch).run (handle E) w = (.ok progress', w')) :
    progress'.1.accepted = progress.1.accepted + (newIds X w.db batch).card ∧
      progress'.1.accepted + progress'.1.skipped + progress'.1.rejected.length =
        progress.1.accepted + progress.1.skipped + progress.1.rejected.length + batch.length ∧
      progress'.1.rejected.map (·.index) =
        progress.1.rejected.map (·.index) ++ invalidIndices X w.db index batch := by
  induction batch generalizing index progress w with
  | nil =>
    cases h
    simp [newIds, invalidIndices]
  | cons ie batch ih =>
    rw [ingestLoop, Prog.run_bind] at h
    generalize hrun : (ingestRow X index ie progress).run (handle E) w = out at h
    obtain ⟨res, w₁⟩ := out
    cases res with
    | error e => cases h
    | ok progress₁ =>
      have hrow := ingestRow_outcome (X := X) E index ie progress w
      rw [hrun] at hrow
      have hland : landRow X w.db ie = .ok w₁.db := by
        cases hrow with
        | landed _ _ hland => exact hland
      have hindices : invalidIndices X w₁.db (index + 1) batch = invalidIndices X w.db (index + 1) batch :=
        invalidIndices_congr (workspace_of_landRow hland) (index + 1)
      rw [List.length_cons] at hroom
      rw [invalidIndices_cons]
      rcases ingestRow_counts hrun with ⟨hvalid, rfl⟩ | ⟨hinvalid, reason, rfl⟩
      · rcases landRow_cases hland with ⟨hskip, hsame⟩ | ⟨-, hfresh, -, t, hins, hdb⟩
        · have hstored : w.db.agentEvent.contains ie.event.id = true := hskip.resolve_left (not_not_intro hvalid)
          have hcount : progress.1.count (!w.db.agentEvent.contains ie.event.id) =
              { progress.1 with skipped := progress.1.skipped + 1 } := by
            rw [hstored, IngestReport.count, if_neg (by decide), saturatingSucc_of_lt (by omega)]
          rw [hcount] at h
          obtain ⟨haccepted, htotal, hrejected⟩ := ih ⟨by dsimp only; omega, by dsimp only; omega⟩ h
          dsimp only at haccepted htotal hrejected
          rw [hsame] at haccepted
          rw [hindices] at hrejected
          rw [newIds_skip hskip, if_pos hvalid, List.nil_append, List.length_cons]
          exact ⟨haccepted, by omega, hrejected⟩
        · have hcount : progress.1.count (!w.db.agentEvent.contains ie.event.id) =
              { progress.1 with accepted := progress.1.accepted + 1 } := by
            rw [hfresh, IngestReport.count, if_pos (by decide), saturatingSucc_of_lt (by omega)]
          rw [hcount] at h
          obtain ⟨haccepted, htotal, hrejected⟩ := ih ⟨by dsimp only; omega, by dsimp only; omega⟩ h
          dsimp only at haccepted htotal hrejected
          rw [hdb] at haccepted
          rw [hindices] at hrejected
          rw [newIds_insert hvalid hfresh hins, if_pos hvalid, List.nil_append, List.length_cons]
          exact ⟨by omega, by omega, hrejected⟩
      · obtain ⟨haccepted, htotal, hrejected⟩ := ih ⟨by dsimp only [IngestReport.reject]; omega,
          by dsimp only [IngestReport.reject]; omega⟩ h
        have hsame : w₁.db = w.db := by
          rw [landRow_skip (Or.inl hinvalid)] at hland
          exact (Except.ok.inj hland).symm
        rw [hindices] at hrejected
        rw [hsame] at haccepted
        simp only [IngestReport.reject, List.map_append, List.map_cons, List.map_nil, List.length_append,
          List.length_singleton] at haccepted htotal hrejected
        rw [newIds_skip (Or.inl hinvalid), if_neg hinvalid, List.length_cons, ← List.append_assoc]
        exact ⟨haccepted, by omega, hrejected⟩

/-! ### The same batch again -/

/-- Rows that are invalid or stored leave the database as it is. -/
theorem landAll_stored (batch : List IngestEvent)
    (h : ∀ ie ∈ batch, ¬ Valid X db ie ∨ db.agentEvent.contains ie.event.id = true) :
    landAll X db batch = .ok db := by
  induction batch with
  | nil => rfl
  | cons ie batch ih =>
    rw [landAll_cons (landRow_skip (h ie List.mem_cons_self))]
    exact ih fun ie' hie' => h ie' (List.mem_cons_of_mem _ hie')

theorem settled_of_stored (h : ∀ ie ∈ batch, ¬ Valid X db ie ∨ db.agentEvent.contains ie.event.id = true)
    (hlength : batch.length < 2 ^ 32) : BatchSettled X batch db := by
  refine ⟨fun E w hdb => ?_, fun E w progress w' hdb hrun => ?_, fun E w hdb hfault => ?_⟩
  · subst hdb
    have hout := ingestEvents_outcome (X := X) E batch w
    cases hrun : (ingestEvents X batch).run (handle E) w with
    | mk res w' =>
      rw [hrun] at hout
      cases hout with
      | finished progress _ hall =>
        rw [landAll_stored batch h] at hall
        exact (Except.ok.inj hall).symm
      | stopped e _ done ie rest hbatch hdone _ =>
        have hsub : ∀ ie ∈ done, ¬ Valid X w.db ie ∨ w.db.agentEvent.contains ie.event.id = true := by
          intro ie' hie'
          exact h ie' (by rw [hbatch]; exact List.mem_append_left _ hie')
        rw [landAll_stored done hsub] at hdone
        exact (Except.ok.inj hdone).symm
  · subst hdb
    have hcounts := (ingestLoop_counts ⟨by rw [Nat.zero_add]; exact hlength, by rw [Nat.zero_add]; exact hlength⟩ hrun).1
    have hnone : newIds X w.db batch = ∅ := by
      rw [Finset.eq_empty_iff_forall_notMem]
      intro id hid
      obtain ⟨⟨ie, hie, hvalid, rfl⟩, hfresh⟩ := mem_newIds.mp hid
      rw [(h ie hie).resolve_left (not_not_intro hvalid)] at hfresh
      cases hfresh
    rw [hcounts, hnone, Finset.card_empty]
  · subst hdb
    have hall : AllPass X w.db batch := by
      rintro p ie q rfl hvalid
      have hstored := (h ie (List.mem_append_right _ List.mem_cons_self)).resolve_left (not_not_intro hvalid)
      exact Or.inl (Or.inl hstored)
    obtain ⟨progress, w', hrun, -⟩ := ingestEvents_of_allPass hfault hall
    exact ⟨progress, w', hrun⟩

/-- **The accounts of a batch.** Whatever the database and the storage, when a batch of fewer than `2 ^ 32` rows is ingested to its end the report adds up with the table before and after, and the batch, ingested again, accepts and adds nothing. -/
theorem ingest_accounts (X : Crates) (E : Env) (w w' : World) (batch : List IngestEvent) (progress : IngestProgress)
    (hlength : batch.length < 2 ^ 32)
    (hrun : (ingestEvents X batch).run (handle E) w = (.ok progress, w')) :
    Accounts X w.db batch progress.1 w'.db ∧ BatchSettled X batch w'.db := by
  have hout := ingestEvents_outcome (X := X) E batch w
  rw [hrun] at hout
  have hall : landAll X w.db batch = .ok w'.db := by
    cases hout with
    | finished _ _ hall => exact hall
  have hlanded := ((landAll_spec w.db batch).1 _ hall).2
  obtain ⟨haccepted, htotal, hrejected⟩ :=
    ingestLoop_counts ⟨by rw [Nat.zero_add]; exact hlength, by rw [Nat.zero_add]; exact hlength⟩ hrun
  simp only [Nat.zero_add, List.length_nil, List.map_nil, List.nil_append] at haccepted htotal hrejected
  obtain ⟨rows, hrows, hcard, hframe⟩ := landAll_rows batch hall
  refine ⟨⟨htotal, ?_, fun index => ?_, haccepted, rows, hrows, ?_, fun r => ?_, hframe⟩, ?_⟩
  · rw [hrejected]
    exact invalidIndices_increasing 0 batch
  · rw [hrejected, mem_invalidIndices]
  · rw [hcard, haccepted]
  · have hmem := hlanded.mem r
    rw [Table.mem_iff, Table.mem_iff, hrows, List.mem_append] at hmem
    have hkeys := w'.db.agentEvent.keysNodup
    rw [hrows, List.map_append, List.nodup_append] at hkeys
    constructor
    · intro hr
      refine (hmem.mp (Or.inr hr)).resolve_left fun hold => ?_
      exact hkeys.2.2 _ (List.mem_map_of_mem hold) _ (List.mem_map_of_mem hr) rfl
    · intro hinserted
      refine (hmem.mpr (Or.inr hinserted)).resolve_left fun hold => ?_
      obtain ⟨p, ie, q, -, hnew, rfl⟩ := hinserted
      exact hnew.first (Or.inl (Table.contains_iff.mpr ⟨ie.row, hold, rfl⟩))
  · refine settled_of_stored (fun ie hie => ?_) hlength
    by_cases hvalid : Valid X w'.db ie
    · exact Or.inr ((hlanded.contains _).mpr (Or.inr ⟨ie, hie, hlanded.valid_iff.mp hvalid, rfl⟩))
    · exact Or.inl hvalid

/-- A row without a device, and one row twice. -/
def mixedBatch : List IngestEvent :=
  [{ IngestEvent.sample "\"paid\"" "\"paid\"" zeros "note" with deviceId := "" },
    IngestEvent.sample "\"paid\"" "\"paid\"" zeros "note", IngestEvent.sample "\"paid\"" "\"paid\"" zeros "note"]

theorem ingest_accounts_mixed : ∃ (progress : IngestProgress) (w' : World), progress.1.accepted = 1 ∧ progress.1.skipped = 1 ∧
    Accounts Crates.sample Db.sample mixedBatch progress.1 w'.db ∧ BatchSettled Crates.sample mixedBatch w'.db := by
  have hcounts : ((ingestEvents Crates.sample mixedBatch).run (handle .wholeSeconds) (World.start Db.sample)).1.toOption.map
      (fun progress => (progress.1.accepted, progress.1.skipped)) = some (1, 1) := by
    decide +kernel
  cases hrun : (ingestEvents Crates.sample mixedBatch).run (handle .wholeSeconds) (World.start Db.sample) with
  | mk res w' =>
    rw [hrun] at hcounts
    cases res with
    | error e => cases hcounts
    | ok progress =>
      obtain ⟨haccepted, hskipped⟩ := Prod.mk.inj (Option.some.inj hcounts)
      exact ⟨progress, w', haccepted, hskipped,
        ingest_accounts Crates.sample .wholeSeconds (World.start Db.sample) w' mixedBatch progress (by decide) hrun⟩

end ActantDb
