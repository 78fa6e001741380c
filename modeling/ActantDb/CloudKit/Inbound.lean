import Mathlib.Data.List.MinMax
import Mathlib.Data.List.Sort
import ActantDb.CloudKit.Records

/-!
# Pulling from the zone

A pass asks for the first 200 records whose physical part is beyond that of the cursor, hands what it can read to `ingest` and moves the cursor to the greatest stamp among it. It never asks for a record again whose physical part is not beyond the cursor's. So it misses what is not among the 200 and shares the physical part of the last of them, what could not be fetched, and what becomes visible to queries only when the cursor has passed it.
-/

namespace ActantDb

namespace CloudKit

/-! ### A pass -/

/-- Whether a query for what is beyond the cursor matches. -/
def CKRecord.matches (cursor : Option HLCCursor) (rec : CKRecord) : Bool :=
  match cursor with
  | none => true
  | some c => match rec.number? "hlc_physical_ms" with
    | none => false
    | some n => decide (c.physicalMS < n)

/-- A missing number comes first. -/
def numberKey : Option Int → Int ×ₗ Int
  | none => toLex (0, 0)
  | some n => toLex (1, n)

/-- What the query sorts by; `rank` is how the server orders ties. -/
def CKRecord.sortKey (rank : CKRecord → Nat) (rec : CKRecord) : (Int ×ₗ Int) ×ₗ (Int ×ₗ Int) ×ₗ Nat :=
  toLex (numberKey (rec.number? "hlc_physical_ms"), toLex (numberKey (rec.number? "hlc_logical"), rank rec))

structure Zone where
  records : List CKRecord
  -- those that queries see
  indexed : List CKRecord
  lastSynced : Option HLCCursor
  -- what has been handed to `ingest`
  ingested : List EventRow

inductive ZoneStep where
  -- any device saves a record, unless there is one of its name
  | save (rec : CKRecord)
  -- the record of this name becomes visible to queries
  | index (name : String)
  -- a pass: the query is answered, but for the records that could not be fetched, and `ingest` returns or throws
  | pull (rank : CKRecord → Nat) (fails : CKRecord → Bool) (ingests : Bool)

namespace Zone

variable (s : Zone)

/-- `matchResults`, the answer of the query. -/
def page (rank : CKRecord → Nat) : List CKRecord :=
  ((s.indexed.filter (·.matches s.lastSynced)).insertionSort fun a b => a.sortKey rank ≤ b.sortKey rank).take 200

/-- What of the answer could be fetched and read. -/
def rows (rank : CKRecord → Nat) (fails : CKRecord → Bool) : List EventRow :=
  (s.page rank).filterMap fun rec => if fails rec then none else EventRow.fromRecord rec

def pullInboundBatch (rank : CKRecord → Nat) (fails : CKRecord → Bool) (ingests : Bool) : Zone :=
  let rows := s.rows rank fails
  if rows = [] then s
  else
    let s := { s with ingested := s.ingested ++ rows }
    if ingests then { s with lastSynced := (rows.argmax (·.hlc)).map (·.hlc) } else s

def step : ZoneStep → Zone
  | .save rec => if ∃ r ∈ s.records, r.recordName = rec.recordName then s else { s with records := s.records ++ [rec] }
  | .index name =>
    if ∃ r ∈ s.indexed, r.recordName = name then s
    else { s with indexed := s.indexed ++ s.records.filter fun r => r.recordName = name }
  | .pull rank fails ingests => s.pullInboundBatch rank fails ingests

/-! ### What is asked of the steps -/

/-- The cursor has passed the row. -/
def Behind (row : EventRow) : Prop := ∃ c ∈ s.lastSynced, row.hlc.physicalMS ≤ c.physicalMS

/-- Every well-formed record of the zone has been handed to `ingest`. -/
def Complete : Prop := ∀ rec ∈ s.records, ∀ row, EventRow.fromRecord rec = some row → row ∈ s.ingested

/-- Every well-formed record is visible to queries, if it has not been handed over. -/
def Settled : Prop :=
  ∀ rec ∈ s.records, ∀ row, EventRow.fromRecord rec = some row → rec ∈ s.indexed ∨ row ∈ s.ingested

/-- No record becomes visible behind the cursor, and a pass that moves the cursor leaves out none that it moves it past; but for what has been handed over before. -/
def Covers : ZoneStep → Prop
  | .save _ => True
  | .index name =>
    (∀ r ∈ s.indexed, r.recordName ≠ name) → ∀ rec ∈ s.records, rec.recordName = name →
      ∀ row, EventRow.fromRecord rec = some row → s.Behind row → row ∈ s.ingested
  | .pull rank fails ingests =>
    ingests = true → ∀ rec ∈ s.indexed, ∀ row, EventRow.fromRecord rec = some row → ¬ s.Behind row →
      row ∈ s.ingested ∨ row ∈ s.rows rank fails ∨
        ∀ row' ∈ s.rows rank fails, row'.hlc.physicalMS < row.hlc.physicalMS

/-- What is visible and behind the cursor has been handed over. -/
def Caught : Prop :=
  ∀ rec ∈ s.indexed, ∀ row, EventRow.fromRecord rec = some row → s.Behind row → row ∈ s.ingested

variable {s} {rank : CKRecord → Nat} {fails : CKRecord → Bool}

theorem mem_page {rec : CKRecord} (h : rec ∈ s.page rank) : rec ∈ s.indexed ∧ rec.matches s.lastSynced = true := by
  have hmem := List.mem_of_mem_take h
  rwa [List.mem_insertionSort, List.mem_filter] at hmem

theorem page_eq_nil : s.page rank = [] ↔ ∀ rec ∈ s.indexed, rec.matches s.lastSynced = false := by
  rw [page, List.take_eq_nil_iff, or_iff_right (by decide), ← List.length_eq_zero_iff, List.length_insertionSort,
    List.length_eq_zero_iff, List.filter_eq_nil_iff]
  simp

theorem matches_eq {rec : CKRecord} {row : EventRow} (h : EventRow.fromRecord rec = some row) :
    rec.matches s.lastSynced = true ↔ ¬ s.Behind row := by
  rw [Behind]
  cases s.lastSynced with
  | none => simp [CKRecord.matches]
  | some c => simp [CKRecord.matches, EventRow.physical_of_fromRecord h]

/-- A pass hands over what is ahead of the cursor. -/
theorem not_behind_of_mem_rows {row : EventRow} (h : row ∈ s.rows rank fails) : ¬ s.Behind row := by
  obtain ⟨rec, hrec, hrow⟩ := List.mem_filterMap.mp h
  split at hrow
  · cases hrow
  · exact (matches_eq hrow).mp (mem_page hrec).2

/-- The cursor a pass leaves has passed just the rows that are not beyond all it has handed over. -/
theorem behind_max {rows : List EventRow} (hrows : rows ≠ []) {row : EventRow} :
    (∃ c ∈ (rows.argmax (·.hlc)).map (·.hlc), row.hlc.physicalMS ≤ c.physicalMS) ↔
      ¬ ∀ row' ∈ rows, row'.hlc.physicalMS < row.hlc.physicalMS := by
  cases hmax : rows.argmax (·.hlc) with
  | none => exact absurd (List.argmax_eq_none.mp hmax) hrows
  | some top =>
    simp only [Option.map_some, Option.mem_def, Option.some.injEq, exists_eq_left', not_forall, not_lt]
    constructor
    · intro hbehind
      exact ⟨top, List.argmax_mem hmax, hbehind⟩
    · rintro ⟨row', hrow', hbehind⟩
      exact hbehind.trans (HLCCursor.physicalMS_le (List.le_of_mem_argmax hrow' hmax))

/-- A pass whose `ingest` returns moves the cursor past what it has handed over, and past what it has left out. -/
theorem caught_pull (ingests : Bool) :
    (s.step (.pull rank fails ingests)).Caught ↔ s.Caught ∧ s.Covers (.pull rank fails ingests) := by
  rw [step, pullInboundBatch, Covers]
  by_cases hrows : s.rows rank fails = []
  · simp [hrows]
  simp only [if_neg hrows]
  -- what the pass hands over was not behind the cursor, so it makes up for nothing
  have hkeeps : ∀ row, s.Behind row → (row ∈ s.ingested ++ s.rows rank fails ↔ row ∈ s.ingested) := by
    intro row hbehind
    rw [List.mem_append, or_iff_left fun h => not_behind_of_mem_rows h hbehind]
  cases ingests with
  | false =>
    simp only [Bool.false_eq_true, if_false, false_imp_iff, and_true]
    exact forall₂_congr fun rec _ => forall₂_congr fun row _ => imp_congr_right fun hbehind => hkeeps row hbehind
  | true =>
    simp only [if_true, true_imp_iff]
    constructor
    · intro h
      have hpassed : ∀ rec ∈ s.indexed, ∀ row, EventRow.fromRecord rec = some row →
          ¬ (∀ row' ∈ s.rows rank fails, row'.hlc.physicalMS < row.hlc.physicalMS) →
            row ∈ s.ingested ++ s.rows rank fails :=
        fun rec hrec row hrow hreached => h rec hrec row hrow ((behind_max hrows).mpr hreached)
      refine ⟨fun rec hrec row hrow hbehind => ?_, fun rec hrec row hrow _ => ?_⟩
      · refine (hkeeps row hbehind).mp (hpassed rec hrec row hrow fun hbeyond => ?_)
        -- the rows of the pass are ahead of the cursor, so ahead of what is behind it
        obtain ⟨row', hrow'⟩ := List.exists_mem_of_ne_nil _ hrows
        obtain ⟨c, hc, hle⟩ := hbehind
        exact not_behind_of_mem_rows hrow' ⟨c, hc, (hbeyond row' hrow').le.trans hle⟩
      · by_cases hbeyond : ∀ row' ∈ s.rows rank fails, row'.hlc.physicalMS < row.hlc.physicalMS
        · exact Or.inr (Or.inr hbeyond)
        · rcases List.mem_append.mp (hpassed rec hrec row hrow hbeyond) with hmem | hmem
          · exact Or.inl hmem
          · exact Or.inr (Or.inl hmem)
    · rintro ⟨hcaught, hcovers⟩ rec hrec row hrow hbehind
      have hreached := (behind_max hrows).mp hbehind
      by_cases hbefore : s.Behind row
      · exact List.mem_append_left _ (hcaught rec hrec row hrow hbefore)
      · rcases hcovers rec hrec row hrow hbefore with hmem | hmem | hbeyond
        · exact List.mem_append_left _ hmem
        · exact List.mem_append_right _ hmem
        · exact absurd hbeyond hreached

theorem caught_index (name : String) : (s.step (.index name)).Caught ↔ s.Caught ∧ s.Covers (.index name) := by
  rw [step]
  by_cases hthere : ∃ r ∈ s.indexed, r.recordName = name
  · rw [if_pos hthere, Covers]
    obtain ⟨r, hr, hname⟩ := hthere
    exact (and_iff_left fun h => absurd hname (h r hr)).symm
  · rw [if_neg hthere]
    have hnew : ∀ r ∈ s.indexed, r.recordName ≠ name := fun r hr hname => hthere ⟨r, hr, hname⟩
    constructor
    · intro h
      refine ⟨fun rec hrec => h rec (List.mem_append_left _ hrec), fun _ rec hrec hname => h rec ?_⟩
      exact List.mem_append_right _ (List.mem_filter.mpr ⟨hrec, by simpa using hname⟩)
    · rintro ⟨hcaught, hcovers⟩ rec hrec
      rcases List.mem_append.mp hrec with hrec | hrec
      · exact hcaught rec hrec
      · obtain ⟨hrec, hname⟩ := List.mem_filter.mp hrec
        exact hcovers hnew rec hrec (by simpa using hname)

theorem caught_step (l : ZoneStep) : (s.step l).Caught ↔ s.Caught ∧ s.Covers l := by
  cases l with
  | save rec =>
    rw [step, Covers, and_true]
    split <;> rfl
  | index name => exact caught_index name
  | pull rank fails ingests => exact caught_pull ingests

/-- A run leaves nothing behind just when none of its steps does. -/
theorem caught_run (steps : List ZoneStep) :
    (Lts.run step s steps).Caught ↔ s.Caught ∧ Lts.EveryStep step Covers s steps := by
  induction steps generalizing s with
  | nil => exact (and_iff_left trivial).symm
  | cons l steps ih => rw [Lts.run_cons, ih, caught_step, and_assoc, Lts.everyStep_cons]

/-! ### Whole histories -/

/-- What queries see is in the zone. -/
theorem indexed_run {s : Zone} (h : ∀ rec ∈ s.indexed, rec ∈ s.records) (steps : List ZoneStep) :
    ∀ rec ∈ (Lts.run step s steps).indexed, rec ∈ (Lts.run step s steps).records := by
  refine Lts.run_invariant (fun s : Zone => ∀ rec ∈ s.indexed, rec ∈ s.records) (fun s l h _ => ?_) h
    (Lts.everyStep_true steps)
  cases l with
  | save rec =>
    rw [step]
    split
    · exact h
    · exact fun r hr => List.mem_append_left _ (h r hr)
  | index name =>
    rw [step]
    split
    · exact h
    · intro r hr
      rcases List.mem_append.mp hr with hr | hr
      · exact h r hr
      · exact (List.mem_filter.mp hr).1
  | pull rank fails ingests =>
    rw [step, pullInboundBatch]
    dsimp only
    split
    · exact h
    · split <;> exact h

/-- Where a query returns nothing, all that it sees is behind the cursor. -/
theorem complete_iff_caught (hindexed : ∀ rec ∈ s.indexed, rec ∈ s.records) (hnothing : s.page rank = []) :
    s.Complete ↔ s.Caught ∧ s.Settled := by
  constructor
  · intro h
    exact ⟨fun rec hrec row hrow _ => h rec (hindexed rec hrec) row hrow,
      fun rec hrec row hrow => Or.inr (h rec hrec row hrow)⟩
  · rintro ⟨hcaught, hsettled⟩ rec hrec row hrow
    rcases hsettled rec hrec row hrow with hvisible | hmem
    · refine hcaught rec hvisible row hrow ?_
      by_contra hahead
      have hmatches := (matches_eq hrow).mpr hahead
      rw [page_eq_nil.mp hnothing rec hvisible] at hmatches
      cases hmatches
    · exact hmem

def start : Zone := ⟨[], [], none, []⟩

/-- **A device has received the zone**, in a history at whose end a query returns nothing, just when none of the steps has left a record behind and none is left that queries do not see. -/
theorem pulled_iff (steps : List ZoneStep) (hnothing : (Lts.run step start steps).page rank = []) :
    (Lts.run step start steps).Complete ↔
      Lts.EveryStep step Covers start steps ∧ (Lts.run step start steps).Settled := by
  have hstart : start.Caught := fun _ h => by cases h
  rw [complete_iff_caught (indexed_run (fun _ h => by cases h) steps) hnothing, caught_run, and_iff_right hstart]

/-! ### A record that arrives late -/

def stamped (id : String) (physicalMS : Int) : EventRow :=
  ⟨id, "ws_demo", none, "phone", "act_1", "note", [123, 125], "h", none, ⟨physicalMS, 0⟩, "2026-05-18T12:00:00Z"⟩

def inOrder : List ZoneStep :=
  [.save (stamped "evt_1" 10).toRecord, .index "evt_1", .pull (fun _ => 0) (fun _ => false) true]

/-- Another device has been offline and saves an event with an earlier stamp. -/
def outOfOrder : List ZoneStep :=
  inOrder ++ [.save (stamped "evt_2" 5).toRecord, .index "evt_2", .pull (fun _ => 0) (fun _ => false) true]

theorem fromRecord_stamped (id : String) (physicalMS : Int) :
    EventRow.fromRecord (stamped id physicalMS).toRecord = some (stamped id physicalMS) :=
  EventRow.fromRecord_toRecord (Nat.two_pow_pos 32)

theorem inOrder_complete : (Lts.run step start inOrder).Complete := by
  refine (@pulled_iff (fun _ => 0) inOrder (by rfl)).mpr ⟨⟨trivial, ?_, ?_, trivial⟩, ?_⟩
  · intro _ rec _ _ row _ hbehind
    obtain ⟨c, hc, -⟩ := hbehind
    cases hc
  · intro _ rec hrec row hrow _
    obtain rfl : rec = (stamped "evt_1" 10).toRecord := List.mem_singleton.mp hrec
    rw [fromRecord_stamped] at hrow
    obtain rfl := Option.some.inj hrow
    exact Or.inr (Or.inl List.mem_cons_self)
  · intro rec hrec row hrow
    exact Or.inl hrec

theorem outOfOrder_missed :
    (Lts.run step start outOfOrder).page (fun _ => 0) = [] ∧ ¬ (Lts.run step start outOfOrder).Complete := by
  refine ⟨by rfl, fun h => ?_⟩
  have hmem : stamped "evt_2" 5 ∈ (Lts.run step start outOfOrder).ingested :=
    h _ (List.mem_cons_of_mem _ List.mem_cons_self) _ (fromRecord_stamped "evt_2" 5)
  have hingested : (Lts.run step start outOfOrder).ingested = [stamped "evt_1" 10] := by rfl
  rw [hingested, List.mem_singleton] at hmem
  exact absurd (congrArg EventRow.id hmem) (by decide)

end Zone

end CloudKit

end ActantDb
