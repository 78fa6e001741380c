import ActantDb.Core.HlcClock
import ActantDb.Storage.Replicas

/-!
# Ingesting and the local clock

`ingest_events` lets the clock observe the highest stamp of the batch after its loop. So a call that returns an error part-way leaves rows behind that the clock has not seen, and a stamp that does not fit the clock's packed word is cut before it is kept. In a run without either, every later `local_tick` is above every row that was inserted.
-/

namespace ActantDb

namespace IngestClock

open HlcClock Hlc

variable (X : Crates)

/-- The database, the word of the clock, and the stamps of the rows that calls with this clock have inserted. -/
structure ClockedWorld where
  world : World
  clock : UInt64
  inserted : List Hlc

def ClockedWorld.peek (w : ClockedWorld) : Hlc := unpack w.clock

/-- A call that has the clock, or an access of the clock; each reads the wall clock once. -/
inductive ClockStep where
  | ingest (E : Env) (batch : List IngestEvent) (reading : UInt64)
  | tick (reading : UInt64)
  | observe (remote : Hlc) (reading : UInt64)

/-- `physical_now_ms() & PHYSICAL_MASK`. -/
def physicalNow (reading : UInt64) : UInt64 := reading &&& physicalMask

/-- The word after `observe`. -/
def observed (remote : Hlc) (reading : UInt64) (clock : UInt64) : UInt64 :=
  (observeNext remote (physicalNow reading) (unpack clock)).pack

/-- The stamps of the rows of a batch that a call has inserted. -/
def insertedStamps (batch : List IngestEvent) (before after : Db) : List Hlc :=
  (batch.filter fun ie => decide (ie.row ∈ after.agentEvent) && decide (¬ ie.row ∈ before.agentEvent)).map IngestEvent.hlc

/-- The stamp `local_tick` returns. -/
def tickStamp (w : ClockedWorld) (reading : UInt64) : Hlc := tickNext (physicalNow reading) w.peek

namespace ClockedWorld

/-- `ingest_events` with the clock: the highest stamp is observed where the call returns `Ok`. -/
def ingested (w : ClockedWorld) (batch : List IngestEvent) (reading : UInt64) :
    Except ActantError IngestProgress × World → ClockedWorld
  | (.ok (_, some h), world) => ⟨world, observed h reading w.clock, w.inserted ++ insertedStamps batch w.world.db world.db⟩
  | (_, world) => ⟨world, w.clock, w.inserted ++ insertedStamps batch w.world.db world.db⟩

def step (w : ClockedWorld) : ClockStep → ClockedWorld
  | .ingest E batch reading => w.ingested batch reading ((ingestEvents X batch).run (handle E) w.world)
  | .tick reading => { w with clock := (tickStamp w reading).pack }
  | .observe remote reading => { w with clock := observed remote reading w.clock }

/-- The clock at the start, before any call. -/
def start (world : World) (clock : UInt64) : ClockedWorld := ⟨world, clock, []⟩

/-- The word can absorb the highest stamp of the rows of the batch that are valid. -/
def HighestAbsorbed (w : ClockedWorld) (batch : List IngestEvent) (reading : UInt64) : Prop :=
  ∀ ie ∈ batch, Valid X w.world.db ie → (∀ ie' ∈ batch, Valid X w.world.db ie' → ie'.hlc ≤ ie.hlc) →
    Absorbs ie.hlc (physicalNow reading) w.peek

/-- Every row of the batch that can be inserted is stamped at or below the clock. -/
def NewBelow (w : ClockedWorld) (batch : List IngestEvent) : Prop :=
  ∀ pre ie post, batch = pre ++ ie :: post → AllPass X w.world.db pre → New X w.world.db pre ie → ie.hlc ≤ w.peek

/-- A batch whose rows all pass ends with a stamp the word can absorb, and one that may not come to its end has no row above the clock. -/
def Covered (w : ClockedWorld) : ClockStep → Prop
  | .ingest E batch reading =>
    (AllPass X w.world.db batch → w.HighestAbsorbed X batch reading) ∧
      ((∀ n, E.fault n = false) ∧ AllPass X w.world.db batch ∨ w.NewBelow X batch)
  | .tick _ => True
  | .observe remote reading => Absorbs remote (physicalNow reading) w.peek

end ClockedWorld

/-! ### The highest stamp -/

variable {X} {E : Env} {w : World} {ie : IngestEvent} {batch : List IngestEvent}

theorem le_highest (maxHlc : Option Hlc) (hlc : Hlc) : hlc ≤ highest maxHlc hlc ∧ ∀ h ∈ maxHlc, h ≤ highest maxHlc hlc := by
  cases maxHlc with
  | none => simp [highest]
  | some prev =>
    rw [highest]
    split
    · simp_all
    · rename_i h
      rw [ge_iff_le, not_le] at h
      simpa using h.le

theorem highest_cases (maxHlc : Option Hlc) (hlc : Hlc) : highest maxHlc hlc = hlc ∨ maxHlc = some (highest maxHlc hlc) := by
  cases maxHlc with
  | none => exact Or.inl rfl
  | some prev =>
    rw [highest]
    split
    · exact Or.inr rfl
    · exact Or.inl rfl

/-- A row that is inserted or skipped raises the highest stamp, and others leave it. -/
theorem ingestRow_highest {index : Nat} {progress progress' : IngestProgress} {w' : World}
    (h : (ingestRow X index ie progress).run (handle E) w = (.ok progress', w')) :
    progress'.2 = if Valid X w.db ie then some (highest progress.2 ie.hlc) else progress.2 := by
  rcases ingestRow_progress h with ⟨hvalid, inserted, rfl⟩ | ⟨hinvalid, reason, rfl⟩
  · exact (if_pos hvalid).symm
  · exact (if_neg hinvalid).symm

/-- The stamp that is observed is above those of the valid rows, and it is one of them. -/
theorem ingestLoop_highest {index : Nat} {progress progress' : IngestProgress} {w' : World}
    (h : (ingestLoop X index progress batch).run (handle E) w = (.ok progress', w')) :
    (∀ hlc, (progress.2 = some hlc ∨ ∃ ie ∈ batch, Valid X w.db ie ∧ ie.hlc = hlc) → ∃ top ∈ progress'.2, hlc ≤ top) ∧
      ∀ top ∈ progress'.2, progress.2 = some top ∨ ∃ ie ∈ batch, Valid X w.db ie ∧ ie.hlc = top := by
  induction batch generalizing index progress w with
  | nil =>
    cases h
    refine ⟨fun hlc hsome => ?_, fun top htop => Or.inl htop⟩
    obtain ⟨ie, hie, -⟩ | hsome := hsome.symm
    · cases hie
    · exact ⟨hlc, hsome, le_rfl⟩
  | cons ie batch ih =>
    rw [ingestLoop, Prog.run_bind] at h
    generalize hrun : (ingestRow X index ie progress).run (handle E) w = out at h
    obtain ⟨res, w₁⟩ := out
    cases res with
    | error e => cases h
    | ok progress₁ =>
      have hhighest := ingestRow_highest hrun
      have hvalid : ∀ ie', Valid X w₁.db ie' ↔ Valid X w.db ie' := fun _ => valid_congr (workspace_of_ingestRow hrun)
      obtain ⟨hup, htop⟩ := ih h
      simp only [hvalid] at hup htop
      constructor
      · rintro hlc (hsome | ⟨ie', hie', hv, rfl⟩)
        · by_cases hv : Valid X w.db ie
          · rw [if_pos hv] at hhighest
            obtain ⟨top, hmem, hle⟩ := hup _ (Or.inl hhighest)
            exact ⟨top, hmem, ((le_highest progress.2 ie.hlc).2 hlc hsome).trans hle⟩
          · rw [if_neg hv] at hhighest
            exact hup hlc (Or.inl (hhighest.trans hsome))
        · rcases List.mem_cons.mp hie' with rfl | hie'
          · rw [if_pos hv] at hhighest
            obtain ⟨top, hmem, hle⟩ := hup _ (Or.inl hhighest)
            exact ⟨top, hmem, (le_highest progress.2 ie'.hlc).1.trans hle⟩
          · exact hup _ (Or.inr ⟨ie', hie', hv, rfl⟩)
      · intro top hmem
        rcases htop top hmem with hsome | ⟨ie', hie', hv, rfl⟩
        · rw [hsome] at hhighest
          by_cases hv : Valid X w.db ie
          · rw [if_pos hv, Option.some.injEq] at hhighest
            rcases highest_cases progress.2 ie.hlc with heq | heq
            · exact Or.inr ⟨ie, List.mem_cons_self, hv, heq.symm.trans hhighest.symm⟩
            · exact Or.inl (heq.trans (congrArg some hhighest.symm))
          · rw [if_neg hv] at hhighest
            exact Or.inl hhighest.symm
        · exact Or.inr ⟨ie', List.mem_cons_of_mem _ hie', hv, rfl⟩

/-! ### What a call inserts -/

theorem toI64_inj {a b : UInt64} (h : toI64 a.toNat = toI64 b.toNat) : a = b := by
  have ha := a.toNat_lt
  have hb := b.toNat_lt
  apply UInt64.toNat_inj.mp
  unfold toI64 at h
  split at h <;> split at h <;> omega

/-- The row tells its stamp. -/
theorem hlc_eq_of_row_eq {ie ie' : IngestEvent} (h : ie.row = ie'.row) : ie.hlc = ie'.hlc := by
  have hphysical := congrArg AgentEventRow.hlcPhysicalMs h
  have hlogical := congrArg AgentEventRow.hlcLogical h
  simp only [IngestEvent.row] at hphysical hlogical
  have hp := toI64_inj hphysical
  have hl := UInt32.toNat_inj.mp (Int.ofNat_inj.mp hlogical)
  obtain ⟨_, ⟨p, l⟩, _, _⟩ := ie
  obtain ⟨_, ⟨p', l'⟩, _, _⟩ := ie'
  rw [Hlc.mk.injEq]
  exact ⟨hp, hl⟩

/-- A stamp that is inserted is that of a row that is new where it stands. -/
theorem mem_insertedStamps {done : List IngestEvent} {db db' : Db} (hlanded : Landed X db done db') {h : Hlc}
    (hmem : h ∈ insertedStamps batch db db') :
    ∃ pre ie post, done = pre ++ ie :: post ∧ New X db pre ie ∧ ie.hlc = h := by
  obtain ⟨ie, hie, rfl⟩ := List.mem_map.mp hmem
  obtain ⟨-, hsel⟩ := List.mem_filter.mp hie
  rw [Bool.and_eq_true, decide_eq_true_eq, decide_eq_true_eq] at hsel
  obtain ⟨pre, ie', post, hdone, hnew, hrow⟩ := ((hlanded.mem _).mp hsel.1).resolve_left hsel.2
  exact ⟨pre, ie', post, hdone, hnew, (hlc_eq_of_row_eq hrow).symm⟩

/-! ### Every run -/

theorem physicalNow_fits (reading : UInt64) : (physicalNow reading).toNat < 2 ^ 48 := by
  rw [physicalNow, masked_toNat]
  exact Nat.mod_lt _ (by decide)

/-- An absorbed stamp moves the clock forward, past itself. -/
theorem unpack_observed {remote : Hlc} {reading clock : UInt64} (h : Absorbs remote (physicalNow reading) (unpack clock)) :
    unpack clock ≤ unpack (observed remote reading clock) ∧ remote ≤ unpack (observed remote reading clock) := by
  rw [observed, unpack_pack (observeNext_fits (physicalNow_fits reading) (unpack_fits clock) h.1)]
  exact ⟨le_observeNext (unpack_fits clock), remote_le_observeNext h⟩

/-- The clock is at or above every stamp that was inserted. -/
def Above (w : ClockedWorld) : Prop := ∀ h ∈ w.inserted, h ≤ w.peek

theorem above_ingest {w : ClockedWorld} (habove : Above w) {batch : List IngestEvent} {reading : UInt64}
    (hcovered : w.Covered X (.ingest E batch reading)) : Above (w.step X (.ingest E batch reading)) := by
  obtain ⟨hhighest, hreaches⟩ := hcovered
  rw [ClockedWorld.step]
  generalize hrun : (ingestEvents X batch).run (handle E) w.world = out
  have hbatch : BatchOutcome X E batch w.world out := hrun ▸ ingestEvents_outcome E batch w.world
  cases hbatch with
  | finished progress world hall =>
    obtain ⟨hpass, hlanded⟩ := (landAll_spec _ _).1 _ hall
    obtain ⟨hup, htop⟩ := ingestLoop_highest hrun
    obtain ⟨report, top⟩ := progress
    cases top with
    | none =>
      have hnone : insertedStamps batch w.world.db world.db = [] := by
        rw [List.eq_nil_iff_forall_not_mem]
        intro h hmem
        obtain ⟨pre, ie, post, rfl, hnew, rfl⟩ := mem_insertedStamps hlanded hmem
        obtain ⟨top, hsome, -⟩ := hup ie.hlc (Or.inr ⟨ie, by simp, hnew.valid, rfl⟩)
        cases hsome
      intro h hmem
      change h ∈ w.inserted ++ insertedStamps batch w.world.db world.db at hmem
      rw [hnone, List.append_nil] at hmem
      exact habove h hmem
    | some top =>
      -- the stamp that is observed is the highest of the valid rows
      obtain ⟨ie, hie, hvalid, hhlc⟩ := (htop top rfl).resolve_left fun hnone => by cases hnone
      have hmax : ∀ ie' ∈ batch, Valid X w.world.db ie' → ie'.hlc ≤ top := by
        intro ie' hie' hv
        obtain ⟨top', hsome, hle⟩ := hup ie'.hlc (Or.inr ⟨ie', hie', hv, rfl⟩)
        cases hsome
        exact hle
      have habsorbs : Absorbs top (physicalNow reading) (unpack w.clock) := by
        rw [← hhlc] at hmax ⊢
        exact hhighest hpass ie hie hvalid hmax
      obtain ⟨hforward, hpast⟩ := unpack_observed habsorbs
      intro h hmem
      change h ∈ w.inserted ++ insertedStamps batch w.world.db world.db at hmem
      rcases List.mem_append.mp hmem with hmem | hmem
      · exact (habove h hmem).trans hforward
      · obtain ⟨pre, ie', post, hsplit, hnew, rfl⟩ := mem_insertedStamps hlanded hmem
        exact (hmax ie' (by rw [hsplit]; simp) hnew.valid).trans hpast
  | stopped e world done ie rest hsplit hdone hstop =>
    obtain ⟨hpass, hlanded⟩ := (landAll_spec _ _).1 _ hdone
    have hbelow : w.NewBelow X batch := by
      refine hreaches.resolve_left fun ⟨hfault, hall⟩ => ?_
      -- a batch like this does not stop
      rcases hstop with ⟨n, hn⟩ | ⟨err, herr⟩
      · rw [hfault] at hn
        cases hn
      · obtain ⟨db'', hland⟩ := hlanded.landRow (hall done ie rest hsplit)
        rw [hland] at herr
        cases herr
    intro h hmem
    change h ∈ w.inserted ++ insertedStamps batch w.world.db world.db at hmem
    rcases List.mem_append.mp hmem with hmem | hmem
    · exact habove h hmem
    · obtain ⟨pre, ie', post, hdone', hnew, rfl⟩ := mem_insertedStamps hlanded hmem
      refine hbelow pre ie' (post ++ ie :: rest) (by rw [hsplit, hdone']; simp) (fun p a q heq => ?_) hnew
      exact hpass p a (q ++ ie' :: post) (by rw [hdone', heq]; simp)

theorem above_step {w : ClockedWorld} (habove : Above w) {l : ClockStep} (hcovered : w.Covered X l) : Above (w.step X l) := by
  cases l with
  | ingest E batch reading => exact above_ingest habove hcovered
  | tick reading =>
    intro h hmem
    refine (habove h hmem).trans ?_
    show unpack w.clock ≤ unpack (tickStamp w reading).pack
    rw [tickStamp, ClockedWorld.peek, unpack_pack (tickNext_fits (physicalNow_fits reading) (unpack_fits w.clock))]
    exact le_tickNext (unpack_fits w.clock)
  | observe remote reading =>
    intro h hmem
    exact (habove h hmem).trans (unpack_observed hcovered).1

/-- **A local tick is above every row that was inserted**, in every run in which no call stops part-way above the clock and the clock can absorb what it observes, unless the clock is saturated. -/
theorem tick_above_inserted {world : World} {clock : UInt64} {steps : List ClockStep}
    (hcovered : Lts.EveryStep (ClockedWorld.step X) (ClockedWorld.Covered X) (.start world clock) steps) :
    ∀ pre reading post, steps = pre ++ .tick reading :: post →
      ¬ Saturated (physicalNow reading) (Lts.run (ClockedWorld.step X) (.start world clock) pre).peek →
        ∀ h ∈ (Lts.run (ClockedWorld.step X) (.start world clock) pre).inserted,
          h < tickStamp (Lts.run (ClockedWorld.step X) (.start world clock) pre) reading := by
  intro pre reading post hsteps hsaturated h hmem
  rw [hsteps, Lts.everyStep_append] at hcovered
  have habove : Above (Lts.run (ClockedWorld.step X) (.start world clock) pre) :=
    Lts.run_invariant Above (fun _ _ hw hl => above_step hw hl) (fun h hmem => absurd hmem List.not_mem_nil) hcovered.1
  exact lt_of_le_of_lt (habove h hmem) (tickNext_lt (unpack_fits _) hsaturated)

/-! ### One row -/

/-- A call with one new row inserts it, and the clock observes its stamp. -/
theorem step_ingestOne {w : ClockedWorld} {reading : UInt64} (hfault : ∀ n, E.fault n = false)
    (hpass : AllPass X w.world.db [ie]) (hnew : New X w.world.db [] ie) (hfresh : ¬ ie.row ∈ w.world.db.agentEvent) :
    ie.hlc ∈ (w.step X (.ingest E [ie] reading)).inserted ∧
      (w.step X (.ingest E [ie] reading)).clock = observed ie.hlc reading w.clock := by
  obtain ⟨⟨report, top⟩, world, hrun, hlanded⟩ := ingestEvents_of_allPass hfault hpass
  obtain ⟨hup, htop⟩ := ingestLoop_highest hrun
  have htop' : top = some ie.hlc := by
    obtain ⟨top', hsome, -⟩ := hup ie.hlc (Or.inr ⟨ie, List.mem_cons_self, hnew.valid, rfl⟩)
    cases hsome
    rcases htop top' rfl with hnone | ⟨ie', hie', -, rfl⟩
    · cases hnone
    · rw [List.mem_singleton.mp hie']
  subst htop'
  rw [ClockedWorld.step, hrun]
  have hafter : ie.row ∈ world.db.agentEvent := (hlanded.mem _).mpr (Or.inr ⟨[], ie, [], rfl, hnew, rfl⟩)
  refine ⟨List.mem_append_right _ (List.mem_map.mpr ⟨ie, List.mem_filter.mpr ⟨List.mem_cons_self, ?_⟩, rfl⟩), rfl⟩
  rw [decide_eq_true hafter, decide_eq_true hfresh, Bool.and_self]

/-- A row with this stamp, and the id that belongs to it. -/
def stamped (X : Crates) (hlc : Hlc) : IngestEvent :=
  let ie := IngestEvent.sample "\"note\"" "\"note\"" zeros "note"
  { ie with
    event := { ie.event with id := contentDerived X ie.canonicalPayload hlc ie.event.actorId }
    hlc := hlc }

/-- The clock and the stamps after a call with that row alone. -/
def ingestedOne (X : Crates) (hlc : Hlc) : ClockedWorld :=
  (ClockedWorld.start (World.start Db.sample) 0).step X (.ingest .wholeSeconds [stamped X hlc] 0)

theorem stamped_new (X : Crates) (hlc : Hlc) : New X Db.sample [] (stamped X hlc) := by
  have hworkspace : Db.sample.workspace.contains "ws_demo" = true := by decide
  have hactor : Db.sample.actor.contains "act_demo" = true := by decide
  have hvalid : Valid X Db.sample (stamped X hlc) := ⟨by simp [stamped, IngestEvent.sample], rfl, hworkspace⟩
  refine ⟨hvalid, ?_, ⟨hactor, rfl, fun id hid => (by simp [stamped, IngestEvent.sample] at hid), rfl⟩⟩
  rintro (hstored | ⟨ie, hie, -⟩)
  · obtain ⟨r, hr, -⟩ := Table.contains_iff.mp hstored
    exact absurd hr Table.not_mem_empty
  · cases hie

theorem stamped_allPass (X : Crates) (hlc : Hlc) : AllPass X Db.sample [stamped X hlc] := by
  intro p ie q heq
  cases p with
  | nil =>
    cases heq
    exact fun _ => Or.inr (stamped_new X hlc).refers
  | cons a p => simp at heq

theorem ingestedOne_spec (X : Crates) (hlc : Hlc) :
    hlc ∈ (ingestedOne X hlc).inserted ∧ (ingestedOne X hlc).peek = unpack (observed hlc 0 0) := by
  obtain ⟨hinserted, hclock⟩ := @step_ingestOne X .wholeSeconds (stamped X hlc) (.start (World.start Db.sample) 0) 0
    (fun _ => rfl) (stamped_allPass X hlc) (stamped_new X hlc) Table.not_mem_empty
  exact ⟨hinserted, congrArg unpack hclock⟩

theorem stamped_covered (X : Crates) {hlc : Hlc} (h : Absorbs hlc 0 zero) :
    (ClockedWorld.start (World.start Db.sample) 0).Covered X (.ingest .wholeSeconds [stamped X hlc] 0) := by
  refine ⟨fun _ ie hie _ _ => ?_, Or.inl ⟨fun _ => rfl, stamped_allPass X hlc⟩⟩
  rw [List.mem_singleton.mp hie]
  exact h

/-- A tick after the call, which finds the wall clock where the stamp has it. -/
theorem tick_above_stamped :
    (⟨1700000000000, 7⟩ : Hlc) < tickStamp (ingestedOne Crates.sample ⟨1700000000000, 7⟩) 1700000000000 := by
  have hmoves : ∀ X, (⟨1700000000000, 7⟩ : Hlc) < tickStamp (ingestedOne X ⟨1700000000000, 7⟩) 1700000000000 := by
    intro X
    obtain ⟨hinserted, hpeek⟩ := ingestedOne_spec X ⟨1700000000000, 7⟩
    have hcovered : Lts.EveryStep (ClockedWorld.step X) (ClockedWorld.Covered X) (.start (World.start Db.sample) 0)
        [.ingest .wholeSeconds [stamped X ⟨1700000000000, 7⟩] 0, .tick 1700000000000] :=
      ⟨stamped_covered X (by decide), trivial, trivial⟩
    refine tick_above_inserted hcovered [.ingest .wholeSeconds [stamped X ⟨1700000000000, 7⟩] 0] 1700000000000 [] rfl ?_ _ hinserted
    show ¬ Saturated _ (ingestedOne X ⟨1700000000000, 7⟩).peek
    rw [hpeek]
    decide
  exact hmoves Crates.sample

/-- A stamp of `2 ^ 48` milliseconds is cut to zero where the clock keeps it, and the next tick is below the row. -/
theorem tick_below_inserted :
    (⟨281474976710656, 0⟩ : Hlc) ∈ (ingestedOne Crates.sample ⟨281474976710656, 0⟩).inserted ∧
      ¬ Saturated (physicalNow 0) (ingestedOne Crates.sample ⟨281474976710656, 0⟩).peek ∧
      tickStamp (ingestedOne Crates.sample ⟨281474976710656, 0⟩) 0 < ⟨281474976710656, 0⟩ := by
  obtain ⟨hinserted, hpeek⟩ := ingestedOne_spec Crates.sample ⟨281474976710656, 0⟩
  refine ⟨hinserted, ?_, ?_⟩
  · rw [hpeek]
    decide
  · rw [tickStamp, hpeek]
    decide

end IngestClock

end ActantDb
