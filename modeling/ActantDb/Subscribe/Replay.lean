import ActantDb.Storage.Statement
import ActantDb.Subscribe.Broker

/-!
# Replay from a cursor

A reader that calls `replay_since` again and again, each time with the id of the last envelope it has seen, moves its cursor forward only. An envelope whose row becomes visible after the cursor has passed its id is never returned. That happens, since an id is generated before its row is inserted and two publishers may insert in the other order.

So the reader misses nothing exactly when every row of its topic is inserted ahead of its cursor (`replay_complete_iff`); it sees nothing twice in any case.
-/

namespace ActantDb

open Prog

variable {ι : Type} [DecidableEq ι]

/-! ### A reader that polls -/

structure Reader where
  cursor : String
  returned : List Envelope

/-- The envelopes a poll returns, and the cursor moved to the last of them. -/
def Reader.take (r : Reader) (envs : List Envelope) : Reader where
  cursor := (envs.getLast?.map (·.id)).getD r.cursor
  returned := r.returned ++ envs

/-- Calls that interleave with the polls of one reader. -/
structure Polling (ι : Type) where
  pool : BrokerPool ι
  reader : Reader

/-- One call of a thread, or one poll: `replay_since` is a single statement. A poll that fails leaves the reader where it is. -/
def Polling.step (X : Crates) (E : BrokerEnv) (key : Key) (s : Polling ι) : Option ι → Polling ι
  | some i => { s with pool := Pool.step (BrokerOp.handle E) s.pool i }
  | none =>
    let (result, world) :=
      (Broker.replaySince X key.workspaceId key.topic s.reader.cursor).run (BrokerOp.handle E)
        s.pool.world
    match result with
    | .ok envs => ⟨{ s.pool with world := world }, s.reader.take envs⟩
    | .error _ => { s with pool := { s.pool with world := world } }

/-- A reader at the cursor `c₀`, and calls none of which has begun. -/
def Polling.start (X : Crates) (w : BrokerWorld) (calls : ι → BrokerCall) (c₀ : String) : Polling ι :=
  ⟨BrokerPool.start X w calls, ⟨c₀, []⟩⟩

/-- Every envelope of the topic has been returned, unless it was there already when the reader began, at or before its first cursor. -/
def ReplayComplete (key : Key) (w : BrokerWorld) (c₀ : String) (s : Polling ι) : Prop :=
  ∀ row ∈ s.pool.world.pubsubMessage.rows, row.key = key →
    row.id ∈ s.reader.returned.map (·.id) ∨ (row ∈ w.pubsubMessage.rows ∧ row.id ≤ c₀)

/-- What is asked of a step: a row of the topic that it inserts is ahead of the cursor. -/
def InsertsAhead (E : BrokerEnv) (key : Key) (s : Polling ι) (l : Option ι) : Prop :=
  match l.bind s.pool.next? with
  | some (.insert row) =>
    row.key = key → ((BrokerOp.insert row).handle E s.pool.world).1 = .ok () → s.reader.cursor < row.id
  | _ => True

instance (E : BrokerEnv) (key : Key) (s : Polling ι) (l : Option ι) :
    Decidable (InsertsAhead E key s l) := by
  unfold InsertsAhead
  split
  · have : DecidableEq (Except SqlError Unit) := inferInstance
    infer_instance
  · infer_instance

/-! ### One step -/

section Step

variable {X : Crates} {E : BrokerEnv} {key : Key} {s : Polling ι}

/-- A step inserts one row with a new id, or is a poll that returns the first rows after the cursor, or changes neither rows nor reader. -/
theorem polling_step (X : Crates) (E : BrokerEnv) (key : Key) (s : Polling ι) (l : Option ι) :
    ((∀ row, l.bind s.pool.next? = some (.insert row) →
          ((BrokerOp.insert row).handle E s.pool.world).1 ≠ .ok ()) ∧
        (s.step X E key l).pool.world.pubsubMessage = s.pool.world.pubsubMessage ∧
        (s.step X E key l).reader = s.reader) ∨
      (∃ row, l.bind s.pool.next? = some (.insert row) ∧
        ((BrokerOp.insert row).handle E s.pool.world).1 = .ok () ∧
        s.pool.world.pubsubMessage.contains row.id = false ∧
        (∀ r, r ∈ (s.step X E key l).pool.world.pubsubMessage ↔
          r ∈ s.pool.world.pubsubMessage ∨ r = row) ∧
        (s.step X E key l).reader = s.reader) ∨
      ∃ envs, l = none ∧
        (s.step X E key l).pool.world.pubsubMessage = s.pool.world.pubsubMessage ∧
        envs.map (·.id) = ((s.pool.world.after key s.reader.cursor).take replayLimit).map (·.id) ∧
        (s.step X E key l).reader = s.reader.take envs := by
  cases l with
  | none =>
    obtain ⟨hrows, hids⟩ := run_replaySince X E key s.reader.cursor s.pool.world
    unfold Polling.step
    cases hresult : (Broker.replaySince X key.workspaceId key.topic s.reader.cursor).run
        (BrokerOp.handle E) s.pool.world with
    | mk result world =>
      rw [hresult] at hrows hids
      cases result with
      | error e =>
        refine Or.inl ⟨fun row hnext => ?_, hrows, rfl⟩
        cases hnext
      | ok envs => exact Or.inr (Or.inr ⟨envs, rfl, hrows, hids envs rfl, rfl⟩)
  | some i =>
    rcases Pool.step_cases (BrokerOp.handle E) s.pool i with
      ⟨r, hthread, hsame⟩ | ⟨o, next, -, hnext, hstep⟩
    · refine Or.inl ⟨fun row hnext => ?_, congrArg (·.world.pubsubMessage) hsame, rfl⟩
      rw [Option.bind_some, Pool.next?, hthread] at hnext
      cases hnext
    · by_cases hins : ∃ row, o = .insert row
      · obtain ⟨row, rfl⟩ := hins
        have hworld : (s.step X E key (some i)).pool.world =
            ((BrokerOp.insert row).handle E s.pool.world).2 := congrArg (·.world) hstep
        rw [hworld]
        rcases handle_insert E row s.pool.world with ⟨hok, hnew, hmem⟩ | ⟨⟨err, herr⟩, hsame⟩
        · exact Or.inr (Or.inl ⟨row, hnext, hok, hnew, hmem, rfl⟩)
        · refine Or.inl ⟨fun row' hnext' => ?_, hsame, rfl⟩
          rw [Option.bind_some, hnext] at hnext'
          cases hnext'
          rw [herr]
          intro hok
          cases hok
      · have hworld : (s.step X E key (some i)).pool.world = (o.handle E s.pool.world).2 :=
          congrArg (·.world) hstep
        rw [hworld]
        have hother : o.row? = none := by
          cases o with
          | insert row => exact absurd ⟨row, rfl⟩ hins
          | _ => rfl
        refine Or.inl ⟨fun row hnext' => ?_, handle_other hother, rfl⟩
        rw [Option.bind_some, hnext] at hnext'
        exact absurd ⟨row, Option.some.inj hnext'⟩ hins

/-- The cursor after a poll: every id returned is between the old and the new one, and every row up to the new one is returned or was up to the old one. -/
theorem cursor_take {w : BrokerWorld} {r : Reader} {envs : List Envelope}
    (hids : envs.map (·.id) = ((w.after key r.cursor).take replayLimit).map (·.id)) :
    r.cursor ≤ (r.take envs).cursor ∧
      (∀ id ∈ envs.map (·.id), r.cursor < id ∧ id ≤ (r.take envs).cursor) ∧
        ∀ row ∈ w.pubsubMessage, row.key = key → row.id ≤ (r.take envs).cursor →
          row.id ≤ r.cursor ∨ row.id ∈ envs.map (·.id) := by
  have hsorted : (envs.map (·.id)).Pairwise (· < ·) := by
    rw [hids, List.map_take]
    exact after_sorted.sublist (List.take_sublist _ _)
  have habove : ∀ id ∈ envs.map (·.id), r.cursor < id := by
    intro id hid
    rw [hids] at hid
    obtain ⟨row, hrow, rfl⟩ := List.mem_map.mp hid
    exact (mem_after.mp (List.mem_of_mem_take hrow)).2.2
  rcases List.eq_nil_or_concat envs with rfl | ⟨init, last, hconcat⟩
  · refine ⟨le_refl r.cursor, fun id hid => ?_, fun row _ _ hle => Or.inl hle⟩
    cases hid
  rw [List.concat_eq_append] at hconcat
  subst hconcat
  have hcursor : (r.take (init ++ [last])).cursor = last.id := by
    simp [Reader.take]
  rw [hcursor]
  have hlast : ∀ id ∈ (init ++ [last]).map (·.id), id ≤ last.id := by
    intro id hid
    rw [List.map_append, List.mem_append] at hid
    rw [List.map_append, List.pairwise_append] at hsorted
    rcases hid with hinit | hend
    · exact le_of_lt (hsorted.2.2 id hinit last.id (by simp))
    · exact le_of_eq (by simpa using hend)
  refine ⟨le_of_lt (habove last.id (by simp)), fun id hid => ⟨habove id hid, hlast id hid⟩, ?_⟩
  intro row hrow hkey hle
  by_cases hcur : row.id ≤ r.cursor
  · exact Or.inl hcur
  · right
    -- the row is selected, and not behind the last one taken
    have hselected : row.id ∈ (w.after key r.cursor).map (·.id) :=
      List.mem_map_of_mem (mem_after.mpr ⟨hrow, hkey, not_le.mp hcur⟩)
    rw [List.map_take] at hids
    rw [← List.take_append_drop replayLimit ((w.after key r.cursor).map (·.id)), ← hids,
      List.mem_append] at hselected
    apply hselected.resolve_right
    intro hdropped
    have hordered : ((w.after key r.cursor).map (·.id)).Pairwise (· < ·) := after_sorted
    rw [← List.take_append_drop replayLimit ((w.after key r.cursor).map (·.id)), ← hids,
      List.pairwise_append] at hordered
    exact absurd (hordered.2.2 last.id (by simp) row.id hdropped) (not_lt.mpr hle)

end Step

/-! ### Runs -/

/-- What every run keeps: the cursor moves forward, past exactly the ids returned, which are stored and increasing. -/
structure Reading (key : Key) (w : BrokerWorld) (c₀ : String) (s : Polling ι) : Prop where
  forward : c₀ ≤ s.reader.cursor
  passed : ∀ id ∈ s.reader.returned.map (·.id), c₀ < id ∧ id ≤ s.reader.cursor
  stored : ∀ id ∈ s.reader.returned.map (·.id), s.pool.world.pubsubMessage.contains id = true
  sorted : (s.reader.returned.map (·.id)).Pairwise (· < ·)
  kept : ∀ row ∈ w.pubsubMessage, row ∈ s.pool.world.pubsubMessage

/-- The row has been returned, or was passed by the cursor before the reader began. -/
def Seen (w : BrokerWorld) (c₀ : String) (s : Polling ι) (row : PubsubMessage) : Prop :=
  row.id ∈ s.reader.returned.map (·.id) ∨ (row ∈ w.pubsubMessage.rows ∧ row.id ≤ c₀)

/-- The reader has seen all rows of the topic up to its cursor. -/
def CaughtUp (key : Key) (w : BrokerWorld) (c₀ : String) (s : Polling ι) : Prop :=
  ∀ row ∈ s.pool.world.pubsubMessage, row.key = key → row.id ≤ s.reader.cursor → Seen w c₀ s row

/-- The reader has passed the row and not seen it. -/
structure Missed (key : Key) (w : BrokerWorld) (c₀ : String) (row : PubsubMessage) (s : Polling ι) :
    Prop where
  stored : row ∈ s.pool.world.pubsubMessage
  key_eq : row.key = key
  passed : row.id ≤ s.reader.cursor
  unseen : ¬ Seen w c₀ s row

section Runs

variable {X : Crates} {E : BrokerEnv} {w : BrokerWorld} {key : Key} {c₀ : String} {s : Polling ι}

theorem ids_take (r : Reader) (envs : List Envelope) :
    (r.take envs).returned.map (·.id) = r.returned.map (·.id) ++ envs.map (·.id) :=
  List.map_append

theorem reading_step (h : Reading key w c₀ s) (l : Option ι) : Reading key w c₀ (s.step X E key l) := by
  rcases polling_step X E key s l with
    ⟨-, hrows, hreader⟩ | ⟨row, -, -, -, hmem, hreader⟩ | ⟨envs, -, hrows, hids, hreader⟩
  · obtain ⟨hforward, hpassed, hstored, hsorted, hkept⟩ := h
    constructor
    · rwa [hreader]
    · rwa [hreader]
    · rwa [hreader, hrows]
    · rwa [hreader]
    · rwa [hrows]
  · constructor
    · rw [hreader]
      exact h.forward
    · rw [hreader]
      exact h.passed
    · rw [hreader]
      intro id hid
      obtain ⟨r, hr, hrid⟩ := Table.contains_iff.mp (h.stored id hid)
      exact Table.contains_iff.mpr ⟨r, (hmem r).mpr (Or.inl hr), hrid⟩
    · rw [hreader]
      exact h.sorted
    · exact fun r hr => (hmem r).mpr (Or.inl (h.kept r hr))
  · obtain ⟨hle, hbetween, -⟩ := cursor_take hids
    constructor
    · rw [hreader]
      exact h.forward.trans hle
    · rw [hreader, ids_take]
      intro id hid
      rcases List.mem_append.mp hid with hold | hnew
      · exact ⟨(h.passed id hold).1, (h.passed id hold).2.trans hle⟩
      · exact ⟨lt_of_le_of_lt h.forward (hbetween id hnew).1, (hbetween id hnew).2⟩
    · rw [hreader, ids_take, hrows]
      intro id hid
      rcases List.mem_append.mp hid with hold | hnew
      · exact h.stored id hold
      · rw [hids] at hnew
        obtain ⟨r, hr, rfl⟩ := List.mem_map.mp hnew
        exact Table.contains_iff.mpr ⟨r, (mem_after.mp (List.mem_of_mem_take hr)).1, rfl⟩
    · rw [hreader, ids_take, List.pairwise_append]
      refine ⟨h.sorted, ?_, fun a ha b hb => lt_of_le_of_lt (h.passed a ha).2 (hbetween b hb).1⟩
      rw [hids, List.map_take]
      exact after_sorted.sublist (List.take_sublist _ _)
    · rw [hrows]
      exact h.kept

omit [DecidableEq ι] in
theorem reading_start (X : Crates) (key : Key) (w : BrokerWorld) (calls : ι → BrokerCall) (c₀ : String) :
    Reading key w c₀ (Polling.start X w calls c₀) :=
  ⟨le_refl c₀, fun _ hid => (nomatch hid), fun _ hid => (nomatch hid), List.Pairwise.nil, fun _ hr => hr⟩

theorem seen_step (l : Option ι) {row : PubsubMessage} (h : Seen w c₀ s row) :
    Seen w c₀ (s.step X E key l) row := by
  rcases polling_step X E key s l with
    ⟨-, -, hreader⟩ | ⟨new, -, -, -, -, hreader⟩ | ⟨envs, -, -, -, hreader⟩
  · rwa [Seen, hreader]
  · rwa [Seen, hreader]
  · rw [Seen, hreader, ids_take, List.mem_append]
    exact h.imp Or.inl id

theorem caughtUp_step (h : CaughtUp key w c₀ s) {l : Option ι} (hahead : InsertsAhead E key s l) :
    CaughtUp key w c₀ (s.step X E key l) := by
  intro row hrow hkey hle
  rcases polling_step X E key s l with
    ⟨-, hrows, hreader⟩ | ⟨new, hnext, hok, -, hmem, hreader⟩ | ⟨envs, -, hrows, hids, hreader⟩
  · rw [hrows] at hrow
    rw [hreader] at hle
    exact seen_step l (h row hrow hkey hle)
  · rw [hreader] at hle
    rcases (hmem row).mp hrow with hold | rfl
    · exact seen_step l (h row hold hkey hle)
    · rw [InsertsAhead, hnext] at hahead
      exact absurd (hahead hkey hok) (not_lt.mpr hle)
  · rw [hrows] at hrow
    rw [hreader] at hle
    rcases (cursor_take hids).2.2 row hrow hkey hle with hcur | hnew
    · exact seen_step l (h row hrow hkey hcur)
    · left
      rw [hreader, ids_take]
      exact List.mem_append_right _ hnew

/-- A row that is missed stays missed: every poll asks for what comes after the cursor. -/
theorem missed_step {row : PubsubMessage} (h : Missed key w c₀ row s) (l : Option ι) :
    Missed key w c₀ row (s.step X E key l) := by
  obtain ⟨hstored, hkey, hpassed, hunseen⟩ := h
  rcases polling_step X E key s l with
    ⟨-, hrows, hreader⟩ | ⟨new, -, -, -, hmem, hreader⟩ | ⟨envs, -, hrows, hids, hreader⟩
  · exact ⟨hrows ▸ hstored, hkey, hreader ▸ hpassed, by rwa [Seen, hreader]⟩
  · exact ⟨(hmem row).mpr (Or.inl hstored), hkey, hreader ▸ hpassed, by rwa [Seen, hreader]⟩
  · obtain ⟨hle, hbetween, -⟩ := cursor_take hids
    refine ⟨hrows ▸ hstored, hkey, hreader ▸ hpassed.trans hle, ?_⟩
    rw [Seen, hreader, ids_take, List.mem_append]
    rintro ((hold | hnew) | hbefore)
    · exact hunseen (Or.inl hold)
    · exact absurd (hbetween row.id hnew).1 (not_lt.mpr hpassed)
    · exact hunseen (Or.inr hbefore)

/-- A row inserted behind the cursor is missed. -/
theorem missed_of_behind (h : Reading key w c₀ s) {l : Option ι} (hbehind : ¬ InsertsAhead E key s l) :
    ∃ row, Missed key w c₀ row (s.step X E key l) := by
  unfold InsertsAhead at hbehind
  split at hbehind
  case h_2 => exact absurd trivial hbehind
  rename_i row hnext
  rw [Classical.not_imp, Classical.not_imp, not_lt] at hbehind
  obtain ⟨hkey, hok, hle⟩ := hbehind
  rcases polling_step X E key s l with
    ⟨hrefused, -⟩ | ⟨row', hnext', -, hnew, hmem, hreader⟩ | ⟨envs, rfl, -⟩
  · exact absurd hok (hrefused row hnext)
  · rw [hnext] at hnext'
    cases hnext'
    refine ⟨row, (hmem row).mpr (Or.inr rfl), hkey, hreader ▸ hle, ?_⟩
    rw [Seen, hreader]
    -- the id was new, and both what was returned and what was there before is stored
    rintro (hreturned | ⟨hold, -⟩)
    · rw [h.stored row.id hreturned] at hnew
      cases hnew
    · exact Table.contains_eq_false.mp hnew row (h.kept row hold) rfl
  · cases hnext

end Runs

/-- **A reader that polls until nothing is left has seen every envelope of its topic exactly when every row of the topic was inserted ahead of its cursor**, and it has seen none twice. -/
theorem replay_complete_iff (X : Crates) (E : BrokerEnv) (w : BrokerWorld) (calls : ι → BrokerCall)
    (key : Key) (c₀ : String) (schedule : List (Option ι))
    (hempty : (Lts.run (Polling.step X E key) (Polling.start X w calls c₀)
        schedule).pool.world.after key
      (Lts.run (Polling.step X E key) (Polling.start X w calls c₀) schedule).reader.cursor = []) :
    ((Lts.run (Polling.step X E key) (Polling.start X w calls c₀)
        schedule).reader.returned.map (·.id)).Nodup ∧
      (ReplayComplete key w c₀ (Lts.run (Polling.step X E key) (Polling.start X w calls c₀) schedule) ↔
        Lts.EveryStep (Polling.step X E key) (InsertsAhead E key) (Polling.start X w calls c₀) schedule) := by
  have hreading : ∀ pre, Reading key w c₀
      (Lts.run (Polling.step X E key) (Polling.start X w calls c₀) pre) := fun pre =>
    Lts.run_invariant _ (fun s l hs _ => reading_step hs l) (reading_start X key w calls c₀)
      (Lts.everyStep_true pre)
  refine ⟨(hreading schedule).sorted.imp ne_of_lt, fun hcomplete => ?_, fun hahead => ?_⟩
  · rw [Lts.everyStep_iff]
    intro pre l post hsplit
    by_contra hbehind
    obtain ⟨row, hmissed⟩ := missed_of_behind (X := X) (hreading pre) hbehind
    have hend : Missed key w c₀ row
        (Lts.run (Polling.step X E key) (Polling.start X w calls c₀) schedule) := by
      rw [hsplit, Lts.run_append, Lts.run_cons]
      exact Lts.run_invariant _ (fun s l hs _ => missed_step hs l) hmissed (Lts.everyStep_true post)
    exact hend.unseen (hcomplete row hend.stored hend.key_eq)
  · have hstart : CaughtUp key w c₀ (Polling.start X w calls c₀) :=
      fun row hrow _ hle => Or.inr ⟨hrow, hle⟩
    have hcaught := Lts.run_invariant (CaughtUp key w c₀) (fun s l hs hl => caughtUp_step hs hl) hstart hahead
    intro row hrow hkey
    apply hcaught row hrow hkey
    -- nothing is left after the cursor
    by_contra hlt
    have hleft := mem_after.mpr ⟨hrow, hkey, not_le.mp hlt⟩
    rw [hempty] at hleft
    cases hleft

/-! ### Two publishers -/

/-- The crates for sample runs whose payloads are all `null`. -/
def Crates.nullPayloads : Crates :=
  { Crates.sample with fromStr := fun s => if s = "null" then some .null else none }

/-- A second between two readings, ULIDs counting up, no failures. -/
def BrokerEnv.sample : BrokerEnv where
  clock := Env.wholeSeconds.clock
  ulid n := .ok (Env.wholeSeconds.ulid n)
  fault _ := false
  capacity := 4

def newsKey : Key := ⟨"ws_demo", "news"⟩

def twoPublishers (_ : Fin 2) : BrokerCall := .publish "ws_demo" "news" .null

/-- Each publisher in turn, and a poll after each. -/
def inTurn : List (Option (Fin 2)) :=
  [some 0, some 0, some 0, some 0, none, some 1, some 1, some 1, some 1, none, none]

theorem replay_complete_inTurn :
    let start := Polling.start Crates.nullPayloads (.start ["ws_demo"] .empty) twoPublishers ""
    let step := Polling.step Crates.nullPayloads .sample newsKey
    ((Lts.run step start inTurn).reader.returned.map (·.id)).Nodup ∧
      (ReplayComplete newsKey (.start ["ws_demo"] .empty) "" (Lts.run step start inTurn) ↔
        Lts.EveryStep step (InsertsAhead .sample newsKey) start inTurn) :=
  replay_complete_iff Crates.nullPayloads .sample (.start ["ws_demo"] .empty) twoPublishers newsKey ""
    inTurn (by decide +kernel)

/-- The publisher with the smaller id inserts after the other, and after a poll. -/
def overtaken : List (Option (Fin 2)) :=
  [some 0, some 1, some 1, some 1, some 1, none, some 0, some 0, some 0, none]

/-- Both publishers have finished, nothing is left to poll, and one envelope was never returned. -/
theorem overtaken_misses :
    let start := Polling.start Crates.nullPayloads (.start ["ws_demo"] .empty) twoPublishers ""
    let finished := Lts.run (Polling.step Crates.nullPayloads .sample newsKey) start overtaken
    (∀ i, (finished.pool.thread i).returned = true) ∧
      finished.pool.world.after newsKey finished.reader.cursor = [] ∧
        ¬ ReplayComplete newsKey (.start ["ws_demo"] .empty) "" finished := by
  intro start finished
  refine ⟨by decide +kernel, by decide +kernel, ?_⟩
  unfold ReplayComplete
  decide +kernel

end ActantDb
