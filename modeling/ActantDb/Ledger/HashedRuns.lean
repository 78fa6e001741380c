import ActantDb.Lib.HashChain
import ActantDb.Lib.Run
import ActantDb.Ledger.Ulid

/-!
# The hash chain of a run

Each append links the new event to the one with the greatest id of its run, and `query` lists a run by id. Both are the order of the appends as long as the ids grow, which is what the clock has to provide for: then every run verifies in every state. One step back of the clock is enough to put an event in front of the one it is linked to.
-/

namespace ActantDb

open HashChain Lts

/-- What a process does with the ledger, as far as ids are made: events are appended, and ids are made for other things. -/
inductive LedgerCall where
  | append (input : AppendInput)
  | ulid

def Ledger.call (E : LedgerEnv) (process : Nat) (l : Ledger) : LedgerCall → Ledger
  | .append input => (l.append E process input).2
  | .ulid => (l.ulid E process).2

/-- `chain_hash[i] = H(chain_hash[i-1] + ":" + payload_hash[i])`, from the genesis value on. -/
def Chained (X : JsLibrary) (events : List ActantEvent) : Prop :=
  Linked (fun prev e => nextChainHash X prev e.payloadHash) (·.chainHash) genesisHash events

instance (X : JsLibrary) (events : List ActantEvent) : Decidable (Chained X events) :=
  decidableLinked _ _ _ _

/-- Every run that has an event is listed in the order of its appends, and its chain verifies. -/
def RunsVerify (X : JsLibrary) (l : Ledger) : Prop :=
  ∀ e ∈ l.events.rows,
    l.select { runId := some e.runId } = l.events.rows.filter (fun other => other.runId = e.runId) ∧
      Chained X (l.select { runId := some e.runId })

/-- The clock lets the id of this call be greater than the last one, and an event names its run. -/
def CallOk (E : LedgerEnv) (process : Nat) (l : Ledger) (c : LedgerCall) : Prop :=
  (l.ulids process).Advances (E.now l.readings) ∧ ∀ input, c = .append input → input.runId ≠ ""

/-- The ids grow with the rows and the rows of each run are chained. -/
structure Sequenced (E : LedgerEnv) (process : Nat) (l : Ledger) : Prop where
  valid : (l.ulids process).Valid
  sorted : l.events.rows.Pairwise fun a b => a.id < b.id
  below : ∀ e ∈ l.events.rows, e.id ≤ (l.ulids process).text
  chained : ∀ runId, Chained E.library (l.events.rows.filter fun e => e.runId = runId)
  named : ∀ e ∈ l.events.rows, e.runId ≠ ""

variable {E : LedgerEnv} {process : Nat} {l : Ledger} {input : AppendInput} {rows : List ActantEvent}

theorem sequenced_empty : Sequenced E process .empty where
  valid := valid_initial
  sorted := List.Pairwise.nil
  below := fun _ h => by cases h
  chained := fun _ => trivial
  named := fun _ h => by cases h

/-! ### Rows in the order of their ids -/

theorem insertionSort_filter (h : rows.Pairwise fun a b => a.id < b.id) (p : ActantEvent → Bool) :
    (rows.filter p).insertionSort (fun a b => a.id ≤ b.id) = rows.filter p :=
  List.Pairwise.insertionSort_eq ((h.filter p).imp fun hlt => le_of_lt hlt)

theorem ofRun_eq (h : Sequenced E process l) (runId : String) :
    l.ofRun runId = l.events.rows.filter fun e => e.runId = runId :=
  insertionSort_filter h.sorted _

theorem select_eq (h : Sequenced E process l) {runId : String} (hrun : runId ≠ "") :
    l.select { runId := some runId } = l.events.rows.filter fun e => e.runId = runId := by
  have hselects : ∀ e, LedgerFilter.selects { runId := some runId } e = decide (e.runId = runId) := by
    intro e
    simp [LedgerFilter.selects, hrun]
  show (l.events.rows.filter _).insertionSort _ = _
  rw [insertionSort_filter h.sorted]
  exact List.filter_congr fun e _ => hselects e

/-- What the invariant is for. -/
theorem runsVerify_of_sequenced (h : Sequenced E process l) : RunsVerify E.library l := by
  intro e he
  rw [select_eq h (h.named e he)]
  exact ⟨rfl, h.chained e.runId⟩

/-! ### One call -/

theorem append_ulids : (l.append E process input).2.ulids = (l.ulid E process).2.ulids := by
  have hlast : ((l.ulid E process).2.lastChainHashForRun E input.runId).2.ulids =
      (l.ulid E process).2.ulids := by
    simp only [Ledger.lastChainHashForRun]
    split <;> rfl
  have hinsert : ∀ (l : Ledger) (stored : ActantEvent), (l.insert E stored).2.ulids = l.ulids := by
    intro l stored
    simp only [Ledger.insert]
    split
    · rfl
    · split <;> rfl
  simp only [Ledger.append]
  split
  · rfl
  · split
    · rfl
    · split
      · exact hlast
      · exact (hinsert _ _).trans hlast

theorem ulid_ulids_self : (l.ulid E process).2.ulids process = l.nextUlid E process := by
  simp [Ledger.ulid]

/-- An id is made and no row is added. -/
theorem sequenced_of_rows_eq {l' : Ledger} (h : Sequenced E process l)
    (hadvances : (l.ulids process).Advances (E.now l.readings))
    (hulids : l'.ulids process = l.nextUlid E process) (hevents : l'.events = l.events) :
    Sequenced E process l' := by
  obtain ⟨hvalid, hlt⟩ := nextUlid_advances h.valid hadvances
  refine ⟨hulids ▸ hvalid, hevents ▸ h.sorted, fun e he => ?_, hevents ▸ h.chained, hevents ▸ h.named⟩
  rw [hulids]
  rw [hevents] at he
  exact (h.below e he).trans (le_of_lt hlt)

/-- A row is added under the id. -/
theorem sequenced_of_append {l' : Ledger} (h : Sequenced E process l)
    (hadvances : (l.ulids process).Advances (E.now l.readings)) (hrun : input.runId ≠ "")
    (hulids : l'.ulids process = l.nextUlid E process) {payload : JsValue}
    (hrows : l'.events.rows = l.events.rows ++ [stored E l (l.nextId E process) input payload]) :
    Sequenced E process l' := by
  obtain ⟨hvalid, hlt⟩ := nextUlid_advances h.valid hadvances
  have hid : (stored E l (l.nextId E process) input payload).id = (l.nextUlid E process).text := rfl
  refine ⟨hulids ▸ hvalid, ?_, fun e he => ?_, fun runId => ?_, fun e he => ?_⟩
  · rw [hrows, List.pairwise_append]
    refine ⟨h.sorted, List.pairwise_singleton _ _, fun a ha b hb => ?_⟩
    rw [List.mem_singleton.mp hb, hid]
    exact lt_of_le_of_lt (h.below a ha) hlt
  · rw [hulids]
    rw [hrows, List.mem_append, List.mem_singleton] at he
    rcases he with he | rfl
    · exact (h.below e he).trans (le_of_lt hlt)
    · exact le_of_eq hid
  · rw [hrows, List.filter_append]
    by_cases hsame : input.runId = runId
    · rw [List.filter_cons_of_pos (p := fun e : ActantEvent => decide (e.runId = runId))
          (decide_eq_true hsame), List.filter_nil, Chained, linked_append_singleton]
      refine ⟨h.chained runId, ?_⟩
      rw [← ofRun_eq h runId, ← hsame]
      rfl
    · rw [List.filter_cons_of_neg (p := fun e : ActantEvent => decide (e.runId = runId))
          (mt of_decide_eq_true hsame), List.filter_nil, List.append_nil]
      exact h.chained runId
  · rw [hrows, List.mem_append, List.mem_singleton] at he
    rcases he with he | rfl
    · exact h.named e he
    · exact hrun

theorem sequenced_call (E : LedgerEnv) (process : Nat) (l : Ledger) (c : LedgerCall)
    (h : Sequenced E process l) (hok : CallOk E process l c) : Sequenced E process (l.call E process c) := by
  cases c with
  | ulid => exact sequenced_of_rows_eq h hok.1 ulid_ulids_self rfl
  | append input =>
    have hulids : (l.append E process input).2.ulids process = l.nextUlid E process := by
      rw [append_ulids, ulid_ulids_self]
    rcases append_cases E process l input with ⟨-, hevents⟩ | ⟨payload, -, -, -, -, hrows⟩
    · exact sequenced_of_rows_eq h hok.1 hulids hevents
    · exact sequenced_of_append h hok.1 (hok.2 input rfl) hulids hrows

/-- **The chain of every run verifies** in every state of a run whose calls find the clock where it was or further on, below its limit and with room in the random part, and whose events name their runs. -/
theorem runs_verify (E : LedgerEnv) (process : Nat) (calls : List LedgerCall)
    (h : EveryStep (Ledger.call E process) (CallOk E process) Ledger.empty calls) :
    Always (Ledger.call E process) (RunsVerify E.library) Ledger.empty calls := by
  intro pre post hsplit
  have hinv := always_of_invariant (Sequenced E process) (sequenced_call E process) sequenced_empty h
  exact runsVerify_of_sequenced (hinv pre post hsplit)

/-- Two messages of one run. -/
def twoMessages : List LedgerCall :=
  [.append ⟨.userMessageReceived, "run", .object []⟩, .append ⟨.userMessageReceived, "run", .object []⟩]

theorem runs_verify_twoMessages :
    Always (Ledger.call LedgerEnv.sample 0) (RunsVerify LedgerEnv.sample.library) Ledger.empty twoMessages := by
  refine runs_verify LedgerEnv.sample 0 twoMessages ?_
  refine ⟨⟨by decide, ?_⟩, ⟨by decide, ?_⟩, trivial⟩
  · rintro _ ⟨⟩
    decide
  · rintro _ ⟨⟩
    decide

/-- A clock that goes back. -/
def LedgerEnv.regressing : LedgerEnv := { LedgerEnv.sample with now := fun n => 10 - n }

/-- The second message is listed first. -/
theorem regression_breaks_chain :
    ¬ Always (Ledger.call LedgerEnv.regressing 0) (RunsVerify LedgerEnv.regressing.library) Ledger.empty
      twoMessages := by
  intro h
  obtain ⟨first, second, hrows, hfirst, hsecond, hlt⟩ : ∃ first second : ActantEvent,
      (run (Ledger.call LedgerEnv.regressing 0) Ledger.empty twoMessages).events.rows = [first, second] ∧
        first.runId = "run" ∧ second.runId = "run" ∧ second.id < first.id :=
    ⟨_, _, rfl, rfl, rfl, by decide⟩
  have hlisted := (h twoMessages [] rfl first (by rw [hrows]; exact List.mem_cons_self)).1
  have hsorted : (run (Ledger.call LedgerEnv.regressing 0) Ledger.empty twoMessages).select
      { runId := some first.runId } = [second, first] := by
    simp [Ledger.select, LedgerFilter.selects, hrows, hfirst, hsecond, hlt]
  have hfiltered : [first, second].filter (fun other => other.runId = first.runId) = [first, second] := by
    simp [hfirst, hsecond]
  rw [hsorted, hrows, hfiltered] at hlisted
  rw [(List.cons.inj hlisted).1] at hlt
  exact lt_irrefl _ hlt

end ActantDb
