import ActantDb.Command.Engine
import ActantDb.Lib.Run

/-!
# The life of a memory candidate

A candidate is proposed, and then a reviewer approves it, which makes a memory of it, or rejects it. Neither command looks at the candidate's status: approving inserts a memory of whatever candidate has the id, and both updates select by id alone, where the decision on a tool call's request selects the pending one. So what is said of the candidates holds of the runs in which each of the three statements meets a candidate it may be executed on.
-/

namespace ActantDb

/-- The memories made of a candidate. -/
def Db.memoriesOf (db : Db) (id : MemoryCandidateId) : List Memory :=
  db.memory.rows.filter fun m => m.sourceCandidateId = some id

/-- Approved or rejected. -/
def MemoryCandidate.Decided (mc : MemoryCandidate) : Prop :=
  mc.status = .approved ∨ mc.status = .rejected

/-- What a later state keeps of an earlier one: the status of the decided candidates, and that no memory is made of a rejected one. -/
structure KeepsDecisions (before after : Db) : Prop where
  status : ∀ mc ∈ before.memoryCandidate, mc.Decided →
    ∃ mc' ∈ after.memoryCandidate, mc'.id = mc.id ∧ mc'.status = mc.status
  rejected : ∀ mc ∈ before.memoryCandidate, mc.status = .rejected →
    after.memoriesOf mc.id = before.memoriesOf mc.id

/-- What a run is to do with the candidates: no state on it has two memories of one candidate, and every state keeps what was settled in those before it. -/
structure CandidateLifecycle {σ ℓ : Type} (step : σ → ℓ → σ) (db : σ → Db) (s : σ)
    (labels : List ℓ) : Prop where
  once : Lts.Always step (fun s => ∀ id, ((db s).memoriesOf id).length ≤ 1) s labels
  settled : ∀ pre mid post, labels = pre ++ mid ++ post →
    KeepsDecisions (db (Lts.run step s pre)) (db (Lts.run step s (pre ++ mid)))

theorem KeepsDecisions.refl (db : Db) : KeepsDecisions db db :=
  ⟨fun mc hmc _ => ⟨mc, hmc, rfl, rfl⟩, fun _ _ _ => rfl⟩

theorem KeepsDecisions.trans {a b c : Db} (hab : KeepsDecisions a b) (hbc : KeepsDecisions b c) : KeepsDecisions a c := by
  constructor
  · intro mc hmc hdecided
    obtain ⟨mc', hmc', hid, hstatus⟩ := hab.status mc hmc hdecided
    have hdecided' : mc'.Decided := by
      rw [MemoryCandidate.Decided, hstatus]
      exact hdecided
    obtain ⟨mc'', hmc'', hid', hstatus'⟩ := hbc.status mc' hmc' hdecided'
    exact ⟨mc'', hmc'', hid'.trans hid, hstatus'.trans hstatus⟩
  · intro mc hmc hrejected
    obtain ⟨mc', hmc', hid, hstatus⟩ := hab.status mc hmc (Or.inr hrejected)
    calc c.memoriesOf mc.id
      _ = b.memoriesOf mc.id := hid ▸ hbc.rejected mc' hmc' (hstatus.trans hrejected)
      _ = a.memoriesOf mc.id := hab.rejected mc hmc hrejected

theorem KeepsDecisions.of_same {a b : Db} (hcandidate : b.memoryCandidate = a.memoryCandidate)
    (hmemory : b.memory = a.memory) : KeepsDecisions a b := by
  constructor
  · intro mc hmc _
    exact ⟨mc, hcandidate ▸ hmc, rfl, rfl⟩
  · intro mc _ _
    rw [Db.memoriesOf, hmemory, Db.memoriesOf]

/-! ### What the run is asked to respect -/

/-- No candidate with this id has the status. -/
def NoCandidate (db : Db) (id : MemoryCandidateId) (status : MemoryCandidateStatus) : Prop :=
  ∀ mc ∈ db.memoryCandidate.rows, mc.id = id → mc.status ≠ status

instance (db : Db) (id : MemoryCandidateId) (status : MemoryCandidateStatus) :
    Decidable (NoCandidate db id status) := by
  unfold NoCandidate
  infer_instance

/-- The candidate is undecided and no memory has been made of it. -/
def AwaitsDecision (db : Db) (id : MemoryCandidateId) : Prop :=
  NoCandidate db id .approved ∧ NoCandidate db id .rejected ∧ db.memoriesOf id = []

instance (db : Db) (id : MemoryCandidateId) : Decidable (AwaitsDecision db id) := by
  unfold AwaitsDecision
  infer_instance

/-- Of the statements the storage executes, each meets a candidate it may be executed on: a memory is made of one that awaits its decision, no rejected one is approved and no approved one rejected. -/
def CandidateRespected (E : Env) (w : World) (o : Op) : Prop :=
  match o with
  | .sql (.insertMemory m) =>
    E.fault w.statements = true ∨ ((Sql.insertMemory m).exec w.db).isOk = false ∨
      ∀ id ∈ m.sourceCandidateId, AwaitsDecision w.db id
  | .sql (.approveMemoryCandidate id) =>
    E.fault w.statements = true ∨ NoCandidate w.db id .rejected
  | .sql (.rejectMemoryCandidate id _) =>
    E.fault w.statements = true ∨ NoCandidate w.db id .approved
  | _ => True

instance (E : Env) (w : World) (o : Op) : Decidable (CandidateRespected E w o) := by
  unfold CandidateRespected
  split <;> infer_instance

/-! ### What a statement does to the candidates -/

section Statements

variable {db : Db}

theorem KeepsDecisions.insertMemoryCandidate {mc : MemoryCandidate} {t : Table MemoryCandidate.id}
    (hins : db.memoryCandidate.insert? mc = some t) :
    KeepsDecisions db { db with memoryCandidate := t } := by
  constructor
  · intro mc' hmc' _
    exact ⟨mc', (Table.mem_insert? hins).mpr (Or.inl hmc'), rfl, rfl⟩
  · intro mc' _ _
    rfl

/-- An update that keeps the id and, of the candidates that are decided, the status. -/
theorem KeepsDecisions.updateMemoryCandidate {id : MemoryCandidateId}
    {f : MemoryCandidate → MemoryCandidate} {hf : ∀ mc, (f mc).id = mc.id}
    (hstatus : ∀ mc ∈ db.memoryCandidate, mc.id = id → mc.Decided → (f mc).status = mc.status) :
    KeepsDecisions db (db.updateMemoryCandidate id f hf) := by
  constructor
  · intro mc hmc hdecided
    have hmem : (if decide (mc.id = id) then f mc else mc) ∈
        (db.updateMemoryCandidate id f hf).memoryCandidate := by
      rw [Db.updateMemoryCandidate, Table.mem_update]
      exact ⟨mc, hmc, rfl⟩
    refine ⟨_, hmem, ?_⟩
    by_cases hid : mc.id = id
    · simp only [hid, decide_true, if_true]
      exact ⟨(hf mc).trans hid, hstatus mc hmc hid hdecided⟩
    · simp [hid]
  · intro mc _ _
    rfl

theorem memoriesOf_insertMemory {m : Memory} {t : Table Memory.id}
    (hins : db.memory.insert? m = some t) (id : MemoryCandidateId) :
    Db.memoriesOf { db with memory := t } id =
      db.memoriesOf id ++ if m.sourceCandidateId = some id then [m] else [] := by
  simp only [Db.memoriesOf, (Table.insert?_eq_some.mp hins).2, List.filter_append]
  congr 1
  split <;> simp_all

theorem KeepsDecisions.insertMemory {m : Memory} {t : Table Memory.id}
    (hins : db.memory.insert? m = some t)
    (hawaits : ∀ id ∈ m.sourceCandidateId, NoCandidate db id .rejected) :
    KeepsDecisions db { db with memory := t } := by
  constructor
  · intro mc hmc _
    exact ⟨mc, hmc, rfl, rfl⟩
  · intro mc hmc hrejected
    have hsource : m.sourceCandidateId ≠ some mc.id := fun heq =>
      hawaits mc.id heq mc hmc rfl hrejected
    rw [memoriesOf_insertMemory hins, if_neg hsource, List.append_nil]

theorem once_insertMemory {m : Memory} {t : Table Memory.id}
    (hins : db.memory.insert? m = some t)
    (hawaits : ∀ id ∈ m.sourceCandidateId, db.memoriesOf id = [])
    (honce : ∀ id, (db.memoriesOf id).length ≤ 1) (id : MemoryCandidateId) :
    (Db.memoriesOf { db with memory := t } id).length ≤ 1 := by
  rw [memoriesOf_insertMemory hins]
  split
  · rename_i hsource
    simp [hawaits id hsource]
  · simpa using honce id

end Statements

/-- **One operation** that respects the candidates keeps what is settled, and makes no second memory of a candidate. -/
theorem candidates_handle {E : Env} {w : World} {o : Op} (hrespected : CandidateRespected E w o)
    (honce : ∀ id, (w.db.memoriesOf id).length ≤ 1) :
    (∀ id, ((handle E o w).2.db.memoriesOf id).length ≤ 1) ∧
      KeepsDecisions w.db (handle E o w).2.db := by
  rcases handle_cases E o w with hsame | ⟨s, reply, db', rfl, hfault, hexec, hdb⟩
  · rw [hsame]
    exact ⟨honce, .refl _⟩
  rw [hdb]
  -- what leaves the memories alone makes no second one
  have hkept : db'.memory = w.db.memory → ∀ id, (db'.memoriesOf id).length ≤ 1 := by
    intro hmemory id
    rw [Db.memoriesOf, hmemory]
    exact honce id
  have hframe := Sql.exec_frame hexec
  cases s with
  | insertMemoryCandidate mc =>
    obtain ⟨t, ht, heq⟩ := map_eq_ok.mp hexec
    cases heq
    exact ⟨hkept rfl, .insertMemoryCandidate (insertRow_eq_ok.mp ht).2⟩
  | insertMemory m =>
    have hawaits : ∀ id ∈ m.sourceCandidateId, AwaitsDecision w.db id := by
      rcases hrespected with hrefused | hrefused | hawaits
      · rw [hfault] at hrefused
        cases hrefused
      · rw [hexec] at hrefused
        cases hrefused
      · exact hawaits
    obtain ⟨t, ht, heq⟩ := map_eq_ok.mp hexec
    cases heq
    have hins := (insertRow_eq_ok.mp ht).2
    exact ⟨once_insertMemory hins (fun id hid => (hawaits id hid).2.2) honce,
      .insertMemory hins fun id hid => (hawaits id hid).2.1⟩
  | approveMemoryCandidate id =>
    cases hexec
    have hnot : NoCandidate w.db id .rejected := hrespected.resolve_left (by simp [hfault])
    refine ⟨hkept rfl, .updateMemoryCandidate fun mc hmc hid hdecided => ?_⟩
    exact (hdecided.resolve_right (hnot mc hmc hid)).symm
  | rejectMemoryCandidate id reason =>
    cases hexec
    have hnot : NoCandidate w.db id .approved := hrespected.resolve_left (by simp [hfault])
    refine ⟨hkept rfl, .updateMemoryCandidate fun mc hmc hid hdecided => ?_⟩
    exact (hdecided.resolve_left (hnot mc hmc hid)).symm
  | _ =>
    exact ⟨hkept (hframe.memory (by simp [Sql.writes])),
      .of_same (hframe.memoryCandidate (by simp [Sql.writes])) (hframe.memory (by simp [Sql.writes]))⟩

/-! ### The run -/

variable {ι : Type} [DecidableEq ι]

/-- What is asked of a step: the statement it executes respects the candidates. -/
def StepRespects (E : Env) (c : DispatchPool ι) (i : ι) : Prop :=
  ∀ o ∈ c.next? i, CandidateRespected E c.world o

instance (E : Env) (c : DispatchPool ι) (i : ι) : Decidable (StepRespects E c i) := by
  unfold StepRespects
  infer_instance

theorem candidates_step {E : Env} {c : DispatchPool ι} {i : ι} (hrespects : StepRespects E c i)
    (honce : ∀ id, (c.world.db.memoriesOf id).length ≤ 1) :
    (∀ id, ((Pool.step (handle E) c i).world.db.memoriesOf id).length ≤ 1) ∧
      KeepsDecisions c.world.db (Pool.step (handle E) c i).world.db := by
  rcases Pool.step_cases (handle E) c i with ⟨r, -, hsame⟩ | ⟨o, next, -, hnext, hstep⟩
  · rw [hsame]
    exact ⟨honce, .refl _⟩
  · rw [hstep]
    exact candidates_handle (hrespects o hnext) honce

/-- **The lifecycle of the candidates** holds of every run that respects them, whatever the dispatches, one after the other or interleaved statement by statement. -/
theorem candidate_lifecycle (X : Crates) (policy : PolicyDoc) (E : Env) (calls : ι → Call)
    (schedule : List ι)
    (hrespects : Lts.EveryStep (Pool.step (handle E)) (StepRespects E)
      (Pool.init (World.start .empty) fun i => dispatch X policy (calls i)) schedule) :
    CandidateLifecycle (Pool.step (handle E)) (fun c : DispatchPool ι => c.world.db)
      (Pool.init (World.start .empty) fun i => dispatch X policy (calls i)) schedule := by
  have honce : Lts.Always (Pool.step (handle E))
      (fun c : DispatchPool ι => ∀ id, (c.world.db.memoriesOf id).length ≤ 1)
      (Pool.init (World.start .empty) fun i => dispatch X policy (calls i)) schedule :=
    Lts.always_of_invariant _ (fun c i hc hstep => (candidates_step hstep hc).1)
      (fun id => Nat.zero_le 1) hrespects
  constructor
  · exact honce
  · intro pre mid post hsplit
    rw [hsplit, Lts.everyStep_append, Lts.everyStep_append] at hrespects
    rw [Lts.run_append]
    refine Lts.run_rel (fun c : DispatchPool ι => ∀ id, (c.world.db.memoriesOf id).length ≤ 1)
      (fun a b => KeepsDecisions a.world.db b.world.db) (fun _ => .refl _) (fun _ _ _ => .trans)
      (fun c i hc hstep => candidates_step hstep hc) ?_ hrespects.1.2
    exact honce pre (mid ++ post) (by rw [hsplit, List.append_assoc])

/-- The id of the one candidate of the sample runs. -/
def sampleCandidate : MemoryCandidateId := "memc_00000000000000000000000001"

inductive Speaker where
  | proposal | first | second
deriving DecidableEq

/-- A candidate is proposed, and then decided by two commands. -/
def proposeAndDecide (first second : String) : Speaker → Call
  | .proposal => Call.sample "propose_memory" [("text", "likes tea")]
  | .first => Call.sample first [("memory_candidate_id", sampleCandidate)]
  | .second => Call.sample second [("memory_candidate_id", sampleCandidate)]

/-- One dispatch after the other. -/
def oneByOne : List Speaker :=
  List.replicate 20 .proposal ++ List.replicate 20 .first ++ List.replicate 20 .second

theorem candidate_lifecycle_approved :
    CandidateLifecycle (Pool.step (handle .wholeSeconds))
      (fun c : DispatchPool Speaker => c.world.db)
      (Pool.init (World.start .empty) fun i => dispatch Crates.sample alphaDemoPolicy
        (proposeAndDecide "approve_memory" "append_user_message" i)) oneByOne :=
  candidate_lifecycle Crates.sample alphaDemoPolicy .wholeSeconds _ _ (by decide +kernel)

/-- The candidate is rejected and approved all the same: its status changes, and a memory is made of it. -/
theorem rejected_then_approved :
    ¬ CandidateLifecycle (Pool.step (handle .wholeSeconds))
      (fun c : DispatchPool Speaker => c.world.db)
      (Pool.init (World.start .empty) fun i => dispatch Crates.sample alphaDemoPolicy
        (proposeAndDecide "reject_memory" "approve_memory" i)) oneByOne := by
  intro h
  have hsettled := (h.settled (List.replicate 20 .proposal ++ List.replicate 20 .first)
    (List.replicate 20 .second) [] (by rw [List.append_nil, oneByOne])).rejected
  revert hsettled
  decide +kernel

end ActantDb
