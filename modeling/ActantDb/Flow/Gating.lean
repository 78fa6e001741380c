import ActantDb.Flow.Runner

/-!
# What the runner gates

An issued node is the first open one in the order. While the run has not failed no step has, so whatever comes before it has succeeded, and its predecessors come before it. The other operations set the status of one step, and a failed run stays failed. What remains is which calls let a gate succeed: the approval it waits for, and the calls that are not `Orderly`.
-/

namespace ActantDb

namespace Flow

namespace Runner

variable {r r' start : Runner} {key now : String} {a : Action} {c : Call}

/-- Only the step of `key` differs, if it exists. -/
structure Touches (r : Runner) (key : String) (r' : Runner) : Prop where
  workflow : r'.workflow = r.workflow
  order : r'.order = r.order
  others : ∀ k, k ≠ key → r'.statusOf k = r.statusOf k
  known : ∀ k, r'.statusOf k = none ↔ r.statusOf k = none

section Update

variable {f : StepRun → StepRun} (h : r'.run.steps = (r.run.updateStep key f).steps)
include h

theorem statusOf_updated (k : String) :
    r'.statusOf k = if k = key then (r.run.steps k).map fun s => (f s).status else r.statusOf k := by
  rw [statusOf, h, Run.updateStep]
  by_cases hk : k = key
  · simp only [if_pos hk, Option.map_map]
    rfl
  · simp only [if_neg hk]
    rfl

theorem touches_updated (hworkflow : r'.workflow = r.workflow) (horder : r'.order = r.order) : Touches r key r' := by
  refine ⟨hworkflow, horder, fun k hk => ?_, fun k => ?_⟩
  · rw [statusOf_updated h, if_neg hk]
  · rw [statusOf_updated h]
    split
    · simp [statusOf]
    · rfl

theorem statusOf_set {g : StepStatus → StepStatus} (hf : ∀ s, (f s).status = g s.status) :
    r'.statusOf key = (r.statusOf key).map g := by
  rw [statusOf_updated h, if_pos rfl, statusOf, Option.map_map]
  simp only [hf, Function.comp_def]

end Update

/-! ### One call -/

/-- What an action leaves of the step it is issued for. -/
def issuedStatus (n : Node) (status : StepStatus) : StepStatus :=
  if n.nodeType.instant then .succeeded else if n.nodeType = .approvalGate then .awaitingApproval else status

theorem issuedStatus_cases (n : Node) (status : StepStatus) :
    issuedStatus n status = .succeeded ∨ issuedStatus n status = .awaitingApproval ∨ issuedStatus n status = status := by
  unfold issuedStatus
  split
  · exact Or.inl rfl
  · split
    · exact Or.inr (Or.inl rfl)
    · exact Or.inr (Or.inr rfl)

theorem actionFor_spec (h : r.actionFor key now = some (a, r')) :
    a.nodeKey = some key ∧ Touches r key r' ∧ r'.run.status = r.run.status ∧
      ∃ n, r.workflow.node key = some n ∧ r'.statusOf key = (r.statusOf key).map (issuedStatus n) := by
  rw [actionFor] at h
  cases hnode : r.workflow.node key with
  | none =>
    rw [hnode] at h
    cases h
  | some n =>
    have hsame : Touches r key r := ⟨rfl, rfl, fun k _ => rfl, fun k => Iff.rfl⟩
    rw [hnode] at h
    simp only [Option.bind_eq_bind, Option.bind_some] at h
    have hsteady : n.nodeType.instant = false → n.nodeType ≠ .approvalGate →
        r.statusOf key = (r.statusOf key).map (issuedStatus n) := by
      intro hinstant hgate
      have hid : issuedStatus n = id := by
        funext status
        rw [issuedStatus, hinstant, if_neg Bool.false_ne_true, if_neg hgate, id]
      rw [hid, Option.map_id, id]
    split at h <;> rename_i hkind <;> cases h
    · exact ⟨rfl, hsame, rfl, n, rfl, hsteady (by rw [hkind]; rfl) (by simp [hkind])⟩
    · exact ⟨rfl, hsame, rfl, n, rfl, hsteady (by rw [hkind]; rfl) (by simp [hkind])⟩
    · refine ⟨rfl, touches_updated rfl rfl rfl, rfl, n, rfl, statusOf_set rfl fun s => ?_⟩
      simp [issuedStatus, hkind, NodeType.instant]
    · exact ⟨rfl, hsame, rfl, n, rfl, hsteady (by rw [hkind]; rfl) (by simp [hkind])⟩
    · refine ⟨rfl, touches_updated rfl rfl rfl, rfl, n, rfl, statusOf_set rfl fun s => ?_⟩
      have hinstant : n.nodeType.instant = true := by
        unfold NodeType.instant
        split <;> simp_all
      rw [issuedStatus, if_pos hinstant]

theorem firstOpen_spec {steps : String → Option StepRun} {order : List String}
    (h : firstOpen steps order = some (some key)) :
    ∃ pre post, order = pre ++ key :: post ∧ (∀ k ∈ pre, ∃ s, steps k = some s ∧ s.status.isOpen = false) ∧
      ∃ s, steps key = some s ∧ s.status.isOpen = true := by
  induction order with
  | nil => cases h
  | cons first order ih =>
    rw [firstOpen] at h
    cases hstep : steps first with
    | none =>
      rw [hstep] at h
      cases h
    | some s =>
      rw [hstep] at h
      simp only at h
      split at h
      · rename_i hopen
        cases h
        exact ⟨[], order, rfl, by simp, s, hstep, hopen⟩
      · rename_i hopen
        obtain ⟨pre, post, rfl, hpre, hkey⟩ := ih h
        refine ⟨first :: pre, post, rfl, fun k hk => ?_, hkey⟩
        rcases List.mem_cons.mp hk with rfl | hk
        · exact ⟨s, hstep, Bool.eq_false_iff.mpr hopen⟩
        · exact hpre k hk

/-- A step is issued: the first open one, of a run that has not failed. -/
structure Issues (r : Runner) (key : String) (r' : Runner) : Prop where
  notFailed : r.run.status ≠ .failed
  opened : firstOpen r.run.steps r.order = some (some key)
  touches : Touches r key r'
  status : r'.run.status = r.run.status
  issued : ∃ n, r.workflow.node key = some n ∧
    r'.statusOf key = (r.statusOf key).map fun s => issuedStatus n (if s = .pending then .running else s)

/-- No step is issued: the run has failed, or no step is open, or the runner panics. -/
structure Idle (r r' : Runner) : Prop where
  workflow : r'.workflow = r.workflow
  order : r'.order = r.order
  steps : r'.run.steps = r.run.steps
  failed : r'.run.status = .failed ↔ r.run.status = .failed
  stuck : r.run.status ≠ .failed → ∀ key, r.current = some key → r.workflow.node key = none

theorem Idle.statusOf (h : Idle r r') (key : String) : r'.statusOf key = r.statusOf key := by
  rw [Runner.statusOf, h.steps, Runner.statusOf]

theorem current_eq_some : r.current = some key ↔ firstOpen r.run.steps r.order = some (some key) := by
  rw [current, Option.join_eq_some_iff]

/-- What `next_action` does when it returns: nothing to any step, or a step is issued. -/
theorem nextAction_spec (h : r.nextAction now = some (a, r')) :
    (a.nodeKey = none ∧ Idle r r') ∨ ∃ key, a.nodeKey = some key ∧ Issues r key r' := by
  rw [nextAction] at h
  by_cases hfailed : r.run.status = .failed
  · rw [if_pos hfailed] at h
    cases h
    exact Or.inl ⟨rfl, rfl, rfl, rfl, Iff.rfl, fun hgoes => absurd hfailed hgoes⟩
  · rw [if_neg hfailed] at h
    cases hopen : firstOpen r.run.steps r.order with
    | none =>
      rw [hopen] at h
      cases h
    | some found =>
      rw [hopen] at h
      cases found with
      | none =>
        cases h
        refine Or.inl ⟨rfl, rfl, rfl, rfl, iff_of_false (by simp) hfailed, fun _ key hkey => ?_⟩
        rw [current_eq_some, hopen] at hkey
        cases hkey
      | some key =>
        obtain ⟨hkey, htouches, hstatus, n, hnode, hissued⟩ := actionFor_spec h
        have hstarted : Touches r key { r with run := r.run.updateStep key fun s =>
            if s.status = .pending then { s with status := .running, startedAt := some now } else s } :=
          touches_updated rfl rfl rfl
        refine Or.inr ⟨key, hkey, hfailed, hopen, ?_, hstatus, n, hnode, ?_⟩
        · exact ⟨htouches.workflow, htouches.order, fun k hk => (htouches.others k hk).trans (hstarted.others k hk),
            fun k => (htouches.known k).trans (hstarted.known k)⟩
        · rw [hissued, statusOf_set (r := r) (g := fun s => if s = .pending then .running else s) rfl fun s => ?_, Option.map_map]
          · rfl
          · split <;> rfl

theorem idle_of_panic (h : r.nextAction now = none) : Idle r r := by
  refine ⟨rfl, rfl, rfl, Iff.rfl, fun hgoes key hkey => ?_⟩
  rw [nextAction, if_neg hgoes, current_eq_some.mp hkey] at h
  by_contra hnode
  obtain ⟨n, hn⟩ := Option.ne_none_iff_exists'.mp hnode
  have hissued : ∀ r₀ : Runner, r₀.workflow = r.workflow → r₀.actionFor key now ≠ none := by
    intro r₀ hworkflow
    rw [actionFor, hworkflow, hn]
    simp only [Option.bind_eq_bind, Option.bind_some]
    split <;> simp
  simp only [Option.bind_eq_bind, Option.bind_some] at h
  exact hissued _ (by rfl) h

/-- The step of `key`, if it exists, gets this status. -/
structure Sets (r : Runner) (key : String) (status : StepStatus) (r' : Runner) : Prop where
  touches : Touches r key r'
  status : r'.statusOf key = (r.statusOf key).map fun _ => status

/-- What a call does to the runner. -/
inductive Effect (r r' : Runner) : Call → Prop
  | idle {now : String} (h : Idle r r') : Effect r r' (.nextAction now)
  | issue {now : String} (key : String) (h : Issues r key r') : Effect r r' (.nextAction now)
  | complete {key : String} {output : Value} {now : String} (h : Sets r key .succeeded r')
      (hrun : r'.run.status = r.run.status) : Effect r r' (.completeStep key output now)
  | fail {key error now : String} (h : Sets r key .failed r') (hrun : r'.run.status = .failed) :
      Effect r r' (.failStep key error now)
  | approve {key now : String} (h : Sets r key .succeeded r') (hrun : r'.run.status = r.run.status) :
      Effect r r' (.resolveApproval key true now)
  | deny {key now : String} (h : Sets r key .failed r')
      (hrun : r'.run.status = if (r.run.steps key).isSome then .failed else r.run.status) :
      Effect r r' (.resolveApproval key false now)

theorem apply_effect (r : Runner) (c : Call) : Effect r (r.apply c) c := by
  cases c with
  | nextAction now =>
    cases h : r.nextAction now with
    | none =>
      have happly : r.apply (.nextAction now) = r := by rw [apply, h]; rfl
      rw [happly]
      exact .idle (idle_of_panic h)
    | some next =>
      have happly : r.apply (.nextAction now) = next.2 := by rw [apply, h]; rfl
      rw [happly]
      rcases nextAction_spec h with ⟨-, hidle⟩ | ⟨key, -, hissues⟩
      · exact .idle hidle
      · exact .issue key hissues
  | completeStep key output now =>
    exact .complete ⟨touches_updated rfl rfl rfl, statusOf_set rfl fun s => rfl⟩ rfl
  | failStep key error now =>
    exact .fail ⟨touches_updated rfl rfl rfl, statusOf_set rfl fun s => rfl⟩ rfl
  | resolveApproval key approved now =>
    cases approved with
    | true => exact .approve ⟨touches_updated rfl rfl rfl, statusOf_set rfl fun s => rfl⟩ rfl
    | false => exact .deny ⟨touches_updated rfl rfl rfl, statusOf_set rfl fun s => rfl⟩ rfl

theorem issues_spec (h : r.issues c = some key) : Issues r key (r.apply c) := by
  cases c with
  | nextAction now =>
    rw [issues] at h
    cases hnext : r.nextAction now with
    | none =>
      rw [hnext] at h
      cases h
    | some next =>
      have happly : r.apply (.nextAction now) = next.2 := by rw [apply, hnext]; rfl
      rw [hnext, Option.bind_some] at h
      rw [happly]
      rcases nextAction_spec hnext with ⟨hnone, -⟩ | ⟨key', hkey, hissues⟩
      · rw [hnone] at h
        cases h
      · rw [hkey, Option.some.injEq] at h
        subst h
        exact hissues
  | _ => cases h

/-! ### Every run -/

/-- What holds between the calls. -/
structure Inv (r : Runner) : Prop where
  topological : Kahn.Topological r.workflow.pairs r.order
  known : ∀ n ∈ r.workflow.nodes, r.statusOf n.key ≠ none
  sound : r.run.status ≠ .failed → ∀ key, r.statusOf key ≠ some .failed ∧ r.statusOf key ≠ some .skipped

theorem inv_new {workflow : Workflow} {id : String} (h : new workflow id = .ok r) : Inv r := by
  rw [new] at h
  cases horder : workflow.topologicalOrder with
  | error e =>
    rw [horder] at h
    cases h
  | ok order =>
    rw [horder] at h
    cases h
    refine ⟨workflow.topological_of_ok horder, fun n hn => ?_, fun _ key => ?_⟩
    · have hkey : n.key ∈ workflow.nodes.map Node.key := List.mem_map_of_mem hn
      rw [statusOf]
      simp only [if_pos hkey]
      simp
    · rw [statusOf]
      dsimp only
      split <;> simp [pendingStep]

theorem Inv.apply (h : Inv r) (c : Call) : Inv (r.apply c) := by
  have keeps : ∀ {key}, Touches r key (r.apply c) → ∀ n ∈ (r.apply c).workflow.nodes, (r.apply c).statusOf n.key ≠ none := by
    intro key htouches n hn
    rw [htouches.workflow] at hn
    rw [Ne, htouches.known]
    exact h.known n hn
  have hsets : ∀ {key status}, Sets r key status (r.apply c) →
      ((r.apply c).run.status ≠ .failed → r.run.status ≠ .failed ∧ (status = .succeeded ∨ r.statusOf key = none)) →
      Inv (r.apply c) := by
    intro key status hset hrun
    refine ⟨?_, keeps hset.touches, fun hgoes k => ?_⟩
    · rw [hset.touches.workflow, hset.touches.order]
      exact h.topological
    · obtain ⟨hbefore, hstatus⟩ := hrun hgoes
      by_cases hk : k = key
      · subst hk
        rw [hset.status]
        rcases hstatus with rfl | hnone
        · cases r.statusOf k <;> simp
        · simp [hnone]
      · rw [hset.touches.others k hk]
        exact h.sound hbefore k
  cases apply_effect r c with
  | idle hidle =>
    refine ⟨?_, fun n hn => ?_, fun hgoes k => ?_⟩
    · rw [hidle.workflow, hidle.order]
      exact h.topological
    · rw [hidle.workflow] at hn
      rw [hidle.statusOf]
      exact h.known n hn
    · rw [hidle.statusOf]
      exact h.sound (fun hf => hgoes (hidle.failed.mpr hf)) k
  | issue key hissue =>
    refine ⟨?_, keeps hissue.touches, fun _ k => ?_⟩
    · rw [hissue.touches.workflow, hissue.touches.order]
      exact h.topological
    · by_cases hk : k = key
      · subst hk
        obtain ⟨n, -, hissued⟩ := hissue.issued
        have hsound := h.sound hissue.notFailed k
        rw [hissued]
        cases hstatus : r.statusOf k with
        | none => simp
        | some status =>
          rw [hstatus] at hsound
          rw [Option.map_some]
          rcases issuedStatus_cases n (if status = .pending then .running else status) with heq | heq | heq
          · simp [heq]
          · simp [heq]
          · rw [heq]
            split
            · simp
            · exact hsound
      · rw [hissue.touches.others k hk]
        exact h.sound hissue.notFailed k
  | complete hset hrun => exact hsets hset fun hgoes => ⟨hrun ▸ hgoes, Or.inl rfl⟩
  | approve hset hrun => exact hsets hset fun hgoes => ⟨hrun ▸ hgoes, Or.inl rfl⟩
  | fail hset hrun => exact hsets hset fun hgoes => absurd hrun hgoes
  | deny hset hrun =>
    refine hsets hset fun hgoes => ?_
    rw [hrun] at hgoes
    split at hgoes
    · exact absurd rfl hgoes
    · rename_i hnone
      refine ⟨hgoes, Or.inr ?_⟩
      rw [Option.not_isSome_iff_eq_none] at hnone
      rw [statusOf, hnone, Option.map_none]

/-- A failed run stays failed, and a call that halts it makes it failed. -/
theorem failed_apply (h : r.run.status = .failed ∨ r.Halts c) : (r.apply c).run.status = .failed := by
  cases apply_effect r c with
  | idle hidle => exact hidle.failed.mpr (h.resolve_right id)
  | issue key hissue => exact absurd (h.resolve_right id) hissue.notFailed
  | complete _ hrun => exact hrun.trans (h.resolve_right id)
  | approve _ hrun => exact hrun.trans (h.resolve_right id)
  | fail _ hrun => exact hrun
  | deny _ hrun =>
    rw [hrun]
    split
    · rfl
    · rename_i hnone
      exact h.resolve_right hnone

/-- A failed run issues nothing. -/
theorem issues_of_failed (h : r.run.status = .failed) : r.issues c = none := by
  cases hissues : r.issues c with
  | none => rfl
  | some key => exact absurd h (issues_spec hissues).notFailed

/-- What is issued comes after its predecessors, and these have succeeded. -/
theorem Inv.predecessors (h : Inv r) (hissues : r.issues c = some key) {e : Edge} (he : e ∈ r.workflow.edges)
    (hto : e.«to» = key) : r.statusOf e.«from» = some .succeeded := by
  have hissue := issues_spec hissues
  obtain ⟨pre, post, horder, hpre, -⟩ := firstOpen_spec hissue.opened
  have hpair : (e.«from», e.«to») ∈ r.workflow.pairs := List.mem_map_of_mem he
  obtain ⟨s, hs, hclosed⟩ := hpre _ (h.topological pre key post horder _ hpair hto)
  have hsound := h.sound hissue.notFailed e.«from»
  rw [statusOf, hs, Option.map_some] at hsound ⊢
  cases hstatus : s.status <;> simp [hstatus, StepStatus.isOpen] at hclosed hsound ⊢

/-- A gate is there when a step is. -/
theorem Inv.known_of_isGate (h : Inv r) (hgate : r.IsGate key) : ∃ status, r.statusOf key = some status := by
  obtain ⟨n, hn, rfl, -⟩ := hgate
  exact Option.ne_none_iff_exists'.mp (h.known n hn)

/-- A gate succeeds by the approval it waits for exactly when the call is orderly. -/
theorem Inv.gates_iff (h : Inv r) (c : Call) :
    (∀ key, r.IsGate key → r.statusOf key ≠ some .succeeded → (r.apply c).statusOf key = some .succeeded →
      (∃ now, c = .resolveApproval key true now) ∧ r.statusOf key = some .awaitingApproval) ↔ r.Orderly c := by
  have htouched : ∀ {k key}, Touches r key (r.apply c) → r.statusOf k ≠ some .succeeded →
      (r.apply c).statusOf k = some .succeeded → k = key := by
    intro k key htouches hbefore hafter
    by_contra hk
    exact hbefore ((htouches.others k hk).symm.trans hafter)
  have hset : ∀ {key}, r.IsGate key → Sets r key .succeeded (r.apply c) → (r.apply c).statusOf key = some .succeeded := by
    intro key hgate hset
    obtain ⟨status, hstatus⟩ := h.known_of_isGate hgate
    rw [hset.status, hstatus, Option.map_some]
  have hunset : ∀ {k key}, Sets r key .failed (r.apply c) → r.statusOf k ≠ some .succeeded →
      (r.apply c).statusOf k ≠ some .succeeded := by
    intro k key hset hbefore hafter
    obtain rfl := htouched hset.touches hbefore hafter
    rw [hset.status] at hafter
    cases hstatus : r.statusOf k <;> simp [hstatus] at hafter
  cases apply_effect r c with
  | idle hidle =>
    refine iff_of_true (fun k _ hbefore hafter => ?_) fun hgoes k hk _ n hn => ?_
    · exact absurd ((hidle.statusOf k).symm.trans hafter) hbefore
    · rw [hidle.stuck hgoes k hk] at hn
      cases hn
  | issue key hissue =>
    obtain ⟨n, hn, hissued⟩ := hissue.issued
    obtain ⟨-, -, -, -, s, hs, hopen⟩ := firstOpen_spec hissue.opened
    have hstatus : r.statusOf key = some s.status := by rw [statusOf, hs, Option.map_some]
    have hne : s.status ≠ .succeeded := fun hsucceeded => by simp [hsucceeded, StepStatus.isOpen] at hopen
    rw [hstatus, Option.map_some] at hissued
    constructor
    · intro hgates _ k hk hgate n' hn'
      rw [current_eq_some, hissue.opened, Option.some.injEq, Option.some.injEq] at hk
      subst hk
      rw [hn, Option.some.injEq] at hn'
      subst hn'
      by_contra hinstant
      rw [Bool.not_eq_false] at hinstant
      rw [issuedStatus, if_pos hinstant] at hissued
      obtain ⟨⟨_, hcall⟩, -⟩ := hgates key hgate (by simp [hstatus, hne]) hissued
      cases hcall
    · intro horderly k hgate hbefore hafter
      obtain rfl := htouched hissue.touches hbefore hafter
      have hinstant := horderly hissue.notFailed k (current_eq_some.mpr hissue.opened) hgate n hn
      rw [hissued, issuedStatus, hinstant, if_neg Bool.false_ne_true] at hafter
      split at hafter
      · simp at hafter
      · split at hafter <;> simp [hne] at hafter
  | complete hset' _ =>
    constructor
    · intro hgates hgate
      by_contra hbefore
      obtain ⟨⟨_, hcall⟩, -⟩ := hgates _ hgate hbefore (hset hgate hset')
      cases hcall
    · intro horderly k hgate hbefore hafter
      obtain rfl := htouched hset'.touches hbefore hafter
      exact absurd (horderly hgate) hbefore
  | @approve key now hset' _ =>
    constructor
    · intro hgates hgate
      by_cases hbefore : r.statusOf key = some .succeeded
      · exact Or.inr hbefore
      · exact Or.inl (hgates _ hgate hbefore (hset hgate hset')).2
    · intro horderly k hgate hbefore hafter
      obtain rfl := htouched hset'.touches hbefore hafter
      exact ⟨⟨_, rfl⟩, (horderly hgate).resolve_right hbefore⟩
  | fail hset' _ => exact iff_of_true (fun k _ hbefore hafter => absurd hafter (hunset hset' hbefore)) trivial
  | deny hset' _ => exact iff_of_true (fun k _ hbefore hafter => absurd hafter (hunset hset' hbefore)) trivial

/-- After any calls the invariant holds, and the run has failed if one of them halted it. -/
theorem inv_run (h : Inv start) (calls : List Call) : Inv (Lts.run apply start calls) :=
  Lts.run_invariant Inv (fun _ c hinv _ => hinv.apply c) h (Lts.everyStep_true calls)

theorem failed_run (h : start.run.status = .failed) (calls : List Call) : (Lts.run apply start calls).run.status = .failed :=
  Lts.run_invariant (fun r : Runner => r.run.status = .failed) (fun _ _ hfailed _ => failed_apply (Or.inl hfailed)) h
    (Lts.everyStep_true calls)

/-- **The runner gates its nodes in every run whose calls are orderly**, and in no other. -/
theorem gated_iff {workflow : Workflow} {id : String} (h : new workflow id = .ok start) (calls : List Call) :
    (∀ before c after, calls = before ++ c :: after → Gated start before (Lts.run apply start before) c) ↔
      Lts.EveryStep apply Orderly start calls := by
  rw [Lts.everyStep_iff]
  refine forall₃_congr fun before c after => imp_congr_right fun _ => ?_
  have hinv := inv_run (inv_new h) before
  constructor
  · intro hgated
    exact (hinv.gates_iff c).mp hgated.gates
  · intro horderly
    refine ⟨fun key hissues e he hto => hinv.predecessors hissues he hto, (hinv.gates_iff c).mpr horderly, ?_⟩
    rintro ⟨pre, call, post, rfl, hhalts⟩
    apply issues_of_failed
    rw [Lts.run_append, Lts.run_cons]
    exact failed_run (failed_apply (Or.inr hhalts)) post

/-! ### A gate that is completed -/

def gateWorkflow : Workflow where
  name := "release"
  nodes := [⟨"gate", .approvalGate, none⟩, ⟨"deploy", .toolCall, none⟩]
  edges := [⟨"gate", "deploy"⟩]

/-- The runner of a gate and a tool call after it. -/
def gateRunner : Runner where
  workflow := gateWorkflow
  order := ["gate", "deploy"]
  run := {
    id := "run"
    workflowName := "release"
    steps := fun k => if k ∈ gateWorkflow.nodes.map Node.key then some (pendingStep k) else none
    status := .pending }

theorem new_gateWorkflow : new gateWorkflow "run" = .ok gateRunner := by
  have horder : gateWorkflow.topologicalOrder = .ok ["gate", "deploy"] := by decide +kernel
  rw [new, horder]
  rfl

/-- The gate is issued, the approval is given, and the tool call is issued. -/
theorem gateRunner_gated : Gated gateRunner [.nextAction "1", .resolveApproval "gate" true "2"]
    (Lts.run apply gateRunner [.nextAction "1", .resolveApproval "gate" true "2"]) (.nextAction "3") := by
  refine (gated_iff new_gateWorkflow [.nextAction "1", .resolveApproval "gate" true "2", .nextAction "3"]).mpr ?_
    [.nextAction "1", .resolveApproval "gate" true "2"] (.nextAction "3") [] rfl
  refine ⟨fun _ key hkey _ n hn => ?_, fun _ => Or.inl rfl, fun _ key hkey _ n hn => ?_, trivial⟩
  · cases hkey
    cases hn
    rfl
  · cases hkey
    cases hn
    rfl

/-- The caller completes the gate like a tool call, and the tool call after it is issued without an approval. -/
theorem gate_completed : ∃ r, new gateWorkflow "run" = .ok r ∧
    ¬ Gated r [.nextAction "1"] (Lts.run apply r [.nextAction "1"]) (.completeStep "gate" .null "2") ∧
    (Lts.run apply r [.nextAction "1", .completeStep "gate" .null "2"]).issues (.nextAction "3") = some "deploy" := by
  refine ⟨gateRunner, new_gateWorkflow, fun hgated => ?_, rfl⟩
  have hgate : (Lts.run apply gateRunner [.nextAction "1"]).IsGate "gate" :=
    ⟨⟨"gate", .approvalGate, none⟩, List.mem_cons_self, rfl, rfl⟩
  have hwaits : (Lts.run apply gateRunner [.nextAction "1"]).statusOf "gate" = some .awaitingApproval := rfl
  obtain ⟨⟨_, hcall⟩, -⟩ := hgated.gates "gate" hgate (by rw [hwaits]; simp) rfl
  cases hcall

end Runner

end Flow

end ActantDb
