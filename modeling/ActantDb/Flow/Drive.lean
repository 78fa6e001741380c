import ActantDb.Flow.Order

/-!
# A workflow from beginning to end

A caller asks for the next action, carries it out, reports how it went, and asks again until there is nothing to do. The runner then takes it through the order of the nodes, one after the other, as far as they succeed, and says so (`runs_in_order`): this is what is left of the graph once it has been sorted.
-/

namespace ActantDb

namespace Flow

/-! ### The caller -/

/-- What a caller answers to an action, and the times of its rounds; an approval is given or denied. -/
structure Caller where
  answer : Action → Except String Value
  asksAt : Nat → String
  reportsAt : Nat → String

/-- The output that a step is given for an answer. -/
def Action.output : Action → Value → Value
  | .awaitApproval .., _ => .object [("approved", .bool true)]
  | _, output => output

/-- The error that a step is given for an answer. -/
def Action.error : Action → String → String
  | .awaitApproval .., _ => "denied"
  | _, error => error

namespace Runner

def report (r : Runner) (a : Action) (answer : Except String Value) (now : String) : Runner :=
  match a, answer with
  | .awaitApproval key _, answer => r.resolveApproval key answer.isOk now
  | .toolCall key .., .ok output | .modelCall key _, .ok output | .delay key _, .ok output =>
    r.completeStep key output now
  | .toolCall key .., .error error | .modelCall key _, .error error | .delay key _, .error error =>
    r.failStep key error now
  | .done _, _ => r

/-- The rounds of a caller from the `n`-th on: the actions it gets, and the run it is told is done. There is none if a call panics, or if the fuel does not last. -/
def drive (c : Caller) : Nat → Nat → Runner → Option (List Action × Run)
  | 0, _, _ => none
  | fuel + 1, n, r =>
    match r.nextAction (c.asksAt n) with
    | none => none
    | some (.done run, _) => some ([], run)
    | some (a, r') => (drive c fuel (n + 1) (r'.report a (c.answer a) (c.reportsAt n))).map fun p => (a :: p.1, p.2)

end Runner

/-! ### Actions -/

/-- The action for a node. -/
def Node.action (n : Node) (key : String) : Action :=
  let cfg := n.config.getD (.object [])
  match n.nodeType with
  | .toolCall => .toolCall key (Runner.configText cfg "tool" "") ((cfg.get "arguments").getD (.object []))
  | .modelCall => .modelCall key (Runner.configText cfg "prompt" "")
  | .approvalGate => .awaitApproval key (Runner.configText cfg "summary" "approval required")
  | .delay =>
    .delay key
      (match cfg.get "seconds" with
      | some (.number (.posInt n)) => n.toNat
      | _ => 0)
  | _ => .toolCall key "noop" (.object [])

/-- The action for the node with this key. -/
def Workflow.action (w : Workflow) (key : String) : Option Action := (w.node key).map fun n => n.action key

/-- How a run ends that goes through `done` and stops at the first of `rest`, if there is one. -/
structure Ended (c : Caller) (w : Workflow) (done rest : List String) (run : Run) : Prop where
  succeeded : ∀ key ∈ done, ∃ a v s, w.action key = some a ∧ c.answer a = .ok v ∧ run.steps key = some s ∧
    s.status = .succeeded ∧ s.output = some (a.output v)
  stopped : ∀ key ∈ rest.head?, ∃ a e s, w.action key = some a ∧ c.answer a = .error e ∧ run.steps key = some s ∧
    s.status = .failed ∧ s.error = some (a.error e)
  untouched : ∀ key ∈ rest.tail, run.steps key = some (Runner.pendingStep key)
  status : run.status = if rest = [] then .succeeded else .failed

namespace Runner

section Round

variable {r : Runner} {key now : String} {n : Node}

theorem steps_updateStep_self {run : Run} {s : StepRun} (h : run.steps key = some s) (f : StepRun → StepRun) :
    (run.updateStep key f).steps key = some (f s) := by
  rw [Run.updateStep]
  dsimp only
  rw [if_pos rfl, h, Option.map_some]

theorem steps_updateStep_of_ne {run : Run} {k : String} (h : k ≠ key) (f : StepRun → StepRun) :
    (run.updateStep key f).steps k = run.steps k := by
  rw [Run.updateStep]
  exact if_neg h

/-- The runner after the step of a node has been issued. -/
def begun (r : Runner) (n : Node) (key now : String) : Runner :=
  if n.nodeType = .approvalGate then
    { r with run := r.run.updateStep key fun s => { s with status := .awaitingApproval } }
  else if n.nodeType.instant then r.completeStep key (.object [("noop", .bool true)]) now
  else r

theorem actionFor_eq (hnode : r.workflow.node key = some n) :
    r.actionFor key now = some (n.action key, r.begun n key now) := by
  rw [actionFor, hnode]
  cases htype : n.nodeType <;> simp [Node.action, begun, htype, NodeType.instant] <;> rfl

theorem nodeKey_action (n : Node) (key : String) : (n.action key).nodeKey = some key := by
  cases htype : n.nodeType <;> simp [Node.action, htype, Action.nodeKey]

/-- A call that changes nothing but one step. -/
structure Keeps (r : Runner) (key : String) (r' : Runner) : Prop where
  workflow : r'.workflow = r.workflow
  order : r'.order = r.order
  others : ∀ k, k ≠ key → r'.run.steps k = r.run.steps k

theorem Keeps.trans {r' r'' : Runner} (h : Keeps r key r') (h' : Keeps r' key r'') : Keeps r key r'' :=
  ⟨h'.workflow.trans h.workflow, h'.order.trans h.order, fun k hk => (h'.others k hk).trans (h.others k hk)⟩

theorem keeps_begun : Keeps r key (r.begun n key now) := by
  rw [begun]
  split
  · exact ⟨rfl, rfl, fun k hk => steps_updateStep_of_ne hk _⟩
  · split
    · exact ⟨rfl, rfl, fun k hk => steps_updateStep_of_ne hk _⟩
    · exact ⟨rfl, rfl, fun _ _ => rfl⟩

theorem steps_begun {s : StepRun} (h : r.run.steps key = some s) : ∃ s', (r.begun n key now).run.steps key = some s' := by
  rw [begun]
  split
  · exact ⟨_, steps_updateStep_self h _⟩
  · split
    · exact ⟨_, steps_updateStep_self h _⟩
    · exact ⟨s, h⟩

theorem status_begun : (r.begun n key now).run.status = r.run.status := by
  rw [begun]
  split
  · rfl
  · split <;> rfl

/-- What a report of success does. -/
theorem report_ok {a : Action} (ha : a.nodeKey = some key) {s : StepRun} (hs : r.run.steps key = some s) (v : Value) (now : String) :
    Keeps r key (r.report a (.ok v) now) ∧ (r.report a (.ok v) now).run.status = r.run.status ∧
      ∃ s', (r.report a (.ok v) now).run.steps key = some s' ∧ s'.status = .succeeded ∧ s'.output = some (a.output v) := by
  cases a with
  | done run => cases ha
  | toolCall k tool args =>
    cases ha
    exact ⟨⟨rfl, rfl, fun k hk => steps_updateStep_of_ne hk _⟩, rfl, _, steps_updateStep_self hs _, rfl, rfl⟩
  | modelCall k prompt =>
    cases ha
    exact ⟨⟨rfl, rfl, fun k hk => steps_updateStep_of_ne hk _⟩, rfl, _, steps_updateStep_self hs _, rfl, rfl⟩
  | awaitApproval k summary =>
    cases ha
    exact ⟨⟨rfl, rfl, fun k hk => steps_updateStep_of_ne hk _⟩, rfl, _, steps_updateStep_self hs _, rfl, rfl⟩
  | delay k seconds =>
    cases ha
    exact ⟨⟨rfl, rfl, fun k hk => steps_updateStep_of_ne hk _⟩, rfl, _, steps_updateStep_self hs _, rfl, rfl⟩

/-- What a report of a failure does, or a denial. -/
theorem report_error {a : Action} (ha : a.nodeKey = some key) {s : StepRun} (hs : r.run.steps key = some s) (e : String)
    (now : String) :
    Keeps r key (r.report a (.error e) now) ∧ (r.report a (.error e) now).run.status = .failed ∧
      ∃ s', (r.report a (.error e) now).run.steps key = some s' ∧ s'.status = .failed ∧ s'.error = some (a.error e) := by
  cases a with
  | done run => cases ha
  | toolCall k tool args =>
    cases ha
    exact ⟨⟨rfl, rfl, fun k hk => steps_updateStep_of_ne hk _⟩, rfl, _, steps_updateStep_self hs _, rfl, rfl⟩
  | modelCall k prompt =>
    cases ha
    exact ⟨⟨rfl, rfl, fun k hk => steps_updateStep_of_ne hk _⟩, rfl, _, steps_updateStep_self hs _, rfl, rfl⟩
  | awaitApproval k summary =>
    cases ha
    refine ⟨⟨rfl, rfl, fun k hk => steps_updateStep_of_ne hk _⟩, ?_, _, steps_updateStep_self hs _, rfl, rfl⟩
    show (if (r.run.steps key).isSome then StepStatus.failed else r.run.status) = .failed
    rw [hs]
    rfl
  | delay k seconds =>
    cases ha
    exact ⟨⟨rfl, rfl, fun k hk => steps_updateStep_of_ne hk _⟩, rfl, _, steps_updateStep_self hs _, rfl, rfl⟩

end Round

/-! ### One round after the other -/

section Rounds

variable {c : Caller} {w : Workflow} {r : Runner} {done rest : List String} {key : String}

/-- Between two rounds: what is done has succeeded, and the rest has not been touched. -/
structure Between (c : Caller) (w : Workflow) (done rest : List String) (r : Runner) : Prop where
  workflow : r.workflow = w
  order : r.order = done ++ rest
  status : r.run.status ≠ .failed
  succeeded : ∀ key ∈ done, ∃ a v s, w.action key = some a ∧ c.answer a = .ok v ∧ r.run.steps key = some s ∧
    s.status = .succeeded ∧ s.output = some (a.output v)
  pending : ∀ key ∈ rest, r.run.steps key = some (pendingStep key)

theorem firstOpen_append {steps : String → Option StepRun}
    (h : ∀ key ∈ done, ∃ s, steps key = some s ∧ s.status.isOpen = false) :
    firstOpen steps (done ++ rest) = firstOpen steps rest := by
  induction done with
  | nil => rfl
  | cons key done ih =>
    obtain ⟨s, hs, hclosed⟩ := h key List.mem_cons_self
    rw [List.cons_append, firstOpen, hs]
    dsimp only
    rw [hclosed, if_neg Bool.false_ne_true]
    exact ih fun k hk => h k (List.mem_cons_of_mem _ hk)

theorem Between.firstOpen (h : Between c w done rest r) :
    Runner.firstOpen r.run.steps r.order = Runner.firstOpen r.run.steps rest := by
  rw [h.order]
  refine firstOpen_append fun key hkey => ?_
  obtain ⟨-, -, s, -, -, hs, hstatus, -⟩ := h.succeeded key hkey
  exact ⟨s, hs, by rw [hstatus]; rfl⟩

/-- Nothing is left to do. -/
theorem Between.done_all (h : Between c w done [] r) (now : String) :
    r.nextAction now = some (.done { r.run with status := .succeeded }, { r with run := { r.run with status := .succeeded } }) := by
  rw [nextAction, if_neg h.status, h.firstOpen]
  rfl

/-- The first of the rest is issued. -/
theorem Between.issue (h : Between c w done (key :: rest) r) {n : Node} (hnode : w.node key = some n) (now : String) :
    ∃ r', r.nextAction now = some (n.action key, r') ∧ Keeps r key r' ∧ r'.run.status = r.run.status ∧
      ∃ s, r'.run.steps key = some s := by
  have hpending := h.pending key List.mem_cons_self
  have hopen : Runner.firstOpen r.run.steps r.order = some (some key) := by
    rw [h.firstOpen, Runner.firstOpen, hpending]
    rfl
  let started := r.run.updateStep key fun s =>
    if s.status = .pending then { s with status := .running, startedAt := some now } else s
  have hnode' : ({ r with run := started } : Runner).workflow.node key = some n := by rw [← hnode, ← h.workflow]
  have hstarted : started.steps key = some _ := steps_updateStep_self hpending _
  refine ⟨begun { r with run := started } n key now, ?_, ?_, status_begun, steps_begun hstarted⟩
  · rw [nextAction, if_neg h.status, hopen]
    exact actionFor_eq hnode'
  · have hstart : Keeps r key { r with run := started } := ⟨rfl, rfl, fun k hk => steps_updateStep_of_ne hk _⟩
    exact hstart.trans keeps_begun

theorem drive_failed (h : r.run.status = .failed) (fuel n : Nat) : drive c (fuel + 1) n r = some ([], r.run) := by
  rw [drive, nextAction, if_pos h]
  rfl

/-- One more round, and what is reported of its action. -/
theorem drive_issue {a : Action} {r' : Runner} (ha : a.nodeKey = some key) (n fuel : Nat)
    (hnext : r.nextAction (c.asksAt n) = some (a, r')) :
    drive c (fuel + 1) n r =
      (drive c fuel (n + 1) (r'.report a (c.answer a) (c.reportsAt n))).map fun p => (a :: p.1, p.2) := by
  rw [drive, hnext]
  cases a with
  | done run => cases ha
  | toolCall | modelCall | awaitApproval | delay => rfl

theorem Between.succeed (h : Between c w done (key :: rest) r) (hnodup : (done ++ key :: rest).Nodup) {n : Node}
    (hnode : w.node key = some n) {r' : Runner} (hkeeps : Keeps r key r') (hstatus : r'.run.status = r.run.status) {v : Value}
    (hanswer : c.answer (n.action key) = .ok v)
    (hstep : ∃ s, r'.run.steps key = some s ∧ s.status = .succeeded ∧ s.output = some ((n.action key).output v)) :
    Between c w (done ++ [key]) rest r' := by
  have hne : ∀ k, k ∈ done ∨ k ∈ rest → k ≠ key := by
    rintro k (hk | hk) rfl
    · exact (List.nodup_append.mp hnodup).2.2 k hk k List.mem_cons_self rfl
    · exact (List.nodup_cons.mp (List.nodup_append.mp hnodup).2.1).1 hk
  refine ⟨hkeeps.workflow.trans h.workflow, ?_, hstatus ▸ h.status, fun k hk => ?_, fun k hk => ?_⟩
  · rw [hkeeps.order, h.order, List.append_assoc, List.singleton_append]
  · rcases List.mem_append.mp hk with hk | hk
    · obtain ⟨a, v, s, ha, hv, hs, hrest⟩ := h.succeeded k hk
      exact ⟨a, v, s, ha, hv, (hkeeps.others k (hne k (Or.inl hk))).trans hs, hrest⟩
    · cases List.mem_singleton.mp hk
      obtain ⟨s, hs, hrest⟩ := hstep
      exact ⟨n.action key, v, s, by rw [Workflow.action, hnode, Option.map_some], hanswer, hs, hrest⟩
  · rw [hkeeps.others k (hne k (Or.inr hk))]
    exact h.pending k (List.mem_cons_of_mem _ hk)

theorem Between.stop (h : Between c w done (key :: rest) r) (hnodup : (done ++ key :: rest).Nodup) {n : Node}
    (hnode : w.node key = some n) {r' : Runner} (hkeeps : Keeps r key r') (hstatus : r'.run.status = .failed) {e : String}
    (hanswer : c.answer (n.action key) = .error e)
    (hstep : ∃ s, r'.run.steps key = some s ∧ s.status = .failed ∧ s.error = some ((n.action key).error e)) :
    Ended c w done (key :: rest) r'.run := by
  refine ⟨fun k hk => ?_, fun k hk => ?_, fun k hk => ?_, hstatus⟩
  · obtain ⟨a, v, s, ha, hv, hs, hrest⟩ := h.succeeded k hk
    have hne : k ≠ key := fun heq => (List.nodup_append.mp hnodup).2.2 k hk key List.mem_cons_self heq
    exact ⟨a, v, s, ha, hv, (hkeeps.others k hne).trans hs, hrest⟩
  · cases hk
    obtain ⟨s, hs, hrest⟩ := hstep
    exact ⟨n.action key, e, s, by rw [Workflow.action, hnode, Option.map_some], hanswer, hs, hrest⟩
  · have hne : k ≠ key := fun heq => (List.nodup_cons.mp (List.nodup_append.mp hnodup).2.1).1 (heq ▸ hk)
    rw [hkeeps.others k hne]
    exact h.pending k (List.mem_cons_of_mem _ hk)

/-- The rest is done one after the other, up to the first that fails. -/
theorem Between.ended (h : Between c w done rest r) (hnodup : (done ++ rest).Nodup)
    (hnodes : ∀ key ∈ rest, w.node key ≠ none) (n fuel : Nat) (hfuel : rest.length < fuel) :
    ∃ more stop actions run, rest = more ++ stop ∧ drive c fuel n r = some (actions, run) ∧
      actions.map some = (more ++ stop.take 1).map w.action ∧ Ended c w (done ++ more) stop run := by
  induction rest generalizing done r n fuel with
  | nil =>
    obtain ⟨fuel, rfl⟩ := Nat.exists_eq_succ_of_ne_zero (Nat.ne_of_gt hfuel)
    refine ⟨[], [], [], { r.run with status := .succeeded }, rfl, ?_, rfl, ?_⟩
    · rw [drive, h.done_all]
    · rw [List.append_nil]
      exact ⟨h.succeeded, by simp, by simp, rfl⟩
  | cons key rest ih =>
    obtain ⟨fuel, rfl⟩ := Nat.exists_eq_succ_of_ne_zero (Nat.ne_of_gt (Nat.zero_lt_of_lt hfuel))
    rw [List.length_cons, Nat.succ_lt_succ_iff] at hfuel
    obtain ⟨node, hnode⟩ := Option.ne_none_iff_exists'.mp (hnodes key List.mem_cons_self)
    have haction : w.action key = some (node.action key) := by rw [Workflow.action, hnode, Option.map_some]
    obtain ⟨r', hnext, hkeeps, hstatus, s, hs⟩ := h.issue hnode (c.asksAt n)
    rw [drive_issue (nodeKey_action node key) n fuel hnext]
    cases hanswer : c.answer (node.action key) with
    | ok v =>
      obtain ⟨hkeeps', hstatus', hstep⟩ := report_ok (nodeKey_action node key) hs v (c.reportsAt n)
      have hbetween := h.succeed hnodup hnode (hkeeps.trans hkeeps') (hstatus'.trans hstatus) hanswer hstep
      obtain ⟨more, stop, actions, run, rfl, hdrive, hissued, hended⟩ :=
        ih hbetween (by rwa [List.append_assoc]) (fun k hk => hnodes k (List.mem_cons_of_mem _ hk)) (n + 1) fuel hfuel
      refine ⟨key :: more, stop, node.action key :: actions, run, rfl, by rw [hdrive]; rfl, ?_, ?_⟩
      · rw [List.map_cons, hissued, List.cons_append, List.map_cons, haction]
      · rwa [List.append_assoc] at hended
    | error e =>
      obtain ⟨hkeeps', hstatus', hstep⟩ := report_error (nodeKey_action node key) hs e (c.reportsAt n)
      obtain ⟨fuel, rfl⟩ := Nat.exists_eq_succ_of_ne_zero (Nat.ne_of_gt (Nat.zero_lt_of_lt hfuel))
      refine ⟨[], key :: rest, [node.action key], _, rfl, by rw [drive_failed hstatus']; rfl, ?_, ?_⟩
      · simp [haction]
      · rw [List.append_nil]
        exact h.stop hnodup hnode (hkeeps.trans hkeeps') hstatus' hanswer hstep

end Rounds

end Runner

namespace Runner

/-- A new runner stands at the beginning of its order. -/
theorem between_new {w : Workflow} {id : String} {r : Runner} (hclosed : w.Closed) (hnew : new w id = .ok r) (c : Caller) :
    Between c w [] r.order r ∧ r.order.Nodup ∧ ∀ key ∈ r.order, w.node key ≠ none := by
  have hcomplete : r.Complete := complete_new hnew fun order horder => (hclosed.ordered horder).1.subset
  rw [new] at hnew
  cases horder : w.topologicalOrder with
  | error e =>
    rw [horder] at hnew
    cases hnew
  | ok order =>
    rw [horder] at hnew
    cases hnew
    have hperm : order.Perm w.keys := (hclosed.ordered horder).1
    refine ⟨⟨rfl, rfl, by simp, by simp, fun key hkey => ?_⟩, hperm.nodup_iff.mpr hclosed.1, fun key hkey => (hcomplete key hkey).2⟩
    exact if_pos (hperm.mem_iff.mp hkey)

end Runner

/-- **A caller that answers every action is taken through the order of the nodes**, up to the first that fails: the runner never panics, it issues what succeeds and what fails, each once and in this order, keeps every output, leaves what comes after a failure alone, and reports success exactly if nothing has failed. -/
theorem runs_in_order {w : Workflow} (hclosed : w.Closed) {id : String} {r : Runner} (hnew : Runner.new w id = .ok r)
    (c : Caller) (fuel : Nat) (hfuel : r.order.length < fuel) :
    ∃ done rest actions run, r.order = done ++ rest ∧ Runner.drive c fuel 0 r = some (actions, run) ∧
      actions.map some = (done ++ rest.take 1).map w.action ∧ Ended c w done rest run := by
  obtain ⟨hbetween, hnodup, hnodes⟩ := Runner.between_new hclosed hnew c
  exact hbetween.ended (by simpa using hnodup) hnodes 0 fuel hfuel

/-- A caller that approves and succeeds with everything but the deployment. -/
def unlucky : Caller where
  answer
    | .toolCall .. => .error "no route to host"
    | _ => .ok .null
  asksAt n := toString n
  reportsAt n := toString n

theorem runs_in_order_unlucky :
    ∃ done rest actions run, Runner.gateRunner.order = done ++ rest ∧
      Runner.drive unlucky 3 0 Runner.gateRunner = some (actions, run) ∧
        actions.map some = (done ++ rest.take 1).map Runner.gateWorkflow.action ∧
          Ended unlucky Runner.gateWorkflow done rest run :=
  runs_in_order ⟨by decide, by decide⟩ Runner.new_gateWorkflow unlucky 3 (by decide)

end Flow

end ActantDb
