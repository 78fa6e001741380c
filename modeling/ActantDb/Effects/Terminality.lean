import ActantDb.Effects.Queue

/-!
# Effects that have ended

Only the claim of an effect looks at its status. Starting, completing and failing an effect, and giving it back or exhausting it when its claim is reaped, update it whatever became of it since, and none of them asks who holds its claim. So an effect that has ended stays as it is, with a result written by the worker that held its claim, as long as those updates come in time: `effects_final` says what each of them has to find.
-/

namespace ActantDb

open Prog

def Effect.ended (e : Effect) : Bool := e.status = .succeeded || e.status = .failed

/-- The result columns of an effect. -/
def Effect.result (e : Effect) : Option String × Option String := (e.resultRef, e.resultHash)

/-- Between `a` and `b` no ended effect has changed its status or its result, and no stored result is gone. -/
structure OutcomesKept (a b : Db) : Prop where
  effect : ∀ e ∈ a.effect.rows, e.ended = true →
    ∃ e' ∈ b.effect.rows, e'.id = e.id ∧ e'.status = e.status ∧ e'.result = e.result
  result : ∀ r ∈ a.effectResult.rows, r ∈ b.effectResult.rows

/-- The worker is assigned to the effect and has a claim on it that is not released. -/
def HoldsClaim (db : Db) (worker : WorkerId) (id : EffectId) : Prop :=
  (∃ e ∈ db.effect.rows, e.id = id ∧ e.assignedWorkerId = some worker) ∧
    ∃ c ∈ db.effectClaim.rows, c.effectId = id ∧ c.workerId = worker ∧ c.releasedAt = none

/-- The stored result of an effect: both columns are `NULL` before there is one. -/
def Db.resultOf (db : Db) (id : EffectId) : Option String × Option String :=
  ((db.effect.find? id).map (·.result)).getD (none, none)

/-- From `a` to `b` the effect gets another result, or a new result row. -/
def WritesResult (a b : Db) (id : EffectId) : Prop :=
  b.resultOf id ≠ a.resultOf id ∨
    ∃ r ∈ b.effectResult.rows, r.effectId = id ∧ ¬ r ∈ a.effectResult.rows

/-- What an update of the effect `id` has to find. -/
def Finds (db : Db) (id : EffectId) (p : Effect → Prop) : Prop := ∀ e ∈ db.effect.rows, e.id = id → p e

/-- What is asked of a statement issued by `worker`: an update that starts, fails or gives back an effect finds it not ended otherwise, and a result is written by the holder of the claim before the effect has ended. -/
def InTime (db : Db) (worker : WorkerId) : Op → Prop
  | .sql (.startEffect id) => Finds db id (·.ended = false)
  | .sql (.completeEffect id canon hash _) =>
    Finds db id fun e =>
      (e.ended = false ∧ HoldsClaim db worker id) ∨
        (e.status = .succeeded ∧ e.result = (some canon, some hash))
  | .sql (.insertEffectResult _ id _ _ _) => Finds db id fun _ => HoldsClaim db worker id
  | .sql (.failEffect id _ _) => Finds db id (·.status ≠ .succeeded)
  | .sql (.reclaimEffect id _) => Finds db id (·.ended = false)
  | .sql (.exhaustEffect id _) => Finds db id (·.status ≠ .succeeded)
  | _ => True

instance (db : Db) (worker : WorkerId) (id : EffectId) : Decidable (HoldsClaim db worker id) :=
  inferInstanceAs (Decidable (_ ∧ _))

instance (db : Db) (id : EffectId) (p : Effect → Prop) [DecidablePred p] : Decidable (Finds db id p) :=
  inferInstanceAs (Decidable (∀ e ∈ db.effect.rows, e.id = id → p e))

instance (db : Db) (worker : WorkerId) (o : Op) : Decidable (InTime db worker o) := by
  unfold InTime
  split <;> infer_instance

/-! ### One statement -/

section Statement

variable {db db' : Db} {worker : WorkerId}

theorem OutcomesKept.refl (db : Db) : OutcomesKept db db :=
  ⟨fun e he _ => ⟨e, he, rfl, rfl, rfl⟩, fun _ hr => hr⟩

theorem Effect.ended_congr {e e' : Effect} (h : e'.status = e.status) : e'.ended = e.ended := by
  rw [Effect.ended, Effect.ended, h]

theorem OutcomesKept.trans {a b c : Db} (hab : OutcomesKept a b) (hbc : OutcomesKept b c) :
    OutcomesKept a c := by
  constructor
  · intro e he hended
    obtain ⟨e', he', hid, hstatus, hresult⟩ := hab.effect e he hended
    obtain ⟨e'', he'', hid', hstatus', hresult'⟩ :=
      hbc.effect e' he' ((Effect.ended_congr hstatus).trans hended)
    exact ⟨e'', he'', hid'.trans hid, hstatus'.trans hstatus, hresult'.trans hresult⟩
  · exact fun r hr => hbc.result r (hab.result r hr)

theorem not_writesResult {a b : Db} {id : EffectId} (hcolumns : b.resultOf id = a.resultOf id)
    (hrows : b.effectResult = a.effectResult) : ¬ WritesResult a b id := by
  intro hwrites
  rcases hwrites with hne | ⟨r, hr, -, hnew⟩
  · exact hne hcolumns
  · exact hnew (hrows ▸ hr)

section Update

variable {p : Effect → Bool} {f : Effect → Effect} {hf : ∀ e, (f e).id = e.id}

/-- An update of effects that leaves what has ended as it is. -/
theorem outcomesKept_update
    (h : ∀ e ∈ db.effect, p e = true → e.ended = true →
      (f e).status = e.status ∧ (f e).result = e.result) :
    OutcomesKept db { db with effect := db.effect.update p f hf } := by
  refine ⟨fun e he hended => ?_, fun _ hr => hr⟩
  have hmem : (if p e then f e else e) ∈ db.effect.update p f hf := Table.mem_update.mpr ⟨e, he, rfl⟩
  refine ⟨if p e then f e else e, hmem, ?_⟩
  split
  · rename_i hp
    exact ⟨hf e, h e he hp hended⟩
  · exact ⟨rfl, rfl, rfl⟩

/-- An update of effects that leaves the result columns of `id` as they are. -/
theorem not_writesResult_update {id : EffectId}
    (h : ∀ e ∈ db.effect, e.id = id → p e = true → (f e).result = e.result) :
    ¬ WritesResult db { db with effect := db.effect.update p f hf } id := by
  refine not_writesResult ?_ rfl
  rw [Db.resultOf, Db.resultOf, Table.find?_update]
  cases hfind : db.effect.find? id with
  | none => rfl
  | some e =>
    obtain ⟨he, hid⟩ := Table.find?_eq_some.mp hfind
    simp only [Option.map_some, Option.getD_some]
    split
    · rename_i hp
      exact h e he hid hp
    · rfl

end Update

/-- What one statement of `worker` does to ended effects and stored results. -/
structure Proper (worker : WorkerId) (a b : Db) : Prop where
  kept : OutcomesKept a b
  held : ∀ id, WritesResult a b id → HoldsClaim a worker id

theorem Proper.refl (worker : WorkerId) (db : Db) : Proper worker db db :=
  ⟨.refl db, fun _ hwrites => absurd hwrites (not_writesResult rfl rfl)⟩

theorem proper_of_same (heffect : db'.effect = db.effect)
    (hresult : db'.effectResult = db.effectResult) : Proper worker db db' := by
  refine ⟨⟨fun e he _ => ⟨e, heffect ▸ he, rfl, rfl, rfl⟩, fun r hr => hresult ▸ hr⟩, ?_⟩
  intro id hwrites
  refine absurd hwrites (not_writesResult ?_ hresult)
  rw [Db.resultOf, heffect, Db.resultOf]

/-- An update that leaves the results of all effects and the status of the ended ones alone. -/
theorem proper_update {p : Effect → Bool} {f : Effect → Effect} {hf : ∀ e, (f e).id = e.id}
    (hresult : ∀ e, (f e).result = e.result)
    (hstatus : ∀ e ∈ db.effect, p e = true → e.ended = true → (f e).status = e.status) :
    Proper worker db { db with effect := db.effect.update p f hf } :=
  ⟨outcomesKept_update fun e he hp hended => ⟨hstatus e he hp hended, hresult e⟩,
    fun _ hwrites => absurd hwrites (not_writesResult_update fun e _ _ _ => hresult e)⟩

theorem proper_insertEffect {e : Effect} {t : Table Effect.id} (hins : db.effect.insert? e = some t)
    (hnew : e.result = (none, none)) : Proper worker db { db with effect := t } := by
  refine ⟨⟨fun e' he' _ => ⟨e', (Table.mem_insert? hins).mpr (Or.inl he'), rfl, rfl, rfl⟩,
    fun _ hr => hr⟩, fun id hwrites => absurd hwrites (not_writesResult ?_ rfl)⟩
  rw [Db.resultOf, Db.resultOf]
  cases hfind : db.effect.find? id with
  | some found => rw [Table.find?_insert? hins hfind]
  | none =>
    cases hfind' : t.find? id with
    | none => rfl
    | some found =>
      -- the only row of this id is the new one
      obtain ⟨hfound, hid⟩ := Table.find?_eq_some.mp hfind'
      rcases (Table.mem_insert? hins).mp hfound with hold | rfl
      · exact absurd hid (Table.find?_eq_none.mp hfind found hold)
      · rw [Option.map_some, Option.getD_some, hnew]
        rfl

theorem proper_insertEffectResult {r : EffectResult} {t : Table EffectResult.id}
    (hins : db.effectResult.insert? r = some t) (hheld : HoldsClaim db worker r.effectId) :
    Proper worker db { db with effectResult := t } := by
  refine ⟨⟨fun e he _ => ⟨e, he, rfl, rfl, rfl⟩,
    fun r' hr' => (Table.mem_insert? hins).mpr (Or.inl hr')⟩, fun id hwrites => ?_⟩
  rcases hwrites with hne | ⟨r', hr', hid, hnew⟩
  · exact absurd rfl hne
  · rcases (Table.mem_insert? hins).mp hr' with hold | rfl
    · exact absurd hold hnew
    · exact hid ▸ hheld

/-- The effect is completed by the holder of its claim, or again as it was. -/
theorem proper_completeEffect {id : EffectId} {canon hash now : String}
    (h : Finds db id fun e => (e.ended = false ∧ HoldsClaim db worker id) ∨
      (e.status = .succeeded ∧ e.result = (some canon, some hash))) :
    Proper worker db (db.updateEffect id (·.complete canon hash now) fun _ => rfl) := by
  constructor
  · apply outcomesKept_update
    intro e he hid hended
    rcases h e he (of_decide_eq_true hid) with ⟨hopen, -⟩ | ⟨hstatus, hresult⟩
    · rw [hopen] at hended
      cases hended
    · exact ⟨hstatus.symm, hresult.symm⟩
  · intro id' hwrites
    by_contra hheld
    refine not_writesResult_update (fun e he hid' hid => ?_) hwrites
    have heq : e.id = id := of_decide_eq_true hid
    rcases h e he heq with ⟨-, hholds⟩ | ⟨-, hresult⟩
    · rw [← heq, hid'] at hholds
      exact absurd hholds hheld
    · exact hresult.symm

/-- A new effect has no result. -/
def Op.FreshEffect : Op → Prop
  | .sql (.insertEffect e) => e.result = (none, none)
  | _ => True

/-- **One accepted statement**, issued in time. -/
theorem proper_exec {s : Sql} {reply : s.Reply} (h : s.exec db = .ok (reply, db'))
    (hfresh : Op.FreshEffect (.sql s)) (htime : InTime db worker (.sql s)) :
    Proper worker db db' := by
  by_cases hother : s.writes ≠ some .effect ∧ s.writes ≠ some .effectResult
  · have hframe := Sql.exec_frame h
    exact proper_of_same (hframe.effect hother.1) (hframe.effectResult hother.2)
  cases s with
  | insertEffect e =>
    obtain ⟨t, hok, heq⟩ := map_eq_ok.mp h
    cases heq
    exact proper_insertEffect (insertRow_eq_ok.mp hok).2 hfresh
  | claimEffect id w now =>
    simp only [Sql.exec] at h
    split at h
    · cases h
    · cases h
      -- the guard: what is claimed was pending
      refine proper_update (fun e => rfl) fun e _ hp hended => ?_
      rw [Bool.and_eq_true, decide_eq_true_eq, decide_eq_true_eq] at hp
      rw [Effect.ended, hp.2] at hended
      cases hended
  | startEffect id =>
    cases h
    refine proper_update (fun e => rfl) fun e he hid hended => ?_
    rw [htime e he (of_decide_eq_true hid)] at hended
    cases hended
  | completeEffect id canon hash now =>
    cases h
    exact proper_completeEffect htime
  | insertEffectResult id effectId canon hash now =>
    simp only [Sql.exec] at h
    split at h
    · cases h
    · rename_i e hfind
      obtain ⟨t, hok, heq⟩ := map_eq_ok.mp h
      cases heq
      obtain ⟨he, hid⟩ := Table.find?_eq_some.mp hfind
      exact proper_insertEffectResult (insertRow_eq_ok.mp hok).2 (htime e he hid)
  | failEffect id err now =>
    cases h
    refine proper_update (fun e => rfl) fun e he hid hended => ?_
    have hne := htime e he (of_decide_eq_true hid)
    rw [Effect.ended, decide_eq_false hne, Bool.false_or] at hended
    exact (of_decide_eq_true hended).symm
  | reclaimEffect id now =>
    cases h
    refine proper_update (fun e => rfl) fun e he hid hended => ?_
    rw [htime e he (of_decide_eq_true hid)] at hended
    cases hended
  | exhaustEffect id now =>
    cases h
    refine proper_update (fun e => rfl) fun e he hid hended => ?_
    have hne := htime e he (of_decide_eq_true hid)
    rw [Effect.ended, decide_eq_false hne, Bool.false_or] at hended
    exact (of_decide_eq_true hended).symm
  | _ => exact absurd ⟨by simp [Sql.writes], by simp [Sql.writes]⟩ hother

end Statement

/-! ### The calls -/

/-- The calls insert no effect that already has a result. -/
def queueMonitor : Monitor Op Op.Res Unit := ⟨fun _ => Op.FreshEffect, fun _ _ _ => ()⟩

section Calls

variable {α : Type}

theorem queue_execute {s : Sql} (h : Op.FreshEffect (.sql s)) :
    Steady queueMonitor (fun _ => True) (execute s) :=
  steady_execute fun _ _ => ⟨h, fun _ => trivial⟩

theorem queue_now : Steady queueMonitor (fun _ => True) nowRfc3339 :=
  steady_now fun _ _ => ⟨trivial, fun _ => trivial⟩

theorem queue_freshId (tag : String) : Steady queueMonitor (fun _ => True) (freshId tag) :=
  steady_freshId (fun _ _ => ⟨trivial, fun _ => trivial⟩) tag

theorem claimOne_steady (worker : WorkerId) (ws : WorkspaceId) (types : List String) :
    Steady queueMonitor (fun _ => True) (EffectQueue.claimOne worker ws types) := by
  unfold EffectQueue.claimOne
  split
  · exact steady_done _
  apply (queue_execute (by trivial)).bind
  intro found
  cases found with
  | none => exact steady_done _
  | some row =>
    obtain ⟨id, effectType, inputInline⟩ := row
    have hexpires : Steady queueMonitor (fun _ => True)
        (EffectQueue.expiresAt leaseDurationSeconds) :=
      Steady.bind (steady_perform fun _ _ => ⟨trivial, fun _ => trivial⟩) fun _ => steady_done _
    refine hexpires.bind fun expires => (queue_freshId _).bind fun claimId => ?_
    refine queue_now.bind fun now => (queue_execute (by trivial)).bind fun claimed => ?_
    cases claimed with
    | false => exact steady_done _
    | true =>
      apply queue_now.bind
      intro now
      exact (queue_execute (by trivial)).bind fun _ => steady_done _

theorem reapEach_steady (now : String) (reclaimed : Nat)
    (expired : List (EffectId × String × Int × Int)) :
    Steady queueMonitor (fun _ => True) (EffectQueue.reapEach now reclaimed expired) := by
  induction expired generalizing reclaimed with
  | nil => exact steady_done _
  | cons row rest ih =>
    obtain ⟨effectId, claimId, attempts, maxAttempts⟩ := row
    apply (queue_execute (by trivial)).bind
    intro _
    split
    · exact (queue_execute (by trivial)).bind fun _ => ih _
    · exact (queue_execute (by trivial)).bind fun _ => ih _

theorem issue_steady (X : Crates) (worker : WorkerId) (call : QueueCall) :
    Steady queueMonitor (fun _ => True) (call.issue X worker) := by
  cases call with
  | enqueue ws command requestedBy effectType input risk =>
    refine Steady.bind ?_ fun _ => steady_done _
    refine (queue_freshId _).bind fun id => queue_now.bind fun now => ?_
    exact (queue_execute (by exact rfl)).bind fun _ => steady_done _
  | heartbeat inFlightCount =>
    refine Steady.bind ?_ fun _ => steady_done _
    refine queue_now.bind fun now => (queue_execute (by trivial)).bind fun _ => ?_
    exact queue_execute (by trivial)
  | claimOne ws types => exact (claimOne_steady worker ws types).bind fun _ => steady_done _
  | start id => exact (queue_execute (by trivial)).bind fun _ => steady_done _
  | complete id output =>
    refine Steady.bind ?_ fun _ => steady_done _
    refine queue_now.bind fun now => (queue_execute (by trivial)).bind fun _ => ?_
    exact (queue_freshId _).bind fun resultId => queue_execute (by trivial)
  | fail id err =>
    refine Steady.bind ?_ fun _ => steady_done _
    exact queue_now.bind fun now => queue_execute (by trivial)
  | reapExpired =>
    refine Steady.bind ?_ fun _ => steady_done _
    refine queue_now.bind fun now => (queue_execute (by trivial)).bind fun expired => ?_
    exact reapEach_steady now 0 expired

end Calls

/-! ### Runs -/

variable {ι : Type} [DecidableEq ι]

/-- What is asked of a step: its statement, if the storage does not fail it, is issued in time. -/
def StepsInTime (E : Env) (worker : ι → WorkerId) (c : QueuePool ι) (i : ι) : Prop :=
  match c.next? i with
  | some o => E.fault c.world.statements = true ∨ InTime c.world.db (worker i) o
  | none => True

instance (E : Env) (worker : ι → WorkerId) (c : QueuePool ι) (i : ι) :
    Decidable (StepsInTime E worker c i) := by
  unfold StepsInTime
  split <;> infer_instance

/-- Workers' calls, none begun yet. -/
def QueuePool.start (X : Crates) (w : World) (worker : ι → WorkerId) (calls : ι → QueueCall) :
    QueuePool ι :=
  Pool.init w fun i => (calls i).issue X (worker i)

theorem proper_step {E : Env} {worker : ι → WorkerId} {c : QueuePool ι} {i : ι}
    (hsafe : Pool.AllSafe queueMonitor (fun _ _ => True) (fun _ => ()) c)
    (htime : StepsInTime E worker c i) :
    Proper (worker i) c.world.db (Pool.step (handle E) c i).world.db := by
  rcases Pool.step_cases (handle E) c i with ⟨r, -, hsame⟩ | ⟨o, next, hthread, hnext, hstep⟩
  · rw [hsame]
    exact Proper.refl _ _
  rw [hstep]
  rcases handle_cases E o c.world with hsame | ⟨s, reply, db', rfl, hfault, hexec, hdb⟩
  · rw [hsame]
    exact Proper.refl _ _
  · rw [hdb]
    rw [StepsInTime, hnext] at htime
    refine proper_exec hexec (hsafe.allowed hthread) (htime.resolve_left ?_)
    rw [hfault]
    exact Bool.false_ne_true

/-- **An effect that has ended keeps its status and its result, and a result is written by the holder of the claim**, in a run whose updates are issued in time. -/
theorem effects_final (X : Crates) (E : Env) (w : World) (worker : ι → WorkerId)
    (calls : ι → QueueCall) (schedule : List ι)
    (htime : Lts.EveryStep (Pool.step (handle E)) (StepsInTime E worker)
      (QueuePool.start X w worker calls) schedule) :
    (∀ pre mid post, schedule = pre ++ mid ++ post →
      OutcomesKept (Lts.run (Pool.step (handle E)) (QueuePool.start X w worker calls) pre).world.db
        (Lts.run (Pool.step (handle E)) (QueuePool.start X w worker calls) (pre ++ mid)).world.db) ∧
      ∀ pre i post, schedule = pre ++ i :: post → ∀ id,
        let before := Lts.run (Pool.step (handle E)) (QueuePool.start X w worker calls) pre
        WritesResult before.world.db (Pool.step (handle E) before i).world.db id →
          HoldsClaim before.world.db (worker i) id := by
  have hsafe : ∀ pre, Pool.AllSafe queueMonitor (fun _ _ => True) (fun _ => ())
      (Lts.run (Pool.step (handle E)) (QueuePool.start X w worker calls) pre) :=
    Pool.allSafe_run fun i => ((issue_steady X (worker i) (calls i)).safe () trivial)
  constructor
  · intro pre mid post hsplit
    rw [hsplit, List.append_assoc, Lts.everyStep_append, Lts.everyStep_append] at htime
    rw [Lts.run_append]
    refine Lts.run_rel (Pool.AllSafe queueMonitor (fun _ _ => True) (fun _ => ()))
      (fun c c' => OutcomesKept c.world.db c'.world.db) (fun c => .refl _)
      (fun _ _ _ => OutcomesKept.trans) (fun c i hc hstep => ?_) (hsafe pre) htime.2.1
    exact ⟨Pool.allSafe_step hc i, (proper_step hc hstep).kept⟩
  · intro pre i post hsplit id before hwrites
    have hstep := Lts.everyStep_iff.mp htime pre i post hsplit
    exact (proper_step (hsafe pre) hstep).held id hwrites

def Worker.sample (id : WorkerId) : Worker :=
  { id := id, workspaceId := "ws_demo", actorId := "act_demo", name := "demo", host := none,
    version := none, status := "online", lastHeartbeatAt := none,
    createdAt := "2023-11-14T22:13:20Z", disabledAt := none }

/-- A workspace with a command, its actor and two workers. -/
def Db.withWorkers : Db :=
  { Db.sample with
    commandRecord := ⟨[
      { id := "cmd_demo", workspaceId := "ws_demo", actorId := "act_demo", sessionId := none,
        commandType := "request_tool_call", inputInline := none, inputHash := zeros,
        policyId := none, status := .received, error := none, createdAt := "2023-11-14T22:13:20Z",
        committedAt := none }], by decide⟩
    worker := ⟨[Worker.sample "wrk_a", Worker.sample "wrk_b"], by decide⟩ }

/-- Between any two readings of the clock the lease runs out. -/
def Env.slow : Env := Env.sample (fun n => (1700000000 + 61 * n) * 10 ^ 9) fun _ => false

/-- The id of the first effect that `Env.sample` makes. -/
def firstEffect : EffectId := newId "eff" (Env.slow.ulid 0)

def leaseLostWorker (i : Fin 6) : WorkerId := if i = 3 ∨ i = 4 then "wrk_b" else "wrk_a"

/-- An effect claimed by `wrk_a`, whose lease runs out, then claimed and completed by `wrk_b`; at last `wrk_a` completes it too. -/
def leaseLost (i : Fin 6) : QueueCall :=
  match i with
  | 0 => .enqueue "ws_demo" "cmd_demo" "act_demo" "shell.run" (.object []) .medium
  | 1 => .claimOne "ws_demo" ["shell.run"]
  | 2 => .reapExpired
  | 3 => .claimOne "ws_demo" ["shell.run"]
  | 4 => .complete firstEffect (.string "from wrk_b")
  | 5 => .complete firstEffect (.string "from wrk_a")

/-- Each call in turn, up to the completion by `wrk_b`. -/
def untilCompleted : List (Fin 6) :=
  List.replicate 3 0 ++ List.replicate 7 1 ++ List.replicate 4 2 ++ List.replicate 7 3 ++
    List.replicate 4 4

theorem effects_final_untilCompleted :
    let start := QueuePool.start Crates.sample (World.start .withWorkers) leaseLostWorker leaseLost
    (∀ pre mid post, untilCompleted = pre ++ mid ++ post →
      OutcomesKept (Lts.run (Pool.step (handle .slow)) start pre).world.db
        (Lts.run (Pool.step (handle .slow)) start (pre ++ mid)).world.db) ∧
      ∀ pre i post, untilCompleted = pre ++ i :: post → ∀ id,
        let before := Lts.run (Pool.step (handle .slow)) start pre
        WritesResult before.world.db (Pool.step (handle .slow) before i).world.db id →
          HoldsClaim before.world.db (leaseLostWorker i) id :=
  effects_final Crates.sample .slow (World.start .withWorkers) leaseLostWorker leaseLost
    untilCompleted (by decide +kernel)

/-- The worker whose lease ran out overwrites the result. -/
theorem leaseLost_overwrites :
    let start := QueuePool.start Crates.sample (World.start .withWorkers) leaseLostWorker leaseLost
    let completed := Lts.run (Pool.step (handle .slow)) start untilCompleted
    let overwritten := Lts.run (Pool.step (handle .slow)) completed (List.replicate 4 5)
    World.Regular .slow overwritten.world ∧
      ¬ OutcomesKept completed.world.db overwritten.world.db ∧
        ¬ HoldsClaim completed.world.db (leaseLostWorker 5) firstEffect := by
  intro start completed overwritten
  refine ⟨by decide +kernel, fun hkept => ?_, by decide +kernel⟩
  have hended : ∃ e ∈ completed.world.db.effect.rows, e.ended = true ∧
      ∀ e' ∈ overwritten.world.db.effect.rows, e'.id = e.id → e'.result ≠ e.result := by
    decide +kernel
  obtain ⟨e, he, hended, hother⟩ := hended
  obtain ⟨e', he', hid, -, hresult⟩ := hkept.effect e he hended
  exact hother e' he' hid hresult

end ActantDb
