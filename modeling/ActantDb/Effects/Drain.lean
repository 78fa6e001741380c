import ActantDb.Effects.Worker
import ActantDb.Lib.Stable

/-!
# A worker empties its queue

A worker that is alone goes round its loop: it claims the oldest pending effect of its types, passes it to the handler of its type, and completes or fails it. As long as the storage accepts what it is asked for, each round ends one effect, so after as many rounds as there are pending effects there is none left, and every one of them was passed to its handler once, the oldest first (`worker_drains`).
-/

namespace ActantDb

namespace WorkerRunner

/-! ### The loop -/

/-- The world of the queue, and what the handlers were called with. -/
structure Running where
  world : World
  handled : List (Handler × Value)

/-- The `n`-th call of a handler comes to `answer n`. -/
def handleRunning (E : Env) (answer : Nat → Except String Value) : (o : WorkerOp) → Running → o.Res × Running
  | .base o, w => ((handle E o w.world).1, { w with world := (handle E o w.world).2 })
  | .handle h input, w => (answer w.handled.length, { w with handled := w.handled ++ [(h, input)] })

variable (X : Crates) (handlers : List Handler) (worker : WorkerId) (ws : WorkspaceId) (caps : List String)

/-- One round of `WorkerRunner::run`. A round without a lease waits before it goes on. -/
def round : WorkerAction Unit := do
  match ← ((EffectQueue.claimOne worker ws caps).embed .base (fun _ r => r) id : WorkerAction (Option Lease)) with
  | some lease => execute X handlers lease
  | none => pure ()
  attempt (EffectQueue.heartbeat worker 0)

/-- The loop until it is told to shut down. -/
def rounds : Nat → WorkerAction Unit
  | 0 => pure ()
  | n + 1 => do
    round X handlers worker ws caps
    rounds n

variable {X handlers worker ws caps} {E : Env} {answer : Nat → Except String Value}

/-- A call of the queue is run in the world of the queue. -/
theorem run_embed {α : Type} (E : Env) (answer : Nat → Except String Value) (p : Action α) (w : Running) :
    (p.embed .base (fun _ r => r) id : WorkerAction α).run (handleRunning E answer) w =
      ((p.run (handle E) w.world).1, { w with world := (p.run (handle E) w.world).2 }) := by
  induction p generalizing w with
  | done r => cases r <;> rfl
  | call o next ih => exact ih _ _

theorem run_attempt {α : Type} (p : Action α) (w : Running) :
    (attempt p).run (handleRunning E answer) w = (.ok (), { w with world := (p.run (handle E) w.world).2 }) := by
  rw [attempt, Prog.run_ignore, run_embed E answer]

theorem run_handle (h : Handler) (input : Value) (w : Running) :
    (Prog.perform (WorkerOp.handle h input) : WorkerAction (Except String Value)).run (handleRunning E answer) w =
      (.ok (answer w.handled.length), { w with handled := w.handled ++ [(h, input)] }) := rfl

/-! ### What the queue does not notice -/

/-- Operations that touch no effect and no claim. -/
def Aside : Op → Prop
  | .sql (.heartbeatWorker _ _) | .sql (.insertWorkerHeartbeat _) | .sql (.insertEffectResult _ _ _ _ _) => True
  | .sql _ => False
  | .now | .ulid => True

def asideMonitor : Monitor Op Op.Res Unit := ⟨fun _ o => Aside o, fun l _ _ => l⟩

/-- The effects, the claims and the ids of the workers are the same. -/
structure Unnoticed (w w' : World) : Prop where
  effect : w'.db.effect = w.db.effect
  claim : w'.db.effectClaim = w.db.effectClaim
  worker : ∀ k, w'.db.worker.contains k = w.db.worker.contains k
  ulids : w.ulids ≤ w'.ulids

theorem Unnoticed.refl (w : World) : Unnoticed w w := ⟨rfl, rfl, fun _ => rfl, Nat.le_refl _⟩

theorem Unnoticed.trans {w w' w'' : World} (h : Unnoticed w w') (h' : Unnoticed w' w'') : Unnoticed w w'' where
  effect := h'.effect.trans h.effect
  claim := h'.claim.trans h.claim
  worker k := (h'.worker k).trans (h.worker k)
  ulids := Nat.le_trans h.ulids h'.ulids

theorem ulids_handle (o : Op) (w : World) : w.ulids ≤ (handle E o w).2.ulids := by
  cases o with
  | now => exact Nat.le_refl _
  | ulid => exact Nat.le_succ _
  | sql s =>
    simp only [handle]
    split
    · exact Nat.le_refl _
    · split <;> exact Nat.le_refl _

theorem unnoticed_handle {o : Op} (h : Aside o) (w : World) : Unnoticed w (handle E o w).2 := by
  have hframe := handle_frame E o w
  constructor
  case effect =>
    refine hframe.effect ?_
    cases o with
    | now | ulid => simp [Op.writes]
    | sql s => cases s <;> first | exact h.elim | simp [Op.writes, Sql.writes]
  case claim =>
    refine hframe.effectClaim ?_
    cases o with
    | now | ulid => simp [Op.writes]
    | sql s => cases s <;> first | exact h.elim | simp [Op.writes, Sql.writes]
  case worker =>
    intro k
    rcases handle_cases E o w with hsame | ⟨s, reply, db', rfl, -, hexec, hdb⟩
    · rw [hsame]
    · rw [hdb]
      cases s with
      | heartbeatWorker id now =>
        cases hexec
        show (w.db.worker.update (fun r => r.id = id) (fun r => { r with lastHeartbeatAt := some now }) fun _ => rfl).contains k = _
        rw [Table.contains_update]
      | insertWorkerHeartbeat hb => rw [(Sql.exec_frame hexec).worker (by simp [Sql.writes])]
      | insertEffectResult => rw [(Sql.exec_frame hexec).worker (by simp [Sql.writes])]
      | _ => exact h.elim
  case ulids => exact ulids_handle o w

/-- Neither does it notice a program of such operations. -/
theorem unnoticed_run {α : Type} {p : Action α} (h : Prog.Steady asideMonitor (fun _ => True) p) (w : World) :
    Unnoticed w (p.run (handle E) w).2 := by
  obtain ⟨-, hrun, -⟩ := Prog.run_joint (handle E) (fun _ w' => Unnoticed w w') (fun _ _ => True)
    (fun _ w' o hw hallowed _ => hw.trans (unnoticed_handle hallowed w')) (h.safe () trivial) (Unnoticed.refl w)
    (Prog.along_true (handle E) p w)
  exact hrun

theorem unnoticed_heartbeat (n : Int) (w : World) : Unnoticed w ((EffectQueue.heartbeat worker n).run (handle E) w).2 := by
  refine unnoticed_run ?_ w
  refine (steady_now fun l _ => ⟨trivial, fun _ => trivial⟩).bind fun now => ?_
  exact (steady_execute fun l _ => ⟨trivial, fun _ => trivial⟩).bind fun _ =>
    steady_execute fun l _ => ⟨trivial, fun _ => trivial⟩

/-! ### Rounds -/

/-- The row of that id is rewritten, and nothing else that the queue notices. -/
structure Rewritten (id : EffectId) (g : Effect → Effect) (w w' : World) : Prop where
  effect : w'.db.effect.rows = w.db.effect.rows.map fun r => if r.id = id then g r else r
  claim : w'.db.effectClaim = w.db.effectClaim
  worker : ∀ k, w'.db.worker.contains k = w.db.worker.contains k
  ulids : w.ulids ≤ w'.ulids

theorem Rewritten.unnoticed {id : EffectId} {g : Effect → Effect} {w w' w'' : World} (h : Rewritten id g w w')
    (h' : Unnoticed w' w'') : Rewritten id g w w'' where
  effect := by rw [h'.effect, h.effect]
  claim := h'.claim.trans h.claim
  worker k := (h'.worker k).trans (h.worker k)
  ulids := Nat.le_trans h.ulids h'.ulids

theorem Rewritten.trans {id : EffectId} {g g' : Effect → Effect} {w w' w'' : World} (h : Rewritten id g w w')
    (h' : Rewritten id g' w' w'') (hid : ∀ r, (g r).id = r.id) : Rewritten id (g' ∘ g) w w'' where
  effect := by
    rw [h'.effect, h.effect, List.map_map]
    refine List.map_congr_left fun r _ => ?_
    by_cases hr : r.id = id
    · simp [hr, hid]
    · simp [hr]
  claim := h'.claim.trans h.claim
  worker k := (h'.worker k).trans (h.worker k)
  ulids := Nat.le_trans h.ulids h'.ulids

/-- The row of an effect that has been ended. -/
structure Ended (worker : WorkerId) (status : EffectStatus) (e e' : Effect) : Prop where
  id : e'.id = e.id
  workspaceId : e'.workspaceId = e.workspaceId
  effectType : e'.effectType = e.effectType
  worker : e'.assignedWorkerId = some worker
  attempts : e'.attemptCount = e.attemptCount + 1
  status : e'.status = status

/-- The storage accepts the claims of the worker, which has claimed no pending effect before. -/
structure Alone (E : Env) (worker : WorkerId) (w : World) : Prop where
  fault : ∀ n, E.fault n = false
  ulid : ∀ {n m}, E.ulid n = E.ulid m → n = m
  registered : w.db.worker.contains worker = true
  unclaimed : ∀ c ∈ w.db.effectClaim, c.workerId = worker → ∀ e ∈ w.db.effect, e.id = c.effectId → e.status ≠ .pending
  fresh : ∀ c ∈ w.db.effectClaim, ∀ n, w.ulids ≤ n → c.id ≠ newId "clm" (E.ulid n)

theorem Alone.unnoticed {w w' : World} (h : Alone E worker w) (hw : Unnoticed w w') : Alone E worker w' where
  fault := h.fault
  ulid := h.ulid
  registered := (hw.worker worker).trans h.registered
  unclaimed := by
    rw [hw.claim, hw.effect]
    exact h.unclaimed
  fresh := by
    rw [hw.claim]
    exact fun c hc n hn => h.fresh c hc n (Nat.le_trans hw.ulids hn)

theorem run_execute (hfault : ∀ n, E.fault n = false) {s : Sql} {w : World} {reply : s.Reply} {db : Db}
    (hexec : s.exec w.db = .ok (reply, db)) :
    (ActantDb.execute s).run (handle E) w = (.ok reply, { w with db := db, statements := w.statements + 1 }) := by
  have hhandle : handle E (.sql s) w = (.ok reply, { w with db := db, statements := w.statements + 1 }) := by
    simp only [handle, hfault, hexec, Bool.false_eq_true, if_false]
  rw [run_execute_ok (by rw [hhandle]), hhandle]

theorem run_now {w : World} :
    nowRfc3339.run (handle E) w = (.ok (E.clock w.readings).formatRfc3339, { w with readings := w.readings + 1 }) := rfl

theorem run_freshId {tag : String} {w : World} :
    (freshId tag).run (handle E) w = (.ok (newId tag (E.ulid w.ulids)), { w with ulids := w.ulids + 1 }) := rfl

theorem run_expiresAt {seconds : Nat} {w : World} :
    (EffectQueue.expiresAt seconds).run (handle E) w =
      (.ok ((E.clock w.readings).plusSeconds seconds).formatRfc3339, { w with readings := w.readings + 1 }) := rfl

theorem claim_id (worker : WorkerId) (now : String) (e : Effect) : (e.claim worker now).id = e.id := rfl

/-- The update of `claim_one`. -/
def claimed (db : Db) (id : EffectId) (worker : WorkerId) (now : String) : Db :=
  { db with
    effect := db.effect.update (fun e => e.id = id && e.status = .pending) (·.claim worker now) (claim_id worker now) }

/-- The claim of the oldest pending effect. -/
theorem run_claimOne {w : World} (h : Alone E worker w) {e : Effect} {rest : List Effect}
    (hpending : w.db.pendingEffects ws caps = e :: rest) :
    ∃ now claim expires t, claim.effectId = e.id ∧ claim.workerId = worker ∧ claim.id = newId "clm" (E.ulid w.ulids) ∧
      w.db.effectClaim.insert? claim = some t ∧
      (EffectQueue.claimOne worker ws caps).run (handle E) w =
        (.ok (some ⟨e.id, worker, e.effectType, e.inputInline, expires⟩),
          { db := { claimed w.db e.id worker now with effectClaim := t }, readings := w.readings + 3,
            ulids := w.ulids + 1, statements := w.statements + 3 }) := by
  have hmem : e ∈ w.db.effect ∧ e.workspaceId = ws ∧ e.status = .pending ∧ caps.contains e.effectType = true := by
    have hin : e ∈ w.db.pendingEffects ws caps := by rw [hpending]; exact List.mem_cons_self
    rw [Db.pendingEffects, List.mem_insertionSort, List.mem_filter] at hin
    simp only [Bool.and_eq_true, decide_eq_true_eq] at hin
    exact ⟨hin.1, hin.2.1.1, hin.2.1.2, hin.2.2⟩
  obtain ⟨he, -, hstatus, hcaps⟩ := hmem
  have hne : caps.isEmpty = false := by
    cases caps with
    | nil => cases hcaps
    | cons => rfl
  have hany : (w.db.effect.rows.any fun e' => e'.id = e.id && e'.status = .pending) = true := by
    rw [List.any_eq_true]
    exact ⟨e, he, by simp [hstatus]⟩
  -- the claim is new, since the worker has claimed no pending effect and its id has not been given out
  obtain ⟨now, hnow⟩ : ∃ now, now = (E.clock (w.readings + 1)).formatRfc3339 := ⟨_, rfl⟩
  obtain ⟨claim, hclaim⟩ : ∃ claim : EffectClaim, claim =
      { id := newId "clm" (E.ulid w.ulids), effectId := e.id, workerId := worker,
        claimedAt := (E.clock (w.readings + 2)).formatRfc3339,
        expiresAt := ((E.clock w.readings).plusSeconds leaseDurationSeconds).formatRfc3339, releasedAt := none } := ⟨_, rfl⟩
  have hnot : ∀ c ∈ w.db.effectClaim, ¬ (c.effectId = e.id ∧ c.workerId = worker) := fun c hc ⟨hid, hworker⟩ =>
    h.unclaimed c hc hworker e he hid.symm hstatus
  have hids : ∀ c ∈ w.db.effectClaim, c.id ≠ claim.id := fun c hc => by
    rw [hclaim]
    exact h.fresh c hc w.ulids (Nat.le_refl _)
  obtain ⟨t, ht⟩ : ∃ t, w.db.effectClaim.insert? claim = some t := by
    cases hinsert : w.db.effectClaim.insert? claim with
    | some t => exact ⟨t, rfl⟩
    | none =>
      obtain ⟨c, hc, hid⟩ := Table.contains_iff.mp (Table.insert?_eq_none.mp hinsert)
      exact absurd hid (hids c hc)
  refine ⟨now, claim, claim.expiresAt, t, by rw [hclaim], by rw [hclaim], by rw [hclaim], ht, ?_⟩
  have hselect : (Sql.oldestPending ws caps).exec w.db = .ok (some (e.id, e.effectType, e.inputInline), w.db) := by
    simp only [Sql.exec, hpending, List.head?_cons, Option.map_some]
  have hupdate : (Sql.claimEffect e.id worker now).exec w.db = .ok (true, claimed w.db e.id worker now) := by
    simp only [Sql.exec, hany, h.registered]
    rfl
  have hinsert : (Sql.insertEffectClaim claim).exec (claimed w.db e.id worker now) =
      .ok ((), { claimed w.db e.id worker now with effectClaim := t }) := by
    have halready : (claimed w.db e.id worker now).claimedAlready claim = false := by
      rw [Db.claimedAlready, List.any_eq_false]
      intro c hc heq
      rw [Bool.and_eq_true, Bool.and_eq_true, decide_eq_true_eq, decide_eq_true_eq, hclaim] at heq
      exact hnot c hc heq.1
    have hreferences : (claimed w.db e.id worker now).effectClaimReferences claim = true := by
      rw [Db.effectClaimReferences, Bool.and_eq_true, hclaim]
      refine ⟨?_, h.registered⟩
      exact (@Table.contains_update _ _ _ _ w.db.effect _ (·.claim worker now) (claim_id worker now) e.id).trans (Table.contains_iff.mpr ⟨e, he, rfl⟩)
    have hrow : insertRow "effect_claim" (claimed w.db e.id worker now).effectClaim claim
        ((claimed w.db e.id worker now).effectClaimReferences claim) = .ok t := insertRow_eq_ok.mpr ⟨hreferences, ht⟩
    simp only [Sql.exec, halready, hrow]
    rfl
  rw [EffectQueue.claimOne, if_neg (by simp [hne]), Prog.run_bind_ok _ (run_execute h.fault hselect)]
  dsimp only
  rw [Prog.run_bind_ok _ run_expiresAt, Prog.run_bind_ok _ run_freshId, Prog.run_bind_ok _ run_now]
  dsimp only
  rw [← hnow, Prog.run_bind_ok _
    (run_execute (w := ⟨w.db, w.readings + 2, w.ulids + 1, w.statements + 1⟩) h.fault hupdate), if_pos rfl,
    Prog.run_bind_ok _ run_now]
  dsimp only
  rw [← hclaim, Prog.run_bind_ok _ (run_execute
    (w := ⟨claimed w.db e.id worker now, w.readings + 3, w.ulids + 1, w.statements + 2⟩) h.fault hinsert), hclaim]
  rfl

/-- The rows after the claim: the effect is the only pending one of its id. -/
theorem claimed_rows {db : Db} {e : Effect} {now : String} (he : e ∈ db.effect) (hstatus : e.status = .pending) :
    (claimed db e.id worker now).effect.rows = db.effect.rows.map fun r => if r.id = e.id then e.claim worker now else r := by
  refine List.map_congr_left fun r hr => ?_
  by_cases hid : r.id = e.id
  · have hsame : r = e := Table.eq_of_key_eq hr he hid
    simp [hsame, hstatus]
  · simp [hid]

/-- What the worker has claimed is no longer pending once it has been ended. -/
theorem Alone.ended {w w' : World} (h : Alone E worker w) {e e' : Effect} {status : EffectStatus} {claim : EffectClaim}
    {t : Table EffectClaim.id} (hended : Ended worker status e e') (hstatus : status ≠ .pending)
    (hclaim : claim.effectId = e.id) (hid : claim.id = newId "clm" (E.ulid w.ulids))
    (hinsert : w.db.effectClaim.insert? claim = some t)
    (hrows : w'.db.effect.rows = w.db.effect.rows.map fun r => if r.id = e.id then e' else r)
    (hclaims : w'.db.effectClaim = t) (hworker : ∀ k, w'.db.worker.contains k = w.db.worker.contains k)
    (hulids : w.ulids + 1 ≤ w'.ulids) : Alone E worker w' where
  fault := h.fault
  ulid := h.ulid
  registered := (hworker worker).trans h.registered
  unclaimed := by
    intro c hc hcworker r hr hrid
    rw [hclaims, Table.mem_insert? hinsert] at hc
    have hr' := hr
    rw [Table.mem_iff, hrows, List.mem_map] at hr'
    obtain ⟨r₀, hr₀, rfl⟩ := hr'
    by_cases hr₀id : r₀.id = e.id
    · rw [if_pos hr₀id, hended.status]
      exact hstatus
    · rw [if_neg hr₀id] at hrid ⊢
      rcases hc with hc | rfl
      · exact h.unclaimed c hc hcworker r₀ hr₀ hrid
      · exact absurd (hrid.trans hclaim) hr₀id
  fresh := by
    intro c hc n hn
    rw [hclaims, Table.mem_insert? hinsert] at hc
    rcases hc with hc | rfl
    · exact h.fresh c hc n (by omega)
    · rw [hid]
      intro heq
      have hulid : E.ulid w.ulids = E.ulid n := by
        simpa [newId] using heq
      have := h.ulid hulid
      omega

/-- Once it has been ended, the effect is no longer in the queue; the others are where they were. -/
theorem pendingEffects_ended {db db' : Db} {e e' : Effect} {rest : List Effect} (hpending : db.pendingEffects ws caps = e :: rest)
    (hstatus : e'.status ≠ .pending)
    (hrows : db'.effect.rows = db.effect.rows.map fun r => if r.id = e.id then e' else r) :
    db'.pendingEffects ws caps = rest := by
  have hfilter : ∀ rows : List Effect,
      ((rows.map fun r => if r.id = e.id then e' else r).filter fun e =>
        e.workspaceId = ws && e.status = .pending && caps.contains e.effectType) =
      (rows.filter fun e => e.workspaceId = ws && e.status = .pending && caps.contains e.effectType).filter
        fun r => r.id ≠ e.id := by
    intro rows
    induction rows with
    | nil => rfl
    | cons r rows ih =>
      rw [List.map_cons, List.filter_cons, ih, List.filter_cons]
      by_cases hr : r.id = e.id
      · rw [if_pos hr, if_neg (by simp [hstatus])]
        split
        · rw [List.filter_cons, if_neg (by simp [hr])]
        · rfl
      · rw [if_neg hr]
        split
        · rw [List.filter_cons, if_pos (by simp [hr])]
        · rfl
  -- the ids of the queue are distinct, so what is left of it is the rest
  have hnodup : (db.pendingEffects ws caps).Pairwise fun a b => a.id ≠ b.id := by
    have hrows : (db.effect.rows.filter fun e =>
        e.workspaceId = ws && e.status = .pending && caps.contains e.effectType).Pairwise fun a b => a.id ≠ b.id :=
      (List.pairwise_map.mp db.effect.keysNodup).filter _
    exact ((List.perm_insertionSort _ _).pairwise_iff (fun {_ _} h => Ne.symm h)).mpr hrows
  rw [hpending, List.pairwise_cons] at hnodup
  calc db'.pendingEffects ws caps
      = (db.pendingEffects ws caps).filter fun r => r.id ≠ e.id := by
        rw [Db.pendingEffects, hrows, hfilter, Db.pendingEffects, Stable.filter_insertionSort]
    _ = rest := by
        rw [hpending, List.filter_cons, if_neg (by simp), List.filter_eq_self]
        exact fun r hr => decide_eq_true (hnodup.1 r hr).symm

/-- A statement that rewrites one effect. -/
theorem rewritten_execute (hfault : ∀ n, E.fault n = false) {s : Sql} {w : World} {id : EffectId} {g : Effect → Effect}
    {hg : ∀ e, (g e).id = e.id} (reply : s.Reply) (hexec : s.exec w.db = .ok (reply, w.db.updateEffect id g hg)) :
    Rewritten id g w ((ActantDb.execute s).run (handle E) w).2 := by
  rw [run_execute hfault hexec]
  refine ⟨?_, rfl, fun _ => rfl, Nat.le_refl _⟩
  refine List.map_congr_left fun r _ => ?_
  simp only [decide_eq_true_eq]

theorem rewritten_fail (hfault : ∀ n, E.fault n = false) (id : EffectId) (err : String) (w : World) :
    ∃ now, Rewritten id (·.fail err now) w ((EffectQueue.fail id err).run (handle E) w).2 := by
  rw [EffectQueue.fail, Prog.run_bind_ok _ run_now]
  have h := rewritten_execute (E := E) hfault (s := .failEffect id err (E.clock w.readings).formatRfc3339)
    (w := { w with readings := w.readings + 1 }) (g := (·.fail err _)) () rfl
  exact ⟨_, h.effect, h.claim, h.worker, h.ulids⟩

theorem rewritten_complete (hfault : ∀ n, E.fault n = false) (id : EffectId) (output : Value) (w : World) :
    ∃ canon hash now, Rewritten id (·.complete canon hash now) w ((EffectQueue.complete X id output).run (handle E) w).2 := by
  obtain ⟨canon, hcanon⟩ : ∃ canon, canon = canonicalJson X output := ⟨_, rfl⟩
  obtain ⟨now, hnow⟩ : ∃ now, now = (E.clock w.readings).formatRfc3339 := ⟨_, rfl⟩
  refine ⟨canon, sha256Hex X (asBytes canon), now, ?_⟩
  rw [EffectQueue.complete, Prog.run_bind_ok _ run_now, ← hcanon, ← hnow]
  have hupdate := rewritten_execute (E := E) hfault
    (s := .completeEffect id canon (sha256Hex X (asBytes canon)) now) (w := { w with readings := w.readings + 1 })
    (g := (·.complete canon (sha256Hex X (asBytes canon)) now)) () rfl
  have hrun := run_execute (E := E) hfault
    (s := .completeEffect id canon (sha256Hex X (asBytes canon)) now) (w := { w with readings := w.readings + 1 }) rfl
  rw [hrun] at hupdate
  rw [Prog.run_bind_ok _ hrun]
  -- the result is written afterwards, if it is
  have hmid : Rewritten id (·.complete canon (sha256Hex X (asBytes canon)) now) w _ :=
    ⟨hupdate.effect, hupdate.claim, hupdate.worker, hupdate.ulids⟩
  refine hmid.unnoticed (unnoticed_run ?_ _)
  refine (steady_freshId (fun l _ => ⟨trivial, fun _ => trivial⟩) "er").bind fun resultId => ?_
  exact steady_execute fun l _ => ⟨trivial, fun _ => trivial⟩

/-! ### What a round does -/

/-- What the worker looks up for an effect. -/
def handlerFor (handlers : List Handler) (e : Effect) : Option Handler := handlers.find? fun h => h.effectType = e.effectType

def inputFor (X : Crates) (e : Effect) : Value := (e.inputInline.bind X.fromStr).getD (.object [])

/-- The calls that a queue comes to. -/
def callsFor (X : Crates) (handlers : List Handler) (pending : List Effect) : List (Handler × Value) :=
  pending.filterMap fun e => (handlerFor handlers e).map fun h => (h, inputFor X e)

/-- The status of an effect whose handler was called, if there is one. -/
def statusAfter (answer : Option (Except String Value)) : EffectStatus :=
  match answer with
  | some (.ok _) => .succeeded
  | _ => .failed

theorem statusAfter_ne_pending (answer : Option (Except String Value)) : statusAfter answer ≠ .pending := by
  match answer with
  | none | some (.error _) | some (.ok _) => nofun

theorem execute_ends (X : Crates) (handlers : List Handler) (answer : Nat → Except String Value) (hfault : ∀ n, E.fault n = false) {e : Effect} (lease : Lease) (htype : lease.effectType = e.effectType)
    (hinput : lease.inputInline = e.inputInline) (w : Running) :
    ∃ w' g, (execute X handlers lease).run (handleRunning E answer) w = (.ok (), w') ∧
      w'.handled = w.handled ++ callsFor X handlers [e] ∧ Rewritten lease.effectId g w.world w'.world ∧
      ∀ r, (g r).id = r.id ∧ (g r).workspaceId = r.workspaceId ∧ (g r).effectType = r.effectType ∧
        (g r).assignedWorkerId = r.assignedWorkerId ∧ (g r).attemptCount = r.attemptCount ∧
        (g r).status = statusAfter ((handlerFor handlers e).map fun _ => answer w.handled.length) := by
  rw [execute, htype]
  cases hfind : handlers.find? fun h => h.effectType = e.effectType with
  | none =>
    obtain ⟨now, hfail⟩ := rewritten_fail hfault lease.effectId "no handler for effect_type" w.world
    refine ⟨_, _, run_attempt _ _, ?_, hfail, fun r => ⟨rfl, rfl, rfl, rfl, rfl, ?_⟩⟩
    · simp [callsFor, handlerFor, hfind]
    · simp [handlerFor, hfind, statusAfter, Effect.fail]
  | some h =>
    dsimp only
    have hstart := rewritten_execute hfault (s := .startEffect lease.effectId) (w := w.world)
      (g := fun e => { e with status := .running }) () rfl
    have hcalls : callsFor X handlers [e] = [(h, inputOf X lease)] := by
      simp [callsFor, handlerFor, hfind, inputFor, inputOf, hinput]
    rw [Prog.run_bind_ok _ (run_attempt _ _)]
    cases hanswer : answer w.handled.length with
    | ok output =>
      obtain ⟨canon, hash, now, hcomplete⟩ := rewritten_complete (X := X) hfault lease.effectId output
        ((EffectQueue.start lease.effectId).run (handle E) w.world).2
      refine ⟨⟨_, w.handled ++ [(h, inputOf X lease)]⟩, _, ?_, by rw [hcalls], hstart.trans hcomplete fun _ => rfl,
        fun r => ⟨rfl, rfl, rfl, rfl, rfl, ?_⟩⟩
      · rw [Prog.run_bind_ok _ (run_handle h _ _)]
        dsimp only
        rw [hanswer]
        exact run_attempt _ _
      · simp [handlerFor, hfind, statusAfter, Effect.complete]
    | error text =>
      obtain ⟨now, hfail⟩ := rewritten_fail hfault lease.effectId text
        ((EffectQueue.start lease.effectId).run (handle E) w.world).2
      refine ⟨⟨_, w.handled ++ [(h, inputOf X lease)]⟩, _, ?_, by rw [hcalls], hstart.trans hfail fun _ => rfl,
        fun r => ⟨rfl, rfl, rfl, rfl, rfl, ?_⟩⟩
      · rw [Prog.run_bind_ok _ (run_handle h _ _)]
        dsimp only
        rw [hanswer]
        exact run_attempt _ _
      · simp [handlerFor, hfind, statusAfter, Effect.fail]

/-- With nothing to claim, a round changes nothing that the queue notices. -/
theorem round_idle (X : Crates) (handlers : List Handler) (worker : WorkerId) (answer : Nat → Except String Value)
    (hfault : ∀ n, E.fault n = false) {w : Running} (hpending : w.world.db.pendingEffects ws caps = []) :
    ∃ w', (round X handlers worker ws caps).run (handleRunning E answer) w = (.ok (), w') ∧
      w'.handled = w.handled ∧ Unnoticed w.world w'.world := by
  obtain ⟨w₁, hclaim, hw₁⟩ : ∃ w₁, (EffectQueue.claimOne worker ws caps).run (handle E) w.world = (.ok none, w₁) ∧
      Unnoticed w.world w₁ := by
    rw [EffectQueue.claimOne]
    split
    · exact ⟨w.world, rfl, Unnoticed.refl _⟩
    · have hselect : (Sql.oldestPending ws caps).exec w.world.db = .ok (none, w.world.db) := by
        simp only [Sql.exec, hpending]
        rfl
      rw [Prog.run_bind_ok _ (run_execute hfault hselect)]
      exact ⟨_, rfl, rfl, rfl, fun _ => rfl, Nat.le_refl _⟩
  refine ⟨⟨((EffectQueue.heartbeat worker 0).run (handle E) w₁).2, w.handled⟩, ?_, rfl, hw₁.trans (unnoticed_heartbeat 0 w₁)⟩
  have hembed := run_embed E answer (EffectQueue.claimOne worker ws caps) w
  rw [hclaim] at hembed
  rw [round, Prog.run_bind_ok _ hembed]
  exact run_attempt _ _

/-- A round claims the oldest effect, calls its handler and ends it. -/
theorem round_busy (X : Crates) (handlers : List Handler) (answer : Nat → Except String Value) {w : Running} (h : Alone E worker w.world) {e : Effect} {rest : List Effect}
    (hpending : w.world.db.pendingEffects ws caps = e :: rest) :
    ∃ w' e', (round X handlers worker ws caps).run (handleRunning E answer) w = (.ok (), w') ∧
      w'.handled = w.handled ++ callsFor X handlers [e] ∧
      Ended worker (statusAfter ((handlerFor handlers e).map fun _ => answer w.handled.length)) e e' ∧
      w'.world.db.effect.rows = (w.world.db.effect.rows.map fun r => if r.id = e.id then e' else r) ∧
      Alone E worker w'.world := by
  have hin : e ∈ w.world.db.pendingEffects ws caps := by rw [hpending]; exact List.mem_cons_self
  rw [Db.pendingEffects, List.mem_insertionSort, List.mem_filter] at hin
  simp only [Bool.and_eq_true, decide_eq_true_eq] at hin
  obtain ⟨he, ⟨-, hpend⟩, -⟩ := hin
  obtain ⟨now, claim, expires, t, hclaimed, -, hid, hinsert, hrun⟩ := run_claimOne h hpending
  have hembed := run_embed E answer (EffectQueue.claimOne worker ws caps) w
  rw [hrun] at hembed
  obtain ⟨w₂, g, hexecute, hhandled, hrewritten, hg⟩ := execute_ends X handlers answer h.fault
    (e := e) ⟨e.id, worker, e.effectType, e.inputInline, expires⟩ rfl rfl
    { w with world := ⟨{ claimed w.world.db e.id worker now with effectClaim := t }, w.world.readings + 3,
      w.world.ulids + 1, w.world.statements + 3⟩ }
  obtain ⟨hgid, hgws, hgtype, hgworker, hgattempts, hgstatus⟩ := hg (e.claim worker now)
  have hended : Ended worker (statusAfter ((handlerFor handlers e).map fun _ => answer w.handled.length)) e
      (g (e.claim worker now)) := ⟨hgid, hgws, hgtype, hgworker, hgattempts, hgstatus⟩
  have hheartbeat : Unnoticed w₂.world ((EffectQueue.heartbeat worker 0).run (handle E) w₂.world).2 :=
    unnoticed_heartbeat 0 w₂.world
  have hrows : ((EffectQueue.heartbeat worker 0).run (handle E) w₂.world).2.db.effect.rows =
      w.world.db.effect.rows.map fun r => if r.id = e.id then g (e.claim worker now) else r := by
    rw [hheartbeat.effect, hrewritten.effect, claimed_rows he hpend, List.map_map]
    refine List.map_congr_left fun r _ => ?_
    by_cases hr : r.id = e.id
    · have hclaimid : (e.claim worker now).id = e.id := rfl
      simp [hr, hclaimid]
    · simp [hr]
  refine ⟨⟨((EffectQueue.heartbeat worker 0).run (handle E) w₂.world).2, w₂.handled⟩, g (e.claim worker now), ?_, hhandled,
    hended, hrows, h.ended hended ?_ hclaimed hid hinsert hrows ?_ ?_ ?_⟩
  · rw [round, Prog.run_bind_ok _ hembed, Prog.run_bind_ok _ hexecute]
    exact run_attempt _ _
  · exact statusAfter_ne_pending _
  · exact hheartbeat.claim.trans hrewritten.claim
  · exact fun k => (hheartbeat.worker k).trans (hrewritten.worker k)
  · exact Nat.le_trans hrewritten.ulids hheartbeat.ulids

/-! ### The queue runs dry -/

/-- The statuses that a queue comes to, after that many calls of handlers. -/
def outcomes (handlers : List Handler) (answer : Nat → Except String Value) : Nat → List Effect → List EffectStatus
  | _, [] => []
  | n, e :: rest =>
    match handlerFor handlers e with
    | none => .failed :: outcomes handlers answer n rest
    | some _ => statusAfter (some (answer n)) :: outcomes handlers answer (n + 1) rest

theorem outcomes_cons (n : Nat) (e : Effect) (rest : List Effect) :
    outcomes handlers answer n (e :: rest) = statusAfter ((handlerFor handlers e).map fun _ => answer n) ::
      outcomes handlers answer (n + (callsFor X handlers [e]).length) rest := by
  rw [outcomes, callsFor]
  cases hfor : handlerFor handlers e with
  | none => simp [statusAfter, hfor]
  | some h => simp [hfor]

theorem rounds_idle (X : Crates) (handlers : List Handler) (worker : WorkerId) (answer : Nat → Except String Value)
    {n : Nat} {w : Running} (hfault : ∀ n, E.fault n = false)
    (hpending : w.world.db.pendingEffects ws caps = []) :
    ∃ w', (rounds X handlers worker ws caps n).run (handleRunning E answer) w = (.ok (), w') ∧
      w'.handled = w.handled ∧ Unnoticed w.world w'.world := by
  induction n generalizing w with
  | zero => exact ⟨w, rfl, rfl, Unnoticed.refl _⟩
  | succ n ih =>
    obtain ⟨w₁, hrun, hhandled, hsame⟩ := round_idle X handlers worker answer
      hfault hpending
    have hpending₁ : w₁.world.db.pendingEffects ws caps = [] := by rw [Db.pendingEffects, hsame.effect]; exact hpending
    obtain ⟨w₂, hrun₂, hhandled₂, hsame₂⟩ := ih hpending₁
    refine ⟨w₂, ?_, hhandled₂.trans hhandled, hsame.trans hsame₂⟩
    rw [rounds, Prog.run_bind_ok _ hrun, hrun₂]

/-- What has happened to the queue of `w` when the worker is done with it. -/
structure Drained (X : Crates) (handlers : List Handler) (worker : WorkerId) (ws : WorkspaceId) (caps : List String)
    (answer : Nat → Except String Value) (w w' : Running) : Prop where
  empty : w'.world.db.pendingEffects ws caps = []
  handled : w'.handled = w.handled ++ callsFor X handlers (w.world.db.pendingEffects ws caps)
  ended : List.Forall₂ (fun e status => ∃ e' ∈ w'.world.db.effect, Ended worker status e e')
    (w.world.db.pendingEffects ws caps) (outcomes handlers answer w.handled.length (w.world.db.pendingEffects ws caps))
  others : ∀ e ∈ w.world.db.effect, e ∉ w.world.db.pendingEffects ws caps → e ∈ w'.world.db.effect

/-- **The worker drains its queue**: after as many rounds as there are pending effects of its types there is none left. The handlers were called with these effects, the oldest first and each once, and each effect that has no handler or whose handler failed is failed, the others have succeeded; no other effect is touched. -/
theorem worker_drains (X : Crates) (handlers : List Handler) (worker : WorkerId) (ws : WorkspaceId) (caps : List String)
    (E : Env) (answer : Nat → Except String Value) (n : Nat) (w : Running) (h : Alone E worker w.world)
    (hn : (w.world.db.pendingEffects ws caps).length ≤ n) :
    ∃ w', (rounds X handlers worker ws caps n).run (handleRunning E answer) w = (.ok (), w') ∧
      Drained X handlers worker ws caps answer w w' := by
  induction n generalizing w with
  | zero =>
    have hpending : w.world.db.pendingEffects ws caps = [] := List.eq_nil_of_length_eq_zero (by omega)
    exact ⟨w, rfl, hpending, by simp [hpending, callsFor], by rw [hpending]; exact List.Forall₂.nil, fun e he _ => he⟩
  | succ n ih =>
    cases hpending : w.world.db.pendingEffects ws caps with
    | nil =>
      obtain ⟨w', hrun, hhandled, hsame⟩ := rounds_idle X handlers worker answer
        (n := n + 1) h.fault hpending
      refine ⟨w', hrun, ?_, ?_, by rw [hpending]; exact List.Forall₂.nil, fun e he _ => ?_⟩
      · rw [Db.pendingEffects, hsame.effect]
        exact hpending
      · rw [hhandled, hpending, callsFor, List.filterMap_nil, List.append_nil]
      · rw [hsame.effect]
        exact he
    | cons e rest =>
      obtain ⟨w₁, e', hrun, hhandled, hended, hrows, hAlone⟩ := round_busy X handlers answer
        h hpending
      have hstatus : e'.status ≠ .pending := by
        rw [hended.status]
        exact statusAfter_ne_pending _
      have hrest : w₁.world.db.pendingEffects ws caps = rest := pendingEffects_ended hpending hstatus hrows
      have he : e ∈ w.world.db.effect := by
        have hin : e ∈ w.world.db.pendingEffects ws caps := by rw [hpending]; exact List.mem_cons_self
        rw [Db.pendingEffects, List.mem_insertionSort, List.mem_filter] at hin
        exact hin.1
      obtain ⟨w', hrun', hdrained⟩ := ih w₁ hAlone (by rw [hrest]; rw [hpending, List.length_cons] at hn; omega)
      refine ⟨w', by rw [rounds, Prog.run_bind_ok _ hrun, hrun'], hdrained.empty, ?_, ?_, ?_⟩
      · rw [hdrained.handled, hhandled, hrest, hpending, List.append_assoc, callsFor, callsFor, callsFor,
          ← List.filterMap_append, List.singleton_append]
      · -- the ended effect is pending no more, so that the rounds after leave it alone
        have he' : e' ∈ w₁.world.db.effect := by
          rw [Table.mem_iff, hrows, List.mem_map]
          exact ⟨e, he, if_pos rfl⟩
        have hnot : e' ∉ w₁.world.db.pendingEffects ws caps := by
          intro hin
          rw [Db.pendingEffects, List.mem_insertionSort, List.mem_filter] at hin
          simp [hstatus] at hin
        have htail := hdrained.ended
        rw [hrest, hhandled, List.length_append] at htail
        rw [hpending, outcomes_cons (X := X)]
        exact List.Forall₂.cons ⟨e', hdrained.others e' he' hnot, hended⟩ htail
      · intro r hr hnot
        rw [hpending] at hnot
        have hid : r.id ≠ e.id := fun hid => hnot (by rw [Table.eq_of_key_eq hr he hid]; exact List.mem_cons_self)
        refine hdrained.others r ?_ fun hin => hnot (List.mem_cons_of_mem _ (hrest ▸ hin))
        rw [Table.mem_iff, hrows, List.mem_map]
        exact ⟨r, hr, if_neg hid⟩

/-! ### A sample run -/

/-- An effect that waits for a worker. -/
def queued (id effectType createdAt : String) : Effect where
  id := id
  workspaceId := "ws_demo"
  commandId := "cmd_01"
  requestedByActorId := "act_demo"
  effectType := effectType
  status := .pending
  riskLevel := .low
  inputInline := none
  inputHash := "44136fa355b3678a1146ad16f7e8649e94fb4fc21fe77e8310c060f61caaff8a"
  assignedWorkerId := none
  attemptCount := 0
  maxAttempts := 3
  nextAttemptAt := none
  startedAt := none
  finishedAt := none
  resultRef := none
  resultHash := none
  error := none
  createdAt := createdAt

/-- Two effects wait: a write, and a read that is older. -/
def Running.waiting : Running where
  world := World.start { Db.sample with
    effect := ⟨[queued "eff_02" "file.write" "2023-11-14T22:13:21Z", queued "eff_01" "file.read" "2023-11-14T22:13:20Z"], by decide⟩
    worker := ⟨[⟨"wrk_01", "ws_demo", "act_demo", "files", none, none, "active", none, "2023-11-14T22:13:20Z", none⟩], by decide⟩ }
  handled := []

/-- Every ULID is longer than the one before. -/
def Env.growing : Env where
  clock n := ⟨n % (253402300800 * 10 ^ 9), Nat.mod_lt _ (by decide)⟩
  ulid n := String.ofList (List.replicate n '0')
  fault _ := false

theorem waiting_alone : Alone Env.growing "wrk_01" Running.waiting.world where
  fault _ := rfl
  ulid {n m} h := by simpa [Env.growing] using congrArg String.length h
  registered := by decide
  unclaimed c hc := absurd hc Table.not_mem_empty
  fresh c hc := absurd hc Table.not_mem_empty

/-- The read goes first and succeeds; there is no handler whose primary type is the write. -/
theorem worker_drains_waiting :
    ∃ w', (rounds Crates.sample [Handler.file] "wrk_01" "ws_demo" ["file.read", "file.write"] 2).run
        (handleRunning Env.growing fun _ => .ok .null) Running.waiting = (.ok (), w') ∧
      Drained Crates.sample [Handler.file] "wrk_01" "ws_demo" ["file.read", "file.write"] (fun _ => .ok .null)
        Running.waiting w' :=
  worker_drains Crates.sample [Handler.file] "wrk_01" "ws_demo" ["file.read", "file.write"] Env.growing _ 2
    Running.waiting waiting_alone (by decide +kernel)

end WorkerRunner

end ActantDb
