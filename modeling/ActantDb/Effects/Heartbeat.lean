import ActantDb.Effects.Exclusive

/-!
# Heartbeats

A worker is told to send heartbeats while it works on an effect, and the lease of its claim is as long as the interval it may leave between two of them. But a heartbeat writes to the row of the worker and to a table of its own, while the reaper looks at the `expires_at` of the claim, which nothing ever moves. So an effect that takes longer than one lease is put back however diligent its worker is.

What does keep the claim is that no reaper looks for expired claims after its one lease has run out, as long as the effect is claimed or running (`heartbeats_keep_lease`).
-/

namespace ActantDb

open Prog

variable {ι : Type} [DecidableEq ι]

/-! ### A worker that sends heartbeats -/

/-- When the worker was last heard of, the last reading of the clock, both in nanoseconds, and whether the worker has begun to complete or fail the effect. -/
structure Watch where
  lastSeen : Nat
  clock : Nat
  ended : Bool

def Watch.start (E : Env) (w : World) : Watch :=
  ⟨(E.clock (w.readings - 1)).nanos, (E.clock (w.readings - 1)).nanos, false⟩


/-- Only a heartbeat that the storage accepts counts. -/
def Watch.next (worker : ι → WorkerId) (cl : EffectClaim) (s : Watch) : Answered ι Op Op.Res → Watch
  | ⟨_, .now, t⟩ => { s with clock := t.nanos }
  | ⟨_, .sql (.heartbeatWorker id _), .ok _⟩ =>
    if id = cl.workerId then { s with lastSeen := s.clock } else s
  | ⟨i, .sql (.completeEffect id _ _ _), _⟩ | ⟨i, .sql (.failEffect id _ _), _⟩ =>
    { s with ended := s.ended || (decide (id = cl.effectId) && decide (worker i = cl.workerId)) }
  | _ => s

/-- Until it ends the effect, the worker is heard of once in every lease. -/
def Attended (worker : ι → WorkerId) (cl : EffectClaim) : Watch → List (Answered ι Op Op.Res) → Prop
  | _, [] => True
  | s, a :: rest =>
    let s' := s.next worker cl a
    (s'.ended = true ∨ s'.clock ≤ s'.lastSeen + leaseDurationSeconds * 10 ^ 9) ∧
      Attended worker cl s' rest

instance decidableAttended (worker : ι → WorkerId) (cl : EffectClaim) :
    ∀ (s : Watch) (calls : List (Answered ι Op Op.Res)), Decidable (Attended worker cl s calls)
  | _, [] => instDecidableTrue
  | s, a :: rest =>
    have := decidableAttended worker cl (s.next worker cl a) rest
    inferInstanceAs (Decidable (_ ∧ Attended worker cl (s.next worker cl a) rest))

/-- In the run from `filed`, if the worker is heard of once in every lease, its claim is never released and the effect never pending. -/
def HeartbeatsKeepLease (E : Env) (worker : ι → WorkerId) (cl : EffectClaim) (filed : QueuePool ι)
    (schedule : List ι) : Prop :=
  Attended worker cl (.start E filed.world)
      ((Lts.run (Pool.step (handle E)) filed schedule).trace.drop filed.trace.length) →
    Lts.Always (Pool.step (handle E))
      (fun c => cl ∈ c.world.db.effectClaim.rows ∧ Finds c.world.db cl.effectId (·.status ≠ .pending))
      filed schedule

/-! ### The claim from its filing on -/

/-- The claim an operation files. -/
def Op.claim? : Op → Option EffectClaim
  | .sql (.insertEffectClaim cl) => some cl
  | _ => none

/-- The time of the reaper that looks for expired claims. -/
def Op.reaperTime? : Op → Option String
  | .sql (.expiredClaims time) => some time
  | _ => none

theorem Op.claim?_eq {o : Op} {cl : EffectClaim} (h : o.claim? = some cl) :
    o = .sql (.insertEffectClaim cl) := by
  unfold Op.claim? at h
  split at h
  · rw [Option.some.inj h]
  · cases h

/-- The next call of thread `i` files the claim. -/
def Files (E : Env) (cl : EffectClaim) (c : QueuePool ι) (i : ι) : Prop :=
  (c.next? i).bind Op.claim? = some cl ∧ ¬ cl ∈ c.world.db.effectClaim.rows ∧
    cl ∈ (Pool.step (handle E) c i).world.db.effectClaim.rows

instance (E : Env) (cl : EffectClaim) (c : QueuePool ι) (i : ι) : Decidable (Files E cl c i) :=
  inferInstanceAs (Decidable (_ ∧ _ ∧ _))

/-- What is asked of a step: a reaper that looks for expired claims does not find this one, because its lease has not run out or because the effect is neither claimed nor running. -/
def FindsUnexpired (E : Env) (cl : EffectClaim) (c : QueuePool ι) (i : ι) : Prop :=
  ∀ now ∈ (c.next? i).bind Op.reaperTime?,
    E.fault c.world.statements = true ∨ ¬ cl.expiresAt < now ∨
      Finds c.world.db cl.effectId fun e => e.status ≠ .claimed ∧ e.status ≠ .running

instance (E : Env) (cl : EffectClaim) (c : QueuePool ι) (i : ι) :
    Decidable (FindsUnexpired E cl c i) :=
  inferInstanceAs (Decidable (∀ now ∈ (c.next? i).bind Op.reaperTime?, _))

/-- The claim is there as it was filed, no reaper has listed it, and the effect is not pending. -/
structure Kept (cl : EffectClaim) (db : Db) (duty : ι → Duty) : Prop where
  mem : cl ∈ db.effectClaim
  unlisted : ∀ i, ∀ row ∈ (duty i).expired, row.2.1 ≠ cl.id
  status : Finds db cl.effectId (·.status ≠ .pending)

section Statement

variable {cl : EffectClaim} {db db' : Db} {duty : ι → Duty} {since : ι → Bool} {i : ι}

theorem Kept.next (h : Kept cl db duty) {l : Duty} (hmem : cl ∈ db'.effectClaim)
    (hexpired : l.expired = (duty i).expired)
    (hstatus : Finds db' cl.effectId (·.status ≠ .pending)) :
    Kept cl db' (Function.update duty i l) := by
  refine ⟨hmem, fun j row hrow => ?_, hstatus⟩
  by_cases hj : j = i
  · subst hj
    rw [Function.update_self, hexpired] at hrow
    exact h.unlisted j row hrow
  · rw [Function.update_of_ne hj] at hrow
    exact h.unlisted j row hrow

/-- The effects of an updated table are not pending, if those selected do not become it. -/
theorem finds_update {p : Effect → Bool} {f : Effect → Effect} {hf : ∀ e, (f e).id = e.id}
    {id : EffectId} (h : Finds db id (·.status ≠ .pending))
    (hupdated : ∀ e ∈ db.effect, e.id = id → p e = true → (f e).status ≠ .pending) :
    Finds { db with effect := db.effect.update p f hf } id (·.status ≠ .pending) := by
  intro e' he' hid
  obtain ⟨e, he, ⟨hp, rfl⟩ | ⟨-, rfl⟩⟩ := mem_updateEffects he'
  · exact hupdated e he ((hf e).symm.trans hid) hp
  · exact h _ he hid

theorem Kept.exec (h : Kept cl db duty) (hinv : LeaseInv cl.effectId db duty since)
    (hopen : cl.releasedAt = none) {s : Sql} {reply : s.Reply}
    (hexec : s.exec db = .ok (reply, db')) (hallowed : leaseMonitor.allowed (duty i) (.sql s))
    (hreclaim : ∀ now, s = .reclaimEffect cl.effectId now →
      since i = false ∨ Finds db cl.effectId (·.status = .pending))
    (hlisted : ∀ now, s = .expiredClaims now → ¬ cl.expiresAt < now ∨
      Finds db cl.effectId fun e => e.status ≠ .claimed ∧ e.status ≠ .running) :
    Kept cl db' (Function.update duty i (leaseMonitor.next (duty i) (.sql s) (.ok reply))) := by
  have hframe := Sql.exec_frame hexec
  cases s with
  | insertEffect e =>
    obtain ⟨t, hok, heq⟩ := map_eq_ok.mp hexec
    cases heq
    obtain ⟨-, hins⟩ := insertRow_eq_ok.mp hok
    apply h.next
    · exact h.mem
    · rfl
    · intro e' he' hid
      rcases (Table.mem_insert? hins).mp he' with hold | rfl
      · exact h.status e' hold hid
      · -- the effect of the claim is stored already
        have hknown := hinv.claimed cl h.mem
        rw [← hid, (Table.insert?_eq_some.mp hins).1] at hknown
        cases hknown
  | claimEffect id worker now =>
    simp only [Sql.exec] at hexec
    split at hexec
    · cases hexec
    cases hexec
    apply h.next
    · exact h.mem
    · cases db.effect.rows.any fun e => e.id = id && e.status = .pending <;> rfl
    · apply finds_update h.status
      intro e _ _ _ hpending
      cases hpending
  | insertEffectClaim c =>
    simp only [Sql.exec] at hexec
    split at hexec
    · cases hexec
    obtain ⟨t, hok, heq⟩ := map_eq_ok.mp hexec
    cases heq
    obtain ⟨-, hins⟩ := insertRow_eq_ok.mp hok
    exact h.next ((Table.mem_insert? hins).mpr (Or.inl h.mem)) rfl h.status
  | startEffect id | completeEffect id canon hash now | failEffect id err now
  | exhaustEffect id now =>
    cases hexec
    apply h.next
    · exact h.mem
    · rfl
    · apply finds_update h.status
      intro e _ _ _ hpending
      cases hpending
  | reclaimEffect id now =>
    cases hexec
    apply h.next
    · exact h.mem
    · rfl
    apply finds_update h.status
    intro e he hid hp _
    have hsame : id = cl.effectId := (of_decide_eq_true hp).symm.trans hid
    subst hsame
    rcases hreclaim now rfl with hsince | hpending
    · -- the reaper has listed a claim on the effect, and the one claim there is was not listed
      obtain ⟨claim, attempts, maxAttempts, hrow, -, -⟩ := hallowed
      have hlisted := (hinv.reaped i hsince claim attempts maxAttempts hrow).1 cl ⟨h.mem, rfl, hopen⟩
      exact h.unlisted i _ hrow hlisted.symm
    · exact h.status e he hid (hpending e he hid)
  | expiredClaims now =>
    cases hexec
    refine ⟨h.mem, fun j row hrow => ?_, h.status⟩
    by_cases hj : j = i
    · subst hj
      rw [Function.update_self] at hrow
      obtain ⟨c, hc, e, he, hexpired, -, hid, hstatus, rfl⟩ := Db.mem_expired hrow
      intro hcid
      have hsame : c = cl := Table.eq_of_key_eq hc h.mem hcid
      subst hsame
      rcases hlisted now rfl with hunexpired | hends
      · exact hunexpired hexpired
      · obtain ⟨hclaimed, hrunning⟩ := hends e he hid
        exact hstatus.elim hclaimed hrunning
    · rw [Function.update_of_ne hj] at hrow
      exact h.unlisted j row hrow
  | releaseClaim claim now =>
    cases hexec
    obtain ⟨row, hrow, rfl⟩ := hallowed
    apply h.next _
    · rfl
    · exact h.status
    have hmem : (if decide (cl.id = row.2.1) then { cl with releasedAt := some now } else cl) ∈
        db.effectClaim.update (fun c => c.id = row.2.1)
          (fun c => { c with releasedAt := some now }) (fun _ => rfl) :=
      Table.mem_update.mpr ⟨cl, h.mem, rfl⟩
    rwa [decide_eq_false (Ne.symm (h.unlisted i row hrow))] at hmem
  | _ =>
    apply h.next
    · rw [hframe.effectClaim (by simp [Sql.writes])]
      exact h.mem
    · rfl
    · intro e he hid
      rw [hframe.effect (by simp [Sql.writes])] at he
      exact h.status e he hid

end Statement

/-! ### Runs -/

structure KeptPool (cl : EffectClaim) (c : QueuePool ι) : Prop where
  lease : LeasePool cl.effectId c
  kept : Kept cl c.world.db c.duty

theorem keptPool_step {E : Env} {cl : EffectClaim} {c : QueuePool ι} {i : ι}
    (hopen : cl.releasedAt = none) (h : KeptPool cl c) (hreclaim : ReclaimsUnclaimed E cl.effectId c i)
    (hlisted : FindsUnexpired E cl c i) : KeptPool cl (Pool.step (handle E) c i) := by
  refine ⟨leasePool_step h.lease hreclaim, ?_⟩
  rcases Pool.step_cases (handle E) c i with ⟨r, -, hsame⟩ | ⟨o, next, hthread, hnext, hstep⟩
  · rw [hsame]
    exact h.kept
  rw [hstep, duty_step]
  cases o with
  | now => exact h.kept.next h.kept.mem rfl h.kept.status
  | ulid => exact h.kept.next h.kept.mem rfl h.kept.status
  | sql s =>
    rcases handle_sql E s c.world with ⟨⟨err, hr⟩, hdb, -⟩ | ⟨reply, db', hfault, hexec, hr, hdb⟩
    · rw [hr, hdb]
      rcases leaseMonitor_refused (c.duty i) s err with hl | hl
      · rw [hl]
        exact h.kept.next h.kept.mem rfl h.kept.status
      · rw [hl]
        exact h.kept.next h.kept.mem rfl h.kept.status
    · rw [hr, hdb]
      apply h.kept.exec h.lease.inv hopen hexec (h.lease.safe.allowed hthread)
      · rintro now rfl
        rw [ReclaimsUnclaimed, hnext] at hreclaim
        rcases hreclaim rfl with hrefused | hrest
        · rw [hfault] at hrefused
          cases hrefused
        · exact hrest
      · rintro now rfl
        rw [FindsUnexpired, hnext] at hlisted
        rcases hlisted now rfl with hrefused | hrest
        · rw [hfault] at hrefused
          cases hrefused
        · exact hrest

/-- A claim that has just been filed is listed by nobody, and its effect is not pending. -/
theorem keptPool_filed {E : Env} {cl : EffectClaim} {c : QueuePool ι} {i : ι}
    (h : LeasePool cl.effectId c) (hfiled : Files E cl c i) :
    cl.releasedAt = none ∧ KeptPool cl (Pool.step (handle E) c i) := by
  obtain ⟨hfiles, hnew, hmem⟩ := hfiled
  rcases Pool.step_cases (handle E) c i with ⟨r, hthread, -⟩ | ⟨o, next, hthread, hnext, hstep⟩
  · rw [Pool.next?_done hthread] at hfiles
    cases hfiles
  rw [hnext] at hfiles
  have ho : o = .sql (.insertEffectClaim cl) := Op.claim?_eq hfiles
  subst ho
  obtain ⟨hclaiming, hopen⟩ := h.safe.allowed hthread
  refine ⟨hopen, leasePool_step h fun hreclaims => ?_, ?_⟩
  · rw [hnext] at hreclaims
    cases hreclaims
  rw [hstep] at hmem ⊢
  rw [duty_step]
  rcases handle_sql E (.insertEffectClaim cl) c.world with
    ⟨-, hdb, -⟩ | ⟨reply, db', -, hexec, hr, hdb⟩
  · exact absurd (hdb ▸ hmem) hnew
  have hframe := Sql.exec_frame hexec
  simp only [Sql.exec] at hexec
  split at hexec
  · cases hexec
  obtain ⟨t, hok, heq⟩ := map_eq_ok.mp hexec
  cases heq
  have hfresh := (Table.insert?_eq_some.mp (insertRow_eq_ok.mp hok).2).1
  have hkept : Kept cl (handle E (.sql (.insertEffectClaim cl)) c.world).2.db c.duty := by
    refine ⟨hmem, fun j row hrow hid => ?_, fun e he hid hpending => ?_⟩
    · obtain ⟨c', hc', hcid, -⟩ := h.inv.listed j row hrow
      exact Table.contains_eq_false.mp hfresh c' hc' (hcid.trans hid)
    · rw [hdb, hframe.effect (by simp [Sql.writes])] at he
      exact (h.inv.pending e he hid hpending).2.claiming i hclaiming
  exact hkept.next hkept.mem rfl hkept.status

/-- **A worker that sends its heartbeats keeps its claim**, in a run in which no reaper looks for expired claims after the lease of the claim has run out and none is late. -/
theorem heartbeats_keep_lease (X : Crates) (E : Env) (w : World) (worker : ι → WorkerId)
    (calls : ι → QueueCall) (cl : EffectClaim) (pre : List ι) (i : ι) (post : List ι)
    (hstart : Leasable w.db cl.effectId)
    (hfiled : Files E cl (Lts.run (Pool.step (handle E)) (QueuePool.start X w worker calls) pre) i)
    (hreclaim : Lts.EveryStep (Pool.step (handle E)) (ReclaimsUnclaimed E cl.effectId)
      (QueuePool.start X w worker calls) (pre ++ i :: post))
    (hlisted : Lts.EveryStep (Pool.step (handle E)) (FindsUnexpired E cl)
      (Lts.run (Pool.step (handle E)) (QueuePool.start X w worker calls) (pre ++ [i])) post) :
    HeartbeatsKeepLease E worker cl
      (Lts.run (Pool.step (handle E)) (QueuePool.start X w worker calls) (pre ++ [i])) post := by
  rw [Lts.run_append] at hlisted ⊢
  obtain ⟨hpre, -, hpost⟩ := Lts.everyStep_append.mp hreclaim
  have hbefore : LeasePool cl.effectId
      (Lts.run (Pool.step (handle E)) (QueuePool.start X w worker calls) pre) :=
    Lts.run_invariant _ (fun c j hc hstep => leasePool_step hc hstep)
      (leasePool_start X worker calls hstart) hpre
  obtain ⟨hopen, hafter⟩ := keptPool_filed hbefore hfiled
  have hboth := Lts.everyStep_and hpost hlisted
  intro _ before rest hsplit
  have hkept := Lts.always_of_invariant (KeptPool cl)
    (fun c j hc hstep => keptPool_step hopen hc hstep.1 hstep.2) hafter hboth before rest hsplit
  exact ⟨hkept.kept.mem, hkept.kept.status⟩

/-! ### A worker that is alive and loses its claim -/

def attendedWorker (_ : Fin 4) : WorkerId := "wrk_a"

def attended (i : Fin 4) : QueueCall :=
  match i with
  | 0 => .enqueue "ws_demo" "cmd_demo" "act_demo" "shell.run" (.object []) .medium
  | 1 => .claimOne "ws_demo" ["shell.run"]
  | 2 => .heartbeat 1
  | 3 => .reapExpired

/-- The claim `wrk_a` files, in an environment that counts its ids. -/
def attendedClaim (E : Env) : EffectClaim :=
  { id := newId "clm" (E.ulid 1), effectId := firstEffect, workerId := "wrk_a",
    claimedAt := (E.clock 3).formatRfc3339,
    expiresAt := ((E.clock 1).plusSeconds leaseDurationSeconds).formatRfc3339, releasedAt := none }

/-- Up to the filing of the claim. -/
def untilFiled : List (Fin 4) := List.replicate 3 0 ++ List.replicate 6 1

/-- The heartbeat, then the reaper. -/
def heartbeatThenReaper : List (Fin 4) := List.replicate 3 2 ++ List.replicate 4 3

theorem heartbeats_keep_lease_wholeSeconds :
    HeartbeatsKeepLease .wholeSeconds attendedWorker (attendedClaim .wholeSeconds)
      (Lts.run (Pool.step (handle .wholeSeconds))
        (QueuePool.start Crates.sample (World.start .withWorkers) attendedWorker attended)
        (untilFiled ++ [1])) heartbeatThenReaper :=
  heartbeats_keep_lease Crates.sample .wholeSeconds (World.start .withWorkers) attendedWorker attended
    (attendedClaim .wholeSeconds) untilFiled 1 heartbeatThenReaper
    ⟨by decide +kernel, by decide +kernel, by decide +kernel, by decide +kernel⟩
    (by decide +kernel) (by decide +kernel) (by decide +kernel)

/-- The heartbeat comes half a minute after the claim, the reaper another half a minute later. -/
def Env.everyHalfMinute : Env :=
  Env.sample (fun n => (1700000000 + 30 * (n - 2)) * 10 ^ 9) fun _ => false

/-- The reaper releases the claim of a worker whose last heartbeat is half a minute old. -/
theorem everyHalfMinute_not_kept :
    let filed := Lts.run (Pool.step (handle .everyHalfMinute))
      (QueuePool.start Crates.sample (World.start .withWorkers) attendedWorker attended)
      (untilFiled ++ [1])
    World.Regular .everyHalfMinute
        (Lts.run (Pool.step (handle .everyHalfMinute)) filed heartbeatThenReaper).world ∧
      attendedClaim .everyHalfMinute ∈ filed.world.db.effectClaim.rows ∧
      ¬ HeartbeatsKeepLease .everyHalfMinute attendedWorker (attendedClaim .everyHalfMinute) filed
        heartbeatThenReaper := by
  intro filed
  refine ⟨by decide +kernel, by decide +kernel, fun hkeep => ?_⟩
  have hlost : ¬ attendedClaim .everyHalfMinute ∈ (Lts.run (Pool.step (handle .everyHalfMinute)) filed
      heartbeatThenReaper).world.db.effectClaim.rows := by
    decide +kernel
  exact hlost (hkeep (by decide +kernel) heartbeatThenReaper [] (List.append_nil _).symm).1

end ActantDb
