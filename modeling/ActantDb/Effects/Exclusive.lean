import ActantDb.Effects.Lease

/-!
# Exclusive leases

A run of calls to the queue in which the reapers are not late leases each effect to one worker at a time and keeps to its attempts. Late is a reaper that puts an effect back that was claimed since the reaper's `SELECT`; two reapers that list the same claim are enough for it.
-/

namespace ActantDb

open Prog

variable {ι : Type} [DecidableEq ι]

/-- The claim is neither released nor, at `now`, expired. -/
def EffectClaim.HeldAt (c : EffectClaim) (now : String) : Prop :=
  c.releasedAt = none ∧ ¬ c.expiresAt < now

/-- The effect is within its attempts, and whatever the time, one worker at most holds a claim on it. -/
structure ExclusiveLease (db : Db) (id : EffectId) : Prop where
  attempts : ∀ e ∈ db.effect.rows, e.id = id → e.attemptCount ≤ e.maxAttempts
  holder : ∀ now, ∀ c ∈ db.effectClaim.rows, ∀ c' ∈ db.effectClaim.rows, c.effectId = id →
    c'.effectId = id → c.HeldAt now → c'.HeldAt now → c.workerId = c'.workerId

/-- What a run may start from: the effect, if it is there, is within its attempts and has at most one unreleased claim, and none while it is pending. -/
structure Leasable (db : Db) (id : EffectId) : Prop where
  within : ∀ e ∈ db.effect.rows, e.id = id → e.attemptCount ≤ e.maxAttempts
  pending : ∀ e ∈ db.effect.rows, e.id = id → e.status = .pending →
    e.attemptCount < e.maxAttempts ∧
      ∀ c ∈ db.effectClaim.rows, c.effectId = id → c.releasedAt ≠ none
  one : ∀ c ∈ db.effectClaim.rows, ∀ c' ∈ db.effectClaim.rows, c.effectId = id → c'.effectId = id →
    c.releasedAt = none → c'.releasedAt = none → c = c'
  claimed : ∀ c ∈ db.effectClaim.rows, db.effect.contains c.effectId = true

/-- The effect an operation of a reaper puts back. -/
def Op.reclaims? : Op → Option EffectId
  | .sql (.reclaimEffect id _) => some id
  | _ => none

/-- What is asked of a step: a reaper that puts the effect back finds it unclaimed since the reaper has listed it, or pending. -/
def ReclaimsUnclaimed (E : Env) (id : EffectId) (c : QueuePool ι) (i : ι) : Prop :=
  (c.next? i).bind Op.reclaims? = some id →
    E.fault c.world.statements = true ∨ claimedSince id c.trace i = false ∨
      Finds c.world.db id (·.status = .pending)

instance (E : Env) (id : EffectId) (c : QueuePool ι) (i : ι) :
    Decidable (ReclaimsUnclaimed E id c i) :=
  inferInstanceAs (Decidable (_ → _))

def QueuePool.duty (c : QueuePool ι) (i : ι) : Duty := Pool.summary leaseMonitor Duty.start i c.trace

structure LeasePool (id : EffectId) (c : QueuePool ι) : Prop where
  safe : Pool.AllSafe leaseMonitor (fun _ _ => True) (fun _ => Duty.start) c
  inv : LeaseInv id c.world.db c.duty (claimedSince id c.trace)

theorem leasePool_start (X : Crates) {w : World} (worker : ι → WorkerId) (calls : ι → QueueCall)
    {id : EffectId} (h : Leasable w.db id) : LeasePool id (QueuePool.start X w worker calls) := by
  constructor
  · exact fun i => issue_safe X (worker i) (calls i)
  · obtain ⟨hwithin, hpending, hone, hclaimed⟩ := h
    constructor
    · exact hwithin
    · intro e he hid hstatus
      obtain ⟨hlt, hnone⟩ := hpending e he hid hstatus
      exact ⟨hlt, fun c hc => hnone c hc.1 hc.2.1 hc.2.2, fun i hi => nomatch hi⟩
    · exact fun c c' hc hc' => hone c hc.1 c' hc'.1 hc.2.1 hc'.2.1 hc.2.2 hc'.2.2
    · exact fun i hi => nomatch hi
    · exact hclaimed
    · exact fun i hi => nomatch hi
    · exact fun i row hrow => nomatch hrow
    · exact fun i _ claim attempts maxAttempts hrow => nomatch hrow
    · exact fun i claim hi => nomatch hi

/-- What thread `i` has done and what the others have missed, after its next call. -/
theorem duty_step {c : QueuePool ι} (i : ι) (o : Op) (r : o.Res) (w : World)
    (thread : ι → Action QueueReply) :
    QueuePool.duty ⟨w, thread, c.trace ++ [⟨i, o, r⟩]⟩ =
      Function.update c.duty i (leaseMonitor.next (c.duty i) o r) :=
  Pool.summary_update

theorem claimedSince_append (id : EffectId) (trace : List (Answered ι Op Op.Res))
    (a : Answered ι Op Op.Res) :
    claimedSince id (trace ++ [a]) = fun j => noteClaim id j (claimedSince id trace j) a := by
  funext j
  simp [claimedSince]

theorem leasePool_step {E : Env} {id : EffectId} {c : QueuePool ι} {i : ι} (h : LeasePool id c)
    (hreclaim : ReclaimsUnclaimed E id c i) : LeasePool id (Pool.step (handle E) c i) := by
  refine ⟨Pool.allSafe_step h.safe i, ?_⟩
  rcases Pool.step_cases (handle E) c i with ⟨r, -, hsame⟩ | ⟨o, next, hthread, hnext, hstep⟩
  · rw [hsame]
    exact h.inv
  rw [hstep, duty_step, claimedSince_append]
  cases o with
  | now => exact h.inv.idle fun _ => rfl
  | ulid => exact h.inv.idle fun _ => rfl
  | sql s =>
    rcases handle_sql E s c.world with ⟨⟨err, hr⟩, hdb, -⟩ | ⟨reply, db', hfault, hexec, hr, hdb⟩
    · rw [hr, hdb]
      rcases leaseMonitor_refused (c.duty i) s err with hl | hl
      · rw [hl]
        exact h.inv.idle fun j => noteClaim_refused id i j _ s err
      · rw [hl]
        apply h.inv.next
        · exact fun hi => nomatch hi
        · rfl
        · rfl
        · exact fun j => noteClaim_refused id i j _ s err
    · rw [hr, hdb]
      apply h.inv.exec hexec (h.safe.allowed hthread)
      rintro now rfl
      rw [ReclaimsUnclaimed, hnext] at hreclaim
      rcases hreclaim rfl with hrefused | hrest
      · rw [hfault] at hrefused
        cases hrefused
      · exact hrest

theorem LeasePool.exclusive {id : EffectId} {c : QueuePool ι} (h : LeasePool id c) :
    ExclusiveLease c.world.db id := by
  constructor
  · exact h.inv.within
  · intro now cl hcl cl' hcl' hid hid' hheld hheld'
    exact congrArg EffectClaim.workerId (h.inv.one cl cl' ⟨hcl, hid, hheld.1⟩ ⟨hcl', hid', hheld'.1⟩)

/-- **An effect is leased to one worker at a time and attempted no more often than it may be**, in a run whose reapers put it back only when nobody has claimed it since they looked. -/
theorem lease_exclusive (X : Crates) (E : Env) (w : World) (worker : ι → WorkerId)
    (calls : ι → QueueCall) (id : EffectId) (schedule : List ι) (hstart : Leasable w.db id)
    (hreclaim : Lts.EveryStep (Pool.step (handle E)) (ReclaimsUnclaimed E id)
      (QueuePool.start X w worker calls) schedule) :
    Lts.Always (Pool.step (handle E)) (fun c => ExclusiveLease c.world.db id)
      (QueuePool.start X w worker calls) schedule := by
  intro pre post hsplit
  apply LeasePool.exclusive
  apply Lts.always_of_invariant (LeasePool id) _ (leasePool_start X worker calls hstart) hreclaim
    pre post hsplit
  exact fun c i hc hstep => leasePool_step hc hstep

theorem lease_exclusive_untilCompleted :
    Lts.Always (Pool.step (handle .slow)) (fun c => ExclusiveLease c.world.db firstEffect)
      (QueuePool.start Crates.sample (World.start .withWorkers) leaseLostWorker leaseLost)
      untilCompleted :=
  lease_exclusive Crates.sample .slow (World.start .withWorkers) leaseLostWorker leaseLost
    firstEffect untilCompleted
    ⟨by decide +kernel, by decide +kernel, by decide +kernel, by decide +kernel⟩ (by decide +kernel)

/-- A minute and a second pass after the fourth reading of the clock, and a second after every other. -/
def Env.oneLeaseRunsOut : Env :=
  Env.sample (fun n => (1700000000 + n + if n < 4 then 0 else 60) * 10 ^ 9) fun _ => false

/-- The calls, by what they are there for. -/
inductive TwoReapers where
  | publisher | holder | early | late | successor | again
deriving DecidableEq

def twoReapersWorker (i : TwoReapers) : WorkerId := if i = .successor then "wrk_b" else "wrk_a"

def twoReapers (i : TwoReapers) : QueueCall :=
  match i with
  | .publisher => .enqueue "ws_demo" "cmd_demo" "act_demo" "shell.run" (.object []) .medium
  | .holder | .successor | .again => .claimOne "ws_demo" ["shell.run"]
  | .early | .late => .reapExpired

/-- Both reapers list the claim of `wrk_a`; the first puts the effect back and `wrk_b` claims it, the second puts it back again and `wrk_a` claims it. -/
def bothListed : List TwoReapers :=
  List.replicate 3 .publisher ++ List.replicate 7 .holder ++ [.early, .early, .late, .late] ++
    [.early, .early] ++ List.replicate 7 .successor ++ [.late, .late] ++ List.replicate 7 .again

/-- Then both workers hold a claim that has not run out. -/
theorem bothListed_two_holders :
    let finished := Lts.run (Pool.step (handle .oneLeaseRunsOut))
      (QueuePool.start Crates.sample (World.start .withWorkers) twoReapersWorker twoReapers) bothListed
    World.Regular .oneLeaseRunsOut finished.world ∧ ¬ ExclusiveLease finished.world.db firstEffect := by
  intro finished
  refine ⟨by decide +kernel, fun hexclusive => ?_⟩
  have htwo : ∃ c ∈ finished.world.db.effectClaim.rows, ∃ c' ∈ finished.world.db.effectClaim.rows,
      c.effectId = firstEffect ∧ c'.effectId = firstEffect ∧
        (c.releasedAt = none ∧ ¬ c.expiresAt < (Env.oneLeaseRunsOut.clock 12).formatRfc3339) ∧
        (c'.releasedAt = none ∧ ¬ c'.expiresAt < (Env.oneLeaseRunsOut.clock 12).formatRfc3339) ∧
          c.workerId ≠ c'.workerId := by
    decide +kernel
  obtain ⟨c, hc, c', hc', hid, hid', hheld, hheld', hne⟩ := htwo
  exact hne (hexclusive.holder _ c hc c' hc' hid hid' hheld hheld')

end ActantDb
