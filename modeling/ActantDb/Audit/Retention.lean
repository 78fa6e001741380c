import Mathlib.Data.UInt
import ActantDb.Core.Instant
import ActantDb.Core.Model
import ActantDb.Lib.Table

/-!
# Retention

An event is retained when it is sensitive enough, when its timestamp cannot be read, or when it is not older than `keep_days`. The cutoff is computed by a subtraction that panics below the first instant of the `time` crate, and `keep_days` is a `u32`: eleven thousand years and more are within its type. Where the decision is made it is monotone in `keep_days`, and a purge deletes only what was decided to go.
-/

namespace ActantDb.Audit

structure RetentionPolicy where
  keepDays : UInt32
  alwaysKeepAtLeast : Sensitivity

/-- `default()` -/
def RetentionPolicy.default : RetentionPolicy := ⟨365, .high⟩

/-- A row of `agent_event`, as far as the export and the purge read it. -/
structure EventRow where
  id : EventId
  workspaceId : WorkspaceId
  actorId : ActorId
  eventType : String
  payloadInline : Option String
  sensitivity : String
  createdAt : String
deriving DecidableEq

section

-- the UTC instant of an RFC 3339 text
variable (parse : String → Option Int)

/-- The decision; `none` where it panics. -/
def RetentionPolicy.shouldRetain (now : Instant) (policy : RetentionPolicy) (createdAt : String) (sens : Sensitivity) :
    Option Bool :=
  if policy.alwaysKeepAtLeast.rank ≤ sens.rank then some true
  else
    match parse createdAt with
    | none => some true
    | some t => (now.checkedSubDays policy.keepDays.toNat).map fun cutoff => cutoff.nanos ≤ t

/-- The cutoff is not needed, or it is in range. -/
def RetentionPolicy.Decides (now : Instant) (policy : RetentionPolicy) (createdAt : String) (sens : Sensitivity) : Prop :=
  policy.alwaysKeepAtLeast.rank ≤ sens.rank ∨ parse createdAt = none
    ∨ policy.keepDays.toNat * Instant.dayNanos ≤ now.nanos + 377705116800 * 10 ^ 9

variable {parse} {now : Instant} {policy : RetentionPolicy} {createdAt : String} {sens : Sensitivity}

theorem isSome_shouldRetain : (policy.shouldRetain parse now createdAt sens).isSome = true ↔ policy.Decides parse now createdAt sens := by
  unfold RetentionPolicy.shouldRetain RetentionPolicy.Decides
  split
  · next hrank => simp [hrank]
  · next hrank =>
    cases hparse : parse createdAt with
    | none => simp
    | some t =>
      have hcutoff : now.checkedSubDays policy.keepDays.toNat = none ↔ _ := Instant.checkedSubDays_eq_none
      rw [Option.isSome_map, ← Option.not_isNone, Bool.not_eq_true', ← Bool.not_eq_true, Option.isNone_iff_eq_none, hcutoff]
      simp only [hrank, reduceCtorEq, false_or]
      omega

/-- The default policy decides after the first year of the range. -/
theorem decides_default (h : -377705116800 * 10 ^ 9 + 365 * Instant.dayNanos ≤ now.nanos) :
    RetentionPolicy.default.Decides parse now createdAt sens := by
  refine .inr (.inr ?_)
  have hdays : ((RetentionPolicy.default.keepDays.toNat : Nat) : Int) = 365 := rfl
  rw [hdays]
  omega

/-- What is purged that is not before the cutoff, where it comes to that. -/
theorem shouldRetain_eq_some_false :
    policy.shouldRetain parse now createdAt sens = some false ↔
      sens.rank < policy.alwaysKeepAtLeast.rank ∧ policy.Decides parse now createdAt sens
        ∧ ∃ t, parse createdAt = some t ∧ t < now.nanos - policy.keepDays.toNat * Instant.dayNanos := by
  rw [← isSome_shouldRetain]
  unfold RetentionPolicy.shouldRetain
  split
  · next hrank => simp [hrank]
  · next hrank =>
    cases hparse : parse createdAt with
    | none => simp
    | some t =>
      cases hcutoff : now.checkedSubDays policy.keepDays.toNat with
      | none => simp
      | some cutoff =>
        have hnanos := Instant.checkedSubDays_eq_some hcutoff
        simp only [Option.map_some, Option.some.injEq, decide_eq_false_iff_not, Option.isSome_some, exists_eq_left', true_and, hnanos]
        omega

/-- **More days never purge what fewer days retained.** -/
theorem shouldRetain_mono {more : UInt32} (hmore : policy.keepDays ≤ more)
    (h : policy.shouldRetain parse now createdAt sens = some true) :
    RetentionPolicy.shouldRetain parse now { policy with keepDays := more } createdAt sens ≠ some false := by
  intro hpurged
  obtain ⟨hrank, -, t, hparse, ht⟩ := shouldRetain_eq_some_false.mp hpurged
  have hdays : (policy.keepDays.toNat : Int) * Instant.dayNanos ≤ (more.toNat : Int) * Instant.dayNanos :=
    Int.mul_le_mul_of_nonneg_right (Int.ofNat_le.mpr (UInt32.le_iff_toNat_le.mp hmore)) (by decide)
  have hdecides : policy.Decides parse now createdAt sens := isSome_shouldRetain.mp (by rw [h]; rfl)
  have hfalse : policy.shouldRetain parse now createdAt sens = some false :=
    shouldRetain_eq_some_false.mpr ⟨hrank, hdecides, t, hparse, by simp only at ht; omega⟩
  rw [h] at hfalse
  cases hfalse

/-- **Retention decides exactly within the range.** A decision is made, and raising `keep_days` never turns it against the event, if and only if the cutoff is not needed or is in the range of the `time` crate. -/
theorem total_and_monotone_iff (parse : String → Option Int) (now : Instant) (policy : RetentionPolicy) (createdAt : String)
    (sens : Sensitivity) :
    ((policy.shouldRetain parse now createdAt sens).isSome = true
      ∧ ∀ more, policy.keepDays ≤ more → policy.shouldRetain parse now createdAt sens = some true →
        RetentionPolicy.shouldRetain parse now { policy with keepDays := more } createdAt sens ≠ some false)
    ↔ policy.Decides parse now createdAt sens := by
  rw [isSome_shouldRetain]
  exact ⟨And.left, fun h => ⟨h, fun more hmore hretained => shouldRetain_mono hmore hretained⟩⟩

/-- In 2026 the policy that keeps events for `u32::MAX` days panics on an event of the epoch. -/
theorem shouldRetain_panics :
    ¬ ∀ (parse : String → Option Int) (now : Instant) (policy : RetentionPolicy) (createdAt : String) (sens : Sensitivity),
      (policy.shouldRetain parse now createdAt sens).isSome = true := by
  intro h
  have hsome := h (fun s => if s = "1970-01-01T00:00:00Z" then some 0 else none) ⟨1780000000 * 10 ^ 9, by decide, by decide⟩
    ⟨4294967295, .high⟩ "1970-01-01T00:00:00Z" .low
  revert hsome
  decide

/-! ### The purge -/

abbrev EventTable := Table EventRow.id

def sensitivityOf : String → Sensitivity
  | "public" => .«public»
  | "low" => .low
  | "medium" => .medium
  | "high" => .high
  | "secret" => .secret
  | "regulated" => .regulated
  | _ => .low

inductive PurgeOutcome where
  | purged (rows : Nat)
  | storage
  | panicked
deriving DecidableEq

/-- What the loop finds at a row: the time, and whether the `DELETE` succeeds. -/
structure PurgeStep where
  row : EventRow
  now : Instant
  deletes : Bool

def RetentionPolicy.decide (parse : String → Option Int) (policy : RetentionPolicy) (s : PurgeStep) : Option Bool :=
  policy.shouldRetain parse s.now s.row.createdAt (sensitivityOf s.row.sensitivity)

def purgeLoop (parse : String → Option Int) (policy : RetentionPolicy) :
    List PurgeStep → Nat → EventTable → PurgeOutcome × EventTable
  | [], purged, db => (.purged purged, db)
  | s :: rest, purged, db =>
    match policy.decide parse s with
    | none => (.panicked, db)
    | some true => purgeLoop parse policy rest purged db
    | some false =>
      if s.deletes then purgeLoop parse policy rest (purged + 1) (db.filter fun r => r.id ≠ s.row.id)
      else (.storage, db)

/-- The rows of the workspace, each with the time and the fate of its `DELETE`. -/
def purgeByPolicy (parse : String → Option Int) (policy : RetentionPolicy) (workspace : WorkspaceId)
    (env : Nat → Instant × Bool) (db : EventTable) : PurgeOutcome × EventTable :=
  let rows := db.rows.filter fun r => r.workspaceId = workspace
  purgeLoop parse policy (rows.mapIdx fun i r => ⟨r, (env i).1, (env i).2⟩) 0 db

/-- The loop deletes only rows it has decided to purge. -/
theorem mem_purgeLoop {steps : List PurgeStep} {purged : Nat} {db : EventTable} {r : EventRow} (hr : r ∈ db)
    (hsteps : ∀ s ∈ steps, s.row.id = r.id → policy.decide parse s ≠ some false) :
    r ∈ (purgeLoop parse policy steps purged db).2 := by
  induction steps generalizing purged db with
  | nil => exact hr
  | cons s rest ih =>
    have hrest : ∀ s' ∈ rest, s'.row.id = r.id → policy.decide parse s' ≠ some false :=
      fun s' hs' => hsteps s' (List.mem_cons_of_mem _ hs')
    rw [purgeLoop]
    split
    · exact hr
    · exact ih hr hrest
    · next hfalse =>
      split
      · refine ih (Table.mem_filter.mpr ⟨hr, ?_⟩) hrest
        have hne : r.id ≠ s.row.id := fun heq => hsteps s List.mem_cons_self heq.symm hfalse
        simpa using hne
      · exact hr

/-- **A purge spares** the other workspaces and the events that the policy retains whenever it is asked. -/
theorem mem_purgeByPolicy {workspace : WorkspaceId} {env : Nat → Instant × Bool} {db : EventTable} {r : EventRow} (hr : r ∈ db)
    (hspared : r.workspaceId ≠ workspace
      ∨ ∀ now, policy.shouldRetain parse now r.createdAt (sensitivityOf r.sensitivity) ≠ some false) :
    r ∈ (purgeByPolicy parse policy workspace env db).2 := by
  refine mem_purgeLoop hr fun s hs hid => ?_
  obtain ⟨i, hi, rfl⟩ := List.mem_mapIdx.mp hs
  have hfetched := List.mem_filter.mp (List.getElem_mem hi)
  have hrow : (db.rows.filter fun r => r.workspaceId = workspace)[i] = r := Table.eq_of_key_eq hfetched.1 hr hid
  simp only [hrow, decide_eq_true_eq] at hfetched
  rcases hspared with hother | hretained
  · exact absurd hfetched.2 hother
  · simp only [RetentionPolicy.decide, hrow]
    exact hretained _

end
end ActantDb.Audit
