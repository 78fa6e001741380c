import ActantDb.Storage.Statement

/-!
# The effect queue

`EffectQueue` over the SQLite backend: an effect is enqueued, claimed by a worker for the time of a lease, started, and completed or failed; a claim whose lease has run out is reaped. As in the command engine there are no transactions, so each function is a program and calls interleave between any two of their statements.

The functions that end an effect are not told who calls them. A call in a run is therefore issued in the name of a worker, which only `claim_one` looks at.
-/

namespace ActantDb

def leaseDurationSeconds : Nat := 60

structure Lease where
  effectId : EffectId
  workerId : WorkerId
  effectType : String
  inputInline : Option String
  expiresAt : String
deriving DecidableEq

variable (X : Crates)

namespace EffectQueue

def enqueue (ws : WorkspaceId) (command : CommandId) (requestedBy : ActorId) (effectType : String)
    (input : Value) (risk : RiskLevel) : Action EffectId := do
  let inputCanon := canonicalJson X input
  let inputHash := sha256Hex X (asBytes inputCanon)
  let id ← freshId "eff"
  let now ← nowRfc3339
  execute (.insertEffect
    { id := id, workspaceId := ws, commandId := command, requestedByActorId := requestedBy,
      effectType := effectType, status := .pending, riskLevel := risk,
      inputInline := some inputCanon, inputHash := inputHash, assignedWorkerId := none,
      attemptCount := 0, maxAttempts := 3, nextAttemptAt := none, startedAt := none,
      finishedAt := none, resultRef := none, resultHash := none, error := none, createdAt := now })
  return id

def expiresAt (seconds : Nat) : Action String := do
  let t ← (Prog.perform Op.now : Action OffsetDateTime)
  return (t.plusSeconds seconds).formatRfc3339

def claimOne (worker : WorkerId) (ws : WorkspaceId) (supportedTypes : List String) :
    Action (Option Lease) :=
  if supportedTypes.isEmpty then pure none
  else do
    match ← execute (.oldestPending ws supportedTypes) with
    | none => return none
    | some (id, effectType, inputInline) =>
      let expires ← expiresAt leaseDurationSeconds
      let claimId ← freshId "clm"
      let now ← nowRfc3339
      if ← execute (.claimEffect id worker now) then
        let now ← nowRfc3339
        execute (.insertEffectClaim
          { id := claimId, effectId := id, workerId := worker, claimedAt := now,
            expiresAt := expires, releasedAt := none })
        return some ⟨id, worker, effectType, inputInline, expires⟩
      else
        -- another worker won the race
        return none

/-- It is the row of the worker that is updated, and a row of its own that is added. -/
def heartbeat (worker : WorkerId) (inFlightCount : Int) : Action Unit := do
  let now ← nowRfc3339
  execute (.heartbeatWorker worker now)
  execute (.insertWorkerHeartbeat
    { id := "hb_" ++ worker ++ "_" ++ now, workerId := worker, at_ := now,
      inFlightCount := inFlightCount })

def start (id : EffectId) : Action Unit := execute (.startEffect id)

def complete (id : EffectId) (output : Value) : Action Unit := do
  let canon := canonicalJson X output
  let hash := sha256Hex X (asBytes canon)
  let now ← nowRfc3339
  execute (.completeEffect id canon hash now)
  let resultId ← freshId "er"
  execute (.insertEffectResult resultId id canon hash now)

def fail (id : EffectId) (err : String) : Action Unit := do
  let now ← nowRfc3339
  execute (.failEffect id err now)

/-- The loop over the expired claims, with the count so far. -/
def reapEach (now : String) (reclaimed : Nat) : List (EffectId × String × Int × Int) → Action Nat
  | [] => pure reclaimed
  | (effectId, claimId, attempts, maxAttempts) :: rest => do
    execute (.releaseClaim claimId now)
    if attempts < maxAttempts then execute (.reclaimEffect effectId now)
    else execute (.exhaustEffect effectId now)
    reapEach now (reclaimed + 1) rest

def reapExpired : Action Nat := do
  let now ← nowRfc3339
  let expired ← execute (.expiredClaims now)
  reapEach now 0 expired

end EffectQueue

/-! ### Calls that interleave -/

inductive QueueCall where
  | enqueue (ws : WorkspaceId) (command : CommandId) (requestedBy : ActorId) (effectType : String)
    (input : Value) (risk : RiskLevel)
  | heartbeat (inFlightCount : Int)
  | claimOne (ws : WorkspaceId) (supportedTypes : List String)
  | start (id : EffectId)
  | complete (id : EffectId) (output : Value)
  | fail (id : EffectId) (err : String)
  | reapExpired

/-- What a call returns. -/
inductive QueueReply where
  | enqueued (id : EffectId)
  | claimed (lease : Option Lease)
  | reaped (reclaimed : Nat)
  | unit

/-- The call, issued by a worker. -/
def QueueCall.issue (worker : WorkerId) : QueueCall → Action QueueReply
  | .enqueue ws command requestedBy effectType input risk =>
    .enqueued <$> EffectQueue.enqueue X ws command requestedBy effectType input risk
  | .heartbeat inFlightCount => do
    EffectQueue.heartbeat worker inFlightCount
    return .unit
  | .claimOne ws supportedTypes => .claimed <$> EffectQueue.claimOne worker ws supportedTypes
  | .start id => do
    EffectQueue.start id
    return .unit
  | .complete id output => do
    EffectQueue.complete X id output
    return .unit
  | .fail id err => do
    EffectQueue.fail id err
    return .unit
  | .reapExpired => .reaped <$> EffectQueue.reapExpired

abbrev QueuePool (ι : Type) := Pool ι World Op Op.Res ActantError QueueReply

end ActantDb
