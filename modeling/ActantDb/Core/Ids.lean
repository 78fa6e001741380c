import ActantDb.Core.Hlc
import ActantDb.Core.Model

/-!
# Identifiers

Every id is a tag, an underscore and a ULID. The one exception is the event id of a replicated event, which is derived from what the event says.
-/

namespace ActantDb

/-- `format!("{}_{}", prefix, ulid)`. -/
def newId (tag ulid : String) : String := tag ++ "_" ++ ulid

/-- `u64::to_be_bytes`. -/
def beBytes64 (x : UInt64) : List UInt8 :=
  ([56, 48, 40, 32, 24, 16, 8, 0] : List UInt64).map fun shift => (x >>> shift).toUInt8

/-- `u32::to_be_bytes`. -/
def beBytes32 (x : UInt32) : List UInt8 :=
  ([24, 16, 8, 0] : List UInt32).map fun shift => (x >>> shift).toUInt8

/-- What the content-derived id hashes. -/
def idPreimage (canonicalPayload : List UInt8) (hlc : Hlc) (actor : ActorId) : List UInt8 :=
  canonicalPayload ++ beBytes64 hlc.physicalMs ++ beBytes32 hlc.logical ++ asBytes actor

/-- `EventId::content_derived`. -/
def contentDerived (X : Crates) (canonicalPayload : List UInt8) (hlc : Hlc) (actor : ActorId) :
    EventId :=
  newId "evt" (sha256Hex X (idPreimage canonicalPayload hlc actor))

end ActantDb
