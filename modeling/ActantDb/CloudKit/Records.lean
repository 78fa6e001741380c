import Mathlib.Algebra.Ring.Int.Defs
import Mathlib.Algebra.Ring.Nat
import Mathlib.Data.Option.Basic
import Mathlib.Data.Prod.Lex
import ActantDb.Lib.Run

/-!
# Events and their CloudKit records

An event row becomes a record of the zone under its id as the record's name, and is read back from it. A record that lacks a field, or holds something else there, is read as nothing.
-/

namespace ActantDb

namespace CloudKit

structure HLCCursor where
  physicalMS : Int
  logical : Nat
deriving DecidableEq, Repr

namespace HLCCursor

def toPair (h : HLCCursor) : Int ×ₗ Nat := toLex (h.physicalMS, h.logical)

theorem toPair_injective : Function.Injective toPair := by
  intro a b h
  cases a
  cases b
  simpa [toPair] using h

/-- By the physical part, then by the logical part. -/
instance : LinearOrder HLCCursor := LinearOrder.lift' toPair toPair_injective

theorem physicalMS_le {a b : HLCCursor} (h : a ≤ b) : a.physicalMS ≤ b.physicalMS := by
  have hle : toPair a ≤ toPair b := h
  rw [toPair, toPair, Prod.Lex.toLex_le_toLex] at hle
  rcases hle with hlt | ⟨heq, -⟩
  · exact hlt.le
  · exact heq.le

end HLCCursor

structure EventRow where
  id : String
  workspaceID : String
  sessionID : Option String
  deviceID : String
  actorID : String
  eventType : String
  payloadJSON : List UInt8
  payloadHash : String
  prevChainHash : Option String
  hlc : HLCCursor
  createdAt : String
deriving DecidableEq, Repr

/-- A value of a record's field. -/
inductive CKRecordValue where
  | string (s : String)
  | data (bytes : List UInt8)
  | number (n : Int)
deriving DecidableEq, Repr

namespace CKRecordValue

def string? : CKRecordValue → Option String
  | .string s => some s
  | _ => none

def data? : CKRecordValue → Option (List UInt8)
  | .data bytes => some bytes
  | _ => none

def number? : CKRecordValue → Option Int
  | .number n => some n
  | _ => none

end CKRecordValue

structure CKRecord where
  recordType : String
  recordName : String
  field : String → Option CKRecordValue

def recordType : String := "ActantEvent"

/-- The field as a text, if it is there and is one; and so on. -/
def CKRecord.string? (r : CKRecord) (key : String) : Option String := (r.field key).bind (·.string?)

def CKRecord.data? (r : CKRecord) (key : String) : Option (List UInt8) := (r.field key).bind (·.data?)

def CKRecord.number? (r : CKRecord) (key : String) : Option Int := (r.field key).bind (·.number?)

/-- `uint32Value` of a number. -/
def uint32Value (n : Int) : Nat := (n % 2 ^ 32).toNat

namespace EventRow

def toRecord (row : EventRow) : CKRecord where
  recordType := CloudKit.recordType
  recordName := row.id
  field
    | "id" => some (.string row.id)
    | "workspace_id" => some (.string row.workspaceID)
    | "session_id" => row.sessionID.map .string
    | "device_id" => some (.string row.deviceID)
    | "actor_id" => some (.string row.actorID)
    | "event_type" => some (.string row.eventType)
    | "payload_json" => some (.data row.payloadJSON)
    | "payload_hash" => some (.string row.payloadHash)
    | "prev_chain_hash" => row.prevChainHash.map .string
    | "hlc_physical_ms" => some (.number row.hlc.physicalMS)
    | "hlc_logical" => some (.number row.hlc.logical)
    | "created_at" => some (.string row.createdAt)
    | _ => none

def fromRecord (rec : CKRecord) : Option EventRow := do
  guard (rec.recordType = CloudKit.recordType)
  let id ← rec.string? "id"
  let workspaceID ← rec.string? "workspace_id"
  let deviceID ← rec.string? "device_id"
  let actorID ← rec.string? "actor_id"
  let eventType ← rec.string? "event_type"
  let payloadJSON ← rec.data? "payload_json"
  let payloadHash ← rec.string? "payload_hash"
  let physicalNum ← rec.number? "hlc_physical_ms"
  let logicalNum ← rec.number? "hlc_logical"
  let createdAt ← rec.string? "created_at"
  let sessionID := rec.string? "session_id"
  let prevChainHash := rec.string? "prev_chain_hash"
  return { id, workspaceID, sessionID, deviceID, actorID, eventType, payloadJSON, payloadHash, prevChainHash,
           hlc := ⟨physicalNum, uint32Value logicalNum⟩, createdAt }

/-- What is read back from a record is the row, with its counter cut to 32 bits. -/
theorem fromRecord_eq (row : EventRow) :
    fromRecord row.toRecord = some { row with hlc := ⟨row.hlc.physicalMS, uint32Value row.hlc.logical⟩ } := by
  have htype : guard (row.toRecord.recordType = CloudKit.recordType) = (some () : Option Unit) := if_pos rfl
  rw [fromRecord, htype]
  cases row with
  | mk id workspaceID sessionID deviceID actorID eventType payloadJSON payloadHash prevChainHash hlc createdAt =>
    cases sessionID <;> cases prevChainHash <;> rfl

/-- A row is read back from its record, as long as its counter is one of 32 bits. -/
theorem fromRecord_toRecord {row : EventRow} (h : row.hlc.logical < 2 ^ 32) : fromRecord row.toRecord = some row := by
  have hlogical : uint32Value (row.hlc.logical : Int) = row.hlc.logical := by
    rw [uint32Value]
    omega
  rw [fromRecord_eq, hlogical]

/-- The stamp of a row is in the fields that queries compare. -/
theorem physical_of_fromRecord {rec : CKRecord} {row : EventRow} (h : fromRecord rec = some row) :
    rec.number? "hlc_physical_ms" = some row.hlc.physicalMS := by
  simp only [fromRecord, Option.bind_eq_bind, Option.bind_eq_some_iff, Option.pure_def, Option.some.injEq] at h
  obtain ⟨-, -, -, -, -, -, -, -, -, -, -, -, -, -, -, -, physical, hphysical, -, -, -, -, rfl⟩ := h
  exact hphysical

end EventRow

end CloudKit

end ActantDb
