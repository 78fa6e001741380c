import ActantDb.Lib.Paging
import ActantDb.Lib.Stable
import ActantDb.Storage.Ingest

/-!
# Paging through the events of a workspace

`events_since` sorts the rows of the bound workspace by clock stamp, then by `created_at` and `id`, but its cursor has the two parts of the stamp only. A caller who passes back the stamp of the last row of a page goes on after every row of that stamp. Rows of one stamp that straddle the end of a page are lost, and all rows that `append_event` writes have one stamp. Nothing is lost when the stamp read back at the end of each page lies between its row and the next.
-/

namespace ActantDb

namespace Ffi

/-- `.max(0) as u64`. -/
def toU64 (i : Int) : UInt64 := UInt64.ofNat i.toNat

/-- `.max(0) as u32`, which keeps the low half. -/
def toU32 (i : Int) : UInt32 := UInt32.ofNat i.toNat

structure EventRow where
  id : String
  sessionId : Option String
  eventType : String
  payloadJson : String
  payloadHash : String
  createdAt : String
  deviceId : String
  hlcPhysicalMs : UInt64
  hlcLogical : UInt32
deriving DecidableEq, Repr

def eventRow (r : AgentEventRow) : EventRow where
  id := r.event.id
  sessionId := r.event.sessionId
  eventType := r.event.eventType
  payloadJson := r.event.payloadInline.getD "\x7b\x7d"
  payloadHash := r.event.payloadHash
  createdAt := r.event.createdAt
  deviceId := r.deviceId
  hlcPhysicalMs := toU64 r.hlcPhysicalMs
  hlcLogical := toU32 r.hlcLogical

/-- `hlc_physical_ms > ? OR (hlc_physical_ms = ? AND hlc_logical > ?)`. -/
def isAfter (physical logical : Int) (r : AgentEventRow) : Bool :=
  decide (physical < r.hlcPhysicalMs) || (decide (r.hlcPhysicalMs = physical) && decide (logical < r.hlcLogical))

/-- `? IS NULL OR ? IS NULL OR ..`. -/
def sinceCursor (physical logical : Option Int) (r : AgentEventRow) : Bool :=
  match physical, logical with
  | some p, some l => isAfter p l r
  | _, _ => true

/-- `ORDER BY hlc_physical_ms ASC, hlc_logical ASC, created_at ASC, id ASC`. -/
def byStamp (a b : AgentEventRow) : Prop :=
  a.hlcPhysicalMs < b.hlcPhysicalMs ∨
    a.hlcPhysicalMs = b.hlcPhysicalMs ∧ (a.hlcLogical < b.hlcLogical ∨
      a.hlcLogical = b.hlcLogical ∧ a.before b)

instance (a b : AgentEventRow) : Decidable (byStamp a b) :=
  inferInstanceAs (Decidable (_ ∨ _ ∧ (_ ∨ _ ∧ _)))

/-- `limit.clamp(1, 10_000)`. -/
def pageSize (limit : UInt32) : Nat := min (max limit.toNat 1) 10000

/-- `events_since`, with the storage answering. -/
def eventsSince (db : Db) (workspace : WorkspaceId) (cursorHlcPhysicalMs : Option UInt64)
    (cursorHlcLogical : Option UInt32) (limit : UInt32) : List EventRow :=
  let rows := (db.agentEvent.rows.filter fun r => r.event.workspaceId = workspace &&
    sinceCursor (cursorHlcPhysicalMs.map fun p => toI64 p.toNat) (cursorHlcLogical.map fun l => (l.toNat : Int)) r)
      |>.insertionSort byStamp
  (rows.take (pageSize limit)).map eventRow

/-! ### Reading to the end -/

/-- What a caller passes back. -/
abbrev Cursor := UInt64 × UInt32

/-- The stamp of a returned row. -/
def EventRow.cursor (row : EventRow) : Cursor := (row.hlcPhysicalMs, row.hlcLogical)

def page (db : Db) (workspace : WorkspaceId) (limit : UInt32) (cursor : Option Cursor) : List EventRow :=
  eventsSince db workspace (cursor.map Prod.fst) (cursor.map Prod.snd) limit

/-- The rows of a workspace in the order of the query. -/
def rowsOf (db : Db) (workspace : WorkspaceId) : List AgentEventRow :=
  (db.agentEvent.rows.filter fun r => r.event.workspaceId = workspace).insertionSort byStamp

/-- The row lies behind the cursor. -/
def afterCursor (cursor : Cursor) (r : AgentEventRow) : Bool := isAfter (toI64 cursor.1.toNat) cursor.2.toNat r

/-- A caller who starts without a cursor and passes back the stamp of the last row until a page is empty has received every row of the workspace once, in the order of the query. -/
def Complete (db : Db) (workspace : WorkspaceId) (limit : UInt32) : Prop :=
  Paging.Reads (page db workspace limit) EventRow.cursor none ((rowsOf db workspace).map eventRow)

/-- At the end of each page the stamp read back is not before its row, and is before the next row. -/
def StampsSplit (db : Db) (workspace : WorkspaceId) (limit : UInt32) : Prop :=
  ∀ pre last post, rowsOf db workspace = pre ++ last :: post →
    (pre.length + 1) % pageSize limit = 0 ∨ post = [] →
      afterCursor (eventRow last).cursor last = false ∧ ∀ next ∈ post.head?, afterCursor (eventRow last).cursor next = true

theorem pageSize_pos (limit : UInt32) : 0 < pageSize limit := by
  rw [pageSize]
  omega

theorem byStamp_iff_lex {a b : AgentEventRow} :
    byStamp a b ↔ toLex (a.hlcPhysicalMs, toLex (a.hlcLogical, toLex (a.event.createdAt, a.event.id))) ≤
      toLex (b.hlcPhysicalMs, toLex (b.hlcLogical, toLex (b.event.createdAt, b.event.id))) := by
  rw [Prod.Lex.toLex_le_toLex, Prod.Lex.toLex_le_toLex, ← before_iff_lex]
  rfl

instance : IsTrans AgentEventRow byStamp :=
  ⟨fun a b c hab hbc => by
    rw [byStamp_iff_lex] at hab hbc ⊢
    exact hab.trans hbc⟩

instance : Std.Total byStamp :=
  ⟨fun a b => by
    rw [byStamp_iff_lex, byStamp_iff_lex]
    exact le_total _ _⟩

/-- What lies behind a cursor is followed by nothing else. -/
theorem afterCursor_of_byStamp {cursor : Cursor} {a b : AgentEventRow} (h : byStamp a b)
    (ha : afterCursor cursor a = true) : afterCursor cursor b = true := by
  simp only [afterCursor, isAfter, byStamp, Bool.or_eq_true, Bool.and_eq_true, decide_eq_true_eq] at h ha ⊢
  omega

variable {db : Db} {workspace : WorkspaceId}

/-- A page is the first rows behind the cursor. -/
theorem page_eq_fetch (limit : UInt32) :
    page db workspace limit = Paging.fetch afterCursor eventRow (pageSize limit) (rowsOf db workspace) := by
  funext cursor
  cases cursor with
  | none =>
    simp only [page, eventsSince, Option.map_none, sinceCursor, Bool.and_true]
    rfl
  | some cursor =>
    have hfilter : (rowsOf db workspace).filter (afterCursor cursor) =
        (db.agentEvent.rows.filter fun r => r.event.workspaceId = workspace && afterCursor cursor r).insertionSort byStamp := by
      rw [rowsOf, Stable.filter_insertionSort, List.filter_filter]
      simp only [Bool.and_comm]
    rw [Paging.fetch, Paging.beyond, hfilter]
    rfl

/-- A returned row tells its id, so no two are equal. -/
theorem nodup_rowsOf : ((rowsOf db workspace).map eventRow).Nodup := by
  have hids : ((rowsOf db workspace).map AgentEventRow.id).Nodup := by
    rw [rowsOf, ((List.perm_insertionSort _ _).map _).nodup_iff]
    exact db.agentEvent.keysNodup.sublist (List.filter_sublist.map _)
  apply List.Nodup.of_map EventRow.id
  rw [List.map_map]
  exact hids

/-- **Paging is complete exactly when no page ends inside a run of equal stamps.** -/
theorem complete_iff (db : Db) (workspace : WorkspaceId) (limit : UInt32) :
    Complete db workspace limit ↔ StampsSplit db workspace limit := by
  rw [Complete, page_eq_fetch]
  refine Paging.reads_iff (pageSize_pos limit) (fun cursor => ?_) nodup_rowsOf List.suffix_rfl rfl
  exact (List.pairwise_insertionSort byStamp _).imp afterCursor_of_byStamp

/-- With stamps that the interface can show, what splits is two rows of different stamps. -/
theorem afterCursor_cursor {last next : AgentEventRow} (hphysical : 0 ≤ last.hlcPhysicalMs ∧ last.hlcPhysicalMs < 2 ^ 63)
    (hlogical : 0 ≤ last.hlcLogical ∧ last.hlcLogical < 2 ^ 32) (h : byStamp last next) :
    afterCursor (eventRow last).cursor last = false ∧
      (afterCursor (eventRow last).cursor next = true ↔
        (next.hlcPhysicalMs, next.hlcLogical) ≠ (last.hlcPhysicalMs, last.hlcLogical)) := by
  have hp : toI64 (toU64 last.hlcPhysicalMs).toNat = last.hlcPhysicalMs := by
    rw [toU64, UInt64.toNat_ofNat', Nat.mod_eq_of_lt (by omega), toI64, if_pos (by omega), Int.toNat_of_nonneg hphysical.1]
  have hl : ((toU32 last.hlcLogical).toNat : Int) = last.hlcLogical := by
    rw [toU32, UInt32.toNat_ofNat', Nat.mod_eq_of_lt (by omega), Int.toNat_of_nonneg hlogical.1]
  simp only [afterCursor, EventRow.cursor, eventRow, hp, hl, isAfter, byStamp, Bool.or_eq_false_iff, Bool.and_eq_false_iff,
    decide_eq_false_iff_not, Bool.or_eq_true, Bool.and_eq_true, decide_eq_true_eq, Ne, Prod.mk.injEq] at h ⊢
  omega

def noted (id : EventId) : AgentEvent where
  id := id
  workspaceId := "ws_demo"
  actorId := "act_demo"
  sessionId := none
  parentEventId := none
  eventType := "note"
  causalityKind := .audit
  sensitivity := .low
  authorityScopeId := none
  payloadInline := none
  payloadRef := none
  payloadHash := "h"
  eventHash := "h"
  createdAt := "2023-11-14T22:13:20Z"
  modelCallId := none
  toolCallId := none
  workflowRunId := none
  memoryId := none
  artifactId := none
  commandId := none
  effectId := none

/-- Two calls of `append_event`. -/
def appendedTwice : Except SqlError Db := do
  let appended ← (Sql.appendEvent (noted "evt_1")).exec Db.sample
  let appended ← (Sql.appendEvent (noted "evt_2")).exec appended.2
  return appended.2

/-- Both rows have the stamp (0, 0), and with one row on a page the second is never returned. -/
theorem second_lost : ∃ db, appendedTwice = .ok db ∧
    Paging.Reads (page db "ws_demo" 1) EventRow.cursor none [eventRow { event := noted "evt_1" }] ∧
    ¬ Complete db "ws_demo" 1 := by
  obtain ⟨db, hdb⟩ : ∃ db, appendedTwice = .ok db := ⟨_, rfl⟩
  have hfirst : page db "ws_demo" 1 none = [eventRow { event := noted "evt_1" }] := by
    cases hdb
    decide +kernel
  have hnext : page db "ws_demo" 1 (some (eventRow { event := noted "evt_1" }).cursor) = [] := by
    cases hdb
    decide +kernel
  have hrows : (rowsOf db "ws_demo").length = 2 := by
    cases hdb
    rw [rowsOf, List.length_insertionSort]
    rfl
  have hread : Paging.Reads (page db "ws_demo" 1) EventRow.cursor none (page db "ws_demo" 1 none ++ []) :=
    .page (by rw [hfirst, List.getLast?_singleton]) (.done hnext)
  rw [hfirst] at hread
  refine ⟨db, hdb, hread, fun hcomplete => ?_⟩
  have hlength := congrArg List.length (hread.unique hcomplete)
  rw [List.length_map, hrows] at hlength
  cases hlength

end Ffi

end ActantDb
