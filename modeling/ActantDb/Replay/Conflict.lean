import ActantDb.Core.Model
import ActantDb.Core.Hlc
import ActantDb.Lib.Grouping
import Mathlib.Data.Prod.Lex
import Mathlib.Data.String.Basic
import Mathlib.Order.Compare
import Mathlib.Data.Finset.Max

/-!
# Conflict resolution

When two devices have written to one row, or to one field of it, the write with the later stamp wins, and of two with one stamp the one whose actor sorts last. Neither the table nor the field is looked at: which fields are merged on their own is for the caller to look up in the policy.

The rule compares in one total order, so whoever merges the writes, in whatever order and grouping, ends with the same one (`lww_converges`).
-/

namespace ActantDb

/-- The derived `cmp`: field by field. -/
def Hlc.cmp (a b : Hlc) : Ordering := (compare a.physicalMs b.physicalMs).then (compare a.logical b.logical)

theorem Hlc.cmp_lt {a b : Hlc} : a.cmp b = .lt ↔ a < b := by
  have hphysical : compare a.physicalMs b.physicalMs = .lt ↔ a.physicalMs < b.physicalMs := compareOfLessAndEq_eq_lt
  have hlogical : compare a.logical b.logical = .lt ↔ a.logical < b.logical := compareOfLessAndEq_eq_lt
  rw [cmp, Ordering.then_eq_lt, hphysical, hlogical, Std.LawfulEqOrd.compare_eq_iff_eq, Hlc.lt_iff, UInt64.lt_iff_toNat_lt,
    UInt32.lt_iff_toNat_lt, UInt64.toNat_inj]

theorem Hlc.cmp_eq {a b : Hlc} : a.cmp b = .eq ↔ a = b := by
  rw [cmp, Ordering.then_eq_eq, Std.LawfulEqOrd.compare_eq_iff_eq, Std.LawfulEqOrd.compare_eq_iff_eq, Hlc.mk.injEq]

/-- What carries the stamp of its last write and the actor that made it. -/
class HasHlc (T : Type*) where
  hlc : T → Hlc
  actorId : T → ActorId

structure ConflictPolicy where
  /-- The fields of a table that are merged on their own. -/
  perFieldLww : String → Option (List String)

namespace ConflictPolicy

def defaultForProjections : ConflictPolicy where
  perFieldLww
    | "memory" => some ["approved_at", "rejected_at", "last_verified_at"]
    | "session" => some ["title", "phase"]
    | "actor" => some ["display_name"]
    | _ => none

def rowLevelOnly : ConflictPolicy := ⟨fun _ => none⟩

def isPerField (p : ConflictPolicy) (table field : String) : Bool :=
  ((p.perFieldLww table).map fun fields => decide (field ∈ fields)).getD false

variable {T : Type*} [HasHlc T]

open HasHlc

def resolve (_ : ConflictPolicy) (_table : String) (_field : Option String) (a b : T) : Ordering :=
  match (hlc a).cmp (hlc b) with
  | .eq => compare (actorId a) (actorId b)
  | other => other

/-- The write that is applied: on a tie of stamp and actor, `a`. -/
def winner (p : ConflictPolicy) (table : String) (field : Option String) (a b : T) : T :=
  match p.resolve table field a b with
  | .lt => b
  | _ => a

/-! ### The order -/

/-- What is compared. -/
def stamp (a : T) : Hlc ×ₗ ActorId := toLex (hlc a, actorId a)

variable (p : ConflictPolicy) (table : String) (field : Option String)

theorem resolve_lt {a b : T} : p.resolve table field a b = .lt ↔ stamp a < stamp b := by
  have hresolve : p.resolve table field a b = ((hlc a).cmp (hlc b)).then (compare (actorId a) (actorId b)) := by
    rw [resolve]
    cases (hlc a).cmp (hlc b) <;> rfl
  rw [hresolve, Ordering.then_eq_lt, Hlc.cmp_lt, Hlc.cmp_eq, compare_lt_iff_lt, stamp, stamp, Prod.Lex.toLex_lt_toLex]

theorem winner_picksGreater : Grouping.PicksGreater (stamp : T → Hlc ×ₗ ActorId) (p.winner table field) := by
  have hcases (a b : T) : p.winner table field a b = if stamp a < stamp b then b else a := by
    rw [winner]
    split
    · rename_i hlt
      rw [if_pos (p.resolve_lt table field |>.mp hlt)]
    · rename_i hnot
      rw [if_neg fun hlt => hnot (p.resolve_lt table field |>.mpr hlt)]
  refine ⟨fun a b => ?_, fun a b => ?_, fun a b => ?_⟩
  · rw [hcases]
    split
    · exact Or.inr rfl
    · exact Or.inl rfl
  · rw [hcases]
    split
    · rename_i hlt
      exact le_of_lt hlt
    · exact le_refl _
  · rw [hcases]
    split
    · exact le_refl _
    · rename_i hnot
      exact not_lt.mp hnot

/-- **Last writer wins, in any order and grouping**: of writes with distinct stamps there is one that all others come before, and it is what is left of them. -/
theorem lww_converges (writes : Finset T) (hne : writes.Nonempty) (hdistinct : Set.InjOn stamp (writes : Set T)) :
    ∃ m ∈ writes, (∀ w ∈ writes, w ≠ m → stamp w < stamp m) ∧
      ∀ g : Grouping T, (∀ w, w ∈ g.items ↔ w ∈ writes) → g.fold (p.winner table field) = m := by
  obtain ⟨m, hm, hmax⟩ := writes.exists_max_image stamp hne
  have hgreatest : ∀ w ∈ writes, w ≠ m → stamp w < stamp m := fun w hw hwm =>
    lt_of_le_of_ne (hmax w hw) fun heq => hwm (hdistinct hw hm heq)
  refine ⟨m, hm, hgreatest, fun g hg => ?_⟩
  exact (winner_picksGreater p table field).fold_eq g ((hg m).mpr hm) fun w hw => hgreatest w ((hg w).mp hw)

structure Row where
  hlc : Hlc
  actor : ActorId
deriving DecidableEq

instance : HasHlc Row := ⟨Row.hlc, Row.actor⟩

/-- Two devices write at one stamp, and a third one after them. -/
def titles : Finset Row := {⟨⟨1000, 5⟩, "act_alpha"⟩, ⟨⟨1000, 5⟩, "act_zulu"⟩, ⟨⟨2000, 0⟩, "act_alpha"⟩}

theorem lww_converges_titles :
    ∃ m ∈ titles, (∀ w ∈ titles, w ≠ m → stamp w < stamp m) ∧
      ∀ g : Grouping Row, (∀ w, w ∈ g.items ↔ w ∈ titles) →
        g.fold (defaultForProjections.winner "session" (some "title")) = m :=
  lww_converges defaultForProjections "session" (some "title") titles ⟨⟨⟨1000, 5⟩, "act_alpha"⟩, by decide⟩
    (fun a ha b hb => (by decide : ∀ a ∈ titles, ∀ b ∈ titles, stamp a = stamp b → a = b) a ha b hb)

end ConflictPolicy

end ActantDb
