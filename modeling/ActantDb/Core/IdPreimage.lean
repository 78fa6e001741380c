import ActantDb.Core.Ids
import Mathlib.Algebra.Ring.Nat

/-!
# What determines a content-derived id

The id is the hash of four parts laid end to end, of which the first and the last have no length of their own. Two triples are hashed alike when they are one triple, and also when the boundary of the payload can be moved: what one triple writes of its stamp and actor is then the end of the other's payload.
-/

namespace ActantDb

/-- What is written after the payload. -/
def stampBytes (hlc : Hlc) (actor : ActorId) : List UInt8 :=
  beBytes64 hlc.physicalMs ++ beBytes32 hlc.logical ++ asBytes actor

/-- What a content-derived id is derived from. -/
structure IdSource where
  payload : List UInt8
  hlc : Hlc
  actor : ActorId
deriving DecidableEq

def IdSource.preimage (t : IdSource) : List UInt8 := idPreimage t.payload t.hlc t.actor

/-- The payload of the second goes on, after that of the first, with the beginning of what the first writes after it; what is left of this is what the second writes. -/
def IdSource.Shifted (t t' : IdSource) : Prop :=
  ∃ moved, moved ≠ [] ∧ t'.payload = t.payload ++ moved ∧
    stampBytes t.hlc t.actor = moved ++ stampBytes t'.hlc t'.actor

theorem beBytes64_length (x : UInt64) : (beBytes64 x).length = 8 := rfl

theorem beBytes32_length (x : UInt32) : (beBytes32 x).length = 4 := rfl

/-- The number whose digits to base 256 are the bytes, the first one leading. -/
def ofBytes (bytes : List UInt8) : Nat := bytes.foldl (fun n b => n * 256 + b.toNat) 0

theorem ofBytes_beBytes64 (x : UInt64) : ofBytes (beBytes64 x) = x.toNat := by
  have hx := x.toNat_lt
  simp only [ofBytes, beBytes64, List.map_cons, List.map_nil, List.foldl_cons, List.foldl_nil,
    UInt64.toNat_toUInt8, UInt64.toNat_shiftRight, Nat.shiftRight_eq_div_pow, UInt64.reduceToNat,
    Nat.reduceMod, Nat.reducePow]
  omega

theorem ofBytes_beBytes32 (x : UInt32) : ofBytes (beBytes32 x) = x.toNat := by
  have hx := x.toNat_lt
  simp only [ofBytes, beBytes32, List.map_cons, List.map_nil, List.foldl_cons, List.foldl_nil,
    UInt32.toNat_toUInt8, UInt32.toNat_shiftRight, Nat.shiftRight_eq_div_pow, UInt32.reduceToNat,
    Nat.reduceMod, Nat.reducePow]
  omega

theorem beBytes64_injective : Function.Injective beBytes64 := fun x y h =>
  UInt64.toNat_inj.mp (by rw [← ofBytes_beBytes64, h, ofBytes_beBytes64])

theorem beBytes32_injective : Function.Injective beBytes32 := fun x y h =>
  UInt32.toNat_inj.mp (by rw [← ofBytes_beBytes32, h, ofBytes_beBytes32])

theorem asBytes_injective : Function.Injective asBytes := by
  intro s t h
  rw [asBytes, asBytes, Array.toList_inj] at h
  exact String.toByteArray_inj.mp (ByteArray.ext h)

/-- Stamp and actor can be read back, the stamp being of fixed width. -/
theorem stampBytes_inj {hlc hlc' : Hlc} {actor actor' : ActorId}
    (h : stampBytes hlc actor = stampBytes hlc' actor') : hlc = hlc' ∧ actor = actor' := by
  obtain ⟨hstamp, hactor⟩ := List.append_inj h rfl
  obtain ⟨hphysical, hlogical⟩ := List.append_inj hstamp rfl
  obtain ⟨physicalMs, logical⟩ := hlc
  obtain ⟨physicalMs', logical'⟩ := hlc'
  have hp : physicalMs = physicalMs' := beBytes64_injective hphysical
  have hl : logical = logical' := beBytes32_injective hlogical
  exact ⟨by rw [hp, hl], asBytes_injective hactor⟩

theorem IdSource.preimage_eq (t : IdSource) : t.preimage = t.payload ++ stampBytes t.hlc t.actor := by
  simp [preimage, idPreimage, stampBytes, List.append_assoc]

theorem IdSource.ext_of_payload {t t' : IdSource} (hpayload : t.payload = t'.payload)
    (h : t.preimage = t'.preimage) : t = t' := by
  rw [preimage_eq, preimage_eq, hpayload, List.append_cancel_left_eq] at h
  obtain ⟨hhlc, hactor⟩ := stampBytes_inj h
  obtain ⟨payload, hlc, actor⟩ := t
  obtain ⟨payload', hlc', actor'⟩ := t'
  subst hpayload hhlc hactor
  rfl

theorem IdSource.Shifted.preimage_eq {t t' : IdSource} (h : t.Shifted t') : t.preimage = t'.preimage := by
  obtain ⟨moved, -, hpayload, hstamp⟩ := h
  rw [t.preimage_eq, t'.preimage_eq, hpayload, hstamp, List.append_assoc]

theorem IdSource.Shifted.length_lt {t t' : IdSource} (h : t.Shifted t') :
    t.payload.length < t'.payload.length := by
  obtain ⟨moved, hmoved, hpayload, -⟩ := h
  have := List.length_pos_iff.mpr hmoved
  rw [hpayload, List.length_append]
  omega

/-- The bytes that were moved come out of the actor's length. -/
theorem IdSource.Shifted.actor_lt {t t' : IdSource} (h : t.Shifted t') :
    (asBytes t'.actor).length < (asBytes t.actor).length := by
  obtain ⟨moved, hmoved, -, hstamp⟩ := h
  have hpos := List.length_pos_iff.mpr hmoved
  have hlength := congrArg List.length hstamp
  simp only [stampBytes, List.length_append, beBytes64_length, beBytes32_length] at hlength
  omega

/-- **What two equal preimages say**: the triples are equal, or one is the other with the boundary of its payload moved. The second cannot be when the payloads, or the actor ids, are of one length. -/
theorem preimages_eq_iff (t t' : IdSource) :
    (t.preimage = t'.preimage ↔ t = t' ∨ t.Shifted t' ∨ t'.Shifted t) ∧
      (t.payload.length = t'.payload.length ∨ (asBytes t.actor).length = (asBytes t'.actor).length →
        t.preimage = t'.preimage → t = t') := by
  have hiff : t.preimage = t'.preimage ↔ t = t' ∨ t.Shifted t' ∨ t'.Shifted t := by
    constructor
    · intro h
      have h' := h
      rw [t.preimage_eq, t'.preimage_eq, List.append_eq_append_iff] at h'
      rcases h' with ⟨moved, hpayload, hstamp⟩ | ⟨moved, hpayload, hstamp⟩
      · by_cases hmoved : moved = []
        · subst hmoved
          exact Or.inl (IdSource.ext_of_payload (by rw [hpayload, List.append_nil]) h)
        · exact Or.inr (Or.inl ⟨moved, hmoved, hpayload, hstamp⟩)
      · by_cases hmoved : moved = []
        · subst hmoved
          exact Or.inl (IdSource.ext_of_payload (by rw [hpayload, List.append_nil]) h)
        · exact Or.inr (Or.inr ⟨moved, hmoved, hpayload, hstamp⟩)
    · rintro (rfl | h | h)
      · rfl
      · exact h.preimage_eq
      · exact h.preimage_eq.symm
  refine ⟨hiff, fun hlength h => ?_⟩
  rcases hiff.mp h with heq | hshift | hshift
  · exact heq
  · have := hshift.length_lt
    have := hshift.actor_lt
    omega
  · have := hshift.length_lt
    have := hshift.actor_lt
    omega

/-- The payload `1` and the payload `12`: the second digit is read as the first byte of a physical part, and the actors `aa` and `a` differ by the byte that this moves. -/
theorem preimage_shifts :
    ¬ ∀ t t' : IdSource, t.preimage = t'.preimage → t = t' := by
  intro h
  have heq := h ⟨[0x31], ⟨0x3200000000000000, 0x61⟩, "aa"⟩ ⟨[0x31, 0x32], ⟨0, 0x6161⟩, "a"⟩ (by decide)
  revert heq
  decide

end ActantDb
