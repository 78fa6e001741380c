import Mathlib.Order.Basic
import Mathlib.Order.Lattice
import Mathlib.Data.Nat.Bitwise

/-!
# The hybrid logical clock's stamp and its packed word

A stamp is a pair of a physical millisecond reading and a logical counter, ordered with the physical part first. The clock keeps its stamp in one 64-bit word: the low 48 bits of the physical part above the low 16 bits of the counter. Everything the clock's proofs know about the word is here: packing is exact on the stamps whose two parts fit their bits (`Hlc.Fits`), and nothing outside them can be read back.
-/

namespace ActantDb

/-- One reading of the clock. -/
structure Hlc where
  physicalMs : UInt64
  logical : UInt32
deriving DecidableEq, Repr

namespace Hlc

def zero : Hlc := ⟨0, 0⟩

/-- The stamp as one number. The counter has 32 bits, so comparing ranks is comparing the physical parts and then the counters. -/
def rank (h : Hlc) : Nat := h.physicalMs.toNat * 2 ^ 32 + h.logical.toNat

theorem rank_injective : Function.Injective rank := by
  intro a b h
  obtain ⟨ap, al⟩ := a
  obtain ⟨bp, bl⟩ := b
  have ha := al.toNat_lt
  have hb := bl.toNat_lt
  simp only [rank] at h
  have hp : ap.toNat = bp.toNat := by omega
  have hl : al.toNat = bl.toNat := by omega
  rw [UInt64.toNat_inj.mp hp, UInt32.toNat_inj.mp hl]

/-- The derived order of the source: physical part first, counter second. -/
instance : LinearOrder Hlc := LinearOrder.lift' rank rank_injective

theorem le_iff_rank {a b : Hlc} : a ≤ b ↔ a.rank ≤ b.rank := Iff.rfl

theorem lt_iff_rank {a b : Hlc} : a < b ↔ a.rank < b.rank := Iff.rfl

theorem le_iff {a b : Hlc} :
    a ≤ b ↔ a.physicalMs.toNat < b.physicalMs.toNat ∨
      (a.physicalMs.toNat = b.physicalMs.toNat ∧ a.logical.toNat ≤ b.logical.toNat) := by
  have ha := a.logical.toNat_lt
  have hb := b.logical.toNat_lt
  rw [le_iff_rank]
  simp only [rank]
  omega

theorem lt_iff {a b : Hlc} :
    a < b ↔ a.physicalMs.toNat < b.physicalMs.toNat ∨
      (a.physicalMs.toNat = b.physicalMs.toNat ∧ a.logical.toNat < b.logical.toNat) := by
  have ha := a.logical.toNat_lt
  have hb := b.logical.toNat_lt
  rw [lt_iff_rank]
  simp only [rank]
  omega

def logicalBits : UInt64 := 16
def logicalMask : UInt64 := (1 <<< logicalBits) - 1
def physicalMask : UInt64 := (1 <<< (64 - logicalBits)) - 1
def logicalMax : UInt32 := logicalMask.toUInt32

/-- Pack into the word the clock stores. -/
def pack (h : Hlc) : UInt64 :=
  ((h.physicalMs &&& physicalMask) <<< logicalBits) ||| (h.logical.toUInt64 &&& logicalMask)

/-- Read a stored word back. -/
def unpack (raw : UInt64) : Hlc where
  physicalMs := (raw >>> logicalBits) &&& physicalMask
  logical := (raw &&& logicalMask).toUInt32

/-- The stamps the packed word can hold. -/
def Fits (h : Hlc) : Prop := h.physicalMs.toNat < 2 ^ 48 ∧ h.logical.toNat < 2 ^ 16

@[simp] theorem physicalMask_toNat : physicalMask.toNat = 2 ^ 48 - 1 := by decide
@[simp] theorem logicalMask_toNat : logicalMask.toNat = 2 ^ 16 - 1 := by decide
@[simp] theorem logicalMax_toNat : logicalMax.toNat = 2 ^ 16 - 1 := by decide
@[simp] theorem logicalBits_toNat : logicalBits.toNat = 16 := by decide

theorem masked_toNat (x : UInt64) : (x &&& physicalMask).toNat = x.toNat % 2 ^ 48 := by
  rw [UInt64.toNat_and, physicalMask_toNat, Nat.and_two_pow_sub_one_eq_mod]

theorem pack_toNat (h : Hlc) :
    h.pack.toNat = h.physicalMs.toNat % 2 ^ 48 * 2 ^ 16 + h.logical.toNat % 2 ^ 16 := by
  have hlow : h.logical.toNat % 2 ^ 16 < 2 ^ 16 := Nat.mod_lt _ (by decide)
  have hhigh : h.physicalMs.toNat % 2 ^ 48 * 2 ^ 16 < 2 ^ 64 := by omega
  have hshift : ((h.physicalMs &&& physicalMask) <<< logicalBits).toNat =
      (h.physicalMs.toNat % 2 ^ 48) <<< 16 := by
    rw [UInt64.toNat_shiftLeft, masked_toNat, logicalBits_toNat, Nat.shiftLeft_eq]
    exact Nat.mod_eq_of_lt hhigh
  have hcounter : (h.logical.toUInt64 &&& logicalMask).toNat = h.logical.toNat % 2 ^ 16 := by
    rw [UInt64.toNat_and, logicalMask_toNat, Nat.and_two_pow_sub_one_eq_mod,
      UInt32.toNat_toUInt64]
  rw [pack, UInt64.toNat_or, hshift, hcounter, ← Nat.shiftLeft_add_eq_or_of_lt hlow,
    Nat.shiftLeft_eq]

theorem unpack_physicalMs (raw : UInt64) :
    (unpack raw).physicalMs.toNat = raw.toNat / 2 ^ 16 := by
  have := raw.toNat_lt
  rw [unpack, masked_toNat, UInt64.toNat_shiftRight, logicalBits_toNat, Nat.shiftRight_eq_div_pow,
    show 16 % 64 = 16 from rfl]
  omega

theorem unpack_logical (raw : UInt64) : (unpack raw).logical.toNat = raw.toNat % 2 ^ 16 := by
  rw [unpack, UInt64.toNat_toUInt32, UInt64.toNat_and, logicalMask_toNat,
    Nat.and_two_pow_sub_one_eq_mod]
  omega

theorem unpack_fits (raw : UInt64) : (unpack raw).Fits := by
  have := raw.toNat_lt
  rw [Fits, unpack_physicalMs, unpack_logical]
  omega

/-- Packing is exact on the stamps that fit. -/
theorem unpack_pack {h : Hlc} (hfits : h.Fits) : unpack h.pack = h := by
  obtain ⟨hp, hl⟩ := hfits
  apply rank_injective
  simp only [rank, unpack_physicalMs, unpack_logical, pack_toNat]
  omega

theorem pack_unpack (raw : UInt64) : (unpack raw).pack = raw := by
  apply UInt64.toNat_inj.mp
  have hfits := unpack_fits raw
  rw [Fits] at hfits
  rw [pack_toNat, Nat.mod_eq_of_lt hfits.1, Nat.mod_eq_of_lt hfits.2, unpack_physicalMs,
    unpack_logical]
  omega

/-- The packed words are ordered as their stamps are. -/
theorem unpack_le_unpack {a b : UInt64} : unpack a ≤ unpack b ↔ a ≤ b := by
  rw [le_iff, unpack_physicalMs, unpack_physicalMs, unpack_logical, unpack_logical,
    UInt64.le_iff_toNat_le]
  omega

end Hlc

end ActantDb
