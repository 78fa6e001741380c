import Mathlib.Data.List.Induction
import Mathlib.Order.Hom.Basic
import ActantDb.Core.HlcClock

/-!
# The step law of the clock

The packed word is the stamps that fit, in their order, and each call that returns from the loop does one of two things. Its stamp has the largest of the physical parts at hand, and is above every stamp the call was computed from; or the counter at that physical part was used up, and the stamp is the greatest of them again.
-/

namespace ActantDb

open Hlc

namespace Hlc

/-- Packing, as an isomorphism of orders. -/
def packed : {h : Hlc // h.Fits} ≃o UInt64 where
  toFun h := h.1.pack
  invFun raw := ⟨unpack raw, unpack_fits raw⟩
  left_inv h := Subtype.ext (unpack_pack h.2)
  right_inv raw := pack_unpack raw
  map_rel_iff' {a b} := by
    show a.1.pack ≤ b.1.pack ↔ a.1 ≤ b.1
    rw [← unpack_le_unpack, unpack_pack a.2, unpack_pack b.2]

end Hlc

namespace HlcClock

/-- The stamps a call computes its next one from: the one it found and, for `observe`, the remote one. -/
def Call.sources : Call → Hlc → List Hlc
  | .localTick, prev => [prev]
  | .observe remote, prev => [prev, remote]

/-- The largest of the reading and the physical parts of the sources. -/
def maxPhysical (reading : UInt64) (sources : List Hlc) : Nat :=
  (sources.map (·.physicalMs.toNat)).foldr max reading.toNat

/-- The counter at the largest physical part has no room left. -/
def UsedUp (reading : UInt64) (sources : List Hlc) : Prop :=
  ∃ h ∈ sources, h.physicalMs.toNat = maxPhysical reading sources ∧ h.logical = logicalMax

/-- What a stamp must be, given the reading and the stamps it is computed from. -/
structure StepLaw (reading : UInt64) (sources : List Hlc) (stamp : Hlc) : Prop where
  physical : stamp.physicalMs.toNat = maxPhysical reading sources
  advances : ¬ UsedUp reading sources → ∀ h ∈ sources, h < stamp
  repeats : UsedUp reading sources → stamp ∈ sources ∧ ∀ h ∈ sources, h ≤ stamp

theorem tickNext_physicalMs (physicalNow : UInt64) (prev : Hlc) :
    (tickNext physicalNow prev).physicalMs.toNat = max prev.physicalMs.toNat physicalNow.toNat := by
  rw [tickNext]
  split
  · rename_i h
    rw [gt_iff_lt, UInt64.lt_iff_toNat_lt] at h
    show physicalNow.toNat = _
    omega
  · rename_i h
    rw [gt_iff_lt, UInt64.lt_iff_toNat_lt] at h
    show prev.physicalMs.toNat = _
    omega

theorem usedUp_tick {physicalNow : UInt64} {prev : Hlc} :
    UsedUp physicalNow [prev] ↔ Saturated physicalNow prev := by
  simp only [UsedUp, maxPhysical, Saturated, List.mem_singleton, exists_eq_left, List.map_cons,
    List.map_nil, List.foldr_cons, List.foldr_nil, UInt64.le_iff_toNat_le]
  constructor
  · rintro ⟨hphysical, hlogical⟩
    exact ⟨hlogical, by omega⟩
  · rintro ⟨hlogical, hphysical⟩
    exact ⟨by omega, hlogical⟩

theorem tickNext_law {physicalNow : UInt64} {prev : Hlc} (hprev : prev.Fits) :
    StepLaw physicalNow [prev] (tickNext physicalNow prev) where
  physical := tickNext_physicalMs physicalNow prev
  advances hroom h hmem := by
    rw [List.mem_singleton] at hmem
    subst hmem
    exact tickNext_lt hprev (fun hsat => hroom (usedUp_tick.mpr hsat))
  repeats hused := by
    have hsame := tickNext_saturated (usedUp_tick.mp hused)
    refine ⟨by rw [hsame]; exact List.mem_singleton_self prev, fun h hmem => ?_⟩
    rw [hsame, List.mem_singleton.mp hmem]

theorem logical_eq_max_iff {h : Hlc} : h.logical = logicalMax ↔ h.logical.toNat = 2 ^ 16 - 1 := by
  rw [← UInt32.toNat_inj, logicalMax_toNat]

theorem usedUp_observe {physicalNow : UInt64} {prev remote : Hlc} :
    UsedUp physicalNow [prev, remote] ↔
      (prev.physicalMs.toNat = max (max prev.physicalMs.toNat remote.physicalMs.toNat) physicalNow.toNat ∧
          prev.logical.toNat = 2 ^ 16 - 1) ∨
        (remote.physicalMs.toNat =
            max (max prev.physicalMs.toNat remote.physicalMs.toNat) physicalNow.toNat ∧
          remote.logical.toNat = 2 ^ 16 - 1) := by
  simp only [UsedUp, maxPhysical, List.mem_cons, List.not_mem_nil, or_false, List.map_cons,
    List.map_nil, List.foldr_cons, List.foldr_nil, ← max_assoc, exists_eq_or_imp, exists_eq_left,
    logical_eq_max_iff]

/-- The three physical parts and the two counters of an `observe`, case by case of which parts are the largest. -/
theorem observeNext_law {physicalNow : UInt64} {prev remote : Hlc} (hprev : prev.Fits)
    (hremote : remote.Fits) :
    StepLaw physicalNow [prev, remote] (observeNext remote physicalNow prev) := by
  have hp := observeNext_physicalMs remote physicalNow prev
  have hl := observeNext_logical remote physicalNow prev
  have hprevl := hprev.2
  have hremotel := hremote.2
  simp only at hl
  refine ⟨?_, ?_, ?_⟩
  · rw [hp, max_assoc]
    rfl
  · intro hroom
    rw [usedUp_observe] at hroom
    simp only [List.mem_cons, List.not_mem_nil, or_false, forall_eq_or_imp, forall_eq, lt_iff]
    split_ifs at hl <;> constructor <;> omega
  · intro hused
    rw [usedUp_observe] at hused
    have hbound : prev ≤ observeNext remote physicalNow prev ∧
        remote ≤ observeNext remote physicalNow prev :=
      ⟨le_observeNext hprev, remote_le_observeNext ⟨hremote.1, Or.inl hremote.2⟩⟩
    refine ⟨?_, by simpa using hbound⟩
    rw [List.mem_cons, List.mem_singleton]
    rcases hused with ⟨hphysical, hlogical⟩ | ⟨hphysical, hlogical⟩
    · refine Or.inl (le_antisymm ?_ hbound.1)
      rw [le_iff]
      split_ifs at hl <;> omega
    · refine Or.inr (le_antisymm ?_ hbound.2)
      rw [le_iff]
      split_ifs at hl <;> omega

/-! ### Where a call's reading comes from -/

variable {ι : Type*} [DecidableEq ι]

/-- The reading a phase holds is the one its call was started with. -/
def Phase.StartedIn (labels : List (Label ι)) (i : ι) : Phase → Prop
  | .idle => True
  | .loop call physicalNow => ∃ reading, .start i call reading ∈ labels ∧ reading &&& physicalMask = physicalNow
  | .swap call physicalNow _ => ∃ reading, .start i call reading ∈ labels ∧ reading &&& physicalMask = physicalNow

omit [DecidableEq ι] in
theorem Phase.StartedIn.append {labels : List (Label ι)} {i : ι} {phase : Phase}
    (h : phase.StartedIn labels i) (l : Label ι) : phase.StartedIn (labels ++ [l]) i := by
  cases phase with
  | idle => trivial
  | loop call physicalNow =>
    obtain ⟨reading, hmem, hmask⟩ := h
    exact ⟨reading, List.mem_append_left _ hmem, hmask⟩
  | swap call physicalNow raw =>
    obtain ⟨reading, hmem, hmask⟩ := h
    exact ⟨reading, List.mem_append_left _ hmem, hmask⟩

/-- The phases of all threads after a step, from those before it. -/
theorem startedIn_step {c : Clock ι} {labels : List (Label ι)} (l : Label ι)
    (h : ∀ i, (c.thread i).StartedIn labels i) (i : ι) :
    ((step c l).thread i).StartedIn (labels ++ [l]) i := by
  have hkeep := (h i).append l
  have hset : ∀ j phase, phase.StartedIn (labels ++ [l]) j →
      (Function.update c.thread j phase i).StartedIn (labels ++ [l]) i := by
    intro j phase hphase
    by_cases hij : i = j
    · subst hij
      rwa [Function.update_self]
    · rwa [Function.update_of_ne hij]
  cases l with
  | start j call reading =>
    simp only [step]
    split
    · exact hset j _ ⟨reading, by simp, rfl⟩
    · exact hkeep
  | load j =>
    simp only [step]
    split
    · rename_i call physicalNow hphase
      have hj := (h j).append (.load j)
      rw [hphase] at hj
      exact hset j _ hj
    · exact hkeep
  | compareExchange j =>
    simp only [step]
    split
    · rename_i call physicalNow raw hphase
      have hj := (h j).append (.compareExchange j)
      rw [hphase] at hj
      split
      · exact hset j _ trivial
      · exact hset j _ hj
    · exact hkeep

theorem startedIn_run (initial : Hlc) (labels : List (Label ι)) (i : ι) :
    ((Lts.run step (new initial) labels).thread i).StartedIn labels i := by
  induction labels using List.reverseRecOn generalizing i with
  | nil => trivial
  | append_singleton labels l ih =>
    rw [Lts.run_append, Lts.run_cons, Lts.run_nil]
    exact startedIn_step l ih i

theorem returns_started {initial : Hlc} {labels : List (Label ι)} {l : Label ι} {r : Returned}
    (hr : returns (Lts.run step (new initial) labels) l = some r) :
    ∃ i reading, .start i r.call reading ∈ labels ∧ reading &&& physicalMask = r.physicalNow := by
  cases l with
  | start i call reading => simp [returns] at hr
  | load i => simp [returns] at hr
  | compareExchange i =>
    have hi := startedIn_run initial labels i
    simp only [returns] at hr
    split at hr
    · rename_i call physicalNow raw hphase
      rw [hphase] at hi
      split at hr <;> cases hr
      exact ⟨i, hi⟩
    · cases hr

theorem masked_eq {reading : UInt64} (h : reading.toNat < 2 ^ 48) : reading &&& physicalMask = reading := by
  apply UInt64.toNat_inj.mp
  rw [masked_toNat, Nat.mod_eq_of_lt h]

/-- **The step law.** Packing is an isomorphism of orders from the stamps that fit onto the 64-bit words, with `unpack` as its inverse. In every interleaving whose readings and remote stamps fit, a call that returns replaces the stamp it found by the one it returns, and that stamp is the one the law asks for, given the reading its call started with. -/
theorem hlc_step_law (initial : Hlc) (labels : List (Label ι))
    (hreadings : ∀ i call reading, .start i call reading ∈ labels →
      reading.toNat < 2 ^ 48 ∧ ∀ remote, call = .observe remote → remote.Fits) :
    (∀ h : {h : Hlc // h.Fits}, packed h = h.1.pack ∧ unpack (packed h) = h.1) ∧
      (∀ raw, (packed.symm raw).1 = unpack raw ∧ (unpack raw).pack = raw) ∧
      ∀ pre l post r, labels = pre ++ l :: post → returns (Lts.run step (new initial) pre) l = some r →
        r.prev = (Lts.run step (new initial) pre).peek ∧
          (step (Lts.run step (new initial) pre) l).peek = r.stamp ∧
          ∃ i reading, .start i r.call reading ∈ pre ∧
            StepLaw reading (r.call.sources r.prev) r.stamp := by
  refine ⟨fun h => ⟨rfl, unpack_pack h.2⟩, fun raw => ⟨rfl, pack_unpack raw⟩, ?_⟩
  rintro pre l post r rfl hr
  obtain ⟨hpeek, -, hprev, hstamp⟩ := step_of_returns hr
  obtain ⟨i, reading, hstart, hmask⟩ := returns_started hr
  obtain ⟨hreading, hremotes⟩ := hreadings i r.call reading (List.mem_append_left _ hstart)
  rw [masked_eq hreading] at hmask
  have hfits : r.prev.Fits := hprev ▸ unpack_fits _
  have hnow : r.physicalNow.toNat < 2 ^ 48 := hmask ▸ hreading
  have hlaw : StepLaw r.physicalNow (r.call.sources r.prev) r.stamp ∧ r.stamp.Fits := by
    rw [hstamp]
    cases hcall : r.call with
    | localTick => exact ⟨tickNext_law hfits, tickNext_fits hnow hfits⟩
    | observe remote =>
      have hremote := hremotes remote hcall
      exact ⟨observeNext_law hfits hremote, observeNext_fits hnow hfits hremote.1⟩
  refine ⟨hprev, ?_, i, reading, hstart, ?_⟩
  · rw [hpeek, unpack_pack hlaw.2]
  · rw [hmask]
    exact hlaw.1

/-- A remote stamp whose counter is used up, at the physical part of the clock: the call returns that stamp again. -/
theorem hlc_step_law_observe : StepLaw 90 [⟨100, 7⟩, ⟨100, 65535⟩] ⟨100, 65535⟩ := by
  have hreadings : ∀ i call reading,
      Label.start i call reading ∈
        [.start () (.observe ⟨100, 65535⟩) 90, .load (), .compareExchange ()] →
      reading.toNat < 2 ^ 48 ∧ ∀ remote, call = .observe remote → remote.Fits := by
    intro i call reading hmem
    obtain ⟨rfl, rfl⟩ : call = .observe ⟨100, 65535⟩ ∧ reading = 90 := by simpa using hmem
    refine ⟨by decide, ?_⟩
    rintro remote ⟨⟩
    exact ⟨by decide, by decide⟩
  obtain ⟨-, -, h⟩ := hlc_step_law ⟨100, 7⟩ _ hreadings
  obtain ⟨-, -, i, reading, hstart, hlaw⟩ :=
    h [.start () (.observe ⟨100, 65535⟩) 90, .load ()] (.compareExchange ()) []
      ⟨.observe ⟨100, 65535⟩, 90, ⟨100, 7⟩, ⟨100, 65535⟩⟩ rfl (by decide)
  have hreading : reading = 90 := by simpa using hstart
  rwa [hreading] at hlaw

end HlcClock

end ActantDb
