import Mathlib.Data.String.Basic
import ActantDb.Lib.Digits
import ActantDb.Ledger.Ledger

/-!
# The order of ULIDs

An id is a numeral in base 32: ten digits of the clock, sixteen random ones. The next id of a process is greater than its last when the clock has moved forward, or stands still and the random part can be counted up. A clock that goes back, one past `2 ^ 50`, and a random part at its highest are the three ways out.
-/

namespace ActantDb

open Digits

/-- The text of a process' last id. -/
def Ulid.text (u : Ulid) : String := String.ofList (encodeTime u.lastTime 10 ++ u.lastRandom.map encodeDigit)

/-- Sixteen digits, and a time that ten digits hold. -/
structure Ulid.Valid (u : Ulid) : Prop where
  time : u.lastTime < 2 ^ 50
  length : u.lastRandom.length = 16
  bound : ∀ d ∈ u.lastRandom, d < 32

/-- The reading at which a process makes an id lets the id be greater than the last one. -/
def Ulid.Advances (u : Ulid) (now : Nat) : Prop :=
  now < 2 ^ 50 ∧ (u.lastTime < now ∨ now = u.lastTime ∧ (incrementRandom u.lastRandom).isSome)

instance (u : Ulid) (now : Nat) : Decidable (u.Advances now) :=
  inferInstanceAs (Decidable (_ ∧ _))

theorem valid_initial : Ulid.initial.Valid := by
  refine ⟨by decide, rfl, fun d hd => ?_⟩
  rw [List.eq_of_mem_replicate hd]
  decide

theorem encodeDigit_lt : ∀ d < 32, ∀ d' < 32, d < d' → encodeDigit d < encodeDigit d' := by decide

theorem encodeTime_eq (now len : Nat) : encodeTime now len = (digits 32 now len).map encodeDigit := by
  induction len generalizing now with
  | zero => rfl
  | succ len ih =>
    rw [encodeTime, digits, List.map_append, ih, List.map_singleton, encodeDigit, encodeDigit, Nat.mod_mod]

theorem incrementDigits_eq (ds : List Nat) : incrementDigits ds = carry? 32 ds := by
  induction ds with
  | nil => rfl
  | cons d rest ih =>
    rw [incrementDigits, carry?, ih]
    exact if_congr (by omega) rfl rfl

theorem incrementRandom_spec {arr arr' : List Nat} (h : incrementRandom arr = some arr')
    (hbound : ∀ d ∈ arr, d < 32) : arr'.length = arr.length ∧ arr < arr' ∧ ∀ d ∈ arr', d < 32 := by
  obtain ⟨ds, hds, rfl⟩ := Option.map_eq_some_iff.mp h
  rw [incrementDigits_eq] at hds
  obtain ⟨hlength, hlt, hbound'⟩ := carry?_spec (by decide) hds
  rw [List.reverse_reverse] at hlt
  refine ⟨by simpa using hlength, hlt, fun d hd => ?_⟩
  exact hbound' (fun x hx => hbound x (List.mem_reverse.mp hx)) d (List.mem_reverse.mp hd)

theorem map_encodeDigit_lt {s t : List Nat} (hs : ∀ d ∈ s, d < 32) (ht : ∀ d ∈ t, d < 32) (h : s < t)
    (hlength : s.length = t.length) : s.map encodeDigit < t.map encodeDigit :=
  map_lt_map (p := fun d => d < 32) (fun a b ha hb => encodeDigit_lt a ha b hb) hs ht h hlength

theorem text_lt_text {u v : Ulid} (hu : u.Valid) (hv : v.Valid)
    (h : u.lastTime < v.lastTime ∨ u.lastTime = v.lastTime ∧ u.lastRandom < v.lastRandom) :
    u.text < v.text := by
  rw [String.lt_iff_toList_lt, Ulid.text, Ulid.text, String.toList_ofList, String.toList_ofList]
  rcases h with hlt | ⟨heq, hlt⟩
  · refine append_lt_append_of_lt ?_ (by simp [encodeTime_eq]) _ _
    rw [encodeTime_eq, encodeTime_eq]
    have hwidth : v.lastTime < 32 ^ 10 := lt_of_lt_of_le hv.time (by decide)
    exact map_encodeDigit_lt (fun d hd => lt_of_mem_digits (by decide) hd)
      (fun d hd => lt_of_mem_digits (by decide) hd) (digits_lt_digits hlt hwidth) (by simp)
  · rw [heq]
    exact List.append_left_lt (map_encodeDigit_lt hu.bound hv.bound hlt (hu.length.trans hv.length.symm))

section Next

variable {E : LedgerEnv} {process : Nat} {l : Ledger}

theorem freshRandom_spec : (l.freshRandom E).length = 16 ∧ ∀ d ∈ l.freshRandom E, d < 32 := by
  refine ⟨by simp [Ledger.freshRandom], fun d hd => ?_⟩
  obtain ⟨i, -, rfl⟩ := List.mem_map.mp hd
  exact Nat.mod_lt _ (by decide)

/-- **The next id is greater** and again of the expected shape. -/
theorem nextUlid_advances (hvalid : (l.ulids process).Valid)
    (h : (l.ulids process).Advances (E.now l.readings)) :
    (l.nextUlid E process).Valid ∧ (l.ulids process).text < (l.nextUlid E process).text := by
  obtain ⟨htime, hmoves⟩ := h
  rcases hmoves with hlt | ⟨heq, hsome⟩
  · have hdrawn : (l.ulids process).nextRandom (E.now l.readings) = none := by
      rw [Ulid.nextRandom, if_neg hlt.ne']
    have hnext : l.nextUlid E process = ⟨E.now l.readings, l.freshRandom E⟩ := by
      rw [Ledger.nextUlid, hdrawn]
      rfl
    have hnextValid : (l.nextUlid E process).Valid := by
      rw [hnext]
      exact ⟨htime, freshRandom_spec.1, freshRandom_spec.2⟩
    refine ⟨hnextValid, text_lt_text hvalid hnextValid (Or.inl ?_)⟩
    rw [hnext]
    exact hlt
  · obtain ⟨arr, harr⟩ := Option.isSome_iff_exists.mp hsome
    obtain ⟨hlength, hlt, hbound⟩ := incrementRandom_spec harr hvalid.bound
    have hnext : l.nextUlid E process = ⟨E.now l.readings, arr⟩ := by
      rw [Ledger.nextUlid, Ulid.nextRandom, if_pos heq, harr]
      rfl
    have hnextValid : (l.nextUlid E process).Valid := by
      rw [hnext]
      exact ⟨htime, hlength.trans hvalid.length, hbound⟩
    refine ⟨hnextValid, text_lt_text hvalid hnextValid (Or.inr ?_)⟩
    rw [hnext]
    exact ⟨heq.symm, hlt⟩

end Next

end ActantDb
