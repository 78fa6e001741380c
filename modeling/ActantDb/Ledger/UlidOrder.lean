import ActantDb.Ledger.Ulid

/-!
# The ids of one process

A process makes its ids one after the other, whatever its clock reads and whatever is drawn. An id is greater than the one before exactly when the clock has moved forward, or stands still and the random part can be counted up: a clock that goes back shows in the leading digits, and after the highest random part comes one that is drawn, which is no higher. So the ids of a process increase exactly as long as every call after the first finds its clock and its random part so.
-/

namespace ActantDb

open Digits

/-- One call: what the clock reads, and what is drawn if anything is. -/
structure UlidCall where
  now : Nat
  randomBytes : Fin 16 → UInt8

namespace Ulid

def freshRandom (call : UlidCall) : List Nat := List.ofFn fun i => (call.randomBytes i).toNat % 32

/-- What the process keeps after a call. -/
def next (u : Ulid) (call : UlidCall) : Ulid := ⟨call.now, (u.nextRandom call.now).getD (freshRandom call)⟩

/-- What it keeps after these calls. -/
def run (u : Ulid) (calls : List UlidCall) : Ulid := calls.foldl next u

/-- The ids that the calls return. -/
def ids (u : Ulid) : List UlidCall → List String
  | [] => []
  | call :: calls => (u.next call).text :: (u.next call).ids calls

/-- This is how the ledger makes its ids. -/
theorem nextUlid_eq (E : LedgerEnv) (process : Nat) (l : Ledger) :
    l.nextUlid E process = (l.ulids process).next ⟨E.now l.readings, fun i => E.randomBytes l.draws i⟩ := by
  have hdrawn : l.freshRandom E = freshRandom ⟨E.now l.readings, fun i => E.randomBytes l.draws i⟩ := by
    rw [Ledger.freshRandom, freshRandom]
    apply List.ext_getElem
    · simp
    · intro i hi hi'
      rw [List.getElem_map, List.getElem_range, List.getElem_ofFn]
  rw [Ledger.nextUlid, next, hdrawn]

section Order

variable {u : Ulid} {call : UlidCall} {calls : List UlidCall}

theorem freshRandom_bound (call : UlidCall) : ∀ d ∈ freshRandom call, d < 32 := by
  intro d hd
  obtain ⟨i, rfl⟩ := List.mem_ofFn.mp hd
  exact Nat.mod_lt _ (by decide)

theorem length_freshRandom : (freshRandom call).length = 16 := List.length_ofFn

theorem valid_next (hu : u.Valid) (hnow : call.now < 2 ^ 50) : (u.next call).Valid := by
  cases hrandom : u.nextRandom call.now with
  | none =>
    have hnext : u.next call = ⟨call.now, freshRandom call⟩ := by rw [next, hrandom, Option.getD_none]
    rw [hnext]
    exact ⟨hnow, length_freshRandom, freshRandom_bound call⟩
  | some arr =>
    have hnext : u.next call = ⟨call.now, arr⟩ := by rw [next, hrandom, Option.getD_some]
    rw [nextRandom, Option.ite_none_right_eq_some] at hrandom
    obtain ⟨hlength, -, hbound⟩ := incrementRandom_spec hrandom.2 hu.bound
    rw [hnext]
    exact ⟨hnow, hlength.trans hu.length, hbound⟩

/-- The next id is no greater when the clock goes back, or when it stands still and the random part cannot be counted up. -/
theorem not_text_lt_next (hu : u.Valid) (hnow : call.now < 2 ^ 50) (h : ¬ u.Advances call.now) :
    ¬ u.text < (u.next call).text := by
  have hvalid := valid_next hu hnow
  rcases Nat.lt_trichotomy call.now u.lastTime with hlt | heq | hlt
  · exact lt_asymm (text_lt_text hvalid hu (Or.inl hlt))
  · have hnone : incrementRandom u.lastRandom = none :=
      Option.not_isSome_iff_eq_none.mp fun hsome => h ⟨hnow, Or.inr ⟨heq, hsome⟩⟩
    have hnext : u.next call = ⟨call.now, freshRandom call⟩ := by rw [next, nextRandom, if_pos heq, hnone, Option.getD_none]
    have hhighest : ∀ d ∈ u.lastRandom, 32 ≤ d + 1 := by
      rw [incrementRandom, Option.map_eq_none_iff, incrementDigits_eq] at hnone
      exact fun d hd => highest_of_carry? hnone d (List.mem_reverse.mpr hd)
    rcases not_highest_lt hhighest (freshRandom_bound call) (hu.length.trans length_freshRandom.symm) with hlt | hsame
    · refine lt_asymm (text_lt_text hvalid hu (Or.inr ?_))
      rw [hnext]
      exact ⟨heq, hlt⟩
    · have htext : (u.next call).text = u.text := by rw [hnext, text, text, hsame, heq]
      rw [htext]
      exact lt_irrefl _
  · exact absurd ⟨hnow, Or.inl hlt⟩ h

theorem text_lt_next (hu : u.Valid) (h : u.Advances call.now) : u.text < (u.next call).text := by
  refine text_lt_text hu (valid_next hu h.1) ?_
  rcases h.2 with hlt | ⟨heq, hsome⟩
  · exact Or.inl hlt
  · obtain ⟨arr, harr⟩ := Option.isSome_iff_exists.mp hsome
    have hnext : u.next call = ⟨call.now, arr⟩ := by rw [next, nextRandom, if_pos heq, harr, Option.getD_some]
    rw [hnext]
    exact Or.inr ⟨heq.symm, (incrementRandom_spec harr hu.bound).2.1⟩

theorem text_lt_next_iff (hu : u.Valid) (hnow : call.now < 2 ^ 50) : u.text < (u.next call).text ↔ u.Advances call.now :=
  ⟨fun hlt => by_contra fun h => not_text_lt_next hu hnow h hlt, text_lt_next hu⟩

/-- Each of these calls finds that the clock has moved forward, or stands still under a random part that can be counted up. -/
def Steady (u : Ulid) (calls : List UlidCall) : Prop :=
  ∀ before call after, calls = before ++ call :: after → (u.run before).Advances call.now

theorem steady_cons : Steady u (call :: calls) ↔ u.Advances call.now ∧ Steady (u.next call) calls := by
  constructor
  · exact fun h => ⟨h [] call calls rfl, fun before c after hcalls => h (call :: before) c after (congrArg _ hcalls)⟩
  · rintro ⟨hfirst, hrest⟩ before c after hcalls
    cases before with
    | nil =>
      obtain ⟨rfl, rfl⟩ := List.cons.inj hcalls
      exact hfirst
    | cons d before =>
      obtain ⟨rfl, rfl⟩ := List.cons.inj hcalls
      exact hrest before c after rfl

theorem isChain_ids (hu : u.Valid) (hnow : ∀ call ∈ calls, call.now < 2 ^ 50) :
    (u.text :: u.ids calls).IsChain (· < ·) ↔ u.Steady calls := by
  induction calls generalizing u with
  | nil => exact ⟨fun _ before c after hcalls => absurd hcalls (by simp), fun _ => .singleton _⟩
  | cons call calls ih =>
    have hcall := hnow call List.mem_cons_self
    rw [ids, List.isChain_cons_cons, text_lt_next_iff hu hcall,
      ih (valid_next hu hcall) fun c hc => hnow c (List.mem_cons_of_mem _ hc), steady_cons]

end Order

/-- **The ids of a process strictly increase** if and only if each call after the first finds that the clock has moved forward, or stands still under a random part that can be counted up. -/
theorem ids_increase_iff (calls : List UlidCall) (hnow : ∀ call ∈ calls, call.now < 2 ^ 48) :
    (initial.ids calls).Pairwise (· < ·) ↔
      ∀ first rest, calls = first :: rest → (initial.next first).Steady rest := by
  have hwide : ∀ call ∈ calls, call.now < 2 ^ 50 := fun call hcall => lt_trans (hnow call hcall) (by decide)
  cases calls with
  | nil => exact ⟨fun _ _ _ hcalls => (nomatch hcalls), fun _ => .nil⟩
  | cons first rest =>
    have hrest : ∀ call ∈ rest, call.now < 2 ^ 50 := fun call hcall => hwide call (List.mem_cons_of_mem _ hcall)
    rw [ids, ← List.isChain_iff_pairwise, isChain_ids (valid_next valid_initial (hwide _ List.mem_cons_self)) hrest]
    refine ⟨fun h _ _ hcalls => ?_, fun h => h first rest rfl⟩
    obtain ⟨rfl, rfl⟩ := List.cons.inj hcalls
    exact h

/-- Two ids in one millisecond. -/
theorem ids_increase_iff_twice : (initial.ids [⟨10, fun _ => 0⟩, ⟨10, fun _ => 0⟩]).Pairwise (· < ·) := by
  refine (ids_increase_iff [⟨10, fun _ => 0⟩, ⟨10, fun _ => 0⟩] (by decide)).mpr ?_
  rintro _ _ ⟨⟩
  exact steady_cons.mpr ⟨by decide, fun before _ _ h => absurd h (by simp)⟩

/-- A clock that reads 10 and then 9. -/
theorem ids_decrease : ¬ (initial.ids [⟨10, fun _ => 0⟩, ⟨9, fun _ => 0⟩]).Pairwise (· < ·) := by
  intro h
  have hlt := List.rel_of_pairwise_cons h List.mem_cons_self
  exact not_text_lt_next (valid_next valid_initial (by decide)) (by decide) (by decide) hlt

end Ulid

end ActantDb
