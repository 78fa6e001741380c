import ActantDb.Context.Firewall
import Mathlib.Algebra.Ring.Nat

/-!
# The token budget

The running total is a machine word, and it is the sum that has wrapped which is compared with the budget. As long as no item that passes the other filters takes the true sum past the word and the wrapped one under the budget again, the total is the sum of what was included; once one does, it never is again.
-/

namespace ActantDb.Context

variable (X : Crates) (opts : BuildOptions)

/-- The item passes every check but that of the budget. -/
def Passes (item : CandidateItem) : Prop :=
  item.sensitivity.rank ≤ opts.sensitivityCeiling.rank ∧
    ¬ (item.sensitivity = .secret ∧ opts.requiredVisibility = "cloud_model_allowed") ∧
    matchesDeny X opts item.content = false

instance (item : CandidateItem) : Decidable (Passes X opts item) :=
  inferInstanceAs (Decidable (_ ∧ _ ∧ _))

/-- What has been spent after an item, counted without a bound. -/
def trueSpend (total : Nat) (item : CandidateItem) : Nat :=
  if Passes X opts item ∧ total + item.tokens.toNat ≤ opts.tokenBudget.toNat then total + item.tokens.toNat
  else total

/-- The sum leaves the word and is under the budget again. -/
def WrapsAt (total : Nat) (item : CandidateItem) : Prop :=
  Passes X opts item ∧ 2 ^ 64 ≤ total + item.tokens.toNat ∧
    total + item.tokens.toNat - 2 ^ 64 ≤ opts.tokenBudget.toNat

instance (total : Nat) (item : CandidateItem) : Decidable (WrapsAt X opts total item) :=
  inferInstanceAs (Decidable (_ ∧ _ ∧ _))

/-- Some item takes the sum out of the word and under the budget. -/
def WrapsFrom (total : Nat) (items : List CandidateItem) : Prop :=
  ∃ before item after, items = before ++ item :: after ∧
    WrapsAt X opts (before.foldl (trueSpend X opts) total) item

/-- The row of an item that does not enter the manifest. -/
def CandidateItem.blocked (item : CandidateItem) (reason : String) : BlockedItem :=
  ⟨item.id, item.kind, item.sensitivity, reason⟩

/-- The sum of the token counts that the manifest lists. -/
def Manifest.tokenSum (m : Manifest) : Nat := (m.included.map fun i => (i.tokenCount.getD 0).toNat).sum

/-- The manifest accounts for its items: the total is the sum of the included token counts and within the budget, and each item has its row in one of the two lists, in order. -/
structure Budgeted (items : List CandidateItem) : Prop where
  total : (build X opts items).totalTokens.toNat = (build X opts items).tokenSum
  bounded : (build X opts items).tokenSum ≤ opts.tokenBudget.toNat
  parts : ∃ reasons : List (Option String), reasons.length = items.length ∧
    (build X opts items).included =
      ((items.zip reasons).filter (·.2 = none)).map (fun v => v.1.included X) ∧
    (build X opts items).blocked = (items.zip reasons).filterMap fun v => v.2.map v.1.blocked

variable {X opts}

/-! ### The two lists -/

theorem visit_blocked (walk : Walk) (item : CandidateItem) :
    (visit X opts walk item).blocked = walk.blocked ++
      ((blockedReason X opts walk.totalTokens item).map item.blocked).toList := by
  rw [visit]
  cases blockedReason X opts walk.totalTokens item with
  | some reason => rfl
  | none => simp

theorem foldl_visit_blocked (items : List CandidateItem) (walk : Walk) :
    (items.foldl (visit X opts) walk).blocked = walk.blocked ++
      (verdicts X opts walk.totalTokens items).filterMap fun v => v.2.map v.1.blocked := by
  induction items generalizing walk with
  | nil => simp [verdicts]
  | cons item rest ih =>
    rw [List.foldl_cons, ih, visit_blocked, visit_spend, verdicts, List.append_assoc, List.filterMap_cons]
    cases blockedReason X opts walk.totalTokens item <;> rfl

theorem foldl_visit_totalTokens (items : List CandidateItem) (walk : Walk) :
    (items.foldl (visit X opts) walk).totalTokens = items.foldl (spend X opts) walk.totalTokens := by
  induction items generalizing walk with
  | nil => rfl
  | cons item rest ih => rw [List.foldl_cons, ih, visit_spend, List.foldl_cons]

theorem verdicts_eq_zip (total : UInt64) (items : List CandidateItem) :
    verdicts X opts total items = items.zip ((verdicts X opts total items).map (·.2)) := by
  induction items generalizing total with
  | nil => rfl
  | cons item rest ih =>
    rw [verdicts, List.map_cons, List.zip_cons_cons, ← ih]

theorem verdicts_length (total : UInt64) (items : List CandidateItem) :
    (verdicts X opts total items).length = items.length := by
  induction items generalizing total with
  | nil => rfl
  | cons item rest ih => rw [verdicts, List.length_cons, ih, List.length_cons]

/-- Each item has its row in one of the two lists, whatever the total is. -/
theorem build_parts (items : List CandidateItem) :
    ∃ reasons : List (Option String), reasons.length = items.length ∧
      (build X opts items).included =
        ((items.zip reasons).filter (·.2 = none)).map (fun v => v.1.included X) ∧
      (build X opts items).blocked = (items.zip reasons).filterMap fun v => v.2.map v.1.blocked := by
  refine ⟨(verdicts X opts 0 items).map (·.2), ?_, ?_, ?_⟩
  · rw [List.length_map, verdicts_length]
  · rw [← verdicts_eq_zip, build_included, admitted, List.map_map]
    rfl
  · rw [← verdicts_eq_zip]
    exact (foldl_visit_blocked items ⟨[], [], 0⟩).trans (List.nil_append _)

/-! ### The total -/

/-- The token counts of what is included from a total on. -/
def spentFrom (X : Crates) (opts : BuildOptions) (total : UInt64) (items : List CandidateItem) : Nat :=
  (((verdicts X opts total items).filter (·.2 = none)).map fun v => v.1.tokens.toNat).sum

theorem tokenSum_build (items : List CandidateItem) :
    (build X opts items).tokenSum = spentFrom X opts 0 items := by
  rw [Manifest.tokenSum, build_included, admitted, spentFrom, List.map_map, List.map_map]
  rfl

theorem spentFrom_cons (total : UInt64) (item : CandidateItem) (rest : List CandidateItem) :
    spentFrom X opts total (item :: rest) =
      (if blockedReason X opts total item = none then item.tokens.toNat else 0) +
        spentFrom X opts (spend X opts total item) rest := by
  rw [spentFrom, verdicts]
  by_cases h : blockedReason X opts total item = none
  · rw [List.filter_cons_of_pos (by simpa using h), List.map_cons, List.sum_cons, if_pos h]
    rfl
  · rw [List.filter_cons_of_neg (by simpa using h), if_neg h, Nat.zero_add]
    rfl

theorem blockedReason_eq_none_iff {total : UInt64} {item : CandidateItem} :
    blockedReason X opts total item = none ↔
      Passes X opts item ∧ (total.toNat + item.tokens.toNat) % 2 ^ 64 ≤ opts.tokenBudget.toNat := by
  rw [blockedReason_eq_none, UInt64.le_iff_toNat_le, UInt64.toNat_add, Passes, and_assoc, and_assoc]

theorem wrapsFrom_cons {total : Nat} {item : CandidateItem} {rest : List CandidateItem} :
    WrapsFrom X opts total (item :: rest) ↔
      WrapsAt X opts total item ∨ WrapsFrom X opts (trueSpend X opts total item) rest := by
  constructor
  · rintro ⟨before, a, after, hsplit, hwraps⟩
    cases before with
    | nil =>
      obtain ⟨rfl, rfl⟩ := List.cons.inj hsplit
      exact Or.inl hwraps
    | cons b before =>
      obtain ⟨rfl, rfl⟩ := List.cons.inj hsplit
      exact Or.inr ⟨before, a, after, rfl, hwraps⟩
  · rintro (hwraps | ⟨before, a, after, rfl, hwraps⟩)
    · exact ⟨[], item, rest, rfl, hwraps⟩
    · exact ⟨item :: before, a, after, rfl, hwraps⟩

theorem not_wrapsFrom_nil (total : Nat) : ¬ WrapsFrom X opts total [] := by
  rintro ⟨before, a, after, hsplit, -⟩
  cases before <;> cases hsplit

/-- An item at which the sum does not wrap is judged as if there were no bound. -/
theorem spend_of_not_wraps {total : UInt64} {item : CandidateItem}
    (htotal : total.toNat ≤ opts.tokenBudget.toNat) (h : ¬ WrapsAt X opts total.toNat item) :
    (spend X opts total item).toNat = trueSpend X opts total.toNat item ∧
      (spend X opts total item).toNat ≤ opts.tokenBudget.toNat ∧
      (spend X opts total item).toNat =
        total.toNat + if blockedReason X opts total item = none then item.tokens.toNat else 0 := by
  have hbudget := opts.tokenBudget.toNat_lt
  have htokens := item.tokens.toNat_lt
  rw [spend, trueSpend]
  by_cases hpass : Passes X opts item
  · rw [WrapsAt, not_and] at h
    have hbound := h hpass
    by_cases hle : total.toNat + item.tokens.toNat ≤ opts.tokenBudget.toNat
    · have hnone : blockedReason X opts total item = none :=
        blockedReason_eq_none_iff.mpr ⟨hpass, by omega⟩
      have hsum : (total + item.tokens).toNat = total.toNat + item.tokens.toNat := by
        rw [UInt64.toNat_add]
        omega
      rw [if_pos hnone, if_pos ⟨hpass, hle⟩, if_pos hnone, hsum]
      exact ⟨rfl, hle, rfl⟩
    · have hsome : blockedReason X opts total item ≠ none := by
        rw [Ne, blockedReason_eq_none_iff]
        rintro ⟨-, hwrapped⟩
        omega
      rw [if_neg hsome, if_neg (fun hboth => hle hboth.2), if_neg hsome]
      exact ⟨rfl, htotal, rfl⟩
  · have hsome : blockedReason X opts total item ≠ none := by
      rw [Ne, blockedReason_eq_none_iff]
      exact fun hboth => hpass hboth.1
    rw [if_neg hsome, if_neg (fun hboth => hpass hboth.1), if_neg hsome]
    exact ⟨rfl, htotal, rfl⟩

/-- Without a wrap the total is what has been spent. -/
theorem total_of_not_wraps (items : List CandidateItem) {total : UInt64}
    (htotal : total.toNat ≤ opts.tokenBudget.toNat) (h : ¬ WrapsFrom X opts total.toNat items) :
    (items.foldl (spend X opts) total).toNat = total.toNat + spentFrom X opts total items ∧
      total.toNat + spentFrom X opts total items ≤ opts.tokenBudget.toNat := by
  induction items generalizing total with
  | nil => exact ⟨rfl, htotal⟩
  | cons item rest ih =>
    rw [wrapsFrom_cons, not_or] at h
    obtain ⟨htrue, hbound, hspend⟩ := spend_of_not_wraps htotal h.1
    have hrest := ih hbound (by rw [htrue]; exact h.2)
    rw [List.foldl_cons, spentFrom_cons, ← Nat.add_assoc, ← hspend]
    exact hrest

/-- After a wrap more has been spent than a word holds. -/
theorem spent_of_wraps (items : List CandidateItem) {total : UInt64}
    (htotal : total.toNat ≤ opts.tokenBudget.toNat) (h : WrapsFrom X opts total.toNat items) :
    2 ^ 64 ≤ total.toNat + spentFrom X opts total items := by
  induction items generalizing total with
  | nil => exact absurd h (not_wrapsFrom_nil _)
  | cons item rest ih =>
    rw [spentFrom_cons]
    by_cases hhere : WrapsAt X opts total.toNat item
    · obtain ⟨hpass, hword, hbudget⟩ := hhere
      have hnone : blockedReason X opts total item = none := by
        rw [blockedReason_eq_none_iff]
        have := opts.tokenBudget.toNat_lt
        have := item.tokens.toNat_lt
        exact ⟨hpass, by omega⟩
      rw [if_pos hnone]
      omega
    · obtain ⟨htrue, hbound, hspend⟩ := spend_of_not_wraps htotal hhere
      have hrest := ih hbound (by rw [htrue]; exact (wrapsFrom_cons.mp h).resolve_left hhere)
      rw [← Nat.add_assoc, ← hspend]
      exact hrest

/-- **The manifest accounts for its items** exactly when no item that passes the other filters takes the sum of the token counts out of the word and under the budget again. -/
theorem budgeted_iff (X : Crates) (opts : BuildOptions) (items : List CandidateItem) :
    Budgeted X opts items ↔ ¬ WrapsFrom X opts 0 items := by
  have htotal : (build X opts items).totalTokens = items.foldl (spend X opts) 0 :=
    foldl_visit_totalTokens items ⟨[], [], 0⟩
  constructor
  · rintro ⟨hsum, -, -⟩ hwraps
    have hspent := @spent_of_wraps X opts items 0 (Nat.zero_le _) hwraps
    have hword := (items.foldl (spend X opts) 0).toNat_lt
    rw [tokenSum_build, htotal] at hsum
    rw [UInt64.toNat_zero] at hspent
    omega
  · intro h
    obtain ⟨hsum, hbound⟩ := @total_of_not_wraps X opts items 0 (Nat.zero_le _) h
    rw [UInt64.toNat_zero, Nat.zero_add] at hsum hbound
    refine ⟨?_, ?_, build_parts items⟩
    · rw [htotal, hsum, tokenSum_build]
    · rw [tokenSum_build]
      exact hbound

def counted (id : String) (tokens : UInt64) : CandidateItem :=
  ⟨id, "memory", "notes", "", .low, "cloud_model_allowed", some tokens⟩

/-- Five tokens, and then one word less one: four are counted, and both items are sent. -/
theorem budget_wraps : (build Crates.sample BuildOptions.default
      [counted "a" 5, counted "b" 18446744073709551615]).totalTokens = 4 ∧
    ¬ Budgeted Crates.sample BuildOptions.default [counted "a" 5, counted "b" 18446744073709551615] := by
  refine ⟨by decide, fun h => ?_⟩
  have hsum := h.total
  revert hsum
  decide

end ActantDb.Context
