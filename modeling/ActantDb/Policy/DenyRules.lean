import Mathlib.Data.List.Perm.Basic
import ActantDb.Policy.Agreement

/-!
# What the deny rules decide

Of a policy's deny rules the decision depends on one bit: whether some rule that is about the tool compiles and matches. So a further rule can only make the decision stricter, the order of the rules does not matter, and a rule whose pattern does not compile does nothing at all. The last holds of the TypeScript evaluator as well.
-/

namespace ActantDb

/-- The rule is about the tool. -/
def DenyRule.about (rule : DenyRule) (tool : String) : Bool := rule.tool = "*" || rule.tool = tool

variable {X : Crates} {policy : PolicyDoc} {input : GuardInput}

/-- The rule is about the tool, its pattern compiles and matches the arguments. -/
def DenyRule.denies (X : Crates) (input : GuardInput) (rule : DenyRule) : Bool :=
  rule.about input.tool && (X.regex rule.pattern).any (· input.argumentsJson)

theorem firstDenied_eq_find? (rules : List DenyRule) :
    firstDenied X input rules = rules.find? (DenyRule.denies X input) := by
  induction rules with
  | nil => rfl
  | cons rule rest ih =>
    rw [firstDenied, List.find?_cons, DenyRule.denies, DenyRule.about, ih]
    by_cases habout : rule.tool ≠ "*" ∧ rule.tool ≠ input.tool
    · simp [habout]
    · have hsame : (decide (rule.tool = "*") || decide (rule.tool = input.tool)) = true := by
        rw [Bool.or_eq_true, decide_eq_true_eq, decide_eq_true_eq]
        by_contra hnot
        exact habout (not_or.mp hnot)
      rw [if_neg habout, hsame]
      cases X.regex rule.pattern with
      | none => rfl
      | some isMatch => cases hmatch : isMatch input.argumentsJson <;> simp [hmatch]

theorem isSome_firstDenied (rules : List DenyRule) :
    (firstDenied X input rules).isSome = rules.any (DenyRule.denies X input) := by
  rw [firstDenied_eq_find?, Bool.eq_iff_iff, List.find?_isSome, List.any_eq_true]

/-- Something other than a deny rule holds the request up. -/
def heldByPolicy (policy : PolicyDoc) (input : GuardInput) : Bool :=
  policy.sensitivityCeiling.any (·.rank < input.sensitivity.rank) ||
    ((policy.tools.find? (·.tool = input.tool)).any (·.requireApproval) ||
      input.riskLevel = .critical) || input.tool = "shell.run"

theorem evaluate_decision_any (X : Crates) (policy : PolicyDoc) (input : GuardInput) :
    (evaluate X policy input).decision =
      if policy.deny.any (DenyRule.denies X input) then
        if (suggestConstrain X input).isSome then .requireApproval else .block
      else if heldByPolicy policy input then .requireApproval
      else .allow := by
  rw [evaluate_decision, isSome_firstDenied]
  rfl

theorem evaluate_rank (X : Crates) (policy : PolicyDoc) (input : GuardInput) :
    (evaluate X policy input).decision.rank =
      Guard.strictness (policy.deny.any (DenyRule.denies X input)) (suggestConstrain X input).isSome
        (heldByPolicy policy input) := by
  rw [evaluate_decision_any, Guard.strictness]
  split_ifs <;> rfl

/-- **Deny rules only tighten.** Whatever the regular expressions match, a deny rule put in anywhere leaves the decision as strict as it was or makes it stricter, and deny rules in another order lead to the same kind of decision. -/
theorem deny_rules_monotone (X : Crates) (policy : PolicyDoc) (input : GuardInput) :
    (∀ before rule after,
        (evaluate X { policy with deny := before ++ after } input).decision.rank ≤
          (evaluate X { policy with deny := before ++ rule :: after } input).decision.rank) ∧
      ∀ deny, deny.Perm policy.deny →
        (evaluate X { policy with deny := deny } input).decision = (evaluate X policy input).decision := by
  constructor
  · intro before rule after
    rw [evaluate_rank, evaluate_rank, Guard.strictness_le_iff]
    · exact fun _ hheld => hheld
    · rw [List.any_append, List.any_append, List.any_cons]
      cases before.any (DenyRule.denies X input) with
      | true => exact fun h => h
      | false =>
        intro h
        rw [Bool.false_or] at h ⊢
        rw [h, Bool.or_true]
  · intro deny hperm
    rw [evaluate_decision_any, evaluate_decision_any, hperm.any_eq]
    rfl

/-! ### Patterns that do not compile -/

/-- The policy without the deny rules whose pattern does not compile. -/
def PolicyDoc.compiling (X : Crates) (policy : PolicyDoc) : PolicyDoc :=
  { policy with deny := policy.deny.filter fun rule => (X.regex rule.pattern).isSome }

/-- Some deny rule about the tool has a pattern that does not compile. -/
def PolicyDoc.broken (X : Crates) (policy : PolicyDoc) (tool : String) : Bool :=
  policy.deny.any fun rule => rule.about tool && (X.regex rule.pattern).isNone

theorem DenyRule.compiles_of_denies {rule : DenyRule} (h : rule.denies X input = true) :
    (X.regex rule.pattern).isSome = true := by
  rw [denies, Bool.and_eq_true] at h
  cases hregex : X.regex rule.pattern with
  | none => rw [hregex] at h; cases h.2
  | some isMatch => rfl

/-- Rules that do not compile might as well not be there. -/
theorem evaluate_compiling (X : Crates) (policy : PolicyDoc) (input : GuardInput) :
    evaluate X policy input = evaluate X (policy.compiling X) input := by
  have hfirst : firstDenied X input (policy.compiling X).deny = firstDenied X input policy.deny := by
    rw [firstDenied_eq_find?, firstDenied_eq_find?, PolicyDoc.compiling, List.find?_filter]
    congr 1
    funext rule
    cases hdenies : rule.denies X input with
    | false => simp
    | true => simp [DenyRule.compiles_of_denies hdenies]
  rw [evaluate, evaluate, hfirst]
  rfl

theorem evaluate_allows_iff (X : Crates) (policy : PolicyDoc) (input : GuardInput) :
    (evaluate X policy input).decision = .allow ↔
      policy.deny.any (DenyRule.denies X input) = false ∧ heldByPolicy policy input = false := by
  rw [evaluate_decision_any]
  cases policy.deny.any (DenyRule.denies X input) <;> cases (suggestConstrain X input).isSome <;> simp

namespace Guard

variable {J : JsLibrary} {req : JsValue} {args : String}

/-- The policy without the deny rules whose pattern does not compile. -/
def Policy.compiling (J : JsLibrary) (policy : Policy) : Policy :=
  { policy with deny := policy.deny.map (·.filter fun rule => (J.regExp rule.pattern).isSome) }

/-- Some deny rule about the tool has a pattern that does not compile. -/
def Policy.broken (J : JsLibrary) (policy : Policy) (tool : JsValue) : Bool :=
  (policy.deny.getD []).any fun rule =>
    (rule.tool = "*" || tool.isString rule.tool) && (J.regExp rule.pattern).isNone

/-- Something other than a deny rule holds the request up. -/
def held (policy : Policy) (req : JsValue) (argsSensitivity : Option Sensitivity) : Bool :=
  exceeds policy.sensitivityCeiling argsSensitivity || gates policy (req.get "tool") ||
    (req.get "tool").isString "shell.run"

theorem denied_compiling (J : JsLibrary) (policy : Policy) (req : JsValue) (args : String) :
    denied J (policy.compiling J) req args = denied J policy req args := by
  have hfilter : ∀ rules : List ArgDenyRule,
      (rules.filter fun rule => (J.regExp rule.pattern).isSome).any (matches_ J req args) =
        rules.any (matches_ J req args) := by
    intro rules
    rw [List.any_filter]
    congr 1
    funext rule
    rw [matches_]
    cases J.regExp rule.pattern <;> simp
  rw [denied, denied, Policy.compiling]
  cases policy.deny with
  | none => rfl
  | some rules => exact hfilter rules

theorem verdictOn_compiling (J : JsLibrary) (policy : Policy) (req : JsValue)
    (argsSensitivity : Option Sensitivity) (args : String) :
    (verdictOn J policy req argsSensitivity args).decision =
      (verdictOn J (policy.compiling J) req argsSensitivity args).decision := by
  rw [verdictOn_decision, verdictOn_decision, denied_compiling]
  rfl

theorem verdictOn_allows_iff (J : JsLibrary) (policy : Policy) (req : JsValue)
    (argsSensitivity : Option Sensitivity) (args : String) :
    (verdictOn J policy req argsSensitivity args).decision = .allow ↔
      denied J policy req args = false ∧ held policy req argsSensitivity = false := by
  rw [verdictOn_decision, held]
  cases denied J policy req args <;> cases (suggestCommand req).isSome <;> simp

end Guard

/-- **A rule whose pattern does not compile is skipped**, by both evaluators: the decision is that of the policy without such rules. The request is let through exactly when no rule about the tool compiles and matches, and neither the ceiling, the tool's entry, the rule for the shell nor the risk holds it up. -/
theorem broken_rules_skipped (X : Crates) (J : JsLibrary) :
    (∀ policy input, evaluate X policy input = evaluate X (policy.compiling X) input ∧
        ((evaluate X policy input).decision = .allow ↔
          policy.deny.any (DenyRule.denies X input) = false ∧ heldByPolicy policy input = false)) ∧
      ∀ policy req argsSensitivity args v, Guard.argsJson J req = .ok args →
        Guard.evaluate J policy req argsSensitivity = .ok v →
        (∃ w, Guard.evaluate J (policy.compiling J) req argsSensitivity = .ok w ∧
            v.decision = w.decision) ∧
          (v.decision = .allow ↔
            Guard.denied J policy req args = false ∧ Guard.held policy req argsSensitivity = false) := by
  refine ⟨fun policy input => ⟨evaluate_compiling X policy input, evaluate_allows_iff X policy input⟩, ?_⟩
  intro policy req argsSensitivity args v hargs hv
  have hverdict : v = Guard.verdictOn J policy req argsSensitivity args := by
    rw [Guard.evaluate, hargs] at hv
    exact (Except.ok.inj hv).symm
  have hother : Guard.evaluate J (policy.compiling J) req argsSensitivity =
      .ok (Guard.verdictOn J (policy.compiling J) req argsSensitivity args) := by
    rw [Guard.evaluate, hargs]
    rfl
  rw [hverdict]
  exact ⟨⟨_, hother, Guard.verdictOn_compiling J policy req argsSensitivity args⟩,
    Guard.verdictOn_allows_iff J policy req argsSensitivity args⟩

/-- Crates and a library in which an open bracket is no pattern. -/
def Crates.noBracket : Crates :=
  { Crates.sample with regex := fun p => if p = "(" then none else some fun _ => false }

def JsLibrary.noBracket : JsLibrary :=
  { JsLibrary.sample with regExp := fun p => if p = "(" then none else some fun _ => false }

/-- A deny rule for reading files that is only an open bracket: reading is allowed. -/
theorem broken_rules_let_through :
    ¬ (∀ policy input, policy.broken Crates.noBracket input.tool = true →
        (evaluate Crates.noBracket policy input).decision ≠ .allow) ∧
      ¬ ∀ policy req argsSensitivity v, policy.broken JsLibrary.noBracket (req.get "tool") = true →
        Guard.evaluate JsLibrary.noBracket policy req argsSensitivity = .ok v → v.decision ≠ .allow := by
  constructor
  · intro h
    exact h ⟨"p", [], [⟨"file.read", "(", "no reading"⟩], none⟩ ⟨"act_1", "file.read", "\x7b\x7d", .low, .low⟩
      (by decide) (by decide)
  · intro h
    exact h ⟨none, none, none, some [⟨"file.read", "(", "no reading"⟩]⟩
      (.object [("tool", .string "file.read")]) none _ (by decide) rfl (by decide)

end ActantDb
