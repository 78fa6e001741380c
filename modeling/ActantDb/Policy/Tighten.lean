import ActantDb.Policy.Guard

/-!
# Tightening a policy

`tighten` joins the lists of two policies and lets the fields of the second overwrite those of the first. A list is searched first-match and a ceiling can be overwritten by a higher one, so the result can be looser than either part; what follows says exactly when it is not.
-/

namespace ActantDb.Guard

/-- A `Partial<Policy>`: a field may be absent, and one that is there may still be unset. -/
structure PolicyExtras where
  label : Option (Option String)
  sensitivityCeiling : Option (Option Sensitivity)
  tools : Option (List ToolRiskEntry)
  deny : Option (List ArgDenyRule)
deriving DecidableEq

/-- The extras as a policy of their own. -/
def PolicyExtras.alone (extras : PolicyExtras) : Policy :=
  ⟨extras.label.join, extras.sensitivityCeiling.join, extras.tools, extras.deny⟩

def tighten (base : Policy) (extras : PolicyExtras) : Policy where
  label := extras.label.getD base.label
  sensitivityCeiling := extras.sensitivityCeiling.getD base.sensitivityCeiling
  tools := some (base.tools.getD [] ++ extras.tools.getD [])
  deny := some (base.deny.getD [] ++ extras.deny.getD [])

/-- `allow < require approval < block`. -/
def Decision.rank : Decision → Nat
  | .allow => 0
  | .constrain => 1
  | .requireApproval => 2
  | .block => 3
  | .halt => 4

/-- The first ceiling is no higher than the second; no ceiling is above every ceiling. -/
def CeilingLe : Option Sensitivity → Option Sensitivity → Prop
  | _, none => True
  | none, some _ => False
  | some a, some b => a.order ≤ b.order

instance : ∀ a b, Decidable (CeilingLe a b)
  | _, none => instDecidableTrue
  | none, some _ => instDecidableFalse
  | some a, some b => inferInstanceAs (Decidable (a.order ≤ b.order))

/-- The first evaluation is no stricter than the second. Where one of them throws there is no decision to compare. -/
def StrictnessLe : Except Thrown PolicyVerdict → Except Thrown PolicyVerdict → Prop
  | .ok v, .ok w => v.decision.rank ≤ w.decision.rank
  | _, _ => True

/-- The tightened policy is at least as strict as its two parts. -/
structure Tightens (X : JsLibrary) (base : Policy) (extras : PolicyExtras) (req : JsValue)
    (argsSensitivity : Option Sensitivity) : Prop where
  base_le : StrictnessLe (evaluate X base req argsSensitivity)
    (evaluate X (tighten base extras) req argsSensitivity)
  extras_le : StrictnessLe (evaluate X extras.alone req argsSensitivity)
    (evaluate X (tighten base extras) req argsSensitivity)
  ceiling_base : CeilingLe (tighten base extras).sensitivityCeiling base.sensitivityCeiling
  ceiling_extras : CeilingLe (tighten base extras).sensitivityCeiling extras.alone.sensitivityCeiling

/-- A deny rule of the policy matches. -/
def denied (X : JsLibrary) (policy : Policy) (req : JsValue) (args : String) : Bool :=
  (policy.deny.getD []).any (matches_ X req args)

def exceeds (ceiling argsSensitivity : Option Sensitivity) : Bool :=
  ceiling.any fun ceiling => argsSensitivity.any (sensitivityExceeds · ceiling)

/-- The policy's entry for the tool asks for approval. -/
def gates (policy : Policy) (tool : JsValue) : Bool :=
  requiresApproval policy tool || riskOf policy tool = .destructive

/-- The request is held up whatever the lists of tools say. -/
def heldUp (X : JsLibrary) (base : Policy) (extras : PolicyExtras) (req : JsValue)
    (argsSensitivity : Option Sensitivity) (args : String) : Bool :=
  denied X base req args || denied X extras.alone req args ||
    exceeds (extras.sensitivityCeiling.getD base.sensitivityCeiling) argsSensitivity ||
    (req.get "tool").isString "shell.run"

section Decision

variable {X : JsLibrary} {policy base : Policy} {extras : PolicyExtras} {req tool : JsValue}
  {argsSensitivity : Option Sensitivity} {args : String}

theorem withSuggestion_decision (reason snap : String) (other : PolicyVerdict) :
    ((withSuggestion req reason snap).getD other).decision =
      if (suggestCommand req).isSome then .requireApproval else other.decision := by
  rw [withSuggestion, suggestConstrainForShellRm]
  cases suggestCommand req with
  | none => rfl
  | some c => rfl

/-- What the evaluator decides, without its reasons. -/
theorem verdictOn_decision (X : JsLibrary) (policy : Policy) (req : JsValue)
    (argsSensitivity : Option Sensitivity) (args : String) :
    (verdictOn X policy req argsSensitivity args).decision =
      if denied X policy req args then
        if (suggestCommand req).isSome then .requireApproval else .block
      else if exceeds policy.sensitivityCeiling argsSensitivity || gates policy (req.get "tool") ||
          (req.get "tool").isString "shell.run" then .requireApproval
      else .allow := by
  rw [verdictOn, denied]
  cases hfind : (policy.deny.getD []).find? (matches_ X req args) with
  | some rule =>
    have hany : (policy.deny.getD []).any (matches_ X req args) = true :=
      List.any_eq_true.mpr ⟨rule, List.mem_of_find?_eq_some hfind, List.find?_some hfind⟩
    rw [if_pos hany]
    exact withSuggestion_decision _ _ _
  | none =>
    have hany : (policy.deny.getD []).any (matches_ X req args) = false := by
      rw [List.any_eq_false]
      intro rule hrule
      simpa using List.find?_eq_none.mp hfind rule hrule
    rw [hany, gates]
    show (if exceeds policy.sensitivityCeiling argsSensitivity = true then _ else _ :
      PolicyVerdict).decision = _
    cases exceeds policy.sensitivityCeiling argsSensitivity with
    | true => rfl
    | false =>
      cases requiresApproval policy (req.get "tool") with
      | true => rfl
      | false =>
        cases (req.get "tool").isString "shell.run" with
        | true =>
          simp only [Bool.false_eq_true, if_false, if_true, withSuggestion_decision]
          simp
        | false =>
          simp only [Bool.false_eq_true, if_false, Bool.or_false, Bool.false_or, decide_eq_true_eq]
          split <;> rfl

theorem denied_tighten :
    denied X (tighten base extras) req args = (denied X base req args || denied X extras.alone req args) :=
  List.any_append

theorem entry_tighten :
    entry (tighten base extras) tool = (entry base tool).or (entry extras.alone tool) := by
  simp only [entry, tighten, Option.getD_some, List.find?_append]
  rfl

theorem gates_congr {other : Policy} (h : entry policy tool = entry other tool) :
    gates policy tool = gates other tool := by
  have happroval : requiresApproval policy tool = requiresApproval other tool := by
    rw [requiresApproval, requiresApproval, h]
  have hrisk : riskOf policy tool = riskOf other tool := by
    rw [riskOf, riskOf, h]
  rw [gates, gates, happroval, hrisk]

/-- The base's entry for the tool hides that of the extras. -/
theorem gates_tighten :
    gates (tighten base extras) tool =
      if (entry base tool).isSome then gates base tool else gates extras.alone tool := by
  cases hentry : entry base tool with
  | none =>
    rw [if_neg (by simp)]
    exact gates_congr (by rw [entry_tighten, hentry, Option.none_or])
  | some t =>
    rw [if_pos (by rfl)]
    exact gates_congr (by rw [entry_tighten, hentry, Option.some_or])

theorem gates_of_entry_none (h : entry policy tool = none) : gates policy tool = false := by
  simp [gates, requiresApproval, riskOf, h]

theorem exceeds_mono {a b : Option Sensitivity} (h : CeilingLe a b) (hb : exceeds b argsSensitivity = true) :
    exceeds a argsSensitivity = true := by
  cases b with
  | none => cases hb
  | some b =>
    cases a with
    | none => exact h.elim
    | some a =>
      cases argsSensitivity with
      | none => cases hb
      | some s =>
        simp only [exceeds, Option.any_some, sensitivityExceeds, decide_eq_true_eq] at hb ⊢
        exact lt_of_le_of_lt h hb

theorem CeilingLe.refl : ∀ a : Option Sensitivity, CeilingLe a a
  | none => trivial
  | some _ => Nat.le_refl _

theorem ceiling_tighten_alone (base : Policy) (extras : PolicyExtras) :
    CeilingLe (tighten base extras).sensitivityCeiling extras.alone.sensitivityCeiling := by
  cases h : extras.sensitivityCeiling with
  | none => simp only [PolicyExtras.alone, h, Option.join_none, CeilingLe]
  | some ceiling =>
    simp only [tighten, PolicyExtras.alone, h, Option.getD_some, Option.join_some]
    exact CeilingLe.refl _

theorem ceiling_tighten_base_iff :
    CeilingLe (tighten base extras).sensitivityCeiling base.sensitivityCeiling ↔
      ∀ ceiling, extras.sensitivityCeiling = some ceiling →
        CeilingLe ceiling base.sensitivityCeiling := by
  cases h : extras.sensitivityCeiling with
  | none => simp [tighten, h, CeilingLe.refl]
  | some ceiling => simp [tighten, h]

/-- How strict a decision is, from whether a deny rule matches, a rewriting is at hand and something else holds the request up. -/
def strictness (matched rewrites held : Bool) : Nat :=
  if matched then if rewrites then 2 else 3 else if held then 2 else 0

theorem verdictOn_rank (X : JsLibrary) (policy : Policy) (req : JsValue)
    (argsSensitivity : Option Sensitivity) (args : String) :
    (verdictOn X policy req argsSensitivity args).decision.rank =
      strictness (denied X policy req args) (suggestCommand req).isSome
        (exceeds policy.sensitivityCeiling argsSensitivity || gates policy (req.get "tool") ||
          (req.get "tool").isString "shell.run") := by
  rw [verdictOn_decision, strictness]
  split_ifs <;> rfl

/-- The strictness of a join is at least that of a part unless only the part is held up. -/
theorem strictness_le_iff {matched₁ matched rewrites held₁ held : Bool}
    (h : matched₁ = true → matched = true) :
    strictness matched₁ rewrites held₁ ≤ strictness matched rewrites held ↔
      (matched = false → held₁ = true → held = true) := by
  revert h
  cases matched₁ <;> cases matched <;> cases rewrites <;> cases held₁ <;> cases held <;> decide

theorem gates_tighten_of_base (h : gates base tool = true) : gates (tighten base extras) tool = true := by
  rw [gates_tighten]
  cases hentry : entry base tool with
  | none => rw [gates_of_entry_none hentry] at h; cases h
  | some t => simpa using h

theorem heldUp_eq_false :
    heldUp X base extras req argsSensitivity args = false ↔
      denied X (tighten base extras) req args = false ∧
        exceeds (tighten base extras).sensitivityCeiling argsSensitivity = false ∧
        (req.get "tool").isString "shell.run" = false := by
  rw [heldUp, denied_tighten]
  simp [tighten, and_assoc]

theorem strictnessLe_evaluate {p q : Policy} :
    StrictnessLe (evaluate X p req argsSensitivity) (evaluate X q req argsSensitivity) ↔
      ∀ args, argsJson X req = .ok args →
        (verdictOn X p req argsSensitivity args).decision.rank ≤
          (verdictOn X q req argsSensitivity args).decision.rank := by
  rw [evaluate, evaluate]
  cases argsJson X req with
  | error e =>
    constructor
    · intro _ _ heq
      cases heq
    · intro _
      trivial
  | ok args =>
    constructor
    · intro h other heq
      cases heq
      exact h
    · intro h
      exact h args rfl

/-- The base alone never makes a request pass that the join holds up. -/
theorem base_rank_le (hle : CeilingLe (tighten base extras).sensitivityCeiling base.sensitivityCeiling) :
    (verdictOn X base req argsSensitivity args).decision.rank ≤
      (verdictOn X (tighten base extras) req argsSensitivity args).decision.rank := by
  rw [verdictOn_rank, verdictOn_rank, strictness_le_iff]
  · intro _ hheld
    simp only [Bool.or_eq_true] at hheld ⊢
    exact hheld.imp_left (Or.imp (exceeds_mono hle) gates_tighten_of_base)
  · rw [denied_tighten]
    intro h
    rw [h, Bool.true_or]

theorem extras_le_iff :
    (verdictOn X extras.alone req argsSensitivity args).decision.rank ≤
        (verdictOn X (tighten base extras) req argsSensitivity args).decision.rank ↔
      (heldUp X base extras req argsSensitivity args = false →
        gates extras.alone (req.get "tool") = true → (entry base (req.get "tool")).isSome →
          gates base (req.get "tool") = true) := by
  have hextras : denied X extras.alone req args = true →
      denied X (tighten base extras) req args = true := by
    rw [denied_tighten]
    intro h
    rw [h, Bool.or_true]
  rw [verdictOn_rank, verdictOn_rank, strictness_le_iff hextras]
  constructor
  · intro hle hheld hgates hentry
    obtain ⟨hdenied, hexceeds, hshell⟩ := heldUp_eq_false.mp hheld
    have hjoined := hle hdenied (by rw [hgates, Bool.or_true, Bool.true_or])
    rw [hexceeds, hshell, Bool.false_or, Bool.or_false, gates_tighten, if_pos hentry] at hjoined
    exact hjoined
  · intro hpass hdenied hheld
    by_contra hfree
    simp only [Bool.or_eq_true, not_or, Bool.not_eq_true] at hheld hfree
    obtain ⟨⟨hexceeds, hgate⟩, hshell⟩ := hfree
    have hup := heldUp_eq_false.mpr ⟨hdenied, hexceeds, hshell⟩
    rcases hheld with (h | h) | h
    · rw [exceeds_mono (ceiling_tighten_alone base extras) h] at hexceeds
      cases hexceeds
    · rw [gates_tighten] at hgate
      cases hentry : entry base (req.get "tool") with
      | none =>
        rw [hentry, if_neg (by simp), h] at hgate
        cases hgate
      | some t =>
        have hsome : (entry base (req.get "tool")).isSome := by rw [hentry]; rfl
        rw [if_pos hsome, hpass hup h hsome] at hgate
        cases hgate
    · rw [h] at hshell
      cases hshell

/-- **Tightening is monotone** exactly when a ceiling that the extras bring is no higher than the base's and, for a request that nothing else holds up, no entry of the base that lets the tool pass hides one of the extras that does not. -/
theorem tightens_iff (X : JsLibrary) (base : Policy) (extras : PolicyExtras) (req : JsValue)
    (argsSensitivity : Option Sensitivity) :
    Tightens X base extras req argsSensitivity ↔
      (∀ ceiling, extras.sensitivityCeiling = some ceiling → CeilingLe ceiling base.sensitivityCeiling) ∧
        ∀ args, argsJson X req = .ok args → heldUp X base extras req argsSensitivity args = false →
          gates extras.alone (req.get "tool") = true → (entry base (req.get "tool")).isSome →
            gates base (req.get "tool") = true := by
  constructor
  · rintro ⟨-, hle, hceiling, -⟩
    refine ⟨ceiling_tighten_base_iff.mp hceiling, fun args hargs => ?_⟩
    exact extras_le_iff.mp (strictnessLe_evaluate.mp hle args hargs)
  · rintro ⟨hceiling, hpass⟩
    have hle := ceiling_tighten_base_iff.mpr hceiling
    refine ⟨?_, ?_, hle, ceiling_tighten_alone base extras⟩
    · exact strictnessLe_evaluate.mpr fun args _ => base_rank_le hle
    · exact strictnessLe_evaluate.mpr fun args hargs => extras_le_iff.mpr (hpass args hargs)

end Decision

/-- An entry of the base for a tool of low risk hides the extras' requirement of an approval. -/
def relaxed : Policy := ⟨none, none, some [⟨"file.write", .low, false⟩], none⟩

def strict : PolicyExtras :=
  ⟨none, none, some [⟨"file.write", .low, true⟩], none⟩

theorem tighten_relaxes :
    ¬ Tightens JsLibrary.sample relaxed strict (.object [("tool", .string "file.write")]) none := by
  intro h
  have hpass := extras_le_iff.mp (strictnessLe_evaluate.mp h.extras_le "\x7b\x7d" (by rfl))
  revert hpass
  decide

end ActantDb.Guard
