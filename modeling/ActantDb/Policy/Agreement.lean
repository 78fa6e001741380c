import ActantDb.Policy.Constrain
import ActantDb.Policy.Tighten

/-!
# Two evaluators, one policy

A policy and a request written for the TypeScript evaluator, read by the Rust one. Stage by stage the two come to the same decision; they part over which commands they recognise as an `rm -rf` and where they split its targets.
-/

namespace ActantDb

open Words

/-! ### Policies and requests in both languages -/

def Guard.Sensitivity.toRust : Guard.Sensitivity → ActantDb.Sensitivity
  | .«public» => .«public»
  | .low => .low
  | .medium => .medium
  | .high => .high
  | .secret => .secret

/-- `destructive` is `critical` in Rust. -/
def Guard.Risk.toRust : Guard.Risk → RiskLevel
  | .low => .low
  | .medium => .medium
  | .high => .high
  | .destructive => .critical

/-- The policy document that says what the policy says. -/
def Guard.Policy.toDoc (policy : Guard.Policy) : PolicyDoc where
  name := policy.label.getD ""
  tools := (policy.tools.getD []).map fun t => ⟨t.tool, t.risk.toRust, t.requireApproval⟩
  deny := (policy.deny.getD []).map fun r => ⟨r.tool, r.pattern, r.reason⟩
  sensitivityCeiling := policy.sensitivityCeiling.map (·.toRust)

/-- The request as the Rust evaluator gets it, its risk looked up in the policy. -/
def guardInput (policy : Guard.Policy) (actor : ActorId) (tool args : String) (s : Guard.Sensitivity) :
    GuardInput where
  actorId := actor
  tool := tool
  argumentsJson := args
  riskLevel := riskFor tool policy.toDoc
  sensitivity := s.toRust

/-- The tool and the arguments' text are those of the request, the text is parsed to the same command, and patterns mean the same on both sides. -/
structure SameRequest (X : Crates) (Y : JsLibrary) (req : JsValue) (tool args : String) : Prop where
  tool : req.get "tool" = .string tool
  text : Guard.argsJson Y req = .ok args
  command : ((X.fromStr args).bind fun v => (v.get "command").bind (·.asStr)) =
    ((req.get "args").get "command").asText
  regex : X.regex = Y.regExp

def Verdict.decision : Verdict → Guard.Decision
  | .allow _ => .allow
  | .constrain .. => .constrain
  | .requireApproval .. => .requireApproval
  | .block _ => .block
  | .halt _ => .halt

/-- The two verdicts are of one kind and offer the same command, if any. -/
structure Agree (X : Crates) (policy : Guard.Policy) (input : GuardInput) (v : Guard.PolicyVerdict) :
    Prop where
  decision : (evaluate X policy.toDoc input).decision = v.decision
  offers : (evaluate X policy.toDoc input).constrainedInput.isSome = v.constrainedInput.isSome
  command : ∀ args constrained, (evaluate X policy.toDoc input).constrainedInput = some args →
    v.constrainedInput = some constrained →
      ∃ value cmd new dropped, X.fromStr input.argumentsJson = some value ∧
        value.get "command" = some (.string cmd) ∧ rewriteCommand cmd = some (new, dropped) ∧
        args = (setCommand value new).toText X ∧ constrained.get "command" = .string new

/-- The targets that are left of those a recogniser has read, when something is offered. -/
def leftOver (targets : Option (List (List Char))) : Option (List (List Char)) :=
  (targets.bind Guard.split).map (·.2)

section Stages

variable {X : Crates} {Y : JsLibrary} {policy : Guard.Policy} {actor : ActorId} {req : JsValue}
  {tool args : String} {s : Guard.Sensitivity}

theorem rank_toRust (a : Guard.Sensitivity) : a.toRust.rank = a.order := by
  cases a <;> rfl

theorem firstDenied_toDoc (h : SameRequest X Y req tool args) (rules : List Guard.ArgDenyRule)
    (input : GuardInput) (htool : input.tool = tool) (hargs : input.argumentsJson = args) :
    (firstDenied X input (rules.map fun r => ⟨r.tool, r.pattern, r.reason⟩)).isSome =
      rules.any (Guard.matches_ Y req args) := by
  induction rules with
  | nil => rfl
  | cons rule rest ih =>
    have hmatches : Guard.matches_ Y req args rule =
        ((rule.tool = "*" || rule.tool = tool) && (X.regex rule.pattern).any fun test => test args) := by
      rw [Guard.matches_, h.tool, h.regex]
      simp [JsValue.isString, eq_comm]
    rw [List.map_cons, firstDenied, List.any_cons, ← ih, hmatches, htool, hargs]
    by_cases hstar : rule.tool = "*"
    · cases X.regex rule.pattern with
      | none => simp [hstar]
      | some test => cases htest : test args <;> simp [hstar, htest]
    · by_cases hrule : rule.tool = tool
      · cases X.regex rule.pattern with
        | none => simp [hrule]
        | some test => cases htest : test args <;> simp [hrule, htest]
      · simp [hstar, hrule]

theorem exceeds_toDoc :
    policy.toDoc.sensitivityCeiling.any (·.rank < s.toRust.rank) =
      Guard.exceeds policy.sensitivityCeiling (some s) := by
  rw [Guard.Policy.toDoc, Guard.exceeds]
  cases policy.sensitivityCeiling with
  | none => rfl
  | some ceiling =>
    simp only [Option.map_some, Option.any_some, rank_toRust]
    rfl

theorem find_toDoc :
    policy.toDoc.tools.find? (·.tool = tool) =
      (Guard.entry policy (.string tool)).map fun t => ⟨t.tool, t.risk.toRust, t.requireApproval⟩ := by
  rw [Guard.Policy.toDoc, Guard.entry, List.find?_map]
  congr 2
  funext t
  simp [JsValue.isString, eq_comm]

theorem requiresApproval_toDoc :
    (policy.toDoc.tools.find? (·.tool = tool)).any (·.requireApproval) =
      Guard.requiresApproval policy (.string tool) := by
  rw [find_toDoc, Guard.requiresApproval]
  cases Guard.entry policy (.string tool) <;> rfl

theorem riskFor_toDoc : riskFor tool policy.toDoc = (Guard.riskOf policy (.string tool)).toRust := by
  rw [riskFor, find_toDoc, Guard.riskOf]
  cases Guard.entry policy (.string tool) <;> rfl

theorem critical_toRust (r : Guard.Risk) : r.toRust = .critical ↔ r = .destructive := by
  cases r <;> decide

theorem firstDenied_isSome (h : SameRequest X Y req tool args) :
    (firstDenied X (guardInput policy actor tool args s) policy.toDoc.deny).isSome =
      Guard.denied Y policy req args :=
  firstDenied_toDoc h _ _ rfl rfl

/-- Both get to look for a safe variant, or neither does. -/
theorem consults_toDoc (h : SameRequest X Y req tool args) :
    consults X policy.toDoc (guardInput policy actor tool args s) =
      Guard.consults Y policy req (some s) args := by
  rw [consults, Guard.consults, firstDenied_isSome h, h.tool]
  have hexceeds : policy.toDoc.sensitivityCeiling.any
      (·.rank < (guardInput policy actor tool args s).sensitivity.rank) =
        policy.sensitivityCeiling.any fun ceiling =>
          (some s).any (Guard.sensitivityExceeds · ceiling) := exceeds_toDoc
  have happroval : (policy.toDoc.tools.find?
      (·.tool = (guardInput policy actor tool args s).tool)).any (·.requireApproval) =
        Guard.requiresApproval policy (.string tool) := requiresApproval_toDoc
  rw [hexceeds, happroval]
  rfl

/-- What the Rust evaluator decides, without its reasons. -/
theorem evaluate_decision (X : Crates) (policy : PolicyDoc) (input : GuardInput) :
    (evaluate X policy input).decision =
      if (firstDenied X input policy.deny).isSome then
        if (suggestConstrain X input).isSome then .requireApproval else .block
      else if policy.sensitivityCeiling.any (·.rank < input.sensitivity.rank) ||
          ((policy.tools.find? (·.tool = input.tool)).any (·.requireApproval) ||
            input.riskLevel = .critical) || input.tool = "shell.run" then .requireApproval
      else .allow := by
  rw [evaluate]
  cases firstDenied X input policy.deny with
  | some rule => cases suggestConstrain X input <;> rfl
  | none =>
    cases policy.sensitivityCeiling.any (·.rank < input.sensitivity.rank) with
    | true => rfl
    | false =>
      cases (policy.tools.find? (·.tool = input.tool)).any (·.requireApproval) with
      | true => rfl
      | false =>
        by_cases htool : input.tool = "shell.run"
        · cases suggestConstrain X input <;> simp [htool, Verdict.decision]
        · by_cases hrisk : input.riskLevel = .critical <;> simp [htool, hrisk, Verdict.decision]

theorem evaluate_decision_toDoc (h : SameRequest X Y req tool args) :
    (evaluate X policy.toDoc (guardInput policy actor tool args s)).decision =
      if Guard.denied Y policy req args then
        if (suggestConstrain X (guardInput policy actor tool args s)).isSome then .requireApproval
        else .block
      else if Guard.exceeds policy.sensitivityCeiling (some s) || Guard.gates policy (req.get "tool") ||
          (req.get "tool").isString "shell.run" then .requireApproval
      else .allow := by
  have hexceeds : policy.toDoc.sensitivityCeiling.any
      (·.rank < (guardInput policy actor tool args s).sensitivity.rank) =
        Guard.exceeds policy.sensitivityCeiling (some s) := exceeds_toDoc
  have happroval : (policy.toDoc.tools.find?
      (·.tool = (guardInput policy actor tool args s).tool)).any (·.requireApproval) =
        Guard.requiresApproval policy (.string tool) := requiresApproval_toDoc
  have hrisk : decide ((guardInput policy actor tool args s).riskLevel = .critical) =
      decide (Guard.riskOf policy (.string tool) = .destructive) := by
    rw [guardInput, riskFor_toDoc]
    exact decide_eq_decide.mpr (critical_toRust _)
  rw [evaluate_decision, firstDenied_isSome h, hexceeds, happroval, hrisk, h.tool]
  rfl

/-! ### The recognisers -/

theorem isWord_blank {p : Char → Bool} (hp : p ' ' = true) {t : List Char} (h : IsWord p t) :
    IsWord (· = ' ') t := by
  refine ⟨h.ne_nil, fun c hc => ?_⟩
  rw [decide_eq_false_iff_not]
  rintro rfl
  rw [h.clear ' ' hc] at hp
  cases hp

/-- A rewritten command tells what was left. -/
theorem rewritten_injective {p q : Char → Bool} (hp : p ' ' = true) (hq : q ' ' = true)
    {s t : List (List Char)} (hs : ∀ w ∈ s, IsWord p w) (ht : ∀ w ∈ t, IsWord q w)
    (h : Guard.rewritten s = Guard.rewritten t) : s = t := by
  have hjoin : [' '].intercalate s = [' '].intercalate t :=
    List.append_cancel_left (String.ofList_injective h)
  have hwords : words (· = ' ') ([' '].intercalate s) = s :=
    words_join (fun w hw => isWord_blank hp (hs w hw)) (by decide)
  rw [← hwords, hjoin]
  exact words_join (fun w hw => isWord_blank hq (ht w hw)) (by decide)

theorem leftOver_eq_some {targets : Option (List (List Char))} {remaining : List (List Char)} :
    leftOver targets = some remaining ↔
      ∃ tokens dropped, targets = some tokens ∧ Guard.split tokens = some (dropped, remaining) := by
  rw [leftOver]
  constructor
  · intro h
    obtain ⟨⟨dropped, kept⟩, hsplit, rfl⟩ := Option.map_eq_some_iff.mp h
    obtain ⟨tokens, htokens, hsplit⟩ := Option.bind_eq_some_iff.mp hsplit
    exact ⟨tokens, dropped, htokens, hsplit⟩
  · rintro ⟨tokens, dropped, rfl, hsplit⟩
    rw [Option.bind_some, hsplit, Option.map_some]

/-- The command is parsed exactly if the request has it. -/
theorem command_iff (h : SameRequest X Y req tool args) {cmd : String} :
    (∃ value, X.fromStr args = some value ∧ value.get "command" = some (.string cmd)) ↔
      (req.get "args").get "command" = .string cmd := by
  have hcommand := h.command
  constructor
  · rintro ⟨value, hvalue, hget⟩
    rw [hvalue, Option.bind_some, hget, Option.bind_some] at hcommand
    cases hreq : (req.get "args").get "command" <;> rw [hreq] at hcommand <;> cases hcommand
    rfl
  · intro hreq
    rw [hreq] at hcommand
    obtain ⟨value, hvalue, hcommand⟩ := Option.bind_eq_some_iff.mp hcommand
    obtain ⟨c, hc, hcommand⟩ := Option.bind_eq_some_iff.mp hcommand
    refine ⟨value, hvalue, ?_⟩
    cases c <;> cases hcommand
    exact hc

/-- What the Rust evaluator offers, in terms of the request's command. -/
theorem rust_offers (actor : ActorId) (h : SameRequest X Y req tool args) {offered : String} :
    (evaluate X policy.toDoc (guardInput policy actor tool args s)).constrainedInput = some offered ↔
      Guard.consults Y policy req (some s) args = true ∧ ∃ value cmd dropped remaining,
        X.fromStr args = some value ∧ value.get "command" = some (.string cmd) ∧
          leftOver (rmTargets cmd.toList) = some remaining ∧
            rewriteCommand cmd = some (Guard.rewritten remaining, dropped) ∧
              offered = (setCommand value (Guard.rewritten remaining)).toText X := by
  rw [constrainedInput_eq_some, consults_toDoc h]
  refine and_congr_right fun _ => ?_
  constructor
  · rintro ⟨value, cmd, new, dropped, hvalue, hcmd, hnew, rfl⟩
    obtain ⟨tokens, remaining, htokens, hsplit, rfl⟩ := rewriteCommand_eq_some.mp hnew
    exact ⟨value, cmd, dropped, remaining, hvalue, hcmd, leftOver_eq_some.mpr ⟨tokens, dropped, htokens, hsplit⟩,
      hnew, rfl⟩
  · rintro ⟨value, cmd, dropped, remaining, hvalue, hcmd, -, hnew, rfl⟩
    exact ⟨value, cmd, _, dropped, hvalue, hcmd, hnew, rfl⟩

/-- What the TypeScript evaluator offers. -/
theorem typescript_offers {constrained : JsValue} :
    (Guard.verdictOn Y policy req (some s) args).constrainedInput = some constrained ↔
      Guard.consults Y policy req (some s) args = true ∧ ∃ cmd remaining,
        (req.get "args").get "command" = .string cmd ∧
          leftOver (Guard.targets cmd.toList) = some remaining ∧
            constrained = .object (JsValue.setEntry "command" (.string (Guard.rewritten remaining))
              (req.get "args").spread) := by
  rw [Guard.verdictOn_constrainedInput]
  by_cases hconsults : Guard.consults Y policy req (some s) args = true
  · have htool : (req.get "tool").isString "shell.run" = true := by
      simp only [Guard.consults, Bool.and_eq_true] at hconsults
      exact hconsults.1
    rw [if_pos hconsults, Guard.suggestConstrainForShellRm_eq_some htool]
    simp only [hconsults, true_and, leftOver_eq_some]
    constructor
    · rintro ⟨cmd, tokens, dropped, remaining, hcmd, htokens, hsplit, hconstrained⟩
      exact ⟨cmd, remaining, hcmd, ⟨tokens, dropped, htokens, hsplit⟩, hconstrained⟩
    · rintro ⟨cmd, remaining, hcmd, ⟨tokens, dropped, htokens, hsplit⟩, hconstrained⟩
      exact ⟨cmd, tokens, dropped, remaining, hcmd, htokens, hsplit, hconstrained⟩
  · simp [hconsults]

/-- Where a deny rule matches, the two verdicts are of one kind if both offer something or neither does. -/
theorem suggests_of_offers (h : SameRequest X Y req tool args)
    (hoffers : (evaluate X policy.toDoc (guardInput policy actor tool args s)).constrainedInput.isSome =
      (Guard.verdictOn Y policy req (some s) args).constrainedInput.isSome)
    (hdenied : Guard.denied Y policy req args = true) :
    (suggestConstrain X (guardInput policy actor tool args s)).isSome =
      (Guard.suggestCommand req).isSome := by
  by_cases htool : tool = "shell.run"
  · have hconsults : Guard.consults Y policy req (some s) args = true := by
      rw [Guard.denied] at hdenied
      simp [Guard.consults, h.tool, hdenied, htool, JsValue.isString]
    rw [evaluate_constrainedInput, consults_toDoc h, if_pos hconsults,
      Guard.verdictOn_constrainedInput, if_pos hconsults, Option.isSome_map, Option.isSome_map,
      Guard.suggestConstrainForShellRm, Option.isSome_map] at hoffers
    exact hoffers
  · rw [suggestConstrain_of_tool htool, Guard.suggestCommand, h.tool, JsValue.isString,
      if_neg (by simpa using htool)]
    rfl

theorem decision_of_offers (h : SameRequest X Y req tool args)
    (hoffers : (evaluate X policy.toDoc (guardInput policy actor tool args s)).constrainedInput.isSome =
      (Guard.verdictOn Y policy req (some s) args).constrainedInput.isSome) :
    (evaluate X policy.toDoc (guardInput policy actor tool args s)).decision =
      (Guard.verdictOn Y policy req (some s) args).decision := by
  rw [evaluate_decision_toDoc h, Guard.verdictOn_decision]
  by_cases hdenied : Guard.denied Y policy req args = true
  · rw [if_pos hdenied, if_pos hdenied, suggests_of_offers h hoffers hdenied]
  · rw [if_neg hdenied, if_neg hdenied]

/-- What either recogniser leaves over are words of its own. -/
theorem isWord_leftOver {p : Char → Bool} {targets : Option (List (List Char))}
    {remaining : List (List Char)} (h : leftOver targets = some remaining)
    (hwords : ∀ tokens, targets = some tokens → ∀ t ∈ tokens, IsWord p t) :
    ∀ t ∈ remaining, IsWord p t := by
  obtain ⟨tokens, dropped, htokens, hsplit⟩ := leftOver_eq_some.mp h
  obtain ⟨-, -, hremaining, -⟩ := split_eq_some hsplit
  intro t ht
  rw [hremaining] at ht
  exact hwords tokens htokens t (List.mem_filter.mp ht).1

/-- A rewriting that the Rust evaluator would offer. -/
theorem rewriteCommand_of_leftOver {cmd : String} {remaining : List (List Char)}
    (h : leftOver (rmTargets cmd.toList) = some remaining) :
    ∃ dropped, rewriteCommand cmd = some (Guard.rewritten remaining, dropped) := by
  obtain ⟨tokens, dropped, htokens, hsplit⟩ := leftOver_eq_some.mp h
  exact ⟨dropped, rewriteCommand_eq_some.mpr ⟨tokens, remaining, htokens, hsplit, rfl⟩⟩

theorem leftOver_eq_of_agree (h : SameRequest X Y req tool args)
    (hagree : Agree X policy (guardInput policy actor tool args s) (Guard.verdictOn Y policy req (some s) args))
    (hconsults : Guard.consults Y policy req (some s) args = true) {cmd : String}
    (hcmd : (req.get "args").get "command" = .string cmd) :
    leftOver (rmTargets cmd.toList) = leftOver (Guard.targets cmd.toList) := by
  obtain ⟨value, hvalue, hget⟩ := (command_iff h).mpr hcmd
  cases hrust : leftOver (rmTargets cmd.toList) with
  | none =>
    by_contra hne
    obtain ⟨remaining, hts⟩ := Option.ne_none_iff_exists'.mp (Ne.symm hne)
    have hoffer := typescript_offers.mpr ⟨hconsults, cmd, remaining, hcmd, hts, rfl⟩
    have hsome := hagree.offers
    rw [hoffer] at hsome
    obtain ⟨offered, hoffered⟩ := Option.isSome_iff_exists.mp hsome
    obtain ⟨-, value', cmd', dropped, remaining', hvalue', hget', hrust', -⟩ := (rust_offers actor h).mp hoffered
    have hcmd' := (command_iff h).mp ⟨value', hvalue', hget'⟩
    rw [hcmd, JsValue.string.injEq] at hcmd'
    rw [← hcmd', hrust] at hrust'
    cases hrust'
  | some remaining =>
    obtain ⟨dropped, hnew⟩ := rewriteCommand_of_leftOver hrust
    have hoffered := (rust_offers actor h).mpr
      ⟨hconsults, value, cmd, dropped, remaining, hvalue, hget, hrust, hnew, rfl⟩
    have hsome := hagree.offers
    rw [hoffered] at hsome
    obtain ⟨constrained, hconstrained⟩ := Option.isSome_iff_exists.mp hsome.symm
    obtain ⟨-, cmd', remaining', hcmd', hts, hobject⟩ := typescript_offers.mp hconstrained
    rw [hcmd, JsValue.string.injEq] at hcmd'
    subst hcmd'
    obtain ⟨value', cmd'', new, dropped', hvalue', hget', hnew', -, hcommand⟩ :=
      hagree.command _ _ hoffered hconstrained
    have hcmd'' := (command_iff h).mp ⟨value', hvalue', hget'⟩
    rw [hcmd, JsValue.string.injEq] at hcmd''
    subst hcmd''
    cases hnew.symm.trans hnew'
    rw [hobject, Guard.get_setEntry, JsValue.string.injEq] at hcommand
    have hwords := isWord_leftOver hrust fun tokens htokens => isWord_of_rmTargets htokens
    have hwords' := isWord_leftOver hts fun tokens htokens => Guard.isWord_of_targets htokens
    rw [hts, rewritten_injective (by decide) (by decide) hwords' hwords hcommand]

theorem agree_of_leftOver_eq (h : SameRequest X Y req tool args)
    (hsame : Guard.consults Y policy req (some s) args = true → ∀ cmd,
      (req.get "args").get "command" = .string cmd →
        leftOver (rmTargets cmd.toList) = leftOver (Guard.targets cmd.toList)) :
    Agree X policy (guardInput policy actor tool args s) (Guard.verdictOn Y policy req (some s) args) := by
  have hoffers : (evaluate X policy.toDoc (guardInput policy actor tool args s)).constrainedInput.isSome =
      (Guard.verdictOn Y policy req (some s) args).constrainedInput.isSome := by
    rw [Bool.eq_iff_iff, Option.isSome_iff_exists, Option.isSome_iff_exists]
    constructor
    · rintro ⟨offered, hoffered⟩
      obtain ⟨hconsults, value, cmd, dropped, remaining, hvalue, hget, hrust, -⟩ :=
        (rust_offers actor h).mp hoffered
      have hcmd := (command_iff h).mp ⟨value, hvalue, hget⟩
      rw [hsame hconsults cmd hcmd] at hrust
      exact ⟨_, typescript_offers.mpr ⟨hconsults, cmd, remaining, hcmd, hrust, rfl⟩⟩
    · rintro ⟨constrained, hconstrained⟩
      obtain ⟨hconsults, cmd, remaining, hcmd, hts, -⟩ := typescript_offers.mp hconstrained
      obtain ⟨value, hvalue, hget⟩ := (command_iff h).mpr hcmd
      rw [← hsame hconsults cmd hcmd] at hts
      obtain ⟨dropped, hnew⟩ := rewriteCommand_of_leftOver hts
      exact ⟨_, (rust_offers actor h).mpr ⟨hconsults, value, cmd, dropped, remaining, hvalue, hget, hts, hnew, rfl⟩⟩
  refine ⟨decision_of_offers h hoffers, hoffers, fun offered constrained hoffered hconstrained => ?_⟩
  obtain ⟨hconsults, value, cmd, dropped, remaining, hvalue, hget, hrust, hnew, hargs⟩ :=
    (rust_offers actor h).mp hoffered
  obtain ⟨-, cmd', remaining', hcmd', hts, hobject⟩ := typescript_offers.mp hconstrained
  have hcmd := (command_iff h).mp ⟨value, hvalue, hget⟩
  cases hcmd.symm.trans hcmd'
  rw [hsame hconsults cmd hcmd, hts] at hrust
  cases hrust
  exact ⟨value, cmd, _, dropped, hvalue, hget, hnew, hargs, by rw [hobject, Guard.get_setEntry]⟩

/-- **The two evaluators agree** on a request exactly when, if they get to look for a safe variant of its command, the two readings of the command leave over the same targets. -/
theorem evaluators_agree_iff (X : Crates) (Y : JsLibrary) (policy : Guard.Policy) (actor : ActorId)
    (req : JsValue) (tool args : String) (s : Guard.Sensitivity) (v : Guard.PolicyVerdict)
    (h : SameRequest X Y req tool args) (hv : Guard.evaluate Y policy req (some s) = .ok v) :
    Agree X policy (guardInput policy actor tool args s) v ↔
      (Guard.consults Y policy req (some s) args = true → ∀ cmd,
        (req.get "args").get "command" = .string cmd →
          leftOver (rmTargets cmd.toList) = leftOver (Guard.targets cmd.toList)) := by
  rw [Guard.evaluate, h.text] at hv
  cases hv
  constructor
  · intro hagree hconsults cmd hcmd
    exact leftOver_eq_of_agree h hagree hconsults hcmd
  · intro hsame
    exact agree_of_leftOver_eq h hsame

end Stages

/-! ### Sample requests -/

/-- A request to run a command. -/
def shellRequest (cmd : String) : JsValue :=
  .object [("tool", .string "shell.run"), ("args", .object [("command", .string cmd)])]

/-- The text of its arguments. -/
def shellArgs (cmd : String) : String :=
  String.ofList (printJson .sample (.object [("command", .string cmd)]))

/-- A parser that knows that text, and the patterns of the sample library. -/
def shellCrates (cmd : String) : Crates :=
  { Crates.sample with
    fromStr := fun text => if text = shellArgs cmd then some (.object [("command", .string cmd)]) else none
    regex := JsLibrary.sample.regExp }

theorem argsJson_shell (cmd : String) : Guard.argsJson .sample (shellRequest cmd) = .ok (shellArgs cmd) := by
  have hkey : arrayIndex "command" = none := by decide
  have hthrough : throughJson (.object [("command", .string cmd)]) =
      .ok (.object [("command", .string cmd)]) := by
    simp [throughJson, entriesThroughJson, ownEntries, hkey, JsValue.isUndefined, bind, Except.bind, pure,
      Except.pure]
  have hargs : ((shellRequest cmd).get "args").orEmpty = .object [("command", .string cmd)] := rfl
  rw [Guard.argsJson, hargs, hthrough]
  rfl

theorem sameRequest_shell (cmd : String) :
    SameRequest (shellCrates cmd) .sample (shellRequest cmd) "shell.run" (shellArgs cmd) := by
  refine ⟨rfl, argsJson_shell cmd, ?_, rfl⟩
  rw [shellCrates]
  simp [shellRequest, JsValue.get, JsValue.asText, Value.get, Value.asStr]

def openPolicy : Guard.Policy := ⟨none, none, none, none⟩

theorem evaluate_shell (cmd : String) :
    Guard.evaluate .sample openPolicy (shellRequest cmd) (some .low) =
      .ok (Guard.verdictOn .sample openPolicy (shellRequest cmd) (some .low) (shellArgs cmd)) := by
  rw [Guard.evaluate, argsJson_shell]
  rfl

theorem evaluators_agree_dist :
    ∃ v, Guard.evaluate .sample openPolicy (shellRequest "rm -rf build dist") (some .low) = .ok v ∧
      Agree (shellCrates "rm -rf build dist") openPolicy
        (guardInput openPolicy "agent" "shell.run" (shellArgs "rm -rf build dist") .low) v := by
  refine ⟨_, evaluate_shell _, (evaluators_agree_iff (shellCrates "rm -rf build dist") .sample openPolicy
    "agent" (shellRequest "rm -rf build dist") "shell.run" (shellArgs "rm -rf build dist") .low _
    (sameRequest_shell _) (evaluate_shell _)).mpr ?_⟩
  rintro - cmd hcmd
  cases hcmd
  decide

/-- Only Rust takes `-fr` for `-rf`. -/
theorem evaluators_differ :
    SameRequest (shellCrates "rm -fr build dist") .sample (shellRequest "rm -fr build dist") "shell.run"
        (shellArgs "rm -fr build dist") ∧
      ∃ v, Guard.evaluate .sample openPolicy (shellRequest "rm -fr build dist") (some .low) = .ok v ∧
        ¬ Agree (shellCrates "rm -fr build dist") openPolicy
          (guardInput openPolicy "agent" "shell.run" (shellArgs "rm -fr build dist") .low) v := by
  refine ⟨sameRequest_shell _, _, evaluate_shell _, fun h => ?_⟩
  have hsame := leftOver_eq_of_agree (sameRequest_shell "rm -fr build dist") h (by decide) rfl
  revert hsame
  decide

end ActantDb
