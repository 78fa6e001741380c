import Mathlib.Data.List.Basic
import ActantDb.Core.Model

/-!
# The policy evaluator

`evaluate` and the one rewriting it suggests, over a policy document. Regular expressions and the JSON parser are third-party, so a rule's pattern is looked up in `Crates` and a pattern that does not compile is skipped.
-/

namespace ActantDb

inductive Verdict where
  | allow (reason : String)
  | constrain (reason constrainedInput hint : String)
  | requireApproval (reason : String) (hint constrainedInput : Option String)
  | block (reason : String)
  | halt (reason : String)
deriving DecidableEq, Repr

structure ToolPolicy where
  tool : String
  riskLevel : RiskLevel
  requireApproval : Bool
deriving DecidableEq

structure DenyRule where
  tool : String
  pattern : String
  reason : String
deriving DecidableEq

structure PolicyDoc where
  name : String
  tools : List ToolPolicy
  deny : List DenyRule
  sensitivityCeiling : Option Sensitivity
deriving DecidableEq

structure GuardInput where
  actorId : ActorId
  tool : String
  argumentsJson : String
  riskLevel : RiskLevel
  sensitivity : Sensitivity

/-- `{:?}`. -/
def Sensitivity.debug : Sensitivity → String
  | .«public» => "Public"
  | .low => "Low"
  | .medium => "Medium"
  | .high => "High"
  | .secret => "Secret"
  | .regulated => "Regulated"

/-- `{:?}`. -/
def RiskLevel.debug : RiskLevel → String
  | .low => "Low"
  | .medium => "Medium"
  | .high => "High"
  | .critical => "Critical"

/-- A `json!` object, whose map keeps its keys sorted. -/
def Value.ofFields (fields : List (String × Value)) : Value := .object (collectEntries fields)

def Value.ofOption : Option String → Value
  | none => .null
  | some s => .string s

/-- The internally tagged form of a verdict. -/
def Verdict.toValue : Verdict → Value
  | .allow reason => .ofFields [("decision", .string "allow"), ("reason", .string reason)]
  | .constrain reason constrainedInput hint =>
    .ofFields [("decision", .string "constrain"), ("reason", .string reason),
      ("constrained_input", .string constrainedInput), ("hint", .string hint)]
  | .requireApproval reason hint constrainedInput =>
    .ofFields [("decision", .string "require_approval"), ("reason", .string reason),
      ("hint", .ofOption hint), ("constrained_input", .ofOption constrainedInput)]
  | .block reason => .ofFields [("decision", .string "block"), ("reason", .string reason)]
  | .halt reason => .ofFields [("decision", .string "halt"), ("reason", .string reason)]

/-! ### Text -/

def splitWhitespace (s : List Char) : List (List Char) :=
  (s.splitOnP isWhitespace).filter (· ≠ [])

/-- `str::strip_prefix`. -/
def dropPrefix? : List Char → List Char → Option (List Char)
  | [], s => some s
  | _ :: _, [] => none
  | c :: pat, d :: s => if c = d then dropPrefix? pat s else none

/-! ### The suggested rewriting -/

structure Constrained where
  argsJson : String
  dropped : String

def dangerous (t : List Char) : Bool :=
  t = "/".toList || t = "dist".toList || "/dist".toList.isSuffixOf t || "~".toList.isPrefixOf t

variable (X : Crates)

def suggestConstrain (input : GuardInput) : Option Constrained :=
  if input.tool ≠ "shell.run" then none
  else do
    let v ← X.fromStr input.argumentsJson
    let cmd ← (← v.get "command").asStr
    let trimmed := trim cmd.toList
    let rest ← (dropPrefix? "rm -rf ".toList trimmed).or (dropPrefix? "rm -fr ".toList trimmed)
    let tokens := splitWhitespace rest
    if tokens.length < 2 then none
    else do
      let dropped ← tokens.find? dangerous
      let remaining := tokens.filter (· ≠ dropped)
      if remaining.isEmpty then none
      else
        let newCmd := String.ofList ("rm -rf ".toList ++ [' '].intercalate remaining)
        let newArgs : Value :=
          match v with
          | .object entries => .object (Value.insertEntry "command" (.string newCmd) entries)
          | other => other
        some ⟨newArgs.toText X, String.ofList dropped⟩

/-! ### The evaluator -/

/-- The first deny rule that applies and whose pattern matches. -/
def firstDenied (input : GuardInput) : List DenyRule → Option DenyRule
  | [] => none
  | rule :: rest =>
    if rule.tool ≠ "*" ∧ rule.tool ≠ input.tool then firstDenied input rest
    else
      match X.regex rule.pattern with
      | none => firstDenied input rest
      | some isMatch => if isMatch input.argumentsJson then some rule else firstDenied input rest

def evaluate (policy : PolicyDoc) (input : GuardInput) : Verdict :=
  match firstDenied X input policy.deny with
  | some rule =>
    match suggestConstrain X input with
    | some c => .requireApproval rule.reason (some ("drop " ++ c.dropped)) (some c.argsJson)
    | none => .block rule.reason
  | none =>
    if policy.sensitivityCeiling.any (·.rank < input.sensitivity.rank) then
      .requireApproval ("args sensitivity " ++ input.sensitivity.debug ++ " exceeds ceiling " ++
        (policy.sensitivityCeiling.elim "" (·.debug))) none none
    else if (policy.tools.find? (·.tool = input.tool)).any (·.requireApproval) then
      .requireApproval ("tool " ++ input.tool ++ " requires approval by policy") none none
    else if input.tool = "shell.run" then
      match suggestConstrain X input with
      | some c =>
        .requireApproval "shell.run with destructive pattern" (some ("drop " ++ c.dropped))
          (some c.argsJson)
      | none => .requireApproval "shell.run requires approval by default" none none
    else if input.riskLevel = .critical then
      .requireApproval ("tool " ++ input.tool ++ " classified critical") none none
    else .allow ("risk=" ++ input.riskLevel.debug)

/-- The evaluator never halts a run and never rewrites on its own. -/
theorem evaluate_cases (policy : PolicyDoc) (input : GuardInput) :
    (∃ reason, evaluate X policy input = .allow reason) ∨
      (∃ reason hint args, evaluate X policy input = .requireApproval reason hint args) ∨
      ∃ reason, evaluate X policy input = .block reason := by
  unfold evaluate
  cases firstDenied X input policy.deny with
  | some rule =>
    cases suggestConstrain X input with
    | some c => exact Or.inr (Or.inl ⟨_, _, _, rfl⟩)
    | none => exact Or.inr (Or.inr ⟨_, rfl⟩)
  | none =>
    dsimp only
    split_ifs
    · exact Or.inr (Or.inl ⟨_, _, _, rfl⟩)
    · exact Or.inr (Or.inl ⟨_, _, _, rfl⟩)
    · cases suggestConstrain X input with
      | some c => exact Or.inr (Or.inl ⟨_, _, _, rfl⟩)
      | none => exact Or.inr (Or.inl ⟨_, _, _, rfl⟩)
    · exact Or.inr (Or.inl ⟨_, _, _, rfl⟩)
    · exact Or.inl ⟨_, rfl⟩

/-- `risk_for`. -/
def riskFor (tool : String) (policy : PolicyDoc) : RiskLevel :=
  ((policy.tools.find? (·.tool = tool)).map (·.riskLevel)).getD .low

def alphaDemoPolicy : PolicyDoc where
  name := "alpha-demo"
  sensitivityCeiling := some .high
  tools := [
    { tool := "shell.run", riskLevel := .critical, requireApproval := true },
    { tool := "file.write", riskLevel := .medium, requireApproval := false },
    { tool := "file.read", riskLevel := .low, requireApproval := false }]
  deny := [
    { tool := "shell.run"
      pattern := "rm\\s+-rf\\s+.*\\bdist\\b"
      reason := "rm -rf includes /dist — release artifacts" },
    { tool := "shell.run"
      pattern := "rm\\s+-rf\\s+/(?:\\W|$)"
      reason := "rm -rf on filesystem root" }]

end ActantDb
