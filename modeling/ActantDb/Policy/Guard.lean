import ActantDb.Ledger.JsValue
import ActantDb.Policy.Evaluate

/-!
# The TypeScript policy evaluator

The same decision as in `actant-policy`'s Rust crate, written a second time over JavaScript values. The names of the two are kept apart by a namespace.
-/

namespace ActantDb

namespace JsValue

/-- `{ ...obj, [key]: v }`, on the entries of `obj`. -/
def setEntry (key : String) (v : JsValue) : List (String × JsValue) → List (String × JsValue)
  | [] => [(key, v)]
  | e :: rest => if e.1 = key then (key, v) :: rest else e :: setEntry key v rest

/-- The entries that `{ ...v }` copies. -/
def spread : JsValue → List (String × JsValue)
  | .object entries => entries
  | .array items => items.zipIdx.map fun (v, i) => (toString i, v)
  | .string s => s.toList.zipIdx.map fun (c, i) => (toString i, .string (String.ofList [c]))
  | _ => []

def asText : JsValue → Option String
  | .string s => some s
  | _ => none

/-- `v ?? {}`. -/
def orEmpty : JsValue → JsValue
  | .undefined => .object []
  | .null => .object []
  | v => v

end JsValue

namespace Guard

inductive Risk where
  | low
  | medium
  | high
  | destructive
deriving DecidableEq, Repr

inductive Sensitivity where
  | «public»
  | low
  | medium
  | high
  | secret
deriving DecidableEq, Repr

def Risk.text : Risk → String
  | .low => "low"
  | .medium => "medium"
  | .high => "high"
  | .destructive => "destructive"

def Sensitivity.text : Sensitivity → String
  | .«public» => "public"
  | .low => "low"
  | .medium => "medium"
  | .high => "high"
  | .secret => "secret"

/-- `SENS_ORDER`. -/
def Sensitivity.order : Sensitivity → Nat
  | .«public» => 0
  | .low => 1
  | .medium => 2
  | .high => 3
  | .secret => 4

def sensitivityExceeds (a ceiling : Sensitivity) : Bool := ceiling.order < a.order

structure ToolRiskEntry where
  tool : String
  risk : Risk
  requireApproval : Bool
deriving DecidableEq

structure ArgDenyRule where
  tool : String
  pattern : String
  reason : String
deriving DecidableEq

structure Policy where
  label : Option String
  sensitivityCeiling : Option Sensitivity
  tools : Option (List ToolRiskEntry)
  deny : Option (List ArgDenyRule)
deriving DecidableEq

inductive Decision where
  | allow
  | constrain
  | requireApproval
  | block
  | halt
deriving DecidableEq, Repr

def Decision.text : Decision → String
  | .allow => "allow"
  | .constrain => "constrain"
  | .requireApproval => "require_approval"
  | .block => "block"
  | .halt => "halt"

structure PolicyVerdict where
  decision : Decision
  reason : String
  policySnapshot : String
  hint : Option String := none
  constrainedInput : Option JsValue := none

def PolicyVerdict.entries (v : PolicyVerdict) : List (String × JsValue) :=
  [("decision", .string v.decision.text), ("reason", .string v.reason),
    ("policy_snapshot", .string v.policySnapshot)] ++
    v.hint.toList.map (fun hint => ("hint", .string hint)) ++
    v.constrainedInput.toList.map fun args => ("constrained_input", args)

/-- A policy as the object that is hashed. -/
def Policy.toJs (p : Policy) : JsValue :=
  .object (p.label.toList.map (fun label => ("label", .string label)) ++
    p.sensitivityCeiling.toList.map (fun ceiling => ("sensitivity_ceiling", .string ceiling.text)) ++
    p.tools.toList.map (fun tools => ("tools", .array (tools.map fun t =>
      .object [("tool", .string t.tool), ("risk", .string t.risk.text),
        ("require_approval", .bool t.requireApproval)]))) ++
    p.deny.toList.map fun deny => ("deny", .array (deny.map fun r =>
      .object [("tool", .string r.tool), ("pattern", .string r.pattern), ("reason", .string r.reason)])))

/-! ### The suggested rewriting -/

/-- `\s`. -/
def isSpace (c : Char) : Bool :=
  (9 ≤ c.toNat && c.toNat ≤ 13) || (0x2000 ≤ c.toNat && c.toNat ≤ 0x200a) ||
    c.toNat ∈ [0x20, 0xa0, 0x1680, 0x2028, 0x2029, 0x202f, 0x205f, 0x3000, 0xfeff]

/-- What `.` does not match. -/
def isLineTerminator (c : Char) : Bool := c.toNat ∈ [0x0a, 0x0d, 0x2028, 0x2029]

/-- `\s+`, as much as there is of it. -/
def skipSpaces : List Char → Option (List Char)
  | [] => none
  | c :: rest => if isSpace c then some (rest.dropWhile isSpace) else none

/-- The words that `split(/\s+/)` leaves of a trimmed text. -/
def words (s : List Char) : List (List Char) := (s.splitOnP isSpace).filter (· ≠ [])

/-- The targets in a command that `/^\s*rm\s+-rf\s+(.+)$/` matches. Where only space follows, the group is a space and there is no target. -/
def targets (cmd : List Char) : Option (List (List Char)) := do
  let flag ← skipSpaces (← dropPrefix? "rm".toList (cmd.dropWhile isSpace))
  let rest ← skipSpaces (← dropPrefix? "-rf".toList flag)
  if rest.any isLineTerminator then none else some (words rest)

def rewritten (remaining : List (List Char)) : String :=
  String.ofList ("rm -rf ".toList ++ [' '].intercalate remaining)

/-- The target to drop and those to keep. -/
def split (tokens : List (List Char)) : Option (List Char × List (List Char)) :=
  if tokens.length < 2 then none
  else do
    let dropped ← (tokens.filter dangerous).head?
    let remaining := tokens.filter (· ≠ dropped)
    if remaining.isEmpty then none else some (dropped, remaining)

/-- The new command and what it drops. -/
def suggestCommand (req : JsValue) : Option (String × String) :=
  if (req.get "tool").isString "shell.run" then do
    let cmd ← ((req.get "args").get "command").asText
    let (dropped, remaining) ← split (← targets cmd.toList)
    return (rewritten remaining, String.ofList dropped)
  else none

def suggestConstrainForShellRm (req : JsValue) : Option (JsValue × String) :=
  (suggestCommand req).map fun (command, dropped) =>
    (.object (JsValue.setEntry "command" (.string command) (req.get "args").spread), dropped)

/-! ### The evaluator -/

variable (X : JsLibrary)

def entry (policy : Policy) (tool : JsValue) : Option ToolRiskEntry :=
  (policy.tools.getD []).find? fun t => tool.isString t.tool

def riskOf (policy : Policy) (tool : JsValue) : Risk := ((entry policy tool).map (·.risk)).getD .low

def requiresApproval (policy : Policy) (tool : JsValue) : Bool := (entry policy tool).any (·.requireApproval)

/-- `JSON.stringify(req.args ?? {})`, as the text that a regular expression is tested on. -/
def argsJson (req : JsValue) : Except Thrown String := do
  let j ← throughJson (req.get "args").orEmpty
  return if j.isUndefined then "undefined" else String.ofList (printJson X j)

/-- The rule is about the tool, its pattern compiles and matches the arguments. -/
def matches_ (req : JsValue) (args : String) (rule : ArgDenyRule) : Bool :=
  (rule.tool = "*" || (req.get "tool").isString rule.tool) &&
    (X.regExp rule.pattern).any fun test => test args

def snapshotHash (policy : Policy) : String :=
  match sha256OfJSON X policy.toJs with
  | .ok hash => hash
  | .error _ => ""

/-- Ask for approval, offering the rewritten command if there is one. -/
def withSuggestion (req : JsValue) (reason snap : String) : Option PolicyVerdict :=
  (suggestConstrainForShellRm req).map fun (args, dropped) =>
    { decision := .requireApproval, reason, policySnapshot := snap,
      hint := some ("drop " ++ dropped), constrainedInput := some args }

def toolText (tool : JsValue) : String := tool.asText.getD ""

/-- The verdict, once the arguments are printed. -/
def verdictOn (policy : Policy) (req : JsValue) (argsSensitivity : Option Sensitivity) (args : String) :
    PolicyVerdict :=
  let snap := snapshotHash X policy
  let tool := req.get "tool"
  match (policy.deny.getD []).find? (matches_ X req args) with
  | some rule =>
    (withSuggestion req rule.reason snap).getD
      { decision := .block, reason := rule.reason, policySnapshot := snap }
  | none =>
    if policy.sensitivityCeiling.any fun ceiling => argsSensitivity.any (sensitivityExceeds · ceiling) then
      { decision := .requireApproval
        reason := "args sensitivity " ++ argsSensitivity.elim "" (·.text) ++ " exceeds ceiling " ++
          policy.sensitivityCeiling.elim "" (·.text)
        policySnapshot := snap }
    else if requiresApproval policy tool then
      { decision := .requireApproval
        reason := "tool " ++ toolText tool ++ " is configured require_approval"
        policySnapshot := snap }
    else if tool.isString "shell.run" then
      (withSuggestion req "shell.run requires approval (destructive pattern detected)" snap).getD
        { decision := .requireApproval, reason := "shell.run requires approval by default"
          policySnapshot := snap }
    else if riskOf policy tool = .destructive then
      { decision := .requireApproval
        reason := "tool " ++ toolText tool ++ " classified destructive"
        policySnapshot := snap }
    else { decision := .allow, reason := "risk=" ++ (riskOf policy tool).text, policySnapshot := snap }

def evaluate (policy : Policy) (req : JsValue) (argsSensitivity : Option Sensitivity := none) :
    Except Thrown PolicyVerdict := do
  let args ← argsJson X req
  return verdictOn X policy req argsSensitivity args

end Guard

end ActantDb
