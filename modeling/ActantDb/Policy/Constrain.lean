import ActantDb.Lib.Words
import ActantDb.Policy.Guard

/-!
# What the rewritten command deletes

Both evaluators offer the approver a variant of an `rm -rf` with its dangerous target taken out. Each takes out the first dangerous target it finds, with its repetitions, and leaves any other in place. The target lists of the original and of the rewritten command are read by the same recogniser, so nothing here depends on how a command is spaced.
-/

namespace ActantDb

open Words

/-- The targets that no approver needs to be warned of. -/
def harmless (tokens : List (List Char)) : List (List Char) := tokens.filter fun t => !dangerous t

/-- No two different dangerous targets. -/
def OneDanger (tokens : List (List Char)) : Prop :=
  ∀ t ∈ tokens, ∀ u ∈ tokens, dangerous t = true → dangerous u = true → t = u

section Split

variable {tokens remaining : List (List Char)} {dropped : List Char}

theorem split_eq_some (h : Guard.split tokens = some (dropped, remaining)) :
    dropped ∈ tokens ∧ dangerous dropped = true ∧ remaining = tokens.filter (· ≠ dropped) ∧
      remaining ≠ [] := by
  rw [Guard.split] at h
  split at h
  · cases h
  · cases hdrop : (tokens.filter dangerous).head? with
    | none => simp [hdrop] at h
    | some d =>
      simp only [hdrop, Option.bind_eq_bind, Option.bind_some] at h
      split at h
      · cases h
      · rename_i hne
        obtain ⟨rfl, rfl⟩ := Prod.mk.inj (Option.some.inj h)
        obtain ⟨hmem, hdanger⟩ := List.mem_filter.mp (List.mem_of_head? hdrop)
        exact ⟨hmem, hdanger, rfl, by simpa using hne⟩

/-- Two different dangerous targets always leave something to offer. -/
theorem split_isSome {t u : List Char} (ht : t ∈ tokens) (hu : u ∈ tokens) (htd : dangerous t = true)
    (hne : t ≠ u) : (Guard.split tokens).isSome := by
  obtain ⟨d, hd⟩ : ∃ d, (tokens.filter dangerous).head? = some d := by
    cases hfilter : tokens.filter dangerous with
    | nil => exact absurd (List.mem_filter.mpr ⟨ht, htd⟩) (by simp [hfilter])
    | cons d rest => exact ⟨d, rfl⟩
  have hlength : ¬ tokens.length < 2 := by
    intro hlt
    match tokens, hlt with
    | [], _ => cases ht
    | [v], _ =>
      rw [List.mem_singleton] at ht hu
      exact hne (ht.trans hu.symm)
  have hkept : ∃ v, v ∈ tokens.filter (· ≠ d) := by
    by_cases htd : t = d
    · exact ⟨u, List.mem_filter.mpr ⟨hu, by simpa [← htd] using Ne.symm hne⟩⟩
    · exact ⟨t, List.mem_filter.mpr ⟨ht, by simpa using htd⟩⟩
  obtain ⟨v, hv⟩ := hkept
  have hremaining : (tokens.filter (· ≠ d)).isEmpty = false := by
    cases hfilter : tokens.filter (· ≠ d) with
    | nil => rw [hfilter] at hv; cases hv
    | cons _ _ => rfl
  rw [Guard.split, if_neg hlength]
  simp only [hd, Option.bind_eq_bind, Option.bind_some, hremaining]
  rfl

/-- What is kept is what is harmless exactly when the dropped target was the only dangerous one. -/
theorem remaining_eq_harmless_iff (h : Guard.split tokens = some (dropped, remaining)) :
    remaining = harmless tokens ↔ OneDanger tokens := by
  obtain ⟨hmem, hdanger, rfl, -⟩ := split_eq_some h
  constructor
  · intro heq t ht u hu htd hud
    have hdrop : ∀ v ∈ tokens, dangerous v = true → v = dropped := by
      intro v hv hvd
      by_contra hne
      have hkept : v ∈ harmless tokens := heq ▸ List.mem_filter.mpr ⟨hv, by simpa using hne⟩
      have hclear := (List.mem_filter.mp hkept).2
      rw [hvd] at hclear
      cases hclear
    rw [hdrop t ht htd, hdrop u hu hud]
  · intro hone
    refine List.filter_congr fun t ht => ?_
    by_cases heq : t = dropped
    · simp [heq, hdanger]
    · cases htd : dangerous t with
      | true => exact absurd (hone t ht dropped hmem htd hdanger) heq
      | false => simp [heq]

end Split

/-! ### The Rust evaluator -/

/-- The targets of a command that the Rust evaluator recognises. -/
def rmTargets (cmd : List Char) : Option (List (List Char)) :=
  ((dropPrefix? "rm -rf ".toList (trim cmd)).or (dropPrefix? "rm -fr ".toList (trim cmd))).map
    splitWhitespace

/-- The command with its first dangerous target dropped, and that target. -/
def rewriteCommand (cmd : String) : Option (String × List Char) := do
  let (dropped, remaining) ← Guard.split (← rmTargets cmd.toList)
  return (Guard.rewritten remaining, dropped)

/-- The arguments with another command. -/
def setCommand (v : Value) (cmd : String) : Value :=
  match v with
  | .object entries => .object (Value.insertEntry "command" (.string cmd) entries)
  | other => other

def Verdict.constrainedInput : Verdict → Option String
  | .constrain _ constrainedInput _ => some constrainedInput
  | .requireApproval _ _ constrainedInput => constrainedInput
  | _ => none

/-- The evaluator gets to the point of looking for a safe variant: a deny rule matched, or nothing before the default for the shell held the request up. -/
def consults (X : Crates) (policy : PolicyDoc) (input : GuardInput) : Bool :=
  input.tool = "shell.run" &&
    ((firstDenied X input policy.deny).isSome ||
      !(policy.sensitivityCeiling.any (·.rank < input.sensitivity.rank) ||
        (policy.tools.find? (·.tool = input.tool)).any (·.requireApproval)))

/-- A constrained input that is offered deletes exactly the harmless targets. -/
def RemovesDanger (X : Crates) (policy : PolicyDoc) (input : GuardInput) : Prop :=
  ∀ args, (evaluate X policy input).constrainedInput = some args →
    ∃ v cmd new dropped tokens, X.fromStr input.argumentsJson = some v ∧
      v.get "command" = some (.string cmd) ∧ rewriteCommand cmd = some (new, dropped) ∧
      args = (setCommand v new).toText X ∧ rmTargets cmd.toList = some tokens ∧
      rmTargets new.toList = some (harmless tokens)

section Rust

variable {X : Crates} {policy : PolicyDoc} {input : GuardInput}

theorem splitWhitespace_eq (s : List Char) : splitWhitespace s = words isWhitespace s := by
  rw [splitWhitespace, words]
  refine List.filter_congr fun t _ => ?_
  cases t <;> rfl

theorem isWord_of_rmTargets {cmd : List Char} {tokens : List (List Char)}
    (h : rmTargets cmd = some tokens) : ∀ t ∈ tokens, IsWord isWhitespace t := by
  obtain ⟨rest, -, rfl⟩ := Option.map_eq_some_iff.mp h
  intro t ht
  rw [splitWhitespace_eq] at ht
  exact isWord_of_mem ht

theorem dropPrefix?_append (pat s : List Char) : dropPrefix? pat (pat ++ s) = some s := by
  induction pat with
  | nil =>
    cases s with
    | nil => rfl
    | cons c s => rfl
  | cons c pat ih => rw [List.cons_append, dropPrefix?, if_pos rfl, ih]

/-- The rewritten command is read back as the targets it was made of. -/
theorem rmTargets_rewritten {remaining : List (List Char)} (hwords : ∀ t ∈ remaining, IsWord isWhitespace t)
    (hne : remaining ≠ []) : rmTargets (Guard.rewritten remaining).toList = some remaining := by
  have htext : (Guard.rewritten remaining).toList = "rm -rf ".toList ++ [' '].intercalate remaining :=
    String.toList_ofList
  obtain ⟨front, c, hconcat, hc⟩ := exists_join_eq_concat ' ' hwords hne
  have htrim : trim ("rm -rf ".toList ++ [' '].intercalate remaining) =
      "rm -rf ".toList ++ [' '].intercalate remaining := by
    have hhead : "rm -rf ".toList ++ [' '].intercalate remaining =
        'r' :: ("m -rf ".toList ++ [' '].intercalate remaining) := by simp
    have hlast : "rm -rf ".toList ++ [' '].intercalate remaining = ("rm -rf ".toList ++ front) ++ [c] := by
      rw [hconcat, List.append_assoc]
    exact trim_eq_self hhead hlast (by decide) hc
  rw [rmTargets, htext, htrim, dropPrefix?_append, Option.some_or, Option.map_some, splitWhitespace_eq,
    words_join hwords (by decide)]

/-- The suggestion through the rewriting of the command. -/
theorem suggestConstrain_eq (X : Crates) (input : GuardInput) :
    suggestConstrain X input =
      if input.tool ≠ "shell.run" then none
      else (X.fromStr input.argumentsJson).bind fun v =>
        ((v.get "command").bind (·.asStr)).bind fun cmd =>
          (rewriteCommand cmd).map fun r => ⟨(setCommand v r.1).toText X, String.ofList r.2⟩ := by
  rw [suggestConstrain]
  by_cases htool : input.tool ≠ "shell.run"
  · rw [if_pos htool, if_pos htool]
  · rw [if_neg htool, if_neg htool]
    cases X.fromStr input.argumentsJson with
    | none => rfl
    | some v =>
      simp only [Option.bind_eq_bind, Option.bind_some]
      cases v.get "command" with
      | none => rfl
      | some c =>
        simp only [Option.bind_some]
        cases c.asStr with
        | none => rfl
        | some cmd =>
          simp only [Option.bind_some, rewriteCommand, rmTargets]
          cases (dropPrefix? "rm -rf ".toList (trim cmd.toList)).or
              (dropPrefix? "rm -fr ".toList (trim cmd.toList)) with
          | none => rfl
          | some rest =>
            simp only [Option.map_some, Option.bind_eq_bind, Option.bind_some, Guard.split,
              List.head?_filter]
            split
            · rfl
            · cases (splitWhitespace rest).find? dangerous with
              | none => rfl
              | some dropped =>
                simp only [Option.bind_some]
                split
                · rfl
                · cases v <;> rfl

theorem suggestConstrain_of_tool (h : input.tool ≠ "shell.run") : suggestConstrain X input = none := by
  rw [suggestConstrain, if_pos h]

theorem evaluate_constrainedInput (X : Crates) (policy : PolicyDoc) (input : GuardInput) :
    (evaluate X policy input).constrainedInput =
      if consults X policy input then (suggestConstrain X input).map (·.argsJson) else none := by
  rw [evaluate, consults]
  cases firstDenied X input policy.deny with
  | some rule =>
    by_cases htool : input.tool = "shell.run"
    · cases suggestConstrain X input with
      | none => simp [Verdict.constrainedInput]
      | some c => simp [Verdict.constrainedInput, htool]
    · simp [Verdict.constrainedInput, suggestConstrain_of_tool htool]
  | none =>
    dsimp only
    by_cases hceiling : policy.sensitivityCeiling.any (·.rank < input.sensitivity.rank) = true
    · simp [Verdict.constrainedInput, hceiling]
    · by_cases happroval : (policy.tools.find? (·.tool = input.tool)).any (·.requireApproval) = true
      · simp [Verdict.constrainedInput, hceiling, happroval]
      · rw [if_neg hceiling, if_neg happroval]
        by_cases htool : input.tool = "shell.run"
        · rw [if_pos htool]
          cases suggestConstrain X input with
          | none => simp [Verdict.constrainedInput]
          | some c => simp_all [Verdict.constrainedInput]
        · rw [if_neg htool]
          split_ifs <;> simp [Verdict.constrainedInput, suggestConstrain_of_tool htool]

/-- The offer, from the command alone. -/
theorem constrainedInput_eq_some {args : String} :
    (evaluate X policy input).constrainedInput = some args ↔
      consults X policy input = true ∧ ∃ v cmd new dropped, X.fromStr input.argumentsJson = some v ∧
        v.get "command" = some (.string cmd) ∧ rewriteCommand cmd = some (new, dropped) ∧
        args = (setCommand v new).toText X := by
  have htool : consults X policy input = true → ¬ input.tool ≠ "shell.run" := by
    intro h
    simp only [consults, Bool.and_eq_true, decide_eq_true_eq] at h
    exact not_not.mpr h.1
  rw [evaluate_constrainedInput]
  by_cases hconsults : consults X policy input = true
  · rw [if_pos hconsults, suggestConstrain_eq, if_neg (htool hconsults)]
    simp only [Option.map_eq_some_iff, Option.bind_eq_some_iff, hconsults, true_and]
    constructor
    · rintro ⟨_, ⟨v, hv, cmd, ⟨c, hc, hcmd⟩, ⟨new, dropped⟩, hnew, rfl⟩, rfl⟩
      cases c <;> cases hcmd
      exact ⟨v, cmd, new, dropped, hv, hc, hnew, rfl⟩
    · rintro ⟨v, cmd, new, dropped, hv, hc, hnew, rfl⟩
      exact ⟨_, ⟨v, hv, cmd, ⟨_, hc, rfl⟩, (new, dropped), hnew, rfl⟩, rfl⟩
  · simp [hconsults]

theorem rewriteCommand_eq_some {cmd new : String} {dropped : List Char} :
    rewriteCommand cmd = some (new, dropped) ↔
      ∃ tokens remaining, rmTargets cmd.toList = some tokens ∧
        Guard.split tokens = some (dropped, remaining) ∧ new = Guard.rewritten remaining := by
  simp only [rewriteCommand, Option.bind_eq_bind, Option.bind_eq_some_iff]
  constructor
  · rintro ⟨tokens, htokens, ⟨d, remaining⟩, hsplit, h⟩
    obtain ⟨rfl, rfl⟩ := Prod.mk.inj (Option.some.inj h)
    exact ⟨tokens, remaining, htokens, hsplit, rfl⟩
  · rintro ⟨tokens, remaining, htokens, hsplit, rfl⟩
    exact ⟨tokens, htokens, (dropped, remaining), hsplit, rfl⟩

/-- The targets of a rewritten command are the kept ones. -/
theorem rmTargets_of_split {cmd : List Char} {tokens remaining : List (List Char)} {dropped : List Char}
    (htokens : rmTargets cmd = some tokens) (hsplit : Guard.split tokens = some (dropped, remaining)) :
    rmTargets (Guard.rewritten remaining).toList = some remaining := by
  obtain ⟨-, -, hremaining, hne⟩ := split_eq_some hsplit
  refine rmTargets_rewritten (fun t ht => ?_) hne
  rw [hremaining] at ht
  exact isWord_of_rmTargets htokens t (List.mem_filter.mp ht).1

theorem removesDanger_iff (X : Crates) (policy : PolicyDoc) (input : GuardInput) :
    RemovesDanger X policy input ↔
      (consults X policy input = true → ∀ v cmd tokens, X.fromStr input.argumentsJson = some v →
        v.get "command" = some (.string cmd) → rmTargets cmd.toList = some tokens →
          OneDanger tokens) := by
  constructor
  · intro h hconsults v cmd tokens hv hcmd htokens t ht u hu htd hud
    by_contra hne
    obtain ⟨⟨dropped, remaining⟩, hsplit⟩ := Option.isSome_iff_exists.mp (split_isSome ht hu htd hne)
    have hnew := rewriteCommand_eq_some.mpr ⟨tokens, remaining, htokens, hsplit, rfl⟩
    have hoffer := constrainedInput_eq_some.mpr ⟨hconsults, v, cmd, _, dropped, hv, hcmd, hnew, rfl⟩
    obtain ⟨v', cmd', new', dropped', tokens', hv', hcmd', hnew', -, htokens', hsafe⟩ := h _ hoffer
    cases hv.symm.trans hv'
    cases hcmd.symm.trans hcmd'
    cases hnew.symm.trans hnew'
    cases htokens.symm.trans htokens'
    rw [rmTargets_of_split htokens hsplit, Option.some.injEq] at hsafe
    exact hne ((remaining_eq_harmless_iff hsplit).mp hsafe t ht u hu htd hud)
  · intro h args hargs
    obtain ⟨hconsults, v, cmd, new, dropped, hv, hcmd, hnew, rfl⟩ := constrainedInput_eq_some.mp hargs
    obtain ⟨tokens, remaining, htokens, hsplit, rfl⟩ := rewriteCommand_eq_some.mp hnew
    refine ⟨v, cmd, _, dropped, tokens, hv, hcmd, hnew, rfl, htokens, ?_⟩
    rw [rmTargets_of_split htokens hsplit,
      (remaining_eq_harmless_iff hsplit).mpr (h hconsults v cmd tokens hv hcmd htokens)]

end Rust

/-! ### The TypeScript evaluator -/

namespace Guard

/-- As for the Rust evaluator. -/
def consults (X : JsLibrary) (policy : Policy) (req : JsValue) (argsSensitivity : Option Sensitivity)
    (args : String) : Bool :=
  (req.get "tool").isString "shell.run" &&
    ((policy.deny.getD []).any (matches_ X req args) ||
      !(policy.sensitivityCeiling.any (fun ceiling => argsSensitivity.any (sensitivityExceeds · ceiling)) ||
        requiresApproval policy (req.get "tool")))

/-- A constrained input that is offered deletes exactly the harmless targets. -/
def RemovesDanger (X : JsLibrary) (policy : Policy) (req : JsValue) (argsSensitivity : Option Sensitivity) :
    Prop :=
  ∀ v constrained, evaluate X policy req argsSensitivity = .ok v → v.constrainedInput = some constrained →
    ∃ cmd new tokens, (req.get "args").get "command" = .string cmd ∧
      constrained.get "command" = .string new ∧ targets cmd.toList = some tokens ∧
      targets new.toList = some (harmless tokens)

section TypeScript

variable {X : JsLibrary} {policy : Policy} {req : JsValue} {argsSensitivity : Option Sensitivity}
  {args : String}

theorem words_eq (s : List Char) : words s = Words.words isSpace s := by
  rw [words, Words.words]
  refine List.filter_congr fun t _ => ?_
  cases t <;> rfl

theorem isSpace_of_isLineTerminator {c : Char} (h : isLineTerminator c = true) : isSpace c = true := by
  simp only [isLineTerminator, List.mem_cons, List.not_mem_nil, or_false, decide_eq_true_eq] at h
  rcases h with h | h | h | h <;> simp [isSpace, h]

theorem isWord_of_targets {cmd : List Char} {tokens : List (List Char)} (h : targets cmd = some tokens) :
    ∀ t ∈ tokens, IsWord isSpace t := by
  simp only [targets, Option.bind_eq_bind, Option.bind_eq_some_iff] at h
  obtain ⟨_, -, _, -, _, -, rest, -, h⟩ := h
  split at h
  · cases h
  · cases h
    intro t ht
    rw [words_eq] at ht
    exact isWord_of_mem ht

/-- The rewritten command is read back as the targets it was made of. -/
theorem targets_rewritten {remaining : List (List Char)} (hwords : ∀ t ∈ remaining, IsWord isSpace t)
    (hne : remaining ≠ []) : targets (rewritten remaining).toList = some remaining := by
  have htext : (rewritten remaining).toList = "rm -rf ".toList ++ [' '].intercalate remaining :=
    String.toList_ofList
  obtain ⟨c, rest, hcons, hc⟩ := exists_join_eq_cons ' ' hwords hne
  have hline : ([' '].intercalate remaining).any isLineTerminator = false := by
    rw [List.any_eq_false]
    intro d hd hterm
    have hspace := isSpace_of_isLineTerminator hterm
    rcases mem_join hd with rfl | ⟨t, ht, hdt⟩
    · revert hterm
      decide
    · rw [(hwords t ht).clear d hdt] at hspace
      cases hspace
  have hjoin : words ([' '].intercalate remaining) = remaining := by
    rw [words_eq, words_join hwords (by decide)]
  have hskip : skipSpaces (' ' :: [' '].intercalate remaining) = some ([' '].intercalate remaining) := by
    rw [skipSpaces, if_pos (by decide), hcons, List.dropWhile_cons_of_neg (by simp [hc])]
  have hflag : skipSpaces (' ' :: ("-rf".toList ++ ' ' :: [' '].intercalate remaining)) =
      some ("-rf".toList ++ ' ' :: [' '].intercalate remaining) := by
    rw [skipSpaces, if_pos (by decide), show "-rf".toList = '-' :: "rf".toList by decide,
      List.cons_append, List.dropWhile_cons_of_neg (by decide)]
  have hstart : ("rm -rf ".toList ++ [' '].intercalate remaining).dropWhile isSpace =
      "rm".toList ++ ' ' :: ("-rf".toList ++ ' ' :: [' '].intercalate remaining) := by
    rw [show "rm -rf ".toList = "rm".toList ++ ' ' :: ("-rf".toList ++ [' ']) by decide,
      show "rm".toList = 'r' :: ['m'] by decide]
    simp only [List.cons_append, List.append_assoc, List.nil_append]
    rw [List.dropWhile_cons_of_neg (by decide)]
  simp only [targets, htext, hstart, dropPrefix?_append, Option.bind_eq_bind, Option.bind_some, hflag,
    hskip, hline, Bool.false_eq_true, if_false, hjoin]

/-- The targets of a rewritten command are the kept ones. -/
theorem targets_of_split {cmd : List Char} {tokens remaining : List (List Char)} {dropped : List Char}
    (htokens : targets cmd = some tokens) (hsplit : split tokens = some (dropped, remaining)) :
    targets (rewritten remaining).toList = some remaining := by
  obtain ⟨-, -, hremaining, hne⟩ := split_eq_some hsplit
  refine targets_rewritten (fun t ht => ?_) hne
  rw [hremaining] at ht
  exact isWord_of_targets htokens t (List.mem_filter.mp ht).1

theorem get_setEntry (key : String) (v : JsValue) (entries : List (String × JsValue)) :
    (JsValue.object (JsValue.setEntry key v entries)).get key = v := by
  induction entries with
  | nil => rw [JsValue.setEntry, get_cons, if_pos rfl]
  | cons e rest ih =>
    rw [JsValue.setEntry]
    split
    · rw [get_cons, if_pos rfl]
    · rename_i hne
      rw [get_cons, if_neg hne, ih]

theorem suggestCommand_of_tool (h : (req.get "tool").isString "shell.run" = false) :
    suggestConstrainForShellRm req = none := by
  rw [suggestConstrainForShellRm, suggestCommand, h]
  rfl

theorem withSuggestion_constrainedInput (reason snap : String) {other : PolicyVerdict}
    (hother : other.constrainedInput = none) :
    ((withSuggestion req reason snap).getD other).constrainedInput =
      (suggestConstrainForShellRm req).map (·.1) := by
  rw [withSuggestion]
  cases suggestConstrainForShellRm req with
  | none => exact hother
  | some c => rfl

theorem verdictOn_constrainedInput (X : JsLibrary) (policy : Policy) (req : JsValue)
    (argsSensitivity : Option Sensitivity) (args : String) :
    (verdictOn X policy req argsSensitivity args).constrainedInput =
      if consults X policy req argsSensitivity args then
        (suggestConstrainForShellRm req).map (·.1)
      else none := by
  rw [verdictOn, consults]
  cases hfind : (policy.deny.getD []).find? (matches_ X req args) with
  | some rule =>
    have hany : (policy.deny.getD []).any (matches_ X req args) = true :=
      List.any_eq_true.mpr ⟨rule, List.mem_of_find?_eq_some hfind, List.find?_some hfind⟩
    rw [hany]
    dsimp only
    rw [withSuggestion_constrainedInput _ _ (by rfl)]
    cases htool : (req.get "tool").isString "shell.run" with
    | false => simp [suggestCommand_of_tool htool]
    | true => simp
  | none =>
    have hany : (policy.deny.getD []).any (matches_ X req args) = false := by
      rw [List.any_eq_false]
      intro rule hrule
      simpa using List.find?_eq_none.mp hfind rule hrule
    rw [hany]
    dsimp only
    cases policy.sensitivityCeiling.any fun ceiling => argsSensitivity.any (sensitivityExceeds · ceiling) with
    | true => simp
    | false =>
      cases requiresApproval policy (req.get "tool") with
      | true => simp
      | false =>
        cases htool : (req.get "tool").isString "shell.run" with
        | true =>
          simp only [Bool.false_eq_true, if_false, if_true]
          rw [withSuggestion_constrainedInput _ _ (by rfl)]
          simp
        | false =>
          simp only [Bool.false_eq_true, if_false, Bool.false_and]
          split <;> rfl

theorem suggestConstrainForShellRm_eq_some {constrained : JsValue}
    (htool : (req.get "tool").isString "shell.run" = true) :
    (suggestConstrainForShellRm req).map (·.1) = some constrained ↔
      ∃ cmd tokens dropped remaining, (req.get "args").get "command" = .string cmd ∧
        targets cmd.toList = some tokens ∧ split tokens = some (dropped, remaining) ∧
        constrained = .object (JsValue.setEntry "command" (.string (rewritten remaining))
          (req.get "args").spread) := by
  simp only [suggestConstrainForShellRm, suggestCommand, htool, if_true, Option.bind_eq_bind,
    Option.map_map, Option.map_eq_some_iff, Option.bind_eq_some_iff]
  constructor
  · rintro ⟨_, ⟨cmd, hcmd, tokens, htokens, ⟨dropped, remaining⟩, hsplit, h⟩, rfl⟩
    cases h
    refine ⟨cmd, tokens, dropped, remaining, ?_, htokens, hsplit, rfl⟩
    cases hget : (req.get "args").get "command" <;> rw [hget] at hcmd <;> cases hcmd
    rfl
  · rintro ⟨cmd, tokens, dropped, remaining, hcmd, htokens, hsplit, rfl⟩
    exact ⟨_, ⟨cmd, by rw [hcmd]; rfl, tokens, htokens, (dropped, remaining), hsplit, rfl⟩, rfl⟩

theorem removesDanger_iff (X : JsLibrary) (policy : Policy) (req : JsValue)
    (argsSensitivity : Option Sensitivity) :
    RemovesDanger X policy req argsSensitivity ↔
      ∀ args, argsJson X req = .ok args → consults X policy req argsSensitivity args = true →
        ∀ cmd tokens, (req.get "args").get "command" = .string cmd →
          targets cmd.toList = some tokens → OneDanger tokens := by
  have htool : ∀ args, consults X policy req argsSensitivity args = true →
      (req.get "tool").isString "shell.run" = true := by
    intro args h
    simp only [consults, Bool.and_eq_true] at h
    exact h.1
  constructor
  · intro h args hargs hconsults cmd tokens hcmd htokens t ht u hu htd hud
    by_contra hne
    obtain ⟨⟨dropped, remaining⟩, hsplit⟩ := Option.isSome_iff_exists.mp (split_isSome ht hu htd hne)
    have heval : evaluate X policy req argsSensitivity =
        .ok (verdictOn X policy req argsSensitivity args) := by
      rw [evaluate, hargs]
      rfl
    obtain ⟨constrained, hoffer, hcommand⟩ : ∃ constrained,
        (verdictOn X policy req argsSensitivity args).constrainedInput = some constrained ∧
          constrained.get "command" = .string (rewritten remaining) := by
      rw [verdictOn_constrainedInput, if_pos hconsults]
      exact ⟨_, (suggestConstrainForShellRm_eq_some (htool args hconsults)).mpr
        ⟨cmd, tokens, dropped, remaining, hcmd, htokens, hsplit, rfl⟩, get_setEntry _ _ _⟩
    obtain ⟨cmd', new, tokens', hcmd', hnew, htokens', hsafe⟩ := h _ _ heval hoffer
    cases hcmd.symm.trans hcmd'
    cases htokens.symm.trans htokens'
    cases hcommand.symm.trans hnew
    rw [targets_of_split htokens hsplit, Option.some.injEq] at hsafe
    exact hne ((remaining_eq_harmless_iff hsplit).mp hsafe t ht u hu htd hud)
  · intro h v constrained hv hconstrained
    rw [evaluate] at hv
    obtain ⟨args, hargs, hv⟩ := bind_eq_ok.mp hv
    cases hv
    rw [verdictOn_constrainedInput] at hconstrained
    split at hconstrained
    · rename_i hconsults
      obtain ⟨cmd, tokens, dropped, remaining, hcmd, htokens, hsplit, rfl⟩ :=
        (suggestConstrainForShellRm_eq_some (htool args hconsults)).mp hconstrained
      refine ⟨cmd, _, tokens, hcmd, get_setEntry _ _ _, htokens, ?_⟩
      rw [targets_of_split htokens hsplit,
        (remaining_eq_harmless_iff hsplit).mpr (h args hargs hconsults cmd tokens hcmd htokens)]
    · cases hconstrained

end TypeScript

end Guard

/-! ### Both -/

/-- **The safe variant is safe** in either evaluator exactly when a command whose rewriting is consulted has no two different dangerous targets. -/
theorem constrained_targets_iff (X : Crates) (Y : JsLibrary) :
    (∀ (policy : PolicyDoc) (input : GuardInput),
      RemovesDanger X policy input ↔
        (consults X policy input = true → ∀ v cmd tokens, X.fromStr input.argumentsJson = some v →
          v.get "command" = some (.string cmd) → rmTargets cmd.toList = some tokens →
            OneDanger tokens)) ∧
      ∀ (policy : Guard.Policy) (req : JsValue) (argsSensitivity : Option Guard.Sensitivity),
        Guard.RemovesDanger Y policy req argsSensitivity ↔
          ∀ args, Guard.argsJson Y req = .ok args →
            Guard.consults Y policy req argsSensitivity args = true →
              ∀ cmd tokens, (req.get "args").get "command" = .string cmd →
                Guard.targets cmd.toList = some tokens → OneDanger tokens :=
  ⟨removesDanger_iff X, Guard.removesDanger_iff Y⟩

/-- Of `/` and `~` the first goes and the second stays. -/
theorem constrained_keeps_danger :
    ¬ RemovesDanger
        { Crates.sample with fromStr := fun _ => some (.object [("command", .string "rm -rf / ~")]) }
        ⟨"open", [], [], none⟩ ⟨"agent", "shell.run", "", .low, .low⟩ ∧
      ¬ Guard.RemovesDanger JsLibrary.sample ⟨none, none, none, none⟩
        (.object [("tool", .string "shell.run"),
          ("args", .object [("command", .string "rm -rf / ~")])]) none := by
  have hdiffer : ¬ OneDanger [['/'], ['~']] := by
    intro h
    exact absurd (h ['/'] (by decide) ['~'] (by decide) (by decide) (by decide)) (by decide)
  constructor
  · intro h
    exact hdiffer ((removesDanger_iff _ _ _).mp h (by decide) _ "rm -rf / ~" _ rfl (by rfl) (by decide))
  · intro h
    exact hdiffer ((Guard.removesDanger_iff _ _ _ _).mp h _ rfl (by decide) "rm -rf / ~" _ rfl
      (by decide))

end ActantDb
