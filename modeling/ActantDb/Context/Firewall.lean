import ActantDb.Core.Model

/-!
# The context firewall

`build` walks the candidates once and decides of each whether it enters the manifest. An item's verdict depends on the earlier ones through the running token total alone, which is why the content of blocked items cannot matter. Of the filters that a route asks for, the loop has the ceiling, the deny patterns and one half of the visibility rule.
-/

namespace ActantDb.Context

structure CandidateItem where
  id : String
  kind : String
  source : String
  content : String
  sensitivity : Sensitivity
  visibility : String
  tokenCount : Option UInt64
deriving DecidableEq

structure IncludedItem where
  id : String
  kind : String
  source : String
  contentHash : String
  sensitivity : Sensitivity
  visibility : String
  tokenCount : Option UInt64
deriving DecidableEq

structure BlockedItem where
  id : String
  kind : String
  sensitivity : Sensitivity
  reason : String
deriving DecidableEq

structure Manifest where
  manifestHash : String
  included : List IncludedItem
  blocked : List BlockedItem
  totalTokens : UInt64
deriving DecidableEq

structure BuildOptions where
  tokenBudget : UInt64
  sensitivityCeiling : Sensitivity
  requiredVisibility : String
  denyPatterns : List String

def BuildOptions.default : BuildOptions where
  tokenBudget := 8000
  sensitivityCeiling := .medium
  requiredVisibility := "cloud_model_allowed"
  denyPatterns := []

/-- `token_count.unwrap_or(content.len() / 4)`, the length being in bytes. -/
def CandidateItem.tokens (item : CandidateItem) : UInt64 :=
  item.tokenCount.getD (UInt64.ofNat (item.content.utf8ByteSize / 4))

variable (X : Crates) (opts : BuildOptions)

/-- One of the patterns that compile matches the content. -/
def matchesDeny (content : String) : Bool :=
  (opts.denyPatterns.filterMap X.regex).any (· content)

/-- The reason that the loop ends up with: a later check overwrites an earlier one. The sum wraps. -/
def blockedReason (total : UInt64) (item : CandidateItem) : Option String :=
  let reason : Option String := none
  let reason :=
    if item.sensitivity.rank > opts.sensitivityCeiling.rank then some "sensitivity" else reason
  let reason :=
    if item.sensitivity = .secret ∧ opts.requiredVisibility = "cloud_model_allowed" then
      some "visibility"
    else reason
  let reason := if matchesDeny X opts item.content then some "sensitivity" else reason
  if total + item.tokens > opts.tokenBudget then some "budget" else reason

/-- The row of an item that enters the manifest. -/
def CandidateItem.included (item : CandidateItem) : IncludedItem where
  id := item.id
  kind := item.kind
  source := item.source
  contentHash := sha256Hex X (asBytes item.content)
  sensitivity := item.sensitivity
  visibility := item.visibility
  tokenCount := some item.tokens

/-- What the loop has accumulated. -/
structure Walk where
  included : List IncludedItem
  blocked : List BlockedItem
  totalTokens : UInt64

/-- The body of the loop. -/
def visit (walk : Walk) (item : CandidateItem) : Walk :=
  match blockedReason X opts walk.totalTokens item with
  | some reason =>
    { walk with blocked := walk.blocked ++ [⟨item.id, item.kind, item.sensitivity, reason⟩] }
  | none =>
    { walk with
      included := walk.included ++ [item.included X]
      totalTokens := walk.totalTokens + item.tokens }

def build (items : List CandidateItem) : Manifest :=
  let walk := items.foldl (visit X opts) ⟨[], [], 0⟩
  { manifestHash := sha256Hex X (asBytes
      ((Value.array (walk.included.map fun i => .array [.string i.id, .string i.contentHash])).toText X))
    included := walk.included
    blocked := walk.blocked
    totalTokens := walk.totalTokens }

/-! ### Verdicts by position -/

/-- The total after an item. -/
def spend (total : UInt64) (item : CandidateItem) : UInt64 :=
  if blockedReason X opts total item = none then total + item.tokens else total

/-- Every item with its verdict. -/
def verdicts : UInt64 → List CandidateItem → List (CandidateItem × Option String)
  | _, [] => []
  | total, item :: rest =>
    (item, blockedReason X opts total item) :: verdicts (spend X opts total item) rest

/-- The items that enter the manifest, in order. -/
def admitted (items : List CandidateItem) : List CandidateItem :=
  ((verdicts X opts 0 items).filter (·.2 = none)).map (·.1)

variable {X opts}

theorem visit_spend (walk : Walk) (item : CandidateItem) :
    (visit X opts walk item).totalTokens = spend X opts walk.totalTokens item := by
  rw [visit, spend]
  cases blockedReason X opts walk.totalTokens item with
  | some reason => rfl
  | none => rfl

theorem visit_included (walk : Walk) (item : CandidateItem) :
    (visit X opts walk item).included = walk.included ++
      (if blockedReason X opts walk.totalTokens item = none then [item.included X] else []) := by
  rw [visit]
  cases blockedReason X opts walk.totalTokens item with
  | some reason => simp
  | none => rfl

theorem foldl_visit_included (items : List CandidateItem) (walk : Walk) :
    (items.foldl (visit X opts) walk).included = walk.included ++
      (((verdicts X opts walk.totalTokens items).filter (·.2 = none)).map (·.1)).map
        (CandidateItem.included X) := by
  induction items generalizing walk with
  | nil => simp [verdicts]
  | cons item rest ih =>
    rw [List.foldl_cons, ih, visit_included, visit_spend, verdicts, List.append_assoc]
    by_cases h : blockedReason X opts walk.totalTokens item = none
    · rw [if_pos h, List.filter_cons_of_pos (by simpa using h)]
      rfl
    · rw [if_neg h, List.filter_cons_of_neg (by simpa using h)]
      rfl

/-- The manifest lists the admitted items, position by position. -/
theorem build_included (X : Crates) (opts : BuildOptions) (items : List CandidateItem) :
    (build X opts items).included = (admitted X opts items).map (CandidateItem.included X) :=
  (foldl_visit_included items ⟨[], [], 0⟩).trans (List.nil_append _)

theorem mem_admitted {items : List CandidateItem} {item : CandidateItem} :
    item ∈ admitted X opts items ↔ (item, none) ∈ verdicts X opts 0 items := by
  simp [admitted]

/-- The filters that the loop does have. -/
theorem blockedReason_eq_none {total : UInt64} {item : CandidateItem} :
    blockedReason X opts total item = none ↔
      item.sensitivity.rank ≤ opts.sensitivityCeiling.rank ∧
      ¬ (item.sensitivity = .secret ∧ opts.requiredVisibility = "cloud_model_allowed") ∧
      matchesDeny X opts item.content = false ∧ total + item.tokens ≤ opts.tokenBudget := by
  simp only [blockedReason]
  split_ifs <;> simp_all

/-! ### What the route asks for -/

/-- A visibility is a set of tags, separated by spaces. -/
def tags (visibility : String) : List (List Char) :=
  (visibility.toList.splitOn ' ').filter (· ≠ [])

/-- The item's tags cover those the route requires. -/
def Satisfies (visibility required : String) : Prop := tags required ⊆ tags visibility

def Remote (opts : BuildOptions) : Prop := "cloud_model_allowed".toList ∈ tags opts.requiredVisibility

/-- Everything that must hold of an item for it to be sent. -/
structure Admissible (X : Crates) (opts : BuildOptions) (item : CandidateItem) : Prop where
  ceiling : item.sensitivity.rank ≤ opts.sensitivityCeiling.rank
  deny : ∀ pattern ∈ opts.denyPatterns, ∀ isMatch, X.regex pattern = some isMatch →
    isMatch item.content = false
  visible : Satisfies item.visibility opts.requiredVisibility
  remote : Remote opts → item.sensitivity ≠ .secret ∧ item.sensitivity ≠ .regulated

/-- Two inputs that differ at most in the content of items that are blocked in both. -/
def AgreeOutsideBlocked (X : Crates) (opts : BuildOptions) (items items' : List CandidateItem) : Prop :=
  List.Forall₂
    (fun v v' => v.1 = v'.1 ∨
      ({ v.1 with content := v'.1.content } = v'.1 ∧ v.2 ≠ none ∧ v'.2 ≠ none))
    (verdicts X opts 0 items) (verdicts X opts 0 items')

/-- The firewall holds for an input. -/
structure Firewall (X : Crates) (opts : BuildOptions) (items : List CandidateItem) : Prop where
  admissible : ∀ item ∈ admitted X opts items, Admissible X opts item
  noninterference : ∀ items', AgreeOutsideBlocked X opts items items' →
    (build X opts items').included = (build X opts items).included

theorem matchesDeny_eq_false {content : String} :
    matchesDeny X opts content = false ↔
      ∀ pattern ∈ opts.denyPatterns, ∀ isMatch, X.regex pattern = some isMatch →
        isMatch content = false := by
  simp only [matchesDeny, List.any_eq_false, List.mem_filterMap, Bool.not_eq_true]
  constructor
  · intro h pattern hpattern isMatch hmatch
    exact h isMatch ⟨pattern, hpattern, hmatch⟩
  · rintro h isMatch ⟨pattern, hpattern, hmatch⟩
    exact h pattern hpattern isMatch hmatch

theorem filter_verdicts_congr {items items' : List CandidateItem} (total : UInt64)
    (h : List.Forall₂
      (fun v v' => v.1 = v'.1 ∨
        ({ v.1 with content := v'.1.content } = v'.1 ∧ v.2 ≠ none ∧ v'.2 ≠ none))
      (verdicts X opts total items) (verdicts X opts total items')) :
    (verdicts X opts total items').filter (·.2 = none) =
      (verdicts X opts total items).filter (·.2 = none) := by
  induction items generalizing total items' with
  | nil =>
    cases items' with
    | nil => rfl
    | cons item' rest' => cases h
  | cons item rest ih =>
    cases items' with
    | nil => cases h
    | cons item' rest' =>
      rw [verdicts, verdicts, List.forall₂_cons] at h
      obtain ⟨hhead | ⟨-, hblocked, hblocked'⟩, htail⟩ := h
      · dsimp only at hhead
        subst hhead
        rw [verdicts, verdicts, List.filter_cons, List.filter_cons, ih _ htail]
      · dsimp only at hblocked hblocked'
        rw [spend, spend, if_neg hblocked, if_neg hblocked'] at htail
        rw [verdicts, verdicts, List.filter_cons_of_neg (by simpa using hblocked'),
          List.filter_cons_of_neg (by simpa using hblocked), spend, spend, if_neg hblocked,
          if_neg hblocked', ih total htail]

/-- The content of blocked items does not reach the manifest. -/
theorem included_congr {items items' : List CandidateItem} (h : AgreeOutsideBlocked X opts items items') :
    (build X opts items').included = (build X opts items).included := by
  rw [build_included, build_included, admitted, admitted, filter_verdicts_congr 0 h]

/-- What has been spent when an item of the list is reached. -/
def spent (X : Crates) (opts : BuildOptions) (before : List CandidateItem) : UInt64 :=
  before.foldl (spend X opts) 0

theorem mem_verdicts {items : List CandidateItem} {total : UInt64} {item : CandidateItem}
    {verdict : Option String} :
    (item, verdict) ∈ verdicts X opts total items ↔
      ∃ before after, items = before ++ item :: after ∧
        verdict = blockedReason X opts (before.foldl (spend X opts) total) item := by
  induction items generalizing total with
  | nil => simp [verdicts]
  | cons first rest ih =>
    rw [verdicts, List.mem_cons, ih]
    constructor
    · rintro (h | ⟨before, after, rfl, rfl⟩)
      · obtain ⟨rfl, rfl⟩ := Prod.mk.inj h
        exact ⟨[], rest, rfl, rfl⟩
      · exact ⟨first :: before, after, rfl, rfl⟩
    · rintro ⟨before, after, hsplit, rfl⟩
      cases before with
      | nil =>
        obtain ⟨rfl, rfl⟩ := List.cons.inj hsplit
        exact Or.inl rfl
      | cons b before =>
        obtain ⟨rfl, rfl⟩ := List.cons.inj hsplit
        exact Or.inr ⟨before, after, rfl, rfl⟩

/-- **The context firewall** holds exactly when the items that pass the ceiling, the deny patterns, the check of secrets and the budget are visible to the route and, on a remote one, neither secret nor regulated. -/
theorem firewall_iff (X : Crates) (opts : BuildOptions) (items : List CandidateItem) :
    Firewall X opts items ↔
      ∀ before item after, items = before ++ item :: after →
        item.sensitivity.rank ≤ opts.sensitivityCeiling.rank →
        ¬ (item.sensitivity = .secret ∧ opts.requiredVisibility = "cloud_model_allowed") →
        matchesDeny X opts item.content = false →
        spent X opts before + item.tokens ≤ opts.tokenBudget →
        Satisfies item.visibility opts.requiredVisibility ∧
          (Remote opts → item.sensitivity ≠ .secret ∧ item.sensitivity ≠ .regulated) := by
  constructor
  · rintro ⟨hadmissible, -⟩ before item after hsplit hceiling hsecret hdeny hbudget
    have hreason : none = blockedReason X opts (before.foldl (spend X opts) 0) item :=
      (blockedReason_eq_none.mpr ⟨hceiling, hsecret, hdeny, hbudget⟩).symm
    have hmem : item ∈ admitted X opts items :=
      mem_admitted.mpr (mem_verdicts.mpr ⟨before, after, hsplit, hreason⟩)
    exact ⟨(hadmissible item hmem).visible, (hadmissible item hmem).remote⟩
  · intro h
    refine ⟨fun item hitem => ?_, fun items' hagree => included_congr hagree⟩
    obtain ⟨before, after, hsplit, hreason⟩ := mem_verdicts.mp (mem_admitted.mp hitem)
    obtain ⟨hceiling, hsecret, hdeny, hbudget⟩ := blockedReason_eq_none.mp hreason.symm
    obtain ⟨hvisible, hremote⟩ := h before item after hsplit hceiling hsecret hdeny hbudget
    exact ⟨hceiling, matchesDeny_eq_false.mp hdeny, hvisible, hremote⟩

/-- A local note, of low sensitivity, for a route to the cloud. -/
def localNote : CandidateItem :=
  ⟨"n1", "memory", "notes", "home address", .low, "local_model_allowed", some 5⟩

/-- The default options send it. -/
theorem firewall_leaks : ¬ Firewall Crates.sample BuildOptions.default [localNote] := by
  intro h
  have hmem : localNote ∈ admitted Crates.sample BuildOptions.default [localNote] := by decide
  have hvisible := (h.admissible localNote hmem).visible
  revert hvisible
  rw [Satisfies]
  decide

end ActantDb.Context
