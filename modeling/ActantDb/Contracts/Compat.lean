import Mathlib.Data.List.Sort
import Mathlib.Data.List.Dedup
import ActantDb.Core.Hash

/-!
# The compatibility check

`check-compat` compares the JSON schemas of the exported types with those of a baseline and lists what would break a reader of the baseline. The comparison walks the properties and the definitions of the baseline; of each schema it meets it compares the type, the reference, the enumerated values, a union of string constants and the required fields, and only where the baseline has them.
-/

namespace ActantDb

/-- `==` on numbers: the two zeros of a double are equal. -/
def Number.same : Number → Number → Bool
  | .float x, .float y => x = y || (x.bits.toNat % 2 ^ 63 = 0 && y.bits.toNat % 2 ^ 63 = 0)
  | m, n => m = n

namespace Value

/-! ### Equality -/

section Equality

variable (numbers : Number → Number → Bool)

mutual

/-- Equality up to a relation on the numbers. -/
def sameBy : Value → Value → Bool
  | .null, .null => true
  | .bool a, .bool b => a = b
  | .number m, .number n => numbers m n
  | .string s, .string t => s = t
  | .array vs, .array ws => sameItems vs ws
  | .object es, .object fs => sameEntries es fs
  | _, _ => false

def sameItems : List Value → List Value → Bool
  | [], [] => true
  | v :: vs, w :: ws => sameBy v w && sameItems vs ws
  | _, _ => false

def sameEntries : List (String × Value) → List (String × Value) → Bool
  | [], [] => true
  | (key, v) :: es, (key', w) :: fs => key = key' && sameBy v w && sameEntries es fs
  | _, _ => false

end

end Equality

/-- `==`. -/
def same (v w : Value) : Bool := sameBy Number.same v w

def identical (v w : Value) : Bool := sameBy (fun m n => m = n) v w

mutual

theorem eq_of_identical : ∀ {v w : Value}, identical v w = true → v = w
  | .null, .null, _ => rfl
  | .bool a, .bool b, h => by rw [of_decide_eq_true h]
  | .number m, .number n, h => by rw [of_decide_eq_true h]
  | .string s, .string t, h => by rw [of_decide_eq_true h]
  | .array vs, .array ws, h => by rw [eq_of_identicalItems h]
  | .object es, .object fs, h => by rw [eq_of_identicalEntries h]

theorem eq_of_identicalItems : ∀ {vs ws : List Value},
    sameItems (fun m n => m = n) vs ws = true → vs = ws
  | [], [], _ => rfl
  | v :: vs, w :: ws, h => by
    obtain ⟨hv, hvs⟩ := Bool.and_eq_true_iff.mp h
    rw [eq_of_identical hv, eq_of_identicalItems hvs]

theorem eq_of_identicalEntries : ∀ {es fs : List (String × Value)},
    sameEntries (fun m n => m = n) es fs = true → es = fs
  | [], [], _ => rfl
  | (key, v) :: es, (key', w) :: fs, h => by
    obtain ⟨h, hes⟩ := Bool.and_eq_true_iff.mp h
    obtain ⟨hkey, hv⟩ := Bool.and_eq_true_iff.mp h
    rw [of_decide_eq_true hkey, eq_of_identical hv, eq_of_identicalEntries hes]

end

theorem asStr_of_same {v w : Value} (h : same v w = true) : v.asStr = w.asStr := by
  cases v with
  | string s =>
    cases w with
    | string t => rw [of_decide_eq_true h]
    | _ => cases h
  | _ => cases w <;> first | rfl | cases h

/-! ### Reading a schema -/

def asArray : Value → Option (List Value)
  | .array items => some items
  | _ => none

def entries? : Value → Option (List (String × Value))
  | .object entries => some entries
  | _ => none

/-- `get(key).and_then(Value::as_array)`. -/
def arrayAt (schema : Value) (key : String) : Option (List Value) := (schema.get key).bind asArray

/-- `get(key).and_then(Value::as_object)`. -/
def objectAt (schema : Value) (key : String) : Option (List (String × Value)) :=
  (schema.get key).bind entries?

/-- `get(key).and_then(Value::as_str)`. -/
def strAt (schema : Value) (key : String) : Option String := (schema.get key).bind asStr

/-- `Map::get`. -/
def lookup (entries : List (String × Value)) (key : String) : Option Value :=
  (Value.object entries).get key

end Value

open Value

/-- The strings of an array, in the order of a `BTreeSet`. -/
def sortedSet (strings : List String) : List String := strings.dedup.insertionSort (· ≤ ·)

theorem mem_sortedSet {s : String} {strings : List String} : s ∈ sortedSet strings ↔ s ∈ strings := by
  rw [sortedSet, List.mem_insertionSort, List.mem_dedup]

/-- The one string a variant of a union stands for. -/
def stringVariant (v : Value) : Option String :=
  if v.strAt "type" = some "string" then
    match v.arrayAt "enum" with
    | some [x] => x.asStr
    | _ => none
  else none

def collectStringEnum : List Value → Option (List String)
  | [] => some []
  | v :: rest =>
    match stringVariant v, collectStringEnum rest with
    | some s, some strings => some (s :: strings)
    | _, _ => none

def stringOneOfValues (schema : Value) : Option (List String) :=
  ((schema.arrayAt "oneOf").bind collectStringEnum).map sortedSet

def stringArraySet (value : Option Value) : List String :=
  sortedSet (((value.bind asArray).getD []).filterMap asStr)

section Compare

variable (X : Crates) (debug : String → String)

/-! ### The parts of a comparison -/

def compareScalarField (path : String) (baseline current : Value) (field : String) : List String :=
  match baseline.get field with
  | none => []
  | some baseValue =>
    match current.get field with
    | some curValue =>
      if curValue.same baseValue then []
      else [path ++ "." ++ field ++ ": changed from " ++ baseValue.toText X ++ " to " ++ curValue.toText X]
    | none => [path ++ "." ++ field ++ ": removed"]

def compareEnum (path : String) (baseline current : Value) (field : String) : List String :=
  match baseline.arrayAt field with
  | none => []
  | some baseValues =>
    match current.arrayAt field with
    | none => [path ++ "." ++ field ++ ": enum removed"]
    | some curValues =>
      (baseValues.filter fun v => ¬ (curValues.map (·.toText X)).contains (v.toText X)).map fun v =>
        path ++ "." ++ field ++ ": enum value " ++ v.toText X ++ " removed"

def compareStringOneOf (path : String) (baseline current : Value) : List String :=
  match stringOneOfValues baseline with
  | none => []
  | some baseValues =>
    match stringOneOfValues current with
    | none => [path ++ ".oneOf: string enum union removed"]
    | some curValues =>
      (baseValues.filter fun s => ¬ curValues.contains s).map fun s =>
        path ++ ".oneOf: variant " ++ debug s ++ " removed"

def compareRequired (path : String) (baseline current : Value) : List String :=
  let baseRequired := stringArraySet (baseline.get "required")
  let curRequired := stringArraySet (current.get "required")
  ((baseRequired.filter fun f => ¬ curRequired.contains f).map fun f =>
      path ++ ".required: field " ++ debug f ++ " no longer required") ++
    (curRequired.filter fun f => ¬ baseRequired.contains f).map fun f =>
      path ++ ".required: new required field " ++ debug f

/-! ### The walk -/

mutual

/-- `compare_schema_value`, below the root. -/
def compareSchema (path : String) : Value → Value → List String
  | .object base, current =>
    match current with
    | .object cur =>
      compareScalarField X path (.object base) current "type" ++
        compareScalarField X path (.object base) current "$ref" ++
        compareEnum X path (.object base) current "enum" ++
        compareStringOneOf debug path (.object base) current ++
        -- a schema without its properties is compared no further
        if (objectAt (.object base) "properties").isSome ∧ (objectAt current "properties").isNone then
          [path ++ ".properties: object properties removed"]
        else
          compareUnder path "properties" "property" base cur ++
            (if (objectAt (.object base) "properties").isSome then
              compareRequired debug path (.object base) current else []) ++
            compareUnder path "definitions" "definition" base cur ++
            compareUnder path "$defs" "definition" base cur
    | _ => [path ++ ": schema changed from object to non-object"]
  | _, _ => []

/-- The schemas that the baseline, with these entries, holds under `key`, each with the one of that name in the current schema. -/
def compareUnder (path key kind : String) :
    List (String × Value) → List (String × Value) → List String
  | [], _ => []
  | (k, .object bases) :: rest, cur =>
    if k = key then
      match objectAt (.object cur) key with
      | some curs => compareEach (path ++ "." ++ key) kind bases curs
      | none => [path ++ "." ++ key ++ ": definitions removed"]
    else compareUnder path key kind rest cur
  | (k, _) :: rest, cur => if k = key then [] else compareUnder path key kind rest cur

def compareEach (path kind : String) :
    List (String × Value) → List (String × Value) → List String
  | [], _ => []
  | (name, base) :: rest, curs =>
    (match lookup curs name with
      | some cur => compareSchema (path ++ "." ++ name) base cur
      | none => [path ++ "." ++ name ++ ": " ++ kind ++ " removed"]) ++
      compareEach path kind rest curs

end

/-- `compatibility_violations`: at the root, the exported types of the baseline by their names. -/
def compatibilityViolations (baseline current : Value) : List String :=
  match baseline with
  | .object types =>
    match current with
    | .object curTypes => compareEach X debug "$" "type" types curTypes
    | _ => ["$: schema changed from object to non-object"]
  | _ => []

end Compare

end ActantDb
