import Mathlib
import ActantDb.Ledger.JsValue

/-!
# Subscription predicates

Expression trees over the fields of a JSON value. A field is a dotted path, split at every evaluation; a segment names an entry of an object or counts into an array.
-/

namespace ActantDb

/-! ### Comparing values -/

/-- `x == y`. -/
def F64.eq (x y : F64) : Bool := !x.isNaN && !y.isNaN && x.rank = y.rank

/-- `partial_cmp`. -/
def F64.partialCmp (x y : F64) : Option Ordering :=
  if x.isNaN || y.isNaN then none else some (compare x.rank y.rank)

/-- An integer and a float are never equal. -/
def Number.eq : Number → Number → Bool
  | .posInt a, .posInt b => a = b
  | .negInt a, .negInt b => a = b
  | .float x, .float y => x.eq y
  | _, _ => false

mutual

def Value.eq : Value → Value → Bool
  | .null, .null => true
  | .bool a, .bool b => a = b
  | .number a, .number b => a.eq b
  | .string a, .string b => a = b
  | .array a, .array b => Value.eqItems a b
  | .object a, .object b => Value.eqEntries a b
  | _, _ => false

def Value.eqItems : List Value → List Value → Bool
  | [], [] => true
  | v :: vs, w :: ws => v.eq w && Value.eqItems vs ws
  | _, _ => false

def Value.eqEntries : List (String × Value) → List (String × Value) → Bool
  | [], [] => true
  | (k, v) :: vs, (l, w) :: ws => k = l && v.eq w && Value.eqEntries vs ws
  | _, _ => false

end

def order : Value → Value → Option Ordering
  | .number x, .number y => x.asF64.partialCmp y.asF64
  | .string x, .string y => some (compare x y)
  | .bool x, .bool y => some (compare x y)
  | .null, .null => some .eq
  | _, _ => none

/-! ### Paths -/

/-- `str::parse::<usize>`. -/
def parseUsize (s : List Char) : Option Nat :=
  let digits := if s.head? = some '+' then s.tail else s
  if digits.isEmpty || !digits.all Char.isDigit then none
  else
    let n := digits.foldl (fun n c => 10 * n + (c.toNat - 48)) 0
    if n < 2 ^ 64 then some n else none

def Value.child (segment : List Char) : Value → Option Value
  | .object entries => Value.get (.object entries) (String.ofList segment)
  | .array items => (parseUsize segment).bind fun i => items[i]?
  | _ => none

def resolveSegments : List (List Char) → Value → Option Value
  | [], v => some v
  | segment :: rest, v => if segment.isEmpty then none else (v.child segment).bind (resolveSegments rest)

def resolve (root : Value) (path : List Char) : Option Value := resolveSegments (path.splitOn '.') root

/-! ### Predicates -/

inductive Predicate where
  | true
  | false
  | eq (field : List Char) (value : Value)
  | ne (field : List Char) (value : Value)
  | lt (field : List Char) (value : Value)
  | le (field : List Char) (value : Value)
  | gt (field : List Char) (value : Value)
  | ge (field : List Char) (value : Value)
  | exists (field : List Char)
  | and (xs : List Predicate)
  | or (xs : List Predicate)
  | not (inner : Predicate)

/-- A comparison by order, of what the path leads to with a literal. -/
def cmp (found : Option Value) (lit : Value) (ok : Ordering → Bool) : Bool :=
  match found with
  | none => false
  | some got => (order got lit).any ok

mutual

def Predicate.evaluate (root : Value) : Predicate → Bool
  | .true => Bool.true
  | .false => Bool.false
  | .eq field value => (resolve root field).any (·.eq value)
  -- a missing field is not equal to anything
  | .ne field value => (resolve root field).all fun v => !v.eq value
  | .lt field value => cmp (resolve root field) value (· == .lt)
  | .le field value => cmp (resolve root field) value (· != .gt)
  | .gt field value => cmp (resolve root field) value (· == .gt)
  | .ge field value => cmp (resolve root field) value (· != .lt)
  | .exists field => (resolve root field).isSome
  | .and xs => Predicate.evaluateAll root xs
  | .or xs => Predicate.evaluateAny root xs
  | .not inner => !inner.evaluate root

def Predicate.evaluateAll (root : Value) : List Predicate → Bool
  | [] => Bool.true
  | p :: ps => p.evaluate root && Predicate.evaluateAll root ps

def Predicate.evaluateAny (root : Value) : List Predicate → Bool
  | [] => Bool.false
  | p :: ps => p.evaluate root || Predicate.evaluateAny root ps

end

section Evaluate

variable {root : Value} {ps : List Predicate} {p : Predicate}

@[simp] theorem evaluateAll_append :
    Predicate.evaluateAll root (ps ++ [p]) = (Predicate.evaluateAll root ps && p.evaluate root) := by
  induction ps with
  | nil => simp [Predicate.evaluateAll]
  | cons q ps ih => simp [Predicate.evaluateAll, ih, Bool.and_assoc]

@[simp] theorem evaluateAny_append :
    Predicate.evaluateAny root (ps ++ [p]) = (Predicate.evaluateAny root ps || p.evaluate root) := by
  induction ps with
  | nil => simp [Predicate.evaluateAny]
  | cons q ps ih => simp [Predicate.evaluateAny, ih, Bool.or_assoc]

end Evaluate

end ActantDb
