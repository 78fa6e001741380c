import ActantDb.Policy.Guard
import ActantDb.Subscribe.PredicateParse

/-!
# The predicate evaluator of the MCP server

The TypeScript port of the subscription predicates. A predicate and a payload are the JSON that the Rust evaluator reads, and JavaScript reads it in its own way: every number is a double, a string is a sequence of UTF-16 code units, a segment of a path is made a number by `Number`, and an object has the properties of its prototype besides its own.
-/

namespace ActantDb

namespace Mcp

/-- What `JSON.parse` gives, and what else a path can lead to: what every object inherits. -/
inductive JSONValue where
  | null
  | boolean (b : Bool)
  | number (x : F64)
  | string (s : String)
  | array (items : List JSONValue)
  | object (entries : List (String × JSONValue))
  -- a method of `Object.prototype`
  | method (name : String)
  | objectPrototype

namespace JSONValue

mutual

/-- The same JSON, as JavaScript reads it. -/
def ofValue : Value → JSONValue
  | .null => .null
  | .bool b => .boolean b
  | .number n => .number n.asF64
  | .string s => .string s
  | .array items => .array (ofItems items)
  | .object entries => .object (ofEntries entries)

def ofItems : List Value → List JSONValue
  | [] => []
  | v :: rest => ofValue v :: ofItems rest

def ofEntries : List (String × Value) → List (String × JSONValue)
  | [] => []
  | (key, v) :: rest => (key, ofValue v) :: ofEntries rest

end

end JSONValue

/-! ### Numbers -/

def trim (s : List Char) : List Char := ((s.dropWhile Guard.isSpace).reverse.dropWhile Guard.isSpace).reverse

def radix : Char → Option Nat
  | 'x' | 'X' => some 16
  | 'o' | 'O' => some 8
  | 'b' | 'B' => some 2
  | _ => none

def digitOf (radix : Nat) (c : Char) : Option Nat :=
  let n := if c.isDigit then c.toNat - 48
    else if 'a' ≤ c ∧ c ≤ 'f' then c.toNat - 87
    else if 'A' ≤ c ∧ c ≤ 'F' then c.toNat - 55
    else radix
  if n < radix then some n else none

/-- The digits after `0x`, `0o` or `0b`. -/
def radixLiteral (radix : Nat) (digits : List Char) : Option F64 :=
  if digits.isEmpty then none
  else (digits.foldlM (fun n c => (digitOf radix c).map (radix * n + ·)) 0).map (F64.ofNatural false)

/-- A decimal literal without its sign. -/
def decimalLiteral (negative : Bool) (s : List Char) : Option F64 :=
  if s = "Infinity".toList then some (.ofNatural negative (2 ^ 1024))
  else
    let whole := s.takeWhile Char.isDigit
    let fraction := PredicateParse.splitFraction (s.dropWhile Char.isDigit)
    if whole.isEmpty && fraction.1.isEmpty then none
    else (PredicateParse.parseExponent fraction.2).map fun e =>
      F64.ofDecimal negative (PredicateParse.digitsValue (whole ++ fraction.1)) (e - fraction.1.length)

/-- `Number(s)`, but for `NaN`. -/
def toNumber (s : List Char) : Option F64 :=
  match trim s with
  | [] => some (.ofMagnitude false 0)
  | '+' :: rest => decimalLiteral false rest
  | '-' :: rest => decimalLiteral true rest
  | '0' :: marker :: digits =>
    match radix marker with
    | some r => radixLiteral r digits
    | none => decimalLiteral false ('0' :: marker :: digits)
  | literal => decimalLiteral false literal

/-- The index that a segment is to an array: an integer that is not negative. -/
def index (segment : List Char) : Option Nat :=
  (toNumber segment).bind fun idx =>
    if !idx.fractIsZero || (idx.isNegative && idx.magnitude ≠ 0) then none else some idx.toNat

/-- The sign of `a - b`, which is `NaN` for an infinity and itself. -/
def difference (a b : F64) : Option Ordering :=
  if a.isNaN || b.isNaN || (!a.isFinite && a.rank = b.rank) then none else some (compare a.rank b.rank)

/-- `a < b ? -1 : a > b ? 1 : 0`. -/
def compareStrings (a b : String) : Ordering := if !utf16Le b a then .lt else if !utf16Le a b then .gt else .eq

/-! ### Properties -/

def prototypeMethods : List String :=
  ["constructor", "__defineGetter__", "__defineSetter__", "hasOwnProperty", "__lookupGetter__", "__lookupSetter__",
    "isPrototypeOf", "propertyIsEnumerable", "toString", "valueOf", "toLocaleString"]

/-- What an object inherits under a key. -/
def inherited (key : String) : Option JSONValue :=
  if key = "__proto__" then some .objectPrototype
  else if key ∈ prototypeMethods then some (.method key)
  else none

namespace JSONValue

/-- `object[key]`, but for `undefined`. -/
def property (v : JSONValue) (key : String) : Option JSONValue :=
  match v with
  | .object entries => ((entries.find? fun e => e.1 = key).map Prod.snd).or (inherited key)
  -- the prototype of the prototype is `null`
  | .objectPrototype => if key = "__proto__" then some .null else inherited key
  | _ => none

/-- What a segment leads to. -/
def child (segment : List Char) : JSONValue → Option JSONValue
  | .array items => (index segment).bind fun i => items[i]?
  | .object entries => property (.object entries) (String.ofList segment)
  | .objectPrototype => property .objectPrototype (String.ofList segment)
  | _ => none

/-- `typeof v === "object"`, but for `null` and arrays. -/
def isRecord : JSONValue → Bool
  | .object _ | .objectPrototype => true
  | _ => false

/-- The number of `Object.keys(v)`; what the prototype has is not enumerable. -/
def keyCount : JSONValue → Nat
  | .object entries => entries.length
  | _ => 0

/-- `a === b`. Two arrays or objects that were parsed apart are never the same. -/
def strictEq : JSONValue → JSONValue → Bool
  | .null, .null => true
  | .boolean a, .boolean b => a = b
  | .number x, .number y => x.eq y
  | .string s, .string t => s = t
  | .method f, .method g => f = g
  | .objectPrototype, .objectPrototype => true
  | _, _ => false

mutual

def deepEq (a b : JSONValue) : Bool :=
  strictEq a b ||
    match a, b with
    | .array items, .array others => items.length == others.length && everyItem items others
    | .object entries, b => b.isRecord && entries.length == b.keyCount && everyEntry entries b
    | .objectPrototype, b => b.isRecord && b.keyCount == 0
    -- one is `null` or an array, or their types differ
    | _, _ => false

def everyItem : List JSONValue → List JSONValue → Bool
  | v :: rest, other :: others => deepEq v other && everyItem rest others
  | [], _ => true
  | _, [] => false

/-- Every key is looked up in `b`, where it may be inherited. -/
def everyEntry : List (String × JSONValue) → JSONValue → Bool
  | [], _ => true
  | (key, v) :: rest, b => (b.property key).any (deepEq v) && everyEntry rest b

end

def order : JSONValue → JSONValue → Option Ordering
  | .number a, .number b => difference a b
  | .string a, .string b => some (compareStrings a b)
  | .boolean a, .boolean b => some (compare a b)
  | .null, .null => some .eq
  | _, _ => none

end JSONValue

/-! ### The evaluator -/

def resolveSegments : List (List Char) → JSONValue → Option JSONValue
  | [], cur => some cur
  | segment :: rest, cur => if segment.isEmpty then none else (cur.child segment).bind (resolveSegments rest)

def resolve (root : JSONValue) (path : List Char) : Option JSONValue :=
  if path.isEmpty then none else resolveSegments (path.splitOn '.') root

def cmp (root : JSONValue) (field : List Char) (lit : JSONValue) (ok : Ordering → Bool) : Bool :=
  (resolve root field).any fun got => (got.order lit).any ok

mutual

/-- On JSON of the type `Predicate`; what is not of that type is `false` to the port and rejected by `serde`. -/
def evaluatePredicate (root : JSONValue) : Predicate → Bool
  | .true => Bool.true
  | .false => Bool.false
  | .exists field => (resolve root field).isSome
  | .eq field value => (resolve root field).any fun v => v.deepEq (.ofValue value)
  -- missing => true for `ne`
  | .ne field value => (resolve root field).all fun v => !v.deepEq (.ofValue value)
  | .lt field value => cmp root field (.ofValue value) (· == .lt)
  | .le field value => cmp root field (.ofValue value) (· != .gt)
  | .gt field value => cmp root field (.ofValue value) (· == .gt)
  | .ge field value => cmp root field (.ofValue value) (· != .lt)
  | .and xs => evaluateEvery root xs
  | .or xs => evaluateSome root xs
  | .not arg => !evaluatePredicate root arg

def evaluateEvery (root : JSONValue) : List Predicate → Bool
  | [] => Bool.true
  | p :: ps => evaluatePredicate root p && evaluateEvery root ps

def evaluateSome (root : JSONValue) : List Predicate → Bool
  | [] => Bool.false
  | p :: ps => evaluatePredicate root p || evaluateSome root ps

end

end Mcp

end ActantDb
