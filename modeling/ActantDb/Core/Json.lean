import Mathlib.Data.String.Basic

/-!
# JSON values

`serde_json::Value` and the operations the code uses on it: lookup, the two coercions, and the canonical form with the keys of every object sorted. Floating-point numbers are their 64 bits; how one is printed is the printer's affair and is passed in.
-/

namespace ActantDb

/-- An `f64`, as its bits. -/
structure F64 where
  bits : UInt64
deriving DecidableEq, Repr

/-- The double nearest to a magnitude below `2 ^ 64`, ties to even. -/
def F64.ofMagnitude (negative : Bool) (m : Nat) : F64 :=
  let sign := if negative then 2 ^ 63 else 0
  if m = 0 then ⟨UInt64.ofNat sign⟩
  else
    let e := m.log2
    if e ≤ 52 then ⟨UInt64.ofNat (sign + (e + 1023) * 2 ^ 52 + (m * 2 ^ (52 - e) - 2 ^ 52))⟩
    else
      let unit := 2 ^ (e - 52)
      let up := unit < 2 * (m % unit) ∨ (unit = 2 * (m % unit) ∧ m / unit % 2 = 1)
      -- rounding up to the next power of two carries into the exponent field
      ⟨UInt64.ofNat (sign + (e + 1023) * 2 ^ 52 + (m / unit + (if up then 1 else 0) - 2 ^ 52))⟩

/-- `0.5`. -/
def F64.half : F64 := ⟨0x3fe0000000000000⟩

inductive Number where
  | posInt (n : UInt64)
  | negInt (n : Int64)
  | float (x : F64)
deriving DecidableEq, Repr

def Number.asF64 : Number → F64
  | .posInt n => .ofMagnitude false n.toNat
  | .negInt n => .ofMagnitude true n.toInt.natAbs
  | .float x => x

/-- `serde_json::Value`; an object is the list of its entries, in map order. -/
inductive Value where
  | null
  | bool (b : Bool)
  | number (n : Number)
  | string (s : String)
  | array (items : List Value)
  | object (entries : List (String × Value))

namespace Value

def get (v : Value) (key : String) : Option Value :=
  match v with
  | .object entries => (entries.find? fun e => e.1 = key).map Prod.snd
  | _ => none

def asStr : Value → Option String
  | .string s => some s
  | _ => none

def asF64 : Value → Option F64
  | .number n => some n.asF64
  | _ => none

/-- `BTreeMap::insert` on the list of entries a map iterates over: sorted by key, the last value of a key wins. -/
def insertEntry {α : Type} (key : String) (value : α) :
    List (String × α) → List (String × α)
  | [] => [(key, value)]
  | e :: rest =>
    if key < e.1 then (key, value) :: e :: rest
    else if key = e.1 then (key, value) :: rest
    else e :: insertEntry key value rest

/-- The entries of the map that a loop of insertions builds. -/
def collectEntries {α : Type} (entries : List (String × α)) : List (String × α) :=
  entries.foldl (fun map e => insertEntry e.1 e.2 map) []

mutual

def canonicalize : Value → Value
  | .object entries => .object (collectEntries (canonicalizeEntries entries))
  | .array items => .array (canonicalizeItems items)
  | .null => .null
  | .bool b => .bool b
  | .number n => .number n
  | .string s => .string s

def canonicalizeItems : List Value → List Value
  | [] => []
  | v :: rest => canonicalize v :: canonicalizeItems rest

def canonicalizeEntries : List (String × Value) → List (String × Value)
  | [] => []
  | (key, v) :: rest => (key, canonicalize v) :: canonicalizeEntries rest

end

/-! ### Printing -/

def hexDigit (n : Nat) : Char := Char.ofNat (if n < 10 then 48 + n else 87 + n)

/-- One character of a string literal, escaped as the printer escapes it. -/
def escapeChar (c : Char) : List Char :=
  if c = '"' then ['\\', '"']
  else if c = '\\' then ['\\', '\\']
  else if c.toNat = 8 then ['\\', 'b']
  else if c.toNat = 9 then ['\\', 't']
  else if c.toNat = 10 then ['\\', 'n']
  else if c.toNat = 12 then ['\\', 'f']
  else if c.toNat = 13 then ['\\', 'r']
  else if c.toNat < 32 then ['\\', 'u', '0', '0', hexDigit (c.toNat / 16), hexDigit (c.toNat % 16)]
  else [c]

def quote (s : String) : List Char := '"' :: s.toList.flatMap escapeChar ++ ['"']

mutual

/-- `Value::to_string`, without whitespace. -/
def print (formatF64 : F64 → String) : Value → List Char
  | .null => "null".toList
  | .bool b => (if b then "true" else "false").toList
  | .number (.posInt n) => (Nat.repr n.toNat).toList
  | .number (.negInt n) => '-' :: (Nat.repr n.toInt.natAbs).toList
  | .number (.float x) => (formatF64 x).toList
  | .string s => quote s
  | .array items => '[' :: printItems formatF64 items ++ [']']
  | .object entries => '\x7b' :: printEntries formatF64 entries ++ ['\x7d']

def printItems (formatF64 : F64 → String) : List Value → List Char
  | [] => []
  | [v] => print formatF64 v
  | v :: w :: rest => print formatF64 v ++ ',' :: printItems formatF64 (w :: rest)

def printEntries (formatF64 : F64 → String) : List (String × Value) → List Char
  | [] => []
  | [(key, v)] => quote key ++ ':' :: print formatF64 v
  | (key, v) :: e :: rest =>
    quote key ++ ':' :: print formatF64 v ++ ',' :: printEntries formatF64 (e :: rest)

end

end Value

end ActantDb
