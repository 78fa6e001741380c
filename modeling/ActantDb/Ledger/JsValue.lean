import Mathlib.Data.List.Sort
import ActantDb.Core.Hash

/-!
# JavaScript values and their canonical JSON

The values a program can hand to the ledger, and what is left of them once they have been written as canonical JSON and parsed again: `undefined`, functions and symbols are dropped from objects, numbers that are not finite become `null`, and a value that cannot be walked or printed makes `canonicalJSON` throw.
-/

namespace ActantDb

/-! ### Numbers -/

namespace F64

def infinity : F64 := ⟨0x7ff0000000000000⟩

def magnitude (x : F64) : Nat := x.bits.toNat % 2 ^ 63

def isNaN (x : F64) : Bool := 2047 * 2 ^ 52 < x.magnitude

def isFinite (x : F64) : Bool := x.magnitude < 2047 * 2 ^ 52

def isNegative (x : F64) : Bool := 2 ^ 63 ≤ x.bits.toNat

/-- The doubles that are numbers, in order. -/
def rank (x : F64) : Int := if x.isNegative then -x.magnitude else x.magnitude

/-- `x <= y`. -/
def le (x y : F64) : Bool := !x.isNaN && !y.isNaN && x.rank ≤ y.rank

/-- The double nearest to a natural number. -/
def ofNat (n : Nat) : F64 := if 2 ^ 1024 ≤ n then infinity else ofMagnitude false n

/-- The integer part of a finite double that is not negative. -/
def toNat (x : F64) : Nat :=
  let e := x.magnitude / 2 ^ 52
  let m := 2 ^ 52 + x.magnitude % 2 ^ 52
  if e = 0 then 0 else if 1075 ≤ e then m * 2 ^ (e - 1075) else m / 2 ^ (1075 - e)

/-- Both zeros are printed as `0`. -/
def printed (x : F64) : F64 := if x.magnitude = 0 then ⟨0⟩ else x

end F64

/-! ### Values -/

/-- An `Error`, by its name and message. -/
structure Thrown where
  name : String
  message : String
deriving DecidableEq, Repr

inductive JsValue where
  | undefined
  | null
  | bool (b : Bool)
  | number (x : F64)
  | bigint (n : Int)
  | string (s : String)
  | symbol
  | function
  | array (items : List JsValue)
  -- its own enumerable properties
  | object (entries : List (String × JsValue))
  -- an object with a `toJSON` of its own, as the value this returns
  | custom (value : JsValue)
  -- an object that throws when it is walked: a cycle, an accessor
  | unreadable (e : Thrown)

namespace JsValue

def isUndefined : JsValue → Bool
  | .undefined => true
  | _ => false

/-- `v === key`, for a string `key`. -/
def isString : JsValue → String → Bool
  | .string s, key => s = key
  | _, _ => false

/-- The property `key`; what has none is `undefined`. -/
def get : JsValue → String → JsValue
  | .object entries, key => ((entries.find? fun e => e.1 = key).map Prod.snd).getD .undefined
  | _, _ => .undefined

/-- The property of what is not known to be an object: `null` and `undefined` have none to read. -/
def read (v : JsValue) (key : String) : Except Thrown JsValue :=
  match v with
  | .undefined => .error ⟨"TypeError", "Cannot read properties of undefined (reading '" ++ key ++ "')"⟩
  | .null => .error ⟨"TypeError", "Cannot read properties of null (reading '" ++ key ++ "')"⟩
  | v => .ok (v.get key)

def truthy : JsValue → Bool
  | .undefined | .null => false
  | .bool b => b
  | .number x => !x.isNaN && x.magnitude ≠ 0
  | .bigint n => n ≠ 0
  | .string s => s ≠ ""
  | _ => true

/-- `v === w`. Two objects, arrays or functions that were made apart are never the same. -/
def strictEq : JsValue → JsValue → Bool
  | .undefined, .undefined => true
  | .null, .null => true
  | .bool a, .bool b => a = b
  | .number x, .number y => x.le y && y.le x
  | .bigint m, .bigint n => m = n
  | .string s, .string t => s = t
  | _, _ => false

/-- `v ?? w`. -/
def orElse : JsValue → JsValue → JsValue
  | .undefined, w => w
  | .null, w => w
  | v, _ => v

/-- What spreading the value into an array yields. -/
def iterate : JsValue → Except Thrown (List JsValue)
  | .array items => .ok items
  | .string s => .ok (s.toList.map fun c => .string (String.ofList [c]))
  | _ => .error ⟨"TypeError", "Spread syntax requires ...iterable[Symbol.iterator] to be a function"⟩

end JsValue

/-! ### Canonical JSON -/

def codeUnits (c : Char) : List Nat :=
  if c.toNat < 0x10000 then [c.toNat]
  else [0xd800 + (c.toNat - 0x10000) / 0x400, 0xdc00 + (c.toNat - 0x10000) % 0x400]

/-- `a <= b` of JavaScript strings, which compares code units. -/
def utf16Le (a b : String) : Bool := a.toList.flatMap codeUnits ≤ b.toList.flatMap codeUnits

/-- The number of a key that is an array index: such keys come first in every object, in numerical order. -/
def arrayIndex (key : String) : Option Nat :=
  match key.toList with
  | [] => none
  | '0' :: rest => if rest = [] then some 0 else none
  | digits =>
    let n := digits.foldl (fun n c => 10 * n + (c.toNat - 48)) 0
    if digits.all Char.isDigit ∧ n < 2 ^ 32 - 1 then some n else none

/-- The order in which an object with these properties, added in this order, lists them. -/
def ownEntries (entries : List (String × JsValue)) : List (String × JsValue) :=
  (entries.filter fun e => (arrayIndex e.1).isSome).insertionSort
      (fun a b => (arrayIndex a.1).getD 0 ≤ (arrayIndex b.1).getD 0) ++
    entries.filter fun e => ¬ (arrayIndex e.1).isSome

mutual

/-- Every object with its entries sorted by key. They are sorted after they have been walked, which only shows in which of two errors is thrown. -/
def sortKeys : JsValue → Except Thrown JsValue
  | .array items => do return .array (← sortItems items)
  | .object entries => do
    let sorted := (← sortEntries entries).insertionSort fun a b => utf16Le a.1 b.1
    return .object (ownEntries sorted)
  | .unreadable e => .error e
  | v => .ok v

def sortItems : List JsValue → Except Thrown (List JsValue)
  | [] => .ok []
  | v :: rest => do return (← sortKeys v) :: (← sortItems rest)

def sortEntries : List (String × JsValue) → Except Thrown (List (String × JsValue))
  | [] => .ok []
  | (key, v) :: rest => do return (key, ← sortKeys v) :: (← sortEntries rest)

end

mutual

/-- `JSON.parse(JSON.stringify(v))`; `undefined` where nothing is printed. -/
def throughJson : JsValue → Except Thrown JsValue
  | .symbol => .ok .undefined
  | .function => .ok .undefined
  | .number x => .ok (if x.isFinite then .number x.printed else .null)
  | .bigint _ => .error ⟨"TypeError", "Do not know how to serialize a BigInt"⟩
  | .array items => do return .array (← itemsThroughJson items)
  | .object entries => do return .object (ownEntries (← entriesThroughJson entries))
  | .custom v => throughJson v
  | .unreadable e => .error e
  | v => .ok v

def itemsThroughJson : List JsValue → Except Thrown (List JsValue)
  | [] => .ok []
  | v :: rest => do
    let v' ← throughJson v
    return (if v'.isUndefined then .null else v') :: (← itemsThroughJson rest)

def entriesThroughJson : List (String × JsValue) → Except Thrown (List (String × JsValue))
  | [] => .ok []
  | (key, v) :: rest => do
    let v' ← throughJson v
    let rest' ← entriesThroughJson rest
    return if v'.isUndefined then rest' else (key, v') :: rest'

end

/-- `canonicalJSON`, as the value its text is parsed to. -/
def canonicalJSON (v : JsValue) : Except Thrown JsValue := do throughJson (← sortKeys v)

/-! ### Text -/

/-- What the code takes from the language's library: how a number is printed and a date parsed, the hex digest of a text, and regular expressions, of which a pattern may be malformed. -/
structure JsLibrary where
  numberToString : F64 → String
  dateParse : String → Option F64
  sha256 : String → String
  regExp : String → Option (String → Bool)

/-- The library of sample runs: no date is parsed, the numbers are natural, and no pattern matches. -/
def JsLibrary.sample : JsLibrary where
  numberToString x := toString x.toNat
  dateParse _ := none
  sha256 text := hexEncode (Sha256.digest (asBytes text))
  regExp _ := some fun _ => false

section Text

variable (X : JsLibrary)

mutual

/-- `JSON.stringify` of what JSON can hold. -/
def printJson : JsValue → List Char
  | .null => "null".toList
  | .bool b => (if b then "true" else "false").toList
  | .number x => (X.numberToString x).toList
  | .string s => Value.quote s
  | .array items => '[' :: printJsonItems items ++ [']']
  | .object entries => '\x7b' :: printJsonEntries entries ++ ['\x7d']
  | _ => []

def printJsonItems : List JsValue → List Char
  | [] => []
  | v :: rest => printJson v ++ (if rest.isEmpty then [] else [',']) ++ printJsonItems rest

def printJsonEntries : List (String × JsValue) → List Char
  | [] => []
  | (key, v) :: rest =>
    Value.quote key ++ ':' :: printJson v ++ (if rest.isEmpty then [] else [',']) ++ printJsonEntries rest

end

/-- What hashing `undefined` throws. -/
def notText : Thrown := ⟨"TypeError", "The \"data\" argument must be of type string"⟩

/-- The text that `canonicalJSON` returns; there is none for `undefined`. -/
def canonicalText (v : JsValue) : Except Thrown String := do
  let j ← canonicalJSON v
  if j.isUndefined then .error notText else .ok (String.ofList (printJson X j))

def sha256OfJSON (v : JsValue) : Except Thrown String := do return X.sha256 (← canonicalText X v)

end Text

/-! ### What is left of an object -/

section Get

variable {entries entries' : List (String × JsValue)} {key : String} {v j : JsValue}

@[simp] theorem get_nil : (JsValue.object []).get key = .undefined := rfl

theorem get_cons (e : String × JsValue) :
    (JsValue.object (e :: entries)).get key = if e.1 = key then e.2 else (JsValue.object entries).get key := by
  by_cases h : e.1 = key <;> simp [JsValue.get, h]

theorem get_of_notMem (h : key ∉ entries.map Prod.fst) : (JsValue.object entries).get key = .undefined := by
  induction entries with
  | nil => rfl
  | cons e rest ih =>
    rw [List.map_cons, List.mem_cons, not_or] at h
    rw [get_cons, if_neg (Ne.symm h.1), ih h.2]

/-- Where no key occurs twice the order of the entries is of no account. -/
theorem get_perm (h : entries.Perm entries') (hnodup : (entries.map Prod.fst).Nodup) :
    (JsValue.object entries).get key = (JsValue.object entries').get key := by
  induction h with
  | nil => rfl
  | cons e _ ih => rw [get_cons, get_cons, ih (List.nodup_cons.mp hnodup).2]
  | swap a b l =>
    have hne : b.1 ≠ a.1 := by
      intro heq
      simp [heq] at hnodup
    rw [get_cons, get_cons, get_cons, get_cons]
    by_cases ha : a.1 = key
    · rw [if_pos ha, if_pos ha, if_neg fun hb => hne (hb.trans ha.symm)]
    · rw [if_neg ha, if_neg ha]
  | trans h₁ _ ih₁ ih₂ => rw [ih₁ hnodup, ih₂ ((h₁.map _).nodup_iff.mp hnodup)]

theorem ownEntries_perm (entries : List (String × JsValue)) : (ownEntries entries).Perm entries := by
  rw [ownEntries]
  have hsplit := List.filter_append_perm (fun e : String × JsValue => (arrayIndex e.1).isSome) entries
  refine ((List.perm_insertionSort _ _).append_right _).trans ?_
  simpa only [Bool.decide_eq_true, Bool.not_eq_true, Bool.decide_eq_false] using hsplit

theorem sortEntries_cons (e : String × JsValue) :
    sortEntries (e :: entries) =
      sortKeys e.2 >>= fun v => sortEntries entries >>= fun rest => pure ((e.1, v) :: rest) := rfl

theorem entriesThroughJson_cons (e : String × JsValue) :
    entriesThroughJson (e :: entries) =
      throughJson e.2 >>= fun v => entriesThroughJson entries >>= fun rest =>
        pure (if v.isUndefined then rest else (e.1, v) :: rest) := rfl

theorem bind_eq_ok {ε α β : Type} {x : Except ε α} {f : α → Except ε β} {b : β} :
    (x >>= f) = .ok b ↔ ∃ a, x = .ok a ∧ f a = .ok b := by
  cases x with
  | ok a =>
    constructor
    · exact fun h => ⟨a, rfl, h⟩
    · rintro ⟨a', ha, h⟩
      rwa [Except.ok.inj ha]
  | error e =>
    constructor
    · exact nofun
    · rintro ⟨a, ha, -⟩
      exact absurd ha nofun

theorem get_sortEntries (h : sortEntries entries = .ok entries') (key : String) :
    entries'.map Prod.fst = entries.map Prod.fst ∧
      sortKeys ((JsValue.object entries).get key) = .ok ((JsValue.object entries').get key) := by
  induction entries generalizing entries' with
  | nil =>
    cases h
    exact ⟨rfl, rfl⟩
  | cons e rest ih =>
    rw [sortEntries_cons] at h
    obtain ⟨v, hv, h⟩ := bind_eq_ok.mp h
    obtain ⟨rest', hrest, h⟩ := bind_eq_ok.mp h
    cases h
    obtain ⟨hkeys, hget⟩ := ih hrest
    refine ⟨by simp [hkeys], ?_⟩
    rw [get_cons, get_cons]
    split
    · exact hv
    · exact hget

theorem isUndefined_iff : v.isUndefined = true ↔ v = .undefined := by
  cases v <;> simp [JsValue.isUndefined]

theorem get_entriesThroughJson (hnodup : (entries.map Prod.fst).Nodup)
    (h : entriesThroughJson entries = .ok entries') (key : String) :
    (entries'.map Prod.fst).Sublist (entries.map Prod.fst) ∧
      throughJson ((JsValue.object entries).get key) = .ok ((JsValue.object entries').get key) := by
  induction entries generalizing entries' with
  | nil =>
    cases h
    exact ⟨List.Sublist.slnil, rfl⟩
  | cons e rest ih =>
    rw [entriesThroughJson_cons] at h
    obtain ⟨v, hv, h⟩ := bind_eq_ok.mp h
    obtain ⟨rest', hrest, h⟩ := bind_eq_ok.mp h
    cases h
    rw [List.map_cons, List.nodup_cons] at hnodup
    obtain ⟨hsub, hget⟩ := ih hnodup.2 hrest
    rw [get_cons]
    by_cases hdrop : v.isUndefined = true
    · rw [if_pos hdrop]
      refine ⟨hsub.cons _, ?_⟩
      split
      · rename_i hkey
        -- the dropped key occurs nowhere else
        rw [get_of_notMem fun hin => hnodup.1 (hkey ▸ hsub.subset hin), hv, isUndefined_iff.mp hdrop]
      · exact hget
    · rw [if_neg hdrop, get_cons]
      refine ⟨hsub.cons_cons _, ?_⟩
      split
      · exact hv
      · exact hget

/-- **Every property by itself.** A property of the object that is read back is what is read back of that property. -/
theorem get_canonicalJSON (hnodup : (entries.map Prod.fst).Nodup)
    (h : canonicalJSON (.object entries) = .ok j) (key : String) :
    canonicalJSON ((JsValue.object entries).get key) = .ok (j.get key) := by
  obtain ⟨sorted, hsorted, h⟩ := bind_eq_ok.mp h
  rw [sortKeys] at hsorted
  obtain ⟨walked, hwalked, hsorted⟩ := bind_eq_ok.mp hsorted
  cases hsorted
  rw [throughJson] at h
  obtain ⟨printed, hprinted, h⟩ := bind_eq_ok.mp h
  cases h
  obtain ⟨hkeys, hwalk⟩ := get_sortEntries hwalked key
  have hwalkedNodup : (walked.map Prod.fst).Nodup := hkeys ▸ hnodup
  have hperm : (ownEntries (walked.insertionSort fun a b => utf16Le a.1 b.1)).Perm walked :=
    (ownEntries_perm _).trans (List.perm_insertionSort _ _)
  have hownNodup := (hperm.map Prod.fst).nodup_iff.mpr hwalkedNodup
  obtain ⟨hsub, hthrough⟩ := get_entriesThroughJson hownNodup hprinted key
  rw [canonicalJSON, hwalk]
  show throughJson ((JsValue.object walked).get key) = _
  rw [← get_perm hperm hownNodup, hthrough, get_perm (ownEntries_perm printed).symm (hownNodup.sublist hsub)]

theorem sortEntries_ok (h : ∀ e ∈ entries, ∃ v, sortKeys e.2 = .ok v) : ∃ es, sortEntries entries = .ok es := by
  induction entries with
  | nil => exact ⟨[], rfl⟩
  | cons e rest ih =>
    obtain ⟨v, hv⟩ := h e List.mem_cons_self
    obtain ⟨es, hes⟩ := ih fun e he => h e (List.mem_cons_of_mem _ he)
    exact ⟨(e.1, v) :: es, by rw [sortEntries_cons, hv, hes]; rfl⟩

theorem entriesThroughJson_ok (h : ∀ e ∈ entries, ∃ v, throughJson e.2 = .ok v) :
    ∃ es, entriesThroughJson entries = .ok es := by
  induction entries with
  | nil => exact ⟨[], rfl⟩
  | cons e rest ih =>
    obtain ⟨v, hv⟩ := h e List.mem_cons_self
    obtain ⟨es, hes⟩ := ih fun e he => h e (List.mem_cons_of_mem _ he)
    exact ⟨if v.isUndefined then es else (e.1, v) :: es, by rw [entriesThroughJson_cons, hv, hes]; rfl⟩

theorem sortEntries_mem (h : sortEntries entries = .ok entries') {e : String × JsValue} (he : e ∈ entries') :
    ∃ v, (e.1, v) ∈ entries ∧ sortKeys v = .ok e.2 := by
  induction entries generalizing entries' with
  | nil =>
    cases h
    cases he
  | cons x rest ih =>
    rw [sortEntries_cons] at h
    obtain ⟨v, hv, h⟩ := bind_eq_ok.mp h
    obtain ⟨rest', hrest, h⟩ := bind_eq_ok.mp h
    cases h
    rcases List.mem_cons.mp he with rfl | hin
    · exact ⟨x.2, List.mem_cons_self, hv⟩
    · obtain ⟨u, hu, hsort⟩ := ih hrest hin
      exact ⟨u, List.mem_cons_of_mem _ hu, hsort⟩

/-- An object is recorded when each of its properties can be. -/
theorem canonicalJSON_object_ok (h : ∀ e ∈ entries, ∃ v, canonicalJSON e.2 = .ok v) :
    ∃ j, canonicalJSON (.object entries) = .ok j := by
  have hwalk : ∀ e ∈ entries, ∃ v, sortKeys e.2 = .ok v := by
    intro e he
    obtain ⟨v, hv⟩ := h e he
    obtain ⟨w, hw, -⟩ := bind_eq_ok.mp hv
    exact ⟨w, hw⟩
  obtain ⟨walked, hwalked⟩ := sortEntries_ok hwalk
  have hprint : ∀ e ∈ ownEntries (walked.insertionSort fun a b => utf16Le a.1 b.1),
      ∃ v, throughJson e.2 = .ok v := by
    intro e he
    have hin : e ∈ walked :=
      (List.perm_insertionSort _ _).subset ((ownEntries_perm _).subset he)
    obtain ⟨u, hu, hsort⟩ := sortEntries_mem hwalked hin
    obtain ⟨v, hv⟩ := h _ hu
    rw [canonicalJSON, hsort] at hv
    exact ⟨v, hv⟩
  obtain ⟨printed, hprinted⟩ := entriesThroughJson_ok hprint
  refine ⟨.object (ownEntries printed), ?_⟩
  rw [canonicalJSON, sortKeys, hwalked]
  show throughJson (.object (ownEntries (walked.insertionSort fun a b => utf16Le a.1 b.1))) = _
  rw [throughJson, hprinted]
  rfl

end Get

end ActantDb
