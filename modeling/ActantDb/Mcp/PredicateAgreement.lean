import ActantDb.Ledger.Canonical
import ActantDb.Ledger.KeyOrder
import ActantDb.Mcp.Predicate
import ActantDb.Subscribe.PredicateRead
import ActantDb.Subscribe.Trichotomy

/-!
# Two evaluators of one language

What `Predicate.evaluate` and its port make of the same predicate and the same JSON. They read a comparison differently where a path goes on in the port only (an index in another spelling, a property that is inherited), where two numbers or objects are the same to JavaScript only, and where code units order two strings otherwise than characters do. On all that is built from some comparisons they agree exactly where none of these is so for any of the comparisons (`predicates_agree_iff`).
-/

namespace ActantDb

namespace Mcp

open PredicateParse (splitFraction parseExponent)

/-! ### JSON that both can hold -/

mutual

/-- What `serde_json` makes of a text, and `JSON.parse` can hold: the keys of an object are in order, and an array has less than `2 ^ 32` items. -/
def Parsed : Value → Prop
  | .number n => n.valid = true
  | .array items => items.length < 2 ^ 32 ∧ ParsedItems items
  | .object entries => (entries.Pairwise fun a b => a.1 < b.1) ∧ ParsedEntries entries
  | _ => True

def ParsedItems : List Value → Prop
  | [] => True
  | v :: rest => Parsed v ∧ ParsedItems rest

def ParsedEntries : List (String × Value) → Prop
  | [] => True
  | e :: rest => Parsed e.2 ∧ ParsedEntries rest

end

structure Document where
  value : Value
  parsed : Parsed value

theorem parsed_of_mem_items {items : List Value} {v : Value} (h : ParsedItems items) (hv : v ∈ items) : Parsed v := by
  induction items with
  | nil => cases hv
  | cons w rest ih =>
    rcases List.mem_cons.mp hv with rfl | hrest
    · exact h.1
    · exact ih h.2 hrest

theorem parsed_of_mem_entries {entries : List (String × Value)} {e : String × Value} (h : ParsedEntries entries)
    (he : e ∈ entries) : Parsed e.2 := by
  induction entries with
  | nil => cases he
  | cons w rest ih =>
    rcases List.mem_cons.mp he with rfl | hrest
    · exact h.1
    · exact ih h.2 hrest

theorem ofItems_eq (items : List Value) : JSONValue.ofItems items = items.map .ofValue := by
  induction items with
  | nil => rfl
  | cons v rest ih => rw [JSONValue.ofItems, ih, List.map_cons]

theorem ofEntries_eq (entries : List (String × Value)) :
    JSONValue.ofEntries entries = entries.map fun e => (e.1, .ofValue e.2) := by
  induction entries with
  | nil => rfl
  | cons e rest ih => rw [JSONValue.ofEntries, ih, List.map_cons]

/-! ### Indices -/

/-- The double of a natural number below `2 ^ 53` is that number. -/
theorem toNat_ofMagnitude {n : Nat} (h : n < 2 ^ 53) :
    (F64.ofMagnitude false n).toNat = n ∧ (F64.ofMagnitude false n).fractIsZero = true ∧
      (F64.ofMagnitude false n).isNegative = false := by
  by_cases hzero : n = 0
  · subst hzero
    decide
  · have hint : F64.ofMagnitude false n = F64.ofInt n := by
      rw [F64.ofInt, Int.natAbs_natCast, decide_eq_false (Int.not_lt.mpr (Int.natCast_nonneg n))]
    obtain ⟨e, m, he, hm, hlow, hhigh, hnegative, hmagnitude⟩ := F64.magnitude_ofInt (n := (n : Int)) h
      (Int.natCast_ne_zero.mpr hzero)
    rw [Int.natAbs_natCast] at hm
    have hexponent : ((e + 1023) * 2 ^ 52 + (m - 2 ^ 52)) / 2 ^ 52 = e + 1023 := by omega
    have hmantissa : 2 ^ 52 + ((e + 1023) * 2 ^ 52 + (m - 2 ^ 52)) % 2 ^ 52 = m := by omega
    have hfinite : (F64.ofInt n).isFinite = true := by
      rw [F64.isFinite, hmagnitude, decide_eq_true_eq]
      omega
    have hshift : 1075 - (e + 1023) = 52 - e := by omega
    rw [hint, hnegative]
    refine ⟨?_, ?_, decide_eq_false (Int.not_lt.mpr (Int.natCast_nonneg n))⟩
    · simp only [F64.toNat, hmagnitude, hexponent, hmantissa, hshift]
      rw [if_neg (by omega)]
      split
      · have hlast : e = 52 := by omega
        rw [hm, hlast]
        simp
      · rw [hm, Nat.mul_div_cancel _ (Nat.two_pow_pos _)]
    · simp only [F64.fractIsZero, hfinite, hmagnitude, hexponent, hmantissa, hshift, Bool.true_and]
      rw [if_neg (by omega)]
      split
      · rfl
      · rw [hm, Nat.mul_mod_left, decide_eq_true rfl]

section Digits

variable {digits : List Char} (hall : digits.all Char.isDigit = true)

include hall

theorem decimalLiteral_digits (hdigits : digits ≠ []) :
    decimalLiteral false digits = some (F64.ofDecimal false (PredicateParse.digitsValue digits) 0) := by
  have hword : digits ≠ "Infinity".toList := by
    rintro rfl
    exact absurd hall (by decide)
  have htake : digits.takeWhile Char.isDigit = digits := List.takeWhile_eq_self_iff.mpr (List.all_eq_true.mp hall)
  have hdrop : digits.dropWhile Char.isDigit = [] := List.dropWhile_eq_nil_iff.mpr (List.all_eq_true.mp hall)
  have hnonempty : digits.isEmpty = false := List.isEmpty_eq_false_iff.mpr hdigits
  simp only [decimalLiteral, if_neg hword, htake, hdrop, splitFraction, parseExponent, hnonempty, Bool.false_and,
    Bool.false_eq_true, if_false, List.append_nil, List.length_nil, Option.map_some, Int.natCast_zero, Int.sub_zero]

end Digits

theorem isSpace_digit {d : Char} (h : d.isDigit = true) : Guard.isSpace d = false := by
  have hdigit := PredicateParse.digit_bounds h
  simp [Guard.isSpace]
  omega

theorem trim_eq {s : List Char} (h : ∀ c ∈ s, Guard.isSpace c = false) : trim s = s := by
  have hdrop (t : List Char) (ht : ∀ c ∈ t, Guard.isSpace c = false) : t.dropWhile Guard.isSpace = t := by
    cases t with
    | nil => rfl
    | cons c rest => rw [List.dropWhile_cons_of_neg (by rw [ht c List.mem_cons_self]; exact Bool.false_ne_true)]
  rw [trim, hdrop s h, hdrop _ fun c hc => h c (List.mem_reverse.mp hc), List.reverse_reverse]

/-- A digit does not mark a radix. -/
theorem radix_digit {d : Char} (h : d.isDigit = true) : radix d = none := by
  rw [radix.eq_def]
  split <;> first | rfl | cases h

theorem ofDecimal_small {m : Nat} (h : m < 2 ^ 53) : F64.ofDecimal false m 0 = .ofMagnitude false m := by
  rw [F64.ofDecimal]
  by_cases hzero : m = 0
  · rw [if_pos hzero, hzero]
  · rw [if_neg hzero, if_neg (by norm_num), if_pos (le_refl 0), Int.toNat_zero, pow_zero, mul_one,
      PredicateParse.ofNatural_small (by omega)]

theorem index_of_toNumber {segment : List Char} {n : Nat} (hn : n < 2 ^ 53)
    (h : toNumber segment = some (F64.ofDecimal false n 0)) : index segment = some n := by
  obtain ⟨hvalue, hinteger, hsign⟩ := toNat_ofMagnitude hn
  rw [index, h, ofDecimal_small hn, Option.bind_some, hinteger, hsign, hvalue]
  rfl

theorem parseUsize_digits (digits : List Char) {n : Nat}
    (h : (if digits.isEmpty || !digits.all Char.isDigit then none
      else if PredicateParse.digitsValue digits < 2 ^ 64 then some (PredicateParse.digitsValue digits) else none) = some n) :
    digits ≠ [] ∧ digits.all Char.isDigit = true ∧ PredicateParse.digitsValue digits = n := by
  split at h
  · cases h
  · rename_i hplain
    rw [Bool.or_eq_true, not_or, Bool.not_eq_true, Bool.not_eq_true, Bool.not_eq_false'] at hplain
    split at h
    · exact ⟨List.isEmpty_eq_false_iff.mp hplain.1, hplain.2, Option.some_inj.mp h⟩
    · cases h

/-- What Rust reads as an index, and is not too large for a double, is that index to JavaScript. -/
theorem index_of_parseUsize {segment : List Char} {n : Nat} (h : parseUsize segment = some n) (hn : n < 2 ^ 53) :
    index segment = some n := by
  have hdecimal (digits : List Char) (hdigits : digits ≠ []) (hall : digits.all Char.isDigit = true)
      (hvalue : PredicateParse.digitsValue digits = n) :
      decimalLiteral false digits = some (F64.ofDecimal false n 0) := by
    rw [decimalLiteral_digits hall hdigits, hvalue]
  have hspaces (digits : List Char) (hall : digits.all Char.isDigit = true) (c : Char) (hc : c ∈ digits) :
      Guard.isSpace c = false := isSpace_digit (List.all_eq_true.mp hall c hc)
  refine index_of_toNumber hn ?_
  cases segment with
  | nil => cases h
  | cons c rest =>
    by_cases hplus : c = '+'
    · subst hplus
      obtain ⟨hdigits, hall, hvalue⟩ := parseUsize_digits rest h
      have htrim : trim ('+' :: rest) = '+' :: rest :=
        trim_eq (List.forall_mem_cons.mpr ⟨by decide, hspaces rest hall⟩)
      rw [toNumber, htrim]
      exact hdecimal rest hdigits hall hvalue
    · rw [parseUsize, List.head?_cons, if_neg (fun hc => hplus (Option.some_inj.mp hc))] at h
      obtain ⟨hdigits, hall, hvalue⟩ := parseUsize_digits (c :: rest) h
      have hnumber : toNumber (c :: rest) = decimalLiteral false (c :: rest) := by
        rw [toNumber, trim_eq (hspaces (c :: rest) hall)]
        split
        · rename_i hnil
          cases hnil
        · rename_i hcons
          exact absurd (List.cons.inj hcons).1 hplus
        · rename_i hcons
          rw [hcons] at hall
          cases hall
        · rename_i marker digits hcons
          have hmarker : marker.isDigit = true := by
            rw [hcons] at hall
            exact List.all_eq_true.mp hall marker (List.mem_cons_of_mem _ List.mem_cons_self)
          rw [radix_digit hmarker, hcons]
        · rfl
      rw [hnumber]
      exact hdecimal (c :: rest) hdigits hall hvalue

/-! ### Where a path leads to -/

/-- Where a path leads to from some JSON: for both evaluators, or for the port only. -/
inductive Reached where
  | both (v : Value)
  | portOnly (x : JSONValue)
  | neither

def Reached.rust : Reached → Option Value
  | .both v => some v
  | _ => none

def Reached.port : Reached → Option JSONValue
  | .both v => some (.ofValue v)
  | .portOnly x => some x
  | .neither => none

def reachSegments : List (List Char) → Value → Reached
  | [], v => .both v
  | segment :: rest, v =>
    if segment.isEmpty then .neither
    else
      match v.child segment with
      | some w => reachSegments rest w
      -- another spelling of an index, or an inherited property
      | none =>
        match ((JSONValue.ofValue v).child segment).bind (resolveSegments rest) with
        | some x => .portOnly x
        | none => .neither

def reach (root : Value) (path : List Char) : Reached := reachSegments (path.splitOn '.') root

theorem property_ofValue (entries : List (String × Value)) (key : String) :
    JSONValue.property (.ofValue (.object entries)) key =
      (((Value.object entries).get key).map .ofValue).or (inherited key) := by
  rw [JSONValue.ofValue, JSONValue.property, ofEntries_eq, List.find?_map, Value.get, Option.map_map, Option.map_map]
  rfl

theorem child_ofValue {v w : Value} {segment : List Char} (hv : Parsed v) (h : v.child segment = some w) :
    (JSONValue.ofValue v).child segment = some (.ofValue w) ∧ Parsed w := by
  cases v with
  | object entries =>
    refine ⟨?_, ?_⟩
    · have hproperty := property_ofValue entries (String.ofList segment)
      rw [show (Value.object entries).get (String.ofList segment) = some w from h] at hproperty
      exact hproperty
    · obtain ⟨e, he, rfl⟩ := Option.map_eq_some_iff.mp h
      exact parsed_of_mem_entries hv.2 (List.mem_of_find?_eq_some he)
  | array items =>
    obtain ⟨i, hi, hitem⟩ := Option.bind_eq_some_iff.mp h
    have hlength : i < items.length := (List.getElem?_eq_some_iff.mp hitem).1
    have hindex := index_of_parseUsize hi (lt_trans hlength (lt_trans hv.1 (by norm_num)))
    refine ⟨?_, parsed_of_mem_items hv.2 (List.mem_of_getElem? hitem)⟩
    rw [JSONValue.ofValue, JSONValue.child, hindex, Option.bind_some, ofItems_eq, List.getElem?_map, hitem]
    rfl
  | null => cases h
  | bool b => cases h
  | number n => cases h
  | string s => cases h

theorem resolveSegments_reach (segments : List (List Char)) {v : Value} (hv : Parsed v) :
    ActantDb.resolveSegments segments v = (reachSegments segments v).rust ∧
      resolveSegments segments (.ofValue v) = (reachSegments segments v).port ∧
      ∀ w, (reachSegments segments v).rust = some w → Parsed w := by
  induction segments generalizing v with
  | nil =>
    refine ⟨rfl, rfl, fun w hw => ?_⟩
    cases hw
    exact hv
  | cons segment rest ih =>
    rw [ActantDb.resolveSegments, resolveSegments, reachSegments]
    by_cases hempty : segment.isEmpty = true
    · rw [if_pos hempty, if_pos hempty, if_pos hempty]
      exact ⟨rfl, rfl, fun w hw => by cases hw⟩
    · rw [if_neg hempty, if_neg hempty, if_neg hempty]
      cases hchild : v.child segment with
      | some w =>
        obtain ⟨hport, hw⟩ := child_ofValue hv hchild
        rw [hport]
        exact ih hw
      | none =>
        dsimp only
        cases hport : ((JSONValue.ofValue v).child segment).bind (resolveSegments rest) with
        | some x => exact ⟨rfl, rfl, fun w hw => by cases hw⟩
        | none => exact ⟨rfl, rfl, fun w hw => by cases hw⟩

/-- Both evaluators resolve a path to what it reaches. -/
theorem resolve_reach (root : Document) (path : List Char) :
    ActantDb.resolve root.value path = (reach root.value path).rust ∧
      resolve (.ofValue root.value) path = (reach root.value path).port ∧
      ∀ w, (reach root.value path).rust = some w → Parsed w := by
  obtain ⟨hrust, hport, hparsed⟩ := resolveSegments_reach (path.splitOn '.') root.parsed
  refine ⟨hrust, ?_, hparsed⟩
  rw [resolve]
  cases path with
  | nil => rfl
  | cons c rest => exact hport

/-- A segment leads on in the port only where it is an index in a spelling that Rust does not read so, or where the object inherits the property. -/
theorem portOnly_child {v : Value} {segment : List Char} {x : JSONValue} (hrust : v.child segment = none)
    (hport : (JSONValue.ofValue v).child segment = some x) :
    (∃ items i, v = .array items ∧ index segment = some i ∧ i < items.length ∧ parseUsize segment ≠ some i) ∨
      ∃ entries, v = .object entries ∧ inherited (String.ofList segment) = some x := by
  cases v with
  | object entries =>
    refine Or.inr ⟨entries, rfl, ?_⟩
    have hproperty := property_ofValue entries (String.ofList segment)
    rw [show (Value.object entries).get (String.ofList segment) = none from hrust] at hproperty
    exact hproperty.symm.trans hport
  | array items =>
    obtain ⟨i, hi, hitem⟩ := Option.bind_eq_some_iff.mp hport
    rw [ofItems_eq, List.getElem?_map] at hitem
    obtain ⟨w, hw, -⟩ := Option.map_eq_some_iff.mp hitem
    refine Or.inl ⟨items, i, rfl, hi, (List.getElem?_eq_some_iff.mp hw).1, fun hparse => ?_⟩
    rw [Value.child, hparse, Option.bind_some, hw] at hrust
    cases hrust
  | null => cases hport
  | bool b => cases hport
  | number n => cases hport
  | string s => cases hport

/-! ### What is equal to JavaScript -/

def isEmptyObject : Value → Bool
  | .object [] => true
  | _ => false

mutual

/-- The same but for the spelling of numbers, and but for entries `__proto__: {}`, for which another key may stand. -/
def alike : Value → Value → Bool
  | .null, .null => true
  | .bool a, .bool b => a = b
  | .number m, .number n => m.asF64.eq n.asF64
  | .string s, .string t => s = t
  | .array items, .array others => alikeItems items others
  | .object entries, .object others => entries.length == others.length && alikeEntries entries others
  | _, _ => false

def alikeItems : List Value → List Value → Bool
  | [], [] => true
  | v :: rest, other :: others => alike v other && alikeItems rest others
  | _, _ => false

def alikeEntries : List (String × Value) → List (String × Value) → Bool
  | [], _ => true
  | (key, v) :: rest, others =>
    (match (Value.object others).get key with
      | some w => alike v w
      | none => key = "__proto__" && isEmptyObject v) && alikeEntries rest others

end

/-- What an object inherits is equal to nothing but, under `__proto__`, an empty object. -/
theorem deepEq_inherited (v : Value) (key : String) :
    (inherited key).any (JSONValue.deepEq (.ofValue v)) = (decide (key = "__proto__") && isEmptyObject v) := by
  rw [inherited]
  by_cases hproto : key = "__proto__"
  · rw [if_pos hproto, decide_eq_true hproto, Option.any_some, Bool.true_and]
    cases v with
    | object entries => cases entries <;> rfl
    | null => rfl
    | bool b => rfl
    | number n => rfl
    | string s => rfl
    | array items => rfl
  · rw [if_neg hproto, decide_eq_false hproto, Bool.false_and]
    split
    · cases v <;> rfl
    · rfl

mutual

theorem deepEq_ofValue : ∀ v w : Value, JSONValue.deepEq (.ofValue v) (.ofValue w) = alike v w
  | .object entries, w => by
    cases w with
    | object others =>
      have hentries := everyEntry_ofEntries entries others
      rw [JSONValue.ofValue, JSONValue.ofValue] at *
      rw [JSONValue.deepEq, alike, hentries, JSONValue.keyCount, ofEntries_eq, ofEntries_eq, List.length_map, List.length_map]
      simp [JSONValue.strictEq, JSONValue.isRecord]
    | null => rfl
    | bool b => rfl
    | number n => rfl
    | string s => rfl
    | array items => rfl
  | .array items, w => by
    cases w with
    | array others =>
      have hitems := everyItem_ofItems items others
      rw [JSONValue.ofValue, JSONValue.ofValue, JSONValue.deepEq, alike, ← hitems]
      simp [JSONValue.strictEq, ofItems_eq]
    | null => rfl
    | bool b => rfl
    | number n => rfl
    | string s => rfl
    | object entries => rfl
  | .null, w => by cases w <;> rfl
  | .bool b, w => by cases w <;> simp [JSONValue.ofValue, JSONValue.deepEq, JSONValue.strictEq, alike]
  | .number n, w => by cases w <;> simp [JSONValue.ofValue, JSONValue.deepEq, JSONValue.strictEq, alike]
  | .string s, w => by cases w <;> simp [JSONValue.ofValue, JSONValue.deepEq, JSONValue.strictEq, alike]

theorem everyItem_ofItems : ∀ items others : List Value,
    (items.length == others.length && JSONValue.everyItem (JSONValue.ofItems items) (JSONValue.ofItems others)) =
      alikeItems items others
  | [], [] => rfl
  | [], _ :: _ => rfl
  | _ :: _, [] => rfl
  | v :: rest, other :: others => by
    have hrest := everyItem_ofItems rest others
    have hlength : ((v :: rest).length == (other :: others).length) = (rest.length == others.length) := by simp
    rw [hlength, JSONValue.ofItems, JSONValue.ofItems, JSONValue.everyItem, deepEq_ofValue v other, alikeItems, ← hrest,
      Bool.and_left_comm]

theorem everyEntry_ofEntries : ∀ entries others : List (String × Value),
    JSONValue.everyEntry (JSONValue.ofEntries entries) (.ofValue (.object others)) = alikeEntries entries others
  | [], _ => rfl
  | (key, v) :: rest, others => by
    rw [JSONValue.ofEntries, JSONValue.everyEntry, property_ofValue, everyEntry_ofEntries rest others, alikeEntries]
    cases hkey : (Value.object others).get key with
    | some w => rw [Option.map_some, Option.some_or, Option.any_some, deepEq_ofValue v w]
    | none => rw [Option.map_none, Option.none_or, deepEq_inherited]

end

/-- In an object whose keys are in order every entry is found under its key. -/
theorem get_of_mem {entries : List (String × Value)} (h : entries.Pairwise fun a b => a.1 < b.1) {e : String × Value}
    (he : e ∈ entries) : (Value.object entries).get e.1 = some e.2 := by
  induction entries with
  | nil => cases he
  | cons a rest ih =>
    rw [Value.get, List.find?_cons]
    rcases List.mem_cons.mp he with rfl | hrest
    · rw [decide_eq_true rfl]
      rfl
    · have hne : a.1 ≠ e.1 := (List.rel_of_pairwise_cons h hrest).ne
      rw [decide_eq_false hne]
      exact ih (List.pairwise_cons.mp h).2 hrest

theorem keys_of_eqEntries {entries others : List (String × Value)} (h : Value.eqEntries entries others = true) :
    others.map Prod.fst = entries.map Prod.fst := by
  induction entries generalizing others with
  | nil =>
    cases others with
    | nil => rfl
    | cons o others => cases h
  | cons e rest ih =>
    cases others with
    | nil => cases h
    | cons o others =>
      rw [Value.eqEntries, Bool.and_eq_true, Bool.and_eq_true, decide_eq_true_eq] at h
      rw [List.map_cons, List.map_cons, ih h.2, h.1.1]

mutual

/-- What is equal to Rust is alike. -/
theorem alike_of_eq : ∀ v w : Value, Parsed v → v.eq w = true → alike v w = true
  | .object entries, w, hv, h => by
    cases w with
    | object others =>
      have heq : Value.eqEntries entries others = true := h
      have hkeys := keys_of_eqEntries heq
      have hsorted : others.Pairwise fun a b => a.1 < b.1 := by
        rw [← List.pairwise_map (f := Prod.fst) (R := (· < ·)), hkeys, List.pairwise_map]
        exact hv.1
      have hlength : entries.length = others.length := by
        rw [← List.length_map (f := Prod.fst), ← hkeys, List.length_map]
      rw [alike, hlength, beq_self_eq_true, Bool.true_and]
      exact alikeEntries_of_eq entries others others hv.2 heq fun e he => get_of_mem hsorted he
    | _ => cases h
  | .array items, w, hv, h => by
    cases w with
    | array others => exact alikeItems_of_eq items others hv.2 h
    | _ => cases h
  | .number m, w, hv, h => by
    cases w with
    | number n => exact asF64_eq_of_eq hv h
    | _ => cases h
  | .null, w, _, h => by cases w <;> first | rfl | cases h
  | .bool a, w, _, h => by
    cases w with
    | bool b => exact h
    | _ => cases h
  | .string s, w, _, h => by
    cases w with
    | string t => exact h
    | _ => cases h

theorem alikeItems_of_eq : ∀ items others : List Value, ParsedItems items → Value.eqItems items others = true →
    alikeItems items others = true
  | [], [], _, _ => rfl
  | [], _ :: _, _, h => by cases h
  | _ :: _, [], _, h => by cases h
  | v :: rest, other :: others, hv, h => by
    rw [Value.eqItems, Bool.and_eq_true] at h
    rw [alikeItems, alike_of_eq v other hv.1 h.1, alikeItems_of_eq rest others hv.2 h.2, Bool.and_self]

theorem alikeEntries_of_eq : ∀ entries others all : List (String × Value), ParsedEntries entries →
    Value.eqEntries entries others = true → (∀ e ∈ others, (Value.object all).get e.1 = some e.2) →
    alikeEntries entries all = true
  | [], _, _, _, _, _ => rfl
  | _ :: _, [], _, _, h, _ => by cases h
  | (key, v) :: rest, (key', w) :: others, all, hv, h, hall => by
    rw [Value.eqEntries, Bool.and_eq_true, Bool.and_eq_true, decide_eq_true_eq] at h
    have hget : (Value.object all).get key = some w := h.1.1 ▸ hall (key', w) List.mem_cons_self
    rw [alikeEntries, hget, alikeEntries_of_eq rest others all hv.2 h.2 fun e he => hall e (List.mem_cons_of_mem _ he), Bool.and_true]
    exact alike_of_eq v w hv.1 h.1.2

end

/-! ### What comes first to JavaScript -/

/-- Two strings are in the same order by code units as by characters. -/
def SameStrings : Value → Value → Prop
  | .string s, .string t => compareStrings s t = compare s t
  | _, _ => True

theorem compareStrings_eq_iff (s t : String) : compareStrings s t = .eq ↔ s = t := by
  rw [compareStrings]
  constructor
  · intro h
    split at h
    · cases h
    · rename_i hts
      split at h
      · cases h
      · rename_i hst
        rw [Bool.not_eq_true, Bool.not_eq_false'] at hts hst
        exact utf16Le_antisymm hst hts
  · rintro rfl
    have hrefl : utf16Le s s = true := decide_eq_true (le_refl _)
    rw [hrefl]
    rfl

theorem compare_strings_eq_iff (s t : String) : compare s t = .eq ↔ s = t := compare_eq_iff_eq

theorem difference_valid {x y : Number} (hx : x.valid = true) :
    difference x.asF64 y.asF64 = x.asF64.partialCmp y.asF64 := by
  rw [difference, F64.partialCmp, asF64_finite hx, Bool.not_true, Bool.false_and, Bool.or_false]

theorem order_ofValue {v w : Value} (hv : Parsed v) (hstrings : SameStrings v w) :
    (JSONValue.ofValue v).order (.ofValue w) = ActantDb.order v w := by
  cases v with
  | number m =>
    cases w with
    | number n => exact difference_valid hv
    | _ => rfl
  | string s =>
    cases w with
    | string t => exact congrArg some hstrings
    | _ => rfl
  | _ => cases w <;> rfl

/-! ### Comparisons -/

/-- A predicate without `and`, `or` and `not`. -/
inductive Comparison where
  | eq (field : List Char) (value : Value)
  | ne (field : List Char) (value : Value)
  | lt (field : List Char) (value : Value)
  | le (field : List Char) (value : Value)
  | gt (field : List Char) (value : Value)
  | ge (field : List Char) (value : Value)
  | exists (field : List Char)

def Comparison.toPredicate : Comparison → Predicate
  | .eq field value => .eq field value
  | .ne field value => .ne field value
  | .lt field value => .lt field value
  | .le field value => .le field value
  | .gt field value => .gt field value
  | .ge field value => .ge field value
  | .exists field => .exists field

/-- What both reach is alike to the literal only if it is equal, and what the port alone reaches is not equal, as nothing is not. -/
def SameEquality (value : Value) : Reached → Prop
  | .both v => alike v value = true → v.eq value = true
  | .portOnly x => x.deepEq (.ofValue value) = false
  | .neither => True

/-- What both reach is in the same order, and what the port alone reaches is not in the order that is asked for. -/
def SameOrder (value : Value) (ok : Ordering → Bool) : Reached → Prop
  | .both v => SameStrings v value
  | .portOnly x => (x.order (.ofValue value)).any ok = false
  | .neither => True

/-- Nothing is reached by the port alone. -/
def SameExistence : Reached → Prop
  | .both _ => True
  | .portOnly _ => False
  | .neither => True

/-- The condition on a comparison and a payload. -/
def Comparison.SameOn (root : Document) : Comparison → Prop
  | .eq field value => SameEquality value (reach root.value field)
  | .ne field value => SameEquality value (reach root.value field)
  | .lt field value => SameOrder value (· == .lt) (reach root.value field)
  | .le field value => SameOrder value (· != .gt) (reach root.value field)
  | .gt field value => SameOrder value (· == .gt) (reach root.value field)
  | .ge field value => SameOrder value (· != .lt) (reach root.value field)
  | .exists field => SameExistence (reach root.value field)

section Comparisons

variable {r : Reached} (hr : ∀ w, r.rust = some w → Parsed w) (value : Value)

include hr

theorem equality_iff : (r.port.any fun v => v.deepEq (.ofValue value)) = (r.rust.any (·.eq value)) ↔ SameEquality value r := by
  cases r with
  | both v =>
    rw [Reached.port, Reached.rust, Option.any_some, Option.any_some, deepEq_ofValue, SameEquality, Bool.eq_iff_iff]
    exact ⟨fun h => h.mp, fun h => ⟨h, alike_of_eq v value (hr v rfl)⟩⟩
  | portOnly x => exact Iff.rfl
  | neither => exact iff_of_true rfl trivial

theorem order_iff (ok : Ordering → Bool) (hok : ∀ a b : Ordering, (a = .eq ↔ b = .eq) → ok a = ok b → a = b) :
    (r.port.any fun got => (got.order (.ofValue value)).any ok) = ActantDb.cmp r.rust value ok ↔ SameOrder value ok r := by
  cases r with
  | both v =>
    rw [Reached.port, Reached.rust, Option.any_some, SameOrder, ActantDb.cmp]
    constructor
    · intro h
      cases v with
      | string s =>
        cases value with
        | string t =>
          refine hok _ _ ?_ h
          rw [compareStrings_eq_iff, compare_strings_eq_iff]
        | _ => trivial
      | _ => trivial
    · intro hstrings
      rw [order_ofValue (hr v rfl) hstrings]
  | portOnly x => exact Iff.rfl
  | neither => exact iff_of_true rfl trivial

end Comparisons

section Root

variable (root : Document) (field : List Char) (value : Value)

theorem resolve_equality_iff :
    ((resolve (.ofValue root.value) field).any fun v => v.deepEq (.ofValue value)) =
        ((ActantDb.resolve root.value field).any (·.eq value)) ↔
      SameEquality value (reach root.value field) := by
  obtain ⟨hrust, hport, hparsed⟩ := resolve_reach root field
  rw [hrust, hport]
  exact equality_iff hparsed value

theorem cmp_iff (ok : Ordering → Bool) (hok : ∀ a b : Ordering, (a = .eq ↔ b = .eq) → ok a = ok b → a = b) :
    cmp (.ofValue root.value) field (.ofValue value) ok = ActantDb.cmp (ActantDb.resolve root.value field) value ok ↔
      SameOrder value ok (reach root.value field) := by
  obtain ⟨hrust, hport, hparsed⟩ := resolve_reach root field
  rw [cmp, hrust, hport]
  exact order_iff hparsed value ok hok

theorem resolve_existence_iff :
    (resolve (.ofValue root.value) field).isSome = (ActantDb.resolve root.value field).isSome ↔
      SameExistence (reach root.value field) := by
  obtain ⟨hrust, hport, -⟩ := resolve_reach root field
  rw [hrust, hport]
  cases reach root.value field with
  | both v => exact iff_of_true rfl trivial
  | portOnly x => exact iff_of_false (fun h => by cases h) id
  | neither => exact iff_of_true rfl trivial

end Root

/-- `ne` is the negation of `eq`, on both sides. -/
theorem all_not {α : Type} (f : α → Bool) (o : Option α) : (o.all fun v => !f v) = !o.any f := by
  cases o <;> rfl

/-- On one comparison the evaluators agree exactly where the condition on it holds. -/
theorem comparison_iff (root : Document) (c : Comparison) :
    evaluatePredicate (.ofValue root.value) c.toPredicate = c.toPredicate.evaluate root.value ↔ c.SameOn root := by
  cases c with
  | eq field value => exact resolve_equality_iff root field value
  | ne field value =>
    rw [Comparison.toPredicate, evaluatePredicate, Predicate.evaluate, all_not, all_not, Bool.not_inj_iff]
    exact resolve_equality_iff root field value
  | lt field value => exact cmp_iff root field value _ (by decide)
  | le field value => exact cmp_iff root field value _ (by decide)
  | gt field value => exact cmp_iff root field value _ (by decide)
  | ge field value => exact cmp_iff root field value _ (by decide)
  | «exists» field => exact resolve_existence_iff root field

/-! ### Predicates -/

/-- The predicates that are built from some comparisons. -/
inductive Built (cs : List Comparison) : Predicate → Prop where
  | comparison {c : Comparison} (h : c ∈ cs) : Built cs c.toPredicate
  | true : Built cs .true
  | false : Built cs .false
  | and {ps : List Predicate} (h : ∀ p ∈ ps, Built cs p) : Built cs (.and ps)
  | or {ps : List Predicate} (h : ∀ p ∈ ps, Built cs p) : Built cs (.or ps)
  | not {p : Predicate} (h : Built cs p) : Built cs (.not p)

mutual

/-- The comparisons of a predicate. -/
def comparisons : Predicate → List Comparison
  | .true => []
  | .false => []
  | .eq field value => [.eq field value]
  | .ne field value => [.ne field value]
  | .lt field value => [.lt field value]
  | .le field value => [.le field value]
  | .gt field value => [.gt field value]
  | .ge field value => [.ge field value]
  | .exists field => [.exists field]
  | .and ps => comparisonsAll ps
  | .or ps => comparisonsAll ps
  | .not p => comparisons p

def comparisonsAll : List Predicate → List Comparison
  | [] => []
  | p :: ps => comparisons p ++ comparisonsAll ps

end

theorem Built.mono {cs cs' : List Comparison} (hsub : cs ⊆ cs') {p : Predicate} (h : Built cs p) : Built cs' p := by
  induction h with
  | comparison hc => exact .comparison (hsub hc)
  | true => exact .true
  | false => exact .false
  | and _ ih => exact .and ih
  | or _ ih => exact .or ih
  | not _ ih => exact .not ih

mutual

/-- Every predicate is built from its comparisons. -/
theorem built_comparisons : ∀ p : Predicate, Built (comparisons p) p
  | .true => .true
  | .false => .false
  | .eq field value => @Built.comparison _ (.eq field value) List.mem_cons_self
  | .ne field value => @Built.comparison _ (.ne field value) List.mem_cons_self
  | .lt field value => @Built.comparison _ (.lt field value) List.mem_cons_self
  | .le field value => @Built.comparison _ (.le field value) List.mem_cons_self
  | .gt field value => @Built.comparison _ (.gt field value) List.mem_cons_self
  | .ge field value => @Built.comparison _ (.ge field value) List.mem_cons_self
  | .exists field => @Built.comparison _ (.exists field) List.mem_cons_self
  | .and ps => .and (built_comparisonsAll ps)
  | .or ps => .or (built_comparisonsAll ps)
  | .not p => .not (built_comparisons p)

theorem built_comparisonsAll : ∀ ps : List Predicate, ∀ p ∈ ps, Built (comparisonsAll ps) p
  | [] => List.forall_mem_nil _
  | q :: ps => by
    intro p hp
    rcases List.mem_cons.mp hp with hfirst | hrest
    · rw [hfirst]
      exact (built_comparisons q).mono (List.subset_append_left _ _)
    · exact (built_comparisonsAll ps p hrest).mono (List.subset_append_right _ _)

end

theorem evaluateEvery_eq {root : JSONValue} {v : Value} {ps : List Predicate}
    (h : ∀ p ∈ ps, evaluatePredicate root p = p.evaluate v) : evaluateEvery root ps = Predicate.evaluateAll v ps := by
  induction ps with
  | nil => rfl
  | cons p ps ih =>
    rw [evaluateEvery, Predicate.evaluateAll, h p List.mem_cons_self, ih fun q hq => h q (List.mem_cons_of_mem _ hq)]

theorem evaluateSome_eq {root : JSONValue} {v : Value} {ps : List Predicate}
    (h : ∀ p ∈ ps, evaluatePredicate root p = p.evaluate v) : evaluateSome root ps = Predicate.evaluateAny v ps := by
  induction ps with
  | nil => rfl
  | cons p ps ih =>
    rw [evaluateSome, Predicate.evaluateAny, h p List.mem_cons_self, ih fun q hq => h q (List.mem_cons_of_mem _ hq)]

/-- On a payload the evaluators agree about every predicate that is built from some comparisons exactly where the condition holds for each of these. -/
theorem predicates_agree_iff (root : Document) (cs : List Comparison) :
    (∀ p, Built cs p → evaluatePredicate (.ofValue root.value) p = p.evaluate root.value) ↔ ∀ c ∈ cs, c.SameOn root := by
  constructor
  · exact fun h c hc => (comparison_iff root c).mp (h c.toPredicate (.comparison hc))
  · intro h p hp
    induction hp with
    | comparison hc => exact (comparison_iff root _).mpr (h _ hc)
    | true => rfl
    | false => rfl
    | and _ ih => exact evaluateEvery_eq ih
    | or _ ih => exact evaluateSome_eq ih
    | not _ ih => exact congrArg Bool.not ih

/-- Every object has a `constructor` to the port, and an empty one has no entry to Rust. -/
theorem constructor_exists :
    evaluatePredicate (.ofValue (.object [])) (.exists "constructor".toList) ≠
      (Predicate.exists "constructor".toList).evaluate (.object []) := by
  decide

end Mcp

end ActantDb
