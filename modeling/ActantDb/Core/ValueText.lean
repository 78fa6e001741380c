import ActantDb.Core.Hash
import ActantDb.Core.JsonTree

/-!
# The text of a value

`serde_json` prints a value without whitespace. Where no two finite floats are printed alike, and a float not like an integer, the text determines the value, entries in the order in which they are printed.
-/

namespace ActantDb

/-! ### Values that occur -/

/-- Neither infinite nor a NaN, which `serde_json` does not make numbers of. -/
def F64.Finite (x : F64) : Prop := x.bits &&& 0x7ff0000000000000 ≠ 0x7ff0000000000000

instance (x : F64) : Decidable x.Finite := inferInstanceAs (Decidable (_ ≠ _))

/-- A number is a `NegInt` only if it is negative. -/
def Number.WellFormed : Number → Prop
  | .posInt _ => True
  | .negInt n => n.toInt < 0
  | .float x => x.Finite

namespace Value

/-- A value whose numbers are well formed, and no object of which has a key twice. -/
inductive WellFormed : Value → Prop
  | null : WellFormed .null
  | bool (b : Bool) : WellFormed (.bool b)
  | number {n : Number} (h : n.WellFormed) : WellFormed (.number n)
  | string (s : String) : WellFormed (.string s)
  | array {items : List Value} (h : ∀ v ∈ items, WellFormed v) : WellFormed (.array items)
  | object {entries : List (String × Value)} (hkeys : (entries.map Prod.fst).Nodup)
      (h : ∀ e ∈ entries, WellFormed e.2) : WellFormed (.object entries)

theorem wellFormed_array {items : List Value} : WellFormed (.array items) ↔ ∀ v ∈ items, WellFormed v :=
  ⟨fun h => by cases h; assumption, .array⟩

theorem wellFormed_object {entries : List (String × Value)} :
    WellFormed (.object entries) ↔ (entries.map Prod.fst).Nodup ∧ ∀ e ∈ entries, WellFormed e.2 :=
  ⟨fun h => by cases h; exact ⟨by assumption, by assumption⟩, fun h => .object h.1 h.2⟩

end Value

/-! ### Numbers -/

/-- A character of the text of a number. -/
def tokenChar (c : Char) : Bool := c.isDigit || c == '-' || c == '.' || c == 'e' || c == '+'

/-- What `serde_json` promises of how it prints a finite float: not like another one, as a number, and not as an integer. -/
structure PrintsFloats (formatF64 : F64 → String) : Prop where
  injective : ∀ x y, x.Finite → y.Finite → formatF64 x = formatF64 y → x = y
  token : ∀ x, x.Finite → ∀ c ∈ (formatF64 x).toList, tokenChar c = true
  begins : ∀ x, x.Finite → ∃ c rest, (formatF64 x).toList = c :: rest ∧ (c = '-' ∨ c.isDigit = true)
  marked : ∀ x, x.Finite → ∃ c ∈ (formatF64 x).toList, c = '.' ∨ c = 'e'

/-- A text that does not go on with a character of a number. -/
def NumberEnds (r : List Char) : Prop := ∀ c ∈ r.head?, tokenChar c = false

theorem numberEnds_cons {c : Char} (h : tokenChar c = false) (r : List Char) : NumberEnds (c :: r) := by
  intro d hd
  cases hd
  exact h

theorem tokenChar_of_isDigit {c : Char} (h : c.isDigit = true) : tokenChar c = true := by
  simp [tokenChar, h]

namespace Value

variable {formatF64 : F64 → String}

theorem print_posInt (n : UInt64) : print formatF64 (.number (.posInt n)) = Nat.toDigits 10 n.toNat := by
  rw [print, Nat.toList_repr]

theorem print_negInt (n : Int64) :
    print formatF64 (.number (.negInt n)) = '-' :: Nat.toDigits 10 n.toInt.natAbs := by
  rw [print, Nat.toList_repr]

theorem print_float (x : F64) : print formatF64 (.number (.float x)) = (formatF64 x).toList := by
  rw [print]

/-- A finite float is not printed as digits after a sign. -/
theorem toList_formatF64_ne (hX : PrintsFloats formatF64) {x : F64} (hx : x.Finite) {n : Nat} :
    (formatF64 x).toList ≠ Nat.toDigits 10 n ∧ (formatF64 x).toList ≠ '-' :: Nat.toDigits 10 n := by
  obtain ⟨c, hc, hmark⟩ := hX.marked x hx
  have hdigit : c.isDigit = false ∧ c ≠ '-' := by rcases hmark with rfl | rfl <;> decide
  have hnot : c ∉ Nat.toDigits 10 n := by
    intro hin
    rw [isDigit_toDigits n c hin] at hdigit
    cases hdigit.1
  refine ⟨fun h => hnot (h ▸ hc), fun h => ?_⟩
  rw [h] at hc
  exact (List.mem_cons.mp hc).elim hdigit.2 hnot

theorem print_number_inj (hX : PrintsFloats formatF64) {n m : Number} (hn : n.WellFormed) (hm : m.WellFormed)
    (h : print formatF64 (.number n) = print formatF64 (.number m)) : n = m := by
  cases n with
  | posInt n =>
    cases m with
    | posInt m =>
      rw [print_posInt, print_posInt] at h
      have hnat : n.toNat = m.toNat := (toDigits_append_inj (r := []) (s := []) (by simp [Stops]) (by simp [Stops])
        (by rw [h])).1
      rw [UInt64.toNat_inj.mp hnat]
    | negInt m =>
      rw [print_posInt, print_negInt] at h
      exact absurd (by simpa using h.symm) (minus_ne_toDigits (s := []))
    | float y =>
      rw [print_posInt, print_float] at h
      exact absurd h.symm (toList_formatF64_ne hX hm).1
  | negInt n =>
    cases m with
    | posInt m =>
      rw [print_posInt, print_negInt] at h
      exact absurd (by simpa using h) (minus_ne_toDigits (s := []))
    | negInt m =>
      rw [print_negInt, print_negInt, List.cons.injEq] at h
      have hnat : n.toInt.natAbs = m.toInt.natAbs :=
        (toDigits_append_inj (r := []) (s := []) (by simp [Stops]) (by simp [Stops]) (by rw [h.2])).1
      have hint : n.toInt = m.toInt := by
        have hn' : n.toInt < 0 := hn
        have hm' : m.toInt < 0 := hm
        omega
      rw [Int64.toInt_inj.mp hint]
    | float y =>
      rw [print_negInt, print_float] at h
      exact absurd h.symm (toList_formatF64_ne hX hm).2
  | float x =>
    cases m with
    | posInt m =>
      rw [print_posInt, print_float] at h
      exact absurd h (toList_formatF64_ne hX hn).1
    | negInt m =>
      rw [print_negInt, print_float] at h
      exact absurd h (toList_formatF64_ne hX hn).2
    | float y =>
      rw [print_float, print_float] at h
      rw [hX.injective x y hn hm (String.toList_inj.mp h)]

/-- The text of a number begins with a sign or a digit and goes on so. -/
theorem print_number_token (hX : PrintsFloats formatF64) {n : Number} (hn : n.WellFormed) :
    (∀ c ∈ print formatF64 (.number n), tokenChar c = true) ∧
      ∃ c rest, print formatF64 (.number n) = c :: rest ∧ (c = '-' ∨ c.isDigit = true) := by
  cases n with
  | posInt n =>
    rw [print_posInt]
    obtain ⟨c, rest, hdigits, hdigit⟩ := toDigits_cons n.toNat
    exact ⟨fun c hc => tokenChar_of_isDigit (isDigit_toDigits _ c hc), c, rest, hdigits, Or.inr hdigit⟩
  | negInt n =>
    rw [print_negInt]
    refine ⟨fun c hc => ?_, _, _, rfl, Or.inl rfl⟩
    rcases List.mem_cons.mp hc with rfl | hc
    · decide
    · exact tokenChar_of_isDigit (isDigit_toDigits _ c hc)
  | float x =>
    rw [print_float]
    exact ⟨hX.token x hn, hX.begins x hn⟩

/-! ### Values -/

/-- The text of one entry of an object. -/
def printEntry (formatF64 : F64 → String) (e : String × Value) : List Char :=
  quote e.1 ++ ':' :: print formatF64 e.2

theorem printItems_eq (items : List Value) :
    printItems formatF64 items ++ [']'] = sepBy ']' (items.map (print formatF64)) := by
  induction items with
  | nil => rfl
  | cons v rest ih =>
    cases rest with
    | nil => rfl
    | cons w rest =>
      rw [printItems, List.append_assoc, List.cons_append, ih]
      rfl

theorem printEntries_eq (entries : List (String × Value)) :
    printEntries formatF64 entries ++ ['\x7d'] = sepBy '\x7d' (entries.map (printEntry formatF64)) := by
  induction entries with
  | nil => rfl
  | cons e rest ih =>
    cases rest with
    | nil => rfl
    | cons e' rest =>
      rw [printEntries, List.append_assoc, List.cons_append, ih, List.map_cons, List.map_cons, List.map_cons, sepBy,
        printEntry]
      rfl

theorem print_array (items : List Value) :
    print formatF64 (.array items) = '[' :: sepBy ']' (items.map (print formatF64)) := by
  rw [print, List.cons_append, printItems_eq]

theorem print_object (entries : List (String × Value)) :
    print formatF64 (.object entries) = '\x7b' :: sepBy '\x7d' (entries.map (printEntry formatF64)) := by
  rw [print, List.cons_append, printEntries_eq]

/-- Which of the six kinds of value it is. -/
def kind : Value → Nat
  | .null => 0
  | .bool _ => 1
  | .number _ => 2
  | .string _ => 3
  | .array _ => 4
  | .object _ => 5

theorem kindOf_print (hX : PrintsFloats formatF64) {v : Value} (hv : v.WellFormed) (r : List Char) :
    Json.kindOf (print formatF64 v ++ r) = v.kind := by
  cases hv with
  | null => rfl
  | bool b => cases b <;> rfl
  | number hn =>
    obtain ⟨-, c, rest, hprint, hbegins⟩ := print_number_token hX hn
    rw [hprint]
    have hne : ∀ d : Char, d.isDigit = false → d ≠ '-' → c ≠ d := by
      rintro d hd hminus rfl
      rcases hbegins with rfl | hdigit
      · exact hminus rfl
      · rw [hd] at hdigit
        cases hdigit
    simp [Json.kindOf, kind, hbegins, hne 'n' (by decide) (by decide), hne 't' (by decide) (by decide),
      hne 'f' (by decide) (by decide)]
  | string s => rfl
  | array h => rw [print_array]; rfl
  | object hkeys h => rw [print_object]; rfl

theorem head?_print_ne (hX : PrintsFloats formatF64) {v : Value} (hv : v.WellFormed) {c : Char}
    (hc : Json.kindOf [c] = 6) (r : List Char) : (print formatF64 v ++ r).head? ≠ some c := by
  intro h
  have hkind := kindOf_print hX hv r
  have hsame : Json.kindOf (print formatF64 v ++ r) = Json.kindOf [c] := by
    rw [Json.kindOf, h, Json.kindOf, List.head?_cons]
  rw [hsame, hc] at hkind
  cases v <;> cases hkind

theorem numberEnds_sepTail {close : Char} (hclose : tokenChar close = false) (parts : List (List Char)) (r : List Char) :
    NumberEnds (sepTail close parts ++ r) := by
  cases parts with
  | nil => exact numberEnds_cons hclose _
  | cons part rest => exact numberEnds_cons (by decide) _

/-- **The text is unambiguous**: whatever follows it, unless it goes on as a number, the value can be read back. -/
theorem print_append_inj (hX : PrintsFloats formatF64) {v w : Value} (hv : v.WellFormed) (hw : w.WellFormed)
    {r s : List Char} (hr : NumberEnds r) (hs : NumberEnds s) (h : print formatF64 v ++ r = print formatF64 w ++ s) :
    v = w ∧ r = s := by
  have hkind : v.kind = w.kind := by rw [← kindOf_print hX hv r, h, kindOf_print hX hw]
  induction hv generalizing w r s with
  | null =>
    cases w with
    | null => exact ⟨rfl, List.append_cancel_left h⟩
    | _ => cases hkind
  | bool b =>
    cases w with
    | bool b' =>
      cases b <;> cases b' <;> simp [print] at h ⊢ <;> exact h
    | _ => cases hkind
  | number hn =>
    cases w with
    | number m =>
      cases hw with
      | number hm =>
        obtain ⟨htext, hrs⟩ :=
          token_append_inj (print_number_token hX hn).1 (print_number_token hX hm).1 hr hs h
        exact ⟨by rw [print_number_inj hX hn hm htext], hrs⟩
    | _ => cases hkind
  | string a =>
    cases w with
    | string b =>
      obtain ⟨hab, hrs⟩ := quote_append_inj h
      exact ⟨by rw [hab], hrs⟩
    | _ => cases hkind
  | @array items hitems ih =>
    cases w with
    | array items' =>
      have hitems' := wellFormed_array.mp hw
      rw [print_array, print_array, List.cons_append, List.cons_append, List.cons.injEq] at h
      obtain ⟨heq, hrs⟩ := sepBy_inj_of (fun parts r => numberEnds_sepTail (by decide) parts r) (by decide)
        (fun x hx => head?_print_ne hX (hitems x hx) (by decide))
        (fun y hy => head?_print_ne hX (hitems' y hy) (by decide))
        (fun x hx y hy r s hr hs hxy => ih x hx (hitems' y hy) hr hs hxy (by
          rw [← kindOf_print hX (hitems x hx) r, hxy, kindOf_print hX (hitems' y hy)])) h.2
      exact ⟨by rw [heq], hrs⟩
    | _ => cases hkind
  | @object entries hkeys hentries ih =>
    cases w with
    | object entries' =>
      have hentries' := (wellFormed_object.mp hw).2
      rw [print_object, print_object, List.cons_append, List.cons_append, List.cons.injEq] at h
      have hentry : ∀ e ∈ entries, ∀ e' ∈ entries', ∀ r s, NumberEnds r → NumberEnds s →
          printEntry formatF64 e ++ r = printEntry formatF64 e' ++ s → e = e' ∧ r = s := by
        intro e he e' he' r s hr hs hee
        simp only [printEntry, List.append_assoc, List.cons_append] at hee
        obtain ⟨hkey, hrest⟩ := quote_append_inj hee
        have hvalues := (List.cons.inj hrest).2
        obtain ⟨hvalue, hrs⟩ := ih e he (hentries' e' he') hr hs hvalues (by
          rw [← kindOf_print hX (hentries e he) r, hvalues, kindOf_print hX (hentries' e' he')])
        exact ⟨Prod.ext hkey hvalue, hrs⟩
      have hhead : ∀ e r, (printEntry formatF64 e ++ r).head? ≠ some '\x7d' := by
        intro e r
        simp [printEntry, quote]
      obtain ⟨heq, hrs⟩ := sepBy_inj_of (fun parts r => numberEnds_sepTail (by decide) parts r) (by decide)
        (fun e _ => hhead e) (fun e _ => hhead e) hentry h.2
      exact ⟨by rw [heq], hrs⟩
    | _ => cases hkind

theorem print_inj (hX : PrintsFloats formatF64) {v w : Value} (hv : v.WellFormed) (hw : w.WellFormed) :
    print formatF64 v = print formatF64 w ↔ v = w := by
  constructor
  · intro h
    have hnil : NumberEnds [] := fun c hc => by cases hc
    exact (print_append_inj hX hv hw hnil hnil (by rw [h])).1
  · intro h
    rw [h]

end Value

end ActantDb
