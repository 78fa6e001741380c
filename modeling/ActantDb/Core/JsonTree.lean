import ActantDb.Core.Json

/-!
# JSON trees and their text

The JSON values that every language has: null, booleans, strings, arrays, objects, and the integers a double holds exactly. An object keeps its entries in some order, and its text is printed in that order. The text determines the tree: two trees print the same text only if they are the same, entries in the same order.
-/

namespace ActantDb

/-- An integer in the safe range. -/
abbrev SafeInt := { n : Int // n.natAbs < 2 ^ 53 }

inductive Json where
  | null
  | bool (b : Bool)
  | int (n : SafeInt)
  | string (s : String)
  | array (items : List Json)
  | object (entries : List (String × Json))

/-- The digits of an integer, after its sign. -/
def decimal (n : Int) : List Char :=
  if n < 0 then '-' :: Nat.toDigits 10 n.natAbs else Nat.toDigits 10 n.natAbs

/-- What follows a first part: further parts, each after a comma, and the bracket that closes them. -/
def sepTail (close : Char) : List (List Char) → List Char
  | [] => [close]
  | part :: rest => ',' :: (part ++ sepTail close rest)

/-- Parts with commas between them, and the bracket that closes them. -/
def sepBy (close : Char) : List (List Char) → List Char
  | [] => [close]
  | part :: rest => part ++ sepTail close rest

namespace Json

mutual

/-- The text of a tree, without whitespace. -/
def text : Json → List Char
  | .null => ['n', 'u', 'l', 'l']
  | .bool b => if b then ['t', 'r', 'u', 'e'] else ['f', 'a', 'l', 's', 'e']
  | .int n => decimal n.1
  | .string s => Value.quote s
  | .array items => '[' :: sepBy ']' (textItems items)
  | .object entries => '\x7b' :: sepBy '\x7d' (textEntries entries)

def textItems : List Json → List (List Char)
  | [] => []
  | v :: rest => text v :: textItems rest

def textEntries : List (String × Json) → List (List Char)
  | [] => []
  | (key, v) :: rest => (Value.quote key ++ ':' :: text v) :: textEntries rest

end

/-- The text of one entry of an object. -/
def textEntry (e : String × Json) : List Char := Value.quote e.1 ++ ':' :: text e.2

theorem textItems_eq (items : List Json) : textItems items = items.map text := by
  induction items with
  | nil => rfl
  | cons v rest ih => rw [textItems, ih, List.map_cons]

theorem textEntries_eq (entries : List (String × Json)) :
    textEntries entries = entries.map textEntry := by
  induction entries with
  | nil => rfl
  | cons e rest ih => rw [textEntries, ih, List.map_cons, textEntry]

/-- Induction on a tree, with a hypothesis for each item of an array and each value of an object. -/
@[elab_as_elim]
theorem induction {P : Json → Prop} (null : P .null) (bool : ∀ b, P (.bool b))
    (int : ∀ n, P (.int n)) (string : ∀ s, P (.string s))
    (array : ∀ items, (∀ v ∈ items, P v) → P (.array items))
    (object : ∀ entries, (∀ e ∈ entries, P e.2) → P (.object entries)) (v : Json) : P v :=
  @Json.rec P (fun items => ∀ v ∈ items, P v) (fun entries => ∀ e ∈ entries, P e.2)
    (fun e => P e.2) null bool int string array object
    (fun _ h => absurd h List.not_mem_nil)
    (fun _ _ hv hrest => List.forall_mem_cons.mpr ⟨hv, hrest⟩)
    (fun _ h => absurd h List.not_mem_nil)
    (fun _ _ he hrest => List.forall_mem_cons.mpr ⟨he, hrest⟩)
    (fun _ _ hv => hv) v

end Json

/-! ### Numbers -/

/-- A text that does not go on with a digit. -/
def Stops (r : List Char) : Prop := ∀ c ∈ r.head?, c.isDigit = false

theorem stops_cons {c : Char} (h : c.isDigit = false) (r : List Char) : Stops (c :: r) := by
  intro d hd
  cases hd
  exact h

/-- Two tokens of the same characters that end where no such character follows. -/
theorem token_append_inj {P : Char → Bool} {a b r s : List Char} (ha : ∀ c ∈ a, P c = true)
    (hb : ∀ c ∈ b, P c = true) (hr : ∀ c ∈ r.head?, P c = false) (hs : ∀ c ∈ s.head?, P c = false)
    (h : a ++ r = b ++ s) : a = b ∧ r = s := by
  induction a generalizing b with
  | nil =>
    cases b with
    | nil => exact ⟨rfl, h⟩
    | cons d b =>
      rw [List.nil_append, List.cons_append] at h
      have htoken := hb d List.mem_cons_self
      rw [hr d (by simp [h])] at htoken
      cases htoken
  | cons c a ih =>
    cases b with
    | nil =>
      rw [List.nil_append, List.cons_append] at h
      have htoken := ha c List.mem_cons_self
      rw [hs c (by simp [← h])] at htoken
      cases htoken
    | cons d b =>
      rw [List.cons_append, List.cons_append, List.cons.injEq] at h
      obtain ⟨hab, hrs⟩ := ih (fun c hc => ha c (List.mem_cons_of_mem _ hc))
        (fun c hc => hb c (List.mem_cons_of_mem _ hc)) h.2
      exact ⟨by rw [h.1, hab], hrs⟩

theorem digits_append_inj {a b r s : List Char} (ha : ∀ c ∈ a, c.isDigit = true)
    (hb : ∀ c ∈ b, c.isDigit = true) (hr : Stops r) (hs : Stops s) (h : a ++ r = b ++ s) :
    a = b ∧ r = s :=
  token_append_inj ha hb hr hs h

theorem isDigit_toDigits (n : Nat) : ∀ c ∈ Nat.toDigits 10 n, c.isDigit = true := fun _ hc =>
  Nat.isDigit_of_mem_toDigits (by decide) (by decide) hc

theorem toDigits_append_inj {n m : Nat} {r s : List Char} (hr : Stops r) (hs : Stops s)
    (h : Nat.toDigits 10 n ++ r = Nat.toDigits 10 m ++ s) : n = m ∧ r = s := by
  obtain ⟨hdigits, hrest⟩ := digits_append_inj (isDigit_toDigits n) (isDigit_toDigits m) hr hs h
  refine ⟨?_, hrest⟩
  rw [← Nat.ofDigitChars_ten_toDigits (n := n), hdigits, Nat.ofDigitChars_ten_toDigits]

/-- The text of a natural number starts with a digit. -/
theorem toDigits_cons (n : Nat) : ∃ c rest, Nat.toDigits 10 n = c :: rest ∧ c.isDigit = true := by
  cases h : Nat.toDigits 10 n with
  | nil => exact absurd h Nat.toDigits_ne_nil
  | cons c rest => exact ⟨c, rest, rfl, isDigit_toDigits n c (by simp [h])⟩

theorem minus_ne_toDigits {n : Nat} {r s : List Char} : '-' :: r ≠ Nat.toDigits 10 n ++ s := by
  obtain ⟨c, rest, hdigits, hdigit⟩ := toDigits_cons n
  rw [hdigits, List.cons_append]
  intro h
  rw [← (List.cons.inj h).1] at hdigit
  exact absurd hdigit (by decide)

theorem decimal_append_inj {n m : Int} {r s : List Char} (hr : Stops r) (hs : Stops s)
    (h : decimal n ++ r = decimal m ++ s) : n = m ∧ r = s := by
  unfold decimal at h
  split at h <;> split at h
  · simp only [List.cons_append, List.cons.injEq, true_and] at h
    obtain ⟨habs, hrest⟩ := toDigits_append_inj hr hs h
    exact ⟨by omega, hrest⟩
  · exact absurd h minus_ne_toDigits
  · exact absurd h.symm minus_ne_toDigits
  · obtain ⟨habs, hrest⟩ := toDigits_append_inj hr hs h
    exact ⟨by omega, hrest⟩

/-! ### Strings -/

def hexValue (c : Char) : Nat := if c.toNat < 58 then c.toNat - 48 else c.toNat - 87

/-- The character an escaped text begins with, and what follows it; none at the closing quote. -/
def readEscaped : List Char → Option (Char × List Char)
  | '"' :: _ => none
  | '\\' :: '"' :: rest => some ('"', rest)
  | '\\' :: '\\' :: rest => some ('\\', rest)
  | '\\' :: 'b' :: rest => some (Char.ofNat 8, rest)
  | '\\' :: 't' :: rest => some (Char.ofNat 9, rest)
  | '\\' :: 'n' :: rest => some (Char.ofNat 10, rest)
  | '\\' :: 'f' :: rest => some (Char.ofNat 12, rest)
  | '\\' :: 'r' :: rest => some (Char.ofNat 13, rest)
  | '\\' :: 'u' :: '0' :: '0' :: h :: l :: rest =>
    some (Char.ofNat (16 * hexValue h + hexValue l), rest)
  | '\\' :: _ => none
  | c :: rest => some (c, rest)
  | [] => none

theorem hexValue_hexDigit : ∀ n < 16, hexValue (Value.hexDigit n) = n := by decide

theorem readEscaped_escapeChar (c : Char) (rest : List Char) :
    readEscaped (Value.escapeChar c ++ rest) = some (c, rest) := by
  have hchar : ∀ n, c.toNat = n → Char.ofNat n = c := fun n h => by rw [← h, Char.ofNat_toNat]
  unfold Value.escapeChar
  split
  · next h => rw [h]; rfl
  split
  · next h => rw [h]; rfl
  split
  · next h => rw [← hchar _ h]; rfl
  split
  · next h => rw [← hchar _ h]; rfl
  split
  · next h => rw [← hchar _ h]; rfl
  split
  · next h => rw [← hchar _ h]; rfl
  split
  · next h => rw [← hchar _ h]; rfl
  split
  · next h =>
    have hhigh := hexValue_hexDigit (c.toNat / 16) (by omega)
    have hlow := hexValue_hexDigit (c.toNat % 16) (by omega)
    show some (Char.ofNat (16 * hexValue _ + hexValue _), rest) = _
    rw [hhigh, hlow, Nat.div_add_mod, Char.ofNat_toNat]
  · next hquote hslash _ _ _ _ _ _ =>
    rw [List.singleton_append, readEscaped.eq_def]
    split <;> simp_all

theorem escaped_inj {a b r s : List Char}
    (h : a.flatMap Value.escapeChar ++ '"' :: r = b.flatMap Value.escapeChar ++ '"' :: s) :
    a = b ∧ r = s := by
  have hread := congrArg readEscaped h
  induction a generalizing b with
  | nil =>
    cases b with
    | nil => exact ⟨rfl, (List.cons.inj h).2⟩
    | cons d b =>
      rw [List.flatMap_cons, List.append_assoc, readEscaped_escapeChar] at hread
      cases hread
  | cons c a ih =>
    rw [List.flatMap_cons, List.append_assoc, readEscaped_escapeChar] at hread
    cases b with
    | nil => cases hread
    | cons d b =>
      rw [List.flatMap_cons, List.append_assoc, readEscaped_escapeChar, Option.some.injEq,
        Prod.mk.injEq] at hread
      obtain ⟨hab, hrs⟩ := ih hread.2 (congrArg readEscaped hread.2)
      exact ⟨by rw [hread.1, hab], hrs⟩

theorem quote_append_inj {s t : String} {r u : List Char}
    (h : Value.quote s ++ r = Value.quote t ++ u) : s = t ∧ r = u := by
  simp only [Value.quote, List.cons_append, List.append_assoc, List.cons.injEq, true_and,
    List.nil_append] at h
  obtain ⟨hchars, hrest⟩ := escaped_inj h
  exact ⟨String.toList_inj.mp hchars, hrest⟩

/-! ### Parts -/

section Parts

variable {α : Type} {f : α → List Char} {close : Char} {xs ys : List α} {r s : List Char}

theorem stops_sepTail (hclose : close.isDigit = false) (parts : List (List Char)) :
    Stops (sepTail close parts ++ r) := by
  cases parts with
  | nil => exact stops_cons hclose _
  | cons part rest => exact stops_cons (by decide) _

/-- Parts that are determined by their texts wherever what follows satisfies `S`, as a comma and the closing bracket do. -/
theorem sepTail_inj_of {S : List Char → Prop} (hS : ∀ parts r, S (sepTail close parts ++ r)) (hcomma : close ≠ ',')
    (hf : ∀ x ∈ xs, ∀ y ∈ ys, ∀ r s, S r → S s → f x ++ r = f y ++ s → x = y ∧ r = s)
    (h : sepTail close (xs.map f) ++ r = sepTail close (ys.map f) ++ s) : xs = ys ∧ r = s := by
  induction xs generalizing ys with
  | nil =>
    cases ys with
    | nil => exact ⟨rfl, (List.cons.inj h).2⟩
    | cons y ys => exact absurd (List.cons.inj h).1 hcomma
  | cons x xs ih =>
    cases ys with
    | nil => exact absurd (List.cons.inj h).1.symm hcomma
    | cons y ys =>
      simp only [List.map_cons, sepTail, List.cons_append, List.append_assoc, List.cons.injEq,
        true_and] at h
      obtain ⟨hxy, hrest⟩ := hf x List.mem_cons_self y List.mem_cons_self _ _ (hS _ _) (hS _ _) h
      obtain ⟨hxs, hrs⟩ := ih (fun x hx y hy => hf x (List.mem_cons_of_mem _ hx) y (List.mem_cons_of_mem _ hy)) hrest
      exact ⟨by rw [hxy, hxs], hrs⟩

/-- The same of parts with commas between them, none of which begins with the closing bracket. -/
theorem sepBy_inj_of {S : List Char → Prop} (hS : ∀ parts r, S (sepTail close parts ++ r)) (hcomma : close ≠ ',')
    (hheadx : ∀ x ∈ xs, ∀ r, (f x ++ r).head? ≠ some close) (hheady : ∀ y ∈ ys, ∀ r, (f y ++ r).head? ≠ some close)
    (hf : ∀ x ∈ xs, ∀ y ∈ ys, ∀ r s, S r → S s → f x ++ r = f y ++ s → x = y ∧ r = s)
    (h : sepBy close (xs.map f) ++ r = sepBy close (ys.map f) ++ s) : xs = ys ∧ r = s := by
  cases xs with
  | nil =>
    cases ys with
    | nil => exact ⟨rfl, (List.cons.inj h).2⟩
    | cons y ys =>
      refine absurd ?_ (hheady y List.mem_cons_self (sepTail close (ys.map f) ++ s))
      rw [← List.append_assoc]
      exact (congrArg List.head? h).symm
  | cons x xs =>
    cases ys with
    | nil =>
      refine absurd ?_ (hheadx x List.mem_cons_self (sepTail close (xs.map f) ++ r))
      rw [← List.append_assoc]
      exact congrArg List.head? h
    | cons y ys =>
      simp only [List.map_cons, sepBy, List.append_assoc] at h
      obtain ⟨hxy, hrest⟩ := hf x List.mem_cons_self y List.mem_cons_self _ _ (hS _ _) (hS _ _) h
      obtain ⟨hxs, hrs⟩ := sepTail_inj_of hS hcomma
        (fun x hx y hy => hf x (List.mem_cons_of_mem _ hx) y (List.mem_cons_of_mem _ hy)) hrest
      exact ⟨by rw [hxy, hxs], hrs⟩

/-- Parts that are determined by their texts, none of which begins with the closing bracket. -/
theorem sepBy_inj (hdigit : close.isDigit = false) (hcomma : close ≠ ',')
    (hhead : ∀ y r, (f y ++ r).head? ≠ some close)
    (hf : ∀ x ∈ xs, ∀ y r s, Stops r → Stops s → f x ++ r = f y ++ s → x = y ∧ r = s)
    (h : sepBy close (xs.map f) ++ r = sepBy close (ys.map f) ++ s) : xs = ys ∧ r = s :=
  sepBy_inj_of (fun parts _ => stops_sepTail hdigit parts) hcomma (fun x _ => hhead x) (fun y _ => hhead y)
    (fun x hx y _ => hf x hx y) h

end Parts

/-! ### Trees -/

namespace Json

/-- Which of the six kinds of value a tree is. -/
def kind : Json → Nat
  | .null => 0
  | .bool _ => 1
  | .int _ => 2
  | .string _ => 3
  | .array _ => 4
  | .object _ => 5

/-- The kind of value a text starts. -/
def kindOf (t : List Char) : Nat :=
  match t.head? with
  | none => 6
  | some c =>
    if c = 'n' then 0 else if c = 't' ∨ c = 'f' then 1 else if c = '-' ∨ c.isDigit then 2
    else if c = '"' then 3 else if c = '[' then 4 else if c = '\x7b' then 5 else 6

theorem kindOf_text (v : Json) (r : List Char) : kindOf (v.text ++ r) = v.kind := by
  cases v with
  | null => rfl
  | bool b => cases b <;> rfl
  | int n =>
    obtain ⟨c, rest, hdigits, hdigit⟩ := toDigits_cons n.1.natAbs
    rw [text, decimal, hdigits]
    split
    · rfl
    · have hne : ∀ d : Char, d.isDigit = false → c ≠ d := by
        intro d hd heq
        rw [heq, hd] at hdigit
        cases hdigit
      simp [kindOf, kind, hdigit, hne 'n' (by decide), hne 't' (by decide), hne 'f' (by decide)]
  | string s => rfl
  | array items => rfl
  | object entries => rfl

theorem head?_text_ne {v : Json} {r : List Char} {c : Char} (hc : kindOf [c] = 6) :
    (v.text ++ r).head? ≠ some c := by
  intro h
  have hkind := kindOf_text v r
  have hsame : kindOf (v.text ++ r) = kindOf [c] := by
    rw [kindOf, h, kindOf, List.head?_cons]
  rw [hsame, hc] at hkind
  cases v <;> cases hkind

/-- **The text is unambiguous**: whatever follows it, unless it is a digit, the tree can be read back. -/
theorem text_append_inj (v w : Json) (r s : List Char) (hr : Stops r) (hs : Stops s)
    (h : v.text ++ r = w.text ++ s) : v = w ∧ r = s := by
  have hkind : v.kind = w.kind := by rw [← kindOf_text v r, h, kindOf_text]
  induction v using Json.induction generalizing w r s with
  | null =>
    cases w with
    | null => exact ⟨rfl, List.append_cancel_left h⟩
    | _ => cases hkind
  | bool b =>
    cases w with
    | bool b' =>
      cases b <;> cases b' <;> simp [text] at h ⊢ <;> exact h
    | _ => cases hkind
  | int n =>
    cases w with
    | int m =>
      obtain ⟨hnm, hrs⟩ := decimal_append_inj hr hs h
      exact ⟨by rw [Subtype.ext hnm], hrs⟩
    | _ => cases hkind
  | string a =>
    cases w with
    | string b =>
      obtain ⟨hab, hrs⟩ := quote_append_inj h
      exact ⟨by rw [hab], hrs⟩
    | _ => cases hkind
  | array items ih =>
    cases w with
    | array items' =>
      rw [text, text, textItems_eq, textItems_eq, List.cons_append, List.cons_append,
        List.cons.injEq] at h
      obtain ⟨hitems, hrs⟩ := sepBy_inj (by decide) (by decide) (fun y r => head?_text_ne (by decide))
        (fun v hv w r s hr hs hvw => ih v hv w r s hr hs hvw
          (by rw [← kindOf_text v r, hvw, kindOf_text])) h.2
      exact ⟨by rw [hitems], hrs⟩
    | _ => cases hkind
  | object entries ih =>
    cases w with
    | object entries' =>
      rw [text, text, textEntries_eq, textEntries_eq, List.cons_append, List.cons_append,
        List.cons.injEq] at h
      have hentry : ∀ e ∈ entries, ∀ e' r s, Stops r → Stops s →
          textEntry e ++ r = textEntry e' ++ s → e = e' ∧ r = s := by
        intro e he e' r s hr hs hee
        simp only [textEntry, List.append_assoc, List.cons_append] at hee
        obtain ⟨hkey, hrest⟩ := quote_append_inj hee
        have hvalues := (List.cons.inj hrest).2
        obtain ⟨hvalue, hrs⟩ := ih e he e'.2 r s hr hs hvalues
          (by rw [← kindOf_text e.2 r, hvalues, kindOf_text])
        exact ⟨Prod.ext hkey hvalue, hrs⟩
      obtain ⟨hentries, hrs⟩ := sepBy_inj (by decide) (by decide)
        (fun e r => by simp [textEntry, Value.quote]) hentry h.2
      exact ⟨by rw [hentries], hrs⟩
    | _ => cases hkind

theorem text_inj {v w : Json} : v.text = w.text ↔ v = w := by
  constructor
  · intro h
    have hnil : Stops [] := fun c hc => by cases hc
    exact (text_append_inj v w [] [] hnil hnil (by rw [h])).1
  · intro h
    rw [h]

end Json

end ActantDb
