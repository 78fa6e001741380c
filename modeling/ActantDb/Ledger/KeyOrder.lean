import Mathlib.Data.List.Induction
import Mathlib.Data.List.Pairwise
import ActantDb.Ledger.JsValue

/-!
# The two orders of keys

Rust sorts the keys of an object by their bytes, which is the order of their code points. TypeScript sorts them by code units of UTF-16 and then builds an object, which lists the keys that are array indices first, in numerical order. The two agree on a set of keys exactly when they agree on every two of them.
-/

namespace ActantDb

/-! ### Keys -/

/-- The character that a list of code units begins with is determined, and so is what follows it: no character is a surrogate. -/
theorem codeUnits_append_inj {c d : Char} {r s : List Nat}
    (h : codeUnits c ++ r = codeUnits d ++ s) : c = d ∧ r = s := by
  have hc : c.toNat < 0xd800 ∨ 0xdfff < c.toNat ∧ c.toNat < 0x110000 := c.valid
  have hd : d.toNat < 0xd800 ∨ 0xdfff < d.toNat ∧ d.toNat < 0x110000 := d.valid
  unfold codeUnits at h
  split at h <;> split at h <;>
    simp only [List.cons_append, List.nil_append, List.cons.injEq] at h
  · exact ⟨Char.toNat_inj.mp h.1, h.2⟩
  · omega
  · omega
  · exact ⟨Char.toNat_inj.mp (by omega), h.2.2⟩

theorem flatMap_codeUnits_inj {a b : List Char}
    (h : a.flatMap codeUnits = b.flatMap codeUnits) : a = b := by
  have hne : ∀ c : Char, codeUnits c ≠ [] := by
    intro c
    unfold codeUnits
    split <;> simp
  induction a generalizing b with
  | nil =>
    cases b with
    | nil => rfl
    | cons d b =>
      rw [List.flatMap_nil, List.flatMap_cons, eq_comm, List.append_eq_nil_iff] at h
      exact absurd h.1 (hne d)
  | cons c a ih =>
    cases b with
    | nil =>
      rw [List.flatMap_nil, List.flatMap_cons, List.append_eq_nil_iff] at h
      exact absurd h.1 (hne c)
    | cons d b =>
      rw [List.flatMap_cons, List.flatMap_cons] at h
      obtain ⟨hcd, hrest⟩ := codeUnits_append_inj h
      rw [hcd, ih hrest]

theorem utf16Le_antisymm {a b : String} (hab : utf16Le a b = true) (hba : utf16Le b a = true) :
    a = b :=
  String.toList_inj.mp <| flatMap_codeUnits_inj <|
    le_antisymm (of_decide_eq_true hab) (of_decide_eq_true hba)

/-- The value of a text of digits. -/
def digitsValue (digits : List Char) : Nat := digits.foldl (fun n c => 10 * n + (c.toNat - 48)) 0

theorem digitsValue_concat (digits : List Char) (c : Char) :
    digitsValue (digits ++ [c]) = 10 * digitsValue digits + (c.toNat - 48) := by
  simp [digitsValue]

theorem digitChar_of_isDigit {c : Char} (h : c.isDigit = true) :
    c.toNat - 48 < 10 ∧ (c.toNat - 48).digitChar = c := by
  have hrange : 48 ≤ c.toNat ∧ c.toNat ≤ 57 := by
    simpa [Char.isDigit, UInt32.le_iff_toNat_le] using h
  have hall : ∀ n < 10, (n.digitChar).toNat = n + 48 := by decide
  refine ⟨by omega, Char.toNat_inj.mp ?_⟩
  rw [hall _ (by omega)]
  omega

/-- A text of digits that does not start with a zero is the decimal text of its value. -/
theorem toDigits_digitsValue {digits : List Char} (hne : digits ≠ [])
    (hzero : digits.head? ≠ some '0') (hdigits : ∀ c ∈ digits, c.isDigit = true) :
    0 < digitsValue digits ∧ Nat.toDigits 10 (digitsValue digits) = digits := by
  induction digits using List.reverseRecOn with
  | nil => exact absurd rfl hne
  | append_singleton digits c ih =>
    obtain ⟨hlt, hchar⟩ := digitChar_of_isDigit (hdigits c (by simp))
    rw [digitsValue_concat]
    cases digits with
    | nil =>
      have hc : c.toNat - 48 ≠ 0 := by
        intro h
        rw [h] at hchar
        exact hzero (by rw [← hchar]; rfl)
      simp only [digitsValue, List.foldl_nil, Nat.mul_zero, Nat.zero_add, List.nil_append]
      rw [Nat.toDigits_of_lt_base hlt, hchar]
      exact ⟨by omega, rfl⟩
    | cons d digits =>
      obtain ⟨hpos, htext⟩ := ih (by simp) (by simpa using hzero) fun c hc =>
        hdigits c (List.mem_append_left _ hc)
      rw [← Nat.toDigits_append_toDigits (by decide) hpos hlt, htext,
        Nat.toDigits_of_lt_base hlt, hchar]
      exact ⟨by omega, rfl⟩

/-- An array index is the decimal text of its number. -/
theorem toDigits_arrayIndex {key : String} {n : Nat} (h : arrayIndex key = some n) :
    Nat.toDigits 10 n = key.toList := by
  unfold arrayIndex at h
  split at h
  · cases h
  · next rest hkey =>
    split at h
    · next hrest =>
      cases h
      rw [hkey, hrest]
      rfl
    · cases h
  · next hnil hzero =>
    simp only [Option.ite_none_right_eq_some, Option.some.injEq, List.all_eq_true] at h
    obtain ⟨⟨hdigits, -⟩, rfl⟩ := h
    refine (toDigits_digitsValue (fun h => hnil h) (fun h => ?_) hdigits).2
    obtain ⟨rest, hrest⟩ := List.head?_eq_some_iff.mp h
    exact hzero rest hrest

theorem arrayIndex_inj {a b : String} {n : Nat} (ha : arrayIndex a = some n)
    (hb : arrayIndex b = some n) : a = b :=
  String.toList_inj.mp ((toDigits_arrayIndex ha).symm.trans (toDigits_arrayIndex hb))

/-- In an object built from sorted entries the key `a` is listed no later than `b`. -/
def jsBefore (a b : String) : Bool :=
  match arrayIndex a, arrayIndex b with
  | some m, some n => m ≤ n
  | some _, none => true
  | none, some _ => false
  | none, none => utf16Le a b

theorem jsBefore_antisymm {a b : String} (hab : jsBefore a b = true) (hba : jsBefore b a = true) :
    a = b := by
  unfold jsBefore at hab hba
  cases ha : arrayIndex a with
  | none =>
    cases hb : arrayIndex b with
    | none =>
      simp only [ha, hb] at hab hba
      exact utf16Le_antisymm hab hba
    | some n => simp [ha, hb] at hab
  | some m =>
    cases hb : arrayIndex b with
    | none => simp [ha, hb] at hba
    | some n =>
      simp only [ha, hb, decide_eq_true_eq] at hab hba
      exact arrayIndex_inj ha (by rw [hb, Nat.le_antisymm hab hba])

/-- The two languages list the keys of an object with these keys in the same order. -/
def KeysAgree (keys : List String) : Prop :=
  ∀ a ∈ keys, ∀ b ∈ keys, a < b → jsBefore a b = true

instance (keys : List String) : Decidable (KeysAgree keys) := by
  unfold KeysAgree
  infer_instance

/-! ### The order of TypeScript -/

section Js

variable {α β : Type}

/-- `ownEntries`, whatever the properties are. -/
def listed (entries : List (String × α)) : List (String × α) :=
  (entries.filter fun e => (arrayIndex e.1).isSome).insertionSort
      (fun a b => (arrayIndex a.1).getD 0 ≤ (arrayIndex b.1).getD 0) ++
    entries.filter fun e => ¬ (arrayIndex e.1).isSome

/-- The entries of `Object.fromEntries` of the sorted entries, as they are listed. -/
def jsOrder (entries : List (String × α)) : List (String × α) :=
  listed (entries.insertionSort fun a b => utf16Le a.1 b.1)

theorem listed_map (f : α → β) (entries : List (String × α)) :
    listed (entries.map fun e => (e.1, f e.2)) = (listed entries).map fun e => (e.1, f e.2) := by
  simp only [listed, List.map_append, List.filter_map]
  congr 1
  symm
  apply List.map_insertionSort
  intro a _ b _
  exact Iff.rfl

theorem jsOrder_map (f : α → β) (entries : List (String × α)) :
    jsOrder (entries.map fun e => (e.1, f e.2)) = (jsOrder entries).map fun e => (e.1, f e.2) := by
  rw [jsOrder, jsOrder, ← listed_map]
  congr 1
  symm
  apply List.map_insertionSort
  intro a _ b _
  exact Iff.rfl

theorem listed_perm (entries : List (String × α)) : (listed entries).Perm entries := by
  have hsplit := List.filter_append_perm (fun e : String × α => (arrayIndex e.1).isSome) entries
  refine ((List.perm_insertionSort _ _).append_right _).trans ?_
  simpa only [Bool.decide_eq_true, Bool.not_eq_true, Bool.decide_eq_false] using hsplit

theorem jsOrder_perm (entries : List (String × α)) : (jsOrder entries).Perm entries :=
  (listed_perm _).trans (List.perm_insertionSort _ _)

theorem pairwise_utf16Le (entries : List (String × α)) :
    (entries.insertionSort fun a b => utf16Le a.1 b.1).Pairwise
      fun a b => utf16Le a.1 b.1 = true := by
  have htotal : Std.Total fun a b : String × α => utf16Le a.1 b.1 = true :=
    ⟨fun a b => by
      simp only [utf16Le, decide_eq_true_eq]
      exact le_total _ _⟩
  have htrans : IsTrans (String × α) fun a b => utf16Le a.1 b.1 = true :=
    ⟨fun a b c hab hbc => by
      simp only [utf16Le, decide_eq_true_eq] at hab hbc ⊢
      exact le_trans hab hbc⟩
  exact List.pairwise_insertionSort _ _

/-- Entries in listed order. -/
theorem pairwise_jsOrder (entries : List (String × α)) :
    (jsOrder entries).Pairwise fun a b => jsBefore a.1 b.1 = true := by
  rw [jsOrder, listed, List.pairwise_append]
  refine ⟨?_, ?_, ?_⟩
  · have hsorted := List.pairwise_insertionSort
      (fun a b : String × α => (arrayIndex a.1).getD 0 ≤ (arrayIndex b.1).getD 0)
      ((entries.insertionSort fun a b => utf16Le a.1 b.1).filter fun e => (arrayIndex e.1).isSome)
    refine hsorted.imp_of_mem fun ha hb hle => ?_
    have ha' := (List.mem_filter.mp ((List.mem_insertionSort _).mp ha)).2
    have hb' := (List.mem_filter.mp ((List.mem_insertionSort _).mp hb)).2
    obtain ⟨m, hm⟩ := Option.isSome_iff_exists.mp ha'
    obtain ⟨n, hn⟩ := Option.isSome_iff_exists.mp hb'
    simpa [jsBefore, hm, hn] using hle
  · refine ((pairwise_utf16Le entries).filter _).imp_of_mem fun ha hb hle => ?_
    have ha' := (List.mem_filter.mp ha).2
    have hb' := (List.mem_filter.mp hb).2
    simp only [Bool.not_eq_true, decide_eq_true_eq, Option.isSome_eq_false_iff,
      Option.isNone_iff_eq_none] at ha' hb'
    simpa [jsBefore, ha', hb'] using hle
  · intro a ha b hb
    have ha' := (List.mem_filter.mp ((List.mem_insertionSort _).mp ha)).2
    have hb' := (List.mem_filter.mp hb).2
    obtain ⟨m, hm⟩ := Option.isSome_iff_exists.mp ha'
    simp only [Bool.not_eq_true, decide_eq_true_eq, Option.isSome_eq_false_iff,
      Option.isNone_iff_eq_none] at hb'
    simp [jsBefore, hm, hb']

/-- Listing what is listed changes nothing. -/
theorem listed_jsOrder (entries : List (String × α)) : listed (jsOrder entries) = jsOrder entries := by
  have hindex : ∀ es : List (String × α), (listed es).filter (fun e => (arrayIndex e.1).isSome) =
      (es.filter fun e => (arrayIndex e.1).isSome).insertionSort
        fun a b => (arrayIndex a.1).getD 0 ≤ (arrayIndex b.1).getD 0 := by
    intro es
    have hother : (es.filter fun e => ¬ (arrayIndex e.1).isSome).filter
        (fun e => (arrayIndex e.1).isSome) = [] := by
      rw [List.filter_eq_nil_iff]
      intro e he
      simpa using (List.mem_filter.mp he).2
    rw [listed, List.filter_append, hother, List.append_nil, List.filter_eq_self]
    intro e he
    exact (List.mem_filter.mp ((List.mem_insertionSort _).mp he)).2
  have hother : ∀ es : List (String × α), (listed es).filter (fun e => ¬ (arrayIndex e.1).isSome) =
      es.filter fun e => ¬ (arrayIndex e.1).isSome := by
    intro es
    have hindices : ((es.filter fun e => (arrayIndex e.1).isSome).insertionSort
        fun a b => (arrayIndex a.1).getD 0 ≤ (arrayIndex b.1).getD 0).filter
          (fun e => ¬ (arrayIndex e.1).isSome) = [] := by
      rw [List.filter_eq_nil_iff]
      intro e he
      simp [(List.mem_filter.mp ((List.mem_insertionSort _).mp he)).2]
    rw [listed, List.filter_append, hindices, List.nil_append, List.filter_eq_self]
    intro e he
    exact (List.mem_filter.mp he).2
  rw [jsOrder, listed, hindex, hother, List.Pairwise.insertionSort_eq]
  · rfl
  · exact List.pairwise_insertionSort _ _

end Js

/-! ### The order of Rust -/

section Rust

open Value

variable {α β : Type} {entries : List (String × α)}

theorem insertEntry_map (f : α → β) (key : String) (value : α) (entries : List (String × α)) :
    insertEntry key (f value) (entries.map fun e => (e.1, f e.2)) =
      (insertEntry key value entries).map fun e => (e.1, f e.2) := by
  induction entries with
  | nil => rfl
  | cons e rest ih =>
    simp only [List.map_cons, insertEntry]
    split
    · rfl
    split
    · rfl
    · rw [ih, List.map_cons]

theorem collectEntries_map (f : α → β) (entries : List (String × α)) :
    collectEntries (entries.map fun e => (e.1, f e.2)) =
      (collectEntries entries).map fun e => (e.1, f e.2) := by
  have hfold : ∀ map : List (String × α),
      (entries.map fun e => (e.1, f e.2)).foldl (fun map e => insertEntry e.1 e.2 map)
          (map.map fun e => (e.1, f e.2)) =
        (entries.foldl (fun map e => insertEntry e.1 e.2 map) map).map fun e => (e.1, f e.2) := by
    induction entries with
    | nil => exact fun _ => rfl
    | cons e rest ih =>
      intro map
      rw [List.map_cons, List.foldl_cons, List.foldl_cons, ← ih, ← insertEntry_map]
  exact hfold []

theorem insertEntry_perm {key : String} (h : key ∉ entries.map Prod.fst) (value : α) :
    (insertEntry key value entries).Perm ((key, value) :: entries) := by
  induction entries with
  | nil => exact List.Perm.refl _
  | cons e rest ih =>
    rw [List.map_cons, List.mem_cons, not_or] at h
    rw [insertEntry, if_neg h.1]
    split
    · exact List.Perm.refl _
    · exact ((ih h.2).cons e).trans (List.Perm.swap _ _ _)

theorem mem_keys_insertEntry {key k : String} {value : α} (entries : List (String × α)) :
    k ∈ (insertEntry key value entries).map Prod.fst ↔ k = key ∨ k ∈ entries.map Prod.fst := by
  induction entries with
  | nil => simp [insertEntry]
  | cons e rest ih =>
    rw [insertEntry]
    split
    · simp
    split
    · next heq => simp [heq]
    · rw [List.map_cons, List.mem_cons, ih, List.map_cons, List.mem_cons]
      tauto

theorem pairwise_insertEntry {key : String} {value : α}
    (h : (entries.map Prod.fst).Pairwise (· < ·)) :
    ((insertEntry key value entries).map Prod.fst).Pairwise (· < ·) := by
  induction entries with
  | nil => simp [insertEntry]
  | cons e rest ih =>
    rw [List.map_cons, List.pairwise_cons] at h
    rw [insertEntry]
    split
    · next hlt =>
      simp only [List.map_cons, List.pairwise_cons]
      refine ⟨fun k hk => ?_, h.1, h.2⟩
      rcases List.mem_cons.mp hk with rfl | hk
      · exact hlt
      · exact lt_trans hlt (h.1 k hk)
    split
    · next heq =>
      rw [List.map_cons, List.pairwise_cons]
      exact ⟨fun k hk => heq ▸ h.1 k hk, h.2⟩
    · next hnot hne =>
      rw [List.map_cons, List.pairwise_cons]
      refine ⟨fun k hk => ?_, ih h.2⟩
      rcases (mem_keys_insertEntry rest).mp hk with rfl | hk
      · exact lt_of_le_of_ne (not_lt.mp hnot) (Ne.symm hne)
      · exact h.1 k hk

theorem pairwise_collectEntries (entries : List (String × α)) :
    ((collectEntries entries).map Prod.fst).Pairwise (· < ·) := by
  have hfold : ∀ map : List (String × α), (map.map Prod.fst).Pairwise (· < ·) →
      ((entries.foldl (fun map e => insertEntry e.1 e.2 map) map).map Prod.fst).Pairwise (· < ·) := by
    induction entries with
    | nil => exact fun _ h => h
    | cons e rest ih =>
      intro map hmap
      exact ih _ (pairwise_insertEntry hmap)
  exact hfold [] List.Pairwise.nil

/-- Where no key occurs twice, no entry is lost. -/
theorem collectEntries_perm (h : (entries.map Prod.fst).Nodup) :
    (collectEntries entries).Perm entries := by
  have hfold : ∀ map : List (String × α), ((entries ++ map).map Prod.fst).Nodup →
      (entries.foldl (fun map e => insertEntry e.1 e.2 map) map).Perm (entries ++ map) := by
    induction entries with
    | nil => exact fun _ _ => List.Perm.refl _
    | cons e rest ih =>
      intro map hmap
      rw [List.cons_append, List.map_cons, List.nodup_cons] at hmap
      have hnew : e.1 ∉ map.map Prod.fst := fun hin => hmap.1 (by
        rw [List.map_append, List.mem_append]
        exact Or.inr hin)
      have hinsert := insertEntry_perm hnew e.2
      have hmove : (rest ++ insertEntry e.1 e.2 map).Perm (e :: (rest ++ map)) :=
        (hinsert.append_left rest).trans List.perm_middle
      refine (ih (List.nodup_cons.mp h).2 _ ?_).trans hmove
      rw [(hmove.map Prod.fst).nodup_iff, List.map_cons, List.nodup_cons]
      exact hmap
  have hall := hfold [] (by rwa [List.append_nil])
  rwa [List.append_nil] at hall

end Rust

/-! ### Agreement -/

/-- **The two languages list the entries alike** exactly when they agree on every two of their keys. -/
theorem collectEntries_eq_jsOrder {α : Type} {entries : List (String × α)}
    (h : (entries.map Prod.fst).Nodup) :
    Value.collectEntries entries = jsOrder entries ↔ KeysAgree (entries.map Prod.fst) := by
  have hsorted := List.pairwise_map.mp (pairwise_collectEntries entries)
  have hperm := collectEntries_perm h
  constructor
  · intro heq a ha b hb hlt
    have hboth := hsorted.and (heq ▸ pairwise_jsOrder entries)
    obtain ⟨x, hx, rfl⟩ := List.mem_map.mp ((hperm.map Prod.fst).mem_iff.mpr ha)
    obtain ⟨y, hy, rfl⟩ := List.mem_map.mp ((hperm.map Prod.fst).mem_iff.mpr hb)
    -- one of the two comes first in the common list, and it can only be the smaller key
    have hsymm : Std.Symm fun x y : String × α => (x.1 < y.1 ∧ jsBefore x.1 y.1 = true) ∨
        (y.1 < x.1 ∧ jsBefore y.1 x.1 = true) := ⟨fun _ _ => Or.symm⟩
    have hne : x ≠ y := fun hxy => lt_irrefl _ (hxy ▸ hlt)
    rcases (hboth.imp fun hab => Or.inl hab : (Value.collectEntries entries).Pairwise
      fun x y => (x.1 < y.1 ∧ jsBefore x.1 y.1 = true) ∨
        (y.1 < x.1 ∧ jsBefore y.1 x.1 = true)).forall hx hy hne with hxy | hyx
    · exact hxy.2
    · exact absurd hlt (lt_asymm hyx.1)
  · intro hagree
    have hjs : (Value.collectEntries entries).Pairwise fun a b => jsBefore a.1 b.1 = true := by
      refine hsorted.imp_of_mem fun ha hb hlt => ?_
      exact hagree _ (List.mem_map_of_mem (hperm.mem_iff.mp ha)) _
        (List.mem_map_of_mem (hperm.mem_iff.mp hb)) hlt
    refine List.Perm.eq_of_pairwise (fun a b ha hb hab hba => ?_) hjs (pairwise_jsOrder entries)
      (hperm.trans (jsOrder_perm entries).symm)
    exact List.inj_on_of_nodup_map h (hperm.mem_iff.mp ha) ((jsOrder_perm entries).mem_iff.mp hb)
      (jsBefore_antisymm hab hba)

end ActantDb
