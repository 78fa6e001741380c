import ActantDb.Core.JsonTree
import ActantDb.Ledger.KeyOrder

/-!
# The two canonical forms

`canonicalJSON` of TypeScript and `canonical_json` of Rust, side by side on the JSON trees that both languages have. Each is the text of the tree with the entries of every object in the order of its language; the texts are unambiguous, so they are the same exactly when the orders are.
-/

namespace ActantDb

/-! ### A tree in each language -/

/-- The double of an integer. -/
def F64.ofInt (n : Int) : F64 := .ofMagnitude (n < 0) n.natAbs

/-- The number `serde_json` makes of an integer. -/
def Number.ofInt (n : Int) : Number :=
  if n < 0 then .negInt (Int64.ofInt n) else .posInt (UInt64.ofNat n.toNat)

/-- Exponent and mantissa of a safe integer that is not zero. -/
theorem F64.bits_ofInt {n : Int} (h : n.natAbs < 2 ^ 53) (hne : n ≠ 0) :
    ∃ e m, e ≤ 52 ∧ m = n.natAbs * 2 ^ (52 - e) ∧ 2 ^ 52 ≤ m ∧ m < 2 ^ 53 ∧
      (F64.ofInt n).bits.toNat =
        (if n < 0 then 2 ^ 63 else 0) + (e + 1023) * 2 ^ 52 + (m - 2 ^ 52) := by
  have habs : n.natAbs ≠ 0 := by omega
  have hlow := Nat.log2_self_le habs
  have hhigh := Nat.lt_log2_self (n := n.natAbs)
  have he : n.natAbs.log2 ≤ 52 := Nat.lt_succ_iff.mp (Nat.log2_lt habs |>.mpr h)
  have hsplit : 2 ^ n.natAbs.log2 * 2 ^ (52 - n.natAbs.log2) = 2 ^ 52 := by
    rw [← Nat.pow_add]
    congr 1
    omega
  have hge : 2 ^ 52 ≤ n.natAbs * 2 ^ (52 - n.natAbs.log2) :=
    hsplit ▸ Nat.mul_le_mul_right _ hlow
  have hlt : n.natAbs * 2 ^ (52 - n.natAbs.log2) < 2 ^ 53 := by
    calc n.natAbs * 2 ^ (52 - n.natAbs.log2)
      _ < 2 ^ (n.natAbs.log2 + 1) * 2 ^ (52 - n.natAbs.log2) :=
        Nat.mul_lt_mul_of_pos_right hhigh (Nat.two_pow_pos _)
      _ = 2 ^ 53 := by
        rw [Nat.pow_succ, Nat.mul_right_comm, hsplit, ← Nat.pow_succ]
  refine ⟨_, _, he, rfl, hge, hlt, ?_⟩
  simp only [F64.ofInt, F64.ofMagnitude, if_neg habs, if_pos he, decide_eq_true_eq]
  rw [UInt64.toNat_ofNat']
  split <;> omega

/-- The sign bit stands above exponent and mantissa. -/
theorem F64.magnitude_ofInt {n : Int} (h : n.natAbs < 2 ^ 53) (hne : n ≠ 0) :
    ∃ e m, e ≤ 52 ∧ m = n.natAbs * 2 ^ (52 - e) ∧ 2 ^ 52 ≤ m ∧ m < 2 ^ 53 ∧
      (F64.ofInt n).isNegative = decide (n < 0) ∧
      (F64.ofInt n).magnitude = (e + 1023) * 2 ^ 52 + (m - 2 ^ 52) := by
  obtain ⟨e, m, he, hm, hge, hlt, hbits⟩ := F64.bits_ofInt h hne
  refine ⟨e, m, he, hm, hge, hlt, ?_, ?_⟩
  · rw [F64.isNegative, hbits]
    split <;> simp [*] <;> omega
  · rw [F64.magnitude, hbits]
    split <;> omega

theorem F64.printed_ofInt {n : Int} (h : n.natAbs < 2 ^ 53) :
    (F64.ofInt n).isFinite = true ∧ (F64.ofInt n).printed = F64.ofInt n := by
  by_cases hne : n = 0
  · subst hne
    decide
  · obtain ⟨e, m, he, -, hge, hlt, -, hmagnitude⟩ := F64.magnitude_ofInt h hne
    refine ⟨?_, ?_⟩
    · rw [F64.isFinite, hmagnitude, decide_eq_true_eq]
      omega
    · rw [F64.printed, hmagnitude, if_neg (by omega)]

namespace Json

mutual

def toJs : Json → JsValue
  | .null => .null
  | .bool b => .bool b
  | .int n => .number (.ofInt n.1)
  | .string s => .string s
  | .array items => .array (toJsItems items)
  | .object entries => .object (toJsEntries entries)

def toJsItems : List Json → List JsValue
  | [] => []
  | v :: rest => toJs v :: toJsItems rest

def toJsEntries : List (String × Json) → List (String × JsValue)
  | [] => []
  | (key, v) :: rest => (key, toJs v) :: toJsEntries rest

end

mutual

def toValue : Json → Value
  | .null => .null
  | .bool b => .bool b
  | .int n => .number (.ofInt n.1)
  | .string s => .string s
  | .array items => .array (toValueItems items)
  | .object entries => .object (toValueEntries entries)

def toValueItems : List Json → List Value
  | [] => []
  | v :: rest => toValue v :: toValueItems rest

def toValueEntries : List (String × Json) → List (String × Value)
  | [] => []
  | (key, v) :: rest => (key, toValue v) :: toValueEntries rest

end

section Reorder

variable (order : List (String × Json) → List (String × Json))

mutual

/-- The tree with the entries of every object in this order. -/
def reorder : Json → Json
  | .null => .null
  | .bool b => .bool b
  | .int n => .int n
  | .string s => .string s
  | .array items => .array (reorderItems items)
  | .object entries => .object (order (reorderEntries entries))

def reorderItems : List Json → List Json
  | [] => []
  | v :: rest => reorder v :: reorderItems rest

def reorderEntries : List (String × Json) → List (String × Json)
  | [] => []
  | (key, v) :: rest => (key, reorder v) :: reorderEntries rest

end

end Reorder

mutual

/-- The keys of each object in the tree. -/
def objects : Json → List (List String)
  | .null => []
  | .bool _ => []
  | .int _ => []
  | .string _ => []
  | .array items => objectsItems items
  | .object entries => entries.map Prod.fst :: objectsEntries entries

def objectsItems : List Json → List (List String)
  | [] => []
  | v :: rest => objects v ++ objectsItems rest

def objectsEntries : List (String × Json) → List (List String)
  | [] => []
  | (_, v) :: rest => objects v ++ objectsEntries rest

end

theorem toJsEntries_eq (entries : List (String × Json)) :
    toJsEntries entries = entries.map fun e => (e.1, e.2.toJs) := by
  induction entries with
  | nil => rfl
  | cons e rest ih => rw [toJsEntries, ih, List.map_cons]

theorem toValueEntries_eq (entries : List (String × Json)) :
    toValueEntries entries = entries.map fun e => (e.1, e.2.toValue) := by
  induction entries with
  | nil => rfl
  | cons e rest ih => rw [toValueEntries, ih, List.map_cons]

theorem objectsItems_eq (items : List Json) : objectsItems items = items.flatMap objects := by
  induction items with
  | nil => rfl
  | cons v rest ih => rw [objectsItems, ih, List.flatMap_cons]

theorem objectsEntries_eq (entries : List (String × Json)) :
    objectsEntries entries = entries.flatMap fun e => e.2.objects := by
  induction entries with
  | nil => rfl
  | cons e rest ih => rw [objectsEntries, ih, List.flatMap_cons]

variable {order : List (String × Json) → List (String × Json)}

theorem reorderItems_eq (items : List Json) :
    reorderItems order items = items.map (reorder order) := by
  induction items with
  | nil => rfl
  | cons v rest ih => rw [reorderItems, ih, List.map_cons]

theorem reorderEntries_eq (entries : List (String × Json)) :
    reorderEntries order entries = entries.map fun e => (e.1, e.2.reorder order) := by
  induction entries with
  | nil => rfl
  | cons e rest ih => rw [reorderEntries, ih, List.map_cons]

/-! ### Rust -/

theorem canonicalize_toValue (v : Json) :
    v.toValue.canonicalize = (v.reorder Value.collectEntries).toValue := by
  induction v using Json.induction with
  | null => rfl
  | bool b => rfl
  | int n => rfl
  | string s => rfl
  | array items ih =>
    have hitems : Value.canonicalizeItems (toValueItems items) =
        toValueItems (reorderItems Value.collectEntries items) := by
      induction items with
      | nil => rfl
      | cons v rest hrest =>
        rw [toValueItems, Value.canonicalizeItems, reorderItems, toValueItems,
          ih v List.mem_cons_self, hrest fun w hw => ih w (List.mem_cons_of_mem _ hw)]
    rw [toValue, Value.canonicalize, hitems, reorder, toValue]
  | object entries ih =>
    have hentries : Value.canonicalizeEntries (toValueEntries entries) =
        toValueEntries (reorderEntries Value.collectEntries entries) := by
      induction entries with
      | nil => rfl
      | cons e rest hrest =>
        rw [toValueEntries, Value.canonicalizeEntries, reorderEntries, toValueEntries,
          ih e List.mem_cons_self, hrest fun w hw => ih w (List.mem_cons_of_mem _ hw)]
    rw [toValue, Value.canonicalize, hentries, reorder, toValue, toValueEntries_eq,
      collectEntries_map, toValueEntries_eq]

theorem print_number {n : Int} (h : n.natAbs < 2 ^ 53) (formatF64 : F64 → String) :
    Value.print formatF64 (.number (.ofInt n)) = decimal n := by
  rw [Number.ofInt, decimal]
  split
  · next hneg =>
    have hint : (Int64.ofInt n).toInt = n := Int64.toInt_ofInt_of_le (by omega) (by omega)
    rw [Value.print, hint, Nat.toList_repr]
  · next hpos =>
    have hnat : (UInt64.ofNat n.toNat).toNat = n.natAbs := by
      rw [UInt64.toNat_ofNat']
      omega
    rw [Value.print, hnat, Nat.toList_repr]

theorem print_toValue (formatF64 : F64 → String) (v : Json) :
    Value.print formatF64 v.toValue = v.text := by
  induction v using Json.induction with
  | null => rfl
  | bool b => cases b <;> rfl
  | int n => exact print_number n.2 formatF64
  | string s => rfl
  | array items ih =>
    have hitems : Value.printItems formatF64 (toValueItems items) ++ [']'] =
        sepBy ']' (textItems items) := by
      induction items with
      | nil => rfl
      | cons v rest hrest =>
        have hv := ih v List.mem_cons_self
        have htail := hrest fun w hw => ih w (List.mem_cons_of_mem _ hw)
        cases rest with
        | nil => rw [toValueItems, toValueItems, Value.printItems, hv]; rfl
        | cons w rest =>
          rw [toValueItems] at htail
          rw [toValueItems, toValueItems, Value.printItems, hv, List.append_assoc, List.cons_append,
            htail]
          rfl
    rw [toValue, Value.print, text, ← hitems, List.cons_append]
  | object entries ih =>
    have hentries : Value.printEntries formatF64 (toValueEntries entries) ++ ['\x7d'] =
        sepBy '\x7d' (textEntries entries) := by
      induction entries with
      | nil => rfl
      | cons e rest hrest =>
        have he := ih e List.mem_cons_self
        have htail := hrest fun w hw => ih w (List.mem_cons_of_mem _ hw)
        cases rest with
        | nil =>
          rw [toValueEntries, toValueEntries, Value.printEntries, he]
          simp [textEntries, sepBy, sepTail]
        | cons w rest =>
          rw [toValueEntries] at htail
          rw [toValueEntries, toValueEntries, Value.printEntries, he, List.append_assoc,
            List.cons_append, htail]
          simp [textEntries, sepBy, sepTail]
    rw [toValue, Value.print, text, ← hentries, List.cons_append]

/-- The text of `canonical_json`. -/
theorem canonicalJson_toValue (X : Crates) (v : Json) :
    canonicalJson X v.toValue = String.ofList (v.reorder Value.collectEntries).text := by
  rw [canonicalJson, Value.toText, canonicalize_toValue, print_toValue]

/-! ### TypeScript -/

theorem isUndefined_toJs (v : Json) : v.toJs.isUndefined = false := by
  cases v <;> rfl

theorem sortKeys_toJs (v : Json) : sortKeys v.toJs = .ok (v.reorder jsOrder).toJs := by
  induction v using Json.induction with
  | null => rfl
  | bool b => rfl
  | int n => rfl
  | string s => rfl
  | array items ih =>
    have hitems : sortItems (toJsItems items) = .ok (toJsItems (reorderItems jsOrder items)) := by
      induction items with
      | nil => rfl
      | cons v rest hrest =>
        rw [toJsItems, sortItems, ih v List.mem_cons_self,
          hrest fun w hw => ih w (List.mem_cons_of_mem _ hw)]
        rfl
    rw [toJs, sortKeys, hitems]
    rfl
  | object entries ih =>
    have hentries : sortEntries (toJsEntries entries) =
        .ok (toJsEntries (reorderEntries jsOrder entries)) := by
      induction entries with
      | nil => rfl
      | cons e rest hrest =>
        rw [toJsEntries, sortEntries, ih e List.mem_cons_self,
          hrest fun w hw => ih w (List.mem_cons_of_mem _ hw)]
        rfl
    rw [toJs, sortKeys, hentries]
    show Except.ok (JsValue.object (jsOrder (toJsEntries (reorderEntries jsOrder entries)))) = _
    rw [toJsEntries_eq, jsOrder_map, ← toJsEntries_eq]
    rfl

theorem itemsThroughJson_toJs {items : List Json}
    (h : ∀ v ∈ items, throughJson v.toJs = .ok v.toJs) :
    itemsThroughJson (toJsItems items) = .ok (toJsItems items) := by
  induction items with
  | nil => rfl
  | cons v rest ih =>
    rw [toJsItems, itemsThroughJson, h v List.mem_cons_self,
      ih fun w hw => h w (List.mem_cons_of_mem _ hw)]
    show Except.ok ((if v.toJs.isUndefined = true then JsValue.null else v.toJs) :: _) = _
    rw [isUndefined_toJs]
    rfl

theorem entriesThroughJson_toJs {entries : List (String × Json)}
    (h : ∀ e ∈ entries, throughJson e.2.toJs = .ok e.2.toJs) :
    entriesThroughJson (toJsEntries entries) = .ok (toJsEntries entries) := by
  induction entries with
  | nil => rfl
  | cons e rest ih =>
    rw [toJsEntries, entriesThroughJson_cons, h e List.mem_cons_self,
      ih fun w hw => h w (List.mem_cons_of_mem _ hw)]
    show Except.ok (if e.2.toJs.isUndefined = true then _ else (e.1, e.2.toJs) :: _) = _
    rw [isUndefined_toJs]
    rfl

/-- What has been sorted is printed as it is and read back the same. -/
theorem throughJson_toJs (v : Json) :
    throughJson (v.reorder jsOrder).toJs = .ok (v.reorder jsOrder).toJs := by
  induction v using Json.induction with
  | null => rfl
  | bool b => rfl
  | int n =>
    obtain ⟨hfinite, hprinted⟩ := F64.printed_ofInt n.2
    rw [reorder, toJs, throughJson, hfinite, hprinted]
    rfl
  | string s => rfl
  | array items ih =>
    have hitems : ∀ w ∈ reorderItems jsOrder items, throughJson w.toJs = .ok w.toJs := by
      intro w hw
      rw [reorderItems_eq] at hw
      obtain ⟨v, hv, rfl⟩ := List.mem_map.mp hw
      exact ih v hv
    rw [reorder, toJs, throughJson, itemsThroughJson_toJs hitems]
    rfl
  | object entries ih =>
    have hentries : ∀ e ∈ jsOrder (reorderEntries jsOrder entries),
        throughJson e.2.toJs = .ok e.2.toJs := by
      intro e he
      rw [(jsOrder_perm _).mem_iff, reorderEntries_eq] at he
      obtain ⟨e', he', rfl⟩ := List.mem_map.mp he
      exact ih e' he'
    rw [reorder, toJs, throughJson, entriesThroughJson_toJs hentries]
    show Except.ok (JsValue.object (listed (toJsEntries _))) = _
    rw [toJsEntries_eq, listed_map, listed_jsOrder]

/-- What the language documents of its printing of numbers, for the integers in the safe range. -/
def PrintsSafeIntegers (J : JsLibrary) : Prop :=
  ∀ n : SafeInt, J.numberToString (.ofInt n.1) = String.ofList (decimal n.1)

variable {J : JsLibrary}

theorem printJson_toJs (hJ : PrintsSafeIntegers J) (v : Json) : printJson J v.toJs = v.text := by
  induction v using Json.induction with
  | null => rfl
  | bool b => cases b <;> rfl
  | int n =>
    rw [toJs, printJson, hJ n, String.toList_ofList]
    rfl
  | string s => rfl
  | array items ih =>
    have hitems : printJsonItems J (toJsItems items) ++ [']'] = sepBy ']' (textItems items) := by
      induction items with
      | nil => rfl
      | cons v rest hrest =>
        have hv := ih v List.mem_cons_self
        have htail := hrest fun w hw => ih w (List.mem_cons_of_mem _ hw)
        rw [toJsItems, printJsonItems, hv, List.append_assoc, htail]
        cases rest with
        | nil => simp [toJsItems, textItems, sepBy, sepTail]
        | cons w rest => simp [toJsItems, textItems, sepBy, sepTail]
    rw [toJs, printJson, text, ← hitems, List.cons_append]
  | object entries ih =>
    have hentries : printJsonEntries J (toJsEntries entries) ++ ['\x7d'] =
        sepBy '\x7d' (textEntries entries) := by
      induction entries with
      | nil => rfl
      | cons e rest hrest =>
        have he := ih e List.mem_cons_self
        have htail := hrest fun w hw => ih w (List.mem_cons_of_mem _ hw)
        rw [toJsEntries, printJsonEntries, he, List.append_assoc, htail]
        cases rest with
        | nil => simp [toJsEntries, textEntries, sepBy, sepTail]
        | cons w rest => simp [toJsEntries, textEntries, sepBy, sepTail]
    rw [toJs, printJson, text, ← hentries, List.cons_append]

/-- The text of `canonicalJSON`. -/
theorem canonicalText_toJs (hJ : PrintsSafeIntegers J) (v : Json) :
    canonicalText J v.toJs = .ok (String.ofList (v.reorder jsOrder).text) := by
  have hcanonical : canonicalJSON v.toJs = .ok (v.reorder jsOrder).toJs := by
    rw [canonicalJSON, sortKeys_toJs]
    exact throughJson_toJs v
  rw [canonicalText, hcanonical]
  show (if (v.reorder jsOrder).toJs.isUndefined = true then _ else
    Except.ok (String.ofList (printJson J (v.reorder jsOrder).toJs))) = _
  rw [isUndefined_toJs, printJson_toJs hJ]
  rfl

/-! ### Agreement -/

/-- No object of the tree has a key twice. -/
def WellFormed (v : Json) : Prop := ∀ keys ∈ v.objects, keys.Nodup

instance (v : Json) : Decidable v.WellFormed := by
  unfold WellFormed
  infer_instance

/-- In every object of the tree the keys have one order in both languages. -/
def OrdersAgree (v : Json) : Prop := ∀ keys ∈ v.objects, KeysAgree keys

instance (v : Json) : Decidable v.OrdersAgree := by
  unfold OrdersAgree
  infer_instance

theorem reorder_eq_iff (v : Json) (hv : v.WellFormed) :
    v.reorder Value.collectEntries = v.reorder jsOrder ↔ v.OrdersAgree := by
  induction v using Json.induction with
  | null => exact iff_of_true rfl fun keys h => absurd h List.not_mem_nil
  | bool b => exact iff_of_true rfl fun keys h => absurd h List.not_mem_nil
  | int n => exact iff_of_true rfl fun keys h => absurd h List.not_mem_nil
  | string s => exact iff_of_true rfl fun keys h => absurd h List.not_mem_nil
  | array items ih =>
    simp only [WellFormed, OrdersAgree, objects, objectsItems_eq, List.mem_flatMap,
      forall_exists_index, and_imp] at hv ⊢
    rw [reorder, reorder, Json.array.injEq, reorderItems_eq, reorderItems_eq, List.map_inj_left]
    constructor
    · intro h keys w hw hkeys
      exact (ih w hw fun keys hk => hv keys w hw hk).mp (h w hw) keys hkeys
    · intro h w hw
      exact (ih w hw fun keys hk => hv keys w hw hk).mpr fun keys hk => h keys w hw hk
  | object entries ih =>
    simp only [WellFormed, OrdersAgree, objects, objectsEntries_eq, List.mem_cons, List.mem_flatMap,
      forall_eq_or_imp, forall_exists_index, and_imp] at hv ⊢
    obtain ⟨hnodup, hv⟩ := hv
    have hchild := fun e he => ih e he fun keys hk => hv keys e he hk
    have hkeys : ∀ order : List (String × Json) → List (String × Json),
        (reorderEntries order entries).map Prod.fst = entries.map Prod.fst := by
      intro order
      rw [reorderEntries_eq, List.map_map]
      rfl
    rw [reorder, reorder, Json.object.injEq]
    constructor
    · intro h
      -- the one entry with a key has one value on both sides
      have hsame : ∀ e ∈ entries, e.2.reorder Value.collectEntries = e.2.reorder jsOrder := by
        intro e he
        have hrust : (e.1, e.2.reorder Value.collectEntries) ∈
            Value.collectEntries (reorderEntries Value.collectEntries entries) := by
          rw [(collectEntries_perm ((hkeys _).symm ▸ hnodup)).mem_iff, reorderEntries_eq]
          exact List.mem_map_of_mem he
        rw [h, (jsOrder_perm _).mem_iff, reorderEntries_eq] at hrust
        obtain ⟨e', he', heq⟩ := List.mem_map.mp hrust
        have hee : e' = e := List.inj_on_of_nodup_map hnodup he' he (Prod.mk.inj heq).1
        rw [hee] at heq
        exact (congrArg Prod.snd heq).symm
      have hentries : reorderEntries Value.collectEntries entries = reorderEntries jsOrder entries := by
        rw [reorderEntries_eq, reorderEntries_eq, List.map_inj_left]
        exact fun e he => by rw [hsame e he]
      rw [hentries] at h
      refine ⟨?_, fun keys e he hk => (hchild e he).mp (hsame e he) keys hk⟩
      rw [← hkeys jsOrder]
      exact (collectEntries_eq_jsOrder ((hkeys _).symm ▸ hnodup)).mp h
    · intro h
      have hentries : reorderEntries Value.collectEntries entries = reorderEntries jsOrder entries := by
        rw [reorderEntries_eq, reorderEntries_eq, List.map_inj_left]
        exact fun e he => by rw [(hchild e he).mpr fun keys hk => h.2 keys e he hk]
      rw [hentries]
      refine (collectEntries_eq_jsOrder ((hkeys _).symm ▸ hnodup)).mpr ?_
      rw [hkeys]
      exact h.1

/-- **The two canonical forms are one text** exactly for the trees whose objects list their keys alike in both languages. -/
theorem canonical_texts_agree_iff (X : Crates) (J : JsLibrary) (hJ : PrintsSafeIntegers J) (v : Json)
    (hv : v.WellFormed) :
    canonicalText J v.toJs = .ok (canonicalJson X v.toValue) ↔ v.OrdersAgree := by
  rw [canonicalText_toJs hJ, canonicalJson_toValue, Except.ok.injEq, String.ofList_inj, text_inj,
    ← reorder_eq_iff v hv, eq_comm]

/-- A number printed in decimal. -/
def decimalLibrary : JsLibrary :=
  { JsLibrary.sample with
    numberToString := fun x =>
      String.ofList (decimal (if x.isNegative then -(x.toNat : Int) else x.toNat)) }

theorem decimalLibrary_prints : PrintsSafeIntegers decimalLibrary := by
  intro n
  have hvalue : (if (F64.ofInt n.1).isNegative then -((F64.ofInt n.1).toNat : Int)
      else (F64.ofInt n.1).toNat) = n.1 := by
    by_cases hne : n.1 = 0
    · rw [hne]
      decide
    · obtain ⟨e, m, he, hm, hge, hlt, hnegative, hmagnitude⟩ := F64.magnitude_ofInt n.2 hne
      have hnat : (F64.ofInt n.1).toNat = n.1.natAbs := by
        have hexponent : ((e + 1023) * 2 ^ 52 + (m - 2 ^ 52)) / 2 ^ 52 = e + 1023 := by omega
        have hmantissa : 2 ^ 52 + ((e + 1023) * 2 ^ 52 + (m - 2 ^ 52)) % 2 ^ 52 = m := by omega
        simp only [F64.toNat, hmagnitude, hexponent, hmantissa]
        rw [if_neg (by omega)]
        split
        · have he52 : e = 52 := by omega
          simp [hm, he52]
        · have hshift : 1075 - (e + 1023) = 52 - e := by omega
          rw [hshift, hm, Nat.mul_div_cancel _ (Nat.two_pow_pos _)]
      rw [hnegative, hnat]
      simp only [decide_eq_true_eq]
      omega
  exact congrArg (fun m => String.ofList (decimal m)) hvalue

/-- A key that is an array index after one that is not, but sorts before it. -/
def indexAfterBang : Json := .object [("!", .int ⟨1, by decide⟩), ("1", .int ⟨2, by decide⟩)]

theorem indexAfterBang_differs :
    canonicalText decimalLibrary indexAfterBang.toJs ≠
      .ok (canonicalJson Crates.sample indexAfterBang.toValue) := by
  rw [Ne, canonicalText_toJs decimalLibrary_prints, canonicalJson_toValue, Except.ok.injEq,
    String.ofList_inj, text_inj, eq_comm, reorder_eq_iff _ (by decide)]
  decide

theorem canonical_texts_agree_nested :
    canonicalText decimalLibrary
        (object [("b", .array [.null, .object [("z", .bool true), ("é", .string "x")]]),
          ("10", .int ⟨-7, by decide⟩)]).toJs =
      .ok (canonicalJson Crates.sample
        (object [("b", .array [.null, .object [("z", .bool true), ("é", .string "x")]]),
          ("10", .int ⟨-7, by decide⟩)]).toValue) :=
  (canonical_texts_agree_iff Crates.sample decimalLibrary decimalLibrary_prints _ (by decide)).mpr
    (by decide)

end Json

end ActantDb
