import ActantDb.Contracts.Compat
import ActantDb.Core.JsonTree

/-!
# JSON Schema

What the schemas mean: draft 7, for the keywords that the generator of the baseline emits. A reference names a definition of the schema it occurs in, and the keywords beside it are ignored. A chain of references need not end, so validation counts down a fuel, and a value is valid when it is so with all fuel from some amount on.
-/

namespace ActantDb

open Value

/-! ### One schema -/

/-- A number without a fractional part. -/
def Number.isInteger : Number → Bool
  | .posInt _ => true
  | .negInt _ => true
  | .float x =>
    let magnitude := x.bits.toNat % 2 ^ 63
    let e := magnitude / 2 ^ 52
    if e = 0 then magnitude = 0
    else if 1075 ≤ e then e < 2047
    else (2 ^ 52 + magnitude % 2 ^ 52) % 2 ^ (1075 - e) = 0

def hasType (name : String) : Value → Bool
  | .null => name = "null"
  | .bool _ => name = "boolean"
  | .number n => name = "number" || (name = "integer" && n.isInteger)
  | .string _ => name = "string"
  | .array _ => name = "array"
  | .object _ => name = "object"

def typeOk (schema v : Value) : Bool :=
  match schema.get "type" with
  | some (.string name) => hasType name v
  | some (.array names) => names.any fun t => t.asStr.any (hasType · v)
  | _ => true

/-- Two values are equal when their texts are. -/
def enumOk (X : Crates) (schema v : Value) : Bool :=
  match schema.arrayAt "enum" with
  | some values => (values.map (·.toText X)).contains (v.toText X)
  | none => true

/-- The members of an object; other values have none. -/
def members (v : Value) : List (String × Value) := v.entries?.getD []

def requiredOk (schema v : Value) : Bool :=
  match v with
  | .object _ => (stringArraySet (schema.get "required")).all fun f => (v.get f).isSome
  | _ => true

/-- The members that a property is listed for, each with the schema of that property. -/
def propertyParts (schema v : Value) : List (Value × Value) :=
  match schema.objectAt "properties" with
  | some props => (members v).filterMap fun m => (lookup props m.1).map (·, m.2)
  | none => []

/-- The items with their schemas: one for all of them, or one for each of the first. -/
def itemParts (schema v : Value) : List (Value × Value) :=
  match schema.get "items" with
  | some (.array schemas) => schemas.zip (v.asArray.getD [])
  | some items => (v.asArray.getD []).map (items, ·)
  | none => []

def allOfParts (schema v : Value) : List (Value × Value) :=
  ((schema.arrayAt "allOf").getD []).map (·, v)

/-- The parts of a value that must be valid, each with the schema it must be valid under. -/
def parts (schema v : Value) : List (Value × Value) :=
  propertyParts schema v ++ itemParts schema v ++ allOfParts schema v

/-- The schemas of `anyOf`, when it is there. -/
def anyOf? (schema : Value) : Option (List Value) := schema.arrayAt "anyOf"

def oneOf? (schema : Value) : Option (List Value) := schema.arrayAt "oneOf"

/-- The definition that a reference names. -/
def refTarget (root : Value) (ref : String) : Option Value :=
  if "#/definitions/".toList.isPrefixOf ref.toList then
    (root.objectAt "definitions").bind fun definitions =>
      lookup definitions (String.ofList (ref.toList.drop "#/definitions/".length))
  else none

/-! ### Validation -/

variable (X : Crates) (root : Value)

def validate : Nat → Value → Value → Bool
  | 0, _, _ => false
  | fuel + 1, schema, v =>
    match schema with
    | .bool b => b
    | .object _ =>
      match schema.strAt "$ref" with
      | some ref =>
        match refTarget root ref with
        | some target => validate fuel target v
        | none => false
      | none =>
        typeOk schema v && enumOk X schema v && requiredOk schema v &&
          (parts schema v).all (fun p => validate fuel p.1 p.2) &&
          (anyOf? schema).all (fun schemas => schemas.any (validate fuel · v)) &&
          (oneOf? schema).all (fun schemas => schemas.countP (validate fuel · v) = 1)
    | _ => false

/-- The value is valid under a schema of the document `root`. -/
def ValidUnder (schema v : Value) : Prop := ∃ least, ∀ fuel ≥ least, validate X root fuel schema v = true

/-- Where a schema lists properties, it lists every member of the object. -/
def membersDeclared (schema v : Value) : Bool :=
  match schema.objectAt "properties" with
  | some props => (members v).all fun m => (lookup props m.1).isSome
  | none => true

/-- Every member is listed, and so on for the schemas that apply to the value and to its parts. Inside a `oneOf` nothing is asked. -/
def declares : Nat → Value → Value → Bool
  | 0, _, _ => true
  | fuel + 1, schema, v =>
    match schema.strAt "$ref" with
    | some ref =>
      match refTarget root ref with
      | some target => declares fuel target v
      | none => true
    | none =>
      membersDeclared schema v && (parts schema v).all (fun p => declares fuel p.1 p.2) &&
        (anyOf? schema).all fun schemas =>
          schemas.all fun s => !validate X root fuel s v || declares fuel s v

/-- The value has no members but those its schema declares. -/
def Declared (schema v : Value) : Prop :=
  ∃ least, ∀ fuel ≥ least, declares X root fuel schema v = true

/-! ### Unions without references -/

mutual

/-- Nothing in the value is a reference. -/
def refFree : Value → Bool
  | .array items => refFreeItems items
  | .object entries => refFreeEntries entries
  | _ => true

def refFreeItems : List Value → Bool
  | [] => true
  | v :: rest => refFree v && refFreeItems rest

def refFreeEntries : List (String × Value) → Bool
  | [] => true
  | (key, v) :: rest => key ≠ "$ref" && refFree v && refFreeEntries rest

end

mutual

/-- No `oneOf` in the value holds a reference. -/
def closedUnions : Value → Bool
  | .array items => closedUnionsItems items
  | .object entries => closedUnionsEntries entries
  | _ => true

def closedUnionsItems : List Value → Bool
  | [] => true
  | v :: rest => closedUnions v && closedUnionsItems rest

def closedUnionsEntries : List (String × Value) → Bool
  | [] => true
  | (key, v) :: rest => (key ≠ "oneOf" || refFree v) && closedUnions v && closedUnionsEntries rest

end

section Parts

variable {schema sub : Value} {key : String}

theorem get_mem (h : schema.get key = some sub) :
    ∃ entries, schema = .object entries ∧ (key, sub) ∈ entries := by
  unfold Value.get at h
  split at h
  · next entries =>
    obtain ⟨e, he, rfl⟩ := Option.map_eq_some_iff.mp h
    have hkey : e.1 = key := by simpa using List.find?_some he
    exact ⟨entries, rfl, hkey ▸ List.mem_of_find?_eq_some he⟩
  · cases h

theorem arrayAt_eq {items : List Value} (h : schema.arrayAt key = some items) :
    schema.get key = some (.array items) := by
  obtain ⟨v, hv, hitems⟩ := Option.bind_eq_some_iff.mp h
  cases v with
  | array vs => rw [hv, Option.some.inj hitems]
  | _ => cases hitems

theorem objectAt_eq {entries : List (String × Value)} (h : schema.objectAt key = some entries) :
    schema.get key = some (.object entries) := by
  obtain ⟨v, hv, hentries⟩ := Option.bind_eq_some_iff.mp h
  cases v with
  | object es => rw [hv, Option.some.inj hentries]
  | _ => cases hentries

theorem refFreeItems_iff {items : List Value} :
    refFreeItems items = true ↔ ∀ v ∈ items, refFree v = true := by
  induction items with
  | nil => simp [refFreeItems]
  | cons v rest ih => simp [refFreeItems, ih]

theorem refFreeEntries_iff {entries : List (String × Value)} :
    refFreeEntries entries = true ↔ ∀ e ∈ entries, e.1 ≠ "$ref" ∧ refFree e.2 = true := by
  induction entries with
  | nil => simp [refFreeEntries]
  | cons e rest ih => simp [refFreeEntries, ih]

theorem closedUnionsItems_iff {items : List Value} :
    closedUnionsItems items = true ↔ ∀ v ∈ items, closedUnions v = true := by
  induction items with
  | nil => simp [closedUnionsItems]
  | cons v rest ih => simp [closedUnionsItems, ih]

theorem closedUnionsEntries_iff {entries : List (String × Value)} :
    closedUnionsEntries entries = true ↔
      ∀ e ∈ entries, (e.1 = "oneOf" → refFree e.2 = true) ∧ closedUnions e.2 = true := by
  induction entries with
  | nil => simp [closedUnionsEntries]
  | cons e rest ih =>
    simp only [closedUnionsEntries, ih, Bool.and_eq_true, Bool.or_eq_true, decide_eq_true_eq,
      List.forall_mem_cons]
    tauto

theorem refFree_get (h : refFree schema = true) (hget : schema.get key = some sub) :
    key ≠ "$ref" ∧ refFree sub = true := by
  obtain ⟨entries, rfl, hmem⟩ := get_mem hget
  exact refFreeEntries_iff.mp h _ hmem

theorem closedUnions_get (h : closedUnions schema = true) (hget : schema.get key = some sub) :
    (key = "oneOf" → refFree sub = true) ∧ closedUnions sub = true := by
  obtain ⟨entries, rfl, hmem⟩ := get_mem hget
  exact closedUnionsEntries_iff.mp h _ hmem

theorem refFree_mem {items : List Value} (h : refFree (.array items) = true) (hmem : sub ∈ items) :
    refFree sub = true := refFreeItems_iff.mp h _ hmem

theorem closedUnions_mem {items : List Value} (h : closedUnions (.array items) = true)
    (hmem : sub ∈ items) : closedUnions sub = true := closedUnionsItems_iff.mp h _ hmem

theorem strAt_ref_of_refFree (h : refFree schema = true) : schema.strAt "$ref" = none := by
  cases hget : schema.get "$ref" with
  | none => rw [Value.strAt, hget]; rfl
  | some v => exact absurd rfl (refFree_get h hget).1

end Parts

/-! ### The schemas of the parts -/

section Held

variable {schema v : Value} {q : Value → Prop}

/-- A property of schemas that passes to the values of their keys and to the items of arrays holds of the schemas of the parts. -/
theorem parts_inherit {p : Value × Value} (hp : p ∈ parts schema v)
    (hget : ∀ s key sub, q s → s.get key = some sub → q sub)
    (hitem : ∀ items sub, q (.array items) → sub ∈ items → q sub) (h : q schema) : q p.1 := by
  simp only [parts, List.mem_append] at hp
  rcases hp with (hp | hp) | hp
  · unfold propertyParts at hp
    split at hp
    · next props hprops =>
      obtain ⟨m, -, hm⟩ := List.mem_filterMap.mp hp
      obtain ⟨sub, hsub, rfl⟩ := Option.map_eq_some_iff.mp hm
      exact hget _ _ _ (hget _ _ _ h (objectAt_eq hprops)) hsub
    · cases hp
  · unfold itemParts at hp
    split at hp
    · next schemas hitems => exact hitem _ _ (hget _ _ _ h hitems) (List.of_mem_zip hp).1
    · next items _ hitems =>
      obtain ⟨w, -, rfl⟩ := List.mem_map.mp hp
      exact hget _ _ _ h hitems
    · cases hp
  · obtain ⟨sub, hsub, rfl⟩ := List.mem_map.mp hp
    cases hall : schema.arrayAt "allOf" with
    | none =>
      rw [hall] at hsub
      cases hsub
    | some schemas =>
      rw [hall] at hsub
      exact hitem _ _ (hget _ _ _ h (arrayAt_eq hall)) hsub

theorem parts_refFree {p : Value × Value} (hp : p ∈ parts schema v) (h : refFree schema = true) :
    refFree p.1 = true :=
  parts_inherit (q := fun s => refFree s = true) hp (fun _ _ _ hs hget => (refFree_get hs hget).2)
    (fun _ _ => refFree_mem) h

theorem parts_closedUnions {p : Value × Value} (hp : p ∈ parts schema v)
    (h : closedUnions schema = true) : closedUnions p.1 = true :=
  parts_inherit (q := fun s => closedUnions s = true) hp
    (fun _ _ _ hs hget => (closedUnions_get hs hget).2) (fun _ _ => closedUnions_mem) h

end Held

section Roots

variable {X : Crates} {root root' : Value}

theorem validate_object (fuel : Nat) (entries : List (String × Value)) (v : Value) :
    validate X root (fuel + 1) (.object entries) v =
      match Value.strAt (.object entries) "$ref" with
      | some ref =>
        match refTarget root ref with
        | some target => validate X root fuel target v
        | none => false
      | none =>
        typeOk (.object entries) v && enumOk X (.object entries) v && requiredOk (.object entries) v &&
          (parts (.object entries) v).all (fun p => validate X root fuel p.1 p.2) &&
          (anyOf? (.object entries)).all (fun schemas => schemas.any (validate X root fuel · v)) &&
          (oneOf? (.object entries)).all (fun schemas => schemas.countP (validate X root fuel · v) = 1) := rfl

theorem declares_succ (fuel : Nat) (schema v : Value) :
    declares X root (fuel + 1) schema v =
      match schema.strAt "$ref" with
      | some ref =>
        match refTarget root ref with
        | some target => declares X root fuel target v
        | none => true
      | none =>
        membersDeclared schema v && (parts schema v).all (fun p => declares X root fuel p.1 p.2) &&
          (anyOf? schema).all fun schemas =>
            schemas.all fun s => !validate X root fuel s v || declares X root fuel s v := rfl

/-- Without references the root does not matter. -/
theorem validate_refFree (fuel : Nat) {schema : Value} (h : refFree schema = true) (v : Value) :
    validate X root fuel schema v = validate X root' fuel schema v := by
  induction fuel generalizing schema v with
  | zero => rfl
  | succ fuel ih =>
    cases schema with
    | object entries =>
      have hparts : (parts (.object entries) v).all (fun p => validate X root fuel p.1 p.2) =
          (parts (.object entries) v).all fun p => validate X root' fuel p.1 p.2 := by
        rw [Bool.eq_iff_iff, List.all_eq_true, List.all_eq_true]
        exact forall₂_congr fun p hp => by rw [ih (parts_refFree hp h)]
      have hheld : ∀ key schemas, Value.arrayAt (.object entries) key = some schemas →
          ∀ sub ∈ schemas, validate X root fuel sub v = validate X root' fuel sub v :=
        fun key schemas hkey sub hsub => ih (refFree_mem (refFree_get h (arrayAt_eq hkey)).2 hsub) v
      have hany : (anyOf? (.object entries)).all
            (fun schemas => schemas.any (validate X root fuel · v)) =
          (anyOf? (.object entries)).all fun schemas => schemas.any (validate X root' fuel · v) := by
        cases hkey : anyOf? (.object entries) with
        | none => rfl
        | some schemas =>
          rw [Option.all_some, Option.all_some, Bool.eq_iff_iff, List.any_eq_true, List.any_eq_true]
          exact exists_congr fun sub => and_congr_right fun hsub => by rw [hheld _ _ hkey sub hsub]
      have hone : (oneOf? (.object entries)).all
            (fun schemas => schemas.countP (validate X root fuel · v) = 1) =
          (oneOf? (.object entries)).all
            fun schemas => schemas.countP (validate X root' fuel · v) = 1 := by
        cases hkey : oneOf? (.object entries) with
        | none => rfl
        | some schemas =>
          rw [Option.all_some, Option.all_some, List.countP_congr fun sub hsub => by
            rw [hheld _ _ hkey sub hsub]]
      simp only [validate_object, strAt_ref_of_refFree h, hparts, hany, hone]
    | _ => rfl

/-! ### One level of validation -/

variable {fuel : Nat} {entries : List (String × Value)} {schema v : Value} {ref : String}

theorem validate_ref (h : Value.strAt (.object entries) "$ref" = some ref) :
    validate X root (fuel + 1) (.object entries) v = true ↔
      ∃ target, refTarget root ref = some target ∧ validate X root fuel target v = true := by
  simp only [validate_object, h]
  cases refTarget root ref <;> simp

theorem validate_here (h : Value.strAt (.object entries) "$ref" = none) :
    validate X root (fuel + 1) (.object entries) v = true ↔
      typeOk (.object entries) v = true ∧ enumOk X (.object entries) v = true ∧
        requiredOk (.object entries) v = true ∧
        (∀ p ∈ parts (.object entries) v, validate X root fuel p.1 p.2 = true) ∧
        (∀ schemas, anyOf? (.object entries) = some schemas →
          ∃ s ∈ schemas, validate X root fuel s v = true) ∧
        ∀ schemas, oneOf? (.object entries) = some schemas →
          schemas.countP (validate X root fuel · v) = 1 := by
  simp only [validate_object, h, Bool.and_eq_true, List.all_eq_true, Option.all_eq_true, List.any_eq_true,
    decide_eq_true_eq, and_assoc]

theorem declares_ref {target : Value} (h : schema.strAt "$ref" = some ref)
    (htarget : refTarget root ref = some target) :
    declares X root (fuel + 1) schema v = declares X root fuel target v := by
  simp only [declares_succ, h, htarget]

theorem declares_here (h : schema.strAt "$ref" = none) :
    declares X root (fuel + 1) schema v = true ↔
      membersDeclared schema v = true ∧
        (∀ p ∈ parts schema v, declares X root fuel p.1 p.2 = true) ∧
        ∀ schemas, anyOf? schema = some schemas →
          ∀ s ∈ schemas, validate X root fuel s v = true → declares X root fuel s v = true := by
  simp only [declares_succ, h, Bool.and_eq_true, List.all_eq_true, Option.all_eq_true, Bool.or_eq_true,
    Bool.not_eq_true', and_assoc]
  simp only [← Bool.not_eq_true, imp_iff_not_or]

end Roots

/-! ### Unions of string constants -/

/-- A variant with none of the keywords that hold further schemas for a string. -/
def bare (schema : Value) : Bool :=
  (schema.get "$ref").isNone && (schema.arrayAt "allOf").isNone && (anyOf? schema).isNone &&
    (oneOf? schema).isNone

section Unions

variable {X : Crates} {root v : Value}

theorem validate_stringVariant {sub : Value} {a : String} (hbare : bare sub = true)
    (hvariant : stringVariant sub = some a) (fuel : Nat) :
    validate X root (fuel + 1) sub v = decide (v.asStr = some a) := by
  simp only [bare, Bool.and_eq_true, Option.isNone_iff_eq_none] at hbare
  obtain ⟨⟨⟨href, hall⟩, hany⟩, hone⟩ := hbare
  unfold stringVariant at hvariant
  split at hvariant
  swap
  · cases hvariant
  next htype =>
  split at hvariant
  swap
  · cases hvariant
  next x henum =>
  obtain ⟨t, ht, hstr⟩ := Option.bind_eq_some_iff.mp htype
  have htype : sub.get "type" = some (.string "string") := by
    cases t with
    | string s => rw [ht, Option.some.inj hstr]
    | _ => cases hstr
  have hx : x = .string a := by
    cases x with
    | string s => rw [Option.some.inj hvariant]
    | _ => cases hvariant
  subst hx
  obtain ⟨entries, rfl, -⟩ := get_mem ht
  have hnoref : Value.strAt (.object entries) "$ref" = none := by rw [Value.strAt, href]; rfl
  rw [Bool.eq_iff_iff, validate_here hnoref, decide_eq_true_eq]
  have hparts : ∀ b, parts (.object entries) (.string b) = [] := by
    intro b
    have hproperty : propertyParts (.object entries) (.string b) = [] := by
      unfold propertyParts
      split <;> rfl
    have hitem : itemParts (.object entries) (.string b) = [] := by
      unfold itemParts
      split
      · exact List.zip_nil_right
      · rfl
      · rfl
    rw [parts, hproperty, hitem, allOfParts, hall]
    rfl
  cases v with
  | string b =>
    have htext : (Value.string b).toText X = (Value.string a).toText X ↔ b = a := by
      rw [Value.toText, Value.toText, String.ofList_inj, Value.print, Value.print]
      refine ⟨fun h => ?_, fun h => by rw [h]⟩
      exact (quote_append_inj (r := []) (u := []) (by rw [h])).1
    have htypeOk : typeOk (.object entries) (.string b) = true := by
      rw [typeOk, htype]
      rfl
    have henumOk : enumOk X (.object entries) (.string b) = true ↔ b = a := by
      rw [enumOk, henum, List.contains_iff_mem, List.map_singleton, List.mem_singleton, htext]
    rw [hparts, hany, hone, henumOk, Value.asStr, Option.some.injEq]
    refine ⟨fun h => h.2.1, fun h => ⟨htypeOk, h, rfl, fun p hp => absurd hp List.not_mem_nil, ?_, ?_⟩⟩
    · intro schemas hschemas
      cases hschemas
    · intro schemas hschemas
      cases hschemas
  | _ =>
    rw [typeOk, htype]
    exact iff_of_false (fun h => Bool.false_ne_true h.1) (fun h => by cases h)

theorem countP_stringVariants {subs : List Value} {strings : List String}
    (hbare : ∀ sub ∈ subs, bare sub = true) (h : collectStringEnum subs = some strings) (fuel : Nat) :
    subs.countP (validate X root (fuel + 1) · v) =
      strings.countP fun a => decide (v.asStr = some a) := by
  induction subs generalizing strings with
  | nil =>
    cases h
    rfl
  | cons sub rest ih =>
    rw [collectStringEnum] at h
    split at h
    · next s strings' hs hrest =>
      cases h
      rw [List.countP_cons, List.countP_cons, ih (fun sub hsub => hbare sub (List.mem_cons_of_mem _ hsub)) hrest,
        validate_stringVariant (hbare sub List.mem_cons_self) hs]
    · cases h

/-- What is valid under a union of string constants is valid under one that has these and others, each once. -/
theorem countP_union {root' : Value} {subs subs' : List Value} {strings strings' : List String} {fuel : Nat}
    (hbare : ∀ sub ∈ subs, bare sub = true) (hbare' : ∀ sub ∈ subs', bare sub = true)
    (h : collectStringEnum subs = some strings) (h' : collectStringEnum subs' = some strings')
    (hsub : ∀ a ∈ strings, a ∈ strings') (hnodup : strings'.Nodup)
    (hone : subs.countP (validate X root fuel · v) = 1) :
    subs'.countP (validate X root' fuel · v) = 1 := by
  cases fuel with
  | zero =>
    have hzero : subs.countP (validate X root 0 · v) = 0 := by
      rw [List.countP_eq_zero]
      exact fun _ _ hfalse => Bool.false_ne_true hfalse
    rw [hzero] at hone
    cases hone
  | succ fuel =>
    rw [countP_stringVariants hbare h] at hone
    rw [countP_stringVariants hbare' h']
    obtain ⟨a, ha, hv⟩ := List.countP_pos_iff.mp (by rw [hone]; exact Nat.one_pos)
    rw [decide_eq_true_eq] at hv
    rw [hv]
    have hcount : strings'.countP (fun b => decide (some a = some b)) = strings'.count a := by
      rw [List.count]
      exact List.countP_congr fun b _ => by
        rw [decide_eq_true_eq, beq_iff_eq, Option.some.injEq, eq_comm]
    rw [hcount, List.count_eq_one_of_mem hnodup (hsub a ha)]

end Unions

end ActantDb
