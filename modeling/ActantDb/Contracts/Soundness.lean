import ActantDb.Contracts.Validation

/-!
# What the check promises

The comparison looks at a part of each schema it meets. Where the rest is the same in both schemas, and the unions are plain, a schema without violations accepts what its baseline accepts, as long as a value has no members but those the baseline declares: a property may be added, and what a value already has under its name is then held against it.
-/

namespace ActantDb

open Value

/-! ### What a comparison without violations says -/

theorem lookup_cons (e : String × Value) (rest : List (String × Value)) (name : String) :
    lookup (e :: rest) name = if e.1 = name then some e.2 else lookup rest name := by
  by_cases hname : e.1 = name <;> simp [lookup, Value.get, hname]

theorem objectAt_cons (e : String × Value) (rest : List (String × Value)) (key : String) :
    objectAt (.object (e :: rest)) key =
      if e.1 = key then e.2.entries? else objectAt (.object rest) key := by
  by_cases hkey : e.1 = key <;> simp [objectAt, Value.get, hkey]

section Compared

variable {X : Crates} {debug : String → String} {path : String} {s t : Value}

theorem compareScalarField_nil {field : String} {v : Value}
    (h : compareScalarField X path s t field = []) (hbase : s.get field = some v) :
    ∃ w, t.get field = some w ∧ w.same v = true := by
  simp only [compareScalarField, hbase] at h
  split at h
  · next w hcur =>
    split at h
    · next hsame => exact ⟨w, hcur, hsame⟩
    · cases h
  · cases h

theorem compareEnum_nil {field : String} {bases : List Value}
    (h : compareEnum X path s t field = []) (hbases : s.arrayAt field = some bases) :
    ∃ curs, t.arrayAt field = some curs ∧ ∀ v ∈ bases, v.toText X ∈ curs.map (·.toText X) := by
  rw [compareEnum, hbases] at h
  cases hcurs : t.arrayAt field with
  | none =>
    rw [hcurs] at h
    cases h
  | some curs =>
    simp only [hcurs, List.map_eq_nil_iff, List.filter_eq_nil_iff] at h
    exact ⟨curs, rfl, fun v hv => by simpa using h v hv⟩

theorem compareStringOneOf_nil {bases : List String}
    (h : compareStringOneOf debug path s t = []) (hbases : stringOneOfValues s = some bases) :
    ∃ curs, stringOneOfValues t = some curs ∧ ∀ a ∈ bases, a ∈ curs := by
  rw [compareStringOneOf, hbases] at h
  cases hcurs : stringOneOfValues t with
  | none =>
    rw [hcurs] at h
    cases h
  | some curs =>
    simp only [hcurs, List.map_eq_nil_iff, List.filter_eq_nil_iff] at h
    exact ⟨curs, rfl, fun a ha => by simpa using h a ha⟩

theorem compareRequired_nil (h : compareRequired debug path s t = []) :
    ∀ f ∈ stringArraySet (t.get "required"), f ∈ stringArraySet (s.get "required") := by
  intro f hf
  simp only [compareRequired, List.append_eq_nil_iff, List.map_eq_nil_iff,
    List.filter_eq_nil_iff] at h
  simpa using h.2 f hf

theorem compareEach_nil {kind name : String} {bases curs : List (String × Value)}
    (h : compareEach X debug path kind bases curs = []) (hbase : lookup bases name = some s) :
    ∃ t, lookup curs name = some t ∧ compareSchema X debug (path ++ "." ++ name) s t = [] := by
  induction bases with
  | nil => cases hbase
  | cons e rest ih =>
    rw [compareEach, List.append_eq_nil_iff] at h
    rw [lookup_cons] at hbase
    split at hbase
    · next hname =>
      have hs : e.2 = s := Option.some.inj hbase
      cases hcur : lookup curs e.1 with
      | none =>
        rw [hcur] at h
        exact absurd h.1 (List.cons_ne_nil _ _)
      | some t =>
        rw [hcur] at h
        rw [← hname, ← hs]
        exact ⟨t, hcur, h.1⟩
    · exact ih h.2 hbase

theorem compareUnder_nil {key kind : String} {base cur bases : List (String × Value)}
    (h : compareUnder X debug path key kind base cur = [])
    (hbases : objectAt (.object base) key = some bases) :
    ∃ curs, objectAt (.object cur) key = some curs ∧
      compareEach X debug (path ++ "." ++ key) kind bases curs = [] := by
  induction base with
  | nil => cases hbases
  | cons e rest ih =>
    rw [objectAt_cons] at hbases
    split at hbases
    · next hkey =>
      obtain ⟨k, v⟩ := e
      cases v with
      | object es =>
        cases hbases
        rw [compareUnder, if_pos hkey] at h
        cases hcurs : objectAt (.object cur) key with
        | none =>
          rw [hcurs] at h
          cases h
        | some curs =>
          rw [hcurs] at h
          exact ⟨curs, rfl, h⟩
      | _ => cases hbases
    · next hkey =>
      obtain ⟨k, v⟩ := e
      refine ih ?_ hbases
      cases v <;> simpa [compareUnder, hkey] using h

end Compared

/-! ### What the comparison does not look at -/

/-- The two schemas have the same value, or none, under this key. -/
def sameAt (s t : Value) (key : String) : Bool :=
  match s.get key, t.get key with
  | none, none => true
  | some v, some w => w.identical v
  | _, _ => false

def bareUnion (schema : Value) : Bool := ((oneOf? schema).getD []).all bare

/-- The keywords that are not compared here are the same: those the comparison never looks at, and those it looks at only where the baseline has them. Of a union of string constants it is asked that its variants have no other keywords and that none is repeated. -/
def uncomparedSame (s t : Value) : Bool :=
  ["items", "anyOf", "allOf"].all (sameAt s t) &&
    ((s.get "type").isSome || (t.get "type").isNone) &&
    ((s.get "$ref").isSome || (t.get "$ref").isNone) &&
    ((s.arrayAt "enum").isSome || (t.arrayAt "enum").isNone) &&
    ((s.objectAt "properties").isSome ||
      ((t.objectAt "properties").isNone && sameAt s t "required")) &&
    if (stringOneOfValues s).isSome then
      bareUnion s && bareUnion t && ((oneOf? t).bind collectStringEnum).all fun strings => strings.Nodup
    else sameAt s t "oneOf"

mutual

/-- The schemas are the same but for what the comparison looks at, wherever it goes. -/
def sameBeyond : Value → Value → Bool
  | .object base, current =>
    uncomparedSame (.object base) current &&
      sameBeyondUnder "properties" base ((current.objectAt "properties").getD []) &&
      sameBeyondUnder "definitions" base ((current.objectAt "definitions").getD [])
  | baseline, current => current.identical baseline

def sameBeyondUnder (key : String) : List (String × Value) → List (String × Value) → Bool
  | [], _ => true
  | (k, .object bases) :: rest, curs =>
    if k = key then sameBeyondEach bases curs else sameBeyondUnder key rest curs
  | (k, _) :: rest, curs => if k = key then true else sameBeyondUnder key rest curs

def sameBeyondEach : List (String × Value) → List (String × Value) → Bool
  | [], _ => true
  | (name, base) :: rest, curs =>
    (match lookup curs name with
      | some cur => sameBeyond base cur
      | none => true) && sameBeyondEach rest curs

end

section SameBeyond

variable {s t : Value}

theorem sameAt_eq {key : String} (h : sameAt s t key = true) : t.get key = s.get key := by
  unfold sameAt at h
  split at h
  · next hs ht => rw [hs, ht]
  · next v w hs ht => rw [hs, ht, eq_of_identical h]
  · cases h

theorem sameBeyondEach_lookup {name : String} {bases curs : List (String × Value)}
    (h : sameBeyondEach bases curs = true) (hbase : lookup bases name = some s)
    (hcur : lookup curs name = some t) : sameBeyond s t = true := by
  induction bases with
  | nil => cases hbase
  | cons e rest ih =>
    rw [sameBeyondEach, Bool.and_eq_true] at h
    rw [lookup_cons] at hbase
    split at hbase
    · next hname =>
      have hfirst := h.1
      rw [hname, hcur] at hfirst
      rw [← Option.some.inj hbase]
      exact hfirst
    · exact ih h.2 hbase

theorem sameBeyondUnder_objectAt {key : String} {base bases curs : List (String × Value)}
    (h : sameBeyondUnder key base curs = true) (hbases : objectAt (.object base) key = some bases) :
    sameBeyondEach bases curs = true := by
  induction base with
  | nil => cases hbases
  | cons e rest ih =>
    rw [objectAt_cons] at hbases
    split at hbases
    · next hkey =>
      obtain ⟨k, v⟩ := e
      cases v with
      | object es =>
        cases hbases
        rwa [sameBeyondUnder, if_pos hkey] at h
      | _ => cases hbases
    · next hkey =>
      obtain ⟨k, v⟩ := e
      refine ih ?_ hbases
      cases v <;> simpa [sameBeyondUnder, hkey] using h

end SameBeyond

/-! ### One schema after the other -/

section Evolves

variable (X : Crates) (debug : String → String)

/-- The current schema was compared with the baseline without a violation, or it is the same one. -/
def Evolves (s t : Value) : Prop :=
  t = s ∨ (∃ path, compareSchema X debug path s t = []) ∧ sameBeyond s t = true

variable {X debug} {s t v : Value} {base cur : List (String × Value)}

theorem evolves_object (h : Evolves X debug (.object base) t) : ∃ cur, t = .object cur := by
  obtain rfl | ⟨⟨path, hnone⟩, -⟩ := h
  · exact ⟨base, rfl⟩
  · cases t with
    | object cur => exact ⟨cur, rfl⟩
    | _ => simp [compareSchema] at hnone

theorem evolves_eq (h : Evolves X debug s t) (hs : s.entries? = none) : t = s := by
  obtain rfl | ⟨-, hbeyond⟩ := h
  · rfl
  · cases s with
    | object base => cases hs
    | _ => exact eq_of_identical hbeyond

/-- The parts of a comparison without violations. -/
structure Compatible (X : Crates) (debug : String → String) (path : String)
    (base cur : List (String × Value)) : Prop where
  type : compareScalarField X path (.object base) (.object cur) "type" = []
  ref : compareScalarField X path (.object base) (.object cur) "$ref" = []
  enum : compareEnum X path (.object base) (.object cur) "enum" = []
  oneOf : compareStringOneOf debug path (.object base) (.object cur) = []
  properties : compareUnder X debug path "properties" "property" base cur = []
  required : (objectAt (.object base) "properties").isSome →
    compareRequired debug path (.object base) (.object cur) = []
  definitions : compareUnder X debug path "definitions" "definition" base cur = []

theorem compareSchema_nil {path : String}
    (h : compareSchema X debug path (.object base) (.object cur) = []) :
    Compatible X debug path base cur := by
  simp only [compareSchema, List.append_eq_nil_iff] at h
  obtain ⟨⟨⟨⟨htype, href⟩, henum⟩, hone⟩, hrest⟩ := h
  split at hrest
  · cases hrest
  · simp only [List.append_eq_nil_iff] at hrest
    obtain ⟨⟨⟨hprops, hreq⟩, hdefs⟩, -⟩ := hrest
    refine ⟨htype, href, henum, hone, hprops, fun hsome => ?_, hdefs⟩
    rwa [if_pos hsome] at hreq

/-- `uncomparedSame`, key by key. -/
structure UncomparedSame (s t : Value) : Prop where
  at_key : ∀ key ∈ ["items", "anyOf", "allOf"], t.get key = s.get key
  type : s.get "type" = none → t.get "type" = none
  ref : s.get "$ref" = none → t.get "$ref" = none
  enum : s.arrayAt "enum" = none → t.arrayAt "enum" = none
  properties : s.objectAt "properties" = none → t.objectAt "properties" = none
  required : s.objectAt "properties" = none → t.get "required" = s.get "required"
  union : (stringOneOfValues s).isSome → bareUnion s = true ∧ bareUnion t = true ∧
    ∀ strings, (oneOf? t).bind collectStringEnum = some strings → strings.Nodup
  oneOf : ¬ (stringOneOfValues s).isSome → t.get "oneOf" = s.get "oneOf"

theorem uncomparedSame_fields (h : uncomparedSame s t = true) : UncomparedSame s t := by
  have hor : ∀ {α : Type} {o : Option α} {p : Prop}, (o.isSome = true ∨ p) ↔ (o = none → p) := by
    intro α o p
    cases o <;> simp
  simp only [uncomparedSame, Bool.and_eq_true, Bool.or_eq_true, hor, List.all_eq_true,
    Option.isNone_iff_eq_none] at h
  obtain ⟨⟨⟨⟨⟨hkeys, htype⟩, href⟩, henum⟩, hprops⟩, hunion⟩ := h
  refine ⟨fun key hkey => sameAt_eq (hkeys key hkey), htype, href, henum, fun hs => (hprops hs).1,
    fun hs => sameAt_eq (hprops hs).2, fun hs => ?_, fun hs => ?_⟩
  · rw [if_pos hs] at hunion
    simpa only [Bool.and_eq_true, Option.all_eq_true, decide_eq_true_eq, and_assoc] using hunion
  · rw [if_neg hs] at hunion
    exact sameAt_eq hunion

theorem sameBeyond_object (h : sameBeyond (.object base) t = true) :
    UncomparedSame (.object base) t ∧
      sameBeyondUnder "properties" base ((t.objectAt "properties").getD []) = true ∧
      sameBeyondUnder "definitions" base ((t.objectAt "definitions").getD []) = true := by
  rw [sameBeyond, Bool.and_eq_true, Bool.and_eq_true] at h
  exact ⟨uncomparedSame_fields h.1.1, h.1.2, h.2⟩

/-- What is held under a key of both schemas was compared name by name. -/
theorem evolves_lookup {path key kind name : String} {bases : List (String × Value)}
    (hnone : compareUnder X debug path key kind base cur = [])
    (hbeyond : sameBeyondUnder key base ((objectAt (.object cur) key).getD []) = true)
    (hbases : objectAt (.object base) key = some bases) (hs : lookup bases name = some s) :
    ∃ curs t, objectAt (.object cur) key = some curs ∧ lookup curs name = some t ∧
      Evolves X debug s t := by
  obtain ⟨curs, hcurs, heach⟩ := compareUnder_nil hnone hbases
  obtain ⟨t, ht, hcompared⟩ := compareEach_nil heach hs
  rw [hcurs] at hbeyond
  have hsame := sameBeyondEach_lookup (sameBeyondUnder_objectAt hbeyond hbases) hs ht
  exact ⟨curs, t, hcurs, ht, Or.inr ⟨⟨_, hcompared⟩, hsame⟩⟩

theorem asStr_some {a : String} (h : v.asStr = some a) : v = .string a := by
  cases v with
  | string s => rw [Option.some.inj h]
  | _ => cases h

theorem typeOk_of_same {w w' : Value} (hs : s.get "type" = some w) (ht : t.get "type" = some w')
    (hsame : w'.same w = true) : typeOk t v = typeOk s v := by
  have hitems : ∀ {vs ws : List Value}, sameItems Number.same ws vs = true →
      (ws.any fun t => t.asStr.any (hasType · v)) = vs.any fun t => t.asStr.any (hasType · v) := by
    intro vs ws h
    induction ws generalizing vs with
    | nil =>
      cases vs with
      | nil => rfl
      | cons => cases h
    | cons w ws ih =>
      cases vs with
      | nil => cases h
      | cons v' vs =>
        obtain ⟨hfirst, hrest⟩ := Bool.and_eq_true_iff.mp h
        rw [List.any_cons, List.any_cons, ih hrest, asStr_of_same hfirst]
  rw [typeOk, typeOk, hs, ht]
  cases w' with
  | string a => rw [asStr_some (asStr_of_same hsame).symm]
  | array ws =>
    cases w with
    | array vs => exact hitems hsame
    | _ => cases hsame
  | _ => cases w <;> first | rfl | cases hsame

theorem evolves_typeOk (h : Evolves X debug (.object base) (.object cur)) :
    typeOk (.object cur) v = typeOk (.object base) v := by
  obtain heq | ⟨⟨path, hnone⟩, hbeyond⟩ := h
  · rw [heq]
  have hsame := (sameBeyond_object hbeyond).1
  cases hs : Value.get (.object base) "type" with
  | none => rw [typeOk, typeOk, hs, hsame.type hs]
  | some w =>
    obtain ⟨w', hcur, heq⟩ := compareScalarField_nil (compareSchema_nil hnone).type hs
    exact typeOk_of_same hs hcur heq

theorem evolves_ref (h : Evolves X debug (.object base) (.object cur)) :
    strAt (.object cur) "$ref" = strAt (.object base) "$ref" := by
  obtain heq | ⟨⟨path, hnone⟩, hbeyond⟩ := h
  · rw [heq]
  have hsame := (sameBeyond_object hbeyond).1
  cases hs : Value.get (.object base) "$ref" with
  | none => rw [strAt, strAt, hs, hsame.ref hs]
  | some w =>
    obtain ⟨w', hcur, heq⟩ := compareScalarField_nil (compareSchema_nil hnone).ref hs
    rw [strAt, strAt, hs, hcur]
    exact asStr_of_same heq

theorem evolves_enumOk (h : Evolves X debug (.object base) (.object cur))
    (hok : enumOk X (.object base) v = true) : enumOk X (.object cur) v = true := by
  obtain heq | ⟨⟨path, hnone⟩, hbeyond⟩ := h
  · rwa [heq]
  have hsame := (sameBeyond_object hbeyond).1
  cases hs : arrayAt (.object base) "enum" with
  | none => rw [enumOk, hsame.enum hs]
  | some bases =>
    obtain ⟨curs, hcurs, hsub⟩ := compareEnum_nil (compareSchema_nil hnone).enum hs
    rw [enumOk, hs, List.contains_iff_mem] at hok
    obtain ⟨w, hw, htext⟩ := List.mem_map.mp hok
    rw [enumOk, hcurs, List.contains_iff_mem, ← htext]
    exact hsub w hw

theorem evolves_requiredOk (h : Evolves X debug (.object base) (.object cur))
    (hok : requiredOk (.object base) v = true) : requiredOk (.object cur) v = true := by
  obtain heq | ⟨⟨path, hnone⟩, hbeyond⟩ := h
  · rwa [heq]
  have hsame := (sameBeyond_object hbeyond).1
  cases v with
  | object entries =>
    rw [requiredOk, List.all_eq_true] at hok ⊢
    intro f hf
    apply hok
    cases hs : objectAt (.object base) "properties" with
    | none => rwa [hsame.required hs] at hf
    | some props =>
      have hreq := (compareSchema_nil hnone).required (by rw [hs]; rfl)
      exact compareRequired_nil hreq f hf
  | _ => rfl

/-- Each part has its part in the baseline, when every member is declared there. -/
theorem evolves_parts {p : Value × Value} (h : Evolves X debug (.object base) (.object cur))
    (hmembers : membersDeclared (.object base) v = true) (hp : p ∈ parts (.object cur) v) :
    ∃ s, (s, p.2) ∈ parts (.object base) v ∧ Evolves X debug s p.1 := by
  obtain heq | ⟨⟨path, hnone⟩, hbeyond⟩ := h
  · exact ⟨p.1, heq ▸ hp, Or.inl rfl⟩
  obtain ⟨hsame, hprops, -⟩ := sameBeyond_object hbeyond
  have hitems : itemParts (.object cur) v = itemParts (.object base) v := by
    rw [itemParts, itemParts, hsame.at_key "items" (by simp)]
  have hall : allOfParts (.object cur) v = allOfParts (.object base) v := by
    rw [allOfParts, allOfParts, arrayAt, arrayAt, hsame.at_key "allOf" (by simp)]
  simp only [parts, hitems, hall, List.mem_append] at hp ⊢
  obtain (hp | hp) | hp := hp
  · rw [propertyParts] at hp
    cases hbases : objectAt (.object base) "properties" with
    | none =>
      rw [hsame.properties hbases] at hp
      cases hp
    | some props =>
      rw [membersDeclared, hbases, List.all_eq_true] at hmembers
      cases hcurs : objectAt (.object cur) "properties" with
      | none =>
        rw [hcurs] at hp
        cases hp
      | some curs =>
        rw [hcurs] at hp
        obtain ⟨m, hm, hsub⟩ := List.mem_filterMap.mp hp
        obtain ⟨t, ht, rfl⟩ := Option.map_eq_some_iff.mp hsub
        obtain ⟨s, hs⟩ := Option.isSome_iff_exists.mp (hmembers m hm)
        obtain ⟨curs', t', hcurs', ht', hext⟩ :=
          evolves_lookup (compareSchema_nil hnone).properties hprops hbases hs
        rw [hcurs, Option.some.injEq] at hcurs'
        subst hcurs'
        rw [ht, Option.some.injEq] at ht'
        subst ht'
        refine ⟨s, Or.inl (Or.inl ?_), hext⟩
        rw [propertyParts, hbases]
        exact List.mem_filterMap.mpr ⟨m, hm, by rw [hs]; rfl⟩
  · exact ⟨p.1, Or.inl (Or.inr hp), Or.inl rfl⟩
  · exact ⟨p.1, Or.inr hp, Or.inl rfl⟩

theorem evolves_anyOf (h : Evolves X debug (.object base) (.object cur)) :
    anyOf? (.object cur) = anyOf? (.object base) := by
  obtain heq | ⟨-, hbeyond⟩ := h
  · rw [heq]
  rw [anyOf?, anyOf?, arrayAt, arrayAt, (sameBeyond_object hbeyond).1.at_key "anyOf" (by simp)]

/-- A union that is no union of string constants is the same one; of the other kind it may have grown. -/
theorem evolves_oneOf {root root' : Value} {fuel : Nat}
    (h : Evolves X debug (.object base) (.object cur)) (hclosed : closedUnions (.object base) = true)
    (hone : ∀ schemas, oneOf? (.object base) = some schemas →
      schemas.countP (validate X root fuel · v) = 1) {schemas : List Value}
    (hschemas : oneOf? (.object cur) = some schemas) :
    schemas.countP (validate X root' fuel · v) = 1 := by
  have hsame : oneOf? (.object cur) = oneOf? (.object base) →
      schemas.countP (validate X root' fuel · v) = 1 := by
    intro heq
    have hbase : oneOf? (.object base) = some schemas := by rw [← heq, hschemas]
    have hfree := (closedUnions_get hclosed (arrayAt_eq hbase)).1 rfl
    rw [← hone schemas hbase]
    exact List.countP_congr fun sub hsub => by rw [validate_refFree fuel (refFree_mem hfree hsub)]
  obtain heq | ⟨⟨path, hnone⟩, hbeyond⟩ := h
  · exact hsame (by rw [heq])
  have huncompared := (sameBeyond_object hbeyond).1
  by_cases hsome : (stringOneOfValues (.object base)).isSome
  · obtain ⟨hbare, hbare', hnodup⟩ := huncompared.union hsome
    obtain ⟨bases, hbases⟩ := Option.isSome_iff_exists.mp hsome
    obtain ⟨curs, hcurs, hsub⟩ := compareStringOneOf_nil (compareSchema_nil hnone).oneOf hbases
    obtain ⟨strings, hstrings, rfl⟩ := Option.map_eq_some_iff.mp hbases
    obtain ⟨subs, hsubs, hstrings⟩ := Option.bind_eq_some_iff.mp hstrings
    obtain ⟨strings', hstrings', rfl⟩ := Option.map_eq_some_iff.mp hcurs
    have hstrings'' : collectStringEnum schemas = some strings' := by
      obtain ⟨subs', hsubs', h'⟩ := Option.bind_eq_some_iff.mp hstrings'
      rw [oneOf?, hsubs', Option.some.injEq] at hschemas
      rw [← hschemas, h']
    rw [bareUnion, oneOf?, hsubs, Option.getD_some, List.all_eq_true] at hbare
    rw [bareUnion, hschemas, Option.getD_some, List.all_eq_true] at hbare'
    refine countP_union hbare hbare' hstrings hstrings'' ?_ (hnodup strings' hstrings')
      (hone subs hsubs)
    exact fun a ha => mem_sortedSet.mp (hsub a (mem_sortedSet.mpr ha))
  · exact hsame (by rw [oneOf?, oneOf?, arrayAt, arrayAt, huncompared.oneOf hsome])

/-! ### The whole schema -/

theorem evolves_refTarget {root root' target : Value} {ref : String} (h : Evolves X debug root root')
    (hclosed : closedUnions root = true) (htarget : refTarget root ref = some target) :
    ∃ target', refTarget root' ref = some target' ∧ Evolves X debug target target' ∧
      closedUnions target = true := by
  rw [refTarget] at htarget
  split at htarget
  · next hlocal =>
    obtain ⟨defs, hdefs, hlookup⟩ := Option.bind_eq_some_iff.mp htarget
    have hclosed' : closedUnions target = true :=
      (closedUnions_get (closedUnions_get hclosed (objectAt_eq hdefs)).2 hlookup).2
    obtain heq | ⟨⟨path, hnone⟩, hbeyond⟩ := h
    · exact ⟨target, by rw [heq, refTarget, if_pos hlocal, hdefs]; exact hlookup, Or.inl rfl, hclosed'⟩
    · obtain ⟨base, rfl, -⟩ := get_mem (objectAt_eq hdefs)
      obtain ⟨cur, rfl⟩ := evolves_object (Or.inr ⟨⟨path, hnone⟩, hbeyond⟩)
      obtain ⟨curs, target', hcurs, hlookup', hext⟩ :=
        evolves_lookup (compareSchema_nil hnone).definitions (sameBeyond_object hbeyond).2.2 hdefs hlookup
      exact ⟨target', by rw [refTarget, if_pos hlocal, hcurs]; exact hlookup', hext, hclosed'⟩
  · cases htarget

/-- By induction on the fuel: the parts of a value at one level, then the value. -/
theorem validate_evolves {root root' : Value} (hroot : Evolves X debug root root')
    (hrootClosed : closedUnions root = true) (fuel : Nat) (h : Evolves X debug s t)
    (hclosed : closedUnions s = true) (hvalid : validate X root fuel s v = true)
    (hdeclares : declares X root fuel s v = true) : validate X root' fuel t v = true := by
  induction fuel generalizing s t v with
  | zero => cases hvalid
  | succ fuel ih =>
    cases s with
    | object base =>
      obtain ⟨cur, rfl⟩ := evolves_object h
      cases href : strAt (.object base) "$ref" with
      | some ref =>
        obtain ⟨target, htarget, hv⟩ := (validate_ref href).mp hvalid
        obtain ⟨target', htarget', hext, htargetClosed⟩ :=
          evolves_refTarget hroot hrootClosed htarget
        rw [declares_ref href htarget] at hdeclares
        refine (validate_ref ((evolves_ref h).trans href)).mpr ⟨target', htarget', ?_⟩
        exact ih hext htargetClosed hv hdeclares
      | none =>
        obtain ⟨htype, henum, hrequired, hparts, hany, hone⟩ := (validate_here href).mp hvalid
        obtain ⟨hmembers, hpartsDeclare, hanyDeclare⟩ := (declares_here href).mp hdeclares
        refine (validate_here ((evolves_ref h).trans href)).mpr
          ⟨(evolves_typeOk h).trans htype, evolves_enumOk h henum, evolves_requiredOk h hrequired,
            fun p hp => ?_, fun schemas hschemas => ?_,
            fun schemas => evolves_oneOf h hclosed hone⟩
        · obtain ⟨s, hs, hext⟩ := evolves_parts h hmembers hp
          exact ih hext (parts_closedUnions hs hclosed) (hparts _ hs) (hpartsDeclare _ hs)
        · rw [evolves_anyOf h] at hschemas
          obtain ⟨s, hs, hv⟩ := hany schemas hschemas
          have hsClosed := closedUnions_mem (closedUnions_get hclosed (arrayAt_eq hschemas)).2 hs
          exact ⟨s, hs, ih (Or.inl rfl) hsClosed hv (hanyDeclare schemas hschemas s hs hv)⟩
    | _ =>
      rw [evolves_eq h rfl]
      exact hvalid

end Evolves

/-- For every exported type whose schemas are the same beyond what is compared. -/
theorem compatibilityViolations_sound (X : Crates) (debug : String → String)
    {baseline current base : Value} {name : String}
    (h : compatibilityViolations X debug baseline current = [])
    (hbase : baseline.get name = some base) :
    ∃ cur, current.get name = some cur ∧
      (sameBeyond base cur = true → closedUnions base = true →
        ∀ v, ValidUnder X base base v → Declared X base base v → ValidUnder X cur cur v) := by
  obtain ⟨types, rfl, -⟩ := get_mem hbase
  cases current with
  | object curTypes =>
    obtain ⟨cur, hcur, hnone⟩ := compareEach_nil h hbase
    refine ⟨cur, hcur, fun hbeyond hclosed v hvalid hdeclared => ?_⟩
    obtain ⟨least, hleast⟩ := hvalid
    obtain ⟨least', hleast'⟩ := hdeclared
    have hext : Evolves X debug base cur := Or.inr ⟨⟨_, hnone⟩, hbeyond⟩
    refine ⟨max least least', fun fuel hfuel => ?_⟩
    exact validate_evolves hext hclosed fuel hext hclosed
      (hleast fuel (le_of_max_le_left hfuel)) (hleast' fuel (le_of_max_le_right hfuel))
  | _ => simp [compatibilityViolations] at h

/-! ### A type that grows -/

section Growth

/-- `{:?}` of a string without characters to escape. -/
def quoted (s : String) : String := "\"" ++ s ++ "\""

def stringSchema (values : List String) : Value :=
  .object [("enum", .array (values.map .string)), ("type", .string "string")]

/-- An object with an `id`, a `kind` among these, and the properties added to it. -/
def thingSchema (kinds : List String) (added : List (String × Value)) : Value :=
  .object
    [("definitions", .object [("Kind", stringSchema kinds)]),
      ("properties", .object
        ([("id", .object [("type", .string "string")]),
          ("kind", .object [("$ref", .string "#/definitions/Kind")])] ++ added)),
      ("required", .array [.string "id"]), ("type", .string "object")]

def thingBaseline : Value := thingSchema ["note"] []

/-- One kind more, and an optional `label`. -/
def thingCurrent : Value :=
  thingSchema ["note", "task"] [("label", .object [("type", .string "string")])]

theorem compatibilityViolations_thing :
    compatibilityViolations Crates.sample quoted (.object [("Thing", thingBaseline)])
      (.object [("Thing", thingCurrent)]) = [] := rfl

theorem of_three {p : Nat → Prop} (h : ∀ k, p (k + 3)) : ∃ least, ∀ fuel ≥ least, p fuel := by
  refine ⟨3, fun fuel hfuel => ?_⟩
  obtain ⟨k, rfl⟩ := Nat.exists_eq_add_of_le' hfuel
  exact h k

theorem compatibilityViolations_sound_thing :
    ValidUnder Crates.sample thingCurrent thingCurrent
      (.object [("id", .string "x"), ("kind", .string "note")]) := by
  have hbase : Value.get (.object [("Thing", thingBaseline)]) "Thing" = some thingBaseline := rfl
  obtain ⟨cur, hcur, hsound⟩ :=
    compatibilityViolations_sound Crates.sample quoted compatibilityViolations_thing hbase
  have hthing : cur = thingCurrent := (Option.some.inj hcur).symm
  rw [hthing] at hsound
  have hbeyond : sameBeyond thingBaseline thingCurrent = true := rfl
  have hclosed : closedUnions thingBaseline = true := rfl
  exact hsound hbeyond hclosed _ (of_three fun _ => rfl) (of_three fun _ => rfl)

/-- No violation, and a value that only the baseline accepts. -/
def Breaks (base cur v : Value) : Prop :=
  compatibilityViolations Crates.sample quoted (.object [("Thing", base)])
      (.object [("Thing", cur)]) = [] ∧
    ValidUnder Crates.sample base base v ∧ ¬ ValidUnder Crates.sample cur cur v

theorem breaks_of_three {base cur v : Value}
    (hnone : compatibilityViolations Crates.sample quoted (.object [("Thing", base)])
      (.object [("Thing", cur)]) = [])
    (hvalid : ∀ k, validate Crates.sample base (k + 3) base v = true)
    (hinvalid : ∀ k, validate Crates.sample cur (k + 3) cur v = false) : Breaks base cur v := by
  refine ⟨hnone, of_three hvalid, ?_⟩
  rintro ⟨least, hleast⟩
  have htrue := hleast (least + 3) (Nat.le_add_right _ _)
  rw [hinvalid] at htrue
  cases htrue

def listSchema (item : String) : Value :=
  .object [("items", .object [("type", .string item)]), ("type", .string "array")]

/-- One of two references, to string enumerations with these values. -/
def unionSchema (left right : List String) : Value :=
  .object
    [("definitions", .object [("Left", stringSchema left), ("Right", stringSchema right)]),
      ("oneOf", .array [.object [("$ref", .string "#/definitions/Left")],
        .object [("$ref", .string "#/definitions/Right")]])]

/-- A `label` that the baseline says nothing about need not be a string; the items of an array are not compared; and an enumeration that grows may come to overlap with another one. -/
theorem compatible_breaks :
    Breaks thingBaseline thingCurrent (.object [("id", .string "x"), ("label", .number (.posInt 3))]) ∧
      Breaks (listSchema "string") (listSchema "integer") (.array [.string "x"]) ∧
      Breaks (unionSchema ["a"] ["b"]) (unionSchema ["a", "b"] ["b"]) (.string "b") := by
  refine ⟨?_, ?_, ?_⟩
  · exact breaks_of_three compatibilityViolations_thing (fun _ => rfl) fun _ => rfl
  · exact breaks_of_three rfl (fun _ => rfl) fun _ => rfl
  · exact breaks_of_three rfl (fun _ => rfl) fun _ => rfl

end Growth

end ActantDb
