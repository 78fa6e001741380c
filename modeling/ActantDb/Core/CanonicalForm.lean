import ActantDb.Core.ValueText
import ActantDb.Ledger.KeyOrder

/-!
# Canonical JSON as a form

Two values have one canonical text exactly when they differ in the order of object entries only, at any depth. When the text is parsed and made canonical again it is the same text for the values that the parser reads back: it refuses a text that is nested deeper than its limit, and it reads a float with the precision that is its default, in which some floats of seventeen digits come back as their neighbour.
-/

namespace ActantDb

namespace Value

/-- Equal up to the order of object entries, at every depth: the least equivalence that permutes the entries of an object and goes into items and values. -/
inductive Reordered : Value → Value → Prop
  | refl (v : Value) : Reordered v v
  | symm {v w : Value} (h : Reordered v w) : Reordered w v
  | trans {u v w : Value} (h : Reordered u v) (h' : Reordered v w) : Reordered u w
  | item {v w : Value} (pre post : List Value) (h : Reordered v w) :
      Reordered (.array (pre ++ v :: post)) (.array (pre ++ w :: post))
  | value {v w : Value} (pre post : List (String × Value)) (key : String) (h : Reordered v w) :
      Reordered (.object (pre ++ (key, v) :: post)) (.object (pre ++ (key, w) :: post))
  | perm {entries entries' : List (String × Value)} (h : entries.Perm entries') :
      Reordered (.object entries) (.object entries')

/-- Arrays and objects within each other to this depth at most. -/
inductive NestedTo : Nat → Value → Prop
  | null (n : Nat) : NestedTo n .null
  | bool (n : Nat) (b : Bool) : NestedTo n (.bool b)
  | number (n : Nat) (x : Number) : NestedTo n (.number x)
  | string (n : Nat) (s : String) : NestedTo n (.string s)
  | array {n : Nat} {items : List Value} (h : ∀ v ∈ items, NestedTo n v) : NestedTo (n + 1) (.array items)
  | object {n : Nat} {entries : List (String × Value)} (h : ∀ e ∈ entries, NestedTo n e.2) :
      NestedTo (n + 1) (.object entries)

/-- The float occurs in the value. -/
inductive HasFloat (x : F64) : Value → Prop
  | float : HasFloat x (.number (.float x))
  | item {v : Value} {items : List Value} (hv : v ∈ items) (h : HasFloat x v) : HasFloat x (.array items)
  | value {e : String × Value} {entries : List (String × Value)} (he : e ∈ entries) (h : HasFloat x e.2) :
      HasFloat x (.object entries)

mutual

/-- Each float replaced. -/
def mapFloats (r : F64 → F64) : Value → Value
  | .null => .null
  | .bool b => .bool b
  | .number (.float x) => .number (.float (r x))
  | .number n => .number n
  | .string s => .string s
  | .array items => .array (mapFloatsItems r items)
  | .object entries => .object (mapFloatsEntries r entries)

def mapFloatsItems (r : F64 → F64) : List Value → List Value
  | [] => []
  | v :: rest => mapFloats r v :: mapFloatsItems r rest

def mapFloatsEntries (r : F64 → F64) : List (String × Value) → List (String × Value)
  | [] => []
  | (key, v) :: rest => (key, mapFloats r v) :: mapFloatsEntries r rest

end

/-! ### Item by item -/

variable {v w : Value} {items : List Value} {entries entries' : List (String × Value)} {r : F64 → F64}

theorem canonicalize_array (items : List Value) : canonicalize (.array items) = .array (items.map canonicalize) := by
  have hitems : canonicalizeItems items = items.map canonicalize := by
    induction items with
    | nil => rfl
    | cons v rest ih => rw [canonicalizeItems, ih, List.map_cons]
  rw [canonicalize, hitems]

theorem canonicalize_object (entries : List (String × Value)) :
    canonicalize (.object entries) = .object (collectEntries (entries.map fun e => (e.1, canonicalize e.2))) := by
  have hentries : canonicalizeEntries entries = entries.map fun e => (e.1, canonicalize e.2) := by
    induction entries with
    | nil => rfl
    | cons e rest ih => rw [canonicalizeEntries, ih, List.map_cons]
  rw [canonicalize, hentries]

theorem mapFloats_array (items : List Value) : mapFloats r (.array items) = .array (items.map (mapFloats r)) := by
  have hitems : mapFloatsItems r items = items.map (mapFloats r) := by
    induction items with
    | nil => rfl
    | cons v rest ih => rw [mapFloatsItems, ih, List.map_cons]
  rw [mapFloats, hitems]

theorem mapFloats_object (entries : List (String × Value)) :
    mapFloats r (.object entries) = .object (entries.map fun e => (e.1, mapFloats r e.2)) := by
  have hentries : mapFloatsEntries r entries = entries.map fun e => (e.1, mapFloats r e.2) := by
    induction entries with
    | nil => rfl
    | cons e rest ih => rw [mapFloatsEntries, ih, List.map_cons]
  rw [mapFloats, hentries]

theorem nestedTo_array {n : Nat} : NestedTo n (.array items) ↔ ∃ m, n = m + 1 ∧ ∀ v ∈ items, NestedTo m v := by
  constructor
  · intro h
    cases h with
    | array h => exact ⟨_, rfl, h⟩
  · rintro ⟨m, rfl, h⟩
    exact .array h

theorem nestedTo_object {n : Nat} :
    NestedTo n (.object entries) ↔ ∃ m, n = m + 1 ∧ ∀ e ∈ entries, NestedTo m e.2 := by
  constructor
  · intro h
    cases h with
    | object h => exact ⟨_, rfl, h⟩
  · rintro ⟨m, rfl, h⟩
    exact .object h

theorem hasFloat_array {x : F64} : HasFloat x (.array items) ↔ ∃ v ∈ items, HasFloat x v :=
  ⟨fun h => by cases h with | item hv h => exact ⟨_, hv, h⟩, fun ⟨_, hv, h⟩ => .item hv h⟩

theorem hasFloat_object {x : F64} : HasFloat x (.object entries) ↔ ∃ e ∈ entries, HasFloat x e.2 :=
  ⟨fun h => by cases h with | value he h => exact ⟨_, he, h⟩, fun ⟨_, he, h⟩ => .value he h⟩

/-! ### What reordering keeps -/

theorem Reordered.wellFormed_iff (h : Reordered v w) : v.WellFormed ↔ w.WellFormed := by
  induction h with
  | refl v => rfl
  | symm _ ih => exact ih.symm
  | trans _ _ ih ih' => exact ih.trans ih'
  | item pre post _ ih =>
    rw [wellFormed_array, wellFormed_array, List.forall_mem_append, List.forall_mem_append, List.forall_mem_cons,
      List.forall_mem_cons, ih]
  | value pre post key _ ih =>
    rw [wellFormed_object, wellFormed_object, List.forall_mem_append, List.forall_mem_append, List.forall_mem_cons,
      List.forall_mem_cons, ih, List.map_append, List.map_append, List.map_cons, List.map_cons]
  | perm h =>
    rw [wellFormed_object, wellFormed_object, (h.map Prod.fst).nodup_iff]
    exact and_congr_right fun _ => forall_congr' fun e => imp_congr_left h.mem_iff

theorem Reordered.nestedTo_iff (h : Reordered v w) : ∀ n, NestedTo n v ↔ NestedTo n w := by
  induction h with
  | refl v => exact fun _ => Iff.rfl
  | symm _ ih => exact fun n => (ih n).symm
  | trans _ _ ih ih' => exact fun n => (ih n).trans (ih' n)
  | item pre post _ ih =>
    intro n
    simp only [nestedTo_array, List.forall_mem_append, List.forall_mem_cons, ih]
  | value pre post key _ ih =>
    intro n
    simp only [nestedTo_object, List.forall_mem_append, List.forall_mem_cons, ih]
  | perm h =>
    intro n
    simp only [nestedTo_object, h.mem_iff]

theorem Reordered.hasFloat_iff (h : Reordered v w) (x : F64) : HasFloat x v ↔ HasFloat x w := by
  induction h with
  | refl v => rfl
  | symm _ ih => exact ih.symm
  | trans _ _ ih ih' => exact ih.trans ih'
  | item pre post _ ih =>
    simp only [hasFloat_array, List.mem_append, List.mem_cons, or_and_right, exists_or, exists_eq_left, ih]
  | value pre post key _ ih =>
    simp only [hasFloat_object, List.mem_append, List.mem_cons, or_and_right, exists_or, exists_eq_left, ih]
  | perm h => simp only [hasFloat_object, h.mem_iff]

/-- Entries in another order are collected in the same one. -/
theorem collectEntries_congr (hkeys : (entries.map Prod.fst).Nodup) (h : entries.Perm entries') :
    collectEntries entries = collectEntries entries' := by
  have hkeys' : (entries'.map Prod.fst).Nodup := (h.map Prod.fst).nodup_iff.mp hkeys
  have hperm := (collectEntries_perm hkeys).trans (h.trans (collectEntries_perm hkeys').symm)
  refine List.Perm.eq_of_pairwise (fun a b _ _ hab hba => ?_) (List.pairwise_map.mp (pairwise_collectEntries entries))
    (List.pairwise_map.mp (pairwise_collectEntries entries')) hperm
  exact absurd hab (lt_asymm hba)

theorem map_fst_map (f : Value → Value) (entries : List (String × Value)) :
    (entries.map fun e => (e.1, f e.2)).map Prod.fst = entries.map Prod.fst := by
  rw [List.map_map]
  rfl

theorem Reordered.canonicalize_eq (h : Reordered v w) (hv : v.WellFormed) : v.canonicalize = w.canonicalize := by
  induction h with
  | refl v => rfl
  | symm h ih => exact (ih (h.wellFormed_iff.mpr hv)).symm
  | trans h _ ih ih' => exact (ih hv).trans (ih' (h.wellFormed_iff.mp hv))
  | item pre post _ ih =>
    have hitem := wellFormed_array.mp hv _ (List.mem_append_right pre List.mem_cons_self)
    rw [canonicalize_array, canonicalize_array, List.map_append, List.map_append, List.map_cons, List.map_cons, ih hitem]
  | value pre post key _ ih =>
    have hvalue := (wellFormed_object.mp hv).2 _ (List.mem_append_right pre List.mem_cons_self)
    rw [canonicalize_object, canonicalize_object, List.map_append, List.map_append, List.map_cons, List.map_cons,
      ih hvalue]
  | perm h =>
    rw [canonicalize_object, canonicalize_object]
    have hkeys := (wellFormed_object.mp hv).1
    rw [collectEntries_congr (by rwa [map_fst_map]) (h.map fun e => (e.1, canonicalize e.2))]

/-! ### The canonical value -/

theorem reordered_items {f : Value → Value} (h : ∀ v ∈ items, Reordered v (f v)) (pre : List Value) :
    Reordered (.array (pre ++ items)) (.array (pre ++ items.map f)) := by
  induction items generalizing pre with
  | nil => exact .refl _
  | cons v rest ih =>
    have hfirst := Reordered.item pre rest (h v List.mem_cons_self)
    have hrest := ih (fun v hv => h v (List.mem_cons_of_mem _ hv)) (pre ++ [f v])
    rw [List.append_assoc, List.append_assoc] at hrest
    exact hfirst.trans hrest

theorem reordered_entries {f : Value → Value} (h : ∀ e ∈ entries, Reordered e.2 (f e.2))
    (pre : List (String × Value)) :
    Reordered (.object (pre ++ entries)) (.object (pre ++ entries.map fun e => (e.1, f e.2))) := by
  induction entries generalizing pre with
  | nil => exact .refl _
  | cons e rest ih =>
    have hfirst := Reordered.value pre rest e.1 (h e List.mem_cons_self)
    have hrest := ih (fun e he => h e (List.mem_cons_of_mem _ he)) (pre ++ [(e.1, f e.2)])
    rw [List.append_assoc, List.append_assoc] at hrest
    exact hfirst.trans hrest

/-- The canonical value is the value, its entries reordered. -/
theorem reordered_canonicalize (hv : v.WellFormed) : Reordered v v.canonicalize := by
  induction hv with
  | null => exact .refl _
  | bool b => exact .refl _
  | number _ => exact .refl _
  | string s => exact .refl _
  | array _ ih =>
    rw [canonicalize_array]
    exact reordered_items ih []
  | object hkeys _ ih =>
    rw [canonicalize_object]
    have hkeys' := (map_fst_map canonicalize _).symm ▸ hkeys
    exact (reordered_entries ih []).trans (.perm (collectEntries_perm hkeys').symm)

theorem canonicalize_eq_iff (hv : v.WellFormed) (hw : w.WellFormed) :
    v.canonicalize = w.canonicalize ↔ Reordered v w := by
  constructor
  · intro h
    exact (reordered_canonicalize hv).trans (h ▸ (reordered_canonicalize hw).symm)
  · intro h
    exact h.canonicalize_eq hv

/-! ### Floats read back -/

theorem canonicalize_mapFloats (hv : v.WellFormed) : (v.mapFloats r).canonicalize = v.canonicalize.mapFloats r := by
  induction hv with
  | null => rfl
  | bool b => rfl
  | @number n _ => cases n <;> rfl
  | string s => rfl
  | array _ ih =>
    rw [mapFloats_array, canonicalize_array, canonicalize_array, mapFloats_array, List.map_map, List.map_map]
    exact congrArg Value.array (List.map_congr_left ih)
  | object _ _ ih =>
    rw [mapFloats_object, canonicalize_object, canonicalize_object, mapFloats_object, ← collectEntries_map,
      List.map_map, List.map_map]
    refine congrArg (fun entries => Value.object (collectEntries entries)) (List.map_congr_left fun e he => ?_)
    exact congrArg (Prod.mk e.1) (ih e he)

theorem wellFormed_mapFloats (hr : ∀ x, x.Finite → (r x).Finite) (hv : v.WellFormed) : (v.mapFloats r).WellFormed := by
  induction hv with
  | null => exact .null
  | bool b => exact .bool b
  | @number n hn =>
    cases n with
    | posInt n => exact .number hn
    | negInt n => exact .number hn
    | float x => exact .number (hr x hn)
  | string s => exact .string s
  | array _ ih =>
    rw [mapFloats_array, wellFormed_array]
    exact List.forall_mem_map.mpr ih
  | object hkeys _ ih =>
    rw [mapFloats_object, wellFormed_object, map_fst_map]
    exact ⟨hkeys, List.forall_mem_map.mpr ih⟩

theorem map_eq_self {α : Type} {f : α → α} {l : List α} : l.map f = l ↔ ∀ a ∈ l, f a = a := by
  rw [← List.map_id l, List.map_map, List.map_eq_map_iff]
  simp

theorem mapFloats_eq_self (hv : v.WellFormed) : v.mapFloats r = v ↔ ∀ x, HasFloat x v → r x = x := by
  induction hv with
  | null => exact iff_of_true rfl fun x h => by cases h
  | bool b => exact iff_of_true rfl fun x h => by cases h
  | @number n _ =>
    cases n with
    | posInt n => exact iff_of_true rfl fun x h => by cases h
    | negInt n => exact iff_of_true rfl fun x h => by cases h
    | float y =>
      rw [mapFloats, Value.number.injEq, Number.float.injEq]
      exact ⟨fun h x hx => (by cases hx; exact h), fun h => h y .float⟩
  | string s => exact iff_of_true rfl fun x h => by cases h
  | array _ ih =>
    rw [mapFloats_array, Value.array.injEq, map_eq_self]
    refine ⟨fun h x hx => ?_, fun h v hv => (ih v hv).mpr fun x hx => h x (.item hv hx)⟩
    obtain ⟨v, hv, hx⟩ := hasFloat_array.mp hx
    exact (ih v hv).mp (h v hv) x hx
  | object _ _ ih =>
    rw [mapFloats_object, Value.object.injEq, map_eq_self]
    refine ⟨fun h x hx => ?_, fun h e he => ?_⟩
    · obtain ⟨e, he, hx⟩ := hasFloat_object.mp hx
      exact (ih e he).mp (congrArg Prod.snd (h e he)) x hx
    · exact congrArg (Prod.mk e.1) ((ih e he).mpr fun x hx => h x (.value he hx))

end Value

/-! ### Text -/

open Value

variable (X : Crates)

/-- The float that is read where this one was printed. -/
def Crates.readBack (x : F64) : F64 :=
  match X.fromStr (X.formatF64 x) with
  | some (.number (.float y)) => y
  | _ => x

/-- What `serde_json` promises of how it parses the text of the value: nested deeper than its recursion limit it is refused, and otherwise it is read back, each float as the parser's precision has it. -/
structure ParsesText (v : Value) : Prop where
  finite : ∀ x, x.Finite → (X.readBack x).Finite
  accepted : NestedTo 127 v → X.fromStr (v.toText X) = some (v.mapFloats X.readBack)
  refused : ¬ NestedTo 127 v → X.fromStr (v.toText X) = none

/-- A text, parsed and made canonical. -/
def canonicalAgain (text : String) : Option String := (X.fromStr text).map (canonicalJson X)

variable {X}

theorem toText_inj (hX : PrintsFloats X.formatF64) {v w : Value} (hv : v.WellFormed) (hw : w.WellFormed) :
    v.toText X = w.toText X ↔ v = w := by
  rw [Value.toText, Value.toText, String.ofList_inj, print_inj hX hv hw]

theorem wellFormed_canonicalize {v : Value} (hv : v.WellFormed) : v.canonicalize.WellFormed :=
  (reordered_canonicalize hv).wellFormed_iff.mp hv

/-- **Canonical JSON is a canonical form.** Two values have one text exactly when they are equal up to the order of object entries; and parsed and made canonical again, the text of a value is the same exactly when the value is nested within the parser's limit and each of its floats is read back as it is. -/
theorem canonicalJson_form (X : Crates) (hX : PrintsFloats X.formatF64) (v w : Value) (hv : v.WellFormed)
    (hw : w.WellFormed) :
    (canonicalJson X v = canonicalJson X w ↔ Reordered v w) ∧
      (ParsesText X v.canonicalize → (canonicalAgain X (canonicalJson X v) = some (canonicalJson X v) ↔
        NestedTo 127 v ∧ ∀ x, HasFloat x v → X.readBack x = x)) := by
  have hcanonical := wellFormed_canonicalize hv
  have hreordered := reordered_canonicalize hv
  constructor
  · rw [canonicalJson, canonicalJson, toText_inj hX hcanonical (wellFormed_canonicalize hw),
      canonicalize_eq_iff hv hw]
  intro hparse
  rw [hreordered.nestedTo_iff 127, canonicalAgain, canonicalJson]
  by_cases hnested : NestedTo 127 v.canonicalize
  · have hread := wellFormed_mapFloats hparse.finite hcanonical
    -- what is read is canonical but for its floats
    have hagain : canonicalJson X (v.canonicalize.mapFloats X.readBack) =
        (v.canonicalize.mapFloats X.readBack).toText X := by
      rw [canonicalJson, canonicalize_mapFloats hcanonical, ← hreordered.canonicalize_eq hv]
    rw [hparse.accepted hnested, Option.map_some, Option.some.injEq, hagain, toText_inj hX hread hcanonical,
      mapFloats_eq_self hcanonical]
    simp only [hnested, true_and, hreordered.hasFloat_iff]
  · rw [hparse.refused hnested]
    exact iff_of_false (fun h => by cases h) fun h => hnested h.1

/-! ### A float that is not read back -/

/-- `31.245270191439438`. -/
def printedFloat : F64 := ⟨0x403f3eca06faea82⟩

/-- `31.24527019143944`, the double after it. -/
def neighbourFloat : F64 := ⟨0x403f3eca06faea83⟩

/-- The two floats as they are printed, and any other in a form of its own. -/
def formatNeighbours (x : F64) : String :=
  if x = printedFloat then "31.245270191439438"
  else if x = neighbourFloat then "31.24527019143944"
  else Nat.repr x.bits.toNat ++ "e0"

/-- An object with two entries, and the same in the order of its keys. -/
def neighbourEntries : Value :=
  .object [("value", .number (.float neighbourFloat)), ("tags", .array [.null, .bool true])]

def sortedEntries : Value :=
  .object [("tags", .array [.null, .bool true]), ("value", .number (.float neighbourFloat))]

/-- The crates on the texts that the samples have. -/
def Crates.neighbours : Crates where
  sha256 := Sha256.digest
  formatF64 := formatNeighbours
  fromStr text :=
    if text = "31.245270191439438" then some (.number (.float neighbourFloat))
    else if text = "31.24527019143944" then some (.number (.float neighbourFloat))
    else if text = "\x7b\"tags\":[null,true],\"value\":31.24527019143944\x7d" then some sortedEntries
    else none
  regex _ := none

theorem formatNeighbours_cases (x : F64) :
    (x = printedFloat ∧ formatNeighbours x = "31.245270191439438") ∨
      (x = neighbourFloat ∧ formatNeighbours x = "31.24527019143944") ∨
      (formatNeighbours x).toList = Nat.toDigits 10 x.bits.toNat ++ ['e', '0'] := by
  unfold formatNeighbours
  split
  · exact Or.inl ⟨‹_›, rfl⟩
  split
  · exact Or.inr (Or.inl ⟨‹_›, rfl⟩)
  · refine Or.inr (Or.inr ?_)
    rw [String.toList_append, Nat.toList_repr]
    rfl

theorem toList_ne_other {s : String} (h : 'e' ∉ s.toList) (n : Nat) : s.toList ≠ Nat.toDigits 10 n ++ ['e', '0'] := by
  intro heq
  rw [heq] at h
  exact h (by simp)

theorem formatNeighbours_inj {x y : F64} (h : formatNeighbours x = formatNeighbours y) : x = y := by
  rcases formatNeighbours_cases x with ⟨rfl, hx⟩ | ⟨rfl, hx⟩ | hx <;>
    rcases formatNeighbours_cases y with ⟨rfl, hy⟩ | ⟨rfl, hy⟩ | hy
  · rfl
  · exact absurd (hx.symm.trans (h.trans hy)) (by decide)
  · exact absurd (hx ▸ h ▸ hy) (toList_ne_other (by decide) _)
  · exact absurd (hx.symm.trans (h.trans hy)) (by decide)
  · rfl
  · exact absurd (hx ▸ h ▸ hy) (toList_ne_other (by decide) _)
  · exact absurd (hy ▸ h ▸ hx) (toList_ne_other (by decide) _)
  · exact absurd (hy ▸ h ▸ hx) (toList_ne_other (by decide) _)
  · rw [h, hy] at hx
    have hdigits := List.append_cancel_right hx
    have hnat : y.bits.toNat = x.bits.toNat :=
      (toDigits_append_inj (r := []) (s := []) (by simp [Stops]) (by simp [Stops]) (by rw [hdigits])).1
    exact congrArg F64.mk (UInt64.toNat_inj.mp hnat).symm

theorem printsFloats_neighbours : PrintsFloats Crates.neighbours.formatF64 := by
  refine ⟨fun x y _ _ h => formatNeighbours_inj h, fun x _ c hc => ?_, fun x _ => ?_, fun x _ => ?_⟩
  · change c ∈ (formatNeighbours x).toList at hc
    rcases formatNeighbours_cases x with ⟨-, h⟩ | ⟨-, h⟩ | h
    · have hall : "31.245270191439438".toList.all tokenChar = true := by decide
      exact List.all_eq_true.mp hall c (h ▸ hc)
    · have hall : "31.24527019143944".toList.all tokenChar = true := by decide
      exact List.all_eq_true.mp hall c (h ▸ hc)
    · rw [h, List.mem_append] at hc
      have hall : ['e', '0'].all tokenChar = true := by decide
      exact hc.elim (fun hc => tokenChar_of_isDigit (isDigit_toDigits _ c hc)) (List.all_eq_true.mp hall c)
  · change ∃ c rest, (formatNeighbours x).toList = c :: rest ∧ _
    rcases formatNeighbours_cases x with ⟨-, h⟩ | ⟨-, h⟩ | h
    · exact ⟨'3', "1.245270191439438".toList, h ▸ by decide, Or.inr (by decide)⟩
    · exact ⟨'3', "1.24527019143944".toList, h ▸ by decide, Or.inr (by decide)⟩
    · obtain ⟨c, rest, hdigits, hdigit⟩ := toDigits_cons x.bits.toNat
      exact ⟨c, rest ++ ['e', '0'], by rw [h, hdigits, List.cons_append], Or.inr hdigit⟩
  · change ∃ c ∈ (formatNeighbours x).toList, _
    rcases formatNeighbours_cases x with ⟨-, h⟩ | ⟨-, h⟩ | h
    · exact ⟨'.', h ▸ by decide, Or.inl rfl⟩
    · exact ⟨'.', h ▸ by decide, Or.inl rfl⟩
    · exact ⟨'e', by simp [h], Or.inr rfl⟩

theorem readBack_neighbours (x : F64) :
    Crates.neighbours.readBack x = neighbourFloat ∨ Crates.neighbours.readBack x = x := by
  unfold Crates.readBack
  split
  · next y h =>
    refine Or.inl ?_
    dsimp only [Crates.neighbours] at h
    split at h
    · cases h; rfl
    split at h
    · cases h; rfl
    split at h <;> cases h
  · exact Or.inr rfl

theorem parsesText_sorted : ParsesText Crates.neighbours sortedEntries := by
  have hnested : NestedTo 127 sortedEntries := by
    refine .object fun e he => ?_
    simp only [List.mem_cons, List.not_mem_nil, or_false] at he
    rcases he with rfl | rfl
    · refine .array fun v hv => ?_
      simp only [List.mem_cons, List.not_mem_nil, or_false] at hv
      rcases hv with rfl | rfl
      · exact .null _
      · exact .bool _ _
    · exact .number _ _
  refine ⟨fun x hx => ?_, fun _ => by rfl, fun h => absurd hnested h⟩
  rcases readBack_neighbours x with h | h
  · rw [h]
    decide
  · rwa [h]

theorem wellFormed_neighbourEntries : neighbourEntries.WellFormed := by
  refine .object (by decide) fun e he => ?_
  simp only [List.mem_cons, List.not_mem_nil, or_false] at he
  rcases he with rfl | rfl
  · have hfinite : neighbourFloat.Finite := by decide
    exact .number hfinite
  · refine .array fun v hv => ?_
    simp only [List.mem_cons, List.not_mem_nil, or_false] at hv
    rcases hv with rfl | rfl
    · exact .null
    · exact .bool _

theorem reordered_neighbourEntries : Reordered neighbourEntries sortedEntries := .perm (List.Perm.swap _ _ _)

theorem canonicalJson_form_neighbourEntries :
    (canonicalJson Crates.neighbours neighbourEntries = canonicalJson Crates.neighbours sortedEntries ↔
        Reordered neighbourEntries sortedEntries) ∧
      (canonicalAgain Crates.neighbours (canonicalJson Crates.neighbours neighbourEntries) =
          some (canonicalJson Crates.neighbours neighbourEntries) ↔
        NestedTo 127 neighbourEntries ∧
          ∀ x, HasFloat x neighbourEntries → Crates.neighbours.readBack x = x) := by
  have hsorted : neighbourEntries.canonicalize = sortedEntries := by rfl
  have hform := canonicalJson_form Crates.neighbours printsFloats_neighbours neighbourEntries sortedEntries
    wellFormed_neighbourEntries (reordered_neighbourEntries.wellFormed_iff.mp wellFormed_neighbourEntries)
  exact ⟨hform.1, hform.2 (hsorted ▸ parsesText_sorted)⟩

/-- `31.245270191439438` is read as its neighbour, which is printed `31.24527019143944`. -/
theorem printedFloat_changes :
    PrintsFloats Crates.neighbours.formatF64 ∧ (Value.number (.float printedFloat)).WellFormed ∧
      canonicalJson Crates.neighbours (.number (.float printedFloat)) = "31.245270191439438" ∧
      canonicalAgain Crates.neighbours "31.245270191439438" = some "31.24527019143944" := by
  have hfinite : printedFloat.Finite := by decide
  exact ⟨printsFloats_neighbours, .number hfinite, by rfl, by rfl⟩

end ActantDb
