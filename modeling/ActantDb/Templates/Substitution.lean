import Mathlib.Tactic.Ring
import ActantDb.Templates.Render

/-!
# What is replaced

Every `{{key}}` of a text is to be replaced, white space beside the key or not, and everything else is to be copied (`Replaced`). The program does not look for a placeholder inside what it copies as a whole, so a placeholder is hidden from it when `{{` stands before it and no `}}` in between; that includes `{{{key}}`, where the first two braces are taken for the opening. A text without hidden placeholders is rendered as it should be, and one with a hidden placeholder is not, unless the values happen to be what the text says.
-/

namespace ActantDb.Templates

open Utf8 Doubled

/-- White space, a key of the map, white space. -/
structure Spells (keys : Finset String) (inside key : List Char) : Prop where
  valid : isValidKey key = true
  mem : String.ofList key ∈ keys
  around : ∃ before behind, inside = before ++ (key ++ behind) ∧ (∀ c ∈ before, isWhitespace c = true) ∧
    ∀ c ∈ behind, isWhitespace c = true

/-- From left to right, every placeholder is taken for its value, and the characters elsewhere are copied. -/
inductive Replaced (keys : Finset String) : List Char → List Piece → Prop
  | done : Replaced keys [] []
  | value {inside key rest : List Char} {pieces : List Piece} : Spells keys inside key → Replaced keys rest pieces →
      Replaced keys ('{' :: '{' :: (inside ++ '}' :: '}' :: rest)) (.value key :: pieces)
  | copied {c : Char} {rest : List Char} {pieces : List Piece} :
      (∀ inside key after, Spells keys inside key → c :: rest ≠ '{' :: '{' :: (inside ++ '}' :: '}' :: after)) →
      Replaced keys rest pieces → Replaced keys (c :: rest) (.copied [c] :: pieces)

/-- A placeholder comes after `{{`, which may share a brace with its own, and no `}}` is in between. -/
def Hidden (keys : Finset String) (text : List Char) : Prop :=
  ∃ pre mid inside key rest, text = pre ++ '{' :: (mid ++ '{' :: '{' :: (inside ++ '}' :: '}' :: rest)) ∧
    (∀ c, mid.head? = some c → c = '{') ∧ Free '}' mid ∧ Spells keys inside key

section Facts

variable {keys : Finset String} {inside inside' key s x rest rest' : List Char} {pieces : List Piece} {c : Char}

theorem spells_trim (hvalid : isValidKey (trim inside) = true) (hmem : String.ofList (trim inside) ∈ keys) :
    Spells keys inside (trim inside) :=
  ⟨hvalid, hmem, exists_trim inside⟩

theorem Spells.trim_eq (h : Spells keys inside key) : trim inside = key := by
  obtain ⟨before, behind, rfl, hbefore, hbehind⟩ := h.around
  exact trim_key hbefore hbehind h.valid

/-- There is no brace in it. -/
theorem Spells.clear (h : Spells keys inside key) (hspace : isWhitespace c = false) (hkey : isKeyChar c = false) : c ∉ inside := by
  obtain ⟨before, behind, rfl, hbefore, hbehind⟩ := h.around
  intro hc
  rw [List.mem_append, List.mem_append] at hc
  rcases hc with hc | hc | hc
  · rw [hbefore c hc] at hspace
    cases hspace
  · rw [(isValidKey_iff.mp h.valid).2 c hc] at hkey
    cases hkey
  · rw [hbehind c hc] at hspace
    cases hspace

theorem Spells.free (h : Spells keys inside key) : Free '}' ('{' :: '{' :: (inside ++ ['}'])) :=
  free_append (s := ['{', '{']) (by decide) (free_append (h.clear (by decide) (by decide)) free_singleton)

theorem free_open (h : Free '}' (s ++ ['}'])) : Free '}' ('{' :: '{' :: s ++ ['}']) :=
  free_append (s := ['{', '{']) (by decide) h

theorem Replaced.cases (h : Replaced keys s pieces) :
    (s = [] ∧ pieces = []) ∨
    (∃ inside key rest ps, s = '{' :: '{' :: (inside ++ '}' :: '}' :: rest) ∧ pieces = .value key :: ps ∧
      Spells keys inside key ∧ Replaced keys rest ps) ∨
    (∃ c rest ps, s = c :: rest ∧ pieces = .copied [c] :: ps ∧
      (∀ inside key after, Spells keys inside key → s ≠ '{' :: '{' :: (inside ++ '}' :: '}' :: after)) ∧
      Replaced keys rest ps) := by
  cases h with
  | done => exact Or.inl ⟨rfl, rfl⟩
  | value hspells hrest => exact Or.inr (Or.inl ⟨_, _, _, _, rfl, rfl, hspells, hrest⟩)
  | copied hnot hrest => exact Or.inr (Or.inr ⟨_, _, _, rfl, rfl, hnot, hrest⟩)

/-- A brace that closes is copied. -/
theorem Replaced.of_close (h : Replaced keys ('}' :: rest) pieces) :
    ∃ ps, pieces = .copied ['}'] :: ps ∧ Replaced keys rest ps := by
  rcases h.cases with ⟨hs, -⟩ | ⟨_, _, _, _, hs, -⟩ | ⟨c, rest', ps, hs, hps, -, hrest⟩
  · cases hs
  · cases hs
  · obtain ⟨rfl, rfl⟩ := List.cons.inj hs
    exact ⟨ps, hps, hrest⟩

theorem Replaced.close (h : Replaced keys rest pieces) : Replaced keys ('}' :: rest) (.copied ['}'] :: pieces) :=
  .copied (fun _ _ _ _ hs => nomatch hs) h

/-- The first `}}` closes a placeholder or none does before it. -/
theorem Spells.first (h : Spells keys inside key) (hx : Free '}' (x ++ ['}']))
    (heq : x ++ '}' :: '}' :: rest = '{' :: '{' :: (inside ++ '}' :: '}' :: rest')) : x = '{' :: '{' :: inside ∧ rest = rest' := by
  have heq : x ++ '}' :: '}' :: rest = ('{' :: '{' :: inside) ++ '}' :: '}' :: rest' := heq
  exact first_unique hx h.free heq

end Facts

/-! ### Inside what is copied as a whole -/

section Within

variable {keys : Finset String} {x rest : List Char} {pieces : List Piece}

/-- The text up to the first `}}` is taken apart by itself, and a placeholder at its end is found. -/
theorem Replaced.within (hx : Free '}' (x ++ ['}'])) (h : Replaced keys (x ++ '}' :: '}' :: rest) pieces) :
    ∃ front back, pieces = front ++ back ∧ Replaced keys rest back ∧
      ((∃ u inside key, x = u ++ '{' :: '{' :: inside ∧ Spells keys inside key) → ∃ key, Piece.value key ∈ front) := by
  induction x generalizing pieces with
  | nil =>
    obtain ⟨ps, rfl, hps⟩ := h.of_close
    obtain ⟨back, rfl, hback⟩ := hps.of_close
    refine ⟨[.copied ['}'], .copied ['}']], back, rfl, hback, ?_⟩
    rintro ⟨u, inside, key, hu, -⟩
    exact absurd hu.symm (by simp)
  | cons c x ih =>
    rcases h.cases with ⟨hs, -⟩ | ⟨inside, key, rest', ps, hs, rfl, hspells, hps⟩ | ⟨d, rest', ps, hs, rfl, hnot, hps⟩
    · cases hs
    · obtain ⟨-, rfl⟩ := hspells.first hx hs
      exact ⟨[.value key], ps, rfl, hps, fun _ => ⟨key, List.mem_singleton_self _⟩⟩
    · obtain ⟨rfl, rfl⟩ := List.cons.inj hs
      obtain ⟨front, back, rfl, hback, hfound⟩ := ih hx.tail hps
      refine ⟨.copied [c] :: front, back, rfl, hback, ?_⟩
      rintro ⟨u, inside, key, hu, hspells⟩
      cases u with
      | nil =>
        refine absurd ?_ (hnot inside key rest hspells)
        rw [hu]
        rfl
      | cons e u =>
        obtain ⟨rfl, rfl⟩ := List.cons.inj hu
        obtain ⟨key', hkey'⟩ := hfound ⟨u, inside, key, rfl, hspells⟩
        exact ⟨key', List.mem_cons_of_mem _ hkey'⟩

/-- Text up to the first `}}` without a placeholder at its end is copied. -/
theorem Replaced.copy (hx : Free '}' (x ++ ['}'])) (hnone : ∀ u inside key, x = u ++ '{' :: '{' :: inside → ¬ Spells keys inside key)
    (h : Replaced keys rest pieces) :
    ∃ copied, Replaced keys (x ++ '}' :: '}' :: rest) copied ∧
      ∀ vars, copied.flatMap (Piece.render vars) = x ++ '}' :: '}' :: pieces.flatMap (Piece.render vars) := by
  induction x with
  | nil => exact ⟨_, h.close.close, fun vars => rfl⟩
  | cons c x ih =>
    obtain ⟨copied, hcopied, hrender⟩ := ih hx.tail fun u inside key hu => hnone (c :: u) inside key (congrArg (c :: ·) hu)
    refine ⟨.copied [c] :: copied, .copied (fun inside key after hspells hs => ?_) hcopied, fun vars => ?_⟩
    · exact hnone [] inside key (hspells.first hx hs).1 hspells
    · rw [List.flatMap_cons, hrender]
      rfl

end Within

/-! ### Hidden placeholders -/

section Hidden

variable {keys : Finset String} {inside rest text : List Char} {pieces pieces' : List Piece} {c : Char}

theorem Hidden.prepend (h : Hidden keys rest) (pre : List Char) (htext : text = pre ++ rest) : Hidden keys text := by
  obtain ⟨pre', mid, inside, key, rest', rfl, hmid, hfree, hspells⟩ := h
  exact ⟨pre ++ pre', mid, inside, key, rest', by rw [htext, List.append_assoc], hmid, hfree, hspells⟩

/-- A placeholder is hidden after the first `}}`, or it ends there. -/
theorem Hidden.after_close (hclose : Free '}' (inside ++ ['}'])) (h : Hidden keys ('{' :: '{' :: (inside ++ '}' :: '}' :: rest))) :
    Hidden keys rest ∨ ∃ pre mid inside' key,
      '{' :: '{' :: inside = pre ++ '{' :: (mid ++ '{' :: '{' :: inside') ∧ Spells keys inside' key := by
  obtain ⟨pre, mid, inside', key, rest', htext, hmid, hfree, hspells⟩ := h
  have hspan : ('{' :: '{' :: (inside ++ ['}', '}'])) ++ rest = pre ++ '{' :: (mid ++ '{' :: '{' :: (inside' ++ '}' :: '}' :: rest')) := by
    rw [← htext]
    simp
  rcases List.append_eq_append_iff.mp hspan with ⟨after, -, hrest⟩ | ⟨shared, hspan, hrest⟩
  · exact Or.inl ⟨after, mid, inside', key, rest', hrest, hmid, hfree, hspells⟩
  have hshort : ('{' :: '{' :: inside) ++ ['}', '}'] = pre ++ shared := hspan
  rcases List.append_eq_append_iff.mp hshort with ⟨after, -, hmarks⟩ | ⟨before, hbefore, rfl⟩
  · -- only closing braces are shared
    have hall : ∀ c ∈ shared, c = '}' := fun c hc => by
      have hmem : c ∈ ['}', '}'] := hmarks ▸ List.mem_append_right after hc
      simpa using hmem
    cases shared with
    | nil => exact Or.inl ⟨[], mid, inside', key, rest', hrest.symm, hmid, hfree, hspells⟩
    | cons c shared =>
      obtain ⟨rfl, -⟩ := List.cons.inj hrest
      exact absurd (hall '{' List.mem_cons_self) (by decide)
  · have hfirst : Free '}' (before ++ ['}']) := by
      have hwhole := free_open hclose
      rw [hbefore, List.append_assoc] at hwhole
      exact hwhole.right
    have hfirst' : Free '}' ('{' :: (mid ++ '{' :: '{' :: inside') ++ ['}']) := by
      have hown : Free '}' (mid ++ '{' :: '{' :: (inside' ++ ['}'])) :=
        (free_append_cons (by decide)).mpr ⟨hfree, hspells.free.tail⟩
      simpa using free_append (s := ['{']) (by decide) hown
    have heq : before ++ '}' :: '}' :: rest = '{' :: (mid ++ '{' :: '{' :: inside') ++ '}' :: '}' :: rest' := by
      simpa using hrest.symm
    obtain ⟨rfl, -⟩ := first_unique hfirst hfirst' heq
    exact Or.inr ⟨pre, mid, inside', key, hbefore, hspells⟩

/-- No placeholder is hidden where the program finds one, or within it. -/
theorem Hidden.after_value {key : List Char} (hv : Spells keys inside key)
    (h : Hidden keys ('{' :: '{' :: (inside ++ '}' :: '}' :: rest))) : Hidden keys rest := by
  refine (h.after_close hv.free.tail.tail).resolve_right ?_
  rintro ⟨pre, mid, inside', key', heq, -⟩
  have hcount := congrArg (List.count '{') heq
  have hnone := List.count_eq_zero.mpr (hv.clear (c := '{') (by decide) (by decide))
  simp only [List.count_cons_self, List.count_append, hnone] at hcount
  omega

theorem Hidden.after_copied {c : Char} (hopen : ∀ after, c :: rest = '{' :: '{' :: after → Free '}' after)
    (h : Hidden keys (c :: rest)) : Hidden keys rest := by
  obtain ⟨pre, mid, inside, key, rest', htext, hmid, hfree, hspells⟩ := h
  cases pre with
  | cons d pre => exact ⟨pre, mid, inside, key, rest', (List.cons.inj htext).2, hmid, hfree, hspells⟩
  | nil =>
    rw [List.nil_append] at htext
    cases mid with
    | nil => exact absurd (hopen _ htext) (not_free ('{' :: inside) rest')
    | cons d mid =>
      obtain rfl := hmid d rfl
      rw [List.cons_append] at htext
      have hnot := hopen _ htext
      rw [show mid ++ '{' :: '{' :: (inside ++ '}' :: '}' :: rest') = (mid ++ '{' :: '{' :: inside) ++ '}' :: '}' :: rest' by simp]
        at hnot
      exact absurd hnot (not_free _ _)

def Piece.isValue : Piece → Bool
  | .value _ => true
  | .copied _ => false

/-- The program replaces no more placeholders than there are, and fewer if one is hidden. -/
theorem countP_value (hs : Scanned keys text pieces) (hr : Replaced keys text pieces') :
    pieces.countP Piece.isValue ≤ pieces'.countP Piece.isValue ∧
      (Hidden keys text → pieces.countP Piece.isValue < pieces'.countP Piece.isValue) := by
  induction hs generalizing pieces' with
  | done =>
    refine ⟨Nat.zero_le _, ?_⟩
    rintro ⟨pre, mid, inside, key, rest, htext, -⟩
    exact absurd htext.symm (by simp)
  | @replaced inside rest pieces hclose hvalid hmem hrest ih =>
    have hspells := spells_trim hvalid hmem
    rcases hr.cases with ⟨hs, -⟩ | ⟨inside', key', rest', ps, hs, rfl, hspells', hps⟩ | ⟨c, rest', ps, hs, rfl, hnot, hps⟩
    · cases hs
    · obtain ⟨-, rfl⟩ := hspells'.first (free_open hclose) hs
      obtain ⟨hle, hlt⟩ := ih hps
      rw [List.countP_cons_of_pos rfl, List.countP_cons_of_pos rfl]
      exact ⟨Nat.succ_le_succ hle, fun h => Nat.succ_lt_succ (hlt (h.after_value hspells))⟩
    · exact absurd rfl (hnot inside _ rest hspells)
  | @kept inside rest pieces hclose hnot hrest ih =>
    obtain ⟨front, back, rfl, hback, hfound⟩ := Replaced.within (x := '{' :: '{' :: inside) (free_open hclose) hr
    obtain ⟨hle, hlt⟩ := ih hback
    rw [List.countP_cons_of_neg Bool.false_ne_true, List.countP_append]
    refine ⟨Nat.le_add_left_of_le hle, fun h => ?_⟩
    rcases h.after_close hclose with h | ⟨pre, mid, inside', key, heq, hspells⟩
    · exact Nat.lt_of_lt_of_le (hlt h) (Nat.le_add_left _ _)
    · obtain ⟨key', hkey'⟩ := hfound ⟨pre ++ '{' :: mid, inside', key, by simpa using heq, hspells⟩
      have hpos : 0 < front.countP Piece.isValue := List.countP_pos_iff.mpr ⟨_, hkey', rfl⟩
      omega
  | @copied c rest pieces hopen hrest ih =>
    rcases hr.cases with ⟨hs, -⟩ | ⟨inside', key', rest', ps, hs, rfl, -⟩ | ⟨d, rest', ps, hs, rfl, -, hps⟩
    · cases hs
    · exact absurd (hopen _ hs) (not_free _ _)
    · obtain ⟨rfl, rfl⟩ := List.cons.inj hs
      obtain ⟨hle, hlt⟩ := ih hps
      rw [List.countP_cons_of_neg Bool.false_ne_true, List.countP_cons_of_neg Bool.false_ne_true]
      exact ⟨hle, fun h => hlt (h.after_copied hopen)⟩

/-- If none is hidden, the program's way is the right one. -/
theorem exists_replaced (hs : Scanned keys text pieces) (h : ¬ Hidden keys text) :
    ∃ pieces', Replaced keys text pieces' ∧
      ∀ vars, pieces'.flatMap (Piece.render vars) = pieces.flatMap (Piece.render vars) := by
  induction hs with
  | done => exact ⟨[], .done, fun _ => rfl⟩
  | @replaced inside rest pieces hclose hvalid hmem hrest ih =>
    obtain ⟨ps, hps, hrender⟩ := ih fun hrest => h (hrest.prepend ('{' :: '{' :: (inside ++ ['}', '}'])) (by simp))
    refine ⟨_, .value (spells_trim hvalid hmem) hps, fun vars => ?_⟩
    rw [List.flatMap_cons, hrender, List.flatMap_cons]
  | @kept inside rest pieces hclose hnot hrest ih =>
    obtain ⟨ps, hps, hrender⟩ := ih fun hrest => h (hrest.prepend ('{' :: '{' :: (inside ++ ['}', '}'])) (by simp))
    have hnone : ∀ u inside' key, '{' :: '{' :: inside = u ++ '{' :: '{' :: inside' → ¬ Spells keys inside' key := by
      intro u inside' key hu hspells
      cases u with
      | nil =>
        obtain rfl : inside = inside' := by simpa using hu
        rw [hspells.trim_eq] at hnot
        exact hnot ⟨hspells.valid, hspells.mem⟩
      | cons d u =>
        obtain ⟨rfl, htail⟩ := List.cons.inj hu
        refine h ⟨[], u, inside', key, rest, ?_, fun c hc => ?_, ?_, hspells⟩
        · have htext := congrArg (fun t => '{' :: (t ++ '}' :: '}' :: rest)) htail
          simpa using htext
        · obtain ⟨u, rfl⟩ := List.head?_eq_some_iff.mp hc
          exact (List.cons.inj htail).1.symm
        · have hfree := (free_open hclose).left.tail
          rw [show '{' :: inside = u ++ '{' :: '{' :: inside' from htail] at hfree
          exact hfree.left
    obtain ⟨copied, hcopied, hcopy⟩ := Replaced.copy (x := '{' :: '{' :: inside) (free_open hclose) hnone hps
    refine ⟨copied, hcopied, fun vars => ?_⟩
    rw [hcopy, hrender, List.flatMap_cons, Piece.render]
    simp
  | @copied c rest pieces hopen hrest ih =>
    obtain ⟨ps, hps, hrender⟩ := ih fun hrest => h (hrest.prepend [c] rfl)
    refine ⟨_, .copied (fun inside key after _ hs => hopen _ hs |> fun hfree => not_free _ _ hfree) hps, fun vars => ?_⟩
    rw [List.flatMap_cons, hrender, List.flatMap_cons]

/-! ### Values of one length -/

/-- Every key of the map has this value. -/
def constantly (keys : Finset String) (value : String) (k : String) : Option String := if k ∈ keys then some value else none

theorem length_render (value : String) (hkeys : ∀ key, Piece.value key ∈ pieces → String.ofList key ∈ keys) :
    (pieces.flatMap (Piece.render (constantly keys value))).length =
      (pieces.flatMap (Piece.render fun _ => none)).length + pieces.countP Piece.isValue * value.toList.length := by
  induction pieces with
  | nil => simp
  | cons p pieces ih =>
    have ih := ih fun key hkey => hkeys key (List.mem_cons_of_mem _ hkey)
    rw [List.flatMap_cons, List.flatMap_cons, List.length_append, List.length_append, ih]
    cases p with
    | copied s =>
      rw [List.countP_cons_of_neg Bool.false_ne_true, Nat.add_assoc]
      rfl
    | value key =>
      have hvalue : (Piece.value key).render (constantly keys value) = value.toList := by
        rw [Piece.render, constantly, if_pos (hkeys key List.mem_cons_self), Option.getD_some]
      rw [List.countP_cons_of_pos rfl, hvalue]
      show _ = 0 + _ + _
      ring

theorem Scanned.known (hs : Scanned keys text pieces) : ∀ key, Piece.value key ∈ pieces → String.ofList key ∈ keys := by
  induction hs with
  | done => exact fun key hkey => nomatch hkey
  | replaced _ _ hmem _ ih =>
    intro key hkey
    rcases List.mem_cons.mp hkey with heq | hkey
    · obtain rfl := Piece.value.inj heq
      exact hmem
    · exact ih key hkey
  | kept _ _ _ ih => exact fun key hkey => ih key ((List.mem_cons.mp hkey).resolve_left nofun)
  | copied _ _ ih => exact fun key hkey => ih key ((List.mem_cons.mp hkey).resolve_left nofun)

theorem Replaced.known (hr : Replaced keys text pieces) : ∀ key, Piece.value key ∈ pieces → String.ofList key ∈ keys := by
  induction hr with
  | done => exact fun key hkey => nomatch hkey
  | value hspells _ ih =>
    intro key hkey
    rcases List.mem_cons.mp hkey with heq | hkey
    · obtain rfl := Piece.value.inj heq
      exact hspells.mem
    · exact ih key hkey
  | copied _ _ ih => exact fun key hkey => ih key ((List.mem_cons.mp hkey).resolve_left nofun)

/-- What is copied is of the text. -/
theorem Scanned.length_le (hs : Scanned keys text pieces) :
    (pieces.flatMap (Piece.render fun _ => none)).length ≤ text.length := by
  induction hs with
  | done => exact Nat.le_refl 0
  | replaced _ _ _ _ ih =>
    simp only [List.flatMap_cons, Piece.render, List.length_append, List.length_cons]
    show 0 + _ ≤ _
    omega
  | kept _ _ _ ih =>
    simp only [List.flatMap_cons, Piece.render, List.length_append, List.length_cons, List.length_nil]
    omega
  | copied _ _ ih =>
    simp only [List.flatMap_cons, Piece.render, List.length_append, List.length_cons, List.length_nil]
    omega

theorem Replaced.unique (hr : Replaced keys text pieces) (hr' : Replaced keys text pieces') : pieces = pieces' := by
  induction hr generalizing pieces' with
  | done =>
    rcases hr'.cases with ⟨-, rfl⟩ | ⟨_, _, _, _, hs, -⟩ | ⟨_, _, _, hs, -⟩
    · rfl
    · cases hs
    · cases hs
  | value hspells _ ih =>
    rcases hr'.cases with ⟨hs, -⟩ | ⟨inside', key', rest', ps, hs, rfl, hspells', hps⟩ | ⟨c, rest', ps, hs, rfl, hnot, hps⟩
    · cases hs
    · obtain ⟨hinside, rfl⟩ := hspells'.first (x := '{' :: '{' :: _) hspells.free hs
      obtain rfl : _ = inside' := by simpa using hinside
      rw [ih hps, hspells.trim_eq.symm.trans hspells'.trim_eq]
    · exact absurd rfl (hnot _ _ _ hspells)
  | copied hnot _ ih =>
    rcases hr'.cases with ⟨hs, -⟩ | ⟨inside', key', rest', ps, hs, rfl, hspells', hps⟩ | ⟨c, rest', ps, hs, rfl, -, hps⟩
    · cases hs
    · exact absurd hs (hnot _ _ _ hspells')
    · obtain ⟨rfl, rfl⟩ := List.cons.inj hs
      rw [ih hps]

/-- Whatever the values are, every placeholder is replaced and nothing else is. -/
def Renders (keys : Finset String) (text : List Char) : Prop :=
  ∃ pieces, Replaced keys text pieces ∧ ∀ vars : String → Option String, (∀ k, (vars k).isSome = true ↔ k ∈ keys) →
    Returns vars text (pieces.flatMap (Piece.render vars))

/-- **The text is rendered as it should be, whatever the values**, if and only if no placeholder is hidden in it. -/
theorem renders_iff (keys : Finset String) (text : List Char) : Renders keys text ↔ ¬ Hidden keys text := by
  obtain ⟨pieces, hs⟩ := exists_scanned keys text
  constructor
  · rintro ⟨pieces', hr, hreturns⟩ hhidden
    have hlt := (countP_value hs hr).2 hhidden
    -- with values longer than the text, the outputs are of different lengths
    let value := String.ofList (List.replicate (text.length + 1) 'x')
    have hdom : ∀ k, (constantly keys value k).isSome = true ↔ k ∈ keys := by
      intro k
      rw [constantly]
      split <;> simp_all
    have heq := congrArg List.length ((returns_scanned hdom hs).unique (hreturns _ hdom))
    have hvalue : value.toList.length = text.length + 1 := by simp [value]
    rw [length_render value hs.known, length_render value hr.known, hvalue] at heq
    have hle := hs.length_le
    have hmul := Nat.mul_le_mul_right (text.length + 1) hlt
    rw [Nat.succ_mul] at hmul
    omega
  · intro hnone
    obtain ⟨pieces', hr, hrender⟩ := exists_replaced hs hnone
    refine ⟨pieces', hr, fun vars hdom => ?_⟩
    rw [hrender]
    exact returns_scanned hdom hs

/-- A third brace before a placeholder hides it: `{{{name}}` is left as it is, and should be a brace and the name. -/
theorem triple_brace_kept :
    Returns (constantly {"name"} "Ada") "\x7b\x7b\x7bname\x7d\x7d".toList "\x7b\x7b\x7bname\x7d\x7d".toList ∧
      ∃ pieces, Replaced {"name"} "\x7b\x7b\x7bname\x7d\x7d".toList pieces ∧
        pieces.flatMap (Piece.render (constantly {"name"} "Ada")) = "\x7bAda".toList := by
  constructor
  · have hfree : Free '}' ("\x7bname".toList ++ ['}']) := free_append (by decide) free_singleton
    have hs : Scanned {"name"} "\x7b\x7b\x7bname\x7d\x7d".toList [.copied "\x7b\x7b\x7bname\x7d\x7d".toList] :=
      .kept hfree (by decide) .done
    exact returns_scanned (fun k => by rw [constantly]; split <;> simp_all) hs
  · have hspells : Spells {"name"} "name".toList "name".toList := ⟨by decide, by decide, [], [], rfl, nofun, nofun⟩
    refine ⟨_, .copied (fun inside key after hspells' hs => ?_) (.value hspells .done), rfl⟩
    -- the brace after the first two is no key's
    have hinside : inside ++ '}' :: '}' :: after = "\x7bname\x7d\x7d".toList := (List.cons.inj (List.cons.inj hs).2).2.symm
    cases inside with
    | nil => exact absurd hinside (by simp)
    | cons c inside =>
      obtain ⟨rfl, -⟩ := List.cons.inj hinside
      exact hspells'.clear (c := '{') (by decide) (by decide) List.mem_cons_self

end Hidden

end ActantDb.Templates
