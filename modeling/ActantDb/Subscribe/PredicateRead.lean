import ActantDb.Subscribe.PredicateLex

/-!
# Reading expressions

The parser returns, for the tokens of an expression, a predicate that means what the expression does; that `OR` and `AND` are collected into lists makes no difference. What can go wrong is at the leaves: an index is taken through a double, and an integer literal becomes a float, which is not equal to an integer of the payload.
-/

namespace ActantDb

namespace PredicateParse

variable {rest : List Tok}

/-! ### Operators -/

section Operators

variable {v : Value} {left right : Predicate}

@[simp] theorem evaluate_pushOr : (pushOr left right).evaluate v = (left.evaluate v || right.evaluate v) := by
  cases left with
  | or xs => rw [pushOr, Predicate.evaluate, evaluateAny_append, Predicate.evaluate]
  | _ => simp only [pushOr, Predicate.evaluate, Predicate.evaluateAny, Bool.or_false]

@[simp] theorem evaluate_pushAnd : (pushAnd left right).evaluate v = (left.evaluate v && right.evaluate v) := by
  cases left with
  | and xs => rw [pushAnd, Predicate.evaluate, evaluateAll_append, Predicate.evaluate]
  | _ => simp only [pushAnd, Predicate.evaluate, Predicate.evaluateAll, Bool.and_true]

end Operators

/-! ### Paths -/

section Paths

variable {p : Path}

theorem isIdent_clear {s : List Char} (h : isIdent s = true) : s ≠ [] ∧ '.' ∉ s := by
  cases s with
  | nil => cases h
  | cons c s =>
    refine ⟨List.cons_ne_nil _ _, fun hin => ?_⟩
    rw [isIdent, Bool.and_eq_true, Bool.and_eq_true, List.all_eq_true] at h
    rcases List.mem_cons.mp hin with rfl | hin
    · exact absurd h.1.1 (by decide)
    · exact absurd (h.1.2 _ hin) (by decide)

theorem segment_clear {s : Segment} (h : s.valid = true) : s.text ≠ [] ∧ '.' ∉ s.text := by
  cases s with
  | name s => exact isIdent_clear h
  | index digits =>
    obtain ⟨hne, hall⟩ := isDigits_eq h
    exact ⟨hne, fun hin => absurd (hall _ hin) (by decide)⟩

theorem segments_clear (h : p.valid = true) : ∀ s ∈ p.segments, '.' ∉ s := by
  rw [Path.valid, Bool.and_eq_true, List.all_eq_true] at h
  intro s hs
  rcases List.mem_cons.mp hs with rfl | hin
  · exact (isIdent_clear h.1).2
  · obtain ⟨segment, hsegment, rfl⟩ := List.mem_map.mp hin
    exact (segment_clear (h.2 segment hsegment)).2

theorem text_eq_join : p.text = ['.'].intercalate p.segments := by
  obtain ⟨first, segments⟩ := p
  show first ++ _ = ['.'].intercalate (first :: segments.map Segment.text)
  induction segments generalizing first with
  | nil => simp [List.intercalate]
  | cons s segments ih =>
    have hrest := ih s.text
    rw [List.flatMap_cons, List.map_cons, List.intercalate_cons_cons, ← hrest]
    simp

/-- A path leads where its segments do. -/
theorem resolve_text (h : p.valid = true) (v : Value) : resolve v p.text = p.find v := by
  have hne : p.segments ≠ [] := List.cons_ne_nil _ _
  rw [resolve, text_eq_join, List.splitOn_intercalate '.' (segments_clear h) hne]
  rfl

theorem indexKept_eq {digits : List Char} (hdigits : isDigits digits = true) (h : indexKept digits = true) :
    (F64.fractIsZero (indexDouble digits) && F64.le ⟨0⟩ (indexDouble digits)) = true ∧
      (Nat.repr (F64.asU64 (indexDouble digits))).toList = digits := by
  have hparse := parseF64_text (index_valid hdigits)
  rw [index_text] at hparse
  rw [indexKept, hparse, Option.any_some, Bool.and_eq_true, decide_eq_true_eq] at h
  exact h

theorem fieldTail_stop {path : List Char} (hstop : rest.head? ≠ some .dot) : fieldTail path rest = .ok (path, rest) := by
  cases rest with
  | nil => rfl
  | cons t rest =>
    cases t with
    | dot => exact absurd rfl hstop
    | _ => rfl

theorem fieldTail_segments {segments : List Segment} (hvalid : segments.all (·.valid) = true)
    (hkept : segments.all (·.kept) = true) (hstop : rest.head? ≠ some .dot) (path : List Char) :
    fieldTail path (segments.flatMap Segment.toks ++ rest) =
      .ok (path ++ segments.flatMap (fun s => '.' :: s.text), rest) := by
  induction segments generalizing path with
  | nil =>
    rw [List.flatMap_nil, List.nil_append, fieldTail_stop hstop, List.flatMap_nil, List.append_nil]
  | cons s segments ih =>
    rw [List.all_cons, Bool.and_eq_true] at hvalid hkept
    have hrest : ∀ text : List Char, fieldTail (path ++ '.' :: text) (segments.flatMap Segment.toks ++ rest) =
        .ok (path ++ ('.' :: text ++ segments.flatMap fun s => '.' :: s.text), rest) := by
      intro text
      rw [ih hvalid.2 hkept.2, List.append_assoc]
    cases s with
    | name name => exact hrest name
    | index digits =>
      obtain ⟨hwhole, hrepr⟩ := indexKept_eq hvalid.1 hkept.1
      have hstep : fieldTail path ((Segment.index digits :: segments).flatMap Segment.toks ++ rest) =
          if (F64.fractIsZero (indexDouble digits) && F64.le ⟨0⟩ (indexDouble digits)) = true then
            fieldTail (path ++ '.' :: (Nat.repr (F64.asU64 (indexDouble digits))).toList)
              (segments.flatMap Segment.toks ++ rest)
          else .error .expectedSegment := rfl
      rw [hstep, if_pos hwhole, hrepr]
      exact hrest digits

theorem parseField_toks (hvalid : p.valid = true) (hplain : p.plain = true) (hstop : rest.head? ≠ some .dot) :
    parseField (p.toks ++ rest) = .ok (p.text, rest) := by
  rw [Path.valid, Bool.and_eq_true] at hvalid
  rw [Path.plain, Bool.and_eq_true] at hplain
  exact fieldTail_segments hvalid.2 hplain.2 hstop p.first

end Paths

/-! ### Literals -/

section Literals

variable {n : Numeral}

/-- What the parser makes of a literal. -/
def Literal.parsed : Literal → Value
  | .string _ raw => .string (String.ofList (decode raw))
  | .number n => .number (.float n.double)
  | .bool b => .bool b
  | .null => .null

theorem parseLiteral_lexeme {l : Literal} {o : Op} (hplain : l.plain o = true) :
    parseLiteral (l.lexeme.toks ++ rest) = .ok (l.parsed, rest) := by
  cases l with
  | string quote raw => rfl
  | number n =>
    rw [Literal.plain, Bool.and_eq_true] at hplain
    show Except.ok (if n.double.isFinite then Value.number (.float n.double) else .null, rest) = _
    rw [if_pos hplain.1]
    rfl
  | bool b => cases b <;> rfl
  | null => rfl

theorem ofNatural_small {negative : Bool} {m : Nat} (h : m ≤ 2 ^ 64) :
    F64.ofNatural negative m = .ofMagnitude negative m := by
  have hbelow : m < 2 ^ 1024 := lt_of_le_of_lt h (Nat.pow_lt_pow_right (by decide) (by decide))
  rw [F64.ofNatural, if_neg (not_le.mpr hbelow)]

/-- An integer that fits is as a double what it is read as. -/
theorem integer_asF64 {i : Number} (h : n.integer? = some i) : i.asF64 = n.double := by
  rw [Numeral.integer?] at h
  split at h
  · rename_i hfraction hexponent
    have hdouble : n.double = F64.ofDecimal n.negative (digitsValue n.whole) 0 := by
      rw [Numeral.double, hfraction, hexponent]
      simp
    have hsmall : ∀ negative m, m ≤ 2 ^ 64 → F64.ofDecimal negative m 0 = .ofMagnitude negative m := by
      intro negative m hm
      rw [F64.ofDecimal]
      by_cases hzero : m = 0
      · rw [if_pos hzero, hzero]
      · rw [if_neg hzero, if_neg (by decide), if_pos (le_refl _)]
        simp only [Int.toNat_zero, pow_zero, Nat.mul_one]
        exact ofNatural_small hm
    rw [hdouble]
    dsimp only at h
    split at h
    · rename_i hnegative
      split at h
      · rename_i hfits
        cases h
        rw [hnegative, hsmall _ _ (by omega), Number.asF64]
        congr 1
        rw [Int64.toInt_ofInt_of_le (by omega) (by omega)]
        omega
      · cases h
    · rename_i hnegative
      split at h
      · rename_i hfits
        cases h
        rw [Bool.not_eq_true] at hnegative
        rw [hnegative, hsmall _ _ (by omega), Number.asF64]
        congr 1
        exact UInt64.toNat_ofNat_of_lt hfits
      · cases h
  · cases h

theorem order_number {x y : Number} (h : x.asF64 = y.asF64) (got : Value) :
    order got (.number x) = order got (.number y) := by
  cases got <;> first | rfl | rw [order, order, h]

/-- A comparison with the float is one with the number, but for equality. -/
theorem holds_parsed {o : Op} {l : Literal} (hplain : l.plain o = true) (found : Option Value) :
    o.holds found l.parsed = o.holds found l.value := by
  cases l with
  | number n =>
    rw [Literal.plain, Bool.and_eq_true, Bool.or_eq_true] at hplain
    show o.holds found (.number (.float n.double)) = o.holds found (.number n.value)
    rw [Numeral.value]
    cases hinteger : n.integer? with
    | none => rfl
    | some i =>
      have hsame : ∀ got, order got (.number (.float n.double)) = order got (.number i) :=
        order_number (integer_asF64 hinteger).symm
      have horder : o ≠ .eq ∧ o ≠ .ne := by
        rw [hinteger] at hplain
        simpa using hplain.2
      cases found with
      | none => cases o <;> rfl
      | some got =>
        cases o with
        | eq => exact absurd rfl horder.1
        | ne => exact absurd rfl horder.2
        | _ => simp only [Op.holds, cmp, Option.getD_some, hsame]
  | _ => rfl

end Literals

/-! ### Expressions -/

namespace Expr

def toks (e : Expr) : List Tok := e.lexemes.flatMap Lexeme.toks

/-- The calls that it takes to parse the expression. -/
def size : Expr → Nat
  | or a b => a.size + b.size + 1
  | and a b => a.size + b.size + 1
  | not a => a.size + 1
  | paren a => a.size + 6
  | compare _ _ _ => 2
  | .exists _ => 2

theorem size_or (a b : Expr) : (or a b).size = a.size + b.size + 1 := rfl

theorem size_and (a b : Expr) : (and a b).size = a.size + b.size + 1 := rfl

theorem size_not (a : Expr) : (not a).size = a.size + 1 := rfl

theorem size_paren (a : Expr) : (paren a).size = a.size + 6 := rfl

theorem size_compare (p : Path) (o : Op) (l : Literal) : (compare p o l).size = 2 := rfl

theorem size_exists (p : Path) : (Expr.exists p).size = 2 := rfl

end Expr

/-- A predicate of this meaning, and these tokens left. -/
def Yields (f : Value → Bool) (rest : List Tok) (r : Except ParseError (Predicate × List Tok)) : Prop :=
  ∃ p, r = .ok (p, rest) ∧ ∀ v, p.evaluate v = f v

/-- The functions of the parser read the expression where it binds tightly enough for them, and stop after it. -/
structure Parses (e : Expr) : Prop where
  not : 2 ≤ e.level → ∀ rest fuel, e.size ≤ fuel → Yields (fun v => e.holds v) rest (parseNot fuel (e.toks ++ rest))
  and : 1 ≤ e.level → ∀ rest fuel, rest.head? ≠ some .and → e.size + 2 ≤ fuel →
    Yields (fun v => e.holds v) rest (parseAnd fuel (e.toks ++ rest))
  andLoop : 1 ≤ e.level → ∀ left rest fuel, rest.head? ≠ some .and → e.size + 2 ≤ fuel →
    Yields (fun v => left.evaluate v && e.holds v) rest (andLoop fuel left (.and :: (e.toks ++ rest)))
  or : ∀ rest fuel, rest.head? ≠ some .and → rest.head? ≠ some .or → e.size + 4 ≤ fuel →
    Yields (fun v => e.holds v) rest (parseOr fuel (e.toks ++ rest))
  orLoop : ∀ left rest fuel, rest.head? ≠ some .and → rest.head? ≠ some .or → e.size + 4 ≤ fuel →
    Yields (fun v => left.evaluate v || e.holds v) rest (orLoop fuel left (.or :: (e.toks ++ rest)))

section Expressions

variable {e a b : Expr} {f g : Value → Bool} {mid : List Tok} {r : Except ParseError (Predicate × List Tok)}
  {fuel : Nat}

theorem Yields.bind {k : Predicate × List Tok → Except ParseError (Predicate × List Tok)} (h : Yields f mid r)
    (hk : ∀ p, (∀ v, p.evaluate v = f v) → Yields g rest (k (p, mid))) : Yields g rest (r >>= k) := by
  obtain ⟨p, rfl, hp⟩ := h
  exact hk p hp

theorem andLoop_stop {left : Predicate} (hfuel : 1 ≤ fuel) (hstop : rest.head? ≠ some .and) :
    andLoop fuel left rest = .ok (left, rest) := by
  obtain ⟨n, rfl⟩ := Nat.exists_eq_succ_of_ne_zero (Nat.one_le_iff_ne_zero.mp hfuel)
  cases rest with
  | nil => rfl
  | cons t rest =>
    cases t with
    | and => exact absurd rfl hstop
    | _ => rfl

theorem orLoop_stop {left : Predicate} (hfuel : 1 ≤ fuel) (hstop : rest.head? ≠ some .or) :
    orLoop fuel left rest = .ok (left, rest) := by
  obtain ⟨n, rfl⟩ := Nat.exists_eq_succ_of_ne_zero (Nat.one_le_iff_ne_zero.mp hfuel)
  cases rest with
  | nil => rfl
  | cons t rest =>
    cases t with
    | or => exact absurd rfl hstop
    | _ => rfl

/-- What `parseAnd` and its loop read is read by `parseOr` and its loop. -/
theorem parses_or_of_and
    (hand : ∀ rest fuel, rest.head? ≠ some .and → e.size + 2 ≤ fuel →
      Yields (fun v => e.holds v) rest (parseAnd fuel (e.toks ++ rest))) :
    (∀ rest fuel, rest.head? ≠ some .and → rest.head? ≠ some .or → e.size + 4 ≤ fuel →
      Yields (fun v => e.holds v) rest (parseOr fuel (e.toks ++ rest))) ∧
    ∀ left rest fuel, rest.head? ≠ some .and → rest.head? ≠ some .or → e.size + 4 ≤ fuel →
      Yields (fun v => left.evaluate v || e.holds v) rest (orLoop fuel left (.or :: (e.toks ++ rest))) := by
  constructor
  · intro rest fuel hnotAnd hnotOr hfuel
    obtain ⟨n, rfl⟩ := Nat.exists_eq_add_of_le' (show 1 ≤ fuel by omega)
    rw [parseOr]
    refine (hand rest n hnotAnd (by omega)).bind fun p hp => ?_
    dsimp only
    rw [orLoop_stop (by omega) hnotOr]
    exact ⟨p, rfl, hp⟩
  · intro left rest fuel hnotAnd hnotOr hfuel
    obtain ⟨n, rfl⟩ := Nat.exists_eq_add_of_le' (show 1 ≤ fuel by omega)
    rw [orLoop]
    refine (hand rest n hnotAnd (by omega)).bind fun p hp => ?_
    dsimp only
    rw [orLoop_stop (by omega) hnotOr]
    exact ⟨_, rfl, fun v => by simp only [evaluate_pushOr, hp]⟩

/-- What `parseNot` reads is read by all of them. -/
theorem parses_of_not
    (hnot : ∀ rest fuel, e.size ≤ fuel → Yields (fun v => e.holds v) rest (parseNot fuel (e.toks ++ rest))) :
    Parses e := by
  have hand : ∀ rest fuel, rest.head? ≠ some .and → e.size + 2 ≤ fuel →
      Yields (fun v => e.holds v) rest (parseAnd fuel (e.toks ++ rest)) := by
    intro rest fuel hstop hfuel
    obtain ⟨n, rfl⟩ := Nat.exists_eq_add_of_le' (show 1 ≤ fuel by omega)
    rw [parseAnd]
    refine (hnot rest n (by omega)).bind fun p hp => ?_
    dsimp only
    rw [andLoop_stop (by omega) hstop]
    exact ⟨p, rfl, hp⟩
  have handLoop : ∀ left rest fuel, rest.head? ≠ some .and → e.size + 2 ≤ fuel →
      Yields (fun v => left.evaluate v && e.holds v) rest (andLoop fuel left (.and :: (e.toks ++ rest))) := by
    intro left rest fuel hstop hfuel
    obtain ⟨n, rfl⟩ := Nat.exists_eq_add_of_le' (show 1 ≤ fuel by omega)
    rw [andLoop]
    refine (hnot rest n (by omega)).bind fun p hp => ?_
    dsimp only
    rw [andLoop_stop (by omega) hstop]
    exact ⟨_, rfl, fun v => by simp only [evaluate_pushAnd, hp]⟩
  obtain ⟨hor, horLoop⟩ := parses_or_of_and hand
  exact ⟨fun _ => hnot, fun _ => hand, fun _ => handLoop, hor, horLoop⟩

theorem parses_or (ha : Parses a) (hb : Parses b) (hlevel : 1 ≤ a.level) : Parses (.or a b) := by
  have htoks : ∀ rest, (Expr.or a b).toks ++ rest = a.toks ++ Tok.or :: (b.toks ++ rest) := by
    intro rest
    simp [Expr.toks, Expr.lexemes, Lexeme.toks, Keyword.tok]
  refine ⟨fun h => (by simp [Expr.level] at h), fun h => (by simp [Expr.level] at h),
    fun h => (by simp [Expr.level] at h), ?_, ?_⟩
  · intro rest fuel hnotAnd hnotOr hfuel
    rw [Expr.size_or] at hfuel
    obtain ⟨n, rfl⟩ := Nat.exists_eq_add_of_le' (show 1 ≤ fuel by omega)
    rw [htoks, parseOr]
    refine (ha.and hlevel _ n (fun h => by cases h) (by omega)).bind fun p hp => ?_
    obtain ⟨q, hq, heval⟩ := hb.orLoop p rest n hnotAnd hnotOr (by omega)
    exact ⟨q, hq, fun v => (heval v).trans (by simp only [hp, Expr.holds])⟩
  · intro left rest fuel hnotAnd hnotOr hfuel
    rw [Expr.size_or] at hfuel
    obtain ⟨n, rfl⟩ := Nat.exists_eq_add_of_le' (show 1 ≤ fuel by omega)
    rw [htoks, orLoop]
    refine (ha.and hlevel _ n (fun h => by cases h) (by omega)).bind fun p hp => ?_
    obtain ⟨q, hq, heval⟩ := hb.orLoop (pushOr left p) rest n hnotAnd hnotOr (by omega)
    exact ⟨q, hq, fun v => (heval v).trans (by simp only [evaluate_pushOr, hp, Expr.holds, Bool.or_assoc])⟩

theorem parses_and (ha : Parses a) (hb : Parses b) (hlevel : 2 ≤ a.level) (hlevel' : 1 ≤ b.level) :
    Parses (.and a b) := by
  have htoks : ∀ rest, (Expr.and a b).toks ++ rest = a.toks ++ Tok.and :: (b.toks ++ rest) := by
    intro rest
    simp [Expr.toks, Expr.lexemes, Lexeme.toks, Keyword.tok]
  have hand : ∀ rest fuel, rest.head? ≠ some .and → (Expr.and a b).size + 2 ≤ fuel →
      Yields (fun v => (Expr.and a b).holds v) rest (parseAnd fuel ((Expr.and a b).toks ++ rest)) := by
    intro rest fuel hstop hfuel
    rw [Expr.size_and] at hfuel
    obtain ⟨n, rfl⟩ := Nat.exists_eq_add_of_le' (show 1 ≤ fuel by omega)
    rw [htoks, parseAnd]
    refine (ha.not hlevel _ n (by omega)).bind fun p hp => ?_
    obtain ⟨q, hq, heval⟩ := hb.andLoop hlevel' p rest n hstop (by omega)
    exact ⟨q, hq, fun v => (heval v).trans (by simp only [hp, Expr.holds])⟩
  have handLoop : ∀ left rest fuel, rest.head? ≠ some .and → (Expr.and a b).size + 2 ≤ fuel →
      Yields (fun v => left.evaluate v && (Expr.and a b).holds v) rest
        (andLoop fuel left (.and :: ((Expr.and a b).toks ++ rest))) := by
    intro left rest fuel hstop hfuel
    rw [Expr.size_and] at hfuel
    obtain ⟨n, rfl⟩ := Nat.exists_eq_add_of_le' (show 1 ≤ fuel by omega)
    rw [htoks, andLoop]
    refine (ha.not hlevel _ n (by omega)).bind fun p hp => ?_
    obtain ⟨q, hq, heval⟩ := hb.andLoop hlevel' (pushAnd left p) rest n hstop (by omega)
    exact ⟨q, hq, fun v => (heval v).trans (by simp only [evaluate_pushAnd, hp, Expr.holds, Bool.and_assoc])⟩
  obtain ⟨hor, horLoop⟩ := parses_or_of_and hand
  exact ⟨fun h => (by simp [Expr.level] at h), fun _ => hand, fun _ => handLoop, hor, horLoop⟩

theorem parses_not (ha : Parses a) (hlevel : 2 ≤ a.level) : Parses (.not a) := by
  refine parses_of_not fun rest fuel hfuel => ?_
  rw [Expr.size_not] at hfuel
  obtain ⟨n, rfl⟩ := Nat.exists_eq_add_of_le' (show 1 ≤ fuel by omega)
  show Yields _ rest (parseNot n (a.toks ++ rest) >>= fun x => pure (.not x.1, x.2))
  refine (ha.not hlevel rest n (by omega)).bind fun p hp => ⟨_, rfl, fun v => ?_⟩
  simp only [Predicate.evaluate, hp, Expr.holds]

theorem parses_paren (ha : Parses a) : Parses (.paren a) := by
  refine parses_of_not fun rest fuel hfuel => ?_
  rw [Expr.size_paren] at hfuel
  obtain ⟨n, rfl⟩ := Nat.exists_eq_add_of_le' (show 2 ≤ fuel by omega)
  have htoks : (Expr.paren a).toks ++ rest = .lparen :: (a.toks ++ .rparen :: rest) := by
    simp [Expr.toks, Expr.lexemes, Lexeme.toks]
  rw [htoks]
  show Yields _ rest (parseOr n (a.toks ++ .rparen :: rest) >>= _)
  refine (ha.or _ n (fun h => by cases h) (fun h => by cases h) (by omega)).bind fun p hp => ⟨p, rfl, fun v => ?_⟩
  simp only [hp, Expr.holds]

theorem parses_compare {p : Path} {o : Op} {l : Literal} (hvalid : p.valid = true) (hpath : p.plain = true)
    (hliteral : l.plain o = true) : Parses (.compare p o l) := by
  refine parses_of_not fun rest fuel hfuel => ?_
  rw [Expr.size_compare] at hfuel
  obtain ⟨n, rfl⟩ := Nat.exists_eq_add_of_le' (show 2 ≤ fuel by omega)
  have htoks : (Expr.compare p o l).toks ++ rest = p.toks ++ (o.tok :: (l.lexeme.toks ++ rest)) := by
    simp [Expr.toks, Expr.lexemes, Lexeme.toks]
  have hstop : (o.tok :: (l.lexeme.toks ++ rest)).head? ≠ some .dot := by
    cases o <;> exact fun h => by cases h
  have hparse : parseNot (n + 2) (p.toks ++ (o.tok :: (l.lexeme.toks ++ rest))) =
      comparison p.text l.parsed o.tok >>= fun q => pure (q, rest) := by
    show parseComparison (p.toks ++ (o.tok :: (l.lexeme.toks ++ rest))) = _
    rw [parseComparison, parseField_toks hvalid hpath hstop]
    show (parseLiteral (l.lexeme.toks ++ rest) >>= _) = _
    rw [parseLiteral_lexeme hliteral]
    rfl
  rw [htoks, hparse]
  have hholds : ∀ v, o.holds (resolve v p.text) l.parsed = (Expr.compare p o l).holds v := by
    intro v
    rw [resolve_text hvalid, holds_parsed hliteral, Expr.holds]
  cases o <;> exact ⟨_, rfl, fun v => Eq.trans (by rw [Predicate.evaluate]; rfl) (hholds v)⟩

theorem parses_exists {p : Path} (hvalid : p.valid = true) (hpath : p.plain = true) : Parses (.exists p) := by
  refine parses_of_not fun rest fuel hfuel => ?_
  rw [Expr.size_exists] at hfuel
  obtain ⟨n, rfl⟩ := Nat.exists_eq_add_of_le' (show 2 ≤ fuel by omega)
  have htoks : (Expr.exists p).toks ++ rest = .exists :: .lparen :: (p.toks ++ .rparen :: rest) := by
    simp [Expr.toks, Expr.lexemes, Lexeme.toks, Keyword.tok]
  have hparse : parseNot (n + 2) (.exists :: .lparen :: (p.toks ++ .rparen :: rest)) =
      .ok (.exists p.text, rest) := by
    show (parseField (p.toks ++ .rparen :: rest) >>= _) = _
    rw [parseField_toks hvalid hpath fun h => by cases h]
    rfl
  rw [htoks, hparse]
  refine ⟨_, rfl, fun v => ?_⟩
  simp only [Predicate.evaluate, resolve_text hvalid, Expr.holds]

/-- **Every expression is parsed as its shape says**, if its leaves are plain. -/
theorem parses_of_plain (hgrammatical : e.Grammatical) (hplain : e.Plain) : Parses e := by
  induction e with
  | or a b iha ihb => exact parses_or (iha hgrammatical.1 hplain.1) (ihb hgrammatical.2.1 hplain.2) hgrammatical.2.2
  | and a b iha ihb =>
    exact parses_and (iha hgrammatical.1 hplain.1) (ihb hgrammatical.2.1 hplain.2) hgrammatical.2.2.1
      hgrammatical.2.2.2
  | not a ih => exact parses_not (ih hgrammatical.1 hplain) hgrammatical.2
  | paren a ih => exact parses_paren (ih hgrammatical hplain)
  | compare p o l => exact parses_compare hgrammatical.1 hplain.1 hplain.2
  | «exists» p => exact parses_exists hgrammatical hplain

/-- The fuel of `parse` is enough. -/
theorem size_le (e : Expr) : e.size ≤ 6 * e.toks.length := by
  induction e with
  | or a b iha ihb =>
    have hlength : (Expr.or a b).toks.length = a.toks.length + b.toks.length + 1 := by
      simp [Expr.toks, Expr.lexemes, Lexeme.toks]
      omega
    rw [Expr.size_or]
    omega
  | and a b iha ihb =>
    have hlength : (Expr.and a b).toks.length = a.toks.length + b.toks.length + 1 := by
      simp [Expr.toks, Expr.lexemes, Lexeme.toks]
      omega
    rw [Expr.size_and]
    omega
  | not a ih =>
    have hlength : (Expr.not a).toks.length = a.toks.length + 1 := by
      simp [Expr.toks, Expr.lexemes, Lexeme.toks]
    rw [Expr.size_not]
    omega
  | paren a ih =>
    have hlength : (Expr.paren a).toks.length = a.toks.length + 2 := by
      simp [Expr.toks, Expr.lexemes, Lexeme.toks]
    rw [Expr.size_paren]
    omega
  | compare p o l =>
    have hlength : 1 ≤ (Expr.compare p o l).toks.length := by
      simp [Expr.toks, Expr.lexemes, Lexeme.toks, Path.toks]
    rw [Expr.size_compare]
    omega
  | «exists» p =>
    have hlength : 1 ≤ (Expr.exists p).toks.length := by
      simp [Expr.toks, Expr.lexemes, Lexeme.toks]
    rw [Expr.size_exists]
    omega

theorem readable_of_plain (hgrammatical : e.Grammatical) (hplain : e.Plain) :
    ∀ l ∈ e.lexemes, l.readable = true := by
  have hpath : ∀ {p : Path}, p.valid = true → p.plain = true → Lexeme.readable (.path p) = true := by
    intro p hvalid hplain
    rw [Path.plain, Bool.and_eq_true] at hplain
    rw [Lexeme.readable, hvalid, hplain.1]
    rfl
  induction e with
  | or a b iha ihb =>
    refine List.forall_mem_append.mpr ⟨iha hgrammatical.1 hplain.1, ?_⟩
    exact List.forall_mem_cons.mpr ⟨rfl, ihb hgrammatical.2.1 hplain.2⟩
  | and a b iha ihb =>
    refine List.forall_mem_append.mpr ⟨iha hgrammatical.1 hplain.1, ?_⟩
    exact List.forall_mem_cons.mpr ⟨rfl, ihb hgrammatical.2.1 hplain.2⟩
  | not a ih =>
    intro l hl
    rcases List.mem_cons.mp hl with rfl | hin
    · rfl
    · exact ih hgrammatical.1 hplain l hin
  | paren a ih =>
    intro l hl
    rcases List.mem_cons.mp hl with rfl | hin
    · rfl
    · rcases List.mem_append.mp hin with hin | hin
      · exact ih hgrammatical hplain l hin
      · rw [List.mem_singleton.mp hin]
        rfl
  | compare p o literal =>
    intro l hl
    simp only [Expr.lexemes, List.mem_cons, List.not_mem_nil, or_false] at hl
    rcases hl with rfl | rfl | rfl
    · exact hpath hgrammatical.1 hplain.1
    · rfl
    · cases literal with
      | string quote raw => exact hgrammatical.2
      | number n => exact hgrammatical.2
      | bool b => rfl
      | null => rfl
  | «exists» p =>
    intro l hl
    simp only [Expr.lexemes, List.mem_cons, List.not_mem_nil, or_false] at hl
    rcases hl with rfl | rfl | rfl | rfl
    · rfl
    · rfl
    · exact hpath hgrammatical hplain
    · rfl

/-- **Every expression of the grammar is read as it is meant**, however it is printed, if in its paths only the last segment is an index and comes back from the double that it is read as, and its numbers are finite and not compared for equality as integers. -/
theorem parse_printed (e : Expr) (text : List Char) (hgrammatical : e.Grammatical) (hprinted : Printed e.lexemes text)
    (hplain : e.Plain) : Reads e text := by
  have htokenize : tokenize text = .ok e.toks :=
    tokenizes_printed hprinted (readable_of_plain hgrammatical hplain) text.length (le_refl _)
  have hfuel : e.size + 4 ≤ 6 * e.toks.length + 6 := by
    have := size_le e
    omega
  obtain ⟨p, hparse, heval⟩ := (parses_of_plain hgrammatical hplain).or [] (6 * e.toks.length + 6)
    (fun h => by cases h) (fun h => by cases h) hfuel
  rw [List.append_nil] at hparse
  refine ⟨p, ?_, heval⟩
  rw [parse, htokenize]
  show (parseOr (6 * e.toks.length + 6) e.toks >>= _) = _
  rw [hparse]
  rfl

end Expressions

/-- `a.0 >= 10 and not exists(b)`. -/
def sampleExpr : Expr :=
  .and (.compare ⟨['a'], [.index ['0']]⟩ .ge (.number ⟨false, ['1', '0'], none, none⟩)) (.not (.exists ⟨['b'], []⟩))

theorem parse_printed_sample : Reads sampleExpr "a.0 >= 10 and not exists(b)".toList := by
  refine parse_printed sampleExpr _ ⟨⟨by decide, by decide⟩, ⟨(by decide : Path.valid ⟨['b'], []⟩ = true), by decide⟩,
    by decide, by decide⟩ ?_ ⟨⟨by decide, by decide +kernel⟩, (by decide : Path.plain ⟨['b'], []⟩ = true)⟩
  exact @Printed.cons [] "a.0".toList " >= 10 and not exists(b)".toList _ _ rfl rfl rfl <|
    @Printed.cons [' '] ">=".toList " 10 and not exists(b)".toList _ _ rfl rfl rfl <|
    @Printed.cons [' '] "10".toList " and not exists(b)".toList _ _ rfl rfl rfl <|
    @Printed.cons [' '] "and".toList " not exists(b)".toList _ _ rfl rfl rfl <|
    @Printed.cons [' '] "not".toList " exists(b)".toList _ _ rfl rfl rfl <|
    @Printed.cons [' '] "exists".toList "(b)".toList _ _ rfl rfl rfl <|
    @Printed.cons [] ['('] "b)".toList _ _ rfl rfl rfl <|
    @Printed.cons [] ['b'] [')'] _ _ rfl rfl rfl <| @Printed.cons [] [')'] [] _ _ rfl rfl rfl <| Printed.nil rfl

/-- `EXISTS(items.0.id)`: the path is the one that the documentation of predicates gives as an example. -/
theorem nested_index_refused : ∃ e text, e.Grammatical ∧ Printed e.lexemes text ∧ ¬ Reads e text := by
  refine ⟨.exists ⟨"items".toList, [.index ['0'], .name "id".toList]⟩, "EXISTS(items.0.id)".toList,
    (by decide : Path.valid _ = true), ?_, ?_⟩
  · exact @Printed.cons [] "EXISTS".toList "(items.0.id)".toList _ _ rfl rfl rfl <|
      @Printed.cons [] ['('] "items.0.id)".toList _ _ rfl rfl rfl <|
      @Printed.cons [] "items.0.id".toList [')'] _ _ rfl rfl rfl <| @Printed.cons [] [')'] [] _ _ rfl rfl rfl <|
      Printed.nil rfl
  · rintro ⟨p, hparse, -⟩
    have hrefused : (parse "EXISTS(items.0.id)".toList).isOk = false := by decide +kernel
    rw [hparse] at hrefused
    cases hrefused

end PredicateParse

end ActantDb
