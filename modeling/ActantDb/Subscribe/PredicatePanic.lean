import ActantDb.Subscribe.PredicateBytes

/-!
# Where the predicate parser panics

The parser proper reads tokens and never panics, and six nested calls a token are enough for it. The lexer panics where it comes to a word that it cuts: one that meets a character beyond ASCII of which it takes the first byte for a letter of Latin-1 and a later one for none. Everything before that word must be whole lexemes, or another error is found first.
-/

namespace ActantDb

namespace PredicateParse

/-- Whole lexemes, and then a word that is cut within a character. -/
inductive Cut : List Char → Prop
  | first {c : Char} {rest : List Char} (hcut : cutsWord c = true) : Cut (c :: rest)
  | later {c d : Char} {w rest : List Char} (hstart : startsWord c = true) (hw : ∀ x ∈ c :: w, isWordChar x = true)
    (hcut : cutsWord d = true) : Cut (c :: (w ++ d :: rest))
  | after {w rest : List Char} (hwhole : Whole rest w) (hrest : Cut rest) : Cut (w ++ rest)

/-! ### The lexer -/

section Lexer

variable {total : Nat} {c : Char} {rest : List Char}

theorem cutsWord_eq (h : cutsWord c = true) : startsWord c = true ∧ isWordChar c = false := by
  rw [cutsWord, Bool.and_eq_true, Bool.and_eq_true, Bool.not_eq_true'] at h
  exact ⟨h.1.2, h.2⟩

theorem ite_ne {α : Type} {p : Prop} [Decidable p] {a b x : α} (ha : a ≠ x) (hb : b ≠ x) : (if p then a else b) ≠ x := by
  split <;> assumption

/-- The one place where a slice fails. -/
theorem readTok_panicked (h : readTok total c rest = .error .panicked) :
    startsWord c = true ∧ (cutsWord c || (rest.dropWhile isWordChar).head?.any cutsWord) = true := by
  by_cases hstart : startsWord c = true
  · rw [readTok_starts hstart] at h
    refine ⟨hstart, ?_⟩
    by_contra hcuts
    rw [if_neg hcuts] at h
    cases h
  · have hok (r : Option Tok × List Char) : (.ok r : Except ParseError (Option Tok × List Char)) ≠ .error .panicked :=
      fun h => by cases h
    refine absurd h ?_
    rw [readTok, if_neg hstart]
    refine ite_ne (hok _) (ite_ne (hok _) (ite_ne (hok _) (ite_ne (hok _) (ite_ne (hok _) ?_))))
    refine ite_ne (hok _) (ite_ne (hok _) (ite_ne (ite_ne (hok _) (hok _)) (ite_ne (ite_ne (hok _) (hok _)) ?_)))
    refine ite_ne ?_ (ite_ne ?_ fun h => by cases h)
    · -- a literal
      cases scanString c rest <;> exact fun h => by cases h
    · -- a number
      cases parseF64 (c :: rest.takeWhile isNumberChar) <;> exact fun h => by cases h

theorem cut_of_panicked (h : readTok total c rest = .error .panicked) : Cut (c :: rest) := by
  obtain ⟨hstart, hcuts⟩ := readTok_panicked h
  by_cases hcut : cutsWord c = true
  · exact .first hcut
  have hword : isWordChar c = true := by
    rw [startsWord_cases hstart, Bool.not_eq_true', Bool.not_eq_false] at hcut
    exact hcut
  rw [Bool.eq_false_iff.mpr hcut, Bool.false_or] at hcuts
  have hsplit := (List.takeWhile_append_dropWhile (p := isWordChar) (l := rest)).symm
  cases hdrop : rest.dropWhile isWordChar with
  | nil =>
    rw [hdrop] at hcuts
    cases hcuts
  | cons d after =>
    rw [hdrop] at hcuts hsplit
    rw [hsplit]
    refine .later hstart ?_ hcuts
    rintro x (_ | ⟨_, hx⟩)
    · exact hword
    · exact List.mem_takeWhile_imp hx

theorem cut_of_tokenizeFrom : ∀ {fuel : Nat} {s : List Char}, tokenizeFrom total fuel s = .error .panicked → Cut s
  | _, [], h => by
    rw [tokenizeFrom] at h
    cases h
  | 0, _ :: _, h => by
    rw [tokenizeFrom] at h
    cases h
  | fuel + 1, c :: rest, h => by
    rw [tokenizeFrom] at h
    cases hread : readTok total c rest with
    | error e =>
      rw [hread] at h
      cases h
      exact cut_of_panicked hread
    | ok found =>
      obtain ⟨t, after⟩ := found
      obtain ⟨w, rfl, hwhole⟩ := readTok_whole hread
      rw [hread] at h
      have hfrom : tokenizeFrom total fuel after = .error .panicked := by
        replace h : (tokenizeFrom total fuel after >>= fun ts => pure (t.toList ++ ts)) = .error .panicked := h
        cases hafter : tokenizeFrom total fuel after with
        | error e =>
          rw [hafter] at h
          cases h
          rfl
        | ok ts =>
          rw [hafter] at h
          cases h
      exact .after hwhole (cut_of_tokenizeFrom hfrom)

theorem whole_ne_nil {w : List Char} (h : Whole rest w) : w ≠ [] := by
  cases h <;> exact List.cons_ne_nil _ _

theorem Cut.tokenizeFrom {s : List Char} (h : Cut s) : ∀ fuel, s.length ≤ fuel → tokenizeFrom total fuel s = .error .panicked := by
  induction h with
  | @first c rest hcut =>
    intro fuel hfuel
    obtain ⟨n, rfl⟩ := Nat.exists_eq_add_of_le' (le_trans (Nat.succ_pos _) hfuel)
    rw [PredicateParse.tokenizeFrom, readTok_starts (cutsWord_eq hcut).1, hcut]
    rfl
  | @later c d w rest hstart hw hcut =>
    intro fuel hfuel
    obtain ⟨n, rfl⟩ := Nat.exists_eq_add_of_le' (le_trans (Nat.succ_pos _) hfuel)
    have hd : (d :: rest).head?.all (fun x => !isWordChar x) = true := by
      rw [List.head?_cons, Option.all_some, (cutsWord_eq hcut).2]
      rfl
    obtain ⟨-, hdrop⟩ := takeWhile_run (fun x hx => hw x (List.mem_cons_of_mem _ hx)) hd
    rw [PredicateParse.tokenizeFrom, readTok_starts hstart, hdrop, List.head?_cons, Option.any_some, hcut, Bool.or_true]
    rfl
  | @after w rest hwhole _ ih =>
    intro fuel hfuel
    cases w with
    | nil => exact absurd rfl (whole_ne_nil hwhole)
    | cons c w =>
      rw [List.length_append, List.length_cons] at hfuel
      obtain ⟨n, rfl⟩ := Nat.exists_eq_add_of_le' (show 1 ≤ fuel by omega)
      obtain ⟨t, hread⟩ := whole_reads total hwhole
      have hrest := ih n (by omega)
      rw [List.cons_append, PredicateParse.tokenizeFrom, hread]
      show (PredicateParse.tokenizeFrom total n rest >>= fun ts => pure (t.toList ++ ts)) = _
      rw [hrest]
      rfl

theorem tokenize_panicked_iff (src : List Char) : tokenize src = .error .panicked ↔ Cut src :=
  ⟨cut_of_tokenizeFrom, fun h => h.tokenizeFrom _ (le_refl _)⟩

end Lexer

/-! ### The parser -/

section Parser

variable {α β : Type} {n m : Nat} {r : Except ParseError (α × List Tok)} {k : α × List Tok → Except ParseError (β × List Tok)}

/-- No panic, and at most `n` tokens left. -/
structure Tame (n : Nat) (r : Except ParseError (α × List Tok)) : Prop where
  calm : r ≠ .error .panicked
  left : ∀ a rest, r = .ok (a, rest) → rest.length ≤ n

theorem tame_ok {a : α} {rest : List Tok} (h : rest.length ≤ n) : Tame n (.ok (a, rest)) :=
  ⟨(fun h => by cases h), fun _ _ heq => by
    cases heq
    exact h⟩

theorem tame_error {e : ParseError} (h : e ≠ .panicked) : Tame n (.error e : Except ParseError (α × List Tok)) :=
  ⟨fun heq => h (Except.error.inj heq), fun _ _ heq => by cases heq⟩

theorem Tame.mono (h : Tame n r) (hle : n ≤ m) : Tame m r := ⟨h.calm, fun a rest heq => le_trans (h.left a rest heq) hle⟩

theorem Tame.bind (h : Tame n r) (hk : ∀ a rest, rest.length ≤ n → Tame m (k (a, rest))) : Tame m (r >>= k) := by
  cases hr : r with
  | error e =>
    refine tame_error fun heq => h.calm ?_
    rw [hr, heq]
  | ok found => exact hk found.1 found.2 (h.left _ _ hr)

theorem tame_fieldTail : ∀ (path : List Char) (ts : List Tok), Tame ts.length (fieldTail path ts) := by
  intro path ts
  induction path, ts using fieldTail.induct with
  | case1 path s ts ih =>
    rw [fieldTail]
    exact ih.mono (by simp; omega)
  | case2 path n ts hindex ih =>
    rw [fieldTail, if_pos hindex]
    exact ih.mono (by simp; omega)
  | case3 path n ts hindex =>
    rw [fieldTail, if_neg hindex]
    exact tame_error fun h => by cases h
  | case4 path ts hident hnum =>
    rw [fieldTail]
    · exact tame_error fun h => by cases h
    · exact hident
    · exact hnum
  | case5 path ts hident hnum hdot =>
    rw [fieldTail]
    · exact tame_ok (le_refl _)
    all_goals assumption

theorem tame_parseField (ts : List Tok) : Tame ts.length (parseField ts) := by
  rw [parseField.eq_def]
  split
  · exact (tame_fieldTail _ _).mono (Nat.le_succ _)
  · exact tame_error fun h => by cases h

theorem tame_parseLiteral (ts : List Tok) : Tame ts.length (parseLiteral ts) := by
  rw [parseLiteral.eq_def]
  split
  case h_6 => exact tame_error fun h => by cases h
  case h_7 => exact tame_error fun h => by cases h
  all_goals exact tame_ok (Nat.le_succ _)

theorem tame_comparison {field : List Char} {value : Value} {op : Tok} {rest : List Tok} (h : rest.length ≤ n) :
    Tame n (comparison field value op >>= fun p => pure (p, rest)) := by
  cases op
  case eq | ne | lt | le | gt | ge => exact tame_ok h
  all_goals exact tame_error fun h => by cases h

theorem tame_parseComparison (ts : List Tok) : Tame ts.length (parseComparison ts) := by
  refine (tame_parseField ts).bind fun field ts' hts' => ?_
  cases ts' with
  | nil => exact tame_error fun h => by cases h
  | cons op ts' =>
    refine (tame_parseLiteral ts').bind fun value rest hrest => tame_comparison ?_
    exact le_trans hrest (le_trans (Nat.le_succ _) hts')

theorem tame_parseExists (ts : List Tok) : Tame ts.length (parseExists ts) := by
  rw [parseExists.eq_def]
  split
  · rename_i ts
    refine (tame_parseField ts).bind fun field ts' hts' => ?_
    dsimp only
    split
    · exact tame_ok (le_trans (Nat.le_succ _) (le_trans hts' (Nat.le_succ _)))
    · exact tame_error fun h => by cases h
  · exact tame_error fun h => by cases h

/-- What the calls do whose depth is bounded so. -/
structure TameAt (fuel : Nat) : Prop where
  or : ∀ ts, Tame ts.length (parseOr fuel ts)
  orLoop : ∀ left ts, Tame ts.length (orLoop fuel left ts)
  and : ∀ ts, Tame ts.length (parseAnd fuel ts)
  andLoop : ∀ left ts, Tame ts.length (andLoop fuel left ts)
  not : ∀ ts, Tame ts.length (parseNot fuel ts)
  atom : ∀ ts, Tame ts.length (parseAtom fuel ts)

theorem tameAt (fuel : Nat) : TameAt fuel := by
  induction fuel with
  | zero =>
    have hend (ts : List Tok) : Tame ts.length (.error .unexpectedEnd : Except ParseError (Predicate × List Tok)) :=
      tame_error fun h => by cases h
    exact ⟨hend, fun _ => hend, hend, fun _ => hend, hend, hend⟩
  | succ fuel ih =>
    refine ⟨fun ts => ?_, fun left ts => ?_, fun ts => ?_, fun left ts => ?_, fun ts => ?_, fun ts => ?_⟩
    · rw [parseOr]
      exact (ih.and ts).bind fun left rest hrest => (ih.orLoop left rest).mono hrest
    · rw [PredicateParse.orLoop.eq_def]
      dsimp only
      split
      · rename_i ts
        refine Tame.bind ((ih.and ts).mono (Nat.le_succ _)) fun right rest hrest => ?_
        exact (ih.orLoop _ rest).mono hrest
      · exact tame_ok (le_refl _)
    · rw [parseAnd]
      exact (ih.not ts).bind fun left rest hrest => (ih.andLoop left rest).mono hrest
    · rw [PredicateParse.andLoop.eq_def]
      dsimp only
      split
      · rename_i ts
        refine Tame.bind ((ih.not ts).mono (Nat.le_succ _)) fun right rest hrest => ?_
        exact (ih.andLoop _ rest).mono hrest
      · exact tame_ok (le_refl _)
    · rw [parseNot.eq_def]
      dsimp only
      split
      · rename_i ts
        exact Tame.bind (ih.not ts) fun inner rest hrest => tame_ok (le_trans hrest (Nat.le_succ _))
      · exact ih.atom ts
    · rw [parseAtom.eq_def]
      dsimp only
      split
      case h_1 ts =>
        refine Tame.bind (ih.or ts) fun inner rest hrest => ?_
        dsimp only
        split
        · exact tame_ok (le_trans (Nat.le_succ _) (le_trans hrest (Nat.le_succ _)))
        · exact tame_error fun h => by cases h
      case h_2 ts => exact (tame_parseExists ts).mono (Nat.le_succ _)
      case h_3 => exact tame_ok (Nat.le_succ _)
      case h_4 => exact tame_ok (Nat.le_succ _)
      case h_5 => exact tame_parseComparison _
      case h_6 => exact tame_error fun h => by cases h
      case h_7 => exact tame_error fun h => by cases h

theorem Tame.bind_congr {k' : α × List Tok → Except ParseError (β × List Tok)} (h : Tame n r)
    (hk : ∀ a rest, rest.length ≤ n → k (a, rest) = k' (a, rest)) : r >>= k = r >>= k' := by
  cases hr : r with
  | error e => rfl
  | ok found => exact hk found.1 found.2 (h.left _ _ hr)

/-- One call deeper makes no difference: of the six functions, each has its share of a token's six calls. -/
structure EnoughAt (fuel : Nat) : Prop where
  or : ∀ ts, 6 * ts.length + 4 ≤ fuel → parseOr (fuel + 1) ts = parseOr fuel ts
  orLoop : ∀ left ts, 6 * ts.length + 1 ≤ fuel → orLoop (fuel + 1) left ts = orLoop fuel left ts
  and : ∀ ts, 6 * ts.length + 3 ≤ fuel → parseAnd (fuel + 1) ts = parseAnd fuel ts
  andLoop : ∀ left ts, 6 * ts.length + 1 ≤ fuel → andLoop (fuel + 1) left ts = andLoop fuel left ts
  not : ∀ ts, 6 * ts.length + 2 ≤ fuel → parseNot (fuel + 1) ts = parseNot fuel ts
  atom : ∀ ts, 6 * ts.length + 1 ≤ fuel → parseAtom (fuel + 1) ts = parseAtom fuel ts

theorem enoughAt (fuel : Nat) : EnoughAt fuel := by
  induction fuel with
  | zero => constructor <;> intros <;> omega
  | succ fuel ih =>
    have htame := tameAt fuel
    refine ⟨fun ts h => ?_, fun left ts h => ?_, fun ts h => ?_, fun left ts h => ?_, fun ts h => ?_, fun ts h => ?_⟩
    · rw [parseOr, parseOr, ih.and ts (by omega)]
      exact (htame.and ts).bind_congr fun left rest hrest => ih.orLoop left rest (by omega)
    · rw [PredicateParse.orLoop.eq_def (fuel + 1 + 1), PredicateParse.orLoop.eq_def (fuel + 1)]
      dsimp only
      split
      · rename_i ts
        rw [List.length_cons] at h
        rw [ih.and ts (by omega)]
        exact (htame.and ts).bind_congr fun right rest hrest => ih.orLoop _ rest (by omega)
      · rfl
    · rw [parseAnd, parseAnd, ih.not ts (by omega)]
      exact (htame.not ts).bind_congr fun left rest hrest => ih.andLoop left rest (by omega)
    · rw [PredicateParse.andLoop.eq_def (fuel + 1 + 1), PredicateParse.andLoop.eq_def (fuel + 1)]
      dsimp only
      split
      · rename_i ts
        rw [List.length_cons] at h
        rw [ih.not ts (by omega)]
        exact (htame.not ts).bind_congr fun right rest hrest => ih.andLoop _ rest (by omega)
      · rfl
    · rw [parseNot.eq_def (fuel + 1 + 1), parseNot.eq_def (fuel + 1)]
      dsimp only
      split
      · rename_i ts
        rw [List.length_cons] at h
        rw [ih.not ts (by omega)]
      · exact ih.atom ts (by omega)
    · rw [parseAtom.eq_def (fuel + 1 + 1), parseAtom.eq_def (fuel + 1)]
      dsimp only
      split
      case h_1 ts =>
        rw [List.length_cons] at h
        rw [ih.or ts (by omega)]
      all_goals rfl

theorem parseOr_enough {ts : List Tok} {fuel : Nat} (h : 6 * ts.length + 4 ≤ fuel) :
    parseOr fuel ts = parseOr (6 * ts.length + 4) ts := by
  induction fuel, h using Nat.le_induction with
  | base => rfl
  | succ fuel hle ih => rw [(enoughAt fuel).or ts hle, ih]

end Parser

/-! ### The text -/

section Text

variable {src : List Char} {r : Except ParseError Predicate}

/-- Six calls for each token, and as many at the end, are enough. -/
theorem returns_parse (src : List Char) : Returns src (parse src) := by
  cases htoks : tokenize src with
  | error e =>
    refine ⟨0, fun fuel _ => ?_⟩
    rw [parseWithin, parse, tokenizeBytes_eq, htoks]
    rfl
  | ok toks =>
    refine ⟨6 * toks.length + 6, fun fuel hfuel => ?_⟩
    rw [parseWithin, parse, tokenizeBytes_eq, htoks]
    show (parseOr fuel toks >>= _) = (parseOr (6 * toks.length + 6) toks >>= _)
    rw [parseOr_enough (show 6 * toks.length + 4 ≤ fuel by omega),
      parseOr_enough (show 6 * toks.length + 4 ≤ 6 * toks.length + 6 by omega)]

theorem Returns.unique {r' : Except ParseError Predicate} (h : Returns src r) (h' : Returns src r') : r = r' := by
  obtain ⟨enough, h⟩ := h
  obtain ⟨enough', h'⟩ := h'
  rw [← h _ (le_max_left enough enough'), h' _ (le_max_right enough enough')]

theorem parse_panicked_iff (src : List Char) : parse src = .error .panicked ↔ tokenize src = .error .panicked := by
  rw [parse]
  cases htoks : tokenize src with
  | error e => exact ⟨fun h => by cases h; rfl, fun h => by cases h; rfl⟩
  | ok toks =>
    refine iff_of_false (fun h => ?_) fun h => by cases h
    have htame := (tameAt (6 * toks.length + 6)).or toks
    replace h : (parseOr (6 * toks.length + 6) toks >>= fun found =>
        if found.2.isEmpty then pure found.1 else .error (.trailing (toks.length - found.2.length))) =
      .error .panicked := h
    cases hparsed : parseOr (6 * toks.length + 6) toks with
    | error e =>
      rw [hparsed] at h
      refine htame.calm ?_
      rw [hparsed, Except.error.inj h]
    | ok found =>
      rw [hparsed] at h
      replace h : (if found.2.isEmpty then pure found.1 else .error (.trailing (toks.length - found.2.length))) =
        (.error .panicked : Except ParseError Predicate) := h
      split at h <;> cases h

/-- **A text is parsed or refused exactly where the lexer cuts no word.** -/
theorem parse_answers_iff (src : List Char) : (∃ r, Returns src r ∧ r ≠ .error .panicked) ↔ ¬ Cut src := by
  rw [← tokenize_panicked_iff, ← parse_panicked_iff]
  refine ⟨?_, fun h => ⟨parse src, returns_parse src, h⟩⟩
  rintro ⟨r, hr, hcalm⟩
  rw [(returns_parse src).unique hr]
  exact hcalm

/-- The first byte of `é` is a letter of Latin-1, and the second is not. -/
theorem accented_panics : ¬ ∃ r, Returns "café == 1".toList r ∧ r ≠ .error .panicked := by
  rintro ⟨r, ⟨enough, hr⟩, hcalm⟩
  refine hcalm ((hr enough (le_refl _)).symm.trans ?_)
  have hlexer : tokenizeBytes "café == 1".toList = .error .panicked := by decide +kernel
  rw [parseWithin, hlexer]
  rfl

end Text

end PredicateParse

end ActantDb
