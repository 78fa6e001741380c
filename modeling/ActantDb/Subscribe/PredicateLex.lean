import ActantDb.Subscribe.PredicateGrammar

/-!
# Reading lexemes

What the lexer makes of a lexeme: one token, or for a path the tokens of its segments and the points between them. A number that follows the point of a path is read with everything that could belong to a number, so a path is read as it is written only if its last segment is its one index.
-/

namespace ActantDb

namespace PredicateParse

variable {total : Nat} {c : Char} {w rest : List Char} {ts : List Tok}

/-! ### Characters -/

section Characters

theorem letter_bounds (h : (c.isAlpha || c = '_') = true) : 65 ≤ c.toNat ∧ c.toNat < 128 := by
  rw [Bool.or_eq_true, decide_eq_true_eq] at h
  rcases h with h | rfl
  · simp only [Char.isAlpha, Char.isUpper, Char.isLower, Bool.or_eq_true, Bool.and_eq_true, decide_eq_true_eq,
      UInt32.le_iff_toNat_le, ge_iff_le] at h
    have hval : c.toNat = c.val.toNat := rfl
    rw [hval]
    rcases h with ⟨h1, h2⟩ | ⟨h1, h2⟩
    · exact ⟨h1, lt_of_le_of_lt h2 (by decide)⟩
    · exact ⟨le_trans (by decide) h1, lt_of_le_of_lt h2 (by decide)⟩
  · decide

theorem digit_bounds (h : c.isDigit = true) : 48 ≤ c.toNat ∧ c.toNat ≤ 57 := by
  simp only [Char.isDigit, Bool.and_eq_true, decide_eq_true_eq, UInt32.le_iff_toNat_le, ge_iff_le] at h
  exact h

theorem wordLetter_lt (h : isWordLetter c = true) : c.toNat < 128 := by
  rw [isWordLetter, Char.isAlphanum, Bool.or_eq_true, Bool.or_eq_true, decide_eq_true_eq] at h
  rcases h with (h | h) | rfl
  · exact (letter_bounds (by rw [h]; rfl)).2
  · exact lt_of_le_of_lt (digit_bounds h).2 (by decide)
  · decide

theorem isWordChar_of_letter (h : isWordLetter c = true) : isWordChar c = true := by
  rw [isWordChar, if_pos (wordLetter_lt h)]
  exact h

theorem not_runsOn (h : Lexeme.runsOn c = false) : isWordChar c = false ∧ cutsWord c = false := by
  rw [Lexeme.runsOn, Bool.or_eq_false_iff, decide_eq_false_iff_not, not_le] at h
  rw [isWordChar, if_pos h.2, cutsWord, decide_eq_false (not_le.mpr h.2)]
  exact ⟨h.1, rfl⟩

theorem takeWhile_stop {p : Char → Bool} (h : rest.head?.all (fun c => !p c) = true) :
    rest.takeWhile p = [] ∧ rest.dropWhile p = rest := by
  cases rest with
  | nil => exact ⟨rfl, rfl⟩
  | cons c rest =>
    have hc : p c = false := by simpa using h
    simp [hc]

/-- A run that stops before what follows. -/
theorem takeWhile_run {p : Char → Bool} (hw : ∀ d ∈ w, p d = true) (h : rest.head?.all (fun c => !p c) = true) :
    (w ++ rest).takeWhile p = w ∧ (w ++ rest).dropWhile p = rest := by
  obtain ⟨htake, hdrop⟩ := takeWhile_stop h
  rw [List.takeWhile_append_of_pos hw, List.dropWhile_append_of_pos hw, htake, hdrop, List.append_nil]
  exact ⟨rfl, rfl⟩

end Characters

/-! ### One token -/

/-- The lexer reads the text as the tokens. -/
def Tokenizes (total : Nat) (s : List Char) (ts : List Tok) : Prop :=
  ∀ fuel, s.length ≤ fuel → tokenizeFrom total fuel s = .ok ts

theorem tokenizes_nil : Tokenizes total [] [] := by
  intro fuel _
  cases fuel <;> rfl

theorem tokenizes_cons {t : Option Tok} {after : List Char} (h : readTok total c rest = .ok (t, after))
    (hlength : after.length ≤ rest.length) (hafter : Tokenizes total after ts) :
    Tokenizes total (c :: rest) (t.toList ++ ts) := by
  intro fuel hfuel
  cases fuel with
  | zero => cases hfuel
  | succ fuel =>
    have hrest : tokenizeFrom total fuel after = .ok ts :=
      hafter fuel (le_trans hlength (Nat.le_of_succ_le_succ hfuel))
    rw [tokenizeFrom, h]
    show (tokenizeFrom total fuel after >>= fun ts => pure (t.toList ++ ts)) = _
    rw [hrest]
    rfl

theorem tokenizes_spaces {spaces : List Char} (h : spaces.all isSpace = true) (hrest : Tokenizes total rest ts) :
    Tokenizes total (spaces ++ rest) ts := by
  induction spaces with
  | nil => exact hrest
  | cons c spaces ih =>
    rw [List.all_cons, Bool.and_eq_true] at h
    have hread : readTok total c (spaces ++ rest) = .ok (none, spaces ++ rest) := by
      rw [readTok, if_pos h.1]
    exact tokenizes_cons hread (le_refl _) (ih h.2)

theorem startsWord_bound (h : startsWord c = true) : 65 ≤ c.toNat := by
  rw [startsWord] at h
  split at h
  · exact (letter_bounds h).1
  · omega

/-- What is read where a word begins. -/
theorem readTok_starts (hstart : startsWord c = true) :
    readTok total c rest =
      if cutsWord c || (rest.dropWhile isWordChar).head?.any cutsWord then .error .panicked
      else .ok (some (wordTok (c :: rest.takeWhile isWordChar)), rest.dropWhile isWordChar) := by
  have hlow := startsWord_bound hstart
  have hne : ∀ d : Char, d.toNat < 65 → c ≠ d := by
    rintro d hd rfl
    omega
  have hspace : ¬ isSpace c = true := by
    simp only [isSpace, Bool.or_eq_true, Bool.and_eq_true, decide_eq_true_eq]
    omega
  have hdigit : ¬ (c.isDigit = true ∨ c = '-' ∧ rest.head?.any Char.isDigit = true) := by
    rintro (hdigit | ⟨hminus, -⟩)
    · have := (digit_bounds hdigit).2
      omega
    · exact hne '-' (by decide) hminus
  rw [readTok, if_neg hspace, if_neg (hne _ (by decide)), if_neg (hne _ (by decide)), if_neg (hne _ (by decide)),
    if_neg (hne _ (by decide)), if_neg fun h => hne _ (by decide) h.1, if_neg fun h => hne _ (by decide) h.1,
    if_neg (hne _ (by decide)), if_neg (hne _ (by decide)), if_neg (by rintro (h | h) <;> exact hne _ (by decide) h),
    if_neg hdigit, if_pos hstart]

theorem readTok_word (hc : (c.isAlpha || c = '_') = true) (hw : ∀ d ∈ w, isWordLetter d = true)
    (hstop : rest.head?.all (fun c => !Lexeme.runsOn c) = true) :
    readTok total c (w ++ rest) = .ok (some (wordTok (c :: w)), rest) := by
  have hhigh := (letter_bounds hc).2
  have hstarts : startsWord c = true := by
    rw [startsWord, if_pos hhigh]
    exact hc
  have hcuts : cutsWord c = false := by
    rw [cutsWord, decide_eq_false (not_le.mpr hhigh)]
    rfl
  have hends : rest.head?.all (fun c => !isWordChar c) = true ∧ rest.head?.any cutsWord = false := by
    cases rest with
    | nil => exact ⟨rfl, rfl⟩
    | cons d rest =>
      have hd : Lexeme.runsOn d = false := by simpa using hstop
      obtain ⟨hword, hcut⟩ := not_runsOn hd
      simp [hword, hcut]
  obtain ⟨htake, hdrop⟩ := takeWhile_run (fun d hd => isWordChar_of_letter (hw d hd)) hends.1
  rw [readTok_starts hstarts, htake, hdrop, hcuts, hends.2]
  rfl

/-- A number is read with every character that could belong to one. -/
theorem readTok_number {n : F64} (hc : c.isDigit = true ∨ c = '-' ∧ w.head?.any Char.isDigit = true)
    (hw : ∀ d ∈ w, isNumberChar d = true) (hstop : rest.head?.all (fun c => !isNumberChar c) = true)
    (hparse : parseF64 (c :: w) = some n) : readTok total c (w ++ rest) = .ok (some (.num n), rest) := by
  obtain ⟨htake, hdrop⟩ := takeWhile_run hw hstop
  have hhead : c.isDigit = true ∨ c = '-' ∧ (w ++ rest).head?.any Char.isDigit = true := by
    refine hc.imp_right fun ⟨hminus, hnext⟩ => ⟨hminus, ?_⟩
    cases w with
    | nil => cases hnext
    | cons d w => exact hnext
  have hbounds : c = '-' ∨ 48 ≤ c.toNat ∧ c.toNat ≤ 57 := by
    rcases hc with hdigit | ⟨hminus, -⟩
    · exact Or.inr (digit_bounds hdigit)
    · exact Or.inl hminus
  have hne : ∀ d : Char, d ≠ '-' → (d.toNat < 48 ∨ 57 < d.toNat) → c ≠ d := by
    rintro d hminus hd rfl
    rcases hbounds with rfl | hbounds
    · exact hminus rfl
    · omega
  have hspace : ¬ isSpace c = true := by
    rcases hbounds with rfl | hbounds
    · decide
    · simp only [isSpace, Bool.or_eq_true, Bool.and_eq_true, decide_eq_true_eq]
      omega
  rw [readTok, if_neg hspace, if_neg (hne _ (by decide) (by decide)), if_neg (hne _ (by decide) (by decide)),
    if_neg (hne _ (by decide) (by decide)), if_neg (hne _ (by decide) (by decide)),
    if_neg fun h => hne _ (by decide) (by decide) h.1, if_neg fun h => hne _ (by decide) (by decide) h.1,
    if_neg (hne _ (by decide) (by decide)), if_neg (hne _ (by decide) (by decide)),
    if_neg (by rintro (h | h) <;> exact hne _ (by decide) (by decide) h), if_pos hhead, htake, hparse, hdrop]

/-! ### Strings -/

theorem scanString_closed {quote : Char} : ∀ {w : List Char}, closed quote w = true →
    scanString quote (w ++ quote :: rest) = some (w, rest)
  | [], _ => by simp [scanString.eq_def]
  | [c], h => by
    have hquote : c ≠ quote := by
      rintro rfl
      simp [closed.eq_def] at h
    have hescape : c ≠ '\\' := by
      rintro rfl
      simp [closed.eq_def] at h
    have hnext : scanString quote ([] ++ quote :: rest) = some ([], rest) := by simp [scanString.eq_def]
    rw [List.nil_append] at hnext
    rw [List.cons_append, List.nil_append, scanString.eq_def]
    simp [hquote, hescape, hnext]
  | c :: d :: w, h => by
    have hquote : c ≠ quote := by
      rintro rfl
      simp [closed.eq_def] at h
    rw [closed.eq_def] at h
    rw [scanString.eq_def]
    by_cases hescape : c = '\\'
    · subst hescape
      have hw : closed quote w = true := by simpa [hquote] using h
      have hnext := scanString_closed hw
      simp [hquote, hnext]
    · have hw : closed quote (d :: w) = true := by simpa [hquote, hescape] using h
      have hnext := scanString_closed hw
      rw [List.cons_append] at hnext
      simp [hquote, hescape, hnext]

theorem readTok_string {quote : Char} (hquote : quote = '"' ∨ quote = '\'') (hclosed : closed quote w = true) :
    readTok total quote ((w ++ [quote]) ++ rest) = .ok (some (.str (unescape w)), rest) := by
  have hscan : scanString quote ((w ++ [quote]) ++ rest) = some (w, rest) := by
    rw [List.append_assoc]
    exact scanString_closed hclosed
  have hne : ∀ d : Char, d ≠ '"' → d ≠ '\'' → quote ≠ d := by
    rintro d h1 h2 rfl
    rcases hquote with h | h
    · exact h1 h
    · exact h2 h
  have hspace : ¬ isSpace quote = true := by
    rcases hquote with rfl | rfl <;> decide
  rw [readTok, if_neg hspace, if_neg (hne _ (by decide) (by decide)), if_neg (hne _ (by decide) (by decide)),
    if_neg (hne _ (by decide) (by decide)), if_neg (hne _ (by decide) (by decide)),
    if_neg fun h => hne _ (by decide) (by decide) h.1, if_neg fun h => hne _ (by decide) (by decide) h.1,
    if_neg (hne _ (by decide) (by decide)), if_neg (hne _ (by decide) (by decide)), if_pos hquote, hscan]

/-! A text is runs of backslashes with a character after each. What the three replacements make of a run is what reading it once does. -/

section Escapes

variable {d : Char} {k : Nat}

theorem replaceEscaped_cons (h : ¬ (c = '\\' ∧ w.head? = some d)) :
    replaceEscaped d (c :: w) = c :: replaceEscaped d w := by
  cases w with
  | nil => simp [replaceEscaped]
  | cons b w =>
    rw [replaceEscaped, if_neg]
    rintro ⟨hc, hb⟩
    exact h ⟨hc, by rw [hb]; rfl⟩

theorem replaceEscaped_run (hd : d ≠ '\\') (hc : c ≠ '\\') : ∀ k,
    replaceEscaped d (List.replicate k '\\' ++ c :: w) =
      List.replicate (if c = d then k - 1 else k) '\\' ++ c :: replaceEscaped d w
  | 0 => by
    have hplain := replaceEscaped_cons (w := w) (d := d) fun h => hc h.1
    simp [hplain]
  | 1 => by
    have hplain := replaceEscaped_cons (w := w) (d := d) fun h => hc h.1
    by_cases hcd : c = d
    · subst hcd
      simp [replaceEscaped]
    · simp [replaceEscaped, hcd, hplain]
  | k + 2 => by
    have ih := replaceEscaped_run hd hc (k + 1)
    have hstep : replaceEscaped d ('\\' :: (List.replicate (k + 1) '\\' ++ c :: w)) =
        '\\' :: replaceEscaped d (List.replicate (k + 1) '\\' ++ c :: w) :=
      replaceEscaped_cons fun h => hd (Option.some.inj (by simpa [List.replicate_succ] using h.2)).symm
    rw [List.replicate_succ, List.cons_append, hstep, ih]
    by_cases hcd : c = d
    · simp [hcd, List.replicate_succ]
    · simp [hcd, List.replicate_succ]

theorem replaceEscaped_end (hd : d ≠ '\\') : ∀ k, replaceEscaped d (List.replicate k '\\') = List.replicate k '\\'
  | 0 => rfl
  | 1 => rfl
  | k + 2 => by
    have ih := replaceEscaped_end hd (k + 1)
    have hstep : replaceEscaped d ('\\' :: List.replicate (k + 1) '\\') =
        '\\' :: replaceEscaped d (List.replicate (k + 1) '\\') :=
      replaceEscaped_cons fun h => hd (Option.some.inj (by simpa [List.replicate_succ] using h.2)).symm
    rw [List.replicate_succ, hstep, ih]

theorem replaceEscaped_backslash_run (hc : c ≠ '\\') : ∀ k,
    replaceEscaped '\\' (List.replicate k '\\' ++ c :: w) =
      List.replicate ((k + 1) / 2) '\\' ++ c :: replaceEscaped '\\' w
  | 0 => by
    have hplain := replaceEscaped_cons (w := w) (d := '\\') fun h => hc h.1
    simp [hplain]
  | 1 => by
    have hplain := replaceEscaped_cons (w := w) (d := '\\') fun h => hc h.1
    simp [replaceEscaped, hc, hplain]
  | k + 2 => by
    have ih := replaceEscaped_backslash_run hc k
    have hhalf : (k + 2 + 1) / 2 = (k + 1) / 2 + 1 := by omega
    rw [hhalf, List.replicate_succ, List.replicate_succ, List.replicate_succ, List.cons_append, List.cons_append,
      replaceEscaped, if_pos ⟨rfl, rfl⟩, ih, List.cons_append]

theorem replaceEscaped_backslash_end : ∀ k,
    replaceEscaped '\\' (List.replicate k '\\') = List.replicate ((k + 1) / 2) '\\'
  | 0 => rfl
  | 1 => rfl
  | k + 2 => by
    have hhalf : (k + 2 + 1) / 2 = (k + 1) / 2 + 1 := by omega
    rw [hhalf, List.replicate_succ, List.replicate_succ, List.replicate_succ, replaceEscaped, if_pos ⟨rfl, rfl⟩,
      replaceEscaped_backslash_end k]

def isQuote (c : Char) : Bool := c = '"' || c = '\''

theorem decode_cons (hc : c ≠ '\\') : decode (c :: w) = c :: decode w := by
  cases w with
  | nil => simp [decode]
  | cons b w => rw [decode, if_neg hc]

theorem decode_run (hc : c ≠ '\\') : ∀ k,
    decode (List.replicate k '\\' ++ c :: w) =
      List.replicate (if isQuote c then k / 2 else (k + 1) / 2) '\\' ++ c :: decode w
  | 0 => by simp [decode_cons hc]
  | 1 => by
    by_cases hq : c = '"' ∨ c = '\''
    · have hquote : isQuote c = true := by simpa [isQuote] using hq
      have hany : c = '"' ∨ c = '\'' ∨ c = '\\' := hq.imp_right Or.inl
      simp [decode, hquote, hany]
    · have hquote : isQuote c = false := by simpa [isQuote, not_or] using hq
      have hany : ¬ (c = '"' ∨ c = '\'' ∨ c = '\\') := by
        rintro (h | h | h)
        · exact hq (Or.inl h)
        · exact hq (Or.inr h)
        · exact hc h
      simp [decode, hquote, hany]
  | k + 2 => by
    have ih := decode_run hc k
    have hhalf : (k + 2 + 1) / 2 = (k + 1) / 2 + 1 := by omega
    have hhalf' : (k + 2) / 2 = k / 2 + 1 := by omega
    rw [hhalf, hhalf', List.replicate_succ, List.replicate_succ, List.cons_append, List.cons_append, decode,
      if_pos rfl, if_pos (Or.inr (Or.inr rfl)), ih]
    split <;> rw [List.replicate_succ, List.cons_append]

theorem decode_end : ∀ k, decode (List.replicate k '\\') = List.replicate ((k + 1) / 2) '\\'
  | 0 => rfl
  | 1 => rfl
  | k + 2 => by
    have hhalf : (k + 2 + 1) / 2 = (k + 1) / 2 + 1 := by omega
    rw [hhalf, List.replicate_succ, List.replicate_succ, List.replicate_succ, decode, if_pos rfl,
      if_pos (Or.inr (Or.inr rfl)), decode_end k]

/-- A text is a run of backslashes, and then ends or goes on with another character. -/
theorem exists_run : ∀ w : List Char, ∃ k, w = List.replicate k '\\' ∨
    ∃ c rest, c ≠ '\\' ∧ w = List.replicate k '\\' ++ c :: rest
  | [] => ⟨0, Or.inl rfl⟩
  | c :: w => by
    by_cases hc : c = '\\'
    · obtain ⟨k, rfl | ⟨d, rest, hd, rfl⟩⟩ := exists_run w
      · exact ⟨k + 1, Or.inl (by rw [hc, List.replicate_succ])⟩
      · exact ⟨k + 1, Or.inr ⟨d, rest, hd, by rw [hc, List.replicate_succ, List.cons_append]⟩⟩
    · exact ⟨0, Or.inr ⟨c, w, hc, rfl⟩⟩

/-- **Three replacements read every escape once.** -/
theorem unescape_eq_decode (w : List Char) : unescape w = decode w := by
  induction hn : w.length using Nat.strong_induction_on generalizing w with
  | _ n ih =>
    obtain ⟨k, rfl | ⟨c, rest, hc, rfl⟩⟩ := exists_run w
    · rw [unescape, replaceEscaped_end (by decide), replaceEscaped_end (by decide), replaceEscaped_backslash_end,
        decode_end]
    · have hrest : unescape rest = decode rest := by
        refine ih rest.length ?_ rest rfl
        rw [← hn]
        simp
        omega
      rw [unescape] at hrest
      rw [unescape, replaceEscaped_run (by decide) hc, replaceEscaped_run (by decide) hc,
        replaceEscaped_backslash_run hc, decode_run hc, hrest]
      have hrun : ((if c = '\'' then (if c = '"' then k - 1 else k) - 1 else if c = '"' then k - 1 else k) + 1) / 2 =
          if isQuote c then k / 2 else (k + 1) / 2 := by
        by_cases h1 : c = '"'
        · subst h1
          simp [isQuote]
          omega
        · by_cases h2 : c = '\''
          · subst h2
            simp [isQuote]
            omega
          · simp [isQuote, h1, h2]
      rw [hrun]

end Escapes

/-! ### Words -/

theorem wordTok_ident (h : isIdent w = true) : wordTok w = .ident w := by
  cases w with
  | nil => cases h
  | cons c w =>
    rw [isIdent, Bool.and_eq_true] at h
    have hkeyword := h.2
    simp only [keywords, List.contains_eq_mem, List.mem_cons, List.not_mem_nil, or_false, decide_eq_false_iff_not,
      Bool.not_eq_true', not_or] at hkeyword
    obtain ⟨h1, h2, h3, h4, h5, h6, h7⟩ := hkeyword
    rw [wordTok, if_neg h1, if_neg h2, if_neg h3, if_neg h4, if_neg h5, if_neg h6, if_neg h7]

theorem isAlpha_of_toUpper (h : c.toUpper.isUpper = true) : c.isAlpha = true := by
  rw [Char.isAlpha]
  by_cases hlower : c.isLower = true
  · rw [hlower, Bool.or_true]
  · have hsame : c.toUpper = c := by
      rw [Char.toUpper]
      split
      · rename_i hcase
        refine absurd ?_ hlower
        simp only [Char.isLower, Bool.and_eq_true, decide_eq_true_eq]
        exact hcase
      · rfl
    rw [hsame] at h
    rw [h, Bool.true_or]

def Keyword.tok : Keyword → Tok
  | .and => .and
  | .or => .or
  | .not => .not
  | .exists => .exists
  | .true => .true
  | .false => .false
  | .null => .null

theorem wordTok_keyword {k : Keyword} (h : w.map Char.toUpper = k.text.toList) : wordTok w = k.tok := by
  rw [wordTok, h, String.ofList_toList]
  cases k <;> rfl

/-- A keyword in any letter case. -/
theorem tokenizes_keyword {k : Keyword} (h : w.map Char.toUpper = k.text.toList)
    (hstop : rest.head?.all (fun c => !Lexeme.runsOn c) = true) (hrest : Tokenizes total rest ts) :
    Tokenizes total (w ++ rest) (k.tok :: ts) := by
  have hupper : k.text.toList.all Char.isUpper = true := by cases k <;> decide
  have halpha : ∀ d ∈ w, d.isAlpha = true := by
    intro d hd
    refine isAlpha_of_toUpper (List.all_eq_true.mp hupper _ ?_)
    rw [← h]
    exact List.mem_map_of_mem hd
  cases w with
  | nil => cases k <;> cases h
  | cons c w =>
    have hread : readTok total c (w ++ rest) = .ok (some (wordTok (c :: w)), rest) := by
      refine readTok_word (by rw [halpha c List.mem_cons_self]; rfl) (fun d hd => ?_) hstop
      rw [isWordLetter, Char.isAlphanum, halpha d (List.mem_cons_of_mem _ hd)]
      rfl
    rw [wordTok_keyword h] at hread
    exact tokenizes_cons hread (by simp) hrest

theorem tokenizes_ident (h : isIdent w = true) (hstop : rest.head?.all (fun c => !Lexeme.runsOn c) = true)
    (hrest : Tokenizes total rest ts) : Tokenizes total (w ++ rest) (.ident w :: ts) := by
  have hword := wordTok_ident h
  cases w with
  | nil => cases h
  | cons c w =>
    rw [isIdent, Bool.and_eq_true, Bool.and_eq_true] at h
    have hread : readTok total c (w ++ rest) = .ok (some (wordTok (c :: w)), rest) :=
      readTok_word h.1.1 (fun d hd => List.all_eq_true.mp h.1.2 d hd) hstop
    rw [hword] at hread
    exact tokenizes_cons hread (by simp) hrest

/-! ### Numbers -/

section Numbers

variable {n : Numeral}

theorem isDigits_eq {s : List Char} (h : isDigits s = true) : s ≠ [] ∧ ∀ d ∈ s, d.isDigit = true := by
  rw [isDigits, Bool.and_eq_true, List.all_eq_true] at h
  refine ⟨?_, h.2⟩
  rintro rfl
  cases h.1

theorem exponent_starts {e : Exponent} (h : e.valid = true) : e.marker = 'e' ∨ e.marker = 'E' := by
  rw [Exponent.valid, Bool.and_eq_true, Bool.and_eq_true, Bool.or_eq_true, decide_eq_true_eq, decide_eq_true_eq] at h
  exact h.1.1

theorem exponentText_head (h : n.valid = true) :
    n.exponentText.head?.all (fun c => !c.isDigit) = true ∧ n.exponentText.head? ≠ some '.' := by
  rw [Numeral.valid, Bool.and_eq_true] at h
  rw [Numeral.exponentText]
  cases he : n.exponent with
  | none => exact ⟨rfl, fun h => by cases h⟩
  | some e =>
    rw [he] at h
    rw [Option.elim_some, Exponent.text, List.head?_cons]
    rcases exponent_starts h.2 with hmarker | hmarker <;> rw [hmarker] <;> decide

theorem splitFraction_eq (h : n.valid = true) :
    splitFraction (n.fractionText ++ n.exponentText) = (n.fraction.getD [], n.exponentText) := by
  obtain ⟨hdigit, hpoint⟩ := exponentText_head h
  rw [Numeral.fractionText]
  cases hf : n.fraction with
  | none =>
    show splitFraction n.exponentText = ([], n.exponentText)
    cases hx : n.exponentText with
    | nil => rfl
    | cons c w =>
      rw [splitFraction.eq_def]
      split
      · rename_i heq
        cases heq
        rw [hx] at hpoint
        exact absurd rfl hpoint
      · rfl
  | some digits =>
    rw [Numeral.valid, Bool.and_eq_true, Bool.and_eq_true, hf] at h
    obtain ⟨htake, hdrop⟩ := takeWhile_run (isDigits_eq h.1.2).2 hdigit
    show ((digits ++ n.exponentText).takeWhile Char.isDigit, (digits ++ n.exponentText).dropWhile Char.isDigit) = _
    rw [htake, hdrop]
    rfl

def Numeral.scale (n : Numeral) : Int :=
  match n.exponent with
  | none => 0
  | some e => if e.sign = ['-'] then -(digitsValue e.digits : Int) else digitsValue e.digits

theorem parseExponent_eq (h : n.valid = true) : parseExponent n.exponentText = some n.scale := by
  rw [Numeral.exponentText, Numeral.scale]
  cases he : n.exponent with
  | none => rfl
  | some e =>
    rw [Numeral.valid, Bool.and_eq_true, he] at h
    have hvalid : e.valid = true := h.2
    have hmarker := exponent_starts hvalid
    rw [Exponent.valid, Bool.and_eq_true, Bool.and_eq_true] at hvalid
    obtain ⟨⟨-, hsign⟩, hdigits⟩ := hvalid
    obtain ⟨hne, hall⟩ := isDigits_eq hdigits
    have hallDigits : e.digits.all Char.isDigit = true := List.all_eq_true.mpr hall
    rw [Option.elim_some, Exponent.text, parseExponent]
    simp only [Bool.or_eq_true, decide_eq_true_eq] at hsign
    rcases hsign with (hsign | hsign) | hsign
    · have hhead : ¬ (e.digits.head? = some '-' ∨ e.digits.head? = some '+') := by
        cases hd : e.digits with
        | nil => exact absurd hd hne
        | cons d ds =>
          have hdigit := hall d (hd ▸ List.mem_cons_self)
          rintro (h | h) <;> cases h <;> exact absurd hdigit (by decide)
      obtain ⟨hminus, hplus⟩ := not_or.mp hhead
      simp only [hsign, List.nil_append, hminus, hplus, hmarker, hne, hallDigits, or_self, if_false, ne_eq,
        not_false_eq_true, and_self, if_true]
      rfl
    · simp [hsign, hmarker, hne, hallDigits]
    · simp [hsign, hmarker, hne, hallDigits]

theorem unsigned_head (h : n.valid = true) : ∃ d w, n.unsigned = d :: w ∧ d.isDigit = true := by
  rw [Numeral.valid, Bool.and_eq_true, Bool.and_eq_true] at h
  obtain ⟨hne, hall⟩ := isDigits_eq h.1.1
  cases hw : n.whole with
  | nil => exact absurd hw hne
  | cons d w => exact ⟨d, w ++ (n.fractionText ++ n.exponentText), by rw [Numeral.unsigned, hw]; rfl,
      hall d (hw ▸ List.mem_cons_self)⟩

/-- **A numeral is parsed** as the double nearest to it. -/
theorem parseF64_text (h : n.valid = true) : parseF64 n.text = some n.double := by
  obtain ⟨d, w, hunsigned, hdigit⟩ := unsigned_head h
  have hminus : d ≠ '-' := by
    rintro rfl
    exact absurd hdigit (by decide)
  have hsign : (n.text.head? = some '-' ↔ n.negative = true) ∧
      (if n.negative = true then n.text.tail else n.text) = n.unsigned := by
    rw [Numeral.text]
    cases n.negative with
    | true => simp
    | false => simp [hunsigned, hminus]
  have hstop : (n.fractionText ++ n.exponentText).head?.all (fun c => !c.isDigit) = true := by
    rw [Numeral.fractionText]
    cases n.fraction with
    | none => exact (exponentText_head h).1
    | some digits => rfl
  have hwhole : n.unsigned.takeWhile Char.isDigit = n.whole ∧
      n.unsigned.dropWhile Char.isDigit = n.fractionText ++ n.exponentText := by
    have hvalid := h
    rw [Numeral.valid, Bool.and_eq_true, Bool.and_eq_true] at hvalid
    exact takeWhile_run (isDigits_eq hvalid.1.1).2 hstop
  rw [parseF64]
  simp only [hsign.1, hsign.2, hwhole.1, hwhole.2, splitFraction_eq h, parseExponent_eq h, Option.map_some,
    Bool.decide_eq_true]
  rfl

theorem digits_numberChars {s : List Char} (h : isDigits s = true) : ∀ d ∈ s, isNumberChar d = true := by
  intro d hd
  rw [isNumberChar, (isDigits_eq h).2 d hd]
  rfl

theorem unsigned_numberChars (h : n.valid = true) : ∀ d ∈ n.unsigned, isNumberChar d = true := by
  have hvalid := h
  rw [Numeral.valid, Bool.and_eq_true, Bool.and_eq_true] at hvalid
  intro d hd
  rw [Numeral.unsigned, List.mem_append, List.mem_append] at hd
  rcases hd with hd | hd | hd
  · exact digits_numberChars hvalid.1.1 d hd
  · rw [Numeral.fractionText] at hd
    cases hf : n.fraction with
    | none =>
      rw [hf] at hd
      cases hd
    | some digits =>
      rw [hf] at hd hvalid
      rcases List.mem_cons.mp hd with rfl | hin
      · decide
      · exact digits_numberChars hvalid.1.2 d hin
  · rw [Numeral.exponentText] at hd
    cases he : n.exponent with
    | none =>
      rw [he] at hd
      cases hd
    | some e =>
      rw [he] at hd hvalid
      have hexp : e.valid = true := hvalid.2
      rcases List.mem_cons.mp hd with rfl | hin
      · rcases exponent_starts hexp with hmarker | hmarker <;> rw [hmarker] <;> decide
      · rw [Exponent.valid, Bool.and_eq_true, Bool.and_eq_true] at hexp
        rcases List.mem_append.mp hin with hsign | hdigit
        · have hsigns := hexp.1.2
          simp only [Bool.or_eq_true, decide_eq_true_eq] at hsigns
          rcases hsigns with (hnone | hplus) | hminus
          · rw [hnone] at hsign
            cases hsign
          · rw [hplus, List.mem_singleton] at hsign
            rw [hsign]
            decide
          · rw [hminus, List.mem_singleton] at hsign
            rw [hsign]
            decide
        · exact digits_numberChars hexp.2 d hdigit

theorem tokenizes_number (h : n.valid = true) (hstop : rest.head?.all (fun c => !isNumberChar c) = true)
    (hrest : Tokenizes total rest ts) : Tokenizes total (n.text ++ rest) (.num n.double :: ts) := by
  obtain ⟨d, w, hunsigned, hdigit⟩ := unsigned_head h
  have hchars := unsigned_numberChars h
  have hparse := parseF64_text h
  rw [Numeral.text] at hparse ⊢
  cases hnegative : n.negative with
  | true =>
    rw [hnegative, if_pos rfl] at hparse
    rw [if_pos rfl]
    refine tokenizes_cons (readTok_number (Or.inr ⟨rfl, ?_⟩) hchars hstop hparse) (by simp) hrest
    rw [hunsigned]
    exact hdigit
  | false =>
    rw [hnegative, if_neg Bool.false_ne_true, hunsigned] at hparse
    rw [if_neg Bool.false_ne_true, hunsigned]
    rw [hunsigned] at hchars
    exact tokenizes_cons (readTok_number (Or.inl hdigit) (fun d hd => hchars d (List.mem_cons_of_mem _ hd)) hstop hparse)
      (by simp) hrest

end Numbers

/-! ### Lexemes -/

/-- The double that an index is read as. -/
def indexDouble (digits : List Char) : F64 := Numeral.double ⟨false, digits, none, none⟩

def Segment.toks : Segment → List Tok
  | .name s => [.dot, .ident s]
  | .index digits => [.dot, .num (indexDouble digits)]

def Op.tok : Op → Tok
  | .eq => .eq
  | .ne => .ne
  | .lt => .lt
  | .le => .le
  | .gt => .gt
  | .ge => .ge

def Path.toks (p : Path) : List Tok := .ident p.first :: p.rest.flatMap Segment.toks

def Lexeme.toks : Lexeme → List Tok
  | lparen => [.lparen]
  | rparen => [.rparen]
  | op o => [o.tok]
  | keyword k => [k.tok]
  | path p => p.toks
  | string _ raw => [.str (decode raw)]
  | number n => [.num n.double]

/-- A lexeme of the grammar, with no index in a path before its last segment. -/
def Lexeme.readable : Lexeme → Bool
  | path p => p.valid && p.rest.dropLast.all (·.isName)
  | string quote raw => (quote = '"' || quote = '\'') && closed quote raw
  | number n => n.valid
  | _ => true

section Lexemes

theorem index_valid {digits : List Char} (h : isDigits digits = true) :
    Numeral.valid ⟨false, digits, none, none⟩ = true := by
  rw [Numeral.valid, h]
  rfl

theorem index_text (digits : List Char) : Numeral.text ⟨false, digits, none, none⟩ = digits := by
  simp [Numeral.text, Numeral.unsigned, Numeral.fractionText, Numeral.exponentText]

theorem apartAfter_cons {s s' : Segment} {segments : List Segment} {next : Option Char}
    (h : Lexeme.apartAfter (s :: s' :: segments) next = true) : Lexeme.apartAfter (s' :: segments) next = true := by
  rwa [Lexeme.apartAfter, List.getLast?_cons_cons] at h

theorem tokenizes_segments {segments : List Segment} (hvalid : segments.all (·.valid) = true)
    (hnames : segments.dropLast.all (·.isName) = true) (hapart : Lexeme.apartAfter segments rest.head? = true)
    (hrest : Tokenizes total rest ts) :
    Tokenizes total (segments.flatMap (fun s => '.' :: s.text) ++ rest) (segments.flatMap Segment.toks ++ ts) := by
  induction segments with
  | nil => exact hrest
  | cons s segments ih =>
    rw [List.all_cons, Bool.and_eq_true] at hvalid
    have hdot : ∀ {after : List Char}, readTok total '.' after = .ok (some .dot, after) := fun {_} => rfl
    rw [List.flatMap_cons, List.flatMap_cons, List.append_assoc, List.append_assoc, List.cons_append]
    cases segments with
    | nil =>
      cases s with
      | name name =>
        refine tokenizes_cons hdot (le_refl _) (tokenizes_ident hvalid.1 ?_ hrest)
        have hstop : rest.head?.all (fun c => !Lexeme.runsOn c && c ≠ '.') = true := hapart
        show ([] ++ rest).head?.all _ = true
        rw [List.nil_append]
        cases hhead : rest.head? with
        | none => rfl
        | some c =>
          rw [hhead, Option.all_some, Bool.and_eq_true] at hstop
          exact hstop.1
      | index digits =>
        have hnumber := tokenizes_number (index_valid hvalid.1) hapart hrest
        rw [index_text] at hnumber
        exact tokenizes_cons hdot (le_refl _) hnumber
    | cons s' segments =>
      rw [List.dropLast_cons_cons, List.all_cons, Bool.and_eq_true] at hnames
      have hafter := ih hvalid.2 hnames.2 (apartAfter_cons hapart)
      cases s with
      | index digits => cases hnames.1
      | name name => exact tokenizes_cons hdot (le_refl _) (tokenizes_ident hvalid.1 rfl hafter)

theorem tokenizes_path {p : Path} (h : Lexeme.readable (.path p) = true) (hapart : Lexeme.apartAfter p.rest rest.head? = true)
    (hrest : Tokenizes total rest ts) : Tokenizes total (p.text ++ rest) (p.toks ++ ts) := by
  rw [Lexeme.readable, Path.valid, Bool.and_eq_true, Bool.and_eq_true] at h
  have hsegments := tokenizes_segments h.1.2 h.2 hapart hrest
  rw [Path.text, List.append_assoc]
  refine tokenizes_ident h.1.1 ?_ hsegments
  cases hp : p.rest with
  | cons s segments => rfl
  | nil =>
    have hstop : rest.head?.all (fun c => !Lexeme.runsOn c && c ≠ '.') = true := by
      rwa [hp] at hapart
    show ([] ++ rest).head?.all _ = true
    rw [List.nil_append]
    cases hhead : rest.head? with
    | none => rfl
    | some c =>
      rw [hhead, Option.all_some, Bool.and_eq_true] at hstop
      exact hstop.1

theorem readTok_lt (h : rest.head?.all (· ≠ '=') = true) :
    readTok total '<' rest = .ok (some .lt, rest) ∧ readTok total '>' rest = .ok (some .gt, rest) := by
  have hne : rest.head? ≠ some '=' := by
    intro hhead
    rw [hhead] at h
    cases h
  constructor
  · show (if rest.head? = some '=' then _ else _) = _
    rw [if_neg hne]
  · show (if rest.head? = some '=' then _ else _) = _
    rw [if_neg hne]

theorem tokenizes_op {o : Op} (hapart : Lexeme.Apart rest.head? (.op o) = true) (hrest : Tokenizes total rest ts) :
    Tokenizes total (o.text ++ rest) (o.tok :: ts) := by
  have htwo : ∀ {c d : Char} {t : Tok}, readTok total c (d :: rest) = .ok (some t, rest) →
      Tokenizes total (c :: d :: rest) (t :: ts) :=
    fun hread => tokenizes_cons hread (by simp) hrest
  cases o with
  | eq => exact htwo rfl
  | ne => exact htwo rfl
  | le => exact htwo rfl
  | ge => exact htwo rfl
  | lt => exact tokenizes_cons (readTok_lt hapart).1 (le_refl _) hrest
  | gt => exact tokenizes_cons (readTok_lt hapart).2 (le_refl _) hrest

/-- A lexeme is read as its tokens. -/
theorem tokenizes_lexeme {lexeme : Lexeme} (hreadable : lexeme.readable = true) (hspells : lexeme.Spells w)
    (hapart : lexeme.Apart rest.head? = true) (hrest : Tokenizes total rest ts) :
    Tokenizes total (w ++ rest) (lexeme.toks ++ ts) := by
  cases lexeme with
  | lparen =>
    obtain rfl : w = ['('] := hspells
    exact tokenizes_cons (t := some .lparen) rfl (le_refl _) hrest
  | rparen =>
    obtain rfl : w = [')'] := hspells
    exact tokenizes_cons (t := some .rparen) rfl (le_refl _) hrest
  | op o =>
    obtain rfl : w = o.text := hspells
    exact tokenizes_op hapart hrest
  | keyword k => exact tokenizes_keyword hspells hapart hrest
  | path p =>
    obtain rfl : w = p.text := hspells
    exact tokenizes_path hreadable hapart hrest
  | string quote raw =>
    obtain rfl : w = quote :: (raw ++ [quote]) := hspells
    rw [Lexeme.readable, Bool.and_eq_true, Bool.or_eq_true, decide_eq_true_eq, decide_eq_true_eq] at hreadable
    have hread : readTok total quote ((raw ++ [quote]) ++ rest) = .ok (some (.str (unescape raw)), rest) :=
      readTok_string hreadable.1 hreadable.2
    rw [unescape_eq_decode] at hread
    exact tokenizes_cons hread (by simp; omega) hrest
  | number n =>
    obtain rfl : w = n.text := hspells
    exact tokenizes_number hreadable hapart hrest

/-- **A printed expression is read as its tokens**, however it is spaced. -/
theorem tokenizes_printed {lexemes : List Lexeme} {text : List Char} (h : Printed lexemes text)
    (hreadable : ∀ l ∈ lexemes, l.readable = true) : Tokenizes total text (lexemes.flatMap Lexeme.toks) := by
  induction h with
  | nil hspaces =>
    have hend : Tokenizes total (_ ++ []) [] := tokenizes_spaces hspaces tokenizes_nil
    rwa [List.append_nil] at hend
  | cons hspaces htext hapart hrest ih =>
    refine tokenizes_spaces hspaces (tokenizes_lexeme (hreadable _ List.mem_cons_self) htext hapart ?_)
    exact ih fun l hl => hreadable l (List.mem_cons_of_mem _ hl)

end Lexemes

end PredicateParse

end ActantDb
