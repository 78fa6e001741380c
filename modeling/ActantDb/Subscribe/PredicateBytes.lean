import ActantDb.Subscribe.PredicateLex
import ActantDb.Lib.Utf8

/-!
# The lexer, byte by byte

The lexer of the source walks over the bytes of the text, takes each for a character, and slices the text where a literal, a number or a word begins and ends. Every byte it looks at is there, which the guard before each look shows; a slice need not end between characters.

What it does in terms of characters is `tokenize` (`tokenizeBytes_eq`): literals and numbers end between characters, and a word does not when it meets a character that begins like a letter of Latin-1 and does not go on like one.
-/

namespace ActantDb

namespace PredicateParse

open Utf8

/-- `b as char`. -/
def latin1 (b : UInt8) : Char := Char.ofNat b.toNat

/-- `is_whitespace`, below 256. -/
def latin1Whitespace (c : Char) : Bool := isSpace c || c.toNat = 0x85 || c.toNat = 0xa0

/-- `is_alphabetic`, below 256, or an underscore. -/
def beginsWord (c : Char) : Bool := c.isAlpha || c = '_' || latin1Alphabetic c.toNat

/-- `is_alphanumeric`, below 256, or an underscore. -/
def continuesWord (c : Char) : Bool := c.isAlphanum || c = '_' || latin1Alphanumeric c.toNat

variable (src : List Char) (bytes : List UInt8)

/-- `i < bytes.len() && p(bytes[i])`. -/
def testAt (p : Char → Bool) (i : Nat) : Bool := if h : i < bytes.length then p (latin1 bytes[i]) else false

/-- `while i < bytes.len() && p(bytes[i]) { i += 1 }`. -/
def skipWhile (p : Char → Bool) : Nat → Nat → Nat
  | 0, i => i
  | fuel + 1, i => if testAt bytes p i then skipWhile p fuel (i + 1) else i

/-- The loop over a literal: a backslash is passed with the byte after it. -/
def skipString (quote : Char) : Nat → Nat → Nat
  | 0, i => i
  | fuel + 1, i =>
    if testAt bytes (· ≠ quote) i then
      if testAt bytes (· = '\\') i && i + 1 < bytes.length then skipString quote fuel (i + 2)
      else skipString quote fuel (i + 1)
    else i

/-- `&src[a..b]`, which panics where there is no such slice. -/
def sliceAt (a b : Nat) : Except ParseError (List Char) :=
  match slice src a b with
  | some s => .ok s
  | none => .error .panicked

/-- One turn of the loop: the token read at the byte `i`, if any, and where to go on. -/
def tokAt (i : Nat) (h : i < bytes.length) : Except ParseError (Option Tok × Nat) :=
  let c := latin1 bytes[i]
  if latin1Whitespace c then .ok (none, i + 1)
  else if c = '(' then .ok (some .lparen, i + 1)
  else if c = ')' then .ok (some .rparen, i + 1)
  else if c = '.' then .ok (some .dot, i + 1)
  else if c = ',' then .ok (some .comma, i + 1)
  else if c = '=' ∧ testAt bytes (· = '=') (i + 1) = true then .ok (some .eq, i + 2)
  else if c = '!' ∧ testAt bytes (· = '=') (i + 1) = true then .ok (some .ne, i + 2)
  else if c = '<' then
    if testAt bytes (· = '=') (i + 1) = true then .ok (some .le, i + 2) else .ok (some .lt, i + 1)
  else if c = '>' then
    if testAt bytes (· = '=') (i + 1) = true then .ok (some .ge, i + 2) else .ok (some .gt, i + 1)
  else if c = '"' ∨ c = '\'' then
    let j := skipString bytes c bytes.length (i + 1)
    if bytes.length ≤ j then .error .unterminated
    else (sliceAt src (i + 1) j).map fun raw => (some (.str (unescape raw)), j + 1)
  else if c.isDigit = true ∨ c = '-' ∧ testAt bytes Char.isDigit (i + 1) = true then
    let j := skipWhile bytes isNumberChar bytes.length (if c = '-' then i + 1 else i)
    (sliceAt src i j).bind fun s =>
      match parseF64 s with
      | none => .error (.badNumber s)
      | some n => .ok (some (.num n), j)
  else if beginsWord c then
    let j := skipWhile bytes continuesWord bytes.length i
    (sliceAt src i j).map fun word => (some (wordTok word), j)
  else .error (.unexpectedCharacter c i)

/-- Every turn passes a byte at least. -/
def tokenizeAt : Nat → Nat → Except ParseError (List Tok)
  | 0, _ => .ok []
  | fuel + 1, i =>
    if h : i < bytes.length then do
      let (t, i) ← tokAt src bytes i h
      let ts ← tokenizeAt fuel i
      return t.toList ++ ts
    else .ok []

def tokenizeBytes : Except ParseError (List Tok) := tokenizeAt src (encode src) (encode src).length 0

/-- `parse`, where the parser may nest its calls as deep as `fuel`. -/
def parseWithin (fuel : Nat) : Except ParseError Predicate := do
  let toks ← tokenizeBytes src
  let (p, rest) ← parseOr fuel toks
  if rest.isEmpty then return p else .error (.trailing (toks.length - rest.length))

/-- `parse` returns this, however deep it may nest its calls from some depth on. -/
def Returns (r : Except ParseError Predicate) : Prop := ∃ enough, ∀ fuel, enough ≤ fuel → parseWithin src fuel = r

/-! ### Bytes for characters -/

section Latin1

variable {b : UInt8} {c d : Char} {s : List Char} {p : Char → Bool}

theorem latin1_toNat (b : UInt8) : (latin1 b).toNat = b.toNat := by
  have hvalid : b.toNat.isValidChar := Or.inl (lt_trans b.toNat_lt (by decide))
  rw [latin1, Char.ofNat, dif_pos hvalid]
  rfl

theorem latin1_ascii (h : c.toNat < 128) : latin1 (UInt8.ofNat c.toNat) = c := by
  have hbyte : (UInt8.ofNat c.toNat).toNat = c.toNat := by
    rw [UInt8.toNat_ofNat']
    exact Nat.mod_eq_of_lt (by omega)
  rw [latin1, hbyte, Char.ofNat_toNat]

/-- A byte of a wide character is taken for no character of ASCII. -/
theorem latin1_ne (hb : 0x80 ≤ b.toNat) (hd : d.toNat < 128) : latin1 b ≠ d := by
  rintro rfl
  rw [latin1_toNat] at hd
  omega

theorem byteLength_eq (s : List Char) : byteLength s = size s := by
  induction s with
  | nil => rfl
  | cons c s ih =>
    rw [size_cons, ← ih]
    rfl

/-- A test that only characters of ASCII pass finds the same in the bytes. -/
theorem head?_any_encode (hp : ∀ d, p d = true → d.toNat < 128) :
    (encode s).head?.any (fun b => p (latin1 b)) = s.head?.any p := by
  cases s with
  | nil => rfl
  | cons d s =>
    by_cases hd : d.toNat < 128
    · rw [encode_cons, bytesOf_ascii hd]
      simp [latin1_ascii hd]
    · obtain ⟨b, bs, hbytes, hb, -, -⟩ := bytesOf_wide (not_lt.mp hd)
      have hnot : p d = false := Bool.eq_false_iff.mpr fun h => hd (hp d h)
      have hnot' : p (latin1 b) = false := by
        refine Bool.eq_false_iff.mpr fun h => ?_
        have hsmall := hp _ h
        rw [latin1_toNat] at hsmall
        omega
      rw [encode_cons, hbytes]
      simp [hnot, hnot']

/-- A test of the first byte is one of the character, where characters of ASCII pass alone. -/
theorem firstByte_any {bs : List UInt8} (h : bytesOf c = b :: bs) (hp : ∀ d, p d = true → d.toNat < 128) : p (latin1 b) = p c := by
  have hany := head?_any_encode (s := [c]) hp
  rw [encode_cons, h] at hany
  simpa using hany

theorem firstByte_eq {bs : List UInt8} (h : bytesOf c = b :: bs) (hd : d.toNat < 128) : latin1 b = d ↔ c = d := by
  have hany := firstByte_any (p := fun x => decide (x = d)) h fun x hx => (of_decide_eq_true hx).symm ▸ hd
  exact decide_eq_decide.mp hany

theorem drop_succ {bytes rest : List UInt8} {i : Nat} (h : bytes.drop i = b :: rest) : bytes.drop (i + 1) = rest := by
  rw [← List.drop_drop, h]
  rfl

theorem testAt_eq (bytes : List UInt8) (p : Char → Bool) (i : Nat) :
    testAt bytes p i = (bytes.drop i).head?.any fun b => p (latin1 b) := by
  rw [testAt]
  split
  · rename_i h
    rw [List.head?_drop, List.getElem?_eq_getElem h]
    rfl
  · rename_i h
    rw [List.drop_eq_nil_of_le (not_lt.mp h)]
    rfl

theorem skipWhile_eq (bytes : List UInt8) (p : Char → Bool) : ∀ fuel i, bytes.length ≤ i + fuel →
    skipWhile bytes p fuel i = i + ((bytes.drop i).takeWhile fun b => p (latin1 b)).length
  | 0, i, h => by
    rw [List.drop_eq_nil_of_le (Nat.add_zero i ▸ h)]
    rfl
  | fuel + 1, i, h => by
    rw [skipWhile, testAt_eq]
    cases hdrop : bytes.drop i with
    | nil => rfl
    | cons b rest =>
      have ih := skipWhile_eq bytes p fuel (i + 1) (by omega)
      rw [drop_succ hdrop] at ih
      by_cases hp : p (latin1 b) = true
      · rw [List.head?_cons, Option.any_some, if_pos hp, ih, List.takeWhile_cons, if_pos hp, List.length_cons]
        omega
      · rw [List.head?_cons, Option.any_some, if_neg hp, List.takeWhile_cons, if_neg hp]
        rfl

end Latin1

/-! ### Literals -/

section Literals

variable {bytes : List UInt8} {quote : Char} {fuel i : Nat} {b : UInt8} {rest : List UInt8}

/-- The loop passes a byte that is neither the quote nor the start of an escape. -/
theorem skipString_plain (h : bytes.drop i = b :: rest) (hquote : latin1 b ≠ quote) (hescape : latin1 b ≠ '\\') :
    skipString bytes quote (fuel + 1) i = skipString bytes quote fuel (i + 1) := by
  rw [skipString, testAt_eq, testAt_eq, h]
  simp [hquote, hescape]

theorem skipString_quote (h : bytes.drop i = b :: rest) (hquote : latin1 b = quote) :
    skipString bytes quote (fuel + 1) i = i := by
  rw [skipString, testAt_eq, h]
  simp [hquote]

theorem skipString_escape (h : bytes.drop i = b :: rest) (hquote : latin1 b ≠ quote) (hescape : latin1 b = '\\') :
    skipString bytes quote (fuel + 1) i = skipString bytes quote fuel (if rest = [] then i + 1 else i + 2) := by
  have hlength : bytes.length - i = rest.length + 1 := by
    rw [← List.length_drop, h, List.length_cons]
  have hne : '\\' ≠ quote := fun heq => hquote (hescape.trans heq)
  rw [skipString, testAt_eq, testAt_eq, h]
  cases rest with
  | nil =>
    have hlast : ¬ i + 1 < bytes.length := by
      rw [List.length_nil] at hlength
      omega
    simp [hescape, hne, hlast]
  | cons x rest =>
    have hmore : i + 1 < bytes.length := by
      rw [List.length_cons] at hlength
      omega
    simp [hescape, hne, hmore]

theorem skipString_end (h : bytes.drop i = []) : skipString bytes quote fuel i = i := by
  cases fuel with
  | zero => rfl
  | succ fuel =>
    rw [skipString, testAt_eq, h]
    rfl

theorem scanString_quote {s : List Char} : scanString quote (quote :: s) = some ([], s) := by
  rw [scanString.eq_def]
  simp

theorem scanString_plain {c : Char} {s : List Char} (hquote : c ≠ quote) (hescape : c ≠ '\\') :
    scanString quote (c :: s) = (scanString quote s).map fun r => (c :: r.1, r.2) := by
  rw [scanString.eq_def]
  simp [hquote, hescape]

theorem scanString_escape {d : Char} {s : List Char} (hquote : '\\' ≠ quote) :
    scanString quote ('\\' :: d :: s) = (scanString quote s).map fun r => ('\\' :: d :: r.1, r.2) := by
  rw [scanString.eq_def]
  simp [hquote]

theorem scanString_escape_end (hquote : '\\' ≠ quote) : scanString quote ['\\'] = none := by
  rw [scanString.eq_def]
  simp [hquote]

/-- The loop over the literal of which `s` is left at the byte `i` has come to `j`, and the scan of the characters to this. -/
def StopsAt (bytes : List UInt8) (quote : Char) (s : List Char) (i j : Nat) : Option (List Char × List Char) → Prop
  | some (raw, after) => s = raw ++ quote :: after ∧ j = i + size raw
  | none => bytes.length ≤ j

/-- The same, some characters before. -/
theorem StopsAt.after {cs s : List Char} {i j : Nat} {r : Option (List Char × List Char)}
    (h : StopsAt bytes quote s (i + size cs) j r) :
    StopsAt bytes quote (cs ++ s) i j (r.map fun r => (cs ++ r.1, r.2)) := by
  cases r with
  | none => exact h
  | some found =>
    refine ⟨?_, ?_⟩
    · rw [List.append_assoc, ← h.1]
    · rw [h.2, size_append, Nat.add_assoc]

/-- The loop over a literal stops at the quote that the characters have, if any, from within a wide character as well. -/
theorem skipString_eq (hquote : quote.toNat < 128) (hescape : quote ≠ '\\') :
    ∀ fuel i (bs : List UInt8) (s : List Char), bytes.drop i = bs ++ encode s → (∀ b ∈ bs, 0x80 ≤ b.toNat) →
      bytes.length ≤ i + fuel →
      StopsAt bytes quote s (i + bs.length) (skipString bytes quote fuel i) (scanString quote s)
  | fuel, i, [], [], hdrop, _, _ => by
    rw [scanString, skipString_end hdrop]
    exact List.drop_eq_nil_iff.mp hdrop
  | 0, i, b :: bs, s, hdrop, _, hfuel => by
    rw [List.drop_eq_nil_of_le (Nat.add_zero i ▸ hfuel)] at hdrop
    cases hdrop
  | 0, i, [], c :: s, hdrop, _, hfuel => by
    rw [List.drop_eq_nil_of_le (Nat.add_zero i ▸ hfuel), List.nil_append] at hdrop
    exact absurd (List.append_eq_nil_iff.mp hdrop.symm).1 (String.utf8EncodeChar_ne_nil (c := c))
  | fuel + 1, i, b :: bs, s, hdrop, hbs, hfuel => by
    have hb : 0x80 ≤ b.toNat := hbs b List.mem_cons_self
    have ih := skipString_eq hquote hescape fuel (i + 1) bs s (drop_succ hdrop)
      (fun x hx => hbs x (List.mem_cons_of_mem _ hx)) (by omega)
    rw [skipString_plain hdrop (latin1_ne hb hquote) (latin1_ne hb (by decide))]
    have hplace : i + (b :: bs).length = i + 1 + bs.length := by
      rw [List.length_cons]
      omega
    rw [hplace]
    exact ih
  | fuel + 1, i, [], c :: s, hdrop, _, hfuel => by
    rw [List.nil_append, encode_cons] at hdrop
    -- the first byte of the character, and those within
    obtain ⟨x, bs, hbytes, hbs⟩ := bytesOf_cons c
    have hsize : size [c] = 1 + bs.length := by
      rw [size_cons, size_nil, hbytes, List.length_cons]
      omega
    rw [hbytes, List.cons_append] at hdrop
    by_cases hend : c = quote
    · have hx : latin1 x = quote := (firstByte_eq hbytes hquote).mpr hend
      rw [skipString_quote hdrop hx, hend, scanString_quote]
      exact ⟨rfl, rfl⟩
    have hx : latin1 x ≠ quote := mt (firstByte_eq hbytes hquote).mp hend
    by_cases hback : c = '\\'
    · have hne : '\\' ≠ quote := hescape.symm
      subst hback
      cases hbytes
      rw [List.nil_append] at hdrop
      rw [skipString_escape hdrop hx rfl]
      cases s with
      | nil =>
        rw [encode_nil] at hdrop
        rw [encode_nil, if_pos rfl, skipString_end (drop_succ hdrop), scanString_escape_end hne]
        exact List.drop_eq_nil_iff.mp (drop_succ hdrop)
      | cons d s =>
        -- the byte after the backslash may be the first of a wide character
        obtain ⟨y, ys, hnextBytes, hys⟩ := bytesOf_cons d
        have hnext : bytes.drop (i + 2) = ys ++ encode s := by
          refine drop_succ (b := y) ((drop_succ hdrop).trans ?_)
          rw [encode_cons, hnextBytes, List.cons_append]
        have ih := skipString_eq hquote hescape fuel (i + 2) ys s hnext hys (by omega)
        have hmore : encode (d :: s) ≠ [] := by
          rw [encode_cons, hnextBytes]
          exact List.cons_ne_nil _ _
        have hplace : i + 2 + ys.length = i + size ['\\', d] := by
          have hone : (bytesOf '\\').length = 1 := rfl
          rw [size_cons, size_cons, size_nil, hone, hnextBytes, List.length_cons]
          omega
        rw [hplace] at ih
        rw [if_neg hmore, scanString_escape hne]
        exact ih.after
    · have hx' : latin1 x ≠ '\\' := mt (firstByte_eq hbytes (by decide)).mp hback
      have ih := skipString_eq hquote hescape fuel (i + 1) bs s (drop_succ hdrop) hbs (by omega)
      have hplace : i + 1 + bs.length = i + size [c] := by omega
      rw [hplace] at ih
      rw [skipString_plain hdrop hx hx', scanString_plain hend hback]
      exact ih.after

end Literals

/-! ### Words -/

section Words

variable {c d : Char} {b : UInt8} {s rest : List Char}

theorem isAlphanum_lt (h : c.isAlphanum = true) : c.toNat < 128 := by
  refine wordLetter_lt ?_
  rw [isWordLetter, h, Bool.true_or]

theorem isAlpha_lt (h : c.isAlpha = true) : c.toNat < 128 := (letter_bounds (by rw [h, Bool.true_or])).2

/-- A byte of a wide character continues a word where it is a letter or a number of Latin-1. -/
theorem continuesWord_wide (hb : 0x80 ≤ b.toNat) : continuesWord (latin1 b) = latin1Alphanumeric b.toNat := by
  have hnum : (latin1 b).isAlphanum = false := Bool.eq_false_iff.mpr fun h => by
    have hlt := isAlphanum_lt h
    rw [latin1_toNat] at hlt
    omega
  rw [continuesWord, hnum, decide_eq_false (latin1_ne hb (by decide)), latin1_toNat]
  rfl

theorem beginsWord_wide (hb : 0x80 ≤ b.toNat) : beginsWord (latin1 b) = latin1Alphabetic b.toNat := by
  have halpha : (latin1 b).isAlpha = false := Bool.eq_false_iff.mpr fun h => by
    have hlt := isAlpha_lt h
    rw [latin1_toNat] at hlt
    omega
  rw [beginsWord, halpha, decide_eq_false (latin1_ne hb (by decide)), latin1_toNat]
  rfl

theorem latin1Alphanumeric_ascii {n : Nat} (hn : n < 128) : latin1Alphanumeric n = false := by
  simp only [latin1Alphanumeric, latin1Alphabetic, Bool.or_eq_false_iff, Bool.and_eq_false_iff, decide_eq_false_iff_not]
  omega

theorem latin1Alphabetic_ascii {n : Nat} (hn : n < 128) : latin1Alphabetic n = false := by
  simp only [latin1Alphabetic, Bool.or_eq_false_iff, Bool.and_eq_false_iff, decide_eq_false_iff_not]
  omega

/-- From `0xc0` on what is alphanumeric is alphabetic. -/
theorem latin1Alphanumeric_first {n : Nat} (hn : 0xc0 ≤ n) : latin1Alphanumeric n = latin1Alphabetic n := by
  have h1 : decide (n = 0xb2) = false := decide_eq_false (by omega)
  have h2 : decide (n = 0xb3) = false := decide_eq_false (by omega)
  have h3 : decide (n = 0xb9) = false := decide_eq_false (by omega)
  have h4 : decide (n ≤ 0xbe) = false := decide_eq_false (by omega)
  rw [latin1Alphanumeric, h1, h2, h3, h4]
  simp

/-- All bytes of a character continue a word. -/
theorem all_continuesWord (c : Char) : ((bytesOf c).all fun b => continuesWord (latin1 b)) = isWordChar c := by
  rw [isWordChar]
  split
  · rename_i hc
    rw [bytesOf_ascii hc]
    simp [latin1_ascii hc, continuesWord, latin1Alphanumeric_ascii hc]
  · rename_i hc
    obtain ⟨b, bs, hbytes, hb, -, hbs⟩ := bytesOf_wide (not_lt.mp hc)
    have hwide : ∀ x ∈ bytesOf c, 0x80 ≤ x.toNat := by
      rw [hbytes]
      rintro x (_ | ⟨_, hx⟩)
      · exact le_trans (by decide) hb
      · exact (hbs x hx).1
    rw [Bool.eq_iff_iff, List.all_eq_true, List.all_eq_true]
    refine forall₂_congr fun x hx => ?_
    rw [continuesWord_wide (hwide x hx)]

theorem beginsWord_eq {bs : List UInt8} (h : bytesOf c = b :: bs) : beginsWord (latin1 b) = startsWord c := by
  rw [startsWord]
  split
  · rename_i hc
    rw [bytesOf_ascii hc] at h
    cases h
    rw [latin1_ascii hc, beginsWord, latin1Alphabetic_ascii hc, Bool.or_false]
  · rename_i hc
    obtain ⟨b', bs', hbytes, hb, -, -⟩ := bytesOf_wide (not_lt.mp hc)
    rw [h] at hbytes
    cases hbytes
    have hfirst : (String.utf8EncodeChar c).head? = some b := by
      have h' : String.utf8EncodeChar c = b :: bs := h
      rw [h']
      rfl
    rw [hfirst, beginsWord_wide (by omega)]
    rfl

/-- Of a character that is not all of a word, some bytes are when it is cut. -/
theorem takeWhile_cut (h : isWordChar d = false) :
    ((bytesOf d).takeWhile fun b => continuesWord (latin1 b)).length < (bytesOf d).length ∧
      (0 < ((bytesOf d).takeWhile fun b => continuesWord (latin1 b)).length ↔ cutsWord d = true) := by
  have hnotAll : ¬ ∀ x ∈ bytesOf d, continuesWord (latin1 x) = true := by
    rw [← List.all_eq_true, all_continuesWord, h]
    exact Bool.false_ne_true
  have hrun := List.takeWhile_prefix (l := bytesOf d) fun b => continuesWord (latin1 b)
  refine ⟨lt_of_le_of_ne hrun.length_le fun heq => ?_, ?_⟩
  · exact hnotAll (List.takeWhile_eq_self_iff.mp (hrun.eq_of_length heq))
  · by_cases hd : d.toNat < 128
    · rw [bytesOf_ascii hd] at hnotAll ⊢
      have hnot : ¬ continuesWord (latin1 (UInt8.ofNat d.toNat)) = true := by simpa using hnotAll
      rw [List.takeWhile_cons, if_neg hnot, cutsWord, decide_eq_false (not_le.mpr hd)]
      simp
    · obtain ⟨b, bs, hbytes, hb, -, -⟩ := bytesOf_wide (not_lt.mp hd)
      have hstarts : continuesWord (latin1 b) = startsWord d := by
        rw [← beginsWord_eq hbytes, continuesWord_wide (by omega), beginsWord_wide (by omega), latin1Alphanumeric_first hb]
      rw [hbytes, List.takeWhile_cons, hstarts, cutsWord, decide_eq_true (not_lt.mp hd), h]
      cases startsWord d <;> simp

end Words

/-! ### One token -/

/-- The text of a lexeme, or a space, that ends before `after`. -/
inductive Whole (after : List Char) : List Char → Prop
  | space {c : Char} (h : isSpace c = true) : Whole after [c]
  | mark {c : Char} (h : c = '(' ∨ c = ')' ∨ c = '.' ∨ c = ',') : Whole after [c]
  | order {c : Char} (h : c = '<' ∨ c = '>') (hstop : after.head? ≠ some '=') : Whole after [c]
  | equality {c : Char} (h : c = '=' ∨ c = '!' ∨ c = '<' ∨ c = '>') : Whole after [c, '=']
  | literal {quote : Char} {raw : List Char} (hquote : quote = '"' ∨ quote = '\'') (hclosed : closed quote raw = true) :
    Whole after (quote :: (raw ++ [quote]))
  | number {c : Char} {w : List Char} (hstart : c.isDigit = true ∨ c = '-' ∧ w.head?.any Char.isDigit = true)
    (hw : ∀ d ∈ w, isNumberChar d = true) (hstop : after.head?.all (fun d => !isNumberChar d) = true)
    (hparse : (parseF64 (c :: w)).isSome = true) : Whole after (c :: w)
  | word {c : Char} {w : List Char} (hstart : startsWord c = true) (hw : ∀ d ∈ c :: w, isWordChar d = true)
    (hstop : after.head?.all (fun d => !isWordChar d && !cutsWord d) = true) : Whole after (c :: w)

section OneToken

variable {total : Nat} {c quote : Char} {rest raw after w : List Char} {t : Option Tok}

theorem scanString_some : ∀ {s raw after : List Char}, scanString quote s = some (raw, after) →
    s = raw ++ quote :: after ∧ closed quote raw = true
  | [], _, _, h => by
    rw [scanString] at h
    cases h
  | c :: s, _, _, h => by
    by_cases hquote : c = quote
    · rw [hquote, scanString_quote] at h
      cases h
      exact ⟨by rw [hquote]; rfl, rfl⟩
    by_cases hescape : c = '\\'
    · have hne : '\\' ≠ quote := fun heq => hquote (hescape.trans heq)
      subst hescape
      cases s with
      | nil =>
        rw [scanString_escape_end hne] at h
        cases h
      | cons d s =>
        rw [scanString_escape hne, Option.map_eq_some_iff] at h
        obtain ⟨⟨raw', after'⟩, hscan, heq⟩ := h
        cases heq
        obtain ⟨hs, hclosed⟩ := scanString_some hscan
        refine ⟨by rw [hs]; rfl, ?_⟩
        rw [closed.eq_def]
        simp [hne, hclosed]
    · rw [scanString_plain hquote hescape, Option.map_eq_some_iff] at h
      obtain ⟨⟨raw', after'⟩, hscan, heq⟩ := h
      cases heq
      obtain ⟨hs, hclosed⟩ := scanString_some hscan
      refine ⟨by rw [hs]; rfl, ?_⟩
      rw [closed.eq_def]
      simp [hquote, hescape, hclosed]

/-- A word that begins and is not cut at once has its first character. -/
theorem startsWord_cases (hstart : startsWord c = true) : cutsWord c = !isWordChar c := by
  by_cases hc : c.toNat < 128
  · have hword : isWordChar c = true := by
      rw [startsWord, if_pos hc] at hstart
      refine isWordChar_of_letter ?_
      rw [isWordLetter, Char.isAlphanum]
      rcases Bool.or_eq_true_iff.mp hstart with h | h <;> simp [h]
    rw [cutsWord, decide_eq_false (not_le.mpr hc), hword]
    rfl
  · rw [cutsWord, decide_eq_true (not_lt.mp hc), hstart]
    rfl

/-- Whether a word is cut, from its first character on. -/
theorem cuts_eq (hstart : startsWord c = true) :
    (cutsWord c || (rest.dropWhile isWordChar).head?.any cutsWord) =
      ((c :: rest).dropWhile isWordChar).head?.any cutsWord := by
  by_cases hword : isWordChar c = true
  · rw [startsWord_cases hstart, hword, List.dropWhile_cons, if_pos hword]
    rfl
  · have hcuts : cutsWord c = true := by rw [startsWord_cases hstart, Bool.eq_false_iff.mpr hword]; rfl
    rw [hcuts, List.dropWhile_cons, if_neg hword, List.head?_cons, Option.any_some, hcuts]
    rfl

theorem dropWhile_stops {p : Char → Bool} {s post : List Char} {d : Char} (h : s.dropWhile p = d :: post) : p d = false := by
  have hd := List.head?_dropWhile_not p s
  rw [h] at hd
  simpa using hd

theorem head?_dropWhile_all {p : Char → Bool} (s : List Char) : (s.dropWhile p).head?.all (fun d => !p d) = true := by
  cases hdrop : s.dropWhile p with
  | nil => rfl
  | cons d post => rw [List.head?_cons, Option.all_some, dropWhile_stops hdrop, Bool.not_false]

/-- What is read is the text of a lexeme, which is all of what follows that could be. -/
theorem readTok_whole (h : readTok total c rest = .ok (t, after)) : ∃ w, rest = w ++ after ∧ Whole after (c :: w) := by
  by_cases hstart : startsWord c = true
  · rw [readTok_starts hstart] at h
    split at h
    · cases h
    rename_i hcuts
    rw [Bool.not_eq_true, Bool.or_eq_false_iff, startsWord_cases hstart, Bool.not_eq_false'] at hcuts
    cases h
    refine ⟨rest.takeWhile isWordChar, List.takeWhile_append_dropWhile.symm, .word hstart ?_ ?_⟩
    · rintro d (_ | ⟨_, hd⟩)
      · exact hcuts.1
      · exact List.mem_takeWhile_imp hd
    · cases hdrop : rest.dropWhile isWordChar with
      | nil => rfl
      | cons d s =>
        rw [hdrop] at hcuts
        have hcut : cutsWord d = false := by simpa using hcuts.2
        simp [dropWhile_stops hdrop, hcut]
  rw [readTok, if_neg hstart] at h
  by_cases hspace : isSpace c = true
  · rw [if_pos hspace] at h
    cases h
    exact ⟨[], rfl, .space hspace⟩
  rw [if_neg hspace] at h
  by_cases hlparen : c = '('
  · rw [if_pos hlparen] at h
    cases h
    exact ⟨[], rfl, .mark (Or.inl hlparen)⟩
  rw [if_neg hlparen] at h
  by_cases hrparen : c = ')'
  · rw [if_pos hrparen] at h
    cases h
    exact ⟨[], rfl, .mark (Or.inr (Or.inl hrparen))⟩
  rw [if_neg hrparen] at h
  by_cases hdot : c = '.'
  · rw [if_pos hdot] at h
    cases h
    exact ⟨[], rfl, .mark (Or.inr (Or.inr (Or.inl hdot)))⟩
  rw [if_neg hdot] at h
  by_cases hcomma : c = ','
  · rw [if_pos hcomma] at h
    cases h
    exact ⟨[], rfl, .mark (Or.inr (Or.inr (Or.inr hcomma)))⟩
  rw [if_neg hcomma] at h
  by_cases heq : c = '=' ∧ rest.head? = some '='
  · rw [if_pos heq] at h
    cases h
    exact ⟨['='], (List.cons_head?_tail heq.2).symm, .equality (Or.inl heq.1)⟩
  rw [if_neg heq] at h
  by_cases hne : c = '!' ∧ rest.head? = some '='
  · rw [if_pos hne] at h
    cases h
    exact ⟨['='], (List.cons_head?_tail hne.2).symm, .equality (Or.inr (Or.inl hne.1))⟩
  rw [if_neg hne] at h
  by_cases hless : c = '<'
  · rw [if_pos hless] at h
    by_cases hle : rest.head? = some '='
    · rw [if_pos hle] at h
      cases h
      exact ⟨['='], (List.cons_head?_tail hle).symm, .equality (Or.inr (Or.inr (Or.inl hless)))⟩
    · rw [if_neg hle] at h
      cases h
      exact ⟨[], rfl, .order (Or.inl hless) hle⟩
  rw [if_neg hless] at h
  by_cases hmore : c = '>'
  · rw [if_pos hmore] at h
    by_cases hge : rest.head? = some '='
    · rw [if_pos hge] at h
      cases h
      exact ⟨['='], (List.cons_head?_tail hge).symm, .equality (Or.inr (Or.inr (Or.inr hmore)))⟩
    · rw [if_neg hge] at h
      cases h
      exact ⟨[], rfl, .order (Or.inr hmore) hge⟩
  rw [if_neg hmore] at h
  by_cases hquote : c = '"' ∨ c = '\''
  · rw [if_pos hquote] at h
    cases hscan : scanString c rest with
    | none =>
      rw [hscan] at h
      cases h
    | some found =>
      obtain ⟨raw, rest'⟩ := found
      rw [hscan] at h
      cases h
      obtain ⟨hrest, hclosed⟩ := scanString_some hscan
      exact ⟨raw ++ [c], by rw [hrest, List.append_assoc]; rfl, .literal hquote hclosed⟩
  rw [if_neg hquote] at h
  by_cases hnumber : c.isDigit = true ∨ c = '-' ∧ rest.head?.any Char.isDigit = true
  · rw [if_pos hnumber] at h
    cases hparse : parseF64 (c :: rest.takeWhile isNumberChar) with
    | none =>
      rw [hparse] at h
      cases h
    | some n =>
      rw [hparse] at h
      cases h
      refine ⟨rest.takeWhile isNumberChar, List.takeWhile_append_dropWhile.symm, .number ?_ ?_ ?_ ?_⟩
      · refine hnumber.imp_right (And.imp_right fun hnext => ?_)
        cases rest with
        | nil => cases hnext
        | cons d rest =>
          have hd : d.isDigit = true := by simpa using hnext
          have hchar : isNumberChar d = true := by rw [isNumberChar, hd]; rfl
          rw [List.takeWhile_cons, if_pos hchar]
          exact hnext
      · exact fun d hd => List.mem_takeWhile_imp hd
      · exact head?_dropWhile_all rest
      · rw [hparse]
        rfl
  rw [if_neg hnumber] at h
  cases h

/-- A lexeme is read where it is the text. -/
theorem whole_reads (total : Nat) (h : Whole after (c :: w)) : ∃ t, readTok total c (w ++ after) = .ok (t, after) := by
  cases h with
  | space hspace => exact ⟨none, by rw [readTok, if_pos hspace]; rfl⟩
  | mark hmark => rcases hmark with rfl | rfl | rfl | rfl <;> exact ⟨_, rfl⟩
  | order horder hstop =>
    rcases horder with rfl | rfl
    · have hread : readTok total '<' ([] ++ after) =
          if after.head? = some '=' then .ok (some .le, after.tail) else .ok (some .lt, after) := rfl
      exact ⟨_, hread.trans (if_neg hstop)⟩
    · have hread : readTok total '>' ([] ++ after) =
          if after.head? = some '=' then .ok (some .ge, after.tail) else .ok (some .gt, after) := rfl
      exact ⟨_, hread.trans (if_neg hstop)⟩
  | equality hequality => rcases hequality with rfl | rfl | rfl | rfl <;> exact ⟨_, rfl⟩
  | literal hquote hclosed => exact ⟨_, readTok_string hquote hclosed⟩
  | number hstart hw hstop hparse =>
    obtain ⟨n, hn⟩ := Option.isSome_iff_exists.mp hparse
    exact ⟨_, readTok_number hstart hw hstop hn⟩
  | word hstart hw hstop =>
    have hends : after.head?.all (fun d => !isWordChar d) = true ∧ after.head?.any cutsWord = false := by
      cases after with
      | nil => exact ⟨rfl, rfl⟩
      | cons d after =>
        have hd : isWordChar d = false ∧ cutsWord d = false := by simpa using hstop
        simp [hd.1, hd.2]
    obtain ⟨htake, hdrop⟩ := takeWhile_run (fun d hd => hw d (List.mem_cons_of_mem _ hd)) hends.1
    rw [readTok_starts hstart, htake, hdrop, startsWord_cases hstart, hw c List.mem_cons_self, hends.2]
    exact ⟨_, rfl⟩

end OneToken

/-! ### The bytes of one token -/

section Turn

variable {src pre rest : List Char} {c d : Char} {b : UInt8} {bs : List UInt8} {bytes : List UInt8} {p : Char → Bool} {i : Nat}

theorem isSpace_lt (h : isSpace c = true) : c.toNat < 128 := by
  simp only [isSpace, Bool.or_eq_true, Bool.and_eq_true, decide_eq_true_eq] at h
  omega

theorem isNumberChar_lt (h : isNumberChar c = true) : c.toNat < 128 := by
  simp only [isNumberChar, Bool.or_eq_true, decide_eq_true_eq] at h
  rcases h with ((((h | rfl) | rfl) | rfl) | rfl) | rfl
  · exact lt_of_le_of_lt (digit_bounds h).2 (by decide)
  all_goals decide

theorem firstByte_space (h : bytesOf c = b :: bs) : latin1Whitespace (latin1 b) = isSpace c := by
  have hspace := firstByte_any (p := isSpace) h fun _ => isSpace_lt
  have hbyte : ¬ (b.toNat = 0x85 ∨ b.toNat = 0xa0) := by
    by_cases hc : c.toNat < 128
    · rw [bytesOf_ascii hc, List.cons.injEq] at h
      rw [← h.1, UInt8.toNat_ofNat']
      omega
    · obtain ⟨b', bs', hbytes, hb, -, -⟩ := bytesOf_wide (not_lt.mp hc)
      rw [h, List.cons.injEq] at hbytes
      rw [hbytes.1]
      omega
  rw [latin1Whitespace, hspace, latin1_toNat, Bool.or_assoc, ← Bool.decide_or, decide_eq_false hbyte, Bool.or_false]

/-- The test of the byte after a character of ASCII. -/
theorem testAt_next (hdrop : bytes.drop i = encode (c :: rest)) (hc : c.toNat < 128)
    (hp : ∀ d, p d = true → d.toNat < 128) : testAt bytes p (i + 1) = rest.head?.any p := by
  rw [encode_cons, bytesOf_ascii hc, List.singleton_append] at hdrop
  rw [testAt_eq, drop_succ hdrop, head?_any_encode hp]

theorem testAt_equals (hdrop : bytes.drop i = encode (c :: rest)) (hc : c.toNat < 128) :
    testAt bytes (· = '=') (i + 1) = true ↔ rest.head? = some '=' := by
  have hascii : ∀ d, decide (d = '=') = true → d.toNat < 128 := by
    intro d hd
    rw [of_decide_eq_true hd]
    decide
  rw [testAt_next hdrop hc hascii]
  cases rest <;> simp

/-- A scan for characters of ASCII stops between characters. -/
theorem length_takeWhile_ascii (hp : ∀ d, p d = true → d.toNat < 128) (s : List Char) :
    ((encode s).takeWhile fun b => p (latin1 b)).length = size (s.takeWhile p) := by
  induction s with
  | nil => rfl
  | cons c s ih =>
    obtain ⟨b, bs, hbytes⟩ := List.exists_cons_of_length_pos (length_bytesOf_pos c)
    have hfirst := firstByte_any hbytes hp
    by_cases hpc : p c = true
    · have hb : p (latin1 b) = true := hfirst.trans hpc
      rw [bytesOf_ascii (hp c hpc)] at hbytes
      cases hbytes
      rw [encode_cons, bytesOf_ascii (hp c hpc), List.singleton_append, List.takeWhile_cons, if_pos hb, List.length_cons, ih,
        List.takeWhile_cons, if_pos hpc, size_cons, bytesOf_ascii (hp c hpc), List.length_singleton, Nat.add_comm]
    · have hb : ¬ p (latin1 b) = true := hfirst ▸ hpc
      rw [encode_cons, hbytes, List.cons_append, List.takeWhile_cons, if_neg hb, List.takeWhile_cons, if_neg hpc]
      rfl

/-- What is left of the text begins where its size says. -/
theorem size_left (pre w after : List Char) : size (pre ++ (w ++ after)) - size after = size pre + size w := by
  rw [size_append, size_append]
  omega

theorem drop_next (hc : c.toNat < 128) : (encode (pre ++ c :: rest)).drop (size pre + 1) = encode rest := by
  have hdrop := drop_size (pre ++ [c]) rest
  rwa [size_concat pre hc, List.append_assoc] at hdrop

/-- The text around the run that begins at `c`. -/
theorem append_run (p : Char → Bool) (pre : List Char) (c : Char) (rest : List Char) :
    pre ++ (c :: rest.takeWhile p ++ rest.dropWhile p) = pre ++ c :: rest := by
  rw [List.cons_append, List.takeWhile_append_dropWhile]

theorem size_run (p : Char → Bool) (pre : List Char) (c : Char) (rest : List Char) :
    size (pre ++ c :: rest) - size (rest.dropWhile p) = size pre + size (c :: rest.takeWhile p) := by
  rw [← append_run p, size_left]

theorem sliceAt_run (p : Char → Bool) (pre : List Char) (c : Char) (rest : List Char) :
    sliceAt (pre ++ c :: rest) (size pre) (size pre + size (c :: rest.takeWhile p)) = .ok (c :: rest.takeWhile p) := by
  rw [← append_run p, sliceAt, slice_eq]

/-- The bytes that go on with a word reach into the first character that is not all of it. -/
theorem length_wordBytes (s : List Char) :
    ((encode s).takeWhile fun b => continuesWord (latin1 b)).length =
      size (s.takeWhile isWordChar) +
        ((s.dropWhile isWordChar).head?.map fun c =>
          ((bytesOf c).takeWhile fun b => continuesWord (latin1 b)).length).getD 0 := by
  have hall : (fun c => (bytesOf c).all fun b => continuesWord (latin1 b)) = isWordChar := funext all_continuesWord
  have hlength := length_takeWhile_encode (q := fun b => continuesWord (latin1 b)) (s := s)
  rwa [hall] at hlength

/-- A word that is not cut ends between characters. -/
theorem length_word (hstart : startsWord c = true) (hcuts : (cutsWord c || (rest.dropWhile isWordChar).head?.any cutsWord) = false) :
    ((encode (c :: rest)).takeWhile fun b => continuesWord (latin1 b)).length = size (c :: rest.takeWhile isWordChar) := by
  have hword : isWordChar c = true := by
    rw [Bool.or_eq_false_iff, startsWord_cases hstart, Bool.not_eq_false'] at hcuts
    exact hcuts.1
  rw [cuts_eq hstart] at hcuts
  rw [length_wordBytes, List.takeWhile_cons, if_pos hword]
  cases hdrop : (c :: rest).dropWhile isWordChar with
  | nil => rfl
  | cons d post =>
    rw [hdrop] at hcuts
    have hcut : cutsWord d = false := hcuts
    have hzero : ((bytesOf d).takeWhile fun b => continuesWord (latin1 b)).length = 0 := by
      refine Nat.eq_zero_of_not_pos fun hpos => ?_
      rw [(takeWhile_cut (dropWhile_stops hdrop)).2.mp hpos] at hcut
      cases hcut
    rw [List.head?_cons, Option.map_some, Option.getD_some, hzero, Nat.add_zero]

/-- The word at `c`: there is no slice where it is cut. -/
theorem sliceAt_word (hstart : startsWord c = true) :
    sliceAt (pre ++ c :: rest) (size pre) (size pre + ((encode (c :: rest)).takeWhile fun b => continuesWord (latin1 b)).length) =
      if cutsWord c || (rest.dropWhile isWordChar).head?.any cutsWord then .error .panicked
      else .ok (c :: rest.takeWhile isWordChar) := by
  by_cases hcuts : (cutsWord c || (rest.dropWhile isWordChar).head?.any cutsWord) = true
  · have hsplit := (List.takeWhile_append_dropWhile (p := isWordChar) (l := c :: rest)).symm
    rw [if_pos hcuts, sliceAt, length_wordBytes]
    rw [cuts_eq hstart] at hcuts
    cases hdrop : (c :: rest).dropWhile isWordChar with
    | nil =>
      rw [hdrop] at hcuts
      cases hcuts
    | cons d post =>
      rw [hdrop] at hcuts hsplit
      obtain ⟨hlt, hcut⟩ := takeWhile_cut (dropWhile_stops hdrop)
      have hslice := slice_within pre ((c :: rest).takeWhile isWordChar) post (hcut.mpr hcuts) hlt
      rw [← hsplit] at hslice
      rw [List.head?_cons, Option.map_some, Option.getD_some, hslice]
  · rw [if_neg hcuts, length_word hstart (Bool.eq_false_iff.mpr hcuts), sliceAt_run]

/-- A literal begins and ends between characters. -/
theorem turn_literal (hquote : c.toNat < 128) (hescape : c ≠ '\\') :
    (if (encode (pre ++ c :: rest)).length ≤
        skipString (encode (pre ++ c :: rest)) c (encode (pre ++ c :: rest)).length (size pre + 1) then
      .error .unterminated
    else
      (sliceAt (pre ++ c :: rest) (size pre + 1)
        (skipString (encode (pre ++ c :: rest)) c (encode (pre ++ c :: rest)).length (size pre + 1))).map fun raw =>
          (some (Tok.str (unescape raw)),
            skipString (encode (pre ++ c :: rest)) c (encode (pre ++ c :: rest)).length (size pre + 1) + 1)) =
      (match scanString c rest with
        | none => .error .unterminated
        | some (raw, rest) => .ok (some (.str (unescape raw)), rest) : Except ParseError (Option Tok × List Char)).map
          fun r => (r.1, size (pre ++ c :: rest) - size r.2) := by
  have hsrc : pre ++ c :: rest = (pre ++ [c]) ++ rest := by rw [List.append_assoc]; rfl
  have hscan := skipString_eq hquote hescape (encode (pre ++ c :: rest)).length (size pre + 1) [] rest (drop_next hquote)
    (fun x hx => by cases hx) (by omega)
  cases hfound : scanString c rest with
  | none =>
    rw [hfound] at hscan
    have hend : (encode (pre ++ c :: rest)).length ≤
        skipString (encode (pre ++ c :: rest)) c (encode (pre ++ c :: rest)).length (size pre + 1) := hscan
    rw [if_pos hend]
    rfl
  | some found =>
    obtain ⟨raw, after⟩ := found
    rw [hfound] at hscan
    obtain ⟨hrest, hend⟩ := hscan
    rw [List.length_nil, Nat.add_zero] at hend
    have hslice := slice_eq (pre ++ [c]) raw (c :: after)
    rw [size_concat pre hquote, ← hrest, ← hsrc] at hslice
    have hleft := size_left pre (c :: (raw ++ [c])) after
    have hwhole : pre ++ (c :: (raw ++ [c]) ++ after) = pre ++ c :: rest := by
      rw [hrest, List.cons_append, List.append_assoc]
      rfl
    have hlexeme : size (c :: (raw ++ [c])) = size raw + 2 := by
      rw [size_cons, size_append, size_cons, bytesOf_ascii hquote, size_nil, List.length_singleton]
      omega
    rw [hwhole, hlexeme] at hleft
    have hwithin : ¬ (encode (pre ++ c :: rest)).length ≤ size pre + 1 + size raw := by
      have hlength : (encode (pre ++ c :: rest)).length = size (pre ++ c :: rest) := rfl
      omega
    rw [hend, if_neg hwithin, sliceAt, hslice]
    dsimp only [Except.map]
    rw [hleft]
    have hnext : size pre + 1 + size raw + 1 = size pre + (size raw + 2) := by omega
    rw [hnext]

/-- A number ends between characters. -/
theorem skipWhile_number (hc : isNumberChar c = true) :
    skipWhile (encode (pre ++ c :: rest)) isNumberChar (encode (pre ++ c :: rest)).length
        (if c = '-' then size pre + 1 else size pre) = size pre + size (c :: rest.takeWhile isNumberChar) := by
  have hascii := isNumberChar_lt hc
  split
  · rw [skipWhile_eq _ _ _ _ (by omega), drop_next hascii, length_takeWhile_ascii fun _ => isNumberChar_lt, size_cons,
      bytesOf_ascii hascii, List.length_singleton, Nat.add_assoc]
  · rw [skipWhile_eq _ _ _ _ (by omega), drop_size, length_takeWhile_ascii fun _ => isNumberChar_lt, List.takeWhile_cons,
      if_pos hc]

theorem ite_map {ε α β : Type} {P Q : Prop} [Decidable P] [Decidable Q] {f : α → β} {x y : Except ε β} {x' y' : Except ε α}
    (h : P ↔ Q) (hx : Q → x = x'.map f) (hy : ¬ Q → y = y'.map f) : (if P then x else y) = (if Q then x' else y').map f := by
  by_cases hq : Q
  · rw [if_pos (h.mpr hq), if_pos hq, hx hq]
  · rw [if_neg (mt h.mp hq), if_neg hq, hy hq]

/-- What is found at the byte where a character begins is what is found at the character. -/
theorem tokAt_eq (h : size pre < (encode (pre ++ c :: rest)).length) :
    tokAt (pre ++ c :: rest) (encode (pre ++ c :: rest)) (size pre) h =
      (readTok (size (pre ++ c :: rest)) c rest).map fun r => (r.1, size (pre ++ c :: rest) - size r.2) := by
  obtain ⟨b, bs, hbytes⟩ := List.exists_cons_of_length_pos (length_bytesOf_pos c)
  have hdrop := drop_size pre (c :: rest)
  have hbyte : (encode (pre ++ c :: rest))[size pre] = b := by
    have hget := List.getElem_cons_drop h
    rw [hdrop, encode_cons, hbytes] at hget
    exact (List.cons.inj hget).1
  have hlength : (encode (pre ++ c :: rest)).length = size (pre ++ c :: rest) := rfl
  -- one byte on, and two
  have hone (t : Option Tok) (hc : c.toNat < 128) :
      .ok (t, size pre + 1) = Except.map (fun r => (r.1, size (pre ++ c :: rest) - size r.2)) (.ok (t, rest) : Except ParseError _) := by
    have hleft := size_left pre [c] rest
    rw [size_cons, bytesOf_ascii hc] at hleft
    exact congrArg (fun j => Except.ok (t, j)) hleft.symm
  have htwo (t : Option Tok) (hc : c.toNat < 128) (hnext : rest.head? = some '=') :
      .ok (t, size pre + 2) =
        Except.map (fun r => (r.1, size (pre ++ c :: rest) - size r.2)) (.ok (t, rest.tail) : Except ParseError _) := by
    have hleft := size_left pre [c, '='] rest.tail
    rw [size_cons, bytesOf_ascii hc, List.cons_append, List.cons_append, List.nil_append, List.cons_head?_tail hnext] at hleft
    exact congrArg (fun j => Except.ok (t, j)) hleft.symm
  have hequals (hc : c.toNat < 128) := testAt_equals hdrop hc
  have hat {d : Char} (hd : d.toNat < 128) : latin1 b = d ↔ c = d := firstByte_eq hbytes hd
  have hpair {d : Char} (hd : d.toNat < 128) :
      (latin1 b = d ∧ testAt (encode (pre ++ c :: rest)) (· = '=') (size pre + 1) = true) ↔
        (c = d ∧ rest.head? = some '=') := by
    rw [hat hd]
    exact and_congr_right fun heq => hequals (heq ▸ hd)
  rw [tokAt, readTok, hbyte]
  dsimp only
  rw [firstByte_space hbytes, beginsWord_eq hbytes, firstByte_any hbytes fun d hd => lt_of_le_of_lt (digit_bounds hd).2 (by decide)]
  refine ite_map Iff.rfl (fun hspace => hone none (isSpace_lt hspace)) fun _ => ?_
  refine ite_map (hat (by decide)) (fun hlparen => hone _ (hlparen ▸ by decide)) fun _ => ?_
  refine ite_map (hat (by decide)) (fun hrparen => hone _ (hrparen ▸ by decide)) fun _ => ?_
  refine ite_map (hat (by decide)) (fun hdot => hone _ (hdot ▸ by decide)) fun _ => ?_
  refine ite_map (hat (by decide)) (fun hcomma => hone _ (hcomma ▸ by decide)) fun _ => ?_
  refine ite_map (hpair (by decide)) (fun heq => htwo _ (heq.1 ▸ by decide) heq.2) fun _ => ?_
  refine ite_map (hpair (by decide)) (fun hne => htwo _ (hne.1 ▸ by decide) hne.2) fun _ => ?_
  refine ite_map (hat (by decide)) (fun hless => ?_) fun _ => ?_
  · have hc : c.toNat < 128 := hless ▸ by decide
    exact ite_map (hequals hc) (htwo _ hc) fun _ => hone _ hc
  refine ite_map (hat (by decide)) (fun hmore => ?_) fun _ => ?_
  · have hc : c.toNat < 128 := hmore ▸ by decide
    exact ite_map (hequals hc) (htwo _ hc) fun _ => hone _ hc
  refine ite_map (or_congr (hat (by decide)) (hat (by decide))) (fun hquote => ?_) fun _ => ?_
  · have hc : c.toNat < 128 := by rcases hquote with rfl | rfl <;> decide
    have hescape : c ≠ '\\' := by rcases hquote with rfl | rfl <;> decide
    have hsame : latin1 b = c := (hat hc).mpr rfl
    rw [hsame]
    exact turn_literal hc hescape
  have hminus : (latin1 b = '-' ∧ testAt (encode (pre ++ c :: rest)) Char.isDigit (size pre + 1) = true) ↔
      (c = '-' ∧ rest.head?.any Char.isDigit = true) := by
    rw [hat (by decide)]
    refine and_congr_right fun heq => ?_
    rw [testAt_next hdrop (heq ▸ by decide) fun d hd => lt_of_le_of_lt (digit_bounds hd).2 (by decide)]
  refine ite_map (or_congr_right hminus) (fun hnumber => ?_) fun _ => ?_
  · have hchar : isNumberChar c = true := by
      rw [isNumberChar]
      rcases hnumber with h | ⟨rfl, -⟩
      · rw [h]
        rfl
      · rfl
    have hsame : latin1 b = c := (hat (isNumberChar_lt hchar)).mpr rfl
    rw [hsame, skipWhile_number hchar, sliceAt_run]
    cases hparse : parseF64 (c :: rest.takeWhile isNumberChar) with
    | none =>
      dsimp only [Except.bind, Except.map]
      rw [hparse]
    | some n =>
      dsimp only [Except.bind, Except.map]
      rw [hparse, size_run]
  refine ite_map Iff.rfl (fun hstart => ?_) fun _ => ?_
  · rw [skipWhile_eq _ _ _ _ (by omega), hdrop, sliceAt_word hstart]
    split
    · rfl
    · rename_i hcuts
      dsimp only [Except.map]
      rw [size_run, length_word hstart (Bool.eq_false_iff.mpr hcuts)]
  rw [byteLength_eq]
  have hleft := size_left pre [] (c :: rest)
  rw [List.nil_append, size_nil, Nat.add_zero] at hleft
  have hhead : (String.utf8EncodeChar c).head? = some b := by
    have h' : String.utf8EncodeChar c = b :: bs := hbytes
    rw [h']
    rfl
  rw [hleft, hhead]
  rfl

theorem readTok_quote {total : Nat} {quote : Char} (hquote : quote = '"' ∨ quote = '\'') :
    readTok total quote rest =
      match scanString quote rest with
      | none => .error .unterminated
      | some (raw, rest) => .ok (some (.str (unescape raw)), rest) := by
  rcases hquote with rfl | rfl <;> rfl

/-- **A literal that is accepted has the value of reading it once.** -/
theorem literal_read_once {quote : Char} {t : Option Tok} {j : Nat} (hquote : quote = '"' ∨ quote = '\'')
    (h : size pre < (encode (pre ++ quote :: rest)).length)
    (hread : tokAt (pre ++ quote :: rest) (encode (pre ++ quote :: rest)) (size pre) h = .ok (t, j)) :
    ∃ raw after, rest = raw ++ quote :: after ∧ closed quote raw = true ∧ j = size (pre ++ quote :: (raw ++ [quote])) ∧
      t = some (.str (unescape raw)) ∧ unescape raw = decode raw := by
  rw [tokAt_eq, readTok_quote hquote] at hread
  cases hscan : scanString quote rest with
  | none =>
    rw [hscan] at hread
    cases hread
  | some found =>
    obtain ⟨raw, after⟩ := found
    obtain ⟨hrest, hclosed⟩ := scanString_some hscan
    rw [hscan] at hread
    cases hread
    refine ⟨raw, after, hrest, hclosed, ?_, rfl, unescape_eq_decode raw⟩
    have hleft := size_left pre (quote :: (raw ++ [quote])) after
    rw [← size_append, List.cons_append, List.append_assoc, List.singleton_append, ← hrest] at hleft
    exact hleft

/-- `\\"` ends after its second character, and `\'` is one. -/
theorem literal_read_once_escapes :
    ∃ raw after, "\\\\\\'é' == 1".toList = raw ++ '\'' :: after ∧ closed '\'' raw = true ∧
      10 = size ("a ".toList ++ '\'' :: (raw ++ ['\''])) ∧
      some (Tok.str "\\'é".toList) = some (.str (unescape raw)) ∧ unescape raw = decode raw :=
  literal_read_once (Or.inr rfl) (by decide +kernel) (by decide +kernel)

/-- **The lexer over bytes is the lexer over characters.** -/
theorem tokenizeAt_eq : ∀ fuel fuel' (pre s : List Char), size s ≤ fuel → s.length ≤ fuel' →
    tokenizeAt (pre ++ s) (encode (pre ++ s)) fuel (size pre) = tokenizeFrom (size (pre ++ s)) fuel' s
  | fuel, fuel', pre, [], _, _ => by
    have hend : ¬ size pre < (encode (pre ++ [])).length := by
      rw [List.append_nil]
      exact lt_irrefl _
    have hfrom : tokenizeFrom (size (pre ++ [])) fuel' [] = .ok [] := by cases fuel' <;> rfl
    cases fuel with
    | zero => rw [tokenizeAt, hfrom]
    | succ fuel => rw [tokenizeAt, dif_neg hend, hfrom]
  | 0, _, _, c :: s, hfuel, _ => by
    rw [size_cons] at hfuel
    have := length_bytesOf_pos c
    omega
  | _ + 1, 0, _, c :: s, _, hfuel => by cases hfuel
  | fuel + 1, fuel' + 1, pre, c :: s, hfuel, hfuel' => by
    have hlt : size pre < (encode (pre ++ c :: s)).length := by
      have hpos := length_bytesOf_pos c
      show size pre < size (pre ++ c :: s)
      rw [size_append, size_cons]
      omega
    rw [tokenizeAt, dif_pos hlt, tokAt_eq, tokenizeFrom]
    cases hread : readTok (size (pre ++ c :: s)) c s with
    | error e => rfl
    | ok found =>
      obtain ⟨t, after⟩ := found
      obtain ⟨w, rfl, -⟩ := readTok_whole hread
      have hsrc : pre ++ c :: (w ++ after) = (pre ++ c :: w) ++ after := by
        rw [List.append_assoc]
        rfl
      have hplace : size (pre ++ c :: (w ++ after)) - size after = size (pre ++ c :: w) := by
        rw [hsrc, size_append, Nat.add_sub_cancel]
      have hpos := length_bytesOf_pos c
      rw [size_cons, size_append] at hfuel
      rw [List.length_cons, List.length_append] at hfuel'
      have ih := tokenizeAt_eq fuel fuel' (pre ++ c :: w) after (by omega) (by omega)
      rw [← hsrc] at ih
      show (tokenizeAt _ _ fuel (size (pre ++ c :: (w ++ after)) - size after) >>= fun ts => pure (t.toList ++ ts)) = _
      rw [hplace, ih]
      rfl

theorem tokenizeBytes_eq (src : List Char) : tokenizeBytes src = tokenize src := by
  have hlength : src.length ≤ src.length := le_refl _
  have h := tokenizeAt_eq (encode src).length src.length [] src (le_refl _) hlength
  rw [tokenizeBytes, tokenize, byteLength_eq]
  exact h

end Turn

end PredicateParse

end ActantDb
