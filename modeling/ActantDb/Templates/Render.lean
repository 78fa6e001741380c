import Mathlib.Data.Finset.Basic
import ActantDb.Core.Hash
import ActantDb.Lib.Doubled
import ActantDb.Lib.Utf8

/-!
# Rendering templates

`substitute` walks over the bytes of the text and slices the text where it finds braces. Every slice it takes is between characters, so it never panics; what it does in terms of characters is `Scanned`: a character is copied, except that `{{` with a `}}` somewhere after it is taken with all that is before the first one, and is either replaced or copied as a whole.
-/

namespace ActantDb.Templates

open Utf8 Doubled

/-! ### The program -/

/-- From `j` on, where these bytes are left. -/
def findCloseIn (j : Nat) : List UInt8 → Option Nat
  | b :: b' :: rest => if b = 125 ∧ b' = 125 then some j else findCloseIn (j + 1) (b' :: rest)
  | _ => none

def findClose (bytes : List UInt8) (start : Nat) : Option Nat := findCloseIn start (bytes.drop start)

/-- `b.is_ascii_alphanumeric() || b == b'_' || b == b'.'`. -/
def isKeyByte (b : UInt8) : Bool :=
  (48 ≤ b && b ≤ 57) || (65 ≤ b && b ≤ 90) || (97 ≤ b && b ≤ 122) || b = 95 || b = 46

def isValidKey (s : List Char) : Bool := !s.isEmpty && (encode s).all isKeyByte

def utf8CharLen (first : UInt8) : Nat :=
  if first < 0x80 then 1
  else if first < 0xc0 then 1
  else if first < 0xe0 then 2
  else if first < 0xf0 then 3
  else 4

section Program

variable (vars : String → Option String) (text : List Char)

/-- One character is pushed. -/
def copyAt (i : Nat) (first : UInt8) : Option (List Char × Nat) :=
  (slice text i (i + utf8CharLen first)).map (·, i + utf8CharLen first)

/-- One turn of the loop: what is pushed and where to go on, unless a slice panics. -/
def turn (i : Nat) (h : i < (encode text).length) : Option (List Char × Nat) :=
  let bytes := encode text
  if bytes[i] = 123 ∧ bytes[i + 1]? = some 123 then
    match findClose bytes (i + 2) with
    | some close =>
      (slice text (i + 2) close).bind fun raw =>
        let key := trim raw
        match if isValidKey key then vars (String.ofList key) else none with
        | some value => some (value.toList, close + 2)
        | none => (slice text i (close + 2)).map (·, close + 2)
    | none => copyAt text i bytes[i]
  else copyAt text i bytes[i]

inductive Outcome where
  | returned (out : List Char)
  | panicked
  | running
  deriving DecidableEq

def substituteFrom : Nat → List Char → Nat → Outcome
  | 0, _, _ => .running
  | fuel + 1, out, i =>
    if h : i < (encode text).length then
      match turn vars text i h with
      | some (pushed, i) => substituteFrom fuel (out ++ pushed) i
      | none => .panicked
    else .returned out

/-- What has become of the call after so many turns. -/
def substitute (fuel : Nat) : Outcome := substituteFrom vars text fuel [] 0

/-- The call returns this, without a panic. -/
def Returns (out : List Char) : Prop := ∃ enough, ∀ fuel, enough ≤ fuel → substitute vars text fuel = .returned out

end Program

/-! ### Characters for bytes -/

section Bytes

variable {c m : Char} {s : List Char}

/-- A character of ASCII is found among bytes only where it is one of the characters. -/
theorem mem_bytesOf (hm : m.toNat < 128) : UInt8.ofNat m.toNat ∈ bytesOf c ↔ c = m := by
  constructor
  · intro h
    by_cases hc : c.toNat < 128
    · rw [bytesOf_ascii hc, List.mem_singleton] at h
      have hnat := congrArg UInt8.toNat h
      rw [UInt8.toNat_ofNat', UInt8.toNat_ofNat'] at hnat
      exact Char.ext (UInt32.toNat_inj.mp (show c.toNat = m.toNat by omega))
    · obtain ⟨b, bs, hbytes, hb, -, hbs⟩ := bytesOf_wide (Nat.le_of_not_lt hc)
      have hnat : (UInt8.ofNat m.toNat).toNat = m.toNat := by
        rw [UInt8.toNat_ofNat']
        omega
      rw [hbytes, List.mem_cons] at h
      rcases h with rfl | h
      · omega
      · have := hbs _ h
        omega
  · rintro rfl
    rw [bytesOf_ascii hm]
    exact List.mem_singleton_self _

theorem head?_encode (hm : m.toNat < 128) : (encode s).head? = some (UInt8.ofNat m.toNat) ↔ s.head? = some m := by
  cases s with
  | nil => simp
  | cons c s =>
    obtain ⟨b, bs, hbytes, hbs⟩ := bytesOf_cons c
    rw [encode_cons, hbytes, List.cons_append, List.head?_cons, List.head?_cons, Option.some_inj, Option.some_inj,
      ← mem_bytesOf hm, hbytes, List.mem_cons, eq_comm]
    refine ⟨Or.inl, fun h => h.resolve_right fun hmem => ?_⟩
    have hle := hbs _ hmem
    rw [UInt8.toNat_ofNat'] at hle
    omega

/-- A mark that is nowhere doubled is so among the bytes. -/
theorem free_encode (hm : m.toNat < 128) (h : Free m s) : Free (UInt8.ofNat m.toNat) (encode s) := by
  induction s with
  | nil => exact free_nil
  | cons c s ih =>
    have htail := ih h.tail
    by_cases hc : c = m
    · subst hc
      rw [encode_cons, bytesOf_ascii hm, List.singleton_append]
      refine free_cons.mpr ⟨fun hdouble => ?_, htail⟩
      exact (free_cons.mp h).1 ⟨rfl, (head?_encode hm).mp hdouble.2⟩
    · exact free_append (fun hmem => hc ((mem_bytesOf hm).mp hmem)) htail

theorem utf8CharLen_ofNat {n : Nat} (h : n < 256) :
    utf8CharLen (UInt8.ofNat n) =
      if n < 0x80 then 1 else if n < 0xc0 then 1 else if n < 0xe0 then 2 else if n < 0xf0 then 3 else 4 := by
  have hnat : (UInt8.ofNat n).toNat = n := by
    rw [UInt8.toNat_ofNat']
    omega
  simp only [utf8CharLen, UInt8.lt_iff_toNat_lt, hnat]
  rfl

/-- The first byte tells how long the character is. -/
theorem utf8CharLen_first {b : UInt8} {bs : List UInt8} (h : bytesOf c = b :: bs) :
    utf8CharLen b = (bytesOf c).length := by
  have hmax : c.val.toNat < 0x110000 := by
    rcases c.valid with hlow | hhigh
    · exact lt_trans hlow (by decide)
    · exact hhigh.2
  rw [h]
  simp only [bytesOf, String.utf8EncodeChar] at h
  by_cases hone : c.val.toNat ≤ 0x7f
  · rw [if_pos hone] at h
    obtain ⟨rfl, rfl⟩ := List.cons.inj h
    rw [utf8CharLen_ofNat (by omega), if_pos (by omega)]
    rfl
  rw [if_neg hone] at h
  by_cases htwo : c.val.toNat ≤ 0x7ff
  · rw [if_pos htwo] at h
    obtain ⟨rfl, rfl⟩ := List.cons.inj h
    rw [utf8CharLen_ofNat (by omega), if_neg (by omega), if_neg (by omega), if_pos (by omega)]
    rfl
  rw [if_neg htwo] at h
  by_cases hthree : c.val.toNat ≤ 0xffff
  · rw [if_pos hthree] at h
    obtain ⟨rfl, rfl⟩ := List.cons.inj h
    rw [utf8CharLen_ofNat (by omega), if_neg (by omega), if_neg (by omega), if_neg (by omega), if_pos (by omega)]
    rfl
  · rw [if_neg hthree] at h
    obtain ⟨rfl, rfl⟩ := List.cons.inj h
    rw [utf8CharLen_ofNat (by omega), if_neg (by omega), if_neg (by omega), if_neg (by omega), if_neg (by omega)]
    rfl

end Bytes

/-! ### Keys -/

section Keys

variable {c : Char} {s key before behind : List Char}

/-- A letter or a digit of ASCII, an underscore or a dot. -/
def isKeyChar (c : Char) : Bool := c.isAlphanum || c = '_' || c = '.'

theorem keyChar_ascii (h : isKeyChar c = true) : c.toNat < 128 := by
  have h : (decide ('A'.val ≤ c.val ∧ c.val ≤ 'Z'.val) || (decide ('a'.val ≤ c.val) && decide (c.val ≤ 'z'.val)) ||
      (decide ('0'.val ≤ c.val) && decide (c.val ≤ '9'.val)) || decide (c = '_') || decide (c = '.')) = true := h
  simp only [Bool.or_eq_true, Bool.and_eq_true, decide_eq_true_eq, UInt32.le_iff_toNat_le] at h
  rcases h with ((((⟨-, h⟩ | ⟨-, h⟩) | ⟨-, h⟩) | rfl) | rfl)
  · exact Nat.lt_of_le_of_lt h (by decide)
  · exact Nat.lt_of_le_of_lt h (by decide)
  · exact Nat.lt_of_le_of_lt h (by decide)
  · decide
  · decide

theorem isKeyByte_bytesOf (c : Char) : (bytesOf c).all isKeyByte = isKeyChar c := by
  by_cases hc : c.toNat < 128
  · rw [bytesOf_ascii hc, List.all_cons, List.all_nil, Bool.and_true]
    have hall : ∀ n < 128, isKeyByte (UInt8.ofNat n) = isKeyChar (Char.ofNat n) := by decide +kernel
    rw [hall _ hc, Char.ofNat_toNat]
  · obtain ⟨b, bs, hbytes, hb, -, -⟩ := bytesOf_wide (Nat.le_of_not_lt hc)
    have hbyte : isKeyByte b = false := by
      simp only [isKeyByte, UInt8.le_iff_toNat_le, ← UInt8.toNat_inj]
      simp
      omega
    have hchar : isKeyChar c = false := Bool.eq_false_iff.mpr fun h => hc (keyChar_ascii h)
    rw [hbytes, List.all_cons, hbyte, hchar, Bool.false_and]

theorem isValidKey_iff : isValidKey s = true ↔ s ≠ [] ∧ ∀ c ∈ s, isKeyChar c = true := by
  have hall : (encode s).all isKeyByte = s.all isKeyChar := by
    rw [encode, List.all_flatMap]
    simp only [isKeyByte_bytesOf]
  rw [isValidKey, hall, Bool.and_eq_true, List.all_eq_true]
  simp

theorem isWhitespace_of_keyChar (h : isKeyChar c = true) : isWhitespace c = false := by
  have hall : ∀ n < 128, isKeyChar (Char.ofNat n) = true → isWhitespace (Char.ofNat n) = false := by decide +kernel
  have hc := hall c.toNat (keyChar_ascii h)
  rw [Char.ofNat_toNat] at hc
  exact hc h

/-- What is trimmed is white space. -/
theorem exists_trim (s : List Char) :
    ∃ before behind, s = before ++ (trim s ++ behind) ∧ (∀ c ∈ before, isWhitespace c = true) ∧
      ∀ c ∈ behind, isWhitespace c = true := by
  have hfront := List.takeWhile_append_dropWhile (p := isWhitespace) (l := s)
  have hback := List.takeWhile_append_dropWhile (p := isWhitespace) (l := (s.dropWhile isWhitespace).reverse)
  refine ⟨s.takeWhile isWhitespace, (((s.dropWhile isWhitespace).reverse).takeWhile isWhitespace).reverse, ?_, ?_, ?_⟩
  · rw [trim, ← List.reverse_append, hback, List.reverse_reverse, hfront]
  · exact fun c hc => List.mem_takeWhile_imp hc
  · exact fun c hc => List.mem_takeWhile_imp (List.mem_reverse.mp hc)

theorem dropWhile_whitespace (hbefore : ∀ c ∈ before, isWhitespace c = true) (hkey : isValidKey key = true)
    (t : List Char) : (before ++ (key ++ t)).dropWhile isWhitespace = key ++ t := by
  obtain ⟨hne, hchars⟩ := isValidKey_iff.mp hkey
  obtain ⟨c, rest, rfl⟩ := List.exists_cons_of_ne_nil hne
  have hc := isWhitespace_of_keyChar (hchars c List.mem_cons_self)
  rw [List.dropWhile_append_of_pos hbefore, List.cons_append, List.dropWhile_cons_of_neg (by rw [hc]; decide)]

theorem isValidKey_reverse : isValidKey s.reverse = isValidKey s := by
  rw [Bool.eq_iff_iff, isValidKey_iff, isValidKey_iff]
  simp

/-- A key between white space is what is left when it is trimmed. -/
theorem trim_key (hbefore : ∀ c ∈ before, isWhitespace c = true) (hbehind : ∀ c ∈ behind, isWhitespace c = true)
    (hkey : isValidKey key = true) : trim (before ++ (key ++ behind)) = key := by
  have hreverse : ∀ c ∈ behind.reverse, isWhitespace c = true := fun c hc => hbehind c (List.mem_reverse.mp hc)
  have hkey' : isValidKey key.reverse = true := isValidKey_reverse.trans hkey
  have hback := dropWhile_whitespace hreverse hkey' []
  rw [List.append_nil] at hback
  rw [trim, dropWhile_whitespace hbefore hkey, List.reverse_append, hback, List.reverse_reverse]

end Keys

/-! ### Closing braces -/

section Close

variable {bytes post : List UInt8} {j : Nat} {s : List Char}

theorem findCloseIn_free (h : Free 125 bytes) : findCloseIn j bytes = none := by
  induction bytes generalizing j with
  | nil => rfl
  | cons b bytes ih =>
    cases bytes with
    | nil => rfl
    | cons b' bytes =>
      rw [findCloseIn, if_neg fun hdouble => (free_cons.mp h).1 ⟨hdouble.1, congrArg some hdouble.2⟩, ih h.tail]

theorem findCloseIn_first (h : Free 125 (bytes ++ [125])) :
    findCloseIn j (bytes ++ 125 :: 125 :: post) = some (j + bytes.length) := by
  induction bytes generalizing j with
  | nil =>
    rw [List.nil_append, findCloseIn, if_pos ⟨rfl, rfl⟩]
    rfl
  | cons b bytes ih =>
    have hnot : ¬ (b = 125 ∧ (bytes ++ [125]).head? = some 125) := (free_cons.mp h).1
    have hnext : (bytes ++ [125]).head? = (bytes ++ 125 :: 125 :: post).head? := by cases bytes <;> rfl
    obtain ⟨b', rest, hrest⟩ := List.exists_cons_of_ne_nil (l := bytes ++ 125 :: 125 :: post) (by simp)
    rw [hnext, hrest] at hnot
    rw [List.cons_append, hrest, findCloseIn, if_neg fun hdouble => hnot ⟨hdouble.1, congrArg some hdouble.2⟩, ← hrest,
      ih h.tail, List.length_cons, Nat.add_right_comm, Nat.add_assoc]

theorem findClose_free (pre : List Char) (h : Free '}' s) : findClose (encode (pre ++ s)) (size pre) = none := by
  rw [findClose, drop_size, findCloseIn_free (free_encode (m := '}') (by decide) h)]

theorem findClose_first (pre rest : List Char) (h : Free '}' (s ++ ['}'])) :
    findClose (encode (pre ++ (s ++ '}' :: '}' :: rest))) (size pre) = some (size pre + size s) := by
  have hfree := free_encode (m := '}') (by decide) h
  rw [encode_append] at hfree
  rw [findClose, drop_size, encode_append]
  exact findCloseIn_first hfree

end Close

/-! ### What the loop does -/

inductive Piece where
  | copied (s : List Char)
  | value (key : List Char)

def Piece.render (vars : String → Option String) : Piece → List Char
  | .copied s => s
  | .value key => ((vars (String.ofList key)).getD "").toList

/-- How the program takes a text apart, where these are the keys of the map. -/
inductive Scanned (keys : Finset String) : List Char → List Piece → Prop
  | done : Scanned keys [] []
  | replaced {inside rest : List Char} {pieces : List Piece} : Free '}' (inside ++ ['}']) →
      isValidKey (trim inside) = true → String.ofList (trim inside) ∈ keys → Scanned keys rest pieces →
      Scanned keys ('{' :: '{' :: (inside ++ '}' :: '}' :: rest)) (.value (trim inside) :: pieces)
  | kept {inside rest : List Char} {pieces : List Piece} : Free '}' (inside ++ ['}']) →
      ¬ (isValidKey (trim inside) = true ∧ String.ofList (trim inside) ∈ keys) → Scanned keys rest pieces →
      Scanned keys ('{' :: '{' :: (inside ++ '}' :: '}' :: rest)) (.copied ('{' :: '{' :: (inside ++ ['}', '}'])) :: pieces)
  | copied {c : Char} {rest : List Char} {pieces : List Piece} :
      (∀ after, c :: rest = '{' :: '{' :: after → Free '}' after) → Scanned keys rest pieces →
      Scanned keys (c :: rest) (.copied [c] :: pieces)

theorem exists_scanned (keys : Finset String) (text : List Char) : ∃ pieces, Scanned keys text pieces := by
  induction hn : text.length using Nat.strong_induction_on generalizing text with
  | h n ih =>
    by_cases hopen : ∃ inside rest, text = '{' :: '{' :: (inside ++ '}' :: '}' :: rest) ∧ Free '}' (inside ++ ['}'])
    · obtain ⟨inside, rest, rfl, hclose⟩ := hopen
      have hlt : rest.length < n := by
        simp only [List.length_append, List.length_cons] at hn
        omega
      obtain ⟨pieces, hrest⟩ := ih _ hlt rest rfl
      by_cases hkey : isValidKey (trim inside) = true ∧ String.ofList (trim inside) ∈ keys
      · exact ⟨_, .replaced hclose hkey.1 hkey.2 hrest⟩
      · exact ⟨_, .kept hclose hkey hrest⟩
    · cases text with
      | nil => exact ⟨_, .done⟩
      | cons c rest =>
        rw [List.length_cons] at hn
        obtain ⟨pieces, hrest⟩ := ih _ (by omega) rest rfl
        refine ⟨_, .copied (fun after hafter => ?_) hrest⟩
        rcases free_or_first '}' after with hfree | ⟨inside, rest', rfl, hclose⟩
        · exact hfree
        · exact absurd ⟨inside, rest', hafter, hclose⟩ hopen

section Loop

variable {vars : String → Option String} {keys : Finset String} {text pre inside rest s : List Char} {i : Nat} {b : UInt8}

theorem getElem?_at (pre s : List Char) (k : Nat) : (encode (pre ++ s))[size pre + k]? = (encode s)[k]? := by
  rw [← List.getElem?_drop, drop_size]

theorem turn_eq (h : i < (encode text).length) (hb : (encode text)[i]? = some b) :
    turn vars text i h =
      if b = 123 ∧ (encode text)[i + 1]? = some 123 then
        match findClose (encode text) (i + 2) with
        | some close =>
          (slice text (i + 2) close).bind fun raw =>
            match if isValidKey (trim raw) then vars (String.ofList (trim raw)) else none with
            | some value => some (value.toList, close + 2)
            | none => (slice text i (close + 2)).map (·, close + 2)
        | none => copyAt text i b
      else copyAt text i b := by
  obtain ⟨-, rfl⟩ := List.getElem?_eq_some_iff.mp hb
  rfl

theorem copyAt_eq (pre rest : List Char) {c : Char} {bs : List UInt8} (hc : bytesOf c = b :: bs) :
    copyAt (pre ++ c :: rest) (size pre) b = some ([c], size (pre ++ [c])) := by
  have hlen : size [c] = utf8CharLen b := by
    rw [utf8CharLen_first hc, size_cons, size_nil, Nat.add_zero]
  rw [copyAt, ← hlen, size_append]
  have hslice := slice_eq pre [c] rest
  rw [List.singleton_append] at hslice
  rw [hslice]
  rfl

/-- Between braces, the slice of the key. -/
theorem turn_braces (vars : String → Option String) (hclose : Free '}' (inside ++ ['}']))
    (htext : text = pre ++ '{' :: '{' :: (inside ++ '}' :: '}' :: rest)) (h : size pre < (encode text).length) :
    turn vars text (size pre) h =
      match if isValidKey (trim inside) then vars (String.ofList (trim inside)) else none with
      | some value => some (value.toList, size (pre ++ '{' :: '{' :: (inside ++ ['}', '}'])))
      | none => some ('{' :: '{' :: (inside ++ ['}', '}']), size (pre ++ '{' :: '{' :: (inside ++ ['}', '}']))) := by
  subst htext
  have hopen : size (pre ++ ['{', '{']) = size pre + 2 := by
    rw [size_append]
    rfl
  have hend : size (pre ++ '{' :: '{' :: (inside ++ ['}', '}'])) = size pre + 2 + size inside + 2 := by
    rw [size_append, size_cons, size_cons, size_append]
    show size pre + (1 + (1 + (size inside + 2))) = _
    omega
  have hfound := findClose_first (pre ++ ['{', '{']) rest hclose
  have hraw := slice_eq (pre ++ ['{', '{']) inside ('}' :: '}' :: rest)
  have hwhole := slice_eq pre ('{' :: '{' :: (inside ++ ['}', '}'])) rest
  rw [← size_append, hend] at hwhole
  rw [hopen, List.append_assoc, List.cons_append, List.cons_append, List.nil_append] at hfound hraw
  simp only [List.cons_append, List.append_assoc, List.nil_append] at hwhole
  rw [turn_eq h (b := 123) ((getElem?_at pre _ 0).trans rfl), if_pos ⟨rfl, (getElem?_at pre _ 1).trans rfl⟩, hfound, hend]
  show (slice _ _ _).bind _ = _
  rw [hraw]
  simp only [Option.bind_some, hwhole, Option.map_some]

/-- Elsewhere a character is copied. -/
theorem turn_copied {c : Char} (hopen : ∀ after, c :: rest = '{' :: '{' :: after → Free '}' after)
    (htext : text = pre ++ c :: rest) (h : size pre < (encode text).length) :
    turn vars text (size pre) h = some ([c], size (pre ++ [c])) := by
  subst htext
  obtain ⟨b, bs, hbytes, hbs⟩ := bytesOf_cons c
  have hfirst : (encode (pre ++ c :: rest))[size pre]? = some b := by
    refine (getElem?_at pre (c :: rest) 0).trans ?_
    rw [encode_cons, hbytes]
    rfl
  rw [turn_eq h hfirst]
  split
  next hbraces =>
    -- two opening braces, and nothing closes them
    have hhead : (c :: rest).head? = some '{' := by
      refine (head?_encode (m := '{') (by decide)).mp ?_
      rw [encode_cons, hbytes, hbraces.1]
      rfl
    obtain rfl : c = '{' := Option.some_inj.mp hhead
    have hnext : rest.head? = some '{' := by
      refine (head?_encode (m := '{') (by decide)).mp ?_
      rw [List.head?_eq_getElem?]
      exact (getElem?_at pre ('{' :: rest) 1).symm.trans hbraces.2
    obtain ⟨after, rfl⟩ := List.head?_eq_some_iff.mp hnext
    have hnone := findClose_free (pre ++ ['{', '{']) (hopen after rfl)
    rw [size_append, List.append_assoc] at hnone
    rw [show findClose (encode (pre ++ '{' :: '{' :: after)) (size pre + 2) = none from hnone]
    exact copyAt_eq pre _ hbytes
  next => exact copyAt_eq pre _ hbytes

theorem substituteFrom_turn {pushed out : List Char} {next fuel : Nat} (h : i < (encode text).length)
    (hturn : turn vars text i h = some (pushed, next)) :
    substituteFrom vars text (fuel + 1) out i = substituteFrom vars text fuel (out ++ pushed) next := by
  rw [substituteFrom, dif_pos h, hturn]

theorem size_lt (pre rest : List Char) (c : Char) : size pre < (encode (pre ++ c :: rest)).length := by
  show size pre < size (pre ++ c :: rest)
  have hpos := length_bytesOf_pos c
  rw [size_append, size_cons]
  omega

/-- The loop from between two characters on. -/
theorem substituteFrom_scanned (hkeys : ∀ k, (vars k).isSome = true ↔ k ∈ keys) {pieces : List Piece}
    (hs : Scanned keys s pieces) {fuel : Nat} (hfuel : s.length + 1 ≤ fuel) (pre out : List Char) (htext : text = pre ++ s) :
    substituteFrom vars text fuel out (size pre) = .returned (out ++ pieces.flatMap (Piece.render vars)) := by
  obtain ⟨fuel, rfl⟩ := Nat.exists_eq_add_of_le' (Nat.le_trans (Nat.le_add_left 1 _) hfuel)
  replace hfuel := Nat.le_of_succ_le_succ hfuel
  induction hs generalizing pre out fuel with
  | done =>
    have hend : ¬ size pre < (encode text).length := by
      rw [htext, List.append_nil, size]
      exact Nat.lt_irrefl _
    rw [substituteFrom, dif_neg hend, List.flatMap_nil, List.append_nil]
  | @replaced inside rest pieces hclose hvalid hmem _ ih =>
    have hlt := size_lt pre ('{' :: (inside ++ '}' :: '}' :: rest)) '{'
    rw [← htext] at hlt
    obtain ⟨value, hvalue⟩ := Option.isSome_iff_exists.mp ((hkeys _).mpr hmem)
    have hturn := turn_braces vars hclose htext hlt
    rw [if_pos hvalid, hvalue] at hturn
    rw [substituteFrom_turn hlt hturn]
    have hrest : text = pre ++ '{' :: '{' :: (inside ++ ['}', '}']) ++ rest := by simp [htext]
    have hrender : (Piece.value (trim inside)).render vars = value.toList := by rw [Piece.render, hvalue, Option.getD_some]
    simp only [List.length_cons, List.length_append] at hfuel
    obtain ⟨fuel, rfl⟩ := Nat.exists_eq_add_of_le' (show 1 ≤ fuel by omega)
    rw [ih _ _ hrest fuel (by omega), List.flatMap_cons, hrender, List.append_assoc]
  | @kept inside rest pieces hclose hnot _ ih =>
    have hlt := size_lt pre ('{' :: (inside ++ '}' :: '}' :: rest)) '{'
    rw [← htext] at hlt
    have hturn := turn_braces vars hclose htext hlt
    have hnone : (if isValidKey (trim inside) = true then vars (String.ofList (trim inside)) else none) = none := by
      split
      next hvalid =>
        have hout : ¬ (vars (String.ofList (trim inside))).isSome = true := fun h => hnot ⟨hvalid, (hkeys _).mp h⟩
        rwa [Option.not_isSome_iff_eq_none] at hout
      next => rfl
    rw [hnone] at hturn
    rw [substituteFrom_turn hlt hturn]
    have hrest : text = pre ++ '{' :: '{' :: (inside ++ ['}', '}']) ++ rest := by simp [htext]
    simp only [List.length_cons, List.length_append] at hfuel
    obtain ⟨fuel, rfl⟩ := Nat.exists_eq_add_of_le' (show 1 ≤ fuel by omega)
    rw [ih _ _ hrest fuel (by omega), List.flatMap_cons, Piece.render, List.append_assoc]
  | @copied c rest pieces hopen _ ih =>
    have hlt := size_lt pre rest c
    rw [← htext] at hlt
    have hrest : text = pre ++ [c] ++ rest := by simp [htext]
    rw [List.length_cons] at hfuel
    obtain ⟨fuel, rfl⟩ := Nat.exists_eq_add_of_le' (show 1 ≤ fuel by omega)
    rw [substituteFrom_turn hlt (turn_copied hopen htext hlt), ih _ _ hrest fuel (by omega), List.flatMap_cons, Piece.render,
      List.append_assoc]

/-- `substitute` returns, and never panics. -/
theorem returns_scanned (hkeys : ∀ k, (vars k).isSome = true ↔ k ∈ keys) {pieces : List Piece} (hs : Scanned keys text pieces) :
    Returns vars text (pieces.flatMap (Piece.render vars)) :=
  ⟨text.length + 1, fun _ hfuel => substituteFrom_scanned hkeys hs hfuel [] [] rfl⟩

theorem Returns.unique {out out' : List Char} (h : Returns vars text out) (h' : Returns vars text out') : out = out' := by
  obtain ⟨n, hn⟩ := h
  obtain ⟨n', hn'⟩ := h'
  have heq := (hn (n + n') (Nat.le_add_right _ _)).symm.trans (hn' (n + n') (Nat.le_add_left _ _))
  exact Outcome.returned.inj heq

end Loop

end ActantDb.Templates
