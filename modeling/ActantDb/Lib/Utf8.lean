import Mathlib.Data.List.TakeWhile
import Mathlib.Data.List.Basic

/-!
# Text as bytes

A text is a list of characters, and its bytes are theirs in UTF-8, one character's after the other's. A program that walks over the bytes and slices the text must slice between characters: `slice` has no result elsewhere. The facts below say what such a program finds at an offset that is between characters, and where a scan over bytes stops in terms of the characters.
-/

namespace Utf8

/-- The bytes of a character. -/
abbrev bytesOf (c : Char) : List UInt8 := String.utf8EncodeChar c

/-- The bytes of a text. -/
def encode (s : List Char) : List UInt8 := s.flatMap bytesOf

/-- How many bytes a text has. -/
def size (s : List Char) : Nat := (encode s).length

/-- The text split at an offset, if that is between characters. -/
def splitAt? : Nat → List Char → Option (List Char × List Char)
  | 0, s => some ([], s)
  | _ + 1, [] => none
  | n + 1, c :: s =>
    if (bytesOf c).length ≤ n + 1 then (splitAt? (n + 1 - (bytesOf c).length) s).map fun p => (c :: p.1, p.2) else none
termination_by structural _ s => s

/-- `&s[a..b]`, where both offsets are between characters and in order. -/
def slice (s : List Char) (a b : Nat) : Option (List Char) :=
  if a ≤ b then (splitAt? a s).bind fun p => (splitAt? (b - a) p.2).map (·.1) else none

section Bytes

variable {c : Char} {s t : List Char}

@[simp] theorem encode_nil : encode [] = [] := rfl

@[simp] theorem encode_cons : encode (c :: s) = bytesOf c ++ encode s := rfl

@[simp] theorem encode_append : encode (s ++ t) = encode s ++ encode t := List.flatMap_append

@[simp] theorem size_nil : size [] = 0 := rfl

@[simp] theorem size_cons : size (c :: s) = (bytesOf c).length + size s := by
  rw [size, encode_cons, List.length_append, size]

@[simp] theorem size_append : size (s ++ t) = size s + size t := by
  rw [size, encode_append, List.length_append, size, size]

/-- A character of ASCII is its own byte. -/
theorem bytesOf_ascii (h : c.toNat < 128) : bytesOf c = [UInt8.ofNat c.toNat] := by
  have hle : c.val.toNat ≤ 0x7f := Nat.le_of_lt_succ h
  rw [bytesOf, String.utf8EncodeChar]
  exact if_pos hle

/-- Any other begins with a byte that no other byte of it is like, and has more than one. -/
theorem bytesOf_wide (h : 128 ≤ c.toNat) :
    ∃ b bs, bytesOf c = b :: bs ∧ 0xc0 ≤ b.toNat ∧ bs ≠ [] ∧ ∀ x ∈ bs, 0x80 ≤ x.toNat ∧ x.toNat < 0xc0 := by
  have hone : ¬ c.val.toNat ≤ 0x7f := Nat.not_le.mpr h
  have hmax : c.val.toNat < 0x110000 := by
    rcases c.valid with hlow | hhigh
    · exact lt_trans hlow (by decide)
    · exact hhigh.2
  rw [bytesOf, String.utf8EncodeChar]
  simp only [if_neg hone]
  split
  · refine ⟨_, _, rfl, ?_, List.cons_ne_nil _ _, ?_⟩
    · rw [UInt8.toNat_ofNat']
      omega
    · simp only [List.mem_singleton, forall_eq, UInt8.toNat_ofNat']
      omega
  split
  · refine ⟨_, _, rfl, ?_, List.cons_ne_nil _ _, ?_⟩
    · rw [UInt8.toNat_ofNat']
      omega
    · simp only [List.mem_cons, List.not_mem_nil, or_false, forall_eq_or_imp, forall_eq, UInt8.toNat_ofNat']
      omega
  · refine ⟨_, _, rfl, ?_, List.cons_ne_nil _ _, ?_⟩
    · rw [UInt8.toNat_ofNat']
      omega
    · simp only [List.mem_cons, List.not_mem_nil, or_false, forall_eq_or_imp, forall_eq, UInt8.toNat_ofNat']
      omega

/-- The bytes of a character after the first are all of a wide one. -/
theorem bytesOf_cons (c : Char) : ∃ x bs, bytesOf c = x :: bs ∧ ∀ y ∈ bs, 0x80 ≤ y.toNat := by
  by_cases hc : c.toNat < 128
  · exact ⟨_, [], bytesOf_ascii hc, fun y hy => by cases hy⟩
  · obtain ⟨x, bs, hbytes, -, -, hbs⟩ := bytesOf_wide (not_lt.mp hc)
    exact ⟨x, bs, hbytes, fun y hy => (hbs y hy).1⟩

theorem length_bytesOf_pos (c : Char) : 0 < (bytesOf c).length := List.length_pos_of_ne_nil String.utf8EncodeChar_ne_nil

/-- A text begins where its size after another says. -/
theorem drop_size (pre s : List Char) : (encode (pre ++ s)).drop (size pre) = encode s := by
  rw [encode_append, size, List.drop_left]

theorem size_concat {c : Char} (pre : List Char) (hc : c.toNat < 128) : size (pre ++ [c]) = size pre + 1 := by
  rw [size_append, size_cons, bytesOf_ascii hc, size_nil, List.length_singleton]

end Bytes

/-! ### Slices -/

section Slices

variable {pre w post : List Char} {c : Char} {k : Nat}

/-- Between characters. -/
theorem splitAt?_size : splitAt? (size pre) (pre ++ post) = some (pre, post) := by
  induction pre with
  | nil => rw [size_nil, List.nil_append, splitAt?]
  | cons c pre ih =>
    obtain ⟨n, hn⟩ := Nat.exists_eq_add_of_lt (length_bytesOf_pos c)
    have hsize : size (c :: pre) = (0 + n + size pre) + 1 := by
      rw [size_cons, hn]
      omega
    rw [hsize, List.cons_append, splitAt?, if_pos (by omega)]
    have hrest : 0 + n + size pre + 1 - (bytesOf c).length = size pre := by omega
    rw [hrest, ih]
    rfl

/-- Within a character. -/
theorem splitAt?_within (hpos : 0 < k) (hlt : k < (bytesOf c).length) :
    splitAt? (size pre + k) (pre ++ c :: post) = none := by
  induction pre with
  | nil =>
    obtain ⟨n, rfl⟩ := Nat.exists_eq_add_of_lt hpos
    rw [size_nil, List.nil_append, Nat.zero_add, Nat.zero_add, splitAt?, if_neg (by omega)]
  | cons d pre ih =>
    obtain ⟨n, hn⟩ := Nat.exists_eq_add_of_lt (length_bytesOf_pos d)
    have hsize : size (d :: pre) + k = (0 + n + (size pre + k)) + 1 := by
      rw [size_cons, hn]
      omega
    rw [hsize, List.cons_append, splitAt?, if_pos (by omega)]
    have hrest : 0 + n + (size pre + k) + 1 - (bytesOf d).length = size pre + k := by omega
    rw [hrest, ih]
    rfl

theorem slice_eq (pre w post : List Char) : slice (pre ++ (w ++ post)) (size pre) (size pre + size w) = some w := by
  rw [slice, if_pos (Nat.le_add_right _ _), splitAt?_size, Option.bind_some, Nat.add_sub_cancel_left, splitAt?_size]
  rfl

theorem slice_within (pre w post : List Char) (hpos : 0 < k) (hlt : k < (bytesOf c).length) :
    slice (pre ++ (w ++ c :: post)) (size pre) (size pre + (size w + k)) = none := by
  rw [slice, if_pos (Nat.le_add_right _ _), splitAt?_size, Option.bind_some, Nat.add_sub_cancel_left,
    splitAt?_within hpos hlt]
  rfl

end Slices

/-! ### Scans -/

section Scan

variable {q : UInt8 → Bool} {s : List Char}

/-- A scan over bytes stops within the first character that is not of them alone. -/
theorem length_takeWhile_encode :
    ((encode s).takeWhile q).length =
      size (s.takeWhile fun c => (bytesOf c).all q) +
        ((s.dropWhile fun c => (bytesOf c).all q).head?.map fun c => ((bytesOf c).takeWhile q).length).getD 0 := by
  induction s with
  | nil => rfl
  | cons c s ih =>
    by_cases hall : (bytesOf c).all q = true
    · have htake : (bytesOf c).takeWhile q = bytesOf c :=
        List.takeWhile_eq_self_iff.mpr (List.all_eq_true.mp hall)
      rw [encode_cons, List.takeWhile_append, htake, if_pos rfl, List.length_append, ih, List.takeWhile_cons, if_pos hall,
        List.dropWhile_cons, if_pos hall, size_cons, Nat.add_assoc]
    · have hlen : ((bytesOf c).takeWhile q).length ≠ (bytesOf c).length := by
        intro heq
        have hrun := List.takeWhile_prefix (l := bytesOf c) q
        have hself : (bytesOf c).takeWhile q = bytesOf c := hrun.eq_of_length heq
        exact hall (List.all_eq_true.mpr (List.takeWhile_eq_self_iff.mp hself))
      rw [encode_cons, List.takeWhile_append, if_neg hlen, List.takeWhile_cons, if_neg hall, List.dropWhile_cons,
        if_neg hall, size_nil, Nat.zero_add]
      rfl

end Scan

end Utf8
