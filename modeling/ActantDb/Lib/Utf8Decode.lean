import Mathlib.Data.List.Basic
import Mathlib.Order.Nat

/-!
# Reading bytes as text

The UTF-8 decoder that replaces what it cannot read: a character that is broken off, by a byte that does not continue it or by the end, is one replacement character, and so is a byte that begins none. A text that is decoded in pieces is that of the whole exactly if no piece ends within a character, that is before a byte that would have continued it. A piece that does makes the text longer, and nothing makes it shorter again.
-/

namespace Utf8

def replacement : Char := Char.ofNat 0xfffd

/-- A character that has begun: how many bytes it still needs, the bounds of the next one, and its number so far. -/
structure Begun where
  needed : Nat
  lower : Nat
  upper : Nat
  point : Nat
  lower_ge : 0x80 ≤ lower
  upper_le : upper ≤ 0xbf

def Begun.accepts (p : Begun) (b : UInt8) : Bool := p.lower ≤ b.toNat && b.toNat ≤ p.upper

/-- A byte between characters: what it is, or what it begins. -/
def start (b : UInt8) : List Char × Option Begun :=
  let n := b.toNat
  if n < 0x80 then ([Char.ofNat n], none)
  else if 0xc2 ≤ n ∧ n ≤ 0xdf then ([], some ⟨1, 0x80, 0xbf, n % 32, Nat.le_refl _, Nat.le_refl _⟩)
  else if n = 0xe0 then ([], some ⟨2, 0xa0, 0xbf, n % 16, by decide, Nat.le_refl _⟩)
  else if n = 0xed then ([], some ⟨2, 0x80, 0x9f, n % 16, Nat.le_refl _, by decide⟩)
  else if 0xe1 ≤ n ∧ n ≤ 0xef then ([], some ⟨2, 0x80, 0xbf, n % 16, Nat.le_refl _, Nat.le_refl _⟩)
  else if n = 0xf0 then ([], some ⟨3, 0x90, 0xbf, n % 8, by decide, Nat.le_refl _⟩)
  else if n = 0xf4 then ([], some ⟨3, 0x80, 0x8f, n % 8, Nat.le_refl _, by decide⟩)
  else if 0xf1 ≤ n ∧ n ≤ 0xf3 then ([], some ⟨3, 0x80, 0xbf, n % 8, Nat.le_refl _, Nat.le_refl _⟩)
  else ([replacement], none)

/-- The next byte: a byte that does not continue what has begun breaks it off. -/
def read (state : Option Begun) (b : UInt8) : List Char × Option Begun :=
  match state with
  | none => start b
  | some p =>
    if p.accepts b then
      let point := p.point * 64 + b.toNat % 64
      if p.needed ≤ 1 then ([Char.ofNat point], none) else ([], some ⟨p.needed - 1, 0x80, 0xbf, point, Nat.le_refl _, Nat.le_refl _⟩)
    else (replacement :: (start b).1, (start b).2)

/-- What is left at the end. -/
def flush : Option Begun → List Char
  | none => []
  | some _ => [replacement]

def decodeFrom (state : Option Begun) : List UInt8 → List Char
  | [] => flush state
  | b :: bs => (read state b).1 ++ decodeFrom (read state b).2 bs

/-- The text of the bytes. -/
def decode (bytes : List UInt8) : List Char := decodeFrom none bytes

/-- Where the decoder stands after these bytes. -/
def after (bytes : List UInt8) (state : Option Begun) : Option Begun := bytes.foldl (fun state b => (read state b).2) state

/-- The next byte continues what has begun. -/
def Continues : Option Begun → List UInt8 → Prop
  | some p, b :: _ => p.accepts b = true
  | _, _ => False

instance : ∀ state bytes, Decidable (Continues state bytes)
  | some p, b :: _ => inferInstanceAs (Decidable (p.accepts b = true))
  | none, _ => .isFalse id
  | some _, [] => .isFalse id

/-- A piece that ends between these bytes ends within a character. -/
def Cuts (a b : List UInt8) : Prop := Continues (after a none) b

instance (a b : List UInt8) : Decidable (Cuts a b) := inferInstanceAs (Decidable (Continues _ _))

section Length

variable {p : Begun} {b : UInt8} {a bs : List UInt8} {state : Option Begun}

/-- A byte that continues a character begins none. -/
theorem start_of_accepts (h : p.accepts b = true) : start b = ([replacement], none) := by
  have hlower := p.lower_ge
  have hupper := p.upper_le
  simp only [Begun.accepts, Bool.and_eq_true, decide_eq_true_eq] at h
  rw [start]
  rw [if_neg (by omega), if_neg (by omega), if_neg (by omega), if_neg (by omega), if_neg (by omega), if_neg (by omega),
    if_neg (by omega), if_neg (by omega)]

theorem read_of_not_accepts (h : p.accepts b = false) : read (some p) b = (replacement :: (start b).1, (start b).2) := by
  rw [read]
  simp only [h, Bool.false_eq_true, if_false]

/-- A byte that continues a character ends it or leaves it begun. -/
theorem read_of_accepts (h : p.accepts b = true) :
    (∃ c, read (some p) b = ([c], none)) ∨ ∃ q, read (some p) b = ([], some q) := by
  rw [read]
  simp only [h, if_true]
  split
  · exact .inl ⟨_, rfl⟩
  · exact .inr ⟨_, rfl⟩

/-- A byte between characters is one or begins one. -/
theorem start_cases (b : UInt8) : (∃ c, start b = ([c], none)) ∨ ∃ q, start b = ([], some q) := by
  rw [start]
  split_ifs
  all_goals first | exact .inl ⟨_, rfl⟩ | exact .inr ⟨_, rfl⟩

/-- Read by itself, a byte that continues a character is one replacement character. -/
theorem length_decode_of_accepts (h : p.accepts b = true) (bs : List UInt8) :
    (decode (b :: bs)).length = 1 + (decode bs).length := by
  rw [decode, decodeFrom, read, start_of_accepts h, decode, List.length_append, List.length_singleton]

/-- What has begun is one character more at most. -/
theorem length_decodeFrom_le (p : Begun) (bs : List UInt8) : (decodeFrom (some p) bs).length ≤ 1 + (decode bs).length := by
  induction bs generalizing p with
  | nil => exact Nat.le_refl _
  | cons b bs ih =>
    by_cases h : p.accepts b = true
    · rw [length_decode_of_accepts h, decodeFrom, List.length_append]
      obtain ⟨c, hread⟩ | ⟨q, hread⟩ := read_of_accepts h
      · rw [hread, List.length_singleton, decode]
        dsimp only
        omega
      · have hrest := ih q
        rw [hread, List.length_nil]
        dsimp only
        omega
    · rw [decodeFrom, read_of_not_accepts (Bool.eq_false_iff.mpr h), decode, decodeFrom, read, List.length_append,
        List.length_append, List.length_cons]
      dsimp only
      omega

/-- A byte that is read apart from what it continues is one character more at least. -/
theorem length_decodeFrom_lt (bs : List UInt8) (h : p.accepts b = true) :
    (decodeFrom (some p) (b :: bs)).length < 1 + (decode (b :: bs)).length := by
  rw [length_decode_of_accepts h, decodeFrom, List.length_append]
  obtain ⟨c, hread⟩ | ⟨q, hread⟩ := read_of_accepts h
  · rw [hread, List.length_singleton, decode]
    dsimp only
    omega
  · have hrest := length_decodeFrom_le q bs
    rw [hread, List.length_nil]
    dsimp only
    omega

/-- What has begun is broken off where nothing continues it. -/
theorem decodeFrom_eq (h : ¬ Continues state bs) : decodeFrom state bs = flush state ++ decode bs := by
  cases state with
  | none => rfl
  | some p =>
    cases bs with
    | nil => rfl
    | cons b bs =>
      rw [decodeFrom, read_of_not_accepts (Bool.eq_false_iff.mpr h)]
      rfl

/-- The decoder goes on from where the first bytes have left it. -/
theorem decodeFrom_append (state : Option Begun) (a b : List UInt8) :
    ∃ out, decodeFrom state (a ++ b) = out ++ decodeFrom (after a state) b ∧
      decodeFrom state a = out ++ flush (after a state) := by
  induction a generalizing state with
  | nil => exact ⟨[], rfl, rfl⟩
  | cons x a ih =>
    obtain ⟨out, hwhole, hfirst⟩ := ih (read state x).2
    refine ⟨(read state x).1 ++ out, ?_, ?_⟩
    · rw [List.cons_append, decodeFrom, hwhole, List.append_assoc]
      rfl
    · rw [decodeFrom, hfirst, List.append_assoc]
      rfl

end Length

section Pieces

variable {a b : List UInt8}

/-- Bytes that are not cut are decoded piece by piece. -/
theorem decode_append_of_not_cuts (h : ¬ Cuts a b) : decode (a ++ b) = decode a ++ decode b := by
  obtain ⟨out, hwhole, hfirst⟩ := decodeFrom_append none a b
  rw [decode, hwhole, decodeFrom_eq h, ← List.append_assoc, ← hfirst]
  rfl

/-- A cut makes the text longer. -/
theorem length_decode_append_lt (h : Cuts a b) : (decode (a ++ b)).length < (decode a ++ decode b).length := by
  obtain ⟨out, hwhole, hfirst⟩ := decodeFrom_append none a b
  rw [Cuts] at h
  cases hstate : after a none with
  | none =>
    rw [hstate] at h
    exact h.elim
  | some p =>
    cases b with
    | nil =>
      rw [hstate] at h
      exact h.elim
    | cons x b =>
      rw [hstate] at h hwhole hfirst
      have hlt := length_decodeFrom_lt b h
      have hone : (flush (some p)).length = 1 := rfl
      rw [decode, hwhole, decode, hfirst]
      simp only [List.length_append, hone]
      omega

theorem length_decode_append_le (a b : List UInt8) : (decode (a ++ b)).length ≤ (decode a ++ decode b).length := by
  by_cases h : Cuts a b
  · exact Nat.le_of_lt (length_decode_append_lt h)
  · exact Nat.le_of_eq (congrArg List.length (decode_append_of_not_cuts h))

theorem length_decode_flatten_le (pieces : List (List UInt8)) :
    (decode pieces.flatten).length ≤ (pieces.flatMap decode).length := by
  induction pieces with
  | nil => exact Nat.le_refl _
  | cons c pieces ih =>
    have := length_decode_append_le c pieces.flatten
    rw [List.length_append] at this
    rw [List.flatten_cons, List.flatMap_cons, List.length_append]
    omega

/-- After bytes that are not cut from those before, the decoder stands where it does after them alone. -/
theorem after_append (h : ¬ Cuts a b) (hne : b ≠ []) : after (a ++ b) none = after b none := by
  obtain ⟨x, b, rfl⟩ := List.exists_cons_of_ne_nil hne
  have hread : (read (after a none) x).2 = (read none x).2 := by
    rw [Cuts] at h
    cases hstate : after a none with
    | none => rfl
    | some p =>
      rw [hstate] at h
      rw [read_of_not_accepts (Bool.eq_false_iff.mpr h)]
      rfl
  rw [after, List.foldl_append, List.foldl_cons]
  exact congrArg (after b) hread

theorem continues_append {state : Option Begun} (hne : a ≠ []) : Continues state (a ++ b) ↔ Continues state a := by
  obtain ⟨x, a, rfl⟩ := List.exists_cons_of_ne_nil hne
  cases state <;> rfl

/-- No piece ends within a character. -/
def Whole (pieces : List (List UInt8)) : Prop :=
  ∀ pre post, pieces = pre ++ post → ¬ Cuts pre.flatten post.flatten

theorem whole_cons {c : List UInt8} {pieces : List (List UInt8)} :
    Whole (c :: pieces) ↔ ¬ Cuts c pieces.flatten ∧ Whole pieces := by
  have hshift (pre post : List (List UInt8)) (hpieces : pieces = pre ++ post) (hcut : ¬ Cuts c pieces.flatten) :
      Cuts (c ++ pre.flatten) post.flatten ↔ Cuts pre.flatten post.flatten := by
    subst hpieces
    rw [List.flatten_append] at hcut
    by_cases hpre : pre.flatten = []
    · rw [hpre, List.nil_append] at hcut
      rw [hpre, List.append_nil]
      exact iff_of_false hcut id
    · have hfirst : ¬ Cuts c pre.flatten := by rwa [Cuts, continues_append hpre] at hcut
      rw [Cuts, Cuts, after_append hfirst hpre]
  constructor
  · intro h
    have hcut : ¬ Cuts c pieces.flatten := by
      have := h [c] pieces rfl
      rwa [List.flatten_singleton] at this
    refine ⟨hcut, fun pre post hpieces => ?_⟩
    rw [← hshift pre post hpieces hcut]
    exact h (c :: pre) post (by rw [hpieces, List.cons_append])
  · rintro ⟨hcut, h⟩ pre post hpieces
    cases pre with
    | nil => exact id
    | cons d pre =>
      obtain ⟨rfl, hrest⟩ := List.cons.inj hpieces
      rw [List.flatten_cons, hshift pre post hrest hcut]
      exact h pre post hrest

/-- **A text is decoded in pieces** exactly if no piece ends within a character. -/
theorem flatMap_decode_iff (pieces : List (List UInt8)) : pieces.flatMap decode = decode pieces.flatten ↔ Whole pieces := by
  induction pieces with
  | nil =>
    refine iff_of_true rfl fun pre post hpieces => ?_
    obtain ⟨rfl, rfl⟩ := List.append_eq_nil_iff.mp hpieces.symm
    exact id
  | cons c pieces ih =>
    rw [whole_cons, ← ih, List.flatMap_cons, List.flatten_cons]
    constructor
    · intro h
      have hcut : ¬ Cuts c pieces.flatten := by
        intro hcut
        have hlt := length_decode_append_lt hcut
        have hle := length_decode_flatten_le pieces
        rw [← h, List.length_append, List.length_append] at hlt
        omega
      refine ⟨hcut, ?_⟩
      rw [decode_append_of_not_cuts hcut] at h
      exact List.append_cancel_left h
    · rintro ⟨hcut, h⟩
      rw [decode_append_of_not_cuts hcut, h]

/-- Bytes are read as something. -/
theorem decode_eq_nil {bytes : List UInt8} : decode bytes = [] ↔ bytes = [] := by
  have hbegun (p : Begun) (bs : List UInt8) : decodeFrom (some p) bs ≠ [] := by
    induction bs generalizing p with
    | nil => exact List.cons_ne_nil _ _
    | cons b bs ih =>
      rw [decodeFrom]
      by_cases h : p.accepts b = true
      · obtain ⟨c, hread⟩ | ⟨q, hread⟩ := read_of_accepts h
        · rw [hread]
          exact List.cons_ne_nil _ _
        · rw [hread]
          exact ih q
      · rw [read_of_not_accepts (Bool.eq_false_iff.mpr h)]
        exact List.cons_ne_nil _ _
  cases bytes with
  | nil => exact iff_of_true rfl rfl
  | cons b bs =>
    refine iff_of_false ?_ (List.cons_ne_nil b bs)
    rw [decode, decodeFrom, read]
    obtain ⟨c, hstart⟩ | ⟨q, hstart⟩ := start_cases b
    · rw [hstart]
      exact List.cons_ne_nil _ _
    · rw [hstart]
      exact hbegun q bs

end Pieces

end Utf8
