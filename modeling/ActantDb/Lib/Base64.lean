import Mathlib.Data.List.Basic

/-!
# Bytes as text

Two ways to write bytes as text: the URL-safe base 64 without padding, and hexadecimal digits. A strict decoder of the first refuses bits that stand for nothing, so a text stands for bytes if and only if it is how they are written (`Base64.decode_eq_some`). Hexadecimal digits may be written in either case, and nothing else is open (`Hex.decode_eq_some`).
-/

namespace Base64

def alphabet : List Char := "ABCDEFGHIJKLMNOPQRSTUVWXYZabcdefghijklmnopqrstuvwxyz0123456789-_".toList

def digit (n : Nat) : Char := alphabet.getD n 'A'

def value (c : Char) : Option Nat := alphabet.idxOf? c

/-- `URL_SAFE_NO_PAD.encode`. -/
def encode : List UInt8 → List Char
  | [] => []
  | [a] => [digit (a.toNat / 4), digit (a.toNat % 4 * 16)]
  | [a, b] => [digit (a.toNat / 4), digit (a.toNat % 4 * 16 + b.toNat / 16), digit (b.toNat % 16 * 4)]
  | a :: b :: c :: rest =>
    digit (a.toNat / 4) :: digit (a.toNat % 4 * 16 + b.toNat / 16) :: digit (b.toNat % 16 * 4 + c.toNat / 64) ::
      digit (c.toNat % 64) :: encode rest

/-- `URL_SAFE_NO_PAD.decode`, any error being `none`. -/
def decode : List Char → Option (List UInt8)
  | [] => some []
  | [_] => none
  | [p, q] => do
    let p ← value p
    let q ← value q
    -- the last bits stand for nothing
    if q % 16 = 0 then some [.ofNat (p * 4 + q / 16)] else none
  | [p, q, r] => do
    let p ← value p
    let q ← value q
    let r ← value r
    if r % 4 = 0 then some [.ofNat (p * 4 + q / 16), .ofNat (q % 16 * 16 + r / 4)] else none
  | p :: q :: r :: s :: rest => do
    let p ← value p
    let q ← value q
    let r ← value r
    let s ← value s
    let bytes ← decode rest
    return .ofNat (p * 4 + q / 16) :: .ofNat (q % 16 * 16 + r / 4) :: .ofNat (r % 4 * 64 + s) :: bytes

theorem value_digit : ∀ n < 64, value (digit n) = some n := by decide

theorem value_eq_some {c : Char} {n : Nat} (h : value c = some n) : n < 64 ∧ digit n = c := by
  obtain ⟨hn, hc, -⟩ := List.idxOf?_eq_some_iff.mp h
  refine ⟨hn, ?_⟩
  rw [digit, List.getD_eq_getElem?_getD, List.getElem?_eq_getElem hn]
  exact hc

theorem digit_ne {d : Char} (hd : d ∉ alphabet) (n : Nat) (hn : n < 64) : digit n ≠ d := by
  rintro rfl
  apply hd
  rw [digit, List.getD_eq_getElem?_getD, List.getElem?_eq_getElem (show n < alphabet.length from hn)]
  exact List.getElem_mem _

variable {bytes : List UInt8} {text : List Char}

@[simp] theorem decode_encode (bytes : List UInt8) : decode (encode bytes) = some bytes := by
  induction bytes using encode.induct with
  | case1 => rfl
  | case2 a =>
    have ha := a.toNat_lt
    rw [encode, decode, value_digit _ (by omega), value_digit _ (by omega)]
    have hbits : a.toNat % 4 * 16 % 16 = 0 := by omega
    have hbyte : a.toNat / 4 * 4 + a.toNat % 4 * 16 / 16 = a.toNat := by omega
    simp only [Option.bind_eq_bind, Option.bind_some, hbits, if_true, hbyte, UInt8.ofNat_toNat]
  | case3 a b =>
    have ha := a.toNat_lt
    have hb := b.toNat_lt
    rw [encode, decode, value_digit _ (by omega), value_digit _ (by omega), value_digit _ (by omega)]
    have hbits : b.toNat % 16 * 4 % 4 = 0 := by omega
    have hfirst : a.toNat / 4 * 4 + (a.toNat % 4 * 16 + b.toNat / 16) / 16 = a.toNat := by omega
    have hsecond : (a.toNat % 4 * 16 + b.toNat / 16) % 16 * 16 + b.toNat % 16 * 4 / 4 = b.toNat := by omega
    simp only [Option.bind_eq_bind, Option.bind_some, hbits, if_true, hfirst, hsecond, UInt8.ofNat_toNat]
  | case4 a b c rest ih =>
    have ha := a.toNat_lt
    have hb := b.toNat_lt
    have hc := c.toNat_lt
    rw [encode, decode, value_digit _ (by omega), value_digit _ (by omega), value_digit _ (by omega),
      value_digit _ (by omega), ih]
    have hfirst : a.toNat / 4 * 4 + (a.toNat % 4 * 16 + b.toNat / 16) / 16 = a.toNat := by omega
    have hsecond : (a.toNat % 4 * 16 + b.toNat / 16) % 16 * 16 + (b.toNat % 16 * 4 + c.toNat / 64) / 4 = b.toNat := by
      omega
    have hthird : (b.toNat % 16 * 4 + c.toNat / 64) % 4 * 64 + c.toNat % 64 = c.toNat := by omega
    simp only [Option.bind_eq_bind, Option.bind_some, Option.pure_def, hfirst, hsecond, hthird, UInt8.ofNat_toNat]

theorem encode_of_decode (h : decode text = some bytes) : encode bytes = text := by
  induction text using decode.induct generalizing bytes with
  | case1 =>
    cases h
    rfl
  | case2 => cases h
  | case3 p q =>
    simp only [decode, Option.bind_eq_bind, Option.bind_eq_some_iff, Option.ite_none_right_eq_some, Option.some_inj] at h
    obtain ⟨i, hi, j, hj, hbits, rfl⟩ := h
    obtain ⟨hi, rfl⟩ := value_eq_some hi
    obtain ⟨hj, rfl⟩ := value_eq_some hj
    rw [encode, UInt8.toNat_ofNat_of_lt' (show i * 4 + j / 16 < 2 ^ 8 by omega)]
    have h₁ : (i * 4 + j / 16) / 4 = i := by omega
    have h₂ : (i * 4 + j / 16) % 4 * 16 = j := by omega
    rw [h₁, h₂]
  | case4 p q r =>
    simp only [decode, Option.bind_eq_bind, Option.bind_eq_some_iff, Option.ite_none_right_eq_some, Option.some_inj] at h
    obtain ⟨i, hi, j, hj, k, hk, hbits, rfl⟩ := h
    obtain ⟨hi, rfl⟩ := value_eq_some hi
    obtain ⟨hj, rfl⟩ := value_eq_some hj
    obtain ⟨hk, rfl⟩ := value_eq_some hk
    rw [encode, UInt8.toNat_ofNat_of_lt' (show i * 4 + j / 16 < 2 ^ 8 by omega),
      UInt8.toNat_ofNat_of_lt' (show j % 16 * 16 + k / 4 < 2 ^ 8 by omega)]
    have h₁ : (i * 4 + j / 16) / 4 = i := by omega
    have h₂ : (i * 4 + j / 16) % 4 * 16 + (j % 16 * 16 + k / 4) / 16 = j := by omega
    have h₃ : (j % 16 * 16 + k / 4) % 16 * 4 = k := by omega
    rw [h₁, h₂, h₃]
  | case5 p q r s rest ih =>
    simp only [decode, Option.bind_eq_bind, Option.bind_eq_some_iff, Option.pure_def, Option.some_inj] at h
    obtain ⟨i, hi, j, hj, k, hk, l, hl, more, hmore, rfl⟩ := h
    obtain ⟨hi, rfl⟩ := value_eq_some hi
    obtain ⟨hj, rfl⟩ := value_eq_some hj
    obtain ⟨hk, rfl⟩ := value_eq_some hk
    obtain ⟨hl, rfl⟩ := value_eq_some hl
    rw [encode, ih hmore, UInt8.toNat_ofNat_of_lt' (show i * 4 + j / 16 < 2 ^ 8 by omega),
      UInt8.toNat_ofNat_of_lt' (show j % 16 * 16 + k / 4 < 2 ^ 8 by omega),
      UInt8.toNat_ofNat_of_lt' (show k % 4 * 64 + l < 2 ^ 8 by omega)]
    have h₁ : (i * 4 + j / 16) / 4 = i := by omega
    have h₂ : (i * 4 + j / 16) % 4 * 16 + (j % 16 * 16 + k / 4) / 16 = j := by omega
    have h₃ : (j % 16 * 16 + k / 4) % 16 * 4 + (k % 4 * 64 + l) / 64 = k := by omega
    have h₄ : (k % 4 * 64 + l) % 64 = l := by omega
    rw [h₁, h₂, h₃, h₄]

/-- **A text stands for the bytes if and only if it is how they are written.** -/
theorem decode_eq_some : decode text = some bytes ↔ text = encode bytes :=
  ⟨fun h => (encode_of_decode h).symm, fun h => by rw [h, decode_encode]⟩

/-- What is written has no other characters in it. -/
theorem notMem_encode {d : Char} (hd : d ∉ alphabet) (bytes : List UInt8) : d ∉ encode bytes := by
  induction bytes using encode.induct with
  | case1 => exact List.not_mem_nil
  | case2 a =>
    have ha := a.toNat_lt
    simp only [encode, List.mem_cons, List.not_mem_nil, or_false, not_or]
    exact ⟨(digit_ne hd _ (by omega)).symm, (digit_ne hd _ (by omega)).symm⟩
  | case3 a b =>
    have ha := a.toNat_lt
    have hb := b.toNat_lt
    simp only [encode, List.mem_cons, List.not_mem_nil, or_false, not_or]
    exact ⟨(digit_ne hd _ (by omega)).symm, (digit_ne hd _ (by omega)).symm, (digit_ne hd _ (by omega)).symm⟩
  | case4 a b c rest ih =>
    have ha := a.toNat_lt
    have hb := b.toNat_lt
    have hc := c.toNat_lt
    simp only [encode, List.mem_cons, not_or]
    exact ⟨(digit_ne hd _ (by omega)).symm, (digit_ne hd _ (by omega)).symm, (digit_ne hd _ (by omega)).symm,
      (digit_ne hd _ (by omega)).symm, ih⟩

end Base64

namespace Hex

/-- The value of a digit, in either case. -/
def value (c : Char) : Option Nat :=
  if '0' ≤ c ∧ c ≤ '9' then some (c.toNat - 48)
  else if 'a' ≤ c ∧ c ≤ 'f' then some (c.toNat - 87)
  else if 'A' ≤ c ∧ c ≤ 'F' then some (c.toNat - 55)
  else none

/-- `hex::decode`, any error being `none`. -/
def decode : List Char → Option (List UInt8)
  | [] => some []
  | [_] => none
  | h :: l :: rest => do
    let h ← value h
    let l ← value l
    let bytes ← decode rest
    return .ofNat (16 * h + l) :: bytes

theorem value_lt {c : Char} {n : Nat} (h : value c = some n) : n < 16 := by
  simp only [value, Char.le_def, UInt32.le_iff_toNat_le] at h
  have hnat : c.toNat = c.val.toNat := rfl
  have h0 : ('0' : Char).val.toNat = 48 := rfl
  have h9 : ('9' : Char).val.toNat = 57 := rfl
  have ha : ('a' : Char).val.toNat = 97 := rfl
  have hf : ('f' : Char).val.toNat = 102 := rfl
  have hA : ('A' : Char).val.toNat = 65 := rfl
  have hF : ('F' : Char).val.toNat = 70 := rfl
  split at h
  · cases h
    omega
  · split at h
    · cases h
      omega
    · split at h
      · cases h
        omega
      · cases h

/-- Two digits for each byte. -/
theorem decode_eq_some {text : List Char} {bytes : List UInt8} :
    decode text = some bytes ↔
      text.map value = (bytes.flatMap fun b => [b.toNat / 16, b.toNat % 16]).map some := by
  induction text using decode.induct generalizing bytes with
  | case1 =>
    cases bytes with
    | nil => simp [decode]
    | cons b bytes => simp [decode]
  | case2 c =>
    cases bytes with
    | nil => simp [decode]
    | cons b bytes => simp [decode]
  | case3 h l rest ih =>
    cases bytes with
    | nil => simp [decode, Option.bind_eq_some_iff]
    | cons b bytes =>
      have hb := b.toNat_lt
      simp only [decode, Option.bind_eq_bind, Option.bind_eq_some_iff, Option.pure_def, Option.some_inj, List.map_cons,
        List.flatMap_cons, List.cons_append, List.nil_append, List.cons.injEq, ← ih]
      constructor
      · rintro ⟨i, hi, j, hj, more, hmore, rfl, rfl⟩
        have hi16 := value_lt hi
        have hj16 := value_lt hj
        rw [hi, hj, UInt8.toNat_ofNat_of_lt' (show 16 * i + j < 2 ^ 8 by omega)]
        exact ⟨congrArg some (by omega), congrArg some (by omega), hmore⟩
      · rintro ⟨hi, hj, hmore⟩
        refine ⟨_, hi, _, hj, _, hmore, ?_, rfl⟩
        rw [Nat.div_add_mod]
        exact UInt8.ofNat_toNat

end Hex
