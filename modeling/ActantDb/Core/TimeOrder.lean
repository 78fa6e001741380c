import ActantDb.Core.Calendar
import ActantDb.Lib.Digits
import Mathlib.Data.List.Infix
import Mathlib.Data.List.TakeWhile
import Mathlib.Data.String.Basic

/-!
# The order of timestamps

The texts of two instants are compared character by character. Up to the whole second the fields have a fixed width, and the texts are in the order of the seconds. Within a second the digits of the two fractions are compared, and where one fraction ends the `Z` is compared with a digit or with the decimal point. `Z` is greater than both, so the texts are in the order of the instants but for two whose fractions extend one another (`text_lt_iff`).
-/

namespace ActantDb

open OffsetDateTime

/-! ### Digits -/

namespace OffsetDateTime

theorem digits_eq_map (width n : Nat) : digits width n = (Digits.digits 10 n width).map fun d => Char.ofNat (48 + d) := by
  induction width generalizing n with
  | zero => rfl
  | succ width ih => rw [digits, Digits.digits, List.map_append, ih]; rfl

@[simp] theorem length_digits (width n : Nat) : (digits width n).length = width := by
  rw [digits_eq_map, List.length_map, Digits.length_digits]

theorem digit_lt_digit : ∀ a b : Nat, a < 10 → b < 10 → a < b → Char.ofNat (48 + a) < Char.ofNat (48 + b) := by
  have h : ∀ a < 10, ∀ b < 10, a < b → Char.ofNat (48 + a) < Char.ofNat (48 + b) := by decide
  exact fun a b ha hb => h a ha b hb

theorem digits_lt {width m n : Nat} (h : m < n) (hn : n < 10 ^ width) : digits width m < digits width n := by
  rw [digits_eq_map, digits_eq_map]
  refine Digits.map_lt_map digit_lt_digit ?_ ?_ (Digits.digits_lt_digits h hn) (by simp)
  · exact fun d hd => Digits.lt_of_mem_digits (by decide) hd
  · exact fun d hd => Digits.lt_of_mem_digits (by decide) hd

theorem digits_lt_iff {width m n : Nat} (hm : m < 10 ^ width) (hn : n < 10 ^ width) : digits width m < digits width n ↔ m < n := by
  refine ⟨fun h => ?_, fun h => digits_lt h hn⟩
  by_contra hge
  rcases Nat.lt_or_eq_of_le (Nat.le_of_not_lt hge) with hlt | heq
  · exact lt_asymm h (digits_lt hlt hm)
  · exact lt_irrefl _ (heq ▸ h)

theorem digits_inj {width m n : Nat} (hm : m < 10 ^ width) (hn : n < 10 ^ width) (h : digits width m = digits width n) : m = n := by
  have hmn : ¬ m < n := fun hlt => lt_irrefl _ (h ▸ digits_lt hlt hn)
  have hnm : ¬ n < m := fun hlt => lt_irrefl _ (h ▸ digits_lt hlt hm)
  omega

theorem mem_digits {width n : Nat} {c : Char} (h : c ∈ digits width n) : '0' ≤ c ∧ c ≤ '9' := by
  rw [digits_eq_map] at h
  obtain ⟨d, hd, rfl⟩ := List.mem_map.mp h
  have hbound : ∀ d < 10, '0' ≤ Char.ofNat (48 + d) ∧ Char.ofNat (48 + d) ≤ '9' := by decide
  exact hbound d (Digits.lt_of_mem_digits (by decide) hd)

/-- A field decides, or the fields after it. -/
theorem field_lt {width m n : Nat} {u v : List Char} (h : m < n ∨ m = n ∧ u < v) (hn : n < 10 ^ width) :
    digits width m ++ u < digits width n ++ v := by
  rcases h with hlt | ⟨rfl, huv⟩
  · exact Digits.append_lt_append_of_lt (digits_lt hlt hn) (by simp) u v
  · exact List.append_left_lt huv

theorem append_left_lt_iff {u v w : List Char} : u ++ v < u ++ w ↔ v < w := by
  induction u with
  | nil => rfl
  | cons c u ih => simp [ih]

theorem separator_lt {c : Char} {u v : List Char} (h : u < v) : c :: u < c :: v := List.cons_lt_cons_iff.mpr (.inr ⟨rfl, h⟩)

end OffsetDateTime

/-! ### Texts -/

namespace Instant

/-- Nanoseconds since the beginning of the fifth cycle before the epoch, in the year -30. -/
def sinceCycle (t : Instant) : Nat := (t.nanos + 5 * 146097 * dayNanos).toNat

def seconds (t : Instant) : Nat := t.sinceCycle / 10 ^ 9

def fraction (t : Instant) : Nat := t.sinceCycle % 10 ^ 9

/-- In the years of the format, from 0 to 9999. -/
def Renders (t : Instant) : Prop := -62167219200 * 10 ^ 9 ≤ t.nanos

instance (t : Instant) : Decidable t.Renders := inferInstanceAs (Decidable (_ ≤ _))

/-- The text up to the whole second, from the seconds of the cycle. -/
def stamp (seconds : Nat) : List Char :=
  let date := civil (seconds / 86400)
  let time := seconds % 86400
  digits 4 (date.1 - 2000) ++ '-' :: digits 2 date.2.1 ++ '-' :: digits 2 date.2.2 ++ 'T' ::
    digits 2 (time / 3600) ++ ':' :: digits 2 (time / 60 % 60) ++ ':' :: digits 2 (time % 60)

def text (t : Instant) : String := String.ofList (stamp t.seconds ++ subsecond t.fraction ++ ['Z'])

/-- A timestamp of the code is one of these instants. -/
def ofDateTime (t : OffsetDateTime) : Instant where
  nanos := t.nanos
  lower := by omega
  upper := by
    have := t.inRange
    omega

/-- **The text is that of `formatRfc3339`** from the epoch on. -/
theorem text_ofDateTime (t : OffsetDateTime) : (ofDateTime t).text = t.formatRfc3339 := by
  have hsince : (ofDateTime t).sinceCycle = t.nanos + 5 * 146097 * 86400 * 10 ^ 9 := by
    simp only [sinceCycle, ofDateTime, dayNanos]
    omega
  have hseconds : (ofDateTime t).seconds = t.nanos / 10 ^ 9 + 5 * 146097 * 86400 := by
    rw [seconds, hsince]
    omega
  have hfraction : (ofDateTime t).fraction = t.nanos % 10 ^ 9 := by
    rw [fraction, hsince]
    omega
  have hdays : (ofDateTime t).seconds / 86400 = t.nanos / 10 ^ 9 / 86400 + 5 * 146097 := by omega
  have htime : (ofDateTime t).seconds % 86400 = t.nanos / 10 ^ 9 % 86400 := by omega
  simp only [text, stamp, hdays, htime, hfraction, civil_add_cycle, formatRfc3339, Nat.add_sub_cancel]

theorem seconds_le {s t : Instant} (h : s ≤ t) : s.seconds ≤ t.seconds := by
  have := le_iff.mp h
  unfold seconds sinceCycle
  exact Nat.div_le_div_right (by omega)

/-- The order of instants by whole seconds and fractions. -/
theorem lt_iff_seconds {s t : Instant} (hs : s.Renders) :
    s < t ↔ s.seconds < t.seconds ∨ s.seconds = t.seconds ∧ s.fraction < t.fraction := by
  unfold Renders at hs
  rw [lt_iff]
  have hlt : s.nanos < t.nanos ↔ s.sinceCycle < t.sinceCycle := by
    unfold sinceCycle dayNanos
    omega
  rw [hlt]
  unfold seconds fraction
  omega

theorem eq_of_seconds {s t : Instant} (hs : s.Renders) (ht : t.Renders) (hseconds : s.seconds = t.seconds)
    (hfraction : s.fraction = t.fraction) : s = t := by
  unfold Renders at hs ht
  unfold seconds at hseconds
  unfold fraction at hfraction
  have hsince : s.sinceCycle = t.sinceCycle := by omega
  unfold sinceCycle dayNanos at hsince
  ext
  omega

theorem year_bounds {t : Instant} (h : t.Renders) :
    2000 ≤ (civil (t.seconds / 86400)).1 ∧ (civil (t.seconds / 86400)).1 < 12000 := by
  have hupper := t.upper
  unfold Renders at h
  have hfirst : 10957 ≤ t.seconds / 86400 := by
    unfold seconds sinceCycle dayNanos
    omega
  have hlast : t.seconds / 86400 ≤ 3663381 := by
    unfold seconds sinceCycle dayNanos
    omega
  have hlow : (civil 10957).1 = 2000 := by decide
  have hhigh : (civil 3663381).1 = 11999 := by decide
  have hge := civil_year_mono hfirst
  have hle := civil_year_mono hlast
  omega

theorem stamp_lt {s t : Instant} (hs : s.Renders) (ht : t.Renders) (h : s.seconds < t.seconds) :
    stamp s.seconds < stamp t.seconds := by
  have hlow := (year_bounds hs).1
  have hhigh := (year_bounds ht).2
  obtain ⟨-, -, hmonth, -, hday⟩ := civil_eq (t.seconds / 86400)
  have htime : t.seconds % 86400 < 86400 := Nat.mod_lt _ (by decide)
  simp only [stamp, List.append_assoc, List.cons_append]
  rcases Nat.lt_or_eq_of_le (Nat.div_le_div_right (c := 86400) (Nat.le_of_lt h)) with hdays | hdays
  · rcases civil_lt hdays with hyear | ⟨hyear, hmonths | ⟨hmonths, hdates⟩⟩
    · exact field_lt (.inl (by omega)) (by omega)
    · rw [hyear]
      exact field_lt (.inr ⟨rfl, separator_lt (field_lt (.inl hmonths) (by omega))⟩) (by omega)
    · rw [hyear, hmonths]
      exact field_lt (.inr ⟨rfl, separator_lt (field_lt (.inr ⟨rfl, separator_lt (field_lt (.inl hdates) (by omega))⟩) (by omega))⟩)
        (by omega)
  · have hrest : s.seconds % 86400 < t.seconds % 86400 := by omega
    rw [hdays]
    refine List.append_left_lt (separator_lt (List.append_left_lt (separator_lt (List.append_left_lt (separator_lt ?_)))))
    generalize s.seconds % 86400 = x at hrest ⊢
    generalize t.seconds % 86400 = y at hrest htime ⊢
    have hparts : x / 3600 < y / 3600 ∨ x / 3600 = y / 3600
        ∧ (x / 60 % 60 < y / 60 % 60 ∨ x / 60 % 60 = y / 60 % 60 ∧ x % 60 < y % 60) := by omega
    rcases hparts with hhour | ⟨hhour, hminute | ⟨hminute, hsecond⟩⟩
    · exact field_lt (.inl hhour) (by omega)
    · exact field_lt (.inr ⟨hhour, separator_lt (field_lt (.inl hminute) (by omega))⟩) (by omega)
    · exact field_lt (.inr ⟨hhour, separator_lt (field_lt (.inr ⟨hminute, separator_lt (digits_lt hsecond (by omega))⟩) (by omega))⟩)
        (by omega)

theorem length_stamp (seconds : Nat) : (stamp seconds).length = 19 := by
  simp [stamp]

/-! ### Fractions -/

/-- The digits of the fraction, without its trailing zeros. -/
def fractionDigits (t : Instant) : List Char := trimZeros (digits 9 t.fraction)

theorem fraction_lt (t : Instant) : t.fraction < 10 ^ 9 := Nat.mod_lt _ (by decide)

/-- What was trimmed. -/
theorem trimZeros_append (ds : List Char) : ∃ k, ds = trimZeros ds ++ List.replicate k '0' := by
  refine ⟨(ds.reverse.takeWhile (· = '0')).length, ?_⟩
  have hzeros : ds.reverse.takeWhile (· = '0') = List.replicate (ds.reverse.takeWhile (· = '0')).length '0' :=
    List.eq_replicate_of_mem fun c hc => by simpa using List.mem_takeWhile_imp hc
  have hsplit := congrArg List.reverse (List.takeWhile_append_dropWhile (p := (· = '0')) (l := ds.reverse))
  rw [List.reverse_append, List.reverse_reverse, hzeros, List.reverse_replicate] at hsplit
  rw [trimZeros]
  exact hsplit.symm

theorem mem_fractionDigits {t : Instant} {c : Char} (h : c ∈ t.fractionDigits) : '0' ≤ c ∧ c ≤ '9' := by
  obtain ⟨k, hk⟩ := trimZeros_append (digits 9 t.fraction)
  exact mem_digits (hk ▸ List.mem_append_left _ h)

/-- Two fractions as texts: `Z` is greater than what extends the other one. -/
theorem append_z_lt {p q : List Char} (hp : ∀ c ∈ p, c ≤ '9') (hq : ∀ c ∈ q, c ≤ '9') (k l : Nat) :
    p ++ ['Z'] < q ++ ['Z'] ↔
      (p ++ List.replicate k '0' < q ++ List.replicate l '0' ∧ ¬ p <+: q) ∨ (q <+: p ∧ q ≠ p) := by
  induction p generalizing q with
  | nil =>
    cases q with
    | nil => simp
    | cons b q =>
      have hb : ¬ 'Z' < b := fun hlt => absurd (hlt.trans_le (hq b List.mem_cons_self)) (by decide)
      have hne : 'Z' ≠ b := fun heq => absurd (heq ▸ hq b List.mem_cons_self) (by decide)
      simp [List.cons_lt_cons_iff, hb, hne]
  | cons a p ih =>
    cases q with
    | nil =>
      have ha : a < 'Z' := lt_of_le_of_lt (hp a List.mem_cons_self) (by decide)
      simp [List.cons_lt_cons_iff, ha]
    | cons b q =>
      have hrest := ih (fun c hc => hp c (List.mem_cons_of_mem _ hc)) (q := q) (fun c hc => hq c (List.mem_cons_of_mem _ hc))
      simp only [List.cons_append, List.cons_lt_cons_iff, List.cons_prefix_cons, ne_eq, List.cons.injEq, hrest]
      by_cases hab : a = b
      · subst hab
        simp
      · have hba : b ≠ a := fun heq => hab heq.symm
        simp [hab, hba]

theorem fraction_inj {s t : Instant} (h : s.fractionDigits = t.fractionDigits) : s.fraction = t.fraction := by
  obtain ⟨k, hk⟩ := trimZeros_append (digits 9 s.fraction)
  obtain ⟨l, hl⟩ := trimZeros_append (digits 9 t.fraction)
  rw [← fractionDigits] at hk hl
  have hwidth : k = l := by
    have hs := congrArg List.length hk
    have ht := congrArg List.length hl
    rw [h] at hs
    simp only [length_digits, List.length_append, List.length_replicate] at hs ht
    omega
  exact digits_inj s.fraction_lt t.fraction_lt (by rw [hk, hl, h, hwidth])

/-- No numeral is below zero. -/
theorem not_lt_zeros {ds : List Char} (h : ∀ c ∈ ds, '0' ≤ c) : ¬ ds < List.replicate ds.length '0' := by
  induction ds with
  | nil => exact List.not_lt_nil []
  | cons a ds ih =>
    rw [List.length_cons, List.replicate_succ, List.cons_lt_cons_iff]
    rintro (hlt | ⟨-, hrest⟩)
    · exact absurd hlt (not_lt.mpr (h a List.mem_cons_self))
    · exact ih (fun c hc => h c (List.mem_cons_of_mem _ hc)) hrest

/-- A fraction is greater than those it extends. -/
theorem fraction_lt_of_extends {s t : Instant} (hextends : s.fractionDigits <+: t.fractionDigits)
    (hne : s.fractionDigits ≠ t.fractionDigits) : s.fraction < t.fraction := by
  rcases Nat.lt_trichotomy s.fraction t.fraction with hlt | heq | hgt
  · exact hlt
  · exact absurd (by rw [fractionDigits, heq, fractionDigits]) hne
  · exfalso
    obtain ⟨k, hk⟩ := trimZeros_append (digits 9 s.fraction)
    obtain ⟨l, hl⟩ := trimZeros_append (digits 9 t.fraction)
    obtain ⟨r, hr⟩ := hextends
    rw [← fractionDigits] at hk hl
    rw [← hr, List.append_assoc] at hl
    have hlt := digits_lt hgt s.fraction_lt
    have hwidth : (r ++ List.replicate l '0').length = k := by
      have hs := congrArg List.length hk
      have ht := congrArg List.length hl
      simp only [length_digits, List.length_append, List.length_replicate] at hs ht ⊢
      omega
    have hdigits : ∀ c ∈ r ++ List.replicate l '0', '0' ≤ c := fun c hc =>
      (mem_digits (hl ▸ List.mem_append_right _ hc)).1
    rw [hk, hl, append_left_lt_iff] at hlt
    exact not_lt_zeros hdigits (hwidth ▸ hlt)

/-- Within one whole second, and with fractions of which one extends the other. -/
def Clash (s t : Instant) : Prop :=
  s.seconds = t.seconds ∧ s.fractionDigits ≠ t.fractionDigits
    ∧ (s.fractionDigits <+: t.fractionDigits ∨ t.fractionDigits <+: s.fractionDigits)

instance (s t : Instant) : Decidable (Clash s t) := inferInstanceAs (Decidable (_ ∧ _ ∧ _))

theorem Clash.symm {s t : Instant} (h : Clash s t) : Clash t s := ⟨h.1.symm, h.2.1.symm, h.2.2.symm⟩

theorem fractionDigits_ne_nil {t : Instant} (h : t.fraction ≠ 0) : t.fractionDigits ≠ [] := by
  intro hnil
  obtain ⟨k, hk⟩ := trimZeros_append (digits 9 t.fraction)
  rw [← fractionDigits, hnil, List.nil_append] at hk
  have hwidth : k = 9 := by simpa using (congrArg List.length hk).symm
  have hzero : digits 9 0 = List.replicate 9 '0' := by decide
  exact h (digits_inj t.fraction_lt (by decide) (by rw [hk, hwidth, hzero]))

/-- What stands after the whole second. -/
theorem tail_lt {s t : Instant} :
    subsecond s.fraction ++ ['Z'] < subsecond t.fraction ++ ['Z'] ↔ s.fractionDigits ++ ['Z'] < t.fractionDigits ++ ['Z'] := by
  have hform : ∀ u : Instant, subsecond u.fraction = if u.fractionDigits = [] then [] else '.' :: u.fractionDigits := by
    intro u
    unfold subsecond
    by_cases hzero : u.fraction = 0
    · have hnil : u.fractionDigits = [] := by rw [fractionDigits, hzero]; decide
      rw [if_pos hzero, if_pos hnil]
    · rw [if_neg hzero, if_neg (fractionDigits_ne_nil hzero), fractionDigits]
  have hz : ∀ u : Instant, ∀ c ∈ u.fractionDigits, c < 'Z' := fun u c hc => lt_of_le_of_lt (mem_fractionDigits hc).2 (by decide)
  rw [hform s, hform t]
  cases hs : s.fractionDigits with
  | nil =>
    cases ht : t.fractionDigits with
    | nil => simp
    | cons b q =>
      have hb := hz t b (ht ▸ List.mem_cons_self)
      have hdot : ¬ 'Z' < '.' := by decide
      simp [List.cons_lt_cons_iff, hb.not_gt, hb.ne', hdot]
  | cons a p =>
    cases ht : t.fractionDigits with
    | nil =>
      have ha := hz s a (hs ▸ List.mem_cons_self)
      have hdot : '.' < 'Z' := by decide
      simp [List.cons_lt_cons_iff, ha, hdot]
    | cons b q => simp [List.cons_lt_cons_iff]

/-- **The order of the texts.** It is that of the instants, except that two instants that clash are in the other order. -/
theorem text_lt_iff {s t : Instant} (hs : s.Renders) (ht : t.Renders) :
    s.text < t.text ↔ (s < t ∧ ¬ Clash s t) ∨ (t < s ∧ Clash s t) := by
  rw [String.lt_iff_toList_lt, text, text, String.toList_ofList, String.toList_ofList, List.append_assoc, List.append_assoc,
    lt_iff_seconds hs, lt_iff_seconds ht]
  rcases Nat.lt_trichotomy s.seconds t.seconds with hlt | heq | hgt
  · have hclash : ¬ Clash s t := fun h => Nat.ne_of_lt hlt h.1
    have htext := Digits.append_lt_append_of_lt (stamp_lt hs ht hlt) (by rw [length_stamp, length_stamp])
      (subsecond s.fraction ++ ['Z']) (subsecond t.fraction ++ ['Z'])
    simp [htext, hlt, hclash]
  · have hp : ∀ u : Instant, ∀ c ∈ u.fractionDigits, c ≤ '9' := fun u c hc => (mem_fractionDigits hc).2
    obtain ⟨k, hk⟩ := trimZeros_append (digits 9 s.fraction)
    obtain ⟨l, hl⟩ := trimZeros_append (digits 9 t.fraction)
    rw [heq, append_left_lt_iff, tail_lt, append_z_lt (hp s) (hp t) k l]
    rw [← fractionDigits] at hk hl
    rw [← hk, ← hl]
    have hne : s.fraction ≠ t.fraction → s.fractionDigits ≠ t.fractionDigits := fun hne hdigits => hne (fraction_inj hdigits)
    rw [digits_lt_iff s.fraction_lt t.fraction_lt]
    simp only [Clash, heq, lt_irrefl, false_or, true_and]
    constructor
    · rintro (⟨hlt, hextends⟩ | ⟨hextends, hdigits⟩)
      · refine .inl ⟨hlt, fun hclash => ?_⟩
        rcases hclash.2 with hst | hts
        · exact hextends hst
        · exact absurd (fraction_lt_of_extends hts hclash.1.symm) (Nat.not_lt_of_lt hlt)
      · exact .inr ⟨fraction_lt_of_extends hextends hdigits, hdigits.symm, .inr hextends⟩
    · rintro (⟨hlt, hclash⟩ | ⟨hgt, hdigits, hextends⟩)
      · refine .inl ⟨hlt, fun hextends => hclash ⟨hne (Nat.ne_of_lt hlt), .inl hextends⟩⟩
      · rcases hextends with hst | hts
        · exact absurd (fraction_lt_of_extends hst hdigits) (Nat.not_lt_of_lt hgt)
        · exact .inr ⟨hts, hdigits.symm⟩
  · have hclash : ¬ Clash s t := fun h => Nat.ne_of_gt hgt h.1
    have htext := Digits.append_lt_append_of_lt (stamp_lt ht hs hgt) (by rw [length_stamp, length_stamp])
      (subsecond t.fraction ++ ['Z']) (subsecond s.fraction ++ ['Z'])
    have hback : ¬ stamp s.seconds ++ (subsecond s.fraction ++ ['Z']) < stamp t.seconds ++ (subsecond t.fraction ++ ['Z']) :=
      lt_asymm htext
    have hnot : ¬ s.seconds < t.seconds := Nat.not_lt_of_lt hgt
    simp [hback, hnot, hclash, Nat.ne_of_gt hgt]

theorem not_text_lt_iff {s t : Instant} (hs : s.Renders) (ht : t.Renders) :
    ¬ s.text < t.text ↔ (t ≤ s ∧ ¬ Clash s t) ∨ (s ≤ t ∧ Clash s t) := by
  rw [text_lt_iff hs ht]
  simp only [lt_iff, le_iff]
  by_cases hclash : Clash s t <;> simp [hclash]

end Instant
end ActantDb
