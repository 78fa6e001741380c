import ActantDb.Embedders.Sparse
import ActantDb.Subscribe.PredicateParse

/-!
# Texts that contradict each other

Two texts are taken for a contradiction when enough of their words are shared and one of them has the first form of a listed pair, the other the second form and not the first. The first form is the negative one in the lines of `is` and `does`; it is the positive one in those of `always`, `must` and `can`, and a text that has `must not` or `cannot` has `must` or `can` as well, so those two lines never apply.
-/

namespace ActantDb.MemoryStore

open Embedders (Unicode)

/-! ### The program -/

section Program

variable (unicode : Unicode)

def tokens (s : List Char) : Finset (List Char) :=
  (Words.words (fun c => !unicode.isAlphanumeric c) (unicode.toLowercase s)).toFinset

def jaccard (a b : List Char) : F64 :=
  let ta := tokens unicode a
  let tb := tokens unicode b
  if ta = ∅ ∧ tb = ∅ then .ofRatio false 1 1
  else
    let i := (ta ∩ tb).card
    let u := (ta ∪ tb).card
    if u = 0 then .ofRatio false 0 1 else .ofRatio false i u

def contains (s form : List Char) : Bool := decide (form <:+: s)

/-- One text has `p`, and the other has `q` and not `p`. -/
def opposedBy (p q a b : List Char) : Bool :=
  (contains a p && contains b q && !contains b p) || (contains b p && contains a q && !contains a p)

def pairs : List (List Char × List Char) :=
  [("is not".toList, "is ".toList), ("always".toList, "never".toList), ("must".toList, "must not".toList),
    ("can".toList, "cannot".toList), ("does not".toList, "does ".toList)]

def opposingPolarity (a b : List Char) : Bool :=
  let a := unicode.toLowercase a
  let b := unicode.toLowercase b
  pairs.any fun (p, q) => opposedBy p q a b

end Program

/-! ### What the lines mean -/

/-- The listed pairs, each with its negative form first. -/
def polarities : List (List Char × List Char) :=
  [("is not".toList, "is ".toList), ("never".toList, "always".toList), ("must not".toList, "must".toList),
    ("cannot".toList, "can".toList), ("does not".toList, "does ".toList)]

/-- One text has the negative form, the other the positive one and not the negative one. -/
def Contradict (unicode : Unicode) (a b : List Char) : Prop :=
  ∃ form ∈ polarities, opposedBy form.1 form.2 (unicode.toLowercase a) (unicode.toLowercase b) = true

/-- One text says the one and not the other, and the other text the other way round. -/
def Apart (p q a b : List Char) : Prop :=
  (contains a p = true ∧ contains a q = false ∧ contains b p = false ∧ contains b q = true) ∨
    (contains b p = true ∧ contains b q = false ∧ contains a p = false ∧ contains a q = true)

instance (p q a b : List Char) : Decidable (Apart p q a b) := inferInstanceAs (Decidable (_ ∨ _))

/-- One text says both, the other `p` alone. -/
def BothAgainst (p q a b : List Char) : Prop :=
  (contains a p = true ∧ contains a q = true ∧ contains b p = true ∧ contains b q = false) ∨
    (contains b p = true ∧ contains b q = true ∧ contains a p = true ∧ contains a q = false)

/-- `must not` against `must`, or `cannot` against `can`. -/
def Forbidden (a b : List Char) : Prop :=
  opposedBy "must not".toList "must".toList a b = true ∨ opposedBy "cannot".toList "can".toList a b = true

/-- The lines of `is` and `does` oppose the texts, or one says `always` and the other `never`. Or else neither text says both of these against one of them, and the lines of `must` and `can` do not oppose them; or one says both against `never`, and these lines do oppose them. -/
def WellJudged (a b : List Char) : Prop :=
  opposedBy "is not".toList "is ".toList a b = true ∨ opposedBy "does not".toList "does ".toList a b = true ∨
    Apart "always".toList "never".toList a b ∨
    (¬ BothAgainst "always".toList "never".toList a b ∧ ¬ BothAgainst "never".toList "always".toList a b ∧ ¬ Forbidden a b) ∨
    (BothAgainst "never".toList "always".toList a b ∧ Forbidden a b)

section Judgement

variable {unicode : Unicode} {p q s a b : List Char}

theorem contains_trans (h : q <:+: p) (hs : contains s p = true) : contains s q = true :=
  decide_eq_true (h.trans (of_decide_eq_true hs))

theorem opposedBy_comm : opposedBy p q a b = opposedBy p q b a := Bool.or_comm _ _

theorem opposingPolarity_comm : opposingPolarity unicode a b = opposingPolarity unicode b a := by
  simp only [opposingPolarity, opposedBy_comm (a := unicode.toLowercase a)]

theorem contradict_comm : Contradict unicode a b ↔ Contradict unicode b a := by
  simp only [Contradict, opposedBy_comm (a := unicode.toLowercase a)]

theorem jaccard_comm : jaccard unicode a b = jaccard unicode b a := by
  simp only [jaccard, Finset.inter_comm (tokens unicode a), Finset.union_comm (tokens unicode a),
    and_comm (a := tokens unicode a = ∅)]

/-- A pair whose second form has the first in it opposes no texts. -/
theorem not_opposedBy (h : p <:+: q) : opposedBy p q a b = false := by
  have hb : contains b q = true → contains b p = true := contains_trans h
  have ha : contains a q = true → contains a p = true := contains_trans h
  rw [opposedBy]
  grind

theorem opposingPolarity_iff :
    opposingPolarity unicode a b = true ↔
      opposedBy "is not".toList "is ".toList (unicode.toLowercase a) (unicode.toLowercase b) = true ∨
        opposedBy "always".toList "never".toList (unicode.toLowercase a) (unicode.toLowercase b) = true ∨
        opposedBy "does not".toList "does ".toList (unicode.toLowercase a) (unicode.toLowercase b) = true := by
  have hmust : "must".toList <:+: "must not".toList := by decide
  have hcan : "can".toList <:+: "cannot".toList := by decide
  simp only [opposingPolarity, pairs, List.any_cons, List.any_nil, not_opposedBy hmust, not_opposedBy hcan, Bool.false_or,
    Bool.or_false, Bool.or_eq_true]

theorem contradict_iff :
    Contradict unicode a b ↔
      opposedBy "is not".toList "is ".toList (unicode.toLowercase a) (unicode.toLowercase b) = true ∨
        opposedBy "never".toList "always".toList (unicode.toLowercase a) (unicode.toLowercase b) = true ∨
        Forbidden (unicode.toLowercase a) (unicode.toLowercase b) ∨
        opposedBy "does not".toList "does ".toList (unicode.toLowercase a) (unicode.toLowercase b) = true := by
  simp only [Contradict, polarities, Forbidden, List.exists_mem_cons_iff, List.not_mem_nil, false_and, exists_false, or_false,
    or_assoc]

/-- A text that says both forms and one that says one of them is judged by the first form listed. -/
theorem opposedBy_iff :
    opposedBy p q a b = true ↔ Apart p q a b ∨ BothAgainst q p a b := by
  rw [opposedBy, Apart, BothAgainst]
  grind

theorem Apart.comm (h : Apart p q a b) : Apart q p a b := by
  rw [Apart] at h ⊢
  grind

/-- Which of the two forms is left alone against both tells which line finds it. -/
theorem not_bothAgainst (h : BothAgainst p q a b) : ¬ BothAgainst q p a b := by
  rw [BothAgainst] at h ⊢
  grind

/-- How the two judgements differ, line by line. -/
theorem agree_iff {isLine doesLine apart alwaysAlone neverAlone forbidden : Prop} (hone : neverAlone → ¬ alwaysAlone) :
    (isLine ∨ doesLine ∨ apart ∨ (¬ alwaysAlone ∧ ¬ neverAlone ∧ ¬ forbidden) ∨ (neverAlone ∧ forbidden)) ↔
      (isLine ∨ (apart ∨ neverAlone) ∨ doesLine ↔ isLine ∨ (apart ∨ alwaysAlone) ∨ forbidden ∨ doesLine) := by
  tauto

theorem wellJudged_iff :
    WellJudged (unicode.toLowercase a) (unicode.toLowercase b) ↔ (opposingPolarity unicode a b = true ↔ Contradict unicode a b) := by
  have hnever : opposedBy "never".toList "always".toList (unicode.toLowercase a) (unicode.toLowercase b) = true ↔
      Apart "always".toList "never".toList (unicode.toLowercase a) (unicode.toLowercase b) ∨
        BothAgainst "always".toList "never".toList (unicode.toLowercase a) (unicode.toLowercase b) :=
    opposedBy_iff.trans (or_congr ⟨Apart.comm, Apart.comm⟩ Iff.rfl)
  rw [opposingPolarity_iff, contradict_iff, hnever, opposedBy_iff (p := "always".toList)]
  exact agree_iff not_bothAgainst

end Judgement

end ActantDb.MemoryStore
