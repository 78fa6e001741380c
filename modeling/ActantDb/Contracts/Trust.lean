import Mathlib.Algebra.Order.Ring.Rat
import Mathlib.Data.Rat.Cast.Order
import Mathlib.Data.UInt
import ActantDb.Lib.Mean

/-!
# The trust profile

A profile is updated with each observation: its score is the running mean of the outcomes over a prior of two observations of mean one half, and its confidence grows with the sample size. The scores are taken as exact rationals. The sample size is a `u64` and wraps, so the closed form is one of fewer than `2 ^ 64` observations.
-/

namespace ActantDb.Contracts

def TRUST_PRIOR_COUNT : ℚ := 2

structure ActantTrustProfile where
  area : String
  score : ℚ
  confidence : ℚ
  sampleSize : UInt64
  deriving DecidableEq

namespace ActantTrustProfile

/-- Cold start. -/
def new (area : String) : ActantTrustProfile where
  area := area
  score := 1 / 2
  confidence := 0
  sampleSize := 0

def outcome (success : Bool) : ℚ := if success then 1 else 0

def observe (p : ActantTrustProfile) (success : Bool) : ActantTrustProfile :=
  let n : ℚ := p.sampleSize.toNat
  let sampleSize := p.sampleSize + 1
  let effectiveSampleSize : ℚ := sampleSize.toNat + TRUST_PRIOR_COUNT
  { p with
    score := (p.score * (n + TRUST_PRIOR_COUNT) + outcome success) / (n + TRUST_PRIOR_COUNT + 1)
    sampleSize := sampleSize
    confidence := effectiveSampleSize / (effectiveSampleSize + 10) }

def autoApproveAt (p : ActantTrustProfile) (minScore minConfidence : ℚ) : Bool :=
  minScore ≤ p.score && minConfidence ≤ p.confidence

/-- A profile after these observations. -/
def observed (area : String) (successes : List Bool) : ActantTrustProfile :=
  successes.foldl observe (new area)

variable (area : String)

theorem observed_concat (l : List Bool) (b : Bool) : observed area (l ++ [b]) = (observed area l).observe b := by
  rw [observed, List.foldl_append, List.foldl_cons, List.foldl_nil, observed]

/-! ### The sample size -/

theorem area_observed (l : List Bool) : (observed area l).area = area := by
  induction l using List.reverseRecOn with
  | nil => rfl
  | append_singleton l b ih =>
    rw [observed_concat]
    exact ih

theorem sampleSize_observed (l : List Bool) : (observed area l).sampleSize = UInt64.ofNat l.length := by
  induction l using List.reverseRecOn with
  | nil => rfl
  | append_singleton l b ih =>
    rw [observed_concat, List.length_append, List.length_singleton, UInt64.ofNat_add, ← ih]
    rfl

theorem toNat_sampleSize {l : List Bool} (h : l.length < 2 ^ 64) : (observed area l).sampleSize.toNat = l.length := by
  rw [sampleSize_observed, UInt64.toNat_ofNat_of_lt' h]

/-! ### The score -/

/-- What the score is the mean of. -/
def asMean (p : ActantTrustProfile) : RunningMean.Mean ℚ := ⟨p.score, p.sampleSize.toNat⟩

/-- **An observation is a step of the running mean** as long as the sample size does not wrap. -/
theorem asMean_observed {l : List Bool} (h : l.length < 2 ^ 64) :
    (observed area l).asMean = (l.map outcome).foldl (RunningMean.step TRUST_PRIOR_COUNT) ⟨1 / 2, 0⟩ := by
  induction l using List.reverseRecOn with
  | nil => rfl
  | append_singleton l b ih =>
    have hlength : (l ++ [b]).length = l.length + 1 := by simp
    have hsize := toNat_sampleSize area h
    rw [List.map_append, List.foldl_append, ← ih (by omega), asMean, hsize, hlength, observed_concat]
    have hbefore := toNat_sampleSize area (l := l) (by omega)
    simp only [observe, asMean, hbefore, List.map_cons, List.map_nil, List.foldl_cons, List.foldl_nil, RunningMean.step]

theorem sum_outcome (l : List Bool) : (l.map outcome).sum = l.count true := by
  induction l with
  | nil => rfl
  | cons b l ih => cases b <;> simp [outcome, ih, add_comm]

theorem score_observed {l : List Bool} (h : l.length < 2 ^ 64) :
    (observed area l).score = (1 + l.count true) / (l.length + 2) := by
  have hprior : (0 : ℚ) < TRUST_PRIOR_COUNT := by norm_num [TRUST_PRIOR_COUNT]
  have hmean := RunningMean.foldl_step hprior ⟨1 / 2, 0⟩ (l.map outcome)
  rw [← asMean_observed area h, sum_outcome, List.length_map] at hmean
  have hscore : (observed area l).score = (observed area l).asMean.mean := rfl
  rw [hscore, hmean]
  norm_num [TRUST_PRIOR_COUNT]

theorem score_pos {l : List Bool} (h : l.length < 2 ^ 64) : 0 < (observed area l).score := by
  rw [score_observed area h]
  positivity

theorem score_lt_one {l : List Bool} (h : l.length < 2 ^ 64) : (observed area l).score < 1 := by
  have hcount : (l.count true : ℚ) ≤ l.length := by exact_mod_cast List.count_le_length
  rw [score_observed area h, div_lt_one (by positivity)]
  linarith

/-! ### The confidence -/

/-- The confidence of so many observations. -/
def confidenceOf (n : ℕ) : ℚ := if n = 0 then 0 else ((n : ℚ) + 2) / (n + 12)

theorem confidence_observe (p : ActantTrustProfile) (b : Bool) :
    (p.observe b).confidence = ((p.sampleSize + 1).toNat + 2 : ℚ) / ((p.sampleSize + 1).toNat + 12) := by
  simp only [observe, TRUST_PRIOR_COUNT]
  congr 1
  ring

theorem confidence_observed {l : List Bool} (h : l.length < 2 ^ 64) :
    (observed area l).confidence = confidenceOf l.length := by
  cases l using List.reverseRecOn with
  | nil => rfl
  | append_singleton l b =>
    have hsize : ((observed area l).observe b).sampleSize.toNat = (l ++ [b]).length := by
      rw [← observed_concat, toNat_sampleSize area h]
    have hsucc : ((observed area l).sampleSize + 1).toNat = (l ++ [b]).length := hsize
    rw [observed_concat, confidence_observe, hsucc, confidenceOf, if_neg (by simp)]

theorem confidenceOf_mono : Monotone confidenceOf := by
  intro m n hmn
  rcases Nat.eq_zero_or_pos m with rfl | hm
  · simp only [confidenceOf, if_true]
    split
    · exact le_rfl
    · positivity
  · have hle : (m : ℚ) ≤ n := by exact_mod_cast hmn
    rw [confidenceOf, confidenceOf, if_neg (by omega), if_neg (by omega), div_le_div_iff₀ (by positivity) (by positivity)]
    nlinarith

/-- A success takes no approval away. -/
theorem autoApproveAt_success {l : List Bool} (h : l.length + 1 < 2 ^ 64) {minScore minConfidence : ℚ}
    (happroved : (observed area l).autoApproveAt minScore minConfidence = true) :
    (observed area (l ++ [true])).autoApproveAt minScore minConfidence = true := by
  have hlength : (l ++ [true]).length = l.length + 1 := by simp
  have hcount : (l.count true : ℚ) ≤ l.length := by exact_mod_cast List.count_le_length
  have hscore : (observed area l).score ≤ (observed area (l ++ [true])).score := by
    rw [score_observed area (by omega), score_observed area (by omega), hlength, List.count_append, List.count_singleton_self,
      div_le_div_iff₀ (by positivity) (by positivity)]
    push_cast
    nlinarith
  have hconfidence : (observed area l).confidence ≤ (observed area (l ++ [true])).confidence := by
    rw [confidence_observed area (by omega), confidence_observed area (by omega)]
    exact confidenceOf_mono (by omega)
  simp only [autoApproveAt, Bool.and_eq_true, decide_eq_true_eq] at happroved ⊢
  exact ⟨happroved.1.trans hscore, happroved.2.trans hconfidence⟩

/-- A profile is determined by how many observations there were and how many of them were successes. -/
theorem observed_eq {l l' : List Bool} (h : l.length < 2 ^ 64) (hperm : l'.Perm l) : observed area l' = observed area l := by
  have h' : l'.length < 2 ^ 64 := hperm.length_eq.trans_lt h
  have hscore : (observed area l').score = (observed area l).score := by
    rw [score_observed area h', score_observed area h, hperm.length_eq, hperm.count_eq]
  have hconfidence : (observed area l').confidence = (observed area l).confidence := by
    rw [confidence_observed area h', confidence_observed area h, hperm.length_eq]
  have hsize : (observed area l').sampleSize = (observed area l).sampleSize := by
    rw [sampleSize_observed, sampleSize_observed, hperm.length_eq]
  cases hp' : observed area l'
  cases hp : observed area l
  have harea' := area_observed area l'
  have harea := area_observed area l
  simp_all

/-- **Trust is a function of the counts.** After fewer than `2 ^ 64` observations the score is the rule of succession, lies strictly between zero and one and is the same for every order of the observations; and the confidence has not decreased since any earlier moment. -/
theorem score_and_confidence (successes : List Bool) (h : successes.length < 2 ^ 64) :
    (observed area successes).score = (1 + successes.count true) / (successes.length + 2)
      ∧ 0 < (observed area successes).score ∧ (observed area successes).score < 1
      ∧ (∀ reordered : List Bool, reordered.Perm successes → observed area reordered = observed area successes)
      ∧ ∀ earlier : List Bool, earlier <+: successes → (observed area earlier).confidence ≤ (observed area successes).confidence := by
  refine ⟨score_observed area h, score_pos area h, score_lt_one area h, fun l' hperm => observed_eq area h hperm, ?_⟩
  intro earlier hbegins
  have hle := hbegins.length_le
  rw [confidence_observed area (hle.trans_lt h), confidence_observed area h]
  exact confidenceOf_mono hle

theorem score_and_confidence_three : (observed "tool:file.read" [true, false, true]).score = 3 / 5 := by
  have h := (score_and_confidence "tool:file.read" [true, false, true] (by decide)).1
  rw [h]
  norm_num

/-- At the `2 ^ 64`-th observation the sample size is back at zero and the confidence falls to a sixth. -/
theorem confidence_falls_at_wrap :
    ¬ ∀ (successes : List Bool) (success : Bool),
      (observed "tool:file.read" successes).confidence ≤ (observed "tool:file.read" (successes ++ [success])).confidence := by
  intro h
  have hle := h (List.replicate (2 ^ 64 - 1) true) true
  have hlast : (observed "tool:file.read" (List.replicate (2 ^ 64 - 1) true)).sampleSize + 1 = 0 := by
    rw [sampleSize_observed, List.length_replicate]
    decide
  rw [observed_concat, confidence_observe, hlast, confidence_observed _ (by rw [List.length_replicate]; decide),
    List.length_replicate, confidenceOf, if_neg (by decide)] at hle
  norm_num at hle

end ActantTrustProfile

end ActantDb.Contracts
