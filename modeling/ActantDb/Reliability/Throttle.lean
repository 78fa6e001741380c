import Mathlib.Algebra.Order.Field.Rat
import Mathlib.Algebra.Order.Floor.Ring
import Mathlib.Data.Rat.Floor
import Mathlib.Tactic.Linarith

/-!
# The token bucket

A bucket is refilled when it is asked, by what has run in since the last call and up to its limit. The source keeps tokens and seconds in doubles; here they are rationals.

What is granted from one instant to another is at most what the bucket holds at the first of them and what runs in until the other (`granted_le`). The wait that a refusal names is the time that the deficit takes to run in, at the refill rate or at a thousandth of a token in a second, whichever is more; below that rate it is too short.
-/

namespace ActantDb

namespace Throttle

structure Policy where
  limit : UInt32
  refillPerSecond : ℚ
deriving DecidableEq

structure Bucket where
  policy : Policy
  tokens : ℚ
  -- in seconds
  last : ℚ
deriving DecidableEq

/-- `self.tokens as u32`, which rounds towards zero and saturates. -/
def asU32 (x : ℚ) : Nat := min ⌊x⌋₊ (UInt32.size - 1)

namespace Bucket

def new (policy : Policy) (now : ℚ) : Bucket := ⟨policy, policy.limit.toNat, now⟩

def refill (b : Bucket) (now : ℚ) : Bucket :=
  let elapsed := max 0 (now - b.last)
  { b with tokens := min (b.tokens + elapsed * b.policy.refillPerSecond) b.policy.limit.toNat, last := now }

/-- Whether `n` tokens are granted, with the wait if they are not, and the bucket after the call. -/
def tryConsume (b : Bucket) (now : ℚ) (n : UInt32) : Except ℚ Unit × Bucket :=
  let b := b.refill now
  if n.toNat ≤ asU32 b.tokens then (.ok (), { b with tokens := b.tokens - n.toNat })
  else (.error ((n.toNat - b.tokens) / max b.policy.refillPerSecond (1 / 1000)), b)

end Bucket

structure Call where
  now : ℚ
  n : UInt32

namespace Bucket

/-- The bucket after the calls. -/
def run (b : Bucket) (calls : List Call) : Bucket := calls.foldl (fun b c => (b.tryConsume c.now c.n).2) b

/-- The tokens that a call is granted. -/
def taken (b : Bucket) (c : Call) : Nat := if (b.tryConsume c.now c.n).1.isOk then c.n.toNat else 0

/-- The tokens that the calls are granted, each with its time. -/
def grants (b : Bucket) : List Call → List (ℚ × Nat)
  | [] => []
  | c :: rest =>
    (c.now, b.taken c) :: (b.tryConsume c.now c.n).2.grants rest

/-- The tokens granted from `a` to `z`. -/
def granted (b : Bucket) (calls : List Call) (a z : ℚ) : Nat :=
  (((b.grants calls).filter fun g => a ≤ g.1 ∧ g.1 ≤ z).map (·.2)).sum

/-- The bucket holds something between nothing and its limit. -/
structure Filled (b : Bucket) : Prop where
  nonneg : 0 ≤ b.tokens
  le_limit : b.tokens ≤ b.policy.limit.toNat

/-- The calls come one after the other, none before `start`. -/
def InTurn (start : ℚ) (calls : List Call) : Prop := (start :: calls.map Call.now).Pairwise (· ≤ ·)

instance (start : ℚ) (calls : List Call) : Decidable (InTurn start calls) := inferInstanceAs (Decidable (List.Pairwise _ _))

/-! ### One call -/

section Step

variable {b : Bucket} {now : ℚ} {n : UInt32}

theorem filled_new (policy : Policy) (now : ℚ) : Filled (new policy now) := ⟨Nat.cast_nonneg _, le_refl _⟩

theorem le_asU32 {x : ℚ} (hx : 0 ≤ x) : n.toNat ≤ asU32 x ↔ (n.toNat : ℚ) ≤ x := by
  have hsize : n.toNat ≤ UInt32.size - 1 := Nat.le_sub_one_of_lt n.toNat_lt
  rw [asU32, le_min_iff, Nat.le_floor_iff hx, and_iff_left hsize]

theorem Filled.refill (h : Filled b) (hrate : 0 ≤ b.policy.refillPerSecond) (now : ℚ) : Filled (b.refill now) := by
  have hinflow : 0 ≤ max 0 (now - b.last) * b.policy.refillPerSecond := mul_nonneg (le_max_left _ _) hrate
  exact ⟨le_min (add_nonneg h.nonneg hinflow) (Nat.cast_nonneg _), min_le_right _ _⟩

/-- What runs in until the call. -/
theorem refill_le (hnow : b.last ≤ now) :
    (b.refill now).tokens ≤ b.tokens + b.policy.refillPerSecond * (now - b.last) := by
  have hle := min_le_left (b.tokens + max 0 (now - b.last) * b.policy.refillPerSecond) b.policy.limit.toNat
  rw [max_eq_right (sub_nonneg.mpr hnow), mul_comm] at hle
  rw [Bucket.refill]
  dsimp only
  rw [max_eq_right (sub_nonneg.mpr hnow), mul_comm]
  exact hle

/-- A call takes what it is granted out of the refilled bucket. -/
theorem tryConsume_cases (h : Filled b) (hrate : 0 ≤ b.policy.refillPerSecond) (now : ℚ) (n : UInt32) :
    ((n.toNat : ℚ) ≤ (b.refill now).tokens ∧
        b.tryConsume now n = (.ok (), { b.refill now with tokens := (b.refill now).tokens - n.toNat })) ∨
      ((b.refill now).tokens < n.toNat ∧
        b.tryConsume now n =
          (.error ((n.toNat - (b.refill now).tokens) / max b.policy.refillPerSecond (1 / 1000)), b.refill now)) := by
  have hholds := (h.refill hrate now).nonneg
  rw [tryConsume]
  dsimp only
  split
  · rename_i hle
    exact Or.inl ⟨(le_asU32 hholds).mp hle, rfl⟩
  · rename_i hle
    exact Or.inr ⟨lt_of_not_ge fun hge => hle ((le_asU32 hholds).mpr hge), rfl⟩

theorem tokens_tryConsume (h : Filled b) (hrate : 0 ≤ b.policy.refillPerSecond) (c : Call) :
    (b.tryConsume c.now c.n).2.tokens + b.taken c = (b.refill c.now).tokens := by
  rw [taken]
  rcases tryConsume_cases h hrate c.now c.n with ⟨-, heq⟩ | ⟨-, heq⟩
  · rw [heq]
    exact sub_add_cancel _ _
  · rw [heq]
    simp [Except.isOk, Except.toBool]

theorem policy_tryConsume (b : Bucket) (now : ℚ) (n : UInt32) : (b.tryConsume now n).2.policy = b.policy := by
  rw [tryConsume]
  split <;> rfl

theorem last_tryConsume (b : Bucket) (now : ℚ) (n : UInt32) : (b.tryConsume now n).2.last = now := by
  rw [tryConsume]
  split <;> rfl

theorem Filled.tryConsume (h : Filled b) (hrate : 0 ≤ b.policy.refillPerSecond) : Filled (b.tryConsume now n).2 := by
  have hrefilled := h.refill hrate now
  rcases tryConsume_cases h hrate now n with ⟨hle, heq⟩ | ⟨-, heq⟩
  · rw [heq]
    exact ⟨sub_nonneg.mpr hle, le_trans (sub_le_self _ (Nat.cast_nonneg _)) hrefilled.le_limit⟩
  · rw [heq]
    exact hrefilled

theorem tryConsume_ok (h : Filled b) (hrate : 0 ≤ b.policy.refillPerSecond) :
    (b.tryConsume now n).1 = .ok () ↔ (n.toNat : ℚ) ≤ (b.refill now).tokens := by
  rcases tryConsume_cases h hrate now n with ⟨hle, heq⟩ | ⟨hlt, heq⟩
  · rw [heq]
    exact iff_of_true rfl hle
  · rw [heq]
    exact iff_of_false (fun hok => by cases hok) (not_le.mpr hlt)

/-- The call again, once the wait is over, which is long enough where it has been computed at the refill rate. -/
theorem retry_iff (h : Filled b) (hrate : 0 ≤ b.policy.refillPerSecond) (hn : n ≤ b.policy.limit) {d : ℚ} {b' : Bucket}
    (hrefused : b.tryConsume now n = (.error d, b')) :
    (b'.tryConsume (now + d) n).1 = .ok () ↔ 1 / 1000 ≤ b.policy.refillPerSecond := by
  have hrefilled := h.refill hrate now
  rcases tryConsume_cases h hrate now n with ⟨-, heq⟩ | ⟨hlt, heq⟩
  · rw [heq] at hrefused
    cases hrefused
  rw [heq, Prod.mk.injEq, Except.error.injEq] at hrefused
  obtain ⟨hd, rfl⟩ := hrefused
  have hpos : 0 < max b.policy.refillPerSecond (1 / 1000) := lt_max_of_lt_right (by norm_num)
  have hdeficit : 0 < n.toNat - (b.refill now).tokens := sub_pos.mpr hlt
  have hwait : 0 ≤ d := hd ▸ div_nonneg (le_of_lt hdeficit) (le_of_lt hpos)
  have hlimit : (n.toNat : ℚ) ≤ b.policy.limit.toNat := Nat.cast_le.mpr (UInt32.le_iff_toNat_le.mp hn)
  have htokens : ((b.refill now).refill (now + d)).tokens =
      min ((b.refill now).tokens + d * b.policy.refillPerSecond) b.policy.limit.toNat := by
    have helapsed : max 0 (now + d - now) = d := by rw [add_sub_cancel_left, max_eq_right hwait]
    show min ((b.refill now).tokens + max 0 (now + d - now) * b.policy.refillPerSecond) _ = _
    rw [helapsed]
    rfl
  rw [tryConsume_ok hrefilled hrate, htokens, le_min_iff, and_iff_left hlimit, ← sub_le_iff_le_add', ← hd,
    div_mul_eq_mul_div, le_div_iff₀ hpos, mul_le_mul_iff_right₀ hdeficit, max_le_iff, and_iff_right (le_refl _)]

end Step

/-! ### Runs of calls -/

section Run

variable {b : Bucket} {calls : List Call} {start a z : ℚ}

theorem InTurn.after {c : Call} (h : InTurn start (c :: calls)) : start ≤ c.now ∧ InTurn c.now calls := by
  obtain ⟨hstart, hcalls⟩ := List.pairwise_cons.mp h
  exact ⟨hstart _ List.mem_cons_self, hcalls⟩

theorem grants_cons (b : Bucket) (c : Call) (calls : List Call) (a z : ℚ) :
    b.granted (c :: calls) a z =
      (if a ≤ c.now ∧ c.now ≤ z then b.taken c else 0) + (b.tryConsume c.now c.n).2.granted calls a z := by
  rw [granted, grants, List.filter_cons]
  by_cases hwithin : a ≤ c.now ∧ c.now ≤ z
  · rw [if_pos (decide_eq_true hwithin), if_pos hwithin, List.map_cons, List.sum_cons, granted]
  · rw [if_neg (by simpa using hwithin), if_neg hwithin, zero_add, granted]

/-- Nothing is granted once the interval is over. -/
theorem granted_eq_zero (hturn : InTurn start calls) (hover : z < start) : b.granted calls a z = 0 := by
  induction calls generalizing b start with
  | nil => rfl
  | cons c calls ih =>
    obtain ⟨hstart, hcalls⟩ := hturn.after
    have hlate : z < c.now := lt_of_lt_of_le hover hstart
    rw [grants_cons, if_neg fun h => absurd h.2 (not_le.mpr hlate), zero_add]
    exact ih hcalls hlate

/-- What is granted up to `z` is at most what the bucket holds now and what runs in until then. -/
theorem granted_le_tokens (h : Filled b) (hrate : 0 ≤ b.policy.refillPerSecond) (hturn : InTurn b.last calls)
    (hz : b.last ≤ z) : (b.granted calls a z : ℚ) ≤ b.tokens + b.policy.refillPerSecond * (z - b.last) := by
  induction calls generalizing b with
  | nil => exact add_nonneg h.nonneg (mul_nonneg hrate (sub_nonneg.mpr hz))
  | cons c calls ih =>
    obtain ⟨hstart, hcalls⟩ := hturn.after
    by_cases hnow : c.now ≤ z
    · have hpolicy := policy_tryConsume b c.now c.n
      have hlast := last_tryConsume b c.now c.n
      have hrest := ih (h.tryConsume hrate) (hpolicy ▸ hrate) (by rwa [hlast]) (by rwa [hlast])
      rw [hpolicy, hlast] at hrest
      have htokens := tokens_tryConsume h hrate c
      have hrefill := refill_le hstart
      have htaken : ((if a ≤ c.now ∧ c.now ≤ z then b.taken c else 0 : Nat) : ℚ) ≤ b.taken c := by
        split
        · exact le_refl _
        · exact Nat.cast_nonneg _
      rw [grants_cons, Nat.cast_add]
      linarith
    · have hlate : z < c.now := not_le.mp hnow
      rw [grants_cons, if_neg fun hwithin => hnow hwithin.2, granted_eq_zero hcalls hlate]
      exact add_nonneg h.nonneg (mul_nonneg hrate (sub_nonneg.mpr hz))

/-- From `a` to `z` the limit is granted at most, and what runs in. -/
theorem granted_le (h : Filled b) (hrate : 0 ≤ b.policy.refillPerSecond) (hturn : InTurn start calls) (haz : a ≤ z) :
    (b.granted calls a z : ℚ) ≤ b.policy.limit.toNat + b.policy.refillPerSecond * (z - a) := by
  induction calls generalizing b start with
  | nil => exact add_nonneg (Nat.cast_nonneg _) (mul_nonneg hrate (sub_nonneg.mpr haz))
  | cons c calls ih =>
    obtain ⟨-, hcalls⟩ := hturn.after
    have hpolicy := policy_tryConsume b c.now c.n
    by_cases hwithin : a ≤ c.now ∧ c.now ≤ z
    · -- the first call of the interval: it finds no more than the limit
      have hlast := last_tryConsume b c.now c.n
      have hrest : ((b.tryConsume c.now c.n).2.granted calls a z : ℚ) ≤ _ :=
        granted_le_tokens (h.tryConsume hrate) (hpolicy ▸ hrate) (by rwa [hlast]) (by rw [hlast]; exact hwithin.2)
      rw [hpolicy, hlast] at hrest
      have htokens := tokens_tryConsume h hrate c
      have hlimit := (h.refill hrate c.now).le_limit
      have hinflow : b.policy.refillPerSecond * (z - c.now) ≤ b.policy.refillPerSecond * (z - a) :=
        mul_le_mul_of_nonneg_left (sub_le_sub_left hwithin.1 z) hrate
      have hsame : (b.refill c.now).policy = b.policy := rfl
      rw [hsame] at hlimit
      rw [grants_cons, if_pos hwithin, Nat.cast_add]
      linarith
    · have hrest := ih (h.tryConsume hrate) (hpolicy ▸ hrate) hcalls
      rw [hpolicy] at hrest
      rw [grants_cons, if_neg hwithin, zero_add]
      exact hrest

theorem policy_run (b : Bucket) (calls : List Call) : (b.run calls).policy = b.policy := by
  induction calls generalizing b with
  | nil => rfl
  | cons c calls ih => exact (ih _).trans (policy_tryConsume b c.now c.n)

theorem filled_run (h : Filled b) (hrate : 0 ≤ b.policy.refillPerSecond) : Filled (b.run calls) := by
  induction calls generalizing b with
  | nil => exact h
  | cons c calls ih => exact ih (h.tryConsume hrate) ((policy_tryConsume b c.now c.n).symm ▸ hrate)

end Run

/-- **A token bucket keeps to its rate**: no interval is granted more than the limit and what runs in meanwhile, the bucket holds something between nothing and its limit, and a refused call for no more than the limit succeeds after the wait it has been told when, and only when, the bucket is refilled with a thousandth of a token a second at least. -/
theorem bucket_bounded (policy : Policy) (start : ℚ) (calls : List Call) (hrate : 0 ≤ policy.refillPerSecond)
    (hturn : InTurn start calls) :
    (∀ a T, 0 ≤ T →
        ((new policy start).granted calls a (a + T) : ℚ) ≤ policy.limit.toNat + policy.refillPerSecond * T) ∧
      (∀ pre post, calls = pre ++ post → Filled ((new policy start).run pre)) ∧
        ∀ pre c post, calls = pre ++ c :: post → c.n ≤ policy.limit → ∀ d b',
          ((new policy start).run pre).tryConsume c.now c.n = (.error d, b') →
            ((b'.tryConsume (c.now + d) c.n).1 = .ok () ↔ 1 / 1000 ≤ policy.refillPerSecond) := by
  have hnew := filled_new policy start
  refine ⟨fun a T hT => ?_, fun pre post _ => filled_run hnew hrate, fun pre c post _ hn d b' hrefused => ?_⟩
  · have hle : ((new policy start).granted calls a (a + T) : ℚ) ≤ _ :=
      granted_le hnew hrate hturn (le_add_of_nonneg_right hT)
    rwa [add_sub_cancel_left] at hle
  · have hpolicy : ((new policy start).run pre).policy = policy := policy_run _ pre
    have hretry := retry_iff (filled_run hnew hrate) (by rw [hpolicy]; exact hrate) (by rw [hpolicy]; exact hn) hrefused
    rwa [hpolicy] at hretry

/-- Three tokens, one a second. -/
def Policy.sample : Policy := ⟨3, 1⟩

/-- A burst until the bucket is drained, and one call later on. -/
def burst : List Call := [⟨0, 1⟩, ⟨0, 1⟩, ⟨0, 1⟩, ⟨0, 1⟩, ⟨5 / 2, 2⟩]

theorem bucket_bounded_burst :
    (∀ a T, 0 ≤ T →
        ((new Policy.sample 0).granted burst a (a + T) : ℚ) ≤
          Policy.sample.limit.toNat + Policy.sample.refillPerSecond * T) ∧
      (∀ pre post, burst = pre ++ post → Filled ((new Policy.sample 0).run pre)) ∧
        ∀ pre c post, burst = pre ++ c :: post → c.n ≤ Policy.sample.limit → ∀ d b',
          ((new Policy.sample 0).run pre).tryConsume c.now c.n = (.error d, b') →
            ((b'.tryConsume (c.now + d) c.n).1 = .ok () ↔ 1 / 1000 ≤ Policy.sample.refillPerSecond) :=
  bucket_bounded Policy.sample 0 burst (by decide) (by decide +kernel)

/-- A bucket with one token that is not refilled. -/
def Policy.once : Policy := ⟨1, 0⟩

/-- The second of two calls is told to wait for a thousand seconds, and refused again after them. -/
theorem refused_after_wait :
    ((new Policy.once 0).run [⟨0, 1⟩]).tryConsume 0 1 = (.error 1000, ⟨Policy.once, 0, 0⟩) ∧
      (tryConsume ⟨Policy.once, 0, 0⟩ (0 + 1000) 1).1 ≠ .ok () := by
  decide +kernel

end Bucket

end Throttle

end ActantDb
