import ActantDb.Lib.Run
import Mathlib.Data.Nat.Basic

/-!
# The circuit breaker

So many failures in a row trip the breaker; it admits no call for the time it stays open, then half-opens at the next call, and the next outcome closes or re-opens it. The breaker is told outcomes, not whose they are, so a success of a call that was admitted before the trip closes it like any other: then the next call is admitted at once.

A run is the calls of `allow`, and the outcomes of calls that it admitted, which can come late and in any order. As long as no success is reported while the breaker is open, every trip lasts its full time (`open_admits_none`).
-/

namespace ActantDb

namespace Circuit

inductive State where
  | closed
  | open
  | halfOpen
deriving DecidableEq

structure Policy where
  failureThreshold : UInt32
  -- in nanoseconds, as all times here
  openDuration : Nat

structure Breaker where
  policy : Policy
  state : State
  failureCount : UInt32
  openedAt : Option Nat

/-- `failure_count.saturating_add(1)`. -/
def increment (count : UInt32) : UInt32 := if count.toNat + 1 < UInt32.size then count + 1 else count

namespace Breaker

def new (policy : Policy) : Breaker := ⟨policy, .closed, 0, none⟩

def current (b : Breaker) (now : Nat) : Breaker :=
  if b.state = .open ∧ b.openedAt.any (fun t => b.policy.openDuration ≤ now - t) then { b with state := .halfOpen }
  else b

/-- The answer, and the breaker after it. -/
def allow (b : Breaker) (now : Nat) : Bool × Breaker := ((b.current now).state ≠ .open, b.current now)

def onSuccess (b : Breaker) : Breaker := { b with failureCount := 0, state := .closed, openedAt := none }

def onFailure (b : Breaker) (now : Nat) : Breaker :=
  let b := { b with failureCount := increment b.failureCount }
  if b.policy.failureThreshold ≤ b.failureCount then { b with state := .open, openedAt := some now } else b

end Breaker

/-! ### Runs -/

/-- A breaker in use. -/
structure Calls where
  breaker : Breaker
  clock : Nat
  /-- How many calls have been admitted and not yet reported on. -/
  inFlight : Nat

inductive Label where
  | tick (nanos : Nat)
  | allow
  | onSuccess
  | onFailure
deriving DecidableEq

namespace Calls

def start (policy : Policy) (clock : Nat) : Calls := ⟨.new policy, clock, 0⟩

/-- An outcome is reported of an admitted call. -/
def step (s : Calls) : Label → Calls
  | .tick nanos => { s with clock := s.clock + nanos }
  | .allow =>
    let (admitted, b) := s.breaker.allow s.clock
    { s with breaker := b, inFlight := if admitted then s.inFlight + 1 else s.inFlight }
  | .onSuccess =>
    if s.inFlight = 0 then s else { s with breaker := s.breaker.onSuccess, inFlight := s.inFlight - 1 }
  | .onFailure =>
    if s.inFlight = 0 then s else { s with breaker := s.breaker.onFailure s.clock, inFlight := s.inFlight - 1 }

/-- What `allow` would answer. -/
def admits (s : Calls) : Bool := (s.breaker.allow s.clock).1

/-- A failure reported now leaves the breaker open, whether it was so before or not. -/
def Opens (s : Calls) : Prop := s.inFlight ≠ 0 ∧ (s.step .onFailure).breaker.state = .open

/-- Whenever a failure has opened the breaker, `allow` refuses for the full time. -/
def StaysOpen (s : Calls) (labels : List Label) : Prop :=
  ∀ pre mid post, labels = pre ++ .onFailure :: (mid ++ .allow :: post) →
    let tripped := Lts.run step s pre
    let asked := Lts.run step (tripped.step .onFailure) mid
    tripped.Opens → asked.clock < tripped.clock + s.breaker.policy.openDuration → asked.admits = false

/-- A failure opens the half-open breaker. -/
def Reopens (s : Calls) (labels : List Label) : Prop :=
  ∀ pre post, labels = pre ++ .onFailure :: post →
    let probing := Lts.run step s pre
    probing.inFlight ≠ 0 → probing.breaker.state = .halfOpen → probing.Opens

/-- A success is not reported within the time the breaker stays open. -/
def InSeason (s : Calls) : Label → Prop
  | .onSuccess =>
    s.inFlight ≠ 0 → s.breaker.state = .open → ∀ t ∈ s.breaker.openedAt, s.breaker.policy.openDuration ≤ s.clock - t
  | _ => True

instance (s : Calls) (label : Label) : Decidable (InSeason s label) := by
  unfold InSeason
  split <;> infer_instance

/-! ### One step -/

section Step

variable {s : Calls}

@[simp] theorem current_policy (b : Breaker) (now : Nat) : (b.current now).policy = b.policy := by
  rw [Breaker.current]
  split <;> rfl

@[simp] theorem onFailure_policy (b : Breaker) (now : Nat) : (b.onFailure now).policy = b.policy := by
  simp only [Breaker.onFailure]
  split <;> rfl

@[simp] theorem step_policy (s : Calls) (label : Label) : (s.step label).breaker.policy = s.breaker.policy := by
  cases label with
  | tick nanos => rfl
  | allow => exact current_policy s.breaker s.clock
  | onSuccess =>
    rw [step]
    split <;> rfl
  | onFailure =>
    rw [step]
    split
    · rfl
    · exact onFailure_policy s.breaker s.clock

theorem le_increment (count : UInt32) : count ≤ increment count := by
  rw [increment]
  split
  · rename_i hlt
    rw [UInt32.le_iff_toNat_le, UInt32.toNat_add]
    have hmod : (count.toNat + (1 : UInt32).toNat) % 2 ^ 32 = count.toNat + 1 := Nat.mod_eq_of_lt hlt
    omega
  · exact UInt32.le_refl count

/-- A breaker that is not closed has counted its failures, and one that is open knows since when. -/
structure Counted (s : Calls) : Prop where
  failures : s.breaker.state ≠ .closed → s.breaker.policy.failureThreshold ≤ s.breaker.failureCount
  opened : s.breaker.state = .open → ∃ t, s.breaker.openedAt = some t ∧ t ≤ s.clock

theorem counted_start (policy : Policy) (clock : Nat) : Counted (start policy clock) :=
  ⟨fun h => absurd rfl h, fun h => by cases h⟩

/-- What a failure does to a breaker that has been counting. -/
theorem onFailure_cases (b : Breaker) (now : Nat) :
    ((b.onFailure now).state = .open ∧ (b.onFailure now).openedAt = some now ∧
        b.policy.failureThreshold ≤ (b.onFailure now).failureCount) ∨
      ((b.onFailure now).state = b.state ∧ (b.onFailure now).openedAt = b.openedAt ∧
        b.failureCount ≤ (b.onFailure now).failureCount ∧ ¬ b.policy.failureThreshold ≤ increment b.failureCount) := by
  simp only [Breaker.onFailure]
  split
  · rename_i hcount
    exact Or.inl ⟨rfl, rfl, hcount⟩
  · rename_i hcount
    exact Or.inr ⟨rfl, rfl, le_increment _, hcount⟩

theorem Counted.step (h : Counted s) (label : Label) : Counted (s.step label) := by
  cases label with
  | tick nanos =>
    refine ⟨h.failures, fun hopen => ?_⟩
    obtain ⟨t, hopened, ht⟩ := h.opened hopen
    exact ⟨t, hopened, Nat.le_add_right_of_le ht⟩
  | allow =>
    have hsame : (s.step .allow).breaker = s.breaker.current s.clock := rfl
    by_cases hover : s.breaker.state = .open ∧ s.breaker.openedAt.any (fun t => s.breaker.policy.openDuration ≤ s.clock - t)
    · have hhalf : s.breaker.current s.clock = { s.breaker with state := .halfOpen } := by
        rw [Breaker.current, if_pos hover]
      refine ⟨fun _ => ?_, fun hopen => ?_⟩
      · rw [hsame, hhalf]
        exact h.failures (by rw [hover.1]; decide)
      · rw [hsame, hhalf] at hopen
        cases hopen
    · have hkept : s.breaker.current s.clock = s.breaker := by
        rw [Breaker.current, if_neg hover]
      refine ⟨fun hne => ?_, fun hopen => ?_⟩
      · rw [hsame, hkept] at hne ⊢
        exact h.failures hne
      · rw [hsame, hkept] at hopen ⊢
        exact h.opened hopen
  | onSuccess =>
    rw [Calls.step]
    split
    · exact h
    · exact ⟨fun hne => absurd rfl hne, fun hopen => by cases hopen⟩
  | onFailure =>
    rw [Calls.step]
    split
    · exact h
    · rcases onFailure_cases s.breaker s.clock with ⟨-, hopened, hcount⟩ | ⟨hstate, hopened, hcount, -⟩
      · exact ⟨fun _ => by simpa using hcount, fun _ => ⟨s.clock, hopened, le_refl _⟩⟩
      · refine ⟨fun hne => ?_, fun hopen => ?_⟩
        · have hne' : s.breaker.state ≠ .closed := hstate ▸ hne
          simpa using UInt32.le_trans (h.failures hne') hcount
        · obtain ⟨t, ht, hle⟩ := h.opened (hstate ▸ hopen)
          exact ⟨t, hopened.trans ht, hle⟩

/-- A failure opens a breaker that has counted enough of them. -/
theorem Counted.opens (h : Counted s) (hadmitted : s.inFlight ≠ 0) (hstate : s.breaker.state ≠ .closed) : s.Opens := by
  refine ⟨hadmitted, ?_⟩
  rw [Calls.step, if_neg hadmitted]
  rcases onFailure_cases s.breaker s.clock with ⟨hopen, -, -⟩ | ⟨-, -, -, hcount⟩
  · exact hopen
  · exact absurd (UInt32.le_trans (h.failures hstate) (le_increment _)) hcount

/-- Before `until` the breaker is open, and stays so. -/
def OpenUntil (limit : Nat) (s : Calls) : Prop :=
  s.clock < limit → s.breaker.state = .open ∧
    ∃ t, s.breaker.openedAt = some t ∧ t ≤ s.clock ∧ limit ≤ t + s.breaker.policy.openDuration

theorem OpenUntil.kept {limit : Nat} (h : OpenUntil limit s) (hclock : s.clock < limit) :
    s.breaker.current s.clock = s.breaker := by
  obtain ⟨-, t, hopened, ht, hlimit⟩ := h hclock
  rw [Breaker.current, if_neg]
  rintro ⟨-, hover⟩
  rw [hopened, Option.any_some, decide_eq_true_eq] at hover
  omega

theorem OpenUntil.refuses {limit : Nat} (h : OpenUntil limit s) (hclock : s.clock < limit) : s.admits = false := by
  rw [admits, Breaker.allow, h.kept hclock, (h hclock).1]
  rfl

theorem OpenUntil.step {limit : Nat} (h : OpenUntil limit s) {label : Label} (hseason : s.InSeason label) :
    OpenUntil limit (s.step label) := by
  intro hclock
  cases label with
  | tick nanos =>
    have hclock' : s.clock + nanos < limit := hclock
    obtain ⟨hopen, t, hopened, ht, hlimit⟩ := h (by omega)
    exact ⟨hopen, t, hopened, Nat.le_add_right_of_le ht, hlimit⟩
  | allow =>
    have hsame : (s.step .allow).breaker = s.breaker := h.kept hclock
    rw [hsame]
    exact h hclock
  | onSuccess =>
    rw [Calls.step] at hclock ⊢
    split
    · rename_i hnone
      rw [if_pos hnone] at hclock
      exact h hclock
    · rename_i hadmitted
      rw [if_neg hadmitted] at hclock
      obtain ⟨hopen, t, hopened, ht, hlimit⟩ := h hclock
      have hover := hseason hadmitted hopen t hopened
      have hclock' : s.clock < limit := hclock
      omega
  | onFailure =>
    rw [Calls.step] at hclock ⊢
    split
    · rename_i hnone
      rw [if_pos hnone] at hclock
      exact h hclock
    · rename_i hadmitted
      rw [if_neg hadmitted] at hclock
      obtain ⟨hopen, t, hopened, ht, hlimit⟩ := h hclock
      rcases onFailure_cases s.breaker s.clock with ⟨hopen', hopened', -⟩ | ⟨hstate, hopened', -, -⟩
      · exact ⟨hopen', s.clock, hopened', le_refl _, by
          simpa using le_trans hlimit (Nat.add_le_add_right ht _)⟩
      · exact ⟨hstate.trans hopen, t, hopened'.trans hopened, ht, by simpa using hlimit⟩

/-- A failure that opens the breaker opens it for the full time. -/
theorem Opens.openUntil (hcounted : Counted s) (h : s.Opens) :
    OpenUntil (s.clock + s.breaker.policy.openDuration) (s.step .onFailure) := by
  obtain ⟨hadmitted, hopen⟩ := h
  rw [Calls.step, if_neg hadmitted] at hopen ⊢
  intro _
  refine ⟨hopen, s.clock, ?_, le_refl _, by simp⟩
  rcases onFailure_cases s.breaker s.clock with ⟨-, hopened, -⟩ | ⟨hstate, -, -, hcount⟩
  · exact hopened
  · -- it was open before, so it had counted enough failures already
    have hne : s.breaker.state ≠ .closed := by
      rw [← hstate]
      exact fun hclosed => by rw [hclosed] at hopen; cases hopen
    exact absurd (UInt32.le_trans (hcounted.failures hne) (le_increment _)) hcount

theorem run_policy (s : Calls) (labels : List Label) : (Lts.run step s labels).breaker.policy = s.breaker.policy := by
  induction labels generalizing s with
  | nil => rfl
  | cons label labels ih => exact (ih (s.step label)).trans (step_policy s label)

end Step

/-- **A tripped breaker admits no call for the time it stays open**, and a failure re-opens it when half-open, in a run in which no success is reported while it is open. -/
theorem open_admits_none (policy : Policy) (clock : Nat) (labels : List Label)
    (hseason : Lts.EveryStep step InSeason (start policy clock) labels) :
    StaysOpen (start policy clock) labels ∧ Reopens (start policy clock) labels := by
  have hcounted : Lts.Always step Counted (start policy clock) labels :=
    Lts.always_of_invariant Counted (fun s label h _ => h.step label) (counted_start policy clock) hseason
  constructor
  · intro pre mid post hsplit tripped asked hopens hclock
    have hinv : Counted tripped := hcounted pre _ hsplit
    have hpolicy : tripped.breaker.policy = (start policy clock).breaker.policy := run_policy _ pre
    have hmid : Lts.EveryStep step InSeason (tripped.step .onFailure) mid := by
      rw [hsplit, Lts.everyStep_append, Lts.everyStep_cons, Lts.everyStep_append] at hseason
      exact hseason.2.2.1
    have hopen : OpenUntil (tripped.clock + tripped.breaker.policy.openDuration) asked :=
      Lts.run_invariant _ (fun s label h hlabel => OpenUntil.step h hlabel) (hopens.openUntil hinv) hmid
    rw [← hpolicy] at hclock
    exact hopen.refuses hclock
  · intro pre post hsplit probing hadmitted hhalf
    have hinv : Counted probing := hcounted pre _ hsplit
    exact hinv.opens hadmitted (by rw [hhalf]; decide)

/-- Twenty milliseconds after two failures. -/
def Policy.sample : Policy := ⟨2, 20000000⟩

/-- Trips, then recovers. -/
def tripsThenRecovers : List Label :=
  [.allow, .allow, .onFailure, .onFailure, .allow, .tick 30000000, .allow, .onSuccess, .allow]

theorem open_admits_none_tripsThenRecovers :
    StaysOpen (start Policy.sample 0) tripsThenRecovers ∧ Reopens (start Policy.sample 0) tripsThenRecovers :=
  open_admits_none Policy.sample 0 tripsThenRecovers (by decide)

/-- Of three calls that were admitted, two fail, and one succeeds after that. -/
def lateSuccess : List Label := [.allow, .allow, .allow, .onFailure, .onFailure, .onSuccess, .allow]

theorem lateSuccess_admitted : ¬ StaysOpen (start Policy.sample 0) lateSuccess := by
  intro h
  have hrefused := h [.allow, .allow, .allow, .onFailure] [.onSuccess] [] rfl (by constructor <;> decide) (by decide)
  exact absurd hrefused (by decide)

end Calls

end Circuit

end ActantDb
