import ActantDb.Core.Hlc
import ActantDb.Lib.Run

/-!
# The lock-free clock

`local_tick` and `observe` are one loop: read the wall clock once, then load the word, compute the next stamp from it and compare-and-swap, again and again until the swap succeeds. They differ in the next stamp only. The clock is modelled at that granularity: any number of threads, each label one atomic access of one thread, the wall-clock reading supplied by the label that starts the call. A label that does not fit its thread's phase changes nothing.
-/

namespace ActantDb

open Hlc

namespace HlcClock

/-- `prev.logical.saturating_add(1).min(LOGICAL_MAX)`. -/
def bump (logical : UInt32) : UInt32 :=
  min (if logical.toNat + 1 < 2 ^ 32 then logical + 1 else 0xffffffff) logicalMax

/-- The stamp `local_tick` tries to install over `prev`. -/
def tickNext (physicalNow : UInt64) (prev : Hlc) : Hlc :=
  if physicalNow > prev.physicalMs then ⟨physicalNow, 0⟩
  else ⟨prev.physicalMs, bump prev.logical⟩

/-- The stamp `observe` tries to install over `prev`. -/
def observeNext (remote : Hlc) (physicalNow : UInt64) (prev : Hlc) : Hlc :=
  let lNew := max (max prev.physicalMs remote.physicalMs) physicalNow
  let cNew :=
    match decide (lNew = prev.physicalMs), decide (lNew = remote.physicalMs) with
    | true, true => bump (max prev.logical remote.logical)
    | true, false => bump prev.logical
    | false, true => bump remote.logical
    | false, false => 0
  ⟨lNew, cNew⟩

/-- The two calls that advance the clock. -/
inductive Call where
  | localTick
  | observe (remote : Hlc)
deriving DecidableEq

def Call.next : Call → UInt64 → Hlc → Hlc
  | .localTick => tickNext
  | .observe remote => observeNext remote

/-- Where a thread is in the loop. `physicalNow` is the reading, masked when it was taken. -/
inductive Phase where
  | idle
  | loop (call : Call) (physicalNow : UInt64)
  | swap (call : Call) (physicalNow raw : UInt64)
deriving DecidableEq

/-- One atomic access of thread `i`. -/
inductive Label (ι : Type*) where
  | start (i : ι) (call : Call) (reading : UInt64)
  | load (i : ι)
  | compareExchange (i : ι)
deriving DecidableEq

/-- A call that has returned: what it was, the reading it took, the stamp it found and the stamp it returned. -/
structure Returned where
  call : Call
  physicalNow : UInt64
  prev : Hlc
  stamp : Hlc
deriving DecidableEq

/-- The shared word, the threads, and the calls that have returned, oldest first. -/
structure Clock (ι : Type*) where
  state : UInt64
  thread : ι → Phase
  returned : List Returned

variable {ι : Type*} [DecidableEq ι]

/-- `HlcClock::new`. -/
def new (initial : Hlc) : Clock ι := ⟨initial.pack, fun _ => .idle, []⟩

def Clock.peek (c : Clock ι) : Hlc := unpack c.state

def Clock.setThread (c : Clock ι) (i : ι) (phase : Phase) : Clock ι :=
  { c with thread := Function.update c.thread i phase }

def step (c : Clock ι) : Label ι → Clock ι
  | .start i call reading =>
    match c.thread i with
    | .idle => c.setThread i (.loop call (reading &&& physicalMask))
    | _ => c
  | .load i =>
    match c.thread i with
    | .loop call physicalNow => c.setThread i (.swap call physicalNow c.state)
    | _ => c
  | .compareExchange i =>
    match c.thread i with
    | .swap call physicalNow raw =>
      if c.state = raw then
        let next := call.next physicalNow (unpack raw)
        { c.setThread i .idle with
          state := next.pack
          returned := c.returned ++ [⟨call, physicalNow, unpack raw, next⟩] }
      else c.setThread i (.loop call physicalNow)
    | _ => c

/-- The call that the step returns from, when its compare-and-swap succeeds. -/
def returns (c : Clock ι) : Label ι → Option Returned
  | .compareExchange i =>
    match c.thread i with
    | .swap call physicalNow raw =>
      if c.state = raw then
        some ⟨call, physicalNow, unpack raw, call.next physicalNow (unpack raw)⟩
      else none
    | _ => none
  | _ => none

/-! ### What a step does -/

theorem step_of_returns {c : Clock ι} {l : Label ι} {r : Returned} (h : returns c l = some r) :
    (step c l).peek = unpack r.stamp.pack ∧ (step c l).returned = c.returned ++ [r] ∧
      r.prev = c.peek ∧ r.stamp = r.call.next r.physicalNow r.prev := by
  cases l with
  | start i call reading => simp [returns] at h
  | load i => simp [returns] at h
  | compareExchange i =>
    simp only [returns] at h
    simp only [step]
    split at h
    · rename_i call physicalNow raw hphase
      split at h
      · rename_i hraw
        cases h
        simp [Clock.peek, hraw]
      · cases h
    · cases h

theorem step_of_silent {c : Clock ι} {l : Label ι} (h : returns c l = none) :
    (step c l).peek = c.peek ∧ (step c l).returned = c.returned := by
  cases l with
  | start i call reading =>
    simp only [step]
    split <;> simp [Clock.peek, Clock.setThread]
  | load i =>
    simp only [step]
    split <;> simp [Clock.peek, Clock.setThread]
  | compareExchange i =>
    simp only [returns] at h
    simp only [step]
    split at h
    · rename_i call physicalNow raw hphase
      split at h
      · cases h
      · rename_i hraw
        simp [hraw, Clock.peek, Clock.setThread]
    · exact ⟨rfl, rfl⟩

/-- The reading a phase holds, if any, fits the packed word. -/
def Phase.ReadingFits : Phase → Prop
  | .idle => True
  | .loop _ physicalNow => physicalNow.toNat < 2 ^ 48
  | .swap _ physicalNow _ => physicalNow.toNat < 2 ^ 48

/-- Every reading a thread holds was masked when it was taken. -/
def ReadingsFit (c : Clock ι) : Prop := ∀ i, (c.thread i).ReadingFits

theorem readingsFit_setThread {c : Clock ι} {i : ι} {phase : Phase} (h : ReadingsFit c)
    (hphase : phase.ReadingFits) : ReadingsFit (c.setThread i phase) := by
  intro j
  by_cases hj : j = i
  · subst hj
    simpa [Clock.setThread] using hphase
  · simpa [Clock.setThread, hj] using h j

theorem readingsFit_step {c : Clock ι} (l : Label ι) (h : ReadingsFit c) :
    ReadingsFit (step c l) := by
  cases l with
  | start i call reading =>
    simp only [step]
    split
    · apply readingsFit_setThread h
      rw [Phase.ReadingFits, masked_toNat]
      exact Nat.mod_lt _ (by decide)
    · exact h
  | load i =>
    simp only [step]
    split
    · rename_i call physicalNow hphase
      have hi := h i
      rw [hphase] at hi
      exact readingsFit_setThread h hi
    · exact h
  | compareExchange i =>
    simp only [step]
    split
    · rename_i call physicalNow raw hphase
      have hi := h i
      rw [hphase] at hi
      split
      · exact readingsFit_setThread h trivial
      · exact readingsFit_setThread h hi
    · exact h

omit [DecidableEq ι] in
theorem returns_physicalNow {c : Clock ι} {l : Label ι} {r : Returned} (h : ReadingsFit c)
    (hr : returns c l = some r) : r.physicalNow.toNat < 2 ^ 48 := by
  cases l with
  | start i call reading => simp [returns] at hr
  | load i => simp [returns] at hr
  | compareExchange i =>
    simp only [returns] at hr
    split at hr
    · rename_i call physicalNow raw hphase
      have hi := h i
      rw [hphase] at hi
      split at hr <;> cases hr
      exact hi
    · cases hr

/-! ### What a next stamp is -/

theorem max_toNat (a b : UInt64) : (max a b).toNat = max a.toNat b.toNat := by
  show (if a ≤ b then b else a).toNat = _
  split
  · rename_i h
    exact (Nat.max_eq_right (UInt64.le_iff_toNat_le.mp h)).symm
  · rename_i h
    exact (Nat.max_eq_left (Nat.le_of_not_le fun hn => h (UInt64.le_iff_toNat_le.mpr hn))).symm

theorem max_toNat32 (a b : UInt32) : (max a b).toNat = max a.toNat b.toNat := by
  show (if a ≤ b then b else a).toNat = _
  split
  · rename_i h
    exact (Nat.max_eq_right (UInt32.le_iff_toNat_le.mp h)).symm
  · rename_i h
    exact (Nat.max_eq_left (Nat.le_of_not_le fun hn => h (UInt32.le_iff_toNat_le.mpr hn))).symm

theorem min_toNat32 (a b : UInt32) : (min a b).toNat = min a.toNat b.toNat := by
  show (if a ≤ b then a else b).toNat = _
  split
  · rename_i h
    exact (Nat.min_eq_left (UInt32.le_iff_toNat_le.mp h)).symm
  · rename_i h
    exact (Nat.min_eq_right (Nat.le_of_not_le fun hn => h (UInt32.le_iff_toNat_le.mpr hn))).symm

theorem bump_toNat (logical : UInt32) :
    (bump logical).toNat = min (logical.toNat + 1) (2 ^ 16 - 1) := by
  rw [bump, min_toNat32, logicalMax_toNat]
  split
  · rename_i h
    rw [UInt32.toNat_add, UInt32.toNat_one, Nat.mod_eq_of_lt h]
  · have : (0xffffffff : UInt32).toNat = 2 ^ 32 - 1 := by decide
    have := logical.toNat_lt
    omega

/-- The counter is at its bound and the wall clock is not ahead, so a tick has nowhere to go. -/
def Saturated (physicalNow : UInt64) (prev : Hlc) : Prop :=
  prev.logical = logicalMax ∧ physicalNow ≤ prev.physicalMs

instance (physicalNow : UInt64) (prev : Hlc) : Decidable (Saturated physicalNow prev) :=
  inferInstanceAs (Decidable (_ ∧ _))

theorem tickNext_fits {physicalNow : UInt64} {prev : Hlc} (hnow : physicalNow.toNat < 2 ^ 48)
    (hprev : prev.Fits) : (tickNext physicalNow prev).Fits := by
  rw [tickNext]
  split
  · exact ⟨hnow, by simp⟩
  · refine ⟨hprev.1, ?_⟩
    rw [bump_toNat]
    omega

/-- A tick moves strictly forward, except on a saturated clock, which it leaves where it is. -/
theorem tickNext_lt {physicalNow : UInt64} {prev : Hlc} (hprev : prev.Fits)
    (hsat : ¬ Saturated physicalNow prev) : prev < tickNext physicalNow prev := by
  rw [lt_iff, tickNext]
  split
  · rename_i h
    exact Or.inl (UInt64.lt_iff_toNat_lt.mp h)
  · rename_i h
    refine Or.inr ⟨rfl, ?_⟩
    have hbound := hprev.2
    have hmax : prev.logical.toNat ≠ 2 ^ 16 - 1 := by
      intro heq
      apply hsat
      refine ⟨UInt32.toNat_inj.mp (by rw [heq, logicalMax_toNat]), UInt64.not_lt.mp h⟩
    rw [bump_toNat]
    omega

theorem tickNext_saturated {physicalNow : UInt64} {prev : Hlc}
    (hsat : Saturated physicalNow prev) : tickNext physicalNow prev = prev := by
  obtain ⟨hmax, hnow⟩ := hsat
  rw [tickNext, if_neg (UInt64.not_lt.mpr hnow)]
  obtain ⟨physicalMs, logical⟩ := prev
  have : bump logical = logical := by
    apply UInt32.toNat_inj.mp
    rw [bump_toNat, show logical = logicalMax from hmax, logicalMax_toNat]
    omega
  rw [this]

theorem le_tickNext {physicalNow : UInt64} {prev : Hlc} (hprev : prev.Fits) :
    prev ≤ tickNext physicalNow prev := by
  by_cases hsat : Saturated physicalNow prev
  · exact (tickNext_saturated hsat).ge
  · exact (tickNext_lt hprev hsat).le

/-- The remote stamps the packed word can absorb: the physical part fits its 48 bits, and the counter fits its 16 bits unless the physical part is behind anyway. -/
def Absorbs (remote : Hlc) (physicalNow : UInt64) (prev : Hlc) : Prop :=
  remote.physicalMs.toNat < 2 ^ 48 ∧
    (remote.logical.toNat < 2 ^ 16 ∨ remote.physicalMs < prev.physicalMs ∨
      remote.physicalMs < physicalNow)

instance (remote : Hlc) (physicalNow : UInt64) (prev : Hlc) :
    Decidable (Absorbs remote physicalNow prev) :=
  inferInstanceAs (Decidable (_ ∧ _))

theorem observeNext_physicalMs (remote : Hlc) (physicalNow : UInt64) (prev : Hlc) :
    (observeNext remote physicalNow prev).physicalMs.toNat =
      max (max prev.physicalMs.toNat remote.physicalMs.toNat) physicalNow.toNat := by
  rw [observeNext, max_toNat, max_toNat]

/-- The counter `observe` installs, read off the four cases of its match. -/
theorem observeNext_logical (remote : Hlc) (physicalNow : UInt64) (prev : Hlc) :
    let physicalMs := max (max prev.physicalMs.toNat remote.physicalMs.toNat) physicalNow.toNat
    (observeNext remote physicalNow prev).logical.toNat =
      if physicalMs = prev.physicalMs.toNat then
        if physicalMs = remote.physicalMs.toNat then
          min (max prev.logical.toNat remote.logical.toNat + 1) (2 ^ 16 - 1)
        else min (prev.logical.toNat + 1) (2 ^ 16 - 1)
      else if physicalMs = remote.physicalMs.toNat then
        min (remote.logical.toNat + 1) (2 ^ 16 - 1)
      else 0 := by
  intro physicalMs
  have hphysical : (max (max prev.physicalMs remote.physicalMs) physicalNow).toNat = physicalMs := by
    rw [max_toNat, max_toNat]
  have hprev : max (max prev.physicalMs remote.physicalMs) physicalNow = prev.physicalMs ↔
      physicalMs = prev.physicalMs.toNat := by
    rw [← UInt64.toNat_inj, hphysical]
  have hremote : max (max prev.physicalMs remote.physicalMs) physicalNow = remote.physicalMs ↔
      physicalMs = remote.physicalMs.toNat := by
    rw [← UInt64.toNat_inj, hphysical]
  simp only [observeNext, hprev, hremote]
  by_cases h1 : physicalMs = prev.physicalMs.toNat
  · by_cases h2 : physicalMs = remote.physicalMs.toNat
    · simp only [decide_eq_true h1, decide_eq_true h2, if_pos h1, if_pos h2, bump_toNat,
        max_toNat32]
    · simp only [decide_eq_true h1, decide_eq_false h2, if_pos h1, if_neg h2, bump_toNat]
  · by_cases h2 : physicalMs = remote.physicalMs.toNat
    · simp only [decide_eq_false h1, decide_eq_true h2, if_neg h1, if_pos h2, bump_toNat]
    · simp only [decide_eq_false h1, decide_eq_false h2, if_neg h1, if_neg h2, UInt32.toNat_zero]

theorem observeNext_fits {remote : Hlc} {physicalNow : UInt64} {prev : Hlc}
    (hnow : physicalNow.toNat < 2 ^ 48) (hprev : prev.Fits)
    (hremote : remote.physicalMs.toNat < 2 ^ 48) : (observeNext remote physicalNow prev).Fits := by
  have hp := observeNext_physicalMs remote physicalNow prev
  have hl := observeNext_logical remote physicalNow prev
  obtain ⟨hprevp, -⟩ := hprev
  refine ⟨by omega, ?_⟩
  rw [hl]
  split_ifs <;> omega

theorem le_observeNext {remote : Hlc} {physicalNow : UInt64} {prev : Hlc} (hprev : prev.Fits) :
    prev ≤ observeNext remote physicalNow prev := by
  have hp := observeNext_physicalMs remote physicalNow prev
  have hl := observeNext_logical remote physicalNow prev
  have hbound := hprev.2
  rw [le_iff]
  simp only at hl
  split_ifs at hl <;> omega

/-- An absorbed remote stamp is at or below the stamp `observe` installs. -/
theorem remote_le_observeNext {remote : Hlc} {physicalNow : UInt64} {prev : Hlc}
    (h : Absorbs remote physicalNow prev) : remote ≤ observeNext remote physicalNow prev := by
  have hp := observeNext_physicalMs remote physicalNow prev
  have hl := observeNext_logical remote physicalNow prev
  obtain ⟨-, hlogical⟩ := h
  rw [UInt64.lt_iff_toNat_lt, UInt64.lt_iff_toNat_lt] at hlogical
  rw [le_iff]
  simp only at hl
  split_ifs at hl <;> omega

/-- A remote stamp the word cannot absorb is above whatever the word holds afterwards. -/
theorem stored_lt_remote {remote : Hlc} {physicalNow : UInt64} {prev : Hlc}
    (h : ¬ Absorbs remote physicalNow prev) :
    unpack (observeNext remote physicalNow prev).pack < remote := by
  have hp := observeNext_physicalMs remote physicalNow prev
  have hl := observeNext_logical remote physicalNow prev
  have hfits := unpack_fits (observeNext remote physicalNow prev).pack
  rw [Absorbs, UInt64.lt_iff_toNat_lt, UInt64.lt_iff_toNat_lt] at h
  rw [Fits] at hfits
  rw [lt_iff]
  by_cases hphysical : remote.physicalMs.toNat < 2 ^ 48
  · have hword : (unpack (observeNext remote physicalNow prev).pack).physicalMs.toNat ≤
        remote.physicalMs.toNat := by
      rw [unpack_physicalMs, pack_toNat]
      omega
    omega
  · omega

/-! ### Monotonicity of the clock -/

/-- The value `peek` reads never decreases along the run. -/
def PeekMonotone (c : Clock ι) (labels : List (Label ι)) : Prop :=
  ∀ pre mid post, labels = pre ++ mid ++ post →
    (Lts.run step c pre).peek ≤ (Lts.run step c (pre ++ mid)).peek

/-- Once an `observe` has returned, every later `peek` is at or above the stamp it observed. -/
def ObservedBelow (c : Clock ι) (labels : List (Label ι)) : Prop :=
  ∀ pre l post r remote, labels = pre ++ l :: post → returns (Lts.run step c pre) l = some r →
    r.call = .observe remote →
    ∀ mid rest, post = mid ++ rest → remote ≤ (Lts.run step c (pre ++ l :: mid)).peek

/-- If the call was an `observe`, the word could absorb the stamp it was given. -/
def Returned.Absorbed (r : Returned) : Prop :=
  match r.call with
  | .localTick => True
  | .observe remote => Absorbs remote r.physicalNow r.prev

instance (r : Returned) : Decidable r.Absorbed := by
  unfold Returned.Absorbed
  split <;> infer_instance

/-- A step that completes an `observe` completes it with a stamp the word can absorb. -/
def ObservesAbsorbed (c : Clock ι) (l : Label ι) : Prop := ∀ r ∈ returns c l, r.Absorbed

instance (c : Clock ι) (l : Label ι) : Decidable (ObservesAbsorbed c l) :=
  inferInstanceAs (Decidable (∀ r ∈ returns c l, r.Absorbed))

/-- One step that absorbs what it observes moves `peek` forward, past the observed stamp. -/
theorem peek_step {c : Clock ι} {l : Label ι} (hc : ReadingsFit c)
    (hl : ObservesAbsorbed c l) :
    c.peek ≤ (step c l).peek ∧
      ∀ r, returns c l = some r → (step c l).peek = r.stamp ∧
        ∀ remote, r.call = .observe remote → remote ≤ r.stamp := by
  cases hr : returns c l with
  | none => exact ⟨(step_of_silent hr).1.ge, by simp⟩
  | some r =>
    obtain ⟨hpeek, -, hprev, hstamp⟩ := step_of_returns hr
    have hnow := returns_physicalNow hc hr
    have hfits : r.prev.Fits := hprev ▸ unpack_fits c.state
    cases hcall : r.call with
    | localTick =>
      have hnext : r.stamp = tickNext r.physicalNow r.prev := by rw [hstamp, hcall]; rfl
      rw [hpeek, hnext, unpack_pack (tickNext_fits hnow hfits), ← hprev]
      refine ⟨le_tickNext hfits, ?_⟩
      rintro r' ⟨⟩
      simp [hnext, hcall]
    | observe remote =>
      have habsorbs := hl r hr
      rw [Returned.Absorbed, hcall] at habsorbs
      have hnext : r.stamp = observeNext remote r.physicalNow r.prev := by rw [hstamp, hcall]; rfl
      rw [hpeek, hnext, unpack_pack (observeNext_fits hnow hfits habsorbs.1), ← hprev]
      refine ⟨le_observeNext hfits, ?_⟩
      rintro r' ⟨⟩
      refine ⟨hnext.symm, fun remote' hremote => ?_⟩
      rw [hcall] at hremote
      cases hremote
      rw [hnext]
      exact remote_le_observeNext habsorbs

omit [DecidableEq ι] in
theorem readingsFit_new (initial : Hlc) : ReadingsFit (new initial : Clock ι) := fun _ => trivial

theorem readingsFit_run {c : Clock ι} (hc : ReadingsFit c) (labels : List (Label ι)) :
    ReadingsFit (Lts.run step c labels) := by
  induction labels generalizing c with
  | nil => exact hc
  | cons l ls ih => exact ih (readingsFit_step l hc)

theorem peek_run {c : Clock ι} {labels : List (Label ι)} (hc : ReadingsFit c)
    (h : Lts.EveryStep step ObservesAbsorbed c labels) :
    c.peek ≤ (Lts.run step c labels).peek :=
  Lts.run_rel ReadingsFit (fun a b => a.peek ≤ b.peek) (fun _ => le_rfl)
    (fun _ _ _ hab hbc => hab.trans hbc)
    (fun _ l hs hl => ⟨readingsFit_step l hs, (peek_step hs hl).1⟩) hc h

/-- **The clock is monotone exactly as long as it can hold what it observes.** From every initial stamp, along every interleaving, `peek` never decreases and stays above every observed stamp if and only if each completed `observe` was given a stamp whose physical part fits 48 bits and whose counter fits 16 bits or is behind on its physical part. -/
theorem monotone_iff_absorbed (initial : Hlc) (labels : List (Label ι)) :
    (PeekMonotone (new initial) labels ∧ ObservedBelow (new initial) labels) ↔
      Lts.EveryStep step ObservesAbsorbed (new initial) labels := by
  constructor
  · rintro ⟨-, hobserved⟩
    rw [Lts.everyStep_iff]
    intro pre l post heq r hr
    obtain ⟨hpeek, -, hprev, hstamp⟩ := step_of_returns hr
    rw [Returned.Absorbed]
    split
    · trivial
    · rename_i remote hcall
      by_contra habsorbs
      have hle := hobserved pre l post r remote heq hr hcall [] post rfl
      rw [Lts.run_append, Lts.run_cons, Lts.run_nil, hpeek, hstamp, hcall] at hle
      exact absurd hle (not_le.mpr (stored_lt_remote habsorbs))
  · intro h
    refine ⟨?_, ?_⟩
    · rintro pre mid post rfl
      rw [Lts.run_append]
      rw [List.append_assoc, Lts.everyStep_append, Lts.everyStep_append] at h
      exact peek_run (readingsFit_run (readingsFit_new initial) pre) h.2.1
    · rintro pre l post r remote rfl hr hcall mid rest rfl
      rw [Lts.everyStep_append, Lts.everyStep_cons, Lts.everyStep_append] at h
      obtain ⟨-, hl, hmid, -⟩ := h
      have hc := readingsFit_run (readingsFit_new initial) pre
      obtain ⟨hpeek, hbelow⟩ := (peek_step hc hl).2 r hr
      rw [Lts.run_append, Lts.run_cons]
      calc remote ≤ r.stamp := hbelow remote hcall
        _ = (step (Lts.run step (new initial) pre) l).peek := hpeek.symm
        _ ≤ _ := peek_run (readingsFit_step l hc) hmid

/-- A remote stamp of `2 ^ 48` milliseconds is truncated to zero by the packed word, so observing it moves the clock from `(100, 5)` back to `(0, 1)`. -/
theorem peek_decreases :
    ¬ (PeekMonotone (new ⟨100, 5⟩ : Clock Unit)
          [.start () (.observe ⟨281474976710656, 0⟩) 100, .load (), .compareExchange ()] ∧
        ObservedBelow (new ⟨100, 5⟩ : Clock Unit)
          [.start () (.observe ⟨281474976710656, 0⟩) 100, .load (), .compareExchange ()]) := by
  rintro ⟨hmono, -⟩
  have hle := hmono [] _ [] (List.append_nil _).symm
  exact absurd hle (by decide)

/-! ### Uniqueness of the stamps of local ticks -/

def Returned.isTick (r : Returned) : Bool := r.call = .localTick

/-- The `local_tick` calls that have returned, oldest first. -/
def Clock.ticks (c : Clock ι) : List Returned := c.returned.filter Returned.isTick

/-- Every returned stamp is at or below the current one, and a tick's stamp is above those of the ticks before it unless it was taken on a saturated clock. -/
structure TicksOrdered (c : Clock ι) : Prop where
  below : ∀ r ∈ c.returned, r.stamp ≤ c.peek
  pairwise : c.ticks.Pairwise fun a b => a.stamp < b.stamp ∨ Saturated b.physicalNow b.prev

theorem ticksOrdered_step {c : Clock ι} {l : Label ι} (hc : ReadingsFit c)
    (h : TicksOrdered c) (hl : ObservesAbsorbed c l) : TicksOrdered (step c l) := by
  have hpeek := peek_step hc hl
  cases hr : returns c l with
  | none =>
    obtain ⟨hsame, hreturned⟩ := step_of_silent hr
    exact ⟨by rw [hreturned, hsame]; exact h.below, by rw [Clock.ticks, hreturned]; exact h.pairwise⟩
  | some r =>
    obtain ⟨-, hreturned, hprev, hstamp⟩ := step_of_returns hr
    have hnew := (hpeek.2 r hr).1
    constructor
    · intro r' hmem
      rw [hreturned, List.mem_append, List.mem_singleton] at hmem
      rcases hmem with hold | rfl
      · exact (h.below r' hold).trans hpeek.1
      · exact hnew.ge
    · rw [Clock.ticks, hreturned, List.filter_append]
      refine List.pairwise_append.mpr ⟨h.pairwise, ?_, ?_⟩
      · exact (List.pairwise_singleton _ _).sublist List.filter_sublist
      · intro a ha b hb
        obtain ⟨hb, htick⟩ := List.mem_filter.mp hb
        rw [List.mem_singleton] at hb
        subst hb
        by_cases hsat : Saturated b.physicalNow b.prev
        · exact Or.inr hsat
        · left
          have hcall : b.call = .localTick := by simpa [Returned.isTick] using htick
          have hfits : b.prev.Fits := hprev ▸ unpack_fits c.state
          calc a.stamp ≤ c.peek := h.below a (List.mem_filter.mp ha).1
            _ = b.prev := hprev.symm
            _ < tickNext b.physicalNow b.prev := tickNext_lt hfits hsat
            _ = b.stamp := by rw [hstamp, hcall]; rfl

/-- **Ticks are distinct until the counter saturates.** Along every interleaving whose `observe` calls, if there are any, are absorbed, two `local_tick` calls return the same stamp only if the later one was taken while the counter was at its bound and the wall clock was not ahead of the physical part. -/
theorem ticks_distinct_unless_saturated (initial : Hlc) (labels : List (Label ι))
    (h : Lts.EveryStep step ObservesAbsorbed (new initial) labels) :
    (Lts.run step (new initial) labels).ticks.Pairwise
      fun a b => a.stamp ≠ b.stamp ∨ Saturated b.physicalNow b.prev := by
  have hinv : ReadingsFit (Lts.run step (new initial) labels) ∧
      TicksOrdered (Lts.run step (new initial) labels) :=
    Lts.run_invariant (fun c => ReadingsFit c ∧ TicksOrdered c)
      (fun _ l hs hl => ⟨readingsFit_step l hs.1, ticksOrdered_step hs.1 hs.2 hl⟩)
      ⟨readingsFit_new initial, ⟨by simp [new], by simp [Clock.ticks, new]⟩⟩ h
  exact hinv.2.pairwise.imp fun hab => hab.imp_left fun hlt => hlt.ne

theorem ticks_distinct_two :
    (Lts.run step (new ⟨100, 7⟩ : Clock Unit)
        [.start () .localTick 100, .load (), .compareExchange (),
          .start () .localTick 100, .load (), .compareExchange ()]).ticks.Pairwise
      fun a b => a.stamp ≠ b.stamp ∨ Saturated b.physicalNow b.prev :=
  ticks_distinct_unless_saturated ⟨100, 7⟩ _ (by decide)

/-- With the counter at its bound and the wall clock standing still, two ticks return one stamp. -/
theorem saturated_ticks_repeat :
    ¬ (Lts.run step (new ⟨100, 65535⟩ : Clock Unit)
        [.start () .localTick 100, .load (), .compareExchange (),
          .start () .localTick 100, .load (), .compareExchange ()]).ticks.Pairwise
      fun a b => a.stamp ≠ b.stamp := by
  decide

end HlcClock

end ActantDb
