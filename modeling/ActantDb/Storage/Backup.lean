import ActantDb.Lib.Run
import Mathlib.Data.List.Range
import Mathlib.Logic.Function.Basic

/-!
# Incremental backups

A capture compares the LSN it is given with the stored one, checkpoints, reads the WAL file, truncates the WAL, and stores the next LSN, one after the other and in no transaction. The WAL is the list of the commits since it was last truncated. What is committed between the reading and the truncation is in no increment, and two captures that overlap get one LSN.

As long as every truncation finds the WAL as the capture has read it, and no other capture halfway, the increments are numbered one after the other and hold every commit once (`increments_complete`).
-/

namespace ActantDb

/-- A captured increment; a commit is named by its number in the order of all commits since the base snapshot. -/
structure WalIncrement where
  lsn : Nat
  previousLsn : Nat
  bytes : List Nat

/-- The statement that a call of `wal_frames_since` is at. -/
inductive Capture where
  | idle
  -- `last_lsn`, and its comparison with the argument
  | lastLsn (fromLsn : Nat) (began : Nat)
  | passive (current : Nat) (began : Nat)
  | read (current : Nat) (began : Nat)
  | truncate (current : Nat) (began : Nat) (bytes : List Nat)
  | update (current : Nat) (began : Nat) (bytes : List Nat)

structure BackupState (ι : Type) where
  /-- How many commits have been made since the base snapshot. -/
  made : Nat
  wal : List Nat
  lastLsn : Nat
  calls : ι → Capture
  /-- What has been returned, in this order. -/
  increments : List WalIncrement
  /-- The commits made before the call began that returned last. -/
  before : Nat

inductive BackupLabel (ι : Type) where
  | commit
  | walFramesSince (i : ι) (fromLsn : Nat)
  -- the next statement of the call; it may fail
  | advance (i : ι) (ok : Bool)

/-- A restored database: its LSN, and the commits it holds beyond the base snapshot. -/
structure Restored where
  lsn : Nat
  commits : List Nat

/-- `apply_wal_frames`. -/
def applyWalFrames (r : Restored) (frames : WalIncrement) : Option Restored :=
  if frames.previousLsn ≠ r.lsn then none else some ⟨frames.lsn, r.commits ++ frames.bytes⟩

namespace BackupState

variable {ι : Type} [DecidableEq ι]

def step (s : BackupState ι) : BackupLabel ι → BackupState ι
  | .commit => { s with made := s.made + 1, wal := s.wal ++ [s.made] }
  | .walFramesSince i fromLsn =>
    match s.calls i with
    | .idle => { s with calls := Function.update s.calls i (.lastLsn fromLsn s.made) }
    | _ => s
  | .advance i ok =>
    match s.calls i with
    | .idle => s
    | .lastLsn fromLsn began =>
      let next := if ok ∧ fromLsn = s.lastLsn then .passive s.lastLsn began else .idle
      { s with calls := Function.update s.calls i next }
    | .passive current began =>
      { s with calls := Function.update s.calls i (if ok then .read current began else .idle) }
    | .read current began =>
      -- a file that cannot be read is taken for an empty one
      { s with calls := Function.update s.calls i (.truncate current began (if ok then s.wal else [])) }
    | .truncate current began bytes =>
      if ok then { s with wal := [], calls := Function.update s.calls i (.update current began bytes) }
      else { s with calls := Function.update s.calls i .idle }
    | .update current began bytes =>
      if ok then
        { s with
          -- storing the LSN is a commit as any other
          made := s.made + 1
          wal := s.wal ++ [s.made]
          lastLsn := current + 1
          calls := Function.update s.calls i .idle
          increments := s.increments ++ [⟨current + 1, current, bytes⟩]
          before := began }
      else { s with calls := Function.update s.calls i .idle }

/-- The base snapshot has just been taken, at the stored LSN. -/
def start (lsn : Nat) : BackupState ι := ⟨0, [], lsn, fun _ => .idle, [], 0⟩

/-- What is restored from the base snapshot and the increments. -/
def restore (s : BackupState ι) (lsn : Nat) : Option Restored := s.increments.foldlM applyWalFrames ⟨lsn, []⟩

/-- The increments are numbered one after the other from the LSN of the snapshot, and what is restored of them are the first commits, each once and among them all that were made before the last capture. -/
def Complete (lsn : Nat) (s : BackupState ι) : Prop :=
  s.increments.map WalIncrement.lsn = List.range' (lsn + 1) s.increments.length ∧
    ∃ n, s.before ≤ n ∧ s.restore lsn = some ⟨lsn + s.increments.length, List.range n⟩

/-- The call has truncated the WAL and not yet stored its LSN. -/
def Capture.updating : Capture → Bool
  | .update .. => true
  | _ => false

/-- A truncation finds the WAL as the call has read it and the LSN as it has compared it, and no other call between its truncation and its last statement; and that one does not fail. -/
def Undisturbed (s : BackupState ι) : BackupLabel ι → Prop
  | .advance i ok =>
    match s.calls i with
    | .truncate current _ bytes =>
      ok = true → bytes = s.wal ∧ current = s.lastLsn ∧ ∀ j, ¬ Capture.updating (s.calls j)
    | .update .. => ok = true
    | _ => True
  | _ => True

/-! ### What every step keeps -/

/-- The commits in the increments. -/
def captured (s : BackupState ι) : List Nat := s.increments.flatMap WalIncrement.bytes

/-- How many commits had been made when the call began. -/
def Capture.began : Capture → Nat
  | .idle => 0
  | .lastLsn _ began | .passive _ began | .read _ began | .truncate _ began _ | .update _ began _ => began

/-- Every commit is captured, held by the one call that has truncated the WAL, or in the WAL. -/
structure BackupInv (lsn : Nat) (s : BackupState ι) : Prop where
  last : s.lastLsn = lsn + s.increments.length
  numbers : s.increments.map WalIncrement.lsn = List.range' (lsn + 1) s.increments.length
  restored : s.restore lsn = some ⟨s.lastLsn, s.captured⟩
  before : s.before ≤ s.captured.length
  began : ∀ i, (Capture.began (s.calls i)) ≤ s.made
  free : (∀ i, ¬ Capture.updating (s.calls i)) → s.captured ++ s.wal = List.range s.made
  held : ∀ i current began bytes, s.calls i = .update current began bytes →
    current = s.lastLsn ∧ (∀ j, j ≠ i → ¬ Capture.updating (s.calls j)) ∧
      (s.captured ++ bytes) ++ s.wal = List.range s.made ∧ began ≤ (s.captured ++ bytes).length

theorem prefix_range {l rest : List Nat} {n : Nat} (h : l ++ rest = List.range n) : l = List.range l.length := by
  have hlength := congrArg List.length h
  rw [List.length_append, List.length_range] at hlength
  have htake := congrArg (List.take l.length) h
  rwa [List.take_left, List.take_range, Nat.min_eq_left (by omega)] at htake

omit [DecidableEq ι] in
theorem BackupInv.complete {lsn : Nat} {s : BackupState ι} (h : BackupInv lsn s) : Complete lsn s := by
  have hprefix : s.captured = List.range s.captured.length := by
    by_cases hfree : ∀ i, ¬ Capture.updating (s.calls i)
    · exact prefix_range (h.free hfree)
    · obtain ⟨i, hi⟩ := not_forall_not.mp hfree
      cases hcall : s.calls i with
      | update current began bytes =>
        have hheld := (h.held i current began bytes hcall).2.2.1
        rw [List.append_assoc] at hheld
        exact prefix_range hheld
      | _ =>
        rw [hcall] at hi
        cases hi
  refine ⟨h.numbers, s.captured.length, h.before, ?_⟩
  rw [h.restored, h.last, ← hprefix]

section Step

variable {lsn : Nat} {s : BackupState ι}

/-- A call at an earlier statement goes on. -/
theorem BackupInv.move (h : BackupInv lsn s) {i : ι} {next : Capture} (hidle : ¬ Capture.updating (s.calls i))
    (hnext : ¬ Capture.updating next) (hbegan : Capture.began next ≤ s.made) :
    BackupInv lsn { s with calls := Function.update s.calls i next } := by
  have hcalls (j : ι) : Capture.updating (Function.update s.calls i next j) = Capture.updating (s.calls j) := by
    by_cases hj : j = i
    · subst hj
      rw [Function.update_self, Bool.eq_false_iff.mpr hidle, Bool.eq_false_iff.mpr hnext]
    · rw [Function.update_of_ne hj]
  refine ⟨h.last, h.numbers, h.restored, h.before, fun j => ?_, fun hfree => ?_, fun j current began bytes hcall => ?_⟩
  · by_cases hj : j = i
    · subst hj
      simpa using hbegan
    · simpa [hj] using h.began j
  · exact h.free fun j => by simpa [hcalls j] using hfree j
  · dsimp only at hcall
    have hj : j ≠ i := by
      rintro rfl
      rw [Function.update_self] at hcall
      exact hnext (by rw [hcall]; rfl)
    rw [Function.update_of_ne hj] at hcall
    obtain ⟨hcurrent, halone, hcovered⟩ := h.held j current began bytes hcall
    exact ⟨hcurrent, fun k hk => by simpa [hcalls k] using halone k hk, hcovered⟩

omit [DecidableEq ι] in
theorem BackupInv.commit (h : BackupInv lsn s) :
    BackupInv lsn { s with made := s.made + 1, wal := s.wal ++ [s.made] } := by
  refine ⟨h.last, h.numbers, h.restored, h.before, fun i => Nat.le_succ_of_le (h.began i), fun hfree => ?_,
    fun i current began bytes hcall => ?_⟩
  · show s.captured ++ (s.wal ++ [s.made]) = _
    rw [← List.append_assoc, h.free hfree, List.range_succ]
  · obtain ⟨hcurrent, halone, hcovered, hbegan⟩ := h.held i current began bytes hcall
    refine ⟨hcurrent, halone, ?_, hbegan⟩
    show (s.captured ++ bytes) ++ (s.wal ++ [s.made]) = _
    rw [← List.append_assoc, hcovered, List.range_succ]

theorem BackupInv.truncate (h : BackupInv lsn s) {i : ι} {current began : Nat} {bytes : List Nat}
    (hcall : s.calls i = .truncate current began bytes) (hbytes : bytes = s.wal) (hcurrent : current = s.lastLsn)
    (halone : ∀ j, ¬ Capture.updating (s.calls j)) :
    BackupInv lsn { s with wal := [], calls := Function.update s.calls i (.update current began bytes) } := by
  have hbegan := h.began i
  rw [hcall] at hbegan
  have hcovered : s.captured ++ bytes = List.range s.made := hbytes ▸ h.free halone
  refine ⟨h.last, h.numbers, h.restored, h.before, fun j => ?_, fun hfree => ?_, fun j current' began' bytes' hj => ?_⟩
  · by_cases hj : j = i
    · subst hj
      simpa [Capture.began] using hbegan
    · simpa [hj] using h.began j
  · have hupdating := hfree i
    simp [Capture.updating] at hupdating
  · dsimp only at hj
    have hji : j = i := by
      by_contra hne
      rw [Function.update_of_ne hne] at hj
      exact halone j (by rw [hj]; rfl)
    subst hji
    rw [Function.update_self, Capture.update.injEq] at hj
    obtain ⟨rfl, rfl, rfl⟩ := hj
    refine ⟨hcurrent, fun k hk => by simpa [hk] using halone k, ?_, ?_⟩
    · show s.captured ++ bytes ++ [] = _
      rw [List.append_nil, hcovered]
    · show began ≤ (s.captured ++ bytes).length
      rw [hcovered, List.length_range]
      exact hbegan

theorem BackupInv.update (h : BackupInv lsn s) {i : ι} {current began : Nat} {bytes : List Nat}
    (hcall : s.calls i = .update current began bytes) :
    BackupInv lsn { s with
      made := s.made + 1
      wal := s.wal ++ [s.made]
      lastLsn := current + 1
      calls := Function.update s.calls i .idle
      increments := s.increments ++ [⟨current + 1, current, bytes⟩]
      before := began } := by
  obtain ⟨hcurrent, halone, hcovered, hbegan⟩ := h.held i current began bytes hcall
  have hlast := h.last
  have hcaptured : (s.increments ++ [(⟨current + 1, current, bytes⟩ : WalIncrement)]).flatMap WalIncrement.bytes =
      s.captured ++ bytes := by
    rw [List.flatMap_append, captured]
    simp
  have hnone (j : ι) : ¬ Capture.updating (Function.update s.calls i .idle j) := by
    by_cases hj : j = i
    · subst hj
      simp [Capture.updating]
    · simpa [hj] using halone j hj
  refine ⟨?_, ?_, ?_, ?_, fun j => ?_, fun _ => ?_, fun j current' began' bytes' hj => ?_⟩
  · simp
    omega
  · rw [List.map_append, h.numbers, List.length_append, List.length_singleton, List.range'_concat]
    simp
    omega
  · rw [restore, List.foldlM_append, ← restore, h.restored]
    simp [applyWalFrames, hcurrent, captured]
  · show began ≤ _
    rw [captured, hcaptured]
    exact hbegan
  · by_cases hj : j = i
    · subst hj
      simp [Capture.began]
    · simpa [hj] using Nat.le_succ_of_le (h.began j)
  · rw [captured, hcaptured]
    show s.captured ++ bytes ++ (s.wal ++ [s.made]) = _
    rw [← List.append_assoc, hcovered, List.range_succ]
  · dsimp only at hj
    exact absurd (by rw [hj]; rfl) (hnone j)

/-- **One step.** -/
theorem BackupInv.step (h : BackupInv lsn s) (label : BackupLabel ι) (hcalm : s.Undisturbed label) :
    BackupInv lsn (s.step label) := by
  cases label with
  | commit => exact h.commit
  | walFramesSince i fromLsn =>
    rw [BackupState.step]
    split
    · rename_i hcall
      exact h.move (by simp [hcall, Capture.updating]) (by simp [Capture.updating]) (le_refl _)
    · exact h
  | advance i ok =>
    have hbegan := h.began i
    rw [BackupState.step]
    rw [Undisturbed] at hcalm
    cases hcall : s.calls i with
    | idle => exact h
    | lastLsn fromLsn began =>
      rw [hcall] at hbegan
      refine h.move (by simp [hcall, Capture.updating]) ?_ ?_
      · split <;> simp [Capture.updating]
      · split
        · exact hbegan
        · exact Nat.zero_le _
    | passive current began =>
      rw [hcall] at hbegan
      refine h.move (by simp [hcall, Capture.updating]) ?_ ?_
      · split <;> simp [Capture.updating]
      · split
        · exact hbegan
        · exact Nat.zero_le _
    | read current began =>
      rw [hcall] at hbegan
      exact h.move (by simp [hcall, Capture.updating]) (by simp [Capture.updating]) hbegan
    | truncate current began bytes =>
      rw [hcall] at hcalm
      dsimp only
      split
      · rename_i hok
        obtain ⟨hbytes, hcurrent, halone⟩ := hcalm hok
        exact h.truncate hcall hbytes hcurrent halone
      · exact h.move (by simp [hcall, Capture.updating]) (by simp [Capture.updating]) (Nat.zero_le _)
    | update current began bytes =>
      rw [hcall] at hcalm
      dsimp only
      rw [if_pos hcalm]
      exact h.update hcall

omit [DecidableEq ι] in
theorem start_inv (lsn : Nat) : BackupInv lsn (start lsn : BackupState ι) where
  last := rfl
  numbers := rfl
  restored := rfl
  before := le_refl _
  began _ := le_refl _
  free _ := rfl
  held i current began bytes h := by cases h

end Step

/-- **The increments are complete** in every state of a run whose captures are undisturbed. -/
theorem increments_complete {lsn : Nat} {ls : List (BackupLabel ι)}
    (h : Lts.EveryStep step Undisturbed (start lsn) ls) : Lts.Always step (Complete lsn) (start lsn) ls := by
  intro pre post hsplit
  exact (Lts.always_of_invariant (BackupInv lsn) (fun s label hs hlabel => hs.step label hlabel) (start_inv lsn) h
    pre post hsplit).complete

/-- The statements of one call, on its own. -/
def captureAlone (fromLsn : Nat) : List (BackupLabel Unit) :=
  .walFramesSince () fromLsn :: List.replicate 5 (.advance () true)

theorem increments_complete_alone :
    Lts.Always step (Complete 0) (start 0) (.commit :: captureAlone 0 ++ .commit :: captureAlone 1) := by
  refine increments_complete ?_
  simp only [captureAlone, List.replicate, List.cons_append, List.nil_append, Lts.everyStep_cons, Lts.everyStep_nil]
  refine ⟨trivial, trivial, trivial, trivial, trivial, ?_, rfl, trivial, trivial, trivial, trivial, trivial, ?_, rfl, trivial⟩
  · exact fun _ => ⟨rfl, rfl, fun j => by cases j; decide⟩
  · exact fun _ => ⟨rfl, rfl, fun j => by cases j; decide⟩

/-- A commit between the reading of the WAL and its truncation. -/
def lateCommit : List (BackupLabel Unit) :=
  .walFramesSince () 0 :: List.replicate 3 (.advance () true) ++ .commit :: List.replicate 2 (.advance () true) ++
    captureAlone 1

theorem commit_lost : ¬ Lts.Always step (Complete 0) (start 0) lateCommit := by
  intro h
  obtain ⟨-, n, hn, hrestore⟩ := h lateCommit [] rfl
  have hcommits : [1] = List.range n := congrArg (fun r => (r.map Restored.commits).getD []) hrestore
  have hlength := congrArg List.length hcommits
  rw [List.length_range] at hlength
  subst hlength
  cases hcommits

end BackupState

end ActantDb
