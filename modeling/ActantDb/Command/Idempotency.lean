import Mathlib.Data.Fintype.Basic
import ActantDb.Command.Failure
import ActantDb.Command.Shape

/-!
# One key, many dispatches

The lookup of an idempotency key, the command and the recording of the key are separate statements, and the outcome of the recording is dropped. So a second dispatch with the key may look it up before the first has recorded it, after the recording was refused, or after the first has failed with a change left behind; in each case it runs its command too. Those are the only ways: a run in which a lookup misses only when every other dispatch that has missed it too has failed without a change applies the key at most once, and after a success not again (`key_applied_once`).
-/

namespace ActantDb

open Prog

variable {ι : Type} [DecidableEq ι]

/-! ### What a dispatch has done to the domain tables -/

/-- The dispatches, and which of them have changed a domain table so far. -/
structure Observed (ι : Type) where
  pool : DispatchPool ι
  changed : ι → Bool

/-- Every dispatch at its start. -/
def Observed.start (X : Crates) (policy : PolicyDoc) (w : World) (calls : ι → Call) : Observed ι :=
  ⟨Pool.init w fun i => dispatch X policy (calls i), fun _ => false⟩

def Observed.step (E : Env) (s : Observed ι) (i : ι) : Observed ι where
  pool := Pool.step (handle E) s.pool i
  changed :=
    if s.pool.world.db.SameDomain (Pool.step (handle E) s.pool i).world.db then s.changed
    else Function.update s.changed i true

/-- How far a dispatch is: before its lookup is answered, past one that missed, or replayed. -/
inductive Phase where
  | opening | missed | replayed
deriving DecidableEq

def Phase.after : Phase → (o : Op) → o.Res → Phase
  | .opening, .sql (.idempotencyLookup _ _), .ok none => .missed
  | .opening, .sql (.idempotencyLookup _ _), .ok (some _) => .replayed
  | phase, _, _ => phase

/-- Before its lookup is answered a dispatch only registers, and after a replay it does nothing. -/
def keyMonitor (ws : WorkspaceId) (key : String) : Monitor Op Op.Res Phase where
  allowed
    | .opening, .sql (.idempotencyLookup ws' key') => ws' = ws ∧ key' = key
    | .opening, o => o.Registers
    | .missed, _ => True
    | .replayed, _ => False
  next := Phase.after

/-- The phase dispatch `i` has reached. -/
def Observed.phase (s : Observed ι) (i : ι) : Phase :=
  Pool.summary (⟨fun _ _ => True, Phase.after⟩ : Monitor Op Op.Res Phase) .opening i s.pool.trace

/-- The dispatch has ended in an error and has changed nothing. -/
def Observed.harmless (s : Observed ι) (i : ι) : Bool :=
  (s.pool.thread i).failed && !s.changed i

/-- The key is recorded with the command that had it. -/
def Db.recorded (db : Db) (ws : WorkspaceId) (key : String) : Bool :=
  ((db.idempotencyRecord.find? (ws, key)).bind (·.resultRef)).isSome

/-- What is asked of a step: a lookup that misses comes when every other dispatch that has missed has failed without a change. -/
def MissesAlone (E : Env) (s : Observed ι) (i : ι) : Prop :=
  match s.pool.next? i with
  | some (.sql (.idempotencyLookup ws key)) =>
    E.fault s.pool.world.statements = true ∨ s.pool.world.db.recorded ws key = true ∨
      ∀ j, j ≠ i → s.phase j = .missed → s.harmless j = true
  | _ => True

instance [Fintype ι] (E : Env) (s : Observed ι) (i : ι) : Decidable (MissesAlone E s i) := by
  unfold MissesAlone
  split <;> infer_instance

/-! ### What one dispatch does -/

/-- A dispatch that ends well has had its lookup answered. -/
def PastLookup (phase : Phase) (r : Except ActantError CommandOutcome) : Prop :=
  r.isOk = true → phase ≠ .opening

variable {X : Crates} {policy : PolicyDoc} {ws : WorkspaceId} {key : String}

theorem dispatch_phases {c : Call} (hws : c.workspaceId = ws) (hkey : c.idempotencyKey = some key) :
    Safe (keyMonitor ws key) PastLookup .opening (dispatch X policy c) := by
  have hregister : Steady (keyMonitor ws key) (· = .opening) (register c) := by
    refine register_steady (fun l o ho hl => ?_) c
    subst hl
    cases o with
    | now => exact ⟨ho, fun _ => rfl⟩
    | ulid => exact ho.elim
    | sql s => cases s <;> first | exact ho.elim | exact ⟨ho, fun _ => rfl⟩
  have hrest : ∀ p : Action CommandOutcome, Safe (keyMonitor ws key) PastLookup .missed p := by
    intro p
    have hsteady : Steady (keyMonitor ws key) (· = .missed) p :=
      steady_of_forall (fun l o hl => by subst hl; exact ⟨trivial, fun _ => rfl⟩) p
    apply (hsteady.safe .missed rfl).mono
    intro l r hl _
    rw [hl]
    decide
  refine safe_bind ((hregister.safe .opening rfl).mono fun l r hl => ?_)
  subst hl
  cases r with
  | error e => exact fun hok => by cases hok
  | ok _ =>
    have hlookup : lookupKey c = execute (.idempotencyLookup ws key) := by
      rw [lookupKey, hkey, hws]
    apply safe_bind
    rw [hlookup]
    refine ⟨⟨rfl, rfl⟩, fun answer => ?_⟩
    cases answer with
    | error e => exact fun hok => by cases hok
    | ok prior =>
      cases prior with
      | none => exact hrest _
      | some prior => exact fun _ => by simp [keyMonitor, Phase.after]

/-- The key table changes by the recording of a new key only. -/
theorem idempotencyRecord_handle (E : Env) (o : Op) (w : World) :
    (handle E o w).2.db.idempotencyRecord = w.db.idempotencyRecord ∨
      ∃ r, o = .sql (.idempotencyRecord r) ∧
        w.db.idempotencyRecord.insert? r = some (handle E o w).2.db.idempotencyRecord := by
  rcases handle_cases E o w with hsame | ⟨s, reply, db', rfl, -, hexec, hdb⟩
  · exact Or.inl (by rw [hsame])
  rw [hdb]
  by_cases hs : s.writes = some .idempotencyRecord
  · cases s <;> simp only [Sql.writes, reduceCtorEq, Option.some.injEq] at hs
    simp only [Sql.exec] at hexec
    split at hexec
    · cases hexec
      exact Or.inl rfl
    · obtain ⟨t, hok, hdb'⟩ := map_eq_ok.mp hexec
      cases hdb'
      exact Or.inr ⟨_, rfl, (insertRow_eq_ok.mp hok).2⟩
  · exact Or.inl ((Sql.exec_frame hexec).idempotencyRecord hs)

theorem recorded_handle (E : Env) (o : Op) {w : World} (h : w.db.recorded ws key = true) :
    (handle E o w).2.db.recorded ws key = true := by
  rcases idempotencyRecord_handle E o w with hsame | ⟨r, -, hins⟩
  · rwa [Db.recorded, hsame]
  rw [Db.recorded] at h ⊢
  cases hfind : w.db.idempotencyRecord.find? (ws, key) with
  | none =>
    rw [hfind] at h
    cases h
  | some found =>
    rw [hfind] at h
    rw [Table.find?_insert? hins hfind]
    exact h

/-- An answered lookup did not fault, and its answer is the command in the row of its key. -/
theorem lookup_answered {E : Env} {w : World} {answer : Option CommandId}
    (h : (handle E (.sql (.idempotencyLookup ws key)) w).1 = .ok answer) :
    E.fault w.statements = false ∧
      (w.db.idempotencyRecord.find? (ws, key)).bind (·.resultRef) = answer := by
  obtain ⟨⟨err, hanswer⟩, -, -⟩ | ⟨reply, db', hfault, hexec, hanswer, -⟩ :=
    handle_sql E (.idempotencyLookup ws key) w
  · rw [hanswer] at h
    cases h
  · rw [hanswer] at h
    cases h
    simp only [Sql.exec, Except.ok.injEq, Prod.mk.injEq] at hexec
    exact ⟨hfault, hexec.1⟩

theorem lookup_hit {E : Env} {w : World} {prior : CommandId}
    (h : (handle E (.sql (.idempotencyLookup ws key)) w).1 = .ok (some prior)) :
    w.db.recorded ws key = true := by
  rw [Db.recorded, (lookup_answered h).2]
  rfl

theorem lookup_missed {E : Env} {w : World}
    (h : (handle E (.sql (.idempotencyLookup ws key)) w).1 = .ok none) :
    E.fault w.statements = false ∧ w.db.recorded ws key = false := by
  obtain ⟨hfault, hrow⟩ := lookup_answered h
  refine ⟨hfault, ?_⟩
  rw [Db.recorded, hrow]
  rfl

@[simp] theorem after_missed (o : Op) (r : o.Res) : Phase.after .missed o r = .missed := rfl

@[simp] theorem after_replayed (o : Op) (r : o.Res) : Phase.after .replayed o r = .replayed := rfl

/-- A phase is left by an answered lookup. -/
theorem after_handle (phase : Phase) (E : Env) (o : Op) (w : World) :
    phase.after o (handle E o w).1 = phase ∨
      ∃ ws key, o = .sql (.idempotencyLookup ws key) ∧ phase = .opening ∧
        (((handle E (.sql (.idempotencyLookup ws key)) w).1 = .ok none ∧
            phase.after o (handle E o w).1 = .missed) ∨
          ∃ prior, (handle E (.sql (.idempotencyLookup ws key)) w).1 = .ok (some prior) ∧
            phase.after o (handle E o w).1 = .replayed) := by
  cases phase with
  | missed => exact Or.inl rfl
  | replayed => exact Or.inl rfl
  | opening =>
    cases o with
    | now => exact Or.inl rfl
    | ulid => exact Or.inl rfl
    | sql s =>
      cases s
      case idempotencyLookup ws key =>
        cases hanswer : (handle E (.sql (.idempotencyLookup ws key)) w).1 with
        | error e => exact Or.inl rfl
        | ok reply =>
          refine Or.inr ⟨ws, key, rfl, rfl, ?_⟩
          cases reply with
          | none => exact Or.inl ⟨hanswer, rfl⟩
          | some prior => exact Or.inr ⟨prior, hanswer, rfl⟩
      all_goals exact Or.inl rfl

/-! ### Runs -/

variable {E : Env} {s : Observed ι} {i j : ι}

theorem step_of_done {r : Except ActantError CommandOutcome} (h : s.pool.thread i = .done r) :
    s.step E i = s := by
  have hpool : Pool.step (handle E) s.pool i = s.pool := Pool.step_done h
  rw [Observed.step, hpool, if_pos (Db.SameDomain.refl _)]

section Call

variable {o : Op} {next : o.Res → Action CommandOutcome} (h : s.pool.thread i = .call o next)

include h

theorem world_step : (s.step E i).pool.world = (handle E o s.pool.world).2 := by
  rw [Observed.step, Pool.step_call h]

theorem phase_step : (s.step E i).phase j =
    if i = j then (s.phase j).after o (handle E o s.pool.world).1 else s.phase j := by
  rw [Observed.phase, Observed.step, Pool.step_call h, Pool.summary_append]
  rfl

theorem thread_step (hj : j ≠ i) : (s.step E i).pool.thread j = s.pool.thread j := by
  rw [Observed.step, Pool.step_call h]
  exact Function.update_of_ne hj _ _

omit h in
theorem changed_step (hj : j ≠ i) : (s.step E i).changed j = s.changed j := by
  rw [Observed.step]
  dsimp only
  split
  · rfl
  · exact Function.update_of_ne hj _ _

end Call

theorem phase_step_missed (h : s.phase j = .missed) : (s.step E i).phase j = .missed := by
  rcases Pool.step_cases (handle E) s.pool i with ⟨r, hdone, -⟩ | ⟨o, next, hcall, -, -⟩
  · rwa [step_of_done hdone]
  · rw [phase_step hcall, h]
    split <;> rfl

/-- A dispatch that has failed without a change stays so. -/
theorem harmless_step (h : s.harmless j = true) : (s.step E i).harmless j = true := by
  rcases Pool.step_cases (handle E) s.pool i with ⟨r, hdone, -⟩ | ⟨o, next, hcall, -, -⟩
  · rwa [step_of_done hdone]
  · have hj : j ≠ i := by
      intro heq
      rw [Observed.harmless, heq, hcall] at h
      cases h
    rw [Observed.harmless, thread_step hcall hj, changed_step hj]
    exact h

/-- What holds of every state of a run whose lookups miss alone. -/
structure Keyed (ws : WorkspaceId) (key : String) (s : Observed ι) : Prop where
  safe : Pool.AllSafe (keyMonitor ws key) PastLookup (fun _ => .opening) s.pool
  changed : ∀ i, s.changed i = true → s.phase i = .missed
  replayed : ∀ i, s.phase i = .replayed → s.pool.world.db.recorded ws key = true
  alone : ∀ i j, i ≠ j → s.phase i = .missed → s.phase j = .missed →
    s.harmless i = true ∨ s.harmless j = true

theorem Keyed.allowed (h : Keyed ws key s) {o : Op} {next : o.Res → Action CommandOutcome}
    (hcall : s.pool.thread i = .call o next) : (keyMonitor ws key).allowed (s.phase i) o :=
  Pool.AllSafe.allowed h.safe hcall

/-- Only a dispatch whose lookup missed changes a domain table. -/
theorem sameDomain_of_not_missed {phase : Phase} {o : Op} {w : World}
    (hallowed : (keyMonitor ws key).allowed phase o) (hphase : phase ≠ .missed) :
    w.db.SameDomain (handle E o w).2.db := by
  apply (handle_frame E o w).sameDomain
  cases phase with
  | missed => exact absurd rfl hphase
  | replayed => exact hallowed.elim
  | opening =>
    cases o with
    | now => rfl
    | ulid => rfl
    | sql s =>
      cases s <;> first | rfl | exact hallowed.elim

theorem Keyed.changed_step_missed (h : Keyed ws key s) (hj : (s.step E i).changed j = true) :
    (s.step E i).phase j = .missed := by
  rcases Pool.step_cases (handle E) s.pool i with ⟨r, hdone, -⟩ | ⟨o, next, hcall, -, -⟩
  · rw [step_of_done hdone] at hj ⊢
    exact h.changed j hj
  · apply phase_step_missed
    by_contra hphase
    have hsame : (s.step E i).changed j = s.changed j := by
      by_cases hji : j = i
      · subst hji
        have hworld := world_step (E := E) hcall
        rw [Observed.step] at hworld ⊢
        dsimp only at hworld ⊢
        rw [hworld, if_pos (sameDomain_of_not_missed (h.allowed hcall) hphase)]
      · exact changed_step hji
    rw [hsame] at hj
    exact hphase (h.changed j hj)

/-- A dispatch that comes to miss finds every other one that has missed harmless. -/
theorem harmless_of_missing (hmisses : MissesAlone E s i) (hi : s.phase i ≠ .missed)
    (hi' : (s.step E i).phase i = .missed) (hj : j ≠ i) (hphase : s.phase j = .missed) :
    s.harmless j = true := by
  rcases Pool.step_cases (handle E) s.pool i with ⟨r, hdone, -⟩ | ⟨o, next, hcall, hnext, -⟩
  · rw [step_of_done hdone] at hi'
    exact absurd hi' hi
  · rw [phase_step hcall, if_pos rfl] at hi'
    obtain hsame | ⟨ws', key', rfl, -, ⟨hanswer, -⟩ | ⟨prior, -, hreplayed⟩⟩ :=
      after_handle (s.phase i) E o s.pool.world
    · rw [hsame] at hi'
      exact absurd hi' hi
    · obtain ⟨hfault, hrecorded⟩ := lookup_missed hanswer
      rw [MissesAlone, hnext] at hmisses
      rcases hmisses with h | h | h
      · rw [hfault] at h
        cases h
      · rw [hrecorded] at h
        cases h
      · exact h j hj hphase
    · rw [hreplayed] at hi'
      cases hi'

theorem phase_of_not_stepped (h : j ≠ i) : (s.step E i).phase j = s.phase j := by
  rcases Pool.step_cases (handle E) s.pool i with ⟨r, hdone, -⟩ | ⟨o, next, hcall, -, -⟩
  · rw [step_of_done hdone]
  · rw [phase_step hcall, if_neg (Ne.symm h)]

theorem Keyed.recorded_of_replayed (h : Keyed ws key s)
    (hj : (s.step E i).phase j = .replayed) :
    (s.step E i).pool.world.db.recorded ws key = true := by
  rcases Pool.step_cases (handle E) s.pool i with ⟨r, hdone, -⟩ | ⟨o, next, hcall, -, -⟩
  · rw [step_of_done hdone] at hj ⊢
    exact h.replayed j hj
  · rw [world_step hcall]
    apply recorded_handle E o
    rw [phase_step hcall] at hj
    split at hj
    · rename_i hij
      subst hij
      obtain hsame | ⟨ws', key', rfl, hopening, ⟨-, hmissed⟩ | ⟨prior, hanswer, -⟩⟩ :=
        after_handle (s.phase i) E o s.pool.world
      · rw [hsame] at hj
        exact h.replayed i hj
      · rw [hmissed] at hj
        cases hj
      · have hallowed := h.allowed hcall
        rw [hopening] at hallowed
        obtain ⟨rfl, rfl⟩ := hallowed
        exact lookup_hit hanswer
    · exact h.replayed j hj

theorem Keyed.step (h : Keyed ws key s) (hmisses : MissesAlone E s i) :
    Keyed ws key (s.step E i) := by
  refine ⟨Pool.allSafe_step h.safe i, fun j => h.changed_step_missed,
    fun j => h.recorded_of_replayed, fun a b hab ha hb => ?_⟩
  -- of two that have missed, one may only just have
  by_cases hmissed : s.phase a = .missed
  · by_cases hmissed' : s.phase b = .missed
    · exact (h.alone a b hab hmissed hmissed').imp harmless_step harmless_step
    · have hi : b = i := by
        by_contra hne
        rw [phase_of_not_stepped hne] at hb
        exact hmissed' hb
      subst hi
      exact Or.inl (harmless_step (harmless_of_missing hmisses hmissed' hb hab hmissed))
  · have hi : a = i := by
      by_contra hne
      rw [phase_of_not_stepped hne] at ha
      exact hmissed ha
    subst hi
    rw [phase_of_not_stepped hab.symm] at hb
    exact Or.inr (harmless_step (harmless_of_missing hmisses hmissed ha hab.symm hb))

/-- At most one dispatch has changed a domain table. -/
def AppliedOnce (s : Observed ι) : Prop :=
  ∀ i j, s.changed i = true → s.changed j = true → i = j

theorem Keyed.appliedOnce (h : Keyed ws key s) : AppliedOnce s := by
  intro i j hi hj
  by_contra hij
  rcases h.alone i j hij (h.changed i hi) (h.changed j hj) with hharmless | hharmless
  · rw [Observed.harmless, hi] at hharmless
    simp at hharmless
  · rw [Observed.harmless, hj] at hharmless
    simp at hharmless

/-- After dispatch `k` has succeeded, dispatch `j` cannot miss any more. -/
structure TooLate (ws : WorkspaceId) (key : String) (k j : ι) (s : Observed ι) : Prop where
  cause : s.pool.world.db.recorded ws key = true ∨
    s.phase k = .missed ∧ (s.pool.thread k).returned = true
  late : s.phase j ≠ .missed

theorem Keyed.tooLate_step {k : ι} (h : Keyed ws key s) (hkj : k ≠ j) (hlate : TooLate ws key k j s)
    (hmisses : MissesAlone E s i) : TooLate ws key k j (s.step E i) := by
  rcases Pool.step_cases (handle E) s.pool i with ⟨r, hdone, -⟩ | ⟨o, next, hcall, -, -⟩
  · rwa [step_of_done hdone]
  constructor
  · rcases hlate.cause with hrecorded | ⟨hmissed, hreturned⟩
    · apply Or.inl
      rw [world_step hcall]
      exact recorded_handle E o hrecorded
    · have hki : k ≠ i := by
        intro heq
        rw [heq, hcall] at hreturned
        cases hreturned
      rw [thread_step hcall hki]
      exact Or.inr ⟨phase_step_missed hmissed, hreturned⟩
  · intro hmissed
    have hji : j = i := by
      by_contra hne
      rw [phase_of_not_stepped hne] at hmissed
      exact hlate.late hmissed
    subst hji
    rcases hlate.cause with hrecorded | ⟨hmissedk, hreturned⟩
    · rw [phase_step hcall, if_pos rfl] at hmissed
      obtain hsame | ⟨ws', key', rfl, hopening, ⟨hanswer, -⟩ | ⟨prior, -, hreplayed⟩⟩ :=
        after_handle (s.phase j) E o s.pool.world
      · rw [hsame] at hmissed
        exact hlate.late hmissed
      · have hallowed := h.allowed hcall
        rw [hopening] at hallowed
        obtain ⟨rfl, rfl⟩ := hallowed
        rw [(lookup_missed hanswer).2] at hrecorded
        cases hrecorded
      · rw [hreplayed] at hmissed
        cases hmissed
    · have hharmless := harmless_of_missing hmisses hlate.late hmissed hkj hmissedk
      rw [Observed.harmless, Bool.and_eq_true] at hharmless
      cases hthread : s.pool.thread k with
      | call o next =>
        rw [hthread] at hreturned
        cases hreturned
      | done r =>
        rw [hthread] at hreturned
        rw [hthread] at hharmless
        cases r with
        | ok outcome => cases hharmless.1
        | error e => cases hreturned

/-- A dispatch that has not made a call yet is before its lookup. -/
theorem phase_of_not_begun (h : ∀ a ∈ s.pool.trace, a.thread ≠ j) : s.phase j = .opening := by
  rw [Observed.phase]
  generalize s.pool.trace = trace at h
  induction trace using List.reverseRecOn with
  | nil => rfl
  | append_singleton trace a ih =>
    rw [Pool.summary_append, if_neg (h a (by simp))]
    exact ih fun b hb => h b (List.mem_append_left _ hb)

theorem Keyed.tooLate {k : ι} (h : Keyed ws key s) (hk : (s.pool.thread k).returned = true)
    (hj : ∀ a ∈ s.pool.trace, a.thread ≠ j) : k ≠ j ∧ TooLate ws key k j s := by
  have hopening := phase_of_not_begun hj
  have hpast : s.phase k ≠ .opening := by
    have hsafe : Safe (keyMonitor ws key) PastLookup (s.phase k) (s.pool.thread k) := h.safe k
    cases hthread : s.pool.thread k with
    | call o next =>
      rw [hthread] at hk
      cases hk
    | done r =>
      rw [hthread] at hk hsafe
      cases r with
      | ok outcome => exact hsafe rfl
      | error e => cases hk
  refine ⟨fun heq => hpast (heq ▸ hopening), ?_, by rw [hopening]; decide⟩
  cases hphase : s.phase k with
  | opening => exact absurd hphase hpast
  | missed => exact Or.inr ⟨rfl, hk⟩
  | replayed => exact Or.inl (h.replayed k hphase)

theorem keyed_start {calls : ι → Call} {w : World}
    (hcalls : ∀ i, (calls i).workspaceId = ws ∧ (calls i).idempotencyKey = some key) :
    Keyed ws key (Observed.start X policy w calls) := by
  refine ⟨fun i => dispatch_phases (hcalls i).1 (hcalls i).2, fun i hi => ?_, fun i hi => ?_,
    fun i j _ hi _ => ?_⟩
  · cases hi
  · cases hi
  · cases hi

/-- **A key is applied at most once, and after a success not again**, in a run in which a lookup misses only when every other dispatch that has missed has failed without a change. -/
theorem key_applied_once (X : Crates) (policy : PolicyDoc) (E : Env) (w : World)
    (calls : ι → Call) (ws : WorkspaceId) (key : String) (schedule : List ι)
    (hcalls : ∀ i, (calls i).workspaceId = ws ∧ (calls i).idempotencyKey = some key)
    (hmisses : Lts.EveryStep (Observed.step E) (MissesAlone E) (Observed.start X policy w calls)
      schedule) :
    Lts.Always (Observed.step E) AppliedOnce (Observed.start X policy w calls) schedule ∧
      ∀ pre mid post, schedule = pre ++ mid ++ post → ∀ k j,
        let succeeded := Lts.run (Observed.step E) (Observed.start X policy w calls) pre
        (succeeded.pool.thread k).returned = true →
          (∀ a ∈ succeeded.pool.trace, a.thread ≠ j) →
            (Lts.run (Observed.step E) succeeded mid).changed j = false := by
  have hstart : Keyed ws key (Observed.start X policy w calls) := keyed_start hcalls
  have hinv : ∀ s : Observed ι, ∀ i, Keyed ws key s → MissesAlone E s i → Keyed ws key (s.step E i) :=
    fun s i hs => hs.step
  constructor
  · intro pre post hsplit
    exact (Lts.always_of_invariant (Keyed ws key) hinv hstart hmisses pre post hsplit).appliedOnce
  · intro pre mid post hsplit k j succeeded hk hj
    rw [hsplit, List.append_assoc, Lts.everyStep_append, Lts.everyStep_append] at hmisses
    obtain ⟨hpre, hmid, -⟩ := hmisses
    have hsucceeded : Keyed ws key succeeded := Lts.run_invariant (Keyed ws key) hinv hstart hpre
    obtain ⟨hkj, hlate⟩ := hsucceeded.tooLate hk hj
    have hboth := Lts.run_invariant (fun s => Keyed ws key s ∧ TooLate ws key k j s)
      (fun s i hs hstep => ⟨hs.1.step hstep, hs.1.tooLate_step hkj hs.2 hstep⟩)
      ⟨hsucceeded, hlate⟩ hmid
    rw [← Bool.not_eq_true]
    exact fun hchanged => hboth.2.late (hboth.1.changed j hchanged)

/-- Two dispatches that propose a memory under one key. -/
def proposeTwice (_ : Bool) : Call :=
  { Call.sample "propose_memory" [("text", "the build needs node 20")] with
    idempotencyKey := some "key_demo" }

theorem key_applied_once_inTurn :
    Lts.Always (Observed.step .wholeSeconds) AppliedOnce
        (Observed.start Crates.sample alphaDemoPolicy (World.start .empty) proposeTwice)
        (List.replicate 20 true ++ List.replicate 8 false) ∧
      ∀ pre mid post, List.replicate 20 true ++ List.replicate 8 false = pre ++ mid ++ post → ∀ k j,
        let succeeded := Lts.run (Observed.step .wholeSeconds)
          (Observed.start Crates.sample alphaDemoPolicy (World.start .empty) proposeTwice) pre
        (succeeded.pool.thread k).returned = true →
          (∀ a ∈ succeeded.pool.trace, a.thread ≠ j) →
            (Lts.run (Observed.step .wholeSeconds) succeeded mid).changed j = false :=
  key_applied_once Crates.sample alphaDemoPolicy .wholeSeconds (World.start .empty) proposeTwice
    "ws_demo" "key_demo" _ (fun _ => ⟨rfl, rfl⟩) (by decide +kernel)

/-- Both dispatches look the key up before either has recorded it. -/
def bothMissed : Observed Bool :=
  Lts.run (Observed.step .wholeSeconds)
    (Observed.start Crates.sample alphaDemoPolicy (World.start .empty) proposeTwice)
    (List.replicate 7 true ++ List.replicate 20 false ++ List.replicate 13 true)

theorem bothMissed_applied_twice :
    World.Regular .wholeSeconds bothMissed.pool.world ∧ ¬ AppliedOnce bothMissed := by
  have hboth : bothMissed.changed true = true ∧ bothMissed.changed false = true := by
    decide +kernel
  refine ⟨by decide +kernel, fun honce => ?_⟩
  have heq := honce true false hboth.1 hboth.2
  cases heq

end ActantDb
