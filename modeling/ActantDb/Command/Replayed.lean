import ActantDb.Command.Idempotency
import ActantDb.Ledger.KeyOrder

/-!
# What a replay answers for

A dispatch that finds its key recorded is answered without being run. The record names the command type and the hash of the input it was made for, but the lookup reads the workspace, the key and the command only, so another request under the same key is answered for as well. Every record is made by a dispatch that has succeeded, as the last thing it does, so a replay names a dispatch of that workspace and key that has, and when each lookup that finds a record finds one for its own request, also one of the same type and input.
-/

namespace ActantDb

open Prog

/-- `sha256_hex(canonical_json(&input).as_bytes())`. -/
def Call.inputHash (X : Crates) (c : Call) : String := sha256Hex X (asBytes (canonicalJson X c.input))

/-- `json!({"idempotent_replay": true})`. -/
def replayMark : Value := .ofFields [("idempotent_replay", .bool true)]

/-- What a replay answers. -/
def replayOutcome (prior : CommandId) : CommandOutcome :=
  { commandId := prior, eventId := none, result := replayMark }

/-- How far a dispatch is with its key. -/
inductive KeyProgress where
  | opening
  | replayed (prior : CommandId)
  | running
  | recorded (r : IdempotencyRecord)
deriving DecidableEq

def KeyProgress.start (c : Call) : KeyProgress := if c.idempotencyKey.isSome then .opening else .running

def KeyProgress.after : KeyProgress → (o : Op) → o.Res → KeyProgress
  | .opening, .sql (.idempotencyLookup _ _), .ok none => .running
  | .opening, .sql (.idempotencyLookup _ _), .ok (some prior) => .replayed prior
  | .running, .sql (.idempotencyRecord r), _ => .recorded r
  | progress, _, _ => progress

/-- The record is about the call. -/
structure RecordOf (X : Crates) (c : Call) (r : IdempotencyRecord) : Prop where
  workspace : r.workspaceId = c.workspaceId
  key : c.idempotencyKey = some r.idempotencyKey
  commandType : r.commandType = c.commandType
  inputHash : r.inputHash = c.inputHash X

/-- A dispatch looks up its own key, and records it last, for its own request. -/
def replayMonitor (X : Crates) : Monitor Op Op.Res (Call × KeyProgress) where
  allowed
    | (c, .opening), .sql (.idempotencyLookup ws key) => ws = c.workspaceId ∧ c.idempotencyKey = some key
    | (_, .opening), o => o.Registers
    | (c, .running), .sql (.idempotencyRecord r) => RecordOf X c r
    | (_, .running), _ => True
    | (_, .replayed _), _ => False
    | (_, .recorded _), _ => False
  next l o r := (l.1, l.2.after o r)

/-- How a dispatch ends. -/
def KeyEnd (X : Crates) (l : Call × KeyProgress) (r : Except ActantError CommandOutcome) : Prop :=
  match l.2 with
  | .opening => ∀ outcome, r ≠ .ok outcome
  | .replayed prior => r = .ok (replayOutcome prior)
  | .running => ∀ outcome, r = .ok outcome → outcome.result ≠ replayMark
  | .recorded record => RecordOf X l.1 record ∧
      ∃ outcome, r = .ok outcome ∧ record.resultRef = some outcome.commandId ∧ outcome.result ≠ replayMark

/-! ### The commands -/

section Ends

variable {L : Type} {M : Monitor Op Op.Res L} {K : L → Prop} {α β : Type}

/-- The program keeps `K`, and what it returns satisfies `Q`. -/
structure Ends (M : Monitor Op Op.Res L) (K : L → Prop) (Q : α → Prop) (p : Action α) : Prop where
  safe : ∀ l, K l → Safe M (fun l r => K l ∧ ∀ a, r = .ok a → Q a) l p

end Ends

section Commands

variable {L : Type} {M : Monitor Op Op.Res L} {K : L → Prop} {X : Crates}

variable (h : ∀ l o, o.writes ≠ some .idempotencyRecord → K l → M.allowed l o ∧ ∀ r, K (M.next l o r))

include h

end Commands

/-! ### One dispatch -/

variable {X : Crates}

variable {ws : WorkspaceId} {key : String}

/-- A row of the key table was there before, or is the one recorded. -/
theorem mem_idempotencyRecord_handle (E : Env) (o : Op) {w : World} {r : IdempotencyRecord}
    (h : r ∈ (handle E o w).2.db.idempotencyRecord) :
    r ∈ w.db.idempotencyRecord ∨ o = .sql (.idempotencyRecord r) := by
  rcases idempotencyRecord_handle E o w with hsame | ⟨new, rfl, hins⟩
  · exact Or.inl (hsame ▸ h)
  · rcases (Table.mem_insert? hins).mp h with hold | rfl
    · exact Or.inl hold
    · exact Or.inr rfl

/-- No row of the key table is lost. -/
theorem idempotencyRecord_kept (E : Env) (o : Op) {w : World} {r : IdempotencyRecord}
    (h : r ∈ w.db.idempotencyRecord) : r ∈ (handle E o w).2.db.idempotencyRecord := by
  rcases idempotencyRecord_handle E o w with hsame | ⟨new, -, hins⟩
  · rwa [hsame]
  · exact (Table.mem_insert? hins).mpr (Or.inl h)

/-- A lookup that answers with a command has read the row that names it. -/
theorem lookup_row {E : Env} {w : World} {prior : CommandId}
    (h : (handle E (.sql (.idempotencyLookup ws key)) w).1 = .ok (some prior)) :
    E.fault w.statements = false ∧
      ∃ r, w.db.idempotencyRecord.find? (ws, key) = some r ∧ r.resultRef = some prior := by
  obtain ⟨hfault, hrow⟩ := lookup_answered h
  exact ⟨hfault, Option.bind_eq_some_iff.mp hrow⟩

/-! ### Histories -/

variable {ι : Type} [DecidableEq ι]

/-- The workspace and the key that a lookup is for. -/
def Op.lookup? : Op → Option (WorkspaceId × String)
  | .sql (.idempotencyLookup ws key) => some (ws, key)
  | _ => none

/-- What is asked of a step: a lookup that finds its key recorded finds the type and the input hash of its own request. -/
def FindsOwnRequest (X : Crates) (E : Env) (calls : ι → Call) (s : DispatchPool ι) (i : ι) : Prop :=
  ∀ key ∈ (s.next? i).bind Op.lookup?,
    E.fault s.world.statements = true ∨ ∀ r ∈ s.world.db.idempotencyRecord.find? key,
      r.commandType = (calls i).commandType ∧ r.inputHash = (calls i).inputHash X

instance (X : Crates) (E : Env) (calls : ι → Call) (s : DispatchPool ι) (i : ι) :
    Decidable (FindsOwnRequest X E calls s i) :=
  inferInstanceAs (Decidable (∀ key ∈ (s.next? i).bind Op.lookup?, _))

variable {E : Env} {calls : ι → Call} {s : DispatchPool ι} {i j : ι}

/-- How far dispatch `i` is with its key. -/
def keyProgress (X : Crates) (calls : ι → Call) (s : DispatchPool ι) (i : ι) : KeyProgress :=
  (Pool.summary (replayMonitor X) (calls i, KeyProgress.start (calls i)) i s.trace).2

theorem summary_keyProgress :
    Pool.summary (replayMonitor X) (calls i, KeyProgress.start (calls i)) i s.trace =
      (calls i, keyProgress X calls s i) := by
  rw [keyProgress]
  generalize s.trace = trace
  induction trace using List.reverseRecOn with
  | nil => rfl
  | append_singleton trace a ih =>
    rw [Pool.summary_append]
    split
    · rw [ih]
      rfl
    · exact ih

/-- Every row has the dispatch that recorded it, and every replay the row it has read. -/
structure KeysAccounted (X : Crates) (calls : ι → Call) (s : DispatchPool ι) : Prop where
  safe : Pool.AllSafe (replayMonitor X) (KeyEnd X) (fun i => (calls i, KeyProgress.start (calls i))) s
  rows : ∀ r ∈ s.world.db.idempotencyRecord, ∃ k, keyProgress X calls s k = .recorded r
  replays : ∀ i prior, keyProgress X calls s i = .replayed prior →
    ∃ r ∈ s.world.db.idempotencyRecord, RecordOf X (calls i) r ∧ r.resultRef = some prior

theorem KeysAccounted.safe_thread (h : KeysAccounted X calls s) (i : ι) :
    Safe (replayMonitor X) (KeyEnd X) (calls i, keyProgress X calls s i) (s.thread i) := by
  rw [← summary_keyProgress]
  exact h.safe i

/-- A dispatch that has recorded its key has succeeded. -/
theorem KeysAccounted.recorded (h : KeysAccounted X calls s) {r : IdempotencyRecord}
    (hrecorded : keyProgress X calls s i = .recorded r) :
    RecordOf X (calls i) r ∧ ∃ outcome, s.thread i = .done (.ok outcome) ∧
      r.resultRef = some outcome.commandId ∧ outcome.result ≠ replayMark := by
  have hsafe := h.safe_thread i
  rw [hrecorded] at hsafe
  cases hthread : s.thread i with
  | call o next =>
    rw [hthread] at hsafe
    exact hsafe.1.elim
  | done answer =>
    rw [hthread] at hsafe
    obtain ⟨hof, outcome, rfl, hrest⟩ := hsafe
    exact ⟨hof, outcome, rfl, hrest⟩

/-- Only a lookup that answers with a command makes a replay. -/
theorem after_handle_replayed {progress : KeyProgress} {o : Op} {w : World} {prior : CommandId}
    (h : progress.after o (handle E o w).1 = .replayed prior) :
    progress = .replayed prior ∨ progress = .opening ∧ ∃ ws key, o = .sql (.idempotencyLookup ws key) ∧
      (handle E (.sql (.idempotencyLookup ws key)) w).1 = .ok (some prior) := by
  cases progress with
  | replayed earlier => exact Or.inl h
  | recorded r => cases h
  | running =>
    cases o with
    | now => cases h
    | ulid => cases h
    | sql s => cases s <;> cases h
  | opening =>
    cases o with
    | now => cases h
    | ulid => cases h
    | sql s =>
      cases s
      case idempotencyLookup ws key =>
        refine Or.inr ⟨rfl, ws, key, rfl, ?_⟩
        cases hanswer : (handle E (.sql (.idempotencyLookup ws key)) w).1 with
        | error e =>
          rw [hanswer] at h
          cases h
        | ok found =>
          rw [hanswer] at h
          cases found with
          | none => cases h
          | some prior' =>
            cases h
            rfl
      all_goals cases h

section Call

variable {o : Op} {next : o.Res → Action CommandOutcome} (hcall : s.thread i = .call o next)

include hcall

theorem keyProgress_step : keyProgress X calls (Pool.step (handle E) s i) j =
    if i = j then (keyProgress X calls s j).after o (handle E o s.world).1 else keyProgress X calls s j := by
  rw [keyProgress, Pool.step_call hcall, Pool.summary_append]
  split
  · rfl
  · rfl

theorem KeysAccounted.allowed (h : KeysAccounted X calls s) :
    (replayMonitor X).allowed (calls i, keyProgress X calls s i) o := by
  rw [← summary_keyProgress]
  exact Pool.AllSafe.allowed h.safe hcall

/-- A dispatch that makes a call has not recorded its key yet. -/
theorem KeysAccounted.not_recorded (h : KeysAccounted X calls s) {k : ι} {r : IdempotencyRecord}
    (hk : keyProgress X calls s k = .recorded r) : i ≠ k := by
  rintro rfl
  have hallowed := h.allowed hcall
  rw [hk] at hallowed
  exact hallowed

/-- The dispatch that records a row is past its lookup, and its record is made by that. -/
theorem KeysAccounted.recorded_step (h : KeysAccounted X calls s) {r : IdempotencyRecord}
    (ho : o = .sql (.idempotencyRecord r)) :
    keyProgress X calls (Pool.step (handle E) s i) i = .recorded r := by
  have hallowed := h.allowed hcall
  rw [keyProgress_step hcall, if_pos rfl]
  subst ho
  cases hprogress : keyProgress X calls s i with
  | running => rfl
  | opening =>
    rw [hprogress] at hallowed
    exact hallowed.elim
  | replayed prior =>
    rw [hprogress] at hallowed
    exact hallowed.elim
  | recorded r' =>
    rw [hprogress] at hallowed
    exact hallowed.elim

end Call

theorem KeysAccounted.rows_step (h : KeysAccounted X calls s) :
    ∀ r ∈ (Pool.step (handle E) s i).world.db.idempotencyRecord,
      ∃ k, keyProgress X calls (Pool.step (handle E) s i) k = .recorded r := by
  rcases Pool.step_cases (handle E) s i with ⟨answer, -, hsame⟩ | ⟨o, next, hcall, -, hstep⟩
  · rw [hsame]
    exact h.rows
  intro r hr
  have hworld : (Pool.step (handle E) s i).world = (handle E o s.world).2 := by rw [hstep]
  rw [hworld] at hr
  rcases mem_idempotencyRecord_handle E o hr with hold | ho
  · obtain ⟨k, hk⟩ := h.rows r hold
    refine ⟨k, ?_⟩
    rw [keyProgress_step hcall, if_neg (h.not_recorded hcall hk)]
    exact hk
  · exact ⟨i, h.recorded_step hcall ho⟩

theorem KeysAccounted.replays_step (h : KeysAccounted X calls s) (hfinds : FindsOwnRequest X E calls s i) (j : ι)
    (prior : CommandId) (hj : keyProgress X calls (Pool.step (handle E) s i) j = .replayed prior) :
    ∃ r ∈ (Pool.step (handle E) s i).world.db.idempotencyRecord,
      RecordOf X (calls j) r ∧ r.resultRef = some prior := by
  rcases Pool.step_cases (handle E) s i with ⟨answer, -, hsame⟩ | ⟨o, next, hcall, hnext, hstep⟩
  · rw [hsame] at hj ⊢
    exact h.replays j prior hj
  have hworld : (Pool.step (handle E) s i).world = (handle E o s.world).2 := by rw [hstep]
  rw [hworld]
  have hkept : keyProgress X calls s j = .replayed prior →
      ∃ r ∈ (handle E o s.world).2.db.idempotencyRecord, RecordOf X (calls j) r ∧ r.resultRef = some prior := by
    intro hold
    obtain ⟨r, hr, hrest⟩ := h.replays j prior hold
    exact ⟨r, idempotencyRecord_kept E o hr, hrest⟩
  rw [keyProgress_step hcall] at hj
  split at hj
  · next hij =>
    subst hij
    rcases after_handle_replayed hj with hold | ⟨hopening, ws, key, rfl, hanswer⟩
    · exact hkept hold
    -- the lookup has just found a row, which is of its own workspace and key
    obtain ⟨hfault, r, hfind, hprior⟩ := lookup_row hanswer
    have hallowed := h.allowed hcall
    rw [hopening] at hallowed
    obtain ⟨rfl, hkey⟩ := hallowed
    obtain ⟨hr, hrkey⟩ := Table.find?_eq_some.mp hfind
    rw [FindsOwnRequest, hnext] at hfinds
    obtain ⟨hcommandType, hinputHash⟩ := (hfinds (_, key) rfl).resolve_left (by simp [hfault]) r hfind
    rw [IdempotencyRecord.key, Prod.mk.injEq] at hrkey
    exact ⟨r, idempotencyRecord_kept E _ hr, ⟨hrkey.1, hrkey.2 ▸ hkey, hcommandType, hinputHash⟩, hprior⟩
  · exact hkept hj

theorem KeysAccounted.step (h : KeysAccounted X calls s) (hfinds : FindsOwnRequest X E calls s i) :
    KeysAccounted X calls (Pool.step (handle E) s i) :=
  ⟨Pool.allSafe_step h.safe i, h.rows_step, h.replays_step hfinds⟩

end ActantDb
