import ActantDb.Lib.Stable
import ActantDb.Workflow.Notified

/-!
# Waits that stick

What a wait has given is recorded nowhere. Every invocation works it out again: from the markers of waits and the notifications that its run lists, and from the clock. So it stays as it is while those rows come in the order of their ids, a wait keeps its first marker, the clock does not go back, and nothing is notified to a wait that has timed out (`waits_stick`).
-/

namespace ActantDb

open Prog Lts

variable {ι : Type} [DecidableEq ι]

/-- A row that waits look at. -/
def ActantEvent.bears (e : ActantEvent) : Bool := e.isEffect "wait" || e.isEffect "event"

/-- A row that the run lists. -/
def ActantEvent.listedFor (e : ActantEvent) (runId : String) : Bool := runId = "" || e.runId = runId

/-- What the ledger lists for a run. -/
def WorkflowWorld.listing (w : WorkflowWorld) (runId : String) : List ActantEvent :=
  w.ledger.select { runId := some runId }

/-- The wait has come out, by an event or by its timeout. -/
def StepOutcome.isFinal : StepOutcome → Bool
  | .value _ | .timedOut => true
  | .threw _ => false

/-! ### What a call has read -/

structure Vigil where
  runId : String
  history : Option (List ActantEvent)
  -- the payload of the marker that the call has filed last
  placed : Option JsValue
  readings : List Nat

namespace Vigil

def start : Vigil := ⟨"", none, none, []⟩

variable (l : Vigil)

def read (events : List ActantEvent) : Vigil :=
  match l.history with
  | none => { l with history := some events }
  | some _ => l

def place (input : AppendInput) : Vigil :=
  if input.kind = .effectObserved ∧ input.runId = l.runId then { l with placed := some input.payload } else l

def next : (o : WorkflowOp) → o.Res → Vigil
  | .append _ input, .ok _ => l.place input
  | .query filter, .ok events => if filter.limit = none then l.read events else l
  | .now _ _, now => { l with readings := now :: l.readings }
  | .observe (.invoked runId), _ => { l with runId := runId }
  | _, _ => l

/-- A timeout was read off a marker, of the history or the call's own; a wait that suspends has found the deadline of its marker still to come. -/
def Explains : Step → StepOutcome → Prop
  | .waitForEvent name eventId _, outcome =>
    ∃ history, l.history = some history ∧ outcome.Answers (shownIn history name eventId) ∧
      match outcome with
      | .timedOut => ∃ marker, ∃ now ∈ l.readings, reached now (marker.get "timeoutAt") = true ∧
          (findEffect history "wait" name = some marker ∨
            l.placed = some marker ∧ ∃ timeoutAt, marker = waitMarker name eventId timeoutAt)
      | .threw (.suspended _ _ _ _) => ∀ marker, findEffect history "wait" name = some marker →
          (marker.get "timeoutAt").isUndefined = true ∨
            ∃ now ∈ l.readings, reached now (marker.get "timeoutAt") = false
      | _ => True
  | _, _ => True

def allowed : WorkflowOp → Prop
  | .query filter => filter.limit = none → filter = { runId := some l.runId }
  | .observe (.invoked _) => l = .start
  | .observe (.settled runId step outcome) => runId = l.runId ∧ l.Explains step outcome
  | _ => True

end Vigil

structure StickyPool (ι : Type) where
  pool : WorkflowPool ι
  beganAt : ι → List Observation

namespace StickyPool

def start (X : JsLibrary) (calls : ι → WorkflowCall) : StickyPool ι := ⟨WorkflowPool.start X calls, fun _ => []⟩

def step (E : WorkflowEnv) (s : StickyPool ι) (i : ι) : StickyPool ι where
  pool := s.pool.step E i
  beganAt :=
    match s.pool.next? i with
    | some (.observe (.invoked _)) => Function.update s.beganAt i s.pool.world.log
    | _ => s.beganAt

end StickyPool

/-- The step files a row. -/
def StickyPool.Files (E : WorkflowEnv) (s : StickyPool ι) (i : ι) (e : ActantEvent) : Prop :=
  (s.step E i).pool.world.rows = s.pool.world.rows ++ [e]

/-- What is asked of a step. -/
structure WaitsKept (E : WorkflowEnv) (s : StickyPool ι) (i : ι) : Prop where
  -- rows that waits look at are filed in the order of their ids
  ordered : ∀ e, s.Files E i e → e.bears = true → ∀ e' ∈ s.pool.world.rows, e'.bears = true → e'.id ≤ e.id
  -- a wait has one marker
  marked : ∀ e name, s.Files E i e → e.marks "wait" name = true →
    ∀ runId, e.listedFor runId = true → (s.pool.world.listing runId).any (·.marks "wait" name) = false
  -- a wait that has timed out is notified of nothing
  unnotified : ∀ e eventId, s.Files E i e → e.notifies eventId = true →
    ∀ runId name timeout, e.listedFor runId = true →
      Observation.settled runId (.waitForEvent name eventId timeout) .timedOut ∉ s.pool.world.log
  -- and had been notified of nothing
  unanswered : ∀ runId name eventId timeout,
    s.pool.next? i = some (.observe (.settled runId (.waitForEvent name eventId timeout) .timedOut)) →
    shownIn (s.pool.world.listing runId) name eventId = none
  -- the clock does not go back
  forward : ∀ runId key, s.pool.next? i = some (.now runId key) → ∀ k < s.pool.world.ledger.readings,
    (F64.ofNat (E.ledger.now k)).le (.ofNat (E.ledger.now s.pool.world.ledger.readings)) = true

/-! ### The rows that waits look at -/

section Rows

variable {rows later : List ActantEvent} {name eventId : String}

theorem bears_of_marks {e : ActantEvent} (h : e.marks "wait" name = true) : e.bears = true := by
  rw [ActantEvent.marks, Bool.and_eq_true] at h
  rw [ActantEvent.bears, h.1, Bool.true_or]

theorem any_marks_of_findEffect {marker : JsValue} (h : findEffect rows "wait" name = some marker) :
    rows.any (·.marks "wait" name) = true := by
  rw [findEffect, Option.map_eq_some_iff] at h
  obtain ⟨e, hfind, -⟩ := h
  exact List.any_eq_true.mpr ⟨e, List.mem_of_find?_eq_some hfind, by simpa using List.find?_some hfind⟩

/-- The first marker stays the first. -/
theorem findEffect_append {marker : JsValue} (h : findEffect rows "wait" name = some marker) :
    findEffect (rows ++ later) "wait" name = some marker := by
  rw [findEffect, Option.map_eq_some_iff] at h ⊢
  obtain ⟨e, hfind, he⟩ := h
  exact ⟨e, by rw [List.find?_append, hfind]; rfl, he⟩

theorem findEffect_filter : findEffect (rows.filter (·.bears)) "wait" name = findEffect rows "wait" name := by
  rw [findEffect, findEffect, List.find?_filter]
  congr 2
  funext e
  cases hmarks : e.marks "wait" name with
  | true => simp [bears_of_marks hmarks]
  | false => simp

end Rows

/-! ### Every call keeps to the monitor -/

/-- What was read of the run. -/
def Vigil.Has (runId : String) (history : List ActantEvent) (l : Vigil) : Prop :=
  l.runId = runId ∧ l.history = some history

/-- The state of the runner has added to the history no notification, and no marker but of a wait that it has seen. -/
structure Retains (runId : String) (history : List ActantEvent) (s : RunnerState) : Prop where
  runId : s.runId = runId
  history : ∃ added, s.history = history ++ added ∧ ∀ e ∈ added, (∀ eventId, e.notifies eventId = false) ∧
    ∀ name, e.marks "wait" name = true → stepKey "wait" name ∈ s.seenNames

section Steps

variable {X : JsLibrary} {l : Vigil} {s : RunnerState} {runId key name eventId : String} {history : List ActantEvent}

theorem Vigil.Has.place (h : l.Has runId history) (input : AppendInput) : (l.place input).Has runId history := by
  rw [Vigil.place]
  split <;> exact h

theorem Retains.push (h : Retains runId history s) {e : ActantEvent} (hnotifies : ∀ eventId, e.notifies eventId = false)
    (hmarks : ∀ name, e.marks "wait" name = true → stepKey "wait" name ∈ s.seenNames) :
    Retains runId history { s with history := s.history ++ [e] } := by
  obtain ⟨added, hhistory, hadded⟩ := h.history
  refine ⟨h.runId, added ++ [e], by simp [hhistory], fun e' he' => ?_⟩
  rcases List.mem_append.mp he' with hin | hin
  · exact hadded e' hin
  · rw [List.mem_singleton.mp hin]
    exact ⟨hnotifies, hmarks⟩

theorem Retains.seen (h : Retains runId history s) (key : String) :
    Retains runId history { s with seenNames := key :: s.seenNames } := by
  obtain ⟨added, hhistory, hadded⟩ := h.history
  exact ⟨h.runId, added, hhistory, fun e he =>
    ⟨(hadded e he).1, fun name hmarks => List.mem_cons_of_mem _ ((hadded e he).2 name hmarks)⟩⟩

end Steps

section Invocations

variable {X : JsLibrary} {inv : Invocation} {runId : String} {history : List ActantEvent}

end Invocations

/-- The rows of the listing that waits look at. -/
def WorkflowWorld.docket (w : WorkflowWorld) (runId : String) : List ActantEvent :=
  (w.listing runId).filter (·.bears)

section Ledger

variable {E : WorkflowEnv} {w w' : WorkflowWorld} {o : WorkflowOp} {runId name eventId : String}

theorem findEffect_docket : findEffect (w.docket runId) "wait" name = findEffect (w.listing runId) "wait" name :=
  findEffect_filter

theorem listing_eq : w.listing runId = (w.rows.filter (·.listedFor runId)).insertionSort fun a b => a.id ≤ b.id := by
  have hselects : LedgerFilter.selects { runId := some runId } = fun e => e.listedFor runId := by
    funext e
    simp [LedgerFilter.selects, ActantEvent.listedFor]
  rw [WorkflowWorld.listing, Ledger.select, hselects]
  rfl

theorem docket_eq : w.docket runId =
    ((w.rows.filter (·.listedFor runId)).filter (·.bears)).insertionSort fun a b => a.id ≤ b.id := by
  have : IsTrans ActantEvent fun a b => a.id ≤ b.id := ⟨fun _ _ _ => String.le_trans⟩
  have : Std.Total fun a b : ActantEvent => a.id ≤ b.id := ⟨fun _ _ => String.le_total _ _⟩
  rw [WorkflowWorld.docket, listing_eq, Stable.filter_insertionSort]

theorem docket_congr (h : w'.rows = w.rows) : w'.docket runId = w.docket runId := by
  rw [docket_eq, docket_eq, h]

/-- A row that waits look at is filed last. -/
theorem docket_append {e : ActantEvent} (hrows : w'.rows = w.rows ++ [e])
    (hordered : e.bears = true → ∀ e' ∈ w.rows, e'.bears = true → e'.id ≤ e.id) (runId : String) :
    w'.docket runId = w.docket runId ++ [e].filter fun e => e.listedFor runId && e.bears := by
  rw [docket_eq, docket_eq, hrows, List.filter_append, List.filter_append, List.filter_filter]
  cases hbears : e.bears && e.listedFor runId with
  | false => simp [hbears, Bool.and_comm]
  | true =>
    rw [Bool.and_eq_true] at hbears
    simp only [List.filter_cons, hbears.1, hbears.2, Bool.and_self, if_true, List.filter_nil]
    refine Stable.insertionSort_append fun e' he' => ?_
    obtain ⟨hin, hboth⟩ := List.mem_filter.mp he'
    rw [Bool.and_eq_true] at hboth
    exact hordered hbears.1 e' hin hboth.1

@[simp] theorem insert_readings {E : LedgerEnv} {l : Ledger} (e : ActantEvent) :
    (l.insert E e).2.readings = l.readings := by
  simp only [Ledger.insert]
  split
  · rfl
  · split <;> rfl

@[simp] theorem lastChainHashForRun_readings {E : LedgerEnv} {l : Ledger} (runId : String) :
    (l.lastChainHashForRun E runId).2.readings = l.readings := by
  simp only [Ledger.lastChainHashForRun]
  split <;> rfl

@[simp] theorem append_readings {E : LedgerEnv} {l : Ledger} (process : Nat) (input : AppendInput) :
    (l.append E process input).2.readings = l.readings + 1 := by
  simp only [Ledger.append]
  cases canonicalJSON input.payload with
  | error e => rfl
  | ok payload =>
    dsimp only
    split
    · rfl
    · split
      · rw [lastChainHashForRun_readings]
        rfl
      · rw [insert_readings, lastChainHashForRun_readings]
        rfl

theorem handle_readings : w.ledger.readings ≤ (o.handle E w).2.ledger.readings := by
  cases o with
  | append process input => exact (append_readings process input).symm ▸ Nat.le_succ _
  | query filter =>
    simp only [WorkflowOp.handle, Ledger.query]
    split <;> exact Nat.le_refl _
  | ulid process => exact Nat.le_succ _
  | now runId key => exact Nat.le_succ _
  | run runId key => exact Nat.le_refl _
  | fetch runId key url init => exact Nat.le_refl _
  | setTimeout delay input => exact Nat.le_refl _
  | observe ob => exact Nat.le_refl _

theorem mem_handle_log {ob : Observation} (h : ob ∈ w.log) : ob ∈ (o.handle E w).2.log := by
  cases o with
  | run runId key => exact List.mem_append_left _ h
  | fetch runId key url init => exact List.mem_append_left _ h
  | observe ob => exact List.mem_append_left _ h
  | _ => exact h

/-- What a wait has come out with still stands in what the run lists. -/
def Stands (E : WorkflowEnv) (w : WorkflowWorld) (runId name eventId : String) : StepOutcome → Prop
  | .value v => ∃ n, shownIn (w.listing runId) name eventId = some n ∧ v = n.payload.get "data"
  | .timedOut => shownIn (w.listing runId) name eventId = none ∧
      ∃ marker, findEffect (w.listing runId) "wait" name = some marker ∧
        ∃ k < w.ledger.readings, reached (E.ledger.now k) (marker.get "timeoutAt") = true
  | .threw _ => True

/-- From one world to a later one: what waits look at only grows, and not for those that have timed out. -/
structure Onward (w w' : WorkflowWorld) : Prop where
  docket : ∀ runId, ∃ added, w'.docket runId = w.docket runId ++ added ∧
    ∀ e ∈ added, ∀ name eventId timeout, e.notifies eventId = true →
      Observation.settled runId (.waitForEvent name eventId timeout) .timedOut ∉ w.log
  readings : w.ledger.readings ≤ w'.ledger.readings
  log : ∀ o ∈ w.log, o ∈ w'.log

theorem any_marks_of_shownIn {rows : List ActantEvent} {n : ActantEvent} (h : shownIn rows name eventId = some n) :
    rows.any (·.marks "wait" name) = true := by
  rw [shownIn] at h
  split at h
  · assumption
  · cases h

theorem Onward.findEffect (h : Onward w w') {marker : JsValue}
    (hfound : findEffect (w.listing runId) "wait" name = some marker) :
    ActantDb.findEffect (w'.listing runId) "wait" name = some marker := by
  obtain ⟨added, hdocket, -⟩ := h.docket runId
  rw [← findEffect_docket] at hfound ⊢
  rw [hdocket]
  exact findEffect_append hfound

end Ledger

/-! ### All calls together -/

/-- Whatever a wait has come out with stands. -/
def AllStand (E : WorkflowEnv) (w : WorkflowWorld) : Prop :=
  ∀ runId name eventId timeout outcome,
    Observation.settled runId (.waitForEvent name eventId timeout) outcome ∈ w.log → outcome.isFinal = true →
    Stands E w runId name eventId outcome

/-- What a call has read is true of the ledger, and has what had been given when it began. -/
structure Informs (E : WorkflowEnv) (w : WorkflowWorld) (began : List Observation) (l : Vigil) : Prop where
  history : ∀ history, l.history = some history → ∃ later, w.docket l.runId = history.filter (·.bears) ++ later
  placed : ∀ name eventId timeoutAt, l.placed = some (waitMarker name eventId timeoutAt) →
    ∃ marker, findEffect (w.listing l.runId) "wait" name = some marker ∧
      ∀ now, reached now ((waitMarker name eventId timeoutAt).get "timeoutAt") = true →
        reached now (marker.get "timeoutAt") = true
  readings : ∀ now ∈ l.readings, ∃ k < w.ledger.readings, now = E.ledger.now k
  before : ∀ o ∈ began, o ∈ w.log
  given : ∀ name eventId timeout outcome,
    Observation.settled l.runId (.waitForEvent name eventId timeout) outcome ∈ began → outcome.isFinal = true →
    ∀ history, l.history = some history →
      outcome.Answers (shownIn history name eventId) ∧ history.any (·.marks "wait" name) = true
  late : ∀ name eventId timeout, Observation.settled l.runId (.waitForEvent name eventId timeout) .timedOut ∈ began →
    ∀ marker, findEffect (w.listing l.runId) "wait" name = some marker →
      ∀ now ∈ l.readings, reached now (marker.get "timeoutAt") = true

section Informs

variable {E : WorkflowEnv} {w w' : WorkflowWorld} {o : WorkflowOp} {began : List Observation} {l : Vigil}
  {runId name eventId : String}

theorem Stands.answers {outcome : StepOutcome} (h : Stands E w runId name eventId outcome)
    (hfinal : outcome.isFinal = true) :
    outcome.Answers (shownIn (w.listing runId) name eventId) ∧ (w.listing runId).any (·.marks "wait" name) = true := by
  cases outcome with
  | threw e => cases hfinal
  | value v =>
    obtain ⟨n, hshown, hv⟩ := h
    exact ⟨⟨n, hshown, hv⟩, any_marks_of_shownIn hshown⟩
  | timedOut =>
    obtain ⟨hshown, marker, hfound, -⟩ := h
    exact ⟨hshown, any_marks_of_findEffect hfound⟩

theorem Informs.onward (h : Informs E w began l) (hon : Onward w w') (hall : AllStand E w) :
    Informs E w' began l where
  history history hread := by
    obtain ⟨later, hdocket⟩ := h.history history hread
    obtain ⟨added, hgrown, -⟩ := hon.docket l.runId
    exact ⟨later ++ added, by rw [hgrown, hdocket, List.append_assoc]⟩
  placed name eventId timeoutAt hplaced := by
    obtain ⟨marker, hfound, hreached⟩ := h.placed name eventId timeoutAt hplaced
    exact ⟨marker, hon.findEffect hfound, hreached⟩
  readings now hnow := by
    obtain ⟨k, hk, hread⟩ := h.readings now hnow
    exact ⟨k, lt_of_lt_of_le hk hon.readings, hread⟩
  before o ho := hon.log o (h.before o ho)
  given := h.given
  late name eventId timeout hgiven marker hfound now hnow := by
    obtain ⟨-, marker', hfound', -⟩ := hall l.runId name eventId timeout .timedOut (h.before _ hgiven) rfl
    have hsame : marker = marker' := Option.some.inj (hfound.symm.trans (hon.findEffect hfound'))
    exact h.late name eventId timeout hgiven marker (hsame ▸ hfound') now hnow

theorem F64.le_printed (x y : F64) : x.printed.le y = x.le y := by
  rw [F64.printed]
  by_cases hzero : x.magnitude = 0
  · have hrank : x.rank = 0 := by
      rw [F64.rank, hzero]
      split <;> rfl
    have hnumber : x.isNaN = false := by
      rw [F64.isNaN, hzero]
      rfl
    rw [if_pos hzero, F64.le, F64.le, hrank, hnumber]
    rfl
  · rw [if_neg hzero]

/-- The row of a marker is a marker of the wait, and its deadline is the marker's. -/
theorem marker_row {e : ActantEvent} {timeoutAt : Option F64}
    (hpayload : canonicalJSON (waitMarker name eventId timeoutAt) = .ok e.payload) (hkind : e.kind = .effectObserved) :
    e.marks "wait" name = true ∧ ∀ now, reached now ((waitMarker name eventId timeoutAt).get "timeoutAt") = true →
      reached now (e.payload.get "timeoutAt") = true := by
  have hget : ∀ key, canonicalJSON ((waitMarker name eventId timeoutAt).get key) = .ok (e.payload.get key) :=
    get_canonicalJSON (by cases timeoutAt <;> simp) hpayload
  have hisWait : canonicalJSON (.string "wait") = .ok (e.payload.get "kind") := hget "kind"
  have hname : canonicalJSON (.string name) = .ok (e.payload.get "name") := hget "name"
  constructor
  · rw [ActantEvent.marks, ActantEvent.isEffect, hkind, ← Except.ok.inj hisWait, ← Except.ok.inj hname]
    simp [JsValue.isString]
  · intro now hreached
    have hdeadline := hget "timeoutAt"
    cases timeoutAt with
    | none => cases hreached
    | some deadline =>
      have hreached : deadline.le (.ofNat now) = true := hreached
      have hdeadline : Except.ok (if deadline.isFinite then JsValue.number deadline.printed else .null) =
        Except.ok (e.payload.get "timeoutAt") := hdeadline
      rw [← Except.ok.inj hdeadline]
      split
      · exact (F64.le_printed deadline _).trans hreached
      · rfl

/-- A marker that has been filed is the first of its wait. -/
theorem placed_filed {e : ActantEvent} {timeoutAt : Option F64} (hrows : w'.rows = w.rows ++ [e])
    (hordered : e.bears = true → ∀ e' ∈ w.rows, e'.bears = true → e'.id ≤ e.id)
    (hmarked : (w.listing runId).any (·.marks "wait" name) = false) (hrun : e.runId = runId)
    (hpayload : canonicalJSON (waitMarker name eventId timeoutAt) = .ok e.payload) (hkind : e.kind = .effectObserved) :
    ∃ marker, findEffect (w'.listing runId) "wait" name = some marker ∧
      ∀ now, reached now ((waitMarker name eventId timeoutAt).get "timeoutAt") = true →
        reached now (marker.get "timeoutAt") = true := by
  obtain ⟨hmarks, hreached⟩ := marker_row hpayload hkind
  refine ⟨e.payload, ?_, hreached⟩
  have hnone : (w.docket runId).find? (·.marks "wait" name) = none := by
    rw [List.find?_eq_none]
    intro e' he' hmarks'
    rw [List.any_eq_true.mpr ⟨e', List.mem_of_mem_filter he', hmarks'⟩] at hmarked
    cases hmarked
  have hlisted : e.listedFor runId = true := by
    simp [ActantEvent.listedFor, hrun]
  rw [← findEffect_docket, docket_append hrows hordered, findEffect, List.find?_append, hnone, Option.none_or]
  simp [hlisted, bears_of_marks hmarks, hmarks]

theorem reached_mono {now now' : Nat} {v : JsValue} (h : reached now v = true)
    (hle : (F64.ofNat now).le (.ofNat now') = true) : reached now' v = true := by
  cases v with
  | number deadline =>
    have h : deadline.le (.ofNat now) = true := h
    show deadline.le (.ofNat now') = true
    rw [F64.le, Bool.and_eq_true, Bool.and_eq_true, decide_eq_true_eq] at h hle ⊢
    exact ⟨⟨h.1.1, hle.1.2⟩, h.2.trans hle.2⟩
  | null => rfl
  | _ => cases h

/-- One operation of the call. -/
theorem Informs.next {began' : List Observation} (h : Informs E w began l) (hall : AllStand E w)
    (hallowed : l.allowed o) (hon : Onward w (o.handle E w).2)
    (hordered : ∀ e, (o.handle E w).2.rows = w.rows ++ [e] → e.bears = true →
      ∀ e' ∈ w.rows, e'.bears = true → e'.id ≤ e.id)
    (hmarked : ∀ e name, (o.handle E w).2.rows = w.rows ++ [e] → e.marks "wait" name = true →
      ∀ runId, e.listedFor runId = true → (w.listing runId).any (·.marks "wait" name) = false)
    (hinvoked : ∀ runId, o = .observe (.invoked runId) → began' = w.log)
    (hother : (∀ runId, o ≠ .observe (.invoked runId)) → began' = began)
    (hforward : ∀ runId key, o = .now runId key → ∀ k < w.ledger.readings,
      (F64.ofNat (E.ledger.now k)).le (.ofNat (E.ledger.now w.ledger.readings)) = true) :
    Informs E (o.handle E w).2 began' (l.next o (o.handle E w).1) := by
  have hsame : Informs E (o.handle E w).2 began l := h.onward hon hall
  cases o with
  | append process input =>
    obtain rfl := hother fun _ h => by cases h
    cases hr : (WorkflowOp.handle E (.append process input) w).1 with
    | error e => exact hsame
    | ok stamp =>
      show Informs E _ _ (l.place input)
      rw [Vigil.place]
      by_cases hplaces : input.kind = .effectObserved ∧ input.runId = l.runId
      · rw [if_pos hplaces]
        refine ⟨hsame.history, fun name eventId timeoutAt hplaced => ?_, hsame.readings, hsame.before, hsame.given,
          hsame.late⟩
        have hinput : input.payload = waitMarker name eventId timeoutAt := Option.some.inj hplaced
        rcases append_cases E.ledger process w.ledger input with ⟨⟨e, herror⟩, -⟩ | ⟨payload, hcanonical, -, -, -, hrows⟩
        · have hfails : (WorkflowOp.handle E (.append process input) w).1 = .error e := congrArg (Except.map _) herror
          rw [hr] at hfails
          cases hfails
        · rw [hinput] at hcanonical
          have hlisted : ActantEvent.listedFor (stored E.ledger w.ledger (w.ledger.nextId E.ledger process) input payload)
              l.runId = true := by
            simp [ActantEvent.listedFor, stored, hplaces.2]
          exact placed_filed hrows (hordered _ hrows)
            (hmarked _ name hrows (marker_row hcanonical hplaces.1).1 _ hlisted) hplaces.2 hcanonical hplaces.1
      · rw [if_neg hplaces]
        exact hsame
  | query filter =>
    obtain rfl := hother fun _ h => by cases h
    cases hr : (WorkflowOp.handle E (.query filter) w).1 with
    | error e => exact hsame
    | ok events =>
      obtain rfl : events = w.ledger.select filter := query_ok hr
      show Informs E _ _ (if filter.limit = none then l.read _ else l)
      by_cases hlimit : filter.limit = none
      · rw [if_pos hlimit, Vigil.read]
        cases hread : l.history with
        | some known => exact hsame
        | none =>
          have hfilter : filter = { runId := some l.runId } := hallowed hlimit
          subst hfilter
          refine ⟨fun history hhistory => ?_, hsame.placed, hsame.readings, hsame.before,
            fun name eventId timeout outcome hgiven hfinal history hhistory => ?_, hsame.late⟩
          · cases hhistory
            refine ⟨[], ?_⟩
            rw [docket_congr (congrArg Table.rows (query_events _)), List.append_nil]
            rfl
          · cases hhistory
            exact (hall l.runId name eventId timeout outcome (h.before _ hgiven) hfinal).answers hfinal
      · rw [if_neg hlimit]
        exact hsame
  | now runId key =>
    obtain rfl := hother fun _ h => by cases h
    refine ⟨hsame.history, hsame.placed, fun now hnow => ?_, hsame.before, hsame.given,
      fun name eventId timeout hgiven marker hfound now hnow => ?_⟩
    · rcases List.mem_cons.mp hnow with rfl | hin
      · exact ⟨w.ledger.readings, Nat.lt_succ_self _, rfl⟩
      · exact hsame.readings now hin
    · rcases List.mem_cons.mp hnow with rfl | hin
      · obtain ⟨-, marker', hfound', k, hk, hreached⟩ :=
          hall l.runId name eventId timeout .timedOut (h.before _ hgiven) rfl
        have hmarker : marker = marker' := Option.some.inj (hfound.symm.trans (hon.findEffect hfound'))
        rw [hmarker]
        exact reached_mono hreached (hforward runId key rfl k hk)
      · exact hsame.late name eventId timeout hgiven marker hfound now hin
  | observe ob =>
    cases ob with
    | invoked runId =>
      obtain rfl := hinvoked runId rfl
      have hstart : l = .start := hallowed
      subst hstart
      exact ⟨fun _ hread => (by cases hread), fun _ _ _ hplaced => (by cases hplaced),
        fun _ hnow => absurd hnow List.not_mem_nil, fun o ho => mem_handle_log ho,
        fun _ _ _ _ _ _ _ hread => (by cases hread), fun _ _ _ _ _ _ _ hnow => absurd hnow List.not_mem_nil⟩
    | called runId key result =>
      obtain rfl := hother fun _ h => by cases h
      exact hsame
    | settled runId step outcome =>
      obtain rfl := hother fun _ h => by cases h
      exact hsame
  | ulid process =>
    obtain rfl := hother fun _ h => by cases h
    exact hsame
  | run runId key =>
    obtain rfl := hother fun _ h => by cases h
    exact hsame
  | fetch runId key url init =>
    obtain rfl := hother fun _ h => by cases h
    exact hsame
  | setTimeout delay input =>
    obtain rfl := hother fun _ h => by cases h
    exact hsame

end Informs

section Runs

variable {E : WorkflowEnv} {X : JsLibrary} {s : StickyPool ι} {i : ι}

/-- What a step that meets the condition does to the world. -/
theorem WaitsKept.onward (h : WaitsKept E s i) {o : WorkflowOp}
    (hworld : (s.step E i).pool.world = (o.handle E s.pool.world).2) :
    Onward s.pool.world (o.handle E s.pool.world).2 where
  docket runId := by
    rcases handle_rows E o s.pool.world with hsame | ⟨_, _, e, -, -, -, hrows⟩
    · exact ⟨[], by rw [docket_congr hsame, List.append_nil], fun _ he => absurd he List.not_mem_nil⟩
    · have hfiles : s.Files E i e := (congrArg WorkflowWorld.rows hworld).trans hrows
      refine ⟨_, docket_append hrows (h.ordered e hfiles) runId, fun e' he' name eventId timeout hnotifies => ?_⟩
      obtain ⟨hin, hboth⟩ := List.mem_filter.mp he'
      rw [List.mem_singleton.mp hin] at hboth hnotifies
      rw [Bool.and_eq_true] at hboth
      exact h.unnotified e eventId hfiles hnotifies runId name timeout hboth.1
  readings := handle_readings
  log _ ho := mem_handle_log ho

end Runs

def WorkflowOp.observed : WorkflowOp → Option Observation
  | .observe ob => some ob
  | _ => none

theorem observed_eq {o : WorkflowOp} {ob : Observation} (h : o.observed = some ob) : o = .observe ob := by
  cases o with
  | observe ob' => exact congrArg _ (Option.some.inj h)
  | _ => cases h

end ActantDb
