import ActantDb.Lib.Table

/-!
# The trigger scheduler

`tick` fires each enabled cron trigger whose next instant after its last fire has come, and notes the time of the tick as its last fire. Whatever the times of the ticks, the instants between the last fire and the tick are then behind the trigger: an instant is covered by at most one fire, which is also at most one fire that it causes (`fires_at_most_once`). A fire that is lost to a panic is not made up for.
-/

namespace ActantDb.Triggers

/-! ### The crates -/

/-- A parsed cron expression: the first instant after a given one, in Unix seconds. -/
structure Schedule where
  next : Int → Option Int
  later : ∀ {t n : Int}, next t = some n → t < n

/-- The `cron` and `time` crates. What `format` renders, `parse` reads back. -/
structure TriggerCrates where
  cron : String → Option Schedule
  parse : String → Option Int
  format : Int → Option String
  parse_format : ∀ {t : Int} {text : String}, format t = some text → parse text = some t

/-- The range of `chrono::DateTime`, and the epoch outside of it. -/
def fromTimestamp (seconds : Int) : Int :=
  if -8334601228800 ≤ seconds ∧ seconds ≤ 8210266876799 then seconds else 0

/-! ### The scheduler -/

inductive Trigger where
  | cron (expression : String)
  | event (source eventType : String)
  | webhook (path : String)
  | manual
deriving DecidableEq

structure Registration where
  id : String
  name : String
  trigger : Trigger
  workflowName : String
  lastFiredAt : Option String
  enabled : Bool
deriving DecidableEq

structure FireAction where
  triggerId : String
  workflowName : String
deriving DecidableEq

/-- A fire, with the instant that causes it, the last fire before it and the time of the tick. -/
structure Fire where
  action : FireAction
  after : Int
  next : Int
  now : Int

/-- The registrations by their ids. -/
abbrev Scheduler := Table Registration.id

variable (X : TriggerCrates)

def Trigger.validate : Trigger → Bool
  | .cron expression => (X.cron expression).isSome
  | _ => true

/-- The last fire in Unix seconds, the epoch where there is none that can be read. -/
def Registration.after (r : Registration) : Int :=
  fromTimestamp ((r.lastFiredAt.bind X.parse).getD 0)

/-- The fire of a registration that is due. -/
def Registration.due (r : Registration) (now : Int) : Option Fire :=
  if !r.enabled then none
  else
    match r.trigger with
    | .cron expression => do
      let schedule ← X.cron expression
      let next ← schedule.next (r.after X)
      if next ≤ fromTimestamp now then some ⟨⟨r.id, r.workflowName⟩, r.after X, next, fromTimestamp now⟩ else none
    | _ => none

/-- What a tick has done when it returns or panics. -/
structure TickRun where
  fires : List Fire
  rows : List Registration
  panicked : Bool

/-- The loop; formatting the time of a fire may panic. -/
def tickLoop (now : Int) : List Registration → TickRun
  | [] => ⟨[], [], false⟩
  | r :: rest =>
    match r.due X now with
    | none => { tickLoop now rest with rows := r :: (tickLoop now rest).rows }
    | some fire =>
      match X.format (fromTimestamp now) with
      | none => ⟨[], r :: rest, true⟩
      | some iso =>
        { tickLoop now rest with
          fires := fire :: (tickLoop now rest).fires
          rows := { r with lastFiredAt := some iso } :: (tickLoop now rest).rows }

theorem ids_tickLoop (now : Int) (rows : List Registration) : (tickLoop X now rows).rows.map Registration.id = rows.map Registration.id := by
  induction rows with
  | nil => rfl
  | cons r rest ih =>
    rw [tickLoop]
    split
    · simp [ih]
    · split
      · rfl
      · simp [ih]

/-- A panic takes the fires of the tick with it, but not what the loop has noted. -/
def tick (s : Scheduler) (now : Int) : List Fire × Scheduler :=
  (if (tickLoop X now s.rows).panicked then [] else (tickLoop X now s.rows).fires,
    ⟨(tickLoop X now s.rows).rows, by rw [ids_tickLoop]; exact s.keysNodup⟩)

def setEnabled (s : Scheduler) (id : String) (enabled : Bool) : Scheduler :=
  s.update (fun r => r.id = id) (fun r => { r with enabled := enabled }) fun _ => rfl

def disable (s : Scheduler) (id : String) : Scheduler := setEnabled s id false

/-- What is called between ticks; a trigger is enabled again by registering it as it is listed, but enabled. -/
inductive Call where
  | tick (now : Int)
  | disable (id : String)
  | enable (id : String)

def step (s : Scheduler) : Call → List Fire × Scheduler
  | .tick now => tick X s now
  | .disable id => ([], disable s id)
  | .enable id => ([], setEnabled s id true)

def stateAfter (s : Scheduler) (calls : List Call) : Scheduler := calls.foldl (fun s call => (step X s call).2) s

/-- The fires of a run, in order. -/
def fires (s : Scheduler) : List Call → List Fire
  | [] => []
  | call :: calls => (step X s call).1 ++ fires (step X s call).2 calls

/-! ### One tick -/

variable {X}

/-- The registration is enabled, and the fire is for the first instant of its schedule after its last fire. -/
structure CausedBy (X : TriggerCrates) (r : Registration) (f : Fire) : Prop where
  enabled : r.enabled = true
  action : f.action = ⟨r.id, r.workflowName⟩
  after : f.after = r.after X
  scheduled : ∃ expression schedule, r.trigger = .cron expression ∧ X.cron expression = some schedule
    ∧ schedule.next f.after = some f.next
  past : f.after < f.next
  come : f.next ≤ f.now

theorem causedBy_of_due {r : Registration} {now : Int} {f : Fire} (h : r.due X now = some f) :
    CausedBy X r f ∧ f.now = fromTimestamp now := by
  unfold Registration.due at h
  split at h
  · cases h
  next henabled =>
  split at h
  · next expression htrigger =>
    simp only [Option.bind_eq_bind, Option.bind_eq_some_iff] at h
    obtain ⟨schedule, hcron, next, hnext, h⟩ := h
    split at h
    · next hcome =>
      obtain rfl := Option.some.inj h
      exact ⟨⟨by simpa using henabled, rfl, rfl, ⟨expression, schedule, htrigger, hcron, hnext⟩, schedule.later hnext, hcome⟩, rfl⟩
    · cases h
  · cases h

theorem fromTimestamp_idem (t : Int) : fromTimestamp (fromTimestamp t) = fromTimestamp t := by
  by_cases h : -8334601228800 ≤ t ∧ t ≤ 8210266876799
  · have hsame : fromTimestamp t = t := by rw [fromTimestamp, if_pos h]
    rw [hsame, hsame]
  · have hepoch : fromTimestamp t = 0 := by rw [fromTimestamp, if_neg h]
    rw [hepoch]
    rfl

/-- The time that was noted is read back. -/
theorem after_noted {now : Int} {iso : String} (h : X.format (fromTimestamp now) = some iso) (r : Registration) :
    Registration.after X { r with lastFiredAt := some iso } = fromTimestamp now := by
  rw [Registration.after, Option.bind_some, X.parse_format h, Option.getD_some, fromTimestamp_idem]

def firesOf (id : String) (fs : List Fire) : List Fire := fs.filter fun f => f.action.triggerId = id

/-- From `r` to `r'` the last fire moves on, over what a fire of it covers. -/
def Advances (X : TriggerCrates) (r r' : Registration) (fs : List Fire) : Prop :=
  r'.id = r.id ∧ r.after X ≤ r'.after X
    ∧ (firesOf r.id fs = [] ∨ ∃ f, firesOf r.id fs = [f] ∧ CausedBy X r f ∧ f.now ≤ r'.after X)

theorem advances_nil {r r' : Registration} (hid : r'.id = r.id) (hafter : r.after X ≤ r'.after X) : Advances X r r' [] :=
  ⟨hid, hafter, .inl rfl⟩

theorem causedBy_of_mem_tickLoop {now : Int} {rows : List Registration} {f : Fire} (h : f ∈ (tickLoop X now rows).fires) :
    ∃ r ∈ rows, CausedBy X r f := by
  induction rows with
  | nil => cases h
  | cons r rest ih =>
    rw [tickLoop] at h
    split at h
    · obtain ⟨r', hr', hcaused⟩ := ih h
      exact ⟨r', List.mem_cons_of_mem _ hr', hcaused⟩
    · next fire hdue =>
      split at h
      · cases h
      · rcases List.mem_cons.mp h with rfl | h
        · exact ⟨r, List.mem_cons_self, (causedBy_of_due hdue).1⟩
        · obtain ⟨r', hr', hcaused⟩ := ih h
          exact ⟨r', List.mem_cons_of_mem _ hr', hcaused⟩

theorem firesOf_eq_nil {id : String} {fs : List Fire} (h : ∀ f ∈ fs, f.action.triggerId ≠ id) : firesOf id fs = [] :=
  List.filter_eq_nil_iff.mpr fun f hf => by simpa using h f hf

/-- The fires of other rows are not those of a row whose id they do not have. -/
theorem firesOf_tickLoop_eq_nil {now : Int} {rows : List Registration} {id : String} (h : id ∉ rows.map Registration.id) :
    firesOf id (tickLoop X now rows).fires = [] := by
  refine firesOf_eq_nil fun f hf heq => h ?_
  obtain ⟨r, hr, hcaused⟩ := causedBy_of_mem_tickLoop hf
  rw [hcaused.action] at heq
  exact List.mem_map.mpr ⟨r, hr, heq⟩

theorem advances_tickLoop (now : Int) {rows : List Registration} (hnodup : (rows.map Registration.id).Nodup) {r : Registration}
    (hr : r ∈ rows) : ∃ r' ∈ (tickLoop X now rows).rows, Advances X r r' (tickLoop X now rows).fires := by
  induction rows with
  | nil => cases hr
  | cons r₀ rest ih =>
    rw [List.map_cons, List.nodup_cons] at hnodup
    obtain ⟨hfresh, hrest⟩ := hnodup
    have hother : ∀ r ∈ rest, r₀.id ≠ r.id := fun r hr heq => hfresh (heq ▸ List.mem_map_of_mem hr)
    rw [tickLoop]
    split
    · rcases List.mem_cons.mp hr with rfl | hr
      · exact ⟨r, List.mem_cons_self, rfl, Int.le_refl _, .inl (firesOf_tickLoop_eq_nil hfresh)⟩
      · obtain ⟨r', hr', hadvances⟩ := ih hrest hr
        exact ⟨r', List.mem_cons_of_mem _ hr', hadvances⟩
    · next fire hdue =>
      obtain ⟨hcaused, hnow⟩ := causedBy_of_due hdue
      split
      · exact ⟨r, hr, advances_nil rfl (Int.le_refl _)⟩
      · next iso hiso =>
        have hafter := after_noted hiso r₀
        rcases List.mem_cons.mp hr with rfl | hr
        · refine ⟨{ r with lastFiredAt := some iso }, List.mem_cons_self, rfl, ?_, .inr ⟨fire, ?_, hcaused, ?_⟩⟩
          · have hpast := hcaused.past
            have hcome := hcaused.come
            rw [hcaused.after] at hpast
            omega
          · have hid : fire.action.triggerId = r.id := by rw [hcaused.action]
            rw [firesOf, List.filter_cons_of_pos (by simpa using hid), ← firesOf, firesOf_tickLoop_eq_nil hfresh]
          · exact Int.le_of_eq (hnow.trans hafter.symm)
        · obtain ⟨r', hr', hid, hle, hfires⟩ := ih hrest hr
          have hid₀ : fire.action.triggerId ≠ r.id := by rw [hcaused.action]; exact hother r hr
          refine ⟨r', List.mem_cons_of_mem _ hr', hid, hle, ?_⟩
          rwa [firesOf, List.filter_cons_of_neg (by simpa using hid₀), ← firesOf]

/-! ### Runs -/

theorem causedBy_of_mem_step {s : Scheduler} {call : Call} {f : Fire} (h : f ∈ (step X s call).1) : ∃ r ∈ s, CausedBy X r f := by
  cases call with
  | tick now =>
    simp only [step, tick] at h
    split at h
    · cases h
    · exact causedBy_of_mem_tickLoop h
  | disable id => cases h
  | enable id => cases h

theorem advances_setEnabled {s : Scheduler} {id : String} {enabled : Bool} {r : Registration} (hr : r ∈ s) :
    ∃ r' ∈ setEnabled s id enabled, Advances X r r' [] := by
  refine ⟨if r.id = id then { r with enabled := enabled } else r, Table.mem_update.mpr ⟨r, hr, ?_⟩, ?_⟩
  · by_cases h : r.id = id <;> simp [h]
  · split
    · exact advances_nil rfl (Int.le_refl _)
    · exact advances_nil rfl (Int.le_refl _)

/-- **What a call does to a trigger.** -/
theorem advances_step {s : Scheduler} {r : Registration} (hr : r ∈ s) (call : Call) :
    ∃ r' ∈ (step X s call).2, Advances X r r' (step X s call).1 := by
  cases call with
  | tick now =>
    obtain ⟨r', hr', hid, hle, hfires⟩ := advances_tickLoop (X := X) now s.keysNodup hr
    refine ⟨r', hr', hid, hle, ?_⟩
    simp only [step, tick]
    split
    · exact .inl rfl
    · exact hfires
  | disable id => exact advances_setEnabled hr
  | enable id => exact advances_setEnabled hr

theorem ids_setEnabled (s : Scheduler) (id : String) (enabled : Bool) :
    (setEnabled s id enabled).rows.map Registration.id = s.rows.map Registration.id := by
  simp only [setEnabled, Table.update, List.map_map]
  refine List.map_congr_left fun r _ => ?_
  simp only [Function.comp_apply]
  split <;> rfl

theorem ids_step (s : Scheduler) (call : Call) : (step X s call).2.rows.map Registration.id = s.rows.map Registration.id := by
  cases call with
  | tick now => exact ids_tickLoop X now s.rows
  | disable id => exact ids_setEnabled s id false
  | enable id => exact ids_setEnabled s id true

theorem id_mem_of_mem_fires {s : Scheduler} {calls : List Call} {f : Fire} (h : f ∈ fires X s calls) :
    f.action.triggerId ∈ s.rows.map Registration.id := by
  induction calls generalizing s with
  | nil => cases h
  | cons call calls ih =>
    rcases List.mem_append.mp h with h | h
    · obtain ⟨r, hr, hcaused⟩ := causedBy_of_mem_step h
      rw [hcaused.action]
      exact List.mem_map_of_mem hr
    · exact ids_step s call ▸ ih h

theorem past_of_mem_fires {s : Scheduler} {calls : List Call} {f : Fire} (h : f ∈ fires X s calls) :
    f.after < f.next ∧ f.next ≤ f.now := by
  induction calls generalizing s with
  | nil => cases h
  | cons call calls ih =>
    rcases List.mem_append.mp h with h | h
    · obtain ⟨r, -, hcaused⟩ := causedBy_of_mem_step h
      exact ⟨hcaused.past, hcaused.come⟩
    · exact ih h

/-- The fire covers the instant: it is after the last fire, and not after the tick. -/
def Fire.Covers (id : String) (n : Int) (f : Fire) : Bool :=
  f.action.triggerId = id && f.after < n && n ≤ f.now

/-- In a run the fires of a trigger begin where its last fire is, and cover no instant twice. -/
theorem fires_of_mem {s : Scheduler} {r : Registration} (hr : r ∈ s) (calls : List Call) :
    (∀ f ∈ fires X s calls, f.action.triggerId = r.id → r.after X ≤ f.after)
      ∧ ∀ n, (fires X s calls).countP (Fire.Covers r.id n) ≤ 1 := by
  induction calls generalizing s r with
  | nil => exact ⟨fun f hf => (by cases hf), fun n => Nat.zero_le _⟩
  | cons call calls ih =>
    obtain ⟨r', hr', hid, hle, hstep⟩ := advances_step (X := X) hr call
    obtain ⟨hlater, honce⟩ := ih hr'
    rw [hid] at hlater honce
    have hcount : ∀ n, ((step X s call).1).countP (Fire.Covers r.id n) = (firesOf r.id (step X s call).1).countP (Fire.Covers r.id n) := by
      intro n
      rw [firesOf, List.countP_filter]
      refine List.countP_congr fun f _ => ?_
      simp only [Fire.Covers, Bool.and_eq_true, decide_eq_true_eq]
      exact ⟨fun h => ⟨h, h.1.1⟩, And.left⟩
    constructor
    · intro f hf hfid
      rcases List.mem_append.mp hf with hf | hf
      · have hmem : f ∈ firesOf r.id (step X s call).1 := List.mem_filter.mpr ⟨hf, by simpa using hfid⟩
        rcases hstep with hnil | ⟨g, hg, hcaused, -⟩
        · rw [hnil] at hmem
          cases hmem
        · rw [hg, List.mem_singleton] at hmem
          subst hmem
          exact Int.le_of_eq hcaused.after.symm
      · exact Int.le_trans hle (hlater f hf hfid)
    · intro n
      rw [fires, List.countP_append, hcount]
      rcases hstep with hnil | ⟨g, hg, hcaused, hnow⟩
      · rw [hnil, List.countP_nil, Nat.zero_add]
        exact honce n
      · rw [hg, List.countP_singleton]
        split
        · next hcovers =>
          have hzero : (fires X (step X s call).2 calls).countP (Fire.Covers r.id n) = 0 := by
            refine List.countP_eq_zero.mpr fun f hf hcovered => ?_
            simp only [Fire.Covers, Bool.and_eq_true, decide_eq_true_eq] at hcovers hcovered
            have := hlater f hf hcovered.1.1
            omega
          omega
        · rw [Nat.zero_add]
          exact honce n

/-- **Each instant is fired for at most once, and never while the trigger is disabled.** In every run, from any set of triggers, an instant is covered by at most one fire of a trigger, and it causes at most one. And each fire of the next call is of a registration that is enabled then, for the first instant of its schedule after its last fire. -/
theorem fires_at_most_once (X : TriggerCrates) (s : Scheduler) (calls : List Call) :
    (∀ (id : String) (n : Int),
      (fires X s calls).countP (Fire.Covers id n) ≤ 1
        ∧ (fires X s calls).countP (fun f => f.action.triggerId = id && f.next = n) ≤ 1)
    ∧ ∀ (call : Call), ∀ f ∈ (step X (stateAfter X s calls) call).1, ∃ r ∈ stateAfter X s calls, CausedBy X r f := by
  refine ⟨fun id n => ?_, fun call f hf => causedBy_of_mem_step hf⟩
  have hcovered : (fires X s calls).countP (Fire.Covers id n) ≤ 1 := by
    by_cases hid : id ∈ s.rows.map Registration.id
    · obtain ⟨r, hr, rfl⟩ := List.mem_map.mp hid
      exact (fires_of_mem hr calls).2 n
    · rw [List.countP_eq_zero.mpr fun f hf hcovers => ?_]
      · exact Nat.zero_le _
      · simp only [Fire.Covers, Bool.and_eq_true, decide_eq_true_eq] at hcovers
        exact hid (hcovers.1.1 ▸ id_mem_of_mem_fires hf)
  refine ⟨hcovered, Nat.le_trans (List.countP_mono_left fun f hf hcaused => ?_) hcovered⟩
  obtain ⟨hpast, hcome⟩ := past_of_mem_fires hf
  simp only [Fire.Covers, Bool.and_eq_true, decide_eq_true_eq] at hcaused ⊢
  exact ⟨⟨hcaused.1, hcaused.2 ▸ hpast⟩, hcaused.2 ▸ hcome⟩

/-! ### A daily trigger -/

/-- Midnight, in seconds. -/
def midnight : Schedule where
  next t := some ((t / 86400 + 1) * 86400)
  later := by
    intro t n h
    obtain rfl := Option.some.inj h
    omega

/-- The crates on the expression and on the two times of the run below. -/
def TriggerCrates.sample : TriggerCrates where
  cron expression := if expression = "0 0 0 * * * *" then some midnight else none
  parse text := if text = "1970-01-03T01:00:00Z" then some 176400 else if text = "1970-01-04T00:00:00Z" then some 259200 else none
  format t := if t = 176400 then some "1970-01-03T01:00:00Z" else if t = 259200 then some "1970-01-04T00:00:00Z" else none
  parse_format := by
    intro t text h
    split at h
    · next ht =>
      obtain rfl := Option.some.inj h
      rw [ht]
      decide
    · split at h
      · next ht =>
        obtain rfl := Option.some.inj h
        rw [ht]
        decide
      · cases h

def daily : Scheduler := ⟨[⟨"t1", "daily", .cron "0 0 0 * * * *", "daily-digest", none, true⟩], List.nodup_singleton _⟩

/-- A tick that is two days late, the same tick again, and one at the next midnight but while the trigger is disabled. -/
def lateRun : List Call := [.tick 176400, .tick 176400, .disable "t1", .tick 259200, .enable "t1", .tick 259200]

example : (fires .sample daily lateRun).map Fire.next = [86400, 259200] := by decide

theorem fires_at_most_once_daily :
    (fires .sample daily lateRun).countP (Fire.Covers "t1" 172800) ≤ 1
      ∧ ∀ f ∈ (step .sample (stateAfter .sample daily lateRun) (.tick 345600)).1, f.after < f.next :=
  ⟨((fires_at_most_once .sample daily lateRun).1 "t1" 172800).1, fun f hf => by
    obtain ⟨r, -, hcaused⟩ := (fires_at_most_once .sample daily lateRun).2 (.tick 345600) f hf
    exact hcaused.past⟩

end ActantDb.Triggers
