import ActantDb.Effects.Queue

/-!
# The worker runner

A worker asks the queue for the effect types of its descriptor and looks for the handler of what it leases by the handler's primary type. A handler that serves more types than that is not found for the others, and the effect is failed, although a handler for it is there.
-/

namespace ActantDb

namespace WorkerRunner

/-- Its `handle` is an operation of the runner. -/
structure Handler where
  effectType : String
  -- none, unless the handler overrides them
  effectTypes : List String
deriving DecidableEq

/-- The types a handler serves are its primary one and those it lists. -/
def Handler.Serves (h : Handler) (effectType : String) : Prop := h.effectType = effectType ∨ effectType ∈ h.effectTypes

inductive WorkerOp where
  | base (o : Op)
  | handle (h : Handler) (input : Value)

/-- A handler's error is given by its text. -/
abbrev WorkerOp.Res : WorkerOp → Type
  | .base o => o.Res
  | .handle _ _ => Except String Value

abbrev WorkerAction := Prog WorkerOp WorkerOp.Res ActantError

/-- A call of the queue, whatever comes of it. -/
def attempt {α : Type} (p : Action α) : WorkerAction Unit := (p.embed .base (fun _ r => r) id : WorkerAction α).ignore

variable (X : Crates)

/-- An input that is missing or does not parse is the empty object. -/
def inputOf (lease : Lease) : Value := (lease.inputInline.bind X.fromStr).getD (.object [])

/-- `WorkerRunner::execute`. -/
def execute (handlers : List Handler) (lease : Lease) : WorkerAction Unit :=
  match handlers.find? fun h => h.effectType = lease.effectType with
  | none => attempt (EffectQueue.fail lease.effectId "no handler for effect_type")
  | some h => do
    attempt (EffectQueue.start lease.effectId)
    match ← (Prog.perform (WorkerOp.handle h (inputOf X lease)) : WorkerAction (Except String Value)) with
    | .ok output => attempt (EffectQueue.complete X lease.effectId output)
    | .error text => attempt (EffectQueue.fail lease.effectId text)

/-! ### Dispatch -/

/-- One handler is called, with the input of the lease, and it serves its type; the effect is not failed before. -/
def dispatchMonitor (handlers : List Handler) (lease : Lease) : Monitor WorkerOp WorkerOp.Res Bool where
  allowed handled
    | .handle h input => handled = false ∧ h ∈ handlers ∧ h.Serves lease.effectType ∧ input = inputOf X lease
    | .base (.sql (.failEffect _ _ _)) => handled = true
    | _ => True
  next handled
    | .handle _ _, _ => true
    | _, _ => handled

/-- Whatever the storage and the handlers answer, the lease is passed to a handler that serves its type. -/
def Dispatches (handlers : List Handler) (lease : Lease) : Prop :=
  Prog.Safe (dispatchMonitor X handlers lease) (fun handled _ => handled = true) false (execute X handlers lease)

variable {X} {handlers : List Handler} {lease : Lease}

/-- Once a handler has been called, the queue may be told anything. -/
theorem attempt_safe {α : Type} (p : Action α) :
    Prog.Safe (dispatchMonitor X handlers lease) (fun handled _ => handled = true) true (attempt p) := by
  rw [attempt]
  induction p with
  | done r => cases r <;> rfl
  | call o next ih =>
    refine ⟨?_, fun r => ih r⟩
    simp only [dispatchMonitor]
    split
    · contradiction
    · trivial
    · trivial

theorem dispatches_of_primary (h : ∃ h ∈ handlers, h.effectType = lease.effectType) : Dispatches X handlers lease := by
  rw [Dispatches, execute]
  cases hfind : handlers.find? fun h => h.effectType = lease.effectType with
  | none =>
    obtain ⟨h, hmem, htype⟩ := h
    exact absurd (decide_eq_true htype) (List.find?_eq_none.mp hfind h hmem)
  | some h =>
    have hmem : h ∈ handlers := List.mem_of_find?_eq_some hfind
    have hserves : h.Serves lease.effectType := Or.inl (by simpa using List.find?_some hfind)
    -- the effect is started, and then the handler called
    refine ⟨trivial, fun r => ?_⟩
    cases r <;>
    · refine ⟨⟨rfl, hmem, hserves, rfl⟩, fun r => ?_⟩
      cases r with
      | error text => exact attempt_safe _
      | ok output => exact attempt_safe _

/-- Where there is none, the first statement of the runner fails the effect. -/
theorem not_dispatches (h : ¬ ∃ h ∈ handlers, h.effectType = lease.effectType) : ¬ Dispatches X handlers lease := by
  have hfind : (handlers.find? fun h => h.effectType = lease.effectType) = none :=
    List.find?_eq_none.mpr fun h' hmem htype => h ⟨h', hmem, of_decide_eq_true htype⟩
  rw [Dispatches, execute, hfind]
  rintro ⟨-, hafter⟩
  have hfails := (hafter ⟨0, by decide⟩).1
  cases hfails

/-- **The effect is passed to a handler that serves it** exactly when its type is the primary type of some handler. -/
theorem dispatches_iff (X : Crates) (handlers : List Handler) (lease : Lease) :
    Dispatches X handlers lease ↔ ∃ h ∈ handlers, h.effectType = lease.effectType := by
  by_cases h : ∃ h ∈ handlers, h.effectType = lease.effectType
  · exact iff_of_true (dispatches_of_primary h) h
  · exact iff_of_false (not_dispatches h) h

/-- Serves reads and writes. -/
def Handler.file : Handler := ⟨"file.read", ["file.read", "file.write"]⟩

def Lease.write : Lease := ⟨"eff_01", "wrk_file", "file.write", some "{}", "2026-05-19T12:35:56Z"⟩

theorem write_not_dispatched :
    (∃ h ∈ [Handler.file], h.Serves Lease.write.effectType) ∧ ¬ Dispatches Crates.sample [Handler.file] Lease.write := by
  refine ⟨⟨Handler.file, List.mem_singleton_self _, Or.inr (by decide)⟩, not_dispatches ?_⟩
  rintro ⟨h, hmem, htype⟩
  rw [List.mem_singleton.mp hmem] at htype
  exact absurd htype (by decide)

end WorkerRunner

end ActantDb
