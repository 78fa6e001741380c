import Mathlib.Logic.Function.Basic
import ActantDb.Lib.Table
import ActantDb.Ledger.JsValue

/-!
# The TypeScript ledger

One table of events. An id is a ULID that the appending process makes from its clock, and `query` lists the events of a run in the order of their ids: a process whose clock stands still makes increasing ids, but nothing orders the ids of two processes, or of one whose clock goes back.
-/

namespace ActantDb

inductive EventKind where
  | agentRunStarted
  | userMessageReceived
  | modelCall
  | toolCallRequested
  | guardVerdict
  | approvalRequired
  | approvalDecision
  | toolCallStarted
  | toolCallCompleted
  | contextBuild
  | effectObserved
  | agentRunFinished
deriving DecidableEq, Repr

structure ActantEvent where
  id : String
  kind : EventKind
  runId : String
  payload : JsValue
  payloadHash : String
  chainHash : String

structure AppendInput where
  kind : EventKind
  runId : String
  payload : JsValue

def genesisHash : String := String.ofList (List.replicate 64 '0')

/-- `sha256(prev + ":" + payloadHash)`. -/
def nextChainHash (X : JsLibrary) (prevChainHash payloadHash : String) : String :=
  X.sha256 (prevChainHash ++ ":" ++ payloadHash)

structure LedgerFilter where
  runId : Option String := none
  kind : Option (List EventKind) := none
  sinceId : Option String := none
  limit : Option Nat := none

/-! ### ULIDs -/

def encoding : List Char := "0123456789ABCDEFGHJKMNPQRSTVWXYZ".toList

/-- One character of an id, for five bits of it. -/
def encodeDigit (d : Nat) : Char := encoding.getD (d % 32) '0'

def encodeTime (now : Nat) : Nat → List Char
  | 0 => []
  | len + 1 => encodeTime (now / 32) len ++ [encodeDigit now]

/-- What a process keeps between two ids. -/
structure Ulid where
  lastTime : Nat
  lastRandom : List Nat

def Ulid.initial : Ulid := ⟨0, List.replicate 16 0⟩

/-- The last digit counts up and carries; nothing when all are at their highest. -/
def incrementDigits : List Nat → Option (List Nat)
  | [] => none
  | d :: rest => if d < 31 then some ((d + 1) :: rest) else (incrementDigits rest).map (List.cons 0)

def incrementRandom (arr : List Nat) : Option (List Nat) := (incrementDigits arr.reverse).map List.reverse

/-- The random part of the id made at `now`, unless it is to be drawn. -/
def Ulid.nextRandom (u : Ulid) (now : Nat) : Option (List Nat) :=
  if now = u.lastTime then incrementRandom u.lastRandom else none

/-! ### The ledger -/

structure Ledger where
  events : Table (fun e : ActantEvent => e.id)
  -- of each process
  ulids : Nat → Ulid
  statements : Nat
  readings : Nat
  draws : Nat

/-- The library, which statements fail, what `Date.now()` reads, and what `randomBytes` draws. -/
structure LedgerEnv where
  library : JsLibrary
  fault : Nat → Option Thrown
  now : Nat → Nat
  randomBytes : Nat → Nat → UInt8

/-- For sample runs: no statement fails, the clock moves on with every reading, and all bytes are zero. -/
def LedgerEnv.sample : LedgerEnv := ⟨.sample, fun _ => none, fun n => n, fun _ _ => 0⟩

def Ledger.empty : Ledger := ⟨.empty, fun _ => .initial, 0, 0, 0⟩

namespace Ledger

variable (E : LedgerEnv) (process : Nat) (l : Ledger)

def freshRandom : List Nat := (List.range 16).map fun i => (E.randomBytes l.draws i).toNat % 32

/-- The state of the next id. -/
def nextUlid : Ulid :=
  let now := E.now l.readings
  ⟨now, ((l.ulids process).nextRandom now).getD (l.freshRandom E)⟩

/-- The id that the process makes next. -/
def nextId : String :=
  let u := l.nextUlid E process
  String.ofList (encodeTime u.lastTime 10 ++ u.lastRandom.map encodeDigit)

def ulid : String × Ledger :=
  let drawn := ((l.ulids process).nextRandom (E.now l.readings)).isNone
  (l.nextId E process,
    { l with
      ulids := Function.update l.ulids process (l.nextUlid E process)
      readings := l.readings + 1
      draws := if drawn then l.draws + 1 else l.draws })

/-- `Date.now()`. -/
def now : Nat × Ledger := (E.now l.readings, { l with readings := l.readings + 1 })

/-- The `INSERT`. -/
def insert (stored : ActantEvent) : Except Thrown Unit × Ledger :=
  let counted := { l with statements := l.statements + 1 }
  match E.fault l.statements with
  | some e => (.error e, counted)
  | none =>
    match l.events.insert? stored with
    | none => (.error ⟨"Error", "UNIQUE constraint failed: events.id"⟩, counted)
    | some events => (.ok (), { counted with events := events })

/-- The rows of a run in the order of their ids, the empty run id being a run like any other. -/
def ofRun (runId : String) : List ActantEvent :=
  (l.events.rows.filter fun e => e.runId = runId).insertionSort fun a b => a.id ≤ b.id

def lastChainHashForRun (runId : String) : Except Thrown (Option String) × Ledger :=
  let counted := { l with statements := l.statements + 1 }
  match E.fault l.statements with
  | some e => (.error e, counted)
  | none => (.ok ((l.ofRun runId).getLast?.map (·.chainHash)), counted)

/-- The event as it was passed in is what is returned; what is stored reads back as its canonical JSON does. -/
def append (input : AppendInput) : Except Thrown ActantEvent × Ledger :=
  let (id, l) := l.ulid E process
  match canonicalJSON input.payload with
  | .error e => (.error e, l)
  | .ok payload =>
    if payload.isUndefined then (.error notText, l)
    else
      let payloadHash := E.library.sha256 (String.ofList (printJson E.library payload))
      let (last, l) := l.lastChainHashForRun E input.runId
      match last with
      | .error e => (.error e, l)
      | .ok prev =>
        let chainHash := nextChainHash E.library (prev.getD genesisHash) payloadHash
        let (inserted, l) := l.insert E ⟨id, input.kind, input.runId, payload, payloadHash, chainHash⟩
        (inserted.map fun _ => ⟨id, input.kind, input.runId, input.payload, payloadHash, chainHash⟩, l)

/-- `get`. -/
def get? (id : String) : Option ActantEvent := l.events.find? id

end Ledger

/-- An empty run id is no filter. -/
def LedgerFilter.selects (filter : LedgerFilter) (e : ActantEvent) : Bool :=
  filter.runId.all (fun r => r = "" || e.runId = r) && filter.kind.all (fun kinds => e.kind ∈ kinds) &&
    filter.sinceId.all fun id => id = "" || id < e.id

/-- In the order of the ids. -/
def Ledger.select (l : Ledger) (filter : LedgerFilter) : List ActantEvent :=
  let found := (l.events.rows.filter filter.selects).insertionSort fun a b => a.id ≤ b.id
  match filter.limit with
  | none | some 0 => found
  | some (n + 1) => found.take (n + 1)

def Ledger.query (E : LedgerEnv) (l : Ledger) (filter : LedgerFilter) :
    Except Thrown (List ActantEvent) × Ledger :=
  let counted := { l with statements := l.statements + 1 }
  match E.fault l.statements with
  | some e => (.error e, counted)
  | none => (.ok (l.select filter), counted)

section Append

variable {E : LedgerEnv} {process : Nat} {l : Ledger} {input : AppendInput}

@[simp] theorem ulid_events : (l.ulid E process).2.events = l.events := rfl

@[simp] theorem query_events (filter : LedgerFilter) : (l.query E filter).2.events = l.events := by
  simp only [Ledger.query]
  split <;> rfl

theorem query_ok {filter : LedgerFilter} {found : List ActantEvent} (h : (l.query E filter).1 = .ok found) :
    found = l.select filter := by
  simp only [Ledger.query] at h
  split at h
  · cases h
  · cases h
    rfl

theorem insert_cases (E : LedgerEnv) (l : Ledger) (stored : ActantEvent) :
    ((∃ e, (l.insert E stored).1 = .error e) ∧ (l.insert E stored).2.events = l.events) ∨
      l.events.contains stored.id = false ∧ (l.insert E stored).1 = .ok () ∧
        (l.insert E stored).2.events.rows = l.events.rows ++ [stored] := by
  simp only [Ledger.insert]
  cases E.fault l.statements with
  | some e => exact Or.inl ⟨⟨e, rfl⟩, rfl⟩
  | none =>
    cases hinsert : l.events.insert? stored with
    | none => exact Or.inl ⟨⟨_, rfl⟩, rfl⟩
    | some events =>
      obtain ⟨hfree, hrows⟩ := Table.insert?_eq_some.mp hinsert
      exact Or.inr ⟨hfree, rfl, hrows⟩

@[simp] theorem lastChainHashForRun_events (runId : String) :
    (l.lastChainHashForRun E runId).2.events = l.events := by
  simp only [Ledger.lastChainHashForRun]
  split <;> rfl

theorem lastChainHashForRun_ok {runId : String} {prev : Option String}
    (h : (l.lastChainHashForRun E runId).1 = .ok prev) :
    prev = (l.ofRun runId).getLast?.map (·.chainHash) := by
  simp only [Ledger.lastChainHashForRun] at h
  split at h
  · cases h
  · cases h
    rfl

/-- The row that an append adds to the table. -/
def stored (E : LedgerEnv) (l : Ledger) (id : String) (input : AppendInput) (payload : JsValue) :
    ActantEvent :=
  let payloadHash := E.library.sha256 (String.ofList (printJson E.library payload))
  let prev := (l.ofRun input.runId).getLast?.map (·.chainHash)
  ⟨id, input.kind, input.runId, payload, payloadHash,
    nextChainHash E.library (prev.getD genesisHash) payloadHash⟩

/-- An append throws and changes no event, or adds one at the end of the table. -/
theorem append_cases (E : LedgerEnv) (process : Nat) (l : Ledger) (input : AppendInput) :
    ((∃ e, (l.append E process input).1 = .error e) ∧
        (l.append E process input).2.events = l.events) ∨
      ∃ payload, canonicalJSON input.payload = .ok payload ∧ payload.isUndefined = false ∧
        l.events.contains (l.nextId E process) = false ∧
        (∃ added, (l.append E process input).1 = .ok added ∧ added.id = l.nextId E process) ∧
        (l.append E process input).2.events.rows =
          l.events.rows ++ [stored E l (l.nextId E process) input payload] := by
  simp only [Ledger.append]
  cases canonicalJSON input.payload with
  | error e => exact Or.inl ⟨⟨e, rfl⟩, rfl⟩
  | ok payload =>
    dsimp only
    by_cases hundefined : payload.isUndefined = true
    · rw [if_pos hundefined]
      exact Or.inl ⟨⟨_, rfl⟩, rfl⟩
    · rw [if_neg hundefined]
      cases hlast : ((l.ulid E process).2.lastChainHashForRun E input.runId).1 with
      | error e => exact Or.inl ⟨⟨e, rfl⟩, by simp⟩
      | ok prev =>
        dsimp only
        have hprev : prev = (l.ofRun input.runId).getLast?.map (·.chainHash) :=
          lastChainHashForRun_ok (l := (l.ulid E process).2) hlast
        subst hprev
        rcases insert_cases E ((l.ulid E process).2.lastChainHashForRun E input.runId).2
          (stored E l (l.nextId E process) input payload) with ⟨⟨e, herror⟩, hevents⟩ | ⟨hfree, hok, hrows⟩
        · refine Or.inl ⟨⟨e, ?_⟩, ?_⟩
          · exact congrArg (Except.map _) herror
          · exact hevents.trans (by simp)
        · refine Or.inr ⟨payload, rfl, by simpa using hundefined, by simpa [stored] using hfree,
            ⟨_, congrArg (Except.map _) hok, rfl⟩, ?_⟩
          exact hrows.trans (by simp)

end Append

end ActantDb
