import Mathlib.Data.Nat.Log
import ActantDb.Core.Hash
import ActantDb.Core.Ids
import ActantDb.Lib.Broadcast
import ActantDb.Lib.Program
import ActantDb.Storage.Schema

/-!
# The pub/sub broker

`Broker` persists every envelope in `pubsub_message` and fans it out to the live subscribers of its workspace and topic. A subscriber that gives a cursor is first sent what is persisted after it, through a channel of its own, the bridge, into which a task then forwards what comes in live.

Each call is a program over the operations below: the id generator behind its mutex, the clock, the two statements, and the steps on the map of channels. The forwarding task and the subscriber that reads its receiver run by themselves, as functions of the state.
-/

namespace ActantDb

/-- A row of `pubsub_message`. -/
structure PubsubMessage where
  id : String
  workspaceId : WorkspaceId
  topic : String
  payload : String
  createdAt : String
deriving DecidableEq

structure Envelope where
  id : String
  topic : String
  payload : Value
  ts : String

/-- Under which the broker keeps a live channel. -/
structure Key where
  workspaceId : WorkspaceId
  topic : String
deriving DecidableEq

def PubsubMessage.key (r : PubsubMessage) : Key := ⟨r.workspaceId, r.topic⟩

/-- A receiver of the live channel; for a subscriber with a cursor also the bridge, once it is set up; and what the subscriber has received so far. -/
structure Subscription where
  key : Key
  since : Option String
  live : Receiver Envelope
  bridge : Option (Receiver Envelope)
  stream : List Envelope

structure BrokerWorld where
  -- only the ids of these are referred to
  workspace : List WorkspaceId
  pubsubMessage : Table PubsubMessage.id
  channels : List Key
  subscriptions : List Subscription
  readings : Nat
  ulids : Nat
  statements : Nat

def BrokerWorld.start (workspace : List WorkspaceId) (messages : Table PubsubMessage.id) : BrokerWorld :=
  ⟨workspace, messages, [], [], 0, 0, 0⟩

/-- The clock's readings, what the generator answers, which statements the storage refuses, and the capacity of the channels. -/
structure BrokerEnv where
  clock : Nat → OffsetDateTime
  ulid : Nat → Except String String
  fault : Nat → Bool
  capacity : Nat

/-- `broadcast::channel` rounds the capacity up to a power of two. -/
def BrokerEnv.slots (E : BrokerEnv) : Nat := 2 ^ Nat.clog 2 (max E.capacity 1)

inductive BrokerOp where
  | generate
  | now
  | insert (row : PubsubMessage)
  | fanOut (key : Key) (env : Envelope)
  | channel (key : Key)
  | attach (key : Key) (since : Option String)
  | select (key : Key) (cursor : String)
  | bridge (subscription : Nat) (backfill : List Envelope)

abbrev BrokerOp.Res : BrokerOp → Type
  | .generate => Except String String
  | .now => OffsetDateTime
  | .insert _ => Except SqlError Unit
  | .select _ _ => Except SqlError (List PubsubMessage)
  -- the subscription made
  | .attach _ _ => Nat
  | _ => Unit

/-- `WHERE workspace_id = ? AND topic = ? AND id > ? ORDER BY id ASC`. -/
def BrokerWorld.after (w : BrokerWorld) (key : Key) (cursor : String) : List PubsubMessage :=
  (w.pubsubMessage.rows.filter fun r => r.key = key && decide (cursor < r.id)).insertionSort
    fun a b => a.id ≤ b.id

def replayLimit : Nat := 10000

def Subscription.send (slots : Nat) (key : Key) (env : Envelope) (s : Subscription) : Subscription :=
  if s.key = key then { s with live := s.live.push slots env } else s

def BrokerOp.handle (E : BrokerEnv) : (o : BrokerOp) → BrokerWorld → o.Res × BrokerWorld
  | .generate, w => (E.ulid w.ulids, { w with ulids := w.ulids + 1 })
  | .now, w => (E.clock w.readings, { w with readings := w.readings + 1 })
  | .insert row, w =>
    let w' := { w with statements := w.statements + 1 }
    if E.fault w.statements then (.error .unavailable, w')
    else
      match insertRow "pubsub_message" w.pubsubMessage row (w.workspace.contains row.workspaceId) with
      | .ok t => (.ok (), { w' with pubsubMessage := t })
      | .error e => (.error e, w')
  | .fanOut key env, w =>
    ((), if key ∈ w.channels then
        { w with subscriptions := w.subscriptions.map (·.send E.slots key env) }
      else w)
  | .channel key, w =>
    ((), if key ∈ w.channels then w else { w with channels := w.channels ++ [key] })
  | .attach key since, w =>
    (w.subscriptions.length,
      { w with subscriptions := w.subscriptions ++ [⟨key, since, .new, none, []⟩] })
  | .select key cursor, w =>
    let w' := { w with statements := w.statements + 1 }
    if E.fault w.statements then (.error .unavailable, w')
    else (.ok ((w.after key cursor).take replayLimit), w')
  | .bridge n backfill, w =>
    ((), { w with
      subscriptions := w.subscriptions.modify n fun s =>
        { s with bridge := some (backfill.foldl (·.push E.slots) .new) } })

/-! ### The tasks that run by themselves -/

/-- One turn of the loop that forwards from the live channel to the bridge. -/
def Subscription.forward (slots : Nat) (s : Subscription) : Subscription :=
  match s.bridge with
  | none => s
  | some bridge =>
    match s.live.recv with
    | (.ok env, live) => { s with live := live, bridge := some (bridge.push slots env) }
    -- a lag on the live channel is passed over
    | (_, live) => { s with live := live }

/-- The subscriber receives once, from the receiver it was given, if it was given one by now. -/
def Subscription.receive (s : Subscription) : Subscription :=
  match s.bridge, s.since with
  | some bridge, _ =>
    match bridge.recv with
    | (.ok env, bridge) => { s with bridge := some bridge, stream := s.stream ++ [env] }
    | (_, bridge) => { s with bridge := some bridge }
  | none, none =>
    match s.live.recv with
    | (.ok env, live) => { s with live := live, stream := s.stream ++ [env] }
    | (_, live) => { s with live := live }
  | none, some _ => s

/-! ### The calls -/

abbrev BrokerAction := Prog BrokerOp BrokerOp.Res ActantError

namespace Broker

def publish (X : Crates) (ws : WorkspaceId) (topic : String) (payload : Value) : BrokerAction Envelope :=
  if topic.isEmpty then .fail (.invalidInput "topic is required")
  else do
    let ulid ← (.performOr .generate id fun e => .internal ("pubsub id generation: " ++ e) :
      BrokerAction String)
    let id := newId "psm" ulid
    let t ← (Prog.perform BrokerOp.now : BrokerAction OffsetDateTime)
    let ts := t.formatRfc3339
    let payloadText := String.ofList (payload.print X.formatF64)
    -- persist first: what is not persisted is not fanned out
    (.performOr (.insert ⟨id, ws, topic, payloadText, ts⟩) (fun r => r) .storage : BrokerAction Unit)
    let env : Envelope := ⟨id, topic, payload, ts⟩
    (Prog.perform (BrokerOp.fanOut ⟨ws, topic⟩ env) : BrokerAction Unit)
    return env

/-- The rows as envelopes; the first payload that does not parse is the error of the whole call. -/
def decodeRows (X : Crates) : List PubsubMessage → Except ActantError (List Envelope)
  | [] => .ok []
  | r :: rest =>
    match X.fromStr r.payload with
    | none => .error (.storage (.decode "payload"))
    | some payload => (decodeRows X rest).map (⟨r.id, r.topic, payload, r.createdAt⟩ :: ·)

def replaySince (X : Crates) (ws : WorkspaceId) (topic cursor : String) : BrokerAction (List Envelope) := do
  let rows ← (.performOr (.select ⟨ws, topic⟩ cursor) id .storage : BrokerAction (List PubsubMessage))
  .done (decodeRows X rows)

/-- The receiver is live before the backfill is selected. -/
def subscribe (X : Crates) (ws : WorkspaceId) (topic : String) (since : Option String) : BrokerAction Nat :=
  if topic.isEmpty then .fail (.invalidInput "topic is required")
  else do
    (Prog.perform (BrokerOp.channel ⟨ws, topic⟩) : BrokerAction Unit)
    let n ← (Prog.perform (BrokerOp.attach ⟨ws, topic⟩ since) : BrokerAction Nat)
    match since with
    | none => return n
    | some cursor =>
      let backfill ← replaySince X ws topic cursor
      (Prog.perform (BrokerOp.bridge n backfill) : BrokerAction Unit)
      return n

end Broker

/-! ### Calls that interleave -/

inductive BrokerCall where
  | publish (ws : WorkspaceId) (topic : String) (payload : Value)
  | subscribe (ws : WorkspaceId) (topic : String) (since : Option String)
  | replaySince (ws : WorkspaceId) (topic cursor : String)

/-- What a call returns. -/
inductive BrokerReply where
  | published (env : Envelope)
  | subscribed (subscription : Nat)
  | replayed (envs : List Envelope)

def BrokerCall.issue (X : Crates) : BrokerCall → BrokerAction BrokerReply
  | .publish ws topic payload => .published <$> Broker.publish X ws topic payload
  | .subscribe ws topic since => .subscribed <$> Broker.subscribe X ws topic since
  | .replaySince ws topic cursor => .replayed <$> Broker.replaySince X ws topic cursor

abbrev BrokerPool (ι : Type) := Pool ι BrokerWorld BrokerOp BrokerOp.Res ActantError BrokerReply

/-- The calls, none begun yet. -/
def BrokerPool.start {ι : Type} (X : Crates) (w : BrokerWorld) (calls : ι → BrokerCall) : BrokerPool ι :=
  Pool.init w fun i => (calls i).issue X

open Prog

/-! ### What is persisted after a cursor -/

section After

variable {w : BrokerWorld} {key : Key} {cursor : String}

theorem mem_after {r : PubsubMessage} :
    r ∈ w.after key cursor ↔ r ∈ w.pubsubMessage ∧ r.key = key ∧ cursor < r.id := by
  simp only [BrokerWorld.after, List.mem_insertionSort, List.mem_filter, Bool.and_eq_true,
    decide_eq_true_eq, Table.mem_iff]

/-- The ids come in strictly increasing order. -/
theorem after_sorted : ((w.after key cursor).map (·.id)).Pairwise (· < ·) := by
  have hle : (w.after key cursor).Pairwise fun a b => a.id ≤ b.id := by
    have htotal : Std.Total fun a b : PubsubMessage => a.id ≤ b.id := ⟨fun a b => le_total _ _⟩
    have htrans : IsTrans PubsubMessage fun a b => a.id ≤ b.id := ⟨fun a b c => le_trans⟩
    exact List.pairwise_insertionSort _ _
  have hnodup : ((w.after key cursor).map (·.id)).Nodup := by
    have hperm : ((w.after key cursor).map (·.id)).Perm
        ((w.pubsubMessage.rows.filter fun r => r.key = key && decide (cursor < r.id)).map (·.id)) :=
      (List.perm_insertionSort _ _).map _
    rw [hperm.nodup_iff]
    exact w.pubsubMessage.keysNodup.sublist (List.filter_sublist.map _)
  rw [List.pairwise_map]
  rw [List.nodup_iff_pairwise_ne, List.pairwise_map] at hnodup
  exact (hle.and hnodup).imp fun h => lt_of_le_of_ne h.1 h.2

end After

/-! ### What an operation does to the stored messages -/

section Messages

variable {E : BrokerEnv} {w : BrokerWorld}

/-- An insertion is accepted and adds its row, whose id is new, or is refused and changes nothing. -/
theorem handle_insert (E : BrokerEnv) (row : PubsubMessage) (w : BrokerWorld) :
    (((BrokerOp.insert row).handle E w).1 = .ok () ∧ w.pubsubMessage.contains row.id = false ∧
        ∀ r, r ∈ ((BrokerOp.insert row).handle E w).2.pubsubMessage ↔ r ∈ w.pubsubMessage ∨ r = row) ∨
      ((∃ err, ((BrokerOp.insert row).handle E w).1 = .error err) ∧
        ((BrokerOp.insert row).handle E w).2.pubsubMessage = w.pubsubMessage) := by
  cases hfault : E.fault w.statements with
  | true =>
    simp only [BrokerOp.handle, hfault, if_true]
    exact Or.inr ⟨⟨_, rfl⟩, trivial⟩
  | false =>
    simp only [BrokerOp.handle, hfault, Bool.false_eq_true, if_false]
    cases hins : insertRow "pubsub_message" w.pubsubMessage row
        (w.workspace.contains row.workspaceId) with
    | error err => exact Or.inr ⟨⟨err, rfl⟩, rfl⟩
    | ok t =>
      have hrow := (insertRow_eq_ok.mp hins).2
      exact Or.inl ⟨rfl, (Table.insert?_eq_some.mp hrow).1, fun r => Table.mem_insert? hrow⟩

/-- The row an operation may insert. -/
def BrokerOp.row? : BrokerOp → Option PubsubMessage
  | .insert row => some row
  | _ => none

theorem handle_other {o : BrokerOp} (h : o.row? = none) :
    (o.handle E w).2.pubsubMessage = w.pubsubMessage := by
  cases o with
  | insert row => cases h
  | fanOut key env =>
    simp only [BrokerOp.handle]
    split <;> rfl
  | channel key =>
    simp only [BrokerOp.handle]
    split <;> rfl
  | select key cursor =>
    simp only [BrokerOp.handle]
    split <;> rfl
  | _ => rfl

theorem handle_insert_frame (E : BrokerEnv) (row : PubsubMessage) (w : BrokerWorld) :
    ((BrokerOp.insert row).handle E w).2.subscriptions = w.subscriptions ∧
      ((BrokerOp.insert row).handle E w).2.channels = w.channels := by
  simp only [BrokerOp.handle]
  split
  · exact ⟨rfl, rfl⟩
  · split <;> exact ⟨rfl, rfl⟩

theorem handle_select (E : BrokerEnv) (key : Key) (cursor : String) (w : BrokerWorld) :
    (∃ err, ((BrokerOp.select key cursor).handle E w).1 = .error err) ∨
      ((BrokerOp.select key cursor).handle E w).1 = .ok ((w.after key cursor).take replayLimit) := by
  simp only [BrokerOp.handle]
  split
  · exact Or.inl ⟨_, rfl⟩
  · exact Or.inr rfl

theorem handle_select_frame (E : BrokerEnv) (key : Key) (cursor : String) (w : BrokerWorld) :
    ((BrokerOp.select key cursor).handle E w).2.subscriptions = w.subscriptions ∧
      ((BrokerOp.select key cursor).handle E w).2.channels = w.channels := by
  simp only [BrokerOp.handle]
  split <;> exact ⟨rfl, rfl⟩

end Messages

theorem decodeRows_ids {X : Crates} {rows : List PubsubMessage} {envs : List Envelope}
    (h : Broker.decodeRows X rows = .ok envs) : envs.map (·.id) = rows.map (·.id) := by
  induction rows generalizing envs with
  | nil =>
    cases h
    rfl
  | cons r rest ih =>
    unfold Broker.decodeRows at h
    split at h
    · cases h
    · cases hrest : Broker.decodeRows X rest with
      | error e =>
        rw [hrest] at h
        cases h
      | ok tail =>
        rw [hrest] at h
        cases h
        rw [List.map_cons, List.map_cons, ih hrest]

/-- `replay_since` fails, or returns the first rows after the cursor; it changes no row. -/
theorem run_replaySince (X : Crates) (E : BrokerEnv) (key : Key) (cursor : String) (w : BrokerWorld) :
    (((Broker.replaySince X key.workspaceId key.topic cursor).run (BrokerOp.handle E)
        w).2.pubsubMessage = w.pubsubMessage) ∧
      ∀ envs, ((Broker.replaySince X key.workspaceId key.topic cursor).run (BrokerOp.handle E) w).1 =
          .ok envs →
        envs.map (·.id) = ((w.after key cursor).take replayLimit).map (·.id) := by
  have hrun : (Broker.replaySince X key.workspaceId key.topic cursor).run (BrokerOp.handle E) w =
      match ((BrokerOp.select key cursor).handle E w).1 with
      | .ok rows => (Broker.decodeRows X rows, ((BrokerOp.select key cursor).handle E w).2)
      | .error e => (.error (.storage e), ((BrokerOp.select key cursor).handle E w).2) := by
    rw [Broker.replaySince, run_bind, run_performOr]
    cases ((BrokerOp.select key cursor).handle E w).1 <;> rfl
  rw [hrun]
  rcases handle_select E key cursor w with ⟨err, herr⟩ | hok
  · rw [herr]
    refine ⟨handle_other rfl, fun envs henvs => ?_⟩
    cases henvs
  · rw [hok]
    exact ⟨handle_other rfl, fun envs henvs => decodeRows_ids henvs⟩

end ActantDb
