import ActantDb.Subscribe.Replay

/-!
# The splice of backfill and live channel

The stream of a subscriber with a cursor is spliced from a backfill, selected after the subscriber is attached to the live channel, and from what is fanned out after that. A publisher inserts its row first and fans it out later. So what a subscription is to receive is at any moment the backfill it has selected and what its channels hold, and every stored envelope after the cursor is among that or still to be fanned out.

`Splice` says so of one subscriber, as long as each envelope is fanned out to it after its backfill was selected and with a greater id than all that is on its way. There is one lemma for each operation that concerns a subscription.
-/

namespace ActantDb

open Prog

variable {ι : Type}

/-! ### Runs -/

/-- A call goes on, or one of the tasks of a subscription does. -/
inductive BrokerLabel (ι : Type) where
  | call (i : ι)
  | forward (subscription : Nat)
  | receive (subscription : Nat)

def BrokerWorld.modify (w : BrokerWorld) (n : Nat) (f : Subscription → Subscription) : BrokerWorld :=
  { w with subscriptions := w.subscriptions.modify n f }

def BrokerPool.step [DecidableEq ι] (E : BrokerEnv) (c : BrokerPool ι) : BrokerLabel ι → BrokerPool ι
  | .call i => Pool.step (BrokerOp.handle E) c i
  | .forward n => { c with world := c.world.modify n (·.forward E.slots) }
  | .receive n => { c with world := c.world.modify n (·.receive) }

/-! ### What a call has done -/

/-- The row a publisher has inserted and not fanned out; the channel a subscriber has opened, its subscription, the rows of its backfill, and whether it has sent them to the bridge. -/
structure Progress where
  call : BrokerCall
  pending : Option PubsubMessage
  opened : Option Key
  attached : Option Nat
  selected : Option (List PubsubMessage)
  bridged : Bool

def Progress.start (call : BrokerCall) : Progress := ⟨call, none, none, none, none, false⟩

/-- The key and the cursor of a call to `subscribe`. -/
def BrokerCall.subscribes : BrokerCall → Option (Key × Option String)
  | .subscribe ws topic since => some (⟨ws, topic⟩, since)
  | _ => none

/-- The steps of each call, in their order. -/
def brokerMonitor : Monitor BrokerOp BrokerOp.Res Progress where
  allowed l o :=
    match o with
    | .insert _ => l.pending = none
    | .fanOut key env => ∃ row, l.pending = some row ∧ row.id = env.id ∧ row.key = key
    | .attach key since =>
      l.call.subscribes = some (key, since) ∧ l.opened = some key ∧ l.attached = none ∧
        l.selected = none ∧ l.bridged = false
    | .select key cursor =>
      ∀ n, l.attached = some n → l.call.subscribes = some (key, some cursor) ∧ l.selected = none
    | .bridge n backfill =>
      l.attached = some n ∧ l.bridged = false ∧
        ∃ rows, l.selected = some rows ∧ backfill.map (·.id) = rows.map (·.id)
    | _ => True
  next l o r :=
    match o, r with
    | .insert row, .ok _ => { l with pending := some row }
    | .fanOut _ _, _ => { l with pending := none }
    | .channel key, _ => { l with opened := some key }
    | .attach _ _, n => { l with attached := some n }
    | .select _ _, .ok rows => if l.attached.isSome then { l with selected := some rows } else l
    | .bridge _ _, _ => { l with bridged := true }
    | _, _ => l

/-- A call that has returned has fanned out what it inserted, and a subscriber with a cursor has set up its bridge. -/
def Returns (l : Progress) (r : Except ActantError BrokerReply) : Prop :=
  l.pending = none ∧ ∀ reply, r = .ok reply → ∀ key cursor,
    l.call.subscribes = some (key, some cursor) → (∃ n, l.attached = some n) ∧ l.bridged = true

theorem returns_error {l : Progress} {e : ActantError} (h : l.pending = none) : Returns l (.error e) :=
  ⟨h, fun _ hr => nomatch hr⟩

theorem call_safe (X : Crates) (call : BrokerCall) :
    Safe brokerMonitor Returns (Progress.start call) (call.issue X) := by
  cases call with
  | publish ws topic payload =>
    show Safe _ _ _ (Broker.publish X ws topic payload >>= _)
    unfold Broker.publish
    split
    · exact returns_error rfl
    refine ⟨trivial, fun r => ?_⟩
    cases r with
    | error e => exact returns_error rfl
    | ok ulid =>
      refine ⟨trivial, fun t => ⟨rfl, fun r => ?_⟩⟩
      cases r with
      | error e => exact returns_error rfl
      | ok _ => exact ⟨⟨_, rfl, rfl, rfl⟩, fun _ => ⟨rfl, fun _ _ _ _ hsub => nomatch hsub⟩⟩
  | subscribe ws topic since =>
    show Safe _ _ _ (Broker.subscribe X ws topic since >>= _)
    unfold Broker.subscribe
    split
    · exact returns_error rfl
    refine ⟨trivial, fun _ => ⟨⟨rfl, rfl, rfl, rfl, rfl⟩, fun n => ?_⟩⟩
    cases since with
    | none => exact ⟨rfl, fun _ _ _ _ hsub => nomatch hsub⟩
    | some cursor =>
      refine ⟨fun m _ => ⟨rfl, rfl⟩, fun r => ?_⟩
      cases r with
      | error e => exact returns_error rfl
      | ok rows =>
        show Safe brokerMonitor Returns _ ((Prog.done (Broker.decodeRows X rows) >>= _) >>= _)
        cases hdecode : Broker.decodeRows X rows with
        | error e => exact returns_error rfl
        | ok backfill =>
          refine ⟨⟨rfl, rfl, rows, rfl, decodeRows_ids hdecode⟩, fun _ => ⟨rfl, ?_⟩⟩
          exact fun _ _ _ _ _ => ⟨⟨n, rfl⟩, rfl⟩
  | replaySince ws topic cursor =>
    refine ⟨fun n hn => (nomatch hn), fun r => ?_⟩
    cases r with
    | error e => exact returns_error rfl
    | ok rows =>
      show Safe brokerMonitor Returns _ (Prog.done (Broker.decodeRows X rows) >>= _)
      cases Broker.decodeRows X rows with
      | error e => exact returns_error rfl
      | ok envs => exact ⟨rfl, fun _ _ _ _ hsub => nomatch hsub⟩

/-! ### What is on its way -/

/-- The backfill that has been selected and not yet been sent to the bridge. -/
def Progress.backlog (l : Progress) : List String :=
  if l.bridged then [] else (l.selected.getD []).map (·.id)

/-- What the subscriber has received, then what is in the bridge, then what has come in live. -/
def Subscription.envelopes (s : Subscription) : List Envelope :=
  s.stream ++ (s.bridge.map (·.queue)).getD [] ++ s.live.queue

/-- The ids after the cursor that the subscriber receives, in the order it does, if nothing more is fanned out. -/
def onItsWay (cursor : String) (l : Progress) (s : Subscription) : List String :=
  (l.backlog ++ s.envelopes.map (·.id)).filter (cursor < ·)

/-- What holds of the subscription of thread `s`. -/
structure Delivery (key : Key) (cursor : String) (progress : ι → Progress) (s : ι) (w : BrokerWorld)
    (sub : Subscription) : Prop where
  key_eq : sub.key = key
  since_eq : sub.since = some cursor
  channel : key ∈ w.channels
  bridged : sub.bridge.isSome = (progress s).bridged
  waiting : sub.bridge = none → sub.stream = []
  early : (progress s).selected = none →
    (progress s).bridged = false ∧ onItsWay cursor (progress s) sub = []
  sorted : (onItsWay cursor (progress s) sub).Pairwise (· < ·)
  sound : ∀ id ∈ onItsWay cursor (progress s) sub, ∃ row ∈ w.pubsubMessage, row.key = key ∧ row.id = id
  complete : (progress s).selected.isSome = true → ∀ row ∈ w.pubsubMessage, row.key = key →
    cursor < row.id → row.id ∈ onItsWay cursor (progress s) sub ∨ ∃ i, (progress i).pending = some row

/-- What holds between any two steps, `s` being a thread that subscribes to `key` after `cursor`. -/
structure Splice (key : Key) (cursor : String) (s : ι) (progress : ι → Progress) (w : BrokerWorld) :
    Prop where
  call : (progress s).call.subscribes = some (key, some cursor)
  opened : ∀ i k, (progress i).opened = some k → k ∈ w.channels
  bound : ∀ i n, (progress i).attached = some n → n < w.subscriptions.length
  unique : ∀ i j n, (progress i).attached = some n → (progress j).attached = some n → i = j
  pending : ∀ i row, (progress i).pending = some row → row ∈ w.pubsubMessage
  delivery : ∀ n, (progress s).attached = some n →
    ∃ sub, w.subscriptions[n]? = some sub ∧ Delivery key cursor progress s w sub

section Statements

variable {key : Key} {cursor : String} {s : ι} {progress progress' : ι → Progress} {w w' : BrokerWorld}
  {sub sub' : Subscription}

/-- Nothing has happened to the subscription; a new row is one that is still to be fanned out. -/
theorem Delivery.mono (h : Delivery key cursor progress s w sub)
    (hselected : (progress' s).selected = (progress s).selected)
    (hbridged : (progress' s).bridged = (progress s).bridged)
    (hchannels : ∀ k ∈ w.channels, k ∈ w'.channels)
    (hrows : ∀ row ∈ w.pubsubMessage, row ∈ w'.pubsubMessage)
    (hnew : ∀ row ∈ w'.pubsubMessage, row ∈ w.pubsubMessage ∨ ∃ i, (progress' i).pending = some row)
    (hpending : ∀ row, row.key = key → (∃ i, (progress i).pending = some row) →
      ∃ i, (progress' i).pending = some row) :
    Delivery key cursor progress' s w' sub := by
  have hway : onItsWay cursor (progress' s) sub = onItsWay cursor (progress s) sub := by
    rw [onItsWay, onItsWay, Progress.backlog, Progress.backlog, hselected, hbridged]
  obtain ⟨hkey, hsince, hchannel, hbridge, hwaiting, hearly, hsorted, hsound, hcomplete⟩ := h
  constructor
  · exact hkey
  · exact hsince
  · exact hchannels key hchannel
  · rwa [hbridged]
  · exact hwaiting
  · rwa [hselected, hbridged, hway]
  · rwa [hway]
  · rw [hway]
    intro id hid
    obtain ⟨row, hrow, hids⟩ := hsound id hid
    exact ⟨row, hrows row hrow, hids⟩
  · rw [hselected, hway]
    intro hsome row hrow hrowkey hafter
    rcases hnew row hrow with hold | hpend
    · exact (hcomplete hsome row hold hrowkey hafter).imp id (hpending row hrowkey)
    · exact Or.inr hpend

/-- A task has moved envelopes towards the subscriber, and lost none after the cursor. -/
theorem Delivery.moved (h : Delivery key cursor progress s w sub) (hkey : sub'.key = sub.key)
    (hsince : sub'.since = sub.since) (hbridge : sub'.bridge.isSome = sub.bridge.isSome)
    (hwaiting : sub'.bridge = none → sub'.stream = [])
    (hway : onItsWay cursor (progress s) sub' = onItsWay cursor (progress s) sub) :
    Delivery key cursor progress s w sub' := by
  constructor
  · exact hkey.trans h.key_eq
  · exact hsince.trans h.since_eq
  · exact h.channel
  · exact hbridge.trans h.bridged
  · exact hwaiting
  · rw [hway]
    exact h.early
  · rw [hway]
    exact h.sorted
  · rw [hway]
    exact h.sound
  · rw [hway]
    exact h.complete

/-- One more envelope has come in live. -/
theorem onItsWay_live {l : Progress} {env : Envelope}
    (hsent : sub'.envelopes = sub.envelopes ++ [env]) :
    onItsWay cursor l sub' = onItsWay cursor l sub ++ [env.id].filter (cursor < ·) := by
  rw [onItsWay, onItsWay, hsent, List.map_append, ← List.append_assoc, List.filter_append]
  rfl

variable [DecidableEq ι]

/-- Thread `i` goes on, and nothing happens to any subscription. -/
theorem Splice.next (h : Splice key cursor s progress w) {i : ι} {l : Progress}
    (hcall : l.call = (progress i).call) (hattached : l.attached = (progress i).attached)
    (hselected : i = s → l.selected = (progress i).selected)
    (hbridged : i = s → l.bridged = (progress i).bridged)
    (hsubs : w'.subscriptions = w.subscriptions)
    (hchannels : ∀ k ∈ w.channels, k ∈ w'.channels)
    (hopened : ∀ k, l.opened = some k → k ∈ w'.channels)
    (hrows : ∀ row ∈ w.pubsubMessage, row ∈ w'.pubsubMessage)
    (hnew : ∀ row ∈ w'.pubsubMessage, row ∈ w.pubsubMessage ∨ l.pending = some row)
    (hpending : ∀ row, (progress i).pending = some row → l.pending = some row)
    (hstored : ∀ row, l.pending = some row → row ∈ w'.pubsubMessage) :
    Splice key cursor s (Function.update progress i l) w' := by
  have hattached' : ∀ j, (Function.update progress i l j).attached = (progress j).attached :=
    Pool.update_same Progress.attached hattached
  constructor
  · rw [Pool.update_same Progress.call hcall]
    exact h.call
  · intro j k hk
    by_cases hj : j = i
    · rw [hj, Function.update_self] at hk
      exact hopened k hk
    · rw [Function.update_of_ne hj] at hk
      exact hchannels k (h.opened j k hk)
  · intro j n hn
    rw [hsubs]
    exact h.bound j n (hattached' j ▸ hn)
  · exact fun j k n hj hk => h.unique j k n (hattached' j ▸ hj) (hattached' k ▸ hk)
  · intro j row hrow
    by_cases hj : j = i
    · rw [hj, Function.update_self] at hrow
      exact hstored row hrow
    · rw [Function.update_of_ne hj] at hrow
      exact hrows row (h.pending j row hrow)
  · intro n hn
    obtain ⟨sub, hsub, hdelivery⟩ := h.delivery n (hattached' s ▸ hn)
    refine ⟨sub, hsubs ▸ hsub, ?_⟩
    apply hdelivery.mono
    · by_cases hs : s = i
      · rw [hs, Function.update_self]
        exact hselected hs.symm
      · rw [Function.update_of_ne hs]
    · by_cases hs : s = i
      · rw [hs, Function.update_self]
        exact hbridged hs.symm
      · rw [Function.update_of_ne hs]
    · exact hchannels
    · exact hrows
    · intro row hrow
      refine (hnew row hrow).imp id fun hpend => ⟨i, ?_⟩
      rw [Function.update_self]
      exact hpend
    · rintro row - ⟨j, hj⟩
      refine ⟨j, ?_⟩
      by_cases hji : j = i
      · rw [hji, Function.update_self]
        exact hpending row (hji ▸ hj)
      · rwa [Function.update_of_ne hji]

theorem Splice.congr (h : Splice key cursor s progress w) {i : ι}
    (hsubs : w'.subscriptions = w.subscriptions) (hchannels : w'.channels = w.channels)
    (hrows : w'.pubsubMessage = w.pubsubMessage) :
    Splice key cursor s (Function.update progress i (progress i)) w' := by
  apply h.next
  · rfl
  · rfl
  · exact fun _ => rfl
  · exact fun _ => rfl
  · exact hsubs
  · exact fun k hk => hchannels ▸ hk
  · exact fun k hk => hchannels ▸ h.opened i k hk
  · exact fun row hrow => hrows ▸ hrow
  · exact fun row hrow => Or.inl (hrows ▸ hrow)
  · exact fun row hrow => hrow
  · exact fun row hrow => hrows ▸ h.pending i row hrow

omit [DecidableEq ι] in
/-- The envelope of a row that was still to be fanned out has come to the subscription. -/
theorem Delivery.sent (h : Delivery key cursor progress s w sub) {row : PubsubMessage} {env : Envelope}
    (hrow : row ∈ w.pubsubMessage) (hkey : row.key = key) (hid : row.id = env.id)
    (hselected : (progress' s).selected = (progress s).selected)
    (hbridged : (progress' s).bridged = (progress s).bridged) (hchannels : w'.channels = w.channels)
    (hrows : w'.pubsubMessage = w.pubsubMessage)
    (horder : cursor < env.id → (progress s).selected.isSome = true ∧
      ∀ id ∈ onItsWay cursor (progress s) sub, id < env.id)
    (hstill : ∀ row', row' ≠ row → (∃ i, (progress i).pending = some row') →
      ∃ i, (progress' i).pending = some row') :
    Delivery key cursor progress' s w'
      { sub with live := { sub.live with queue := sub.live.queue ++ [env] } } := by
  have hway : onItsWay cursor (progress s)
        { sub with live := { sub.live with queue := sub.live.queue ++ [env] } } =
      onItsWay cursor (progress s) sub ++ [env.id].filter (cursor < ·) :=
    onItsWay_live (by simp [Subscription.envelopes])
  have hway' : onItsWay cursor (progress' s)
        { sub with live := { sub.live with queue := sub.live.queue ++ [env] } } =
      onItsWay cursor (progress s) sub ++ [env.id].filter (cursor < ·) := by
    rw [← hway, onItsWay, onItsWay, Progress.backlog, Progress.backlog, hselected, hbridged]
  constructor
  · exact h.key_eq
  · exact h.since_eq
  · exact hchannels ▸ h.channel
  · rw [hbridged]
    exact h.bridged
  · exact h.waiting
  · rw [hselected, hbridged, hway']
    intro hnone
    refine ⟨(h.early hnone).1, ?_⟩
    rw [(h.early hnone).2, List.nil_append, List.filter_eq_nil_iff]
    intro id hidmem hafter
    rw [List.mem_singleton.mp hidmem] at hafter
    have hsome := (horder (of_decide_eq_true hafter)).1
    rw [hnone] at hsome
    cases hsome
  · rw [hway', List.pairwise_append]
    refine ⟨h.sorted, (List.pairwise_singleton _ _).filter _, fun a ha b hb => ?_⟩
    obtain ⟨hb, hafter⟩ := List.mem_filter.mp hb
    rw [List.mem_singleton.mp hb] at hafter ⊢
    exact (horder (of_decide_eq_true hafter)).2 a ha
  · rw [hway', hrows]
    intro id hidmem
    rcases List.mem_append.mp hidmem with hold | hnew
    · exact h.sound id hold
    · have heq := List.mem_singleton.mp (List.mem_of_mem_filter hnew)
      exact ⟨row, hrow, hkey, hid.trans heq.symm⟩
  · rw [hselected, hway', hrows]
    intro hsome row' hrow' hrowkey hafter
    by_cases hsame : row' = row
    · left
      rw [hsame] at hafter ⊢
      rw [hid] at hafter ⊢
      exact List.mem_append_right _ (List.mem_filter.mpr ⟨List.mem_singleton_self _, decide_eq_true hafter⟩)
    · exact (h.complete hsome row' hrow' hrowkey hafter).imp (List.mem_append_left _) (hstill row' hsame)

/-- An envelope is fanned out, with the greatest id of all that is on its way. -/
theorem Splice.fanOut (h : Splice key cursor s progress w) {i : ι} {row : PubsubMessage}
    {env : Envelope} {E : BrokerEnv} (hpend : (progress i).pending = some row) (hid : row.id = env.id)
    (hlive : row.key = key → ∀ n sub, (progress s).attached = some n →
      w.subscriptions[n]? = some sub → sub.live.queue.length < E.slots)
    (horder : row.key = key → cursor < env.id → ∀ n sub, (progress s).attached = some n →
      w.subscriptions[n]? = some sub → (progress s).selected.isSome = true ∧
        ∀ id ∈ onItsWay cursor (progress s) sub, id < env.id) :
    Splice key cursor s (Function.update progress i { progress i with pending := none })
      ((BrokerOp.fanOut row.key env).handle E w).2 := by
  have hattached : ∀ j, (Function.update progress i { progress i with pending := none } j).attached =
      (progress j).attached := Pool.update_same Progress.attached rfl
  have hselected : ∀ j, (Function.update progress i { progress i with pending := none } j).selected =
      (progress j).selected := Pool.update_same Progress.selected rfl
  have hbridged : ∀ j, (Function.update progress i { progress i with pending := none } j).bridged =
      (progress j).bridged := Pool.update_same Progress.bridged rfl
  -- only row `row` is no longer pending
  have hstill : ∀ row', row' ≠ row → (∃ j, (progress j).pending = some row') →
      ∃ j, (Function.update progress i { progress i with pending := none } j).pending = some row' := by
    rintro row' hne ⟨j, hj⟩
    refine ⟨j, ?_⟩
    by_cases hji : j = i
    · rw [hji, hpend] at hj
      exact absurd (Option.some.inj hj).symm hne
    · rwa [Function.update_of_ne hji]
  have hchannels : ((BrokerOp.fanOut row.key env).handle E w).2.channels = w.channels := by
    simp only [BrokerOp.handle]
    split <;> rfl
  have hrows : ((BrokerOp.fanOut row.key env).handle E w).2.pubsubMessage = w.pubsubMessage :=
    handle_other rfl
  have hcall : ∀ j, (Function.update progress i { progress i with pending := none } j).call =
      (progress j).call := Pool.update_same Progress.call rfl
  have hopened : ∀ j, (Function.update progress i { progress i with pending := none } j).opened =
      (progress j).opened := Pool.update_same Progress.opened rfl
  constructor
  · rw [hcall]
    exact h.call
  · intro j k hk
    rw [hopened] at hk
    rw [hchannels]
    exact h.opened j k hk
  · intro j n hn
    rw [hattached] at hn
    simp only [BrokerOp.handle]
    split
    · rw [List.length_map]
      exact h.bound j n hn
    · exact h.bound j n hn
  · exact fun j k n hj hk => h.unique j k n (hattached j ▸ hj) (hattached k ▸ hk)
  · intro j row' hrow'
    rw [hrows]
    by_cases hj : j = i
    · rw [hj, Function.update_self] at hrow'
      cases hrow'
    · rw [Function.update_of_ne hj] at hrow'
      exact h.pending j row' hrow'
  · intro n hn
    rw [hattached] at hn
    obtain ⟨sub, hsub, hdelivery⟩ := h.delivery n hn
    by_cases hkey : row.key = key
    · -- the subscription gets the envelope
      have hopen : row.key ∈ w.channels := hkey ▸ hdelivery.channel
      have hsent : sub.send E.slots row.key env =
          { sub with live := { sub.live with queue := sub.live.queue ++ [env] } } := by
        rw [Subscription.send, if_pos (hdelivery.key_eq.trans hkey.symm),
          Receiver.push_of_lt (hlive hkey n sub hn hsub)]
      refine ⟨sub.send E.slots row.key env, ?_, ?_⟩
      · simp only [BrokerOp.handle, hopen, if_true, List.getElem?_map, hsub, Option.map_some]
      rw [hsent]
      exact hdelivery.sent (h.pending i row hpend) hkey hid (hselected s) (hbridged s) hchannels hrows
        (fun hafter => horder hkey hafter n sub hn hsub) hstill
    · refine ⟨sub, ?_, ?_⟩
      · simp only [BrokerOp.handle]
        split
        · simp only [List.getElem?_map, hsub, Option.map_some, Subscription.send]
          rw [if_neg fun heq => hkey (heq.symm.trans hdelivery.key_eq)]
        · exact hsub
      · apply hdelivery.mono (hselected s) (hbridged s)
        · exact fun k hk => hchannels ▸ hk
        · exact fun r hr => hrows ▸ hr
        · exact fun r hr => Or.inl (hrows ▸ hr)
        · exact fun r hr => hstill r fun heq => hkey (heq ▸ hr)

/-- A subscriber is attached to the live channel. -/
theorem Splice.attach (h : Splice key cursor s progress w) {i : ι} {k : Key} {since : Option String}
    (hallowed : brokerMonitor.allowed (progress i) (.attach k since)) :
    Splice key cursor s
      (Function.update progress i { progress i with attached := some w.subscriptions.length })
      { w with subscriptions := w.subscriptions ++ [⟨k, since, .new, none, []⟩] } := by
  obtain ⟨hsubscribes, hopen, -, hnone, hunbridged⟩ := hallowed
  have hcall : ∀ j, (Function.update progress i
      { progress i with attached := some w.subscriptions.length } j).call = (progress j).call :=
    Pool.update_same Progress.call rfl
  have hopened : ∀ j, (Function.update progress i
      { progress i with attached := some w.subscriptions.length } j).opened = (progress j).opened :=
    Pool.update_same Progress.opened rfl
  have hpending : ∀ j, (Function.update progress i
      { progress i with attached := some w.subscriptions.length } j).pending = (progress j).pending :=
    Pool.update_same Progress.pending rfl
  have hselected : ∀ j, (Function.update progress i
      { progress i with attached := some w.subscriptions.length } j).selected =
        (progress j).selected := Pool.update_same Progress.selected rfl
  have hbridged : ∀ j, (Function.update progress i
      { progress i with attached := some w.subscriptions.length } j).bridged = (progress j).bridged :=
    Pool.update_same Progress.bridged rfl
  constructor
  · rw [hcall]
    exact h.call
  · intro j k' hk'
    exact h.opened j k' (hopened j ▸ hk')
  · intro j n hn
    rw [List.length_append, List.length_singleton]
    by_cases hj : j = i
    · rw [hj, Function.update_self] at hn
      rw [← Option.some.inj hn]
      exact Nat.lt_succ_self _
    · rw [Function.update_of_ne hj] at hn
      exact Nat.lt_succ_of_lt (h.bound j n hn)
  · intro j j' n hj hj'
    by_cases hji : j = i <;> by_cases hji' : j' = i
    · exact hji.trans hji'.symm
    · rw [hji, Function.update_self] at hj
      rw [Function.update_of_ne hji'] at hj'
      exact absurd (h.bound j' n hj') (by rw [← Option.some.inj hj]; exact lt_irrefl _)
    · rw [hji', Function.update_self] at hj'
      rw [Function.update_of_ne hji] at hj
      exact absurd (h.bound j n hj) (by rw [← Option.some.inj hj']; exact lt_irrefl _)
    · rw [Function.update_of_ne hji] at hj
      rw [Function.update_of_ne hji'] at hj'
      exact h.unique j j' n hj hj'
  · exact fun j row hrow => h.pending j row (hpending j ▸ hrow)
  · intro n hn
    by_cases hs : s = i
    · rw [hs, Function.update_self] at hn
      have hcalled := h.call
      rw [hs, hsubscribes] at hcalled
      obtain ⟨rfl, rfl⟩ : k = key ∧ since = some cursor := by simpa using hcalled
      have hway : onItsWay cursor (Function.update progress i
          { progress i with attached := some w.subscriptions.length } s)
            ⟨k, some cursor, .new, none, []⟩ = [] := by
        rw [onItsWay, Progress.backlog, hselected, hbridged, hs, hnone, hunbridged]
        rfl
      refine ⟨⟨k, some cursor, .new, none, []⟩, ?_, ?_⟩
      · rw [← Option.some.inj hn]
        exact List.getElem?_concat_length
      constructor
      · rfl
      · rfl
      · exact h.opened i k hopen
      · rw [hbridged, hs, hunbridged]
        rfl
      · exact fun _ => rfl
      · intro _
        rw [hbridged, hs]
        exact ⟨hunbridged, hs ▸ hway⟩
      · rw [hway]
        exact List.Pairwise.nil
      · rw [hway]
        intro id hid
        cases hid
      · rw [hselected, hs, hnone]
        intro hsome
        cases hsome
    · rw [Function.update_of_ne hs] at hn
      obtain ⟨sub, hsub, hdelivery⟩ := h.delivery n hn
      refine ⟨sub, ?_, ?_⟩
      · rw [List.getElem?_append_left (h.bound s n hn)]
        exact hsub
      · apply hdelivery.mono (hselected s) (hbridged s)
        · exact fun k hk => hk
        · exact fun row hrow => hrow
        · exact fun row hrow => Or.inl hrow
        · rintro row - ⟨j, hj⟩
          exact ⟨j, (hpending j).trans hj⟩

/-- Thread `i` goes on, and only its backfill and its bridge are concerned. -/
theorem Splice.keep (h : Splice key cursor s progress w) {i : ι} {l : Progress}
    (hcall : l.call = (progress i).call) (hopened : l.opened = (progress i).opened)
    (hpending : l.pending = (progress i).pending) (hattached : l.attached = (progress i).attached)
    (hlength : w'.subscriptions.length = w.subscriptions.length) (hchannels : w'.channels = w.channels)
    (hrows : w'.pubsubMessage = w.pubsubMessage)
    (hdelivery : ∀ n sub, (progress s).attached = some n → w.subscriptions[n]? = some sub →
      Delivery key cursor progress s w sub → ∃ sub', w'.subscriptions[n]? = some sub' ∧
        Delivery key cursor (Function.update progress i l) s w' sub') :
    Splice key cursor s (Function.update progress i l) w' := by
  have hattached' : ∀ j, (Function.update progress i l j).attached = (progress j).attached :=
    Pool.update_same Progress.attached hattached
  constructor
  · rw [Pool.update_same Progress.call hcall]
    exact h.call
  · intro j k hk
    rw [Pool.update_same Progress.opened hopened] at hk
    rw [hchannels]
    exact h.opened j k hk
  · intro j n hn
    rw [hlength]
    exact h.bound j n (hattached' j ▸ hn)
  · exact fun j k n hj hk => h.unique j k n (hattached' j ▸ hj) (hattached' k ▸ hk)
  · intro j row hrow
    rw [Pool.update_same Progress.pending hpending] at hrow
    rw [hrows]
    exact h.pending j row hrow
  · intro n hn
    rw [hattached'] at hn
    obtain ⟨sub, hsub, hsubDelivery⟩ := h.delivery n hn
    exact hdelivery n sub hn hsub hsubDelivery

/-- The subscriber selects its backfill. -/
theorem Splice.select (h : Splice key cursor s progress w) (hnone : (progress s).selected = none)
    (hsubs : w'.subscriptions = w.subscriptions) (hchannels : w'.channels = w.channels)
    (hrows : w'.pubsubMessage = w.pubsubMessage) :
    Splice key cursor s
      (Function.update progress s { progress s with selected := some (w.after key cursor) }) w' := by
  refine h.keep rfl rfl rfl rfl (congrArg List.length hsubs) hchannels hrows ?_
  intro m sub hm hsub hdelivery
  obtain ⟨hunbridged, hearly⟩ := hdelivery.early hnone
  -- nothing was on its way, so it is the backfill that is now
  have hway : onItsWay cursor (Function.update progress s
      { progress s with selected := some (w.after key cursor) } s) sub =
        (w.after key cursor).map (·.id) := by
    rw [onItsWay, Progress.backlog, hunbridged, hnone, List.filter_append] at hearly
    rw [Function.update_self, onItsWay, Progress.backlog, hunbridged, List.filter_append,
      (List.append_eq_nil_iff.mp hearly).2, List.append_nil]
    apply List.filter_eq_self.mpr
    intro id hid
    obtain ⟨row, hrow, rfl⟩ := List.mem_map.mp hid
    exact decide_eq_true (mem_after.mp hrow).2.2
  refine ⟨sub, hsubs ▸ hsub, ?_⟩
  constructor
  · exact hdelivery.key_eq
  · exact hdelivery.since_eq
  · rw [hchannels]
    exact hdelivery.channel
  · rw [Function.update_self]
    exact hdelivery.bridged
  · exact hdelivery.waiting
  · rw [Function.update_self]
    intro hsome
    cases hsome
  · rw [hway]
    exact after_sorted
  · rw [hway, hrows]
    intro id hid
    obtain ⟨row, hrow, rfl⟩ := List.mem_map.mp hid
    exact ⟨row, (mem_after.mp hrow).1, (mem_after.mp hrow).2.1, rfl⟩
  · rw [hway, hrows]
    exact fun _ row hrow hkey hafter =>
      Or.inl (List.mem_map_of_mem (mem_after.mpr ⟨hrow, hkey, hafter⟩))

/-- The backfill is sent to the bridge of its subscription, and fits in. -/
theorem Splice.bridge (h : Splice key cursor s progress w) {i : ι} {n slots : Nat}
    {backfill : List Envelope} (hallowed : brokerMonitor.allowed (progress i) (.bridge n backfill))
    (hfits : i = s → backfill.length ≤ slots) :
    Splice key cursor s (Function.update progress i { progress i with bridged := true })
      (w.modify n fun sub => { sub with bridge := some (backfill.foldl (·.push slots) .new) }) := by
  obtain ⟨hattached, hunbridged, rows, hselected, hids⟩ := hallowed
  refine h.keep rfl rfl rfl rfl (List.length_modify _ _ _) rfl rfl ?_
  intro m sub hm hsub hdelivery
  have hsub' : (w.modify n fun sub =>
      { sub with bridge := some (backfill.foldl (·.push slots) .new) }).subscriptions[m]? =
        some (if n = m then { sub with bridge := some (backfill.foldl (·.push slots) .new) }
          else sub) := by
    rw [BrokerWorld.modify, List.getElem?_modify, hsub]
    rfl
  refine ⟨_, hsub', ?_⟩
  by_cases hs : i = s
  · subst hs
    have hnm : n = m := Option.some.inj (hattached.symm.trans hm)
    rw [if_pos hnm]
    have hnobridge : sub.bridge = none := by
      have hisSome := hdelivery.bridged
      rw [hunbridged] at hisSome
      exact Option.not_isSome_iff_eq_none.mp (by rw [hisSome]; exact Bool.false_ne_true)
    have hsent : backfill.foldl (·.push slots) .new = (⟨backfill, 0⟩ : Receiver Envelope) := by
      have hroom : (Receiver.new : Receiver Envelope).queue.length + backfill.length ≤ slots := by
        simpa using hfits rfl
      have hfold := Receiver.foldl_push hroom
      simpa [Receiver.new] using hfold
    have hway : onItsWay cursor (Function.update progress i { progress i with bridged := true } i)
        { sub with bridge := some (backfill.foldl (·.push slots) .new) } =
          onItsWay cursor (progress i) sub := by
      rw [hsent, Function.update_self, onItsWay, onItsWay, Progress.backlog, Progress.backlog,
        hunbridged, hselected, Subscription.envelopes, Subscription.envelopes, hnobridge,
        hdelivery.waiting hnobridge]
      simp [hids]
    constructor
    · exact hdelivery.key_eq
    · exact hdelivery.since_eq
    · exact hdelivery.channel
    · rw [Function.update_self]
      rfl
    · intro hnone
      cases hnone
    · rw [Function.update_self, hselected]
      intro hnone
      cases hnone
    · rw [hway]
      exact hdelivery.sorted
    · rw [hway]
      exact hdelivery.sound
    · rw [hway]
      intro _ row hrow hkey hafter
      have hsome : (progress i).selected.isSome = true := by
        rw [hselected]
        rfl
      refine (hdelivery.complete hsome row hrow hkey hafter).imp id ?_
      rintro ⟨j, hj⟩
      refine ⟨j, ?_⟩
      rw [Pool.update_same Progress.pending (by rfl)]
      exact hj
  · have hnm : n ≠ m := fun heq => hs (h.unique i s m (heq ▸ hattached) hm)
    rw [if_neg hnm]
    have hsame : ∀ j, (Function.update progress i { progress i with bridged := true } j).pending =
        (progress j).pending := Pool.update_same Progress.pending rfl
    apply hdelivery.mono
    · rw [Function.update_of_ne (Ne.symm hs)]
    · rw [Function.update_of_ne (Ne.symm hs)]
    · exact fun k hk => hk
    · exact fun row hrow => hrow
    · exact fun row hrow => Or.inl hrow
    · rintro row - ⟨j, hj⟩
      exact ⟨j, (hsame j).trans hj⟩

omit [DecidableEq ι] in
/-- A task goes on with one subscription. -/
theorem Splice.modify (h : Splice key cursor s progress w) {m : Nat} {f : Subscription → Subscription}
    (hf : ∀ sub, (progress s).attached = some m → w.subscriptions[m]? = some sub →
      Delivery key cursor progress s w sub → Delivery key cursor progress s w (f sub)) :
    Splice key cursor s progress (w.modify m f) := by
  obtain ⟨hcall, hopened, hbound, hunique, hpending, hdelivery⟩ := h
  refine ⟨hcall, hopened, fun i n hn => ?_, hunique, hpending, fun n hn => ?_⟩
  · rw [BrokerWorld.modify, List.length_modify]
    exact hbound i n hn
  · obtain ⟨sub, hsub, hsubDelivery⟩ := hdelivery n hn
    have hsub' : (w.modify m f).subscriptions[n]? = some (if m = n then f sub else sub) := by
      rw [BrokerWorld.modify, List.getElem?_modify, hsub]
      rfl
    refine ⟨_, hsub', ?_⟩
    apply Delivery.mono (w := w) _ rfl rfl
    · exact fun k hk => hk
    · exact fun row hrow => hrow
    · exact fun row hrow => Or.inl hrow
    · exact fun row _ hpend => hpend
    by_cases hm : m = n
    · rw [if_pos hm]
      subst hm
      exact hf sub hn hsub hsubDelivery
    · rwa [if_neg hm]

end Statements

end ActantDb
