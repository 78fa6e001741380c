import ActantDb.Core.Ids
import ActantDb.Lib.Broadcast
import ActantDb.Lib.Run
import ActantDb.Subscribe.Predicate

/-!
# The hub

The hub keeps one broadcast channel of 256 slots for each topic that was ever subscribed to. A filtered subscription reads its receiver in a loop and drops what does not match its predicate, so a message that does not match still takes up a slot.

For a subscription that is there the other topics and the other subscriptions do not exist: what its calls return is fixed by what is published to its own topic and by when it reads (`hub_delivers`).
-/

namespace ActantDb.Hub

structure Topic where
  workspaceId : WorkspaceId
  sessionId : Option SessionId
  kind : String
deriving DecidableEq

structure Message where
  topic : Topic
  payload : Value
  publishedAt : String

/-- The slots of a channel. -/
def slots : Nat := 256

/-- A subscription, with what its calls of `try_recv` have returned so far. -/
structure FilteredSubscription where
  topic : Topic
  rx : Receiver Message
  predicate : Option Predicate
  returned : List (Receiver.Recv Message)

namespace FilteredSubscription

variable (s : FilteredSubscription)

def matching (msg : Message) : Bool :=
  match s.predicate with
  | none => true
  | some p => p.evaluate msg.payload

end FilteredSubscription

/-- The loop of `try_recv`: it goes on as long as it reads messages that do not match. -/
def tryRecvLoop (matching : Message → Bool) : List Message → Receiver.Recv Message × List Message
  | [] => (.empty, [])
  | msg :: queue => if matching msg then (.ok msg, queue) else tryRecvLoop matching queue

/-- The call returns. -/
def FilteredSubscription.returning (s : FilteredSubscription) (answer : Receiver.Recv Message) (rx : Receiver Message) :
    FilteredSubscription :=
  { s with rx, returned := s.returned ++ [answer] }

/-- `recv` does the same, except that it waits where this one returns that the channel is empty. -/
def FilteredSubscription.tryRecv (s : FilteredSubscription) : FilteredSubscription :=
  if 0 < s.rx.missed then s.returning (.lagged s.rx.missed) { s.rx with missed := 0 }
  else
    let (answer, queue) := tryRecvLoop s.matching s.rx.queue
    s.returning answer { s.rx with queue }

structure SubscribeHub where
  senders : List Topic
  subscriptions : List FilteredSubscription

def SubscribeHub.new : SubscribeHub := ⟨[], []⟩

inductive Event where
  | subscribe (topic : Topic) (predicate : Option Predicate)
  | publish (msg : Message)
  | tryRecv (subscription : Nat)

def FilteredSubscription.hear (msg : Message) (s : FilteredSubscription) : FilteredSubscription :=
  if s.topic = msg.topic then { s with rx := s.rx.push slots msg } else s

def SubscribeHub.step (hub : SubscribeHub) : Event → SubscribeHub
  | .subscribe topic predicate =>
    ⟨if topic ∈ hub.senders then hub.senders else hub.senders ++ [topic],
      hub.subscriptions ++ [⟨topic, .new, predicate, []⟩]⟩
  | .publish msg =>
    -- a topic without a channel has no subscribers
    if msg.topic ∈ hub.senders then { hub with subscriptions := hub.subscriptions.map (.hear msg) } else hub
  | .tryRecv k => { hub with subscriptions := hub.subscriptions.modify k .tryRecv }

/-! ### One subscription -/

/-- What is published to a topic. -/
def published (topic : Topic) (events : List Event) : List Message :=
  events.filterMap fun
    | .publish msg => if topic = msg.topic then some msg else none
    | _ => none

/-- The messages that the calls have returned. -/
def FilteredSubscription.received (s : FilteredSubscription) : List Message :=
  s.returned.filterMap fun
    | .ok msg => some msg
    | _ => none

/-- How many messages the calls have reported as missed. -/
def FilteredSubscription.told (s : FilteredSubscription) : Nat :=
  (s.returned.map fun
    | .lagged n => n
    | _ => 0).sum

section Subscription

variable {s : FilteredSubscription} {sent : List Message}

/-- What a subscription has made of what was published to its topic while it was there. -/
structure Delivered (sent : List Message) (s : FilteredSubscription) : Prop where
  account : ∃ taken, Receiver.Account slots sent taken s.told s.rx ∧ s.received = taken.filter s.matching

/-- The loop reads up to the first message that matches. -/
theorem tryRecvLoop_cases (matching : Message → Bool) (queue : List Message) :
    (∃ skipped msg rest, queue = skipped ++ msg :: rest ∧ skipped.filter matching = [] ∧ matching msg = true ∧
        tryRecvLoop matching queue = (.ok msg, rest)) ∨
      (queue.filter matching = [] ∧ tryRecvLoop matching queue = (.empty, [])) := by
  induction queue with
  | nil => exact Or.inr ⟨rfl, rfl⟩
  | cons msg queue ih =>
    rw [tryRecvLoop]
    cases hmsg : matching msg with
    | true => exact Or.inl ⟨[], msg, queue, rfl, rfl, hmsg, if_pos rfl⟩
    | false =>
      rw [if_neg Bool.false_ne_true]
      rcases ih with ⟨skipped, msg', rest, hqueue, hskipped, hmatch, hloop⟩ | ⟨hnone, hloop⟩
      · refine Or.inl ⟨msg :: skipped, msg', rest, by rw [hqueue]; rfl, ?_, hmatch, hloop⟩
        rw [List.filter_cons_of_neg (by simp [hmsg]), hskipped]
      · refine Or.inr ⟨?_, hloop⟩
        rw [List.filter_cons_of_neg (by simp [hmsg]), hnone]

theorem delivered_new (topic : Topic) (predicate : Option Predicate) : Delivered [] ⟨topic, .new, predicate, []⟩ :=
  ⟨[], Receiver.account_new, rfl⟩

theorem Delivered.hear (h : Delivered sent s) (msg : Message) :
    Delivered (sent ++ if s.topic = msg.topic then [msg] else []) (s.hear msg) := by
  rw [FilteredSubscription.hear]
  split
  · obtain ⟨taken, haccount, hreceived⟩ := h.account
    exact ⟨taken, haccount.push (by decide) msg, hreceived⟩
  · rwa [List.append_nil]

theorem received_returning (answer : Receiver.Recv Message) (rx : Receiver Message) :
    (s.returning answer rx).received = s.received ++ (match answer with | .ok msg => [msg] | _ => []) := by
  rw [FilteredSubscription.received, FilteredSubscription.returning, List.filterMap_append]
  cases answer <;> rfl

theorem told_returning (answer : Receiver.Recv Message) (rx : Receiver Message) :
    (s.returning answer rx).told = s.told + (match answer with | .lagged n => n | _ => 0) := by
  rw [FilteredSubscription.told, FilteredSubscription.returning, List.map_append, List.sum_append, List.map_singleton,
    List.sum_singleton]
  cases answer <;> rfl

theorem Delivered.tryRecv (h : Delivered sent s) : Delivered sent s.tryRecv := by
  obtain ⟨taken, haccount, hreceived⟩ := h.account
  rw [FilteredSubscription.tryRecv]
  split
  · refine ⟨taken, ?_, ?_⟩
    · rw [told_returning]
      exact haccount.tell
    · rw [received_returning, List.append_nil]
      exact hreceived
  · rcases tryRecvLoop_cases s.matching s.rx.queue with ⟨skipped, msg, rest, hqueue, hskipped, hmatch, hloop⟩ | ⟨hnone, hloop⟩
    · rw [hloop]
      refine ⟨taken ++ (skipped ++ [msg]), ?_, ?_⟩
      · rw [told_returning]
        exact haccount.takes (skipped ++ [msg]) (by rw [hqueue, List.append_assoc, List.singleton_append])
      · rw [received_returning, hreceived]
        show _ = (taken ++ (skipped ++ [msg])).filter s.matching
        rw [List.filter_append, List.filter_append, hskipped, List.nil_append, List.filter_cons_of_pos hmatch, List.filter_nil]
    · rw [hloop]
      refine ⟨taken ++ s.rx.queue, ?_, ?_⟩
      · rw [told_returning]
        exact haccount.takes s.rx.queue (by rw [List.append_nil])
      · rw [received_returning, List.append_nil, hreceived]
        show _ = (taken ++ s.rx.queue).filter s.matching
        rw [List.filter_append, hnone, List.append_nil]

end Subscription

/-! ### The hub -/

section Run

variable {hub : SubscribeHub} {k : Nat} {s : FilteredSubscription} {sent : List Message}

/-- Every subscription has a channel. -/
def Covered (hub : SubscribeHub) : Prop := ∀ s ∈ hub.subscriptions, s.topic ∈ hub.senders

theorem covered_new : Covered .new := fun _ h => nomatch h

theorem topic_hear (msg : Message) : (s.hear msg).topic = s.topic := by
  rw [FilteredSubscription.hear]
  split <;> rfl

theorem topic_tryRecv : s.tryRecv.topic = s.topic := by
  rw [FilteredSubscription.tryRecv]
  split <;> rfl

theorem predicate_hear (msg : Message) : (s.hear msg).predicate = s.predicate := by
  rw [FilteredSubscription.hear]
  split <;> rfl

theorem predicate_tryRecv : s.tryRecv.predicate = s.predicate := by
  rw [FilteredSubscription.tryRecv]
  split <;> rfl

theorem Covered.step (h : Covered hub) (e : Event) : Covered (hub.step e) := by
  cases e with
  | subscribe topic predicate =>
    have hkept : ∀ t ∈ hub.senders, t ∈ (hub.step (.subscribe topic predicate)).senders := fun t ht => by
      simp only [SubscribeHub.step]
      split
      · exact ht
      · exact List.mem_append_left _ ht
    have hnew : topic ∈ (hub.step (.subscribe topic predicate)).senders := by
      simp only [SubscribeHub.step]
      split
      · assumption
      · exact List.mem_append_right _ (List.mem_singleton_self _)
    intro s hs
    rcases List.mem_append.mp hs with hs | hs
    · exact hkept _ (h s hs)
    · rw [List.mem_singleton.mp hs]
      exact hnew
  | publish msg =>
    simp only [SubscribeHub.step]
    split
    · intro s hs
      obtain ⟨s', hs', rfl⟩ := List.mem_map.mp hs
      rw [topic_hear]
      exact h s' hs'
    · exact h
  | tryRecv k =>
    intro s hs
    obtain ⟨i, hi⟩ := List.mem_iff_getElem?.mp hs
    simp only [SubscribeHub.step, List.getElem?_modify] at hi
    obtain ⟨s', hs', hmodified⟩ := Option.map_eq_some_iff.mp hi
    have hcovered := h s' (List.mem_of_getElem? hs')
    split at hmodified
    · rw [← hmodified, topic_tryRecv]
      exact hcovered
    · rw [← hmodified]
      exact hcovered

theorem Covered.run (h : Covered hub) (events : List Event) : Covered (Lts.run SubscribeHub.step hub events) := by
  induction events generalizing hub with
  | nil => exact h
  | cons e events ih => exact ih (h.step e)

/-- What the subscription with the number makes of one step. -/
theorem delivered_step (hcovered : Covered hub) (hs : hub.subscriptions[k]? = some s) (h : Delivered sent s) (e : Event) :
    ∃ s', (hub.step e).subscriptions[k]? = some s' ∧ s'.topic = s.topic ∧ s'.predicate = s.predicate ∧
      Delivered (sent ++ published s.topic [e]) s' := by
  cases e with
  | subscribe topic predicate =>
    refine ⟨s, ?_, rfl, rfl, by simpa [published] using h⟩
    exact (List.getElem?_append_left (List.getElem?_eq_some_iff.mp hs).1).trans hs
  | publish msg =>
    have hpublished : published s.topic [.publish msg] = if s.topic = msg.topic then [msg] else [] := by
      simp only [published, List.filterMap_cons, List.filterMap_nil]
      split <;> simp_all
    rw [hpublished]
    by_cases hmsg : msg.topic ∈ hub.senders
    · refine ⟨s.hear msg, ?_, topic_hear msg, predicate_hear msg, h.hear msg⟩
      simp only [SubscribeHub.step, if_pos hmsg, List.getElem?_map, hs, Option.map_some]
    · -- without a channel the message is of another topic
      have hne : s.topic ≠ msg.topic := fun heq => hmsg (heq ▸ hcovered s (List.mem_of_getElem? hs))
      refine ⟨s, ?_, rfl, rfl, ?_⟩
      · simp only [SubscribeHub.step, if_neg hmsg, hs]
      · rwa [if_neg hne, List.append_nil]
  | tryRecv j =>
    have hpublished : published s.topic [.tryRecv j] = [] := rfl
    rw [hpublished, List.append_nil]
    simp only [SubscribeHub.step, List.getElem?_modify, hs]
    split
    · exact ⟨s.tryRecv, rfl, topic_tryRecv, predicate_tryRecv, h.tryRecv⟩
    · exact ⟨s, rfl, rfl, rfl, h⟩

theorem delivered_run (hcovered : Covered hub) (hs : hub.subscriptions[k]? = some s) (h : Delivered sent s) (events : List Event) :
    ∃ s', (Lts.run SubscribeHub.step hub events).subscriptions[k]? = some s' ∧ s'.topic = s.topic ∧ s'.predicate = s.predicate ∧
      Delivered (sent ++ published s.topic events) s' := by
  induction events generalizing hub s sent with
  | nil => exact ⟨s, hs, rfl, rfl, by simpa [published] using h⟩
  | cons e events ih =>
    obtain ⟨s₁, hs₁, htopic₁, hpredicate₁, h₁⟩ := delivered_step hcovered hs h e
    obtain ⟨s', hs', htopic, hpredicate, h'⟩ := ih (hcovered.step e) hs₁ h₁
    refine ⟨s', hs', htopic.trans htopic₁, hpredicate.trans hpredicate₁, ?_⟩
    rw [htopic₁, List.append_assoc] at h'
    rwa [show published s.topic (e :: events) = published s.topic [e] ++ published s.topic events from
      List.filterMap_append (l := [e])]

theorem length_subscriptions_run (events : List Event) :
    (Lts.run SubscribeHub.step hub events).subscriptions.length =
      hub.subscriptions.length + events.countP (fun | .subscribe .. => true | _ => false) := by
  induction events generalizing hub with
  | nil => rfl
  | cons e events ih =>
    rw [Lts.run_cons, ih]
    cases e with
    | subscribe topic predicate =>
      rw [List.countP_cons_of_pos rfl]
      simp only [SubscribeHub.step, List.length_append, List.length_singleton]
      omega
    | publish msg =>
      rw [List.countP_cons_of_neg (by simp)]
      simp only [SubscribeHub.step]
      split
      · simp only [List.length_map]
      · rfl
    | tryRecv k =>
      rw [List.countP_cons_of_neg (by simp)]
      simp only [SubscribeHub.step, List.length_modify]

end Run

/-- What a subscription has received, against what was published to its topic since it was made. -/
structure Served (sent : List Message) (s : FilteredSubscription) : Prop where
  /-- It has received messages that match, in the order in which they were published, and none of them twice. -/
  order : (s.received ++ s.rx.queue.filter s.matching).Sublist (sent.filter s.matching)
  /-- Unless it has missed messages, those are all of them. -/
  whole : s.told + s.rx.missed = 0 → s.received ++ s.rx.queue.filter s.matching = sent.filter s.matching
  /-- It misses none before there are as many later ones as a channel has slots. -/
  late : 0 < s.told + s.rx.missed → slots + s.told + s.rx.missed ≤ sent.length

theorem Delivered.served {sent : List Message} {s : FilteredSubscription} (h : Delivered sent s) : Served sent s := by
  obtain ⟨taken, haccount, hreceived⟩ := h.account
  have hfilter : s.received ++ s.rx.queue.filter s.matching = (taken ++ s.rx.queue).filter s.matching := by
    rw [hreceived, List.filter_append]
  constructor
  case order =>
    rw [hfilter]
    exact haccount.order.filter _
  case whole =>
    intro hnone
    rw [hfilter, haccount.eq_of_none_lost hnone]
  case late => exact haccount.late

/-- **A subscription receives the messages of its topic that match its predicate**, in their order, all of them as long as it does not fall 256 messages behind, whatever else the hub does. -/
theorem hub_delivers (before after : List Event) (topic : Topic) (predicate : Option Predicate) :
    ∃ s, (Lts.run SubscribeHub.step .new (before ++ .subscribe topic predicate :: after)).subscriptions[
        before.countP (fun | .subscribe .. => true | _ => false)]? = some s ∧
      s.topic = topic ∧ s.predicate = predicate ∧ Served (published topic after) s := by
  rw [Lts.run_append, Lts.run_cons]
  have hcovered : Covered (Lts.run SubscribeHub.step .new before) := covered_new.run before
  have hnew : ((Lts.run SubscribeHub.step .new before).step (.subscribe topic predicate)).subscriptions[
      before.countP (fun | .subscribe .. => true | _ => false)]? = some ⟨topic, .new, predicate, []⟩ := by
    have hlength : (Lts.run SubscribeHub.step .new before).subscriptions.length =
        before.countP (fun | .subscribe .. => true | _ => false) :=
      (length_subscriptions_run before).trans (Nat.zero_add _)
    rw [← hlength]
    exact List.getElem?_concat_length
  obtain ⟨s, hs, htopic, hpredicate, h⟩ := delivered_run (hcovered.step _) hnew (delivered_new topic predicate) after
  exact ⟨s, hs, htopic, hpredicate, h.served⟩

end ActantDb.Hub
