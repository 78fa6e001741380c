import ActantDb.Subscribe.Splice

/-!
# Delivery to a subscriber with a cursor

The splice loses nothing, since the subscriber is attached before its backfill is selected. But an envelope that is inserted before the backfill is selected and fanned out after the subscriber is attached comes twice, two publishers may fan out in the other order than that of their ids, and a backfill longer than the bridge pushes its own oldest envelopes out.

These are all the ways: what is fanned out to the subscriber with a greater id than all that is on its way, and is not pushed out of the bridge, comes exactly once and in order (`subscription_exactly_once`).
-/

namespace ActantDb

open Prog

variable {ι : Type}

/-! ### The tasks -/

section Tasks

variable {key : Key} {cursor : String} {s : ι} {progress : ι → Progress} {w : BrokerWorld}
  {sub : Subscription} {slots : Nat}

/-- Forwarding once pushes an envelope after the cursor out of a full bridge. -/
def Subscription.dropsAfter (slots : Nat) (cursor : String) (s : Subscription) : Bool :=
  match s.bridge, s.live.recv.1 with
  | some bridge, .ok _ =>
    decide (slots ≤ bridge.queue.length) && bridge.queue.head?.any fun env => cursor < env.id
  | _, _ => false

theorem Delivery.forward (h : Delivery key cursor progress s w sub)
    (hkept : sub.dropsAfter slots cursor = false) :
    Delivery key cursor progress s w (sub.forward slots) := by
  unfold Subscription.forward
  split
  · exact h
  rename_i bridge hbridge
  split
  · rename_i env live hrecv
    have hlive := Receiver.recv_ok hrecv
    apply h.moved
    · rfl
    · rfl
    · rw [hbridge]
      rfl
    · intro hnone
      cases hnone
    simp only [Subscription.dropsAfter, hbridge, hrecv] at hkept
    rw [onItsWay, onItsWay, Subscription.envelopes, Subscription.envelopes, hbridge, hlive]
    by_cases hroom : bridge.queue.length < slots
    · rw [Receiver.push_of_lt hroom]
      simp
    · -- what the bridge loses is not after the cursor
      rw [decide_eq_true (not_lt.mp hroom), Bool.true_and] at hkept
      rw [Receiver.push_of_le (not_lt.mp hroom)]
      cases hqueue : bridge.queue with
      | nil =>
        simp only [Option.map_some, Option.getD_some, hqueue, List.drop_nil, List.nil_append,
          List.append_nil, List.append_assoc, List.singleton_append]
      | cons lost rest =>
        rw [hqueue, List.head?_cons, Option.any_some] at hkept
        simp only [Option.map_some, Option.getD_some, hqueue, List.drop_succ_cons, List.drop_zero,
          List.map_append, List.map_cons, List.append_assoc, List.cons_append, List.nil_append]
        simp only [List.filter_append, List.filter_cons, hkept, Bool.false_eq_true, if_false]
  · rename_i x live hno hrecv
    have hlive := Receiver.recv_other hrecv hno
    apply h.moved
    · rfl
    · rfl
    · rfl
    · exact fun hnone => absurd hnone (by rw [hbridge]; exact Option.some_ne_none _)
    · rw [onItsWay, onItsWay, Subscription.envelopes, Subscription.envelopes, hlive]

theorem Delivery.receive (h : Delivery key cursor progress s w sub) :
    Delivery key cursor progress s w sub.receive := by
  unfold Subscription.receive
  split
  · rename_i bridge hbridge
    split
    · rename_i env bridge' hrecv
      have hqueue := Receiver.recv_ok hrecv
      apply h.moved
      · rfl
      · rfl
      · rw [hbridge]
        rfl
      · intro hnone
        cases hnone
      · rw [onItsWay, onItsWay, Subscription.envelopes, Subscription.envelopes, hbridge]
        simp [hqueue]
    · rename_i x bridge' hno hrecv
      have hqueue := Receiver.recv_other hrecv hno
      apply h.moved
      · rfl
      · rfl
      · rw [hbridge]
        rfl
      · intro hnone
        cases hnone
      · rw [onItsWay, onItsWay, Subscription.envelopes, Subscription.envelopes, hbridge]
        simp [hqueue]
  · rename_i hsince
    rw [h.since_eq] at hsince
    cases hsince
  · exact h

end Tasks

/-! ### What is asked of a run -/

def BrokerPool.progress [DecidableEq ι] (calls : ι → BrokerCall) (c : BrokerPool ι) (i : ι) : Progress :=
  Pool.summary brokerMonitor (Progress.start (calls i)) i c.trace

/-- The subscription of thread `s`, once it is attached. -/
def BrokerPool.subscription [DecidableEq ι] (calls : ι → BrokerCall) (s : ι) (c : BrokerPool ι) :
    Option Subscription :=
  (c.progress calls s).attached.bind (c.world.subscriptions[·]?)

section Run

variable [DecidableEq ι] (E : BrokerEnv) (calls : ι → BrokerCall) (key : Key) (cursor : String) (s : ι)

/-- The backfill is below the limit of `replay_since`. -/
def BackfillFits (c : BrokerPool ι) (l : BrokerLabel ι) : Prop :=
  match l with
  | .call i =>
    match c.next? i with
    | some (.select _ _) => i = s → (c.world.after key cursor).length < replayLimit
    | _ => True
  | _ => True

/-- The forwarding task keeps up with the live channel. -/
def LiveKeepsUp (c : BrokerPool ι) (l : BrokerLabel ι) : Prop :=
  match l with
  | .call i =>
    match c.next? i with
    | some (.fanOut key' _) =>
      key' = key → ∀ sub ∈ c.subscription calls s, sub.live.queue.length < E.slots
    | _ => True
  | _ => True

/-- What is asked of a step: an envelope after the cursor that is fanned out to the subscriber comes after its backfill was selected and has the greatest id of all that is on its way, and the bridge loses nothing after the cursor. -/
def FansOutInOrder (c : BrokerPool ι) (l : BrokerLabel ι) : Prop :=
  match l with
  | .call i =>
    match c.next? i with
    | some (.fanOut key' env) =>
      key' = key → cursor < env.id → ∀ sub ∈ c.subscription calls s,
        (c.progress calls s).selected.isSome = true ∧
          ∀ id ∈ onItsWay cursor (c.progress calls s) sub, id < env.id
    | some (.bridge _ backfill) => i = s → backfill.length ≤ E.slots
    | _ => True
  | .forward n =>
    (c.progress calls s).attached = some n → ∀ sub ∈ c.subscription calls s,
      sub.dropsAfter E.slots cursor = false
  | .receive _ => True

instance (c : BrokerPool ι) (l : BrokerLabel ι) : Decidable (BackfillFits key cursor s c l) := by
  unfold BackfillFits
  split
  · split <;> infer_instance
  · infer_instance

instance (c : BrokerPool ι) (l : BrokerLabel ι) : Decidable (LiveKeepsUp E calls key s c l) := by
  unfold LiveKeepsUp
  split
  · split <;> infer_instance
  · infer_instance

instance (c : BrokerPool ι) (l : BrokerLabel ι) : Decidable (FansOutInOrder E calls key cursor s c l) := by
  unfold FansOutInOrder
  split
  · split <;> infer_instance
  · infer_instance
  · infer_instance

/-- The call of thread `s` has succeeded, no publisher has a row inserted and not fanned out, and the subscriber has read all there is. -/
def Drained (c : BrokerPool ι) : Prop :=
  (c.thread s).returned = true ∧ (∀ i, (c.progress calls i).pending = none) ∧
    ∀ sub ∈ c.subscription calls s, sub.live.queue = [] ∧ ∀ bridge ∈ sub.bridge, bridge.queue = []

/-- The ids after the cursor that the subscriber has received are those that are stored, in their order. -/
def ExactlyOnce (c : BrokerPool ι) : Prop :=
  ∃ sub, c.subscription calls s = some sub ∧
    (sub.stream.map (·.id)).filter (cursor < ·) = (c.world.after key cursor).map (·.id)

end Run

/-! ### Runs -/

section Runs

variable [DecidableEq ι] {E : BrokerEnv} {calls : ι → BrokerCall} {key : Key} {cursor : String} {s : ι}
  {c : BrokerPool ι}

structure SplicePool (calls : ι → BrokerCall) (key : Key) (cursor : String) (s : ι)
    (c : BrokerPool ι) : Prop where
  safe : Pool.AllSafe brokerMonitor Returns (fun i => Progress.start (calls i)) c
  splice : Splice key cursor s (c.progress calls) c.world

theorem splicePool_start (X : Crates) (w : BrokerWorld) {calls : ι → BrokerCall} {key : Key}
    {cursor : String} {s : ι} (hcall : (calls s).subscribes = some (key, some cursor)) :
    SplicePool calls key cursor s (BrokerPool.start X w calls) := by
  refine ⟨fun i => call_safe X (calls i), ?_⟩
  exact ⟨hcall, fun i k hk => (nomatch hk), fun i n hn => (nomatch hn),
    fun i j n hi => (nomatch hi), fun i row hrow => (nomatch hrow), fun n hn => (nomatch hn)⟩

theorem progress_step (i : ι) (o : BrokerOp) (r : o.Res) (w : BrokerWorld)
    (thread : ι → BrokerAction BrokerReply) :
    BrokerPool.progress calls ⟨w, thread, c.trace ++ [⟨i, o, r⟩]⟩ =
      Function.update (c.progress calls) i (brokerMonitor.next (c.progress calls i) o r) :=
  Pool.summary_update

theorem subscription_eq {n : Nat} {sub : Subscription} (hn : (c.progress calls s).attached = some n)
    (hsub : c.world.subscriptions[n]? = some sub) : c.subscription calls s = some sub := by
  rw [BrokerPool.subscription, hn]
  exact hsub

theorem select_next (l : Progress) (key : Key) (cursor : String) (rows : List PubsubMessage) :
    brokerMonitor.next l (.select key cursor) (.ok rows) =
      if l.attached.isSome then { l with selected := some rows } else l := rfl

theorem splice_call (h : SplicePool calls key cursor s c) {i : ι}
    (hfits : BackfillFits key cursor s c (.call i)) (hlive : LiveKeepsUp E calls key s c (.call i))
    (horder : FansOutInOrder E calls key cursor s c (.call i)) {o : BrokerOp}
    {next : o.Res → BrokerAction BrokerReply} (hthread : c.thread i = .call o next)
    (hnext : c.next? i = some o) :
    Splice key cursor s
      (Function.update (c.progress calls) i
        (brokerMonitor.next (c.progress calls i) o (o.handle E c.world).1)) (o.handle E c.world).2 := by
  have hallowed : brokerMonitor.allowed (c.progress calls i) o := h.safe.allowed hthread
  simp only [BackfillFits, LiveKeepsUp, FansOutInOrder, hnext] at hfits hlive horder
  cases o with
  | generate => exact h.splice.congr rfl rfl rfl
  | now => exact h.splice.congr rfl rfl rfl
  | insert row =>
    rcases handle_insert E row c.world with ⟨hok, -, hmem⟩ | ⟨⟨err, herr⟩, hsame⟩
    · rw [hok]
      apply h.splice.next
      · rfl
      · rfl
      · exact fun _ => rfl
      · exact fun _ => rfl
      · exact (handle_insert_frame E row c.world).1
      · exact fun k hk => (handle_insert_frame E row c.world).2 ▸ hk
      · exact fun k hk => (handle_insert_frame E row c.world).2 ▸ h.splice.opened i k hk
      · exact fun r hr => (hmem r).mpr (Or.inl hr)
      · exact fun r hr => ((hmem r).mp hr).imp id fun heq => congrArg some heq.symm
      · intro r hr
        rw [hallowed] at hr
        cases hr
      · exact fun r hr => (hmem r).mpr (Or.inr (Option.some.inj hr).symm)
    · rw [herr]
      exact h.splice.congr (handle_insert_frame E row c.world).1 (handle_insert_frame E row c.world).2
        hsame
  | fanOut key' env =>
    obtain ⟨row, hpend, hid, rfl⟩ := hallowed
    apply h.splice.fanOut hpend hid
    · intro hkey n sub hn hsubn
      exact hlive hkey sub (subscription_eq hn hsubn)
    · intro hkey hafter n sub hn hsubn
      exact horder hkey hafter sub (subscription_eq hn hsubn)
  | channel key' =>
    have hrows : ((BrokerOp.channel key').handle E c.world).2.pubsubMessage =
        c.world.pubsubMessage := handle_other rfl
    apply h.splice.next
    · rfl
    · rfl
    · exact fun _ => rfl
    · exact fun _ => rfl
    · simp only [BrokerOp.handle]
      split <;> rfl
    · intro k hk
      simp only [BrokerOp.handle]
      split
      · exact hk
      · exact List.mem_append_left _ hk
    · intro k hk
      cases hk
      simp only [BrokerOp.handle]
      split
      · assumption
      · exact List.mem_append_right _ (List.mem_singleton_self _)
    · exact fun row hrow => hrows ▸ hrow
    · exact fun row hrow => Or.inl (hrows ▸ hrow)
    · exact fun row hrow => hrow
    · exact fun row hrow => hrows ▸ h.splice.pending i row hrow
  | attach key' since => exact h.splice.attach hallowed
  | select key' cursor' =>
    obtain ⟨hsubs, hchannels⟩ := handle_select_frame E key' cursor' c.world
    have hrows : ((BrokerOp.select key' cursor').handle E c.world).2.pubsubMessage =
        c.world.pubsubMessage := handle_other rfl
    rcases handle_select E key' cursor' c.world with ⟨err, herr⟩ | hok
    · rw [herr]
      exact h.splice.congr hsubs hchannels hrows
    rw [hok, select_next]
    split
    · rename_i hattached
      by_cases hs : i = s
      · subst hs
        obtain ⟨n, hn⟩ := Option.isSome_iff_exists.mp hattached
        obtain ⟨hsubscribes, hnone⟩ := hallowed n hn
        have hcall := h.splice.call
        rw [hsubscribes] at hcall
        obtain ⟨rfl, rfl⟩ : key' = key ∧ cursor' = cursor := by simpa using hcall
        rw [List.take_of_length_le (le_of_lt (hfits rfl))]
        exact h.splice.select hnone hsubs hchannels hrows
      · apply h.splice.next
        · rfl
        · rfl
        · exact fun heq => absurd heq hs
        · exact fun _ => rfl
        · exact hsubs
        · exact fun k hk => hchannels ▸ hk
        · exact fun k hk => hchannels ▸ h.splice.opened i k hk
        · exact fun row hrow => hrows ▸ hrow
        · exact fun row hrow => Or.inl (hrows ▸ hrow)
        · exact fun row hrow => hrow
        · exact fun row hrow => hrows ▸ h.splice.pending i row hrow
    · exact h.splice.congr hsubs hchannels hrows
  | bridge n backfill => exact h.splice.bridge hallowed horder

theorem splicePool_step (h : SplicePool calls key cursor s c) {l : BrokerLabel ι}
    (hfits : BackfillFits key cursor s c l) (hlive : LiveKeepsUp E calls key s c l)
    (horder : FansOutInOrder E calls key cursor s c l) :
    SplicePool calls key cursor s (c.step E l) := by
  cases l with
  | call i =>
    refine ⟨Pool.allSafe_step h.safe i, ?_⟩
    rcases Pool.step_cases (BrokerOp.handle E) c i with
      ⟨r, -, hsame⟩ | ⟨o, next, hthread, hnext, hstep⟩
    · rw [BrokerPool.step, hsame]
      exact h.splice
    · rw [BrokerPool.step, hstep, progress_step]
      exact splice_call h hfits hlive horder hthread hnext
  | forward n =>
    refine ⟨h.safe, h.splice.modify fun sub hn hsub hdelivery => hdelivery.forward ?_⟩
    exact horder hn sub (subscription_eq hn hsub)
  | receive n =>
    exact ⟨h.safe, h.splice.modify fun sub _ _ hdelivery => hdelivery.receive⟩

/-- Where nothing is left to be fanned out or read, the subscriber has received what is on its way, which is what is stored. -/
theorem SplicePool.exactlyOnce (h : SplicePool calls key cursor s c)
    (hdone : (c.thread s).returned = true)
    (hquiet : ∀ i, (c.progress calls i).pending = none)
    (hread : ∀ sub ∈ c.subscription calls s, sub.live.queue = [] ∧
      ∀ bridge ∈ sub.bridge, bridge.queue = []) : ExactlyOnce calls key cursor s c := by
  obtain ⟨reply, hreply⟩ := returned_iff.mp hdone
  have hreturns : Returns (c.progress calls s) (.ok reply) := by
    have hs := h.safe s
    rw [hreply] at hs
    exact hs
  obtain ⟨⟨n, hattached⟩, hbridged⟩ := hreturns.2 reply rfl key cursor h.splice.call
  obtain ⟨sub, hsub, hdelivery⟩ := h.splice.delivery n hattached
  obtain ⟨hlive, hbridge⟩ := hread sub (subscription_eq hattached hsub)
  have hway : onItsWay cursor (c.progress calls s) sub =
      (sub.stream.map (·.id)).filter (cursor < ·) := by
    have hempty : (sub.bridge.map (·.queue)).getD [] = [] := by
      cases hb : sub.bridge with
      | none => rfl
      | some bridge => exact hbridge bridge hb
    rw [onItsWay, Progress.backlog, hbridged, Subscription.envelopes, hlive, hempty, List.append_nil,
      List.append_nil]
    rfl
  have hselected : (c.progress calls s).selected.isSome = true := by
    cases hs : (c.progress calls s).selected with
    | none =>
      have hunbridged := (hdelivery.early hs).1
      rw [hbridged] at hunbridged
      cases hunbridged
    | some rows => rfl
  refine ⟨sub, subscription_eq hattached hsub, ?_⟩
  rw [← hway]
  apply hdelivery.sorted.eq_of_mem_iff after_sorted
  intro id
  constructor
  · intro hid
    obtain ⟨row, hrow, hkey, rfl⟩ := hdelivery.sound id hid
    exact List.mem_map_of_mem (mem_after.mpr ⟨hrow, hkey, of_decide_eq_true (List.mem_filter.mp hid).2⟩)
  · intro hid
    obtain ⟨row, hrow, rfl⟩ := List.mem_map.mp hid
    obtain ⟨hstored, hkey, hafter⟩ := mem_after.mp hrow
    rcases hdelivery.complete hselected row hstored hkey hafter with hmem | ⟨i, hi⟩
    · exact hmem
    · rw [hquiet i] at hi
      cases hi

/-- **A subscriber with a cursor receives every stored envelope after it exactly once and in order**, in a run in which nothing lags, what is fanned out to it comes in order, and the bridge does not overflow. -/
theorem subscription_exactly_once (X : Crates) (E : BrokerEnv) (w : BrokerWorld)
    (calls : ι → BrokerCall) (key : Key) (cursor : String) (s : ι) (schedule : List (BrokerLabel ι))
    (hcall : calls s = .subscribe key.workspaceId key.topic (some cursor))
    (hfits : Lts.EveryStep (BrokerPool.step E) (BackfillFits key cursor s) (BrokerPool.start X w calls)
      schedule)
    (hlive : Lts.EveryStep (BrokerPool.step E) (LiveKeepsUp E calls key s) (BrokerPool.start X w calls)
      schedule)
    (horder : Lts.EveryStep (BrokerPool.step E) (FansOutInOrder E calls key cursor s)
      (BrokerPool.start X w calls) schedule) :
    Lts.Always (BrokerPool.step E) (fun c => Drained calls s c → ExactlyOnce calls key cursor s c)
      (BrokerPool.start X w calls) schedule := by
  have hsubscribes : (calls s).subscribes = some (key, some cursor) := by
    rw [hcall]
    rfl
  have hall := Lts.everyStep_and hfits (Lts.everyStep_and hlive horder)
  intro pre post hsplit ⟨hdone, hquiet, hread⟩
  have hpool := Lts.always_of_invariant (SplicePool calls key cursor s)
    (fun c l hc hl => splicePool_step hc hl.1 hl.2.1 hl.2.2) (splicePool_start X w hsubscribes) hall
    pre post hsplit
  exact hpool.exactlyOnce hdone hquiet hread

end Runs

/-! ### A subscriber and two publishers -/

def subscriberAndPublishers (i : Fin 3) : BrokerCall :=
  match i with
  | 0 => .subscribe "ws_demo" "news" (some "")
  | 1 | 2 => .publish "ws_demo" "news" .null

def oneAfterAnother : List (BrokerLabel (Fin 3)) :=
  List.replicate 4 (.call 1) ++ List.replicate 4 (.call 0) ++ List.replicate 4 (.call 2) ++
    [.forward 0, .receive 0, .receive 0]

theorem subscription_exactly_once_oneAfterAnother :
    Lts.Always (BrokerPool.step .sample)
      (fun c => Drained subscriberAndPublishers 0 c → ExactlyOnce subscriberAndPublishers newsKey "" 0 c)
      (BrokerPool.start Crates.nullPayloads (.start ["ws_demo"] .empty) subscriberAndPublishers)
      oneAfterAnother :=
  subscription_exactly_once Crates.nullPayloads .sample (.start ["ws_demo"] .empty)
    subscriberAndPublishers newsKey "" 0 oneAfterAnother rfl (by decide +kernel) (by decide +kernel)
    (by decide +kernel)

/-- The envelope is in the backfill, and is fanned out after the subscriber is attached. -/
def publishedMeanwhile : List (BrokerLabel (Fin 3)) :=
  List.replicate 3 (.call 1) ++ List.replicate 4 (.call 0) ++
    [.call 1, .forward 0, .receive 0, .receive 0]

/-- The subscriber receives it twice; nothing lags. -/
theorem publishedMeanwhile_twice :
    let start : BrokerPool (Fin 3) :=
      BrokerPool.start Crates.nullPayloads (.start ["ws_demo"] .empty) subscriberAndPublishers
    let finished := Lts.run (BrokerPool.step .sample) start publishedMeanwhile
    Lts.EveryStep (BrokerPool.step .sample) (BackfillFits newsKey "" 0) start publishedMeanwhile ∧
      Lts.EveryStep (BrokerPool.step .sample) (LiveKeepsUp .sample subscriberAndPublishers newsKey 0)
        start publishedMeanwhile ∧
      Drained subscriberAndPublishers 0 finished ∧
        ¬ ExactlyOnce subscriberAndPublishers newsKey "" 0 finished := by
  intro start finished
  refine ⟨by decide +kernel, by decide +kernel, ⟨by decide +kernel, by decide +kernel, by decide +kernel⟩, ?_⟩
  rintro ⟨sub, hsub, honce⟩
  have hids : (finished.subscription subscriberAndPublishers 0).map
      (fun sub => (sub.stream.map (·.id)).filter ("" < ·)) =
        some ((finished.world.after newsKey "" ++ finished.world.after newsKey "").map (·.id)) := by
    decide +kernel
  have hlength : (finished.world.after newsKey "").length = 1 := by
    decide +kernel
  rw [hsub, Option.map_some, honce] at hids
  have hboth := congrArg List.length (Option.some.inj hids)
  rw [List.length_map, List.length_map, List.length_append, hlength] at hboth
  cases hboth

end ActantDb
