import ActantDb.Core.Model
import ActantDb.Lib.Run
import ActantDb.Lib.Waiting

/-!
# Calls to the browser

Every call to the browser takes the next number, enters itself under it, sends its request and waits, and one task reads what the browser sends and hands each reply to the call that is entered under its `id`. Calls overlap in any way, and what comes from the browser is arbitrary: events, replies to nobody, replies sent twice, text that is no JSON.

The counter wraps around at `2 ^ 64`. Until then no two calls share a number, and what a call is answered is the first reply with its number that arrives after it has entered itself (`calls_paired`).
-/

namespace ActantDb.Cdp

/-! ### One call -/

structure Rpc where
  method : String
  params : Value
  sessionId : Option String

/-- The request as it is sent. -/
def Rpc.frame (r : Rpc) (id : UInt64) : Value :=
  .object ([("id", .number (.posInt id)), ("method", .string r.method), ("params", r.params)]
    ++ r.sessionId.toList.map fun s => ("sessionId", .string s))

/-- What a call makes of its reply. -/
def Rpc.outcome (X : Crates) (r : Rpc) (reply : Value) : Except ActantError Value :=
  match reply.get "error" with
  | some err => .error (.internal ("cdp rpc " ++ r.method ++ " error: " ++ err.toText X))
  | none => .ok ((reply.get "result").getD .null)

def Rpc.timedOut (r : Rpc) : ActantError := .internal ("cdp rpc " ++ r.method ++ " timed out")

def Rpc.dropped (r : Rpc) : ActantError := .internal ("cdp rpc " ++ r.method ++ " dropped")

/-- What the receiver of a call holds when it is looked at: nothing, a reply, or that there will be none. -/
def Rpc.look (X : Crates) (r : Rpc) : Mailbox Value → Option (Except ActantError Value)
  | .empty => none
  | .full reply => some (r.outcome X reply)
  | .dropped => some (.error r.dropped)

/-- How far a call is. -/
inductive Phase where
  | idle
  | numbered (id : UInt64)
  | entered (id : UInt64)
  | waiting (id : UInt64)
  | settled (id : UInt64) (result : Except ActantError Value)

/-- The number under which a call has entered itself. -/
def Phase.entry : Phase → Option UInt64
  | .entered id | .waiting id | .settled id _ => some id
  | _ => none

def Phase.number : Phase → Option UInt64
  | .idle => none
  | .numbered id | .entered id | .waiting id | .settled id _ => some id

/-! ### What comes from the browser -/

inductive Message where
  | text (t : String)
  | binary (bytes : List UInt8)
  | close
  | control
  | failure

/-- The reply that a message carries, with its number. -/
def Message.reply (X : Crates) (m : Message) : Option (UInt64 × Value) := do
  let text ←
    match m with
    | .text t => some t
    | .binary bytes => String.fromUTF8? ⟨bytes.toArray⟩
    | _ => none
  let v ← X.fromStr text
  match v.get "id" with
  | some (.number (.posInt id)) => some (id, v)
  | _ => none

/-- The pump ends at the end of the connection. -/
def Message.ends : Message → Bool
  | .close | .failure => true
  | _ => false

/-! ### All calls together -/

section System

variable {ι : Type} [DecidableEq ι] (X : Crates) (calls : ι → Rpc)

structure Driver (ι : Type) where
  nextId : UInt64
  waiting : Waiting ι UInt64 Value
  phase : ι → Phase
  sent : List Value
  /-- The half that sends is there until the driver is closed. -/
  sink : Bool
  pumping : Bool

/-- The counter starts at 1, or where the calls of the launch have left it. -/
def Driver.start (nextId : UInt64) : Driver ι := ⟨nextId, .start, fun _ => .idle, [], true, true⟩

/-- What happens next: a step of a call, a message, or a step of `close`. -/
inductive Event (ι : Type) where
  | number (i : ι)
  | enter (i : ι)
  | send (i : ι) (failure : Option String)
  | poll (i : ι)
  | timeout (i : ι)
  | receive (m : Message)
  | closeSink
  | abortPump

namespace Driver

variable (s : Driver ι)

def setPhase (i : ι) (p : Phase) : Driver ι := { s with phase := Function.update s.phase i p }

def step : Event ι → Driver ι
  | .number i =>
    match s.phase i with
    | .idle => { s.setPhase i (.numbered s.nextId) with nextId := s.nextId + 1 }
    | _ => s
  | .enter i =>
    match s.phase i with
    | .numbered id => { s.setPhase i (.entered id) with waiting := s.waiting.register id i }
    | _ => s
  | .send i failure =>
    match s.phase i with
    | .entered id =>
      if !s.sink then s.setPhase i (.settled id (.error (.internal "cdp ws send half closed")))
      else
        match failure with
        | some e => s.setPhase i (.settled id (.error (.internal ("cdp ws send: " ++ e))))
        | none => { s.setPhase i (.waiting id) with sent := s.sent ++ [(calls i).frame id] }
    | _ => s
  | .poll i =>
    match s.phase i with
    | .waiting id =>
      match (calls i).look X (s.waiting.box i) with
      | some result => s.setPhase i (.settled id result)
      | none => s
    | _ => s
  -- the receiver is looked at once more before the time counts as over
  | .timeout i =>
    match s.phase i with
    | .waiting id =>
      s.setPhase i (.settled id (((calls i).look X (s.waiting.box i)).getD (.error (calls i).timedOut)))
    | _ => s
  | .receive m =>
    if !s.pumping then s
    else if m.ends then { s with pumping := false }
    else
      match m.reply X with
      | some (id, v) => { s with waiting := s.waiting.deliver id v }
      | none => s
  | .closeSink => { s with sink := false }
  | .abortPump => { s with pumping := false }

end Driver

/-- The steps that take a number. -/
def Event.numbers : Event ι → Bool
  | .number _ => true
  | _ => false

/-- The reply that a step takes from the connection. -/
def Event.read (pumping : Bool) : Event ι → Option (UInt64 × Value)
  | .receive m => if pumping && !m.ends then m.reply X else none
  | _ => none

/-- Whether the pump goes on after a step. -/
def Event.pumps (pumping : Bool) : Event ι → Bool
  | .receive m => pumping && !m.ends
  | .abortPump => false
  | _ => pumping

/-- The first reply with the number among those that the steps take. -/
def firstReply (id : UInt64) : Bool → List (Event ι) → Option Value
  | _, [] => none
  | pumping, e :: events =>
    match e.read X pumping with
    | some (id', v) => if id' = id then some v else firstReply id (e.pumps pumping) events
    | none => firstReply id (e.pumps pumping) events

/-! ### Numbers -/

variable {X calls} {s : Driver ι} {first : UInt64} {n : Nat}

/-- The first `n` numbers from `first` are taken, each by one call. -/
structure Numbered (first : UInt64) (n : Nat) (numberOf : ι → Option UInt64) : Prop where
  taken : ∀ {i id}, numberOf i = some id → ∃ m < n, id = first + UInt64.ofNat m
  own : ∀ {i j id}, numberOf i = some id → numberOf j = some id → i = j

/-- After `n` calls have taken their numbers the table holds those that have no reply yet. -/
structure Inv (first : UInt64) (n : Nat) (s : Driver ι) : Prop where
  next : s.nextId = first + UInt64.ofNat n
  numbered : Numbered first n fun i => (s.phase i).number
  held : s.waiting.Held fun i => (s.phase i).entry

omit [DecidableEq ι] in
theorem inv_start (first : UInt64) : Inv first 0 (Driver.start first : Driver ι) where
  next := by simp [Driver.start]
  numbered := ⟨fun h => (nomatch h), fun h => nomatch h⟩
  held := Waiting.held_start

theorem Phase.number_of_entry {p : Phase} {id : UInt64} (h : p.entry = some id) : p.number = some id := by
  cases p with
  | idle | numbered => cases h
  | entered | waiting | settled => exact h

theorem add_ofNat_ne {m : Nat} (hm : m < n) (hn : n < 2 ^ 64) : first + UInt64.ofNat m ≠ first + UInt64.ofNat n := by
  intro h
  have hoffset : UInt64.ofNat m = UInt64.ofNat n := by
    have hsub := congrArg (· - first) h
    simpa [UInt64.add_comm first] using hsub
  have hnat := congrArg UInt64.toNat hoffset
  rw [UInt64.toNat_ofNat_of_lt' (show m < 2 ^ 64 by omega), UInt64.toNat_ofNat_of_lt' (show n < 2 ^ 64 from hn)] at hnat
  omega

/-- What is read off the phases does not change with a phase of which the same is read off. -/
theorem read_update {α : Type} (read : Phase → α) {phase : ι → Phase} {i : ι} {p : Phase} (h : read p = read (phase i)) :
    (fun j => read (Function.update phase i p j)) = fun j => read (phase j) := by
  funext j
  rcases eq_or_ne j i with rfl | hne
  · rw [Function.update_self, h]
  · rw [Function.update_of_ne hne]

theorem entry_update {phase : ι → Phase} {i : ι} {p : Phase} :
    (fun j => (Function.update phase i p j).entry) = Function.update (fun j => (phase j).entry) i p.entry := by
  funext j
  rcases eq_or_ne j i with rfl | hne
  · rw [Function.update_self, Function.update_self]
  · rw [Function.update_of_ne hne, Function.update_of_ne hne]

/-- A step of a call that has its number and its entry already. -/
theorem Inv.setPhase (h : Inv first n s) {i : ι} {p : Phase} (hnumber : p.number = (s.phase i).number)
    (hentry : p.entry = (s.phase i).entry) : Inv first n (s.setPhase i p) where
  next := h.next
  numbered := by
    show Numbered first n fun j => (Function.update s.phase i p j).number
    rw [read_update Phase.number hnumber]
    exact h.numbered
  held := by
    show s.waiting.Held fun j => (Function.update s.phase i p j).entry
    rw [read_update Phase.entry hentry]
    exact h.held

theorem Inv.number (h : Inv first n s) (hn : n < 2 ^ 64) {i : ι} (hidle : s.phase i = .idle) :
    Inv first (n + 1) { s.setPhase i (.numbered s.nextId) with nextId := s.nextId + 1 } := by
  have hfresh : ∀ j, (s.phase j).number ≠ some s.nextId := fun j hj => by
    obtain ⟨m, hm, heq⟩ := h.numbered.taken hj
    exact add_ofNat_ne hm hn (heq.symm.trans h.next)
  have hcases : ∀ {j id}, (Function.update s.phase i (.numbered s.nextId) j).number = some id →
      (j = i ∧ id = s.nextId) ∨ (s.phase j).number = some id := fun {j id} hj => by
    rcases eq_or_ne j i with rfl | hne
    · rw [Function.update_self] at hj
      exact Or.inl ⟨rfl, (Option.some_inj.mp hj).symm⟩
    · rw [Function.update_of_ne hne] at hj
      exact Or.inr hj
  constructor
  case next =>
    show s.nextId + 1 = _
    rw [h.next, UInt64.ofNat_add, UInt64.add_assoc]
    rfl
  case numbered =>
    constructor
    · intro j id hj
      rcases hcases hj with ⟨-, rfl⟩ | hj
      · exact ⟨n, Nat.lt_succ_self n, h.next⟩
      · obtain ⟨m, hm, heq⟩ := h.numbered.taken hj
        exact ⟨m, Nat.lt_succ_of_lt hm, heq⟩
    · intro j k id hj hk
      rcases hcases hj with ⟨hji, hid⟩ | hj <;> rcases hcases hk with ⟨hki, hid'⟩ | hk
      · exact hji.trans hki.symm
      · exact absurd (hid ▸ hk) (hfresh k)
      · exact absurd (hid' ▸ hj) (hfresh j)
      · exact h.numbered.own hj hk
  case held =>
    show s.waiting.Held fun j => (Function.update s.phase i (.numbered s.nextId) j).entry
    rw [read_update Phase.entry (by rw [hidle]; rfl)]
    exact h.held

omit [DecidableEq ι] in
theorem Inv.fresh_entry (h : Inv first n s) {i : ι} {id : UInt64} (hi : s.phase i = .numbered id) (j : ι) :
    (s.phase j).entry ≠ some id := by
  intro hj
  have hji : j = i := h.numbered.own (Phase.number_of_entry hj) (by rw [hi]; rfl)
  rw [hji, hi] at hj
  cases hj

theorem Inv.enter (h : Inv first n s) {i : ι} {id : UInt64} (hi : s.phase i = .numbered id) :
    Inv first n { s.setPhase i (.entered id) with waiting := s.waiting.register id i } where
  next := h.next
  numbered := by
    show Numbered first n fun j => (Function.update s.phase i (.entered id) j).number
    rw [read_update Phase.number (by rw [hi]; rfl)]
    exact h.numbered
  held := by
    show Waiting.Held (fun j => (Function.update s.phase i (.entered id) j).entry) _
    rw [entry_update]
    exact h.held.register (h.fresh_entry hi) (by rw [hi]; rfl)

theorem Inv.step (h : Inv first n s) (hn : n + [e].countP Event.numbers ≤ 2 ^ 64) :
    ∃ m ≤ n + [e].countP Event.numbers, Inv first m (s.step X calls e) := by
  have hstay : ∀ {s' : Driver ι}, Inv first n s' → ∃ m ≤ n + [e].countP Event.numbers, Inv first m s' := fun h' =>
    ⟨n, Nat.le_add_right _ _, h'⟩
  cases e with
  | number i =>
    cases hi : s.phase i with
    | idle =>
      simp only [Driver.step, hi]
      exact ⟨n + 1, le_refl _, h.number hn hi⟩
    | numbered | entered | waiting | settled =>
      simp only [Driver.step, hi]
      exact hstay h
  | enter i =>
    apply hstay
    cases hi : s.phase i with
    | numbered id =>
      simp only [Driver.step, hi]
      exact h.enter hi
    | idle | entered | waiting | settled =>
      simp only [Driver.step, hi]
      exact h
  | send i failure =>
    apply hstay
    cases hi : s.phase i with
    | entered id =>
      simp only [Driver.step, hi]
      split
      · exact h.setPhase (by rw [hi]; rfl) (by rw [hi]; rfl)
      · split
        · exact h.setPhase (by rw [hi]; rfl) (by rw [hi]; rfl)
        · have hset : Inv first n (s.setPhase i (.waiting id)) := h.setPhase (by rw [hi]; rfl) (by rw [hi]; rfl)
          exact ⟨hset.next, hset.numbered, hset.held⟩
    | idle | numbered | waiting | settled =>
      simp only [Driver.step, hi]
      exact h
  | poll i =>
    apply hstay
    cases hi : s.phase i with
    | waiting id =>
      simp only [Driver.step, hi]
      split
      · exact h.setPhase (by rw [hi]; rfl) (by rw [hi]; rfl)
      · exact h
    | idle | numbered | entered | settled =>
      simp only [Driver.step, hi]
      exact h
  | timeout i =>
    apply hstay
    cases hi : s.phase i with
    | waiting id =>
      simp only [Driver.step, hi]
      exact h.setPhase (by rw [hi]; rfl) (by rw [hi]; rfl)
    | idle | numbered | entered | settled =>
      simp only [Driver.step, hi]
      exact h
  | receive m =>
    apply hstay
    simp only [Driver.step]
    split
    · exact h
    · split
      · exact ⟨h.next, h.numbered, h.held⟩
      · split
        · exact ⟨h.next, h.numbered, h.held.deliver _ _⟩
        · exact h
  | closeSink | abortPump => exact hstay ⟨h.next, h.numbered, h.held⟩

theorem Inv.run (h : Inv first n s) {events : List (Event ι)} (hn : n + events.countP Event.numbers ≤ 2 ^ 64) :
    ∃ m ≤ n + events.countP Event.numbers, Inv first m (Lts.run (Driver.step X calls) s events) := by
  induction events generalizing s n with
  | nil => exact ⟨n, le_refl _, h⟩
  | cons e events ih =>
    have hcount : (e :: events).countP Event.numbers = [e].countP Event.numbers + events.countP Event.numbers :=
      @List.countP_append _ _ [e] events
    rw [hcount] at hn ⊢
    obtain ⟨m, hm, hstep⟩ := @Inv.step _ _ X calls _ _ _ e h (by omega)
    obtain ⟨m', hm', hrun⟩ := ih hstep (by omega)
    exact ⟨m', by omega, hrun⟩

/-! ### Mailboxes -/

theorem put_put {ρ : Type} (b : Mailbox ρ) (v w : ρ) : (b.put v).put w = b.put v := by
  cases b <;> rfl

/-- A call that has entered itself stays entered under its number. -/
theorem entry_step {i : ι} {id : UInt64} (hi : (s.phase i).entry = some id) (e : Event ι) :
    ((s.step X calls e).phase i).entry = some id := by
  have hset : ∀ {j : ι} {p : Phase}, (j = i → p.entry = some id) → ((s.setPhase j p).phase i).entry = some id := by
    intro j p hp
    rcases eq_or_ne i j with rfl | hne
    · rw [Driver.setPhase]
      dsimp only
      rw [Function.update_self]
      exact hp rfl
    · rw [Driver.setPhase]
      dsimp only
      rw [Function.update_of_ne hne]
      exact hi
  cases e with
  | number j =>
    simp only [Driver.step]
    split
    · rename_i hj
      exact hset fun hji => absurd hi (by rw [← hji, hj]; exact fun h => nomatch h)
    · exact hi
  | enter j =>
    simp only [Driver.step]
    split
    · rename_i hj
      exact hset fun hji => absurd hi (by rw [← hji, hj]; exact fun h => nomatch h)
    · exact hi
  | send j failure =>
    simp only [Driver.step]
    split
    · rename_i id' hj
      have hid : j = i → some id' = some id := fun hji => by
        rw [← hji, hj] at hi
        exact hi
      split
      · exact hset hid
      · split
        · exact hset hid
        · exact @hset _ (.waiting id') hid
    · exact hi
  | poll j =>
    simp only [Driver.step]
    split
    · rename_i hj
      split
      · exact hset fun hji => by rw [← hji, hj] at hi; exact hi
      · exact hi
    · exact hi
  | timeout j =>
    simp only [Driver.step]
    split
    · rename_i hj
      exact hset fun hji => by rw [← hji, hj] at hi; exact hi
    · exact hi
  | receive m =>
    simp only [Driver.step]
    split
    · exact hi
    · split
      · exact hi
      · split <;> exact hi
  | closeSink | abortPump => exact hi

theorem pumping_step (e : Event ι) : (s.step X calls e).pumping = e.pumps s.pumping := by
  cases e with
  | number | enter =>
    simp only [Driver.step]
    split <;> rfl
  | send j failure =>
    simp only [Driver.step]
    split
    · split
      · rfl
      · split <;> rfl
    · rfl
  | poll | timeout =>
    simp only [Driver.step]
    split
    · first
      | rfl
      | split <;> rfl
    · rfl
  | receive m =>
    simp only [Driver.step, Event.pumps]
    cases hpumping : s.pumping with
    | false => simp [hpumping]
    | true =>
      cases hends : m.ends with
      | true => simp
      | false =>
        simp only [Bool.not_true, Bool.not_false, Bool.and_true, Bool.false_eq_true, if_false]
        split
        · rfl
        · exact hpumping
  | closeSink | abortPump => rfl

/-- The mailbox of a call that has entered itself takes the reply of a step if it has the number of the call. -/
theorem box_step (h : Inv first n s) {i : ι} {id : UInt64} (hi : (s.phase i).entry = some id) (e : Event ι) :
    (s.step X calls e).waiting.box i =
      match e.read X s.pumping with
      | some (id', v) => if id' = id then (s.waiting.box i).put v else s.waiting.box i
      | none => s.waiting.box i := by
  cases e with
  | enter j =>
    simp only [Driver.step, Event.read]
    split
    · rename_i id' hj
      exact congrFun (Waiting.box_register h.held (h.fresh_entry hj) j) i
    · rfl
  | receive m =>
    simp only [Driver.step, Event.read]
    cases hpumping : s.pumping with
    | false => simp
    | true =>
      cases hends : m.ends with
      | true => simp
      | false =>
        simp only [Bool.not_true, Bool.not_false, Bool.and_true, Bool.false_eq_true, if_false, if_true]
        cases hreply : m.reply X with
        | none => rfl
        | some r =>
          obtain ⟨id', v⟩ := r
          dsimp only
          by_cases hid : id' = id
          · rw [if_pos hid, hid]
            exact Waiting.box_deliver h.held hi v
          · rw [if_neg hid]
            exact Waiting.box_deliver_of_ne h.held (fun heq => hid (Option.some_inj.mp (heq.symm.trans hi))) v
  | number j =>
    simp only [Driver.step, Event.read]
    split <;> rfl
  | send j failure =>
    simp only [Driver.step, Event.read]
    split
    · split
      · rfl
      · split <;> rfl
    · rfl
  | poll j =>
    simp only [Driver.step, Event.read]
    split
    · split <;> rfl
    · rfl
  | timeout j =>
    simp only [Driver.step, Event.read]
    split <;> rfl
  | closeSink | abortPump => rfl

/-- Over a run it takes the first reply with this number. -/
theorem box_run (h : Inv first n s) {i : ι} {id : UInt64} (hi : (s.phase i).entry = some id) {events : List (Event ι)}
    (hn : n + events.countP Event.numbers ≤ 2 ^ 64) :
    (Lts.run (Driver.step X calls) s events).waiting.box i =
      match firstReply X id s.pumping events with
      | some v => (s.waiting.box i).put v
      | none => s.waiting.box i := by
  induction events generalizing s n with
  | nil => rfl
  | cons e events ih =>
    have hcount : (e :: events).countP Event.numbers = [e].countP Event.numbers + events.countP Event.numbers :=
      @List.countP_append _ _ [e] events
    rw [hcount] at hn
    obtain ⟨m, hm, hstep⟩ := @Inv.step _ _ X calls _ _ _ e h (by omega)
    rw [Lts.run_cons, ih hstep (entry_step hi e) (by omega), box_step h hi e, pumping_step, firstReply]
    cases hread : e.read X s.pumping with
    | none => rfl
    | some r =>
      obtain ⟨id', v⟩ := r
      dsimp only
      by_cases hid : id' = id
      · rw [if_pos hid, if_pos hid]
        split
        · exact put_put _ _ _
        · rfl
      · rw [if_neg hid, if_neg hid]

/-! ### Whole runs -/

variable (X calls) in
/-- The driver after some steps. -/
def reached (first : UInt64) (events : List (Event ι)) : Driver ι := Lts.run (Driver.step X calls) (.start first) events

variable (X calls) in
/-- The calls of a run and their replies. -/
structure Paired (first : UInt64) (events : List (Event ι)) : Prop where
  /-- A number belongs to one call. -/
  own : ∀ {i j id}, ((reached X calls first events).phase i).number = some id →
    ((reached X calls first events).phase j).number = some id → i = j
  /-- A call that looks at its mailbox finds the first reply with its number since it has entered itself. -/
  polled : ∀ {before mid i id}, events = before ++ .enter i :: mid →
    (reached X calls first before).phase i = .numbered id → (reached X calls first events).phase i = .waiting id →
    (reached X calls first (events ++ [.poll i])).phase i =
      match firstReply X id (reached X calls first before).pumping mid with
      | some v => .settled id ((calls i).outcome X v)
      | none => .waiting id
  /-- A call whose time is over fails if there was none. -/
  expired : ∀ {before mid i id}, events = before ++ .enter i :: mid →
    (reached X calls first before).phase i = .numbered id → (reached X calls first events).phase i = .waiting id →
    (reached X calls first (events ++ [.timeout i])).phase i =
      .settled id (match firstReply X id (reached X calls first before).pumping mid with
        | some v => (calls i).outcome X v
        | none => .error (calls i).timedOut)

/-- The mailbox of a call, some time after it has entered itself. -/
theorem box_reached {before mid : List (Event ι)} {i : ι} {id : UInt64}
    (hn : (before ++ .enter i :: mid).countP Event.numbers ≤ 2 ^ 64)
    (hi : (reached X calls first before).phase i = .numbered id) :
    (reached X calls first (before ++ .enter i :: mid)).waiting.box i =
      match firstReply X id (reached X calls first before).pumping mid with
      | some v => .full v
      | none => .empty := by
  rw [List.countP_append, List.countP_cons_of_neg (by simp [Event.numbers])] at hn
  obtain ⟨m, hm, hinv⟩ := @Inv.run _ _ X calls _ _ _ (inv_start first) before (by omega)
  have hempty : (reached X calls first before).waiting.box i = .empty :=
    hinv.held.unregistered (by show ((reached X calls first before).phase i).entry = none; rw [hi]; rfl)
  have henter := hinv.enter hi
  have hentered : (reached X calls first before).step X calls (.enter i) =
      { (reached X calls first before).setPhase i (.entered id) with
        waiting := (reached X calls first before).waiting.register id i } := by
    simp only [Driver.step, hi]
  have hbox : ((reached X calls first before).step X calls (.enter i)).waiting.box i = .empty := by
    rw [hentered, ← hempty]
    exact congrFun (Waiting.box_register hinv.held (hinv.fresh_entry hi) i) i
  have hentry : (((reached X calls first before).step X calls (.enter i)).phase i).entry = some id := by
    show (((reached X calls first before).step X calls (.enter i)).phase i).entry = some id
    rw [hentered, Driver.setPhase]
    dsimp only
    rw [Function.update_self]
    rfl
  have hrun : reached X calls first (before ++ .enter i :: mid) =
      Lts.run (Driver.step X calls) ((reached X calls first before).step X calls (.enter i)) mid :=
    Lts.run_append _ _ _ _
  have hpumping : ((reached X calls first before).step X calls (.enter i)).pumping = (reached X calls first before).pumping :=
    pumping_step _
  rw [hrun, box_run (n := m) (by rw [hentered]; exact henter) hentry (by omega), hbox, hpumping]
  split <;> rfl

/-- **No two calls share a number, and a call is answered by the first reply with its number since it has entered itself**, as long as the counter has not come around, whatever the other calls do and whatever else the browser sends. -/
theorem calls_paired (X : Crates) (calls : ι → Rpc) (first : UInt64) (events : List (Event ι))
    (hn : events.countP Event.numbers ≤ 2 ^ 64) : Paired X calls first events where
  own hi hj := by
    obtain ⟨m, -, hinv⟩ := @Inv.run _ _ X calls _ _ _ (inv_start first) events (by omega)
    exact hinv.numbered.own hi hj
  polled {before mid i id} hevents hi hwaiting := by
    subst hevents
    have hbox := box_reached hn hi
    rw [reached, Lts.run_append]
    show (((reached X calls first _).step X calls (.poll i)).phase i) = _
    simp only [Driver.step, hwaiting, hbox]
    cases firstReply X id (reached X calls first before).pumping mid with
    | some v => exact Function.update_self i _ _
    | none => exact hwaiting
  expired {before mid i id} hevents hi hwaiting := by
    subst hevents
    have hbox := box_reached hn hi
    rw [reached, Lts.run_append]
    show (((reached X calls first _).step X calls (.timeout i)).phase i) = _
    simp only [Driver.step, hwaiting, hbox, Driver.setPhase, Function.update_self]
    cases firstReply X id (reached X calls first before).pumping mid <;> rfl

/-- The text of every message is the reply with number 2. -/
def Crates.second : Crates :=
  { Crates.sample with fromStr := fun _ => some (.object [("id", .number (.posInt 2)), ("result", .bool true)]) }

def overlapping : List (Event Bool) :=
  [.number false, .number true] ++ .enter true :: [.enter false, .send false none, .send true none, .receive (.text "")]

/-- Two calls overlap, and the reply to the second one comes first. -/
theorem calls_paired_overlapping :
    (reached Crates.second (fun _ => ⟨"Page.enable", .object [], none⟩) 1 (overlapping ++ [.poll true])).phase true =
      .settled 2 (.ok (.bool true)) :=
  (calls_paired Crates.second (fun _ => ⟨"Page.enable", .object [], none⟩) 1 overlapping (by decide)).polled rfl rfl rfl

end System

end ActantDb.Cdp
