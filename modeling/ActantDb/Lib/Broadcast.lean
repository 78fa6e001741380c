import Mathlib.Data.List.Basic

/-!
# Broadcast receivers

A broadcast channel keeps its last few messages in a ring of slots. A receiver that has not read a message when its slot is used again has missed it: the next time it asks it is told how many it has missed, and then goes on with the oldest message still there. So a receiver is a queue, no longer than the ring, that loses its oldest message when a new one does not fit.
-/

/-- The messages a receiver has still to read, and how many it has missed since it was last told. -/
structure Receiver (α : Type*) where
  queue : List α
  missed : Nat

namespace Receiver

variable {α : Type*}

/-- A new receiver sees what is sent from now on. -/
def new : Receiver α := ⟨[], 0⟩

def push (slots : Nat) (r : Receiver α) (a : α) : Receiver α :=
  if r.queue.length < slots then { r with queue := r.queue ++ [a] }
  else ⟨r.queue.drop 1 ++ [a], r.missed + 1⟩

/-- What `recv` is answered with: nothing so far, the number of messages missed, or a message. -/
inductive Recv (α : Type*) where
  | empty
  | lagged (missed : Nat)
  | ok (a : α)

def recv (r : Receiver α) : Recv α × Receiver α :=
  if 0 < r.missed then (.lagged r.missed, { r with missed := 0 })
  else
    match r.queue with
    | [] => (.empty, r)
    | a :: rest => (.ok a, { r with queue := rest })

@[simp] theorem queue_new : (new : Receiver α).queue = [] := rfl

theorem push_of_lt {slots : Nat} {r : Receiver α} (h : r.queue.length < slots) (a : α) :
    r.push slots a = { r with queue := r.queue ++ [a] } :=
  if_pos h

/-- The oldest message is lost. -/
theorem push_of_le {slots : Nat} {r : Receiver α} (h : slots ≤ r.queue.length) (a : α) :
    r.push slots a = ⟨r.queue.drop 1 ++ [a], r.missed + 1⟩ :=
  if_neg (Nat.not_lt.mpr h)

/-- What fits in the slots is kept. -/
theorem foldl_push {slots : Nat} {r : Receiver α} {sent : List α}
    (h : r.queue.length + sent.length ≤ slots) :
    sent.foldl (push slots) r = { r with queue := r.queue ++ sent } := by
  induction sent generalizing r with
  | nil => simp
  | cons a rest ih =>
    rw [List.length_cons] at h
    rw [List.foldl_cons, push_of_lt (by omega), ih (by simp; omega)]
    simp

/-- A message comes off the front of the queue, and nothing else takes one off. -/
theorem recv_cases (r : Receiver α) :
    (∃ a, r.recv.1 = .ok a ∧ r.queue = a :: r.recv.2.queue) ∨
      ((∀ a, r.recv.1 ≠ .ok a) ∧ r.recv.2.queue = r.queue) := by
  unfold recv
  split
  · exact Or.inr ⟨fun a => nofun, rfl⟩
  · cases hq : r.queue with
    | nil => exact Or.inr ⟨fun a => nofun, hq⟩
    | cons a rest => exact Or.inl ⟨a, rfl, rfl⟩

theorem recv_ok {r r' : Receiver α} {a : α} (h : r.recv = (.ok a, r')) :
    r.queue = a :: r'.queue := by
  rcases r.recv_cases with ⟨a', hok, hqueue⟩ | ⟨hno, -⟩
  · rw [h] at hok hqueue
    cases hok
    exact hqueue
  · exact absurd (congrArg Prod.fst h) (hno a)

theorem recv_other {r r' : Receiver α} {x : Recv α}
    (h : r.recv = (x, r')) (hno : ∀ a, x ≠ .ok a) : r'.queue = r.queue := by
  rcases r.recv_cases with ⟨a', hok, -⟩ | ⟨-, hsame⟩
  · rw [h] at hok
    exact absurd hok (hno a')
  · rw [h] at hsame
    exact hsame

/-! ### What becomes of the messages -/

/-- Of the messages `sent` since the receiver is there, `taken` are read, the queue is still to be read, and the others are lost; of those it has been told `told`. -/
structure Account (slots : Nat) (sent taken : List α) (told : Nat) (r : Receiver α) : Prop where
  order : (taken ++ r.queue).Sublist sent
  count : sent.length = taken.length + r.queue.length + told + r.missed
  room : r.queue.length ≤ slots
  /-- Nothing is lost before the slots are used up by what comes after it. -/
  late : 0 < told + r.missed → slots + told + r.missed ≤ sent.length

section Account

variable {slots told : Nat} {sent taken : List α} {r : Receiver α}

theorem account_new : Account slots ([] : List α) [] 0 new := ⟨.refl _, rfl, Nat.zero_le _, fun h => absurd h (by simp [new])⟩

theorem Account.push (h : Account slots sent taken told r) (hslots : 0 < slots) (a : α) :
    Account slots (sent ++ [a]) taken told (r.push slots a) := by
  rcases Nat.lt_or_ge r.queue.length slots with hlt | hge
  · rw [push_of_lt hlt]
    constructor
    case order =>
      rw [← List.append_assoc]
      exact h.order.append (.refl [a])
    case count =>
      have hcount := h.count
      simp only [List.length_append, List.length_singleton]
      omega
    case room =>
      rw [List.length_append, List.length_singleton]
      omega
    case late =>
      intro hlost
      rw [List.length_append]
      exact Nat.le_add_right_of_le (h.late hlost)
  · rw [push_of_le hge]
    have hroom := h.room
    have hcount := h.count
    constructor
    case order =>
      rw [← List.append_assoc]
      exact ((List.Sublist.append_left (List.drop_sublist 1 r.queue) taken).trans h.order).append (.refl [a])
    case count =>
      simp only [List.length_append, List.length_drop, List.length_singleton]
      omega
    case room =>
      simp only [List.length_append, List.length_drop, List.length_singleton]
      omega
    case late =>
      intro _
      simp only [List.length_append, List.length_singleton]
      omega

theorem Account.tell (h : Account slots sent taken told r) :
    Account slots sent taken (told + r.missed) { r with missed := 0 } where
  order := h.order
  count := by
    have hcount := h.count
    dsimp only
    omega
  room := h.room
  late hlost := by
    have hlate := h.late hlost
    dsimp only
    omega

theorem Account.take (h : Account slots sent taken told r) {a : α} {rest : List α} (hqueue : r.queue = a :: rest) :
    Account slots sent (taken ++ [a]) told { r with queue := rest } := by
  have hcount := h.count
  have hroom := h.room
  have horder := h.order
  rw [hqueue, List.length_cons] at hcount hroom
  rw [hqueue] at horder
  constructor
  case order => rwa [List.append_assoc, List.singleton_append]
  case count =>
    simp only [List.length_append, List.length_singleton]
    omega
  case room =>
    show rest.length ≤ slots
    omega
  case late => exact h.late

theorem Account.takes {queue : List α} (h : Account slots sent taken told r) (read : List α) (hqueue : r.queue = read ++ queue) :
    Account slots sent (taken ++ read) told { r with queue } := by
  induction read generalizing taken r with
  | nil =>
    rw [List.append_nil]
    rw [List.nil_append] at hqueue
    rwa [← hqueue]
  | cons a read ih =>
    have hnext := ih (h.take hqueue) rfl
    rwa [List.append_assoc, List.singleton_append] at hnext

/-- If nothing is lost, every message is read or still to be read, in the order in which they were sent. -/
theorem Account.eq_of_none_lost (h : Account slots sent taken told r) (hnone : told + r.missed = 0) : taken ++ r.queue = sent := by
  apply h.order.eq_of_length
  have hcount := h.count
  rw [List.length_append]
  omega

end Account

end Receiver
