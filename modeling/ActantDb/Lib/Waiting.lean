import Mathlib.Logic.Function.Basic

/-!
# Callers that wait for a reply

Several callers share one connection. Each chooses a number and puts it with its mailbox into a table before it sends its request; whoever reads the connection looks up the number of each reply, takes the entry out and puts the reply into the mailbox. As long as no two callers choose the same number, a mailbox is filled by the first reply with the caller's number and by nothing else (`box_deliver`, `box_deliver_of_ne`).
-/

/-- A mailbox for one reply. It is dropped when its entry is overwritten. -/
inductive Mailbox (ρ : Type*) where
  | empty
  | full (reply : ρ)
  | dropped

/-- Only an empty mailbox takes a reply. -/
def Mailbox.put {ρ : Type*} (reply : ρ) : Mailbox ρ → Mailbox ρ
  | .empty => .full reply
  | b => b

/-- The table, and what the mailbox of each caller holds. -/
structure Waiting (κ ι ρ : Type*) where
  pending : ι → Option κ
  box : κ → Mailbox ρ

namespace Waiting

variable {κ ι ρ : Type*}

def start : Waiting κ ι ρ := ⟨fun _ => none, fun _ => .empty⟩

/-- The entries are those of the callers whose mailbox is empty, each under the number it has registered. -/
structure Held (numberOf : κ → Option ι) (t : Waiting κ ι ρ) : Prop where
  own : ∀ {k k' number}, numberOf k = some number → numberOf k' = some number → k = k'
  pending : ∀ {k number}, t.pending number = some k ↔ numberOf k = some number ∧ t.box k = .empty
  unregistered : ∀ {k}, numberOf k = none → t.box k = .empty

theorem held_start : Held (fun _ => none) (start : Waiting κ ι ρ) where
  own h := nomatch h
  pending := ⟨fun h => (nomatch h), fun h => (nomatch h.1)⟩
  unregistered _ := rfl

variable [DecidableEq κ] [DecidableEq ι]

/-- The entry that the number had before, if there is one, is lost. -/
def register (t : Waiting κ ι ρ) (number : ι) (k : κ) : Waiting κ ι ρ where
  pending := Function.update t.pending number (some k)
  box :=
    match t.pending number with
    | some k' => Function.update t.box k' .dropped
    | none => t.box

def deliver (t : Waiting κ ι ρ) (number : ι) (reply : ρ) : Waiting κ ι ρ :=
  match t.pending number with
  | some k => ⟨Function.update t.pending number none, Function.update t.box k ((t.box k).put reply)⟩
  | none => t

variable {numberOf : κ → Option ι} {t : Waiting κ ι ρ} {number : ι} {k : κ}

/-! ### Registering -/

section Register

variable (h : Held numberOf t) (hfresh : ∀ k', numberOf k' ≠ some number)
include h hfresh

omit [DecidableEq κ] [DecidableEq ι] in
theorem pending_fresh : t.pending number = none := by
  cases hpending : t.pending number with
  | none => rfl
  | some k' => exact absurd (h.pending.mp hpending).1 (hfresh k')

theorem box_register (k : κ) : (t.register number k).box = t.box := by
  rw [register, pending_fresh h hfresh]

theorem Held.register (hnone : numberOf k = none) :
    Held (Function.update numberOf k (some number)) (t.register number k) := by
  have hnumber : ∀ {a n}, Function.update numberOf k (some number) a = some n → a = k ∧ n = number ∨ a ≠ k ∧ numberOf a = some n := by
    intro a n ha
    rcases eq_or_ne a k with rfl | hak
    · rw [Function.update_self, Option.some_inj] at ha
      exact Or.inl ⟨rfl, ha.symm⟩
    · rw [Function.update_of_ne hak] at ha
      exact Or.inr ⟨hak, ha⟩
  constructor
  case own =>
    intro a b n ha hb
    rcases hnumber ha with ⟨ha, hn⟩ | ⟨-, ha⟩ <;> rcases hnumber hb with ⟨hb, hn'⟩ | ⟨-, hb⟩
    · exact ha.trans hb.symm
    · exact absurd (hn ▸ hb) (hfresh b)
    · exact absurd (hn' ▸ ha) (hfresh a)
    · exact h.own ha hb
  case pending =>
    intro a n
    rw [box_register h hfresh, Waiting.register]
    dsimp only
    rcases eq_or_ne n number with rfl | hn
    · rw [Function.update_self, Option.some_inj]
      constructor
      · rintro rfl
        exact ⟨Function.update_self _ _ _, h.unregistered hnone⟩
      · rintro ⟨ha, -⟩
        rcases hnumber ha with ⟨rfl, -⟩ | ⟨-, ha⟩
        · rfl
        · exact absurd ha (hfresh a)
    · rw [Function.update_of_ne hn, h.pending]
      refine and_congr_left fun _ => ⟨fun ha => ?_, fun ha => ?_⟩
      · rw [Function.update_of_ne]
        · exact ha
        · rintro rfl
          rw [hnone] at ha
          cases ha
      · rcases hnumber ha with ⟨-, rfl⟩ | ⟨-, ha⟩
        · exact absurd rfl hn
        · exact ha
  case unregistered =>
    intro a ha
    rw [box_register h hfresh]
    rcases eq_or_ne a k with rfl | hak
    · exact h.unregistered hnone
    · rw [Function.update_of_ne hak] at ha
      exact h.unregistered ha

end Register

/-! ### Delivering -/

/-- **A reply goes into the mailbox of the caller whose number it has.** -/
theorem box_deliver (h : Held numberOf t) (hk : numberOf k = some number) (reply : ρ) :
    (t.deliver number reply).box k = (t.box k).put reply := by
  rw [deliver]
  cases hpending : t.pending number with
  | some k' =>
    rw [h.own hk (h.pending.mp hpending).1]
    exact Function.update_self _ _ _
  | none =>
    -- the mailbox is not empty, or there would be an entry
    cases hbox : t.box k with
    | empty =>
      rw [h.pending.mpr ⟨hk, hbox⟩] at hpending
      cases hpending
    | full | dropped => rfl

/-- **It goes nowhere else.** -/
theorem box_deliver_of_ne (h : Held numberOf t) (hk : numberOf k ≠ some number) (reply : ρ) :
    (t.deliver number reply).box k = t.box k := by
  rw [deliver]
  cases hpending : t.pending number with
  | some k' =>
    apply Function.update_of_ne
    rintro rfl
    exact hk (h.pending.mp hpending).1
  | none => rfl

theorem put_ne_empty (b : Mailbox ρ) (reply : ρ) : b.put reply ≠ .empty := by
  cases b <;> exact fun h => nomatch h

theorem Held.deliver (h : Held numberOf t) (number : ι) (reply : ρ) : Held numberOf (t.deliver number reply) := by
  constructor
  case own => exact h.own
  case pending =>
    intro k n
    rcases eq_or_ne n number with rfl | hn
    · have hgone : (t.deliver n reply).pending n = none := by
        rw [Waiting.deliver]
        cases hpending : t.pending n with
        | some k' => exact Function.update_self _ _ _
        | none => exact hpending
      rw [hgone]
      constructor
      · intro heq
        cases heq
      · rintro ⟨hk, hbox⟩
        rw [box_deliver h hk] at hbox
        exact absurd hbox (put_ne_empty _ _)
    · have hkept : (t.deliver number reply).pending n = t.pending n := by
        rw [Waiting.deliver]
        split
        · exact Function.update_of_ne hn _ _
        · rfl
      rw [hkept, h.pending]
      refine and_congr_right fun hk => ?_
      rw [box_deliver_of_ne h fun hk' => hn (Option.some_inj.mp (hk.symm.trans hk'))]
  case unregistered =>
    intro k hk
    rw [box_deliver_of_ne h fun hk' => nomatch hk.symm.trans hk']
    exact h.unregistered hk

end Waiting
