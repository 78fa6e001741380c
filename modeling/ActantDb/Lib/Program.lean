import Mathlib.Logic.Function.Basic
import ActantDb.Lib.Run

/-!
# Programs over an interface of operations

A program is a tree: it has returned a value or an error, or it calls an operation and goes on with the answer. The same tree is executed alone against a world (`run`), or as one thread of a pool whose calls interleave (`Pool`), so what a program may do is said once, on the tree, and used in both.

A `Monitor` says what a program may call next, given a summary of the calls it has made so far. `Safe` is the weakest precondition it induces: a safe program never makes a call its monitor forbids, whatever the answers, and what it returns meets its postcondition.
-/

universe v

inductive Prog (Op : Type*) (Res : Op → Type*) (ε : Type*) (α : Type v) where
  | done (r : Except ε α)
  | call (o : Op) (next : Res o → Prog Op Res ε α)

namespace Prog

variable {Op : Type*} {Res : Op → Type*} {ε : Type*} {α β : Type v}

protected def bind (p : Prog Op Res ε α) (f : α → Prog Op Res ε β) : Prog Op Res ε β :=
  match p with
  | .done (.ok a) => f a
  | .done (.error e) => .done (.error e)
  | .call o next => .call o fun r => (next r).bind f

instance : Monad (Prog Op Res ε) where
  pure a := .done (.ok a)
  bind := Prog.bind

/-- Return an error. -/
def fail (e : ε) : Prog Op Res ε α := .done (.error e)

/-- Call one operation and return its answer. -/
def perform {Op : Type*} {Res : Op → Type v} (o : Op) : Prog Op Res ε (Res o) :=
  .call o fun r => .done (.ok r)

/-- Call one operation whose answer may be an error, and fail with what `onError` makes of it. -/
def performOr {δ : Type*} (o : Op) (answer : Res o → Except δ α) (onError : δ → ε) :
    Prog Op Res ε α :=
  .call o fun r =>
    match answer r with
    | .ok a => .done (.ok a)
    | .error d => .done (.error (onError d))

/-- Run to the end and discard the outcome, error or not. -/
def ignore (p : Prog Op Res ε α) : Prog Op Res ε PUnit :=
  match p with
  | .done _ => .done (.ok ⟨⟩)
  | .call o next => .call o fun r => (next r).ignore

section Embed

variable {Op' : Type*} {Res' : Op' → Type*} {ε' : Type*}

/-- The same program over an interface that has each of its operations, as `f` of it. -/
def embed (f : Op → Op') (answer : ∀ o, Res' (f o) → Res o) (onError : ε → ε') :
    Prog Op Res ε α → Prog Op' Res' ε' α
  | .done (.ok a) => .done (.ok a)
  | .done (.error e) => .done (.error (onError e))
  | .call o next => .call (f o) fun r => (next (answer o r)).embed f answer onError

end Embed

def returned : Prog Op Res ε α → Bool
  | .done (.ok _) => true
  | _ => false

def failed : Prog Op Res ε α → Bool
  | .done (.error _) => true
  | _ => false

theorem returned_iff {p : Prog Op Res ε α} : p.returned = true ↔ ∃ a, p = .done (.ok a) := by
  cases p with
  | done r => cases r <;> simp [returned]
  | call o next => simp [returned]

@[simp] theorem pure_eq (a : α) : (pure a : Prog Op Res ε α) = .done (.ok a) := rfl

@[simp] theorem fail_eq (e : ε) : (fail e : Prog Op Res ε α) = .done (.error e) := rfl

@[simp] theorem ok_bind (a : α) (f : α → Prog Op Res ε β) : (.done (.ok a) >>= f) = f a := rfl

@[simp] theorem error_bind (e : ε) (f : α → Prog Op Res ε β) :
    (.done (.error e) >>= f) = .done (.error e) := rfl

@[simp] theorem call_bind (o : Op) (next : Res o → Prog Op Res ε α) (f : α → Prog Op Res ε β) :
    (.call o next >>= f) = .call o fun r => next r >>= f := rfl

theorem bind_assoc {γ : Type v} (p : Prog Op Res ε α) (f : α → Prog Op Res ε β)
    (g : β → Prog Op Res ε γ) : (p >>= f) >>= g = p >>= fun a => f a >>= g := by
  induction p with
  | done r => cases r <;> rfl
  | call o next ih =>
    simp only [call_bind]
    congr 1
    funext r
    exact ih r

theorem bind_pure (p : Prog Op Res ε α) : (p >>= fun a => pure a) = p := by
  induction p with
  | done r => cases r <;> rfl
  | call o next ih =>
    rw [call_bind]
    congr 1
    funext r
    exact ih r

/-! ### A program alone -/

section Run

variable {W : Type*} (handle : (o : Op) → W → Res o × W)

/-- Execute the program alone, from a world. -/
def run : Prog Op Res ε α → W → Except ε α × W
  | .done r, w => (r, w)
  | .call o next, w => (next (handle o w).1).run (handle o w).2

@[simp] theorem run_done (r : Except ε α) (w : W) :
    (.done r : Prog Op Res ε α).run handle w = (r, w) := rfl

@[simp] theorem run_call (o : Op) (next : Res o → Prog Op Res ε α) (w : W) :
    (Prog.call o next).run handle w = (next (handle o w).1).run handle (handle o w).2 := rfl

theorem run_bind (p : Prog Op Res ε α) (f : α → Prog Op Res ε β) (w : W) :
    (p >>= f).run handle w =
      match p.run handle w with
      | (.ok a, w') => (f a).run handle w'
      | (.error e, w') => (.error e, w') := by
  induction p generalizing w with
  | done r => cases r <;> rfl
  | call o next ih => exact ih _ _

theorem run_bind_ok {p : Prog Op Res ε α} {f : α → Prog Op Res ε β} {w w' : W} {a : α}
    (h : p.run handle w = (.ok a, w')) : (p >>= f).run handle w = (f a).run handle w' := by
  rw [run_bind, h]

theorem run_bind_error {p : Prog Op Res ε α} {f : α → Prog Op Res ε β} {w w' : W} {e : ε}
    (h : p.run handle w = (.error e, w')) : (p >>= f).run handle w = (.error e, w') := by
  rw [run_bind, h]

theorem run_ignore (p : Prog Op Res ε α) (w : W) :
    (p.ignore : Prog Op Res ε PUnit).run handle w = (.ok ⟨⟩, (p.run handle w).2) := by
  induction p generalizing w with
  | done r => rfl
  | call o next ih => exact ih _ _

theorem run_performOr {δ : Type*} (o : Op) (answer : Res o → Except δ α) (onError : δ → ε) (w : W) :
    (performOr o answer onError : Prog Op Res ε α).run handle w =
      ((answer (handle o w).1).mapError onError, (handle o w).2) := by
  simp only [performOr, run_call]
  cases answer (handle o w).1 with
  | ok a => rfl
  | error d => rfl

/-- The operations the program calls, run alone from `w`. -/
def calls : Prog Op Res ε α → W → List Op
  | .done _, _ => []
  | .call o next, w => o :: (next (handle o w).1).calls (handle o w).2

/-- What is left of the program, and the world, after `k` calls, or all of them when they are fewer. -/
def steps : Nat → Prog Op Res ε α → W → Prog Op Res ε α × W
  | 0, p, w => (p, w)
  | _ + 1, .done r, w => (.done r, w)
  | k + 1, .call o next, w => steps k (next (handle o w).1) (handle o w).2

theorem calls_bind_ok {p : Prog Op Res ε α} {f : α → Prog Op Res ε β} {w w' : W} {a : α}
    (h : p.run handle w = (.ok a, w')) :
    (p >>= f).calls handle w = p.calls handle w ++ (f a).calls handle w' := by
  induction p generalizing w with
  | done r =>
    cases h
    rfl
  | call o next ih => exact congrArg (o :: ·) (ih _ h)

theorem calls_performOr {δ : Type*} (o : Op) (answer : Res o → Except δ α) (onError : δ → ε) (w : W) :
    (performOr o answer onError : Prog Op Res ε α).calls handle w = [o] := by
  rw [performOr, calls]
  cases answer (handle o w).1 with
  | ok a => rfl
  | error d => rfl

/-- Every operation the program calls, run alone from `w`, meets `C` in the world it is called in. -/
def Along (C : W → Op → Prop) : Prog Op Res ε α → W → Prop
  | .done _, _ => True
  | .call o next, w => C w o ∧ (next (handle o w).1).Along C (handle o w).2

instance decidableAlong (C : W → Op → Prop) [∀ w o, Decidable (C w o)] :
    ∀ (p : Prog Op Res ε α) (w : W), Decidable (p.Along handle C w)
  | .done _, _ => instDecidableTrue
  | .call o next, w =>
    have := decidableAlong C (next (handle o w).1) (handle o w).2
    inferInstanceAs (Decidable (C w o ∧ (next (handle o w).1).Along handle C (handle o w).2))

theorem along_true (p : Prog Op Res ε α) (w : W) : p.Along handle (fun _ _ => True) w := by
  induction p generalizing w with
  | done r => trivial
  | call o next ih => exact ⟨trivial, ih _ _⟩

end Run

end Prog

/-! ### Monitors -/

/-- What a program may call next and how each answer updates the summary `L` of its calls so far. -/
structure Monitor (Op : Type*) (Res : Op → Type*) (L : Type*) where
  allowed : L → Op → Prop
  next : L → (o : Op) → Res o → L

namespace Prog

variable {Op : Type*} {Res : Op → Type*} {ε L : Type*} {α β : Type v} {M : Monitor Op Res L}

/-- From the summary `l` the program only makes calls the monitor allows, and returns in `Q`. -/
def Safe (M : Monitor Op Res L) (Q : L → Except ε α → Prop) : L → Prog Op Res ε α → Prop
  | l, .done r => Q l r
  | l, .call o next => M.allowed l o ∧ ∀ r, Safe M Q (M.next l o r) (next r)

variable {Q Q' : L → Except ε α → Prop} {l : L}

@[simp] theorem safe_done {r : Except ε α} : Safe M Q l (.done r) ↔ Q l r := Iff.rfl

@[simp] theorem safe_call {o : Op} {next : Res o → Prog Op Res ε α} :
    Safe M Q l (.call o next) ↔ M.allowed l o ∧ ∀ r, Safe M Q (M.next l o r) (next r) := Iff.rfl

theorem Safe.mono {p : Prog Op Res ε α} (h : Safe M Q l p) (hQ : ∀ l r, Q l r → Q' l r) :
    Safe M Q' l p := by
  induction p generalizing l with
  | done r => exact hQ l r h
  | call o next ih => exact ⟨h.1, fun r => ih r (h.2 r)⟩

theorem Safe.and {p : Prog Op Res ε α} (h : Safe M Q l p) (h' : Safe M Q' l p) :
    Safe M (fun l r => Q l r ∧ Q' l r) l p := by
  induction p generalizing l with
  | done r => exact ⟨h, h'⟩
  | call o next ih => exact ⟨h.1, fun r => ih r (h.2 r) (h'.2 r)⟩

/-- **Sequencing rule.** The first program's postcondition hands its value to the second, or its error through. -/
theorem safe_bind {p : Prog Op Res ε α} {f : α → Prog Op Res ε β} {Q : L → Except ε β → Prop}
    (h : Safe M (fun l r => match r with
      | .ok a => Safe M Q l (f a)
      | .error e => Q l (.error e)) l p) : Safe M Q l (p >>= f) := by
  induction p generalizing l with
  | done r => cases r <;> exact h
  | call o next ih => exact ⟨h.1, fun r => ih r (h.2 r)⟩

theorem safe_ignore {p : Prog Op Res ε α} {Q : L → Except ε PUnit → Prop}
    (h : Safe M (fun l _ => Q l (.ok ⟨⟩)) l p) : Safe M Q l p.ignore := by
  induction p generalizing l with
  | done r => exact h
  | call o next ih => exact ⟨h.1, fun r => ih r (h.2 r)⟩

/-- Safe from every summary in `K`, and back in `K` when it returns, whatever it returns. -/
structure Steady (M : Monitor Op Res L) (K : L → Prop) (p : Prog Op Res ε α) : Prop where
  safe : ∀ l, K l → Safe M (fun l _ => K l) l p

section Steady

variable {K : L → Prop}

theorem steady_done (r : Except ε α) : Steady M K (.done r : Prog Op Res ε α) := ⟨fun _ h => h⟩

theorem Steady.bind {p : Prog Op Res ε α} {f : α → Prog Op Res ε β} (hp : Steady M K p)
    (hf : ∀ a, Steady M K (f a)) : Steady M K (p >>= f) := by
  constructor
  intro l hl
  refine safe_bind ((hp.safe l hl).mono fun l' r hl' => ?_)
  cases r with
  | ok a => exact (hf a).safe l' hl'
  | error e => exact hl'

theorem Steady.ignore {p : Prog Op Res ε α} (hp : Steady M K p) : Steady M K p.ignore :=
  ⟨fun l hl => safe_ignore (hp.safe l hl)⟩

theorem steady_performOr {δ : Type*} {o : Op}
    (h : ∀ l, K l → M.allowed l o ∧ ∀ r, K (M.next l o r)) (answer : Res o → Except δ α)
    (onError : δ → ε) : Steady M K (performOr o answer onError) := by
  constructor
  intro l hl
  refine ⟨(h l hl).1, fun r => ?_⟩
  beta_reduce
  cases answer r with
  | ok a => exact (h l hl).2 r
  | error d => exact (h l hl).2 r

theorem steady_perform {Op : Type*} {Res : Op → Type v} {M : Monitor Op Res L} {o : Op}
    (h : ∀ l, K l → M.allowed l o ∧ ∀ r, K (M.next l o r)) :
    Steady M K (perform o : Prog Op Res ε (Res o)) :=
  ⟨fun l hl => ⟨(h l hl).1, fun r => (h l hl).2 r⟩⟩

/-- Where a monitor allows everything and stays in `K`, every program is steady. -/
theorem steady_of_forall (h : ∀ l o, K l → M.allowed l o ∧ ∀ r, K (M.next l o r))
    (p : Prog Op Res ε α) : Steady M K p := by
  induction p with
  | done r => exact steady_done r
  | call o next ih => exact ⟨fun l hl => ⟨(h l o hl).1, fun r => (ih r).safe _ ((h l o hl).2 r)⟩⟩

/-- A program over a smaller interface is steady where the monitor lets all of that interface pass. -/
theorem steady_embed {Op' : Type*} {Res' : Op' → Type*} {ε' : Type*} {f : Op' → Op}
    {answer : ∀ o, Res (f o) → Res' o} {onError : ε' → ε}
    (h : ∀ l o, K l → M.allowed l (f o) ∧ ∀ r, K (M.next l (f o) r)) (p : Prog Op' Res' ε' α) :
    Steady M K (p.embed f answer onError) := by
  induction p with
  | done r => cases r <;> exact steady_done _
  | call o next ih =>
    exact ⟨fun l hl => ⟨(h l o hl).1, fun r => (ih (answer o r)).safe _ ((h l o hl).2 r)⟩⟩

end Steady

/-- **Invariant rule for a program alone.** A relation `J` between summary and world that every allowed call meeting `C` keeps is kept by the whole run, and the postcondition holds at its end. -/
theorem run_joint {W : Type*} (handle : (o : Op) → W → Res o × W) (J : L → W → Prop)
    (C : W → Op → Prop)
    (hcall : ∀ l w o, J l w → M.allowed l o → C w o →
      J (M.next l o (handle o w).1) (handle o w).2)
    {p : Prog Op Res ε α} {w : W} (hsafe : Safe M Q l p) (hJ : J l w)
    (halong : p.Along handle C w) :
    ∃ l', J l' (p.run handle w).2 ∧ Q l' (p.run handle w).1 := by
  induction p generalizing l w with
  | done r => exact ⟨l, hJ, hsafe⟩
  | call o next ih => exact ih _ (hsafe.2 _) (hcall l w o hJ hsafe.1 halong.1) halong.2

/-- The invariant rule, for a run that is cut off after `k` calls: what is left is still safe. -/
theorem steps_joint {W : Type*} (handle : (o : Op) → W → Res o × W) (J : L → W → Prop)
    (hcall : ∀ l w o, J l w → M.allowed l o → J (M.next l o (handle o w).1) (handle o w).2)
    {p : Prog Op Res ε α} {w : W} (hsafe : Safe M Q l p) (hJ : J l w) (k : Nat) :
    ∃ l', J l' (steps handle k p w).2 ∧ Safe M Q l' (steps handle k p w).1 := by
  induction k generalizing l p w with
  | zero => exact ⟨l, hJ, hsafe⟩
  | succ k ih =>
    cases p with
    | done r => exact ⟨l, hJ, hsafe⟩
    | call o next => exact ih (hsafe.2 _) (hcall l w o hJ hsafe.1)

end Prog

/-! ### Programs that interleave -/

/-- One answered call: who made it, what it called and what it was told. -/
structure Answered (ι Op : Type*) (Res : Op → Type*) where
  thread : ι
  op : Op
  answer : Res op

/-- Threads over one shared world, with the calls answered so far, oldest first. -/
structure Pool (ι W Op : Type*) (Res : Op → Type*) (ε α : Type*) where
  world : W
  thread : ι → Prog Op Res ε α
  trace : List (Answered ι Op Res)

namespace Pool

variable {ι W Op L : Type*} {Res : Op → Type*} {ε α : Type*} [DecidableEq ι]
  (handle : (o : Op) → W → Res o × W)

/-- Every thread at its start. -/
def init (w : W) (thread : ι → Prog Op Res ε α) : Pool ι W Op Res ε α := ⟨w, thread, []⟩

/-- Thread `i` makes its next call; a thread that has returned does nothing. -/
def step (c : Pool ι W Op Res ε α) (i : ι) : Pool ι W Op Res ε α :=
  match c.thread i with
  | .done _ => c
  | .call o next =>
    { world := (handle o c.world).2
      thread := Function.update c.thread i (next (handle o c.world).1)
      trace := c.trace ++ [⟨i, o, (handle o c.world).1⟩] }

/-- The call thread `i` makes next. -/
def next? (c : Pool ι W Op Res ε α) (i : ι) : Option Op :=
  match c.thread i with
  | .done _ => none
  | .call o _ => some o

variable {handle} {c : Pool ι W Op Res ε α} {i : ι}

omit [DecidableEq ι] in
theorem next?_done {r : Except ε α} (h : c.thread i = .done r) : c.next? i = none := by
  rw [next?, h]

omit [DecidableEq ι] in
theorem next?_eq_some {o : Op} (h : c.next? i = some o) : ∃ next, c.thread i = .call o next := by
  cases hthread : c.thread i with
  | done r =>
    rw [next?_done hthread] at h
    cases h
  | call o' next =>
    rw [next?, hthread] at h
    cases h
    exact ⟨next, rfl⟩

theorem step_done {r : Except ε α} (h : c.thread i = .done r) : step handle c i = c := by
  rw [step, h]

theorem step_call {o : Op} {next : Res o → Prog Op Res ε α} (h : c.thread i = .call o next) :
    step handle c i =
      { world := (handle o c.world).2
        thread := Function.update c.thread i (next (handle o c.world).1)
        trace := c.trace ++ [⟨i, o, (handle o c.world).1⟩] } := by
  rw [step, h]

/-- A step either changes nothing, its thread having returned, or is one call of its thread. -/
theorem step_cases (handle : (o : Op) → W → Res o × W) (c : Pool ι W Op Res ε α) (i : ι) :
    (∃ r, c.thread i = .done r ∧ step handle c i = c) ∨
      ∃ o next, c.thread i = .call o next ∧ c.next? i = some o ∧
        step handle c i =
          { world := (handle o c.world).2
            thread := Function.update c.thread i (next (handle o c.world).1)
            trace := c.trace ++ [⟨i, o, (handle o c.world).1⟩] } := by
  cases h : c.thread i with
  | done r => exact Or.inl ⟨r, rfl, step_done h⟩
  | call o next => exact Or.inr ⟨o, next, rfl, by rw [next?, h], step_call h⟩

/-- The calls of thread `i` in the trace, summarised by the monitor. -/
def summary (M : Monitor Op Res L) (l : L) (i : ι) (trace : List (Answered ι Op Res)) : L :=
  trace.foldl (fun l a => if a.thread = i then M.next l a.op a.answer else l) l

@[simp] theorem summary_nil {M : Monitor Op Res L} {l : L} : summary M l i [] = l := rfl

theorem summary_append {M : Monitor Op Res L} {l : L} {trace : List (Answered ι Op Res)}
    {a : Answered ι Op Res} :
    summary M l i (trace ++ [a]) =
      if a.thread = i then M.next (summary M l i trace) a.op a.answer else summary M l i trace := by
  simp [summary]

/-- An answered call moves the summary of its own thread and of no other. -/
theorem summary_call {M : Monitor Op Res L} {l : ι → L} {trace : List (Answered ι Op Res)}
    {a : Answered ι Op Res} (j : ι) :
    summary M (l j) j (trace ++ [a]) =
      if a.thread = j then M.next (summary M (l a.thread) a.thread trace) a.op a.answer
      else summary M (l j) j trace := by
  rw [summary_append]
  by_cases hj : a.thread = j
  · subst hj
    rfl
  · rw [if_neg hj, if_neg hj]

theorem summary_update {M : Monitor Op Res L} {l : ι → L} {trace : List (Answered ι Op Res)}
    {a : Answered ι Op Res} :
    (fun j => summary M (l j) j (trace ++ [a])) =
      Function.update (fun j => summary M (l j) j trace) a.thread
        (M.next (summary M (l a.thread) a.thread trace) a.op a.answer) := by
  funext j
  rw [summary_call, Function.update_apply]
  simp only [eq_comm]

/-- What one update leaves alone. -/
theorem update_same {β : Type*} {l : ι → L} {x : L} (f : L → β) (h : f x = f (l i)) (j : ι) :
    f (Function.update l i x j) = f (l j) := by
  by_cases hj : j = i
  · rw [hj, Function.update_self, h]
  · rw [Function.update_of_ne hj]

/-- Every thread is safe from the summary of the calls it has made. -/
def AllSafe (M : Monitor Op Res L) (Q : L → Except ε α → Prop) (l : ι → L)
    (c : Pool ι W Op Res ε α) : Prop :=
  ∀ i, Prog.Safe M Q (summary M (l i) i c.trace) (c.thread i)

theorem allSafe_step {M : Monitor Op Res L} {Q : L → Except ε α → Prop} {l : ι → L}
    (h : AllSafe M Q l c) (i : ι) : AllSafe M Q l (step handle c i) := by
  rcases step_cases handle c i with ⟨r, -, hsame⟩ | ⟨o, next, hthread, -, hstep⟩
  · rwa [hsame]
  · rw [hstep]
    intro j
    by_cases hj : j = i
    · subst hj
      have hi := h j
      rw [hthread, Prog.safe_call] at hi
      simpa [summary_append] using hi.2 (handle o c.world).1
    · simpa [summary_append, Ne.symm hj, hj] using h j

/-- A safe pool stays safe, along every interleaving. -/
theorem allSafe_run {M : Monitor Op Res L} {Q : L → Except ε α → Prop} {l : ι → L}
    (h : AllSafe M Q l c) (schedule : List ι) :
    AllSafe M Q l (Lts.run (step handle) c schedule) := by
  induction schedule generalizing c with
  | nil => exact h
  | cons i rest ih => exact ih (allSafe_step h i)

/-- The call a safe thread makes next is one its monitor allows. -/
theorem AllSafe.allowed {M : Monitor Op Res L} {Q : L → Except ε α → Prop} {l : ι → L}
    (h : AllSafe M Q l c) {o : Op} {next : Res o → Prog Op Res ε α}
    (hthread : c.thread i = .call o next) : M.allowed (summary M (l i) i c.trace) o := by
  have hi := h i
  rw [hthread] at hi
  exact hi.1

theorem AllSafe.allowed_next {M : Monitor Op Res L} {Q : L → Except ε α → Prop} {l : ι → L} (h : AllSafe M Q l c) {o : Op}
    (hnext : c.next? i = some o) : M.allowed (summary M (l i) i c.trace) o := by
  obtain ⟨next, hthread⟩ := next?_eq_some hnext
  exact h.allowed hthread

end Pool
