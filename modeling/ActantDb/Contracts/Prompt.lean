import ActantDb.Core.Hash
import ActantDb.Lib.Doubled

/-!
# Prompt interpolation

A template is read one character at a time. Outside a placeholder a character is copied, except that `{{` opens a placeholder, whose key runs to the first `}}`, or to the end of the template. The template is thereby cut in one way into literal text and placeholders, and the output is these one after the other, each placeholder by its value.
-/

namespace ActantDb.Contracts

open Doubled

/-- `vars.get(key).and_then(|v| v.as_str()).unwrap_or("")`. -/
def valueOf (vars : Value) (key : List Char) : List Char :=
  (((vars.get (String.ofList key)).bind Value.asStr).getD "").toList

/-! ### The loops -/

/-- Where the program is: at the head of the outer loop, or at that of the loop that reads a key. -/
inductive Scan where
  | text (out chars : List Char)
  | inside (out key chars : List Char)

/-- The next iteration of the loop the program is in; the outer one ends with the characters. -/
def Scan.next (vars : Value) : Scan → Scan ⊕ List Char
  | .text out [] => .inr out
  | .text out (c :: chars) =>
    if c = '{' ∧ chars.head? = some '{' then .inl (.inside out [] chars.tail) else .inl (.text (out ++ [c]) chars)
  | .inside out key [] => .inl (.text (out ++ valueOf vars (trim key)) [])
  | .inside out key (c :: chars) =>
    if c = '}' ∧ chars.head? = some '}' then .inl (.text (out ++ valueOf vars (trim key)) chars.tail)
    else .inl (.inside out (key ++ [c]) chars)

def Scan.run (vars : Value) : Nat → Scan → Option (List Char)
  | 0, _ => none
  | fuel + 1, s =>
    match s.next vars with
    | .inl s => s.run vars fuel
    | .inr out => some out

/-- The output, if the loop ends within so many iterations. -/
def interpolatePrompt (fuel : Nat) (body : List Char) (vars : Value) : Option (List Char) :=
  (Scan.text [] body).run vars fuel

/-! ### Templates -/

inductive Segment where
  | literal (text : List Char)
  | placeholder (inside : List Char)

/-- How a template is cut: at its first `{{`, at the first `}}` after that, and so on. -/
inductive Segmented : List Char → List Segment → Prop
  | literal {text : List Char} : Free '{' text → Segmented text [.literal text]
  | unterminated {text inside : List Char} : Free '{' (text ++ ['{']) → Free '}' inside →
      Segmented (text ++ '{' :: '{' :: inside) [.literal text, .placeholder inside]
  | placeholder {text inside rest : List Char} {segments : List Segment} :
      Free '{' (text ++ ['{']) → Free '}' (inside ++ ['}']) → Segmented rest segments →
      Segmented (text ++ '{' :: '{' :: (inside ++ '}' :: '}' :: rest)) (.literal text :: .placeholder inside :: segments)

def Segment.render (vars : Value) : Segment → List Char
  | .literal text => text
  | .placeholder inside => valueOf vars (trim inside)

theorem exists_segmented (body : List Char) : ∃ segments, Segmented body segments := by
  induction hn : body.length using Nat.strong_induction_on generalizing body with
  | h n ih =>
    rcases free_or_first '{' body with hfree | ⟨text, after, rfl, hopen⟩
    · exact ⟨_, .literal hfree⟩
    rcases free_or_first '}' after with hfree | ⟨inside, rest, rfl, hclose⟩
    · exact ⟨_, .unterminated hopen hfree⟩
    have hlt : rest.length < n := by
      simp only [List.length_append, List.length_cons] at hn
      omega
    obtain ⟨segments, hrest⟩ := ih _ hlt rest rfl
    exact ⟨_, .placeholder hopen hclose hrest⟩

theorem Segmented.unique {body body' : List Char} {segments segments' : List Segment} (h : Segmented body segments)
    (h' : Segmented body' segments') (hbody : body = body') : segments = segments' := by
  induction h generalizing body' segments' with
  | literal hfree =>
    cases h' with
    | literal => rw [hbody]
    | unterminated => exact absurd (hbody ▸ hfree) (not_free _ _)
    | placeholder => exact absurd (hbody ▸ hfree) (not_free _ _)
  | unterminated hopen hfree =>
    cases h' with
    | literal hfree' => exact absurd (hbody ▸ hfree') (not_free _ _)
    | unterminated hopen' _ =>
      obtain ⟨rfl, rfl⟩ := first_unique hopen hopen' hbody
      rfl
    | placeholder hopen' _ _ =>
      obtain ⟨-, rfl⟩ := first_unique hopen hopen' hbody
      exact absurd hfree (not_free _ _)
  | placeholder hopen hclose _ ih =>
    cases h' with
    | literal hfree' => exact absurd (hbody ▸ hfree') (not_free _ _)
    | unterminated hopen' hfree' =>
      obtain ⟨-, rfl⟩ := first_unique hopen hopen' hbody
      exact absurd hfree' (not_free _ _)
    | placeholder hopen' hclose' hrest' =>
      obtain ⟨rfl, hafter⟩ := first_unique hopen hopen' hbody
      obtain ⟨rfl, hrest⟩ := first_unique hclose hclose' hafter
      rw [ih hrest' hrest]

/-! ### What the loops do -/

section Run

variable (vars : Value) {out key text inside rest : List Char} {fuel : Nat}

theorem run_text_end : (Scan.text out []).run vars (fuel + 1) = some out := rfl

/-- Text before an opening is copied. -/
theorem run_text (hopen : Free '{' (text ++ ['{'])) :
    (Scan.text out (text ++ '{' :: '{' :: rest)).run vars (text.length + 1 + fuel) =
      (Scan.inside (out ++ text) [] rest).run vars fuel := by
  induction text generalizing out with
  | nil =>
    rw [List.append_nil, List.length_nil, Nat.zero_add, Nat.add_comm, Scan.run]
    rfl
  | cons c text ih =>
    rw [List.cons_append, free_cons] at hopen
    have hhead : (text ++ '{' :: '{' :: rest).head? = (text ++ ['{']).head? := by cases text <;> rfl
    have hfuel : (c :: text).length + 1 + fuel = text.length + 1 + fuel + 1 := by
      rw [List.length_cons]
      omega
    rw [hfuel, List.cons_append, Scan.run, Scan.next, hhead, if_neg hopen.1]
    show (Scan.text (out ++ [c]) _).run vars _ = _
    rw [ih hopen.2, List.append_assoc, List.singleton_append]

/-- Text without an opening is copied to the end. -/
theorem run_literal (hfree : Free '{' text) :
    (Scan.text out text).run vars (text.length + 1 + fuel) = some (out ++ text) := by
  induction text generalizing out with
  | nil => rw [List.append_nil, List.length_nil, Nat.zero_add, Nat.add_comm, run_text_end]
  | cons c text ih =>
    have hfuel : (c :: text).length + 1 + fuel = text.length + 1 + fuel + 1 := by
      rw [List.length_cons]
      omega
    rw [hfuel, Scan.run, Scan.next, if_neg (free_cons.mp hfree).1]
    show (Scan.text (out ++ [c]) _).run vars _ = _
    rw [ih hfree.tail, List.append_assoc, List.singleton_append]

/-- A key is read up to the first closing. -/
theorem run_key (hclose : Free '}' (inside ++ ['}'])) :
    (Scan.inside out key (inside ++ '}' :: '}' :: rest)).run vars (inside.length + 1 + fuel) =
      (Scan.text (out ++ valueOf vars (trim (key ++ inside))) rest).run vars fuel := by
  induction inside generalizing key with
  | nil =>
    rw [List.append_nil, List.length_nil, Nat.zero_add, Nat.add_comm, Scan.run]
    rfl
  | cons c inside ih =>
    rw [List.cons_append, free_cons] at hclose
    have hhead : (inside ++ '}' :: '}' :: rest).head? = (inside ++ ['}']).head? := by cases inside <;> rfl
    have hfuel : (c :: inside).length + 1 + fuel = inside.length + 1 + fuel + 1 := by
      rw [List.length_cons]
      omega
    rw [hfuel, List.cons_append, Scan.run, Scan.next, hhead, if_neg hclose.1]
    show (Scan.inside out (key ++ [c]) _).run vars _ = _
    rw [ih hclose.2, List.append_assoc, List.singleton_append]

/-- Without one, to the end. -/
theorem run_unterminated (hfree : Free '}' inside) :
    (Scan.inside out key inside).run vars (inside.length + 2 + fuel) = some (out ++ valueOf vars (trim (key ++ inside))) := by
  induction inside generalizing key with
  | nil =>
    rw [List.append_nil, List.length_nil, Nat.zero_add, Nat.add_comm, Scan.run]
    rfl
  | cons c inside ih =>
    have hfuel : (c :: inside).length + 2 + fuel = inside.length + 2 + fuel + 1 := by
      rw [List.length_cons]
      omega
    rw [hfuel, Scan.run, Scan.next, if_neg (free_cons.mp hfree).1]
    show (Scan.inside out (key ++ [c]) _).run vars _ = _
    rw [ih hfree.tail, List.append_assoc, List.singleton_append]

/-- The template in its segments, after the output so far. -/
theorem run_segmented {body : List Char} {segments : List Segment} (h : Segmented body segments) (out : List Char)
    (hfuel : body.length + 2 ≤ fuel) :
    (Scan.text out body).run vars fuel = some (out ++ segments.flatMap (Segment.render vars)) := by
  induction h generalizing out fuel with
  | @literal text hfree =>
    obtain ⟨more, rfl⟩ := Nat.exists_eq_add_of_le (show text.length + 1 ≤ fuel by omega)
    rw [run_literal vars hfree, List.flatMap_singleton]
    rfl
  | @unterminated text inside hopen hfree =>
    rw [List.length_append, List.length_cons, List.length_cons] at hfuel
    obtain ⟨more, rfl⟩ := Nat.exists_eq_add_of_le (show text.length + 1 + (inside.length + 2) ≤ fuel by omega)
    rw [Nat.add_assoc _ _ more, run_text vars hopen, run_unterminated vars hfree, List.flatMap_cons, List.flatMap_singleton,
      List.append_assoc]
    rfl
  | @placeholder text inside rest segments hopen hclose _ ih =>
    simp only [List.length_append, List.length_cons] at hfuel
    obtain ⟨more, rfl⟩ :=
      Nat.exists_eq_add_of_le (show text.length + 1 + (inside.length + 1 + (rest.length + 2)) ≤ fuel by omega)
    rw [Nat.add_assoc _ _ more, Nat.add_assoc _ _ more, run_text vars hopen, run_key vars hclose,
      ih _ (Nat.le_add_right _ _), List.flatMap_cons, List.flatMap_cons, List.append_assoc, List.append_assoc]
    rfl

end Run

/-- Every template has one segmentation, and whatever the variables are, the loop ends with the literal text and the values of the placeholders, in their order. A value is what is put in for a placeholder of the template, whatever is in it. -/
theorem interpolatePrompt_segments (body : List Char) :
    ∃ segments, Segmented body segments ∧ (∀ segments', Segmented body segments' → segments' = segments) ∧
      ∀ (vars : Value) (fuel : Nat), body.length + 2 ≤ fuel →
        interpolatePrompt fuel body vars = some (segments.flatMap (Segment.render vars)) := by
  obtain ⟨segments, h⟩ := exists_segmented body
  refine ⟨segments, h, fun segments' h' => h'.unique h rfl, fun vars fuel hfuel => ?_⟩
  rw [interpolatePrompt, run_segmented vars h [] hfuel, List.nil_append]

end ActantDb.Contracts
