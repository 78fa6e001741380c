import Mathlib.Data.List.Infix
import Mathlib.Data.List.Nodup

/-!
# Reading a list page by page

A list is read in pages of at most `limit` items, each page being what comes after a cursor that is made from the last item of the page before. The cursor need not tell the items apart. Reading restores the list exactly when the cursor made from the last item of each page lies between that item and the next.
-/

namespace Paging

variable {α β γ : Type*}

/-- Pages are read until one is empty, and these are the items. -/
inductive Reads (fetch : Option γ → List β) (cursorOf : β → γ) : Option γ → List β → Prop
  | done {cursor : Option γ} (h : fetch cursor = []) : Reads fetch cursorOf cursor []
  | page {cursor : Option γ} {last : β} {rest : List β} (h : (fetch cursor).getLast? = some last)
      (hrest : Reads fetch cursorOf (some (cursorOf last)) rest) :
      Reads fetch cursorOf cursor (fetch cursor ++ rest)

theorem Reads.unique {fetch : Option γ → List β} {cursorOf : β → γ} {cursor : Option γ} {xs ys : List β}
    (h : Reads fetch cursorOf cursor xs) (h' : Reads fetch cursorOf cursor ys) : xs = ys := by
  induction h generalizing ys with
  | done hnil =>
    cases h' with
    | done => rfl
    | page hlast =>
      rw [hnil] at hlast
      cases hlast
  | page hlast _ ih =>
    cases h' with
    | done hnil =>
      rw [hnil] at hlast
      cases hlast
    | page hlast' hrest' =>
      rw [hlast, Option.some.injEq] at hlast'
      subst hlast'
      rw [ih hrest']

section Pages

variable (after : γ → α → Bool) (show_ : α → β) (cursorOf : β → γ) (limit : Nat)

/-- The items after the cursor, or all of them. -/
def beyond (items : List α) : Option γ → List α
  | none => items
  | some cursor => items.filter (after cursor)

/-- What is shown of the first of them. -/
def fetch (items : List α) (cursor : Option γ) : List β := ((beyond after items cursor).take limit).map show_

/-- The cursor made from the item at the end of a page is not before it, and is before the next item. -/
def Resumes (last : α) (post : List α) : Prop :=
  after (cursorOf (show_ last)) last = false ∧ ∀ next ∈ post.head?, after (cursorOf (show_ last)) next = true

/-- So it is at the end of every page of `rest`, the last one included. -/
def ResumesAt (rest : List α) : Prop :=
  ∀ pre last post, rest = pre ++ last :: post → (pre.length + 1) % limit = 0 ∨ post = [] →
    Resumes after show_ cursorOf last post

variable {after show_ cursorOf limit} {items pre rest post : List α} {last : α}

/-- What is after a cursor is what remains when the cursor resumes. -/
theorem filter_eq_of_resumes (hup : ∀ cursor, items.Pairwise fun a b => after cursor a = true → after cursor b = true)
    (hitems : items = pre ++ last :: post) (h : Resumes after show_ cursorOf last post) :
    items.filter (after (cursorOf (show_ last))) = post := by
  have hup := hup (cursorOf (show_ last))
  rw [hitems, List.pairwise_append] at hup
  obtain ⟨-, hend, hcross⟩ := hup
  rw [List.pairwise_cons] at hend
  have hpre : pre.filter (after (cursorOf (show_ last))) = [] := by
    rw [List.filter_eq_nil_iff]
    intro a ha hafter
    have hlast := hcross a ha last List.mem_cons_self hafter
    rw [h.1] at hlast
    cases hlast
  have hpost : post.filter (after (cursorOf (show_ last))) = post := by
    rw [List.filter_eq_self]
    cases post with
    | nil => exact fun a ha => by cases ha
    | cons next rest =>
      have hnext := h.2 next rfl
      intro a ha
      rcases List.mem_cons.mp ha with rfl | ha
      · exact hnext
      · exact (List.pairwise_cons.mp hend.2).1 a ha hnext
  rw [hitems, List.filter_append, List.filter_cons_of_neg (by simp [h.1]), hpre, hpost, List.nil_append]

/-- A first page and what remains. -/
theorem take_split (hlimit : 0 < limit) (hrest : rest ≠ []) :
    ∃ page last post, rest = page ++ last :: post ∧ rest.take limit = page ++ [last] ∧
      page.length < limit ∧ (post ≠ [] → page.length + 1 = limit) := by
  have hne : rest.take limit ≠ [] := by
    rw [Ne, List.take_eq_nil_iff, not_or]
    exact ⟨hlimit.ne', hrest⟩
  refine ⟨_, _, rest.drop limit, ?_, (List.dropLast_append_getLast hne).symm, ?_, fun hpost => ?_⟩
  · rw [← List.singleton_append, ← List.append_assoc, List.dropLast_append_getLast hne, List.take_append_drop]
  · rw [List.length_dropLast, List.length_take]
    omega
  · have hlong : limit < rest.length := by
      by_contra hshort
      exact hpost (List.drop_eq_nil_of_le (not_lt.mp hshort))
    rw [List.length_dropLast, List.length_take]
    omega

/-- The pages of a list end where its first page ends and where those of the others do. -/
theorem resumesAt_page {page : List α} (hpage : page.length < limit) (hfull : post ≠ [] → page.length + 1 = limit) :
    ResumesAt after show_ cursorOf limit (page ++ last :: post) ↔
      Resumes after show_ cursorOf last post ∧ ResumesAt after show_ cursorOf limit post := by
  constructor
  · intro h
    refine ⟨h page last post rfl ?_, fun pre l q hpost hend => ?_⟩
    · by_cases hpost : post = []
      · exact Or.inr hpost
      · exact Or.inl (by rw [hfull hpost, Nat.mod_self])
    · have hlength := hfull (by rw [hpost]; simp)
      refine h (page ++ last :: pre) l q (by simp [hpost]) (hend.imp_left fun hmod => ?_)
      have hsum : (page ++ last :: pre).length + 1 = (pre.length + 1) + limit := by
        rw [List.length_append, List.length_cons]
        omega
      rw [hsum, Nat.add_mod_right, hmod]
  · intro ⟨hlast, hrest⟩ pre l q heq hend
    rcases List.append_eq_append_iff.mp heq with ⟨mid, hpre, hmid⟩ | ⟨mid, hpre, hmid⟩
    · cases mid with
      | nil =>
        obtain ⟨rfl, rfl⟩ := List.cons.inj hmid
        exact hlast
      | cons b mid =>
        obtain ⟨rfl, hpost⟩ := List.cons.inj hmid
        have hlength := hfull (by rw [hpost]; simp)
        refine hrest mid l q hpost (hend.imp_left fun hmod => ?_)
        have hsum : pre.length + 1 = (mid.length + 1) + limit := by
          rw [hpre, List.length_append, List.length_cons]
          omega
        rwa [hsum, Nat.add_mod_right] at hmod
    · cases mid with
      | nil =>
        obtain ⟨rfl, rfl⟩ := List.cons.inj hmid
        exact hlast
      | cons b mid =>
        -- inside the first page no page ends
        obtain ⟨rfl, hq⟩ := List.cons.inj hmid
        have hlength : page.length = pre.length + (mid.length + 1) := by
          rw [hpre, List.length_append, List.length_cons]
        have hmod : (pre.length + 1) % limit = pre.length + 1 := Nat.mod_eq_of_lt (by omega)
        rw [hmod, hq] at hend
        simp at hend

/-- When the page after the cursor starts where the one before it ended, the cursor resumes. -/
theorem resumes_of_reads (hlimit : 0 < limit) (hshow : (items.map show_).Nodup) (hitems : items = pre ++ last :: post)
    (h : Reads (fetch after show_ limit items) cursorOf (some (cursorOf (show_ last))) (post.map show_)) :
    Resumes after show_ cursorOf last post := by
  have hhead : (fetch after show_ limit items (some (cursorOf (show_ last)))).head? = (post.map show_).head? := by
    generalize hout : post.map show_ = out at h
    cases h with
    | done hnil => rw [hnil]
    | page hlast =>
      rw [List.head?_append_of_ne_nil]
      intro hnil
      rw [hnil] at hlast
      cases hlast
  rw [fetch, List.head?_map, List.head?_take, if_neg hlimit.ne', beyond, List.head?_map, List.head?_filter] at hhead
  cases post with
  | nil =>
    have hnone : items.find? (after (cursorOf (show_ last))) = none := by simpa using hhead
    rw [List.find?_eq_none] at hnone
    exact ⟨by simpa using hnone last (by simp [hitems]), fun next hnext => by cases hnext⟩
  | cons next rest =>
    -- what is shown tells the items apart, so the first item after the cursor is the next one
    obtain ⟨first, hfirst, hshown⟩ : ∃ first, items.find? (after (cursorOf (show_ last))) = some first ∧
        show_ first = show_ next := by simpa using hhead
    have hnext : next ∈ items := by simp [hitems]
    obtain rfl := List.inj_on_of_nodup_map hshow (List.mem_of_find?_eq_some hfirst) hnext hshown
    refine ⟨?_, fun next hnext => ?_⟩
    · by_contra hlast
      rw [Bool.not_eq_false] at hlast
      have hnodup := hshow.of_map
      rw [hitems, List.find?_append, List.find?_cons_of_pos hlast] at hfirst
      rw [hitems, List.nodup_append, List.nodup_cons] at hnodup
      cases hpre : pre.find? (after (cursorOf (show_ last))) with
      | none =>
        rw [hpre, Option.none_or, Option.some.injEq] at hfirst
        exact hnodup.2.1.1 (by simp [hfirst])
      | some found =>
        rw [hpre, Option.some_or, Option.some.injEq] at hfirst
        subst hfirst
        exact hnodup.2.2 _ (List.mem_of_find?_eq_some hpre) _ (by simp) rfl
    · rw [List.head?_cons, Option.mem_some] at hnext
      subst hnext
      exact List.find?_some hfirst

/-- **Reading page by page restores the list** exactly when the cursor resumes at the end of every page. -/
theorem reads_iff (hlimit : 0 < limit)
    (hup : ∀ cursor, items.Pairwise fun a b => after cursor a = true → after cursor b = true)
    (hshow : (items.map show_).Nodup) {cursor : Option γ} (hsuffix : rest <:+ items)
    (hcursor : beyond after items cursor = rest) :
    Reads (fetch after show_ limit items) cursorOf cursor (rest.map show_) ↔
      ResumesAt after show_ cursorOf limit rest := by
  induction hlen : rest.length using Nat.strong_induction_on generalizing rest cursor with
  | _ n ih =>
    by_cases hrest : rest = []
    · subst hrest
      refine iff_of_true (.done ?_) fun pre l q heq => ?_
      · rw [fetch, hcursor, List.take_nil, List.map_nil]
      · simp at heq
    · obtain ⟨page, last, post, hsplit, htake, hpage, hfull⟩ := take_split hlimit hrest
      obtain ⟨before, hitems⟩ := hsuffix
      have hitems' : items = (before ++ page) ++ last :: post := by rw [← hitems, hsplit, List.append_assoc]
      have hfetch : fetch after show_ limit items cursor = (page ++ [last]).map show_ := by
        rw [fetch, hcursor, htake]
      have hlast : (fetch after show_ limit items cursor).getLast? = some (show_ last) := by
        rw [hfetch]
        simp
      have hnext : Reads (fetch after show_ limit items) cursorOf cursor (rest.map show_) ↔
          Reads (fetch after show_ limit items) cursorOf (some (cursorOf (show_ last))) (post.map show_) := by
        have hmap : rest.map show_ = fetch after show_ limit items cursor ++ post.map show_ := by
          rw [hfetch, hsplit]
          simp
        rw [hmap]
        constructor
        · intro h
          generalize hout : fetch after show_ limit items cursor ++ post.map show_ = out at h
          cases h with
          | done hnil =>
            rw [hnil] at hlast
            cases hlast
          | page hlast' hrest' =>
            rw [hlast, Option.some.injEq] at hlast'
            subst hlast'
            rw [List.append_cancel_left hout]
            exact hrest'
        · exact fun h => .page hlast h
      rw [hnext, hsplit, resumesAt_page hpage hfull]
      by_cases hresumes : Resumes after show_ cursorOf last post
      · have hfilter := filter_eq_of_resumes hup hitems' hresumes
        rw [and_iff_right hresumes]
        refine ih post.length ?_ ⟨before ++ page ++ [last], by simp [hitems']⟩ hfilter rfl
        rw [← hlen, hsplit, List.length_append, List.length_cons]
        omega
      · refine iff_of_false (fun h => hresumes (resumes_of_reads hlimit hshow hitems' h)) fun h => hresumes h.1

end Pages

end Paging
