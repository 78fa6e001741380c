import Mathlib.Algebra.Order.BigOperators.Group.List
import Mathlib.Algebra.Order.Ring.Nat
import Mathlib.Data.List.Basic

/-!
# Words between separators

The maximal runs of a list without a separator, and their join. Joining words and splitting the text again gives the words back, whatever counts as a separator, as long as the one that joins does.
-/

namespace Words

variable {α : Type*} {p : α → Bool} {sep : α} {s t : List α} {ts : List (List α)}

def words (p : α → Bool) (s : List α) : List (List α) := (s.splitOnP p).filter fun t => !t.isEmpty

/-- Not empty, and without a separator. -/
structure IsWord (p : α → Bool) (t : List α) : Prop where
  ne_nil : t ≠ []
  clear : ∀ c ∈ t, p c = false

theorem clear_of_mem_splitOnP (h : t ∈ s.splitOnP p) : ∀ c ∈ t, p c = false := by
  induction s generalizing t with
  | nil =>
    rw [List.splitOnP_nil, List.mem_singleton] at h
    simp [h]
  | cons d rest ih =>
    rw [List.splitOnP_cons_eq_if_modifyHead] at h
    by_cases hd : p d = true
    · rw [if_pos hd, List.mem_cons] at h
      rcases h with rfl | h
      · simp
      · exact ih h
    · rw [if_neg hd] at h
      obtain ⟨first, others, hsplit⟩ := List.exists_cons_of_ne_nil (List.splitOnP_ne_nil p rest)
      rw [hsplit, List.modifyHead_cons, List.mem_cons] at h
      rcases h with rfl | h
      · intro c hc
        rcases List.mem_cons.mp hc with rfl | hc
        · simpa using hd
        · exact ih (hsplit ▸ List.mem_cons_self) c hc
      · exact ih (hsplit ▸ List.mem_cons_of_mem _ h)

theorem isWord_of_mem (h : t ∈ words p s) : IsWord p t := by
  obtain ⟨hmem, hne⟩ := List.mem_filter.mp h
  exact ⟨by simpa using hne, clear_of_mem_splitOnP hmem⟩

theorem words_of_isWord (h : IsWord p t) : words p t = [t] := by
  rw [words, List.splitOnP_eq_singleton h.clear, List.filter_cons_of_pos (by simpa using h.ne_nil),
    List.filter_nil]

theorem words_append_sep (h : IsWord p t) (hsep : p sep = true) (rest : List α) :
    words p (t ++ sep :: rest) = t :: words p rest := by
  rw [words, List.splitOnP_append_cons_of_forall_mem h.clear sep hsep, List.filter_cons_of_pos]
  · rfl
  · simpa using h.ne_nil

/-- Splitting undoes joining. -/
theorem words_join (hts : ∀ t ∈ ts, IsWord p t) (hsep : p sep = true) :
    words p ([sep].intercalate ts) = ts := by
  induction ts with
  | nil => simp [words]
  | cons t rest ih =>
    cases rest with
    | nil =>
      rw [List.intercalate_singleton]
      exact words_of_isWord (hts t (by simp))
    | cons u rest =>
      rw [List.intercalate_cons_of_ne_nil (by simp), List.append_assoc, List.singleton_append,
        words_append_sep (hts t (by simp)) hsep, ih fun v hv => hts v (List.mem_cons_of_mem _ hv)]

/-- A join of words does not start with a separator. -/
theorem exists_join_eq_cons (sep : α) (hts : ∀ t ∈ ts, IsWord p t) (hne : ts ≠ []) :
    ∃ c rest, [sep].intercalate ts = c :: rest ∧ p c = false := by
  obtain ⟨t, rest, rfl⟩ := List.exists_cons_of_ne_nil hne
  obtain ⟨c, t', rfl⟩ := List.exists_cons_of_ne_nil (hts t (by simp)).ne_nil
  have hc : p c = false := (hts (c :: t') (by simp)).clear c (by simp)
  cases rest with
  | nil => exact ⟨c, t', by rw [List.intercalate_singleton], hc⟩
  | cons u rest =>
    refine ⟨c, t' ++ [sep] ++ [sep].intercalate (u :: rest), ?_, hc⟩
    rw [List.intercalate_cons_of_ne_nil (by simp)]
    rfl

/-- Nor does it end with one. -/
theorem exists_join_eq_concat (sep : α) (hts : ∀ t ∈ ts, IsWord p t) (hne : ts ≠ []) :
    ∃ front c, [sep].intercalate ts = front ++ [c] ∧ p c = false := by
  induction ts with
  | nil => exact absurd rfl hne
  | cons t rest ih =>
    cases rest with
    | nil =>
      have ht := hts t (by simp)
      refine ⟨t.dropLast, t.getLast ht.ne_nil, ?_, ht.clear _ (List.getLast_mem _)⟩
      rw [List.intercalate_singleton, List.dropLast_append_getLast]
    | cons u rest =>
      obtain ⟨front, c, hjoin, hc⟩ := ih (fun v hv => hts v (List.mem_cons_of_mem _ hv)) (by simp)
      refine ⟨t ++ [sep] ++ front, c, ?_, hc⟩
      rw [List.intercalate_cons_of_ne_nil (by simp), hjoin, ← List.append_assoc]

/-- What a join contains is in a word or joins two. -/
theorem mem_join {c : α} (h : c ∈ [sep].intercalate ts) : c = sep ∨ ∃ t ∈ ts, c ∈ t := by
  induction ts with
  | nil => simp at h
  | cons t rest ih =>
    cases rest with
    | nil =>
      rw [List.intercalate_singleton] at h
      exact Or.inr ⟨t, by simp, h⟩
    | cons u rest =>
      rw [List.intercalate_cons_of_ne_nil (by simp), List.mem_append, List.mem_append,
        List.mem_singleton] at h
      rcases h with (h | rfl) | h
      · exact Or.inr ⟨t, by simp, h⟩
      · exact Or.inl rfl
      · exact (ih h).imp_right fun ⟨v, hv, hc⟩ => ⟨v, List.mem_cons_of_mem _ hv, hc⟩

/-- The parts of a text that is split at a character are those that it joins. -/
theorem splitOn_eq_iff [BEq α] [LawfulBEq α] {parts : List (List α)} (hne : parts ≠ []) :
    s.splitOn sep = parts ↔ s = [sep].intercalate parts ∧ ∀ t ∈ parts, sep ∉ t := by
  constructor
  · rintro rfl
    refine ⟨(List.intercalate_splitOn sep).symm, fun t ht hsep => ?_⟩
    have hclear := clear_of_mem_splitOnP ht sep hsep
    rw [beq_self_eq_true] at hclear
    cases hclear
  · rintro ⟨rfl, hclear⟩
    exact List.splitOn_intercalate sep hclear hne

theorem count_join [BEq α] [LawfulBEq α] (sep : α) (ts : List (List α)) :
    List.count sep ([sep].intercalate ts) = (ts.map (List.count sep)).sum + (ts.length - 1) := by
  induction ts with
  | nil => simp
  | cons t ts ih =>
    cases ts with
    | nil => simp
    | cons u ts =>
      rw [List.intercalate_cons_of_ne_nil (List.cons_ne_nil u ts), List.count_append, List.count_append, ih, List.count_singleton_self]
      simp only [List.map_cons, List.sum_cons, List.length_cons]
      omega

/-- Parts without the separator are told from as many parts that may have it. -/
theorem parts_eq [BEq α] [LawfulBEq α] {parts parts' : List (List α)} (hclear : ∀ t ∈ parts, sep ∉ t)
    (hlength : parts.length = parts'.length) (h : [sep].intercalate parts = [sep].intercalate parts') : parts = parts' := by
  rcases eq_or_ne parts [] with rfl | hne
  · exact (List.eq_nil_of_length_eq_zero hlength.symm).symm
  have hne' : parts' ≠ [] := fun heq => hne (List.eq_nil_of_length_eq_zero (by rw [hlength, heq, List.length_nil]))
  have hcount := congrArg (List.count sep) h
  rw [count_join, count_join, hlength] at hcount
  have hzero : (parts.map (List.count sep)).sum = 0 :=
    List.sum_eq_zero fun n hn => by
      obtain ⟨t, ht, rfl⟩ := List.mem_map.mp hn
      exact List.count_eq_zero.mpr (hclear t ht)
  have hclear' : ∀ t ∈ parts', sep ∉ t := fun t ht => List.count_eq_zero.mp (by
    have hle : List.count sep t ≤ (parts'.map (List.count sep)).sum := List.single_le_sum (fun _ _ => Nat.zero_le _) _ (List.mem_map_of_mem ht)
    omega)
  rw [← List.splitOn_intercalate sep hclear hne, h, List.splitOn_intercalate sep hclear' hne']

/-- Dropping separators at both ends changes nothing where there are none. -/
theorem trim_eq_self {front rest : List α} {c d : α} (hhead : s = c :: rest) (hlast : s = front ++ [d])
    (hc : p c = false) (hd : p d = false) :
    ((s.dropWhile p).reverse.dropWhile p).reverse = s := by
  have hleft : s.dropWhile p = s := by
    rw [hhead, List.dropWhile_cons_of_neg (by simp [hc])]
  rw [hleft, hlast, List.reverse_append, List.reverse_singleton, List.singleton_append,
    List.dropWhile_cons_of_neg (by simp [hd]), List.reverse_cons, List.reverse_reverse]

end Words
