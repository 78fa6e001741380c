import ActantDb.Audit.Retention
import ActantDb.Core.Json
import ActantDb.Core.TimeOrder

/-!
# The export of a window

`export_window` selects the events of a workspace by comparing the text of `created_at` with the texts of the bounds. An event is selected as its instant lies in the window unless its text clashes with that of a bound: both are in one second and one fraction extends the other. Then that comparison comes out the wrong way round.
-/

namespace ActantDb.Audit

/-- The object of a line. -/
def exportLine (r : EventRow) : Value :=
  .object [("actor", .string r.actorId), ("created_at", .string r.createdAt), ("event_type", .string r.eventType),
    ("id", .string r.id), ("payload", (r.payloadInline.map Value.string).getD .null), ("sensitivity", .string r.sensitivity)]

/-- `created_at >= from AND created_at < to`, each clause only where the bound is given. -/
def inWindow (lower upper : Option String) (createdAt : String) : Bool :=
  lower.all (fun b => b ≤ createdAt) && upper.all fun b => createdAt < b

def windowRows (db : EventTable) (workspace : WorkspaceId) (lower upper : Option String) : List EventRow :=
  (db.rows.filter fun r => r.workspaceId = workspace && inWindow lower upper r.createdAt).mergeSort
    fun a b => a.createdAt < b.createdAt || (a.createdAt = b.createdAt && a.id ≤ b.id)

/-- The lines, as many as the function counts. -/
def exportWindow (db : EventTable) (workspace : WorkspaceId) (lower upper : Option String) : List Value :=
  (windowRows db workspace lower upper).map exportLine

def exportWorkspace (db : EventTable) (workspace : WorkspaceId) : List Value := exportWindow db workspace none none

theorem mem_windowRows {db : EventTable} {workspace : WorkspaceId} {lower upper : Option String} {r : EventRow} :
    r ∈ windowRows db workspace lower upper ↔ r ∈ db ∧ r.workspaceId = workspace ∧ inWindow lower upper r.createdAt = true := by
  rw [windowRows, List.mem_mergeSort, List.mem_filter, Bool.and_eq_true, decide_eq_true_eq, Table.mem_iff]

/-- A line names its event. -/
theorem exportLine_mem {db : EventTable} {workspace : WorkspaceId} {lower upper : Option String} {r : EventRow} (hr : r ∈ db) :
    exportLine r ∈ exportWindow db workspace lower upper ↔
      r.workspaceId = workspace ∧ inWindow lower upper r.createdAt = true := by
  rw [exportWindow, List.mem_map]
  constructor
  · rintro ⟨r', hr', hline⟩
    have hid : r'.id = r.id := by
      simp only [exportLine, Value.object.injEq, List.cons.injEq, Prod.mk.injEq, Value.string.injEq, true_and] at hline
      exact hline.2.2.2.1
    have hrow := mem_windowRows.mp hr'
    obtain rfl : r' = r := Table.eq_of_key_eq hrow.1 hr hid
    exact hrow.2
  · exact fun h => ⟨r, mem_windowRows.mpr ⟨hr, h⟩, rfl⟩

/-- Every event of the workspace is in its full export. -/
theorem exportLine_mem_exportWorkspace {db : EventTable} {r : EventRow} (hr : r ∈ db) :
    exportLine r ∈ exportWorkspace db r.workspaceId :=
  (exportLine_mem hr).mpr ⟨rfl, rfl⟩

/-! ### Times -/

section

variable (lower upper : Option Instant) (t : Instant)

/-- Not before the lower bound. -/
def AfterLower : Prop := ∀ b ∈ lower, b ≤ t

def BeforeUpper : Prop := ∀ b ∈ upper, t < b

/-- The texts of the event and of the bound clash. -/
def Clashes (bound : Option Instant) : Prop := ∃ b ∈ bound, Instant.Clash t b

/-- The event clashes with no bound, or the other bound excludes it; where it clashes with both, exactly one of them does. -/
def Placed : Prop :=
  (Clashes t lower → ¬ Clashes t upper → ¬ BeforeUpper upper t)
    ∧ (¬ Clashes t lower → Clashes t upper → ¬ AfterLower lower t)
    ∧ (Clashes t lower → Clashes t upper → (AfterLower lower t ↔ ¬ BeforeUpper upper t))

def RendersAll (bounds : Option Instant) : Prop := ∀ b ∈ bounds, b.Renders

end

variable {lower upper : Option Instant} {t : Instant}

theorem ne_of_clash {s t : Instant} (h : Instant.Clash s t) : s.nanos ≠ t.nanos := by
  intro heq
  obtain rfl := Instant.ext heq
  exact h.2.1 rfl

/-- A comparison with a bound is reversed by a clash. -/
theorem bound_text_le {b : Instant} (ht : t.Renders) (hb : b.Renders) :
    b.text ≤ t.text ↔ (b ≤ t ↔ ¬ Instant.Clash t b) := by
  rw [← not_lt, Instant.not_text_lt_iff ht hb, Instant.le_iff, Instant.le_iff]
  by_cases hclash : Instant.Clash t b
  · have := ne_of_clash hclash
    simp only [hclash, not_true, and_false, and_true, false_or, iff_false]
    omega
  · simp [hclash]

theorem text_lt_bound {b : Instant} (ht : t.Renders) (hb : b.Renders) :
    t.text < b.text ↔ (t < b ↔ ¬ Instant.Clash t b) := by
  rw [Instant.text_lt_iff ht hb, Instant.lt_iff, Instant.lt_iff]
  by_cases hclash : Instant.Clash t b
  · have := ne_of_clash hclash
    simp only [hclash, not_true, and_false, and_true, false_or, iff_false]
    omega
  · simp [hclash]

theorem lower_text_iff (ht : t.Renders) (hlower : RendersAll lower) :
    ((lower.map Instant.text).all fun b => b ≤ t.text) = true ↔ (AfterLower lower t ↔ ¬ Clashes t lower) := by
  cases lower with
  | none => simp [AfterLower, Clashes]
  | some b =>
    have hafter : AfterLower (some b) t ↔ b ≤ t := by simp [AfterLower]
    have hclashes : Clashes t (some b) ↔ Instant.Clash t b := by simp [Clashes]
    rw [hafter, hclashes, ← bound_text_le ht (hlower b rfl), Option.map_some, Option.all_some, decide_eq_true_eq]

theorem upper_text_iff (ht : t.Renders) (hupper : RendersAll upper) :
    ((upper.map Instant.text).all fun b => t.text < b) = true ↔ (BeforeUpper upper t ↔ ¬ Clashes t upper) := by
  cases upper with
  | none => simp [BeforeUpper, Clashes]
  | some b =>
    have hbefore : BeforeUpper (some b) t ↔ t < b := by simp [BeforeUpper]
    have hclashes : Clashes t (some b) ↔ Instant.Clash t b := by simp [Clashes]
    rw [hbefore, hclashes, ← text_lt_bound ht (hupper b rfl), Option.map_some, Option.all_some, decide_eq_true_eq]

/-- **An event is selected as its instant lies in the window** exactly when it is placed so. -/
theorem inWindow_iff_placed (ht : t.Renders) (hlower : RendersAll lower) (hupper : RendersAll upper) :
    (inWindow (lower.map Instant.text) (upper.map Instant.text) t.text = true ↔ AfterLower lower t ∧ BeforeUpper upper t)
      ↔ Placed lower upper t := by
  rw [inWindow, Bool.and_eq_true, lower_text_iff ht hlower, upper_text_iff ht hupper, Placed]
  by_cases hlow : Clashes t lower <;> by_cases hup : Clashes t upper <;> by_cases hafter : AfterLower lower t <;>
    by_cases hbefore : BeforeUpper upper t <;> simp [hlow, hup, hafter, hbefore]

/-! ### Adjacent windows -/

section

variable {a b c : Instant}

/-- Every text is in the window from `a` to `c` exactly when it is in one of its two parts. -/
def Partitions (a b c : String) : Prop :=
  ∀ text : String, (inWindow (some a) (some c) text = true ↔
    inWindow (some a) (some b) text = true ∨ inWindow (some b) (some c) text = true)

/-- Two windows partition the whole when the text of the bound between them is between the others' texts, on either side. -/
theorem partitions_iff {a b c : String} : Partitions a b c ↔ (a ≤ b ∨ c ≤ b) ∧ (b ≤ a ∨ b ≤ c) := by
  simp only [Partitions, inWindow, Option.all_some, Bool.and_eq_true, decide_eq_true_eq]
  constructor
  · intro h
    refine ⟨?_, ?_⟩
    · by_contra hnot
      obtain ⟨hba, hbc⟩ := not_or.mp hnot
      have hmid := (h b).mpr (.inr ⟨le_rfl, not_le.mp hbc⟩)
      exact hba hmid.1
    · by_contra hnot
      obtain ⟨hab, hcb⟩ := not_or.mp hnot
      have hlast := (h (max a c)).mpr (.inl ⟨le_max_left a c, max_lt (not_le.mp hab) (not_le.mp hcb)⟩)
      exact absurd hlast.2 (not_lt.mpr (le_max_right a c))
  · rintro ⟨hlow, hhigh⟩ text
    constructor
    · rintro ⟨ha, hc⟩
      rcases lt_or_ge text b with hb | hb
      · exact .inl ⟨ha, hb⟩
      · exact .inr ⟨hb, hc⟩
    · rintro (⟨ha, hb⟩ | ⟨hb, hc⟩)
      · rcases hhigh with hba | hbc
        · exact absurd (hb.trans_le hba) (not_lt.mpr ha)
        · exact ⟨ha, hb.trans_le hbc⟩
      · rcases hlow with hab | hcb
        · exact ⟨hab.trans hb, hc⟩
        · exact absurd (hc.trans_le hcb) (not_lt.mpr hb)

/-- Bounds in order partition unless exactly one of the two windows has bounds that clash. -/
theorem partitions_text_iff (ha : a.Renders) (hb : b.Renders) (hc : c.Renders) (hab : a ≤ b) (hbc : b ≤ c) :
    Partitions a.text b.text c.text ↔ a = b ∨ b = c ∨ (Instant.Clash a b ↔ Instant.Clash b c) := by
  rw [partitions_iff]
  by_cases hsame : a = b
  · subst hsame
    simp
  by_cases hsame' : b = c
  · subst hsame'
    simp
  have hne : a.nanos ≠ b.nanos := fun h => hsame (Instant.ext h)
  have hne' : b.nanos ≠ c.nanos := fun h => hsame' (Instant.ext h)
  have hlt : a.nanos < b.nanos := lt_of_le_of_ne (Instant.le_iff.mp hab) hne
  have hlt' : b.nanos < c.nanos := lt_of_le_of_ne (Instant.le_iff.mp hbc) hne'
  have hab' : a.text ≤ b.text ↔ ¬ Instant.Clash a b := by
    rw [bound_text_le hb ha, iff_true_left hab, not_iff_not]
    exact ⟨Instant.Clash.symm, Instant.Clash.symm⟩
  have hcb : c.text ≤ b.text ↔ Instant.Clash b c := by
    have hge : ¬ c ≤ b := fun h => absurd hlt' (not_lt.mpr (Instant.le_iff.mp h))
    rw [bound_text_le hb hc, iff_false_left hge, not_not]
  have hba : b.text ≤ a.text ↔ Instant.Clash a b := by
    have hge : ¬ b ≤ a := fun h => absurd hlt (not_lt.mpr (Instant.le_iff.mp h))
    rw [bound_text_le ha hb, iff_false_left hge, not_not]
  have hbc' : b.text ≤ c.text ↔ ¬ Instant.Clash b c := by
    rw [bound_text_le hc hb, iff_true_left hbc, not_iff_not]
    exact ⟨Instant.Clash.symm, Instant.Clash.symm⟩
  rw [hab', hcb, hba, hbc']
  by_cases hclash : Instant.Clash a b <;> by_cases hclash' : Instant.Clash b c <;> simp [hsame, hsame', hclash, hclash']

end

/-- **What a window exports.** An event is exported as its instant lies in the window if and only if it is placed so: it clashes with no bound, or the other bound excludes it. And the exports of adjacent windows partition that of the whole, for every store, if and only if one of the windows is empty or the bounds of both clash or of neither. -/
theorem exportWindow_exact (workspace : WorkspaceId) :
    (∀ (db : EventTable) (lower upper : Option Instant) (e : EventRow) (t : Instant),
      e ∈ db → e.workspaceId = workspace → t.Renders → e.createdAt = t.text → RendersAll lower → RendersAll upper →
      ((exportLine e ∈ exportWindow db workspace (lower.map Instant.text) (upper.map Instant.text)
          ↔ (∀ b ∈ lower, b ≤ t) ∧ ∀ b ∈ upper, t < b)
        ↔ Placed lower upper t))
    ∧ ∀ a b c : Instant, a.Renders → b.Renders → c.Renders → a ≤ b → b ≤ c →
      ((∀ (db : EventTable) (e : EventRow), e ∈ db →
          (exportLine e ∈ exportWindow db workspace (some a.text) (some c.text)
            ↔ exportLine e ∈ exportWindow db workspace (some a.text) (some b.text)
              ∨ exportLine e ∈ exportWindow db workspace (some b.text) (some c.text))
          ∧ ¬ (exportLine e ∈ exportWindow db workspace (some a.text) (some b.text)
              ∧ exportLine e ∈ exportWindow db workspace (some b.text) (some c.text)))
        ↔ a = b ∨ b = c ∨ (Instant.Clash a b ↔ Instant.Clash b c)) := by
  refine ⟨?_, ?_⟩
  · intro db lower upper e t he hworkspace ht htext hlower hupper
    rw [exportLine_mem he, htext, iff_true_intro hworkspace, true_and]
    exact inWindow_iff_placed ht hlower hupper
  · intro a b c ha hb hc hab hbc
    rw [← partitions_text_iff ha hb hc hab hbc]
    constructor
    · intro h text
      have hrow := h ⟨[⟨"e", workspace, "", "", none, "", text⟩], List.nodup_singleton _⟩
        ⟨"e", workspace, "", "", none, "", text⟩ (List.mem_singleton.mpr rfl)
      have hmem : (⟨"e", workspace, "", "", none, "", text⟩ : EventRow)
          ∈ (⟨[⟨"e", workspace, "", "", none, "", text⟩], List.nodup_singleton _⟩ : EventTable) := List.mem_singleton.mpr rfl
      simpa only [exportLine_mem hmem, true_and] using hrow.1
    · intro h db e he
      simp only [exportLine_mem he, ← and_or_left, h e.createdAt, true_and]
      rintro ⟨⟨-, hfirst⟩, -, hsecond⟩
      simp only [inWindow, Option.all_some, Bool.and_eq_true, decide_eq_true_eq] at hfirst hsecond
      exact absurd hfirst.2 (not_lt.mpr hsecond.1)

/-! ### Half a second after the bound -/

def wholeSecond : Instant := ⟨1709251199 * 10 ^ 9, by decide, by decide⟩

def halfSecondLater : Instant := ⟨1709251199500000000, by decide, by decide⟩

example : wholeSecond.text = "2024-02-29T23:59:59Z" ∧ halfSecondLater.text = "2024-02-29T23:59:59.5Z" := by decide

def lateEvent : EventRow := ⟨"e", "w", "a", "note", none, "low", halfSecondLater.text⟩

def lateStore : EventTable := ⟨[lateEvent], List.nodup_singleton _⟩

theorem lateEvent_mem : lateEvent ∈ lateStore := List.mem_singleton.mpr rfl

/-- With the second as its lower bound, the export leaves out the event of half a second later. -/
theorem exportWindow_misses :
    wholeSecond ≤ halfSecondLater
      ∧ ¬ exportLine lateEvent ∈ exportWindow lateStore "w" (some wholeSecond.text) none := by
  refine ⟨by decide, ?_⟩
  rw [exportLine_mem lateEvent_mem]
  decide

/-- With the next second as its upper bound, the export has it. -/
theorem exportWindow_exact_late :
    (exportLine lateEvent ∈ exportWindow lateStore "w" none (some (Instant.text ⟨1709251200 * 10 ^ 9, by decide, by decide⟩))
      ↔ (∀ b ∈ (none : Option Instant), b ≤ halfSecondLater)
        ∧ ∀ b ∈ some (⟨1709251200 * 10 ^ 9, by decide, by decide⟩ : Instant), halfSecondLater < b) := by
  refine ((exportWindow_exact "w").1 lateStore none (some ⟨1709251200 * 10 ^ 9, by decide, by decide⟩) lateEvent halfSecondLater
    lateEvent_mem rfl (by decide) rfl (by simp [RendersAll]) ?_).mpr ?_
  · simp only [RendersAll, Option.mem_some_iff, forall_eq']
    decide
  · refine ⟨fun h => ?_, fun _ h => ?_, fun h => ?_⟩
    · simp [Clashes] at h
    · obtain ⟨b, hb, hclash⟩ := h
      rw [Option.mem_some_iff] at hb
      subst hb
      exact absurd hclash (by decide)
    · simp [Clashes] at h

end ActantDb.Audit
