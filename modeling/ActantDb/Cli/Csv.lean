import ActantDb.Cli.Redaction
import ActantDb.Lib.Csv

/-!
# The CSV of an export

A field is quoted where it has a comma, a quote or a line feed in it, but not for a carriage return. A reader of RFC 4180 ends a record at a carriage return that is not quoted, so an export is read back as its rows and fields exactly when each field with a carriage return has one of the other three in it as well.
-/

namespace ActantDb.ExportImport

/-- The texts of a row, in the order of the columns. -/
def csvFields (e : EventRow) : List (List Char) :=
  csvColumns.map fun column => (textOr (rowToJson e) column "").toList

/-- The names in the first line. -/
def csvNames : List (List Char) :=
  ["id", "created_at", "event_type", "actor_id", "session_id", "sensitivity", "payload"].map String.toList

/-- The CSV branch of `run_export` for the rows that have been fetched. -/
def csvExport (rows : List EventRow) : List Char := csvHeader.toList ++ (rows.map rowToJson).flatMap csvLine

/-- The texts that `csv` quotes for another reason than a carriage return, or that have none. -/
def ReturnQuoted (s : List Char) : Prop := '\r' ∈ s → ',' ∈ s ∨ '"' ∈ s ∨ '\n' ∈ s

instance (s : List Char) : Decidable (ReturnQuoted s) := inferInstanceAs (Decidable (_ → _))

theorem csvLine_rowToJson (e : EventRow) : csvLine (rowToJson e) = Csv.line csv (csvFields e) := by
  rw [csvLine, Csv.line, csvFields, List.map_map]
  rfl

theorem csvHeader_eq : csvHeader.toList = Csv.line csv csvNames := by decide

theorem csvExport_eq (rows : List EventRow) : csvExport rows = Csv.file csv (csvNames :: rows.map csvFields) := by
  have hlines : (rows.map rowToJson).flatMap csvLine = (rows.map csvFields).flatMap (Csv.line csv) := by
    simp only [List.flatMap_map, csvLine_rowToJson]
  rw [csvExport, Csv.file, List.flatMap_cons, ← csvHeader_eq, hlines]

theorem legible_of_returnQuoted {s : List Char} (h : ReturnQuoted s) : Csv.Legible csv s := by
  by_cases hquoted : ',' ∈ s ∨ '"' ∈ s ∨ '\n' ∈ s
  · left
    rw [csv, if_pos hquoted, Csv.quoted]
  · right
    refine ⟨by rw [csv, if_neg hquoted], fun c hc hspecial => hquoted ?_⟩
    obtain rfl | rfl | rfl | rfl := hspecial
    · exact .inl hc
    · exact .inr (.inl hc)
    · exact .inr (.inr hc)
    · exact h hc

theorem cut_of_not_returnQuoted {s : List Char} (h : ¬ ReturnQuoted s) : Csv.Cut csv s := by
  rw [ReturnQuoted, Classical.not_imp] at h
  obtain ⟨hreturn, hplain⟩ := h
  refine ⟨by rw [csv, if_neg hplain], hreturn, ?_, ?_, ?_⟩
  · exact fun hc => hplain (.inl hc)
  · exact fun hc => hplain (.inr (.inl hc))
  · exact fun hc => hplain (.inr (.inr hc))

theorem csvNames_returnQuoted : ∀ s ∈ csvNames, ReturnQuoted s := by decide

theorem csvFields_ne_nil (e : EventRow) : csvFields e ≠ [] := List.cons_ne_nil _ _

/-- **CSV decodes** but for carriage returns. -/
theorem csv_decodes_iff (X : Crates) :
    (∀ db session, runExportAs X .csv db session = csvExport (exported db session)) ∧
    ∀ rows : List EventRow, Csv.read (csvExport rows) = some (csvNames :: rows.map csvFields) ↔
      ∀ e ∈ rows, ∀ s ∈ csvFields e, ReturnQuoted s := by
  refine ⟨fun db session => rfl, fun rows => ?_⟩
  rw [csvExport_eq]
  constructor
  · intro hread
    by_contra hnot
    push Not at hnot
    obtain ⟨e, he, s, hs, hreturn⟩ := hnot
    refine Csv.ne_read_file ?_ ?_ hread
    · intro r hr
      constructor
      · obtain rfl | hr := List.mem_cons.mp hr
        · exact List.cons_ne_nil _ _
        · obtain ⟨e', -, rfl⟩ := List.mem_map.mp hr
          exact csvFields_ne_nil e'
      · intro f _
        by_cases hf : ReturnQuoted f
        · exact .inl (legible_of_returnQuoted hf)
        · exact .inr (cut_of_not_returnQuoted hf)
    · exact ⟨csvFields e, List.mem_cons_of_mem _ (List.mem_map_of_mem he), s, hs, cut_of_not_returnQuoted hreturn⟩
  · intro h
    apply Csv.read_file
    intro r hr
    obtain rfl | hr := List.mem_cons.mp hr
    · exact ⟨List.cons_ne_nil _ _, fun f hf => legible_of_returnQuoted (csvNames_returnQuoted f hf)⟩
    · obtain ⟨e, he, rfl⟩ := List.mem_map.mp hr
      exact ⟨csvFields_ne_nil e, fun f hf => legible_of_returnQuoted (h e he f hf)⟩

/-- A payload of two words with a carriage return between them. -/
def returnEvent : EventRow := { sampleEvent "evt_1" none none with payloadInline := some "up\rdown" }

/-- Its row is read as two records. -/
theorem return_not_decoded :
    Csv.read (csvExport [returnEvent]) =
        some [csvNames, (csvFields returnEvent).dropLast ++ ["up".toList], ["down".toList]] ∧
      Csv.read (csvExport [returnEvent]) ≠ some (csvNames :: [returnEvent].map csvFields) := by
  decide

end ActantDb.ExportImport
