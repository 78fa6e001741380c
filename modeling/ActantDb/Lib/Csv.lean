import Mathlib.Data.List.Basic

/-!
# Comma-separated values

A reader of RFC 4180: fields are parted by commas and records by CR, LF or CRLF, unless they stand inside quotes; a quote inside quotes is doubled. A writer has one function for a field, which is read back where it is either quoted or free of special characters (`Legible`); `read_file` is the round trip of a file of legible fields. `ne_read_file` is the other half: a field that is written as it is, with a carriage return in it, ends its record early, and no such file is read back.
-/

namespace Csv

/-! ### The reader -/

inductive Mode where
  /-- Before a field. -/
  | start
  /-- In a field without quotes. -/
  | plain
  /-- Between quotes. -/
  | quoted
  /-- After a quote between quotes, which ends the field or is the first of two. -/
  | closed
  /-- After the carriage return that has ended a record. -/
  | afterCr
deriving DecidableEq

/-- What has been read. -/
structure Reader where
  mode : Mode
  field : List Char
  record : List (List Char)
  records : List (List (List Char))
deriving DecidableEq

namespace Reader

/-- Before the first record, or between two. -/
def between (records : List (List (List Char))) : Reader := ⟨.start, [], [], records⟩

/-- The field has ended with a comma. -/
def nextField (s : Reader) : Reader := ⟨.start, [], s.record ++ [s.field], s.records⟩

/-- The record has ended. -/
def nextRecord (s : Reader) (mode : Mode) : Reader := ⟨mode, [], [], s.records ++ [s.record ++ [s.field]]⟩

def push (s : Reader) (c : Char) (mode : Mode) : Reader := { s with mode, field := s.field ++ [c] }

/-- A character after a field that may have ended, where others are taken by `other`. -/
def separate (s : Reader) (c : Char) (other : Option Reader) : Option Reader :=
  if c = ',' then some s.nextField
  else if c = '\n' then some (s.nextRecord .start)
  else if c = '\r' then some (s.nextRecord .afterCr)
  else other

/-- A character at the start of a field. -/
def enter (s : Reader) (c : Char) : Option Reader :=
  if c = '"' then some { s with mode := .quoted } else s.separate c (some (s.push c .plain))

def step (s : Reader) (c : Char) : Option Reader :=
  match s.mode with
  | .start => s.enter c
  | .plain => if c = '"' then none else s.separate c (some (s.push c .plain))
  | .quoted => if c = '"' then some { s with mode := .closed } else some (s.push c .quoted)
  | .closed => if c = '"' then some (s.push c .quoted) else s.separate c none
  | .afterCr => if c = '\n' then some { s with mode := .start } else s.enter c

def run (s : Reader) (text : List Char) : Option Reader := text.foldlM step s

/-- The records at the end of the text, of which the last need not be ended. -/
def finish (s : Reader) : Option (List (List (List Char))) :=
  match s.mode with
  | .quoted => none
  | .afterCr => some s.records
  | .start => some (if s.record = [] then s.records else (s.nextRecord .start).records)
  | .plain | .closed => some (s.nextRecord .start).records

end Reader

open Reader

/-- The records of a text; none if a quote stands where none may. -/
def read (text : List Char) : Option (List (List (List Char))) := (run (between []) text).bind finish

example : read "a,\"b\"\"\n\"\r\n,c".toList = some [["a".toList, "b\"\n".toList], ["".toList, "c".toList]] := by decide

namespace Reader

@[simp] theorem run_nil (s : Reader) : run s [] = some s := rfl

@[simp] theorem run_cons (s : Reader) (c : Char) (text : List Char) :
    run s (c :: text) = (s.step c).bind fun s' => run s' text := rfl

theorem run_append (s : Reader) (text text' : List Char) :
    run s (text ++ text') = (run s text).bind fun s' => run s' text' :=
  List.foldlM_append

end Reader

/-! ### Records are kept -/

section Kept

variable {s s' : Reader} {c : Char}

theorem records_of_some {t : Reader} (h : some t = some s') (ht : s.records <+: t.records) :
    s.records <+: s'.records := by
  rwa [← Option.some.inj h]

theorem records_separate {other : Option Reader} (h : s.separate c other = some s')
    (hother : other = some s' → s.records <+: s'.records) : s.records <+: s'.records := by
  unfold separate at h
  split_ifs at h with hcomma hline hreturn
  · exact records_of_some h (List.prefix_refl _)
  · exact records_of_some h (List.prefix_append _ _)
  · exact records_of_some h (List.prefix_append _ _)
  · exact hother h

theorem records_enter (h : s.enter c = some s') : s.records <+: s'.records := by
  unfold enter at h
  split_ifs at h with hquote
  · exact records_of_some h (List.prefix_refl _)
  · exact records_separate h fun hother => records_of_some hother (List.prefix_refl _)

/-- A step only adds to the records. -/
theorem records_step (h : s.step c = some s') : s.records <+: s'.records := by
  unfold step at h
  split at h
  · exact records_enter h
  · split_ifs at h with hquote
    exact records_separate h fun hother => records_of_some hother (List.prefix_refl _)
  · split_ifs at h with hquote
    · exact records_of_some h (List.prefix_refl _)
    · exact records_of_some h (List.prefix_refl _)
  · split_ifs at h with hquote
    · exact records_of_some h (List.prefix_refl _)
    · exact records_separate h fun hnone => absurd hnone (Option.some_ne_none s').symm
  · split_ifs at h with hline
    · exact records_of_some h (List.prefix_refl _)
    · exact records_enter h

theorem records_run {text : List Char} (h : run s text = some s') : s.records <+: s'.records := by
  induction text generalizing s with
  | nil =>
    cases h
    exact List.prefix_refl _
  | cons c text ih =>
    obtain ⟨t, hstep, hrun⟩ := Option.bind_eq_some_iff.mp h
    exact (records_step hstep).trans (ih hrun)

theorem records_finish {all : List (List (List Char))} (h : s.finish = some all) : s.records <+: all := by
  unfold finish at h
  split at h
  · exact absurd h (Option.some_ne_none all).symm
  · cases h
    exact List.prefix_refl _
  · split_ifs at h
    · cases h
      exact List.prefix_refl _
    · cases h
      exact List.prefix_append _ _
  all_goals
    cases h
    exact List.prefix_append _ _

/-- What has been read when a part of a text is over is read of the text. -/
theorem records_read {text rest : List Char} {all : List (List (List Char))}
    (hrun : run (between []) text = some s) (h : read (text ++ rest) = some all) : s.records <+: all := by
  rw [read, run_append, hrun, Option.bind_some] at h
  obtain ⟨t, ht, hfinish⟩ := Option.bind_eq_some_iff.mp h
  exact (records_run ht).trans (records_finish hfinish)

end Kept

/-! ### Fields -/

/-- The characters that part fields and records, and the quote. -/
def Special (c : Char) : Prop := c = ',' ∨ c = '"' ∨ c = '\n' ∨ c = '\r'

/-- A field between quotes. -/
def quoted (field : List Char) : List Char :=
  '"' :: field.flatMap (fun c => if c = '"' then ['"', '"'] else [c]) ++ ['"']

/-- A field is read back where it is written like this. -/
def Legible (write : List Char → List Char) (field : List Char) : Prop :=
  write field = quoted field ∨ (write field = field ∧ ∀ c ∈ field, ¬ Special c)

/-- The field may have ended, and is this one. -/
structure Ended (s : Reader) (field : List Char) : Prop where
  mode : s.mode = .start ∨ s.mode = .plain ∨ s.mode = .closed
  field : s.field = field

section Fields

variable {s : Reader} {field : List Char}

theorem Ended.step_comma (h : Ended s field) :
    s.step ',' = some ⟨.start, [], s.record ++ [field], s.records⟩ := by
  obtain ⟨mode, f, record, records⟩ := s
  obtain ⟨rfl | rfl | rfl, rfl⟩ := h
  all_goals rfl

theorem Ended.step_newline (h : Ended s field) :
    s.step '\n' = some (between (s.records ++ [s.record ++ [field]])) := by
  obtain ⟨mode, f, record, records⟩ := s
  obtain ⟨rfl | rfl | rfl, rfl⟩ := h
  all_goals rfl

theorem Ended.step_return (h : Ended s field) :
    s.step '\r' = some ⟨.afterCr, [], [], s.records ++ [s.record ++ [field]]⟩ := by
  obtain ⟨mode, f, record, records⟩ := s
  obtain ⟨rfl | rfl | rfl, rfl⟩ := h
  all_goals rfl

theorem separate_of_not_special {c : Char} (hc : ¬ Special c) (s : Reader) (other : Option Reader) :
    s.separate c other = other := by
  simp only [Special, not_or] at hc
  rw [separate, if_neg hc.1, if_neg hc.2.2.1, if_neg hc.2.2.2]

theorem step_of_not_special {c : Char} (hc : ¬ Special c) (mode : s.mode = .start ∨ s.mode = .plain) :
    s.step c = some (s.push c .plain) := by
  have hquote : c ≠ '"' := fun h => hc (.inr (.inl h))
  obtain h | h := mode
  · rw [step, h]
    simp only
    rw [enter, if_neg hquote, separate_of_not_special hc]
  · rw [step, h]
    simp only
    rw [if_neg hquote, separate_of_not_special hc]

/-- A field without special characters. -/
theorem run_plain (field : List Char) (record : List (List Char)) (records : List (List (List Char)))
    {more : List Char} {mode : Mode} (hmode : mode = .start ∨ mode = .plain) (hmore : ∀ c ∈ more, ¬ Special c) :
    ∃ s, run ⟨mode, field, record, records⟩ more = some s ∧ Ended s (field ++ more) ∧ s.record = record ∧
      s.records = records := by
  induction more generalizing mode field with
  | nil =>
    refine ⟨_, rfl, ⟨?_, (List.append_nil _).symm⟩, rfl, rfl⟩
    exact hmode.imp_right .inl
  | cons c more ih =>
    obtain ⟨s, hrun, hended, hrest⟩ := ih (field ++ [c]) (.inr rfl) fun d hd => hmore d (List.mem_cons_of_mem _ hd)
    refine ⟨s, ?_, ?_, hrest⟩
    · rw [run_cons, step_of_not_special (hmore c List.mem_cons_self) hmode]
      exact hrun
    · rwa [List.append_assoc] at hended

/-- What stands between the quotes. -/
theorem run_inside (record : List (List Char)) (records : List (List (List Char))) (more : List Char) :
    run ⟨.quoted, field, record, records⟩ (more.flatMap fun c => if c = '"' then ['"', '"'] else [c]) =
      some ⟨.quoted, field ++ more, record, records⟩ := by
  induction more generalizing field with
  | nil => rw [List.flatMap_nil, run_nil, List.append_nil]
  | cons c more ih =>
    rw [List.flatMap_cons, run_append]
    have hone : run ⟨.quoted, field, record, records⟩ (if c = '"' then ['"', '"'] else [c]) =
        some ⟨.quoted, field ++ [c], record, records⟩ := by
      by_cases hquote : c = '"'
      · rw [if_pos hquote, hquote]
        rfl
      · rw [if_neg hquote, run_cons, step]
        simp only [if_neg hquote]
        rfl
    rw [hone, Option.bind_some, ih, List.append_assoc, List.singleton_append]

theorem run_quoted (record : List (List Char)) (records : List (List (List Char))) :
    run ⟨.start, [], record, records⟩ (quoted field) = some ⟨.closed, field, record, records⟩ := by
  rw [quoted, List.cons_append, run_cons]
  have hopen : step ⟨.start, [], record, records⟩ '"' = some ⟨.quoted, [], record, records⟩ := rfl
  rw [hopen, Option.bind_some, run_append, run_inside]
  rfl

variable {write : List Char → List Char}

/-- A legible field is read. -/
theorem Legible.run (h : Legible write field) (record : List (List Char)) (records : List (List (List Char))) :
    ∃ s, run ⟨.start, [], record, records⟩ (write field) = some s ∧ Ended s field ∧ s.record = record ∧
      s.records = records := by
  obtain hquoted | ⟨hplain, hspecial⟩ := h
  · rw [hquoted, run_quoted]
    exact ⟨_, rfl, ⟨.inr (.inr rfl), rfl⟩, rfl, rfl⟩
  · rw [hplain]
    exact run_plain [] record records (.inl rfl) hspecial

end Fields

/-! ### Files -/

/-- The line of a record. -/
def line (write : List Char → List Char) (record : List (List Char)) : List Char :=
  [','].intercalate (record.map write) ++ ['\n']

/-- The text of the records. -/
def file (write : List Char → List Char) (records : List (List (List Char))) : List Char :=
  records.flatMap (line write)

section Files

variable {write : List Char → List Char} {record : List (List Char)} {records : List (List (List Char))}

theorem line_cons_cons (field next : List Char) :
    line write (field :: next :: record) = write field ++ ',' :: line write (next :: record) := by
  simp [line, List.intercalate]

theorem line_singleton (field : List Char) : line write [field] = write field ++ ['\n'] := by
  simp [line, List.intercalate]

/-- The rest of a record is read. -/
theorem run_line_from (h : ∀ f ∈ record, Legible write f) (hne : record ≠ []) (before : List (List Char)) :
    run ⟨.start, [], before, records⟩ (line write record) = some (between (records ++ [before ++ record])) := by
  induction record generalizing before with
  | nil => exact absurd rfl hne
  | cons field record ih =>
    obtain ⟨s, hrun, hended, hrecord, hrecords⟩ := (h field List.mem_cons_self).run before records
    cases record with
    | nil =>
      rw [line_singleton, run_append, hrun, Option.bind_some, run_cons, hended.step_newline, hrecord, hrecords]
      rfl
    | cons next record =>
      rw [line_cons_cons, run_append, hrun, Option.bind_some, run_cons, hended.step_comma, hrecord, hrecords,
        Option.bind_some, ih (fun f hf => h f (List.mem_cons_of_mem _ hf)) (List.cons_ne_nil _ _),
        List.append_assoc, List.singleton_append]

theorem run_file (h : ∀ r ∈ records, r ≠ [] ∧ ∀ f ∈ r, Legible write f) (before : List (List (List Char))) :
    run (between before) (file write records) = some (between (before ++ records)) := by
  induction records generalizing before with
  | nil => rw [file, List.flatMap_nil, run_nil, List.append_nil]
  | cons record records ih =>
    obtain ⟨hne, hlegible⟩ := h record List.mem_cons_self
    rw [file, List.flatMap_cons, run_append, between, run_line_from hlegible hne, Option.bind_some, List.nil_append]
    have hrest := ih (fun r hr => h r (List.mem_cons_of_mem _ hr)) (before ++ [record])
    rw [file] at hrest
    rw [hrest, List.append_assoc, List.singleton_append]

/-- **The round trip.** -/
theorem read_file (h : ∀ r ∈ records, r ≠ [] ∧ ∀ f ∈ r, Legible write f) : read (file write records) = some records := by
  rw [read, run_file h, List.nil_append]
  rfl

/-- The field is written as it is, with a carriage return in it but no other special character. -/
structure Cut (write : List Char → List Char) (field : List Char) : Prop where
  write_eq : write field = field
  mem_return : '\r' ∈ field
  comma : ',' ∉ field
  quote : '"' ∉ field
  newline : '\n' ∉ field

/-- Such a field ends its record at the first carriage return. -/
theorem Cut.run {field : List Char} (h : Cut write field) (before : List (List Char))
    (records : List (List (List Char))) :
    ∃ taken rest part, write field = taken ++ rest ∧ part ≠ field ∧
      run ⟨.start, [], before, records⟩ taken = some ⟨.afterCr, [], [], records ++ [before ++ [part]]⟩ := by
  obtain ⟨part, rest, hsplit, hfirst⟩ := List.eq_append_cons_of_mem h.mem_return
  have hspecial : ∀ c ∈ part, ¬ Special c := by
    intro c hc hbad
    have hmem : c ∈ field := hsplit ▸ List.mem_append_left _ hc
    obtain rfl | rfl | rfl | rfl := hbad
    · exact h.comma hmem
    · exact h.quote hmem
    · exact h.newline hmem
    · exact hfirst hc
  obtain ⟨s, hrun, hended, hrecord, hrecords⟩ :=
    run_plain [] before records (.inl rfl) hspecial
  refine ⟨part ++ ['\r'], rest, part, ?_, ?_, ?_⟩
  · rw [h.write_eq, List.append_assoc, List.singleton_append, ← hsplit]
  · intro heq
    exact hfirst (heq ▸ h.mem_return)
  · rw [run_append, hrun, Option.bind_some, run_cons, hended.step_return, hrecord, hrecords]
    rfl

/-- A record with such a field is read as another one. -/
theorem run_line_cut (h : ∀ f ∈ record, Legible write f ∨ Cut write f) (hcut : ∃ f ∈ record, Cut write f)
    (before : List (List Char)) (records : List (List (List Char))) :
    ∃ taken rest part, line write record = taken ++ rest ∧ part ≠ record ∧
      run ⟨.start, [], before, records⟩ taken = some ⟨.afterCr, [], [], records ++ [before ++ part]⟩ := by
  induction record generalizing before with
  | nil =>
    obtain ⟨f, hf, -⟩ := hcut
    exact absurd hf List.not_mem_nil
  | cons field record ih =>
    by_cases hhead : Cut write field
    · obtain ⟨taken, rest, part, hsplit, hpart, hrun⟩ := hhead.run before records
      have hline : ∃ more, line write (field :: record) = write field ++ more := by
        cases record with
        | nil => exact ⟨_, line_singleton field⟩
        | cons next record => exact ⟨_, line_cons_cons field next⟩
      obtain ⟨more, hmore⟩ := hline
      refine ⟨taken, rest ++ more, [part], ?_, ?_, hrun⟩
      · rw [hmore, hsplit, List.append_assoc]
      · intro heq
        exact hpart (List.cons.inj heq).1
    · have htail : ∃ f ∈ record, Cut write f := by
        obtain ⟨f, hf, hbad⟩ := hcut
        obtain rfl | hf := List.mem_cons.mp hf
        · exact absurd hbad hhead
        · exact ⟨f, hf, hbad⟩
      have hlegible : Legible write field := (h field List.mem_cons_self).resolve_right hhead
      obtain ⟨s, hrun, hended, hrecord, hrecords⟩ := hlegible.run before records
      obtain ⟨taken, rest, part, hsplit, hpart, hrest⟩ :=
        ih (fun f hf => h f (List.mem_cons_of_mem _ hf)) htail (before ++ [field])
      cases record with
      | nil =>
        obtain ⟨f, hf, -⟩ := htail
        exact absurd hf List.not_mem_nil
      | cons next record =>
        refine ⟨write field ++ ',' :: taken, rest, field :: part, ?_, ?_, ?_⟩
        · rw [line_cons_cons, hsplit, List.append_assoc, List.cons_append]
        · intro heq
          exact hpart (List.cons.inj heq).2
        · rw [run_append, hrun, Option.bind_some, run_cons, hended.step_comma, hrecord, hrecords,
            Option.bind_some, hrest, List.append_assoc, List.singleton_append]

/-- A file with such a field is read up to a record that is not in it. -/
theorem run_file_cut (h : ∀ r ∈ records, r ≠ [] ∧ ∀ f ∈ r, Legible write f ∨ Cut write f)
    (hcut : ∃ r ∈ records, ∃ f ∈ r, Cut write f) (before : List (List (List Char))) :
    ∃ taken rest s, file write records = taken ++ rest ∧ run (between before) taken = some s ∧
      ¬ s.records <+: before ++ records := by
  induction records generalizing before with
  | nil =>
    obtain ⟨r, hr, -⟩ := hcut
    exact absurd hr List.not_mem_nil
  | cons record records ih =>
    obtain ⟨hne, hfields⟩ := h record List.mem_cons_self
    by_cases hhead : ∃ f ∈ record, Cut write f
    · obtain ⟨taken, rest, part, hsplit, hpart, hrun⟩ := run_line_cut hfields hhead [] before
      refine ⟨taken, rest ++ file write records, _, ?_, hrun, ?_⟩
      · rw [file, List.flatMap_cons, hsplit, List.append_assoc, file]
      · intro hbefore
        rw [List.nil_append, List.prefix_append_right_inj, List.cons_prefix_cons] at hbefore
        exact hpart hbefore.1
    · have htail : ∃ r ∈ records, ∃ f ∈ r, Cut write f := by
        obtain ⟨r, hr, hbad⟩ := hcut
        obtain rfl | hr := List.mem_cons.mp hr
        · exact absurd hbad hhead
        · exact ⟨r, hr, hbad⟩
      have hlegible : ∀ f ∈ record, Legible write f := fun f hf =>
        (hfields f hf).resolve_right fun hbad => hhead ⟨f, hf, hbad⟩
      obtain ⟨taken, rest, s, hsplit, hrun, hnot⟩ :=
        ih (fun r hr => h r (List.mem_cons_of_mem _ hr)) htail (before ++ [record])
      refine ⟨line write record ++ taken, rest, s, ?_, ?_, ?_⟩
      · rw [file, List.flatMap_cons, ← file, hsplit, List.append_assoc]
      · rw [run_append, between, run_line_from hlegible hne, Option.bind_some, List.nil_append, hrun]
      · rwa [List.append_assoc, List.singleton_append] at hnot

/-- **Where the round trip fails.** -/
theorem ne_read_file (h : ∀ r ∈ records, r ≠ [] ∧ ∀ f ∈ r, Legible write f ∨ Cut write f)
    (hcut : ∃ r ∈ records, ∃ f ∈ r, Cut write f) : read (file write records) ≠ some records := by
  intro hread
  obtain ⟨taken, rest, s, hsplit, hrun, hnot⟩ := run_file_cut h hcut []
  rw [hsplit] at hread
  exact hnot (records_read hrun hread)

end Files

end Csv
