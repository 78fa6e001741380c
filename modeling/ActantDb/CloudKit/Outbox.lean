import ActantDb.CloudKit.Records
import Mathlib.Data.List.Nodup

/-!
# The outbox

Events wait in a file until the server has their records. A push asks the server to save a record for each event that waits, and takes those out of the outbox whose answer is success. Where the server already has a record of that name it answers that the record has changed, and the event stays. So an event whose record was saved when no answer was acted upon, because the process crashed in between, stays for good: every later push asks for it again and gets the same answer.
-/

namespace ActantDb

namespace CloudKit

/-! ### The store -/

/-- `append`, on the events in memory: those whose ids are not there yet. -/
def appended (events newEvents : List EventRow) : List EventRow :=
  newEvents.foldl (fun events event => if event.id ∈ events.map (·.id) then events else events ++ [event]) events

/-- `remove`. -/
def removed (events : List EventRow) (ids : List String) : List EventRow :=
  events.filter fun e => e.id ∉ ids

/-! ### The process and the server -/

/-- A push that waits for its answers: the batch that it sent, and how the server has dealt with its records so far. -/
structure Push where
  batch : List EventRow
  answers : List (String × Bool)

/-- `succeeded`. -/
def Push.succeeded (p : Push) : List String := (p.answers.filter (·.2)).map (·.1)

/-- The event whose record the server has not dealt with. -/
def Push.next (p : Push) : Option EventRow := p.batch[p.answers.length]?

structure Outbox where
  file : List EventRow
  -- what the actor holds, while the process runs
  events : Option (List EventRow)
  push : Option Push
  server : List CKRecord

def Outbox.Saved (s : Outbox) (name : String) : Prop := ∃ rec ∈ s.server, rec.recordName = name

instance (s : Outbox) (name : String) : Decidable (s.Saved name) := by
  unfold Outbox.Saved
  infer_instance

/-- What waits: what the actor holds, or would load from its file. -/
def Outbox.all (s : Outbox) : List EventRow := s.events.getD s.file

/-- When the process crashes while it changes the file. -/
inductive Fate where
  | returns | crashesBefore | crashesAfter
deriving DecidableEq, Repr

inductive OutboxStep where
  | append (newEvents : List EventRow) (fate : Fate)
  -- `pushOutboxBatch` sends its request, unless one is waiting
  | push
  -- the server deals with the next record of the request
  | save
  -- the answers arrive and `remove` is called
  | answered (fate : Fate)
  -- the request fails as a whole
  | pushFails
  | crash
  | restart
  -- a record is saved by another device, or by a request of a process that has crashed
  | arrives (rec : CKRecord)

/-- The events are changed in memory and then in the file. -/
def Outbox.persist (s : Outbox) (events : List EventRow) : Fate → Outbox
  | .returns => { s with events := some events, file := events }
  | .crashesBefore => { s with events := none, push := none }
  | .crashesAfter => { s with events := none, push := none, file := events }

/-- `ifServerRecordUnchanged`: a record that the server has is not saved again. -/
def Outbox.saveRecord (s : Outbox) (rec : CKRecord) : Outbox :=
  if s.Saved rec.recordName then s else { s with server := s.server ++ [rec] }

def Outbox.step (s : Outbox) : OutboxStep → Outbox
  | .append newEvents fate =>
    match s.events with
    | none => s
    | some events => if newEvents = [] then s else s.persist (appended events newEvents) fate
  | .push =>
    match s.events, s.push with
    | some (e :: events), none => { s with push := some ⟨e :: events, []⟩ }
    | _, _ => s
  | .save =>
    match s.push with
    | none => s
    | some p =>
      match p.next with
      | none => s
      | some e =>
        { s.saveRecord e.toRecord with push := some { p with answers := p.answers ++ [(e.id, !decide (s.Saved e.id))] } }
  | .answered fate =>
    match s.events, s.push with
    | some events, some p =>
      if p.next = none then
        if p.succeeded = [] then { s with push := none }
        else { s with push := none }.persist (removed events p.succeeded) fate
      else s
    | _, _ => s
  | .pushFails => { s with push := none }
  | .crash => { s with events := none, push := none }
  | .restart => { s with events := some (s.events.getD s.file) }
  | .arrives rec => s.saveRecord rec

/-- The answers arrive at the push. -/
def Outbox.Answers (s : Outbox) (p : Push) (events : List EventRow) : Prop :=
  s.push = some p ∧ s.events = some events ∧ p.next = none

/-! ### What is asked of a step -/

/-- An event that has left the outbox has its record on the server, and a push that has got its answers has left none of its events behind that has. -/
structure Outbox.Drains (s : Outbox) (l : OutboxStep) : Prop where
  kept : ∀ e ∈ s.all, e ∉ (s.step l).all → (s.step l).Saved e.id
  drained : l = .answered .returns → ∀ p events, s.Answers p events →
    ∀ e ∈ p.batch, (s.step l).Saved e.id → e ∉ (s.step l).all

/-- A push whose answers arrive has found no record of its events on the server. -/
def Outbox.Fresh (s : Outbox) (l : OutboxStep) : Prop :=
  l = .answered .returns → ∀ p events, s.Answers p events → ∀ a ∈ p.answers, a.2 = true

/-! ### Lists of events -/

section Events

variable {events newEvents : List EventRow} {ids : List String} {e : EventRow}

theorem mem_appended (h : e ∈ events) : e ∈ appended events newEvents := by
  induction newEvents generalizing events with
  | nil => exact h
  | cons event newEvents ih =>
    rw [appended, List.foldl_cons]
    apply ih
    split
    · exact h
    · exact List.mem_append_left _ h

theorem appended_nodup (h : (events.map (·.id)).Nodup) : ((appended events newEvents).map (·.id)).Nodup := by
  induction newEvents generalizing events with
  | nil => exact h
  | cons event newEvents ih =>
    rw [appended, List.foldl_cons]
    apply ih
    split
    · exact h
    · rename_i hnew
      rw [List.map_append, List.nodup_append]
      refine ⟨h, by simp, fun a ha b hb => ?_⟩
      rw [List.map_singleton, List.mem_singleton] at hb
      rintro rfl
      exact hnew (hb ▸ ha)

theorem mem_removed : e ∈ removed events ids ↔ e ∈ events ∧ e.id ∉ ids := by
  simp [removed]

theorem removed_nodup (h : (events.map (·.id)).Nodup) : ((removed events ids).map (·.id)).Nodup :=
  h.sublist (List.filter_sublist.map _)

end Events

/-! ### The invariant -/

/-- The answers of a push are those of the first events of its batch, whose ids differ. -/
structure Push.Sound (p : Push) : Prop where
  idsNodup : (p.batch.map (·.id)).Nodup
  answered : p.answers.map (·.1) = (p.batch.map (·.id)).take p.answers.length

/-- The actor holds what is in its file, the events of the push are among them, and each record that the server has answered about is there. -/
structure Outbox.Held (s : Outbox) : Prop where
  mirrored : ∀ events, s.events = some events → events = s.file
  idsNodup : (s.file.map (·.id)).Nodup
  sound : ∀ p, s.push = some p → p.Sound
  batched : ∀ p, s.push = some p → ∀ e ∈ p.batch, e ∈ s.file
  saved : ∀ p, s.push = some p → ∀ a ∈ p.answers, s.Saved a.1

namespace Push

variable {p : Push}

theorem mem_succeeded {id : String} : id ∈ p.succeeded ↔ (id, true) ∈ p.answers := by
  simp [succeeded]

/-- Once every record has been dealt with there is an answer for each. -/
theorem Sound.ids_of_done (h : p.Sound) (hdone : p.next = none) : p.answers.map (·.1) = p.batch.map (·.id) := by
  rw [h.answered, List.take_of_length_le]
  rw [List.length_map]
  exact List.getElem?_eq_none_iff.mp hdone

/-- No event is answered both ways. -/
theorem Sound.answer_unique (h : p.Sound) {id : String} {a b : Bool} (ha : (id, a) ∈ p.answers)
    (hb : (id, b) ∈ p.answers) : a = b := by
  have hnodup : (p.answers.map (·.1)).Nodup := by
    rw [h.answered]
    exact h.idsNodup.sublist (List.take_sublist _ _)
  exact congrArg Prod.snd (List.inj_on_of_nodup_map hnodup ha hb rfl)

theorem Sound.answer (h : p.Sound) {e : EventRow} (hnext : p.next = some e) (ok : Bool) :
    Push.Sound ⟨p.batch, p.answers ++ [(e.id, ok)]⟩ := by
  refine ⟨h.idsNodup, ?_⟩
  have hid : (p.batch.map (·.id))[p.answers.length]? = some e.id := by
    rw [List.getElem?_map]
    exact congrArg (Option.map (·.id)) hnext
  rw [List.map_append, h.answered, List.length_append, List.length_singleton, List.take_add_one, hid]
  rfl

end Push

namespace Outbox

variable {s : Outbox}

theorem Held.all_eq (h : s.Held) : s.all = s.file := by
  rw [all]
  cases hevents : s.events with
  | none => rfl
  | some events => exact h.mirrored events hevents

theorem saved_saveRecord {rec : CKRecord} {name : String} :
    (s.saveRecord rec).Saved name ↔ s.Saved name ∨ rec.recordName = name := by
  rw [saveRecord]
  split
  · rename_i hsaved
    constructor
    · exact Or.inl
    · rintro (h | rfl)
      · exact h
      · exact hsaved
  · simp [Saved, or_and_right, exists_or]

/-- A process that does not run. -/
theorem held_stopped (hevents : s.events = none) (hpush : s.push = none) (hids : (s.file.map (·.id)).Nodup) : s.Held where
  mirrored events heq := by simp [hevents] at heq
  idsNodup := hids
  sound p heq := by simp [hpush] at heq
  batched p heq := by simp [hpush] at heq
  saved p heq := by simp [hpush] at heq

/-- The file is changed while the events of the push stay in it. -/
theorem Held.persist (h : s.Held) {events : List EventRow} (hids : (events.map (·.id)).Nodup)
    (hbatched : ∀ p, s.push = some p → ∀ e ∈ p.batch, e ∈ events) (fate : Fate) : (s.persist events fate).Held := by
  cases fate with
  | returns => exact ⟨fun _ heq => (Option.some.inj heq).symm, hids, h.sound, hbatched, h.saved⟩
  | crashesBefore => exact held_stopped rfl rfl h.idsNodup
  | crashesAfter => exact held_stopped rfl rfl hids

theorem Held.append (h : s.Held) (newEvents : List EventRow) (fate : Fate) : (s.step (.append newEvents fate)).Held := by
  rw [step]
  cases hevents : s.events with
  | none => exact h
  | some events =>
    obtain rfl := h.mirrored events hevents
    dsimp only
    split
    · exact h
    · exact h.persist (appended_nodup h.idsNodup) (fun p hp e he => mem_appended (h.batched p hp e he)) fate

/-- Without a push the rest is kept. -/
theorem Held.unpushed (h : s.Held) : Held { s with push := none } :=
  ⟨h.mirrored, h.idsNodup, fun _ heq => by simp at heq, fun _ heq => by simp at heq, fun _ heq => by simp at heq⟩

theorem Held.saveRecord (h : s.Held) (rec : CKRecord) : (s.saveRecord rec).Held := by
  have hsame : (s.saveRecord rec).events = s.events ∧ (s.saveRecord rec).file = s.file ∧ (s.saveRecord rec).push = s.push := by
    rw [Outbox.saveRecord]
    split <;> exact ⟨rfl, rfl, rfl⟩
  obtain ⟨hevents, hfile, hpush⟩ := hsame
  refine ⟨?_, ?_, ?_, ?_, ?_⟩
  · rw [hevents, hfile]
    exact h.mirrored
  · rw [hfile]
    exact h.idsNodup
  · rw [hpush]
    exact h.sound
  · rw [hpush, hfile]
    exact h.batched
  · rw [hpush]
    intro p hp a ha
    exact saved_saveRecord.mpr (Or.inl (h.saved p hp a ha))

theorem Held.push (h : s.Held) : (s.step .push).Held := by
  rw [step]
  split
  · rename_i e events hevents hpush
    have hfile := h.mirrored _ hevents
    refine ⟨h.mirrored, h.idsNodup, fun p heq => ?_, fun p heq => ?_, fun p heq => ?_⟩
    all_goals obtain rfl := Option.some.inj heq
    · exact ⟨hfile ▸ h.idsNodup, rfl⟩
    · intro e' he'
      exact hfile ▸ he'
    · intro a ha
      cases ha
  · exact h

theorem Held.save (h : s.Held) : (s.step .save).Held := by
  rw [step]
  cases hpush : s.push with
  | none => exact h
  | some p =>
    dsimp only
    cases hnext : p.next with
    | none => exact h
    | some e =>
      have hsaved := h.saveRecord e.toRecord
      have hbatched := h.batched p hpush
      have hfile : (s.saveRecord e.toRecord).file = s.file := by
        rw [Outbox.saveRecord]
        split <;> rfl
      refine ⟨hsaved.mirrored, hsaved.idsNodup, fun p' heq => ?_, fun p' heq => ?_, fun p' heq => ?_⟩
      all_goals obtain rfl := Option.some.inj heq
      · exact (h.sound p hpush).answer hnext _
      · exact fun e' he' => hfile ▸ hbatched e' he'
      · intro a ha
        rcases List.mem_append.mp ha with ha | ha
        · exact saved_saveRecord.mpr (Or.inl (h.saved p hpush a ha))
        · rw [List.mem_singleton.mp ha]
          exact saved_saveRecord.mpr (Or.inr rfl)

theorem Held.answered (h : s.Held) (fate : Fate) : (s.step (.answered fate)).Held := by
  rw [step]
  split
  · rename_i events p hevents hpush
    obtain rfl := h.mirrored events hevents
    split
    · split
      · exact h.unpushed
      · exact h.unpushed.persist (removed_nodup h.idsNodup) (fun _ heq => by simp at heq) fate
    · exact h
  · exact h

theorem Held.step (h : s.Held) (l : OutboxStep) : (s.step l).Held := by
  cases l with
  | append newEvents fate => exact h.append newEvents fate
  | push => exact h.push
  | save => exact h.save
  | answered fate => exact h.answered fate
  | pushFails => exact h.unpushed
  | crash => exact held_stopped rfl rfl h.idsNodup
  | restart =>
    refine ⟨fun events heq => ?_, h.idsNodup, h.sound, h.batched, h.saved⟩
    rw [← Option.some.inj heq]
    exact h.all_eq
  | arrives rec => exact h.saveRecord rec

/-! ### What a step takes out -/

theorem all_saveRecord {rec : CKRecord} : (s.saveRecord rec).all = s.all := by
  rw [Outbox.saveRecord]
  split <;> rfl

/-- What is in memory after a change is in the file, or the process has crashed with the file as it was or changed. -/
theorem all_persist {events : List EventRow} {fate : Fate} :
    (s.persist events fate).all = events ∨ (s.persist events fate).all = s.file := by
  cases fate with
  | returns => exact Or.inl rfl
  | crashesBefore => exact Or.inr rfl
  | crashesAfter => exact Or.inl rfl

/-- What leaves the outbox has been answered with success. -/
theorem Held.kept (h : s.Held) (l : OutboxStep) {e : EventRow} (he : e ∈ s.all) (hgone : e ∉ (s.step l).all) :
    (s.step l).Saved e.id := by
  have hfile : e ∈ s.file := h.all_eq ▸ he
  cases l with
  | append newEvents fate =>
    exfalso
    apply hgone
    rw [Outbox.step]
    cases hevents : s.events with
    | none => exact he
    | some events =>
      obtain rfl := h.mirrored events hevents
      dsimp only
      split
      · exact he
      · rcases @all_persist s (appended s.file newEvents) fate with hall | hall
        · rw [hall]
          exact mem_appended hfile
        · rw [hall]
          exact hfile
  | push =>
    refine absurd ?_ hgone
    rw [Outbox.step]
    split <;> exact he
  | save =>
    refine absurd ?_ hgone
    rw [Outbox.step]
    split
    · exact he
    · split
      · exact he
      · exact (all_saveRecord (s := s)) ▸ he
  | answered fate =>
    rw [Outbox.step] at hgone ⊢
    split at hgone
    · rename_i events p hevents hpush
      obtain rfl := h.mirrored events hevents
      split at hgone
      · rename_i hdone
        split at hgone
        · exact absurd he hgone
        · rename_i hsome
          rw [if_pos hdone, if_neg hsome]
          have hsucceeded : e.id ∈ p.succeeded := by
            by_contra hnot
            rcases @all_persist { s with push := none } (removed s.file p.succeeded) fate with hall | hall
            · rw [hall] at hgone
              exact hgone (mem_removed.mpr ⟨hfile, hnot⟩)
            · rw [hall] at hgone
              exact hgone hfile
          have hsaved : s.Saved e.id := h.saved p hpush _ (Push.mem_succeeded.mp hsucceeded)
          cases fate <;> exact hsaved
      · exact absurd he hgone
    · exact absurd he hgone
  | pushFails => exact absurd he hgone
  | crash => exact absurd hfile hgone
  | restart => exact absurd he hgone
  | arrives rec => exact absurd ((all_saveRecord (s := s)) ▸ he) hgone

/-- Once the answers have arrived, what has succeeded is taken out, and nothing else. -/
theorem Held.all_answered (h : s.Held) {p : Push} {events : List EventRow} (hanswers : s.Answers p events) :
    (s.step (.answered .returns)).all = removed s.file p.succeeded ∧ (s.step (.answered .returns)).server = s.server := by
  obtain ⟨hpush, hevents, hdone⟩ := hanswers
  obtain rfl := h.mirrored events hevents
  rw [Outbox.step]
  simp only [hevents, hpush]
  rw [if_pos hdone]
  by_cases hnone : p.succeeded = []
  · rw [if_pos hnone, hnone]
    refine ⟨?_, rfl⟩
    show s.file = removed s.file []
    simp [removed]
  · rw [if_neg hnone]
    exact ⟨rfl, rfl⟩

/-- A push leaves nothing behind just when each of its records was new. -/
theorem Held.drains_iff (h : s.Held) (l : OutboxStep) : s.Drains l ↔ s.Fresh l := by
  constructor
  · rintro hdrains rfl p events hanswers ⟨id, ok⟩ ha
    obtain ⟨hall, hserver⟩ := h.all_answered hanswers
    have hsound := h.sound p hanswers.1
    have hbatch : id ∈ p.batch.map (·.id) := by
      rw [← hsound.ids_of_done hanswers.2.2]
      exact List.mem_map_of_mem ha
    obtain ⟨e, he, rfl⟩ := List.mem_map.mp hbatch
    have hsaved : (s.step (.answered .returns)).Saved e.id := by
      rw [Saved, hserver]
      exact h.saved p hanswers.1 _ ha
    have hgone := hdrains.drained rfl p events hanswers e he hsaved
    rw [hall, mem_removed] at hgone
    have hsucceeded : e.id ∈ p.succeeded := by
      by_contra hnot
      exact hgone ⟨h.batched p hanswers.1 e he, hnot⟩
    exact hsound.answer_unique ha (Push.mem_succeeded.mp hsucceeded)
  · intro hfresh
    refine ⟨fun e he hgone => h.kept l he hgone, ?_⟩
    rintro rfl p events hanswers e he -
    have hsound := h.sound p hanswers.1
    have hid : e.id ∈ p.answers.map (·.1) := by
      rw [hsound.ids_of_done hanswers.2.2]
      exact List.mem_map_of_mem he
    obtain ⟨⟨id, ok⟩, ha, rfl⟩ := List.mem_map.mp hid
    obtain rfl : ok = true := hfresh rfl p events hanswers _ ha
    rw [(h.all_answered hanswers).1, mem_removed]
    exact fun hmem => hmem.2 (Push.mem_succeeded.mpr ha)

/-- Nothing runs yet; the file may hold events from before, and the server records. -/
def start (file : List EventRow) (server : List CKRecord) : Outbox := ⟨file, none, none, server⟩

/-- **The outbox drains in every run whose pushes find no records of theirs**, and in no other. -/
theorem everyStep_drains_iff (file : List EventRow) (server : List CKRecord) (hids : (file.map (·.id)).Nodup)
    (steps : List OutboxStep) :
    Lts.EveryStep Outbox.step Drains (start file server) steps ↔ Lts.EveryStep Outbox.step Fresh (start file server) steps :=
  Lts.everyStep_congr Held (fun _ l h => h.step l) (fun _ l h => h.drains_iff l) (held_stopped rfl rfl hids)

/-- Whatever is pushed, no event is lost: it leaves the outbox with its record saved. -/
theorem kept_of_run (file : List EventRow) (server : List CKRecord) (hids : (file.map (·.id)).Nodup)
    (steps : List OutboxStep) :
    ∀ e ∈ (Lts.run Outbox.step (start file server) steps).all, ∀ l,
      e ∉ (Lts.run Outbox.step (start file server) (steps ++ [l])).all →
        (Lts.run Outbox.step (start file server) (steps ++ [l])).Saved e.id := by
  have hheld : Held (Lts.run Outbox.step (start file server) steps) :=
    Lts.run_invariant Held (fun _ l h _ => h.step l) (held_stopped rfl rfl hids) (Lts.everyStep_true steps)
  intro e he l hgone
  rw [Lts.run_append] at hgone ⊢
  exact hheld.kept l he hgone

/-! ### A crash after the save -/

def noted : EventRow :=
  ⟨"evt_1", "ws_demo", none, "phone", "act_1", "note", [123, 125], "h", none, ⟨1, 0⟩, "2026-05-18T12:00:00Z"⟩

/-- The event is pushed and taken out. -/
def pushed : List OutboxStep := [.restart, .append [noted] .returns, .push, .save, .answered .returns]

theorem pushed_drains : Lts.EveryStep Outbox.step Drains (start [] []) pushed := by
  refine (everyStep_drains_iff [] [] List.nodup_nil pushed).mpr ⟨?_, ?_, ?_, ?_, ?_, trivial⟩
  all_goals rintro hl p events ⟨hpush, -, -⟩ a ha
  all_goals cases hl
  cases hpush
  cases ha with
  | head => rfl
  | tail _ h => cases h

/-- The process crashes once the record is saved, and pushes the event again. -/
def crashed : List OutboxStep := [.restart, .append [noted] .returns, .push, .save, .crash, .restart, .push, .save]

/-- The answers of the second push leave the event in the outbox. -/
theorem crashed_stays : ¬ Lts.EveryStep Outbox.step Drains (start [] []) (crashed ++ [.answered .returns]) := by
  intro h
  have hdrains := (Lts.everyStep_append.mp h).2.1
  have hanswers : (Lts.run Outbox.step (start [] []) crashed).Answers ⟨[noted], [("evt_1", false)]⟩ [noted] :=
    ⟨by rfl, by rfl, by rfl⟩
  refine hdrains.drained rfl _ _ hanswers noted List.mem_cons_self ?_ ?_
  · exact ⟨noted.toRecord, List.mem_cons_self, rfl⟩
  · exact List.mem_cons_self

end Outbox

end CloudKit

end ActantDb
