import ActantDb.Lib.Overlay
import ActantDb.Sync.Pass

/-!
# Interrupted sync

A pass that is cut off between any two of its steps has written some objects and perhaps the cursor; the next pass takes up from the cursor and writes again what the cursor does not cover. What then remains, laid over the files that are there, is the same as it was before the interruption, so it ends in the same files.

All this rests on the cursor that is read being the id that was written. A cursor that is blank or surrounded by white space is not: the pass after it begins elsewhere. Of the events to be copied only those that end a full batch are ever read back as a cursor, so resuming is right exactly when these have an id that trimming leaves alone (`crash_resume_iff`).
-/

namespace ActantDb

open Prog

section Resume

variable (E : SyncEnv) (d : FilesystemDestination) (ws : WorkspaceId) (batchSize : Nat)

/-! ### What there is to copy -/

/-- What `cursor` makes of the files. -/
def storedCursor (files : File → Option Contents) : Option EventId :=
  (textOf E files (d.cursorPath ws)).bind fun s => if trimmed s = "" then none else some (trimmed s)

/-- The position that the cursor stands for. -/
def cursorPosition (w : SyncWorld) : Option Position :=
  (storedCursor E d ws w.files).bind fun id => (w.world.db.createdAt id ws).map fun t => (t, id)

/-- What a pass that begins now has to copy, in order. -/
def remaining (w : SyncWorld) : List AgentEvent := w.world.db.eventsBeyond ws (cursorPosition E d ws w)

/-- Neither the storage nor the file system fails. -/
def SyncEnv.reliable : SyncEnv :=
  { E with env := { E.env with fault := fun _ => false }, ioFault := fun _ => none }

/-- The event whose JSON is written. -/
def SyncOp.pushes? : SyncOp → Option AgentEvent
  | .write _ (.json e) => some e
  | _ => none

/-- A pass from `w` that nothing interrupts returns in `w'`, having pushed the events `pushed`. -/
def Finishes (w w' : SyncWorld) (pushed : List AgentEvent) : Prop :=
  ∃ turns stats,
    (runOnce d ws batchSize turns).run (SyncOp.handle E.reliable) w = (.ok stats, w') ∧
    ((runOnce d ws batchSize turns).calls (SyncOp.handle E.reliable) w).filterMap SyncOp.pushes? = pushed

/-- Passes from `w` that are cut off, each after some steps and before it returns, lead to `w'`. Where one is cut off a step may have failed, too. -/
inductive Crashed : SyncWorld → SyncWorld → Prop where
  | none (w : SyncWorld) : Crashed w w
  | crash {w w' : SyncWorld} (turns k : Nat)
    (h : (steps (SyncOp.handle E) k (runOnce d ws batchSize turns) w).1.returned = false)
    (hrest : Crashed (steps (SyncOp.handle E) k (runOnce d ws batchSize turns) w).2 w') : Crashed w w'

/-- The name of a temporary file. -/
def File.temporary (f : File) : Prop := ".tmp".toList <:+ f.name.toList

/-- Left alone, a pass returns and pushes each event once; after any crashes it returns with the same files. -/
structure CrashResumes (w : SyncWorld) (final : SyncWorld) : Prop where
  pushedOnce : Finishes E d ws batchSize w final (remaining E d ws w)
  resumes : ∀ w₁, Crashed E d ws batchSize w w₁ → ∃ final₁ pushed,
    Finishes E d ws batchSize w₁ final₁ pushed ∧
      ∀ f : File, ¬ f.temporary → final₁.files f = final.files f

/-- An id that is read back from a cursor file as it was written. -/
def KeptId (e : AgentEvent) : Prop := trimmed e.id = e.id ∧ e.id ≠ ""

instance (e : AgentEvent) : Decidable (KeptId e) := inferInstanceAs (Decidable (_ ∧ _))

/-- The events that end a full batch have such ids. -/
def EndsKept (l : List AgentEvent) : Prop :=
  ∀ i < l.length, batchSize ∣ i + 1 → ∀ e ∈ l[i]?, KeptId e

instance (l : List AgentEvent) : Decidable (EndsKept batchSize l) :=
  inferInstanceAs (Decidable (∀ i < l.length, batchSize ∣ i + 1 → ∀ e ∈ l[i]?, KeptId e))

/-- The files once `l` has been copied: the objects laid over what is there, and the last id in the cursor file. -/
def settle (l : List AgentEvent) (files : File → Option Contents) (f : File) : Option Contents :=
  if f = E.file (d.cursorPath ws) then (l.getLast?.map fun e => Contents.text e.id).or (files f)
  else overlay (fun e => E.file (d.eventPath ws e)) Contents.json l files f

end Resume

/-! ### The order again -/

section Order

variable {db : Db} {ws : WorkspaceId} {since : Option Position} {last : AgentEvent}
  {pre post : List AgentEvent}

theorem eq_of_sorted {l₁ l₂ : List AgentEvent} (h₁ : l₁.Pairwise fun a b => b.isAfter a.position)
    (h₂ : l₂.Pairwise fun a b => b.isAfter a.position) (h : ∀ e, e ∈ l₁ ↔ e ∈ l₂) : l₁ = l₂ := by
  have hnodup : ∀ {l : List AgentEvent}, (l.Pairwise fun a b => b.isAfter a.position) → l.Nodup := by
    intro l hl
    rw [List.nodup_iff_pairwise_ne]
    refine hl.imp fun hab heq => ?_
    rw [heq] at hab
    exact not_isAfter_self hab
  refine List.Perm.eq_of_pairwise (fun a b _ _ hab hba => ?_) h₁ h₂
    ((List.perm_ext_iff_of_nodup (hnodup h₁) (hnodup h₂)).mpr h)
  exact absurd (isAfter_trans hba hab) not_isAfter_self

/-- What is beyond one of the events selected is what comes after it. -/
theorem eventsBeyond_suffix (h : db.eventsBeyond ws since = pre ++ last :: post) :
    db.eventsBeyond ws (some last.position) = post := by
  have hsorted : (db.eventsBeyond ws since).Pairwise fun a b => b.isAfter a.position :=
    eventsBeyond_sorted
  have hmem : ∀ e, e ∈ pre ++ last :: post ↔ e ∈ db.stored ∧ e.workspaceId = ws ∧ e.follows since := by
    intro e
    rw [← h]
    exact mem_eventsBeyond
  rw [h, List.pairwise_append, List.pairwise_cons] at hsorted
  obtain ⟨-, ⟨hafter, hpost⟩, hbefore⟩ := hsorted
  refine eq_of_sorted eventsBeyond_sorted hpost fun e => ?_
  rw [mem_eventsBeyond]
  constructor
  · rintro ⟨hstored, hws, hfollows⟩
    have hlast := hfollows last.position rfl
    have hin := (hmem e).mpr ⟨hstored, hws, fun p hp =>
      isAfter_trans hlast (((hmem last).mp (by simp)).2.2 p hp)⟩
    rcases List.mem_append.mp hin with hpre | hrest
    · exact absurd (isAfter_trans hlast (hbefore e hpre last List.mem_cons_self)) not_isAfter_self
    · rcases List.mem_cons.mp hrest with rfl | hin
      · exact absurd hlast not_isAfter_self
      · exact hin
  · intro hin
    obtain ⟨hstored, hws, -⟩ := (hmem e).mp (by simp [hin])
    refine ⟨hstored, hws, fun p hp => ?_⟩
    cases hp
    exact hafter e hin

/-- A cursor that stands for another position does not lead to the same next event. -/
theorem head_ne_of_position_ne (since : Option Position) (hlast : last ∈ db.stored) (hws : last.workspaceId = ws)
    (hsince : ∀ p ∈ since, ∃ x ∈ db.stored, x.workspaceId = ws ∧ x ≠ last ∧ x.position = p) :
    (db.eventsBeyond ws since).head? ≠ (db.eventsBeyond ws (some last.position)).head? := by
  intro heq
  have hfirst : ∀ {since' : Option Position} {r e : AgentEvent},
      (db.eventsBeyond ws since').head? = some r → e ∈ db.eventsBeyond ws since' → ¬ r.isAfter e.position := by
    intro since' r e hr he hafter
    obtain ⟨tail, htail⟩ := List.head?_eq_some_iff.mp hr
    have hsorted : (db.eventsBeyond ws since').Pairwise fun a b => b.isAfter a.position :=
      eventsBeyond_sorted
    rw [htail] at he hsorted
    rcases List.mem_cons.mp he with rfl | hin
    · exact not_isAfter_self hafter
    · exact not_isAfter_self (isAfter_trans hafter (List.rel_of_pairwise_cons hsorted hin))
  by_cases hfollows : last.follows since
  · -- the pass goes back: the last event itself is selected again
    have hin : last ∈ db.eventsBeyond ws since := mem_eventsBeyond.mpr ⟨hlast, hws, hfollows⟩
    obtain ⟨r, hr⟩ : ∃ r, (db.eventsBeyond ws since).head? = some r :=
      Option.isSome_iff_exists.mp (List.isSome_head?.mpr (List.ne_nil_of_mem hin))
    apply hfirst hr hin
    rw [heq] at hr
    exact (mem_eventsBeyond.mp (List.mem_of_head? hr)).2.2 _ rfl
  · -- the pass leaps ahead: the event it starts from is passed over
    rw [AgentEvent.follows] at hfollows
    push Not at hfollows
    obtain ⟨p, hp, hnot⟩ := hfollows
    obtain ⟨x, hx, hxws, hne, rfl⟩ := hsince p hp
    have hafter : x.isAfter last.position := by
      rw [not_isAfter_iff_lex] at hnot
      rw [isAfter_iff_lex]
      refine lt_of_le_of_ne hnot fun hpos => hne ?_
      exact (eq_of_id_eq hlast hx (congrArg Prod.snd (toLex_inj.mp hpos))).symm
    have hin : x ∈ db.eventsBeyond ws (some last.position) := by
      refine mem_eventsBeyond.mpr ⟨hx, hxws, fun q hq => ?_⟩
      cases hq
      exact hafter
    obtain ⟨r, hr⟩ : ∃ r, (db.eventsBeyond ws (some last.position)).head? = some r :=
      Option.isSome_iff_exists.mp (List.isSome_head?.mpr (List.ne_nil_of_mem hin))
    apply hfirst hr hin
    rw [← heq] at hr
    exact (mem_eventsBeyond.mp (List.mem_of_head? hr)).2.2 _ hp

end Order

/-! ### The end of a full batch -/

section EndsKept

variable {batchSize : Nat} {l : List AgentEvent}

theorem endsKept_of_short (h : l.length < batchSize) : EndsKept batchSize l := by
  intro i hi hdvd
  exact absurd (Nat.le_of_dvd (Nat.succ_pos i) hdvd) (by omega)

theorem endsKept_iff (hsize : 0 < batchSize) (hfull : batchSize ≤ l.length) :
    EndsKept batchSize l ↔ (∀ e ∈ l[batchSize - 1]?, KeptId e) ∧ EndsKept batchSize (l.drop batchSize) := by
  constructor
  · intro h
    constructor
    · exact h (batchSize - 1) (by omega) ⟨1, by omega⟩
    · intro i hi hdvd e he
      rw [List.length_drop] at hi
      rw [List.getElem?_drop] at he
      refine h (batchSize + i) (by omega) ?_ e he
      rw [Nat.add_assoc]
      exact Nat.dvd_add (Nat.dvd_refl _) hdvd
  · intro h i hi hdvd e he
    by_cases hfirst : i < batchSize
    · obtain rfl : i = batchSize - 1 := by
        have := Nat.le_of_dvd (Nat.succ_pos i) hdvd
        omega
      exact h.1 e he
    · refine h.2 (i - batchSize) (by rw [List.length_drop]; omega) ?_ e ?_
      · rw [show i - batchSize + 1 = i + 1 - batchSize by omega]
        exact Nat.dvd_sub hdvd (Nat.dvd_refl _)
      · rw [List.getElem?_drop, show batchSize + (i - batchSize) = i by omega]
        exact he

end EndsKept

variable {E : SyncEnv} {d : FilesystemDestination} {ws : WorkspaceId} {batchSize : Nat}

/-! ### The files that are settled -/

section Settle

variable {files files' : File → Option Contents} {l l₁ l₂ : List AgentEvent} {f : File}

theorem temporary_eventTmp (e : AgentEvent) : (E.file (d.eventTmp ws e)).temporary :=
  (show ".tmp".toList <:+ "json.tmp".toList by decide).trans (eventTmp_suffix ws e)

theorem temporary_cursorTmp : (E.file (d.cursorTmp ws)).temporary :=
  (show ".tmp".toList <:+ ".txt.tmp".toList by decide).trans (cursorTmp_suffix ws)

theorem settle_nil : settle E d ws [] files f = files f := by
  rw [settle]
  split <;> rfl

theorem settle_cursor : settle E d ws l files (E.file (d.cursorPath ws)) =
    (l.getLast?.map fun e => Contents.text e.id).or (files (E.file (d.cursorPath ws))) :=
  if_pos rfl

theorem settle_object (hf : f ≠ E.file (d.cursorPath ws)) : settle E d ws l files f =
    overlay (fun e => E.file (d.eventPath ws e)) Contents.json l files f :=
  if_neg hf

/-- Copying one part after the other copies the whole. -/
theorem settle_append (h : files' f = settle E d ws l₁ files f) :
    settle E d ws l₂ files' f = settle E d ws (l₁ ++ l₂) files f := by
  by_cases hf : f = E.file (d.cursorPath ws)
  · subst hf
    rw [settle_cursor] at h
    rw [settle_cursor, settle_cursor, h, List.getLast?_append]
    cases l₂.getLast? <;> rfl
  · rw [settle_object hf] at h
    rw [settle_object hf, settle_object hf, overlay_append]
    exact overlay_congr l₂ h

end Settle

/-! ### Without failures -/

section Reliable

variable {w : SyncWorld}

theorem reliable_write (p : FilePath) (contents : Contents) (w : SyncWorld) :
    (SyncOp.write p contents).handle E.reliable w =
      (.ok (), { w with
        ios := w.ios + 1
        files := Function.update w.files (E.file p) (some contents) }) := rfl

@[simp] theorem SyncEnv.reliable_ioFault (n : Nat) : E.reliable.ioFault n = none := rfl

theorem reliable_rename {src dst : FilePath} {contents : Contents}
    (h : w.files (E.file src) = some contents) :
    (SyncOp.rename src dst).handle E.reliable w =
      (.ok (), { w with
        ios := w.ios + 1
        files := Function.update (Function.update w.files (E.file src) none) (E.file dst)
          (some contents) }) := by
  have hsrc : w.files (E.reliable.file src) = some contents := h
  simp only [SyncOp.handle, SyncWorld.io, SyncEnv.reliable_ioFault, hsrc]
  rfl

theorem reliable_readToString (p : FilePath) (w : SyncWorld) :
    (SyncOp.readToString p).handle E.reliable w =
      ((textOf E w.files p).elim (.error .notFound) .ok, { w with ios := w.ios + 1 }) := by
  have htext : textOf E.reliable w.files p = textOf E w.files p := rfl
  rw [← htext, textOf]
  simp only [SyncOp.handle, SyncWorld.io, SyncEnv.reliable_ioFault]
  cases w.files (E.reliable.file p) <;> rfl

/-- Run alone without failures the program returns `a` in a world `w'` with the same database, having pushed `pushed`. -/
structure Yields {α : Type} (E : SyncEnv) (p : SyncAction α) (w : SyncWorld) (a : α) (w' : SyncWorld)
    (pushed : List AgentEvent) : Prop where
  run : p.run (SyncOp.handle E.reliable) w = (.ok a, w')
  pushes : (p.calls (SyncOp.handle E.reliable) w).filterMap SyncOp.pushes? = pushed
  db : w'.world.db = w.world.db

theorem Yields.bind {α β : Type} {p : SyncAction α} {f : α → SyncAction β} {w' w'' : SyncWorld}
    {a : α} {b : β} {xs ys : List AgentEvent} (hp : Yields E p w a w' xs) (hf : Yields E (f a) w' b w'' ys) :
    Yields E (p >>= f) w b w'' (xs ++ ys) := by
  constructor
  · rw [run_bind_ok _ hp.run, hf.run]
  · rw [calls_bind_ok _ hp.run, List.filterMap_append, hp.pushes, hf.pushes]
  · rw [hf.db, hp.db]

/-- What follows pushes nothing. -/
theorem Yields.bind_quiet {α β : Type} {p : SyncAction α} {f : α → SyncAction β} {w' w'' : SyncWorld}
    {a : α} {b : β} {xs : List AgentEvent} (hp : Yields E p w a w' xs) (hf : Yields E (f a) w' b w'' []) :
    Yields E (p >>= f) w b w'' xs := by
  have hyields := hp.bind hf
  rw [List.append_nil] at hyields
  exact hyields

theorem yields_pure {α : Type} (a : α) (w : SyncWorld) : Yields E (pure a) w a w [] := ⟨rfl, rfl, rfl⟩

theorem yields_performOr {α δ : Type} {o : SyncOp} {answer : o.Res → Except δ α}
    {onError : δ → SyncError} {r : o.Res} {w' : SyncWorld} {a : α} (ho : ∀ b, o ≠ .base b)
    (h : o.handle E.reliable w = (r, w')) (hr : answer r = .ok a) :
    Yields E (performOr o answer onError) w a w' o.pushes?.toList := by
  constructor
  · rw [run_performOr, h, hr]
    rfl
  · rw [calls_performOr]
    cases ho : o.pushes? <;> simp [ho]
  · have hdb := handle_db (E := E.reliable) (w := w) ho
    rw [h] at hdb
    exact hdb

theorem run_cursor (ws : WorkspaceId) (w : SyncWorld) : ∃ w',
    Yields E (d.cursor ws) w (storedCursor E d ws w.files) w' [] ∧ w'.files = w.files := by
  refine ⟨_, yields_performOr (by intro b hb; cases hb) (reliable_readToString _ w) ?_, rfl⟩
  rw [storedCursor]
  cases textOf E w.files (d.cursorPath ws) <;> rfl

theorem run_eventsAfter (ws : WorkspaceId) (w : SyncWorld) (since : Option EventId) (limit : Nat) : ∃ w',
    Yields E (eventsAfter ws since limit) w
        ((w.world.db.eventsBeyond ws
          (since.bind fun id => (w.world.db.createdAt id ws).map fun t => (t, id))).take limit) w' [] ∧
      w'.files = w.files := by
  cases since with
  | none => exact ⟨_, yields_performOr (by intro b hb; cases hb) rfl rfl, rfl⟩
  | some id =>
    have hlookup : Yields E
        (.performOr (.createdAt id ws) (fun r => r) .storage : SyncAction (Option String)) w
        (w.world.db.createdAt id ws) _ [] :=
      yields_performOr (by intro b hb; cases hb) rfl rfl
    exact ⟨_, hlookup.bind (yields_performOr (by intro b hb; cases hb) rfl rfl), rfl⟩

/-- The event among the contents. -/
def Contents.event? : Contents → Option AgentEvent
  | .json e => some e
  | .text _ => none

theorem run_replace (path : FilePath) {tmp : FilePath} (contents : Contents) (htmp : (E.file tmp).temporary)
    (w : SyncWorld) : ∃ w',
    Yields E (FilesystemDestination.replace path tmp contents) w () w' contents.event?.toList ∧
      ∀ f : File, ¬ f.temporary →
        w'.files f = Function.update w.files (E.file path) (some contents) f := by
  have hdir : Yields E (.performOr (.createDirAll path.parent) id .io : SyncAction Unit) w () _ [] :=
    yields_performOr (by intro b hb; cases hb) rfl rfl
  have hwrite : ∀ w, Yields E (.performOr (.write tmp contents) id .io : SyncAction Unit) w () _ _ :=
    fun w => yields_performOr (by intro b hb; cases hb) (reliable_write tmp contents w) rfl
  have hrename : ∀ w : SyncWorld, w.files (E.file tmp) = some contents →
      Yields E (.performOr (.rename tmp path) id .io : SyncAction Unit) w () _ _ :=
    fun w h => yields_performOr (by intro b hb; cases hb) (reliable_rename h) rfl
  have hpushes : contents.event?.toList =
      [] ++ ((SyncOp.write tmp contents).pushes?.toList ++ (SyncOp.rename tmp path).pushes?.toList) := by
    cases contents <;> rfl
  rw [hpushes]
  refine ⟨_, hdir.bind ((hwrite _).bind (hrename _ (Function.update_self _ _ _))), fun f hf => ?_⟩
  show Function.update (Function.update (Function.update w.files (E.file tmp) (some contents))
    (E.file tmp) none) (E.file path) (some contents) f = _
  have hne : f ≠ E.file tmp := fun heq => hf (heq ▸ htmp)
  by_cases hpath : f = E.file path
  · rw [hpath, Function.update_self, Function.update_self]
  · rw [Function.update_of_ne hpath, Function.update_of_ne hpath, Function.update_of_ne hne,
      Function.update_of_ne hne]

theorem run_writeEvents (ws : WorkspaceId) (batch : List AgentEvent) (w : SyncWorld) : ∃ w',
    Yields E (d.writeEvents ws batch) w () w' batch ∧
      ∀ f : File, ¬ f.temporary →
        w'.files f = overlay (fun e => E.file (d.eventPath ws e)) Contents.json batch w.files f := by
  induction batch generalizing w with
  | nil => exact ⟨w, yields_pure () w, fun f _ => rfl⟩
  | cons e rest ih =>
    obtain ⟨w₁, hyields₁, hfiles₁⟩ :=
      run_replace (d.eventPath ws e) (.json e) (temporary_eventTmp e) w
    obtain ⟨w₂, hyields₂, hfiles₂⟩ := ih w₁
    refine ⟨w₂, hyields₁.bind hyields₂, fun f hf => ?_⟩
    rw [hfiles₂ f hf, overlay_cons]
    exact overlay_congr rest (hfiles₁ f hf)

theorem run_push (ws : WorkspaceId) {batch : List AgentEvent} {last : AgentEvent} (hlast : batch.getLast? = some last)
    (w : SyncWorld) : ∃ w',
    Yields E (d.push ws batch) w (some last.id) w' batch ∧
      ∀ f : File, ¬ f.temporary → w'.files f = settle E d ws batch w.files f := by
  obtain ⟨w₁, hyields₁, hfiles₁⟩ := run_writeEvents (E := E) (d := d) ws batch w
  obtain ⟨w₂, hyields₂, hfiles₂⟩ := run_replace (E := E) (d.cursorPath ws) (.text last.id)
    temporary_cursorTmp w₁
  refine ⟨w₂, ?_, fun f hf => ?_⟩
  · rw [FilesystemDestination.push, hlast]
    apply hyields₁.bind_quiet
    apply hyields₂.bind_quiet
    exact yields_pure _ _
  · rw [hfiles₂ f hf]
    by_cases hcursor : f = E.file (d.cursorPath ws)
    · rw [hcursor, Function.update_self, settle_cursor, hlast]
      rfl
    · rw [Function.update_of_ne hcursor, settle_object hcursor, hfiles₁ f hf]

/-- One turn of the loop: nothing is left, or a batch is pushed, and the pass returns or goes on. -/
inductive Turn (E : SyncEnv) (d : FilesystemDestination) (ws : WorkspaceId) (batchSize : Nat)
    (stats : SyncStats) (w : SyncWorld) : Prop where
  | drained (stats' : SyncStats) (w' : SyncWorld) (hempty : remaining E d ws w = [])
    (hyields : ∀ n, Yields E (runOnceLoop d ws batchSize (n + 1) stats) w stats' w' [])
    (hfiles : w'.files = w.files)
  | short (stats' : SyncStats) (w' : SyncWorld) (hlength : (remaining E d ws w).length < batchSize)
    (hyields : ∀ n,
      Yields E (runOnceLoop d ws batchSize (n + 1) stats) w stats' w' (remaining E d ws w))
    (hfiles : ∀ f : File, ¬ f.temporary →
      w'.files f = settle E d ws (remaining E d ws w) w.files f)
  | full (stats' : SyncStats) (w' : SyncWorld) (last : AgentEvent)
    (hlast : ((remaining E d ws w).take batchSize).getLast? = some last)
    (hlength : batchSize ≤ (remaining E d ws w).length)
    (hrun : ∀ n, (runOnceLoop d ws batchSize (n + 1) stats).run (SyncOp.handle E.reliable) w =
      (runOnceLoop d ws batchSize n stats').run (SyncOp.handle E.reliable) w')
    (hpushes : ∀ n, ((runOnceLoop d ws batchSize (n + 1) stats).calls
        (SyncOp.handle E.reliable) w).filterMap SyncOp.pushes? =
      (remaining E d ws w).take batchSize ++
        ((runOnceLoop d ws batchSize n stats').calls
          (SyncOp.handle E.reliable) w').filterMap SyncOp.pushes?)
    (hdb : w'.world.db = w.world.db)
    (hfiles : ∀ f : File, ¬ f.temporary →
      w'.files f = settle E d ws ((remaining E d ws w).take batchSize) w.files f)

/-- The rest of a turn, once the batch is selected. -/
def afterSelect (d : FilesystemDestination) (ws : WorkspaceId) (batchSize n : Nat) (stats : SyncStats)
    (cursor : Option EventId) (batch : List AgentEvent) : SyncAction SyncStats :=
  if batch = [] then pure { stats with finalCursor := cursor }
  else d.push ws batch >>= fun newCursor =>
    if batch.length < batchSize then
      pure ⟨stats.eventsPushed + batch.length, stats.batches + 1, newCursor⟩
    else runOnceLoop d ws batchSize n
      ⟨stats.eventsPushed + batch.length, stats.batches + 1, newCursor⟩

theorem runOnceLoop_succ (n : Nat) (stats : SyncStats) :
    runOnceLoop d ws batchSize (n + 1) stats =
      d.cursor ws >>= fun cursor => eventsAfter ws cursor batchSize >>= fun batch =>
        afterSelect d ws batchSize n stats cursor batch := rfl

theorem turn (ws : WorkspaceId) (hsize : 0 < batchSize) (stats : SyncStats) (w : SyncWorld) :
    Turn E d ws batchSize stats w := by
  obtain ⟨w₁, hcursor, hfiles₁⟩ := run_cursor (E := E) (d := d) ws w
  obtain ⟨w₂, hselect, hfiles₂⟩ := run_eventsAfter (E := E) ws w₁ (storedCursor E d ws w.files) batchSize
  have hbatch : (w₁.world.db.eventsBeyond ws ((storedCursor E d ws w.files).bind fun id =>
      (w₁.world.db.createdAt id ws).map fun t => (t, id))) = remaining E d ws w := by
    rw [hcursor.db]
    rfl
  rw [hbatch] at hselect
  have hfiles : w₂.files = w.files := hfiles₂.trans hfiles₁
  have hdb : w₂.world.db = w.world.db := hselect.db.trans hcursor.db
  generalize hcursorEq : storedCursor E d ws w.files = cursor at hcursor hselect
  generalize hrem : remaining E d ws w = rem at hselect
  have hyields : ∀ n {a : SyncStats} {w' : SyncWorld} {xs : List AgentEvent},
      Yields E (afterSelect d ws batchSize n stats cursor (rem.take batchSize)) w₂ a w' xs →
        Yields E (runOnceLoop d ws batchSize (n + 1) stats) w a w' xs := by
    intro n a w' xs hrest
    rw [runOnceLoop_succ]
    exact hcursor.bind (hselect.bind hrest)
  by_cases hempty : rem = []
  · refine .drained { stats with finalCursor := cursor } w₂ (hrem.trans hempty)
      (fun n => hyields n ?_) hfiles
    rw [hempty, List.take_nil, afterSelect, if_pos rfl]
    exact yields_pure _ _
  have htake : rem.take batchSize ≠ [] := by
    intro h
    rcases List.take_eq_nil_iff.mp h with h | h
    · omega
    · exact hempty h
  obtain ⟨last, hlast⟩ : ∃ last, (rem.take batchSize).getLast? = some last :=
    ⟨_, List.getLast?_eq_some_getLast htake⟩
  obtain ⟨w₃, hpush, hfiles₃⟩ := run_push (E := E) (d := d) ws hlast w₂
  rw [hfiles] at hfiles₃
  by_cases hshort : rem.length < batchSize
  · have hall : rem.take batchSize = rem := List.take_of_length_le (le_of_lt hshort)
    rw [hall] at hpush hfiles₃
    refine .short ⟨stats.eventsPushed + rem.length, stats.batches + 1, some last.id⟩ w₃
      (hrem.symm ▸ hshort) (fun n => hyields n ?_) (hrem.symm ▸ hfiles₃)
    rw [hrem, hall, afterSelect, if_neg hempty]
    apply hpush.bind_quiet
    rw [if_pos hshort]
    exact yields_pure _ _
  · have hfull : ¬ (rem.take batchSize).length < batchSize := by
      rw [List.length_take]
      omega
    refine .full ⟨stats.eventsPushed + (rem.take batchSize).length, stats.batches + 1, some last.id⟩ w₃
      last (hrem.symm ▸ hlast) (hrem.symm ▸ not_lt.mp hshort) (fun n => ?_) (fun n => ?_)
      (hpush.db.trans hdb) (hrem.symm ▸ hfiles₃)
    · rw [runOnceLoop_succ, run_bind_ok _ hcursor.run, run_bind_ok _ hselect.run, afterSelect,
        if_neg htake, run_bind_ok _ hpush.run, if_neg hfull]
    · rw [runOnceLoop_succ, calls_bind_ok _ hcursor.run, calls_bind_ok _ hselect.run, afterSelect,
        if_neg htake, calls_bind_ok _ hpush.run, if_neg hfull, List.filterMap_append,
        List.filterMap_append, List.filterMap_append, hcursor.pushes, hselect.pushes, hpush.pushes, hrem]
      rfl

end Reliable

/-! ### After a full batch -/

section Full

variable {w w' : SyncWorld} {last : AgentEvent} {pre post l : List AgentEvent}

theorem not_temporary_cursorPath : ¬ (E.file (d.cursorPath ws)).temporary := by
  rw [File.temporary, SyncEnv.file, cursorPath_name]
  show ¬ ".tmp".toList <:+ "_cursor.txt".toList
  decide

theorem storedCursor_of_text {files : File → Option Contents} {id : EventId}
    (h : files (E.file (d.cursorPath ws)) = some (.text id)) :
    storedCursor E d ws files = if trimmed id = "" then none else some (trimmed id) := by
  rw [storedCursor, textOf, h, Option.map_some, Option.bind_some]
  rfl

theorem getLast?_take_split (h : (l.take batchSize).getLast? = some last) :
    ∃ pre, l = pre ++ last :: l.drop batchSize := by
  obtain ⟨pre, hpre⟩ := List.getLast?_eq_some_iff.mp h
  refine ⟨pre, ?_⟩
  conv_lhs => rw [← List.take_append_drop batchSize l, hpre]
  simp

theorem mem_remaining {e : AgentEvent} (h : e ∈ remaining E d ws w) :
    e ∈ w.world.db.stored ∧ e.workspaceId = ws :=
  ⟨(mem_eventsBeyond.mp h).1, (mem_eventsBeyond.mp h).2.1⟩

/-- A cursor that is read as it was written leads to what comes after it. -/
theorem remaining_of_kept (hsplit : remaining E d ws w = pre ++ last :: post)
    (hdb : w'.world.db = w.world.db)
    (hcursor : w'.files (E.file (d.cursorPath ws)) = some (.text last.id)) (hkept : KeptId last) :
    remaining E d ws w' = post := by
  obtain ⟨hstored, hws⟩ := mem_remaining (show last ∈ remaining E d ws w by rw [hsplit]; simp)
  have hcreated : w.world.db.createdAt last.id ws = some last.createdAt :=
    createdAt_eq_some.mpr ⟨last, hstored, rfl, hws, rfl⟩
  have hposition : cursorPosition E d ws w' = some last.position := by
    rw [cursorPosition, storedCursor_of_text hcursor, hkept.1, if_neg hkept.2, hdb, Option.bind_some,
      hcreated]
    rfl
  rw [remaining, hposition, hdb]
  exact eventsBeyond_suffix hsplit

/-- A cursor that is read as something else leads to something else. -/
theorem kept_of_head (hsplit : remaining E d ws w = pre ++ last :: post)
    (hdb : w'.world.db = w.world.db)
    (hcursor : w'.files (E.file (d.cursorPath ws)) = some (.text last.id))
    (hhead : (remaining E d ws w').head? = post.head?) : KeptId last := by
  obtain ⟨hstored, hws⟩ := mem_remaining (show last ∈ remaining E d ws w by rw [hsplit]; simp)
  by_contra hnot
  have hne := head_ne_of_position_ne (cursorPosition E d ws w') hstored hws ?_
  · apply hne
    rw [eventsBeyond_suffix hsplit, ← hhead, remaining, hdb]
  · intro p hp
    rw [cursorPosition, storedCursor_of_text hcursor, hdb] at hp
    split at hp
    · cases hp
    · rename_i hblank
      obtain ⟨t, ht, rfl⟩ := Option.map_eq_some_iff.mp hp
      obtain ⟨x, hx, hid, hxws, rfl⟩ := createdAt_eq_some.mp ht
      refine ⟨x, hx, hxws, ?_, Prod.ext rfl hid⟩
      rintro rfl
      apply hnot
      rw [← hid] at hblank
      exact ⟨hid.symm, hblank⟩

theorem settle_full (hlast : l.getLast? = some last)
    (hfiles : ∀ f : File, ¬ f.temporary → w'.files f = settle E d ws l w.files f) :
    w'.files (E.file (d.cursorPath ws)) = some (.text last.id) := by
  rw [hfiles _ not_temporary_cursorPath, settle_cursor, hlast]
  rfl

end Full

/-! ### A pass that nothing interrupts -/

theorem getLast?_take_getElem? {l : List AgentEvent} {last : AgentEvent} (hsize : 0 < batchSize)
    (hlast : (l.take batchSize).getLast? = some last) (hlength : batchSize ≤ l.length) :
    l[batchSize - 1]? = some last := by
  rw [List.getLast?_eq_getElem?, List.length_take, Nat.min_eq_left hlength,
    List.getElem?_take_of_lt (by omega)] at hlast
  exact hlast

theorem yields_of_endsKept (hsize : 0 < batchSize) (w : SyncWorld) (stats : SyncStats)
    (hkept : EndsKept batchSize (remaining E d ws w)) :
    ∃ turns stats' w',
      Yields E (runOnceLoop d ws batchSize turns stats) w stats' w' (remaining E d ws w) ∧
      ∀ f : File, ¬ f.temporary → w'.files f = settle E d ws (remaining E d ws w) w.files f := by
  induction hn : (remaining E d ws w).length using Nat.strong_induction_on generalizing w stats with
  | _ n ih =>
    cases turn (E := E) (d := d) ws hsize stats w with
    | drained stats' w' hempty hyields hfiles =>
      rw [hempty]
      exact ⟨1, stats', w', hyields 0, fun f _ => by rw [hfiles, settle_nil]⟩
    | short stats' w' hlength hyields hfiles => exact ⟨1, stats', w', hyields 0, hfiles⟩
    | full stats' w' last hlast hlength hrun hpushes hdb hfiles =>
      obtain ⟨hend, hrest⟩ := (endsKept_iff hsize hlength).mp hkept
      obtain ⟨pre, hsplit⟩ := getLast?_take_split hlast
      have hremaining : remaining E d ws w' = (remaining E d ws w).drop batchSize :=
        remaining_of_kept hsplit hdb (settle_full hlast hfiles)
          (hend last (getLast?_take_getElem? hsize hlast hlength))
      rw [← hremaining] at hrest
      have hless : (remaining E d ws w').length < n := by
        rw [hremaining, List.length_drop]
        omega
      obtain ⟨turns, stats'', w'', hyields, hfiles'⟩ := ih _ hless w' stats' hrest rfl
      refine ⟨turns + 1, stats'', w'', ⟨?_, ?_, hyields.db.trans hdb⟩, fun f hf => ?_⟩
      · rw [hrun, hyields.run]
      · rw [hpushes, hyields.pushes, hremaining, List.take_append_drop]
      · rw [hfiles' f hf, settle_append (hfiles f hf), hremaining, List.take_append_drop]

/-- The first event a pass pushes is the first that remains. -/
theorem head_pushed (hsize : 0 < batchSize) {turns : Nat} {w w' : SyncWorld} {stats stats' : SyncStats}
    (hrun : (runOnceLoop d ws batchSize turns stats).run (SyncOp.handle E.reliable) w = (.ok stats', w')) :
    (((runOnceLoop d ws batchSize turns stats).calls (SyncOp.handle E.reliable) w).filterMap
      SyncOp.pushes?).head? = (remaining E d ws w).head? := by
  cases turns with
  | zero => cases hrun
  | succ n =>
    cases turn (E := E) (d := d) ws hsize stats w with
    | drained stats' w' hempty hyields => rw [(hyields n).pushes, hempty]
    | short stats' w' hlength hyields => rw [(hyields n).pushes]
    | full stats' w' last hlast hlength hrun hpushes =>
      rw [hpushes]
      obtain ⟨m, rfl⟩ : ∃ m, batchSize = m + 1 := ⟨batchSize - 1, by omega⟩
      cases hremaining : remaining E d ws w with
      | nil =>
        rw [hremaining, List.take_nil] at hlast
        cases hlast
      | cons e rest => rfl

theorem endsKept_of_pushed (hsize : 0 < batchSize) {turns : Nat} {w w' : SyncWorld}
    {stats stats' : SyncStats}
    (hrun : (runOnceLoop d ws batchSize turns stats).run (SyncOp.handle E.reliable) w = (.ok stats', w'))
    (hpushed : ((runOnceLoop d ws batchSize turns stats).calls (SyncOp.handle E.reliable) w).filterMap
      SyncOp.pushes? = remaining E d ws w) : EndsKept batchSize (remaining E d ws w) := by
  induction turns generalizing w stats with
  | zero => cases hrun
  | succ n ih =>
    cases turn (E := E) (d := d) ws hsize stats w with
    | drained stats₁ w₁ hempty =>
      rw [hempty]
      exact endsKept_of_short hsize
    | short stats₁ w₁ hlength => exact endsKept_of_short hlength
    | full stats₁ w₁ last hlast hlength hnext hpushes hdb hfiles =>
      rw [hnext] at hrun
      rw [hpushes] at hpushed
      have hrest := List.append_cancel_left
        (hpushed.trans (List.take_append_drop batchSize (remaining E d ws w)).symm)
      obtain ⟨pre, hsplit⟩ := getLast?_take_split hlast
      have hhead := head_pushed hsize hrun
      rw [hrest] at hhead
      have hlastKept : KeptId last := kept_of_head hsplit hdb (settle_full hlast hfiles) hhead.symm
      have hremaining : remaining E d ws w₁ = (remaining E d ws w).drop batchSize :=
        remaining_of_kept hsplit hdb (settle_full hlast hfiles) hlastKept
      rw [endsKept_iff hsize hlength, ← hremaining]
      refine ⟨fun e he => ?_, ih hrun (hrest.trans hremaining.symm)⟩
      rw [getLast?_take_getElem? hsize hlast hlength] at he
      cases he
      exact hlastKept

/-! ### A pass that is cut off -/

/-- The world is `m` full batches on from `w₀`, whatever else has been written: what remains, laid over the files, settles as it would have from `w₀`. -/
structure ResumableAt (E : SyncEnv) (d : FilesystemDestination) (ws : WorkspaceId) (batchSize : Nat)
    (w₀ : SyncWorld) (m : Nat) (w : SyncWorld) : Prop where
  db : w.world.db = w₀.world.db
  rest : remaining E d ws w = (remaining E d ws w₀).drop (m * batchSize)
  settles : ∀ f : File, ¬ f.temporary →
    settle E d ws ((remaining E d ws w₀).drop (m * batchSize)) w.files f =
      settle E d ws (remaining E d ws w₀) w₀.files f

/-- In the batch after the `m`-th, the events `todo` are still to be written. -/
structure PushingAt (E : SyncEnv) (d : FilesystemDestination) (ws : WorkspaceId) (batchSize : Nat)
    (w₀ : SyncWorld) (m : Nat) (batch todo : List AgentEvent) (written : Bool) (w : SyncWorld) : Prop where
  resumable : ResumableAt E d ws batchSize w₀ m w
  batch_eq : batch = ((remaining E d ws w₀).drop (m * batchSize)).take batchSize
  todo_suffix : todo <:+ batch
  overlaid : ∀ f : File, ¬ f.temporary → f ≠ E.file (d.cursorPath ws) →
    overlay (fun e => E.file (d.eventPath ws e)) Contents.json
        (todo ++ (remaining E d ws w₀).drop ((m + 1) * batchSize)) w.files f =
      settle E d ws (remaining E d ws w₀) w₀.files f
  temporary : written = true → ∀ path tmp contents,
    SyncPass.item d ws batch todo = some (path, tmp, contents) → w.files (E.file tmp) = some contents

/-- What a pass that began in a resumable world knows of the world. -/
def ResumeInv (E : SyncEnv) (d : FilesystemDestination) (ws : WorkspaceId) (batchSize : Nat)
    (w₀ : SyncWorld) (p : SyncPass) (w : SyncWorld) : Prop :=
  p.workspaceId = ws ∧ p.batchSize = batchSize ∧
    match p.phase with
    | .idle => False
    | .start | .failed => ∃ m, ResumableAt E d ws batchSize w₀ m w
    | .read id => (∃ m, ResumableAt E d ws batchSize w₀ m w) ∧ storedCursor E d ws w.files = some id
    | .located since =>
      (∃ m, ResumableAt E d ws batchSize w₀ m w) ∧ cursorPosition E d ws w = since
    | .pushing batch todo written => ∃ m, PushingAt E d ws batchSize w₀ m batch todo written w
    | .drained => True

section Crash

variable {w₀ w w' : SyncWorld} {m : Nat} {batch todo : List AgentEvent} {written : Bool} {p : SyncPass}

theorem remaining_congr (ws : WorkspaceId) (hdb : w'.world.db = w.world.db)
    (hfiles : w'.files (E.file (d.cursorPath ws)) = w.files (E.file (d.cursorPath ws))) :
    storedCursor E d ws w'.files = storedCursor E d ws w.files ∧
      cursorPosition E d ws w' = cursorPosition E d ws w ∧ remaining E d ws w' = remaining E d ws w := by
  have hcursor : storedCursor E d ws w'.files = storedCursor E d ws w.files := by
    rw [storedCursor, storedCursor, textOf, textOf, hfiles]
  have hposition : cursorPosition E d ws w' = cursorPosition E d ws w := by
    rw [cursorPosition, cursorPosition, hcursor, hdb]
  exact ⟨hcursor, hposition, by rw [remaining, remaining, hposition, hdb]⟩

theorem settle_congr {l : List AgentEvent} {files files' : File → Option Contents} {f : File}
    (h : files' f = files f) : settle E d ws l files' f = settle E d ws l files f :=
  have hnil : files' f = settle E d ws [] files f := h.trans settle_nil.symm
  settle_append hnil

theorem ResumableAt.same (h : ResumableAt E d ws batchSize w₀ m w) (hdb : w'.world.db = w.world.db)
    (hfiles : ∀ f : File, ¬ f.temporary → w'.files f = w.files f) :
    ResumableAt E d ws batchSize w₀ m w' := by
  constructor
  · rw [hdb, h.db]
  · rw [(remaining_congr ws hdb (hfiles _ not_temporary_cursorPath)).2.2, h.rest]
  · intro f hf
    rw [settle_congr (hfiles f hf), h.settles f hf]

theorem PushingAt.same (h : PushingAt E d ws batchSize w₀ m batch todo written w)
    (hdb : w'.world.db = w.world.db) (hfiles : ∀ f : File, ¬ f.temporary → w'.files f = w.files f)
    {written' : Bool}
    (htemporary : written' = true → ∀ path tmp contents,
      SyncPass.item d ws batch todo = some (path, tmp, contents) →
        w'.files (E.file tmp) = some contents) :
    PushingAt E d ws batchSize w₀ m batch todo written' w' := by
  refine ⟨h.resumable.same hdb hfiles, h.batch_eq, h.todo_suffix, fun f hf hcursor => ?_, htemporary⟩
  rw [overlay_congr _ (hfiles f hf), h.overlaid f hf hcursor]

theorem ResumeInv.resumable (h : ResumeInv E d ws batchSize w₀ p w) (hphase : p.phase ≠ .drained) :
    ∃ m, ResumableAt E d ws batchSize w₀ m w := by
  obtain ⟨-, -, h⟩ := h
  cases hp : p.phase with
  | idle =>
    rw [hp] at h
    exact h.elim
  | start | failed =>
    rw [hp] at h
    exact h
  | read | located =>
    rw [hp] at h
    exact h.1
  | pushing =>
    rw [hp] at h
    obtain ⟨m, hm⟩ := h
    exact ⟨m, hm.resumable⟩
  | drained => exact absurd hp hphase

/-- A step that fails leaves the files as they are. -/
theorem ResumeInv.fail (h : ResumeInv E d ws batchSize w₀ p w) (hphase : p.phase ≠ .drained)
    (hdb : w'.world.db = w.world.db) (hfiles : w'.files = w.files) :
    ResumeInv E d ws batchSize w₀ (p.at_ .failed) w' := by
  obtain ⟨m, hm⟩ := h.resumable hphase
  exact ⟨h.1, h.2.1, m, hm.same hdb fun f _ => by rw [hfiles]⟩

theorem item_temporary {path tmp : FilePath} {contents : Contents}
    (h : SyncPass.item d ws batch todo = some (path, tmp, contents)) : (E.file tmp).temporary := by
  cases todo with
  | cons e rest =>
    rw [(item_cons h).2.1]
    exact temporary_eventTmp e
  | nil =>
    obtain ⟨last, -, -, rfl, -⟩ := item_nil h
    exact temporary_cursorTmp

/-- The object of the next event is written: whether it was there before makes no difference. -/
theorem PushingAt.object {e : AgentEvent} {rest : List AgentEvent}
    (h : PushingAt E d ws batchSize w₀ m batch (e :: rest) written w) (hdb : w'.world.db = w.world.db)
    (hfiles : ∀ f : File, ¬ f.temporary →
      w'.files f = Function.update w.files (E.file (d.eventPath ws e)) (some (.json e)) f) :
    PushingAt E d ws batchSize w₀ m batch rest false w' := by
  have hcursor : w'.files (E.file (d.cursorPath ws)) = w.files (E.file (d.cursorPath ws)) := by
    rw [hfiles _ not_temporary_cursorPath, Function.update_of_ne (eventPath_ne_cursorPath _ _ _).symm]
  have he : e ∈ (remaining E d ws w₀).drop (m * batchSize) := by
    have hbatch := h.todo_suffix.subset List.mem_cons_self
    rw [h.batch_eq] at hbatch
    exact List.mem_of_mem_take hbatch
  refine ⟨⟨hdb.trans h.resumable.db, ?_, fun f hf => ?_⟩, h.batch_eq,
    (List.suffix_cons e rest).trans h.todo_suffix, fun f hf hne => ?_, fun hwritten => ?_⟩
  · rw [(remaining_congr ws hdb hcursor).2.2, h.resumable.rest]
  · rw [← h.resumable.settles f hf]
    by_cases hne : f = E.file (d.cursorPath ws)
    · rw [hne, settle_congr hcursor]
    · rw [settle_object hne, settle_object hne, overlay_congr _ (hfiles f hf),
        overlay_absorb he]
  · rw [overlay_congr _ (hfiles f hf), ← h.overlaid f hf hne]
    rfl
  · cases hwritten

/-- The cursor of a full batch is written: one batch further on. -/
theorem PushingAt.cursor {last : AgentEvent} (hsize : 0 < batchSize)
    (hkept : EndsKept batchSize (remaining E d ws w₀))
    (h : PushingAt E d ws batchSize w₀ m batch [] written w) (hlast : batch.getLast? = some last)
    (hfull : ¬ batch.length < batchSize) (hdb : w'.world.db = w.world.db)
    (hfiles : ∀ f : File, ¬ f.temporary →
      w'.files f = Function.update w.files (E.file (d.cursorPath ws)) (some (.text last.id)) f) :
    ResumableAt E d ws batchSize w₀ (m + 1) w' := by
  have hbatch := h.batch_eq
  generalize hrest : (remaining E d ws w₀).drop (m * batchSize) = rest at hbatch
  have hdrop : (remaining E d ws w₀).drop ((m + 1) * batchSize) = rest.drop batchSize := by
    rw [← hrest, List.drop_drop, Nat.succ_mul]
  rw [hbatch] at hlast hfull
  have hlength : batchSize ≤ rest.length := by
    rw [List.length_take] at hfull
    omega
  have hcursor : w'.files (E.file (d.cursorPath ws)) = some (.text last.id) := by
    rw [hfiles _ not_temporary_cursorPath, Function.update_self]
  have hlastKept : KeptId last := by
    have hget := getLast?_take_getElem? hsize hlast hlength
    rw [← hrest, List.getElem?_drop] at hget
    obtain ⟨hlt, -⟩ := List.getElem?_eq_some_iff.mp hget
    refine hkept _ hlt ⟨m + 1, ?_⟩ last hget
    rw [Nat.mul_succ, Nat.mul_comm batchSize m]
    omega
  obtain ⟨pre, hsplit⟩ := getLast?_take_split hlast
  constructor
  · rw [hdb, h.resumable.db]
  · rw [hdrop]
    exact remaining_of_kept ((h.resumable.rest.trans hrest).trans hsplit) hdb hcursor hlastKept
  · intro f hf
    by_cases hne : f = E.file (d.cursorPath ws)
    · subst hne
      have hsettled : w'.files (E.file (d.cursorPath ws)) =
          settle E d ws (rest.take batchSize) w.files (E.file (d.cursorPath ws)) := by
        rw [hcursor, settle_cursor, hlast]
        rfl
      rw [hdrop, settle_append hsettled, List.take_append_drop, ← hrest, h.resumable.settles _ hf]
    · have hsame : w'.files f = w.files f := by
        rw [hfiles f hf, Function.update_of_ne hne]
      rw [settle_object hne, overlay_congr _ hsame]
      exact h.overlaid f hf hne

theorem parse_handle (ws : WorkspaceId) (w : SyncWorld) :
    (∃ err, parseCursor ((SyncOp.readToString (d.cursorPath ws)).handle E w).1 = .error err) ∨
      parseCursor ((SyncOp.readToString (d.cursorPath ws)).handle E w).1 =
        .ok (storedCursor E d ws w.files) := by
  rcases handle_readToString (E := E) (w := w) (d.cursorPath ws) with
    ⟨message, hr⟩ | ⟨hnone, hr⟩ | ⟨contents, hfile, hr⟩
  · rw [hr]
    exact Or.inl ⟨_, rfl⟩
  · rw [hr, storedCursor, textOf, hnone]
    exact Or.inr rfl
  · rw [hr, storedCursor, textOf, hfile, Option.map_some, Option.bind_some, parseCursor]
    exact Or.inr rfl

/-- An operation that touches no file keeps the world resumable, and what is read of it. -/
theorem resumable_quiet {o : SyncOp} (ho : ∀ b, o ≠ .base b) (hfiles : o.touches = false)
    (h : ∃ m, ResumableAt E d ws batchSize w₀ m w) :
    (∃ m, ResumableAt E d ws batchSize w₀ m (o.handle E w).2) ∧
      storedCursor E d ws (o.handle E w).2.files = storedCursor E d ws w.files ∧
      cursorPosition E d ws (o.handle E w).2 = cursorPosition E d ws w := by
  obtain ⟨m, hm⟩ := h
  have hsame : (o.handle E w).2.files = w.files := handle_files hfiles
  obtain ⟨hcursor, hposition, -⟩ := remaining_congr (E := E) (d := d) ws
    (handle_db (E := E) (w := w) ho) (congrFun hsame _)
  exact ⟨⟨m, hm.same (handle_db ho) fun f _ => congrFun hsame f⟩, hcursor, hposition⟩

section Steps

variable (h : ResumeInv E d ws batchSize w₀ p w)
include h

theorem ResumeInv.readCursor (hphase : p.phase = .start) :
    ResumeInv E d ws batchSize w₀
      (p.at_ (SyncPass.afterCursor
        (parseCursor ((SyncOp.readToString (d.cursorPath ws)).handle E w).1)))
      ((SyncOp.readToString (d.cursorPath ws)).handle E w).2 := by
  obtain ⟨hws, hsize, hstart⟩ := h
  rw [hphase] at hstart
  obtain ⟨hm, hcursor, hposition⟩ :=
    resumable_quiet (E := E) (o := .readToString (d.cursorPath ws)) (by intro b hb; cases hb) rfl hstart
  refine ⟨hws, hsize, ?_⟩
  rw [SyncPass.at_phase]
  rcases parse_handle (E := E) (d := d) ws w with ⟨err, hr⟩ | hr
  · rw [hr]
    exact hm
  · rw [hr]
    cases hstored : storedCursor E d ws w.files with
    | none =>
      refine ⟨hm, hposition.trans ?_⟩
      rw [cursorPosition, hstored]
      rfl
    | some id => exact ⟨hm, hcursor.trans hstored⟩

theorem ResumeInv.lookUp {id : EventId} (hphase : p.phase = .read id) :
    ResumeInv E d ws batchSize w₀ (p.next (.createdAt id ws) ((SyncOp.createdAt id ws).handle E w).1)
      ((SyncOp.createdAt id ws).handle E w).2 := by
  obtain ⟨hws, hsize, hread⟩ := h
  rw [hphase] at hread
  obtain ⟨hm, -, hposition⟩ :=
    resumable_quiet (E := E) (o := .createdAt id ws) (by intro b hb; cases hb) rfl hread.1
  have hlookup : cursorPosition E d ws w = (w.world.db.createdAt id ws).map fun t => (t, id) := by
    rw [cursorPosition, hread.2]
    rfl
  rcases query_cases (E := E) (w := w) (·.createdAt id ws) with hr | hr
  · rw [show ((SyncOp.createdAt id ws).handle E w).1 = _ from hr]
    exact ⟨hws, hsize, hm⟩
  · rw [show ((SyncOp.createdAt id ws).handle E w).1 = _ from hr]
    exact ⟨hws, hsize, hm, hposition.trans hlookup⟩

theorem ResumeInv.select {since : Option Position} (hphase : p.phase = .located since) :
    ResumeInv E d ws batchSize w₀
      (p.at_ (SyncPass.afterBatch ((SyncOp.eventsAfter ws since batchSize).handle E w).1))
      ((SyncOp.eventsAfter ws since batchSize).handle E w).2 := by
  obtain ⟨hws, hsize, hlocated⟩ := h
  rw [hphase] at hlocated
  obtain ⟨⟨m, hm⟩, hposition⟩ := hlocated
  have hfiles : ((SyncOp.eventsAfter ws since batchSize).handle E w).2.files = w.files := handle_files rfl
  have hm' := hm.same (handle_db (E := E) (o := .eventsAfter ws since batchSize) (by intro b hb; cases hb))
    fun f _ => congrFun hfiles f
  refine ⟨hws, hsize, ?_⟩
  rw [SyncPass.at_phase]
  rcases query_cases (E := E) (w := w) fun db => (db.eventsBeyond ws since).take batchSize with hr | hr
  · rw [show ((SyncOp.eventsAfter ws since batchSize).handle E w).1 = _ from hr]
    exact ⟨m, hm'⟩
  · have hanswer : ((SyncOp.eventsAfter ws since batchSize).handle E w).1 =
        .ok ((remaining E d ws w).take batchSize) := by
      rw [remaining, hposition]
      exact hr
    rw [hanswer]
    cases hbatch : (remaining E d ws w).take batchSize with
    | nil => trivial
    | cons e rest =>
      rw [hm.rest] at hbatch
      refine ⟨m, hm', hbatch.symm, List.suffix_refl _, fun f hf hne => ?_, fun hwritten => ?_⟩
      · rw [← hbatch, Nat.succ_mul, ← List.drop_drop, List.take_append_drop, ← settle_object hne]
        exact hm'.settles f hf
      · cases hwritten

theorem ResumeInv.pushing (hphase : p.phase = .pushing batch todo written) :
    ∃ m, PushingAt E d ws batchSize w₀ m batch todo written w := by
  have hpushing := h.2.2
  rw [hphase] at hpushing
  exact hpushing

theorem ResumeInv.createDir {parent : String} (hphase : p.phase = .pushing batch todo false) :
    ResumeInv E d ws batchSize w₀
      (p.next (.createDirAll parent) ((SyncOp.createDirAll parent).handle E w).1)
      ((SyncOp.createDirAll parent).handle E w).2 := by
  obtain ⟨m, hm⟩ := h.pushing hphase
  have hfiles : ((SyncOp.createDirAll parent).handle E w).2.files = w.files := handle_files rfl
  have hdb : ((SyncOp.createDirAll parent).handle E w).2.world.db = w.world.db :=
    handle_db (by intro b hb; cases hb)
  rw [SyncPass.next]
  cases ((SyncOp.createDirAll parent).handle E w).1 with
  | error err => exact h.fail (by rw [hphase]; exact SyncPhase.noConfusion) hdb hfiles
  | ok u =>
    refine ⟨h.1, h.2.1, ?_⟩
    rw [SyncPass.unlessFailed, SyncPass.at_phase, hphase]
    exact ⟨m, hm.same hdb (fun f _ => congrFun hfiles f) fun hwritten => by cases hwritten⟩

theorem ResumeInv.writeTmp {path tmp : FilePath} {contents : Contents}
    (hphase : p.phase = .pushing batch todo false)
    (hitem : SyncPass.item d ws batch todo = some (path, tmp, contents)) :
    ResumeInv E d ws batchSize w₀ (p.next (.write tmp contents) ((SyncOp.write tmp contents).handle E w).1)
      ((SyncOp.write tmp contents).handle E w).2 := by
  obtain ⟨m, hm⟩ := h.pushing hphase
  have hdb : ((SyncOp.write tmp contents).handle E w).2.world.db = w.world.db :=
    handle_db (by intro b hb; cases hb)
  rw [SyncPass.next]
  rcases handle_write (E := E) (w := w) tmp contents with ⟨herr, hfiles⟩ | ⟨hok, hfiles⟩
  · rw [SyncPass.next_failed herr]
    exact h.fail (by rw [hphase]; exact SyncPhase.noConfusion) hdb hfiles
  · refine ⟨?_, ?_, ?_⟩
    · rw [hok]
      exact h.1
    · rw [hok]
      exact h.2.1
    rw [hok, SyncPass.unlessFailed, SyncPass.at_phase, hphase, SyncPass.afterWrite]
    refine ⟨m, hm.same hdb (fun f hf => ?_) fun _ path' tmp' contents' hitem' => ?_⟩
    · have hne : f ≠ E.file tmp := fun heq => hf (heq ▸ item_temporary hitem)
      rw [hfiles, Function.update_of_ne hne]
    · rw [hitem, Option.some.injEq, Prod.mk.injEq, Prod.mk.injEq] at hitem'
      rw [hfiles, ← hitem'.2.1, ← hitem'.2.2, Function.update_self]

theorem ResumeInv.renameTmp (hpositive : 0 < batchSize)
    (hkept : EndsKept batchSize (remaining E d ws w₀)) {path tmp : FilePath} {contents : Contents}
    (hphase : p.phase = .pushing batch todo true)
    (hitem : SyncPass.item d ws batch todo = some (path, tmp, contents)) :
    ResumeInv E d ws batchSize w₀ (p.next (.rename tmp path) ((SyncOp.rename tmp path).handle E w).1)
      ((SyncOp.rename tmp path).handle E w).2 := by
  obtain ⟨m, hm⟩ := h.pushing hphase
  have hdb : ((SyncOp.rename tmp path).handle E w).2.world.db = w.world.db :=
    handle_db (by intro b hb; cases hb)
  rw [SyncPass.next]
  rcases handle_rename (E := E) (w := w) tmp path with ⟨herr, hfiles⟩ | ⟨hok, found, hfound, hfiles⟩
  · rw [SyncPass.next_failed herr]
    exact h.fail (by rw [hphase]; exact SyncPhase.noConfusion) hdb hfiles
  · -- the temporary file holds what this pass wrote
    rw [hm.temporary rfl path tmp contents hitem, Option.some.injEq] at hfound
    subst hfound
    have hnew : ∀ f : File, ¬ f.temporary → ((SyncOp.rename tmp path).handle E w).2.files f =
        Function.update w.files (E.file path) (some contents) f := by
      intro f hf
      have hne : f ≠ E.file tmp := fun heq => hf (heq ▸ item_temporary hitem)
      rw [hfiles]
      by_cases hpath : f = E.file path
      · rw [hpath, Function.update_self, Function.update_self]
      · rw [Function.update_of_ne hpath, Function.update_of_ne hpath, Function.update_of_ne hne]
    rw [hok, SyncPass.unlessFailed, hphase]
    refine ⟨h.1, h.2.1, ?_⟩
    rw [SyncPass.at_phase]
    cases todo with
    | cons e rest =>
      obtain ⟨rfl, rfl, rfl⟩ := item_cons hitem
      exact ⟨m, hm.object hdb hnew⟩
    | nil =>
      obtain ⟨last, hlast, rfl, rfl, rfl⟩ := item_nil hitem
      rw [SyncPass.afterRename, h.2.1]
      by_cases hshort : batch.length < batchSize
      · rw [if_pos hshort]
        trivial
      · rw [if_neg hshort]
        exact ⟨m + 1, hm.cursor hpositive hkept hlast hshort hdb hnew⟩

/-- Every step of a pass, failed or not, keeps the world resumable. -/
theorem ResumeInv.call (hpositive : 0 < batchSize) (hkept : EndsKept batchSize (remaining E d ws w₀))
    (o : SyncOp) (hallowed : p.allowed d o) :
    ResumeInv E d ws batchSize w₀ (p.next o (o.handle E w).1) (o.handle E w).2 := by
  have hws := h.1
  have hsize := h.2.1
  cases o with
  | base b =>
    have hidle := h.2.2
    rw [show p.phase = .idle from hallowed] at hidle
    exact hidle.elim
  | readToString path =>
    obtain ⟨hphase, rfl⟩ := hallowed
    rw [hws]
    exact h.readCursor hphase
  | createdAt id ws' =>
    obtain ⟨hphase, rfl⟩ := hallowed
    rw [hws]
    exact h.lookUp hphase
  | eventsAfter ws' since limit =>
    obtain ⟨hphase, rfl, rfl⟩ := hallowed
    rw [hws, hsize]
    exact h.select hphase
  | createDirAll parent =>
    obtain ⟨batch, todo, hphase⟩ := hallowed
    exact h.createDir hphase
  | write tmp contents =>
    obtain ⟨batch, todo, path, hphase, hitem⟩ := hallowed
    rw [hws] at hitem
    exact h.writeTmp hphase hitem
  | rename tmp path =>
    obtain ⟨batch, todo, contents, hphase, hitem⟩ := hallowed
    rw [hws] at hitem
    exact h.renameTmp hpositive hkept hphase hitem

end Steps

/-- Wherever a pass is cut off before it returns, the world is resumable. -/
theorem crashed_resumable (hsize : 0 < batchSize) (hkept : EndsKept batchSize (remaining E d ws w₀))
    (hcrashed : Crashed E d ws batchSize w w') (h : ∃ m, ResumableAt E d ws batchSize w₀ m w) :
    ∃ m, ResumableAt E d ws batchSize w₀ m w' := by
  induction hcrashed with
  | none w => exact h
  | @crash w w' turns k hcut hrest ih =>
    apply ih
    have hsafe : Safe (syncMonitor d)
        (ReturnsIn (.begin ws batchSize) fun (_ : SyncStats) phase => phase = .drained)
        (.begin ws batchSize) (runOnce d ws batchSize turns) := runOnceLoop_safe turns rfl _
    obtain ⟨l, hinv, hleft⟩ := steps_joint (SyncOp.handle E) (ResumeInv E d ws batchSize w₀)
      (fun l w o hinv hallowed => hinv.call hsize hkept o hallowed) hsafe ⟨rfl, rfl, h⟩ k
    refine hinv.resumable fun hdrained => ?_
    -- a pass that has drained has nothing left to call
    cases hprog : (steps (SyncOp.handle E) k (runOnce d ws batchSize turns) w).1 with
    | done r =>
      rw [hprog] at hcut hleft
      cases r with
      | ok stats => cases hcut
      | error err => exact hleft hdrained
    | call o next =>
      rw [hprog] at hleft
      have hallowed : l.allowed d o := hleft.1
      cases o with
      | base b =>
        rw [SyncPass.allowed, hdrained] at hallowed
        cases hallowed
      | _ => exact not_allowed hdrained (Or.inr rfl) (fun b hb => SyncOp.noConfusion hb) hallowed

end Crash

/-! ### Crash and resume -/

theorem endsKept_drop {l : List AgentEvent} (h : EndsKept batchSize l) (m : Nat) :
    EndsKept batchSize (l.drop (m * batchSize)) := by
  intro i hi hdvd e he
  rw [List.length_drop] at hi
  rw [List.getElem?_drop] at he
  refine h (m * batchSize + i) (by omega) ?_ e he
  rw [Nat.add_assoc]
  exact Nat.dvd_add (Nat.dvd_mul_left _ _) hdvd

/-- Without crashes an event is pushed once just when no batch ends with an id that is not read back. -/
theorem pushedOnce_iff (hsize : 0 < batchSize) (w : SyncWorld) :
    (∃ final, Finishes E d ws batchSize w final (remaining E d ws w)) ↔
      EndsKept batchSize (remaining E d ws w) := by
  constructor
  · intro h
    obtain ⟨final, turns, stats, hrun, hpushed⟩ := h
    exact endsKept_of_pushed hsize hrun hpushed
  · intro h
    obtain ⟨turns, stats, final, hyields, -⟩ := yields_of_endsKept hsize w ⟨0, 0, none⟩ h
    exact ⟨final, turns, stats, hyields.run, hyields.pushes⟩

/-- **Crash and resume.** A pass pushes each event once and, through any crashes, ends in the files that a pass without them ends in, exactly when the events that end a full batch have an id that is read back from the cursor as it was written. -/
theorem crash_resume_iff (E : SyncEnv) (d : FilesystemDestination) (ws : WorkspaceId) {batchSize : Nat}
    (hsize : 0 < batchSize) (w : SyncWorld) :
    (∃ final, CrashResumes E d ws batchSize w final) ↔ EndsKept batchSize (remaining E d ws w) := by
  constructor
  · intro h
    obtain ⟨final, hresumes⟩ := h
    exact (pushedOnce_iff hsize w).mp ⟨final, hresumes.pushedOnce⟩
  · intro hkept
    obtain ⟨turns, stats, final, hyields, hfiles⟩ := yields_of_endsKept hsize w ⟨0, 0, none⟩ hkept
    refine ⟨final, ⟨turns, stats, hyields.run, hyields.pushes⟩, fun w₁ hcrashed => ?_⟩
    have hself : ResumableAt E d ws batchSize w 0 w := by
      exact ⟨rfl, by rw [Nat.zero_mul, List.drop_zero], fun f _ => by rw [Nat.zero_mul, List.drop_zero]⟩
    obtain ⟨m, hm⟩ := crashed_resumable hsize hkept hcrashed ⟨0, hself⟩
    have hrest : EndsKept batchSize (remaining E d ws w₁) := by
      rw [hm.rest]
      exact endsKept_drop hkept m
    obtain ⟨turns₁, stats₁, final₁, hyields₁, hfiles₁⟩ := yields_of_endsKept hsize w₁ ⟨0, 0, none⟩ hrest
    refine ⟨final₁, remaining E d ws w₁, ⟨turns₁, stats₁, hyields₁.run, hyields₁.pushes⟩, fun f hf => ?_⟩
    rw [hfiles₁ f hf, hm.rest, hm.settles f hf, hfiles f hf]

/-- Two events, each of which ends a batch of one. -/
def twoEvents : SyncWorld :=
  .ledger [.sample "evt_1" "2026-05-19T12:00:00Z", .sample "evt_2" "2026-05-19T12:00:00Z"] (by decide)

theorem crash_resume_twoEvents : ∃ final, CrashResumes .sample .sample "ws_demo" 1 twoEvents final :=
  (crash_resume_iff .sample .sample "ws_demo" (by decide) twoEvents).mpr (by decide +kernel)

/-- An id with a space at its end. -/
def spacedEvent : SyncWorld := .ledger [.sample "evt_1 " "2026-05-19T12:00:00Z"] (by decide)

/-- The cursor that is read back names no event, and the pass begins again without end. -/
theorem spacedEvent_not_resumed :
    ¬ ∃ final, CrashResumes .sample .sample "ws_demo" 1 spacedEvent final := by
  intro h
  obtain ⟨final, hresumes⟩ := h
  have hkept := (pushedOnce_iff (by decide) spacedEvent).mp ⟨final, hresumes.pushedOnce⟩
  exact absurd hkept (by decide +kernel)

end ActantDb
