import Mathlib.Data.List.TakeWhile
import ActantDb.Lib.Lines
import ActantDb.Lib.Run
import ActantDb.Lib.Utf8Decode

/-!
# The output of a process

Three readers of what a child process writes to stdout. `spawnAndCapture` collects its text, `bufferLines` delivers its lines, and `streamOnce` yields lines while they come and the whole output at the end. Each decodes a chunk by itself, so a chunk must not end within a character; lines may be divided anyhow. `streamOnce` takes the exit of the child for the end of its output, which it need not be: what comes after it is lost to a consumer that is not behind.
-/

namespace ActantDb.Boxes

open Lines

/-- `b.toString("utf8")` and `String(b)`. -/
abbrev toText (b : List UInt8) : List Char := Utf8.decode b

/-- The text at the close of the child. -/
def spawnAndCapture (chunks : List (List UInt8)) : List Char := chunks.foldl (fun stdout b => stdout ++ toText b) []

/-! ### bufferLines -/

/-- `while ((idx = buf.indexOf("\n")) !== -1)`: the lines up to each, and what is left in the buffer. -/
def takeLines (buf : List Char) : List (List Char) × List Char :=
  match h : buf.dropWhile (· ≠ '\n') with
  | [] => ([], buf)
  | _ :: rest =>
    have : rest.length < buf.length := by
      have hle := (List.dropWhile_suffix (l := buf) (· ≠ '\n')).length_le
      rw [h, List.length_cons] at hle
      exact hle
    (buf.takeWhile (· ≠ '\n') :: (takeLines rest).1, (takeLines rest).2)
termination_by buf.length

structure LineBuffer where
  buf : List Char
  delivered : List (List Char)

def LineBuffer.onData (s : LineBuffer) (chunk : List UInt8) : LineBuffer :=
  ⟨(takeLines (s.buf ++ toText chunk)).2, s.delivered ++ (takeLines (s.buf ++ toText chunk)).1⟩

def LineBuffer.onEnd (s : LineBuffer) : LineBuffer := if s.buf ≠ [] then ⟨[], s.delivered ++ [s.buf]⟩ else s

/-- The lines that `onLine` gets. -/
def bufferLines (chunks : List (List UInt8)) : List (List Char) := (chunks.foldl LineBuffer.onData ⟨[], []⟩).onEnd.delivered

/-! ### streamOnce -/

/-- `text.split(/\r?\n/)`. -/
def splitLines : List Char → List (List Char)
  | [] => [[]]
  | '\r' :: '\n' :: s => [] :: splitLines s
  | '\n' :: s => [] :: splitLines s
  | c :: s =>
    match splitLines s with
    | [] => [[c]]
    | part :: parts => (c :: part) :: parts

inductive AgentChunk where
  | textDelta (text : List Char)
  | finish (ok : Bool) (exitCode : Option Int) (output : List Char)
deriving DecidableEq

/-- The variables of the generator, and what it has yielded. -/
structure StreamState where
  buf : List Char
  full : List Char
  lineQueue : List (List Char)
  done : Bool
  exitCode : Option Int
  yielded : List AgentChunk
  finished : Bool

def StreamState.start : StreamState := ⟨[], [], [], false, none, [], false⟩

def endLine (line : List Char) : List Char := line ++ ['\n']

def StreamState.onData (s : StreamState) (chunk : List UInt8) : StreamState :=
  let parts := splitLines (s.buf ++ toText chunk)
  { s with
    buf := parts.getLast?.getD []
    lineQueue := s.lineQueue ++ parts.dropLast
    full := s.full ++ parts.dropLast.flatMap endLine }

def StreamState.onExit (s : StreamState) (code : Option Int) : StreamState :=
  let exited := { s with exitCode := code, done := true }
  if s.buf ≠ [] then { exited with lineQueue := s.lineQueue ++ [s.buf], full := s.full ++ s.buf, buf := [] } else exited

/-- The generator goes on, because it is asked for the next chunk or because a handler has woken it: it yields, or it waits. -/
def StreamState.next (s : StreamState) : StreamState :=
  match s.lineQueue with
  | ln :: rest => { s with lineQueue := rest, yielded := s.yielded ++ [.textDelta (endLine ln)] }
  | [] =>
    if s.done && !s.finished then
      { s with yielded := s.yielded ++ [.finish (s.exitCode = some 0) s.exitCode s.full], finished := true }
    else s

/-- The generator is over. -/
def StreamState.resume (s : StreamState) : StreamState := if s.finished then s else s.next

inductive StreamEvent where
  | data (chunk : List UInt8)
  | exit (code : Option Int)
  | next

def StreamEvent.isChild : StreamEvent → Bool
  | .next => false
  | _ => true

def streamStep (s : StreamState) : StreamEvent → StreamState
  | .data chunk => s.onData chunk
  | .exit code => s.onExit code
  | .next => s.resume

/-! ### What the output is -/

/-- A rest that is not empty is a line too. -/
def withRest (lines : List (List Char)) (rest : List Char) : List (List Char) := if rest = [] then lines else lines ++ [rest]

def linesOf (text : List Char) : List (List Char) := withRest (cut '\n' text).1 (cut '\n' text).2

def outputOf (text : List Char) : List Char :=
  (splitLines text).dropLast.flatMap endLine ++ (splitLines text).getLast?.getD []

/-- The chunks for a text that is there at once. -/
def chunksOf (text : List Char) (code : Option Int) : List AgentChunk :=
  (withRest (splitLines text).dropLast ((splitLines text).getLast?.getD [])).map (fun ln => .textDelta (endLine ln)) ++
    [.finish (code = some 0) code (outputOf text)]

/-- The events of a child that exits between these chunks. -/
def childEvents (before after : List (List UInt8)) (code : Option Int) : List StreamEvent :=
  before.map .data ++ .exit code :: after.map .data

/-- The readers find what the bytes are as a whole; the generator does so in any order of its turns, once it has had enough of them. -/
structure OutputComplete (before after : List (List UInt8)) (code : Option Int) : Prop where
  captured : spawnAndCapture (before ++ after) = toText (before ++ after).flatten
  lines : bufferLines (before ++ after) = linesOf (toText (before ++ after).flatten)
  streamed : ∀ events : List StreamEvent, events.filter StreamEvent.isChild = childEvents before after code →
    ∀ turns, (chunksOf (toText (before ++ after).flatten) code).length ≤ turns →
      (Lts.run streamStep .start (events ++ List.replicate turns .next)).yielded =
        chunksOf (toText (before ++ after).flatten) code

/-! ### Lines are divided anyhow -/

theorem takeLines_eq (buf : List Char) : takeLines buf = cut '\n' buf := by
  induction hlength : buf.length using Nat.strong_induction_on generalizing buf with
  | _ n ih =>
    rw [takeLines]
    split
    · next hdrop =>
      have hnone : '\n' ∉ buf := by
        intro hmem
        have := List.dropWhile_eq_nil_iff.mp hdrop '\n' hmem
        simp at this
      rw [cut_of_not_mem hnone]
    · next c rest hdrop =>
      have hc : c = '\n' := by
        have := List.head?_dropWhile_not (· ≠ '\n') buf
        rw [hdrop] at this
        simpa using this
      have hbuf : buf = buf.takeWhile (· ≠ '\n') ++ '\n' :: rest := by
        calc buf = buf.takeWhile (· ≠ '\n') ++ buf.dropWhile (· ≠ '\n') := List.takeWhile_append_dropWhile.symm
          _ = buf.takeWhile (· ≠ '\n') ++ '\n' :: rest := by rw [hdrop, hc]
      have hline : '\n' ∉ buf.takeWhile (· ≠ '\n') := by
        intro hmem
        simpa using List.mem_takeWhile_imp hmem
      have hshort : rest.length < n := by
        rw [← hlength, hbuf, List.length_append, List.length_cons]
        omega
      rw [ih rest.length hshort rest rfl]
      exact (cut_line hline rest).symm.trans (congrArg (cut '\n') hbuf.symm)

/-- What the buffer holds after a text, and what has been delivered of it. -/
def LineBuffer.of (text : List Char) : LineBuffer := ⟨(cut '\n' text).2, (cut '\n' text).1⟩

theorem onData_of (text : List Char) (chunk : List UInt8) :
    (LineBuffer.of text).onData chunk = .of (text ++ toText chunk) := by
  rw [LineBuffer.onData, takeLines_eq, LineBuffer.of, LineBuffer.of, cut_append '\n' text]

theorem foldl_onData (chunks : List (List UInt8)) (text : List Char) :
    chunks.foldl LineBuffer.onData (.of text) = .of (text ++ chunks.flatMap toText) := by
  induction chunks generalizing text with
  | nil => rw [List.flatMap_nil, List.append_nil, List.foldl_nil]
  | cons c chunks ih => rw [List.foldl_cons, onData_of, ih, List.flatMap_cons, List.append_assoc]

/-- The lines are those of the text of the chunks, put together. -/
theorem bufferLines_eq (chunks : List (List UInt8)) : bufferLines chunks = linesOf (chunks.flatMap toText) := by
  have hfold : chunks.foldl LineBuffer.onData ⟨[], []⟩ = .of (chunks.flatMap toText) := foldl_onData chunks []
  rw [bufferLines, hfold, LineBuffer.onEnd, linesOf, withRest, LineBuffer.of]
  dsimp only
  by_cases hrest : (cut '\n' (chunks.flatMap toText)).2 = []
  · rw [if_neg (not_not_intro hrest), if_pos hrest]
  · rw [if_pos hrest, if_neg hrest]

theorem spawnAndCapture_eq (chunks : List (List UInt8)) : spawnAndCapture chunks = chunks.flatMap toText := by
  have hfold (text : List Char) : chunks.foldl (fun stdout b => stdout ++ toText b) text = text ++ chunks.flatMap toText := by
    induction chunks generalizing text with
    | nil => rw [List.flatMap_nil, List.append_nil, List.foldl_nil]
    | cons c chunks ih => rw [List.foldl_cons, ih, List.flatMap_cons, List.append_assoc]
  exact hfold []

/-- A line without the "\r" before its end. -/
def chomp (line : List Char) : List Char := if line.getLast? = some '\r' then line.dropLast else line

theorem chomp_cons {c : Char} {line : List Char} (h : line = [] → c ≠ '\r') : chomp (c :: line) = c :: chomp line := by
  cases line with
  | nil =>
    rw [chomp, chomp, List.getLast?_singleton, if_neg (fun heq => h rfl (Option.some.inj heq))]
    rfl
  | cons d line =>
    rw [chomp, chomp, List.getLast?_cons_cons]
    split
    · rfl
    · rfl

/-- The parts of a text are its lines, and what is after them. -/
theorem splitLines_eq (s : List Char) : splitLines s = (cut '\n' s).1.map chomp ++ [(cut '\n' s).2] := by
  fun_induction splitLines s with
  | case1 => rfl
  | case2 s ih =>
    have hinner : cut '\n' ('\n' :: s) = ([] :: (cut '\n' s).1, (cut '\n' s).2) := cut_sep s
    rw [ih, cut_cons_cons (by decide) (congrArg Prod.fst hinner), hinner]
    rfl
  | case3 s ih =>
    rw [ih, cut_sep]
    rfl
  | case4 c s hcrlf hlf hnil ih =>
    rw [hnil] at ih
    exact absurd ih.symm (List.append_ne_nil_of_right_ne_nil _ (List.cons_ne_nil _ _))
  | case5 c s hcrlf hlf part parts hparts ih =>
    have hc : c ≠ '\n' := hlf
    rw [hparts] at ih
    cases hlines : (cut '\n' s).1 with
    | nil =>
      rw [hlines, List.map_nil, List.nil_append] at ih
      obtain ⟨rfl, rfl⟩ := List.cons.inj ih
      rw [cut_cons hc hlines]
      rfl
    | cons line lines =>
      rw [hlines, List.map_cons, List.cons_append] at ih
      obtain ⟨rfl, rfl⟩ := List.cons.inj ih
      -- a line that is empty is a "\n" right after the "\r" that would be dropped
      have hkept : line = [] → c ≠ '\r' := by
        rintro rfl rfl
        obtain ⟨rest, rfl⟩ := List.head?_eq_some_iff.mp (head_of_cut_nil hlines)
        exact hcrlf rest rfl rfl
      rw [cut_cons_cons hc hlines, List.map_cons, chomp_cons hkept, List.cons_append]

theorem splitLines_ne_nil (s : List Char) : splitLines s ≠ [] := by
  rw [splitLines_eq]
  exact List.append_ne_nil_of_right_ne_nil _ (List.cons_ne_nil _ _)

theorem dropLast_splitLines (s : List Char) : (splitLines s).dropLast = (cut '\n' s).1.map chomp := by
  rw [splitLines_eq, List.dropLast_concat]

theorem getLast_splitLines (s : List Char) : (splitLines s).getLast?.getD [] = (cut '\n' s).2 := by
  rw [splitLines_eq, List.getLast?_concat, Option.getD_some]

/-! ### The generator -/

section Stream

variable {text : List Char} {s : StreamState} {code : Option Int} {chunk : List UInt8}

/-- What is yielded for a line. -/
def delta (line : List Char) : AgentChunk := .textDelta (endLine line)

/-- The state while the child runs and has written this text. -/
structure Streaming (text : List Char) (s : StreamState) : Prop where
  done : s.done = false
  finished : s.finished = false
  buf : s.buf = (cut '\n' text).2
  full : s.full = ((cut '\n' text).1.map chomp).flatMap endLine
  lines : s.yielded ++ s.lineQueue.map delta = ((cut '\n' text).1.map chomp).map delta

/-- What is still to be yielded at the end. -/
def lastChunk (finished : Bool) (text : List Char) (code : Option Int) : List AgentChunk :=
  if finished then [] else [.finish (code = some 0) code (outputOf text)]

/-- The state once the child has exited after this text. -/
structure Exited (text : List Char) (code : Option Int) (s : StreamState) : Prop where
  done : s.done = true
  buf : s.buf = []
  exitCode : s.exitCode = code
  full : s.full = outputOf text
  chunks : s.yielded ++ s.lineQueue.map delta ++ lastChunk s.finished text code = chunksOf text code
  finished : s.finished = true → s.lineQueue = []

theorem streaming_start : Streaming [] .start := ⟨rfl, rfl, rfl, rfl, rfl⟩

theorem streaming_onData (h : Streaming text s) (chunk : List UInt8) : Streaming (text ++ toText chunk) (s.onData chunk) := by
  have hcut := cut_append '\n' text (toText chunk)
  rw [← h.buf] at hcut
  refine ⟨h.done, h.finished, ?_, ?_, ?_⟩
  · rw [StreamState.onData, hcut]
    exact getLast_splitLines _
  · rw [StreamState.onData, hcut]
    dsimp only
    rw [dropLast_splitLines, h.full, List.map_append, List.flatMap_append]
  · rw [StreamState.onData, hcut]
    dsimp only
    rw [dropLast_splitLines, List.map_append, ← List.append_assoc, h.lines, List.map_append, List.map_append]

theorem next_line {ln : List Char} {rest : List (List Char)} (h : s.lineQueue = ln :: rest) :
    s.next = { s with lineQueue := rest, yielded := s.yielded ++ [delta ln] } := by
  rw [StreamState.next, h]
  rfl

theorem next_wait (h : s.lineQueue = []) (hdone : s.done = false) : s.next = s := by
  rw [StreamState.next, h]
  dsimp only
  rw [hdone, Bool.false_and, if_neg Bool.false_ne_true]

theorem next_finish (h : s.lineQueue = []) (hdone : s.done = true) (hrunning : s.finished = false) :
    s.next = { s with yielded := s.yielded ++ [.finish (s.exitCode = some 0) s.exitCode s.full], finished := true } := by
  rw [StreamState.next, h]
  dsimp only
  rw [hdone, hrunning]
  rfl

theorem resume_running (h : s.finished = false) : s.resume = s.next := by
  rw [StreamState.resume, if_neg (Bool.eq_false_iff.mp h)]

theorem streaming_resume (h : Streaming text s) : Streaming text s.resume := by
  rw [resume_running h.finished]
  cases hqueue : s.lineQueue with
  | nil =>
    rw [next_wait hqueue h.done]
    exact h
  | cons ln rest =>
    rw [next_line hqueue]
    refine ⟨h.done, h.finished, h.buf, h.full, ?_⟩
    have hlines := h.lines
    rw [hqueue, List.map_cons] at hlines
    rw [← hlines, List.append_assoc]
    rfl

theorem exited_onExit (h : Streaming text s) (code : Option Int) : Exited text code (s.onExit code) := by
  have hoff {p : Prop} (hfinished : s.finished = true) : p := absurd hfinished (Bool.eq_false_iff.mp h.finished)
  have hchunks : chunksOf text code = (withRest ((cut '\n' text).1.map chomp) s.buf).map delta ++
      [.finish (code = some 0) code (outputOf text)] := by
    rw [chunksOf, dropLast_splitLines, getLast_splitLines, ← h.buf]
    rfl
  have houtput : outputOf text = s.full ++ s.buf := by
    rw [outputOf, dropLast_splitLines, getLast_splitLines, h.full, h.buf]
  rw [StreamState.onExit]
  dsimp only
  by_cases hbuf : s.buf = []
  · rw [if_neg (not_not_intro hbuf)]
    refine ⟨rfl, hbuf, rfl, ?_, ?_, hoff⟩
    · rw [houtput, hbuf, List.append_nil]
    · change s.yielded ++ s.lineQueue.map delta ++ lastChunk s.finished text code = _
      rw [h.finished, h.lines, hchunks, withRest, if_pos hbuf]
      rfl
  · rw [if_pos hbuf]
    refine ⟨rfl, rfl, rfl, houtput.symm, ?_, hoff⟩
    change s.yielded ++ (s.lineQueue ++ [s.buf]).map delta ++ lastChunk s.finished text code = _
    rw [h.finished, List.map_append, ← List.append_assoc, h.lines, hchunks, withRest, if_neg hbuf, List.map_append]
    rfl

/-- A chunk without text changes nothing. -/
theorem exited_onData (h : Exited text code s) (hchunk : toText chunk = []) : Exited text code (s.onData chunk) := by
  have hparts : splitLines (s.buf ++ toText chunk) = [[]] := by
    rw [h.buf, hchunk]
    rfl
  have hsame : s.onData chunk = s := by
    rw [StreamState.onData, hparts]
    simp only [List.dropLast_singleton, List.append_nil, List.flatMap_nil, List.getLast?_singleton, Option.getD_some]
    rw [← h.buf]
  rwa [hsame]

theorem exited_resume (h : Exited text code s) : Exited text code s.resume := by
  by_cases hfinished : s.finished = true
  · rwa [StreamState.resume, if_pos hfinished]
  · have hrunning := Bool.eq_false_iff.mpr hfinished
    have hchunks := h.chunks
    rw [resume_running hrunning]
    cases hqueue : s.lineQueue with
    | nil =>
      rw [next_finish hqueue h.done hrunning]
      refine ⟨h.done, h.buf, h.exitCode, h.full, ?_, fun _ => hqueue⟩
      rw [hqueue, hrunning] at hchunks
      rw [← hchunks, hqueue, h.exitCode, h.full]
      simp [lastChunk]
    | cons ln rest =>
      rw [next_line hqueue]
      refine ⟨h.done, h.buf, h.exitCode, h.full, ?_, fun hfin => absurd hfin hfinished⟩
      rw [hqueue, List.map_cons] at hchunks
      rw [← hchunks, List.append_assoc s.yielded]
      rfl

/-- The turns that are still to come. -/
def StreamState.remaining (s : StreamState) : Nat := s.lineQueue.length + if s.finished then 0 else 1

theorem remaining_resume (h : Exited text code s) : s.resume.remaining = s.remaining - 1 := by
  by_cases hfinished : s.finished = true
  · rw [StreamState.resume, if_pos hfinished, StreamState.remaining, h.finished hfinished, if_pos hfinished, List.length_nil]
  · have hrunning := Bool.eq_false_iff.mpr hfinished
    rw [resume_running hrunning]
    cases hqueue : s.lineQueue with
    | nil =>
      rw [next_finish hqueue h.done hrunning, StreamState.remaining, StreamState.remaining, hqueue, if_neg hfinished]
      rfl
    | cons ln rest =>
      rw [next_line hqueue, StreamState.remaining, StreamState.remaining, hqueue, if_neg hfinished, List.length_cons]
      rfl

/-- With enough turns all is yielded. -/
theorem yielded_turns (h : Exited text code s) {turns : Nat} (hturns : (chunksOf text code).length ≤ turns) :
    (Lts.run streamStep s (List.replicate turns .next)).finished = true ∧
      (Lts.run streamStep s (List.replicate turns .next)).yielded = chunksOf text code := by
  have hrun (turns : Nat) : ∀ s, Exited text code s → Exited text code (Lts.run streamStep s (List.replicate turns .next)) ∧
      (Lts.run streamStep s (List.replicate turns .next)).remaining = s.remaining - turns := by
    induction turns with
    | zero => exact fun s h => ⟨h, rfl⟩
    | succ turns ih =>
      intro s h
      obtain ⟨hexited, hremaining⟩ := ih s.resume (exited_resume h)
      rw [remaining_resume h] at hremaining
      refine ⟨hexited, hremaining.trans ?_⟩
      omega
  obtain ⟨hexited, hremaining⟩ := hrun turns s h
  have hle : s.remaining ≤ turns := by
    have hlength := congrArg List.length h.chunks
    have hlast : (lastChunk s.finished text code).length = if s.finished then 0 else 1 := by
      rw [lastChunk]
      split <;> rfl
    rw [List.length_append, List.length_append, List.length_map, hlast] at hlength
    rw [StreamState.remaining]
    omega
  rw [Nat.sub_eq_zero_of_le hle, StreamState.remaining] at hremaining
  have hqueue : (Lts.run streamStep s (List.replicate turns .next)).lineQueue = [] :=
    List.length_eq_zero_iff.mp (Nat.add_eq_zero_iff.mp hremaining).1
  have hfinished : (Lts.run streamStep s (List.replicate turns .next)).finished = true := by
    by_contra hrunning
    rw [if_neg hrunning] at hremaining
    omega
  have hchunks := hexited.chunks
  rw [hqueue, hfinished] at hchunks
  refine ⟨hfinished, ?_⟩
  rw [← hchunks]
  simp [lastChunk]

/-- Before the exit. -/
theorem streaming_run {events : List StreamEvent} (h : Streaming text s) {chunks : List (List UInt8)}
    (hevents : events.filter StreamEvent.isChild = chunks.map .data) :
    Streaming (text ++ chunks.flatMap toText) (Lts.run streamStep s events) := by
  induction events generalizing text s chunks with
  | nil =>
    obtain rfl := List.map_eq_nil_iff.mp hevents.symm
    rwa [List.flatMap_nil, List.append_nil]
  | cons e events ih =>
    cases e with
    | data c =>
      obtain ⟨c', chunks, rfl, hc, hchunks⟩ := List.map_eq_cons_iff.mp hevents.symm
      cases hc
      rw [List.flatMap_cons, ← List.append_assoc]
      exact ih (streaming_onData h c) hchunks.symm
    | exit code =>
      obtain ⟨c', -, -, hc, -⟩ := List.map_eq_cons_iff.mp hevents.symm
      cases hc
    | next => exact ih (streaming_resume h) hevents

/-- After it. -/
theorem exited_run {events : List StreamEvent} (h : Exited text code s) {chunks : List (List UInt8)}
    (hempty : ∀ c ∈ chunks, c = []) (hevents : events.filter StreamEvent.isChild = chunks.map .data) :
    Exited text code (Lts.run streamStep s events) := by
  induction events generalizing s chunks with
  | nil => exact h
  | cons e events ih =>
    cases e with
    | data c =>
      obtain ⟨c', chunks, rfl, hc, hchunks⟩ := List.map_eq_cons_iff.mp hevents.symm
      cases hc
      obtain rfl := hempty c List.mem_cons_self
      exact ih (exited_onData h rfl) (fun c hc => hempty c (List.mem_cons_of_mem _ hc)) hchunks.symm
    | exit code =>
      obtain ⟨c', -, -, hc, -⟩ := List.map_eq_cons_iff.mp hevents.symm
      cases hc
    | next => exact ih (exited_resume h) hempty hevents

/-- A generator that is over yields nothing more. -/
theorem yielded_over {s : StreamState} (events : List StreamEvent) (h : s.finished = true) :
    (Lts.run streamStep s events).yielded = s.yielded := by
  induction events generalizing s with
  | nil => rfl
  | cons e events ih =>
    have hstep : (streamStep s e).finished = true ∧ (streamStep s e).yielded = s.yielded := by
      cases e with
      | data c => exact ⟨h, rfl⟩
      | exit code =>
        rw [streamStep, StreamState.onExit]
        split <;> exact ⟨h, rfl⟩
      | next =>
        rw [streamStep, StreamState.resume, if_pos h]
        exact ⟨h, rfl⟩
    rw [Lts.run_cons, ih hstep.1, hstep.2]

end Stream

/-! ### The whole output -/

/-- The text with each "\r\n" as "\n". -/
def unixText : List Char → List Char
  | [] => []
  | '\r' :: '\n' :: s => '\n' :: unixText s
  | c :: s => c :: unixText s

/-- An empty line before the parts of a text. -/
theorem output_nil_cons {parts : List (List Char)} (hne : parts ≠ []) :
    ([] :: parts).dropLast.flatMap endLine ++ ([] :: parts).getLast?.getD [] =
      '\n' :: (parts.dropLast.flatMap endLine ++ parts.getLast?.getD []) := by
  obtain ⟨part, rest, rfl⟩ := List.exists_cons_of_ne_nil hne
  rw [List.dropLast_cons_cons, List.flatMap_cons, List.getLast?_cons_cons]
  rfl

theorem outputOf_eq (text : List Char) : outputOf text = unixText text := by
  rw [outputOf]
  fun_induction splitLines text with
  | case1 => rfl
  | case2 s ih =>
    rw [unixText, ← ih]
    exact output_nil_cons (splitLines_ne_nil s)
  | case3 s ih =>
    rw [unixText, ← ih]
    · exact output_nil_cons (splitLines_ne_nil s)
    · exact fun rest hc => by cases hc
  | case4 c s hcrlf hlf hnil ih =>
    exact absurd hnil (splitLines_ne_nil s)
  | case5 c s hcrlf hlf part parts hparts ih =>
    rw [hparts] at ih
    rw [unixText, ← ih]
    · cases parts with
      | nil => rfl
      | cons next parts =>
        rw [List.dropLast_cons_cons, List.dropLast_cons_cons, List.getLast?_cons_cons, List.getLast?_cons_cons]
        rfl
    · exact hcrlf

/-- More text is more output. -/
theorem unixText_append_eq {p q : List Char} (h : unixText (p ++ q) = unixText p) : q = [] := by
  fun_induction unixText p with
  | case1 =>
    cases q with
    | nil => rfl
    | cons c q =>
      rw [List.nil_append, unixText.eq_def] at h
      split at h
      · next heq => cases heq
      · cases h
      · cases h
  | case2 s ih => exact ih (List.cons.inj h).2
  | case3 c s hcrlf ih =>
    by_cases hbreak : ∃ rest, c = '\r' ∧ s ++ q = '\n' :: rest
    · obtain ⟨rest, rfl, hrest⟩ := hbreak
      rw [List.cons_append, hrest, unixText] at h
      cases (List.cons.inj h).1
    · rw [List.cons_append, unixText] at h
      · exact ih (List.cons.inj h).2
      · exact fun rest hc hs => hbreak ⟨rest, hc, hs⟩

theorem filter_data (chunks : List (List UInt8)) :
    (chunks.map StreamEvent.data).filter StreamEvent.isChild = chunks.map .data := by
  rw [List.filter_eq_self]
  intro e he
  obtain ⟨c, -, rfl⟩ := List.mem_map.mp he
  rfl

theorem filter_turns (turns : Nat) : (List.replicate turns StreamEvent.next).filter StreamEvent.isChild = [] := by
  rw [List.filter_eq_nil_iff]
  intro e he
  rw [List.eq_of_mem_replicate he]
  exact Bool.false_ne_true

/-- A consumer that is not behind gets what is there at the exit. -/
theorem yielded_prompt {before after : List (List UInt8)} {code : Option Int} (h : OutputComplete before after code) :
    chunksOf (before.flatMap toText) code = chunksOf (toText (before ++ after).flatten) code := by
  have hstreaming := streaming_run streaming_start (filter_data before)
  have hexited := exited_onExit hstreaming code
  rw [List.nil_append] at hexited
  obtain ⟨hfinished, hyielded⟩ := yielded_turns hexited (Nat.le_refl _)
  let prompt := List.replicate (chunksOf (before.flatMap toText) code).length StreamEvent.next
  let events : List StreamEvent := before.map .data ++ .exit code :: (prompt ++ after.map .data)
  have hevents : events.filter StreamEvent.isChild = childEvents before after code := by
    rw [List.filter_append, List.filter_cons_of_pos rfl, List.filter_append, filter_data, filter_turns, filter_data]
    rfl
  have hall := h.streamed _ hevents _ (Nat.le_refl _)
  rw [← hall, ← hyielded, List.append_assoc, List.cons_append, List.append_assoc, Lts.run_append, Lts.run_cons, Lts.run_append]
  exact (yielded_over _ hfinished).symm

/-- **The output is complete** exactly if no chunk ends within a character and nothing comes after the exit. -/
theorem output_complete_iff (before after : List (List UInt8)) (code : Option Int) :
    OutputComplete before after code ↔ Utf8.Whole (before ++ after) ∧ ∀ c ∈ after, c = [] := by
  have hflat : (before ++ after).flatMap toText = before.flatMap toText ++ after.flatMap toText := List.flatMap_append
  constructor
  · intro h
    have hcaptured := h.captured
    rw [spawnAndCapture_eq] at hcaptured
    refine ⟨(Utf8.flatMap_decode_iff _).mp hcaptured, ?_⟩
    have hlast := congrArg List.getLast? (yielded_prompt h)
    rw [chunksOf, chunksOf, List.getLast?_concat, List.getLast?_concat] at hlast
    obtain ⟨-, -, houtput⟩ := AgentChunk.finish.inj (Option.some.inj hlast)
    rw [outputOf_eq, outputOf_eq, ← hcaptured, hflat] at houtput
    have hnil := unixText_append_eq houtput.symm
    exact fun c hc => Utf8.decode_eq_nil.mp (List.flatMap_eq_nil_iff.mp hnil c hc)
  · rintro ⟨hwhole, hempty⟩
    have hcaptured : (before ++ after).flatMap toText = toText (before ++ after).flatten := (Utf8.flatMap_decode_iff _).mpr hwhole
    have hnil : after.flatMap toText = [] := by
      rw [List.flatMap_eq_nil_iff]
      intro c hc
      rw [hempty c hc]
      rfl
    refine ⟨?_, ?_, ?_⟩
    · rw [spawnAndCapture_eq, hcaptured]
    · rw [bufferLines_eq, hcaptured]
    · intro events hevents turns hturns
      obtain ⟨first, rest, rfl, hfirst, hrest⟩ := List.filter_eq_append_iff.mp hevents
      obtain ⟨quiet, later, rfl, hquiet, -, hlater⟩ := List.filter_eq_cons_iff.mp hrest
      have hbefore : (first ++ quiet).filter StreamEvent.isChild = before.map .data := by
        rw [List.filter_append, hfirst, List.filter_eq_nil_iff.mpr hquiet, List.append_nil]
      have hexited := exited_run (exited_onExit (streaming_run streaming_start hbefore) code) hempty hlater
      rw [List.nil_append, ← List.append_nil (before.flatMap toText), ← hnil, ← hflat, hcaptured] at hexited
      have hend := (yielded_turns hexited hturns).2
      rw [Lts.run_append, ← List.append_assoc, Lts.run_append, Lts.run_cons]
      exact hend

/-! ### An "é" in two chunks -/

/-- The two bytes of the letter come apart. -/
theorem letter_broken : ¬ OutputComplete [[0xc3], [0xa9]] [] (some 0) := by
  intro h
  exact absurd h.captured (by decide)

end ActantDb.Boxes
