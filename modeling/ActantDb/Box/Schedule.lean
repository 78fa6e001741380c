import Mathlib.Data.List.Nodup
import Mathlib.Logic.Function.Basic
import ActantDb.Lib.Run

/-!
# Boxes and their schedules

A box and each of its schedules have a status of their own, and a schedule keeps the timer it runs by. The objects of a process share one table of timers, which is lost with the process; the status of a box is kept in its `box.json` and its schedules in its `schedules.json`, from which `Box.get` makes a new object.

What a schedule runs and how often, the ledger and the agent play no part in whether a timer is armed, and are left out.
-/

namespace ActantDb.Boxes

abbrev BoxId := Nat
abbrev ScheduleId := Nat
abbrev TimerId := Nat

inductive BoxStatus where
  | running | paused | deleted
deriving DecidableEq

inductive ScheduleKind where
  | exec | agent
deriving DecidableEq

inductive ScheduleStatus where
  | active | paused
deriving DecidableEq

structure Schedule where
  id : ScheduleId
  kind : ScheduleKind
  status : ScheduleStatus
  runs : Nat
deriving DecidableEq

structure RuntimeSchedule extends Schedule where
  timer : Option TimerId
deriving DecidableEq

/-! ### Timers -/

/-- The intervals of the process: the box and the schedule that each armed one fires for. -/
structure Timers where
  armed : TimerId → Option (BoxId × ScheduleId)
  next : TimerId

/-- `if (timer) clearInterval(timer)`. -/
def Timers.clearInterval (p : Timers) : Option TimerId → Timers
  | none => p
  | some t => { p with armed := Function.update p.armed t none }

def Timers.setInterval (p : Timers) (box : BoxId) (id : ScheduleId) : Timers :=
  { armed := Function.update p.armed p.next (some (box, id)), next := p.next + 1 }

def startTimer (box : BoxId) (p : Timers) (s : RuntimeSchedule) : Timers × RuntimeSchedule :=
  ((p.clearInterval s.timer).setInterval box s.id, { s with timer := some p.next })

/-- `if (s.timer) clearInterval(s.timer); s.timer = undefined`. -/
def stopTimer (p : Timers) (s : RuntimeSchedule) : Timers × RuntimeSchedule :=
  (p.clearInterval s.timer, { s with timer := none })

/-- `for (const s of this.schedules.values())`, where `g` acts on the timers and on `s`. -/
def forEach (g : Timers → RuntimeSchedule → Timers × RuntimeSchedule) :
    Timers → List RuntimeSchedule → Timers × List RuntimeSchedule
  | p, [] => (p, [])
  | p, s :: rest =>
    let after := g p s
    let others := forEach g after.1 rest
    (others.1, after.2 :: others.2)

/-- `g` on the schedule with this id: a map holds one at most. -/
def forId (id : ScheduleId) (g : Timers → RuntimeSchedule → Timers × RuntimeSchedule)
    (p : Timers) (s : RuntimeSchedule) : Timers × RuntimeSchedule :=
  if s.id = id then g p s else (p, s)

def pauseAll : Timers → List RuntimeSchedule → Timers × List RuntimeSchedule := forEach stopTimer

/-- `if (s.status === "active") this.startTimer(s)`. -/
def startActive (box : BoxId) (p : Timers) (s : RuntimeSchedule) : Timers × RuntimeSchedule :=
  if s.status = .active then startTimer box p s else (p, s)

def resumeAll (box : BoxId) : Timers → List RuntimeSchedule → Timers × List RuntimeSchedule :=
  forEach (startActive box)

/-- `Map.set`. -/
def mapSet (s : RuntimeSchedule) : List RuntimeSchedule → List RuntimeSchedule
  | [] => [s]
  | s' :: rest => if s'.id = s.id then s :: rest else s' :: mapSet s rest

/-- The loop of `restore`. -/
def restore (box : BoxId) : Timers → List RuntimeSchedule → List Schedule → Timers × List RuntimeSchedule
  | p, map, [] => (p, map)
  | p, map, s :: raw =>
    let rt := startActive box p { s with timer := none }
    restore box rt.1 (mapSet rt.2 map) raw

/-! ### Operations -/

structure Box where
  id : BoxId
  cloud : Bool
  status : BoxStatus
  schedules : List RuntimeSchedule
deriving DecidableEq

/-- A process with its `Box` objects, and the files it shares with the processes after it. Ids are taken from one supply. -/
structure World where
  timers : Timers
  boxes : List Box
  metadata : BoxId → Option BoxStatus
  scheduleFile : BoxId → Option (List Schedule)
  fresh : Nat

def World.start : World :=
  { timers := ⟨fun _ => none, 0⟩, boxes := [], metadata := fun _ => none, scheduleFile := fun _ => none, fresh := 0 }

namespace World

variable (w : World)

def persistMetadata (box : Box) : World :=
  if box.cloud then w else { w with metadata := Function.update w.metadata box.id (some box.status) }

def persist (box : Box) : World :=
  { w with
    scheduleFile := Function.update w.scheduleFile box.id
      (some (box.schedules.map RuntimeSchedule.toSchedule)) }

/-- Object `o` as an operation has left it, and the timers. -/
def put (o : Nat) (box : Box) (after : Timers × List RuntimeSchedule) : World :=
  { w with timers := after.1, boxes := w.boxes.set o { box with schedules := after.2 } }

def create (cloud : Bool) : World :=
  let box : Box := { id := w.fresh, cloud := cloud, status := .running, schedules := [] }
  { w with boxes := w.boxes ++ [box], fresh := w.fresh + 1 }.persistMetadata box

def get (id : BoxId) : World :=
  match w.metadata id with
  | none => w
  | some status =>
    let after := restore id w.timers [] ((w.scheduleFile id).getD [])
    let box : Box := { id := id, cloud := false, status := status, schedules := after.2 }
    { w with timers := after.1, boxes := w.boxes ++ [box] }

def pause (o : Nat) : World :=
  match w.boxes[o]? with
  | none => w
  | some box =>
    if box.cloud then w
    else
      let box := { box with status := .paused }
      (w.put o box (pauseAll w.timers box.schedules)).persistMetadata box

def resume (o : Nat) : World :=
  match w.boxes[o]? with
  | none => w
  | some box =>
    if box.cloud then w
    else
      let box := { box with status := .running }
      (w.put o box (resumeAll box.id w.timers box.schedules)).persistMetadata box

/-- `schedule.exec` and `schedule.agent`. -/
def add (o : Nat) (kind : ScheduleKind) : World :=
  match w.boxes[o]? with
  | none => w
  | some box =>
    let s : RuntimeSchedule := { id := w.fresh, kind := kind, status := .active, runs := 0, timer := none }
    let after := startTimer box.id w.timers s
    let schedules := mapSet after.2 box.schedules
    ({ w with fresh := w.fresh + 1 }.put o box (after.1, schedules)).persist { box with schedules := schedules }

/-- An operation on the schedule with this id, which fails when there is none, and writes the schedules. -/
def onSchedule (o : Nat) (id : ScheduleId)
    (g : BoxId → Timers → RuntimeSchedule → Timers × RuntimeSchedule) : World :=
  match w.boxes[o]? with
  | none => w
  | some box =>
    if id ∈ box.schedules.map (·.id) then
      let after := forEach (forId id (g box.id)) w.timers box.schedules
      (w.put o box after).persist { box with schedules := after.2 }
    else w

def schedulePause (o : Nat) (id : ScheduleId) : World :=
  w.onSchedule o id fun _ p s => stopTimer p { s with status := .paused }

def scheduleResume (o : Nat) (id : ScheduleId) : World :=
  w.onSchedule o id fun box p s => startTimer box p { s with status := .active }

/-- The removal, before the runs in flight are awaited. -/
def scheduleDelete (o : Nat) (id : ScheduleId) : World :=
  match w.boxes[o]? with
  | none => w
  | some box =>
    let after := forEach (forId id stopTimer) w.timers box.schedules
    w.put o box (after.1, after.2.filter (·.id ≠ id))

/-- What a timer that goes off does first. -/
def fire (o : Nat) (id : ScheduleId) : World :=
  match w.boxes[o]? with
  | none => w
  | some box =>
    w.put o box (forEach (forId id fun p s => (p, { s with runs := s.runs + 1 })) w.timers box.schedules)

/-- What `delete` and a run do last. -/
def settle (o : Nat) : World :=
  match w.boxes[o]? with
  | none => w
  | some box => w.persist box

/-- The process ends. -/
def exit : World := { w with timers := ⟨fun _ => none, w.timers.next⟩, boxes := [] }

end World

inductive Action where
  | create (cloud : Bool)
  | get (id : BoxId)
  | pause (o : Nat)
  | resume (o : Nat)
  | scheduleExec (o : Nat)
  | scheduleAgent (o : Nat)
  | schedulePause (o : Nat) (id : ScheduleId)
  | scheduleResume (o : Nat) (id : ScheduleId)
  | scheduleDelete (o : Nat) (id : ScheduleId)
  | fire (o : Nat) (id : ScheduleId)
  | settle (o : Nat)
  | exit
deriving DecidableEq

def step (w : World) : Action → World
  | .create cloud => w.create cloud
  | .get id => w.get id
  | .pause o => w.pause o
  | .resume o => w.resume o
  | .scheduleExec o => w.add o .exec
  | .scheduleAgent o => w.add o .agent
  | .schedulePause o id => w.schedulePause o id
  | .scheduleResume o id => w.scheduleResume o id
  | .scheduleDelete o id => w.scheduleDelete o id
  | .fire o id => w.fire o id
  | .settle o => w.settle o
  | .exit => w.exit

end ActantDb.Boxes
