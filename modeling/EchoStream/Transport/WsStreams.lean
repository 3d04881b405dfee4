import Mathlib.Data.List.AList
import EchoStream.Foundation.Run
import EchoStream.Core.Stream

/-! Streams over one WebSocket. The connection loop reads all frames and hands
those of a stream to its task through a queue, which it finds by the stream's id
in a table. The task adds nothing to the table and takes its entry out when it is
done. Middlewares and handlers may do anything that the dispatcher lets them do. -/

namespace EchoStream.Transport.WsStreams
open Foundation.Run
open Proto.Messages
open Core.Handler Core.Stream

inductive Phase where
  | awaiting
  | chain (first : StreamMsg)
  | handling (r : Receiver)
  | leaving
  | removed

/-- The task of a stream with how many frames the loop had read to make it, the
frames handed to it since, those of them still in its queue, and the data frames
its handler was given. -/
structure StreamTask where
  opened : StreamOpenMsg
  since : Nat
  routed : List Message
  queue : List Message
  phase : Phase
  dispatched : Bool
  received : List StreamMsg

inductive LoopPhase where
  | reading
  | handling
  | ended
deriving DecidableEq

structure Connection where
  loop : LoopPhase
  history : List Message
  streams : AList (fun _ : UInt64 => Nat)
  tasks : List StreamTask

def Connection.init : Connection := ⟨.reading, [], ∅, []⟩

def StreamTask.new (opened : StreamOpenMsg) (since : Nat) : StreamTask :=
  ⟨opened, since, [], [], .awaiting, false, []⟩

/-- What reading a queue makes of a frame. -/
def readQueue : Message → Result (Option Message)
  | .stream frame => .ok (some (.stream frame))
  | .streamOpen opened => .ok (some (.streamOpen opened))
  | .streamEnd _ => .ok none
  | _ => .ok none

def StreamTask.hand (task : StreamTask) (msg : Message) : StreamTask :=
  { task with routed := task.routed ++ [msg], queue := task.queue ++ [msg] }

namespace Connection

def setTask (s : Connection) (i : Nat) (task : StreamTask) : Connection :=
  { s with tasks := s.tasks.set i task }

def route (s : Connection) (id : UInt64) (msg : Message) : Connection :=
  match s.streams.lookup id with
  | some i =>
      match s.tasks[i]? with
      | some task => s.setTask i (task.hand msg)
      | none => s
  | none => s

/-- A new stream, unless there is one with its id, for which the frame is then. -/
def openStream (hasStream : String → Bool) (s : Connection) (opened : StreamOpenMsg) : Connection :=
  match s.streams.lookup opened.id with
  | some _ => s.route opened.id (.streamOpen opened)
  | none =>
      if hasStream opened.name then
        { s with
          streams := s.streams.insert opened.id s.tasks.length
          tasks := s.tasks ++ [.new opened s.history.length] }
      else s

def receive (hasStream : String → Bool) (s : Connection) (msg : Message) : Connection :=
  let s := { s with history := s.history ++ [msg] }
  match msg with
  | .request _ => { s with loop := .handling }
  | .event _ => { s with loop := .handling }
  | .streamOpen opened => s.openStream hasStream opened
  | .stream frame => s.route frame.id msg
  | .streamEnd e => s.route e.id msg
  | .response _ => s

/-- No sender of the queue is left. -/
def orphaned (s : Connection) (i : Nat) : Bool := s.streams.entries.all (fun entry => entry.2 ≠ i)

end Connection

namespace StreamTask

/-- A read of the task's queue, if it does not have to wait. -/
def readMessage (orphaned : Bool) (task : StreamTask) : Option (Result (Option Message) × StreamTask) :=
  match task.queue with
  | msg :: rest => some (readQueue msg, { task with queue := rest })
  | [] => if orphaned then some (.ok none, task) else none

/-- One pass of the loop that looks for the first data frame. -/
def firstFrame (task : StreamTask) : Result (Option Message) → StreamTask
  | .ok (some (.stream frame)) =>
      if frame.id = task.opened.id then { task with phase := .chain frame, dispatched := true } else task
  | .ok (some (.streamEnd e)) => if e.id = task.opened.id then { task with phase := .leaving } else task
  | .ok (some _) => task
  | .ok none | .error _ => { task with phase := .leaving }

def recvPass (task : StreamTask) (r : Receiver) (result : Result (Option Message)) : StreamTask :=
  let (told, r) := r.take result
  match told with
  | some (.ok (some frame)) => { task with phase := .handling r, received := task.received ++ [frame] }
  | _ => { task with phase := .handling r }

end StreamTask

/-- A task looks for its first frame, enters the end of the chain with a stream
that middlewares may have changed, has its handler read, leaves chain and handler. -/
inductive Act where
  | look
  | enter (opened : StreamOpenMsg)
  | recv
  | leave

def StreamTask.act (hasStream : String → Bool) (orphaned : Bool) (task : StreamTask) : Act → Option StreamTask
  | .look =>
      match task.phase with
      | .awaiting => (task.readMessage orphaned).map (fun read => read.2.firstFrame read.1)
      | _ => none
  | .enter opened =>
      match task.phase with
      | .chain first =>
          if hasStream opened.name then
            some { task with phase := .handling (.new ⟨[], first, opened.metadata, opened.name⟩) }
          else some { task with phase := .leaving }
      | _ => none
  | .recv =>
      match task.phase with
      | .handling r =>
          if r.ended then some task
          else
            match r.pending with
            | some first =>
                some { task with phase := .handling { r with pending := none }, received := task.received ++ [first] }
            | none => (task.readMessage orphaned).map (fun read => read.2.recvPass r read.1)
      | _ => none
  | .leave =>
      match task.phase with
      | .chain _ | .handling _ => some { task with phase := .leaving }
      | _ => none

/-- The loop reads a frame, is done with a handler, loses the connection; a task
acts, or takes its entry out of the table. -/
inductive Label where
  | receive (msg : Message)
  | returned
  | lost
  | act (i : Nat) (what : Act)
  | remove (i : Nat)

def step (hasStream : String → Bool) : Step Connection Label
  | s, .receive msg => if s.loop = .reading then some (s.receive hasStream msg) else none
  | s, .returned => if s.loop = .handling then some { s with loop := .reading } else none
  | s, .lost => if s.loop = .reading then some { s with loop := .ended } else none
  | s, .act i what =>
      match s.tasks[i]? with
      | some task => (task.act hasStream (s.orphaned i) what).map (s.setTask i)
      | none => none
  | s, .remove i =>
      match s.tasks[i]? with
      | some task =>
          match task.phase with
          | .leaving =>
              some { s.setTask i { task with phase := .removed } with streams := s.streams.erase task.opened.id }
          | _ => none
      | none => none

/-- What a task can do on its own. -/
inductive Moves (orphaned : Bool) (task : StreamTask) : Act → StreamTask → Prop
  | looked {result rest} (phase : task.phase = .awaiting) (read : task.readMessage orphaned = some (result, rest)) :
      Moves orphaned task .look (rest.firstFrame result)
  | entered {first opened} (phase : task.phase = .chain first) :
      Moves orphaned task (.enter opened)
        { task with phase := .handling (.new ⟨[], first, opened.metadata, opened.name⟩) }
  | told {r} (phase : task.phase = .handling r) (closed : r.ended = true) : Moves orphaned task .recv task
  | first {r first} (phase : task.phase = .handling r) (live : r.ended = false) (pending : r.pending = some first) :
      Moves orphaned task .recv
        { task with phase := .handling { r with pending := none }, received := task.received ++ [first] }
  | received {r result rest} (phase : task.phase = .handling r) (live : r.ended = false) (taken : r.pending = none)
      (read : task.readMessage orphaned = some (result, rest)) : Moves orphaned task .recv (rest.recvPass r result)
  | left {what} (apart : what ≠ .recv) (dispatched : (∃ first, task.phase = .chain first) ∨ ∃ r, task.phase = .handling r) :
      Moves orphaned task what { task with phase := .leaving }

theorem act_moves {hasStream : String → Bool} {orphaned : Bool} {task later : StreamTask} {what : Act}
    (acted : task.act hasStream orphaned what = some later) : Moves orphaned task what later := by
  cases what with
  | look =>
    rw [StreamTask.act] at acted
    split at acted
    · rename_i phase
      obtain ⟨⟨result, rest⟩, read, rfl⟩ := Option.map_eq_some_iff.1 acted
      exact .looked phase read
    · cases acted
  | enter opened =>
    rw [StreamTask.act] at acted
    split at acted
    · rename_i first phase
      split at acted
      · cases acted
        exact .entered phase
      · cases acted
        exact .left Act.noConfusion (.inl ⟨first, phase⟩)
    · cases acted
  | recv =>
    rw [StreamTask.act] at acted
    split at acted
    · rename_i r phase
      split at acted
      · rename_i closed
        cases acted
        exact .told phase closed
      · rename_i live
        rw [Bool.not_eq_true] at live
        split at acted
        · rename_i first pending
          cases acted
          exact .first phase live pending
        · rename_i taken
          obtain ⟨⟨result, rest⟩, read, rfl⟩ := Option.map_eq_some_iff.1 acted
          exact .received phase live taken read
    · cases acted
  | leave =>
    rw [StreamTask.act] at acted
    split at acted
    · rename_i first phase
      cases acted
      exact .left Act.noConfusion (.inl ⟨first, phase⟩)
    · rename_i r phase
      cases acted
      exact .left Act.noConfusion (.inr ⟨r, phase⟩)
    · cases acted

inductive Effect (hasStream : String → Bool) (s : Connection) : Label → Connection → Prop
  | received {msg} (reading : s.loop = .reading) : Effect hasStream s (.receive msg) (s.receive hasStream msg)
  | looped {label} (apart : ∀ i, label ≠ .act i .recv) (loop : LoopPhase) : Effect hasStream s label { s with loop }
  | moved {i what task later} (found : s.tasks[i]? = some task) (moves : Moves (s.orphaned i) task what later) :
      Effect hasStream s (.act i what) (s.setTask i later)
  | removed {i task} (found : s.tasks[i]? = some task) (phase : task.phase = .leaving) :
      Effect hasStream s (.remove i)
        { s.setTask i { task with phase := .removed } with streams := s.streams.erase task.opened.id }

variable {hasStream : String → Bool} {s t : Connection} {label : Label}

theorem step_effect (stepped : step hasStream s label = some t) : Effect hasStream s label t := by
  cases label with
  | receive msg =>
    rw [step] at stepped
    split at stepped
    · rename_i reading
      cases stepped
      exact .received reading
    · cases stepped
  | returned =>
    rw [step] at stepped
    split at stepped
    · cases stepped
      exact .looped (fun _ => Label.noConfusion) .reading
    · cases stepped
  | lost =>
    rw [step] at stepped
    split at stepped
    · cases stepped
      exact .looped (fun _ => Label.noConfusion) .ended
    · cases stepped
  | act i what =>
    rw [step] at stepped
    split at stepped
    · rename_i task found
      obtain ⟨later, acted, rfl⟩ := Option.map_eq_some_iff.1 stepped
      exact .moved found (act_moves acted)
    · cases stepped
  | remove i =>
    rw [step] at stepped
    split at stepped
    · rename_i task found
      split at stepped
      · rename_i phase
        cases stepped
        exact .removed found phase
      · cases stepped
    · cases stepped

end EchoStream.Transport.WsStreams
