import EchoStream.Core.Connection
import EchoStream.Core.Stream

/-! A stream from its sender to a handler of the peer. The sender's frames come
in on a stream of their own, the dispatcher reads the announcement and the first
frame, and the handler's receiver gives back all frames and the end. -/

namespace EchoStream.Core.StreamTrip
open Foundation.Tasks
open Proto.Messages
open Handler Chain Dispatch Connection Core.Stream

theorem framesFrom_getElem (id seq : UInt64) (payloads : List (Timestamp × Bytes)) (i : Nat) :
    (StreamSender.framesFrom id seq payloads)[i]? =
      payloads[i]?.map (fun payload => ⟨id, seq + UInt64.ofNat i, payload.1, payload.2⟩) := by
  induction payloads generalizing seq i with
  | nil => rfl
  | cons payload rest ih =>
    cases i with
    | zero => simp [StreamSender.framesFrom]
    | succ i =>
      rw [StreamSender.framesFrom, List.getElem?_cons_succ, List.getElem?_cons_succ, ih]
      simp only [UInt64.ofNat_add, UInt64.add_assoc, UInt64.add_comm 1]
      rfl

def numbered (id : UInt64) (payloads : List (Timestamp × Bytes)) : List StreamMsg :=
  payloads.zipIdx.map (fun entry => ⟨id, UInt64.ofNat entry.2, entry.1.1, entry.1.2⟩)

theorem numbered_own {id : UInt64} {payloads : List (Timestamp × Bytes)} {frame : StreamMsg}
    (member : frame ∈ numbered id payloads) : frame.id = id := by
  obtain ⟨entry, _, rfl⟩ := List.mem_map.1 member
  rfl

theorem numbered_length (id : UInt64) (payloads : List (Timestamp × Bytes)) :
    (numbered id payloads).length = payloads.length := by
  rw [numbered, List.length_map, List.length_zipIdx]

theorem numbered_data (id : UInt64) (payloads : List (Timestamp × Bytes)) :
    (numbered id payloads).map (·.data) = payloads.map Prod.snd := by
  have parts : payloads.zipIdx.map (fun entry => entry.1.2) = (payloads.zipIdx.map Prod.fst).map Prod.snd :=
    (List.map_map ..).symm
  rw [List.zipIdx_map_fst] at parts
  rw [numbered, List.map_map, ← parts]
  rfl

theorem framesFrom_eq (id : UInt64) (payloads : List (Timestamp × Bytes)) :
    StreamSender.framesFrom id 0 payloads = numbered id payloads := by
  apply List.ext_getElem?
  intro i
  rw [framesFrom_getElem, numbered, List.getElem?_map, List.getElem?_zipIdx, Option.map_map]
  simp only [UInt64.zero_add, Nat.zero_add]
  rfl

section Receiving

variable {r : Receiver}

theorem recvFrames_ended (ended : r.ended = true) (count : Nat) :
    r.recvFrames count = (List.replicate count (.ok none), r) := by
  induction count with
  | zero => rfl
  | succ count ih =>
    rw [Receiver.recvFrames, Receiver.recvFrame, if_pos ended]
    simp only [ih]
    rfl

def arrived (frame : StreamMsg) : Result (Option Message) := .ok (some (.stream frame))

/-- A receiver that has given back its first frame gives back the others, and then
reports the end for good. -/
theorem recvFrames_rest (frames : List StreamMsg) (own : ∀ frame ∈ frames, frame.id = r.id) (e : StreamEndMsg)
    (ends : e.id = r.id) (live : r.ended = false) (taken : r.pending = none)
    (io : r.io = frames.map arrived ++ [.ok (some (.streamEnd e))]) (later : Nat) :
    r.recvFrames (frames.length + (later + 1)) =
      (frames.map (fun frame => .ok (some frame)) ++ List.replicate (later + 1) (.ok none),
        { r with io := [], endCode := e.code, endMessage := e.message, endMetadata := e.metadata, ended := true }) := by
  induction frames generalizing r with
  | nil =>
    have last : r.recvFrame =
        (.ok none, { r with io := [], endCode := e.code, endMessage := e.message, endMetadata := e.metadata, ended := true }) := by
      simp [Receiver.recvFrame, live, taken, io, Receiver.recvLoop, Receiver.take, ends]
    rw [List.length_nil, Nat.zero_add, Receiver.recvFrames, last]
    simp only [recvFrames_ended]
    rfl
  | cons frame rest ih =>
    have next : r.recvFrame = (.ok (some frame), { r with io := rest.map arrived ++ [.ok (some (.streamEnd e))] }) := by
      simp [Receiver.recvFrame, live, taken, io, Receiver.recvLoop, Receiver.take, arrived,
        own frame (List.mem_cons_self ..)]
    have more := ih (r := { r with io := rest.map arrived ++ [.ok (some (.streamEnd e))] })
      (fun other member => own other (List.mem_cons_of_mem _ member)) ends live taken rfl
    rw [List.length_cons, Nat.add_right_comm, Receiver.recvFrames, next]
    simp only [more]
    rfl

theorem recvFrames_all (first : StreamMsg) (frames : List StreamMsg) (own : ∀ frame ∈ frames, frame.id = first.id)
    (e : StreamEndMsg) (ends : e.id = first.id) (metadata : List StreamMetaEntry) (name : String) (later : Nat) :
    (Receiver.new ⟨frames.map arrived ++ [.ok (some (.streamEnd e))], first, metadata, name⟩).recvFrames
        (frames.length + 1 + (later + 1)) =
      ((first :: frames).map (fun frame => .ok (some frame)) ++ List.replicate (later + 1) (.ok none),
        { io := [], id := first.id, name, metadata, pending := none, endCode := e.code, endMessage := e.message,
          endMetadata := e.metadata, ended := true }) := by
  rw [Nat.add_right_comm, Receiver.recvFrames]
  simp only [Receiver.recvFrame, Receiver.new, Bool.false_eq_true, if_false]
  rw [recvFrames_rest frames own e ends rfl rfl rfl]
  rfl

end Receiving

variable {ω : Type} {clock : Clock ω} {router : Router ω} {session : SessionId}

theorem takeReceiver_eval (before : List (Option FrameIo)) (recv : FrameIo) (world : World ω)
    (kept : world.receivers = before ++ [some recv]) :
    (takeReceiver before.length).eval world = (some recv, { world with receivers := before ++ [none] }) := by
  have found : world.receivers[before.length]?.join = some recv := by
    rw [kept, List.getElem?_concat_length]
    rfl
  have taken : world.receivers.set before.length none = before ++ [none] := by
    rw [kept, List.set_append_right _ _ (Nat.le_refl _), Nat.sub_self]
    rfl
  rw [← found, ← taken]
  rfl

theorem streamTerminal_eval (session : SessionId) {entry : Token × StreamHandler ω} (opened : StreamOpenMsg)
    (registered : router.stream.lookup opened.name = some entry) (first : StreamMsg) (before : List (Option FrameIo))
    (recv : FrameIo) (world : World ω) (kept : world.receivers = before ++ [some recv]) :
    ((streamTerminal router session before.length first (.streamOpen opened)).eval world).2 =
      { world with
        app := ((entry.2.handle session ⟨recv, first, opened.metadata, opened.name⟩).eval world.app).2
        receivers := before ++ [none]
        trace := world.trace ++ [.reached session (.streamOpen opened),
          .ran .stream session entry.1 opened.name first.data] } := by
  have took := takeReceiver_eval before recv (world.note (.reached session (.streamOpen opened))) kept
  rw [streamTerminal, Task.eval_bind, eval_note]
  simp only [Task.eval_bind, took, registered, handleStream, eval_note, eval_onApp]
  simp only [World.note, World.setApp, List.append_assoc]
  generalize (entry.2.handle session ⟨recv, first, opened.metadata, opened.name⟩).eval world.app = handled
  obtain ⟨result, app⟩ := handled
  cases result <;> rfl

/-- With no middlewares the handler of the name runs once, on a receiver of the
stream. -/
theorem dispatchStream_plain {entry : Token × StreamHandler ω} (plain : router.middlewares = [])
    (opened : StreamOpenMsg) (registered : router.stream.lookup opened.name = some entry) (first : StreamMsg)
    (own : first.id = opened.id) (recv : FrameIo) (world : World ω) :
    ((dispatchStream clock router session (arrived first :: recv) opened).eval world).2 =
      { world with
        app := ((entry.2.handle session ⟨recv, first, opened.metadata, opened.name⟩).eval world.app).2
        receivers := world.receivers ++ [none]
        trace := world.trace ++ [.reached session (.streamOpen opened),
          .ran .stream session entry.1 opened.name first.data] } := by
  have read : firstFrame opened.id (arrived first :: recv) =
      .step (fun world : World ω => world) (fun _ => .done (some (first, recv))) := by
    simp only [firstFrame, arrived, if_pos own]
    rfl
  have terminal := streamTerminal_eval session opened registered first world.receivers recv
    { world with receivers := world.receivers ++ [some recv] } rfl
  rw [dispatchStream, read]
  simp only [Task.eval_bind, Task.eval_step, Task.eval_done, keepReceiver, runChain_eq_onion, plain, List.map_nil,
    onion_nil, terminal, Task.eval_pure]

theorem sent_written (io : SendIo) (fresh : io.written = []) (id : UInt64) (name : String)
    (metadata trailers : List StreamMetaEntry) (payloads : List (Timestamp × Bytes)) (nonempty : payloads ≠ [])
    (code : UInt16) (message : Option String)
    (sent : (StreamSender.sendAll payloads (.new io id name metadata)).1 = .ok ())
    (finished : ((StreamSender.sendAll payloads (.new io id name metadata)).2.finishWith code message trailers).1 = .ok ()) :
    ((StreamSender.sendAll payloads (.new io id name metadata)).2.finishWith code message trailers).2.io.written =
      .streamOpen ⟨id, name, metadata⟩ :: (numbered id payloads).map .stream ++ [.streamEnd ⟨id, code, message, trailers⟩] := by
  obtain ⟨same, written⟩ := StreamSender.sendAll_ok sent
  have unopened : ¬ ((StreamSender.new io id name metadata).opened = true ∨ payloads = []) := by
    rintro (opened | empty)
    · cases opened
    · exact nonempty empty
  rw [StreamSender.finishWith_ok finished, written, same, if_neg unopened]
  simp only [StreamSender.new, fresh, framesFrom_eq]
  rfl

/-- What is written of a stream with a frame runs the handler of its name on a receiver
with that frame, the others ahead of it. -/
theorem serve_written (front : Front) (dir : Direction) (clock : Clock ω) (session : SessionId) (stream : Nat)
    (world : World ω) {name : String} {entry : Token × StreamHandler ω} (plain : router.middlewares = [])
    (registered : router.stream.lookup name = some entry) (id : UInt64) (metadata : List StreamMetaEntry)
    (first : StreamMsg) (own : first.id = id) (frames : List StreamMsg) (e : StreamEndMsg) :
    ((serve front dir clock router session stream ((Message.streamOpen ⟨id, name, metadata⟩ ::
        (first :: frames).map Message.stream ++ [Message.streamEnd e]).map (fun msg => .ok (some msg)))).eval world).2 =
      { world with
        app := ((entry.2.handle session ⟨frames.map arrived ++ [.ok (some (.streamEnd e))], first, metadata, name⟩).eval
          world.app).2
        receivers := world.receivers ++ [none]
        trace := world.trace ++ [.reached session (.streamOpen ⟨id, name, metadata⟩),
          .ran .stream session entry.1 name first.data] } := by
  let recv : FrameIo := frames.map arrived ++ [.ok (some (.streamEnd e))]
  have contents : (Message.streamOpen ⟨id, name, metadata⟩ :: (first :: frames).map Message.stream ++ [Message.streamEnd e]).map
      (fun msg => (.ok (some msg) : Result (Option Message))) =
        .ok (some (.streamOpen ⟨id, name, metadata⟩)) :: arrived first :: recv := by
    simp [recv, arrived, Function.comp_def]
  have dispatched : ((dispatchStream clock router session (arrived first :: recv) ⟨id, name, metadata⟩).eval world).2 = _ :=
    dispatchStream_plain plain ⟨id, name, metadata⟩ registered first own recv world
  rw [contents, ← dispatched]
  cases dir <;> rfl

/-- What is written of a stream that is sent and finished runs the handler of its name once,
on a receiver of its frames and of the end it was given. -/
theorem serve_sent (front : Front) (dir : Direction) (clock : Clock ω) (session : SessionId) (stream : Nat)
    (world : World ω) {name : String} {entry : Token × StreamHandler ω} (plain : router.middlewares = [])
    (registered : router.stream.lookup name = some entry) (io : SendIo) (fresh : io.written = []) (id : UInt64)
    (metadata trailers : List StreamMetaEntry) (payloads : List (Timestamp × Bytes)) (nonempty : payloads ≠ [])
    (code : UInt16) (message : Option String)
    (sent : (StreamSender.sendAll payloads (.new io id name metadata)).1 = .ok ())
    (finished : ((StreamSender.sendAll payloads (.new io id name metadata)).2.finishWith code message trailers).1 = .ok ()) :
    ∃ first frames, numbered id payloads = first :: frames ∧ first.id = id ∧ (∀ frame ∈ frames, frame.id = first.id) ∧
      ((serve front dir clock router session stream
          (((StreamSender.sendAll payloads (.new io id name metadata)).2.finishWith code message trailers).2.io.written.map
            (fun msg => .ok (some msg)))).eval world).2 =
        { world with
          app := ((entry.2.handle session
            ⟨frames.map arrived ++ [.ok (some (.streamEnd ⟨id, code, message, trailers⟩))], first, metadata, name⟩).eval world.app).2
          receivers := world.receivers ++ [none]
          trace := world.trace ++ [.reached session (.streamOpen ⟨id, name, metadata⟩),
            .ran .stream session entry.1 name first.data] } := by
  have wrote := sent_written io fresh id name metadata trailers payloads nonempty code message sent finished
  have own : ∀ frame ∈ numbered id payloads, frame.id = id := fun frame member => numbered_own member
  have size := numbered_length id payloads
  cases all : numbered id payloads with
  | nil =>
    rw [all] at size
    exact absurd (List.length_eq_zero_iff.1 size.symm) nonempty
  | cons first frames =>
    rw [all] at wrote own
    have firstOwn : first.id = id := own first (List.mem_cons_self ..)
    have restOwn : ∀ frame ∈ frames, frame.id = first.id := fun frame member => by
      rw [firstOwn]
      exact own frame (List.mem_cons_of_mem _ member)
    refine ⟨first, frames, rfl, firstOwn, restOwn, ?_⟩
    rw [wrote]
    exact serve_written front dir clock session stream world plain registered id metadata first firstOwn frames
      ⟨id, code, message, trailers⟩

/-- A stream that is sent and finished runs the handler of its name once, with a
receiver that gives back the payloads in order and then the end it was given. -/
theorem stream_arrives (front : Front) (dir : Direction) (clock : Clock ω) (router : Router ω) (session : SessionId)
    (stream : Nat) (world : World ω) (name : String) {entry : Token × StreamHandler ω}
    (plain : router.middlewares = []) (registered : router.stream.lookup name = some entry)
    (io : SendIo) (fresh : io.written = []) (id : UInt64) (metadata trailers : List StreamMetaEntry)
    (payloads : List (Timestamp × Bytes)) (nonempty : payloads ≠ []) (code : UInt16) (message : Option String)
    (sent : (StreamSender.sendAll payloads (.new io id name metadata)).1 = .ok ())
    (finished : ((StreamSender.sendAll payloads (.new io id name metadata)).2.finishWith code message trailers).1 = .ok ()) :
    let written := ((StreamSender.sendAll payloads (.new io id name metadata)).2.finishWith code message trailers).2.io.written
    let served := ((serve front dir clock router session stream (written.map (fun msg => .ok (some msg)))).eval world).2
    ∃ given : StreamReceiver, given.name = name ∧ given.metadata = metadata ∧
      served.app = ((entry.2.handle session given).eval world.app).2 ∧
      served.trace = world.trace ++ [.reached session (.streamOpen ⟨id, name, metadata⟩),
        .ran .stream session entry.1 name given.first.data] ∧
      ∀ later, let told := (Receiver.new given).recvFrames (payloads.length + (later + 1))
        told.1 = (numbered id payloads).map (fun frame => .ok (some frame)) ++ List.replicate (later + 1) (.ok none) ∧
          told.2.endCode = code ∧ told.2.endMessage = message ∧ told.2.endMetadata = trailers := by
  intro written served
  obtain ⟨first, frames, all, firstOwn, restOwn, dispatched⟩ := serve_sent front dir clock session stream world plain registered
    io fresh id metadata trailers payloads nonempty code message sent finished
  have size := numbered_length id payloads
  rw [all] at size
  refine ⟨⟨frames.map arrived ++ [.ok (some (.streamEnd ⟨id, code, message, trailers⟩))], first, metadata, name⟩, rfl, rfl,
    congrArg World.app dispatched, congrArg World.trace dispatched, fun later => ?_⟩
  have told := recvFrames_all first frames restOwn ⟨id, code, message, trailers⟩ firstOwn.symm metadata name later
  rw [← List.length_cons, size] at told
  rw [told, all]
  exact ⟨rfl, rfl, rfl, rfl⟩

private def listening : Router Unit := (Router.new.addStream ⟨"a", fun _ _ => pure (.ok ())⟩).1

private def wire : SendIo := { failure := fun _ => none, calls := 0, written := [], finished := false }

theorem stream_arrives_pushed :
    ∃ given : StreamReceiver, given.name = "a" ∧
      ((Receiver.new given).recvFrames 4).1 =
        [.ok (some ⟨7, 0, ⟨5⟩, [1]⟩), .ok (some ⟨7, 1, ⟨6⟩, [2]⟩), .ok none, .ok none] := by
  obtain ⟨given, named, -, -, -, told⟩ :=
    stream_arrives .client .uni (fun _ _ => false) listening 0 0 ⟨⟨fun _ _ => none, ()⟩, [], [], []⟩
      "a" rfl rfl wire rfl 7 [] [] [(⟨5⟩, [1]), (⟨6⟩, [2])] (by decide) 3 none rfl rfl
  exact ⟨given, named, (told 1).1⟩

end EchoStream.Core.StreamTrip
