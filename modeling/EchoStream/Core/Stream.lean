import EchoStream.Core.Handler

/-! The two ends of a stream. The sender announces the stream ahead of its first
frame, numbers its frames, and ends with a frame of its own. The receiver gives
back the first frame, which the dispatcher has read already, then what it reads
itself, and remembers how the stream ended. -/

namespace EchoStream.Core.Stream
open Proto.Messages
open Handler

structure SendIo where
  failure : Nat → Option Error
  calls : Nat
  written : List Message
  finished : Bool

namespace SendIo

def writeMessage (io : SendIo) (msg : Message) : Result Unit × SendIo :=
  match io.failure io.calls with
  | some e => (.error e, { io with calls := io.calls + 1 })
  | none => (.ok (), { io with calls := io.calls + 1, written := io.written ++ [msg] })

def finish (io : SendIo) : Result Unit × SendIo :=
  match io.failure io.calls with
  | some e => (.error e, { io with calls := io.calls + 1 })
  | none => (.ok (), { io with calls := io.calls + 1, finished := true })

theorem finish_written (io : SendIo) : io.finish.2.written = io.written := by
  unfold finish
  cases io.failure io.calls <;> rfl

end SendIo

structure StreamSender where
  io : SendIo
  id : UInt64
  name : String
  seq : UInt64
  metadata : List StreamMetaEntry
  opened : Bool

namespace StreamSender

def new (io : SendIo) (id : UInt64) (name : String) (metadata : List StreamMetaEntry) : StreamSender :=
  { io, id, name, seq := 0, metadata, opened := false }

def write (s : StreamSender) (msg : Message) : Result Unit × StreamSender :=
  let (result, io) := s.io.writeMessage msg
  (result, { s with io })

/-- The announcement, ahead of the first frame only. -/
def announce (s : StreamSender) : Result Unit × StreamSender :=
  if s.opened then (.ok (), s)
  else
    match s.write (.streamOpen ⟨s.id, s.name, s.metadata⟩) with
    | (.error e, s) => (.error e, s)
    | (.ok _, s) => (.ok (), { s with opened := true })

def sendRaw (now : Timestamp) (data : Bytes) (s : StreamSender) : Result Unit × StreamSender :=
  match s.announce with
  | (.error e, s) => (.error e, s)
  | (.ok _, s) =>
      let frame : StreamMsg := ⟨s.id, s.seq, now, data⟩
      { s with seq := s.seq + 1 }.write (.stream frame)

def finishWith (code : UInt16) (message : Option String) (metadata : List StreamMetaEntry) (s : StreamSender) :
    Result Unit × StreamSender :=
  match s.write (.streamEnd ⟨s.id, code, message, metadata⟩) with
  | (.error e, s) => (.error e, s)
  | (.ok _, s) =>
      let (result, io) := s.io.finish
      (result, { s with io })

def sendAll : List (Timestamp × Bytes) → StreamSender → Result Unit × StreamSender
  | [], s => (.ok (), s)
  | (now, data) :: rest, s =>
      match s.sendRaw now data with
      | (.error e, s) => (.error e, s)
      | (.ok _, s) => sendAll rest s

def framesFrom (id : UInt64) : UInt64 → List (Timestamp × Bytes) → List StreamMsg
  | _, [] => []
  | seq, (now, data) :: rest => ⟨id, seq, now, data⟩ :: framesFrom id (seq + 1) rest

variable {s : StreamSender}

theorem write_ok (s : StreamSender) (msg : Message) (succeeds : (s.write msg).1 = .ok ()) :
    ∃ io, (s.write msg).2 = { s with io } ∧ io.written = s.io.written ++ [msg] := by
  unfold write SendIo.writeMessage at succeeds
  unfold write SendIo.writeMessage
  cases failed : s.io.failure s.io.calls with
  | some e =>
    rw [failed] at succeeds
    cases succeeds
  | none => exact ⟨_, rfl, rfl⟩

theorem announce_ok (succeeds : s.announce.1 = .ok ()) :
    ∃ io, s.announce.2 = { s with io, opened := true } ∧
      io.written = s.io.written ++ if s.opened then [] else [.streamOpen ⟨s.id, s.name, s.metadata⟩] := by
  unfold announce at succeeds ⊢
  cases opened : s.opened with
  | true =>
    refine ⟨s.io, ?_, (List.append_nil _).symm⟩
    rw [if_pos rfl, ← opened]
  | false =>
    rw [opened, if_neg Bool.false_ne_true] at succeeds
    rw [if_neg Bool.false_ne_true]
    have wrote := write_ok s (.streamOpen ⟨s.id, s.name, s.metadata⟩)
    generalize s.write (.streamOpen ⟨s.id, s.name, s.metadata⟩) = written at succeeds wrote ⊢
    obtain ⟨result, t⟩ := written
    cases result with
    | error e => cases succeeds
    | ok value =>
      obtain ⟨io, rfl, more⟩ := wrote rfl
      exact ⟨io, rfl, more⟩

theorem sendRaw_ok {now : Timestamp} {data : Bytes} (succeeds : (s.sendRaw now data).1 = .ok ()) :
    ∃ io, (s.sendRaw now data).2 = { s with io, opened := true, seq := s.seq + 1 } ∧
      io.written = s.io.written ++ (if s.opened then [] else [.streamOpen ⟨s.id, s.name, s.metadata⟩]) ++
        [.stream ⟨s.id, s.seq, now, data⟩] := by
  unfold sendRaw at succeeds ⊢
  have opens := announce_ok (s := s)
  generalize s.announce = announced at succeeds opens ⊢
  obtain ⟨result, t⟩ := announced
  cases result with
  | error e => cases succeeds
  | ok value =>
    obtain ⟨io, rfl, open_written⟩ := opens rfl
    obtain ⟨last, same, written⟩ := write_ok _ _ succeeds
    exact ⟨last, same, by rw [written, open_written]⟩

theorem sendAll_cons_ok {now : Timestamp} {data : Bytes} {rest : List (Timestamp × Bytes)}
    (succeeds : (sendAll ((now, data) :: rest) s).1 = .ok ()) :
    (s.sendRaw now data).1 = .ok () ∧ (sendAll rest (s.sendRaw now data).2).1 = .ok () ∧
      sendAll ((now, data) :: rest) s = sendAll rest (s.sendRaw now data).2 := by
  rw [sendAll] at succeeds ⊢
  generalize s.sendRaw now data = sent at succeeds ⊢
  obtain ⟨result, t⟩ := sent
  cases result with
  | error e => cases succeeds
  | ok value => exact ⟨rfl, succeeds, rfl⟩

/-- What is sent is announced first, and then comes frame by frame. -/
theorem sendAll_ok {payloads : List (Timestamp × Bytes)} (succeeds : (sendAll payloads s).1 = .ok ()) :
    (sendAll payloads s).2.id = s.id ∧
      (sendAll payloads s).2.io.written = s.io.written ++
        (if s.opened ∨ payloads = [] then [] else [.streamOpen ⟨s.id, s.name, s.metadata⟩]) ++
        (framesFrom s.id s.seq payloads).map .stream := by
  induction payloads generalizing s with
  | nil => exact ⟨rfl, by simp [sendAll, framesFrom]⟩
  | cons payload rest ih =>
    obtain ⟨now, data⟩ := payload
    obtain ⟨first, more, same⟩ := sendAll_cons_ok succeeds
    obtain ⟨io, sent, written⟩ := sendRaw_ok first
    obtain ⟨id, wrote⟩ := ih more
    rw [sent] at id wrote
    rw [same, sent, id, wrote]
    refine ⟨rfl, ?_⟩
    rw [if_pos (Or.inl rfl), List.append_nil, written, List.append_assoc]
    simp [framesFrom]

theorem finishWith_ok {code : UInt16} {message : Option String} {metadata : List StreamMetaEntry}
    (succeeds : (s.finishWith code message metadata).1 = .ok ()) :
    (s.finishWith code message metadata).2.io.written =
      s.io.written ++ [.streamEnd ⟨s.id, code, message, metadata⟩] := by
  unfold finishWith at succeeds ⊢
  have wrote := write_ok s (.streamEnd ⟨s.id, code, message, metadata⟩)
  generalize s.write (.streamEnd ⟨s.id, code, message, metadata⟩) = ended at succeeds wrote ⊢
  obtain ⟨result, t⟩ := ended
  cases result with
  | error e => cases succeeds
  | ok value =>
    obtain ⟨io, rfl, more⟩ := wrote rfl
    rw [← more]
    exact io.finish_written

end StreamSender

/-- A `StreamReceiver` in a handler's hands. -/
structure Receiver where
  io : FrameIo
  id : UInt64
  name : String
  metadata : List StreamMetaEntry
  pending : Option StreamMsg
  endCode : UInt16
  endMessage : Option String
  endMetadata : List StreamMetaEntry
  ended : Bool
deriving DecidableEq

namespace Receiver

/-- As `StreamReceiver::new` and `with_name` leave it. -/
def new (given : StreamReceiver) : Receiver where
  io := given.recv
  id := given.first.id
  name := given.name
  metadata := given.metadata
  pending := some given.first
  endCode := 0
  endMessage := none
  endMetadata := []
  ended := false

/-- One pass of the loop of `recv_frame`: what is returned, or that it goes on. -/
def take (r : Receiver) : Result (Option Message) → Option (Result (Option StreamMsg)) × Receiver
  | .error e => (some (.error e), r)
  | .ok (some (.stream frame)) => if frame.id = r.id then (some (.ok (some frame)), r) else (none, r)
  | .ok (some (.streamEnd e)) =>
      if e.id = r.id then
        (some (.ok none),
          { r with endCode := e.code, endMessage := e.message, endMetadata := e.metadata, ended := true })
      else (none, r)
  | .ok (some _) => (none, r)
  | .ok none => (some (.ok none), { r with ended := true })

def recvLoop (r : Receiver) : FrameIo → Result (Option StreamMsg) × Receiver
  | [] => (.ok none, { r with io := [], ended := true })
  | result :: rest =>
      match r.take result with
      | (some got, r) => (got, { r with io := rest })
      | (none, r) => recvLoop r rest

def recvFrame (r : Receiver) : Result (Option StreamMsg) × Receiver :=
  if r.ended then (.ok none, r)
  else
    match r.pending with
    | some first => (.ok (some first), { r with pending := none })
    | none => r.recvLoop r.io

def recvFrames : Nat → Receiver → List (Result (Option StreamMsg)) × Receiver
  | 0, r => ([], r)
  | count + 1, r =>
      let (got, r) := r.recvFrame
      let (more, r) := recvFrames count r
      (got :: more, r)

/-- What a reader that goes on reading is told while the messages come in. -/
def feed : Receiver → List Message → List (Option StreamMsg) × Receiver
  | r, [] => ([], r)
  | r, msg :: rest =>
      if r.ended then ([], r)
      else
        match r.take (.ok (some msg)) with
        | (some (.ok got), r) =>
            let (more, r) := r.feed rest
            (got :: more, r)
        | (_, r) => r.feed rest

end Receiver

def heard (id : UInt64) : List Message → List (Option StreamMsg)
  | [] => []
  | .stream frame :: rest => if frame.id = id then some frame :: heard id rest else heard id rest
  | .streamEnd e :: rest => if e.id = id then [none] else heard id rest
  | _ :: rest => heard id rest

variable {id : UInt64} {r : Receiver}

theorem feed_heard (r : Receiver) (live : r.ended = false) (msgs : List Message) :
    (r.feed msgs).1 = heard r.id msgs := by
  have stays : ∀ (ended : Receiver) (rest : List Message), ended.ended = true → ended.feed rest = ([], ended) := by
    intro ended rest gone
    cases rest with
    | nil => rfl
    | cons msg rest => rw [Receiver.feed, if_pos gone]
  induction msgs with
  | nil => rfl
  | cons msg rest ih =>
    have going : ¬ r.ended = true := by rw [live]; exact Bool.noConfusion
    rw [Receiver.feed, if_neg going]
    cases msg with
    | stream frame =>
      by_cases own : frame.id = r.id
      · simp only [Receiver.take, heard, if_pos own, ih]
      · simp only [Receiver.take, heard, if_neg own, ih]
    | streamEnd e =>
      by_cases own : e.id = r.id
      · simp only [Receiver.take, heard, if_pos own]
        rw [stays _ rest rfl]
      · simp only [Receiver.take, heard, if_neg own, ih]
    | _ => simp only [Receiver.take, heard, ih]

end EchoStream.Core.Stream
