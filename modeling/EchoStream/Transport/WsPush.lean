import Mathlib.Data.List.ReduceOption
import Mathlib.Logic.Function.Basic
import EchoStream.Core.InboundStreams
import EchoStream.Core.StreamTrip
import EchoStream.Foundation.Queues

/-! Streams that the server pushes to the browser. All senders of a session write
to the one WebSocket, frame by frame and in any interleaving with each other and with the
other messages of the server. The client's state machine tells the streams apart by their ids. -/

namespace EchoStream.Transport.WsPush
open Foundation.Run Foundation.Queues
open Proto.Messages
open Core.Stream Core.StateMachine Core.InboundStreams

/-- A call of `send_raw` that came to write its frame. -/
structure Send where
  now : Timestamp
  data : Bytes
  written : Bool

/-- A sender, the payload of the call of `send_raw` that is under way, and what was written: the
frames among its sends, and in `told` what there is to tell of since the stream is announced. -/
structure Pushing where
  place : Nat
  sender : StreamSender
  pending : Option (Timestamp × Bytes)
  sends : List Send
  told : List (Option StreamMsg)

structure Wire where
  nextMsgId : UInt64
  taken : Nat
  senders : Nat → Option Pushing
  sent : List Message
  down : Pipe Message
  received : List Message

def Wire.init : Wire := ⟨1, 0, fun _ => none, [], .empty, []⟩

inductive Label where
  | takeId
  | create (k : Nat) (name : String) (metadata : List StreamMetaEntry) (failure : Nat → Option Error)
  | announce (k : Nat) (now : Timestamp) (data : Bytes)
  | frame (k : Nat)
  | cancel (k : Nat)
  | finish (k : Nat) (code : UInt16) (message : Option String) (metadata : List StreamMetaEntry)
  | push (msg : Message)
  | deliver
  | sever (kept : Nat)

def ofStream : Message → Bool
  | .streamOpen _ | .stream _ | .streamEnd _ => true
  | _ => false

namespace Wire

def put (s : Wire) (msg : Message) : Wire := { s with sent := s.sent ++ [msg], down := s.down.put msg }

def setSender (s : Wire) (k : Nat) (p : Pushing) : Wire := { s with senders := Function.update s.senders k (some p) }

def takeId (s : Wire) : Wire := { s with nextMsgId := s.nextMsgId + 1, taken := s.taken + 1 }

def create (k : Nat) (name : String) (metadata : List StreamMetaEntry) (failure : Nat → Option Error) (s : Wire) :
    Option Wire :=
  match s.senders k with
  | none =>
      some (s.takeId.setSender k ⟨s.taken, .new ⟨failure, 0, [], false⟩ s.nextMsgId name metadata, none, [], []⟩)
  | some _ => none

def announce (k : Nat) (now : Timestamp) (data : Bytes) (s : Wire) : Option Wire :=
  match s.senders k with
  | some p =>
      if p.pending.isSome then none
      else if p.sender.opened then some (s.setSender k { p with pending := some (now, data) })
      else
        match p.sender.announce with
        | (.ok _, sender) =>
            some ((s.setSender k { p with sender, pending := some (now, data) }).put
              (.streamOpen ⟨p.sender.id, p.sender.name, p.sender.metadata⟩))
        | (.error _, sender) => some (s.setSender k { p with sender })
  | none => none

def frame (k : Nat) (s : Wire) : Option Wire :=
  match s.senders k with
  | some p =>
      match p.pending with
      | some (now, data) =>
          let msg : StreamMsg := ⟨p.sender.id, p.sender.seq, now, data⟩
          match { p.sender with seq := p.sender.seq + 1 }.write (.stream msg) with
          | (.ok _, sender) =>
              some ((s.setSender k { p with
                sender, pending := none, sends := p.sends ++ [⟨now, data, true⟩], told := p.told ++ [some msg] }).put
                (.stream msg))
          | (.error _, sender) =>
              some (s.setSender k { p with sender, pending := none, sends := p.sends ++ [⟨now, data, false⟩] })
      | none => none
  | none => none

/-- The call of `send_raw` is given up between its parts. -/
def cancel (k : Nat) (s : Wire) : Option Wire :=
  match s.senders k with
  | some p => some (s.setSender k { p with pending := none })
  | none => none

/-- An end is written for a stream that is not announced, too, and nobody is told of it. -/
def finish (k : Nat) (code : UInt16) (message : Option String) (metadata : List StreamMetaEntry) (s : Wire) : Option Wire :=
  match s.senders k with
  | some p =>
      if p.pending.isSome then none
      else
        let (_, sender) := p.sender.finishWith code message metadata
        match p.sender.write (.streamEnd ⟨p.sender.id, code, message, metadata⟩) with
        | (.ok _, _) =>
            some ((s.setSender k { p with sender, told := if p.sender.opened then p.told ++ [none] else p.told }).put
              (.streamEnd ⟨p.sender.id, code, message, metadata⟩))
        | (.error _, _) => some (s.setSender k { p with sender })
  | none => none

def push (msg : Message) (s : Wire) : Option Wire := if ofStream msg then none else some (s.put msg)

def deliver (s : Wire) : Option Wire :=
  match s.down.items with
  | msg :: rest => some { s with down := { s.down with items := rest }, received := s.received ++ [msg] }
  | [] => none

end Wire

def step : Step Wire Label
  | s, .takeId => some s.takeId
  | s, .create k name metadata failure => s.create k name metadata failure
  | s, .announce k now data => s.announce k now data
  | s, .frame k => s.frame k
  | s, .cancel k => s.cancel k
  | s, .finish k code message metadata => s.finish k code message metadata
  | s, .push msg => s.push msg
  | s, .deliver => s.deliver
  | s, .sever kept => some { s with down := s.down.sever kept }

/-- The frames among the sends, each with the number of its send. -/
def framesOf (id : UInt64) (sends : List Send) : List StreamMsg :=
  sends.zipIdx.filterMap (fun entry =>
    if entry.1.written then some ⟨id, UInt64.ofNat entry.2, entry.1.now, entry.1.data⟩ else none)

theorem framesOf_append (id : UInt64) (sends : List Send) (send : Send) :
    framesOf id (sends ++ [send]) = framesOf id sends ++
      if send.written then [⟨id, UInt64.ofNat sends.length, send.now, send.data⟩] else [] := by
  rw [framesOf, List.zipIdx_append, List.filterMap_append, ← framesOf]
  cases written : send.written <;> simp [written]

/-- What the client knows of the stream after what was sent, and whom it called for it. -/
structure Faithful (core : ClientCore) (sent : List Message) (p : Pushing) : Prop where
  named : (handleAll core sent).streamNames.lookup p.sender.id = if p.sender.opened then some p.sender.name else none
  heard : ∀ listener, core.streams.lookup p.sender.name = some listener →
    delivered (p.sender.name, listener) p.sender.id core sent = p.told

/-- Ids and numbers of frames come from counters, and a frame is only written once announced. -/
structure Counted (p : Pushing) : Prop where
  id : p.sender.id = UInt64.ofNat (p.place + 1)
  seq : p.sender.seq = UInt64.ofNat p.sends.length
  frames : p.told.reduceOption = framesOf p.sender.id p.sends
  announced : p.pending.isSome → p.sender.opened = true

structure Kept (core : ClientCore) (s : Wire) : Prop where
  next : s.nextMsgId = UInt64.ofNat (s.taken + 1)
  carries : Carries s.sent s.received s.down
  counted : ∀ k p, s.senders k = some p → Counted p
  places : ∀ k p, s.senders k = some p → p.place < s.taken
  apart : ∀ j k p q, s.senders j = some p → s.senders k = some q → p.place = q.place → j = k
  faithful : s.taken < 2 ^ 64 → ∀ k p, s.senders k = some p → Faithful core s.sent p
  unopened : s.taken < 2 ^ 64 → ∀ id, (∀ k p, s.senders k = some p → p.sender.id ≠ id) →
    (handleAll core s.sent).streamNames.lookup id = none ∧ ∀ handler, delivered handler id core s.sent = []

/-- More that is sent tells the client nothing about the id. -/
def Quiet (core : ClientCore) (id : UInt64) (sent more : List Message) : Prop :=
  (handleAll core more).streamNames.lookup id = (handleAll core sent).streamNames.lookup id ∧
    ∀ handler, delivered handler id core more = delivered handler id core sent

variable {core : ClientCore} {s t : Wire} {k : Nat} {p : Pushing} {id : UInt64} {sent : List Message} {msg : Message}

theorem Quiet.refl (core : ClientCore) (id : UInt64) (sent : List Message) : Quiet core id sent sent := ⟨rfl, fun _ => rfl⟩

/-- A message that neither opens the stream nor has something to tell of it is quiet. -/
theorem Quiet.foreign (core : ClientCore) (sent : List Message) (silent : told id msg = none) (unnamed : opening id msg = none) :
    Quiet core id sent (sent ++ [msg]) := by
  constructor
  · rw [handleAll_append, handleAll, handleAll, handleInbound_streamNames, unnamed, Option.none_or]
  · intro handler
    rw [delivered_append]
    simp [delivered, silent]

theorem Faithful.quiet (faithful : Faithful core sent p) {more : List Message} (quiet : Quiet core p.sender.id sent more) :
    Faithful core more p where
  named := quiet.1.trans faithful.named
  heard listener registered := (quiet.2 _).trans (faithful.heard listener registered)

theorem Faithful.announced (faithful : Faithful core sent p) (unopened : p.sender.opened = false) {q : Pushing}
    {metadata : List StreamMetaEntry}
    (id : q.sender.id = p.sender.id) (name : q.sender.name = p.sender.name) (opened : q.sender.opened = true)
    (same : q.told = p.told) :
    Faithful core (sent ++ [.streamOpen ⟨p.sender.id, p.sender.name, metadata⟩]) q := by
  have before := faithful.named
  rw [unopened] at before
  constructor
  · rw [handleAll_append, handleAll, handleAll, handleInbound_streamNames, id, name, opened, opening, if_pos rfl]
    rfl
  · intro listener registered
    rw [name] at registered
    rw [name, id, same, delivered_append, faithful.heard listener registered, delivered_unopened _ before, List.append_nil]

theorem Faithful.ended (faithful : Faithful core sent p) (unopened : p.sender.opened = false) {q : Pushing} {e : StreamEndMsg}
    (id : q.sender.id = p.sender.id) (name : q.sender.name = p.sender.name) (still : q.sender.opened = false)
    (same : q.told = p.told) : Faithful core (sent ++ [.streamEnd e]) q := by
  have before := faithful.named
  rw [unopened] at before
  constructor
  · rw [handleAll_append, handleAll, handleAll, handleInbound_streamNames, id, still, before]
    rfl
  · intro listener registered
    rw [name] at registered
    rw [name, id, same, delivered_append, faithful.heard listener registered, delivered_unopened _ before, List.append_nil]

theorem Faithful.tells (faithful : Faithful core sent p) (opened : p.sender.opened = true) {q : Pushing}
    (id : q.sender.id = p.sender.id) (name : q.sender.name = p.sender.name) (still : q.sender.opened = true)
    {frame : Option StreamMsg} (tells : told p.sender.id msg = some frame) (unnamed : opening p.sender.id msg = none)
    (more : q.told = p.told ++ [frame]) : Faithful core (sent ++ [msg]) q := by
  have before := faithful.named
  rw [opened, if_pos rfl] at before
  constructor
  · rw [handleAll_append, handleAll, handleAll, handleInbound_streamNames, id, name, still, unnamed, Option.none_or,
      before, if_pos rfl]
  · intro listener registered
    rw [name] at registered
    have there : (handleAll core sent).streams.lookup p.sender.name = some listener := by
      rw [handleAll_streams, registered]
    rw [name, id, more, delivered_append, faithful.heard listener registered, delivered_opened _ there before, if_pos rfl,
      tells]
    rfl

theorem Kept.change (kept : Kept core s) (here : s.senders k = some p) {q : Pushing}
    (senders : t.senders = Function.update s.senders k (some q)) (next : t.nextMsgId = s.nextMsgId) (taken : t.taken = s.taken)
    (carries : Carries t.sent t.received t.down) (place : q.place = p.place) (id : q.sender.id = p.sender.id)
    (quiet : ∀ other, other ≠ p.sender.id → Quiet core other s.sent t.sent) (counted : Counted q)
    (faithful : Faithful core s.sent p → Faithful core t.sent q) : Kept core t := by
  have at_k : t.senders k = some q := by rw [senders, Function.update_self]
  have at_other : ∀ j, j ≠ k → t.senders j = s.senders j := by
    intro j differ
    rw [senders, Function.update_of_ne differ]
  have places : ∀ j r, t.senders j = some r → ∃ r', s.senders j = some r' ∧ r'.place = r.place := by
    intro j r there
    by_cases same : j = k
    · rw [same, at_k] at there
      cases there
      exact ⟨p, same ▸ here, place.symm⟩
    · rw [at_other j same] at there
      exact ⟨r, there, rfl⟩
  refine ⟨by rw [next, taken, kept.next], carries, ?_, ?_, ?_, ?_, ?_⟩
  · intro j r there
    by_cases same : j = k
    · rw [same, at_k] at there
      cases there
      exact counted
    · exact kept.counted j r (at_other j same ▸ there)
  · intro j r there
    obtain ⟨r', before, equal⟩ := places j r there
    rw [taken, ← equal]
    exact kept.places j r' before
  · intro i j r u first second equal
    obtain ⟨r', before, sameR⟩ := places i r first
    obtain ⟨u', also, sameU⟩ := places j u second
    exact kept.apart i j r' u' before also (sameR.trans (equal.trans sameU.symm))
  · intro few j r there
    rw [taken] at few
    by_cases same : j = k
    · rw [same, at_k] at there
      cases there
      exact faithful (kept.faithful few k p here)
    · rw [at_other j same] at there
      refine (kept.faithful few j r there).quiet (quiet _ fun equal => same ?_)
      rw [(kept.counted j r there).id, (kept.counted k p here).id] at equal
      refine kept.apart j k r p there here ?_
      have equal := congrArg UInt64.toNat equal
      rw [UInt64.toNat_ofNat', UInt64.toNat_ofNat'] at equal
      have first := kept.places j r there
      have second := kept.places k p here
      omega
  · intro few other absent
    rw [taken] at few
    have apart : other ≠ p.sender.id := by
      rintro rfl
      exact absent k q at_k id
    obtain ⟨unopened, silent⟩ := kept.unopened few other fun j r there => by
      by_cases same : j = k
      · rw [same, here] at there
        cases there
        exact apart.symm
      · exact absent j r ((at_other j same).trans there)
    exact ⟨(quiet other apart).1.trans unopened, fun handler => ((quiet other apart).2 handler).trans (silent handler)⟩

theorem Kept.put (kept : Kept core s) (here : s.senders k = some p) {q : Pushing} (place : q.place = p.place)
    (id : q.sender.id = p.sender.id) (own : ∀ other, other ≠ p.sender.id → told other msg = none ∧ opening other msg = none)
    (counted : Counted q) (faithful : Faithful core s.sent p → Faithful core (s.sent ++ [msg]) q) :
    Kept core ((s.setSender k q).put msg) :=
  kept.change here rfl rfl rfl (kept.carries.put msg) place id
    (fun other apart => .foreign core s.sent (own other apart).1 (own other apart).2) counted faithful

theorem Kept.keep (kept : Kept core s) (here : s.senders k = some p) {q : Pushing} (place : q.place = p.place)
    (id : q.sender.id = p.sender.id) (counted : Counted q) (faithful : Faithful core s.sent p → Faithful core s.sent q) :
    Kept core (s.setSender k q) :=
  kept.change here rfl rfl rfl kept.carries place id (fun other _ => .refl core other s.sent) counted faithful

section Senders

variable {sender after : StreamSender} {result : Result Unit}

theorem write_same (wrote : sender.write msg = (result, after)) : ∃ io, after = { sender with io } := by
  cases wrote
  exact ⟨_, rfl⟩

theorem announce_same (unopened : sender.opened = false) (announced : sender.announce = (result, after)) :
    ∃ io, after = { sender with io, opened := result.toBool } := by
  rw [StreamSender.announce, unopened, if_neg Bool.false_ne_true] at announced
  split at announced
  · rename_i e middle wrote
    obtain ⟨io, rfl⟩ := write_same wrote
    cases announced
    refine ⟨io, ?_⟩
    rw [Except.toBool, ← unopened]
  · rename_i value middle wrote
    obtain ⟨io, rfl⟩ := write_same wrote
    cases announced
    exact ⟨io, rfl⟩

theorem finishWith_same {code : UInt16} {message : Option String} {metadata : List StreamMetaEntry}
    (finished : sender.finishWith code message metadata = (result, after)) : ∃ io, after = { sender with io } := by
  rw [StreamSender.finishWith] at finished
  split at finished
  · rename_i e middle wrote
    obtain ⟨io, rfl⟩ := write_same wrote
    cases finished
    exact ⟨io, rfl⟩
  · rename_i value middle wrote
    obtain ⟨io, rfl⟩ := write_same wrote
    cases finished
    exact ⟨_, rfl⟩

end Senders

theorem setSender_self (s : Wire) (k : Nat) (p : Pushing) : (s.setSender k p).senders k = some p :=
  Function.update_self ..

theorem setSender_other (s : Wire) (p : Pushing) {j k : Nat} (differ : j ≠ k) : (s.setSender k p).senders j = s.senders j :=
  Function.update_of_ne differ ..

theorem create_kept {name : String} {metadata : List StreamMetaEntry} {failure : Nat → Option Error} (kept : Kept core s)
    (stepped : s.create k name metadata failure = some t) : Kept core t := by
  unfold Wire.create at stepped
  cases here : s.senders k with
  | some p =>
    rw [here] at stepped
    cases stepped
  | none =>
    rw [here] at stepped
    cases stepped
    let q : Pushing := ⟨s.taken, .new ⟨failure, 0, [], false⟩ s.nextMsgId name metadata, none, [], []⟩
    have cases : ∀ j r, (s.takeId.setSender k q).senders j = some r → j = k ∧ r = q ∨ j ≠ k ∧ s.senders j = some r := by
      intro j r there
      by_cases same : j = k
      · rw [same, setSender_self] at there
        exact .inl ⟨same, (Option.some_inj.1 there).symm⟩
      · rw [setSender_other _ _ same] at there
        exact .inr ⟨same, there⟩
    refine ⟨?_, kept.carries, ?_, ?_, ?_, ?_, ?_⟩
    · show s.nextMsgId + 1 = UInt64.ofNat (s.taken + 1 + 1)
      rw [kept.next, UInt64.ofNat_add (s.taken + 1) 1]
      rfl
    · intro j r there
      rcases cases j r there with ⟨rfl, rfl⟩ | ⟨differ, before⟩
      · exact ⟨kept.next, rfl, rfl, Bool.noConfusion⟩
      · exact kept.counted j r before
    · intro j r there
      rcases cases j r there with ⟨rfl, rfl⟩ | ⟨differ, before⟩
      · exact Nat.lt_succ_self _
      · exact Nat.lt_succ_of_lt (kept.places j r before)
    · intro i j r u first second equal
      rcases cases i r first with ⟨rfl, rfl⟩ | ⟨differ, before⟩ <;> rcases cases j u second with ⟨rfl, rfl⟩ | ⟨apart, also⟩
      · rfl
      · exact absurd equal (Nat.ne_of_gt (kept.places j u also))
      · exact absurd equal (Nat.ne_of_lt (kept.places i r before))
      · exact kept.apart i j r u before also equal
    · intro few j r there
      have fewer : s.taken < 2 ^ 64 := Nat.lt_of_succ_lt few
      rcases cases j r there with ⟨rfl, rfl⟩ | ⟨differ, before⟩
      · obtain ⟨unopened, silent⟩ := kept.unopened fewer s.nextMsgId fun i u also equal => by
          rw [kept.next, (kept.counted i u also).id] at equal
          have place := kept.places i u also
          have equal := congrArg UInt64.toNat equal
          rw [UInt64.toNat_ofNat', UInt64.toNat_ofNat'] at equal
          have small : s.taken + 1 < 2 ^ 64 := few
          omega
        exact ⟨unopened, fun listener _ => silent _⟩
      · exact kept.faithful fewer j r before
    · intro few id absent
      refine kept.unopened (Nat.lt_of_succ_lt few) id fun j r there => absent j r ?_
      by_cases same : j = k
      · rw [same, here] at there
        cases there
      · exact (Function.update_of_ne same _ _).trans there

theorem announce_kept {now : Timestamp} {data : Bytes} (kept : Kept core s) (stepped : s.announce k now data = some t) :
    Kept core t := by
  unfold Wire.announce at stepped
  cases here : s.senders k with
  | none =>
    rw [here] at stepped
    cases stepped
  | some p =>
    have counted := kept.counted k p here
    simp only [here] at stepped
    split at stepped
    · cases stepped
    cases opened : p.sender.opened with
    | true =>
      rw [opened, if_pos rfl] at stepped
      cases stepped
      exact kept.keep here rfl rfl ⟨counted.id, counted.seq, counted.frames, fun _ => opened⟩
        (fun faithful => ⟨faithful.named, faithful.heard⟩)
    | false =>
      rw [opened, if_neg Bool.false_ne_true] at stepped
      split at stepped
      · rename_i value sender announced
        obtain ⟨io, rfl⟩ := announce_same opened announced
        cases stepped
        exact kept.put here rfl rfl (fun other apart => ⟨rfl, if_neg apart.symm⟩)
          ⟨counted.id, counted.seq, counted.frames, fun _ => rfl⟩
          (fun faithful => faithful.announced opened rfl rfl rfl rfl)
      · rename_i e sender announced
        obtain ⟨io, rfl⟩ := announce_same opened announced
        cases stepped
        refine kept.keep here rfl rfl ⟨counted.id, counted.seq, counted.frames, fun busy => ?_⟩ (fun faithful => ?_)
        · exact absurd (counted.announced busy) (Bool.eq_false_iff.1 opened)
        · have named := faithful.named
          rw [opened] at named
          exact ⟨named, faithful.heard⟩

theorem Counted.sends (counted : Counted p) {q : Pushing} {send : Send} {io : SendIo} (place : q.place = p.place)
    (sender : q.sender = { p.sender with io, seq := p.sender.seq + 1 }) (idle : q.pending = none)
    (sends : q.sends = p.sends ++ [send])
    (told : q.told.reduceOption = p.told.reduceOption ++
      if send.written then [⟨p.sender.id, p.sender.seq, send.now, send.data⟩] else []) : Counted q where
  id := by rw [sender, place, ← counted.id]
  seq := by
    rw [sender, sends, List.length_append, UInt64.ofNat_add, ← counted.seq]
    rfl
  frames := by rw [told, sender, sends, framesOf_append, counted.frames, counted.seq]
  announced := by
    rw [idle]
    exact Bool.noConfusion

theorem frame_kept (kept : Kept core s) (stepped : s.frame k = some t) : Kept core t := by
  unfold Wire.frame at stepped
  cases here : s.senders k with
  | none =>
    rw [here] at stepped
    cases stepped
  | some p =>
    have counted := kept.counted k p here
    simp only [here] at stepped
    split at stepped
    · rename_i now data busy
      have opened := counted.announced (by rw [busy]; rfl)
      split at stepped
      · rename_i value sender wrote
        obtain ⟨io, rfl⟩ := write_same wrote
        cases stepped
        exact kept.put here rfl rfl (fun other apart => ⟨if_neg apart.symm, rfl⟩)
          (counted.sends rfl rfl rfl rfl (List.reduceOption_append ..))
          (fun faithful => faithful.tells opened rfl rfl opened (if_pos rfl) rfl rfl)
      · rename_i e sender wrote
        obtain ⟨io, rfl⟩ := write_same wrote
        cases stepped
        exact kept.keep here rfl rfl (counted.sends rfl rfl rfl rfl (List.append_nil _).symm)
          (fun faithful => ⟨faithful.named, faithful.heard⟩)
    · cases stepped

theorem cancel_kept (kept : Kept core s) (stepped : s.cancel k = some t) : Kept core t := by
  unfold Wire.cancel at stepped
  cases here : s.senders k with
  | none =>
    rw [here] at stepped
    cases stepped
  | some p =>
    have counted := kept.counted k p here
    rw [here] at stepped
    cases stepped
    exact kept.keep here rfl rfl ⟨counted.id, counted.seq, counted.frames, Bool.noConfusion⟩
      (fun faithful => ⟨faithful.named, faithful.heard⟩)

theorem finish_kept {code : UInt16} {message : Option String} {metadata : List StreamMetaEntry} (kept : Kept core s)
    (stepped : s.finish k code message metadata = some t) : Kept core t := by
  unfold Wire.finish at stepped
  cases here : s.senders k with
  | none =>
    rw [here] at stepped
    cases stepped
  | some p =>
    have counted := kept.counted k p here
    simp only [here] at stepped
    split at stepped
    · cases stepped
    have same : ∃ io, (p.sender.finishWith code message metadata).2 = { p.sender with io } := finishWith_same rfl
    obtain ⟨io, same⟩ := same
    rw [same] at stepped
    split at stepped
    · cases stepped
      cases opened : p.sender.opened with
      | true =>
        rw [if_pos rfl]
        refine kept.put here rfl rfl (fun other apart => ⟨if_neg apart.symm, rfl⟩)
          ⟨counted.id, counted.seq, ?_, fun _ => opened⟩
          (fun faithful => faithful.tells opened rfl rfl opened (if_pos rfl) rfl rfl)
        show (p.told ++ [none]).reduceOption = _
        rw [List.reduceOption_append, counted.frames]
        exact List.append_nil _
      | false =>
        rw [if_neg Bool.false_ne_true]
        refine kept.put here rfl rfl (fun other apart => ⟨if_neg apart.symm, rfl⟩)
          ⟨counted.id, counted.seq, counted.frames, fun busy => ?_⟩ (fun faithful => faithful.ended opened rfl rfl opened rfl)
        exact absurd (counted.announced busy) (Bool.eq_false_iff.1 opened)
    · cases stepped
      exact kept.keep here rfl rfl ⟨counted.id, counted.seq, counted.frames, counted.announced⟩
        (fun faithful => ⟨faithful.named, faithful.heard⟩)

theorem init_kept (fresh : core.streamNames = ∅) : Kept core .init where
  next := rfl
  carries := .empty
  counted _ _ there := by cases there
  places _ _ there := by cases there
  apart _ _ _ _ there := by cases there
  faithful _ _ _ there := by cases there
  unopened _ id _ := by
    refine ⟨?_, fun handler => rfl⟩
    show core.streamNames.lookup id = none
    rw [fresh]
    rfl

theorem push_foreign (other : ofStream msg = false) (id : UInt64) : told id msg = none ∧ opening id msg = none := by
  cases msg with
  | streamOpen opened => cases other
  | stream frame => cases other
  | streamEnd e => cases other
  | _ => exact ⟨rfl, rfl⟩

theorem push_kept (kept : Kept core s) (stepped : s.push msg = some t) : Kept core t := by
  unfold Wire.push at stepped
  split at stepped
  · cases stepped
  · rename_i other
    cases stepped
    have foreign := push_foreign (Bool.eq_false_iff.2 other)
    have quiet : ∀ id, Quiet core id s.sent (s.sent ++ [msg]) := fun id => .foreign core s.sent (foreign id).1 (foreign id).2
    refine ⟨kept.next, kept.carries.put msg, kept.counted, kept.places, kept.apart, ?_, ?_⟩
    · exact fun few k p here => (kept.faithful few k p here).quiet (quiet _)
    · intro few id absent
      obtain ⟨unopened, silent⟩ := kept.unopened few id absent
      exact ⟨(quiet id).1.trans unopened, fun handler => ((quiet id).2 handler).trans (silent handler)⟩

theorem step_kept (s : Wire) (label : Label) (t : Wire) (kept : Kept core s) (stepped : step s label = some t) :
    Kept core t := by
  cases label with
  | takeId =>
    cases stepped
    refine ⟨?_, kept.carries, kept.counted, fun k p here => Nat.lt_succ_of_lt (kept.places k p here), kept.apart,
      fun few => kept.faithful (Nat.lt_of_succ_lt few), fun few => kept.unopened (Nat.lt_of_succ_lt few)⟩
    show s.nextMsgId + 1 = UInt64.ofNat (s.taken + 1 + 1)
    rw [kept.next, UInt64.ofNat_add (s.taken + 1) 1]
    rfl
  | create k name metadata failure => exact create_kept kept stepped
  | announce k now data => exact announce_kept kept stepped
  | frame k => exact frame_kept kept stepped
  | cancel k => exact cancel_kept kept stepped
  | finish k code message metadata => exact finish_kept kept stepped
  | push msg => exact push_kept kept stepped
  | deliver =>
    simp only [step, Wire.deliver] at stepped
    split at stepped <;> cases stepped
    rename_i msg rest first
    exact ⟨kept.next, kept.carries.take first, kept.counted, kept.places, kept.apart, kept.faithful, kept.unopened⟩
  | sever kept' =>
    cases stepped
    exact ⟨kept.next, kept.carries.sever kept', kept.counted, kept.places, kept.apart, kept.faithful, kept.unopened⟩

/-- However the senders of a session write to the one WebSocket in between each other and the
other messages, and whatever writes fail, the client's stream handler is called for a sender's stream with
what the sender wrote: a frame for each send in order, under the number of the send, and an end
for each end since the announcement. It is called with a first part if the rest is on its way or lost. -/
theorem streams_pushed (fresh : core.streamNames = ∅) (reached : Reachable step .init s) (few : s.taken < 2 ^ 64)
    (here : s.senders k = some p) {listener : ListenerId} (registered : core.streams.lookup p.sender.name = some listener) :
    p.told.reduceOption = framesOf p.sender.id p.sends ∧
    delivered (p.sender.name, listener) p.sender.id core s.received <+: p.told ∧
    (s.down = .empty → delivered (p.sender.name, listener) p.sender.id core s.received = p.told) ∧
    ∀ j q, s.senders j = some q → q.sender.id = p.sender.id → j = k := by
  have kept := reached.invariant (init_kept fresh) step_kept
  have counted := kept.counted k p here
  have faithful := kept.faithful few k p here
  refine ⟨counted.frames, ?_, ?_, ?_⟩
  · obtain ⟨later, all⟩ := kept.carries.prefix
    have whole := faithful.heard listener registered
    rw [← all, delivered_append] at whole
    exact ⟨_, whole⟩
  · intro empty
    have all := kept.carries.whole (by rw [empty]; rfl)
    rw [empty] at all
    have same : s.sent = s.received := all.trans (List.append_nil _)
    rw [← same]
    exact faithful.heard listener registered
  · intro j q there equal
    rw [(kept.counted j q there).id, counted.id] at equal
    have equal := congrArg UInt64.toNat equal
    rw [UInt64.toNat_ofNat', UInt64.toNat_ofNat'] at equal
    have first := kept.places j q there
    have second := kept.places k p here
    exact kept.apart j k q p there here (by omega)

private def watching : ClientCore := (ClientCore.new.onStream "feed").2

/-- Two streams of one name that are written in turns, one with a send that failed. -/
private def inTurns : List Label :=
  [.create 0 "feed" [] (fun call => if call = 2 then some .sessionClosed else none), .create 1 "feed" [] (fun _ => none),
    .announce 0 ⟨5⟩ [1], .announce 1 ⟨6⟩ [2], .frame 1, .frame 0, .push (.event ⟨9, "tick", []⟩), .announce 0 ⟨7⟩ [3], .frame 0,
    .announce 0 ⟨8⟩ [4], .frame 0, .finish 1 0 none [], .deliver, .deliver, .deliver, .deliver, .deliver, .deliver, .deliver]

theorem streams_pushed_in_turns : ∃ s p, run step .init inTurns = some s ∧ s.senders 0 = some p ∧
    p.told = [some ⟨1, 0, ⟨5⟩, [1]⟩, some ⟨1, 2, ⟨8⟩, [4]⟩] ∧
    delivered ("feed", 1) 1 watching s.received = [some ⟨1, 0, ⟨5⟩, [1]⟩, some ⟨1, 2, ⟨8⟩, [4]⟩] := by
  obtain ⟨s, p, ran, here, few, empty, name, id, told⟩ : ∃ s p, run step .init inTurns = some s ∧ s.senders 0 = some p ∧
      s.taken < 2 ^ 64 ∧ s.down = .empty ∧ p.sender.name = "feed" ∧ p.sender.id = 1 ∧
      p.told = [some ⟨1, 0, ⟨5⟩, [1]⟩, some ⟨1, 2, ⟨8⟩, [4]⟩] :=
    ⟨_, _, rfl, rfl, by decide, rfl, rfl, rfl, rfl⟩
  have fresh : watching.streamNames = ∅ := rfl
  have registered : watching.streams.lookup p.sender.name = some 1 := by
    rw [name]
    rfl
  obtain ⟨-, -, all, -⟩ := streams_pushed fresh ⟨_, ran⟩ few here registered
  have all := all empty
  rw [name, id, told] at all
  exact ⟨s, p, ran, here, told, all⟩

end EchoStream.Transport.WsPush
