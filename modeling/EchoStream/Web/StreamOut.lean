import EchoStream.Core.AcceptLoop
import EchoStream.Transport.WsStreamWhole
import EchoStream.Web.Operations

/-! A stream from the browser to a handler of the server. Over WebSocket all its frames
come one after the other in one connection. Over WebTransport each of them is alone on a
stream of its own, and the end is a stream with nothing on it. -/

namespace EchoStream.Web.StreamOut
open Foundation.Formats Foundation.Run
open Proto.Messages Proto.Postcard
open Core.Handler Core.StateMachine
open Transport Transport.WsFrames
open Transport.WsStreams (Connection tells Carried Follows Hearing framesOf firstEnd)
open FrameReader Handle Operations

/-- The calls one after the other. One that throws sends nothing, and is the last. -/
def performAll (codec : Codec Message) (s : Sdk) : List Operation → Sdk
  | [] => s
  | op :: rest =>
      let t := s.perform codec op
      if t.sent.length = s.sent.length then t else performAll codec t rest

def creating (s : Sdk) (name : String) (metadata : StreamMetadata) (payloads : List (Bytes × UInt64)) : List Operation :=
  .createStream name metadata :: payloads.map (fun payload => .send s.handle.core.openStream.1 payload.1 payload.2)

def overWs (codec : Codec Message) (s : Sdk) (name : String) (metadata : StreamMetadata)
    (payloads : List (Bytes × UInt64)) : List Sent :=
  (performAll codec s (creating s name metadata payloads ++ [.finish s.handle.core.openStream.1])).sent.drop s.sent.length

/-- The streams that are opened over WebTransport, by what is read of them. Each frame has
its own, and one that is closed empty is for the end. -/
def overWt (codec : Codec Message) (s : Sdk) (name : String) (metadata : StreamMetadata)
    (payloads : List (Bytes × UInt64)) : List FrameIo :=
  let sent := (performAll codec s (creating s name metadata payloads)).sent.drop s.sent.length
  sent.map (fun frame => Proto.Endpoint.readFrames codec 2 ⟨frame.data, 0, fun _ => 4⟩) ++
    if sent.length = (creating s name metadata payloads).length then [[.ok none]] else []

/-- What the loop of a WebSocket connection gets of what is sent. It ends with an error. -/
def heard (codec : Codec Message) (limit : Nat) : List Sent → List (Option Message)
  | [] => []
  | sent :: rest =>
      match (recvFrame codec [arrival limit sent.data]).1 with
      | some (.ok (some msg)) => some msg :: heard codec limit rest
      | _ => [none]

/-- What is read of a stream with the id, up to its end. -/
def readOut (id : UInt64) : FrameIo → List (Option Bytes)
  | .ok (some (.stream frame)) :: rest => if frame.id = id then some frame.data :: readOut id rest else readOut id rest
  | .ok (some (.streamEnd e)) :: rest => if e.id = id then [none] else readOut id rest
  | .ok (some _) :: rest => readOut id rest
  | .ok none :: _ => [none]
  | _ => []

/-- The accept loop goes on, and of the streams from the number on one is dispatched, with
the name and with the payloads and their end on it. -/
structure Accepted (n : Nat) (name : String) (payloads : List Bytes) (s : Core.AcceptLoop.Loop) : Prop where
  serves : s.ended = false
  accepts : ∃ stream ∈ s.streams.drop n, ∃ opened rest, stream.contents = .ok (some (.streamOpen opened)) :: rest ∧
    opened.name = name ∧ stream.dispatched = [.streamOpen opened] ∧ readOut opened.id rest = payloads.map some ++ [none]

/-- The connection at the server. A WebSocket has a limit for what is sent at once. -/
inductive Server where
  | ws (limit : Nat) (connection : Connection)
  | wt (loop : Core.AcceptLoop.Loop)

def Server.Up (hasStream : String → Bool) : Server → Prop
  | .ws _ c => Reachable (WsStreams.step hasStream) .init c ∧ c.loop ≠ .ended
  | .wt loop => loop.alive = true

/-- However the server goes about what was sent, the handler gets the stream and the
connection goes on. -/
def Delivered (codec : Codec Message) (hasStream : String → Bool) (s : Sdk) (name : String) (metadata : StreamMetadata)
    (payloads : List (Bytes × UInt64)) : Server → Prop
  | .ws limit c => ∀ labels t, run (WsStreams.step hasStream) c labels = some t →
      labels.filterMap tells = heard codec limit (overWs codec s name metadata payloads) →
        Carried hasStream c.tasks.length name (payloads.map Prod.fst) t
  | .wt loop => ∀ labels t, run (Core.AcceptLoop.step .web) loop labels = some t → t.alive = true → Core.AcceptLoop.AtRest .web t →
      t.came.drop loop.streams.length = (overWt codec s name metadata payloads).map (fun contents => (.uni, contents)) →
        Accepted loop.streams.length name (payloads.map Prod.fst) t

def messages (core : ClientCore) (id : UInt64) : List (Bytes × UInt64) → List (Bytes × Message)
  | [] => [([], ClientCore.buildStreamEnd id 0 none)]
  | payload :: rest =>
      let (msg, core) := core.buildStreamFrame id payload.1 payload.2
      (payload.1, msg) :: messages core id rest

def outgoing (s : Sdk) (name : String) (entries : List StreamMetaEntry) (payloads : List (Bytes × UInt64)) :
    List (Bytes × Message) :=
  ([], ClientCore.buildStreamOpen s.handle.core.openStream.1 name entries) ::
    messages s.handle.core.openStream.2 s.handle.core.openStream.1 payloads

/-- The message has a frame, which the limit allows. -/
def Goes (codec : Codec Message) (limit : Nat) (entry : Bytes × Message) : Prop :=
  entry.1.length < 2 ^ 31 ∧
    ∃ payload, codec.toAllocvec entry.2 = .ok payload ∧ (frame payload).length < 2 ^ 31 ∧ (frame payload).length ≤ limit

/-- Over WebSocket, with an id that is not in use, metadata that is taken, and frames
within the limit. -/
def Fine (codec : Codec Message) (s : Sdk) (name : String) (metadata : StreamMetadata)
    (payloads : List (Bytes × UInt64)) : Server → Prop
  | .ws limit c =>
      s.handle.borrowed = false ∧ c.streams.lookup s.handle.core.openStream.1 = none ∧
        ∃ entries, getMetadata metadata = .ok entries ∧ ∀ entry ∈ outgoing s name entries payloads, Goes codec limit entry
  | .wt _ => False

variable {codec : Codec Message} {limit : Nat} {s t : Sdk} {name : String} {metadata : StreamMetadata}
  {payloads : List (Bytes × UInt64)} {id : UInt64} {core : ClientCore}

section Sending

def made (codec : Codec Message) (entry : Bytes × Message) : Option Sent :=
  if entry.1.length < 2 ^ 31 then
    match encodeFrameBytes codec entry.2 with
    | .ok bytes => some ⟨some entry.2, bytes⟩
    | .error _ => none
  else none

def upTo {α : Type} : List (Option α) → List α
  | some value :: rest => value :: upTo rest
  | _ => []

theorem sending_made (free : s.handle.borrowed = false) {argument : Bytes} {builder : ClientCore → Message × ClientCore}
    {sent : Sent} (makes : made codec (argument, (builder s.handle.core).1) = some sent) :
    (s.sending codec argument builder).sent = s.sent ++ [sent] ∧ (s.sending codec argument builder).handle.borrowed = false ∧
      (s.sending codec argument builder).handle.core = (builder s.handle.core).2 := by
  rw [made] at makes
  split at makes
  · rename_i short
    split at makes
    · rename_i bytes framed
      cases makes
      have called : s.calling argument (build codec builder) =
          (.ok bytes, { core := (builder s.handle.core).2, calls := s.handle.calls ++ [], borrowed := false }) := by
        rw [Sdk.calling, if_pos short, ClientCoreHandle.use, if_neg (Bool.eq_false_iff.1 free)]
        simp only [build, framed]
        rfl
      rw [Sdk.sending, called]
      exact ⟨rfl, rfl, rfl⟩
    · cases makes
  · cases makes

theorem sending_unmade {argument : Bytes} {builder : ClientCore → Message × ClientCore}
    (fails : made codec (argument, (builder s.handle.core).1) = none) : (s.sending codec argument builder).sent = s.sent := by
  rw [Sdk.sending]
  cases called : s.calling argument (build codec builder) with
  | mk result handle =>
    cases result with
    | error thrown => rfl
    | ok bytes =>
      obtain ⟨-, short, framed⟩ := calling_ok_iff.1 (congrArg Prod.fst called)
      have encoded : encodeFrameBytes codec (builder s.handle.core).1 = .ok bytes := framed
      rw [made, if_pos short, encoded] at fails
      cases fails

theorem performAll_cons {op : Operation} {rest : List Operation} {argument : Bytes}
    {builder : ClientCore → Message × ClientCore} (sends : s.perform codec op = t.sending codec argument builder)
    (same : t.sent = s.sent ∧ t.handle.borrowed = false) {msgs : List (Bytes × Message)}
    (later : ∀ u : Sdk, u.handle.borrowed = false → u.handle.core = (builder t.handle.core).2 →
      (performAll codec u rest).sent = u.sent ++ upTo (msgs.map (made codec))) :
    (performAll codec s (op :: rest)).sent =
      s.sent ++ upTo (((argument, (builder t.handle.core).1) :: msgs).map (made codec)) := by
  rw [performAll, sends]
  cases makes : made codec (argument, (builder t.handle.core).1) with
  | none =>
    rw [sending_unmade makes, same.1, if_pos rfl, sending_unmade makes, same.1, List.map_cons, makes]
    exact (List.append_nil _).symm
  | some sent =>
    obtain ⟨more, still, core⟩ := sending_made same.2 makes
    have longer : ¬ (s.sent ++ [sent]).length = s.sent.length := by
      rw [List.length_append, List.length_singleton]
      omega
    rw [more, same.1, if_neg longer, later _ still core, more, same.1, List.map_cons, makes, upTo, List.append_assoc]
    rfl

theorem performAll_frames (free : s.handle.borrowed = false) :
    (performAll codec s (payloads.map (fun payload => .send id payload.1 payload.2) ++ [.finish id])).sent =
      s.sent ++ upTo ((messages s.handle.core id payloads).map (made codec)) := by
  induction payloads generalizing s with
  | nil =>
    have sends : s.perform codec (.finish id) =
        s.sending codec [] (fun core => (ClientCore.buildStreamEnd id 0 none, core)) := rfl
    have nothing : ∀ u : Sdk, (performAll codec u []).sent =
        u.sent ++ upTo (([] : List (Bytes × Message)).map (made codec)) :=
      fun u => (List.append_nil u.sent).symm
    exact performAll_cons sends ⟨rfl, free⟩ (fun u _ _ => nothing u)
  | cons payload rest ih =>
    have sends : s.perform codec (.send id payload.1 payload.2) =
        s.sending codec payload.1 (ClientCore.buildStreamFrame id payload.1 payload.2) := rfl
    rw [List.map_cons, List.cons_append]
    refine performAll_cons sends ⟨rfl, free⟩ (fun u still core => ?_)
    rw [ih still, core]
    rfl

theorem performAll_created (free : s.handle.borrowed = false) {entries : List StreamMetaEntry}
    (taken : getMetadata metadata = .ok entries) :
    overWs codec s name metadata payloads = upTo ((outgoing s name entries payloads).map (made codec)) := by
  have sends : s.perform codec (.createStream name metadata) =
      ({ s with handle := ⟨s.handle.core.openStream.2, s.handle.calls ++ [], false⟩ } : Sdk).sending codec []
        (fun core => (ClientCore.buildStreamOpen s.handle.core.openStream.1 name entries, core)) := by
    rw [Sdk.perform, Sdk.createStream, calling_open free]
    simp only [taken]
  have later : ∀ u : Sdk, u.handle.borrowed = false → u.handle.core = s.handle.core.openStream.2 →
      (performAll codec u (payloads.map (fun payload => .send s.handle.core.openStream.1 payload.1 payload.2) ++
        [.finish s.handle.core.openStream.1])).sent =
      u.sent ++ upTo ((messages s.handle.core.openStream.2 s.handle.core.openStream.1 payloads).map (made codec)) := by
    intro u still core
    rw [performAll_frames still, core]
  have all := performAll_cons sends ⟨rfl, rfl⟩ later
  rw [overWs, creating, List.cons_append, all, List.drop_left]
  rfl

theorem overWs_nothing (throws : s.handle.borrowed = true ∨ ∃ text, getMetadata metadata = .error text) :
    overWs codec s name metadata payloads = [] := by
  have same : (s.perform codec (.createStream name metadata)).sent = s.sent := by
    rw [Sdk.perform, Sdk.createStream]
    cases free : s.handle.borrowed with
    | true =>
      obtain ⟨thrown, called⟩ := calling_inUse free [] Sdk.openStream
      rw [called]
    | false =>
      obtain ⟨text, refused⟩ := throws.resolve_left (Bool.eq_false_iff.1 free)
      rw [calling_open free, refused]
  rw [overWs, creating, List.cons_append, performAll, if_pos (congrArg List.length same), same, List.drop_length]

end Sending

section Hearing

theorem not_goes {entry : Bytes × Message} (fails : made codec entry = none) : ¬ Goes codec limit entry := by
  rintro ⟨short, payload, encoded, fits, -⟩
  have framed := encodeFrameBytes_ok_iff.2 ⟨payload, encoded, fits, rfl⟩
  rw [made, if_pos short, framed] at fails
  cases fails

theorem heard_cons (inverse : codec.Inverse) {entry : Bytes × Message} {sent : Sent}
    (makes : made codec entry = some sent) (rest : List Sent) :
    (Goes codec limit entry ∧ heard codec limit (sent :: rest) = some entry.2 :: heard codec limit rest) ∨
      (¬ Goes codec limit entry ∧ heard codec limit (sent :: rest) = [none]) := by
  rw [made] at makes
  split at makes
  · rename_i short
    split at makes
    · rename_i bytes framed
      cases makes
      obtain ⟨payload, encoded, fits, rfl⟩ := encodeFrameBytes_ok_iff.1 framed
      by_cases within : (frame payload).length ≤ limit
      · obtain ⟨msg, same, received⟩ := (decodes_frame inverse encoded fits).2 within
        cases same
        refine .inl ⟨⟨short, payload, encoded, fits, within⟩, ?_⟩
        rw [heard, received []]
      · refine .inr ⟨?_, ?_⟩
        · rintro ⟨-, other, again, -, small⟩
          rw [encoded] at again
          cases again
          exact within small
        · rw [heard, arrival, if_neg within]
          rfl
    · cases makes
  · cases makes

/-- All messages are heard if they go, and otherwise some of the first, possibly with the
error that ends the connection. -/
theorem heard_cases (inverse : codec.Inverse) (entries : List (Bytes × Message)) :
    ((∀ entry ∈ entries, Goes codec limit entry) ∧
        heard codec limit (upTo (entries.map (made codec))) = (entries.map Prod.snd).map some) ∨
      (¬ ∀ entry ∈ entries, Goes codec limit entry) ∧ ∃ front back, entries.map Prod.snd = front ++ back ∧ back ≠ [] ∧
        (heard codec limit (upTo (entries.map (made codec))) = front.map some ∨
          heard codec limit (upTo (entries.map (made codec))) = front.map some ++ [none]) := by
  induction entries with
  | nil => exact .inl ⟨fun _ member => absurd member List.not_mem_nil, rfl⟩
  | cons entry rest ih =>
    have stops : ¬ Goes codec limit entry → ¬ ∀ other ∈ entry :: rest, Goes codec limit other :=
      fun fails all => fails (all entry (List.mem_cons_self ..))
    cases makes : made codec entry with
    | none =>
      refine .inr ⟨stops (not_goes makes), [], _, rfl, List.cons_ne_nil _ _, .inl ?_⟩
      rw [List.map_cons, makes]
      rfl
    | some sent =>
      rw [List.map_cons, makes, upTo]
      rcases heard_cons inverse makes (upTo (rest.map (made codec))) with ⟨goes, more⟩ | ⟨fails, last⟩
      · rw [more]
        rcases ih with ⟨all, whole⟩ | ⟨some_fails, front, back, split, left, part⟩
        · refine .inl ⟨List.forall_mem_cons.2 ⟨goes, all⟩, ?_⟩
          rw [whole]
          rfl
        · refine .inr ⟨fun all => some_fails (List.forall_mem_cons.1 all).2, entry.2 :: front, back, ?_, left, ?_⟩
          · rw [List.map_cons, split, List.cons_append]
          · exact part.imp (congrArg (List.cons _)) (congrArg (List.cons _))
      · exact .inr ⟨stops fails, [], _, rfl, List.cons_ne_nil _ _, .inr last⟩

theorem heard_all (inverse : codec.Inverse) {entries : List (Bytes × Message)}
    (goes : ∀ entry ∈ entries, Goes codec limit entry) :
    heard codec limit (upTo (entries.map (made codec))) = (entries.map Prod.snd).map some := by
  rcases heard_cases inverse entries with ⟨-, whole⟩ | ⟨fails, -⟩
  · exact whole
  · exact absurd goes fails

theorem heard_front (inverse : codec.Inverse) (limit : Nat) (entries : List (Bytes × Message)) :
    ∃ front back, entries.map Prod.snd = front ++ back ∧
      (heard codec limit (upTo (entries.map (made codec))) = front.map some ∨
        heard codec limit (upTo (entries.map (made codec))) = front.map some ++ [none]) := by
  rcases heard_cases inverse entries with ⟨-, whole⟩ | ⟨-, front, back, split, -, part⟩
  · exact ⟨_, [], (List.append_nil _).symm, .inl whole⟩
  · exact ⟨front, back, split, part⟩

theorem messages_eq (core : ClientCore) (id : UInt64) (payloads : List (Bytes × UInt64)) :
    ∃ frames : List StreamMsg, (messages core id payloads).map Prod.snd =
        frames.map .stream ++ [.streamEnd ⟨id, 0, none, []⟩] ∧
      (∀ frame ∈ frames, frame.id = id) ∧ frames.map (·.data) = payloads.map Prod.fst := by
  induction payloads generalizing core with
  | nil => exact ⟨[], rfl, fun _ member => absurd member List.not_mem_nil, rfl⟩
  | cons payload rest ih =>
    obtain ⟨frames, same, own, data⟩ := ih (core.buildStreamFrame id payload.1 payload.2).2
    refine ⟨_ :: frames, congrArg (List.cons _) same, List.forall_mem_cons.2 ⟨?_, own⟩, ?_⟩
    · rfl
    · rw [List.map_cons, data]
      rfl

theorem framesOf_frames (frames : List StreamMsg) (e : StreamEndMsg) :
    framesOf (frames.map .stream ++ [.streamEnd e]) = frames := by
  induction frames with
  | nil => rfl
  | cons frame rest ih => exact congrArg (List.cons frame) ih

theorem firstEnd_frames (frames : List StreamMsg) (msgs : List Message) :
    firstEnd (frames.map .stream ++ msgs) = firstEnd msgs := by
  induction frames with
  | nil => rfl
  | cons frame rest ih => exact ih

theorem follows_frames {frames : List StreamMsg} (own : ∀ frame ∈ frames, frame.id = id) {e : StreamEndMsg} (ends : e.id = id) :
    ∀ msg ∈ frames.map .stream ++ [.streamEnd e], Follows id msg := by
  intro msg member
  rcases List.mem_append.1 member with sent | last
  · obtain ⟨frame, there, rfl⟩ := List.mem_map.1 sent
    exact .stream frame (own frame there)
  · rw [List.mem_singleton.1 last]
    exact .streamEnd e ends

theorem firstEnd_front {frames : List StreamMsg} {e : StreamEndMsg} {front back : List Message}
    (split : frames.map .stream ++ [.streamEnd e] = front ++ back) (left : back ≠ []) : firstEnd front = none := by
  obtain ⟨more, last, rfl⟩ := List.eq_nil_or_concat back |>.resolve_left left
  rw [List.concat_eq_append, ← List.append_assoc] at split
  obtain ⟨before, -⟩ := List.append_inj' split rfl
  obtain ⟨some, others, -, rfl, -⟩ := List.map_eq_append_iff.1 before
  have without := firstEnd_frames some []
  rwa [List.append_nil] at without

end Hearing

section Delivered

variable {hasStream : String → Bool} {c : Connection}

/-- After the open come the frames with the payloads, and at the end and not before the end. -/
structure Body (id : UInt64) (payloads : List Bytes) (body : List Message) : Prop where
  follows : ∀ msg ∈ body, Follows id msg
  frames : (framesOf body).map (·.data) = payloads
  ends : firstEnd body ≠ none
  last : ∀ front back, body = front ++ back → back ≠ [] → firstEnd front = none

theorem outgoing_body (s : Sdk) (name : String) (entries : List StreamMetaEntry) (payloads : List (Bytes × UInt64)) :
    ∃ body, (outgoing s name entries payloads).map Prod.snd = .streamOpen ⟨s.handle.core.openStream.1, name, entries⟩ :: body ∧
      Body s.handle.core.openStream.1 (payloads.map Prod.fst) body := by
  obtain ⟨frames, same, own, data⟩ := messages_eq s.handle.core.openStream.2 s.handle.core.openStream.1 payloads
  refine ⟨_, congrArg (List.cons _) same, follows_frames own rfl, ?_, ?_, fun front back => firstEnd_front⟩
  · rw [framesOf_frames, data]
  · rw [firstEnd_frames]
    exact Option.some_ne_none _

theorem delivered_of_fine (inverse : codec.Inverse) (registered : hasStream name = true) (nonempty : payloads ≠ [])
    (tracked : WsStreams.Tracked c) (going : c.loop ≠ .ended) (fine : Fine codec s name metadata payloads (.ws limit c)) :
    Delivered codec hasStream s name metadata payloads (.ws limit c) := by
  obtain ⟨free, fresh, entries, taken, goes⟩ := fine
  intro labels t ran told
  obtain ⟨body, sent, of_stream⟩ := outgoing_body s name entries payloads
  rw [performAll_created free taken, heard_all inverse goes, sent] at told
  have hearing := (Hearing.start tracked going fresh).follow_all of_stream.follows registered ran told (List.prefix_refl _)
  rw [List.nil_append] at hearing
  have some : framesOf body ≠ [] := by
    intro nothing
    have none_sent := of_stream.frames
    rw [nothing] at none_sent
    exact nonempty (List.map_eq_nil_iff.1 none_sent.symm)
  have carried := hearing.carried of_stream.follows of_stream.ends registered some
  rwa [of_stream.frames] at carried

theorem not_delivered_part (registered : hasStream name = true) (tracked : WsStreams.Tracked c) (going : c.loop ≠ .ended)
    {entries : List StreamMetaEntry} {body front back : List Message} (of_stream : Body id (payloads.map Prod.fst) body)
    (fresh : c.streams.lookup id = none) (split : .streamOpen ⟨id, name, entries⟩ :: body = front ++ back) (left : back ≠ [])
    {labels : List WsStreams.Label} {t : Connection} (ran : run (WsStreams.step hasStream) c labels = some t)
    (told : labels.filterMap tells = front.map some) (untouched : WsStreams.Untouched c.tasks.length t) :
    ¬ Carried hasStream c.tasks.length name (payloads.map Prod.fst) t := by
  have start : Hearing c ⟨id, name, entries⟩ [] c := .start tracked going fresh
  have hearing := start.follow_all of_stream.follows registered ran told ⟨back, split.symm⟩
  rw [List.nil_append] at hearing
  cases front with
  | nil =>
    rintro ⟨-, task, found, -⟩
    obtain ⟨-, count⟩ := hearing.before rfl
    have within := (List.getElem?_eq_some_iff.1 found).1
    omega
  | cons first front =>
    rw [List.cons_append, List.cons.injEq] at split
    obtain ⟨rfl, rest⟩ := split
    have follows : ∀ msg ∈ front, Follows id msg := fun msg member =>
      of_stream.follows msg (by rw [rest]; exact List.mem_append_left _ member)
    exact hearing.not_carried follows (of_stream.last front back rest left) untouched

theorem no_task {t : Connection} (count : t.tasks.length = c.tasks.length) :
    ¬ Carried hasStream c.tasks.length name (payloads.map Prod.fst) t := by
  rintro ⟨-, task, found, -⟩
  have within := (List.getElem?_eq_some_iff.1 found).1
  omega

theorem goes_of_carried (inverse : codec.Inverse) (registered : hasStream name = true) (tracked : WsStreams.Tracked c)
    (going : c.loop ≠ .ended)
    {entries : List StreamMetaEntry} {body : List Message} (of_stream : Body id (payloads.map Prod.fst) body)
    {all : List (Bytes × Message)} (sent : all.map Prod.snd = .streamOpen ⟨id, name, entries⟩ :: body)
    (carried : ∀ labels t, run (WsStreams.step hasStream) c labels = some t →
      labels.filterMap tells = heard codec limit (upTo (all.map (made codec))) →
        Carried hasStream c.tasks.length name (payloads.map Prod.fst) t) :
    c.streams.lookup id = none ∧ ∀ entry ∈ all, Goes codec limit entry := by
  have follow : ∀ front back, .streamOpen ⟨id, name, entries⟩ :: body = front ++ back →
      ∀ msg ∈ front, msg = .streamOpen ⟨id, name, entries⟩ ∨ Follows id msg := by
    intro front back split msg member
    have sent_member : msg ∈ .streamOpen ⟨id, name, entries⟩ :: body := by
      rw [split]
      exact List.mem_append_left _ member
    exact (List.mem_cons.1 sent_member).imp_right (of_stream.follows msg)
  have fresh : c.streams.lookup id = none := by
    by_contra entered
    have occupied : WsStreams.Occupied id c.tasks.length c := ⟨Option.ne_none_iff_exists'.1 entered, rfl⟩
    obtain ⟨front, back, split, part⟩ := heard_front inverse limit all
    rw [sent] at split
    refine WsStreams.not_always_carried (fun _ occupied => occupied) (fun _ _ follows occupied => occupied.receive follows)
      (follow front back split) going occupied (fun labels t ran told occupied => ?_) part carried
    exact no_task occupied.2
  refine ⟨fresh, ?_⟩
  rcases heard_cases inverse all with ⟨goes, -⟩ | ⟨-, front, back, split, left, part⟩
  · exact goes
  · rw [sent] at split
    refine absurd carried (WsStreams.not_always_carried (fun _ untouched => untouched)
      (fun _ _ follows untouched => untouched.receive follows) (follow front back split) going
      (WsStreams.untouched_length c) (fun labels t ran told untouched => ?_) part)
    exact not_delivered_part registered tracked going of_stream fresh split left ran told untouched

theorem fine_of_delivered (inverse : codec.Inverse) (registered : hasStream name = true) (tracked : WsStreams.Tracked c)
    (going : c.loop ≠ .ended)
    (delivered : Delivered codec hasStream s name metadata payloads (.ws limit c)) :
    Fine codec s name metadata payloads (.ws limit c) := by
  by_cases throws : s.handle.borrowed = true ∨ ∃ text, getMetadata metadata = .error text
  · exact absurd (delivered [] c rfl (by rw [overWs_nothing throws]; rfl)) (no_task rfl)
  · obtain ⟨borrowed, refused⟩ := not_or.1 throws
    have free := Bool.eq_false_iff.2 borrowed
    cases taken : getMetadata metadata with
    | error text => exact absurd ⟨text, taken⟩ refused
    | ok entries =>
      obtain ⟨body, sent, of_stream⟩ := outgoing_body s name entries payloads
      rw [Delivered, performAll_created free taken] at delivered
      obtain ⟨fresh, goes⟩ := goes_of_carried inverse registered tracked going of_stream sent delivered
      exact ⟨free, fresh, entries, taken, goes⟩

/-- Over WebTransport there is at most one frame on each stream. -/
theorem overWt_short (s : Sdk) (name : String) (metadata : StreamMetadata) (payloads : List (Bytes × UInt64)) :
    ∀ contents ∈ overWt codec s name metadata payloads, contents.length ≤ 2 := by
  intro contents member
  rcases List.mem_append.1 member with sent | last
  · obtain ⟨frame, -, rfl⟩ := List.mem_map.1 sent
    exact Nat.le_refl _
  · split at last
    · rw [List.mem_singleton.1 last]
      exact Nat.le_succ 1
    · cases last

theorem readOut_length (id : UInt64) (contents : FrameIo) : (readOut id contents).length ≤ contents.length := by
  fun_induction readOut id contents with
  | case1 rest frame own ih => exact Nat.succ_le_succ ih
  | case2 rest frame other ih => exact Nat.le_succ_of_le ih
  | case3 rest e own => exact Nat.succ_le_succ (Nat.zero_le _)
  | case4 rest e other ih => exact Nat.le_succ_of_le ih
  | case5 rest msg _ _ ih => exact Nat.le_succ_of_le ih
  | case6 rest => exact Nat.succ_le_succ (Nat.zero_le _)
  | case7 => exact Nat.zero_le _

theorem not_accepted {t : Core.AcceptLoop.Loop} {n : Nat}
    (behind : t.came.drop n = (overWt codec s name metadata payloads).map (fun contents => (.uni, contents)))
    (nonempty : payloads ≠ []) : ¬ Accepted n name (payloads.map Prod.fst) t := by
  rintro ⟨-, stream, member, opened, rest, contents, -, -, out⟩
  have short : stream.contents.length ≤ 2 := by
    rw [Core.AcceptLoop.Loop.came, ← List.map_drop] at behind
    have there : (stream.dir, stream.contents) ∈
        (overWt codec s name metadata payloads).map (fun contents => (.uni, contents)) := by
      rw [← behind]
      exact List.mem_map_of_mem member
    obtain ⟨sent, of_sdk, same⟩ := List.mem_map.1 there
    have own : sent = stream.contents := congrArg Prod.snd same
    rw [← own]
    exact overWt_short s name metadata payloads sent of_sdk
  have read := readOut_length opened.id rest
  have some := List.length_pos_iff.2 nonempty
  rw [contents, List.length_cons] at short
  rw [out, List.length_append, List.length_map, List.length_map, List.length_singleton] at read
  omega

/-- They can all come in, and then no handler has the stream. -/
theorem not_delivered_wt {loop : Core.AcceptLoop.Loop} (alive : loop.alive = true) (nonempty : payloads ≠ []) :
    ¬ Delivered codec hasStream s name metadata payloads (.wt loop) := by
  intro delivered
  obtain ⟨labels, t, ran, lives, still, came⟩ := Core.AcceptLoop.comes_in .web loop alive
    ((overWt codec s name metadata payloads).map (fun contents => (.uni, contents)))
  have behind : t.came.drop loop.streams.length =
      (overWt codec s name metadata payloads).map (fun contents => (.uni, contents)) := by
    have count : loop.came.length = loop.streams.length := List.length_map _
    rw [came, ← count, List.drop_left]
  exact not_accepted behind nonempty (delivered labels t ran lives still behind)

/-- A stream with payloads is delivered, in whatever order the tasks of the connection go,
exactly when it was fine. -/
theorem delivered_iff_fine (inverse : codec.Inverse) (hasStream : String → Bool) (s : Sdk) {name : String}
    (metadata : StreamMetadata) {payloads : List (Bytes × UInt64)} (registered : hasStream name = true) (nonempty : payloads ≠ [])
    {server : Server} (up : server.Up hasStream) :
    Delivered codec hasStream s name metadata payloads server ↔ Fine codec s name metadata payloads server := by
  cases server with
  | ws limit c =>
    obtain ⟨reached, going⟩ := up
    have tracked := reached.invariant WsStreams.Tracked.init (fun _ _ _ tracked stepped => WsStreams.step_tracked tracked stepped)
    exact ⟨fine_of_delivered inverse registered tracked going, delivered_of_fine inverse registered nonempty tracked going⟩
  | wt loop => exact iff_of_false (not_delivered_wt up nonempty) id

theorem delivered_over_ws : Delivered wire (fun _ => true) .init "a" [] [([1], 0)] (.ws 64 .init) := by
  have up : (Server.ws 64 .init).Up (fun _ => true) := ⟨Reachable.refl _ _, WsStreams.LoopPhase.noConfusion⟩
  refine (delivered_iff_fine wire_inverse _ .init [] rfl (List.cons_ne_nil _ _) up).2 ?_
  refine ⟨rfl, rfl, [], rfl, List.forall_mem_cons.2 ⟨⟨by decide, [3, 1, 1, 97, 0], by decide, by decide, by decide⟩, ?_⟩⟩
  refine List.forall_mem_cons.2 ⟨⟨by decide, [4, 1, 0, 0, 1, 1], by decide, by decide, by decide⟩, ?_⟩
  exact List.forall_mem_singleton.2 ⟨by decide, [5, 1, 0, 0, 0], by decide, by decide, by decide⟩

/-- The open is dispatched and the frame is not, and the loop ends with the empty stream. -/
theorem stream_unheard :
    (∃ labels t, run (Core.AcceptLoop.step .web) .init labels = some t ∧
      t.came = (overWt wire .init "a" [] [([1], 0)]).map (fun contents => (.uni, contents)) ∧
      t.streams.map (·.dispatched) = [[.streamOpen ⟨1, "a", []⟩], [], []] ∧ t.ended = true) ∧
    ¬ Delivered wire (fun _ => true) .init "a" [] [([1], 0)] (.wt .init) := by
  refine ⟨⟨[.opens .uni, .arrive 0 (.ok (some (.streamOpen ⟨1, "a", []⟩))), .arrive 0 (.ok none), .accept 0, .finish 0,
    .opens .uni, .arrive 1 (.ok (some (.stream ⟨1, 0, ⟨0⟩, [1]⟩))), .arrive 1 (.ok none), .accept 1,
    .opens .uni, .arrive 2 (.ok none), .accept 2], _, rfl, rfl, rfl, rfl⟩, ?_⟩
  exact not_delivered_wt rfl (List.cons_ne_nil _ _)

end Delivered

end EchoStream.Web.StreamOut
