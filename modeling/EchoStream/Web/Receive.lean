import EchoStream.Web.FrameReader
import EchoStream.Web.Handle

/-! Frames received in the browser. What comes with a WebSocket message is given to the
state machine as it is. What is read from a stream of WebTransport is given to it without
the length that it was read by, although the state machine takes one off too. -/

namespace EchoStream.Web.Receive
open Foundation.Formats
open Proto.Messages Proto.Postcard
open Core.StateMachine
open Transport.WsFrames
open FrameReader Handle

/-- The frame that a call gives back to be sent. One that throws gives none. -/
def outbound : Except Thrown (Option Bytes) → Option Bytes
  | .ok sent => sent
  | .error _ => none

/-- A call with bytes, which are copied to the module's memory first. -/
def handOver (codec : Codec Message) (checks : Bool) (bytes : Bytes) (h : ClientCoreHandle) :
    Option Bytes × ClientCoreHandle :=
  if fits : bytes.length < 2 ^ 31 then
    let (result, h) := h.use (handleInbound codec checks ⟨bytes, fits⟩)
    (outbound result, h)
  else (none, h)

/-- A WebSocket message. -/
def onMessage (codec : Codec Message) (checks : Bool) (data : Bytes) (h : ClientCoreHandle) :
    Option Bytes × ClientCoreHandle :=
  handOver codec checks data h

/-- A stream of WebTransport. -/
def handleBi (codec : Codec Message) (checks : Bool) (reader : Reads) (h : ClientCoreHandle) :
    Option Bytes × ClientCoreHandle :=
  match (readFrame reader).1 with
  | .ok (some payload) => handOver codec checks payload h
  | _ => (none, h)

def act (codec : Codec Message) (h : ClientCoreHandle) (msg : Message) : Option Bytes × ClientCoreHandle :=
  let ((calls, resp), core) := h.core.handleInbound msg
  let sent :=
    match resp with
    | some resp => (encodeFrameBytes codec resp).map some
    | none => .ok none
  (outbound sent, { core, calls := h.calls ++ calls, borrowed := trapped sent })

/-- State machines with the same contents. -/
structure SameCore (a b : ClientCore) : Prop where
  nextId : a.nextId = b.nextId
  nextListenerId : a.nextListenerId = b.nextListenerId
  pending : ∀ id, a.pending.lookup id = b.pending.lookup id
  events : ∀ name, a.events.lookup name = b.events.lookup name
  rpcs : ∀ name, a.rpcs.lookup name = b.rpcs.lookup name
  streams : ∀ name, a.streams.lookup name = b.streams.lookup name
  streamNames : ∀ id, a.streamNames.lookup id = b.streamNames.lookup id
  streamMetas : ∀ id, a.streamMetas.lookup id = b.streamMetas.lookup id
  streamEnds : ∀ id, a.streamEnds.lookup id = b.streamEnds.lookup id
  streamSeq : ∀ id, a.streamSeq.lookup id = b.streamSeq.lookup id

/-- The same frame to be sent, the same listeners called, the same state after it. -/
structure SameOutcome (a b : Option Bytes × ClientCoreHandle) : Prop where
  outbound : a.1 = b.1
  calls : a.2.calls = b.2.calls
  borrowed : a.2.borrowed = b.2.borrowed
  core : SameCore a.2.core b.2.core

/-- A message that the state machine takes no notice of. -/
def Inert (core : ClientCore) : Message → Prop
  | .response resp => core.pending.lookup resp.id = none
  | .event event => (core.events.lookup event.name).getD [] = []
  | .request _ => False
  | .streamOpen opened =>
      core.streamNames.lookup opened.id = some opened.name ∧ core.streamMetas.lookup opened.id = some opened.metadata
  | .stream frame => core.streamListener frame.id = none
  | .streamEnd ended => core.streamEnds.lookup ended.id = some ended ∧ core.streamListener ended.id = none

/-- A listener's answer as it is sent, and whether the module traps over it. -/
def framed (codec : Codec Message) (id : UInt64) (answer : Option Bytes) : Option Bytes × Bool :=
  match answer with
  | none => (none, false)
  | some data =>
      let sent := (encodeFrameBytes codec (ClientCore.buildResponse id data)).map some
      (outbound sent, trapped sent)

/-- Requests that nobody or the same listener answers, in the same way. -/
def AskedAlike (codec : Codec Message) (core : ClientCore) (first second : RequestMsg) : Prop :=
  first.id = second.id ∧
    ((core.rpcs.lookup first.name = none ∧ core.rpcs.lookup second.name = none) ∨
      ∃ listener one two, core.rpcs.lookup first.name = some (listener, one) ∧
        core.rpcs.lookup second.name = some (listener, two) ∧ first.data = second.data ∧
        framed codec first.id (one first.id first.data) = framed codec second.id (two second.id second.data))

/-- Messages that the state machine does not tell apart. -/
def Interchangeable (codec : Codec Message) (core : ClientCore) : Message → Message → Prop
  | .response first, .response second => first.id = second.id ∧ ClientCore.contents first = ClientCore.contents second
  | .event first, .event second => first.name = second.name ∧ first.data = second.data
  | .request first, .request second => AskedAlike codec core first second
  | .streamOpen first, .streamOpen second => first = second
  | .stream first, .stream second => first = second
  | .streamEnd first, .streamEnd second =>
      first = second ∨
        (core.streamEnds.lookup first.id = some first ∧ core.streamEnds.lookup second.id = some second ∧
          core.streamNames.lookup first.id = core.streamNames.lookup second.id)
  | _, _ => False

def taken (codec : Codec Message) (bytes : Bytes) : Option Message :=
  if 4 ≤ bytes.length then (codec.fromBytes ((bytes.take (4 + declared bytes)).drop 4)).toOption else none

/-- The message in place of another, or in place of none. -/
def Replaces (codec : Codec Message) (core : ClientCore) (msg : Message) : Option Message → Prop
  | none => Inert core msg
  | some other => (Inert core msg ∧ Inert core other) ∨ Interchangeable codec core msg other

/-- The error for a request without a listener has a frame. -/
def Refuses (codec : Codec Message) : Prop :=
  ∀ id, ∃ bytes, encodeFrameBytes codec (ClientCore.buildErrorResponse id "handler not found") = .ok bytes

variable {codec : Codec Message} {core : ClientCore} {h : ClientCoreHandle} {msg other : Message}
  {a b c : Option Bytes × ClientCoreHandle}

theorem SameCore.refl (core : ClientCore) : SameCore core core := by
  constructor <;> first | rfl | exact fun _ => rfl

theorem SameOutcome.refl (a : Option Bytes × ClientCoreHandle) : SameOutcome a a := ⟨rfl, rfl, rfl, .refl _⟩

theorem SameCore.symm {a b : ClientCore} (same : SameCore a b) : SameCore b a where
  nextId := same.nextId.symm
  nextListenerId := same.nextListenerId.symm
  pending id := (same.pending id).symm
  events name := (same.events name).symm
  rpcs name := (same.rpcs name).symm
  streams name := (same.streams name).symm
  streamNames id := (same.streamNames id).symm
  streamMetas id := (same.streamMetas id).symm
  streamEnds id := (same.streamEnds id).symm
  streamSeq id := (same.streamSeq id).symm

theorem SameCore.trans {a b c : ClientCore} (first : SameCore a b) (second : SameCore b c) : SameCore a c where
  nextId := first.nextId.trans second.nextId
  nextListenerId := first.nextListenerId.trans second.nextListenerId
  pending id := (first.pending id).trans (second.pending id)
  events name := (first.events name).trans (second.events name)
  rpcs name := (first.rpcs name).trans (second.rpcs name)
  streams name := (first.streams name).trans (second.streams name)
  streamNames id := (first.streamNames id).trans (second.streamNames id)
  streamMetas id := (first.streamMetas id).trans (second.streamMetas id)
  streamEnds id := (first.streamEnds id).trans (second.streamEnds id)
  streamSeq id := (first.streamSeq id).trans (second.streamSeq id)

theorem SameOutcome.symm (same : SameOutcome a b) : SameOutcome b a :=
  ⟨same.outbound.symm, same.calls.symm, same.borrowed.symm, same.core.symm⟩

theorem SameOutcome.trans (first : SameOutcome a b) (second : SameOutcome b c) : SameOutcome a c :=
  ⟨first.outbound.trans second.outbound, first.calls.trans second.calls, first.borrowed.trans second.borrowed,
    first.core.trans second.core⟩

section Kinds

/-- Some stream has ended differently. -/
def EndsDiffer (a b : ClientCore) : Prop := ∃ id, a.streamEnds.lookup id ≠ b.streamEnds.lookup id

/-- Some stream has another name or other metadata. -/
def OpensDiffer (a b : ClientCore) : Prop :=
  ∃ id, a.streamNames.lookup id ≠ b.streamNames.lookup id ∨ a.streamMetas.lookup id ≠ b.streamMetas.lookup id

open Classical in
/-- The kind of a message that has called no listener. -/
noncomputable def markQuiet (h : ClientCoreHandle) (outcome : Option Bytes × ClientCoreHandle) : Option Nat :=
  if outcome.1.isSome then some 0
  else if EndsDiffer outcome.2.core h.core then some 5
  else if OpensDiffer outcome.2.core h.core then some 3
  else none

noncomputable def mark (h : ClientCoreHandle) (outcome : Option Bytes × ClientCoreHandle) : Option Nat :=
  match outcome.2.calls.drop h.calls.length with
  | .rpc .. :: _ => some 0
  | .response .. :: _ => some 1
  | .event .. :: _ => some 2
  | .stream _ _ (some _) :: _ => some 4
  | .stream _ _ none :: _ => some 5
  | [] => markQuiet h outcome

theorem mark_same (same : SameOutcome a b) : mark h a = mark h b := by
  have ends : EndsDiffer a.2.core h.core ↔ EndsDiffer b.2.core h.core := by
    simp only [EndsDiffer, same.core.streamEnds]
  have opens : OpensDiffer a.2.core h.core ↔ OpensDiffer b.2.core h.core := by
    simp only [OpensDiffer, same.core.streamNames, same.core.streamMetas]
  have quiet : markQuiet h a = markQuiet h b := by
    rw [markQuiet, markQuiet, same.outbound, propext ends, propext opens]
  rw [mark, mark, same.calls, quiet]

theorem mark_none (h : ClientCoreHandle) : mark h (none, h) = none := by
  simp [mark, markQuiet, EndsDiffer, OpensDiffer]

private def notFound : Bytes := [1, 17, 104, 97, 110, 100, 108, 101, 114, 32, 110, 111, 116, 32, 102, 111, 117, 110, 100]

theorem wire_refuses : Refuses wire := by
  intro id
  have tag : u32.put 1 = some [1] := by decide
  have code : statusCode.put .error = some [1] := by decide
  have text : (option string).put (some "handler not found") =
      some notFound := by decide
  have data : bytes.put [] = some [0] := by decide
  have put : ∃ payload, wire.toAllocvec (ClientCore.buildErrorResponse id "handler not found") = .ok payload ∧
      payload.length < 100 := by
    have few := putGroups_length_le 10 id.toNat
    refine ⟨[1] ++ (putGroups 10 id.toNat ++ ([1] ++ (notFound ++ [0]))), ?_, ?_⟩
    · simp [wire, codecOf, message, ClientCore.buildErrorResponse, Format.tagged, kindOf, kinds, kind, responseMsg,
        Format.convert, Format.pair, tag, u64_put, code, text, data]
    · simp only [List.length_append, List.length_cons, List.length_nil, notFound]
      omega
  obtain ⟨payload, encoded, short⟩ := put
  refine ⟨toLittle 4 (payload.length % 2 ^ 32) ++ payload, ?_⟩
  rw [encodeFrameBytes, encoded]
  exact if_pos (by omega)

theorem encodeFrameBytes_injective (inverse : codec.Inverse) {bytes : Bytes} (first : encodeFrameBytes codec msg = .ok bytes)
    (second : encodeFrameBytes codec other = .ok bytes) : msg = other := by
  have decodes : ∀ {msg}, encodeFrameBytes codec msg = .ok bytes → codec.fromBytes (bytes.drop 4) = .ok msg := by
    intro msg framed
    rw [encodeFrameBytes] at framed
    cases encoded : codec.toAllocvec msg with
    | error text =>
      rw [encoded] at framed
      cases framed
    | ok payload =>
      simp only [encoded] at framed
      split at framed
      · cases framed
        rw [List.drop_left' (toLittle_length ..)]
        exact inverse _ _ encoded
      · cases framed
  have same := (decodes first).symm.trans (decodes second)
  cases same
  rfl

/-- A message that is noticed shows of what kind it is. -/
theorem mark_act (refuses : Refuses codec) (noticed : ¬ Inert h.core msg) : mark h (act codec h msg) = some (kindOf msg) := by
  cases msg with
  | request req =>
    cases answers : h.core.rpcs.lookup req.name with
    | none =>
      obtain ⟨bytes, framed⟩ := refuses req.id
      simp [mark, markQuiet, act, ClientCore.handleInbound, answers, framed, outbound, Except.map, kindOf]
    | some entry => simp [mark, act, ClientCore.handleInbound, answers, kindOf]
  | response resp =>
    cases waits : h.core.pending.lookup resp.id with
    | none => exact absurd waits noticed
    | some request => simp [mark, act, ClientCore.handleInbound, waits, kindOf]
  | event event =>
    cases listeners : (h.core.events.lookup event.name).getD [] with
    | nil => exact absurd listeners noticed
    | cons first rest => simp [mark, act, ClientCore.handleInbound, listeners, kindOf]
  | streamOpen opened =>
    have changed : ∃ id, (h.core.streamNames.insert opened.id opened.name).lookup id ≠ h.core.streamNames.lookup id ∨
        (h.core.streamMetas.insert opened.id opened.metadata).lookup id ≠ h.core.streamMetas.lookup id := by
      refine ⟨opened.id, ?_⟩
      rw [AList.lookup_insert, AList.lookup_insert]
      by_contra both
      rw [not_or, not_not, not_not] at both
      exact noticed ⟨both.1.symm, both.2.symm⟩
    simp [mark, markQuiet, EndsDiffer, OpensDiffer, act, ClientCore.handleInbound, outbound, kindOf, changed]
  | stream frame =>
    cases listens : h.core.streamListener frame.id with
    | none => exact absurd listens noticed
    | some found => simp [mark, act, ClientCore.handleInbound, listens, kindOf]
  | streamEnd ended =>
    cases listens : h.core.streamListener ended.id with
    | none =>
      have changed : ∃ id, (h.core.streamEnds.insert ended.id ended).lookup id ≠ h.core.streamEnds.lookup id := by
        refine ⟨ended.id, fun same => noticed ⟨?_, listens⟩⟩
        rw [← same, AList.lookup_insert]
      have listens' : ({ h.core with streamEnds := h.core.streamEnds.insert ended.id ended } : ClientCore).streamListener
          ended.id = none := listens
      simp [mark, markQuiet, EndsDiffer, act, ClientCore.handleInbound, listens', outbound, kindOf, changed]
    | some found =>
      have listens' : ({ h.core with streamEnds := h.core.streamEnds.insert ended.id ended } : ClientCore).streamListener
          ended.id = some found := listens
      simp [mark, act, ClientCore.handleInbound, listens', kindOf]

theorem lookup_insert_same {α β : Type} [DecidableEq α] {map : AList (fun _ : α => β)} {key : α} {value : β}
    (there : map.lookup key = some value) (other : α) : (map.insert key value).lookup other = map.lookup other := by
  by_cases own : other = key
  · rw [own, AList.lookup_insert, there]
  · exact AList.lookup_insert_ne own

theorem act_quiet (free : h.borrowed = false) (handled : h.core.handleInbound msg = (([], none), core))
    (same : SameCore core h.core) : SameOutcome (act codec h msg) (none, h) := by
  constructor
  · simp [act, handled, outbound]
  · simp [act, handled]
  · simp [act, handled, trapped, free]
  · simpa only [act, handled] using same

theorem act_inert (free : h.borrowed = false) (inert : Inert h.core msg) : SameOutcome (act codec h msg) (none, h) := by
  cases msg with
  | request req => exact absurd inert id
  | response resp =>
    have waits : h.core.pending.lookup resp.id = none := inert
    exact act_quiet free (by rw [ClientCore.handleInbound, waits]) (.refl _)
  | event event =>
    have listeners : (h.core.events.lookup event.name).getD [] = [] := inert
    refine act_quiet free ?_ (.refl _)
    simp only [ClientCore.handleInbound, listeners, List.map_nil]
  | streamOpen opened =>
    refine act_quiet free rfl { SameCore.refl h.core with streamNames := ?_, streamMetas := ?_ }
    · exact lookup_insert_same inert.1
    · exact lookup_insert_same inert.2
  | stream frame =>
    have listens : h.core.streamListener frame.id = none := inert
    exact act_quiet free (by rw [ClientCore.handleInbound, listens]) (.refl _)
  | streamEnd ended =>
    have listens : ({ h.core with streamEnds := h.core.streamEnds.insert ended.id ended } : ClientCore).streamListener
        ended.id = none := inert.2
    have handled : h.core.handleInbound (.streamEnd ended) =
        (([], none), { h.core with streamEnds := h.core.streamEnds.insert ended.id ended }) := by
      simp only [ClientCore.handleInbound, listens]
    exact act_quiet free handled { SameCore.refl h.core with streamEnds := lookup_insert_same inert.1 }

theorem act_idle_iff (refuses : Refuses codec) (free : h.borrowed = false) :
    SameOutcome (act codec h msg) (none, h) ↔ Inert h.core msg := by
  refine ⟨fun same => ?_, act_inert free⟩
  by_contra noticed
  have shown := mark_act refuses noticed
  rw [mark_same same, mark_none] at shown
  cases shown

theorem act_not_stuck (refuses : Refuses codec) (free : h.borrowed = false) :
    ¬ SameOutcome (act codec h msg) (none, { h with borrowed := true }) := by
  intro same
  by_cases inert : Inert h.core msg
  · have idle := (act_inert free inert).borrowed.symm.trans same.borrowed
    rw [free] at idle
    cases idle
  · have shown := mark_act refuses inert
    have nothing : mark h (none, { h with borrowed := true }) = none := mark_none h
    rw [mark_same same, nothing] at shown
    cases shown

end Kinds

section Alike

theorem same_calls (same : SameOutcome (act codec h msg) (act codec h other)) :
    (h.core.handleInbound msg).1.1 = (h.core.handleInbound other).1.1 := List.append_cancel_left same.calls

theorem responses_alike {first second : ResponseMsg}
    (same : SameOutcome (act codec h (.response first)) (act codec h (.response second)))
    (noticed : ¬ Inert h.core (.response first)) (too : ¬ Inert h.core (.response second)) :
    first.id = second.id ∧ ClientCore.contents first = ClientCore.contents second := by
  obtain ⟨one, waits⟩ := Option.ne_none_iff_exists'.1 noticed
  obtain ⟨two, waits'⟩ := Option.ne_none_iff_exists'.1 too
  have calls := same_calls same
  rw [handleInbound_response waits, handleInbound_response waits'] at calls
  refine ⟨?_, ?_⟩
  · by_contra apart
    have left := same.core.pending first.id
    simp only [act, ClientCore.handleInbound, waits, waits', AList.lookup_erase, AList.lookup_erase_ne apart] at left
    cases left
  · simp only [List.cons.injEq, Call.response.injEq] at calls
    exact Prod.ext calls.1.2.1 calls.1.2.2

theorem events_alike {first second : EventMsg}
    (same : SameOutcome (act codec h (.event first)) (act codec h (.event second)))
    (noticed : ¬ Inert h.core (.event first)) : first.name = second.name ∧ first.data = second.data := by
  have calls := same_calls same
  simp only [ClientCore.handleInbound] at calls
  cases listeners : (h.core.events.lookup first.name).getD [] with
  | nil => exact absurd listeners noticed
  | cons one rest =>
    rw [listeners] at calls
    cases others : (h.core.events.lookup second.name).getD [] with
    | nil =>
      rw [others] at calls
      cases calls
    | cons two rest' =>
      rw [others, List.map_cons, List.map_cons, List.cons.injEq, Call.event.injEq] at calls
      exact calls.1.2

theorem opens_alike {first second : StreamOpenMsg}
    (same : SameOutcome (act codec h (.streamOpen first)) (act codec h (.streamOpen second)))
    (noticed : ¬ Inert h.core (.streamOpen first)) : first = second := by
  have names : (h.core.streamNames.insert first.id first.name).lookup first.id =
      (h.core.streamNames.insert second.id second.name).lookup first.id := same.core.streamNames first.id
  have metas : (h.core.streamMetas.insert first.id first.metadata).lookup first.id =
      (h.core.streamMetas.insert second.id second.metadata).lookup first.id := same.core.streamMetas first.id
  rw [AList.lookup_insert] at names metas
  by_cases own : first.id = second.id
  · rw [own, AList.lookup_insert] at names metas
    cases first
    cases second
    simp_all
  · rw [AList.lookup_insert_ne own] at names metas
    exact absurd ⟨names.symm, metas.symm⟩ noticed

theorem frames_alike {first second : StreamMsg}
    (same : SameOutcome (act codec h (.stream first)) (act codec h (.stream second)))
    (noticed : ¬ Inert h.core (.stream first)) : first = second := by
  have calls := same_calls same
  simp only [ClientCore.handleInbound] at calls
  obtain ⟨one, listens⟩ := Option.ne_none_iff_exists'.1 noticed
  rw [listens] at calls
  cases listens' : h.core.streamListener second.id with
  | none =>
    rw [listens'] at calls
    cases calls
  | some two =>
    simp only [listens', List.cons.injEq, Call.stream.injEq, Option.some.injEq] at calls
    exact calls.1.2.2

theorem handleInbound_streamEnd (core : ClientCore) (ended : StreamEndMsg) :
    (core.handleInbound (.streamEnd ended)).1.1 =
      ((core.streamListener ended.id).map (fun found => Call.stream found.1 found.2 none)).toList := by
  have listens : ({ core with streamEnds := core.streamEnds.insert ended.id ended } : ClientCore).streamListener
      ended.id = core.streamListener ended.id := rfl
  cases found : core.streamListener ended.id with
  | none => simp only [ClientCore.handleInbound, listens, found, Option.map_none, Option.toList_none]
  | some entry => simp only [ClientCore.handleInbound, listens, found, Option.map_some, Option.toList_some]

theorem handleInbound_ends (core : ClientCore) (ended : StreamEndMsg) :
    (core.handleInbound (.streamEnd ended)).2 = { core with streamEnds := core.streamEnds.insert ended.id ended } := by
  simp only [ClientCore.handleInbound]
  split <;> rfl

theorem streamListener_some {id : UInt64} {entry : String × ListenerId} (listens : core.streamListener id = some entry) :
    core.streamNames.lookup id = some entry.1 ∧ core.streams.lookup entry.1 = some entry.2 := by
  rw [ClientCore.streamListener] at listens
  cases named : core.streamNames.lookup id with
  | none =>
    rw [named] at listens
    cases listens
  | some name =>
    simp only [named, Option.map_eq_some_iff] at listens
    obtain ⟨listener, registered, rfl⟩ := listens
    exact ⟨rfl, registered⟩

theorem ends_alike {first second : StreamEndMsg}
    (same : SameOutcome (act codec h (.streamEnd first)) (act codec h (.streamEnd second)))
    (noticed : ¬ Inert h.core (.streamEnd first)) :
    first = second ∨
      (h.core.streamEnds.lookup first.id = some first ∧ h.core.streamEnds.lookup second.id = some second ∧
        h.core.streamNames.lookup first.id = h.core.streamNames.lookup second.id) := by
  have calls := same_calls same
  rw [handleInbound_streamEnd, handleInbound_streamEnd] at calls
  have ends : ∀ id, (h.core.streamEnds.insert first.id first).lookup id = (h.core.streamEnds.insert second.id second).lookup id := by
    intro id
    have left := same.core.streamEnds id
    simpa only [act, handleInbound_ends] using left
  by_cases own : first.id = second.id
  · left
    have there := ends first.id
    rw [AList.lookup_insert, own, AList.lookup_insert] at there
    exact Option.some.inj there
  · right
    have one : h.core.streamEnds.lookup first.id = some first := by
      rw [← AList.lookup_insert_ne own, ← ends, AList.lookup_insert]
    have two : h.core.streamEnds.lookup second.id = some second := by
      rw [← AList.lookup_insert_ne (Ne.symm own), ends, AList.lookup_insert]
    refine ⟨one, two, ?_⟩
    cases listens : h.core.streamListener first.id with
    | none => exact absurd ⟨one, listens⟩ noticed
    | some entry =>
      cases listens' : h.core.streamListener second.id with
      | none =>
        rw [listens, listens'] at calls
        cases calls
      | some entry' =>
        rw [listens, listens'] at calls
        simp only [Option.map_some, Option.toList_some, List.cons.injEq, Call.stream.injEq] at calls
        rw [(streamListener_some listens).1, (streamListener_some listens').1, calls.1.1]

theorem act_refused (refuses : Refuses codec) {req : RequestMsg} (nobody : h.core.rpcs.lookup req.name = none) :
    ∃ bytes, encodeFrameBytes codec (ClientCore.buildErrorResponse req.id "handler not found") = .ok bytes ∧
      act codec h (.request req) = (some bytes, { h with calls := h.calls ++ [], borrowed := false }) := by
  obtain ⟨bytes, sent⟩ := refuses req.id
  refine ⟨bytes, sent, ?_⟩
  simp [act, ClientCore.handleInbound, nobody, sent, outbound, trapped, Except.map]

theorem act_asked {req : RequestMsg} {listener : ListenerId} {handler : RpcListener}
    (registered : h.core.rpcs.lookup req.name = some (listener, handler)) :
    act codec h (.request req) =
      ((framed codec req.id (handler req.id req.data)).1,
        { h with
          calls := h.calls ++ [.rpc listener req.id req.data]
          borrowed := (framed codec req.id (handler req.id req.data)).2 }) := by
  cases answer : handler req.id req.data <;>
    simp [act, ClientCore.handleInbound, registered, answer, framed, outbound, trapped]

theorem requests_alike (inverse : codec.Inverse) (refuses : Refuses codec) {first second : RequestMsg}
    (same : SameOutcome (act codec h (.request first)) (act codec h (.request second))) :
    AskedAlike codec h.core first second := by
  have calls := same_calls same
  cases answers : h.core.rpcs.lookup first.name with
  | none =>
    cases answers' : h.core.rpcs.lookup second.name with
    | none =>
      obtain ⟨one, sent, acted⟩ := act_refused refuses answers
      obtain ⟨two, sent', acted'⟩ := act_refused refuses answers'
      have equal := same.outbound
      rw [acted, acted'] at equal
      cases equal
      have alike := encodeFrameBytes_injective inverse sent sent'
      simp only [ClientCore.buildErrorResponse, Message.response.injEq, ResponseMsg.mk.injEq] at alike
      exact ⟨alike.1, .inl ⟨answers, answers'⟩⟩
    | some entry =>
      simp only [ClientCore.handleInbound, answers, answers'] at calls
      cases calls
  | some entry =>
    cases answers' : h.core.rpcs.lookup second.name with
    | none =>
      simp only [ClientCore.handleInbound, answers, answers'] at calls
      cases calls
    | some entry' =>
      obtain ⟨listener, one⟩ := entry
      obtain ⟨listener', two⟩ := entry'
      simp only [ClientCore.handleInbound, answers, answers', List.cons.injEq, Call.rpc.injEq] at calls
      obtain ⟨⟨rfl, ids, data⟩, -⟩ := calls
      rw [act_asked answers, act_asked answers'] at same
      exact ⟨ids, .inr ⟨listener, one, two, answers, answers', data, Prod.ext same.outbound same.borrowed⟩⟩

/-- Messages that are noticed and come to the same are interchangeable, -/
theorem interchangeable_of_same (inverse : codec.Inverse) (refuses : Refuses codec)
    (same : SameOutcome (act codec h msg) (act codec h other)) (noticed : ¬ Inert h.core msg)
    (too : ¬ Inert h.core other) : Interchangeable codec h.core msg other := by
  have kinds : kindOf msg = kindOf other := by
    have marks := mark_same (h := h) same
    rw [mark_act refuses noticed, mark_act refuses too] at marks
    exact Option.some.inj marks
  cases msg with
  | request first =>
    cases other with
    | request second => exact requests_alike inverse refuses same
    | _ => cases kinds
  | response first =>
    cases other with
    | response second => exact responses_alike same noticed too
    | _ => cases kinds
  | event first =>
    cases other with
    | event second => exact events_alike same noticed
    | _ => cases kinds
  | streamOpen first =>
    cases other with
    | streamOpen second => exact opens_alike same noticed
    | _ => cases kinds
  | stream first =>
    cases other with
    | stream second => exact frames_alike same noticed
    | _ => cases kinds
  | streamEnd first =>
    cases other with
    | streamEnd second => exact ends_alike same noticed
    | _ => cases kinds

theorem asked_same (refuses : Refuses codec) {first second : RequestMsg} (alike : AskedAlike codec h.core first second) :
    SameOutcome (act codec h (.request first)) (act codec h (.request second)) := by
  obtain ⟨ids, ⟨nobody, neither⟩ | ⟨listener, one, two, registered, registered', data, answers⟩⟩ := alike
  · obtain ⟨bytes, sent, acted⟩ := act_refused refuses nobody
    obtain ⟨bytes', sent', acted'⟩ := act_refused refuses neither
    rw [← ids, sent] at sent'
    cases sent'
    rw [acted, acted']
    exact .refl _
  · rw [act_asked registered, act_asked registered', answers, ids, data]
    exact .refl _

theorem ended_same {first second : StreamEndMsg} (one : h.core.streamEnds.lookup first.id = some first)
    (two : h.core.streamEnds.lookup second.id = some second)
    (names : h.core.streamNames.lookup first.id = h.core.streamNames.lookup second.id) :
    SameOutcome (act codec h (.streamEnd first)) (act codec h (.streamEnd second)) := by
  have listens : h.core.streamListener first.id = h.core.streamListener second.id := by
    rw [ClientCore.streamListener, ClientCore.streamListener, names]
  have silent : ∀ ended, (h.core.handleInbound (.streamEnd ended)).1.2 = none := by
    intro ended
    rw [ClientCore.handleInbound]
    split <;> rfl
  constructor
  · simp only [act, silent]
  · simp only [act, handleInbound_streamEnd, listens]
  · simp only [act, silent]
  · simp only [act, handleInbound_ends]
    exact { SameCore.refl h.core with
      streamEnds := fun id => (lookup_insert_same one id).trans (lookup_insert_same two id).symm }

theorem act_of_handled (handled : h.core.handleInbound msg = h.core.handleInbound other) :
    SameOutcome (act codec h msg) (act codec h other) := by
  rw [act, act, handled]
  exact .refl _

/-- and interchangeable messages come to the same. -/
theorem interchangeable_same (refuses : Refuses codec) (alike : Interchangeable codec h.core msg other) :
    SameOutcome (act codec h msg) (act codec h other) := by
  cases msg with
  | request first =>
    cases other with
    | request second => exact asked_same refuses alike
    | _ => exact absurd alike id
  | response first =>
    cases other with
    | response second =>
      obtain ⟨ids, contents⟩ := alike
      exact act_of_handled (by rw [ClientCore.handleInbound, ClientCore.handleInbound, ids, contents])
    | _ => exact absurd alike id
  | event first =>
    cases other with
    | event second =>
      obtain ⟨names, data⟩ := alike
      exact act_of_handled (by rw [ClientCore.handleInbound, ClientCore.handleInbound, names, data])
    | _ => exact absurd alike id
  | streamOpen first =>
    cases other with
    | streamOpen second =>
      have equal : first = second := alike
      exact act_of_handled (by rw [equal])
    | _ => exact absurd alike id
  | stream first =>
    cases other with
    | stream second =>
      have equal : first = second := alike
      exact act_of_handled (by rw [equal])
    | _ => exact absurd alike id
  | streamEnd first =>
    cases other with
    | streamEnd second =>
      rcases alike with rfl | ⟨one, two, names⟩
      · exact .refl _
      · exact ended_same one two names
    | _ => exact absurd alike id

theorem act_same_iff (inverse : codec.Inverse) (refuses : Refuses codec) (free : h.borrowed = false) :
    SameOutcome (act codec h msg) (act codec h other) ↔
      (Inert h.core msg ∧ Inert h.core other) ∨ Interchangeable codec h.core msg other := by
  constructor
  · intro same
    by_cases inert : Inert h.core msg
    · have idle : SameOutcome (act codec h other) (none, h) := same.symm.trans (act_inert free inert)
      exact .inl ⟨inert, (act_idle_iff refuses free).1 idle⟩
    · by_cases too : Inert h.core other
      · have idle : SameOutcome (act codec h msg) (none, h) := same.trans (act_inert free too)
        exact absurd ((act_idle_iff refuses free).1 idle) inert
      · exact .inr (interchangeable_of_same inverse refuses same inert too)
  · rintro (⟨inert, too⟩ | alike)
    · exact (act_inert free inert).trans (act_inert free too).symm
    · exact interchangeable_same refuses alike

end Alike

section Paths

variable {checks : Bool} {bytes payload : Bytes} {reader : Reads}

theorem handOver_inUse (inUse : h.borrowed = true) : handOver codec checks bytes h = (none, h) := by
  unfold handOver ClientCoreHandle.use
  split
  · rfl
  · rfl

theorem handOver_decoded (free : h.borrowed = false) (fits : bytes.length < 2 ^ 31) :
    handOver codec checks bytes h =
      match decodeInbound codec checks ⟨bytes, fits⟩ with
      | .panicked => (none, { h with borrowed := true })
      | .refused _ => (none, h)
      | .accepted msg => act codec h msg := by
  obtain ⟨core, calls, borrowed⟩ := h
  cases free
  rw [handOver, dif_pos fits, ClientCoreHandle.use, if_neg Bool.false_ne_true, handleInbound]
  cases decodeInbound codec checks ⟨bytes, fits⟩ with
  | panicked => simp [outbound, trapped]
  | refused text => simp [outbound, trapped]
  | accepted msg =>
    simp only [act]
    cases (core.handleInbound msg).1.2 <;> rfl

/-- Bytes without the length that they declare leave the state machine in use. -/
theorem handOver_missing (free : h.borrowed = false) (fits : bytes.length < 2 ^ 31) (unfit : ¬ Fitting bytes) :
    handOver codec checks bytes h = (none, { h with borrowed := true }) := by
  rw [Fitting, not_forall, exists_prop, Nat.not_le] at unfit
  rw [handOver_decoded free fits, decodeInbound_missing codec checks ⟨bytes, fits⟩ unfit.1 unfit.2]

theorem handOver_fitting (free : h.borrowed = false) (fits : bytes.length < 2 ^ 31) (fitting : Fitting bytes) :
    handOver codec checks bytes h =
      match taken codec bytes with
      | none => (none, h)
      | some msg => act codec h msg := by
  rw [handOver_decoded free fits]
  by_cases long : 4 ≤ bytes.length
  · rw [decodeInbound_there codec checks ⟨bytes, fits⟩ long (fitting long), taken, if_pos long]
    cases codec.fromBytes ((bytes.take (4 + declared bytes)).drop 4) <;> rfl
  · rw [decodeInbound, if_pos (Nat.lt_of_not_le long), taken, if_neg long]

theorem declared_frame (small : payload.length < 2 ^ 32) : declared (frame payload) = payload.length := by
  rw [declared, frame, List.take_left' (toLittle_length ..), ofLittle_toLittle]
  exact Nat.mod_eq_of_lt small

theorem onMessage_frame (inverse : codec.Inverse) (free : h.borrowed = false) (encoded : codec.toAllocvec msg = .ok payload)
    (fits : (frame payload).length < 2 ^ 31) : onMessage codec checks (frame payload) h = act codec h msg := by
  have length := frame_length payload
  have small : payload.length < 2 ^ 32 := by omega
  have all : (frame payload).take (4 + payload.length) = frame payload := List.take_of_length_le (by omega)
  have decoded : taken codec (frame payload) = some msg := by
    rw [taken, if_pos (by omega), declared_frame small, all, frame, List.drop_left' (toLittle_length ..),
      inverse _ _ encoded]
    rfl
  have fitting : Fitting (frame payload) := by
    intro long
    rw [declared_frame small, length]
  rw [onMessage, handOver_fitting free fits fitting, decoded]

/-- The length and the payload come in chunks of their own and what follows the first
four bytes of the payload is as good as the message; or they do not come so, and the
message has no effect. -/
def Unharmed (codec : Codec Message) (core : ClientCore) (msg : Message) (payload : Bytes) (reader : Reads) : Prop :=
  (Apart [payload] reader → Fitting payload ∧ Replaces codec core msg (taken codec payload)) ∧
    (¬ Apart [payload] reader → Inert core msg)

theorem handleBi_apart (small : payload.length < 2 ^ 32) (delivered : contents reader = frame payload)
    (apart : Apart [payload] reader) : handleBi codec checks reader h = handOver codec checks payload h := by
  rw [handleBi, (readFrame_some_iff small delivered payload).2 ⟨apart, rfl⟩]

theorem handleBi_failed (small : payload.length < 2 ^ 32) (delivered : contents reader = frame payload)
    (together : ¬ Apart [payload] reader) : handleBi codec checks reader h = (none, h) := by
  rw [handleBi]
  split
  · rename_i part read
    exact absurd ((readFrame_some_iff small delivered part).1 read).1 together
  · rfl

/-- The frame of a message comes to the same over both transports. -/
theorem received_alike_iff (inverse : codec.Inverse) (refuses : Refuses codec) (encoded : codec.toAllocvec msg = .ok payload)
    (fits : (frame payload).length < 2 ^ 31) (delivered : contents reader = frame payload) :
    SameOutcome (handleBi codec checks reader h) (onMessage codec checks (frame payload) h) ↔
      h.borrowed = true ∨ Unharmed codec h.core msg payload reader := by
  have length := frame_length payload
  have small : payload.length < 2 ^ 32 := by omega
  have idle : SameOutcome (none, h) (act codec h msg) ↔ SameOutcome (act codec h msg) (none, h) := ⟨.symm, .symm⟩
  cases free : h.borrowed with
  | true =>
    have nothing : handleBi codec checks reader h = (none, h) := by
      rw [handleBi]
      split
      · exact handOver_inUse free
      · rfl
    rw [nothing, onMessage, handOver_inUse free]
    exact ⟨fun _ => .inl rfl, fun _ => .refl _⟩
  | false =>
    rw [onMessage_frame inverse free encoded fits, or_iff_right Bool.false_ne_true, Unharmed]
    by_cases apart : Apart [payload] reader
    · rw [handleBi_apart small delivered apart]
      by_cases fitting : Fitting payload
      · rw [handOver_fitting free (by omega) fitting]
        cases found : taken codec payload with
        | none =>
          simp only [apart, fitting, Replaces, idle, act_idle_iff refuses free, true_implies, true_and, not_true_eq_false,
            false_implies, and_true]
        | some other =>
          have sides : SameOutcome (act codec h other) (act codec h msg) ↔
              SameOutcome (act codec h msg) (act codec h other) :=
            ⟨.symm, .symm⟩
          simp only [apart, fitting, Replaces, sides, act_same_iff inverse refuses free, true_implies, true_and,
            not_true_eq_false, false_implies, and_true]
      · rw [handOver_missing free (by omega) fitting]
        exact ⟨fun same => absurd same.symm (act_not_stuck refuses free), fun unharmed => absurd (unharmed.1 apart).1 fitting⟩
    · rw [handleBi_failed small delivered apart, idle, act_idle_iff refuses free]
      exact ⟨fun inert => ⟨fun other => absurd other apart, fun _ => inert⟩, fun unharmed => unharmed.2 apart⟩

private def listening : ClientCoreHandle := ⟨(ClientCore.new.onEvent "a").2, [], false⟩

private def event : Bytes := [2, 1, 1, 97, 0]

theorem received_alike_iff_event :
    SameOutcome (handleBi wire false [some [5, 0, 0, 0], some event] listening)
        (onMessage wire false (frame event) listening) ↔
      listening.borrowed = true ∨
        Unharmed wire listening.core (.event ⟨1, "a", []⟩) event [some [5, 0, 0, 0], some event] :=
  received_alike_iff wire_inverse wire_refuses (by decide) (by decide) rfl

/-- An event with a listener traps the module where it comes over WebTransport. -/
theorem event_lost :
    wire.toAllocvec (.event ⟨1, "a", []⟩) = .ok event ∧ contents [some [5, 0, 0, 0], some event] = frame event ∧
      ¬ SameOutcome (handleBi wire false [some [5, 0, 0, 0], some event] listening)
        (onMessage wire false (frame event) listening) := by
  refine ⟨by decide, rfl, fun same => ?_⟩
  have trap : (handleBi wire false [some [5, 0, 0, 0], some event] listening).2.borrowed = true := rfl
  have heard : (onMessage wire false (frame event) listening).2.borrowed = false := rfl
  have left := same.borrowed
  rw [trap, heard] at left
  cases left

end Paths

end EchoStream.Web.Receive
