import EchoStream.Core.StreamTrip

/-! The middleware that transforms payloads. Requests and events go through the chain with
their payloads, so their handlers are run on transformed ones. A stream goes through it
with the message that opens it, which has no payload, and its frames do not go through it
at all: they are handed over with the receiver. Several transformations in a row are as good as one. -/

namespace EchoStream.Middlewares.Transform
open Foundation.Tasks
open Proto.Messages
open Core.Handler Core.Chain Core.Dispatch Core.Stream Core.StreamTrip

abbrev TransformFn := Bytes → Result Bytes

structure TransformMiddleware where
  name : String
  onRequest : Option TransformFn
  onResponse : Option TransformFn

namespace TransformMiddleware

def new : TransformMiddleware := ⟨"transform", none, none⟩

def mapRequest (f : TransformFn) (mw : TransformMiddleware) : TransformMiddleware := { mw with onRequest := some f }

def mapResponse (f : TransformFn) (mw : TransformMiddleware) : TransformMiddleware := { mw with onResponse := some f }

end TransformMiddleware

def mapPayload (f : TransformFn) : Message → Result Message
  | .request m => do
      let data ← f m.data
      return .request { m with data }
  | .event m => do
      let data ← f m.data
      return .event { m with data }
  | .stream m => do
      let data ← f m.data
      return .stream { m with data }
  | .response m => do
      let data ← f m.data
      return .response { m with data }
  | other => .ok other

variable {ω : Type}

def mapResult (onResponse : Option TransformFn) : Outcome → Outcome
  | .error e => .error e
  | .ok (some (.response r)) =>
      match onResponse with
      | some f => do
          let data ← f r.data
          return some (.response { r with data })
      | none => .ok (some (.response r))
  | .ok other => .ok other

def TransformMiddleware.middleware (mw : TransformMiddleware) : Middleware ω where
  name := mw.name
  handle _ msg :=
    match (match mw.onRequest with
      | some f => mapPayload f msg
      | none => .ok msg) with
    | .error e => .done (.error e)
    | .ok msg => .call msg (fun result => .done (mapResult mw.onResponse result))

def handed (recv : FrameIo) (opened : StreamOpenMsg) : Option StreamReceiver :=
  (firstData opened.id recv).map (fun found => ⟨found.2, found.1, opened.metadata, opened.name⟩)

section Frames

def dataFrames (id : UInt64) : FrameIo → List StreamMsg
  | [] => []
  | .error _ :: rest => dataFrames id rest
  | .ok none :: _ => []
  | .ok (some (.stream frame)) :: rest => if frame.id = id then frame :: dataFrames id rest else dataFrames id rest
  | .ok (some (.streamEnd e)) :: rest => if e.id = id then [] else dataFrames id rest
  | .ok (some _) :: rest => dataFrames id rest

def framesOf (given : StreamReceiver) : List StreamMsg := given.first :: dataFrames given.first.id given.recv

def received (count : Nat) (r : Receiver) : List StreamMsg :=
  (r.recvFrames count).1.filterMap (fun result =>
    match result with
    | .ok frame => frame
    | .error _ => none)

variable {r : Receiver}

def Reads (r : Receiver) (io : FrameIo) : Prop :=
  (∃ frame rest, r.recvLoop io = (.ok (some frame), { r with io := rest }) ∧
    dataFrames r.id io = frame :: dataFrames r.id rest ∧ rest.length < io.length) ∨
  (∃ e rest, r.recvLoop io = (.error e, { r with io := rest }) ∧ dataFrames r.id io = dataFrames r.id rest ∧
    rest.length < io.length) ∨
  ∃ ended, r.recvLoop io = (.ok none, ended) ∧ ended.ended = true ∧ dataFrames r.id io = []

theorem Reads.skip {result : Result (Option Message)} {rest : FrameIo} (reads : Reads r rest)
    (skips : r.recvLoop (result :: rest) = r.recvLoop rest)
    (same : dataFrames r.id (result :: rest) = dataFrames r.id rest) : Reads r (result :: rest) := by
  rw [Reads, skips, same]
  rcases reads with ⟨frame, later, got, frames, less⟩ | ⟨e, later, failed, frames, less⟩ | ended
  · exact Or.inl ⟨frame, later, got, frames, Nat.lt_succ_of_lt less⟩
  · exact Or.inr (Or.inl ⟨e, later, failed, frames, Nat.lt_succ_of_lt less⟩)
  · exact Or.inr (Or.inr ended)

theorem recvLoop_reads (r : Receiver) (io : FrameIo) : Reads r io := by
  induction io with
  | nil => exact Or.inr (Or.inr ⟨_, rfl, rfl, rfl⟩)
  | cons result rest ih =>
    rcases result with e | msg
    · exact Or.inr (Or.inl ⟨e, rest, rfl, rfl, Nat.lt_succ_self _⟩)
    · cases msg with
      | none => exact Or.inr (Or.inr ⟨_, rfl, rfl, rfl⟩)
      | some msg =>
        cases msg with
        | stream frame =>
          by_cases own : frame.id = r.id
          · refine Or.inl ⟨frame, rest, ?_, ?_, Nat.lt_succ_self _⟩
            · simp only [Receiver.recvLoop, Receiver.take, if_pos own]
            · simp only [dataFrames, if_pos own]
          · apply ih.skip
            · simp only [Receiver.recvLoop, Receiver.take, if_neg own]
            · simp only [dataFrames, if_neg own]
        | streamEnd e =>
          by_cases own : e.id = r.id
          · let past : Receiver := { r with endCode := e.code, endMessage := e.message, endMetadata := e.metadata, ended := true }
            refine Or.inr (Or.inr ⟨{ past with io := rest }, ?_, rfl, ?_⟩)
            · simp only [Receiver.recvLoop, Receiver.take, if_pos own]
              rfl
            · simp only [dataFrames, if_pos own]
          · apply ih.skip
            · simp only [Receiver.recvLoop, Receiver.take, if_neg own]
            · simp only [dataFrames, if_neg own]
        | _ => exact ih.skip rfl rfl

theorem received_succ (count : Nat) (r : Receiver) : received (count + 1) r =
    (match r.recvFrame.1 with
      | .ok (some frame) => [frame]
      | _ => []) ++ received count r.recvFrame.2 := by
  rw [received, Receiver.recvFrames]
  generalize r.recvFrame = came
  obtain ⟨result, next⟩ := came
  rcases result with e | frame
  · rfl
  · cases frame <;> rfl

theorem received_frames (live : r.ended = false) (taken : r.pending = none) (count : Nat) :
    received count r <+: dataFrames r.id r.io ∧ (r.io.length ≤ count → received count r = dataFrames r.id r.io) := by
  induction count generalizing r with
  | zero =>
    refine ⟨List.nil_prefix, fun none => ?_⟩
    rw [List.length_eq_zero_iff.1 (Nat.le_zero.1 none)]
    rfl
  | succ count ih =>
    have calls : r.recvFrame = r.recvLoop r.io := by
      rw [Receiver.recvFrame, live, taken]
      rfl
    rw [received_succ, calls]
    rcases recvLoop_reads r r.io with ⟨frame, rest, got, frames, less⟩ | ⟨e, rest, failed, frames, less⟩ | ⟨ended, past, gone, frames⟩
    · have later := ih (r := { r with io := rest }) live taken
      rw [got, frames]
      exact ⟨List.prefix_cons_inj frame |>.2 later.1, fun enough => congrArg _ (later.2 (by simp only; omega))⟩
    · have later := ih (r := { r with io := rest }) live taken
      rw [failed, frames]
      exact ⟨later.1, fun enough => later.2 (by simp only; omega)⟩
    · have nothing : received count ended = [] := by
        rw [received, recvFrames_ended gone]
        refine List.filterMap_eq_nil_iff.2 (fun result member => ?_)
        rw [List.eq_of_mem_replicate member]
      rw [past, frames, nothing]
      exact ⟨List.prefix_rfl, fun _ => rfl⟩

theorem received_new (given : StreamReceiver) (count : Nat) :
    received count (.new given) <+: framesOf given ∧ (given.recv.length < count → received count (.new given) = framesOf given) := by
  cases count with
  | zero => exact ⟨List.nil_prefix, fun none => absurd none (Nat.not_lt_zero _)⟩
  | succ count =>
    have later := received_frames (r := { Receiver.new given with pending := none }) rfl rfl count
    rw [received_succ]
    exact ⟨List.prefix_cons_inj _ |>.2 later.1, fun enough => congrArg _ (later.2 (Nat.le_of_lt_succ enough))⟩

end Frames

section Marks

variable {router : Router ω} {clock : Clock ω}

theorem rpcTerminal_trace (session : SessionId) (req : RequestMsg) (world : World ω) :
    ((rpcTerminal router session (.request req)).eval world).2.trace = world.trace ++ .reached session (.request req) ::
      match router.getRpc req.name with
      | some entry => [.ran .rpc session entry.1 req.name req.data]
      | none => [] := by
  rw [rpcTerminal, Task.eval_bind, eval_note]
  simp only [Task.eval_bind, callRpc]
  cases router.getRpc req.name with
  | none => rfl
  | some entry =>
    have ran : ((handleRpc session entry req).eval (world.note (.reached session (.request req)))).2.trace =
        world.trace ++ [.reached session (.request req), .ran .rpc session entry.1 req.name req.data] := by
      rw [handleRpc, Task.eval_bind, eval_note, onApp_trace, World.note_trace, World.note_trace, List.append_assoc]
      rfl
    rw [← ran]
    simp only
    cases ((handleRpc session entry req).eval (world.note (.reached session (.request req)))).1 <;> rfl

theorem eventTerminal_trace (session : SessionId) (event : EventMsg) (world : World ω) :
    ((eventTerminal router session (.event event)).eval world).2.trace = world.trace ++ .reached session (.event event) ::
      (router.listeners event.name).map (fun entry => .ran .event session entry.1 event.name event.data) := by
  rw [eventTerminal, Task.eval_bind, eval_note]
  simp only [Task.eval_bind, Task.eval_pure]
  rw [handleEvent_trace, World.note_trace, List.append_assoc]
  rfl

theorem streamTerminal_trace (session : SessionId) (opened : StreamOpenMsg) (first : StreamMsg)
    (before : List (Option FrameIo)) (recv : FrameIo) (world : World ω) (kept : world.receivers = before ++ [some recv]) :
    ((streamTerminal router session before.length first (.streamOpen opened)).eval world).2.trace =
      world.trace ++ .reached session (.streamOpen opened) ::
        match router.stream.lookup opened.name with
        | some entry => [.ran .stream session entry.1 opened.name first.data]
        | none => [] := by
  cases found : router.stream.lookup opened.name with
  | some entry => rw [streamTerminal_eval session opened found first before recv world kept]
  | none =>
    have took := takeReceiver_eval before recv (world.note (.reached session (.streamOpen opened))) kept
    rw [streamTerminal, Task.eval_bind, eval_note]
    simp only [Task.eval_bind, took, found]
    rfl

/-- The transformation is on the router, and the other middlewares pass messages on as they are. -/
structure Installed (mw : TransformMiddleware) (router : Router ω) (before after : List (Middleware ω)) : Prop where
  middlewares : router.middlewares.map Prod.snd = before ++ mw.middleware :: after
  before_forwards : ∀ other ∈ before, other.Forwards
  after_forwards : ∀ other ∈ after, other.Forwards

variable {mw : TransformMiddleware} {f : TransformFn} {before after : List (Middleware ω)}

/-- What ends the chain is run on the transformed message, if there is one. -/
theorem chain_trace (clock : Clock ω) (installed : Installed (mw.mapRequest f) router before after) (session : SessionId)
    (msg : Message) (terminal : Callee ω) (world : World ω) :
    ∃ app, ((runChain clock router session msg terminal).eval world).2.trace =
      match mapPayload f msg with
      | .ok msg => ((terminal msg).eval (world.setApp app)).2.trace
      | .error _ => world.trace := by
  rw [runChain_eq_onion, installed.middlewares, onion_append]
  obtain ⟨app, last, outer⟩ : ∃ app last, ((onion clock session before _ msg).eval world).2 = _ :=
    onion_forwards (onion clock session ((mw.mapRequest f).middleware :: after) terminal) installed.before_forwards msg world
  rw [outer, World.setApp_trace, onion_cons, Middleware.around, TransformMiddleware.middleware]
  simp only [TransformMiddleware.mapRequest]
  cases mapPayload f msg with
  | error e => exact ⟨app, rfl⟩
  | ok msg =>
    obtain ⟨part, later, inner⟩ : ∃ part later, ((onion clock session after terminal msg).eval (world.setApp app)).2 = _ :=
      onion_forwards terminal installed.after_forwards msg (world.setApp app)
    refine ⟨part, ?_⟩
    simp only [Script.link, Task.eval_bind, Task.eval_done]
    rw [inner, World.setApp_trace, World.setApp_setApp]

/-- What the handler that was run has seen are transformed payloads. -/
def SeesTransformed (f : TransformFn) (arrival : Arrival) : Mark → Prop
  | .reached _ _ => True
  | .ran .rpc _ _ _ payload => ∃ session stream msg, arrival = .rpc session stream msg ∧ f msg.data = .ok payload
  | .ran .event _ _ _ payload => ∃ session msg,
      (arrival = .event session msg ∨ arrival = .datagram session (.event msg)) ∧ f msg.data = .ok payload
  | .ran .stream _ _ name payload => ∃ session recv opened given, arrival = .stream session recv opened ∧
      handed recv opened = some given ∧ given.name = name ∧ given.first.data = payload ∧
      ∀ (count i : Nat) (frame : StreamMsg), (received count (.new given))[i]? = some frame →
        ∃ sent, (framesOf given)[i]? = some sent ∧ f sent.data = .ok frame.data

theorem rpc_sees (clock : Clock ω) (installed : Installed (mw.mapRequest f) router before after) (session : SessionId)
    (stream : Nat) (msg : RequestMsg) (world : World ω) :
    ∃ marks, ((dispatchRpc clock router session stream msg).eval world).2.trace = world.trace ++ marks ∧
      ∀ mark ∈ marks, SeesTransformed f (.rpc session stream msg) mark := by
  obtain ⟨app, trace⟩ := chain_trace clock installed session (.request msg) (rpcTerminal router session) world
  rw [dispatchRpc, Task.eval_bind, Task.eval_act, World.write_trace, trace, mapPayload]
  cases same : f msg.data with
  | error e => exact ⟨[], (List.append_nil _).symm, List.forall_mem_nil _⟩
  | ok data =>
    refine ⟨_, rpcTerminal_trace session { msg with data } (world.setApp app), ?_⟩
    intro mark member
    rcases List.mem_cons.1 member with rfl | ran
    · trivial
    · cases found : router.getRpc msg.name with
      | none =>
        simp only [found] at ran
        cases ran
      | some entry =>
        simp only [found] at ran
        cases List.mem_singleton.1 ran
        exact ⟨session, stream, msg, rfl, same⟩

theorem event_sees (clock : Clock ω) (installed : Installed (mw.mapRequest f) router before after) (session : SessionId)
    (msg : EventMsg) {arrival : Arrival} (comes : arrival = .event session msg ∨ arrival = .datagram session (.event msg))
    (world : World ω) :
    ∃ marks, ((dispatchEvent clock router session msg).eval world).2.trace = world.trace ++ marks ∧
      ∀ mark ∈ marks, SeesTransformed f arrival mark := by
  obtain ⟨app, trace⟩ := chain_trace clock installed session (.event msg) (eventTerminal router session) world
  rw [dispatchEvent, Task.eval_bind, Task.eval_pure, trace, mapPayload]
  cases same : f msg.data with
  | error e => exact ⟨[], (List.append_nil _).symm, List.forall_mem_nil _⟩
  | ok data =>
    refine ⟨_, eventTerminal_trace session { msg with data } (world.setApp app), ?_⟩
    intro mark member
    rcases List.mem_cons.1 member with rfl | ran
    · trivial
    · obtain ⟨entry, -, rfl⟩ := List.mem_map.1 ran
      exact ⟨session, msg, comes, same⟩

/-- The message that opens a stream is not transformed, and the handler is run on what is handed over. -/
theorem stream_trace (clock : Clock ω) (installed : Installed (mw.mapRequest f) router before after) (session : SessionId)
    (recv : FrameIo) (opened : StreamOpenMsg) {given : StreamReceiver} (hands : handed recv opened = some given)
    (world : World ω) :
    ((dispatchStream clock router session recv opened).eval world).2.trace =
      world.trace ++ .reached session (.streamOpen opened) ::
        match router.stream.lookup opened.name with
        | some entry => [.ran .stream session entry.1 opened.name given.first.data]
        | none => [] := by
  rw [handed] at hands
  rw [dispatchStream, Task.eval_bind, firstFrame_eval]
  cases found : firstData opened.id recv with
  | none =>
    rw [found] at hands
    cases hands
  | some pair =>
    obtain ⟨first, rest⟩ := pair
    rw [found] at hands
    cases hands
    obtain ⟨app, trace⟩ := chain_trace clock installed session (.streamOpen opened)
      (streamTerminal router session world.receivers.length first) { world with receivers := world.receivers ++ [some rest] }
    simp only [Task.eval_bind, Task.eval_pure]
    refine trace.trans ?_
    exact streamTerminal_trace session opened first world.receivers rest _ rfl

theorem handed_name {recv : FrameIo} {opened : StreamOpenMsg} {given : StreamReceiver} (hands : handed recv opened = some given) :
    given.name = opened.name := by
  rw [handed] at hands
  obtain ⟨found, -, rfl⟩ := Option.map_eq_some_iff.1 hands
  rfl

/-- Where the handler of a stream sees transformed payloads only, these are the payloads
of its frames as they came. -/
theorem stream_fixed (clock : Clock ω) (installed : Installed (mw.mapRequest f) router before after) {session : SessionId}
    {recv : FrameIo} {opened : StreamOpenMsg} {world : World ω} {marks : List Mark}
    (trace : ((dispatchStream clock router session recv opened).eval world).2.trace = world.trace ++ marks)
    (sees : ∀ mark ∈ marks, SeesTransformed f (.stream session recv opened) mark)
    (registered : (router.stream.lookup opened.name).isSome) {given : StreamReceiver} (hands : handed recv opened = some given)
    {frame : StreamMsg} (member : frame ∈ framesOf given) : f frame.data = .ok frame.data := by
  obtain ⟨entry, there⟩ := Option.isSome_iff_exists.1 registered
  rw [stream_trace clock installed session recv opened hands world, there] at trace
  have ran := sees (.ran .stream session entry.1 opened.name given.first.data)
    (by rw [← List.append_cancel_left trace]; simp)
  obtain ⟨_, _, _, other, same, hands', -, -, transforms⟩ := ran
  cases same
  cases hands.symm.trans hands'
  obtain ⟨i, bound, at_i⟩ := List.getElem_of_mem member
  have whole := (received_new given (given.recv.length + 1)).2 (Nat.lt_succ_self _)
  have at_i : (framesOf given)[i]? = some frame := by rw [List.getElem?_eq_getElem bound, at_i]
  obtain ⟨sent, there, transforms⟩ := transforms (given.recv.length + 1) i frame (whole ▸ at_i)
  cases at_i.symm.trans there
  exact transforms

theorem stream_sees (clock : Clock ω) (installed : Installed (mw.mapRequest f) router before after) (session : SessionId)
    (recv : FrameIo) (opened : StreamOpenMsg) (world : World ω)
    (fixed : ∀ given, (router.stream.lookup opened.name).isSome → handed recv opened = some given →
      ∀ frame ∈ framesOf given, f frame.data = .ok frame.data) :
    ∃ marks, ((dispatchStream clock router session recv opened).eval world).2.trace = world.trace ++ marks ∧
      ∀ mark ∈ marks, SeesTransformed f (.stream session recv opened) mark := by
  cases hands : handed recv opened with
  | none =>
    rw [handed, Option.map_eq_none_iff] at hands
    refine ⟨[], ?_, List.forall_mem_nil _⟩
    rw [dispatchStream, Task.eval_bind, firstFrame_eval, hands]
    exact (List.append_nil _).symm
  | some given =>
    refine ⟨_, stream_trace clock installed session recv opened hands world, ?_⟩
    intro mark member
    rcases List.mem_cons.1 member with rfl | ran
    · trivial
    · split at ran
      · rename_i entry there
        cases List.mem_singleton.1 ran
        refine ⟨session, recv, opened, given, rfl, hands, handed_name hands, rfl, ?_⟩
        intro count i frame got
        obtain ⟨more, same⟩ := (received_new given count).1
        have at_i : (framesOf given)[i]? = some frame := by
          rw [← same, List.getElem?_append_left (List.getElem?_eq_some_iff.1 got).1]
          exact got
        have registered : (router.stream.lookup opened.name).isSome := Option.isSome_of_eq_some there
        exact ⟨frame, at_i, fixed given registered hands frame (List.mem_of_getElem? at_i)⟩
      · cases ran

/-- Handlers see transformed payloads only, but for streams, where they do just when the
transformation leaves the payloads of their frames as they are. -/
theorem transformed_iff (clock : Clock ω) (installed : Installed (mw.mapRequest f) router before after) (arrival : Arrival)
    (world : World ω) :
    (∃ marks, ((dispatch clock router arrival).eval world).2.trace = world.trace ++ marks ∧
      ∀ mark ∈ marks, SeesTransformed f arrival mark) ↔
    ∀ session recv opened given, arrival = .stream session recv opened → (router.stream.lookup opened.name).isSome →
      handed recv opened = some given → ∀ frame ∈ framesOf given, f frame.data = .ok frame.data := by
  cases arrival with
  | rpc session stream msg => exact ⟨fun _ _ _ _ _ same => (nomatch same), fun _ => rpc_sees clock installed session stream msg world⟩
  | event session msg =>
    exact ⟨fun _ _ _ _ _ same => (nomatch same), fun _ => event_sees clock installed session msg (Or.inl rfl) world⟩
  | datagram session msg =>
    refine ⟨fun _ _ _ _ _ same => (nomatch same), fun _ => ?_⟩
    cases msg with
    | event e => exact event_sees clock installed session e (Or.inr rfl) world
    | _ => exact ⟨[], (List.append_nil _).symm, List.forall_mem_nil _⟩
  | stream session recv opened =>
    constructor
    · rintro ⟨marks, trace, sees⟩ _ _ _ given same registered hands frame member
      cases same
      exact stream_fixed clock installed trace sees registered hands member
    · intro fixed
      exact stream_sees clock installed session recv opened world
        (fun given => fixed session recv opened given rfl)

end Marks

private def marked : TransformFn := fun data => .ok (0 :: data)

/-- A transformation that puts a byte in front, and handlers that leave things alone. -/
private def transforming : Router Unit :=
  (((Router.new.addRpc ⟨"echo", fun _ payload => pure (.ok payload)⟩).1.addStream ⟨"a", fun _ _ => pure (.ok ())⟩).1.addMiddleware
    (TransformMiddleware.new.mapRequest marked).middleware).1

private theorem transforming_installed : Installed (TransformMiddleware.new.mapRequest marked) transforming [] [] :=
  ⟨rfl, nofun, nofun⟩

private def idle : World Unit := ⟨⟨fun _ _ => none, ()⟩, [], [], []⟩

theorem transformed_iff_echo :
    ∃ marks, ((dispatch (fun _ _ => false) transforming (.rpc 0 0 ⟨1, "echo", [5]⟩)).eval idle).2.trace = marks ∧
      ∀ mark ∈ marks, SeesTransformed marked (.rpc 0 0 ⟨1, "echo", [5]⟩) mark :=
  (transformed_iff (fun _ _ => false) transforming_installed (.rpc 0 0 ⟨1, "echo", [5]⟩) idle).2 (fun _ _ _ _ same => nomatch same)

/-- The handler of a stream is run on the payload as it came. -/
theorem stream_not_transformed :
    ((dispatch (fun _ _ => false) transforming (.stream 0 [.ok (some (.stream ⟨7, 0, ⟨0⟩, [5]⟩))] ⟨7, "a", []⟩)).eval idle).2.trace =
      [.reached 0 (.streamOpen ⟨7, "a", []⟩), .ran .stream 0 1 "a" [5]] ∧ marked [5] ≠ .ok [5] :=
  ⟨stream_trace (fun _ _ => false) transforming_installed 0 [.ok (some (.stream ⟨7, 0, ⟨0⟩, [5]⟩))] ⟨7, "a", []⟩ rfl idle, by decide⟩

section Stacks

def mapMessage (onRequest : Option TransformFn) (msg : Message) : Result Message :=
  match onRequest with
  | some f => mapPayload f msg
  | none => .ok msg

/-- One transformation after the other. -/
def andThen : Option TransformFn → Option TransformFn → Option TransformFn
  | some f, some g => some (fun data => f data >>= g)
  | some f, none => some f
  | none, g => g

/-- Requests pass the outer one first, responses the inner one. -/
def TransformMiddleware.stack (outer inner : TransformMiddleware) : TransformMiddleware :=
  ⟨outer.name, andThen outer.onRequest inner.onRequest, andThen inner.onResponse outer.onResponse⟩

def TransformMiddleware.stacked (mws : List TransformMiddleware) : TransformMiddleware := mws.foldr stack .new

theorem mapPayload_bind (f g : TransformFn) (msg : Message) :
    mapPayload (fun data => f data >>= g) msg = mapPayload f msg >>= mapPayload g := by
  cases msg with
  | streamOpen opened => rfl
  | streamEnd e => rfl
  | request m => cases made : f m.data <;> simp only [mapPayload, made] <;> rfl
  | event m => cases made : f m.data <;> simp only [mapPayload, made] <;> rfl
  | stream m => cases made : f m.data <;> simp only [mapPayload, made] <;> rfl
  | response m => cases made : f m.data <;> simp only [mapPayload, made] <;> rfl

theorem mapMessage_andThen (first second : Option TransformFn) (msg : Message) :
    mapMessage (andThen first second) msg = mapMessage first msg >>= mapMessage second := by
  cases first with
  | none => rfl
  | some f =>
    cases second with
    | none =>
      show mapPayload f msg = mapPayload f msg >>= Except.ok
      cases mapPayload f msg <;> rfl
    | some g => exact mapPayload_bind f g msg

theorem mapResult_andThen (first second : Option TransformFn) (outcome : Outcome) :
    mapResult (andThen first second) outcome = mapResult second (mapResult first outcome) := by
  cases outcome with
  | error e => rfl
  | ok result =>
    cases result with
    | none => rfl
    | some msg =>
      cases msg with
      | response r =>
        cases first with
        | none => rfl
        | some f =>
          cases second with
          | none =>
            simp only [mapResult, andThen]
            cases f r.data <;> rfl
          | some g => cases made : f r.data <;> simp only [mapResult, andThen, made] <;> rfl
      | _ => rfl

variable {clock : Clock ω} {session : SessionId}

/-- What is called on the message as it was mapped, and what comes back, mapped. -/
def TransformMiddleware.passOn (mw : TransformMiddleware) (callee : Callee ω) : Result Message → Task (World ω) Outcome
  | .error e => pure (.error e)
  | .ok msg => callee msg >>= fun result => pure (mapResult mw.onResponse result)

theorem around_mapped (mw : TransformMiddleware) (callee : Callee ω) :
    mw.middleware.around clock session callee = fun msg => mw.passOn callee (mapMessage mw.onRequest msg) := by
  funext msg
  obtain ⟨name, onRequest, onResponse⟩ := mw
  cases onRequest with
  | none => rfl
  | some f =>
    unfold Middleware.around TransformMiddleware.middleware mapMessage
    dsimp only
    cases mapPayload f msg <;> rfl

theorem around_new (callee : Callee ω) : TransformMiddleware.new.middleware.around clock session callee = callee := by
  have same : mapResult none = id := by
    funext outcome
    rcases outcome with e | result
    · rfl
    · cases result with
      | none => rfl
      | some msg => cases msg <;> rfl
  rw [around_mapped]
  funext msg
  show callee msg >>= (fun result => pure (mapResult none result)) = callee msg
  rw [same]
  exact bind_pure (callee msg)

theorem around_stack (outer inner : TransformMiddleware) (callee : Callee ω) :
    outer.middleware.around clock session (inner.middleware.around clock session callee) =
      (outer.stack inner).middleware.around clock session callee := by
  rw [around_mapped, around_mapped, around_mapped]
  funext msg
  show outer.passOn _ (mapMessage outer.onRequest msg) =
    (outer.stack inner).passOn callee (mapMessage (andThen outer.onRequest inner.onRequest) msg)
  rw [mapMessage_andThen]
  cases mapMessage outer.onRequest msg with
  | error e => rfl
  | ok passed =>
    show inner.passOn callee (mapMessage inner.onRequest passed) >>= _ =
      (outer.stack inner).passOn callee (mapMessage inner.onRequest passed)
    cases mapMessage inner.onRequest passed with
    | error e => rfl
    | ok passed =>
      simp only [TransformMiddleware.passOn, TransformMiddleware.stack, bind_assoc, pure_bind, mapResult_andThen]

theorem onion_stacked (mws : List TransformMiddleware) (terminal : Callee ω) :
    onion clock session (mws.map TransformMiddleware.middleware) terminal =
      (TransformMiddleware.stacked mws).middleware.around clock session terminal := by
  induction mws with
  | nil => exact (around_new terminal).symm
  | cons mw rest ih =>
    rw [List.map_cons, onion_cons, ih, around_stack]
    rfl

def withMiddlewares (router : Router ω) (middlewares : List (Token × Middleware ω)) : Router ω := { router with middlewares }

theorem runChain_stacked (router : Router ω) (before after : List (Token × Middleware ω)) (stack : List (Token × TransformMiddleware))
    (token : Token) (msg : Message) (terminal : Callee ω) :
    runChain clock (withMiddlewares router (before ++ stack.map (fun entry => (entry.1, entry.2.middleware)) ++ after)) session
        msg terminal =
      runChain clock (withMiddlewares router
        (before ++ (token, (TransformMiddleware.stacked (stack.map Prod.snd)).middleware) :: after)) session msg terminal := by
  have middles : (stack.map (fun entry => (entry.1, entry.2.middleware (ω := ω)))).map Prod.snd =
      (stack.map Prod.snd).map TransformMiddleware.middleware := by
    rw [List.map_map, List.map_map]
    rfl
  rw [runChain_eq_onion, runChain_eq_onion]
  simp only [withMiddlewares, List.map_append, List.map_cons, middles, onion_append, onion_cons]
  rw [onion_stacked]

/-- Wherever they stand among the other middlewares, transformations one after the other
are as good as a single one: whatever arrives, dispatching it is the same task. -/
theorem dispatch_stacked (clock : Clock ω) (router : Router ω) (before after : List (Token × Middleware ω))
    (stack : List (Token × TransformMiddleware)) (token : Token) (arrival : Arrival) :
    dispatch clock (withMiddlewares router (before ++ stack.map (fun entry => (entry.1, entry.2.middleware)) ++ after)) arrival =
      dispatch clock (withMiddlewares router
        (before ++ (token, (TransformMiddleware.stacked (stack.map Prod.snd)).middleware) :: after)) arrival := by
  have event : ∀ session msg,
      dispatchEvent clock (withMiddlewares router (before ++ stack.map (fun entry => (entry.1, entry.2.middleware)) ++ after))
          session msg =
        dispatchEvent clock (withMiddlewares router
          (before ++ (token, (TransformMiddleware.stacked (stack.map Prod.snd)).middleware) :: after)) session msg := by
    intro session msg
    rw [dispatchEvent, runChain_stacked router before after stack token]
    rfl
  cases arrival with
  | rpc session stream msg =>
    simp only [dispatch, dispatchRpc]
    rw [runChain_stacked router before after stack token]
    rfl
  | event session msg => exact event session msg
  | datagram session msg =>
    cases msg with
    | event e => exact event session e
    | _ => rfl
  | stream session recv opened =>
    simp only [dispatch, dispatchStream]
    congr
    funext found
    cases found with
    | none => rfl
    | some found =>
      simp only [runChain_stacked router before after stack token]
      rfl

end Stacks

end EchoStream.Middlewares.Transform
