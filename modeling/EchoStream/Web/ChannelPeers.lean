import EchoStream.Foundation.Trace
import EchoStream.Core.ChannelSwitch
import EchoStream.Web.Receive

/-! The channel for requests at the peers that accept bidirectional streams. The servers
and the native client answer the requests that come after the mark one by one. The browser
takes one frame, which is the mark, off the stream, and its state machine traps on it. -/

namespace EchoStream.Web.ChannelPeers
open Foundation.Tasks Foundation.Formats Foundation.Trace
open Proto.Messages Proto.Postcard Proto.Endpoint
open Core.Handler Core.Chain Core.Dispatch Core.Connection Core.ChannelSwitch Core.StateMachine
open FrameReader Handle Receive

variable {ω : Type}

/-- A peer in the state in which the stream is opened to it. -/
inductive Peer (ω : Type) where
  | native (front : Front) (clock : Clock ω) (router : Router ω) (session : SessionId) (world : World ω)
  | browser (checks : Bool) (h : ClientCoreHandle)

def serving (front : Front) (clock : Clock ω) (router : Router ω) (session : SessionId) (stream : Nat) (world : World ω)
    (reqs : List RequestMsg) : World ω :=
  ((serve front .bi clock router session stream (received wire (onChannel reqs))).eval world).2

def chunks (msgs : List Message) : Reads :=
  msgs.flatMap (fun msg =>
    match wire.toAllocvec msg with
    | .ok payload => [some (toLittle 4 payload.length), some payload]
    | .error _ => [])

def browsing (checks : Bool) (h : ClientCoreHandle) (reqs : List RequestMsg) : Option Bytes × ClientCoreHandle :=
  handleBi wire checks (chunks (onChannel reqs)) h

/-- The handler of the request's name is run, -/
def HandedOver (router : Router ω) (session : SessionId) (req : RequestMsg) (world later : World ω) : Prop :=
  ∃ token handler, router.getRpc req.name = some (token, handler) ∧
    .ran .rpc session token req.name req.data ∈ later.trace.drop world.trace.length

/-- and a response with the request's id is written to the stream. -/
structure Exchanged (router : Router ω) (session : SessionId) (stream : Nat) (req : RequestMsg) (world later : World ω) :
    Prop where
  handed : HandedOver router session req world later
  answered : ∃ resp, resp.id = req.id ∧ later.written = world.written ++ [(stream, .response resp)]

structure Browsed (req : RequestMsg) (earlier later : Option Bytes × ClientCoreHandle) : Prop where
  handed : ∃ listener handler, earlier.2.core.rpcs.lookup req.name = some (listener, handler) ∧
    later.2.calls = earlier.2.calls ++ [.rpc listener req.id req.data]
  answered : ∃ resp bytes, resp.id = req.id ∧ encodeFrameBytes wire (.response resp) = .ok bytes ∧
    later.1.toList = earlier.1.toList ++ [bytes]

def Serves (stream : Nat) : Peer ω → List RequestMsg → Prop
  | .native front clock router session world =>
      Ordered (fun before req =>
        Exchanged router session stream req (serving front clock router session stream world before)
          (serving front clock router session stream world (before ++ [req])))
  | .browser checks h => Ordered (fun before req => Browsed req (browsing checks h before) (browsing checks h (before ++ [req])))

/-- The middlewares let the request through to the handler of its name, and what they make
of its result is an answer with the request's id. -/
def LetThrough (clock : Clock ω) (router : Router ω) (session : SessionId) (world : World ω) (req : RequestMsg) : Prop :=
  let (outcome, later) := (runChain clock router session (.request req) (rpcTerminal router session)).eval world
  HandedOver router session req world later ∧ (responseOf req.id outcome).id = req.id

/-- Requests that fit into a frame and have a handler, at a native peer. -/
def Fine : Peer ω → List RequestMsg → Prop
  | .native _ _ router _ _ => fun reqs => ∀ req ∈ reqs, Fits wire (.request req) ∧ (router.getRpc req.name).isSome
  | .browser _ _ => fun reqs => reqs = []

/-- At a native peer the first middlewares are transparent on the requests, and these are
all the others. -/
def Begins {γ : Type} (look : App ω → γ) (before rest : List (Token × Middleware ω)) : Peer ω → List RequestMsg → Prop
  | .native _ _ router session _ => fun reqs =>
      router.middlewares = before ++ rest ∧ ∀ entry ∈ before, ∀ req ∈ reqs, entry.2.Transparent look session (.request req)
  | .browser _ _ => fun _ => True

variable {front : Front} {clock : Clock ω} {router : Router ω} {session : SessionId} {stream : Nat} {world : World ω}
  {reqs : List RequestMsg} {req : RequestMsg}

theorem rpcTerminal_trace {token : Token} {handler : RpcHandler ω} (registered : router.getRpc req.name = some (token, handler)) :
    ((rpcTerminal router session (.request req)).eval world).2.trace =
      world.trace ++ [.reached session (.request req), .ran .rpc session token req.name req.data] := by
  simp only [rpcTerminal, Task.eval_bind, eval_note, callRpc, registered, handleRpc, eval_onApp]
  cases ((handler.handleEncoded session req.data).eval
    ((world.note (.reached session (.request req))).note (.ran .rpc session token req.name req.data)).app).1 <;>
    exact List.append_assoc ..

/-- Behind transparent middlewares a request is let through just when it has a handler,
whatever the handler does. -/
theorem letThrough_transparent {γ : Type} {look : App ω → γ}
    (transparent : ∀ entry ∈ router.middlewares, entry.2.Transparent look session (.request req)) :
    LetThrough clock router session world req ↔ (router.getRpc req.name).isSome := by
  obtain ⟨app, last, -, same⟩ := runChain_transparent clock (rpcTerminal router session) transparent world
  rw [LetThrough, same]
  constructor
  · rintro ⟨⟨token, handler, registered, -⟩, -⟩
    rw [registered]
    rfl
  · intro registered
    obtain ⟨⟨token, handler⟩, registered⟩ := Option.isSome_iff_exists.1 registered
    refine ⟨⟨token, handler, registered, ?_⟩, ?_⟩
    · rw [World.setApp_trace, rpcTerminal_trace registered, World.setApp_trace, List.drop_left]
      exact List.mem_cons_of_mem _ (List.mem_singleton_self _)
    · rw [rpcTerminal_eval]
      cases direct router session req (world.setApp app).app <;> rfl

theorem letThrough_stopped {γ : Type} {look : App ω → γ} {before after : List (Token × Middleware ω)} {entry : Token × Middleware ω}
    (split : router.middlewares = before ++ entry :: after)
    (transparent : ∀ other ∈ before, other.2.Transparent look session (.request req))
    (quiet : (entry.2.handle session (.request req)).Quiet) : ¬ LetThrough clock router session world req := by
  obtain ⟨last, stopped⟩ := runChain_stopped clock (rpcTerminal router session) split transparent quiet world
  rintro ⟨⟨token, handler, -, ran⟩, -⟩
  rw [stopped, World.setApp_trace, List.drop_length] at ran
  exact List.not_mem_nil ran

def mark : Bytes := [0, 0, 8, 36, 99, 104, 97, 110, 110, 101, 108, 0]

theorem mark_encoded : wire.toAllocvec (.request ⟨0, rpcChannelName, []⟩) = .ok mark := by decide

theorem mark_fits : Fits wire (.request ⟨0, rpcChannelName, []⟩) := ⟨mark, mark_encoded, by decide⟩

theorem onChannel_fits (fits : ∀ req ∈ reqs, Fits wire (.request req)) : AllFit wire (onChannel reqs) := by
  intro msg member
  rw [onChannel, List.mem_cons, List.mem_map] at member
  rcases member with rfl | ⟨req, member, rfl⟩
  · exact mark_fits
  · exact fits req member

/-- A frame above the limit is an error of the reader. -/
theorem received_large {msgs : List Message} (fits : AllFit wire msgs) {msg : Message} {payload : Bytes}
    (encoded : wire.toAllocvec msg = .ok payload) (bound : payload.length < 2 ^ 32) (large : maxFrameSize < payload.length) :
    ∃ e, received wire (msgs ++ [msg]) = plainly msgs ++ [.error e] := by
  have reads : ∀ count, ∃ e, Proto.Endpoint.readFrames wire (frames wire (msgs ++ [msg])).length
      ⟨(frames wire (msgs ++ [msg])).flatten, count, fun _ => 4⟩ = plainly msgs ++ [.error e] := by
    induction msgs with
    | nil =>
      intro count
      obtain ⟨whole, framed, failed⟩ := readMessageFrame_large encoded large bound (fun _ => 4) count (Nat.le_refl 4) []
      have single : frames wire [msg] = [whole] := by
        simp only [frames, List.filterMap_cons, framed, Except.toOption, List.filterMap_nil]
      rw [List.nil_append, single, List.length_singleton, List.flatten_cons, List.flatten_nil]
      exact ⟨_, congrArg ([·]) failed⟩
    | cons first rest ih =>
      intro count
      obtain ⟨payload, encoded, small⟩ := fits first (List.mem_cons_self ..)
      have framed : frames wire (first :: rest ++ [msg]) =
          (toLittle 4 payload.length ++ payload) :: frames wire (rest ++ [msg]) := by
        simp only [frames, List.cons_append, List.filterMap_cons, encodeMessage_fits encoded small, Except.toOption]
      have whole : 4 ≤ (fun _ : Nat => 4) count := Nat.le_refl 4
      obtain ⟨e, later⟩ := ih (fun msg member => fits msg (List.mem_cons_of_mem _ member)) (count + 1)
      rw [framed, List.length_cons, List.flatten_cons, Proto.Endpoint.readFrames,
        readMessageFrame_whole wire_inverse encoded small whole]
      exact ⟨e, congrArg _ later⟩
  exact reads 0

theorem requests_append (reqs : List RequestMsg) (tail : FrameIo) :
    requests (plainly (reqs.map .request) ++ tail) = reqs ++ requests tail := by
  induction reqs with
  | nil => rfl
  | cons req rest ih => exact congrArg (req :: ·) ih

theorem serving_reads (tail : FrameIo) (none_left : requests tail = []) {contents : List Message}
    (reads : received wire contents = plainly (onChannel reqs) ++ tail) :
    ((serve front .bi clock router session stream (received wire contents)).eval world).2 =
      ((dispatchAll clock router (reqs.map (.rpc session stream))).eval world).2 := by
  have arrive : arrivals front .bi session stream (plainly (onChannel reqs) ++ tail) = reqs.map (.rpc session stream) := by
    rw [onChannel, plainly, List.map_cons, List.cons_append, arrivals, if_pos rfl]
    exact congrArg (List.map _) ((requests_append reqs tail).trans (by rw [none_left, List.append_nil]))
  rw [reads, serve_eq, arrive]

theorem serving_fits (fits : ∀ req ∈ reqs, Fits wire (.request req)) :
    serving front clock router session stream world reqs =
      ((dispatchAll clock router (reqs.map (.rpc session stream))).eval world).2 := by
  refine serving_reads [] rfl ?_
  rw [received_fits wire_inverse (onChannel_fits fits), List.append_nil]

theorem serving_large (fits : ∀ req ∈ reqs, Fits wire (.request req)) {payload : Bytes}
    (encoded : wire.toAllocvec (.request req) = .ok payload) (bound : payload.length < 2 ^ 32)
    (large : maxFrameSize < payload.length) :
    serving front clock router session stream world (reqs ++ [req]) = serving front clock router session stream world reqs := by
  obtain ⟨e, reads⟩ := received_large (onChannel_fits fits) encoded bound large
  have joined : onChannel (reqs ++ [req]) = onChannel reqs ++ [.request req] := by
    rw [onChannel, List.map_append]
    rfl
  rw [serving_fits fits, serving, joined]
  exact serving_reads _ rfl reads

/-- Dispatching a request exchanges it just when the middlewares let it through. -/
theorem exchanged_iff (stream : Nat) :
    Exchanged router session stream req world ((dispatchAll clock router [.rpc session stream req]).eval world).2 ↔
      LetThrough clock router session world req := by
  have alone : ((dispatchAll clock router [.rpc session stream req]).eval world).2 =
      ((dispatchRpc clock router session stream req).eval world).2 := by
    rw [dispatchAll, Task.eval_bind]
    rfl
  have written := dispatchRpc_written clock router session stream req world
  have trace : ((dispatchRpc clock router session stream req).eval world).2.trace =
      ((runChain clock router session (.request req) (rpcTerminal router session)).eval world).2.trace := by
    rw [dispatchRpc, Task.eval_bind, Task.eval_act, World.write_trace]
  have handed : HandedOver router session req world ((dispatchRpc clock router session stream req).eval world).2 ↔
      HandedOver router session req world
        ((runChain clock router session (.request req) (rpcTerminal router session)).eval world).2 := by
    rw [HandedOver, trace]
    rfl
  rw [alone]
  constructor
  · rintro ⟨ran, resp, own, same⟩
    rw [written, List.append_cancel_left_eq, List.cons.injEq, Prod.mk.injEq, Message.response.injEq] at same
    rw [← same.1.2] at own
    exact ⟨handed.1 ran, own⟩
  · rintro ⟨ran, own⟩
    exact ⟨handed.2 ran, _, own, written⟩

theorem serving_exchanged_iff (fits : ∀ req ∈ reqs, Fits wire (.request req)) {payload : Bytes}
    (encoded : wire.toAllocvec (.request req) = .ok payload) (bound : payload.length < 2 ^ 32) :
    Exchanged router session stream req (serving front clock router session stream world reqs)
        (serving front clock router session stream world (reqs ++ [req])) ↔
      Fits wire (.request req) ∧ LetThrough clock router session (serving front clock router session stream world reqs) req := by
  by_cases small : payload.length ≤ maxFrameSize
  · have own : Fits wire (.request req) := ⟨payload, encoded, small⟩
    have all : ∀ other ∈ reqs ++ [req], Fits wire (.request other) := by
      intro other member
      rcases List.mem_append.1 member with before | last
      · exact fits other before
      · rw [List.mem_singleton.1 last]
        exact own
    rw [and_iff_right own, ← exchanged_iff stream, serving_fits all, serving_fits fits, List.map_append,
      dispatchAll_append]
    rfl
  · rw [serving_large fits encoded bound (Nat.lt_of_not_le small)]
    refine iff_of_false ?_ ?_
    · rintro ⟨-, resp, -, more⟩
      exact List.cons_ne_nil _ _ (List.self_eq_append_right.1 more)
    · rintro ⟨⟨other, same, within⟩, -⟩
      rw [encoded] at same
      cases same
      exact small within

/-- The browser writes nothing, because the mark has no length of its own. -/
theorem browsing_none (checks : Bool) (h : ClientCoreHandle) (reqs : List RequestMsg) : (browsing checks h reqs).1 = none := by
  have first : chunks (onChannel reqs) = [some (toLittle 4 mark.length)] ++ [some mark] ++ chunks (reqs.map .request) := by
    rw [onChannel, chunks, List.flatMap_cons, mark_encoded]
    rfl
  have length : contents [some (toLittle 4 mark.length)] = toLittle 4 mark.length := rfl
  have whole : contents [some mark] = mark := rfl
  obtain ⟨idle, -, read⟩ := readFrame_apart (chunks (reqs.map .request)) (by decide) length whole
  have fits : mark.length < 2 ^ 31 := by decide
  have long : 4 ≤ mark.length := by decide
  have missing : mark.length < 4 + Transport.WsFrames.declared mark := by decide
  have trap : decodeInbound wire checks ⟨mark, fits⟩ = .panicked := decodeInbound_missing wire checks ⟨mark, fits⟩ long missing
  rw [browsing, handleBi, first, read]
  show (handOver wire checks mark h).1 = none
  rw [handOver, dif_pos fits, ClientCoreHandle.use]
  by_cases busy : h.borrowed = true
  · rw [if_pos busy]
    rfl
  · rw [if_neg busy, handleInbound, trap]
    rfl

theorem serves_native (stream : Nat)
    (framed : ∀ req ∈ reqs, ∃ payload, wire.toAllocvec (.request req) = .ok payload ∧ payload.length < 2 ^ 32) :
    Serves stream (.native front clock router session world) reqs ↔
      Ordered (fun before req => Fits wire (.request req) ∧
        LetThrough clock router session (serving front clock router session stream world before) req) reqs := by
  apply ordered_iff (fun before req both => both.1)
  intro before req rest split fits
  obtain ⟨payload, encoded, bound⟩ := framed req (by rw [split]; exact List.mem_append_right _ (List.mem_cons_self ..))
  exact serving_exchanged_iff fits encoded bound

private def echoing : Peer Unit :=
  .native .server (fun _ _ => false) (Router.new.addRpc ⟨"echo", fun _ payload => pure (.ok payload)⟩).1 1
    ⟨⟨fun _ _ => none, ()⟩, [], [], []⟩

private def calls : List RequestMsg := [⟨1, "echo", [7]⟩, ⟨2, "echo", []⟩]

private theorem calls_framed :
    ∀ req ∈ calls, ∃ payload, wire.toAllocvec (.request req) = .ok payload ∧ payload.length < 2 ^ 32 := by
  intro req member
  rcases List.mem_cons.1 member with rfl | member
  · exact ⟨[0, 1, 4, 101, 99, 104, 111, 1, 7], by decide, by decide⟩
  · rw [List.mem_singleton.1 member]
    exact ⟨[0, 2, 4, 101, 99, 104, 111, 0], by decide, by decide⟩

private def inBrowser : ClientCoreHandle := ⟨(ClientCore.new.onRpc "echo" (fun _ data => some data)).2, [], false⟩

end EchoStream.Web.ChannelPeers
