import EchoStream.Foundation.Lockstep
import EchoStream.Proto.Endpoint
import EchoStream.Core.Connection
import EchoStream.Core.Request

/-! A request over the channel and over a stream of its own. The peer has the same
router for both and tells them apart by the name of the first frame. The ids of a
request differ, so the two are one when middlewares do nothing with an id but hand
it on, and the caller does not lose patience on one of them. -/

namespace EchoStream.Core.ChannelSwitch
open Foundation.Tasks Foundation.Formats
open Proto.Messages Proto.Postcard Proto.Endpoint
open Handler Chain Dispatch Connection Request

def rpcChannelMaxPayload : Nat := 64 * 1024

variable {ω : Type}

/-- The same message under the ids of two requests. -/
inductive Own (id id' : UInt64) : Message → Message → Prop
  | request (name data) : Own id id' (.request ⟨id, name, data⟩) (.request ⟨id', name, data⟩)
  | response (code message data) :
      Own id id' (.response ⟨id, code, message, data⟩) (.response ⟨id', code, message, data⟩)
  | event (msg) : Own id id' (.event msg) (.event msg)
  | streamOpen (msg) : Own id id' (.streamOpen msg) (.streamOpen msg)
  | stream (msg) : Own id id' (.stream msg) (.stream msg)
  | streamEnd (msg) : Own id id' (.streamEnd msg) (.streamEnd msg)

inductive OwnOutcome (id id' : UInt64) : Outcome → Outcome → Prop
  | failed (e) : OwnOutcome id id' (.error e) (.error e)
  | intercepted : OwnOutcome id id' (.ok none) (.ok none)
  | answered {msg msg'} (own : Own id id' msg msg') : OwnOutcome id id' (.ok (some msg)) (.ok (some msg'))

/-- The middleware does the same whatever the request's id, and answers under it. -/
def IdBlind (mw : Middleware ω) : Prop :=
  ∀ session id id' msg msg', Own id id' msg msg' →
    (mw.handle session msg).Alike (Own id id') (OwnOutcome id id') (OwnOutcome id id') (mw.handle session msg')

def SameApp (world world' : World ω) : Prop := world.app = world'.app

theorem setApp_same (app : App ω) (world world' : World ω) (_ : SameApp world world') :
    SameApp (world.setApp app) (world'.setApp app) := rfl

/-- A time limit that the application alone decides. -/
def clockOf (passed : Nat → App ω → Bool) : Clock ω := fun limit world => passed limit world.app

variable {passed : Nat → App ω → Bool} {router : Router ω} {session : SessionId}

theorem callRpc_alike (router : Router ω) (session : SessionId) (id id' : UInt64) (name : String) (data : Bytes) :
    (callRpc router session ⟨id, name, data⟩).Alike SameApp Eq (callRpc router session ⟨id', name, data⟩) := by
  unfold callRpc
  cases router.getRpc name with
  | none => exact rfl
  | some entry =>
    have noted : (note (.ran .rpc session entry.1 name data) : Task (World ω) Unit).Alike SameApp Eq
        (note (.ran .rpc session entry.1 name data)) := fun _ _ same => ⟨same, rfl⟩
    refine noted.bind (fun _ _ _ => ?_)
    exact Task.Alike.zoom (fun _ _ same => same) setApp_same _

theorem rpcTerminal_alike {id id' : UInt64} {msg msg' : Message} (own : Own id id' msg msg') :
    (rpcTerminal router session msg).Alike SameApp (OwnOutcome id id') (rpcTerminal router session msg') := by
  have noted : (note (.reached session msg) : Task (World ω) Unit).Alike SameApp Eq (note (.reached session msg')) :=
    fun _ _ same => ⟨same, rfl⟩
  refine noted.bind (fun _ _ _ => ?_)
  cases own with
  | request name data =>
    refine (callRpc_alike router session id id' name data).bind (fun result result' same => ?_)
    subst same
    cases result with
    | ok data => exact .answered (.response _ _ _)
    | error e => exact .failed e
  | response code message data => exact .answered (.response _ _ _)
  | event msg => exact .answered (.event msg)
  | streamOpen msg => exact .answered (.streamOpen msg)
  | stream msg => exact .answered (.stream msg)
  | streamEnd msg => exact .answered (.streamEnd msg)

theorem onion_alike {chain : List (Middleware ω)} (blind : ∀ mw ∈ chain, IdBlind mw) {terminal : Callee ω}
    {id id' : UInt64}
    (ends : ∀ msg msg', Own id id' msg msg' → (terminal msg).Alike SameApp (OwnOutcome id id') (terminal msg'))
    {msg msg' : Message} (own : Own id id' msg msg') :
    (onion (clockOf passed) session chain terminal msg).Alike SameApp (OwnOutcome id id')
      (onion (clockOf passed) session chain terminal msg') := by
  induction chain generalizing msg msg' with
  | nil => exact ends msg msg' own
  | cons mw chain ih =>
    have first := blind mw (List.mem_cons_self ..) session id id' msg msg' own
    refine first.link (fun _ _ same => same) setApp_same (fun limit _ _ same => ?_) (fun _ _ own => ?_)
    · exact congrArg (passed limit) same
    · exact ih (fun mw member => blind mw (List.mem_cons_of_mem _ member)) own

theorem responseOf_own {id id' : UInt64} {outcome outcome' : Outcome} (own : OwnOutcome id id' outcome outcome') :
    (responseOf id outcome).id = id ∧ (responseOf id' outcome').id = id' ∧
      settle (responseOf id outcome) = settle (responseOf id' outcome') := by
  cases own with
  | failed e => exact ⟨rfl, rfl, rfl⟩
  | intercepted => exact ⟨rfl, rfl, rfl⟩
  | answered own => cases own <;> exact ⟨rfl, rfl, rfl⟩

def answerTo (passed : Nat → App ω → Bool) (router : Router ω) (session : SessionId) (req : RequestMsg)
    (world : World ω) : ResponseMsg :=
  responseOf req.id ((runChain (clockOf passed) router session (.request req) (rpcTerminal router session)).eval world).1

theorem answerTo_own (passed : Nat → App ω → Bool) (session : SessionId)
    (blind : ∀ entry ∈ router.middlewares, IdBlind entry.2) (id id' : UInt64) (name : String) (data : Bytes)
    {world world' : World ω} (same : SameApp world world') :
    (answerTo passed router session ⟨id, name, data⟩ world).id = id ∧
      (answerTo passed router session ⟨id', name, data⟩ world').id = id' ∧
      settle (answerTo passed router session ⟨id, name, data⟩ world) =
        settle (answerTo passed router session ⟨id', name, data⟩ world') := by
  have chain : ∀ mw ∈ router.middlewares.map Prod.snd, IdBlind mw := List.forall_mem_map.2 blind
  simp only [answerTo, runChain_eq_onion]
  refine responseOf_own (Task.Alike.eval ?_ same).1
  exact onion_alike chain (fun _ _ => rpcTerminal_alike) (.request name data)

/-- The frames that a side writes to a stream. What cannot be encoded is not written. -/
def frames (codec : Codec Message) (msgs : List Message) : List Bytes :=
  msgs.filterMap (fun msg => (encodeMessage codec msg).toOption)

/-- What is read of the messages written to a stream, where the length of a frame
comes whole. -/
def received (codec : Codec Message) (msgs : List Message) : FrameIo :=
  readFrames codec (frames codec msgs).length ⟨(frames codec msgs).flatten, 0, fun _ => 4⟩

/-- What the reader loop has completed while the channel is open. -/
def completions (pending : List UInt64) : FrameIo → List (UInt64 × Result Bytes)
  | [] => []
  | .ok (some (.response resp)) :: rest =>
      if resp.id ∈ pending then (resp.id, settle resp) :: completions (pending.erase resp.id) rest
      else completions pending rest
  | .ok (some _) :: rest => completions pending rest
  | _ => pending.map (fun id => (id, .error .sessionClosed))

def serving (passed : Nat → App ω → Bool) (router : Router ω) (session : SessionId) (contents : FrameIo)
    (app : App ω) : World ω :=
  ((serve .server .bi (clockOf passed) router session 0 contents).eval ⟨app, [], [], []⟩).2

def answers (world : World ω) : List Message := world.written.map Prod.snd

def onChannel (reqs : List RequestMsg) : List Message := .request ⟨0, rpcChannelName, []⟩ :: reqs.map .request

def plainly (msgs : List Message) : FrameIo := msgs.map (fun msg => .ok (some msg))

/-- The caller's limit, and how long a result takes to come from when the request is
written: on the channel, where what was asked before is answered first, and on a stream
of its own. -/
structure Timing where
  timeout : Nat
  muxed : Nat
  own : Nat

/-- A result that comes after the limit is not waited for. -/
def within (timeout took : Nat) (id : UInt64) (result : Result Bytes) : Result Bytes :=
  if took ≤ timeout then result else .error (.timeout id)

structure Timing.InTime (timing : Timing) : Prop where
  muxed : timing.muxed ≤ timing.timeout
  own : timing.own ≤ timing.timeout

theorem within_early {timeout took : Nat} (early : took ≤ timeout) (id : UInt64) (result : Result Bytes) :
    within timeout took id result = result := if_pos early

theorem within_late {timeout took : Nat} (late : timeout < took) (id : UInt64) (result : Result Bytes) :
    within timeout took id result = .error (.timeout id) := if_neg (Nat.not_le.2 late)

/-- A request on the channel, after the requests `before` and ahead of the requests
`after`. The channel stays open. -/
def requestMuxed (codec : Codec Message) (passed : Nat → App ω → Bool) (router : Router ω) (session : SessionId)
    (timing : Timing) (before after : List RequestMsg) (req : RequestMsg) (app : App ω) : Result Bytes := do
  let _ ← encodeMessage codec (.request req)
  let reqs := before ++ req :: after
  let world := serving passed router session (received codec (onChannel reqs)) app
  match (completions (reqs.map (·.id)) (received codec (answers world))).lookup req.id with
  | some result => within timing.timeout timing.muxed req.id result
  | none => .error (.timeout req.id)

def requestRawStream (codec : Codec Message) (passed : Nat → App ω → Bool) (router : Router ω) (session : SessionId)
    (timing : Timing) (req : RequestMsg) (app : App ω) : Result Bytes := do
  let _ ← encodeMessage codec (.request req)
  let world := serving passed router session (received codec [.request req] ++ [.ok none]) app
  within timing.timeout timing.own req.id (Request.requestRawStream req.id (received codec (answers world) ++ [.ok none]))

def stateAfter (passed : Nat → App ω → Bool) (router : Router ω) (session : SessionId) (reqs : List RequestMsg)
    (app : App ω) : App ω :=
  (serving passed router session (plainly (onChannel reqs)) app).app

def AllFit (codec : Codec Message) (msgs : List Message) : Prop := ∀ msg ∈ msgs, Fits codec msg

instance (codec : Codec Message) (msg : Message) : Decidable (Fits codec msg) :=
  match encoded : codec.toAllocvec msg with
  | .ok payload =>
      if small : payload.length ≤ maxFrameSize then .isTrue ⟨payload, encoded, small⟩
      else .isFalse fun ⟨_, same, fits⟩ => small (Except.ok.inj (encoded.symm.trans same) ▸ fits)
  | .error _ => .isFalse fun ⟨_, same, _⟩ => by
      rw [encoded] at same
      cases same

instance (codec : Codec Message) (msgs : List Message) : Decidable (AllFit codec msgs) :=
  inferInstanceAs (Decidable (∀ msg ∈ msgs, Fits codec msg))

variable {codec : Codec Message}

theorem received_fits (inverse : codec.Inverse) {msgs : List Message} (fits : AllFit codec msgs) :
    received codec msgs = plainly msgs := by
  have reads : ∀ count, readFrames codec (frames codec msgs).length ⟨(frames codec msgs).flatten, count, fun _ => 4⟩ =
      plainly msgs := by
    induction msgs with
    | nil => exact fun _ => rfl
    | cons msg rest ih =>
      intro count
      obtain ⟨payload, encoded, small⟩ := fits msg (List.mem_cons_self ..)
      have framed : frames codec (msg :: rest) = (toLittle 4 payload.length ++ payload) :: frames codec rest := by
        simp only [frames, List.filterMap_cons, encodeMessage_fits encoded small, Except.toOption]
      have whole : 4 ≤ (fun _ : Nat => 4) count := Nat.le_refl 4
      rw [framed, List.length_cons, List.flatten_cons, readFrames, readMessageFrame_whole inverse encoded small whole]
      exact congrArg _ (ih (fun msg member => fits msg (List.mem_cons_of_mem _ member)) (count + 1))
  exact reads 0

/-- They are what the reader loop does first, however the channel ends. -/
theorem completions_prefix (pending : List UInt64) (recv : FrameIo) :
    completions pending recv <+: readerLoop pending recv := by
  fun_induction completions pending recv with
  | case1 pending => exact List.nil_prefix
  | case2 pending resp rest waits ih =>
    rw [readerLoop, if_pos waits]
    exact (List.cons_prefix_cons).2 ⟨rfl, ih⟩
  | case3 pending resp rest unknown ih =>
    rw [readerLoop, if_neg unknown]
    exact ih
  | case4 pending msg rest other ih =>
    cases msg with
    | response resp => exact absurd rfl (other resp)
    | _ => exact ih
  | case5 recv pending read _ notFrame =>
    cases recv with
    | nil => exact absurd rfl read
    | cons result rest =>
      rcases result with e | frame
      · exact List.prefix_rfl
      · cases frame with
        | none => exact List.prefix_rfl
        | some msg => exact absurd rfl (notFrame msg rest)

theorem lookup_completions {pending : List UInt64} {resps : List ResponseMsg} {resp : ResponseMsg} (more : FrameIo)
    (waits : resp.id ∈ pending) (others : ∀ other ∈ resps, other.id ≠ resp.id) :
    (completions pending (plainly (resps.map .response) ++ .ok (some (.response resp)) :: more)).lookup resp.id =
      some (settle resp) := by
  induction resps generalizing pending with
  | nil =>
    rw [List.map_nil, plainly, List.map_nil, List.nil_append, completions, if_pos waits, List.lookup_cons_self]
  | cons other rest ih =>
    have apart := others other (List.mem_cons_self ..)
    have later := fun resp member => others resp (List.mem_cons_of_mem _ member)
    rw [List.map_cons, plainly, List.map_cons, List.cons_append, completions]
    split
    · rw [List.lookup_cons, beq_eq_false_iff_ne.2 apart.symm]
      exact ih ((List.mem_erase_of_ne apart.symm).2 waits) later
    · exact ih waits later

theorem requests_plainly (reqs : List RequestMsg) : requests (plainly (reqs.map .request)) = reqs := by
  induction reqs with
  | nil => rfl
  | cons req rest ih => exact congrArg (req :: ·) ih

theorem serving_channel (reqs : List RequestMsg) (app : App ω) :
    serving passed router session (plainly (onChannel reqs)) app =
      ((dispatchAll (clockOf passed) router (reqs.map (.rpc session 0))).eval ⟨app, [], [], []⟩).2 := by
  rw [serving, serve_eq, onChannel, plainly, List.map_cons, arrivals, if_pos rfl]
  exact congrArg (fun reqs => ((dispatchAll _ _ (List.map _ reqs)).eval _).2) (requests_plainly reqs)

theorem serving_alone {req : RequestMsg} (ordinary : req.name ≠ rpcChannelName) (app : App ω) :
    serving passed router session [.ok (some (.request req)), .ok none] app =
      ((dispatchAll (clockOf passed) router [.rpc session 0 req]).eval ⟨app, [], [], []⟩).2 := by
  rw [serving, serve_eq, arrivals, if_neg ordinary]

theorem dispatchAll_append (clock : Clock ω) (router : Router ω) (first second : List Arrival) (world : World ω) :
    ((dispatchAll clock router (first ++ second)).eval world).2 =
      ((dispatchAll clock router second).eval ((dispatchAll clock router first).eval world).2).2 := by
  induction first generalizing world with
  | nil => rfl
  | cons arrival rest ih =>
    rw [List.cons_append, dispatchAll, dispatchAll, Task.eval_bind, Task.eval_bind]
    exact ih _

theorem dispatchAll_single (passed : Nat → App ω → Bool) (router : Router ω) (session : SessionId) (req : RequestMsg)
    (world : World ω) :
    ((dispatchAll (clockOf passed) router [.rpc session 0 req]).eval world).2.written =
      world.written ++ [(0, .response (answerTo passed router session req world))] := by
  rw [dispatchAll, Task.eval_bind]
  exact dispatchRpc_written (clockOf passed) router session 0 req world

theorem dispatchAll_written (passed : Nat → App ω → Bool) (session : SessionId)
    (blind : ∀ entry ∈ router.middlewares, IdBlind entry.2) (reqs : List RequestMsg) (world : World ω) :
    ∃ resps : List ResponseMsg, resps.map (·.id) = reqs.map (·.id) ∧
      ((dispatchAll (clockOf passed) router (reqs.map (.rpc session 0))).eval world).2.written =
        world.written ++ resps.map (fun resp => (0, .response resp)) := by
  induction reqs generalizing world with
  | nil => exact ⟨[], rfl, (List.append_nil _).symm⟩
  | cons req rest ih =>
    have first := dispatchAll_append (clockOf passed) router [.rpc session 0 req] (rest.map (.rpc session 0)) world
    rw [List.singleton_append] at first
    obtain ⟨resps, ids, written⟩ := ih ((dispatchAll (clockOf passed) router [.rpc session 0 req]).eval world).2
    rw [dispatchAll_single, List.append_assoc] at written
    refine ⟨answerTo passed router session req world :: resps, ?_, ?_⟩
    · rw [List.map_cons, List.map_cons, ids]
      exact congrArg (· :: _) (answerTo_own passed session blind req.id req.id req.name req.data (Eq.refl world.app)).1
    · rw [List.map_cons, first, written]
      rfl

theorem answers_channel (passed : Nat → App ω → Bool) (session : SessionId)
    (blind : ∀ entry ∈ router.middlewares, IdBlind entry.2) (before after : List RequestMsg) (req : RequestMsg)
    (app : App ω) :
    ∃ (world : World ω) (resps : List ResponseMsg) (more : List Message),
      world.app = stateAfter passed router session before app ∧
      resps.map (·.id) = before.map (·.id) ∧
      answers (serving passed router session (plainly (onChannel (before ++ req :: after))) app) =
        resps.map .response ++ .response (answerTo passed router session req world) :: more := by
  obtain ⟨resps, ids, first⟩ := dispatchAll_written passed session blind before ⟨app, [], [], []⟩
  generalize reached :
    ((dispatchAll (clockOf passed) router (before.map (.rpc session 0))).eval ⟨app, [], [], []⟩).2 = world at first
  have second := dispatchAll_single passed router session req world
  obtain ⟨more, -, third⟩ := dispatchAll_written passed session blind after
    ((dispatchAll (clockOf passed) router [.rpc session 0 req]).eval world).2
  refine ⟨world, resps, more.map .response, by rw [stateAfter, serving_channel, reached], ids, ?_⟩
  rw [answers, serving_channel, List.map_append, List.map_cons, List.append_cons, List.append_assoc,
    dispatchAll_append, reached, dispatchAll_append, third, second, first]
  simp only [List.nil_append, List.append_assoc, List.map_append, List.map_map, List.map_cons, List.singleton_append]
  rfl

/-- On the channel a request gets what it is answered with, unless that comes too late. -/
theorem requestMuxed_eq (timing : Timing) (inverse : codec.Inverse) (blind : ∀ entry ∈ router.middlewares, IdBlind entry.2)
    {before after : List RequestMsg} {req : RequestMsg} {app : App ω} (fresh : req.id ∉ before.map (·.id))
    (sent : AllFit codec (onChannel (before ++ req :: after)))
    (answered : AllFit codec (answers (serving passed router session (plainly (onChannel (before ++ req :: after))) app))) :
    ∃ world, world.app = stateAfter passed router session before app ∧
      requestMuxed codec passed router session timing before after req app =
        within timing.timeout timing.muxed req.id (settle (answerTo passed router session req world)) := by
  obtain ⟨payload, encoded, small⟩ := sent (.request req) (by simp [onChannel])
  obtain ⟨world, resps, more, reached, ids, written⟩ := answers_channel passed session blind before after req app
  refine ⟨world, reached, ?_⟩
  have own := (answerTo_own passed session blind req.id req.id req.name req.data (Eq.refl world.app)).1
  have found : (completions ((before ++ req :: after).map (·.id)) (received codec (answers (serving passed router session
      (received codec (onChannel (before ++ req :: after))) app)))).lookup req.id =
        some (settle (answerTo passed router session req world)) := by
    have others : ∀ resp ∈ resps, resp.id ≠ req.id := by
      intro resp member same
      have there := List.mem_map_of_mem (f := (·.id)) member
      rw [ids, same] at there
      exact fresh there
    have waits : (answerTo passed router session req world).id ∈ (before ++ req :: after).map (·.id) := by
      rw [own]
      simp
    have looked := lookup_completions (plainly more) waits (own ▸ others)
    have parts : plainly (resps.map .response ++ .response (answerTo passed router session req world) :: more) =
        plainly (resps.map .response) ++
          .ok (some (.response (answerTo passed router session req world))) :: plainly more :=
      List.map_append
    rw [own, ← parts] at looked
    rw [received_fits inverse sent, received_fits inverse answered, written]
    exact looked
  rw [requestMuxed, encodeMessage_fits encoded small]
  simp only [Bind.bind, Except.bind, found]

theorem answers_only (req : RequestMsg) (app : App ω) :
    answers (serving passed router session (plainly (onChannel [req])) app) =
      [.response (answerTo passed router session req ⟨app, [], [], []⟩)] := by
  rw [answers, serving_channel, List.map_singleton, dispatchAll_single]
  rfl

theorem requestMuxed_only (inverse : codec.Inverse) {req : RequestMsg} {app : App ω} (timing : Timing)
    (sent : AllFit codec (onChannel [req])) :
    requestMuxed codec passed router session timing [] [] req app =
      match (completions [req.id]
        (received codec [.response (answerTo passed router session req ⟨app, [], [], []⟩)])).lookup req.id with
      | some result => within timing.timeout timing.muxed req.id result
      | none => .error (.timeout req.id) := by
  obtain ⟨payload, encoded, small⟩ := sent (.request req) (by simp [onChannel])
  rw [requestMuxed, encodeMessage_fits encoded small]
  simp only [Bind.bind, Except.bind, List.nil_append]
  rw [received_fits inverse sent, answers_only]
  rfl

theorem answers_alone {req : RequestMsg} (ordinary : req.name ≠ rpcChannelName) (app : App ω) :
    answers (serving passed router session (plainly [.request req] ++ [.ok none]) app) =
      [.response (answerTo passed router session req ⟨app, [], [], []⟩)] := by
  have single := dispatchAll_single passed router session req ⟨app, [], [], []⟩
  rw [answers, plainly, List.map_singleton, List.singleton_append, serving_alone ordinary, single]
  rfl

theorem requestRawStream_only (inverse : codec.Inverse) {req : RequestMsg} (ordinary : req.name ≠ rpcChannelName)
    {app : App ω} (timing : Timing) (sent : Fits codec (.request req)) :
    requestRawStream codec passed router session timing req app =
      within timing.timeout timing.own req.id (Request.requestRawStream req.id
        (received codec [.response (answerTo passed router session req ⟨app, [], [], []⟩)] ++ [.ok none])) := by
  have fits : AllFit codec [.request req] := fun msg member => by rwa [List.mem_singleton.1 member]
  obtain ⟨payload, encoded, small⟩ := sent
  rw [requestRawStream, encodeMessage_fits encoded small]
  simp only [Bind.bind, Except.bind]
  rw [received_fits inverse fits, answers_alone ordinary]

def requestRaw (codec : Codec Message) (passed : Nat → App ω → Bool) (router : Router ω) (session : SessionId)
    (timing : Timing) (before after : List RequestMsg) (id id' : UInt64) (name : String) (payload : Bytes)
    (app : App ω) : Result Bytes :=
  if payload.length ≤ rpcChannelMaxPayload then
    requestMuxed codec passed router session timing before after ⟨id, name, payload⟩ app
  else
    requestRawStream codec passed router session timing ⟨id', name, payload⟩
      (stateAfter passed router session before app)

/-- Whichever way a request of an ordinary name goes, its result is the same, where
no middleware looks at ids, all frames fit and the result is in time either way. -/
theorem switch_unseen {codec : Codec Message} (inverse : codec.Inverse) (passed : Nat → App ω → Bool)
    {router : Router ω} (blind : ∀ entry ∈ router.middlewares, IdBlind entry.2) (session : SessionId)
    {timing : Timing} (inTime : timing.InTime)
    {before after : List RequestMsg} {id id' : UInt64} {name : String} {payload : Bytes} {app : App ω}
    (ordinary : name ≠ rpcChannelName) (fresh : id ∉ before.map (·.id))
    (sent : AllFit codec (onChannel (before ++ ⟨id, name, payload⟩ :: after)))
    (answered : AllFit codec
      (answers (serving passed router session (plainly (onChannel (before ++ ⟨id, name, payload⟩ :: after))) app)))
    (sentAlone : Fits codec (.request ⟨id', name, payload⟩))
    (answeredAlone : AllFit codec (answers (serving passed router session
      (plainly [.request ⟨id', name, payload⟩] ++ [.ok none]) (stateAfter passed router session before app)))) :
    requestRaw codec passed router session timing before after id id' name payload app =
        requestMuxed codec passed router session timing before after ⟨id, name, payload⟩ app ∧
      requestRaw codec passed router session timing before after id id' name payload app =
        requestRawStream codec passed router session timing ⟨id', name, payload⟩
          (stateAfter passed router session before app) := by
  have agree : requestMuxed codec passed router session timing before after ⟨id, name, payload⟩ app =
      requestRawStream codec passed router session timing ⟨id', name, payload⟩
        (stateAfter passed router session before app) := by
    obtain ⟨world, reached, muxed⟩ := requestMuxed_eq timing inverse blind fresh sent answered
    have alike : SameApp world ⟨stateAfter passed router session before app, [], [], []⟩ := reached
    obtain ⟨-, own, same⟩ := answerTo_own passed session blind id id' name payload alike
    rw [answers_alone ordinary] at answeredAlone
    rw [muxed, within_early inTime.muxed, same, requestRawStream_only inverse ordinary timing sentAlone,
      within_early inTime.own, received_fits inverse answeredAlone]
    simp only [Request.requestRawStream, plainly, List.map_cons, List.cons_append, awaitResponse, own, if_true]
  unfold requestRaw
  split
  · exact ⟨rfl, agree⟩
  · exact ⟨agree.symm, rfl⟩

private def bare : App Unit := ⟨fun _ _ => none, ()⟩

private def never : Nat → App Unit → Bool := fun _ _ => false

private def passing : Middleware Unit := ⟨"passing", fun _ msg => .call msg .done⟩

private def echoing : Router Unit :=
  ((Router.new.addMiddleware passing).1.addRpc ⟨"echo", fun _ payload => pure (.ok payload)⟩).1

private theorem echoing_blind : ∀ entry ∈ echoing.middlewares, IdBlind entry.2 := by
  intro entry member
  rw [List.mem_singleton.1 (member : entry ∈ [(0, passing)])]
  exact fun _ _ _ _ _ own => ⟨own, fun _ _ same => same⟩

/-- Thirty seconds, of which the channel takes two and an own stream one. -/
private def prompt : Timing := ⟨30, 2, 1⟩

private theorem prompt_inTime : prompt.InTime := ⟨by decide, by decide⟩

theorem switch_unseen_echo :
    requestRaw wire never echoing 1 prompt [] [] 1 2 "echo" [7] bare =
        requestMuxed wire never echoing 1 prompt [] [] ⟨1, "echo", [7]⟩ bare ∧
      requestRaw wire never echoing 1 prompt [] [] 1 2 "echo" [7] bare =
        requestRawStream wire never echoing 1 prompt ⟨2, "echo", [7]⟩ (stateAfter never echoing 1 [] bare) := by
  apply switch_unseen wire_inverse never echoing_blind 1 prompt_inTime
  · decide
  · decide
  · decide
  · rw [List.nil_append, answers_only, answerTo, runChain_eq_onion]
    decide
  · decide
  · rw [answers_alone (by decide), answerTo, runChain_eq_onion]
    decide

private def picky : Middleware Unit :=
  ⟨"picky", fun _ msg =>
    match msg with
    | .request req => if req.id = 1 then .done (.ok none) else .call msg .done
    | msg => .call msg .done⟩

private def relabelling : Middleware Unit :=
  ⟨"relabelling", fun _ _ => .done (.ok (some (.response ⟨9, .success, none, []⟩)))⟩

/-- 64 MiB, to which a response adds its other fields. -/
private def blob : Bytes := List.replicate (64 * 1024 * 1024) 0

private theorem blob_length : blob.length = 64 * 1024 * 1024 := List.length_replicate

private def serveBlob : RpcHandler Unit := ⟨"blob", fun _ _ => pure (.ok blob)⟩

private theorem reserved_differs :
    requestMuxed wire never .new 1 prompt [] [] ⟨1, "$channel", []⟩ bare = .error (.rpc 3 "handler not found: $channel") ∧
      requestRawStream wire never .new 1 prompt ⟨2, "$channel", []⟩ bare = .error .sessionClosed := by
  constructor
  · rw [requestMuxed_only wire_inverse prompt (by decide), answerTo, runChain_eq_onion]
    decide
  · decide

private theorem picky_differs :
    requestMuxed wire never (Router.new.addMiddleware picky).1 1 prompt [] [] ⟨1, "echo", []⟩ bare =
        .error (.rpc 4 "请求被中间件拦截") ∧
      requestRawStream wire never (Router.new.addMiddleware picky).1 1 prompt ⟨2, "echo", []⟩ bare =
        .error (.rpc 3 "handler not found: echo") := by
  constructor
  · rw [requestMuxed_only wire_inverse prompt (by decide), answerTo, runChain_eq_onion]
    decide
  · rw [requestRawStream_only wire_inverse (by decide) prompt (by decide), answerTo, runChain_eq_onion]
    decide

private theorem relabelling_differs :
    requestMuxed wire never (Router.new.addMiddleware relabelling).1 1 prompt [] [] ⟨1, "echo", []⟩ bare = .error (.timeout 1) ∧
      requestRawStream wire never (Router.new.addMiddleware relabelling).1 1 prompt ⟨2, "echo", []⟩ bare =
        .error .sessionClosed := by
  constructor
  · rw [requestMuxed_only wire_inverse prompt (by decide), answerTo, runChain_eq_onion]
    decide
  · rw [requestRawStream_only wire_inverse (by decide) prompt (by decide), answerTo, runChain_eq_onion]
    decide

private theorem large_unread (id : UInt64) (low : id = 1 ∨ id = 2) {data : Bytes} (size : data.length = 64 * 1024 * 1024) :
    received wire [.response ⟨id, .success, none, data⟩] = [.error (.protocol "帧大小超限: 67108872")] := by
  have encoded := large_encoded id low size
  have length : ([1, id.toUInt8, 0, 0] ++ ([128, 128, 128, 32] ++ data)).length = 67108872 := by
    rw [List.length_append, List.length_append, size]
    simp only [List.length_cons, List.length_nil]
  obtain ⟨frame, framed, read⟩ := readMessageFrame_large encoded (by rw [length]; decide) (by rw [length]; decide)
    (fun _ => 4) 0 (Nat.le_refl 4) []
  have text : toString 67108872 = "67108872" := by decide
  have written : ChannelSwitch.frames wire [.response ⟨id, .success, none, data⟩] = [frame] := by
    simp only [ChannelSwitch.frames, List.filterMap_cons, framed, Except.toOption, List.filterMap_nil]
  rw [length, text] at read
  rw [received, written, List.flatten_singleton, ← List.append_nil frame]
  simp only [List.length_singleton, readFrames, read]
  rfl

private theorem blob_differs :
    requestMuxed wire never (Router.new.addRpc serveBlob).1 1 prompt [] [] ⟨1, "blob", []⟩ bare = .error .sessionClosed ∧
      requestRawStream wire never (Router.new.addRpc serveBlob).1 1 prompt ⟨2, "blob", []⟩ bare =
        .error (.protocol "帧大小超限: 67108872") := by
  have answer : ∀ id, answerTo never (Router.new.addRpc serveBlob).1 1 ⟨id, "blob", []⟩ ⟨bare, [], [], []⟩ =
      ⟨id, .success, none, blob⟩ := by
    intro id
    rw [answerTo, runChain_eq_onion]
    rfl
  constructor
  · rw [requestMuxed_only wire_inverse prompt (by decide), answer, large_unread 1 (.inl rfl) blob_length]
    rfl
  · rw [requestRawStream_only wire_inverse (by decide) prompt (by decide), answer, large_unread 2 (.inr rfl) blob_length]
    rfl

private def echoOnly : Router Unit := (Router.new.addRpc ⟨"echo", fun _ payload => pure (.ok payload)⟩).1

/-- What was asked before takes the peer longer than the caller waits. -/
private def queued : Timing := ⟨30, 31, 1⟩

private theorem queued_differs :
    requestMuxed wire never echoOnly 1 queued [⟨1, "echo", [8]⟩] [] ⟨2, "echo", [7]⟩ bare = .error (.timeout 2) ∧
      requestRawStream wire never echoOnly 1 queued ⟨1, "echo", [7]⟩ bare = .ok [7] := by
  have answer : ∀ (id : UInt64) (data : Bytes) (world : World Unit),
      answerTo never echoOnly 1 ⟨id, "echo", data⟩ world = ⟨id, .success, none, data⟩ := by
    intro id data world
    rw [answerTo, runChain_eq_onion]
    rfl
  constructor
  · have blind : ∀ entry ∈ echoOnly.middlewares, IdBlind entry.2 := fun entry member => absurd member List.not_mem_nil
    have both : answers (serving never echoOnly 1 (plainly (onChannel [⟨1, "echo", [8]⟩, ⟨2, "echo", [7]⟩])) bare) =
        [.response ⟨1, .success, none, [8]⟩, .response ⟨2, .success, none, [7]⟩] := by
      rw [answers, serving_channel, List.map_cons, List.map_singleton, ← List.singleton_append, dispatchAll_append,
        dispatchAll_single, dispatchAll_single, answer, answer]
      rfl
    have fits : AllFit wire (answers (serving never echoOnly 1
        (plainly (onChannel ([⟨1, "echo", [8]⟩] ++ ⟨2, "echo", [7]⟩ :: []))) bare)) := by
      rw [List.singleton_append, both]
      decide
    obtain ⟨world, -, waited⟩ := requestMuxed_eq queued wire_inverse blind (by decide) (by decide) fits
    rw [waited]
    exact within_late (by decide) 2 _
  · rw [requestRawStream_only wire_inverse (by decide) queued (by decide), answer]
    decide

/-- The reserved name, a middleware that looks at ids, one that answers under another
id, an answer that does not fit a frame and a caller who has waited for others first are
each told apart. -/
theorem switch_seen :
    (requestMuxed wire never .new 1 prompt [] [] ⟨1, "$channel", []⟩ bare = .error (.rpc 3 "handler not found: $channel") ∧
      requestRawStream wire never .new 1 prompt ⟨2, "$channel", []⟩ bare = .error .sessionClosed) ∧
    (requestMuxed wire never (Router.new.addMiddleware picky).1 1 prompt [] [] ⟨1, "echo", []⟩ bare =
        .error (.rpc 4 "请求被中间件拦截") ∧
      requestRawStream wire never (Router.new.addMiddleware picky).1 1 prompt ⟨2, "echo", []⟩ bare =
        .error (.rpc 3 "handler not found: echo")) ∧
    (requestMuxed wire never (Router.new.addMiddleware relabelling).1 1 prompt [] [] ⟨1, "echo", []⟩ bare = .error (.timeout 1) ∧
      requestRawStream wire never (Router.new.addMiddleware relabelling).1 1 prompt ⟨2, "echo", []⟩ bare = .error .sessionClosed) ∧
    (requestMuxed wire never (Router.new.addRpc serveBlob).1 1 prompt [] [] ⟨1, "blob", []⟩ bare = .error .sessionClosed ∧
      requestRawStream wire never (Router.new.addRpc serveBlob).1 1 prompt ⟨2, "blob", []⟩ bare =
        .error (.protocol "帧大小超限: 67108872")) ∧
    (requestMuxed wire never echoOnly 1 queued [⟨1, "echo", [8]⟩] [] ⟨2, "echo", [7]⟩ bare = .error (.timeout 2) ∧
      requestRawStream wire never echoOnly 1 queued ⟨1, "echo", [7]⟩ bare = .ok [7]) :=
  ⟨reserved_differs, picky_differs, relabelling_differs, blob_differs, queued_differs⟩

end EchoStream.Core.ChannelSwitch
