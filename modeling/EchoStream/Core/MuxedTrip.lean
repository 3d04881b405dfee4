import EchoStream.Core.RpcChannel
import EchoStream.Foundation.Queues
import EchoStream.Middlewares.Answers

/-! Calls over the multiplexed channel and the peer that answers them. The calls of
`request_muxed` and their reader loop are one end of a stream, at the other end a loop takes
one request after the other, runs the middleware chain on it and writes the answer. The router
may hold any handlers, and any middlewares that leave the ids of requests and responses alone. -/

namespace EchoStream.Core.MuxedTrip
open Foundation.Run Foundation.Tasks Foundation.Queues
open Proto.Messages
open Handler Chain Dispatch Request RpcChannel
open Middlewares.Answers (Asks Fits rpcTerminal_gives responseOf_fits Own own_gives)

variable {ω : Type}

/-- The peer before it accepts the stream, between requests, with the chain running on one,
and when it has left its loop. -/
inductive Loop (ω : Type) where
  | unaccepted
  | reading
  | serving (req : RequestMsg) (chain : Task (World ω) Outcome)
  | left

def Loop.request : Loop ω → Option RequestMsg
  | serving req _ => some req
  | _ => none

@[simp] theorem unaccepted_request : (Loop.unaccepted : Loop ω).request = none := rfl

@[simp] theorem reading_request : (Loop.reading : Loop ω).request = none := rfl

@[simp] theorem serving_request (req : RequestMsg) (chain : Task (World ω) Outcome) :
    (Loop.serving req chain).request = some req := rfl

/-- The channel, whether the marker that opens it was written, the calls in the order in which
they took their ids, what is on its way, and the peer with what it has answered. -/
structure Trip (ω : Type) where
  channel : Channel
  marked : Bool
  order : List Nat
  asked : List RequestMsg
  up : Pipe RequestMsg
  loop : Loop ω
  served : List (RequestMsg × ResponseMsg)
  world : World ω
  down : Pipe ResponseMsg

def Trip.init (world : World ω) : Trip ω := ⟨.init, false, [], [], .empty, .unaccepted, [], world, .empty⟩

inductive Label (ω : Type) where
  | call (label : RpcChannel.Label)
  | receive
  | stop (result : Result (Option Message))
  | accept
  | read
  | work
  | finish
  | leave
  | other (update : App ω → App ω)
  | severUp (kept : Nat)
  | severDown (kept : Nat)

def requestOf (wanted : Nat → String × Bytes) (i : Nat) (id : UInt64) : RequestMsg := ⟨id, (wanted i).1, (wanted i).2⟩

def marks : RpcChannel.Label → Bool
  | .opened _ none => true
  | _ => false

def allocates : RpcChannel.Label → List Nat
  | .allocate i => [i]
  | _ => []

namespace Trip

def writes (wanted : Nat → String × Bytes) (s : Trip ω) : RpcChannel.Label → Option RequestMsg
  | .write i none => (s.channel.calls i).id.map (requestOf wanted i)
  | _ => none

def put (s : Trip ω) : Option RequestMsg → Trip ω
  | some req => { s with asked := s.asked ++ [req], up := s.up.put req }
  | none => s

def moved (s : Trip ω) (label : RpcChannel.Label) (channel : Channel) : Trip ω :=
  { s with channel, marked := s.marked || marks label, order := s.order ++ allocates label }

/-- A step of a call, or of the reader loop other than a read. -/
def call (wanted : Nat → String × Bytes) (s : Trip ω) (label : RpcChannel.Label) : Option (Trip ω) :=
  match label with
  | .read _ => none
  | label => (RpcChannel.step s.channel label).map (fun channel => (s.moved label channel).put (s.writes wanted label))

def receive (s : Trip ω) : Option (Trip ω) :=
  match s.down.items with
  | resp :: rest =>
      (RpcChannel.step s.channel (.read (.ok (some (.response resp))))).map (fun channel =>
        { s with channel, down := { s.down with items := rest } })
  | [] => none

def stop (s : Trip ω) (result : Result (Option Message)) : Option (Trip ω) :=
  match result with
  | .ok (some _) => none
  | result => (RpcChannel.step s.channel (.read result)).map (fun channel => { s with channel })

def accept (s : Trip ω) : Option (Trip ω) :=
  match s.loop, s.marked with
  | .unaccepted, true => some { s with loop := .reading }
  | _, _ => none

def read (dispatch : RequestMsg → Task (World ω) Outcome) (s : Trip ω) : Option (Trip ω) :=
  match s.loop, s.up.items with
  | .reading, req :: rest => some { s with up := { s.up with items := rest }, loop := .serving req (dispatch req) }
  | _, _ => none

def work (s : Trip ω) : Option (Trip ω) :=
  match s.loop with
  | .serving req (.step update next) => some { s with world := update s.world, loop := .serving req (next s.world) }
  | _ => none

def finish (s : Trip ω) : Option (Trip ω) :=
  match s.loop with
  | .serving req (.done outcome) =>
      some { s with
        loop := .reading
        served := s.served ++ [(req, responseOf req.id outcome)]
        down := s.down.put (responseOf req.id outcome) }
  | _ => none

def leave (s : Trip ω) : Option (Trip ω) :=
  match s.loop with
  | .reading => some { s with loop := .left }
  | _ => none

end Trip

def step (wanted : Nat → String × Bytes) (dispatch : RequestMsg → Task (World ω) Outcome) : Step (Trip ω) (Label ω)
  | s, .call label => s.call wanted label
  | s, .receive => s.receive
  | s, .stop result => s.stop result
  | s, .accept => s.accept
  | s, .read => s.read dispatch
  | s, .work => s.work
  | s, .finish => s.finish
  | s, .leave => s.leave
  | s, .other update => some { s with world := s.world.setApp (update s.world.app) }
  | s, .severUp kept => some { s with up := s.up.sever kept }
  | s, .severDown kept => some { s with down := s.down.sever kept }

def chained (clock : Clock ω) (router : Router ω) (session : SessionId) (req : RequestMsg) : Task (World ω) Outcome :=
  runChain clock router session (.request req) (rpcTerminal router session)

/-- The middleware passes requests on under their ids, and returns no response to another
request unless it was given one. -/
def KeepsIds (session : SessionId) (mw : Middleware ω) : Prop :=
  ∀ id msg, Asks id msg → (mw.handle session msg).Gives (Asks id) (Fits id) (Fits id)

/-- The repository's own middlewares are such. -/
theorem own_keepsIds (session : SessionId) (own : Own ω) : KeepsIds session own.middleware :=
  fun _ _ asks => own_gives own session asks

def answersIn (arrived : List Message) : List ResponseMsg :=
  arrived.filterMap (fun
    | .response resp => some resp
    | _ => none)

def Trip.calls (s : Trip ω) : Exchange RequestMsg ResponseMsg where
  asked := s.asked
  up := s.up
  serving := s.loop.request
  served := s.served
  down := s.down
  taken := answersIn s.channel.arrived

def rank : Phase → Nat
  | .idle => 0
  | .opening => 1
  | .ready => 2
  | .allocated => 3
  | .registered => 4
  | .waiting => 5
  | .expired => 6
  | .returned _ => 7

/-- A call goes forward, and has its id from when it takes the next one. -/
def Advances (s t : Channel) (label : RpcChannel.Label) (j : Nat) : Prop :=
  rank (s.calls j).phase ≤ rank (t.calls j).phase ∧
    (j ∉ allocates label ∧ (t.calls j).id = (s.calls j).id ∨
      allocates label = [j] ∧ (s.calls j).phase = .ready ∧ (t.calls j).phase = .allocated ∧ (t.calls j).id = some s.nextId)

section Channels

variable {s t : Channel} {label : RpcChannel.Label}

theorem advances_setCall {i j : Nat} {call : Call} (u : Channel) (quiet : allocates label = [])
    (changed : t.calls = (u.setCall i call).calls)
    (others : ∀ j, (u.calls j).phase = (s.calls j).phase ∧ (u.calls j).id = (s.calls j).id)
    (forward : rank (s.calls i).phase ≤ rank call.phase) (id : call.id = (s.calls i).id) :
    Advances s t label j := by
  have absent : j ∉ allocates label := by
    rw [quiet]
    exact List.not_mem_nil
  rw [Advances, changed]
  by_cases same : j = i
  · subst same
    rw [setCall_self]
    exact ⟨forward, .inl ⟨absent, id⟩⟩
  · rw [setCall_other u same, (others j).1, (others j).2]
    exact ⟨Nat.le_refl _, .inl ⟨absent, rfl⟩⟩

theorem dropSender_id (s : Channel) (id : UInt64) (j : Nat) : ((s.dropSender id).calls j).id = (s.calls j).id := by
  unfold Channel.dropSender
  split
  · rename_i k _
    by_cases same : j = k
    · rw [same, Channel.setSlot, setCall_self]
    · rw [Channel.setSlot, setCall_other s same]
  · rfl

theorem step_advances (stepped : RpcChannel.step s label = some t) (j : Nat) : Advances s t label j := by
  have none : ∀ k, (s.calls k).phase = (s.calls k).phase ∧ (s.calls k).id = (s.calls k).id := fun _ => ⟨rfl, rfl⟩
  have dropped : ∀ id k, ((s.dropSender id).calls k).phase = (s.calls k).phase ∧
      ((s.dropSender id).calls k).id = (s.calls k).id := fun id k => ⟨dropSender_phase s id k, dropSender_id s id k⟩
  cases step_effect stepped with
  | @opening i idle => exact advances_setCall s rfl rfl none (by simp [rank, idle]) rfl
  | @joined i idle => exact advances_setCall s rfl rfl none (by simp [rank, idle]) rfl
  | @opened i opening => exact advances_setCall s rfl rfl none (by simp [rank, opening]) rfl
  | @notOpened i e opening transport => exact advances_setCall s rfl rfl none (by simp [rank, opening]) rfl
  | @allocated i ready =>
    show Advances s (s.setCall i _) _ j
    by_cases same : j = i
    · subst same
      rw [Advances, setCall_self]
      exact ⟨by simp [rank, ready], .inr ⟨rfl, ready, rfl, rfl⟩⟩
    · rw [Advances, setCall_other s same]
      exact ⟨Nat.le_refl _, .inl ⟨mt List.mem_singleton.1 same, rfl⟩⟩
  | @registered i id allocated has =>
    exact advances_setCall (s.dropSender id) rfl rfl (dropped id) (by simp [rank, allocated]) (dropSender_id s id i)
  | @written i registered => exact advances_setCall s rfl rfl none (by simp [rank, registered]) rfl
  | @notWritten i e registered transport => exact advances_setCall s rfl rfl none (by simp [rank, registered]) rfl
  | @expired i waiting => exact advances_setCall s rfl rfl none (by simp [rank, waiting]) rfl
  | @abandoned i id expired has =>
    exact advances_setCall (s.dropSender id) rfl rfl (dropped id) (by simp [rank, expired]) (dropSender_id s id i)
  | @completed i result waiting filled => exact advances_setCall s rfl rfl none (by simp [rank, waiting]) rfl
  | @orphaned i waiting orphan => exact advances_setCall s rfl rfl none (by simp [rank, waiting]) rfl
  | @claimed i resp reading found => exact advances_setCall s rfl rfl none (Nat.le_refl _) rfl
  | @delivered i result sending => exact advances_setCall s rfl rfl none (Nat.le_refl _) rfl
  | @woken todo k i waking next => exact advances_setCall s rfl rfl none (Nat.le_refl _) rfl
  | skipped | ended | drained | finished => exact ⟨Nat.le_refl _, .inl ⟨List.not_mem_nil, rfl⟩⟩

/-- The calls by the order in which they took their ids, which are numbered from 1. -/
structure Numbered (channel : Channel) (order : List Nat) : Prop where
  next : channel.nextId = UInt64.ofNat (order.length + 1)
  ids : ∀ i id, (channel.calls i).id = some id ↔ ∃ k, order[k]? = some i ∧ id = UInt64.ofNat (k + 1)
  early : ∀ i, rank (channel.calls i).phase < 3 → i ∉ order

theorem init_numbered : Numbered Channel.init [] where
  next := rfl
  ids i id := by simp [Channel.init, Call.fresh]
  early i _ := List.not_mem_nil

theorem dropSender_nextId (s : Channel) (id : UInt64) : (s.dropSender id).nextId = s.nextId := by
  unfold Channel.dropSender
  split <;> rfl

theorem step_nextId (stepped : RpcChannel.step s label = some t) :
    t.nextId = s.nextId + UInt64.ofNat (allocates label).length := by
  have zero : s.nextId = s.nextId + UInt64.ofNat 0 := (UInt64.add_zero s.nextId).symm
  cases step_effect stepped with
  | allocated ready => rfl
  | registered allocated has => exact (dropSender_nextId s _).trans zero
  | abandoned expired has => exact (dropSender_nextId s _).trans zero
  | _ => exact zero

theorem allocates_at (order : List Nat) (label : RpcChannel.Label) (i k : Nat) :
    (order ++ allocates label)[k]? = some i ↔ order[k]? = some i ∨ k = order.length ∧ allocates label = [i] := by
  have one : allocates label = [] ∨ ∃ j, allocates label = [j] := by
    cases label <;> first | exact .inl rfl | exact .inr ⟨_, rfl⟩
  rcases one with none | ⟨j, one⟩
  · rw [none, List.append_nil]
    simp
  · rw [one, List.getElem?_append]
    split
    · rename_i below
      simp [Nat.ne_of_lt below]
    · rename_i beyond
      rw [List.getElem?_eq_none (Nat.le_of_not_lt beyond), List.getElem?_singleton]
      have same : k - order.length = 0 ↔ k = order.length := by omega
      simp only [same, reduceCtorEq, false_or, List.cons.injEq, and_true]
      split <;> simp_all

theorem Numbered.step {order : List Nat} (numbered : Numbered s order) (stepped : RpcChannel.step s label = some t) :
    Numbered t (order ++ allocates label) := by
  have advances := step_advances stepped
  constructor
  · rw [step_nextId stepped, numbered.next, List.length_append, ← UInt64.ofNat_add]
    congr 1
    omega
  · intro i id
    simp only [allocates_at]
    rcases (advances i).2 with ⟨absent, same⟩ | ⟨takes, ready, -, taken⟩
    · have others : allocates label ≠ [i] := fun takes => absent (takes ▸ List.mem_singleton_self i)
      simp only [others, and_false, or_false]
      rw [same, numbered.ids]
    · have fresh : ∀ k, order[k]? ≠ some i := fun k there =>
        numbered.early i (by rw [ready]; decide) (List.mem_of_getElem? there)
      simp only [takes, fresh, and_true, false_or, exists_eq_left]
      rw [taken, numbered.next, Option.some_inj, eq_comm]
  · intro i low there
    have before : rank (s.calls i).phase < 3 := Nat.lt_of_le_of_lt (advances i).1 low
    rcases List.mem_append.1 there with old | new
    · exact numbered.early i before old
    · rcases (advances i).2 with ⟨absent, -⟩ | ⟨-, -, allocated, -⟩
      · exact absent new
      · rw [allocated] at low
        exact absurd low (by decide)

theorem Numbered.apart {order : List Nat} (numbered : Numbered s order) (few : order.length < 2 ^ 64) {i j : Nat} {id : UInt64}
    (first : (s.calls i).id = some id) (second : (s.calls j).id = some id) : i = j := by
  obtain ⟨k, there, rfl⟩ := (numbered.ids i id).1 first
  obtain ⟨l, also, same⟩ := (numbered.ids j _).1 second
  have belowK := (List.getElem?_eq_some_iff.1 there).1
  have belowL := (List.getElem?_eq_some_iff.1 also).1
  have equal := congrArg UInt64.toNat same
  rw [UInt64.toNat_ofNat', UInt64.toNat_ofNat'] at equal
  have places : k = l := by omega
  rw [places, also] at there
  exact (Option.some_inj.1 there).symm

theorem answersIn_append (arrived more : List Message) : answersIn (arrived ++ more) = answersIn arrived ++ answersIn more :=
  List.filterMap_append

theorem arrived_same (stepped : RpcChannel.step s label = some t) (other : ∀ msg, label ≠ .read (.ok (some msg))) :
    t.arrived = s.arrived := by
  have dropped : ∀ id, (s.dropSender id).arrived = s.arrived := by
    intro id
    unfold Channel.dropSender
    split <;> rfl
  cases step_effect stepped with
  | registered allocated has => exact dropped _
  | abandoned expired has => exact dropped _
  | claimed reading found => exact absurd rfl (other _)
  | skipped reading => exact absurd rfl (other _)
  | _ => rfl

theorem arrived_read {msg : Message} (stepped : RpcChannel.step s (.read (.ok (some msg))) = some t) :
    t.arrived = s.arrived ++ [msg] := by
  cases reader : s.reader with
  | reading =>
    simp only [RpcChannel.step, RpcChannel.read, reader] at stepped
    cases msg with
    | response resp =>
      dsimp only at stepped
      split at stepped <;> cases stepped <;> rfl
    | _ =>
      cases stepped
      rfl
  | _ =>
    simp only [RpcChannel.step, RpcChannel.read, reader] at stepped
    cases stepped

end Channels

section Trips

variable {wanted : Nat → String × Bytes} {dispatch : RequestMsg → Task (World ω) Outcome} {s t : Trip ω}

theorem put_channel (s : Trip ω) (wrote : Option RequestMsg) : (s.put wrote).channel = s.channel := by
  cases wrote <;> rfl

theorem put_order (s : Trip ω) (wrote : Option RequestMsg) : (s.put wrote).order = s.order := by
  cases wrote <;> rfl

theorem put_loop (s : Trip ω) (wrote : Option RequestMsg) : (s.put wrote).loop = s.loop := by
  cases wrote <;> rfl

theorem put_served (s : Trip ω) (wrote : Option RequestMsg) : (s.put wrote).served = s.served := by
  cases wrote <;> rfl

inductive Effect (wanted : Nat → String × Bytes) (dispatch : RequestMsg → Task (World ω) Outcome) (s : Trip ω) :
    Label ω → Trip ω → Prop where
  | called {label : RpcChannel.Label} {channel : Channel} (stepped : RpcChannel.step s.channel label = some channel)
      (other : ∀ result, label ≠ .read result) :
      Effect wanted dispatch s (.call label) ((s.moved label channel).put (s.writes wanted label))
  | received {resp : ResponseMsg} {rest : List ResponseMsg} {channel : Channel} (first : s.down.items = resp :: rest)
      (stepped : RpcChannel.step s.channel (.read (.ok (some (.response resp)))) = some channel) :
      Effect wanted dispatch s .receive { s with channel, down := { s.down with items := rest } }
  | stopped {result : Result (Option Message)} {channel : Channel} (ended : ∀ msg, result ≠ .ok (some msg))
      (stepped : RpcChannel.step s.channel (.read result) = some channel) :
      Effect wanted dispatch s (.stop result) { s with channel }
  | accepted (before : s.loop = .unaccepted) : Effect wanted dispatch s .accept { s with loop := .reading }
  | read {req : RequestMsg} {rest : List RequestMsg} (idle : s.loop = .reading) (first : s.up.items = req :: rest) :
      Effect wanted dispatch s .read { s with up := { s.up with items := rest }, loop := .serving req (dispatch req) }
  | worked {req : RequestMsg} {update : World ω → World ω} {next : World ω → Task (World ω) Outcome}
      (busy : s.loop = .serving req (.step update next)) :
      Effect wanted dispatch s .work { s with world := update s.world, loop := .serving req (next s.world) }
  | finished {req : RequestMsg} {outcome : Outcome} (done : s.loop = .serving req (.done outcome)) :
      Effect wanted dispatch s .finish { s with
        loop := .reading
        served := s.served ++ [(req, responseOf req.id outcome)]
        down := s.down.put (responseOf req.id outcome) }
  | left (idle : s.loop = .reading) : Effect wanted dispatch s .leave { s with loop := .left }
  | other (update : App ω → App ω) :
      Effect wanted dispatch s (.other update) { s with world := s.world.setApp (update s.world.app) }
  | severUp (kept : Nat) : Effect wanted dispatch s (.severUp kept) { s with up := s.up.sever kept }
  | severDown (kept : Nat) : Effect wanted dispatch s (.severDown kept) { s with down := s.down.sever kept }

theorem step_effect {label : Label ω} (stepped : step wanted dispatch s label = some t) :
    Effect wanted dispatch s label t := by
  cases label with
  | call label =>
    unfold step Trip.call at stepped
    dsimp only at stepped
    split at stepped
    · cases stepped
    · rename_i other
      obtain ⟨channel, moved, rfl⟩ := Option.map_eq_some_iff.1 stepped
      exact .called moved other
  | receive =>
    rw [step, Trip.receive] at stepped
    split at stepped
    · obtain ⟨channel, moved, rfl⟩ := Option.map_eq_some_iff.1 stepped
      exact .received ‹_› moved
    · cases stepped
  | stop result =>
    unfold step Trip.stop at stepped
    dsimp only at stepped
    split at stepped
    · cases stepped
    · rename_i other
      obtain ⟨channel, moved, rfl⟩ := Option.map_eq_some_iff.1 stepped
      exact .stopped other moved
  | accept =>
    rw [step, Trip.accept] at stepped
    split at stepped <;> cases stepped
    exact .accepted ‹_›
  | read =>
    rw [step, Trip.read] at stepped
    split at stepped <;> cases stepped
    exact .read ‹_› ‹_›
  | work =>
    rw [step, Trip.work] at stepped
    split at stepped <;> cases stepped
    exact .worked ‹_›
  | finish =>
    rw [step, Trip.finish] at stepped
    split at stepped <;> cases stepped
    exact .finished ‹_›
  | leave =>
    rw [step, Trip.leave] at stepped
    split at stepped <;> cases stepped
    exact .left ‹_›
  | other update =>
    cases stepped
    exact .other update
  | severUp kept =>
    cases stepped
    exact .severUp kept
  | severDown kept =>
    cases stepped
    exact .severDown kept

/-- What every step keeps. What is asked was written by a call, under its id. -/
structure Kept (wanted : Nat → String × Bytes) (s : Trip ω) : Prop where
  tracked : Tracked s.channel
  numbered : Numbered s.channel s.order
  balanced : Balanced s.calls
  serving : ∀ req chain, s.loop = .serving req chain → chain.Gives (Fits req.id)
  served : ∀ pair ∈ s.served, pair.2.id = pair.1.id
  asked : ∀ req ∈ s.asked, ∃ i, (s.channel.calls i).id = some req.id ∧ req = requestOf wanted i req.id ∧
    5 ≤ rank (s.channel.calls i).phase
  once : s.order.length < 2 ^ 64 → (s.asked.map RequestMsg.id).Nodup

theorem init_kept (wanted : Nat → String × Bytes) (world : World ω) : Kept wanted (.init world) where
  tracked := init_tracked
  numbered := init_numbered
  balanced := .init
  serving _ _ serving := by cases serving
  served _ member := absurd member List.not_mem_nil
  asked _ member := absurd member List.not_mem_nil
  once _ := List.nodup_nil

theorem asked_moves {channel later : Channel} {label : RpcChannel.Label} {asked : List RequestMsg}
    (stepped : RpcChannel.step channel label = some later)
    (before : ∀ req ∈ asked, ∃ i, (channel.calls i).id = some req.id ∧ req = requestOf wanted i req.id ∧
      5 ≤ rank (channel.calls i).phase) :
    ∀ req ∈ asked, ∃ i, (later.calls i).id = some req.id ∧ req = requestOf wanted i req.id ∧ 5 ≤ rank (later.calls i).phase := by
  intro req member
  obtain ⟨i, has, same, far⟩ := before req member
  obtain ⟨forward, ⟨-, id⟩ | ⟨-, ready, -⟩⟩ := step_advances stepped i
  · exact ⟨i, id.trans has, same, Nat.le_trans far forward⟩
  · rw [ready] at far
    exact absurd far (by decide)

/-- A request that is written is the call's own, which had not been written. -/
theorem writes_some {channel : Channel} {label : RpcChannel.Label} (stepped : RpcChannel.step s.channel label = some channel)
    {req : RequestMsg} (wrote : s.writes wanted label = some req) :
    ∃ i, label = .write i none ∧ (s.channel.calls i).id = some req.id ∧ req = requestOf wanted i req.id ∧
      rank (s.channel.calls i).phase = 4 ∧ rank (channel.calls i).phase = 5 := by
  unfold Trip.writes at wrote
  split at wrote
  · rename_i i
    obtain ⟨id, has, rfl⟩ := Option.map_eq_some_iff.1 wrote
    cases RpcChannel.step_effect stepped with
    | written registered =>
      refine ⟨i, rfl, has, rfl, by rw [registered]; rfl, ?_⟩
      rw [Channel.setPhase, setCall_self]
      rfl
  · cases wrote

theorem Effect.channel {label : Label ω} (effect : Effect wanted dispatch s label t) :
    (t.channel = s.channel ∧ t.order = s.order) ∨
    ∃ own, RpcChannel.step s.channel own = some t.channel ∧ t.order = s.order ++ allocates own := by
  cases effect with
  | @called own channel stepped other => exact .inr ⟨own, by rw [put_channel]; exact stepped, put_order _ _⟩
  | received first stepped => exact .inr ⟨_, stepped, (List.append_nil s.order).symm⟩
  | stopped ended stepped => exact .inr ⟨_, stepped, (List.append_nil s.order).symm⟩
  | _ => exact .inl ⟨rfl, rfl⟩

theorem Effect.moves {label : Label ω} (effect : Effect wanted dispatch s label t) : s.calls.Moves t.calls := by
  cases effect with
  | @called own channel stepped other =>
    have same : (s.moved own channel).calls = s.calls := by
      unfold Trip.calls Trip.moved
      dsimp only
      rw [arrived_same stepped (fun msg => other _)]
    rw [← same]
    cases s.writes wanted own with
    | none => exact .stays
    | some req => exact .ask req
  | @received resp rest channel first stepped =>
    have taken : answersIn channel.arrived = s.calls.taken ++ [resp] := by
      rw [arrived_read stepped, answersIn_append]
      rfl
    unfold Trip.calls
    dsimp only
    rw [taken]
    exact .take first
  | @stopped result channel ended stepped =>
    unfold Trip.calls
    dsimp only
    rw [arrived_same stepped (fun msg same => ended msg (RpcChannel.Label.read.inj same))]
    exact .stays
  | accepted before =>
    have idle : s.loop.request = none := by rw [before, unaccepted_request]
    unfold Trip.calls
    rw [idle]
    exact .stays
  | read idle first =>
    have free : s.calls.serving = none := by
      show s.loop.request = none
      rw [idle, reading_request]
    exact .start free first
  | @worked req update next busy =>
    have serving : s.loop.request = some req := by rw [busy, serving_request]
    unfold Trip.calls
    rw [serving]
    exact .stays
  | @finished req outcome done =>
    have serving : s.calls.serving = some req := by
      show s.loop.request = some req
      rw [done, serving_request]
    exact .answer (responseOf req.id outcome) serving
  | left idle =>
    have free : s.loop.request = none := by rw [idle, reading_request]
    unfold Trip.calls
    rw [free]
    exact .stays
  | other update => exact .stays
  | severUp kept => exact .severUp kept
  | severDown kept => exact .severDown kept

theorem Effect.fits {label : Label ω} (fits : ∀ req, (dispatch req).Gives (Fits req.id))
    (serving : ∀ req chain, s.loop = .serving req chain → chain.Gives (Fits req.id))
    (served : ∀ pair ∈ s.served, pair.2.id = pair.1.id) (effect : Effect wanted dispatch s label t) :
    (∀ req chain, t.loop = .serving req chain → chain.Gives (Fits req.id)) ∧ ∀ pair ∈ t.served, pair.2.id = pair.1.id := by
  cases effect with
  | called stepped other =>
    rw [put_loop, put_served]
    exact ⟨serving, served⟩
  | accepted before => exact ⟨fun req chain busy => (by cases busy), served⟩
  | read idle first =>
    refine ⟨fun req chain busy => ?_, served⟩
    cases busy
    exact fits _
  | worked busy =>
    refine ⟨fun req chain later => ?_, served⟩
    cases later
    exact serving _ _ busy s.world
  | @finished req outcome done =>
    refine ⟨fun req chain busy => (by cases busy), fun pair member => ?_⟩
    rcases List.mem_append.1 member with old | new
    · exact served pair old
    · rw [List.mem_singleton.1 new]
      exact responseOf_fits (serving req _ done)
  | left idle => exact ⟨fun req chain busy => (by cases busy), served⟩
  | _ => exact ⟨serving, served⟩

theorem Effect.asks {label : Label ω} (kept : Kept wanted s) (effect : Effect wanted dispatch s label t) :
    (∀ req ∈ t.asked, ∃ i, (t.channel.calls i).id = some req.id ∧ req = requestOf wanted i req.id ∧
      5 ≤ rank (t.channel.calls i).phase) ∧
    (t.order.length < 2 ^ 64 → (t.asked.map RequestMsg.id).Nodup) := by
  cases effect with
  | @called own channel stepped other =>
    have old := asked_moves stepped kept.asked
    cases wrote : s.writes wanted own with
    | none =>
      refine ⟨old, fun few => kept.once (Nat.lt_of_le_of_lt ?_ few)⟩
      exact (List.prefix_append _ _).length_le
    | some req =>
      obtain ⟨i, rfl, has, same, before, after⟩ := writes_some stepped wrote
      have id : (channel.calls i).id = some req.id := by
        rcases (step_advances stepped i).2 with ⟨-, keeps⟩ | ⟨takes, -⟩
        · exact keeps.trans has
        · cases takes
      refine ⟨fun other member => ?_, fun few => ?_⟩
      · rcases List.mem_append.1 member with first | last
        · exact old other first
        · rw [List.mem_singleton.1 last]
          exact ⟨i, id, same, Nat.le_of_eq after.symm⟩
      · have within : s.order.length < 2 ^ 64 := Nat.lt_of_le_of_lt (List.prefix_append _ _).length_le few
        show ((s.asked ++ [req]).map RequestMsg.id).Nodup
        rw [List.map_append, List.map_singleton]
        refine List.Nodup.append (kept.once within) (List.nodup_singleton _) ?_
        rw [List.disjoint_singleton]
        intro already
        obtain ⟨written, member, key⟩ := List.mem_map.1 already
        obtain ⟨j, owner, -, far⟩ := kept.asked written member
        rw [key] at owner
        rw [kept.numbered.apart within owner has, before] at far
        exact absurd far (by decide)
  | received first stepped => exact ⟨asked_moves stepped kept.asked, kept.once⟩
  | stopped ended stepped => exact ⟨asked_moves stepped kept.asked, kept.once⟩
  | _ => exact ⟨kept.asked, kept.once⟩

theorem step_kept (fits : ∀ req, (dispatch req).Gives (Fits req.id)) (s : Trip ω) (label : Label ω) (t : Trip ω)
    (kept : Kept wanted s) (stepped : step wanted dispatch s label = some t) : Kept wanted t := by
  have effect := step_effect stepped
  obtain ⟨asked, once⟩ := effect.asks kept
  obtain ⟨serving, served⟩ := effect.fits fits kept.serving kept.served
  obtain ⟨tracked, numbered⟩ : Tracked t.channel ∧ Numbered t.channel t.order := by
    rcases effect.channel with ⟨channel, order⟩ | ⟨own, moved, order⟩
    · rw [channel, order]
      exact ⟨kept.tracked, kept.numbered⟩
    · rw [order]
      exact ⟨step_tracked _ own _ kept.tracked moved, kept.numbered.step moved⟩
  exact ⟨tracked, numbered, kept.balanced.moves effect.moves, serving, served, asked, once⟩

theorem chained_gives (clock : Clock ω) {router : Router ω} {session : SessionId}
    (keeps : ∀ entry ∈ router.middlewares, KeepsIds session entry.2) (req : RequestMsg) :
    (chained clock router session req).Gives (Fits req.id) := by
  rw [chained, runChain_eq_onion]
  refine onion_gives (fun msg asks => rpcTerminal_gives router session asks) ?_ ⟨req, rfl, rfl⟩
  intro mw member msg asks
  obtain ⟨entry, there, rfl⟩ := List.mem_map.1 member
  exact keeps entry there _ msg asks

theorem chained_bare (clock : Clock ω) {router : Router ω} (session : SessionId) (bare : router.middlewares = []) :
    chained clock router session = fun req => rpcTerminal router session (.request req) := by
  funext req
  rw [chained, runChain_eq_onion, bare]
  rfl

/-- Whatever handlers the peer's router holds, its calls do not get in each other's way. In every
run, with calls that time out and losses in either direction, each request written is one call's own
and is dispatched at most once, in the order of writing; the responses come back in that order; and
a call that returns an answer of the peer returns the one given to its own request. -/
theorem calls_get_own_answers {clock : Clock ω} {router : Router ω} {session : SessionId} {world : World ω}
    (keeps : ∀ entry ∈ router.middlewares, KeepsIds session entry.2)
    (reached : Reachable (step wanted (chained clock router session)) (.init world) s) (few : s.order.length < 2 ^ 64) :
    s.served.map Prod.fst <+: s.asked ∧ (s.asked.map RequestMsg.id).Nodup ∧
    (∀ req ∈ s.asked, ∃ i, (s.channel.calls i).id = some req.id ∧ req = requestOf wanted i req.id) ∧
    (∀ (k : Nat) (resp : ResponseMsg), (answersIn s.channel.arrived)[k]? = some resp →
      ∃ req, s.asked[k]? = some req ∧ s.served[k]? = some (req, resp)) ∧
    ∀ i result, (s.channel.calls i).phase = .returned result → Answer result →
      ∃ id resp, (s.channel.calls i).id = some id ∧ (requestOf wanted i id, resp) ∈ s.served ∧ settle resp = result := by
  have kept := reached.invariant (init_kept wanted world) (step_kept (chained_gives clock keeps))
  refine ⟨kept.balanced.served_prefix, kept.once few, ?_, fun k resp taken => kept.balanced.taken_in_order taken, ?_⟩
  · intro req member
    obtain ⟨i, has, own, -⟩ := kept.asked req member
    exact ⟨i, has, own⟩
  · intro i result returned answer
    have sound := kept.tracked.sound i
    obtain ⟨q, resp, source, found, settled⟩ := sound.returned result returned answer
    obtain ⟨other, n, again, id, -⟩ := sound.sourced q source
    rw [found] at again
    cases again
    have taken : resp ∈ s.calls.taken := List.mem_filterMap.2 ⟨_, List.mem_of_getElem? found, rfl⟩
    obtain ⟨req, member, given⟩ := kept.balanced.taken_served taken
    obtain ⟨j, has, own, -⟩ := kept.asked req member
    have fits : resp.id = req.id := kept.served _ given
    rw [← fits] at has own
    have same := kept.numbered.apart few id has
    rw [← same] at own
    exact ⟨resp.id, resp, id, own ▸ given, settled⟩

private def repeating : Router Unit := (Router.new.addRpc ⟨"echo", fun _ payload => pure (.ok payload)⟩).1

private def numbers (i : Nat) : String × Bytes := ("echo", [UInt8.ofNat i])

/-- Two calls, of which the one that writes first has timed out when its answer comes. -/
private def crossing : List (Label Unit) :=
  [.call (.enter 0), .call (.opened 0 none), .call (.enter 1), .call (.allocate 1), .call (.allocate 0),
    .call (.register 0), .call (.register 1), .call (.write 0 none), .call (.write 1 none), .accept,
    .read, .work, .work, .finish, .call (.expire 0), .call (.abandon 0), .read, .work, .work, .finish,
    .receive, .receive, .call .deliver, .call (.complete 1)]

theorem calls_get_own_answers_crossing : ∃ s,
    run (step numbers (chained (fun _ _ => false) repeating 1)) (.init ⟨⟨fun _ _ => none, ()⟩, [], [], []⟩) crossing = some s ∧
    (s.channel.calls 0).phase = .returned (.error (.timeout 2)) ∧
    ∃ id resp, (s.channel.calls 1).id = some id ∧ (requestOf numbers 1 id, resp) ∈ s.served ∧ settle resp = .ok [1] := by
  obtain ⟨s, ran, few, first, second⟩ : ∃ s,
      run (step numbers (chained (fun _ _ => false) repeating 1)) (.init ⟨⟨fun _ _ => none, ()⟩, [], [], []⟩) crossing = some s ∧
      s.order.length < 2 ^ 64 ∧ (s.channel.calls 0).phase = .returned (.error (.timeout 2)) ∧
      (s.channel.calls 1).phase = .returned (.ok [1]) := by
    rw [chained_bare _ _ rfl]
    exact ⟨_, rfl, by decide, rfl, rfl⟩
  obtain ⟨-, -, -, -, own⟩ := calls_get_own_answers (fun entry member => absurd member List.not_mem_nil) ⟨_, ran⟩ few
  exact ⟨s, ran, first, own 1 (.ok [1]) second trivial⟩

end Trips

end EchoStream.Core.MuxedTrip
