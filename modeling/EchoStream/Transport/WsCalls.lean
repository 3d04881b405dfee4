import Mathlib.Logic.Function.Basic
import EchoStream.Core.ChannelSwitch
import EchoStream.Transport.WsLink

/-! Requests of the server to a client in the browser. A stream of a WebSocket cannot be
split, so a small request finds no channel and is not sent. A large one is sent like any
other message of the server, and the client serves it, but nothing can be read from the
stream it was sent on, and the response of the client is dropped by the connection loop. -/

namespace EchoStream.Transport.WsCalls
open Foundation.Run Foundation.Tasks Foundation.Queues
open Proto.Messages
open Core.Handler Core.Chain Core.Dispatch Core.StateMachine WsLink

def notSplit : Error := .protocol "该流不支持拆分"
def notRead : Error := .protocol "WebSocket 只写流不支持读取"

inductive Phase where
  | numbered
  | written
  | returned (result : Result Bytes)

/-- A call, and the place of its id among the ids of the session if it has one. -/
structure Call where
  name : String
  payload : Bytes
  place : Option Nat
  phase : Phase

def idAt (place : Nat) : UInt64 := UInt64.ofNat (place + 1)

variable {ω : Type}

/-- The connection with the calls of the server, the requests that were written with the
calls they are of, and those that the client took. -/
structure State (ω : Type) where
  link : Link ω
  nextMsgId : UInt64
  taken : Nat
  calls : Nat → Option Call
  written : List (Nat × RequestMsg)
  arrived : List RequestMsg

def State.init (app : App ω) : State ω := ⟨.init app, 1, 0, fun _ => none, [], []⟩

inductive Label (ω : Type) where
  | link (label : WsLink.Label ω)
  | takeId
  | begin (i : Nat) (name : String) (payload : Bytes)
  | write (i : Nat) (failure : Option String)
  | conclude (i : Nat)

namespace State

def setCall (s : State ω) (i : Nat) (call : Call) : State ω := { s with calls := Function.update s.calls i (some call) }

def takeId (s : State ω) : State ω := { s with nextMsgId := s.nextMsgId + 1, taken := s.taken + 1 }

def arriving (s : State ω) : WsLink.Label ω → Option RequestMsg
  | .deliver => s.link.down.items.head?.bind requestIn
  | _ => none

/-- Anything else on the connection. All requests of the server are those of the calls. -/
def connection (clock : Clock ω) (router : Router ω) (session : SessionId) (s : State ω) (label : WsLink.Label ω) :
    Option (State ω) :=
  match label with
  | .push (.request _) => none
  | _ => (WsLink.step clock router session s.link label).map (fun link =>
      { s with link, arrived := s.arrived ++ (s.arriving label).toList })

def begin (s : State ω) (i : Nat) (name : String) (payload : Bytes) : Option (State ω) :=
  match s.calls i with
  | none =>
      if payload.length ≤ Core.ChannelSwitch.rpcChannelMaxPayload then
        some (s.setCall i ⟨name, payload, none, .returned (.error notSplit)⟩)
      else some (s.takeId.setCall i ⟨name, payload, some s.taken, .numbered⟩)
  | some _ => none

def write (s : State ω) (i : Nat) (failure : Option String) : Option (State ω) :=
  match s.calls i with
  | some ⟨name, payload, some place, .numbered⟩ =>
      match failure with
      | some text => some (s.setCall i ⟨name, payload, some place, .returned (.error (.io text))⟩)
      | none =>
          let req : RequestMsg := ⟨idAt place, name, payload⟩
          some { s.setCall i ⟨name, payload, some place, .written⟩ with
            link := { s.link with down := s.link.down.put (.request req) }
            written := s.written ++ [(i, req)] }
  | _ => none

/-- Reading fails at once, before any time limit. -/
def conclude (s : State ω) (i : Nat) : Option (State ω) :=
  match s.calls i with
  | some ⟨name, payload, some place, .written⟩ =>
      some (s.setCall i ⟨name, payload, some place, .returned (.error notRead)⟩)
  | _ => none

end State

def step (clock : Clock ω) (router : Router ω) (session : SessionId) : Step (State ω) (Label ω)
  | s, .link label => s.connection clock router session label
  | s, .takeId => some s.takeId
  | s, .begin i name payload => s.begin i name payload
  | s, .write i failure => s.write i failure
  | s, .conclude i => s.conclude i

def rpcCalls (calls : List Core.StateMachine.Call) : List (UInt64 × Bytes) :=
  calls.filterMap (fun
    | .rpc _ id data => some (id, data)
    | _ => none)

def idAndData (req : RequestMsg) : UInt64 × Bytes := (req.id, req.data)

/-- What a call can come to, with what was written for it. -/
def Fair (written : List (Nat × RequestMsg)) (i : Nat) (call : Call) : Prop :=
  match call.place, call.phase with
  | none, phase =>
      call.payload.length ≤ Core.ChannelSwitch.rpcChannelMaxPayload ∧ phase = .returned (.error notSplit) ∧
        ∀ entry ∈ written, entry.1 ≠ i
  | some _, .numbered =>
      Core.ChannelSwitch.rpcChannelMaxPayload < call.payload.length ∧ ∀ entry ∈ written, entry.1 ≠ i
  | some place, .written =>
      Core.ChannelSwitch.rpcChannelMaxPayload < call.payload.length ∧ (i, ⟨idAt place, call.name, call.payload⟩) ∈ written
  | some place, .returned result =>
      Core.ChannelSwitch.rpcChannelMaxPayload < call.payload.length ∧
        (result = .error notRead ∧ (i, ⟨idAt place, call.name, call.payload⟩) ∈ written ∨
          ∃ text, result = .error (.io text) ∧ ∀ entry ∈ written, entry.1 ≠ i)

structure Kept (router : Router ω) (session : SessionId) (s : State ω) : Prop where
  link : WsLink.Kept router session s.link
  next : s.nextMsgId = idAt s.taken
  carries : Carries (s.written.map Prod.snd) s.arrived (s.link.down.only requestIn)
  served : (rpcCalls s.link.browser.calls).Sublist (s.arrived.map idAndData)
  fair : ∀ i call, s.calls i = some call → Fair s.written i call
  known : ∀ entry ∈ s.written, ∃ call place, s.calls entry.1 = some call ∧ call.place = some place ∧ entry.2.id = idAt place
  once : (s.written.map Prod.fst).Nodup
  places : ∀ i call place, s.calls i = some call → call.place = some place → place < s.taken
  apart : ∀ i j call other place, s.calls i = some call → s.calls j = some other → call.place = some place →
    other.place = some place → i = j

variable {clock : Clock ω} {router : Router ω} {session : SessionId} {s t : State ω} {i : Nat}

theorem sends_down (link : Link ω) (frame : Option Message) : (link.sends frame).down = link.down := by
  cases frame <;> rfl

theorem rpcCalls_append (calls more : List Core.StateMachine.Call) : rpcCalls (calls ++ more) = rpcCalls calls ++ rpcCalls more :=
  List.filterMap_append

theorem acts_calls {browser later : Client} {op : Operation}
    (ran : run (Core.StateMachine.step Proto.Postcard.wire) browser op.acts = some later) : later.calls = browser.calls := by
  cases op <;> cases ran <;> rfl

theorem inbound_rpcCalls (browser : Client) (msg : Message) :
    (rpcCalls (browser.inbound msg).calls).Sublist
      (rpcCalls browser.calls ++ ((requestIn msg).map idAndData).toList) := by
  have grown : (browser.inbound msg).calls = browser.calls ++ (browser.core.handleInbound msg).1.1 := rfl
  rw [grown, rpcCalls_append]
  refine (List.Sublist.refl _).append ?_
  cases msg with
  | request req =>
    unfold ClientCore.handleInbound
    dsimp only
    cases browser.core.rpcs.lookup req.name with
    | none => exact List.nil_sublist _
    | some entry => exact .refl _
  | event event =>
    have none_of : rpcCalls ((browser.core.handleInbound (.event event)).1.1) = [] := by
      rw [rpcCalls, List.filterMap_eq_nil_iff]
      intro call member
      obtain ⟨listener, -, rfl⟩ := List.mem_map.1 member
      rfl
    rw [none_of]
    exact .refl _
  | response resp =>
    unfold ClientCore.handleInbound
    dsimp only
    cases browser.core.pending.lookup resp.id <;> exact .refl _
  | streamOpen opened => exact .refl _
  | stream frame =>
    unfold ClientCore.handleInbound
    dsimp only
    cases browser.core.streamListener frame.id <;> exact .refl _
  | streamEnd ended =>
    unfold ClientCore.handleInbound
    dsimp only
    split <;> exact .refl _

theorem arrived_same (label : WsLink.Label ω) (quiet : s.arriving label = none) :
    s.arrived ++ (s.arriving label).toList = s.arrived := by
  rw [quiet]
  exact List.append_nil _

/-- Along the connection requests come out as they were put in, and listeners are called for those only. -/
theorem link_served {label : WsLink.Label ω} {link : Link ω} (kept : Kept router session s)
    (other : ∀ req, label ≠ .push (.request req)) (effect : Effect clock router session s.link label link) :
    Carries (s.written.map Prod.snd) (s.arrived ++ (s.arriving label).toList) (link.down.only requestIn) ∧
      (rpcCalls link.browser.calls).Sublist ((s.arrived ++ (s.arriving label).toList).map idAndData) := by
  have carries := kept.carries
  have served := kept.served
  cases effect with
  | @performed op browser ran =>
    rw [sends_down, sends_browser, acts_calls ran, arrived_same (.perform op) rfl]
    exact ⟨carries, served⟩
  | @delivered msg rest first =>
    have next : s.arriving .deliver = requestIn msg := by
      rw [State.arriving, first]
      rfl
    rw [sends_down, sends_browser, next]
    constructor
    · cases picked : requestIn msg with
      | none =>
        have same : ({ s.link.down with items := rest } : Pipe Message).only requestIn = s.link.down.only requestIn := by
          rw [Pipe.only, Pipe.only, first, List.filterMap_cons_none picked]
        rw [same, Option.toList_none, List.append_nil]
        exact carries
      | some req =>
        have items : (s.link.down.only requestIn).items = req :: rest.filterMap requestIn := by
          rw [Pipe.only, first, List.filterMap_cons_some picked]
        exact carries.take items
    · refine (inbound_rpcCalls s.link.browser msg).trans ?_
      rw [List.map_append]
      refine served.append ?_
      cases requestIn msg <;> exact .refl _
  | answered done =>
    obtain ⟨resp, rfl, -⟩ := kept.link.answering _ _ done
    rw [Pipe.only_put_none rfl, arrived_same .finish rfl]
    exact ⟨carries, served⟩
  | @pushed msg unsolicited =>
    have silent : requestIn msg = none := by
      cases msg with
      | request req => exact absurd rfl (other req)
      | _ => rfl
    rw [Pipe.only_put_none silent, arrived_same (.push msg) rfl]
    exact ⟨carries, served⟩
  | severDown cut =>
    obtain ⟨seen, same⟩ := Pipe.only_sever requestIn s.link.down cut
    rw [same, arrived_same (.severDown cut) rfl]
    exact ⟨carries.sever seen, served⟩
  | read idle first =>
    rw [arrived_same .read rfl]
    exact ⟨carries, served⟩
  | responding busy =>
    rw [arrived_same .work rfl]
    exact ⟨carries, served⟩
  | dispatching busy =>
    rw [arrived_same .work rfl]
    exact ⟨carries, served⟩
  | dispatched done =>
    rw [arrived_same .finish rfl]
    exact ⟨carries, served⟩
  | other update =>
    rw [arrived_same (.other update) rfl]
    exact ⟨carries, served⟩
  | severUp cut =>
    rw [arrived_same (.severUp cut) rfl]
    exact ⟨carries, served⟩

theorem connection_kept {label : WsLink.Label ω} (kept : Kept router session s)
    (stepped : s.connection clock router session label = some t) : Kept router session t := by
  unfold State.connection at stepped
  split at stepped
  · cases stepped
  · rename_i other
    obtain ⟨link, moved, rfl⟩ := Option.map_eq_some_iff.1 stepped
    obtain ⟨carries, served⟩ := link_served kept (fun req same => other req same) (step_effect moved)
    exact { kept with link := WsLink.step_kept _ _ _ kept.link moved, carries, served }

theorem Fair.append {written more : List (Nat × RequestMsg)} {call : Call} (fair : Fair written i call)
    (foreign : ∀ entry ∈ more, entry.1 ≠ i) : Fair (written ++ more) i call := by
  have still : (∀ entry ∈ written, entry.1 ≠ i) → ∀ entry ∈ written ++ more, entry.1 ≠ i :=
    fun unwritten entry member => (List.mem_append.1 member).elim (unwritten entry) (foreign entry)
  obtain ⟨name, payload, place, phase⟩ := call
  cases place with
  | none => exact ⟨fair.1, fair.2.1, still fair.2.2⟩
  | some place =>
    cases phase with
    | numbered => exact ⟨fair.1, still fair.2⟩
    | written => exact ⟨fair.1, List.mem_append_left _ fair.2⟩
    | returned result =>
      refine ⟨fair.1, fair.2.imp ?_ ?_⟩
      · exact fun ⟨same, member⟩ => ⟨same, List.mem_append_left _ member⟩
      · exact fun ⟨text, same, unwritten⟩ => ⟨text, same, still unwritten⟩

theorem Kept.change (kept : Kept router session s) {call : Call} {more : List (Nat × RequestMsg)}
    (calls : t.calls = Function.update s.calls i (some call)) (written : t.written = s.written ++ more)
    (link : WsLink.Kept router session t.link) (next : t.nextMsgId = idAt t.taken) (taken : s.taken ≤ t.taken)
    (carries : Carries (t.written.map Prod.snd) t.arrived (t.link.down.only requestIn))
    (served : (rpcCalls t.link.browser.calls).Sublist (t.arrived.map idAndData))
    (own : ∀ entry ∈ more, entry.1 = i ∧ ∃ place, call.place = some place ∧ entry.2.id = idAt place)
    (fair : Fair t.written i call) (once : (t.written.map Prod.fst).Nodup)
    (same : ∀ old, s.calls i = some old → call.place = old.place)
    (place : ∀ place, call.place = some place → place < t.taken ∧ ∀ j other, j ≠ i → s.calls j = some other →
      other.place ≠ some place) : Kept router session t := by
  have at_i : t.calls i = some call := by rw [calls, Function.update_self]
  have at_other : ∀ j, j ≠ i → t.calls j = s.calls j := by
    intro j differ
    rw [calls, Function.update_of_ne differ]
  refine ⟨link, next, carries, served, ?_, ?_, once, ?_, ?_⟩
  · intro j other there
    by_cases at_j : j = i
    · rw [at_j, at_i] at there
      cases there
      exact at_j ▸ fair
    · rw [at_other j at_j] at there
      rw [written]
      refine (kept.fair j other there).append fun entry member differ => at_j ?_
      rw [← differ, (own entry member).1]
  · intro entry member
    rw [written] at member
    rcases List.mem_append.1 member with old | new
    · obtain ⟨other, place, there, placed, id⟩ := kept.known entry old
      by_cases at_entry : entry.1 = i
      · rw [at_entry] at there ⊢
        exact ⟨call, place, at_i, (same other there).trans placed, id⟩
      · exact ⟨other, place, (at_other _ at_entry).trans there, placed, id⟩
    · obtain ⟨is_i, place, placed, id⟩ := own entry new
      exact ⟨call, place, is_i ▸ at_i, placed, id⟩
  · intro j other found there placed
    by_cases at_j : j = i
    · rw [at_j, at_i] at there
      cases there
      exact (place found placed).1
    · rw [at_other j at_j] at there
      exact Nat.lt_of_lt_of_le (kept.places j other found there placed) taken
  · intro j k first second found here there placed also
    by_cases at_j : j = i
    · by_cases at_k : k = i
      · rw [at_j, at_k]
      · rw [at_j, at_i] at here
        cases here
        rw [at_other k at_k] at there
        exact absurd also ((place found placed).2 k second at_k there)
    · rw [at_other j at_j] at here
      by_cases at_k : k = i
      · rw [at_k, at_i] at there
        cases there
        exact absurd placed ((place found also).2 j first at_j here)
      · rw [at_other k at_k] at there
        exact kept.apart j k first second found here there placed also

theorem begin_kept {name : String} {payload : Bytes} (kept : Kept router session s)
    (stepped : s.begin i name payload = some t) : Kept router session t := by
  unfold State.begin at stepped
  split at stepped
  · rename_i absent
    have unwritten : ∀ entry ∈ s.written, entry.1 ≠ i := by
      rintro entry member rfl
      obtain ⟨call, place, there, -⟩ := kept.known entry member
      rw [absent] at there
      cases there
    have fresh : ∀ old, s.calls i = some old → ∀ {goal : Prop}, goal := by
      intro old there
      rw [absent] at there
      cases there
    split at stepped
    · rename_i small
      cases stepped
      exact kept.change rfl (List.append_nil _).symm kept.link kept.next (Nat.le_refl _) kept.carries kept.served
        (fun _ member => absurd member List.not_mem_nil) ⟨small, rfl, unwritten⟩ kept.once (fun old there => fresh old there)
        (fun _ placed => by cases placed)
    · rename_i large
      cases stepped
      refine kept.change rfl (List.append_nil _).symm kept.link ?_ (Nat.le_succ _) kept.carries kept.served
        (fun _ member => absurd member List.not_mem_nil) ⟨Nat.lt_of_not_le large, unwritten⟩ kept.once
        (fun old there => fresh old there) ?_
      · show s.nextMsgId + 1 = idAt (s.taken + 1)
        rw [kept.next, idAt, idAt, UInt64.ofNat_add (s.taken + 1) 1]
        rfl
      · rintro place placed
        cases placed
        refine ⟨Nat.lt_succ_self _, fun j other _ there placed => ?_⟩
        exact Nat.lt_irrefl _ (kept.places j other _ there placed)
  · cases stepped

theorem write_kept {failure : Option String} (kept : Kept router session s) (stepped : s.write i failure = some t) :
    Kept router session t := by
  unfold State.write at stepped
  split at stepped
  · rename_i name payload place here
    have fair := kept.fair i _ here
    have alone : ∀ j other, j ≠ i → s.calls j = some other → other.place ≠ some place :=
      fun j other differ there placed => differ (kept.apart j i _ _ place there here placed rfl)
    have bound := kept.places i _ place here rfl
    have keeps : ∀ old, s.calls i = some old → some place = old.place := by
      intro old there
      rw [here] at there
      cases there
      rfl
    split at stepped
    · rename_i text
      cases stepped
      refine kept.change rfl (List.append_nil _).symm kept.link kept.next (Nat.le_refl _) kept.carries kept.served
        (fun _ member => absurd member List.not_mem_nil) ⟨fair.1, .inr ⟨text, rfl, fair.2⟩⟩ kept.once keeps ?_
      rintro other ⟨⟩
      exact ⟨bound, alone⟩
    · cases stepped
      refine kept.change rfl rfl ?_ kept.next (Nat.le_refl _) ?_ kept.served ?_ ⟨fair.1, ?_⟩ ?_ keeps ?_
      · have pushed : WsLink.step (fun _ _ => false) router session s.link (.push (.request ⟨idAt place, name, payload⟩)) =
            some { s.link with down := s.link.down.put (.request ⟨idAt place, name, payload⟩) } := rfl
        exact WsLink.step_kept _ _ _ kept.link pushed
      · show Carries ((s.written ++ [_]).map Prod.snd) s.arrived ((s.link.down.put _).only requestIn)
        have picked : requestIn (.request ⟨idAt place, name, payload⟩) = some ⟨idAt place, name, payload⟩ := rfl
        rw [List.map_append, Pipe.only_put_some picked]
        exact kept.carries.put _
      · intro entry member
        rw [List.mem_singleton.1 member]
        exact ⟨rfl, place, rfl, rfl⟩
      · exact List.mem_append_right _ (List.mem_singleton_self _)
      · show ((s.written ++ [_]).map Prod.fst).Nodup
        rw [List.map_append]
        refine List.nodup_append.2 ⟨kept.once, List.nodup_singleton _, ?_⟩
        intro other among last is_last same
        obtain ⟨entry, member, rfl⟩ := List.mem_map.1 among
        exact fair.2 entry member (same.trans (List.mem_singleton.1 is_last))
      · rintro other ⟨⟩
        exact ⟨bound, alone⟩
  · cases stepped

theorem conclude_kept (kept : Kept router session s) (stepped : s.conclude i = some t) : Kept router session t := by
  unfold State.conclude at stepped
  split at stepped
  · rename_i name payload place here
    cases stepped
    have fair := kept.fair i _ here
    refine kept.change rfl (List.append_nil _).symm kept.link kept.next (Nat.le_refl _) kept.carries kept.served
      (fun _ member => absurd member List.not_mem_nil) ⟨fair.1, .inl ⟨rfl, fair.2⟩⟩ kept.once ?_ ?_
    · intro old there
      rw [here] at there
      cases there
      rfl
    · rintro other ⟨⟩
      exact ⟨kept.places i _ place here rfl,
        fun j other differ there placed => differ (kept.apart j i _ _ place there here placed rfl)⟩
  · cases stepped

theorem init_kept (router : Router ω) (session : SessionId) (app : App ω) : Kept router session (.init app) where
  link := WsLink.init_kept router session app
  next := rfl
  carries := .empty
  served := .refl _
  fair _ _ there := by cases there
  known _ member := absurd member List.not_mem_nil
  once := List.nodup_nil
  places _ _ _ there := by cases there
  apart _ _ _ _ _ there := by cases there

theorem step_kept (s : State ω) (label : Label ω) (t : State ω) (kept : Kept router session s)
    (stepped : step clock router session s label = some t) : Kept router session t := by
  cases label with
  | link label => exact connection_kept kept stepped
  | takeId =>
    cases stepped
    refine { kept with next := ?_, places := fun i call place there placed => Nat.lt_succ_of_lt (kept.places i call place there placed) }
    show s.nextMsgId + 1 = idAt (s.taken + 1)
    rw [kept.next, idAt, idAt, UInt64.ofNat_add (s.taken + 1) 1]
    rfl
  | begin i name payload => exact begin_kept kept stepped
  | write i failure => exact write_kept kept stepped
  | conclude i => exact conclude_kept kept stepped

theorem Kept.ids (kept : Kept router session s) (few : s.taken < 2 ^ 64) : (s.written.map (fun entry => entry.2.id)).Nodup := by
  have once := kept.once
  refine List.Nodup.map_on ?_ (List.Nodup.of_map _ once)
  intro first one second two same
  obtain ⟨call, place, here, placed, id⟩ := kept.known first one
  obtain ⟨other, place', there, placed', id'⟩ := kept.known second two
  have low := kept.places _ call place here placed
  have high := kept.places _ other place' there placed'
  have equal : place = place' := by
    rw [id, id', idAt, idAt] at same
    have same := congrArg UInt64.toNat same
    rw [UInt64.toNat_ofNat', UInt64.toNat_ofNat'] at same
    omega
  have calls := kept.apart first.1 second.1 call other place here there placed (equal ▸ placed')
  exact List.inj_on_of_nodup_map once one two calls

/-- What a call of the server returns: an error that does not depend on the client. Only a large
request can have been written. -/
def Refused (written : List (Nat × RequestMsg)) (i : Nat) (call : Call) (result : Result Bytes) : Prop :=
  if call.payload.length ≤ Core.ChannelSwitch.rpcChannelMaxPayload then
    result = .error notSplit ∧ ∀ entry ∈ written, entry.1 ≠ i
  else
    result = .error notRead ∧ (∃ req, (i, req) ∈ written ∧ req.name = call.name ∧ req.data = call.payload) ∨
      ∃ text, result = .error (.io text) ∧ ∀ entry ∈ written, entry.1 ≠ i

theorem Fair.refused {written : List (Nat × RequestMsg)} {call : Call} (fair : Fair written i call) {result : Result Bytes}
    (returned : call.phase = .returned result) : Refused written i call result := by
  obtain ⟨name, payload, place, phase⟩ := call
  cases returned
  unfold Refused
  cases place with
  | none =>
    rw [if_pos fair.1]
    exact ⟨Phase.returned.inj fair.2.1, fair.2.2⟩
  | some place =>
    rw [if_neg (Nat.not_le_of_lt fair.1)]
    refine fair.2.imp (fun ⟨same, member⟩ => ⟨same, _, member, rfl, rfl⟩) id

/-- Whatever the client and the server do meanwhile, a request of the server to a client that is
connected by a WebSocket ends with an error. A small one is never sent. A large one is sent once at most,
the client takes such requests in the order in which they were written and calls a listener for
each once at most, and no answer of the client reaches the call. -/
theorem server_calls_refused {app : App ω} (reached : Reachable (step clock router session) (.init app) s) :
    (∀ i call result, s.calls i = some call → call.phase = .returned result → Refused s.written i call result) ∧
    (s.written.map Prod.fst).Nodup ∧ (s.taken < 2 ^ 64 → (s.written.map (fun entry => entry.2.id)).Nodup) ∧
    s.arrived <+: s.written.map Prod.snd ∧ (s.link.down = .empty → s.arrived = s.written.map Prod.snd) ∧
    (rpcCalls s.link.browser.calls).Sublist (s.arrived.map idAndData) := by
  have kept := reached.invariant (init_kept router session app) step_kept
  refine ⟨fun i call result here returned => (kept.fair i call here).refused returned, kept.once, kept.ids,
    kept.carries.prefix, fun empty => ?_, kept.served⟩
  have all := kept.carries.whole (by rw [empty]; rfl)
  rw [empty] at all
  exact (all.trans (List.append_nil _)).symm

private def listening : State Unit :=
  ⟨{ Link.init ⟨fun _ _ => none, ()⟩ with
    browser := { Client.init with core := (ClientCore.new.onRpc "ask" (fun _ data => some data)).2 } }, 1, 0, fun _ => none, [], []⟩

private def callOnce (payload : Bytes) : List (Label Unit) :=
  [.begin 0 "ask" payload, .write 0 none, .begin 1 "ask" [1], .conclude 0, .link .deliver]

private theorem callOnce_runs {payload : Bytes} (large : ¬ payload.length ≤ Core.ChannelSwitch.rpcChannelMaxPayload) :
    ∃ s, run (step (fun _ _ => false) Router.new 1) listening (callOnce payload) = some s ∧
      s.calls 0 = some ⟨"ask", payload, some 0, .returned (.error notRead)⟩ ∧ s.written = [(0, ⟨1, "ask", payload⟩)] ∧
      rpcCalls s.link.browser.calls = [(1, payload)] := by
  have began : step (fun _ _ => false) Router.new 1 listening (.begin 0 "ask" payload) =
      some (listening.takeId.setCall 0 ⟨"ask", payload, some 0, .numbered⟩) := by
    show listening.begin 0 "ask" payload = _
    unfold State.begin
    exact if_neg large
  rw [callOnce, run_cons, began, Option.bind_some]
  exact ⟨_, rfl, rfl, rfl, rfl⟩

/-- The listener of the client has run for a request whose call got an error. -/
theorem server_calls_refused_large : ∃ s call, Reachable (step (fun _ _ => false) Router.new 1) (.init ⟨fun _ _ => none, ()⟩) s ∧
    s.calls 0 = some call ∧ Refused s.written 0 call (.error notRead) ∧ rpcCalls s.link.browser.calls = [(1, call.payload)] := by
  obtain ⟨payload, large⟩ : ∃ payload : Bytes, ¬ payload.length ≤ Core.ChannelSwitch.rpcChannelMaxPayload := by
    refine ⟨List.replicate 65537 0, ?_⟩
    rw [List.length_replicate]
    decide
  obtain ⟨s, ran, here, -, served⟩ := callOnce_runs large
  have listens : step (fun _ _ => false) Router.new 1 (.init ⟨fun _ _ => none, ()⟩)
      (.link (.perform (.onRpc "ask" (fun _ data => some data)))) = some listening := rfl
  have reached : Reachable (step (fun _ _ => false) Router.new 1) (.init ⟨fun _ _ => none, ()⟩) s := by
    refine ⟨.link (.perform (.onRpc "ask" (fun _ data => some data))) :: callOnce payload, ?_⟩
    rw [run_cons, listens]
    exact ran
  exact ⟨s, _, reached, here, (server_calls_refused reached).1 0 _ _ here rfl, served⟩

end EchoStream.Transport.WsCalls
