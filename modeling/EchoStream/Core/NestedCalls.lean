import Mathlib.Logic.Function.Basic
import EchoStream.Foundation.Run

/-! Calls within calls. Between two peers there are two RPC channels, one for the
requests of each. At the far end of a channel a loop reads a request, runs its
handler to the end, writes the response and only then reads on. A handler may
itself call the peer it was called by, on the channel of the other direction.
No timeout fires and the connection is not lost. -/

namespace EchoStream.Core.NestedCalls
open Foundation.Run

inductive Peer where
  | client
  | server
deriving DecidableEq

def Peer.other : Peer → Peer
  | .client => .server
  | .server => .client

@[simp] theorem Peer.other_other (p : Peer) : p.other.other = p := by
  cases p <;> rfl

theorem Peer.other_ne (p : Peer) : p.other ≠ p := by
  cases p <;> exact Peer.noConfusion

theorem Peer.eq_other {p q : Peer} (differ : q ≠ p) : q = p.other := by
  cases p <;> cases q <;> first | rfl | exact absurd rfl differ

/-- What a handler still does: batches of calls to the peer, each made
concurrently and waited for, and in the end its response. -/
inductive Handler where
  | finish
  | request (callee : Handler) (more : List Handler) (rest : Handler)

/-- A running handler, or a task of the user that calls the peer. -/
structure Job where
  awaited : List Nat
  handler : Handler

/-- A call from when it is in the pending map on. -/
inductive Call where
  | registered (callee : Handler)
  | sent
  | answered

inductive Loop where
  | unaccepted
  | reading
  | handling (id : Nat) (job : Job)

/-- The channel of one peer's requests: its calls by id, the requests on their
way, the loop at the other peer, the responses on their way back. The marker goes
ahead of all requests when the channel is opened, and accepting reads it. -/
structure Line where
  opened : Bool
  calls : List Call
  frames : List (Nat × Handler)
  loop : Loop
  replies : List Nat

structure Connection where
  lines : Peer → Line
  users : Peer → List Job

def Connection.init : Connection := ⟨fun _ => ⟨false, [], [], .unaccepted, []⟩, fun _ => []⟩

/-- Who makes a call: a task of the user, or the handler in the loop of a line. -/
inductive Place where
  | user (peer : Peer) (i : Nat)
  | handler (line : Peer)

def Place.peer : Place → Peer
  | .user peer _ => peer
  | .handler line => line.other

inductive Label where
  | spawn (peer : Peer) (program : Handler)
  | openChannel (place : Place)
  | issue (place : Place)
  | write (line : Peer) (id : Nat)
  | accept (line : Peer)
  | start (line : Peer)
  | respond (line : Peer)
  | receive (line : Peer)

def Line.settled (line : Line) (id : Nat) : Bool :=
  match line.calls[id]? with
  | some .answered => true
  | _ => false

/-- Whether one of the calls is still to be answered. -/
def Line.unsettled (line : Line) (awaited : List Nat) : Bool := awaited.any (fun id => !line.settled id)

namespace Connection

def setLine (s : Connection) (p : Peer) (line : Line) : Connection :=
  { s with lines := Function.update s.lines p line }

def job (s : Connection) : Place → Option Job
  | .user peer i => (s.users peer)[i]?
  | .handler p =>
      match (s.lines p).loop with
      | .handling _ job => some job
      | _ => none

def setJob (s : Connection) (place : Place) (job : Job) : Connection :=
  match place with
  | .user peer i => { s with users := Function.update s.users peer ((s.users peer).set i job) }
  | .handler p =>
      match (s.lines p).loop with
      | .handling id _ => s.setLine p { s.lines p with loop := .handling id job }
      | _ => s

end Connection

def openChannel (s : Connection) (place : Place) : Option Connection :=
  match s.job place with
  | some ⟨awaited, .request ..⟩ =>
      let line := s.lines place.peer
      if line.opened = false ∧ line.unsettled awaited = false then
        some (s.setLine place.peer { line with opened := true })
      else none
  | _ => none

def issue (s : Connection) (place : Place) : Option Connection :=
  match s.job place with
  | some ⟨awaited, .request callee more rest⟩ =>
      let line := s.lines place.peer
      if line.opened = true ∧ line.unsettled awaited = false then
        let calls := line.calls ++ (callee :: more).map .registered
        some ((s.setLine place.peer { line with calls }).setJob place
          ⟨List.range' line.calls.length (more.length + 1), rest⟩)
      else none
  | _ => none

def write (s : Connection) (p : Peer) (id : Nat) : Option Connection :=
  let line := s.lines p
  match line.calls[id]? with
  | some (.registered callee) =>
      some (s.setLine p { line with calls := line.calls.set id .sent, frames := line.frames ++ [(id, callee)] })
  | _ => none

def accept (s : Connection) (p : Peer) : Option Connection :=
  let line := s.lines p
  match line.opened, line.loop with
  | true, .unaccepted => some (s.setLine p { line with loop := .reading })
  | _, _ => none

def start (s : Connection) (p : Peer) : Option Connection :=
  let line := s.lines p
  match line.loop, line.frames with
  | .reading, (id, handler) :: frames =>
      some (s.setLine p { line with frames, loop := .handling id ⟨[], handler⟩ })
  | _, _ => none

def respond (s : Connection) (p : Peer) : Option Connection :=
  let line := s.lines p
  match line.loop with
  | .handling id ⟨awaited, .finish⟩ =>
      if (s.lines p.other).unsettled awaited = false then
        some (s.setLine p { line with loop := .reading, replies := line.replies ++ [id] })
      else none
  | _ => none

def receive (s : Connection) (p : Peer) : Option Connection :=
  let line := s.lines p
  match line.replies with
  | id :: replies => some (s.setLine p { line with calls := line.calls.set id .answered, replies })
  | [] => none

def step : Step Connection Label
  | s, .spawn peer program =>
      some { s with users := Function.update s.users peer (s.users peer ++ [⟨[], program⟩]) }
  | s, .openChannel place => openChannel s place
  | s, .issue place => issue s place
  | s, .write p id => write s p id
  | s, .accept p => accept s p
  | s, .start p => start s p
  | s, .respond p => respond s p
  | s, .receive p => receive s p

/-- The steps of handlers, loops and calls already made, as against those by
which a task of the user makes further ones. -/
def Label.Own : Label → Prop
  | .spawn .. => False
  | .openChannel (.user ..) => False
  | .issue (.user ..) => False
  | _ => True

def Unanswered (s : Connection) : Prop :=
  ∃ p id call, (s.lines p).calls[id]? = some call ∧ (s.lines p).settled id = false

def Stuck (s : Connection) : Prop :=
  Unanswered s ∧ ∀ label, label.Own → step s label = none

/-- The handler in the loop of the line waits for a call of its own. -/
def Waiting (s : Connection) (p : Peer) : Prop :=
  ∃ id job, (s.lines p).loop = .handling id job ∧ (s.lines p.other).unsettled job.awaited = true

/-- A handler calls the peer only while the handler in the loop that is to serve
the call does not itself wait for one. -/
def OneWaits (s : Connection) : Label → Prop
  | .issue (.handler p) => ¬ Waiting s p.other
  | _ => True

variable {s t : Connection} {p q : Peer} {line : Line}

namespace Connection

@[simp] theorem setLine_self (s : Connection) (p : Peer) (line : Line) : (s.setLine p line).lines p = line := by
  simp [setLine]

theorem setLine_other (s : Connection) (line : Line) (differ : q ≠ p) :
    (s.setLine p line).lines q = s.lines q := by
  simp [setLine, differ]

end Connection

theorem settled_iff {id : Nat} : line.settled id = true ↔ line.calls[id]? = some .answered := by
  unfold Line.settled
  split
  · rename_i same
    rw [same]
    exact iff_of_true rfl rfl
  · rename_i differ
    exact ⟨fun no => Bool.noConfusion no, fun same => absurd same differ⟩

theorem unsettled_iff {awaited : List Nat} :
    line.unsettled awaited = true ↔ ∃ id ∈ awaited, line.settled id = false := by
  simp [Line.unsettled]

/-- No call without a channel, and a call that was sent is somewhere: on its way,
being handled, or answered with the response on its way. -/
structure Line.Sound (line : Line) : Prop where
  unopened : line.opened = false → line.calls = []
  accounted : ∀ id, line.calls[id]? = some .sent →
    (∃ handler, (id, handler) ∈ line.frames) ∨ (∃ job, line.loop = .handling id job) ∨ id ∈ line.replies

/-- How a line changes under any step, save that the handler in its loop calls. -/
structure Line.Grows (old new : Line) : Prop where
  sound : old.Sound → new.Sound
  settled : ∀ id, old.settled id = true → new.settled id = true
  longer : old.calls.length ≤ new.calls.length
  loop : ∀ id job, new.loop = .handling id job → job.awaited = [] ∨ old.loop = .handling id job

theorem Line.Grows.refl (line : Line) : line.Grows line :=
  ⟨id, fun _ => id, Nat.le_refl _, fun _ _ => Or.inr⟩

/-- What a step does to the lines: one line grows, and a handler's own calls are
also written down in the loop it runs in. -/
inductive Effect (s t : Connection) (label : Label) : Prop where
  | grow (p : Peer) (line : Line) (grows : (s.lines p).Grows line)
      (same : t.lines = (s.setLine p line).lines)
  | call (p : Peer) (line : Line) (id : Nat) (old job : Job) (grows : (s.lines p.other).Grows line)
      (which : label = .issue (.handler p)) (loop : (s.lines p).loop = .handling id old)
      (made : ∀ k ∈ job.awaited, k < line.calls.length)
      (same : t.lines = ((s.setLine p.other line).setLine p { s.lines p with loop := .handling id job }).lines)

theorem grows_opened (line : Line) : line.Grows { line with opened := true } where
  sound sound := ⟨fun no => Bool.noConfusion no, sound.accounted⟩
  settled _ settled := settled
  longer := Nat.le_refl _
  loop _ _ := Or.inr

theorem grows_issued (opened : line.opened = true) (made : List Handler) :
    line.Grows { line with calls := line.calls ++ made.map .registered } where
  sound sound := by
    refine ⟨fun closed => ?_, fun id sent => ?_⟩
    · exact Bool.noConfusion (opened.symm.trans closed)
    · by_cases old : id < line.calls.length
      · rw [List.getElem?_append_left old] at sent
        exact sound.accounted id sent
      · rw [List.getElem?_append_right (Nat.le_of_not_lt old), List.getElem?_map] at sent
        cases fresh : made[id - line.calls.length]? <;> rw [fresh] at sent <;> cases sent
  settled id := by
    simp only [settled_iff]
    intro answered
    have old := (List.getElem?_eq_some_iff.mp answered).1
    rw [List.getElem?_append_left old, answered]
  longer := by simp
  loop _ _ := Or.inr

theorem grows_sent {id : Nat} {callee : Handler} (registered : line.calls[id]? = some (.registered callee)) :
    line.Grows { line with calls := line.calls.set id .sent, frames := line.frames ++ [(id, callee)] } where
  sound sound := by
    refine ⟨fun closed => ?_, fun other sent => ?_⟩
    · rw [sound.unopened closed] at registered
      cases registered
    · by_cases same : id = other
      · subst same
        exact Or.inl ⟨callee, by simp⟩
      · simp only [List.getElem?_set_ne same] at sent
        rcases sound.accounted other sent with ⟨handler, coming⟩ | elsewhere
        · exact Or.inl ⟨handler, List.mem_append_left _ coming⟩
        · exact Or.inr elsewhere
  settled other := by
    simp only [settled_iff]
    intro answered
    have differ : id ≠ other := by
      intro same
      rw [← same, registered] at answered
      cases answered
    rw [List.getElem?_set_ne differ, answered]
  longer := by simp
  loop _ _ := Or.inr

theorem grows_accepted (unaccepted : line.loop = .unaccepted) : line.Grows { line with loop := .reading } where
  sound sound := by
    refine ⟨sound.unopened, fun id sent => ?_⟩
    rcases sound.accounted id sent with coming | ⟨job, handling⟩ | returning
    · exact Or.inl coming
    · rw [unaccepted] at handling
      cases handling
    · exact Or.inr (Or.inr returning)
  settled _ settled := settled
  longer := Nat.le_refl _
  loop _ _ handling := by cases handling

theorem grows_started {id : Nat} {handler : Handler} {frames : List (Nat × Handler)}
    (reading : line.loop = .reading) (next : line.frames = (id, handler) :: frames) :
    line.Grows { line with frames, loop := .handling id ⟨[], handler⟩ } where
  sound sound := by
    refine ⟨sound.unopened, fun other sent => ?_⟩
    rcases sound.accounted other sent with ⟨callee, coming⟩ | ⟨job, handling⟩ | returning
    · rw [next] at coming
      rcases List.mem_cons.mp coming with now | later
      · cases now
        exact Or.inr (Or.inl ⟨_, rfl⟩)
      · exact Or.inl ⟨callee, later⟩
    · rw [reading] at handling
      cases handling
    · exact Or.inr (Or.inr returning)
  settled _ settled := settled
  longer := Nat.le_refl _
  loop _ _ handling := by
    cases handling
    exact Or.inl rfl

theorem grows_responded {id : Nat} {job : Job} (handling : line.loop = .handling id job) :
    line.Grows { line with loop := .reading, replies := line.replies ++ [id] } where
  sound sound := by
    refine ⟨sound.unopened, fun other sent => ?_⟩
    rcases sound.accounted other sent with coming | ⟨last, same⟩ | returning
    · exact Or.inl coming
    · rw [handling] at same
      cases same
      exact Or.inr (Or.inr (by simp))
    · exact Or.inr (Or.inr (List.mem_append_left _ returning))
  settled _ settled := settled
  longer := Nat.le_refl _
  loop _ _ handling := by cases handling

theorem grows_received {id : Nat} {replies : List Nat} (next : line.replies = id :: replies) :
    line.Grows { line with calls := line.calls.set id .answered, replies } where
  sound sound := by
    refine ⟨fun closed => ?_, fun other sent => ?_⟩
    · simp only [sound.unopened closed, List.set_nil]
    · by_cases same : id = other
      · subst same
        rw [List.getElem?_set_self'] at sent
        cases known : line.calls[id]? <;> rw [known] at sent <;> cases sent
      · simp only [List.getElem?_set_ne same] at sent
        rcases sound.accounted other sent with coming | handling | returning
        · exact Or.inl coming
        · exact Or.inr (Or.inl handling)
        · rw [next] at returning
          rcases List.mem_cons.mp returning with now | later
          · exact absurd now.symm same
          · exact Or.inr (Or.inr later)
  settled other := by
    simp only [settled_iff]
    intro answered
    by_cases same : id = other
    · subst same
      rw [List.getElem?_set_self', answered]
      rfl
    · rw [List.getElem?_set_ne same, answered]
  longer := by simp
  loop _ _ := Or.inr

theorem issue_effect {place : Place} (stepped : issue s place = some t) : Effect s t (.issue place) := by
  unfold issue at stepped
  split at stepped
  · rename_i awaited callee more rest found
    by_cases may : (s.lines place.peer).opened = true ∧ (s.lines place.peer).unsettled awaited = false
    · rw [if_pos may] at stepped
      cases stepped
      have grows := grows_issued may.1 (callee :: more)
      cases place with
      | user peer i => exact .grow peer _ grows rfl
      | handler p =>
        simp only [Connection.job] at found
        split at found
        · rename_i id old loop
          have kept : ((s.setLine p.other { s.lines p.other with
              calls := (s.lines p.other).calls ++ (callee :: more).map .registered }).lines p) = s.lines p :=
            s.setLine_other _ p.other_ne.symm
          refine .call p _ id old ⟨List.range' (s.lines p.other).calls.length (more.length + 1), rest⟩
            grows rfl loop ?_ ?_
          · intro k member
            simp only [List.mem_range'_1] at member
            simp only [List.length_append, List.length_map, List.length_cons, Place.peer] at member ⊢
            omega
          · simp only [Connection.setJob, Place.peer, kept, loop]
        · cases found
    · rw [if_neg may] at stepped
      cases stepped
  · cases stepped

theorem step_effect {label : Label} (stepped : step s label = some t) : Effect s t label := by
  cases label with
  | spawn peer program =>
    cases stepped
    refine .grow peer (s.lines peer) (Line.Grows.refl _) ?_
    exact (Function.update_eq_self peer s.lines).symm
  | openChannel place =>
    simp only [step, openChannel] at stepped
    split at stepped
    · split at stepped <;> cases stepped
      exact .grow place.peer _ (grows_opened _) rfl
    · cases stepped
  | issue place => exact issue_effect stepped
  | write p id =>
    simp only [step, write] at stepped
    split at stepped <;> cases stepped
    exact .grow p _ (grows_sent ‹_›) rfl
  | accept p =>
    simp only [step, accept] at stepped
    split at stepped <;> cases stepped
    exact .grow p _ (grows_accepted ‹_›) rfl
  | start p =>
    simp only [step, start] at stepped
    split at stepped <;> cases stepped
    exact .grow p _ (grows_started ‹_› ‹_›) rfl
  | respond p =>
    simp only [step, respond] at stepped
    split at stepped
    · split at stepped <;> cases stepped
      exact .grow p _ (grows_responded ‹_›) rfl
    · cases stepped
  | receive p =>
    simp only [step, receive] at stepped
    split at stepped <;> cases stepped
    exact .grow p _ (grows_received ‹_›) rfl

/-- All lines are sound, and handlers wait for calls that exist. -/
structure Sound (s : Connection) : Prop where
  line : ∀ p, (s.lines p).Sound
  made : ∀ p id job, (s.lines p).loop = .handling id job →
    ∀ k ∈ job.awaited, k < (s.lines p.other).calls.length

theorem init_sound : Sound .init := by
  refine ⟨fun p => ⟨fun _ => rfl, fun id sent => ?_⟩, fun p id job handling => ?_⟩
  · cases sent
  · cases handling

theorem Sound.setLine (sound : Sound s) (grows : (s.lines p).Grows line) : Sound (s.setLine p line) := by
  have longer : ∀ q, (s.lines q).calls.length ≤ ((s.setLine p line).lines q).calls.length := by
    intro q
    by_cases same : q = p
    · rw [same, s.setLine_self]
      exact grows.longer
    · apply Nat.le_of_eq
      rw [s.setLine_other line same]
  constructor
  · intro q
    by_cases same : q = p
    · rw [same, s.setLine_self]
      exact grows.sound (sound.line p)
    · rw [s.setLine_other line same]
      exact sound.line q
  · intro q id job handling k member
    apply Nat.lt_of_lt_of_le _ (longer q.other)
    by_cases same : q = p
    · rw [same, s.setLine_self] at handling
      rcases grows.loop id job handling with none_yet | before
      · rw [none_yet] at member
        cases member
      · rw [same]
        exact sound.made p id job before k member
    · rw [s.setLine_other line same] at handling
      exact sound.made q id job handling k member

theorem Sound.congr (sound : Sound s) (same : t.lines = s.lines) : Sound t := by
  refine ⟨fun p => ?_, fun p id job handling => ?_⟩
  · rw [same]
    exact sound.line p
  · rw [same] at handling ⊢
    exact sound.made p id job handling

theorem step_sound (s : Connection) (label : Label) (t : Connection) (sound : Sound s)
    (stepped : step s label = some t) : Sound t := by
  cases step_effect stepped with
  | grow p line grows same => exact (sound.setLine grows).congr same
  | call p line id old job grows which loop made same =>
    apply Sound.congr _ same
    have grown := sound.setLine grows
    have kept : (s.setLine p.other line).lines p = s.lines p := s.setLine_other line p.other_ne.symm
    constructor
    · intro q
      by_cases here : q = p
      · rw [here, Connection.setLine_self]
        refine ⟨(sound.line p).unopened, fun k sent => ?_⟩
        rcases (sound.line p).accounted k sent with coming | ⟨last, handling⟩ | returning
        · exact Or.inl coming
        · rw [loop] at handling
          cases handling
          exact Or.inr (Or.inl ⟨job, rfl⟩)
        · exact Or.inr (Or.inr returning)
      · rw [Connection.setLine_other _ _ here]
        exact grown.line q
    · intro q k last handling
      by_cases here : q = p
      · subst here
        rw [Connection.setLine_self] at handling
        cases handling
        rw [Connection.setLine_other _ _ q.other_ne, s.setLine_self]
        exact made
      · have there : q.other = p := (Peer.eq_other here).symm ▸ p.other_other
        rw [Connection.setLine_other _ _ here] at handling
        rw [there, Connection.setLine_self]
        have before := grown.made q k last handling
        rw [there, kept] at before
        exact before

theorem reachable_sound (reached : Reachable step .init s) : Sound s :=
  reached.invariant init_sound step_sound

/-- A handler that waits, waits for a call that is not answered. -/
theorem Sound.unanswered (sound : Sound s) (waiting : Waiting s p) :
    ∃ id call, (s.lines p.other).calls[id]? = some call ∧ (s.lines p.other).settled id = false := by
  obtain ⟨_, job, handling, unsettled⟩ := waiting
  obtain ⟨id, member, open_call⟩ := unsettled_iff.mp unsettled
  have made := sound.made p _ job handling id member
  exact ⟨id, _, List.getElem?_eq_getElem made, open_call⟩

theorem handler_moves {id : Nat} {job : Job} (handling : (s.lines p).loop = .handling id job)
    (free : (s.lines p.other).unsettled job.awaited = false) :
    ∃ label, label.Own ∧ step s label ≠ none := by
  obtain ⟨awaited, handler⟩ := job
  cases handler with
  | finish =>
    refine ⟨.respond p, trivial, ?_⟩
    simp only [step, respond, handling, if_pos free]
    exact Option.some_ne_none _
  | request callee more rest =>
    cases opened : (s.lines p.other).opened with
    | false =>
      refine ⟨.openChannel (.handler p), trivial, ?_⟩
      have may : (s.lines (Place.handler p).peer).opened = false ∧
          (s.lines (Place.handler p).peer).unsettled awaited = false := ⟨opened, free⟩
      simp only [step, openChannel, Connection.job, handling, if_pos may]
      exact Option.some_ne_none _
    | true =>
      refine ⟨.issue (.handler p), trivial, ?_⟩
      have may : (s.lines (Place.handler p).peer).opened = true ∧
          (s.lines (Place.handler p).peer).unsettled awaited = false := ⟨opened, free⟩
      simp only [step, issue, Connection.job, handling, if_pos may]
      exact Option.some_ne_none _

/-- Where a call is unanswered and nothing moves, the loop that is to serve it is
taken by a handler that waits. -/
theorem Sound.blocked (sound : Sound s) (still : ∀ label, label.Own → step s label = none)
    {id : Nat} {call : Call} (found : (s.lines p).calls[id]? = some call)
    (unanswered : (s.lines p).settled id = false) : Waiting s p := by
  have sent : (s.lines p).calls[id]? = some .sent := by
    cases call with
    | registered callee =>
      have writes := still (.write p id) trivial
      simp [step, write, found] at writes
    | sent => exact found
    | answered =>
      rw [settled_iff.mpr found] at unanswered
      cases unanswered
  have quiet : (s.lines p).replies = [] := by
    cases replies : (s.lines p).replies with
    | nil => rfl
    | cons first rest =>
      have receives := still (.receive p) trivial
      simp [step, receive, replies] at receives
  have opened : (s.lines p).opened = true := by
    cases opened : (s.lines p).opened with
    | true => rfl
    | false =>
      rw [(sound.line p).unopened opened] at found
      cases found
  cases loop : (s.lines p).loop with
  | unaccepted =>
    have accepts := still (.accept p) trivial
    simp [step, accept, opened, loop] at accepts
  | reading =>
    rcases (sound.line p).accounted id sent with ⟨handler, coming⟩ | ⟨job, handling⟩ | returning
    · cases frames : (s.lines p).frames with
      | nil =>
        rw [frames] at coming
        cases coming
      | cons frame rest =>
        have starts := still (.start p) trivial
        simp [step, start, loop, frames] at starts
    · rw [loop] at handling
      cases handling
    · rw [quiet] at returning
      cases returning
  | handling serving job =>
    cases waits : (s.lines p.other).unsettled job.awaited with
    | true => exact ⟨serving, job, loop, waits⟩
    | false =>
      obtain ⟨label, own, moves⟩ := handler_moves loop waits
      exact absurd (still label own) moves

theorem Sound.stuck_waiting (sound : Sound s) (stuck : Stuck s) (p : Peer) : Waiting s p := by
  obtain ⟨⟨q, id, call, found, unanswered⟩, still⟩ := stuck
  have here := sound.blocked still found unanswered
  obtain ⟨_, _, nested, pending⟩ := sound.unanswered here
  have there := sound.blocked still nested pending
  by_cases same : p = q
  · rw [same]
    exact here
  · rw [Peer.eq_other same]
    exact there

theorem waiting_setLine (grows : (s.lines p).Grows line) (waiting : Waiting (s.setLine p line) q) :
    Waiting s q := by
  obtain ⟨id, job, handling, unsettled⟩ := waiting
  obtain ⟨k, member, unanswered⟩ := unsettled_iff.mp unsettled
  refine ⟨id, job, ?_, unsettled_iff.mpr ⟨k, member, ?_⟩⟩
  · by_cases here : q = p
    · rw [here, s.setLine_self] at handling
      rcases grows.loop id job handling with none_yet | before
      · rw [none_yet] at member
        cases member
      · rw [here]
        exact before
    · rw [s.setLine_other line here] at handling
      exact handling
  · by_cases there : q.other = p
    · rw [there, s.setLine_self] at unanswered
      rw [there]
      by_contra answered
      rw [Bool.not_eq_false] at answered
      rw [grows.settled k answered] at unanswered
      cases unanswered
    · rw [s.setLine_other line there] at unanswered
      exact unanswered

/-- Only by calling the peer does a handler come to wait. -/
theorem waiting_before {label : Label} (stepped : step s label = some t) (waiting : Waiting t q) :
    Waiting s q ∨ label = .issue (.handler q) := by
  cases step_effect stepped with
  | grow p line grows same =>
    rw [Waiting, same] at waiting
    exact Or.inl (waiting_setLine grows waiting)
  | call p line id old job grows which loop made same =>
    by_cases here : q = p
    · rw [here]
      exact Or.inr which
    · obtain ⟨serving, last, handling, unsettled⟩ := waiting
      have there : q.other = p := (Peer.eq_other here).symm ▸ p.other_other
      rw [same, Connection.setLine_other _ _ here] at handling
      rw [same, there, Connection.setLine_self] at unsettled
      refine Or.inl (waiting_setLine grows ⟨serving, last, handling, ?_⟩)
      rw [there, s.setLine_other line p.other_ne.symm]
      exact unsettled

theorem step_oneWaits (s : Connection) (label : Label) (t : Connection)
    (one : ¬ (Waiting s .client ∧ Waiting s .server)) (guard : OneWaits s label)
    (stepped : step s label = some t) : ¬ (Waiting t .client ∧ Waiting t .server) := by
  rintro ⟨client, server⟩
  rcases waiting_before stepped client with before | calls
  · rcases waiting_before stepped server with too | calls
    · exact one ⟨before, too⟩
    · rw [calls] at guard
      exact guard before
  · rcases waiting_before stepped server with before | too
    · rw [calls] at guard
      exact guard before
    · rw [calls] at too
      cases too

/-- A connection is stuck only where the handlers in both loops wait for calls of
their own. While a handler calls only when the one that would hold it up does
not wait itself, it never is. -/
theorem stuck_only_crossed :
    (∀ s, Reachable step .init s → Stuck s → ∀ p, Waiting s p) ∧
      ∀ labels, Guarded step OneWaits .init labels → Always step (fun s => ¬ Stuck s) .init labels := by
  refine ⟨fun s reached stuck p => (reachable_sound reached).stuck_waiting stuck p, fun labels guarded => ?_⟩
  have keeps : ∀ s label t, (Sound s ∧ ¬ (Waiting s .client ∧ Waiting s .server)) → OneWaits s label →
      step s label = some t → Sound t ∧ ¬ (Waiting t .client ∧ Waiting t .server) := by
    intro s label t ⟨sound, one⟩ guard stepped
    exact ⟨step_sound s label t sound stepped, step_oneWaits s label t one guard stepped⟩
  have start : ¬ (Waiting .init .client ∧ Waiting .init .server) := by
    rintro ⟨⟨_, _, handling, _⟩, _⟩
    cases handling
  apply (guarded_always keeps ⟨init_sound, start⟩ guarded).mono
  intro s ⟨sound, one⟩ stuck
  exact one ⟨sound.stuck_waiting stuck .client, sound.stuck_waiting stuck .server⟩

/-- A handler of the server that calls the client, whose handler calls nobody. -/
private def calledBack : List Label :=
  [.spawn .client (.request (.request .finish [] .finish) [] .finish), .openChannel (.user .client 0),
    .issue (.user .client 0), .write .client 0, .accept .client, .start .client, .openChannel (.handler .client),
    .issue (.handler .client), .write .server 0, .accept .server, .start .server]

theorem stuck_only_crossed_calledBack : Always step (fun s => ¬ Stuck s) .init calledBack := by
  apply stuck_only_crossed.2
  refine .cons rfl trivial (.cons rfl trivial (.cons rfl trivial (.cons rfl trivial (.cons rfl trivial
    (.cons rfl trivial (.cons rfl trivial (.cons rfl ?_ (.cons rfl trivial (.cons rfl trivial
    (.cons rfl trivial trivial))))))))))
  rintro ⟨_, _, handling, _⟩
  cases handling

/-- The client calls the server, whose handler calls the client, whose handler
calls the server once more, where the loop is taken. -/
private def crossed : List Label :=
  [.spawn .client (.request (.request (.request .finish [] .finish) [] .finish) [] .finish),
    .openChannel (.user .client 0), .issue (.user .client 0), .write .client 0, .accept .client, .start .client,
    .openChannel (.handler .client), .issue (.handler .client), .write .server 0, .accept .server,
    .start .server, .issue (.handler .server), .write .client 1]

private def afterCrossed : Connection := (run step .init crossed).getD .init

theorem crossed_stuck : ∃ s, Reachable step .init s ∧ Unanswered s ∧
    ∀ label, (∀ peer program, label ≠ .spawn peer program) → step s label = none := by
  refine ⟨afterCrossed, ⟨crossed, rfl⟩, ⟨.client, 1, .sent, rfl, rfl⟩, fun label notSpawn => ?_⟩
  have nobody : ∀ place, openChannel afterCrossed place = none ∧ issue afterCrossed place = none := by
    intro place
    cases place with
    | user peer i => cases peer <;> cases i <;> exact ⟨rfl, rfl⟩
    | handler p => cases p <;> exact ⟨rfl, rfl⟩
  cases label with
  | spawn peer program => exact absurd rfl (notSpawn peer program)
  | openChannel place => exact (nobody place).1
  | issue place => exact (nobody place).2
  | write p id =>
    cases p with
    | client =>
      cases id with
      | zero => rfl
      | succ id => cases id <;> rfl
    | server => cases id <;> rfl
  | accept p => cases p <;> rfl
  | start p => cases p <;> rfl
  | respond p => cases p <;> rfl
  | receive p => cases p <;> rfl

/-- Where the handlers of one peer call nobody, no nesting gets the connection stuck. -/
theorem one_sided_never_stuck (p : Peer) {labels : List Label}
    (leaf : Guarded step (fun _ label => label ≠ .issue (.handler p)) .init labels) :
    Always step (fun s => ¬ Stuck s) .init labels := by
  have keeps : ∀ s label t, (Sound s ∧ ¬ Waiting s p) → label ≠ .issue (.handler p) →
      step s label = some t → Sound t ∧ ¬ Waiting t p := by
    intro s label t ⟨sound, free⟩ other stepped
    refine ⟨step_sound s label t sound stepped, fun waiting => ?_⟩
    rcases waiting_before stepped waiting with before | calls
    · exact free before
    · exact other calls
  have start : ¬ Waiting .init p := by
    rintro ⟨_, _, handling, _⟩
    cases handling
  apply (guarded_always keeps ⟨init_sound, start⟩ leaf).mono
  intro s ⟨sound, free⟩ stuck
  exact free (sound.stuck_waiting stuck p)

end EchoStream.Core.NestedCalls
