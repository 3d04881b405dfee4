import EchoStream.Core.Handler

/-! Broadcasting an event. The sessions are sent to one after the other, in the
order the registry happens to list them, and the first one that fails ends the
broadcast. How each call on a session's connection ends is given from outside,
so a failure can fall on any of them. -/

namespace EchoStream.Core.Broadcast
open Proto.Messages Proto.Postcard
open Handler

/-- A session with its connection: how each call on the connection ends, the
calls and the opened streams so far, and what was written to which stream. -/
structure Session where
  id : SessionId
  nextMsgId : UInt64
  eventChannel : Option Nat
  failure : Nat → Option Error
  calls : Nat
  opened : Nat
  written : List (Nat × Message)

abbrev Send := Session → Result Unit × Session

namespace Send

def andThen (first second : Send) : Send := fun s =>
  match first s with
  | (.error e, t) => (.error e, t)
  | (.ok _, t) => second t

/-- `if let Err(_) = first { second }` -/
def orElse (first second : Send) : Send := fun s =>
  match first s with
  | (.error _, t) => second t
  | (.ok _, t) => (.ok (), t)

end Send

namespace Session

def call (update : Session → Session) : Send := fun s =>
  match s.failure s.calls with
  | some e => (.error e, { s with calls := s.calls + 1 })
  | none => (.ok (), update { s with calls := s.calls + 1 })

def openUni : Send := call (fun s => { s with opened := s.opened + 1 })

/-- A write that fails has delivered nothing. -/
def writeMessage (stream : Nat) (msg : Message) : Send :=
  call (fun s => { s with written := s.written ++ [(stream, msg)] })

def finish : Send := call (fun s => s)

/-- The event channel is a new stream, unless that cannot be opened. -/
def openChannel : Send := fun s => openUni.andThen (fun t => (.ok (), { t with eventChannel := some s.opened })) s

def writeChannel (msg : Message) : Send := fun s =>
  match s.eventChannel with
  | some stream => writeMessage stream msg s
  | none => (.error .sessionClosed, s)

/-- A write that fails is tried once more on a new stream. -/
def emitOn (msg : Message) : Send := (writeChannel msg).orElse (openChannel.andThen (writeChannel msg))

def emitRaw (name : String) (payload : Bytes) : Send := fun s =>
  let msg : Message := .event ⟨s.nextMsgId, name, payload⟩
  let s := { s with nextMsgId := s.nextMsgId + 1 }
  if s.eventChannel.isNone then openChannel.andThen (emitOn msg) s else emitOn msg s

def emit {α : Type} (codec : Codec α) (name : String) (data : α) : Send := fun s =>
  openUni.andThen (fun t =>
    let u := { t with nextMsgId := t.nextMsgId + 1 }
    match encode codec data with
    | .error e => (.error e, u)
    | .ok payload => (writeMessage s.opened (.event ⟨t.nextMsgId, name, payload⟩)).andThen finish u) s

end Session

def broadcastWith (send : Send) : List Session → Result Unit × List Session
  | [] => (.ok (), [])
  | session :: rest =>
      match send session with
      | (.error e, session) => (.error e, session :: rest)
      | (.ok _, session) =>
          let (result, rest) := broadcastWith send rest
          (result, session :: rest)

def broadcast {α : Type} (codec : Codec α) (name : String) (data : α) (sessions : List Session) :
    Result Unit × List Session :=
  broadcastWith (Session.emit codec name data) sessions

def broadcastRaw (name : String) (payload : Bytes) (sessions : List Session) : Result Unit × List Session :=
  broadcastWith (Session.emitRaw name payload) sessions

def Succeeds (send : Send) (session : Session) : Prop := (send session).1 = .ok ()

/-- The event was written to the session once, and nothing else was. -/
def SentOnce (name : String) (payload : Bytes) (before after : Session) : Prop :=
  ∃ stream, after.written = before.written ++ [(stream, .event ⟨before.nextMsgId, name, payload⟩)]

/-- Every session whose own send succeeds was sent the event once. -/
def Reaches (send : Send) (name : String) (payload : Bytes) (before after : List Session) : Prop :=
  List.Forall₂ (fun s t => Succeeds send s → SentOnce name payload s t) before after

/-- No session that fails is listed before one that succeeds. -/
def FailuresLast (send : Send) (sessions : List Session) : Prop :=
  sessions.Pairwise (fun first second => Succeeds send second → Succeeds send first)

variable {send first second : Send} {s : Session} {name : String} {payload : Bytes}

theorem Send.andThen_ok (first second : Send) (succeeds : Succeeds (first.andThen second) s) :
    Succeeds first s ∧ Succeeds second (first s).2 ∧ first.andThen second s = second (first s).2 := by
  unfold Succeeds andThen at succeeds
  unfold Succeeds andThen
  generalize first s = ended at succeeds ⊢
  obtain ⟨result, t⟩ := ended
  cases result with
  | error e => cases succeeds
  | ok value => exact ⟨rfl, succeeds, rfl⟩

theorem Send.orElse_ok (succeeds : Succeeds (first.orElse second) s) :
    Succeeds first s ∧ (first.orElse second s).2 = (first s).2 ∨
      ¬ Succeeds first s ∧ Succeeds second (first s).2 ∧ first.orElse second s = second (first s).2 := by
  unfold Succeeds orElse at succeeds
  unfold Succeeds orElse
  generalize first s = ended at succeeds ⊢
  obtain ⟨result, t⟩ := ended
  cases result with
  | error e => exact Or.inr ⟨nofun, succeeds, rfl⟩
  | ok value => exact Or.inl ⟨rfl, rfl⟩

namespace Session

variable {update : Session → Session} {msg : Message}

theorem call_ok (succeeds : Succeeds (call update) s) : (call update s).2 = update { s with calls := s.calls + 1 } := by
  unfold Succeeds call at succeeds
  unfold call
  split
  · rename_i e failed
    rw [failed] at succeeds
    cases succeeds
  · rfl

theorem call_error (fails : ¬ Succeeds (call update) s) : (call update s).2 = { s with calls := s.calls + 1 } := by
  unfold Succeeds call at fails
  unfold call
  split
  · rfl
  · rename_i succeeded
    rw [succeeded] at fails
    exact absurd rfl fails

theorem openChannel_ok (succeeds : Succeeds openChannel s) : (openChannel s).2.written = s.written := by
  obtain ⟨opens, _, same⟩ := Send.andThen_ok openUni _ succeeds
  rw [openChannel, same, openUni, call_ok opens]

theorem writeChannel_ok (succeeds : Succeeds (writeChannel msg) s) :
    ∃ stream, (writeChannel msg s).2.written = s.written ++ [(stream, msg)] := by
  unfold Succeeds writeChannel at succeeds
  unfold writeChannel
  cases channel : s.eventChannel with
  | none =>
    rw [channel] at succeeds
    cases succeeds
  | some stream =>
    rw [channel] at succeeds
    refine ⟨stream, ?_⟩
    simp only [writeMessage, call_ok succeeds]

theorem writeChannel_error (fails : ¬ Succeeds (writeChannel msg) s) :
    (writeChannel msg s).2.written = s.written := by
  unfold Succeeds writeChannel at fails
  unfold writeChannel
  cases channel : s.eventChannel with
  | none => rfl
  | some stream =>
    rw [channel] at fails
    simp only [writeMessage, call_error fails]

theorem emitOn_ok (succeeds : Succeeds (emitOn msg) s) :
    ∃ stream, (emitOn msg s).2.written = s.written ++ [(stream, msg)] := by
  unfold emitOn
  rcases Send.orElse_ok succeeds with ⟨first, same⟩ | ⟨failed, second, same⟩
  · rw [same]
    exact writeChannel_ok first
  · obtain ⟨opens, writes, again⟩ := Send.andThen_ok _ _ second
    obtain ⟨stream, wrote⟩ := writeChannel_ok writes
    refine ⟨stream, ?_⟩
    rw [same, again, wrote, openChannel_ok opens, writeChannel_error failed]

theorem emitRaw_ok (s : Session) (succeeds : Succeeds (emitRaw name payload) s) :
    SentOnce name payload s (emitRaw name payload s).2 := by
  unfold Succeeds emitRaw at succeeds
  unfold SentOnce emitRaw
  simp only at succeeds ⊢
  split at succeeds
  · rename_i unopened
    obtain ⟨opens, emits, same⟩ := Send.andThen_ok _ _ succeeds
    obtain ⟨stream, wrote⟩ := emitOn_ok emits
    refine ⟨stream, ?_⟩
    rw [if_pos unopened, same, wrote, openChannel_ok opens]
  · rename_i opened
    rw [if_neg opened]
    exact emitOn_ok succeeds

theorem emit_ok {α : Type} {codec : Codec α} {data : α} (s : Session)
    (succeeds : Succeeds (emit codec name data) s) (encoded : encode codec data = .ok payload) :
    SentOnce name payload s (emit codec name data s).2 := by
  obtain ⟨opens, sends, same⟩ := Send.andThen_ok openUni _ succeeds
  have opened := call_ok opens
  unfold SentOnce emit
  unfold Succeeds at sends
  rw [same]
  simp only [encoded] at sends ⊢
  obtain ⟨writes, finishes, again⟩ := Send.andThen_ok _ _ sends
  refine ⟨s.opened, ?_⟩
  rw [again, finish, call_ok finishes, writeMessage, call_ok writes, openUni, opened]

theorem emit_unencoded {α : Type} {codec : Codec α} {data : α} {e : Error} (s : Session)
    (failed : encode codec data = .error e) : ¬ Succeeds (emit codec name data) s := by
  intro succeeds
  obtain ⟨opens, sends, same⟩ := Send.andThen_ok openUni _ succeeds
  unfold Succeeds at sends
  simp only [failed] at sends
  cases sends

end Session

theorem broadcastWith_ok {session : Session} {rest : List Session} (succeeds : Succeeds send session) :
    (broadcastWith send (session :: rest)).2 = (send session).2 :: (broadcastWith send rest).2 := by
  unfold Succeeds at succeeds
  rw [broadcastWith]
  generalize send session = ended at succeeds
  obtain ⟨result, after⟩ := ended
  subst succeeds
  rfl

theorem broadcastWith_error {session : Session} {rest : List Session} (fails : ¬ Succeeds send session) :
    (broadcastWith send (session :: rest)).2 = (send session).2 :: rest := by
  unfold Succeeds at fails
  rw [broadcastWith]
  generalize send session = ended at fails
  obtain ⟨result, after⟩ := ended
  cases result with
  | ok value => exact absurd rfl fails
  | error e => rfl

theorem not_sentOnce_self (s : Session) : ¬ SentOnce name payload s s := by
  rintro ⟨stream, same⟩
  have lengths := congrArg List.length same
  rw [List.length_append, List.length_singleton] at lengths
  omega

/-- Sessions that were not sent to are reached only if none of them would succeed. -/
theorem reaches_self (sessions : List Session) :
    Reaches send name payload sessions sessions ↔ ∀ s ∈ sessions, ¬ Succeeds send s := by
  induction sessions with
  | nil => exact iff_of_true .nil (fun _ member => by cases member)
  | cons session rest ih =>
    rw [Reaches, List.forall₂_cons, ← Reaches, ih, List.forall_mem_cons]
    exact and_congr_left (fun _ => ⟨fun reached succeeds => not_sentOnce_self session (reached succeeds),
      fun fails succeeds => absurd succeeds fails⟩)

/-- A broadcast reaches every session that can be sent to exactly when the
failing ones come last. -/
theorem broadcastWith_reaches_iff (sends : ∀ s, Succeeds send s → SentOnce name payload s (send s).2)
    (sessions : List Session) :
    Reaches send name payload sessions (broadcastWith send sessions).2 ↔ FailuresLast send sessions := by
  induction sessions with
  | nil => exact iff_of_true .nil .nil
  | cons session rest ih =>
    rw [FailuresLast, List.pairwise_cons, ← FailuresLast]
    by_cases succeeds : Succeeds send session
    · rw [broadcastWith_ok succeeds, Reaches, List.forall₂_cons, ← Reaches, ih]
      exact and_congr_left (fun _ => iff_of_true (fun _ => sends session succeeds) (fun _ _ _ => succeeds))
    · rw [broadcastWith_error succeeds, Reaches, List.forall₂_cons, ← Reaches, reaches_self]
      have silent : (∀ s ∈ rest, ¬ Succeeds send s) ↔ ∀ s ∈ rest, Succeeds send s → Succeeds send session :=
        forall₂_congr (fun s _ => ⟨fun fails sends => absurd sends fails,
          fun before sends => succeeds (before sends)⟩)
      rw [silent]
      constructor
      · intro ⟨_, before⟩
        refine ⟨before, List.pairwise_of_forall_mem_list ?_⟩
        exact fun _ _ second member sends => absurd (before second member sends) succeeds
      · intro ⟨before, _⟩
        exact ⟨fun other => absurd other succeeds, before⟩

theorem broadcast_reaches {α : Type} {codec : Codec α} {data : α} (encoded : encode codec data = .ok payload)
    (sessions : List Session) :
    Reaches (Session.emit codec name data) name payload sessions (broadcast codec name data sessions).2 ↔
      FailuresLast (Session.emit codec name data) sessions :=
  broadcastWith_reaches_iff (fun s succeeds => Session.emit_ok s succeeds encoded) sessions

theorem broadcastRaw_reaches (sessions : List Session) :
    Reaches (Session.emitRaw name payload) name payload sessions (broadcastRaw name payload sessions).2 ↔
      FailuresLast (Session.emitRaw name payload) sessions :=
  broadcastWith_reaches_iff Session.emitRaw_ok sessions

/-- Either broadcast sends the event once to every session that can be sent to,
exactly when no failing session is listed before one that can. -/
theorem broadcast_reaches_iff {α : Type} (codec : Codec α) (name : String) (data : α) (payload : Bytes)
    (sessions : List Session) :
    ((∀ written, encode codec data = .ok written →
        Reaches (Session.emit codec name data) name written sessions (broadcast codec name data sessions).2) ↔
      FailuresLast (Session.emit codec name data) sessions) ∧
    (Reaches (Session.emitRaw name payload) name payload sessions (broadcastRaw name payload sessions).2 ↔
      FailuresLast (Session.emitRaw name payload) sessions) := by
  refine ⟨?_, broadcastRaw_reaches sessions⟩
  cases encoded : encode codec data with
  | error e =>
    have fails : ∀ s, ¬ Succeeds (Session.emit codec name data) s := fun s => Session.emit_unencoded s encoded
    refine iff_of_true nofun (List.pairwise_of_forall_mem_list ?_)
    exact fun _ _ second _ sends => absurd sends (fails second)
  | ok written =>
    rw [← broadcast_reaches encoded]
    constructor
    · intro reaches
      exact reaches written rfl
    · intro reached payload same
      cases same
      exact reached

/-- Its connection fails at the calls in the list. -/
private def session (id : SessionId) (failing : List Nat) : Session :=
  ⟨id, 1, none, fun n => if n ∈ failing then some (.io "connection lost") else none, 0, 0, []⟩

/-- One lost connection listed first keeps the event from the session after it. -/
theorem broadcast_stops :
    Succeeds (Session.emit (codecOf usize) "tick" 7) (session 2 []) ∧
      ¬ Reaches (Session.emit (codecOf usize) "tick" 7) "tick" [7] [session 1 [0], session 2 []]
        (broadcast (codecOf usize) "tick" 7 [session 1 [0], session 2 []]).2 ∧
      Succeeds (Session.emitRaw "tick" [7]) (session 2 []) ∧
      ¬ Reaches (Session.emitRaw "tick" [7]) "tick" [7] [session 1 [0], session 2 []]
        (broadcastRaw "tick" [7] [session 1 [0], session 2 []]).2 := by
  have behind : ∀ send : Send, ¬ Succeeds send (session 1 [0]) → Succeeds send (session 2 []) →
      ¬ FailuresLast send [session 1 [0], session 2 []] := by
    intro send fails succeeds last
    rw [FailuresLast, List.pairwise_pair] at last
    exact fails (last succeeds)
  refine ⟨rfl, ?_, rfl, ?_⟩
  · rw [broadcast_reaches rfl]
    exact behind _ nofun rfl
  · rw [broadcastRaw_reaches]
    exact behind _ nofun rfl

end EchoStream.Core.Broadcast
