import Mathlib.Logic.Function.Basic
import EchoStream.Foundation.Run

/-! The life of a client. Its pool holds sessions, the first of which is the primary one.
Every session has a receive loop, which ends when its connection is down or a stream ends
before its first frame; that of a primary session then clears the flag `connected` and fires
the callbacks. `reconnect` puts a new session in place of the pool and closes the old ones,
`close` closes those that are in the pool. Both are sequences of small steps, any number of
them may be under way, and the loops share their flags. -/

namespace EchoStream.Core.Lifecycle
open Foundation.Run

/-- A connection as its receive loop will find it: usable, ended by the peer or
the network, closed by this client. -/
inductive Conn where
  | up
  | lost
  | closed
deriving DecidableEq

/-- A receive loop before it is spawned, receiving, past its end, and with
everything done that follows from it. -/
inductive Loop where
  | unspawned
  | running
  | ended
  | finished
deriving DecidableEq

structure Session where
  primary : Bool
  conn : Conn
  loop : Loop

def Session.close (session : Session) : Session :=
  { session with conn := if session.conn = .up then .closed else session.conn }

/-- How far a call of `reconnect` or `close` is. -/
inductive Call where
  | idle
  | reopened
  | retiring (new : Nat) (old : List Nat)
  | installed (new : Nat)
  | marked
  | lowered
  | shutting (rest : List Nat)
deriving DecidableEq

/-- Sessions have numbers from a counter. `losses` are those lost while they were
the first of the pool, `fired` those whose end fired the callbacks. -/
structure Client where
  sessions : List Nat
  session : Nat → Session
  count : Nat
  connected : Bool
  closed : Bool
  callers : Nat → Call
  losses : List Nat
  fired : List Nat

/-- A client just built on one connection and `more` further ones. -/
def Client.init (more : Nat) : Client where
  sessions := List.range (more + 1)
  session k := ⟨k == 0, .up, if k ≤ more then .running else .unspawned⟩
  count := more + 1
  connected := true
  closed := false
  callers _ := .idle
  losses := []
  fired := []

inductive Label where
  | reconnect (i : Nat)
  | close (i : Nat)
  | advance (i : Nat)
  | lose (k : Nat)
  | leave (k : Nat)
  | notify (k : Nat)

namespace Client

def setCaller (s : Client) (i : Nat) (call : Call) : Client :=
  { s with callers := Function.update s.callers i call }

def setSession (s : Client) (k : Nat) (session : Session) : Client :=
  { s with session := Function.update s.session k session }

def setLoop (s : Client) (k : Nat) (loop : Loop) : Client :=
  s.setSession k { s.session k with loop }

end Client

def reconnect (s : Client) (i : Nat) : Option Client :=
  match s.callers i with
  | .idle => some ({ s with closed := false }.setCaller i .reopened)
  | _ => none

def close (s : Client) (i : Nat) : Option Client :=
  match s.callers i with
  | .idle => some ({ s with closed := true }.setCaller i .marked)
  | _ => none

/-- The next step of a call: of `reconnect` down to the spawning of the new loop,
of `close` down to the last session of its snapshot. -/
def advance (s : Client) (i : Nat) : Option Client :=
  match s.callers i with
  | .idle => none
  | .reopened =>
      some ({ s.setSession s.count ⟨true, .up, .unspawned⟩ with
        sessions := [s.count], count := s.count + 1 }.setCaller i (.retiring s.count s.sessions))
  | .retiring new (k :: old) => some ((s.setSession k (s.session k).close).setCaller i (.retiring new old))
  | .retiring new [] => some ({ s with connected := true }.setCaller i (.installed new))
  | .installed new => some ((s.setLoop new .running).setCaller i .idle)
  | .marked => some ({ s with connected := false }.setCaller i .lowered)
  | .lowered => some (s.setCaller i (.shutting s.sessions))
  | .shutting (k :: rest) => some ((s.setSession k (s.session k).close).setCaller i (.shutting rest))
  | .shutting [] => some (s.setCaller i .idle)

def lose (s : Client) (k : Nat) : Option Client :=
  if k < s.count ∧ (s.session k).conn = .up then
    some { s.setSession k { s.session k with conn := .lost } with
      losses := if s.sessions.head? = some k then s.losses ++ [k] else s.losses }
  else none

/-- The loop finds its connection down, or a unidirectional stream without a first frame
that can be read, on whatever connection. That of a session of the pool's rest has nothing
left to do if the client is closed. -/
def leave (s : Client) (k : Nat) : Option Client :=
  if (s.session k).loop = .running then
    if (s.session k).primary then some { s.setLoop k .ended with connected := false }
    else some (s.setLoop k (if s.closed then .finished else .ended))
  else none

/-- The callbacks of a primary session fire unless the client is closed; another
session is taken out of the pool. -/
def notify (s : Client) (k : Nat) : Option Client :=
  if (s.session k).loop = .ended then
    if (s.session k).primary then
      some { s.setLoop k .finished with fired := if s.closed then s.fired else s.fired ++ [k] }
    else some { s.setLoop k .finished with sessions := s.sessions.filter (fun other => other ≠ k) }
  else none

def step : Step Client Label
  | s, .reconnect i => reconnect s i
  | s, .close i => close s i
  | s, .advance i => advance s i
  | s, .lose k => lose s k
  | s, .leave k => leave s k
  | s, .notify k => notify s k

/-- Nothing is half-way: no call is under way, and every loop that is past its end or has
its connection down has done all it does. -/
def Quiet (s : Client) : Prop :=
  (∀ i, s.callers i = .idle) ∧ (∀ k, (s.session k).conn ≠ .up → (s.session k).loop = .finished) ∧
    ∀ k, (s.session k).loop ≠ .ended

/-- What the flag and the callbacks are to tell. -/
def Faithful (s : Client) : Prop :=
  Quiet s →
    (s.connected = true ↔
      (∃ k, s.sessions.head? = some k ∧ (s.session k).loop = .running) ∧ s.closed = false) ∧
    ∀ k, s.fired.count k = s.losses.count k

def Call.Reconnects : Call → Prop
  | .reopened => True
  | .retiring .. => True
  | .installed _ => True
  | _ => False

/-- `reconnect` starts when no other call is under way and the loop of the primary
session has finished, `close` when no `reconnect` is under way and the callbacks
of no loss are outstanding; no primary connection is lost while the client closes, and the
loop of a primary session ends when its connection is down. -/
def Careful (s : Client) : Label → Prop
  | .reconnect _ => (∀ j, s.callers j = .idle) ∧ ∀ k, s.sessions.head? = some k → (s.session k).loop = .finished
  | .close _ => (∀ j, ¬ (s.callers j).Reconnects) ∧ ∀ k ∈ s.losses, (s.session k).loop = .finished
  | .lose k => s.sessions.head? = some k → s.closed = false
  | .leave k => (s.session k).primary = true → (s.session k).conn ≠ .up
  | _ => True

/-- A session against how often it was lost and how often it fired the callbacks.
A primary one that is no longer first is over; its loss is outstanding only while
the client is open, and the client closed its connection only while closed. -/
structure Entry (known first : Prop) (closed : Bool) (losses fired : Nat) (session : Session) : Prop where
  unused : ¬ known → session.loop = .unspawned ∧ losses = 0
  replaced : session.primary = true → ¬ first → session.loop = .finished
  down : session.primary = true → session.loop = .ended ∨ session.loop = .finished → session.conn ≠ .up
  lost : losses ≠ 0 → session.primary = true ∧ session.conn = .lost
  noted : session.primary = true → session.conn = .lost → losses ≠ 0
  outstanding : losses ≠ 0 → session.loop ≠ .finished → closed = false
  shut : session.primary = true → session.conn = .closed → session.loop ≠ .finished → closed = true
  once : losses ≤ 1
  counted : fired = if session.loop = .finished then losses else 0

structure Books (s : Client) (cur : Nat) : Prop where
  pool : ∃ rest, s.sessions = cur :: rest ∧ ∀ k ∈ rest, (s.session k).primary = false
  main : (s.session cur).primary = true
  known : ∀ k ∈ s.sessions, k < s.count
  entry : ∀ k, Entry (k < s.count) (k = cur) s.closed (s.losses.count k) (s.fired.count k) (s.session k)

/-- The flags while no `reconnect` is under way. -/
structure Steady (s : Client) (cur : Nat) : Prop where
  still : ∀ i, ¬ (s.callers i).Reconnects
  spawned : (s.session cur).loop ≠ .unspawned
  opened : s.closed = false → (s.connected = true ↔ (s.session cur).loop = .running)
  shut : s.closed = true → s.connected = false ∨ ∃ i, s.callers i = .marked

/-- What is true of the flag `connected` and of the loops while a call of
`reconnect` is at the given point. -/
def During (s : Client) (cur : Nat) : Call → Prop
  | .reopened => s.connected = false ∧ (s.session cur).loop = .finished
  | .retiring new old => new = cur ∧ s.connected = false ∧ (s.session cur).loop = .unspawned ∧
      ∀ k ∈ old, (s.session k).primary = true → (s.session k).loop = .finished
  | .installed new => new = cur ∧ s.connected = true ∧ (s.session cur).loop = .unspawned
  | _ => False

inductive Phase (s : Client) (cur : Nat) : Prop where
  | steady (steady : Steady s cur)
  | reconnecting (i : Nat) (alone : ∀ j, j ≠ i → s.callers j = .idle) (opened : s.closed = false)
      (during : During s cur (s.callers i))

def Call.Closes : Call → Prop
  | .marked => True
  | .lowered => True
  | .shutting _ => True
  | _ => False

structure Sound (s : Client) : Prop where
  state : ∃ cur, Books s cur ∧ Phase s cur
  closing : ∀ i, (s.callers i).Closes → s.closed = true

variable {s t : Client} {cur i k : Nat}

namespace Client

@[simp] theorem setSession_self (s : Client) (k : Nat) (session : Session) :
    (s.setSession k session).session k = session := by
  simp [setSession]

theorem setSession_other (s : Client) (session : Session) {j : Nat} (differ : j ≠ k) :
    (s.setSession k session).session j = s.session j := by
  simp [setSession, differ]

@[simp] theorem setCaller_self (s : Client) (i : Nat) (call : Call) : (s.setCaller i call).callers i = call := by
  simp [setCaller]

theorem setCaller_other (s : Client) (call : Call) {j : Nat} (differ : j ≠ i) :
    (s.setCaller i call).callers j = s.callers j := by
  simp [setCaller, differ]

theorem closing_setCaller {s : Client} {call : Call} {P : Prop} (closing : ∀ j, (s.callers j).Closes → P)
    (here : call.Closes → P) (j : Nat) (closes : ((s.setCaller i call).callers j).Closes) : P := by
  by_cases same : j = i
  · rw [same, setCaller_self] at closes
    exact here closes
  · rw [setCaller_other s call same] at closes
    exact closing j closes

theorem still_setCaller {s : Client} {call : Call} (still : ∀ j, ¬ (s.callers j).Reconnects)
    (here : ¬ call.Reconnects) (j : Nat) : ¬ ((s.setCaller i call).callers j).Reconnects := by
  by_cases same : j = i
  · rw [same, setCaller_self]
    exact here
  · rw [setCaller_other s call same]
    exact still j

theorem alone_setCaller {s : Client} {call : Call} (alone : ∀ j, j ≠ i → s.callers j = .idle) (j : Nat)
    (differ : j ≠ i) : (s.setCaller i call).callers j = .idle := by
  rw [setCaller_other s call differ]
  exact alone j differ

end Client

/-- The books do not record the flag `connected` or the calls. -/
theorem Books.flags (books : Books s cur) (connected : Bool) (callers : Nat → Call) :
    Books { s with connected, callers } cur :=
  ⟨books.pool, books.main, books.known, books.entry⟩

theorem Entry.of_secondary {known first : Prop} {closed : Bool} {losses fired : Nat} {session : Session}
    (entry : Entry known first closed losses fired session) (secondary : session.primary = false) :
    losses = 0 ∧ fired = 0 := by
  have none_lost : losses = 0 := by
    by_contra some_lost
    rw [(entry.lost some_lost).1] at secondary
    cases secondary
  refine ⟨none_lost, ?_⟩
  rw [entry.counted, none_lost]
  split <;> rfl

theorem init_entry (more k : Nat) :
    Entry (k < more + 1) (k = 0) false 0 0 ⟨k == 0, .up, if k ≤ more then .running else .unspawned⟩ := by
  have going : (if k ≤ more then Loop.running else .unspawned) ≠ .finished ∧
      (if k ≤ more then Loop.running else .unspawned) ≠ .ended := by
    by_cases spawned : k ≤ more
    · simp [if_pos spawned]
    · simp [if_neg spawned]
  constructor
  · intro beyond
    exact ⟨if_neg (by omega), rfl⟩
  · intro primary differ
    exact absurd (beq_iff_eq.mp primary) differ
  · intro _ past
    rcases past with ended | finished
    · exact absurd ended going.2
    · exact absurd finished going.1
  · intro lost
    exact absurd rfl lost
  · intro _ lost
    cases lost
  · intro lost
    exact absurd rfl lost
  · intro _ closed
    cases closed
  · exact Nat.zero_le 1
  · exact (if_neg going.1).symm

theorem init_sound (more : Nat) : Sound (.init more) := by
  have first : ((Client.init more).session 0).loop = .running := by simp [Client.init]
  constructor
  · refine ⟨0, ?_, ?_⟩
    · constructor
      · refine ⟨(List.range more).map Nat.succ, List.range_succ_eq_map, fun k member => ?_⟩
        obtain ⟨j, _, rfl⟩ := List.mem_map.mp member
        rfl
      · rfl
      · exact fun k member => List.mem_range.mp member
      · exact init_entry more
    · refine .steady ⟨fun _ => id, ?_, fun _ => ⟨fun _ => first, fun _ => rfl⟩, fun closed => ?_⟩
      · rw [first]
        exact Loop.noConfusion
      · cases closed
  · intro i closes
    cases closes

variable {known first : Prop} {closed : Bool} {losses fired : Nat} {session : Session}

/-- The client may close a connection while it is closed itself, and otherwise
that of a session that is over or not primary. -/
theorem Entry.close (entry : Entry known first closed losses fired session)
    (allowed : closed = true ∨ (session.primary = true → session.loop = .finished)) :
    Entry known first closed losses fired session.close := by
  by_cases up : session.conn = .up
  · have shut : session.close = { session with conn := .closed } := by rw [Session.close, if_pos up]
    rw [shut]
    constructor
    · exact entry.unused
    · exact entry.replaced
    · intro _ _
      exact Conn.noConfusion
    · intro lost
      rw [(entry.lost lost).2] at up
      cases up
    · intro _ lost
      cases lost
    · exact entry.outstanding
    · intro primary _ going
      rcases allowed with is_closed | past
      · exact is_closed
      · exact absurd (past primary) going
    · exact entry.once
    · exact entry.counted
  · have same : session.close = session := by rw [Session.close, if_neg up]
    rw [same]
    exact entry

theorem Entry.go (entry : Entry known first closed losses fired session) {loop : Loop} (is_known : known)
    (going : session.loop ≠ .finished) (goes : loop ≠ .finished)
    (down : session.primary = true → loop = .ended → session.conn ≠ .up) :
    Entry known first closed losses fired { session with loop } := by
  constructor
  · intro unknown
    exact absurd is_known unknown
  · intro primary differ
    exact absurd (entry.replaced primary differ) going
  · intro primary past
    rcases past with ended | finished
    · exact down primary ended
    · exact absurd finished goes
  · exact entry.lost
  · exact entry.noted
  · intro lost _
    exact entry.outstanding lost going
  · intro primary is_closed _
    exact entry.shut primary is_closed going
  · exact entry.once
  · rw [entry.counted, if_neg going]
    exact (if_neg goes).symm

theorem Entry.allocate (entry : Entry known first closed losses fired session) {nowKnown nowFirst : Prop}
    (unknown : ¬ known) (is_known : nowKnown) (is_first : nowFirst) :
    Entry nowKnown nowFirst closed losses fired ⟨true, .up, .unspawned⟩ := by
  obtain ⟨unspawned, none_lost⟩ := entry.unused unknown
  have unfired : fired = 0 := by
    rw [entry.counted, unspawned]
    rfl
  rw [none_lost, unfired]
  refine ⟨fun no => absurd is_known no, fun _ no => absurd is_first no, fun _ past => ?_, fun lost => absurd rfl lost,
    fun _ lost => ?_, fun lost => absurd rfl lost, fun _ closed => ?_, Nat.zero_le 1, rfl⟩
  · rcases past with ended | finished
    · cases ended
    · cases finished
  · cases lost
  · cases closed

theorem Entry.finish (entry : Entry known first closed losses fired session) {now : Nat} (is_known : known)
    (down : session.primary = true → session.conn ≠ .up) (counted : now = losses) :
    Entry known first closed losses now { session with loop := .finished } := by
  constructor
  · intro unknown
    exact absurd is_known unknown
  · intro _ _
    rfl
  · intro primary _
    exact down primary
  · exact entry.lost
  · exact entry.noted
  · intro _ going
    exact absurd rfl going
  · intro _ _ going
    exact absurd rfl going
  · exact entry.once
  · rw [counted]
    exact (if_pos rfl).symm

theorem Entry.lose (entry : Entry known first closed losses fired session) (is_known : known) (up : session.conn = .up)
    (main : first → session.primary = true) (careful : first → closed = false) {now : Nat}
    (written : first → now = losses + 1) (elsewhere : ¬ first → now = losses) :
    Entry known first closed now fired { session with conn := .lost } := by
  have going : session.primary = true → session.loop ≠ .finished :=
    fun primary finished => entry.down primary (Or.inr finished) up
  have unlost : losses = 0 := by
    by_contra some_lost
    rw [(entry.lost some_lost).2] at up
    cases up
  have in_place : now ≠ 0 → first := by
    intro some_lost
    by_contra differ
    exact some_lost ((elsewhere differ).trans unlost)
  constructor
  · intro unknown
    exact absurd is_known unknown
  · exact entry.replaced
  · intro _ _
    exact Conn.noConfusion
  · intro some_lost
    exact ⟨main (in_place some_lost), rfl⟩
  · intro primary _
    have here : first := by
      by_contra differ
      exact going primary (entry.replaced primary differ)
    rw [written here]
    exact Nat.succ_ne_zero _
  · intro some_lost _
    exact careful (in_place some_lost)
  · intro _ closed
    cases closed
  · by_cases here : first
    · have just : now = 1 := by rw [written here, unlost]
      exact Nat.le_of_eq just
    · rw [elsewhere here, unlost]
      exact Nat.zero_le 1
  · by_cases here : first
    · rw [entry.counted, if_neg (going (main here))]
      exact (if_neg (going (main here))).symm
    · rw [elsewhere here]
      exact entry.counted

theorem Entry.told (entry : Entry known first closed losses fired session) (primary : session.primary = true)
    (at_end : session.loop = .ended) : (if closed then fired else fired + 1) = losses := by
  have going : session.loop ≠ .finished := by
    rw [at_end]
    exact Loop.noConfusion
  have unfired : fired = 0 := by
    rw [entry.counted, if_neg going]
  cases is_closed : closed with
  | true =>
    have none_lost : losses = 0 := by
      by_contra some_lost
      rw [entry.outstanding some_lost going] at is_closed
      cases is_closed
    rw [if_pos rfl, unfired, none_lost]
  | false =>
    have lost : session.conn = .lost := by
      cases conn : session.conn with
      | up => exact absurd conn (entry.down primary (Or.inl at_end))
      | lost => rfl
      | closed =>
        rw [entry.shut primary conn going] at is_closed
        cases is_closed
    have some_lost := entry.noted primary lost
    have once := entry.once
    rw [if_neg Bool.false_ne_true, unfired]
    omega

theorem Entry.reopen (entry : Entry known first closed losses fired session)
    (past : session.primary = true → session.loop = .finished) : Entry known first false losses fired session where
  unused := entry.unused
  replaced := entry.replaced
  down := entry.down
  lost := entry.lost
  noted := entry.noted
  outstanding _ _ := rfl
  shut primary _ going := absurd (past primary) going
  once := entry.once
  counted := entry.counted

theorem Entry.shutDown (entry : Entry known first closed losses fired session)
    (settled : losses ≠ 0 → session.loop = .finished) : Entry known first true losses fired session where
  unused := entry.unused
  replaced := entry.replaced
  down := entry.down
  lost := entry.lost
  noted := entry.noted
  outstanding lost going := absurd (settled lost) going
  shut _ _ _ := rfl
  once := entry.once
  counted := entry.counted

theorem Entry.retire (entry : Entry known first closed losses fired session) {stillKnown stillFirst : Prop}
    (same : stillKnown ↔ known) (past : session.primary = true → session.loop = .finished) :
    Entry stillKnown stillFirst closed losses fired session where
  unused unknown := entry.unused (fun is_known => unknown (same.mpr is_known))
  replaced primary _ := past primary
  down := entry.down
  lost := entry.lost
  noted := entry.noted
  outstanding := entry.outstanding
  shut := entry.shut
  once := entry.once
  counted := entry.counted

theorem Books.update (books : Books s cur) (sessions : t.sessions = s.sessions) (count : t.count = s.count)
    (same : t.closed = s.closed) (primary : (t.session k).primary = (s.session k).primary)
    (others : ∀ j, j ≠ k → t.session j = s.session j ∧ t.losses.count j = s.losses.count j ∧
      t.fired.count j = s.fired.count j)
    (entry : Entry (k < s.count) (k = cur) s.closed (t.losses.count k) (t.fired.count k) (t.session k)) :
    Books t cur := by
  have keeps : ∀ j, (t.session j).primary = (s.session j).primary := by
    intro j
    by_cases here : j = k
    · rw [here, primary]
    · rw [(others j here).1]
  obtain ⟨rest, pool, secondary⟩ := books.pool
  constructor
  · refine ⟨rest, sessions.trans pool, fun j member => ?_⟩
    rw [keeps, secondary j member]
  · rw [keeps, books.main]
  · intro j member
    rw [sessions] at member
    rw [count]
    exact books.known j member
  · intro j
    rw [count, same]
    by_cases here : j = k
    · rw [here]
      exact entry
    · obtain ⟨session, losses, fired⟩ := others j here
      rw [session, losses, fired]
      exact books.entry j

theorem Books.setSession (books : Books s cur) {session : Session}
    (entry : Entry (k < s.count) (k = cur) s.closed (s.losses.count k) (s.fired.count k) session)
    (primary : session.primary = (s.session k).primary) :
    Books (s.setSession k session) cur := by
  refine books.update rfl rfl rfl ?_ (fun j (differ : j ≠ k) => ?_) ?_
  · rw [s.setSession_self, primary]
  · exact ⟨s.setSession_other session differ, rfl, rfl⟩
  · rw [s.setSession_self]
    exact entry

theorem Books.head (books : Books s cur) : s.sessions.head? = some cur := by
  obtain ⟨rest, pool, _⟩ := books.pool
  rw [pool]
  rfl

theorem Books.finished_of_primary (books : Books s cur) (finished : (s.session cur).loop = .finished) (k : Nat)
    (primary : (s.session k).primary = true) : (s.session k).loop = .finished := by
  by_cases here : k = cur
  · rw [here, finished]
  · exact (books.entry k).replaced primary here

theorem reconnect_sound (sound : Sound s) (careful : Careful s (.reconnect i)) (stepped : reconnect s i = some t) :
    Sound t := by
  obtain ⟨⟨cur, books, phase⟩, _⟩ := sound
  obtain ⟨idle, past⟩ := careful
  have finished := past cur books.head
  unfold reconnect at stepped
  rw [idle i] at stepped
  cases stepped
  have off : s.connected = false := by
    cases phase with
    | steady steady =>
      cases closed : s.closed with
      | true =>
        rcases steady.shut closed with off | ⟨j, marked⟩
        · exact off
        · rw [idle j] at marked
          cases marked
      | false =>
        have running := steady.opened closed
        rw [finished] at running
        rw [← Bool.not_eq_true]
        exact fun on => Loop.noConfusion (running.mp on)
    | reconnecting j alone opened during =>
      rw [idle j] at during
      cases during
  constructor
  · refine ⟨cur, ?_, ?_⟩
    · refine ⟨books.pool, books.main, books.known, fun k => ?_⟩
      exact (books.entry k).reopen (books.finished_of_primary finished k)
    · refine .reconnecting i (Client.alone_setCaller (fun j _ => idle j)) rfl ?_
      rw [Client.setCaller_self]
      exact ⟨off, finished⟩
  · apply Client.closing_setCaller
    · intro j closes
      change (s.callers j).Closes at closes
      rw [idle j] at closes
      cases closes
    · intro closes
      cases closes

theorem During.reconnects {call : Call} (during : During s cur call) : call.Reconnects := by
  cases call <;> trivial

theorem Call.Closes.not_reconnects {call : Call} (closes : call.Closes) : ¬ call.Reconnects := by
  cases call <;> first | exact id | cases closes

theorem During.loop {call : Call} (during : During s cur call) :
    (s.session cur).loop = .finished ∨ (s.session cur).loop = .unspawned := by
  cases call with
  | reopened => exact Or.inl during.2
  | retiring new old => exact Or.inr during.2.2.1
  | installed new => exact Or.inr during.2.2
  | _ => cases during

theorem Phase.steady_of_closes (phase : Phase s cur) (closes : (s.callers i).Closes) : Steady s cur := by
  cases phase with
  | steady steady => exact steady
  | reconnecting j alone opened during =>
    by_cases same : i = j
    · rw [same] at closes
      exact absurd during.reconnects closes.not_reconnects
    · rw [alone i same] at closes
      cases closes

theorem Phase.steady_of_loop (phase : Phase s cur) (spawned : (s.session cur).loop ≠ .unspawned)
    (going : (s.session cur).loop ≠ .finished) : Steady s cur := by
  cases phase with
  | steady steady => exact steady
  | reconnecting j alone opened during =>
    rcases during.loop with finished | unspawned
    · exact absurd finished going
    · exact absurd unspawned spawned

theorem Phase.of_reconnects (phase : Phase s cur) (reconnects : (s.callers i).Reconnects) :
    (∀ j, j ≠ i → s.callers j = .idle) ∧ s.closed = false ∧ During s cur (s.callers i) := by
  cases phase with
  | steady steady => exact absurd reconnects (steady.still i)
  | reconnecting j alone opened during =>
    by_cases same : i = j
    · rw [same]
      exact ⟨alone, opened, during⟩
    · rw [alone i same] at reconnects
      cases reconnects

theorem close_sound (sound : Sound s) (careful : Careful s (.close i)) (stepped : close s i = some t) :
    Sound t := by
  obtain ⟨⟨cur, books, phase⟩, closing⟩ := sound
  obtain ⟨still, settled⟩ := careful
  unfold close at stepped
  split at stepped
  · cases stepped
    have steady : Steady s cur := by
      cases phase with
      | steady steady => exact steady
      | reconnecting j alone opened during => exact absurd during.reconnects (still j)
    refine ⟨⟨cur, ?_, .steady ⟨Client.still_setCaller still id, steady.spawned, fun opened => ?_, fun _ => ?_⟩⟩, ?_⟩
    · refine ⟨books.pool, books.main, books.known, fun k => ?_⟩
      apply (books.entry k).shutDown
      intro lost
      exact settled k (List.count_pos_iff.mp (Nat.pos_of_ne_zero lost))
    · cases opened
    · exact Or.inr ⟨i, Client.setCaller_self _ _ _⟩
    · exact Client.closing_setCaller (fun _ _ => rfl) (fun _ => rfl)
  · cases stepped

theorem marked_sound (sound : Sound s) (here : s.callers i = .marked) :
    Sound ({ s with connected := false }.setCaller i .lowered) := by
  obtain ⟨⟨cur, books, phase⟩, closing⟩ := sound
  have closes : (s.callers i).Closes := here ▸ trivial
  have closed := closing i closes
  have steady := phase.steady_of_closes closes
  refine ⟨⟨cur, books.flags false _, .steady ⟨Client.still_setCaller steady.still id, steady.spawned,
    fun opened => ?_, fun _ => Or.inl rfl⟩⟩, Client.closing_setCaller closing (fun _ => closed)⟩
  change s.closed = false at opened
  rw [closed] at opened
  cases opened

theorem Steady.setCaller (steady : Steady s cur) {call : Call} (here : s.callers i ≠ .marked)
    (next : ¬ call.Reconnects) : Steady (s.setCaller i call) cur := by
  refine ⟨Client.still_setCaller steady.still next, steady.spawned, steady.opened, fun closed => ?_⟩
  rcases steady.shut closed with off | ⟨j, marked⟩
  · exact Or.inl off
  · have differ : j ≠ i := by
      intro same
      rw [same] at marked
      exact here marked
    exact Or.inr ⟨j, (Client.setCaller_other s call differ).trans marked⟩

theorem Sound.closesOn (sound : Sound s) (closes : (s.callers i).Closes) (notMarked : s.callers i ≠ .marked)
    {call : Call} (next : ¬ call.Reconnects) : Sound (s.setCaller i call) := by
  obtain ⟨⟨cur, books, phase⟩, closing⟩ := sound
  have steady := phase.steady_of_closes closes
  exact ⟨⟨cur, books.flags _ _, .steady (steady.setCaller notMarked next)⟩,
    Client.closing_setCaller closing (fun _ => closing i closes)⟩

theorem lowered_sound (sound : Sound s) (here : s.callers i = .lowered) :
    Sound (s.setCaller i (.shutting s.sessions)) := by
  refine sound.closesOn (here ▸ trivial) ?_ id
  rw [here]
  exact Call.noConfusion

theorem setSession_loop {session : Session} (same : session.loop = (s.session k).loop) (j : Nat) :
    ((s.setSession k session).session j).loop = (s.session j).loop := by
  by_cases here : j = k
  · rw [here, s.setSession_self, same]
  · rw [s.setSession_other _ here]

theorem setSession_primary {session : Session} (same : session.primary = (s.session k).primary) (j : Nat) :
    ((s.setSession k session).session j).primary = (s.session j).primary := by
  by_cases here : j = k
  · rw [here, s.setSession_self, same]
  · rw [s.setSession_other _ here]

/-- Sessions stay primary or not, and the pool stays or a session that is not primary is
taken out of it. -/
structure Trims (s t : Client) : Prop where
  primary : ∀ k, (t.session k).primary = (s.session k).primary
  pool : t.sessions = s.sessions ∨
    ∃ k, (s.session k).primary = false ∧ t.sessions = s.sessions.filter (fun other => other ≠ k)

/-- A new session is the primary one and the whole pool. -/
structure Renews (s t : Client) : Prop where
  pool : t.sessions = [s.count]
  new : (t.session s.count).primary = true
  primary : ∀ k, k ≠ s.count → (t.session k).primary = (s.session k).primary

theorem Trims.still (primary : ∀ k, (t.session k).primary = (s.session k).primary) (pool : t.sessions = s.sessions) :
    Trims s t := ⟨primary, Or.inl pool⟩

theorem advance_pool (stepped : advance s i = some t) : Trims s t ∨ s.callers i = .reopened ∧ Renews s t := by
  have closing (k : Nat) : (s.session k).close.primary = (s.session k).primary := rfl
  unfold advance at stepped
  split at stepped
  · cases stepped
  · rename_i here
    cases stepped
    refine Or.inr ⟨here, rfl, congrArg Session.primary (s.setSession_self _ _), fun k differ => ?_⟩
    exact congrArg Session.primary (s.setSession_other _ differ)
  · cases stepped
    exact Or.inl (.still (setSession_primary (closing _)) rfl)
  · cases stepped
    exact Or.inl (.still (fun _ => rfl) rfl)
  · cases stepped
    exact Or.inl (.still (setSession_primary rfl) rfl)
  · cases stepped
    exact Or.inl (.still (fun _ => rfl) rfl)
  · cases stepped
    exact Or.inl (.still (fun _ => rfl) rfl)
  · cases stepped
    exact Or.inl (.still (setSession_primary (closing _)) rfl)
  · cases stepped
    exact Or.inl (.still (fun _ => rfl) rfl)

theorem leave_pool (stepped : leave s k = some t) : Trims s t := by
  unfold leave at stepped
  split at stepped
  · split at stepped
    · cases stepped
      exact .still (setSession_primary rfl) rfl
    · cases stepped
      exact .still (setSession_primary rfl) rfl
  · cases stepped

theorem notify_pool (stepped : notify s k = some t) : Trims s t := by
  unfold notify at stepped
  split at stepped
  · split at stepped
    · cases stepped
      exact .still (setSession_primary rfl) rfl
    · rename_i secondary
      cases stepped
      exact ⟨setSession_primary rfl, Or.inr ⟨k, Bool.eq_false_iff.2 secondary, rfl⟩⟩
  · cases stepped

theorem step_pool {label : Label} (stepped : step s label = some t) :
    Trims s t ∨ ∃ i, label = .advance i ∧ s.callers i = .reopened ∧ Renews s t := by
  cases label with
  | reconnect i =>
    simp only [step, reconnect] at stepped
    split at stepped
    · cases stepped
      exact Or.inl (.still (fun _ => rfl) rfl)
    · cases stepped
  | close i =>
    simp only [step, close] at stepped
    split at stepped
    · cases stepped
      exact Or.inl (.still (fun _ => rfl) rfl)
    · cases stepped
  | advance i =>
    rcases advance_pool stepped with trims | ⟨here, renews⟩
    · exact Or.inl trims
    · exact Or.inr ⟨i, rfl, here, renews⟩
  | lose k =>
    simp only [step, lose] at stepped
    split at stepped
    · cases stepped
      exact Or.inl (.still (setSession_primary rfl) rfl)
    · cases stepped
  | leave k => exact Or.inl (leave_pool stepped)
  | notify k => exact Or.inl (notify_pool stepped)

theorem shutting_sound {rest : List Nat} (sound : Sound s) (here : s.callers i = .shutting (k :: rest)) :
    Sound ((s.setSession k (s.session k).close).setCaller i (.shutting rest)) := by
  obtain ⟨⟨cur, books, phase⟩, closing⟩ := sound
  have closes : (s.callers i).Closes := here ▸ trivial
  have steady := phase.steady_of_closes closes
  have books_closed := books.setSession ((books.entry k).close (Or.inl (closing i closes))) rfl
  have same_loop : (s.session k).close.loop = (s.session k).loop := rfl
  have steady_closed : Steady (s.setSession k (s.session k).close) cur := by
    refine ⟨steady.still, ?_, fun opened => ?_, steady.shut⟩
    · rw [setSession_loop same_loop]
      exact steady.spawned
    · rw [setSession_loop same_loop]
      exact steady.opened opened
  have closed : Sound (s.setSession k (s.session k).close) := ⟨⟨cur, books_closed, .steady steady_closed⟩, closing⟩
  refine closed.closesOn closes ?_ id
  change s.callers i ≠ .marked
  rw [here]
  exact Call.noConfusion

theorem shut_sound (sound : Sound s) (here : s.callers i = .shutting []) : Sound (s.setCaller i .idle) := by
  refine sound.closesOn (here ▸ trivial) ?_ id
  rw [here]
  exact Call.noConfusion

/-- The new session takes the place of the pool. -/
theorem reopened_sound (sound : Sound s) (here : s.callers i = .reopened) :
    Sound ({ s.setSession s.count ⟨true, .up, .unspawned⟩ with
      sessions := [s.count], count := s.count + 1 }.setCaller i (.retiring s.count s.sessions)) := by
  obtain ⟨⟨cur, books, phase⟩, closing⟩ := sound
  obtain ⟨alone, opened, during⟩ := phase.of_reconnects (here ▸ trivial : (s.callers i).Reconnects)
  rw [here] at during
  obtain ⟨off, finished⟩ := during
  have past := books.finished_of_primary finished
  refine ⟨⟨s.count, ?_, ?_⟩, Client.closing_setCaller closing False.elim⟩
  · refine ⟨⟨[], rfl, fun k member => absurd member List.not_mem_nil⟩, ?_, fun k member => ?_, fun k => ?_⟩
    · exact congrArg Session.primary (s.setSession_self s.count ⟨true, .up, .unspawned⟩)
    · rw [List.mem_singleton.mp member]
      exact Nat.lt_succ_self s.count
    · by_cases new : k = s.count
      · subst new
        change Entry _ _ s.closed (s.losses.count s.count) (s.fired.count s.count)
          ((s.setSession s.count ⟨true, .up, .unspawned⟩).session s.count)
        rw [s.setSession_self]
        exact (books.entry s.count).allocate (Nat.lt_irrefl _) (Nat.lt_succ_self _) rfl
      · change Entry _ _ s.closed (s.losses.count k) (s.fired.count k)
          ((s.setSession s.count ⟨true, .up, .unspawned⟩).session k)
        rw [s.setSession_other _ new]
        apply (books.entry k).retire _ (past k)
        change k < s.count + 1 ↔ k < s.count
        omega
  · refine .reconnecting i (Client.alone_setCaller alone) opened ?_
    rw [Client.setCaller_self]
    refine ⟨rfl, off, ?_, fun k member => ?_⟩
    · exact congrArg Session.loop (s.setSession_self s.count ⟨true, .up, .unspawned⟩)
    · have known : k ≠ s.count := Nat.ne_of_lt (books.known k member)
      change ((s.setSession s.count _).session k).primary = true → ((s.setSession s.count _).session k).loop = _
      rw [s.setSession_other _ known]
      exact past k

theorem retiring_sound {new : Nat} {old : List Nat} (sound : Sound s) (here : s.callers i = .retiring new (k :: old)) :
    Sound ((s.setSession k (s.session k).close).setCaller i (.retiring new old)) := by
  obtain ⟨⟨cur, books, phase⟩, closing⟩ := sound
  obtain ⟨alone, opened, during⟩ := phase.of_reconnects (here ▸ trivial : (s.callers i).Reconnects)
  rw [here] at during
  obtain ⟨same, off, fresh, past⟩ := during
  have closed := books.setSession ((books.entry k).close (Or.inr (past k List.mem_cons_self))) rfl
  have same_loop : (s.session k).close.loop = (s.session k).loop := rfl
  have same_place : (s.session k).close.primary = (s.session k).primary := rfl
  refine ⟨⟨cur, closed.flags _ _, ?_⟩, Client.closing_setCaller closing False.elim⟩
  refine .reconnecting i (Client.alone_setCaller alone) opened ?_
  rw [Client.setCaller_self]
  refine ⟨same, off, (setSession_loop same_loop cur).trans fresh, fun j member => ?_⟩
  change ((s.setSession k (s.session k).close).session j).primary = true →
    ((s.setSession k (s.session k).close).session j).loop = _
  rw [setSession_primary same_place, setSession_loop same_loop]
  exact past j (List.mem_cons_of_mem _ member)

theorem retired_sound {new : Nat} (sound : Sound s) (here : s.callers i = .retiring new []) :
    Sound ({ s with connected := true }.setCaller i (.installed new)) := by
  obtain ⟨⟨cur, books, phase⟩, closing⟩ := sound
  obtain ⟨alone, opened, during⟩ := phase.of_reconnects (here ▸ trivial : (s.callers i).Reconnects)
  rw [here] at during
  obtain ⟨same, _, fresh, _⟩ := during
  refine ⟨⟨cur, books.flags true _, ?_⟩, Client.closing_setCaller closing False.elim⟩
  refine .reconnecting i (Client.alone_setCaller alone) opened ?_
  rw [Client.setCaller_self]
  exact ⟨same, rfl, fresh⟩

theorem installed_sound {new : Nat} (sound : Sound s) (here : s.callers i = .installed new) :
    Sound ((s.setLoop new .running).setCaller i .idle) := by
  obtain ⟨⟨cur, books, phase⟩, closing⟩ := sound
  obtain ⟨alone, opened, during⟩ := phase.of_reconnects (here ▸ trivial : (s.callers i).Reconnects)
  rw [here] at during
  obtain ⟨same, on, fresh⟩ := during
  subst same
  have known := books.known new (List.mem_of_mem_head? books.head)
  have going : (s.session new).loop ≠ .finished := by
    rw [fresh]
    exact Loop.noConfusion
  have entry : Entry _ _ _ _ _ { s.session new with loop := .running } :=
    (books.entry new).go known going Loop.noConfusion (fun _ ended => Loop.noConfusion ended)
  have running : ((s.setLoop new .running).session new).loop = .running :=
    congrArg Session.loop (s.setSession_self new _)
  refine ⟨⟨new, (books.setSession entry rfl).flags _ _, ?_⟩, Client.closing_setCaller closing False.elim⟩
  refine .steady ⟨fun j reconnects => ?_, ?_, fun _ => ⟨fun _ => running, fun _ => on⟩, fun closed => ?_⟩
  · by_cases this_call : j = i
    · rw [this_call, Client.setCaller_self] at reconnects
      exact reconnects
    · rw [Client.setCaller_other _ _ this_call] at reconnects
      change (s.callers j).Reconnects at reconnects
      rw [alone j this_call] at reconnects
      exact reconnects
  · change ((s.setLoop new .running).session new).loop ≠ .unspawned
    rw [running]
    exact Loop.noConfusion
  · change s.closed = true at closed
    rw [opened] at closed
    cases closed

theorem advance_sound (sound : Sound s) (stepped : advance s i = some t) : Sound t := by
  unfold advance at stepped
  split at stepped <;> cases stepped
  · exact reopened_sound sound ‹_›
  · exact retiring_sound sound ‹_›
  · exact retired_sound sound ‹_›
  · exact installed_sound sound ‹_›
  · exact marked_sound sound ‹_›
  · exact lowered_sound sound ‹_›
  · exact shutting_sound sound ‹_›
  · exact shut_sound sound ‹_›

theorem During.congr {call : Call} (during : During s cur call) (main : (s.session cur).primary = true)
    (loops : ∀ j, (s.session j).primary = true → (t.session j).loop = (s.session j).loop)
    (places : ∀ j, (t.session j).primary = (s.session j).primary) (connected : t.connected = s.connected) :
    During t cur call := by
  have here := loops cur main
  cases call with
  | reopened =>
    rw [During, connected, here]
    exact during
  | retiring new old =>
    obtain ⟨same, off, fresh, past⟩ := during
    refine ⟨same, connected.trans off, here.trans fresh, fun k member primary => ?_⟩
    rw [places] at primary
    rw [loops k primary]
    exact past k member primary
  | installed new =>
    rw [During, connected, here]
    exact during
  | _ => cases during

theorem Phase.congr (phase : Phase s cur) (main : (s.session cur).primary = true)
    (loops : ∀ j, (s.session j).primary = true → (t.session j).loop = (s.session j).loop)
    (places : ∀ j, (t.session j).primary = (s.session j).primary) (callers : t.callers = s.callers)
    (closed : t.closed = s.closed) (connected : t.connected = s.connected) : Phase t cur := by
  have here := loops cur main
  cases phase with
  | steady steady =>
    refine .steady ⟨?_, ?_, ?_, ?_⟩
    · rw [callers]
      exact steady.still
    · rw [here]
      exact steady.spawned
    · rw [closed, connected, here]
      exact steady.opened
    · rw [closed, connected, callers]
      exact steady.shut
  | reconnecting i alone opened during =>
    refine .reconnecting i ?_ ?_ ?_
    · rw [callers]
      exact alone
    · rw [closed, opened]
    · rw [callers]
      exact during.congr main loops places connected

theorem Phase.setLoop (phase : Phase s cur) (main : (s.session cur).primary = true)
    (secondary : (s.session k).primary = false) {loop : Loop} : Phase (s.setLoop k loop) cur := by
  refine phase.congr main (fun j primary => ?_) (fun j => ?_) rfl rfl rfl
  · have differ : j ≠ k := by
      intro same
      rw [same, secondary] at primary
      cases primary
    rw [Client.setLoop, s.setSession_other _ differ]
  · have same_place : ({ s.session k with loop } : Session).primary = (s.session k).primary := rfl
    exact setSession_primary same_place j

theorem Books.drop (books : Books s cur) (differ : cur ≠ k) :
    Books { s with sessions := s.sessions.filter (fun other => other ≠ k) } cur := by
  obtain ⟨rest, pool, secondary⟩ := books.pool
  refine ⟨⟨rest.filter (fun other => other ≠ k), ?_, fun j member => ?_⟩, books.main, fun j member => ?_, books.entry⟩
  · change s.sessions.filter (fun other => other ≠ k) = _
    rw [pool, List.filter_cons_of_pos (by simpa using differ)]
  · exact secondary j (List.mem_filter.mp member).1
  · exact books.known j (List.mem_filter.mp member).1

/-- A loss of the first session's connection is written down, and so it is only
while the client is open. -/
theorem lose_sound (sound : Sound s) (careful : Careful s (.lose k)) (stepped : lose s k = some t) : Sound t := by
  obtain ⟨⟨cur, books, phase⟩, closing⟩ := sound
  unfold lose at stepped
  split at stepped
  · rename_i may
    obtain ⟨known, up⟩ := may
    cases stepped
    have first_iff : s.sessions.head? = some k ↔ k = cur := by
      rw [books.head, Option.some_inj]
      exact eq_comm
    have main : k = cur → (s.session k).primary = true := by
      rintro rfl
      exact books.main
    have lost : Entry (k < s.count) (k = cur) s.closed
        ((if s.sessions.head? = some k then s.losses ++ [k] else s.losses).count k) (s.fired.count k)
        { s.session k with conn := .lost } := by
      refine (books.entry k).lose known up main (fun first => careful (first_iff.2 first)) (fun first => ?_) (fun differ => ?_)
      · rw [if_pos (first_iff.2 first), List.count_append, List.count_singleton_self]
      · rw [if_neg (mt first_iff.1 differ)]
    have same_loop : ({ s.session k with conn := .lost } : Session).loop = (s.session k).loop := rfl
    have same_place : ({ s.session k with conn := .lost } : Session).primary = (s.session k).primary := rfl
    refine ⟨⟨cur, ?_, ?_⟩, closing⟩
    · refine books.update rfl rfl rfl ?_ (fun j (differ : j ≠ k) => ?_) ?_
      · exact setSession_primary same_place k
      · refine ⟨s.setSession_other _ differ, ?_, rfl⟩
        change (if s.sessions.head? = some k then s.losses ++ [k] else s.losses).count j = _
        split
        · rw [List.count_append, List.count_singleton, if_neg (by simpa using Ne.symm differ)]
          rfl
        · rfl
      · change Entry _ _ _ _ _ ((s.setSession k _).session k)
        rw [s.setSession_self]
        exact lost
    · refine phase.congr books.main ?_ ?_ rfl rfl rfl
      · exact fun j _ => setSession_loop same_loop j
      · exact setSession_primary same_place
  · cases stepped

theorem Books.first_of_going (books : Books s cur) (primary : (s.session k).primary = true)
    (going : (s.session k).loop ≠ .finished) : k = cur := by
  by_contra differ
  exact going ((books.entry k).replaced primary differ)

theorem Books.known_of_spawned (books : Books s cur) (spawned : (s.session k).loop ≠ .unspawned) : k < s.count := by
  by_contra unknown
  exact spawned ((books.entry k).unused unknown).1

theorem leave_sound (sound : Sound s) (down : (s.session k).primary = true → (s.session k).conn ≠ .up)
    (stepped : leave s k = some t) : Sound t := by
  obtain ⟨⟨cur, books, phase⟩, closing⟩ := sound
  unfold leave at stepped
  split at stepped
  · rename_i running
    have going : (s.session k).loop ≠ .finished := by
      rw [running]
      exact Loop.noConfusion
    have spawned : (s.session k).loop ≠ .unspawned := by
      rw [running]
      exact Loop.noConfusion
    have known := books.known_of_spawned spawned
    have ended : Entry _ _ _ _ _ { s.session k with loop := .ended } :=
      (books.entry k).go known going Loop.noConfusion (fun primary _ => down primary)
    split at stepped
    · rename_i primary
      cases stepped
      have first := books.first_of_going primary going
      rw [first] at spawned going
      have steady := phase.steady_of_loop spawned going
      have at_end : ((s.setLoop k .ended).session cur).loop = .ended := by
        rw [← first]
        exact congrArg Session.loop (s.setSession_self k _)
      refine ⟨⟨cur, (books.setSession ended rfl).flags false _, .steady ⟨steady.still, ?_, fun _ => ?_,
        fun _ => Or.inl rfl⟩⟩, closing⟩
      · change ((s.setLoop k .ended).session cur).loop ≠ _
        rw [at_end]
        exact Loop.noConfusion
      · change false = true ↔ ((s.setLoop k .ended).session cur).loop = .running
        rw [at_end]
        exact iff_of_false Bool.false_ne_true Loop.noConfusion
    · rename_i secondary
      rw [Bool.not_eq_true] at secondary
      cases stepped
      have none_ever := (books.entry k).of_secondary secondary
      have left : Entry (k < s.count) (k = cur) s.closed (s.losses.count k) (s.fired.count k)
          { s.session k with loop := if s.closed then .finished else .ended } := by
        split
        · exact (books.entry k).finish known down (none_ever.2.trans none_ever.1.symm)
        · exact ended
      exact ⟨⟨cur, books.setSession left rfl, phase.setLoop books.main secondary⟩, closing⟩
  · cases stepped

/-- What is left to do fires the callbacks just for a loss that is outstanding. -/
theorem notify_sound (sound : Sound s) (stepped : notify s k = some t) : Sound t := by
  obtain ⟨⟨cur, books, phase⟩, closing⟩ := sound
  unfold notify at stepped
  split at stepped
  · rename_i at_end
    have going : (s.session k).loop ≠ .finished := by
      rw [at_end]
      exact Loop.noConfusion
    have spawned : (s.session k).loop ≠ .unspawned := by
      rw [at_end]
      exact Loop.noConfusion
    have known := books.known_of_spawned spawned
    have entry := books.entry k
    have down : (s.session k).primary = true → (s.session k).conn ≠ .up := fun primary => entry.down primary (Or.inl at_end)
    split at stepped
    · rename_i primary
      cases stepped
      have first := books.first_of_going primary going
      have told : (if s.closed then s.fired else s.fired ++ [k]).count k = s.losses.count k := by
        rw [← entry.told primary at_end]
        split
        · rfl
        · rw [List.count_append, List.count_singleton_self]
      have past := entry.finish known down told
      have finished : ((s.setLoop k .finished).session cur).loop = .finished := by
        rw [← first]
        exact congrArg Session.loop (s.setSession_self k _)
      rw [first] at spawned going at_end
      have steady := phase.steady_of_loop spawned going
      refine ⟨⟨cur, ?_, .steady ⟨steady.still, ?_, fun opened => ?_, steady.shut⟩⟩, closing⟩
      · refine books.update rfl rfl rfl ?_ (fun j (differ : j ≠ k) => ?_) ?_
        · have same_place : ({ s.session k with loop := .finished } : Session).primary = (s.session k).primary := rfl
          exact setSession_primary same_place k
        · refine ⟨s.setSession_other _ differ, rfl, ?_⟩
          change (if s.closed then s.fired else s.fired ++ [k]).count j = _
          split
          · rfl
          · rw [List.count_append, List.count_singleton, if_neg (by simpa using Ne.symm differ)]
            rfl
        · change Entry _ _ _ _ _ ((s.setSession k _).session k)
          rw [s.setSession_self]
          exact past
      · change ((s.setLoop k .finished).session cur).loop ≠ _
        rw [finished]
        exact Loop.noConfusion
      · change s.connected = true ↔ ((s.setLoop k .finished).session cur).loop = .running
        rw [finished, steady.opened opened, at_end]
        exact iff_of_false Loop.noConfusion Loop.noConfusion
    · rename_i secondary
      rw [Bool.not_eq_true] at secondary
      cases stepped
      have none_ever := entry.of_secondary secondary
      have past := entry.finish known down (none_ever.2.trans none_ever.1.symm)
      have differ : cur ≠ k := by
        intro same
        rw [← same, books.main] at secondary
        cases secondary
      have books_over := books.setSession past rfl
      have phase_over : Phase (s.setLoop k .finished) cur := phase.setLoop books.main secondary
      exact ⟨⟨cur, books_over.drop differ, phase_over.congr books_over.main (fun _ _ => rfl) (fun _ => rfl) rfl rfl rfl⟩,
        closing⟩
  · cases stepped

theorem step_sound (s : Client) (label : Label) (t : Client) (sound : Sound s) (careful : Careful s label)
    (stepped : step s label = some t) : Sound t := by
  cases label with
  | reconnect i => exact reconnect_sound sound careful stepped
  | close i => exact close_sound sound careful stepped
  | advance i => exact advance_sound sound stepped
  | lose k => exact lose_sound sound careful stepped
  | leave k => exact leave_sound sound careful stepped
  | notify k => exact notify_sound sound stepped

theorem Sound.faithful (sound : Sound s) : Faithful s := by
  obtain ⟨⟨cur, books, phase⟩, _⟩ := sound
  rintro ⟨idle, past, -⟩
  have steady : Steady s cur := by
    cases phase with
    | steady steady => exact steady
    | reconnecting i alone opened during =>
      rw [idle i] at during
      cases during
  constructor
  · cases closed : s.closed with
    | true =>
      have off : s.connected = false := by
        rcases steady.shut closed with off | ⟨i, marked⟩
        · exact off
        · exact Call.noConfusion ((idle i).symm.trans marked)
      rw [off]
      exact iff_of_false Bool.false_ne_true (fun both => Bool.noConfusion both.2)
    | false =>
      rw [steady.opened closed, books.head]
      refine ⟨fun running => ⟨⟨cur, rfl, running⟩, rfl⟩, fun ⟨⟨k, same, running⟩, _⟩ => ?_⟩
      cases same
      exact running
  · intro k
    have entry := books.entry k
    rw [entry.counted]
    by_cases finished : (s.session k).loop = .finished
    · rw [if_pos finished]
    · rw [if_neg finished]
      by_contra some_lost
      have lost := (entry.lost (Ne.symm some_lost)).2
      apply finished
      apply past k
      rw [lost]
      exact Conn.noConfusion

/-- In every state of a careful run in which nothing is half-way, the flag tells
whether the primary session's loop runs on an open client, and the callbacks have
fired once for each loss of a primary connection and for nothing else. -/
theorem lifecycle_faithful (more : Nat) {labels : List Label}
    (careful : Guarded step Careful (.init more) labels) : Always step Faithful (.init more) labels :=
  (guarded_always step_sound (init_sound more) careful).mono (fun _ sound => sound.faithful)

theorem lifecycle_faithful_lost :
    Always step Faithful (.init 0)
      [.lose 0, .leave 0, .notify 0, .reconnect 0, .advance 0, .advance 0, .advance 0, .advance 0] := by
  apply lifecycle_faithful 0
  refine .cons rfl ?_ (.cons rfl (fun _ => Conn.noConfusion) (.cons rfl trivial (.cons rfl ?_ (.cons rfl trivial (.cons rfl trivial
    (.cons rfl trivial (.cons rfl trivial trivial)))))))
  · exact fun _ => rfl
  · refine ⟨fun _ => rfl, fun k first => ?_⟩
    cases first
    rfl

/-- A live connection is replaced, and the loop of the old session ends after the
new one has been installed. -/
private def replaced : List Label :=
  [.reconnect 0, .advance 0, .advance 0, .advance 0, .advance 0, .leave 0, .notify 0]

private def afterReplaced : Client := (run step (.init 0) replaced).getD (.init 0)

/-- The client then does not count as connected although its session runs. -/
theorem replacing_disconnects : ¬ Always step Faithful (.init 0) replaced := by
  intro always
  have ran : run step (.init 0) replaced = some afterReplaced := rfl
  have faithful := always.last ran
  have quiet : Quiet afterReplaced := by
    refine ⟨fun i => ?_, fun k => ?_, fun k => ?_⟩
    · cases i <;> rfl
    · cases k with
      | zero => exact fun _ => rfl
      | succ k =>
        cases k with
        | zero => exact fun down => absurd rfl down
        | succ k => exact fun down => absurd rfl down
    · cases k with
      | zero => exact Loop.noConfusion
      | succ k =>
        cases k with
        | zero => exact Loop.noConfusion
        | succ k => exact Loop.noConfusion
  have running : afterReplaced.connected = true := (faithful quiet).1.mpr ⟨⟨1, rfl, rfl⟩, rfl⟩
  cases running

end EchoStream.Core.Lifecycle
