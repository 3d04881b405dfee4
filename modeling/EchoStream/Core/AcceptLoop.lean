import EchoStream.Foundation.Run
import EchoStream.Core.Connection

/-! The accept loop of a connection over the streams of its peer, which are open
all at once. Work on a stream goes on until a frame that has not come in or a
handler that has not returned is waited for. Who waits, the loop or a task of
the stream's own, is what the copies of the loop differ in. -/

namespace EchoStream.Core.AcceptLoop
open Foundation.Run
open Proto.Messages
open Handler Connection

inductive Host where
  | loop
  | task
deriving DecidableEq

/-- What is read after the first frame. -/
inductive Reading where
  | requests
  | events
  | rest
deriving DecidableEq

/-- What a handler runs for: a request of the channel, a request alone on its
stream, an event that others may follow, a single event, a stream. -/
inductive Handling where
  | channelled
  | sole
  | events
  | event
  | stream
deriving DecidableEq

inductive Phase where
  | opened
  | awaiting (host : Host)
  | reading (host : Host) (what : Reading)
  | handling (host : Host) (what : Handling)
  | finished
deriving DecidableEq

/-- A stream the peer opened: what has come in on it, what of it was not read yet,
and what was dispatched. -/
structure Incoming where
  dir : Direction
  contents : FrameIo
  left : FrameIo
  phase : Phase
  dispatched : List Message

/-- What some work on a stream comes to. -/
structure Turn where
  phase : Phase
  dispatched : List Message
  left : FrameIo
  breaks : Bool

def readOn (host : Host) : Reading → FrameIo → Turn
  | what, [] => ⟨.reading host what, [], [], false⟩
  | .requests, .ok (some (.request req)) :: rest => ⟨.handling host .channelled, [.request req], rest, false⟩
  | .events, .ok (some (.event event)) :: rest => ⟨.handling host .events, [.event event], rest, false⟩
  | what, .ok (some _) :: rest => readOn host what rest
  | _, .ok none :: rest => ⟨.finished, [], rest, false⟩
  | _, .error _ :: rest => ⟨.finished, [], rest, false⟩

/-- Who reads the first frame. -/
def firstHost : Front → Direction → Host
  | .server, .bi | .client, .bi => .task
  | .web, .bi | _, .uni => .loop

/-- What becomes of an event that is first on its stream. -/
def firstEvent : Front → Phase
  | .server | .web => .handling .task .events
  | .client => .handling .loop .event

def streamHost : Front → Host
  | .server | .web => .loop
  | .client => .task

/-- The loop ends where it reads itself and gets no first frame. -/
def readFirst (front : Front) (dir : Direction) : FrameIo → Turn
  | [] => ⟨.awaiting (firstHost front dir), [], [], false⟩
  | .ok (some (.request req)) :: rest =>
      match dir with
      | .bi =>
          if req.name = rpcChannelName then readOn (firstHost front .bi) .requests rest
          else ⟨.handling (firstHost front .bi) .sole, [.request req], rest, false⟩
      | .uni => ⟨.finished, [], rest, false⟩
  | .ok (some (.event event)) :: rest =>
      match dir with
      | .bi => ⟨.finished, [], rest, false⟩
      | .uni => ⟨firstEvent front, [.event event], rest, false⟩
  | .ok (some (.streamOpen opened)) :: rest =>
      match dir with
      | .bi => ⟨.handling (firstHost front .bi) .stream, [.streamOpen opened], rest, false⟩
      | .uni => ⟨.handling (streamHost front) .stream, [.streamOpen opened], rest, false⟩
  | .ok (some _) :: rest => ⟨.finished, [], rest, false⟩
  | .ok none :: rest | .error _ :: rest => ⟨.finished, [], rest, firstHost front dir = .loop⟩

def handled (front : Front) (host : Host) (left : FrameIo) : Handling → Turn
  | .channelled => readOn host .requests left
  | .sole =>
      match front with
      | .server | .web => readOn host .rest left
      | .client => ⟨.finished, [], left, false⟩
  | .events => readOn host .events left
  | .event | .stream => ⟨.finished, [], left, false⟩

structure Loop where
  alive : Bool
  ended : Bool
  streams : List Incoming

def Loop.init : Loop := ⟨true, false, []⟩

def Phase.inLoop : Phase → Bool
  | .awaiting host | .reading host _ | .handling host _ => host = .loop
  | .opened | .finished => false

/-- The loop is back at its two accepts. -/
def Loop.free (s : Loop) : Bool := s.streams.all (fun stream => !stream.phase.inLoop)

def Loop.turn (s : Loop) (i : Nat) (stream : Incoming) (turn : Turn) : Loop :=
  { s with
    ended := s.ended || turn.breaks
    streams := s.streams.set i
      { stream with phase := turn.phase, left := turn.left, dispatched := stream.dispatched ++ turn.dispatched } }

inductive Label where
  | opens (dir : Direction)
  | arrive (i : Nat) (result : Result (Option Message))
  | accept (i : Nat)
  | finish (i : Nat)
  | lose
  | notice

def Incoming.append (stream : Incoming) (result : Result (Option Message)) : Incoming :=
  { stream with contents := stream.contents ++ [result], left := stream.left ++ [result] }

def Incoming.proceed (front : Front) (stream : Incoming) : Turn :=
  match stream.phase with
  | .awaiting _ => readFirst front stream.dir stream.left
  | .reading host what => readOn host what stream.left
  | phase => ⟨phase, [], stream.left, false⟩

def step (front : Front) : Step Loop Label
  | s, .opens dir =>
      if s.alive then some { s with streams := s.streams ++ [⟨dir, [], [], .opened, []⟩] } else none
  | s, .arrive i result =>
      s.streams[i]?.map (fun stream => s.turn i (stream.append result) ((stream.append result).proceed front))
  | s, .accept i =>
      match s.streams[i]? with
      | some stream =>
          if stream.phase = .opened ∧ s.alive ∧ !s.ended ∧ s.free then
            some (s.turn i stream (readFirst front stream.dir stream.left))
          else none
      | none => none
  | s, .finish i =>
      match s.streams[i]? with
      | some stream =>
          match stream.phase with
          | .handling host what => some (s.turn i stream (handled front host stream.left what))
          | _ => none
      | none => none
  | s, .lose => some { s with alive := false }
  | s, .notice => if !s.alive ∧ !s.ended ∧ s.free then some { s with ended := true } else none

section Served

def terminal : Result (Option Message) → Bool
  | .ok (some _) => false
  | _ => true

def closed (frames : FrameIo) : Bool := frames.any terminal

def remaining (frames : FrameIo) : Reading → List Message
  | .requests => (requests frames).map .request
  | .events => (events frames).map .event
  | .rest => []

def afterwards (frames : FrameIo) : Handling → List Message
  | .channelled => remaining frames .requests
  | .events => remaining frames .events
  | .sole | .event | .stream => []

/-- What is dispatched from the phase on when these frames are left. -/
def todo (front : Front) (dir : Direction) (phase : Phase) (frames : FrameIo) : List Message :=
  match phase with
  | .opened | .awaiting _ => served front dir frames
  | .reading _ what => remaining frames what
  | .handling _ what => afterwards frames what
  | .finished => []

def Phase.waits : Phase → Bool
  | .awaiting _ | .reading _ _ => true
  | _ => false

/-- What was dispatched for the stream and what is to be are what its contents
call for. -/
structure Traced (front : Front) (stream : Incoming) : Prop where
  todo : ∀ more, served front stream.dir (stream.contents ++ more) =
    stream.dispatched ++ todo front stream.dir stream.phase (stream.left ++ more)
  unread : stream.phase ≠ .finished → closed stream.contents = closed stream.left

structure Kept (front : Front) (stream : Incoming) : Prop extends Traced front stream where
  waits : stream.phase.waits = true → stream.left = []

/-- The turn takes the work on from the phase with these frames left. -/
structure Fits (front : Front) (dir : Direction) (phase : Phase) (frames : FrameIo) (turn : Turn) : Prop where
  todo : ∀ more, todo front dir phase (frames ++ more) =
    turn.dispatched ++ AcceptLoop.todo front dir turn.phase (turn.left ++ more)
  unread : turn.phase ≠ .finished → phase ≠ .finished ∧ closed frames = closed turn.left
  waits : turn.phase.waits = true → turn.left = []

variable {front : Front} {dir : Direction} {host : Host} {stream : Incoming} {turn : Turn}

theorem Traced.take (traced : Traced front stream) (fits : Fits front stream.dir stream.phase stream.left turn) :
    Kept front
      { stream with phase := turn.phase, left := turn.left, dispatched := stream.dispatched ++ turn.dispatched } where
  todo more := by
    rw [traced.todo more, fits.todo more, List.append_assoc]
  unread going := by
    obtain ⟨before, same⟩ := fits.unread going
    rw [traced.unread before, same]
  waits := fits.waits

theorem Traced.append (traced : Traced front stream) (result : Result (Option Message)) :
    Traced front (stream.append result) where
  todo more := by
    rw [Incoming.append, List.append_assoc, List.append_assoc]
    exact traced.todo ([result] ++ more)
  unread going := by
    rw [Incoming.append, closed, closed, List.any_append, List.any_append]
    exact congrArg (· || _) (traced.unread going)

theorem readOn_fits (what : Reading) (frames : FrameIo) :
    Fits front dir (.reading host what) frames (readOn host what frames) := by
  induction frames with
  | nil => exact ⟨fun _ => rfl, fun _ => ⟨Phase.noConfusion, rfl⟩, fun _ => rfl⟩
  | cons result rest ih =>
    rcases result with e | msg
    · exact ⟨fun _ => by cases what <;> rfl, fun going => absurd (by cases what <;> rfl) going,
        fun waits => by cases what <;> cases waits⟩
    · cases msg with
      | none =>
        exact ⟨fun _ => by cases what <;> rfl, fun going => absurd (by cases what <;> rfl) going,
          fun waits => by cases what <;> cases waits⟩
      | some msg =>
        cases what with
        | requests =>
          cases msg with
          | request req => exact ⟨fun _ => rfl, fun _ => ⟨Phase.noConfusion, rfl⟩, fun waits => by cases waits⟩
          | _ => exact ⟨ih.todo, ih.unread, ih.waits⟩
        | events =>
          cases msg with
          | event event => exact ⟨fun _ => rfl, fun _ => ⟨Phase.noConfusion, rfl⟩, fun waits => by cases waits⟩
          | _ => exact ⟨ih.todo, ih.unread, ih.waits⟩
        | rest => cases msg <;> exact ⟨ih.todo, ih.unread, ih.waits⟩

theorem over_fits {phase : Phase} {frames rest : FrameIo} {breaks : Bool}
    (nothing : ∀ more, todo front dir phase (frames ++ more) = []) :
    Fits front dir phase frames ⟨.finished, [], rest, breaks⟩ where
  todo := nothing
  unread going := absurd rfl going
  waits waits := by cases waits

theorem readFirst_fits {phase : Phase} (before : phase = .opened ∨ ∃ host, phase = .awaiting host) (frames : FrameIo) :
    Fits front dir phase frames (readFirst front dir frames) := by
  have first : ∀ frames, todo front dir phase frames = served front dir frames := by
    intro frames
    rcases before with rfl | ⟨host, rfl⟩ <;> rfl
  have going : phase ≠ .finished := by
    rcases before with rfl | ⟨host, rfl⟩ <;> exact Phase.noConfusion
  have starts : ∀ msg host what rest, (∀ more, served front dir (.ok (some msg) :: more) = msg :: afterwards more what) →
      Fits front dir phase (.ok (some msg) :: rest) ⟨.handling host what, [msg], rest, false⟩ :=
    fun msg host what rest same =>
      ⟨fun more => (first _).trans (same (rest ++ more)), fun _ => ⟨going, rfl⟩, fun waits => by cases waits⟩
  cases frames with
  | nil => exact ⟨fun more => first more, fun _ => ⟨going, rfl⟩, fun _ => rfl⟩
  | cons result rest =>
    rcases result with e | msg
    · cases dir <;> exact over_fits (fun more => first _)
    · cases msg with
      | none => cases dir <;> exact over_fits (fun more => first _)
      | some msg =>
        cases msg with
        | request req =>
          cases dir with
          | bi =>
            rw [readFirst]
            by_cases reserved : req.name = rpcChannelName
            · rw [if_pos reserved]
              have reads : Fits front .bi (.reading (firstHost front .bi) .requests) rest _ := readOn_fits .requests rest
              have channel : ∀ more, served front .bi (.ok (some (.request req)) :: more) = remaining more .requests :=
                fun more => by simp [served, arrivals, reserved, messageOf, remaining]
              exact ⟨fun more => (first _).trans ((channel _).trans (reads.todo more)),
                fun waits => ⟨going, (reads.unread waits).2⟩, reads.waits⟩
            · rw [if_neg reserved]
              exact starts _ _ _ _ (fun more => by simp [served, arrivals, reserved, messageOf, afterwards])
          | uni => exact over_fits (fun more => first _)
        | event event =>
          cases dir with
          | bi => exact over_fits (fun more => first _)
          | uni =>
            cases front with
            | client => exact starts _ _ _ _ (fun more => rfl)
            | server => exact starts _ _ _ _ (fun more => by simp [served, arrivals, messageOf, afterwards, remaining])
            | web => exact starts _ _ _ _ (fun more => by simp [served, arrivals, messageOf, afterwards, remaining])
        | streamOpen opened => cases dir <;> exact starts _ _ _ _ (fun more => rfl)
        | _ => cases dir <;> exact over_fits (fun more => first _)

theorem handled_fits (what : Handling) (left : FrameIo) :
    Fits front dir (.handling host what) left (handled front host left what) := by
  have reads : ∀ reading, (∀ frames, todo front dir (.handling host what) frames = remaining frames reading) →
      Fits front dir (.handling host what) left (readOn host reading left) := by
    intro reading same
    have fits : Fits front dir (.reading host reading) left (readOn host reading left) := readOn_fits reading left
    exact ⟨fun more => (same _).trans (fits.todo more), fun going => ⟨Phase.noConfusion, (fits.unread going).2⟩, fits.waits⟩
  cases what with
  | channelled => exact reads .requests (fun _ => rfl)
  | sole =>
    cases front with
    | server => exact reads .rest (fun _ => rfl)
    | web => exact reads .rest (fun _ => rfl)
    | client => exact over_fits (fun _ => rfl)
  | events => exact reads .events (fun _ => rfl)
  | event => exact over_fits (fun _ => rfl)
  | stream => exact over_fits (fun _ => rfl)

theorem proceed_fits (stream : Incoming) : Fits front stream.dir stream.phase stream.left (stream.proceed front) := by
  unfold Incoming.proceed
  have still : stream.phase.waits = false →
      Fits front stream.dir stream.phase stream.left ⟨stream.phase, [], stream.left, false⟩ :=
    fun busy => ⟨fun _ => rfl, fun going => ⟨going, rfl⟩, fun waits => by rw [busy] at waits; cases waits⟩
  cases phase : stream.phase with
  | awaiting host => exact readFirst_fits (.inr ⟨host, rfl⟩) _
  | reading host what => exact readOn_fits what _
  | _ =>
    rw [phase] at still
    exact still rfl

end Served

/-- The streams are all on their way. -/
def Sound (front : Front) (s : Loop) : Prop := ∀ stream ∈ s.streams, Kept front stream

theorem Sound.turn {front : Front} {s : Loop} (sound : Sound front s) (i : Nat) {stream : Incoming} {turn : Turn}
    (traced : Traced front stream) (fits : Fits front stream.dir stream.phase stream.left turn) :
    Sound front (s.turn i stream turn) := by
  intro other member
  rcases List.mem_or_eq_of_mem_set member with old | rfl
  · exact sound other old
  · exact traced.take fits

inductive Effect (front : Front) (s : Loop) : Label → Loop → Prop
  | opened {dir} (alive : s.alive = true) :
      Effect front s (.opens dir) { s with streams := s.streams ++ [⟨dir, [], [], .opened, []⟩] }
  | arrived {i result stream} (found : s.streams[i]? = some stream) :
      Effect front s (.arrive i result) (s.turn i (stream.append result) ((stream.append result).proceed front))
  | accepted {i stream} (found : s.streams[i]? = some stream) (waiting : stream.phase = .opened) (alive : s.alive = true)
      (going : s.ended = false) (free : s.free = true) :
      Effect front s (.accept i) (s.turn i stream (readFirst front stream.dir stream.left))
  | finished {i stream host what} (found : s.streams[i]? = some stream) (running : stream.phase = .handling host what) :
      Effect front s (.finish i) (s.turn i stream (handled front host stream.left what))
  | lost : Effect front s .lose { s with alive := false }
  | noticed (dead : s.alive = false) : Effect front s .notice { s with ended := true }

theorem step_effect {front : Front} {s t : Loop} {label : Label} (stepped : step front s label = some t) :
    Effect front s label t := by
  cases label with
  | opens dir =>
    rw [step] at stepped
    split at stepped
    · rename_i alive
      cases stepped
      exact .opened alive
    · cases stepped
  | arrive i result =>
    rw [step, Option.map_eq_some_iff] at stepped
    obtain ⟨stream, found, rfl⟩ := stepped
    exact .arrived found
  | accept i =>
    rw [step] at stepped
    split at stepped
    · rename_i stream found
      split at stepped
      · rename_i may
        cases stepped
        exact .accepted found may.1 may.2.1 (by simpa using may.2.2.1) may.2.2.2
      · cases stepped
    · cases stepped
  | finish i =>
    rw [step] at stepped
    split at stepped
    · rename_i stream found
      split at stepped
      · rename_i running
        cases stepped
        exact .finished found running
      · cases stepped
    · cases stepped
  | lose =>
    cases stepped
    exact .lost
  | notice =>
    rw [step] at stepped
    split at stepped
    · rename_i may
      cases stepped
      exact .noticed (by simpa using may.1)
    · cases stepped

theorem step_sound {front : Front} {s t : Loop} {label : Label} (sound : Sound front s)
    (stepped : step front s label = some t) : Sound front t := by
  cases step_effect stepped with
  | opened alive =>
    intro stream member
    rcases List.mem_append.1 member with old | new
    · exact sound stream old
    · rw [List.mem_singleton] at new
      subst new
      exact ⟨⟨fun _ => rfl, fun _ => rfl⟩, fun waits => by cases waits⟩
  | arrived found =>
    have kept := sound _ (List.mem_of_getElem? found)
    exact sound.turn _ (kept.toTraced.append _) (proceed_fits _)
  | accepted found waiting =>
    have kept := sound _ (List.mem_of_getElem? found)
    exact sound.turn _ kept.toTraced (readFirst_fits (.inl waiting) _)
  | finished found running =>
    have kept := sound _ (List.mem_of_getElem? found)
    exact sound.turn _ kept.toTraced (by rw [running]; exact handled_fits _ _)
  | lost => exact sound
  | noticed => exact sound

section Ending

variable {front : Front} {s t : Loop} {label : Label}

def AtRest (front : Front) (s : Loop) : Prop :=
  ∀ i, step front s (.accept i) = none ∧ step front s (.finish i) = none

/-- The loop goes on, what is dispatched for a stream is what its own contents call
for, and all of it once everything has come in and been worked on. -/
def Faithful (front : Front) (s : Loop) : Prop :=
  s.alive = true →
    s.ended = false ∧
    (∀ stream ∈ s.streams, stream.dispatched <+: served front stream.dir stream.contents) ∧
    (AtRest front s → (∀ stream ∈ s.streams, closed stream.contents = true) →
      ∀ stream ∈ s.streams, stream.dispatched = served front stream.dir stream.contents)

/-- No stream whose first frame the loop reads itself begins with its end or with
an error. -/
def Careful (front : Front) (s : Loop) : Label → Prop
  | .accept i => ∀ stream result rest, s.streams[i]? = some stream → firstHost front stream.dir = .loop →
      stream.left = result :: rest → terminal result = false
  | .arrive i result => s.alive = true → ∀ stream host, s.streams[i]? = some stream → stream.phase = .awaiting host →
      firstHost front stream.dir = .loop → terminal result = false
  | _ => True

theorem readOn_breaks (host : Host) (what : Reading) (frames : FrameIo) : (readOn host what frames).breaks = false := by
  induction frames with
  | nil => rfl
  | cons result rest ih =>
    rcases result with e | msg
    · cases what <;> rfl
    · cases msg with
      | none => cases what <;> rfl
      | some msg => cases what <;> cases msg <;> first | rfl | exact ih

theorem handled_cases (front : Front) (host : Host) (left : FrameIo) (what : Handling) :
    (∃ reading, handled front host left what = readOn host reading left) ∨
      handled front host left what = ⟨.finished, [], left, false⟩ := by
  cases what with
  | channelled => exact .inl ⟨.requests, rfl⟩
  | sole =>
    cases front with
    | client => exact .inr rfl
    | _ => exact .inl ⟨.rest, rfl⟩
  | events => exact .inl ⟨.events, rfl⟩
  | _ => exact .inr rfl

theorem handled_breaks (front : Front) (host : Host) (left : FrameIo) (what : Handling) :
    (handled front host left what).breaks = false := by
  rcases handled_cases front host left what with ⟨reading, reads⟩ | finished
  · rw [reads, readOn_breaks]
  · rw [finished]

theorem readFirst_breaks (front : Front) (dir : Direction) (frames : FrameIo) :
    (readFirst front dir frames).breaks = true ↔
      firstHost front dir = .loop ∧ ∃ result rest, frames = result :: rest ∧ terminal result = true := by
  cases frames with
  | nil => simp [readFirst]
  | cons result rest =>
    rcases result with e | msg
    · cases dir <;> simp [readFirst, terminal]
    · cases msg with
      | none => cases dir <;> simp [readFirst, terminal]
      | some msg =>
        have goes : (readFirst front dir (.ok (some msg) :: rest)).breaks = false := by
          cases msg with
          | request req =>
            cases dir with
            | bi =>
              rw [readFirst]
              split
              · exact readOn_breaks ..
              · rfl
            | uni => rfl
          | _ => cases dir <;> rfl
        rw [goes]
        simp [terminal]

theorem Sound.prefixes (sound : Sound front s) :
    ∀ stream ∈ s.streams, stream.dispatched <+: served front stream.dir stream.contents := by
  intro stream member
  have whole := (sound stream member).todo []
  rw [List.append_nil] at whole
  rw [whole]
  exact List.prefix_append _ _

/-- What waits for a frame waits for one that has not come in. -/
theorem Kept.not_waiting {stream : Incoming} (kept : Kept front stream) (complete : closed stream.contents = true) :
    stream.phase.waits = false := by
  by_contra waits
  rw [Bool.not_eq_false] at waits
  have going : stream.phase ≠ .finished := by
    intro finished
    rw [finished] at waits
    cases waits
  rw [kept.unread going, kept.waits waits] at complete
  cases complete

theorem AtRest.finished (rest : AtRest front s) (sound : Sound front s) (alive : s.alive = true) (going : s.ended = false)
    (complete : ∀ stream ∈ s.streams, closed stream.contents = true) :
    ∀ stream ∈ s.streams, stream.phase = .finished := by
  have idle : ∀ stream ∈ s.streams, stream.phase = .opened ∨ stream.phase = .finished := by
    intro stream member
    have waits := (sound stream member).not_waiting (complete stream member)
    obtain ⟨i, found⟩ := List.getElem?_of_mem member
    cases phase : stream.phase with
    | handling host what =>
      have finishes := (rest i).2
      rw [step, found] at finishes
      simp only [phase] at finishes
      cases finishes
    | opened => exact .inl rfl
    | finished => exact .inr rfl
    | _ =>
      rw [phase] at waits
      cases waits
  have free : s.free = true := by
    rw [Loop.free, List.all_eq_true]
    intro stream member
    rcases idle stream member with phase | phase <;> rw [phase] <;> rfl
  intro stream member
  rcases idle stream member with opened | finished
  · obtain ⟨i, found⟩ := List.getElem?_of_mem member
    have accepts := (rest i).1
    rw [step, found] at accepts
    simp only [opened, alive, going, free] at accepts
    cases accepts
  · exact finished

theorem Sound.faithful (sound : Sound front s) (going : s.alive = true → s.ended = false) : Faithful front s := by
  intro alive
  refine ⟨going alive, sound.prefixes, fun rest complete stream member => ?_⟩
  have finished := rest.finished sound alive (going alive) complete stream member
  have whole := (sound stream member).todo []
  rw [finished, List.append_nil] at whole
  exact (whole.trans (List.append_nil _)).symm

/-- Bounds how often what has come in can be accepted or handled. -/
def Phase.work : Phase → Nat
  | .opened => 2
  | .handling .. => 1
  | _ => 0

def Loop.work (s : Loop) : Nat := (s.streams.map (fun stream => 2 * stream.left.length + stream.phase.work)).sum

theorem readOn_work (host : Host) (what : Reading) (frames : FrameIo) :
    2 * (readOn host what frames).left.length + (readOn host what frames).phase.work ≤ 2 * frames.length := by
  induction frames with
  | nil => exact Nat.le_refl 0
  | cons result rest ih =>
    have skipped : 2 * (readOn host what rest).left.length + (readOn host what rest).phase.work ≤
        2 * (result :: rest).length := by
      rw [List.length_cons]
      omega
    have taken : ∀ phase, Phase.work phase ≤ 1 → 2 * rest.length + phase.work ≤ 2 * (result :: rest).length := by
      intro phase little
      rw [List.length_cons]
      omega
    rcases result with e | msg
    · cases what <;> exact taken .finished (Nat.zero_le 1)
    · cases msg with
      | none => cases what <;> exact taken .finished (Nat.zero_le 1)
      | some msg => cases what <;> cases msg <;> first | exact skipped | exact taken (.handling ..) (Nat.le_refl 1)

theorem readFirst_work (front : Front) (dir : Direction) (frames : FrameIo) :
    2 * (readFirst front dir frames).left.length + (readFirst front dir frames).phase.work ≤ 2 * frames.length := by
  cases frames with
  | nil => exact Nat.le_refl 0
  | cons result rest =>
    have taken : ∀ phase, Phase.work phase ≤ 1 → 2 * rest.length + phase.work ≤ 2 * (result :: rest).length := by
      intro phase little
      rw [List.length_cons]
      omega
    rcases result with e | msg
    · exact taken .finished (Nat.zero_le 1)
    · cases msg with
      | none => exact taken .finished (Nat.zero_le 1)
      | some msg =>
        cases msg with
        | request req =>
          cases dir with
          | bi =>
            rw [readFirst]
            split
            · have read := readOn_work (firstHost front .bi) .requests rest
              rw [List.length_cons]
              omega
            · exact taken (.handling ..) (Nat.le_refl 1)
          | uni => exact taken .finished (Nat.zero_le 1)
        | event event =>
          cases dir with
          | bi => exact taken .finished (Nat.zero_le 1)
          | uni => exact taken (firstEvent front) (by cases front <;> exact Nat.le_refl 1)
        | streamOpen opened => cases dir <;> exact taken (.handling ..) (Nat.le_refl 1)
        | _ => exact taken .finished (Nat.zero_le 1)

theorem handled_work (front : Front) (host : Host) (left : FrameIo) (what : Handling) :
    2 * (handled front host left what).left.length + (handled front host left what).phase.work < 2 * left.length + 1 := by
  rcases handled_cases front host left what with ⟨reading, reads⟩ | finished
  · rw [reads]
    exact Nat.lt_succ_of_le (readOn_work ..)
  · rw [finished]
    exact Nat.lt_succ_self _

theorem turn_work {i : Nat} {stream : Incoming} (found : s.streams[i]? = some stream) {turn : Turn}
    (less : 2 * turn.left.length + turn.phase.work < 2 * stream.left.length + stream.phase.work) :
    (s.turn i stream turn).work < s.work := by
  have sums : ∀ (streams : List Incoming) (i : Nat) (f : Incoming → Nat) (new : Incoming), streams[i]? = some stream →
      f new < f stream → ((streams.set i new).map f).sum < (streams.map f).sum := by
    intro streams i f new
    induction streams generalizing i with
    | nil => exact fun none_there => by cases none_there
    | cons first rest ih =>
      intro there smaller
      cases i with
      | zero =>
        cases there
        simp only [List.set_cons_zero, List.map_cons, List.sum_cons]
        omega
      | succ i =>
        have later := ih i there smaller
        simp only [List.set_cons_succ, List.map_cons, List.sum_cons]
        omega
  exact sums s.streams i _ _ found less

def Label.own : Label → Prop
  | .accept _ | .finish _ => True
  | _ => False

theorem step_work (own : label.own) (stepped : step front s label = some t) : t.work < s.work := by
  cases step_effect stepped with
  | accepted found waiting =>
    refine turn_work found (Nat.lt_of_le_of_lt (readFirst_work ..) ?_)
    rw [waiting]
    exact Nat.lt_add_of_pos_right Nat.two_pos
  | finished found running =>
    refine turn_work found ?_
    rw [running]
    exact handled_work ..
  | opened | arrived | lost | noticed => exact own.elim

/-- With nothing new coming in, accepting and handling come to rest. -/
theorem comes_to_rest (front : Front) (s : Loop) :
    ∃ labels t, (∀ label ∈ labels, label.own) ∧ run (step front) s labels = some t ∧ AtRest front t := by
  induction size : s.work using Nat.strong_induction_on generalizing s with
  | _ n ih =>
    subst size
    by_cases moves : ∃ label t, label.own ∧ step front s label = some t
    · obtain ⟨label, t, own, stepped⟩ := moves
      obtain ⟨labels, last, all, ran, still⟩ := ih t.work (step_work own stepped) t rfl
      refine ⟨label :: labels, last, List.forall_mem_cons.2 ⟨own, all⟩, ?_, still⟩
      rw [run_cons, stepped]
      exact ran
    · have stuck : ∀ label, label.own → step front s label = none := by
        intro label own
        cases stepped : step front s label with
        | none => rfl
        | some t => exact absurd ⟨label, t, own, stepped⟩ moves
      exact ⟨[], s, List.forall_mem_nil _, rfl, fun i => ⟨stuck (.accept i) trivial, stuck (.finish i) trivial⟩⟩

/-- What the peer did: the streams that it opened, with what has come in on each. -/
def Loop.came (s : Loop) : List (Direction × FrameIo) := s.streams.map (fun stream => (stream.dir, stream.contents))

theorem turn_came (s : Loop) (i : Nat) (stream : Incoming) (turn : Turn) :
    (s.turn i stream turn).came = s.came.set i (stream.dir, stream.contents) := List.map_set

theorem own_came (own : label.own) (stepped : step front s label = some t) : t.alive = s.alive ∧ t.came = s.came := by
  have same : ∀ {i stream}, s.streams[i]? = some stream → ∀ turn, (s.turn i stream turn).came = s.came := by
    intro i stream found turn
    have there : s.came[i]? = some (stream.dir, stream.contents) := by
      rw [Loop.came, List.getElem?_map, found]
      rfl
    obtain ⟨within, its⟩ := List.getElem?_eq_some_iff.1 there
    rw [turn_came, ← its, List.set_getElem_self]
  cases step_effect stepped with
  | accepted found => exact ⟨rfl, same found _⟩
  | finished found => exact ⟨rfl, same found _⟩
  | opened | arrived | lost | noticed => exact own.elim

theorem comes_on (front : Front) (results : FrameIo) (s : Loop) {came : List (Direction × FrameIo)} {dir : Direction}
    {contents : FrameIo} (last : s.came = came ++ [(dir, contents)]) :
    ∃ labels t, run (step front) s labels = some t ∧ t.alive = s.alive ∧ t.came = came ++ [(dir, contents ++ results)] := by
  induction results generalizing s contents with
  | nil => exact ⟨[], s, rfl, rfl, by rw [last, List.append_nil]⟩
  | cons result rest ih =>
    have there : s.came[came.length]? = some (dir, contents) := by
      rw [last]
      exact List.getElem?_concat_length
    rw [Loop.came, List.getElem?_map, Option.map_eq_some_iff] at there
    obtain ⟨stream, found, same⟩ := there
    cases same
    have next : (s.turn came.length (stream.append result) ((stream.append result).proceed front)).came =
        came ++ [(stream.dir, stream.contents ++ [result])] := by
      rw [turn_came, last, List.set_append_right _ _ (Nat.le_refl _), Nat.sub_self]
      rfl
    obtain ⟨labels, t, ran, alive, all⟩ := ih _ next
    refine ⟨.arrive came.length result :: labels, t, ?_, alive, ?_⟩
    · rw [run_cons, step, found]
      exact ran
    · rw [all, List.append_assoc, List.singleton_append]

/-- Whatever the peer sends on streams of its own can come in, and be worked on. -/
theorem comes_in (front : Front) (s : Loop) (alive : s.alive = true) (incoming : List (Direction × FrameIo)) :
    ∃ labels t, run (step front) s labels = some t ∧ t.alive = true ∧ AtRest front t ∧ t.came = s.came ++ incoming := by
  induction incoming generalizing s with
  | nil =>
    obtain ⟨labels, t, own, ran, still⟩ := comes_to_rest front s
    have kept : t.alive = true ∧ t.came = s.came := by
      clear still
      induction labels generalizing s with
      | nil =>
        cases ran
        exact ⟨alive, rfl⟩
      | cons label rest ih =>
        obtain ⟨next, stepped, after⟩ := run_cons_some ran
        obtain ⟨first, others⟩ := List.forall_mem_cons.1 own
        obtain ⟨lives, same⟩ := own_came first stepped
        rw [← same]
        exact ih next (lives.trans alive) others after
    exact ⟨labels, t, ran, kept.1, still, by rw [kept.2, List.append_nil]⟩
  | cons first rest ih =>
    have opens : step front s (.opens first.1) = some { s with streams := s.streams ++ [⟨first.1, [], [], .opened, []⟩] } :=
      if_pos alive
    have opened : Loop.came { s with streams := s.streams ++ [⟨first.1, [], [], .opened, []⟩] } = s.came ++ [(first.1, [])] :=
      List.map_append
    obtain ⟨labels, mid, ran, lives, came⟩ := comes_on front first.2 _ opened
    obtain ⟨more, t, later, still_alive, still, all⟩ := ih mid (lives.trans alive)
    refine ⟨.opens first.1 :: (labels ++ more), t, ?_, still_alive, still, ?_⟩
    · rw [run_cons, opens, Option.bind_some, run_append, ran]
      exact later
    · rw [all, came, List.append_assoc]
      rfl

theorem ended_step (sound : Sound front s) (going : s.ended = false) (stepped : step front s label = some t)
    (alive : t.alive = true) : t.ended = false ↔ Careful front s label := by
  cases step_effect stepped with
  | opened => exact iff_of_true going trivial
  | @arrived i result stream found =>
    have kept := sound stream (List.mem_of_getElem? found)
    have breaks : ((stream.append result).proceed front).breaks = true ↔
        ∃ host, stream.phase = .awaiting host ∧ firstHost front stream.dir = .loop ∧ terminal result = true := by
      unfold Incoming.proceed
      cases phase : stream.phase with
      | awaiting host =>
        have read : stream.left = [] := kept.waits (by rw [phase]; rfl)
        simp only [Incoming.append, phase, readFirst_breaks, read, List.nil_append]
        constructor
        · rintro ⟨loop, first, rest, same, ends⟩
          cases same
          exact ⟨host, rfl, loop, ends⟩
        · rintro ⟨_, _, loop, ends⟩
          exact ⟨loop, result, [], rfl, ends⟩
      | reading host what => simp [Incoming.append, phase, readOn_breaks]
      | _ => simp [Incoming.append, phase]
    have ended : (s.turn i (stream.append result) ((stream.append result).proceed front)).ended =
        ((stream.append result).proceed front).breaks := by
      simp [Loop.turn, going]
    rw [ended, ← Bool.not_eq_true, breaks]
    constructor
    · intro none_breaks _ other host same phase loop
      rw [found] at same
      cases same
      by_contra ends
      exact none_breaks ⟨host, phase, loop, by simpa using ends⟩
    · rintro careful ⟨host, phase, loop, ends⟩
      rw [careful alive stream host found phase loop] at ends
      cases ends
  | @accepted i stream found =>
    have ended : (s.turn i stream (readFirst front stream.dir stream.left)).ended =
        (readFirst front stream.dir stream.left).breaks := by
      simp [Loop.turn, going]
    rw [ended, ← Bool.not_eq_true, readFirst_breaks]
    constructor
    · intro none_breaks other result rest same loop left
      rw [found] at same
      cases same
      by_contra ends
      exact none_breaks ⟨loop, result, rest, left, by simpa using ends⟩
    · rintro careful ⟨loop, result, rest, left, ends⟩
      rw [careful stream result rest found loop left] at ends
      cases ends
  | @finished i stream host what found =>
    refine iff_of_true ?_ trivial
    simp [Loop.turn, going, handled_breaks]
  | lost => cases alive
  | noticed dead =>
    change s.alive = true at alive
    rw [dead] at alive
    cases alive

theorem alive_step (stepped : step front s label = some t) (alive : t.alive = true) : s.alive = true := by
  cases step_effect stepped with
  | lost => cases alive
  | _ => exact alive

/-- In every state of a run the loop of a live connection goes on and dispatches
what the streams call for, exactly when every step is careful. -/
theorem faithful_iff_careful (front : Front) (labels : List Label) :
    Always (step front) (Faithful front) .init labels ↔ Guarded (step front) (Careful front) .init labels := by
  have start : Sound front .init := fun stream member => by cases member
  refine always_iff_guarded (fun _ _ _ => step_sound) ?_ ?_ labels start (start.faithful (fun _ => rfl))
  · intro s label t sound faithful careful stepped
    apply (step_sound sound stepped).faithful
    intro alive
    exact (ended_step sound (faithful (alive_step stepped alive)).1 stepped alive).2 careful
  · intro s label t sound faithful stepped kept
    by_cases alive : t.alive = true
    · exact (ended_step sound (faithful (alive_step stepped alive)).1 stepped alive).1 (kept alive).1
    · cases step_effect stepped with
      | arrived found => exact fun still => absurd still alive
      | accepted found waiting still => exact absurd still alive
      | _ => trivial

/-- A unidirectional stream that is closed without a frame, while another stream
waits to be accepted. -/
theorem loop_ended :
    ¬ Always (step .server) (Faithful .server) .init
        [.opens .uni, .arrive 0 (.ok none), .opens .bi, .accept 0] := by
  intro always
  have going := (always.last rfl rfl).1
  cases going

end Ending

section Accepting

variable {front : Front} {s t : Loop} {label : Label}

/-- On a live connection each stream that the peer opened can be accepted. -/
def Accepting (front : Front) (s : Loop) : Prop :=
  s.alive = true → ∀ i stream, s.streams[i]? = some stream → stream.phase = .opened → (step front s (.accept i)).isSome

/-- Whatever stream the peer opens next. -/
def Ready (front : Front) (s : Loop) : Prop := ∀ dir t, step front s (.opens dir) = some t → Accepting front t

/-- The channel is closed before it has carried a request. -/
def Idle (frames : FrameIo) : Prop := requests frames = [] ∧ closed frames = true

/-- What has come in of the stream leaves the loop nothing to wait for. -/
def Prompt (front : Front) (dir : Direction) (frames : FrameIo) : Prop :=
  match front, dir with
  | .server, .bi | .client, .bi => True
  | .web, .bi => ∃ msg rest, frames = .ok (some msg) :: rest ∧ (∀ opened, msg ≠ .streamOpen opened) ∧
      ∀ req, msg = .request req → req.name = rpcChannelName ∧ Idle rest
  | .server, .uni | .web, .uni => ∃ msg rest, frames = .ok (some msg) :: rest ∧ ∀ opened, msg ≠ .streamOpen opened
  | .client, .uni => ∃ msg rest, frames = .ok (some msg) :: rest ∧ ∀ event, msg ≠ .event event

/-- Every stream is accepted at a moment when it is prompt. -/
def Undelayed (front : Front) (s : Loop) : Label → Prop
  | .accept i => ∀ stream, s.streams[i]? = some stream → Prompt front stream.dir stream.left
  | _ => True

theorem readOn_task (what : Reading) (frames : FrameIo) : (readOn .task what frames).phase.inLoop = false := by
  induction frames with
  | nil => rfl
  | cons result rest ih =>
    rcases result with e | msg
    · cases what <;> rfl
    · cases msg with
      | none => cases what <;> rfl
      | some msg => cases what <;> cases msg <;> first | rfl | exact ih

/-- The loop is done with a channel exactly when it is idle. -/
theorem readOn_idle (frames : FrameIo) : (readOn .loop .requests frames).phase.inLoop = false ↔ Idle frames := by
  induction frames with
  | nil => exact iff_of_false Bool.noConfusion (fun idle => Bool.noConfusion idle.2)
  | cons result rest ih =>
    rcases result with e | msg
    · exact iff_of_true rfl ⟨rfl, rfl⟩
    · cases msg with
      | none => exact iff_of_true rfl ⟨rfl, rfl⟩
      | some msg =>
        cases msg with
        | request req => exact iff_of_false Bool.noConfusion (fun idle => List.cons_ne_nil _ _ idle.1)
        | _ => exact ih

theorem readFirst_task {dir : Direction} (hosted : firstHost front dir = .task) (frames : FrameIo) :
    (readFirst front dir frames).breaks = false ∧ (readFirst front dir frames).phase.inLoop = false := by
  cases dir with
  | uni => cases front <;> cases hosted
  | bi =>
    constructor
    · rw [← Bool.not_eq_true, readFirst_breaks, hosted]
      rintro ⟨loop, -⟩
      cases loop
    · cases frames with
      | nil => simp [readFirst, hosted, Phase.inLoop]
      | cons result rest =>
        rcases result with e | msg
        · rfl
        · cases msg with
          | none => rfl
          | some msg =>
            cases msg with
            | request req =>
              rw [readFirst, hosted]
              split
              · exact readOn_task ..
              · rfl
            | streamOpen opened => simp [readFirst, hosted, Phase.inLoop]
            | _ => rfl

theorem readFirst_channel (front : Front) (req : RequestMsg) (rest : FrameIo) :
    readFirst front .bi (.ok (some (.request req)) :: rest) =
      if req.name = rpcChannelName then readOn (firstHost front .bi) .requests rest
      else ⟨.handling (firstHost front .bi) .sole, [.request req], rest, false⟩ := rfl

theorem Prompt.first {dir : Direction} {frames : FrameIo} (loop : firstHost front dir = .loop)
    (prompt : Prompt front dir frames) : ∃ msg rest, frames = .ok (some msg) :: rest := by
  cases front <;> cases dir
  case server.bi => cases loop
  case client.bi => cases loop
  all_goals
    obtain ⟨msg, rest, same, -⟩ := prompt
    exact ⟨msg, rest, same⟩

theorem readFirst_prompt (front : Front) (dir : Direction) (frames : FrameIo) :
    ((readFirst front dir frames).breaks = false ∧ (readFirst front dir frames).phase.inLoop = false) ↔
      Prompt front dir frames := by
  by_cases hosted : firstHost front dir = .task
  · have prompt : Prompt front dir frames := by
      cases front <;> cases dir <;> trivial
    exact iff_of_true (readFirst_task hosted frames) prompt
  · have loop : firstHost front dir = .loop := by
      cases host : firstHost front dir with
      | loop => rfl
      | task => exact absurd host hosted
    have none_first : (∀ msg rest, frames ≠ .ok (some msg) :: rest) → ¬ Prompt front dir frames := by
      intro other prompt
      obtain ⟨msg, rest, same⟩ := prompt.first loop
      exact other msg rest same
    cases frames with
    | nil =>
      refine iff_of_false ?_ (none_first (fun _ _ same => by cases same))
      simp [readFirst, Phase.inLoop, loop]
    | cons result rest =>
      have breaks := readFirst_breaks front dir (result :: rest)
      rcases result with e | msg
      · refine iff_of_false ?_ (none_first (fun _ _ same => by cases same))
        rw [breaks.2 ⟨loop, _, _, rfl, rfl⟩]
        simp
      · cases msg with
        | none =>
          refine iff_of_false ?_ (none_first (fun _ _ same => by cases same))
          rw [breaks.2 ⟨loop, _, _, rfl, rfl⟩]
          simp
        | some msg =>
          cases dir with
          | uni =>
            cases front <;> cases msg <;> simp [readFirst, Prompt, Phase.inLoop, firstEvent, streamHost]
          | bi =>
            cases front with
            | server => cases loop
            | client => cases loop
            | web =>
              cases msg with
              | request req =>
                rw [readFirst_channel]
                by_cases reserved : req.name = rpcChannelName
                · rw [if_pos reserved]
                  simp [Prompt, firstHost, readOn_breaks, readOn_idle, reserved]
                · rw [if_neg reserved]
                  simp [Prompt, firstHost, Phase.inLoop, reserved]
              | _ => simp [readFirst, Prompt, Phase.inLoop, firstHost]

/-- Who waits for a first frame is who was to read it. -/
def Hosted (front : Front) (s : Loop) : Prop :=
  ∀ stream ∈ s.streams, ∀ host, stream.phase = .awaiting host → host = firstHost front stream.dir

theorem free_turn (free : s.free = true) {i : Nat} {before stream : Incoming} (found : s.streams[i]? = some before)
    (turn : Turn) : (s.turn i stream turn).free = !turn.phase.inLoop := by
  have within := (List.getElem?_eq_some_iff.1 found).1
  rw [Loop.free, List.all_eq_true] at free
  rw [Bool.eq_iff_iff, Loop.free, List.all_eq_true]
  constructor
  · intro all
    exact all _ (List.mem_of_getElem? (List.getElem?_set_self within))
  · intro out other member
    rcases List.mem_or_eq_of_mem_set member with old | rfl
    · exact free other old
    · exact out

theorem accept_isSome {i : Nat} {stream : Incoming} (found : s.streams[i]? = some stream) (opened : stream.phase = .opened) :
    (step front s (.accept i)).isSome ↔ s.alive = true ∧ s.ended = false ∧ s.free = true := by
  rw [step, found]
  simp [opened]

theorem ready_iff (front : Front) (s : Loop) :
    Ready front s ↔ (s.alive = true → s.ended = false ∧ s.free = true) := by
  have same : ∀ dir, Loop.free { s with streams := s.streams ++ [⟨dir, [], [], .opened, []⟩] } = s.free := by
    intro dir
    rw [Loop.free, List.all_append]
    exact Bool.and_true _
  constructor
  · intro ready alive
    have opened : step front s (.opens .bi) = some { s with streams := s.streams ++ [⟨.bi, [], [], .opened, []⟩] } := by
      rw [step, if_pos alive]
    have accepts := ready .bi _ opened alive s.streams.length _ List.getElem?_concat_length rfl
    rw [accept_isSome List.getElem?_concat_length rfl, same] at accepts
    exact accepts.2
  · intro back dir t stepped
    cases step_effect stepped with
    | opened alive =>
      intro _ i stream found waiting
      rw [accept_isSome found waiting, same]
      exact ⟨alive, back alive⟩

theorem readOn_awaiting (host other : Host) (what : Reading) (frames : FrameIo) :
    (readOn host what frames).phase ≠ .awaiting other := by
  induction frames with
  | nil => exact Phase.noConfusion
  | cons result rest ih =>
    rcases result with e | msg
    · cases what <;> exact Phase.noConfusion
    · cases msg with
      | none => cases what <;> exact Phase.noConfusion
      | some msg => cases what <;> cases msg <;> first | exact Phase.noConfusion | exact ih

theorem readFirst_awaiting {dir : Direction} {frames : FrameIo} {host : Host}
    (awaits : (readFirst front dir frames).phase = .awaiting host) : host = firstHost front dir := by
  cases frames with
  | nil =>
    cases awaits
    rfl
  | cons result rest =>
    rcases result with e | msg
    · cases dir <;> cases awaits
    · cases msg with
      | none => cases dir <;> cases awaits
      | some msg =>
        cases dir with
        | uni => cases msg <;> cases front <;> cases awaits
        | bi =>
          cases msg with
          | request req =>
            rw [readFirst_channel] at awaits
            split at awaits
            · exact absurd awaits (readOn_awaiting _ _ _ _)
            · cases awaits
          | _ => cases awaits

theorem step_hosted (hosted : Hosted front s) (stepped : step front s label = some t) : Hosted front t := by
  have turned : ∀ (i : Nat) (stream : Incoming) (turn : Turn),
      (∀ host, turn.phase = .awaiting host → host = firstHost front stream.dir) → Hosted front (s.turn i stream turn) := by
    intro i stream turn new other member
    rcases List.mem_or_eq_of_mem_set member with old | rfl
    · exact hosted other old
    · exact new
  cases step_effect stepped with
  | opened alive =>
    intro stream member host awaits
    rcases List.mem_append.1 member with old | new
    · exact hosted stream old host awaits
    · rw [List.mem_singleton] at new
      subst new
      cases awaits
  | @arrived i result stream found =>
    apply turned
    intro host awaits
    unfold Incoming.proceed at awaits
    split at awaits
    · exact readFirst_awaiting awaits
    · exact absurd awaits (readOn_awaiting _ _ _ _)
    · exact hosted stream (List.mem_of_getElem? found) host awaits
  | accepted found => exact turned _ _ _ (fun host => readFirst_awaiting)
  | @finished i stream host what found running =>
    apply turned
    intro other awaits
    rcases handled_cases front host stream.left what with ⟨reading, reads⟩ | finished
    · rw [reads] at awaits
      exact absurd awaits (readOn_awaiting _ _ _ _)
    · rw [finished] at awaits
      cases awaits
  | lost => exact hosted
  | noticed => exact hosted

theorem task_of_apart {host : Host} (apart : (decide (host = .loop)) = false) : host = .task := by
  cases host with
  | loop => cases apart
  | task => rfl

theorem ready_step (hosted : Hosted front s) (ready : Ready front s) (stepped : step front s label = some t) :
    Ready front t ↔ Undelayed front s label := by
  rw [ready_iff] at ready ⊢
  have turned : ∀ {i before} (stream : Incoming) (turn : Turn), s.alive = true → s.streams[i]? = some before →
      ((s.turn i stream turn).ended = false ∧ (s.turn i stream turn).free = true ↔
        turn.breaks = false ∧ turn.phase.inLoop = false) := by
    intro i before stream turn alive found
    rw [free_turn (ready alive).2 found]
    simp [Loop.turn, (ready alive).1]
  have outside : ∀ {stream}, s.alive = true → stream ∈ s.streams → stream.phase.inLoop = false := by
    intro stream alive member
    have free := (ready alive).2
    rw [Loop.free, List.all_eq_true] at free
    simpa using free stream member
  cases step_effect stepped with
  | opened alive =>
    refine iff_of_true (fun _ => ⟨(ready alive).1, ?_⟩) trivial
    rw [Loop.free, List.all_append]
    exact Bool.and_eq_true_iff.2 ⟨(ready alive).2, rfl⟩
  | @arrived i result stream found =>
    refine iff_of_true (fun alive => ?_) trivial
    have member := List.mem_of_getElem? found
    have apart := outside alive member
    rw [turned _ _ alive found]
    unfold Incoming.proceed
    split
    · rename_i host phase
      change stream.phase = .awaiting host at phase
      have same := hosted stream member host phase
      rw [phase] at apart
      exact readFirst_task (same.symm.trans (task_of_apart apart)) _
    · rename_i host what phase
      change stream.phase = .reading host what at phase
      rw [phase] at apart
      rw [task_of_apart apart]
      exact ⟨readOn_breaks .., readOn_task ..⟩
    · exact ⟨rfl, apart⟩
  | @accepted i stream found waiting alive =>
    have prompt : Ready front (s.turn i stream (readFirst front stream.dir stream.left)) ↔ Prompt front stream.dir stream.left := by
      rw [ready_iff, ← readFirst_prompt, ← turned stream _ alive found]
      exact ⟨fun back => back alive, fun back _ => back⟩
    rw [← ready_iff, prompt]
    constructor
    · intro first other same
      rw [found] at same
      cases same
      exact first
    · intro undelayed
      exact undelayed stream found
  | @finished i stream host what found running =>
    refine iff_of_true (fun alive => ?_) trivial
    have apart := outside alive (List.mem_of_getElem? found)
    rw [running] at apart
    rw [turned _ _ alive found, task_of_apart apart]
    refine ⟨handled_breaks .., ?_⟩
    rcases handled_cases front .task stream.left what with ⟨reading, reads⟩ | finished
    · rw [reads, readOn_task]
    · rw [finished]
      rfl
  | lost => exact iff_of_true (fun alive => by cases alive) trivial
  | noticed dead => exact iff_of_true (fun alive => by rw [dead] at alive; cases alive) trivial

/-- In every state of a run the next stream can be accepted, exactly when no stream
is accepted before it is prompt. -/
theorem ready_iff_undelayed (front : Front) (labels : List Label) :
    Always (step front) (Ready front) .init labels ↔ Guarded (step front) (Undelayed front) .init labels := by
  have start : Hosted front .init := fun stream member => by cases member
  have ready : Ready front .init := (ready_iff front .init).2 (fun _ => ⟨rfl, rfl⟩)
  exact always_iff_guarded (fun _ _ _ => step_hosted)
    (fun _ _ _ hosted ready undelayed stepped => (ready_step hosted ready stepped).2 undelayed)
    (fun _ _ _ hosted ready stepped next => (ready_step hosted ready stepped).1 next) labels start ready

/-- The loop waits for the first frame of a stream while the peer opens another one. -/
theorem loop_waits :
    ¬ Always (step .server) (Ready .server) .init [.opens .uni, .accept 0] ∧
      ¬ Always (step .server) (Accepting .server) .init [.opens .uni, .accept 0, .opens .bi] := by
  constructor
  · intro always
    have accepts := always.last rfl .bi _ rfl rfl 1 _ rfl rfl
    cases accepts
  · intro always
    have accepts := always.last rfl rfl 1 _ rfl rfl
    cases accepts

end Accepting

end EchoStream.Core.AcceptLoop
