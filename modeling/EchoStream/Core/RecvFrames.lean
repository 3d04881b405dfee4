import EchoStream.Core.StreamTrip

/-! What a receiver gives back of whatever its source delivers. Its own frames up to its own
end come one by one, and then only the end. A source may also end without one, or fail. -/

namespace EchoStream.Core.RecvFrames
open Proto.Messages
open Handler Core.Stream StreamTrip

def frameOf (id : UInt64) : Message → Option StreamMsg
  | .stream frame => if frame.id = id then some frame else none
  | _ => none

def endOf (id : UInt64) : Message → Option StreamEndMsg
  | .streamEnd e => if e.id = id then some e else none
  | _ => none

def ownFrames (id : UInt64) (msgs : List Message) : List StreamMsg :=
  (msgs.takeWhile (fun msg => (endOf id msg).isNone)).filterMap (frameOf id)

def ownEnd (id : UInt64) (msgs : List Message) : Option StreamEndMsg := msgs.findSome? (endOf id)

/-- A source that delivers the messages and ends. There may be more behind the end. -/
def source (msgs : List Message) (behind : FrameIo) : FrameIo := msgs.map (fun msg => .ok (some msg)) ++ .ok none :: behind

def unread (id : UInt64) (msgs : List Message) (behind : FrameIo) : FrameIo :=
  match msgs.dropWhile (fun msg => (endOf id msg).isNone) with
  | [] => behind
  | _ :: rest => source rest behind

def finished (r : Receiver) (msgs : List Message) (behind : FrameIo) : Receiver :=
  { r with
    io := unread r.id msgs behind
    pending := none
    endCode := ((ownEnd r.id msgs).map StreamEndMsg.code).getD r.endCode
    endMessage := ((ownEnd r.id msgs).map StreamEndMsg.message).getD r.endMessage
    endMetadata := ((ownEnd r.id msgs).map StreamEndMsg.metadata).getD r.endMetadata
    ended := true }

variable {r : Receiver} {msg : Message} {msgs rest : List Message} {behind : FrameIo}

theorem message_cases (r : Receiver) (msg : Message) :
    (∃ e, endOf r.id msg = some e ∧ frameOf r.id msg = none ∧ r.take (.ok (some msg)) = (some (.ok none),
      { r with endCode := e.code, endMessage := e.message, endMetadata := e.metadata, ended := true })) ∨
    (∃ frame, endOf r.id msg = none ∧ frameOf r.id msg = some frame ∧ r.take (.ok (some msg)) = (some (.ok (some frame)), r)) ∨
    (endOf r.id msg = none ∧ frameOf r.id msg = none ∧ r.take (.ok (some msg)) = (none, r)) := by
  cases msg with
  | stream frame =>
    by_cases own : frame.id = r.id
    · exact Or.inr (Or.inl ⟨frame, rfl, if_pos own, if_pos own⟩)
    · exact Or.inr (Or.inr ⟨rfl, if_neg own, if_neg own⟩)
  | streamEnd e =>
    by_cases own : e.id = r.id
    · exact Or.inl ⟨e, if_pos own, rfl, if_pos own⟩
    · exact Or.inr (Or.inr ⟨if_neg own, rfl, if_neg own⟩)
  | _ => exact Or.inr (Or.inr ⟨rfl, rfl, rfl⟩)

theorem take_io (r : Receiver) (io : FrameIo) (result : Result (Option Message)) :
    { r with io := io }.take result = ((r.take result).1, { (r.take result).2 with io := io }) := by
  cases result with
  | error e => rfl
  | ok got =>
    cases got with
    | none => rfl
    | some msg =>
      cases msg with
      | stream frame =>
        simp only [Receiver.take]
        split <;> rfl
      | streamEnd e =>
        simp only [Receiver.take]
        split <;> rfl
      | _ => rfl

theorem recvLoop_io (r : Receiver) (io frames : FrameIo) : { r with io := io }.recvLoop frames = r.recvLoop frames := by
  induction frames generalizing r with
  | nil => rfl
  | cons result rest ih =>
    rw [Receiver.recvLoop, Receiver.recvLoop, take_io]
    obtain ⟨got, next⟩ := r.take result
    cases got with
    | some got => rfl
    | none => exact ih next

section Reading

variable (live : r.ended = false) (taken : r.pending = none)
include live taken

theorem recvFrame_reads : r.recvFrame = r.recvLoop r.io := by
  rw [Receiver.recvFrame, if_neg (by rw [live]; decide), taken]

theorem recvFrame_nil (io : r.io = source [] behind) :
    r.recvFrame = (.ok none, finished r [] behind) := by
  rw [recvFrame_reads live taken, io]
  simp [source, Receiver.recvLoop, Receiver.take, finished, unread, ownEnd, taken]

theorem recvFrame_end {e : StreamEndMsg} (io : r.io = source (msg :: rest) behind) (ends : endOf r.id msg = some e)
    (took : r.take (.ok (some msg)) = (some (.ok none),
      { r with endCode := e.code, endMessage := e.message, endMetadata := e.metadata, ended := true })) :
    r.recvFrame = (.ok none, finished r (msg :: rest) behind) := by
  rw [recvFrame_reads live taken, io]
  simp [source, Receiver.recvLoop, took, finished, unread, ownEnd, ends, taken]

theorem recvFrame_own {frame : StreamMsg} (io : r.io = source (msg :: rest) behind)
    (took : r.take (.ok (some msg)) = (some (.ok (some frame)), r)) :
    r.recvFrame = (.ok (some frame), { r with io := source rest behind }) := by
  rw [recvFrame_reads live taken, io]
  simp [source, Receiver.recvLoop, took, live, taken]

theorem recvFrame_other (io : r.io = source (msg :: rest) behind) (took : r.take (.ok (some msg)) = (none, r)) :
    r.recvFrame = { r with io := source rest behind }.recvFrame := by
  have reads : ({ r with io := source rest behind } : Receiver).recvFrame = r.recvLoop (source rest behind) :=
    (recvFrame_reads (r := { r with io := source rest behind }) live taken).trans (recvLoop_io ..)
  rw [recvFrame_reads live taken, io, reads]
  show r.recvLoop (.ok (some msg) :: source rest behind) = r.recvLoop (source rest behind)
  rw [Receiver.recvLoop, took]

end Reading

theorem recvFrames_succ (r : Receiver) (count : Nat) :
    r.recvFrames (count + 1) = (r.recvFrame.1 :: (r.recvFrame.2.recvFrames count).1, (r.recvFrame.2.recvFrames count).2) := rfl

theorem ownFrames_end {id : UInt64} {e : StreamEndMsg} (ends : endOf id msg = some e) : ownFrames id (msg :: rest) = [] := by
  simp [ownFrames, ends]

theorem ownFrames_own {id : UInt64} {frame : StreamMsg} (goes : endOf id msg = none) (own : frameOf id msg = some frame) :
    ownFrames id (msg :: rest) = frame :: ownFrames id rest := by
  simp [ownFrames, goes, own]

theorem ownFrames_other {id : UInt64} (goes : endOf id msg = none) (other : frameOf id msg = none) :
    ownFrames id (msg :: rest) = ownFrames id rest := by
  simp [ownFrames, goes, other]

theorem finished_cons (r : Receiver) (goes : endOf r.id msg = none) :
    finished r (msg :: rest) behind = finished { r with io := source rest behind } rest behind := by
  simp [finished, unread, ownEnd, goes]

def results (frames : List StreamMsg) (count : Nat) : List (Result (Option StreamMsg)) :=
  ((frames.map some ++ List.replicate count none).take count).map .ok

theorem results_nil (count : Nat) : results [] count = List.replicate count (.ok none) := by
  simp [results]

theorem results_cons (frame : StreamMsg) (frames : List StreamMsg) (count : Nat) :
    results (frame :: frames) (count + 1) = .ok (some frame) :: results frames count := by
  have longer : (frames.map some ++ List.replicate (count + 1) none).take count =
      (frames.map some ++ List.replicate count none).take count := by
    rw [List.replicate_succ', ← List.append_assoc, List.take_append_of_le_length (by simp)]
  rw [results, List.map_cons, List.cons_append, List.take_succ_cons, longer, List.map_cons, results]

theorem recvFrames_source (live : r.ended = false) (taken : r.pending = none) (io : r.io = source msgs behind) (count : Nat) :
    (r.recvFrames count).1 = results (ownFrames r.id msgs) count := by
  induction msgs generalizing r count with
  | nil =>
    cases count with
    | zero => rfl
    | succ count =>
      rw [recvFrames_succ, recvFrame_nil live taken io, recvFrames_ended rfl]
      exact (results_nil (count + 1)).symm
  | cons msg rest ih =>
    cases count with
    | zero => rfl
    | succ count =>
      rcases message_cases r msg with ⟨e, ends, -, took⟩ | ⟨frame, goes, own, took⟩ | ⟨goes, other, took⟩
      · rw [recvFrames_succ, recvFrame_end live taken io ends took, recvFrames_ended rfl, ownFrames_end ends]
        exact (results_nil (count + 1)).symm
      · have more := ih (r := { r with io := source rest behind }) live taken rfl count
        rw [recvFrames_succ, recvFrame_own live taken io took, ownFrames_own goes own, results_cons]
        exact congrArg (.ok (some frame) :: ·) more
      · have more := ih (r := { r with io := source rest behind }) live taken rfl (count + 1)
        rw [recvFrames_succ, recvFrame_other live taken io took, ownFrames_other goes other]
        exact more

theorem recvFrames_finished (live : r.ended = false) (taken : r.pending = none) (io : r.io = source msgs behind) (later : Nat) :
    (r.recvFrames ((ownFrames r.id msgs).length + (later + 1))).2 = finished r msgs behind := by
  induction msgs generalizing r with
  | nil =>
    show (r.recvFrames (0 + (later + 1))).2 = finished r [] behind
    rw [Nat.zero_add, recvFrames_succ, recvFrame_nil live taken io, recvFrames_ended rfl]
  | cons msg rest ih =>
    rcases message_cases r msg with ⟨e, ends, -, took⟩ | ⟨frame, goes, own, took⟩ | ⟨goes, other, took⟩
    · rw [ownFrames_end ends, List.length_nil, Nat.zero_add, recvFrames_succ, recvFrame_end live taken io ends took,
        recvFrames_ended rfl]
    · have more := ih (r := { r with io := source rest behind }) live taken rfl
      rw [ownFrames_own goes own, List.length_cons, Nat.add_right_comm, recvFrames_succ, recvFrame_own live taken io took,
        finished_cons r goes]
      exact more
    · have more := ih (r := { r with io := source rest behind }) live taken rfl
      rw [ownFrames_other goes other, finished_cons r goes, ← more, ← Nat.add_assoc, recvFrames_succ,
        recvFrame_other live taken io took, ← recvFrames_succ]

/-- The receiver gives back its first frame, its own frames up to its end, and then that
the stream has ended, however often it is asked. What it says of the end is what the end
said, and nothing behind the end is read. -/
theorem recv_frames_and_end (first : StreamMsg) (metadata : List StreamMetaEntry) (name : String) (msgs : List Message)
    (behind : FrameIo) :
    (∀ count, ((Receiver.new ⟨source msgs behind, first, metadata, name⟩).recvFrames count).1 =
      (((first :: ownFrames first.id msgs).map some ++ List.replicate count none).take count).map .ok) ∧
    ∀ later, ((Receiver.new ⟨source msgs behind, first, metadata, name⟩).recvFrames
        ((first :: ownFrames first.id msgs).length + (later + 1))).2 =
      { io := unread first.id msgs behind, id := first.id, name, metadata, pending := none
        endCode := ((ownEnd first.id msgs).map StreamEndMsg.code).getD 0
        endMessage := ((ownEnd first.id msgs).map StreamEndMsg.message).getD none
        endMetadata := ((ownEnd first.id msgs).map StreamEndMsg.metadata).getD []
        ended := true } := by
  have begins : (Receiver.new ⟨source msgs behind, first, metadata, name⟩).recvFrame =
      (.ok (some first), { Receiver.new ⟨source msgs behind, first, metadata, name⟩ with pending := none }) := rfl
  constructor
  · intro count
    cases count with
    | zero => rfl
    | succ count =>
      rw [recvFrames_succ, begins, recvFrames_source rfl rfl rfl]
      exact (results_cons first (ownFrames first.id msgs) count).symm
  · intro later
    rw [List.length_cons, Nat.add_right_comm, recvFrames_succ, begins]
    exact recvFrames_finished (r := { Receiver.new ⟨source msgs behind, first, metadata, name⟩ with pending := none })
      rfl rfl rfl later

/-! Receivers whose source fails for good, and the streams they are turned into. -/

/-- The source delivers the frames, and every read after them fails. -/
structure Failing where
  receiver : Receiver
  frames : List Message
  failure : Nat → Error

namespace Failing

/-- The loop of `recv_frame` over what the source does. -/
def recvLoop (r : Receiver) (failure : Nat → Error) : List Message → Result (Option StreamMsg) × Failing
  | [] => (.error (failure 0), ⟨r, [], fun n => failure (n + 1)⟩)
  | msg :: rest =>
      match r.take (.ok (some msg)) with
      | (some got, r) => (got, ⟨r, rest, failure⟩)
      | (none, r) => recvLoop r failure rest

def recvFrame (s : Failing) : Result (Option StreamMsg) × Failing :=
  if s.receiver.ended then (.ok none, s)
  else
    match s.receiver.pending with
    | some first => (.ok (some first), { s with receiver := { s.receiver with pending := none } })
    | none => recvLoop s.receiver s.failure s.frames

end Failing

/-- One poll of a stream that gives back each frame as `item` makes it. -/
def poll {T : Type} (item : StreamMsg → Result T) : Option Failing → Option (Result T × Option Failing)
  | none => none
  | some s =>
      match s.recvFrame with
      | (.ok (some frame), s) => some (item frame, some s)
      | (.ok none, _) => none
      | (.error e, s) => some (.error e, some s)

def intoStream : Option Failing → Option (Result StreamMsg × Option Failing) := poll .ok

def intoStreamTyped {T : Type} (decode : Bytes → Result T) : Option Failing → Option (Result T × Option Failing) :=
  poll (fun frame => decode frame.data)

/-- Whether the next item is an error of the transport. -/
def fails : Option Failing → Bool
  | none => false
  | some s =>
      match s.recvFrame.1 with
      | .ok _ => false
      | .error _ => true

/-- The stream ends after the items, of which so many are errors of the transport. -/
inductive Collects {T : Type} (polls : Option Failing → Option (Result T × Option Failing)) :
    Option Failing → List (Result T) → Nat → Prop where
  | ended {state : Option Failing} (done : polls state = none) : Collects polls state [] 0
  | yields {state next : Option Failing} {got : Result T} {items : List (Result T)} {failures : Nat}
      (polled : polls state = some (got, next)) (later : Collects polls next items failures) :
      Collects polls state (got :: items) ((fails state).toNat + failures)

section Collecting

variable {T : Type} {item : StreamMsg → Result T} {s : Failing} {items : List (Result T)} {failures : Nat}

/-- The loop is the one over a list of results, as far as it goes. -/
theorem recvLoop_agrees (r : Receiver) (failure : Nat → Error) (frames : List Message) (later : FrameIo) :
    (Failing.recvLoop r failure frames).1 =
      (r.recvLoop (frames.map (fun msg => .ok (some msg)) ++ .error (failure 0) :: later)).1 := by
  induction frames generalizing r with
  | nil => rfl
  | cons msg rest ih =>
    rw [Failing.recvLoop, List.map_cons, List.cons_append, Receiver.recvLoop]
    obtain ⟨got, next⟩ := r.take (.ok (some msg))
    cases got with
    | some got => rfl
    | none => exact ih next

/-- The stream has not ended and its end is not to come. -/
structure Endless (s : Failing) : Prop where
  live : s.receiver.ended = false
  unended : ownEnd s.receiver.id s.frames = none

theorem ownEnd_cons {id : UInt64} (goes : endOf id msg = none) : ownEnd id (msg :: rest) = ownEnd id rest := by
  rw [ownEnd, List.findSome?_cons, goes, ownEnd]

theorem recvLoop_endless (r : Receiver) (failure : Nat → Error) (frames : List Message) (live : r.ended = false)
    (unended : ownEnd r.id frames = none) :
    (Failing.recvLoop r failure frames).1 ≠ .ok none ∧ Endless (Failing.recvLoop r failure frames).2 := by
  induction frames with
  | nil => exact ⟨by rintro ⟨⟩, live, rfl⟩
  | cons msg rest ih =>
    rcases message_cases r msg with ⟨e, ends, -, -⟩ | ⟨frame, goes, -, took⟩ | ⟨goes, -, took⟩
    · rw [ownEnd, List.findSome?_cons, ends] at unended
      cases unended
    · rw [ownEnd_cons goes] at unended
      rw [Failing.recvLoop, took]
      exact ⟨by rintro ⟨⟩, live, unended⟩
    · rw [ownEnd_cons goes] at unended
      rw [Failing.recvLoop, took]
      exact ih unended

theorem recvFrame_endless (endless : Endless s) : s.recvFrame.1 ≠ .ok none ∧ Endless s.recvFrame.2 := by
  rw [Failing.recvFrame, if_neg (by rw [endless.live]; decide)]
  cases s.receiver.pending with
  | some first => exact ⟨by rintro ⟨⟩, endless.live, endless.unended⟩
  | none => exact recvLoop_endless _ _ _ endless.live endless.unended

theorem poll_endless (item : StreamMsg → Result T) (endless : Endless s) :
    ∃ got next, poll item (some s) = some (got, some next) ∧ Endless next := by
  obtain ⟨more, still⟩ := recvFrame_endless endless
  rw [poll]
  generalize s.recvFrame = read at more still
  obtain ⟨result, next⟩ := read
  cases result with
  | error e => exact ⟨_, next, rfl, still⟩
  | ok got =>
    cases got with
    | none => exact absurd rfl more
    | some frame => exact ⟨_, next, rfl, still⟩

theorem never_collects (endless : Endless s) : ¬ Collects (poll item) (some s) items failures := by
  intro collects
  generalize same : some s = state at collects
  induction collects generalizing s with
  | ended done =>
    subst same
    obtain ⟨got, next, polled, -⟩ := poll_endless item endless
    rw [polled] at done
    cases done
  | yields polled later ih =>
    subst same
    obtain ⟨got, next, again, still⟩ := poll_endless item endless
    rw [again] at polled
    cases polled
    exact ih still rfl

theorem Collects.congr {t : Failing} (same : s.recvFrame = t.recvFrame) (collects : Collects (poll item) (some t) items failures) :
    Collects (poll item) (some s) items failures := by
  have polls : poll item (some s) = poll item (some t) := by rw [poll, poll, same]
  have fail : fails (some s) = fails (some t) := by rw [fails, fails, same]
  cases collects with
  | ended done => exact .ended (polls.trans done)
  | yields polled later =>
    rw [← fail]
    exact .yields (polls.trans polled) later

theorem Collects.frame {next : Failing} {frame : StreamMsg} (read : s.recvFrame = (.ok (some frame), next))
    (later : Collects (poll item) (some next) items failures) :
    Collects (poll item) (some s) (item frame :: items) failures := by
  have polled : poll item (some s) = some (item frame, some next) := by rw [poll, read]
  have fine : fails (some s) = false := by rw [fails, read]
  have more : Collects (poll item) (some s) (item frame :: items) ((fails (some s)).toNat + failures) := .yields polled later
  rw [fine, Bool.toNat_false, Nat.zero_add] at more
  exact more

theorem recvLoop_collects (item : StreamMsg → Result T) (r : Receiver) (failure : Nat → Error) (frames : List Message)
    (live : r.ended = false)
    (taken : r.pending = none) (ends : ownEnd r.id frames ≠ none) :
    ∃ items, Collects (poll item) (some ⟨r, frames, failure⟩) items 0 := by
  have reads : ∀ frames, Failing.recvFrame ⟨r, frames, failure⟩ = Failing.recvLoop r failure frames := by
    intro frames
    rw [Failing.recvFrame, if_neg (by rw [live]; decide), taken]
  induction frames with
  | nil => exact absurd rfl ends
  | cons msg rest ih =>
    rcases message_cases r msg with ⟨e, -, -, took⟩ | ⟨frame, goes, -, took⟩ | ⟨goes, -, took⟩
    · refine ⟨[], .ended ?_⟩
      rw [poll, reads, Failing.recvLoop, took]
    · rw [ownEnd_cons goes] at ends
      obtain ⟨items, collects⟩ := ih ends
      refine ⟨item frame :: items, collects.frame ?_⟩
      rw [reads, Failing.recvLoop, took]
    · rw [ownEnd_cons goes] at ends
      obtain ⟨items, collects⟩ := ih ends
      refine ⟨items, collects.congr ?_⟩
      rw [reads, reads, Failing.recvLoop, took]

theorem collects_of_end (item : StreamMsg → Result T) (ends : s.receiver.ended = true ∨ ownEnd s.receiver.id s.frames ≠ none) :
    ∃ items, Collects (poll item) (some s) items 0 := by
  by_cases live : s.receiver.ended = true
  · refine ⟨[], .ended ?_⟩
    rw [poll, Failing.recvFrame, if_pos live]
  · have going : s.receiver.ended = false := Bool.eq_false_iff.2 live
    have come := ends.resolve_left live
    cases pending : s.receiver.pending with
    | none => exact recvLoop_collects item s.receiver s.failure s.frames going pending come
    | some first =>
      obtain ⟨items, collects⟩ := recvLoop_collects item { s.receiver with pending := none } s.failure s.frames going rfl come
      refine ⟨item first :: items, collects.frame ?_⟩
      rw [Failing.recvFrame, if_neg live, pending]

theorem collects_iff : (∃ items failures, Collects (poll item) (some s) items failures ∧ failures ≤ 1) ↔
    s.receiver.ended = true ∨ ownEnd s.receiver.id s.frames ≠ none := by
  constructor
  · rintro ⟨items, failures, collects, -⟩
    by_contra never
    rw [not_or, not_not] at never
    exact never_collects ⟨Bool.eq_false_iff.2 never.1, never.2⟩ collects
  · intro ends
    obtain ⟨items, collects⟩ := collects_of_end item ends
    exact ⟨items, 0, collects, Nat.zero_le 1⟩

end Collecting

/-- With a source that fails for good both streams are finite, and then without an error of
the transport, where the end of the stream is among what was delivered. -/
theorem streams_finite_iff (s : Failing) :
    ((∃ items failures, Collects intoStream (some s) items failures ∧ failures ≤ 1) ↔
      s.receiver.ended = true ∨ ownEnd s.receiver.id s.frames ≠ none) ∧
    ∀ {T : Type} (decode : Bytes → Result T),
      ((∃ items failures, Collects (intoStreamTyped decode) (some s) items failures ∧ failures ≤ 1) ↔
        s.receiver.ended = true ∨ ownEnd s.receiver.id s.frames ≠ none) :=
  ⟨collects_iff, fun _ => collects_iff⟩

/-- A stream whose connection is lost after its first frame. -/
private def lost : Failing := ⟨.new ⟨[], ⟨7, 0, ⟨0⟩, []⟩, [], "log"⟩, [], fun _ => .io "connection lost"⟩

theorem lost_never_ends :
    (¬ ∃ items failures, Collects intoStream (some lost) items failures ∧ failures ≤ 1) ∧
    ¬ ∃ items failures, Collects (intoStreamTyped (fun data => .ok data)) (some lost) items failures ∧ failures ≤ 1 := by
  have endless : Endless lost := ⟨rfl, rfl⟩
  constructor
  · rintro ⟨items, failures, collects, -⟩
    exact never_collects endless collects
  · rintro ⟨items, failures, collects, -⟩
    exact never_collects endless collects

end EchoStream.Core.RecvFrames
