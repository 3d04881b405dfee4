import EchoStream.Proto.Postcard

/-! Frames on a byte stream: four bytes of length, least significant first, and
the encoded message. The reader takes the length with one `read`, which returns
what is there, and the message with `readExact`. It does not look at how many
bytes of the length it got, so it delivers what was sent exactly when every
`read` at the start of a frame is offered all four. -/

namespace EchoStream.Proto.Endpoint
open Foundation.Formats
open Messages Postcard

def maxFrameSize : Nat := 64 * 1024 * 1024

/-- A receive stream with state `σ`. A read is given a buffer and returns it as
it left it. -/
structure FrameRead (σ : Type) where
  read : σ → Bytes → Result (Option Nat) × Bytes × σ
  readExact : σ → Bytes → Result Unit × Bytes × σ

def encodeMessage (codec : Codec Message) (msg : Message) : Result Bytes :=
  match codec.toAllocvec msg with
  | .error text => .error (.serialization text)
  | .ok payload => .ok (toLittle 4 (payload.length % 2 ^ 32) ++ payload)

def readMessageFrame {σ : Type} (stream : FrameRead σ) (codec : Codec Message) (recv : σ) :
    Result (Option Message) × σ :=
  match stream.read recv (List.replicate 4 0) with
  | (.error e, _, recv) => (.error e, recv)
  | (.ok none, _, recv) => (.ok none, recv)
  | (.ok (some _), lenBuf, recv) =>
      let len := ofLittle lenBuf
      if maxFrameSize < len then (.error (.protocol ("帧大小超限: " ++ toString len)), recv)
      else
        match stream.readExact recv (List.replicate len 0) with
        | (.error e, _, recv) => (.error e, recv)
        | (.ok _, buf, recv) =>
            match codec.fromBytes buf with
            | .error text => (.error (.serialization text), recv)
            | .ok msg => (.ok (some msg), recv)

/-- A finished stream: the bytes not yet read, how many calls of `read` there
were, and how many bytes the transport has at hand at each of them. -/
structure Received where
  remaining : Bytes
  reads : Nat
  offers : Nat → Nat

namespace Received

/-- At the end `none`, otherwise at least one byte and as many as are offered,
fit the buffer and are left. -/
def read (recv : Received) (buf : Bytes) : Result (Option Nat) × Bytes × Received :=
  if recv.remaining = [] then (.ok none, buf, recv)
  else
    let count := min (max 1 (recv.offers recv.reads)) (min buf.length recv.remaining.length)
    (.ok (some count), recv.remaining.take count ++ buf.drop count,
      { recv with remaining := recv.remaining.drop count, reads := recv.reads + 1 })

def readExact (recv : Received) (buf : Bytes) : Result Unit × Bytes × Received :=
  if recv.remaining.length < buf.length then
    (.error (.protocol "流意外结束"), buf, { recv with remaining := [] })
  else (.ok (), recv.remaining.take buf.length, { recv with remaining := recv.remaining.drop buf.length })

def stream : FrameRead Received := ⟨read, readExact⟩

end Received

def encodeMessages (codec : Codec Message) : List Message → Result Bytes
  | [] => .ok []
  | msg :: rest => do
      let frame ← encodeMessage codec msg
      let frames ← encodeMessages codec rest
      return frame ++ frames

/-- What `count` calls of the frame reader return, errors included. -/
def readFrames (codec : Codec Message) : Nat → Received → List (Result (Option Message))
  | 0, _ => []
  | count + 1, recv =>
      let (result, recv) := readMessageFrame Received.stream codec recv
      result :: readFrames codec count recv

/-- Reading the frames of `msgs` gives exactly `msgs` and then the end. -/
def Delivers (codec : Codec Message) (offers : Nat → Nat) (reads : Nat) (msgs : List Message) : Prop :=
  ∀ frames, encodeMessages codec msgs = .ok frames →
    readFrames codec (msgs.length + 1) ⟨frames, reads, offers⟩ =
      msgs.map (fun msg => .ok (some msg)) ++ [.ok none]

def Fits (codec : Codec Message) (msg : Message) : Prop :=
  ∃ payload, codec.toAllocvec msg = .ok payload ∧ payload.length ≤ maxFrameSize

variable {codec : Codec Message} {offers : Nat → Nat}

theorem encodeMessage_fits {msg : Message} {payload : Bytes}
    (encoded : codec.toAllocvec msg = .ok payload) (small : payload.length ≤ maxFrameSize) :
    encodeMessage codec msg = .ok (toLittle 4 payload.length ++ payload) := by
  have bound : payload.length < 2 ^ 32 := by
    unfold maxFrameSize at small
    omega
  rw [encodeMessage, encoded]
  simp only [Nat.mod_eq_of_lt bound]

theorem encodeMessages_cons {msg : Message} {rest : List Message} {payload frames : Bytes}
    (encoded : codec.toAllocvec msg = .ok payload) (small : payload.length ≤ maxFrameSize)
    (encodedRest : encodeMessages codec rest = .ok frames) :
    encodeMessages codec (msg :: rest) = .ok (toLittle 4 payload.length ++ payload ++ frames) := by
  rw [encodeMessages, encodeMessage_fits encoded small, encodedRest]
  rfl

theorem encodeMessages_exists {msgs : List Message} (fits : ∀ msg ∈ msgs, Fits codec msg) :
    ∃ frames, encodeMessages codec msgs = .ok frames := by
  induction msgs with
  | nil => exact ⟨[], rfl⟩
  | cons msg rest ih =>
    obtain ⟨payload, encoded, small⟩ := fits msg (List.mem_cons_self ..)
    obtain ⟨frames, encodedRest⟩ := ih (fun msg member => fits msg (List.mem_cons_of_mem _ member))
    exact ⟨_, encodeMessages_cons encoded small encodedRest⟩

theorem readMessageFrame_ne_end {recv : Received} (more : recv.remaining ≠ []) :
    (readMessageFrame Received.stream codec recv).1 ≠ .ok none := by
  simp only [readMessageFrame, Received.stream, Received.read, if_neg more]
  split
  · simp
  · split
    · simp
    · split <;> simp

/-- What a read of the length finds: as many of its bytes as are offered, the
rest of the buffer still zero. -/
theorem read_length {front : Bytes} (width : front.length = 4) (rest : Bytes) (reads count : Nat)
    (offered : count = min (max 1 (offers reads)) 4) :
    Received.read ⟨front ++ rest, reads, offers⟩ (List.replicate 4 0) =
      (.ok (some count), front.take count ++ List.replicate (4 - count) 0,
        ⟨front.drop count ++ rest, reads + 1, offers⟩) := by
  have more : front ++ rest ≠ [] := by
    intro nothing
    have empty := congrArg List.length nothing
    rw [List.length_append, List.length_nil] at empty
    omega
  have taken : min (max 1 (offers reads))
      (min (List.replicate 4 (0 : UInt8)).length (front ++ rest).length) = count := by
    rw [List.length_replicate, List.length_append, width]
    omega
  have within : count ≤ front.length := by omega
  simp only [Received.read, if_neg more, taken]
  rw [List.take_append_of_le_length within, List.drop_append_of_le_length within, List.drop_replicate]

theorem readExact_front (front rest : Bytes) (reads : Nat) (buf : Bytes)
    (width : buf.length = front.length) :
    Received.readExact ⟨front ++ rest, reads, offers⟩ buf = (.ok (), front, ⟨rest, reads, offers⟩) := by
  have enough : ¬ (front ++ rest).length < buf.length := by
    rw [List.length_append]
    omega
  simp only [Received.readExact, if_neg enough]
  rw [width, List.take_left, List.drop_left]

/-- With the four length bytes at hand the reader takes one frame off the stream. -/
theorem readMessageFrame_whole (inverse : codec.Inverse) {msg : Message} {payload : Bytes}
    (encoded : codec.toAllocvec msg = .ok payload) (small : payload.length ≤ maxFrameSize)
    {reads : Nat} (whole : 4 ≤ offers reads) (frames : Bytes) :
    readMessageFrame Received.stream codec
        ⟨toLittle 4 payload.length ++ payload ++ frames, reads, offers⟩ =
      (.ok (some msg), ⟨frames, reads + 1, offers⟩) := by
  have offered : 4 = min (max 1 (offers reads)) 4 := by omega
  have width := toLittle_length 4 payload.length
  have length : ofLittle (toLittle 4 payload.length) = payload.length := by
    rw [ofLittle_toLittle]
    apply Nat.mod_eq_of_lt
    unfold maxFrameSize at small
    omega
  have got := read_length width (payload ++ frames) reads 4 offered
  rw [List.take_of_length_le (by omega), List.drop_of_length_le (by omega), List.nil_append,
    Nat.sub_self, List.replicate_zero, List.append_nil] at got
  rw [readMessageFrame, List.append_assoc]
  simp only [Received.stream, got, length, if_neg (Nat.not_lt.mpr small)]
  rw [readExact_front payload frames (reads + 1) _ List.length_replicate]
  simp only [inverse msg payload encoded]

/-- A frame over the limit is written, and not read. -/
theorem readMessageFrame_large {msg : Message} {payload : Bytes} (encoded : codec.toAllocvec msg = .ok payload)
    (large : maxFrameSize < payload.length) (bound : payload.length < 2 ^ 32) (offers : Nat → Nat) (reads : Nat)
    (whole : 4 ≤ offers reads) (frames : Bytes) :
    ∃ frame, encodeMessage codec msg = .ok frame ∧
      (readMessageFrame Received.stream codec ⟨frame ++ frames, reads, offers⟩).1 =
        .error (.protocol ("帧大小超限: " ++ toString payload.length)) := by
  have offered : 4 = min (max 1 (offers reads)) 4 := by omega
  have width := toLittle_length 4 payload.length
  have length : ofLittle (toLittle 4 payload.length) = payload.length := by
    rw [ofLittle_toLittle]
    exact Nat.mod_eq_of_lt bound
  have got := read_length width (payload ++ frames) reads 4 offered
  rw [List.take_of_length_le (by omega), List.drop_of_length_le (by omega), List.nil_append,
    Nat.sub_self, List.replicate_zero, List.append_nil] at got
  refine ⟨toLittle 4 payload.length ++ payload, ?_, ?_⟩
  · rw [encodeMessage, encoded]
    simp only [Nat.mod_eq_of_lt bound]
  · rw [readMessageFrame, List.append_assoc]
    simp only [Received.stream, got, length, if_pos large]

/-- With fewer than four bytes at hand the reader leaves part of the frame on
the stream, whatever it returns. -/
theorem readMessageFrame_short {payload : Bytes} {reads : Nat} (short : offers reads < 4) :
    (readMessageFrame Received.stream codec
      ⟨toLittle 4 (payload.length) ++ payload, reads, offers⟩).2.remaining ≠ [] := by
  obtain ⟨count, offered⟩ : ∃ count, count = min (max 1 (offers reads)) 4 := ⟨_, rfl⟩
  have width := toLittle_length 4 payload.length
  have length : ofLittle ((toLittle 4 payload.length).take count ++ List.replicate (4 - count) 0) =
      payload.length % 256 ^ count := ofLittle_take_toLittle (by omega) _ _
  have low : payload.length % 256 ^ count ≤ payload.length := Nat.mod_le ..
  have left : ((toLittle 4 payload.length).drop count ++ payload).length = 4 - count + payload.length := by
    rw [List.length_append, List.length_drop, width]
  have enough : ¬ ((toLittle 4 payload.length).drop count ++ payload).length <
      (List.replicate (payload.length % 256 ^ count) (0 : UInt8)).length := by
    rw [left, List.length_replicate]
    omega
  have rest : ((toLittle 4 payload.length).drop count ++ payload).drop
      (List.replicate (payload.length % 256 ^ count) (0 : UInt8)).length ≠ [] := by
    intro nothing
    have empty := congrArg List.length nothing
    rw [List.length_drop, left, List.length_replicate, List.length_nil] at empty
    omega
  have more : (toLittle 4 payload.length).drop count ++ payload ≠ [] := by
    intro nothing
    rw [nothing] at left
    rw [List.length_nil] at left
    omega
  rw [readMessageFrame]
  simp only [Received.stream, read_length width payload reads count offered, length]
  split
  · exact more
  · simp only [Received.readExact, if_neg enough]
    split <;> exact rest

theorem delivers_of_encoded {reads : Nat} {msgs : List Message} {frames : Bytes}
    (encoded : encodeMessages codec msgs = .ok frames) :
    Delivers codec offers reads msgs ↔
      readFrames codec (msgs.length + 1) ⟨frames, reads, offers⟩ =
        msgs.map (fun msg => .ok (some msg)) ++ [.ok none] := by
  constructor
  · intro delivers
    exact delivers frames encoded
  · intro same other encodedOther
    rw [encoded] at encodedOther
    cases encodedOther
    exact same

theorem delivers_cons (inverse : codec.Inverse) {msg : Message} {rest : List Message}
    (fits : Fits codec msg) (fitsRest : ∀ msg ∈ rest, Fits codec msg) {reads : Nat}
    (whole : 4 ≤ offers reads) :
    Delivers codec offers reads (msg :: rest) ↔ Delivers codec offers (reads + 1) rest := by
  obtain ⟨payload, encoded, small⟩ := fits
  obtain ⟨frames, encodedRest⟩ := encodeMessages_exists fitsRest
  rw [delivers_of_encoded (encodeMessages_cons encoded small encodedRest),
    delivers_of_encoded encodedRest, List.length_cons, readFrames,
    readMessageFrame_whole inverse encoded small whole, List.map_cons, List.cons_append,
    List.cons.injEq]
  exact ⟨fun both => both.2, fun same => ⟨rfl, same⟩⟩

theorem not_delivers_single {msg : Message} (fits : Fits codec msg) {reads : Nat}
    (short : offers reads < 4) : ¬ Delivers codec offers reads [msg] := by
  intro delivers
  obtain ⟨payload, encoded, small⟩ := fits
  have frames : encodeMessages codec [msg] = _ := encodeMessages_cons encoded small rfl
  have results := delivers _ frames
  rw [List.append_nil] at results
  simp only [List.length_singleton, readFrames, List.map_cons, List.map_nil, List.cons_append,
    List.nil_append, List.cons.injEq, and_true] at results
  exact readMessageFrame_ne_end (readMessageFrame_short short) results.2

/-- However the stream is cut elsewhere, offering the length whole each time
delivers the messages. -/
theorem delivers_of_whole (inverse : codec.Inverse) {msgs : List Message}
    (fits : ∀ msg ∈ msgs, Fits codec msg) {reads : Nat}
    (whole : ∀ i < msgs.length, 4 ≤ offers (reads + i)) : Delivers codec offers reads msgs := by
  induction msgs generalizing reads with
  | nil =>
    intro frames encoded
    cases encoded
    rfl
  | cons msg rest ih =>
    have fitsRest : ∀ msg ∈ rest, Fits codec msg := fun msg member =>
      fits msg (List.mem_cons_of_mem _ member)
    have first : 4 ≤ offers reads := whole 0 (Nat.succ_pos _)
    rw [delivers_cons inverse (fits msg (List.mem_cons_self ..)) fitsRest first]
    apply ih fitsRest
    intro i bound
    rw [Nat.add_assoc, Nat.add_comm 1 i]
    exact whole (i + 1) (Nat.succ_lt_succ bound)

theorem whole_of_delivers (inverse : codec.Inverse) {msgs : List Message}
    (fits : ∀ msg ∈ msgs, Fits codec msg) {reads : Nat}
    (delivers : ∀ n ≤ msgs.length, Delivers codec offers reads (msgs.take n)) :
    ∀ i < msgs.length, 4 ≤ offers (reads + i) := by
  induction msgs generalizing reads with
  | nil => simp
  | cons msg rest ih =>
    have fitsMsg := fits msg (List.mem_cons_self ..)
    have fitsRest : ∀ msg ∈ rest, Fits codec msg := fun msg member =>
      fits msg (List.mem_cons_of_mem _ member)
    have first : 4 ≤ offers reads := by
      by_contra short
      exact not_delivers_single fitsMsg (Nat.lt_of_not_le short) (delivers 1 (by simp))
    intro i bound
    cases i with
    | zero => exact first
    | succ i =>
      rw [Nat.add_comm i 1, ← Nat.add_assoc]
      refine ih fitsRest ?_ i (Nat.lt_of_succ_lt_succ bound)
      intro n within
      have fitsFront : ∀ msg ∈ rest.take n, Fits codec msg := fun msg member =>
        fitsRest msg (List.mem_of_mem_take member)
      exact (delivers_cons inverse fitsMsg fitsFront first).mp (delivers (n + 1) (Nat.succ_le_succ within))

/-- Sent alone or as the start of a longer sequence, the messages are delivered
when and only when no read at the start of a frame is offered less than the
whole length. -/
theorem delivers_iff_whole (inverse : codec.Inverse) {msgs : List Message}
    (fits : ∀ msg ∈ msgs, Fits codec msg) (offers : Nat → Nat) :
    (∀ n ≤ msgs.length, Delivers codec offers 0 (msgs.take n)) ↔ ∀ i < msgs.length, 4 ≤ offers i := by
  constructor
  · intro delivers i bound
    have whole := whole_of_delivers inverse fits delivers i bound
    rw [Nat.zero_add] at whole
    exact whole
  · intro whole n within
    apply delivers_of_whole inverse (fun msg member => fits msg (List.mem_of_mem_take member))
    intro i bound
    rw [Nat.zero_add]
    rw [List.length_take] at bound
    exact whole i (by omega)

private def ping : Message := .event ⟨1, "a", []⟩

private theorem ping_fits : ∀ msg ∈ [ping], Fits wire msg := by
  intro msg member
  rw [List.mem_singleton] at member
  subst member
  exact ⟨[2, 1, 1, 97, 0], by decide, by decide⟩

private def talk : List Message := [ping, .request ⟨2, "b", [7]⟩, .response ⟨2, .success, none, [8]⟩]

private theorem talk_fits : ∀ msg ∈ talk, Fits wire msg := by
  refine List.forall_mem_cons.2 ⟨ping_fits ping (List.mem_singleton_self _), ?_⟩
  refine List.forall_mem_cons.2 ⟨⟨[0, 2, 1, 98, 1, 7], by decide, by decide⟩, ?_⟩
  exact List.forall_mem_singleton.2 ⟨[1, 2, 0, 0, 1, 8], by decide, by decide⟩

/-- Three messages, of which the third has only half of its length at hand. -/
theorem delivers_iff_whole_talk :
    (∀ n ≤ talk.length, Delivers wire (fun i => 4 + i) 0 (talk.take n)) ∧
      ¬ ∀ n ≤ talk.length, Delivers wire (fun i => 6 - 2 * i) 0 (talk.take n) := by
  constructor
  · exact (delivers_iff_whole wire_inverse talk_fits (fun i => 4 + i)).2 (fun i _ => Nat.le_add_right 4 i)
  · intro delivers
    have whole := (delivers_iff_whole wire_inverse talk_fits (fun i => 6 - 2 * i)).1 delivers 2 (by decide)
    exact absurd whole (by decide)

/-- One length byte at hand is enough to lose the message. -/
theorem not_delivers_cut_length :
    wire.Inverse ∧ (∀ msg ∈ [ping], Fits wire msg) ∧ ¬ Delivers wire (fun _ => 1) 0 [ping] := by
  refine ⟨wire_inverse, ping_fits, fun delivers => ?_⟩
  have results := delivers _ rfl
  revert results
  decide

end EchoStream.Proto.Endpoint
