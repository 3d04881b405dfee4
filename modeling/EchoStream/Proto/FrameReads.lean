import EchoStream.Proto.Endpoint

/-! Which frames are read back. A frame as it was written is, where its length is had
at once, just when it is no larger than a frame may be. From a reader that fills its buffer
where enough bytes are left, as the reader of the tests does, frames that are cut off
somewhere are read up to the cut: a part of a frame is an error, and neither another
message nor the end of the stream. -/

namespace EchoStream.Proto.FrameReads
open Foundation.Formats
open Messages Postcard Endpoint

/-- A reader that fills the buffer, with what it has not read yet. -/
structure Filling (σ : Type) where
  stream : FrameRead σ
  rest : σ → Bytes
  ended : ∀ recv buf, rest recv = [] → (stream.read recv buf).1 = .ok none
  fills : ∀ recv buf, rest recv ≠ [] → ∃ next,
    stream.read recv buf = (.ok (some (min buf.length (rest recv).length)),
      (rest recv).take buf.length ++ buf.drop (rest recv).length, next) ∧ rest next = (rest recv).drop buf.length
  exact : ∀ recv buf, buf.length ≤ (rest recv).length → ∃ next,
    stream.readExact recv buf = (.ok (), (rest recv).take buf.length, next) ∧ rest next = (rest recv).drop buf.length
  short : ∀ recv buf, (rest recv).length < buf.length → ∃ e, (stream.readExact recv buf).1 = .error e

/-- What so many calls of the frame reader return, errors included. -/
def readMessages {σ : Type} (stream : FrameRead σ) (codec : Codec Message) : Nat → σ → List (Result (Option Message))
  | 0, _ => []
  | count + 1, recv =>
      let (result, recv) := readMessageFrame stream codec recv
      result :: readMessages stream codec count recv

/-- The reader of the tests. -/
structure MemReader where
  buf : Bytes
  pos : Nat

namespace MemReader

def read (recv : MemReader) (buf : Bytes) : Result (Option Nat) × Bytes × MemReader :=
  if recv.buf.length ≤ recv.pos then (.ok none, buf, recv)
  else
    let n := min buf.length (recv.buf.length - recv.pos)
    (.ok (some n), (recv.buf.drop recv.pos).take n ++ buf.drop n, { recv with pos := recv.pos + n })

def readExact (recv : MemReader) (buf : Bytes) : Result Unit × Bytes × MemReader :=
  if recv.buf.length - recv.pos < buf.length then (.error (.protocol "数据不足"), buf, recv)
  else (.ok (), (recv.buf.drop recv.pos).take buf.length, { recv with pos := recv.pos + buf.length })

theorem drop_min (count : Nat) (bytes : Bytes) : bytes.drop (min bytes.length count) = bytes.drop count := by
  rcases Nat.le_total bytes.length count with short | long
  · rw [Nat.min_eq_left short, List.drop_length, List.drop_of_length_le short]
  · rw [Nat.min_eq_right long]

def filling : Filling MemReader where
  stream := ⟨read, readExact⟩
  rest recv := recv.buf.drop recv.pos
  ended recv buf nothing := by
    have past : recv.buf.length ≤ recv.pos := List.drop_eq_nil_iff.1 nothing
    simp only [read, if_pos past]
  fills recv buf more := by
    have before : ¬ recv.buf.length ≤ recv.pos := fun past => more (List.drop_eq_nil_iff.2 past)
    refine ⟨{ recv with pos := recv.pos + min buf.length (recv.buf.length - recv.pos) }, ?_, ?_⟩
    · simp only [read, if_neg before]
      rw [← List.length_drop, ← List.take_eq_take_min, drop_min]
    · show recv.buf.drop (recv.pos + min buf.length (recv.buf.length - recv.pos)) = _
      rw [← List.drop_drop, ← List.length_drop, Nat.min_comm, drop_min]
  exact recv buf enough := by
    rw [List.length_drop] at enough
    refine ⟨_, by simp only [readExact, if_neg (Nat.not_lt_of_le enough)]; rfl, ?_⟩
    exact List.drop_drop.symm
  short recv buf less := by
    rw [List.length_drop] at less
    exact ⟨_, by simp only [readExact, if_pos less]; rfl⟩

end MemReader

variable {σ : Type} {codec : Codec Message}

/-- What becomes of the bytes that the length counts. -/
def decodeBuf (codec : Codec Message) (buf : Bytes) (recv : σ) : Result (Option Message) × σ :=
  match codec.fromBytes buf with
  | .error text => (.error (.serialization text), recv)
  | .ok msg => (.ok (some msg), recv)

def readPayload (stream : FrameRead σ) (codec : Codec Message) (recv : σ) (len : Nat) : Result (Option Message) × σ :=
  match stream.readExact recv (List.replicate len 0) with
  | (.error e, _, recv) => (.error e, recv)
  | (.ok _, buf, recv) => decodeBuf codec buf recv

theorem decodeBuf_result {τ : Type} (codec : Codec Message) (buf : Bytes) (recv : σ) (other : τ) :
    (decodeBuf codec buf recv).1 = (decodeBuf codec buf other).1 := by
  rw [decodeBuf, decodeBuf]
  cases codec.fromBytes buf <;> rfl

theorem decodeBuf_ok {buf : Bytes} {recv : σ} {msg : Message} :
    (decodeBuf codec buf recv).1 = .ok (some msg) ↔ codec.fromBytes buf = .ok msg := by
  rw [decodeBuf]
  cases codec.fromBytes buf with
  | error text => exact ⟨nofun, nofun⟩
  | ok other => exact ⟨fun same => by cases same; rfl, fun same => by cases same; rfl⟩

section Written

def taken (frame : Bytes) (count : Nat) : Bytes := (frame.drop count).take (ofLittle (frame.take count))

theorem ofLittle_front (payload : Bytes) {count : Nat} (within : count ≤ 4) :
    ofLittle ((toLittle 4 (payload.length % 2 ^ 32) ++ payload).take count) = payload.length % 2 ^ 32 % 256 ^ count := by
  have counted := ofLittle_take_toLittle within (payload.length % 2 ^ 32) 0
  rw [List.replicate_zero, List.append_nil] at counted
  rw [List.take_append_of_le_length (by rw [toLittle_length]; exact within), counted]

/-- However little of the length is had, there is as much after it as it says. -/
theorem read_written (codec : Codec Message) (payload : Bytes) {offers : Nat → Nat} {reads count : Nat}
    (offered : count = min (max 1 (offers reads)) 4) :
    let frame := toLittle 4 (payload.length % 2 ^ 32) ++ payload
    ofLittle (frame.take count) = payload.length % 2 ^ 32 % 256 ^ count ∧
      (readMessageFrame Received.stream codec ⟨frame, reads, offers⟩).1 =
        if maxFrameSize < ofLittle (frame.take count) then
          .error (.protocol ("帧大小超限: " ++ toString (ofLittle (frame.take count))))
        else (decodeBuf codec (taken frame count) ()).1 := by
  intro frame
  have width := toLittle_length 4 (payload.length % 2 ^ 32)
  have number : ofLittle (frame.take count) = payload.length % 2 ^ 32 % 256 ^ count := ofLittle_front payload (by omega)
  refine ⟨number, ?_⟩
  have length := ofLittle_take_toLittle (by omega : count ≤ 4) (payload.length % 2 ^ 32) (4 - count)
  have rest : frame.drop count = (toLittle 4 (payload.length % 2 ^ 32)).drop count ++ payload :=
    List.drop_append_of_le_length (by omega)
  have low : payload.length % 2 ^ 32 % 256 ^ count ≤ payload.length := Nat.le_trans (Nat.mod_le ..) (Nat.mod_le ..)
  have enough : ¬ (frame.drop count).length < payload.length % 2 ^ 32 % 256 ^ count := by
    rw [rest, List.length_append]
    omega
  have took : Received.readExact ⟨frame.drop count, reads + 1, offers⟩
      (List.replicate (payload.length % 2 ^ 32 % 256 ^ count) 0) = (.ok (), taken frame count,
        ⟨(frame.drop count).drop (payload.length % 2 ^ 32 % 256 ^ count), reads + 1, offers⟩) := by
    rw [taken, number, Received.readExact, List.length_replicate, if_neg enough]
  rw [rest] at took
  rw [readMessageFrame, number]
  simp only [frame, Received.stream, read_length width payload reads count offered, length]
  split
  · rfl
  · simp only [took]
    exact decodeBuf_result ..

/-- Where the length is had but in part and a message is decoded from as many bytes as it
takes itself, these are zeros and what the message was encoded to. -/
theorem taken_zeros {payload : Bytes} {count : Nat} (few : count < 4) (least : payload.length ≤
    (taken (toLittle 4 (payload.length % 2 ^ 32) ++ payload) count).length) :
    taken (toLittle 4 (payload.length % 2 ^ 32) ++ payload) count =
      (List.replicate (4 - count) 0 ++ payload).take payload.length := by
  have number := ofLittle_front payload (Nat.le_of_lt few)
  have low : payload.length % 2 ^ 32 ≤ payload.length := Nat.mod_le ..
  have lower : payload.length % 2 ^ 32 % 256 ^ count ≤ payload.length % 2 ^ 32 := Nat.mod_le ..
  rw [taken, number, List.length_take] at least
  have same : payload.length % 2 ^ 32 = payload.length := by omega
  have small : payload.length % 256 ^ count = payload.length := by
    rw [same] at least lower
    omega
  have below : payload.length < 256 ^ count := by
    rw [← small]
    exact Nat.mod_lt _ (Nat.pow_pos (by decide))
  rw [taken, number, same, small, List.drop_append_of_le_length (by rw [toLittle_length]; omega),
    toLittle_drop (Nat.le_of_lt few) below]

theorem zeros_further {payload : Bytes} {count before : Nat} (few : count < 4)
    (front : List.replicate before 0 <+: payload) (longer : payload ≠ List.replicate before 0) :
    ∃ rest, (List.replicate (4 - count) 0 ++ payload).take payload.length = List.replicate (before + 1) 0 ++ rest := by
  obtain ⟨more, rfl⟩ := front
  have some_more : more ≠ [] := by
    rintro rfl
    exact longer (List.append_nil _)
  have length : before + 1 ≤ (List.replicate before (0 : UInt8) ++ more).length := by
    rw [List.length_append, List.length_replicate]
    exact Nat.add_le_add_left (List.length_pos_iff.2 some_more) before
  have split : List.replicate (4 - count) (0 : UInt8) ++ (List.replicate before 0 ++ more) =
      List.replicate (before + 1) 0 ++ (List.replicate (3 - count) 0 ++ more) := by
    rw [← List.append_assoc, ← List.append_assoc, List.replicate_append_replicate,
      List.replicate_append_replicate, (by omega : 4 - count + before = before + 1 + (3 - count))]
  rw [split, List.take_append, List.take_of_length_le (by rw [List.length_replicate]; exact length)]
  exact ⟨_, rfl⟩

/-- A message that is decoded from such bytes is a request of zeros only. -/
theorem short_read (inverse : codec.Inverse) (shortest : codec.Shortest) (zeros : codec.Zeros) {msg : Message}
    {payload : Bytes} (put : codec.toAllocvec msg = .ok payload) {count : Nat} (some : 0 < count) (few : count < 4) :
    codec.fromBytes (taken (toLittle 4 (payload.length % 2 ^ 32) ++ payload) count) = .ok msg ↔
      msg = .request ⟨0, "", []⟩ := by
  constructor
  · intro decoded
    have least := shortest _ msg payload decoded put
    rw [taken_zeros few least] at decoded
    have longer : ∀ before ≤ 3, payload ≠ List.replicate before 0 := by
      rintro before within rfl
      exact zeros.few before within msg (inverse msg _ put)
    have kept : ∀ before ≤ 3, List.replicate before 0 <+: payload := by
      intro before within
      induction before with
      | zero => exact List.nil_prefix
      | succ before ih =>
        obtain ⟨rest, front⟩ := zeros_further few (ih (by omega)) (longer before (by omega))
        rw [front] at decoded
        exact zeros.kept within decoded put
    obtain ⟨rest, front⟩ := zeros_further few (kept 3 (Nat.le_refl 3)) (longer 3 (Nat.le_refl 3))
    rw [front, zeros.request rest] at decoded
    exact (Except.ok.inj decoded).symm
  · rintro rfl
    cases put.symm.trans zeros.written
    have found : taken (toLittle 4 ((List.replicate 4 (0 : UInt8)).length % 2 ^ 32) ++ List.replicate 4 0) count =
        List.replicate 4 0 ++ [] := by
      match count, some, few with
      | 1, _, _ => rfl
      | 2, _, _ => rfl
      | 3, _, _ => rfl
    rw [found]
    exact zeros.request []

/-- A frame as it was written is read back just when its payload is no larger than a
frame may be, the length being had at once. Where only part of the length is had, a
request of zeros is the one message that is. -/
theorem frame_read_iff (inverse : codec.Inverse) (shortest : codec.Shortest) (zeros : codec.Zeros) {msg : Message}
    {frame : Bytes} (encoded : encodeMessage codec msg = .ok frame) (offers : Nat → Nat) (reads : Nat) :
    (readMessageFrame Received.stream codec ⟨frame, reads, offers⟩).1 = .ok (some msg) ↔
      (4 ≤ offers reads ∧ Fits codec msg) ∨ (offers reads < 4 ∧ msg = .request ⟨0, "", []⟩) := by
  obtain ⟨payload, put, rfl⟩ : ∃ payload, codec.toAllocvec msg = .ok payload ∧
      toLittle 4 (payload.length % 2 ^ 32) ++ payload = frame := by
    rw [encodeMessage] at encoded
    split at encoded
    · cases encoded
    · exact ⟨_, ‹_›, Except.ok.inj encoded⟩
  have fits : Fits codec msg ↔ payload.length ≤ maxFrameSize := by
    constructor
    · rintro ⟨other, same, small⟩
      cases put.symm.trans same
      exact small
    · exact fun small => ⟨payload, put, small⟩
  rcases Nat.lt_or_ge (offers reads) 4 with less | whole
  · have offered : max 1 (offers reads) = min (max 1 (offers reads)) 4 := by omega
    obtain ⟨number, read⟩ := read_written codec payload offered
    have small : ¬ maxFrameSize < payload.length % 2 ^ 32 % 256 ^ max 1 (offers reads) := by
      have low := Nat.mod_lt (payload.length % 2 ^ 32) (Nat.pow_pos (by decide : 0 < 256) : 0 < 256 ^ max 1 (offers reads))
      have few : 256 ^ max 1 (offers reads) ≤ 256 ^ 3 := Nat.pow_le_pow_right (by decide) (by omega)
      have most : 256 ^ 3 ≤ maxFrameSize := by decide
      omega
    rw [read, number, if_neg small, decodeBuf_ok, short_read inverse shortest zeros put (by omega) (by omega)]
    exact ⟨fun got => Or.inr ⟨less, got⟩, fun either => either.elim (fun first => by omega) (fun second => second.2)⟩
  · have offered : 4 = min (max 1 (offers reads)) 4 := by omega
    obtain ⟨number, read⟩ := read_written codec payload offered
    have length : payload.length % 2 ^ 32 % 256 ^ 4 = payload.length % 2 ^ 32 := Nat.mod_mod ..
    have got : taken (toLittle 4 (payload.length % 2 ^ 32) ++ payload) 4 = payload.take (payload.length % 2 ^ 32) := by
      rw [taken, number, length, List.drop_left' (toLittle_length ..)]
    rw [read, number, length, got, fits]
    constructor
    · intro same
      split at same
      · cases same
      · -- from a length that wrapped around less is decoded than the message takes
        have least := shortest _ msg payload (decodeBuf_ok.1 same) put
        rw [List.length_take] at least
        exact Or.inl ⟨whole, by omega⟩
    · rintro (⟨-, small⟩ | ⟨less, -⟩)
      · have same : payload.length % 2 ^ 32 = payload.length := by
          apply Nat.mod_eq_of_lt
          unfold maxFrameSize at small
          omega
        rw [same, if_neg (Nat.not_lt_of_le small), List.take_length]
        exact decodeBuf_ok.2 (inverse msg payload put)
      · omega

private def ping : Message := .event ⟨1, "a", []⟩

theorem frame_read_iff_ping :
    (readMessageFrame Received.stream wire ⟨[5, 0, 0, 0, 2, 1, 1, 97, 0], 0, fun _ => 4⟩).1 = .ok (some ping) ↔
      (4 ≤ 4 ∧ Fits wire ping) ∨ (4 < 4 ∧ ping = .request ⟨0, "", []⟩) :=
  frame_read_iff wire_inverse wire_shortest wire_zeros (by decide) (fun _ => 4) 0

/-- A response of 64 MiB is written, and the frame is refused. -/
theorem large_frame_refused :
    ∃ data : Bytes, data.length = 64 * 1024 * 1024 ∧ ∃ frame,
      encodeMessage wire (.response ⟨1, .success, none, data⟩) = .ok frame ∧
        (readMessageFrame Received.stream wire ⟨frame, 0, fun _ => 4⟩).1 = .error (.protocol "帧大小超限: 67108872") := by
  have size : (List.replicate (64 * 1024 * 1024) (0 : UInt8)).length = 64 * 1024 * 1024 := List.length_replicate
  have encoded := large_encoded 1 (Or.inl rfl) size
  generalize List.replicate (64 * 1024 * 1024) (0 : UInt8) = data at size encoded
  have length : ([1, (1 : UInt64).toUInt8, 0, 0] ++ ([128, 128, 128, 32] ++ data)).length = 67108872 := by
    simp only [List.length_append, size]
    rfl
  have large := readMessageFrame_large encoded (by rw [length]; decide) (by rw [length]; decide) (fun _ => 4) 0 (Nat.le_refl 4) []
  rw [length] at large
  obtain ⟨frame, written, refused⟩ := large
  rw [List.append_nil] at refused
  exact ⟨data, size, frame, written, refused⟩

end Written

theorem frame_length {payload : Bytes} (small : payload.length ≤ maxFrameSize) :
    ofLittle (toLittle 4 payload.length) = payload.length := by
  rw [ofLittle_toLittle]
  apply Nat.mod_eq_of_lt
  unfold maxFrameSize at small
  omega

section Reading
variable (codec) (reader : Filling σ) {recv : σ}

theorem read_over (past : reader.rest recv = []) : (readMessageFrame reader.stream codec recv).1 = .ok none := by
  have none := reader.ended recv (List.replicate 4 0) past
  rw [readMessageFrame]
  generalize reader.stream.read recv (List.replicate 4 0) = got at none ⊢
  obtain ⟨result, buf, next⟩ := got
  cases none
  rfl

theorem read_front (some : reader.rest recv ≠ []) :
    let len := ofLittle ((reader.rest recv).take 4 ++ List.replicate (4 - (reader.rest recv).length) 0)
    ∃ mid, reader.rest mid = (reader.rest recv).drop 4 ∧ readMessageFrame reader.stream codec recv =
      if maxFrameSize < len then (.error (.protocol ("帧大小超限: " ++ toString len)), mid)
      else readPayload reader.stream codec mid len := by
  obtain ⟨mid, read, left⟩ := reader.fills recv (List.replicate 4 0) some
  rw [List.length_replicate, List.drop_replicate] at read
  rw [List.length_replicate] at left
  refine ⟨mid, left, ?_⟩
  rw [readMessageFrame, read]
  rfl

theorem take_counted {mid : σ} {left : Bytes} (there : reader.rest mid = left) (len : Nat) :
    (left.length < len → ∃ e, (readPayload reader.stream codec mid len).1 = .error e) ∧
      (len ≤ left.length → ∃ next, reader.rest next = left.drop len ∧
        readPayload reader.stream codec mid len = decodeBuf codec (left.take len) next) := by
  subst there
  constructor
  · intro less
    have less : (reader.rest mid).length < (List.replicate len (0 : UInt8)).length := by
      rw [List.length_replicate]
      exact less
    obtain ⟨e, failed⟩ := reader.short mid _ less
    refine ⟨e, ?_⟩
    rw [readPayload]
    generalize reader.stream.readExact mid (List.replicate len 0) = got at failed ⊢
    obtain ⟨result, buf, next⟩ := got
    cases failed
    rfl
  · intro enough
    have enough : (List.replicate len (0 : UInt8)).length ≤ (reader.rest mid).length := by
      rw [List.length_replicate]
      exact enough
    obtain ⟨next, took, rest⟩ := reader.exact mid _ enough
    rw [List.length_replicate] at took rest
    refine ⟨next, rest, ?_⟩
    rw [readPayload, took]

theorem read_counted {front more : Bytes} (there : reader.rest recv = front ++ more) (width : front.length = 4)
    (small : ofLittle front ≤ maxFrameSize) :
    (more.length < ofLittle front → ∃ e, (readMessageFrame reader.stream codec recv).1 = .error e) ∧
      (ofLittle front ≤ more.length → ∃ next, reader.rest next = more.drop (ofLittle front) ∧
        readMessageFrame reader.stream codec recv = decodeBuf codec (more.take (ofLittle front)) next) := by
  have some : reader.rest recv ≠ [] := by
    rw [there]
    exact List.append_ne_nil_of_left_ne_nil (List.ne_nil_of_length_pos (by omega)) more
  obtain ⟨mid, left, read⟩ := read_front codec reader some
  have len : (front ++ more).take 4 ++ List.replicate (4 - (front ++ more).length) 0 = front := by
    have none : 4 - (front ++ more).length = 0 := by
      rw [List.length_append]
      omega
    rw [none, List.replicate_zero, List.append_nil, ← width, List.take_left]
  have after : (front ++ more).drop 4 = more := by rw [← width, List.drop_left]
  rw [there, after] at left
  rw [there, len, if_neg (Nat.not_lt_of_le small)] at read
  rw [read]
  exact take_counted codec reader left (ofLittle front)

theorem read_frame (inverse : codec.Inverse) {msg : Message} {payload more : Bytes}
    (encoded : codec.toAllocvec msg = .ok payload) (small : payload.length ≤ maxFrameSize)
    (there : reader.rest recv = toLittle 4 payload.length ++ payload ++ more) :
    ∃ next, reader.rest next = more ∧ readMessageFrame reader.stream codec recv = (.ok (some msg), next) := by
  rw [List.append_assoc] at there
  have length := frame_length small
  obtain ⟨next, left, read⟩ := (read_counted codec reader there (toLittle_length ..)
    (by rw [length]; exact small)).2 (by rw [length, List.length_append]; omega)
  rw [length, List.drop_left] at left
  rw [length, List.take_left, decodeBuf, inverse msg payload encoded] at read
  exact ⟨next, left, read⟩

theorem read_cut (empty : ∀ msg, codec.fromBytes [] ≠ .ok msg) {payload cut : Bytes}
    (small : payload.length ≤ maxFrameSize) (part : cut <+: toLittle 4 payload.length ++ payload)
    (less : cut.length < 4 + payload.length) (some : cut ≠ []) (there : reader.rest recv = cut) :
    ∃ e, (readMessageFrame reader.stream codec recv).1 = .error e := by
  have width := toLittle_length 4 payload.length
  rcases Nat.lt_or_ge cut.length 4 with inside | whole
  · -- the length is read from less than its bytes, and nothing is left after them
    rw [← there] at some
    obtain ⟨mid, left, read⟩ := read_front codec reader some
    rw [there, List.drop_of_length_le (Nat.le_of_lt inside)] at left
    rw [read]
    split
    · exact ⟨_, rfl⟩
    · generalize ofLittle _ = len
      have counted := take_counted codec reader left len
      rcases Nat.eq_zero_or_pos len with zero | pos
      · subst zero
        obtain ⟨next, -, read⟩ := counted.2 (Nat.zero_le _)
        rw [read, List.take_nil, decodeBuf]
        cases nothing : codec.fromBytes [] with
        | error text => exact ⟨_, rfl⟩
        | ok msg => exact absurd nothing (empty msg)
      · exact counted.1 pos
  · obtain ⟨more, rfl⟩ : ∃ more, cut = toLittle 4 payload.length ++ more := by
      obtain ⟨more, same⟩ := List.prefix_of_prefix_length_le (List.prefix_append _ payload) part (by omega)
      exact ⟨more, same.symm⟩
    have length := frame_length small
    refine (read_counted codec reader there width ?_).1 ?_
    · rw [length]
      exact small
    · rw [List.length_append] at less
      omega

end Reading

section Cut

/-- The first `count` of the messages are whole in `bytes`, as `whole`, and no more of them are. -/
structure Whole (codec : Codec Message) (msgs : List Message) (bytes whole : Bytes) (count : Nat) : Prop where
  within : count ≤ msgs.length
  encoded : encodeMessages codec (msgs.take count) = .ok whole
  front : whole <+: bytes
  most : ∀ more ≤ msgs.length, ∀ frames, encodeMessages codec (msgs.take more) = .ok frames → frames <+: bytes → more ≤ count

/-- What is read are the whole messages and, after them, the end or an error. -/
structure ReadUpTo (codec : Codec Message) (msgs : List Message) (bytes : Bytes) (count : Nat)
    (results : List (Result (Option Message))) : Prop where
  messages : results.take count = (msgs.take count).map (fun msg => .ok (some msg))
  ending : ∃ whole, Whole codec msgs bytes whole count ∧
    ((bytes = whole ∧ results.drop count = [.ok none]) ∨ (bytes ≠ whole ∧ ∃ e, results.drop count = [.error e]))

theorem whole_none {msg : Message} {rest : List Message} {payload bytes : Bytes} (encoded : codec.toAllocvec msg = .ok payload)
    (small : payload.length ≤ maxFrameSize) (less : bytes.length < 4 + payload.length) :
    Whole codec (msg :: rest) bytes [] 0 := by
  refine ⟨Nat.zero_le _, rfl, List.nil_prefix, ?_⟩
  intro more within frames same front
  cases more with
  | zero => exact Nat.le_refl 0
  | succ more =>
    rw [List.take_succ_cons, encodeMessages, encodeMessage_fits encoded small] at same
    cases after : encodeMessages codec (rest.take more) with
    | error e =>
      rw [after] at same
      cases same
    | ok framesRest =>
      rw [after] at same
      cases same
      have longer := front.length_le
      have width := toLittle_length 4 payload.length
      simp only [List.length_append] at longer
      omega

theorem whole_next {msg : Message} {rest : List Message} {payload bytes whole : Bytes} {count : Nat}
    (encoded : codec.toAllocvec msg = .ok payload) (small : payload.length ≤ maxFrameSize)
    (after : Whole codec rest bytes whole count) :
    Whole codec (msg :: rest) (toLittle 4 payload.length ++ payload ++ bytes)
      (toLittle 4 payload.length ++ payload ++ whole) (count + 1) := by
  refine ⟨Nat.succ_le_succ after.within, ?_, List.prefix_append_right_inj _ |>.2 after.front, ?_⟩
  · rw [List.take_succ_cons]
    exact encodeMessages_cons encoded small after.encoded
  · intro more within frames same front
    cases more with
    | zero => exact Nat.zero_le _
    | succ more =>
      rw [List.take_succ_cons, encodeMessages, encodeMessage_fits encoded small] at same
      cases later : encodeMessages codec (rest.take more) with
      | error e =>
        rw [later] at same
        cases same
      | ok framesRest =>
        rw [later] at same
        cases same
        have front := (List.prefix_append_right_inj _).1 front
        exact Nat.succ_le_succ (after.most more (Nat.le_of_succ_le_succ within) framesRest later front)

/-- Wherever the frames are cut, the messages before the cut are read, and then the end
where it is between two frames and an error where it is not. -/
theorem read_up_to_cut (inverse : codec.Inverse) (empty : ∀ msg, codec.fromBytes [] ≠ .ok msg) (reader : Filling σ)
    {msgs : List Message} (fits : ∀ msg ∈ msgs, Fits codec msg) {frames bytes : Bytes}
    (encoded : encodeMessages codec msgs = .ok frames) (cut : bytes <+: frames) {recv : σ}
    (there : reader.rest recv = bytes) :
    ∃ count, ReadUpTo codec msgs bytes count (readMessages reader.stream codec (count + 1) recv) := by
  induction msgs generalizing frames bytes recv with
  | nil =>
    cases encoded
    have nothing : bytes = [] := List.prefix_nil.1 cut
    subst nothing
    refine ⟨0, rfl, [], ⟨Nat.le_refl 0, rfl, List.nil_prefix, fun more within _ _ _ => within⟩, Or.inl ⟨rfl, ?_⟩⟩
    exact congrArg (· :: []) (read_over codec reader there)
  | cons msg rest ih =>
    obtain ⟨payload, put, small⟩ := fits msg (List.mem_cons_self ..)
    have fitsRest : ∀ msg ∈ rest, Fits codec msg := fun msg member => fits msg (List.mem_cons_of_mem _ member)
    obtain ⟨framesRest, encodedRest⟩ := encodeMessages_exists fitsRest
    rw [encodeMessages_cons put small encodedRest] at encoded
    cases encoded
    have width := toLittle_length 4 payload.length
    have size : (toLittle 4 payload.length ++ payload).length = 4 + payload.length := by
      rw [List.length_append, width]
    rcases Nat.lt_or_ge bytes.length (4 + payload.length) with inside | whole
    · refine ⟨0, rfl, [], whole_none put small inside, ?_⟩
      by_cases some : bytes = []
      · exact Or.inl ⟨some, congrArg (· :: []) (read_over codec reader (there.trans some))⟩
      · have part : bytes <+: toLittle 4 payload.length ++ payload :=
          List.prefix_of_prefix_length_le cut (List.prefix_append _ framesRest) (by omega)
        obtain ⟨e, failed⟩ := read_cut codec reader empty small part inside some there
        exact Or.inr ⟨some, e, congrArg (· :: []) failed⟩
    · obtain ⟨bytesRest, rfl⟩ : ∃ bytesRest, bytes = toLittle 4 payload.length ++ payload ++ bytesRest := by
        obtain ⟨bytesRest, same⟩ := List.prefix_of_prefix_length_le (List.prefix_append _ framesRest) cut (by omega)
        exact ⟨bytesRest, same.symm⟩
      obtain ⟨next, left, read⟩ := read_frame codec reader inverse put small there
      obtain ⟨count, after⟩ := ih fitsRest encodedRest ((List.prefix_append_right_inj _).1 cut) left
      obtain ⟨wholeRest, wholes, ending⟩ := after.ending
      refine ⟨count + 1, ?_, toLittle 4 payload.length ++ payload ++ wholeRest, whole_next put small wholes, ?_⟩
      · rw [readMessages, read]
        exact congrArg (.ok (some msg) :: ·) after.messages
      · rw [readMessages, read]
        rcases ending with ⟨same, ended⟩ | ⟨other, e, failed⟩
        · exact Or.inl ⟨congrArg _ same, ended⟩
        · exact Or.inr ⟨fun same => other (List.append_cancel_left same), e, failed⟩

private theorem pings_fit : ∀ msg ∈ [ping, ping], Fits wire msg := by
  intro msg member
  rw [List.mem_cons, List.mem_singleton, or_self] at member
  subst member
  exact ⟨[2, 1, 1, 97, 0], by decide, by decide⟩

/-- A frame, and two of the four bytes of the length of another. -/
theorem read_up_to_cut_pings :
    ∃ count, ReadUpTo wire [ping, ping] [5, 0, 0, 0, 2, 1, 1, 97, 0, 5, 0] count
      (readMessages MemReader.filling.stream wire (count + 1) ⟨[5, 0, 0, 0, 2, 1, 1, 97, 0, 5, 0], 0⟩) :=
  read_up_to_cut wire_inverse (fun _ => nofun) MemReader.filling pings_fit
    (rfl : encodeMessages wire [ping, ping] = .ok [5, 0, 0, 0, 2, 1, 1, 97, 0, 5, 0, 0, 0, 2, 1, 1, 97, 0]) (by decide) rfl

end Cut

end EchoStream.Proto.FrameReads
