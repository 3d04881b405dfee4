import EchoStream.Proto.Endpoint

/-! A frame as one binary message of a WebSocket. The server cuts the payload out by
the length that is declared in front, and does not look whether so much is there. -/

namespace EchoStream.Transport.WsFrames
open Foundation.Formats
open Proto.Messages Proto.Postcard Proto.Endpoint

/-- The bytes from `start` up to `stop`. Indexing that does not fit panics. -/
def slice (data : Bytes) (start stop : Nat) : Option Bytes :=
  if start ≤ stop ∧ stop ≤ data.length then some ((data.take stop).drop start) else none

/-- What decoding comes to. -/
inductive Decoded (ε : Type) where
  | panicked
  | refused (e : ε)
  | accepted (msg : Message)

def declared (data : Bytes) : Nat := ofLittle (data.take 4)

def recvBinary (codec : Codec Message) (data : Bytes) : Decoded Error :=
  if data.length < 4 then .refused (.protocol "帧长度不足")
  else
    match slice data 4 (4 + declared data) with
    | none => .panicked
    | some payload =>
        match codec.fromBytes payload with
        | .error text => .refused (.serialization text)
        | .ok msg => .accepted msg

/-- What the socket gives next: a binary message, that it is closed, a message of
another kind, an error. After the last one it is at its end. -/
inductive Item where
  | binary (data : Bytes)
  | close
  | other
  | failed (text : String)

def answerOf : Decoded Error → Option (Result (Option Message))
  | .panicked => none
  | .refused e => some (.error e)
  | .accepted msg => some (.ok (some msg))

def recvFrame (codec : Codec Message) : List Item → Option (Result (Option Message)) × List Item
  | [] => (some (.ok none), [])
  | .binary data :: rest => (answerOf (recvBinary codec data), rest)
  | .close :: rest => (some (.ok none), rest)
  | .other :: rest => recvFrame codec rest
  | .failed text :: rest => (some (.error (.io text)), rest)

/-- A message is decoded soundly: there is no panic, a length that does not fit is an
error, and what is accepted is what a reader of the same bytes is given, unless they
are too many for one. -/
structure Sound {ε : Type} (codec : Codec Message) (data : Bytes) (decoded : Decoded ε) : Prop where
  returns : decoded ≠ .panicked
  refuses : data.length < 4 + declared data → ∃ e, decoded = .refused e
  agrees : ∀ msg, decoded = .accepted msg → declared data ≤ maxFrameSize → ∀ offers : Nat → Nat, 4 ≤ offers 0 →
    (readMessageFrame Received.stream codec ⟨data, 0, offers⟩).1 = .ok (some msg)

/-- The length that is declared is there. -/
def Fitting (data : Bytes) : Prop := 4 ≤ data.length → 4 + declared data ≤ data.length

variable {ε : Type} {codec : Codec Message} {data : Bytes}

theorem declared_lt (data : Bytes) : declared data < 2 ^ 32 := by
  have few : (data.take 4).length ≤ 4 := List.length_take_le 4 data
  calc declared data < 256 ^ (data.take 4).length := ofLittle_lt _
    _ ≤ 256 ^ 4 := Nat.pow_le_pow_right (by decide) few
    _ = 2 ^ 32 := by decide

theorem slice_fits {stop : Nat} (fits : stop ≤ data.length) (after : 4 ≤ stop) :
    slice data 4 stop = some ((data.take stop).drop 4) :=
  if_pos ⟨after, fits⟩

theorem readMessageFrame_declared (long : 4 ≤ data.length) (fits : 4 + declared data ≤ data.length)
    (small : declared data ≤ maxFrameSize) {msg : Message}
    (decodes : codec.fromBytes ((data.take (4 + declared data)).drop 4) = .ok msg) {offers : Nat → Nat}
    (whole : 4 ≤ offers 0) :
    (readMessageFrame Received.stream codec ⟨data, 0, offers⟩).1 = .ok (some msg) := by
  have offered : 4 = min (max 1 (offers 0)) 4 := by omega
  have width : (data.take 4).length = 4 := by
    rw [List.length_take]
    omega
  have got := read_length width (data.drop 4) 0 4 offered
  rw [List.take_append_drop, List.take_of_length_le (by omega), List.drop_of_length_le (by omega), List.nil_append,
    Nat.sub_self, List.replicate_zero, List.append_nil] at got
  have length : ofLittle (data.take 4) = declared data := rfl
  have cut : ((data.drop 4).take (declared data)).length = declared data := by
    rw [List.length_take, List.length_drop]
    omega
  have read : Received.readExact ⟨data.drop 4, 0 + 1, offers⟩ (List.replicate (declared data) 0) =
      (.ok (), (data.drop 4).take (declared data), ⟨(data.drop 4).drop (declared data), 0 + 1, offers⟩) := by
    have front : Received.readExact
        ⟨(data.drop 4).take (declared data) ++ (data.drop 4).drop (declared data), 0 + 1, offers⟩ _ = _ :=
      readExact_front _ _ _ (List.replicate (declared data) 0) (by rw [cut, List.length_replicate])
    rwa [List.take_append_drop] at front
  rw [List.drop_take, Nat.add_sub_cancel_left] at decodes
  rw [readMessageFrame]
  simp only [Received.stream, got, length, if_neg (Nat.not_lt.mpr small), read, decodes]

/-- A decoder that refuses what is too short and otherwise decodes the payload that is
declared, if it is there, is sound exactly on the messages that have it. -/
theorem sound_iff_fitting {decoded : Decoded ε} (short : data.length < 4 → ∃ e, decoded = .refused e)
    (missing : 4 ≤ data.length → data.length < 4 + declared data → decoded = .panicked)
    (there : 4 ≤ data.length → 4 + declared data ≤ data.length →
      (∃ e, decoded = .refused e) ∨
        ∃ msg, decoded = .accepted msg ∧ codec.fromBytes ((data.take (4 + declared data)).drop 4) = .ok msg) :
    Sound codec data decoded ↔ Fitting data := by
  constructor
  · intro sound long
    by_contra more
    exact sound.returns (missing long (Nat.lt_of_not_le more))
  · intro fitting
    by_cases long : 4 ≤ data.length
    · have fits := fitting long
      rcases there long fits with ⟨e, refused⟩ | ⟨msg, accepted, decodes⟩
      · refine ⟨?_, fun _ => ⟨e, refused⟩, ?_⟩
        · rw [refused]
          exact nofun
        · intro msg same
          rw [refused] at same
          cases same
      · refine ⟨?_, fun more => absurd fits (Nat.not_le_of_lt more), ?_⟩
        · rw [accepted]
          exact nofun
        · intro other same small offers whole
          rw [accepted] at same
          cases same
          exact readMessageFrame_declared long fits small decodes whole
    · obtain ⟨e, refused⟩ := short (Nat.lt_of_not_le long)
      refine ⟨?_, fun _ => ⟨e, refused⟩, ?_⟩
      · rw [refused]
        exact nofun
      · intro msg same
        rw [refused] at same
        cases same

theorem answerOf_injective {first second : Decoded Error} (same : answerOf first = answerOf second) : first = second := by
  cases first <;> cases second <;> cases same <;> rfl

theorem recvBinary_sound_iff (codec : Codec Message) (data : Bytes) :
    Sound codec data (recvBinary codec data) ↔ Fitting data := by
  apply sound_iff_fitting
  · intro short
    exact ⟨_, if_pos short⟩
  · intro long more
    have outside : slice data 4 (4 + declared data) = none := if_neg (fun inside => absurd inside.2 (Nat.not_le_of_lt more))
    rw [recvBinary, if_neg (Nat.not_lt_of_le long), outside]
  · intro long fits
    rw [recvBinary, if_neg (Nat.not_lt_of_le long), slice_fits fits (Nat.le_add_right 4 _)]
    cases decodes : codec.fromBytes ((data.take (4 + declared data)).drop 4) with
    | error text => exact .inl ⟨.serialization text, by simp only [decodes]⟩
    | ok msg => exact .inr ⟨msg, by simp only [decodes], rfl⟩

end EchoStream.Transport.WsFrames
