import EchoStream.Foundation.Formats
import EchoStream.Proto.Messages

/-! The wire format of messages. Numbers and lengths are base-128 groups,
strings and byte strings carry their length in front, an option and the kind of
a message are a tag followed by what they hold. The rest of the development
sees a codec, which is a pair of functions and the law that the second undoes
the first; the format of messages is a codec with that law. -/

namespace EchoStream.Proto.Postcard
open Foundation.Formats
open Messages

structure Codec (α : Type) where
  toAllocvec : α → Except String Bytes
  fromBytes : Bytes → Except String α

def Codec.Inverse {α : Type} (codec : Codec α) : Prop :=
  ∀ value payload, codec.toAllocvec value = .ok payload → codec.fromBytes payload = .ok value

/-- The codec of a format. Its texts for failures are not told apart further. -/
def codecOf {α : Type} (format : Format α) : Codec α where
  toAllocvec value :=
    match format.put value with
    | some payload => .ok payload
    | none => .error "The length of a sequence must be known"
  fromBytes payload :=
    match format.parse payload with
    | some value => .ok value
    | none => .error "Hit the end of buffer, expected more data"

theorem codecOf_fromBytes {α : Type} {format : Format α} {payload : Bytes} {value : α} :
    (codecOf format).fromBytes payload = .ok value ↔ ∃ rest, format.get payload = some (value, rest) := by
  simp only [codecOf, Format.parse]
  cases got : format.get payload with
  | none =>
    constructor
    · intro same
      cases same
    · rintro ⟨rest, same⟩
      cases same
  | some entry =>
    constructor
    · intro same
      cases same
      exact ⟨entry.2, rfl⟩
    · rintro ⟨rest, same⟩
      cases same
      rfl

theorem codecOf_toAllocvec {α : Type} {format : Format α} {payload : Bytes} {value : α} :
    (codecOf format).toAllocvec value = .ok payload ↔ format.put value = some payload := by
  simp only [codecOf]
  cases format.put value with
  | none =>
    constructor
    · intro same
      cases same
    · intro same
      cases same
  | some bytes =>
    constructor
    · intro same
      exact congrArg some (Except.ok.inj same)
    · intro same
      exact congrArg Except.ok (Option.some.inj same)

theorem codecOf_inverse {α : Type} (format : Format α) : (codecOf format).Inverse := by
  intro value payload encoded
  have read := format.get_put (codecOf_toAllocvec.1 encoded) []
  rw [List.append_nil] at read
  exact codecOf_fromBytes.2 ⟨[], read⟩

def u16 : Format UInt16 :=
  (groups 2 3 (by decide)).convert (fun value => some value.toNat) (fun number => some (UInt16.ofNat number))
    (by
      intro value number same
      cases same
      rw [UInt16.ofNat_toNat])

def u32 : Format Nat := groups 4 15 (by decide)

def u64 : Format UInt64 :=
  (groups 9 1 (by decide)).convert (fun value => some value.toNat) (fun number => some (UInt64.ofNat number))
    (by
      intro value number same
      cases same
      rw [UInt64.ofNat_toNat])

theorem u64_put (id : UInt64) : u64.put id = some (putGroups 10 id.toNat) := by
  have bound : id.toNat < 128 ^ 9 * (1 + 1) := Nat.lt_of_lt_of_le id.toNat_lt (by decide)
  exact if_pos bound

def usize : Format Nat := groups 9 1 (by decide)

def bytes : Format Bytes := .list usize byte

def string : Format String :=
  bytes.convert (fun value => some value.toUTF8.data.toList)
    (fun payload => String.fromUTF8? ⟨payload.toArray⟩)
    (by
      intro value payload same
      cases same
      rw [Array.toArray_toList, String.fromUTF8?, String.toUTF8_eq_toByteArray]
      exact dif_pos value.isValidUTF8)

def present {α : Type} (format : Format α) : Format (Option α) :=
  format.convert id (fun value => some (some value)) (by
    intro value inner same
    exact congrArg some same.symm)

def absent {α : Type} : Format (Option α) :=
  nothing.convert (fun value => if value.isNone then some () else none) (fun _ => some none) (by
    intro value inner same
    cases value with
    | none => rfl
    | some value => simp at same)

def tagByte : Format Nat :=
  byte.convert (fun number => if number < 256 then some (UInt8.ofNat number) else none)
    (fun tag => some tag.toNat)
    (by
      intro number tag same
      split at same
      · rename_i fits
        cases same
        rw [byte_toNat fits]
      · cases same)

def option {α : Type} (format : Format α) : Format (Option α) :=
  .tagged tagByte (fun value => if value.isSome then 1 else 0) (fun tag => [absent, present format][tag]?)

def streamMetaEntry : Format StreamMetaEntry :=
  (string.pair bytes).convert (fun entry => some (entry.key, entry.value))
    (fun (key, value) => some { key, value }) (by intro value inner same; cases same; rfl)

def requestMsg : Format RequestMsg :=
  (u64.pair (string.pair bytes)).convert (fun msg => some (msg.id, msg.name, msg.data))
    (fun (id, name, data) => some { id, name, data }) (by intro value inner same; cases same; rfl)

def statusCode : Format StatusCode :=
  u16.convert (fun status => some status.code) (fun code => some { code })
    (by intro value inner same; cases same; rfl)

def timestamp : Format Timestamp :=
  u64.convert (fun time => some time.millis) (fun millis => some { millis })
    (by intro value inner same; cases same; rfl)

def responseMsg : Format ResponseMsg :=
  (u64.pair (statusCode.pair ((option string).pair bytes))).convert
    (fun msg => some (msg.id, msg.code, msg.message, msg.data))
    (fun (id, code, message, data) => some { id, code, message, data })
    (by intro value inner same; cases same; rfl)

def eventMsg : Format EventMsg :=
  (u64.pair (string.pair bytes)).convert (fun msg => some (msg.id, msg.name, msg.data))
    (fun (id, name, data) => some { id, name, data }) (by intro value inner same; cases same; rfl)

def streamOpenMsg : Format StreamOpenMsg :=
  (u64.pair (string.pair (.list usize streamMetaEntry))).convert
    (fun msg => some (msg.id, msg.name, msg.metadata))
    (fun (id, name, metadata) => some { id, name, metadata }) (by intro value inner same; cases same; rfl)

def streamMsg : Format StreamMsg :=
  (u64.pair (u64.pair (timestamp.pair bytes))).convert
    (fun msg => some (msg.id, msg.seq, msg.senderTs, msg.data))
    (fun (id, seq, senderTs, data) => some { id, seq, senderTs, data })
    (by intro value inner same; cases same; rfl)

def streamEndMsg : Format StreamEndMsg :=
  (u64.pair (u16.pair ((option string).pair (.list usize streamMetaEntry)))).convert
    (fun msg => some (msg.id, msg.code, msg.message, msg.metadata))
    (fun (id, code, message, metadata) => some { id, code, message, metadata })
    (by intro value inner same; cases same; rfl)

/-- One kind of message: `view` picks the messages of the kind. -/
def kind {α : Type} (format : Format α) (make : α → Message) (view : Message → Option α)
    (made : ∀ {message msg}, view message = some msg → make msg = message) : Format Message :=
  format.convert view (fun msg => some (make msg)) (fun same => congrArg some (made same))

def kindOf : Message → Nat
  | .request _ => 0
  | .response _ => 1
  | .event _ => 2
  | .streamOpen _ => 3
  | .stream _ => 4
  | .streamEnd _ => 5

def kinds : List (Format Message) :=
  [kind requestMsg .request (fun | .request msg => some msg | _ => none)
    (by intro message msg same; cases message <;> simp_all),
   kind responseMsg .response (fun | .response msg => some msg | _ => none)
    (by intro message msg same; cases message <;> simp_all),
   kind eventMsg .event (fun | .event msg => some msg | _ => none)
    (by intro message msg same; cases message <;> simp_all),
   kind streamOpenMsg .streamOpen (fun | .streamOpen msg => some msg | _ => none)
    (by intro message msg same; cases message <;> simp_all),
   kind streamMsg .stream (fun | .stream msg => some msg | _ => none)
    (by intro message msg same; cases message <;> simp_all),
   kind streamEndMsg .streamEnd (fun | .streamEnd msg => some msg | _ => none)
    (by intro message msg same; cases message <;> simp_all)]

def message : Format Message := .tagged u32 kindOf (fun tag => kinds[tag]?)

def wire : Codec Message := codecOf message

theorem wire_inverse : wire.Inverse := codecOf_inverse message

section Large

theorem putAll_byte (data : Bytes) : byte.putAll data = some data := by
  induction data with
  | nil => rfl
  | cons first rest ih =>
    rw [Format.putAll, ih]
    rfl

theorem response_put (id : UInt64) (low : id = 1 ∨ id = 2) (data : Bytes) :
    message.put (.response ⟨id, .success, none, data⟩) =
      (bytes.put data).map (fun back => [1, id.toUInt8, 0, 0] ++ back) := by
  have tag : u32.put 1 = some [1] := by decide
  have number : u64.put id = some [id.toUInt8] := by
    rcases low with rfl | rfl <;> decide
  have code : statusCode.put .success = some [0] := by decide
  have text : (option string).put none = some [0] := by decide
  cases put : bytes.put data <;>
    simp [message, Format.tagged, kindOf, kinds, kind, responseMsg, Format.convert, Format.pair, tag, number, code, text,
      put]

theorem large_encoded (id : UInt64) (low : id = 1 ∨ id = 2) {data : Bytes} (size : data.length = 64 * 1024 * 1024) :
    wire.toAllocvec (.response ⟨id, .success, none, data⟩) = .ok ([1, id.toUInt8, 0, 0] ++ ([128, 128, 128, 32] ++ data)) := by
  have front : usize.put (64 * 1024 * 1024) = some [128, 128, 128, 32] := by decide
  have put : bytes.put data = some ([128, 128, 128, 32] ++ data) := by
    simp only [bytes, Format.list, putAll_byte, size, front]
    rfl
  simp only [wire, codecOf, response_put id low, put, Option.map_some]

end Large

section Shortest

/-- No message is decoded from fewer bytes than it is encoded to. -/
def Codec.Shortest {α : Type} (codec : Codec α) : Prop :=
  ∀ payload value front, codec.fromBytes payload = .ok value → codec.toAllocvec value = .ok front →
    front.length ≤ payload.length

theorem codecOf_shortest {α : Type} {format : Format α} (shortest : format.Shortest) : (codecOf format).Shortest := by
  intro payload value front decoded encoded
  obtain ⟨rest, got⟩ := codecOf_fromBytes.1 decoded
  have least := shortest.least got (codecOf_toAllocvec.1 encoded)
  omega

theorem u16_shortest : u16.Shortest := by
  refine Format.convert_shortest ?_ (Format.groups_shortest 2 3 (by decide)) ?_
  · intro value number same
    cases same
    exact congrArg some UInt16.ofNat_toNat
  · intro bytes rest number value again got made viewed
    have bound : number < 128 ^ 2 * (3 + 1) := getGroups_lt got
    cases made
    cases viewed
    exact UInt16.toNat_ofNat_of_lt' bound

theorem u64_shortest : u64.Shortest := by
  refine Format.convert_shortest ?_ (Format.groups_shortest 9 1 (by decide)) ?_
  · intro value number same
    cases same
    exact congrArg some UInt64.ofNat_toNat
  · intro bytes rest number value again got made viewed
    have bound : number < 128 ^ 9 * (1 + 1) := getGroups_lt got
    cases made
    cases viewed
    exact UInt64.toNat_ofNat_of_lt' (Nat.lt_of_lt_of_le bound (by decide))

theorem bytes_shortest : bytes.Shortest := Format.list_shortest (Format.groups_shortest ..) byte_shortest

theorem string_shortest : string.Shortest := by
  refine Format.convert_shortest ?_ bytes_shortest ?_
  · intro value payload same
    cases same
    exact dif_pos value.isValidUTF8
  · intro bytes rest inner value again got made viewed
    cases viewed
    rw [String.fromUTF8?] at made
    split at made
    · cases made
      rfl
    · cases made

theorem option_shortest {α : Type} {format : Format α} (shortest : format.Shortest) : (option format).Shortest := by
  refine Format.tagged_shortest ?_ ?_
  · refine Format.convert_shortest ?_ byte_shortest ?_
    · intro number tag same
      split at same
      · rename_i fits
        cases same
        exact congrArg some (byte_toNat fits)
      · cases same
    · intro bytes rest tag number again got made viewed
      cases made
      rw [if_pos tag.toNat_lt] at viewed
      cases viewed
      exact UInt8.ofNat_toNat
  · intro number branch chosen
    match number with
    | 0 =>
      cases chosen
      constructor
      · refine Format.convert_shortest ?_ nothing_shortest (fun _ _ _ => rfl)
        intro value inner same
        cases value with
        | none => rfl
        | some value => cases same
      · intro bytes value rest got
        cases got
        rfl
    | 1 =>
      cases chosen
      constructor
      · refine Format.convert_shortest (fun same => congrArg some same.symm) shortest ?_
        intro bytes rest inner value again got made viewed
        cases made
        cases viewed
        rfl
      · intro bytes value rest got
        simp only [present, Format.convert, Option.bind_eq_bind, Option.bind_eq_some_iff, Option.pure_def,
          Option.some.injEq] at got
        obtain ⟨inner, -, other, rfl, same⟩ := got
        cases same
        rfl

theorem metadata_shortest : (Format.list usize streamMetaEntry).Shortest := by
  refine Format.list_shortest (Format.groups_shortest ..) ?_
  exact Format.record_shortest (fun _ => rfl) (fun _ => rfl) (Format.pair_shortest string_shortest bytes_shortest)

theorem kind_shortest {α : Type} {format : Format α} {make : α → Message} {view : Message → Option α} {number : Nat}
    (views : ∀ message msg, view message = some msg ↔ make msg = message) (numbered : ∀ msg, kindOf (make msg) = number)
    (shortest : format.Shortest) :
    (kind format make view (fun same => (views _ _).1 same)).Shortest ∧
      ∀ {bytes value rest}, (kind format make view (fun same => (views _ _).1 same)).get bytes = some (value, rest) →
        kindOf value = number := by
  constructor
  · refine Format.convert_shortest (fun same => congrArg some ((views _ _).1 same)) shortest ?_
    intro bytes rest inner value again got made viewing
    cases made
    rw [(views _ inner).2 rfl] at viewing
    exact (Option.some.inj viewing).symm
  · intro bytes value rest got
    simp only [kind, Format.convert, Option.bind_eq_bind, Option.bind_eq_some_iff, Option.pure_def,
      Option.some.injEq] at got
    obtain ⟨inner, -, other, rfl, same⟩ := got
    cases same
    exact numbered inner.1

theorem message_shortest : message.Shortest := by
  have named : (u64.pair (string.pair bytes)).Shortest :=
    Format.pair_shortest u64_shortest (Format.pair_shortest string_shortest bytes_shortest)
  refine Format.tagged_shortest (Format.groups_shortest ..) ?_
  intro number format chosen
  match number with
  | 0 =>
    cases chosen
    refine kind_shortest (by intro message msg; cases message <;> simp [eq_comm]) (fun _ => rfl) ?_
    exact Format.record_shortest (fun _ => rfl) (fun _ => rfl) named
  | 1 =>
    cases chosen
    refine kind_shortest (by intro message msg; cases message <;> simp [eq_comm]) (fun _ => rfl) ?_
    have status : statusCode.Shortest := Format.record_shortest (fun _ => rfl) (fun _ => rfl) u16_shortest
    exact Format.record_shortest (fun _ => rfl) (fun _ => rfl) (Format.pair_shortest u64_shortest
      (Format.pair_shortest status (Format.pair_shortest (option_shortest string_shortest) bytes_shortest)))
  | 2 =>
    cases chosen
    refine kind_shortest (by intro message msg; cases message <;> simp [eq_comm]) (fun _ => rfl) ?_
    exact Format.record_shortest (fun _ => rfl) (fun _ => rfl) named
  | 3 =>
    cases chosen
    refine kind_shortest (by intro message msg; cases message <;> simp [eq_comm]) (fun _ => rfl) ?_
    exact Format.record_shortest (fun _ => rfl) (fun _ => rfl) (Format.pair_shortest u64_shortest
      (Format.pair_shortest string_shortest metadata_shortest))
  | 4 =>
    cases chosen
    refine kind_shortest (by intro message msg; cases message <;> simp [eq_comm]) (fun _ => rfl) ?_
    have time : timestamp.Shortest := Format.record_shortest (fun _ => rfl) (fun _ => rfl) u64_shortest
    exact Format.record_shortest (fun _ => rfl) (fun _ => rfl) (Format.pair_shortest u64_shortest
      (Format.pair_shortest u64_shortest (Format.pair_shortest time bytes_shortest)))
  | 5 =>
    cases chosen
    refine kind_shortest (by intro message msg; cases message <;> simp [eq_comm]) (fun _ => rfl) ?_
    exact Format.record_shortest (fun _ => rfl) (fun _ => rfl) (Format.pair_shortest u64_shortest
      (Format.pair_shortest u16_shortest (Format.pair_shortest (option_shortest string_shortest) metadata_shortest)))

theorem wire_shortest : wire.Shortest := codecOf_shortest message_shortest

end Shortest

section Zeros

/-- Zeros in front are the kind of a request, its id and the lengths of its name and its
data, each in one byte and written so, too. What follows is not looked at. -/
structure Codec.Zeros (codec : Codec Message) : Prop where
  kept : ∀ {count : Nat} {rest payload : Bytes} {msg : Message}, count ≤ 3 →
    codec.fromBytes (List.replicate count 0 ++ rest) = .ok msg → codec.toAllocvec msg = .ok payload →
    List.replicate count 0 <+: payload
  few : ∀ count ≤ 3, ∀ msg, codec.fromBytes (List.replicate count 0) ≠ .ok msg
  request : ∀ rest, codec.fromBytes (List.replicate 4 0 ++ rest) = .ok (.request ⟨0, "", []⟩)
  written : codec.toAllocvec (.request ⟨0, "", []⟩) = .ok (List.replicate 4 0)

theorem message_get_zero (rest : Bytes) :
    message.get (0 :: rest) = (requestMsg.get rest).map (fun got => (.request got.1, got.2)) := by
  rw [message, Format.tagged_get (rfl : u32.get (0 :: rest) = some (0, rest)) rfl]
  change (requestMsg.get rest).bind (fun got : RequestMsg × Bytes => some (Message.request got.1, got.2)) = _
  cases requestMsg.get rest <;> rfl

theorem requestMsg_get_zero (rest : Bytes) :
    requestMsg.get (0 :: rest) = ((string.pair bytes).get rest).map (fun got => (⟨0, got.1.1, got.1.2⟩, got.2)) := by
  have front : (u64.pair (string.pair bytes)).get (0 :: rest) = _ := Format.pair_get rfl
  change ((u64.pair (string.pair bytes)).get (0 :: rest)).bind
    (fun got : (UInt64 × String × Bytes) × Bytes => some (RequestMsg.mk got.1.1 got.1.2.1 got.1.2.2, got.2)) = _
  rw [front]
  cases (string.pair bytes).get rest <;> rfl

theorem named_get_zero (rest : Bytes) :
    (string.pair bytes).get (0 :: rest) = (bytes.get rest).map (fun got => (("", got.1), got.2)) :=
  Format.pair_get rfl

theorem message_put_request (req : RequestMsg) :
    message.put (.request req) = (requestMsg.put req).map (fun back => 0 :: back) := by
  have tag : u32.put (kindOf (.request req)) = some [0] := rfl
  rw [message, Format.tagged_put tag rfl]
  rfl

theorem requestMsg_put_zero (name : String) (data : Bytes) :
    requestMsg.put ⟨0, name, data⟩ = ((string.pair bytes).put (name, data)).map (fun back => 0 :: back) := by
  have number : u64.put 0 = some [0] := rfl
  exact Format.pair_put number (name, data)

theorem named_put_zero (data : Bytes) :
    (string.pair bytes).put ("", data) = (bytes.put data).map (fun back => 0 :: back) := by
  have text : string.put "" = some [0] := by decide
  exact Format.pair_put text data

theorem message_keepsZeros : message.KeepsZeros 3 := by
  have data : bytes.KeepsZeros 0 := keepsZeros_zero bytes
  have named : (string.pair bytes).KeepsZeros 1 := keepsZeros_succ named_get_zero named_put_zero data
  have fields : requestMsg.KeepsZeros 2 :=
    keepsZeros_succ requestMsg_get_zero (fun value => requestMsg_put_zero value.1 value.2) named
  exact keepsZeros_succ message_get_zero message_put_request fields

theorem wire_zeros : wire.Zeros := by
  refine ⟨?_, ?_, fun _ => rfl, by decide⟩
  · intro count rest payload msg few decoded encoded
    obtain ⟨later, got⟩ := codecOf_fromBytes.1 decoded
    exact message_keepsZeros.kept few got (codecOf_toAllocvec.1 encoded)
  · intro count few msg decoded
    obtain ⟨later, got⟩ := codecOf_fromBytes.1 decoded
    match count, few with
    | 0, _ => cases got
    | 1, _ => cases got
    | 2, _ => cases got
    | 3, _ => cases got

end Zeros

example : wire.toAllocvec (.event ⟨1, "a", []⟩) = .ok [2, 1, 1, 97, 0] := by decide

example : wire.fromBytes [0, 0, 0, 2, 1] = .error "Hit the end of buffer, expected more data" := by decide

end EchoStream.Proto.Postcard
