import EchoStream.Proto.Metadata
import EchoStream.Core.Stream

/-! A file over a stream. The sender reads it in parts and ends the stream with a digest of
what it sent. The receiver compares that digest, and the size that was announced ahead,
with what came in, where they are there at all. -/

namespace EchoStream.Extensions.File
open Foundation
open Proto.Messages Proto.Metadata
open Core.Handler Core.Stream

namespace Key

def filename : String := "filename"
def size : String := "size"
def mime : String := "mime"
def checksum : String := "checksum"
def frames : String := "frames"
def bytes : String := "bytes"

end Key

def defaultChunkSize : Nat := 64 * 1024

structure FileSummary where
  filename : String
  size : UInt64
  frames : UInt64
  checksum : String
deriving DecidableEq

def hex (bytes : Bytes) : String :=
  String.ofList (bytes.flatMap (fun b => [Nat.digitChar (b.toNat / 16), Nat.digitChar (b.toNat % 16)]))

/-- What the receiver, or the sender, has counted and hashed so far. -/
structure Progress where
  hasher : Bytes
  bytes : UInt64
  frames : UInt64
deriving DecidableEq

namespace Progress

def none : Progress := ⟨[], 0, 0⟩

def add (progress : Progress) (data : Bytes) : Progress :=
  ⟨progress.hasher ++ data, progress.bytes + UInt64.ofNat data.length, progress.frames + 1⟩

theorem foldl_add (parts : List Bytes) (progress : Progress) :
    parts.foldl add progress = ⟨progress.hasher ++ parts.flatten, progress.bytes + UInt64.ofNat parts.flatten.length,
      progress.frames + UInt64.ofNat parts.length⟩ := by
  induction parts generalizing progress with
  | nil => simp
  | cons part rest ih =>
    rw [List.foldl_cons, ih, add]
    simp only [List.flatten_cons, List.append_assoc, List.length_append, List.length_cons, UInt64.ofNat_add,
      UInt64.add_assoc, UInt64.add_comm 1]
    rfl

end Progress

section Receiving

variable {ω : Type}

/-- How often a receiver may still give back a frame. -/
def left (stream : Receiver) : Nat := stream.io.length + if stream.pending.isSome then 1 else 0

theorem take_pending (r : Receiver) (result : Result (Option Message)) : (r.take result).2.pending = r.pending := by
  unfold Receiver.take
  split <;> try rfl
  all_goals split <;> rfl

theorem recvLoop_left {got : Result (Option StreamMsg)} {r next : Receiver} {io : FrameIo} (some : io ≠ [])
    (came : r.recvLoop io = (got, next)) : next.io.length < io.length ∧ next.pending = r.pending := by
  induction io generalizing r with
  | nil => exact absurd rfl some
  | cons result rest ih =>
    have kept := take_pending r result
    rw [Receiver.recvLoop] at came
    generalize r.take result = took at came kept
    obtain ⟨returned, r'⟩ := took
    cases returned with
    | some value =>
      cases came
      exact ⟨Nat.lt_succ_self _, kept⟩
    | none =>
      cases rest with
      | nil =>
        cases came
        exact ⟨Nat.zero_lt_one, kept⟩
      | cons =>
        obtain ⟨less, same⟩ := ih (List.cons_ne_nil _ _) came
        exact ⟨Nat.lt_succ_of_lt less, same.trans kept⟩

theorem recvFrame_left {stream next : Receiver} {frame : StreamMsg} (came : stream.recvFrame = (.ok (some frame), next)) :
    left next < left stream := by
  rw [Receiver.recvFrame] at came
  split at came
  · cases came
  · split at came
    · rename_i first pending
      cases came
      rw [left, left, pending]
      exact Nat.lt_succ_self _
    · rename_i pending
      have some : stream.io ≠ [] := by
        intro nothing
        rw [nothing] at came
        cases came
      obtain ⟨less, same⟩ := recvLoop_left some came
      rw [left, left, same]
      omega

/-- Frame after frame is hashed, counted and written until the stream ends. -/
def recvLoop (writeAll : Bytes → ω → Except String Unit × ω) (stream : Receiver) (progress : Progress) (world : ω) :
    Result Progress × Receiver × ω :=
  match _came : stream.recvFrame with
  | (.error e, stream) => (.error e, stream, world)
  | (.ok none, stream) => (.ok progress, stream, world)
  | (.ok (some frame), next) =>
      match writeAll frame.data world with
      | (.error text, world) => (.error (.io text), next, world)
      | (.ok _, world) => recvLoop writeAll next (progress.add frame.data) world
termination_by left stream
decreasing_by exact recvFrame_left _came

def writeParts (writeAll : Bytes → ω → Except String Unit × ω) : List Bytes → ω → Except String Unit × ω
  | [], world => (.ok (), world)
  | part :: rest, world =>
      match writeAll part world with
      | (.error text, world) => (.error text, world)
      | (.ok _, world) => writeParts writeAll rest world

/-- The stream gives back these frames and then ends. -/
def Gives (stream : Receiver) (frames : List StreamMsg) (ended : Receiver) : Prop :=
  stream.recvFrames (frames.length + 1) = (frames.map (fun frame => .ok (some frame)) ++ [.ok none], ended)

theorem gives_nil {stream ended : Receiver} : Gives stream [] ended ↔ stream.recvFrame = (.ok none, ended) := by
  rw [Gives, List.length_nil, Receiver.recvFrames]
  generalize stream.recvFrame = came
  obtain ⟨got, next⟩ := came
  simp [Receiver.recvFrames]

theorem gives_cons {stream ended : Receiver} {frame : StreamMsg} {rest : List StreamMsg} :
    Gives stream (frame :: rest) ended ↔ ∃ next, stream.recvFrame = (.ok (some frame), next) ∧ Gives next rest ended := by
  rw [Gives, List.length_cons, Receiver.recvFrames]
  generalize stream.recvFrame = came
  obtain ⟨got, next⟩ := came
  simp [Gives, Prod.ext_iff, and_assoc]

theorem not_gives_of_error {stream next ended : Receiver} {e : Error} {frames : List StreamMsg}
    (failed : stream.recvFrame = (.error e, next)) : ¬ Gives stream frames ended := by
  cases frames with
  | nil =>
    rw [gives_nil, failed]
    exact nofun
  | cons frame rest =>
    rw [gives_cons, failed]
    rintro ⟨other, same, -⟩
    cases same

theorem gives_of_over {stream next ended : Receiver} {frames : List StreamMsg}
    (past : stream.recvFrame = (.ok none, next)) : Gives stream frames ended ↔ frames = [] ∧ next = ended := by
  cases frames with
  | nil =>
    rw [gives_nil, past]
    exact ⟨fun same => ⟨rfl, (Prod.ext_iff.1 same).2⟩, fun both => Prod.ext rfl both.2⟩
  | cons frame rest =>
    rw [gives_cons, past]
    constructor
    · rintro ⟨other, same, -⟩
      cases same
    · rintro ⟨same, -⟩
      cases same

theorem gives_of_frame {stream next ended : Receiver} {frame : StreamMsg} {frames : List StreamMsg}
    (got : stream.recvFrame = (.ok (some frame), next)) :
    Gives stream frames ended ↔ ∃ rest, frames = frame :: rest ∧ Gives next rest ended := by
  cases frames with
  | nil =>
    rw [gives_nil, got]
    constructor
    · intro same
      cases same
    · rintro ⟨rest, same, -⟩
      cases same
  | cons first rest =>
    rw [gives_cons, got]
    constructor
    · rintro ⟨other, same, gives⟩
      cases same
      exact ⟨rest, rfl, gives⟩
    · rintro ⟨rest, same, gives⟩
      cases same
      exact ⟨next, rfl, gives⟩

/-- The loop ends well just when the stream does and everything is written. -/
theorem recvLoop_ok {writeAll : Bytes → ω → Except String Unit × ω} {stream ended : Receiver} {progress total : Progress}
    {world after : ω} : recvLoop writeAll stream progress world = (.ok total, ended, after) ↔
      ∃ frames, Gives stream frames ended ∧ writeParts writeAll (frames.map (·.data)) world = (.ok (), after) ∧
        total = (frames.map (·.data)).foldl Progress.add progress := by
  fun_induction recvLoop writeAll stream progress world with
  | case1 stream progress world e next failed =>
    constructor
    · intro same
      cases same
    · rintro ⟨frames, gives, -⟩
      exact absurd gives (not_gives_of_error failed)
  | case2 stream progress world next past =>
    simp only [gives_of_over past]
    constructor
    · intro same
      cases same
      exact ⟨[], ⟨rfl, rfl⟩, rfl, rfl⟩
    · rintro ⟨frames, ⟨rfl, rfl⟩, wrote, rfl⟩
      cases wrote
      rfl
  | case3 stream progress world frame next got text later failed =>
    simp only [gives_of_frame got]
    constructor
    · intro same
      cases same
    · rintro ⟨frames, ⟨rest, rfl, -⟩, wrote, -⟩
      rw [List.map_cons, writeParts, failed] at wrote
      cases wrote
  | case4 stream progress world frame next got value later wrote ih =>
    rw [ih]
    simp only [gives_of_frame got]
    constructor
    · rintro ⟨rest, gives, written, same⟩
      refine ⟨frame :: rest, ⟨rest, rfl, gives⟩, ?_, same⟩
      rw [List.map_cons, writeParts, wrote]
      exact written
    · rintro ⟨frames, ⟨rest, rfl, gives⟩, written, same⟩
      rw [List.map_cons, writeParts, wrote] at written
      exact ⟨rest, gives, written, same⟩

def verify (metadata endMetadata : List StreamMetaEntry) (digest : Bytes → Bytes) (progress : Progress) :
    Result FileSummary :=
  let filename := (get metadata Key.filename).getD ""
  let expectedSize := ((get metadata Key.size).bind parseU64).getD progress.bytes
  let expectedChecksum := get endMetadata Key.checksum
  let checksum := hex (digest progress.hasher)
  if progress.bytes ≠ expectedSize then
    .error (.protocol ("文件大小不符: 期望 " ++ toString expectedSize ++ "，实际 " ++ toString progress.bytes))
  else
    match expectedChecksum with
    | some expected =>
        if checksum ≠ expected then
          .error (.protocol ("文件校验和不符: 期望 " ++ expected ++ "，实际 " ++ checksum))
        else .ok ⟨filename, progress.bytes, progress.frames, checksum⟩
    | none => .ok ⟨filename, progress.bytes, progress.frames, checksum⟩

/-- What is missing is not compared. -/
theorem verify_ok {metadata endMetadata : List StreamMetaEntry} {digest : Bytes → Bytes} {progress : Progress}
    {summary : FileSummary} : verify metadata endMetadata digest progress = .ok summary ↔
      (∀ size, (get metadata Key.size).bind parseU64 = some size → progress.bytes = size) ∧
        (∀ expected, get endMetadata Key.checksum = some expected → hex (digest progress.hasher) = expected) ∧
        ⟨(get metadata Key.filename).getD "", progress.bytes, progress.frames, hex (digest progress.hasher)⟩ = summary := by
  have sizes : progress.bytes = ((get metadata Key.size).bind parseU64).getD progress.bytes ↔
      ∀ size, (get metadata Key.size).bind parseU64 = some size → progress.bytes = size := by
    cases (get metadata Key.size).bind parseU64 with
    | none => exact ⟨fun _ _ => nofun, fun _ => rfl⟩
    | some size => exact ⟨fun same other there => by cases there; exact same, fun all => all size rfl⟩
  rw [verify, ← sizes]
  by_cases same : progress.bytes = ((get metadata Key.size).bind parseU64).getD progress.bytes
  · rw [if_neg (not_not_intro same)]
    cases get endMetadata Key.checksum with
    | none => exact ⟨fun made => ⟨same, fun _ => nofun, Except.ok.inj made⟩, fun all => congrArg _ all.2.2⟩
    | some expected =>
      by_cases agrees : hex (digest progress.hasher) = expected
      · simp only [if_neg (not_not_intro agrees)]
        exact ⟨fun made => ⟨same, fun _ there => by cases there; exact agrees, Except.ok.inj made⟩,
          fun all => congrArg _ all.2.2⟩
      · simp only [if_pos agrees]
        exact ⟨nofun, fun all => absurd (all.2.1 expected rfl) agrees⟩
  · rw [if_pos same]
    exact ⟨nofun, fun all => absurd all.1 same⟩

def recvInto (digest : Bytes → Bytes) (writeAll : Bytes → ω → Except String Unit × ω) (stream : Receiver) (world : ω) :
    Result FileSummary × ω :=
  match recvLoop writeAll stream .none world with
  | (.error e, _, world) => (.error e, world)
  | (.ok progress, ended, world) => (verify stream.metadata ended.endMetadata digest progress, world)

def recvToMemory (digest : Bytes → Bytes) (stream : Receiver) : Result (Bytes × FileSummary) :=
  match recvInto digest (fun data buf => (.ok (), buf ++ data)) stream [] with
  | (.error e, _) => .error e
  | (.ok summary, buf) => .ok (buf, summary)

@[simp] theorem writeParts_memory (parts : List Bytes) (buf : Bytes) :
    writeParts (fun data buf => (.ok (), buf ++ data)) parts buf = (.ok (), buf ++ parts.flatten) := by
  induction parts generalizing buf with
  | nil => rw [writeParts, List.flatten_nil, List.append_nil]
  | cons part rest ih =>
    simp only [writeParts, ih]
    rw [List.flatten_cons, List.append_assoc]

def lastPart (text : String) : String := String.ofList (text.toList.reverse.takeWhile (· ≠ '/')).reverse

/-- The destination is made, or emptied, first. -/
def recvFile (digest : Bytes → Bytes) (create : ω → Except String Unit × ω)
    (writeAll : Bytes → ω → Except String Unit × ω) (stream : Receiver) (world : ω) : Result FileSummary × ω :=
  match create world with
  | (.error text, world) => (.error (.io text), world)
  | (.ok _, world) =>
      match recvInto digest writeAll stream world with
      | (.error e, world) => (.error e, world)
      | (.ok summary, world) => (.ok { summary with filename := lastPart summary.filename }, world)

def dataOf (frames : List StreamMsg) : Bytes := (frames.map (·.data)).flatten

/-- The stream is read up to its end, the size is the one that is announced, if one is,
and the digest the one that the end tells, if it does. -/
structure Verified (digest : Bytes → Bytes) (stream ended : Receiver) (frames : List StreamMsg) : Prop where
  whole : Gives stream frames ended
  size : ∀ size, (get stream.metadata Key.size).bind parseU64 = some size → UInt64.ofNat (dataOf frames).length = size
  checksum : ∀ expected, get ended.endMetadata Key.checksum = some expected → hex (digest (dataOf frames)) = expected

def summaryOf (digest : Bytes → Bytes) (stream : Receiver) (frames : List StreamMsg) : FileSummary where
  filename := (get stream.metadata Key.filename).getD ""
  size := UInt64.ofNat (dataOf frames).length
  frames := UInt64.ofNat frames.length
  checksum := hex (digest (dataOf frames))

theorem progress_frames (frames : List StreamMsg) : (frames.map (·.data)).foldl Progress.add .none =
    ⟨dataOf frames, UInt64.ofNat (dataOf frames).length, UInt64.ofNat frames.length⟩ := by
  rw [Progress.foldl_add, List.length_map]
  simp only [Progress.none, List.nil_append, UInt64.zero_add]
  rfl

theorem recvInto_ok {digest : Bytes → Bytes} {writeAll : Bytes → ω → Except String Unit × ω} {stream : Receiver}
    {world after : ω} {summary : FileSummary} :
    recvInto digest writeAll stream world = (.ok summary, after) ↔ ∃ frames ended, Verified digest stream ended frames ∧
      writeParts writeAll (frames.map (·.data)) world = (.ok (), after) ∧ summary = summaryOf digest stream frames := by
  constructor
  · intro came
    rw [recvInto] at came
    split at came
    · cases came
    · rename_i progress ended world looped
      obtain ⟨verified, same⟩ := Prod.ext_iff.1 came
      cases same
      obtain ⟨frames, gives, wrote, rfl⟩ := recvLoop_ok.1 looped
      rw [progress_frames] at verified
      obtain ⟨size, checksum, made⟩ := verify_ok.1 verified
      exact ⟨frames, ended, ⟨gives, size, checksum⟩, wrote, made.symm⟩
  · rintro ⟨frames, ended, verified, wrote, rfl⟩
    have looped := recvLoop_ok.2 ⟨frames, verified.whole, wrote, (progress_frames frames).symm⟩
    rw [recvInto, looped]
    exact Prod.ext (verify_ok.2 ⟨verified.size, verified.checksum, rfl⟩) rfl

theorem recvToMemory_ok {digest : Bytes → Bytes} {stream : Receiver} {buf : Bytes} {summary : FileSummary} :
    recvToMemory digest stream = .ok (buf, summary) ↔ ∃ frames ended, Verified digest stream ended frames ∧
      buf = dataOf frames ∧ summary = summaryOf digest stream frames := by
  have into : ∀ after, recvInto digest (fun data buf => (.ok (), buf ++ data)) stream [] = (.ok summary, after) ↔
      ∃ frames ended, Verified digest stream ended frames ∧ after = dataOf frames ∧
        summary = summaryOf digest stream frames := by
    intro after
    simp only [recvInto_ok, writeParts_memory, List.nil_append, Prod.mk.injEq, true_and]
    simp only [dataOf, eq_comm (a := after)]
  rw [recvToMemory, ← into buf]
  split
  · rename_i failed
    rw [failed]
    exact ⟨nofun, nofun⟩
  · rename_i came
    rw [came]
    exact ⟨fun same => by cases same; rfl, fun same => by cases same; rfl⟩

/-- Both receivers accept just what was read to its end and is as it was announced to be. -/
theorem accepted_iff (digest : Bytes → Bytes) (stream : Receiver) :
    (∀ buf summary, recvToMemory digest stream = .ok (buf, summary) ↔ ∃ frames ended, Verified digest stream ended frames ∧
      buf = dataOf frames ∧ summary = summaryOf digest stream frames) ∧
    (∀ (create : ω → Except String Unit × ω) (writeAll : Bytes → ω → Except String Unit × ω) (world after : ω) (summary),
      recvFile digest create writeAll stream world = (.ok summary, after) ↔ ∃ frames ended made,
        Verified digest stream ended frames ∧ create world = (.ok (), made) ∧
        writeParts writeAll (frames.map (·.data)) made = (.ok (), after) ∧
        summary = { summaryOf digest stream frames with filename := lastPart (summaryOf digest stream frames).filename }) := by
  refine ⟨fun _ _ => recvToMemory_ok, ?_⟩
  intro create writeAll world after summary
  constructor
  · intro came
    rw [recvFile] at came
    split at came
    · cases came
    · rename_i made created
      split at came
      · cases came
      · rename_i into
        cases came
        obtain ⟨frames, ended, verified, wrote, rfl⟩ := recvInto_ok.1 into
        exact ⟨frames, ended, made, verified, created, wrote, rfl⟩
  · rintro ⟨frames, ended, made, verified, created, wrote, rfl⟩
    have into := recvInto_ok.2 ⟨frames, ended, verified, wrote, rfl⟩
    simp only [recvFile, created, into]

/-- The digests of nothing and of the byte 1. -/
def smallDigest (data : Bytes) : Bytes :=
  if data = [] then
    [0xe3, 0xb0, 0xc4, 0x42, 0x98, 0xfc, 0x1c, 0x14, 0x9a, 0xfb, 0xf4, 0xc8, 0x99, 0x6f, 0xb9, 0x24,
     0x27, 0xae, 0x41, 0xe4, 0x64, 0x9b, 0x93, 0x4c, 0xa4, 0x95, 0x99, 0x1b, 0x78, 0x52, 0xb8, 0x55]
  else
    [0x4b, 0xf5, 0x12, 0x2f, 0x34, 0x45, 0x54, 0xc5, 0x3b, 0xde, 0x2e, 0xbb, 0x8c, 0xd2, 0xb7, 0xe3,
     0xd1, 0x60, 0x0a, 0xd6, 0x31, 0xc3, 0x85, 0xa5, 0xd7, 0xcc, 0xe2, 0x3c, 0x77, 0x85, 0x45, 0x9a]

/-- A single frame with nothing announced is a file, if nothing comes after it, and if an end
comes that tells of an error. -/
theorem cut_accepted :
    recvToMemory smallDigest (.new ⟨[], ⟨7, 0, ⟨0⟩, [1]⟩, [], "file"⟩) =
        .ok ([1], ⟨"", 1, 1, "4bf5122f344554c53bde2ebb8cd2b7e3d1600ad631c385a5d7cce23c7785459a"⟩) ∧
      recvToMemory smallDigest (.new ⟨[.ok (some (.streamEnd ⟨7, 500, none, []⟩))], ⟨7, 0, ⟨0⟩, [1]⟩, [], "file"⟩) =
        .ok ([1], ⟨"", 1, 1, "4bf5122f344554c53bde2ebb8cd2b7e3d1600ad631c385a5d7cce23c7785459a"⟩) := by
  have told : (⟨"", 1, 1, "4bf5122f344554c53bde2ebb8cd2b7e3d1600ad631c385a5d7cce23c7785459a"⟩ : FileSummary) =
      summaryOf smallDigest (.new ⟨[], ⟨7, 0, ⟨0⟩, [1]⟩, [], "file"⟩) [⟨7, 0, ⟨0⟩, [1]⟩] := by decide
  have accepted : ∀ recv ended, Gives (.new ⟨recv, ⟨7, 0, ⟨0⟩, [1]⟩, [], "file"⟩) [⟨7, 0, ⟨0⟩, [1]⟩] ended →
      get ended.endMetadata Key.checksum = none →
      recvToMemory smallDigest (.new ⟨recv, ⟨7, 0, ⟨0⟩, [1]⟩, [], "file"⟩) =
        .ok ([1], ⟨"", 1, 1, "4bf5122f344554c53bde2ebb8cd2b7e3d1600ad631c385a5d7cce23c7785459a"⟩) := by
    intro recv ended whole silent
    refine recvToMemory_ok.2 ⟨[⟨7, 0, ⟨0⟩, [1]⟩], ended, ⟨whole, ?_, ?_⟩, rfl, told⟩
    · intro size there
      cases there
    · intro expected there
      rw [silent] at there
      cases there
  exact ⟨accepted _ _ rfl rfl, accepted _ _ rfl rfl⟩

end Receiving

end EchoStream.Extensions.File
