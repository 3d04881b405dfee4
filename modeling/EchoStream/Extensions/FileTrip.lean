import EchoStream.Core.StreamTrip
import EchoStream.Extensions.File

/-! A file from its sender to a handler of the peer. The parts the sender reads and the
frames the receiver gets meet in the payloads of the stream. A file with nothing in it
has none, so its stream is not even opened. -/

namespace EchoStream.Extensions.FileTrip
open Foundation Foundation.Tasks
open Proto.Messages Proto.Metadata
open Core.Handler Core.Chain Core.Dispatch Core.Connection Core.Stream Core.StreamTrip
open File

/-- A file that is being read: what is left of it, how many reads there were, and how
many bytes each of them has at hand, or how it fails. -/
structure OpenFile where
  remaining : Bytes
  reads : Nat
  offers : Nat → Except String Nat

namespace OpenFile

/-- At the end nothing, otherwise at least one byte and as many as are at hand, fit and are left. -/
def read (file : OpenFile) (size : Nat) : Except String Bytes × OpenFile :=
  match file.offers file.reads with
  | .error text => (.error text, { file with reads := file.reads + 1 })
  | .ok offered =>
      let n := min (max 1 offered) (min size file.remaining.length)
      (.ok (file.remaining.take n), { file with remaining := file.remaining.drop n, reads := file.reads + 1 })

theorem read_ok {file next : OpenFile} {size : Nat} {buf : Bytes} (came : file.read size = (.ok buf, next)) :
    file.remaining = buf ++ next.remaining ∧ (0 < size → buf = [] → file.remaining = []) := by
  rw [read] at came
  split at came
  · cases came
  · cases came
    refine ⟨(List.take_append_drop _ _).symm, fun positive nothing => ?_⟩
    have none := congrArg List.length nothing
    rw [List.length_take, List.length_nil] at none
    exact List.length_eq_zero_iff.1 (by omega)

end OpenFile

structure FileSender where
  stream : StreamSender
  file : Option OpenFile
  chunkSize : Nat
  positive : 0 < chunkSize
  progress : Progress

def metaOf (filename : String) (mime : Option String) (size : UInt64) : List StreamMetaEntry :=
  [str Key.filename filename, num Key.size size] ++
    match mime with
    | some mime => [str Key.mime mime]
    | none => []

def FileSender.open (stream : StreamSender) (file : OpenFile) : FileSender where
  stream
  file := some file
  chunkSize := defaultChunkSize
  positive := by decide
  progress := .none

namespace FileSender

def withChunkSize (s : FileSender) (size : Nat) : FileSender :=
  { s with chunkSize := max size 1, positive := Nat.lt_of_lt_of_le Nat.zero_lt_one (Nat.le_max_right ..) }

variable (clock : Nat → Timestamp)

def sendNext (s : FileSender) : Result Bool × FileSender :=
  match s.file with
  | none => (.ok false, s)
  | some file =>
      match file.read s.chunkSize with
      | (.error text, file) => (.error (.io text), { s with file := some file })
      | (.ok buf, file') =>
          if buf = [] then (.ok false, { s with file := none })
          else
            let s := { s with file := some file', progress := s.progress.add buf }
            match s.stream.sendRaw (clock file.reads) buf with
            | (.error e, stream) => (.error e, { s with stream })
            | (.ok _, stream) => (.ok true, { s with stream })

def rest (s : FileSender) : Bytes :=
  match s.file with
  | none => []
  | some file => file.remaining

variable {clock}

theorem sendNext_true {s next : FileSender} (came : s.sendNext clock = (.ok true, next)) :
    ∃ now part, part ≠ [] ∧ s.rest = part ++ next.rest ∧ s.stream.sendRaw now part = (.ok (), next.stream) ∧
      next.progress = s.progress.add part := by
  rw [sendNext] at came
  split at came
  · cases came
  · rename_i file there
    split at came
    · cases came
    · rename_i buf later read
      obtain ⟨parts, -⟩ := OpenFile.read_ok read
      split at came
      · cases came
      · rename_i some
        dsimp only at came
        split at came
        · cases came
        · rename_i sent
          cases came
          refine ⟨clock file.reads, buf, some, ?_, sent, rfl⟩
          rw [rest, there]
          exact parts

theorem sendNext_false {s next : FileSender} (came : s.sendNext clock = (.ok false, next)) :
    s.rest = [] ∧ next.stream = s.stream ∧ next.progress = s.progress := by
  rw [sendNext] at came
  split at came
  · rename_i none
    cases came
    exact ⟨by rw [rest, none], rfl, rfl⟩
  · rename_i file there
    split at came
    · cases came
    · rename_i buf later read
      obtain ⟨-, past⟩ := OpenFile.read_ok read
      split at came
      · rename_i nothing
        cases came
        refine ⟨?_, rfl, rfl⟩
        rw [rest, there]
        exact past s.positive nothing
      · dsimp only at came
        split at came
        · cases came
        · cases came

theorem sendNext_shrinks {s next : FileSender} (came : s.sendNext clock = (.ok true, next)) :
    next.rest.length < s.rest.length := by
  obtain ⟨now, part, some, parts, -, -⟩ := sendNext_true came
  rw [parts, List.length_append]
  exact Nat.lt_add_of_pos_left (List.length_pos_of_ne_nil some)

variable (clock)

def sendLoop (s : FileSender) : Result Unit × FileSender :=
  match _came : s.sendNext clock with
  | (.error e, s) => (.error e, s)
  | (.ok false, s) => (.ok (), s)
  | (.ok true, next) => sendLoop next
termination_by s.rest.length
decreasing_by exact sendNext_shrinks _came

def sendAll (digest : Bytes → Bytes) (s : FileSender) : Result FileSummary × StreamSender :=
  match s.sendLoop clock with
  | (.error e, s) => (.error e, s.stream)
  | (.ok _, s) =>
      let checksum := hex (digest s.progress.hasher)
      let summary : FileSummary := ⟨s.stream.name, s.progress.bytes, s.progress.frames, checksum⟩
      match s.stream.finishWith 0 none
        [str Key.checksum checksum, num Key.frames s.progress.frames, num Key.bytes s.progress.bytes] with
      | (.error e, stream) => (.error e, stream)
      | (.ok _, stream) => (.ok summary, stream)

variable {clock}

theorem sendLoop_true {s next : FileSender} (more : s.sendNext clock = (.ok true, next)) :
    s.sendLoop clock = next.sendLoop clock := by
  rw [sendLoop]
  split
  all_goals
    rename_i came
    cases more.symm.trans came
  rfl

theorem sendLoop_false {s next : FileSender} (past : s.sendNext clock = (.ok false, next)) :
    s.sendLoop clock = (.ok (), next) := by
  rw [sendLoop]
  split
  all_goals
    rename_i came
    cases past.symm.trans came
  rfl

theorem sendLoop_ok {s after : FileSender} (came : s.sendLoop clock = (.ok (), after)) :
    ∃ payloads : List (Timestamp × Bytes), (payloads.map Prod.snd).flatten = s.rest ∧ (∀ payload ∈ payloads, payload.2 ≠ []) ∧
      StreamSender.sendAll payloads s.stream = (.ok (), after.stream) ∧
      after.progress = (payloads.map Prod.snd).foldl Progress.add s.progress := by
  fun_induction sendLoop clock s with
  | case1 => cases came
  | case2 s next past =>
    cases came
    obtain ⟨nothing, stream, progress⟩ := sendNext_false past
    refine ⟨[], nothing.symm, nofun, ?_, progress⟩
    rw [stream]
    rfl
  | case3 s next more ih =>
    obtain ⟨now, part, some, parts, sent, progress⟩ := sendNext_true more
    obtain ⟨payloads, whole, full, all, total⟩ := ih came
    refine ⟨(now, part) :: payloads, ?_, ?_, ?_, ?_⟩
    · rw [List.map_cons, List.flatten_cons, whole, parts]
    · intro payload member
      rcases List.mem_cons.1 member with rfl | member
      · exact some
      · exact full payload member
    · rw [StreamSender.sendAll, sent]
      exact all
    · rw [total, progress]
      rfl

theorem sendAll_ok {digest : Bytes → Bytes} {s : FileSender} {summary : FileSummary} (fresh : s.progress = .none)
    (came : (s.sendAll clock digest).1 = .ok summary) :
    ∃ payloads : List (Timestamp × Bytes), (payloads.map Prod.snd).flatten = s.rest ∧ (payloads = [] ↔ s.rest = []) ∧
      (StreamSender.sendAll payloads s.stream).1 = .ok () ∧
      summary.size = UInt64.ofNat s.rest.length ∧ summary.frames = UInt64.ofNat payloads.length ∧
      summary.checksum = hex (digest s.rest) ∧
      ((StreamSender.sendAll payloads s.stream).2.finishWith 0 none [str Key.checksum summary.checksum,
        num Key.frames summary.frames, num Key.bytes summary.size]) = (.ok (), (s.sendAll clock digest).2) := by
  rw [sendAll] at came ⊢
  generalize looped : s.sendLoop clock = out at came ⊢
  obtain ⟨result, after⟩ := out
  cases result with
  | error e => cases came
  | ok value =>
    obtain ⟨payloads, whole, full, sent, total⟩ := sendLoop_ok looped
    have counted : after.progress = ⟨s.rest, UInt64.ofNat s.rest.length, UInt64.ofNat payloads.length⟩ := by
      rw [total, fresh, Progress.foldl_add, whole, List.length_map]
      simp only [Progress.none, List.nil_append, UInt64.zero_add]
    have nothing : payloads = [] ↔ s.rest = [] := by
      rw [← whole]
      constructor
      · rintro rfl
        rfl
      · intro empty
        cases payloads with
        | nil => rfl
        | cons payload rest =>
          have none := (List.append_eq_nil_iff.1 empty).1
          exact absurd none (full payload (List.mem_cons_self ..))
    simp only [counted] at came ⊢
    generalize finished : after.stream.finishWith 0 none [str Key.checksum (hex (digest s.rest)),
      num Key.frames (UInt64.ofNat payloads.length), num Key.bytes (UInt64.ofNat s.rest.length)] = ended at came ⊢
    obtain ⟨result, stream⟩ := ended
    cases result with
    | error e => cases came
    | ok value =>
      cases came
      exact ⟨payloads, whole, nothing, by rw [sent], rfl, rfl, rfl, by rw [sent]; exact finished⟩

end FileSender

theorem size_announced (filename : String) (mime : Option String) (size : UInt64) :
    (get (metaOf filename mime size) Key.size).bind parseU64 = some size := by
  have found : get (metaOf filename mime size) Key.size = some (Decimal.write size.toNat) := by
    unfold metaOf
    rw [get_append, get_str, if_neg (by decide), get_num, if_pos rfl]
    rfl
  rw [found, Option.bind_some, parseU64_write]

/-- The receiver accepts the frames of the parts of a file, and has what the sender had. -/
theorem received_whole (digest : Bytes → Bytes) {id : UInt64} {payloads : List (Timestamp × Bytes)} {content : Bytes}
    (whole : (payloads.map Prod.snd).flatten = content) {first : StreamMsg} {frames : List StreamMsg}
    (all : numbered id payloads = first :: frames) (name filename : String) (mime : Option String)
    (rest : List StreamMetaEntry) :
    recvToMemory digest (.new ⟨frames.map arrived ++
        [.ok (some (.streamEnd ⟨id, 0, none, str Key.checksum (hex (digest content)) :: rest⟩))], first,
        metaOf filename mime (UInt64.ofNat content.length), name⟩) =
      .ok (content, ⟨filename, UInt64.ofNat content.length, UInt64.ofNat payloads.length, hex (digest content)⟩) := by
  have data : dataOf (numbered id payloads) = content := by rw [dataOf, numbered_data, whole]
  have count : (numbered id payloads).length = payloads.length := numbered_length id payloads
  have own : ∀ frame ∈ first :: frames, frame.id = id := fun frame member => numbered_own (all ▸ member)
  have firstOwn := own first (List.mem_cons_self ..)
  rw [all] at data count
  let ending : StreamEndMsg := ⟨id, 0, none, str Key.checksum (hex (digest content)) :: rest⟩
  have gives : Gives _ (first :: frames) _ := recvFrames_all first frames
    (fun frame member => (own frame (List.mem_cons_of_mem _ member)).trans firstOwn.symm) ending firstOwn.symm
    (metaOf filename mime (UInt64.ofNat content.length)) name 0
  have named : (get (metaOf filename mime (UInt64.ofNat content.length)) Key.filename).getD "" = filename := by
    unfold metaOf
    rw [get_append, get_str, if_pos rfl]
    rfl
  refine recvToMemory_ok.2 ⟨first :: frames, _, ⟨gives, ?_, ?_⟩, data.symm, ?_⟩
  · intro size there
    have same : some (UInt64.ofNat content.length) = some size := (size_announced filename mime _).symm.trans there
    rw [data]
    exact Option.some.inj same
  · intro expected there
    change get (str Key.checksum (hex (digest content)) :: rest) Key.checksum = some expected at there
    rw [get_str, if_pos rfl] at there
    rw [data]
    exact Option.some.inj there
  · rw [summaryOf, data, count]
    exact congrArg (FileSummary.mk · _ _ _) named.symm

variable {ω : Type}

/-- A stream that begins with its end is nobody's. -/
theorem serve_ended (front : Front) (dir : Direction) (clock : Clock ω) (router : Router ω) (session : SessionId)
    (stream : Nat) (e : StreamEndMsg) (world : World ω) :
    ((serve front dir clock router session stream [.ok (some (.streamEnd e))]).eval world).2 = world := by
  cases dir <;> rfl

/-- A file that is sent is what the handler of its stream receives, with what the sender
tells of it, just when there is something in it. -/
theorem file_arrives_iff (front : Front) (dir : Direction) (clock : Clock ω) (router : Router ω) (session : SessionId)
    (stream : Nat) (world : World ω) (name : String) {entry : Token × StreamHandler ω} (plain : router.middlewares = [])
    (registered : router.stream.lookup name = some entry) (digest : Bytes → Bytes)
    (keep : SessionId → Result (Bytes × FileSummary) → Task (App ω) (Result Unit))
    (receives : entry.2.handle = fun session given => keep session (recvToMemory digest (.new given)))
    (io : SendIo) (fresh : io.written = []) (id : UInt64) (filename : String) (mime : Option String) (content : Bytes)
    (offers : Nat → Except String Nat) (size : Nat) (times : Nat → Timestamp) (summary : FileSummary) :
    let metadata := metaOf filename mime (UInt64.ofNat content.length)
    let sent := ((FileSender.open (.new io id name metadata) ⟨content, 0, offers⟩).withChunkSize size).sendAll times digest
    let served := ((serve front dir clock router session stream
      (sent.2.io.written.map (fun msg => .ok (some msg)))).eval world).2
    sent.1 = .ok summary →
      ((∃ data got, got.size = summary.size ∧ got.frames = summary.frames ∧ got.checksum = summary.checksum ∧
        served.trace = world.trace ++ [.reached session (.streamOpen ⟨id, name, metadata⟩),
          .ran .stream session entry.1 name data] ∧
        served.app = ((keep session (.ok (content, got))).eval world.app).2) ↔ content ≠ []) := by
  intro metadata sent served sends
  obtain ⟨payloads, whole, nothing, all, size, frames, checksum, finished⟩ := FileSender.sendAll_ok rfl sends
  change _ = content at whole
  change _ ↔ content = [] at nothing
  change _ = UInt64.ofNat content.length at size
  change _ = hex (digest content) at checksum
  let trailers : List StreamMetaEntry :=
    [str Key.checksum summary.checksum, num Key.frames summary.frames, num Key.bytes summary.size]
  change (StreamSender.sendAll payloads (.new io id name metadata)).1 = .ok () at all
  change (StreamSender.sendAll payloads (.new io id name metadata)).2.finishWith 0 none trailers = (.ok (), sent.2) at finished
  have ended := congrArg Prod.fst finished
  have written := congrArg (fun out => out.2.io.written) finished
  constructor
  · rintro ⟨data, got, -, -, -, trace, -⟩ empty
    -- only the end is written, and that runs nothing
    have wrote := StreamSender.finishWith_ok ended
    rw [nothing.2 empty] at wrote written
    have only : sent.2.io.written = [.streamEnd ⟨id, 0, none, trailers⟩] := by
      rw [← written]
      exact wrote.trans (by rw [StreamSender.sendAll, StreamSender.new, fresh]; rfl)
    have idle : served = world := by
      change ((serve front dir clock router session stream (sent.2.io.written.map _)).eval world).2 = world
      rw [only]
      exact serve_ended front dir clock router session stream _ world
    rw [idle] at trace
    have lengths := congrArg List.length trace
    rw [List.length_append] at lengths
    exact absurd lengths (by simp)
  · intro some
    have nonempty : payloads ≠ [] := fun empty => some (nothing.1 empty)
    obtain ⟨first, rest, parts, -, -, dispatched⟩ := serve_sent front dir clock session stream world plain registered
      io fresh id metadata trailers payloads nonempty 0 none all ended
    rw [written] at dispatched
    have received := received_whole digest whole parts name filename mime
      [num Key.frames summary.frames, num Key.bytes summary.size]
    rw [← checksum] at received
    refine ⟨first.data, ⟨filename, UInt64.ofNat content.length, UInt64.ofNat payloads.length, summary.checksum⟩, size.symm,
      frames.symm, rfl, congrArg World.trace dispatched, ?_⟩
    rw [← received]
    have handled := congrArg World.app dispatched
    rw [receives] at handled
    exact handled

private abbrev Kept := Option (Result (Bytes × FileSummary))

private def keepIt (_ : SessionId) (result : Result (Bytes × FileSummary)) : Task (App Kept) (Result Unit) := do
  .act (fun app => { app with rest := some result })
  pure (.ok ())

private def receiving : Router Kept :=
  (Router.new.addStream ⟨"file", fun session given => keepIt session (recvToMemory smallDigest (.new given))⟩).1

private def idle : World Kept := ⟨⟨fun _ _ => none, none⟩, [], [], []⟩

private def wire : SendIo := { failure := fun _ => none, calls := 0, written := [], finished := false }

private def sender (content : Bytes) : FileSender :=
  (FileSender.open (.new wire 7 "file" (metaOf "a.bin" none (UInt64.ofNat content.length)))
    ⟨content, 0, fun _ => .ok 1⟩).withChunkSize 4

private def summaryOne : FileSummary :=
  ⟨"file", 1, 1, "4bf5122f344554c53bde2ebb8cd2b7e3d1600ad631c385a5d7cce23c7785459a"⟩

private theorem sent_one : ((sender [1]).sendAll (fun _ => ⟨0⟩) smallDigest).1 = .ok summaryOne := by
  have loop : (sender [1]).sendLoop (fun _ => ⟨0⟩) = (.ok (), _) :=
    (FileSender.sendLoop_true rfl).trans (FileSender.sendLoop_false rfl)
  rw [FileSender.sendAll, loop]
  decide

private def served (content : Bytes) : World Kept :=
  ((serve .client .uni (fun _ _ => false) receiving 0 0 (((sender content).sendAll (fun _ => ⟨0⟩) smallDigest).2.io.written.map
    (fun msg => .ok (some msg)))).eval idle).2

theorem file_arrives_iff_one : ∃ got : FileSummary, got.size = 1 ∧ got.frames = 1 ∧ (served [1]).app.rest = some (.ok ([1], got)) := by
  obtain ⟨data, got, size, frames, -, -, app⟩ := (file_arrives_iff .client .uni (fun _ _ => false) receiving 0 0 idle "file"
    rfl rfl smallDigest keepIt rfl wire rfl 7 "a.bin" none [1] (fun _ => .ok 1) 4 (fun _ => ⟨0⟩) summaryOne sent_one).2 (by decide)
  exact ⟨got, size, frames, congrArg App.rest app⟩

/-- A file with nothing in it is sent, and the handler is not run. -/
theorem empty_not_received :
    (∃ summary, ((sender []).sendAll (fun _ => ⟨0⟩) smallDigest).1 = .ok summary ∧ summary.size = 0) ∧
      (served []).trace = [] ∧ (served []).app.rest = none := by
  have loop : (sender []).sendLoop (fun _ => ⟨0⟩) = (.ok (), _) := FileSender.sendLoop_false rfl
  rw [served, FileSender.sendAll, loop]
  exact ⟨⟨_, rfl, rfl⟩, rfl, rfl⟩

end EchoStream.Extensions.FileTrip
