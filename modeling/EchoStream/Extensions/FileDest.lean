import EchoStream.Extensions.File

/-! The destination of a file that is received. It is made, or emptied, before the first
frame comes, and each frame is handed over to be written there as it comes. What is refused
in the end, or cut off, is there in place of what was there before. -/

namespace EchoStream.Extensions.FileDest
open Proto.Messages Proto.Metadata
open Core.Handler Core.Stream
open File

variable {σ : Type}

/-- What `tokio::fs::File` documents of the destination. The bytes that a write takes are
written in the background, so `holds` is what the destination holds once nothing is left to be
written there. A write that fails after its call has returned has `failed`: the next call takes
nothing and tells, if there is one. Nobody waits for the last one. -/
structure Files (σ : Type) where
  create : σ → Except String Unit × σ
  writeAll : Bytes → σ → Except String Unit × σ
  holds : σ → Option Bytes
  failed : σ → Bool
  refuses : ∀ {s text t}, create s = (.error text, t) → holds t = holds s
  opens : ∀ {s t}, create s = (.ok (), t) → holds t = some [] ∧ failed t = false
  takes : ∀ {s data result t}, failed s = false → writeAll data s = (result, t) →
    ∃ part, part <+: data ∧ holds t = (holds s).map (· ++ part) ∧ (result = .ok () → failed t = false → part = data)
  tells : ∀ {s} data, failed s = true → ∃ text t, writeAll data s = (.error text, t) ∧ holds t = holds s

def Files.Reliable (files : Files σ) : Prop :=
  ∀ s data, files.failed s = false → (files.writeAll data s).1 = .ok () ∧ files.failed (files.writeAll data s).2 = false

def given (stream : Receiver) : List StreamMsg :=
  match _came : stream.recvFrame with
  | (.ok (some frame), next) => frame :: given next
  | (.ok none, _) => []
  | (.error _, _) => []
termination_by left stream
decreasing_by exact recvFrame_left _came

/-- What gets written of the frames: all of each, up to one of which only a part is. -/
inductive Landed : List StreamMsg → Bytes → Prop where
  | all : Landed [] []
  | stops {frame : StreamMsg} {rest : List StreamMsg} {part : Bytes} (front : part <+: frame.data) : Landed (frame :: rest) part
  | goes {frame : StreamMsg} {rest : List StreamMsg} {written : Bytes} (later : Landed rest written) :
      Landed (frame :: rest) (frame.data ++ written)

theorem given_frame {stream next : Receiver} {frame : StreamMsg} (came : stream.recvFrame = (.ok (some frame), next)) :
    given stream = frame :: given next := by
  rw [given]
  split
  all_goals
    rename_i same
    cases came.symm.trans same
  rfl

theorem given_past {stream : Receiver} (past : ∀ frame next, stream.recvFrame ≠ (.ok (some frame), next)) : given stream = [] := by
  rw [given]
  split
  · exact absurd ‹_› (past _ _)
  · rfl
  · rfl

section Writing

variable {files : Files σ} {s : σ} {content : Bytes}

/-- After a write that has failed nothing more is written. -/
theorem recvLoop_failed (failed : files.failed s = true) (stream : Receiver) (progress : Progress) :
    files.holds (recvLoop files.writeAll stream progress s).2.2 = files.holds s := by
  fun_cases recvLoop files.writeAll stream progress s with
  | case1 => rfl
  | case2 => rfl
  | case3 frame next got text t wrote =>
    obtain ⟨told, later, refused, same⟩ := files.tells frame.data failed
    rw [wrote] at refused
    cases refused
    exact same
  | case4 frame next got value t wrote =>
    obtain ⟨told, later, refused, same⟩ := files.tells frame.data failed
    rw [wrote] at refused
    cases refused

theorem recvLoop_holds (stream : Receiver) (progress : Progress) (fine : files.failed s = false)
    (there : files.holds s = some content) :
    ∃ written, files.holds (recvLoop files.writeAll stream progress s).2.2 = some (content ++ written) ∧
      Landed (given stream) written ∧ (files.Reliable → written = dataOf (given stream)) := by
  fun_induction recvLoop files.writeAll stream progress s generalizing content with
  | case1 stream progress s e next failed =>
    rw [given_past (by rw [failed]; rintro _ _ ⟨⟩)]
    exact ⟨[], by rw [there, List.append_nil], .all, fun _ => rfl⟩
  | case2 stream progress s next past =>
    rw [given_past (by rw [past]; rintro _ _ ⟨⟩)]
    exact ⟨[], by rw [there, List.append_nil], .all, fun _ => rfl⟩
  | case3 stream progress s frame next got text t wrote =>
    obtain ⟨part, front, holds, -⟩ := files.takes fine wrote
    rw [given_frame got]
    refine ⟨part, by rw [holds, there]; rfl, .stops front, fun reliable => ?_⟩
    have ok := (reliable s frame.data fine).1
    rw [wrote] at ok
    cases ok
  | case4 stream progress s frame next got value t wrote ih =>
    obtain ⟨part, front, holds, whole⟩ := files.takes fine wrote
    rw [there, Option.map_some] at holds
    rw [given_frame got]
    cases failed : files.failed t with
    | true =>
      refine ⟨part, (recvLoop_failed failed next _).trans holds, .stops front, fun reliable => ?_⟩
      have sound := (reliable s frame.data fine).2
      rw [wrote, failed] at sound
      cases sound
    | false =>
      obtain ⟨written, later, landed, all⟩ := ih failed holds
      rw [whole rfl failed] at later
      refine ⟨frame.data ++ written, by rw [later, List.append_assoc], .goes landed, fun reliable => ?_⟩
      rw [all reliable]
      rfl

theorem recvInto_world (digest : Bytes → Bytes) (stream : Receiver) (s : σ) :
    (recvInto digest files.writeAll stream s).2 = (recvLoop files.writeAll stream .none s).2.2 := by
  rw [recvInto]
  split <;> rename_i looped <;> rw [looped]

end Writing

/-- A destination: what it holds, why it cannot be opened, if it cannot, which writes to it
fail, and after how many bytes, and the error that is still to be told. -/
structure Disk where
  dest : Option Bytes
  refusal : Option String
  failure : Nat → Option (String × Nat)
  writes : Nat
  error : Option String

namespace Disk

def create (disk : Disk) : Except String Unit × Disk :=
  match disk.refusal with
  | some text => (.error text, disk)
  | none => (.ok (), { disk with dest := some [], error := none })

def writeAll (data : Bytes) (disk : Disk) : Except String Unit × Disk :=
  match disk.error with
  | some text => (.error text, { disk with error := none })
  | none =>
      match disk.failure disk.writes with
      | some (text, n) =>
          (.ok (), { disk with dest := disk.dest.map (· ++ data.take n), writes := disk.writes + 1, error := some text })
      | none => (.ok (), { disk with dest := disk.dest.map (· ++ data), writes := disk.writes + 1 })

def files : Files Disk where
  create := create
  writeAll := writeAll
  holds := dest
  failed disk := disk.error.isSome
  refuses {disk text t} refused := by
    rw [create] at refused
    split at refused <;> cases refused
    rfl
  opens {disk t} opened := by
    rw [create] at opened
    split at opened <;> cases opened
    exact ⟨rfl, rfl⟩
  takes {disk data result t} fine wrote := by
    rw [Option.isSome_eq_false_iff, Option.isNone_iff_eq_none] at fine
    rw [writeAll, fine] at wrote
    dsimp only at wrote
    split at wrote <;> cases wrote
    · exact ⟨_, List.take_prefix _ _, rfl, fun _ told => by cases told⟩
    · exact ⟨data, List.prefix_rfl, rfl, fun _ _ => rfl⟩
  tells {disk} data failed := by
    obtain ⟨text, error⟩ := Option.isSome_iff_exists.1 failed
    rw [writeAll, error]
    exact ⟨_, _, rfl, rfl⟩

end Disk

/-- One byte comes where two are announced. -/
private def short : Receiver := .new ⟨[], ⟨7, 0, ⟨0⟩, [1]⟩, [num Key.size 2], "file"⟩

private def disk : Disk := ⟨some [8, 9], none, fun _ => none, 0, none⟩

private theorem short_given : given short = [⟨7, 0, ⟨0⟩, [1]⟩] := by
  have first : short.recvFrame = (.ok (some ⟨7, 0, ⟨0⟩, [1]⟩), { short with pending := none }) := rfl
  have past : Receiver.recvFrame { short with pending := none } = (.ok none, { short with pending := none, ended := true }) := rfl
  rw [given_frame first, given_past (by rw [past]; rintro _ _ ⟨⟩)]

private theorem short_refused : recvFile smallDigest Disk.files.create Disk.files.writeAll short disk =
    (.error (.protocol "文件大小不符: 期望 2，实际 1"), ⟨some [1], none, fun _ => none, 1, none⟩) := by
  have gives : Gives short [⟨7, 0, ⟨0⟩, [1]⟩] { short with pending := none, ended := true } := rfl
  have looped : recvLoop Disk.files.writeAll short .none ⟨some [], none, fun _ => none, 0, none⟩ =
      (.ok ⟨[1], 1, 1⟩, { short with pending := none, ended := true }, ⟨some [1], none, fun _ => none, 1, none⟩) :=
    recvLoop_ok.2 ⟨_, gives, rfl, rfl⟩
  have wrong : verify short.metadata short.endMetadata smallDigest ⟨[1], 1, 1⟩ = .error (.protocol "文件大小不符: 期望 2，实际 1") := by
    have size : (get short.metadata Key.size).bind parseU64 = some 2 := by decide
    rw [verify, size, Option.getD_some, if_pos (by decide)]
    decide
  have made : Disk.files.create disk = (.ok (), ⟨some [], none, fun _ => none, 0, none⟩) := rfl
  rw [recvFile, made]
  simp only [recvInto, looped, wrong]

end EchoStream.Extensions.FileDest
