import EchoStream.Proto.Endpoint

/-! Frames read from the chunks of a stream in the browser. A length is filled with
chunks until there are enough bytes for it; what the last chunk has beyond it is not
kept. So the frames come out whole exactly when no chunk goes over the end of a length
or of a payload. -/

namespace EchoStream.Web.FrameReader
open Foundation.Formats
open Proto.Messages

/-- What a reader gives before it is done. -/
abbrev Reads := List (Option Bytes)

/-- The part written over the buffer from the position on. -/
def setAt (buf : Bytes) (pos : Nat) (part : Bytes) : Bytes := buf.take pos ++ part ++ buf.drop (pos + part.length)

/-- The loop of `readExactly`. -/
def fill (len : Nat) (buf : Bytes) (got : Nat) : Reads → Except String (Option Bytes) × Reads
  | [] =>
      if got < len then (if got = 0 then .ok none else .error "帧数据不完整", [])
      else (.ok (some buf), [])
  | read :: rest =>
      if got < len then
        match read with
        | some value => fill len (setAt buf got (value.take (len - got))) (got + value.length) rest
        | none => fill len buf got rest
      else (.ok (some buf), read :: rest)

def readExactly (reader : Reads) (len : Nat) : Except String (Option Bytes) × Reads :=
  fill len (List.replicate len 0) 0 reader

def readFrame (reader : Reads) : Except String (Option Bytes) × Reads :=
  match readExactly reader 4 with
  | (.error e, reader) => (.error e, reader)
  | (.ok none, reader) => (.ok none, reader)
  | (.ok (some lenBytes), reader) =>
      match readExactly reader (ofLittle lenBytes) with
      | (.error e, reader) => (.error e, reader)
      | (.ok none, reader) => (.error "帧数据不完整", reader)
      | (.ok (some payload), reader) => (.ok (some payload), reader)

def readFrames : Nat → Reads → List (Except String (Option Bytes))
  | 0, _ => []
  | count + 1, reader =>
      let (result, reader) := readFrame reader
      result :: readFrames count reader

def contents (reader : Reads) : Bytes := (reader.map (fun value => value.getD [])).flatten

def frame (payload : Bytes) : Bytes := toLittle 4 payload.length ++ payload

/-- Each length and each payload has chunks of its own. -/
def Apart : List Bytes → Reads → Prop
  | [], reader => contents reader = []
  | payload :: rest, reader =>
      ∃ front body later, reader = front ++ body ++ later ∧ contents front = toLittle 4 payload.length ∧
        contents body = payload ∧ Apart rest later

variable {len : Nat} {reader rest : Reads} {payload : Bytes} {payloads : List Bytes}

theorem frame_length (payload : Bytes) : (frame payload).length = 4 + payload.length := by
  rw [frame, List.length_append, toLittle_length]

@[simp] theorem contents_append (front back : Reads) : contents (front ++ back) = contents front ++ contents back := by
  simp [contents]

@[simp] theorem contents_nil : contents [] = [] := rfl

@[simp] theorem contents_cons (value : Option Bytes) (rest : Reads) : contents (value :: rest) = value.getD [] ++ contents rest := rfl

def partly (len : Nat) (done : Bytes) : Bytes := done ++ List.replicate (len - done.length) 0

theorem partly_full {done : Bytes} (full : len ≤ done.length) : partly len done = done := by
  rw [partly, Nat.sub_eq_zero_of_le full, List.replicate_zero, List.append_nil]

theorem setAt_partly {done part : Bytes} (fits : done.length + part.length ≤ len) :
    setAt (partly len done) done.length part = partly len (done ++ part) := by
  rw [setAt, partly, List.take_left, List.drop_append, List.drop_of_length_le (Nat.le_add_right ..), List.nil_append,
    List.drop_replicate, partly, List.length_append]
  congr 2
  omega

theorem fill_full {buf : Bytes} {got : Nat} (full : len ≤ got) (reader : Reads) :
    fill len buf got reader = (.ok (some buf), reader) := by
  cases reader with
  | nil => exact if_neg (Nat.not_lt_of_le full)
  | cons read rest => exact if_neg (Nat.not_lt_of_le full)

theorem fill_front (front later : Reads) {done : Bytes} (fits : done.length + (contents front).length = len) :
    ∃ idle, contents idle = [] ∧
      fill len (partly len done) done.length (front ++ later) = (.ok (some (done ++ contents front)), idle ++ later) := by
  induction front generalizing done with
  | nil =>
    have full : len ≤ done.length := Nat.le_of_eq fits.symm
    exact ⟨[], rfl, by rw [fill_full full, partly_full full, contents_nil, List.append_nil]⟩
  | cons read front ih =>
    by_cases more : done.length < len
    · cases read with
      | none =>
        rw [List.cons_append, fill, if_pos more]
        exact ih fits
      | some value =>
        rw [contents_cons, Option.getD_some, List.length_append] at fits
        have joined : (done ++ value).length + (contents front).length = len := by
          rw [List.length_append]
          omega
        obtain ⟨idle, nothing, filled⟩ := ih joined
        refine ⟨idle, nothing, ?_⟩
        have whole : value.take (len - done.length) = value := List.take_of_length_le (by omega)
        rw [List.cons_append, fill, if_pos more, whole, setAt_partly (by omega), ← List.length_append, filled,
          contents_cons, Option.getD_some, List.append_assoc]
    · have full : len ≤ done.length := Nat.le_of_not_lt more
      have nothing : contents (read :: front) = [] := List.eq_nil_of_length_eq_zero (by omega)
      exact ⟨read :: front, nothing, by rw [fill_full full, partly_full full, nothing, List.append_nil]⟩

/-- The chunks that were used have at least what is asked for, and it is their front. -/
structure Used (len : Nat) (done part : Bytes) (reader rest used : Reads) : Prop where
  split : reader = used ++ rest
  long : len ≤ done.length + (contents used).length
  cut : part = (done ++ contents used).take len

theorem fill_stopped {done part : Bytes} (within : done.length ≤ len) (full : len ≤ done.length)
    (filled : fill len (partly len done) done.length reader = (.ok (some part), rest)) :
    Used len done part reader rest [] := by
  rw [fill_full full, partly_full full] at filled
  cases filled
  refine ⟨rfl, full, ?_⟩
  rw [contents_nil, List.append_nil, List.take_of_length_le within]

theorem fill_some {done part : Bytes} (within : done.length ≤ len)
    (filled : fill len (partly len done) done.length reader = (.ok (some part), rest)) :
    ∃ used, Used len done part reader rest used := by
  induction reader generalizing done with
  | nil =>
    by_cases more : done.length < len
    · rw [fill, if_pos more] at filled
      split at filled <;> cases filled
    · exact ⟨[], fill_stopped within (Nat.le_of_not_lt more) filled⟩
  | cons read later ih =>
    by_cases more : done.length < len
    · cases read with
      | none =>
        rw [fill, if_pos more] at filled
        obtain ⟨used, split, long, cut⟩ := ih within filled
        exact ⟨none :: used, by rw [split, List.cons_append], long, cut⟩
      | some value =>
        rw [fill, if_pos more] at filled
        by_cases fits : value.length ≤ len - done.length
        · rw [List.take_of_length_le fits, setAt_partly (by omega), ← List.length_append] at filled
          obtain ⟨used, split, long, cut⟩ := ih (by rw [List.length_append]; omega) filled
          refine ⟨some value :: used, by rw [split, List.cons_append], ?_, ?_⟩
          · rw [contents_cons, Option.getD_some, List.length_append]
            rw [List.length_append] at long
            omega
          · rw [cut, contents_cons, Option.getD_some, List.append_assoc]
        · -- what the chunk has beyond the buffer is cut off
          have cut : (value.take (len - done.length)).length = len - done.length := List.length_take_of_le (by omega)
          have full : (done ++ value.take (len - done.length)).length = len := by
            rw [List.length_append]
            omega
          rw [setAt_partly (by omega), fill_full (by omega), partly_full (Nat.le_of_eq full.symm)] at filled
          cases filled
          refine ⟨[some value], rfl, ?_, ?_⟩
          · rw [contents_cons, contents_nil, List.append_nil, Option.getD_some]
            omega
          · rw [contents_cons, contents_nil, List.append_nil, Option.getD_some, List.take_append,
              List.take_of_length_le within]
    · exact ⟨[], fill_stopped within (Nat.le_of_not_lt more) filled⟩

theorem fill_idle (buf : Bytes) (some_wanted : 0 < len) (idle : contents reader = []) :
    fill len buf 0 reader = (.ok none, []) := by
  induction reader generalizing buf with
  | nil => rw [fill, if_pos some_wanted, if_pos rfl]
  | cons read later ih =>
    rw [contents_cons, List.append_eq_nil_iff] at idle
    cases read with
    | none =>
      rw [fill, if_pos some_wanted]
      exact ih buf idle.2
    | some value =>
      have empty : value = [] := idle.1
      rw [fill, if_pos some_wanted, empty]
      exact ih _ idle.2

theorem partly_nil (len : Nat) : partly len [] = List.replicate len 0 := by
  rw [partly, List.nil_append, List.length_nil, Nat.sub_zero]

theorem readExactly_front (front later : Reads) (fits : (contents front).length = len) :
    ∃ idle, contents idle = [] ∧ readExactly (front ++ later) len = (.ok (some (contents front)), idle ++ later) := by
  have total : ([] : Bytes).length + (contents front).length = len := by rw [List.length_nil, Nat.zero_add, fits]
  obtain ⟨idle, nothing, filled⟩ := fill_front front later total
  rw [partly_nil, List.nil_append] at filled
  exact ⟨idle, nothing, filled⟩

theorem readExactly_some {part : Bytes} (got : readExactly reader len = (.ok (some part), rest)) :
    ∃ used, reader = used ++ rest ∧ len ≤ (contents used).length ∧ part = (contents used).take len := by
  rw [readExactly, ← partly_nil] at got
  obtain ⟨used, split, long, cut⟩ := fill_some (Nat.zero_le len) got
  exact ⟨used, split, by rwa [List.length_nil, Nat.zero_add] at long, by rwa [List.nil_append] at cut⟩

theorem readFrame_apart {front body : Reads} (later : Reads) (small : payload.length < 2 ^ 32)
    (length : contents front = toLittle 4 payload.length) (whole : contents body = payload) :
    ∃ idle, contents idle = [] ∧ readFrame (front ++ body ++ later) = (.ok (some payload), idle ++ later) := by
  obtain ⟨first, empty, got⟩ := readExactly_front front (body ++ later) (by rw [length, toLittle_length] : _ = 4)
  have rejoined : contents (first ++ body) = payload := by
    rw [contents_append, empty, List.nil_append, whole]
  obtain ⟨idle, nothing, rest⟩ := readExactly_front (first ++ body) later (congrArg List.length rejoined)
  rw [rejoined, List.append_assoc] at rest
  refine ⟨idle, nothing, ?_⟩
  have wanted : ofLittle (contents front) = payload.length := by
    rw [length, ofLittle_toLittle]
    exact Nat.mod_eq_of_lt small
  rw [readFrame, List.append_assoc, got]
  simp only [wanted, rest]

theorem readFrame_some (read : readFrame reader = (.ok (some payload), rest)) :
    ∃ front body, reader = front ++ body ++ rest ∧ 4 ≤ (contents front).length ∧
      ofLittle ((contents front).take 4) ≤ (contents body).length ∧
      payload = (contents body).take (ofLittle ((contents front).take 4)) := by
  rw [readFrame] at read
  split at read
  · cases read
  · cases read
  · rename_i lenBytes after got
    obtain ⟨front, split, long, whole⟩ := readExactly_some got
    split at read
    · cases read
    · cases read
    · rename_i part later rest
      cases read
      obtain ⟨body, again, enough, cut⟩ := readExactly_some rest
      rw [whole] at enough cut
      exact ⟨front, body, by rw [split, again, List.append_assoc], long, enough, cut⟩

theorem readFrame_length {body : Bytes} {wanted : Nat} (cut : payload = body.take wanted) :
    payload.length ≤ body.length := by
  rw [cut, List.length_take]
  exact Nat.min_le_right ..

theorem readFrame_own {part : Bytes} (small : payload.length < 2 ^ 32) (split : contents reader = frame payload)
    (read : readFrame reader = (.ok (some part), rest)) : part = payload := by
  obtain ⟨front, body, used, long, enough, cut⟩ := readFrame_some read
  rw [used, contents_append, contents_append, frame] at split
  have length : (contents front).take 4 = toLittle 4 payload.length := by
    have first := congrArg (List.take 4) split
    rwa [List.append_assoc, List.take_append_of_le_length long, List.take_left' (toLittle_length ..)] at first
  have wanted : ofLittle ((contents front).take 4) = payload.length := by
    rw [length, ofLittle_toLittle]
    exact Nat.mod_eq_of_lt small
  rw [wanted] at enough cut
  have total := congrArg List.length split
  rw [List.length_append, List.length_append, List.length_append, toLittle_length] at total
  have whole : contents body ++ contents rest = payload := by
    rw [List.append_assoc] at split
    refine (List.append_inj split ?_).2
    rw [toLittle_length]
    omega
  rw [cut, ← List.take_append_of_le_length enough, whole, List.take_length]

theorem readFrame_idle (idle : contents reader = []) : readFrame reader = (.ok none, []) := by
  rw [readFrame, readExactly, fill_idle _ (by decide) idle]

theorem readFrames_idle (count : Nat) (idle : contents reader = []) :
    readFrames count reader = List.replicate count (.ok none) := by
  induction count generalizing reader with
  | zero => rfl
  | succ count ih =>
    rw [readFrames, readFrame_idle idle]
    exact congrArg _ (ih rfl)

theorem readFrames_succ (count : Nat) (reader : Reads) :
    readFrames (count + 1) reader = (readFrame reader).1 :: readFrames count (readFrame reader).2 := rfl

theorem Apart.idle {idle : Reads} (nothing : contents idle = []) (apart : Apart payloads reader) :
    Apart payloads (idle ++ reader) := by
  cases payloads with
  | nil =>
    rw [Apart, contents_append, nothing, List.nil_append]
    exact apart
  | cons payload payloads =>
    obtain ⟨front, body, later, split, length, whole, rest⟩ := apart
    refine ⟨idle ++ front, body, later, ?_, ?_, whole, rest⟩
    · rw [split, List.append_assoc, List.append_assoc, List.append_assoc]
    · rw [contents_append, nothing, List.nil_append, length]

theorem readFrames_apart (count : Nat) (small : ∀ payload ∈ payloads, payload.length < 2 ^ 32)
    (apart : Apart payloads reader) :
    readFrames (payloads.length + count) reader =
      payloads.map (fun payload => .ok (some payload)) ++ List.replicate count (.ok none) := by
  induction payloads generalizing reader with
  | nil =>
    rw [List.length_nil, Nat.zero_add]
    exact readFrames_idle count apart
  | cons payload payloads ih =>
    obtain ⟨front, body, later, split, length, whole, rest⟩ := apart
    obtain ⟨idle, nothing, read⟩ := readFrame_apart later (small payload (List.mem_cons_self ..)) length whole
    have others : ∀ payload ∈ payloads, payload.length < 2 ^ 32 :=
      fun payload member => small payload (List.mem_cons_of_mem _ member)
    rw [List.length_cons, Nat.add_right_comm, readFrames_succ, split, read, List.map_cons, List.cons_append]
    exact congrArg _ (ih others (rest.idle nothing))

/-- The bytes that the frames have are the least that reading them takes. -/
theorem readFrames_enough {count : Nat} {results : List (Except String (Option Bytes))}
    (read : readFrames (payloads.length + count) reader = payloads.map (fun payload => .ok (some payload)) ++ results) :
    (payloads.map frame).flatten.length ≤ (contents reader).length := by
  induction payloads generalizing reader with
  | nil => exact Nat.zero_le _
  | cons payload payloads ih =>
    rw [List.length_cons, Nat.add_right_comm, readFrames_succ, List.map_cons, List.cons_append] at read
    obtain ⟨first, later⟩ := List.cons.inj read
    have head : readFrame reader = (.ok (some payload), (readFrame reader).2) := Prod.ext first rfl
    obtain ⟨front, body, split, long, -, cut⟩ := readFrame_some head
    have enough := readFrame_length cut
    have others := ih later
    rw [split, contents_append, contents_append, List.length_append, List.length_append, List.map_cons,
      List.flatten_cons, List.length_append, frame, List.length_append, toLittle_length]
    omega

/-- Frames that have just the bytes of the chunks are read one by one only if each
length and each payload has chunks of its own. -/
theorem apart_of_readFrames {count : Nat} {results : List (Except String (Option Bytes))}
    (split : contents reader = (payloads.map frame).flatten)
    (read : readFrames (payloads.length + count) reader = payloads.map (fun payload => .ok (some payload)) ++ results) :
    Apart payloads reader := by
  induction payloads generalizing reader with
  | nil => exact split
  | cons payload payloads ih =>
    rw [List.length_cons, Nat.add_right_comm, readFrames_succ, List.map_cons, List.cons_append] at read
    obtain ⟨first, later⟩ := List.cons.inj read
    have head : readFrame reader = (.ok (some payload), (readFrame reader).2) := Prod.ext first rfl
    obtain ⟨front, body, used, long, -, cut⟩ := readFrame_some head
    have enough := readFrame_length cut
    have others := readFrames_enough later
    rw [used, contents_append, contents_append, List.map_cons, List.flatten_cons, frame] at split
    have total := congrArg List.length split
    rw [List.length_append, List.length_append, List.length_append, List.length_append, toLittle_length] at total
    obtain ⟨both, rest⟩ := List.append_inj split (by
      rw [List.length_append, List.length_append, toLittle_length]
      omega)
    obtain ⟨length, whole⟩ := List.append_inj both (by
      rw [toLittle_length]
      omega)
    exact ⟨front, body, _, used, length, whole, ih rest later⟩

/-- One frame is read, from chunks that are its own, or there is an error. -/
theorem readFrame_some_iff (small : payload.length < 2 ^ 32) (split : contents reader = frame payload) (part : Bytes) :
    (readFrame reader).1 = .ok (some part) ↔ Apart [payload] reader ∧ part = payload := by
  have only : contents reader = ([payload].map frame).flatten := by
    rw [split, List.map_singleton, List.flatten_singleton]
  constructor
  · intro read
    have own : part = payload := readFrame_own small split (Prod.ext read rfl)
    have once : readFrames ([payload].length + 0) reader = [payload].map (fun payload => .ok (some payload)) ++ [] := by
      rw [own] at read
      exact congrArg (fun first => [first]) read
    exact ⟨apart_of_readFrames only once, own⟩
  · rintro ⟨apart, rfl⟩
    have once := readFrames_apart 0 (fun payload member => List.mem_singleton.1 member ▸ small) apart
    exact (List.cons.inj once).1

/-- The payloads come out, and then nothing any more, exactly when each length and each
payload has chunks of its own. -/
theorem readFrames_iff_apart (count : Nat) (small : ∀ payload ∈ payloads, payload.length < 2 ^ 32)
    (split : contents reader = (payloads.map frame).flatten) :
    readFrames (payloads.length + (count + 1)) reader =
        payloads.map (fun payload => .ok (some payload)) ++ List.replicate (count + 1) (.ok none) ↔
      Apart payloads reader :=
  ⟨apart_of_readFrames split, readFrames_apart (count + 1) small⟩

private def pair : List Bytes := [[7], []]

private def pairReads : Reads := [some [1, 0], some [0, 0], some [7], some [0, 0, 0, 0]]

theorem readFrames_iff_apart_pair :
    readFrames (pair.length + (0 + 1)) pairReads =
        pair.map (fun payload => .ok (some payload)) ++ List.replicate (0 + 1) (.ok none) ↔
      Apart pair pairReads :=
  readFrames_iff_apart 0 (by decide) rfl

/-- A frame that comes in one chunk. -/
theorem frame_lost :
    contents [some [1, 0, 0, 0, 7]] = ([[7]].map frame).flatten ∧
      readFrames (1 + (0 + 1)) [some [1, 0, 0, 0, 7]] = [.error "帧数据不完整", .ok none] :=
  ⟨rfl, rfl⟩

end EchoStream.Web.FrameReader
