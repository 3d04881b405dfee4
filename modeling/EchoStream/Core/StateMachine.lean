import Mathlib.Data.List.AList
import EchoStream.Foundation.Run
import EchoStream.Proto.Postcard

/-! The client state machine without I/O. It builds the frames that are sent, and
is given the frames that arrive, one call after the other. What listeners do is
not its business: a call of one is recorded with what it was given, and only the
RPC listeners' answers are looked at. The response listeners are numbered in the
order of their requests. -/

namespace EchoStream.Core.StateMachine
open Foundation.Run
open Proto.Messages Proto.Postcard

abbrev ListenerId := UInt64

abbrev RpcListener := UInt64 → Bytes → Option Bytes

/-- A call of a listener. A stream listener is also given with the name it is
registered under. -/
inductive Call where
  | response (request : Nat) (data : Bytes) (error : Option String)
  | event (listener : ListenerId) (name : String) (data : Bytes)
  | rpc (listener : ListenerId) (id : UInt64) (data : Bytes)
  | stream (name : String) (listener : ListenerId) (frame : Option StreamMsg)
deriving DecidableEq

structure ClientCore where
  nextId : UInt64
  nextListenerId : UInt64
  pending : AList (fun _ : UInt64 => Nat)
  events : AList (fun _ : String => List ListenerId)
  rpcs : AList (fun _ : String => ListenerId × RpcListener)
  streams : AList (fun _ : String => ListenerId)
  streamNames : AList (fun _ : UInt64 => String)
  streamMetas : AList (fun _ : UInt64 => List StreamMetaEntry)
  streamEnds : AList (fun _ : UInt64 => StreamEndMsg)
  streamSeq : AList (fun _ : UInt64 => UInt64)

section Maps

variable {α β : Type} [DecidableEq α]

def retain (keep : β → Bool) (map : AList (fun _ : α => β)) : AList (fun _ : α => β) :=
  ⟨map.entries.filter (fun entry => keep entry.2), List.NodupKeys.sublist List.filter_sublist map.nodupKeys⟩

def mapValues (change : β → β) (map : AList (fun _ : α => β)) : AList (fun _ : α => β) :=
  ⟨map.entries.map (fun entry => ⟨entry.1, change entry.2⟩), List.NodupKeys.map₂ (fun _ => change) _ map.nodupKeys⟩

def anyValue (holds : β → Bool) (map : AList (fun _ : α => β)) : Bool :=
  map.entries.any (fun entry => holds entry.2)

theorem lookup_insert_eq (map : AList (fun _ : α => β)) (key other : α) (value : β) :
    (map.insert other value).lookup key = if other = key then some value else map.lookup key := by
  by_cases same : other = key
  · rw [if_pos same, same, AList.lookup_insert]
  · rw [if_neg same, AList.lookup_insert_ne (Ne.symm same)]

theorem lookup_retain (keep : β → Bool) (map : AList (fun _ : α => β)) (key : α) :
    (retain keep map).lookup key = (map.lookup key).filter keep := by
  obtain ⟨entries, distinct⟩ := map
  show List.dlookup key (entries.filter (fun entry => keep entry.2)) = (List.dlookup key entries).filter keep
  induction entries with
  | nil => rfl
  | cons entry rest ih =>
    obtain ⟨other, value⟩ := entry
    obtain ⟨fresh, later⟩ := List.nodupKeys_cons.1 distinct
    have ih := ih later
    have passes : ∀ more : List (Σ _ : α, β), key ≠ other → List.dlookup key (⟨other, value⟩ :: more) = List.dlookup key more :=
      fun more apart => List.dlookup_cons_ne more ⟨other, value⟩ apart
    rw [List.filter_cons]
    dsimp only
    by_cases same : key = other
    · subst same
      rw [List.dlookup_cons_eq, Option.filter_some]
      by_cases kept : keep value = true
      · rw [if_pos kept, if_pos kept, List.dlookup_cons_eq]
      · rw [if_neg kept, if_neg kept, ih, List.dlookup_eq_none.2 fresh]
        rfl
    · rw [passes rest same, ← ih]
      by_cases kept : keep value = true
      · rw [if_pos kept, passes _ same]
      · rw [if_neg kept]

theorem lookup_mapValues (change : β → β) (map : AList (fun _ : α => β)) (key : α) :
    (mapValues change map).lookup key = (map.lookup key).map change := by
  obtain ⟨entries, distinct⟩ := map
  exact List.dlookup_map₂ (f := fun _ => change) key

theorem anyValue_iff {holds : β → Bool} {map : AList (fun _ : α => β)} :
    anyValue holds map = true ↔ ∃ key value, map.lookup key = some value ∧ holds value = true := by
  rw [anyValue, List.any_eq_true]
  constructor
  · rintro ⟨⟨key, value⟩, member, held⟩
    exact ⟨key, value, AList.mem_lookup_iff.2 member, held⟩
  · rintro ⟨key, value, found, held⟩
    exact ⟨⟨key, value⟩, AList.mem_lookup_iff.1 found, held⟩

end Maps

namespace ClientCore

def new : ClientCore := ⟨0, 0, ∅, ∅, ∅, ∅, ∅, ∅, ∅, ∅⟩

def takeNextId (core : ClientCore) : UInt64 × ClientCore :=
  (core.nextId + 1, { core with nextId := core.nextId + 1 })

def takeNextListener (core : ClientCore) : ListenerId × ClientCore :=
  (core.nextListenerId + 1, { core with nextListenerId := core.nextListenerId + 1 })

/-- `request` is the number of the response listener. -/
def buildRequest (request : Nat) (name : String) (payload : Bytes) (core : ClientCore) :
    (UInt64 × Message) × ClientCore :=
  let (id, core) := core.takeNextId
  ((id, .request ⟨id, name, payload⟩), { core with pending := core.pending.insert id request })

def buildEvent (name : String) (payload : Bytes) (core : ClientCore) : Message × ClientCore :=
  let (id, core) := core.takeNextId
  (.event ⟨id, name, payload⟩, core)

def buildDatagramEvent (codec : Codec Message) (name : String) (payload : Bytes) (core : ClientCore) :
    Except String Bytes × ClientCore :=
  let (msg, core) := core.buildEvent name payload
  (codec.toAllocvec msg, core)

def openStream (core : ClientCore) : UInt64 × ClientCore :=
  let (id, core) := core.takeNextId
  (id, { core with streamSeq := core.streamSeq.insert id 0 })

def buildStreamOpen (id : UInt64) (name : String) (metadata : List StreamMetaEntry) : Message :=
  .streamOpen ⟨id, name, metadata⟩

def buildStreamFrame (id : UInt64) (data : Bytes) (senderTs : UInt64) (core : ClientCore) : Message × ClientCore :=
  let seq := (core.streamSeq.lookup id).getD 0
  (.stream ⟨id, seq, ⟨senderTs⟩, data⟩, { core with streamSeq := core.streamSeq.insert id (seq + 1) })

def buildStreamEnd (id : UInt64) (code : UInt16) (message : Option String) : Message :=
  .streamEnd ⟨id, code, message, []⟩

def buildResponse (id : UInt64) (data : Bytes) : Message :=
  .response { id, code := .success, message := none, data }

def buildErrorResponse (id : UInt64) (message : String) : Message :=
  .response { id, code := .error, message := some message, data := [] }

def onEvent (name : String) (core : ClientCore) : ListenerId × ClientCore :=
  let (id, core) := core.takeNextListener
  (id, { core with events := core.events.insert name ((core.events.lookup name).getD [] ++ [id]) })

def offEvent (id : ListenerId) (core : ClientCore) : Bool × ClientCore :=
  let left := mapValues (fun listeners => listeners.filter (fun listener => listener ≠ id)) core.events
  (anyValue (fun listeners => listeners.contains id) core.events,
    { core with events := retain (fun listeners => !listeners.isEmpty) left })

def onRpc (name : String) (handler : RpcListener) (core : ClientCore) : ListenerId × ClientCore :=
  let (id, core) := core.takeNextListener
  (id, { core with rpcs := core.rpcs.insert name (id, handler) })

def offRpc (id : ListenerId) (core : ClientCore) : Bool × ClientCore :=
  (anyValue (fun entry => entry.1 = id) core.rpcs, { core with rpcs := retain (fun entry => entry.1 ≠ id) core.rpcs })

def onStream (name : String) (core : ClientCore) : ListenerId × ClientCore :=
  let (id, core) := core.takeNextListener
  (id, { core with streams := core.streams.insert name id })

def offStream (id : ListenerId) (core : ClientCore) : Bool × ClientCore :=
  (anyValue (fun listener => listener = id) core.streams, { core with streams := retain (fun listener => listener ≠ id) core.streams })

/-- What a response listener is given. -/
def contents (resp : ResponseMsg) : Bytes × Option String :=
  if resp.code.isSuccess then (resp.data, none) else ([], resp.message)

def streamListener (core : ClientCore) (id : UInt64) : Option (String × ListenerId) :=
  match core.streamNames.lookup id with
  | some name => (core.streams.lookup name).map (fun listener => (name, listener))
  | none => none

/-- The listeners called, and the frame to be sent back. -/
def handleInbound (msg : Message) (core : ClientCore) : (List Call × Option Message) × ClientCore :=
  match msg with
  | .response resp =>
      match core.pending.lookup resp.id with
      | some request =>
          (([.response request (contents resp).1 (contents resp).2], none),
            { core with pending := core.pending.erase resp.id })
      | none => (([], none), core)
  | .event event =>
      let listeners := (core.events.lookup event.name).getD []
      ((listeners.map (fun listener => .event listener event.name event.data), none), core)
  | .request req =>
      match core.rpcs.lookup req.name with
      | some (listener, handler) =>
          (([.rpc listener req.id req.data], (handler req.id req.data).map (buildResponse req.id)), core)
      | none => (([], some (buildErrorResponse req.id "handler not found")), core)
  | .streamOpen opened =>
      (([], none),
        { core with
          streamNames := core.streamNames.insert opened.id opened.name
          streamMetas := core.streamMetas.insert opened.id opened.metadata })
  | .stream frame =>
      match core.streamListener frame.id with
      | some (name, listener) => (([.stream name listener (some frame)], none), core)
      | none => (([], none), core)
  | .streamEnd ended =>
      let core := { core with streamEnds := core.streamEnds.insert ended.id ended }
      match core.streamListener ended.id with
      | some (name, listener) => (([.stream name listener none], none), core)
      | none => (([], none), core)

def streamMetadata (core : ClientCore) (id : UInt64) : Option (List StreamMetaEntry) := core.streamMetas.lookup id

def streamEnd (core : ClientCore) (id : UInt64) : Option StreamEndMsg := core.streamEnds.lookup id

def removeStreamState (id : UInt64) (core : ClientCore) : ClientCore :=
  { core with
    streamNames := core.streamNames.erase id
    streamMetas := core.streamMetas.erase id
    streamEnds := core.streamEnds.erase id
    streamSeq := core.streamSeq.erase id }

end ClientCore

/-- What decides which response listener is called: requests and responses in
the order they were made and came. -/
inductive Happening where
  | requested (id : UInt64)
  | responded (resp : ResponseMsg)

/-- The state machine with what it has done so far. -/
structure Client where
  core : ClientCore
  allocated : List UInt64
  history : List Happening
  calls : List Call

def Client.init : Client := ⟨.new, [], [], []⟩

inductive Label where
  | request (name : String) (payload : Bytes)
  | event (name : String) (payload : Bytes)
  | datagram (name : String) (payload : Bytes)
  | openStream
  | streamFrame (id : UInt64) (data : Bytes) (senderTs : UInt64)
  | onEvent (name : String)
  | offEvent (id : ListenerId)
  | onRpc (name : String) (handler : RpcListener)
  | offRpc (id : ListenerId)
  | onStream (name : String)
  | offStream (id : ListenerId)
  | removeStreamState (id : UInt64)
  | inbound (msg : Message)

/-- The ids of the requests in their order, which is also how their listeners are
numbered. -/
def issued (history : List Happening) : List UInt64 :=
  history.filterMap (fun
    | .requested id => some id
    | .responded _ => none)

namespace Client

def allocating (s : Client) (core : ClientCore) : Client :=
  { s with core, allocated := s.allocated ++ [s.core.takeNextId.1] }

def request (s : Client) (name : String) (payload : Bytes) : Client :=
  let ((id, _), core) := s.core.buildRequest (issued s.history).length name payload
  { s.allocating core with history := s.history ++ [.requested id] }

def inbound (s : Client) (msg : Message) : Client :=
  let ((calls, _), core) := s.core.handleInbound msg
  let history :=
    match msg with
    | .response resp => s.history ++ [.responded resp]
    | _ => s.history
  { s with core, history, calls := s.calls ++ calls }

end Client

def step (codec : Codec Message) : Step Client Label
  | s, .request name payload => some (s.request name payload)
  | s, .event name payload => some (s.allocating (s.core.buildEvent name payload).2)
  | s, .datagram name payload => some (s.allocating (s.core.buildDatagramEvent codec name payload).2)
  | s, .openStream => some (s.allocating s.core.openStream.2)
  | s, .streamFrame id data senderTs => some { s with core := (s.core.buildStreamFrame id data senderTs).2 }
  | s, .onEvent name => some { s with core := (s.core.onEvent name).2 }
  | s, .offEvent id => some { s with core := (s.core.offEvent id).2 }
  | s, .onRpc name handler => some { s with core := (s.core.onRpc name handler).2 }
  | s, .offRpc id => some { s with core := (s.core.offRpc id).2 }
  | s, .onStream name => some { s with core := (s.core.onStream name).2 }
  | s, .offStream id => some { s with core := (s.core.offStream id).2 }
  | s, .removeStreamState id => some { s with core := s.core.removeStreamState id }
  | s, .inbound msg => some (s.inbound msg)

def firstResponse (id : UInt64) (history : List Happening) : Option ResponseMsg :=
  history.findSome? (fun
    | .responded resp => if resp.id = id then some resp else none
    | .requested _ => none)

/-- The first response with the id since the request with the id. -/
def answerTo (id : UInt64) : List Happening → Option ResponseMsg
  | [] => none
  | .requested other :: rest => if other = id then firstResponse id rest else answerTo id rest
  | .responded _ :: rest => answerTo id rest

def responses (request : Nat) (calls : List Call) : List (Bytes × Option String) :=
  calls.filterMap (fun
    | .response other data error => if other = request then some (data, error) else none
    | _ => none)

/-- The pending map and the calls made, as they follow from requests and responses. -/
structure Books (s : Client) : Prop where
  pending : ∀ id i, s.core.pending.lookup id = some i ↔
    (issued s.history)[i]? = some id ∧ answerTo id s.history = none
  answered : ∀ i id, (issued s.history)[i]? = some id →
    responses i s.calls = ((answerTo id s.history).map ClientCore.contents).toList
  silent : ∀ i, (issued s.history).length ≤ i → responses i s.calls = []

structure Sound (s : Client) : Prop where
  numbered : s.allocated = (List.range s.allocated.length).map (fun i => UInt64.ofNat (i + 1))
  next : s.core.nextId = UInt64.ofNat s.allocated.length
  among : ∀ id ∈ issued s.history, id ∈ s.allocated
  books : s.allocated.length < 2 ^ 64 → Books s

variable {s t : Client} {id : UInt64} {history : List Happening}

theorem answerTo_unissued (history : List Happening) (never : id ∉ issued history) : answerTo id history = none := by
  induction history with
  | nil => rfl
  | cons first rest ih =>
    cases first with
    | requested other =>
      have apart : other ≠ id ∧ id ∉ issued rest := by
        simpa [issued, eq_comm] using never
      rw [answerTo, if_neg apart.1, ih apart.2]
    | responded resp => exact ih never

theorem answerTo_requested (id other : UInt64) (history : List Happening) :
    answerTo id (history ++ [.requested other]) = answerTo id history := by
  induction history with
  | nil => simp [answerTo, firstResponse]
  | cons first rest ih =>
    cases first with
    | requested earlier =>
      rw [List.cons_append, answerTo, answerTo, ih, firstResponse, List.findSome?_append]
      simp [firstResponse]
    | responded resp => exact ih

theorem answerTo_responded (id : UInt64) (resp : ResponseMsg) (history : List Happening) :
    answerTo id (history ++ [.responded resp]) =
      (answerTo id history).or (if id ∈ issued history ∧ resp.id = id then some resp else none) := by
  induction history with
  | nil => rfl
  | cons first rest ih =>
    cases first with
    | requested earlier =>
      rw [List.cons_append, answerTo, answerTo, ih, firstResponse, List.findSome?_append]
      by_cases same : earlier = id
      · simp [firstResponse, issued, same]
      · simp [issued, same, Ne.symm same]
    | responded other => exact ih

theorem issued_requested (history : List Happening) (id : UInt64) :
    issued (history ++ [.requested id]) = issued history ++ [id] := by
  simp [issued]

theorem issued_responded (history : List Happening) (resp : ResponseMsg) :
    issued (history ++ [.responded resp]) = issued history := by
  simp [issued]

theorem init_sound : Sound .init where
  numbered := rfl
  next := rfl
  among := by simp [Client.init, issued]
  books _ := ⟨by simp [Client.init, ClientCore.new, issued], by simp [Client.init, issued],
    by simp [Client.init, responses]⟩

theorem Sound.nodup (sound : Sound s) (few : s.allocated.length < 2 ^ 64) : s.allocated.Nodup := by
  rw [sound.numbered]
  apply List.Nodup.map_on _ List.nodup_range
  intro i below j under same
  rw [List.mem_range] at below under
  have equal := congrArg UInt64.toNat same
  rw [UInt64.toNat_ofNat', UInt64.toNat_ofNat'] at equal
  omega

theorem Sound.fresh (sound : Sound s) (few : s.allocated.length + 1 < 2 ^ 64) : s.core.nextId + 1 ∉ s.allocated := by
  intro member
  rw [sound.numbered, List.mem_map] at member
  obtain ⟨i, below, same⟩ := member
  rw [List.mem_range] at below
  rw [sound.next] at same
  have equal := congrArg UInt64.toNat same
  rw [UInt64.toNat_add, UInt64.toNat_ofNat', UInt64.toNat_ofNat', UInt64.toNat_one] at equal
  omega

structure Quiet (s t : Client) : Prop where
  pending : t.core.pending = s.core.pending
  history : t.history = s.history
  responses : ∀ i, responses i t.calls = responses i s.calls

theorem Quiet.books (quiet : Quiet s t) (books : Books s) : Books t where
  pending := by
    rw [quiet.pending, quiet.history]
    exact books.pending
  answered i id asked := by
    rw [quiet.history] at asked ⊢
    rw [quiet.responses]
    exact books.answered i id asked
  silent i beyond := by
    rw [quiet.history] at beyond
    rw [quiet.responses]
    exact books.silent i beyond

theorem Quiet.sound (quiet : Quiet s t) (nextId : t.core.nextId = s.core.nextId) (allocated : t.allocated = s.allocated)
    (sound : Sound s) : Sound t where
  numbered := by
    rw [allocated]
    exact sound.numbered
  next := by
    rw [allocated, nextId]
    exact sound.next
  among := by
    rw [allocated, quiet.history]
    exact sound.among
  books few := by
    rw [allocated] at few
    exact quiet.books (sound.books few)

theorem Sound.numbered_next (sound : Sound s) :
    s.allocated ++ [s.core.nextId + 1] =
      (List.range (s.allocated.length + 1)).map (fun i => UInt64.ofNat (i + 1)) := by
  rw [List.range_succ, List.map_append, ← sound.numbered, sound.next, List.map_singleton, UInt64.ofNat_add]
  rfl

theorem Quiet.allocating_sound (core : ClientCore) (quiet : Quiet s (s.allocating core))
    (nextId : core.nextId = s.core.nextId + 1) (sound : Sound s) : Sound (s.allocating core) where
  numbered := by
    rw [Client.allocating, List.length_append]
    exact sound.numbered_next
  next := by
    rw [Client.allocating, List.length_append, nextId, sound.next, List.length_singleton, UInt64.ofNat_add]
    rfl
  among id asked := List.mem_append_left _ (sound.among id (quiet.history ▸ asked))
  books few := by
    rw [Client.allocating, List.length_append] at few
    exact quiet.books (sound.books (Nat.lt_of_succ_lt few))

theorem issued_last (asked : List UInt64) (id : UInt64) (fresh : id ∉ asked) (i : Nat) :
    (asked ++ [id])[i]? = some id ↔ asked.length = i := by
  constructor
  · intro found
    rcases Nat.lt_trichotomy i asked.length with below | last | above
    · rw [List.getElem?_append_left below] at found
      exact absurd (List.mem_of_getElem? found) fresh
    · exact last.symm
    · rw [List.getElem?_eq_none (by rw [List.length_append]; exact above)] at found
      cases found
  · rintro rfl
    exact List.getElem?_concat_length

theorem issued_earlier (asked : List UInt64) {id other : UInt64} (apart : id ≠ other) (i : Nat) :
    (asked ++ [other])[i]? = some id ↔ asked[i]? = some id := by
  rcases Nat.lt_or_ge i asked.length with below | beyond
  · rw [List.getElem?_append_left below]
  · rw [List.getElem?_append_right beyond, List.getElem?_eq_none beyond, List.getElem?_singleton]
    split <;> simp [Ne.symm apart]

theorem Books.request (books : Books s) (sound : Sound s) (few : s.allocated.length + 1 < 2 ^ 64)
    (name : String) (payload : Bytes) : Books (s.request name payload) := by
  have fresh : s.core.nextId + 1 ∉ issued s.history := fun asked => sound.fresh few (sound.among _ asked)
  have unanswered := answerTo_unissued s.history fresh
  have history : (s.request name payload).history = s.history ++ [.requested (s.core.nextId + 1)] := rfl
  have pending : (s.request name payload).core.pending =
      s.core.pending.insert (s.core.nextId + 1) (issued s.history).length := rfl
  have calls : (s.request name payload).calls = s.calls := rfl
  constructor
  · intro id i
    rw [history, pending, issued_requested, answerTo_requested]
    by_cases same : id = s.core.nextId + 1
    · subst same
      rw [AList.lookup_insert, issued_last _ _ fresh, Option.some_inj]
      simp only [unanswered, and_true]
    · rw [AList.lookup_insert_ne same, books.pending, issued_earlier _ same]
  · intro i id asked
    rw [history, issued_requested] at asked
    rw [history, calls, answerTo_requested]
    by_cases same : id = s.core.nextId + 1
    · subst same
      rw [issued_last _ _ fresh] at asked
      rw [unanswered, books.silent i (Nat.le_of_eq asked)]
      rfl
    · exact books.answered i id ((issued_earlier _ same i).1 asked)
  · intro i beyond
    rw [history, issued_requested, List.length_append] at beyond
    rw [calls]
    exact books.silent i (Nat.le_of_succ_le beyond)

theorem request_sound (sound : Sound s) (name : String) (payload : Bytes) : Sound (s.request name payload) := by
  have allocated : (s.request name payload).allocated = s.allocated ++ [s.core.nextId + 1] := rfl
  have history : (s.request name payload).history = s.history ++ [.requested (s.core.nextId + 1)] := rfl
  have nextId : (s.request name payload).core.nextId = s.core.nextId + 1 := rfl
  constructor
  · rw [allocated, List.length_append]
    exact sound.numbered_next
  · rw [allocated, nextId, sound.next, List.length_append, List.length_singleton, UInt64.ofNat_add]
    rfl
  · intro id asked
    rw [history, issued_requested, List.mem_append] at asked
    rw [allocated, List.mem_append]
    exact asked.imp_left (sound.among id)
  · intro few
    rw [allocated, List.length_append] at few
    exact (sound.books (Nat.lt_of_succ_lt few)).request sound few name payload

theorem responses_append (i : Nat) (calls more : List Call) :
    responses i (calls ++ more) = responses i calls ++ responses i more :=
  List.filterMap_append

theorem Books.respond_unknown (books : Books s) (resp : ResponseMsg) (unknown : s.core.pending.lookup resp.id = none) :
    Books (s.inbound (.response resp)) := by
  have inbound : s.inbound (.response resp) = { s with history := s.history ++ [.responded resp] } := by
    simp [Client.inbound, ClientCore.handleInbound, unknown]
  have answers : ∀ id, answerTo id (s.history ++ [.responded resp]) = answerTo id s.history := by
    intro id
    rw [answerTo_responded]
    cases answer : answerTo id s.history with
    | some first => rfl
    | none =>
      rw [Option.none_or, if_neg]
      rintro ⟨asked, rfl⟩
      obtain ⟨i, found⟩ := List.getElem?_of_mem asked
      rw [(books.pending _ i).2 ⟨found, answer⟩] at unknown
      cases unknown
  rw [inbound]
  constructor
  · intro id i
    rw [issued_responded, answers]
    exact books.pending id i
  · intro i id asked
    rw [issued_responded] at asked
    rw [answers]
    exact books.answered i id asked
  · intro i beyond
    rw [issued_responded] at beyond
    exact books.silent i beyond

theorem Books.respond_pending (books : Books s) (resp : ResponseMsg) {request : Nat}
    (waits : s.core.pending.lookup resp.id = some request) : Books (s.inbound (.response resp)) := by
  obtain ⟨asked, unanswered⟩ := (books.pending _ _).1 waits
  have inbound : s.inbound (.response resp) =
      { s with
        core := { s.core with pending := s.core.pending.erase resp.id }
        history := s.history ++ [.responded resp]
        calls := s.calls ++ [.response request (ClientCore.contents resp).1 (ClientCore.contents resp).2] } := by
    simp [Client.inbound, ClientCore.handleInbound, waits]
  have answered : answerTo resp.id (s.history ++ [.responded resp]) = some resp := by
    rw [answerTo_responded, unanswered, Option.none_or, if_pos ⟨List.mem_of_getElem? asked, rfl⟩]
  have others : ∀ id, id ≠ resp.id → answerTo id (s.history ++ [.responded resp]) = answerTo id s.history := by
    intro id apart
    rw [answerTo_responded, if_neg (fun both => apart both.2.symm), Option.or_none]
  have uncalled : ∀ i, i ≠ request →
      responses i [.response request (ClientCore.contents resp).1 (ClientCore.contents resp).2] = [] := by
    intro i apart
    simp [responses, apart.symm]
  rw [inbound]
  constructor
  · intro id i
    rw [issued_responded]
    by_cases same : id = resp.id
    · rw [same, AList.lookup_erase, answered]
      simp
    · rw [AList.lookup_erase_ne same, others id same]
      exact books.pending id i
  · intro i id found
    rw [issued_responded] at found
    rw [responses_append, books.answered i id found]
    by_cases same : id = resp.id
    · subst same
      have its : i = request := Option.some_inj.1 (((books.pending _ i).2 ⟨found, unanswered⟩).symm.trans waits)
      rw [unanswered, answered, its]
      simp [responses]
    · have apart : i ≠ request := by
        rintro rfl
        exact same (Option.some_inj.1 (found.symm.trans asked))
      rw [others id same, uncalled i apart, List.append_nil]
  · intro i beyond
    rw [issued_responded] at beyond
    have below := (List.getElem?_eq_some_iff.1 asked).1
    have apart : i ≠ request := Nat.ne_of_gt (Nat.lt_of_lt_of_le below beyond)
    rw [responses_append, books.silent i beyond, uncalled i apart, List.append_nil]

theorem respond_sound (sound : Sound s) (resp : ResponseMsg) : Sound (s.inbound (.response resp)) := by
  have unmoved : (s.inbound (.response resp)).core.nextId = s.core.nextId := by
    show (s.core.handleInbound (.response resp)).2.nextId = s.core.nextId
    unfold ClientCore.handleInbound
    dsimp only
    split <;> rfl
  have history : (s.inbound (.response resp)).history = s.history ++ [.responded resp] := rfl
  constructor
  · exact sound.numbered
  · rw [unmoved]
    exact sound.next
  · rw [history, issued_responded]
    exact sound.among
  · intro few
    cases waits : s.core.pending.lookup resp.id with
    | none => exact (sound.books few).respond_unknown resp waits
    | some request => exact (sound.books few).respond_pending resp waits

/-- Only a response moves the pending map and calls response listeners. -/
theorem handleInbound_quiet (msg : Message) (other : ∀ resp, msg ≠ .response resp) (core : ClientCore) :
    (core.handleInbound msg).2.pending = core.pending ∧ (core.handleInbound msg).2.nextId = core.nextId ∧
    ∀ i, responses i (core.handleInbound msg).1.1 = [] := by
  cases msg with
  | response resp => exact absurd rfl (other resp)
  | event event => simp [ClientCore.handleInbound, responses]
  | request req =>
    unfold ClientCore.handleInbound
    dsimp only
    split <;> simp [responses]
  | streamOpen opened => simp [ClientCore.handleInbound, responses]
  | stream frame =>
    unfold ClientCore.handleInbound
    dsimp only
    split <;> simp [responses]
  | streamEnd ended =>
    unfold ClientCore.handleInbound
    dsimp only
    split <;> simp [responses]

theorem inbound_sound (sound : Sound s) (msg : Message) : Sound (s.inbound msg) := by
  by_cases response : ∃ resp, msg = .response resp
  · obtain ⟨resp, rfl⟩ := response
    exact respond_sound sound resp
  · have other : ∀ resp, msg ≠ .response resp := fun resp same => response ⟨resp, same⟩
    obtain ⟨pending, nextId, silent⟩ := handleInbound_quiet msg other s.core
    have history : (s.inbound msg).history = s.history := by
      unfold Client.inbound
      cases msg with
      | response resp => exact absurd rfl (other resp)
      | _ => rfl
    have uncalled : ∀ i, responses i (s.inbound msg).calls = responses i s.calls := by
      intro i
      show responses i (s.calls ++ (s.core.handleInbound msg).1.1) = responses i s.calls
      rw [responses_append, silent, List.append_nil]
    have quiet : Quiet s (s.inbound msg) := ⟨pending, history, uncalled⟩
    exact quiet.sound nextId rfl sound

theorem step_sound (codec : Codec Message) {label : Label} (sound : Sound s) (taken : step codec s label = some t) :
    Sound t := by
  cases label with
  | request name payload =>
    cases taken
    exact request_sound sound name payload
  | event name payload =>
    cases taken
    exact Quiet.allocating_sound _ ⟨rfl, rfl, fun _ => rfl⟩ rfl sound
  | datagram name payload =>
    cases taken
    exact Quiet.allocating_sound _ ⟨rfl, rfl, fun _ => rfl⟩ rfl sound
  | openStream =>
    cases taken
    exact Quiet.allocating_sound _ ⟨rfl, rfl, fun _ => rfl⟩ rfl sound
  | inbound msg =>
    cases taken
    exact inbound_sound sound msg
  | _ =>
    cases taken
    exact Quiet.sound (s := s) ⟨rfl, rfl, fun _ => rfl⟩ rfl rfl sound

theorem reachable_sound (codec : Codec Message) (reached : Reachable (step codec) .init s) : Sound s :=
  reached.invariant init_sound (fun _ _ _ => step_sound codec)

/-- The ids allocated are distinct, the pending map holds the requests not yet
answered, and the response listener of a request is called once, with the first
response that came after the request. -/
theorem requests_answered_once (codec : Codec Message) (reached : Reachable (step codec) .init s)
    (few : s.allocated.length < 2 ^ 64) :
    s.allocated.Nodup ∧
    (∀ id i, s.core.pending.lookup id = some i ↔
      (issued s.history)[i]? = some id ∧ answerTo id s.history = none) ∧
    (∀ i id, (issued s.history)[i]? = some id →
      responses i s.calls = ((answerTo id s.history).map ClientCore.contents).toList) ∧
    ∀ i, (issued s.history).length ≤ i → responses i s.calls = [] := by
  have sound := reachable_sound codec reached
  have books := sound.books few
  exact ⟨sound.nodup few, books.pending, books.answered, books.silent⟩

/-- Responses out of order, repeated and unknown. -/
private def shuffled : List Label :=
  [.request "first" [], .openStream, .request "second" [],
    .inbound (.response ⟨3, .success, none, [7]⟩), .inbound (.response ⟨3, .success, none, [8]⟩),
    .inbound (.response ⟨9, .success, none, []⟩), .inbound (.response ⟨1, .error, some "no", [9]⟩)]

theorem requests_answered_once_shuffled :
    ∃ s, Reachable (step wire) .init s ∧ s.allocated.Nodup ∧
      responses 1 s.calls = [([7], none)] ∧ responses 0 s.calls = [([], some "no")] := by
  obtain ⟨s, ran⟩ : ∃ s, run (step wire) .init shuffled = some s := ⟨_, rfl⟩
  have few : s.allocated.length < 2 ^ 64 := by
    cases ran
    decide
  obtain ⟨distinct, -, answered, -⟩ := requests_answered_once wire ⟨shuffled, ran⟩ few
  refine ⟨s, ⟨shuffled, ran⟩, distinct, ?_, ?_⟩
  · rw [answered 1 3 (by cases ran; rfl)]
    cases ran
    rfl
  · rw [answered 0 1 (by cases ran; rfl)]
    cases ran
    rfl

end EchoStream.Core.StateMachine
