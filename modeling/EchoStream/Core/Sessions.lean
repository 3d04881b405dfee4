import Mathlib.Data.List.Nodup
import EchoStream.Foundation.Tasks
import EchoStream.Proto.Messages
import EchoStream.Core.Pick

/-! The list of sessions of a client, with the calls and the receive loops that change it
and use it, section by section. Only the loop of an auxiliary session takes something out
of the list, by the id, and `reconnect` puts a new session in place of the whole list. -/

namespace EchoStream.Core.Sessions
open Foundation.Run Foundation.Tasks
open Proto.Messages (Error)

variable {κ : Type}

/-- Sessions have numbers in the order in which they took their ids, the first being zero;
`conns` are their connections. The sessions in `shut` were closed, those in `spawned` have
a loop that is still to start, with its flag `primary`, and `installed` is the primary
session put in last. -/
structure Client (κ : Type) where
  conns : List κ
  sessions : List Nat
  nextSession : UInt64
  connected : Bool
  closed : Bool
  shut : List Nat
  spawned : List (Nat × Bool)
  installed : Nat
  panicked : Bool

/-- Ids begin with one and have 64 bits. -/
def sessionId (k : Nat) : UInt64 := UInt64.ofNat (k + 1)

def fromEndpoints (conns : List κ) : Client κ where
  conns
  sessions := List.range conns.length
  nextSession := 0
  connected := true
  closed := false
  shut := []
  spawned := (List.range conns.length).map (fun k => (k, k == 0))
  installed := 0
  panicked := false

def build (conns : List κ) : Except Error (Client κ) :=
  if conns = [] then .error (.invalidParameter "未指定连接（endpoint() / endpoints() / from_endpoint()）")
  else .ok (fromEndpoints conns)

/-- To unwrap nothing is a panic. -/
def Client.unwrap {α : Type} (s : Client κ) (found : Option α) (update : α → Client κ) : Client κ :=
  match found with
  | none => { s with panicked := true }
  | some value => update value

def session : Task (Client κ) (Option Nat) :=
  .step (fun s => s.unwrap s.sessions.head? (fun _ => s)) (fun s => .done s.sessions.head?)

def pick : Task (Client κ) (Option Nat) :=
  .step (fun s => s.unwrap (Pick.pick s.sessions s.nextSession) (fun (_, nextSession) => { s with nextSession }))
    (fun s => .done ((Pick.pick s.sessions s.nextSession).map Prod.fst))

/-- The next id goes to a session on the connection. -/
def nextSessionId (conn : κ) : Task (Client κ) Nat :=
  .step (fun s => { s with conns := s.conns ++ [conn] }) (fun s => .done s.conns.length)

def install (new : Nat) : Task (Client κ) (List Nat) :=
  .step (fun s => { s with sessions := [new], installed := new }) (fun s => .done s.sessions)

def closeAll : List Nat → Task (Client κ) Unit
  | [] => .done ()
  | k :: rest => .step (fun s => { s with shut := s.shut ++ [k] }) (fun _ => closeAll rest)

def spawn (k : Nat) (primary : Bool) : Task (Client κ) Unit :=
  .act (fun s => { s with spawned := s.spawned ++ [(k, primary)] })

def reconnect (conn : κ) : Task (Client κ) Unit := do
  match ← session with
  | none => pure ()
  | some _ =>
      .act (fun s => { s with closed := false })
      let new ← nextSessionId conn
      let old ← install new
      closeAll old
      .act (fun s => { s with connected := true })
      spawn new true

def close : Task (Client κ) Unit := do
  .act (fun s => { s with closed := true })
  .act (fun s => { s with connected := false })
  let sessions ← .read (fun s => s.sessions)
  closeAll sessions

/-- What a loop does when it ends, which it may do at any time. -/
def receiveLoop (k : Nat) (primary : Bool) : Task (Client κ) Unit :=
  if primary then .act (fun s => { s with connected := false })
  else do
    let closed ← .read (fun s => s.closed)
    if closed then pure ()
    else .act (fun s => { s with sessions := s.sessions.filter (fun other => sessionId other ≠ sessionId k) })

def runtime : Task (Client κ) Unit :=
  .step (fun s => { s with spawned := s.spawned.tail })
    (fun s =>
      match s.spawned.head? with
      | none => .done ()
      | some (k, primary) => receiveLoop k primary)

inductive Call (κ : Type) where
  | reconnect (conn : κ)
  | close
  | session
  | pick
  | runtime

def start : Call κ → Task (Client κ) Unit
  | .reconnect conn => reconnect conn
  | .close => close
  | .session => do
      let _ ← session
  | .pick => do
      let _ ← pick
  | .runtime => runtime

/-- What the calls of a client rely on. -/
structure Kept (s : Client κ) : Prop where
  some_session : s.sessions ≠ []
  distinct : (s.sessions.map sessionId).Nodup
  first : s.sessions.head? = some s.installed
  picks : ∀ cursor, ∃ picked, Pick.pick s.sessions cursor = some picked
  calm : s.panicked = false

/-- The sessions `1` up to `pool` are auxiliary. As long as the ids of all sessions made
so far differ, the list begins with the session installed last. -/
structure Sound (pool : Nat) (s : Client κ) : Prop where
  built : pool ≤ s.conns.length
  below : ∀ k ∈ s.sessions, k < s.conns.length
  distinct : s.sessions.Nodup
  lead : s.installed = 0 ∨ pool ≤ s.installed
  auxiliary : ∀ k, (k, false) ∈ s.spawned → 0 < k ∧ k < pool
  led : s.conns.length ≤ 2 ^ 64 → s.sessions.head? = some s.installed
  calm : s.conns.length ≤ 2 ^ 64 → s.panicked = false

theorem sessionId_inj {j k : Nat} (one : j < 2 ^ 64) (other : k < 2 ^ 64) (same : sessionId j = sessionId k) : j = k := by
  have equal := congrArg UInt64.toNat same
  rw [sessionId, sessionId, UInt64.toNat_ofNat', UInt64.toNat_ofNat'] at equal
  omega

variable {pool : Nat} {s t : Client κ}

theorem Sound.kept (sound : Sound pool s) (few : s.conns.length ≤ 2 ^ 64) : Kept s := by
  have first := sound.led few
  have some_session : s.sessions ≠ [] := by
    intro none
    rw [none] at first
    cases first
  have distinct : (s.sessions.map sessionId).Nodup := by
    refine List.Nodup.map_on ?_ sound.distinct
    intro j one k other same
    exact sessionId_inj (Nat.lt_of_lt_of_le (sound.below j one) few) (Nat.lt_of_lt_of_le (sound.below k other) few) same
  exact ⟨some_session, distinct, first, Pick.pick_returns some_session, sound.calm few⟩

/-- What the flags, the cursor and the closed sessions are not part of. -/
def Client.core (s : Client κ) : List κ × List Nat × List (Nat × Bool) × Nat × Bool :=
  (s.conns, s.sessions, s.spawned, s.installed, s.panicked)

theorem Sound.flags (sound : Sound pool s) (same : t.core = s.core) : Sound pool t := by
  simp only [Client.core, Prod.mk.injEq] at same
  obtain ⟨conns, sessions, spawned, installed, panicked⟩ := same
  constructor
  · rw [conns]
    exact sound.built
  · rw [conns, sessions]
    exact sound.below
  · rw [sessions]
    exact sound.distinct
  · rw [installed]
    exact sound.lead
  · rw [spawned]
    exact sound.auxiliary
  · rw [conns, sessions, installed]
    exact sound.led
  · rw [conns, panicked]
    exact sound.calm

/-- While the ids differ nothing is unwrapped that is not there. -/
theorem Sound.unwrap {α : Type} {found : Option α} {update : α → Client κ} (sound : Sound pool s)
    (there : s.conns.length ≤ 2 ^ 64 → found ≠ none) (updated : ∀ value, Sound pool (update value)) :
    Sound pool (s.unwrap found update) := by
  cases found with
  | none =>
    exact ⟨sound.built, sound.below, sound.distinct, sound.lead, sound.auxiliary, sound.led,
      fun few => absurd rfl (there few)⟩
  | some value => exact updated value

theorem unwrap_conns {α : Type} {found : Option α} {update : α → Client κ}
    (same : ∀ value, (update value).conns = s.conns) : (s.unwrap found update).conns = s.conns := by
  cases found with
  | none => rfl
  | some value => exact same value

theorem Sound.numbers (sound : Sound pool s) (conn : κ) : Sound pool { s with conns := s.conns ++ [conn] } := by
  have more : s.conns.length ≤ (s.conns ++ [conn]).length := by
    rw [List.length_append]
    exact Nat.le_add_right _ _
  exact ⟨Nat.le_trans sound.built more, fun k member => Nat.lt_of_lt_of_le (sound.below k member) more, sound.distinct,
    sound.lead, sound.auxiliary, fun few => sound.led (Nat.le_trans more few), fun few => sound.calm (Nat.le_trans more few)⟩

theorem Sound.installs {new : Nat} (sound : Sound pool s) (made : new < s.conns.length) (fresh : pool ≤ new) :
    Sound pool { s with sessions := [new], installed := new } := by
  refine ⟨sound.built, ?_, List.nodup_singleton new, Or.inr fresh, sound.auxiliary, fun _ => rfl, sound.calm⟩
  intro k member
  rw [List.mem_singleton.1 member]
  exact made

/-- What an auxiliary loop takes out is not the session installed last. -/
theorem Sound.removes {k : Nat} (sound : Sound pool s) (positive : 0 < k) (within : k < pool) :
    Sound pool { s with sessions := s.sessions.filter (fun other => sessionId other ≠ sessionId k) } := by
  refine ⟨sound.built, ?_, sound.distinct.filter _, sound.lead, sound.auxiliary, ?_, sound.calm⟩
  · intro j member
    exact sound.below j (List.mem_filter.1 member).1
  · intro few
    obtain ⟨rest, same⟩ := List.head?_eq_some_iff.1 (sound.led few)
    have made : s.installed < s.conns.length := sound.below _ (by rw [same]; exact List.mem_cons_self)
    have differ : sessionId s.installed ≠ sessionId k := by
      intro equal
      have one : s.installed < 2 ^ 64 := Nat.lt_of_lt_of_le made few
      have other : k < 2 ^ 64 := Nat.lt_of_lt_of_le within (Nat.le_trans sound.built few)
      have clash := sessionId_inj one other equal
      have lead := sound.lead
      omega
    show (s.sessions.filter _).head? = _
    rw [same, List.filter_cons_of_pos (p := fun other => decide (sessionId other ≠ sessionId k)) (decide_eq_true differ)]
    rfl

/-- Between the sections of all tasks the list is sound, and ids are not given back. -/
def contract (pool : Nat) : Contract (Client κ) where
  inv := Sound pool
  grows s t := s.conns.length ≤ t.conns.length
  refl _ := Nat.le_refl _
  trans _ _ _ := Nat.le_trans

abbrev Keeps (pool : Nat) (task : Task (Client κ) Unit) (s : Client κ) : Prop :=
  Safe (contract pool) (fun _ _ => True) task s

theorem unwrap_safe {α β : Type} {found : Client κ → Option α} {update : Client κ → α → Client κ} {view : Client κ → β}
    (there : ∀ s, Kept s → found s ≠ none) (flags : ∀ s value, (update s value).core = s.core) (s : Client κ) :
    Safe (contract pool) (fun _ _ => True)
      (.step (fun s => s.unwrap (found s) (update s)) (fun s => .done (view s))) s := by
  intro later _ sound
  have conns : (later.unwrap (found later) (update later)).conns = later.conns :=
    unwrap_conns fun value => congrArg Prod.fst (flags later value)
  refine ⟨sound.unwrap (fun few => there later (sound.kept few)) fun value => sound.flags (flags later value), ?_,
    fun _ _ _ => trivial⟩
  exact Nat.le_of_eq (congrArg List.length conns.symm)

theorem session_safe (s : Client κ) : Safe (contract pool) (fun _ _ => True) session s := by
  refine unwrap_safe ?_ (fun _ _ => rfl) s
  intro s kept
  rw [kept.first]
  exact Option.some_ne_none _

theorem pick_safe (s : Client κ) : Safe (contract pool) (fun _ _ => True) pick s := by
  have cursor (s : Client κ) (picked : Nat × UInt64) : Client.core { s with nextSession := picked.2 } = s.core := rfl
  refine unwrap_safe ?_ cursor s
  intro s kept
  obtain ⟨picked, picks⟩ := kept.picks s.nextSession
  rw [picks]
  exact Option.some_ne_none _

theorem closeAll_safe (old : List Nat) (s : Client κ) : Keeps pool (closeAll old) s := by
  induction old generalizing s with
  | nil => exact fun _ _ _ => trivial
  | cons k rest ih => exact fun later _ sound => ⟨sound.flags rfl, Nat.le_refl _, ih _⟩

theorem reconnect_safe (conn : κ) (s : Client κ) : Keeps pool (reconnect conn) s := by
  refine (session_safe s).bind ?_
  intro first here _ _
  cases first with
  | none => exact fun _ _ _ => trivial
  | some _ =>
    intro opened _ sound
    refine ⟨sound.flags rfl, Nat.le_refl _, ?_⟩
    intro numbered _ sound
    have fresh : pool ≤ numbered.conns.length := sound.built
    have more : numbered.conns.length < (numbered.conns ++ [conn]).length := by
      rw [List.length_append]
      exact Nat.lt_succ_self _
    refine ⟨sound.numbers conn, Nat.le_of_lt more, ?_⟩
    intro installing grown sound
    refine ⟨sound.installs (Nat.lt_of_lt_of_le more grown) fresh, Nat.le_refl _, ?_⟩
    refine (closeAll_safe _ _).bind ?_
    intro _ closed _ _ raised _ sound
    refine ⟨sound.flags rfl, Nat.le_refl _, ?_⟩
    intro spawning _ sound
    refine ⟨?_, Nat.le_refl _, fun _ _ _ => trivial⟩
    refine ⟨sound.built, sound.below, sound.distinct, sound.lead, ?_, sound.led, sound.calm⟩
    intro k member
    rcases List.mem_append.1 member with before | new
    · exact sound.auxiliary k before
    · cases List.mem_singleton.1 new

theorem close_safe (s : Client κ) : Keeps pool close s := by
  intro marked _ sound
  refine ⟨sound.flags rfl, Nat.le_refl _, ?_⟩
  intro lowered _ sound
  refine ⟨sound.flags rfl, Nat.le_refl _, ?_⟩
  intro looked _ sound
  exact ⟨sound, Nat.le_refl _, closeAll_safe _ _⟩

theorem receiveLoop_safe {k : Nat} {primary : Bool} (auxiliary : primary = false → 0 < k ∧ k < pool) (s : Client κ) :
    Keeps pool (receiveLoop k primary) s := by
  cases primary with
  | true => exact fun later _ sound => ⟨sound.flags rfl, Nat.le_refl _, fun _ _ _ => trivial⟩
  | false =>
    obtain ⟨positive, within⟩ := auxiliary rfl
    intro looked _ sound
    refine ⟨sound, Nat.le_refl _, ?_⟩
    show Safe _ _ (if looked.closed then _ else _) _
    split
    · exact fun _ _ _ => trivial
    · exact fun later _ sound => ⟨sound.removes positive within, Nat.le_refl _, fun _ _ _ => trivial⟩

theorem runtime_safe (s : Client κ) : Keeps pool runtime s := by
  intro later _ sound
  refine ⟨?_, Nat.le_refl _, ?_⟩
  · exact ⟨sound.built, sound.below, sound.distinct, sound.lead, fun k member => sound.auxiliary k (List.mem_of_mem_tail member),
      sound.led, sound.calm⟩
  · cases spawned : later.spawned.head? with
    | none =>
      simp only [spawned]
      exact fun _ _ _ => trivial
    | some entry =>
      obtain ⟨k, primary⟩ := entry
      simp only [spawned]
      apply receiveLoop_safe
      intro other
      rw [other] at spawned
      exact sound.auxiliary k (List.mem_of_head? spawned)

theorem start_safe (call : Call κ) (s : Client κ) : Keeps pool (start call) s := by
  cases call with
  | reconnect conn => exact reconnect_safe conn s
  | close => exact close_safe s
  | session => exact (session_safe s).bind fun _ _ _ _ _ _ _ => trivial
  | pick => exact (pick_safe s).bind fun _ _ _ _ _ _ _ => trivial
  | runtime => exact runtime_safe s

theorem build_sound {conns : List κ} {client : Client κ} (built : build conns = .ok client) : Sound conns.length client := by
  unfold build at built
  split at built
  · cases built
  · rename_i some_conn
    cases built
    have positive : 0 < conns.length := List.length_pos_iff.2 some_conn
    refine ⟨Nat.le_refl _, fun k member => List.mem_range.1 member, List.nodup_range, Or.inl rfl, ?_, ?_, fun _ => rfl⟩
    · intro k member
      obtain ⟨j, within, same⟩ := List.mem_map.1 member
      obtain ⟨rfl, zero⟩ := Prod.mk.inj same
      refine ⟨Nat.pos_of_ne_zero ?_, List.mem_range.1 within⟩
      rintro rfl
      cases zero
    · intro _
      obtain ⟨more, same⟩ : ∃ more, conns.length = more + 1 := ⟨conns.length - 1, by omega⟩
      show (List.range conns.length).head? = some 0
      rw [same, List.range_succ_eq_map]
      rfl

/-- Whatever calls of the client and ends of loops come between each other, the list
begins with the session installed last and no call panics, as long as no more ids were
taken than there are. -/
theorem sessions_kept {conns : List κ} {client : Client κ} (built : build conns = .ok client) {last : Pool (Client κ)}
    (reached : Reachable (move start) ⟨client, []⟩ last) (few : last.shared.conns.length ≤ 2 ^ 64) : Kept last.shared :=
  Sound.kept (pool_invariant (fun call s _ => start_safe call s) rfl (build_sound built) reached) few

/-- The auxiliary connection of two ends while the client reconnects. -/
private def renewed : List (Move (Call Nat)) :=
  [.launch .runtime, .advance 0, .launch .runtime, .advance 1, .launch (.reconnect 7), .advance 2, .advance 1,
    .advance 2, .advance 1, .advance 2, .advance 2, .launch .pick, .advance 3]

theorem sessions_kept_two :
    ∃ last : Pool (Client Nat), last.shared.sessions = [2] ∧ Kept last.shared := by
  have built : build [5, 6] = .ok (fromEndpoints [5, 6]) := rfl
  have ran : run (move start) ⟨fromEndpoints [5, 6], []⟩ renewed =
    some ((run (move start) ⟨fromEndpoints [5, 6], []⟩ renewed).getD ⟨fromEndpoints [5, 6], []⟩) := rfl
  exact ⟨_, rfl, sessions_kept built ⟨renewed, ran⟩ (by decide)⟩

theorem closeAll_eval (old : List Nat) (s : Client κ) : ((closeAll old).eval s).2 = { s with shut := s.shut ++ old } := by
  induction old generalizing s with
  | nil =>
    rw [List.append_nil]
    rfl
  | cons k rest ih =>
    rw [closeAll, Task.eval_step, ih, List.append_assoc]
    rfl

theorem reconnect_eval (conn : κ) (some_session : s.sessions ≠ []) :
    ((reconnect conn).eval s).2.conns = s.conns ++ [conn] ∧ ((reconnect conn).eval s).2.sessions = [s.conns.length] := by
  obtain ⟨k, rest, same⟩ := List.exists_cons_of_ne_nil some_session
  simp [reconnect, session, Client.unwrap, nextSessionId, install, spawn, same, closeAll_eval]

theorem reconnects_eval (n : Nat) (conn : κ) (some_session : s.sessions ≠ []) :
    let t := (List.replicate (n + 1) (Call.reconnect conn)).foldl (fun s call => ((start call).eval s).2) s
    t.conns.length = s.conns.length + (n + 1) ∧ t.sessions = [s.conns.length + n] := by
  induction n with
  | zero =>
    obtain ⟨conns, sessions⟩ := reconnect_eval conn some_session
    refine ⟨?_, sessions⟩
    show ((reconnect conn).eval s).2.conns.length = _
    rw [conns, List.length_append]
    rfl
  | succ n ih =>
    obtain ⟨length, sessions⟩ := ih
    have there := List.ne_nil_of_mem (sessions ▸ List.mem_singleton_self (s.conns.length + n))
    obtain ⟨conns, installed⟩ := reconnect_eval conn there
    rw [List.replicate_succ', List.foldl_append]
    refine ⟨?_, ?_⟩
    · show ((reconnect conn).eval _).2.conns.length = _
      rw [conns, List.length_append, length]
      rfl
    · show ((reconnect conn).eval _).2.sessions = _
      rw [installed, length]

private def lingering : Pool (Client Unit) :=
  ⟨{ fromEndpoints [(), ()] with spawned := [] },
    [receiveLoop 0 true, .act (fun s => { s with sessions := s.sessions.filter (fun other => sessionId other ≠ sessionId 1) })]⟩

/-- The loop waits until the client has reconnected so often that its id comes again, and
takes the new session out. -/
theorem ids_wrap : ∃ client last, build [(), ()] = .ok client ∧
    Reachable (move start) (⟨client, []⟩ : Pool (Client Unit)) last ∧ last.shared.sessions = [] := by
  have found : Reachable (move start) ⟨fromEndpoints [(), ()], []⟩ lingering :=
    ⟨[.launch .runtime, .advance 0, .launch .runtime, .advance 1, .advance 1], rfl⟩
  obtain ⟨n, often⟩ : ∃ n, n + 1 = 2 ^ 64 := ⟨2 ^ 64 - 1, by decide⟩
  obtain ⟨mid, ⟨labels, ran⟩, shared, left⟩ := reachable_evals found (List.replicate (n + 1) (.reconnect ()))
  obtain ⟨_, sessions⟩ := reconnects_eval (s := lingering.shared) n () (by decide)
  obtain ⟨others, tasks⟩ := left
  have again : sessionId (2 + n) = sessionId 1 := by
    apply UInt64.toNat_inj.1
    rw [sessionId, sessionId, UInt64.toNat_ofNat', UInt64.toNat_ofNat']
    omega
  refine ⟨_, ⟨{ mid.shared with sessions := mid.shared.sessions.filter (fun other => sessionId other ≠ sessionId 1) },
    mid.tasks.set 1 (.done ())⟩, rfl, ⟨labels ++ [.advance 1], ?_⟩, ?_⟩
  · rw [run_append, ran, Option.bind_some, run_cons, move, ← tasks]
    rfl
  · show mid.shared.sessions.filter _ = []
    rw [shared, sessions]
    show [2 + n].filter _ = []
    simp [again]

end EchoStream.Core.Sessions
