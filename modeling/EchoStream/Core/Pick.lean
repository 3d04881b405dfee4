import Mathlib.Algebra.Group.Nat.Defs
import Mathlib.Data.List.Count
import Mathlib.Data.List.Nodup
import Mathlib.Data.Option.Basic
import EchoStream.Core.Lifecycle

/-! The session a request goes to. A client takes those of its pool in turn, with
a cursor that only requests move. The pool itself changes as the life of the
client goes on: the loop of a session of the rest takes it out, that of the
primary one leaves it in. -/

namespace EchoStream.Core.Pick
open Foundation.Run Lifecycle

/-- The session a request went to, as it was then, and whether the loop of some
session of the pool was running. -/
structure Picked where
  session : Nat
  loop : Loop
  running : Bool

/-- `nextSession` is the cursor of the type `usize`. -/
structure Pool where
  client : Client
  nextSession : UInt64
  picked : List Picked

def Pool.init (more : Nat) : Pool := ⟨.init more, 0, []⟩

inductive Label where
  | client (label : Lifecycle.Label)
  | request

def pick (sessions : List Nat) (nextSession : UInt64) : Option (Nat × UInt64) :=
  if sessions.length ≤ 1 then sessions.head?.map (fun k => (k, nextSession))
  else sessions[nextSession.toNat % sessions.length]?.map (fun k => (k, nextSession + 1))

def runs (client : Client) (k : Nat) : Bool := (client.session k).loop = .running

def note (client : Client) (k : Nat) : Picked :=
  ⟨k, (client.session k).loop, client.sessions.any (runs client)⟩

def request (s : Pool) : Option Pool :=
  (pick s.client.sessions s.nextSession).map (fun (k, nextSession) =>
    { s with nextSession, picked := s.picked ++ [note s.client k] })

def step : Step Pool Label
  | s, .client label => (Lifecycle.step s.client label).map (fun client => { s with client })
  | s, .request => request s

/-- A request can be made, and each one made while the loop of some session of the
pool was running went to such a session. -/
def Faithful (s : Pool) : Prop :=
  (∃ t, request s = some t) ∧ ∀ picked ∈ s.picked, picked.running = true → picked.loop = .running

/-- The pool holds a session whose loop is running and one whose loop is not. -/
def Mixed (client : Client) : Prop :=
  (∃ k ∈ client.sessions, (client.session k).loop = .running) ∧
    ∃ k ∈ client.sessions, (client.session k).loop ≠ .running

/-- No request is made while the pool is mixed. -/
def Uniform (s : Pool) : Label → Prop
  | .client _ => True
  | .request => ¬ Mixed s.client

def Led (client : Client) : Prop := ∃ k ∈ client.sessions, (client.session k).primary = true

variable {s t : Pool} {client next : Client}

theorem step_led {label : Lifecycle.Label} (led : Led client)
    (stepped : Lifecycle.step client label = some next) : Led next := by
  rcases step_pool stepped with trims | ⟨_, _, _, renews⟩
  · obtain ⟨k, member, primary⟩ := led
    refine ⟨k, ?_, (trims.primary k).trans primary⟩
    rcases trims.pool with same | ⟨j, secondary, same⟩
    · rw [same]
      exact member
    · have differ : k ≠ j := by
        rintro rfl
        rw [secondary] at primary
        cases primary
      rw [same]
      exact List.mem_filter.mpr ⟨member, decide_eq_true differ⟩
  · refine ⟨client.count, ?_, renews.new⟩
    rw [renews.pool]
    exact List.mem_singleton_self _

theorem pick_member {sessions : List Nat} {nextSession after : UInt64} {k : Nat}
    (picks : pick sessions nextSession = some (k, after)) : k ∈ sessions := by
  unfold pick at picks
  split at picks
  · obtain ⟨j, first, same⟩ := Option.map_eq_some_iff.mp picks
    cases same
    exact List.mem_of_head? first
  · obtain ⟨j, found, same⟩ := Option.map_eq_some_iff.mp picks
    cases same
    exact List.mem_of_getElem? found

theorem pick_turn {sessions : List Nat} {nextSession : UInt64} {k : Nat} (two : 1 < sessions.length)
    (turn : sessions[nextSession.toNat % sessions.length]? = some k) :
    pick sessions nextSession = some (k, nextSession + 1) := by
  rw [pick, if_neg (by omega), turn]
  rfl

theorem turn_returns {sessions : List Nat} (some_session : 0 < sessions.length) (nextSession : UInt64) :
    ∃ k, sessions[nextSession.toNat % sessions.length]? = some k :=
  ⟨_, List.getElem?_eq_getElem (Nat.mod_lt _ some_session)⟩

theorem pick_returns {sessions : List Nat} (some_session : sessions ≠ []) (nextSession : UInt64) :
    ∃ picked, pick sessions nextSession = some picked := by
  by_cases two : 1 < sessions.length
  · obtain ⟨k, turn⟩ := turn_returns (Nat.zero_lt_of_lt two) nextSession
    exact ⟨_, pick_turn two turn⟩
  · obtain ⟨k, rest, rfl⟩ := List.exists_cons_of_ne_nil some_session
    refine ⟨(k, nextSession), ?_⟩
    rw [pick, if_pos (by omega)]
    rfl

theorem request_returns (led : Led s.client) : ∃ t, request s = some t := by
  obtain ⟨k, member, _⟩ := led
  obtain ⟨picked, picks⟩ := pick_returns (List.ne_nil_of_mem member) s.nextSession
  rw [request, picks]
  exact ⟨_, rfl⟩

theorem request_some (stepped : request s = some t) :
    ∃ k ∈ s.client.sessions, t.client = s.client ∧
      t.picked = s.picked ++ [note s.client k] := by
  obtain ⟨⟨k, after⟩, picks, same⟩ := Option.map_eq_some_iff.mp stepped
  cases same
  exact ⟨k, pick_member picks, rfl, rfl⟩

structure Sound (s : Pool) : Prop where
  led : Led s.client
  picked : ∀ picked ∈ s.picked, picked.running = true → picked.loop = .running

theorem Sound.faithful (sound : Sound s) : Faithful s :=
  ⟨request_returns sound.led, sound.picked⟩

theorem init_sound (more : Nat) : Sound (.init more) := by
  constructor
  · exact ⟨0, List.mem_range.mpr (Nat.succ_pos more), rfl⟩
  · intro picked member
    cases member

theorem any_runs : client.sessions.any (runs client) = true ↔
    ∃ k ∈ client.sessions, (client.session k).loop = .running := by
  simp [runs]

theorem request_sound (sound : Sound s) (uniform : ¬ Mixed s.client) (stepped : request s = some t) : Sound t := by
  obtain ⟨k, member, same, logged⟩ := request_some stepped
  constructor
  · rw [same]
    exact sound.led
  · intro picked among running
    rw [logged, List.mem_append, List.mem_singleton] at among
    rcases among with before | rfl
    · exact sound.picked picked before running
    · by_contra dead
      exact uniform ⟨any_runs.mp running, k, member, dead⟩

theorem step_sound (s : Pool) (label : Label) (t : Pool) (sound : Sound s) (uniform : Uniform s label)
    (stepped : step s label = some t) : Sound t := by
  cases label with
  | client label =>
    obtain ⟨client, changed, same⟩ := Option.map_eq_some_iff.mp stepped
    cases same
    exact ⟨step_led sound.led changed, sound.picked⟩
  | request => exact request_sound sound uniform stepped

theorem request_turn {k : Nat} (two : 1 < s.client.sessions.length)
    (turn : s.client.sessions[s.nextSession.toNat % s.client.sessions.length]? = some k) :
    request s = some { s with nextSession := s.nextSession + 1, picked := s.picked ++ [note s.client k] } := by
  rw [request, pick_turn two turn]
  rfl

/-- A pool with two sessions at least serves any number of requests, and the
cursor counts them. -/
theorem requests_run (two : 1 < s.client.sessions.length) (n : Nat) :
    ∃ t, run step s (List.replicate n .request) = some t ∧ t.client = s.client ∧
      t.nextSession = s.nextSession + UInt64.ofNat n := by
  induction n with
  | zero => exact ⟨s, rfl, rfl, (UInt64.add_zero _).symm⟩
  | succ n ih =>
    obtain ⟨mid, ran, same, counted⟩ := ih
    rw [← same] at two
    obtain ⟨k, turn⟩ := turn_returns (Nat.zero_lt_of_lt two) mid.nextSession
    refine ⟨{ mid with nextSession := mid.nextSession + 1, picked := mid.picked ++ [note mid.client k] },
      ?_, same, ?_⟩
    · rw [List.replicate_succ', run_append, ran, Option.bind_some, run_cons, step, request_turn two turn]
      rfl
    · change mid.nextSession + 1 = _
      rw [counted, UInt64.add_assoc, UInt64.ofNat_add]
      rfl

theorem requests_reach (two : 1 < s.client.sessions.length) (fits : s.client.sessions.length ≤ 2 ^ 64)
    {k : Nat} (member : k ∈ s.client.sessions) :
    ∃ n t, run step s (List.replicate n .request) = some t ∧ note s.client k ∈ t.picked := by
  obtain ⟨i, inside, place⟩ := List.getElem_of_mem member
  let steps := UInt64.ofNat i - s.nextSession
  have sum : s.nextSession + steps = UInt64.ofNat i := by
    rw [UInt64.add_comm, UInt64.sub_add_cancel]
  obtain ⟨mid, ran, same, counted⟩ := requests_run two steps.toNat
  have turn : mid.client.sessions[mid.nextSession.toNat % mid.client.sessions.length]? = some k := by
    rw [counted, UInt64.ofNat_toNat, sum, UInt64.toNat_ofNat', Nat.mod_eq_of_lt (Nat.lt_of_lt_of_le inside fits),
      same, Nat.mod_eq_of_lt inside, List.getElem?_eq_getElem inside, place]
  rw [← same] at two
  refine ⟨steps.toNat + 1,
    { mid with nextSession := mid.nextSession + 1, picked := mid.picked ++ [note mid.client k] }, ?_, ?_⟩
  · rw [List.replicate_succ', run_append, ran, Option.bind_some, run_cons, step, request_turn two turn]
    rfl
  · rw [same]
    exact List.mem_append_right _ (List.mem_singleton_self _)

theorem Mixed.two (mixed : Mixed client) : 1 < client.sessions.length := by
  obtain ⟨⟨k, member, running⟩, j, other, dead⟩ := mixed
  by_contra one
  obtain ⟨i, single⟩ := List.length_eq_one_iff.mp (Nat.le_antisymm (by omega) (List.length_pos_of_mem member))
  rw [single, List.mem_singleton] at member other
  rw [member] at running
  rw [other] at dead
  exact dead running

theorem mixed_fails (mixed : Mixed s.client) (fits : s.client.sessions.length ≤ 2 ^ 64) :
    ∃ n, ¬ Always step Faithful s (List.replicate n .request) := by
  obtain ⟨k, member, dead⟩ := mixed.2
  obtain ⟨n, t, ran, among⟩ := requests_reach mixed.two fits member
  refine ⟨n, fun always => ?_⟩
  exact dead ((always.last ran).2 _ among (any_runs.mpr mixed.1))

/-- As long as no request is made while the pool is mixed, requests go to sessions
whose loop is running whenever the pool has one. From a mixed pool some number of
requests, with nothing else happening, takes one to a session whose loop is not.
The pool is a `Vec`, so that its length is a `usize`. -/
theorem picks_running (more : Nat) (labels : List Label) :
    (Guarded step Uniform (.init more) labels → Always step Faithful (.init more) labels) ∧
      ∀ s, run step (.init more) labels = some s → Mixed s.client → s.client.sessions.length ≤ 2 ^ 64 →
        ∃ n, ¬ Always step Faithful s (List.replicate n .request) := by
  constructor
  · intro guarded
    exact (guarded_always step_sound (init_sound more) guarded).mono (fun _ sound => sound.faithful)
  · intro s _ mixed fits
    exact mixed_fails mixed fits

/-- The session of the rest is lost and taken out between two requests. -/
theorem picks_running_secondary :
    Always step Faithful (.init 1)
      [.request, .client (.lose 1), .client (.leave 1), .client (.notify 1), .request] := by
  apply (picks_running 1 _).1
  refine .cons rfl ?_ (.cons rfl trivial (.cons rfl trivial (.cons rfl trivial (.cons rfl ?_ trivial))))
  · rintro ⟨_, k, member, dead⟩
    have known : k = 0 ∨ k = 1 := by simpa [Pool.init, Client.init, List.range_succ] using member
    rcases known with rfl | rfl
    · exact dead rfl
    · exact dead rfl
  · rintro ⟨_, k, member, dead⟩
    have known : k = 0 := by
      simpa [Pool.init, Client.init, Client.setLoop, Client.setSession, List.range_succ] using member
    rw [known] at dead
    exact dead rfl

/-- The primary connection of two is lost and everything that follows is done. -/
private def primaryLost : List Label :=
  [.client (.lose 0), .client (.leave 0), .client (.notify 0), .request]

/-- The next request still goes to the primary session. -/
theorem primary_still_picked : ¬ Always step Faithful (.init 1) primaryLost := by
  intro always
  have ran : run step (.init 1) primaryLost = some ((run step (.init 1) primaryLost).getD (.init 1)) := rfl
  have running := (always.last ran).2 ⟨0, .finished, true⟩ (List.mem_singleton_self _) rfl
  cases running

section Fairness

/-- How often a place comes up when so many numbers from `first` on are taken modulo the size. -/
def comes (size place first count : Nat) : Nat := (List.range' first count).countP (fun turn => turn % size = place)

variable {size place : Nat}

theorem comes_add (size place first count more : Nat) :
    comes size place first (count + more) = comes size place first count + comes size place (first + count) more := by
  rw [comes, ← List.range'_append_1, List.countP_append]
  rfl

theorem comes_one (size place first : Nat) : comes size place first 1 = if first % size = place then 1 else 0 := by
  simp [comes, List.range'_one, List.countP_singleton]

theorem comes_round (within : place < size) (first : Nat) : comes size place first size = 1 := by
  induction first with
  | zero =>
    have exact : ∀ turn ∈ List.range' 0 size, (decide (turn % size = place) = true ↔ (turn == place) = true) := by
      intro turn member
      rw [List.mem_range'_1] at member
      rw [Nat.mod_eq_of_lt (by omega), decide_eq_true_iff, beq_iff_eq]
    rw [comes, List.countP_congr exact, ← List.count_eq_countP, ← List.range_eq_range']
    exact List.count_eq_one_of_mem List.nodup_range (List.mem_range.mpr within)
  | succ first ih =>
    have front := comes_add size place first 1 size
    have back := comes_add size place first size 1
    have same : (first + size) % size = first % size := Nat.add_mod_right first size
    rw [comes_one, same] at back
    rw [comes_one, Nat.add_comm 1 size, back, ih] at front
    omega

/-- The places come up alike, but for one round that is not finished. -/
theorem comes_bounds (within : place < size) (first count : Nat) :
    count / size ≤ comes size place first count ∧ comes size place first count ≤ count / size + 1 := by
  induction count using Nat.strongRecOn generalizing first with
  | ind count ih =>
    by_cases part : count < size
    · have all := comes_add size place first count (size - count)
      rw [Nat.add_sub_of_le (Nat.le_of_lt part), comes_round within] at all
      rw [Nat.div_eq_of_lt part]
      omega
    · have positive : 0 < size := Nat.zero_lt_of_lt within
      obtain ⟨rest, rfl⟩ := Nat.exists_eq_add_of_le (Nat.le_of_not_lt part)
      obtain ⟨low, high⟩ := ih rest (by omega) (first + size)
      rw [comes_add, comes_round within, Nat.add_div_left rest positive]
      omega

def turns (size : Nat) : UInt64 → Nat → List Nat
  | _, 0 => []
  | cursor, count + 1 => cursor.toNat % size :: turns size (cursor + 1) count

theorem turns_add (size : Nat) (cursor : UInt64) (count more : Nat) :
    turns size cursor (count + more) = turns size cursor count ++ turns size (cursor + UInt64.ofNat count) more := by
  induction count generalizing cursor with
  | zero =>
    rw [Nat.zero_add, turns, List.nil_append]
    exact congrArg (fun start => turns size start more) (UInt64.add_zero cursor).symm
  | succ count ih =>
    have next : cursor + 1 + UInt64.ofNat count = cursor + UInt64.ofNat (count + 1) := by
      rw [UInt64.ofNat_add, UInt64.add_assoc, UInt64.add_comm 1]
      rfl
    rw [Nat.add_right_comm, turns, ih, turns, List.cons_append, next]

theorem turns_comes (size place : Nat) (cursor : UInt64) (count : Nat) (fits : cursor.toNat + count ≤ 2 ^ 64) :
    (turns size cursor count).count place = comes size place cursor.toNat count := by
  induction count generalizing cursor with
  | zero => rfl
  | succ count ih =>
    have first : (turns size cursor (count + 1)).count place =
        (turns size (cursor + 1) count).count place + comes size place cursor.toNat 1 := by
      rw [turns, List.count_cons, comes_one]
      simp only [beq_iff_eq]
    rw [first, Nat.add_comm count 1, comes_add, Nat.add_comm]
    congr 1
    by_cases last : count = 0
    · rw [last]
      rfl
    · have next : (cursor + 1).toNat = cursor.toNat + 1 := by
        rw [UInt64.toNat_add, UInt64.toNat_one]
        exact Nat.mod_eq_of_lt (by omega)
      rw [ih (cursor + 1) (by omega), next]

/-- With each time that the cursor comes round one more round may be left unfinished. -/
theorem turns_bounds (size : Nat) (cursor : UInt64) (count : Nat) : ∃ low, ∀ place < size,
    low ≤ (turns size cursor count).count place ∧
      (turns size cursor count).count place ≤ low + 1 + (cursor.toNat + count) / 2 ^ 64 := by
  induction count using Nat.strongRecOn generalizing cursor with
  | ind count ih =>
    have small : cursor.toNat < 2 ^ 64 := cursor.toNat_lt
    by_cases fits : cursor.toNat + count ≤ 2 ^ 64
    · refine ⟨count / size, fun place within => ?_⟩
      rw [turns_comes size place cursor count fits]
      obtain ⟨low, high⟩ := comes_bounds within cursor.toNat count
      exact ⟨low, Nat.le_add_right_of_le high⟩
    · obtain ⟨rest, split⟩ := Nat.exists_eq_add_of_le (show 2 ^ 64 - cursor.toNat ≤ count by omega)
      obtain ⟨low, bounds⟩ := ih rest (by omega) 0
      have wrapped : cursor + UInt64.ofNat (2 ^ 64 - cursor.toNat) = 0 := by
        rw [← UInt64.toNat_inj, UInt64.toNat_add, UInt64.toNat_ofNat', UInt64.toNat_zero]
        omega
      refine ⟨(2 ^ 64 - cursor.toNat) / size + low, fun place within => ?_⟩
      obtain ⟨least, most⟩ := bounds place within
      obtain ⟨lower, upper⟩ := comes_bounds within cursor.toNat (2 ^ 64 - cursor.toNat)
      rw [split, turns_add, List.count_append, turns_comes size place cursor _ (by omega), wrapped]
      rw [UInt64.toNat_zero, Nat.zero_add] at most
      have rounds : (cursor.toNat + (2 ^ 64 - cursor.toNat + rest)) / 2 ^ 64 = rest / 2 ^ 64 + 1 := by omega
      rw [rounds]
      omega

def Pool.served (s : Pool) : List Nat := s.picked.map Picked.session

theorem step_distinct {label : Lifecycle.Label} (distinct : client.sessions.Nodup)
    (stepped : Lifecycle.step client label = some next) : next.sessions.Nodup := by
  rcases step_pool stepped with trims | ⟨_, _, _, renews⟩
  · rcases trims.pool with same | ⟨j, _, same⟩
    · rw [same]
      exact distinct
    · rw [same]
      exact distinct.filter _
  · rw [renews.pool]
    exact List.nodup_singleton _

theorem run_served {labels : List Label} (ran : run step s labels = some t) : ∃ served, t.served = s.served ++ served := by
  have keeps : ∀ (u : Pool) (label : Label) (v : Pool), (∃ served, u.served = s.served ++ served) → step u label = some v →
      ∃ served, v.served = s.served ++ served := by
    rintro u label v ⟨served, all⟩ stepped
    cases label with
    | client label =>
      obtain ⟨client, _, same⟩ := Option.map_eq_some_iff.mp stepped
      cases same
      exact ⟨served, all⟩
    | request =>
      obtain ⟨k, _, _, logged⟩ := request_some stepped
      refine ⟨served ++ [k], ?_⟩
      rw [Pool.served, logged, List.map_append, ← Pool.served, all, List.append_assoc]
      rfl
  exact run_invariant keeps ⟨[], (List.append_nil _).symm⟩ ran

theorem reachable_distinct {more : Nat} (reached : Reachable step (.init more) s) : s.client.sessions.Nodup := by
  have keeps : ∀ (u : Pool) (label : Label) (v : Pool), u.client.sessions.Nodup → step u label = some v →
      v.client.sessions.Nodup := by
    intro u label v distinct stepped
    cases label with
    | client label =>
      obtain ⟨client, changed, same⟩ := Option.map_eq_some_iff.mp stepped
      cases same
      exact step_distinct distinct changed
    | request =>
      obtain ⟨_, _, same, _⟩ := request_some stepped
      rw [same]
      exact distinct
  exact reached.invariant List.nodup_range keeps

theorem run_turns {pool : List Nat} (two : 1 < pool.length) {labels : List Label}
    (still : Always step (fun u => u.client.sessions = pool) s labels) (ran : run step s labels = some t) :
    ∃ served, t.served = s.served ++ served ∧
      served.map some = (turns pool.length s.nextSession served.length).map (fun place => pool[place]?) := by
  induction labels generalizing s with
  | nil =>
    cases ran
    exact ⟨[], (List.append_nil _).symm, rfl⟩
  | cons label rest ih =>
    obtain ⟨mid, stepped, later⟩ := run_cons_some ran
    obtain ⟨served, all, places⟩ := ih (still.2 mid stepped) later
    cases label with
    | client label =>
      obtain ⟨client, _, same⟩ := Option.map_eq_some_iff.mp stepped
      cases same
      exact ⟨served, all, places⟩
    | request =>
      have here : s.client.sessions = pool := still.1
      obtain ⟨k, turn⟩ := turn_returns (Nat.zero_lt_of_lt two) s.nextSession
      rw [← here] at turn two
      have does : some mid = some { s with nextSession := s.nextSession + 1, picked := s.picked ++ [note s.client k] } :=
        stepped.symm.trans (request_turn two turn)
      cases does
      refine ⟨k :: served, ?_, ?_⟩
      · rw [all, Pool.served, List.map_append, List.append_assoc]
        rfl
      · rw [List.length_cons, turns, List.map_cons, List.map_cons, places, ← here, turn]

theorem turns_within (positive : 0 < size) (cursor : UInt64) (count : Nat) : ∀ place ∈ turns size cursor count, place < size := by
  induction count generalizing cursor with
  | zero => exact fun place member => absurd member List.not_mem_nil
  | succ count ih =>
    intro place member
    rcases List.mem_cons.mp member with rfl | later
    · exact Nat.mod_lt _ positive
    · exact ih (cursor + 1) place later

theorem count_at {pool : List Nat} (distinct : pool.Nodup) {i k : Nat} (there : pool[i]? = some k) (places : List Nat)
    (within : ∀ place ∈ places, place < pool.length) : (places.map (fun place => pool[place]?)).count (some k) = places.count i := by
  induction places with
  | nil => rfl
  | cons place rest ih =>
    have same : pool[place]? = some k ↔ place = i := by
      constructor
      · intro also
        exact (List.getElem?_inj (within place List.mem_cons_self) distinct).mp (also.trans there.symm)
      · rintro rfl
        exact there
    rw [List.map_cons, List.count_cons, List.count_cons, ih (fun other member => within other (List.mem_cons_of_mem _ member))]
    simp only [beq_iff_eq, same]

/-- While the pool stays as it is, its sessions are served alike. Whatever else happens
in between, one gets at most one request more than another, and one more for each time that the
cursor has come round to zero. -/
theorem turns_fair {more : Nat} (reached : Reachable step (.init more) s) {labels : List Label} (ran : run step s labels = some t)
    (still : Always step (fun u => u.client.sessions = s.client.sessions) s labels) :
    ∃ served, t.served = s.served ++ served ∧ ∀ j ∈ s.client.sessions, ∀ k ∈ s.client.sessions,
      served.count k ≤ served.count j + 1 + (s.nextSession.toNat + served.length) / 2 ^ 64 := by
  have distinct := reachable_distinct reached
  by_cases two : 1 < s.client.sessions.length
  · obtain ⟨served, all, places⟩ := run_turns two still ran
    refine ⟨served, all, ?_⟩
    obtain ⟨low, bounds⟩ := turns_bounds s.client.sessions.length s.nextSession served.length
    have counts : ∀ k ∈ s.client.sessions, low ≤ served.count k ∧
        served.count k ≤ low + 1 + (s.nextSession.toNat + served.length) / 2 ^ 64 := by
      intro k member
      obtain ⟨i, inside, place⟩ := List.getElem_of_mem member
      have there : s.client.sessions[i]? = some k := by rw [List.getElem?_eq_getElem inside, place]
      have same := count_at distinct there _ (turns_within (Nat.zero_lt_of_lt two) s.nextSession served.length)
      rw [← places, List.count_map_of_injective _ _ (Option.some_injective _)] at same
      rw [same]
      exact bounds i inside
    intro j one k other
    obtain ⟨least, -⟩ := counts j one
    obtain ⟨-, most⟩ := counts k other
    omega
  · obtain ⟨served, all⟩ := run_served ran
    refine ⟨served, all, fun j one k other => ?_⟩
    have same : k = j := by
      obtain ⟨i, inside, rfl⟩ := List.getElem_of_mem one
      obtain ⟨l, also, rfl⟩ := List.getElem_of_mem other
      have places : l = i := by omega
      subst places
      rfl
    rw [same]
    omega

/-- Four requests to a pool of three, with the primary connection lost after the first. -/
private def aroundOnce : List Label := [.request, .client (.lose 0), .request, .request, .request]

theorem turns_fair_around : ∃ t, run step (.init 2) aroundOnce = some t ∧ t.served = [0, 1, 2, 0] ∧
    ∃ served, t.served = served ∧ ∀ j ∈ [0, 1, 2], ∀ k ∈ [0, 1, 2], served.count k ≤ served.count j + 1 := by
  obtain ⟨t, ran⟩ : ∃ t, run step (.init 2) aroundOnce = some t := ⟨_, rfl⟩
  have still : Always step (fun u => u.client.sessions = (Pool.init 2).client.sessions) (.init 2) aroundOnce :=
    .cons rfl rfl (.cons rfl rfl (.cons rfl rfl (.cons rfl rfl (.cons rfl rfl rfl))))
  have four : t.served = [0, 1, 2, 0] := by
    cases ran
    rfl
  obtain ⟨served, all, fair⟩ := turns_fair (.refl step (.init 2)) ran still
  have same : served = t.served := by
    rw [all]
    rfl
  refine ⟨t, ran, four, served, same.symm, fun j one k other => ?_⟩
  have bound := fair j one k other
  rw [same, four] at bound ⊢
  exact bound

end Fairness

end EchoStream.Core.Pick
