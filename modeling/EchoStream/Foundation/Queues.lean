import Mathlib.Data.List.Infix
import EchoStream.Foundation.Run

/-! Requests and answers between two queues. What is put into a pipe comes out of it
in order, until a loss keeps only some of what is on its way and lets nothing more in. At the
far end of one pipe the requests are served one at a time, and the answers go back through
the other. A system in which other things travel along, too, is looked at through a view. -/

namespace EchoStream.Foundation.Queues

variable {α β κ : Type}

structure Pipe (α : Type) where
  items : List α
  cut : Bool

namespace Pipe

def empty : Pipe α := ⟨[], false⟩

def put (pipe : Pipe α) (item : α) : Pipe α :=
  if pipe.cut then pipe else { pipe with items := pipe.items ++ [item] }

def sever (pipe : Pipe α) (kept : Nat) : Pipe α := ⟨pipe.items.take kept, true⟩

/-- The part of what is on its way that is looked at. -/
def only (pick : α → Option β) (pipe : Pipe α) : Pipe β := ⟨pipe.items.filterMap pick, pipe.cut⟩

variable {pick : α → Option β} {pipe : Pipe α} {item : α}

@[simp] theorem put_cut (pipe : Pipe α) (item : α) : (pipe.put item).cut = pipe.cut := by
  unfold put
  split <;> rfl

theorem only_put_some {seen : β} (picked : pick item = some seen) :
    (pipe.put item).only pick = (pipe.only pick).put seen := by
  unfold put only
  dsimp only
  split <;> simp [picked]

theorem only_put_none (ignored : pick item = none) : (pipe.put item).only pick = pipe.only pick := by
  unfold put only
  split <;> simp [ignored]

theorem only_sever (pick : α → Option β) (pipe : Pipe α) (kept : Nat) :
    ∃ seen, (pipe.sever kept).only pick = (pipe.only pick).sever seen := by
  refine ⟨((pipe.items.take kept).filterMap pick).length, ?_⟩
  have front : (pipe.items.take kept).filterMap pick <+: pipe.items.filterMap pick :=
    (List.take_prefix kept pipe.items).filterMap pick
  unfold sever only
  rw [← List.prefix_iff_eq_take.1 front]

end Pipe

/-- What was sent is what was taken out, what is on its way, and what a loss has swallowed. -/
def Carries (sent taken : List α) (pipe : Pipe α) : Prop :=
  ∃ lost, sent = taken ++ pipe.items ++ lost ∧ (pipe.cut = false → lost = [])

section Carries

variable {sent taken : List α} {pipe : Pipe α}

theorem Carries.empty : Carries ([] : List α) [] .empty := ⟨[], rfl, fun _ => rfl⟩

theorem Carries.put (carries : Carries sent taken pipe) (item : α) : Carries (sent ++ [item]) taken (pipe.put item) := by
  obtain ⟨lost, same, whole⟩ := carries
  cases cut : pipe.cut with
  | true =>
    rw [Pipe.put, if_pos cut]
    refine ⟨lost ++ [item], ?_, fun uncut => Bool.noConfusion (cut.symm.trans uncut)⟩
    rw [same, List.append_assoc _ lost]
  | false =>
    rw [Pipe.put, if_neg (Bool.eq_false_iff.1 cut)]
    refine ⟨[], ?_, fun _ => rfl⟩
    rw [same, whole cut, List.append_nil, List.append_nil, List.append_assoc]

theorem Carries.take (carries : Carries sent taken pipe) {item : α} {rest : List α} (first : pipe.items = item :: rest) :
    Carries sent (taken ++ [item]) { pipe with items := rest } := by
  obtain ⟨lost, same, whole⟩ := carries
  refine ⟨lost, ?_, whole⟩
  rw [same, first, List.append_assoc taken [item] rest]
  rfl

theorem Carries.sever (carries : Carries sent taken pipe) (kept : Nat) : Carries sent taken (pipe.sever kept) := by
  obtain ⟨lost, same, -⟩ := carries
  refine ⟨pipe.items.drop kept ++ lost, ?_, Bool.noConfusion⟩
  rw [Pipe.sever, List.append_assoc, ← List.append_assoc _ _ lost, List.take_append_drop, ← List.append_assoc, same]

theorem Carries.prefix (carries : Carries sent taken pipe) : taken <+: sent := by
  obtain ⟨lost, same, -⟩ := carries
  exact ⟨pipe.items ++ lost, by rw [same, List.append_assoc]⟩

theorem Carries.whole (carries : Carries sent taken pipe) (uncut : pipe.cut = false) : sent = taken ++ pipe.items := by
  obtain ⟨lost, same, whole⟩ := carries
  rw [same, whole uncut, List.append_nil]

end Carries

/-- The requests asked, those on their way, the one that is served, the answers
given with their requests, those on their way, and those taken. -/
structure Exchange (α β : Type) where
  asked : List α
  up : Pipe α
  serving : Option α
  served : List (α × β)
  down : Pipe β
  taken : List β

def Exchange.init : Exchange α β := ⟨[], .empty, none, [], .empty, []⟩

inductive Exchange.Moves (x : Exchange α β) : Exchange α β → Prop where
  | stays : Moves x x
  | ask (request : α) : Moves x { x with asked := x.asked ++ [request], up := x.up.put request }
  | start {request : α} {rest : List α} (idle : x.serving = none) (first : x.up.items = request :: rest) :
      Moves x { x with up := { x.up with items := rest }, serving := some request }
  | answer {request : α} (reply : β) (busy : x.serving = some request) :
      Moves x { x with serving := none, served := x.served ++ [(request, reply)], down := x.down.put reply }
  | take {reply : β} {rest : List β} (first : x.down.items = reply :: rest) :
      Moves x { x with down := { x.down with items := rest }, taken := x.taken ++ [reply] }
  | severUp (kept : Nat) : Moves x { x with up := x.up.sever kept }
  | severDown (kept : Nat) : Moves x { x with down := x.down.sever kept }

/-- Requests and answers are where they were put, in order. -/
structure Balanced (x : Exchange α β) : Prop where
  requests : Carries x.asked (x.served.map Prod.fst ++ x.serving.toList) x.up
  answers : Carries (x.served.map Prod.snd) x.taken x.down

variable {x y : Exchange α β}

theorem Balanced.init : Balanced (.init : Exchange α β) := ⟨Carries.empty, Carries.empty⟩

theorem Balanced.moves (balanced : Balanced x) (moves : x.Moves y) : Balanced y := by
  cases moves with
  | stays => exact balanced
  | ask request => exact ⟨balanced.requests.put request, balanced.answers⟩
  | start idle first =>
    have taken := balanced.requests.take first
    rw [idle, Option.toList_none, List.append_nil] at taken
    exact ⟨taken, balanced.answers⟩
  | @answer request reply busy =>
    refine ⟨?_, ?_⟩
    · have before := balanced.requests
      rw [busy] at before
      simpa using before
    · have after := balanced.answers.put reply
      simpa using after
  | take first => exact ⟨balanced.requests, balanced.answers.take first⟩
  | severUp kept => exact ⟨balanced.requests.sever kept, balanced.answers⟩
  | severDown kept => exact ⟨balanced.requests, balanced.answers.sever kept⟩

theorem Balanced.served_prefix (balanced : Balanced x) : x.served.map Prod.fst <+: x.asked :=
  (List.prefix_append _ _).trans balanced.requests.prefix

theorem Balanced.started_prefix (balanced : Balanced x) : x.served.map Prod.fst ++ x.serving.toList <+: x.asked :=
  balanced.requests.prefix

theorem Balanced.taken_served (balanced : Balanced x) {reply : β} (taken : reply ∈ x.taken) :
    ∃ request ∈ x.asked, (request, reply) ∈ x.served := by
  have given := balanced.answers.prefix.subset taken
  rw [List.mem_map] at given
  obtain ⟨⟨request, own⟩, member, rfl⟩ := given
  exact ⟨request, balanced.served_prefix.subset (List.mem_map_of_mem member), member⟩

/-- Where requests with one key are one request, an answer with the key of a request was
given to it. -/
theorem Balanced.own_answer (balanced : Balanced x) (key : α → κ) (replyKey : β → κ)
    (fits : ∀ pair ∈ x.served, replyKey pair.2 = key pair.1)
    (apart : ∀ first ∈ x.asked, ∀ second ∈ x.asked, key first = key second → first = second)
    {request : α} (asked : request ∈ x.asked) {reply : β} (taken : reply ∈ x.taken)
    (same : replyKey reply = key request) : (request, reply) ∈ x.served := by
  obtain ⟨own, member, given⟩ := balanced.taken_served taken
  have fit := fits _ given
  have equal := apart own member request asked (fit.symm.trans same)
  rw [← equal]
  exact given

theorem Balanced.taken_in_order (balanced : Balanced x) {i : Nat} {reply : β} (taken : x.taken[i]? = some reply) :
    ∃ request, x.asked[i]? = some request ∧ x.served[i]? = some (request, reply) := by
  obtain ⟨below, -⟩ := List.getElem?_eq_some_iff.1 taken
  have given := balanced.answers.prefix.getElem below
  rw [List.getElem?_eq_getElem below, Option.some_inj, given, List.getElem_map] at taken
  have within : i < x.served.length := by
    have bounded := balanced.answers.prefix.length_le
    rw [List.length_map] at bounded
    exact Nat.lt_of_lt_of_le below bounded
  refine ⟨x.served[i].1, ?_, ?_⟩
  · have front := balanced.served_prefix.getElem (i := i) (by rwa [List.length_map])
    rw [List.getElem_map] at front
    rw [front]
    exact List.getElem?_eq_getElem _
  · rw [List.getElem?_eq_getElem within, ← taken]

/-- Among replies that come in the order of distinct keys, the first with a key stands
where the key does. -/
theorem find_at [DecidableEq κ] {replyKey : β → κ} {replies : List β} {keys : List κ} (distinct : keys.Nodup)
    (order : replies.map replyKey <+: keys) {i : Nat} {key : κ} (there : keys[i]? = some key) :
    replies.find? (fun reply => replyKey reply = key) = replies[i]? := by
  induction replies generalizing keys i with
  | nil => rfl
  | cons reply rest ih =>
    obtain ⟨later, rfl⟩ := order
    rw [List.map_cons, List.cons_append] at distinct there
    obtain ⟨fresh, distinct⟩ := List.nodup_cons.1 distinct
    cases i with
    | zero =>
      rw [List.getElem?_cons_zero, Option.some_inj] at there
      rw [List.find?_cons_of_pos (by simpa using there), List.getElem?_cons_zero]
    | succ i =>
      rw [List.getElem?_cons_succ] at there
      have apart : replyKey reply ≠ key := by
        rintro rfl
        exact fresh (List.mem_of_getElem? there)
      rw [List.find?_cons_of_neg (by simpa using apart), List.getElem?_cons_succ]
      exact ih distinct (List.prefix_append _ _) there

theorem Balanced.answer_at [DecidableEq κ] (balanced : Balanced x) {key : α → κ} {replyKey : β → κ}
    (fits : ∀ pair ∈ x.served, replyKey pair.2 = key pair.1) (distinct : (x.asked.map key).Nodup) {i : Nat} {request : α}
    (asked : x.asked[i]? = some request) :
    x.taken.find? (fun reply => replyKey reply = key request) = x.taken[i]? := by
  have keys : (x.served.map Prod.snd).map replyKey = (x.served.map Prod.fst).map key := by
    rw [List.map_map, List.map_map]
    exact List.map_congr_left fits
  have order : x.taken.map replyKey <+: x.asked.map key := by
    have front := balanced.answers.prefix.map replyKey
    rw [keys] at front
    exact front.trans (balanced.served_prefix.map key)
  refine find_at distinct order ?_
  rw [List.getElem?_map, asked, Option.map_some]

/-- Once nothing is on its way and nothing served, every request has its answer. -/
theorem Balanced.settled (balanced : Balanced x) (up : x.up = .empty) (idle : x.serving = none) (down : x.down = .empty) :
    x.asked = x.served.map Prod.fst ∧ x.taken = x.served.map Prod.snd := by
  have requests := balanced.requests.whole (by rw [up]; rfl)
  have answers := balanced.answers.whole (by rw [down]; rfl)
  rw [up, idle] at requests
  rw [down] at answers
  exact ⟨by simpa [Pipe.empty] using requests, by simpa [Pipe.empty] using answers.symm⟩

end EchoStream.Foundation.Queues
