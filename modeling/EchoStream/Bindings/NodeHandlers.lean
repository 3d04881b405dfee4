import Mathlib.Data.List.Induction
import EchoStream.Core.Registry

/-! Handlers of a client in Node.js. Each registration gives the script a function that
undoes it. The function knows the registration by its token, which is a number of 64 bits
in the registry and one of 32 bits in the binding. -/

namespace EchoStream.Bindings.NodeHandlers
open Core.Handler Core.Dispatch Core.Registry

variable {ω : Type}

inductive Kind where
  | event
  | rpc
  | stream
deriving DecidableEq, Repr

def Kind.table : Kind → Table
  | .event => .event
  | .rpc => .rpc
  | .stream => .stream

inductive Callback (ω : Type) where
  | event (handler : EventHandler ω)
  | rpc (handler : RpcHandler ω)
  | stream (handler : StreamHandler ω)

namespace Callback

def kind : Callback ω → Kind
  | .event _ => .event
  | .rpc _ => .rpc
  | .stream _ => .stream

def entry : Callback ω → Entry ω
  | .event handler => .event handler
  | .rpc handler => .rpc handler
  | .stream handler => .stream handler

end Callback

/-- The router of the client, and the functions that were given out. Each of them holds
the table it removes from and the token. -/
structure Client (ω : Type) where
  router : Router ω
  offs : List (Kind × UInt32)

def Client.new : Client ω := ⟨.new, []⟩

/-- `on_event`, `on_rpc` and `on_stream`. The token is returned `as u32`. -/
def on (client : Client ω) (callback : Callback ω) : Client ω :=
  let (router, token) := add client.router callback.entry
  ⟨router, client.offs ++ [(callback.kind, token.toUInt32)]⟩

/-- `off_event`, `off_rpc` and `off_stream`, by the function that came `i`th. The token is
taken `as u64`. -/
def off (client : Client ω) (i : Nat) : Client ω :=
  match client.offs[i]? with
  | some (kind, token) => { client with router := (remove client.router token.toUInt64 kind.table).2 }
  | none => client

inductive Call (ω : Type) where
  | on (callback : Callback ω)
  | off (i : Nat)

def perform (client : Client ω) : Call ω → Client ω
  | .on callback => on client callback
  | .off i => off client i

def after (calls : List (Call ω)) : Client ω := calls.foldl perform .new

def callbacks (calls : List (Call ω)) : List (Callback ω) :=
  calls.filterMap (fun call =>
    match call with
    | .on callback => some callback
    | .off _ => none)

def kindAt (calls : List (Call ω)) (i : Nat) : Option Kind := (callbacks calls)[i]?.map Callback.kind

/-- What the calls mean to do, where the `i`th function removes by the token `cut i`. -/
def happening (cut : Nat → Token) (before : List (Call ω)) : Call ω → List (Happening ω)
  | .on callback => [.added (UInt64.ofNat (callbacks before).length) callback.entry]
  | .off i =>
      match kindAt before i with
      | some kind => [.removed kind.table (cut i)]
      | none => []

def happenings (cut : Nat → Token) : List (Call ω) → List (Call ω) → List (Happening ω)
  | _, [] => []
  | before, call :: calls => happening cut before call ++ happenings cut (before ++ [call]) calls

/-- The token that comes back from the script. -/
def narrowed (i : Nat) : Token := (UInt64.ofNat i).toUInt32.toUInt64

/-- The history in which every function removes the callback it was given out for. -/
def intended (calls : List (Call ω)) : List (Happening ω) := happenings (fun i => UInt64.ofNat i) [] calls

/-- The callback that was registered `i`th is in the registry. -/
def Registered (client : Client ω) (i : Nat) (kind : Kind) : Prop := Holds client.router (UInt64.ofNat i) kind.table

variable {calls : List (Call ω)}

theorem callbacks_snoc (calls : List (Call ω)) (call : Call ω) :
    callbacks (calls ++ [call]) = callbacks calls ++ callbacks [call] := List.filterMap_append

theorem after_snoc (calls : List (Call ω)) (call : Call ω) : after (calls ++ [call]) = perform (after calls) call := by
  rw [after, List.foldl_append]
  rfl

theorem happenings_snoc (cut : Nat → Token) (before calls : List (Call ω)) (call : Call ω) :
    happenings cut before (calls ++ [call]) = happenings cut before calls ++ happening cut (before ++ calls) call := by
  induction calls generalizing before with
  | nil =>
    rw [List.append_nil]
    exact List.append_nil _
  | cons first calls ih =>
    rw [List.cons_append, happenings, happenings, ih, List.append_assoc, List.append_assoc]
    rfl

/-- What the client has of the callbacks registered so far. -/
structure Numbered (client : Client ω) (calls : List (Call ω)) : Prop where
  next : client.router.nextToken = UInt64.ofNat (callbacks calls).length
  offs : client.offs = (callbacks calls).mapIdx (fun i callback => (callback.kind, (UInt64.ofNat i).toUInt32))

theorem Numbered.at {client : Client ω} (numbered : Numbered client calls) (i : Nat) :
    client.offs[i]? = (kindAt calls i).map (fun kind => (kind, (UInt64.ofNat i).toUInt32)) := by
  rw [numbered.offs, List.getElem?_mapIdx, kindAt, Option.map_map]
  rfl

theorem remove_nextToken (router : Router ω) (token : Token) (table : Table) :
    (remove router token table).2.nextToken = router.nextToken := by
  cases table <;> rfl

theorem Numbered.on {client : Client ω} (numbered : Numbered client calls) (callback : Callback ω) :
    Numbered (on client callback) (calls ++ [.on callback]) := by
  obtain ⟨token, next⟩ := add_token client.router callback.entry
  have more : callbacks (calls ++ [.on callback]) = callbacks calls ++ [callback] := callbacks_snoc calls _
  constructor
  · show (add client.router callback.entry).1.nextToken = _
    rw [next, numbered.next, more, List.length_append, List.length_singleton, UInt64.ofNat_add]
    rfl
  · show client.offs ++ [(callback.kind, (add client.router callback.entry).2.toUInt32)] = _
    rw [token, numbered.next, more, List.mapIdx_concat, numbered.offs]

theorem off_router (client : Client ω) (numbered : Numbered client calls) (i : Nat) :
    (off client i).router =
      match kindAt calls i with
      | some kind => (remove client.router (narrowed i) kind.table).2
      | none => client.router := by
  unfold off
  rw [numbered.at]
  cases kindAt calls i <;> rfl

theorem Numbered.off {client : Client ω} (numbered : Numbered client calls) (i : Nat) :
    Numbered (off client i) (calls ++ [.off i]) := by
  have same : callbacks (calls ++ [.off i]) = callbacks calls := (callbacks_snoc calls _).trans (List.append_nil _)
  have offs : (NodeHandlers.off client i).offs = client.offs := by
    unfold NodeHandlers.off
    split <;> rfl
  have next : (NodeHandlers.off client i).router.nextToken = client.router.nextToken := by
    rw [off_router client numbered]
    split
    · exact remove_nextToken ..
    · rfl
  constructor
  · rw [next, same, numbered.next]
  · rw [offs, same, numbered.offs]

theorem perform_kept {client : Client ω} {history : List (Happening ω)} (numbered : Numbered client calls)
    (mirrors : Mirrors client.router history) (call : Call ω) :
    Numbered (perform client call) (calls ++ [call]) ∧
      Mirrors (perform client call).router (history ++ happening narrowed calls call) := by
  cases call with
  | on callback =>
    refine ⟨numbered.on callback, ?_⟩
    have added := add_mirrors mirrors callback.entry
    rw [(add_token client.router callback.entry).1, numbered.next] at added
    exact added
  | off i =>
    refine ⟨numbered.off i, ?_⟩
    show Mirrors (off client i).router _
    rw [off_router client numbered, happening]
    cases kindAt calls i with
    | none =>
      rw [List.append_nil]
      exact mirrors
    | some kind => exact remove_mirrors mirrors kind.table (narrowed i)

/-- By induction on the calls, taken from the last one. -/
theorem after_kept (calls : List (Call ω)) :
    Numbered (after calls) calls ∧ Mirrors (after calls).router (happenings narrowed [] calls) := by
  induction calls using List.reverseRecOn with
  | nil => exact ⟨⟨rfl, rfl⟩, new_mirrors⟩
  | append_singleton calls call ih =>
    rw [after_snoc, happenings_snoc, List.nil_append]
    exact perform_kept ih.1 ih.2 call

/-! Tokens that come back as they were. -/

theorem narrowed_toNat (i : Nat) : (narrowed i).toNat = i % 2 ^ 32 := by
  rw [narrowed, UInt32.toNat_toUInt64, UInt64.toNat_toUInt32, UInt64.toNat_ofNat']
  exact Nat.mod_mod_of_dvd i (by decide)

theorem narrowed_small {i : Nat} (small : i < 2 ^ 32) : narrowed i = UInt64.ofNat i := by
  rw [← UInt64.toNat_inj, narrowed_toNat, Nat.mod_eq_of_lt small, UInt64.toNat_ofNat_of_lt' (Nat.lt_trans small (by decide))]

theorem happenings_narrowed (before calls : List (Call ω)) (few : (callbacks (before ++ calls)).length ≤ 2 ^ 32) :
    happenings narrowed before calls = happenings (fun i => UInt64.ofNat i) before calls := by
  induction calls generalizing before with
  | nil => rfl
  | cons call calls ih =>
    have split : before ++ call :: calls = before ++ [call] ++ calls := (List.append_assoc before [call] calls).symm
    rw [happenings, happenings, ih (before ++ [call]) (split ▸ few)]
    congr 1
    cases call with
    | on callback => rfl
    | off i =>
      rw [happening, happening]
      cases known : kindAt before i with
      | none => rfl
      | some kind =>
        obtain ⟨callback, there, -⟩ := Option.map_eq_some_iff.1 known
        have bound : i < (callbacks before).length := (List.getElem?_eq_some_iff.1 there).1
        have most : (callbacks (before ++ .off i :: calls)).length = (callbacks before).length + (callbacks (.off i :: calls)).length := by
          rw [callbacks, List.filterMap_append, List.length_append, callbacks, callbacks]
        rw [narrowed_small (by omega)]

theorem active_removed (history : List (Happening ω)) (table : Table) (token : Token) (other : Table) (asked : Token) :
    Active (history ++ [.removed table token]) asked other ↔ Active history asked other ∧ ¬ (other = table ∧ asked = token) := by
  by_cases same : other = table
  · subst same
    cases other with
    | rpc =>
      simp only [Active, rpcFor_removed, Option.filter_eq_some_iff, decide_eq_true_eq, true_and, exists_and_right, ne_eq]
    | event =>
      simp only [Active, listenersFor_removed, List.mem_filter, decide_eq_true_eq, true_and, exists_and_right, ne_eq]
    | stream =>
      simp only [Active, streamFor_removed, Option.filter_eq_some_iff, decide_eq_true_eq, true_and, exists_and_right, ne_eq]
    | middleware =>
      simp only [Active, middlewaresFor_removed, List.mem_filter, decide_eq_true_eq, true_and, exists_and_right, ne_eq]
  · have unrelated : Active (history ++ [.removed table token]) asked other ↔ Active history asked other := by
      cases other with
      | rpc =>
        have none : rpcAct (.removed table token : Happening ω) = none := by cases table <;> first | rfl | exact absurd rfl same
        simp only [Active, rpcFor_other none]
      | event =>
        have none : eventAct (.removed table token : Happening ω) = none := by cases table <;> first | rfl | exact absurd rfl same
        simp only [Active, listenersFor_other none]
      | stream =>
        have none : streamAct (.removed table token : Happening ω) = none := by cases table <;> first | rfl | exact absurd rfl same
        simp only [Active, streamFor_other none]
      | middleware =>
        have none : middlewareAct (.removed table token : Happening ω) = none := by
          cases table <;> first | rfl | exact absurd rfl same
        simp only [Active, middlewaresFor_other none]
    rw [unrelated]
    exact ⟨fun here => ⟨here, fun both => same both.1⟩, And.left⟩

theorem kind_of_table {one two : Kind} : one.table = two.table ↔ one = two := by cases one <;> cases two <;> decide

/-- After any calls the registry is what the script means it to be as long as there were no
more registrations than there are numbers of 32 bits. In any case a function that undoes a
registration takes away its own callback just if the number of that fits, and leaves all
the others alone but the one whose number it has cut down. -/
theorem unsubscribing_exact (calls : List (Call ω)) (few : (callbacks calls).length < 2 ^ 64) :
    ((callbacks calls).length ≤ 2 ^ 32 → Mirrors (after calls).router (intended calls)) ∧
      ∀ i kind, kindAt calls i = some kind →
        (Registered (after calls) i kind → (Registered (after (calls ++ [.off i])) i kind ↔ 2 ^ 32 ≤ i)) ∧
        ∀ j other, j < (callbacks calls).length →
          (Registered (after (calls ++ [.off i])) j other ↔
            Registered (after calls) j other ∧ ¬ (other = kind ∧ j = i % 2 ^ 32)) := by
  obtain ⟨numbered, mirrors⟩ := after_kept calls
  refine ⟨?_, ?_⟩
  · intro within
    rw [intended, ← happenings_narrowed [] calls within]
    exact mirrors
  · intro i kind known
    have router : (after (calls ++ [.off i])).router = (remove (after calls).router (narrowed i) kind.table).2 := by
      rw [after_snoc]
      show (off (after calls) i).router = _
      rw [off_router _ numbered, known]
    have removed : ∀ j other, j < (callbacks calls).length →
        (Registered (after (calls ++ [.off i])) j other ↔
          Registered (after calls) j other ∧ ¬ (other = kind ∧ j = i % 2 ^ 32)) := by
      intro j other made
      have number : UInt64.ofNat j = narrowed i ↔ j = i % 2 ^ 32 := by
        rw [← UInt64.toNat_inj, narrowed_toNat, UInt64.toNat_ofNat_of_lt' (Nat.lt_trans made few)]
      have holds := (remove_mirrors mirrors kind.table (narrowed i)).holds other.table (UInt64.ofNat j)
      rw [Registered, router, holds, active_removed, ← mirrors.holds, Registered, kind_of_table, number]
    refine ⟨?_, removed⟩
    intro there
    obtain ⟨callback, registered, -⟩ := Option.map_eq_some_iff.1 known
    rw [removed i kind (List.getElem?_eq_some_iff.1 registered).1]
    constructor
    · intro left
      by_contra small
      exact left.2 ⟨rfl, (Nat.mod_eq_of_lt (Nat.lt_of_not_le small)).symm⟩
    · intro large
      refine ⟨there, fun own => ?_⟩
      have below := Nat.mod_lt i (Nat.two_pow_pos 32)
      omega

private def ticking : Callback Unit := .event ⟨"tick", fun _ _ => pure (.ok ())⟩

private def adding : Callback Unit := .rpc ⟨"add", fun _ _ => pure (.ok [])⟩

/-- Of two listeners and an RPC handler the first listener is undone, and then the handler. -/
theorem unsubscribing_exact_listeners :
    let calls : List (Call Unit) := [.on ticking, .on adding, .on ticking, .off 0]
    Mirrors (after calls).router (intended calls) ∧ ¬ Registered (after (calls ++ [.off 1])) 1 .rpc ∧
      Registered (after (calls ++ [.off 1])) 2 .event := by
  intro calls
  have few : (callbacks calls).length < 2 ^ 64 := by decide
  obtain ⟨mirrors, undone⟩ := unsubscribing_exact calls few
  obtain ⟨own, others⟩ := undone 1 .rpc rfl
  refine ⟨mirrors (by decide), ?_, ?_⟩
  · intro left
    have there : Registered (after calls) 1 .rpc := ⟨"add", _, rfl⟩
    exact absurd ((own there).1 left) (by decide)
  · exact (others 2 .event (by decide)).2 ⟨⟨"tick", _, List.mem_singleton.2 rfl⟩, fun both => Kind.noConfusion both.1⟩

end EchoStream.Bindings.NodeHandlers
