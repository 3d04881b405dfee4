import EchoStream.Core.Handler

/-! The middleware chain. A middleware is a script over the application state
whose calls are calls of `next.run`: it may change the message, leave the rest
of the chain out, wrap it, or give it a time limit. `Next.run` walks the chain
by index as the source does, and is the right fold of the chain over the
terminal. -/

namespace EchoStream.Core.Chain
open Foundation.Tasks
open Proto.Messages
open Handler

variable {ω : Type}

/-- The result of a chain: a message, nothing when it was intercepted, an error. -/
abbrev Outcome := Result (Option Message)

inductive Kind where
  | rpc
  | event
  | stream
deriving DecidableEq, Repr

/-- What dispatching does that can be seen from outside: the terminal of a chain
is entered with a message, a registered handler is run on a payload. -/
inductive Mark where
  | reached (session : SessionId) (msg : Message)
  | ran (kind : Kind) (session : SessionId) (token : UInt64) (name : String) (payload : Bytes)
deriving DecidableEq, Repr

/-- The application and what is around it: the receiving sides of dispatched
streams until a terminal takes them, the messages written to each stream, and
the marks in order. -/
structure World (ω : Type) where
  app : App ω
  receivers : List (Option FrameIo)
  written : List (Nat × Message)
  trace : List Mark

namespace World

def setApp (app : App ω) (world : World ω) : World ω := { world with app }

def note (mark : Mark) (world : World ω) : World ω := { world with trace := world.trace ++ [mark] }

def write (stream : Nat) (msg : Message) (world : World ω) : World ω :=
  { world with written := world.written ++ [(stream, msg)] }

@[simp] theorem setApp_app (app : App ω) (world : World ω) : (world.setApp app).app = app := rfl

@[simp] theorem setApp_trace (app : App ω) (world : World ω) : (world.setApp app).trace = world.trace := rfl

@[simp] theorem setApp_setApp (first second : App ω) (world : World ω) :
    (world.setApp first).setApp second = world.setApp second := rfl

@[simp] theorem setApp_self (world : World ω) : world.setApp world.app = world := rfl

@[simp] theorem note_app (mark : Mark) (world : World ω) : (world.note mark).app = world.app := rfl

@[simp] theorem note_trace (mark : Mark) (world : World ω) :
    (world.note mark).trace = world.trace ++ [mark] := rfl

@[simp] theorem write_written (stream : Nat) (msg : Message) (world : World ω) :
    (world.write stream msg).written = world.written ++ [(stream, msg)] := rfl

@[simp] theorem write_trace (stream : Nat) (msg : Message) (world : World ω) :
    (world.write stream msg).trace = world.trace := rfl

end World

/-- Whether a time limit has passed, as far as the application can tell. -/
abbrev Clock (ω : Type) := Nat → World ω → Bool

structure Middleware (ω : Type) where
  name : String
  handle : SessionId → Message → Script (App ω) Message Outcome Outcome

/-- What runs the rest of a chain on a message. -/
abbrev Callee (ω : Type) := Message → Task (World ω) Outcome

/-- One middleware in front of what it calls. -/
def Middleware.around (clock : Clock ω) (session : SessionId) (mw : Middleware ω) (callee : Callee ω) :
    Callee ω :=
  fun msg => (mw.handle session msg).link World.app World.setApp clock callee

structure Next (ω : Type) where
  chain : List (Middleware ω)
  session : SessionId
  idx : Nat
  terminal : Callee ω

def Next.run (clock : Clock ω) (next : Next ω) (msg : Message) : Task (World ω) Outcome :=
  if _ended : next.chain.length ≤ next.idx then next.terminal msg
  else
    let rest : Next ω := ⟨next.chain, next.session, next.idx + 1, next.terminal⟩
    (next.chain[next.idx].handle next.session msg).link World.app World.setApp clock
      (fun msg => rest.run clock msg)
termination_by next.chain.length - next.idx

/-- The middlewares nested around the terminal, the first one outermost. -/
def onion (clock : Clock ω) (session : SessionId) (chain : List (Middleware ω)) (terminal : Callee ω) :
    Callee ω :=
  chain.foldr (fun mw callee => mw.around clock session callee) terminal

@[simp] theorem onion_nil (clock : Clock ω) (session : SessionId) (terminal : Callee ω) :
    onion clock session [] terminal = terminal := rfl

theorem onion_cons (clock : Clock ω) (session : SessionId) (mw : Middleware ω)
    (chain : List (Middleware ω)) (terminal : Callee ω) :
    onion clock session (mw :: chain) terminal =
      mw.around clock session (onion clock session chain terminal) := rfl

theorem onion_keeps {within : (App ω → App ω) → Prop} {allowed : (World ω → World ω) → Prop} {clock : Clock ω}
    {session : SessionId} {terminal : Callee ω}
    (sets : ∀ update, within update → allowed (fun world => world.setApp (update world.app)))
    (stays : ∀ limit update, allowed update →
      allowed (fun world => if clock limit world then world else update world))
    (ends : ∀ msg, (terminal msg).Obeys allowed) {chain : List (Middleware ω)}
    (own : ∀ mw ∈ chain, ∀ msg, (mw.handle session msg).Obeys (fun _ => True) within) (msg : Message) :
    (onion clock session chain terminal msg).Obeys allowed := by
  induction chain generalizing msg with
  | nil => exact ends msg
  | cons mw chain ih =>
    rw [onion_cons, Middleware.around]
    exact Script.link_keeps (own mw (List.mem_cons_self ..) msg) sets stays
      (fun msg _ => ih (fun other member => own other (List.mem_cons_of_mem _ member)) msg)

/-- What the middlewares' own sections, giving up on a time limit and the terminal
are allowed to do is all that the chain does. -/
theorem onion_obeys {allowed : (World ω → World ω) → Prop} {clock : Clock ω} {session : SessionId}
    {terminal : Callee ω}
    (sets : ∀ update : App ω → App ω, allowed (fun world => world.setApp (update world.app)))
    (stays : ∀ limit update, allowed update →
      allowed (fun world => if clock limit world then world else update world))
    (ends : ∀ msg, (terminal msg).Obeys allowed) (chain : List (Middleware ω)) (msg : Message) :
    (onion clock session chain terminal msg).Obeys allowed := by
  apply onion_keeps (fun update _ => sets update) stays ends
  exact fun mw _ msg => Script.Obeys.any (mw.handle session msg)

theorem onion_gives {may : Message → Prop} {returns : Outcome → Prop} {clock : Clock ω} {session : SessionId}
    {terminal : Callee ω} (ends : ∀ msg, may msg → (terminal msg).Gives returns) {chain : List (Middleware ω)}
    (own : ∀ mw ∈ chain, ∀ msg, may msg → (mw.handle session msg).Gives may returns returns) {msg : Message}
    (fits : may msg) : (onion clock session chain terminal msg).Gives returns := by
  induction chain generalizing msg with
  | nil => exact ends msg fits
  | cons mw chain ih =>
    rw [onion_cons, Middleware.around]
    exact Script.link_gives (own mw List.mem_cons_self msg fits)
      (fun _ passed => ih (fun other member => own other (List.mem_cons_of_mem _ member)) passed)

theorem onion_append (clock : Clock ω) (session : SessionId) (first second : List (Middleware ω)) (terminal : Callee ω) :
    onion clock session (first ++ second) terminal = onion clock session first (onion clock session second terminal) :=
  List.foldr_append

/-- A middleware that passes each message on as it is, and once. -/
def Middleware.Forwards (mw : Middleware ω) : Prop := ∀ session msg, (mw.handle session msg).Forwards msg

theorem onion_forwards {clock : Clock ω} {session : SessionId} {chain : List (Middleware ω)} (terminal : Callee ω)
    (all : ∀ mw ∈ chain, mw.Forwards) (msg : Message) (world : World ω) :
    ∃ app last, ((onion clock session chain terminal msg).eval world).2 =
      ((terminal msg).eval (world.setApp app)).2.setApp last := by
  induction chain generalizing world with
  | nil => exact ⟨world.app, _, (World.setApp_self _).symm⟩
  | cons mw chain ih =>
    have forwards := all mw (List.mem_cons_self ..) session msg
    obtain ⟨part, last, same⟩ : ∃ part last, ((mw.around clock session (onion clock session chain terminal) msg).eval world).2 =
        World.setApp last ((onion clock session chain terminal msg).eval (World.setApp part world)).2 :=
      forwards.eval World.setApp_setApp World.setApp_self world
    obtain ⟨app, later, inside⟩ := ih (fun other member => all other (List.mem_cons_of_mem _ member)) (world.setApp part)
    refine ⟨app, last, ?_⟩
    rw [onion_cons, same, inside, World.setApp_setApp, World.setApp_setApp]

theorem onion_passes {clock : Clock ω} {session : SessionId} {chain : List (Middleware ω)} (terminal : Callee ω)
    (all : ∀ mw ∈ chain, ∀ msg, (mw.handle session msg).Passes) (msg : Message) (world : World ω) :
    ∃ final app last, ((onion clock session chain terminal msg).eval world).2 =
      ((terminal final).eval (world.setApp app)).2.setApp last := by
  induction chain generalizing msg world with
  | nil => exact ⟨msg, world.app, _, (World.setApp_self _).symm⟩
  | cons mw chain ih =>
    have passes := all mw (List.mem_cons_self ..) msg
    obtain ⟨passed, part, last, same⟩ : ∃ passed part last,
        ((mw.around clock session (onion clock session chain terminal) msg).eval world).2 =
        World.setApp last ((onion clock session chain terminal passed).eval (World.setApp part world)).2 :=
      passes.eval World.setApp_setApp World.setApp_self world
    have others := fun other member => all other (List.mem_cons_of_mem _ member)
    obtain ⟨final, app, later, inside⟩ := ih others passed (world.setApp part)
    refine ⟨final, app, last, ?_⟩
    rw [onion_cons, same, inside, World.setApp_setApp, World.setApp_setApp]

/-- On the message the middleware is as good as none for whoever looks at the application in
this way: it hands the message on as it is, once and without a time limit, and returns what
comes back. -/
def Middleware.Transparent {γ : Type} (look : App ω → γ) (session : SessionId) (msg : Message) (mw : Middleware ω) : Prop :=
  (mw.handle session msg).Relays (fun update => ∀ app, look (update app) = look app) msg

theorem onion_transparent {γ : Type} {look : App ω → γ} {session : SessionId} {chain : List (Middleware ω)} (clock : Clock ω)
    (terminal : Callee ω) {msg : Message} (all : ∀ mw ∈ chain, mw.Transparent look session msg) (world : World ω) :
    ∃ app last, look app = look world.app ∧ (onion clock session chain terminal msg).eval world =
      (((terminal msg).eval (world.setApp app)).1, ((terminal msg).eval (world.setApp app)).2.setApp last) := by
  induction chain generalizing world with
  | nil => exact ⟨world.app, _, rfl, congrArg (_, ·) (World.setApp_self _).symm⟩
  | cons mw chain ih =>
    have relays := all mw (List.mem_cons_self ..)
    obtain ⟨part, last, looks, same⟩ : ∃ part last, look part = look world.app ∧
        (mw.around clock session (onion clock session chain terminal) msg).eval world =
        (((onion clock session chain terminal msg).eval (World.setApp part world)).1,
          World.setApp last ((onion clock session chain terminal msg).eval (World.setApp part world)).2) :=
      relays.eval World.setApp_setApp World.setApp_self World.setApp_app world
    obtain ⟨app, later, inner, inside⟩ := ih (fun other member => all other (List.mem_cons_of_mem _ member)) (world.setApp part)
    refine ⟨app, last, inner.trans looks, ?_⟩
    rw [onion_cons, same, inside, World.setApp_setApp, World.setApp_setApp]

theorem onion_stopped {γ : Type} {look : App ω → γ} {session : SessionId} {before : List (Middleware ω)} {mw : Middleware ω}
    (clock : Clock ω) (after : List (Middleware ω)) (terminal : Callee ω) {msg : Message}
    (all : ∀ other ∈ before, other.Transparent look session msg) (quiet : (mw.handle session msg).Quiet) (world : World ω) :
    ∃ last, ((onion clock session (before ++ mw :: after) terminal msg).eval world).2 = world.setApp last := by
  rw [onion_append, onion_cons]
  obtain ⟨app, last, -, same⟩ := onion_transparent clock (mw.around clock session (onion clock session after terminal)) all world
  obtain ⟨inner, stopped⟩ : ∃ inner, ((mw.around clock session (onion clock session after terminal) msg).eval (world.setApp app)).2 =
      World.setApp inner (world.setApp app) := quiet.eval World.setApp_setApp World.setApp_self (world.setApp app)
  refine ⟨last, ?_⟩
  rw [same, stopped, World.setApp_setApp, World.setApp_setApp]

theorem run_eq_onion (clock : Clock ω) (next : Next ω) (msg : Message) :
    next.run clock msg = onion clock next.session (next.chain.drop next.idx) next.terminal msg := by
  induction left : next.chain.length - next.idx generalizing next msg with
  | zero =>
    have ended : next.chain.length ≤ next.idx := by omega
    rw [Next.run, dif_pos ended, List.drop_of_length_le ended]
    rfl
  | succ more ih =>
    have going : ¬ next.chain.length ≤ next.idx := by omega
    have inside : next.idx < next.chain.length := by omega
    have rest : (fun msg => Next.run clock ⟨next.chain, next.session, next.idx + 1, next.terminal⟩ msg) =
        onion clock next.session (next.chain.drop (next.idx + 1)) next.terminal := by
      funext msg
      exact ih ⟨next.chain, next.session, next.idx + 1, next.terminal⟩ msg (by simp only; omega)
    rw [Next.run, dif_neg going, List.drop_eq_getElem_cons inside, onion_cons, Middleware.around, ← rest]

end EchoStream.Core.Chain
