import EchoStream.Core.Handler

/-! The attributes that make a handler of a function. Each one reads the signature, puts a
unit struct next to the function, and implements the trait of a handler by one call of it.
What comes out still has to be compiled: the call has to fit the function, and the types
that go over the wire need codecs. -/

namespace EchoStream.Derive.Expand
open Foundation.Tasks
open Proto.Messages Proto.Postcard
open Core.Handler

/-! The signature of a function, as far as the attributes look into it. -/

inductive RustType where
  | path (leading : List String) (last : String)
  /-- The last segment has arguments, of which the first is a type. -/
  | applied (leading : List String) (last : String) (argument : RustType) (others : List String)
  | reference (lifetime : Option String) (mutable : Bool) (elem : RustType)
  | unit
  | other (text : String)
deriving DecidableEq

inductive FnArg where
  | receiver
  | typed (ty : RustType)
deriving DecidableEq

structure ItemFn where
  isAsync : Bool
  generics : Nat
  ident : String
  inputs : List FnArg
  output : Option RustType

inductive Attr where
  | empty
  | literal (value : String)
  | other (text : String)

inductive HandlerKind where
  | rpc
  | event
  | stream
deriving DecidableEq

def typeLastSegment (name : String) : RustType → Bool
  | .path _ last => last == name
  | .applied _ last _ _ => last == name
  | _ => false

def isSessionType : RustType → Bool
  | .path _ last => last == "Session"
  | .applied _ last _ _ => last == "Session"
  | .reference _ _ elem => isSessionType elem
  | _ => false

def parseReturn : Option RustType → RustType × Bool
  | none => (.unit, false)
  | some (.applied leading last argument others) =>
      if last = "Result" then (argument, true) else (.applied leading last argument others, false)
  | some ty => (ty, false)

def parseName (attr : Attr) (ident : String) : String :=
  match attr with
  | .empty => ident
  | .literal value => value
  | .other _ => ident

/-- The characters of a name, where `upper` is what a character is in upper case. -/
def structChars (upper : Char → List Char) : Bool → List Char → List Char
  | _, [] => []
  | capitalize, c :: rest =>
      if c = '_' then structChars upper true rest
      else if capitalize then upper c ++ structChars upper false rest
      else c :: structChars upper false rest

def toStructName (upper : Char → List Char) (ident : String) : String :=
  String.ofList (structChars upper true ident.toList)

/-- The parameter of the session and that of the data. -/
def extract : List FnArg → Option RustType → Option RustType → Except String (Option RustType × Option RustType)
  | [], session, data => .ok (session, data)
  | .receiver :: _, _, _ => .error "处理器不支持 self / 变长参数"
  | .typed ty :: rest, session, data =>
      if isSessionType ty then
        if session.isSome then .error "Session 参数只能出现一次" else extract rest (some ty) data
      else if data.isNone then extract rest session (some ty)
      else .error "处理器最多支持一个数据参数"

example : toStructName (fun c => [c.toUpper]) "st_with_session" = "StWithSession" := by decide

/-! What is put next to the function. -/

/-- `call.await`, `Ok(call.await?)`, `call.await?;` and `call.await;` -/
inductive Tail where
  | value
  | wrapped
  | tried
  | dropped
deriving DecidableEq

structure Invoke where
  args : List String
  tail : Tail

/-- The implementation of the trait. `input` is `type Req` or `type Data`, `output` is `type Resp`. -/
structure Generated where
  kind : HandlerKind
  structName : String
  name : String
  input : RustType
  output : RustType
  sessionParam : String
  dataParam : String
  invoke : Invoke

def implParams (kind : HandlerKind) (session data : Option RustType) : String × String :=
  (if session.isSome then "session" else "_session",
    match kind, data.isSome with
    | .rpc, true => "req"
    | .rpc, false => "_req"
    | .event, true => "data"
    | .event, false => "_data"
    | .stream, _ => "stream")

def buildInvoke (kind : HandlerKind) (session data : Option RustType) (isResult : Bool) : Invoke where
  args :=
    let dataName := match kind with
      | .rpc => "req"
      | .event => "data"
      | .stream => "stream"
    match session.isSome, data.isSome with
    | true, true => ["session", dataName]
    | true, false => ["session"]
    | false, true => [dataName]
    | false, false => []
  tail :=
    match kind, isResult with
    | .rpc, true => .value
    | .rpc, false => .wrapped
    | _, true => .tried
    | _, false => .dropped

def expandRpc (item : ItemFn) (name structName : String) (session data : Option RustType) : Except String Generated :=
  let (output, isResult) := parseReturn item.output
  let (sessionParam, dataParam) := implParams .rpc session data
  .ok { kind := .rpc, structName, name, input := data.getD .unit, output, sessionParam, dataParam,
        invoke := buildInvoke .rpc session data isResult }

def expandEvent (item : ItemFn) (name structName : String) (session data : Option RustType) : Except String Generated :=
  let (output, isResult) := parseReturn item.output
  if output ≠ .unit ∧ isResult = false then .error "事件处理器返回值必须是 Result<()> 或 ()"
  else
    let (sessionParam, dataParam) := implParams .event session data
    .ok { kind := .event, structName, name, input := data.getD .unit, output := .unit, sessionParam, dataParam,
          invoke := buildInvoke .event session data isResult }

def expandStream (item : ItemFn) (name structName : String) (session data : Option RustType) : Except String Generated :=
  match data with
  | none => .error "流处理器必须包含 StreamReceiver 参数"
  | some ty =>
      if typeLastSegment "StreamReceiver" ty = false then .error "流处理器的数据参数必须是 StreamReceiver"
      else
        let (_, isResult) := parseReturn item.output
        let (sessionParam, dataParam) := implParams .stream session data
        .ok { kind := .stream, structName, name, input := ty, output := .unit, sessionParam, dataParam,
              invoke := buildInvoke .stream session data isResult }

def expand (upper : Char → List Char) (kind : HandlerKind) (attr : Attr) (item : ItemFn) : Except String Generated :=
  if item.isAsync = false then .error "EchoStream 处理器必须是 async fn"
  else if item.generics ≠ 0 then .error "EchoStream 处理器不支持泛型参数"
  else
    let name := parseName attr item.ident
    let structName := toStructName upper item.ident
    match extract item.inputs none none with
    | .error e => .error e
    | .ok (session, data) =>
        match kind with
        | .rpc => expandRpc item name structName session data
        | .event => expandEvent item name structName session data
        | .stream => expandStream item name structName session data

/-! Compiling it. -/

/-- The types of arguments: `&Session`, `StreamReceiver`, or another one. -/
inductive Ty where
  | session
  | stream
  | value (ty : RustType)
deriving DecidableEq

def isSessionRef : RustType → Bool
  | .reference lifetime false (.path _ last) => (lifetime == none || lifetime == some "_") && last == "Session"
  | _ => false

def isStreamReceiver : RustType → Bool
  | .path _ last => last == "StreamReceiver"
  | _ => false

def typeOf (ty : RustType) : Ty :=
  if isSessionRef ty then .session else if isStreamReceiver ty then .stream else .value ty

def FnArg.ty : FnArg → Option Ty
  | .receiver => none
  | .typed ty => some (typeOf ty)

/-- What the compiler knows where the function stands, where `Session` and `StreamReceiver` are
the framework's: which names a struct may have, which types ending in `Result<T, ..>` are the
framework's `Result<T>`, of which `?` turns the errors into the framework's, and the codecs of the
types that are `DeserializeOwned` and of those that are `Serialize`, whose values are here all
in `δ`. -/
structure Scope (δ : Type) where
  upper : Char → List Char
  identifier : String → Bool
  answers : RustType → Bool
  tries : RustType → Bool
  reads : RustType → Option (Codec δ)
  writes : RustType → Option (Codec δ)

inductive Given (δ : Type) where
  | session (id : SessionId)
  | data (value : δ)
  | stream (receiver : StreamReceiver)

/-- What the function does with its arguments. One that returns no `Result` never fails. -/
abbrev Body (ω δ : Type) := List (Given δ) → Task (App ω) (Result δ)

inductive Handler (ω : Type) where
  | rpc (handler : RpcHandler ω)
  | event (handler : EventHandler ω)
  | stream (handler : StreamHandler ω)

/-- The type in the `Result` that the function returns, if it does. -/
def returned (item : ItemFn) : Option RustType :=
  match parseReturn item.output with
  | (ty, true) => some ty
  | (_, false) => none

/-- The `Result` itself, as it is written. -/
def resultOf (item : ItemFn) : Option RustType := if (parseReturn item.output).2 then item.output else none

/-- The compiler takes the `Result` for an answer, or takes `?` behind it. -/
def Scope.takes {δ : Type} (scope : Scope δ) : HandlerKind → RustType → Bool
  | .rpc => scope.answers
  | _ => scope.tries

namespace Generated

def params (g : Generated) : List (String × Ty) :=
  [(g.sessionParam, .session), (g.dataParam, if g.kind = .stream then .stream else typeOf g.input)]

/-- The arguments are there, and each has the type of its parameter. -/
def callFits (g : Generated) (item : ItemFn) : Bool :=
  match g.invoke.args.mapM (fun name => g.params.lookup name), item.inputs.mapM FnArg.ty with
  | some passed, some wanted => passed == wanted
  | _, _ => false

def tailFits (g : Generated) (item : ItemFn) : Bool :=
  match g.invoke.tail with
  | .value => returned item == some g.output
  | .wrapped => returned item == some g.output
  | .tried => (returned item).isSome
  | .dropped => true

def resultFits {δ : Type} (scope : Scope δ) (g : Generated) (item : ItemFn) : Bool :=
  (resultOf item).all (scope.takes g.kind)

/-- The struct is a value as the function is. -/
def nameFits {δ : Type} (scope : Scope δ) (g : Generated) (item : ItemFn) : Bool :=
  scope.identifier g.structName && g.structName != item.ident

end Generated

variable {ω δ : Type}

def passed (g : Generated) (session : SessionId) (data : Given δ) : List (Given δ) :=
  g.invoke.args.filterMap (fun name => [(g.sessionParam, .session session), (g.dataParam, data)].lookup name)

/-- What the statement leaves of a result. -/
def Tail.close : Tail → Result δ → Result Unit
  | .tried, .error e => .error e
  | _, _ => .ok ()

def rpcImpl (scope : Scope δ) (body : Body ω δ) (g : Generated) : Option (Handler ω) :=
  (scope.reads g.input).bind (fun request => (scope.writes g.output).map (fun response =>
    .rpc (.typed g.name request response (fun session req => body (passed g session (.data req))))))

def eventImpl (scope : Scope δ) (body : Body ω δ) (g : Generated) : Option (Handler ω) :=
  (scope.reads g.input).map (fun codec =>
    .event (.typed g.name codec (fun session data => do
      let result ← body (passed g session (.data data))
      pure (g.invoke.tail.close result))))

def streamImpl (body : Body ω δ) (g : Generated) : Handler ω :=
  .stream ⟨g.name, fun session receiver => do
    let result ← body (passed g session (.stream receiver))
    pure (g.invoke.tail.close result)⟩

def impl (scope : Scope δ) (body : Body ω δ) (g : Generated) : Option (Handler ω) :=
  match g.kind with
  | .rpc => rpcImpl scope body g
  | .event => eventImpl scope body g
  | .stream => some (streamImpl body g)

def compile (scope : Scope δ) (item : ItemFn) (body : Body ω δ) (g : Generated) : Option (Handler ω) :=
  if (g.nameFits scope item && g.resultFits scope item) && (g.callFits item && g.tailFits item) then impl scope body g else none

/-- The struct that the attribute makes of the function, if what it puts there compiles. -/
def handlerOf (scope : Scope δ) (kind : HandlerKind) (attr : Attr) (item : ItemFn) (body : Body ω δ) : Option (Handler ω) :=
  match expand scope.upper kind attr item with
  | .ok g => compile scope item body g
  | .error _ => none

/-! What the attributes are for. -/

/-- The forms of a signature, and whether there is a session and which data there is. -/
inductive Form : List FnArg → Bool → Option RustType → Prop where
  | plain : Form [] false none
  | session {ref : RustType} : isSessionRef ref = true → Form [.typed ref] true none
  | data {ty : RustType} : isSessionType ty = false → Form [.typed ty] false (some ty)
  | both {ref ty : RustType} : isSessionRef ref = true → isSessionType ty = false →
      Form [.typed ref, .typed ty] true (some ty)

def arguments (session : Bool) (data : Option RustType) (id : SessionId) (value : Given δ) : List (Given δ) :=
  (if session then [.session id] else []) ++ (if data.isSome then [value] else [])

def forget (fallible : Bool) : Result δ → Result Unit
  | .error e => if fallible then .error e else .ok ()
  | .ok _ => .ok ()

/-- The handler under the name runs the function on what it has parameters for. -/
inductive Meant (scope : Scope δ) (attr : Attr) (item : ItemFn) (body : Body ω δ) : HandlerKind → Handler ω → Prop where
  | rpc {session : Bool} {data : Option RustType} {output : RustType} {request response : Codec δ} :
      Form item.inputs session data → returned item = some output →
      scope.reads (data.getD .unit) = some request → scope.writes output = some response →
      Meant scope attr item body .rpc (.rpc (.typed (parseName attr item.ident) request response
        (fun id req => body (arguments session data id (.data req)))))
  | event {session : Bool} {data : Option RustType} {codec : Codec δ} :
      Form item.inputs session data → (returned item).isSome = true ∨ item.output = none ∨ item.output = some .unit →
      scope.reads (data.getD .unit) = some codec →
      Meant scope attr item body .event (.event (.typed (parseName attr item.ident) codec (fun id value => do
        let result ← body (arguments session data id (.data value))
        pure (forget (returned item).isSome result))))
  | stream {session : Bool} {ty : RustType} :
      Form item.inputs session (some ty) → isStreamReceiver ty = true →
      Meant scope attr item body .stream (.stream ⟨parseName attr item.ident, fun id receiver => do
        let result ← body (arguments session (some ty) id (.stream receiver))
        pure (forget (returned item).isSome result)⟩)

/-- The function is one that can be called, a `Result` of it is taken, and its name gives one for the struct. -/
structure Plain (scope : Scope δ) (kind : HandlerKind) (item : ItemFn) : Prop where
  isAsync : item.isAsync = true
  generics : item.generics = 0
  identifier : scope.identifier (toStructName scope.upper item.ident) = true
  apart : toStructName scope.upper item.ident ≠ item.ident
  result : ∀ ty, resultOf item = some ty → scope.takes kind ty = true

variable {scope : Scope δ} {attr : Attr} {item : ItemFn} {body : Body ω δ} {kind : HandlerKind}
variable {inputs : List FnArg} {session data : Option RustType}

theorem isSessionType_of_ref {ty : RustType} (ref : isSessionRef ty = true) : isSessionType ty = true := by
  unfold isSessionRef at ref
  split at ref
  · exact (Bool.and_eq_true_iff.1 ref).2
  · cases ref

theorem typeOf_session {ty : RustType} : typeOf ty = .session ↔ isSessionRef ty = true := by
  unfold typeOf
  split
  · rename_i ref
    exact iff_of_true rfl ref
  · rename_i other
    refine iff_of_false ?_ other
    split <;> exact Ty.noConfusion

theorem typeOf_stream {ty : RustType} (other : isSessionType ty = false) : typeOf ty = .stream ↔ isStreamReceiver ty = true := by
  have no_ref : ¬ isSessionRef ty = true := by
    intro ref
    rw [isSessionType_of_ref ref] at other
    cases other
  unfold typeOf
  rw [if_neg no_ref]
  split
  · rename_i receiver
    exact iff_of_true rfl receiver
  · rename_i unlike
    exact iff_of_false Ty.noConfusion unlike

/-- What the loop over the parameters lets pass. -/
inductive Shape : List FnArg → Option RustType → Option RustType → Prop where
  | plain : Shape [] none none
  | session {a : RustType} : isSessionType a = true → Shape [.typed a] (some a) none
  | data {b : RustType} : isSessionType b = false → Shape [.typed b] none (some b)
  | both {a b : RustType} : isSessionType a = true → isSessionType b = false → Shape [.typed a, .typed b] (some a) (some b)
  | swapped {a b : RustType} : isSessionType a = true → isSessionType b = false →
      Shape [.typed b, .typed a] (some a) (some b)

section Extracting

variable {rest : List FnArg} {ty a b : RustType} {found : Option RustType × Option RustType}

theorem extract_session (session_type : isSessionType ty = true) :
    extract (.typed ty :: rest) none data = extract rest (some ty) data := by
  rw [extract, if_pos session_type]
  rfl

theorem extract_session_again (session_type : isSessionType ty = true) :
    extract (.typed ty :: rest) (some a) data = .error "Session 参数只能出现一次" := by
  rw [extract, if_pos session_type]
  rfl

theorem extract_data (other : isSessionType ty = false) :
    extract (.typed ty :: rest) session none = extract rest session (some ty) := by
  rw [extract, if_neg (Bool.eq_false_iff.1 other)]
  rfl

theorem extract_data_again (other : isSessionType ty = false) :
    extract (.typed ty :: rest) session (some b) = .error "处理器最多支持一个数据参数" := by
  rw [extract, if_neg (Bool.eq_false_iff.1 other)]
  rfl

theorem extract_full (extracted : extract rest (some a) (some b) = .ok found) : rest = [] ∧ found = (some a, some b) := by
  cases rest with
  | nil =>
    cases extracted
    exact ⟨rfl, rfl⟩
  | cons arg rest =>
    cases arg with
    | receiver => cases extracted
    | typed ty =>
      cases session_type : isSessionType ty with
      | true =>
        rw [extract_session_again session_type] at extracted
        cases extracted
      | false =>
        rw [extract_data_again session_type] at extracted
        cases extracted

theorem extract_after_session (session_type : isSessionType a = true)
    (extracted : extract rest (some a) none = .ok (session, data)) : Shape (.typed a :: rest) session data := by
  cases rest with
  | nil =>
    cases extracted
    exact .session session_type
  | cons arg rest =>
    cases arg with
    | receiver => cases extracted
    | typed ty =>
      cases second : isSessionType ty with
      | true =>
        rw [extract_session_again second] at extracted
        cases extracted
      | false =>
        rw [extract_data second] at extracted
        obtain ⟨rfl, same⟩ := extract_full extracted
        cases same
        exact .both session_type second

theorem extract_after_data (other : isSessionType b = false)
    (extracted : extract rest none (some b) = .ok (session, data)) : Shape (.typed b :: rest) session data := by
  cases rest with
  | nil =>
    cases extracted
    exact .data other
  | cons arg rest =>
    cases arg with
    | receiver => cases extracted
    | typed ty =>
      cases second : isSessionType ty with
      | true =>
        rw [extract_session second] at extracted
        obtain ⟨rfl, same⟩ := extract_full extracted
        cases same
        exact .swapped second other
      | false =>
        rw [extract_data_again second] at extracted
        cases extracted

theorem extract_shape (extracted : extract inputs none none = .ok (session, data)) : Shape inputs session data := by
  cases inputs with
  | nil =>
    cases extracted
    exact .plain
  | cons arg rest =>
    cases arg with
    | receiver => cases extracted
    | typed ty =>
      cases first : isSessionType ty with
      | true =>
        rw [extract_session first] at extracted
        exact extract_after_session first extracted
      | false =>
        rw [extract_data first] at extracted
        exact extract_after_data first extracted

end Extracting

theorem Form.extracts {known : Bool} (form : Form inputs known data) :
    ∃ session, extract inputs none none = .ok (session, data) ∧ session.isSome = known := by
  cases form with
  | plain => exact ⟨none, rfl, rfl⟩
  | session ref => exact ⟨_, extract_session (isSessionType_of_ref ref), rfl⟩
  | data other => exact ⟨none, extract_data other, rfl⟩
  | both ref other => exact ⟨_, (extract_session (isSessionType_of_ref ref)).trans (extract_data other), rfl⟩

/-- What the attributes build from what they found. -/
def built (kind : HandlerKind) (structName name : String) (session data : Option RustType) (output : RustType)
    (isResult : Bool) : Generated where
  kind
  structName
  name
  input := data.getD .unit
  output
  sessionParam := (implParams kind session data).1
  dataParam := (implParams kind session data).2
  invoke := buildInvoke kind session data isResult

section Built

variable {structName name : String} {output : RustType} {isResult : Bool}

theorem built_args : (built kind structName name session data output isResult).invoke.args.mapM
    (fun arg => (built kind structName name session data output isResult).params.lookup arg) =
      some ((if session.isSome then [.session] else []) ++
        (if data.isSome then [if kind = .stream then .stream else typeOf (data.getD .unit)] else [])) := by
  cases kind <;> cases session <;> cases data <;> rfl

theorem built_passed (id : SessionId) (value : Given δ) :
    passed (built kind structName name session data output isResult) id value = arguments session.isSome data id value := by
  cases kind <;> cases session <;> cases data <;> rfl

theorem not_ref {b : RustType} (other : isSessionType b = false) : ¬ isSessionRef b = true := by
  intro ref
  rw [isSessionType_of_ref ref] at other
  cases other

theorem data_fits {b : RustType} (other : isSessionType b = false) :
    (if kind = .stream then Ty.stream else typeOf b) = typeOf b ↔ (kind = .stream → isStreamReceiver b = true) := by
  by_cases streams : kind = .stream
  · rw [if_pos streams, eq_comm, typeOf_stream other]
    exact ⟨fun receiver _ => receiver, fun receiver => receiver streams⟩
  · rw [if_neg streams]
    exact iff_of_true rfl (fun streaming => absurd streaming streams)

/-- The call fits in the forms that are meant, and in no other one. -/
theorem callFits_iff (shape : Shape item.inputs session data) :
    (built kind structName name session data output isResult).callFits item = true ↔
      Form item.inputs session.isSome data ∧ (kind = .stream → ∀ ty, data = some ty → isStreamReceiver ty = true) := by
  rw [Generated.callFits, built_args]
  generalize item.inputs = inputs at shape ⊢
  cases shape with
  | plain => exact iff_of_true rfl ⟨.plain, fun _ _ same => by cases same⟩
  | @session a session_type =>
    show ([Ty.session] == [typeOf a]) = true ↔ _
    rw [beq_iff_eq, List.cons.injEq, eq_comm, typeOf_session]
    constructor
    · rintro ⟨ref, -⟩
      exact ⟨.session ref, fun _ _ same => by cases same⟩
    · rintro ⟨form, -⟩
      cases form with
      | session ref => exact ⟨ref, rfl⟩
  | @data b other =>
    show ([if kind = .stream then Ty.stream else typeOf b] == [typeOf b]) = true ↔ _
    rw [beq_iff_eq, List.cons.injEq, data_fits other]
    constructor
    · rintro ⟨receiver, -⟩
      refine ⟨.data other, fun streams ty same => ?_⟩
      cases same
      exact receiver streams
    · rintro ⟨-, receiver⟩
      exact ⟨fun streams => receiver streams b rfl, rfl⟩
  | @both a b session_type other =>
    show ([Ty.session, if kind = .stream then Ty.stream else typeOf b] == [typeOf a, typeOf b]) = true ↔ _
    rw [beq_iff_eq, List.cons.injEq, List.cons.injEq, data_fits other, eq_comm, typeOf_session]
    constructor
    · rintro ⟨ref, receiver, -⟩
      refine ⟨.both ref other, fun streams ty same => ?_⟩
      cases same
      exact receiver streams
    · rintro ⟨form, receiver⟩
      cases form with
      | both ref other => exact ⟨ref, fun streams => receiver streams b rfl, rfl⟩
  | @swapped a b session_type other =>
    show ([Ty.session, if kind = .stream then Ty.stream else typeOf b] == [typeOf b, typeOf a]) = true ↔ _
    rw [beq_iff_eq, List.cons.injEq, eq_comm, typeOf_session]
    refine iff_of_false (fun both => not_ref other both.1) ?_
    rintro ⟨form, -⟩
    cases form with
    | both ref _ => exact not_ref other ref

end Built

/-- The answer's type, and whether it comes in a `Result`. -/
def respOf (kind : HandlerKind) (item : ItemFn) : RustType :=
  match kind with
  | .rpc => (parseReturn item.output).1
  | _ => .unit

def Accepts (kind : HandlerKind) (item : ItemFn) (data : Option RustType) : Prop :=
  match kind with
  | .rpc => True
  | .event => (parseReturn item.output).1 = .unit ∨ (parseReturn item.output).2 = true
  | .stream => ∃ ty, data = some ty ∧ typeLastSegment "StreamReceiver" ty = true

section Accepting

variable {structName name : String} {g : Generated}

theorem expandEvent_ok : expandEvent item name structName session data = .ok g ↔
    Accepts .event item data ∧ g = built .event structName name session data .unit (parseReturn item.output).2 := by
  have opposite : Accepts .event item data ↔ ¬ ((parseReturn item.output).1 ≠ .unit ∧ (parseReturn item.output).2 = false) := by
    rw [not_and_or, not_not, Bool.not_eq_false]
    rfl
  by_cases refused : (parseReturn item.output).1 ≠ .unit ∧ (parseReturn item.output).2 = false
  · have error : expandEvent item name structName session data = .error "事件处理器返回值必须是 Result<()> 或 ()" := if_pos refused
    rw [error]
    exact iff_of_false (fun same => by cases same) (fun both => opposite.1 both.1 refused)
  · have ok : expandEvent item name structName session data =
        .ok (built .event structName name session data .unit (parseReturn item.output).2) := if_neg refused
    rw [ok, Except.ok.injEq]
    exact ⟨fun same => ⟨opposite.2 refused, same.symm⟩, fun both => both.2.symm⟩

theorem expandStream_ok : expandStream item name structName session data = .ok g ↔
    Accepts .stream item data ∧ g = built .stream structName name session data .unit (parseReturn item.output).2 := by
  cases data with
  | none =>
    refine iff_of_false (fun same => by cases same) ?_
    rintro ⟨⟨ty, same, -⟩, -⟩
    cases same
  | some ty =>
    cases receiver : typeLastSegment "StreamReceiver" ty with
    | false =>
      have error : expandStream item name structName session (some ty) = .error "流处理器的数据参数必须是 StreamReceiver" :=
        if_pos receiver
      rw [error]
      refine iff_of_false (fun same => by cases same) ?_
      rintro ⟨⟨other, same, there⟩, -⟩
      cases same
      exact Bool.false_ne_true (receiver.symm.trans there)
    | true =>
      have ok : expandStream item name structName session (some ty) =
          .ok (built .stream structName name session (some ty) .unit (parseReturn item.output).2) :=
        if_neg (fun other => Bool.false_ne_true (other.symm.trans receiver))
      rw [ok, Except.ok.injEq]
      exact ⟨fun same => ⟨⟨ty, rfl, receiver⟩, same.symm⟩, fun both => both.2.symm⟩

theorem expand_ok {upper : Char → List Char} : expand upper kind attr item = .ok g ↔
    item.isAsync = true ∧ item.generics = 0 ∧ ∃ session data, extract item.inputs none none = .ok (session, data) ∧
      Accepts kind item data ∧ g = built kind (toStructName upper item.ident) (parseName attr item.ident) session data
        (respOf kind item) (parseReturn item.output).2 := by
  unfold expand
  cases waits : item.isAsync with
  | false => exact iff_of_false (fun same => by cases same) (fun both => Bool.false_ne_true both.1)
  | true =>
    rw [if_neg (fun same => Bool.noConfusion same)]
    by_cases generic : item.generics = 0
    · rw [if_neg (not_not_intro generic)]
      cases extracted : extract item.inputs none none with
      | error e =>
        refine iff_of_false (fun same => by cases same) ?_
        rintro ⟨-, -, session, data, same, -⟩
        cases same
      | ok found =>
        obtain ⟨session, data⟩ := found
        have only : ∀ {P : Option RustType → Option RustType → Prop}, (true = true ∧ item.generics = 0 ∧ ∃ s d,
            (Except.ok (session, data) : Except String _) = .ok (s, d) ∧ P s d) ↔ P session data := by
          intro P
          constructor
          · rintro ⟨-, -, s, d, same, holds⟩
            cases same
            exact holds
          · exact fun holds => ⟨rfl, generic, session, data, rfl, holds⟩
        rw [only]
        cases kind with
        | rpc => exact ⟨fun same => ⟨trivial, (Except.ok.inj same).symm⟩, fun both => congrArg Except.ok both.2.symm⟩
        | event => exact expandEvent_ok
        | stream => exact expandStream_ok
    · rw [if_pos generic]
      exact iff_of_false (fun same => by cases same) (fun both => generic both.2.1)

end Accepting

section Compiling

variable {structName name : String} {output : RustType} {isResult : Bool} {handler : Handler ω}

theorem returned_of {ty : RustType} : returned item = some ty ↔ parseReturn item.output = (ty, true) := by
  unfold returned
  cases parsed : parseReturn item.output with
  | mk found isResult =>
    cases isResult with
    | false => exact iff_of_false (fun same => by cases same) (fun same => by cases same)
    | true => exact ⟨fun same => by cases same; rfl, fun same => by cases same; rfl⟩

theorem returned_isSome (item : ItemFn) : (returned item).isSome = (parseReturn item.output).2 := by
  cases isResult : (parseReturn item.output).2 with
  | true => rw [returned_of.2 (Prod.ext rfl isResult), Option.isSome_some]
  | false =>
    cases found : returned item with
    | none => rfl
    | some ty =>
      rw [returned_of.1 found] at isResult
      cases isResult

theorem unit_returned : (parseReturn item.output).1 = .unit ∧ (parseReturn item.output).2 = false ↔
    item.output = none ∨ item.output = some .unit := by
  cases item.output with
  | none => exact iff_of_true ⟨rfl, rfl⟩ (Or.inl rfl)
  | some ty =>
    cases ty with
    | applied leading last argument others =>
      rw [parseReturn]
      split
      · exact iff_of_false (fun both => Bool.noConfusion both.2) (by rintro (same | same) <;> cases same)
      · exact iff_of_false (fun both => RustType.noConfusion both.1) (by rintro (same | same) <;> cases same)
    | unit => exact iff_of_true ⟨rfl, rfl⟩ (Or.inr rfl)
    | _ => exact iff_of_false (fun both => RustType.noConfusion both.1) (by rintro (same | same) <;> cases same)

theorem accepts_event : Accepts .event item data ↔
    (returned item).isSome = true ∨ item.output = none ∨ item.output = some .unit := by
  rw [returned_isSome, ← unit_returned]
  show _ ∨ _ ↔ _
  cases (parseReturn item.output).2 with
  | true => exact iff_of_true (Or.inr rfl) (Or.inl rfl)
  | false => simp

theorem tailFits_iff : (built kind structName name session data (respOf kind item) (parseReturn item.output).2).tailFits item = true ↔
    (kind = .rpc → (parseReturn item.output).2 = true) := by
  have found := returned_isSome item
  cases isResult : (parseReturn item.output).2 with
  | true =>
    refine iff_of_true ?_ (fun _ => rfl)
    have inside : returned item = some (parseReturn item.output).1 := returned_of.2 (Prod.ext rfl isResult)
    cases kind with
    | rpc => exact beq_iff_eq.2 inside
    | _ => exact found.trans isResult
  | false =>
    have outside : returned item = none := Option.not_isSome_iff_eq_none.1 (by rw [found, isResult]; exact Bool.false_ne_true)
    cases kind with
    | rpc =>
      refine iff_of_false ?_ (fun fits => Bool.false_ne_true (fits rfl))
      show ¬ (returned item == some (respOf .rpc item)) = true
      rw [outside]
      exact Bool.false_ne_true
    | _ => exact iff_of_true rfl (fun same => by cases same)

theorem built_close (other : kind ≠ .rpc) (result : Result δ) :
    (built kind structName name session data .unit (parseReturn item.output).2).invoke.tail.close result =
      forget (returned item).isSome result := by
  rw [returned_isSome]
  generalize (parseReturn item.output).2 = isResult
  cases kind with
  | rpc => exact absurd rfl other
  | _ => cases isResult <;> cases result <;> rfl

theorem compile_some {g : Generated} : compile scope item body g = some handler ↔
    ((g.nameFits scope item = true ∧ g.resultFits scope item = true) ∧ g.callFits item = true ∧ g.tailFits item = true) ∧
      impl scope body g = some handler := by
  unfold compile
  rw [← Bool.and_eq_true_iff, ← Bool.and_eq_true_iff, ← Bool.and_eq_true_iff]
  by_cases fits : ((g.nameFits scope item && g.resultFits scope item) && (g.callFits item && g.tailFits item)) = true
  · rw [if_pos fits]
    exact ⟨fun made => ⟨fits, made⟩, fun both => both.2⟩
  · rw [if_neg fits]
    exact iff_of_false (fun same => by cases same) (fun both => fits both.1)

theorem nameFits_iff : (built kind (toStructName scope.upper item.ident) name session data output isResult).nameFits scope item = true ↔
    scope.identifier (toStructName scope.upper item.ident) = true ∧ toStructName scope.upper item.ident ≠ item.ident :=
  Bool.and_eq_true_iff.trans (and_congr_right fun _ => bne_iff_ne)

theorem resultFits_iff : (built kind structName name session data output isResult).resultFits scope item = true ↔
    ∀ ty, resultOf item = some ty → scope.takes kind ty = true := by
  rw [Generated.resultFits]
  exact Option.all_eq_true _ _

theorem Form.unique {first second : Bool} {other : Option RustType} (form : Form inputs first data)
    (again : Form inputs second other) : first = second ∧ data = other := by
  cases form with
  | plain =>
    cases again
    exact ⟨rfl, rfl⟩
  | session ref =>
    cases again with
    | session _ => exact ⟨rfl, rfl⟩
    | data kind => exact absurd ref (not_ref kind)
  | data kind =>
    cases again with
    | session ref => exact absurd ref (not_ref kind)
    | data _ => exact ⟨rfl, rfl⟩
  | both _ _ =>
    cases again
    exact ⟨rfl, rfl⟩

theorem rpcImpl_iff (form : Form item.inputs session.isSome data) (result : (parseReturn item.output).2 = true) :
    rpcImpl scope body (built .rpc structName (parseName attr item.ident) session data (respOf .rpc item) isResult) =
      some handler ↔ Meant scope attr item body .rpc handler := by
  unfold rpcImpl
  simp only [built_passed, Option.bind_eq_some_iff, Option.map_eq_some_iff]
  constructor
  · rintro ⟨request, reads, response, writes, rfl⟩
    exact .rpc form (returned_of.2 (Prod.ext rfl result)) reads writes
  · intro meant
    cases meant with
    | rpc again returns reads writes =>
      obtain ⟨rfl, rfl⟩ := form.unique again
      have output := congrArg Prod.fst (returned_of.1 returns)
      exact ⟨_, reads, _, (congrArg scope.writes output).trans writes, rfl⟩

theorem eventImpl_iff (form : Form item.inputs session.isSome data) (accepts : Accepts .event item data) :
    eventImpl scope body (built .event structName (parseName attr item.ident) session data .unit (parseReturn item.output).2) =
      some handler ↔ Meant scope attr item body .event handler := by
  have closes : ∀ result : Result δ, (built .event structName (parseName attr item.ident) session data .unit
      (parseReturn item.output).2).invoke.tail.close result = forget (returned item).isSome result :=
    built_close (fun same => by cases same)
  unfold eventImpl
  simp only [built_passed, closes, Option.map_eq_some_iff]
  constructor
  · rintro ⟨codec, reads, rfl⟩
    exact .event form (accepts_event.1 accepts) reads
  · intro meant
    cases meant with
    | event again returns reads =>
      obtain ⟨rfl, rfl⟩ := form.unique again
      exact ⟨_, reads, rfl⟩

theorem streamImpl_iff {ty : RustType} (form : Form item.inputs session.isSome (some ty)) (receiver : isStreamReceiver ty = true) :
    streamImpl body (built .stream structName (parseName attr item.ident) session (some ty) .unit (parseReturn item.output).2) =
      handler ↔ Meant scope attr item body .stream handler := by
  have closes : ∀ result : Result δ, (built .stream structName (parseName attr item.ident) session (some ty) .unit
      (parseReturn item.output).2).invoke.tail.close result = forget (returned item).isSome result :=
    built_close (fun same => by cases same)
  unfold streamImpl
  simp only [built_passed, closes]
  constructor
  · rintro rfl
    exact .stream form receiver
  · intro meant
    cases meant with
    | stream again _ =>
      obtain ⟨rfl, same⟩ := form.unique again
      cases same
      rfl

theorem typeLastSegment_of_receiver {ty : RustType} (receiver : isStreamReceiver ty = true) :
    typeLastSegment "StreamReceiver" ty = true := by
  cases ty with
  | path leading last => exact receiver
  | _ => cases receiver

end Compiling

theorem handlerOf_impl (plain : Plain scope kind item) (extracted : extract item.inputs none none = .ok (session, data))
    (form : Form item.inputs session.isSome data) (accepts : Accepts kind item data)
    (result : kind = .rpc → (parseReturn item.output).2 = true)
    (receives : kind = .stream → ∀ ty, data = some ty → isStreamReceiver ty = true) :
    handlerOf scope kind attr item body = impl scope body (built kind (toStructName scope.upper item.ident)
      (parseName attr item.ident) session data (respOf kind item) (parseReturn item.output).2) := by
  have expanded : expand scope.upper kind attr item = .ok _ :=
    expand_ok.2 ⟨plain.isAsync, plain.generics, session, data, extracted, accepts, rfl⟩
  unfold handlerOf
  rw [expanded]
  refine if_pos (Bool.and_eq_true_iff.2 ⟨Bool.and_eq_true_iff.2 ⟨?_, ?_⟩, Bool.and_eq_true_iff.2 ⟨?_, ?_⟩⟩)
  · exact nameFits_iff.2 ⟨plain.identifier, plain.apart⟩
  · exact resultFits_iff.2 plain.result
  · exact (callFits_iff (extract_shape extracted)).2 ⟨form, receives⟩
  · exact tailFits_iff.2 result

end EchoStream.Derive.Expand
