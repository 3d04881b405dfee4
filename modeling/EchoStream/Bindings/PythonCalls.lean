import EchoStream.Core.ChannelSwitch
import EchoStream.Bindings.Arguments

/-! A call from Python to Python. The client writes the arguments one behind the other,
and the function that the server has for the name is called with what is inferred from
them. A server that is built in Python has no middlewares. -/

namespace EchoStream.Bindings.PythonCalls
open Foundation Foundation.Tasks Foundation.Reading Foundation.Writing Foundation.Zigzag
open Proto Proto.Messages Proto.Payload Proto.Inferring Proto.Postcard Proto.Endpoint
open Core.Handler Core.Chain Core.Dispatch Core.Request Core.ChannelSwitch
open PythonCodec EchoStream.Bindings.Lists EchoStream.Bindings.Arguments

structure PyErr where
  kind : String
  message : String
deriving DecidableEq

def PyErr.text (e : PyErr) : String := e.kind ++ ": " ++ e.message

def raised {α : Type} : Reading.Outcome α → Except PyErr α
  | .ok value => .ok value
  | .err text => .error ⟨if text = "UnicodeDecodeError" then text else "ValueError", text⟩
  | .panic => .error ⟨"PanicException", ""⟩

inductive Decoder where
  | schema (value : PyValue)
  | function (decode : Bytes → Except PyErr PyValue)

/-- The options of a call that are looked at. One that is not given is `None`. -/
structure Options where
  decode : Decoder
  encode : PyValue

def Options.none : Options := ⟨.schema .none, .none⟩

def Options.merged (options : Options) (fields : List (String × PyValue)) : Options where
  decode := match fields.lookup "decode" with
    | some value => .schema value
    | _ => options.decode
  encode := match fields.lookup "encode" with
    | some value => value
    | _ => options.encode

def split_args (args : List PyValue) (options : Options) : PyValue × Options :=
  match args with
  | [] => (.none, options)
  | [payload] => (payload, options)
  | [payload, .dict fields] =>
      if (fields.lookup "decode").isSome ∨ (fields.lookup "encode").isSome then (payload, options.merged fields)
      else (.list args, options)
  | _ => (.list args, options)

mutual

def encodeSchema : PyValue → PySchema
  | .str text => if text = "list" then .list else .other
  | .dict fields => .dict (encodeSchemas fields)
  | _ => .other

def encodeSchemas : List (String × PyValue) → List (String × PySchema)
  | [] => []
  | (key, schema) :: schemas => (key, encodeSchema schema) :: encodeSchemas schemas

end

def encode_args (payload : PyValue) (options : Options) : Reading.Outcome Bytes :=
  encode_payload payload (encodeSchema options.encode)

def schemaNamed (name : String) : Option Schema :=
  [("auto", Schema.auto), ("json", .auto), ("number", .prim .number), ("int", .prim .number), ("i64", .prim .number),
    ("bigint", .prim .bigint), ("u64", .prim .u64), ("bool", .prim .bool), ("string", .prim .str), ("bytes", .prim .bytes),
    ("f64", .prim .f64), ("f32", .prim .f32), ("list", .list .auto)].lookup name

mutual

def readBy : PyValue → Read Reader PyValue
  | .none => python.top .auto
  | .str name =>
      match schemaNamed name with
      | some schema => python.top schema
      | none => .refuse ("未知 schema: " ++ name)
  | .list schemas => PyValue.list <$> readItems schemas
  | .dict schemas => PyValue.dict <$> readFields schemas
  | _ => .refuse "schema 必须是字符串 / 列表 / 字典"

def readItems : List PyValue → Read Reader (List PyValue)
  | [] => pure []
  | schema :: schemas => do
      let value ← readBy schema
      let rest ← readItems schemas
      pure (value :: rest)

def readFields : List (String × PyValue) → Read Reader (List (String × PyValue))
  | [] => pure []
  | (key, schema) :: schemas => do
      let value ← readBy schema
      let rest ← readFields schemas
      pure ((key, value) :: rest)

end

def decode_args (data : Bytes) (options : Options) : Except PyErr PyValue :=
  match options.decode with
  | .schema schema => raised (Dialect.finish (readBy schema (.new data)))
  | .function decode => decode data

variable {ω : Type}

/-- A function of the application: it returns a value, or raises. -/
abbrev PyFunction (ω : Type) := List PyValue → Task (App ω) (Except PyErr PyValue)

/-- The callback that is registered for a function that answers calls. -/
def answering (handler : PyFunction ω) (data : Bytes) : Task (App ω) (Except PyErr Bytes) :=
  match raised (decode_payload data .auto) with
  | .error e => pure (.error e)
  | .ok decoded => do
      match ← handler (spread decoded) with
      | .error e => pure (.error e)
      | .ok .none => pure (.error ⟨"ValueError", "RPC 处理器未返回响应"⟩)
      | .ok result => pure (raised (encode_payload result .other))

/-- The callback that is registered for a function that listens to events. -/
def listening (handler : PyFunction ω) (data : Bytes) : Task (App ω) (Except PyErr Unit) :=
  match raised (decode_payload data .auto) with
  | .error e => pure (.error e)
  | .ok decoded => do
      match ← handler (spread decoded) with
      | .error e => pure (.error e)
      | .ok _ => pure (.ok ())

def called {α : Type} (outcome : Except PyErr α) : Result α :=
  match outcome with
  | .ok value => .ok value
  | .error e => .error (.io e.text)

def pyRpcHandler (name : String) (callback : Bytes → Task (App ω) (Except PyErr Bytes)) : RpcHandler ω where
  name
  handleEncoded _ payload := do
    let outcome ← callback payload
    pure (called outcome)

def pyEventHandler (name : String) (callback : Bytes → Task (App ω) (Except PyErr Unit)) : EventHandler ω where
  name
  handleEncoded _ payload := do
    let outcome ← callback payload
    pure (called outcome)

def pyStreamHandler (name : String) (callback : StreamReceiver → Task (App ω) (Except PyErr Unit)) :
    StreamHandler ω where
  name
  handle _ stream := do
    let outcome ← callback stream
    pure (called outcome)

inductive Registration (ω : Type) where
  | rpc (name : String) (handler : PyFunction ω)
  | event (name : String) (handler : PyFunction ω)
  | stream (name : String) (handler : StreamReceiver → Task (App ω) (Except PyErr Unit))

def register (router : Router ω) : Registration ω → Router ω
  | .rpc name handler => (router.addRpc (pyRpcHandler name (answering handler))).1
  | .event name handler => (router.addEvent (pyEventHandler name (listening handler))).1
  | .stream name handler => (router.addStream (pyStreamHandler name handler)).1

def build (registrations : List (Registration ω)) : Router ω := registrations.foldl register .new

def to_py_err (e : Error) : PyErr := ⟨"RuntimeError", e.text⟩

def resulting (options : Options) : Result Bytes → Except PyErr PyValue
  | .error e => .error (to_py_err e)
  | .ok resp => decode_args resp options

/-- A call by the client. Other calls are on the channel before and after it. -/
def request (passed : Nat → App ω → Bool) (router : Router ω) (session : SessionId) (timing : Timing)
    (before after : List RequestMsg)
    (id id' : UInt64) (name : String) (args : List PyValue) (options : Options) (app : App ω) : Except PyErr PyValue := do
  let split := split_args args options
  let data ← raised (encode_args split.1 split.2)
  resulting split.2 (requestRaw wire passed router session timing before after id id' name data app)

/-! Which arguments are inferred to be what they are. -/

/-- Integers of 64 bits that cannot be the length of what follows, and texts and binary
data that are not empty. Binary data is no text. -/
def Plain : List PyValue → Prop
  | [] => True
  | .int n :: later =>
      -2 ^ 63 ≤ n ∧ n < 2 ^ 63 ∧ (n = 0 ∨ (written (Writer.values later)).length < zigzag n) ∧ Plain later
  | .str text :: later => text ≠ "" ∧ Plain later
  | .bytes data :: later => data ≠ [] ∧ Utf8.decode? data = none ∧ Plain later
  | _ => False

/-- A number, a text or binary data. -/
def Scalar : PyValue → Prop
  | .int _ => True
  | .str _ => True
  | .bytes _ => True
  | _ => False

theorem inferred_scalar (data : Bytes) : Scalar (PythonCodec.inferred data) := by
  unfold PythonCodec.inferred
  split <;> trivial

theorem splits_scalar {data : Bytes} {values : List PyValue} (splits : Inference.Splits PythonCodec.inference data values) :
    ∀ value ∈ values, Scalar value := by
  induction splits with
  | nothing => exact fun value member => absurd member List.not_mem_nil
  | zero front none rest ih => exact List.forall_mem_cons.2 ⟨trivial, ih⟩
  | sized front some enough rest ih => exact List.forall_mem_cons.2 ⟨inferred_scalar _, ih⟩
  | number front some short rest ih => exact List.forall_mem_cons.2 ⟨trivial, ih⟩

theorem splits_front {data rest : Bytes} {n : Nat} (front : Formats.getGroups 127 10 data = some (n, rest)) {value : PyValue}
    {values : List PyValue} : Inference.Splits PythonCodec.inference data (value :: values) ↔
      (n = 0 ∧ value = .int 0 ∧ Inference.Splits PythonCodec.inference rest values) ∨
      (n ≠ 0 ∧ n ≤ rest.length ∧ value = PythonCodec.inferred (rest.take n) ∧
        Inference.Splits PythonCodec.inference (rest.drop n) values) ∨
      (n ≠ 0 ∧ rest.length < n ∧ value = .int (PythonCodec.fromZigzag n) ∧
        Inference.Splits PythonCodec.inference rest values) := by
  constructor
  · intro splits
    cases splits with
    | zero there none later =>
      rw [front] at there
      cases there
      exact Or.inl ⟨none, rfl, later⟩
    | sized there some enough later =>
      rw [front] at there
      cases there
      exact Or.inr (Or.inl ⟨some, enough, rfl, later⟩)
    | number there some short later =>
      rw [front] at there
      cases there
      exact Or.inr (Or.inr ⟨some, short, rfl, later⟩)
  · intro ways
    rcases ways with ⟨none, rfl, later⟩ | ⟨some, enough, rfl, later⟩ | ⟨some, short, rfl, later⟩
    · exact .zero front none later
    · exact .sized front some enough later
    · exact .number front some short later

theorem writeVarint_front {n : Nat} (bound : n < 2 ^ 64) (rest : Bytes) :
    Formats.getGroups 127 10 (writeVarint n ++ rest) = some (n, rest) := by
  rw [writeVarint_eq (Nat.lt_of_lt_of_le bound (by decide))]
  exact Formats.getGroups_putGroups (by decide) (Nat.lt_of_lt_of_le bound (by decide)) rest

theorem prefixed_splits {front back : Bytes} (bound : front.length < 2 ^ 64) {value : PyValue} {values : List PyValue} :
    Inference.Splits PythonCodec.inference (PythonCodec.Writer.prefixed front ++ back) (value :: values) ↔
      (front = [] ∧ value = .int 0 ∨ front ≠ [] ∧ value = PythonCodec.inferred front) ∧
        Inference.Splits PythonCodec.inference back values := by
  have there := writeVarint_front bound (front ++ back)
  rw [PythonCodec.Writer.prefixed, List.append_assoc, splits_front there, List.length_append, List.take_left, List.drop_left]
  by_cases empty : front = []
  · rw [empty]
    simp
  · have some : front.length ≠ 0 := mt List.length_eq_zero_iff.1 empty
    simp [empty]

theorem fromZigzag_eq {v : Nat} (bound : v < 2 ^ 64) : PythonCodec.fromZigzag v = unzigzag v := by
  rw [PythonCodec.fromZigzag, Nat.mod_eq_of_lt bound, decodeUnbounded_eq]

theorem int_not_inferred (n : Int) (data : Bytes) : PyValue.int n ≠ PythonCodec.inferred data := by
  unfold PythonCodec.inferred
  split <;> simp

theorem int_splits {n : Int} (above : -2 ^ 63 ≤ n) (below : n < 2 ^ 63) {back : Bytes} {values : List PyValue} :
    Inference.Splits PythonCodec.inference (writeVarint (encodeMasked n) ++ back) (.int n :: values) ↔
      (n = 0 ∨ back.length < zigzag n) ∧ Inference.Splits PythonCodec.inference back values := by
  have bound : zigzag n < 2 ^ 64 := by
    unfold zigzag
    split <;> omega
  rw [encodeMasked_eq above below, splits_front (writeVarint_front bound back), fromZigzag_eq bound, unzigzag_zigzag]
  by_cases zero : n = 0
  · subst zero
    have none : zigzag 0 = 0 := rfl
    simp [none]
  · have some : zigzag n ≠ 0 := mt zigzag_eq_zero.1 zero
    simp [zero, some, int_not_inferred]

/-- Beyond 64 bits with a sign a number is written in another way than it is read. -/
theorem large_splits {n : Int} (above : 2 ^ 63 ≤ n) (below : n < 2 ^ 64) {back : Bytes} {values : List PyValue} :
    ¬ Inference.Splits PythonCodec.inference (writeVarint n.toNat ++ back) (.int n :: values) := by
  have bound : n.toNat < 2 ^ 64 := by omega
  rw [splits_front (writeVarint_front bound back), fromZigzag_eq bound]
  rintro (⟨zero, -, -⟩ | ⟨-, -, same, -⟩ | ⟨-, -, same, -⟩)
  · omega
  · exact int_not_inferred n _ same
  · have within : n.toNat < 2 ^ (63 + 1) := bound
    have bounds := unzigzag_bounds within
    have inner := PyValue.int.inj same
    omega

theorem encode_empty_iff (text : String) : Utf8.encode text = [] ↔ text = "" := by
  constructor
  · intro none
    have decoded : Utf8.decode? [] = some text := Utf8.decode?_eq_some.2 none
    have nothing : Utf8.decode? [] = some "" := Utf8.decode?_encode ""
    exact Option.some.inj (decoded.symm.trans nothing)
  · rintro rfl
    rfl

theorem bytes_inferred_iff (data : Bytes) : PyValue.bytes data = PythonCodec.inferred data ↔ Utf8.decode? data = none := by
  unfold PythonCodec.inferred
  cases Utf8.decode? data <;> simp

theorem splits_iff {args : List PyValue} {data : Bytes} (wrote : PythonCodec.Writer.values args = .ok data)
    (bound : data.length < 2 ^ 64) : Inference.Splits PythonCodec.inference data args ↔ Plain args := by
  induction args generalizing data with
  | nil =>
    cases wrote
    exact iff_of_true .nothing trivial
  | cons arg later ih =>
    obtain ⟨front, back, first, others, rfl⟩ := both_ok.1 wrote
    rw [List.length_append] at bound
    have rest := ih others (by omega)
    cases arg with
    | int n =>
      have length : (written (PythonCodec.Writer.values later)).length = back.length := by rw [others]; rfl
      have first : PythonCodec.Writer.int n = .ok front := first
      unfold PythonCodec.Writer.int at first
      split at first
      · rename_i within
        cases first
        rw [int_splits within.1 (by omega), rest]
        simp only [Plain, length]
        constructor
        · exact fun both => ⟨within.1, by omega, both.1, both.2⟩
        · exact fun all => ⟨all.2.2.1, all.2.2.2⟩
      · rename_i outside
        split at first
        · rename_i unsigned
          cases first
          apply iff_of_false (large_splits (by omega) (by omega))
          intro plain
          exact outside ⟨plain.1, by have := plain.2.1; omega⟩
        · cases first
    | str text =>
      cases first
      have short : (Utf8.encode text).length < 2 ^ 64 := by
        rw [PythonCodec.Writer.prefixed, List.length_append] at bound
        omega
      have again : PythonCodec.inferred (Utf8.encode text) = .str text := by
        rw [PythonCodec.inferred, Utf8.decode?_encode]
      rw [prefixed_splits short, rest, again]
      simp [Plain, encode_empty_iff]
    | bytes data =>
      cases first
      have short : data.length < 2 ^ 64 := by
        rw [PythonCodec.Writer.prefixed, List.length_append] at bound
        omega
      rw [prefixed_splits short, rest, bytes_inferred_iff]
      simp [Plain, and_assoc]
    | _ => exact iff_of_false (fun splits => splits_scalar splits _ List.mem_cons_self) (fun plain => plain)

/-- A payload of several fields is decoded to the list of them, one of a single field to
it, and an empty one to `None`. -/
theorem decoded_iff {data : Bytes} (bound : data.length < 2 ^ 64) {decoded : PyValue} :
    decode_payload data .auto = .ok decoded ↔ ∃ values, Inference.Splits PythonCodec.inference data values ∧
      decoded = if values = [] then .none else python.pack values := by
  rw [decode_payload, Dialect.decode_ok]
  by_cases empty : data = []
  · subst empty
    constructor
    · rintro ⟨rest, came, -⟩
      cases came
      exact ⟨[], .nothing, rfl⟩
    · rintro ⟨values, splits, rfl⟩
      cases values with
      | nil => exact ⟨_, auto_nothing 0, rfl⟩
      | cons value values => exact absurd splits Inference.not_splits_nothing
  · have start : 0 + data.length < 2 ^ 64 := by omega
    have read : ∀ value rest, python.auto ⟨0, data⟩ = .ok (value, rest) ↔ ∃ values,
        Inference.Splits PythonCodec.inference data values ∧ value = python.pack values ∧ rest = ⟨0 + data.length, []⟩ :=
      fun _ _ => auto_iff rfl (python_sound (2 ^ 64)) start empty
    constructor
    · rintro ⟨rest, came, -⟩
      obtain ⟨values, splits, same, -⟩ := (read _ _).1 came
      have some : values ≠ [] := by
        rintro rfl
        exact empty (Inference.splits_nil.1 splits)
      exact ⟨values, splits, by rw [if_neg some, same]⟩
    · rintro ⟨values, splits, rfl⟩
      have some : values ≠ [] := by
        rintro rfl
        exact empty (Inference.splits_nil.1 splits)
      rw [if_neg some]
      exact ⟨_, (read _ _).2 ⟨values, splits, rfl, rfl⟩, rfl⟩

theorem spread_scalar {value : PyValue} (scalar : Scalar value) : spread value = [value] := by
  cases value <;> first | exact scalar.elim | rfl

theorem spread_iff {data : Bytes} (bound : data.length < 2 ^ 64) {values : List PyValue} :
    (∃ decoded, decode_payload data .auto = .ok decoded ∧ spread decoded = values) ↔
      Inference.Splits PythonCodec.inference data values := by
  have fields : ∀ {values}, Inference.Splits PythonCodec.inference data values →
      spread (if values = [] then .none else python.pack values) = values := by
    intro values splits
    match values with
    | [] => rfl
    | [value] => exact spread_scalar (splits_scalar splits value List.mem_cons_self)
    | first :: second :: others => rfl
  constructor
  · rintro ⟨decoded, came, rfl⟩
    obtain ⟨values, splits, rfl⟩ := (decoded_iff bound).1 came
    rw [fields splits]
    exact splits
  · intro splits
    exact ⟨_, (decoded_iff bound).2 ⟨values, splits, rfl⟩, fields splits⟩

/-- A list of at least two plain values, or one plain value. -/
def Returned : PyValue → Prop
  | .list items => 2 ≤ items.length ∧ Plain items
  | value => Plain [value]

theorem value_single (value : PyValue) : PythonCodec.Writer.values [value] = PythonCodec.Writer.value value :=
  both_nothing _

theorem returned_iff {value : PyValue} {data : Bytes} (some : value ≠ .none)
    (wrote : PythonCodec.Writer.value value = .ok data) (bound : data.length < 2 ^ 64) :
    decode_payload data .auto = .ok value ↔ Returned value := by
  rw [decoded_iff bound]
  by_cases list : ∃ items, value = .list items
  · obtain ⟨items, rfl⟩ := list
    have wrote : PythonCodec.Writer.values items = .ok data := wrote
    rw [Returned, ← splits_iff wrote bound]
    constructor
    · rintro ⟨values, splits, same⟩
      match values with
      | [] => cases same
      | [single] =>
        have scalar := splits_scalar splits single List.mem_cons_self
        rw [if_neg (List.cons_ne_nil _ _), Dialect.pack] at same
        rw [← same] at scalar
        exact scalar.elim
      | first :: second :: others =>
        cases same
        exact ⟨by simp, splits⟩
    · rintro ⟨several, splits⟩
      refine ⟨items, splits, ?_⟩
      match items, several with
      | first :: second :: others, _ => rfl
  · have single : Returned value ↔ Plain [value] := by
      cases value with
      | list items => exact absurd ⟨items, rfl⟩ list
      | _ => exact Iff.rfl
    rw [single, ← splits_iff ((value_single value).trans wrote) bound]
    constructor
    · rintro ⟨values, splits, same⟩
      match values with
      | [] => exact absurd same some
      | [alone] =>
        cases same
        exact splits
      | first :: second :: others => exact absurd ⟨_, same⟩ list
    · intro splits
      exact ⟨[value], splits, rfl⟩

/-- What a handler would be called with. -/
def arriving (args : List PyValue) (options : Options) : Except PyErr (List PyValue) := do
  let split := split_args args options
  let data ← raised (encode_args split.1 split.2)
  let decoded ← raised (decode_payload data .auto)
  pure (spread decoded)

theorem raised_ok {α : Type} {outcome : Reading.Outcome α} {value : α} :
    raised outcome = .ok value ↔ outcome = .ok value := by
  cases outcome <;> simp [raised]

theorem plain_scalar {args : List PyValue} (plain : Plain args) : ∀ value ∈ args, Scalar value := by
  induction args with
  | nil => exact fun value member => absurd member List.not_mem_nil
  | cons arg later ih =>
    cases arg with
    | int n => exact List.forall_mem_cons.2 ⟨trivial, ih plain.2.2.2⟩
    | str text => exact List.forall_mem_cons.2 ⟨trivial, ih plain.2⟩
    | bytes data => exact List.forall_mem_cons.2 ⟨trivial, ih plain.2.2⟩
    | _ => exact plain.elim

theorem plain_written {args : List PyValue} (plain : Plain args) : ∃ data, PythonCodec.Writer.values args = .ok data := by
  induction args with
  | nil => exact ⟨[], rfl⟩
  | cons arg later ih =>
    cases arg with
    | int n =>
      obtain ⟨above, below, -, others⟩ := plain
      obtain ⟨back, wrote⟩ := ih others
      have front : PythonCodec.Writer.value (.int n) = .ok (writeVarint (encodeMasked n)) :=
        if_pos ⟨above, Int.le_sub_one_of_lt below⟩
      exact ⟨_, both_ok.2 ⟨_, back, front, wrote, rfl⟩⟩
    | str text =>
      obtain ⟨back, wrote⟩ := ih plain.2
      exact ⟨_, both_ok.2 ⟨_, back, rfl, wrote, rfl⟩⟩
    | bytes data =>
      obtain ⟨back, wrote⟩ := ih plain.2.2
      exact ⟨_, both_ok.2 ⟨_, back, rfl, wrote, rfl⟩⟩
    | _ => exact plain.elim

theorem valueBy_other (value : PyValue) : PythonCodec.Writer.valueBy .other value = PythonCodec.Writer.value value := by
  cases value <;> rfl

theorem written_args (args : List PyValue) : (∃ fields, .dict fields ∈ args) ∨
    encode_args (split_args args .none).1 .none = PythonCodec.Writer.values args := by
  unfold split_args
  split
  · exact Or.inr rfl
  · rename_i payload
    exact Or.inr ((valueBy_other payload).trans (value_single payload).symm)
  · exact Or.inl ⟨_, List.mem_cons_of_mem _ List.mem_cons_self⟩
  · exact Or.inr rfl

/-- A call that gives no options reaches a function with the arguments that were passed
just when they are plain. -/
theorem arriving_iff {args : List PyValue} {data : Bytes} (bare : (split_args args .none).2 = .none)
    (wrote : encode_args (split_args args .none).1 .none = .ok data) (bound : data.length < 2 ^ 64) :
    arriving args .none = .ok args ↔ Plain args := by
  have arrives : ∀ {values}, arriving args .none = .ok values ↔ Inference.Splits PythonCodec.inference data values := by
    intro values
    rw [← spread_iff bound, arriving, bare, wrote]
    show (do let decoded ← raised (decode_payload data .auto); pure (spread decoded)) = Except.ok values ↔ _
    cases came : decode_payload data .auto with
    | ok decoded => simp [raised, Bind.bind, Except.bind, Pure.pure, Except.pure]
    | _ => simp [raised, Bind.bind, Except.bind]
  rw [arrives]
  rcases written_args args with ⟨fields, member⟩ | plainly
  · exact iff_of_false (fun splits => splits_scalar splits _ member) (fun plain => plain_scalar plain _ member)
  · exact splits_iff (plainly.symm.trans wrote) bound

/-! The server. -/

/-- The last function that was registered for the name. -/
def Serves (registrations : List (Registration ω)) (name : String) (handler : PyFunction ω) : Prop :=
  ∃ earlier later, registrations = earlier ++ .rpc name handler :: later ∧ ∀ other, .rpc name other ∉ later

theorem build_plain (registrations : List (Registration ω)) : (build registrations).middlewares = [] := by
  have kept : ∀ router : Router ω, (registrations.foldl register router).middlewares = router.middlewares := by
    induction registrations with
    | nil => exact fun _ => rfl
    | cons registration rest ih =>
      intro router
      rw [List.foldl_cons, ih]
      cases registration <;> rfl
  exact kept .new

theorem register_other {router : Router ω} {registration : Registration ω} {name : String}
    (other : ∀ handler, registration ≠ .rpc name handler) :
    (register router registration).getRpc name = router.getRpc name := by
  cases registration with
  | rpc registered handler =>
    have apart : name ≠ registered := by
      rintro rfl
      exact other handler rfl
    exact AList.lookup_insert_ne apart
  | event registered handler => rfl
  | stream registered handler => rfl

theorem build_rpc {registrations : List (Registration ω)} {name : String} {handler : PyFunction ω}
    (serves : Serves registrations name handler) :
    ∃ token, (build registrations).getRpc name = some (token, pyRpcHandler name (answering handler)) := by
  obtain ⟨earlier, later, rfl, last⟩ := serves
  have kept : ∀ router : Router ω, (later.foldl register router).getRpc name = router.getRpc name := by
    induction later with
    | nil => exact fun _ => rfl
    | cons registration rest ih =>
      intro router
      rw [List.foldl_cons, ih (fun other member => last other (List.mem_cons_of_mem _ member))]
      apply register_other
      rintro other rfl
      exact last other List.mem_cons_self
  rw [build, List.foldl_append, List.foldl_cons, kept]
  exact ⟨_, AList.lookup_insert _⟩

/-! What a frame carries is not too long to be written with its length. -/

theorem bytes_bound {data out : Bytes} (put : Postcard.bytes.put data = some out) : data.length < 2 ^ 64 := by
  obtain ⟨front, first, -⟩ := Option.bind_eq_some_iff.1 put
  by_contra large
  have none : usize.put data.length = none := if_neg large
  rw [none] at first
  cases first

theorem pair_back {α β : Type} {first : Formats.Format α} {second : Formats.Format β} {value : α × β} {out : Bytes}
    (put : (first.pair second).put value = some out) : ∃ back, second.put value.2 = some back := by
  obtain ⟨front, -, later⟩ := Option.bind_eq_some_iff.1 put
  obtain ⟨back, found, -⟩ := Option.bind_eq_some_iff.1 later
  exact ⟨back, found⟩

theorem request_bound {id : UInt64} {name : String} {data : Bytes} (fits : Fits wire (.request ⟨id, name, data⟩)) :
    data.length < 2 ^ 64 := by
  obtain ⟨payload, encoded, -⟩ := fits
  have put : message.put (.request ⟨id, name, data⟩) = some payload := codecOf_toAllocvec.1 encoded
  rw [message_put_request] at put
  obtain ⟨inner, body, -⟩ := Option.map_eq_some_iff.1 put
  have body : (u64.pair (string.pair Postcard.bytes)).put (id, name, data) = some inner := body
  obtain ⟨parts, body⟩ := pair_back body
  obtain ⟨back, there⟩ := pair_back body
  exact bytes_bound there

theorem response_bound {id : UInt64} {data : Bytes} (fits : Fits wire (.response (successOf id data))) :
    data.length < 2 ^ 64 := by
  obtain ⟨payload, encoded, -⟩ := fits
  have put : message.put (.response (successOf id data)) = some payload := codecOf_toAllocvec.1 encoded
  have tag : u32.put (kindOf (.response (successOf id data))) = some [1] := rfl
  rw [message, Formats.Format.tagged_put tag rfl] at put
  obtain ⟨inner, body, -⟩ := Option.map_eq_some_iff.1 put
  have body : (u64.pair (statusCode.pair ((option string).pair Postcard.bytes))).put (id, .success, none, data) =
      some inner := body
  obtain ⟨parts, body⟩ := pair_back body
  obtain ⟨parts, body⟩ := pair_back body
  obtain ⟨back, there⟩ := pair_back body
  exact bytes_bound there

/-! The call. -/

section
variable {passed : Nat → App ω → Bool} {router : Router ω} {session : SessionId} {before after : List RequestMsg}
variable {id id' : UInt64} {name : String} {data : Bytes} {app : App ω}

/-- All messages of a call fit into frames, whichever way it goes. -/
structure Carried (passed : Nat → App ω → Bool) (router : Router ω) (session : SessionId) (before after : List RequestMsg)
    (id id' : UInt64) (name : String) (data : Bytes) (app : App ω) : Prop where
  sent : AllFit wire (onChannel (before ++ ⟨id, name, data⟩ :: after))
  answered : AllFit wire
    (answers (serving passed router session (plainly (onChannel (before ++ ⟨id, name, data⟩ :: after))) app))
  sentAlone : Fits wire (.request ⟨id', name, data⟩)
  answeredAlone : AllFit wire (answers (serving passed router session (plainly [.request ⟨id', name, data⟩] ++ [.ok none])
    (stateAfter passed router session before app)))

theorem answerTo_plain (plain : router.middlewares = []) (req : RequestMsg) (world : World ω) :
    answerTo passed router session req world = match direct router session req world.app with
      | .ok resp => successOf req.id resp
      | .error e => responseOf req.id (.error e) := by
  rw [answerTo, runChain_eq_onion, plain, List.map_nil, onion_nil, rpcTerminal_eval]
  cases direct router session req world.app <;> rfl

theorem settle_answerTo (plain : router.middlewares = []) (req : RequestMsg) (world : World ω) :
    settle (answerTo passed router session req world) = hop req.id (direct router session req world.app) := by
  rw [answerTo_plain plain]
  cases direct router session req world.app <;> rfl

theorem hop_any (id id' : UInt64) (outcome : Result Bytes) : hop id outcome = hop id' outcome := by
  cases outcome <;> rfl

/-- Without middlewares the result of a request is what the handler makes of it, whichever
way it goes. -/
theorem requestRaw_plain (plain : router.middlewares = []) (ordinary : name ≠ rpcChannelName)
    (fresh : id ∉ before.map (·.id)) (carried : Carried passed router session before after id id' name data app)
    {timing : Timing} (inTime : timing.InTime) :
    requestRaw wire passed router session timing before after id id' name data app =
      hop id' (direct router session ⟨id', name, data⟩ (stateAfter passed router session before app)) := by
  have blind : ∀ entry ∈ router.middlewares, IdBlind entry.2 := by
    rw [plain]
    exact fun entry member => absurd member List.not_mem_nil
  unfold requestRaw
  split
  · obtain ⟨world, reached, result⟩ := requestMuxed_eq timing wire_inverse blind fresh carried.sent carried.answered
    rw [result, within_early inTime.muxed, settle_answerTo plain, reached]
    exact hop_any id id' _
  · have fits := carried.answeredAlone
    rw [answers_alone ordinary] at fits
    have same : SameApp (⟨stateAfter passed router session before app, [], [], []⟩ : World ω)
        ⟨stateAfter passed router session before app, [], [], []⟩ := rfl
    have own := (answerTo_own passed session blind id' id' name data same).1
    rw [requestRawStream_only wire_inverse ordinary timing carried.sentAlone, within_early inTime.own,
      received_fits wire_inverse fits]
    rw [plainly, List.map_singleton, List.singleton_append, Core.Request.requestRawStream, awaitResponse, if_pos own]
    exact settle_answerTo plain _ _

theorem result_bound (plain : router.middlewares = []) (ordinary : name ≠ rpcChannelName)
    (carried : Carried passed router session before after id id' name data app) {resp : Bytes}
    (gave : direct router session ⟨id', name, data⟩ (stateAfter passed router session before app) = .ok resp) :
    resp.length < 2 ^ 64 := by
  have fits := carried.answeredAlone
  rw [answers_alone ordinary] at fits
  have alone := fits _ (List.mem_singleton_self _)
  rw [answerTo_plain plain, gave] at alone
  exact response_bound alone

end

/-- What a server answers for an exception. -/
def failure (e : PyErr) : PyErr := to_py_err (.rpc StatusCode.error.code (Error.io e.text).text)

theorem failed_result {id : UInt64} {outcome : Except PyErr Bytes} {e : PyErr} (failed : outcome = .error e) :
    resulting .none (hop id (called outcome)) = .error (failure e) := by
  rw [failed]
  rfl

theorem good_result {id : UInt64} {outcome : Except PyErr Bytes} {resp : Bytes} (gave : outcome = .ok resp) :
    resulting .none (hop id (called outcome)) = raised (decode_payload resp .auto) := by
  rw [gave]
  rfl

section
variable {handler : PyFunction ω} {data : Bytes} {state : App ω} {e : PyErr} {decoded value : PyValue}

theorem answering_unread (unread : raised (decode_payload data .auto) = .error e) :
    ((answering handler data).eval state).1 = .error e := by
  rw [answering, unread]
  rfl

theorem answering_raises (read : raised (decode_payload data .auto) = .ok decoded)
    (raises : ((handler (spread decoded)).eval state).1 = .error e) : ((answering handler data).eval state).1 = .error e := by
  rw [answering, read, Task.eval_bind, raises]
  rfl

theorem answering_nothing (read : raised (decode_payload data .auto) = .ok decoded)
    (returns : ((handler (spread decoded)).eval state).1 = .ok .none) :
    ∃ e, ((answering handler data).eval state).1 = .error e := by
  rw [answering, read, Task.eval_bind, returns]
  exact ⟨_, rfl⟩

theorem answering_returns (read : raised (decode_payload data .auto) = .ok decoded)
    (returns : ((handler (spread decoded)).eval state).1 = .ok value) (some : value ≠ .none) :
    ((answering handler data).eval state).1 = raised (PythonCodec.Writer.value value) := by
  rw [answering, read, Task.eval_bind, returns, ← valueBy_other]
  cases value with
  | none => exact absurd rfl some
  | _ => rfl

end

theorem written_result {value : PyValue} (returned : Returned value) : ∃ resp, PythonCodec.Writer.value value = .ok resp := by
  cases value with
  | list items => exact plain_written returned.2
  | none => exact returned.elim
  | _ =>
    obtain ⟨resp, wrote⟩ := plain_written returned
    exact ⟨resp, (value_single _).symm.trans wrote⟩

/-- What the function returns is the result of the call just when it is plain, and otherwise
it is not written, or it is read as something else. -/
theorem returning_result {handler : PyFunction ω} {data : Bytes} {state : App ω} {decoded value : PyValue} {id : UInt64}
    (read : raised (decode_payload data .auto) = .ok decoded)
    (returns : ((handler (spread decoded)).eval state).1 = .ok value)
    (fits : ∀ {resp}, ((answering handler data).eval state).1 = .ok resp → resp.length < 2 ^ 64) :
    resulting .none (hop id (called ((answering handler data).eval state).1)) = .ok value ↔ Returned value := by
  by_cases none : value = .none
  · subst none
    obtain ⟨e, failed⟩ := answering_nothing read returns
    rw [failed_result failed]
    exact iff_of_false (fun same => by cases same) (fun returned => returned)
  · have gave := answering_returns read returns none
    cases wrote : PythonCodec.Writer.value value with
    | ok resp =>
      rw [wrote] at gave
      rw [good_result gave, raised_ok]
      exact returned_iff none wrote (fits gave)
    | _ =>
      rw [wrote] at gave
      rw [failed_result gave]
      apply iff_of_false (fun same => by cases same)
      intro returned
      obtain ⟨resp, written⟩ := written_result returned
      rw [wrote] at written
      cases written

/-- A call without options to a server that was built in Python, where all frames fit and
the answer is in time. The function is called with the arguments that were passed just
when they are plain. What it returns, the call returns just when that is plain as well,
and what it raises, the call raises with the texts of a failure around it. -/
theorem request_exact {passed : Nat → App ω → Bool} {registrations : List (Registration ω)} {session : SessionId}
    {before after : List RequestMsg} {id id' : UInt64} {name : String} {handler : PyFunction ω} {args : List PyValue}
    {data : Bytes} {app : App ω} (serves : Serves registrations name handler) (ordinary : name ≠ rpcChannelName)
    (fresh : id ∉ before.map (·.id)) (bare : (split_args args .none).2 = .none)
    (wrote : encode_args (split_args args .none).1 .none = .ok data)
    (carried : Carried passed (build registrations) session before after id id' name data app)
    {timing : Timing} (inTime : timing.InTime) :
    (arriving args .none = .ok args ↔ Plain args) ∧
      (∀ given, arriving args .none = .ok given →
        (∀ value, ((handler given).eval (stateAfter passed (build registrations) session before app)).1 = .ok value →
          (request passed (build registrations) session timing before after id id' name args .none app = .ok value ↔
            Returned value)) ∧
        ∀ e, ((handler given).eval (stateAfter passed (build registrations) session before app)).1 = .error e →
          request passed (build registrations) session timing before after id id' name args .none app = .error (failure e)) ∧
      ∀ e, arriving args .none = .error e →
        request passed (build registrations) session timing before after id id' name args .none app = .error (failure e) := by
  have plain := build_plain registrations
  have bound := request_bound carried.sentAlone
  obtain ⟨token, found⟩ := build_rpc serves
  generalize reached : stateAfter passed (build registrations) session before app = state
  -- The call is the handler between the two codecs.
  have direct_eq : direct (build registrations) session ⟨id', name, data⟩ state = called ((answering handler data).eval state).1 := by
    simp only [direct, found, pyRpcHandler, Task.eval_bind]
    rfl
  have arrives : arriving args .none = (raised (decode_payload data .auto)).map spread := by
    rw [arriving, bare, wrote]
    rfl
  have whole : request passed (build registrations) session timing before after id id' name args .none app =
      resulting .none (hop id' (called ((answering handler data).eval state).1)) := by
    rw [← direct_eq, ← reached, ← requestRaw_plain plain ordinary fresh carried inTime, request, bare, wrote]
    rfl
  have fits : ∀ {resp}, ((answering handler data).eval state).1 = .ok resp → resp.length < 2 ^ 64 := by
    intro resp gave
    apply result_bound plain ordinary carried
    rw [reached, direct_eq, gave]
    rfl
  refine ⟨arriving_iff bare wrote bound, fun given came => ?_, fun e failed => ?_⟩
  · rw [arrives] at came
    cases read : raised (decode_payload data .auto) with
    | error e =>
      rw [read] at came
      cases came
    | ok decoded =>
      rw [read] at came
      cases came
      refine ⟨fun value returns => ?_, fun e raises => ?_⟩
      · rw [whole]
        exact returning_result read returns fits
      · rw [whole]
        exact failed_result (answering_raises read raises)
  · rw [arrives] at failed
    cases read : raised (decode_payload data .auto) with
    | error other =>
      rw [read] at failed
      cases failed
      rw [whole]
      exact failed_result (answering_unread read)
    | ok decoded =>
      rw [read] at failed
      cases failed

private def joining : PyFunction Unit := fun args => pure (.ok (.list args))

private def joinServer : List (Registration Unit) := [.rpc "join" joining]

private def blankApp : App Unit := ⟨fun _ _ => none, ()⟩

private def patient : Nat → App Unit → Bool := fun _ _ => false

private def tenHi : List PyValue := [.int 10, .str "hi"]

private theorem joinServer_serves : Serves joinServer "join" joining :=
  ⟨[], [], rfl, fun _ => List.not_mem_nil⟩

private theorem tenHi_written : PythonCodec.Writer.values tenHi = .ok [20, 2, 104, 105] := by decide +kernel

private theorem tenHi_plain : Plain tenHi := by
  have later : (written (PythonCodec.Writer.values [.str "hi"])).length < zigzag 10 := by decide +kernel
  exact ⟨by decide, by decide, Or.inr later, by decide, trivial⟩

private theorem tenHi_decoded : raised (decode_payload [20, 2, 104, 105] .auto) = .ok (.list tenHi) := by
  have short : ([20, 2, 104, 105] : Bytes).length < 2 ^ 64 := by decide
  rw [raised_ok]
  exact (decoded_iff short).2 ⟨tenHi, (splits_iff tenHi_written short).2 tenHi_plain, rfl⟩

private theorem direct_join (id : UInt64) :
    direct (build joinServer) 1 ⟨id, "join", [20, 2, 104, 105]⟩ blankApp = .ok [20, 2, 104, 105] := by
  obtain ⟨token, found⟩ := build_rpc joinServer_serves
  have gave : ((answering joining [20, 2, 104, 105]).eval blankApp).1 = .ok [20, 2, 104, 105] := by
    rw [answering_returns tenHi_decoded rfl (PyValue.noConfusion)]
    exact raised_ok.2 tenHi_written
  simp only [direct, found, pyRpcHandler, Task.eval_bind, gave]
  rfl

private theorem join_carried :
    Carried patient (build joinServer) 1 [] [] 1 2 "join" [20, 2, 104, 105] blankApp := by
  have fits : ∀ id : UInt64, id = 1 ∨ id = 2 →
      AllFit wire [.response (answerTo patient (build joinServer) 1 ⟨id, "join", [20, 2, 104, 105]⟩ ⟨blankApp, [], [], []⟩)] := by
    intro id either
    rw [answerTo_plain (build_plain _), direct_join]
    rcases either with rfl | rfl <;> decide +kernel
  have reached : stateAfter patient (build joinServer) 1 [] blankApp = blankApp := by
    rw [stateAfter, serving_channel]
    rfl
  constructor
  · decide +kernel
  · rw [List.nil_append, answers_only]
    exact fits 1 (Or.inl rfl)
  · decide +kernel
  · rw [reached, answers_alone (by decide)]
    exact fits 2 (Or.inr rfl)

/-- Ten and a text arrive, and come back as a list. -/
theorem request_exact_join : arriving tenHi .none = .ok tenHi ∧
    request patient (build joinServer) 1 ⟨30, 2, 1⟩ [] [] 1 2 "join" tenHi .none blankApp = .ok (.list tenHi) := by
  have bare : (split_args tenHi .none).2 = .none := rfl
  have wrote : encode_args (split_args tenHi .none).1 .none = .ok [20, 2, 104, 105] := tenHi_written
  have inTime : (⟨30, 2, 1⟩ : Timing).InTime := ⟨by decide, by decide⟩
  obtain ⟨arrives, calls, -⟩ :=
    request_exact joinServer_serves (by decide) List.not_mem_nil bare wrote join_carried inTime
  have came := arrives.2 tenHi_plain
  exact ⟨came, ((calls tenHi came).1 (.list tenHi) rfl).2 ⟨Nat.le_refl 2, tenHi_plain⟩⟩

end EchoStream.Bindings.PythonCalls
