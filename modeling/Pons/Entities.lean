import Pons.Event

/-!
# Pons — the ABI entities

`Constructor`, `Mutability`, `Method`, `Error`, `Fallback` and `Receive`
(`_contract_abi.py`, lines 206–391 and 486–578), with the `from_json` class method of each
and of `Event`. Every `from_json` opens with the same check of the entry's `type`
(`checkType`); the handlers without parameters, `Fallback` and `Receive`, differ only in
their kind and messages (`payableFromJson`).

Selectors and topics hash the name with the canonical form of the types a signature keeps
(`selectorOf`). A method or an error keeps every declared type, and `inspect` rejects two
names that escape alike; an event keeps one field for two such names, so its topic drops
the other (`Event.topic_merges_escaped`).
-/

namespace Pons

variable {Ty Val : Type}

/-! ## Checks shared by the `from_json` methods -/

/-- The check each `from_json` opens with: the entry's `type` must be `kind`. -/
def checkType (kind msg : String) (entry : JsonObject) : Except PyErr Unit := do
  let type ← entry.getitem "type"
  if type.eqStr kind then pure () else throw (.valueError msg)

/-- The mutability check of the entries that can only be payable or not: the entry's
`stateMutability`, which must be `nonpayable` or `payable`, says whether it is payable. -/
def payableMutability (msg : String) (entry : JsonObject) : Except PyErr Bool := do
  let mutability ← entry.getitem "stateMutability"
  if mutability.eqStr "nonpayable" || mutability.eqStr "payable" then
    pure (mutability.eqStr "payable")
  else throw (.valueError msg)

/-- `keccak(name.encode() + signature.canonical_form.encode())[:4]`. -/
def selectorOf (c : Codec Ty Val) (name : Json) (signature : Signature Ty) :
    Except PyErr Bytes := do
  let name ← name.encode
  pure ((c.keccak (name ++ utf8 (signature.canonicalForm c))).bytes.take 4)

/-! ## Constructor -/

/-- `Constructor`: its input signature and whether it is payable. -/
structure Constructor (Ty : Type) where
  inputs : Signature Ty
  payable : Bool

/-- `Constructor(inputs, payable)`. -/
def Constructor.new (inputs : Params Ty) (payable : Bool) : Except PyErr (Constructor Ty) := do
  let inputs ← Signature.new inputs
  pure { inputs, payable }

/-- `Constructor.__call__(*args, **kwargs)`, as the bytes of its `ConstructorCall`. -/
def Constructor.call (c : Codec Ty Val) (k : Constructor Ty) (args : List Val)
    (kwargs : Dict String Val) : Except PyErr Bytes :=
  k.inputs.encode c args kwargs

/-- `Constructor.from_json(method_entry)`. -/
def Constructor.fromJson (c : Codec Ty Val) (entry : JsonObject) :
    Except PyErr (Constructor Ty) := do
  checkType "constructor"
    "Constructor object must be created from a JSON entry with type='constructor'" entry
  if entry.contains "name" then
    throw (.valueError "Constructor's JSON entry cannot have a `name`")
  else
    let hasOutputs ← if entry.contains "outputs" then Json.truthy <$> entry.getitem "outputs"
      else pure false
    if hasOutputs then
      throw (.valueError "Constructor's JSON entry cannot have non-empty `outputs`")
    else
      let payable ← payableMutability
        "Constructor's JSON entry state mutability must be `nonpayable` or `payable`" entry
      let inputs ← c.dispatchTypes (entry.getD "inputs" (.arr []))
      Constructor.new inputs payable

/-! ## Mutability -/

/-- `Mutability`. -/
inductive Mutability where
  | pure
  | view
  | nonpayable
  | payable
  deriving DecidableEq, Repr

/-- `Mutability.from_json(entry)`: the lookup in a `str`-keyed dict hashes the entry. -/
def Mutability.fromJson (entry : Json) : Except PyErr Mutability := do
  match ← entry.toPyKey with
  | .str "pure" => .ok .pure
  | .str "view" => .ok .view
  | .str "nonpayable" => .ok .nonpayable
  | .str "payable" => .ok .payable
  | _ => .error (.valueError ("Unknown mutability identifier: " ++ entry.pyStr))

/-- `Mutability.payable`. -/
def Mutability.isPayable (m : Mutability) : Bool := m == .payable

/-- `Mutability.mutating`. -/
def Mutability.mutating (m : Mutability) : Bool := m == .payable || m == .nonpayable

/-! ## Method -/

/-- What `Method(outputs=...)` is given: nothing, parameters, or one bare type. -/
inductive Outputs (Ty : Type) where
  | none
  | params (p : Params Ty)
  | single (t : Ty)

/-- `Method`: its name, signatures and mutability, and whether its output was declared as a
single bare type. -/
structure Method (Ty : Type) where
  name : Json
  inputs : Signature Ty
  mutability : Mutability
  outputs : Signature Ty
  singleOutput : Bool

namespace Method

/-- `Method(name, mutability, inputs, outputs)`. -/
def new (name : Json) (mutability : Mutability) (inputs : Params Ty) (outputs : Outputs Ty) :
    Except PyErr (Method Ty) := do
  let inputs ← Signature.new inputs
  let (outputs, singleOutput) := match outputs with
    | .none => (Params.positional [], false)
    | .params p => (p, false)
    | .single t => (Params.positional [t], true)
  let outputs ← Signature.new outputs
  pure { name, inputs, mutability, outputs, singleOutput }

/-- `Method.payable`. -/
def payable (m : Method Ty) : Bool := m.mutability.isPayable

/-- `Method.mutating`. -/
def mutating (m : Method Ty) : Bool := m.mutability.mutating

/-- `Method.selector`. -/
def selector (c : Codec Ty Val) (m : Method Ty) : Except PyErr Bytes := selectorOf c m.name m.inputs

/-- `Method._encode_call(*args, **kwargs)`: the selector, then the encoded inputs. -/
def encodeCall (c : Codec Ty Val) (m : Method Ty) (args : List Val) (kwargs : Dict String Val) :
    Except PyErr Bytes := do
  let inputBytes ← m.inputs.encode c args kwargs
  let selector ← m.selector c
  pure (selector ++ inputBytes)

/-- `Method.decode_output(output_bytes)`: a bare value for a single output, else the tuple. -/
def decodeOutput (c : Codec Ty Val) (m : Method Ty) (outputBytes : Bytes) :
    Except PyErr (Val ⊕ List Val) := do
  let results ← m.outputs.decodeIntoTuple c outputBytes
  if m.singleOutput then
    match results with
    | r :: _ => pure (.inl r)
    | [] => throw (.indexError "tuple index out of range")
  else pure (.inr results)

/-- `all(entry["name"] == "" for entry in outputs)`, which stops at the first named one. -/
def allNamesEmpty : List Json → Except PyErr Bool
  | [] => pure true
  | o :: os => do
    let name ← o.getitem "name"
    if name.eqStr "" then allNamesEmpty os else pure false

/-- The outputs `Method.from_json` reads: none without an `outputs` key, a list of types when
every output is unnamed, else `dispatch_types` of them. -/
def outputsFromJson (c : Codec Ty Val) (entry : JsonObject) : Except PyErr (Params Ty) :=
  if entry.contains "outputs" then do
    let outputs ← entry.getitem "outputs"
    let items ← outputs.iter
    if ← allNamesEmpty items then Params.positional <$> items.mapM c.dispatchType
    else c.dispatchTypes outputs
  else pure (Params.positional [])

/-- `Method.from_json(method_entry)`. -/
def fromJson (c : Codec Ty Val) (entry : JsonObject) : Except PyErr (Method Ty) := do
  checkType "function" "Method object must be created from a JSON entry with type='function'"
    entry
  let name ← entry.getitem "name"
  let inputs ← c.dispatchTypes (← entry.getitem "inputs")
  let mutability ← Mutability.fromJson (← entry.getitem "stateMutability")
  let outputs ← outputsFromJson c entry
  Method.new name mutability inputs (.params outputs)

end Method

/-! ## Error -/

/-- `Error`: its name and the signature of its fields. -/
structure Error (Ty : Type) where
  name : Json
  fields : Signature Ty

namespace Error

/-- `Error(name, fields)`. -/
def new (name : Json) (fields : Dict String Ty) : Except PyErr (Error Ty) := do
  let fields ← Signature.new (.named fields)
  pure { name, fields }

/-- `Error.selector`. -/
def selector (c : Codec Ty Val) (e : Error Ty) : Except PyErr Bytes := selectorOf c e.name e.fields

/-- `Error.decode_fields(data_bytes)`. -/
def decodeFields (c : Codec Ty Val) (e : Error Ty) (dataBytes : Bytes) :
    Except PyErr (Dict String Val) :=
  e.fields.decodeIntoDict c dataBytes

/-- `Error.from_json(error_entry)`. -/
def fromJson (c : Codec Ty Val) (entry : JsonObject) : Except PyErr (Error Ty) := do
  checkType "error" "Error object must be created from a JSON entry with type='error'" entry
  let name ← entry.getitem "name"
  match ← c.dispatchTypes (← entry.getitem "inputs") with
  | .positional _ => throw (.valueError "Error fields must be named")
  | .named fields => Error.new name fields

end Error

/-! ## Event -/

/-- `{input_["name"] for input_ in inputs if input_["indexed"]}`. -/
def indexedNames (inputs : List Json) : Except PyErr (Finset PyKey) :=
  inputs.foldlM (fun indexed input => do
    let isIndexed ← input.getitem "indexed"
    if isIndexed.truthy then do
      let name ← input.getitem "name"
      let key ← name.toPyKey
      pure (insert key indexed)
    else pure indexed) ∅

/-- `Event.from_json(event_entry)`. -/
def Event.fromJson (c : Codec Ty Val) (entry : JsonObject) : Except PyErr (Event Ty) := do
  checkType "event" "Event object must be created from a JSON entry with type='event'" entry
  let name ← entry.getitem "name"
  match ← c.dispatchTypes (← entry.getitem "inputs") with
  | .positional _ => throw (.valueError "Event fields must be named")
  | .named fields =>
    let indexed ← indexedNames (← (← entry.getitem "inputs").iter)
    let anonymous ← entry.getitem "anonymous"
    Event.new name fields indexed anonymous.truthy

/-! ## Fallback and Receive -/

/-- The `from_json` of a handler without parameters: the type check for `kind`, then the
mutability check; whether the handler is payable. -/
def payableFromJson (kind typeMsg mutabilityMsg : String) (entry : JsonObject) :
    Except PyErr Bool := do
  checkType kind typeMsg entry
  payableMutability mutabilityMsg entry

/-- `Fallback`: whether the fallback method is payable. -/
structure Fallback where
  payable : Bool

/-- `Fallback.from_json(method_entry)`. -/
def Fallback.fromJson (entry : JsonObject) : Except PyErr Fallback :=
  Fallback.mk <$> payableFromJson "fallback"
    "Fallback object must be created from a JSON entry with type='fallback'"
    "Fallback method's JSON entry state mutability must be `nonpayable` or `payable`" entry

/-- `Receive`: whether the receive method is payable. -/
structure Receive where
  payable : Bool

/-- `Receive.from_json(method_entry)`. Its type check reports `type='fallback'`. -/
def Receive.fromJson (entry : JsonObject) : Except PyErr Receive :=
  Receive.mk <$> payableFromJson "receive"
    "Receive object must be created from a JSON entry with type='fallback'"
    "Receive method's JSON entry state mutability must be `nonpayable` or `payable`" entry

/-! ## Names that escape alike -/

/-- The field names `from` and `from_` escape alike. An event declaring both keeps one
field, `from_`, with the type declared last, and its topic hashes `E(uint256)`; an error
declaring the same fields is rejected by `inspect`. -/
theorem Event.topic_merges_escaped :
    ((Event.new (.str "E") (Dict.ofList [("from", "address"), ("from_", "uint256")]) ∅
        false).bind fun e => e.topic Codec.reference) =
      .ok (Codec.reference.keccak (utf8 "E(uint256)")) ∧
    ((Error.new (.str "E") (Dict.ofList [("from", "address"), ("from_", "uint256")])).map
        fun e => e.fields.names) = .error (.valueError "duplicate parameter name: 'from_'") := by
  decide

end Pons
