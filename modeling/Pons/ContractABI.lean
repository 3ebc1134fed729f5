import Pons.Entities

/-!
# Pons — `ContractABI`

`ContractABI` (`_contract_abi.py`, lines 580–763) gathers the entities of one contract: a
constructor (a payable-less one without inputs when none is declared), an optional
fallback and receive method, and the methods, events and errors, each in a `Methods`
holder keyed by name. An index from selectors to errors, built once from the built-in
`Panic(uint256)` and `Error(string)` followed by the declared errors, answers
`resolve_error`; a later error takes the selector of an earlier one.

* **`resolveError_inverts`** — revert data made of a registered error's selector and an
  encoding of its fields resolves to that error and the bound values, whenever no later
  registration takes the selector; other selectors raise `UnknownError`, and data shorter
  than a selector raises `ValueError`.

`ContractABI.from_json` is modelled here and studied in `Pons.ContractABI.FromJson`.
-/

namespace Pons

variable {Ty Val : Type}

/-- `PANIC_ERROR`: `Error("Panic", dict(code=abi.uint(256)))`. -/
def panicError (c : Codec Ty Val) : Except PyErr (Error Ty) :=
  Error.new (.str "Panic") (Dict.ofList [("code", c.uint256)])

/-- `LEGACY_ERROR`: `Error("Error", dict(message=abi.string))`. -/
def legacyError (c : Codec Ty Val) : Except PyErr (Error Ty) :=
  Error.new (.str "Error") (Dict.ofList [("message", c.string)])

/-- The built-in errors are built for every codec, under their names. The field names are
computed before `inspect` checks them, which keeps the evaluation small. -/
theorem builtins_ok (c : Codec Ty Val) :
    (∃ p, panicError c = .ok p ∧ p.name = .str "Panic") ∧
      ∃ l, legacyError c = .ok l ∧ l.name = .str "Error" := by
  have hcode : (Dict.ofList [("code", c.uint256)]).keys.map makeNameSafe = ["code"] := rfl
  have hmessage : (Dict.ofList [("message", c.string)]).keys.map makeNameSafe = ["message"] := rfl
  unfold panicError legacyError Error.new Signature.new
  simp only [hcode, hmessage]
  exact ⟨⟨_, rfl, rfl⟩, _, rfl, rfl⟩

/-- One item `x.name: x` of a comprehension keyed by name: the name is hashed. -/
def keyedByName {α : Type} (name : α → Json) (x : α) : Except PyErr (PyKey × α) := do
  let key ← (name x).toPyKey
  pure (key, x)

/-- `{x.name: x for x in xs}`: a later entry replaces an earlier one of the same name. -/
def byName {α : Type} (name : α → Json) (xs : List α) : Except PyErr (Dict PyKey α) := do
  let entries ← xs.mapM (keyedByName name)
  pure (Dict.ofList entries)

/-- One item `error.selector: error` of the selector index. -/
def selectorEntry (c : Codec Ty Val) (e : Error Ty) : Except PyErr (Bytes × Error Ty) := do
  let selector ← e.selector c
  pure (selector, e)

/-- `Methods.__getattr__(method_name)`: the entry of that name. -/
def Methods.getattr {α : Type} (methods : Dict PyKey α) (methodName : String) : Except PyErr α :=
  match methods.get? (.str methodName) with
  | some m => .ok m
  | none => .error (.keyError methodName)

/-- `if constructor is None: constructor = Constructor(inputs=[])`. -/
def Constructor.orDefault : Option (Constructor Ty) → Except PyErr (Constructor Ty)
  | some k => pure k
  | none => Constructor.new (.positional []) false

/-- `ContractABI`: the entities of one contract and the selector index of its errors. -/
structure ContractABI (Ty : Type) where
  constructor : Constructor Ty
  fallback : Option Fallback
  receive : Option Receive
  method : Dict PyKey (Method Ty)
  event : Dict PyKey (Event Ty)
  error : Dict PyKey (Error Ty)
  errorBySelector : Dict Bytes (Error Ty)

namespace ContractABI

/-- `ContractABI(constructor, fallback, receive, methods, events, errors)`. -/
def new (c : Codec Ty Val) (constructor : Option (Constructor Ty)) (fallback : Option Fallback)
    (receive : Option Receive) (methods : List (Method Ty)) (events : List (Event Ty))
    (errors : List (Error Ty)) : Except PyErr (ContractABI Ty) := do
  let constructor ← Constructor.orDefault constructor
  let method ← byName Method.name methods
  let event ← byName Event.name events
  let error ← byName Error.name errors
  let panic ← panicError c
  let legacy ← legacyError c
  let errorBySelector ← ([panic, legacy] ++ error.values).mapM (selectorEntry c)
  pure { constructor, fallback, receive, method, event, error,
         errorBySelector := Dict.ofList errorBySelector }

/-- `ContractABI.resolve_error(error_data)`. -/
def resolveError (c : Codec Ty Val) (abi : ContractABI Ty) (errorData : Bytes) :
    Except PyErr (Error Ty × Dict String Val) :=
  if errorData.length < 4 then
    throw (.valueError "Error data too short to contain a selector")
  else
    let selector := errorData.take 4
    let data := errorData.drop 4
    match abi.errorBySelector.get? selector with
    | some error => do
      let decoded ← error.decodeFields c data
      pure (error, decoded)
    | none => throw (.unknownError ("Could not find an error with selector " ++ hex selector ++
        " in the ABI"))

/-! ## What construction builds -/

/-- Construction keeps the given handlers, falls back to `Constructor(inputs=[])`, keys each
kind by name, and indexes the built-ins and the declared errors by selector. -/
theorem new_ok {constructor : Option (Constructor Ty)} {fallback : Option Fallback}
    {receive : Option Receive} {methods : List (Method Ty)} {events : List (Event Ty)}
    {errors : List (Error Ty)} {abi : ContractABI Ty}
    (h : new c constructor fallback receive methods events errors = .ok abi) :
    Constructor.orDefault constructor = .ok abi.constructor ∧
    abi.fallback = fallback ∧ abi.receive = receive ∧
    byName Method.name methods = .ok abi.method ∧ byName Event.name events = .ok abi.event ∧
    byName Error.name errors = .ok abi.error ∧
    ∃ panic legacy L, panicError c = .ok panic ∧ legacyError c = .ok legacy ∧
      List.Forall₂ (fun e p => selectorEntry c e = .ok p) ([panic, legacy] ++ abi.error.values) L ∧
      abi.errorBySelector = Dict.ofList L := by
  unfold new at h
  obtain ⟨k, hk, h⟩ := Except.bind_eq_ok.1 h
  obtain ⟨m, hm, h⟩ := Except.bind_eq_ok.1 h
  obtain ⟨ev, hev, h⟩ := Except.bind_eq_ok.1 h
  obtain ⟨er, her, h⟩ := Except.bind_eq_ok.1 h
  obtain ⟨p, hp, h⟩ := Except.bind_eq_ok.1 h
  obtain ⟨l, hl, h⟩ := Except.bind_eq_ok.1 h
  obtain ⟨L, hL, h⟩ := Except.bind_eq_ok.1 h
  cases h
  exact ⟨hk, rfl, rfl, hm, hev, her, p, l, L, hp, hl, Except.mapM_eq_ok_iff.1 hL, rfl⟩

/-! ## `resolve_error` -/

theorem resolveError_short {abi : ContractABI Ty} {data : Bytes} (h : data.length < 4) :
    abi.resolveError c data =
      .error (.valueError "Error data too short to contain a selector") := by
  rw [resolveError, if_pos h]
  rfl

theorem resolveError_unknown {abi : ContractABI Ty} {data : Bytes} (h : 4 ≤ data.length)
    (hnone : abi.errorBySelector.get? (data.take 4) = none) :
    abi.resolveError c data = .error (.unknownError
      ("Could not find an error with selector " ++ hex (data.take 4) ++ " in the ABI")) := by
  simp only [resolveError, if_neg (Nat.not_lt.2 h), hnone]
  rfl

theorem resolveError_append {abi : ContractABI Ty} {sel bs : Bytes} {E : Error Ty}
    {d : Dict String Val} (hsel : sel.length = 4) (hget : abi.errorBySelector.get? sel = some E)
    (hdec : E.decodeFields c bs = .ok d) : abi.resolveError c (sel ++ bs) = .ok (E, d) := by
  have hlen : ¬(sel ++ bs).length < 4 := by simp [hsel]
  simp only [resolveError, if_neg hlen, List.take_left' hsel, List.drop_left' hsel, hget, hdec]
  rfl

/-! ## `ContractABI.from_json` -/

/-- The locals of the loop of `from_json`. -/
structure FromJsonState (Ty : Type) where
  constructor : Option (Constructor Ty)
  fallback : Option Fallback
  receive : Option Receive
  methods : Dict PyKey (Method Ty)
  events : Dict PyKey (Event Ty)
  errors : Dict PyKey (Error Ty)

/-- Before the loop: no handler and no named entity. -/
def FromJsonState.init : FromJsonState Ty := ⟨none, none, none, Dict.empty, Dict.empty, Dict.empty⟩

/-- A handler's branch: `if slot: raise ValueError(msg)`, then `slot = build(entry)`. A
handler object is always truthy. -/
def fillSlot {α : Type} (slot : Option α) (msg : String) (build : Except PyErr α) :
    Except PyErr α :=
  match slot with
  | some _ => throw (.valueError msg)
  | none => build

/-- A named kind's branch: `if entry["name"] in d: raise ValueError(...)`, then
`d[entry["name"]] = build(entry)`. -/
def addNamed {α : Type} (d : Dict PyKey α) (entry : JsonObject) (build : Except PyErr α) :
    Except PyErr (Dict PyKey α) := do
  let name ← entry.getitem "name"
  let key ← name.toPyKey
  if d.contains key then
    throw (.valueError ("JSON ABI contains more than one declarations of `" ++ name.pyStr ++ "`"))
  else
    let x ← build
    pure (d.insert key x)

/-- One pass of the loop of `from_json`, over `entry`. -/
def fromJsonStep (c : Codec Ty Val) (s : FromJsonState Ty) (entry : JsonObject) :
    Except PyErr (FromJsonState Ty) := do
  let type ← entry.getitem "type"
  if type.eqStr "constructor" then
    let k ← fillSlot s.constructor "JSON ABI contains more than one constructor declarations"
      (Constructor.fromJson c entry)
    pure { s with constructor := some k }
  else if type.eqStr "function" then
    let methods ← addNamed s.methods entry (Method.fromJson c entry)
    pure { s with methods }
  else if type.eqStr "fallback" then
    let f ← fillSlot s.fallback "JSON ABI contains more than one fallback declarations"
      (Fallback.fromJson entry)
    pure { s with fallback := some f }
  else if type.eqStr "receive" then
    let r ← fillSlot s.receive "JSON ABI contains more than one receive method declarations"
      (Receive.fromJson entry)
    pure { s with receive := some r }
  else if type.eqStr "event" then
    let events ← addNamed s.events entry (Event.fromJson c entry)
    pure { s with events }
  else if type.eqStr "error" then
    let errors ← addNamed s.errors entry (Error.fromJson c entry)
    pure { s with errors }
  else throw (.valueError ("Unknown ABI entry type: " ++ type.pyStr))

/-- `ContractABI.from_json(json_abi)`: the loop, then `ContractABI(...)` on its locals. -/
def fromJson (c : Codec Ty Val) (jsonAbi : List JsonObject) : Except PyErr (ContractABI Ty) := do
  let s ← jsonAbi.foldlM (fromJsonStep c) FromJsonState.init
  new c s.constructor s.fallback s.receive s.methods.values s.events.values s.errors.values

end ContractABI

/-! ## The name-keyed holders -/

section byName

variable {α : Type} {name : α → Json}

/-- **A holder keyed by distinct names lists every entry, in order, under its name.** -/
theorem byName_entries {xs : List α} {d : Dict PyKey α} (h : byName name xs = .ok d)
    (hnd : (xs.map fun x => (name x).toPyKey).Nodup) :
    List.Forall₂ (fun x p => (name x).toPyKey = .ok p.1 ∧ p.2 = x) xs d.entries := by
  obtain ⟨entries, hmap, h⟩ := Except.bind_eq_ok.1 h
  cases h
  have hkeys : (entries.map Prod.fst).map Except.ok = xs.map fun x => (name x).toPyKey := by
    rw [List.map_map]
    exact Except.map_of_mapM_eq_ok (fun _ _ hp => (Except.bind_pair_eq_ok.1 hp).1.symm) hmap
  rw [Dict.entries_ofList ((hkeys ▸ hnd).of_map _)]
  exact (Except.mapM_eq_ok_iff.1 hmap).imp fun _ _ => Except.bind_pair_eq_ok.1

theorem map_snd_of_forall₂ {β : Type} {P : α → β × α → Prop} {xs : List α} {es : List (β × α)}
    (h : List.Forall₂ (fun x p => P x p ∧ p.2 = x) xs es) : es.map Prod.snd = xs := by
  induction h with
  | nil => rfl
  | cons hx _ ih => rw [List.map_cons, hx.2, ih]

theorem byName_values {xs : List α} {d : Dict PyKey α} (h : byName name xs = .ok d)
    (hnd : (xs.map fun x => (name x).toPyKey).Nodup) : d.values = xs :=
  map_snd_of_forall₂ (byName_entries h hnd)

end byName

/-! ## The selector index -/

/-- A selector is the first four bytes of a 32-byte digest. -/
theorem length_selectorOf {c : Codec Ty Val} {name : Json} {s : Signature Ty} {sel : Bytes}
    (h : selectorOf c name s = .ok sel) : sel.length = 4 := by
  obtain ⟨b, -, h⟩ := Except.bind_eq_ok.1 h
  cases h
  simp [(c.keccak _).size_eq]

/-! ## Resolving revert data -/

namespace ContractABI

/-- **Resolving revert data inverts error encoding.** Take a contract whose declared errors
have distinct names, and an error `E` that is either declared with a selector no other
declared error has, or the built-in `Error(string)` with a selector no declared error has,
or the built-in `Panic(uint256)` with a selector neither `Error(string)` nor a declared error
has. Then the selector of `E` followed by any encoding its fields accept resolves to `E` and
to the mapping of each of its field names to its bound value. Data whose first four bytes
are no registered selector raises `UnknownError`, and data shorter than four bytes raises
`ValueError`. -/
theorem resolveError_inverts (c : Codec Ty Val) (hinv : c.DecodeInverts)
    {constructor : Option (Constructor Ty)} {fallback : Option Fallback}
    {receive : Option Receive} {methods : List (Method Ty)} {events : List (Event Ty)}
    {errors : List (Error Ty)} {abi : ContractABI Ty} {panic legacy : Error Ty}
    (habi : new c constructor fallback receive methods events errors = .ok abi)
    (hnames : (errors.map fun e => e.name.toPyKey).Nodup)
    (hpanic : panicError c = .ok panic) (hlegacy : legacyError c = .ok legacy) :
    (∀ (E : Error Ty) (sel : Bytes), E.selector c = .ok sel →
      ((∃ pre post, errors = pre ++ E :: post ∧ ∀ e ∈ pre ++ post, e.selector c ≠ .ok sel) ∨
        (E = legacy ∧ ∀ e ∈ errors, e.selector c ≠ .ok sel) ∨
        (E = panic ∧ legacy.selector c ≠ .ok sel ∧ ∀ e ∈ errors, e.selector c ≠ .ok sel)) →
      ∀ args kwargs bs, E.fields.encode c args kwargs = .ok bs →
        ∃ bound d, E.fields.signature.bind args kwargs = .ok bound ∧
          abi.resolveError c (sel ++ bs) = .ok (E, d) ∧
          d.entries.map Prod.fst = E.fields.names ∧ ∀ p ∈ d.entries, bound.lookup p.1 = some p.2) ∧
    (∀ data : Bytes, 4 ≤ data.length →
      (∀ e ∈ [panic, legacy] ++ errors, e.selector c ≠ .ok (data.take 4)) →
      abi.resolveError c data = .error (.unknownError
        ("Could not find an error with selector " ++ hex (data.take 4) ++ " in the ABI"))) ∧
    (∀ data : Bytes, data.length < 4 →
      abi.resolveError c data = .error (.valueError "Error data too short to contain a selector")) := by
  obtain ⟨-, -, -, -, -, her, panic', legacy', L, hp, hl, hL, hidx⟩ := new_ok habi
  obtain rfl : panic = panic' := Except.ok.inj (hpanic.symm.trans hp)
  obtain rfl : legacy = legacy' := Except.ok.inj (hlegacy.symm.trans hl)
  rw [byName_values her hnames] at hL
  have hkeyed := hL.imp fun _ _ => Except.bind_pair_eq_ok.1
  refine ⟨fun E sel hsel hlast args kwargs bs henc => ?_, fun data hlen hnone => ?_,
    fun _ => resolveError_short⟩
  · obtain ⟨bound, d, hbind, hdec, hfst, hvals⟩ := Signature.decodeIntoDict_encode c hinv henc
    refine ⟨bound, d, hbind, resolveError_append (length_selectorOf hsel) ?_ hdec, hfst, hvals⟩
    rw [hidx]
    rcases hlast with ⟨pre, post, rfl, hother⟩ | ⟨rfl, hdecl⟩ | ⟨rfl, hleg, hdecl⟩
    · rw [← List.append_assoc] at hkeyed
      exact Dict.get?_ofList_keyed_last hkeyed hsel fun e he => hother e (List.mem_append_right _ he)
    · have hk : List.Forall₂ _ ([panic] ++ E :: errors) L := hkeyed
      exact Dict.get?_ofList_keyed_last hk hsel hdecl
    · have hk : List.Forall₂ _ ([] ++ E :: (legacy :: errors)) L := hkeyed
      exact Dict.get?_ofList_keyed_last hk hsel (List.forall_mem_cons.2 ⟨hleg, hdecl⟩)
  · exact resolveError_unknown hlen (hidx ▸ Dict.get?_ofList_keyed_none hkeyed hnone)

/-- A contract declaring `InsufficientBalance(uint256,uint256)` resolves that error's
selector followed by two encoded values. -/
theorem resolveError_inverts_insufficient :
    ∃ (E : Error String) (abi : ContractABI String) (sel : Bytes),
      Error.new (.str "InsufficientBalance")
        (Dict.ofList [("available", "uint256"), ("required", "uint256")]) = .ok E ∧
      new Codec.reference none none none [] [] [E] = .ok abi ∧ E.selector Codec.reference = .ok sel ∧
      ∃ bound d, E.fields.signature.bind [5, 9] Dict.empty = .ok bound ∧
        abi.resolveError Codec.reference (sel ++ [5, 9]) = .ok (E, d) ∧
        d.entries.map Prod.fst = E.fields.names ∧ ∀ p ∈ d.entries, bound.lookup p.1 = some p.2 := by
  refine ⟨_, _, _, rfl, rfl, rfl, ?_⟩
  exact (@resolveError_inverts String UInt8 Codec.reference Codec.reference_decodeInverts
    none none none [] [] (Error.new (.str "InsufficientBalance")
      (Dict.ofList [("available", "uint256"), ("required", "uint256")])).toOption.toList
    _ _ _ (by rfl) (by decide) (by rfl) (by rfl)).1 _ _ (by rfl) (.inl ⟨[], [], by rfl, by simp⟩)
    [5, 9] Dict.empty [5, 9] (by rfl)

end ContractABI

end Pons
