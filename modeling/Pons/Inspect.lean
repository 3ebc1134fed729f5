import Pons.Dict

/-!
# Pons — `inspect` argument binding

`Signature` and `EventSignature` hand the caller's `*args, **kwargs` to
`inspect.Signature.bind` / `bind_partial` and read the result back through
`BoundArguments.args` and `BoundArguments.arguments`. The library is not part of the
repository but it decides which calls are accepted, so it is modelled here after
CPython 3.11's `inspect.py`, for the two parameter kinds pons creates (positional-only
and positional-or-keyword) and no defaults.

* **`Parameter.new`** — `Parameter(name, kind)`: an empty name fails on `name[0]`, a name
  made of a dot and digits is renamed `implicitN` and made positional-only (the names
  comprehensions give their hidden argument), and a keyword or non-identifier is refused.
* **`Signature.new`** — `Signature(parameters)`: positional-only parameters first, names
  pairwise distinct. The resulting `Signature` carries the distinctness.
* **`Signature.bindWith`** — `Signature._bind`, as its two loops: the positional phase
  (`bindPositional`) and the keyword phase that pops each remaining parameter's value
  out of `kwargs` (`bindKeywords`), then the check that no keyword is left over.
-/

namespace Pons.Inspect

/-- `inspect.Parameter.kind`, for the kinds pons creates. -/
inductive ParameterKind where
  | positionalOnly
  | positionalOrKeyword
  deriving DecidableEq, Repr

namespace ParameterKind

/-- `_ParameterKind.description`. -/
def description : ParameterKind → String
  | positionalOnly => "positional-only"
  | positionalOrKeyword => "positional or keyword"

/-- The `IntEnum` value of the kind. -/
def toNat : ParameterKind → Nat
  | positionalOnly => 0
  | positionalOrKeyword => 1

end ParameterKind

/-- `inspect.Parameter` without default or annotation. -/
structure Parameter where
  name : String
  kind : ParameterKind
  deriving DecidableEq, Repr

/-- The names `Parameter` renames: a dot followed by digits. -/
def isImplicitName (name : String) : Bool :=
  match name.toList with
  | '.' :: rest => isdigit rest
  | _ => false

/-- `Parameter(name, kind)`. -/
def Parameter.new (name : String) (kind : ParameterKind) : Except PyErr Parameter := do
  let (name, kind) ← match name.toList with
    | [] => throw (.indexError "string index out of range")
    | c :: rest =>
      if c = '.' ∧ isdigit rest then
        if kind ≠ .positionalOrKeyword then
          throw (.valueError ("implicit arguments must be passed as positional or " ++
            "keyword arguments, not " ++ kind.description))
        else pure ("implicit" ++ String.mk rest, ParameterKind.positionalOnly)
      else pure (name, kind)
  if (iskeyword name && kind != .positionalOnly) || !isidentifier name then
    throw (.valueError (pyRepr name ++ " is not a valid parameter name"))
  pure ⟨name, kind⟩

/-- The checks `Signature.__init__` makes on each parameter in turn: its kind may not come
before the latest kind seen (`top`), and its name may not have been seen. -/
def validate : ParameterKind → List String → List Parameter → Except PyErr Unit
  | _, _, [] => pure ()
  | top, seen, p :: ps =>
    if p.kind.toNat < top.toNat then
      throw (.valueError ("wrong parameter order: " ++ top.description ++ " parameter before " ++
        p.kind.description ++ " parameter"))
    else if p.name ∈ seen then
      throw (.valueError ("duplicate parameter name: " ++ pyRepr p.name))
    else validate (if top.toNat < p.kind.toNat then p.kind else top) (p.name :: seen) ps

theorem nodup_of_validate {top : ParameterKind} {seen : List String} {ps : List Parameter}
    (h : validate top seen ps = .ok ()) :
    (ps.map Parameter.name).Nodup ∧ ∀ p ∈ ps, p.name ∉ seen := by
  induction ps generalizing top seen with
  | nil => simp
  | cons p ps ih =>
    simp only [validate] at h
    split at h
    · cases h
    split at h
    · cases h
    obtain ⟨hnd, hseen⟩ := ih h
    refine ⟨List.nodup_cons.2 ⟨fun hm => ?_, hnd⟩, ?_⟩
    · obtain ⟨q, hq, hqn⟩ := List.mem_map.1 hm
      exact hseen q hq (by simp [hqn])
    · rintro q (_ | ⟨_, hq⟩)
      · assumption
      · exact fun hs => hseen q hq (List.mem_cons_of_mem _ hs)

/-- `inspect.Signature`: its parameters, with pairwise distinct names. -/
structure Signature where
  parameters : List Parameter
  nodup : (parameters.map Parameter.name).Nodup

/-- `Signature(parameters)`. -/
def Signature.new (ps : List Parameter) : Except PyErr Signature :=
  match h : validate .positionalOnly [] ps with
  | .ok () => .ok ⟨ps, (nodup_of_validate h).1⟩
  | .error e => .error e

theorem Signature.parameters_of_new {ps : List Parameter} {sig : Signature}
    (h : Signature.new ps = .ok sig) : sig.parameters = ps := by
  unfold Signature.new at h
  split at h <;> cases h
  rfl

/-! ## Binding -/

/-- `BoundArguments.arguments`: parameter names with their values, in binding order. -/
abbrev Arguments (α : Type) := List (String × α)

variable {α : Type}

/-- The positional phase of `Signature._bind`: each positional value takes the next
parameter. Returns what it bound and the parameters left for the keyword phase. -/
def bindPositional (isPartial : Bool) (kwargs : Dict String α) :
    List Parameter → List α → Except PyErr (Arguments α × List Parameter)
  | [], [] => pure ([], [])
  | [], _ :: _ => throw (.typeError "too many positional arguments")
  | p :: ps, [] =>
    if kwargs.contains p.name then
      if p.kind = .positionalOnly then
        throw (.typeError (pyRepr p.name ++ " parameter is positional only, but was passed as a keyword"))
      else pure ([], p :: ps)
    else if isPartial then pure ([], p :: ps)
    else throw (.typeError ("missing a required argument: " ++ pyRepr p.name))
  | p :: ps, a :: as =>
    if kwargs.contains p.name ∧ p.kind ≠ .positionalOnly then
      throw (.typeError ("multiple values for argument " ++ pyRepr p.name))
    else do
      let (bound, rest) ← bindPositional isPartial kwargs ps as
      pure ((p.name, a) :: bound, rest)

/-- The keyword phase of `Signature._bind`: each remaining parameter pops its value out of
`kwargs`. Returns what it bound and the keywords left over. -/
def bindKeywords (isPartial : Bool) :
    List Parameter → Dict String α → Except PyErr (Arguments α × Dict String α)
  | [], kwargs => pure ([], kwargs)
  | p :: ps, kwargs =>
    match kwargs.get? p.name with
    | none =>
      if isPartial then bindKeywords isPartial ps kwargs
      else throw (.typeError ("missing a required argument: " ++ pyRepr p.name))
    | some v =>
      if p.kind = .positionalOnly then
        throw (.typeError (pyRepr p.name ++ " parameter is positional only, but was passed as a keyword"))
      else do
        let (bound, rest) ← bindKeywords isPartial ps (kwargs.erase p.name)
        pure ((p.name, v) :: bound, rest)

/-- `Signature._bind(args, kwargs, partial=isPartial)`, as its `arguments`. -/
def Signature.bindWith (isPartial : Bool) (sig : Signature) (args : List α)
    (kwargs : Dict String α) : Except PyErr (Arguments α) := do
  let (positional, rest) ← bindPositional isPartial kwargs sig.parameters args
  let (keyword, left) ← bindKeywords isPartial rest kwargs
  match left.keys with
  | [] => pure (positional ++ keyword)
  | k :: _ => throw (.typeError ("got an unexpected keyword argument " ++ pyRepr k))

/-- `Signature.bind(*args, **kwargs)`. -/
def Signature.bind (sig : Signature) (args : List α) (kwargs : Dict String α) :
    Except PyErr (Arguments α) :=
  sig.bindWith false args kwargs

/-- `Signature.bind_partial(*args, **kwargs)`. -/
def Signature.bindPartial (sig : Signature) (args : List α) (kwargs : Dict String α) :
    Except PyErr (Arguments α) :=
  sig.bindWith true args kwargs

/-- `BoundArguments.args`: the values of the leading parameters, up to the first one
left unbound. -/
def boundArgs : List Parameter → Arguments α → List α
  | [], _ => []
  | p :: ps, arguments =>
    match arguments.lookup p.name with
    | some v => v :: boundArgs ps arguments
    | none => []

end Pons.Inspect
