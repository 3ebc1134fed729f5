import Pons.Dict

/-!
# Pons — the codec collaborator

The ABI layer never packs a value itself: `pons._abi_types` does (`encode_args`,
`decode_args`, `Type.encode_to_topic`, `Type.decode_from_topic`, `keccak`,
`dispatch_type(s)`), and that module is not part of the sources modelled here. A `Codec`
is the interface the layer needs from it, over an abstract type universe `Ty` and value
universe `Val`. Its two fields that are facts rather than operations are what every
codec delivers: a keccak digest is one 32-byte word, and `decode_args` returns one value
per type. That `decode_args` inverts `encode_args` is needed only to decode what was
encoded, so it is a separate predicate (`Codec.DecodeInverts`), a hypothesis of the
round-trip theorems (`Signature.encode_roundTrip`, `Event.decodeLogEntry_emit`,
`ContractABI.fromJson_resolveError`) rather than a field.

`Codec.reference` is a one-byte-per-value stand-in, used only to evaluate the model on
concrete inputs.
-/

namespace Pons

/-- `LogTopic`: one 32-byte word of a log entry's topic list. -/
structure LogTopic where
  bytes : Bytes
  size_eq : bytes.length = 32
  deriving DecidableEq

/-- `LogEntry`, as far as events read it: its topics and its data section. -/
structure LogEntry where
  topics : List LogTopic
  data : Bytes

/-- The `parameters` of a signature: a mapping of names to types, or a list of types. -/
inductive Params (Ty : Type) where
  | named (m : Dict String Ty)
  | positional (ts : List Ty)

/-- What the ABI layer uses of `pons._abi_types`. -/
structure Codec (Ty Val : Type) where
  /-- `Type.canonical_form`. -/
  canonicalForm : Ty → String
  /-- `encode_args(*zip(types, values))`. -/
  encodeArgs : List (Ty × Val) → Except String Bytes
  /-- `decode_args(types, data)`. -/
  decodeArgs : List Ty → Bytes → Except String (List Val)
  /-- `Type.encode_to_topic(value)`. -/
  encodeToTopic : Ty → Val → Except String LogTopic
  /-- `Type.decode_from_topic(topic)`. -/
  decodeFromTopic : Ty → LogTopic → Except String Val
  /-- `keccak(data)`: a 32-byte digest. -/
  keccak : Bytes → LogTopic
  /-- `dispatch_type(entry)`. -/
  dispatchType : Json → Except PyErr Ty
  /-- `dispatch_types(entries)`. -/
  dispatchTypes : Json → Except PyErr (Params Ty)
  /-- `abi.uint(256)`. -/
  uint256 : Ty
  /-- `abi.string`. -/
  string : Ty
  /-- `decode_args` returns one value per type. -/
  decodeArgs_length : ∀ ts bs vs, decodeArgs ts bs = .ok vs → vs.length = ts.length

namespace Codec

variable {Ty Val : Type}

/-- An exception raised inside the codec, as the ABI layer lets it through. -/
def lift {α : Type} (x : Except String α) : Except PyErr α := x.mapError PyErr.codecError

@[simp] theorem lift_ok {α : Type} (a : α) : lift (.ok a : Except String α) = .ok a := rfl

@[simp] theorem lift_error {α : Type} (e : String) :
    lift (.error e : Except String α) = .error (.codecError e) := rfl

theorem lift_eq_ok {α : Type} {x : Except String α} {a : α} : lift x = .ok a ↔ x = .ok a := by
  cases x <;> simp

/-- A computation that, when it fails, fails inside the codec. -/
def FailsOnlyInCodec {α : Type} (x : Except PyErr α) : Prop :=
  ∀ err, x = .error err → ∃ msg, err = .codecError msg

namespace FailsOnlyInCodec

variable {α β : Type}

theorem ok (a : α) : FailsOnlyInCodec (.ok a : Except PyErr α) := fun _ h => by cases h

theorem lift (x : Except String α) : FailsOnlyInCodec (Codec.lift x) := fun err h => by
  cases x with
  | ok a => cases h
  | error msg => exact ⟨msg, by cases h; rfl⟩

theorem bind {x : Except PyErr α} {f : α → Except PyErr β} (hx : FailsOnlyInCodec x)
    (hf : ∀ a, x = .ok a → FailsOnlyInCodec (f a)) : FailsOnlyInCodec (x >>= f) := fun err h => by
  cases hxa : x with
  | error e => rw [hxa] at h; cases h; exact hx _ hxa
  | ok a => rw [hxa] at h; exact hf a hxa err h

theorem mapM {f : α → Except PyErr β} {l : List α} (h : ∀ a ∈ l, FailsOnlyInCodec (f a)) :
    FailsOnlyInCodec (l.mapM f) := by
  induction l with
  | nil => exact ok []
  | cons a l ih =>
    rw [List.mapM_cons]
    exact bind (h a (by simp)) fun _ _ => bind (ih fun b hb => h b (by simp [hb])) fun _ _ => ok _

end FailsOnlyInCodec

/-- `decode_args` inverts `encode_args` on the same type list. -/
def DecodeInverts (c : Codec Ty Val) : Prop :=
  ∀ (ts : List Ty) (vs : List Val) (bs : Bytes), ts.length = vs.length →
    c.encodeArgs (ts.zip vs) = .ok bs → c.decodeArgs ts bs = .ok vs

/-! ## A reference instance -/

/-- `dispatch_type` of the stand-in codec: the entry's `type` string is the type. -/
def referenceDispatchType (e : Json) : Except PyErr String := do
  match ← e.getitem "type" with
  | .str s => pure s
  | _ => throw (.typeError "type must be a string")

/-- `dispatch_types` of the stand-in codec: unnamed entries give a list of types, named
ones a mapping. -/
def referenceDispatchTypes (e : Json) : Except PyErr (Params String) := do
  let items ← e.iter
  let names ← items.mapM fun i => i.getitem "name"
  let types ← items.mapM referenceDispatchType
  if !names.isEmpty && names.all (·.eqStr "") then pure (.positional types)
  else
    let keys ← names.mapM fun n => match n with
      | .str s => pure s
      | _ => throw (.typeError "name must be a string")
    pure (.named (Dict.ofList (keys.zip types)))

/-- A stand-in codec whose values are single bytes, encoded as themselves. -/
def reference : Codec String UInt8 where
  canonicalForm t := t
  encodeArgs ps := .ok (ps.map Prod.snd)
  decodeArgs ts bs := if bs.length = ts.length then .ok bs else .error "data does not fit the types"
  encodeToTopic _ v := .ok ⟨List.replicate 31 0 ++ [v], by simp⟩
  decodeFromTopic _ t := .ok (t.bytes.getLastD 0)
  keccak b := ⟨(b ++ List.replicate 32 0).take 32, by simp⟩
  dispatchType := referenceDispatchType
  dispatchTypes := referenceDispatchTypes
  uint256 := "uint256"
  string := "string"
  decodeArgs_length ts bs vs h := by
    simp only at h
    split at h
    · cases h; assumption
    · cases h

/-- The stand-in codec meets the round-trip assumption. -/
theorem reference_decodeInverts : reference.DecodeInverts := by
  intro ts vs bs hlen h
  simp only [reference, Except.ok.injEq] at h ⊢
  subst h
  simp [List.map_snd_zip _ _ (by omega : vs.length ≤ ts.length), hlen]

end Codec

end Pons
