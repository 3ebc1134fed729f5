import Pons.Signature
import Mathlib.Data.Finset.Card
import Mathlib.Data.List.DropRight

/-!
# Pons — `EventSignature`

`EventSignature` (`_contract_abi.py`, lines 113–205) holds an event's fields. Its
constructor keyword-escapes the field mapping with a dict comprehension — so two names
that escape to the same word, `from` and `from_`, become one field — and makes an
`inspect` parameter for each indexed field only.

* **`encodeToTopics`** — binds a filter call partially to the indexed fields, encodes each
  bound value (or each alternative of an `Either`) as topics, and strips the trailing
  wildcards. `encodeToTopics_eq` states the result in closed form: the per-field sequence
  of `topicsPerField`, with trailing `none`s dropped.
* **`decodeLogEntry`** — checks the topic count against the indexed set, decodes the
  topics of the indexed fields and the data section of the others, and merges them back
  in field order.
-/

namespace Pons

/-- `Either(*items)`: a filter asking for any one of several values of a field. -/
structure Either (Val : Type) where
  items : List Val

/-- What a filter call binds to an indexed field: a value, or an `Either` of values. -/
inductive TopicArg (Val : Type) where
  | value (v : Val)
  | either (e : Either Val)

/-- `make_name_safe` on an element of the indexed set, which only a `str` can be a keyword. -/
def PyKey.makeNameSafe : PyKey → PyKey
  | .str s => .str (Pons.makeNameSafe s)
  | k => k

/-- An indexed name that `inspect` would rename. -/
def PyKey.isImplicit : PyKey → Bool
  | .str s => Inspect.isImplicitName s
  | _ => false

/-- `EventSignature`: the `inspect` signature over the indexed fields, the escaped field
types, the non-indexed ones, and the escaped indexed set. -/
structure EventSignature (Ty : Type) where
  signature : Inspect.Signature
  types : Dict String Ty
  typesNonindexed : Dict String Ty
  indexed : Finset PyKey

namespace EventSignature

variable {Ty Val : Type}

/-- `EventSignature(parameters, indexed)`. -/
def new (parameters : Dict String Ty) (indexed : Finset PyKey) :
    Except PyErr (EventSignature Ty) := do
  let parameters : Dict String Ty :=
    Dict.ofList (parameters.entries.map fun e => (makeNameSafe e.1, e.2))
  let indexed := indexed.image PyKey.makeNameSafe
  let ps ← (parameters.keys.filter fun n => PyKey.str n ∈ indexed).mapM
    fun n => Inspect.Parameter.new n .positionalOrKeyword
  let signature ← Inspect.Signature.new ps
  pure { signature, types := parameters,
         typesNonindexed := Dict.ofList (parameters.entries.filter fun e => PyKey.str e.1 ∉ indexed),
         indexed }

/-- `EventSignature.canonical_form`: every field's canonical type, in order. -/
def canonicalForm (c : Codec Ty Val) (s : EventSignature Ty) : String :=
  "(" ++ ",".intercalate (s.types.values.map c.canonicalForm) ++ ")"

/-- `EventSignature.canonical_form_nonindexed`. -/
def canonicalFormNonindexed (c : Codec Ty Val) (s : EventSignature Ty) : String :=
  "(" ++ ",".intercalate (s.typesNonindexed.values.map c.canonicalForm) ++ ")"

/-- The topics a bound value asks for: its encoding, or each alternative's. -/
def encodeTopicArg (c : Codec Ty Val) (tp : Ty) : TopicArg Val → Except PyErr (List LogTopic)
  | .value v => do
    let t ← Codec.lift (c.encodeToTopic tp v)
    pure [t]
  | .either e => e.items.mapM fun x => Codec.lift (c.encodeToTopic tp x)

/-- One turn of the loop of `encode_to_topics`, for the parameter `name`. -/
def encodeField (c : Codec Ty Val) (s : EventSignature Ty)
    (arguments : Inspect.Arguments (TopicArg Val)) (name : String) :
    Except PyErr (Option (List LogTopic)) :=
  match arguments.lookup name with
  | none => pure none
  | some boundVal => do
    let tp ← s.types.getitem name
    some <$> encodeTopicArg c tp boundVal

/-- `EventSignature.encode_to_topics(*args, **kwargs)`. -/
def encodeToTopics (c : Codec Ty Val) (s : EventSignature Ty) (args : List (TopicArg Val))
    (kwargs : Dict String (TopicArg Val)) : Except PyErr (List (Option (List LogTopic))) := do
  let bound ← s.signature.bindPartial args kwargs
  let encoded ← s.signature.parameters.mapM fun p => encodeField c s bound p.name
  -- remove trailing `None`s
  pure (encoded.rdropWhile Option.isNone)

/-- `EventSignature.decode_log_entry(topics, data)`. -/
def decodeLogEntry (c : Codec Ty Val) (s : EventSignature Ty) (topics : List LogTopic)
    (data : Bytes) : Except PyErr (Dict String Val) := do
  if topics.length ≠ s.indexed.card then
    throw (.valueError ("The number of topics in the log entry (" ++ toString topics.length ++
      ") does not match the number of indexed fields in the event (" ++
      toString s.indexed.card ++ ")"))
  else
    let decodedTopics ← (s.signature.parameters.zip topics).mapM fun (p, t) => do
      let tp ← s.types.getitem p.name
      let v ← Codec.lift (c.decodeFromTopic tp t)
      pure (p.name, v)
    let decodedTopics := Dict.ofList decodedTopics
    let decodedDataTuple ← Codec.lift (c.decodeArgs s.typesNonindexed.values data)
    let decodedData := Dict.ofList (s.typesNonindexed.keys.zip decodedDataTuple)
    let result ← s.types.keys.mapM fun name =>
      match decodedTopics.get? name with
      | some v => pure (name, v)
      | none => do
        let v ← decodedData.getitem name
        pure (name, v)
    pure (Dict.ofList result)

/-! ## The indexed fields -/

/-- The indexed fields, keyword-escaped, with their types, in declaration order. -/
def indexedFields (s : EventSignature Ty) : List (String × Ty) :=
  s.types.entries.filter fun e => PyKey.str e.1 ∈ s.indexed

/-- The declared fields the signature indexes, each under its escaped name with its declared
type, in declaration order: a field is indexed when its escaped name is the escape of an
indexed name. -/
def declaredIndexedFields (parameters : Dict String Ty) (indexed : Finset PyKey) :
    List (String × Ty) :=
  (parameters.entries.map fun e => (makeNameSafe e.1, e.2)).filter
    fun e => PyKey.str e.1 ∈ indexed.image PyKey.makeNameSafe

/-- The per-field topic sequence a filter call asks for: for each indexed field in
declaration order, `none` when the call leaves it unbound, else the topic encodings of
its value, or of each alternative of an `Either`, in order. -/
def topicsPerField (c : Codec Ty Val) (s : EventSignature Ty) (args : List (TopicArg Val))
    (kwargs : Dict String (TopicArg Val)) : Except PyErr (List (Option (List LogTopic))) :=
  (s.indexedFields.zip (args.map some ++
      (s.indexedFields.drop args.length).map fun f => kwargs.get? f.1)).mapM fun (f, a) =>
    match a with
    | none => pure none
    | some a => some <$> encodeTopicArg c f.2 a

theorem new_ok {parameters : Dict String Ty} {indexed : Finset PyKey} {s : EventSignature Ty}
    (h : new parameters indexed = .ok s) :
    s.types = Dict.ofList (parameters.entries.map fun e => (makeNameSafe e.1, e.2)) ∧
      s.indexed = indexed.image PyKey.makeNameSafe ∧
      s.typesNonindexed = Dict.ofList (s.types.entries.filter fun e => PyKey.str e.1 ∉ s.indexed) ∧
      (s.types.keys.filter fun n => PyKey.str n ∈ s.indexed).mapM
        (fun n => Inspect.Parameter.new n .positionalOrKeyword) = .ok s.signature.parameters := by
  obtain ⟨ps, hps, h⟩ := Except.bind_eq_ok.1 h
  obtain ⟨sig, hsig, h⟩ := Except.bind_eq_ok.1 h
  cases h
  exact ⟨rfl, rfl, rfl, by rw [Inspect.Signature.parameters_of_new hsig]; exact hps⟩

/-- When no two declared names escape alike, the signature keeps every declared field, in
order, under its escaped name. -/
theorem entries_types_of_nodup {parameters : Dict String Ty} {indexed : Finset PyKey}
    {s : EventSignature Ty} (h : new parameters indexed = .ok s)
    (hnd : (parameters.keys.map makeNameSafe).Nodup) :
    s.types.entries = parameters.entries.map fun e => (makeNameSafe e.1, e.2) := by
  rw [(new_ok h).1, Dict.entries_ofList (by simpa [Dict.keys, Function.comp_def] using hnd)]

/-- **No field is merged.** When no two declared names escape alike, the indexed fields are
the declared ones, with their declared types. -/
theorem indexedFields_of_nodup {parameters : Dict String Ty} {indexed : Finset PyKey}
    {s : EventSignature Ty} (h : new parameters indexed = .ok s)
    (hnd : (parameters.keys.map makeNameSafe).Nodup) :
    s.indexedFields = declaredIndexedFields parameters indexed := by
  rw [indexedFields, entries_types_of_nodup h hnd, (new_ok h).2.1]
  rfl

/-- When the indexed names are declared names and no two declared names escape alike, the
signature indexes as many names as were declared indexed. -/
theorem card_indexed_of_nodup {parameters : Dict String Ty} {indexed : Finset PyKey}
    {s : EventSignature Ty} (h : new parameters indexed = .ok s)
    (hnd : (parameters.keys.map makeNameSafe).Nodup)
    (hsub : ∀ k ∈ indexed, ∃ n ∈ parameters.keys, k = .str n) :
    s.indexed.card = indexed.card := by
  rw [(new_ok h).2.1]
  refine Finset.card_image_of_injOn fun k hk k' hk' hkk => ?_
  obtain ⟨n, hn, rfl⟩ := hsub k hk
  obtain ⟨n', hn', rfl⟩ := hsub k' hk'
  simp only [PyKey.makeNameSafe, PyKey.str.injEq] at hkk
  rw [List.inj_on_of_nodup_map hnd hn hn' hkk]

/-- An escaped indexed name is renamed by `inspect` only if its unescaped one is. -/
theorem isImplicitName_of_mem_image {indexed : Finset PyKey}
    (hi : ∀ k ∈ indexed, k.isImplicit = false) {n : String}
    (hn : PyKey.str n ∈ indexed.image PyKey.makeNameSafe) : Inspect.isImplicitName n = false := by
  obtain ⟨k, hk, hkn⟩ := Finset.mem_image.1 hn
  cases k with
  | str m =>
    cases hkn
    exact isImplicitName_makeNameSafe (hi _ hk)
  | none => cases hkn
  | int _ => cases hkn

/-- **The indexed parameters.** When no indexed name is one `inspect` renames, the event
signature's parameters are its indexed fields, in declaration order, all
positional-or-keyword. -/
theorem parameters_of_new {parameters : Dict String Ty} {indexed : Finset PyKey}
    {s : EventSignature Ty} (h : new parameters indexed = .ok s)
    (hi : ∀ k ∈ indexed, k.isImplicit = false) :
    s.signature.parameters = s.indexedFields.map fun f => ⟨f.1, .positionalOrKeyword⟩ := by
  obtain ⟨-, hidx, -, hps⟩ := new_ok h
  rw [Inspect.eq_of_mapM_new hps (.inr fun n hn => isImplicitName_of_mem_image hi
    (hidx ▸ (List.mem_filter.1 hn).2 |> of_decide_eq_true)), Dict.keys, List.filter_map,
    List.map_map]
  rfl

/-- Trimming drops only wildcards: what it drops is a run of `none`s. -/
theorem eq_rdropWhile_append_replicate {α : Type} (l : List (Option α)) :
    ∃ k, l = l.rdropWhile Option.isNone ++ List.replicate k none := by
  refine ⟨(l.rtakeWhile Option.isNone).length, ?_⟩
  have hsplit : l.rdropWhile Option.isNone ++ l.rtakeWhile Option.isNone = l := by
    simp only [List.rdropWhile, List.rtakeWhile, ← List.reverse_append,
      List.takeWhile_append_dropWhile, List.reverse_reverse]
  have hnone : l.rtakeWhile Option.isNone = List.replicate _ none :=
    List.eq_replicate_iff.2 ⟨rfl, fun x hx => Option.isNone_iff_eq_none.1
      (List.mem_rtakeWhile_imp hx)⟩
  rw [← hnone, hsplit]

/-- The per-field sequence has one position per indexed field. -/
theorem length_topicsPerField {c : Codec Ty Val} {s : EventSignature Ty}
    {args : List (TopicArg Val)} {kwargs : Dict String (TopicArg Val)}
    {perField : List (Option (List LogTopic))} (hlen : args.length ≤ s.indexedFields.length)
    (h : s.topicsPerField c args kwargs = .ok perField) :
    perField.length = s.indexedFields.length := by
  rw [← (Except.mapM_eq_ok_iff.1 h).length_eq, List.length_zip]
  simp only [List.length_append, List.length_map, List.length_drop]
  omega

/-- A pair of a zip of a list with its own image is an element and its image. -/
theorem eq_of_mem_zip_map {α β : Type} {g : α → β} {l : List α} {a : α} {b : β}
    (h : (a, b) ∈ l.zip (l.map g)) : b = g a := by
  induction l with
  | nil => cases h
  | cons x l ih =>
    simp only [List.map_cons, List.zip_cons_cons, List.mem_cons, Prod.mk.injEq] at h
    rcases h with ⟨rfl, rfl⟩ | h
    · rfl
    · exact ih h

/-- A field listed among the event's fields is found under its name. -/
theorem getitem_of_mem {s : EventSignature Ty} {f : String × Ty} (hf : f ∈ s.types.entries) :
    s.types.getitem f.1 = .ok f.2 := by
  simp [Dict.getitem, (Dict.get?_eq_some_iff s.types).2 hf]

/-- **`encode_to_topics` in closed form.** When the indexed parameters are the indexed
fields, a partial binding that `inspect` accepts — positional values for the first
indexed fields, keywords for later ones — yields the per-field topic sequence with its
trailing wildcards removed. -/
theorem encodeToTopics_eq (c : Codec Ty Val) {s : EventSignature Ty}
    (hps : s.signature.parameters = s.indexedFields.map fun f => ⟨f.1, .positionalOrKeyword⟩)
    {args : List (TopicArg Val)} (hlen : args.length ≤ s.indexedFields.length)
    {kwargs : Dict String (TopicArg Val)}
    (hkw : ∀ k ∈ kwargs.keys, k ∈ (s.indexedFields.drop args.length).map Prod.fst) :
    s.encodeToTopics c args kwargs =
      List.rdropWhile Option.isNone <$> s.topicsPerField c args kwargs := by
  set fs := s.indexedFields
  have hk : ∀ p ∈ s.signature.parameters, p.kind = .positionalOrKeyword := fun p hp => by
    rw [hps] at hp; obtain ⟨f, -, rfl⟩ := List.mem_map.1 hp; rfl
  have hplen : args.length ≤ s.signature.parameters.length := by simpa [hps] using hlen
  have hkw' : ∀ k ∈ kwargs.keys, k ∈ (s.signature.parameters.drop args.length).map
      Inspect.Parameter.name := by
    simpa only [hps, ← List.map_drop, List.map_map] using hkw
  -- the binding gives each indexed field its positional value, else its keyword, if any
  obtain ⟨bound, hbind, hsup⟩ : ∃ bound, s.signature.bindPartial args kwargs = .ok bound ∧
      fs.map (fun f => bound.lookup f.1) =
        args.map some ++ (fs.drop args.length).map fun f => kwargs.get? f.1 := by
    refine ⟨_, Inspect.bindPartial_eq hk hplen hkw', ?_⟩
    have := Inspect.map_lookup_bindPartial s.signature.nodup hplen kwargs
    simp only [hps, List.map_map, ← List.map_drop] at this ⊢
    exact this
  have hsl : (args.map some ++ (fs.drop args.length).map fun f => kwargs.get? f.1).length =
      fs.length := by
    simp only [List.length_append, List.length_map, List.length_drop]; omega
  have hmap : s.signature.parameters.mapM (fun p => encodeField c s bound p.name) =
      s.topicsPerField c args kwargs := by
    rw [hps, Except.mapM_map]
    refine Except.mapM_eq_mapM_zip hsl fun ⟨f, a⟩ hx => ?_
    have hf : f ∈ fs := (List.of_mem_zip hx).1
    have hx' : (f, a) ∈ fs.zip (fs.map fun f => bound.lookup f.1) := hsup ▸ hx
    obtain rfl := eq_of_mem_zip_map hx'
    simp only [Function.comp_apply, encodeField]
    cases bound.lookup f.1 <;> simp [getitem_of_mem (List.mem_filter.1 hf).1]
  simp only [encodeToTopics, hbind, Except.ok_bind, hmap, bind_pure_comp]

/-- A signature with one indexed field encodes a value bound to it under that field's type. -/
theorem encodeToTopics_single (c : Codec Ty Val) {s : EventSignature Ty} {f : String × Ty}
    (hps : s.signature.parameters = s.indexedFields.map fun f => ⟨f.1, .positionalOrKeyword⟩)
    (hfs : s.indexedFields = [f]) (v : Val) :
    s.encodeToTopics c [.value v] Dict.empty =
      (fun t => [some [t]]) <$> Codec.lift (c.encodeToTopic f.2 v) := by
  rw [encodeToTopics_eq c hps (by simp [hfs]) (by simp [Dict.empty, Dict.keys])]
  simp only [topicsPerField, hfs, List.map, List.length_singleton, List.drop_one, List.tail,
    List.append_nil, List.zip_cons_cons, List.zip_nil_left, List.mapM_cons, List.mapM_nil,
    encodeTopicArg]
  cases Codec.lift (c.encodeToTopic f.2 v) <;> rfl

end EventSignature

end Pons
