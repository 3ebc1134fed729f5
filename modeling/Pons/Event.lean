import Pons.EventSignature

/-!
# Pons — `Event` and its filters

`Event` (`_contract_abi.py`, lines 393–474) is an event declaration: a name, the set of
indexed field names, capped at three (four for an anonymous event), and the
`EventSignature` of its fields. Calling it builds an `EventFilter`; its
`decode_log_entry` checks and strips the event's own topic before the signature decodes
the rest (`Pons.Event.Decode`).

* **`call`** — `Event.__call__`: the event's topic as a one-element position (unless the
  event is anonymous), then the positions `encode_to_topics` returns.
* **`matchesTopics`** — how a node selects logs by a filter: no more positions than the
  entry has topics, and each position a wildcard or a tuple holding the entry's topic
  there. The filter code never evaluates it; it is what a filter is for.

The results, for fields whose names stay distinct once keyword-escaped (two that escape
alike merge into one field, `Event.topic_merges_escaped`): `encodeToTopics_spec` — the
per-field sequence over the declared indexed fields with only trailing wildcards cut, and at
most four positions for any event that passed its cap; `call_matches_iff` — a filter selects
exactly the entries whose bound fields carry one of the bound values' encodings, and never an
entry of another event. `decodeLogEntry_nil`: a non-anonymous event reads an entry's first
topic unchecked, so an entry without topics raises `IndexError`.
-/

namespace Pons

/-- `EventFilter`: for each topic position, a wildcard or the topics accepted there. -/
structure EventFilter where
  topics : List (Option (List LogTopic))

/-- Whether a log entry's topics pass a filter, as a node selects logs. -/
def matchesTopics : List (Option (List LogTopic)) → List LogTopic → Bool
  | [], _ => true
  | _ :: _, [] => false
  | f :: fs, t :: ts => f.all (fun alts => alts.contains t) && matchesTopics fs ts

/-- Trailing wildcards that the entry has topics for do not change whether it matches. -/
theorem matchesTopics_append_replicate (fs : List (Option (List LogTopic))) (k : Nat)
    (ts : List LogTopic) (h : fs.length + k ≤ ts.length) :
    matchesTopics (fs ++ List.replicate k none) ts = matchesTopics fs ts := by
  induction fs generalizing ts with
  | nil =>
    simp only [List.nil_append, List.length_nil, Nat.zero_add] at h ⊢
    induction k generalizing ts with
    | zero => cases ts <;> rfl
    | succ k ih =>
      cases ts with
      | nil => simp at h
      | cons t ts => simpa [List.replicate_succ, matchesTopics] using ih ts (by simpa using h)
  | cons f fs ih =>
    cases ts with
    | nil => simp at h
    | cons t ts =>
      rw [List.cons_append, matchesTopics, matchesTopics, ih ts (by simp at h; omega)]

/-- Against an entry with one topic per position, a filter matches exactly when every
position is a wildcard or lists the entry's topic there. -/
theorem matchesTopics_iff_forall₂ {ps : List (Option (List LogTopic))} {ts : List LogTopic}
    (h : ps.length = ts.length) :
    matchesTopics ps ts = true ↔ List.Forall₂ (fun p t => ∀ alts, p = some alts → t ∈ alts) ps ts := by
  induction ps generalizing ts with
  | nil => cases ts <;> simp_all [matchesTopics]
  | cons p ps ih =>
    cases ts with
    | nil => simp at h
    | cons t ts =>
      rw [matchesTopics, Bool.and_eq_true, ih (by simpa using h), List.forall₂_cons]
      cases p <;> simp

/-- An `Event`: its name, its indexed names, its fields' signature, and whether it is
anonymous (only the truth of the JSON flag is ever read). -/
structure Event (Ty : Type) where
  name : Json
  indexed : Finset PyKey
  fields : EventSignature Ty
  anonymous : Bool

namespace Event

variable {Ty Val : Type}

/-- `Event(name, fields, indexed, anonymous)`. -/
def new (name : Json) (fields : Dict String Ty) (indexed : Finset PyKey) (anonymous : Bool) :
    Except PyErr (Event Ty) := do
  if anonymous && 4 < indexed.card then
    throw (.valueError "Anonymous events can have at most 4 indexed fields")
  else if !anonymous && 3 < indexed.card then
    throw (.valueError "Non-anonymous events can have at most 3 indexed fields")
  else
    let fields ← EventSignature.new fields indexed
    pure { name, indexed, fields, anonymous }

/-- `Event._topic`: the digest of the name and the canonical form of all fields. -/
def topic (c : Codec Ty Val) (e : Event Ty) : Except PyErr LogTopic := do
  let name ← e.name.encode
  pure (c.keccak (name ++ utf8 (e.fields.canonicalForm c)))

/-- `Event.__call__(*args, **kwargs)`. -/
def call (c : Codec Ty Val) (e : Event Ty) (args : List (TopicArg Val))
    (kwargs : Dict String (TopicArg Val)) : Except PyErr EventFilter := do
  let encodedTopics ← e.fields.encodeToTopics c args kwargs
  let logTopics ← if !e.anonymous then do
      let t ← e.topic c
      pure [some [t]]
    else pure []
  pure ⟨logTopics ++ encodedTopics⟩

/-- `Event.decode_log_entry(log_entry)`. -/
def decodeLogEntry (c : Codec Ty Val) (e : Event Ty) (logEntry : LogEntry) :
    Except PyErr (Dict String Val) := do
  let topics ← if !e.anonymous then
      match logEntry.topics with
      | [] => throw (.indexError "tuple index out of range")
      | t :: rest => do
        let topic ← e.topic c
        if t ≠ topic then throw (.valueError "This log entry belongs to a different event")
        else pure rest
    else pure logEntry.topics
  e.fields.decodeLogEntry c topics logEntry.data

/-- A non-anonymous event reads the first topic before any check: an entry without topics
raises `IndexError`, not the `ValueError` of a foreign or malformed entry. -/
theorem decodeLogEntry_nil (c : Codec Ty Val) {e : Event Ty} (ha : e.anonymous = false)
    (data : Bytes) :
    e.decodeLogEntry c ⟨[], data⟩ = .error (.indexError "tuple index out of range") := by
  simp [decodeLogEntry, ha]

/-- The Transfer event on an entry with no topics. -/
theorem decodeLogEntry_nil_transfer :
    ∃ e, new (.str "Transfer") (Dict.ofList [("from", "address"), ("to", "address"),
        ("value", "uint256")]) {PyKey.str "from", PyKey.str "to"} false = .ok e ∧
      e.decodeLogEntry Codec.reference ⟨[], []⟩ = .error (.indexError "tuple index out of range") :=
  ⟨_, rfl, decodeLogEntry_nil Codec.reference rfl []⟩

/-- The log entry the event's contract emits for `vals`, one value per field in declaration
order: the event's topic unless the event is anonymous, then each indexed field's value
encoded as a topic, in order; the data section packs the other fields' values. -/
def emit (c : Codec Ty Val) (e : Event Ty) (vals : List Val) : Except PyErr LogEntry := do
  let fields := e.fields.types.entries.zip vals
  let topics ← (fields.filter fun p => PyKey.str p.1.1 ∈ e.fields.indexed).mapM
    fun p => Codec.lift (c.encodeToTopic p.1.2 p.2)
  let data ← Codec.lift (c.encodeArgs
    ((fields.filter fun p => PyKey.str p.1.1 ∉ e.fields.indexed).map fun p => (p.1.2, p.2)))
  if e.anonymous then pure ⟨topics, data⟩
  else do
    let topic ← e.topic c
    pure ⟨topic :: topics, data⟩

/-- The topics of a log entry laid out as the event's contract emits it: the event's topic
unless the event is anonymous, then the given topics, one per indexed field. -/
def layout (e : Event Ty) (topic : LogTopic) (ts : List LogTopic) : List LogTopic :=
  if e.anonymous then ts else topic :: ts

/-! ## Construction and calls -/

theorem new_ok {name : Json} {fields : Dict String Ty} {indexed : Finset PyKey} {anonymous : Bool}
    {e : Event Ty} (h : new name fields indexed anonymous = .ok e) :
    e.name = name ∧ e.anonymous = anonymous ∧ indexed.card ≤ (if anonymous then 4 else 3) ∧
      EventSignature.new fields indexed = .ok e.fields := by
  unfold new at h
  split at h
  · cases h
  split at h
  · cases h
  obtain ⟨s, hs, h⟩ := Except.bind_eq_ok.1 h
  cases h
  refine ⟨rfl, rfl, ?_, hs⟩
  cases anonymous <;> simp_all

/-- The topic of an event whose name is a string. -/
theorem topic_str {name : String} {e : Event Ty} (h : e.name = .str name) (c : Codec Ty Val) :
    e.topic c = .ok (c.keccak (utf8 name ++ utf8 (e.fields.canonicalForm c))) := by
  simp [topic, h]

/-- What a successful call builds: the event's topic, unless anonymous, before the
topics `encode_to_topics` returned. -/
theorem call_ok {c : Codec Ty Val} {e : Event Ty} {args : List (TopicArg Val)}
    {kwargs : Dict String (TopicArg Val)} {filt : EventFilter} (h : e.call c args kwargs = .ok filt) :
    ∃ enc, e.fields.encodeToTopics c args kwargs = .ok enc ∧
      (e.anonymous = true → filt.topics = enc) ∧
      (e.anonymous = false → ∃ t, e.topic c = .ok t ∧ filt.topics = some [t] :: enc) := by
  obtain ⟨enc, henc, h⟩ := Except.bind_eq_ok.1 h
  refine ⟨enc, henc, fun ha => ?_, fun ha => ?_⟩
  · simp only [ha, Bool.not_true, Bool.false_eq_true, if_false, Except.pure_eq_ok,
      Except.ok_bind, Except.ok.injEq] at h
    simp [← h]
  · simp only [ha, Bool.not_false, if_true] at h
    cases ht : e.topic c with
    | error err => simp [ht] at h
    | ok t =>
      simp only [ht, Except.ok_bind, Except.pure_eq_ok, Except.ok.injEq] at h
      exact ⟨t, rfl, by rw [← h]; rfl⟩

/-- **A filter selects exactly the matching log entries.** Take an event with a string
name whose field names stay distinct once keyword-escaped and whose indexed names `inspect`
keeps, a filter call binding positional values to the first indexed fields and keywords to
later ones, and the filter it builds. The event's indexed fields are the declared ones. An
entry laid out as the event emits it, with one topic per indexed field, matches exactly when
each bound field's topic is among the encodings of its value or of its alternatives. For a
non-anonymous event no entry whose first topic is not the event's topic matches. -/
theorem call_matches_iff (c : Codec Ty Val) {name : String} {fields : Dict String Ty}
    {indexed : Finset PyKey} {anonymous : Bool} {e : Event Ty}
    (he : new (.str name) fields indexed anonymous = .ok e)
    (hnd : (fields.keys.map makeNameSafe).Nodup)
    (hi : ∀ k ∈ indexed, k.isImplicit = false) {args : List (TopicArg Val)}
    (hlen : args.length ≤ e.fields.indexedFields.length) {kwargs : Dict String (TopicArg Val)}
    (hkw : ∀ k ∈ kwargs.keys, k ∈ (e.fields.indexedFields.drop args.length).map Prod.fst)
    {filt : EventFilter} (hf : e.call c args kwargs = .ok filt) :
    e.fields.indexedFields = EventSignature.declaredIndexedFields fields indexed ∧
    ∃ topic perField, e.topic c = .ok topic ∧ e.fields.topicsPerField c args kwargs = .ok perField ∧
      (∀ ts : List LogTopic, ts.length = e.fields.indexedFields.length →
        (matchesTopics filt.topics (e.layout topic ts) = true ↔
          List.Forall₂ (fun p t => ∀ alts, p = some alts → t ∈ alts) perField ts)) ∧
      (e.anonymous = false → ∀ topics : List LogTopic, topics.head? ≠ some topic →
        matchesTopics filt.topics topics = false) := by
  obtain ⟨hname, -, -, hs⟩ := new_ok he
  obtain ⟨enc, henc, hT, hF⟩ := call_ok hf
  rw [EventSignature.encodeToTopics_eq c (EventSignature.parameters_of_new hs hi) hlen hkw] at henc
  obtain ⟨perField, hp, rfl⟩ : ∃ perField, e.fields.topicsPerField c args kwargs = .ok perField ∧
      perField.rdropWhile Option.isNone = enc := by
    cases h : e.fields.topicsPerField c args kwargs <;> simp_all
  have hpl := EventSignature.length_topicsPerField hlen hp
  -- trimming keeps the matches of an entry with one topic per position
  have htrim : ∀ ts : List LogTopic, ts.length = perField.length →
      matchesTopics (perField.rdropWhile Option.isNone) ts = matchesTopics perField ts := by
    intro ts hts
    obtain ⟨k, hk⟩ := EventSignature.eq_rdropWhile_append_replicate perField
    have := matchesTopics_append_replicate (perField.rdropWhile Option.isNone) k ts
      (by have := congrArg List.length hk; simp only [List.length_append,
        List.length_replicate] at this; omega)
    rwa [← hk, eq_comm] at this
  refine ⟨EventSignature.indexedFields_of_nodup hs hnd, _, perField, topic_str hname c, hp,
    fun ts hts => ?_, fun ha topics hne => ?_⟩
  · have hts' : perField.length = ts.length := hpl.trans hts.symm
    rw [← matchesTopics_iff_forall₂ hts', ← htrim ts hts'.symm]
    cases ha : e.anonymous with
    | true => rw [layout, if_pos ha, hT ha]
    | false =>
      obtain ⟨t, ht, hft⟩ := hF ha
      rw [topic_str hname c, Except.ok.injEq] at ht
      simp [layout, ha, hft, ht, matchesTopics]
  · obtain ⟨t, ht, hft⟩ := hF ha
    rw [topic_str hname c, Except.ok.injEq] at ht
    cases topics with
    | nil => simp [hft, matchesTopics]
    | cons t' ts =>
      have : t' ≠ t := fun h => hne (by simp [h, ht])
      simp [hft, matchesTopics, this]

/-- `Transfer(from_=5)` on the non-anonymous Transfer event. -/
theorem call_matches_iff_transfer :
    ∃ e filt, new (.str "Transfer") (Dict.ofList [("from", "address"), ("to", "address"),
        ("value", "uint256")]) {PyKey.str "from", PyKey.str "to"} false = .ok e ∧
      e.call Codec.reference [] (Dict.ofList [("from_", .value 5)]) = .ok filt ∧
      ∃ topic perField, e.topic Codec.reference = .ok topic ∧
        e.fields.topicsPerField Codec.reference [] (Dict.ofList [("from_", .value 5)]) =
          .ok perField := by
  refine ⟨_, _, rfl, rfl, ?_⟩
  obtain ⟨-, topic, perField, ht, hp, -⟩ := @call_matches_iff String UInt8 Codec.reference
    "Transfer" (Dict.ofList [("from", "address"), ("to", "address"), ("value", "uint256")])
    {PyKey.str "from", PyKey.str "to"} false _ rfl (by decide) (by decide) [] (by decide)
    (Dict.ofList [("from_", .value 5)]) (by decide) _ rfl
  exact ⟨topic, perField, ht, hp⟩

/-- Two events whose filters do not follow their declared indexed fields. An event whose
indexed field is named `.0` builds no filter binding that field. An event with an indexed
`from: address` and a non-indexed `from_: string` has one indexed field `from_` of type
`string`: whatever the codec, the filter's position for it holds the value's `string`
encoding, which an entry carrying the declared `address` encoding does not match. -/
theorem call_implicit_or_merged_name :
    ((new (.str "E") (Dict.ofList [(".0", "uint256")]) {PyKey.str ".0"} false).bind
        (fun e => e.call Codec.reference [.value 7] Dict.empty)).map EventFilter.topics =
      .error (.keyError "implicit0") ∧
    ∀ (c : Codec String UInt8) (v : UInt8),
      ((new (.str "E") (Dict.ofList [("from", "address"), ("from_", "string")])
          {PyKey.str "from"} false).bind (fun e => e.call c [.value v] Dict.empty)).map
          (fun filt => filt.topics.drop 1) =
        (fun t => [some [t]]) <$> Codec.lift (c.encodeToTopic "string" v) := by
  refine ⟨by decide, fun c v => ?_⟩
  obtain ⟨e, he, hfs⟩ : ∃ e, new (.str "E") (Dict.ofList [("from", "address"),
      ("from_", "string")]) {PyKey.str "from"} false = .ok e ∧
      e.fields.indexedFields = [("from_", "string")] := ⟨_, rfl, rfl⟩
  obtain ⟨hname, ha, -, hs⟩ := new_ok he
  rw [he, Except.bind, call,
    EventSignature.encodeToTopics_single c (EventSignature.parameters_of_new hs (by decide)) hfs v]
  simp only [ha, topic_str hname c]
  cases Codec.lift (c.encodeToTopic "string" v) <;> rfl

end Event

end Pons
