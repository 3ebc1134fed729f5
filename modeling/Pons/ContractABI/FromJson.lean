import Pons.ContractABI

/-!
# Pons — what `ContractABI.from_json` accepts and builds

`from_json` (`_contract_abi.py`, lines 665–723) dispatches each entry on its `type`: a
`constructor`, `fallback` or `receive` entry fills a slot that must still be empty, a
`function`, `event` or `error` entry goes into a dict keyed by its name, which must not be
there yet, and any other type is rejected. `ContractABI(...)` then re-keys the three dicts by
the built objects' names and hashes the name of every error into the selector index.

The loop is verified as a state machine, in the way of a type-soundness proof:

* **`Processed`** — the invariant, stated per kind and independently of the order of the
  kinds: after the entries `P`, each slot holds what its kind's `from_json` builds from the
  entries of that kind, and each dict lists, in order, each entry of its kind under its name.
* **`Processed.step`** (preservation) and **`Processed.progress`** — a pass keeps the
  invariant, and it succeeds on an entry that keeps the list well formed (`WellFormed`).
* **`Processed.run`** and **`Processed.progress_run`** — the same over the rest of the list.
* **`fromJson_iff_wellFormed`** — `from_json` succeeds exactly on the well-formed lists, so
  its success does not depend on the order of the entries, and what it builds is the
  image of the entries of each kind (`Assembled`).
* **`fromJson_rejects`** — after a well-formed prefix, the message of each rejection.

Well-formedness asks more than the entries' own `from_json`: a name must be hashable to be
looked up in the dict, and an error's name must be a `str` for its selector to be hashed when
`ContractABI` indexes it (`fromJson_unhashable_or_int_name`).
-/

namespace Pons

variable {Ty Val : Type}

/-! ## What the entities keep of their entry -/

theorem Method.name_of_new {name : Json} {mutability : Mutability} {inputs : Params Ty}
    {outputs : Outputs Ty} {m : Method Ty} (h : Method.new name mutability inputs outputs = .ok m) :
    m.name = name := by
  obtain ⟨_, -, h⟩ := Except.bind_eq_ok.1 h
  cases outputs <;> obtain ⟨_, -, h⟩ := Except.bind_eq_ok.1 h <;> cases h <;> rfl

theorem Method.getitem_name_of_fromJson {c : Codec Ty Val} {entry : JsonObject} {m : Method Ty}
    (h : Method.fromJson c entry = .ok m) : entry.getitem "name" = .ok m.name := by
  obtain ⟨_, -, h⟩ := Except.bind_eq_ok.1 h
  obtain ⟨name, hn, h⟩ := Except.bind_eq_ok.1 h
  obtain ⟨_, -, h⟩ := Except.bind_eq_ok.1 h
  obtain ⟨_, -, h⟩ := Except.bind_eq_ok.1 h
  obtain ⟨_, -, h⟩ := Except.bind_eq_ok.1 h
  obtain ⟨_, -, h⟩ := Except.bind_eq_ok.1 h
  obtain ⟨_, -, h⟩ := Except.bind_eq_ok.1 h
  rw [hn, Method.name_of_new h]

theorem Error.name_of_new {name : Json} {fields : Dict String Ty} {e : Error Ty}
    (h : Error.new name fields = .ok e) : e.name = name := by
  obtain ⟨_, -, h⟩ := Except.bind_eq_ok.1 h
  cases h
  rfl

theorem Error.getitem_name_of_fromJson {c : Codec Ty Val} {entry : JsonObject} {e : Error Ty}
    (h : Error.fromJson c entry = .ok e) : entry.getitem "name" = .ok e.name := by
  obtain ⟨_, -, h⟩ := Except.bind_eq_ok.1 h
  obtain ⟨name, hn, h⟩ := Except.bind_eq_ok.1 h
  obtain ⟨_, -, h⟩ := Except.bind_eq_ok.1 h
  obtain ⟨p, -, h⟩ := Except.bind_eq_ok.1 h
  cases p with
  | positional _ => cases h
  | named fields => rw [hn, Error.name_of_new h]

theorem Event.getitem_name_of_fromJson {c : Codec Ty Val} {entry : JsonObject} {e : Event Ty}
    (h : Event.fromJson c entry = .ok e) : entry.getitem "name" = .ok e.name := by
  obtain ⟨_, -, h⟩ := Except.bind_eq_ok.1 h
  obtain ⟨name, hn, h⟩ := Except.bind_eq_ok.1 h
  obtain ⟨_, -, h⟩ := Except.bind_eq_ok.1 h
  obtain ⟨p, -, h⟩ := Except.bind_eq_ok.1 h
  cases p with
  | positional _ => cases h
  | named fields =>
    obtain ⟨_, -, h⟩ := Except.bind_eq_ok.1 h
    obtain ⟨_, -, h⟩ := Except.bind_eq_ok.1 h
    obtain ⟨_, -, h⟩ := Except.bind_eq_ok.1 h
    obtain ⟨_, -, h⟩ := Except.bind_eq_ok.1 h
    rw [hn, (Event.new_ok h).1]

/-- An error's selector can be hashed exactly when its name is a `str`. -/
theorem Error.selector_ok_iff {c : Codec Ty Val} {e : Error Ty} :
    (∃ sel, e.selector c = .ok sel) ↔ ∃ n, e.name = .str n := by
  constructor
  · rintro ⟨sel, h⟩
    obtain ⟨b, hb, -⟩ := Except.bind_eq_ok.1 h
    exact Json.encode_eq_ok hb
  · rintro ⟨n, hn⟩
    exact ⟨_, by rw [Error.selector, selectorOf, hn, Json.encode_str]; rfl⟩

theorem Constructor.orDefault_none {k : Constructor Ty} (h : Constructor.orDefault none = .ok k) :
    k.payable = false ∧ k.inputs.types = [] := by
  cases h
  exact ⟨rfl, rfl⟩

namespace ContractABI

/-! ## Entry kinds -/

/-- Whether an entry's `type` is `kind`; an entry without a `type` has no kind. -/
def typeIs (kind : String) (entry : JsonObject) : Bool :=
  (entry.lookup "type").any (·.eqStr kind)

/-- The entry types `from_json` dispatches on, in its order. -/
def entryTypes : List String := ["constructor", "function", "fallback", "receive", "event", "error"]

/-- `hash(entry["name"])`: the key a named entry is stored under. -/
def nameKey (entry : JsonObject) : Except PyErr PyKey := do
  let name ← entry.getitem "name"
  name.toPyKey

/-- A named entry as the loop stores it: what its kind's `from_json` builds from it, under the
hash of its name. -/
def keyed {α : Type} (build : JsonObject → Except PyErr α) (entry : JsonObject) :
    Except PyErr (PyKey × α) := do
  let key ← nameKey entry
  let x ← build entry
  pure (key, x)

theorem typeIs_of_getitem {entry : JsonObject} {t : Json} (h : entry.getitem "type" = .ok t)
    (kind : String) : typeIs kind entry = t.eqStr kind := by
  cases hl : entry.lookup "type" with
  | none => simp [JsonObject.getitem, hl] at h
  | some v =>
    simp only [JsonObject.getitem, hl, Except.ok.injEq] at h
    simp [typeIs, hl, h]

theorem getitem_of_typeIs {entry : JsonObject} {kind : String} (h : typeIs kind entry) :
    ∃ t, entry.getitem "type" = .ok t := by
  cases hl : entry.lookup "type" with
  | none => simp [typeIs, hl] at h
  | some v => exact ⟨v, by simp [JsonObject.getitem, hl]⟩

/-- Appending an entry appends it to the entries of its own kind ... -/
theorem filter_typeIs_append_self {P : List JsonObject} {e : JsonObject} {t : Json}
    {kind : String} (ht : e.getitem "type" = .ok t) (hk : t.eqStr kind = true) :
    (P ++ [e]).filter (typeIs kind) = P.filter (typeIs kind) ++ [e] := by
  rw [List.filter_append, List.filter_singleton, typeIs_of_getitem ht, hk]
  rfl

/-- ... and leaves the entries of every other kind, and what is built from them, alone. -/
theorem mapM_filter_typeIs_append_other {β : Type} {f : JsonObject → Except PyErr β}
    {P : List JsonObject} {e : JsonObject} {t : Json} {kind : String} {r : Except PyErr (List β)}
    (ht : e.getitem "type" = .ok t) (hk : t.eqStr kind = false)
    (h : (P.filter (typeIs kind)).mapM f = r) : ((P ++ [e]).filter (typeIs kind)).mapM f = r := by
  rwa [List.filter_append, List.filter_singleton, typeIs_of_getitem ht, hk, cond_false,
    List.append_nil]

theorem keyed_eq_ok {α : Type} {build : JsonObject → Except PyErr α} {e : JsonObject}
    {p : PyKey × α} : keyed build e = .ok p ↔ nameKey e = .ok p.1 ∧ build e = .ok p.2 := by
  obtain ⟨k, x⟩ := p
  unfold keyed
  cases nameKey e <;> cases build e <;> simp

/-! ## The two branch shapes -/

section slot

variable {α : Type} {build : JsonObject → Except PyErr α}

/-- A slot's entries: at most one, accepted by its kind's `from_json`. -/
def SlotOk (build : JsonObject → Except PyErr α) (es : List JsonObject) : Prop :=
  es.length ≤ 1 ∧ ∀ e ∈ es, ∃ x, build e = .ok x

/-- Filling a slot keeps it the image of the entries of its kind. -/
theorem mapM_fillSlot {es : List JsonObject} {slot : Option α} {msg : String} {e : JsonObject}
    {x : α} (h : es.mapM build = .ok slot.toList) (hx : fillSlot slot msg (build e) = .ok x) :
    (es ++ [e]).mapM build = .ok (some x).toList := by
  cases slot with
  | some _ => cases hx
  | none =>
    obtain rfl := Except.eq_nil_of_mapM_eq_ok_nil h
    exact Except.mapM_append_singleton h hx

/-- A slot with no entry of its kind yet can be filled. -/
theorem fillSlot_eq_ok {es : List JsonObject} {slot : Option α} {msg : String} {e : JsonObject}
    (h : es.mapM build = .ok slot.toList) (hok : SlotOk build (es ++ [e])) :
    ∃ x, fillSlot slot msg (build e) = .ok x := by
  obtain rfl : es = [] := List.eq_nil_of_length_eq_zero (by simpa using hok.1)
  cases slot with
  | some _ => cases h
  | none => exact hok.2 e (List.mem_singleton_self _)

theorem slotOk_of_mapM {es : List JsonObject} {slot : Option α}
    (h : es.mapM build = .ok slot.toList) : SlotOk build es := by
  refine ⟨?_, fun e he => ?_⟩
  · rw [(Except.mapM_eq_ok_iff.1 h).length_eq]
    cases slot <;> simp
  · obtain ⟨x, -, hx⟩ := Except.exists_mem_of_mapM_eq_ok h he
    exact ⟨x, hx⟩

/-- A slot already filled by an entry of its kind rejects the next one. -/
theorem fillSlot_duplicate {es : List JsonObject} {slot : Option α} {msg : String}
    {x : Except PyErr α} (h : es.mapM build = .ok slot.toList) (hne : es ≠ []) :
    fillSlot slot msg x = .error (.valueError msg) := by
  cases slot with
  | some _ => rfl
  | none => exact absurd (Except.eq_nil_of_mapM_eq_ok_nil h) hne

theorem SlotOk.subperm {es es' : List JsonObject} (h : SlotOk build es) (hs : es'.Subperm es) :
    SlotOk build es' :=
  ⟨hs.length_le.trans h.1, fun e he => h.2 e (hs.subset he)⟩

end slot

section named

variable {α : Type} {build : JsonObject → Except PyErr α}

/-- A named kind's entries: each with a hashable name and accepted by its kind's
`from_json`, the names pairwise distinct as dict keys. -/
def NamedOk (build : JsonObject → Except PyErr α) (es : List JsonObject) : Prop :=
  (∀ e ∈ es, (∃ k, nameKey e = .ok k) ∧ ∃ x, build e = .ok x) ∧ (es.map nameKey).Nodup

theorem addNamed_eq_ok {d d' : Dict PyKey α} {e : JsonObject} :
    addNamed d e (build e) = .ok d' ↔
      ∃ k x, nameKey e = .ok k ∧ k ∉ d.keys ∧ build e = .ok x ∧ d' = d.insert k x := by
  unfold addNamed nameKey
  cases e.getitem "name" with
  | error err => simp
  | ok name =>
    simp only [Except.ok_bind]
    cases name.toPyKey with
    | error err => simp
    | ok k =>
      simp only [Except.ok_bind, Except.ok.injEq, exists_and_left, exists_eq_left']
      by_cases hc : k ∈ d.keys
      · rw [if_pos ((Dict.contains_iff d k).2 hc)]
        simp [hc]
      · rw [if_neg fun h => hc ((Dict.contains_iff d k).1 h)]
        cases build e with
        | error err => simp
        | ok x =>
          simp only [Except.ok_bind, Except.pure_eq_ok, Except.ok.injEq, hc, not_false_eq_true,
            true_and, exists_eq_left', eq_comm]

theorem map_nameKey_of_mapM {es : List JsonObject} {d : Dict PyKey α}
    (h : es.mapM (keyed build) = .ok d.entries) : d.keys.map Except.ok = es.map nameKey := by
  rw [Dict.keys, List.map_map]
  exact Except.map_of_mapM_eq_ok (fun _ _ hp => (keyed_eq_ok.1 hp).1.symm) h

/-- Adding a named entry keeps the dict the image of the entries of its kind. -/
theorem mapM_addNamed {es : List JsonObject} {d d' : Dict PyKey α} {e : JsonObject}
    (h : es.mapM (keyed build) = .ok d.entries) (hd : addNamed d e (build e) = .ok d') :
    (es ++ [e]).mapM (keyed build) = .ok d'.entries := by
  obtain ⟨k, x, hk, hnot, hx, rfl⟩ := addNamed_eq_ok.1 hd
  have hins : (d.insert k x).entries = d.entries ++ [(k, x)] := Dict.insertEntry_of_not_mem x hnot
  rw [hins]
  exact Except.mapM_append_singleton h (keyed_eq_ok.2 ⟨hk, hx⟩)

/-- A named entry whose name is not taken yet can be added. -/
theorem addNamed_progress {es : List JsonObject} {d : Dict PyKey α} {e : JsonObject}
    (h : es.mapM (keyed build) = .ok d.entries) (hok : NamedOk build (es ++ [e])) :
    ∃ d', addNamed d e (build e) = .ok d' := by
  obtain ⟨⟨k, hk⟩, x, hx⟩ := hok.1 e (by simp)
  have hnot : k ∉ d.keys := fun hmem => by
    have hdisj := (List.nodup_append.1 (by simpa using hok.2)).2.2
    refine hdisj (map_nameKey_of_mapM h ▸ List.mem_map_of_mem Except.ok hmem) (by simp [hk])
  exact ⟨_, addNamed_eq_ok.2 ⟨k, x, hk, hnot, hx, rfl⟩⟩

/-- A dict already holding an entry of the same name rejects the next one, naming it. -/
theorem addNamed_duplicate {es : List JsonObject} {d : Dict PyKey α} {e : JsonObject}
    {name : Json} {k : PyKey} (h : es.mapM (keyed build) = .ok d.entries)
    (hn : e.getitem "name" = .ok name) (hk : name.toPyKey = .ok k)
    (hdup : .ok k ∈ es.map nameKey) :
    addNamed d e (build e) = .error (.valueError
      ("JSON ABI contains more than one declarations of `" ++ name.pyStr ++ "`")) := by
  obtain ⟨k', hk', hkk⟩ := List.mem_map.1 ((map_nameKey_of_mapM h).symm ▸ hdup)
  obtain rfl := Except.ok.inj hkk
  rw [addNamed, hn, Except.ok_bind, hk, Except.ok_bind, if_pos ((Dict.contains_iff d _).2 hk')]
  rfl

theorem namedOk_of_mapM {es : List JsonObject} {d : Dict PyKey α}
    (h : es.mapM (keyed build) = .ok d.entries) : NamedOk build es := by
  refine ⟨fun e he => ?_, ?_⟩
  · obtain ⟨p, -, hp⟩ := Except.exists_mem_of_mapM_eq_ok h he
    exact ⟨⟨_, (keyed_eq_ok.1 hp).1⟩, _, (keyed_eq_ok.1 hp).2⟩
  · rw [← map_nameKey_of_mapM h]
    exact d.nodup.map fun _ _ => Except.ok.inj

theorem NamedOk.subperm {es es' : List JsonObject} (h : NamedOk build es) (hs : es'.Subperm es) :
    NamedOk build es' := by
  refine ⟨fun e he => h.1 e (hs.subset he), ?_⟩
  obtain ⟨l, hp, hsub⟩ := hs
  exact (hp.map nameKey).nodup_iff.1 ((hsub.map nameKey).nodup h.2)

/-- The entry under a name is what its kind's `from_json` built from the entry of that name. -/
theorem getattr_of_mapM {es : List JsonObject} {d : Dict PyKey α} {e : JsonObject} {n : String}
    {x : α} (h : es.mapM (keyed build) = .ok d.entries) (he : e ∈ es)
    (hn : e.getitem "name" = .ok (.str n)) (hx : build e = .ok x) : Methods.getattr d n = .ok x := by
  obtain ⟨⟨k, x'⟩, hmem, hp⟩ := Except.exists_mem_of_mapM_eq_ok h he
  obtain ⟨hk, hx'⟩ := keyed_eq_ok.1 hp
  simp only [nameKey, hn, Except.ok_bind, Json.toPyKey, Except.ok.injEq] at hk
  obtain rfl := Except.ok.inj (hx.symm.trans hx')
  simp [Methods.getattr, (Dict.get?_eq_some_iff d).2 (hk ▸ hmem)]

end named

/-! ## The accepted entry lists -/

/-- **The entry lists `from_json` accepts.** Every entry has a known type; a handler kind has
at most one entry; the entries of a named kind have hashable names, pairwise distinct as dict
keys; every entry is accepted by its kind's `from_json`; and every error's name is a `str`,
which `ContractABI` encodes to hash the error's selector. -/
structure WellFormed (c : Codec Ty Val) (entries : List JsonObject) : Prop where
  known : ∀ e ∈ entries, ∃ k ∈ entryTypes, typeIs k e
  constructor : SlotOk (Constructor.fromJson c) (entries.filter (typeIs "constructor"))
  methods : NamedOk (Method.fromJson c) (entries.filter (typeIs "function"))
  fallback : SlotOk Fallback.fromJson (entries.filter (typeIs "fallback"))
  receive : SlotOk Receive.fromJson (entries.filter (typeIs "receive"))
  events : NamedOk (Event.fromJson c) (entries.filter (typeIs "event"))
  errors : NamedOk (Error.fromJson c) (entries.filter (typeIs "error"))
  errorNames : ∀ e ∈ entries.filter (typeIs "error"), ∃ n, e.getitem "name" = .ok (.str n)

/-- Well-formedness survives dropping and reordering entries. -/
theorem WellFormed.subperm {c : Codec Ty Val} {l l' : List JsonObject} (h : WellFormed c l)
    (hs : l'.Subperm l) : WellFormed c l' :=
  ⟨fun e he => h.known e (hs.subset he), h.constructor.subperm (hs.filter _),
    h.methods.subperm (hs.filter _), h.fallback.subperm (hs.filter _),
    h.receive.subperm (hs.filter _), h.events.subperm (hs.filter _),
    h.errors.subperm (hs.filter _), fun e he => h.errorNames e ((hs.filter _).subset he)⟩

/-! ## The loop invariant -/

/-- **What the loop holds after the entries `P`.** Every entry has a known type; each slot
holds what its kind's `from_json` builds from the entries of that kind, so there is at most
one; each dict lists, in order, what its kind's `from_json` builds from each entry of that
kind, under the hash of the entry's name. -/
structure Processed (c : Codec Ty Val) (P : List JsonObject) (s : FromJsonState Ty) : Prop where
  known : ∀ e ∈ P, ∃ k ∈ entryTypes, typeIs k e
  constructor :
    (P.filter (typeIs "constructor")).mapM (Constructor.fromJson c) = .ok s.constructor.toList
  methods : (P.filter (typeIs "function")).mapM (keyed (Method.fromJson c)) = .ok s.methods.entries
  fallback : (P.filter (typeIs "fallback")).mapM Fallback.fromJson = .ok s.fallback.toList
  receive : (P.filter (typeIs "receive")).mapM Receive.fromJson = .ok s.receive.toList
  events : (P.filter (typeIs "event")).mapM (keyed (Event.fromJson c)) = .ok s.events.entries
  errors : (P.filter (typeIs "error")).mapM (keyed (Error.fromJson c)) = .ok s.errors.entries

namespace Processed

variable {c : Codec Ty Val}

theorem init : Processed c [] (FromJsonState.init : FromJsonState Ty) :=
  ⟨by simp, rfl, rfl, rfl, rfl, rfl, rfl⟩

/-- **Preservation**: a pass of the loop keeps the invariant. -/
theorem step {P : List JsonObject} {s s' : FromJsonState Ty} {e : JsonObject}
    (h : Processed c P s) (hs : fromJsonStep c s e = .ok s') : Processed c (P ++ [e]) s' := by
  obtain ⟨t, ht, hs⟩ := Except.bind_eq_ok.1 hs
  have hknown : ∀ k ∈ entryTypes, t.eqStr k → ∀ x ∈ P ++ [e], ∃ k ∈ entryTypes, typeIs k x :=
    fun k hk htk x hx => (List.mem_append.1 hx).elim (h.known x) fun hx =>
      ⟨k, hk, by rw [List.mem_singleton.1 hx, typeIs_of_getitem ht]; exact htk⟩
  -- the branches of the dispatch, in the order of the source
  by_cases h1 : t.eqStr "constructor"
  · rw [if_pos h1] at hs
    obtain rfl := Json.eqStr_iff.1 h1
    obtain ⟨k, hk, hs⟩ := Except.bind_eq_ok.1 hs
    cases hs
    refine ⟨hknown _ (by decide) h1,
      ?_,
      mapM_filter_typeIs_append_other ht rfl h.methods,
      mapM_filter_typeIs_append_other ht rfl h.fallback,
      mapM_filter_typeIs_append_other ht rfl h.receive,
      mapM_filter_typeIs_append_other ht rfl h.events,
      mapM_filter_typeIs_append_other ht rfl h.errors⟩
    rw [filter_typeIs_append_self ht h1]
    exact mapM_fillSlot h.constructor hk
  rw [if_neg h1] at hs
  by_cases h2 : t.eqStr "function"
  · rw [if_pos h2] at hs
    obtain rfl := Json.eqStr_iff.1 h2
    obtain ⟨d, hd, hs⟩ := Except.bind_eq_ok.1 hs
    cases hs
    refine ⟨hknown _ (by decide) h2,
      mapM_filter_typeIs_append_other ht rfl h.constructor,
      ?_,
      mapM_filter_typeIs_append_other ht rfl h.fallback,
      mapM_filter_typeIs_append_other ht rfl h.receive,
      mapM_filter_typeIs_append_other ht rfl h.events,
      mapM_filter_typeIs_append_other ht rfl h.errors⟩
    rw [filter_typeIs_append_self ht h2]
    exact mapM_addNamed h.methods hd
  rw [if_neg h2] at hs
  by_cases h3 : t.eqStr "fallback"
  · rw [if_pos h3] at hs
    obtain rfl := Json.eqStr_iff.1 h3
    obtain ⟨f, hf, hs⟩ := Except.bind_eq_ok.1 hs
    cases hs
    refine ⟨hknown _ (by decide) h3,
      mapM_filter_typeIs_append_other ht rfl h.constructor,
      mapM_filter_typeIs_append_other ht rfl h.methods,
      ?_,
      mapM_filter_typeIs_append_other ht rfl h.receive,
      mapM_filter_typeIs_append_other ht rfl h.events,
      mapM_filter_typeIs_append_other ht rfl h.errors⟩
    rw [filter_typeIs_append_self ht h3]
    exact mapM_fillSlot h.fallback hf
  rw [if_neg h3] at hs
  by_cases h4 : t.eqStr "receive"
  · rw [if_pos h4] at hs
    obtain rfl := Json.eqStr_iff.1 h4
    obtain ⟨r, hr, hs⟩ := Except.bind_eq_ok.1 hs
    cases hs
    refine ⟨hknown _ (by decide) h4,
      mapM_filter_typeIs_append_other ht rfl h.constructor,
      mapM_filter_typeIs_append_other ht rfl h.methods,
      mapM_filter_typeIs_append_other ht rfl h.fallback,
      ?_,
      mapM_filter_typeIs_append_other ht rfl h.events,
      mapM_filter_typeIs_append_other ht rfl h.errors⟩
    rw [filter_typeIs_append_self ht h4]
    exact mapM_fillSlot h.receive hr
  rw [if_neg h4] at hs
  by_cases h5 : t.eqStr "event"
  · rw [if_pos h5] at hs
    obtain rfl := Json.eqStr_iff.1 h5
    obtain ⟨d, hd, hs⟩ := Except.bind_eq_ok.1 hs
    cases hs
    refine ⟨hknown _ (by decide) h5,
      mapM_filter_typeIs_append_other ht rfl h.constructor,
      mapM_filter_typeIs_append_other ht rfl h.methods,
      mapM_filter_typeIs_append_other ht rfl h.fallback,
      mapM_filter_typeIs_append_other ht rfl h.receive,
      ?_,
      mapM_filter_typeIs_append_other ht rfl h.errors⟩
    rw [filter_typeIs_append_self ht h5]
    exact mapM_addNamed h.events hd
  rw [if_neg h5] at hs
  by_cases h6 : t.eqStr "error"
  · rw [if_pos h6] at hs
    obtain rfl := Json.eqStr_iff.1 h6
    obtain ⟨d, hd, hs⟩ := Except.bind_eq_ok.1 hs
    cases hs
    refine ⟨hknown _ (by decide) h6,
      mapM_filter_typeIs_append_other ht rfl h.constructor,
      mapM_filter_typeIs_append_other ht rfl h.methods,
      mapM_filter_typeIs_append_other ht rfl h.fallback,
      mapM_filter_typeIs_append_other ht rfl h.receive,
      mapM_filter_typeIs_append_other ht rfl h.events,
      ?_⟩
    rw [filter_typeIs_append_self ht h6]
    exact mapM_addNamed h.errors hd
  rw [if_neg h6] at hs
  cases hs

/-- **Progress**: a pass succeeds on an entry that keeps the list well formed. -/
theorem progress {P : List JsonObject} {s : FromJsonState Ty} {e : JsonObject}
    (h : Processed c P s) (hwf : WellFormed c (P ++ [e])) : ∃ s', fromJsonStep c s e = .ok s' := by
  obtain ⟨k, hk, htk⟩ := hwf.known e (by simp)
  obtain ⟨t, ht⟩ := getitem_of_typeIs htk
  rw [typeIs_of_getitem ht] at htk
  unfold fromJsonStep
  rw [ht, Except.ok_bind]
  by_cases h1 : t.eqStr "constructor"
  · rw [if_pos h1]
    obtain ⟨x, hx⟩ := fillSlot_eq_ok h.constructor (filter_typeIs_append_self ht h1 ▸ hwf.constructor)
    exact ⟨_, by rw [hx]; rfl⟩
  rw [if_neg h1]
  by_cases h2 : t.eqStr "function"
  · rw [if_pos h2]
    obtain ⟨d, hd⟩ := addNamed_progress h.methods (filter_typeIs_append_self ht h2 ▸ hwf.methods)
    exact ⟨_, by rw [hd]; rfl⟩
  rw [if_neg h2]
  by_cases h3 : t.eqStr "fallback"
  · rw [if_pos h3]
    obtain ⟨x, hx⟩ := fillSlot_eq_ok h.fallback (filter_typeIs_append_self ht h3 ▸ hwf.fallback)
    exact ⟨_, by rw [hx]; rfl⟩
  rw [if_neg h3]
  by_cases h4 : t.eqStr "receive"
  · rw [if_pos h4]
    obtain ⟨x, hx⟩ := fillSlot_eq_ok h.receive (filter_typeIs_append_self ht h4 ▸ hwf.receive)
    exact ⟨_, by rw [hx]; rfl⟩
  rw [if_neg h4]
  by_cases h5 : t.eqStr "event"
  · rw [if_pos h5]
    obtain ⟨d, hd⟩ := addNamed_progress h.events (filter_typeIs_append_self ht h5 ▸ hwf.events)
    exact ⟨_, by rw [hd]; rfl⟩
  rw [if_neg h5]
  by_cases h6 : t.eqStr "error"
  · rw [if_pos h6]
    obtain ⟨d, hd⟩ := addNamed_progress h.errors (filter_typeIs_append_self ht h6 ▸ hwf.errors)
    exact ⟨_, by rw [hd]; rfl⟩
  rw [if_neg h6]
  simp only [entryTypes, List.mem_cons, List.mem_singleton, List.not_mem_nil, or_false] at hk
  rcases hk with rfl | rfl | rfl | rfl | rfl | rfl
  exacts [(h1 htk).elim, (h2 htk).elim, (h3 htk).elim, (h4 htk).elim, (h5 htk).elim,
    (h6 htk).elim]

/-- **A run of the loop keeps the invariant.** -/
theorem run {P Q : List JsonObject} {s s' : FromJsonState Ty} (h : Processed c P s)
    (hrun : Q.foldlM (fromJsonStep c) s = .ok s') : Processed c (P ++ Q) s' := by
  induction Q generalizing P s with
  | nil => cases hrun; simpa using h
  | cons e Q ih =>
    rw [List.foldlM_cons] at hrun
    obtain ⟨s1, h1, hrun⟩ := Except.bind_eq_ok.1 hrun
    simpa using ih (h.step h1) hrun

/-- **A run of the loop over entries that keep the list well formed succeeds.** -/
theorem progress_run {P Q : List JsonObject} {s : FromJsonState Ty} (h : Processed c P s)
    (hwf : WellFormed c (P ++ Q)) : ∃ s', Q.foldlM (fromJsonStep c) s = .ok s' := by
  induction Q generalizing P s with
  | nil => exact ⟨s, rfl⟩
  | cons e Q ih =>
    rw [List.append_cons] at hwf
    obtain ⟨s1, h1⟩ := h.progress (hwf.subperm (List.sublist_append_left _ Q).subperm)
    obtain ⟨s', h'⟩ := ih (h.step h1) hwf
    exact ⟨s', by rw [List.foldlM_cons, h1]; exact h'⟩

end Processed

/-! ## After the loop -/

section rekey

variable {α : Type} {name : α → Json} {build : JsonObject → Except PyErr α}

/-- Re-keying a dict by the names its items were stored under gives it back. -/
theorem byName_values_self {d : Dict PyKey α} (h : ∀ p ∈ d.entries, (name p.2).toPyKey = .ok p.1) :
    byName name d.values = .ok d := by
  have hmap : d.values.mapM (keyedByName name) = .ok d.entries :=
    Except.mapM_eq_ok_iff.2 (List.forall₂_map_left_iff.2 (List.forall₂_same.2 fun p hp => by
      simp only [keyedByName, h p hp, Except.ok_bind, Except.pure_eq_ok]))
  rw [byName, hmap, Except.ok_bind, Except.pure_eq_ok, Except.ok.injEq]
  exact Dict.ext (Dict.entries_ofList d.nodup)

/-- `ContractABI` re-keys the dict the loop built by the names of its objects, which keep the
name of their entry: the dict comes back unchanged. -/
theorem byName_of_mapM {es : List JsonObject} {d : Dict PyKey α}
    (h : es.mapM (keyed build) = .ok d.entries)
    (hname : ∀ e x, build e = .ok x → e.getitem "name" = .ok (name x)) :
    byName name d.values = .ok d := by
  refine byName_values_self (Except.forall_mem_of_mapM_eq_ok h fun e _ p hp => ?_)
  obtain ⟨hk, hx⟩ := keyed_eq_ok.1 hp
  simpa only [nameKey, hname e _ hx, Except.ok_bind] using hk

end rekey

/-- Construction succeeds once every name hashes and every declared error's name is a `str`. -/
theorem new_of_names (c : Codec Ty Val) (constructor : Option (Constructor Ty))
    (fallback : Option Fallback) (receive : Option Receive) {methods : List (Method Ty)}
    {events : List (Event Ty)} {errors : List (Error Ty)} {dm : Dict PyKey (Method Ty)}
    {de : Dict PyKey (Event Ty)} {der : Dict PyKey (Error Ty)}
    (hm : byName Method.name methods = .ok dm) (he : byName Event.name events = .ok de)
    (her : byName Error.name errors = .ok der) (hstr : ∀ e ∈ der.values, ∃ n, e.name = .str n) :
    ∃ abi, new c constructor fallback receive methods events errors = .ok abi := by
  obtain ⟨k, hk⟩ : ∃ k, Constructor.orDefault constructor = .ok k := by
    cases constructor <;> exact ⟨_, rfl⟩
  obtain ⟨⟨panic, hp, hpn⟩, legacy, hl, hln⟩ := builtins_ok c
  have hsel : ∀ e ∈ [panic, legacy] ++ der.values, ∃ p, selectorEntry c e = .ok p := by
    intro e he
    obtain ⟨sel, hsel⟩ := Error.selector_ok_iff.2 <| by
      rcases List.mem_append.1 he with he | he
      · rcases List.mem_pair.1 he with rfl | rfl
        exacts [⟨_, hpn⟩, ⟨_, hln⟩]
      · exact hstr e he
    exact ⟨(sel, e), by rw [selectorEntry, hsel]; rfl⟩
  obtain ⟨L, hL⟩ := Except.mapM_ok_of_forall hsel
  exact ⟨_, by simp only [new, hk, hm, he, her, hp, hl, hL, Except.ok_bind]; rfl⟩

/-- What a successful `from_json` is made of: the loop's final state, re-keyed unchanged. -/
theorem fromJson_ok {c : Codec Ty Val} {entries : List JsonObject} {abi : ContractABI Ty}
    (h : fromJson c entries = .ok abi) :
    ∃ s, Processed c entries s ∧ Constructor.orDefault s.constructor = .ok abi.constructor ∧
      abi.fallback = s.fallback ∧ abi.receive = s.receive ∧ abi.method = s.methods ∧
      abi.event = s.events ∧ abi.error = s.errors ∧ ∀ e ∈ s.errors.values, ∃ n, e.name = .str n := by
  obtain ⟨s, hs, h⟩ := Except.bind_eq_ok.1 h
  have hp : Processed c entries s := by simpa using Processed.init.run hs
  obtain ⟨hk, hf, hr, hm, he, her, panic, legacy, L, -, -, hL, -⟩ := new_ok h
  have hmeq := Except.ok.inj (hm.symm.trans (byName_of_mapM hp.methods
    fun _ _ => Method.getitem_name_of_fromJson))
  have heeq := Except.ok.inj (he.symm.trans (byName_of_mapM hp.events
    fun _ _ => Event.getitem_name_of_fromJson))
  have hereq := Except.ok.inj (her.symm.trans (byName_of_mapM hp.errors
    fun _ _ => Error.getitem_name_of_fromJson))
  refine ⟨s, hp, hk, hf, hr, hmeq, heeq, hereq, fun e he => (@Error.selector_ok_iff _ _ c e).1 ?_⟩
  rw [hereq] at hL
  obtain ⟨p, -, hp⟩ := Except.exists_mem_of_mapM_eq_ok (Except.mapM_eq_ok_iff.2 hL)
    (List.mem_append_right _ he)
  exact ⟨_, (Except.bind_pair_eq_ok.1 hp).1⟩

/-! ## What `from_json` accepts and builds -/

/-- The dict `d` finds, under its name, what `build` makes of each entry with a `str` name. -/
def FindsByName {α : Type} (build : JsonObject → Except PyErr α) (es : List JsonObject)
    (d : Dict PyKey α) : Prop :=
  ∀ e ∈ es, ∀ n x, e.getitem "name" = .ok (.str n) → build e = .ok x → Methods.getattr d n = .ok x

/-- **What a successful `from_json` builds.** The constructor is built from the constructor
entry, or is `Constructor(inputs=[])`, nonpayable and without inputs, when there is none; the
fallback and receive methods are built from their entries; `method`, `event` and `error` list,
in declaration order, what their kind's `from_json` builds from each entry of that kind,
under the entry's name, by which `Methods.__getattr__` finds it. -/
structure Assembled (c : Codec Ty Val) (entries : List JsonObject) (abi : ContractABI Ty) :
    Prop where
  constructor : ∃ slot, (entries.filter (typeIs "constructor")).mapM (Constructor.fromJson c) =
    .ok (Option.toList slot) ∧ Constructor.orDefault slot = .ok abi.constructor
  defaultConstructor : entries.filter (typeIs "constructor") = [] →
    abi.constructor.payable = false ∧ abi.constructor.inputs.types = []
  fallback : (entries.filter (typeIs "fallback")).mapM Fallback.fromJson = .ok abi.fallback.toList
  receive : (entries.filter (typeIs "receive")).mapM Receive.fromJson = .ok abi.receive.toList
  methods :
    (entries.filter (typeIs "function")).mapM (keyed (Method.fromJson c)) = .ok abi.method.entries
  events : (entries.filter (typeIs "event")).mapM (keyed (Event.fromJson c)) = .ok abi.event.entries
  errors : (entries.filter (typeIs "error")).mapM (keyed (Error.fromJson c)) = .ok abi.error.entries
  methodByName : FindsByName (Method.fromJson c) (entries.filter (typeIs "function")) abi.method
  eventByName : FindsByName (Event.fromJson c) (entries.filter (typeIs "event")) abi.event
  errorByName : FindsByName (Error.fromJson c) (entries.filter (typeIs "error")) abi.error

section fromJson

variable {c : Codec Ty Val} {entries : List JsonObject}

theorem fromJson_wellFormed {abi : ContractABI Ty} (h : fromJson c entries = .ok abi) :
    WellFormed c entries := by
  obtain ⟨s, hp, -, -, -, -, -, -, hstr⟩ := fromJson_ok h
  refine ⟨hp.known, slotOk_of_mapM hp.constructor, namedOk_of_mapM hp.methods,
    slotOk_of_mapM hp.fallback, slotOk_of_mapM hp.receive, namedOk_of_mapM hp.events,
    namedOk_of_mapM hp.errors, fun e he => ?_⟩
  obtain ⟨p, hmem, hkp⟩ := Except.exists_mem_of_mapM_eq_ok hp.errors he
  obtain ⟨n, hn⟩ := hstr p.2 (List.mem_map_of_mem _ hmem)
  exact ⟨n, hn ▸ Error.getitem_name_of_fromJson (keyed_eq_ok.1 hkp).2⟩

theorem fromJson_of_wellFormed (h : WellFormed c entries) : ∃ abi, fromJson c entries = .ok abi := by
  obtain ⟨s, hs⟩ := @Processed.progress_run Ty Val c [] entries _ Processed.init h
  have hp : Processed c entries s := Processed.init.run hs
  have hnames : ∀ p ∈ s.errors.entries, ∃ n, p.2.name = .str n :=
    Except.forall_mem_of_mapM_eq_ok hp.errors fun a ha p hkp => by
      obtain ⟨n, hn⟩ := h.errorNames a ha
      exact ⟨n, Except.ok.inj ((Error.getitem_name_of_fromJson (keyed_eq_ok.1 hkp).2).symm.trans hn)⟩
  have hstr : ∀ e ∈ s.errors.values, ∃ n, e.name = .str n := fun e he => by
    obtain ⟨p, hmem, rfl⟩ := List.mem_map.1 he
    exact hnames p hmem
  obtain ⟨abi, habi⟩ := new_of_names c s.constructor s.fallback s.receive
    (byName_of_mapM hp.methods fun _ _ => Method.getitem_name_of_fromJson)
    (byName_of_mapM hp.events fun _ _ => Event.getitem_name_of_fromJson)
    (byName_of_mapM hp.errors fun _ _ => Error.getitem_name_of_fromJson) hstr
  exact ⟨abi, by rw [fromJson, hs, Except.ok_bind]; exact habi⟩

theorem fromJson_assembled {abi : ContractABI Ty} (h : fromJson c entries = .ok abi) :
    Assembled c entries abi := by
  obtain ⟨s, hp, hk, hf, hr, hm, he, her, -⟩ := fromJson_ok h
  refine ⟨⟨s.constructor, hp.constructor, hk⟩, fun h0 => ?_, hf ▸ hp.fallback, hr ▸ hp.receive,
    hm ▸ hp.methods, he ▸ hp.events, her ▸ hp.errors,
    fun e he' n x hn hx => hm ▸ getattr_of_mapM hp.methods he' hn hx,
    fun e he' n x hn hx => he ▸ getattr_of_mapM hp.events he' hn hx,
    fun e he' n x hn hx => her ▸ getattr_of_mapM hp.errors he' hn hx⟩
  have hc := hp.constructor
  rw [h0, List.mapM_nil, Except.pure_eq_ok, Except.ok.injEq] at hc
  cases hsc : s.constructor with
  | none => exact Constructor.orDefault_none (hsc ▸ hk)
  | some _ => rw [hsc] at hc; cases hc

end fromJson

/-- **`from_json` accepts exactly the well-formed entry lists**, so whether it succeeds does
not depend on the order of the entries, and on success it builds, for each kind, what that
kind's `from_json` builds from the entries of that kind, in order. -/
theorem fromJson_iff_wellFormed (c : Codec Ty Val) (entries : List JsonObject) :
    ((∃ abi, fromJson c entries = .ok abi) ↔ WellFormed c entries) ∧
    (∀ entries', entries.Perm entries' →
      ((∃ abi, fromJson c entries = .ok abi) ↔ ∃ abi, fromJson c entries' = .ok abi)) ∧
    ∀ abi, fromJson c entries = .ok abi → Assembled c entries abi := by
  have hiff : ∀ l, (∃ abi, fromJson c l = .ok abi) ↔ WellFormed c l := fun _ =>
    ⟨fun ⟨_, h⟩ => fromJson_wellFormed h, fromJson_of_wellFormed⟩
  refine ⟨hiff entries, fun l hl => ?_, fun _ => fromJson_assembled⟩
  rw [hiff, hiff]
  exact ⟨fun h => h.subperm hl.symm.subperm, fun h => h.subperm hl.subperm⟩

/-- An error entry named by a number and a function entry named by a list are each accepted by
their kind's `from_json`, but not by `ContractABI.from_json`: a number has no `encode` to hash
the error's selector, and a list cannot be hashed into the dict of methods. -/
theorem fromJson_unhashable_or_int_name :
    (Error.fromJson Codec.reference [("type", .str "error"), ("name", .num 5),
        ("inputs", .arr [])]).map (fun e => e.fields.names) = .ok [] ∧
      (fromJson Codec.reference [[("type", .str "error"), ("name", .num 5),
        ("inputs", .arr [])]]).map (fun _ => ()) =
        .error (.attributeError "'int' object has no attribute 'encode'") ∧
    (Method.fromJson Codec.reference [("type", .str "function"), ("name", .arr []),
        ("inputs", .arr []), ("stateMutability", .str "view")]).map (fun m => m.mutability) =
        .ok .view ∧
      (fromJson Codec.reference [[("type", .str "function"), ("name", .arr []),
        ("inputs", .arr []), ("stateMutability", .str "view")]]).map (fun _ => ()) =
        .error (.typeError "unhashable type: 'list'") := by
  decide

/-! ## How `from_json` rejects -/

/-- After a well-formed prefix, an entry whose pass fails decides the error. -/
theorem fromJson_append_of_step {c : Codec Ty Val} {P rest : List JsonObject} {e : JsonObject}
    {err : PyErr} (hP : WellFormed c P)
    (h : ∀ s, Processed c P s → fromJsonStep c s e = .error err) :
    fromJson c (P ++ e :: rest) = .error err := by
  obtain ⟨s, hs⟩ := @Processed.progress_run Ty Val c [] P _ Processed.init hP
  rw [fromJson, List.foldlM_append, hs, Except.ok_bind, List.foldlM_cons,
    h s (Processed.init.run hs)]
  rfl

/-- **How `from_json` rejects an entry** after a well-formed prefix `P`: an unknown type, a
second constructor, fallback or receive method, and a name already declared for the same kind
each raise `ValueError` with the source's message, which renders the type or the name with
`str()`. -/
theorem fromJson_rejects (c : Codec Ty Val) {P rest : List JsonObject} {e : JsonObject}
    {t : Json} (hP : WellFormed c P) (ht : e.getitem "type" = .ok t) :
    ((∀ k ∈ entryTypes, t.eqStr k = false) → fromJson c (P ++ e :: rest) =
      .error (.valueError ("Unknown ABI entry type: " ++ t.pyStr))) ∧
    (t.eqStr "constructor" → P.filter (typeIs "constructor") ≠ [] → fromJson c (P ++ e :: rest) =
      .error (.valueError "JSON ABI contains more than one constructor declarations")) ∧
    (t.eqStr "fallback" → P.filter (typeIs "fallback") ≠ [] → fromJson c (P ++ e :: rest) =
      .error (.valueError "JSON ABI contains more than one fallback declarations")) ∧
    (t.eqStr "receive" → P.filter (typeIs "receive") ≠ [] → fromJson c (P ++ e :: rest) =
      .error (.valueError "JSON ABI contains more than one receive method declarations")) ∧
    (∀ kind ∈ ["function", "event", "error"], t.eqStr kind → ∀ name k,
      e.getitem "name" = .ok name → name.toPyKey = .ok k →
      .ok k ∈ (P.filter (typeIs kind)).map nameKey → fromJson c (P ++ e :: rest) =
        .error (.valueError
          ("JSON ABI contains more than one declarations of `" ++ name.pyStr ++ "`"))) := by
  refine ⟨fun hu => ?_, fun h1 hne => ?_, fun h1 hne => ?_, fun h1 hne => ?_,
    fun kind hkind h1 name k hn hk hdup => ?_⟩ <;>
    refine fromJson_append_of_step hP fun s hs => ?_ <;>
    rw [fromJsonStep, ht, Except.ok_bind]
  · simp only [hu _ (by decide : "constructor" ∈ entryTypes), hu _ (by decide : "function" ∈ entryTypes),
      hu _ (by decide : "fallback" ∈ entryTypes), hu _ (by decide : "receive" ∈ entryTypes),
      hu _ (by decide : "event" ∈ entryTypes), hu _ (by decide : "error" ∈ entryTypes),
      Bool.false_eq_true, if_false]
    rfl
  · rw [if_pos h1, fillSlot_duplicate hs.constructor hne]
    rfl
  · obtain rfl := Json.eqStr_iff.1 h1
    rw [if_neg (by decide), if_neg (by decide), if_pos h1, fillSlot_duplicate hs.fallback hne]
    rfl
  · obtain rfl := Json.eqStr_iff.1 h1
    rw [if_neg (by decide), if_neg (by decide), if_neg (by decide), if_pos h1,
      fillSlot_duplicate hs.receive hne]
    rfl
  · obtain rfl := Json.eqStr_iff.1 h1
    simp only [List.mem_cons, List.mem_singleton, List.not_mem_nil, or_false] at hkind
    rcases hkind with rfl | rfl | rfl
    · rw [if_neg (by decide), if_pos h1, addNamed_duplicate hs.methods hn hk hdup]
      rfl
    · rw [if_neg (by decide), if_neg (by decide), if_neg (by decide), if_neg (by decide),
        if_pos h1, addNamed_duplicate hs.events hn hk hdup]
      rfl
    · rw [if_neg (by decide), if_neg (by decide), if_neg (by decide), if_neg (by decide),
        if_neg (by decide), if_pos h1, addNamed_duplicate hs.errors hn hk hdup]
      rfl

/-- A second constructor entry after a first one. -/
theorem fromJson_rejects_second_constructor :
    fromJson Codec.reference
      [[("type", .str "constructor"), ("stateMutability", .str "nonpayable"), ("inputs", .arr [])],
        [("type", .str "constructor"), ("stateMutability", .str "payable"), ("inputs", .arr [])]] =
      .error (.valueError "JSON ABI contains more than one constructor declarations") :=
  (@fromJson_rejects String UInt8 Codec.reference
    [[("type", .str "constructor"), ("stateMutability", .str "nonpayable"), ("inputs", .arr [])]] []
    [("type", .str "constructor"), ("stateMutability", .str "payable"), ("inputs", .arr [])] _
    (@fromJson_wellFormed String UInt8 Codec.reference _ _ rfl) rfl).2.1 rfl (List.cons_ne_nil _ _)

end ContractABI

end Pons
