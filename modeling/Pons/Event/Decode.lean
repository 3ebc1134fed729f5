import Pons.Event

/-!
# Pons — decoding log entries

The proof companions of `EventSignature.decodeLogEntry` and `Event.decodeLogEntry`. The
signature's decoder zips the topics with the indexed parameters, the decoded data tuple
with the non-indexed field names, and merges the two back in field order; the event's
strips and checks its own topic first.

* `decodeLogEntry_failsOnlyInCodec` — once the topic count is right, every field is found
  on one side of the merge, so only the codec can fail;
* `decodeLogEntry_of_emitted` — on the topics and data of a log entry laid out field by
  field, the merge returns each field's value under its name, in declaration order;
* `decodeLogEntry_raises` and `decodeLogEntry_emit` — the same facts for events, with the
  checks of the event's own topic in front.
-/

namespace Pons

namespace EventSignature

variable {Ty Val : Type}

/-! ## Counting indexed fields -/

/-- When every indexed name is a field's, there is one indexed field per indexed name. -/
theorem length_indexedFields {parameters : Dict String Ty} {indexed : Finset PyKey}
    {s : EventSignature Ty} (h : new parameters indexed = .ok s)
    (hsub : ∀ k ∈ indexed, ∃ n ∈ parameters.keys, k = .str n) :
    s.indexedFields.length = s.indexed.card := by
  obtain ⟨htypes, hidx, -, -⟩ := new_ok h
  have hnd : (s.indexedFields.map fun f => PyKey.str f.1).Nodup := by
    have : (s.indexedFields.map Prod.fst).Nodup := s.types.nodup.sublist
      ((List.filter_sublist _).map _)
    simpa [List.map_map, Function.comp_def] using this.map fun _ _ => PyKey.str.inj
  rw [← List.length_map s.indexedFields fun f => PyKey.str f.1, ← List.toFinset_card_of_nodup hnd]
  congr 1
  ext k
  simp only [List.mem_toFinset, List.mem_map, indexedFields, List.mem_filter, decide_eq_true_eq]
  constructor
  · rintro ⟨f, ⟨-, hf⟩, rfl⟩
    exact hf
  · intro hk
    obtain ⟨k0, hk0, rfl⟩ := Finset.mem_image.1 (hidx ▸ hk)
    obtain ⟨n, hn, rfl⟩ := hsub k0 hk0
    have hmem : makeNameSafe n ∈ s.types.keys := by
      rw [htypes, Dict.mem_keys_ofList, List.map_map]
      obtain ⟨e, he, rfl⟩ := List.mem_map.1 hn
      exact List.mem_map_of_mem _ he
    obtain ⟨f, hf, hfn⟩ := List.mem_map.1 hmem
    exact ⟨f, ⟨hf, by rw [hfn]; exact hk⟩, by rw [hfn]; rfl⟩

/-! ## Which errors decoding raises -/

/-- With the wrong number of topics, decoding raises `ValueError` citing both counts. -/
theorem decodeLogEntry_count (c : Codec Ty Val) (s : EventSignature Ty) {topics : List LogTopic}
    (h : topics.length ≠ s.indexed.card) (data : Bytes) :
    s.decodeLogEntry c topics data = .error (.valueError ("The number of topics in the log entry (" ++
      toString topics.length ++ ") does not match the number of indexed fields in the event (" ++
      toString s.indexed.card ++ ")")) := by
  rw [decodeLogEntry, if_pos h]
  rfl

/-- Once the topic count is right, every field is found among the decoded topics or the
decoded data, so decoding can fail only inside the codec. -/
theorem decodeLogEntry_failsOnlyInCodec (c : Codec Ty Val) {parameters : Dict String Ty}
    {indexed : Finset PyKey} {s : EventSignature Ty} (hs : new parameters indexed = .ok s)
    (hi : ∀ k ∈ indexed, k.isImplicit = false) {topics : List LogTopic}
    (hcount : topics.length = s.indexed.card) (hle : s.indexedFields.length ≤ topics.length)
    (data : Bytes) : Codec.FailsOnlyInCodec (s.decodeLogEntry c topics data) := by
  obtain ⟨-, -, hnon, -⟩ := new_ok hs
  have hps := parameters_of_new hs hi
  rw [decodeLogEntry, if_neg (not_not.2 hcount)]
  refine .bind (.mapM fun x hx => ?_) fun DT hDT => .bind (.lift _) fun DD hDD =>
    .bind (.mapM fun name hname => ?_) fun _ _ => .ok _
  · -- each indexed parameter is a field
    obtain ⟨p, t⟩ := x
    obtain ⟨f, hf, rfl⟩ := List.mem_map.1 (hps ▸ (List.of_mem_zip hx).1)
    simp only [getitem_of_mem (List.mem_filter.1 hf).1, Except.ok_bind]
    exact .bind (.lift _) fun _ _ => .ok _
  · split
    · exact .ok _
    rename_i hnone
    -- the decoded topics are named after the indexed fields, all of them
    have hkeys : DT.map Prod.fst = (s.signature.parameters.zip topics).map fun x => x.1.name :=
      Except.map_of_mapM_eq_ok (fun ⟨p, t⟩ d hd => by
        obtain ⟨tp, -, hd⟩ := Except.bind_eq_ok.1 hd
        obtain ⟨v, -, hd⟩ := Except.bind_eq_ok.1 hd
        cases hd
        rfl) hDT
    have hall : (s.signature.parameters.zip topics).map (fun x => x.1.name) =
        s.indexedFields.map Prod.fst := by
      rw [show (fun x : Inspect.Parameter × LogTopic => x.1.name) =
        Inspect.Parameter.name ∘ Prod.fst from rfl, ← List.map_map,
        List.map_fst_zip _ _ (by simpa [hps] using hle), hps, List.map_map]
      rfl
    have hnot : name ∉ s.indexedFields.map Prod.fst := by
      rw [← hall, ← hkeys, ← List.mem_reverse, ← List.map_reverse,
        ← Dict.lookup_eq_none_iff_not_mem_map, ← Dict.get?_ofList]
      exact hnone
    -- so the field is a non-indexed one, which the data tuple has a value for
    obtain ⟨f, hf, rfl⟩ := List.mem_map.1 hname
    have hfn : f ∈ s.types.entries.filter fun e => PyKey.str e.1 ∉ s.indexed :=
      List.mem_filter.2 ⟨hf, decide_eq_true fun hi' =>
        hnot (List.mem_map_of_mem _ (List.mem_filter.2 ⟨hf, decide_eq_true hi'⟩))⟩
    have hlen : s.typesNonindexed.keys.length ≤ DD.length := by
      rw [c.decodeArgs_length _ _ _ (Codec.lift_eq_ok.1 hDD)]
      simp [Dict.keys, Dict.values]
    have hmem : f.1 ∈ (s.typesNonindexed.keys.zip DD).map Prod.fst := by
      rw [List.map_fst_zip _ _ hlen, hnon, Dict.mem_keys_ofList]
      exact List.mem_map_of_mem _ hfn
    obtain ⟨v, hv⟩ := Dict.getitem_ofList_of_mem hmem
    simp only [hv, Except.ok_bind]
    exact .ok _

/-! ## Lining up fields, topics and data -/

/-- Selecting pairs by their first component and forgetting the second selects from the
first list. -/
theorem map_fst_filter_zip {α β : Type} (p : α → Bool) :
    ∀ {F : List α} {xs : List β}, F.length ≤ xs.length →
      ((F.zip xs).filter fun x => p x.1).map Prod.fst = F.filter p
  | [], _, _ => rfl
  | _ :: _, [], h => by simp at h
  | a :: F, _ :: xs, h => by
    by_cases ha : p a <;>
      simp [List.filter_cons, ha, map_fst_filter_zip p (Nat.le_of_succ_le_succ h)]

/-- A relation from pairs to the values of other pairs, read between the pairs themselves. -/
theorem forall₂_zip_zip {α β γ : Type} {R : α × β → γ → Prop} :
    ∀ {F : List α} {xs : List β} {ys : List γ}, List.Forall₂ R (F.zip xs) ys →
      List.Forall₂ (fun a b => a.1 = b.1 ∧ R a b.2) (F.zip xs) (F.zip ys)
  | [], _, _, _ => .nil
  | _ :: _, [], _, h => by
    simp only [List.zip_nil_right, List.forall₂_nil_left_iff] at h ⊢
    simp [h]
  | _ :: _, _ :: _, [], h => by cases h
  | _ :: _, _ :: _, _ :: _, h => by
    simp only [List.zip_cons_cons, List.forall₂_cons] at h ⊢
    exact ⟨⟨trivial, h.1⟩, forall₂_zip_zip h.2⟩

/-- Among fields with distinct names paired with values, the names of the selected fields
find their values, and no other name is found. -/
theorem get?_ofList_filter_zip {P : List ((String × Ty) × Val)}
    (hP : (P.map fun p => p.1.1).Nodup) (r : (String × Ty) × Val → Bool)
    {p : (String × Ty) × Val} (hp : p ∈ P) :
    (Dict.ofList ((P.filter r).map fun p => (p.1.1, p.2))).get? p.1.1 =
      if r p then some p.2 else none := by
  have hnd : (((P.filter r).map fun p => (p.1.1, p.2)).map Prod.fst).Nodup := by
    rw [List.map_map]
    exact hP.sublist ((List.filter_sublist _).map _)
  rw [Dict.get?_ofList_of_nodup hnd]
  split
  · exact (Dict.lookup_eq_some_iff_mem hnd).2 (List.mem_map_of_mem _ (List.mem_filter.2 ⟨hp, ‹_›⟩))
  · rename_i hr
    refine Dict.lookup_eq_none_iff_not_mem_map.2 fun hm => hr ?_
    rw [List.map_map] at hm
    obtain ⟨p', hp', he⟩ := List.mem_map.1 hm
    exact List.inj_on_of_nodup_map hP (List.mem_filter.1 hp').1 hp he ▸ (List.mem_filter.1 hp').2

/-- Decoding the topics of the indexed fields, in order, gives each field its value. -/
theorem mapM_decodedTopics (c : Codec Ty Val)
    {g : Inspect.Parameter × LogTopic → Except PyErr (String × Val)}
    {A B : List ((String × Ty) × Val)} {ts : List LogTopic}
    (hAB : List.Forall₂ (fun a b => a.1 = b.1 ∧
      (c.encodeToTopic a.1.2 a.2 >>= c.decodeFromTopic a.1.2) = .ok b.2) A B)
    (hAt : List.Forall₂ (fun a t => Codec.lift (c.encodeToTopic a.1.2 a.2) = .ok t) A ts)
    (hg : ∀ a ∈ A, ∀ t w, c.decodeFromTopic a.1.2 t = .ok w →
      g (⟨a.1.1, .positionalOrKeyword⟩, t) = .ok (a.1.1, w)) :
    ((A.map fun a => (⟨a.1.1, .positionalOrKeyword⟩ : Inspect.Parameter)).zip ts).mapM g =
      .ok (B.map fun b => (b.1.1, b.2)) := by
  induction hAB generalizing ts with
  | nil => cases hAt; rfl
  | cons hab _ ih =>
    cases hAt with
    | cons hat hAt =>
      have hdec := hab.2
      rw [Codec.lift_eq_ok.1 hat, Except.ok_bind] at hdec
      rw [List.map_cons, List.zip_cons_cons, List.mapM_cons, hg _ (by simp) _ _ hdec,
        ih hAt fun a ha => hg a (by simp [ha]), hab.1]
      rfl

/-! ## Decoding an emitted entry -/

/-- **The merge lines up.** On the topics of the indexed fields' values, in declaration
order, and the data packing the other fields' values, when `decode_args` inverts
`encode_args`, decoding returns every field under its name, in declaration order: the
decoded topic for an indexed field, the value itself for any other. -/
theorem decodeLogEntry_of_emitted (c : Codec Ty Val) (hinv : c.DecodeInverts)
    {parameters : Dict String Ty} {indexed : Finset PyKey} {s : EventSignature Ty}
    (hs : new parameters indexed = .ok s) (hi : ∀ k ∈ indexed, k.isImplicit = false)
    (hcard : s.indexedFields.length = s.indexed.card)
    {vals ws : List Val} (hlen : vals.length = s.types.entries.length)
    (hws : List.Forall₂ (fun (p : (String × Ty) × Val) w =>
      if PyKey.str p.1.1 ∈ s.indexed then
        (c.encodeToTopic p.1.2 p.2 >>= c.decodeFromTopic p.1.2) = .ok w
      else w = p.2) (s.types.entries.zip vals) ws)
    {topics : List LogTopic}
    (htopics : ((s.types.entries.zip vals).filter fun p => PyKey.str p.1.1 ∈ s.indexed).mapM
      (fun p => Codec.lift (c.encodeToTopic p.1.2 p.2)) = .ok topics)
    {data : Bytes}
    (hdata : c.encodeArgs (((s.types.entries.zip vals).filter
      fun p => PyKey.str p.1.1 ∉ s.indexed).map fun p => (p.1.2, p.2)) = .ok data) :
    s.decodeLogEntry c topics data = .ok (Dict.ofList (s.types.keys.zip ws)) := by
  obtain ⟨-, -, hnon, -⟩ := new_ok hs
  have hps := parameters_of_new hs hi
  set F := s.types.entries
  have hwl : ws.length = F.length := by rw [← hws.length_eq, List.length_zip, hlen, Nat.min_self]
  have hPnd : ((F.zip ws).map fun p => p.1.1).Nodup := by
    have : ((F.zip ws).map fun p => p.1.1) = F.map Prod.fst := calc
      _ = ((F.zip ws).map Prod.fst).map Prod.fst := (List.map_map _ _ _).symm
      _ = F.map Prod.fst := by rw [List.map_fst_zip _ _ hwl.ge]
    exact this ▸ s.types.nodup
  -- each field's pair with its value against its pair with its decoded value
  have hPP := forall₂_zip_zip hws
  have hsame : ∀ (r : String × Ty → Bool) (a b : (String × Ty) × Val), a.1 = b.1 ∧
      (if PyKey.str a.1.1 ∈ s.indexed then
        (c.encodeToTopic a.1.2 a.2 >>= c.decodeFromTopic a.1.2) = .ok b.2 else b.2 = a.2) →
      (r a.1 = true ↔ r b.1 = true) := fun r a b h => by rw [h.1]
  have hfst : ∀ r : String × Ty → Bool,
      ((F.zip vals).filter fun p => r p.1).map Prod.fst = F.filter r :=
    fun r => map_fst_filter_zip r hlen.ge
  -- the indexed side
  have hAB := List.rel_filter (hsame fun f => decide (PyKey.str f.1 ∈ s.indexed)) hPP
  have hAt := Except.mapM_eq_ok_iff.1 htopics
  have htl : topics.length = s.indexed.card := by
    rw [← hAt.length_eq, ← hcard, ← List.length_map _ Prod.fst,
      hfst fun f => decide (PyKey.str f.1 ∈ s.indexed)]
    rfl
  rw [decodeLogEntry, if_neg (not_not.2 htl)]
  refine Except.bind_eq_ok.2 ⟨((F.zip ws).filter fun p => decide (PyKey.str p.1.1 ∈ s.indexed)).map
    fun p => (p.1.1, p.2), ?_, ?_⟩
  · -- the decoded topics: each indexed field with its decoded topic
    rw [hps, indexedFields, ← hfst fun f => decide (PyKey.str f.1 ∈ s.indexed), List.map_map]
    refine mapM_decodedTopics c (((List.forall₂_and_left _ _).2 ⟨fun a ha => (List.mem_filter.1 ha).2,
      hAB⟩).imp fun a b ⟨hq, hab⟩ => ⟨hab.1, by simpa [of_decide_eq_true hq] using hab.2⟩) hAt
      fun a ha t w hw => ?_
    have hf : a.1 ∈ F := (List.of_mem_zip (List.mem_filter.1 ha).1).1
    simp [getitem_of_mem hf, hw]
  dsimp only
  -- the decoded data: each other field with its value
  have hCD := List.rel_filter (hsame fun f => decide (PyKey.str f.1 ∉ s.indexed)) hPP
  have hnd : ((F.filter fun e => decide (PyKey.str e.1 ∉ s.indexed)).map Prod.fst).Nodup :=
    s.types.nodup.sublist ((List.filter_sublist _).map _)
  have hentries : s.typesNonindexed.entries = ((F.zip vals).filter
      fun p => decide (PyKey.str p.1.1 ∉ s.indexed)).map Prod.fst := by
    rw [hnon, Dict.entries_ofList hnd, hfst fun f => decide (PyKey.str f.1 ∉ s.indexed)]
  refine Except.bind_eq_ok.2 ⟨((F.zip vals).filter
    fun p => decide (PyKey.str p.1.1 ∉ s.indexed)).map Prod.snd, ?_, ?_⟩
  · refine Codec.lift_eq_ok.2 (hinv _ _ _ (by simp [Dict.values, hentries]) ?_)
    rw [Dict.values, hentries, List.map_map, List.zip_map']
    exact hdata
  dsimp only
  have hdata' : s.typesNonindexed.keys.zip (((F.zip vals).filter
      fun p => decide (PyKey.str p.1.1 ∉ s.indexed)).map Prod.snd) =
      ((F.zip ws).filter fun p => decide (PyKey.str p.1.1 ∉ s.indexed)).map
        fun p => (p.1.1, p.2) := by
    rw [Dict.keys, hentries, List.map_map, List.zip_map']
    rw [← List.forall₂_eq_eq_eq, List.forall₂_map_left_iff, List.forall₂_map_right_iff]
    refine ((List.forall₂_and_left _ _).2 ⟨fun a ha => (List.mem_filter.1 ha).2, hCD⟩).imp
      fun a b ⟨hq, hab⟩ => ?_
    simp only [decide_eq_true_eq] at hq
    simp only [hq, if_false] at hab
    simp [hab.1, hab.2]
  rw [hdata']
  -- the merge: every field under its name, in declaration order
  refine Except.bind_eq_ok.2 ⟨s.types.keys.zip ws, ?_, rfl⟩
  have hkeys : s.types.keys = (F.zip ws).map fun p => p.1.1 := calc
    _ = ((F.zip ws).map Prod.fst).map Prod.fst := by rw [List.map_fst_zip _ _ hwl.ge]; rfl
    _ = _ := List.map_map _ _ _
  rw [show s.types.keys.zip ws = (F.zip ws).map fun p => (p.1.1, p.2) by
    rw [Dict.keys, List.zip_map_left]; rfl, hkeys, Except.mapM_map]
  refine Except.mapM_eq_ok_map fun p hp => ?_
  simp only [Function.comp_apply, get?_ofList_filter_zip hPnd _ hp]
  by_cases hq : PyKey.str p.1.1 ∈ s.indexed
  · simp [hq]
  · simp [hq, Dict.getitem, get?_ofList_filter_zip hPnd _ hp]

end EventSignature

namespace Event

variable {Ty Val : Type}

/-- An entry laid out with the event's topic is decoded from the topics after it. -/
theorem decodeLogEntry_layout {c : Codec Ty Val} {e : Event Ty} {topic : LogTopic}
    (ht : e.topic c = .ok topic) (rest : List LogTopic) (data : Bytes) :
    e.decodeLogEntry c ⟨e.layout topic rest, data⟩ = e.fields.decodeLogEntry c rest data := by
  cases ha : e.anonymous <;> simp [decodeLogEntry, layout, ha, ht]

/-- **Decoding rejects foreign and malformed entries with `ValueError`, and nothing else.**
Take an event with a string name, built within the cap from fields whose names stay distinct
once keyword-escaped, whose indexed names are field names that `inspect` keeps. For a
non-anonymous event, an entry whose first topic is not the event's raises `ValueError`. An
entry laid out with the event's topic (unless anonymous) and then topics that are not one per
declared indexed name raises `ValueError` citing both counts; any other such entry decodes
or fails inside the codec. -/
theorem decodeLogEntry_raises (c : Codec Ty Val) {name : String} {fields : Dict String Ty}
    {indexed : Finset PyKey} {anonymous : Bool} {e : Event Ty}
    (he : new (.str name) fields indexed anonymous = .ok e)
    (hnd : (fields.keys.map makeNameSafe).Nodup)
    (hsub : ∀ k ∈ indexed, ∃ n ∈ fields.keys, k = .str n)
    (hi : ∀ k ∈ indexed, k.isImplicit = false) :
    ∃ topic, e.topic c = .ok topic ∧
      (e.anonymous = false → ∀ t rest data, t ≠ topic →
        e.decodeLogEntry c ⟨t :: rest, data⟩ =
          .error (.valueError "This log entry belongs to a different event")) ∧
      ∀ rest data,
        (rest.length ≠ indexed.card →
          e.decodeLogEntry c ⟨e.layout topic rest, data⟩ = .error (.valueError
            ("The number of topics in the log entry (" ++ toString rest.length ++
              ") does not match the number of indexed fields in the event (" ++
              toString indexed.card ++ ")"))) ∧
        (rest.length = indexed.card →
          Codec.FailsOnlyInCodec (e.decodeLogEntry c ⟨e.layout topic rest, data⟩)) := by
  obtain ⟨hname, -, -, hs⟩ := new_ok he
  have hcard := EventSignature.card_indexed_of_nodup hs hnd hsub
  have hlen := EventSignature.length_indexedFields hs hsub
  refine ⟨_, topic_str hname c, fun ha t rest data hne => ?_, fun rest data => ?_⟩
  · simp [decodeLogEntry, ha, topic_str hname c, hne]
  · rw [decodeLogEntry_layout (topic_str hname c), ← hcard]
    exact ⟨fun h => EventSignature.decodeLogEntry_count c _ h _,
      fun h => EventSignature.decodeLogEntry_failsOnlyInCodec c hs hi h (by rw [hlen, h]) _⟩

/-- The Transfer event with `from` and `to` indexed, on an entry with one topic after its own
and on one with two. -/
theorem decodeLogEntry_raises_transfer :
    ∃ e topic, new (.str "Transfer") (Dict.ofList [("from", "address"), ("to", "address"),
        ("value", "uint256")]) {PyKey.str "from", PyKey.str "to"} false = .ok e ∧
      e.topic Codec.reference = .ok topic ∧
      e.decodeLogEntry Codec.reference ⟨[topic, topic], []⟩ = .error (.valueError
        "The number of topics in the log entry (1) does not match the number of indexed fields in the event (2)") ∧
      Codec.FailsOnlyInCodec (e.decodeLogEntry Codec.reference ⟨[topic, topic, topic], []⟩) := by
  obtain ⟨topic, ht, -, hrest⟩ := @decodeLogEntry_raises String UInt8 Codec.reference "Transfer"
    (Dict.ofList [("from", "address"), ("to", "address"), ("value", "uint256")])
    {PyKey.str "from", PyKey.str "to"} false _ rfl (by decide) (by decide) (by decide)
  refine ⟨_, topic, rfl, ht, ?_, (hrest [topic, topic] []).2 rfl⟩
  convert (hrest [topic] []).1 (by rw [List.length_singleton]; decide) using 3
  rw [List.length_singleton]
  decide

/-- **Round trip of an event log.** Take an event with a string name, built within the cap
from fields whose keyword-escaped names are distinct, whose indexed names are field names
that `inspect` keeps, and one value per field. When `decode_args` inverts `encode_args`,
decoding the log entry the event's contract emits for these values returns one entry per
declared field, under its escaped name and in declaration order: the value itself for a
non-indexed field, the decoding of its topic for an indexed one. -/
theorem decodeLogEntry_emit (c : Codec Ty Val) (hinv : c.DecodeInverts) {name : String}
    {fields : Dict String Ty} {indexed : Finset PyKey} {anonymous : Bool} {e : Event Ty}
    (he : new (.str name) fields indexed anonymous = .ok e)
    (hnd : (fields.keys.map makeNameSafe).Nodup)
    (hsub : ∀ k ∈ indexed, ∃ n ∈ fields.keys, k = .str n)
    (hi : ∀ k ∈ indexed, k.isImplicit = false) {vals ws : List Val}
    (hlen : vals.length = fields.keys.length)
    (hws : List.Forall₂ (fun (p : (String × Ty) × Val) w =>
      if PyKey.str p.1.1 ∈ e.fields.indexed then
        (c.encodeToTopic p.1.2 p.2 >>= c.decodeFromTopic p.1.2) = .ok w
      else w = p.2) (e.fields.types.entries.zip vals) ws)
    {logEntry : LogEntry} (hL : e.emit c vals = .ok logEntry) :
    ∃ r, e.decodeLogEntry c logEntry = .ok r ∧ r.entries = (fields.keys.map makeNameSafe).zip ws := by
  obtain ⟨hname, -, -, hs⟩ := new_ok he
  -- no two fields escape alike, so the event keeps every declared field
  have hkeys : e.fields.types.keys = fields.keys.map makeNameSafe := by
    rw [Dict.keys, EventSignature.entries_types_of_nodup hs hnd, List.map_map, Dict.keys,
      List.map_map]
    rfl
  have hlen' : vals.length = e.fields.types.entries.length := by
    have := congrArg List.length hkeys
    simp only [Dict.keys, List.length_map] at this hlen
    omega
  obtain ⟨topics, htopics, hL⟩ := Except.bind_eq_ok.1 hL
  obtain ⟨data, hdata, hL⟩ := Except.bind_eq_ok.1 hL
  have ht := topic_str hname c
  obtain rfl : logEntry = ⟨e.layout _ topics, data⟩ := by
    cases ha : e.anonymous <;>
      simp only [ha, ht, layout, if_true, if_false, Bool.false_eq_true, Except.pure_eq_ok,
        Except.ok_bind, Except.ok.injEq] at hL ⊢ <;> exact hL.symm
  have hdec := EventSignature.decodeLogEntry_of_emitted c hinv hs hi
    (EventSignature.length_indexedFields hs hsub) hlen' hws htopics (Codec.lift_eq_ok.1 hdata)
  refine ⟨_, (decodeLogEntry_layout ht topics data).trans hdec, ?_⟩
  have hwl : ws.length = e.fields.types.keys.length := by
    rw [← hws.length_eq, List.length_zip, ← hlen', Dict.keys, List.length_map, hlen', Nat.min_self]
  rw [Dict.entries_ofList (by rw [List.map_fst_zip _ _ hwl.ge]; exact e.fields.types.nodup), hkeys]

/-- The Transfer event with `from` and `to` indexed, emitting the values `1`, `2`, `3`. -/
theorem decodeLogEntry_emit_transfer :
    ∃ e logEntry, new (.str "Transfer") (Dict.ofList [("from", "address"), ("to", "address"),
        ("value", "uint256")]) {PyKey.str "from", PyKey.str "to"} false = .ok e ∧
      e.emit Codec.reference [1, 2, 3] = .ok logEntry ∧
      ∃ r, e.decodeLogEntry Codec.reference logEntry = .ok r ∧
        r.entries = [("from_", 1), ("to", 2), ("value", 3)] := by
  refine ⟨_, _, rfl, rfl, ?_⟩
  obtain ⟨r, hr, hent⟩ := @decodeLogEntry_emit String UInt8 Codec.reference
    Codec.reference_decodeInverts "Transfer"
    (Dict.ofList [("from", "address"), ("to", "address"), ("value", "uint256")])
    {PyKey.str "from", PyKey.str "to"} false _ rfl (by decide) (by decide) (by decide)
    [1, 2, 3] [1, 2, 3] rfl (.cons (by decide) (.cons (by decide) (.cons (by decide) .nil))) _ rfl
  exact ⟨r, hr, hent⟩

/-- An anonymous event whose one indexed field is named `.0` cannot decode the entry it
emits: the topic is looked up under `implicit0`. -/
theorem decodeLogEntry_emit_implicit_name :
    ((new (.str "E") (Dict.ofList [(".0", "uint256")]) {PyKey.str ".0"} true).bind
        fun e => (e.emit Codec.reference [7]).bind fun L => e.decodeLogEntry Codec.reference L).map
        Dict.entries = .error (.keyError "implicit0") := by
  decide

end Event

end Pons
