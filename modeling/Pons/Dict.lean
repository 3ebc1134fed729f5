import Pons.Python
import Mathlib.Data.List.Nodup

/-!
# Pons — Python dictionaries

Every container the ABI layer builds is a `dict`: the escaped field mapping of an event,
the decoded-field mappings it returns, the `**kwargs` a call binds, the name-keyed
method, event and error tables and the selector index of a contract. A `Dict` is its
entry list in insertion order with pairwise distinct keys, the invariant carried as a
field so that no later proof re-derives it.

The one behaviour the code leans on is assignment: `d[k] = v` keeps an existing key at its
position and replaces its value, and appends a new key. A dict comprehension is these
assignments in order (`ofList`), so

* with distinct keys it is exactly its input (`entries_ofList`), and
* with repeated keys the **last** value wins (`get?_ofList`), at the position of the first.

The second fact decides which error a selector resolves to when two errors share one,
and which type a field keeps when two field names escape to the same word.
-/

namespace Pons

/-- A Python `dict`: its entries in insertion order, keys pairwise distinct. -/
structure Dict (K V : Type) where
  entries : List (K × V)
  nodup : (entries.map Prod.fst).Nodup

namespace Dict

variable {K V : Type}

@[ext] theorem ext {d e : Dict K V} (h : d.entries = e.entries) : d = e := by
  cases d; cases e; cases h; rfl

variable [DecidableEq K]

/-- `List.lookup` on a cons cell, as an `if`. -/
theorem lookup_cons_ite (k a : K) (b : V) (es : List (K × V)) :
    ((a, b) :: es).lookup k = if k = a then some b else es.lookup k := by
  by_cases h : k = a
  · subst h; simp
  · simp [List.lookup_cons, beq_eq_false_iff_ne.2 h, h]

/-- `d.keys()`, in insertion order. -/
def keys (d : Dict K V) : List K := d.entries.map Prod.fst

/-- `d.values()`, in insertion order. -/
def values (d : Dict K V) : List V := d.entries.map Prod.snd

/-- `d.get(k)`. -/
def get? (d : Dict K V) (k : K) : Option V := d.entries.lookup k

/-- `k in d`. -/
def contains (d : Dict K V) (k : K) : Bool := (d.get? k).isSome

/-- `{}`. -/
def empty : Dict K V := ⟨[], List.nodup_nil⟩

/-- `d[k] = v` on the entry list: an existing key keeps its place, a new one goes last. -/
def insertEntry (k : K) (v : V) : List (K × V) → List (K × V)
  | [] => [(k, v)]
  | e :: es => if e.1 = k then (e.1, v) :: es else e :: insertEntry k v es

theorem map_fst_insertEntry (k : K) (v : V) (es : List (K × V)) :
    (insertEntry k v es).map Prod.fst =
      if k ∈ es.map Prod.fst then es.map Prod.fst else es.map Prod.fst ++ [k] := by
  induction es with
  | nil => simp [insertEntry]
  | cons e es ih =>
    by_cases h : e.1 = k
    · simp [insertEntry, h]
    · by_cases hk : k ∈ es.map Prod.fst <;> simp_all [insertEntry, eq_comm]

theorem nodup_insertEntry (k : K) (v : V) {es : List (K × V)}
    (h : (es.map Prod.fst).Nodup) : ((insertEntry k v es).map Prod.fst).Nodup := by
  rw [map_fst_insertEntry]
  split
  · exact h
  · rename_i hk
    refine List.nodup_append.2 ⟨h, List.nodup_singleton k, fun x hx hy => hk ?_⟩
    rw [List.mem_singleton] at hy
    exact hy ▸ hx

theorem insertEntry_of_not_mem {k : K} (v : V) {es : List (K × V)}
    (h : k ∉ es.map Prod.fst) : insertEntry k v es = es ++ [(k, v)] := by
  induction es with
  | nil => rfl
  | cons e es ih =>
    simp only [List.map_cons, List.mem_cons, not_or] at h
    simp [insertEntry, Ne.symm h.1, ih h.2]

/-- `d[k] = v`. -/
def insert (d : Dict K V) (k : K) (v : V) : Dict K V :=
  ⟨insertEntry k v d.entries, nodup_insertEntry k v d.nodup⟩

/-- `d.pop(k)` without its value: every entry under `k` removed. -/
def erase (d : Dict K V) (k : K) : Dict K V :=
  ⟨d.entries.filter (fun e => e.1 ≠ k), d.nodup.sublist ((List.filter_sublist _).map _)⟩

/-- `dict(pairs)` and `{k: v for ...}`: the pairs assigned in order. -/
def ofList (l : List (K × V)) : Dict K V := l.foldl (fun d e => d.insert e.1 e.2) empty

/-! ## Lookup -/

@[simp] theorem get?_empty (k : K) : (empty : Dict K V).get? k = none := rfl

theorem lookup_insertEntry (k k' : K) (v : V) (es : List (K × V)) :
    (insertEntry k v es).lookup k' = if k' = k then some v else es.lookup k' := by
  induction es with
  | nil => simp [insertEntry, lookup_cons_ite]
  | cons e es ih =>
    obtain ⟨a, b⟩ := e
    by_cases h : a = k
    · subst h; by_cases h' : k' = a <;> simp [insertEntry, lookup_cons_ite, h']
    · simp only [insertEntry, h, if_false, lookup_cons_ite, ih]
      by_cases h' : k' = a <;> by_cases h'' : k' = k <;> simp_all

@[simp] theorem get?_insert (d : Dict K V) (k k' : K) (v : V) :
    (d.insert k v).get? k' = if k' = k then some v else d.get? k' :=
  lookup_insertEntry k k' v d.entries

theorem lookup_filter_ne (k k' : K) (es : List (K × V)) :
    (es.filter (fun e => e.1 ≠ k)).lookup k' = if k' = k then none else es.lookup k' := by
  induction es with
  | nil => simp
  | cons e es ih =>
    obtain ⟨a, b⟩ := e
    simp only [List.filter_cons]
    split <;> rename_i hd <;> simp only [ne_eq, decide_eq_true_eq, not_not] at hd
    · rw [lookup_cons_ite, ih, lookup_cons_ite]
      by_cases h' : k' = a <;> simp_all
    · subst hd
      rw [ih, lookup_cons_ite]
      by_cases h' : k' = a <;> simp [h']

@[simp] theorem get?_erase (d : Dict K V) (k k' : K) :
    (d.erase k).get? k' = if k' = k then none else d.get? k' :=
  lookup_filter_ne k k' d.entries

theorem get?_foldl_insert (l : List (K × V)) (d : Dict K V) (k : K) :
    (l.foldl (fun d e => d.insert e.1 e.2) d).get? k = (l.reverse.lookup k).or (d.get? k) := by
  induction l generalizing d with
  | nil => simp
  | cons e l ih =>
    obtain ⟨a, b⟩ := e
    simp only [List.foldl_cons, ih, get?_insert, List.reverse_cons, List.lookup_append,
      lookup_cons_ite, List.lookup_nil, Option.or_assoc]
    by_cases h : k = a <;> simp [h]

/-- **A dict comprehension keeps the last value of each key.** -/
theorem get?_ofList (l : List (K × V)) (k : K) : (ofList l).get? k = l.reverse.lookup k := by
  simp [ofList, get?_foldl_insert]

theorem entries_foldl_insert (l : List (K × V)) (d : Dict K V)
    (h : (d.keys ++ l.map Prod.fst).Nodup) :
    (l.foldl (fun d e => d.insert e.1 e.2) d).entries = d.entries ++ l := by
  induction l generalizing d with
  | nil => simp
  | cons e l ih =>
    have hk : e.1 ∉ d.keys := fun hm => (List.nodup_append.1 h).2.2 hm (by simp)
    have hins : (d.insert e.1 e.2).entries = d.entries ++ [e] :=
      insertEntry_of_not_mem e.2 hk
    rw [List.foldl_cons, ih _ (by simpa [keys, hins] using h), hins, List.append_assoc]
    rfl

/-- **A dict comprehension over distinct keys is its input.** -/
theorem entries_ofList {l : List (K × V)} (h : (l.map Prod.fst).Nodup) :
    (ofList l).entries = l :=
  entries_foldl_insert l empty (by simpa [keys, empty] using h)

/-- Under distinct keys a lookup finds exactly the listed pair. -/
theorem lookup_eq_some_iff_mem {l : List (K × V)} (h : (l.map Prod.fst).Nodup) {k : K}
    {v : V} : l.lookup k = some v ↔ (k, v) ∈ l := by
  induction l with
  | nil => simp
  | cons e l ih =>
    obtain ⟨a, b⟩ := e
    simp only [List.map_cons, List.nodup_cons] at h
    by_cases hk : k = a
    · subst hk
      simp only [List.lookup_cons_self, Option.some.injEq, List.mem_cons, Prod.mk.injEq,
        true_and]
      constructor
      · exact fun e => .inl e.symm
      · rintro (e | hm)
        · exact e.symm
        · exact absurd (List.mem_map_of_mem Prod.fst hm) h.1
    · simp [lookup_cons_ite, hk, ih h.2]

theorem lookup_isSome_iff_mem_map {l : List (K × V)} {k : K} :
    (l.lookup k).isSome ↔ k ∈ l.map Prod.fst := by
  rw [List.lookup_isSome_iff, List.mem_map]
  constructor
  · rintro ⟨p, hp, hk⟩; exact ⟨p, hp, (beq_iff_eq.1 hk).symm⟩
  · rintro ⟨p, hp, rfl⟩; exact ⟨p, hp, beq_self_eq_true _⟩

theorem lookup_eq_none_iff_not_mem_map {l : List (K × V)} {k : K} :
    l.lookup k = none ↔ k ∉ l.map Prod.fst := by
  rw [← lookup_isSome_iff_mem_map, Option.not_isSome_iff_eq_none]

theorem get?_eq_some_iff (d : Dict K V) {k : K} {v : V} : d.get? k = some v ↔ (k, v) ∈ d.entries :=
  lookup_eq_some_iff_mem d.nodup

theorem contains_iff (d : Dict K V) (k : K) : d.contains k ↔ k ∈ d.keys := by
  simp [contains, get?, keys, List.lookup_isSome_iff]

theorem get?_eq_none_iff (d : Dict K V) (k : K) : d.get? k = none ↔ k ∉ d.keys := by
  rw [← contains_iff, contains, Option.not_isSome_iff_eq_none]

theorem erase_of_get?_eq_none {d : Dict K V} {k : K} (h : d.get? k = none) : d.erase k = d := by
  ext1
  refine List.filter_eq_self.2 fun e he => ?_
  have hne : e.1 ≠ k := by
    rintro rfl
    rw [(get?_eq_some_iff d).2 he] at h
    cases h
  simpa using hne

/-- A dict comprehension has exactly the keys it was given. -/
theorem mem_keys_ofList {l : List (K × V)} {k : K} : k ∈ (ofList l).keys ↔ k ∈ l.map Prod.fst := by
  rw [← contains_iff, contains, get?_ofList, lookup_isSome_iff_mem_map, List.map_reverse,
    List.mem_reverse]

theorem get?_ofList_of_nodup {l : List (K × V)} (h : (l.map Prod.fst).Nodup) (k : K) :
    (ofList l).get? k = l.lookup k := by
  rw [get?, entries_ofList h]

/-- A dict every key of which has been looked up in vain is empty. -/
theorem keys_eq_nil_of_get? {d : Dict K V} (h : ∀ k, d.get? k = none) : d.keys = [] := by
  refine List.map_eq_nil_iff.2 (List.eq_nil_iff_forall_not_mem.2 fun e he => ?_)
  have := (get?_eq_some_iff d).2 he
  rw [h] at this
  cases this

/-! ### Comprehensions keyed by a computed key

`{key(x): x for x in xs}` where computing a key may fail: the run that succeeds pairs each
item with its key, and the dict finds, under a key, the last item that has it. -/

section keyed

variable {α ε : Type} {key : α → Except ε K}

theorem lookup_keyed_first {pre post : List α} {x : α} {k : K} {L : List (K × α)}
    (hL : List.Forall₂ (fun a p => key a = .ok p.1 ∧ p.2 = a) (pre ++ x :: post) L)
    (hx : key x = .ok k) (hpre : ∀ a ∈ pre, key a ≠ .ok k) : L.lookup k = some x := by
  induction pre generalizing L with
  | nil =>
    obtain ⟨⟨k', x'⟩, L', ⟨hk, rfl⟩, -, rfl⟩ := List.forall₂_cons_left_iff.1 hL
    obtain rfl : k' = k := Except.ok.inj (hk.symm.trans hx)
    exact List.lookup_cons_self
  | cons a pre ih =>
    obtain ⟨⟨k', x'⟩, L', ⟨hk, -⟩, hL', rfl⟩ := List.forall₂_cons_left_iff.1 hL
    have hne : k ≠ k' := fun h => hpre a (List.mem_cons_self _ _) (h ▸ hk)
    rw [lookup_cons_ite, if_neg hne]
    exact ih hL' fun a' ha' => hpre a' (List.mem_cons_of_mem _ ha')

theorem lookup_keyed_none {xs : List α} {L : List (K × α)} {k : K}
    (hL : List.Forall₂ (fun a p => key a = .ok p.1 ∧ p.2 = a) xs L)
    (h : ∀ a ∈ xs, key a ≠ .ok k) : L.lookup k = none := by
  induction hL with
  | nil => rfl
  | @cons a p xs L hp _ ih =>
    obtain ⟨k', x'⟩ := p
    have hne : k ≠ k' := fun hk => h a (List.mem_cons_self _ _) (hk ▸ hp.1)
    rw [lookup_cons_ite, if_neg hne]
    exact ih fun a' ha' => h a' (List.mem_cons_of_mem _ ha')

/-- **A keyed comprehension finds the last item with the key.** -/
theorem get?_ofList_keyed_last {pre post : List α} {x : α} {k : K} {L : List (K × α)}
    (hL : List.Forall₂ (fun a p => key a = .ok p.1 ∧ p.2 = a) (pre ++ x :: post) L)
    (hx : key x = .ok k) (hpost : ∀ a ∈ post, key a ≠ .ok k) : (ofList L).get? k = some x := by
  have hrev : List.Forall₂ (fun a p => key a = .ok p.1 ∧ p.2 = a)
      (post.reverse ++ x :: pre.reverse) L.reverse := by
    simpa using List.forall₂_reverse_iff.2 hL
  rw [get?_ofList]
  exact lookup_keyed_first hrev hx fun a ha => hpost a (List.mem_reverse.1 ha)

/-- A keyed comprehension has no key that no item has. -/
theorem get?_ofList_keyed_none {xs : List α} {L : List (K × α)} {k : K}
    (hL : List.Forall₂ (fun a p => key a = .ok p.1 ∧ p.2 = a) xs L)
    (h : ∀ a ∈ xs, key a ≠ .ok k) : (ofList L).get? k = none := by
  rw [get?_ofList]
  exact lookup_keyed_none (List.forall₂_reverse_iff.2 hL) fun a ha => h a (List.mem_reverse.1 ha)

end keyed

end Dict

/-- `d[k]` on a `str`-keyed dict, raising `KeyError(k)` for a missing key. -/
def Dict.getitem {V : Type} (d : Dict String V) (k : String) : Except PyErr V :=
  match d.get? k with
  | some v => .ok v
  | none => .error (.keyError k)

/-- A key given to a dict comprehension is found in it. -/
theorem Dict.getitem_ofList_of_mem {V : Type} {l : List (String × V)} {k : String}
    (h : k ∈ l.map Prod.fst) : ∃ v, (Dict.ofList l).getitem k = .ok v := by
  obtain ⟨v, hv⟩ := Option.isSome_iff_exists.1 ((Dict.contains_iff _ k).2 (Dict.mem_keys_ofList.2 h))
  exact ⟨v, by simp [Dict.getitem, hv]⟩

end Pons
