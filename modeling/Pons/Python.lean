import Mathlib.Data.List.Basic
import Mathlib.Data.List.Forall2

/-!
# Pons — the Python runtime the ABI layer runs on

`pons/_contract_abi.py` is plain Python: it raises the built-in exceptions, reads JSON
values with `entry["key"]`, tests their truthiness, hashes them as dict keys, escapes
keywords with `keyword.iskeyword`, and lets `inspect` check parameter names with
`str.isidentifier`. This module gives each of those runtime pieces the meaning CPython
3.11 gives it, so that the modules after it can be read line by line against the source.

* **`PyErr`** — the exception kinds, each with its message. Exceptions raised inside the
  codec collaborator are kept apart as `codecError`.
* **`Json`** — a decoded JSON value, with `getitem` (`j[key]`), `iter` (`for x in j`),
  `truthy` (`if j`), `toPyKey` (`hash(j)`, used whenever a value becomes a dict key) and
  `encode` (`j.encode()`, which only a `str` has).
* **keywords and identifiers** — `kwlist` is `keyword.kwlist` of CPython 3.11;
  `isidentifier` and `isdigit` are their ASCII cases.

The `Except` lemmas at the end are the bind equations every later proof peels
computations apart with.
-/

namespace Pons

/-- Raw bytes (`bytes`). -/
abbrev Bytes := List UInt8

/-- The exceptions the ABI layer raises or lets through, each with the text Python shows. -/
inductive PyErr where
  | valueError (msg : String)
  | typeError (msg : String)
  | keyError (key : String)
  | indexError (msg : String)
  | attributeError (msg : String)
  /-- `pons.UnknownError`: a revert selector that no registered error has. -/
  | unknownError (msg : String)
  /-- Whatever the codec collaborator raises while encoding or decoding. -/
  | codecError (msg : String)
  deriving DecidableEq, Repr

/-- `repr(s)` of a `str` without quotes or backslashes in it, as error messages quote names. -/
def pyRepr (s : String) : String := "'" ++ s ++ "'"

/-- `str.encode()`: the UTF-8 bytes of a string. -/
def utf8 (s : String) : Bytes := s.toList.flatMap String.utf8EncodeChar

@[simp] theorem utf8_append (s t : String) : utf8 (s ++ t) = utf8 s ++ utf8 t := by
  simp [utf8]

/-- `bytes.hex()`: two lowercase hex digits per byte. -/
def hex (b : Bytes) : String :=
  String.join (b.map fun x => String.mk [Nat.digitChar (x.toNat / 16), Nat.digitChar (x.toNat % 16)])

/-! ## Keywords and identifiers -/

/-- `keyword.kwlist` of CPython 3.11. -/
def kwlist : List String :=
  ["False", "None", "True", "and", "as", "assert", "async", "await", "break", "class",
   "continue", "def", "del", "elif", "else", "except", "finally", "for", "from", "global",
   "if", "import", "in", "is", "lambda", "nonlocal", "not", "or", "pass", "raise",
   "return", "try", "while", "with", "yield"]

/-- `keyword.iskeyword(s)`. -/
def iskeyword (s : String) : Bool := kwlist.contains s

/-- `str.isidentifier()` on ASCII text: a letter or `_`, then letters, digits or `_`. -/
def isidentifier (s : String) : Bool :=
  match s.toList with
  | [] => false
  | c :: cs => (c.isAlpha || c == '_') && cs.all fun d => d.isAlphanum || d == '_'

/-- `str.isdigit()` on ASCII text: non-empty and all decimal digits. -/
def isdigit (cs : List Char) : Bool := !cs.isEmpty && cs.all Char.isDigit

/-! ## JSON values -/

/-- A value decoded by `json.loads`. Numbers are integers. -/
inductive Json where
  | null
  | bool (b : Bool)
  | num (n : Int)
  | str (s : String)
  | arr (items : List Json)
  | obj (fields : List (String × Json))

namespace Json

/-- `type(j).__name__`. -/
def typeName : Json → String
  | null => "NoneType"
  | bool _ => "bool"
  | num _ => "int"
  | str _ => "str"
  | arr _ => "list"
  | obj _ => "dict"

/-- `j[key]` with a `str` key. -/
def getitem (j : Json) (key : String) : Except PyErr Json :=
  match j with
  | obj fields =>
    match fields.lookup key with
    | some v => .ok v
    | none => .error (.keyError key)
  | str _ => .error (.typeError "string indices must be integers, not 'str'")
  | arr _ => .error (.typeError "list indices must be integers or slices, not str")
  | j => .error (.typeError ("'" ++ j.typeName ++ "' object is not subscriptable"))

/-- `for x in j`: a list's items, a dict's keys, a string's characters. -/
def iter (j : Json) : Except PyErr (List Json) :=
  match j with
  | arr items => .ok items
  | obj fields => .ok (fields.map fun f => str f.1)
  | str s => .ok (s.toList.map fun c => str (String.singleton c))
  | j => .error (.typeError ("'" ++ j.typeName ++ "' object is not iterable"))

/-- `bool(j)`. -/
def truthy : Json → Bool
  | null => false
  | bool b => b
  | num n => n != 0
  | str s => !s.isEmpty
  | arr items => !items.isEmpty
  | obj fields => !fields.isEmpty

/-- `j == s` for a `str` literal `s`. -/
def eqStr (j : Json) (s : String) : Bool :=
  match j with
  | str t => t == s
  | _ => false

/-- `j.encode()`: only a `str` has the method. -/
def encode (j : Json) : Except PyErr Bytes :=
  match j with
  | str s => .ok (utf8 s)
  | j => .error (.attributeError ("'" ++ j.typeName ++ "' object has no attribute 'encode'"))

@[simp] theorem encode_str (s : String) : (str s).encode = .ok (utf8 s) := rfl

theorem encode_eq_ok {j : Json} {b : Bytes} (h : j.encode = .ok b) : ∃ s, j = str s := by
  cases j <;> first | exact ⟨_, rfl⟩ | cases h

theorem eqStr_iff {j : Json} {s : String} : j.eqStr s = true ↔ j = str s := by
  cases j <;> simp [eqStr]

mutual

/-- `repr(j)`. -/
def pyRepr : Json → String
  | null => "None"
  | bool b => if b then "True" else "False"
  | num n => toString n
  | str s => Pons.pyRepr s
  | arr items => "[" ++ ", ".intercalate (reprItems items) ++ "]"
  | obj fields => "\x7b" ++ ", ".intercalate (reprFields fields) ++ "\x7d"

/-- The items of a list, each by `repr`. -/
def reprItems : List Json → List String
  | [] => []
  | j :: js => j.pyRepr :: reprItems js

/-- The fields of a dict, each as `repr(key): repr(value)`. -/
def reprFields : List (String × Json) → List String
  | [] => []
  | (k, v) :: fs => (Pons.pyRepr k ++ ": " ++ v.pyRepr) :: reprFields fs

end

/-- `str(j)`, as an f-string renders it. -/
def pyStr : Json → String
  | str s => s
  | j => j.pyRepr

end Json

/-- A JSON object: the `Dict[str, JSON]` that one ABI entry is. -/
abbrev JsonObject := List (String × Json)

namespace JsonObject

/-- `entry[key]`. -/
def getitem (o : JsonObject) (key : String) : Except PyErr Json :=
  match o.lookup key with
  | some v => .ok v
  | none => .error (.keyError key)

/-- `key in entry`. -/
def contains (o : JsonObject) (key : String) : Bool := (o.lookup key).isSome

/-- `entry.get(key, default)`. -/
def getD (o : JsonObject) (key : String) (default : Json) : Json := (o.lookup key).getD default

end JsonObject

/-- A hashable value read from JSON, up to Python's `==` on dict keys, under which `True`
and `False` are the ints `1` and `0`. -/
inductive PyKey where
  | none
  | int (n : Int)
  | str (s : String)
  deriving DecidableEq, Repr

/-- `hash(j)`, taken whenever a JSON value is used as a dict key or set element. -/
def Json.toPyKey : Json → Except PyErr PyKey
  | .null => .ok .none
  | .bool b => .ok (.int (if b then 1 else 0))
  | .num n => .ok (.int n)
  | .str s => .ok (.str s)
  | .arr _ => .error (.typeError "unhashable type: 'list'")
  | .obj _ => .error (.typeError "unhashable type: 'dict'")

/-! ## `Except` equations -/

instance decEqExcept {ε α : Type} [DecidableEq ε] [DecidableEq α] : DecidableEq (Except ε α)
  | .ok a, .ok b => decidable_of_iff (a = b) (by simp)
  | .error e, .error e' => decidable_of_iff (e = e') (by simp)
  | .ok _, .error _ => isFalse (by simp)
  | .error _, .ok _ => isFalse (by simp)

namespace Except

variable {ε α β : Type}

@[simp] theorem ok_bind (a : α) (f : α → Except ε β) : (Except.ok a >>= f) = f a := rfl

@[simp] theorem error_bind (e : ε) (f : α → Except ε β) :
    (Except.error e >>= f) = Except.error e := rfl

@[simp] theorem pure_eq_ok (a : α) : (pure a : Except ε α) = .ok a := rfl

@[simp] theorem throw_eq_error (e : ε) : (throw e : Except ε α) = .error e := rfl

@[simp] theorem map_ok (f : α → β) (a : α) : (f <$> (Except.ok a : Except ε α)) = .ok (f a) :=
  rfl

@[simp] theorem map_error (f : α → β) (e : ε) :
    (f <$> (Except.error e : Except ε α)) = .error e := rfl

/-- A bind succeeds exactly when both halves do. -/
theorem bind_eq_ok {x : Except ε α} {f : α → Except ε β} {b : β} :
    (x >>= f) = .ok b ↔ ∃ a, x = .ok a ∧ f a = .ok b := by
  cases x <;> simp

/-- `List.mapM` succeeds exactly when every element does, pointwise. -/
theorem mapM_eq_ok_iff {f : α → Except ε β} {l : List α} {l' : List β} :
    l.mapM f = .ok l' ↔ List.Forall₂ (fun a b => f a = .ok b) l l' := by
  induction l generalizing l' with
  | nil => rw [List.mapM_nil]; cases l' <;> simp
  | cons a l ih =>
    rw [List.mapM_cons]
    cases h : f a with
    | error e => cases l' <;> simp [h]
    | ok b =>
      cases l' with
      | nil => cases hl : l.mapM f <;> simp [h, hl]
      | cons b' l' =>
        rw [List.forall₂_cons, ← ih, h]
        cases hl : l.mapM f <;> simp [hl]

theorem mapM_map {γ : Type} (f : α → β) (g : β → Except ε γ) (l : List α) :
    (l.map f).mapM g = l.mapM (g ∘ f) := by
  induction l with
  | nil => rfl
  | cons a l ih => simp only [List.map_cons, List.mapM_cons, ih, Function.comp_apply]

/-- A `mapM` whose every step succeeds with `g a` returns the list mapped by `g`. -/
theorem mapM_eq_ok_map {f : α → Except ε β} {g : α → β} {l : List α}
    (h : ∀ a ∈ l, f a = .ok (g a)) : l.mapM f = .ok (l.map g) :=
  mapM_eq_ok_iff.2 (List.forall₂_map_right_iff.2 (List.forall₂_same.2 h))

/-- A component that every step of a successful `mapM` fixes is fixed for the whole list. -/
theorem map_of_mapM_eq_ok {γ : Type} {f : α → Except ε β} {k : β → γ} {k' : α → γ}
    (hk : ∀ a b, f a = .ok b → k b = k' a) {l : List α} {l' : List β} (h : l.mapM f = .ok l') :
    l'.map k = l.map k' := by
  have h2 := mapM_eq_ok_iff.1 h
  clear h
  induction h2 with
  | nil => rfl
  | cons hab _ ih => simp [hk _ _ hab, ih]

/-- Pairing a result with a fixed second component succeeds exactly when the computation
does. -/
theorem bind_pair_eq_ok {x : Except ε α} {b : β} {p : α × β} :
    (x >>= fun a => pure (a, b)) = .ok p ↔ x = .ok p.1 ∧ p.2 = b := by
  obtain ⟨a, b'⟩ := p
  cases x <;> simp [eq_comm]

/-- A `mapM` succeeds when every step does. -/
theorem mapM_ok_of_forall {f : α → Except ε β} {l : List α} (h : ∀ a ∈ l, ∃ b, f a = .ok b) :
    ∃ l', l.mapM f = .ok l' := by
  induction l with
  | nil => exact ⟨[], rfl⟩
  | cons a l ih =>
    obtain ⟨b, hb⟩ := h a (List.mem_cons_self _ _)
    obtain ⟨l', hl⟩ := ih fun a ha => h a (List.mem_cons_of_mem _ ha)
    exact ⟨b :: l', by rw [List.mapM_cons, hb, ok_bind, hl]; rfl⟩

/-- Every element of a successful `mapM` has its result in the output. -/
theorem exists_mem_of_mapM_eq_ok {f : α → Except ε β} {l : List α} {l' : List β}
    (h : l.mapM f = .ok l') {a : α} (ha : a ∈ l) : ∃ b ∈ l', f a = .ok b := by
  have h2 := mapM_eq_ok_iff.1 h
  clear h
  induction h2 with
  | nil => cases ha
  | @cons a' b l l' hab _ ih =>
    rcases List.mem_cons.1 ha with rfl | ha
    · exact ⟨b, List.mem_cons_self _ _, hab⟩
    · obtain ⟨b', hb', hf⟩ := ih ha
      exact ⟨b', List.mem_cons_of_mem _ hb', hf⟩

/-- A property every step's result has holds of every element of the output. -/
theorem forall_mem_of_mapM_eq_ok {f : α → Except ε β} {l : List α} {l' : List β} {P : β → Prop}
    (h : l.mapM f = .ok l') (hP : ∀ a ∈ l, ∀ b, f a = .ok b → P b) : ∀ b ∈ l', P b := by
  have h2 := mapM_eq_ok_iff.1 h
  clear h
  induction h2 with
  | nil => intro _ hb; cases hb
  | cons hab _ ih =>
    intro b hb
    rcases List.mem_cons.1 hb with rfl | hb
    · exact hP _ (List.mem_cons_self _ _) _ hab
    · exact ih (fun a ha => hP a (List.mem_cons_of_mem _ ha)) b hb

theorem eq_nil_of_mapM_eq_ok_nil {f : α → Except ε β} {l : List α} (h : l.mapM f = .ok []) :
    l = [] :=
  List.forall₂_nil_right_iff.1 (mapM_eq_ok_iff.1 h)

theorem mapM_append_singleton {f : α → Except ε β} {l : List α} {l' : List β} {a : α} {b : β}
    (h : l.mapM f = .ok l') (ha : f a = .ok b) : (l ++ [a]).mapM f = .ok (l' ++ [b]) := by
  rw [List.mapM_append, h, ok_bind, List.mapM_cons, ha]
  rfl

/-- A successful `mapM` over `pre ++ a :: post` splits its result the same way. -/
theorem mapM_append_cons_eq_ok {f : α → Except ε β} {pre post : List α} {a : α} {l : List β}
    (h : (pre ++ a :: post).mapM f = .ok l) :
    ∃ lpre b lpost, l = lpre ++ b :: lpost ∧ pre.mapM f = .ok lpre ∧ f a = .ok b ∧
      post.mapM f = .ok lpost := by
  induction pre generalizing l with
  | nil =>
    rw [List.nil_append, mapM_eq_ok_iff, List.forall₂_cons_left_iff] at h
    obtain ⟨b, lpost, hb, hpost, rfl⟩ := h
    exact ⟨[], b, lpost, rfl, rfl, hb, mapM_eq_ok_iff.2 hpost⟩
  | cons x pre ih =>
    rw [List.cons_append, mapM_eq_ok_iff, List.forall₂_cons_left_iff] at h
    obtain ⟨y, l', hy, hl', rfl⟩ := h
    obtain ⟨lpre, b, lpost, rfl, hpre, hb, hpost⟩ := ih (mapM_eq_ok_iff.2 hl')
    exact ⟨y :: lpre, b, lpost, rfl, by rw [List.mapM_cons, hy, ok_bind, hpre]; rfl, hb, hpost⟩

/-- Two `mapM` runs agree when their steps agree along a zip with a list of the same length. -/
theorem mapM_eq_mapM_zip {γ : Type} {f : α → Except ε γ} {g : α × β → Except ε γ} {l : List α}
    {l' : List β} (hlen : l'.length = l.length) (h : ∀ x ∈ l.zip l', f x.1 = g x) :
    l.mapM f = (l.zip l').mapM g := by
  induction l generalizing l' with
  | nil => rfl
  | cons a l ih =>
    cases l' with
    | nil => simp at hlen
    | cons b l' =>
      simp only [List.zip_cons_cons, List.mapM_cons, h (a, b) (by simp),
        ih (by simpa using hlen) fun x hx => h x (by simp [hx])]

end Except

end Pons
