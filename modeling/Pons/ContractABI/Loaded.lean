import Pons.ContractABI.FromJson

/-!
# Pons — what a contract loaded from JSON does

`ContractABI.from_json` (`_contract_abi.py`, lines 665–723) is the way most contracts reach
pons: the compiler's JSON ABI goes in, and the methods, events and errors come out. The results
here follow a loaded contract through to the calls a user makes on it, by way of what the loop
builds for each kind (`Assembled`, `Pons.ContractABI.FromJson`):

* **`fromJson_resolveError`** — revert data made of the selector of an error declared in the
  JSON and an encoding of its fields resolves to that error and its fields, unless a *later*
  error entry has the same selector: the selector index is built in declaration order, after
  the built-ins, and a later error takes the selector of an earlier one.
* **`fromJson_eq_of_kinds`** — the contract built depends only on the entries of each kind, in
  their order: interleaving the kinds another way builds the same contract. It rests on
  `Processed.eq_of_kinds`: the loop's state is determined by each kind's entries.
-/

namespace Pons

variable {Ty Val : Type}

namespace ContractABI

section loaded

variable {c : Codec Ty Val} {entries : List JsonObject} {abi : ContractABI Ty}

/-- **A contract loaded from JSON resolves the revert data of its declared errors.** Take the
error `Error.from_json` builds from one error entry and its selector, which no error built from
a later error entry has. Its selector followed by any encoding its fields accept resolves to that
error and to each of its field names bound to its value. -/
theorem fromJson_resolveError (c : Codec Ty Val) (hinv : c.DecodeInverts)
    (h : fromJson c entries = .ok abi) {pre post : List JsonObject} {x : JsonObject}
    {E : Error Ty} {sel : Bytes} (hx : entries.filter (typeIs "error") = pre ++ x :: post)
    (hE : Error.fromJson c x = .ok E) (hsel : E.selector c = .ok sel)
    (hlater : ∀ y ∈ post, ∀ e, Error.fromJson c y = .ok e → e.selector c ≠ .ok sel)
    {args : List Val} {kwargs : Dict String Val} {bs : Bytes}
    (henc : E.fields.encode c args kwargs = .ok bs) :
    ∃ bound d, E.fields.signature.bind args kwargs = .ok bound ∧
      abi.resolveError c (sel ++ bs) = .ok (E, d) ∧
      d.entries.map Prod.fst = E.fields.names ∧ ∀ p ∈ d.entries, bound.lookup p.1 = some p.2 := by
  obtain ⟨bound, d, hbind, hdec, hfst, hvals⟩ := Signature.decodeIntoDict_encode c hinv henc
  refine ⟨bound, d, hbind, resolveError_append (length_selectorOf hsel) ?_ hdec, hfst, hvals⟩
  -- the loaded errors, in declaration order: those before the entry, its error, those after
  have herr := (fromJson_assembled h).errors
  rw [hx] at herr
  obtain ⟨lpre, p, lpost, hent, -, hp, hpost⟩ := Except.mapM_append_cons_eq_ok herr
  have hpE : p.2 = E := Except.ok.inj ((keyed_eq_ok.1 hp).2.symm.trans hE)
  have hlate : ∀ q ∈ lpost, q.2.selector c ≠ .ok sel :=
    Except.forall_mem_of_mapM_eq_ok hpost fun y hy q hq => hlater y hy q.2 (keyed_eq_ok.1 hq).2
  -- the index registers the built-ins, then the loaded errors; the last registration wins
  obtain ⟨s, -, habi⟩ := Except.bind_eq_ok.1 h
  obtain ⟨-, -, -, -, -, -, panic, legacy, L, -, -, hL, hidx⟩ := new_ok habi
  rw [Dict.values, hent, List.map_append, List.map_cons, hpE, ← List.append_assoc] at hL
  rw [hidx]
  refine Dict.get?_ofList_keyed_last (hL.imp fun _ _ => Except.bind_pair_eq_ok.1) hsel fun e he => ?_
  obtain ⟨q, hq, rfl⟩ := List.mem_map.1 he
  exact hlate q hq

/-- A contract declaring `InsufficientBalance(uint256 available, uint256 required)` resolves
that error's selector followed by two encoded values. -/
theorem fromJson_resolveError_insufficient :
    ∃ (abi : ContractABI String) (E : Error String) (sel : Bytes),
      fromJson Codec.reference [[("type", .str "error"), ("name", .str "InsufficientBalance"),
        ("inputs", .arr [.obj [("name", .str "available"), ("type", .str "uint256")],
          .obj [("name", .str "required"), ("type", .str "uint256")]])]] = .ok abi ∧
      E.selector Codec.reference = .ok sel ∧
      ∃ bound d, E.fields.signature.bind [5, 9] Dict.empty = .ok bound ∧
        abi.resolveError Codec.reference (sel ++ [5, 9]) = .ok (E, d) ∧
        d.entries.map Prod.fst = E.fields.names ∧ ∀ p ∈ d.entries, bound.lookup p.1 = some p.2 := by
  refine ⟨_, _, _, rfl, ?_, @fromJson_resolveError String UInt8
    [[("type", .str "error"), ("name", .str "InsufficientBalance"),
      ("inputs", .arr [.obj [("name", .str "available"), ("type", .str "uint256")],
        .obj [("name", .str "required"), ("type", .str "uint256")]])]] _
    Codec.reference Codec.reference_decodeInverts rfl [] [] _ _ _ rfl rfl rfl
    (fun _ hy => (List.not_mem_nil _ hy).elim) [5, 9] Dict.empty _ rfl⟩
  rfl

/-! ## Interleaving the kinds -/

theorem eq_of_toList_eq {α : Type} {a b : Option α} (h : a.toList = b.toList) : a = b := by
  cases a <;> cases b <;> simp_all

/-- Two lists with the same entries of a kind give the same result for that kind. -/
theorem eq_of_mapM_filter {β : Type} {f : JsonObject → Except PyErr β} {k : String}
    {P P' : List JsonObject} {l l' : List β} (hk : P'.filter (typeIs k) = P.filter (typeIs k))
    (h : (P.filter (typeIs k)).mapM f = .ok l) (h' : (P'.filter (typeIs k)).mapM f = .ok l') :
    l' = l := by
  rw [hk, h] at h'
  exact (Except.ok.inj h').symm

/-- **The loop's state is determined by each kind's entries**: runs over two lists with the
same entries of each kind, in the same order, end in the same state. -/
theorem Processed.eq_of_kinds {P P' : List JsonObject} {s s' : FromJsonState Ty}
    (h : Processed c P s) (h' : Processed c P' s')
    (hk : ∀ k ∈ entryTypes, P'.filter (typeIs k) = P.filter (typeIs k)) : s' = s := by
  have hc := eq_of_mapM_filter (hk _ (by decide)) h.constructor h'.constructor
  have hm := eq_of_mapM_filter (hk _ (by decide)) h.methods h'.methods
  have hf := eq_of_mapM_filter (hk _ (by decide)) h.fallback h'.fallback
  have hr := eq_of_mapM_filter (hk _ (by decide)) h.receive h'.receive
  have he := eq_of_mapM_filter (hk _ (by decide)) h.events h'.events
  have her := eq_of_mapM_filter (hk _ (by decide)) h.errors h'.errors
  cases s
  cases s'
  simp only [FromJsonState.mk.injEq]
  exact ⟨eq_of_toList_eq hc, eq_of_toList_eq hf, eq_of_toList_eq hr, Dict.ext hm, Dict.ext he,
    Dict.ext her⟩

/-- **The contract `from_json` builds depends only on each kind's entries, in their order**:
the same entries with the kinds interleaved another way build the same contract. -/
theorem fromJson_eq_of_kinds (c : Codec Ty Val) {entries' : List JsonObject}
    (h : fromJson c entries = .ok abi) (hperm : entries.Perm entries')
    (hkinds : ∀ k ∈ entryTypes, entries'.filter (typeIs k) = entries.filter (typeIs k)) :
    fromJson c entries' = .ok abi := by
  obtain ⟨s, hs, habi⟩ := Except.bind_eq_ok.1 h
  have hp : Processed c entries s := by simpa using Processed.init.run hs
  have hwf : WellFormed c entries' := (fromJson_wellFormed h).subperm hperm.symm.subperm
  obtain ⟨s', hs'⟩ := @Processed.progress_run Ty Val c [] entries' _ Processed.init hwf
  have hp' : Processed c entries' s' := by simpa using Processed.init.run hs'
  rw [fromJson, hs', Except.ok_bind, hp.eq_of_kinds hp' hkinds]
  exact habi

/-- A function entry and an event entry build the same contract in either order. -/
theorem fromJson_eq_of_kinds_swap :
    ∃ abi, fromJson Codec.reference [[("type", .str "function"), ("name", .str "totalSupply"),
        ("inputs", .arr []), ("outputs", .arr [.obj [("name", .str ""), ("type", .str "uint256")]]),
        ("stateMutability", .str "view")],
      [("type", .str "event"), ("name", .str "Paused"), ("inputs", .arr []),
        ("anonymous", .bool false)]] = .ok abi ∧
    fromJson Codec.reference [[("type", .str "event"), ("name", .str "Paused"),
        ("inputs", .arr []), ("anonymous", .bool false)],
      [("type", .str "function"), ("name", .str "totalSupply"), ("inputs", .arr []),
        ("outputs", .arr [.obj [("name", .str ""), ("type", .str "uint256")]]),
        ("stateMutability", .str "view")]] = .ok abi :=
  ⟨_, rfl, fromJson_eq_of_kinds Codec.reference (by rfl) (List.Perm.swap _ _ [])
    fun k hk => by
      simp only [entryTypes, List.mem_cons, List.mem_singleton, List.not_mem_nil, or_false] at hk
      rcases hk with rfl | rfl | rfl | rfl | rfl | rfl <;> rfl⟩

end loaded

end ContractABI

end Pons
