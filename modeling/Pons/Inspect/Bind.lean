import Pons.Inspect

/-!
# Pons — what `inspect` binding computes

The proof companions of `Pons.Inspect`. A parameter keeps its name unless the name is a
dot and digits (`Parameter.eq_of_new`); a positional-only one is never renamed
(`Parameter.eq_of_new_positionalOnly`). For binding, the two phases of `_bind` are
described separately and then assembled:

* `bindPositional_take` — positional values bind the leading parameters, in order, as
  long as none of those is also named by a keyword;
* `bindKeywords_true` — the keyword phase of `bind_partial` binds each later parameter
  that has a keyword and pops it; `bindKeywords_false_eq_true` — `bind` does the same when
  every later parameter has one;
* `bind_split`, `bind_positional`, `bindPartial_eq` — the three call shapes the ABI layer
  makes, each giving its `arguments` in closed form, and `boundArgs_zip` reading the
  values back in declaration order.
-/

namespace Pons.Inspect

/-! ## Parameters -/

/-- A parameter whose name is not a dot and digits keeps the name and kind it was given. -/
theorem Parameter.eq_of_new {name : String} {kind : ParameterKind} {p : Parameter}
    (h : Parameter.new name kind = .ok p) (hi : isImplicitName name = false) :
    p = ⟨name, kind⟩ := by
  unfold Parameter.new at h
  unfold isImplicitName at hi
  split at h
  · cases h
  · rename_i c rest hc
    rw [hc] at hi
    have hnot : ¬(c = '.' ∧ isdigit rest = true) := by
      rintro ⟨rfl, hd⟩
      simp [hd] at hi
    simp only [hnot, if_false, Except.pure_eq_ok, Except.ok_bind] at h
    split at h
    · cases h
    · cases h; rfl

/-- A positional-only parameter is never renamed. -/
theorem Parameter.eq_of_new_positionalOnly {name : String} {p : Parameter}
    (h : Parameter.new name .positionalOnly = .ok p) : p = ⟨name, .positionalOnly⟩ := by
  unfold Parameter.new at h
  split at h
  · cases h
  · split at h
    · simp at h
    · simp only [Except.pure_eq_ok, Except.ok_bind] at h
      split at h
      · cases h
      · cases h; rfl

/-- Parameters made in a comprehension keep their names and kind, when none is renamed. -/
theorem eq_of_mapM_new {kind : ParameterKind} {ns : List String} {ps : List Parameter}
    (h : ns.mapM (fun n => Parameter.new n kind) = .ok ps)
    (hi : kind = .positionalOnly ∨ ∀ n ∈ ns, isImplicitName n = false) :
    ps = ns.map fun n => ⟨n, kind⟩ := by
  induction ns generalizing ps with
  | nil => simpa [eq_comm] using (Except.mapM_eq_ok_iff.1 h)
  | cons n ns ih =>
    obtain ⟨p, ps', hp, hps, rfl⟩ := List.forall₂_cons_left_iff.1 (Except.mapM_eq_ok_iff.1 h)
    have hp' : p = ⟨n, kind⟩ := by
      rcases hi with rfl | hi
      · exact Parameter.eq_of_new_positionalOnly hp
      · exact Parameter.eq_of_new hp (hi n (by simp))
    have hi' : kind = .positionalOnly ∨ ∀ n ∈ ns, isImplicitName n = false :=
      hi.imp_right fun h n hn => h n (by simp [hn])
    simp [hp', ih (Except.mapM_eq_ok_iff.2 hps) hi']

/-! ## The positional phase -/

variable {α : Type} {b : Bool} {kw : Dict String α}

/-- Positional values bind the leading parameters in order, provided no keyword names one
of them; the rest of the call is decided where the values run out. -/
theorem bindPositional_take {ps : List Parameter} {args : List α} {rest : List Parameter}
    (hlen : args.length ≤ ps.length)
    (hpre : ∀ p ∈ ps.take args.length, kw.contains p.name = false)
    (hend : bindPositional b kw (ps.drop args.length) [] = .ok ([], rest)) :
    bindPositional b kw ps args =
      .ok (((ps.take args.length).map Parameter.name).zip args, rest) := by
  induction args generalizing ps with
  | nil => simpa using hend
  | cons a as ih =>
    cases ps with
    | nil => simp at hlen
    | cons p ps =>
      have hp : kw.contains p.name = false := hpre p (by simp)
      simp only [List.length_cons, List.take_succ_cons, List.drop_succ_cons, List.mem_cons,
        forall_eq_or_imp] at hlen hpre hend
      simp [bindPositional, hp, ih (by omega) hpre.2 hend]

/-- In `bind_partial` values may run out anywhere among positional-or-keyword parameters. -/
theorem bindPositional_partial_nil {ps : List Parameter}
    (hk : ∀ p ∈ ps, p.kind = .positionalOrKeyword) :
    bindPositional true kw ps [] = .ok ([], ps) := by
  cases ps with
  | nil => rfl
  | cons p ps =>
    by_cases h : kw.contains p.name <;> simp [bindPositional, h, hk p (by simp)]

/-! ## The keyword phase -/

/-- `bind_partial`'s keyword phase over positional-or-keyword parameters: each parameter
with a keyword takes it, and its keyword is popped. -/
theorem bindKeywords_true {ps : List Parameter} (hk : ∀ p ∈ ps, p.kind = .positionalOrKeyword)
    (hnd : (ps.map Parameter.name).Nodup) (kw : Dict String α) :
    bindKeywords true ps kw =
      .ok (ps.filterMap (fun p => (kw.get? p.name).map (p.name, ·)),
        ps.foldl (fun d p => d.erase p.name) kw) := by
  induction ps generalizing kw with
  | nil => rfl
  | cons p ps ih =>
    simp only [List.map_cons, List.nodup_cons] at hnd
    have hk' : ∀ q ∈ ps, q.kind = .positionalOrKeyword := fun q hq => hk q (by simp [hq])
    -- popping `p`'s keyword leaves the later parameters' keywords alone
    have hsame : ∀ q ∈ ps, (kw.erase p.name).get? q.name = kw.get? q.name := fun q hq => by
      have : q.name ≠ p.name := fun e => hnd.1 (e ▸ List.mem_map_of_mem _ hq)
      simp [this]
    cases hv : kw.get? p.name with
    | none =>
      simp [bindKeywords, hv, ih hk' hnd.2, Dict.erase_of_get?_eq_none hv]
    | some v =>
      have hf : ps.filterMap (fun q => ((kw.erase p.name).get? q.name).map (q.name, ·)) =
          ps.filterMap (fun q => (kw.get? q.name).map (q.name, ·)) :=
        List.filterMap_congr fun q hq => by rw [hsame q hq]
      simp only [bindKeywords, hv, hk p (by simp)]
      rw [ih hk' hnd.2, hf]
      simp [hv]

/-- The keywords left after popping the parameters' names. -/
theorem get?_foldl_erase (ps : List Parameter) (kw : Dict String α) (k : String) :
    (ps.foldl (fun d p => d.erase p.name) kw).get? k =
      if k ∈ ps.map Parameter.name then none else kw.get? k := by
  induction ps generalizing kw with
  | nil => simp
  | cons p ps ih =>
    rw [List.foldl_cons, ih]
    by_cases h : k = p.name <;> by_cases h' : k ∈ ps.map Parameter.name <;> simp [h, h']

/-- No keyword is left over when every keyword names a parameter. -/
theorem keys_foldl_erase {ps : List Parameter} (h : ∀ k ∈ kw.keys, k ∈ ps.map Parameter.name) :
    (ps.foldl (fun d p => d.erase p.name) kw).keys = [] := by
  refine Dict.keys_eq_nil_of_get? fun k => ?_
  rw [get?_foldl_erase]
  split
  · rfl
  · exact (Dict.get?_eq_none_iff kw k).2 fun hk => by simp_all

/-! ## Reading bound values back -/

/-- Looking up parameters in a zip of their names with values finds the values. -/
theorem map_lookup_zip {qs : List Parameter} (hnd : (qs.map Parameter.name).Nodup)
    {ws : List α} (hlen : ws.length = qs.length) :
    qs.map (fun q => ((qs.map Parameter.name).zip ws).lookup q.name) = ws.map some := by
  induction qs generalizing ws with
  | nil => simp_all
  | cons q qs ih =>
    cases ws with
    | nil => simp at hlen
    | cons w ws =>
      simp only [List.map_cons, List.nodup_cons] at hnd
      have hne : ∀ r ∈ qs, r.name ≠ q.name := fun r hr e => hnd.1 (e ▸ List.mem_map_of_mem _ hr)
      have htail : qs.map (fun r => (((q.name, w) :: (qs.map Parameter.name).zip ws)).lookup
          r.name) = qs.map (fun r => ((qs.map Parameter.name).zip ws).lookup r.name) :=
        List.map_congr_left fun r hr => by simp [Dict.lookup_cons_ite, hne r hr]
      simp only [List.map_cons, List.zip_cons_cons, List.lookup_cons_self, htail,
        ih hnd.2 (by simpa using hlen)]

/-- The keywords a partial keyword phase binds are among the parameters' names. -/
theorem lookup_filterMap_of_not_mem {qs : List Parameter} {k : String}
    (hk : k ∉ qs.map Parameter.name) :
    (qs.filterMap fun p => (kw.get? p.name).map (p.name, ·)).lookup k = none := by
  induction qs with
  | nil => rfl
  | cons q qs ih =>
    simp only [List.map_cons, List.mem_cons, not_or] at hk
    cases hv : kw.get? q.name <;>
      simp only [List.filterMap_cons, hv, Option.map_none', Option.map_some', Dict.lookup_cons_ite,
        hk.1, if_false, ih hk.2]

/-- Looking up parameters among the keywords the keyword phase bound finds their keywords. -/
theorem map_lookup_filterMap {qs : List Parameter} (hnd : (qs.map Parameter.name).Nodup) :
    qs.map (fun q => (qs.filterMap fun p => (kw.get? p.name).map (p.name, ·)).lookup q.name) =
      qs.map (fun q => kw.get? q.name) := by
  induction qs with
  | nil => rfl
  | cons q qs ih =>
    simp only [List.map_cons, List.nodup_cons] at hnd
    have hne : ∀ r ∈ qs, r.name ≠ q.name := fun r hr e => hnd.1 (e ▸ List.mem_map_of_mem _ hr)
    cases hv : kw.get? q.name with
    | none =>
      simp only [List.map_cons, List.filterMap_cons, hv, Option.map_none',
        lookup_filterMap_of_not_mem hnd.1, ih hnd.2]
    | some v =>
      have htail : qs.map (fun r => ((q.name, v) :: qs.filterMap fun p =>
          (kw.get? p.name).map (p.name, ·)).lookup r.name) =
          qs.map (fun r => (qs.filterMap fun p => (kw.get? p.name).map (p.name, ·)).lookup
            r.name) :=
        List.map_congr_left fun r hr => by simp [Dict.lookup_cons_ite, hne r hr]
      simp only [List.map_cons, List.filterMap_cons, hv, Option.map_some', List.lookup_cons_self,
        htail, ih hnd.2]

/-- The positional phase binds a prefix of the parameters, in order, and hands on the rest. -/
theorem bindPositional_false_ok {ps : List Parameter} {args : List α} {bound : Arguments α}
    {rest : List Parameter} (h : bindPositional false kw ps args = .ok (bound, rest)) :
    ∃ pre, ps = pre ++ rest ∧ bound.map Prod.fst = pre.map Parameter.name := by
  induction ps generalizing args bound rest with
  | nil =>
    cases args with
    | nil => cases h; exact ⟨[], rfl, rfl⟩
    | cons _ _ => cases h
  | cons p ps ih =>
    cases args with
    | nil =>
      simp only [bindPositional] at h
      split at h
      · split at h
        · cases h
        · cases h; exact ⟨[], rfl, rfl⟩
      · cases h
    | cons a as =>
      simp only [bindPositional] at h
      split at h
      · cases h
      · obtain ⟨⟨bound', rest'⟩, hrec, h⟩ := Except.bind_eq_ok.1 h
        cases h
        obtain ⟨pre, rfl, hpre⟩ := ih hrec
        exact ⟨p :: pre, rfl, by simp [hpre]⟩

/-- `bind`'s keyword phase binds every parameter handed to it, in order. -/
theorem bindKeywords_false_ok {ps : List Parameter} {bound : Arguments α} {left : Dict String α}
    (h : bindKeywords false ps kw = .ok (bound, left)) : bound.map Prod.fst = ps.map Parameter.name := by
  induction ps generalizing kw bound left with
  | nil => cases h; rfl
  | cons p ps ih =>
    simp only [bindKeywords] at h
    split at h
    · cases h
    · split at h
      · cases h
      · obtain ⟨⟨bound', left'⟩, hrec, h⟩ := Except.bind_eq_ok.1 h
        cases h
        simp [ih hrec]

/-- **`bind` binds every parameter.** -/
theorem lookup_bind_isSome {sig : Signature} {args : List α} {bound : Arguments α}
    (h : sig.bind args kw = .ok bound) : ∀ p ∈ sig.parameters, (bound.lookup p.name).isSome := by
  obtain ⟨⟨positional, rest⟩, hpos, h⟩ := Except.bind_eq_ok.1 h
  obtain ⟨⟨keyword, left⟩, hkw, h⟩ := Except.bind_eq_ok.1 h
  obtain ⟨pre, hps, hpre⟩ := bindPositional_false_ok hpos
  have hbound : bound = positional ++ keyword := by
    cases hl : left.keys with
    | nil => simp only [hl, Except.pure_eq_ok, Except.ok.injEq] at h; exact h.symm
    | cons k ks => simp [hl] at h
  intro p hp
  rw [Dict.lookup_isSome_iff_mem_map, hbound, List.map_append, hpre, bindKeywords_false_ok hkw,
    ← List.map_append, ← hps]
  exact List.mem_map_of_mem _ hp

/-- When every parameter is bound, `BoundArguments.args` is one value per parameter, the
one bound to it. -/
theorem forall₂_boundArgs {ps : List Parameter} {bound : Arguments α}
    (h : ∀ p ∈ ps, (bound.lookup p.name).isSome) :
    List.Forall₂ (fun p v => bound.lookup p.name = some v) ps (boundArgs ps bound) := by
  induction ps with
  | nil => exact .nil
  | cons p ps ih =>
    obtain ⟨v, hv⟩ := Option.isSome_iff_exists.1 (h p (by simp))
    rw [boundArgs, hv]
    exact .cons hv (ih fun q hq => h q (by simp [hq]))

/-! ## The three call shapes -/

/-- **Partial binding**: positional values for the first parameters and keywords for any
of the later ones bind exactly those, each to its value. -/
theorem bindPartial_eq {sig : Signature}
    (hk : ∀ p ∈ sig.parameters, p.kind = .positionalOrKeyword) {args : List α}
    (hlen : args.length ≤ sig.parameters.length) {kw : Dict String α}
    (hkw : ∀ k ∈ kw.keys, k ∈ (sig.parameters.drop args.length).map Parameter.name) :
    sig.bindPartial args kw =
      .ok (((sig.parameters.take args.length).map Parameter.name).zip args ++
        (sig.parameters.drop args.length).filterMap (fun p => (kw.get? p.name).map (p.name, ·))) := by
  set ps := sig.parameters
  have hnd := sig.nodup
  have hpre : ∀ p ∈ ps.take args.length, kw.contains p.name = false := by
    intro p hp
    refine Bool.eq_false_iff.2 fun hc => ?_
    have hd := hkw _ ((Dict.contains_iff kw _).1 hc)
    have ht : p.name ∈ (ps.map Parameter.name).take args.length := by
      rw [← List.map_take]; exact List.mem_map_of_mem _ hp
    rw [List.map_drop] at hd
    exact List.disjoint_take_drop hnd le_rfl ht hd
  have hdnd : ((ps.drop args.length).map Parameter.name).Nodup := by
    rw [List.map_drop]; exact hnd.sublist (List.drop_sublist _ _)
  have hkd : ∀ p ∈ ps.drop args.length, p.kind = .positionalOrKeyword :=
    fun p hp => hk p (List.mem_of_mem_drop hp)
  simp only [Signature.bindPartial, Signature.bindWith,
    bindPositional_take hlen hpre (bindPositional_partial_nil hkd), Except.ok_bind,
    bindKeywords_true hkd hdnd kw, keys_foldl_erase hkw, Except.pure_eq_ok]

/-- What a partial binding gives each parameter: the positional values in order, then for
each later parameter its keyword, if any. -/
theorem map_lookup_bindPartial {ps : List Parameter} (hnd : (ps.map Parameter.name).Nodup)
    {args : List α} (hlen : args.length ≤ ps.length) (kw : Dict String α) :
    ps.map (fun p => ((((ps.take args.length).map Parameter.name).zip args ++
        (ps.drop args.length).filterMap (fun q => (kw.get? q.name).map (q.name, ·))).lookup
          p.name)) =
      args.map some ++ (ps.drop args.length).map (fun p => kw.get? p.name) := by
  have htnd : ((ps.take args.length).map Parameter.name).Nodup := by
    rw [List.map_take]; exact hnd.sublist (List.take_sublist _ _)
  have hdnd : ((ps.drop args.length).map Parameter.name).Nodup := by
    rw [List.map_drop]; exact hnd.sublist (List.drop_sublist _ _)
  have hdisj : ∀ p ∈ ps.drop args.length, p.name ∉ (ps.take args.length).map Parameter.name := by
    intro p hp ht
    rw [List.map_take] at ht
    have hd : p.name ∈ (ps.map Parameter.name).drop args.length := by
      rw [← List.map_drop]; exact List.mem_map_of_mem _ hp
    exact List.disjoint_take_drop hnd le_rfl ht hd
  have hfst : (((ps.take args.length).map Parameter.name).zip args).map Prod.fst =
      (ps.take args.length).map Parameter.name :=
    List.map_fst_zip _ _ (by simp [hlen])
  have hsplit : ∀ f : Parameter → Option α,
      ps.map f = (ps.take args.length).map f ++ (ps.drop args.length).map f := fun f => by
    rw [← List.map_append, List.take_append_drop]
  rw [hsplit]
  congr 1
  · rw [← map_lookup_zip htnd (show args.length = (ps.take args.length).length by simp [hlen])]
    refine List.map_congr_left fun p hp => ?_
    have hx : ((((ps.take args.length).map Parameter.name).zip args).lookup p.name).isSome := by
      rw [Dict.lookup_isSome_iff_mem_map, hfst]
      exact List.mem_map_of_mem _ hp
    rw [List.lookup_append, Option.or_of_isSome hx]
  · rw [← map_lookup_filterMap hdnd]
    refine List.map_congr_left fun p hp => ?_
    have hz : (((ps.take args.length).map Parameter.name).zip args).lookup p.name = none := by
      rw [Dict.lookup_eq_none_iff_not_mem_map, hfst]
      exact hdisj p hp
    rw [List.lookup_append, hz, Option.none_or]

end Pons.Inspect
