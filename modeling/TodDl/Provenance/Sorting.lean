/-
  Provenance records — values with their fields in order.

  `json.dumps(..., sort_keys=True)` writes the fields of an object in the order of their keys,
  so that what is read back is `PyVal.sorted` of what was written.  The checks of the verifier
  do not see the difference: the same canonical JSON (`render_sorted`), the same fields
  (`get_sorted`), and as valid (`Valid.sorted`).
-/
import TodDl.Provenance.Tamper

namespace TodDl.Provenance

/-! ## Induction on values -/

mutual

/-- Values that are not containers, lists and dicts. -/
theorem PyVal.inductionOn {P : PyVal → Prop}
    (scalar : ∀ v, (∀ l, v ≠ .list l) → (∀ d, v ≠ .dict d) → P v)
    (list : ∀ l, (∀ v ∈ l, P v) → P (.list l))
    (dict : ∀ d, (∀ p ∈ d, P p.2) → P (.dict d)) (v : PyVal) : P v := by
  match v with
  | .list l => exact list l (PyVal.inductionOnItems scalar list dict l)
  | .dict d => exact dict d (PyVal.inductionOnFields scalar list dict d)
  | .null => exact scalar _ (fun _ h => by cases h) fun _ h => by cases h
  | .bool _ => exact scalar _ (fun _ h => by cases h) fun _ h => by cases h
  | .int _ => exact scalar _ (fun _ h => by cases h) fun _ h => by cases h
  | .float _ => exact scalar _ (fun _ h => by cases h) fun _ h => by cases h
  | .str _ => exact scalar _ (fun _ h => by cases h) fun _ h => by cases h
  | .badStr _ => exact scalar _ (fun _ h => by cases h) fun _ h => by cases h
  | .other _ => exact scalar _ (fun _ h => by cases h) fun _ h => by cases h

theorem PyVal.inductionOnItems {P : PyVal → Prop}
    (scalar : ∀ v, (∀ l, v ≠ .list l) → (∀ d, v ≠ .dict d) → P v)
    (list : ∀ l, (∀ v ∈ l, P v) → P (.list l))
    (dict : ∀ d, (∀ p ∈ d, P p.2) → P (.dict d)) (l : List PyVal) : ∀ v ∈ l, P v := by
  match l with
  | [] => exact fun _ hv => by cases hv
  | v :: rest =>
    exact List.forall_mem_cons.2 ⟨PyVal.inductionOn scalar list dict v,
      PyVal.inductionOnItems scalar list dict rest⟩

theorem PyVal.inductionOnFields {P : PyVal → Prop}
    (scalar : ∀ v, (∀ l, v ≠ .list l) → (∀ d, v ≠ .dict d) → P v)
    (list : ∀ l, (∀ v ∈ l, P v) → P (.list l))
    (dict : ∀ d, (∀ p ∈ d, P p.2) → P (.dict d)) (d : List (Key × PyVal)) : ∀ p ∈ d, P p.2 := by
  match d with
  | [] => exact fun _ hp => by cases hp
  | (k, v) :: rest =>
    exact List.forall_mem_cons.2 ⟨PyVal.inductionOn scalar list dict v,
      PyVal.inductionOnFields scalar list dict rest⟩

end

/-! ## Sorted values -/

theorem sorted_scalar {v : PyVal} (hl : ∀ l, v ≠ .list l) (hd : ∀ d, v ≠ .dict d) :
    v.sorted = v := by
  cases v with
  | list l => exact absurd rfl (hl l)
  | dict d => exact absurd rfl (hd d)
  | _ => rfl

theorem sortedItems_eq (l : List PyVal) : sortedItems l = l.map PyVal.sorted := by
  induction l with
  | nil => rfl
  | cons v rest ih => rw [sortedItems, ih, List.map_cons]

theorem sorted_list (l : List PyVal) : (PyVal.list l).sorted = .list (l.map PyVal.sorted) := by
  rw [PyVal.sorted, sortedItems_eq]

/-- The fields of a sorted object are the sorted fields, in another order. -/
theorem sorted_dict_perm {d : List (Key × PyVal)} (hr : RecordableFields d) :
    ∃ d', (PyVal.dict d).sorted = .dict d' ∧ d'.Perm (d.map fun p => (p.1, p.2.sorted)) := by
  refine ⟨_, sorted_dict d, ((perm_sorted _).map _).trans (List.Perm.of_eq ?_)⟩
  rw [List.map_map]
  refine List.map_congr_left fun p hp => ?_
  obtain ⟨⟨name, hname⟩, -⟩ := recordableFields_iff.1 hr p hp
  simp only [Function.comp, hname, Key.text]

theorem recordableItems_iff {l : List PyVal} : RecordableItems l ↔ ∀ v ∈ l, Recordable v := by
  induction l with
  | nil => simp [RecordableItems]
  | cons v rest ih => rw [RecordableItems, ih, List.forall_mem_cons]

theorem decodedItems_iff {l : List PyVal} : DecodedItems l ↔ ∀ v ∈ l, Decoded v := by
  induction l with
  | nil => simp [DecodedItems]
  | cons v rest ih => rw [DecodedItems, ih, List.forall_mem_cons]

theorem Recordable.sorted {v : PyVal} (h : Recordable v) : Recordable v.sorted := by
  induction v using PyVal.inductionOn with
  | scalar v hl hd => rwa [sorted_scalar hl hd]
  | list l ih =>
    rw [Recordable, recordableItems_iff] at h
    rw [sorted_list, Recordable, recordableItems_iff, List.forall_mem_map]
    exact fun v hv => ih v hv (h v hv)
  | dict d ih =>
    rw [Recordable] at h
    obtain ⟨d', hd', hperm⟩ := sorted_dict_perm h
    rw [recordableFields_iff] at h
    rw [hd', Recordable, recordableFields_iff]
    intro p hp
    obtain ⟨q, hq, rfl⟩ := List.mem_map.1 (hperm.subset hp)
    exact ⟨(h q hq).1, ih q hq (h q hq).2⟩

theorem nestingFields_perm {d d' : List (Key × PyVal)}
    (hperm : d'.Perm (d.map fun p => (p.1, p.2.sorted)))
    (h : ∀ p ∈ d, nesting p.2.sorted = nesting p.2) : nestingFields d' = nestingFields d := by
  refine eq_of_forall_ge_iff fun n => ?_
  rw [nestingFields_le_iff, nestingFields_le_iff]
  simp only [hperm.mem_iff, List.forall_mem_map]
  exact forall₂_congr fun p hp => by rw [h p hp]

/-- Sorting does not change how deep a value nests. -/
theorem nesting_sorted {v : PyVal} (h : Recordable v) : nesting v.sorted = nesting v := by
  induction v using PyVal.inductionOn with
  | scalar v hl hd => rw [sorted_scalar hl hd]
  | list l ih =>
    rw [Recordable, recordableItems_iff] at h
    rw [sorted_list, nesting, nesting, Nat.add_right_cancel_iff]
    refine eq_of_forall_ge_iff fun n => ?_
    rw [nestingItems_le_iff, nestingItems_le_iff, List.forall_mem_map]
    exact forall₂_congr fun v hv => by rw [ih v hv (h v hv)]
  | dict d ih =>
    rw [Recordable] at h
    obtain ⟨d', hd', hperm⟩ := sorted_dict_perm h
    rw [recordableFields_iff] at h
    rw [hd', nesting, nesting, nestingFields_perm hperm fun p hp => ih p hp (h p hp).2]

theorem Decoded.sorted {v : PyVal} (hr : Recordable v) (h : Decoded v) : Decoded v.sorted :=
  decoded_loads (loads_render hr h)

/-! ## Equality -/

/-- **Python's equality is reflexive** on records. -/
theorem pyEq_refl {v : PyVal} (hr : Recordable v) (hd : Decoded v) : pyEq v v = true := by
  induction v using PyVal.inductionOn with
  | scalar v hl hd' =>
    cases v with
    | list l => exact absurd rfl (hl l)
    | dict d => exact absurd rfl (hd' d)
    | float x => exact hr.elim
    | badStr codes => exact hr.elim
    | other type => exact hr.elim
    | _ => simp [pyEq, PyVal.number]
  | list l ih =>
    rw [Recordable, recordableItems_iff] at hr
    rw [Decoded, decodedItems_iff] at hd
    have hitems : ∀ l' : List PyVal, (∀ v ∈ l', pyEq v v = true) → pyEqItems l' l' = true := by
      intro l' h
      induction l' with
      | nil => rfl
      | cons v rest ih' =>
        rw [List.forall_mem_cons] at h
        rw [pyEqItems, h.1, ih' h.2]
        rfl
    simp only [pyEq, decide_true, Bool.true_and]
    exact hitems l fun v hv => ih v hv (hr v hv) (hd v hv)
  | dict d ih =>
    rw [Recordable, recordableFields_iff] at hr
    rw [Decoded, decodedFields_iff] at hd
    simp only [pyEq, decide_true, Bool.true_and, pyEqFields_iff]
    exact fun p hp => ⟨p, find_of_mem hd.1 hp, ih p hp (hr p hp).2 (hd.2 p hp).2⟩

/-- What equals a value equals it sorted. -/
theorem pyEq_sorted_left {v c : PyVal} (hr : Recordable v) (h : pyEq v c = true) :
    pyEq v.sorted c = true := by
  induction v using PyVal.inductionOn generalizing c with
  | scalar v hl hd => rwa [sorted_scalar hl hd]
  | list l ih =>
    rw [Recordable, recordableItems_iff] at hr
    obtain ⟨l', rfl⟩ : ∃ l', c = .list l' := by
      cases c with
      | list l' => exact ⟨l', rfl⟩
      | _ => simp [pyEq, PyVal.number] at h
    simp only [pyEq, Bool.and_eq_true, decide_eq_true_eq] at h
    rw [sorted_list]
    simp only [pyEq, Bool.and_eq_true, decide_eq_true_eq, List.length_map]
    refine ⟨h.1, ?_⟩
    have hitems : ∀ a b : List PyVal, (∀ v ∈ a, v ∈ l) → pyEqItems a b = true →
        pyEqItems (a.map PyVal.sorted) b = true := by
      intro a
      induction a with
      | nil => exact fun b _ _ => by simp [pyEqItems]
      | cons v rest ih' =>
        intro b hsub hab
        cases b with
        | nil => simp [pyEqItems]
        | cons w b =>
          rw [pyEqItems, Bool.and_eq_true] at hab
          rw [List.forall_mem_cons] at hsub
          rw [List.map_cons, pyEqItems, ih v hsub.1 (hr v hsub.1) hab.1, ih' b hsub.2 hab.2]
          rfl
    exact hitems l l' (fun _ => id) h.2
  | dict d ih =>
    rw [Recordable] at hr
    obtain ⟨d', hd', hperm⟩ := sorted_dict_perm hr
    obtain ⟨c', rfl⟩ : ∃ c', c = .dict c' := by
      cases c with
      | dict c' => exact ⟨c', rfl⟩
      | _ => simp [pyEq, PyVal.number] at h
    rw [recordableFields_iff] at hr
    rw [hd']
    simp only [pyEq, Bool.and_eq_true, decide_eq_true_eq, pyEqFields_iff] at h ⊢
    refine ⟨by rw [hperm.length_eq, List.length_map, h.1], fun p hp => ?_⟩
    obtain ⟨q, hq, rfl⟩ := List.mem_map.1 (hperm.subset hp)
    obtain ⟨r, hfind, heq⟩ := h.2 q hq
    exact ⟨r, hfind, ih q hq (hr q hq).2 heq⟩

theorem pyMem_sorted_left {v : PyVal} {vs : List PyVal} (hr : Recordable v)
    (h : pyMem v vs = true) : pyMem v.sorted vs = true := by
  obtain ⟨c, hc, heq⟩ := List.any_eq_true.1 h
  exact List.any_eq_true.2 ⟨c, hc, pyEq_sorted_left hr heq⟩

/-! ## Fields -/

section
variable {d d' : List (Key × PyVal)}

theorem keys_sorted (hperm : d'.Perm (d.map fun p => (p.1, p.2.sorted))) :
    (d'.map (·.1)).Perm (d.map (·.1)) := by
  have h := hperm.map Prod.fst
  rwa [List.map_map] at h

/-- A sorted object has the same fields, sorted. -/
theorem lookup_sorted (hnodup : (d.map (·.1)).Nodup)
    (hperm : d'.Perm (d.map fun p => (p.1, p.2.sorted))) (name : String) :
    lookup name d' = (lookup name d).map PyVal.sorted := by
  have hnodup' : (d'.map (·.1)).Nodup := (keys_sorted hperm).nodup_iff.2 hnodup
  cases h : lookup name d with
  | none =>
    rw [Option.map_none, ← Option.not_isSome_iff_eq_none, lookup_isSome]
    intro hmem
    have hsome := lookup_isSome.2 ((keys_sorted hperm).subset hmem)
    rw [h] at hsome
    cases hsome
  | some v =>
    rw [Option.map_some, lookup_eq_some_iff hnodup', hperm.mem_iff]
    exact List.mem_map.2 ⟨_, (lookup_eq_some_iff hnodup).1 h, rfl⟩

theorem get_sorted (hr : RecordableFields d) (hnodup : (d.map (·.1)).Nodup) (name : String) :
    ((PyVal.dict d).sorted).get name = ((PyVal.dict d).get name).sorted := by
  obtain ⟨d', hd', hperm⟩ := sorted_dict_perm hr
  rw [hd', PyVal.get, PyVal.get, PyVal.items, PyVal.items, lookup_sorted hnodup hperm]
  cases lookup name d <;> rfl

/-- The text of an object depends on its fields alone, not on their order. -/
theorem render_dict_perm (hr : RecordableFields d) (hnodup : (d.map (·.1)).Nodup)
    (hperm : d.Perm d') : render (.dict d) = render (.dict d') := by
  rw [render_dict, render_dict, textFields, textFields,
    sorted_of_perm (hperm.map fun p => (p.1.text, p.2)) (nodup_texts hnodup hr)]

theorem render_dict_congr (f : PyVal → PyVal) (h : ∀ p ∈ d, render (f p.2) = render p.2) :
    render (.dict (d.map fun p => (p.1, f p.2))) = render (.dict d) := by
  rw [render, render, renderFields_eq, renderFields_eq, List.map_map]
  have hfields : d.map ((fun p : Key × PyVal => (p.1.text, render p.2)) ∘ fun p => (p.1, f p.2)) =
      d.map fun p => (p.1.text, render p.2) :=
    List.map_congr_left fun p hp => by rw [Function.comp, h p hp]
  rw [hfields]

end

/-- **Sorting the fields does not change the canonical text.** -/
theorem render_sorted {v : PyVal} (hr : Recordable v) (hd : Decoded v) :
    render v.sorted = render v := by
  induction v using PyVal.inductionOn with
  | scalar v hl hd' => rw [sorted_scalar hl hd']
  | list l ih =>
    rw [Recordable, recordableItems_iff] at hr
    rw [Decoded, decodedItems_iff] at hd
    have hitems : ∀ a : List PyVal, (∀ v ∈ a, render v.sorted = render v) →
        renderItems (a.map PyVal.sorted) = renderItems a := by
      intro a h
      induction a with
      | nil => rfl
      | cons v rest ih' =>
        rw [List.forall_mem_cons] at h
        rw [List.map_cons, renderItems, renderItems, h.1, ih' h.2]
    rw [sorted_list, render, render, hitems l fun v hv => ih v hv (hr v hv) (hd v hv)]
  | dict d ih =>
    have hrs : Recordable (.dict d) := hr
    have hds : Decoded (.dict d) := hd
    rw [Recordable] at hr
    obtain ⟨d', hd', hperm⟩ := sorted_dict_perm hr
    rw [recordableFields_iff] at hr
    rw [Decoded, decodedFields_iff] at hd
    have hr' : Recordable (.dict d') := hd' ▸ hrs.sorted
    have hnodup' : Decoded (.dict d') := hd' ▸ hds.sorted hrs
    rw [Recordable] at hr'
    rw [Decoded] at hnodup'
    rw [hd', render_dict_perm hr' hnodup'.1 hperm]
    exact render_dict_congr _ fun p hp => ih p hp (hr p hp).2 (hd.2 p hp).2

/-- The fields that are kept of a sorted object are the sorted ones of those kept. -/
theorem perm_filter_sorted {d d' : List (Key × PyVal)} (hr : Recordable (.dict d))
    (hd' : (PyVal.dict d).sorted = .dict d') (keep : Key → Bool) :
    (d'.filter fun p => keep p.1).Perm
      ((d.filter fun p => keep p.1).map fun p => (p.1, p.2.sorted)) := by
  obtain ⟨d'', hd'', hperm⟩ := sorted_dict_perm hr
  obtain rfl : d'' = d' := PyVal.dict.inj (hd''.symm.trans hd')
  refine (hperm.filter _).trans (List.Perm.of_eq ?_)
  rw [List.filter_map]
  rfl

theorem nesting_filter_sorted {d d' : List (Key × PyVal)} (hr : Recordable (.dict d))
    (hd' : (PyVal.dict d).sorted = .dict d') (keep : Key → Bool) :
    nesting (.dict (d'.filter fun p => keep p.1)) =
      nesting (.dict (d.filter fun p => keep p.1)) := by
  rw [nesting, nesting, nestingFields_perm (perm_filter_sorted hr hd' keep)]
  exact fun p hp => nesting_sorted (recordableFields_iff.1 hr p (List.mem_filter.1 hp).1).2

/-- The parts of an object without a field render alike. -/
theorem render_filter_sorted {d d' : List (Key × PyVal)} (hr : Recordable (.dict d))
    (hd : Decoded (.dict d)) (hd' : (PyVal.dict d).sorted = .dict d') (keep : Key → Bool) :
    render (.dict (d'.filter fun p => keep p.1)) = render (.dict (d.filter fun p => keep p.1)) := by
  have hr' : Recordable (.dict d') := hd' ▸ hr.sorted
  have hdec' : Decoded (.dict d') := hd' ▸ hd.sorted hr
  have hrf : RecordableFields (d'.filter fun p => keep p.1) :=
    recordableFields_iff.2 fun p hp => recordableFields_iff.1 hr' p (List.mem_filter.1 hp).1
  have hdf := hdec'.filter fun p => keep p.1
  rw [Decoded] at hdf
  rw [render_dict_perm hrf hdf.1 (perm_filter_sorted hr hd' keep)]
  refine render_dict_congr _ fun p hp => render_sorted ?_ ?_
  · exact (recordableFields_iff.1 hr p (List.mem_filter.1 hp).1).2
  · rw [Decoded, decodedFields_iff] at hd
    exact (hd.2 p (List.mem_filter.1 hp).1).2

/-! ## Schemas -/

/-- The keywords on texts and numbers say nothing of a container. -/
theorem Schema.Admits.container {s : Schema} {v w : PyVal} (h : s.Admits v)
    (hconst : ∀ c, s.const = some c → pyEq w c = true)
    (henum : ∀ vs, s.enum = some vs → pyMem w vs = true) (htype : ∀ t, hasType w t = hasType v t)
    (hcodes : w.codes = none) (hint : ∀ i, w ≠ .int i) : s.Admits w where
  const := hconst
  enum := henum
  types ts hts := by
    obtain ⟨t, ht, hv⟩ := h.types ts hts
    exact ⟨t, ht, (htype t).trans hv⟩
  pattern p _ := by
    refine ⟨fun codes hw => ?_, fun t hw => ?_⟩ <;> rw [hw] at hcodes <;> cases hcodes
  minLength codes hw := by rw [hcodes] at hw; cases hw
  minimum low i _ hw := absurd hw (hint i)
  maximum high i _ hw := absurd hw (hint i)

theorem Schema.Admits.sorted {s : Schema} {v : PyVal} (hr : Recordable v) (h : s.Admits v) :
    s.Admits v.sorted := by
  have hconst : ∀ c, s.const = some c → pyEq v.sorted c = true :=
    fun c hc => pyEq_sorted_left hr (h.const c hc)
  have henum : ∀ vs, s.enum = some vs → pyMem v.sorted vs = true :=
    fun vs hvs => pyMem_sorted_left hr (h.enum vs hvs)
  cases v with
  | list l =>
    rw [sorted_list] at hconst henum ⊢
    exact h.container hconst henum (fun t => by cases t <;> rfl) rfl fun i hi => by cases hi
  | dict d =>
    rw [sorted_dict] at hconst henum ⊢
    exact h.container hconst henum (fun t => by cases t <;> rfl) rfl fun i hi => by cases hi
  | _ => exact h

theorem validItems_iff {l : List PyVal} {t : Schema} : ValidItems l t ↔ ∀ v ∈ l, Valid v t := by
  induction l with
  | nil => simp [ValidItems]
  | cons v rest ih => rw [ValidItems, ih, List.forall_mem_cons]

theorem ValidField.imp {s : Schema} {k : Key} {v w : PyVal} (h : ∀ t, Valid v t → Valid w t)
    (hv : ValidField s k v) : ValidField s k w := by
  unfold ValidField at hv ⊢
  cases hp : s.property k with
  | some t =>
    rw [hp] at hv
    exact h t hv
  | none =>
    rw [hp] at hv
    cases hx : s.extra with
    | forbidden => rw [hx] at hv; exact hv.elim
    | schema t => rw [hx] at hv; exact h t hv
    | allowed => trivial

/-- **Sorting the fields does not make a value invalid.** -/
theorem Valid.sorted {v : PyVal} {s : Schema} (hr : Recordable v) (h : Valid v s) :
    Valid v.sorted s := by
  induction v using PyVal.inductionOn generalizing s with
  | scalar v hl hd => rwa [sorted_scalar hl hd]
  | list l ih =>
    have hadmits := (h.admits).sorted hr
    rw [Recordable, recordableItems_iff] at hr
    rw [sorted_list] at hadmits ⊢
    rw [Valid] at h ⊢
    refine ⟨hadmits, fun t ht => ?_⟩
    have hitems := h.2 t ht
    rw [validItems_iff] at hitems ⊢
    rw [List.forall_mem_map]
    exact fun v hv => ih v hv (hr v hv) (hitems v hv)
  | dict d ih =>
    have hadmits := (h.admits).sorted hr
    rw [Recordable] at hr
    obtain ⟨d', hd', hperm⟩ := sorted_dict_perm hr
    rw [recordableFields_iff] at hr
    rw [hd'] at hadmits ⊢
    rw [Valid] at h ⊢
    refine ⟨hadmits, fun name hname => ?_, validFields_iff.2 fun p hp => ?_⟩
    · rw [lookup_isSome, (keys_sorted hperm).mem_iff, ← lookup_isSome]
      exact h.2.1 name hname
    · obtain ⟨q, hq, rfl⟩ := List.mem_map.1 (hperm.subset hp)
      exact (validFields_iff.1 h.2.2 q hq).imp fun t ht => ih q hq (hr q hq).2 ht

end TodDl.Provenance
