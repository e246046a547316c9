/-
  Provenance records — lines that the verifier accepts.

  A `Genuine` line is a faultless event that can be read back from its text.  It stays genuine
  when its fields are put in order (`Genuine.sorted`), and a chain of genuine lines with numbers
  and IDs of their own gives no finding (`checkLines_genuine`).
-/
import TodDl.Provenance.Emitted

namespace TodDl.Provenance

/-! ## Fields of a sorted object -/

/-- Sorting changes containers only. -/
theorem sorted_eq_scalar {v w : PyVal} (hl : ∀ l, w ≠ .list l) (hd : ∀ d, w ≠ .dict d) :
    v.sorted = w ↔ v = w := by
  constructor
  · rintro rfl
    cases v with
    | list l => exact absurd (sorted_list l) (hl _)
    | dict d => exact absurd (sorted_dict d) (hd _)
    | _ => rfl
  · rintro rfl
    exact sorted_scalar hl hd

@[simp] theorem sorted_eq_str {v : PyVal} {s : String} : v.sorted = .str s ↔ v = .str s :=
  sorted_eq_scalar (fun _ h => by cases h) (fun _ h => by cases h)

@[simp] theorem sorted_eq_int {v : PyVal} {i : ℤ} : v.sorted = .int i ↔ v = .int i :=
  sorted_eq_scalar (fun _ h => by cases h) (fun _ h => by cases h)

@[simp] theorem sorted_eq_bool {v : PyVal} {b : Bool} : v.sorted = .bool b ↔ v = .bool b :=
  sorted_eq_scalar (fun _ h => by cases h) (fun _ h => by cases h)

@[simp] theorem sorted_eq_null {v : PyVal} : v.sorted = .null ↔ v = .null :=
  sorted_eq_scalar (fun _ h => by cases h) (fun _ h => by cases h)

theorem sorted_codes (v : PyVal) : v.sorted.codes = v.codes := by
  cases v with
  | list l => rw [sorted_list]; rfl
  | dict d => rw [sorted_dict]; rfl
  | _ => rfl

theorem IsLink.sorted {v : PyVal} (h : IsLink v) : v.sorted = v := by
  rcases h with rfl | ⟨d, rfl⟩ <;> rfl

theorem Recordable.lookup {items : List (Key × PyVal)} {name : String} {v : PyVal}
    (h : Recordable (.dict items)) (hv : lookup name items = some v) : Recordable v := by
  rw [Recordable, recordableFields_iff] at h
  obtain ⟨p, hp, rfl⟩ := Option.map_eq_some_iff.1 hv
  exact (h p (List.mem_of_find?_eq_some hp)).2

theorem Decoded.lookup {items : List (Key × PyVal)} {name : String} {v : PyVal}
    (h : Decoded (.dict items)) (hv : lookup name items = some v) : Decoded v := by
  rw [Decoded, decodedFields_iff] at h
  obtain ⟨p, hp, rfl⟩ := Option.map_eq_some_iff.1 hv
  exact (h.2 p (List.mem_of_find?_eq_some hp)).2

theorem Decoded.nodup {items : List (Key × PyVal)} (h : Decoded (.dict items)) :
    (items.map (·.1)).Nodup := by
  rw [Decoded] at h
  exact h.1

theorem get_sorted_dict {items : List (Key × PyVal)} (hr : Recordable (.dict items))
    (hd : Decoded (.dict items)) (name : String) :
    ((PyVal.dict items).sorted).get name = ((PyVal.dict items).get name).sorted :=
  get_sorted (by rwa [Recordable] at hr) hd.nodup name

theorem validationOk_iff {check : PyVal} : validationOk check = true ↔
    ∀ d, check = .dict d → check.get "available" = .bool false →
      check.get "compared" = .bool false ∧ check.get "value" = .null := by
  cases check with
  | dict d =>
    simp only [validationOk, PyVal.dict.injEq, forall_eq']
    cases (PyVal.dict d).get "available" with
    | bool b =>
      cases b with
      | true => simp
      | false =>
        simp only [Bool.and_eq_true, true_imp_iff]
        refine and_congr ?_ ?_
        · cases (PyVal.dict d).get "compared" with
          | bool b => cases b <;> simp
          | _ => simp
        · cases (PyVal.dict d).get "value" <;> simp
    | _ => simp
  | _ => simp [validationOk]

/-- The check of a validation object does not see the order of its fields. -/
theorem validationOk_sorted {v : PyVal} (hr : Recordable v) (hd : Decoded v)
    (h : validationOk v = true) : validationOk v.sorted = true := by
  rw [validationOk_iff] at h ⊢
  intro d' hd' havailable
  obtain ⟨d, rfl⟩ : ∃ d, v = .dict d := by
    cases v with
    | dict d => exact ⟨d, rfl⟩
    | list l => rw [sorted_list] at hd'; cases hd'
    | _ => cases hd'
  rw [get_sorted_dict hr hd] at havailable ⊢
  rw [get_sorted_dict hr hd]
  obtain ⟨hcompared, hvalue⟩ := h d rfl (sorted_eq_bool.1 havailable)
  exact ⟨sorted_eq_bool.2 hcompared, sorted_eq_null.2 hvalue⟩

/-! ## One line -/

/-- The fields of a valid event are those of its type. -/
theorem keys_of_valid {items : List (Key × PyVal)} {eventType : String}
    {rules : List (String × Schema)} (h : Valid (.dict items) (eventBranch eventType rules)) (k : Key) :
    k ∈ items.map (·.1) ↔ ∃ name ∈ commonFields ++ rules.map (·.1), k = .str name := by
  constructor
  · intro hk
    obtain ⟨p, hp, rfl⟩ := List.mem_map.1 hk
    have hfield := h.fields p hp
    rw [ValidField] at hfield
    cases hkey : p.1 with
    | str name =>
      refine ⟨name, ?_, rfl⟩
      cases hprop : (eventBranch eventType rules).property p.1 with
      | none => rw [hprop] at hfield; exact hfield.elim
      | some t =>
        rw [hkey, Schema.property, Option.map_eq_some_iff] at hprop
        obtain ⟨q, hq, -⟩ := hprop
        have hname : q.1 = name := by simpa using List.find?_some hq
        have hmem : q.1 ∈ (baseProperties eventType ++ rules).map (·.1) :=
          List.mem_map_of_mem (List.mem_of_find?_eq_some hq)
        rw [List.map_append] at hmem
        exact hname ▸ hmem
    | _ => rw [hkey] at hfield; exact hfield.elim
  · rintro ⟨name, hname, rfl⟩
    rw [Valid] at h
    exact lookup_isSome.1 (h.2.1 name hname)

/-- A digest is in the format of a digest, and nothing else is. -/
theorem fullMatch_hexdigest (data : List UInt8) :
    Pattern.hex.fullMatch (Lib.Sha256.hexdigest data).toList = true := by
  have hhex : ∀ c ∈ "0123456789abcdef".toList, isHex c = true := List.all_eq_true.1 rfl
  have hlength : (Lib.Sha256.hexdigest data).toList.length = 64 := Lib.Sha256.length_hexdigest data
  rw [Pattern.fullMatch, decide_eq_true_iff]
  exact takeClass_all hlength fun c hc => hhex c (Lib.Sha256.mem_hexdigest hc)

/-- A faultless event that JSON gives back. -/
structure Genuine (depth : ℕ) (runId sessionId : String) (event : PyVal) : Prop
    extends Faultless depth runId sessionId event where
  decoded : Decoded event

section
variable {depth : ℕ} {runId sessionId : String} {event : PyVal}

theorem Genuine.recordable (h : Genuine depth runId sessionId event) : Recordable event := by
  obtain ⟨items, eventType, rules, hitems, -, -, -, hr⟩ := h.conforms
  cases hitems
  exact hr

theorem Genuine.exists_dict (h : Genuine depth runId sessionId event) :
    ∃ items, event = .dict items := by
  obtain ⟨items, eventType, rules, hitems, -⟩ := h.conforms
  exact ⟨items, Option.some.inj hitems⟩

theorem Genuine.get_sorted (h : Genuine depth runId sessionId event) (name : String) :
    event.sorted.get name = (event.get name).sorted := by
  obtain ⟨items, rfl⟩ := h.exists_dict
  exact get_sorted_dict h.recordable h.decoded name

theorem Recordable.get {v : PyVal} (h : Recordable v) (name : String) : Recordable (v.get name) := by
  cases v with
  | dict items =>
    rw [PyVal.get, PyVal.items]
    cases hv : TodDl.Provenance.lookup name items with
    | none => exact trivial
    | some u => exact h.lookup hv
  | _ => exact trivial

theorem Decoded.get {v : PyVal} (h : Decoded v) (name : String) : Decoded (v.get name) := by
  cases v with
  | dict items =>
    rw [PyVal.get, PyVal.items]
    cases hv : TodDl.Provenance.lookup name items with
    | none => exact trivial
    | some u => exact h.lookup hv
  | _ => exact trivial

/-- **A genuine line stays genuine** when its fields are put in order. -/
theorem Genuine.sorted (h : Genuine depth runId sessionId event) :
    Genuine depth runId sessionId event.sorted := by
  have hget := h.get_sorted
  have hr := h.recordable
  have hd := h.decoded
  obtain ⟨items, rfl⟩ := h.exists_dict
  obtain ⟨items', hitems', -⟩ := sorted_dict_perm (d := items) (by rwa [Recordable] at hr)
  refine ⟨⟨?_, ?_, ?_, ?_, fun htype name hname => ?_⟩, hd.sorted hr⟩
  · obtain ⟨_, eventType, rules, hitems, hrules, -, hvalid, -⟩ := h.conforms
    cases hitems
    have hvalid' := hvalid.sorted hr
    have hr' := hr.sorted
    rw [hitems'] at hvalid' hr' ⊢
    exact ⟨items', eventType, rules, rfl, hrules, keys_of_valid hvalid', hvalid', hr'⟩
  · rw [hget, h.ofRun]; rfl
  · rw [hget, h.ofSession]; rfl
  · obtain ⟨d, hdigest, hhex, hunsealed⟩ := h.digest
    refine ⟨d, by rw [hget, hdigest]; rfl, hhex, ?_⟩
    rw [hitems', PyVal.items, unsealedDigest, digest_eq_ok,
      render_filter_sorted hr hd hitems' fun k => k ≠ .str "event_digest",
      nesting_filter_sorted hr hitems' fun k => k ≠ .str "event_digest"]
    obtain ⟨-, hnesting, hhash⟩ := digest_eq_ok.1 hunsealed
    have hr' := hr.sorted
    rw [hitems', Recordable, recordableFields_iff] at hr'
    refine ⟨?_, hnesting, hhash⟩
    rw [Recordable, recordableFields_iff]
    exact fun p hp => hr' p (List.mem_filter.1 hp).1
  · rw [hget] at htype ⊢
    exact validationOk_sorted (hr.get name) (hd.get name)
      (h.validation (sorted_eq_str.1 htype) name hname)

/-- **A chain of genuine lines** is accepted, whatever the order of their fields. -/
theorem checkLines_genuine {events : List PyVal} (h : ∀ e ∈ events, Genuine depth runId sessionId e)
    {last : PyVal}
    (hsequence : (events.map fun e => e.get "sequence") =
      (List.range events.length).map fun (i : ℕ) => PyVal.int (i + 1))
    (hlinked : Lib.Linked (fun e : PyVal => e.get "previous_digest") (fun e => e.get "event_digest")
      .null events last)
    (hids : (events.map fun e => e.get "event_id").Nodup) :
    checkLines depth runId sessionId (events.map fun e => some e.sorted) 1 .null [] =
      .ok (last, []) := by
  -- sorting keeps the three fields that the lines are chained by
  have hid : ∀ e ∈ events, e.sorted.get "event_id" = e.get "event_id" := fun e he => by
    obtain ⟨id, hid⟩ := (h e he).conforms.eventId
    rw [(h e he).get_sorted, hid]; rfl
  have hnumber : ∀ e ∈ events, e.sorted.get "sequence" = e.get "sequence" := fun e he => by
    obtain ⟨i, hi⟩ := (h e he).conforms.sequence
    rw [(h e he).get_sorted, hi]; rfl
  have hdigest : ∀ e ∈ events, e.sorted.get "event_digest" = e.get "event_digest" := fun e he => by
    obtain ⟨d, hd, -⟩ := (h e he).digest
    rw [(h e he).get_sorted, hd]; rfl
  have hprevious : ∀ e ∈ events, e.sorted.get "previous_digest" = e.get "previous_digest" :=
    fun e he => by
      obtain ⟨v, hv, hlink⟩ := (h e he).conforms.previous
      have hget : e.get "previous_digest" = v := by rw [PyVal.get, hv]; rfl
      rw [(h e he).get_sorted, hget, hlink.sorted]
  refine (checkLines_nil_iff (.inl rfl)).2 ⟨events.map PyVal.sorted, by rw [List.map_map]; rfl, ?_,
    ?_, ?_, ?_, by simp⟩
  · rw [List.forall_mem_map]
    exact fun e he => (h e he).sorted.toFaultless
  · rw [List.map_map, List.length_map]
    exact (List.map_congr_left hnumber).trans hsequence
  · exact (Lib.linked_map hprevious hdigest).2 hlinked
  · rw [List.map_map]
    exact (List.map_congr_left hid).symm ▸ hids

end

end TodDl.Provenance
