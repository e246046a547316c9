/-
  Provenance records — the lines the verifier has nothing to say about.

  A `Faultless` event passes every check that looks at the event alone.  In a `Chained` list
  of events the numbers count up, each event names the digest of the one before it, and no ID
  comes twice.

  * `checkEvent_nil_iff`: one event gives no finding exactly if it is faultless and in its
    place;
  * `checkLines_nil_iff`: the loop over the lines ends without a finding exactly on a chain
    of faultless events.
-/
import TodDl.Lib.Linked
import TodDl.Provenance.Reports

namespace TodDl.Provenance

/-- A line that is an object with exactly the fields and the values the checker asks for in
    its event type, without a float and without a lone surrogate. -/
def Conforms (line : Option PyVal) : Prop :=
  ∃ items eventType rules, line = some (.dict items) ∧ (eventType, rules) ∈ eventFieldRules ∧
    (∀ k, k ∈ items.map (·.1) ↔ ∃ name ∈ commonFields ++ rules.map (·.1), k = .str name) ∧
    Valid (.dict items) (eventBranch eventType rules) ∧ Recordable (.dict items)

/-- What `check_event` looks at in an event alone. -/
structure Faultless (depth : ℕ) (runId sessionId : String) (event : PyVal) : Prop where
  conforms : Conforms (some event)
  ofRun : event.get "run_id" = .str runId
  ofSession : event.get "session_id" = .str sessionId
  digest : ∃ d, event.get "event_digest" = .str d ∧ Pattern.hex.fullMatch d.toList = true ∧
    unsealedDigest depth event.items = .ok d
  validation : event.get "event_type" = .str "finalized" →
    ∀ name ∈ validationNames, validationOk (event.get name) = true

/-! ## Fields of an event -/

theorem eventType_rules {eventType : String} (h : eventType ∈ eventTypes) :
    ∃ rules, (eventType, rules) ∈ eventFieldRules ∧
      eventFields eventType = rules.map (·.1) ∧
      eventSchema eventType = .ok (eventBranch eventType rules) := by
  obtain ⟨rules, hfind⟩ : ∃ rules,
      (eventFieldRules.find? fun p => p.1 = eventType) = some (eventType, rules) := by
    simp only [eventTypes, List.mem_cons, List.not_mem_nil, or_false] at h
    rcases h with rfl | rfl | rfl | rfl | rfl | rfl <;> exact ⟨_, rfl⟩
  exact ⟨rules, List.mem_of_find?_eq_some hfind, by simp [eventFields, hfind],
    by simp [eventSchema, hfind]⟩

/-- The digest of an event is text, so it does not matter for what can be recorded. -/
theorem recordable_of_unsealed {items : List (Key × PyVal)} {eventType : String}
    {rules : List (String × Schema)} (hvalid : Valid (.dict items) (eventBranch eventType rules))
    (h : Recordable (.dict (items.filter fun p => p.1 ≠ .str "event_digest"))) :
    Recordable (.dict items) := by
  rw [Recordable, recordableFields_iff] at h ⊢
  intro p hp
  by_cases hk : p.1 = .str "event_digest"
  · refine ⟨⟨_, hk⟩, ?_⟩
    have hfield := hvalid.fields p hp
    have hproperty :
        (eventBranch eventType rules).property (.str "event_digest") = some hexSchema := rfl
    rw [ValidField, hk, hproperty] at hfield
    obtain ⟨t, ht, htype⟩ := hfield.admits.types [.string] rfl
    obtain rfl := List.mem_singleton.1 ht
    have htext := (hfield.admits.pattern .hex rfl).1
    cases hv : p.2 with
    | str text => rw [Recordable]; trivial
    | badStr codes => exact absurd hv (htext codes)
    | _ => rw [hv] at htype; cases htype
  · exact h p (List.mem_filter.2 ⟨hp, by simpa using hk⟩)

/-- The type of a rule is known, and the rule is the one of that type. -/
theorem rules_eventType {eventType : String} {rules : List (String × Schema)}
    (h : (eventType, rules) ∈ eventFieldRules) : eventType ∈ eventTypes ∧
      eventFields eventType = rules.map (·.1) ∧
      eventSchema eventType = .ok (eventBranch eventType rules) := by
  simp only [eventFieldRules, List.mem_cons, Prod.mk.injEq, List.not_mem_nil, or_false] at h
  rcases h with ⟨rfl, rfl⟩ | ⟨rfl, rfl⟩ | ⟨rfl, rfl⟩ | ⟨rfl, rfl⟩ | ⟨rfl, rfl⟩ | ⟨rfl, rfl⟩ <;>
    exact ⟨by simp [eventTypes], rfl, rfl⟩

section
variable {event : PyVal} {items : List (Key × PyVal)} {eventType : String}
  {rules : List (String × Schema)}

/-- A common field of a conforming event is there and satisfies its schema. -/
theorem valid_common (hkeys : ∀ k, k ∈ items.map (·.1) ↔
      ∃ name ∈ commonFields ++ rules.map (·.1), k = .str name)
    (hvalid : Valid (.dict items) (eventBranch eventType rules)) {name : String} {t : Schema}
    (hname : name ∈ commonFields)
    (ht : (eventBranch eventType rules).property (.str name) = some t) :
    lookup name items = some ((PyVal.dict items).get name) ∧
      Valid ((PyVal.dict items).get name) t := by
  obtain ⟨v, hv⟩ := Option.isSome_iff_exists.1 (lookup_isSome.2
    ((hkeys (.str name)).2 ⟨name, List.mem_append_left _ hname, rfl⟩))
  have hget : (PyVal.dict items).get name = v := by rw [PyVal.get, PyVal.items, hv]; rfl
  rw [hget]
  exact ⟨hv, hvalid.field hv ht⟩

/-- Text is the only type of a field that a pattern is for. -/
theorem Valid.exists_str {v : PyVal} {p : Pattern} (h : Valid v (.ofPattern [.string] p)) :
    ∃ s, v = .str s := by
  obtain ⟨t, ht, htype⟩ := h.admits.types [.string] rfl
  obtain rfl := List.mem_singleton.1 ht
  have htext := (h.admits.pattern p rfl).1
  cases v with
  | str s => exact ⟨s, rfl⟩
  | badStr codes => exact absurd rfl (htext codes)
  | _ => cases htype

theorem Valid.exists_int {v : PyVal} {low : ℤ} {high : Option ℤ}
    (h : Valid v (.ofRange [.integer] low high)) : ∃ i, v = .int i := by
  obtain ⟨t, ht, htype⟩ := h.admits.types [.integer] rfl
  obtain rfl := List.mem_singleton.1 ht
  cases v with
  | int i => exact ⟨i, rfl⟩
  | _ => cases htype

theorem Conforms.eventId (h : Conforms (some event)) : ∃ id, event.get "event_id" = .str id := by
  obtain ⟨items, eventType, rules, hitems, -, hkeys, hvalid, -⟩ := h
  cases hitems
  exact (valid_common hkeys hvalid (t := uuidSchema) (by simp [commonFields]) rfl).2.exists_str

theorem Conforms.sequence (h : Conforms (some event)) : ∃ i, event.get "sequence" = .int i := by
  obtain ⟨items, eventType, rules, hitems, -, hkeys, hvalid, -⟩ := h
  cases hitems
  exact (valid_common hkeys hvalid (t := .ofRange [.integer] 1 none) (by simp [commonFields]) rfl).2
    |>.exists_int

end

/-! ## One event -/

section
variable {items : List (Key × PyVal)} {eventType : String} {rules : List (String × Schema)}
  {depth : ℕ}

/-- The check for unknown and for missing fields. -/
theorem keysChecked_iff {names : List String} :
    ((items.map (·.1)).all (fun k => k ∈ names.map Key.str) &&
      names.all fun name => (lookup name items).isSome) = true ↔
      ∀ k, k ∈ items.map (·.1) ↔ ∃ name ∈ names, k = .str name := by
  rw [Bool.and_eq_true, List.all_eq_true, List.all_eq_true]
  constructor
  · rintro ⟨hknown, hpresent⟩ k
    constructor
    · intro hk
      obtain ⟨name, hname, rfl⟩ := List.mem_map.1 (of_decide_eq_true (hknown k hk))
      exact ⟨name, hname, rfl⟩
    · rintro ⟨name, hname, rfl⟩
      exact lookup_isSome.1 (hpresent name hname)
  · intro hkeys
    refine ⟨fun k hk => ?_, fun name hname => lookup_isSome.2 ((hkeys _).2 ⟨name, hname, rfl⟩)⟩
    obtain ⟨name, hname, rfl⟩ := (hkeys k).1 hk
    exact decide_eq_true (List.mem_map_of_mem hname)

/-- The checks of a known type, as what the event has to be. -/
theorem typeFindings_eq_nil (hrules : (eventType, rules) ∈ eventFieldRules) :
    typeFindings (.dict items) eventType = [] ↔
      (∀ k, k ∈ items.map (·.1) ↔ ∃ name ∈ commonFields ++ rules.map (·.1), k = .str name) ∧
      Valid (.dict items) (eventBranch eventType rules) ∧
      (eventType = "finalized" → ∀ name ∈ validationNames,
        validationOk ((PyVal.dict items).get name) = true) := by
  obtain ⟨-, hfields, hschema⟩ := rules_eventType hrules
  rw [typeFindings, List.append_eq_nil_iff, List.append_eq_nil_iff, and_assoc, report_eq_nil, hfields,
    hschema, List.map_eq_nil_iff, schemaErrors_eq_nil, keysChecked_iff]
  refine and_congr_right fun _ => and_congr_right fun _ => ?_
  split
  · next hfinal => simp only [List.flatMap_eq_nil_iff, report_eq_nil, hfinal, true_imp_iff]
  · next hother => simp [hother]

theorem eventTypeFindings_eq_nil : eventTypeFindings (.dict items) = [] ↔
    ∃ eventType rules, (PyVal.dict items).get "event_type" = .str eventType ∧
      (eventType, rules) ∈ eventFieldRules ∧ typeFindings (.dict items) eventType = [] := by
  rw [eventTypeFindings]
  constructor
  · cases (PyVal.dict items).get "event_type" with
    | str t =>
      dsimp only
      split
      · next ht =>
        obtain ⟨rules, hrules, -⟩ := eventType_rules ht
        exact fun h => ⟨t, rules, rfl, hrules, h⟩
      · nofun
    | _ => nofun
  · rintro ⟨eventType, rules, hget, hrules, h⟩
    rw [hget]
    simp only [if_pos (rules_eventType hrules).1]
    exact h

theorem digestFindings_eq_nil {v : PyVal} : digestFindings depth items v = .ok [] ↔
    ∃ d, v = .str d ∧ Pattern.hex.fullMatch d.toList = true ∧
      unsealedDigest depth items = .ok d := by
  cases v with
  | str d =>
    simp only [digestFindings, PyVal.str.injEq, exists_eq_left']
    split
    · next hhex =>
      simp only [map_eq_ok, report_eq_nil, decide_eq_true_iff, hhex, true_and]
      constructor
      · rintro ⟨expected, h, rfl⟩
        exact h
      · exact fun h => ⟨d, h, rfl⟩
    · next hhex => simp [hhex]
  | _ => simp [digestFindings]

variable {runId sessionId : String} {event previous : PyVal} {n : ℕ} {seen : List PyVal}

/-- **One event without findings**: it is faultless and in its place. -/
theorem checkEvent_nil_iff (hlink : IsLink previous) {c : Checked} :
    checkEvent depth event runId sessionId n previous seen = .ok c ∧ c.findings = [] ↔
      (Faultless depth runId sessionId event ∧ event.get "sequence" = .int n ∧
        event.get "previous_digest" = previous ∧ event.get "event_id" ∉ seen) ∧
      c = ⟨event.get "event_digest", event.get "event_id" :: seen, []⟩ := by
  constructor
  · rintro ⟨h, hnil⟩
    cases event with
    | dict items =>
      simp only [checkEvent] at h
      split at h
      · obtain ⟨digested, hdigested, rfl⟩ := map_eq_ok.1 h
        have hfindings := hnil
        simp only [List.append_eq_nil_iff, report_eq_nil, Bool.and_eq_true] at hnil
        obtain ⟨⟨⟨⟨⟨⟨-, -⟩, htype⟩, hids⟩, hsequence⟩, hnew⟩, hprevious⟩ := hnil.1
        obtain rfl := hnil.2
        obtain ⟨d, hd, hhex, hexpected⟩ := digestFindings_eq_nil.1 hdigested
        obtain ⟨eventType, rules, hget, hrules, htyped⟩ := eventTypeFindings_eq_nil.1 htype
        obtain ⟨hkeys, hvalid, hvalidation⟩ := (typeFindings_eq_nil hrules).1 htyped
        have hok : (unsealedDigest depth items).isOk = true := by rw [hexpected]; rfl
        have hconforms : Conforms (some (.dict items)) := ⟨items, eventType, rules, rfl, hrules,
          hkeys, hvalid, recordable_of_unsealed hvalid (digest_isOk_iff.1 hok).1⟩
        obtain ⟨i, hi⟩ := hconforms.sequence
        obtain ⟨id, hid⟩ := hconforms.eventId
        refine ⟨⟨⟨hconforms, pyEq_str.1 hids.1, pyEq_str.1 hids.2, ⟨d, hd, hhex, hexpected⟩, ?_⟩, ?_,
          hlink.pyEq_iff.1 hprevious, ?_⟩, ?_⟩
        · rw [hget]
          exact fun heq => hvalidation (PyVal.str.inj heq)
        · rw [hi] at hsequence ⊢
          rw [int_pyEq.1 hsequence]
        · intro hmem
          have hfound : pyMem ((PyVal.dict items).get "event_id") seen = true :=
            List.any_eq_true.2 ⟨_, hmem, by rw [hid]; exact str_pyEq.2 rfl⟩
          rw [hfound] at hnew
          cases hnew
        · rw [hd]
          exact congrArg (Checked.mk (.str d) ((PyVal.dict items).get "event_id" :: seen)) hfindings
      · cases h
    | _ =>
      simp only [checkEvent, Except.ok.injEq] at h
      subst h
      cases hnil
  · rintro ⟨⟨h, hsequence, hprevious, hnew⟩, rfl⟩
    obtain ⟨id, hid⟩ := h.conforms.eventId
    obtain ⟨d, hdigest, hhex, hunsealed⟩ := h.digest
    obtain ⟨items, eventType, rules, hitems, hrules, hkeys, hvalid, -⟩ := h.conforms
    cases hitems
    have htype : (PyVal.dict items).get "event_type" = .str eventType :=
      pyEq_str.1 ((valid_common hkeys hvalid (t := .ofConst (.str eventType)) (by simp [commonFields])
        rfl).2.admits.const _ rfl)
    have hversion : pyEq ((PyVal.dict items).get "schema_version") schemaVersion = true :=
      (valid_common hkeys hvalid (t := .ofConst schemaVersion) (by simp [commonFields])
        rfl).2.admits.const _ rfl
    have hcommon : (commonFields.all fun name => (lookup name items).isSome) = true :=
      List.all_eq_true.2 fun name hname => lookup_isSome.2
        ((hkeys _).2 ⟨name, List.mem_append_left _ hname, rfl⟩)
    have htyped : eventTypeFindings (.dict items) = [] := eventTypeFindings_eq_nil.2
      ⟨eventType, rules, htype, hrules, (typeFindings_eq_nil hrules).2 ⟨hkeys, hvalid, fun heq =>
        h.validation (by rw [htype, heq])⟩⟩
    have hdigested : digestFindings depth items (.str d) = .ok [] :=
      digestFindings_eq_nil.2 ⟨d, rfl, hhex, hunsealed⟩
    have hseen : pyMem (.str id) seen = false := by
      rw [← Bool.not_eq_true]
      intro hmem
      obtain ⟨v, hv, heq⟩ := List.any_eq_true.1 hmem
      rw [str_pyEq.1 heq, ← hid] at hv
      exact hnew hv
    have hself : ∀ s : String, pyEq (.str s) (.str s) = true := fun s => str_pyEq.2 rfl
    have hhash : hashable (.str eventType) = true ∧ hashable (.str id) = true := ⟨rfl, rfl⟩
    have hnumber : pyEq (.int n) (.int n) = true := int_pyEq.2 rfl
    refine ⟨?_, rfl⟩
    simp only [checkEvent, htype, hid, hdigest, hversion, hcommon, htyped, h.ofRun, h.ofSession,
      hsequence, hprevious, hlink.pyEq_iff.2 rfl, hdigested, hseen, hself, hnumber, hhash,
      Bool.and_self, if_true, Except.map, report_true, Bool.not_false, List.append_nil, digestLink]

/-! ## The loop -/

/-- Faultless events with numbers from `n` on, each after the digest of the one before it, and
    with IDs of their own. -/
structure Chained (depth : ℕ) (runId sessionId : String) (n : ℕ) (previous : PyVal)
    (seen events : List PyVal) (last : PyVal) : Prop where
  faultless : ∀ e ∈ events, Faultless depth runId sessionId e
  numbers : (events.map fun e => e.get "sequence") =
    (List.range events.length).map fun (i : ℕ) => PyVal.int (i + n)
  linked : Lib.Linked (fun e : PyVal => e.get "previous_digest") (fun e => e.get "event_digest")
    previous events last
  ids : (events.map fun e => e.get "event_id").Nodup
  fresh : ∀ e ∈ events, e.get "event_id" ∉ seen

theorem chained_cons {rest : List PyVal} {last : PyVal} :
    Chained depth runId sessionId n previous seen (event :: rest) last ↔
      (Faultless depth runId sessionId event ∧ event.get "sequence" = .int n ∧
        event.get "previous_digest" = previous ∧ event.get "event_id" ∉ seen) ∧
      Chained depth runId sessionId (n + 1) (event.get "event_digest")
        (event.get "event_id" :: seen) rest last := by
  have hnumbers : ((event :: rest).map fun e => e.get "sequence") =
      ((List.range (event :: rest).length).map fun (i : ℕ) => PyVal.int (i + n)) ↔
      event.get "sequence" = .int n ∧ (rest.map fun e => e.get "sequence") =
        (List.range rest.length).map fun (i : ℕ) => PyVal.int (i + (n + 1 : ℕ)) := by
    have hnext : ∀ i : ℕ, (i : ℤ) + 1 + n = i + (n + 1) := fun i => by omega
    simp [List.range_succ_eq_map, Function.comp_def, hnext]
  constructor
  · rintro ⟨hfaultless, hnum, hlinked, hids, hfresh⟩
    obtain ⟨hfirst, hrest⟩ := List.forall_mem_cons.1 hfaultless
    obtain ⟨hnew, hnews⟩ := List.forall_mem_cons.1 hfresh
    obtain ⟨hprevious, hlinked⟩ := Lib.linked_cons.1 hlinked
    rw [List.map_cons, List.nodup_cons] at hids
    obtain ⟨hsequence, hnum⟩ := hnumbers.1 hnum
    refine ⟨⟨hfirst, hsequence, hprevious, hnew⟩, hrest, hnum, hlinked, hids.2, fun e he hmem => ?_⟩
    rcases List.mem_cons.1 hmem with heq | hmem
    · exact hids.1 (heq ▸ List.mem_map_of_mem he)
    · exact hnews e he hmem
  · rintro ⟨⟨hfirst, hsequence, hprevious, hnew⟩, hrest, hnum, hlinked, hids, hfresh⟩
    refine ⟨List.forall_mem_cons.2 ⟨hfirst, hrest⟩, hnumbers.2 ⟨hsequence, hnum⟩,
      Lib.linked_cons.2 ⟨hprevious, hlinked⟩, ?_, List.forall_mem_cons.2 ⟨hnew, fun e he hmem =>
        hfresh e he (List.mem_cons_of_mem _ hmem)⟩⟩
    rw [List.map_cons, List.nodup_cons]
    refine ⟨fun hmem => ?_, hids⟩
    obtain ⟨e, he, heq⟩ := List.mem_map.1 hmem
    exact hfresh e he (heq ▸ List.mem_cons_self)

theorem Chained.isLink_last {events : List PyVal} {last : PyVal} (hlink : IsLink previous)
    (h : Chained depth runId sessionId n previous seen events last) : IsLink last := by
  induction events generalizing n previous seen with
  | nil => exact Lib.linked_nil.1 h.linked ▸ hlink
  | cons e rest ih =>
    obtain ⟨⟨hfaultless, -⟩, hrest⟩ := chained_cons.1 h
    obtain ⟨d, hd, -⟩ := hfaultless.digest
    exact ih (.inr ⟨d, hd⟩) hrest

/-- **The lines without findings** are a chain of faultless events. -/
theorem checkLines_nil_iff {lines : List (Option PyVal)} {last : PyVal} (hlink : IsLink previous) :
    checkLines depth runId sessionId lines n previous seen = .ok (last, []) ↔
      ∃ events, lines = events.map some ∧
        Chained depth runId sessionId n previous seen events last := by
  induction lines generalizing n previous seen with
  | nil =>
    simp only [checkLines, Except.ok.injEq, Prod.mk.injEq, and_true]
    constructor
    · rintro rfl
      exact ⟨[], rfl, List.forall_mem_nil _, rfl, rfl, List.nodup_nil, List.forall_mem_nil _⟩
    · rintro ⟨events, hevents, h⟩
      obtain rfl := List.map_eq_nil_iff.1 hevents.symm
      exact Lib.linked_nil.1 h.linked
  | cons line rest ih =>
    cases line with
    | none =>
      refine iff_of_false (fun h => ?_) ?_
      · simp only [checkLines, bind, bind_eq_ok, pure, Except.pure] at h
        obtain ⟨res, -, h⟩ := h
        cases h
      · rintro ⟨events, hevents, -⟩
        cases events with
        | nil => cases hevents
        | cons e events => cases hevents
    | some event =>
      simp only [checkLines, bind, bind_eq_ok, pure, Except.pure, Except.ok.injEq, Prod.mk.injEq,
        List.append_eq_nil_iff]
      constructor
      · rintro ⟨c, hc, ⟨_, _⟩, hres, rfl, hnil, rfl⟩
        obtain ⟨hplaced, rfl⟩ := (checkEvent_nil_iff hlink).1 ⟨hc, hnil⟩
        obtain ⟨d, hd, -⟩ := hplaced.1.digest
        obtain ⟨events, rfl, hchained⟩ := (ih (.inr ⟨d, hd⟩)).1 hres
        exact ⟨event :: events, rfl, chained_cons.2 ⟨hplaced, hchained⟩⟩
      · rintro ⟨events, hevents, h⟩
        cases events with
        | nil => cases hevents
        | cons e events =>
          obtain ⟨rfl, rfl⟩ : event = e ∧ rest = events.map some := by simpa using hevents
          obtain ⟨hplaced, hchained⟩ := chained_cons.1 h
          obtain ⟨d, hd, -⟩ := hplaced.1.digest
          obtain ⟨hc, hnil⟩ := (checkEvent_nil_iff hlink).2 ⟨hplaced, rfl⟩
          exact ⟨_, hc, (last, []), (ih (.inr ⟨d, hd⟩)).2 ⟨events, rfl, hchained⟩, rfl, hnil, rfl⟩

end

end TodDl.Provenance
