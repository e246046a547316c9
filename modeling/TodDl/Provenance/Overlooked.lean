/-
  Provenance records — what the verifier reports, and what it overlooks.

  A line is `Standard` where JSON Schema itself finds it valid, with exactly the fields of its
  event type.  The checker takes some other lines for such a line (`Misread`): a boolean where
  the constant of a field is the same number, a final newline after a text with a pattern, or
  digits that are not ASCII in a time.

  * `verify_nil_iff`: the record sets without a finding are the `Clean` ones.
  * `files_reported_iff`: the verifier returns, with a finding where a line is not standard,
    exactly on the inputs that are `Reportable`.
-/
import TodDl.Provenance.JsonSchema
import TodDl.Provenance.Tamper

namespace TodDl.Provenance

/-! ## Lines -/

/-- A line that is an object with exactly the fields and the values its event type requires, by
    the meaning JSON Schema gives to the record schema, without a float and without a lone
    surrogate. -/
def Standard (line : Option PyVal) : Prop :=
  ∃ items eventType rules, line = some (.dict items) ∧ (eventType, rules) ∈ eventFieldRules ∧
    (∀ k, k ∈ items.map (·.1) ↔ ∃ name ∈ commonFields ++ rules.map (·.1), k = .str name) ∧
    SchemaValid (.dict items) (eventBranch eventType rules) ∧ Recordable (.dict items)

/-- A line of a known type with a value that the checker takes for another one. -/
def Misread (line : Option PyVal) : Prop :=
  ∃ items eventType rules, line = some (.dict items) ∧ (eventType, rules) ∈ eventFieldRules ∧
    (PyVal.dict items).get "event_type" = .str eventType ∧
    mend (.dict items) (eventBranch eventType rules) ≠ .dict items

section
variable {items : List (Key × PyVal)} {eventType : String} {rules : List (String × Schema)}

mutual

theorem isJson_of_recordable (v : PyVal) (h : Recordable v) : IsJson v := by
  match v with
  | .null | .bool _ | .int _ | .str _ | .badStr _ => trivial
  | .list items => exact isJsonItems_of_recordable items (by rwa [Recordable] at h)
  | .dict items => exact isJsonMembers_of_recordable items (by rwa [Recordable] at h)
  | .float _ | .other _ => exact absurd h (by rw [Recordable]; exact id)

theorem isJsonItems_of_recordable (items : List PyVal) (h : RecordableItems items) :
    IsJsonItems items := by
  match items with
  | [] => trivial
  | v :: rest =>
    rw [RecordableItems] at h
    exact ⟨isJson_of_recordable v h.1, isJsonItems_of_recordable rest h.2⟩

theorem isJsonMembers_of_recordable (items : List (Key × PyVal)) (h : RecordableFields items) :
    IsJsonMembers items := by
  match items with
  | [] => trivial
  | (k, v) :: rest =>
    rw [RecordableFields] at h
    obtain ⟨⟨⟨name, hname⟩, hv⟩, hrest⟩ := h
    refine ⟨⟨fun repr hk => ?_, isJson_of_recordable v hv⟩, isJsonMembers_of_recordable rest hrest⟩
    cases hname.symm.trans hk

end

/-- An event that is valid for a type has this type. -/
theorem eventType_of_valid (hvalid : Valid (.dict items) (eventBranch eventType rules)) :
    (PyVal.dict items).get "event_type" = .str eventType := by
  have hrequired : "event_type" ∈ (eventBranch eventType rules).required :=
    List.mem_append_left _ (by simp [commonFields])
  have hobject := hvalid
  rw [Valid] at hobject
  obtain ⟨v, hv⟩ := Option.isSome_iff_exists.1 (hobject.2.1 _ hrequired)
  have hconst : Valid v (.ofConst (.str eventType)) := hvalid.field hv rfl
  rw [PyVal.get, PyVal.items, hv]
  exact pyEq_str.1 (hconst.admits.const _ rfl)

/-- The rules of an event type are its own. -/
theorem rules_unique {rules' : List (String × Schema)} (h : (eventType, rules) ∈ eventFieldRules)
    (h' : (eventType, rules') ∈ eventFieldRules) : rules = rules' := by
  have hschema := (rules_eventType h).2.2.symm.trans (rules_eventType h').2.2
  have hnodup : (eventFieldRules.map (·.1)).Nodup := by decide
  exact congrArg Prod.snd (List.inj_on_of_nodup_map hnodup h h' rfl)

theorem regular_eventBranch (h : (eventType, rules) ∈ eventFieldRules) :
    (eventBranch eventType rules).regular = true :=
  (Occurs.event h).regular

/-- **What the checker accepts** is standard, unless it is misread. -/
theorem standard_iff {line : Option PyVal} : Standard line ↔ Conforms line ∧ ¬ Misread line := by
  constructor
  · rintro ⟨items, eventType, rules, rfl, hrules, hkeys, hstandard, hr⟩
    have hmend := mend_of_schemaValid _ _ (regular_eventBranch hrules) hstandard
    have hvalid : Valid (.dict items) (eventBranch eventType rules) := by
      rw [valid_iff_mend _ (isJson_of_recordable _ hr) _ (regular_eventBranch hrules), hmend]
      exact hstandard
    refine ⟨⟨items, eventType, rules, rfl, hrules, hkeys, hvalid, hr⟩, ?_⟩
    rintro ⟨items', eventType', rules', hitems, hrules', htype, hchanged⟩
    cases hitems
    obtain rfl := PyVal.str.inj ((eventType_of_valid hvalid).symm.trans htype)
    obtain rfl := rules_unique hrules hrules'
    exact hchanged hmend
  · rintro ⟨⟨items, eventType, rules, rfl, hrules, hkeys, hvalid, hr⟩, hread⟩
    refine ⟨items, eventType, rules, rfl, hrules, hkeys, ?_, hr⟩
    have hmend : mend (.dict items) (eventBranch eventType rules) = .dict items := by
      by_contra hchanged
      exact hread ⟨items, eventType, rules, rfl, hrules, eventType_of_valid hvalid, hchanged⟩
    rwa [valid_iff_mend _ (isJson_of_recordable _ hr) _ (regular_eventBranch hrules), hmend]
      at hvalid

end

/-! ## Reports without a finding -/

theorem keyFindings_eq_nil {summary : PyVal} {key : Option (Except Failure PublicKey)}
    {expected : Option String} : keyFindings summary key expected = .ok [] ↔
      ∃ k raw, key = some (.ok k) ∧ k.raw = .ok raw ∧
        summary.get "signing_key_fingerprint" = .str (Lib.Sha256.hexdigest raw) ∧
        ∀ e, expected = some e → e ≠ "" → Lib.Sha256.hexdigest raw = e := by
  match key with
  | none =>
    simp only [keyFindings]
    refine iff_of_false ?_ ?_
    · split <;> simp
    · rintro ⟨_, _, h, -⟩
      cases h
  | some (.error e) =>
    simp only [keyFindings, Except.bind]
    refine iff_of_false ?_ ?_
    · split <;> simp
    · rintro ⟨_, _, h, -⟩
      cases h
  | some (.ok k) =>
    simp only [keyFindings, Except.bind, Option.some.injEq, Except.ok.injEq]
    cases hraw : k.raw with
    | error e =>
      refine iff_of_false ?_ ?_
      · dsimp only
        split <;> simp
      · rintro ⟨_, raw, rfl, hk, -⟩
        rw [hraw] at hk
        cases hk
    | ok raw =>
      have hsame : ∀ {P : PublicKey → List UInt8 → Prop},
          (∃ k' raw', k = k' ∧ k'.raw = .ok raw' ∧ P k' raw') ↔ P k raw := by
        intro P
        constructor
        · rintro ⟨_, raw', rfl, hk, hP⟩
          rwa [Except.ok.inj (hraw.symm.trans hk)]
        · exact fun hP => ⟨k, raw, rfl, hraw, hP⟩
      rw [hsame]
      cases expected with
      | none => simp [report_eq_nil, pyEq_str]
      | some e =>
        by_cases he : e = ""
        · subst he
          simp [report_eq_nil, pyEq_str, Option.filter]
        · simp [report_eq_nil, pyEq_str, Option.filter, he]

theorem signatureFindings_eq_nil {depth : ℕ} {items : List (Key × PyVal)} {k : PublicKey} :
    signatureFindings depth (.dict items) (some (.ok k)) = .ok [] ↔
      checkSignature depth k items = .ok true := by
  simp only [signatureFindings, PyVal.items]
  cases checkSignature depth k items with
  | ok valid => simp [report_eq_nil]
  | error e =>
    refine iff_of_false ?_ (by simp)
    dsimp only
    split <;> simp

theorem summaryFindings_eq_nil {rs : RecordSet} {items : List (Key × PyVal)} :
    summaryFindings rs items = [] ↔
      (∀ k, k ∈ items.map (·.1) ↔ ∃ name ∈ summaryFields, k = .str name) ∧
      (PyVal.dict items).get "run_id" = .str rs.runId ∧
      (PyVal.dict items).get "session_id" = .str rs.sessionId ∧
      (PyVal.dict items).get "schema_sha256" =
        (rs.schemaBytes.map fun b => .str (Lib.Sha256.hexdigest b)).getD .null := by
  simp only [summaryFindings, List.append_eq_nil_iff, report_eq_nil, keysChecked_iff]
  rw [Bool.and_eq_true, pyEq_str, pyEq_str, and_assoc, and_assoc]
  refine and_congr_right fun _ => and_congr_right fun _ => and_congr_right fun _ => ?_
  cases rs.schemaBytes with
  | none => exact pyEq_null
  | some b => exact pyEq_str

theorem tailFindings_eq_nil {summary previous : PyVal} {lines : List (Option PyVal)} :
    tailFindings summary lines previous = .ok [] ↔
      countsAgree summary (finalEvents lines).length = .ok true ∧
      pyEq (summary.get "event_count") (.int lines.length) = true ∧
      pyEq (summary.get "final_event_digest") previous = true ∧
      (lines = [] ∨ (lastEvent lines).get "event_type" = .str "run_closed" ∧
        pyEq ((lastEvent lines).get "durable_outcome_counts")
          (summary.get "durable_outcome_counts") = true) := by
  simp only [tailFindings, bind, bind_eq_ok, pure, Except.pure, Except.ok.injEq,
    List.append_eq_nil_iff, report_eq_nil, Bool.or_eq_true, Bool.and_eq_true, List.isEmpty_iff,
    pyEq_str]
  constructor
  · rintro ⟨_, hagree, ⟨⟨hcount, hfinal⟩, hclosed⟩, rfl⟩
    exact ⟨hagree, hcount, hfinal, hclosed⟩
  · rintro ⟨hagree, hcount, hfinal, hclosed⟩
    exact ⟨true, hagree, ⟨⟨hcount, hfinal⟩, hclosed⟩, rfl⟩

/-- A record set in which nothing is wrong: the schema file is the schema, the summary is in its
    format, names the record path, the schema and the trusted key and is signed by it, and the
    lines are a chain that ends where the summary says, whose final files are in place. -/
structure Clean (rs : RecordSet) (files : Files) (key : Option (Except Failure PublicKey))
    (expected : Option String) (items : List (Key × PyVal)) : Prop where
  schema : pyEq (rs.schema.getD .null) schemaDocument = true
  fields : ∀ k, k ∈ items.map (·.1) ↔ ∃ name ∈ summaryFields, k = .str name
  ofRun : (PyVal.dict items).get "run_id" = .str rs.runId
  ofSession : (PyVal.dict items).get "session_id" = .str rs.sessionId
  schemaDigest : (PyVal.dict items).get "schema_sha256" =
    (rs.schemaBytes.map fun b => .str (Lib.Sha256.hexdigest b)).getD .null
  trusted : ∃ k raw, key = some (.ok k) ∧ k.raw = .ok raw ∧
    (PyVal.dict items).get "signing_key_fingerprint" = .str (Lib.Sha256.hexdigest raw) ∧
    (∀ e, expected = some e → e ≠ "" → Lib.Sha256.hexdigest raw = e) ∧
    checkSignature rs.stack.summary k items = .ok true
  valid : Valid (.dict items) summarySchema
  chained : ∃ events, rs.lines = some (events.map some) ∧
    Chained rs.stack.event rs.runId rs.sessionId 1 .null [] events
      ((PyVal.dict items).get "final_event_digest")
  count : pyEq ((PyVal.dict items).get "event_count") (.int (rs.lines.getD []).length) = true
  closed : rs.lines.getD [] = [] ∨
    (lastEvent (rs.lines.getD [])).get "event_type" = .str "run_closed" ∧
      pyEq ((lastEvent (rs.lines.getD [])).get "durable_outcome_counts")
        ((PyVal.dict items).get "durable_outcome_counts") = true
  agree : countsAgree (.dict items) (finalEvents (rs.lines.getD [])).length = .ok true
  finals : ∀ e ∈ finalEvents (rs.lines.getD []), checkFinal files e = .ok []

section
variable {rs : RecordSet} {files : Files} {key : Option (Except Failure PublicKey)}
  {expected : Option String} {items : List (Key × PyVal)}

/-- **The record sets without a finding** are the clean ones. -/
theorem verify_nil_iff (hsummary : rs.summary = some (.dict items)) :
    verify rs files key expected = .ok [] ↔
      (rs.deepFile = false ∧ rs.deepLine = none) ∧ Clean rs files key expected items := by
  rw [verify_eq_ok hsummary, and_assoc]
  refine and_congr_right fun _ => and_congr_right fun _ => ?_
  constructor
  · rintro ⟨keys, signature, ⟨last, found⟩, tail, finals, hkeys, hsig, hloop, htail, hfinals, hnil⟩
    simp only [List.nil_eq, List.append_eq_nil_iff, List.map_eq_nil_iff, schemaErrors_eq_nil,
      schemaFindings_eq_nil, summaryFindings_eq_nil, report_eq_nil] at hnil
    obtain ⟨⟨⟨⟨⟨⟨⟨⟨hschema, hfields, hrun, hsession, hdigest⟩, rfl⟩, rfl⟩, hvalid⟩, hlines⟩, rfl⟩,
      rfl⟩, rfl⟩ := hnil
    obtain ⟨k, raw, rfl, hraw, hprint, hexpected⟩ := keyFindings_eq_nil.1 hkeys
    obtain ⟨hagree, hcount, hfinal, hclosed⟩ := tailFindings_eq_nil.1 htail
    obtain ⟨lines, hrs⟩ := Option.isSome_iff_exists.1 hlines
    rw [hrs, Option.getD_some] at hloop
    obtain ⟨events, rfl, hchained⟩ := (checkLines_nil_iff (.inl rfl)).1 hloop
    rw [← (hchained.isLink_last (.inl rfl)).pyEq_iff.1 hfinal] at hchained
    exact ⟨hschema, hfields, hrun, hsession, hdigest,
      ⟨k, raw, rfl, hraw, hprint, hexpected, signatureFindings_eq_nil.1 hsig⟩, hvalid,
      ⟨events, hrs, hchained⟩, hcount, hclosed, hagree, checkFinals_eq_nil.1 hfinals⟩
  · intro h
    obtain ⟨k, raw, rfl, hraw, hprint, hexpected, hsigned⟩ := h.trusted
    obtain ⟨events, hrs, hchained⟩ := h.chained
    have hlink := hchained.isLink_last (.inl rfl)
    refine ⟨[], [], ((PyVal.dict items).get "final_event_digest", []), [], [],
      keyFindings_eq_nil.2 ⟨k, raw, rfl, hraw, hprint, hexpected⟩,
      signatureFindings_eq_nil.2 hsigned, ?_,
      tailFindings_eq_nil.2 ⟨h.agree, h.count, hlink.pyEq_iff.2 rfl, h.closed⟩,
      checkFinals_eq_nil.2 h.finals, ?_⟩
    · rw [hrs]
      exact (checkLines_nil_iff (.inl rfl)).2 ⟨events, rfl, hchained⟩
    · have hnamed := summaryFindings_eq_nil.2 ⟨h.fields, h.ofRun, h.ofSession, h.schemaDigest⟩
      rw [schemaFindings_eq_nil.2 h.schema, hnamed, (schemaErrors_eq_nil _ _ _).2 h.valid, hrs]
      rfl

theorem Clean.conforms (h : Clean rs files key expected items) :
    ∀ line ∈ rs.lines.getD [], Conforms line := by
  obtain ⟨events, hrs, hchained⟩ := h.chained
  rw [hrs, Option.getD_some, List.forall_mem_map]
  exact fun e he => (hchained.faultless e he).conforms

end

/-! ## What the verifier reports -/

/-- The verifier returns a list, and the list is not empty when a line is not standard. -/
def Reports (rs : RecordSet) (files : Files) (key : Option (Except Failure PublicKey))
    (expected : Option String) : Prop :=
  ∃ fs, verify rs files key expected = .ok fs ∧
    ((∃ line ∈ rs.lines.getD [], ¬ Standard line) → fs ≠ [])

/-- The inputs on which the verifier reports: it returns, and no line is misread in a record set
    that is clean otherwise. -/
def Reportable (rs : RecordSet) (files : Files) (key : Option (Except Failure PublicKey))
    (expected : Option String) : Prop :=
  rs.deepFile = false ∧
    match rs.summary with
    | none => True
    | some (.dict items) => Returns rs key items ∧
      (Clean rs files key expected items → ∀ line ∈ rs.lines.getD [], ¬ Misread line)
    -- the events are not looked at
    | some _ => pyEq (rs.schema.getD .null) schemaDocument = false ∨
        ∀ line ∈ rs.lines.getD [], Standard line

/-- **What the verifier reports.**  It returns a list, with a finding when a line is not
    standard, exactly on the inputs above. -/
theorem reports_iff (rs : RecordSet) (files : Files) (key : Option (Except Failure PublicKey))
    (expected : Option String) :
    Reports rs files key expected ↔ Reportable rs files key expected := by
  rw [Reports, Reportable]
  cases hdeep : rs.deepFile with
  | true =>
    refine iff_of_false ?_ fun h => by cases h.1
    rintro ⟨fs, h, -⟩
    rw [verify, hdeep] at h
    cases h
  | false =>
    simp only [true_and]
    cases hsummary : rs.summary with
    | none =>
      simp only [verify, hdeep, hsummary]
      exact iff_of_true ⟨_, rfl, fun _ => by simp⟩ trivial
    | some summary =>
      cases summary with
      | dict items =>
        simp only
        rw [← @exists_verify rs files key expected items hsummary]
        constructor
        · rintro ⟨fs, h, hreports⟩
          refine ⟨⟨fs, h⟩, fun hclean line hline => ?_⟩
          have hreturns := (exists_verify hsummary).1 ⟨fs, h⟩
          obtain rfl : fs = [] := Except.ok.inj
            (h.symm.trans ((verify_nil_iff hsummary).2 ⟨hreturns.files, hclean⟩))
          by_contra hread
          exact hreports ⟨line, hline, fun hstandard => (standard_iff.1 hstandard).2 hread⟩ rfl
        · rintro ⟨⟨fs, h⟩, hread⟩
          refine ⟨fs, h, ?_⟩
          rintro ⟨line, hline, hbad⟩ rfl
          obtain ⟨-, hclean⟩ := (verify_nil_iff hsummary).1 h
          exact hbad (standard_iff.2 ⟨hclean.conforms line hline, hread hclean line hline⟩)
      | _ =>
        simp only [verify, hdeep, hsummary, Except.ok.injEq, ne_eq, exists_eq_left',
          schemaFindings_eq_nil, Bool.not_eq_true, Bool.false_eq_true, if_false]
        constructor
        · intro h
          by_cases hall : ∀ line ∈ rs.lines.getD [], Standard line
          · exact .inr hall
          · exact .inl (h (by simpa using hall))
        · rintro (h | hall) ⟨line, hline, hbad⟩
          · exact h
          · exact absurd (hall line hline) hbad

/-- An event whose type is a list. -/
def listTyped : List Char := "\x7b\"event_type\":[]\x7d".toList

/-- A record directory with an empty summary and that event. -/
def listTypedFiles : RecordFiles where
  runId := "run"
  sessionId := "11111111-1111-4111-8111-111111111111"
  schema := none
  summary := some (utf8 ['\x7b', '\x7d'])
  events := some (utf8 listTyped)

theorem read_listTypedFiles : listTypedFiles.read.summary = some (.dict []) ∧
    listTypedFiles.read.lines = some [loads listTyped] := by
  have hsplit : splitlines [] (utf8 listTyped) = [utf8 listTyped] := by decide +kernel
  have hsummary : loads ['\x7b', '\x7d'] = some (.dict []) := by
    simp [loads, scanValue, skipSpace, isJsonSpace]
  simp only [RecordFiles.read, listTypedFiles, Option.bind_some, Option.map_some, loadBytes, hsplit,
    List.map_cons, List.map_nil, decodeUtf8_utf8, hsummary, true_and]

end TodDl.Provenance
