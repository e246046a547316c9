/-
  Provenance records — what makes the verifier raise.

  `verify` raises on some records instead of reporting them: on an event type or
  an ID that cannot be a member of a set, on a hashed event or a signed summary
  with a float, on a hashed event with a lone surrogate, on a file, a line or a
  hashed value that nests deeper than the stack holds, on a signature or a path
  that is not a string, on a count that cannot be compared, and on a key that is
  not an Ed25519 key.  `exists_verify`: with a summary that is an object it
  returns exactly outside these inputs.
-/
import TodDl.Provenance.Decode
import TodDl.Provenance.Valid

namespace TodDl.Provenance

/-! ## One event -/

/-- What one event must be to get through `check_event`: its type and its ID can be
    members of a set, and what is hashed can be. -/
structure Checkable (depth : ℕ) (event : PyVal) : Prop where
  eventType : hashable (event.get "event_type") = true
  eventId : hashable (event.get "event_id") = true
  hashed : ∀ d, event.get "event_digest" = .str d → Pattern.hex.fullMatch d.toList = true →
    Recordable (.dict (event.items.filter fun p => p.1 ≠ .str "event_digest")) ∧
      nesting (.dict (event.items.filter fun p => p.1 ≠ .str "event_digest")) ≤ depth

theorem Checkable.of_not_dict {depth : ℕ} {event : PyVal} (h : ∀ items, event ≠ .dict items) :
    Checkable depth event := by
  have hitems : event.items = [] := by
    cases event with
    | dict items => exact absurd rfl (h items)
    | _ => rfl
  have hget : ∀ name, event.get name = .null := fun name => by simp [PyVal.get, hitems, lookup]
  refine ⟨by rw [hget]; rfl, by rw [hget]; rfl, fun d hd => ?_⟩
  rw [hget] at hd
  cases hd

theorem map_eq_ok {α β : Type} {x : Except Failure α} {f : α → β} {b : β} :
    x.map f = .ok b ↔ ∃ a, x = .ok a ∧ f a = b := by
  cases x <;> simp [Except.map]

theorem exists_ok_iff {α : Type} {x : Except Failure α} : (∃ a, x = .ok a) ↔ x.isOk = true := by
  cases x <;> simp [Except.isOk, Except.toBool]

theorem exists_digestFindings {depth : ℕ} {items : List (Key × PyVal)} {v : PyVal} :
    (∃ fs, digestFindings depth items v = .ok fs) ↔
      ∀ d, v = .str d → Pattern.hex.fullMatch d.toList = true →
        Recordable (.dict (items.filter fun p => p.1 ≠ .str "event_digest")) ∧
          nesting (.dict (items.filter fun p => p.1 ≠ .str "event_digest")) ≤ depth := by
  cases v with
  | str d =>
    simp only [digestFindings, PyVal.str.injEq, forall_eq']
    split
    · next hd =>
      rw [exists_ok_iff, ← digest_isOk_iff, unsealedDigest]
      simp only [hd, true_imp_iff]
      cases digest depth _ <;> simp [Except.map, Except.isOk, Except.toBool]
    · next hd => simp [hd]
  | _ => simp [digestFindings]

theorem exists_checkEvent {event : PyVal} {r s : String} {depth n : ℕ} {previous : PyVal}
    {seen : List PyVal} :
    (∃ c, checkEvent depth event r s n previous seen = .ok c) ↔ Checkable depth event := by
  cases event with
  | dict items =>
    simp only [checkEvent]
    split
    · next hh =>
      rw [Bool.and_eq_true] at hh
      simp only [map_eq_ok]
      constructor
      · rintro ⟨c, fs, hfs, -⟩
        exact ⟨hh.1, hh.2, exists_digestFindings.1 ⟨fs, hfs⟩⟩
      · intro h
        obtain ⟨fs, hfs⟩ := exists_digestFindings.2 h.hashed
        exact ⟨_, fs, hfs, rfl⟩
    · next hh =>
      refine iff_of_false (by simp) fun h => hh ?_
      rw [h.eventType, h.eventId]
      rfl
  | _ => exact iff_of_true ⟨_, rfl⟩ (.of_not_dict fun _ => nofun)

/-! ## The lines -/

theorem exists_checkLines {r s : String} {lines : List (Option PyVal)} {depth n : ℕ}
    {previous : PyVal} {seen : List PyVal} :
    (∃ res, checkLines depth r s lines n previous seen = .ok res) ↔
      ∀ event, some event ∈ lines → Checkable depth event := by
  induction lines generalizing n previous seen with
  | nil => simp [checkLines]
  | cons line rest ih =>
    cases line with
    | none =>
      simp only [checkLines, bind, bind_eq_ok, pure, Except.pure, Except.ok.injEq, List.mem_cons,
        reduceCtorEq, false_or]
      rw [← @ih (n + 1) previous seen]
      exact ⟨fun ⟨_, res, h, _⟩ => ⟨res, h⟩, fun ⟨res, h⟩ => ⟨_, res, h, rfl⟩⟩
    | some event =>
      simp only [checkLines, bind, bind_eq_ok, pure, Except.pure, Except.ok.injEq, List.mem_cons,
        Option.some.injEq, forall_eq_or_imp]
      constructor
      · rintro ⟨_, c, hc, res, hres, -⟩
        exact ⟨exists_checkEvent.1 ⟨c, hc⟩, ih.1 ⟨res, hres⟩⟩
      · rintro ⟨hevent, hrest⟩
        obtain ⟨c, hc⟩ := exists_checkEvent.2 hevent
        obtain ⟨res, hres⟩ := ih.2 hrest
        exact ⟨_, c, hc, res, hres, rfl⟩

/-! ## The key, the signature, the counts and the paths -/

/-- A key file that loads and gives its raw bytes, or fails to with an exception
    that is caught. -/
def KeyReadable (key : Option (Except Failure PublicKey)) : Prop :=
  ∀ loaded e, key = some loaded → loaded.bind (·.raw) = .error e → e.isOsOrValueError = true

/-- Where the signature decodes, the summary without it has no float and fits the stack,
    and the key answers for what it is given. -/
structure SignatureCheckable (depth : ℕ) (k : PublicKey) (items : List (Key × PyVal)) : Prop where
  text : ((lookup "signature" items).getD (.str "")).codes.isSome = true
  noFloat : ∀ signature, signatureBytes ((lookup "signature" items).getD (.str "")) = .ok signature →
    rejectFloat (.dict (unsignedItems items)) = .ok () ∧
      serializable (.dict (unsignedItems items)) = true ∧
      nesting (.dict (unsignedItems items)) ≤ depth
  answers : ∀ signature bytes e,
    signatureBytes ((lookup "signature" items).getD (.str "")) = .ok signature →
    canonicalJson depth (.dict (unsignedItems items)) = .ok bytes →
    k.verify signature bytes = .error e → e.isValueError = true

/-- Where the counts are compared at all, the number of completed items is a number. -/
def CountsComparable (summary : PyVal) (finals : ℕ) : Prop :=
  ∀ counts, summary.get "durable_outcome_counts" = .dict counts →
    (summary.get "session_finalized_count").asInt = some (finals : ℤ) →
    (∃ x, (lookup "complete" counts).getD (.int 0) = .float x) ∨
      (((lookup "complete" counts).getD (.int 0)).asInt).isSome = true

/-- The logical path is text, and so is the final path where the logical one is safe. -/
def PathsText (event : PyVal) : Prop :=
  ∀ logical, lookup "logical_relative_path" event.items = some logical →
    logical.codes.isSome = true ∧ ((∃ parts, relativeText logical = .ok parts) →
      ∀ stored, lookup "final_relative_path" event.items = some stored → stored.codes.isSome = true)

theorem exists_keyFindings {summary : PyVal} {key : Option (Except Failure PublicKey)}
    {expected : Option String} :
    (∃ fs, keyFindings summary key expected = .ok fs) ↔ KeyReadable key := by
  cases key with
  | none =>
    refine iff_of_true ?_ nofun
    simp only [keyFindings]
    split <;> exact ⟨_, rfl⟩
  | some loaded =>
    simp only [keyFindings, KeyReadable, Option.some.injEq]
    cases hraw : loaded.bind (·.raw) with
    | ok raw => exact iff_of_true ⟨_, rfl⟩ (by rintro _ e rfl he; rw [hraw] at he; cases he)
    | error e =>
      simp only
      split
      · next hcaught =>
        exact iff_of_true ⟨_, rfl⟩ (by rintro _ e' rfl he; rw [hraw] at he; cases he; exact hcaught)
      · next hcaught => exact iff_of_false nofun fun h => hcaught (h _ _ rfl hraw)

theorem a2bBase64_error {cs : List Char} {quad left pads : ℕ} {e : Failure}
    (h : a2bBase64 cs quad left pads = .error e) : e = .valueError := by
  have hmap : ∀ {x : Except Failure (List UInt8)} {f : List UInt8 → List UInt8},
      x.map f = .error e → x = .error e := fun {x f} hx => by
    cases x with
    | error e' => simpa [Except.map] using hx
    | ok a => cases hx
  induction cs generalizing quad left pads with
  | nil =>
    rw [a2bBase64] at h
    split at h <;> cases h
    rfl
  | cons c cs ih =>
    rw [a2bBase64.eq_def] at h
    simp only at h
    split at h
    · split at h
      · exact ih h
      · split at h
        · cases h
        · exact ih h
    · split at h
      · exact ih h
      · exact ih h
      · exact ih (hmap h)
      · exact ih (hmap h)
      · exact ih (hmap h)

theorem signatureBytes_error {v : PyVal} {e : Failure} (h : signatureBytes v = .error e) :
    e.isValueError = v.codes.isSome := by
  cases v with
  | str s =>
    rw [signatureBytes] at h
    split at h
    · rw [a2bBase64_error h]; rfl
    · cases h; rfl
  | _ => cases h; rfl

theorem codes_of_signatureBytes {v : PyVal} {bytes : List UInt8} (h : signatureBytes v = .ok bytes) :
    v.codes.isSome = true := by
  cases v with
  | str s => rfl
  | _ => cases h

theorem exists_signatureFindings {depth : ℕ} {items : List (Key × PyVal)}
    {key : Option (Except Failure PublicKey)} :
    (∃ fs, signatureFindings depth (.dict items) key = .ok fs) ↔
      ∀ k, key = some (.ok k) → SignatureCheckable depth k items := by
  match key with
  | none => exact iff_of_true ⟨_, rfl⟩ nofun
  | some (.error e) => exact iff_of_true ⟨_, rfl⟩ nofun
  | some (.ok k) =>
    have hcaught : (∃ fs, signatureFindings depth (.dict items) (some (.ok k)) = .ok fs) ↔
        ∀ e, checkSignature depth k items = .error e → e.isValueError = true := by
      simp only [signatureFindings, PyVal.items]
      cases checkSignature depth k items with
      | ok valid => simp
      | error e => simp only [Except.error.injEq, forall_eq']; split <;> simp_all
    simp only [hcaught, Option.some.injEq, Except.ok.injEq, forall_eq']
    simp only [checkSignature, bind]
    cases hsig : signatureBytes ((lookup "signature" items).getD (.str "")) with
    | error e =>
      simp only [Except.bind, Except.error.injEq, forall_eq', signatureBytes_error hsig]
      exact ⟨fun h => ⟨h, fun _ h => (by rw [hsig] at h; cases h), fun _ _ _ h => (by
        rw [hsig] at h; cases h)⟩, fun h => h.text⟩
    | ok signature =>
      have htext := codes_of_signatureBytes hsig
      simp only [Except.bind]
      obtain ⟨hv, hfits, hbytes⟩ | ⟨-, htaken, e, hbytes, hcaught⟩ | ⟨hbad, e, hbytes, hraises⟩ :=
        canonicalJson_cases depth (.dict (unsignedItems items))
      · rw [hbytes]
        have hencoded := (encoded_iff _).2 hv
        constructor
        · intro h
          refine ⟨htext, fun _ _ => ⟨hencoded.1, hencoded.2.1, hfits⟩,
            fun signature' bytes e hs hb he => ?_⟩
          rw [hsig] at hs; cases hs
          rw [hbytes] at hb; cases hb
          exact h e he
        · intro h e he
          exact h.answers _ _ e hsig hbytes he
      · rw [hbytes]
        refine iff_of_true (by rintro e ⟨⟩; exact hcaught) ⟨htext, fun _ _ => htaken,
          fun _ _ _ _ hb => ?_⟩
        rw [hbytes] at hb
        cases hb
      · rw [hbytes]
        refine iff_of_false (fun h => ?_) fun h => hbad (h.noFloat _ hsig)
        rw [h e rfl] at hraises
        cases hraises

theorem lessThan_isOk {v : PyVal} {n : ℤ} :
    (∃ b, lessThan v n = .ok b) ↔ (∃ x, v = .float x) ∨ v.asInt.isSome = true := by
  cases v with
  | float x => cases x <;> simp [lessThan, PyVal.number]
  | _ => simp [lessThan, PyVal.number, PyVal.asInt]

theorem exists_countsAgree {summary : PyVal} {finals : ℕ} :
    (∃ agree, countsAgree summary finals = .ok agree) ↔ CountsComparable summary finals := by
  simp only [countsAgree, CountsComparable]
  split
  · next counts n hcounts hn =>
    simp only [hcounts, hn, PyVal.dict.injEq, Option.some.injEq, forall_eq']
    split
    · next hne => exact iff_of_true ⟨_, rfl⟩ fun h => absurd h hne
    · next heq =>
      have heq : n = finals := not_not.1 heq
      simp only [heq, true_imp_iff, ← lessThan_isOk (n := finals), map_eq_ok]
      exact ⟨fun ⟨_, b, h, _⟩ => ⟨b, h⟩, fun ⟨b, h⟩ => ⟨_, b, h, rfl⟩⟩
  · next hno =>
    exact iff_of_true ⟨_, rfl⟩ fun counts hcounts hn => (hno counts finals hcounts hn).elim

theorem exists_tailFindings {summary : PyVal} {lines : List (Option PyVal)} {previous : PyVal} :
    (∃ fs, tailFindings summary lines previous = .ok fs) ↔
      CountsComparable summary (finalEvents lines).length := by
  simp only [tailFindings, bind, bind_eq_ok, pure, Except.pure, Except.ok.injEq,
    ← exists_countsAgree]
  exact ⟨fun ⟨_, agree, h, _⟩ => ⟨agree, h⟩, fun ⟨agree, h⟩ => ⟨_, agree, h, rfl⟩⟩

theorem relativeText_cases (v : PyVal) :
    (v.codes.isSome = true ∧ ((∃ parts, relativeText v = .ok parts) ∨
      relativeText v = .error (.provenance "provenance path is not a safe relative path"))) ∨
    (v.codes.isSome = false ∧ relativeText v = .error .typeError) := by
  rw [relativeText]
  cases v.codes with
  | none => exact .inr ⟨rfl, rfl⟩
  | some codes =>
    simp only [Option.isSome_some]
    split
    · exact .inl ⟨trivial, .inr rfl⟩
    · exact .inl ⟨trivial, .inl ⟨_, rfl⟩⟩

theorem exists_checkFinal {files : Files} {event : PyVal} :
    (∃ fs, checkFinal files event = .ok fs) ↔ PathsText event := by
  rw [checkFinal.eq_def, PathsText]
  cases lookup "logical_relative_path" event.items with
  | none => simp
  | some logical =>
    simp only [Option.some.injEq, forall_eq']
    obtain ⟨hlogical, ⟨parts, hok⟩ | hbad⟩ | ⟨hlogical, herr⟩ := relativeText_cases logical
    · simp only [hok, hlogical, true_and, Except.ok.injEq, exists_eq', true_imp_iff]
      cases lookup "final_relative_path" event.items with
      | none => simp
      | some stored =>
        simp only [Option.map_some, Option.some.injEq, forall_eq']
        obtain ⟨hstored, ⟨parts', hok'⟩ | hbad'⟩ | ⟨hstored, herr'⟩ := relativeText_cases stored
        · simp only [hok', hstored]
          cases files parts' <;> simp
        · simp [hbad', hstored]
        · simp [herr', hstored]
    · cases lookup "final_relative_path" event.items <;> simp [hbad, hlogical]
    · simp [herr, hlogical]

theorem exists_checkFinals {files : Files} {events : List PyVal} :
    (∃ fs, checkFinals files events = .ok fs) ↔ ∀ event ∈ events, PathsText event := by
  induction events with
  | nil => simp [checkFinals]
  | cons event rest ih =>
    rw [List.forall_mem_cons, ← ih, ← @exists_checkFinal files event]
    simp only [checkFinals, bind, bind_eq_ok, pure, Except.pure, Except.ok.injEq]
    exact ⟨fun ⟨_, fs, h, fs', h', _⟩ => ⟨⟨fs, h⟩, fs', h'⟩,
      fun ⟨⟨fs, h⟩, fs', h'⟩ => ⟨_, fs, h, fs', h', rfl⟩⟩

/-! ## The report -/

/-- What a summary that is an object, its key and the lines must be for `verify` to
    return. -/
structure Returns (rs : RecordSet) (key : Option (Except Failure PublicKey))
    (items : List (Key × PyVal)) : Prop where
  files : rs.deepFile = false ∧ rs.deepLine = none
  keyFile : KeyReadable key
  signature : ∀ k, key = some (.ok k) → SignatureCheckable rs.stack.summary k items
  lines : ∀ event, some event ∈ rs.lines.getD [] → Checkable rs.stack.event event
  counts : CountsComparable (.dict items) (finalEvents (rs.lines.getD [])).length
  paths : ∀ event ∈ finalEvents (rs.lines.getD []), PathsText event

theorem exists_verify {rs : RecordSet} {files : Files} {key : Option (Except Failure PublicKey)}
    {expected : Option String} {items : List (Key × PyVal)} (hsummary : rs.summary = some (.dict items)) :
    (∃ fs, verify rs files key expected = .ok fs) ↔ Returns rs key items := by
  simp only [verify_eq_ok hsummary]
  constructor
  · rintro ⟨fs, hfile, hline, keys, signature, loop, tail, finals, hkeys, hsig, hloop, htail,
      hfinals, -⟩
    exact ⟨⟨hfile, hline⟩, exists_keyFindings.1 ⟨_, hkeys⟩, exists_signatureFindings.1 ⟨_, hsig⟩,
      exists_checkLines.1 ⟨_, hloop⟩, exists_tailFindings.1 ⟨_, htail⟩,
      exists_checkFinals.1 ⟨_, hfinals⟩⟩
  · rintro ⟨⟨hfile, hline⟩, hkey, hsig, hlines, hcounts, hpaths⟩
    obtain ⟨keys, hkeys⟩ := exists_keyFindings.2 hkey
    obtain ⟨signature, hsig⟩ := exists_signatureFindings.2 hsig
    obtain ⟨loop, hloop⟩ := exists_checkLines.2 hlines
    obtain ⟨tail, htail⟩ := exists_tailFindings.2 hcounts
    obtain ⟨finals, hfinals⟩ := exists_checkFinals.2 hpaths
    exact ⟨_, hfile, hline, keys, signature, loop, tail, finals, hkeys, hsig, hloop, htail, hfinals,
      rfl⟩

theorem report_eq_nil {ok : Bool} {f : Finding} : report ok f = [] ↔ ok = true := by
  cases ok <;> simp [report]

theorem schemaFindings_eq_nil {schema : Option PyVal} :
    schemaFindings schema = [] ↔ pyEq (schema.getD .null) schemaDocument = true := by
  rw [schemaFindings, List.append_eq_nil_iff, report_eq_nil, report_eq_nil]
  cases schema with
  | none => exact iff_of_false (fun h => by cases h.1) (by simp [pyEq, schemaDocument, PyVal.number])
  | some v => simp

end TodDl.Provenance
