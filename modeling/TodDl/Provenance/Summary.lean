/-
  Provenance records — the summary that `close` writes, and how the verifier reads it.

  The summary is in its schema (`valid_signedSummary`).  Read back with its fields in order
  (`ReadBack`), it names the record path, the schema and the key, and its signature verifies.
-/
import TodDl.Provenance.Honest

namespace TodDl.Provenance

/-! ## The summary -/

/-- The summary that `close` writes; `bytes` is what it signs. -/
def Writer.signedSummary (w : Writer) (c : Closing) (schemaSha256 : String) (key : SigningKey)
    (bytes : List UInt8) : List (Key × PyVal) :=
  w.unsignedSummary c schemaSha256 key ++ [(.str "signature", .str (key.sign bytes))]

section
variable {w : Writer} {c : Closing} {sha : String} {key : SigningKey} {io : EventIo}
  {bytes : List UInt8} {depth : ℕ}

theorem close_returned {summaryFails : Bool} {v : PyVal}
    (h : (w.close c sha key io summaryFails).1 = .ok v) :
    (∃ e, w.event "run_closed" (Writer.closedFields c) io = (.ok e, w.call (c.call io))) ∧
      ∃ bytes, canonicalJson io.depth
          (.dict ((w.call (c.call io)).unsignedSummary c sha key)) = .ok bytes ∧
        v = .dict ((w.call (c.call io)).signedSummary c sha key bytes) := by
  have hcall : w.call (c.call io) = (w.event "run_closed" (Writer.closedFields c) io).2 := rfl
  rw [hcall]
  unfold Writer.close at h
  cases he : w.event "run_closed" (Writer.closedFields c) io with
  | mk r w' =>
    rw [he] at h
    cases r with
    | error e => cases h
    | ok e =>
      simp only at h
      cases hb : canonicalJson io.depth (.dict (w'.unsignedSummary c sha key)) with
      | error x => rw [hb] at h; cases h
      | ok bytes =>
        rw [hb] at h
        cases summaryFails with
        | true => cases h
        | false => exact ⟨⟨e, rfl⟩, bytes, rfl, (Except.ok.inj h).symm⟩

theorem recordable_signedSummary
    (h : canonicalJson depth (.dict (w.unsignedSummary c sha key)) = .ok bytes) :
    Recordable (.dict (w.signedSummary c sha key bytes)) := by
  have hr := (canonicalJson_eq_ok.1 h).1
  rw [Recordable, recordableFields_iff] at hr ⊢
  intro p hp
  rcases List.mem_append.1 hp with hp | hp
  · exact hr p hp
  · rw [List.mem_singleton.1 hp]
    exact ⟨⟨_, rfl⟩, trivial⟩

/-- The signature does not nest. -/
theorem nesting_signedSummary :
    nesting (.dict (w.signedSummary c sha key bytes)) =
      nesting (.dict (w.unsignedSummary c sha key)) := by
  rw [nesting, nesting, Nat.add_right_cancel_iff]
  refine eq_of_forall_ge_iff fun n => ?_
  rw [nestingFields_le_iff, nestingFields_le_iff, Writer.signedSummary, List.forall_mem_append,
    List.forall_mem_singleton]
  exact and_iff_left (Nat.zero_le n)

theorem decoded_nat {n : ℕ} (h : n < 10 ^ intMaxStrDigits) : Decoded (.int n) := by
  show (n : ℤ).natAbs < 10 ^ intMaxStrDigits
  rwa [Int.natAbs_natCast]

theorem decoded_signedSummary {finals : ℕ} (hc : c.Proper finals) (hlink : IsLink w.previousDigest)
    (hsequence : w.sequence < 10 ^ intMaxStrDigits)
    (hfinals : w.finalizedCount < 10 ^ intMaxStrDigits) :
    Decoded (.dict (w.signedSummary c sha key bytes)) := by
  obtain ⟨hdigests, hsettings, hselected, hcounts, -⟩ := hc.decoded
  have hprevious : Decoded w.previousDigest := by
    rcases hlink with h | ⟨d, h⟩ <;> rw [h] <;> trivial
  have hversion : Decoded schemaVersion := decoded_nat (Nat.one_lt_pow (by decide) (by decide))
  rw [Decoded, decodedFields_iff]
  refine ⟨by simp [Writer.signedSummary, Writer.unsignedSummary], ?_⟩
  simp only [Writer.signedSummary, Writer.unsignedSummary, List.cons_append, List.nil_append,
    List.forall_mem_cons]
  exact ⟨⟨str_ne_other _, hversion⟩, ⟨str_ne_other _, trivial⟩, ⟨str_ne_other _, trivial⟩,
    ⟨str_ne_other _, hdigests⟩, ⟨str_ne_other _, hsettings⟩,
    ⟨str_ne_other _, decoded_nat hsequence⟩, ⟨str_ne_other _, hprevious⟩,
    ⟨str_ne_other _, hselected⟩, ⟨str_ne_other _, hcounts⟩,
    ⟨str_ne_other _, decoded_nat hfinals⟩, ⟨str_ne_other _, trivial⟩, ⟨str_ne_other _, trivial⟩,
    ⟨str_ne_other _, trivial⟩, List.forall_mem_nil _⟩

end

/-! ## The schema of the summary -/

theorem ValidField.of_property {s t : Schema} {k : Key} {v : PyVal} (ht : s.property k = some t)
    (h : Valid v t) : ValidField s k v := by
  rw [ValidField, ht]
  exact h

theorem valid_list (l : List PyVal) : Valid (.list l) (.ofTypes [.array]) := by
  refine (schemaErrors_eq_nil _ _ "$").1 ?_
  simp [schemaErrors, valueProblems, typeProblem, textProblems, rangeProblems, hasType,
    Schema.ofTypes, Schema.const, Schema.enum, Schema.types, Schema.items]

theorem valid_dict (d : List (Key × PyVal)) : Valid (.dict d) (.ofTypes [.object]) := by
  have hfields : fieldErrors d (.ofTypes [.object]) "$" = [] := by
    rw [fieldErrors_eq_nil, validFields_iff]
    intro p _
    rw [ValidField]
    cases p.1 <;> trivial
  refine (schemaErrors_eq_nil _ _ "$").1 ?_
  rw [schemaErrors, hfields]
  simp [valueProblems, typeProblem, textProblems, rangeProblems, requiredProblems, hasType,
    Schema.ofTypes, Schema.const, Schema.enum, Schema.types, Schema.required]

theorem valid_count (n : ℕ) : Valid (.int n) countSchema := by
  refine (schemaErrors_eq_nil _ _ "$").1 ?_
  have hmin : ¬ (n : ℤ) < 0 := by omega
  simp [schemaErrors, valueProblems, typeProblem, textProblems, rangeProblems, hasType, countSchema,
    Schema.ofRange, Schema.const, Schema.enum, Schema.types, Schema.minimum, Schema.maximum, hmin]

theorem valid_pattern {p : Pattern} {s : String} (h : p.search s = true) {ts : List TypeName}
    (hts : TypeName.string ∈ ts) : Valid (.str s) (.ofPattern ts p) := by
  refine (schemaErrors_eq_nil _ _ "$").1 ?_
  have htype : ts.any (hasType (.str s)) = true := List.any_eq_true.2 ⟨_, hts, rfl⟩
  simp [schemaErrors, valueProblems, typeProblem, textProblems, rangeProblems, htype, h,
    Schema.ofPattern, Schema.const, Schema.enum, Schema.types, Schema.pattern, Schema.minLength]

/-- The summary is in its schema where the identifiers and the counts are, which the schema of
    the `run_closed` event has checked. -/
theorem valid_signedSummary {w : Writer} {c : Closing} {key : SigningKey} {k : PublicKey}
    {sign : List UInt8 → List UInt8} {finals : ℕ} {bytes schema : List UInt8}
    (hc : c.Proper finals) (hkey : KeyPair key k sign) (hsound : w.Sound)
    (hrun : Valid (.str w.runId) (.ofText 1)) (hsession : Valid (.str w.sessionId) uuidSchema)
    (hcounts : Valid c.durableOutcomeCounts countsSchema) :
    Valid (.dict (w.signedSummary c (Lib.Sha256.hexdigest schema) key bytes)) summarySchema := by
  obtain ⟨digests, hdigests⟩ := hc.digests
  obtain ⟨settings, hsettings⟩ := hc.settings
  obtain ⟨selected, hselected⟩ := hc.selected
  have hprevious : Valid w.previousDigest nullableHex := by
    rcases hsound with h | ⟨d, h, hd⟩ <;> rw [h]
    · exact (schemaErrors_eq_nil _ _ "$").1 (schemaErrors_null "$")
    · exact valid_pattern hd (by simp)
  have hsignature : Valid (.str (key.sign bytes)) (.ofPattern [.string] .signature) := by
    rw [hkey.text]
    exact valid_pattern (search_signatureText (hkey.length bytes)) (by simp)
  have hversion : Valid schemaVersion (.ofConst schemaVersion) :=
    (schemaErrors_eq_nil _ _ "$").1 (List.isEmpty_iff.1 (by decide))
  rw [Valid]
  refine ⟨⟨?_, ?_, ?_, ?_, ?_, ?_, ?_⟩, ?_, validFields_iff.2 ?_⟩
  · intro _ h; cases h
  · intro _ h; cases h
  · intro ts h; cases h; exact ⟨.object, by simp, rfl⟩
  · intro _ h; cases h
  · intro _ h; cases h
  · intro _ _ h; cases h
  · intro _ _ h; cases h
  · intro name hname
    rw [lookup_isSome]
    have hkeys : (w.signedSummary c (Lib.Sha256.hexdigest schema) key bytes).map (·.1) =
        summaryFields.map .str := rfl
    rw [hkeys]
    exact List.mem_map_of_mem hname
  · simp only [Writer.signedSummary, Writer.unsignedSummary, List.cons_append, List.nil_append,
      List.forall_mem_cons, hdigests, hsettings, hselected]
    exact ⟨.of_property rfl hversion, .of_property rfl hrun, .of_property rfl hsession,
      .of_property rfl (valid_list _), .of_property rfl (valid_dict _),
      .of_property rfl (valid_count _), .of_property rfl hprevious,
      .of_property rfl (valid_count _), .of_property rfl hcounts, .of_property rfl (valid_count _),
      .of_property rfl (valid_pattern (search_hexdigest _) (by simp)),
      .of_property rfl (valid_pattern (search_hexdigest _) (by simp)),
      .of_property rfl hsignature, List.forall_mem_nil _⟩

/-! ## The verifier on a closed session -/

theorem recordable_of_sorted {v v' : PyVal} (hr : Recordable v) (h : v.sorted = v') :
    Recordable v' := h ▸ hr.sorted

section
variable {w : Writer} {c : Closing} {key : SigningKey} {k : PublicKey}
  {sign : List UInt8 → List UInt8} {bytes schema : List UInt8} {items : List (Key × PyVal)}
  {depth : ℕ}

/-- The summary as the verifier reads it, where its stack lets a value nest `depth` deep. -/
structure ReadBack (depth : ℕ) (w : Writer) (c : Closing) (key : SigningKey)
    (bytes schema : List UInt8) (items : List (Key × PyVal)) : Prop where
  signed : canonicalJson depth
    (.dict (w.unsignedSummary c (Lib.Sha256.hexdigest schema) key)) = .ok bytes
  decoded : Decoded (.dict (w.signedSummary c (Lib.Sha256.hexdigest schema) key bytes))
  sorted : (PyVal.dict (w.signedSummary c (Lib.Sha256.hexdigest schema) key bytes)).sorted =
    .dict items

theorem ReadBack.recordable (h : ReadBack depth w c key bytes schema items) :
    Recordable (.dict (w.signedSummary c (Lib.Sha256.hexdigest schema) key bytes)) :=
  recordable_signedSummary h.signed

theorem ReadBack.recordable_items (h : ReadBack depth w c key bytes schema items) :
    Recordable (.dict items) :=
  recordable_of_sorted h.recordable h.sorted

/-- A field of the summary. -/
theorem ReadBack.get (h : ReadBack depth w c key bytes schema items) (name : String) :
    (PyVal.dict items).get name =
      ((PyVal.dict
        (w.signedSummary c (Lib.Sha256.hexdigest schema) key bytes)).get name).sorted := by
  rw [← h.sorted]
  exact get_sorted_dict h.recordable h.decoded name

theorem ReadBack.perm (h : ReadBack depth w c key bytes schema items) :
    items.Perm ((w.signedSummary c (Lib.Sha256.hexdigest schema) key bytes).map
      fun p => (p.1, p.2.sorted)) := by
  have hr := h.recordable
  obtain ⟨items', hitems', hperm⟩ := sorted_dict_perm
    (d := w.signedSummary c (Lib.Sha256.hexdigest schema) key bytes) (by rwa [Recordable] at hr)
  rw [h.sorted] at hitems'
  cases hitems'
  exact hperm

theorem ReadBack.summaryFindings (h : ReadBack depth w c key bytes schema items) (rs : RecordSet)
    (hrun : rs.runId = w.runId) (hsession : rs.sessionId = w.sessionId)
    (hschema : rs.schemaBytes = some schema) : summaryFindings rs items = [] := by
  have hkeys : ∀ k, k ∈ items.map (·.1) ↔ k ∈ summaryFields.map Key.str := by
    intro k
    rw [(keys_sorted h.perm).mem_iff]
    exact Iff.rfl
  have hself : ∀ s : String, pyEq (.str s) (.str s) = true := fun s => str_pyEq.2 rfl
  have hrunId : (PyVal.dict items).get "run_id" = .str w.runId := h.get "run_id"
  have hsessionId : (PyVal.dict items).get "session_id" = .str w.sessionId := h.get "session_id"
  have hsha : (PyVal.dict items).get "schema_sha256" = .str (Lib.Sha256.hexdigest schema) :=
    h.get "schema_sha256"
  have hfields : ((items.map (·.1)).all (fun k => k ∈ summaryFields.map .str) &&
      summaryFields.all fun name => (lookup name items).isSome) = true := by
    rw [Bool.and_eq_true, List.all_eq_true, List.all_eq_true]
    refine ⟨fun k hk => decide_eq_true ((hkeys k).1 hk), fun name hname => ?_⟩
    exact lookup_isSome.2 ((hkeys _).2 (List.mem_map_of_mem hname))
  rw [TodDl.Provenance.summaryFindings]
  simp only [hfields, hrun, hsession, hschema, hrunId, hsessionId, hsha, hself, Bool.and_self,
    report_true, List.append_nil]

theorem ReadBack.keyFindings (h : ReadBack depth w c key bytes schema items)
    (hkey : KeyPair key k sign) {expected : Option String}
    (hexpected : ∀ e, expected = some e → e = "" ∨ e = Lib.Sha256.hexdigest key.publicRaw) :
    keyFindings (.dict items) (some (.ok k)) expected = .ok [] := by
  have hprint : (PyVal.dict items).get "signing_key_fingerprint" =
      .str (Lib.Sha256.hexdigest key.publicRaw) := h.get "signing_key_fingerprint"
  have hraw : (Except.ok k : Except Failure PublicKey).bind (·.raw) = .ok key.publicRaw := hkey.raw
  simp only [TodDl.Provenance.keyFindings, hraw, hprint, str_pyEq.2, report_true, List.nil_append]
  cases expected with
  | none => rfl
  | some e =>
    rcases hexpected e rfl with rfl | rfl
    · rfl
    · cases hfilter : (some (Lib.Sha256.hexdigest key.publicRaw)).filter fun e => e ≠ "" with
      | none => rfl
      | some e =>
        have he := (Option.filter_eq_some_iff.1 hfilter).1
        rw [Option.some.injEq] at he
        simp [he]

/-- The signature verifies. -/
theorem ReadBack.checkSignature (h : ReadBack depth w c key bytes schema items)
    (hkey : KeyPair key k sign) : checkSignature depth k items = .ok true := by
  have hlookup : lookup "signature" items = some (.str (key.sign bytes)) :=
    lookup_sorted h.decoded.nodup h.perm "signature"
  have hfilter : (w.signedSummary c (Lib.Sha256.hexdigest schema) key bytes).filter
      (fun p => decide (p.1 ≠ .str "signature")) =
        w.unsignedSummary c (Lib.Sha256.hexdigest schema) key := rfl
  have hrender := render_filter_sorted h.recordable h.decoded h.sorted fun k => k ≠ .str "signature"
  have hnesting := nesting_filter_sorted h.recordable h.sorted fun k => k ≠ .str "signature"
  rw [hfilter] at hrender hnesting
  have hunsigned : Recordable (.dict (unsignedItems items)) := by
    have hr := h.recordable_items
    rw [Recordable, recordableFields_iff] at hr
    rw [unsignedItems, Recordable, recordableFields_iff]
    exact fun p hp => hr p (List.mem_filter.1 hp).1
  have hbytes : canonicalJson depth (.dict (unsignedItems items)) = .ok bytes := by
    obtain ⟨-, hfits, hsigned⟩ := canonicalJson_eq_ok.1 h.signed
    refine canonicalJson_eq_ok.2 ⟨hunsigned, ?_, ?_⟩
    · rwa [unsignedItems, hnesting]
    · rw [unsignedItems, hrender, hsigned]
  rw [TodDl.Provenance.checkSignature, hlookup, Option.getD_some, hkey.text,
    signatureBytes_text (hkey.length bytes), hbytes]
  exact hkey.verifies bytes

theorem ReadBack.signatureFindings (h : ReadBack depth w c key bytes schema items)
    (hkey : KeyPair key k sign) : signatureFindings depth (.dict items) (some (.ok k)) = .ok [] := by
  simp only [TodDl.Provenance.signatureFindings, PyVal.items, h.checkSignature hkey, report_true]

/-- The completed-item count is large enough. -/
theorem ReadBack.countsAgree (h : ReadBack depth w c key bytes schema items) {finals : ℕ}
    (hc : c.Proper finals) (hfinals : w.finalizedCount = finals) :
    countsAgree (.dict items) finals = .ok true := by
  obtain ⟨counts, n, hcounts, hcomplete, hle⟩ := hc.complete
  have hnumber : (PyVal.dict items).get "session_finalized_count" = .int w.finalizedCount :=
    h.get "session_finalized_count"
  have hget : (PyVal.dict items).get "durable_outcome_counts" = c.durableOutcomeCounts.sorted :=
    h.get "durable_outcome_counts"
  have hr : Recordable c.durableOutcomeCounts := h.recordable.get "durable_outcome_counts"
  have hd : Decoded c.durableOutcomeCounts := h.decoded.get "durable_outcome_counts"
  rw [hcounts] at hget hr hd
  obtain ⟨counts', hcounts', hperm⟩ := sorted_dict_perm (d := counts) (by rwa [Recordable] at hr)
  rw [hcounts'] at hget
  have hlookup : (lookup "complete" counts').getD (.int 0) = .int n := by
    rw [lookup_sorted hd.nodup hperm]
    cases hv : lookup "complete" counts with
    | none => rw [hv] at hcomplete; exact hcomplete
    | some v =>
      rw [hv, Option.getD_some] at hcomplete
      rw [Option.map_some, Option.getD_some, hcomplete]
      rfl
  have hless : lessThan (.int n) (finals : ℤ) = .ok false := by
    have hnot : ¬ ((n : ℚ) < ((finals : ℤ) : ℚ)) := by
      rw [Rat.intCast_lt_intCast]
      omega
    simp only [lessThan, PyVal.number, hnot, decide_false]
  simp only [TodDl.Provenance.countsAgree, hget, hnumber, PyVal.asInt, hfinals, hlookup, hless,
    ne_eq, not_true, if_false, Except.map, Bool.not_false]

end

end TodDl.Provenance
