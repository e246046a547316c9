/-
  Provenance records — what an accepted record set fixes.

  The summary names the digest of the last event, every event names the digest of
  the event before it, and every digest is computed from the event.  So with
  one signed summary two accepted files of events are the same, event by event,
  unless two different byte strings hashed in them have one SHA-256
  (`accepted_same`).  Canonical JSON adds no such assumption: it reads back.
-/
import TodDl.Lib.Linked
import TodDl.Lib.Posix
import TodDl.Provenance.Canonical
import TodDl.Provenance.Chain
import TodDl.Provenance.Lines

namespace TodDl.Provenance

/-! ## Fields of sorted objects -/

theorem lookup_eq_some_iff {items : List (Key × PyVal)} {name : String} {v : PyVal}
    (hnodup : (items.map (·.1)).Nodup) : lookup name items = some v ↔ (Key.str name, v) ∈ items := by
  constructor
  · intro h
    exact (perm_of_lookup hnodup h).mem_iff.2 List.mem_cons_self
  · intro h
    rw [lookup, find_of_mem hnodup h]
    rfl

/-- Objects that are the same up to the order of fields have the same fields. -/
theorem lookup_of_sorted {items items' : List (Key × PyVal)} {name : String} {v : PyVal}
    (hnodup : (items.map (·.1)).Nodup) (hnodup' : (items'.map (·.1)).Nodup)
    (hr' : RecordableFields items')
    (h : (PyVal.dict items).sorted = (PyVal.dict items').sorted) (hv : lookup name items = some v) :
    ∃ w, lookup name items' = some w ∧ w.sorted = v.sorted := by
  rw [sorted_dict, sorted_dict, PyVal.dict.injEq] at h
  have hmem : (Key.str name, v.sorted) ∈ (textFields items).map fun p => (Key.str p.1, p.2.sorted) := by
    refine List.mem_map.2 ⟨(name, v), (perm_sorted _).mem_iff.2 ?_, rfl⟩
    exact List.mem_map.2 ⟨_, (lookup_eq_some_iff hnodup).1 hv, rfl⟩
  rw [h] at hmem
  obtain ⟨p, hp, heq⟩ := List.mem_map.1 hmem
  obtain ⟨q, hq, rfl⟩ := mem_textFields hp
  obtain ⟨⟨name', hname⟩, -⟩ := recordableFields_iff.1 hr' q hq
  rw [hname] at heq
  obtain ⟨hkey, hval⟩ := Prod.mk.inj heq
  refine ⟨q.2, (lookup_eq_some_iff hnodup').2 ?_, hval⟩
  obtain rfl : name' = name := Key.str.inj hkey
  rw [← hname]
  exact hq

/-! ## One digest, one event -/

/-- The byte strings that are hashed in the lines of a file. -/
def Hashed (lines : List (Option PyVal)) (bytes : List UInt8) : Prop :=
  ∃ event depth, some event ∈ lines ∧
    canonicalJson depth (.dict (event.items.filter fun p => p.1 ≠ .str "event_digest")) = .ok bytes

/-- No byte string hashed in the one file and another one hashed in the other file have one
    SHA-256. -/
def CollisionFree (lines lines' : List (Option PyVal)) : Prop :=
  ∀ bytes bytes', Hashed lines bytes → Hashed lines' bytes' →
    Lib.Sha256.hexdigest bytes = Lib.Sha256.hexdigest bytes' → bytes = bytes'

/-- The hashes of one file do not collide where its events have digests of their own. -/
theorem collisionFree_self {depth : ℕ} {r s : String} {lines : List (Option PyVal)}
    (h : ∀ e, some e ∈ lines → Faultless depth r s e)
    (hown : ∀ e e', some e ∈ lines → some e' ∈ lines →
      e.get "event_digest" = e'.get "event_digest" → e = e') : CollisionFree lines lines := by
  have hdigest : ∀ {e n bytes}, some e ∈ lines →
      canonicalJson n (.dict (e.items.filter fun p => p.1 ≠ .str "event_digest")) = .ok bytes →
      e.get "event_digest" = .str (Lib.Sha256.hexdigest bytes) := by
    intro e n bytes he hbytes
    obtain ⟨d, hd, -, hunsealed⟩ := (h e he).digest
    obtain ⟨-, -, hhash⟩ := digest_eq_ok.1 hunsealed
    obtain ⟨-, -, hrender⟩ := canonicalJson_eq_ok.1 hbytes
    rw [hd, ← hhash, hrender]
  rintro bytes bytes' ⟨e, n, he, hbytes⟩ ⟨e', n', he', hbytes'⟩ heq
  obtain rfl := hown e e' he he' ((hdigest he hbytes).trans (heq ▸ (hdigest he' hbytes').symm))
  exact (canonicalJson_eq_ok.1 hbytes).2.2.symm.trans (canonicalJson_eq_ok.1 hbytes').2.2

/-- One event up to the order of its fields. -/
structure SameEvent (event event' : PyVal) : Prop where
  conforms : Conforms (some event)
  sorted : event.sorted = event'.sorted
  previous : event.get "previous_digest" = event'.get "previous_digest"

theorem decodedFields_iff {items : List (Key × PyVal)} : DecodedFields items ↔
    ∀ p ∈ items, (∀ repr, p.1 ≠ .other repr) ∧ Decoded p.2 := by
  induction items with
  | nil => simp [DecodedFields]
  | cons p rest ih => rw [DecodedFields, ih, List.forall_mem_cons]

theorem Decoded.filter {items : List (Key × PyVal)} (h : Decoded (.dict items))
    (keep : Key × PyVal → Bool) : Decoded (.dict (items.filter keep)) := by
  rw [Decoded, decodedFields_iff] at h ⊢
  exact ⟨h.1.sublist (List.filter_sublist.map _), fun p hp => h.2 p (List.mem_filter.1 hp).1⟩

/-- A conforming event has a previous digest, which is text or nothing. -/
theorem Conforms.previous {event : PyVal} (h : Conforms (some event)) :
    ∃ v, lookup "previous_digest" event.items = some v ∧ IsLink v := by
  obtain ⟨items, eventType, rules, heq, -, hkeys, hvalid, -⟩ := h
  cases heq
  obtain ⟨hv, hfield⟩ := valid_common hkeys hvalid (t := nullableHex)
    (show "previous_digest" ∈ commonFields by simp [commonFields]) rfl
  refine ⟨_, hv, ?_⟩
  obtain ⟨t, ht, htype⟩ := hfield.admits.types [.string, .null] rfl
  have htext := (hfield.admits.pattern .hex rfl).1
  revert htype htext
  cases (PyVal.dict items).get "previous_digest" with
  | null => exact fun _ _ => .inl rfl
  | str d => exact fun _ _ => .inr ⟨d, rfl⟩
  | badStr codes => exact fun _ htext => absurd rfl (htext codes)
  | _ =>
    simp only [List.mem_cons, List.not_mem_nil, or_false] at ht
    rcases ht with rfl | rfl <;> exact fun htype _ => by cases htype

theorem sorted_link {v link : PyVal} (hlink : IsLink link) (hv : IsLink v)
    (h : v.sorted = link.sorted) : v = link := by
  rcases hlink with rfl | ⟨d, rfl⟩ <;> rcases hv with rfl | ⟨d', rfl⟩ <;>
    simp_all [PyVal.sorted]

/-- **One digest, one event**, where the hashes do not collide. -/
theorem same_of_digest {depth : ℕ} {r s : String} {lines lines' : List (Option PyVal)}
    (hfree : CollisionFree lines lines')
    {event event' : PyVal} (hmem : some event ∈ lines) (hmem' : some event' ∈ lines')
    (hd : Decoded event) (hd' : Decoded event') (h : Faultless depth r s event)
    (h' : Faultless depth r s event')
    (heq : event.get "event_digest" = event'.get "event_digest") : SameEvent event event' := by
  obtain ⟨v, hv, hlink⟩ := h.conforms.previous
  obtain ⟨v', hv', hlink'⟩ := h'.conforms.previous
  obtain ⟨items, _, _, hitems, -, -, -, hr⟩ := h.conforms
  obtain ⟨items', _, _, hitems', -, -, -, hr'⟩ := h'.conforms
  cases hitems
  cases hitems'
  obtain ⟨d, hdigest, -, hexpected⟩ := h.digest
  obtain ⟨d', hdigest', -, hexpected'⟩ := h'.digest
  obtain rfl : d = d' := PyVal.str.inj (hdigest.symm.trans (heq.trans hdigest'))
  obtain ⟨bytes, hbytes, hhash⟩ := map_eq_ok.1 hexpected
  obtain ⟨bytes', hbytes', hhash'⟩ := map_eq_ok.1 hexpected'
  obtain rfl := hfree bytes bytes' ⟨_, _, hmem, hbytes⟩ ⟨_, _, hmem', hbytes'⟩
    (hhash.trans hhash'.symm)
  have hrest := sorted_of_canonicalJson (hd.filter _) (hd'.filter _) hbytes hbytes'
  rw [Decoded] at hd hd'
  rw [Recordable] at hr hr'
  have hget : ∀ {items : List (Key × PyVal)}, (PyVal.dict items).get "event_digest" = .str d →
      lookup "event_digest" items = some (.str d) := fun {items} hget => by
    cases hlookup : lookup "event_digest" items with
    | none => rw [PyVal.get, PyVal.items, hlookup] at hget; cases hget
    | some u => rw [PyVal.get, PyVal.items, hlookup] at hget; exact congrArg some hget
  have hsorted := sorted_of_filter hd.1 hd'.1 hr hr' (hget hdigest) (hget hdigest') hrest
  obtain ⟨w, hw, hsame⟩ := lookup_of_sorted hd.1 hd'.1 hr' hsorted hv
  obtain rfl : w = v' := by simpa [PyVal.items, hw] using hv'
  refine ⟨h.conforms, hsorted, ?_⟩
  rw [PyVal.get, PyVal.get, hv, PyVal.items, hw]
  exact (sorted_link hlink hlink' hsame).symm

/-! ## Final files -/

/-- A path below a directory: at least one name, and none that is `.`, `..` or has a
    separator. -/
def SafeParts (parts : List (List ℕ)) : Prop :=
  parts ≠ [] ∧ ∀ c ∈ parts, c ≠ [] ∧ c ≠ [46] ∧ c ≠ [46, 46] ∧ 47 ∉ c

theorem safeParts_of_relativeText {v : PyVal} {parts : List (List ℕ)}
    (h : relativeText v = .ok parts) : SafeParts parts := by
  rw [relativeText] at h
  split at h
  · next codes hcodes =>
    split at h
    · cases h
    · next hsafe =>
      cases h
      simp only [Bool.or_eq_true, not_or, decide_eq_true_eq, List.isEmpty_iff,
        List.contains_iff_mem] at hsafe
      refine ⟨hsafe.1.2, fun c hc => ?_⟩
      obtain ⟨hsplit, hkeep⟩ := List.mem_filter.1 hc
      have hne : c ≠ [] ∧ c ≠ [46] := by simpa using hkeep
      exact ⟨hne.1, hne.2, fun heq => hsafe.2 (heq ▸ hc), Lib.Posix.notMem_of_mem_splitOn hsplit⟩
  · cases h

/-- The event names an existing file below the destination, with its size and digest. -/
def NamesFinal (files : Files) (event : PyVal) : Prop :=
  ∃ parts bytes, relativeText (event.get "final_relative_path") = .ok parts ∧ SafeParts parts ∧
    files parts = some bytes ∧ event.get "byte_count" = .int bytes.length ∧
    event.get "sha256" = .str (Lib.Sha256.hexdigest bytes)

/-- A finalized event that conforms has an integer for its byte count. -/
theorem byteCount_of_conforms {event : PyVal} (h : Conforms (some event))
    (htype : event.get "event_type" = .str "finalized") :
    ∃ i : ℤ, event.get "byte_count" = .int i := by
  obtain ⟨items, eventType, rules, hitems, hrules, hkeys, hvalid, -⟩ := h
  cases hitems
  have hpresent : ∀ name ∈ commonFields ++ rules.map (·.1), ∃ v, lookup name items = some v :=
    fun name hname => Option.isSome_iff_exists.1 (lookup_isSome.2 ((hkeys _).2 ⟨name, hname, rfl⟩))
  obtain ⟨v, hv⟩ := hpresent "event_type" (by simp [commonFields])
  obtain rfl : v = .str "finalized" := by simpa [PyVal.get, PyVal.items, hv] using htype
  have hconst : Valid (.str "finalized") (.ofConst (.str eventType)) := hvalid.field hv rfl
  obtain rfl : eventType = "finalized" :=
    (PyVal.str.inj (pyEq_str.1 (hconst.admits.const _ rfl))).symm
  obtain rfl : rules = [("item_id", hexSchema), ("source_url", textSchema),
      ("logical_relative_path", textSchema), ("final_relative_path", textSchema),
      ("byte_count", countSchema), ("sha256", hexSchema), ("validation_method_version", textSchema),
      ("finalized_at", timestampSchema), ("expected_size", validationObject),
      ("expected_checksum", validationObject), ("etag", validationObject),
      ("last_modified", validationObject)] := by
    simpa [eventFieldRules] using hrules
  obtain ⟨w, hw⟩ := hpresent "byte_count" (by simp)
  have hcount : Valid w countSchema := hvalid.field hw rfl
  obtain ⟨t, ht, hinteger⟩ := hcount.admits.types [.integer] rfl
  obtain rfl := List.mem_singleton.1 ht
  cases w with
  | int i => exact ⟨i, by simp [PyVal.get, PyVal.items, hw]⟩
  | _ => cases hinteger

theorem namesFinal_of_checkFinal {files : Files} {event : PyVal} (h : checkFinal files event = .ok [])
    (hcount : ∃ i : ℤ, event.get "byte_count" = .int i) : NamesFinal files event := by
  unfold checkFinal at h
  split at h
  · cases h
  · next logical stored hlogical =>
    split at h
    · next _ parts _ hparts =>
      split at h
      · cases h
      · next bytes hbytes =>
        simp only [Except.ok.injEq, List.append_eq_nil_iff, report_eq_nil] at h
        obtain ⟨u, hu, hrelative⟩ := Option.map_eq_some_iff.1 hparts
        obtain ⟨i, hi⟩ := hcount
        have hget : event.get "final_relative_path" = u := by rw [PyVal.get, hu]; rfl
        refine ⟨parts, bytes, by rw [hget, hrelative], safeParts_of_relativeText hrelative, hbytes,
          ?_, ?_⟩
        · rw [hi] at h ⊢
          rw [int_pyEq.1 h.1]
        · exact str_pyEq.1 h.2
    · cases h
    · cases h
    · cases h

theorem checkFinals_eq_nil {files : Files} {events : List PyVal} :
    checkFinals files events = .ok [] ↔ ∀ e ∈ events, checkFinal files e = .ok [] := by
  induction events with
  | nil => exact iff_of_true rfl (List.forall_mem_nil _)
  | cons e rest ih =>
    simp only [checkFinals, bind, bind_eq_ok, pure, Except.pure, Except.ok.injEq,
      List.append_eq_nil_iff, List.forall_mem_cons, ← ih]
    constructor
    · rintro ⟨_, he, _, hrest, rfl, rfl⟩
      exact ⟨he, hrest⟩
    · rintro ⟨he, hrest⟩
      exact ⟨_, he, _, hrest, rfl, rfl⟩

/-! ## Accepted record sets -/

/-- The summary is an object with a signature that the key accepts. -/
def SignedSummary (depth : ℕ) (k : PublicKey) (summary : Option PyVal) : Prop :=
  ∃ items, summary = some (.dict items) ∧ checkSignature depth k items = .ok true

/-- The record files with other contents of `events.jsonl`. -/
def RecordFiles.withEvents (f : RecordFiles) (contents : List UInt8) : RecordFiles :=
  { f with events := some contents }

/-- What an accepted file of events is: a chain of faultless events up to the digest in the
    summary, whose finalized events name final files. -/
theorem accepted_chain {rs : RecordSet} {files : Files} {key : Option (Except Failure PublicKey)}
    {expected : Option String} {items : List (Key × PyVal)}
    (hsummary : rs.summary = some (.dict items)) (h : verify rs files key expected = .ok []) :
    ∃ events, rs.lines = some (events.map some) ∧
      Chained rs.stack.event rs.runId rs.sessionId 1 .null [] events
        ((PyVal.dict items).get "final_event_digest") ∧
      ∀ e ∈ events, e.get "event_type" = .str "finalized" → NamesFinal files e := by
  obtain ⟨-, -, keys, signature, ⟨last, found⟩, tail, finals, -, -, hloop, htail, hfinals, hnil⟩ :=
    (verify_eq_ok hsummary).1 h
  simp only [List.nil_eq, List.append_eq_nil_iff] at hnil
  obtain ⟨⟨⟨⟨_, hlines⟩, hfound⟩, htailnil⟩, hfinalsnil⟩ := hnil
  subst hfound htailnil hfinalsnil
  obtain ⟨lines, hrs⟩ := Option.isSome_iff_exists.1 (report_eq_nil.1 hlines)
  rw [hrs, Option.getD_some] at hloop htail hfinals
  obtain ⟨events, rfl, hchained⟩ := (checkLines_nil_iff (.inl rfl)).1 hloop
  refine ⟨events, hrs, ?_, fun e he htype => ?_⟩
  · simp only [tailFindings, bind, bind_eq_ok, pure, Except.pure, Except.ok.injEq,
      List.append_eq_nil_iff, report_eq_nil] at htail
    obtain ⟨_, -, ⟨⟨-, hfinal⟩, -⟩, -⟩ := htail
    rwa [(hchained.isLink_last (.inl rfl)).pyEq_iff.1 hfinal]
  · have hmem : e ∈ finalEvents (events.map some) := by
      refine List.mem_filter.2 ⟨by simpa using he, ?_⟩
      rw [htype]
      simp [pyEq]
    exact namesFinal_of_checkFinal (checkFinals_eq_nil.1 hfinals e hmem)
      (byteCount_of_conforms (hchained.faultless e he).conforms htype)

/-- The lines of the file, decoded. -/
def eventLines (contents : List UInt8) : List (Option PyVal) :=
  (splitlines [] contents).map loadBytes

theorem decoded_eventLines {contents : List UInt8} {event : PyVal}
    (h : some event ∈ eventLines contents) : Decoded event := by
  obtain ⟨line, -, hline⟩ := List.mem_map.1 h
  exact decoded_loadBytes hline

/-- Two lines that are one event up to the order of its fields. -/
def SameLine (line line' : Option PyVal) : Prop :=
  ∃ event event', line = some event ∧ line' = some event' ∧ Conforms line ∧
    event.sorted = event'.sorted

/-- **Accepted records are tamper-evident.**  With one signed summary, two accepted files of
    events hold the same events in one order, where the hashes do not collide; and every
    finalized event names a final file. -/
theorem accepted_same (f : RecordFiles) (contents contents' : List UInt8) (files : Files)
    (k : PublicKey) (expected : Option String)
    (hsigned : SignedSummary f.stack.summary k f.read.summary)
    (hfree : CollisionFree (eventLines contents) (eventLines contents'))
    (h : verify (f.withEvents contents).read files (some (.ok k)) expected = .ok [])
    (h' : verify (f.withEvents contents').read files (some (.ok k)) expected = .ok []) :
    List.Forall₂ SameLine (eventLines contents) (eventLines contents') ∧
      ∀ event, some event ∈ eventLines contents →
        event.get "event_type" = .str "finalized" → NamesFinal files event := by
  obtain ⟨items, hsummary, -⟩ := hsigned
  obtain ⟨events, hlines, hchained, hfinals⟩ :=
    @accepted_chain (f.withEvents contents).read _ _ _ _ hsummary h
  obtain ⟨events', hlines', hchained', -⟩ :=
    @accepted_chain (f.withEvents contents').read _ _ _ _ hsummary h'
  have hevents : eventLines contents = events.map some := Option.some.inj hlines
  have hevents' : eventLines contents' = events'.map some := Option.some.inj hlines'
  have hmem : ∀ e ∈ events, some e ∈ eventLines contents := fun e he =>
    hevents ▸ List.mem_map_of_mem he
  have hmem' : ∀ e ∈ events', some e ∈ eventLines contents' := fun e he =>
    hevents' ▸ List.mem_map_of_mem he
  have hdigest : ∀ {e : PyVal}, Faultless f.stack.event f.runId f.sessionId e →
      e.get "event_digest" ≠ .null := fun hs hnull => by
    obtain ⟨d, hd, -⟩ := hs.digest
    rw [hd] at hnull
    cases hnull
  -- from the last event, whose digest the summary names, back to the first
  have hsame : List.Forall₂ SameEvent events events' := hchained.linked.forall₂
    (fun e he e' he' heq => same_of_digest hfree (hmem e he) (hmem' e' he')
      (decoded_eventLines (hmem e he)) (decoded_eventLines (hmem' e' he'))
      (hchained.faultless e he) (hchained'.faultless e' he') heq)
    (fun _ _ hs => hs.previous) (fun e he => hdigest (hchained.faultless e he))
    (fun e he => hdigest (hchained'.faultless e he)) hchained'.linked
  constructor
  · rw [hevents, hevents', List.forall₂_map_left_iff, List.forall₂_map_right_iff]
    exact hsame.imp fun _ _ hs => ⟨_, _, rfl, rfl, hs.conforms, hs.sorted⟩
  · intro event hevent
    rw [hevents] at hevent
    exact hfinals event (by simpa using hevent)

end TodDl.Provenance
