/-
  Provenance records — a session that is closed is accepted.

  The calls of a session may fail.  The verifier, which reads the bytes on disk, has no finding
  exactly when no failed call kept a sequence number (`honest_verifies_iff`).
-/
import TodDl.Provenance.Summary

namespace TodDl.Provenance

/-! ## The session -/

/-- What the verifier finds of the record of a call. -/
structure Call.Reported (depth : ℕ) (runId sessionId : String) (files : Files) (a : Call)
    (event : PyVal) : Prop where
  genuine : Genuine depth runId sessionId event
  eventType : event.get "event_type" = .str a.eventType
  eventId : event.get "event_id" = .str a.io.eventId
  final : a.eventType = "finalized" → checkFinal files event.sorted = .ok []

section
variable {depth : ℕ} {runId sessionId : String} {cs : List Call} {c : Closing} {io : EventIo}
  {files : Files}

theorem Call.Wrote.reported {a : Call} {event : PyVal} {w : Writer} {d : String}
    (h : a.Wrote runId sessionId event w d) (ha : a.Proper) (hdepth : a.io.depth ≤ depth)
    (hf : a.eventType = "finalized" → a.Delivers files) :
    a.Reported depth runId sessionId files event := by
  have hgenuine := genuine_of_wrote h ha hdepth fun htype => (hf htype).validationOk h
  exact ⟨hgenuine, h.eventType ha, h.eventId ha,
    fun htype => checkFinal_delivered (hf htype) h hgenuine⟩

/-- The lines of a session and the calls they come from, the closing one last. -/
theorem Honest.lines (h : Honest runId sessionId cs c io files)
    (hdepth : ∀ a ∈ cs ++ [c.call io], a.io.depth ≤ depth)
    (hwrites : (c.call io).writes runId sessionId = true) :
    List.Forall₂ (fun a event => a.Reported depth runId sessionId files event ∧
        ∃ w d, Call.Wrote runId sessionId a event w d)
      ((cs.filter fun a => a.writes runId sessionId) ++ [c.call io])
      ((Writer.start runId sessionId).replay (cs ++ [c.call io])).events := by
  have hfew : (cs ++ [c.call io]).length < 10 ^ intMaxStrDigits := by
    rw [List.length_append, List.length_singleton]
    exact h.few
  have hfilter : (cs ++ [c.call io]).filter (fun a => a.writes runId sessionId) =
      (cs.filter fun a => a.writes runId sessionId) ++ [c.call io] := by
    rw [List.filter_append, List.filter_singleton, hwrites]
    rfl
  have hlines := (@wrote_replay runId sessionId _ hfew).1
  rw [hfilter] at hlines
  have hcalls : ∀ a ∈ (cs.filter fun a => a.writes runId sessionId) ++ [c.call io],
      a.Proper ∧ a.io.depth ≤ depth ∧ (a.eventType = "finalized" → a.Delivers files) := by
    intro a ha
    rcases List.mem_append.1 ha with ha | ha
    · obtain ⟨hmem, hw⟩ := List.mem_filter.1 ha
      exact ⟨h.proper a hmem, hdepth a (List.mem_append_left _ hmem), h.finals a hmem hw⟩
    · rw [List.mem_singleton.1 ha]
      exact ⟨h.closing.call io, hdepth _ (List.mem_append_right _ List.mem_cons_self),
        fun htype => absurd htype (by simp [Closing.call])⟩
  refine ((List.forall₂_and_left _ _).2 ⟨hcalls, hlines⟩).imp ?_
  rintro a event ⟨⟨hproper, hle, hf⟩, w, d, hwrote⟩
  exact ⟨hwrote.reported hproper hle hf, w, d, hwrote⟩

theorem finalEvents_sorted (events : List PyVal) :
    finalEvents (events.map fun e => some e.sorted) =
      (events.map PyVal.sorted).filter fun e => pyEq (e.get "event_type") (.str "finalized") := by
  rw [finalEvents, List.filterMap_map]
  congr 1
  induction events with
  | nil => rfl
  | cons e rest ih => rw [List.map_cons, ← ih]; rfl

theorem lastEvent_sorted (front : List PyVal) (event : PyVal) :
    lastEvent ((front ++ [event]).map fun e => some e.sorted) = event.sorted := by
  rw [lastEvent, List.filterMap_map]
  have hmap : (front ++ [event]).filterMap ((id : Option PyVal → Option PyVal) ∘
      fun e => some e.sorted) = (front ++ [event]).map PyVal.sorted := by
    induction front ++ [event] with
    | nil => rfl
    | cons e rest ih => rw [List.map_cons, ← ih]; rfl
  rw [hmap, List.map_append, List.map_singleton, List.getLast?_concat]
  rfl

theorem Call.Reported.isFinal {a : Call} {event : PyVal}
    (h : a.Reported depth runId sessionId files event) :
    pyEq (event.sorted.get "event_type") (.str "finalized") =
      decide (a.eventType = "finalized") := by
  rw [h.genuine.get_sorted, h.eventType]
  exact Bool.eq_iff_iff.2 (str_pyEq.trans (by simp [eq_comm]))

/-- What the lines of a session are for the checks of the summary and of the destination. -/
theorem Honest.finals_lines (h : Honest runId sessionId cs c io files)
    (hdepth : ∀ a ∈ cs ++ [c.call io], a.io.depth ≤ depth)
    (hwrites : (c.call io).writes runId sessionId = true) :
    (finalEvents (((Writer.start runId sessionId).replay (cs ++ [c.call io])).events.map
        fun e => some e.sorted)).length =
      (cs.filter fun a => a.writes runId sessionId).countP (fun a => a.eventType = "finalized") ∧
    checkFinals files (finalEvents (((Writer.start runId sessionId).replay
      (cs ++ [c.call io])).events.map fun e => some e.sorted)) = .ok [] := by
  have hlines := h.lines hdepth hwrites
  generalize ((Writer.start runId sessionId).replay (cs ++ [c.call io])).events = events at *
  rw [finalEvents_sorted]
  constructor
  · have hmap := map_eq_of_forall₂ (f := fun a : Call => decide (a.eventType = "finalized"))
      (g := fun e : PyVal => pyEq (e.sorted.get "event_type") (.str "finalized")) hlines
      fun a e hae => hae.1.isFinal.symm
    have hcount := congrArg (List.countP id) hmap
    rw [List.countP_map, List.countP_map, List.countP_append] at hcount
    rw [← List.countP_eq_length_filter, List.countP_map]
    refine Eq.trans hcount.symm ?_
    rw [show (id ∘ fun a : Call => decide (a.eventType = "finalized")) =
      fun a : Call => decide (a.eventType = "finalized") from rfl]
    simp [Closing.call]
  · refine checkFinals_eq_nil.2 fun e he => ?_
    obtain ⟨he, htype⟩ := List.mem_filter.1 he
    obtain ⟨event, hevent, rfl⟩ := List.mem_map.1 he
    obtain ⟨a, -, hreported, -⟩ := exists_of_forall₂ hlines hevent
    rw [hreported.isFinal, decide_eq_true_iff] at htype
    exact hreported.final htype

end

/-! ## Acceptance -/

section
variable {depth : ℕ} {runId sessionId : String} {cs : List Call} {c : Closing} {io : EventIo}
  {files : Files}

/-- Where no number is lost, the calls of a session come in order. -/
theorem Honest.inOrder (h : Honest runId sessionId cs c io files)
    (hnone : NoneLost runId sessionId (cs ++ [c.call io])) :
    InOrder runId sessionId (cs ++ [c.call io]) := by
  intro before a after heq _
  have hproper : a.Proper := by
    have hmem : a ∈ cs ++ [c.call io] := heq ▸ List.mem_append_right _ List.mem_cons_self
    rcases List.mem_append.1 hmem with hmem | hmem
    · exact h.proper a hmem
    · rw [List.mem_singleton.1 hmem]
      exact h.closing.call io
  have hbefore : NoneLost runId sessionId before := fun first b rest hb =>
    hnone first b (rest ++ a :: after) (by rw [heq, hb, List.append_assoc, List.cons_append])
  refine ⟨fun _ => hbefore, fun v hv => ?_, fun v hv => ?_⟩
  · rw [hproper.given_none (by simp [commonFields])] at hv
    cases hv
  · rw [hproper.given_none (by simp [commonFields])] at hv
    cases hv

/-- The schema of the `run_closed` event has checked the identifiers and the counts. -/
theorem closed_valid {event : PyVal} {w : Writer} {d : String}
    (h : (c.call io).Wrote runId sessionId event w d) :
    Valid (.str runId) (.ofText 1) ∧ Valid (.str sessionId) uuidSchema ∧
      Valid c.durableOutcomeCounts countsSchema := by
  have hvalid := h.valid _ rfl
  have hrun : lookup "run_id" event.items = some (.str runId) := by
    rw [h.record, ← h.ofRun]; rfl
  have hsession : lookup "session_id" event.items = some (.str sessionId) := by
    rw [h.record, ← h.ofSession]; rfl
  have hcounts : lookup "durable_outcome_counts" event.items = some c.durableOutcomeCounts :=
    h.lookup_given (by decide) rfl
  rw [h.record, Writer.sealed] at hvalid hrun hsession hcounts
  exact ⟨hvalid.field hrun rfl, hvalid.field hsession rfl, hvalid.field hcounts rfl⟩

/-- The numbers of a session: the finalized items, and bounds under which they are read back. -/
theorem Honest.numbers (h : Honest runId sessionId cs c io files)
    (hwrites : (c.call io).writes runId sessionId = true) :
    ((Writer.start runId sessionId).replay (cs ++ [c.call io])).finalizedCount =
        (cs.filter fun a => a.writes runId sessionId).countP (fun a => a.eventType = "finalized") ∧
      ((Writer.start runId sessionId).replay (cs ++ [c.call io])).sequence <
        10 ^ intMaxStrDigits ∧
      ((Writer.start runId sessionId).replay (cs ++ [c.call io])).finalizedCount <
        10 ^ intMaxStrDigits := by
  have hlength : (cs ++ [c.call io]).length < 10 ^ intMaxStrDigits := by simpa using h.few
  have hcounted : ((Writer.start runId sessionId).replay (cs ++ [c.call io])).finalizedCount =
      (cs.filter fun a => a.writes runId sessionId).countP fun a => a.eventType = "finalized" := by
    rw [(wrote_replay hlength).2, List.filter_append, List.filter_singleton, hwrites,
      List.countP_append]
    simp [Closing.call]
  refine ⟨hcounted, lt_of_le_of_lt (sequence_replay_le runId sessionId _) hlength, ?_⟩
  rw [hcounted]
  refine lt_of_le_of_lt (List.countP_le_length.trans (List.length_filter_le _ _)) ?_
  exact lt_of_le_of_lt (Nat.le_succ _) h.few

/-- The closing call of a `close` that returned wrote its record. -/
theorem closing_writes {event : PyVal} {w' : Writer} (hfew : cs.length + 1 < 10 ^ intMaxStrDigits)
    (h : ((Writer.start runId sessionId).replay cs).event "run_closed" (Writer.closedFields c) io =
      (.ok event, w')) :
    (c.call io).writes runId sessionId = true ∧ (c.call io).leaks runId sessionId = false := by
  obtain ⟨-, hrun, hsession, hsound, -⟩ := replayed_replay runId sessionId cs
  have hshort := @short_replay runId sessionId cs hfew
  rcases event_cases (c := c.call io) hsound with ⟨hw, hl, -⟩ | ⟨-, -, x, hx⟩ | ⟨-, -, x, hx⟩
  · rw [hrun, hsession, writesAt_eq hshort] at hw
    rw [hrun, hsession, leaksAt_eq hshort] at hl
    exact ⟨hw, hl⟩
  · exact absurd (hx.symm.trans h) (by simp)
  · exact absurd (hx.symm.trans h) (by simp)

/-- The IDs of the lines are those of the calls. -/
theorem nodup_eventIds {calls : List Call} {events : List PyVal}
    (hlines : List.Forall₂ (fun a event => Call.Reported depth runId sessionId files a event ∧
      ∃ w d, Call.Wrote runId sessionId a event w d) calls events)
    (hids : (calls.map fun a => a.io.eventId).Nodup) :
    (events.map fun e => e.get "event_id").Nodup := by
  have hmap := map_eq_of_forall₂ (f := fun a : Call => PyVal.str a.io.eventId)
    (g := fun e : PyVal => e.get "event_id") hlines fun a e hae => hae.1.eventId.symm
  have hstr := hids.map (f := PyVal.str) fun s t hst => PyVal.str.inj hst
  rw [← hmap]
  rwa [List.map_map] at hstr

/-- The checks of the summary against the lines, when every number taken has a line. -/
theorem ReadBack.tailFindings {n : ℕ} {w : Writer} {key : SigningKey} {bytes schema : List UInt8}
    {items : List (Key × PyVal)} {front : List PyVal} {last : PyVal} {wl : Writer} {d : String}
    {finals : ℕ} (h : ReadBack n w c key bytes schema items) (hc : c.Proper finals)
    (hcounted : w.finalizedCount = finals) (hlink : IsLink w.previousDigest)
    (hevents : w.events = front ++ [last]) (hlast : Genuine depth runId sessionId last)
    (hwrote : (c.call io).Wrote runId sessionId last wl d)
    (hfinals : (finalEvents (w.events.map fun e => some e.sorted)).length = finals)
    (hsame : w.sequence = w.events.length) :
    tailFindings (.dict items) (w.events.map fun e => some e.sorted) w.previousDigest =
      .ok [] := by
  have hagree := h.countsAgree hc hcounted
  have hevent : (PyVal.dict items).get "event_count" = .int w.events.length := by
    rw [h.get, ← hsame]; rfl
  have hfinal : (PyVal.dict items).get "final_event_digest" = w.previousDigest := by
    rw [h.get]
    exact hlink.sorted
  have hdurable : (PyVal.dict items).get "durable_outcome_counts" =
      c.durableOutcomeCounts.sorted := h.get "durable_outcome_counts"
  have hcounts : pyEq c.durableOutcomeCounts.sorted c.durableOutcomeCounts.sorted = true := by
    have hr : Recordable c.durableOutcomeCounts := h.recordable.get "durable_outcome_counts"
    exact pyEq_refl hr.sorted (hc.decoded.2.2.2.1.sorted hr)
  have hclosed : last.sorted.get "event_type" = .str "run_closed" ∧
      last.sorted.get "durable_outcome_counts" = c.durableOutcomeCounts.sorted := by
    rw [hlast.get_sorted, hlast.get_sorted, hwrote.eventType (hc.call io),
      hwrote.get_passed (by decide) rfl]
    exact ⟨rfl, rfl⟩
  have hlastEvent : lastEvent (w.events.map fun e => some e.sorted) = last.sorted := by
    rw [hevents]
    exact lastEvent_sorted front last
  simp only [TodDl.Provenance.tailFindings, hfinals, hagree, hevent, hfinal, hlink.pyEq_iff.2 rfl,
    hlastEvent, hclosed, hdurable, hcounts, List.length_map, int_pyEq.2, str_pyEq.2,
    Bool.and_self, Bool.or_true, report_true, List.append_nil, bind, Except.bind, pure,
    Except.pure]

/-- The schema that the constructor wrote is the one the verifier compares with. -/
theorem schemaFindings_emitted : schemaFindings (some schemaDocument.sorted) = [] := by
  obtain ⟨hr, hd⟩ := recordable_schemaDocument
  rw [schemaFindings, Option.getD_some, pyEq_sorted _ hr hd]
  rfl

section
variable {key : SigningKey} {k : PublicKey} {sign : List UInt8 → List UInt8}
  {expected : Option String} {summaryFails : Bool} {v : PyVal} {stack : Stack}

/-- What the verifier reads of a closed session. -/
theorem Honest.closed (h : Honest runId sessionId cs c io files)
    (hstack : ∀ a ∈ cs ++ [c.call io], stack.Holds a.io.depth)
    (hclose : (((Writer.start runId sessionId).replay cs).close c schemaSha256 key io
      summaryFails).1 = .ok v) :
    (c.call io).writes runId sessionId = true ∧ (c.call io).leaks runId sessionId = false ∧
      ∃ bytes items, ReadBack stack.summary
          ((Writer.start runId sessionId).replay (cs ++ [c.call io])) c key bytes schemaBytes
          items ∧
        ((((Writer.start runId sessionId).replay cs).close c schemaSha256 key io
            summaryFails).2.files v stack).read =
          { runId := runId
            sessionId := sessionId
            schemaBytes := some schemaBytes
            schema := some schemaDocument.sorted
            summary := some (.dict items)
            lines := some (((Writer.start runId sessionId).replay (cs ++ [c.call io])).events.map
              fun e => some e.sorted)
            stack := stack
            deepFile := false
            deepLine := none } := by
  rw [schemaSha256] at hclose ⊢
  obtain ⟨⟨e, he⟩, bytes, hbytes, rfl⟩ := close_returned hclose
  rw [close_eq.1]
  obtain ⟨hwrites, hkeeps⟩ := closing_writes h.few he
  have hlines := h.lines (fun a ha => (hstack a ha).event) hwrites
  obtain ⟨-, hsmall, hfew⟩ := h.numbers hwrites
  obtain ⟨-, hrun, hsession, hsound, -⟩ := replayed_replay runId sessionId (cs ++ [c.call io])
  have hholds : stack.Holds io.depth := hstack _ (List.mem_append_right _ List.mem_cons_self)
  rw [← replay_concat] at hbytes ⊢
  generalize (Writer.start runId sessionId).replay (cs ++ [c.call io]) = w at *
  have hgenuine : ∀ e ∈ w.events, Genuine stack.event runId sessionId e := fun e he => by
    obtain ⟨a, -, hreported, -⟩ := exists_of_forall₂ hlines he
    exact hreported.genuine
  have hnesting : ∀ e ∈ w.events, nesting e ≤ stack.line := fun e he => by
    obtain ⟨a, ha, -, w, d, hwrote⟩ := exists_of_forall₂ hlines he
    refine Nat.le_trans hwrote.nesting_le (hstack a ?_).line
    rcases List.mem_append.1 ha with ha | ha
    · exact List.mem_append_left _ (List.mem_filter.1 ha).1
    · exact List.mem_append_right _ ha
  have hlink : IsLink w.previousDigest := hsound.imp_right fun ⟨d, hd, _⟩ => ⟨d, hd⟩
  have hdecoded : Decoded
      (.dict (w.signedSummary c (Lib.Sha256.hexdigest schemaBytes) key bytes)) :=
    decoded_signedSummary h.closing hlink hsmall hfew
  have hrecord := recordable_signedSummary hbytes
  obtain ⟨items, hitems, -⟩ := sorted_dict_perm
    (d := w.signedSummary c (Lib.Sha256.hexdigest schemaBytes) key bytes)
    (by rwa [Recordable] at hrecord)
  obtain ⟨hunsigned, hfits, hwritten⟩ := canonicalJson_eq_ok.1 hbytes
  have hback : ReadBack stack.summary w c key bytes schemaBytes items :=
    ⟨canonicalJson_eq_ok.2 ⟨hunsigned, Nat.le_trans hfits hholds.summary, hwritten⟩, hdecoded,
      hitems⟩
  have hfits' : nesting (.dict (w.signedSummary c (Lib.Sha256.hexdigest schemaBytes) key bytes)) ≤
      stack.file := by
    rw [nesting_signedSummary]
    exact Nat.le_trans hfits hholds.file
  refine ⟨hwrites, hkeeps, bytes, items, hback, ?_⟩
  rw [read_files (fun e he => (hgenuine e he).recordable) (fun e he => (hgenuine e he).decoded)
    hnesting hrecord hdecoded hholds.schema hfits', hitems, hrun, hsession]

/-- In an accepted session the count of the summary is the number of lines. -/
theorem Honest.leaks_of_accepted (h : Honest runId sessionId cs c io files)
    (hstack : ∀ a ∈ cs ++ [c.call io], stack.Holds a.io.depth)
    (hclose : (((Writer.start runId sessionId).replay cs).close c schemaSha256 key io
      summaryFails).1 = .ok v)
    (hverify : verify ((((Writer.start runId sessionId).replay cs).close c schemaSha256 key io
      summaryFails).2.files v stack).read files (some (.ok k)) expected = .ok []) :
    ∀ a ∈ cs, a.leaks runId sessionId = false := by
  obtain ⟨-, -, bytes, items, hback, hread⟩ := h.closed hstack hclose
  rw [hread] at hverify
  have hnumbers := (replayed_replay runId sessionId (cs ++ [c.call io])).noneLost
  obtain ⟨-, -, _, _, loop, tail, _, -, -, -, htail, -, hnil⟩ := (verify_eq_ok rfl).1 hverify
  have hevent := hback.get "event_count"
  simp only [List.nil_eq, List.append_eq_nil_iff] at hnil
  obtain ⟨⟨-, rfl⟩, -⟩ := hnil
  simp only [tailFindings, bind, bind_eq_ok, pure, Except.pure, Except.ok.injEq,
    List.append_eq_nil_iff, report_eq_nil, Option.getD_some, List.length_map] at htail
  obtain ⟨_, -, ⟨⟨hsame, -⟩, -⟩, -⟩ := htail
  rw [hevent] at hsame
  have hall := hnumbers.1 (Int.ofNat.inj (int_pyEq.1 hsame))
  exact fun a ha => (noneLost_iff (by simpa using h.few)).1 hall a (List.mem_append_left _ ha)

/-- **A closed session is accepted** where no number was lost. -/
theorem Honest.accepted (h : Honest runId sessionId cs c io files) (hkey : KeyPair key k sign)
    (hexpected : ∀ e, expected = some e → e = "" ∨ e = Lib.Sha256.hexdigest key.publicRaw)
    (hstack : ∀ a ∈ cs ++ [c.call io], stack.Holds a.io.depth)
    (hclose : (((Writer.start runId sessionId).replay cs).close c schemaSha256 key io
      summaryFails).1 = .ok v)
    (hleaks : ∀ a ∈ cs, a.leaks runId sessionId = false) :
    verify ((((Writer.start runId sessionId).replay cs).close c schemaSha256 key io
      summaryFails).2.files v stack).read files (some (.ok k)) expected = .ok [] := by
  obtain ⟨hwrites, hkeeps, bytes, items, hback, hread⟩ := h.closed hstack hclose
  rw [hread]
  have hdepth : ∀ a ∈ cs ++ [c.call io], a.io.depth ≤ stack.event := fun a ha => (hstack a ha).event
  have hnone : NoneLost runId sessionId (cs ++ [c.call io]) := by
    refine (noneLost_iff (by simpa using h.few)).2 fun a ha => ?_
    rcases List.mem_append.1 ha with ha | ha
    · exact hleaks a ha
    · rw [List.mem_singleton.1 ha]
      exact hkeeps
  have hlines := h.lines hdepth hwrites
  obtain ⟨hfinals, hchecked⟩ := h.finals_lines hdepth hwrites
  obtain ⟨hcounted, -⟩ := h.numbers hwrites
  obtain ⟨hnumbers, end', hlinked⟩ :=
    (intact_replay runId sessionId (cs ++ [c.call io])).2 (h.inOrder hnone)
  obtain ⟨-, hrun, hsession, hsound, -, hsequence, hprevious, -⟩ :=
    replayed_replay runId sessionId (cs ++ [c.call io])
  generalize (Writer.start runId sessionId).replay (cs ++ [c.call io]) = w at *
  have hgenuine : ∀ e ∈ w.events, Genuine stack.event runId sessionId e := fun e he => by
    obtain ⟨a, -, hreported, -⟩ := exists_of_forall₂ hlines he
    exact hreported.genuine
  obtain ⟨front, last, hevents, hlast, wl, dl, hwrote⟩ := concat_of_forall₂ hlines
  have hlink : IsLink w.previousDigest := hsound.imp_right fun ⟨d, hd, _⟩ => ⟨d, hd⟩
  have hend : end' = w.previousDigest := hlinked.end_eq.trans hprevious.symm
  have hids : (w.events.map fun e => e.get "event_id").Nodup := by
    have hnodup := h.ids
    rw [List.filter_append, List.filter_singleton, hwrites] at hnodup
    exact nodup_eventIds hlines hnodup
  have hvalid := closed_valid hwrote
  have hsigned : Valid
      (.dict (w.signedSummary c (Lib.Sha256.hexdigest schemaBytes) key bytes)) summarySchema :=
    valid_signedSummary h.closing hkey hsound (hrun ▸ hvalid.1) (hsession ▸ hvalid.2.1) hvalid.2.2
  have hsummary := hsigned.sorted hback.recordable
  rw [hback.sorted] at hsummary
  have htail := hback.tailFindings h.closing hcounted hlink hevents hlast.genuine hwrote hfinals
    (hsequence.2 hnone)
  rw [← hend] at htail
  refine (verify_eq_ok rfl).2 ⟨rfl, rfl, [], [], (end', []), [], [],
    hback.keyFindings hkey hexpected, hback.signatureFindings hkey,
    checkLines_genuine hgenuine hnumbers hlinked hids, htail, hchecked, ?_⟩
  rw [schemaFindings_emitted, hback.summaryFindings _ hrun.symm hsession.symm rfl,
    (schemaErrors_eq_nil _ _ _).2 hsummary]
  rfl

/-- **A closed session is accepted exactly when no number was lost.**  The verifier reads the
    bytes that the calls and `close` left, with the public key and the destination tree, on a
    stack that holds what the stacks of the calls held. -/
theorem honest_verifies_iff (h : Honest runId sessionId cs c io files) (hkey : KeyPair key k sign)
    (hexpected : ∀ e, expected = some e → e = "" ∨ e = Lib.Sha256.hexdigest key.publicRaw)
    (hstack : ∀ a ∈ cs ++ [c.call io], stack.Holds a.io.depth)
    (hclose : (((Writer.start runId sessionId).replay cs).close c schemaSha256 key io
      summaryFails).1 = .ok v) :
    verify ((((Writer.start runId sessionId).replay cs).close c schemaSha256 key io
        summaryFails).2.files v stack).read files (some (.ok k)) expected = .ok [] ↔
      ∀ a ∈ cs, a.leaks runId sessionId = false :=
  ⟨h.leaks_of_accepted hstack hclose, h.accepted hkey hexpected hstack hclose⟩

end

end

/-! ## A session -/

/-- `close` returns where its event is written and its arguments can be recorded. -/
theorem exists_close {runId sessionId : String} {cs : List Call} {c : Closing} {io : EventIo}
    {files : Files} (h : Honest runId sessionId cs c io files)
    (hwrites : (c.call io).writes runId sessionId = true)
    (hgiven : ∀ v ∈ [c.queueInputDigests, c.selectionSettings, c.selectedItemCount,
      c.durableOutcomeCounts], Recordable v ∧ nesting v < io.depth)
    (sha : String) (key : SigningKey) :
    ∃ v, (((Writer.start runId sessionId).replay cs).close c sha key io false).1 = .ok v := by
  obtain ⟨-, hsequence, hfinalized⟩ := h.numbers hwrites
  obtain ⟨-, hrun, hsession, hsound, -⟩ := replayed_replay runId sessionId cs
  rw [replay_concat] at hsequence hfinalized
  have hshort := @short_replay runId sessionId cs h.few
  generalize (Writer.start runId sessionId).replay cs = w at *
  rw [← writesAt_eq hshort, ← hrun, ← hsession] at hwrites
  rcases event_cases (c := c.call io) hsound with ⟨-, -, d, -, he⟩ | ⟨hno, -⟩ | ⟨hno, -⟩
  · have hcall : w.call (c.call io) = w.appended (c.call io) d := congrArg Prod.snd he
    rw [hcall] at hsequence hfinalized
    simp only [List.forall_mem_cons] at hgiven
    obtain ⟨⟨hdigests, hdigests'⟩, ⟨hsettings, hsettings'⟩, ⟨hselected, hselected'⟩,
      ⟨hcounts, hcounts'⟩, -⟩ := hgiven
    have hnat : ∀ n : ℕ, n < 10 ^ intMaxStrDigits → Recordable (.int n) := fun n hn => by
      rwa [Recordable, Int.natAbs_natCast]
    have hversion : Recordable schemaVersion := hnat 1 (Nat.one_lt_pow (by decide) (by decide))
    have hrecord : Recordable (.dict ((w.appended (c.call io) d).unsignedSummary c sha key)) := by
      rw [Recordable, recordableFields_iff]
      simp only [Writer.unsignedSummary, List.forall_mem_cons]
      exact ⟨⟨⟨_, rfl⟩, hversion⟩, ⟨⟨_, rfl⟩, trivial⟩, ⟨⟨_, rfl⟩, trivial⟩, ⟨⟨_, rfl⟩, hdigests⟩,
        ⟨⟨_, rfl⟩, hsettings⟩, ⟨⟨_, rfl⟩, hnat _ hsequence⟩, ⟨⟨_, rfl⟩, trivial⟩,
        ⟨⟨_, rfl⟩, hselected⟩, ⟨⟨_, rfl⟩, hcounts⟩, ⟨⟨_, rfl⟩, hnat _ hfinalized⟩,
        ⟨⟨_, rfl⟩, trivial⟩, ⟨⟨_, rfl⟩, trivial⟩, List.forall_mem_nil _⟩
    have hnesting :
        nesting (.dict ((w.appended (c.call io) d).unsignedSummary c sha key)) ≤ io.depth := by
      obtain ⟨k, hk⟩ : ∃ k, io.depth = k + 1 := Nat.exists_eq_succ_of_ne_zero (by omega)
      rw [hk] at hdigests' hsettings' hselected' hcounts' ⊢
      rw [nesting, Nat.add_le_add_iff_right, nestingFields_le_iff]
      simp only [Writer.unsignedSummary, List.forall_mem_cons]
      exact ⟨Nat.zero_le k, Nat.zero_le k, Nat.zero_le k, Nat.le_of_lt_succ hdigests',
        Nat.le_of_lt_succ hsettings', Nat.zero_le k, Nat.zero_le k, Nat.le_of_lt_succ hselected',
        Nat.le_of_lt_succ hcounts', Nat.zero_le k, Nat.zero_le k, Nat.zero_le k,
        List.forall_mem_nil _⟩
    have hevent : w.event "run_closed" (Writer.closedFields c) io = _ := he
    have hok := canonicalJson_eq_ok.2 ⟨hrecord, hnesting, rfl⟩
    exact ⟨_, by simp only [Writer.close, hevent, hok, Bool.false_eq_true, if_false]; rfl⟩
  · rw [hwrites] at hno; cases hno
  · rw [hwrites] at hno; cases hno

def signedSession : String := "11111111-1111-4111-8111-111111111111"

def emptyFingerprint : String := "e3b0c44298fc1c149afbf4c8996fb92427ae41e4649b934ca495991b7852b855"

/-- An expected value that the source did not give. -/
def notGiven : PyVal :=
  .dict [(.str "available", .bool false), (.str "compared", .bool false), (.str "value", .null)]

/-- An empty file at `a/b`. -/
def emptyAtB : Files := fun parts => if parts = [[97], [98]] then some [] else none

/-- The finalized event of that file. -/
def finalizedCall : Call where
  eventType := "finalized"
  fields :=
    [("item_id", .str emptyFingerprint), ("source_url", .str "http://host/a/b"),
     ("logical_relative_path", .str "a/b"), ("final_relative_path", .str "a/b"),
     ("byte_count", .int 0), ("sha256", .str (Lib.Sha256.hexdigest [])),
     ("validation_method_version", .str "1"), ("finalized_at", .str "2024-05-01T10:00:00Z"),
     ("expected_size", notGiven), ("expected_checksum", notGiven), ("etag", notGiven),
     ("last_modified", notGiven)]
  io := { eventId := "33333333-3333-4333-8333-333333333333", recordedAt := "2024-05-01T10:00:00Z" }

def sessionClosing : Closing where
  queueInputDigests := .list []
  selectionSettings := .dict []
  selectedItemCount := .int 1
  durableOutcomeCounts := .dict [(.str "complete", .int 1)]
  closeReason := .str "finished"
  closedAt := "2024-05-01T10:00:00Z"

def sessionIo : EventIo :=
  { eventId := "22222222-2222-4222-8222-222222222222", recordedAt := "2024-05-01T10:00:00Z" }

/-- A key without bytes whose signatures are all 64 zeros. -/
def zeroSigning : SigningKey := ⟨[], fun _ => signatureText (List.replicate 64 0)⟩

def zeroKey : PublicKey := ⟨.ok [], fun signature _ => .ok (signature = List.replicate 64 0)⟩

theorem zeroKey_pair : KeyPair zeroSigning zeroKey fun _ => List.replicate 64 0 where
  raw := rfl
  length := fun _ => List.length_replicate
  text := fun _ => rfl
  verifies := fun _ => by simp [zeroKey]

theorem session_calls : finalizedCall.writes "run" signedSession = true ∧
    (sessionClosing.call sessionIo).writes "run" signedSession = true := by decide +kernel

theorem honest_session :
    Honest "run" signedSession [finalizedCall] sessionClosing sessionIo emptyAtB where
  proper := by
    have hnot : Decoded notGiven := by decide
    have hint : Decoded (.int 0) := decoded_nat (Nat.pow_pos (by decide))
    rw [List.forall_mem_singleton]
    refine ⟨by simp [finalizedCall, commonFields], ?_⟩
    simp only [finalizedCall, List.forall_mem_cons]
    exact ⟨trivial, trivial, trivial, trivial, hint, trivial, trivial, trivial, hnot, hnot, hnot,
      hnot, List.forall_mem_nil _⟩
  finals := by
    rw [List.forall_mem_singleton]
    refine fun _ _ => ⟨⟨_, [[97], [98]], rfl, rfl⟩,
      ⟨_, [[97], [98]], [], rfl, rfl, rfl, rfl, rfl⟩, ?_⟩
    simp only [validationNames, List.forall_mem_cons]
    exact ⟨⟨_, rfl, rfl⟩, ⟨_, rfl, rfl⟩, ⟨_, rfl, rfl⟩, ⟨_, rfl, rfl⟩, List.forall_mem_nil _⟩
  ids := by
    have hids : (([finalizedCall] ++ [sessionClosing.call sessionIo]).map
        fun a => a.io.eventId).Nodup := by decide
    exact hids.sublist (List.filter_sublist.map _)
  few := lt_of_lt_of_le (by decide : 2 < 10 ^ 1) (Nat.pow_le_pow_right (by decide) (by decide))
  closing := by
    have hone : Decoded (.int 1) := decoded_nat (Nat.one_lt_pow (by decide) (by decide))
    refine ⟨⟨_, rfl⟩, ⟨_, rfl⟩, ⟨1, rfl⟩, ⟨trivial, ⟨List.nodup_nil, trivial⟩, hone, ?_, trivial⟩,
      _, 1, rfl, rfl, ?_⟩
    · exact ⟨by simp, ⟨str_ne_other _, hone⟩, trivial⟩
    · have hle := (List.countP_le_length (p := fun a : Call => a.eventType = "finalized")
        (l := [finalizedCall].filter fun a => a.writes "run" signedSession)).trans
          (List.length_filter_le _ _)
      exact_mod_cast hle

/-- The stack of a verifier holds the session. -/
theorem session_holds : ∀ a ∈ [finalizedCall] ++ [sessionClosing.call sessionIo],
    Stack.Holds {} a.io.depth := by
  have hschema : nesting schemaDocument ≤ 980 := by decide +kernel
  simp only [List.cons_append, List.nil_append, List.forall_mem_cons]
  exact ⟨⟨hschema, Nat.le_refl _, Nat.le_refl _, Nat.le_refl _, Nat.le_refl _⟩,
    ⟨hschema, Nat.le_refl _, Nat.le_refl _, Nat.le_refl _, Nat.le_refl _⟩, List.forall_mem_nil _⟩

theorem session_leaks : ∀ a ∈ [finalizedCall], a.leaks "run" signedSession = false := by
  rw [List.forall_mem_singleton]
  have hcall := session_calls.1
  simp only [Call.writes, Call.writesAt, Bool.and_eq_true] at hcall
  have happends : finalizedCall.io.appendFails = false := rfl
  rw [Call.leaks, Call.leaksAt, hcall.1.1.2, happends]
  simp

theorem session_closed : ∃ v, (((Writer.start "run" signedSession).replay [finalizedCall]).close
    sessionClosing schemaSha256 zeroSigning sessionIo false).1 = .ok v := by
  have hone : Recordable (.int 1) := by
    rw [Recordable]
    exact Nat.one_lt_pow (by decide) (by decide)
  refine exists_close honest_session session_calls.2 ?_ schemaSha256 zeroSigning
  simp only [List.forall_mem_cons]
  exact ⟨⟨trivial, by decide⟩, ⟨trivial, by decide⟩, ⟨hone, by decide⟩,
    ⟨⟨⟨⟨_, rfl⟩, hone⟩, trivial⟩, by decide⟩, List.forall_mem_nil _⟩

/-- The session of one finalized file is accepted. -/
theorem honest_verifies_session : ∃ v,
    (((Writer.start "run" signedSession).replay [finalizedCall]).close sessionClosing
      schemaSha256 zeroSigning sessionIo false).1 = .ok v ∧
    verify ((((Writer.start "run" signedSession).replay [finalizedCall]).close sessionClosing
      schemaSha256 zeroSigning sessionIo false).2.files v {}).read emptyAtB
        (some (.ok zeroKey)) none = .ok [] := by
  obtain ⟨v, hv⟩ := session_closed
  exact ⟨v, hv, (honest_verifies_iff honest_session zeroKey_pair (fun e he => by cases he)
    session_holds hv).2 session_leaks⟩

/-! ## The session with other bytes -/

/-- The writer when the session is closed. -/
def sessionWriter : Writer :=
  (Writer.start "run" signedSession).replay ([finalizedCall] ++ [sessionClosing.call sessionIo])

/-- The lines of the session have digests of their own. -/
theorem session_digests : sessionWriter.events.length = 2 ∧
    (sessionWriter.events.map fun e => (e.get "event_digest").codes).Nodup := by decide +kernel

/-- With a space before the first line the session is accepted as well, and holds the same
    events. -/
theorem accepted_session : sessionWriter.events.length = 2 ∧
    List.Forall₂ SameLine (eventLines sessionWriter.eventBytes)
      (eventLines (32 :: sessionWriter.eventBytes)) ∧
    ∀ event, some event ∈ eventLines sessionWriter.eventBytes →
      event.get "event_type" = .str "finalized" → NamesFinal emptyAtB event := by
  obtain ⟨v, hv⟩ := session_closed
  have hverify := honest_session.accepted zeroKey_pair (fun e (he : none = some e) => by cases he)
    session_holds hv session_leaks
  obtain ⟨hwrites, -, bytes, items, hback, hread⟩ := honest_session.closed session_holds hv
  rw [close_eq.1, ← replay_concat, ← sessionWriter] at hverify hread
  have hgenuine : ∀ e ∈ sessionWriter.events, Genuine 980 "run" signedSession e := fun e he => by
    have hlines := honest_session.lines (fun a ha => (session_holds a ha).event) hwrites
    obtain ⟨a, -, hreported, -⟩ := exists_of_forall₂ hlines he
    exact hreported.genuine
  have hevents : eventLines sessionWriter.eventBytes =
      sessionWriter.events.map fun e => some e.sorted :=
    eventLines_emitted (fun e he => (hgenuine e he).recordable) fun e he => (hgenuine e he).decoded
  obtain ⟨first, rest, hfirst⟩ : ∃ first rest, sessionWriter.events = first :: rest :=
    List.exists_cons_of_length_pos (by rw [session_digests.1]; decide)
  have hgenuine' := hgenuine first (hfirst ▸ List.mem_cons_self)
  obtain ⟨hsame, hread'⟩ :=
    read_spaced (sessionWriter.files v {}) hfirst hgenuine'.recordable hgenuine'.decoded
  have hfree : CollisionFree (eventLines sessionWriter.eventBytes)
      (eventLines (32 :: sessionWriter.eventBytes)) := by
    have hmem : ∀ e, some e ∈ eventLines sessionWriter.eventBytes →
        ∃ event ∈ sessionWriter.events, event.sorted = e := fun e he => by
      rw [hevents] at he
      simpa using he
    rw [hsame]
    refine @collisionFree_self 980 "run" signedSession _ (fun e he => ?_) fun e e' he he' heq => ?_
    · obtain ⟨event, hevent, rfl⟩ := hmem e he
      exact (hgenuine event hevent).sorted.toFaultless
    · obtain ⟨event, hevent, rfl⟩ := hmem e he
      obtain ⟨event', hevent', rfl⟩ := hmem e' he'
      rw [(hgenuine event hevent).get_sorted, (hgenuine event' hevent').get_sorted] at heq
      have hcodes := congrArg PyVal.codes heq
      rw [sorted_codes, sorted_codes] at hcodes
      rw [List.inj_on_of_nodup_map session_digests.2 hevent hevent' hcodes]
  have hsummary : (sessionWriter.files v {}).read.summary = some (.dict items) :=
    congrArg RecordSet.summary hread
  rw [← files_withEvents] at hverify
  have hverify' := hverify
  rw [← hread'] at hverify'
  exact ⟨session_digests.1, accepted_same (sessionWriter.files v {}) sessionWriter.eventBytes
    (32 :: sessionWriter.eventBytes) emptyAtB zeroKey none
    ⟨items, hsummary, hback.checkSignature zeroKey_pair⟩ hfree hverify hverify'⟩

end TodDl.Provenance
