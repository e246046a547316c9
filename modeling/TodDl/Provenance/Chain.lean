/-
  Provenance records — the digest chain of one writer.

  A run of a `ProvenanceWriter` is a list of calls of `event`, any of which may
  fail, and at last a call of `close`.  A call takes a sequence number before it
  hashes and appends the record; only a schema error gives the number back.
  `Call.writesAt` and `Call.leaksAt` say, from the call and the last number taken,
  that it appends its record, and that it keeps the number without appending.

  `chainKept_iff`: the chain in `events.jsonl` and the summary are right
  exactly when no call writes after one that leaks.
-/
import TodDl.Lib.Linked
import TodDl.Provenance.Valid
import TodDl.Provenance.Verify

namespace TodDl.Provenance

/-! ## Records that differ in one value -/

/-- Inserting related items keeps a relation between two lists of items. -/
theorem forall₂_insert {R : Key × PyVal → Key × PyVal → Prop} (hkey : ∀ p q, R p q → p.1 = q.1)
    {key : Key} {v v' : PyVal} (hv : R (key, v) (key, v')) {l l' : List (Key × PyVal)}
    (h : List.Forall₂ R l l') : List.Forall₂ R (insert key v l) (insert key v' l') := by
  induction h with
  | nil => exact .cons hv .nil
  | @cons p q l l' hpq hl ih =>
    obtain ⟨k, u⟩ := p; obtain ⟨k', u'⟩ := q
    obtain rfl : k = k' := hkey _ _ hpq
    by_cases hk : k = key
    · subst hk; simp only [insert, if_pos]; exact .cons hv hl
    · simp only [insert, if_neg hk]; exact .cons hpq ih

theorem forall₂_update {R : Key × PyVal → Key × PyVal → Prop} (hkey : ∀ p q, R p q → p.1 = q.1)
    (hrefl : ∀ p, R p p) (fields : List (String × PyVal)) {l l' : List (Key × PyVal)}
    (h : List.Forall₂ R l l') : List.Forall₂ R (update l fields) (update l' fields) := by
  induction fields generalizing l l' with
  | nil => exact h
  | cons p rest ih => exact ih (forall₂_insert hkey (hrefl _) h)

/-- Two items of one key that a schema of an object and `canonical_json` accept
    alike. -/
structure Alike (s : Schema) (p q : Key × PyVal) : Prop where
  key : p.1 = q.1
  recordable : Recordable p.2 ↔ Recordable q.2
  nesting : nesting p.2 = nesting q.2
  valid : ∀ t path, s.property p.1 = some t →
    (schemaErrors p.2 t path = [] ↔ schemaErrors q.2 t path = [])

theorem Alike.refl (s : Schema) (p : Key × PyVal) : Alike s p p :=
  ⟨rfl, Iff.rfl, rfl, fun _ _ _ => Iff.rfl⟩

variable {s : Schema} {l l' : List (Key × PyVal)}

theorem recordableFields_congr (h : List.Forall₂ (Alike s) l l') :
    RecordableFields l ↔ RecordableFields l' := by
  induction h with
  | nil => exact Iff.rfl
  | cons hpq _ ih => rw [RecordableFields, RecordableFields, hpq.key, hpq.recordable, ih]

theorem nestingFields_congr (h : List.Forall₂ (Alike s) l l') :
    nestingFields l = nestingFields l' := by
  induction h with
  | nil => rfl
  | cons hpq _ ih => rw [nestingFields, nestingFields, hpq.nesting, ih]

theorem lookup_isNone_congr (h : List.Forall₂ (Alike s) l l') (name : String) :
    (lookup name l).isNone = (lookup name l').isNone := by
  induction h with
  | nil => rfl
  | @cons p q l l' hpq _ ih =>
    by_cases hk : p.1 = .str name
    · simp [lookup, hk, hpq.key ▸ hk]
    · have hk' : q.1 ≠ .str name := hpq.key ▸ hk
      simpa [lookup, List.find?_cons, hk, hk'] using ih

/-- On an object without further properties. -/
theorem fieldErrors_congr (hs : s.extra = .forbidden) (h : List.Forall₂ (Alike s) l l')
    (path : String) : fieldErrors l s path = [] ↔ fieldErrors l' s path = [] := by
  induction h with
  | nil => exact Iff.rfl
  | @cons p q l l' hpq _ ih =>
    obtain ⟨k, u⟩ := p; obtain ⟨k', u'⟩ := q
    obtain rfl : k = k' := hpq.key
    simp only [fieldErrors, List.append_eq_nil_iff, ih, hs]
    cases hk : s.property k with
    | none => simp
    | some t => simp [hpq.valid t _ hk]

/-- A list of alike items is valid as a whole together with its double. -/
theorem schemaErrors_congr (hs : s.extra = .forbidden) (hc : s.const = none) (he : s.enum = none)
    (h : List.Forall₂ (Alike s) l l') (path : String) :
    schemaErrors (.dict l) s path = [] ↔ schemaErrors (.dict l') s path = [] := by
  have hreq : requiredProblems l s path = requiredProblems l' s path := by
    simp [requiredProblems, lookup_isNone_congr h]
  have htype : typeProblem (.dict l) s path = typeProblem (.dict l') s path := by
    have h' : hasType (.dict l) = hasType (.dict l') := by funext t; cases t <;> rfl
    simp only [typeProblem, h']
  simp only [schemaErrors, valueProblems, hc, he, ← htype]
  cases typeProblem (.dict l) s path with
  | some p => simp
  | none => simp [textProblems, rangeProblems, hreq, fieldErrors_congr hs h path]

/-- `canonical_json` takes a list of alike items as it takes its double. -/
theorem canonicalJson_congr (h : List.Forall₂ (Alike s) l l') (depth : ℕ) :
    (canonicalJson depth (.dict l)).isOk = (canonicalJson depth (.dict l')).isOk := by
  rw [Bool.eq_iff_iff, canonicalJson_isOk_iff, canonicalJson_isOk_iff, Recordable, Recordable,
    recordableFields_congr h, nesting, nesting, nestingFields_congr h]

/-! ## Calls -/

/-- One call of `event`. -/
structure Call where
  eventType : String
  fields : List (String × PyVal)
  io : EventIo

def Writer.call (w : Writer) (c : Call) : Writer := (w.event c.eventType c.fields c.io).2

/-- The writer after a list of calls. -/
def Writer.replay (w : Writer) (cs : List Call) : Writer := cs.foldl Writer.call w

namespace Call
variable (runId sessionId : String) (n : ℕ) (c : Call)

/-- The record the call makes after `n` numbers, without a digest of the line before. -/
def firstItems : List (Key × PyVal) :=
  { Writer.start runId sessionId with sequence := n }.recordItems c.eventType c.fields c.io

/-- The event type is known, and every URL is one for `urlsplit` and holds no credentials. -/
def admitted : Bool :=
  c.eventType ∈ eventTypes && (rejectFields c.io.refusesNetloc c.fields).isOk

/-- `canonical_json` takes the record. -/
def hashable : Bool := (canonicalJson c.io.depth (.dict (c.firstItems runId sessionId n))).isOk

/-- The record matches its schema (with some digest in place). -/
def valid : Bool :=
  match eventSchema c.eventType with
  | .ok s => (schemaErrors (Writer.sealed (c.firstItems runId sessionId n)
      (Lib.Sha256.hexdigest [])) s "$").isEmpty
  | .error _ => false

/-- The call appends its record, when `n` numbers were taken before. -/
def writesAt : Bool :=
  c.admitted && c.hashable runId sessionId n && c.valid runId sessionId n && !c.io.appendFails

/-- The call keeps a sequence number and appends nothing: `canonical_json`
    raises on its record, or the append of a valid record does. -/
def leaksAt : Bool :=
  c.admitted && (!c.hashable runId sessionId n ||
    (c.valid runId sessionId n && c.io.appendFails))

end Call

/-! ## One call -/

theorem takeClass_all {p : Char → Bool} {cs : List Char} {n : ℕ} (hn : cs.length = n)
    (h : ∀ c ∈ cs, p c = true) : takeClass p n cs = some [] := by
  subst hn
  induction cs with
  | nil => rfl
  | cons c cs ih =>
    simp only [List.length_cons, takeClass, h c List.mem_cons_self, if_true]
    exact ih fun d hd => h d (List.mem_cons_of_mem _ hd)

theorem isHex_hexDigit : ∀ n < 16, isHex (Lib.Sha256.hexDigit n) = true := by decide

/-- Every digest has the format of a digest. -/
theorem search_hexdigest (data : List UInt8) :
    Pattern.hex.search (Lib.Sha256.hexdigest data) = true := by
  have hall : ∀ ws : List ℕ, ∀ c ∈ ws.flatMap Lib.Sha256.hexWord, isHex c = true := by
    intro ws c hc
    obtain ⟨w, -, hw⟩ := List.mem_flatMap.1 hc
    obtain ⟨i, -, rfl⟩ := List.mem_map.1 hw
    exact isHex_hexDigit _ (Nat.mod_lt _ (by decide))
  simp only [Pattern.search, Pattern.fullMatch, Lib.Sha256.hexdigest, String.toList_ofList]
  rw [Bool.or_eq_true]
  left
  rw [decide_eq_true_iff]
  exact takeClass_all (by simp [Lib.Sha256.hexWord]) (hall _)

/-- The last digest a writer holds is missing or has the format of a digest. -/
def Writer.Sound (w : Writer) : Prop :=
  w.previousDigest = .null ∨ ∃ d, w.previousDigest = .str d ∧ Pattern.hex.search d = true

section
variable {w : Writer} {c : Call} {rules : List (String × Schema)}

theorem property_sequence {t : Schema}
    (h : (eventBranch c.eventType rules).property (.str "sequence") = some t) :
    t = .ofRange [.integer] 1 none := by
  simpa [eventBranch, Schema.property, Schema.ofObject, Schema.properties, baseProperties,
    List.find?_cons, eq_comm] using h

theorem property_previousDigest {t : Schema}
    (h : (eventBranch c.eventType rules).property (.str "previous_digest") = some t) :
    t = nullableHex := by
  simpa [eventBranch, Schema.property, Schema.ofObject, Schema.properties, baseProperties,
    List.find?_cons, eq_comm] using h

theorem property_eventDigest {t : Schema}
    (h : (eventBranch c.eventType rules).property (.str "event_digest") = some t) :
    t = hexSchema := by
  simpa [eventBranch, Schema.property, Schema.ofObject, Schema.properties, baseProperties,
    List.find?_cons, eq_comm] using h

theorem schemaErrors_sequence (n : ℕ) (path : String) :
    schemaErrors (.int (n + 1)) (.ofRange [.integer] 1 none) path = [] := by
  have hmin : ¬ (n : ℤ) + 1 < 1 := by omega
  simp [schemaErrors, valueProblems, typeProblem, textProblems, rangeProblems, hasType,
    Schema.ofRange, Schema.const, Schema.enum, Schema.types, Schema.minimum, Schema.maximum, hmin]

theorem schemaErrors_hex {d : String} (hd : Pattern.hex.search d = true) {ts : List TypeName}
    (hts : TypeName.string ∈ ts) (path : String) :
    schemaErrors (.str d) (.ofPattern ts .hex) path = [] := by
  have : ts.any (hasType (.str d)) = true := List.any_eq_true.2 ⟨_, hts, rfl⟩
  simp [schemaErrors, valueProblems, typeProblem, textProblems, rangeProblems, this, hd,
    Schema.ofPattern, Schema.const, Schema.enum, Schema.types, Schema.pattern, Schema.minLength]

theorem schemaErrors_null (path : String) : schemaErrors .null nullableHex path = [] := rfl

/-- The record of a call is accepted as one without a digest before it is. -/
theorem alike_recordItems (rules : List (String × Schema)) (hw : w.Sound) :
    List.Forall₂ (Alike (eventBranch c.eventType rules))
      (w.recordItems c.eventType c.fields c.io)
      (c.firstItems w.runId w.sessionId w.sequence) := by
  refine forall₂_update (fun _ _ h => h.key) (Alike.refl _) _ ?_
  have hprev : Alike (eventBranch c.eventType rules) (.str "previous_digest", w.previousDigest)
      (.str "previous_digest", .null) := by
    rcases hw with h | ⟨d, h, hd⟩
    · rw [h]; exact Alike.refl _ _
    · rw [h]
      refine ⟨rfl, Iff.rfl, rfl, fun t path ht => ?_⟩
      rw [property_previousDigest ht, schemaErrors_null]
      simp [nullableHex, schemaErrors_hex hd]
  exact .cons (Alike.refl _ _) (.cons (Alike.refl _ _) (.cons (Alike.refl _ _) (.cons (Alike.refl _ _)
    (.cons (Alike.refl _ _) (.cons (Alike.refl _ _) (.cons (Alike.refl _ _)
      (.cons hprev .nil)))))))

/-- Whatever the digest, the sealed record is accepted as the first one is. -/
theorem alike_sealed {items items' : List (Key × PyVal)}
    (h : List.Forall₂ (Alike (eventBranch c.eventType rules)) items items') {d d' : String}
    (hd : Pattern.hex.search d = true) (hd' : Pattern.hex.search d' = true) :
    List.Forall₂ (Alike (eventBranch c.eventType rules))
      (insert (.str "event_digest") (.str d) items)
      (insert (.str "event_digest") (.str d') items') := by
  refine forall₂_insert (fun _ _ h => h.key) ⟨rfl, Iff.rfl, rfl, fun t path ht => ?_⟩ h
  rw [property_eventDigest ht]
  simp [hexSchema, schemaErrors_hex hd, schemaErrors_hex hd']

theorem eventSchema_admitted (h : c.admitted = true) :
    ∃ rules, eventSchema c.eventType = .ok (eventBranch c.eventType rules) := by
  have hmem : c.eventType ∈ eventTypes := by
    simp only [Call.admitted, Bool.and_eq_true, decide_eq_true_iff] at h; exact h.1
  generalize c.eventType = t at hmem ⊢
  simp only [eventTypes, List.mem_cons, List.not_mem_nil, or_false] at hmem
  rcases hmem with rfl | rfl | rfl | rfl | rfl | rfl <;> exact ⟨_, rfl⟩

/-- The writer after it appended the record of a call under the digest `d`. -/
def Writer.appended (w : Writer) (c : Call) (d : String) : Writer :=
  { w with
    sequence := w.sequence + 1
    previousDigest := .str d
    finalizedCount := w.finalizedCount + if c.eventType = "finalized" then 1 else 0
    events := w.events ++ [Writer.sealed (w.recordItems c.eventType c.fields c.io) d] }

/-- **What one call can do**: append its record, keep a number, or nothing. -/
theorem event_cases (hw : w.Sound) :
    (c.writesAt w.runId w.sessionId w.sequence = true ∧
      c.leaksAt w.runId w.sessionId w.sequence = false ∧
      ∃ d, Pattern.hex.search d = true ∧ w.event c.eventType c.fields c.io =
        (.ok (Writer.sealed (w.recordItems c.eventType c.fields c.io) d), w.appended c d)) ∨
    (c.writesAt w.runId w.sessionId w.sequence = false ∧
      c.leaksAt w.runId w.sessionId w.sequence = true ∧
      ∃ e, w.event c.eventType c.fields c.io = (.error e, { w with sequence := w.sequence + 1 })) ∨
    (c.writesAt w.runId w.sessionId w.sequence = false ∧
      c.leaksAt w.runId w.sessionId w.sequence = false ∧
      ∃ e, w.event c.eventType c.fields c.io = (.error e, w)) := by
  by_cases hadm : c.admitted = true
  · obtain ⟨rules, hrules⟩ := eventSchema_admitted hadm
    have hevent : w.event c.eventType c.fields c.io = w.append c.eventType c.fields c.io := by
      simp only [Call.admitted, Bool.and_eq_true, decide_eq_true_iff] at hadm
      simp only [Writer.event, hadm.1, not_true, if_false]
      cases hf : rejectFields c.io.refusesNetloc c.fields with
      | error e => rw [hf] at hadm; cases hadm.2
      | ok u => rfl
    have halike := alike_recordItems (c := c) rules hw
    have hash := (digest_isOk _ _).trans (canonicalJson_congr halike c.io.depth)
    rw [hevent, Writer.append]
    simp only [Call.writesAt, Call.leaksAt, Call.hashable, Call.valid, hadm, hrules, Bool.true_and]
    cases hd : digest c.io.depth (.dict (w.recordItems c.eventType c.fields c.io)) with
    | error e =>
      rw [hd] at hash
      have hno : (canonicalJson c.io.depth (.dict (c.firstItems w.runId w.sessionId
        w.sequence))).isOk = false := hash.symm
      simp [hno]
    | ok d =>
      rw [hd] at hash
      have hyes : (canonicalJson c.io.depth (.dict (c.firstItems w.runId w.sessionId
        w.sequence))).isOk = true := hash.symm
      have hhex : Pattern.hex.search d = true := by
        simp only [digest] at hd
        cases hj : canonicalJson c.io.depth (.dict (w.recordItems c.eventType c.fields c.io)) with
        | error e => rw [hj] at hd; cases hd
        | ok b => rw [hj] at hd; cases hd; exact search_hexdigest b
      have hvalid := schemaErrors_congr (s := eventBranch c.eventType rules) rfl rfl rfl
        (alike_sealed (c := c) halike hhex (search_hexdigest [])) "$"
      simp only [hyes, Writer.sealed, List.isEmpty_iff, hvalid]
      by_cases hv : schemaErrors (.dict (insert (.str "event_digest")
          (.str (Lib.Sha256.hexdigest [])) (c.firstItems w.runId w.sessionId w.sequence)))
          (eventBranch c.eventType rules) "$" = []
      · cases hio : c.io.appendFails <;> simp [hv, hhex, Writer.appended, Writer.sealed]
      · simp [hv]
  · refine .inr (.inr ⟨by simp [Call.writesAt, hadm], by simp [Call.leaksAt, hadm], ?_⟩)
    simp only [Call.admitted, Bool.and_eq_true, decide_eq_true_iff, not_and] at hadm
    by_cases hmem : c.eventType ∈ eventTypes
    · have := hadm hmem
      simp only [Writer.event, hmem, not_true, if_false]
      cases hf : rejectFields c.io.refusesNetloc c.fields with
      | error e => exact ⟨e, rfl⟩
      | ok u => rw [hf] at this; exact absurd rfl this
    · exact ⟨.provenance "unknown provenance event type", by simp [Writer.event, hmem]⟩

end

/-! ## Runs -/

/-- The digest of the last line of the file. -/
def Writer.lastDigest (w : Writer) : PyVal :=
  (w.events.getLast?.map (·.get "event_digest")).getD .null

/-- The lines carry the numbers 1, 2, … and each one the digest of the line
    before it, the first one null. -/
def Writer.Intact (w : Writer) : Prop :=
  (w.events.map fun e => e.get "sequence") =
    ((List.range w.events.length).map fun (i : ℕ) => PyVal.int (i + 1)) ∧
  ∃ last, Lib.Linked (fun e : PyVal => e.get "previous_digest") (fun e => e.get "event_digest")
    .null w.events last

/-- No call of the list loses a number. -/
def NoneLost (runId sessionId : String) (cs : List Call) : Prop :=
  ∀ before a after, cs = before ++ a :: after →
    a.leaksAt runId sessionId ((Writer.start runId sessionId).replay before).sequence = false

/-- What the writer holds after a list of calls, whatever failed. -/
structure Replayed (runId sessionId : String) (cs : List Call) (w : Writer) : Prop where
  replay : w = (Writer.start runId sessionId).replay cs
  ofRun : w.runId = runId
  ofSession : w.sessionId = sessionId
  sound : w.Sound
  lines_le : w.events.length ≤ w.sequence
  noneLost : w.sequence = w.events.length ↔ NoneLost runId sessionId cs
  previousDigest : w.previousDigest = w.lastDigest
  lines : ∀ e ∈ w.events, ∃ items d, e = Writer.sealed items d

section
variable {runId sessionId : String} {cs : List Call} {w : Writer} {c : Call}

theorem replay_concat : w.replay (cs ++ [c]) = (w.replay cs).call c := by
  simp [Writer.replay]

theorem lastDigest_appended (d : String) : (w.appended c d).lastDigest = .str d := by
  simp [Writer.lastDigest, Writer.appended, Writer.sealed, PyVal.get, PyVal.items,
    lookup_insert_self]

/-- What holds of every call of a longer list holds of its first calls and of its last. -/
theorem forall_concat_iff {P : List Call → Call → Prop} :
    (∀ before a after, cs ++ [c] = before ++ a :: after → P before a) ↔
      (∀ before a after, cs = before ++ a :: after → P before a) ∧ P cs c := by
  constructor
  · intro h
    exact ⟨fun before a after e => h before a (after ++ [c]) (by simp [e]), h cs c [] rfl⟩
  · rintro ⟨h, hc⟩ before a after e
    rcases List.eq_nil_or_concat after with rfl | ⟨after, b, rfl⟩
    · obtain ⟨rfl, ha⟩ := List.append_inj' e rfl
      obtain rfl : c = a := by simpa using ha
      exact hc
    · rw [List.concat_eq_append, ← List.cons_append, ← List.append_assoc] at e
      obtain ⟨e, -⟩ := List.append_inj' e rfl
      exact h before a after e

theorem noneLost_concat : NoneLost runId sessionId (cs ++ [c]) ↔ NoneLost runId sessionId cs ∧
    c.leaksAt runId sessionId ((Writer.start runId sessionId).replay cs).sequence = false :=
  forall_concat_iff (P := fun before a => a.leaksAt runId sessionId
    ((Writer.start runId sessionId).replay before).sequence = false)

/-- One call keeps the account of the numbers taken. -/
theorem Replayed.call (h : Replayed runId sessionId cs w) :
    Replayed runId sessionId (cs ++ [c]) (w.call c) := by
  obtain ⟨hreplay, rfl, rfl, hsound, hle, hlost, hprev, hlines⟩ := h
  have hconcat : w.call c = (Writer.start w.runId w.sessionId).replay (cs ++ [c]) := by
    rw [replay_concat, ← hreplay]
  have hcalled := @noneLost_concat w.runId w.sessionId cs c
  rw [← hreplay] at hcalled
  rcases event_cases (c := c) hsound with
    ⟨-, hl, d, hd, he⟩ | ⟨-, hl, e, he⟩ | ⟨-, hl, e, he⟩ <;>
    rw [hl] at hcalled <;> rw [Writer.call, he] at hconcat ⊢
  · refine ⟨hconcat, rfl, rfl, .inr ⟨d, rfl, hd⟩, ?_, ?_, (lastDigest_appended d).symm, ?_⟩
    · simpa [Writer.appended] using hle
    · rw [hcalled, ← hlost]
      simp [Writer.appended]
    · intro e he
      rcases List.mem_append.1 he with he | he
      · exact hlines e he
      · exact ⟨_, d, List.mem_singleton.1 he⟩
  · refine ⟨hconcat, rfl, rfl, hsound, Nat.le_succ_of_le hle, ?_, hprev, hlines⟩
    rw [hcalled]
    exact iff_of_false (by dsimp only; omega) (by simp)
  · exact ⟨hconcat, rfl, rfl, hsound, hle, by rw [hcalled, ← hlost]; simp, hprev, hlines⟩

theorem replayed_replay (runId sessionId : String) (cs : List Call) :
    Replayed runId sessionId cs ((Writer.start runId sessionId).replay cs) := by
  induction cs using List.reverseRecOn with
  | nil =>
    exact ⟨rfl, rfl, rfl, .inl rfl, Nat.le_refl 0, iff_of_true rfl fun _ _ _ e => by simp at e, rfl,
      fun _ h => by cases h⟩
  | append_singleton cs c ih => rw [replay_concat]; exact ih.call

/-- The value a call passes for a field of the record, if it passes one. -/
def Call.given (c : Call) (name : String) : Option PyVal := lookup name (update [] c.fields)

theorem get_sealed {name : String} (h : Key.str "event_digest" ≠ .str name)
    (items : List (Key × PyVal)) (d : String) :
    (Writer.sealed items d).get name = (lookup name items).getD .null := by
  simp only [PyVal.get, PyVal.items, Writer.sealed, lookup_insert_ne _ _ h]

theorem get_sequence_sealed (d : String) :
    (Writer.sealed (w.recordItems c.eventType c.fields c.io) d).get "sequence" =
      (c.given "sequence").getD (.int (w.sequence + 1)) := by
  rw [get_sealed (by decide), Writer.recordItems, lookup_update]
  show ((c.given "sequence").or (some (.int (w.sequence + 1)))).getD .null = _
  cases c.given "sequence" <;> rfl

theorem get_previousDigest_sealed (d : String) :
    (Writer.sealed (w.recordItems c.eventType c.fields c.io) d).get "previous_digest" =
      (c.given "previous_digest").getD w.previousDigest := by
  rw [get_sealed (by decide), Writer.recordItems, lookup_update]
  show ((c.given "previous_digest").or (some w.previousDigest)).getD .null = _
  cases c.given "previous_digest" <;> rfl

/-- What a call passes itself, or the writer fills in, continues the file: the
    next number and the last digest. -/
structure Call.Continues (runId sessionId : String) (before : List Call) (w : Writer) (c : Call) :
    Prop where
  /-- no number is lost before a call that leaves the number to the writer -/
  noneLost : c.given "sequence" = none → NoneLost runId sessionId before
  /-- an own number is the next line's -/
  ownNumber : ∀ v, c.given "sequence" = some v → v = .int (w.events.length + 1)
  /-- an own previous digest is the last line's -/
  ownDigest : ∀ v, c.given "previous_digest" = some v → v = w.lastDigest

/-- Every call that appends a record continues the file. -/
def InOrder (runId sessionId : String) (cs : List Call) : Prop :=
  ∀ before c after, cs = before ++ c :: after →
    c.writesAt runId sessionId ((Writer.start runId sessionId).replay before).sequence = true →
      c.Continues runId sessionId before ((Writer.start runId sessionId).replay before)

theorem inOrder_concat : InOrder runId sessionId (cs ++ [c]) ↔ InOrder runId sessionId cs ∧
    (c.writesAt runId sessionId ((Writer.start runId sessionId).replay cs).sequence = true →
      c.Continues runId sessionId cs ((Writer.start runId sessionId).replay cs)) :=
  forall_concat_iff (P := fun before c =>
    c.writesAt runId sessionId ((Writer.start runId sessionId).replay before).sequence = true →
      c.Continues runId sessionId before ((Writer.start runId sessionId).replay before))

/-- Appending a record keeps the file intact exactly when it continues it. -/
theorem intact_appended (h : Replayed runId sessionId cs w) (d : String) :
    (w.appended c d).Intact ↔ w.Intact ∧ c.Continues runId sessionId cs w := by
  have hnumber : (c.given "sequence").getD (.int (w.sequence + 1)) = .int (w.events.length + 1) ↔
      (c.given "sequence" = none → NoneLost runId sessionId cs) ∧
      ∀ v, c.given "sequence" = some v → v = .int (w.events.length + 1) := by
    cases c.given "sequence" with
    | none =>
      simp only [Option.getD_none, PyVal.int.injEq, reduceCtorEq, false_imp_iff, implies_true,
        forall_const, and_true, ← h.noneLost]
      omega
    | some v => simp
  have hdigest : (c.given "previous_digest").getD w.previousDigest = w.lastDigest ↔
      ∀ v, c.given "previous_digest" = some v → v = w.lastDigest := by
    cases c.given "previous_digest" with
    | none => simp [h.previousDigest]
    | some v => simp
  have hcont : c.Continues runId sessionId cs w ↔
      (c.given "sequence").getD (.int (w.sequence + 1)) = .int (w.events.length + 1) ∧
      (c.given "previous_digest").getD w.previousDigest = w.lastDigest := by
    rw [hnumber, hdigest]
    exact ⟨fun k => ⟨⟨k.noneLost, k.ownNumber⟩, k.ownDigest⟩, fun k => ⟨k.1.1, k.1.2, k.2⟩⟩
  rw [hcont]
  simp only [Writer.Intact, Writer.appended, List.map_append, List.map_cons, List.map_nil,
    List.length_append, List.length_singleton, List.range_succ, get_sequence_sealed]
  constructor
  · rintro ⟨hn, last, hl⟩
    obtain ⟨hn, he⟩ := List.append_inj' hn rfl
    obtain ⟨b, hl, hb⟩ := Lib.linked_append.1 hl
    have hend : b = w.lastDigest := hl.end_eq
    have hprev := (get_previousDigest_sealed d).symm.trans hb.1
    exact ⟨⟨hn, b, hl⟩, by simpa using he, hprev.trans hend⟩
  · rintro ⟨⟨hn, b, hl⟩, hs, hp⟩
    have hend : b = w.lastDigest := hl.end_eq
    have hprev := (get_previousDigest_sealed d).trans (hp.trans hend.symm)
    exact ⟨by rw [hn, hs], _, Lib.linked_append.2 ⟨b, hl, hprev, rfl⟩⟩

/-- **The file of a run is intact exactly when its calls are in order.** -/
theorem intact_replay (runId sessionId : String) (cs : List Call) :
    ((Writer.start runId sessionId).replay cs).Intact ↔ InOrder runId sessionId cs := by
  induction cs using List.reverseRecOn with
  | nil => exact iff_of_true ⟨rfl, .null, rfl⟩ (fun _ _ _ e => by simp at e)
  | append_singleton cs c ih =>
    have h := replayed_replay runId sessionId cs
    rw [replay_concat, inOrder_concat, ← ih]
    obtain ⟨hw, -, d, -, he⟩ | ⟨hw, -, e, he⟩ | ⟨hw, -, e, he⟩ := event_cases (c := c) h.sound
    all_goals rw [h.ofRun, h.ofSession] at hw; simp only [Writer.call, he, hw]
    · simpa using intact_appended h d
    · simp [Writer.Intact]
    · simp

end

/-! ## The verifier on an intact file -/

/-- The findings about sequence numbers, previous digests and the event count. -/
def Finding.ofChain : Finding → Bool
  | .sequenceGap | .previousDigest | .eventCount | .finalEventDigest => true
  | _ => false

/-- No finding of the list is about the chain. -/
def Quiet (fs : List Finding) : Prop := ∀ f ∈ fs, f.ofChain = false

@[simp] theorem quiet_nil : Quiet [] := fun _ h => by cases h

@[simp] theorem quiet_cons {f : Finding} {fs : List Finding} :
    Quiet (f :: fs) ↔ f.ofChain = false ∧ Quiet fs := List.forall_mem_cons

@[simp] theorem quiet_append {fs gs : List Finding} : Quiet (fs ++ gs) ↔ Quiet fs ∧ Quiet gs :=
  List.forall_mem_append

theorem quiet_report {ok : Bool} {f : Finding} (h : f.ofChain = false) : Quiet (report ok f) :=
  fun _ hg => (mem_report.1 hg).2 ▸ h

theorem quiet_map {α : Type*} {g : α → Finding} (h : ∀ a, (g a).ofChain = false) (l : List α) :
    Quiet (l.map g) := fun _ hf => by obtain ⟨a, -, rfl⟩ := List.mem_map.1 hf; exact h a

theorem quiet_typeFindings (event : PyVal) (eventType : String) :
    Quiet (typeFindings event eventType) := by
  simp only [typeFindings, quiet_append]
  refine ⟨⟨quiet_report rfl, ?_⟩, ?_⟩
  · cases eventSchema eventType with
    | ok s => exact quiet_map (fun _ => rfl) _
    | error e => exact quiet_nil
  · split
    · intro f hf
      obtain ⟨name, -, hf⟩ := List.mem_flatMap.1 hf
      exact quiet_report (f := .validationValue name) rfl f hf
    · exact quiet_nil

theorem quiet_eventTypeFindings (event : PyVal) : Quiet (eventTypeFindings event) := by
  have hbad : Quiet [.invalidEventType] := by simp [Finding.ofChain]
  unfold eventTypeFindings
  split
  · split
    · exact quiet_typeFindings _ _
    · exact hbad
  · exact hbad

theorem quiet_digestFindings {depth : ℕ} {items : List (Key × PyVal)} {v : PyVal}
    {fs : List Finding} (h : digestFindings depth items v = .ok fs) : Quiet fs := by
  have hbad : Quiet [.eventDigest] := by simp [Finding.ofChain]
  unfold digestFindings at h
  split at h
  · split at h
    · cases hu : unsealedDigest depth items <;> rw [hu] at h <;> cases h
      exact quiet_report rfl
    · cases h; exact hbad
  · cases h; exact hbad

/-- One event that continues the chain gives no finding about it. -/
theorem checkEvent_quiet {items : List (Key × PyVal)} {d r s : String} {depth n : ℕ}
    {previous : PyVal}
    {seen : List PyVal} {c : Checked} (hp : IsLink previous)
    (hs : (Writer.sealed items d).get "sequence" = .int n)
    (hprev : (Writer.sealed items d).get "previous_digest" = previous)
    (h : checkEvent depth (Writer.sealed items d) r s n previous seen = .ok c) :
    c.previous = .str d ∧ Quiet c.findings := by
  have hd : (Writer.sealed items d).get "event_digest" = .str d := by
    simp [PyVal.get, PyVal.items, Writer.sealed, lookup_insert_self]
  have hn : pyEq (.int n) (.int n) = true := by simp [pyEq, PyVal.number]
  simp only [Writer.sealed] at hs hprev hd h
  simp only [checkEvent, hs, hprev, hd, hn, hp.pyEq_iff.2 rfl, report_true, List.append_nil] at h
  split at h
  · cases hf : digestFindings depth (insert (.str "event_digest") (.str d) items) (.str d) with
    | error e => rw [hf] at h; cases h
    | ok digested =>
      rw [hf] at h; cases h
      refine ⟨rfl, ?_⟩
      simp only [quiet_append]
      exact ⟨⟨⟨⟨⟨quiet_report rfl, quiet_report rfl⟩, quiet_eventTypeFindings _⟩, quiet_report rfl⟩,
        quiet_report rfl⟩, quiet_digestFindings hf⟩
  · cases h

/-- The lines of an intact file give no finding about the chain; the loop ends
    with the last digest. -/
theorem checkLines_quiet {r s : String} {events : List PyVal} {depth n : ℕ} {previous last : PyVal}
    {seen : List PyVal} {res : PyVal × List Finding} (hp : IsLink previous)
    (hlines : ∀ e ∈ events, ∃ items d, e = Writer.sealed items d)
    (hn : (events.map fun e => e.get "sequence") =
      (List.range events.length).map fun (i : ℕ) => PyVal.int (i + n))
    (hl : Lib.Linked (fun e : PyVal => e.get "previous_digest") (fun e => e.get "event_digest")
      previous events last)
    (h : checkLines depth r s (events.map some) n previous seen = .ok res) :
    res.1 = last ∧ Quiet res.2 := by
  induction events generalizing n previous seen res with
  | nil => cases h; exact ⟨hl, quiet_nil⟩
  | cons e rest ih =>
    obtain ⟨items, d, rfl⟩ := hlines e List.mem_cons_self
    simp only [List.map_cons, List.length_cons, List.range_succ_eq_map, List.map_map,
      List.cons.injEq] at hn
    simp only [List.map_cons, checkLines, bind, Except.bind, pure, Except.pure] at h
    cases hc : checkEvent depth (Writer.sealed items d) r s n previous seen with
    | error e => rw [hc] at h; cases h
    | ok c =>
      obtain ⟨hprev, hq⟩ := checkEvent_quiet hp (by simpa using hn.1) hl.1 hc
      rw [hc] at h
      simp only at h
      cases hr : checkLines depth r s (rest.map some) (n + 1) c.previous c.seen with
      | error e => rw [hr] at h; cases h
      | ok res' =>
        rw [hr] at h; cases h
        have hd : (Writer.sealed items d).get "event_digest" = .str d := by
          simp [PyVal.get, PyVal.items, Writer.sealed, lookup_insert_self]
        have hl' := hl.2
        simp only [hd] at hl'
        rw [hprev] at hr
        have := ih (.inr ⟨d, rfl⟩) (fun e he => hlines e (List.mem_cons_of_mem _ he))
          (by rw [hn.2]; refine List.map_congr_left fun i _ => ?_
              simp only [Function.comp]; congr 1; omega) hl' hr
        exact ⟨this.1, quiet_append.2 ⟨hq, this.2⟩⟩

theorem quiet_keyFindings {summary : PyVal} {key : Option (Except Failure PublicKey)}
    {expected : Option String} {fs : List Finding} (h : keyFindings summary key expected = .ok fs) :
    Quiet fs := by
  simp only [keyFindings] at h
  split at h
  · split at h
    · cases h
      refine quiet_append.2 ⟨quiet_report rfl, ?_⟩
      split
      · exact quiet_report rfl
      · exact quiet_nil
    · split at h
      · cases h; simp [Finding.ofChain]
      · cases h
  · split at h
    · cases h; exact quiet_cons.2 ⟨rfl, quiet_report rfl⟩
    · cases h; simp [Finding.ofChain]

theorem quiet_signatureFindings {depth : ℕ} {summary : PyVal}
    {key : Option (Except Failure PublicKey)} {fs : List Finding}
    (h : signatureFindings depth summary key = .ok fs) : Quiet fs := by
  unfold signatureFindings at h
  split at h
  · split at h
    · cases h; exact quiet_report rfl
    · split at h
      · cases h; simp [Finding.ofChain]
      · cases h
  · cases h; exact quiet_nil

theorem quiet_checkFinal {files : Files} {e : PyVal} {fs : List Finding}
    (h : checkFinal files e = .ok fs) : Quiet fs := by
  unfold checkFinal at h
  split at h
  · cases h; simp [Finding.ofChain]
  · split at h
    · split at h
      · cases h; simp [Finding.ofChain]
      · cases h; exact quiet_append.2 ⟨quiet_report rfl, quiet_report rfl⟩
    · cases h
    · cases h
    · cases h; simp [Finding.ofChain]

theorem quiet_checkFinals {files : Files} {es : List PyVal} {fs : List Finding}
    (h : checkFinals files es = .ok fs) : Quiet fs := by
  induction es generalizing fs with
  | nil => cases h; exact quiet_nil
  | cons e es ih =>
    simp only [checkFinals, bind, Except.bind, pure, Except.pure] at h
    cases he : checkFinal files e with
    | error x => rw [he] at h; cases h
    | ok fs₁ =>
      cases hes : checkFinals files es with
      | error x => rw [he, hes] at h; cases h
      | ok fs₂ =>
        rw [he, hes] at h; cases h
        exact quiet_append.2 ⟨quiet_checkFinal he, ih hes⟩

theorem quiet_tailFindings {summary previous : PyVal} {lines : List (Option PyVal)}
    {fs : List Finding} (hp : IsLink previous)
    (hcount : summary.get "event_count" = .int lines.length)
    (hfinal : summary.get "final_event_digest" = previous)
    (h : tailFindings summary lines previous = .ok fs) : Quiet fs := by
  have hn : pyEq (.int lines.length) (.int lines.length) = true := by simp [pyEq, PyVal.number]
  simp only [tailFindings, bind, Except.bind, pure, Except.pure] at h
  split at h
  · cases h
  · cases h
    simp only [hcount, hfinal, hn, hp.pyEq_iff.2 rfl, report_true, quiet_append]
    exact ⟨⟨⟨quiet_nil, quiet_nil⟩, quiet_report rfl⟩, quiet_report rfl⟩

/-- **A summary over an intact file.**  The verifier has nothing to say about the
    chain when the summary counts the lines and names the last digest. -/
theorem verify_quiet {w : Writer} {summary : List (Key × PyVal)} {rs : RecordSet}
    {files : Files} {key : Option (Except Failure PublicKey)} {expected : Option String}
    {fs : List Finding} (hw : w.Intact)
    (hlines : ∀ e ∈ w.events, ∃ items d, e = Writer.sealed items d)
    (hcount : (PyVal.dict summary).get "event_count" = .int w.events.length)
    (hfinal : (PyVal.dict summary).get "final_event_digest" = w.lastDigest)
    (hlast : IsLink w.lastDigest)
    (hsummary : rs.summary = some (.dict summary)) (hrs : rs.lines = some (w.events.map some))
    (h : verify rs files key expected = .ok fs) : Quiet fs := by
  obtain ⟨hn, last, hl⟩ := hw
  have hend : last = w.lastDigest := hl.end_eq
  obtain ⟨-, -, keys, signature, loop, tail, finals, hkeys, hsig, hloop, htail, hfinals, rfl⟩ :=
    (verify_eq_ok hsummary).1 h
  rw [hrs, Option.getD_some] at hloop htail hfinals
  obtain ⟨hres, hq⟩ := checkLines_quiet (.inl rfl) hlines (by simpa using hn) hl hloop
  have hlink : IsLink loop.1 := by rw [hres, hend]; exact hlast
  have htailq : Quiet tail :=
    quiet_tailFindings hlink (by simpa using hcount) (by rw [hfinal, hres, hend]) htail
  have hproblems := quiet_map (g := Finding.summaryProblem) (fun _ => rfl)
    (schemaErrors (.dict summary) summarySchema "$")
  simp only [schemaFindings, summaryFindings, quiet_append, quiet_keyFindings hkeys,
    quiet_signatureFindings hsig, hproblems, hq, htailq, quiet_checkFinals hfinals, and_true]
  and_intros <;> exact quiet_report rfl

/-! ## The whole run -/

/-- The `run_closed` call of `close`. -/
def Closing.call (c : Closing) (io : EventIo) : Call := ⟨"run_closed", Writer.closedFields c, io⟩

/-- What a run promises of its file and, after a successful `close`, of its summary
    and of the verifier's findings about the chain. -/
structure ChainKept (w : Writer) (c : Closing) (schemaSha256 : String) (key : SigningKey)
    (io : EventIo) (summaryFails : Bool) : Prop where
  before : w.Intact
  after : (w.close c schemaSha256 key io summaryFails).2.Intact
  summary : ∀ v, (w.close c schemaSha256 key io summaryFails).1 = .ok v →
    v.get "event_count" = .int (w.close c schemaSha256 key io summaryFails).2.events.length ∧
    v.get "final_event_digest" = (w.close c schemaSha256 key io summaryFails).2.lastDigest ∧
    ∀ rs files publicKey expected fs, rs.summary = some v →
      rs.lines = some ((w.close c schemaSha256 key io summaryFails).2.events.map some) →
      verify rs files publicKey expected = .ok fs → Quiet fs

section
variable {w : Writer} {c : Closing} {schemaSha256 : String} {key : SigningKey} {io : EventIo}
  {summaryFails : Bool}

/-- `close` leaves the writer its `run_closed` call leaves; the summary it returns
    is the one of that writer. -/
theorem close_eq : (w.close c schemaSha256 key io summaryFails).2 = w.call (c.call io) ∧
    ∀ v, (w.close c schemaSha256 key io summaryFails).1 = .ok v →
      (∃ e, w.event "run_closed" (Writer.closedFields c) io = (.ok e, w.call (c.call io))) ∧
      ∃ signature, v = .dict ((w.call (c.call io)).unsignedSummary c schemaSha256 key ++
        [(.str "signature", .str signature)]) := by
  have hcall : w.call (c.call io) = (w.event "run_closed" (Writer.closedFields c) io).2 := rfl
  rw [hcall]
  simp only [Writer.close]
  cases w.event "run_closed" (Writer.closedFields c) io with
  | mk r w' =>
    cases r with
    | error e => exact ⟨rfl, fun v hv => by cases hv⟩
    | ok e =>
      simp only
      cases canonicalJson io.depth (.dict (w'.unsignedSummary c schemaSha256 key)) with
      | error x => exact ⟨rfl, fun v hv => by cases hv⟩
      | ok bytes =>
        cases summaryFails with
        | true => exact ⟨rfl, fun v hv => by cases hv⟩
        | false => exact ⟨rfl, fun v hv => ⟨⟨e, rfl⟩, key.sign bytes, by cases hv; rfl⟩⟩

/-- Where the `run_closed` record is written in order, every number taken has a line. -/
theorem sequence_closed {runId sessionId : String} {cs : List Call} {w' : Writer} {e : PyVal}
    (h : InOrder runId sessionId (cs ++ [c.call io]))
    (he : ((Writer.start runId sessionId).replay cs).event "run_closed" (Writer.closedFields c) io =
      (.ok e, w')) :
    ((Writer.start runId sessionId).replay (cs ++ [c.call io])).sequence =
      ((Writer.start runId sessionId).replay (cs ++ [c.call io])).events.length := by
  have hrep := replayed_replay runId sessionId cs
  rw [(replayed_replay runId sessionId _).noneLost]
  rcases event_cases (c := c.call io) hrep.sound with
    ⟨hw, hl, -⟩ | ⟨-, -, x, hx⟩ | ⟨-, -, x, hx⟩
  · rw [hrep.ofRun, hrep.ofSession] at hw hl
    exact noneLost_concat.2 ⟨((inOrder_concat.1 h).2 hw).noneLost rfl, hl⟩
  · exact absurd (hx.symm.trans he) (by simp)
  · exact absurd (hx.symm.trans he) (by simp)

end

/-- The chain of a run is kept exactly when every call that appends a record comes
    before any call that leaks a number (and passes no other number or digest of
    its own). -/
theorem chainKept_iff (runId sessionId : String) (cs : List Call) (c : Closing)
    (schemaSha256 : String) (key : SigningKey) (io : EventIo) (summaryFails : Bool) :
    ChainKept ((Writer.start runId sessionId).replay cs) c schemaSha256 key io summaryFails ↔
      InOrder runId sessionId (cs ++ [c.call io]) := by
  have hafter : ((Writer.start runId sessionId).replay cs).call (c.call io) =
      (Writer.start runId sessionId).replay (cs ++ [c.call io]) := replay_concat.symm
  constructor
  · intro h
    have := h.after
    rwa [close_eq.1, hafter, intact_replay] at this
  · intro h
    have hrep := replayed_replay runId sessionId (cs ++ [c.call io])
    have hint := (intact_replay runId sessionId _).2 h
    refine ⟨(intact_replay runId sessionId cs).2 (inOrder_concat.1 h).1, ?_, fun v hv => ?_⟩
    · rwa [close_eq.1, hafter]
    · obtain ⟨⟨e, he⟩, signature, rfl⟩ := close_eq.2 v hv
      have hcount := sequence_closed h he
      rw [close_eq.1, hafter] at *
      have hevent : (PyVal.dict (((Writer.start runId sessionId).replay
          (cs ++ [c.call io])).unsignedSummary c schemaSha256 key ++
          [(.str "signature", .str signature)])).get "event_count" =
          .int ((Writer.start runId sessionId).replay (cs ++ [c.call io])).events.length := by
        rw [← hcount]; rfl
      have hfinal : (PyVal.dict (((Writer.start runId sessionId).replay
          (cs ++ [c.call io])).unsignedSummary c schemaSha256 key ++
          [(.str "signature", .str signature)])).get "final_event_digest" =
          ((Writer.start runId sessionId).replay (cs ++ [c.call io])).lastDigest :=
        hrep.previousDigest
      have hlink : IsLink ((Writer.start runId sessionId).replay (cs ++ [c.call io])).lastDigest := by
        rw [← hrep.previousDigest]
        exact hrep.sound.imp_right fun ⟨d, hd, _⟩ => ⟨d, hd⟩
      exact ⟨hevent, hfinal, fun rs files publicKey expected fs hs hl hver =>
        verify_quiet hint hrep.lines hevent hfinal hlink hs hl hver⟩

/-- A `local_failure` event with the given detail. -/
def failureCall (eventId : String) (detail : PyVal) : Call :=
  ⟨"local_failure", [("failure_code", .str "storage"), ("failure_detail", detail)],
    { eventId, recordedAt := "2024-05-01T10:00:00.000Z" }⟩

/-- A detail with a lone surrogate (an undecodable file name in an error text),
    then one that is plain text. -/
def surrogateRun : List Call :=
  [failureCall "11111111-1111-4111-8111-111111111111" (.badStr [0x2f, 0xdcff]),
   failureCall "22222222-2222-4222-8222-222222222222" (.str "disk full")]

/-- The only line of that run carries the number 2. -/
theorem surrogateRun_breaks : ¬ ∀ (runId sessionId : String) (cs : List Call) (c : Closing)
    (schemaSha256 : String) (key : SigningKey) (io : EventIo) (summaryFails : Bool),
    ChainKept ((Writer.start runId sessionId).replay cs) c schemaSha256 key io summaryFails := by
  intro h
  have hkept := h "run" "00000000-0000-4000-8000-000000000000" surrogateRun
    ⟨.list [], .dict [], .int 0, .dict [], .str "finished", "2024-05-01T10:00:00.000Z"⟩ ""
    ⟨[], fun _ => ""⟩ { eventId := "", recordedAt := "", appendFails := true } false
  have hone := congrArg (List.map PyVal.number) hkept.before.1
  revert hone
  decide +kernel

end TodDl.Provenance
