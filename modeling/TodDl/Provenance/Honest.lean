/-
  Provenance records — what the calls of a session append.

  A call may fail in every way; the lines of the file are the records of the calls that write
  (`wrote_replay`), each of them genuine where the call passes what the callers of `event`
  pass (`genuine_of_wrote`).  A finalized event that names its file passes the check of the
  destination tree (`checkFinal_delivered`).
-/
import TodDl.Provenance.Genuine
import TodDl.Provenance.SignatureText

namespace TodDl.Provenance

/-! ## Calls with short numbers -/

namespace Call
variable (runId sessionId : String) (c : Call)

/-- The call appends its record, as the first one of a session. -/
def writes : Bool := c.writesAt runId sessionId 0

/-- The call keeps a number and appends nothing, as the first one of a session. -/
def leaks : Bool := c.leaksAt runId sessionId 0

end Call

/-- The number a record gets makes no difference while it has few digits. -/
theorem alike_firstItems {runId sessionId : String} {c : Call} {n : ℕ}
    (hn : n + 1 < 10 ^ intMaxStrDigits) (rules : List (String × Schema)) :
    List.Forall₂ (Alike (eventBranch c.eventType rules)) (c.firstItems runId sessionId n)
      (c.firstItems runId sessionId 0) := by
  refine forall₂_update (fun _ _ h => h.key) (Alike.refl _) _ ?_
  have hshort : ∀ m : ℕ, m < 10 ^ intMaxStrDigits → Recordable (.int m) := fun m hm => by
    rwa [Recordable, Int.natAbs_natCast]
  have hone : 0 + 1 < 10 ^ intMaxStrDigits := by omega
  have hseq : Alike (eventBranch c.eventType rules) (.str "sequence", .int ((n : ℤ) + 1))
      (.str "sequence", .int ((0 : ℕ) + 1)) :=
    ⟨rfl, iff_of_true (hshort (n + 1) hn) (hshort (0 + 1) hone), rfl, fun t path ht => by
      rw [property_sequence ht, schemaErrors_sequence, schemaErrors_sequence]⟩
  exact .cons (.refl _ _) (.cons (.refl _ _) (.cons hseq (List.forall₂_same.2 fun _ _ => .refl _ _)))

section
variable {runId sessionId : String} {c : Call} {n : ℕ}

theorem hashable_eq (hn : n + 1 < 10 ^ intMaxStrDigits) :
    c.hashable runId sessionId n = c.hashable runId sessionId 0 :=
  canonicalJson_congr (alike_firstItems hn []) c.io.depth

theorem valid_eq (hn : n + 1 < 10 ^ intMaxStrDigits) :
    c.valid runId sessionId n = c.valid runId sessionId 0 := by
  rw [Call.valid, Call.valid]
  cases hschema : eventSchema c.eventType with
  | error e => rfl
  | ok s =>
    obtain ⟨rules, rfl⟩ : ∃ rules, s = eventBranch c.eventType rules := by
      rw [eventSchema] at hschema
      split at hschema
      · exact ⟨_, (Except.ok.inj hschema).symm⟩
      · cases hschema
    have hd := search_hexdigest []
    rw [Bool.eq_iff_iff, List.isEmpty_iff, List.isEmpty_iff]
    exact schemaErrors_congr rfl rfl rfl (alike_sealed (alike_firstItems hn rules) hd hd) "$"

theorem writesAt_eq (hn : n + 1 < 10 ^ intMaxStrDigits) :
    c.writesAt runId sessionId n = c.writes runId sessionId := by
  rw [Call.writes, Call.writesAt, Call.writesAt, hashable_eq hn, valid_eq hn]

theorem leaksAt_eq (hn : n + 1 < 10 ^ intMaxStrDigits) :
    c.leaksAt runId sessionId n = c.leaks runId sessionId := by
  rw [Call.leaks, Call.leaksAt, Call.leaksAt, hashable_eq hn, valid_eq hn]

theorem sequence_replay_le (runId sessionId : String) (cs : List Call) :
    ((Writer.start runId sessionId).replay cs).sequence ≤ cs.length := by
  induction cs using List.reverseRecOn with
  | nil => exact le_refl 0
  | append_singleton cs c ih =>
    rw [replay_concat, List.length_append, List.length_singleton, Writer.call]
    rcases event_cases (c := c) (replayed_replay runId sessionId cs).sound with
      ⟨-, -, d, -, he⟩ | ⟨-, -, e, he⟩ | ⟨-, -, e, he⟩ <;> rw [he]
    · exact Nat.succ_le_succ ih
    · exact Nat.succ_le_succ ih
    · exact Nat.le_succ_of_le ih

theorem short_replay {cs : List Call} (hcs : cs.length + 1 < 10 ^ intMaxStrDigits) :
    ((Writer.start runId sessionId).replay cs).sequence + 1 < 10 ^ intMaxStrDigits :=
  Nat.lt_of_le_of_lt (Nat.succ_le_succ (sequence_replay_le runId sessionId cs)) hcs

/-- In a run with few calls, a number is lost where a call leaks one. -/
theorem noneLost_iff {cs : List Call} (hcs : cs.length < 10 ^ intMaxStrDigits) :
    NoneLost runId sessionId cs ↔ ∀ a ∈ cs, a.leaks runId sessionId = false := by
  constructor
  · intro h a ha
    obtain ⟨before, after, rfl⟩ := List.append_of_mem ha
    rw [List.length_append, List.length_cons] at hcs
    rw [← leaksAt_eq (short_replay (show before.length + 1 < _ by omega))]
    exact h before a after rfl
  · rintro h before a after rfl
    rw [List.length_append, List.length_cons] at hcs
    rw [leaksAt_eq (short_replay (show before.length + 1 < _ by omega))]
    exact h a (List.mem_append_right _ List.mem_cons_self)

end

/-! ## The record of a call -/

theorem keys_insert (key : Key) (v : PyVal) (items : List (Key × PyVal)) :
    (insert key v items).map (·.1) =
      if key ∈ items.map (·.1) then items.map (·.1) else items.map (·.1) ++ [key] := by
  induction items with
  | nil => rfl
  | cons p rest ih =>
    obtain ⟨k, u⟩ := p
    by_cases hk : k = key
    · subst hk; simp [insert]
    · have hne : key ≠ k := fun h => hk h.symm
      simp only [insert, if_neg hk, List.map_cons, ih, List.mem_cons, hne, false_or]
      split <;> rfl

theorem nodup_insert {key : Key} {v : PyVal} {items : List (Key × PyVal)}
    (h : (items.map (·.1)).Nodup) : ((insert key v items).map (·.1)).Nodup := by
  rw [keys_insert]
  split
  · exact h
  · next hnew =>
    exact List.nodup_append.2 ⟨h, List.nodup_singleton _, fun k hk k' hk' heq =>
      hnew (List.mem_singleton.1 hk' ▸ heq ▸ hk)⟩

theorem mem_insert {p : Key × PyVal} {key : Key} {v : PyVal} {items : List (Key × PyVal)}
    (h : p ∈ insert key v items) : p = (key, v) ∨ p ∈ items := by
  induction items with
  | nil => exact .inl (List.mem_singleton.1 h)
  | cons q rest ih =>
    obtain ⟨k, u⟩ := q
    rw [insert] at h
    split at h
    · next hk =>
      rcases List.mem_cons.1 h with rfl | h
      · exact .inl (by rw [hk])
      · exact .inr (List.mem_cons_of_mem _ h)
    · rcases List.mem_cons.1 h with rfl | h
      · exact .inr List.mem_cons_self
      · exact (ih h).imp_right (List.mem_cons_of_mem _)

/-- A new key comes last. -/
theorem insert_of_new {key : Key} {v : PyVal} {items : List (Key × PyVal)}
    (h : key ∉ items.map (·.1)) : insert key v items = items ++ [(key, v)] := by
  induction items with
  | nil => rfl
  | cons q rest ih =>
    obtain ⟨k, u⟩ := q
    rw [List.map_cons, List.mem_cons, not_or] at h
    rw [insert, if_neg fun hk => h.1 hk.symm, ih h.2, List.cons_append]

theorem str_ne_other (name repr : String) : Key.str name ≠ .other repr := fun h => by cases h

theorem Decoded.insert {items : List (Key × PyVal)} (h : Decoded (.dict items)) (name : String)
    {v : PyVal} (hv : Decoded v) : Decoded (.dict (insert (.str name) v items)) := by
  rw [Decoded, decodedFields_iff] at h ⊢
  refine ⟨nodup_insert h.1, fun p hp => ?_⟩
  rcases mem_insert hp with rfl | hp
  · exact ⟨str_ne_other name, hv⟩
  · exact h.2 p hp

theorem Decoded.update {items : List (Key × PyVal)} (h : Decoded (.dict items))
    {fields : List (String × PyVal)} (hfields : ∀ p ∈ fields, Decoded p.2) :
    Decoded (.dict (update items fields)) := by
  induction fields generalizing items with
  | nil => exact h
  | cons p rest ih =>
    rw [List.forall_mem_cons] at hfields
    exact ih (h.insert p.1 hfields.1) hfields.2

theorem given_eq_none {c : Call} {name : String} (h : ∀ p ∈ c.fields, p.1 ≠ name) :
    c.given name = none := by
  have hupdate : ∀ (fields : List (String × PyVal)) (items : List (Key × PyVal)),
      (∀ p ∈ fields, p.1 ≠ name) → lookup name (update items fields) = lookup name items := by
    intro fields
    induction fields with
    | nil => exact fun items _ => rfl
    | cons p rest ih =>
      intro items hne
      rw [List.forall_mem_cons] at hne
      refine (ih _ hne.2).trans (lookup_insert_ne _ _ fun hk => hne.1 (Key.str.inj hk))
  exact hupdate c.fields [] h

/-- What the callers of `event` pass: fields of the event type, and values that JSON can give
    back. -/
structure Call.Proper (c : Call) : Prop where
  own : ∀ p ∈ c.fields, p.1 ∉ commonFields
  decoded : ∀ p ∈ c.fields, Decoded p.2

/-- `event` is the record of the call, sealed by a writer of the session. -/
structure Call.Wrote (runId sessionId : String) (c : Call) (event : PyVal) (w : Writer)
    (d : String) : Prop where
  ofRun : w.runId = runId
  ofSession : w.sessionId = sessionId
  sound : w.Sound
  number : w.sequence + 1 < 10 ^ intMaxStrDigits
  known : c.eventType ∈ eventTypes
  record : event = Writer.sealed (w.recordItems c.eventType c.fields c.io) d
  digest : digest c.io.depth (.dict (w.recordItems c.eventType c.fields c.io)) = .ok d
  valid : ∀ rules, eventSchema c.eventType = .ok (eventBranch c.eventType rules) →
    Valid event (eventBranch c.eventType rules)

section
variable {runId sessionId : String} {c : Call} {event : PyVal} {w : Writer} {d : String}

theorem Call.Wrote.get_given (h : c.Wrote runId sessionId event w d) (name : String)
    (hname : name ≠ "event_digest") : event.get name =
      ((c.given name).or (lookup name (w.recordItems c.eventType [] c.io))).getD .null := by
  rw [h.record, get_sealed (fun hk => hname (Key.str.inj hk).symm), Writer.recordItems,
    lookup_update]
  rfl

theorem Call.Proper.given_none (h : c.Proper) {name : String} (hname : name ∈ commonFields) :
    c.given name = none :=
  given_eq_none fun p hp heq => h.own p hp (heq ▸ hname)

/-- A field of the writer's own. -/
theorem Call.Wrote.get_own (h : c.Wrote runId sessionId event w d) (hc : c.Proper) {name : String}
    (hname : name ∈ commonFields) (hne : name ≠ "event_digest") :
    event.get name = (lookup name (w.recordItems c.eventType [] c.io)).getD .null := by
  rw [h.get_given name hne, hc.given_none hname, Option.none_or]

theorem decoded_recordItems (hfields : ∀ p ∈ c.fields, Decoded p.2) (hsound : w.Sound)
    (hnumber : w.sequence + 1 < 10 ^ intMaxStrDigits) :
    Decoded (.dict (w.recordItems c.eventType c.fields c.io)) := by
  refine Decoded.update ?_ hfields
  have hprevious : Decoded w.previousDigest := by
    rcases hsound with h | ⟨d, h, -⟩ <;> rw [h] <;> trivial
  have hversion : Decoded schemaVersion := by
    show (1 : ℤ).natAbs < 10 ^ intMaxStrDigits
    exact Nat.one_lt_pow (by decide) (by decide)
  have hsequence : Decoded (.int (w.sequence + 1)) := by
    show ((w.sequence : ℤ) + 1).natAbs < 10 ^ intMaxStrDigits
    rwa [show ((w.sequence : ℤ) + 1).natAbs = w.sequence + 1 by omega]
  rw [Decoded, decodedFields_iff]
  refine ⟨by simp, ?_⟩
  simp only [List.forall_mem_cons]
  exact ⟨⟨str_ne_other _, hversion⟩, ⟨str_ne_other _, trivial⟩, ⟨str_ne_other _, hsequence⟩,
    ⟨str_ne_other _, trivial⟩, ⟨str_ne_other _, trivial⟩, ⟨str_ne_other _, trivial⟩,
    ⟨str_ne_other _, trivial⟩, ⟨str_ne_other _, hprevious⟩, List.forall_mem_nil _⟩

theorem unsealedDigest_sealed (hc : c.Proper) (depth : ℕ) :
    unsealedDigest depth (Writer.sealed (w.recordItems c.eventType c.fields c.io) d).items =
      digest depth (.dict (w.recordItems c.eventType c.fields c.io)) := by
  have hnew : Key.str "event_digest" ∉ (w.recordItems c.eventType c.fields c.io).map (·.1) := by
    rw [← lookup_isSome, Writer.recordItems, lookup_update, ← Call.given,
      hc.given_none (by simp [commonFields]), Option.none_or]
    simp [lookup]
  have hall : (w.recordItems c.eventType c.fields c.io).filter
      (fun p => decide (p.1 ≠ .str "event_digest")) = w.recordItems c.eventType c.fields c.io :=
    List.filter_eq_self.2 fun p hp => decide_eq_true fun hk => hnew (hk ▸ List.mem_map_of_mem hp)
  rw [Writer.sealed, PyVal.items, unsealedDigest, insert_of_new hnew, List.filter_append, hall]
  simp

theorem Call.Wrote.recordable (h : c.Wrote runId sessionId event w d) : Recordable event := by
  have hrecord : Recordable (.dict (w.recordItems c.eventType c.fields c.io)) :=
    (digest_eq_ok.1 h.digest).1
  rw [h.record]
  rw [Recordable, recordableFields_iff] at hrecord
  show RecordableFields (insert (.str "event_digest") (.str d) _)
  rw [recordableFields_iff]
  intro p hp
  rcases mem_insert hp with rfl | hp
  · exact ⟨⟨_, rfl⟩, trivial⟩
  · exact hrecord p hp

/-- The record nests as deep as the stack of its call allows. -/
theorem Call.Wrote.nesting_le (h : c.Wrote runId sessionId event w d) :
    nesting event ≤ c.io.depth := by
  have hfields := (digest_eq_ok.1 h.digest).2.1
  rw [nesting] at hfields
  rw [h.record, Writer.sealed, nesting]
  refine Nat.le_trans (Nat.succ_le_succ ?_) hfields
  rw [nestingFields_le_iff]
  intro p hp
  rcases mem_insert hp with rfl | hp
  · exact Nat.zero_le _
  · exact nestingFields_le_iff.1 (Nat.le_refl _) p hp

theorem Call.Wrote.decoded (h : c.Wrote runId sessionId event w d)
    (hfields : ∀ p ∈ c.fields, Decoded p.2) : Decoded event := by
  rw [h.record]
  exact (decoded_recordItems hfields h.sound h.number).insert "event_digest" trivial

/-- The digest of a record is in its format. -/
theorem Call.Wrote.fullMatch (h : c.Wrote runId sessionId event w d) :
    Pattern.hex.fullMatch d.toList = true := by
  rw [← (digest_eq_ok.1 h.digest).2.2]
  exact fullMatch_hexdigest _

/-- **A record that was appended is genuine.** -/
theorem genuine_of_wrote (h : c.Wrote runId sessionId event w d) (hc : c.Proper) {depth : ℕ}
    (hdepth : c.io.depth ≤ depth)
    (hvalidation : c.eventType = "finalized" →
      ∀ name ∈ validationNames, validationOk (event.get name) = true) :
    Genuine depth runId sessionId event := by
  obtain ⟨rules, hrules, -, hschema⟩ := eventType_rules h.known
  have hvalid := h.valid rules hschema
  have hunsealed : unsealedDigest depth event.items = .ok d := by
    obtain ⟨hr, hn, hhash⟩ := digest_eq_ok.1 h.digest
    rw [h.record, unsealedDigest_sealed hc]
    exact digest_eq_ok.2 ⟨hr, Nat.le_trans hn hdepth, hhash⟩
  have hrecord := h.recordable
  have htype : event.get "event_type" = .str c.eventType := by
    rw [h.get_own hc (by simp [commonFields]) (by decide)]; rfl
  rw [h.record] at hvalid hrecord
  refine ⟨⟨?_, ?_, ?_, ⟨d, ?_, h.fullMatch, hunsealed⟩, fun heq => ?_⟩, h.decoded hc.decoded⟩
  · rw [h.record]
    exact ⟨_, c.eventType, rules, rfl, hrules, keys_of_valid hvalid, hvalid, hrecord⟩
  · rw [h.get_own hc (by simp [commonFields]) (by decide), ← h.ofRun]; rfl
  · rw [h.get_own hc (by simp [commonFields]) (by decide), ← h.ofSession]; rfl
  · rw [h.record, PyVal.get, Writer.sealed, PyVal.items, lookup_insert_self]
    rfl
  · rw [htype] at heq
    exact hvalidation (PyVal.str.inj heq)

end

/-! ## The lines of a run -/

section
variable {runId sessionId : String} {cs : List Call}

/-- What a call that returned its record did. -/
theorem event_returned {w w' : Writer} {eventType : String} {fields : List (String × PyVal)}
    {io : EventIo} {event : PyVal} (h : w.event eventType fields io = (.ok event, w')) :
    eventType ∈ eventTypes ∧ ∃ d,
      digest io.depth (.dict (w.recordItems eventType fields io)) = .ok d ∧
      event = Writer.sealed (w.recordItems eventType fields io) d ∧
      ∀ schema, eventSchema eventType = .ok schema → Valid event schema := by
  unfold Writer.event at h
  split at h
  · cases h
  · next hknown =>
    refine ⟨not_not.1 hknown, ?_⟩
    split at h
    · cases h
    · simp only [Writer.append] at h
      split at h
      · cases h
      · next d hd =>
        split at h
        · cases h
        · next schema hschema =>
          split at h
          · next hvalid =>
            split at h
            · cases h
            · cases h
              refine ⟨d, hd, rfl, fun schema' hschema' => ?_⟩
              obtain rfl := Except.ok.inj (hschema.symm.trans hschema')
              exact (schemaErrors_eq_nil _ _ _).1 (List.isEmpty_iff.1 hvalid)
          · cases h

/-- **The lines of a run** are the records of the calls that write, in order. -/
theorem wrote_replay (hlength : cs.length < 10 ^ intMaxStrDigits) :
    List.Forall₂ (fun c event => ∃ w d, Call.Wrote runId sessionId c event w d)
        (cs.filter fun c => c.writes runId sessionId)
        ((Writer.start runId sessionId).replay cs).events ∧
      ((Writer.start runId sessionId).replay cs).finalizedCount =
        (cs.filter fun c => c.writes runId sessionId).countP
          fun c => c.eventType = "finalized" := by
  induction cs using List.reverseRecOn with
  | nil => exact ⟨.nil, rfl⟩
  | append_singleton cs c ih =>
    rw [List.length_append, List.length_singleton] at hlength
    obtain ⟨hlines, hcount⟩ := ih (by omega)
    have hrep := replayed_replay runId sessionId cs
    have hsequence := @short_replay runId sessionId cs hlength
    rw [replay_concat, List.filter_append, Writer.call]
    generalize (Writer.start runId sessionId).replay cs = w at *
    obtain ⟨-, hrun, hsession, hsound, -⟩ := hrep
    rcases event_cases (c := c) hsound with
      ⟨hw, -, d, -, he⟩ | ⟨hw, -, e, he⟩ | ⟨hw, -, e, he⟩ <;>
      rw [he] <;> rw [hrun, hsession, writesAt_eq hsequence] at hw <;>
      simp only [List.filter_singleton, hw]
    · obtain ⟨hknown, d', hdigest, hevent, hvalid⟩ := event_returned he
      have hd : d' = d := by
        have hget := congrArg (fun e => e.get "event_digest") hevent
        simp only [PyVal.get, Writer.sealed, PyVal.items, lookup_insert_self,
          Option.getD_some, PyVal.str.injEq] at hget
        exact hget.symm
      subst hd
      refine ⟨List.rel_append hlines (.cons ⟨w, d', ?_⟩ .nil), ?_⟩
      · exact ⟨hrun, hsession, hsound, hsequence, hknown, rfl, hdigest, fun rules => hvalid _⟩
      · rw [List.countP_append, Writer.appended, hcount]
        by_cases htype : c.eventType = "finalized" <;> simp [htype]
    · exact ⟨by simpa using hlines, by simpa using hcount⟩
    · exact ⟨by simpa using hlines, by simpa using hcount⟩

end

/-! ## The arguments of a session -/

/-- What is passed for a finalized event: safe paths, the size and the SHA-256 of the file at
    the final path, and no value for a validation object that is unavailable. -/
structure Call.Delivers (files : Files) (c : Call) : Prop where
  logical : ∃ v parts, c.given "logical_relative_path" = some v ∧ relativeText v = .ok parts
  final : ∃ v parts bytes, c.given "final_relative_path" = some v ∧ relativeText v = .ok parts ∧
    files parts = some bytes ∧ c.given "byte_count" = some (.int bytes.length) ∧
    c.given "sha256" = some (.str (Lib.Sha256.hexdigest bytes))
  validation : ∀ name ∈ validationNames, ∃ v, c.given name = some v ∧ validationOk v = true

/-- What is passed to `close`; the schema of the events checks the other arguments. -/
structure Closing.Proper (c : Closing) (finals : ℕ) : Prop where
  digests : ∃ l, c.queueInputDigests = .list l
  settings : ∃ l, c.selectionSettings = .dict l
  selected : ∃ n : ℕ, c.selectedItemCount = .int n
  decoded : Decoded c.queueInputDigests ∧ Decoded c.selectionSettings ∧
    Decoded c.selectedItemCount ∧ Decoded c.durableOutcomeCounts ∧ Decoded c.closeReason
  /-- the items finalized in the session are among the complete ones -/
  complete : ∃ (counts : List (Key × PyVal)) (n : ℤ), c.durableOutcomeCounts = .dict counts ∧
    (lookup "complete" counts).getD (.int 0) = .int n ∧ (finals : ℤ) ≤ n

/-- The public key of a signing key, as Ed25519 has it: a signature has 64 bytes, and it
    verifies. -/
structure KeyPair (key : SigningKey) (k : PublicKey) (sign : List UInt8 → List UInt8) : Prop where
  raw : k.raw = .ok key.publicRaw
  length : ∀ bytes, (sign bytes).length = 64
  text : ∀ bytes, key.sign bytes = signatureText (sign bytes)
  verifies : ∀ bytes, k.verify (sign bytes) bytes = .ok true

/-- A session of the controller: `cs` are its calls of `event`, and then it is closed. -/
structure Honest (runId sessionId : String) (cs : List Call) (c : Closing) (io : EventIo)
    (files : Files) : Prop where
  proper : ∀ a ∈ cs, a.Proper
  finals : ∀ a ∈ cs, a.writes runId sessionId = true → a.eventType = "finalized" → a.Delivers files
  /-- UUIDs are used once -/
  ids : (((cs ++ [c.call io]).filter fun a => a.writes runId sessionId).map
    fun a => a.io.eventId).Nodup
  few : cs.length + 1 < 10 ^ intMaxStrDigits
  closing : c.Proper
    ((cs.filter fun a => a.writes runId sessionId).countP fun a => a.eventType = "finalized")

theorem Closing.Proper.call {c : Closing} {finals : ℕ} (h : c.Proper finals) (io : EventIo) :
    (c.call io).Proper where
  own := by simp [Closing.call, Writer.closedFields, commonFields]
  decoded := by
    obtain ⟨-, -, -, hcounts, hreason⟩ := h.decoded
    simp only [Closing.call, Writer.closedFields, List.forall_mem_cons]
    exact ⟨trivial, hreason, hcounts, List.forall_mem_nil _⟩

/-! ## The lines and their calls -/

section
variable {α β γ : Type} {R : α → β → Prop} {l : List α} {l' : List β}

theorem map_eq_of_forall₂ {f : α → γ} {g : β → γ} (h : List.Forall₂ R l l')
    (hfg : ∀ a b, R a b → f a = g b) : l.map f = l'.map g := by
  induction h with
  | nil => rfl
  | cons hab _ ih => rw [List.map_cons, List.map_cons, hfg _ _ hab, ih]

theorem exists_of_forall₂ (h : List.Forall₂ R l l') {b : β} (hb : b ∈ l') : ∃ a ∈ l, R a b := by
  induction h with
  | nil => cases hb
  | cons hab _ ih =>
    rcases List.mem_cons.1 hb with rfl | hb
    · exact ⟨_, List.mem_cons_self, hab⟩
    · obtain ⟨a, ha, hab⟩ := ih hb
      exact ⟨a, List.mem_cons_of_mem _ ha, hab⟩

theorem concat_of_forall₂ {a : α} (h : List.Forall₂ R (l ++ [a]) l') :
    ∃ front b, l' = front ++ [b] ∧ R a b := by
  induction l generalizing l' with
  | nil =>
    obtain ⟨b, rest, hab, hnil, rfl⟩ := List.forall₂_cons_left_iff.1 h
    rw [List.forall₂_nil_left_iff] at hnil
    exact ⟨[], b, by rw [hnil]; rfl, hab⟩
  | cons x l ih =>
    obtain ⟨y, rest, -, hrest, rfl⟩ := List.forall₂_cons_left_iff.1 h
    obtain ⟨front, b, rfl, hab⟩ := ih hrest
    exact ⟨y :: front, b, rfl, hab⟩

end

section
variable {runId sessionId : String} {c : Call} {event : PyVal} {w : Writer} {d : String}
  {files : Files}

theorem Call.Wrote.eventType (h : c.Wrote runId sessionId event w d) (hc : c.Proper) :
    event.get "event_type" = .str c.eventType := by
  rw [h.get_own hc (by simp [commonFields]) (by decide)]
  rfl

theorem Call.Wrote.eventId (h : c.Wrote runId sessionId event w d) (hc : c.Proper) :
    event.get "event_id" = .str c.io.eventId := by
  rw [h.get_own hc (by simp [commonFields]) (by decide)]
  rfl

/-- A field that is passed. -/
theorem Call.Wrote.lookup_given (h : c.Wrote runId sessionId event w d) {name : String} {v : PyVal}
    (hname : name ≠ "event_digest") (hv : c.given name = some v) :
    lookup name event.items = some v := by
  rw [h.record, Writer.sealed, PyVal.items,
    lookup_insert_ne _ _ fun hk => hname (Key.str.inj hk).symm, Writer.recordItems, lookup_update,
    ← Call.given, hv, Option.some_or]

theorem Call.Wrote.get_passed (h : c.Wrote runId sessionId event w d) {name : String} {v : PyVal}
    (hname : name ≠ "event_digest") (hv : c.given name = some v) : event.get name = v := by
  rw [PyVal.get, h.lookup_given hname hv, Option.getD_some]

theorem Call.Delivers.validationOk (hf : c.Delivers files) (h : c.Wrote runId sessionId event w d) :
    ∀ name ∈ validationNames, validationOk (event.get name) = true := by
  intro name hname
  obtain ⟨v, hv, hok⟩ := hf.validation name hname
  have hne : name ≠ "event_digest" := by
    rintro rfl
    simp [validationNames] at hname
  rwa [h.get_passed hne hv]

/-- **A finalized event names its file**, whatever the order of its fields. -/
theorem checkFinal_delivered (hf : c.Delivers files) (h : c.Wrote runId sessionId event w d)
    {depth : ℕ} (hg : Genuine depth runId sessionId event) :
    checkFinal files event.sorted = .ok [] := by
  obtain ⟨logical, parts', hlogical, hsafe'⟩ := hf.logical
  obtain ⟨stored, parts, bytes, hstored, hsafe, hfile, hcount, hsha⟩ := hf.final
  have hsorted : ∀ name v, name ≠ "event_digest" → c.given name = some v →
      lookup name event.sorted.items = some v.sorted := by
    intro name v hname hv
    have hlookup := h.lookup_given hname hv
    have hr := hg.recordable
    obtain ⟨items, rfl⟩ := hg.exists_dict
    obtain ⟨items', hitems', hperm⟩ := sorted_dict_perm (d := items) (by rwa [Recordable] at hr)
    rw [hitems', PyVal.items, lookup_sorted hg.decoded.nodup hperm, ← PyVal.items.eq_1 items,
      hlookup, Option.map_some]
  have htext : ∀ v : PyVal, relativeText v.sorted = relativeText v := fun v => by
    rw [relativeText, relativeText, sorted_codes]
  have hcount' : event.sorted.get "byte_count" = .int bytes.length := by
    rw [PyVal.get, hsorted _ _ (by decide) hcount]; rfl
  have hsha' : event.sorted.get "sha256" = .str (Lib.Sha256.hexdigest bytes) := by
    rw [PyVal.get, hsorted _ _ (by decide) hsha]; rfl
  rw [checkFinal.eq_def, hsorted _ _ (by decide) hlogical, hsorted _ _ (by decide) hstored]
  simp only [Option.map_some, htext, hsafe', hsafe, hfile, hcount', hsha', int_pyEq.2, str_pyEq.2,
    report_true, List.append_nil]

end

end TodDl.Provenance
