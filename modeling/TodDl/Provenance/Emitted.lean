/-
  Provenance records — the bytes that the writer leaves on disk.

  `event` appends one canonical JSON text and a newline.  No control character is left
  unescaped in such a text (`plain_render`), so that `bytes.splitlines()` gives back the lines
  that were written (`splitlines_lines`), and the verifier decodes the records themselves, with
  their fields in order (`eventLines_emitted`).
-/
import TodDl.Provenance.Sorting

namespace TodDl.Provenance

/-! ## No control characters -/

theorem mem_joinComma {parts : List (List Char)} {c : Char} (h : c ∈ joinComma parts) :
    c = ',' ∨ ∃ p ∈ parts, c ∈ p := by
  induction parts with
  | nil => cases h
  | cons p rest ih =>
    cases rest with
    | nil => exact .inr ⟨p, List.mem_cons_self, h⟩
    | cons q rest =>
      rw [joinComma, List.mem_append, List.mem_cons] at h
      · rcases h with h | h | h
        · exact .inr ⟨p, List.mem_cons_self, h⟩
        · exact .inl h
        · obtain h | ⟨p', hp', h⟩ := ih h
          · exact .inl h
          · exact .inr ⟨p', List.mem_cons_of_mem _ hp', h⟩
      · exact List.cons_ne_nil _ _

/-- A text without control characters. -/
def Plain (text : List Char) : Prop := ∀ c ∈ text, 32 ≤ c.toNat

theorem Plain.append {s t : List Char} (hs : Plain s) (ht : Plain t) : Plain (s ++ t) :=
  fun c hc => (List.mem_append.1 hc).elim (hs c) (ht c)

theorem Plain.cons {c : Char} {t : List Char} (hc : 32 ≤ c.toNat) (ht : Plain t) : Plain (c :: t) :=
  List.forall_mem_cons.2 ⟨hc, ht⟩

theorem plain_nil : Plain [] := List.forall_mem_nil _

theorem plain_of_all {text : List Char} (h : text.all (fun c => decide (32 ≤ c.toNat)) = true) :
    Plain text := fun c hc => of_decide_eq_true (List.all_eq_true.1 h c hc)

theorem plain_joinComma {parts : List (List Char)} (h : ∀ p ∈ parts, Plain p) :
    Plain (joinComma parts) := by
  intro c hc
  obtain rfl | ⟨p, hp, hc⟩ := mem_joinComma hc
  · decide
  · exact h p hp c hc

theorem plain_hexDigit : ∀ n < 16, 32 ≤ (Lib.Sha256.hexDigit n).toNat := by decide

theorem plain_escapeChar (c : Char) : Plain (escapeChar c) := by
  have hslash : ∀ e : Char, 32 ≤ e.toNat → Plain ['\\', e] := fun e he =>
    .cons (by decide) (.cons he plain_nil)
  unfold escapeChar
  split
  · exact hslash _ (by decide)
  split
  · exact hslash _ (by decide)
  split
  · exact hslash _ (by decide)
  split
  · exact hslash _ (by decide)
  split
  · exact hslash _ (by decide)
  split
  · exact hslash _ (by decide)
  split
  · exact hslash _ (by decide)
  split
  · next hcontrol =>
    have hhigh := plain_hexDigit (c.toNat / 16) (by omega)
    have hlow := plain_hexDigit (c.toNat % 16) (Nat.mod_lt _ (by decide))
    exact .cons (by decide) (.cons (by decide) (.cons (by decide) (.cons (by decide)
      (.cons hhigh (.cons hlow plain_nil)))))
  · next hplain => exact .cons (by omega) plain_nil

theorem plain_renderString (s : String) : Plain (renderString s) := by
  refine .cons (by decide) (.append ?_ (.cons (by decide) plain_nil))
  intro c hc
  obtain ⟨d, -, hd⟩ := List.mem_flatMap.1 hc
  exact plain_escapeChar d c hd

theorem plain_digits (n : ℕ) : Plain (Nat.toDigits 10 n) := by
  intro c hc
  have hdigit := isAsciiDigit_of_isDigit (Nat.isDigit_of_mem_toDigits (by decide) (by decide) hc)
  rw [isAsciiDigit, Bool.and_eq_true, decide_eq_true_iff, Char.le_def] at hdigit
  have hle : (48 : ℕ) ≤ c.toNat := UInt32.le_iff_toNat_le.1 hdigit.1
  omega

theorem plain_int (i : ℤ) : Plain (render (.int i)) := by
  cases i with
  | ofNat n =>
    show Plain (toString n).toList
    rw [show (toString n).toList = Nat.toDigits 10 n from Nat.toList_repr]
    exact plain_digits n
  | negSucc n =>
    show Plain (toString (Int.negSucc n)).toList
    rw [toString_negSucc]
    exact .cons (by decide) (plain_digits _)

theorem renderItems_eq (l : List PyVal) : renderItems l = l.map render := by
  induction l with
  | nil => rfl
  | cons v rest ih => rw [renderItems, ih, List.map_cons]

/-- **Canonical JSON has no control characters.** -/
theorem plain_render (v : PyVal) : Plain (render v) := by
  induction v using PyVal.inductionOn with
  | scalar v hl hd =>
    cases v with
    | null => exact plain_of_all rfl
    | bool b => cases b <;> exact plain_of_all rfl
    | int i => exact plain_int i
    | str s => unfold render; exact plain_renderString s
    | list l => exact absurd rfl (hl l)
    | dict d => exact absurd rfl (hd d)
    | float | badStr | other => unfold render; exact plain_nil
  | list l ih =>
    rw [render, renderItems_eq]
    refine .cons (by decide) (.append (plain_joinComma fun p hp => ?_) (.cons (by decide) plain_nil))
    obtain ⟨v, hv, rfl⟩ := List.mem_map.1 hp
    exact ih v hv
  | dict d ih =>
    rw [render_dict]
    refine .cons (by decide) (.append (plain_joinComma fun p hp => ?_) (.cons (by decide) plain_nil))
    obtain ⟨q, hq, rfl⟩ := List.mem_map.1 hp
    obtain ⟨q', hq', rfl⟩ := mem_textFields hq
    exact (plain_renderString _).append (.cons (by decide) (ih q' hq'))

/-! ## Lines -/

/-- Bytes without a line break. -/
def OneLine (bytes : List UInt8) : Prop := ∀ b ∈ bytes, b ≠ 10 ∧ b ≠ 13

/-- A byte of UTF-8 that is no control character. -/
theorem oneLine_encodeChar {c : Char} (h : 32 ≤ c.toNat) : OneLine (String.utf8EncodeChar c) := by
  have hbyte : ∀ n : ℕ, 32 ≤ n → n < 256 → UInt8.ofNat n ≠ 10 ∧ UInt8.ofNat n ≠ 13 := by
    intro n hlow hhigh
    have hnat : (UInt8.ofNat n).toNat = n := UInt8.toNat_ofNat_of_lt' hhigh
    constructor <;> intro heq <;> rw [heq] at hnat <;> revert hnat <;>
      simp only [UInt8.toNat_ofNat] <;> omega
  have hval : c.val.toNat = c.toNat := rfl
  intro b hb
  simp only [String.utf8EncodeChar, hval] at hb
  split at hb
  · simp only [List.mem_singleton] at hb
    exact hb ▸ hbyte _ h (by omega)
  split at hb
  · simp only [List.mem_cons, List.not_mem_nil, or_false] at hb
    rcases hb with rfl | rfl <;> exact hbyte _ (by omega) (by omega)
  split at hb
  · simp only [List.mem_cons, List.not_mem_nil, or_false] at hb
    rcases hb with rfl | rfl | rfl <;> exact hbyte _ (by omega) (by omega)
  · simp only [List.mem_cons, List.not_mem_nil, or_false] at hb
    rcases hb with rfl | rfl | rfl | rfl <;> exact hbyte _ (by omega) (by omega)

theorem oneLine_utf8 {text : List Char} (h : Plain text) : OneLine (utf8 text) := by
  intro b hb
  obtain ⟨c, hc, hb⟩ := List.mem_flatMap.1 hb
  exact oneLine_encodeChar (h c hc) b hb

/-- A line ends at its newline. -/
theorem splitlines_newline {bytes : List UInt8} (h : OneLine bytes) (line rest : List UInt8) :
    splitlines line (bytes ++ 10 :: rest) = (line ++ bytes) :: splitlines [] rest := by
  induction bytes generalizing line with
  | nil => rw [List.nil_append, splitlines.eq_def, List.append_nil]; rfl
  | cons b bytes ih =>
    obtain ⟨⟨hnew, hreturn⟩, hrest⟩ := List.forall_mem_cons.1 h
    rw [List.cons_append, splitlines.eq_def]
    simp only [if_neg hnew, if_neg hreturn]
    rw [ih hrest, List.append_assoc, List.singleton_append]

/-- **Splitting undoes writing** line after line. -/
theorem splitlines_lines {lines : List (List UInt8)} (h : ∀ line ∈ lines, OneLine line) :
    splitlines [] (lines.flatMap (· ++ [10])) = lines := by
  induction lines with
  | nil => rfl
  | cons line rest ih =>
    obtain ⟨hline, hrest⟩ := List.forall_mem_cons.1 h
    rw [List.flatMap_cons, List.append_assoc, List.singleton_append, splitlines_newline hline,
      ih hrest, List.nil_append]

/-! ## The files of a session -/

/-- A record as the line `event` appends. -/
def eventLine (event : PyVal) : List UInt8 := utf8 (render event)

/-- `events.jsonl` -/
def Writer.eventBytes (w : Writer) : List UInt8 := w.events.flatMap fun e => eventLine e ++ [10]

/-- `schema.json`, which the constructor writes. -/
def schemaBytes : List UInt8 := utf8 (render schemaDocument)

/-- `self.schema_sha256` -/
def schemaSha256 : String := Lib.Sha256.hexdigest schemaBytes

/-- The record directory after `close` wrote `summary`, where a verifier with the given stack
    finds it. -/
def Writer.files (w : Writer) (summary : PyVal) (stack : Stack) : RecordFiles where
  runId := w.runId
  sessionId := w.sessionId
  schema := some schemaBytes
  summary := some (utf8 (render summary))
  events := some w.eventBytes
  stack := stack

theorem files_withEvents (w : Writer) (summary : PyVal) (stack : Stack) :
    (w.files summary stack).withEvents w.eventBytes = w.files summary stack := rfl

/-- The stack of the verifier holds the schema, and records that nest `depth` deep. -/
structure Stack.Holds (stack : Stack) (depth : ℕ) : Prop where
  schema : nesting schemaDocument ≤ stack.file
  file : depth ≤ stack.file
  line : depth ≤ stack.line
  summary : depth ≤ stack.summary
  event : depth ≤ stack.event

theorem lines_emitted (w : Writer) : splitlines [] w.eventBytes = w.events.map eventLine := by
  have hbytes : w.eventBytes = (w.events.map eventLine).flatMap (· ++ [10]) := by
    rw [Writer.eventBytes, List.flatMap_map]
  rw [hbytes, splitlines_lines]
  intro line hline
  obtain ⟨e, -, rfl⟩ := List.mem_map.1 hline
  exact oneLine_utf8 (plain_render e)

theorem load_emitted {v : PyVal} (hr : Recordable v) (hd : Decoded v) :
    loadBytes (utf8 (render v)) = some v.sorted := by
  rw [loadBytes_utf8, loads_render hr hd]

/-- What was written is read where the stack holds it. -/
theorem bytesDeep_emitted {v : PyVal} (hr : Recordable v) (hd : Decoded v) {depth : ℕ}
    (h : nesting v ≤ depth) : bytesDeep depth (utf8 (render v)) = false := by
  rw [bytesDeep_eq (load_emitted hr hd), nesting_sorted hr, decide_eq_false_iff_not, not_lt]
  exact h

/-- **The verifier decodes the records that were written**, with their fields in order. -/
theorem eventLines_emitted {w : Writer} (hr : ∀ e ∈ w.events, Recordable e)
    (hd : ∀ e ∈ w.events, Decoded e) :
    eventLines w.eventBytes = w.events.map fun e => some e.sorted := by
  rw [eventLines, lines_emitted, List.map_map]
  exact List.map_congr_left fun e he => load_emitted (hr e he) (hd e he)

/-- A space before the first line makes no difference. -/
theorem read_spaced (f : RecordFiles) {w : Writer} {e : PyVal} {rest : List PyVal}
    (hevents : w.events = e :: rest) (hr : Recordable e) (hd : Decoded e) :
    eventLines (32 :: w.eventBytes) = eventLines w.eventBytes ∧
      (f.withEvents (32 :: w.eventBytes)).read = (f.withEvents w.eventBytes).read := by
  have hline : loadBytes (32 :: eventLine e) = loadBytes (eventLine e) := by
    obtain ⟨c, cs, hc, -, -, hmark⟩ := render_eq_cons hr
    have htext : (32 : UInt8) :: eventLine e = utf8 (' ' :: render e) := rfl
    rw [htext, eventLine, loadBytes_utf8, loadBytes_utf8,
      loads_space rfl (by rw [hc]; simpa using hmark)]
  have hload : loadBytes (eventLine e) = some e.sorted := load_emitted hr hd
  have hdeep : ∀ depth, bytesDeep depth (32 :: eventLine e) = bytesDeep depth (eventLine e) :=
    fun depth => (bytesDeep_eq (hline.trans hload)).trans (bytesDeep_eq hload).symm
  have hsplit : splitlines [] (32 :: w.eventBytes) = (32 :: eventLine e) :: rest.map eventLine := by
    have hbytes : 32 :: w.eventBytes =
        ((32 :: eventLine e) :: rest.map eventLine).flatMap (· ++ [10]) := by
      rw [Writer.eventBytes, hevents, List.flatMap_cons, List.flatMap_cons, List.flatMap_map,
        List.cons_append, List.cons_append]
    rw [hbytes, splitlines_lines]
    have hplain : ∀ e, OneLine (eventLine e) := fun e => oneLine_utf8 (plain_render e)
    refine List.forall_mem_cons.2 ⟨List.forall_mem_cons.2 ⟨by decide, hplain e⟩, ?_⟩
    rw [List.forall_mem_map]
    exact fun e _ => hplain e
  have hlines := lines_emitted w
  rw [hevents, List.map_cons] at hlines
  constructor
  · rw [eventLines, eventLines, hsplit, hlines, List.map_cons, List.map_cons, hline]
  · simp only [RecordFiles.read, RecordFiles.withEvents, Option.map_some, Option.bind_some, hsplit,
      hlines, List.map_cons, hline, List.findIdx?_cons, hdeep]

theorem recordable_schemaDocument : Recordable schemaDocument ∧ Decoded schemaDocument := by
  decide +kernel

/-- What the verifier reads of three files whose records its stack holds. -/
theorem read_some {runId sessionId : String} {schema summary : PyVal} {contents : List UInt8}
    {lines : List (List UInt8)} {stack : Stack} (hschema : Recordable schema ∧ Decoded schema)
    (hsummary : Recordable summary ∧ Decoded summary) (hfile : nesting schema ≤ stack.file)
    (hfile' : nesting summary ≤ stack.file) (hlines : splitlines [] contents = lines)
    (hdeep : ∀ line ∈ lines, bytesDeep stack.line line = false) :
    (RecordFiles.mk runId sessionId (some (utf8 (render schema))) (some (utf8 (render summary)))
        (some contents) stack).read =
      { runId := runId
        sessionId := sessionId
        schemaBytes := some (utf8 (render schema))
        schema := some schema.sorted
        summary := some summary.sorted
        lines := some (lines.map loadBytes)
        stack := stack
        deepFile := false
        deepLine := none } := by
  have hnone : lines.findIdx? (bytesDeep stack.line) = none := List.findIdx?_eq_none_iff.2 hdeep
  simp only [RecordFiles.read, Option.bind_some, Option.map_some, Option.any_some, hlines, hnone,
    load_emitted hschema.1 hschema.2, load_emitted hsummary.1 hsummary.2,
    bytesDeep_emitted hschema.1 hschema.2 hfile, bytesDeep_emitted hsummary.1 hsummary.2 hfile',
    Bool.or_self]

/-- What the verifier reads of a session. -/
theorem read_files {w : Writer} {summary : PyVal} {stack : Stack}
    (hr : ∀ e ∈ w.events, Recordable e) (hd : ∀ e ∈ w.events, Decoded e)
    (hn : ∀ e ∈ w.events, nesting e ≤ stack.line) (hrs : Recordable summary) (hds : Decoded summary)
    (hfile : nesting schemaDocument ≤ stack.file) (hfile' : nesting summary ≤ stack.file) :
    (w.files summary stack).read =
      { runId := w.runId
        sessionId := w.sessionId
        schemaBytes := some schemaBytes
        schema := some schemaDocument.sorted
        summary := some summary.sorted
        lines := some (w.events.map fun e => some e.sorted)
        stack := stack
        deepFile := false
        deepLine := none } := by
  have hdeep : ∀ line ∈ w.events.map eventLine, bytesDeep stack.line line = false := by
    intro line hline
    obtain ⟨e, he, rfl⟩ := List.mem_map.1 hline
    exact bytesDeep_emitted (hr e he) (hd e he) (hn e he)
  have hlines := eventLines_emitted hr hd
  rw [eventLines, lines_emitted] at hlines
  rw [← hlines]
  exact read_some recordable_schemaDocument ⟨hrs, hds⟩ hfile hfile' (lines_emitted w) hdeep

end TodDl.Provenance
