/-
  Provenance records — the verifier (verify_provenance.py).

  A `RecordSet` is what the verifier reads: the directory names, the files as
  `json.loads` decodes them (a line is `none` when it is not valid JSON), where
  it runs out of stack, and the destination tree.  `verify` returns the findings
  in the source's order, or the exception it lets through; the findings are data,
  `Finding.text` is the message of the source.
-/
import TodDl.Provenance.Writer

namespace TodDl.Provenance

/-- `EVENT_FIELDS[event_type]` -/
def eventFields (eventType : String) : List String :=
  match eventFieldRules.find? fun p => p.1 = eventType with
  | some (_, rules) => rules.map (·.1)
  | none => []

/-- One line of the verifier's report. -/
inductive Finding where
  | invalidJson (file : String)
  | schemaChanged
  | summaryFields
  | summaryIdentifiers
  | schemaDigest
  | noTrustAnchor
  | fingerprintMismatch
  | fingerprintNotExpected
  | publicKey
  | publicKeyRequired
  | invalidSignature
  | summaryProblem (p : Problem)
  | eventsUnreadable
  | invalidLine (number : ℕ)
  | notObject
  | missingFields
  | invalidSchemaVersion
  | invalidEventType
  | eventFields
  | eventProblem (p : Problem)
  | validationValue (name : String)
  | eventIdentifiers
  | sequenceGap
  | duplicateId
  | previousDigest
  | eventDigest
  | eventCount
  | finalEventDigest
  | lastEvent
  | completedCount
  | finalMissing (path : List (List ℕ))
  | finalByteCount (path : List (List ℕ))
  | finalSha256 (path : List (List ℕ))
  | finalizedInvalid

def Reason.text : Reason → String
  | .mustEqual _ => "must equal the constant"
  | .notAllowed _ => "is not an allowed value"
  | .wrongType => "has the wrong type"
  | .badFormat => "does not match the required format"
  | .tooShort => "is too short"
  | .outOfRange => "is out of range"
  | .missing name => "missing required field '" ++ name ++ "'"
  | .unknownField name => "unknown field '" ++ name ++ "'"

def Problem.text (p : Problem) : String := p.path ++ ": " ++ p.reason.text

/-- The text of a path (a lone surrogate has none and shows as NUL). -/
def pathText (parts : List (List ℕ)) : String :=
  String.ofList (([47].intercalate parts).map Char.ofNat)

/-- The message of a finding (without the text of a nested exception). -/
def Finding.text : Finding → String
  | .invalidJson file => file ++ ": invalid JSON"
  | .schemaChanged => "schema.json: schema content changed or is unsupported"
  | .summaryFields => "summary.json: missing or unknown fields"
  | .summaryIdentifiers => "summary.json: identifiers do not match record path"
  | .schemaDigest => "summary.json: schema digest mismatch"
  | .noTrustAnchor => "a trusted public key or expected fingerprint is required"
  | .fingerprintMismatch => "summary.json: signing key fingerprint mismatch"
  | .fingerprintNotExpected =>
    "trusted public key fingerprint does not match expected fingerprint"
  | .publicKey => "trusted public key"
  | .publicKeyRequired => "a public key is required to verify the summary signature"
  | .invalidSignature => "summary.json: invalid signature"
  | .summaryProblem p => "summary.json: " ++ p.text
  | .eventsUnreadable => "events.jsonl"
  | .invalidLine number => "events.jsonl line " ++ toString number ++ ": invalid JSON"
  | .notObject => "events.jsonl: event is not an object"
  | .missingFields => "events.jsonl: event has missing required fields"
  | .invalidSchemaVersion => "events.jsonl: invalid schema version"
  | .invalidEventType => "events.jsonl: invalid event type"
  | .eventFields => "events.jsonl: missing or unknown event fields"
  | .eventProblem p => "events.jsonl: " ++ p.text
  | .validationValue name => "events.jsonl: " ++ name ++ " is unavailable but has a value or was compared"
  | .eventIdentifiers => "events.jsonl: event identifiers do not match record path"
  | .sequenceGap => "events.jsonl: sequence gap or reorder"
  | .duplicateId => "events.jsonl: duplicate event ID"
  | .previousDigest => "events.jsonl: previous digest changed"
  | .eventDigest => "events.jsonl: invalid event digest"
  | .eventCount => "summary.json: event count mismatch"
  | .finalEventDigest => "summary.json: final event digest mismatch"
  | .lastEvent => "summary.json: last event is not a matching run_closed event"
  | .completedCount => "summary.json: completed-item count does not match finalized events"
  | .finalMissing path => "final file is missing: " ++ pathText path
  | .finalByteCount path => "final byte count differs: " ++ pathText path
  | .finalSha256 path => "final SHA-256 differs: " ++ pathText path
  | .finalizedInvalid => "finalized event is invalid"

/-- A finding when the check fails. -/
def report (ok : Bool) (f : Finding) : List Finding := if ok then [] else [f]

@[simp] theorem report_true (f : Finding) : report true f = [] := rfl

theorem mem_report {ok : Bool} {f g : Finding} : g ∈ report ok f ↔ ok = false ∧ g = f := by
  cases ok <;> simp [report]

/-! ## One event -/

/-- The value can be a member of a set. -/
def hashable : PyVal → Bool
  | .list _ | .dict _ => false
  | _ => true

/-- `digest` of the event without its own digest. -/
def unsealedDigest (depth : ℕ) (items : List (Key × PyVal)) : Except Failure String :=
  digest depth (.dict (items.filter fun p => p.1 ≠ .str "event_digest"))

/-- The names of the four validation objects of a finalized event. -/
def validationNames : List String := ["expected_size", "expected_checksum", "etag", "last_modified"]

/-- An unavailable validation object is not compared and has no value. -/
def validationOk (check : PyVal) : Bool :=
  match check with
  | .dict _ =>
    match check.get "available" with
    | .bool false =>
      (match check.get "compared" with | .bool false => true | _ => false) &&
        (match check.get "value" with | .null => true | _ => false)
    | _ => true
  | _ => true

/-- The checks that depend on the event type. -/
def typeFindings (event : PyVal) (eventType : String) : List Finding :=
  report ((event.items.map (·.1)).all (fun k => k ∈ (commonFields ++ eventFields eventType).map .str)
      && ((commonFields ++ eventFields eventType).all fun name => (lookup name event.items).isSome))
    .eventFields ++
  (match eventSchema eventType with
    | .ok s => (schemaErrors event s "$").map .eventProblem
    | .error _ => []) ++
  (if eventType = "finalized" then
    validationNames.flatMap fun name => report (validationOk (event.get name)) (.validationValue name)
  else [])

/-- The check of `event_type` and what depends on it. -/
def eventTypeFindings (event : PyVal) : List Finding :=
  match event.get "event_type" with
  | .str t => if t ∈ eventTypes then typeFindings event t else [.invalidEventType]
  | _ => [.invalidEventType]

/-- The check of `event_digest`. -/
def digestFindings (depth : ℕ) (items : List (Key × PyVal)) :
    PyVal → Except Failure (List Finding)
  | .str d =>
    if Pattern.hex.fullMatch d.toList then
      (unsealedDigest depth items).map fun expected => report (d = expected) .eventDigest
    else .ok [.eventDigest]
  | _ => .ok [.eventDigest]

/-- The digest the next event must name. -/
def digestLink : PyVal → PyVal
  | .str d => .str d
  | _ => .null

/-- The state of the loop over the events. -/
structure Checked where
  previous : PyVal
  seen : List PyVal
  findings : List Finding

/-- `check_event(...)`; the findings are those of this event only.  A type or an
    ID that cannot be a member of a set raises. -/
def checkEvent (depth : ℕ) (event : PyVal) (runId sessionId : String) (sequence : ℕ)
    (previous : PyVal) (seen : List PyVal) : Except Failure Checked :=
  match event with
  | .dict items =>
    if hashable (event.get "event_type") && hashable (event.get "event_id") then
      (digestFindings depth items (event.get "event_digest")).map fun digested =>
        ⟨digestLink (event.get "event_digest"), event.get "event_id" :: seen,
          report (commonFields.all fun name => (lookup name items).isSome) .missingFields ++
          report (pyEq (event.get "schema_version") schemaVersion) .invalidSchemaVersion ++
          eventTypeFindings event ++
          report (pyEq (event.get "run_id") (.str runId) &&
            pyEq (event.get "session_id") (.str sessionId)) .eventIdentifiers ++
          report (pyEq (event.get "sequence") (.int sequence)) .sequenceGap ++
          report (!pyMem (event.get "event_id") seen) .duplicateId ++
          report (pyEq (event.get "previous_digest") previous) .previousDigest ++
          digested⟩
    else .error .typeError
  | _ => .ok ⟨.null, seen, [.notObject]⟩

/-- The loop over the lines, from line `number` on. -/
def checkLines (depth : ℕ) (runId sessionId : String) :
    List (Option PyVal) → ℕ → PyVal → List PyVal → Except Failure (PyVal × List Finding)
  | [], _, previous, _ => .ok (previous, [])
  | none :: rest, number, previous, seen => do
    let (last, findings) ← checkLines depth runId sessionId rest (number + 1) previous seen
    return (last, .invalidLine number :: findings)
  | some event :: rest, number, previous, seen => do
    let c ← checkEvent depth event runId sessionId number previous seen
    let (last, findings) ← checkLines depth runId sessionId rest (number + 1) c.previous c.seen
    return (last, c.findings ++ findings)

/-! ## The signature -/

/-- The value of a base64 digit, in the standard or the URL-safe alphabet. -/
def base64Value (c : Char) : Option ℕ :=
  if 'A' ≤ c ∧ c ≤ 'Z' then some (c.toNat - 65)
  else if 'a' ≤ c ∧ c ≤ 'z' then some (c.toNat - 71)
  else if '0' ≤ c ∧ c ≤ '9' then some (c.toNat + 4)
  else if c = '+' ∨ c = '-' then some 62
  else if c = '/' ∨ c = '_' then some 63
  else none

/-- `binascii.a2b_base64` without strict mode: `quad` digits of the current
    group are read, `left` holds their bits that no byte has yet, and `pads`
    counts the `=` in a row.  Other characters are skipped. -/
def a2bBase64 : List Char → ℕ → ℕ → ℕ → Except Failure (List UInt8)
  | [], quad, _, _ => if quad = 0 then .ok [] else .error .valueError
  | c :: cs, quad, left, pads =>
    if c = '=' then
      if quad < 2 then a2bBase64 cs quad left pads
      else if 4 ≤ quad + (pads + 1) then .ok []
      else a2bBase64 cs quad left (pads + 1)
    else
      match base64Value c, quad with
      | none, _ => a2bBase64 cs quad left pads
      | some v, 0 => a2bBase64 cs 1 v 0
      | some v, 1 => (a2bBase64 cs 2 (v % 16) 0).map (UInt8.ofNat (left * 4 + v / 16) :: ·)
      | some v, 2 => (a2bBase64 cs 3 (v % 4) 0).map (UInt8.ofNat (left * 16 + v / 4) :: ·)
      | some v, _ => (a2bBase64 cs 0 0 0).map (UInt8.ofNat (left * 64 + v) :: ·)

/-- `base64.urlsafe_b64decode(signature_text + "==")` -/
def signatureBytes : PyVal → Except Failure (List UInt8)
  | .str s =>
    if s.toList.all fun c => c.toNat < 128 then a2bBase64 (s.toList ++ ['=', '=']) 0 0 0
    else .error .valueError
  | .badStr _ => .error .valueError
  | _ => .error .typeError

/-- A public key that could be loaded.  It need not be an Ed25519 key: `raw` is
    `public_bytes(Raw, Raw)`, and `verify` may raise anything (`false` stands for
    `InvalidSignature`). -/
structure PublicKey where
  raw : Except Failure (List UInt8)
  verify : List UInt8 → List UInt8 → Except Failure Bool

/-- How deep the stack lets a value nest where `verify` reads or writes JSON (by
    default the recursion limit, less some calls). -/
structure Stack where
  /-- in `load_json` -/
  file : ℕ := 980
  /-- in the `json.loads` of a line -/
  line : ℕ := 980
  /-- in the `canonical_json` of the summary -/
  summary : ℕ := 980
  /-- in the `digest` of an event -/
  event : ℕ := 980

/-- What `verify` reads. -/
structure RecordSet where
  runId : String
  sessionId : String
  /-- the bytes of `schema.json`, if it exists -/
  schemaBytes : Option (List UInt8)
  schema : Option PyVal
  summary : Option PyVal
  /-- the lines of `events.jsonl`, if it can be read -/
  lines : Option (List (Option PyVal))
  stack : Stack := {}
  /-- `load_json` runs out of stack on `schema.json` or `summary.json` -/
  deepFile : Bool := false
  /-- the index of the first line that `json.loads` runs out of stack on -/
  deepLine : Option ℕ := none

/-- The summary without its signature. -/
def unsignedItems (items : List (Key × PyVal)) : List (Key × PyVal) :=
  items.filter fun p => p.1 ≠ .str "signature"

/-- `key.verify(...)` with its arguments, in the order they are evaluated. -/
def checkSignature (depth : ℕ) (k : PublicKey) (items : List (Key × PyVal)) :
    Except Failure Bool := do
  let signature ← signatureBytes ((lookup "signature" items).getD (.str ""))
  let bytes ← canonicalJson depth (.dict (unsignedItems items))
  k.verify signature bytes

/-- The signature check, when a key was loaded. -/
def signatureFindings (depth : ℕ) (summary : PyVal) (key : Option (Except Failure PublicKey)) :
    Except Failure (List Finding) :=
  match key with
  | some (.ok k) =>
    match checkSignature depth k summary.items with
    | .ok valid => .ok (report valid .invalidSignature)
    | .error e => if e.isValueError then .ok [.invalidSignature] else .error e
  | _ => .ok []

/-- The findings about the trusted key (`expected`: the fingerprint given). -/
def keyFindings (summary : PyVal) (key : Option (Except Failure PublicKey))
    (expected : Option String) : Except Failure (List Finding) :=
  -- an empty fingerprint is as none
  let expected := expected.filter fun e => e ≠ ""
  match key with
  | some loaded =>
    match loaded.bind (·.raw) with
    | .ok raw =>
      let fingerprint := Lib.Sha256.hexdigest raw
      .ok (report (pyEq (summary.get "signing_key_fingerprint") (.str fingerprint))
          .fingerprintMismatch ++
        match expected with
        | some e => report (fingerprint = e) .fingerprintNotExpected
        | none => [])
    | .error e => if e.isOsOrValueError then .ok [.publicKey] else .error e
  | none =>
    match expected with
    | some e => .ok (.publicKeyRequired ::
        report (pyEq (summary.get "signing_key_fingerprint") (.str e)) .fingerprintMismatch)
    | none => .ok [.noTrustAnchor]

/-! ## The record set -/

/-- The components of a path text, by their code points. -/
def pathParts (codes : List ℕ) : List (List ℕ) :=
  (codes.splitOn 47).filter fun c => c ≠ [] && c ≠ [46]

/-- `relative_text(value)` as path components; `TypeError` on another type. -/
def relativeText (v : PyVal) : Except Failure (List (List ℕ)) :=
  match v.codes with
  | some codes =>
    if codes.head? = some 47 || (pathParts codes).isEmpty || (pathParts codes).contains [46, 46] then
      .error (.provenance "provenance path is not a safe relative path")
    else .ok (pathParts codes)
  | none => .error .typeError

/-- The destination tree: the bytes of a regular file, by the components of its path. -/
abbrev Files := List (List ℕ) → Option (List UInt8)

/-- The checks of one finalized event against the destination tree. -/
def checkFinal (files : Files) (event : PyVal) : Except Failure (List Finding) :=
  match lookup "logical_relative_path" event.items, lookup "final_relative_path" event.items with
  | none, _ => .ok [.finalizedInvalid]
  | some logical, stored =>
    match relativeText logical, stored.map relativeText with
    | .ok _, some (.ok parts) =>
      match files parts with
      | none => .ok [.finalMissing parts]
      | some bytes => .ok (
          report (pyEq (.int bytes.length) (event.get "byte_count")) (.finalByteCount parts) ++
          report (pyEq (.str (Lib.Sha256.hexdigest bytes)) (event.get "sha256")) (.finalSha256 parts))
    | .error .typeError, _ | .ok _, some (.error .typeError) => .error .typeError
    | _, _ => .ok [.finalizedInvalid]

def checkFinals (files : Files) : List PyVal → Except Failure (List Finding)
  | [] => .ok []
  | e :: rest => do return (← checkFinal files e) ++ (← checkFinals files rest)

/-- The finalized events among the decoded lines. -/
def finalEvents (lines : List (Option PyVal)) : List PyVal :=
  (lines.filterMap id).filter fun e => pyEq (e.get "event_type") (.str "finalized")

/-- The last decoded event. -/
def lastEvent (lines : List (Option PyVal)) : PyVal := (lines.filterMap id).getLast?.getD .null

/-- `value < number` for a number of the record. -/
def lessThan (v : PyVal) (number : ℤ) : Except Failure Bool :=
  match v with
  | .float (.infinite negative) => .ok negative
  | .float .nan => .ok false
  | v =>
    match v.number with
    | some c => .ok (c < number)
    | none => .error .typeError

/-- `isinstance(value, int)`, with the number. -/
def PyVal.asInt : PyVal → Option ℤ
  | .int n => some n
  | .bool b => some (if b then 1 else 0)
  | _ => none

/-- The completed-item counts agree with the number of finalized events. -/
def countsAgree (summary : PyVal) (finals : ℕ) : Except Failure Bool :=
  match summary.get "durable_outcome_counts", (summary.get "session_finalized_count").asInt with
  | .dict counts, some n =>
    if n ≠ finals then .ok false
    else (lessThan ((lookup "complete" counts).getD (.int 0)) n).map (!·)
  | _, _ => .ok true

/-- The checks of `summary.json` against the lines. -/
def tailFindings (summary : PyVal) (lines : List (Option PyVal)) (previous : PyVal) :
    Except Failure (List Finding) := do
  let agree ← countsAgree summary (finalEvents lines).length
  return report (pyEq (summary.get "event_count") (.int lines.length)) .eventCount ++
    report (pyEq (summary.get "final_event_digest") previous) .finalEventDigest ++
    report (lines.isEmpty ||
      (pyEq ((lastEvent lines).get "event_type") (.str "run_closed") &&
        pyEq ((lastEvent lines).get "durable_outcome_counts")
          (summary.get "durable_outcome_counts"))) .lastEvent ++
    report agree .completedCount

/-- The findings about `schema.json`. -/
def schemaFindings (schema : Option PyVal) : List Finding :=
  report schema.isSome (.invalidJson "schema.json") ++
    report (pyEq (schema.getD .null) schemaDocument) .schemaChanged

/-- The findings about the fields, the identifiers and the schema digest of `summary.json`. -/
def summaryFindings (rs : RecordSet) (items : List (Key × PyVal)) : List Finding :=
  let summary := PyVal.dict items
  report ((items.map (·.1)).all (fun k => k ∈ summaryFields.map .str) &&
    summaryFields.all fun name => (lookup name items).isSome) .summaryFields ++
  report (pyEq (summary.get "run_id") (.str rs.runId) &&
    pyEq (summary.get "session_id") (.str rs.sessionId)) .summaryIdentifiers ++
  report (pyEq (summary.get "schema_sha256")
    (match rs.schemaBytes with
      | some b => .str (Lib.Sha256.hexdigest b)
      | none => .null)) .schemaDigest

/-- The loop over the lines of `events.jsonl`, up to the line that exhausts the stack. -/
def checkFile (rs : RecordSet) : Except Failure (PyVal × List Finding) :=
  let lines := rs.lines.getD []
  match rs.deepLine with
  | none => checkLines rs.stack.event rs.runId rs.sessionId lines 1 .null []
  | some index => do
    let _ ← checkLines rs.stack.event rs.runId rs.sessionId (lines.take index) 1 .null []
    throw (.other "RecursionError")

/-- The part of `verify` after `summary.json` was read as an object. -/
def verifyItems (rs : RecordSet) (files : Files) (key : Option (Except Failure PublicKey))
    (expected : Option String) (items : List (Key × PyVal)) : Except Failure (List Finding) := do
  let summary := PyVal.dict items
  let keys ← keyFindings summary key expected
  let signature ← signatureFindings rs.stack.summary summary key
  let problems := (schemaErrors summary summarySchema "$").map Finding.summaryProblem
  let lines := rs.lines.getD []
  let (previous, events) ← checkFile rs
  let tail ← tailFindings summary lines previous
  let finals ← checkFinals files (finalEvents lines)
  return schemaFindings rs.schema ++ summaryFindings rs items ++ keys ++ signature ++ problems ++
    report rs.lines.isSome .eventsUnreadable ++ events ++ tail ++ finals

/-- `verify(record_dir, destination, public_key, expected_fingerprint)`; `key` is
    what loading the key file gave or raised, if one was named. -/
def verify (rs : RecordSet) (files : Files) (key : Option (Except Failure PublicKey))
    (expected : Option String) : Except Failure (List Finding) :=
  if rs.deepFile then .error (.other "RecursionError")
  else
    match rs.summary with
    | none => .ok (schemaFindings rs.schema ++ [.invalidJson "summary.json"])
    | some (.dict items) => verifyItems rs files key expected items
    | some _ => .ok (schemaFindings rs.schema)

theorem bind_eq_ok {α β : Type} {x : Except Failure α} {f : α → Except Failure β} {b : β} :
    x.bind f = .ok b ↔ ∃ a, x = .ok a ∧ f a = .ok b := by
  cases x with
  | error e => simp [Except.bind]
  | ok a => simp [Except.bind]

theorem checkFile_eq_ok {rs : RecordSet} {res : PyVal × List Finding} :
    checkFile rs = .ok res ↔ rs.deepLine = none ∧
      checkLines rs.stack.event rs.runId rs.sessionId (rs.lines.getD []) 1 .null [] = .ok res := by
  rw [checkFile]
  cases rs.deepLine with
  | none => simp
  | some index =>
    simp only [bind, bind_eq_ok, throw, throwThe, MonadExceptOf.throw]
    simp

/-- **The parts of a report** on a summary that is an object. -/
theorem verify_eq_ok {rs : RecordSet} {files : Files} {key : Option (Except Failure PublicKey)}
    {expected : Option String} {items : List (Key × PyVal)} {fs : List Finding}
    (hsummary : rs.summary = some (.dict items)) :
    verify rs files key expected = .ok fs ↔ rs.deepFile = false ∧ rs.deepLine = none ∧
      ∃ keys signature loop tail finals,
      keyFindings (.dict items) key expected = .ok keys ∧
      signatureFindings rs.stack.summary (.dict items) key = .ok signature ∧
      checkLines rs.stack.event rs.runId rs.sessionId (rs.lines.getD []) 1 .null [] = .ok loop ∧
      tailFindings (.dict items) (rs.lines.getD []) loop.1 = .ok tail ∧
      checkFinals files (finalEvents (rs.lines.getD [])) = .ok finals ∧
      fs = schemaFindings rs.schema ++ summaryFindings rs items ++ keys ++ signature ++
        (schemaErrors (.dict items) summarySchema "$").map .summaryProblem ++
        report rs.lines.isSome .eventsUnreadable ++ loop.2 ++ tail ++ finals := by
  cases hdeep : rs.deepFile with
  | true => simp [verify, hdeep]
  | false =>
    simp only [verify, hdeep, hsummary, verifyItems, bind, bind_eq_ok, checkFile_eq_ok, pure,
      Except.pure, Except.ok.injEq, Bool.false_eq_true, if_false, true_and]
    constructor
    · rintro ⟨keys, hkeys, signature, hsig, loop, ⟨hline, hloop⟩, tail, htail, finals, hfinals, rfl⟩
      exact ⟨hline, keys, signature, loop, tail, finals, hkeys, hsig, hloop, htail, hfinals, rfl⟩
    · rintro ⟨hline, keys, signature, loop, tail, finals, hkeys, hsig, hloop, htail, hfinals, rfl⟩
      exact ⟨keys, hkeys, signature, hsig, loop, ⟨hline, hloop⟩, tail, htail, finals, hfinals, rfl⟩

end TodDl.Provenance
