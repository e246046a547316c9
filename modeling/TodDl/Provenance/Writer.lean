/-
  Provenance records — `ProvenanceWriter` (provenance.py).

  A `Writer` is the mutable state of the source's object together with the
  records in `events.jsonl` (one record a line, as `json.loads` reads it back).
  `event` and `close` return what the call returned or raised and the writer it
  left behind, which on some failures is not the writer it started from.
-/
import TodDl.Provenance.Schema

namespace TodDl.Provenance

/-! ## URLs with credentials -/

/-- The code points of a string value. -/
def PyVal.codes : PyVal → Option (List ℕ)
  | .str s => some (s.toList.map Char.toNat)
  | .badStr codes => some codes
  | _ => none

def isAsciiAlpha (c : ℕ) : Bool := (65 ≤ c && c ≤ 90) || (97 ≤ c && c ≤ 122)

/-- A character of a URL scheme. -/
def isSchemeChar (c : ℕ) : Bool :=
  isAsciiAlpha c || (48 ≤ c && c ≤ 57) || c = 43 || c = 45 || c = 46

/-- What `urlsplit` leaves of the URL after the scheme. -/
def afterScheme (url : List ℕ) : List ℕ :=
  let scheme := url.takeWhile (· ≠ 58)
  match url.drop scheme.length, scheme with
  | _ :: rest, c :: _ => if isAsciiAlpha c && scheme.all isSchemeChar then rest else url
  | _, _ => url

/-- `urlsplit(url).netloc`.  An unmatched bracket raises `ValueError`; so do some
    bracketed hosts and some hosts outside ASCII, which are let through here and are up to
    what else is known of Python. -/
def netloc (url : List ℕ) : Except Failure (List ℕ) :=
  let stripped := (url.dropWhile (· ≤ 32)).filter fun c => c ≠ 9 && c ≠ 10 && c ≠ 13
  match afterScheme stripped with
  | 47 :: 47 :: rest =>
    let host := rest.takeWhile fun c => c ≠ 47 && c ≠ 63 && c ≠ 35
    if host.contains 91 = host.contains 93 then .ok host else .error .valueError
  | _ => .ok []

section
variable (refuses : List ℕ → Bool)

/-- `reject_credentialed_url(value)`: user-info ends at an `@` of the netloc. -/
def rejectCredentialedUrl (v : PyVal) : Except Failure Unit :=
  match v.codes with
  | none => .ok ()
  | some url => do
    let host ← netloc url
    if refuses host then throw .valueError
    if host.contains 64 then
      throw (.provenance "provenance must not record a URL with user-info credentials")

/-- A dict key as a value. -/
def Key.toPy : Key → PyVal
  | .str s => .str s
  | .badStr codes => .badStr codes
  | .other repr => .other repr

/-- The loop over `fields.get("redirect_chain") or []`. -/
def rejectRedirects : PyVal → Except Failure Unit
  | .list urls => urls.forM (rejectCredentialedUrl refuses)
  | .dict items => items.forM fun p => rejectCredentialedUrl refuses p.1.toPy
  | .null | .str _ | .badStr _ | .bool false => .ok ()
  | .int i => if i = 0 then .ok () else .error .typeError
  | .float (.finite q) => if q = 0 then .ok () else .error .typeError
  | .float _ => .error .typeError
  | .bool true | .other _ => .error .typeError

/-- The checks `event` makes before it takes the lock. -/
def rejectFields (fields : List (String × PyVal)) : Except Failure Unit := do
  let given := PyVal.dict (update [] fields)
  rejectCredentialedUrl refuses (given.get "source_url")
  rejectCredentialedUrl refuses (given.get "final_url")
  rejectRedirects refuses (given.get "redirect_chain")

end

/-! ## The writer -/

/-- What one call of `event` gets from outside: a fresh UUID, the clock, whether
    the append to `events.jsonl` raises before it wrote anything, and how deep the
    stack lets a value nest (by default the recursion limit, less some calls). -/
structure EventIo where
  eventId : String
  recordedAt : String
  appendFails : Bool := false
  depth : ℕ := 980
  /-- the netlocs that `urlsplit` raises ValueError for, though their brackets match: those with a
      bracketed host that is no IP literal, or that NFKC makes a delimiter of -/
  refusesNetloc : List ℕ → Bool := fun _ => false

/-- The state of a `ProvenanceWriter`, and the lines of its `events.jsonl`. -/
structure Writer where
  runId : String
  sessionId : String
  sequence : ℕ := 0
  finalizedCount : ℕ := 0
  previousDigest : PyVal := .null
  events : List PyVal := []

namespace Writer

/-- The writer of a new session. -/
def start (runId sessionId : String) : Writer := { runId, sessionId }

/-- The fields of the record before its digest is added. -/
def recordItems (w : Writer) (eventType : String) (fields : List (String × PyVal)) (io : EventIo) :
    List (Key × PyVal) :=
  update
    [(.str "schema_version", schemaVersion), (.str "event_id", .str io.eventId),
     (.str "sequence", .int (w.sequence + 1)), (.str "event_type", .str eventType),
     (.str "run_id", .str w.runId), (.str "session_id", .str w.sessionId),
     (.str "recorded_at", .str io.recordedAt), (.str "previous_digest", w.previousDigest)]
    fields

/-- The record with its digest. -/
def sealed (items : List (Key × PyVal)) (digest : String) : PyVal :=
  .dict (insert (.str "event_digest") (.str digest) items)

/-- The part of `event` under the lock, after `self.sequence += 1`; the
    schema check is the only failure that takes the number back. -/
def append (w : Writer) (eventType : String) (fields : List (String × PyVal)) (io : EventIo) :
    Except Failure PyVal × Writer :=
  let items := w.recordItems eventType fields io
  let counted := { w with sequence := w.sequence + 1 }
  match digest io.depth (.dict items) with
  | .error e => (.error e, counted)
  | .ok d =>
    match eventSchema eventType with
    | .error e => (.error e, counted)
    | .ok schema =>
      if (schemaErrors (sealed items d) schema "$").isEmpty then
        if io.appendFails then (.error (.provenance "cannot write provenance event"), counted)
        else
          (.ok (sealed items d),
            { counted with
              previousDigest := .str d
              finalizedCount := w.finalizedCount + if eventType = "finalized" then 1 else 0
              events := w.events ++ [sealed items d] })
      else (.error (.provenance "event does not match the schema"), w)

/-- `ProvenanceWriter.event(event_type, **fields)` -/
def event (w : Writer) (eventType : String) (fields : List (String × PyVal)) (io : EventIo) :
    Except Failure PyVal × Writer :=
  if eventType ∉ eventTypes then (.error (.provenance "unknown provenance event type"), w)
  else
    match rejectFields io.refusesNetloc fields with
    | .error e => (.error e, w)
    | .ok () => w.append eventType fields io

/-- A field that `json.dumps` refuses fails the event. -/
theorem event_other (w : Writer) (eventType : String) {fields : List (String × PyVal)} (io : EventIo)
    {name type : String} (h : lookup name (update [] fields) = some (.other type)) :
    ∃ f, (w.event eventType fields io).1 = .error f := by
  have hlookup : lookup name (w.recordItems eventType fields io) = some (.other type) := by
    rw [recordItems, lookup_update, h, Option.some_or]
  obtain ⟨f, hf⟩ := canonicalJson_other io.depth hlookup
  unfold event
  split
  · exact ⟨_, rfl⟩
  · split
    · exact ⟨_, rfl⟩
    · simp only [append, digest, hf, Except.map]
      exact ⟨_, rfl⟩

end Writer

/-- A signing key: signatures as the base64url text of `summary.json`. -/
structure SigningKey where
  publicRaw : List UInt8
  sign : List UInt8 → String

/-- The arguments of `ProvenanceWriter.close`. -/
structure Closing where
  queueInputDigests : PyVal
  selectionSettings : PyVal
  selectedItemCount : PyVal
  durableOutcomeCounts : PyVal
  closeReason : PyVal
  closedAt : String

namespace Writer

/-- The fields of the `run_closed` event. -/
def closedFields (c : Closing) : List (String × PyVal) :=
  [("closed_at", .str c.closedAt), ("close_reason", c.closeReason),
   ("durable_outcome_counts", c.durableOutcomeCounts)]

/-- The summary before it is signed. -/
def unsignedSummary (w : Writer) (c : Closing) (schemaSha256 : String) (key : SigningKey) :
    List (Key × PyVal) :=
  [(.str "schema_version", schemaVersion), (.str "run_id", .str w.runId),
   (.str "session_id", .str w.sessionId), (.str "queue_input_digests", c.queueInputDigests),
   (.str "selection_settings", c.selectionSettings), (.str "event_count", .int w.sequence),
   (.str "final_event_digest", w.previousDigest),
   (.str "selected_item_count", c.selectedItemCount),
   (.str "durable_outcome_counts", c.durableOutcomeCounts),
   (.str "session_finalized_count", .int w.finalizedCount),
   (.str "schema_sha256", .str schemaSha256),
   (.str "signing_key_fingerprint", .str (Lib.Sha256.hexdigest key.publicRaw))]

/-- `ProvenanceWriter.close(...)`: the summary written to `summary.json`, or the
    exception (`summaryFails`: the atomic write of the file raises). -/
def close (w : Writer) (c : Closing) (schemaSha256 : String) (key : SigningKey) (io : EventIo)
    (summaryFails : Bool) : Except Failure PyVal × Writer :=
  match w.event "run_closed" (closedFields c) io with
  | (.error e, w') => (.error e, w')
  | (.ok _, w') =>
    let summary := w'.unsignedSummary c schemaSha256 key
    match canonicalJson io.depth (.dict summary) with
    | .error e => (.error e, w')
    | .ok bytes =>
      if summaryFails then (.error .osError, w')
      else (.ok (.dict (summary ++ [(.str "signature", .str (key.sign bytes))])), w')

end Writer

end TodDl.Provenance
