/-
  The inspection server — the records of an item and of its attempts (inspection.py).

  With the queue view these are the durable reads of the server; `answer` is one of
  them.  What a read shows of the database are the joined rows of the run, its attempts
  and its revision (`Shows`).
-/
import TodDl.Inspection.Queue
import TodDl.Inventory.Manifest

namespace TodDl.Inspection

open Store
open Controller (urlsplit ofCodes)
open Inventory (urlScheme hostPort isHttp)

/-! ## `get_item` -/

/-- `ITEM_ID.fullmatch(item_id)` -/
def isItemId (text : String) : Bool :=
  text.length = 64 && text.toList.all fun c => c.isDigit || ('a' ≤ c && c ≤ 'f')

/-- `parsed.port`; a port that is no number up to 65535 raises `ValueError`. -/
def urlPort (digits : List ℕ) : Except Unit (Option ℕ) :=
  if digits = [] then .ok none
  else if digits.all fun c => 48 ≤ c && c ≤ 57 then
    let value := digits.foldl (fun n c => 10 * n + (c - 48)) 0
    if value ≤ 65535 then .ok (some value) else .error ()
  else .error ()

/-- `_source_url(value)`: the URL without user information, query and fragment. -/
def sourceUrl (value : String) : Option String :=
  let codes := value.toList.map Char.toNat
  match urlsplit codes with
  | .error _ => none
  | .ok parsed =>
    let (name, digits) := hostPort parsed.netloc
    match urlPort digits with
    | .error _ => none
    | .ok port =>
      if !isHttp (urlScheme codes) || name.isEmpty then none
      else
        let lowered := name.map fun c => if 65 ≤ c ∧ c ≤ 90 then c + 32 else c
        let host := if 58 ∈ lowered ∧ lowered.head? ≠ some 91 then 91 :: lowered ++ [93] else lowered
        let path := if parsed.path ≠ [] ∧ parsed.path.head? ≠ some 47 then 47 :: parsed.path
          else parsed.path
        some (ofCodes (urlScheme codes ++ [58, 47, 47] ++ host) ++
          (match port with | some n => ":" ++ toString n | none => "") ++ ofCodes path)

/-- `MAX_SOURCE_URL_BYTES` -/
def maxSourceUrlBytes : ℕ := 1024

/-- `encoded[:n].decode("utf-8", "ignore")` -/
def truncateUtf8 : ℕ → List Char → List Char
  | _, [] => []
  | n, c :: cs =>
    let size := (String.utf8EncodeChar c).length
    if size ≤ n then c :: truncateUtf8 (n - size) cs else []

/-- The source that a request shows, and its label. -/
def revealSource (reveal : Bool) (url : String) : Option String × String :=
  if !reveal then (none, "Source hidden")
  else match sourceUrl url with
    | none => (none, "Source unavailable")
    | some source =>
      if maxSourceUrlBytes < (utf8 source).length then
        (some (String.ofList (truncateUtf8 maxSourceUrlBytes source.toList)), "Source truncated")
      else if source = "" then (some source, "Source unavailable")
      else (some source, "Source redacted")

/-- `STALE_SAMPLE_AGE_S` -/
def staleSampleAge : ℚ := 5

/-- What `get_item` returns.  The sections of the reply repeat these values; `sample` is
    their runtime part. -/
structure ItemRecord where
  itemId : String
  queueRank : ℤ
  logicalPath : String
  storagePath : Option String
  stagingPath : Option String
  candidatePath : Option String
  durableState : Status
  bucket : String
  attemptCount : ℕ
  attemptCeiling : ℤ
  receivedBytes : Option ℕ
  sha256 : Option String
  lastError : Option String
  retryAt : ℚ
  updatedAt : String
  inventorySize : Option String
  reviewCode : Option String
  source : Option String
  sourceLabel : String
  basename : String
  sample : Sample
  attemptId : Option String
  quality : Option String
  transferTotal : Option ℕ
  transferTotalSource : Option String
  committedCompletionBytes : Option ℕ
  validationMethod : Option String
  validationResult : Option String
  validationRecordedAt : Option String
  mismatchReason : Option String

/-- `_item_row(db, item_id)` -/
def itemRow (rows : List (ℤ × Row)) (id : String) : Option (ℤ × Row) :=
  rows.find? fun x => itemId x.2.url = id

namespace Server
variable (server : Server)

/-- The record of a row. -/
def itemRecord (id : String) (reveal : Bool) (x : ℤ × Row) : ItemRecord :=
  let r := x.2
  let sample := (server.runtime r.url).getD {}
  let complete := r.status = .complete
  let digested := truthy r.sha256
  { itemId := id, queueRank := x.1, logicalPath := r.relativePath, storagePath := r.storagePath
    stagingPath := r.stagingPath, candidatePath := r.promotionTarget, durableState := r.status
    bucket := server.bucket r.status r.attempts, attemptCount := r.attempts
    attemptCeiling := server.maxAttempts, receivedBytes := r.bytes, sha256 := r.sha256
    lastError := r.lastError, retryAt := r.nextRetryAt, updatedAt := r.updatedAt
    inventorySize := r.inventorySize, reviewCode := r.reviewCode
    source := (revealSource reveal r.url).1, sourceLabel := (revealSource reveal r.url).2
    basename := basename r.relativePath, sample
    attemptId := sample.attemptNumber.map fun n => id ++ ":" ++ toString n
    quality := sample.sampleAge.map fun age => if age ≤ staleSampleAge then "exact" else "unavailable"
    transferTotal := if sample.totalBytes.isSome then sample.totalBytes
      else if complete then r.bytes else none
    transferTotalSource := if sample.totalBytes.isSome then sample.totalSource
      else if complete then some "completed" else none
    committedCompletionBytes := if complete then r.bytes else none
    validationMethod := if digested then some "SHA-256" else none
    validationResult := if digested then some "recorded" else none
    validationRecordedAt := if digested then some r.updatedAt else none
    mismatchReason := if r.status = .reviewRequired then r.lastError else none }

/-- `_get_item(db, parameters)` -/
def getItem (db : Db) (id : String) (reveal : Bool) : Except String ItemRecord :=
  if !isItemId id then .error "item ID is invalid"
  else match itemRow (itemRows db server.runId) id with
    | none => .error "item was not found"
    | some x => .ok (server.itemRecord id reveal x)

end Server

/-! ## `list_attempts` -/

/-- The object in the text of a cursor. -/
structure AttemptCursor where
  runId : String
  sessionId : String
  revision : ℕ
  itemId : String
  attemptNumber : ℤ
  attemptId : String

/-- The parameters of `list_attempts`. -/
structure AttemptParameters where
  itemId : String
  pageSize : ℤ := 100
  cursor : Option AttemptCursor := none

/-- One attempt of a page; the columns that no statement fills are left out. -/
structure AttemptRecord where
  attemptNumber : ℕ
  attemptId : String
  startedAt : String
  endedAt : Option String
  outcome : Option String

structure AttemptPage where
  attempts : List AttemptRecord
  nextCursor : Option AttemptCursor

def AttemptRecord.ofRow (a : AttemptRow) : AttemptRecord :=
  ⟨a.attemptNumber, a.attemptId, a.startedAt, a.endedAt, a.outcome⟩

/-- `ORDER BY attempt_number DESC, attempt_id ASC` -/
def attemptOrder (a b : AttemptRow) : Prop :=
  b.attemptNumber < a.attemptNumber ∨ a.attemptNumber = b.attemptNumber ∧ a.attemptId ≤ b.attemptId

instance : DecidableRel attemptOrder := fun _ _ => inferInstanceAs (Decidable (_ ∨ _ ∧ _))

/-- The attempts of an item in a run. -/
def attemptRows (db : Db) (runId url : String) : List AttemptRow :=
  db.attempts.rows.filter fun a => a.runId = runId && a.url = url

/-- `attempt_number<? OR (attempt_number=? AND attempt_id>?)` -/
def AttemptCursor.before (c : AttemptCursor) (a : AttemptRow) : Bool :=
  (a.attemptNumber : ℤ) < c.attemptNumber ||
    ((a.attemptNumber : ℤ) = c.attemptNumber && c.attemptId < a.attemptId)

namespace Server
variable (server : Server)

/-- The page of these attempts. -/
def attemptPage (revision : ℕ) (p : AttemptParameters) (rows : List AttemptRow) : AttemptPage :=
  let size := p.pageSize.toNat
  let left := (rows.insertionSort attemptOrder).filter fun a => p.cursor.all (·.before a)
  let shown := left.take size
  { attempts := shown.map .ofRow
    nextCursor := if size < left.length then
        shown.getLast?.map fun a => ⟨server.runId, server.sessionId, revision, p.itemId,
          a.attemptNumber, a.attemptId⟩
      else none }

/-- `_list_attempts(db, parameters, revision)` -/
def listAttempts (db : Db) (p : AttemptParameters) : Except String AttemptPage :=
  let revision := db.revision server.runId
  if !isItemId p.itemId then .error "item ID is invalid"
  else if ¬(1 ≤ p.pageSize ∧ p.pageSize ≤ maxPageSize) then .error "page_size is invalid"
  else match itemRow (itemRows db server.runId) p.itemId with
    | none => .error "item was not found"
    | some x =>
      if p.cursor.any fun c => c.runId ≠ server.runId || c.sessionId ≠ server.sessionId ||
          c.revision ≠ revision || c.itemId ≠ p.itemId then .error "cursor expired"
      else .ok (server.attemptPage revision p (attemptRows db server.runId x.2.url))

end Server

/-! ## The durable reads -/

/-- A request for a durable read. -/
inductive Query where
  | getItem (itemId : String) (revealSource : Bool)
  | listQueue (p : QueueParameters)
  | listAttempts (p : AttemptParameters)

/-- What a read returns, or why it is refused. -/
inductive Answer where
  | item (r : Except String ItemRecord)
  | queue (r : Except String QueuePage)
  | attempts (r : Except String AttemptPage)

/-- The read of a snapshot of the database. -/
def Server.answer (server : Server) (db : Db) : Query → Answer
  | .getItem id reveal => .item (server.getItem db id reveal)
  | .listQueue p => .queue (server.listQueue db p)
  | .listAttempts p => .attempts (server.listAttempts db p)

end TodDl.Inspection
