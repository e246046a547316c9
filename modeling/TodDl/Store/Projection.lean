/-
  The live projection — `TelemetryStateProjection` (tod-dl.py).

  A `Projection` summarises the rows of one run: a count for each display
  bucket, the bytes of the complete items, and the pending retries by item ID.
  `hydrate` reads the table in batches; `apply` follows one committed change.

  `Reflects`: the projection says of a list of images what the list is; hydrating
  establishes it and `apply` keeps it.
-/
import Mathlib.Data.Finmap
import Mathlib.Data.Prod.Lex
import Mathlib.Data.Rat.Cast.Order
import Mathlib.Data.String.Basic
import Mathlib.Order.WithBot
import TodDl.Lib.Summary
import TodDl.Store.Control

namespace TodDl.Store

open Db (Image)

/-- Whitespace of `str.split()`. -/
def isPySpace (c : Char) : Bool :=
  c.toNat ∈ [0x9, 0xa, 0xb, 0xc, 0xd, 0x1c, 0x1d, 0x1e, 0x1f, 0x20, 0x85, 0xa0, 0x1680, 0x2028,
    0x2029, 0x202f, 0x205f, 0x3000] || (0x2000 ≤ c.toNat && c.toNat ≤ 0x200a)

/-- `str.split()`: the words of a text; `word` is the one being read, reversed. -/
def splitWords : List Char → List Char → List (List Char)
  | [], word => if word.isEmpty then [] else [word.reverse]
  | c :: cs, word =>
    if isPySpace c then
      if word.isEmpty then splitWords cs [] else word.reverse :: splitWords cs []
    else splitWords cs (c :: word)

/-- `sanitize_message(message)` -/
def sanitizeMessage (message : String) : String :=
  let replaced := message.toList.map fun c => if c.toNat = 0x1b then '?' else c
  String.ofList (((splitWords replaced []).intersperse [' ']).flatten.take 512)

/-- `TelemetryStateProjection` -/
structure Projection where
  selectedCount : ℕ
  skippedExisting : ℕ
  revision : ℕ
  maxAttempts : ℤ
  counts : Bucket → ℤ := fun _ => 0
  completeBytes : ℤ := 0
  lastCompletionAt : Option String := none
  retries : Finmap fun _ : String => ℚ × String := ∅

/-- The display bucket of an image. -/
def Db.Image.bucket (maxAttempts : ℤ) (i : Image) : Bucket :=
  displayBucket i.status i.attempts maxAttempts

/-- The entry of the retry index for an image. -/
def Db.Image.retry (i : Image) : ℚ × String := (i.nextRetryAt, sanitizeMessage (i.lastError.getD ""))

/-- The bytes an image adds to `complete_bytes`. -/
def Db.Image.countedBytes (maxAttempts : ℤ) (i : Image) : ℤ :=
  if i.bucket maxAttempts = .complete then (i.bytes.getD 0 : ℕ) else 0

/-- The later of two completion texts. -/
def laterText (known : Option String) (updatedAt : String) : Option String :=
  match known with
  | some t => if t < updatedAt then some updatedAt else some t
  | none => some updatedAt

namespace Projection

/-- Count one more image in a bucket, or one less. -/
def count (p : Projection) (b : Bucket) (d : ℤ) : Projection :=
  { p with counts := Function.update p.counts b (p.counts b + d) }

/-- `_add_row(row)` -/
def addRow (p : Projection) (r : Row) : Projection :=
  let b := r.image.bucket p.maxAttempts
  let q := p.count b 1
  { q with
    completeBytes := q.completeBytes + r.image.countedBytes p.maxAttempts
    lastCompletionAt :=
      if b = .complete ∧ r.updatedAt ≠ "" then laterText q.lastCompletionAt r.updatedAt
      else q.lastCompletionAt
    retries := if b = .retry then q.retries.insert (itemId r.url) r.image.retry else q.retries }

/-- `apply(old, new, revision, completion_at)` -/
def apply (p : Projection) (old new : Image) (revision : ℕ) (completionAt : Option String) :
    Projection :=
  let oldBucket := old.bucket p.maxAttempts
  let newBucket := new.bucket p.maxAttempts
  let q := (p.count oldBucket (-1)).count newBucket 1
  { q with
    completeBytes := q.completeBytes - old.countedBytes p.maxAttempts + new.countedBytes p.maxAttempts
    lastCompletionAt :=
      if oldBucket ≠ .complete ∧ newBucket = .complete ∧ truthy completionAt then completionAt
      else q.lastCompletionAt
    retries :=
      if newBucket = .retry then (q.retries.erase (itemId new.url)).insert (itemId new.url) new.retry
      else q.retries.erase (itemId new.url)
    revision }

/-- `set_revision(revision)` -/
def setRevision (p : Projection) (revision : ℕ) : Projection := { p with revision }

/-- The pending retries as tuples `(deadline, key, error)`. -/
def retryTuples (p : Projection) : Multiset (ℚ ×ₗ String ×ₗ String) :=
  p.retries.entries.map fun e => toLex (e.2.1, toLex (e.1, e.2.2))

/-- `min(..., default=None)` over the pending retries. -/
def firstRetry (p : Projection) : WithTop (ℚ ×ₗ String ×ₗ String) :=
  (p.retryTuples.map WithTop.some).fold min ⊤

/-- What `copy()` returns. -/
structure Copy where
  selectedCount : ℕ
  skippedExisting : ℕ
  counts : Bucket → ℤ
  completeBytes : ℤ
  lastCompletionAt : Option String
  revision : ℕ
  retryAt : Option ℚ
  retryError : Option String
  retryCount : ℕ

/-- `copy()` -/
def copy (p : Projection) : Copy where
  selectedCount := p.selectedCount
  skippedExisting := p.skippedExisting
  counts := p.counts
  completeBytes := p.completeBytes
  lastCompletionAt := p.lastCompletionAt
  revision := p.revision
  retryAt := match p.firstRetry with
    | some t => some (ofLex t).1
    | none => none
  retryError := match p.firstRetry with
    | some t => some (ofLex (ofLex t).2).2
    | none => none
  retryCount := p.retries.keys.card

/-! ## `hydrate` -/

/-- One batch: `queue_rank > rank ORDER BY queue_rank LIMIT 1000`. -/
def batch (rows : List (ℤ × Row)) (rank : ℤ) : List (ℤ × Row) :=
  (rows.filter fun x => rank < x.1).take 1000

/-- The loop over the batches; every batch has a larger rank than the one before
    it, so as many rounds as there are rows are enough. -/
def addBatches (rows : List (ℤ × Row)) : ℕ → ℤ → Projection → Projection
  | 0, _, p => p
  | n + 1, rank, p =>
    match (batch rows rank).getLast? with
    | none => p
    | some last => addBatches rows n last.1 ((batch rows rank).foldl (fun p x => p.addRow x.2) p)

/-- `MAX(recorded_at)` of the completions of a run. -/
def lastCompletion (db : Db) (runId : String) : Option String :=
  ((db.transitions.filter fun t => t.runId = runId && t.toStatus = .complete &&
    t.fromStatus ≠ .complete).map (·.recordedAt)).foldl (fun m t => laterText m t) none

/-- `COUNT(DISTINCT url)` of the finals this run skipped. -/
def skippedCount (db : Db) (runId : String) : ℕ :=
  ((db.transitions.filter fun t => t.runId = runId && t.toStatus = .existingUnverified &&
    t.url ∉ db.runUrls runId).map (·.url)).dedup.length

/-- `TelemetryStateProjection.hydrate(db, run_id, max_attempts)` -/
def hydrate (db : Db) (runId : String) (maxAttempts : ℤ) : Projection :=
  let rows := db.ranked runId
  let start : Projection :=
    ⟨(db.runUrls runId).length, skippedCount db runId, db.revision runId, maxAttempts,
      fun _ => 0, 0, none, ∅⟩
  { addBatches rows (rows.length + 1) (-1) start with lastCompletionAt := lastCompletion db runId }

end Projection

end TodDl.Store
