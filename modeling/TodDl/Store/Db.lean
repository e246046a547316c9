/-
  The database — its tables and the statements of the controller (tod-dl.py).

  Every function here is one atomic group of statements of the source, which
  `db_lock` or the single startup thread keeps whole.  Texts of the clock are
  arguments.  A join lists its rows in the order of the `run_items` rows; where
  the source names no order, neither do the results.
-/
import Mathlib.Data.List.Sort
import TodDl.Lib.Sha256
import TodDl.Lib.Table
import TodDl.Store.Row

namespace TodDl.Store

open Lib (Table)

/-- A row of `run_items`. -/
structure RunItem where
  runId : String
  url : String
  queueRank : ℤ
  deriving DecidableEq

def RunItem.key (i : RunItem) : String × String := (i.runId, i.url)

/-- A row of `download_transitions`; the table is in id order. -/
structure TransitionRow where
  url : String
  runId : String
  fromStatus : Status
  toStatus : Status
  detail : Option String
  recordedAt : String
  deriving DecidableEq

/-- A row of `download_attempts`. -/
structure AttemptRow where
  runId : String
  url : String
  attemptNumber : ℕ
  attemptId : String
  startedAt : String
  endedAt : Option String := none
  outcome : Option String := none

def AttemptRow.key (a : AttemptRow) : String × String × String := (a.runId, a.url, a.attemptId)

/-- A row of `control_requests`. -/
structure ControlRow where
  requestId : String
  runId : String
  sessionId : String
  action : String
  outcome : String
  reason : String
  stateRevision : ℕ
  recordedAt : String

/-- The database `manifest.sqlite`. -/
structure Db where
  downloads : Table Row.url := .empty
  runItems : Table RunItem.key := .empty
  transitions : List TransitionRow := []
  attempts : Table AttemptRow.key := .empty
  controlRequests : Table ControlRow.requestId := .empty
  /-- `telemetry_revisions`: run ID and revision -/
  revisions : Table (Prod.fst : String × ℕ → String) := .empty

/-- A non-empty text. -/
def truthy : Option String → Bool
  | some s => s ≠ ""
  | none => false

/-- UTF-8 bytes of a text. -/
def utf8 (s : String) : List UInt8 := s.toList.flatMap String.utf8EncodeChar

/-- `item_id(url)` -/
def itemId (url : String) : String := Lib.Sha256.hexdigest (utf8 url)

namespace Db

/-! ## Statements -/

/-- `UPDATE downloads SET … WHERE …` -/
def updateWhere (db : Db) (p : Row → Bool) (u : Update) : Db :=
  { db with
    downloads := db.downloads.modify (fun r => if p r then r.set u else r)
      (fun r => by split <;> simp) }

/-- The URLs of a run's items. -/
def runUrls (db : Db) (runId : String) : List String :=
  (db.runItems.rows.filter fun i => i.runId = runId).map (·.url)

/-- `… FROM downloads JOIN run_items … WHERE run_items.run_id=?` -/
def selected (db : Db) (runId : String) : List Row := db.downloads.join (db.runUrls runId)

/-- The same join with the ranks, `ORDER BY run_items.queue_rank`. -/
def ranked (db : Db) (runId : String) : List (ℤ × Row) :=
  ((db.runItems.rows.filter fun i => i.runId = runId).filterMap fun i =>
    (db.downloads.find? i.url).map fun r => (i.queueRank, r)).insertionSort fun a b => a.1 ≤ b.1

/-- `INSERT INTO download_transitions …` -/
def recordTransition (db : Db) (t : TransitionRow) : Db :=
  { db with transitions := db.transitions ++ [t] }

/-- The durable revision of a run; 0 without a row. -/
def revision (db : Db) (runId : String) : ℕ := ((db.revisions.find? runId).map (·.2)).getD 0

/-- `advance_telemetry_revision`: the database after it; the new revision is the
    one the table then holds. -/
def advanceRevision (db : Db) (runId : String) : Db :=
  { db with
    revisions := (db.revisions.insertNew (runId, 0)).modify
      (fun p => if p.1 = runId then (p.1, p.2 + 1) else p) (fun p => by split <;> rfl) }

/-- The part of a row the projection reads. -/
structure Image where
  url : String
  status : Status
  attempts : ℕ
  bytes : Option ℕ
  nextRetryAt : ℚ
  lastError : Option String
  deriving DecidableEq

end Db

/-- The columns `url, status, attempts, bytes, next_retry_at, last_error`. -/
def Row.image (r : Row) : Db.Image :=
  ⟨r.url, r.status, r.attempts, r.bytes, r.nextRetryAt, r.lastError⟩

namespace Db

/-- The SET clause of `transition`. -/
def transitionUpdate (toStatus : Status) (fields : Update) (recordedAt : String) : Update :=
  .status toStatus :: .updatedAt recordedAt :: fields

/-- The statements of `transition` on the row `old`. -/
def transitioned (db : Db) (runId : String) (old : Row) (toStatus : Status)
    (detail : Option String) (fields : Update) (recordedAt : String) : Db :=
  ((db.updateWhere (·.url = old.url) (transitionUpdate toStatus fields recordedAt)).recordTransition
    ⟨old.url, runId, old.status, toStatus, detail, recordedAt⟩).advanceRevision runId

/-- The commit of `transition(db, url, to_status, detail, **fields)`: the
    database and the row before it; none when the row is missing
    (`RuntimeError`). -/
def transition (db : Db) (runId url : String) (toStatus : Status) (detail : Option String)
    (fields : Update) (recordedAt : String) : Option (Db × Row) :=
  (db.downloads.find? url).map fun old =>
    (db.transitioned runId old toStatus detail fields recordedAt, old)

/-- `claim_recheck(db, url)` -/
def claimRecheck (db : Db) (url : String) (claimedAt : ℚ) (updatedAt : String) : Db :=
  { db with
    downloads := db.downloads.modify
      (fun r => if r.url = url then
        r.set [.earlyRecheck (if r.earlyRecheck = 1 ∧ claimedAt < r.recheckAt.getD 0 then 2 else 0),
          .recheckAt (some (claimedAt + 86400)), .updatedAt updatedAt]
      else r) (fun r => by split <;> simp) }

/-- The UPDATE of `requeue_interrupted_transfers(db)`. -/
def requeueInterrupted (db : Db) (runId updatedAt : String) : Db :=
  db.updateWhere (fun r => r.status ∈ interruptedStatuses && r.url ∈ db.runUrls runId)
    [.status .queued, .nextRetryAt 0, .updatedAt updatedAt]

/-- `reset_retry_now(db)` -/
def resetRetryNow (db : Db) (runId : String) : Db :=
  db.updateWhere (fun r => r.status ∈ retryableStatuses && r.url ∈ db.runUrls runId)
    [.nextRetryAt 0]

/-- The migration of `open_db`: `UPDATE downloads SET status='queued' WHERE
    status='pending'`. -/
def migratePending (db : Db) : Db :=
  db.updateWhere (·.status = .pending) [.status .queued]

/-- `INSERT INTO run_items …` -/
def insertRunItem (db : Db) (i : RunItem) : Db := { db with runItems := db.runItems.insertNew i }

/-- `INSERT OR IGNORE INTO telemetry_revisions (run_id, revision) VALUES (?, 0)` -/
def openRevision (db : Db) (runId : String) : Db :=
  { db with revisions := db.revisions.insertNew (runId, 0) }

/-- The attempt ID of `record_attempt_start` and `attempt_event`. -/
def attemptId (runId url : String) (number : ℕ) : String :=
  itemId (runId ++ ":" ++ url ++ ":" ++ toString number)

/-- `record_attempt_start(db, url, number, started_at)` -/
def recordAttemptStart (db : Db) (runId url : String) (number : ℕ) (startedAt : String) : Db :=
  { db with
    attempts := db.attempts.insertNew
      { runId, url, attemptNumber := number, attemptId := attemptId runId url number, startedAt } }

/-- The UPDATE of `attempt_event(...)`. -/
def recordAttemptEnd (db : Db) (runId url : String) (number : ℕ) (outcome endedAt : String) : Db :=
  { db with
    attempts := db.attempts.modify
      (fun a => if a.key = (runId, url, attemptId runId url number) then
        { a with endedAt := some endedAt, outcome := some outcome } else a)
      (fun a => by split <;> rfl) }

/-- `record_source_generation(db, url, new_generation)` -/
def recordSourceGeneration (db : Db) (url : String) (newGeneration : Option String) (time : ℚ) : Db :=
  (db.updateWhere (fun r => r.url = url && r.status = .unavailable && r.earlyRecheck ≠ 1 &&
      truthy r.sourceGeneration && truthy newGeneration && r.sourceGeneration ≠ newGeneration &&
      time < r.recheckAt.getD 0) [.earlyRecheck 1]).updateWhere
    (·.url = url) [.sourceGeneration newGeneration]

/-- The statements of `import_queues` for one queue entry. -/
def importEntry (db : Db) (url relativePath stored staging : String)
    (inventorySize expectedSha256 generation : Option String) (time : ℚ) (updatedAt : String) : Db :=
  let inserted := { db with
    downloads := db.downloads.insertNew
      { url, relativePath, storagePath := some stored, stagingPath := some staging,
        inventorySize, expectedSha256, updatedAt } }
  let placed := inserted.updateWhere
    (fun r => r.url = url && (r.storagePath ≠ some stored || r.stagingPath = none))
    [.storagePath (some stored), .stagingPath (some staging), .updatedAt updatedAt]
  let sized := placed.updateWhere
    (fun r => r.url = url &&
      (r.inventorySize ≠ inventorySize || r.expectedSha256 ≠ expectedSha256))
    [.inventorySize inventorySize, .expectedSha256 expectedSha256, .updatedAt updatedAt]
  sized.recordSourceGeneration url generation time

/-! ## What the statements leave alone -/

section
variable (db : Db) (runId : String) (p : Row → Bool) (u : Update) (t : TransitionRow)

@[simp] theorem runItems_updateWhere : (db.updateWhere p u).runItems = db.runItems := rfl
@[simp] theorem transitions_updateWhere : (db.updateWhere p u).transitions = db.transitions := rfl
@[simp] theorem revisions_updateWhere : (db.updateWhere p u).revisions = db.revisions := rfl
@[simp] theorem controlRequests_updateWhere :
    (db.updateWhere p u).controlRequests = db.controlRequests := rfl

@[simp] theorem downloads_recordTransition : (db.recordTransition t).downloads = db.downloads := rfl
@[simp] theorem runItems_recordTransition : (db.recordTransition t).runItems = db.runItems := rfl
@[simp] theorem revisions_recordTransition : (db.recordTransition t).revisions = db.revisions := rfl
@[simp] theorem transitions_recordTransition :
    (db.recordTransition t).transitions = db.transitions ++ [t] := rfl

@[simp] theorem downloads_advanceRevision : (db.advanceRevision runId).downloads = db.downloads := rfl
@[simp] theorem runItems_advanceRevision : (db.advanceRevision runId).runItems = db.runItems := rfl
@[simp] theorem transitions_advanceRevision :
    (db.advanceRevision runId).transitions = db.transitions := rfl

@[simp] theorem find?_updateWhere (url : String) : (db.updateWhere p u).downloads.find? url =
    (db.downloads.find? url).map fun r => if p r then r.set u else r := by
  simp only [updateWhere, Table.find?_modify]

theorem runUrls_congr {db db' : Db} (h : db'.runItems = db.runItems) (runId : String) :
    db'.runUrls runId = db.runUrls runId := by simp only [runUrls, h]

theorem selected_congr {db db' : Db} (hd : db'.downloads = db.downloads)
    (hr : db'.runItems = db.runItems) (runId : String) :
    db'.selected runId = db.selected runId := by
  simp only [selected, hd, runUrls_congr hr]

@[simp] theorem selected_updateWhere : (db.updateWhere p u).selected runId =
    (db.selected runId).map fun r => if p r then r.set u else r := by
  rw [selected, runUrls_congr (db.runItems_updateWhere p u)]
  simp only [updateWhere, Table.join_modify, selected]

/-- The URLs of a run are distinct. -/
theorem nodup_runUrls : (db.runUrls runId).Nodup := by
  refine List.Nodup.map_on ?_ ((List.Nodup.of_map _ db.runItems.nodup).filter _)
  intro i hi j hj h
  simp only [List.mem_filter, decide_eq_true_eq] at hi hj
  exact List.inj_on_of_nodup_map db.runItems.nodup hi.1 hj.1
    (by rw [RunItem.key, RunItem.key, hi.2, hj.2, h])

theorem nodup_selected : ((db.selected runId).map Row.url).Nodup :=
  Table.nodup_join (db.nodup_runUrls runId)

@[simp] theorem revision_advanceRevision :
    (db.advanceRevision runId).revision runId = db.revision runId + 1 := by
  simp only [revision, advanceRevision, Table.find?_modify, Table.find?_insertNew]
  cases h : db.revisions.find? runId with
  | none => simp
  | some r => simp [Table.find?_key h]

/-! ## `transition` -/

section
variable {db} {runId} {old : Row} {toStatus : Status} {detail : Option String} {fields : Update}
  {recordedAt : String}

@[simp] theorem runItems_transitioned :
    (db.transitioned runId old toStatus detail fields recordedAt).runItems = db.runItems := rfl

@[simp] theorem transitions_transitioned :
    (db.transitioned runId old toStatus detail fields recordedAt).transitions =
      db.transitions ++ [⟨old.url, runId, old.status, toStatus, detail, recordedAt⟩] := rfl

@[simp] theorem find?_transitioned (url : String) :
    (db.transitioned runId old toStatus detail fields recordedAt).downloads.find? url =
      (db.downloads.find? url).map fun r => if r.url = old.url then
        r.set (transitionUpdate toStatus fields recordedAt) else r := by
  rw [transitioned, downloads_advanceRevision, downloads_recordTransition, find?_updateWhere]
  simp

theorem selected_transitioned (runId' : String) :
    (db.transitioned runId old toStatus detail fields recordedAt).selected runId' =
      (db.selected runId').map fun r => if r.url = old.url then
        r.set (transitionUpdate toStatus fields recordedAt) else r := by
  rw [transitioned, selected_congr (downloads_advanceRevision ..) (runItems_advanceRevision ..),
    selected_congr (downloads_recordTransition ..) (runItems_recordTransition ..),
    selected_updateWhere]
  simp

end

end

end Db

end TodDl.Store
