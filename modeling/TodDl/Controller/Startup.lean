/-
  The controller — what a session does before its scheduler loop (tod-dl.py).

  Each function of the source is a program; `startup` is the part of `run` up to
  the loop.  The sessions of one state directory exclude each other by the lock of
  the destination.
-/
import TodDl.Controller.World

namespace TodDl.Controller

open Lib (Path FileTree Errno Prog)
open Provenance (PyVal)
open Store (Db Row RunItem Status Update truthy interruptedStatuses scopeRunTrackedStatuses)

variable (cfg : Config)

/-! ## The queue and the selection -/

/-- `resolved_storage_target(rel, url)` -/
def resolvedStorageTarget (rel : List String) (url : String) : Ctl (List String × Path) :=
  osLook fun fs => .ok (cfg.resolvedStorageTarget fs rel url)

/-- The body of the loop of `import_queues`. -/
def importQueueEntry (entry : QueueEntry) : Ctl Unit := do
  let (stored, _) ← resolvedStorageTarget cfg entry.rel entry.url
  dbChange fun db e => db.importEntry entry.url (Lib.Posix.asPosix entry.rel)
    (Lib.Posix.asPosix stored) (pathText (cfg.stagingPath entry.url)) entry.inventorySize
    entry.expectedSha256 entry.generation e.time e.text

/-- `import_queues(db)`; the count is not returned. -/
def importQueues : Ctl Unit := do
  Prog.forEach cfg.queue.rows (importQueueEntry cfg)
  dbCommit fun db _ => .ok db

/-- `reconcile_existing_file(db, url, logical, stored, target, expected_sha256)` -/
def reconcileExistingFile (url : String) (logical stored : PyVal) (target : Path)
    (expectedSha256 : Option String) : Ctl Unit :=
  if !truthy expectedSha256 then do
    let size ← fileSize target
    transition cfg url .existingUnverified (some "final already exists") fun _ => [.bytes (some size)]
  else do
    let seen ← Prog.attempt Exc.isOs do
      let digest ← sha256sum target
      return (digest, ← fileSize target)
    match seen with
    | .error exc =>
      transition cfg url .reviewRequired (some "existing file is inaccessible") fun _ =>
        [.lastError (some ("existing-file reconciliation failed: " ++ exc.text)),
         .reviewCode (reviewCodeForError exc)]
    | .ok (digest, byteCount) =>
      if some digest.toLower ≠ expectedSha256.map String.toLower then
        transition cfg url .reviewRequired (some "checksum mismatch") fun _ =>
          [.sha256 (some digest), .bytes (some byteCount), .lastError (some "checksum mismatch"),
           .reviewCode (some "checksum_mismatch")]
      else do
        finalizedEvent url logical stored byteCount digest expectedSha256 false
        transition cfg url .complete (some "final already exists and verified") fun _ =>
          [.bytes (some byteCount), .sha256 (some digest)]

/-- The `PurePosixPath` objects that `scope_run` passes on. -/
def purePath : PyVal := .other "PurePosixPath"

/-- The body of the loop of `scope_run`: the count of selected entries after it. -/
def scopeEntry (entry : QueueEntry) (selected : ℕ) : Ctl ℕ := do
  let (_, target) ← resolvedStorageTarget cfg entry.rel entry.url
  if ← pathExists target then
    let status ← dbLook fun db _ => (db.downloads.find? entry.url).map (·.status)
    if !status.any (· ∈ scopeRunTrackedStatuses) then
      reconcileExistingFile cfg entry.url purePath purePath target entry.expectedSha256
    return selected
  else do
    dbChange fun db _ => db.insertRunItem ⟨cfg.runId, entry.url, selected⟩
    return selected + 1

/-- `max_files` entries are selected. -/
def Config.limitReached (selected : ℕ) : Bool := cfg.maxFiles ≠ 0 && cfg.maxFiles ≤ selected

/-- The loop of `scope_run`. -/
def scopeEntries : List QueueEntry → ℕ → Ctl ℕ
  | [], selected => return selected
  | entry :: rest, selected =>
    if cfg.limitReached selected then return selected
    else do
      let selected ← scopeEntry cfg entry selected
      scopeEntries rest selected

/-- `scope_run` of a run that has rows, or none. -/
def scopeSelection (previous : ℕ) : Ctl ℕ :=
  if previous ≠ 0 then do
    dbCommit fun db _ => .ok db
    return previous
  else do
    let selected ← scopeEntries cfg cfg.queue.rows 0
    dbCommit fun db _ => .ok (db.advanceRevision cfg.runId)
    return selected

/-- `scope_run(db)`; the count of existing finals is not returned. -/
def scopeRun : Ctl ℕ := do
  dbChange fun db _ => db.openRevision cfg.runId
  let previous ← dbLook fun db _ => (db.runUrls cfg.runId).length
  scopeSelection cfg previous

/-! ## Promotions and staging files that a crash left -/

/-- `stored_text or Path(target).relative_to(self.destination).as_posix()` -/
def storedText (row : Row) (target : Path) : String :=
  if truthy row.storagePath then row.storagePath.getD ""
  else Lib.Posix.asPosix ((relativeTo target cfg.destination).getD [])

/-- The event and the transition that complete a promotion. -/
def completePromotion (row : Row) (target : Path) (digest : String) : Ctl Unit := do
  let size ← fileSize target
  finalizedEvent row.url (.str row.relativePath) (.str (storedText cfg row target)) size digest
    row.expectedSha256 false
  let size ← fileSize target
  transition cfg row.url .complete (some "reconciled promotion intent") fun _ =>
    [.bytes (some size), .sha256 (some digest)]

/-- The cleanup after it. -/
def unlinkStaging (row : Row) (staging : Path) : Ctl Unit := do
  osUnlink staging
  transition cfg row.url .complete (some "reconciled staging cleanup") fun e =>
    [.cleanupCompletedAt (some e.text)]

/-- The path of a column, if it is a text that is not empty. -/
def columnPath (text : Option String) : Option Path :=
  if truthy text then text.map pathOf else none

/-- `target_matches` -/
def targetMatches (row : Row) : Ctl Bool :=
  match columnPath row.promotionTarget with
  | none => return false
  | some target => do
    if !(← osCheck fun fs => cfg.isSafeFinalPath fs target) || !truthy row.sha256 then return false
    else return decide (some (← sha256sum target) = row.sha256)

/-- Whether the target can be linked from the staging file. -/
def recreatable (row : Row) : Ctl Bool :=
  match columnPath row.promotionTarget, columnPath row.stagingPath with
  | some target, some staging => do
    if !truthy row.sha256 then return false
    else if !(← osCheck fun fs => cfg.isSafeStagingPath fs staging) then return false
    else if !(← osCheck fun fs => cfg.isPromotableFinalPath fs target) then return false
    else osCheck fun fs => fs.isRegular staging
  | _, _ => return false

/-- The body of the loop of `reconcile_promotions`. -/
def reconcilePromotion (row : Row) : Ctl Unit := do
  let target := (columnPath row.promotionTarget).getD []
  let staging := (columnPath row.stagingPath).getD []
  let digest := row.sha256.getD ""
  match ← Prog.attempt Exc.isOs (targetMatches cfg row) with
  | .error exc =>
    transition cfg row.url .reviewRequired (some "promotion target is inaccessible") fun _ =>
      [.lastError (some ("promotion reconciliation failed: " ++ exc.text)),
       .reviewCode (reviewCodeForError exc)]
  | .ok true =>
    completePromotion cfg row target digest
    if (columnPath row.stagingPath).isSome then
      if ← pathExists staging then
        if ← osLook fun fs => .ok (fs.isFile staging) then unlinkStaging cfg row staging
  | .ok false =>
    if ← recreatable cfg row then
      match ← Prog.attempt Exc.isOs (osLink staging target) with
      | .error exc =>
        transition cfg row.url .reviewRequired (some "promotion target could not be recreated")
          fun _ => [.lastError (some ("promotion reconciliation failed: " ++ exc.text)),
            .reviewCode (reviewCodeForError exc)]
      | .ok () =>
        flush target.dropLast
        completePromotion cfg row target digest
        unlinkStaging cfg row staging
    else
      transition cfg row.url .reviewRequired (some "incomplete or inconsistent promotion") fun _ =>
        [.lastError (some "promotion reconciliation requires review")]

/-- `reconcile_promotions(db)` -/
def reconcilePromotions : Ctl Unit := do
  let rows ← dbLook fun db _ => db.downloads.rows.filter fun r => r.status = .promoting
  Prog.forEach rows (reconcilePromotion cfg)

/-- The body of the `try` in `cleanup_completed_staging`. -/
def cleanupStaging (row : Row) (staging : Path) : Ctl Unit := do
  if !(← osCheck fun fs => cfg.isSafeStagingPath fs staging) then
    transition cfg row.url .reviewRequired (some "completed staging path is unsafe") fun _ =>
      [.lastError (some "completed staging cleanup requires review")]
  else
    let removed := transition cfg row.url .complete (some "reconciled staging cleanup") fun e =>
      [.cleanupCompletedAt (some e.text)]
    match ← Prog.attempt Exc.isNotFound (osLook fun fs => fs.lstat staging) with
    | .error _ => removed
    | .ok (.file _) => do osUnlink staging; removed
    | .ok _ =>
      transition cfg row.url .reviewRequired (some "completed staging is not a regular file") fun _ =>
        [.lastError (some "completed staging cleanup requires review")]

/-- The body of the loop of `cleanup_completed_staging`. -/
def cleanupCompleted (row : Row) : Ctl Unit :=
  let staging := (columnPath row.stagingPath).getD (cfg.stagingPath row.url)
  (cleanupStaging cfg row staging).handle fun exc =>
    if exc.isOs then transition cfg row.url .complete
      (some ("completed staging cleanup failed; will repeat: " ++ exc.text)) fun _ => []
    else throw exc

/-- `cleanup_completed_staging(db)` -/
def cleanupCompletedStaging : Ctl Unit := do
  let rows ← dbLook fun db _ => (db.selected cfg.runId).filter fun r =>
    r.status = .complete && r.cleanupCompletedAt.isNone
  Prog.forEach rows (cleanupCompleted cfg)

/-! ## Safe-path remediation -/

/-- `SAFE_PATH_MAPPING_VERSION` -/
def safePathMappingVersion : String := "v1"

/-- `legacy_name_too_long_error(error)` -/
def legacyNameTooLongError (error : Option String) : Bool :=
  error.any fun text => (text.splitOn "Errno 36").length > 1 &&
    (text.splitOn "File name too long").length > 1

/-- `safe_remediation_target(relative_text)` -/
def safeRemediationTarget (relativeText : String) : Ctl (List String × Path) :=
  let logical := Lib.Posix.components relativeText
  if Lib.Posix.isAbsolute relativeText || logical.isEmpty || logical.contains ".." then
    throw (.runtime "unsafe logical path for safe-path remediation")
  else return (cfg.storageRelative logical, cfg.destination ++ cfg.storageRelative logical)

/-- `ensure_safe_parent(target)` -/
def ensureSafeParent (target : Path) : Ctl Unit :=
  match relativeTo target cfg.destination with
  | none => throw (.failure .valueError)
  | some parts => do
    if ← osLook fun fs => .ok (fs.isLink cfg.destination) then
      throw (.runtime "destination must not be a symlink")
    else Prog.forEach (ancestors cfg.destination parts) fun current => do
      match ← Prog.attempt Exc.isNotFound (osLook fun fs => fs.lstat current) with
      | .error _ => osChange fun fs => fs.mkdir current
      | .ok _ =>
        if ← osCheck fun fs => fs.isLink current then
          throw (.runtime ("unsafe symlink in destination path: " ++ current.getLastD ""))
        else if !(← osCheck fun fs => fs.isDir current) then
          throw (.runtime ("destination parent is not a directory: " ++ current.getLastD ""))

/-- The checks of `remediate_safe_paths` before its intent. -/
def remediationChecks (row : Row) : Ctl (List String × Path) := do
  let staging := cfg.stagingPath row.url
  if columnPath row.stagingPath ≠ some staging then
    throw (.runtime "staging path is outside the approved incoming tree")
  else if !(← osLook fun fs => (fs.lstat staging).map fun n => n matches .file _) then
    throw (.runtime "staging is not a regular file")
  else if !truthy row.sha256 then throw (.runtime "recorded staging digest is absent")
  else if some (← sha256sum staging) ≠ row.sha256 then
    throw (.runtime "staging digest does not match recorded digest")
  else do
    let (stored, target) ← safeRemediationTarget cfg row.relativePath
    ensureSafeParent cfg target
    flush staging
    return (stored, target)

/-- What follows the link of a remediation. -/
def completeRemediation (row : Row) (staging : Path) (stored : List String) (target : Path) :
    Ctl Unit := do
  let size ← fileSize target
  finalizedEvent row.url (.str row.relativePath) (.str (Lib.Posix.asPosix stored)) size
    (row.sha256.getD "") none false
  let size ← fileSize target
  transition cfg row.url .complete (some "automatic safe-path remediation complete") fun e =>
    [.bytes (some size), .sha256 row.sha256, .remediationOutcome (some "complete"),
     .remediationCompletedAt (some e.text)]
  osUnlink staging
  transition cfg row.url .complete (some "staging cleanup complete") fun e =>
    [.cleanupCompletedAt (some e.text)]

/-- The body of the loop of `remediate_safe_paths`. -/
def remediateSafePath (row : Row) : Ctl Unit := do
  let staging := cfg.stagingPath row.url
  match ← Prog.attempt Exc.isOsOrRuntime (remediationChecks cfg row) with
  | .error exc =>
    transition cfg row.url .reviewRequired (some exc.text) fun _ =>
      [.lastError (some exc.text), .remediationReason (some "automatic safe-path remediation"),
       .remediationMappingVersion (some safePathMappingVersion),
       .remediationOutcome (some "manual_error")]
  | .ok (stored, target) =>
    transition cfg row.url .promoting (some "automatic safe-path remediation intent") fun e =>
      [.storagePath (some (Lib.Posix.asPosix stored)), .promotionTarget (some (pathText target)),
       .promotionIntentAt (some e.text), .remediationReason (some "automatic safe-path remediation"),
       .remediationMappingVersion (some safePathMappingVersion), .reviewCode (some "ENAMETOOLONG"),
       .remediationStartedAt (some e.text)]
    match ← Prog.attempt Exc.isOs (do osLink staging target; flush target.dropLast) with
    | .error (.os .eexist _) =>
      transition cfg row.url .reviewRequired (some "mapped destination already exists") fun _ =>
        [.lastError (some "mapped destination already exists"),
         .remediationOutcome (some "manual_collision")]
    | .error exc =>
      transition cfg row.url .reviewRequired (some exc.text) fun _ =>
        [.lastError (some exc.text), .remediationOutcome (some "manual_error")]
    | .ok () => completeRemediation cfg row staging stored target

/-- `remediate_safe_paths(db)`; the count is not returned. -/
def remediateSafePaths : Ctl Unit := do
  let rows ← dbLook fun db _ => (db.selected cfg.runId).filter fun r =>
    r.status = .reviewRequired && r.remediationOutcome.isNone &&
      (r.reviewCode = some "ENAMETOOLONG" || legacyNameTooLongError r.lastError)
  Prog.forEach rows (remediateSafePath cfg)

/-! ## Interrupted transfers -/

/-- `process_start_ticks(pid)` -/
def World.processStartTicks (w : World) (e : Env) (pid : ℕ) : Option ℕ :=
  if e.osFault.isSome then none
  else match w.engines.find? fun g => g.pid = pid with
    | some g => some g.ticks
    | none => e.otherTicks

/-- `surviving_writer_pid(url)`: the last entry of the URL decides. -/
def World.survivingWriterPid (w : World) (e : Env) (runId url : String) : Option ℕ :=
  match w.manifests runId with
  | none => none
  | some m =>
    match m.workers.reverse.find? fun entry => entry.url = url with
    | none => none
    | some entry =>
      if entry.torsocksPid ≠ 0 ∧ entry.startedTicks.isSome ∧
        w.processStartTicks e entry.torsocksPid = entry.startedTicks then some entry.torsocksPid
      else none

/-- `terminate_surviving_writer(url)`: SIGTERM, and SIGKILL when ten seconds did not
    help; the process is gone when it returns. -/
def terminateSurvivingWriter (url : String) : Ctl Unit := do
  match ← Prog.look fun w e => w.survivingWriterPid e cfg.runId url with
  | none => return ()
  | some pid =>
    Prog.call fun w e => match e.osFault with
      | some errno => (.error (.os errno e.errorText), w)
      | none => (.ok (), { w with engines := w.engines.filter fun g => g.pid ≠ pid })

/-- `requeue_interrupted_transfers(db)` -/
def requeueInterruptedTransfers : Ctl Unit := do
  let urls ← dbLook fun db _ =>
    ((db.selected cfg.runId).filter fun r => r.status ∈ interruptedStatuses).map (·.url)
  Prog.forEach urls (terminateSurvivingWriter cfg)
  dbChange fun db e => db.requeueInterrupted cfg.runId e.text

/-! ## The start of `run` -/

/-- `write_manifest()` -/
def writeManifest : Ctl Unit :=
  Prog.call fun w e => match e.osFault with
    | some errno => (.error (.os errno e.errorText), w)
    | none => (.ok (), { w with manifests := Function.update w.manifests cfg.runId (some w.manifest) })

/-- The manifest of a new run, or of the run that is resumed. -/
def openManifest : Ctl Unit := do
  match ← Prog.look fun w _ => w.manifests cfg.runId with
  | none => Prog.change fun w _ => { w with manifest := ⟨cfg.queueInputs, cfg.maxFiles, []⟩ }
  | some m =>
    if !Provenance.pyEq m.queueInputs cfg.queueInputs then
      throw (.runtime "run ID is bound to different queue inputs")
    else if m.maxFiles ≠ cfg.maxFiles then
      throw (.runtime "run ID is bound to different selection settings")
    else Prog.change fun w _ => { w with manifest := m }
  writeManifest cfg

/-- `open_db()` -/
def openDb : Ctl Unit := dbCommit fun db _ => .ok db.migratePending

/-- `ProvenanceWriter(...)` -/
def openRecords : Ctl Unit :=
  Prog.call fun w e => match e.osFault with
    | some errno => (.error (.os errno e.errorText), w)
    | none => (.ok (), { w with records := some (.start cfg.runId e.uuid) })

/-- `run` up to its scheduler loop. -/
def startup : Ctl Unit := do
  makeDirs cfg.incoming
  makeDirs cfg.candidates
  openManifest cfg
  openDb
  importQueues cfg
  openRecords cfg
  reconcilePromotions cfg
  let selected ← scopeRun cfg
  Prog.change fun w _ => { w with selectedItemCount := selected }
  provenanceEvent "run_started" fun _ =>
    [("queue_input_digests", cfg.queueInputs),
     ("selection_settings", .dict [(.str "max_files", .int cfg.maxFiles)]),
     ("selected_item_count", .int selected)]
  cleanupCompletedStaging cfg
  remediateSafePaths cfg
  requeueInterruptedTransfers cfg
  if cfg.retryNow then dbChange fun db _ => db.resetRetryNow cfg.runId
  dbCommit fun db _ => .ok db
  Prog.change fun w e => { w with
    deadline := if cfg.timeLimit = 0 then none else some (e.monotonic + cfg.timeLimit) }

end TodDl.Controller
