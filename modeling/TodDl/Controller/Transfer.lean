/-
  The controller — the worker of an admitted item (tod-dl.py, `transfer` and
  `run_aria2`) and the daily recheck of an unavailable one.

  A worker gets the row its scheduler step read; it does not read the row again.
-/
import TodDl.Controller.Startup

namespace TodDl.Controller

open Lib (Path FileTree Errno Prog)
open Provenance (PyVal)
open Store (Db Row Status Update Assign truthy)

variable (cfg : Config)

/-! ## Engine errors

The errors are read as ASCII, which aria2's own messages are.  Python's `upper` has ASCII
capitals for `ß`, `ı`, `ſ` and the Latin ligatures as well, and `\w` takes the letters and
digits of every script. -/

/-- `text in error.upper()` for an ASCII text. -/
def mentions (error text : String) : Bool := (error.toUpper.splitOn text).length > 1

/-- A character of `\w`, if it is ASCII. -/
def isWordChar (c : Char) : Bool := c.isAlphanum || c = '_'

/-- `re.search("STATUS=(a|b)\b", error.upper())` -/
def mentionsStatus (error : String) (codes : List String) : Bool :=
  ((error.toUpper.splitOn "STATUS=").drop 1).any fun rest =>
    codes.any fun code => code.toList.isPrefixOf rest.toList &&
      !((rest.toList.drop code.length).head?.any isWordChar)

def isIncompleteBodyFailure (error : String) : Bool := mentions error "GOT EOF FROM THE SERVER"

def isUnavailableFailure (error : String) : Bool :=
  mentions error "RESOURCE NOT FOUND" || mentionsStatus error ["404", "410"]

def isAccessDeniedFailure (error : String) : Bool :=
  mentions error "AUTHORIZATION FAILED" || mentionsStatus error ["401", "403"]

def isDiskFullFailure (error : String) : Bool := mentions error "NO SPACE LEFT ON DEVICE"

/-- `RETRY_DELAYS` -/
def retryDelays : List ℚ := [60, 120, 240, 300, 300, 300]

/-- `UNAVAILABLE_RECHECK_INTERVAL_S` -/
def unavailableRecheckInterval : ℚ := 86400

/-! ## The representation of a resumed item -/

/-- `classify_representation(recorded_etag, recorded_last_modified, observed)` -/
def classifyRepresentation (etag lastModified : Option String) (observed : HeadAnswer) : String :=
  if truthy etag && truthy observed.etag then
    if etag = observed.etag then "confirmed_unchanged" else "changed"
  else if !truthy etag && truthy lastModified && truthy observed.lastModified &&
    lastModified ≠ observed.lastModified then "changed"
  else "unconfirmed"

/-- `head_request(url)` -/
def headRequest : Ctl (Option HeadAnswer) := Prog.look fun _ e => e.head

/-- `probe_representation(url)` -/
def probeRepresentation : Ctl (Option HeadAnswer) := do
  let answer ← headRequest
  return answer.filter fun a => a.status = 200 ∨ a.status = 206

/-- `control = Path(str(path) + ".aria2")` -/
def controlFile (p : Path) : Path := p.dropLast ++ [p.getLastD "" ++ ".aria2"]

/-- Links the file under the first of the names that is not taken. -/
def linkFree (t : FileTree) (staging : Path) : List Path → Except Errno (Path × FileTree)
  | [] => .error .eexist
  | candidate :: rest =>
    match t.link staging candidate with
    | .error .eexist => linkFree t staging rest
    | .error errno => .error errno
    | .ok fs => .ok (candidate, fs)

/-- `move_candidate(staging)`.  The loop ends at a UUID whose name is free; the step draws as many
    as it takes. -/
def moveCandidate (staging : Path) : Ctl Path := do
  makeDirs cfg.candidates
  let candidate ← Prog.call fun w e =>
    let candidates := (e.uuid :: e.nextUuids).map fun uuid =>
      cfg.candidates ++ [staging.getLastD "" ++ "." ++ uuid]
    match e.osFault, linkFree w.fs staging candidates with
    | some errno, _ => (.error (.os errno e.errorText), w)
    | none, .error errno => (.error (.os errno e.errorText), w)
    | none, .ok (candidate, fs) => (.ok candidate, { w with fs })
  osUnlink staging
  if ← pathExists (controlFile staging) then
    osChange fun fs => fs.rename (controlFile staging) (controlFile candidate)
  return candidate

/-- `clear_transfer_telemetry(url)`: frees the worker slot. -/
def clearTransferTelemetry (url : String) : Ctl Unit :=
  Prog.change fun w _ => { w with workerIds := w.workerIds.filter fun p => p.1 ≠ url }

/-- `enter_representation_review(db, url, rel, staging, decision, observed)` -/
def enterRepresentationReview (url : String) (staging : Path) (decision : String)
    (observed : Option HeadAnswer) : Ctl Unit := do
  let cause := if decision = "changed" then "changed_remote_representation"
    else "no_reliable_version_protection"
  let detail := if decision = "changed" then "changed remote representation detected on resume"
    else "no reliable version protection or expected checksum on resume"
  let candidate ← moveCandidate cfg staging
  candidateEvent cfg url staging candidate none cause
  transition cfg url .reviewRequired (some detail) fun _ =>
    [.bytes none, .lastError (some detail), .reviewCode (some cause),
     .etag (observed.bind (·.etag)), .lastModified (observed.bind (·.lastModified)),
     .recheckAt none]
  clearTransferTelemetry url

/-! ## `recheck_unavailable` -/

/-- `claim_recheck(db, url)` -/
def claimRecheck (url : String) : Ctl Unit :=
  dbCommit fun db e => .ok (db.claimRecheck url e.time e.text)

/-- What a recheck that found the item again decides: a detail, or the decision
    that sends it to review. -/
def recheckDecision (row : Row) (answer : HeadAnswer) (partialThere : Bool) : Except String String :=
  if row.stagingGeneration.isNone || !partialThere then
    .ok "recheck: available again; admitted as fresh work"
  else if truthy row.expectedSha256 then
    .ok "recheck: available again; expected checksum protects the resume"
  else
    let decision := classifyRepresentation row.etag row.lastModified answer
    if decision ≠ "confirmed_unchanged" then .error decision
    else .ok "recheck: available again; representation confirmed unchanged"

/-- `Path(staging_text or str(self.staging_path(url)))` -/
def Config.stagingOf (row : Row) : Path :=
  if truthy row.stagingPath then pathOf (row.stagingPath.getD "") else cfg.stagingPath row.url

/-- `recheck_unavailable(row, db)` -/
def recheckUnavailable (row : Row) : Ctl String := do
  match ← headRequest with
  | none => return "still_unavailable"
  | some answer =>
    if answer.status ≠ 200 ∧ answer.status ≠ 206 then return "still_unavailable"
    else do
      let staging := cfg.stagingOf row
      match recheckDecision row answer (← partialExists staging) with
      | .error decision =>
        enterRepresentationReview cfg row.url staging decision (some answer)
        return "recheck_review"
      | .ok detail =>
        transition cfg row.url .queued (some detail) fun _ => [.nextRetryAt 0, .recheckAt none]
        return "recheck_available"

/-! ## `run_aria2` -/

/-- `subprocess.Popen(command)` -/
def startEngine (url : String) (staging : Path) : Ctl ℕ :=
  Prog.call fun w e => match e.osFault with
    | some errno => (.error (.os errno e.errorText), w)
    | none => (.ok e.pid, { w with engines := ⟨e.pid, e.newTicks, url, staging⟩ :: w.engines })

/-- `record_worker(url, pid)` -/
def recordWorker (url : String) (pid : ℕ) : Ctl Unit := do
  Prog.change fun w e => { w with
    manifest := { w.manifest with
      workers := w.manifest.workers ++ [⟨url, pid, w.processStartTicks e pid⟩] } }
  writeManifest cfg

/-- The deadline has passed. -/
def World.deadlinePassed (w : World) (e : Env) : Bool := w.deadline.any (· ≤ e.monotonic)

/-- The poll loop: the engine ends by itself (or is stopped when its only job has
    ended), or a stop request or the deadline ends it. -/
def awaitEngine (pid : ℕ) : Ctl (Option EngineEnd) :=
  Prog.act (fun w e =>
    let ended := { w with engines := w.engines.filter fun g => g.pid ≠ pid }
    if e.seesStop && (w.stopRequested || w.deadlinePassed e) then
      (none, { ended with stopRequested := true })
    else (some e.engineEnd, ended)) .ret

/-- `capture_response(url, response_log)` -/
def captureResponse (url : String) (response : Option Response) : Ctl Unit :=
  Prog.change fun w _ => { w.popResponse url with
    responses := (w.popResponse url).responses ++ (response.map fun r => (url, r)).toList }

/-- `run_aria2(url, staging, attempt)` -/
def runAria2 (url : String) (staging : Path) : Ctl (Bool × String) := do
  makeDirs staging.dropLast
  let pid ← startEngine url staging
  recordWorker cfg url pid
  match ← awaitEngine pid with
  | none =>
    captureResponse url (← Prog.look fun _ e => e.engineEnd.response)
    return (false, "run time limit or stop requested")
  | some ended =>
    captureResponse url ended.response
    return (ended.ok, ended.error)

/-! ## `transfer` -/

/-- `staging.stat().st_size if staging.exists() else 0` -/
def stagedSize (staging : Path) : Ctl ℕ := do
  if ← pathExists staging then fileSize staging else return 0

/-- A second incomplete body that did not grow is no cut that can be resumed. -/
def stalled (url : String) (size : ℕ) (error : String) : Ctl Bool :=
  if size = 0 || !isIncompleteBodyFailure error then return false
  else dbLook fun db _ =>
    match (db.downloads.find? url).map fun r => (r.bytes, r.lastError) with
    | some (some bytes, some priorError) => isIncompleteBodyFailure priorError && size ≤ bytes
    | _ => false

/-- The outcome of an engine that did not leave a complete staging file. -/
def transferFailed (row : Row) (staging : Path) (startedAt error : String) : Ctl String := do
  let url := row.url
  let size ← stagedSize staging
  if ← stalled url size error then do
    attemptEvent cfg url (row.attempts + 1) startedAt "validation_failed"
    let candidate ← moveCandidate cfg staging
    candidateEvent cfg url staging candidate none "incomplete_body"
    let size ← fileSize candidate
    transition cfg url .reviewRequired (some error) fun _ =>
      [.bytes (some size), .lastError (some error)]
    clearTransferTelemetry url
    return "review"
  else if isDiskFullFailure error then do
    Prog.change fun w _ => { w with admissionPaused := true }
    attemptEvent cfg url (row.attempts + 1) startedAt "stopped"
    recordLocalFailure "storage" "free space exhausted while writing staging"
    transition cfg url .queued (some error) fun _ =>
      [.attempts row.attempts, .bytes (some size), .lastError (some error), .nextRetryAt 0]
    clearTransferTelemetry url
    return "local_failure"
  else if isAccessDeniedFailure error then do
    attemptEvent cfg url (row.attempts + 1) startedAt "access_denied"
    transition cfg url .reviewRequired (some error) fun _ =>
      [.bytes (some size), .lastError (some error), .reviewCode (some "access_denied")]
    clearTransferTelemetry url
    return "review"
  else if isUnavailableFailure error then do
    attemptEvent cfg url (row.attempts + 1) startedAt "unavailable"
    transition cfg url .unavailable (some error) fun e =>
      [.bytes (some size), .lastError (some error),
       .recheckAt (some (e.time + unavailableRecheckInterval)), .earlyRecheck 0]
    clearTransferTelemetry url
    return "unavailable"
  else do
    -- a planned stop is not a source failure, so it schedules no backoff
    let stopped ← Prog.look fun w _ => w.stopRequested
    let delay := if stopped then 0
      else retryDelays.getD (min row.attempts (retryDelays.length - 1)) 0
    attemptEvent cfg url (row.attempts + 1) startedAt
      (if stopped then "stopped" else "retryable_failure")
    transition cfg url .retryWait (some error) fun e =>
      [.bytes (some size), .lastError (some error), .nextRetryAt (e.time + delay)]
    clearTransferTelemetry url
    return "failed"

/-- A staging file that failed a check becomes a candidate for review. -/
def transferRejected (row : Row) (staging : Path) (startedAt digest detail reason : String) :
    Ctl String := do
  attemptEvent cfg row.url (row.attempts + 1) startedAt "validation_failed"
  let candidate ← moveCandidate cfg staging
  candidateEvent cfg row.url staging candidate (some digest) reason
  let size ← fileSize candidate
  transition cfg row.url .reviewRequired (some detail) fun _ =>
    [.sha256 (some digest), .bytes (some size), .lastError (some detail), .reviewCode (some reason)]
  clearTransferTelemetry row.url
  return "review"

/-- The completion of a promoted item. -/
def completeTransfer (row : Row) (stored : String) (staging target : Path) (digest : String)
    (sizeCompared : Bool) : Ctl String := do
  flush target.dropLast
  let size ← fileSize target
  finalizedEvent row.url (.str row.relativePath) (.str stored) size digest row.expectedSha256
    sizeCompared
  clearTransferTelemetry row.url
  let size ← fileSize target
  transition cfg row.url .complete none fun _ => [.bytes (some size), .sha256 (some digest)]
  osUnlink staging
  transition cfg row.url .complete (some "staging cleanup complete") fun e =>
    [.cleanupCompletedAt (some e.text)]
  return "complete"

/-- From the checked digest to the final. -/
def promote (row : Row) (stored : String) (staging target : Path) (digest : String)
    (sizeCompared : Bool) : Ctl String := do
  let intent : Ctl Unit := do
    ensureSafeParent cfg target
    flush staging
    let size ← fileSize staging
    transition cfg row.url .promoting none fun e =>
      [.sha256 (some digest), .bytes (some size), .promotionTarget (some (pathText target)),
       .promotionIntentAt (some e.text)]
  match ← Prog.attempt Exc.isOsOrRuntime intent with
  | .error exc =>
    let size ← fileSize staging
    transition cfg row.url .reviewRequired (some exc.text) fun _ =>
      [.sha256 (some digest), .bytes (some size), .lastError (some exc.text),
       .reviewCode (reviewCodeForError exc)]
    clearTransferTelemetry row.url
    return "review"
  | .ok () =>
    match ← Prog.attempt Exc.isOs (osLink staging target) with
    | .error (.os .eexist _) =>
      let candidate ← moveCandidate cfg staging
      candidateEvent cfg row.url staging candidate (some digest) "destination_collision"
      let size ← fileSize candidate
      transition cfg row.url .reviewRequired (some "destination appeared during promotion") fun _ =>
        [.bytes (some size), .promotionTarget (some (pathText target))]
      clearTransferTelemetry row.url
      return "candidate"
    | .error exc =>
      let size ← fileSize staging
      transition cfg row.url .reviewRequired (some exc.text) fun _ =>
        [.sha256 (some digest), .bytes (some size), .lastError (some exc.text),
         .promotionTarget (some (pathText target)), .reviewCode (reviewCodeForError exc)]
      clearTransferTelemetry row.url
      return "review"
    | .ok () => completeTransfer cfg row stored staging target digest sizeCompared

/-- The checks of a staging file the engine calls complete. -/
def validate (row : Row) (stored : String) (staging target : Path) (startedAt : String) :
    Ctl String := do
  let url := row.url
  match ← Prog.attempt Exc.isNotFound (osLook fun fs => fs.lstat staging) with
  | .ok (.file _) =>
    let digest ← (sha256sum staging).handle fun exc => do
      clearTransferTelemetry url
      throw exc
    if truthy row.expectedSha256 && some digest.toLower ≠ row.expectedSha256.map String.toLower then
      transferRejected cfg row staging startedAt digest "checksum mismatch" "checksum_mismatch"
    else do
      let stagedSize ← fileSize staging
      let response ← Prog.look fun w _ => w.response url
      match response.bind Response.expectedSize with
      | some expected =>
        if stagedSize ≠ expected then
          transferRejected cfg row staging startedAt digest ("size mismatch: expected " ++
            toString expected ++ " bytes, staged " ++ toString stagedSize) "size_mismatch"
        else do
          attemptEvent cfg url (row.attempts + 1) startedAt "success"
          promote cfg row stored staging target digest true
      | none =>
        attemptEvent cfg url (row.attempts + 1) startedAt "success"
        promote cfg row stored staging target digest false
  | _ =>
    attemptEvent cfg url (row.attempts + 1) startedAt "validation_failed"
    transition cfg url .reviewRequired (some "staging is not a regular file") fun _ =>
      [.bytes (some 0), .lastError (some "non-regular staging file")]
    clearTransferTelemetry url
    return "review"

/-- The engine succeeded and left the staging file without a control file. -/
def leftComplete (ok : Bool) (staging : Path) : Ctl Bool := do
  if !ok then return false
  else if !(← pathExists staging) then return false
  else return !(← pathExists (controlFile staging))

/-- The attempt itself. -/
def transferAttempt (row : Row) (stored : String) (staging target : Path) (fields : Update) :
    Ctl String := do
  let url := row.url
  let startedAt ← Prog.look fun _ e => e.text
  transition cfg url .active none fun _ => .attempts (row.attempts + 1) :: fields
  recordAttemptStart cfg url (row.attempts + 1) startedAt
  let (ok, error) ← (runAria2 cfg url staging).handle fun exc => do
    clearTransferTelemetry url
    throw exc
  if ← leftComplete ok staging then validate cfg row stored staging target startedAt
  else transferFailed cfg row staging startedAt error

/-- `reserve_worker_id()`, and the slot it reserves. -/
def reserveWorker (url : String) : Ctl Unit :=
  Prog.call fun w _ =>
    match (List.range' 1 cfg.workers).find? fun id => id ∉ w.workerIds.map (·.2) with
    | none => (.error (.runtime "no worker slot available for admitted transfer"), w)
    | some id => (.ok (), { w with workerIds := (w.workerIds.filter fun p => p.1 ≠ url) ++ [(url, id)] })

/-- `stored_text or storage_relative(rel, self.destination).as_posix()` -/
def Config.storedOf (row : Row) : String :=
  if truthy row.storagePath then row.storagePath.getD ""
  else Lib.Posix.asPosix (cfg.storageRelative (Lib.Posix.components row.relativePath))

/-- The probe of a transfer that starts afresh; an expected checksum protects the
    promotion without it. -/
def freshProbe (row : Row) : Ctl (Option HeadAnswer) :=
  if truthy row.expectedSha256 then return none else probeRepresentation

/-- The validators that a probe found. -/
def validatorFields (observed : Option HeadAnswer) : Update :=
  match observed with
  | some o => [.etag o.etag, .lastModified o.lastModified]
  | none => []

/-- The first attempt opens the first staging generation. -/
def generationFields (row : Row) : Update :=
  if row.stagingGeneration.isNone then [.stagingGeneration (some 1)] else []

/-- `check_representation(...)` and what it observed. -/
def checkRepresentation (row : Row) : Ctl (String × Option HeadAnswer) := do
  match ← probeRepresentation with
  | some o => return (classifyRepresentation row.etag row.lastModified o, some o)
  | none => return ("unconfirmed", none)

/-- `transfer(row, db)` -/
def transfer (row : Row) : Ctl String := do
  let url := row.url
  let stored := cfg.storedOf row
  let target := joinText cfg.destination stored
  let staging := cfg.stagingOf row
  if ← pathExists target then do
    let size ← fileSize target
    transition cfg url .existingUnverified (some "final already exists") fun _ => [.bytes (some size)]
    return "existing"
  else do
    Prog.change fun w _ => { w with resumeConfirmed := w.resumeConfirmed.filter (· ≠ url) }
    reserveWorker cfg url
    let generation := generationFields row
    if !(← partialExists staging) then do
      let observed ← freshProbe row
      transferAttempt cfg row stored staging target (generation ++ validatorFields observed)
    else if !truthy row.expectedSha256 && (truthy row.etag || truthy row.lastModified) then do
      let (decision, observed) ← checkRepresentation row
      if decision ≠ "confirmed_unchanged" then do
        enterRepresentationReview cfg url staging decision observed
        return "review"
      else do
        Prog.change fun w _ => { w with resumeConfirmed := w.resumeConfirmed ++ [url] }
        transferAttempt cfg row stored staging target generation
    else transferAttempt cfg row stored staging target generation

end TodDl.Controller
