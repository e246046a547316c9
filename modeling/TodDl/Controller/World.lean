/-
  The controller — its world and its atomic steps (tod-dl.py).

  A `World` is what the threads of a session share, what is on disk, and the
  engine processes.  An `Env` is what one step gets from outside: the clocks, a
  fresh UUID, faults of the system calls and of SQLite, answers of the network
  and of engines.  The functions of the source are programs (`Ctl`) over the
  steps defined here; waits that change nothing are left out.

  `db` is what the one shared connection sees, `disk` what is committed; a crash
  leaves `disk`.
-/
import TodDl.Lib.Prog
import TodDl.Controller.Config

namespace TodDl.Controller

open Lib (Path FileTree Errno Prog)
open Provenance (PyVal Key Writer digitZeros isDigit)
open Store (Db Row Status Update Assign truthy itemId)

/-- What a step raises. -/
inductive Exc where
  | os (errno : Errno) (text : String)
  | runtime (text : String)
  | sqlite
  | failure (f : Provenance.Failure)
  deriving DecidableEq

/-- `str(exc)` -/
def Exc.text : Exc → String
  | .os _ text => text
  | .runtime text => text
  | .sqlite => "SQLite error"
  | .failure _ => ""

/-- What remains of a transaction that reports an error. -/
inductive SqlFault where
  /-- SQLite rolled the open transaction back -/
  | lost
  /-- the commit is durable -/
  | kept
  deriving DecidableEq

/-- What `head_request` returns. -/
structure HeadAnswer where
  status : ℤ
  etag : Option String := none
  lastModified : Option String := none

/-- The fields `parse_aria2_response_log` finds in a log with a response. -/
structure Response where
  finalUrl : Option String := none
  redirectChain : List String := []
  httpStatus : Option ℕ := none
  contentLength : Option String := none
  contentRange : Option String := none
  contentType : Option String := none
  etag : Option String := none
  lastModified : Option String := none

/-- How an engine process ended by itself. -/
structure EngineEnd where
  ok : Bool := false
  error : String := ""
  response : Option Response := none

/-- What one step gets from outside. -/
structure Env where
  /-- `time.time()` -/
  time : ℚ := 0
  /-- `time.monotonic()` -/
  monotonic : ℚ := 0
  /-- `now()`, `utc_now()` -/
  text : String := ""
  uuid : String := ""
  /-- the UUIDs that a step draws after the first -/
  nextUuids : List String := []
  /-- a system call fails -/
  osFault : Option Errno := none
  errorText : String := ""
  sqlFault : Option SqlFault := none
  /-- the append to `events.jsonl` raises before it wrote anything -/
  appendFails : Bool := false
  head : Option HeadAnswer := none
  /-- the pid of a new process -/
  pid : ℕ := 0
  /-- the start ticks of a new process -/
  newTicks : ℕ := 0
  /-- the start ticks of a process that is no engine, if there is one -/
  otherTicks : Option ℕ := none
  engineEnd : EngineEnd := {}
  /-- the poll of an engine sees the stop request or the deadline first -/
  seesStop : Bool := false
  /-- free bytes of the destination less what admitted transfers still need -/
  freeBytes : ℤ := 0

/-- An entry of `manifest["workers"]`. -/
structure WorkerEntry where
  url : String
  torsocksPid : ℕ
  startedTicks : Option ℕ
  deriving DecidableEq

/-- The parts of `manifest.json` that are read back. -/
structure Manifest where
  queueInputs : PyVal
  maxFiles : ℤ
  workers : List WorkerEntry := []

/-- A live engine process; it writes its staging file. -/
structure Engine where
  pid : ℕ
  ticks : ℕ
  url : String
  staging : Path
  deriving DecidableEq

/-- What the threads share, what is on disk, and the engine processes. -/
structure World where
  db : Db := {}
  disk : Db := {}
  fs : FileTree
  /-- `self.provenance` -/
  records : Option Writer := none
  stopRequested : Bool := false
  drainRequested : Bool := false
  admissionPaused : Bool := false
  controlWake : Bool := false
  sigtermReceived : Bool := false
  sigintReceived : Bool := false
  localFailureCode : Option String := none
  deadline : Option ℚ := none
  selectedItemCount : ℕ := 0
  /-- `self.manifest` -/
  manifest : Manifest := ⟨.null, 0, []⟩
  /-- `manifest.json` of each run -/
  manifests : String → Option Manifest := fun _ => none
  engines : List Engine := []
  workerIds : List (String × ℕ) := []
  /-- `self.attempt_responses` -/
  responses : List (String × Response) := []
  resumeConfirmed : List String := []

/-- A function of the controller. -/
abbrev Ctl := Prog World Env Exc

/-! ## System calls -/

/-- A system call on the file tree. -/
def osCall {β : Type} (f : FileTree → Except Errno (β × FileTree)) : Ctl β :=
  Prog.call fun w e => match e.osFault with
    | some errno => (.error (.os errno e.errorText), w)
    | none => match f w.fs with
      | .error errno => (.error (.os errno e.errorText), w)
      | .ok (b, fs) => (.ok b, { w with fs })

/-- A system call that only looks. -/
def osLook {β : Type} (f : FileTree → Except Errno β) : Ctl β :=
  osCall fun fs => (f fs).map fun b => (b, fs)

/-- A check that answers no when a system call fails. -/
def osCheck (f : FileTree → Bool) : Ctl Bool := Prog.look fun w e => e.osFault.isNone && f w.fs

/-- A system call that only changes the tree. -/
def osChange (f : FileTree → Except Errno FileTree) : Ctl Unit :=
  osCall fun fs => (f fs).map fun fs' => ((), fs')

/-- `path.exists()` -/
def pathExists (p : Path) : Ctl Bool := osLook fun fs => .ok (fs.pathExists p)

/-- `path.stat().st_size` -/
def fileSize (p : Path) : Ctl ℕ := osLook fun fs => fs.size p

/-- `sha256sum(path)` -/
def sha256sum (p : Path) : Ctl String := osLook fun fs => (fs.read p).map Lib.Sha256.hexdigest

/-- `os.link(src, dst)` -/
def osLink (src dst : Path) : Ctl Unit := osChange fun fs => fs.link src dst

/-- `os.unlink(path)` -/
def osUnlink (p : Path) : Ctl Unit := osChange fun fs => fs.unlink p

/-- `path.mkdir(parents=True, exist_ok=True)` -/
def makeDirs (p : Path) : Ctl Unit := osChange fun fs =>
  (List.range p.length).foldlM (fun fs i =>
    let q := p.take (i + 1)
    if fs.isDir q then .ok fs else fs.mkdir q) fs

/-- `flush_file(path)`, `flush_directory(path)` -/
def flush (p : Path) : Ctl Unit := osLook fun fs => (fs.stat p).map fun _ => ()

/-- `path.exists() and path.stat().st_size > 0` -/
def partialExists (staging : Path) : Ctl Bool := do
  if ← pathExists staging then return decide (0 < (← fileSize staging)) else return false

/-! ## SQLite -/

/-- A read of the database. -/
def dbLook {β : Type} (f : Db → Env → β) : Ctl β :=
  Prog.call fun w e => match e.sqlFault with
    | some _ => (.error .sqlite, w)
    | none => (.ok (f w.db e), w)

/-- Statements without a commit. -/
def dbChange (f : Db → Env → Db) : Ctl Unit :=
  Prog.call fun w e => match e.sqlFault with
    | some _ => (.error .sqlite, { w with db := w.disk })
    | none => (.ok (), { w with db := f w.db e })

/-- Statements and a commit. -/
def dbCommit (f : Db → Env → Except Exc Db) : Ctl Unit :=
  Prog.call fun w e => match f w.db e, e.sqlFault with
    | _, some .lost => (.error .sqlite, { w with db := w.disk })
    | .error x, _ => (.error x, w)
    | .ok db, some .kept => (.error .sqlite, { w with db, disk := db })
    | .ok db, none => (.ok (), { w with db, disk := db })

/-! ## Records -/

/-- The ID and the time of an event, and whether its line is appended. -/
def Env.eventIo (e : Env) : Provenance.EventIo where
  eventId := e.uuid
  recordedAt := e.text
  appendFails := e.appendFails

/-- `provenance_event(event_type, **fields)` -/
def provenanceEvent (eventType : String) (fields : Env → List (String × PyVal)) : Ctl Unit :=
  Prog.call fun w e => match w.records with
    | none => (.ok (), w)
    | some writer =>
      match writer.event eventType (fields e) e.eventIo with
      | (.ok _, writer) => (.ok (), { w with records := some writer })
      | (.error (.provenance message), writer) =>
        (.error (.runtime ("local provenance failure: " ++ message)),
          { w with records := some writer, stopRequested := true,
                   localFailureCode := some "record_write" })
      | (.error f, writer) => (.error (.failure f), { w with records := some writer })

/-- `record_local_failure(code, detail)` -/
def recordLocalFailure (code detail : String) : Ctl Unit := do
  Prog.change fun w _ => { w with localFailureCode := some code }
  (provenanceEvent "local_failure" fun _ =>
      [("failure_code", .str code), ("failure_detail", .str detail)]).handle fun
    | .runtime _ => return ()
    | x => throw x

/-- The handler of `sqlite3.Error` in `transition`. -/
def sqliteFailure : Ctl Unit := do
  Prog.change fun w _ => { w with stopRequested := true, localFailureCode := some "database_write" }
  recordLocalFailure "database_write" "SQLite write or commit failed"
  throw (.runtime "local SQLite failure: SQLite error")

section
variable (cfg : Config)

/-- `transition(db, url, to_status, detail, **fields)` -/
def transition (url : String) (toStatus : Status) (detail : Option String)
    (fields : Env → Update) : Ctl Unit :=
  (dbCommit fun db e => match db.transition cfg.runId url toStatus detail (fields e) e.text with
    | none => .error (.runtime ("missing download row: " ++ url))
    | some (db', _) => .ok db').handle fun
  | .sqlite => sqliteFailure
  | x => throw x

/-- A text or `None`. -/
def optStr : Option String → PyVal
  | none => .null
  | some s => .str s

/-- `{**NO_RESPONSE_FIELDS, **self.attempt_responses.get(url, {})}` -/
def responseFields (r : Option Response) : List (String × PyVal) :=
  let r := r.getD {}
  [("final_url", optStr r.finalUrl), ("redirect_chain", .list (r.redirectChain.map .str)),
   ("http_status", match r.httpStatus with | some n => .int n | none => .null),
   ("response_content_length", optStr r.contentLength),
   ("response_content_range", optStr r.contentRange),
   ("response_content_type", optStr r.contentType), ("response_etag", optStr r.etag),
   ("response_last_modified", optStr r.lastModified)]

/-- `self.attempt_responses.get(url)` -/
def World.response (w : World) (url : String) : Option Response :=
  (w.responses.find? fun p => p.1 = url).map (·.2)

/-- `self.attempt_responses.pop(url, None)` -/
def World.popResponse (w : World) (url : String) : World :=
  { w with responses := w.responses.filter fun p => p.1 ≠ url }

/-- `attempt_event(db, url, number, started_at, outcome)` -/
def attemptEvent (url : String) (number : ℕ) (startedAt outcome : String) : Ctl Unit := do
  let response ← Prog.look fun w _ => w.response url
  provenanceEvent "attempt_finished" fun e =>
    [("item_id", .str (itemId url)), ("source_url", .str url), ("attempt_number", .int number),
     ("request_started_at", .str startedAt), ("request_finished_at", .str e.text),
     ("outcome", .str outcome)] ++ responseFields response
  if outcome ≠ "success" then Prog.change fun w _ => w.popResponse url
  dbCommit fun db e => .ok (db.recordAttemptEnd cfg.runId url number outcome e.text)

/-- `record_attempt_start(db, url, number, started_at)` -/
def recordAttemptStart (url : String) (number : ℕ) (startedAt : String) : Ctl Unit :=
  dbCommit fun db _ => .ok (db.recordAttemptStart cfg.runId url number startedAt)

/-- The value of a decimal digit, of whatever script. -/
def digitValue (c : Char) : ℕ :=
  ((digitZeros.find? fun z => z ≤ c.toNat && c.toNat < z + 10).map (c.toNat - ·)).getD 0

/-- `int(text)` for a text with `text.isdecimal()`, or one that `\d+` has matched.  That `int`
    refuses more than 4300 digits is left out. -/
def decimal (cs : List Char) : Option ℕ :=
  if cs.isEmpty || !cs.all isDigit then none
  else some (cs.foldl (fun n c => 10 * n + digitValue c) 0)

/-- `text.strip()` -/
def strip (cs : List Char) : List Char :=
  ((cs.dropWhile Store.isPySpace).reverse.dropWhile Store.isPySpace).reverse

/-- The total of a `Content-Range` text, `bytes \d+-\d+/(\d+)`. -/
def rangeTotal (text : String) : Option ℕ :=
  match (strip text.toList).splitOn '-' with
  | [first, rest] =>
    match rest.splitOn '/' with
    | [last, total] =>
      if "bytes ".toList.isPrefixOf first && (decimal (first.drop 6)).isSome &&
        (decimal last).isSome then decimal total else none
    | _ => none
  | _ => none

/-- `expected_size_from_response(response)` -/
def Response.expectedSize (r : Response) : Option ℕ :=
  match r.httpStatus with
  | some 200 => r.contentLength.bind fun l => decimal l.toList
  | some 206 => r.contentRange.bind rangeTotal
  | _ => none

/-- A validation object of the finalized event: `available`, `compared`, `value`. -/
def validation (value : Option PyVal) (compared : Bool) : PyVal :=
  match value with
  | none => .dict [(.str "available", .bool false), (.str "compared", .bool false),
      (.str "value", .null)]
  | some v => .dict [(.str "available", .bool true), (.str "compared", .bool compared),
      (.str "value", v)]

/-- The fields of a finalized event. -/
def finalizedFields (url : String) (logical stored : PyVal) (byteCount : ℕ) (sha256 : String)
    (expectedSha256 : Option String) (sizeCompared resumeConfirmed : Bool)
    (response : Option Response) (etag lastModified : Option String) (e : Env) :
    List (String × PyVal) :=
  let response := response.getD {}
  let orElse := fun a b : Option String => if truthy a then a else b
  [("item_id", .str (itemId url)), ("source_url", .str url), ("logical_relative_path", logical),
   ("final_relative_path", stored), ("byte_count", .int byteCount), ("sha256", .str sha256),
   ("validation_method_version", .str "1"), ("finalized_at", .str e.text),
   ("expected_size", validation (response.expectedSize.map fun n => .int n) sizeCompared),
   ("expected_checksum",
     validation (if truthy expectedSha256 then expectedSha256.map .str else none) true),
   ("etag", validation ((orElse etag response.etag).map .str) resumeConfirmed),
   ("last_modified", validation ((orElse lastModified response.lastModified).map .str) false)]

/-- `finalized_event(db, url, logical, stored, byte_count, sha256, …)`; `logical` and
    `stored` are the values passed, which `scope_run` does not make texts. -/
def finalizedEvent (url : String) (logical stored : PyVal) (byteCount : ℕ) (sha256 : String)
    (expectedSha256 : Option String) (sizeCompared : Bool) : Ctl Unit := do
  let (response, confirmed) ← Prog.act (fun w _ =>
    ((w.response url, decide (url ∈ w.resumeConfirmed)),
      { w.popResponse url with resumeConfirmed := w.resumeConfirmed.filter (· ≠ url) })) .ret
  let row ← dbLook fun db _ => db.downloads.find? url
  provenanceEvent "finalized" (finalizedFields url logical stored byteCount sha256 expectedSha256
    sizeCompared confirmed response (row.bind (·.etag)) (row.bind (·.lastModified)))

/-- `CANDIDATE_EVENT_REASONS` -/
def candidateEventReason : String → String
  | "incomplete_body" | "checksum_mismatch" | "size_mismatch" => "validation_failed"
  | "changed_remote_representation" | "no_reliable_version_protection" => "recovery_review"
  | reason => reason

/-- `candidate_event(url, staging, candidate, sha256, reason)`; a path outside its
    directory raises. -/
def candidateEvent (url : String) (staging candidate : Path) (sha256 : Option String)
    (reason : String) : Ctl Unit :=
  match relativeTo staging cfg.state, relativeTo candidate cfg.candidates with
  | some s, some c => provenanceEvent "candidate_created" fun _ =>
      [("item_id", .str (itemId url)), ("staging_relative_path", .str (Lib.Posix.asPosix s)),
       ("candidate_relative_path", .str (Lib.Posix.asPosix c)), ("sha256", optStr sha256),
       ("finalization_failure_reason", .str (candidateEventReason reason))]
  | _, _ => throw (.failure .valueError)

/-- `except OSError` -/
def Exc.isOs : Exc → Bool
  | .os _ _ => true
  | _ => false

/-- `except FileNotFoundError` -/
def Exc.isNotFound : Exc → Bool
  | .os .enoent _ => true
  | _ => false

/-- `except (OSError, RuntimeError)` -/
def Exc.isOsOrRuntime : Exc → Bool
  | .os _ _ | .runtime _ => true
  | _ => false

/-- `review_code_for_error(error)` -/
def reviewCodeForError : Exc → Option String
  | .os .enametoolong _ => some "ENAMETOOLONG"
  | _ => none

end

end TodDl.Controller
