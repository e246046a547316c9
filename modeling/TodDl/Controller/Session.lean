/-
  The controller — a session beside its workers (tod-dl.py, `run`).

  `Main` is where `run` is: before its scheduler loop, at one of the tests of the loop, or
  after it.  Workers and control requests are programs; `Session.step` takes one atomic
  step of one party.  A session may crash anywhere, and another one may follow it on the
  same state directory.

  A session keeps every step with its actor: what happened in it is a property of its
  past.
-/
import TodDl.Controller.Control
import TodDl.Controller.Recheck
import TodDl.Controller.Scope

namespace TodDl.Controller

open Lib (FileTree Prog)
open Store (Db Row Status Request Reply)

/-! ## The programs of the scheduler -/

/-- What a worker was admitted for. -/
inductive Task where
  | transfer (row : Row)
  | recheck (row : Row)

section
variable (cfg : Config)

def Task.program : Task → Ctl String
  | .transfer row => Controller.transfer cfg row
  | .recheck row => recheckUnavailable cfg row

/-- A query of the scheduler, which may raise by itself. -/
def query {β : Type} (f : Db → ℚ → Except Provenance.Failure β) : Ctl β :=
  Prog.call fun w e => match e.sqlFault, f w.db e.time with
    | some _, _ => (.error .sqlite, w)
    | none, .error failure => (.error (.failure failure), w)
    | none, .ok b => (.ok b, w)

/-- The rest of a round of the inner loop, from `next_pending` on: the task it admits. -/
def admitNext : Ctl (Option Task) := do
  match ← query (nextPending cfg) with
  | some row =>
    transition cfg row.url .admitted (some "transfer admitted") fun _ => []
    return some (.transfer row)
  | none =>
    match ← dbLook fun db e => nextRecheck db cfg.runId e.time with
    | none => return none
    | some row =>
      claimRecheck row.url
      return some (.recheck row)

/-- The items that are not done. -/
def unresolved (db : Db) : List Row :=
  (db.selected cfg.runId).filter fun r => r.status.text ∉ ["complete", "existing"]

end

/-- `close_reason`; no failure code is the empty text. -/
def World.closeReason (w : World) (unresolved : ℕ) : String :=
  if w.localFailureCode.isSome then "local_failure"
  else if w.sigtermReceived || w.sigintReceived then "interrupted"
  else if w.deadline.isSome && w.stopRequested then "time_limit"
  else if unresolved = 0 then "finished"
  else "stopped"

/-! ## A session -/

/-- Where `run` is. -/
inductive Main where
  | down
  /-- before the scheduler loop -/
  | starting (p : Ctl Unit)
  /-- the condition of the inner loop -/
  | checking
  /-- the test of the deadline -/
  | timing
  /-- the test of the storage reserve -/
  | measuring
  | admitting (p : Ctl (Option Task))
  /-- after the inner loop: futures, or the flags -/
  | waiting
  /-- `retry_wait` -/
  | asking (p : Ctl (Option ℚ))
  | sleeping (wait : ℚ)
  /-- the pool waits for its workers -/
  | settling
  /-- the unresolved items are counted -/
  | counted (db : Db)
  | closed (db : Db) (reason : String)

/-- A future of the pool. -/
structure Worker where
  id : ℕ
  program : Ctl String

/-- A request that the control server serves. -/
structure ServedRequest where
  id : ℕ
  action : ControlAction
  request : Request
  program : Ctl Reply

/-- Who takes a step. -/
inductive Actor where
  | run
  | worker
  | handler
  | signal
  /-- whoever had committed when the projection failed -/
  | projection
  | outside
  deriving DecidableEq

/-- A step that was taken. -/
structure Moment where
  actor : Actor
  before : World
  answer : Env
  after : World

structure Session where
  cfg : Config
  world : World
  main : Main := .down
  workers : List Worker := []
  handlers : List ServedRequest := []
  /-- the IDs given so far -/
  count : ℕ := 0
  past : List Moment := []

/-- An exception ends the loop; the count is beyond it. -/
def Main.interrupted : Main → Main
  | .counted db => .counted db
  | _ => .settling

/-- What a new session finds: nothing that was in memory. -/
def World.booted (w : World) : World where
  db := w.disk
  disk := w.disk
  fs := w.fs
  manifests := w.manifests
  engines := w.engines

/-- The effect of a signal. -/
def World.signalled (w : World) (terminates : Bool) : World :=
  { w with
    stopRequested := true
    controlWake := true
    sigtermReceived := w.sigtermReceived || terminates
    sigintReceived := w.sigintReceived || !terminates }

/-- `stop_requested.set()` -/
def World.stopped (w : World) : World := { w with stopRequested := true }

/-- The steps of a session. -/
inductive Move where
  | boot (cfg : Config)
  | crash
  /-- one step of `run` -/
  | run (e : Env)
  | worker (id : ℕ) (e : Env)
  /-- `future.result()` -/
  | collect (id : ℕ)
  | request (a : ControlAction) (q : Request)
  | handler (id : ℕ) (e : Env)
  | signal (terminates : Bool)
  /-- `apply_projection_change` fails after a commit; its exception may be caught -/
  | projection (caught : Bool) (e : Env)
  /-- files and engines change -/
  | outside (fs : FileTree) (engines : List Engine)

namespace Session
variable (s : Session)

/-- The session after a step of one party. -/
def next (actor : Actor) (e : Env) (w : World) (main : Main) : Session :=
  { s with world := w, main, past := s.past ++ [⟨actor, s.world, e, w⟩] }

/-- A task is submitted to the pool. -/
def hired (task : Task) : Session :=
  { s with
    main := .checking
    workers := s.workers ++ [⟨s.count, task.program s.cfg⟩]
    count := s.count + 1 }

/-- `run` goes on elsewhere. -/
def moved (main : Main) : Session := { s with main }

/-- The process is gone. -/
def dropped : Session := { s with main := .down, workers := [], handlers := [] }

/-- The condition of the inner loop. -/
def admits : Bool :=
  !s.world.stopRequested && !s.world.drainRequested && !s.world.admissionPaused &&
    decide (s.workers.length < s.cfg.workers)

/-- `sleep_for` -/
def sleepFor (wait : ℚ) (e : Env) : ℚ :=
  match s.world.deadline with
  | none => min wait 60
  | some deadline => min (min wait 60) (max 0 (deadline - e.monotonic))

/-- One step of `run`. -/
def stepRun (e : Env) : Option Session :=
  let w := s.world
  match s.main with
  | .down | .closed _ _ => none
  | .starting (.act f k) => some (s.next .run e (f w e).2 (.starting (k (f w e).1)))
  | .starting (.ret _) => some (s.moved .checking)
  | .starting (.raise _) => some s.dropped
  | .checking => some (s.moved (if s.admits then .timing else .waiting))
  | .timing =>
    if w.deadlinePassed e then some (s.next .run e w.stopped .waiting)
    else some (s.moved .measuring)
  | .measuring =>
    -- `disk_usage` raises
    if e.osFault.isSome then some (s.moved .settling)
    else if e.freeBytes < s.cfg.reserveBytes then some (s.next .run e w.stopped .waiting)
    else some (s.moved (.admitting (admitNext s.cfg)))
  | .admitting (.act f k) => some (s.next .run e (f w e).2 (.admitting (k (f w e).1)))
  | .admitting (.ret none) => some (s.moved .waiting)
  | .admitting (.ret (some task)) => some (s.hired task)
  | .admitting (.raise _) => some (s.moved .settling)
  | .waiting =>
    if s.workers.isEmpty then
      if w.stopRequested || w.drainRequested then some (s.moved .settling)
      else some (s.moved (.asking (query (retryWait s.cfg))))
    -- no future is done in time
    else if w.deadlinePassed e then some (s.next .run e w.stopped .checking)
    else some (s.moved .checking)
  | .asking (.act f k) => some (s.next .run e (f w e).2 (.asking (k (f w e).1)))
  | .asking (.ret none) => some (s.moved .settling)
  | .asking (.ret (some wait)) => some (s.moved (.sleeping wait))
  | .asking (.raise _) => some (s.moved .settling)
  | .sleeping wait =>
    if s.sleepFor wait e ≤ 0 then some (s.next .run e w.stopped .checking)
    else some (s.next .run e { w with controlWake := false } .checking)
  | .settling => if s.workers.isEmpty then some (s.moved (.counted w.db)) else none
  | .counted db =>
    some (s.moved (.closed db (w.closeReason (unresolved s.cfg db).length)))

/-- One step of a worker. -/
def stepWorker (id : ℕ) (e : Env) : Option Session :=
  match s.workers.find? (·.id = id) with
  | some ⟨_, .act f k⟩ =>
    let now : Worker := ⟨id, k (f s.world e).1⟩
    some { s.next .worker e (f s.world e).2 s.main with
      workers := s.workers.map fun j => if j.id = id then now else j }
  | _ => none

/-- A future that is done leaves the pool; its exception ends the loop. -/
def collect (id : ℕ) : Option Session :=
  let rest := s.workers.filter fun j => j.id ≠ id
  match s.workers.find? (·.id = id), s.main with
  | some ⟨_, .ret _⟩, .waiting => some { s with workers := rest, main := .checking }
  | some ⟨_, .raise _⟩, .waiting => some { s with workers := rest, main := .settling }
  | some ⟨_, .ret _⟩, .settling | some ⟨_, .raise _⟩, .settling => some { s with workers := rest }
  | _, _ => none

/-- The control server is up. -/
def serves : Bool :=
  match s.main with
  | .down | .starting _ => false
  | _ => true

/-- One step of the handler of a request. -/
def stepHandler (id : ℕ) (e : Env) : Option Session :=
  match s.handlers.find? (·.id = id) with
  | some ⟨_, a, q, .act f k⟩ =>
    let now : ServedRequest := ⟨id, a, q, k (f s.world e).1⟩
    some { s.next .handler e (f s.world e).2 s.main with
      handlers := s.handlers.map fun j => if j.id = id then now else j }
  | _ => none

/-- A signal finds the process before the reason is given. -/
def isUp : Bool :=
  match s.main with
  | .down | .closed _ _ => false
  | _ => true

/-- **One step of the session**, if it can take it. -/
def step : Move → Option Session
  | .boot cfg =>
    match s.main with
    | .down | .closed _ _ =>
      some { cfg, world := s.world.booted, main := .starting (startup cfg), count := s.count }
    | _ => none
  | .crash => some s.dropped
  | .run e => s.stepRun e
  | .worker id e => s.stepWorker id e
  | .collect id => s.collect id
  | .request a q =>
    if s.serves then some
      { s with
        handlers := s.handlers ++ [⟨s.count, a, q, control s.cfg q a⟩]
        count := s.count + 1 }
    else none
  | .handler id e => s.stepHandler id e
  | .signal terminates =>
    if s.isUp then some (s.next .signal {} (s.world.signalled terminates) s.main) else none
  | .projection caught e =>
    if s.serves && s.isUp then
      some (s.next .projection e s.world.stopped (if caught then s.main else s.main.interrupted))
    else none
  | .outside fs engines => some (s.next .outside {} { s.world with fs, engines } s.main)

/-- A state directory before its first session. -/
def initial (cfg : Config) (fs : FileTree) : Session := { cfg, world := { fs } }

end Session

end TodDl.Controller
