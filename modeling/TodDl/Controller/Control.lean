/-
  The controller — the control thread (tod-dl.py, `control_action`).

  The actions on items are handlers of the database; the other four raise and
  clear flags of the session.  `db_lock` keeps each whole; what follows it, waking
  the scheduler, is a step of its own.
-/
import TodDl.Controller.World
import TodDl.Store.Control

namespace TodDl.Controller

open Lib (Prog)
open Store (Db Request Clock Reply Outcome)

variable (cfg : Config)

/-- The confirmed actions; `renew_tor_circuits` has tables of its own. -/
inductive ControlAction where
  | retryNow
  | excludeItem
  | resumeNewGeneration
  | retryAccessDenied
  | setItemPriority
  | setRetryCooldown
  | pauseAdmission
  | resumeAdmission
  | drainAndStop
  | checkpointStop
  deriving DecidableEq

/-- `self.control_wake.set()` -/
def wakeScheduler : Ctl Unit := Prog.change fun w _ => { w with controlWake := true }

/-! ## Actions on items -/

/-- A handler of the database in its transaction; the flag says whether it
    committed. -/
def itemControl (handler : Db → String → Request → Clock → Outcome) (q : Request) :
    Ctl (Reply × Bool) :=
  Prog.call fun w e =>
    let o := handler w.db cfg.runId q ⟨e.time, e.text⟩
    match e.sqlFault, o.revision with
    | some .lost, _ => (.error .sqlite, { w with db := w.disk })
    | some .kept, some _ => (.error .sqlite, { w with db := o.db, disk := o.db })
    | some .kept, none => (.error .sqlite, w)
    | none, some _ => (.ok (o.reply, true), { w with db := o.db, disk := o.db })
    | none, none => (.ok (o.reply, false), w)

/-! ## Actions on the flags -/

/-- Where two actions on the flags differ. -/
structure FlagAction where
  /-- the name of the action in `control_requests` -/
  action : String
  /-- why the action is refused, if it is -/
  refusal : World → Option String
  reason : String
  effect : World → World
  /-- whether the action wakes the scheduler -/
  wakes : Bool := true

/-- `control_pause_admission` -/
def pauseAdmission : FlagAction where
  action := "pause_admission"
  refusal w :=
    if w.stopRequested || w.drainRequested then
      some "admission cannot be paused while the run is stopping"
    else if w.admissionPaused then some "admission is already paused"
    else none
  reason := "admission paused; active transfers continue"
  effect w := { w with admissionPaused := true }
  wakes := false

/-- `control_resume_admission` -/
def resumeAdmission : FlagAction where
  action := "resume_admission"
  refusal w := if !w.admissionPaused then some "admission is not paused" else none
  reason := "admission resumed for the selected run"
  effect w := { w with admissionPaused := false }

/-- `control_drain_and_stop` -/
def drainAndStop : FlagAction where
  action := "drain_and_stop"
  refusal w :=
    if w.stopRequested || w.drainRequested then some "the run is already stopping" else none
  reason := "draining active transfers to durable states; admission stopped"
  effect w := { w with drainRequested := true, admissionPaused := false }

/-- `control_checkpoint_stop` -/
def checkpointStop : FlagAction where
  action := "checkpoint_stop"
  refusal w := if w.stopRequested then some "the run is already stopping" else none
  reason := "checkpoint requested; terminating active transfers safely"
  effect w := { w with stopRequested := true }

/-- The reply of an action on the flags, stored under its request ID. -/
def storeReply (db : Db) (action requestId sessionId outcome reason recordedAt : String) : Db :=
  let advanced := db.advanceRevision cfg.runId
  { advanced with
    controlRequests := advanced.controlRequests.insertNew
      ⟨requestId, cfg.runId, sessionId, action, outcome, reason, advanced.revision cfg.runId,
        recordedAt⟩ }

/-- The handler of an action on the flags in its transaction; the flag says whether
    the action was accepted. -/
def flagControl (a : FlagAction) (q : Request) : Ctl (Reply × Bool) :=
  match q.requestId, q.sessionId with
  | some requestId, some sessionId =>
    Prog.call fun w e =>
      match w.db.controlRequests.find? requestId with
      | some c => (.ok (⟨c.outcome, c.reason, some c.stateRevision, []⟩, false), w)
      | none =>
        let refusal := a.refusal w
        let w := if refusal.isSome then w else a.effect w
        let outcome := if refusal.isSome then "rejected" else "completed"
        let reason := refusal.getD a.reason
        let db := storeReply cfg w.db a.action requestId sessionId outcome reason e.text
        match e.sqlFault with
        | some .lost => (.error .sqlite, { w with db := w.disk })
        | some .kept => (.error .sqlite, { w with db, disk := db })
        | none => (.ok (⟨outcome, reason, some (db.revision cfg.runId), []⟩, refusal.isNone),
            { w with db, disk := db })
  | _, _ => return (⟨"rejected", Store.invalidRequest, none, []⟩, false)

/-- The wake that follows an accepted action. -/
def andWake (wakes : Bool) (p : Ctl (Reply × Bool)) : Ctl Reply := do
  let (reply, accepted) ← p
  if accepted && wakes then wakeScheduler
  return reply

/-- `control_action(db, request)` -/
def control (q : Request) : ControlAction → Ctl Reply
  | .retryNow => andWake true (itemControl cfg Store.controlRetryNow q)
  | .excludeItem => andWake false (itemControl cfg Store.controlExcludeItem q)
  | .resumeNewGeneration => andWake false (itemControl cfg Store.controlResumeNewGeneration q)
  | .retryAccessDenied => andWake false (itemControl cfg Store.controlRetryAccessDenied q)
  | .setItemPriority => andWake false (itemControl cfg Store.controlSetItemPriority q)
  | .setRetryCooldown => andWake false (itemControl cfg Store.controlSetRetryCooldown q)
  | .pauseAdmission => andWake pauseAdmission.wakes (flagControl cfg pauseAdmission q)
  | .resumeAdmission => andWake resumeAdmission.wakes (flagControl cfg resumeAdmission q)
  | .drainAndStop => andWake drainAndStop.wakes (flagControl cfg drainAndStop q)
  | .checkpointStop => andWake checkpointStop.wakes (flagControl cfg checkpointStop q)

end TodDl.Controller
