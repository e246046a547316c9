/-
  The controller — requests that come again (tod-dl.py, `control_action`).

  Every handler looks its request ID up in `control_requests` and answers from the row, if
  there is one.  A row holds the outcome, the reason and the revision of a reply, and no
  outcomes of single items; the reply of `renew_tor_circuits` has no revision.

  `replay_eq_iff`: a recorded request that comes again, after whatever happened in between,
  changes nothing, and is answered as the first time exactly if the first reply is all in its
  row.  `happens_controlAction`: other calls are among what may happen in between.
-/
import TodDl.Controller.History
import TodDl.Controller.Renewal
import TodDl.Controller.Server
import TodDl.Controller.Steps
import TodDl.Store.Mutation

namespace TodDl.Controller

open Lib (Prog GRun)
open Provenance (PyVal Key)
open Store (Db ControlRow Request Reply Clock Outcome Job Projection ItemAction itemIds)

/-! ## The handlers -/

/-- What the handlers of the control actions work on. -/
structure Controls where
  world : World
  projection : Option Projection := none
  /-- `tor_renewals` -/
  renewals : Lib.Table Renewal.requestId := .empty

/-- A function of the control thread. -/
abbrev Handler := Prog Controls Env Exc

/-- A program that leaves the projection and `tor_renewals` alone. -/
def onWorld {α : Type} (p : Ctl α) : Handler α :=
  p.focus Controls.world fun c world => { c with world }

/-- The program with what its first step leaves to be told to the projection. -/
def withJob {α : Type} (job : World → Env → Job) : Ctl α → Ctl (α × Job)
  | .ret a => .ret (a, {})
  | .raise x => .raise x
  | .act f k => .act (fun w e => (((f w e).1, job w e), (f w e).2)) fun b =>
      (k b.1).bind fun a => .ret (a, b.2)

/-- `apply_projection_change` for each changed row, or `set_revision`. -/
def tellProjection (j : Job) : Handler Unit :=
  Prog.change fun c _ => { c with projection := c.projection.map (·.performAll j) }

/-- A handler: its transaction, the projection, and the scheduler. -/
def handled (wakes : Bool) (job : World → Env → Job) (p : Ctl (Reply × Bool)) : Handler Reply := do
  let ((reply, accepted), j) ← onWorld (withJob job p)
  tellProjection j
  if accepted && wakes then onWorld wakeScheduler
  return reply

/-- A handler that changes items. -/
def itemAction (cfg : Config) (wakes : Bool) (handler : Db → String → Request → Clock → Outcome)
    (q : Request) : Handler Reply :=
  handled wakes (fun w e => (handler w.db cfg.runId q ⟨e.time, e.text⟩).job)
    (itemControl cfg handler q)

/-- `set_revision` with the revision of the reply. -/
def revisionJob (cfg : Config) (db : Db) : Job :=
  ⟨(db.advanceRevision cfg.runId).revision cfg.runId, [.setRevision]⟩

/-- A handler that changes flags. -/
def flagAction (cfg : Config) (a : FlagAction) (q : Request) : Handler Reply :=
  handled a.wakes (fun w _ => match q.requestId.bind w.db.controlRequests.find? with
    | some _ => {}
    | none => revisionJob cfg w.db) (flagControl cfg a q)

/-! ## `renew_tor_circuits` -/

def RenewalOutcome.text : RenewalOutcome → String
  | .pending => "pending"
  | .rejected => "rejected"
  | .failed => "failed"
  | .completed => "completed"

def acceptedRenewal : String := "Tor accepted a request for new future streams"

/-- `reason or "Tor accepted a request for new future streams"` -/
def Renewal.reason (r : Renewal) : String :=
  match r.failureReason with
  | some text => if text = "" then acceptedRenewal else text
  | none => acceptedRenewal

/-- A write to `tor_renewals` and its commit. -/
def Controls.commitRenewals {β : Type} (c : Controls) (e : Env)
    (renewals : Lib.Table Renewal.requestId) (b : β) : Except Exc β × Controls :=
  let committed := { c with world := { c.world with disk := c.world.db }, renewals }
  match e.sqlFault with
  | some .lost => (.error .sqlite, { c with world := { c.world with db := c.world.disk } })
  | some .kept => (.error .sqlite, committed)
  | none => (.ok b, committed)

/-- The check of the limit: an answer, or the time that was read and the ID of the request. -/
def checkLimit (interval : ℕ) (requestId : String) :
    Handler ((String × String) ⊕ (ℚ × String)) :=
  Prog.call fun c e =>
    let auditId := if requestId = "" then e.uuid else requestId
    let s : Renewals := { clock := e.time, table := c.renewals }
    match c.renewals.find? auditId with
    | some r =>
      if e.sqlFault.isSome then (.error .sqlite, c) else (.ok (.inl (r.outcome.text, r.reason)), c)
    | none =>
      c.commitRenewals e (s.checked interval ⟨0, auditId, .checking e.time⟩ e.time).table
        (if s.refuses interval e.time then .inl ("rejected", s.waitReason interval e.time)
        else .inr (e.time, auditId))

/-- The result of a request that was sent; `failure` is why it failed. -/
def settleRenewal (interval : ℕ) (current : ℚ) (auditId : String) (failure : Option String) :
    Handler (String × String) :=
  Prog.call fun c e =>
    c.commitRenewals e
      (c.renewals.modify
        (fun r => if r.requestId = auditId then Renewals.settled interval current failure r else r)
        (fun r => by split <;> simp [Renewals.requestId_settled]))
      (match failure with
        | none => ("completed", acceptedRenewal)
        | some text => ("failed", String.ofList (text.toList.take 512)))

/-- `request_newnym(db, request_id, session_id)` -/
def requestNewnym (interval : ℕ) (requestId : String) : Handler (String × String) :=
  if interval = 0 then return ("rejected", "Tor circuit renewal is disabled")
  else do
    match ← checkLimit interval requestId with
    | .inl result => return result
    | .inr (current, auditId) =>
      let failure ← Prog.look fun _ e => e.osFault.map fun _ => e.errorText
      settleRenewal interval current auditId failure

/-- The reply that a row holds. -/
def storedReply (c : ControlRow) : Reply := ⟨c.outcome, c.reason, some c.stateRevision, []⟩

/-- `control_renew_tor_circuits(db, request)` -/
def controlRenewTorCircuits (cfg : Config) (interval : ℕ) (q : Request) : Handler Reply :=
  match q.requestId, q.sessionId with
  | some requestId, some sessionId => do
    match ← onWorld (dbLook fun db _ => db.controlRequests.find? requestId) with
    | some c => return storedReply c
    | none =>
      let result ← requestNewnym interval requestId
      let (_, j) ← onWorld (withJob (fun w _ => revisionJob cfg w.db) (dbCommit fun db e =>
        .ok (storeReply cfg db "renew_tor_circuits" requestId sessionId result.1 result.2 e.text)))
      tellProjection j
      return ⟨result.1, result.2, none, []⟩
  | _, _ => return ⟨"rejected", Store.invalidRequest, none, []⟩

/-- `control_action(db, request)` -/
def controlAction (cfg : Config) (interval : ℕ) (q : Request) : Option Command → Handler Reply
  | some (.control .retryNow) => itemAction cfg true Store.controlRetryNow q
  | some (.control .excludeItem) => itemAction cfg false Store.controlExcludeItem q
  | some (.control .resumeNewGeneration) => itemAction cfg false Store.controlResumeNewGeneration q
  | some (.control .retryAccessDenied) => itemAction cfg false Store.controlRetryAccessDenied q
  | some (.control .setItemPriority) => itemAction cfg false Store.controlSetItemPriority q
  | some (.control .setRetryCooldown) => itemAction cfg false Store.controlSetRetryCooldown q
  | some .renewTorCircuits => controlRenewTorCircuits cfg interval q
  | some (.control .pauseAdmission) => flagAction cfg pauseAdmission q
  | some (.control .resumeAdmission) => flagAction cfg resumeAdmission q
  | some (.control .drainAndStop) => flagAction cfg drainAndStop q
  | some (.control .checkpointStop) => flagAction cfg checkpointStop q
  | none => return ⟨"rejected", "action is unavailable", none, []⟩

/-! ## What a handler answers -/

/-- The IDs of a request are strings. -/
def identified (q : Request) : Bool := q.requestId.isSome && q.sessionId.isSome

/-- The request is one that the handler over item IDs does not refuse. -/
def ItemAction.accepts (a : ItemAction) (q : Request) : Bool :=
  identified q && (itemIds (q.parameters.get "item_ids")).isSome && a.problem.isNone

/-- The request is one that the handler of the action does not refuse. -/
def accepts (q : Request) : Option Command → Bool
  | some (.control .retryNow) =>
    identified q && (Store.optionalItemIds (q.parameters.get "item_ids")).isSome
  | some (.control .excludeItem) => ItemAction.accepts Store.excludeItem q
  | some (.control .resumeNewGeneration) => ItemAction.accepts Store.resumeNewGeneration q
  | some (.control .retryAccessDenied) => ItemAction.accepts Store.retryAccessDenied q
  | some (.control .setItemPriority) =>
    ItemAction.accepts (Store.setItemPriority (q.parameters.get "priority")) q
  | some (.control .setRetryCooldown) =>
    ItemAction.accepts (Store.setRetryCooldown (q.parameters.get "cooldown_s") ⟨0, ""⟩) q
  | some _ => identified q
  | none => false

/-- The replies of the action are all in their rows. -/
def repliesFromRow : Option Command → Bool
  | some (.control .retryNow) | some (.control .pauseAdmission) | some (.control .resumeAdmission)
  | some (.control .drainAndStop) | some (.control .checkpointStop) => true
  | _ => false

/-- A request is refused, answered from its row, or recorded. -/
inductive OutcomeAnswers (db : Db) (q : Request) (accepted fromRow : Bool) : Outcome → Prop
  | refused (h : accepted = false) (reason : String) :
    OutcomeAnswers db q accepted fromRow (Store.rejected db reason)
  | replayed {id row} (h : accepted = true) (hid : q.requestId = some id)
    (hrow : db.controlRequests.find? id = some row) :
    OutcomeAnswers db q accepted fromRow (Store.replay db row)
  | recorded {id row o} (h : accepted = true) (hid : q.requestId = some id)
    (hnew : db.controlRequests.find? id = none) (hrow : o.db.controlRequests.find? id = some row)
    (hrevision : o.revision.isSome) (hreply : o.reply = storedReply row ↔ fromRow = true) :
    OutcomeAnswers db q accepted fromRow o

section
variable {db : Db} {runId : String} {q : Request} {clock : Clock}

theorem identified_eq_false
    (h : ∀ id session, q.requestId = some id → q.sessionId = some session → False) :
    identified q = false := by
  cases hid : q.requestId with
  | none => simp [identified, hid]
  | some id =>
    cases hsession : q.sessionId with
    | none => simp [identified, hsession]
    | some session => exact (h id session hid hsession).elim

theorem itemIds_ne_nil {v : PyVal} {ids : List Key} (h : itemIds v = some ids) : ids ≠ [] := by
  rintro rfl
  cases v with
  | list vs =>
    cases vs with
    | nil => cases h
    | cons v vs => simp [itemIds, Option.bind_eq_some_iff] at h
  | _ => cases h

/-- A dict that was written to is not empty. -/
theorem foldl_insert_ne_nil {ids : List Key} (h : ids ≠ []) (value : Key → PyVal) :
    ids.foldl (fun acc id => Provenance.insert id (value id) acc) [] ≠ [] := by
  obtain ⟨front, last, rfl⟩ := (List.eq_nil_or_concat' ids).resolve_left h
  rw [List.foldl_append, List.foldl_cons, List.foldl_nil]
  generalize front.foldl _ _ = items
  cases items with
  | nil => simp [Provenance.insert]
  | cons p items =>
    unfold Provenance.insert
    split <;> simp

theorem find?_auditControl (requestId sessionId action outcome reason recordedAt : String)
    (hnew : db.controlRequests.find? requestId = none) :
    (db.auditControl runId requestId sessionId action outcome reason
      recordedAt).controlRequests.find? requestId =
        some ⟨requestId, runId, sessionId, action, outcome, reason,
        (db.auditControl runId requestId sessionId action outcome reason recordedAt).revision runId,
        recordedAt⟩ := by
  show (db.controlRequests.insertNew _).find? requestId = _
  rw [Lib.Table.find?_insertNew, hnew, Option.none_or, if_pos rfl]
  rfl

/-- **The handlers over item IDs** keep the outcomes of the items to themselves. -/
theorem ItemAction.answers (a : ItemAction) :
    OutcomeAnswers db q (ItemAction.accepts a q) false (a.handle db runId q clock) := by
  unfold ItemAction.handle
  split
  · next requestId sessionId hid hsession =>
    split
    · next hids => exact .refused (by simp [ItemAction.accepts, hids]) _
    · next hproblem => exact .refused (by simp [ItemAction.accepts, hproblem]) _
    · next ids hids hproblem =>
      have haccepted : ItemAction.accepts a q = true := by
        simp [ItemAction.accepts, identified, hid, hsession, hids, hproblem]
      split
      · next row hrow => exact .replayed haccepted hid hrow
      · next hnew =>
        refine .recorded haccepted hid hnew (find?_auditControl _ _ _ _ _ _ hnew) rfl ?_
        -- the list of outcomes is not empty
        simp [storedReply, foldl_insert_ne_nil (itemIds_ne_nil hids)]
  · next hnone =>
    exact .refused (by simp [ItemAction.accepts, identified_eq_false hnone]) _

theorem retryNow_answers :
    OutcomeAnswers db q (accepts q (some (.control .retryNow))) true
      (Store.controlRetryNow db runId q clock) := by
  unfold Store.controlRetryNow
  split
  · next requestId sessionId hid hsession =>
    split
    · next hids => exact .refused (by simp [accepts, hids]) _
    · next ids hids =>
      have haccepted : accepts q (some (.control .retryNow)) = true := by
        simp [accepts, identified, hid, hsession, hids]
      split
      · next row hrow => exact .replayed haccepted hid hrow
      · next hnew =>
        exact .recorded haccepted hid hnew (find?_auditControl _ _ _ _ _ _ hnew) rfl
          ⟨fun _ => rfl, fun _ => rfl⟩
  · next hnone =>
    exact .refused (by simp [accepts, identified_eq_false hnone]) _

end

/-! ## What a call does -/

/-- A call is refused or answered from its row, and changes nothing, or it is recorded. -/
inductive Answers (q : Request) (accepted fromRow : Bool) (c : Controls) (r : Reply) :
    Controls → Prop
  | refused (h : accepted = false) : Answers q accepted fromRow c r c
  | replayed {id row} (h : accepted = true) (hid : q.requestId = some id)
    (hrow : c.world.db.controlRequests.find? id = some row) (hreply : r = storedReply row) :
    Answers q accepted fromRow c r c
  | recorded {id row c'} (h : accepted = true) (hid : q.requestId = some id)
    (hnew : c.world.db.controlRequests.find? id = none)
    (hdb : c'.world.db.controlRequests.find? id = some row)
    (hdisk : c'.world.disk.controlRequests.find? id = some row)
    (hreply : r = storedReply row ↔ fromRow = true) : Answers q accepted fromRow c r c'

section
variable {cfg : Config} {A : Env → Prop} {q : Request} {c c' : Controls} {r : Reply}

theorem ends_onWorld {α : Type} {p : Ctl α} {x : Except Exc α} :
    (onWorld p).Ends A c x c' ↔ ∃ world, p.Ends A c.world x world ∧ c' = { c with world } := by
  refine Prog.ends_focus ?_ ?_ ?_
  · exact fun _ _ => rfl
  · exact fun _ => rfl
  · exact fun _ _ _ => rfl

theorem ends_withJob {α : Type} {job : World → Env → Job} {f : World → Env → Except Exc α × World}
    {w w' : World} {a : α} {j : Job} (h : (withJob job (Prog.call f)).Ends A w (.ok (a, j)) w') :
    ∃ e, A e ∧ f w e = (.ok a, w') ∧ j = job w e := by
  obtain ⟨e, he, h⟩ := h
  refine ⟨e, he, ?_⟩
  dsimp only at h
  generalize f w e = y at h ⊢
  obtain ⟨b | b, w₁⟩ := y
  · cases h.1
  · obtain ⟨hx, rfl⟩ := Prog.ends_ret.1 h
    obtain ⟨rfl, rfl⟩ := Prod.mk.inj (Except.ok.inj hx)
    exact ⟨rfl, rfl⟩

theorem ends_of_withJob {α : Type} {job : World → Env → Job} {p : Ctl α} {w w' : World} {a : α}
    {j : Job} (h : (withJob job p).Ends A w (.ok (a, j)) w') : p.Ends A w (.ok a) w' := by
  cases p with
  | ret b =>
    obtain ⟨hx, rfl⟩ := h
    obtain ⟨rfl, -⟩ := Prod.mk.inj (Except.ok.inj hx)
    exact ⟨rfl, rfl⟩
  | raise x => cases h.1
  | act f k =>
    obtain ⟨e, he, h⟩ := h
    obtain ⟨b, w₁, hend, hx, rfl⟩ | ⟨_, hx, -⟩ := Prog.ends_bind.1 h
    · obtain ⟨rfl, -⟩ := Prod.mk.inj (Except.ok.inj hx)
      exact ⟨e, he, hend⟩
    · cases hx

/-- The world after the wake. -/
def World.woken (w : World) (wakes : Bool) : World :=
  { w with controlWake := w.controlWake || wakes }

theorem World.woken_false (w : World) : w.woken false = w := by
  rw [World.woken, Bool.or_false]

theorem World.woken_true (w : World) : w.woken true = { w with controlWake := true } := by
  rw [World.woken, Bool.or_true]

/-- What follows the transaction of a handler. -/
theorem ends_handled {wakes : Bool} {job : World → Env → Job} {p : Ctl (Reply × Bool)}
    (h : (handled wakes job p).Ends A c (.ok r) c') : ∃ accepted j w,
      (withJob job p).Ends A c.world (.ok ((r, accepted), j)) w ∧
        c' = { c with
          world := w.woken (accepted && wakes)
          projection := c.projection.map (·.performAll j) } := by
  obtain ⟨⟨⟨reply, accepted⟩, j⟩, c₁, h₁, h⟩ | ⟨_, hx, -⟩ := Prog.ends_bind.1 h
  · obtain ⟨w, hend, rfl⟩ := ends_onWorld.1 h₁
    obtain ⟨_, c₂, ⟨e₂, -, -, rfl⟩, h⟩ | ⟨_, hx, -⟩ := Prog.ends_bind.1 h
    · dsimp only at h
      refine ⟨accepted, j, w, ?_⟩
      split at h
      · next hwakes =>
        obtain ⟨_, c₃, h₃, hr, rfl⟩ | ⟨_, hx, -⟩ := Prog.ends_bind.1 h
        · obtain ⟨w₃, ⟨e₃, -, -, rfl⟩, rfl⟩ := ends_onWorld.1 h₃
          obtain rfl := Except.ok.inj hr
          exact ⟨hend, by rw [hwakes, World.woken_true]⟩
        · cases hx
      · next hwakes =>
        obtain ⟨hr, rfl⟩ := h
        obtain rfl := Except.ok.inj hr
        exact ⟨hend, by rw [Bool.eq_false_of_not_eq_true hwakes, World.woken_false]⟩
    · cases hx
  · cases hx

/-- A projection that is told nothing. -/
theorem told_nothing (c : Controls) :
    { c with projection := c.projection.map (·.performAll {}) } = c := by
  obtain ⟨world, projection, renewals⟩ := c
  cases projection <;> rfl

/-- **A handler that changes items** does what its outcome says. -/
theorem itemAction_answers {wakes accepted fromRow : Bool}
    {handler : Db → String → Request → Clock → Outcome}
    (ho : ∀ clock, OutcomeAnswers c.world.db q accepted fromRow
      (handler c.world.db cfg.runId q clock))
    (h : (itemAction cfg wakes handler q).Ends A c (.ok r) c') :
    Answers q accepted fromRow c r c' := by
  obtain ⟨committed, j, w, hend, rfl⟩ := ends_handled h
  unfold itemControl at hend
  obtain ⟨e, -, hf, rfl⟩ := ends_withJob hend
  have hidle : ∀ {o : Outcome}, o.revision = none →
      handler c.world.db cfg.runId q ⟨e.time, e.text⟩ = o → o.reply = r ∧
        { c with
          world := w.woken (committed && wakes)
          projection := c.projection.map
            (·.performAll (handler c.world.db cfg.runId q ⟨e.time, e.text⟩).job) } = c := by
    intro o hnone hhandler
    rw [hhandler] at hf ⊢
    dsimp only at hf
    rw [hnone] at hf
    cases hfault : e.sqlFault with
    | none =>
      rw [hfault] at hf
      obtain ⟨hok, rfl⟩ := Prod.mk.inj hf
      obtain ⟨hreply, rfl⟩ := Prod.mk.inj (Except.ok.inj hok)
      refine ⟨hreply, ?_⟩
      rw [Outcome.job, hnone, Bool.false_and, World.woken_false, told_nothing]
    | some fault => rw [hfault] at hf; cases fault <;> cases hf
  generalize hhandler : handler c.world.db cfg.runId q ⟨e.time, e.text⟩ = o at hidle hf
  have hanswers := ho ⟨e.time, e.text⟩
  rw [hhandler] at hanswers
  cases hanswers with
  | refused hrefused reason =>
    rw [(hidle rfl rfl).2]
    exact .refused hrefused
  | replayed haccepted hid hrow =>
    obtain ⟨rfl, hsame⟩ := hidle rfl rfl
    rw [hsame]
    exact .replayed haccepted hid hrow rfl
  | recorded haccepted hid hnew hrow hrevision hreply =>
    obtain ⟨revision, hrevision⟩ := Option.isSome_iff_exists.1 hrevision
    dsimp only at hf
    rw [hrevision] at hf
    cases hfault : e.sqlFault with
    | none =>
      rw [hfault] at hf
      obtain ⟨hok, rfl⟩ := Prod.mk.inj hf
      obtain ⟨rfl, rfl⟩ := Prod.mk.inj (Except.ok.inj hok)
      exact .recorded haccepted hid hnew hrow hrow hreply
    | some fault => rw [hfault] at hf; cases fault <;> cases hf

theorem find?_storeReply (cfg : Config) {db : Db} {requestId : String}
    (hnew : db.controlRequests.find? requestId = none)
    (action sessionId outcome reason recordedAt : String) :
    (storeReply cfg db action requestId sessionId outcome reason recordedAt).controlRequests.find?
      requestId = some ⟨requestId, cfg.runId, sessionId, action, outcome, reason,
        (storeReply cfg db action requestId sessionId outcome reason recordedAt).revision cfg.runId,
        recordedAt⟩ := by
  show (db.controlRequests.insertNew _).find? requestId = _
  rw [Lib.Table.find?_insertNew, hnew, Option.none_or, if_pos rfl]
  rfl

/-- **A handler that changes flags** replies what it stores. -/
theorem flagAction_answers {a : FlagAction} (ha : ∀ w, (a.effect w).db = w.db)
    (h : (flagAction cfg a q).Ends A c (.ok r) c') : Answers q (identified q) true c r c' := by
  obtain ⟨completed, j, w, hend, rfl⟩ := ends_handled h
  unfold flagControl at hend
  split at hend
  · next requestId sessionId hid hsession =>
    have hidentified : identified q = true := by simp [identified, hid, hsession]
    obtain ⟨e, -, hf, rfl⟩ := ends_withJob hend
    rw [hid]
    cases hrow : c.world.db.controlRequests.find? requestId with
    | some row =>
      rw [hrow] at hf
      obtain ⟨hok, rfl⟩ := Prod.mk.inj hf
      obtain ⟨rfl, rfl⟩ := Prod.mk.inj (Except.ok.inj hok)
      simp only [Option.bind_some, hrow]
      rw [Bool.false_and, World.woken_false, told_nothing]
      exact .replayed hidentified hid hrow rfl
    | none =>
      rw [hrow] at hf
      dsimp only at hf
      -- neither the refusal nor the effect touches the database
      generalize hflags : (if (a.refusal c.world).isSome = true then c.world
        else a.effect c.world) = w₁ at hf
      have hdb : w₁.db = c.world.db := by
        subst hflags
        split
        · rfl
        · exact ha c.world
      have hstored := find?_storeReply cfg (hdb ▸ hrow) a.action sessionId
        (if (a.refusal c.world).isSome = true then "rejected" else "completed")
        ((a.refusal c.world).getD a.reason) e.text
      cases hfault : e.sqlFault with
      | none =>
        rw [hfault] at hf
        obtain ⟨hok, rfl⟩ := Prod.mk.inj hf
        obtain ⟨rfl, rfl⟩ := Prod.mk.inj (Except.ok.inj hok)
        exact .recorded hidentified hid hrow hstored hstored ⟨fun _ => rfl, fun _ => rfl⟩
      | some fault => rw [hfault] at hf; cases fault <;> cases hf
  · next hnone =>
    obtain ⟨hok, rfl⟩ := hend
    obtain ⟨hreply, rfl⟩ := Prod.mk.inj (Except.ok.inj hok)
    obtain ⟨rfl, rfl⟩ := Prod.mk.inj hreply
    rw [Bool.false_and, World.woken_false, told_nothing]
    exact .refused (identified_eq_false hnone)

theorem commitRenewals_ok {β : Type} {e : Env} {renewals : Lib.Table Renewal.requestId} {b b' : β}
    (h : c.commitRenewals e renewals b = (.ok b', c')) : c'.world.db = c.world.db := by
  unfold Controls.commitRenewals at h
  dsimp only at h
  split at h
  · cases h
  · cases h
  · obtain ⟨-, rfl⟩ := Prod.mk.inj h
    rfl

/-- A request for new circuits leaves the other tables alone. -/
theorem requestNewnym_ok {interval : ℕ} {requestId : String} {result : String × String}
    (h : (requestNewnym interval requestId).Ends A c (.ok result) c') :
    c'.world.db = c.world.db := by
  unfold requestNewnym at h
  split at h
  · rw [h.2]
  · obtain ⟨checked, c₁, h₁, h⟩ | ⟨_, hx, -⟩ := Prog.ends_bind.1 h
    · have hdb : c₁.world.db = c.world.db := by
        obtain ⟨e, -, hcheck⟩ := Prog.ends_call.1 h₁
        dsimp only at hcheck
        split at hcheck
        · split at hcheck
          · cases hcheck
          · rw [(Prod.mk.inj hcheck).2]
        · exact commitRenewals_ok hcheck
      cases checked with
      | inl answer => rw [h.2, hdb]
      | inr sent =>
        obtain ⟨current, auditId⟩ := sent
        obtain ⟨failure, c₂, ⟨_, -, -, rfl⟩, h₂⟩ | ⟨_, hx, -⟩ := Prog.ends_bind.1 h
        · obtain ⟨e, -, hsettle⟩ := Prog.ends_call.1 h₂
          rw [commitRenewals_ok hsettle, hdb]
        · cases hx
    · cases hx

/-- **`renew_tor_circuits`** replies without the revision that it stores. -/
theorem renewTorCircuits_answers {interval : ℕ}
    (h : (controlRenewTorCircuits cfg interval q).Ends A c (.ok r) c') :
    Answers q (identified q) false c r c' := by
  unfold controlRenewTorCircuits at h
  split at h
  · next requestId sessionId hid hsession =>
    have hidentified : identified q = true := by simp [identified, hid, hsession]
    obtain ⟨stored, c₁, h₁, h⟩ | ⟨_, hx, -⟩ := Prog.ends_bind.1 h
    · obtain ⟨w, hlook, rfl⟩ := ends_onWorld.1 h₁
      obtain ⟨_, -, rfl, rfl⟩ := ends_dbLook_ok hlook
      cases hrow : c.world.db.controlRequests.find? requestId with
      | some row =>
        rw [hrow] at h
        obtain ⟨hr, rfl⟩ := h
        obtain rfl := Except.ok.inj hr
        exact .replayed hidentified hid hrow rfl
      | none =>
        rw [hrow] at h
        obtain ⟨result, c₂, h₂, h⟩ | ⟨_, hx, -⟩ := Prog.ends_bind.1 h
        · have hdb := requestNewnym_ok h₂
          obtain ⟨⟨_, j⟩, c₃, h₃, h⟩ | ⟨_, hx, -⟩ := Prog.ends_bind.1 h
          · obtain ⟨w₃, hcommit, rfl⟩ := ends_onWorld.1 h₃
            obtain ⟨e, -, hcommit, -⟩ := ends_withJob hcommit
            obtain ⟨_, c₄, ⟨_, -, -, rfl⟩, hr, rfl⟩ | ⟨_, hx, -⟩ := Prog.ends_bind.1 h
            · obtain rfl := Except.ok.inj hr
              cases hfault : e.sqlFault with
              | none =>
                rw [hfault] at hcommit
                obtain ⟨-, rfl⟩ := Prod.mk.inj hcommit
                have hstored := find?_storeReply cfg (hdb.symm ▸ hrow)
                  "renew_tor_circuits" sessionId result.1 result.2 e.text
                exact .recorded hidentified hid hrow hstored hstored
                  ⟨fun h => (by cases h), fun h => (by cases h)⟩
              | some fault => rw [hfault] at hcommit; cases fault <;> cases hcommit
            · cases hx
          · cases hx
        · cases hx
    · cases hx
  · next hnone =>
    obtain ⟨hr, rfl⟩ := h
    exact .refused (identified_eq_false hnone)

/-- **A call of `control_action`**. -/
theorem controlAction_answers {interval : ℕ} {command : Option Command}
    (h : (controlAction cfg interval q command).Ends A c (.ok r) c') :
    Answers q (accepts q command) (repliesFromRow command) c r c' := by
  cases command with
  | none =>
    obtain ⟨-, rfl⟩ := h
    exact .refused rfl
  | some command =>
    cases command with
    | renewTorCircuits => exact renewTorCircuits_answers h
    | control a =>
      cases a with
      | retryNow => exact itemAction_answers (fun _ => retryNow_answers) h
      | excludeItem => exact itemAction_answers (fun _ => ItemAction.answers _) h
      | resumeNewGeneration => exact itemAction_answers (fun _ => ItemAction.answers _) h
      | retryAccessDenied => exact itemAction_answers (fun _ => ItemAction.answers _) h
      | setItemPriority => exact itemAction_answers (fun _ => ItemAction.answers _) h
      | setRetryCooldown =>
        -- what the handler accepts does not depend on the clock
        have haccepts : ∀ clock, ItemAction.accepts
            (Store.setRetryCooldown (q.parameters.get "cooldown_s") clock) q =
              accepts q (some (.control .setRetryCooldown)) := fun _ => rfl
        exact itemAction_answers (fun clock => haccepts clock ▸ ItemAction.answers _) h
      | pauseAdmission => exact flagAction_answers (fun _ => rfl) h
      | resumeAdmission => exact flagAction_answers (fun _ => rfl) h
      | drainAndStop => exact flagAction_answers (fun _ => rfl) h
      | checkpointStop => exact flagAction_answers (fun _ => rfl) h

end

/-! ## What happens in between -/

/-- What happens between two calls. -/
inductive ControlsEvent where
  | event (ev : Event)
  | renewal (cfg : Config) (interval : ℕ) (q : Request) (answers : List Env)
  /-- other changes of the projection and of `tor_renewals` -/
  | outside (projection : Option Projection) (renewals : Lib.Table Renewal.requestId)

def Controls.happens (c : Controls) : ControlsEvent → Option Controls
  | .event ev => (c.world.happens ev).map fun world => { c with world }
  | .renewal cfg interval q answers =>
    ((controlRenewTorCircuits cfg interval q).execute c answers).map (·.2)
  | .outside projection renewals => some { c with projection, renewals }

/-- The request ID has this row. -/
def Answered (id : String) (row : ControlRow) (db : Db) : Prop :=
  db.controlRequests.find? id = some row

section
variable {cfg : Config} {P : Perms} {A : Env → Prop} {q : Request} {id : String} {row : ControlRow}
  {w w' : World} {e : Env}

theorem Step.answered (hs : Step cfg P w e w') : KeepsDb (Answered id row) w e w' := by
  intro h h'
  cases hs with
  | quiet hdb hdisk => exact ⟨hdb ▸ h, hdisk ▸ h'⟩
  | aside hrows hdisk =>
    have hdb : Answered id row w'.db := by
      rw [Answered, hrows.controlRequests]
      exact h
    refine ⟨hdb, ?_⟩
    rcases hdisk with hdisk | hdisk <;> rw [hdisk]
    · exact h'
    · exact hdb
  | rollback => exact ⟨h', h'⟩
  | transition _ _ hold => exact ⟨h, h⟩
  | failure _ hdb hdisk => exact ⟨hdb ▸ h, hdisk ▸ h'⟩
  | note => exact ⟨h, h'⟩
  | engine _ hdb hdisk => exact ⟨hdb ▸ h, hdisk ▸ h'⟩
  | importEntry => exact ⟨h, h'⟩
  | select => exact ⟨h, h'⟩

theorem answered_storeReply {db : Db} (a b d f g k : String) (h : Answered id row db) :
    Answered id row (storeReply cfg db a b d f g k) := Lib.Table.find?_insertNew_of_some h

theorem answered_commits {db : Db} {runId : String} {changed : List Store.Row} {u : Store.Update}
    {o : Outcome} (ho : o.Commits db runId changed u) (h : Answered id row db) :
    Answered id row o.db := by
  obtain ⟨_, _, _, _, _, hdb⟩ := ho.db_eq
  rw [hdb]
  exact Lib.Table.find?_insertNew_of_some h

/-- A control action keeps the rows of the others. -/
theorem along_control_answered {a : ControlAction} :
    (control cfg q a).Along A (KeepsDb (Answered id row)) w := by
  have hflag : ∀ (f : FlagAction), (∀ w, (f.effect w).db = w.db ∧ (f.effect w).disk = w.disk) →
      (andWake f.wakes (flagControl cfg f q)).Along A (KeepsDb (Answered id row)) w := fun f hf =>
    along_andWake ((uses_flagControl (fun _ _ _ _ _ _ _ h => answered_storeReply _ _ _ _ _ _ h) f hf
      q).along w)
  have hitem : ∀ {wakes : Bool} {handler : Db → String → Request → Clock → Outcome},
      (∀ clock, ∃ item : ItemAction,
        handler w.db cfg.runId q clock = item.handle w.db cfg.runId q clock) →
      (andWake wakes (itemControl cfg handler q)).Along A (KeepsDb (Answered id row)) w := by
    intro wakes handler hhandler
    refine along_andWake (along_itemControl fun clock h => ?_)
    obtain ⟨item, hitem⟩ := hhandler clock
    rw [hitem]
    rcases item.handle_cases w.db cfg.runId q clock with hidle | ⟨ids, -, hc, -⟩
    · rw [hidle.1]
      exact h
    · exact answered_commits hc h
  cases a with
  | retryNow =>
    refine along_andWake (along_itemControl fun clock h => ?_)
    rcases Store.retryNow_cases w.db cfg.runId q clock with hidle | ⟨changed, -, -, hc, -⟩
    · rw [hidle.1]
      exact h
    · exact answered_commits hc h
  | excludeItem => exact hitem fun _ => ⟨_, rfl⟩
  | resumeNewGeneration => exact hitem fun _ => ⟨_, rfl⟩
  | retryAccessDenied => exact hitem fun _ => ⟨_, rfl⟩
  | setItemPriority => exact hitem fun _ => ⟨_, rfl⟩
  | setRetryCooldown => exact hitem fun _ => ⟨_, rfl⟩
  | pauseAdmission => exact hflag _ fun _ => ⟨rfl, rfl⟩
  | resumeAdmission => exact hflag _ fun _ => ⟨rfl, rfl⟩
  | drainAndStop => exact hflag _ fun _ => ⟨rfl, rfl⟩
  | checkpointStop => exact hflag _ fun _ => ⟨rfl, rfl⟩

theorem uses_steps_answered (cfg : Config) {α : Type} {p : Ctl α}
    (hp : p.Uses (Step cfg allMoves)) : p.Uses (KeepsDb (Answered id row)) :=
  hp.mono fun _ _ _ => Step.answered

/-- **Every operation** keeps the rows of `control_requests`. -/
theorem along_operation_answered (op : Operation) :
    (op.program cfg).Along A (KeepsDb (Answered id row)) w := by
  have hsteps : ∀ {α : Type} {p : Ctl α}, p.Uses (Step cfg allMoves) →
      p.Along A (KeepsDb (Answered id row)) w := fun hp => (uses_steps_answered cfg hp).along w
  cases op with
  | importQueues => exact hsteps (uses_importQueues trivial)
  | scopeRun =>
    exact hsteps ((uses_scopeRun (fun _ _ _ => trivial) trivial).bind fun _ => Prog.uses_ret _)
  | reconcilePromotions => exact hsteps (uses_reconcilePromotions fun _ _ _ => trivial)
  | requeueInterruptedTransfers => exact along_requeue fun _ h => h
  | transition url toStatus detail fields =>
    exact hsteps (uses_transition trivial _ _ fun _ => fields.2)
  | claimRecheck url =>
    have hclaim : (claimRecheck url).Along A (KeepsDb (Answered id row)) w :=
      along_dbCommit fun _ _ hdb h => by
        obtain rfl := Except.ok.inj hdb
        exact h
    exact hclaim
  | control a q =>
    exact Prog.along_bind.2 ⟨along_control_answered, fun _ _ _ => (Prog.uses_ret _).along _⟩

/-- The row is in what the connection sees, and it is committed. -/
structure Controls.Keeps (c : Controls) (id : String) (row : ControlRow) : Prop where
  db : Answered id row c.world.db
  disk : Answered id row c.world.disk

theorem uses_onWorld {α : Type} {p : Ctl α} (hp : p.Uses (KeepsDb (Answered id row))) :
    (onWorld p).Uses fun c _ c' => c.Keeps id row → c'.Keeps id row := by
  refine hp.focus fun c e world h hc => ?_
  obtain ⟨hdb, hdisk⟩ := h hc.db hc.disk
  exact ⟨hdb, hdisk⟩

theorem uses_withJob {α : Type} {R : World → Env → World → Prop} {p : Ctl α}
    (job : World → Env → Job) (hp : p.Uses R) : (withJob job p).Uses R := by
  cases p with
  | ret a => trivial
  | raise x => trivial
  | act f k => exact ⟨hp.1, fun b => (hp.2 b.1).bind fun _ => Prog.uses_ret _⟩

theorem keeps_commitRenewals {β : Type} {c : Controls} (h : c.Keeps id row) (e : Env)
    (renewals : Lib.Table Renewal.requestId) (b : β) :
    (c.commitRenewals e renewals b).2.Keeps id row := by
  unfold Controls.commitRenewals
  dsimp only
  split
  · exact ⟨h.disk, h.disk⟩
  · exact ⟨h.db, h.db⟩
  · exact ⟨h.db, h.db⟩

theorem uses_requestNewnym (interval : ℕ) (requestId : String) :
    (requestNewnym interval requestId).Uses fun c _ c' => c.Keeps id row → c'.Keeps id row := by
  unfold requestNewnym
  split
  · trivial
  · refine Prog.Uses.bind (Prog.uses_call fun c e h => ?_) fun checked => ?_
    · dsimp only
      split
      · split <;> exact h
      · exact keeps_commitRenewals h e _ _
    · cases checked with
      | inl result => trivial
      | inr sent =>
        refine (Prog.uses_look _ fun _ _ h => h).bind fun failure => Prog.uses_call fun c e h => ?_
        exact keeps_commitRenewals h e _ _

/-- **A renewal** keeps the rows, too. -/
theorem uses_renewTorCircuits (interval : ℕ) :
    (controlRenewTorCircuits cfg interval q).Uses
      fun c _ c' => c.Keeps id row → c'.Keeps id row := by
  have hlook : ∀ f : Db → Env → Option ControlRow,
      (dbLook f).Uses (KeepsDb (Answered id row)) := fun f => Prog.uses_call fun w e => by
    split <;> exact .same rfl rfl
  have hstore : ∀ a b d f g : String, (dbCommit fun db e =>
      .ok (storeReply cfg db a b d f g e.text)).Uses (KeepsDb (Answered id row)) := by
    intro a b d f g
    refine Prog.uses_call fun w e => ?_
    have hstored : ∀ k, Answered id row w.db →
        Answered id row (storeReply cfg w.db a b d f g k) :=
      fun k => answered_storeReply a b d f g k
    cases hfault : e.sqlFault with
    | none => exact .commit (hstored _)
    | some fault =>
      cases fault with
      | lost => exact .rollback
      | kept => exact .commit (hstored _)
  unfold controlRenewTorCircuits
  split
  · refine (uses_onWorld (hlook _)).bind fun stored => ?_
    cases stored with
    | some c => trivial
    | none =>
      refine (uses_requestNewnym interval _).bind fun result => ?_
      refine (uses_onWorld (uses_withJob _ (hstore _ _ _ _ _))).bind fun told => ?_
      exact (Prog.uses_change fun c _ h => ⟨h.db, h.disk⟩).bind fun _ => Prog.uses_ret _
  · trivial

theorem Controls.Keeps.happens {c c' : Controls} (h : c.Keeps id row) {ev : ControlsEvent}
    (hev : c.happens ev = some c') : c'.Keeps id row := by
  cases ev with
  | event ev =>
    obtain ⟨world, hworld, rfl⟩ := Option.map_eq_some_iff.1 hev
    cases ev with
    | operation cfg op answers =>
      obtain ⟨⟨x, world⟩, hexec, rfl⟩ := Option.map_eq_some_iff.1 hworld
      have hend := Prog.ends_of_execute (A := fun _ => True) (fun _ _ => trivial) hexec
      obtain ⟨hdb, hdisk⟩ := ends_keepsDb (along_operation_answered op) h.db h.disk hend
      exact ⟨hdb, hdisk⟩
    | restart =>
      obtain rfl := Option.some.inj hworld
      exact ⟨h.disk, h.disk⟩
    | outside fs records =>
      obtain rfl := Option.some.inj hworld
      exact ⟨h.db, h.disk⟩
  | renewal cfg interval q answers =>
    obtain ⟨⟨x, t⟩, hexec, rfl⟩ := Option.map_eq_some_iff.1 hev
    have hend := Prog.ends_of_execute (A := fun _ => True) (fun _ _ => trivial) hexec
    exact (uses_renewTorCircuits interval).ends (I := fun c => c.Keeps id row) h hend
  | outside projection renewals =>
    obtain rfl := Option.some.inj hev
    exact ⟨h.db, h.disk⟩

end

/-! ## The second call -/

/-- Any answer of the environment. -/
def anyAnswer (_ : Env) : Prop := True

/-- The call is the one that recorded the request. -/
structure Controls.Records (c : Controls) (q : Request) (c' : Controls) : Prop where
  before : ∀ id, q.requestId = some id → c.world.disk.controlRequests.find? id = none
  after : ∃ id row, q.requestId = some id ∧ Answered id row c'.world.disk

/-- On the world a call of another action than `renew_tor_circuits` is an operation. -/
theorem ends_controlAction {A : Env → Prop} (hA : ∃ e, A e) {cfg : Config} {interval : ℕ}
    {q : Request} {a : ControlAction} {c c' : Controls} {r : Reply}
    (h : (controlAction cfg interval q (some (.control a))).Ends A c (.ok r) c') :
    (control cfg q a).Ends A c.world (.ok r) c'.world := by
  have hwake : ∀ {wakes : Bool} {job : World → Env → Job} {p : Ctl (Reply × Bool)},
      (handled wakes job p).Ends A c (.ok r) c' →
        (andWake wakes p).Ends A c.world (.ok r) c'.world := by
    intro wakes job p hend
    obtain ⟨accepted, j, w, hjob, rfl⟩ := ends_handled hend
    refine Prog.ends_bind.2 (.inl ⟨(r, accepted), w, ends_of_withJob hjob, ?_⟩)
    dsimp only
    cases hwakes : accepted && wakes with
    | true =>
      obtain ⟨e, he⟩ := hA
      exact Prog.ends_bind.2 (.inl ⟨(), _, ⟨e, he, rfl, rfl⟩, rfl, (World.woken_true w)⟩)
    | false => exact ⟨rfl, World.woken_false w⟩
  cases a <;> exact hwake h

/-- **A call** is one of the things that happen between two others. -/
theorem happens_controlAction {cfg : Config} {interval : ℕ} {q : Request} {command : Option Command}
    {c c' : Controls} {r : Reply}
    (h : (controlAction cfg interval q command).Ends anyAnswer c (.ok r) c') :
    GRun Controls.happens (fun _ _ => True) c c' := by
  cases command with
  | none =>
    obtain ⟨-, rfl⟩ := h
    exact .refl _
  | some command =>
    cases command with
    | renewTorCircuits =>
      obtain ⟨answers, -, hexec⟩ := Prog.execute_of_ends h
      have hexec : (controlRenewTorCircuits cfg interval q).execute c answers = some (.ok r, c') :=
        hexec
      exact (GRun.refl c).tail trivial
        (show c.happens (.renewal cfg interval q answers) = some c' by
          rw [Controls.happens, hexec, Option.map_some])
    | control a =>
      -- the operation on the world, and what it leaves to the projection
      have hend : ((Operation.control a q).program cfg).Ends anyAnswer c.world (.ok ()) c'.world :=
        Prog.ends_bind.2 (.inl ⟨r, c'.world, ends_controlAction ⟨{}, trivial⟩ h, rfl, rfl⟩)
      obtain ⟨answers, -, hexec⟩ := Prog.execute_of_ends hend
      have hworld : c.happens (.event (.operation cfg (.control a q) answers)) =
          some { c with world := c'.world } := by
        rw [Controls.happens, World.happens, hexec, Option.map_some, Option.map_some]
      exact ((GRun.refl c).tail trivial hworld).tail trivial
        (show Controls.happens _ (.outside c'.projection c'.renewals) = some c' from rfl)

section
variable {cfg cfg' : Config} {interval interval' : ℕ} {q q' : Request}
  {command command' : Option Command} {c₀ c₁ c₂ c₃ : Controls} {r r' : Reply}

/-- The call that recorded a request was not a replay. -/
theorem Answers.recorded_row {accepted fromRow : Bool}
    (h : Answers q accepted fromRow c₀ r c₁) (hrecords : c₀.Records q c₁) :
    ∃ id row, q.requestId = some id ∧ c₁.Keeps id row ∧ (r = storedReply row ↔ fromRow = true) := by
  have hsame : c₁ ≠ c₀ := by
    rintro rfl
    obtain ⟨id, row, hid, hrow⟩ := hrecords.after
    rw [Answered, hrecords.before id hid] at hrow
    cases hrow
  cases h with
  | refused => exact absurd rfl hsame
  | replayed => exact absurd rfl hsame
  | recorded _ hid _ hdb hdisk hreply => exact ⟨_, _, hid, ⟨hdb, hdisk⟩, hreply⟩

/-- **A recorded request that comes again** changes nothing; its handler replies as the first
    time exactly if the first reply is all in its row. -/
theorem replay_eq_iff
    (hfirst : (controlAction cfg interval q command).Ends anyAnswer c₀ (.ok r) c₁)
    (hrecords : c₀.Records q c₁) (hbetween : GRun Controls.happens (fun _ _ => True) c₁ c₂)
    (hid : q'.requestId = q.requestId)
    (hagain : (controlAction cfg' interval' q' command').Ends anyAnswer c₂ (.ok r') c₃) :
    c₃ = c₂ ∧ (accepts q' command' = true → (r' = r ↔ repliesFromRow command = true)) := by
  obtain ⟨id, row, hq, hkeeps, hreply⟩ := (controlAction_answers hfirst).recorded_row hrecords
  -- the row is there when the request comes again
  have hrow : c₂.Keeps id row := hbetween.invariant (Controls.Keeps · id row) hkeeps
    fun _ _ _ h _ hev => h.happens hev
  have hq' : q'.requestId = some id := hid.trans hq
  cases controlAction_answers hagain with
  | refused hrefused => exact ⟨rfl, fun h => by rw [h] at hrefused; cases hrefused⟩
  | replayed _ hid' hrow' hreply' =>
    obtain rfl := Option.some.inj (hid'.symm.trans hq')
    obtain rfl := Option.some.inj (hrow'.symm.trans hrow.db)
    refine ⟨rfl, fun _ => ?_⟩
    rw [hreply', ← hreply]
    exact eq_comm
  | recorded _ hid' hnew =>
    obtain rfl := Option.some.inj (hid'.symm.trans hq')
    rw [show _ = some row from hrow.db] at hnew
    cases hnew

end

/-! ## Two actions -/

/-- The reply of a call without a fault, and what it leaves. -/
def called (c : Controls) (q : Request) (command : Option Command) : Option (Reply × Controls) :=
  match (controlAction oneEntry 60 q command).execute c (List.replicate 3 {}) with
  | some (.ok r, c') => some (r, c')
  | _ => none

theorem ends_of_called {c c' : Controls} {q : Request} {command : Option Command} {r : Reply}
    (h : called c q command = some (r, c')) :
    (controlAction oneEntry 60 q command).Ends anyAnswer c (.ok r) c' := by
  unfold called at h
  split at h
  · next r₁ c₁ hexec =>
    obtain ⟨rfl, rfl⟩ := Prod.mk.inj (Option.some.inj h)
    exact Prog.ends_of_execute (fun _ _ => trivial) hexec
  · cases h

theorem ends_of_get {c : Controls} {q : Request} {command : Option Command}
    (h : (called c q command).isSome) : (controlAction oneEntry 60 q command).Ends anyAnswer c
      (.ok ((called c q command).get h).1) ((called c q command).get h).2 :=
  ends_of_called (Option.some_get h).symm

/-- The run has selected its entry. -/
def selected : Controls where
  world := (Lib.exec World.happens (fun _ _ => True) emptyWorld.emptied selectOne).get
    (by decide)

theorem keepsStatus_attempts : Store.Update.KeepsStatus [.attempts 1] := by decide

/-- The item becomes active, and the controller starts again. -/
def startedAgain : List ControlsEvent :=
  [.event (.operation oneEntry (.transition "https://host/set/a.bin" .active none
    ⟨[.attempts 1], keepsStatus_attempts⟩) [{}]), .event .restart]

/-- The first reply to `retry_now`, and what the call leaves. -/
def firstReply : Reply × Controls :=
  (called selected oneItem (some (.control .retryNow))).get (by decide)

def later : Controls :=
  (Lib.exec Controls.happens (fun _ _ => True) firstReply.2 startedAgain).get (by decide +kernel)

def secondReply : Reply × Controls :=
  (called later oneItem (some (.control .retryNow))).get (by decide +kernel)

/-- A request that is recorded in a computed run. -/
theorem records_of {c c' : Controls}
    (hbefore : c.world.disk.controlRequests.find? "request-1" = none)
    (hafter : (c'.world.disk.controlRequests.find? "request-1").isSome) : c.Records oneItem c' := by
  obtain ⟨row, hrow⟩ := Option.isSome_iff_exists.1 hafter
  refine ⟨?_, "request-1", row, rfl, hrow⟩
  rintro id hid
  obtain rfl := Option.some.inj hid
  exact hbefore

theorem replay_eq_iff_retryNow : secondReply.2 = later ∧
    (accepts oneItem (some (.control .retryNow)) = true →
      (secondReply.1 = firstReply.1 ↔ repliesFromRow (some (.control .retryNow)) = true)) := by
  have hrecords : selected.Records oneItem firstReply.2 :=
    records_of (by decide) (by decide +kernel)
  have hbetween : GRun Controls.happens (fun _ _ => True) firstReply.2 later :=
    GRun.of_exec (Option.some_get _).symm
  exact replay_eq_iff (ends_of_get _) hrecords hbetween rfl (ends_of_get _)

/-- The replay of `exclude_item` says nothing of its items. -/
theorem items_dropped : ¬ ∀ (cfg : Config) (interval : ℕ) (q : Request) (command : Option Command)
    (c₀ c₁ c₂ c₃ : Controls) (r r' : Reply),
    (controlAction cfg interval q command).Ends anyAnswer c₀ (.ok r) c₁ → c₀.Records q c₁ →
      GRun Controls.happens (fun _ _ => True) c₁ c₂ →
        (controlAction cfg interval q command).Ends anyAnswer c₂ (.ok r') c₃ →
          c₃ = c₂ ∧ r' = r := by
  intro h
  set first := called selected oneItem (some (.control .excludeItem)) with hfirst
  obtain ⟨⟨r, c₁⟩, hr⟩ : ∃ x, first = some x := Option.isSome_iff_exists.1 (by decide)
  set second := first.bind fun x => called x.2 oneItem (some (.control .excludeItem)) with hsecond
  obtain ⟨⟨r', c₂⟩, hr'⟩ : ∃ x, second = some x := Option.isSome_iff_exists.1 (by decide)
  have hrecords : selected.Records oneItem c₁ := by
    have hstored : first.all fun x =>
        (x.2.world.disk.controlRequests.find? "request-1").isSome := by decide
    rw [hr, Option.all_some] at hstored
    exact records_of (by decide) hstored
  have hitems : first.all fun x => x.1.items.length = 1 := by decide
  have hitems' : second.all fun x => x.1.items.length = 0 := by decide
  rw [hr, Option.all_some, decide_eq_true_eq] at hitems
  rw [hr', Option.all_some, decide_eq_true_eq] at hitems'
  have hagain : called c₁ oneItem (some (.control .excludeItem)) = some (r', c₂) := by
    rw [← hr', hsecond, hr]
    rfl
  obtain ⟨-, rfl⟩ := h oneEntry 60 oneItem _ selected c₁ c₁ c₂ r r' (ends_of_called (hfirst ▸ hr))
    hrecords (.refl c₁) (ends_of_called hagain)
  exact absurd (hitems'.symm.trans hitems) (by decide)

end TodDl.Controller
