/-
  The controller — the shared connection (tod-dl.py, `transition`, `control_*`).

  All threads write through one connection.  `Call.script` are the statements of a
  call, under `db_lock`, in the order of the source; a call is none of them, all of
  them, or the ones before the statement that raises.  Nothing rolls back.

  `wholeAlong_of_closed`: while no call comes to a commit with writes of a failed
  call still open, every call is committed as a whole or not at all.
-/
import TodDl.Controller.Control
import TodDl.Lib.Transaction
import TodDl.Store.Mutation

namespace TodDl.Controller

open Lib (Statement Connection)
open Lib.Connection (OneCommit Settled idle oneCommit_commit)
open Lib.Statement (effects)
open Store (Db Request Row Status Update Clock ItemAction Mutation Job Projection TransitionRow itemIds)

variable (cfg : Config)

/-! ## The statements of a call -/

/-- The UPDATE of the changed rows, if there are any. -/
def updateChanged (changed : List Row) (u : Update) : List (Statement Db) :=
  if changed.isEmpty then []
  else [.write fun db => db.updateWhere (fun r => r.url ∈ changed.map (·.url)) u]

/-- `INSERT INTO control_requests …` with the revision that was read. -/
def insertRequest (requestId sessionId action outcome reason recordedAt : String) :
    Statement Db :=
  .write fun db => { db with
    controlRequests := db.controlRequests.insertNew
      ⟨requestId, cfg.runId, sessionId, action, outcome, reason, db.revision cfg.runId, recordedAt⟩ }

/-- The writes of an action on items, from the UPDATE to the commit. -/
def actionBody (requestId sessionId action : String) (changed : List Row) (u : Update)
    (reason recordedAt : String) : List (Statement Db) :=
  [.read, .read] ++ updateChanged changed u ++
    [.write fun db => db.recordTransition ⟨"__control__", cfg.runId, .other "control",
        .other "control", some reason, recordedAt⟩,
      .write fun db => db.advanceRevision cfg.runId, .read,
      insertRequest cfg requestId sessionId action "completed" reason recordedAt]

/-- The statements of a handler over item IDs. -/
def actionScript (a : ItemAction) (q : Request) (clock : Clock) (db : Db) : List (Statement Db) :=
  match q.requestId, q.sessionId with
  | some requestId, some sessionId =>
    match itemIds (q.parameters.get "item_ids"), a.problem with
    | some ids, none =>
      match db.controlRequests.find? requestId with
      | some _ => [.read]
      | none =>
        let changed := a.changedRows (db.selected cfg.runId) ids
        actionBody cfg requestId sessionId a.action changed (a.update ++ [.updatedAt clock.text])
          (a.reason changed.length ids.length) clock.text ++ [.commit]
    | _, _ => []
  | _, _ => []

/-- The statements of `control_retry_now`. -/
def retryScript (q : Request) (clock : Clock) (db : Db) : List (Statement Db) :=
  match q.requestId, q.sessionId with
  | some requestId, some sessionId =>
    match Store.optionalItemIds (q.parameters.get "item_ids") with
    | none => []
    | some ids =>
      match db.controlRequests.find? requestId with
      | some _ => [.read]
      | none =>
        let candidates := (db.selected cfg.runId).filter fun r => r.status ∈ Store.retryableStatuses
        let changed : List Row := match ids with
          | some wanted => candidates.filter fun r =>
              Provenance.Key.str (Store.itemId r.url) ∈ wanted
          | none => candidates
        let rowcount := (db.downloads.rows.filter fun r => r.url ∈ changed.map (·.url)).length
        actionBody cfg requestId sessionId "retry_now" changed
          [.nextRetryAt 0, .updatedAt clock.text]
          ("made " ++ toString rowcount ++ " selected retryable item(s) eligible now") clock.text ++
          [.commit]
  | _, _ => []

/-- The statements of `transition`. -/
def transitionScript (url : String) (toStatus : Status) (detail : Option String) (fields : Update)
    (recordedAt : String) (db : Db) : List (Statement Db) :=
  match db.downloads.find? url with
  | none => [.read]
  | some old => [.read,
      .write fun db => db.updateWhere (·.url = old.url)
        (Db.transitionUpdate toStatus fields recordedAt),
      .write fun db => db.recordTransition ⟨old.url, cfg.runId, old.status, toStatus, detail, recordedAt⟩,
      .write fun db => db.advanceRevision cfg.runId, .read, .read, .commit]

/-- The statements of a mutation. -/
def mutationScript (db : Db) : Mutation → List (Statement Db)
  | .transition url toStatus detail fields clock =>
    transitionScript cfg url toStatus detail fields clock.text db
  | .retryNow q clock => retryScript cfg q clock db
  | .excludeItem q clock => actionScript cfg Store.excludeItem q clock db
  | .resumeNewGeneration q clock => actionScript cfg Store.resumeNewGeneration q clock db
  | .retryAccessDenied q clock => actionScript cfg Store.retryAccessDenied q clock db
  | .setItemPriority q clock =>
    actionScript cfg (Store.setItemPriority (q.parameters.get "priority")) q clock db
  | .setRetryCooldown q clock =>
    actionScript cfg (Store.setRetryCooldown (q.parameters.get "cooldown_s") clock) q clock db

/-- The writes that store the reply of an action without items. -/
def replyScript (requestId sessionId action outcome reason recordedAt : String) :
    List (Statement Db) :=
  [.write fun db => db.advanceRevision cfg.runId, .read,
    insertRequest cfg requestId sessionId action outcome reason recordedAt, .commit]

/-- The statements of an action on the flags; `refusal` is why the flags refuse it. -/
def flagScript (a : FlagAction) (refusal : Option String) (q : Request) (recordedAt : String)
    (db : Db) : List (Statement Db) :=
  match q.requestId, q.sessionId with
  | some requestId, some sessionId =>
    match db.controlRequests.find? requestId with
    | some _ => [.read]
    | none => .read :: replyScript cfg requestId sessionId a.action
        (if refusal.isSome then "rejected" else "completed") (refusal.getD a.reason) recordedAt
  | _, _ => []

/-- A call under `db_lock`.  `renew_tor_circuits` is several: its transactions on
    `tor_renewals`, a table of its own, and the one that stores its reply. -/
inductive DbCall where
  | mutation (m : Mutation)
  | flags (a : FlagAction) (refusal : Option String) (q : Request) (recordedAt : String)
  | renewal (reads : ℕ)
  | renewed (requestId sessionId outcome reason recordedAt : String)

/-- The statements of a call. -/
def DbCall.script (db : Db) : DbCall → List (Statement Db)
  | .mutation m => mutationScript cfg db m
  | .flags a refusal q recordedAt => flagScript cfg a refusal q recordedAt db
  | .renewal reads => List.replicate reads .read ++ [.write id, .commit]
  | .renewed requestId sessionId outcome reason recordedAt =>
    replyScript cfg requestId sessionId "renew_tor_circuits" outcome reason recordedAt

/-- What the whole call makes of the database, and the projection calls that follow
    its commit. -/
def DbCall.commit (db : Db) : DbCall → Db × Job
  | .mutation m => m.commit cfg.runId db
  | .flags a refusal q recordedAt =>
    match q.requestId, q.sessionId with
    | some requestId, some sessionId =>
      match db.controlRequests.find? requestId with
      | some _ => (db, {})
      | none =>
        let db' := storeReply cfg db a.action requestId sessionId
          (if refusal.isSome then "rejected" else "completed") (refusal.getD a.reason) recordedAt
        (db', ⟨db'.revision cfg.runId, [.setRevision]⟩)
    | _, _ => (db, {})
  | .renewal _ => (db, {})
  | .renewed requestId sessionId outcome reason recordedAt =>
    let db' := storeReply cfg db "renew_tor_circuits" requestId sessionId outcome reason recordedAt
    (db', ⟨db'.revision cfg.runId, [.setRevision]⟩)

/-- The request a call answers; a transition answers none. -/
def DbCall.requestId : DbCall → Option String
  | .mutation (.transition ..) => none
  | .mutation (.retryNow q _) | .mutation (.excludeItem q _) | .mutation (.resumeNewGeneration q _)
  | .mutation (.retryAccessDenied q _) | .mutation (.setItemPriority q _)
  | .mutation (.setRetryCooldown q _) | .flags _ _ q _ => q.requestId
  | .renewal _ => none
  | .renewed requestId .. => some requestId

/-! ## Runs -/

/-- The shared connection and the projection. -/
structure Shared where
  db : Connection Db
  projection : Projection

/-- A call, and the statement that raises in it, counted from 0. -/
structure Attempt where
  call : DbCall
  fault : Option ℕ := none

namespace Attempt

/-- The statements that take effect. -/
def executed (a : Attempt) (db : Db) : List (Statement Db) :=
  match a.fault with
  | none => a.call.script cfg db
  | some k => (a.call.script cfg db).take k

/-- The call returns: no statement of it raises. -/
def returns (a : Attempt) (db : Db) : Bool :=
  match a.fault with
  | none => true
  | some k => (a.call.script cfg db).length ≤ k

/-- What the call leaves behind.  After an exception the transaction stays open. -/
def run (s : Shared) (a : Attempt) : Shared :=
  ⟨s.db.performAll (a.executed cfg s.db.working),
    if a.returns cfg s.db.working then s.projection.performAll (a.call.commit cfg s.db.working).2
    else s.projection⟩

/-- No commit is reached while a transaction of a failed call is open. -/
def Closed (s : Shared) (a : Attempt) : Prop :=
  s.db.inTransaction = true → ∀ t ∈ a.executed cfg s.db.working, t.isCommit = false

end Attempt

/-- What a status change is stored with. -/
structure Recorded (requestId : Option String) (db db' : Db) : Prop where
  revision : db'.revision cfg.runId = db.revision cfg.runId + 1
  statuses : ∀ url r r', db.downloads.find? url = some r → db'.downloads.find? url = some r' →
    r'.status ≠ r.status → ∃ t, db'.transitions = db.transitions ++ [t] ∧ t.runId = cfg.runId ∧
      if requestId.isSome then t.url = "__control__" else t.url = url ∧ t.fromStatus = r.status
  request : ∀ id, requestId = some id → ∃ c, db'.controlRequests.find? id = some c ∧
    (db.controlRequests.find? id = none → c.stateRevision = db'.revision cfg.runId)

/-- The call leaves what is committed and the projection as they were, or it returns and
    commits itself as a whole and nothing else. -/
def Whole (s : Shared) (a : Attempt) : Prop :=
  ((a.run cfg s).db.committed = s.db.committed ∧ (a.run cfg s).projection = s.projection) ∨
  (a.returns cfg s.db.working = true ∧
    (a.run cfg s).db.committed = (a.call.commit cfg s.db.committed).1 ∧
    (a.run cfg s).projection = s.projection.performAll (a.call.commit cfg s.db.committed).2 ∧
    Recorded cfg a.call.requestId s.db.committed (a.run cfg s).db.committed)

/-- A condition on every call of a sequence, each in the state it finds. -/
def Throughout (P : Shared → Attempt → Prop) : Shared → List Attempt → Prop
  | _, [] => True
  | s, a :: as => P s a ∧ Throughout P (a.run cfg s) as

variable {cfg} {db : Db}

/-! ## What a call stores -/

theorem insertRequest_of_none {requests : Lib.Table Store.ControlRow.requestId}
    {c : Store.ControlRow} (h : requests.find? c.requestId = none) :
    (requests.insertNew c).find? c.requestId = some c := by
  rw [Lib.Table.find?_insertNew, h, Option.none_or, if_pos rfl]

theorem recorded_audit (p : Row → Bool) (u : Update)
    (requestId sessionId action outcome reason recordedAt : String) :
    Recorded cfg (some requestId) db ((db.updateWhere p u).auditControl cfg.runId requestId sessionId
      action outcome reason recordedAt) := by
  have hrevision := Db.revision_auditControl (db.updateWhere p u) cfg.runId requestId sessionId action
    outcome reason recordedAt
  refine ⟨hrevision, fun url r r' _ _ _ => ⟨_, rfl, rfl, rfl⟩, fun id hid => ?_⟩
  obtain rfl := Option.some.inj hid
  cases hfind : db.controlRequests.find? requestId with
  | some c => exact ⟨c, Lib.Table.find?_insertNew_of_some hfind, nofun⟩
  | none =>
    exact ⟨_, insertRequest_of_none hfind, fun _ => rfl⟩

theorem recorded_reply (requestId sessionId action outcome reason recordedAt : String) :
    Recorded cfg (some requestId) db
      (storeReply cfg db action requestId sessionId outcome reason recordedAt) := by
  refine ⟨db.revision_advanceRevision cfg.runId, fun url r r' hr hr' hne => ?_, fun id hid => ?_⟩
  · obtain rfl := Option.some.inj (hr.symm.trans hr')
    exact absurd rfl hne
  · obtain rfl := Option.some.inj hid
    cases hfind : db.controlRequests.find? requestId with
    | some c => exact ⟨c, Lib.Table.find?_insertNew_of_some hfind, nofun⟩
    | none =>
      exact ⟨_, insertRequest_of_none hfind, fun _ => rfl⟩

theorem recorded_transition {url : String} {old : Row} (hold : db.downloads.find? url = some old)
    (toStatus : Status) (detail : Option String) (fields : Update) (recordedAt : String) :
    Recorded cfg none db (db.transitioned cfg.runId old toStatus detail fields recordedAt) := by
  refine ⟨?_, fun other r r' hr hr' hne => ?_, nofun⟩
  · exact Db.revision_advanceRevision ..
  · rw [Db.find?_transitioned, hr, Option.map_some, Option.some.injEq] at hr'
    split at hr'
    · next hurl =>
      have hother : r.url = other := Lib.Table.find?_key hr
      have hkey : old.url = url := Lib.Table.find?_key hold
      obtain rfl : other = url := hother.symm.trans (hurl.trans hkey)
      obtain rfl := Option.some.inj (hold.symm.trans hr)
      exact ⟨_, rfl, rfl, hkey, rfl⟩
    · exact absurd (congrArg Row.status hr'.symm) hne

/-! ## What the statements come to -/

theorem updateWhere_nil (u : Update) :
    db.updateWhere (fun r => r.url ∈ ([] : List Row).map (·.url)) u = db := by
  simp [Db.updateWhere, Lib.Table.modify]

theorem oneCommit_action (requestId sessionId action : String) (changed : List Row) (u : Update)
    (reason recordedAt : String) :
    OneCommit (actionBody cfg requestId sessionId action changed u reason recordedAt ++ [.commit]) := by
  have htail : OneCommit ([.write fun db => db.recordTransition ⟨"__control__", cfg.runId,
        .other "control", .other "control", some reason, recordedAt⟩,
      .write fun db => db.advanceRevision cfg.runId, .read,
      insertRequest cfg requestId sessionId action "completed" reason recordedAt] ++ [.commit]) :=
    .cons rfl (.cons rfl (.cons rfl (.cons rfl oneCommit_commit)))
  rw [actionBody, List.append_assoc, List.append_assoc]
  refine .cons rfl (.cons rfl (htail.append fun t ht => ?_))
  rw [updateChanged] at ht
  split at ht
  · cases ht
  · rw [List.mem_singleton.1 ht]
    rfl

theorem effects_action (requestId sessionId action : String) (changed : List Row) (u : Update)
    (reason recordedAt : String) :
    effects (actionBody cfg requestId sessionId action changed u reason recordedAt ++ [.commit]) db =
      (db.updateWhere (fun r => r.url ∈ changed.map (·.url)) u).auditControl cfg.runId requestId
        sessionId action "completed" reason recordedAt := by
  cases changed with
  | nil => rw [updateWhere_nil]; rfl
  | cons r rest => rfl

/-- Either a call only reads, or its statements commit it as a whole. -/
def Stands (cfg : Config) (db : Db) (requestId : Option String) (script : List (Statement Db))
    (commit : Db × Job) : Prop :=
  ((∀ t ∈ script, t = .read) ∧ commit = (db, {})) ∨
  (OneCommit script ∧ effects script db = commit.1 ∧
    (commit = (db, {}) ∨ Recorded cfg requestId db commit.1))

theorem stands_action (a : ItemAction) (q : Request) (clock : Clock) :
    Stands cfg db q.requestId (actionScript cfg a q clock db)
      ((a.handle db cfg.runId q clock).db, (a.handle db cfg.runId q clock).job) := by
  unfold actionScript ItemAction.handle
  cases q.requestId with
  | none => exact .inl ⟨nofun, rfl⟩
  | some requestId =>
    cases q.sessionId with
    | none => exact .inl ⟨nofun, rfl⟩
    | some sessionId =>
      cases itemIds (q.parameters.get "item_ids") with
      | none => exact .inl ⟨nofun, rfl⟩
      | some ids =>
        cases a.problem with
        | some problem => exact .inl ⟨nofun, rfl⟩
        | none =>
          dsimp only
          cases db.controlRequests.find? requestId with
          | some c => exact .inl ⟨fun t ht => List.mem_singleton.1 ht, rfl⟩
          | none => exact .inr ⟨oneCommit_action .., effects_action .., .inr (recorded_audit ..)⟩

theorem stands_retry (q : Request) (clock : Clock) :
    Stands cfg db q.requestId (retryScript cfg q clock db)
      ((Store.controlRetryNow db cfg.runId q clock).db,
        (Store.controlRetryNow db cfg.runId q clock).job) := by
  unfold retryScript Store.controlRetryNow
  cases q.requestId with
  | none => exact .inl ⟨nofun, rfl⟩
  | some requestId =>
    cases q.sessionId with
    | none => exact .inl ⟨nofun, rfl⟩
    | some sessionId =>
      cases Store.optionalItemIds (q.parameters.get "item_ids") with
      | none => exact .inl ⟨nofun, rfl⟩
      | some ids =>
        dsimp only
        cases db.controlRequests.find? requestId with
        | some c => exact .inl ⟨fun t ht => List.mem_singleton.1 ht, rfl⟩
        | none => exact .inr ⟨oneCommit_action .., effects_action .., .inr (recorded_audit ..)⟩

theorem stands_transition (url : String) (toStatus : Status) (detail : Option String)
    (fields : Update) (recordedAt : String) :
    Stands cfg db none (transitionScript cfg url toStatus detail fields recordedAt db)
      (Store.commitTransition cfg.runId url toStatus detail fields recordedAt db) := by
  unfold transitionScript Store.commitTransition Db.transition
  cases hold : db.downloads.find? url with
  | none => exact .inl ⟨fun t ht => List.mem_singleton.1 ht, rfl⟩
  | some old =>
    have hnew : (db.transitioned cfg.runId old toStatus detail fields recordedAt).downloads.find? url =
        some (if old.url = old.url then old.set (Db.transitionUpdate toStatus fields recordedAt)
          else old) := by
      rw [Db.find?_transitioned, hold, Option.map_some]
    refine .inr ⟨.cons rfl (.cons rfl (.cons rfl (.cons rfl (.cons rfl (.cons rfl
      oneCommit_commit))))), ?_, .inr ?_⟩
    · simp only [Option.map_some, hnew]
      rfl
    · simp only [Option.map_some, hnew]
      exact recorded_transition hold ..

theorem oneCommit_reply (requestId sessionId action outcome reason recordedAt : String) :
    OneCommit (replyScript cfg requestId sessionId action outcome reason recordedAt) :=
  .cons rfl (.cons rfl (.cons rfl oneCommit_commit))

theorem stands (call : DbCall) :
    Stands cfg db call.requestId (call.script cfg db) (call.commit cfg db) := by
  cases call with
  | mutation m =>
    cases m with
    | transition url toStatus detail fields clock => exact stands_transition ..
    | retryNow q clock => exact stands_retry ..
    | _ => exact stands_action ..
  | flags a refusal q recordedAt =>
    simp only [DbCall.script, DbCall.commit, DbCall.requestId, flagScript]
    cases q.requestId with
    | none => exact .inl ⟨List.forall_mem_nil _, rfl⟩
    | some requestId =>
      cases q.sessionId with
      | none => exact .inl ⟨List.forall_mem_nil _, rfl⟩
      | some sessionId =>
        dsimp only
        cases db.controlRequests.find? requestId with
        | some c => exact .inl ⟨fun t ht => List.mem_singleton.1 ht, rfl⟩
        | none => exact .inr ⟨.cons rfl (oneCommit_reply ..), rfl, .inr (recorded_reply ..)⟩
  | renewal reads =>
    refine .inr ⟨.append (.cons rfl oneCommit_commit) fun t ht => ?_, ?_, .inl rfl⟩
    · rw [List.eq_of_mem_replicate ht]
      rfl
    · rw [DbCall.script, Lib.Statement.effects_append,
        Lib.Connection.effects_read fun t ht => List.eq_of_mem_replicate ht]
      rfl
  | renewed requestId sessionId outcome reason recordedAt =>
    exact .inr ⟨oneCommit_reply .., rfl, .inr (recorded_reply ..)⟩

/-! ## Runs without a leak -/

variable {s : Shared} {a : Attempt}

theorem Attempt.settled_run (h : s.db.Settled) : (a.run cfg s).db.Settled := h.performAll

/-- **One call**: where no commit meets an open transaction, it is whole. -/
theorem Attempt.whole_of_closed (hs : s.db.Settled) (h : a.Closed cfg s) : Whole cfg s a := by
  obtain ⟨hread, hcommit⟩ | ⟨hone, heffects, hrecorded⟩ := stands a.call
  · have hexecuted : ∀ t ∈ a.executed cfg s.db.working, t = .read := by
      unfold executed
      split
      · exact hread
      · exact fun t ht => hread t (List.mem_of_mem_take ht)
    refine .inl ⟨congrArg _ (Lib.Connection.performAll_read hexecuted), ?_⟩
    simp only [run, hcommit]
    split <;> rfl
  · by_cases hreturns : a.returns cfg s.db.working = true
    · have hexecuted : a.executed cfg s.db.working = a.call.script cfg s.db.working := by
        unfold executed
        unfold returns at hreturns
        split
        · rfl
        · next heq =>
          rw [heq] at hreturns
          exact List.take_of_length_le (by simpa using hreturns)
      obtain ⟨t, ht, hc⟩ := hone.commits
      have hidle : s.db.inTransaction = false := by
        by_contra hopen
        have := h (by simpa using hopen) t (hexecuted ▸ ht)
        rw [hc] at this
        cases this
      have hworking := hs hidle
      have hrun : a.run cfg s = ⟨idle (a.call.commit cfg s.db.committed).1,
          s.projection.performAll (a.call.commit cfg s.db.committed).2⟩ := by
        rw [run, hexecuted, hone.performAll, heffects, if_pos hreturns, hworking]
      rw [hworking] at hrecorded hreturns
      obtain hnothing | hrecorded := hrecorded
      · rw [hnothing] at hrun
        exact .inl ⟨congrArg (·.db.committed) hrun, congrArg (·.projection) hrun⟩
      · exact .inr ⟨hworking ▸ hreturns, congrArg (·.db.committed) hrun,
          congrArg (·.projection) hrun, hrun ▸ hrecorded⟩
    · refine .inl ⟨?_, if_neg hreturns⟩
      unfold returns at hreturns
      split at hreturns
      · exact absurd rfl hreturns
      · next k heq =>
        refine Lib.Connection.committed_performAll ?_
        rw [executed, heq]
        exact hone.take (by simpa using hreturns)

/-- **All-or-nothing.**  In a run in which no call comes to a commit while writes of a failed
    call are open, every call is committed as a whole or leaves no trace. -/
theorem wholeAlong_of_closed (db : Db) (p : Projection) (as : List Attempt)
    (h : Throughout cfg (fun s a => a.Closed cfg s) ⟨idle db, p⟩ as) :
    Throughout cfg (Whole cfg) ⟨idle db, p⟩ as := by
  have hsettled : (Shared.mk (idle db) p).db.Settled := Lib.Connection.settled_idle db
  generalize Shared.mk (idle db) p = s at h hsettled
  induction as generalizing s with
  | nil => trivial
  | cons a as ih =>
    exact ⟨a.whole_of_closed hsettled h.1, ih _ h.2 (a.settled_run hsettled)⟩

/-! ## A statement that fails -/

def someRun : Config where
  runId := "run"
  destination := ["dest"]
  state := ["state"]

/-- A run of one queued item. -/
def queuedDb : Db where
  downloads := ⟨[{ url := "https://host/set/a.bin", relativePath := "set/a.bin", updatedAt := "" }],
    by decide⟩
  runItems := ⟨[⟨"run", "https://host/set/a.bin", 0⟩], by decide⟩

/-- The start of the item's transfer; the statement `fault` of the transition raises. -/
def startItem (fault : Option ℕ) : Attempt where
  call := .mutation (.transition "https://host/set/a.bin" .active none [] ⟨0, "now"⟩)
  fault := fault

/-- A pause that the operator asks for.  It is refused, since the failed transition stops the
    run; the refusal is stored like any other reply. -/
def askPause : Attempt where
  call := .flags pauseAdmission (some "admission cannot be paused while the run is stopping")
    ⟨some "request-1", some "session-1", .null⟩ "now"

/-- A transition whose UPDATE raises, a pause, and the transition again. -/
theorem wholeAlong_of_closed_startItem : Throughout someRun (Whole someRun)
    ⟨idle queuedDb, Projection.hydrate queuedDb "run" 0⟩
    [startItem (some 1), askPause, startItem none] :=
  wholeAlong_of_closed queuedDb _ _ ⟨nofun, nofun, nofun, trivial⟩

/-- The INSERT after the UPDATE of a transition raises; the pause commits the status. -/
theorem pause_commits_status : ¬ ∀ (cfg : Config) (db : Db) (p : Projection) (as : List Attempt),
    Throughout cfg (Whole cfg) ⟨idle db, p⟩ as := by
  intro h
  have hdb : ∀ p, (askPause.run someRun ((startItem (some 2)).run someRun ⟨idle queuedDb, p⟩)
      ).db.committed.downloads.rows.map (·.status) = [.active] := fun _ => rfl
  obtain ⟨-, hpause, -⟩ := h someRun queuedDb (Projection.hydrate queuedDb "run" 0)
    [startItem (some 2), askPause]
  obtain ⟨hsame, -⟩ | ⟨-, hwhole, -⟩ := hpause
  · have := hdb (Projection.hydrate queuedDb "run" 0)
    rw [hsame] at this
    cases this
  · have := hdb (Projection.hydrate queuedDb "run" 0)
    rw [hwhole] at this
    cases this

end TodDl.Controller
