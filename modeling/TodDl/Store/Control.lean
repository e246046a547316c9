/-
  The database — the control actions that change items (tod-dl.py,
  `control_*`).

  A handler validates the request, answers a request ID it has seen with the
  stored reply, and else changes the chosen rows, writes one `__control__` audit
  row, advances the revision and stores its reply, all in one transaction.  After
  the commit it tells the projection which rows changed: `Outcome.changes` are
  the pairs of images it passes to `apply_projection_change`, in order.

  Five handlers take a list of item IDs and differ in their `ItemAction` only.
-/
import TodDl.Provenance.Value
import TodDl.Store.Db

namespace TodDl.Store

open Provenance (PyVal Key)
open Db (Image)

/-- A control request; an ID that is not a string is `none`. -/
structure Request where
  requestId : Option String
  sessionId : Option String
  parameters : PyVal

/-- One reading of the clock: `time.time()` and the text of `now()`. -/
structure Clock where
  time : ℚ
  text : String

/-- The reply to a control request. -/
structure Reply where
  outcome : String
  reason : String
  stateRevision : Option ℕ := none
  items : List (Key × PyVal) := []

/-- What a handler leaves behind: the database, its reply, the images of the rows
    it changed, and the revision of its audit row if it wrote one. -/
structure Outcome where
  db : Db
  reply : Reply
  changes : List (Image × Image) := []
  revision : Option ℕ := none

/-- A reply that changes nothing. -/
def rejected (db : Db) (reason : String) : Outcome := ⟨db, ⟨"rejected", reason, none, []⟩, [], none⟩

/-- The reply stored for a request ID. -/
def replay (db : Db) (c : ControlRow) : Outcome :=
  ⟨db, ⟨c.outcome, c.reason, some c.stateRevision, []⟩, [], none⟩

def invalidRequest : String := "invalid control request"
def invalidItemIds : String := "item_ids must be a non-empty list of strings"

/-- A non-empty string as a dict key. -/
def itemIdKey : PyVal → Option Key
  | .str s => if s = "" then none else some (.str s)
  | .badStr codes => some (.badStr codes)
  | _ => none

/-- The check of `item_ids`: a non-empty list of non-empty strings. -/
def itemIds : PyVal → Option (List Key)
  | .list [] => none
  | .list vs => vs.mapM itemIdKey
  | _ => none

/-- `by_id.get(item_id)`: of two rows with one ID the later one counts. -/
def byId (rows : List Row) : Key → Option Row
  | .str id => rows.reverse.find? fun r => itemId r.url = id
  | _ => none

/-- The audit rows of a control action, in its transaction. -/
def Db.auditControl (db : Db) (runId requestId sessionId action outcome reason recordedAt : String) :
    Db :=
  let audited := (db.recordTransition ⟨"__control__", runId, .other "control", .other "control",
    some reason, recordedAt⟩).advanceRevision runId
  { audited with
    controlRequests := audited.controlRequests.insertNew
      ⟨requestId, runId, sessionId, action, outcome, reason, audited.revision runId, recordedAt⟩ }

/-! ## Actions on a list of items -/

/-- Where two handlers over a list of item IDs differ. -/
structure ItemAction where
  /-- the name of the action in `control_requests` -/
  action : String
  /-- why the action's own parameter is invalid, if it is -/
  problem : Option String := none
  eligible : Row → Bool
  /-- the outcome of a row that is not eligible -/
  refusal : Row → String
  /-- the outcome of an eligible row -/
  accepted : String
  update : Update
  /-- the postimage the handler builds from a preimage -/
  post : Image → Image
  /-- whether the handler passes the changed rows to the projection -/
  projected : Bool := true
  reason : ℕ → ℕ → String

namespace ItemAction
variable (a : ItemAction)

/-- `item_outcomes[item_id]` -/
def outcomeOf (rows : List Row) (id : Key) : String :=
  match byId rows id with
  | none => "rejected: item is outside the selected set"
  | some r => if a.eligible r then a.accepted else a.refusal r

/-- `changed_rows`: one row for each ID of the list that names an eligible row. -/
def changedRows (rows : List Row) (ids : List Key) : List Row :=
  ids.filterMap fun id => (byId rows id).filter a.eligible

/-- The handler of an action on a list of item IDs. -/
def handle (db : Db) (runId : String) (q : Request) (clock : Clock) : Outcome :=
  match q.requestId, q.sessionId with
  | some requestId, some sessionId =>
    match itemIds (q.parameters.get "item_ids"), a.problem with
    | none, _ => rejected db invalidItemIds
    | some _, some problem => rejected db problem
    | some ids, none =>
      match db.controlRequests.find? requestId with
      | some stored => replay db stored
      | none =>
        let rows := db.selected runId
        let changed := a.changedRows rows ids
        let urls := changed.map (·.url)
        let reason := a.reason changed.length ids.length
        let db' := (db.updateWhere (fun r => r.url ∈ urls)
            (a.update ++ [.updatedAt clock.text])).auditControl runId requestId sessionId
          a.action "completed" reason clock.text
        ⟨db', ⟨"completed", reason, some (db'.revision runId),
            ids.foldl (fun acc id => Provenance.insert id (.str (a.outcomeOf rows id)) acc) []⟩,
          if a.projected then changed.map fun r => (r.image, a.post r.image) else [],
          some (db'.revision runId)⟩
  | _, _ => rejected db invalidRequest

end ItemAction

def excludeItem : ItemAction where
  action := "exclude_item"
  eligible r := r.status ∈ excludableStatuses
  refusal r := "rejected: item is in " ++ r.status.text ++ ", not excludable"
  accepted := "excluded"
  update := [.status .excluded]
  post i := { i with status := .excluded }
  reason changed requested :=
    "excluded " ++ toString changed ++ " of " ++ toString requested ++ " requested item(s)"

def resumeNewGeneration : ItemAction where
  action := "resume_new_generation"
  eligible r := r.status = .reviewRequired && match r.reviewCode with
    | some code => code ∈ representationReviewCodes
    | none => false
  refusal r := "rejected: item is in " ++ r.status.text ++ ", not a representation-change review"
  accepted := "resumed under a new staging generation"
  update := [.status .queued, .reviewCode none, .lastError none, .etag none, .lastModified none,
    .nextRetryAt 0, .nextStagingGeneration]
  post i := { i with status := .queued, nextRetryAt := 0, lastError := none }
  reason changed requested :=
    "restarted " ++ toString changed ++ " of " ++ toString requested ++
      " requested item(s) under a new staging generation"

def retryAccessDenied : ItemAction where
  action := "retry_access_denied"
  eligible r := r.status = .reviewRequired && r.reviewCode = some "access_denied"
  refusal r := "rejected: item is in " ++ r.status.text ++ ", not an access-denied review"
  accepted := "returned to queued"
  update := [.status .queued, .reviewCode none, .lastError none, .nextRetryAt 0]
  post i := { i with status := .queued, nextRetryAt := 0, lastError := none }
  reason changed requested :=
    "retried " ++ toString changed ++ " of " ++ toString requested ++
      " requested access-denied item(s)"

/-- An integer (not a bool) of a range, as the handlers check it. -/
def intInRange (low high : ℤ) : PyVal → Option ℤ
  | .int i => if low ≤ i ∧ i ≤ high then some i else none
  | _ => none

def setItemPriority (priority : PyVal) : ItemAction where
  action := "set_item_priority"
  problem := if (intInRange (-5) 5 priority).isSome then none
    else some "priority must be an integer between -5 and 5"
  eligible r := r.status ∈ prioritizableStatuses
  refusal r := "rejected: item is in " ++ r.status.text ++ ", not prioritizable"
  accepted := "prioritized"
  update := [.priority ((intInRange (-5) 5 priority).getD 0)]
  post i := i
  projected := false
  reason changed requested :=
    "set priority to " ++ toString ((intInRange (-5) 5 priority).getD 0) ++ " for " ++
      toString changed ++ " of " ++ toString requested ++ " requested item(s)"

def setRetryCooldown (cooldown : PyVal) (clock : Clock) : ItemAction where
  action := "set_retry_cooldown"
  problem := if (intInRange 0 3600 cooldown).isSome then none
    else some "cooldown_s must be an integer between 0 and 3600"
  eligible r := r.status ∈ cooldownEligibleStatuses
  refusal r := "rejected: item is in " ++ r.status.text ++ ", not cooldown-eligible"
  accepted := "cooldown set"
  update := [.nextRetryAt (clock.time + (intInRange 0 3600 cooldown).getD 0)]
  post i := { i with nextRetryAt := clock.time + (intInRange 0 3600 cooldown).getD 0 }
  reason changed requested :=
    "set retry cooldown to " ++ toString ((intInRange 0 3600 cooldown).getD 0) ++ "s for " ++
      toString changed ++ " of " ++ toString requested ++ " requested item(s)"

section
variable (db : Db) (runId : String) (q : Request) (clock : Clock)

/-- `control_exclude_item(db, request)` -/
def controlExcludeItem : Outcome := excludeItem.handle db runId q clock

/-- `control_resume_new_generation(db, request)` -/
def controlResumeNewGeneration : Outcome := resumeNewGeneration.handle db runId q clock

/-- `control_retry_access_denied(db, request)` -/
def controlRetryAccessDenied : Outcome := retryAccessDenied.handle db runId q clock

/-- `control_set_item_priority(db, request)` -/
def controlSetItemPriority : Outcome :=
  (setItemPriority (q.parameters.get "priority")).handle db runId q clock

/-- `control_set_retry_cooldown(db, request)` -/
def controlSetRetryCooldown : Outcome :=
  (setRetryCooldown (q.parameters.get "cooldown_s") clock).handle db runId q clock

/-! ## `retry_now` -/

/-- The `item_ids` of `retry_now`: absent for every retryable item. -/
def optionalItemIds : PyVal → Option (Option (List Key))
  | .null => some none
  | v => (itemIds v).map some

/-- `dict(old, next_retry_at=0)` -/
def madeEligible (i : Image) : Image := { i with nextRetryAt := 0 }

/-- `control_retry_now(db, request)` -/
def controlRetryNow : Outcome :=
  match q.requestId, q.sessionId with
  | some requestId, some sessionId =>
    match optionalItemIds (q.parameters.get "item_ids") with
    | none => rejected db invalidItemIds
    | some ids =>
      match db.controlRequests.find? requestId with
      | some stored => replay db stored
      | none =>
        let candidates := (db.selected runId).filter fun r => r.status ∈ retryableStatuses
        let changed : List Row := match ids with
          | some wanted => candidates.filter fun r => Key.str (itemId r.url) ∈ wanted
          | none => candidates
        let urls := changed.map (·.url)
        let rowcount := (db.downloads.rows.filter fun r => r.url ∈ urls).length
        let reason := "made " ++ toString rowcount ++ " selected retryable item(s) eligible now"
        let db' := (db.updateWhere (fun r => r.url ∈ urls)
            [.nextRetryAt 0, .updatedAt clock.text]).auditControl runId requestId sessionId
          "retry_now" "completed" reason clock.text
        ⟨db', ⟨"completed", reason, some (db'.revision runId), []⟩,
          changed.map fun r => (r.image, madeEligible r.image),
          some (db'.revision runId)⟩
  | _, _ => rejected db invalidRequest

end

/-! ## What a handler commits -/

section
variable {db : Db} {runId : String}

@[simp] theorem Db.downloads_auditControl (db : Db) (runId a b c d e f : String) :
    (db.auditControl runId a b c d e f).downloads = db.downloads := rfl

@[simp] theorem Db.runItems_auditControl (db : Db) (runId a b c d e f : String) :
    (db.auditControl runId a b c d e f).runItems = db.runItems := rfl

/-- The audit row of a control action. -/
theorem Db.transitions_auditControl (db : Db) (runId a b c d e f : String) :
    (db.auditControl runId a b c d e f).transitions = db.transitions ++
      [⟨"__control__", runId, .other "control", .other "control", some e, f⟩] := rfl

theorem Db.revision_auditControl (db : Db) (runId a b c d e f : String) :
    (db.auditControl runId a b c d e f).revision runId = db.revision runId + 1 :=
  Db.revision_advanceRevision ..

/-- A request that commits nothing: it is rejected or answered from the table. -/
def Outcome.Idle (db : Db) (o : Outcome) : Prop := o.db = db ∧ o.changes = [] ∧ o.revision = none

/-- The IDs of the request are texts, and no earlier request had its ID. -/
def Request.Fresh (q : Request) (db : Db) : Prop :=
  q.requestId.isSome ∧ q.sessionId.isSome ∧ q.requestId.bind db.controlRequests.find? = none

instance (q : Request) (db : Db) : Decidable (q.Fresh db) :=
  inferInstanceAs (Decidable (_ ∧ _ ∧ _))

/-- A request that commits: the rows of the URLs of `changed` get the update. -/
structure Outcome.Commits (db : Db) (runId : String) (changed : List Row) (u : Update)
    (o : Outcome) : Prop where
  db_eq : ∃ requestId sessionId action reason text, o.db =
    (db.updateWhere (fun r => r.url ∈ changed.map (·.url)) u).auditControl runId requestId sessionId
      action "completed" reason text
  selected : ∀ r ∈ changed, r ∈ db.selected runId
  revision : o.revision = some (o.db.revision runId)

theorem byId_mem {rows : List Row} {id : Key} {r : Row} (h : byId rows id = some r) : r ∈ rows := by
  cases id with
  | str id => exact List.mem_reverse.1 (List.mem_of_find?_eq_some h)
  | badStr _ => cases h
  | other _ => cases h

namespace ItemAction
variable (a : ItemAction)

theorem mem_changedRows {rows : List Row} {ids : List Key} {r : Row}
    (h : r ∈ a.changedRows rows ids) : r ∈ rows ∧ a.eligible r = true := by
  obtain ⟨id, -, hid⟩ := List.mem_filterMap.1 h
  obtain ⟨hb, he⟩ := Option.filter_eq_some_iff.1 hid
  exact ⟨byId_mem hb, he⟩

/-- A request that is refused, or that was answered before, does nothing. -/
theorem handle_stale {db : Db} {q : Request} (runId : String) (clock : Clock)
    (h : ¬ q.Fresh db) : (a.handle db runId q clock).Idle db := by
  unfold handle
  split
  · next hid hsession =>
    split
    · exact ⟨rfl, rfl, rfl⟩
    · exact ⟨rfl, rfl, rfl⟩
    · split
      · exact ⟨rfl, rfl, rfl⟩
      · next hnew => exact absurd ⟨by simp [hid], by simp [hsession], by simp [hid, hnew]⟩ h
  · exact ⟨rfl, rfl, rfl⟩

/-- **What a handler over item IDs does**: nothing, or its commit. -/
theorem handle_cases (db : Db) (runId : String) (q : Request) (clock : Clock) :
    (a.handle db runId q clock).Idle db ∨
    ∃ ids, itemIds (q.parameters.get "item_ids") = some ids ∧
      (a.handle db runId q clock).Commits db runId (a.changedRows (db.selected runId) ids)
        (a.update ++ [.updatedAt clock.text]) ∧
      (a.handle db runId q clock).changes = if a.projected then
        (a.changedRows (db.selected runId) ids).map fun r => (r.image, a.post r.image) else [] := by
  have hrej : ∀ text, (rejected db text).Idle db := fun _ => ⟨rfl, rfl, rfl⟩
  have hrep : ∀ c, (replay db c).Idle db := fun _ => ⟨rfl, rfl, rfl⟩
  unfold handle
  split
  · split
    · exact .inl (hrej _)
    · exact .inl (hrej _)
    · next ids hids _ =>
      split
      · exact .inl (hrep _)
      · exact .inr ⟨ids, hids, ⟨⟨_, _, _, _, _, rfl⟩, fun r hr => (a.mem_changedRows hr).1, rfl⟩, rfl⟩
  · exact .inl (hrej _)

end ItemAction

theorem retryNow_cases (db : Db) (runId : String) (q : Request) (clock : Clock) :
    (controlRetryNow db runId q clock).Idle db ∨
    ∃ changed : List Row, (changed.map (·.url)).Nodup ∧
      (∀ r ∈ changed, r.status ∈ retryableStatuses) ∧
      (controlRetryNow db runId q clock).Commits db runId changed
        [.nextRetryAt 0, .updatedAt clock.text] ∧
      (controlRetryNow db runId q clock).changes =
        changed.map fun r => (r.image, madeEligible r.image) := by
  have hrej : ∀ text, (rejected db text).Idle db := fun _ => ⟨rfl, rfl, rfl⟩
  unfold controlRetryNow
  split
  · split
    · exact .inl (hrej _)
    · next ids _ =>
      split
      · exact .inl ⟨rfl, rfl, rfl⟩
      · set candidates := (db.selected runId).filter fun r => r.status ∈ retryableStatuses with hc
        have hcand : candidates.Sublist (db.selected runId) := List.filter_sublist
        have key : ∀ changed : List Row, changed.Sublist candidates →
            (changed.map (·.url)).Nodup ∧ (∀ r ∈ changed, r.status ∈ retryableStatuses) ∧
            (∀ r ∈ changed, r ∈ db.selected runId) := by
          intro changed h
          refine ⟨(db.nodup_selected runId).sublist ((h.trans hcand).map _), fun r hr => ?_,
            fun r hr => (h.trans hcand).subset hr⟩
          simpa using (List.mem_filter.1 (h.subset hr)).2
        cases ids with
        | none =>
          obtain ⟨h₁, h₂, h₃⟩ := key candidates (List.Sublist.refl _)
          exact .inr ⟨candidates, h₁, h₂, ⟨⟨_, _, _, _, _, rfl⟩, h₃, rfl⟩, rfl⟩
        | some wanted =>
          obtain ⟨h₁, h₂, h₃⟩ := key (candidates.filter fun r => Key.str (itemId r.url) ∈ wanted)
            List.filter_sublist
          exact .inr ⟨_, h₁, h₂, ⟨⟨_, _, _, _, _, rfl⟩, h₃, rfl⟩, rfl⟩
  · exact .inl (hrej _)

end

end TodDl.Store
