/-
  The database — one row of `downloads` (tod-dl.py).

  A row has the columns of the table.  An `Update` is the SET clause of an UPDATE
  statement: columns and their new values, from left to right; no update changes
  the primary key `url`.
-/
import Mathlib.Data.Int.Notation
import Mathlib.Data.Rat.Init

namespace TodDl.Store

/-- A value of the column `status`. -/
inductive Status where
  | queued
  | admitted
  | active
  | running
  | promoting
  | complete
  | existingUnverified
  | reviewRequired
  | unavailable
  | excluded
  | retryWait
  | failed
  | pending
  /-- any other text -/
  | other (name : String)
  deriving DecidableEq

def Status.text : Status → String
  | .queued => "queued"
  | .admitted => "admitted"
  | .active => "active"
  | .running => "running"
  | .promoting => "promoting"
  | .complete => "complete"
  | .existingUnverified => "existing_unverified"
  | .reviewRequired => "review_required"
  | .unavailable => "unavailable"
  | .excluded => "excluded"
  | .retryWait => "retry_wait"
  | .failed => "failed"
  | .pending => "pending"
  | .other name => name

/-- `EXCLUDABLE_STATUSES` -/
def excludableStatuses : List Status :=
  [.queued, .active, .admitted, .retryWait, .failed, .reviewRequired, .unavailable]

/-- `PRIORITIZABLE_STATUSES` -/
def prioritizableStatuses : List Status := excludableStatuses

/-- `COOLDOWN_ELIGIBLE_STATUSES` -/
def cooldownEligibleStatuses : List Status := [.retryWait, .failed]

/-- `SCOPE_RUN_TRACKED_STATUSES` -/
def scopeRunTrackedStatuses : List Status :=
  [.complete, .existingUnverified, .reviewRequired, .excluded, .unavailable]

/-- `status IN ('queued', 'retry_wait', 'failed')` -/
def retryableStatuses : List Status := [.queued, .retryWait, .failed]

/-- `status IN ('active', 'running', 'admitted')` -/
def interruptedStatuses : List Status := [.active, .running, .admitted]

/-- `REPRESENTATION_REVIEW_CODES` -/
def representationReviewCodes : List String :=
  ["changed_remote_representation", "no_reliable_version_protection"]

/-- `DISPLAY_BUCKETS` -/
inductive Bucket where
  | queued
  | busy
  | retry
  | exhausted
  | complete
  | existingUnverified
  | reviewRequired
  | unavailable
  | excluded
  | unknown
  deriving DecidableEq

/-- `DISPLAY_BUCKETS` as a list. -/
def displayBuckets : List Bucket :=
  [.queued, .busy, .retry, .exhausted, .complete, .existingUnverified, .reviewRequired,
   .unavailable, .excluded, .unknown]

/-- `display_bucket(status, attempts, max_attempts)` -/
def displayBucket (status : Status) (attempts : ℕ) (maxAttempts : ℤ) : Bucket :=
  match status with
  | .complete => .complete
  | .active | .admitted | .promoting => .busy
  | .retryWait | .failed => if maxAttempts ≠ 0 ∧ maxAttempts ≤ attempts then .exhausted else .retry
  | .existingUnverified => .existingUnverified
  | .reviewRequired => .reviewRequired
  | .unavailable => .unavailable
  | .excluded => .excluded
  | .queued => .queued
  | .running | .pending | .other _ => .unknown

/-- A row of `downloads`. -/
structure Row where
  url : String
  relativePath : String
  storagePath : Option String := none
  stagingPath : Option String := none
  inventorySize : Option String := none
  expectedSha256 : Option String := none
  status : Status := .queued
  attempts : ℕ := 0
  bytes : Option ℕ := none
  sha256 : Option String := none
  lastError : Option String := none
  nextRetryAt : ℚ := 0
  promotionTarget : Option String := none
  promotionIntentAt : Option String := none
  cleanupCompletedAt : Option String := none
  reviewCode : Option String := none
  remediationReason : Option String := none
  remediationMappingVersion : Option String := none
  remediationOutcome : Option String := none
  remediationStartedAt : Option String := none
  remediationCompletedAt : Option String := none
  priority : ℤ := 0
  etag : Option String := none
  lastModified : Option String := none
  stagingGeneration : Option ℕ := none
  recheckAt : Option ℚ := none
  sourceGeneration : Option String := none
  earlyRecheck : ℕ := 0
  updatedAt : String

/-- One item of a SET clause. -/
inductive Assign where
  | storagePath (v : Option String)
  | stagingPath (v : Option String)
  | inventorySize (v : Option String)
  | expectedSha256 (v : Option String)
  | status (v : Status)
  | attempts (v : ℕ)
  | bytes (v : Option ℕ)
  | sha256 (v : Option String)
  | lastError (v : Option String)
  | nextRetryAt (v : ℚ)
  | promotionTarget (v : Option String)
  | promotionIntentAt (v : Option String)
  | cleanupCompletedAt (v : Option String)
  | reviewCode (v : Option String)
  | remediationReason (v : Option String)
  | remediationMappingVersion (v : Option String)
  | remediationOutcome (v : Option String)
  | remediationStartedAt (v : Option String)
  | remediationCompletedAt (v : Option String)
  | priority (v : ℤ)
  | etag (v : Option String)
  | lastModified (v : Option String)
  | stagingGeneration (v : Option ℕ)
  /-- `staging_generation=staging_generation+1` -/
  | nextStagingGeneration
  | recheckAt (v : Option ℚ)
  | sourceGeneration (v : Option String)
  | earlyRecheck (v : ℕ)
  | updatedAt (v : String)

def Assign.apply : Assign → Row → Row
  | .storagePath v, r => { r with storagePath := v }
  | .stagingPath v, r => { r with stagingPath := v }
  | .inventorySize v, r => { r with inventorySize := v }
  | .expectedSha256 v, r => { r with expectedSha256 := v }
  | .status v, r => { r with status := v }
  | .attempts v, r => { r with attempts := v }
  | .bytes v, r => { r with bytes := v }
  | .sha256 v, r => { r with sha256 := v }
  | .lastError v, r => { r with lastError := v }
  | .nextRetryAt v, r => { r with nextRetryAt := v }
  | .promotionTarget v, r => { r with promotionTarget := v }
  | .promotionIntentAt v, r => { r with promotionIntentAt := v }
  | .cleanupCompletedAt v, r => { r with cleanupCompletedAt := v }
  | .reviewCode v, r => { r with reviewCode := v }
  | .remediationReason v, r => { r with remediationReason := v }
  | .remediationMappingVersion v, r => { r with remediationMappingVersion := v }
  | .remediationOutcome v, r => { r with remediationOutcome := v }
  | .remediationStartedAt v, r => { r with remediationStartedAt := v }
  | .remediationCompletedAt v, r => { r with remediationCompletedAt := v }
  | .priority v, r => { r with priority := v }
  | .etag v, r => { r with etag := v }
  | .lastModified v, r => { r with lastModified := v }
  | .stagingGeneration v, r => { r with stagingGeneration := v }
  | .nextStagingGeneration, r => { r with stagingGeneration := r.stagingGeneration.map (· + 1) }
  | .recheckAt v, r => { r with recheckAt := v }
  | .sourceGeneration v, r => { r with sourceGeneration := v }
  | .earlyRecheck v, r => { r with earlyRecheck := v }
  | .updatedAt v, r => { r with updatedAt := v }

@[simp] theorem Assign.url_apply (a : Assign) (r : Row) : (a.apply r).url = r.url := by
  cases a <;> rfl

/-- The SET clause of an UPDATE. -/
abbrev Update := List Assign

def Row.set (r : Row) (u : Update) : Row := u.foldl (fun r a => a.apply r) r

@[simp] theorem Row.set_nil (r : Row) : r.set [] = r := rfl

@[simp] theorem Row.set_cons (r : Row) (a : Assign) (u : Update) :
    r.set (a :: u) = (a.apply r).set u := rfl

theorem Row.set_append (r : Row) (u v : Update) : r.set (u ++ v) = (r.set u).set v :=
  List.foldl_append ..

@[simp] theorem Row.url_set (r : Row) (u : Update) : (r.set u).url = r.url := by
  induction u generalizing r with
  | nil => rfl
  | cons a u ih => rw [Row.set_cons, ih, Assign.url_apply]

/-- The assignment leaves `status` alone. -/
def Assign.keepsStatus : Assign → Bool
  | .status _ => false
  | _ => true

/-- A SET clause that does not name `status`. -/
def Update.KeepsStatus (u : Update) : Prop := ∀ a ∈ u, a.keepsStatus = true

instance (u : Update) : Decidable u.KeepsStatus := inferInstanceAs (Decidable (∀ a ∈ u, _))

attribute [simp] Assign.keepsStatus

@[simp] theorem Update.keepsStatus_nil : Update.KeepsStatus [] := List.forall_mem_nil _

@[simp] theorem Update.keepsStatus_cons (a : Assign) (u : Update) :
    Update.KeepsStatus (a :: u) ↔ a.keepsStatus = true ∧ u.KeepsStatus := List.forall_mem_cons

@[simp] theorem Update.keepsStatus_append (u v : Update) :
    Update.KeepsStatus (u ++ v) ↔ u.KeepsStatus ∧ v.KeepsStatus := List.forall_mem_append

theorem Row.status_set {u : Update} (h : u.KeepsStatus) (r : Row) :
    (r.set u).status = r.status := by
  induction u generalizing r with
  | nil => rfl
  | cons a u ih =>
    rw [Row.set_cons, ih fun b hb => h b (List.mem_cons_of_mem _ hb)]
    have := h a List.mem_cons_self
    cases a <;> first | rfl | cases this

end TodDl.Store
