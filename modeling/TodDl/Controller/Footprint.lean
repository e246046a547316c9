/-
  The controller — what a step of a program can do.

  `Step cfg P` lists the effects of the atomic steps on the database, the flags and
  the engines, as far as the permissions `P` go.  Each program is shown once to
  take such steps only; the invariants are derived from the list, not from the
  programs.  The file tree and the records are left out here.
-/
import TodDl.Controller.Transfer

namespace TodDl.Controller

open Lib (Path FileTree Errno Prog)
open Provenance (PyVal)
open Store (Db Row RunItem Status Update Assign)

/-- What a program may do besides looking. -/
structure Perms where
  /-- the statuses it may give an item -/
  moves : String → Status → Prop := fun _ _ => False
  /-- engines and the manifest -/
  engines : Prop := False
  /-- rows of the queue and of the selection -/
  imports : Prop := False

/-- Flags, settings and engines are as before. -/
structure SameFlags (w w' : World) : Prop where
  stop : w'.stopRequested = w.stopRequested
  drain : w'.drainRequested = w.drainRequested
  sigterm : w'.sigtermReceived = w.sigtermReceived
  sigint : w'.sigintReceived = w.sigintReceived
  failure : w'.localFailureCode = w.localFailureCode
  deadline : w'.deadline = w.deadline

structure SameEngines (w w' : World) : Prop where
  engines : w'.engines = w.engines
  manifest : w'.manifest = w.manifest
  manifests : w'.manifests = w.manifests

/-- The rows of items, selections, transitions and control requests are as before. -/
structure SameRows (db db' : Db) : Prop where
  downloads : db'.downloads = db.downloads
  runItems : db'.runItems = db.runItems
  transitions : db'.transitions = db.transitions
  controlRequests : db'.controlRequests = db.controlRequests

/-- The effects of one step. -/
inductive Step (cfg : Config) (P : Perms) (w : World) (e : Env) : World → Prop
  /-- files, records, worker slots, or nothing -/
  | quiet {w'} (hdb : w'.db = w.db) (hdisk : w'.disk = w.disk) (hf : SameFlags w w')
      (he : SameEngines w w') : Step cfg P w e w'
  /-- other tables, or a commit -/
  | aside {w'} (hrows : SameRows w.db w'.db) (hdisk : w'.disk = w.disk ∨ w'.disk = w'.db)
      (hf : SameFlags w w') (he : SameEngines w w') : Step cfg P w e w'
  /-- SQLite rolls the open transaction back -/
  | rollback : Step cfg P w e { w with db := w.disk }
  | transition {url status detail fields old text} (hp : P.moves url status)
      (hfields : Store.Update.KeepsStatus fields) (hold : w.db.downloads.find? url = some old) :
      Step cfg P w e { w with
        db := w.db.transitioned cfg.runId old status detail fields text
        disk := w.db.transitioned cfg.runId old status detail fields text }
  /-- a local failure stops the run -/
  | failure {w'} (code : String) (hdb : w'.db = w.db) (hdisk : w'.disk = w.disk)
      (hf : SameFlags { w with stopRequested := true, localFailureCode := some code } w')
      (he : SameEngines w w') : Step cfg P w e w'
  /-- a local failure is recorded -/
  | note (code : String) : Step cfg P w e { w with localFailureCode := some code }
  /-- an engine starts, ends or is recorded; the poll of an engine may find the
      deadline passed -/
  | engine {w'} (hp : P.engines) (hdb : w'.db = w.db) (hdisk : w'.disk = w.disk)
      (hf : SameFlags w w' ∨ (w.stopRequested || w.deadlinePassed e) = true ∧
        SameFlags { w with stopRequested := true } w') : Step cfg P w e w'
  | importEntry {url rel stored staging size sha generation time text} (hp : P.imports)
      (hslash : '/' ∈ url.toList) :
      Step cfg P w e { w with
        db := w.db.importEntry url rel stored staging size sha generation time text }
  | select {item} (hp : P.imports) : Step cfg P w e { w with db := w.db.insertRunItem item }

section
variable {cfg : Config} {P : Perms} {w : World} {e : Env}

@[refl] theorem SameFlags.refl (w : World) : SameFlags w w := ⟨rfl, rfl, rfl, rfl, rfl, rfl⟩
@[refl] theorem SameEngines.refl (w : World) : SameEngines w w := ⟨rfl, rfl, rfl⟩
@[refl] theorem SameRows.refl (db : Db) : SameRows db db := ⟨rfl, rfl, rfl, rfl⟩

theorem Step.nothing : Step cfg P w e w := .quiet rfl rfl (.refl w) (.refl w)

/-! ## The atomic steps -/

theorem uses_osCall {β : Type} (f : FileTree → Except Errno (β × FileTree)) :
    (osCall f).Uses (Step cfg P) := by
  refine Prog.uses_call fun w e => ?_
  split
  · exact .nothing
  · split
    · exact .nothing
    · exact .quiet rfl rfl ⟨rfl, rfl, rfl, rfl, rfl, rfl⟩ ⟨rfl, rfl, rfl⟩

theorem uses_osLook {β : Type} (f : FileTree → Except Errno β) : (osLook f).Uses (Step cfg P) :=
  uses_osCall _

theorem uses_osChange (f : FileTree → Except Errno FileTree) : (osChange f).Uses (Step cfg P) :=
  uses_osCall _

theorem uses_look {β : Type} (f : World → Env → β) :
    (Prog.look f : Ctl β).Uses (Step cfg P) := Prog.uses_look f fun _ _ => .nothing

theorem uses_dbLook {β : Type} (f : Db → Env → β) : (dbLook f).Uses (Step cfg P) := by
  refine Prog.uses_call fun w e => ?_
  split <;> exact .nothing

theorem uses_dbChange {f : Db → Env → Db}
    (h : ∀ w e, Step cfg P w e { w with db := f w.db e }) : (dbChange f).Uses (Step cfg P) := by
  refine Prog.uses_call fun w e => ?_
  split
  · exact .rollback
  · exact h w e

theorem uses_dbCommit {f : Db → Env → Except Exc Db}
    (h : ∀ w e db, f w.db e = .ok db → Step cfg P w e { w with db, disk := db }) :
    (dbCommit f).Uses (Step cfg P) := by
  refine Prog.uses_call fun w e => ?_
  split
  · exact .rollback
  · exact .nothing
  · next hf _ => exact h w e _ hf
  · next hf _ => exact h w e _ hf

/-- A commit of other tables. -/
theorem uses_dbCommit_aside {f : Db → Env → Db} (h : ∀ db e, SameRows db (f db e)) :
    (dbCommit fun db e => .ok (f db e)).Uses (Step cfg P) :=
  uses_dbCommit fun w e db hdb => by
    obtain rfl := Except.ok.inj hdb
    exact .aside (h w.db e) (.inr rfl) ⟨rfl, rfl, rfl, rfl, rfl, rfl⟩ ⟨rfl, rfl, rfl⟩

theorem uses_provenanceEvent (eventType : String) (fields : Env → List (String × PyVal)) :
    (provenanceEvent eventType fields).Uses (Step cfg P) := by
  refine Prog.uses_call fun w e => ?_
  split
  · exact .nothing
  · split
    · exact .quiet rfl rfl ⟨rfl, rfl, rfl, rfl, rfl, rfl⟩ ⟨rfl, rfl, rfl⟩
    · exact .failure "record_write" rfl rfl ⟨rfl, rfl, rfl, rfl, rfl, rfl⟩ ⟨rfl, rfl, rfl⟩
    · exact .quiet rfl rfl ⟨rfl, rfl, rfl, rfl, rfl, rfl⟩ ⟨rfl, rfl, rfl⟩

theorem uses_recordLocalFailure (code detail : String) :
    (recordLocalFailure code detail).Uses (Step cfg P) := by
  refine (Prog.uses_change fun w e => .note code).bind fun _ => ?_
  refine (uses_provenanceEvent _ _).handle fun x => ?_
  cases x <;> trivial

theorem uses_sqliteFailure : sqliteFailure.Uses (Step cfg P) := by
  refine (Prog.uses_change fun w e => ?_).bind fun _ =>
    (uses_recordLocalFailure _ _).bind fun _ => trivial
  exact .failure "database_write" rfl rfl ⟨rfl, rfl, rfl, rfl, rfl, rfl⟩ ⟨rfl, rfl, rfl⟩

theorem uses_transition {url : String} {status : Status} (hp : P.moves url status)
    (detail : Option String) (fields : Env → Update)
    (hfields : ∀ e, Store.Update.KeepsStatus (fields e)) :
    (transition cfg url status detail fields).Uses (Step cfg P) := by
  refine Prog.Uses.handle (uses_dbCommit fun w e db hdb => ?_) fun x => ?_
  · cases hold : w.db.downloads.find? url with
    | none => simp [Db.transition, hold] at hdb
    | some old =>
      simp only [Db.transition, hold, Option.map_some, Except.ok.injEq] at hdb
      subst hdb
      exact .transition hp (hfields e) hold
  · cases x <;> first | exact uses_sqliteFailure | trivial

theorem uses_attemptEvent (url : String) (number : ℕ) (startedAt outcome : String) :
    (attemptEvent cfg url number startedAt outcome).Uses (Step cfg P) := by
  have hend : (dbCommit fun db e =>
      .ok (db.recordAttemptEnd cfg.runId url number outcome e.text)).Uses (Step cfg P) :=
    uses_dbCommit_aside fun _ _ => ⟨rfl, rfl, rfl, rfl⟩
  refine (uses_look _).bind fun _ => (uses_provenanceEvent _ _).bind fun _ => ?_
  split
  · exact (Prog.uses_change fun w e =>
      .quiet rfl rfl ⟨rfl, rfl, rfl, rfl, rfl, rfl⟩ ⟨rfl, rfl, rfl⟩).bind fun _ => hend
  · exact hend

theorem uses_recordAttemptStart (url : String) (number : ℕ) (startedAt : String) :
    (recordAttemptStart cfg url number startedAt).Uses (Step cfg P) :=
  uses_dbCommit_aside fun _ _ => ⟨rfl, rfl, rfl, rfl⟩

theorem uses_finalizedEvent (url : String) (logical stored : PyVal) (byteCount : ℕ) (sha256 : String)
    (expectedSha256 : Option String) (sizeCompared : Bool) :
    (finalizedEvent url logical stored byteCount sha256 expectedSha256 sizeCompared).Uses
      (Step cfg P) := by
  refine Prog.Uses.bind ⟨fun w e =>
    .quiet rfl rfl ⟨rfl, rfl, rfl, rfl, rfl, rfl⟩ ⟨rfl, rfl, rfl⟩, fun _ => trivial⟩ fun _ => ?_
  exact (uses_dbLook _).bind fun _ => uses_provenanceEvent _ _

theorem uses_candidateEvent (url : String) (staging candidate : Path) (sha256 : Option String)
    (reason : String) : (candidateEvent cfg url staging candidate sha256 reason).Uses (Step cfg P) := by
  unfold candidateEvent
  split
  · exact uses_provenanceEvent _ _
  · trivial

/-! ## The startup programs -/

theorem uses_reconcileExistingFile {url : String} (h : ∀ s ∈ [Status.existingUnverified,
    .reviewRequired, .complete], P.moves url s) (logical stored : PyVal) (target : Path)
    (expectedSha256 : Option String) :
    (reconcileExistingFile cfg url logical stored target expectedSha256).Uses (Step cfg P) := by
  unfold reconcileExistingFile
  split
  · exact (uses_osLook _).bind fun _ => uses_transition (h _ (by simp)) _ _ fun _ => by simp
  · refine Prog.Uses.bind (.attempt ((uses_osLook _).bind fun _ => (uses_osLook _).bind fun _ =>
      trivial)) fun seen => ?_
    split
    · exact uses_transition (h _ (by simp)) _ _ fun _ => by simp
    · split
      · exact uses_transition (h _ (by simp)) _ _ fun _ => by simp
      · exact (uses_finalizedEvent ..).bind fun _ => uses_transition (h _ (by simp)) _ _ fun _ => by simp

theorem uses_scopeEntry (h : ∀ url, ∀ s ∈ [Status.existingUnverified, .reviewRequired, .complete],
    P.moves url s) (hi : P.imports) (entry : QueueEntry) (selected : ℕ) :
    (scopeEntry cfg entry selected).Uses (Step cfg P) := by
  unfold scopeEntry
  refine (uses_osLook _).bind fun _ => (uses_osLook _).bind fun there => ?_
  split
  · refine (uses_dbLook _).bind fun _ => ?_
    split
    · exact (uses_reconcileExistingFile (h _) _ _ _ _).bind fun _ => trivial
    · trivial
  · exact (uses_dbChange fun w e => .select hi).bind fun _ => trivial

theorem uses_scopeEntries (h : ∀ url, ∀ s ∈ [Status.existingUnverified, .reviewRequired, .complete],
    P.moves url s) (hi : P.imports) (entries : List QueueEntry) (selected : ℕ) :
    (scopeEntries cfg entries selected).Uses (Step cfg P) := by
  induction entries generalizing selected with
  | nil => trivial
  | cons entry rest ih =>
    unfold scopeEntries
    split
    · trivial
    · exact (uses_scopeEntry h hi _ _).bind ih

theorem uses_scopeRun (h : ∀ url, ∀ s ∈ [Status.existingUnverified, .reviewRequired, .complete],
    P.moves url s) (hi : P.imports) : (scopeRun cfg).Uses (Step cfg P) := by
  refine Prog.Uses.bind (uses_dbChange fun w e => ?_) fun _ => Prog.Uses.bind (uses_dbLook _) fun _ => ?_
  · exact .aside ⟨rfl, rfl, rfl, rfl⟩ (.inl rfl) ⟨rfl, rfl, rfl, rfl, rfl, rfl⟩ ⟨rfl, rfl, rfl⟩
  · unfold scopeSelection
    split
    · exact (uses_dbCommit_aside fun db _ => .refl db).bind fun _ => Prog.uses_ret _
    · refine (uses_scopeEntries h hi _ _).bind fun _ => ?_
      exact (uses_dbCommit_aside (f := fun db _ => db.advanceRevision cfg.runId)
        fun db _ => ⟨rfl, rfl, rfl, rfl⟩).bind fun _ => Prog.uses_ret _

theorem uses_importQueueEntry (hi : P.imports) (entry : QueueEntry) :
    (importQueueEntry cfg entry).Uses (Step cfg P) := by
  refine Prog.Uses.bind (uses_osLook _) fun _ => uses_dbChange fun w e => ?_
  exact .importEntry hi entry.hasSlash

theorem uses_importQueues (hi : P.imports) : (importQueues cfg).Uses (Step cfg P) :=
  (Prog.uses_forEach fun entry _ => uses_importQueueEntry hi entry).bind fun _ =>
    uses_dbCommit_aside fun db _ => .refl db

theorem uses_completePromotion {row : Row} (h : P.moves row.url .complete) (target : Path)
    (digest : String) : (completePromotion cfg row target digest).Uses (Step cfg P) := by
  unfold completePromotion
  refine (uses_osLook _).bind fun _ => (uses_finalizedEvent ..).bind fun _ => ?_
  exact (uses_osLook _).bind fun _ => uses_transition h _ _ fun _ => by simp

theorem uses_unlinkStaging {row : Row} (h : P.moves row.url .complete) (staging : Path) :
    (unlinkStaging cfg row staging).Uses (Step cfg P) := by
  unfold unlinkStaging
  exact (uses_osChange _).bind fun _ => uses_transition h _ _ fun _ => by simp

theorem uses_osCheck (f : FileTree → Bool) : (osCheck f).Uses (Step cfg P) := uses_look _

theorem uses_targetMatches (row : Row) : (targetMatches cfg row).Uses (Step cfg P) := by
  unfold targetMatches
  split
  · trivial
  · refine (uses_osCheck _).bind fun _ => ?_
    split
    · trivial
    · exact (uses_osLook _).bind fun _ => trivial

theorem uses_recreatable (row : Row) : (recreatable cfg row).Uses (Step cfg P) := by
  unfold recreatable
  split
  · split
    · trivial
    · refine (uses_osCheck _).bind fun _ => ?_
      split
      · trivial
      · refine (uses_osCheck _).bind fun _ => ?_
        split
        · trivial
        · exact uses_osCheck _
  · trivial

theorem uses_reconcilePromotion {row : Row} (h : ∀ s ∈ [Status.complete, .reviewRequired],
    P.moves row.url s) : (reconcilePromotion cfg row).Uses (Step cfg P) := by
  have hc := h .complete (by simp)
  have hr := h .reviewRequired (by simp)
  refine (Prog.Uses.attempt (uses_targetMatches row)).bind fun matched => ?_
  split
  · exact uses_transition hr _ _ fun _ => by simp
  · refine (uses_completePromotion hc _ _).bind fun _ => ?_
    split
    · refine (uses_osLook _).bind fun _ => ?_
      split
      · refine (uses_osLook _).bind fun _ => ?_
        split
        · exact uses_unlinkStaging hc _
        · trivial
      · trivial
    · trivial
  · refine (uses_recreatable row).bind fun _ => ?_
    split
    · refine (Prog.Uses.attempt (uses_osChange _)).bind fun _ => ?_
      split
      · exact uses_transition hr _ _ fun _ => by simp
      · exact (uses_osLook _).bind fun _ => (uses_completePromotion hc _ _).bind fun _ =>
          uses_unlinkStaging hc _
    · exact uses_transition hr _ _ fun _ => by simp

theorem uses_reconcilePromotions (h : ∀ url, ∀ s ∈ [Status.complete, .reviewRequired],
    P.moves url s) : (reconcilePromotions cfg).Uses (Step cfg P) := by
  unfold reconcilePromotions
  exact (uses_dbLook _).bind fun _ => Prog.uses_forEach fun _ _ => uses_reconcilePromotion (h _)

theorem uses_ensureSafeParent (target : Path) : (ensureSafeParent cfg target).Uses (Step cfg P) := by
  unfold ensureSafeParent
  split
  · trivial
  · refine (uses_osLook _).bind fun _ => ?_
    split
    · trivial
    · refine Prog.uses_forEach fun current _ => ?_
      refine (Prog.Uses.attempt (uses_osLook _)).bind fun _ => ?_
      split
      · exact uses_osChange _
      · refine (uses_osCheck _).bind fun _ => ?_
        split
        · trivial
        · refine (uses_osCheck _).bind fun _ => ?_
          split <;> trivial

theorem uses_cleanupCompletedStaging (h : ∀ url, ∀ s ∈ [Status.complete, .reviewRequired],
    P.moves url s) : (cleanupCompletedStaging cfg).Uses (Step cfg P) := by
  have hc := fun url => h url .complete (by simp)
  have hr := fun url => h url .reviewRequired (by simp)
  unfold cleanupCompletedStaging
  refine (uses_dbLook _).bind fun rows => Prog.uses_forEach fun row _ => ?_
  unfold cleanupCompleted
  refine Prog.Uses.handle ?_ fun exc => ?_
  · unfold cleanupStaging
    refine (uses_osCheck _).bind fun safe => ?_
    split
    · exact uses_transition (hr _) _ _ fun _ => by simp
    · refine (Prog.Uses.attempt (uses_osLook _)).bind fun seen => ?_
      split
      · exact uses_transition (hc _) _ _ fun _ => by simp
      · exact (uses_osChange _).bind fun _ => uses_transition (hc _) _ _ fun _ => by simp
      · exact uses_transition (hr _) _ _ fun _ => by simp
  · split
    · exact uses_transition (hc _) _ _ fun _ => by simp
    · trivial

theorem uses_remediationChecks (row : Row) : (remediationChecks cfg row).Uses (Step cfg P) := by
  unfold remediationChecks
  dsimp only
  split
  · trivial
  · refine (uses_osLook _).bind fun regular => ?_
    split
    · trivial
    · split
      · trivial
      · refine (uses_osLook _).bind fun digest => ?_
        split
        · trivial
        · refine Prog.Uses.bind ?_ fun mapped => (uses_ensureSafeParent _).bind fun _ =>
            (uses_osLook _).bind fun _ => trivial
          unfold safeRemediationTarget
          dsimp only
          split <;> trivial

theorem uses_remediateSafePaths (h : ∀ url, ∀ s ∈ [Status.complete, .reviewRequired, .promoting],
    P.moves url s) : (remediateSafePaths cfg).Uses (Step cfg P) := by
  have hc := fun url => h url .complete (by simp)
  have hr := fun url => h url .reviewRequired (by simp)
  have hp := fun url => h url .promoting (by simp)
  unfold remediateSafePaths
  refine (uses_dbLook _).bind fun rows => Prog.uses_forEach fun row _ => ?_
  unfold remediateSafePath
  refine (Prog.Uses.attempt (uses_remediationChecks row)).bind fun checked => ?_
  split
  · exact uses_transition (hr _) _ _ fun _ => by simp
  · refine (uses_transition (hp _) _ _ fun _ => by simp).bind fun _ => ?_
    refine (Prog.Uses.attempt ((uses_osChange _).bind fun _ => uses_osLook _)).bind fun linked => ?_
    split
    · exact uses_transition (hr _) _ _ fun _ => by simp
    · exact uses_transition (hr _) _ _ fun _ => by simp
    · unfold completeRemediation
      refine (uses_osLook _).bind fun _ => (uses_finalizedEvent ..).bind fun _ =>
        (uses_osLook _).bind fun _ => (uses_transition (hc _) _ _ fun _ => by simp).bind fun _ => ?_
      exact (uses_osChange _).bind fun _ => uses_transition (hc _) _ _ fun _ => by simp

/-- A surviving writer is an engine. -/
theorem uses_terminateSurvivingWriter {R : World → Env → World → Prop}
    (h : ∀ w e engines, R w e { w with engines }) (url : String) :
    (terminateSurvivingWriter cfg url).Uses R := by
  refine Prog.Uses.bind (Prog.uses_look _ fun w e => h w e w.engines) fun pid => ?_
  split
  · trivial
  · refine Prog.uses_call fun w e => ?_
    split
    · exact h w e w.engines
    · exact h w e _

/-- **The start of `run`**: beyond steps there are three bulk UPDATEs, and the deadline. -/
theorem uses_startup_of {R : World → Env → World → Prop}
    (hmoves : ∀ url, ∀ s ∈ [Status.complete, .existingUnverified, .reviewRequired, .promoting],
      P.moves url s) (he : P.engines) (hi : P.imports)
    (hsteps : ∀ w e w', Step cfg P w e w' → R w e w') (hmigrate : openDb.Uses R)
    (hrequeue : (dbChange fun db e => db.requeueInterrupted cfg.runId e.text).Uses R)
    (hretry : (dbChange fun db _ => db.resetRetryNow cfg.runId).Uses R)
    (hdeadline : ∀ w e d, R w e { w with deadline := d }) : (startup cfg).Uses R := by
  have hmoves' : ∀ {l : List Status}, (∀ s ∈ l, s ∈ [Status.complete, .existingUnverified,
      .reviewRequired, .promoting]) → ∀ url, ∀ s ∈ l, P.moves url s :=
    fun hl url s hs => hmoves url s (hl s hs)
  have hstep : ∀ {α : Type} {p : Ctl α}, p.Uses (Step cfg P) → p.Uses R := fun hp => hp.mono hsteps
  -- the manifest and the records are of a kind with the engines
  have hengine : ∀ {w e w'}, w'.db = w.db → w'.disk = w.disk → SameFlags w w' → R w e w' :=
    fun hdb hdisk hf => hsteps _ _ _ (.engine he hdb hdisk (.inl hf))
  have hwrite : (writeManifest cfg).Uses R := by
    refine Prog.uses_call fun w e => ?_
    split <;> exact hengine rfl rfl ⟨rfl, rfl, rfl, rfl, rfl, rfl⟩
  have hmanifest : ∀ m, (Prog.change fun w (_ : Env) => { w with manifest := m } : Ctl Unit).Uses R :=
    fun m => Prog.uses_change fun _ _ => hengine rfl rfl ⟨rfl, rfl, rfl, rfl, rfl, rfl⟩
  unfold startup
  refine (hstep (uses_osChange _)).bind fun _ => (hstep (uses_osChange _)).bind fun _ => ?_
  refine Prog.Uses.bind ?_ fun _ => hmigrate.bind fun _ =>
    (hstep (uses_importQueues hi)).bind fun _ => Prog.Uses.bind ?_ fun _ =>
    (hstep (uses_reconcilePromotions (hmoves' (by decide)))).bind fun _ =>
    (hstep (uses_scopeRun (hmoves' (by decide)) hi)).bind fun selected =>
    Prog.Uses.bind ?_ fun _ => (hstep (uses_provenanceEvent _ _)).bind fun _ =>
    (hstep (uses_cleanupCompletedStaging (hmoves' (by decide)))).bind fun _ =>
    (hstep (uses_remediateSafePaths (hmoves' (by decide)))).bind fun _ =>
    Prog.Uses.bind ?_ fun _ => ?_
  · unfold openManifest
    refine (hstep (uses_look _)).bind fun found => ?_
    dsimp only
    split
    · exact (hmanifest _).bind fun _ => hwrite
    · split
      · trivial
      · split
        · trivial
        · exact (hmanifest _).bind fun _ => hwrite
  · refine Prog.uses_call fun w e => ?_
    split <;> exact hengine rfl rfl ⟨rfl, rfl, rfl, rfl, rfl, rfl⟩
  · exact Prog.uses_change fun _ _ => hengine rfl rfl ⟨rfl, rfl, rfl, rfl, rfl, rfl⟩
  · unfold requeueInterruptedTransfers
    refine (hstep (uses_dbLook _)).bind fun urls => Prog.Uses.bind ?_ fun _ => hrequeue
    refine Prog.uses_forEach fun url _ => uses_terminateSurvivingWriter (fun w e engines => ?_) url
    exact hengine rfl rfl ⟨rfl, rfl, rfl, rfl, rfl, rfl⟩
  · have hend : ((dbCommit fun db _ => .ok db).bind fun _ => Prog.change fun w e => { w with
        deadline := if cfg.timeLimit = 0 then none else some (e.monotonic + cfg.timeLimit) } :
          Ctl Unit).Uses R :=
      (hstep (uses_dbCommit_aside fun db _ => .refl db)).bind fun _ =>
        Prog.uses_change fun _ _ => hdeadline _ _ _
    dsimp only
    split
    · exact hretry.bind fun _ => hend
    · exact hend

/-! ## The workers -/

/-- The statuses a worker gives its item. -/
def workerStatuses : List Status :=
  [.existingUnverified, .active, .reviewRequired, .queued, .unavailable, .retryWait, .promoting,
   .complete]

theorem uses_moveCandidate (staging : Path) : (moveCandidate cfg staging).Uses (Step cfg P) := by
  unfold moveCandidate
  refine (uses_osChange _).bind fun _ => Prog.Uses.bind (Prog.uses_call fun w e => ?_) fun _ =>
    (uses_osChange _).bind fun _ => (uses_osLook _).bind fun _ => ?_
  · dsimp only
    split
    · exact .nothing
    · exact .nothing
    · exact .quiet rfl rfl ⟨rfl, rfl, rfl, rfl, rfl, rfl⟩ ⟨rfl, rfl, rfl⟩
  · split
    · exact (uses_osChange _).bind fun _ => Prog.uses_ret _
    · trivial

theorem uses_clearTransferTelemetry (url : String) :
    (clearTransferTelemetry url).Uses (Step cfg P) :=
  Prog.uses_change fun _ _ => .quiet rfl rfl ⟨rfl, rfl, rfl, rfl, rfl, rfl⟩ ⟨rfl, rfl, rfl⟩

theorem uses_partialExists (staging : Path) : (partialExists staging).Uses (Step cfg P) := by
  unfold partialExists
  refine (uses_osLook _).bind fun _ => ?_
  split
  · exact (uses_osLook _).bind fun _ => trivial
  · trivial

theorem uses_stagedSize (staging : Path) : (stagedSize staging).Uses (Step cfg P) := by
  unfold stagedSize
  refine (uses_osLook _).bind fun _ => ?_
  split
  · exact uses_osLook _
  · trivial

theorem uses_leftComplete (ok : Bool) (staging : Path) :
    (leftComplete ok staging).Uses (Step cfg P) := by
  unfold leftComplete
  split
  · trivial
  · refine (uses_osLook _).bind fun _ => ?_
    split
    · trivial
    · exact (uses_osLook _).bind fun _ => trivial

theorem uses_confirm (f : World → List String) : (Prog.change fun w (_ : Env) =>
    { w with resumeConfirmed := f w } : Ctl Unit).Uses (Step cfg P) :=
  Prog.uses_change fun _ _ => .quiet rfl rfl ⟨rfl, rfl, rfl, rfl, rfl, rfl⟩ ⟨rfl, rfl, rfl⟩

theorem uses_reserveWorker (url : String) : (reserveWorker cfg url).Uses (Step cfg P) := by
  refine Prog.uses_call fun w e => ?_
  split
  · exact .nothing
  · exact .quiet rfl rfl ⟨rfl, rfl, rfl, rfl, rfl, rfl⟩ ⟨rfl, rfl, rfl⟩

theorem uses_probeRepresentation : probeRepresentation.Uses (Step cfg P) :=
  (uses_look _).bind fun _ => trivial

theorem uses_freshProbe (row : Row) : (freshProbe row).Uses (Step cfg P) := by
  unfold freshProbe
  split
  · trivial
  · exact uses_probeRepresentation

theorem uses_checkRepresentation (row : Row) : (checkRepresentation row).Uses (Step cfg P) := by
  unfold checkRepresentation
  refine uses_probeRepresentation.bind fun _ => ?_
  split <;> trivial

/-- Engines start, end and are recorded by `run_aria2` only. -/
theorem uses_runAria2 (hp : P.engines) (url : String) (staging : Path) :
    (runAria2 cfg url staging).Uses (Step cfg P) := by
  have hcapture : ∀ r, (captureResponse url r).Uses (Step cfg P) := fun r =>
    Prog.uses_change fun _ _ => .quiet rfl rfl ⟨rfl, rfl, rfl, rfl, rfl, rfl⟩ ⟨rfl, rfl, rfl⟩
  have hstart : (startEngine url staging).Uses (Step cfg P) := by
    refine Prog.uses_call fun w e => ?_
    split
    · exact .nothing
    · exact .engine hp rfl rfl (.inl ⟨rfl, rfl, rfl, rfl, rfl, rfl⟩)
  have hrecord : ∀ pid, (recordWorker cfg url pid).Uses (Step cfg P) := by
    intro pid
    refine Prog.Uses.bind (Prog.uses_change fun w e =>
      .engine hp rfl rfl (.inl ⟨rfl, rfl, rfl, rfl, rfl, rfl⟩)) fun _ => Prog.uses_call fun w e => ?_
    split
    · exact .nothing
    · exact .engine hp rfl rfl (.inl ⟨rfl, rfl, rfl, rfl, rfl, rfl⟩)
  have hawait : ∀ pid, (awaitEngine pid).Uses (Step cfg P) := by
    refine fun pid => ⟨fun w e => ?_, fun _ => trivial⟩
    dsimp only
    split
    · next hstop =>
      exact .engine hp rfl rfl (.inr ⟨(Bool.and_eq_true _ _ ▸ hstop).2, ⟨rfl, rfl, rfl, rfl, rfl, rfl⟩⟩)
    · exact .engine hp rfl rfl (.inl ⟨rfl, rfl, rfl, rfl, rfl, rfl⟩)
  unfold runAria2
  refine (uses_osChange _).bind fun _ => hstart.bind fun pid => (hrecord pid).bind fun _ =>
    (hawait pid).bind fun ended => ?_
  split
  · exact (uses_look _).bind fun _ => (hcapture _).bind fun _ => trivial
  · exact (hcapture _).bind fun _ => trivial

section
variable {url : String} (h : ∀ s ∈ workerStatuses, P.moves url s)
include h

theorem uses_enterRepresentationReview (staging : Path) (decision : String)
    (observed : Option HeadAnswer) :
    (enterRepresentationReview cfg url staging decision observed).Uses (Step cfg P) := by
  unfold enterRepresentationReview
  refine (uses_moveCandidate _).bind fun _ => (uses_candidateEvent ..).bind fun _ => ?_
  exact (uses_transition (h _ (by decide)) _ _ fun _ => by simp).bind fun _ =>
    uses_clearTransferTelemetry _

/-- A transition of the worker, and its release of the slot. -/
theorem uses_release {status : Status} (hs : status ∈ workerStatuses) (detail : Option String)
    (fields : Env → Update) (result : String)
    (hfields : ∀ e, Store.Update.KeepsStatus (fields e)) :
    ((transition cfg url status detail fields).bind fun _ =>
      (clearTransferTelemetry url).bind fun _ => .ret result).Uses (Step cfg P) :=
  (uses_transition (h _ hs) _ _ hfields).bind fun _ =>
    (uses_clearTransferTelemetry _).bind fun _ => trivial

end

section
variable {row : Row} (h : ∀ s ∈ workerStatuses, P.moves row.url s)
include h

theorem uses_recheckUnavailable : (recheckUnavailable cfg row).Uses (Step cfg P) := by
  unfold recheckUnavailable
  refine (uses_look _).bind fun answer => ?_
  split
  · trivial
  · split
    · trivial
    · refine (uses_partialExists _).bind fun _ => ?_
      split
      · exact (uses_enterRepresentationReview h _ _ _).bind fun _ => trivial
      · exact (uses_transition (h _ (by decide)) _ _ fun _ => by simp).bind fun _ => trivial

theorem uses_transferFailed (staging : Path) (startedAt error : String) :
    (transferFailed cfg row staging startedAt error).Uses (Step cfg P) := by
  unfold transferFailed
  refine (uses_stagedSize _).bind fun size => Prog.Uses.bind ?_ fun stopped => ?_
  · unfold stalled
    split
    · trivial
    · exact uses_dbLook _
  · split
    · refine (uses_attemptEvent ..).bind fun _ => (uses_moveCandidate _).bind fun _ => ?_
      refine (uses_candidateEvent ..).bind fun _ => (uses_osLook _).bind fun _ => ?_
      exact uses_release h (by decide) _ _ _ fun _ => by simp
    · split
      · refine Prog.Uses.bind (Prog.uses_change fun w e => ?_) fun _ => ?_
        · exact .quiet rfl rfl ⟨rfl, rfl, rfl, rfl, rfl, rfl⟩ ⟨rfl, rfl, rfl⟩
        · exact (uses_attemptEvent ..).bind fun _ => (uses_recordLocalFailure _ _).bind fun _ =>
            uses_release h (by decide) _ _ _ fun _ => by simp
      · split
        · exact (uses_attemptEvent ..).bind fun _ => uses_release h (by decide) _ _ _ fun _ => by simp
        · split
          · exact (uses_attemptEvent ..).bind fun _ => uses_release h (by decide) _ _ _ fun _ => by simp
          · exact (uses_look _).bind fun _ => (uses_attemptEvent ..).bind fun _ =>
              uses_release h (by decide) _ _ _ fun _ => by simp

theorem uses_transferRejected (staging : Path) (startedAt digest detail reason : String) :
    (transferRejected cfg row staging startedAt digest detail reason).Uses (Step cfg P) := by
  unfold transferRejected
  refine (uses_attemptEvent ..).bind fun _ => (uses_moveCandidate _).bind fun _ => ?_
  refine (uses_candidateEvent ..).bind fun _ => (uses_osLook _).bind fun _ => ?_
  exact uses_release h (by decide) _ _ _ fun _ => by simp

theorem uses_completeTransfer (stored : String) (staging target : Path) (digest : String)
    (sizeCompared : Bool) :
    (completeTransfer cfg row stored staging target digest sizeCompared).Uses (Step cfg P) := by
  unfold completeTransfer
  refine (uses_osLook _).bind fun _ => (uses_osLook _).bind fun _ => ?_
  refine (uses_finalizedEvent ..).bind fun _ => (uses_clearTransferTelemetry _).bind fun _ => ?_
  refine (uses_osLook _).bind fun _ =>
    (uses_transition (h _ (by decide)) _ _ fun _ => by simp).bind fun _ => ?_
  exact (uses_osChange _).bind fun _ =>
    (uses_transition (h _ (by decide)) _ _ fun _ => by simp).bind fun _ => trivial

theorem uses_promote (stored : String) (staging target : Path) (digest : String)
    (sizeCompared : Bool) :
    (promote cfg row stored staging target digest sizeCompared).Uses (Step cfg P) := by
  unfold promote
  refine Prog.Uses.bind (.attempt ?_) fun intent => ?_
  · refine (uses_ensureSafeParent _).bind fun _ => (uses_osLook _).bind fun _ => ?_
    exact (uses_osLook _).bind fun _ => uses_transition (h _ (by decide)) _ _ fun _ => by simp
  · split
    · exact (uses_osLook _).bind fun _ => uses_release h (by decide) _ _ _ fun _ => by simp
    · refine Prog.Uses.bind (.attempt (uses_osChange _)) fun linked => ?_
      split
      · refine (uses_moveCandidate _).bind fun _ => (uses_candidateEvent ..).bind fun _ => ?_
        exact (uses_osLook _).bind fun _ => uses_release h (by decide) _ _ _ fun _ => by simp
      · exact (uses_osLook _).bind fun _ => uses_release h (by decide) _ _ _ fun _ => by simp
      · exact uses_completeTransfer h _ _ _ _ _

theorem uses_validate (stored : String) (staging target : Path) (startedAt : String) :
    (validate cfg row stored staging target startedAt).Uses (Step cfg P) := by
  unfold validate
  refine Prog.Uses.bind (.attempt (uses_osLook _)) fun seen => ?_
  split
  · refine Prog.Uses.bind (Prog.Uses.handle (uses_osLook _) fun _ =>
      (uses_clearTransferTelemetry _).bind fun _ => trivial) fun digest => ?_
    split
    · exact uses_transferRejected h _ _ _ _ _
    · refine (uses_osLook _).bind fun _ => (uses_look _).bind fun _ => ?_
      split
      · split
        · exact uses_transferRejected h _ _ _ _ _
        · exact (uses_attemptEvent ..).bind fun _ => uses_promote h _ _ _ _ _
      · exact (uses_attemptEvent ..).bind fun _ => uses_promote h _ _ _ _ _
  · exact (uses_attemptEvent ..).bind fun _ => uses_release h (by decide) _ _ _ fun _ => by simp

theorem uses_transferAttempt (hp : P.engines) (stored : String) (staging target : Path)
    {fields : Update} (hfields : fields.KeepsStatus) :
    (transferAttempt cfg row stored staging target fields).Uses (Step cfg P) := by
  unfold transferAttempt
  refine (uses_look _).bind fun _ => Prog.Uses.bind (uses_transition (h _ (by decide)) _ _
    fun _ => ?_) fun _ => ?_
  · exact List.forall_mem_cons.2 ⟨rfl, hfields⟩
  refine (uses_recordAttemptStart ..).bind fun _ => Prog.Uses.bind (Prog.Uses.handle
    (uses_runAria2 hp _ _) fun _ => (uses_clearTransferTelemetry _).bind fun _ => trivial) fun ended => ?_
  obtain ⟨ok, error⟩ := ended
  refine (uses_leftComplete _ _).bind fun complete => ?_
  split
  · exact uses_validate h _ _ _ _
  · exact uses_transferFailed h _ _ _

/-- **What a transfer does**: transitions of its own item, and its engine. -/
theorem uses_transfer (hp : P.engines) : (transfer cfg row).Uses (Step cfg P) := by
  have hgeneration : (generationFields row).KeepsStatus := by
    unfold generationFields
    split <;> decide
  have hvalidators : ∀ o, (validatorFields o).KeepsStatus := by
    rintro (_ | o)
    · decide
    · simp [validatorFields]
  unfold transfer
  refine (uses_osLook _).bind fun _ => ?_
  split
  · exact (uses_osLook _).bind fun _ =>
      (uses_transition (h _ (by decide)) _ _ fun _ => by simp).bind fun _ => Prog.uses_ret _
  · refine (uses_confirm fun w => w.resumeConfirmed.filter (· ≠ row.url)).bind fun _ =>
      (uses_reserveWorker row.url).bind fun _ => (uses_partialExists _).bind fun _ => ?_
    split
    · refine (uses_freshProbe row).bind fun o => uses_transferAttempt h hp _ _ _ ?_
      exact List.forall_mem_append.2 ⟨hgeneration, hvalidators o⟩
    · split
      · refine (uses_checkRepresentation row).bind fun checked => ?_
        obtain ⟨decision, observed⟩ := checked
        dsimp only
        split
        · exact (uses_enterRepresentationReview h _ _ _).bind fun _ => Prog.uses_ret _
        · exact (uses_confirm fun w => w.resumeConfirmed ++ [row.url]).bind fun _ =>
            uses_transferAttempt h hp _ _ _ hgeneration
      · exact uses_transferAttempt h hp _ _ _ hgeneration

end

end

end TodDl.Controller
