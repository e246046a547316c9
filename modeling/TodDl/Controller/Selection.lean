/-
  The controller — the selection of a run under crashes (tod-dl.py, `scope_run`).

  `scope_run` inserts the rows of `run_items` in one open transaction, but the
  transition of an existing final commits it in the middle.  As a batch of inserts
  with early commits (`World.reached`) the loop is an instance of `Lib.BatchStep`.

  `selectionAtomic_iff`: a crash and a restart leave the selection of a run
  without a crash exactly when this batch is not torn.
-/
import TodDl.Controller.Startup
import TodDl.Controller.Steps
import TodDl.Lib.Batch
import TodDl.Store.History

namespace TodDl.Controller

open Lib (Path FileTree Prog BatchStep)
open Provenance (PyVal)
open Store (Db Row RunItem Status Update Assign truthy scopeRunTrackedStatuses)

/-- The file has the expected digest. -/
def hasDigest (fs : FileTree) (target : Path) (expected : Option String) : Bool :=
  match fs.read target with
  | .ok bytes => some (Lib.Sha256.hexdigest bytes).toLower = expected.map String.toLower
  | .error _ => false

/-- The target of an entry. -/
def World.targetOf (cfg : Config) (w : World) (entry : QueueEntry) : Path :=
  (cfg.resolvedStorageTarget w.fs entry.rel entry.url).2

/-- What the open transaction sees of an entry.  A missing final is selected; one
    whose item is tracked is passed over; the transition of any other one commits,
    but a final with its expected digest fails the event, and an item without a row
    the transition. -/
def World.scopeStep (cfg : Config) (w : World) (entry : QueueEntry) : BatchStep :=
  if !w.fs.pathExists (w.targetOf cfg entry) then .insert
  else match (w.db.downloads.find? entry.url).map (·.status) with
    | none => .fail
    | some status =>
      if status ∈ scopeRunTrackedStatuses then .skip
      else if w.records.isSome && truthy entry.expectedSha256 &&
        hasDigest w.fs (w.targetOf cfg entry) entry.expectedSha256 then .fail
      else .commit

/-- The entries the loop reaches before it has selected enough. -/
def World.reached (cfg : Config) (w : World) : List QueueEntry → ℕ → List (QueueEntry × BatchStep)
  | [], _ => []
  | entry :: rest, selected =>
    if cfg.limitReached selected then []
    else (entry, w.scopeStep cfg entry) ::
      w.reached cfg rest (if w.scopeStep cfg entry = .insert then selected + 1 else selected)

/-- The rows of the selected entries. -/
def selection (runId : String) : List (QueueEntry × BatchStep) → ℕ → List RunItem
  | [], _ => []
  | (entry, step) :: rest, rank =>
    if step = .insert then ⟨runId, entry.url, rank⟩ :: selection runId rest (rank + 1)
    else selection runId rest rank

/-- The rows of a run in `run_items`. -/
def runRows (runId : String) (db : Db) : List RunItem := db.runItems.rows.filter (·.runId = runId)

/-! ## One entry -/

/-- A step that neither the database nor the selection notices. -/
structure Unmoved (w w' : World) : Prop where
  db : w'.db = w.db
  disk : w'.disk = w.disk
  fs : w'.fs = w.fs
  records : w'.records.isSome = w.records.isSome

/-- The commit of a transition that makes the item of a URL a tracked one. -/
structure Settled (url : String) (w w' : World) : Prop where
  runItems : w'.db.runItems = w.db.runItems
  disk : w'.disk = w'.db
  fs : w'.fs = w.fs
  records : w'.records.isSome = w.records.isSome
  others : ∀ u ≠ url, w'.db.downloads.find? u = w.db.downloads.find? u
  tracked : ∃ s ∈ scopeRunTrackedStatuses, (w'.db.downloads.find? url).map (·.status) = some s

section
variable {cfg : Config} {w w' w'' : World} {url : String}

@[refl] theorem Unmoved.refl (w : World) : Unmoved w w := ⟨rfl, rfl, rfl, rfl⟩

theorem Unmoved.trans (h : Unmoved w w') (h' : Unmoved w' w'') : Unmoved w w'' :=
  ⟨h'.db.trans h.db, h'.disk.trans h.disk, h'.fs.trans h.fs, h'.records.trans h.records⟩

theorem Unmoved.settled (h : Unmoved w w') (h' : Settled url w' w'') : Settled url w w'' :=
  ⟨h'.runItems.trans (by rw [h.db]), h'.disk, h'.fs.trans h.fs, h'.records.trans h.records,
    fun u hu => (h'.others u hu).trans (by rw [h.db]), h'.tracked⟩

theorem Unmoved.scopeStep (h : Unmoved w w') (entry : QueueEntry) :
    w'.scopeStep cfg entry = w.scopeStep cfg entry := by
  unfold World.scopeStep World.targetOf
  rw [h.fs, h.db, h.records]

theorem settled_moved {old : Row} {status : Status} {detail : Option String} {fields : Update}
    {text : String} (hold : w.db.downloads.find? url = some old)
    (hs : status ∈ scopeRunTrackedStatuses) (hf : fields.KeepsStatus) :
    Settled url w (w.moved cfg old status detail fields text) := by
  obtain rfl := Lib.Table.find?_key hold
  refine ⟨rfl, rfl, rfl, rfl, fun u hu => ?_, status, hs, ?_⟩
  · rw [World.moved, Db.find?_transitioned]
    cases hu' : w.db.downloads.find? u with
    | none => rfl
    | some r => rw [Option.map_some, if_neg (Lib.Table.find?_key hu' ▸ hu)]
  · rw [World.moved, Db.find?_transitioned, hold, Option.map_some, if_pos rfl, Option.map_some]
    exact congrArg some (Row.status_set hf _)

/-- A step of a transition of the item of a URL. -/
def Reconciles (url : String) (w w' : World) : Prop := Unmoved w w' ∨ Settled url w w'

theorem Reconciles.refl (url : String) (w : World) : Reconciles url w w := .inl (.refl w)

theorem Reconciles.trans (h : Reconciles url w w') (h' : Reconciles url w' w'') :
    Reconciles url w w'' := by
  rcases h, h' with ⟨h | h, h' | h'⟩
  · exact .inl (h.trans h')
  · exact .inr (h.settled h')
  · refine .inr ⟨by rw [h'.db, h.runItems], by rw [h'.disk, h'.db, h.disk], h'.fs.trans h.fs,
      h'.records.trans h.records, fun u hu => by rw [h'.db, h.others u hu], ?_⟩
    rw [h'.db]
    exact h.tracked
  · exact .inr ⟨h'.runItems.trans h.runItems, h'.disk, h'.fs.trans h.fs, h'.records.trans h.records,
      fun u hu => (h'.others u hu).trans (h.others u hu), h'.tracked⟩

theorem uses_provenanceEvent_unmoved (eventType : String) (fields : Env → List (String × PyVal)) :
    (provenanceEvent eventType fields).Uses fun w _ w' => Unmoved w w' := by
  refine Prog.uses_call fun w e => ?_
  split
  · exact .refl w
  · next hr => split <;> exact ⟨rfl, rfl, rfl, by simp [hr]⟩

/-- The event leaves the database alone, whether it fails or not. -/
theorem uses_finalizedEvent_unmoved (logical stored : PyVal) (byteCount : ℕ) (sha256 : String)
    (expected : Option String) (compared : Bool) :
    (finalizedEvent url logical stored byteCount sha256 expected compared).Uses
      fun w _ w' => Unmoved w w' := by
  refine Prog.Uses.bind ⟨fun w _ => ⟨rfl, rfl, rfl, rfl⟩, fun _ => trivial⟩ fun _ =>
    Prog.Uses.bind (Prog.uses_call fun w e => ?_) fun _ => uses_provenanceEvent_unmoved _ _
  split <;> exact .refl w

theorem ends_finalizedEvent_unmoved {A : Env → Prop} {logical stored : PyVal} {byteCount : ℕ}
    {sha256 : String} {expected : Option String} {compared : Bool} {x : Except Exc Unit}
    (h : (finalizedEvent url logical stored byteCount sha256 expected compared).Ends A w x w') :
    Unmoved w w' :=
  ((uses_finalizedEvent_unmoved _ _ _ _ _ _).mono fun _ _ _ hu (hI : Unmoved w _) => hI.trans hu).ends
    (.refl w) h

theorem uses_transition_reconciles {status : Status} {detail : Option String} {fields : Env → Update}
    (hs : status ∈ scopeRunTrackedStatuses) (hf : ∀ e, (fields e).KeepsStatus) :
    (transition cfg url status detail fields).Uses fun w e w' => Calm e → Reconciles url w w' := by
  refine Prog.Uses.handle (Prog.uses_call fun w e he => ?_) fun x => ?_
  · rw [he.2]
    cases hold : w.db.downloads.find? url with
    | none => simpa [Db.transition, hold] using Reconciles.refl url w
    | some old =>
      simp only [Db.transition, hold, Option.map_some]
      exact .inr (settled_moved hold hs (hf e))
  · split
    · refine Prog.Uses.bind (Prog.uses_change fun _ _ _ => .inl ⟨rfl, rfl, rfl, rfl⟩) fun _ =>
        Prog.Uses.bind ?_ fun _ => trivial
      refine Prog.Uses.bind (Prog.uses_change fun _ _ _ => .inl ⟨rfl, rfl, rfl, rfl⟩) fun _ =>
        Prog.Uses.handle ((uses_provenanceEvent_unmoved _ _).mono fun _ _ _ h _ => .inl h) fun y => ?_
      split <;> trivial
    · trivial

theorem uses_osLook_reconciles {β : Type} (f : FileTree → Except Lib.Errno β) :
    (osLook f).Uses fun w e w' => Calm e → Reconciles url w w' := by
  refine Prog.uses_call fun w e _ => ?_
  dsimp only
  split
  · exact .refl ..
  · cases f w.fs <;> exact .refl ..

/-- Every step of `reconcile_existing_file` is one of a transition of the item. -/
theorem uses_reconcileExistingFile_reconciles (logical stored : PyVal) (target : Path)
    (expected : Option String) : (reconcileExistingFile cfg url logical stored target expected).Uses
      fun w e w' => Calm e → Reconciles url w w' := by
  unfold reconcileExistingFile
  split
  · exact (uses_osLook_reconciles _).bind fun _ => uses_transition_reconciles (by decide) fun _ => by simp
  · refine Prog.Uses.bind (.attempt ((uses_osLook_reconciles _).bind fun _ =>
      (uses_osLook_reconciles _).bind fun _ => trivial)) fun seen => ?_
    split
    · exact uses_transition_reconciles (by decide) fun _ => by simp
    · split
      · exact uses_transition_reconciles (by decide) fun _ => by simp
      · exact ((uses_finalizedEvent_unmoved ..).mono fun _ _ _ h _ => .inl h).bind fun _ =>
          uses_transition_reconciles (by decide) fun _ => by simp

/-- With open records the event of a path that is no text fails. -/
theorem finalizedEvent_purePath {A : Env → Prop} {logical : PyVal} {byteCount : ℕ} {sha256 : String}
    {expected : Option String} {compared : Bool} (hr : w.records.isSome) {u : Unit} :
    ¬ (finalizedEvent url logical purePath byteCount sha256 expected compared).Ends A w (.ok u) w' := by
  intro h
  obtain ⟨⟨response, confirmed⟩, w₁, ⟨e₁, -, -, hw₁⟩, hrest⟩ | ⟨_, hx, -⟩ := Prog.ends_bind.1 h
  · have hr₁ : w₁.records.isSome := by rw [hw₁]; exact hr
    obtain ⟨row, w₂, h₂, hevent⟩ | ⟨_, hx, -⟩ := Prog.ends_bind.1 hrest
    · obtain ⟨e₂, -, -, rfl⟩ := ends_dbLook_ok h₂
      exact provenanceEvent_other hr₁ (fun e => finalRelativePath_finalizedFields ..) hevent
    · cases hx
  · cases hx

/-- Without records no event fails. -/
theorem finalizedEvent_error {logical stored : PyVal} {byteCount : ℕ} {sha256 : String}
    {expected : Option String} {compared : Bool} {exc : Exc}
    (h : (finalizedEvent url logical stored byteCount sha256 expected compared).Ends Calm w
      (.error exc) w') : w.records.isSome = true := by
  obtain ⟨⟨response, confirmed⟩, w₁, ⟨e₁, -, -, hw₁⟩, hrest⟩ | ⟨_, -, e₁, -, hx, -⟩ :=
    Prog.ends_bind.1 h
  · have hr₁ : w₁.records = w.records := by rw [hw₁]; rfl
    rw [← hr₁]
    obtain ⟨row, w₂, h₂, hevent⟩ | ⟨_, hx, hrow⟩ := Prog.ends_bind.1 hrest
    · obtain ⟨e₂, -, -, rfl⟩ := ends_dbLook_ok h₂
      obtain ⟨e₃, -, h₃⟩ := Prog.ends_call.1 hevent
      cases hr : w₂.records with
      | none => rw [hr] at h₃; cases h₃
      | some writer => rfl
    · obtain ⟨e₂, -, hx, -⟩ := ends_dbLook_calm hrow
      cases hx
  · cases hx

/-- Reading a final for its digest. -/
theorem ends_readExisting {target : Path} {x : Except Exc (Except Exc (String × ℕ))}
    (h : (Prog.attempt Exc.isOs (do
      let digest ← sha256sum target
      return (digest, ← fileSize target))).Ends Calm w x w') :
    w' = w ∧ ∃ seen, x = .ok seen ∧ ∀ expected, hasDigest w.fs target expected =
      match seen with
      | .ok (digest, _) => decide (some digest.toLower = expected.map String.toLower)
      | .error _ => false := by
  have hsum : ∀ {d w₁}, (sha256sum target).Ends Calm w (.ok d) w₁ →
      ∃ bytes, w.fs.read target = .ok bytes ∧ d = Lib.Sha256.hexdigest bytes ∧ w₁ = w := by
    intro d w₁ hd
    obtain ⟨hread, rfl⟩ := ends_osLook_ok hd
    cases hbytes : w₁.fs.read target with
    | error _ => simp [hbytes, Except.map] at hread
    | ok bytes => exact ⟨bytes, rfl, by simpa [hbytes, Except.map, eq_comm] using hread, rfl⟩
  rcases Prog.ends_attempt.1 h with ⟨_, rfl, hr⟩ | ⟨exc, rfl, hr⟩
  · obtain ⟨digest, w₁, h₁, hr₁⟩ | ⟨_, hx, -⟩ := Prog.ends_bind.1 hr
    · obtain ⟨bytes, hbytes, rfl, rfl⟩ := hsum h₁
      obtain ⟨size, w₂, h₂, hx, rfl⟩ | ⟨_, hx, -⟩ := Prog.ends_bind.1 hr₁
      · obtain ⟨-, rfl⟩ := ends_osLook_ok h₂
        obtain rfl := Except.ok.inj hx
        exact ⟨rfl, _, rfl, fun expected => by simp [hasDigest, hbytes]⟩
      · cases hx
    · cases hx
  · obtain ⟨digest, w₁, h₁, hr₁⟩ | ⟨_, hx, h₁⟩ := Prog.ends_bind.1 hr
    · obtain ⟨bytes, hbytes, rfl, rfl⟩ := hsum h₁
      obtain ⟨size, w₂, -, hx, -⟩ | ⟨_, -, h₂⟩ := Prog.ends_bind.1 hr₁
      · cases hx
      · obtain ⟨errno, hsize⟩ := ends_osLook_calm h₂
        rw [FileTree.size_of_read hbytes] at hsize
        cases hsize
    · obtain ⟨hos, rfl⟩ := ends_osLook_error h₁
      obtain ⟨errno, hread⟩ := ends_osLook_calm h₁
      obtain rfl := Except.error.inj hx
      refine ⟨rfl, .error exc, if_pos hos, fun expected => ?_⟩
      cases hbytes : w'.fs.read target with
      | error _ => simp [hasDigest, hbytes]
      | ok bytes => simp [hbytes, Except.map] at hread

/-- The transition of an existing final fails, at its event or for want of a row. -/
def World.Fails (w : World) (url : String) (target : Path) (expected : Option String) : Prop :=
  w.db.downloads.find? url = none ∨
    (w.records.isSome && truthy expected && hasDigest w.fs target expected) = true

/-- A transition at the end of `reconcile_existing_file`. -/
theorem ends_settling {status : Status} {detail : Option String} {fields : Env → Update}
    {x : Except Exc Unit} (hs : status ∈ scopeRunTrackedStatuses) (hf : ∀ e, (fields e).KeepsStatus)
    (h : (transition cfg url status detail fields).Ends Calm w x w') :
    (w.db.downloads.find? url = none ∧ (∃ exc, x = .error exc) ∧ Unmoved w w') ∨
      (w.db.downloads.find? url ≠ none ∧ x = .ok () ∧ Settled url w w') := by
  rcases ends_transition_calm h with ⟨hnone, hx, rfl⟩ | ⟨e, old, hold, rfl, rfl⟩
  · exact .inl ⟨hnone, hx, .refl _⟩
  · exact .inr ⟨by simp [hold], rfl, settled_moved hold hs (hf e)⟩

/-- How `reconcile_existing_file` ends when its target exists. -/
theorem ends_reconcileExistingFile {target : Path} {expected : Option String} {x : Except Exc Unit}
    (hthere : w.fs.pathExists target = true)
    (h : (reconcileExistingFile cfg url purePath purePath target expected).Ends Calm w x w') :
    (w.Fails url target expected ∧ (∃ exc, x = .error exc) ∧ Unmoved w w') ∨
      (¬ w.Fails url target expected ∧ x = .ok () ∧ Settled url w w') := by
  have hend : ∀ {status : Status} {detail : Option String} {fields : Env → Update},
      status ∈ scopeRunTrackedStatuses → (∀ e, (fields e).KeepsStatus) →
      (w.records.isSome && truthy expected && hasDigest w.fs target expected) = false →
      (transition cfg url status detail fields).Ends Calm w x w' →
      (w.Fails url target expected ∧ (∃ exc, x = .error exc) ∧ Unmoved w w') ∨
        (¬ w.Fails url target expected ∧ x = .ok () ∧ Settled url w w') := by
    intro status detail fields hs hf hd ht
    rcases ends_settling hs hf ht with ⟨hnone, hx, hu⟩ | ⟨hrow, hx, hset⟩
    · exact .inl ⟨.inl hnone, hx, hu⟩
    · exact .inr ⟨fun hfail => hfail.elim hrow (by simp [hd]), hx, hset⟩
  unfold reconcileExistingFile at h
  split at h
  · next hsha =>
    obtain ⟨size, w₁, h₁, h₂⟩ | ⟨_, -, herr⟩ := Prog.ends_bind.1 h
    · obtain ⟨-, rfl⟩ := ends_osLook_ok h₁
      exact hend (by decide) (fun _ => by simp)
        (by simp_all) h₂
    · obtain ⟨errno, hsize⟩ := ends_osLook_calm herr
      obtain ⟨n, hn⟩ := FileTree.size_of_pathExists hthere
      rw [hn] at hsize
      cases hsize
  · next hsha =>
    obtain ⟨seen, w₁, h₁, h₂⟩ | ⟨_, -, herr⟩ := Prog.ends_bind.1 h
    · obtain ⟨rfl, seen', hseen, hdigest⟩ := ends_readExisting h₁
      obtain rfl := Except.ok.inj hseen
      cases seen with
      | error exc =>
        exact hend (by decide) (fun _ => by simp)
          (by simp [hdigest]) h₂
      | ok d =>
        obtain ⟨digest, byteCount⟩ := d
        dsimp only at h₂
        split at h₂
        · next hne =>
          exact hend (by decide) (fun _ => by simp)
            (by simp [hdigest, hne]) h₂
        · next heq =>
          have hhas : hasDigest w₁.fs target expected = true := by
            rw [hdigest]
            exact decide_eq_true (not_not.1 heq)
          obtain ⟨_, w₂, hevent, ht⟩ | ⟨exc, rfl, hevent⟩ := Prog.ends_bind.1 h₂
          · have hunmoved := ends_finalizedEvent_unmoved hevent
            have hclosed : w₁.records.isSome = false := by
              by_contra hr
              exact finalizedEvent_purePath (Bool.eq_true_of_not_eq_false hr) hevent
            rcases ends_settling (by decide)
              (fun _ => by simp) ht with
              ⟨hnone, hx, hu⟩ | ⟨hrow, hx, hset⟩
            · exact .inl ⟨.inl (hunmoved.db ▸ hnone), hx, hunmoved.trans hu⟩
            · refine .inr ⟨fun hfail => hfail.elim (hunmoved.db ▸ hrow) (by simp [hclosed]), hx,
                hunmoved.settled hset⟩
          · refine .inl ⟨.inr ?_, ⟨exc, rfl⟩, ends_finalizedEvent_unmoved hevent⟩
            rw [finalizedEvent_error hevent, hhas]
            simpa using hsha
    · obtain ⟨-, seen', hseen, -⟩ := ends_readExisting herr
      cases hseen

/-- The program is killed before it fails, or before or after its commit. -/
theorem passes_reconcileExistingFile {target : Path} {expected : Option String}
    (hthere : w.fs.pathExists target = true)
    (hnew : ∀ s ∈ scopeRunTrackedStatuses, (w.db.downloads.find? url).map (·.status) ≠ some s)
    (h : (reconcileExistingFile cfg url purePath purePath target expected).Passes Calm w w') :
    Unmoved w w' ∨ (¬ w.Fails url target expected ∧ Settled url w w') := by
  have halong := (uses_reconcileExistingFile_reconciles purePath purePath target expected :
    (reconcileExistingFile cfg url _ _ _ _).Uses _).along_of w
  have hR : Reconciles url w w' := (halong.mono fun _ _ _ h hI => Reconciles.trans hI h).passes
    (Reconciles.refl url w) h
  rcases hR with hu | hset
  · exact .inl hu
  · refine .inr ⟨fun hfail => ?_, hset⟩
    -- what the commit left could not have been undone by the end
    obtain ⟨x, w'', hend, hafter⟩ := h.ends_after exists_calm (Reconciles.refl url)
      (fun _ _ _ => Reconciles.trans) halong
    obtain ⟨-, -, hu⟩ | ⟨hok, -, -⟩ := ends_reconcileExistingFile hthere hend
    · rcases Reconciles.trans (.inr hset) hafter with hu' | hset'
      · rcases hafter with ha | ha
        · obtain ⟨s, hs, hst⟩ := hset.tracked
          exact hnew s hs (by rw [← hst, ← ha.db, hu'.db])
        · obtain ⟨s, hs, hst⟩ := ha.tracked
          exact hnew s hs (by rw [← hst, hu'.db])
      · obtain ⟨s, hs, hst⟩ := hset'.tracked
        exact hnew s hs (by rw [← hst, hu.db])
    · exact hok hfail

end

/-! ## One round of the loop -/

section
variable {cfg : Config} {w w' : World} {entry : QueueEntry} {n : ℕ}

/-- The row of an entry is inserted. -/
def World.select (cfg : Config) (w : World) (entry : QueueEntry) (rank : ℕ) : World :=
  { w with db := w.db.insertRunItem ⟨cfg.runId, entry.url, rank⟩ }

/-- How a round ends, for what it does with the entry. -/
inductive RoundEnds (cfg : Config) (entry : QueueEntry) (n : ℕ) (w : World) :
    BatchStep → Except Exc ℕ → World → Prop
  | insert : RoundEnds cfg entry n w .insert (.ok (n + 1)) (w.select cfg entry n)
  | skip : RoundEnds cfg entry n w .skip (.ok n) w
  | commit {v : World} (h : Settled entry.url w v) : RoundEnds cfg entry n w .commit (.ok n) v
  | fail {exc : Exc} {v : World} (h : Unmoved w v) : RoundEnds cfg entry n w .fail (.error exc) v

theorem scopeStep_missing (h : w.fs.pathExists (w.targetOf cfg entry) = false) :
    w.scopeStep cfg entry = .insert := by simp [World.scopeStep, h]

theorem scopeStep_tracked (h : w.fs.pathExists (w.targetOf cfg entry) = true) {s : Status}
    (hs : (w.db.downloads.find? entry.url).map (·.status) = some s)
    (ht : s ∈ scopeRunTrackedStatuses) : w.scopeStep cfg entry = .skip := by
  simp [World.scopeStep, h, hs, ht]

theorem scopeStep_existing (h : w.fs.pathExists (w.targetOf cfg entry) = true)
    (hnew : ∀ s ∈ scopeRunTrackedStatuses,
      (w.db.downloads.find? entry.url).map (·.status) ≠ some s) :
    (w.Fails entry.url (w.targetOf cfg entry) entry.expectedSha256 ∧ w.scopeStep cfg entry = .fail) ∨
      (¬ w.Fails entry.url (w.targetOf cfg entry) entry.expectedSha256 ∧
        w.scopeStep cfg entry = .commit) := by
  unfold World.Fails World.scopeStep
  rw [h]
  cases hrow : w.db.downloads.find? entry.url with
  | none => exact .inl ⟨.inl rfl, rfl⟩
  | some row =>
    have hs : row.status ∉ scopeRunTrackedStatuses := fun hm => hnew _ hm (by rw [hrow]; rfl)
    simp only [Bool.not_true, Bool.false_eq_true, if_false, Option.map_some, hs, reduceCtorEq,
      false_or]
    split
    · next hf => exact .inl ⟨hf, rfl⟩
    · next hf => exact .inr ⟨hf, rfl⟩

/-- The status read of an item that is not tracked. -/
theorem untracked {status : Option Status}
    (h : (!status.any (· ∈ scopeRunTrackedStatuses)) = true) :
    ∀ s ∈ scopeRunTrackedStatuses, status ≠ some s := by
  rintro s hs rfl
  simp [hs] at h

/-- **How a round ends.** -/
theorem ends_scopeEntry {x : Except Exc ℕ} (h : (scopeEntry cfg entry n).Ends Calm w x w') :
    RoundEnds cfg entry n w (w.scopeStep cfg entry) x w' := by
  obtain ⟨⟨stored, target⟩, w₁, h₁, hrest⟩ | ⟨_, -, herr⟩ := Prog.ends_bind.1 h
  · obtain ⟨hr, rfl⟩ := ends_osLook_total h₁
    obtain rfl : target = w₁.targetOf cfg entry := congrArg Prod.snd (Except.ok.inj hr)
    obtain ⟨there, w₂, h₂, hrest⟩ | ⟨_, -, herr⟩ := Prog.ends_bind.1 hrest
    · obtain ⟨hr, rfl⟩ := ends_osLook_total h₂
      obtain rfl := Except.ok.inj hr
      dsimp only at hrest
      split at hrest
      · next hthere =>
        obtain ⟨status, w₃, h₃, hrest⟩ | ⟨_, -, herr⟩ := Prog.ends_bind.1 hrest
        · obtain ⟨_, -, hstatus, rfl⟩ := ends_dbLook_calm h₃
          obtain rfl := Except.ok.inj hstatus
          split at hrest
          · next huntracked =>
            have hnew := untracked huntracked
            obtain ⟨_, w₄, h₄, hx, rfl⟩ | ⟨exc, rfl, h₄⟩ := Prog.ends_bind.1 hrest
            · obtain ⟨-, ⟨_, hx'⟩, -⟩ | ⟨hok, -, hset⟩ := ends_reconcileExistingFile hthere h₄
              · cases hx'
              · obtain ⟨hf, -⟩ | ⟨-, hstep⟩ := scopeStep_existing hthere hnew
                · exact absurd hf hok
                · rw [hstep, hx]
                  exact .commit hset
            · obtain ⟨hf, -, hu⟩ | ⟨-, hx', -⟩ := ends_reconcileExistingFile hthere h₄
              · obtain ⟨-, hstep⟩ | ⟨hok, -⟩ := scopeStep_existing hthere hnew
                · rw [hstep]
                  exact .fail hu
                · exact absurd hf hok
              · cases hx'
          · next htracked =>
            obtain ⟨rfl, rfl⟩ := hrest
            cases hrow : w'.db.downloads.find? entry.url with
            | none => simp [hrow] at htracked
            | some row =>
              rw [scopeStep_tracked hthere (by rw [hrow]; rfl) (by simpa [hrow] using htracked)]
              exact .skip
        · obtain ⟨_, -, hx, -⟩ := ends_dbLook_calm herr
          cases hx
      · next hmissing =>
        rw [scopeStep_missing (by simpa using hmissing)]
        obtain ⟨_, w₃, h₃, hx, rfl⟩ | ⟨_, -, herr⟩ := Prog.ends_bind.1 hrest
        · obtain ⟨_, -, -, rfl⟩ := ends_dbChange_calm h₃
          rw [hx]
          exact .insert
        · obtain ⟨_, -, hx, -⟩ := ends_dbChange_calm herr
          cases hx
    · obtain ⟨hx, -⟩ := ends_osLook_total herr
      cases hx
  · obtain ⟨hx, -⟩ := ends_osLook_total herr
    cases hx

/-- **Where a round can be killed**: before or after what it commits or inserts. -/
theorem passes_scopeEntry (h : (scopeEntry cfg entry n).Passes Calm w w') :
    Unmoved w w' ∨ (w.scopeStep cfg entry = .insert ∧ w' = w.select cfg entry n) ∨
      (w.scopeStep cfg entry = .commit ∧ Settled entry.url w w') := by
  rcases Prog.passes_bind.1 h with hp | ⟨⟨stored, target⟩, w₁, h₁, hrest⟩
  · exact .inl (passes_osLook hp ▸ .refl _)
  obtain ⟨hr, rfl⟩ := ends_osLook_total h₁
  obtain rfl : target = w₁.targetOf cfg entry := congrArg Prod.snd (Except.ok.inj hr)
  rcases Prog.passes_bind.1 hrest with hp | ⟨there, w₂, h₂, hrest⟩
  · exact .inl (passes_osLook hp ▸ .refl _)
  obtain ⟨hr, rfl⟩ := ends_osLook_total h₂
  obtain rfl := Except.ok.inj hr
  dsimp only at hrest
  split at hrest
  · next hthere =>
    rcases Prog.passes_bind.1 hrest with hp | ⟨status, w₃, h₃, hrest⟩
    · exact .inl (passes_dbLook hp ▸ .refl _)
    obtain ⟨_, -, hstatus, rfl⟩ := ends_dbLook_calm h₃
    obtain rfl := Except.ok.inj hstatus
    split at hrest
    · next huntracked =>
      have hnew := untracked huntracked
      have hpass : (reconcileExistingFile cfg entry.url purePath purePath
          (w₃.targetOf cfg entry) entry.expectedSha256).Passes Calm w₃ w' := by
        rcases Prog.passes_bind.1 hrest with hp | ⟨_, w₄, h₄, rfl⟩
        · exact hp
        · exact h₄.passes
      rcases passes_reconcileExistingFile hthere hnew hpass with hu | ⟨hok, hset⟩
      · exact .inl hu
      · obtain ⟨hf, -⟩ | ⟨-, hstep⟩ := scopeStep_existing hthere hnew
        · exact absurd hf hok
        · exact .inr (.inr ⟨hstep, hset⟩)
    · obtain rfl : w' = w₃ := hrest
      exact .inl (.refl _)
  · next hmissing =>
    have hstep := (scopeStep_missing (by simpa using hmissing) :
      w₂.scopeStep cfg entry = .insert)
    rcases Prog.passes_bind.1 hrest with hp | ⟨_, w₃, h₃, rfl⟩
    · rcases Prog.passes_call.1 hp with rfl | ⟨e, he, rfl⟩
      · exact .inl (.refl _)
      · rw [he.2]
        exact .inr (.inl ⟨hstep, rfl⟩)
    · obtain ⟨_, -, -, rfl⟩ := ends_dbChange_calm h₃
      exact .inr (.inl ⟨hstep, rfl⟩)

end

/-! ## The loop -/

/-- A new session finds what is committed, and the records open as before. -/
def World.restarted (w : World) : World := { w with db := w.disk }

/-- The second time an entry has the step it had, if its transition is done no
    step. -/
def redone (l : List (QueueEntry × BatchStep)) : List (QueueEntry × BatchStep) :=
  l.map fun p => (p.1, p.2.redone)

theorem selection_redone (runId : String) (l l' : List (QueueEntry × BatchStep)) (rank : ℕ) :
    selection runId (redone l ++ l') rank = selection runId (l ++ l') rank := by
  induction l generalizing rank with
  | nil => rfl
  | cons p l ih =>
    obtain ⟨entry, step⟩ := p
    cases step <;> simp [redone, selection, BatchStep.redone] <;> exact ih _

section
variable {cfg : Config} {w w' : World} {rest : List QueueEntry} {held : List RunItem} {c : ℕ}

/-- The open transaction holds the rows of the run, of which the first ones are
    committed; it has changed no item since the last commit. -/
structure Holds (runId : String) (w : World) (held : List RunItem) (c : ℕ) : Prop where
  rows : runRows runId w.db = held
  disk : runRows runId w.disk = held.take c
  le : c ≤ held.length
  downloads : w.disk.downloads = w.db.downloads

theorem runRows_insertRunItem {db : Db} {runId url : String} {rank : ℤ}
    (h : url ∉ (runRows runId db).map (·.url)) :
    runRows runId (db.insertRunItem ⟨runId, url, rank⟩) = runRows runId db ++ [⟨runId, url, rank⟩] := by
  have hnew : RunItem.key ⟨runId, url, rank⟩ ∉ db.runItems.rows.map RunItem.key := fun hmem => by
    obtain ⟨i, hi, hkey⟩ := List.mem_map.1 hmem
    obtain ⟨hrun, hurl⟩ := Prod.mk.inj hkey
    exact h (List.mem_map.2 ⟨i, List.mem_filter.2 ⟨hi, decide_eq_true hrun⟩, hurl⟩)
  simp only [runRows, Db.insertRunItem, Lib.Table.insertNew, dif_neg hnew, List.filter_append]
  simp

theorem reached_of_status (hfs : w'.fs = w.fs) (hr : w'.records.isSome = w.records.isSome)
    (hrows : ∀ e ∈ rest, (w'.db.downloads.find? e.url).map (·.status) =
      (w.db.downloads.find? e.url).map (·.status)) (n : ℕ) :
    w'.reached cfg rest n = w.reached cfg rest n := by
  induction rest generalizing n with
  | nil => rfl
  | cons entry rest ih =>
    have hstep : w'.scopeStep cfg entry = w.scopeStep cfg entry := by
      unfold World.scopeStep World.targetOf
      rw [hfs, hr, hrows entry List.mem_cons_self]
    simp only [World.reached, hstep, ih fun e he => hrows e (List.mem_cons_of_mem _ he)]

theorem reached_congr (hfs : w'.fs = w.fs) (hr : w'.records.isSome = w.records.isSome)
    (hrows : ∀ e ∈ rest, w'.db.downloads.find? e.url = w.db.downloads.find? e.url) (n : ℕ) :
    w'.reached cfg rest n = w.reached cfg rest n :=
  reached_of_status hfs hr (fun e he => congrArg _ (hrows e he)) n

theorem fresh_tail {entry : QueueEntry} (hn : ((entry :: rest).map (·.url)).Nodup) :
    ∀ e ∈ rest, e.url ≠ entry.url := fun e he heq =>
  (List.nodup_cons.1 hn).1 (List.mem_map.2 ⟨e, he, heq⟩)

theorem Settled.reached {entry : QueueEntry} (hn : ((entry :: rest).map (·.url)).Nodup)
    (h : Settled entry.url w w') (n : ℕ) : w'.reached cfg rest n = w.reached cfg rest n :=
  reached_congr h.fs h.records (fun e he => h.others _ (fresh_tail hn e he)) n

theorem Settled.holds {url : String} (h : Settled url w w') (hw : Holds cfg.runId w held c) :
    Holds cfg.runId w' held held.length := by
  have hrows : runRows cfg.runId w'.db = held := by
    rw [← hw.rows, runRows, runRows, h.runItems]
  exact ⟨hrows, by rw [h.disk, hrows, List.take_length], le_rfl, by rw [h.disk]⟩

theorem Holds.select {entry : QueueEntry} (hw : Holds cfg.runId w held c)
    (hnew : entry.url ∉ held.map (·.url)) : Holds cfg.runId (w.select cfg entry held.length)
      (held ++ [⟨cfg.runId, entry.url, held.length⟩]) c := by
  refine ⟨?_, ?_, ?_, hw.downloads⟩
  · rw [World.select, runRows_insertRunItem (by rw [hw.rows]; exact hnew), hw.rows]
  · rw [World.select, hw.disk, List.take_append_of_le_length hw.le]
  · rw [List.length_append]
    exact hw.le.trans (Nat.le_add_right _ _)

/-- The rows that are held once the loop has ended. -/
def heldBy (cfg : Config) (w : World) (rest : List QueueEntry) (held : List RunItem) : List RunItem :=
  held ++ selection cfg.runId (w.reached cfg rest held.length) held.length

theorem heldBy_insert {entry : QueueEntry} (hlimit : cfg.limitReached held.length = false)
    (hstep : w.scopeStep cfg entry = .insert) (hreach : ∀ n, w'.reached cfg rest n =
      w.reached cfg rest n) :
    heldBy cfg w (entry :: rest) held =
      heldBy cfg w' rest (held ++ [⟨cfg.runId, entry.url, held.length⟩]) := by
  simp [heldBy, World.reached, hlimit, hstep, selection, hreach]

theorem heldBy_other {entry : QueueEntry} (hlimit : cfg.limitReached held.length = false)
    (hstep : w.scopeStep cfg entry ≠ .insert) (hreach : ∀ n, w'.reached cfg rest n =
      w.reached cfg rest n) :
    heldBy cfg w (entry :: rest) held = heldBy cfg w' rest held := by
  simp [heldBy, World.reached, hlimit, hstep, selection, hreach]

theorem Holds.take_heldBy (hw : Holds cfg.runId w held c) (rest : List QueueEntry) :
    runRows cfg.runId w.disk = (heldBy cfg w rest held).take c := by
  rw [hw.disk, heldBy, List.take_append_of_le_length hw.le]

/-- The steps the loop takes. -/
def World.steps (cfg : Config) (w : World) (rest : List QueueEntry) (n : ℕ) : List BatchStep :=
  (w.reached cfg rest n).map (·.2)

/-- An entry that is not among the rows that are held. -/
theorem fresh_concat {entry : QueueEntry} (hn : ((entry :: rest).map (·.url)).Nodup)
    (hnew : ∀ e ∈ entry :: rest, e.url ∉ held.map (·.url)) (item : RunItem)
    (hitem : item.url = entry.url) : ∀ e ∈ rest, e.url ∉ (held ++ [item]).map (·.url) := by
  intro e he hmem
  rw [List.map_append, List.mem_append] at hmem
  rcases hmem with hmem | hmem
  · exact hnew e (List.mem_cons_of_mem _ he) hmem
  · exact fresh_tail hn e he (by simpa [hitem] using hmem)

/-- **How the loop ends**: at a failure with what is committed, or with all rows. -/
theorem ends_scopeEntries {x : Except Exc ℕ} (hn : (rest.map (·.url)).Nodup)
    (hnew : ∀ e ∈ rest, e.url ∉ held.map (·.url)) (hw : Holds cfg.runId w held c)
    (h : (scopeEntries cfg rest held.length).Ends Calm w x w') :
    (.fail ∈ w.steps cfg rest held.length ∧ (∃ exc, x = .error exc) ∧ runRows cfg.runId w'.disk =
        (heldBy cfg w rest held).take
          (BatchStep.persisted (held.length, c) (w.steps cfg rest held.length))) ∨
      (.fail ∉ w.steps cfg rest held.length ∧ (∃ m, x = .ok m) ∧
        runRows cfg.runId w'.db = heldBy cfg w rest held) := by
  induction rest generalizing w held c with
  | nil =>
    obtain ⟨rfl, rfl⟩ := h
    refine .inr ⟨by simp [World.steps, World.reached], ⟨_, rfl⟩, ?_⟩
    simpa [heldBy, World.reached, selection] using hw.rows
  | cons entry rest ih =>
    unfold scopeEntries at h
    cases hlimit : cfg.limitReached held.length with
    | true =>
      rw [if_pos hlimit] at h
      obtain ⟨rfl, rfl⟩ := h
      refine .inr ⟨by simp [World.steps, World.reached, hlimit], ⟨_, rfl⟩, ?_⟩
      simpa [heldBy, World.reached, selection, hlimit] using hw.rows
    | false =>
      rw [if_neg (by simp [hlimit])] at h
      have hn' := (List.nodup_cons.1 hn).2
      have hnew' : ∀ e ∈ rest, e.url ∉ held.map (·.url) := fun e he =>
        hnew e (List.mem_cons_of_mem _ he)
      obtain ⟨m, w₁, h₁, h₂⟩ | ⟨exc, rfl, h₁⟩ := Prog.ends_bind.1 h
      · have hround := ends_scopeEntry h₁
        generalize hstep : w.scopeStep cfg entry = step at hround
        cases hround with
        | insert =>
          have hreach : ∀ n, (w.select cfg entry held.length).reached cfg rest n =
            w.reached cfg rest n := reached_congr rfl rfl fun _ _ => rfl
          set item : RunItem := ⟨cfg.runId, entry.url, held.length⟩
          rw [show held.length + 1 = (held ++ [item]).length by simp] at h₂
          have hih := ih hn' (fresh_concat hn hnew _ rfl)
            (hw.select (hnew entry List.mem_cons_self)) h₂
          have hsteps : w.steps cfg (entry :: rest) held.length = .insert ::
              (w.select cfg entry held.length).steps cfg rest (held ++ [item]).length := by
            simp [World.steps, World.reached, hlimit, hstep, hreach]
          rw [hsteps, heldBy_insert hlimit hstep hreach, BatchStep.persisted_cons (by decide)]
          simpa [BatchStep.after] using hih
        | skip =>
          have hsteps : w.steps cfg (entry :: rest) held.length = .skip ::
              w.steps cfg rest held.length := by
            simp [World.steps, World.reached, hlimit, hstep]
          have hih := ih hn' hnew' hw h₂
          rw [hsteps, heldBy_other hlimit (by simp [hstep]) fun _ => rfl,
            BatchStep.persisted_cons (by decide)]
          simpa [BatchStep.after] using hih
        | commit hset =>
          have hreach : ∀ n, w₁.reached cfg rest n = w.reached cfg rest n := hset.reached hn
          have hsteps : w.steps cfg (entry :: rest) held.length = .commit ::
              w₁.steps cfg rest held.length := by
            simp [World.steps, World.reached, hlimit, hstep, hreach]
          have hih := ih hn' hnew' (hset.holds hw) h₂
          rw [hsteps, heldBy_other hlimit (by simp [hstep]) hreach,
            BatchStep.persisted_cons (by decide)]
          simpa [BatchStep.after] using hih
      · have hround := ends_scopeEntry h₁
        generalize hstep : w.scopeStep cfg entry = step at hround
        cases hround with
        | fail hu =>
          have hsteps : w.steps cfg (entry :: rest) held.length = .fail ::
              w.steps cfg rest held.length := by
            simp [World.steps, World.reached, hlimit, hstep]
          refine .inl ⟨by simp [hsteps], ⟨exc, rfl⟩, ?_⟩
          rw [hsteps, BatchStep.persisted_fail, hu.disk]
          exact hw.take_heldBy _

/-- What a crash in the loop leaves: some of the steps are done, and a new session
    would do them and the others again. -/
structure Crashed (cfg : Config) (w : World) (rest : List QueueEntry) (held : List RunItem) (c : ℕ)
    (w' : World) : Prop where
  fs : w'.fs = w.fs
  records : w'.records.isSome = w.records.isSome
  downloads : w'.disk.downloads = w'.db.downloads
  others : ∀ u ∉ rest.map (·.url), w'.disk.downloads.find? u = w.disk.downloads.find? u
  steps : ∃ l₁ l₂, w.reached cfg rest held.length = l₁ ++ l₂ ∧ .fail ∉ l₁.map (·.2) ∧
    runRows cfg.runId w'.disk = (heldBy cfg w rest held).take
      (BatchStep.tally (held.length, c) (l₁.map (·.2))).2 ∧
    w'.restarted.reached cfg rest held.length = redone l₁ ++ l₂

theorem Holds.crashed (hw : Holds cfg.runId w held c) (hfs : w'.fs = w.fs)
    (hrecords : w'.records.isSome = w.records.isSome) (hdisk : w'.disk = w.disk)
    (hdb : w'.db.downloads = w.db.downloads) : Crashed cfg w rest held c w' := by
  refine ⟨hfs, hrecords, by rw [hdisk, hdb, hw.downloads], fun u _ => by rw [hdisk], [], _, rfl,
    by simp, ?_, ?_⟩
  · rw [hdisk]
    exact hw.take_heldBy _
  · have hfs' : w'.restarted.fs = w.fs := hfs
    refine reached_congr hfs' hrecords (fun e _ => ?_) _
    rw [World.restarted, hdisk, hw.downloads]

/-- A round that was done before a crash later on. -/
theorem Crashed.cons {entry : QueueEntry} {w₁ : World} {held₁ : List RunItem} {c₁ : ℕ}
    (h : Crashed cfg w₁ rest held₁ c₁ w') (hlimit : cfg.limitReached held.length = false)
    (hstep : w.scopeStep cfg entry ≠ .fail)
    (hafter : BatchStep.after (held.length, c) (w.scopeStep cfg entry) = (held₁.length, c₁))
    (hfs : w₁.fs = w.fs) (hrecords : w₁.records.isSome = w.records.isSome)
    (hothers : ∀ u ≠ entry.url, w₁.disk.downloads.find? u = w.disk.downloads.find? u)
    (hreach : ∀ n, w₁.reached cfg rest n = w.reached cfg rest n)
    (hheld : heldBy cfg w (entry :: rest) held = heldBy cfg w₁ rest held₁)
    (hredo : w'.restarted.scopeStep cfg entry = (w.scopeStep cfg entry).redone) :
    Crashed cfg w (entry :: rest) held c w' := by
  obtain ⟨l₁, l₂, hl, hfail, hrows, hagain⟩ := h.steps
  have hlen : held₁.length = if w.scopeStep cfg entry = .insert then held.length + 1
      else held.length := by
    have := congrArg Prod.fst hafter
    cases hs : w.scopeStep cfg entry <;> simp_all [BatchStep.after]
  have hinsert : (w.scopeStep cfg entry).redone = .insert ↔ w.scopeStep cfg entry = .insert := by
    cases w.scopeStep cfg entry <;> simp [BatchStep.redone]
  refine ⟨h.fs.trans hfs, h.records.trans hrecords, h.downloads, fun u hu => ?_,
    (entry, w.scopeStep cfg entry) :: l₁, l₂, ?_, ?_, ?_, ?_⟩
  · rw [List.map_cons, List.mem_cons, not_or] at hu
    rw [h.others u hu.2, hothers u hu.1]
  · rw [hreach, hlen] at hl
    simp [World.reached, hlimit, hl]
  · simpa [hstep.symm] using hfail
  · rw [hheld, hrows, List.map_cons, BatchStep.tally_cons, hafter]
  · simp only [World.reached, hlimit, hredo, hinsert, ← hlen, hagain]
    simp [redone]

/-- An entry whose step is done. -/
theorem scopeStep_restarted {entry : QueueEntry} (hfs : w'.fs = w.fs)
    (hrecords : w'.records.isSome = w.records.isSome)
    (hrow : w'.disk.downloads.find? entry.url = w.db.downloads.find? entry.url) :
    w'.restarted.scopeStep cfg entry = w.scopeStep cfg entry := by
  unfold World.scopeStep World.targetOf World.restarted
  rw [hfs, hrecords, hrow]

theorem scopeStep_settled {entry : QueueEntry} {w₁ : World} (hset : Settled entry.url w w₁)
    (hstep : w.scopeStep cfg entry = .commit) (hfs : w'.fs = w₁.fs)
    (hrow : w'.disk.downloads.find? entry.url = w₁.disk.downloads.find? entry.url) :
    w'.restarted.scopeStep cfg entry = .skip := by
  obtain ⟨s, hs, hst⟩ := hset.tracked
  refine scopeStep_tracked ?_ ?_ hs
  · by_contra hmissing
    have hm : w.fs.pathExists (w.targetOf cfg entry) = false := by
      unfold World.targetOf at hmissing ⊢
      simpa [World.restarted, hfs, hset.fs] using hmissing
    rw [scopeStep_missing hm] at hstep
    cases hstep
  · rw [World.restarted, hrow, hset.disk]
    exact hst

/-- **Where the loop can be killed.** -/
theorem passes_scopeEntries (hn : (rest.map (·.url)).Nodup)
    (hnew : ∀ e ∈ rest, e.url ∉ held.map (·.url)) (hw : Holds cfg.runId w held c)
    (h : (scopeEntries cfg rest held.length).Passes Calm w w') : Crashed cfg w rest held c w' := by
  induction rest generalizing w held c with
  | nil =>
    obtain rfl : w' = w := h
    exact hw.crashed rfl rfl rfl rfl
  | cons entry rest ih =>
    unfold scopeEntries at h
    cases hlimit : cfg.limitReached held.length with
    | true =>
      rw [if_pos hlimit] at h
      obtain rfl : w' = w := h
      exact hw.crashed rfl rfl rfl rfl
    | false =>
      rw [if_neg (by simp [hlimit])] at h
      have hn' := (List.nodup_cons.1 hn).2
      have hentry := (List.nodup_cons.1 hn).1
      have hnew' : ∀ e ∈ rest, e.url ∉ held.map (·.url) := fun e he =>
        hnew e (List.mem_cons_of_mem _ he)
      -- the rounds that follow an insert and a commit
      have hinserted : w.scopeStep cfg entry = .insert → Crashed cfg (w.select cfg entry held.length)
          rest (held ++ [⟨cfg.runId, entry.url, held.length⟩]) c w' →
          Crashed cfg w (entry :: rest) held c w' := fun hstep hcrash => by
        have hreach : ∀ n, (w.select cfg entry held.length).reached cfg rest n =
          w.reached cfg rest n := reached_congr rfl rfl fun _ _ => rfl
        refine hcrash.cons hlimit (by simp [hstep]) (by simp [hstep, BatchStep.after]) rfl rfl
          (fun _ _ => rfl) hreach (heldBy_insert hlimit hstep hreach) ?_
        have hagain : w'.restarted.scopeStep cfg entry = w.scopeStep cfg entry :=
          scopeStep_restarted hcrash.fs hcrash.records
            ((hcrash.others _ hentry).trans (congrArg (·.find? entry.url) hw.downloads))
        rw [hagain, hstep]
        rfl
      have hcommitted : ∀ {w₁}, w.scopeStep cfg entry = .commit → Settled entry.url w w₁ →
          Crashed cfg w₁ rest held held.length w' → Crashed cfg w (entry :: rest) held c w' :=
          fun {w₁} hstep hset hcrash => by
        have hreach : ∀ n, w₁.reached cfg rest n = w.reached cfg rest n := hset.reached hn
        refine hcrash.cons hlimit (by simp [hstep]) (by simp [hstep, BatchStep.after]) hset.fs
          hset.records (fun u hu => ?_) hreach (heldBy_other hlimit (by simp [hstep]) hreach) ?_
        · rw [hset.disk, hset.others u hu, hw.downloads]
        · rw [hstep, BatchStep.redone]
          exact scopeStep_settled hset hstep hcrash.fs (hcrash.others _ hentry)
      rcases Prog.passes_bind.1 h with hp | ⟨m, w₁, h₁, h₂⟩
      · rcases passes_scopeEntry hp with hu | ⟨hstep, rfl⟩ | ⟨hstep, hset⟩
        · exact hw.crashed hu.fs hu.records hu.disk (by rw [hu.db])
        · exact hinserted hstep ((hw.select (hnew entry List.mem_cons_self)).crashed rfl rfl rfl rfl)
        · exact hcommitted hstep hset ((hset.holds hw).crashed rfl rfl rfl rfl)
      · have hround := ends_scopeEntry h₁
        generalize hstep : w.scopeStep cfg entry = step at hround
        cases hround with
        | insert =>
          refine hinserted hstep (ih hn' (fresh_concat hn hnew _ rfl)
            (hw.select (hnew entry List.mem_cons_self)) ?_)
          simpa using h₂
        | skip =>
          have hcrash := ih hn' hnew' hw h₂
          refine hcrash.cons hlimit (by simp [hstep]) (by simp [hstep, BatchStep.after]) rfl rfl
            (fun _ _ => rfl) (fun _ => rfl) (heldBy_other hlimit (by simp [hstep]) fun _ => rfl) ?_
          rw [scopeStep_restarted hcrash.fs hcrash.records
            ((hcrash.others _ hentry).trans (by rw [hw.downloads])), hstep]
          rfl
        | commit hset => exact hcommitted hstep hset (ih hn' hnew' (hset.holds hw) h₂)

/-- Every part of the steps before a failure is where the loop can be killed. -/
theorem exists_passes_scopeEntries (hn : (rest.map (·.url)).Nodup)
    (hnew : ∀ e ∈ rest, e.url ∉ held.map (·.url)) (hw : Holds cfg.runId w held c)
    {l₁ l₂ : List (QueueEntry × BatchStep)} (hl : w.reached cfg rest held.length = l₁ ++ l₂)
    (hfail : .fail ∉ l₁.map (·.2)) : ∃ w', (scopeEntries cfg rest held.length).Passes Calm w w' ∧
      runRows cfg.runId w'.disk = (heldBy cfg w rest held).take
        (BatchStep.tally (held.length, c) (l₁.map (·.2))).2 := by
  induction l₁ generalizing w held c rest with
  | nil => exact ⟨w, Prog.passes_self, hw.take_heldBy _⟩
  | cons p l₁ ih =>
    cases rest with
    | nil => cases hl
    | cons entry rest =>
      cases hlimit : cfg.limitReached held.length with
      | true => simp [World.reached, hlimit] at hl
      | false =>
        simp only [World.reached, hlimit, Bool.false_eq_true, if_false, List.cons_append,
          List.cons.injEq] at hl
        obtain ⟨rfl, hl⟩ := hl
        simp only [List.map_cons, List.mem_cons, not_or] at hfail
        have hn' := (List.nodup_cons.1 hn).2
        have hnew' : ∀ e ∈ rest, e.url ∉ held.map (·.url) := fun e he =>
          hnew e (List.mem_cons_of_mem _ he)
        obtain ⟨x, w₁, h₁⟩ := Prog.exists_ends exists_calm (scopeEntry cfg entry held.length) w
        have hround := ends_scopeEntry h₁
        have hgo : ∀ {m w'}, x = .ok m → (scopeEntries cfg rest m).Passes Calm w₁ w' →
            (scopeEntries cfg (entry :: rest) held.length).Passes Calm w w' := by
          rintro m w' rfl hp
          rw [scopeEntries, if_neg (by simp [hlimit])]
          exact Prog.passes_bind.2 (.inr ⟨m, w₁, h₁, hp⟩)
        generalize hstep : w.scopeStep cfg entry = step at hround hl hfail
        cases hround with
        | insert =>
          have hreach : ∀ n, (w.select cfg entry held.length).reached cfg rest n =
            w.reached cfg rest n := reached_congr rfl rfl fun _ _ => rfl
          obtain ⟨w', hp, hrows⟩ := ih hn' (fresh_concat hn hnew ⟨cfg.runId, entry.url, held.length⟩
            rfl) (hw.select (hnew entry List.mem_cons_self))
            (by simpa [hreach] using hl) hfail.2
          refine ⟨w', hgo rfl (by simpa using hp), ?_⟩
          rw [heldBy_insert hlimit hstep hreach, hrows]
          simp [BatchStep.after]
        | skip =>
          obtain ⟨w', hp, hrows⟩ := ih hn' hnew' hw (by simpa using hl) hfail.2
          refine ⟨w', hgo rfl hp, ?_⟩
          rw [heldBy_other hlimit (by simp [hstep]) fun _ => rfl, hrows]
          simp [BatchStep.after]
        | commit hset =>
          have hreach : ∀ n, w₁.reached cfg rest n = w.reached cfg rest n := hset.reached hn
          obtain ⟨w', hp, hrows⟩ := ih hn' hnew' (hset.holds hw) (by simpa [hreach] using hl) hfail.2
          refine ⟨w', hgo rfl hp, ?_⟩
          rw [heldBy_other hlimit (by simp [hstep]) hreach, hrows]
          simp [BatchStep.after]
        | fail => exact absurd rfl hfail.1

end

/-! ## The whole of `scope_run` -/

section
variable {cfg : Config} {w w' : World}

/-- The transaction is opened. -/
def World.opened (cfg : Config) (w : World) : World := { w with db := w.db.openRevision cfg.runId }

theorem ends_scopeRun {x : Except Exc ℕ} : (scopeRun cfg).Ends Calm w.restarted x w' ↔
    (scopeSelection cfg (runRows cfg.runId w.disk).length).Ends Calm (w.restarted.opened cfg) x w' := by
  have hlen : (w.disk.runUrls cfg.runId).length = (runRows cfg.runId w.disk).length := by
    simp [Db.runUrls, runRows]
  constructor
  · intro h
    obtain ⟨_, w₁, h₁, h⟩ | ⟨_, -, herr⟩ := Prog.ends_bind.1 h
    · obtain ⟨_, -, -, rfl⟩ := ends_dbChange_calm h₁
      obtain ⟨previous, w₂, h₂, h⟩ | ⟨_, -, herr⟩ := Prog.ends_bind.1 h
      · obtain ⟨_, -, hp, rfl⟩ := ends_dbLook_calm h₂
        obtain rfl := Except.ok.inj hp
        rw [← hlen]
        exact h
      · obtain ⟨_, -, hx, -⟩ := ends_dbLook_calm herr
        cases hx
    · obtain ⟨_, -, hx, -⟩ := ends_dbChange_calm herr
      cases hx
  · intro h
    refine Prog.ends_bind.2 (.inl ⟨(), w.restarted.opened cfg, Prog.ends_call.2 ⟨{}, ⟨rfl, rfl⟩, rfl⟩,
      Prog.ends_bind.2 (.inl ⟨_, w.restarted.opened cfg, Prog.ends_call.2 ⟨{}, ⟨rfl, rfl⟩, rfl⟩, ?_⟩)⟩)
    rw [← hlen] at h
    exact h

theorem passes_scopeRun : (scopeRun cfg).Passes Calm w.restarted w' ↔ w' = w.restarted ∨
    (scopeSelection cfg (runRows cfg.runId w.disk).length).Passes Calm (w.restarted.opened cfg) w' := by
  have hlen : (w.disk.runUrls cfg.runId).length = (runRows cfg.runId w.disk).length := by
    simp [Db.runUrls, runRows]
  constructor
  · intro h
    rcases Prog.passes_bind.1 h with h | ⟨_, w₁, h₁, h⟩
    · rcases Prog.passes_call.1 h with rfl | ⟨e, he, rfl⟩
      · exact .inl rfl
      · rw [he.2]
        exact .inr Prog.passes_self
    · obtain ⟨_, -, -, rfl⟩ := ends_dbChange_calm h₁
      rcases Prog.passes_bind.1 h with h | ⟨previous, w₂, h₂, h⟩
      · rw [passes_dbLook h]
        exact .inr Prog.passes_self
      · obtain ⟨_, -, hp, rfl⟩ := ends_dbLook_calm h₂
        obtain rfl := Except.ok.inj hp
        rw [← hlen]
        exact .inr h
  · rintro (rfl | h)
    · exact Prog.passes_self
    · refine Prog.passes_bind.2 (.inr ⟨(), w.restarted.opened cfg,
        Prog.ends_call.2 ⟨{}, ⟨rfl, rfl⟩, rfl⟩, Prog.passes_bind.2 (.inr ⟨_, w.restarted.opened cfg,
          Prog.ends_call.2 ⟨{}, ⟨rfl, rfl⟩, rfl⟩, ?_⟩)⟩)
      rw [← hlen] at h
      exact h

/-- A run that is resumed keeps its rows. -/
theorem scopeRun_resumed (h : runRows cfg.runId w.disk ≠ [])
    (hpass : (scopeRun cfg).Passes Calm w.restarted w') :
    runRows cfg.runId w'.disk = runRows cfg.runId w.disk := by
  have hcommit : ∀ {v : World}, (dbCommit fun db _ => .ok db).Passes Calm
      (w.restarted.opened cfg) v → runRows cfg.runId v.disk = runRows cfg.runId w.disk := by
    intro v hv
    rcases Prog.passes_call.1 hv with rfl | ⟨e, he, rfl⟩
    · rfl
    · rw [he.2]
      rfl
  rcases passes_scopeRun.1 hpass with rfl | hpass
  · rfl
  · rw [scopeSelection, if_pos (by simpa using h)] at hpass
    rcases Prog.passes_bind.1 hpass with hp | ⟨_, w₃, h₃, rfl⟩
    · exact hcommit hp
    · exact hcommit h₃.passes

/-- The steps of a fresh run. -/
def World.batch (cfg : Config) (w : World) : List BatchStep := w.restarted.steps cfg cfg.queue.rows 0

/-- The rows that a fresh run selects. -/
def World.selected (cfg : Config) (w : World) : List RunItem :=
  selection cfg.runId (w.restarted.reached cfg cfg.queue.rows 0) 0

theorem reached_opened : (w.restarted.opened cfg).reached cfg cfg.queue.rows 0 =
    w.restarted.reached cfg cfg.queue.rows 0 := by
  have hfs : (w.restarted.opened cfg).fs = w.restarted.fs := rfl
  exact reached_congr hfs rfl (fun _ _ => rfl) 0

theorem heldBy_opened : heldBy cfg (w.restarted.opened cfg) cfg.queue.rows [] = w.selected cfg := by
  rw [heldBy, List.nil_append, List.length_nil, reached_opened]
  rfl

theorem holds_opened (h : runRows cfg.runId w.disk = []) :
    Holds cfg.runId (w.restarted.opened cfg) [] 0 := ⟨h, h, le_rfl, rfl⟩

theorem length_selection (runId : String) (l : List (QueueEntry × BatchStep)) (rank c : ℕ) :
    (BatchStep.tally (rank, c) (l.map (·.2))).1 = rank + (selection runId l rank).length := by
  induction l generalizing rank c with
  | nil => rfl
  | cons p l ih =>
    obtain ⟨entry, step⟩ := p
    cases step <;> simp [BatchStep.after, selection, ih]
    omega

theorem persisted_le_selected : BatchStep.persisted (0, 0) (w.batch cfg) ≤ (w.selected cfg).length := by
  have hlen := length_selection cfg.runId (w.restarted.reached cfg cfg.queue.rows 0) 0 0
  rw [Nat.zero_add] at hlen
  unfold BatchStep.persisted
  split
  · have hpre : BatchStep.before (w.batch cfg) <+: w.batch cfg := List.takeWhile_prefix _
    exact (BatchStep.tally_prefix_le hpre).trans ((BatchStep.snd_tally_le le_rfl).trans_eq hlen)
  · exact hlen.le

/-- How a fresh run ends. -/
theorem ends_fresh (h : runRows cfg.runId w.disk = []) {x : Except Exc ℕ}
    (hend : (scopeRun cfg).Ends Calm w.restarted x w') : runRows cfg.runId w'.disk =
      (w.selected cfg).take (BatchStep.persisted (0, 0) (w.batch cfg)) := by
  have hloop : ∀ {x : Except Exc ℕ} {w₁}, (scopeEntries cfg cfg.queue.rows 0).Ends Calm
      (w.restarted.opened cfg) x w₁ →
      (.fail ∈ w.batch cfg ∧ (∃ exc, x = .error exc) ∧ runRows cfg.runId w₁.disk =
        (w.selected cfg).take (BatchStep.persisted (0, 0) (w.batch cfg))) ∨
      (.fail ∉ w.batch cfg ∧ (∃ m, x = .ok m) ∧ runRows cfg.runId w₁.db = w.selected cfg) := by
    intro x w₁ hx
    have hends := ends_scopeEntries cfg.queue.nodup (by simp) (holds_opened h) hx
    rwa [heldBy_opened, World.steps, List.length_nil, reached_opened] at hends
  rw [ends_scopeRun, h, List.length_nil, scopeSelection, if_neg (by simp)] at hend
  obtain ⟨m, w₁, h₁, hend⟩ | ⟨exc, rfl, h₁⟩ := Prog.ends_bind.1 hend
  · obtain ⟨-, ⟨_, hx⟩, -⟩ | ⟨hfail, -, hrows⟩ := hloop h₁
    · cases hx
    · obtain ⟨_, w₂, h₂, -, rfl⟩ | ⟨_, -, herr⟩ := Prog.ends_bind.1 hend
      · obtain ⟨_, -, ⟨_, hdb, -⟩ | ⟨db, hdb, -, rfl⟩⟩ := ends_dbCommit_calm h₂
        · cases hdb
        · obtain rfl := Except.ok.inj hdb
          rw [BatchStep.persisted, if_neg hfail]
          have hlen := length_selection cfg.runId (w.restarted.reached cfg cfg.queue.rows 0) 0 0
          rw [Nat.zero_add] at hlen
          rw [World.batch, World.steps, hlen, ← World.selected, List.take_length]
          exact hrows
      · obtain ⟨_, -, ⟨_, hdb, -⟩ | ⟨_, -, hx, -⟩⟩ := ends_dbCommit_calm herr
        · cases hdb
        · cases hx
  · obtain ⟨-, -, hrows⟩ | ⟨-, ⟨_, hx⟩, -⟩ := hloop h₁
    · exact hrows
    · cases hx

/-- What a crash of a fresh run leaves: the selection that is persisted, or some of
    the steps, which a new session would do again. -/
theorem passes_fresh (h : runRows cfg.runId w.disk = [])
    (hpass : (scopeRun cfg).Passes Calm w.restarted w') :
    ∃ l₁ l₂, w.restarted.reached cfg cfg.queue.rows 0 = l₁ ++ l₂ ∧ .fail ∉ l₁.map (·.2) ∧
      w'.restarted.reached cfg cfg.queue.rows 0 = redone l₁ ++ l₂ ∧
      (runRows cfg.runId w'.disk = (w.selected cfg).take (BatchStep.tally (0, 0) (l₁.map (·.2))).2 ∨
        .fail ∉ w.batch cfg ∧ runRows cfg.runId w'.disk = w.selected cfg) := by
  have hof : ∀ {v : World}, Crashed cfg (w.restarted.opened cfg) cfg.queue.rows [] 0 v →
      ∃ l₁ l₂, w.restarted.reached cfg cfg.queue.rows 0 = l₁ ++ l₂ ∧ .fail ∉ l₁.map (·.2) ∧
        v.restarted.reached cfg cfg.queue.rows 0 = redone l₁ ++ l₂ ∧ runRows cfg.runId v.disk =
          (w.selected cfg).take (BatchStep.tally (0, 0) (l₁.map (·.2))).2 := by
    intro v hv
    obtain ⟨l₁, l₂, hl, hfail, hrows, hagain⟩ := hv.steps
    rw [List.length_nil, reached_opened] at hl
    rw [heldBy_opened] at hrows
    exact ⟨l₁, l₂, hl, hfail, hagain, hrows⟩
  have hholds : Holds cfg.runId (w.restarted.opened cfg) [] 0 := holds_opened h
  rcases passes_scopeRun.1 hpass with rfl | hpass
  · obtain ⟨l₁, l₂, hl, hfail, hagain, hrows⟩ := hof (hholds.crashed rfl rfl rfl rfl)
    exact ⟨l₁, l₂, hl, hfail, hagain, .inl hrows⟩
  rw [h, List.length_nil, scopeSelection, if_neg (by simp)] at hpass
  rcases Prog.passes_bind.1 hpass with hp | ⟨m, w₁, h₁, hp⟩
  · obtain ⟨l₁, l₂, hl, hfail, hagain, hrows⟩ :=
      hof (passes_scopeEntries cfg.queue.nodup (by simp) hholds hp)
    exact ⟨l₁, l₂, hl, hfail, hagain, .inl hrows⟩
  · have hcrash := passes_scopeEntries cfg.queue.nodup (by simp) hholds h₁.passes
    obtain ⟨l₁, l₂, hl, hfail, hagain, hrows⟩ := hof hcrash
    have hdone : w' = w₁ ∨ w' = { w₁ with
        db := w₁.db.advanceRevision cfg.runId, disk := w₁.db.advanceRevision cfg.runId } := by
      rcases Prog.passes_bind.1 hp with hp | ⟨_, w₂, h₂, rfl⟩
      · rcases Prog.passes_call.1 hp with rfl | ⟨e, he, rfl⟩
        · exact .inl rfl
        · rw [he.2]
          exact .inr rfl
      · obtain ⟨_, -, ⟨_, hdb, -⟩ | ⟨db, hdb, -, rfl⟩⟩ := ends_dbCommit_calm h₂
        · cases hdb
        · obtain rfl := Except.ok.inj hdb
          exact .inr rfl
    rcases hdone with rfl | rfl
    · exact ⟨l₁, l₂, hl, hfail, hagain, .inl hrows⟩
    · refine ⟨l₁, l₂, hl, hfail, ?_, .inr ?_⟩
      · rw [← hagain]
        refine reached_congr ?_ ?_ ?_ _
        · rfl
        · rfl
        · intro e _
          exact congrArg (·.find? e.url) hcrash.downloads.symm
      · have hends := ends_scopeEntries cfg.queue.nodup (by simp) hholds h₁
        rw [heldBy_opened, World.steps, List.length_nil, reached_opened] at hends
        rcases hends with ⟨-, ⟨_, hx⟩, -⟩ | ⟨hfail', -, hall⟩
        · cases hx
        · exact ⟨hfail', hall⟩

end

/-! ## Crash and restart -/

/-- What a new session of the run finds when it comes to `scope_run`: the files and
    the commits of the crashed one; what it has done before changed no status. -/
structure Reopened (crash w : World) : Prop where
  committed : w.db = w.disk
  fs : w.fs = crash.fs
  records : w.records.isSome = crash.records.isSome
  runItems : w.disk.runItems = crash.disk.runItems
  status : ∀ url, (w.disk.downloads.find? url).map (·.status) =
    (crash.disk.downloads.find? url).map (·.status)

/-- After any crash in `scope_run`, `scope_run` of a new session leaves the rows that
    it would have left without the crash. -/
def SelectionAtomic (cfg : Config) (w : World) : Prop :=
  ∀ (crash reopened again full : World) (x y : Except Exc ℕ),
    (scopeRun cfg).Passes Calm w.restarted crash → Reopened crash reopened →
    (scopeRun cfg).Ends Calm reopened x again → (scopeRun cfg).Ends Calm w.restarted y full →
    runRows cfg.runId again.disk = runRows cfg.runId full.disk

section
variable {cfg : Config} {w crash reopened : World}

theorem Reopened.restarted_eq (h : Reopened crash reopened) : reopened.restarted = reopened :=
  congrArg (fun db => { reopened with db := db }) h.committed.symm

theorem Reopened.rows (h : Reopened crash reopened) :
    runRows cfg.runId reopened.disk = runRows cfg.runId crash.disk := by
  rw [runRows, runRows, h.runItems]

theorem Reopened.reached (h : Reopened crash reopened) (rest : List QueueEntry) (n : ℕ) :
    reopened.restarted.reached cfg rest n = crash.restarted.reached cfg rest n := by
  have hfs : reopened.restarted.fs = crash.restarted.fs := h.fs
  exact reached_of_status hfs h.records (fun e _ => h.status e.url) n

/-- A torn batch has a crash after which the new session keeps a part. -/
theorem not_selectionAtomic (hfresh : runRows cfg.runId w.disk = [])
    (htorn : BatchStep.Torn (w.batch cfg)) : ¬ SelectionAtomic cfg w := by
  intro hatomic
  obtain ⟨p, hp, hpos, hne⟩ := BatchStep.torn_iff.1 htorn
  -- the entries of the steps that are done
  have hpre : p <+: w.batch cfg := hp.trans (List.takeWhile_prefix _)
  obtain ⟨l₁, l₂, hl, rfl⟩ : ∃ l₁ l₂, w.restarted.reached cfg cfg.queue.rows 0 = l₁ ++ l₂ ∧
      l₁.map (·.2) = p := by
    obtain ⟨q, hq⟩ := hpre
    obtain ⟨l₁, l₂, hl, h₁, -⟩ := List.map_eq_append_iff.1 hq.symm
    exact ⟨l₁, l₂, hl, h₁⟩
  have hfail : .fail ∉ l₁.map (·.2) := fun hf =>
    BatchStep.fail_notMem_before _ (hp.subset hf)
  obtain ⟨crash, hpass, hrows⟩ := exists_passes_scopeEntries cfg.queue.nodup (by simp)
    (holds_opened hfresh) (by rw [List.length_nil, reached_opened]; exact hl) hfail
  rw [heldBy_opened, List.length_nil] at hrows
  have hcrash : (scopeRun cfg).Passes Calm w.restarted crash := by
    refine passes_scopeRun.2 (.inr ?_)
    rw [hfresh, List.length_nil, scopeSelection, if_neg (by simp)]
    exact Prog.passes_bind.2 (.inl hpass)
  have hle : (BatchStep.tally (0, 0) (l₁.map (·.2))).2 ≤ (w.selected cfg).length :=
    (BatchStep.tally_le_persisted hp).trans persisted_le_selected
  have hkept : runRows cfg.runId crash.disk ≠ [] := by
    rw [hrows, ← List.length_pos_iff, List.length_take, Nat.min_eq_left hle]
    exact Nat.pos_of_ne_zero hpos
  obtain ⟨x, again, hagain⟩ := Prog.exists_ends exists_calm (scopeRun cfg) crash.restarted
  obtain ⟨y, full, hfull⟩ := Prog.exists_ends exists_calm (scopeRun cfg) w.restarted
  have heq := hatomic crash crash.restarted again full x y hcrash ⟨rfl, rfl, rfl, rfl, fun _ => rfl⟩
    hagain hfull
  rw [scopeRun_resumed hkept hagain.passes, hrows, ends_fresh hfresh hfull] at heq
  have hlen := congrArg List.length heq
  rw [List.length_take, List.length_take, Nat.min_eq_left hle,
    Nat.min_eq_left persisted_le_selected] at hlen
  exact hne hlen

/-- The rows of a resumed run stay. -/
theorem selectionAtomic_resumed (h : runRows cfg.runId w.disk ≠ []) : SelectionAtomic cfg w := by
  intro crash reopened again full x y hcrash hopen hagain hfull
  have hrows : runRows cfg.runId crash.disk = runRows cfg.runId w.disk := scopeRun_resumed h hcrash
  rw [scopeRun_resumed h hfull.passes]
  rw [← hopen.restarted_eq] at hagain
  rw [scopeRun_resumed (by rw [hopen.rows, hrows]; exact h) hagain.passes, hopen.rows, hrows]

/-- A batch that is not torn is done again in full, or is complete. -/
theorem selectionAtomic_fresh (hfresh : runRows cfg.runId w.disk = [])
    (htorn : ¬ BatchStep.Torn (w.batch cfg)) : SelectionAtomic cfg w := by
  intro crash reopened again full x y hcrash hopen hagain hfull
  rw [ends_fresh hfresh hfull]
  rw [← hopen.restarted_eq] at hagain
  obtain ⟨l₁, l₂, hl, hfail, hredo, hrows⟩ := passes_fresh hfresh hcrash
  have hbatch : w.batch cfg = l₁.map (·.2) ++ l₂.map (·.2) := by
    rw [World.batch, World.steps, hl, List.map_append]
  have hselected : reopened.selected cfg = w.selected cfg := by
    rw [World.selected, World.selected, hopen.reached, hredo, selection_redone, hl]
  by_cases hkept : runRows cfg.runId reopened.disk = []
  · -- nothing was committed: the new session does it all again
    rw [ends_fresh hkept hagain, hselected]
    have hnone : w.selected cfg = [] ∨ (BatchStep.tally (0, 0) (l₁.map (·.2))).2 = 0 := by
      rw [hopen.rows] at hkept
      rcases hrows with hrows | ⟨-, hrows⟩ <;> rw [hrows] at hkept
      · exact (List.take_eq_nil_iff.1 hkept).symm
      · exact .inl hkept
    rcases hnone with hnone | hzero
    · rw [hnone, List.take_nil, List.take_nil]
    · have hp : l₁.map (·.2) <+: BatchStep.before (w.batch cfg) := by
        rw [hbatch, BatchStep.before_append hfail]
        exact List.prefix_append _ _
      have hagain' : reopened.batch cfg = (l₁.map (·.2)).map BatchStep.redone ++
          (w.batch cfg).drop (l₁.map (·.2)).length := by
        rw [World.batch, World.steps, hopen.reached, hredo, hbatch, List.drop_left]
        simp [redone]
      rw [hagain', BatchStep.persisted_redone hp hzero]
  · rw [scopeRun_resumed hkept hagain.passes]
    rw [hopen.rows] at hkept ⊢
    rcases hrows with hrows | ⟨hok, hrows⟩
    · -- what was committed is everything
      rw [hrows] at hkept ⊢
      by_contra hne
      refine htorn (BatchStep.torn_iff.2 ⟨l₁.map (·.2), ?_, fun h0 => hkept (by simp [h0]),
        fun heq => hne (by rw [heq])⟩)
      rw [hbatch, BatchStep.before_append hfail]
      exact List.prefix_append _ _
    · have hlen := length_selection cfg.runId (w.restarted.reached cfg cfg.queue.rows 0) 0 0
      rw [Nat.zero_add] at hlen
      rw [hrows, BatchStep.persisted, if_neg hok, World.batch, World.steps, hlen, ← World.selected,
        List.take_length]

end

/-- The selection is atomic exactly when the run has rows already or its batch is
    not torn. -/
theorem selectionAtomic_iff (cfg : Config) (w : World) : SelectionAtomic cfg w ↔
    ¬ (runRows cfg.runId w.disk = [] ∧ BatchStep.Torn (w.batch cfg)) := by
  constructor
  · exact fun h ⟨hfresh, htorn⟩ => not_selectionAtomic hfresh htorn h
  · intro h
    by_cases hfresh : runRows cfg.runId w.disk = []
    · exact selectionAtomic_fresh hfresh fun htorn => h ⟨hfresh, htorn⟩
    · exact selectionAtomic_resumed hfresh

/-! ## A final between two missing ones -/

/-- A queue of three entries. -/
def threeEntries : Config where
  runId := "run"
  destination := ["dest"]
  state := ["state"]
  queue := ⟨[{ url := "https://host/set/a", rel := ["set", "a"] },
    { url := "https://host/set/b", rel := ["set", "b"] },
    { url := "https://host/set/c", rel := ["set", "c"] }], by decide⟩

/-- The second entry was imported, and its final exists. -/
def finalBetween : World where
  fs := ⟨fun p => if p = ["dest"] ∨ p = ["dest", "set"] then some .dir
    else if p = ["dest", "set", "b"] then some (.file 0) else none, fun _ => [], 4096⟩
  disk := ({} : Db).importEntry "https://host/set/b" "set/b" "set/b" "/state/incoming/b"
    none none none 0 ""

theorem torn_finalBetween : BatchStep.Torn (finalBetween.batch threeEntries) := by decide

/-- The transition of the final commits the first row of the selection alone. -/
theorem selection_torn : ¬ ∀ (cfg : Config) (w : World), SelectionAtomic cfg w :=
  fun h => not_selectionAtomic (by decide) torn_finalBetween (h threeEntries finalBetween)

end TodDl.Controller
