/-
  The live projection — the mutations of the running controller.

  A mutation commits under `db_lock` and then tells the projection, under the
  lock of the projection, what it committed.  `Mutation.commit` is the first half:
  the database after it and the `Job` that is left to do, one call of `apply` for
  each changed row or one `set_revision`.

  `commit_told`: the job says what the commit did to the selected rows.
-/
import TodDl.Store.Projection

namespace TodDl.Store

open Lib (replaceKey map_key_replaceKey)
open Db (Image)

/-- The arguments of one call of `apply`. -/
structure Change where
  old : Image
  new : Image
  completionAt : Option String := none

/-- One call on the projection. -/
inductive Apply where
  | change (c : Change)
  | setRevision

/-- What a commit leaves to be told to the projection. -/
structure Job where
  revision : ℕ := 0
  applies : List Apply := []

/-- The changes among the calls of a job. -/
def Job.changes (j : Job) : List Change :=
  j.applies.filterMap fun
    | .change c => some c
    | .setRevision => none

namespace Projection

/-- One call. -/
def perform (p : Projection) (revision : ℕ) : Apply → Projection
  | .change c => p.apply c.old c.new revision c.completionAt
  | .setRevision => p.setRevision revision

/-- All calls of a job. -/
def performAll (p : Projection) (j : Job) : Projection :=
  j.applies.foldl (fun p a => p.perform j.revision a) p

end Projection

/-- What a handler does with the projection after its commit. -/
def Outcome.job (o : Outcome) : Job :=
  match o.revision with
  | none => {}
  | some revision => ⟨revision, if o.changes.isEmpty then [.setRevision]
      else o.changes.map fun c => .change ⟨c.1, c.2, none⟩⟩

/-- A mutation of the running controller. -/
inductive Mutation where
  | transition (url : String) (toStatus : Status) (detail : Option String) (fields : Update)
      (clock : Clock)
  | retryNow (q : Request) (clock : Clock)
  | excludeItem (q : Request) (clock : Clock)
  | resumeNewGeneration (q : Request) (clock : Clock)
  | retryAccessDenied (q : Request) (clock : Clock)
  | setItemPriority (q : Request) (clock : Clock)
  | setRetryCooldown (q : Request) (clock : Clock)

/-- The commit of `transition(db, url, …)` and its projection change. -/
def commitTransition (runId url : String) (toStatus : Status) (detail : Option String)
    (fields : Update) (recordedAt : String) (db : Db) : Db × Job :=
  match db.transition runId url toStatus detail fields recordedAt with
  | none => (db, {})
  | some (db', old) =>
    match db'.downloads.find? url with
    | none => (db', {})
    | some new => (db', ⟨db'.revision runId, [.change ⟨old.image, new.image,
        if old.status ≠ .complete ∧ new.status = .complete then some recordedAt else none⟩]⟩)

/-- The database after the commit, and the job that is left. -/
def Mutation.commit (runId : String) (db : Db) : Mutation → Db × Job
  | .transition url toStatus detail fields clock =>
    commitTransition runId url toStatus detail fields clock.text db
  | .retryNow q clock => let o := controlRetryNow db runId q clock; (o.db, o.job)
  | .excludeItem q clock => let o := controlExcludeItem db runId q clock; (o.db, o.job)
  | .resumeNewGeneration q clock =>
    let o := controlResumeNewGeneration db runId q clock; (o.db, o.job)
  | .retryAccessDenied q clock => let o := controlRetryAccessDenied db runId q clock; (o.db, o.job)
  | .setItemPriority q clock => let o := controlSetItemPriority db runId q clock; (o.db, o.job)
  | .setRetryCooldown q clock => let o := controlSetRetryCooldown db runId q clock; (o.db, o.job)

/-- A mutation executed to completion. -/
def Mutation.run (runId : String) (s : Db × Projection) (m : Mutation) : Db × Projection :=
  ((m.commit runId s.1).1, s.2.performAll (m.commit runId s.1).2)

/-- A transition is of a selected item. -/
def Mutation.OfSelected (runId : String) (db : Db) : Mutation → Prop
  | .transition url _ _ _ _ => url ∈ db.runUrls runId
  | _ => True

instance (runId : String) (db : Db) (m : Mutation) : Decidable (m.OfSelected runId db) := by
  cases m <;> unfold Mutation.OfSelected <;> infer_instance

/-! ## What a commit tells -/

/-- The item ID of an image. -/
def Db.Image.id (i : Image) : String := itemId i.url

/-- The images of the selected rows. -/
def Db.images (db : Db) (runId : String) : List Image := (db.selected runId).map Row.image

/-- The images after every change. -/
def replaceAll (l : List Image) (changes : List Change) : List Image :=
  changes.foldl (fun l c => replaceKey Image.id c.new l) l

theorem replaceAll_append (l : List Image) (cs ds : List Change) :
    replaceAll l (cs ++ ds) = replaceAll (replaceAll l cs) ds := List.foldl_append

/-- Changes of the form `i ↦ post i` replace exactly the images of their IDs. -/
theorem replaceAll_map {l : List Image} {post : Image → Image} (hpost : ∀ i, (post i).id = i.id)
    (hn : (l.map Image.id).Nodup) {is : List Image} (his : ∀ i ∈ is, i ∈ l) :
    replaceAll l (is.map fun i => ⟨i, post i, none⟩) =
      l.map fun x => if x.id ∈ is.map Image.id then post x else x := by
  induction is using List.reverseRecOn with
  | nil => simp [replaceAll]
  | append_singleton is i ih =>
    have hi := his i (by simp)
    rw [List.map_append, replaceAll_append, ih fun j hj => his j (by simp [hj])]
    simp only [replaceAll, List.map_cons, List.map_nil, List.foldl_cons, List.foldl_nil, replaceKey,
      List.map_map, List.map_append, List.mem_append, List.mem_singleton]
    refine List.map_congr_left fun x hx => ?_
    simp only [Function.comp]
    have hid : (if x.id ∈ is.map Image.id then post x else x).id = x.id := by
      split
      · exact hpost x
      · rfl
    rw [hid, hpost]
    by_cases hxi : x.id = i.id
    · have : x = i := List.inj_on_of_nodup_map hn hx hi hxi
      simp [this]
    · simp [hxi]

/-- No two selected URLs have one item ID. -/
def DistinctIds (db : Db) (runId : String) : Prop := ((db.runUrls runId).map itemId).Nodup

instance (db : Db) (runId : String) : Decidable (DistinctIds db runId) :=
  inferInstanceAs (Decidable (List.Nodup _))

/-- The selection and the set of rows are the same in two databases. -/
structure SameItems (db db' : Db) : Prop where
  runItems : db'.runItems = db.runItems
  rows : ∀ url, (db'.downloads.find? url).isSome = (db.downloads.find? url).isSome

/-- The job describes the step from one database to the other. -/
structure Told (db db' : Db) (runId : String) (job : Job) : Prop where
  same : SameItems db db'
  images : db'.images runId = replaceAll (db.images runId) job.changes
  pre : ∀ c ∈ job.changes, c.old ∈ db.images runId
  id : ∀ c ∈ job.changes, c.new.id = c.old.id
  revision : (job.applies = [] ∧ db'.revision runId = db.revision runId) ∨
    (job.applies ≠ [] ∧ job.revision = db'.revision runId ∧
      db'.revision runId = db.revision runId + 1)

section
variable {db : Db} {runId : String} {o : Outcome} {changed : List Row} {u : Update}
  {post : Image → Image}

theorem map_id_images :
    (db.images runId).map Image.id = ((db.selected runId).map Row.url).map itemId := by
  simp only [Db.images, List.map_map]; rfl

theorem DistinctIds.images (h : DistinctIds db runId) : ((db.images runId).map Image.id).Nodup := by
  rw [map_id_images]
  exact List.Nodup.sublist (List.Sublist.map _ (Lib.Table.sublist_join _ _)) h

/-- Selected rows of one item ID are one row. -/
theorem DistinctIds.row_eq (h : DistinctIds db runId) {r s : Row} (hr : r ∈ db.selected runId)
    (hs : s ∈ db.selected runId) (hid : r.image.id = s.image.id) : r.url = s.url :=
  congrArg Image.url (List.inj_on_of_nodup_map h.images (List.mem_map_of_mem hr)
    (List.mem_map_of_mem hs) hid)

theorem Outcome.Commits.runItems (h : o.Commits db runId changed u) :
    o.db.runItems = db.runItems := by
  obtain ⟨_, _, _, _, _, h⟩ := h.db_eq
  rw [h]; rfl

theorem Outcome.Commits.sameItems (h : o.Commits db runId changed u) : SameItems db o.db := by
  refine ⟨h.runItems, fun url => ?_⟩
  obtain ⟨_, _, _, _, _, h⟩ := h.db_eq
  rw [h, Db.downloads_auditControl, Db.find?_updateWhere, Option.isSome_map]

theorem Outcome.Commits.revision_eq (h : o.Commits db runId changed u) :
    o.db.revision runId = db.revision runId + 1 := by
  obtain ⟨_, _, _, _, _, h⟩ := h.db_eq
  rw [h, Db.revision_auditControl]; rfl

theorem Outcome.Commits.selected_eq (h : o.Commits db runId changed u) :
    o.db.selected runId =
      (db.selected runId).map fun r => if r.url ∈ changed.map (·.url) then r.set u else r := by
  obtain ⟨_, _, _, _, _, h⟩ := h.db_eq
  rw [h, Db.selected_congr (Db.downloads_auditControl ..) (Db.runItems_auditControl ..),
    Db.selected_updateWhere]
  simp

/-- The images after a commit. -/
theorem Outcome.Commits.images (h : o.Commits db runId changed u)
    (hpost : ∀ r : Row, (r.set u).image = post r.image) (hd : DistinctIds db runId) :
    o.db.images runId = (db.images runId).map fun x =>
      if x.id ∈ (changed.map Row.image).map Image.id then post x else x := by
  rw [Db.images, h.selected_eq, Db.images, List.map_map, List.map_map]
  refine List.map_congr_left fun r hr => ?_
  have hid : r.image.id ∈ (changed.map Row.image).map Image.id ↔ r.url ∈ changed.map (·.url) := by
    simp only [List.mem_map, exists_exists_and_eq_and]
    constructor
    · rintro ⟨c, hc, hcr⟩
      exact ⟨c, hc, hd.row_eq (h.selected c hc) hr hcr⟩
    · rintro ⟨c, hc, hcr⟩
      exact ⟨c, hc, congrArg itemId hcr⟩
  simp only [Function.comp]
  by_cases hmem : r.url ∈ changed.map (·.url)
  · rw [if_pos hmem, if_pos (hid.2 hmem), hpost]
  · rw [if_neg hmem, if_neg (mt hid.1 hmem)]

/-- A request that commits nothing has nothing to tell. -/
theorem Outcome.Idle.told (h : o.Idle db) : Told db o.db runId o.job := by
  obtain ⟨hdb, -, hrev⟩ := h
  have hjob : o.job = {} := by rw [Outcome.job, hrev]
  rw [hdb, hjob]
  exact ⟨⟨rfl, fun _ => rfl⟩, rfl, by simp [Job.changes], by simp [Job.changes], .inl ⟨rfl, rfl⟩⟩

theorem changes_job {changes : List (Image × Image)} {revision : ℕ} (hr : o.revision = some revision)
    (hc : o.changes = changes) : o.job.changes = changes.map fun c => ⟨c.1, c.2, none⟩ := by
  subst hc
  rw [Outcome.job, hr, Job.changes]
  simp only
  cases o.changes with
  | nil => rfl
  | cons c cs =>
    rw [List.isEmpty_cons, if_neg (by simp), List.filterMap_map]
    exact List.filterMap_eq_map' (f := fun c : Image × Image => (⟨c.1, c.2, none⟩ : Change)) ▸ rfl

theorem applies_job_ne_nil {revision : ℕ} (hr : o.revision = some revision) :
    o.job.applies ≠ [] := by
  rw [Outcome.job, hr]
  simp only
  split
  · simp
  · next h => simpa using h

/-- The job of a commit whose handler builds the postimages the update has. -/
theorem Outcome.Commits.told (h : o.Commits db runId changed u) (hd : DistinctIds db runId)
    (hpost : ∀ r : Row, (r.set u).image = post r.image) (hurl : ∀ i, (post i).id = i.id)
    (hchanges : o.changes = (changed.map Row.image).map fun i => (i, post i)) :
    Told db o.db runId o.job := by
  have hsub : ∀ i ∈ changed.map Row.image, i ∈ db.images runId := by
    intro i hi
    obtain ⟨r, hr, rfl⟩ := List.mem_map.1 hi
    exact List.mem_map_of_mem (h.selected r hr)
  have hjob : o.job.changes = (changed.map Row.image).map fun i => ⟨i, post i, none⟩ := by
    rw [changes_job h.revision hchanges, List.map_map]; rfl
  have hrev : o.job.revision = o.db.revision runId := by rw [Outcome.job, h.revision]
  refine ⟨h.sameItems, ?_, ?_, ?_, .inr ⟨applies_job_ne_nil h.revision, hrev, h.revision_eq⟩⟩
  · rw [hjob, replaceAll_map hurl hd.images hsub, h.images hpost hd]
  · rw [hjob]
    intro c hc
    obtain ⟨i, hi, rfl⟩ := List.mem_map.1 hc
    exact hsub i hi
  · rw [hjob]
    intro c hc
    obtain ⟨i, -, rfl⟩ := List.mem_map.1 hc
    exact hurl i

/-- The job of a commit that does not show in the images. -/
theorem Outcome.Commits.told_unprojected (h : o.Commits db runId changed u)
    (himage : ∀ r : Row, (r.set u).image = r.image) (hchanges : o.changes = []) :
    Told db o.db runId o.job := by
  have hjob : o.job.changes = [] := changes_job h.revision hchanges
  have hrev : o.job.revision = o.db.revision runId := by rw [Outcome.job, h.revision]
  refine ⟨h.sameItems, ?_, ?_, ?_, .inr ⟨applies_job_ne_nil h.revision, hrev, h.revision_eq⟩⟩
  · rw [hjob, Db.images, h.selected_eq, List.map_map]
    refine List.map_congr_left fun r _ => ?_
    simp only [Function.comp]
    split
    · exact himage r
    · rfl
  · rw [hjob]; intro c hc; cases hc
  · rw [hjob]; intro c hc; cases hc

/-! ## Every mutation tells what it did -/

theorem ItemAction.told (a : ItemAction) (q : Request) (clock : Clock) (hd : DistinctIds db runId)
    (hpost : ∀ r : Row, (r.set (a.update ++ [.updatedAt clock.text])).image = a.post r.image)
    (hurl : ∀ i, (a.post i).id = i.id) (hproj : a.projected = true) :
    Told db (a.handle db runId q clock).db runId (a.handle db runId q clock).job := by
  rcases a.handle_cases db runId q clock with h | ⟨ids, -, hc, hchanges⟩
  · exact h.told
  · refine hc.told hd hpost hurl ?_
    rw [hchanges, hproj, if_pos rfl, List.map_map]; rfl

theorem ItemAction.told_unprojected (a : ItemAction) (q : Request) (clock : Clock)
    (himage : ∀ r : Row, (r.set (a.update ++ [.updatedAt clock.text])).image = r.image)
    (hproj : a.projected = false) :
    Told db (a.handle db runId q clock).db runId (a.handle db runId q clock).job := by
  rcases a.handle_cases db runId q clock with h | ⟨ids, -, hc, hchanges⟩
  · exact h.told
  · refine hc.told_unprojected himage ?_
    rw [hchanges, hproj]; rfl

/-- Every handler builds the postimage its update has. -/
theorem image_excludeItem (text : String) (r : Row) :
    (r.set (excludeItem.update ++ [.updatedAt text])).image = excludeItem.post r.image := rfl

theorem image_resumeNewGeneration (text : String) (r : Row) :
    (r.set (resumeNewGeneration.update ++ [.updatedAt text])).image =
      resumeNewGeneration.post r.image := by
  simp only [resumeNewGeneration, List.cons_append, List.nil_append, Row.set_cons, Row.set_nil,
    Assign.apply, Row.image]

theorem image_retryAccessDenied (text : String) (r : Row) :
    (r.set (retryAccessDenied.update ++ [.updatedAt text])).image =
      retryAccessDenied.post r.image := rfl

theorem image_setItemPriority (priority : Provenance.PyVal) (text : String) (r : Row) :
    (r.set ((setItemPriority priority).update ++ [.updatedAt text])).image = r.image := rfl

theorem image_setRetryCooldown (cooldown : Provenance.PyVal) (clock : Clock) (r : Row) :
    (r.set ((setRetryCooldown cooldown clock).update ++ [.updatedAt clock.text])).image =
      (setRetryCooldown cooldown clock).post r.image := rfl

theorem retryNow_told (q : Request) (clock : Clock) (hd : DistinctIds db runId) :
    Told db (controlRetryNow db runId q clock).db runId (controlRetryNow db runId q clock).job := by
  rcases retryNow_cases db runId q clock with h | ⟨changed, -, -, hc, hchanges⟩
  · exact h.told
  · have hmap : (controlRetryNow db runId q clock).changes =
        (changed.map Row.image).map fun i => (i, madeEligible i) := by
      rw [hchanges, List.map_map]; rfl
    refine hc.told hd ?_ ?_ hmap
    · exact fun _ => rfl
    · exact fun _ => rfl

/-- `transition` on a row that is there. -/
theorem commitTransition_eq (runId : String) {url : String} (toStatus : Status)
    (detail : Option String) (fields : Update) (recordedAt : String) {old : Row}
    (hold : db.downloads.find? url = some old) :
    ∃ completionAt, commitTransition runId url toStatus detail fields recordedAt db =
      (db.transitioned runId old toStatus detail fields recordedAt,
        ⟨(db.transitioned runId old toStatus detail fields recordedAt).revision runId,
          [.change ⟨old.image, (old.set (Db.transitionUpdate toStatus fields recordedAt)).image,
            completionAt⟩]⟩) := by
  have hkey : old.url = url := Lib.Table.find?_key hold
  simp only [commitTransition, Db.transition, hold, Option.map_some, Db.find?_transitioned, hkey,
    if_true]
  exact ⟨_, rfl⟩

theorem commitTransition_missing (runId : String) {url : String} (toStatus : Status)
    (detail : Option String) (fields : Update) (recordedAt : String)
    (hold : db.downloads.find? url = none) :
    commitTransition runId url toStatus detail fields recordedAt db = (db, {}) := by
  simp only [commitTransition, Db.transition, hold, Option.map_none]

theorem transition_told {url : String} {toStatus : Status} {detail : Option String}
    {fields : Update} {recordedAt : String} (hd : DistinctIds db runId)
    (hsel : url ∈ db.runUrls runId) :
    Told db (commitTransition runId url toStatus detail fields recordedAt db).1 runId
      (commitTransition runId url toStatus detail fields recordedAt db).2 := by
  cases hold : db.downloads.find? url with
  | none =>
    rw [commitTransition_missing runId toStatus detail fields recordedAt hold]
    exact Outcome.Idle.told (o := ⟨db, ⟨"", "", none, []⟩, [], none⟩) ⟨rfl, rfl, rfl⟩
  | some old =>
    obtain ⟨completionAt, heq⟩ :=
      commitTransition_eq runId toStatus detail fields recordedAt hold
    rw [heq]
    have hkey : old.url = url := Lib.Table.find?_key hold
    have hmem : old ∈ db.selected runId :=
      Lib.Table.mem_join.2 ⟨hkey ▸ hsel, (Lib.Table.find?_eq_some.1 hold).1⟩
    set u := Db.transitionUpdate toStatus fields recordedAt
    have hid : (old.set u).image.id = old.image.id := congrArg itemId (Row.url_set old u)
    refine ⟨⟨rfl, fun _ => by rw [Db.find?_transitioned, Option.isSome_map]⟩, ?_, ?_, ?_,
      .inr ⟨by simp, rfl, Db.revision_advanceRevision ..⟩⟩
    · simp only [Job.changes, List.filterMap_cons, List.filterMap_nil, replaceAll, List.foldl_cons,
        List.foldl_nil, replaceKey, Db.images, Db.selected_transitioned, List.map_map]
      refine List.map_congr_left fun r hr => ?_
      simp only [Function.comp]
      by_cases hr' : r.url = old.url
      · have : r = old := List.inj_on_of_nodup_map (db.nodup_selected runId) hr hmem hr'
        subst this
        rw [if_pos hr', if_pos hid.symm]
      · rw [if_neg hr', if_neg fun e => hr' (hd.row_eq hr hmem (e.trans hid))]
    · have himem : old.image ∈ db.images runId := List.mem_map_of_mem hmem
      simpa [Job.changes] using himem
    · simpa [Job.changes] using hid

/-- **Every mutation tells the projection what it did** to the selected rows. -/
theorem commit_told (hd : DistinctIds db runId) {m : Mutation} (hm : m.OfSelected runId db) :
    Told db (m.commit runId db).1 runId (m.commit runId db).2 := by
  cases m with
  | transition url toStatus detail fields clock => exact transition_told hd hm
  | retryNow q clock => exact retryNow_told q clock hd
  | excludeItem q clock =>
    exact excludeItem.told q clock hd (image_excludeItem _) (fun _ => rfl) rfl
  | resumeNewGeneration q clock =>
    exact resumeNewGeneration.told q clock hd (image_resumeNewGeneration _) (fun _ => rfl) rfl
  | retryAccessDenied q clock =>
    exact retryAccessDenied.told q clock hd (image_retryAccessDenied _) (fun _ => rfl) rfl
  | setItemPriority q clock =>
    exact (setItemPriority _).told_unprojected q clock (image_setItemPriority _ _) rfl
  | setRetryCooldown q clock =>
    exact (setRetryCooldown _ clock).told q clock hd (image_setRetryCooldown _ _) (fun _ => rfl) rfl

end

end TodDl.Store
