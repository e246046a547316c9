/-
  The database — the history of an item in `download_transitions` (tod-dl.py).

  `CompleteHistory`: the rows of an item lead from `queued` to its status.
  `Recorded` is the invariant behind it, and the lemmas say what each statement
  does to it.  A statement that sets statuses without a row is not among them.
-/
import TodDl.Lib.Linked
import TodDl.Store.Control

namespace TodDl.Store

open Lib (Linked linked_concat)

namespace Db

/-- The rows of an item, in id order. -/
def history (db : Db) (url : String) : List TransitionRow := db.transitions.filter (·.url = url)

/-- The rows of every item lead from `queued` to its status. -/
def CompleteHistory (db : Db) : Prop :=
  ∀ r ∈ db.downloads.rows,
    Linked TransitionRow.fromStatus TransitionRow.toStatus .queued (db.history r.url) r.status

instance (db : Db) : Decidable db.CompleteHistory := inferInstanceAs (Decidable (∀ r ∈ _, _))

/-- Complete histories of items whose URLs are no `__control__`, and no other rows. -/
structure Recorded (db : Db) : Prop where
  complete : db.CompleteHistory
  slash : ∀ r ∈ db.downloads.rows, '/' ∈ r.url.toList
  known : ∀ t ∈ db.transitions, t.url = "__control__" ∨ (db.downloads.find? t.url).isSome

/-- Items have the same statuses and the same rows; others may be `__control__` rows. -/
structure SameHistory (db db' : Db) : Prop where
  status : ∀ url, (db'.downloads.find? url).map (·.status) = (db.downloads.find? url).map (·.status)
  history : ∀ url ≠ "__control__", db'.history url = db.history url

theorem Recorded.empty : ({} : Db).Recorded := by
  constructor <;> intro _ h <;> cases h

section
variable {db db' db'' : Db}

theorem SameHistory.refl (db : Db) : SameHistory db db := ⟨fun _ => rfl, fun _ _ => rfl⟩

theorem SameHistory.trans (h : SameHistory db db') (h' : SameHistory db' db'') :
    SameHistory db db'' :=
  ⟨fun url => (h'.status url).trans (h.status url),
    fun url hu => (h'.history url hu).trans (h.history url hu)⟩

/-- A row of the one database has a row of its status in the other. -/
theorem SameHistory.row (h : SameHistory db db') {r : Row} (hr : r ∈ db'.downloads.rows) :
    ∃ s ∈ db.downloads.rows, s.url = r.url ∧ s.status = r.status := by
  have hstatus := h.status r.url
  rw [Lib.Table.find?_eq_some.2 ⟨hr, rfl⟩] at hstatus
  obtain ⟨s, hs, hst⟩ := Option.map_eq_some_iff.1 hstatus.symm
  exact ⟨s, (Lib.Table.find?_eq_some.1 hs).1, Lib.Table.find?_key hs, hst⟩

theorem slash_ne_control {url : String} (h : '/' ∈ url.toList) : url ≠ "__control__" := by
  rintro rfl
  revert h
  decide

theorem Recorded.same (h : db.Recorded) (hs : SameHistory db db') : db'.Recorded := by
  have hslash : ∀ r ∈ db'.downloads.rows, '/' ∈ r.url.toList := fun r hr => by
    obtain ⟨s, hs, hurl, -⟩ := hs.row hr
    exact hurl ▸ h.slash s hs
  refine ⟨fun r hr => ?_, hslash, fun t ht => ?_⟩
  · obtain ⟨s, hmem, hurl, hstatus⟩ := hs.row hr
    rw [hs.history _ (slash_ne_control (hslash r hr)), ← hurl, ← hstatus]
    exact h.complete s hmem
  · by_cases hc : t.url = "__control__"
    · exact .inl hc
    · have hmem : t ∈ db.history t.url := by
        rw [← hs.history _ hc]
        exact List.mem_filter.2 ⟨ht, by simp⟩
      rcases h.known t (List.mem_filter.1 hmem).1 with hk | hk
      · exact .inl hk
      · rw [← Option.isSome_map, ← hs.status, Option.isSome_map] at hk
        exact .inr hk

/-! ## The statements -/

/-- An UPDATE that changes no status. -/
theorem sameHistory_updateWhere {p : Row → Bool} {u : Update}
    (hu : ∀ r ∈ db.downloads.rows, p r → (r.set u).status = r.status) :
    SameHistory db (db.updateWhere p u) := by
  refine ⟨fun url => ?_, fun _ _ => rfl⟩
  rw [find?_updateWhere, Option.map_map]
  refine Option.map_congr fun r hr => ?_
  have hmem := (Lib.Table.find?_eq_some.1 hr).1
  dsimp only [Function.comp]
  split
  · next hp => exact hu r hmem hp
  · rfl

theorem sameHistory_keeps {p : Row → Bool} {u : Update} (hu : u.KeepsStatus) :
    SameHistory db (db.updateWhere p u) :=
  sameHistory_updateWhere fun r _ _ => r.status_set hu

theorem sameHistory_claimRecheck (url : String) (claimedAt : ℚ) (text : String) :
    SameHistory db (db.claimRecheck url claimedAt text) := by
  refine ⟨fun url' => ?_, fun _ _ => rfl⟩
  rw [claimRecheck, Lib.Table.find?_modify, Option.map_map]
  congr 1
  funext r
  dsimp only [Function.comp]
  split
  · exact r.status_set (by simp)
  · rfl

/-- The audit row of a control action is of no item. -/
theorem sameHistory_auditControl (runId a b c d e f : String) :
    SameHistory db (db.auditControl runId a b c d e f) := by
  refine ⟨fun _ => rfl, fun url hu => ?_⟩
  simp [history, transitions_auditControl, Ne.symm hu]

/-- The commit of a control action that changes no status. -/
theorem sameHistory_commits {runId : String} {changed : List Row} {u : Update} {o : Outcome}
    (h : o.Commits db runId changed u)
    (hu : u.KeepsStatus ∨ changed = []) : SameHistory db o.db := by
  obtain ⟨_, _, _, _, _, hdb⟩ := h.db_eq
  rw [hdb]
  refine SameHistory.trans ?_ (sameHistory_auditControl ..)
  rcases hu with hu | rfl
  · exact sameHistory_keeps hu
  · exact sameHistory_updateWhere fun r _ hr => by simp at hr

theorem history_transitioned (runId : String) (old : Row) (toStatus : Status)
    (detail : Option String) (fields : Update) (text url : String) :
    (db.transitioned runId old toStatus detail fields text).history url = db.history url ++
      if old.url = url then [⟨old.url, runId, old.status, toStatus, detail, text⟩] else [] := by
  rw [history, transitions_transitioned, List.filter_append, history, List.filter_singleton]
  simp

/-- **A transition extends the history of its item.** -/
theorem Recorded.transitioned (h : db.Recorded) {url : String} {old : Row}
    (hold : db.downloads.find? url = some old) (runId : String) (toStatus : Status)
    (detail : Option String) {fields : Update} (hfields : fields.KeepsStatus) (text : String) :
    (db.transitioned runId old toStatus detail fields text).Recorded := by
  obtain ⟨hmem, rfl⟩ := Lib.Table.find?_eq_some.1 hold
  have hset : ∀ r : Row, (r.set (transitionUpdate toStatus fields text)).status = toStatus :=
    fun r => by simpa [transitionUpdate, Assign.apply] using Row.status_set hfields _
  have hrow : ∀ r ∈ (db.transitioned runId old toStatus detail fields text).downloads.rows,
      ∃ s ∈ db.downloads.rows, s.url = r.url ∧
        r.status = if s.url = old.url then toStatus else s.status := fun r hr => by
    have hfind := Lib.Table.find?_eq_some.2 ⟨hr, rfl⟩
    rw [find?_transitioned] at hfind
    obtain ⟨s, hs, rfl⟩ := Option.map_eq_some_iff.1 hfind
    refine ⟨s, (Lib.Table.find?_eq_some.1 hs).1, ?_, ?_⟩ <;> split <;> simp [hset]
  refine ⟨fun r hr => ?_, fun r hr => ?_, fun t ht => ?_⟩
  · obtain ⟨s, hs, hurl, hstatus⟩ := hrow r hr
    rw [history_transitioned, hstatus, ← hurl]
    by_cases heq : s.url = old.url
    · obtain rfl : s = old := List.inj_on_of_nodup_map db.downloads.nodup hs hmem heq
      rw [if_pos rfl, if_pos rfl]
      exact (linked_concat (h.complete s hs)).2 rfl
    · rw [if_neg heq, if_neg (Ne.symm heq), List.append_nil]
      exact h.complete s hs
  · obtain ⟨s, hs, hurl, -⟩ := hrow r hr
    exact hurl ▸ h.slash s hs
  · rw [find?_transitioned, Option.isSome_map]
    rcases List.mem_append.1 ht with ht | ht
    · exact h.known t ht
    · obtain rfl := List.mem_singleton.1 ht
      exact .inr (by rw [hold]; rfl)

theorem sameHistory_insertNew {r : Row} (hr : (db.downloads.find? r.url).isSome) :
    SameHistory db { db with downloads := db.downloads.insertNew r } := by
  obtain ⟨s, hs⟩ := Option.isSome_iff_exists.1 hr
  refine ⟨fun url => ?_, fun _ _ => rfl⟩
  rw [Lib.Table.find?_insertNew]
  split
  · next hu => subst hu; simp [hs]
  · simp

/-- A new row starts its history. -/
theorem Recorded.insertNew (h : db.Recorded) {r : Row} (hslash : '/' ∈ r.url.toList)
    (hstatus : r.status = .queued) :
    ({ db with downloads := db.downloads.insertNew r } : Db).Recorded := by
  by_cases hr : (db.downloads.find? r.url).isSome
  · exact h.same (sameHistory_insertNew hr)
  · have hrows : ∀ s ∈ (db.downloads.insertNew r).rows, s ∈ db.downloads.rows ∨ s = r := by
      intro s hs
      have hfind := Lib.Table.find?_eq_some.2 ⟨hs, rfl⟩
      rw [Lib.Table.find?_insertNew, Option.or_eq_some_iff] at hfind
      rcases hfind with hfind | ⟨-, hfind⟩
      · exact .inl (Lib.Table.find?_eq_some.1 hfind).1
      · split at hfind
        · exact .inr (Option.some.inj hfind).symm
        · cases hfind
    refine ⟨fun s hs => ?_, fun s hs => ?_, fun t ht => ?_⟩
    · rcases hrows s hs with hs | rfl
      · exact h.complete s hs
      · have hnil : ({ db with downloads := db.downloads.insertNew s } : Db).history s.url = [] := by
          refine List.filter_eq_nil_iff.2 fun t ht hu => ?_
          rcases h.known t ht with hk | hk
          · exact slash_ne_control hslash ((of_decide_eq_true hu).symm.trans hk)
          · exact hr (of_decide_eq_true hu ▸ hk)
        rw [hnil, hstatus]
        rfl
    · rcases hrows s hs with hs | rfl
      · exact h.slash s hs
      · exact hslash
    · rcases h.known t ht with hk | hk
      · exact .inl hk
      · obtain ⟨s, hs⟩ := Option.isSome_iff_exists.1 hk
        exact .inr (by rw [Lib.Table.find?_insertNew_of_some hs]; rfl)

/-- What `import_queues` does after its INSERT changes no status. -/
theorem sameHistory_importEntry (url relativePath stored staging : String)
    (inventorySize expectedSha256 generation : Option String) (time : ℚ) (text : String) :
    SameHistory { db with
        downloads := db.downloads.insertNew
          { url, relativePath, storagePath := some stored, stagingPath := some staging,
            inventorySize, expectedSha256, updatedAt := text } }
      (db.importEntry url relativePath stored staging inventorySize expectedSha256 generation time
        text) := by
  unfold Db.importEntry recordSourceGeneration
  refine SameHistory.trans ?_ (sameHistory_keeps (by simp))
  refine SameHistory.trans ?_ (sameHistory_keeps (by simp))
  refine SameHistory.trans ?_ (sameHistory_keeps (by simp))
  exact sameHistory_keeps (by simp)

theorem Recorded.importEntry (h : db.Recorded) {url : String} (hslash : '/' ∈ url.toList)
    (relativePath stored staging : String) (inventorySize expectedSha256 generation : Option String)
    (time : ℚ) (text : String) : (db.importEntry url relativePath stored staging inventorySize
      expectedSha256 generation time text).Recorded :=
  (h.insertNew hslash rfl).same (sameHistory_importEntry ..)

/-- The requeue changes no status when no selected item was interrupted. -/
theorem sameHistory_requeueInterrupted {runId : String}
    (h : ∀ r ∈ db.selected runId, r.status ∉ interruptedStatuses) (text : String) :
    SameHistory db (db.requeueInterrupted runId text) :=
  sameHistory_updateWhere fun r hr hp => by
    obtain ⟨hstatus, hurl⟩ := Bool.and_eq_true_iff.1 hp
    exact absurd (of_decide_eq_true hstatus)
      (h r (Lib.Table.mem_join.2 ⟨of_decide_eq_true hurl, hr⟩))

end

end Db

/-! ## The control actions -/

namespace ItemAction
variable (a : ItemAction) {db : Db} {runId : String} {q : Request}

/-- The request was answered before, or none of its IDs is one of an eligible row. -/
def FindsNone (db : Db) (runId : String) (q : Request) : Prop :=
  match q.requestId.bind db.controlRequests.find?, itemIds (q.parameters.get "item_ids") with
  | none, some ids => a.changedRows (db.selected runId) ids = []
  | _, _ => True

instance (db : Db) (runId : String) (q : Request) : Decidable (a.FindsNone db runId q) := by
  unfold FindsNone
  split <;> infer_instance

/-- A request that was answered before commits nothing. -/
theorem handle_seen (clock : Clock) (h : (q.requestId.bind db.controlRequests.find?).isSome) :
    (a.handle db runId q clock).db = db :=
  (a.handle_stale runId clock fun hfresh => by simp [hfresh.2.2] at h).1

/-- A handler over item IDs keeps every history if its update names no status or
    finds no row. -/
theorem sameHistory_handle (clock : Clock) (h : a.update.KeepsStatus ∨ a.FindsNone db runId q) :
    Db.SameHistory db (a.handle db runId q clock).db := by
  by_cases hseen : (q.requestId.bind db.controlRequests.find?).isSome
  · rw [handle_seen a clock hseen]
    exact .refl db
  · rcases a.handle_cases db runId q clock with hidle | ⟨ids, hids, hc, -⟩
    · rw [hidle.1]
      exact .refl db
    · refine Db.sameHistory_commits hc (h.imp (fun hu => ?_) fun hf => ?_)
      · simpa using hu
      · simpa [FindsNone, Option.not_isSome_iff_eq_none.1 hseen, hids] using hf

end ItemAction

theorem sameHistory_retryNow (db : Db) (runId : String) (q : Request) (clock : Clock) :
    Db.SameHistory db (controlRetryNow db runId q clock).db := by
  rcases retryNow_cases db runId q clock with hidle | ⟨changed, -, -, hc, -⟩
  · rw [hidle.1]
    exact .refl db
  · exact Db.sameHistory_commits hc (.inl (by simp))

end TodDl.Store
