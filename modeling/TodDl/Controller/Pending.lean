/-
  The controller — items that are shown as pending (tod-dl.py, `display_bucket`,
  `next_pending`).

  `next_pending` has a ceiling for the attempts; `display_bucket` does not look at it for a
  queued item.  An item keeps its attempts when it goes back to `queued`.

  `pending_can_run`: what is shown as pending is admissible in time, in every run in which
  an item that goes back to `queued` has attempts left.
-/
import TodDl.Controller.History
import TodDl.Controller.Scope
import TodDl.Controller.Steps

namespace TodDl.Controller

open Lib (Prog GRun)
open Store (Db Row RunItem Status Update Request Clock Outcome displayBucket interruptedStatuses)

/-! ## Pending items -/

/-- `? = 0 OR attempts < ?` -/
def Config.attemptsLeft (cfg : Config) (r : Row) : Prop :=
  cfg.maxAttempts = 0 ∨ (r.attempts : ℤ) < cfg.maxAttempts

instance (cfg : Config) (r : Row) : Decidable (cfg.attemptsLeft r) := by
  unfold Config.attemptsLeft
  infer_instance

/-- The conditions of `next_pending` on a selected item. -/
def Config.admissible (cfg : Config) (patterns : List String) (time : ℚ) (r : Row) : Bool :=
  cfg.retryable r && r.nextRetryAt ≤ time && passes patterns r

/-- The item is shown as queued or as waiting for a retry. -/
def Config.shownPending (cfg : Config) (r : Row) : Prop :=
  displayBucket r.status r.attempts cfg.maxAttempts ∈ [.queued, .retry]

/-- From some time on, the selected items that are shown as pending are admissible, except
    those of a paused origin. -/
def Config.PendingCanRun (cfg : Config) (db : Db) : Prop :=
  ∀ r ∈ db.selected cfg.runId, cfg.shownPending r →
    ∀ patterns, accessDeniedPatterns db cfg.runId = .ok patterns → passes patterns r = true →
      ∃ start, ∀ time, start ≤ time → cfg.admissible patterns time r = true

section
variable {cfg : Config} {r : Row}

/-- `next_pending` takes the first admissible item. -/
theorem nextPending_eq (db : Db) (time : ℚ) : nextPending cfg db time =
    (clauseIn 7 db cfg.runId).map fun patterns =>
      (((db.ranked cfg.runId).map (·.2)).filter (cfg.admissible patterns time)).head? := by
  unfold nextPending
  cases clauseIn 7 db cfg.runId <;> rfl

/-- An item that waits for a retry has attempts left, or it is shown as exhausted. -/
theorem Config.shownPending_iff : cfg.shownPending r ↔
    r.status = .queued ∨ (r.status = .retryWait ∨ r.status = .failed) ∧ cfg.attemptsLeft r := by
  have hretry : (if cfg.maxAttempts ≠ 0 ∧ cfg.maxAttempts ≤ r.attempts then Store.Bucket.exhausted
      else .retry) ∈ [.queued, .retry] ↔ cfg.attemptsLeft r := by
    rw [Config.attemptsLeft]
    split
    · next h =>
      simp only [List.mem_cons, reduceCtorEq, List.not_mem_nil, or_self, false_iff]
      omega
    · next h =>
      simp only [List.mem_cons, List.not_mem_nil, or_false, or_true, true_iff]
      omega
  unfold Config.shownPending displayBucket
  cases r.status with
  | retryWait => simpa using hretry
  | failed => simpa using hretry
  | _ => simp

/-- **A pending item is admissible in time** exactly if it has attempts left. -/
theorem admissible_iff {patterns : List String} (hshown : cfg.shownPending r)
    (hpasses : passes patterns r = true) :
    (∃ start, ∀ time, start ≤ time → cfg.admissible patterns time r = true) ↔
      cfg.attemptsLeft r := by
  have hstatus : r.status ∈ Store.retryableStatuses := by
    rcases Config.shownPending_iff.1 hshown with h | ⟨h | h, -⟩ <;>
      simp [h, Store.retryableStatuses]
  have hretryable : cfg.retryable r = true ↔ cfg.attemptsLeft r := by
    simp [Config.retryable, Config.attemptsLeft, hstatus]
  constructor
  · rintro ⟨start, h⟩
    have hnow := h start le_rfl
    rw [Config.admissible, Bool.and_eq_true, Bool.and_eq_true] at hnow
    exact hretryable.1 hnow.1.1
  · intro hleft
    refine ⟨r.nextRetryAt, fun time htime => ?_⟩
    rw [Config.admissible, hretryable.2 hleft, hpasses]
    simpa using htime

/-- It is enough that the queued items have attempts left. -/
theorem Config.pendingCanRun_of_queued {db : Db}
    (h : ∀ r ∈ db.selected cfg.runId, r.status = .queued → cfg.attemptsLeft r) :
    cfg.PendingCanRun db := by
  intro r hr hshown patterns _ hpasses
  refine (admissible_iff hshown hpasses).2 ?_
  rcases Config.shownPending_iff.1 hshown with hqueued | ⟨-, hleft⟩
  · exact h r hr hqueued
  · exact hleft

end

/-! ## What the statements do to the queued items -/

/-- The queued items of the run, and those that `U` adds, have attempts left. -/
def Config.QueuedLeft (cfg : Config) (U : String → Prop) (db : Db) : Prop :=
  ∀ r ∈ db.downloads.rows, (r.url ∈ db.runUrls cfg.runId ∨ U r.url) →
    r.status = .queued → cfg.attemptsLeft r

/-- The attempts after an UPDATE depend on those before it only. -/
theorem attempts_set_congr (u : Update) {r s : Row} (h : r.attempts = s.attempts) :
    (r.set u).attempts = (s.set u).attempts := by
  induction u generalizing r s with
  | nil => exact h
  | cons a u ih =>
    rw [Row.set_cons, Row.set_cons]
    refine ih ?_
    cases a <;> first | exact h | rfl

section
variable {cfg : Config} {U : String → Prop} {db db' : Db}

theorem Config.QueuedLeft.congr (h : cfg.QueuedLeft U db) (hd : db'.downloads = db.downloads)
    (hr : db'.runItems = db.runItems) : cfg.QueuedLeft U db' := by
  intro r hmem hin
  rw [hd] at hmem
  rw [Db.runUrls_congr hr] at hin
  exact h r hmem hin

/-- An UPDATE, by what it makes of the rows it finds. -/
theorem Config.QueuedLeft.updateWhere (h : cfg.QueuedLeft U db) {p : Row → Bool} {u : Update}
    (hu : ∀ r ∈ db.downloads.rows, p r = true → (r.url ∈ db.runUrls cfg.runId ∨ U r.url) →
      (r.set u).status = .queued → cfg.attemptsLeft (r.set u)) :
    cfg.QueuedLeft U (db.updateWhere p u) := by
  intro r hmem hin
  rw [Db.runUrls_congr (db.runItems_updateWhere p u)] at hin
  rw [Db.updateWhere, Lib.Table.rows_modify, List.mem_map] at hmem
  obtain ⟨s, hs, rfl⟩ := hmem
  by_cases hp : p s = true
  · rw [if_pos hp] at hin ⊢
    rw [Row.url_set] at hin
    exact hu s hs hp hin
  · rw [if_neg hp] at hin ⊢
    exact h s hs hin

/-- An UPDATE of other columns. -/
theorem Config.QueuedLeft.updateOther (h : cfg.QueuedLeft U db) {p : Row → Bool} {u : Update}
    (hu : ∀ r : Row, (r.set u).status = r.status ∧ (r.set u).attempts = r.attempts) :
    cfg.QueuedLeft U (db.updateWhere p u) := by
  refine h.updateWhere fun r hr _ hin hqueued => ?_
  rw [(hu r).1] at hqueued
  rw [Config.attemptsLeft, (hu r).2]
  exact h r hr hin hqueued

/-- A transition to `queued` of an item that has attempts left, or to another status. -/
theorem Config.QueuedLeft.transitioned (h : cfg.QueuedLeft U db) {runId : String} {old : Row}
    {status : Status} {detail : Option String} {fields : Update} {text : String}
    (hfields : Store.Update.KeepsStatus fields)
    (hleft : status = .queued → ∀ r ∈ db.downloads.rows, r.url = old.url →
      (r.url ∈ db.runUrls cfg.runId ∨ U r.url) → cfg.attemptsLeft (r.set fields)) :
    cfg.QueuedLeft U (db.transitioned runId old status detail fields text) := by
  have hupdated : cfg.QueuedLeft U
      (db.updateWhere (·.url = old.url) (Db.transitionUpdate status fields text)) := by
    refine h.updateWhere fun r hr hp hin hqueued => ?_
    have hstatus : (r.set (Db.transitionUpdate status fields text)).status = status := by
      rw [Db.transitionUpdate, Row.set_cons, Row.set_cons, Row.status_set hfields]
      rfl
    have hattempts : (r.set (Db.transitionUpdate status fields text)).attempts =
        (r.set fields).attempts := attempts_set_congr fields rfl
    rw [Config.attemptsLeft, hattempts]
    exact hleft (hstatus.symm.trans hqueued) r hr (of_decide_eq_true hp) hin
  exact hupdated.congr rfl rfl

theorem Config.QueuedLeft.importEntry (hmax : 0 ≤ cfg.maxAttempts) (h : cfg.QueuedLeft U db)
    (url rel stored staging : String) (size sha generation : Option String) (time : ℚ)
    (text : String) :
    cfg.QueuedLeft U (db.importEntry url rel stored staging size sha generation time text) := by
  have hinserted : cfg.QueuedLeft U { db with
      downloads := db.downloads.insertNew
        { url, relativePath := rel, storagePath := some stored, stagingPath := some staging,
          inventorySize := size, expectedSha256 := sha, updatedAt := text } } := by
    intro r hmem hin hqueued
    have hfind := Lib.Table.find?_eq_some.2 ⟨hmem, rfl⟩
    rw [Lib.Table.find?_insertNew, Option.or_eq_some_iff] at hfind
    rcases hfind with hfind | ⟨-, hfind⟩
    · exact h r (Lib.Table.find?_eq_some.1 hfind).1 hin hqueued
    · -- a new row has no attempts
      split at hfind
      · obtain rfl := Option.some.inj hfind
        rw [Config.attemptsLeft]
        show cfg.maxAttempts = 0 ∨ ((0 : ℕ) : ℤ) < cfg.maxAttempts
        omega
      · cases hfind
  unfold Db.importEntry Db.recordSourceGeneration
  exact (((hinserted.updateOther fun _ => ⟨rfl, rfl⟩).updateOther fun _ => ⟨rfl, rfl⟩).updateOther
    fun _ => ⟨rfl, rfl⟩).updateOther fun _ => ⟨rfl, rfl⟩

/-- A new item of the run is one of those that `U` adds. -/
theorem Config.QueuedLeft.insertRunItem (h : cfg.QueuedLeft U db) {item : RunItem}
    (hitem : item.runId = cfg.runId → U item.url) : cfg.QueuedLeft U (db.insertRunItem item) := by
  intro r hmem hin hqueued
  refine h r hmem ?_ hqueued
  rcases hin with hin | hin
  · obtain ⟨i, hi, hurl⟩ := List.mem_map.1 hin
    obtain ⟨hi, hrun⟩ := List.mem_filter.1 hi
    have hfind := Lib.Table.find?_eq_some.2 ⟨hi, rfl⟩
    rw [Db.insertRunItem, Lib.Table.find?_insertNew, Option.or_eq_some_iff] at hfind
    rcases hfind with hfind | ⟨-, hfind⟩
    · refine .inl (List.mem_map.2 ⟨i, List.mem_filter.2 ⟨?_, hrun⟩, hurl⟩)
      exact (Lib.Table.find?_eq_some.1 hfind).1
    · split at hfind
      · obtain rfl := Option.some.inj hfind
        exact .inr (hurl ▸ hitem (of_decide_eq_true hrun))
      · cases hfind
  · exact .inr hin

theorem Config.QueuedLeft.claimRecheck (h : cfg.QueuedLeft U db) (url : String) (claimedAt : ℚ)
    (text : String) : cfg.QueuedLeft U (db.claimRecheck url claimedAt text) := by
  intro r hmem hin
  rw [Db.claimRecheck, Lib.Table.rows_modify, List.mem_map] at hmem
  obtain ⟨s, hs, rfl⟩ := hmem
  split at hin
  · next hurl =>
    rw [if_pos hurl]
    rw [Row.url_set] at hin
    exact h s hs hin
  · next hurl =>
    rw [if_neg hurl]
    exact h s hs hin

/-- The commit of a control action. -/
theorem Config.QueuedLeft.commits (h : cfg.QueuedLeft U db) {runId : String} {changed : List Row}
    {u : Update} {o : Outcome} (ho : o.Commits db runId changed u)
    (hu : ∀ r ∈ changed, (r.url ∈ db.runUrls cfg.runId ∨ U r.url) →
      (r.set u).status = .queued → cfg.attemptsLeft (r.set u)) : cfg.QueuedLeft U o.db := by
  obtain ⟨_, _, _, _, _, hdb⟩ := ho.db_eq
  rw [hdb]
  refine Config.QueuedLeft.congr (h.updateWhere fun r hr hp hin => ?_) rfl rfl
  -- the row is one of the changed rows
  obtain ⟨s, hs, hurl⟩ := List.mem_map.1 (of_decide_eq_true hp)
  have hmem := (Lib.Table.mem_join.1 (ho.selected s hs)).2
  obtain rfl : s = r := List.inj_on_of_nodup_map db.downloads.nodup hmem hr hurl
  exact hu s hs hin

end

/-! ## What the operations do to them -/

/-- What the startup programs may do: no item goes back to `queued`. -/
def noQueued : Perms where
  moves _ status := status ≠ .queued

section
variable {cfg cfg' : Config} {U : String → Prop} {w w' : World} {e : Env} {A : Env → Prop}

/-- A step without a new item of the run. -/
theorem Step.keepsQueued (hs : Step cfg' noQueued w e w') : KeepsDb (cfg.QueuedLeft U) w e w' := by
  intro h h'
  cases hs with
  | quiet hdb hdisk => exact ⟨hdb ▸ h, hdisk ▸ h'⟩
  | aside hrows hdisk =>
    have hdb := h.congr hrows.downloads hrows.runItems
    refine ⟨hdb, ?_⟩
    rcases hdisk with hdisk | hdisk <;> rw [hdisk]
    · exact h'
    · exact hdb
  | rollback => exact ⟨h', h'⟩
  | transition hp hfields hold =>
    exact ⟨h.transitioned hfields fun hqueued => absurd hqueued hp,
      h.transitioned hfields fun hqueued => absurd hqueued hp⟩
  | failure _ hdb hdisk => exact ⟨hdb ▸ h, hdisk ▸ h'⟩
  | note => exact ⟨h, h'⟩
  | engine _ hdb hdisk => exact ⟨hdb ▸ h, hdisk ▸ h'⟩
  | importEntry hp => exact hp.elim
  | select hp => exact hp.elim

theorem uses_of_steps (cfg' : Config) {α : Type} {p : Ctl α} (hp : p.Uses (Step cfg' noQueued)) :
    p.Uses (KeepsDb (cfg.QueuedLeft U)) := hp.mono fun _ _ _ => Step.keepsQueued

theorem uses_importQueues_queued (hmax : 0 ≤ cfg.maxAttempts) :
    (importQueues cfg').Uses (KeepsDb (cfg.QueuedLeft U)) := by
  refine (Prog.uses_forEach fun entry _ => ?_).bind fun _ =>
    uses_of_steps cfg' (uses_dbCommit_aside fun db _ => .refl db)
  refine Prog.Uses.bind (uses_of_steps cfg' (uses_osLook _)) fun _ => Prog.uses_call fun w e => ?_
  split
  · exact .rollback
  · exact .change fun h => h.importEntry hmax _ _ _ _ _ _ _ _ _

/-- The loop of `scope_run` selects entries of its queue. -/
theorem uses_scopeEntries_queued {entries : List QueueEntry}
    (hU : cfg'.runId = cfg.runId → ∀ entry ∈ entries, U entry.url) (selected : ℕ) :
    (scopeEntries cfg' entries selected).Uses (KeepsDb (cfg.QueuedLeft U)) := by
  induction entries generalizing selected with
  | nil => trivial
  | cons entry rest ih =>
    unfold scopeEntries
    split
    · trivial
    · refine Prog.Uses.bind ?_ (ih fun hrun other hother =>
        hU hrun other (List.mem_cons_of_mem _ hother))
      unfold scopeEntry
      refine (uses_of_steps cfg' (uses_osLook _)).bind fun _ =>
        (uses_of_steps cfg' (uses_osLook _)).bind fun there => ?_
      split
      · refine (uses_of_steps cfg' (uses_dbLook _)).bind fun _ => ?_
        split
        · refine Prog.Uses.bind (uses_of_steps cfg' (uses_reconcileExistingFile ?_ _ _ _ _))
            fun _ => trivial
          simp [noQueued]
        · trivial
      · refine Prog.Uses.bind (Prog.uses_call fun w e => ?_) fun _ => trivial
        split
        · exact .rollback
        · exact .change fun h => h.insertRunItem fun hrun => hU hrun entry List.mem_cons_self

/-- `scope_run` selects entries of its queue if the run has no item yet. -/
theorem along_scopeRun_queued (hU : cfg'.runId = cfg.runId → w.db.runUrls cfg.runId = [] →
    ∀ entry ∈ cfg'.queue.rows, U entry.url) :
    (scopeRun cfg').Along A (KeepsDb (cfg.QueuedLeft U)) w := by
  refine Prog.along_bind.2 ⟨along_dbChange fun e h => h.congr rfl rfl, fun _ w₁ h₁ => ?_⟩
  have hsame : w₁.db.runItems = w.db.runItems := by
    obtain ⟨e, -, hend⟩ := Prog.ends_call.1 h₁
    split at hend
    · cases hend
    · obtain ⟨-, rfl⟩ := Prod.mk.inj hend
      rfl
  refine Prog.along_bind.2 ⟨Prog.Uses.along (uses_of_steps cfg' (uses_dbLook _)) w₁,
    fun previous w₂ h₂ => ?_⟩
  obtain ⟨e, -, hprevious, rfl⟩ := ends_dbLook_ok h₂
  rw [Db.runUrls_congr hsame] at hprevious
  unfold scopeSelection
  split
  · exact Prog.Uses.along ((uses_of_steps cfg' (uses_dbCommit_aside fun db _ => .refl db)).bind
      fun _ => Prog.uses_ret _) w₂
  · next hzero =>
    refine Prog.Uses.along ((uses_scopeEntries_queued (fun hrun => hU hrun ?_) 0).bind
      fun _ => ?_) w₂
    · rw [← hrun]
      exact List.length_eq_zero_iff.1 (hprevious.trans (not_not.1 hzero))
    · have hadvance : (dbCommit fun db _ => .ok (db.advanceRevision cfg'.runId)).Uses
          (Step cfg' noQueued) := uses_dbCommit_aside fun _ _ => ⟨rfl, rfl, rfl, rfl⟩
      exact (uses_of_steps cfg' hadvance).bind fun _ => Prog.uses_ret _

/-- A transition of a known item. -/
theorem along_transition_queued {url : String} {status : Status} {detail : Option String}
    {fields : Update} (hfields : Store.Update.KeepsStatus fields)
    (hleft : status = .queued → ∀ r ∈ w.db.downloads.rows, r.url = url →
      (r.url ∈ w.db.runUrls cfg.runId ∨ U r.url) → cfg.attemptsLeft (r.set fields)) :
    (transition cfg' url status detail fun _ => fields).Along A (KeepsDb (cfg.QueuedLeft U)) w := by
  refine Prog.along_handle.2 ⟨along_dbCommit fun e db hdb h => ?_, fun x w' _ => ?_⟩
  · cases hold : w.db.downloads.find? url with
    | none => simp [Db.transition, hold] at hdb
    | some old =>
      simp only [Db.transition, hold, Option.map_some, Except.ok.injEq] at hdb
      subst hdb
      refine h.transitioned hfields fun hqueued r hr hurl => ?_
      exact hleft hqueued r hr (hurl.trans (Lib.Table.find?_key hold))
  · refine Prog.Uses.along (uses_of_steps cfg' ?_) w'
    cases x <;> first | exact uses_sqliteFailure | trivial

/-- An action on items, by what it makes of the rows it finds. -/
theorem Config.QueuedLeft.handle {db : Db} {runId : String} {a : Store.ItemAction} {q : Request}
    (clock : Clock) (hleft : q.requestId.bind db.controlRequests.find? = none →
      ∀ ids, Store.itemIds (q.parameters.get "item_ids") = some ids →
        ∀ r ∈ a.changedRows (db.selected runId) ids, (r.url ∈ db.runUrls cfg.runId ∨ U r.url) →
          (r.set a.update).status = .queued → cfg.attemptsLeft (r.set a.update))
    (h : cfg.QueuedLeft U db) : cfg.QueuedLeft U (a.handle db runId q clock).db := by
  by_cases hseen : (q.requestId.bind db.controlRequests.find?).isSome
  · rw [a.handle_seen clock hseen]
    exact h
  · rcases a.handle_cases db runId q clock with hidle | ⟨ids, hids, hc, -⟩
    · rw [hidle.1]
      exact h
    · refine h.commits hc fun r hr hin hqueued => ?_
      rw [Row.set_append] at hqueued ⊢
      exact hleft (Option.not_isSome_iff_eq_none.1 hseen) ids hids r hr hin hqueued

end

/-! ## Runs -/

/-- Every row of the run that the control action returns to `queued` has attempts left. -/
def Config.ReturnsLeft (cfg : Config) (a : Store.ItemAction) (db : Db) (runId : String)
    (q : Request) : Prop :=
  match q.requestId.bind db.controlRequests.find?, Store.itemIds (q.parameters.get "item_ids") with
  | none, some ids => ∀ r ∈ a.changedRows (db.selected runId) ids, r.url ∈ db.runUrls cfg.runId →
      cfg.attemptsLeft r
  | _, _ => True

instance (cfg : Config) (a : Store.ItemAction) (db : Db) (runId : String) (q : Request) :
    Decidable (cfg.ReturnsLeft a db runId q) :=
  decidable_of_iff ((q.requestId.bind db.controlRequests.find?).isNone = true →
    ∀ ids ∈ Store.itemIds (q.parameters.get "item_ids"),
      ∀ r ∈ a.changedRows (db.selected runId) ids, r.url ∈ db.runUrls cfg.runId →
        cfg.attemptsLeft r) (by
      unfold Config.ReturnsLeft
      cases q.requestId.bind db.controlRequests.find? <;>
        cases Store.itemIds (q.parameters.get "item_ids") <;> simp)

/-- What an event puts into the run as `queued`, or returns to `queued` in it, has attempts left. -/
def World.QueuesLeft (cfg : Config) (w : World) : Event → Prop
  | .operation cfg' .scopeRun _ => cfg'.runId = cfg.runId → w.db.runUrls cfg.runId = [] →
      ∀ entry ∈ cfg'.queue.rows, ∀ db ∈ [w.db, w.disk], ∀ r ∈ db.downloads.rows,
        r.url = entry.url → r.status = .queued → cfg.attemptsLeft r
  | .operation cfg' .requeueInterruptedTransfers _ => ∀ r ∈ w.db.selected cfg'.runId,
      r.status ∈ interruptedStatuses → r.url ∈ w.db.runUrls cfg.runId → cfg.attemptsLeft r
  | .operation _ (.transition url .queued _ fields) _ => ∀ r ∈ w.db.selected cfg.runId,
      r.url = url → cfg.attemptsLeft (r.set fields.1)
  | .operation cfg' (.control .resumeNewGeneration q) _ =>
      cfg.ReturnsLeft Store.resumeNewGeneration w.db cfg'.runId q
  | .operation cfg' (.control .retryAccessDenied q) _ =>
      cfg.ReturnsLeft Store.retryAccessDenied w.db cfg'.runId q
  | _ => True

instance (cfg : Config) (w : World) (ev : Event) : Decidable (w.QueuesLeft cfg ev) := by
  cases ev with
  | operation cfg' op =>
    cases op with
    | transition url status => cases status <;> (dsimp only [World.QueuesLeft]; infer_instance)
    | control a => cases a <;> (dsimp only [World.QueuesLeft]; infer_instance)
    | _ => dsimp only [World.QueuesLeft]; infer_instance
  | _ => exact inferInstanceAs (Decidable True)

section
variable {cfg : Config} {w w' : World}

/-- The queued items of the run have attempts left. -/
structure World.Left (cfg : Config) (w : World) : Prop where
  db : cfg.QueuedLeft (fun _ => False) w.db
  disk : cfg.QueuedLeft (fun _ => False) w.disk

theorem Config.QueuedLeft.mono {U V : String → Prop} {db : Db} (h : cfg.QueuedLeft U db)
    (hVU : ∀ url, V url → U url) : cfg.QueuedLeft V db :=
  fun r hr hin => h r hr (hin.imp_right (hVU r.url))

/-- An operation that keeps the queued items, from the state before it. -/
theorem World.Left.ends {U : String → Prop} {α : Type} {p : Ctl α} {A : Env → Prop}
    {x : Except Exc α} (hp : p.Along A (KeepsDb (cfg.QueuedLeft U)) w) (hdb : cfg.QueuedLeft U w.db)
    (hdisk : cfg.QueuedLeft U w.disk) (hend : p.Ends A w x w') : w'.Left cfg := by
  obtain ⟨hdb', hdisk'⟩ := ends_keepsDb hp hdb hdisk hend
  exact ⟨hdb'.mono fun _ => False.elim, hdisk'.mono fun _ => False.elim⟩

/-- **A control action** keeps them, if what it returns to `queued` has attempts left. -/
theorem along_control_queued {cfg' : Config} {A : Env → Prop} {a : ControlAction} {q : Request}
    {answers : List Env} (h : w.QueuesLeft cfg (.operation cfg' (.control a q) answers)) :
    (control cfg' q a).Along A (KeepsDb (cfg.QueuedLeft fun _ => False)) w := by
  have hflag : ∀ (f : FlagAction), (∀ w, (f.effect w).db = w.db ∧ (f.effect w).disk = w.disk) →
      (andWake f.wakes (flagControl cfg' f q)).Along A
        (KeepsDb (cfg.QueuedLeft fun _ => False)) w := fun f hf =>
    along_andWake ((uses_flagControl (fun _ _ _ _ _ _ _ h => h.congr rfl rfl) f hf q).along w)
  have hreturns : ∀ (item : Store.ItemAction), cfg.ReturnsLeft item w.db cfg'.runId q →
      (∀ r : Row, (r.set item.update).attempts = r.attempts) → ∀ clock,
        cfg.QueuedLeft (fun _ => False) w.db →
          cfg.QueuedLeft (fun _ => False) (item.handle w.db cfg'.runId q clock).db := by
    intro item hleft hattempts clock
    refine Config.QueuedLeft.handle clock fun hseen ids hids r hr hin _ => ?_
    rw [Config.attemptsLeft, hattempts]
    rw [Config.ReturnsLeft, hseen, hids] at hleft
    exact hleft r hr (hin.resolve_right id)
  -- an action that leaves the status and the attempts alone
  have hother : ∀ (item : Store.ItemAction), (∀ r : Row,
      (r.set item.update).status = r.status ∧ (r.set item.update).attempts = r.attempts) →
        ∀ clock, cfg.QueuedLeft (fun _ => False) w.db →
          cfg.QueuedLeft (fun _ => False) (item.handle w.db cfg'.runId q clock).db := by
    intro item hkeeps clock hw
    refine Config.QueuedLeft.handle clock (fun _ ids _ r hr hin hqueued => ?_) hw
    rw [(hkeeps r).1] at hqueued
    rw [Config.attemptsLeft, (hkeeps r).2]
    exact hw r (Lib.Table.mem_join.1 (item.mem_changedRows hr).1).2 hin hqueued
  cases a with
  | retryNow =>
    refine along_andWake (along_itemControl fun clock hw => ?_)
    rcases Store.retryNow_cases w.db cfg'.runId q clock with hidle | ⟨changed, -, -, hc, -⟩
    · rw [hidle.1]
      exact hw
    · refine hw.commits hc fun r hr hin hqueued => ?_
      exact hw r (Lib.Table.mem_join.1 (hc.selected r hr)).2 hin hqueued
  | excludeItem =>
    refine along_andWake (along_itemControl fun clock => Config.QueuedLeft.handle clock ?_)
    intro _ _ _ r _ _ hqueued
    cases hqueued
  | resumeNewGeneration =>
    have hkept := hreturns Store.resumeNewGeneration h fun r => by
      simp [Store.resumeNewGeneration, Store.Assign.apply]
    exact along_andWake (along_itemControl hkept)
  | retryAccessDenied =>
    have hkept := hreturns Store.retryAccessDenied h fun r => by
      simp [Store.retryAccessDenied, Store.Assign.apply]
    exact along_andWake (along_itemControl hkept)
  | setItemPriority =>
    have hkept := hother (Store.setItemPriority (q.parameters.get "priority")) fun r => by
      simp [Store.setItemPriority, Store.Assign.apply]
    exact along_andWake (along_itemControl hkept)
  | setRetryCooldown =>
    have hkept := fun clock : Clock => hother
      (Store.setRetryCooldown (q.parameters.get "cooldown_s") clock) (fun r => by
        simp [Store.setRetryCooldown, Store.Assign.apply]) clock
    exact along_andWake (along_itemControl hkept)
  | pauseAdmission => exact hflag _ fun _ => ⟨rfl, rfl⟩
  | resumeAdmission => exact hflag _ fun _ => ⟨rfl, rfl⟩
  | drainAndStop => exact hflag _ fun _ => ⟨rfl, rfl⟩
  | checkpointStop => exact hflag _ fun _ => ⟨rfl, rfl⟩

/-- **An event** keeps them, if what it queues has attempts left. -/
theorem World.Left.happens (hmax : 0 ≤ cfg.maxAttempts) (h : w.Left cfg) {ev : Event}
    (hguard : w.QueuesLeft cfg ev) (hev : w.happens ev = some w') : w'.Left cfg := by
  cases ev with
  | operation cfg' op answers =>
    obtain ⟨⟨x, t⟩, hexec, rfl⟩ := Option.map_eq_some_iff.1 hev
    have hend := Prog.ends_of_execute (A := fun _ => True) (fun _ _ => trivial) hexec
    cases op with
    | importQueues => exact .ends ((uses_importQueues_queued hmax).along w) h.db h.disk hend
    | scopeRun =>
      -- the items that the run may select
      set U : String → Prop := fun url => cfg'.runId = cfg.runId ∧ w.db.runUrls cfg.runId = [] ∧
        ∃ entry ∈ cfg'.queue.rows, entry.url = url with hU
      have hleft : ∀ db ∈ [w.db, w.disk], cfg.QueuedLeft (fun _ => False) db →
          cfg.QueuedLeft U db := by
        rintro db hdb hw r hr (hin | ⟨hrun, hnone, entry, hentry, hurl⟩) hqueued
        · exact hw r hr (.inl hin) hqueued
        · exact hguard hrun hnone entry hentry db hdb r hr hurl.symm hqueued
      have hscope : (scopeRun cfg').Along (fun _ => True) (KeepsDb (cfg.QueuedLeft U)) w :=
        along_scopeRun_queued fun hrun hnone entry hentry => ⟨hrun, hnone, entry, hentry, rfl⟩
      exact .ends (Prog.along_bind.2 ⟨hscope, fun _ _ _ => (Prog.uses_ret _).along _⟩)
        (hleft _ (by simp) h.db) (hleft _ (by simp) h.disk) hend
    | reconcilePromotions =>
      refine .ends ((uses_of_steps cfg' (uses_reconcilePromotions ?_)).along w) h.db h.disk hend
      simp [noQueued]
    | requeueInterruptedTransfers =>
      refine .ends (along_requeue fun text hw => hw.updateWhere fun r hr hp hin _ => ?_) h.db h.disk
        hend
      obtain ⟨hstatus, hurl⟩ := Bool.and_eq_true_iff.1 hp
      exact hguard r (Lib.Table.mem_join.2 ⟨of_decide_eq_true hurl, hr⟩) (of_decide_eq_true hstatus)
        (hin.resolve_right id)
    | transition url status detail fields =>
      refine .ends (along_transition_queued fields.2 ?_) h.db h.disk hend
      rintro rfl r hr hurl hin
      exact hguard r (Lib.Table.mem_join.2 ⟨hin.resolve_right id, hr⟩) hurl
    | claimRecheck url =>
      have hclaim : (claimRecheck url).Along (fun _ => True)
          (KeepsDb (cfg.QueuedLeft fun _ => False)) w := along_dbCommit fun e db hdb hw => by
        obtain rfl := Except.ok.inj hdb
        exact hw.claimRecheck _ _ _
      exact .ends hclaim h.db h.disk hend
    | control a q =>
      exact .ends (Prog.along_bind.2 ⟨along_control_queued hguard, fun _ _ _ =>
        (Prog.uses_ret _).along _⟩) h.db h.disk hend
  | restart =>
    obtain rfl := Option.some.inj hev
    exact ⟨h.disk, h.disk⟩
  | outside fs records =>
    obtain rfl := Option.some.inj hev
    exact ⟨h.db, h.disk⟩

end

/-- **What is shown as pending is admissible in time**, after any events that queue only
    items with attempts left. -/
theorem pending_can_run {cfg : Config} (hmax : 0 ≤ cfg.maxAttempts) {w w' : World}
    (hrun : GRun World.happens (World.QueuesLeft cfg) w.emptied w') :
    cfg.PendingCanRun w'.db := by
  have hempty : ∀ U, cfg.QueuedLeft U {} := fun _ _ hr => by cases hr
  have hleft : w'.Left cfg := hrun.invariant (World.Left cfg) ⟨hempty _, hempty _⟩
    fun _ _ _ h hguard hev => h.happens hmax hguard hev
  refine Config.pendingCanRun_of_queued fun r hr hqueued => ?_
  obtain ⟨hurl, hmem⟩ := Lib.Table.mem_join.1 hr
  exact hleft.db r hmem (.inl hurl) hqueued

/-! ## An item that went back after its last attempt -/

/-- A number of attempts for each item. -/
def attemptsOf (n : ℤ) : Config := { oneEntry with maxAttempts := n }

/-- The item of the entry is tried once, the source denies access, and the operator returns
    the item to `queued`. -/
def deniedAndRetried (cfg : Config) : List Event :=
  [.operation cfg .importQueues (List.replicate 3 {}),
   .operation cfg .scopeRun (List.replicate 6 {}),
   .operation cfg (.transition "https://host/set/a.bin" .active none
     ⟨[.attempts 1], by decide⟩) [{}],
   .operation cfg (.transition "https://host/set/a.bin" .reviewRequired none
     ⟨[.reviewCode (some "access_denied")], by decide⟩) [{}],
   .operation cfg (.control .retryAccessDenied oneItem) [{}]]

/-- With two attempts it has one left. -/
def retried : World :=
  (Lib.exec World.happens (World.QueuesLeft (attemptsOf 2)) emptyWorld.emptied
    (deniedAndRetried (attemptsOf 2))).get (by decide)

theorem pending_can_run_retried : (attemptsOf 2).PendingCanRun retried.db :=
  pending_can_run (by decide) (Lib.GRun.of_exec (Option.some_get _).symm)

/-- With one attempt it is shown as queued and never admissible. -/
theorem retried_cannot_run : ¬ ∀ (cfg : Config), 0 ≤ cfg.maxAttempts → ∀ w w' : World,
    GRun World.happens (fun _ _ => True) w.emptied w' → cfg.PendingCanRun w'.db := by
  intro hall
  set after := Lib.exec World.happens (fun _ _ => True) emptyWorld.emptied
    (deniedAndRetried (attemptsOf 1)) with hafter
  obtain ⟨w, hw⟩ : ∃ w, after = some w := Option.isSome_iff_exists.1 (by decide +kernel)
  have hcan := hall (attemptsOf 1) (by decide) _ w (Lib.GRun.of_exec (hafter ▸ hw))
  -- the item is queued after its last attempt, and no origin is paused
  have hqueued : after.all fun w => decide (∃ r ∈ w.db.selected "run",
      r.status = .queued ∧ r.attempts = 1) := by decide +kernel
  have hopen : after.all fun w => decide (((w.db.selected "run").filter accessDenied) = []) := by
    decide +kernel
  rw [hw, Option.all_some, decide_eq_true_eq] at hqueued hopen
  obtain ⟨r, hr, hstatus, hattempts⟩ := hqueued
  have hpatterns : accessDeniedPatterns w.db "run" = .ok [] := by
    rw [accessDeniedPatterns, hopen]
    rfl
  have hshown : (attemptsOf 1).shownPending r := Config.shownPending_iff.2 (.inl hstatus)
  obtain hleft := (admissible_iff hshown rfl).1 (hcan r hr hshown [] hpatterns rfl)
  rw [Config.attemptsLeft, hattempts] at hleft
  revert hleft
  decide

end TodDl.Controller
