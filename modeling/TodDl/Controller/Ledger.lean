/-
  The controller — what is on disk stays there (tod-dl.py, `run`, `transition`, `import_queues`,
  `scope_run`, `control_action`).

  The statements of the controller insert rows and change columns that are not keys; none
  deletes a row.  `Grows` says so of two databases, and `Logs` of a step of the connection,
  whose transaction may be lost.

  `disk_grows`: over any run of sessions the items with their paths, the selections with
  their ranks, the transitions and the answers to requests are only added to.
-/
import TodDl.Controller.Retired

namespace TodDl.Controller

open Lib (FileTree GRun Prog Table)
open Store (Db Row Update Request Clock Outcome)

/-! ## Databases -/

/-- What names an item: its URL and the path of its file. -/
def placed (db : Db) : List (String × String) :=
  db.downloads.rows.map fun r => (r.url, r.relativePath)

/-- Rows are added to a database, and what names a row is kept. -/
structure Grows (db db' : Db) : Prop where
  items : placed db <+: placed db'
  runItems : db.runItems.rows <+: db'.runItems.rows
  transitions : db.transitions <+: db'.transitions
  controlRequests : db.controlRequests.rows <+: db'.controlRequests.rows

section
variable {db db' db'' : Db} {runId : String}

@[refl] theorem Grows.refl (db : Db) : Grows db db :=
  ⟨List.prefix_rfl, List.prefix_rfl, List.prefix_rfl, List.prefix_rfl⟩

@[trans] theorem Grows.trans (h : Grows db db') (h' : Grows db' db'') : Grows db db'' :=
  ⟨h.items.trans h'.items, h.runItems.trans h'.runItems, h.transitions.trans h'.transitions,
    h.controlRequests.trans h'.controlRequests⟩

/-- `INSERT OR IGNORE` keeps the rows that are there. -/
theorem prefix_insertNew {α κ : Type} [DecidableEq κ] {key : α → κ} (t : Table key) (a : α) :
    t.rows <+: (t.insertNew a).rows := by
  unfold Table.insertNew
  split
  · exact List.prefix_rfl
  · exact List.prefix_append _ _

theorem relativePath_set (r : Row) (u : Update) : (r.set u).relativePath = r.relativePath := by
  induction u generalizing r with
  | nil => rfl
  | cons a u ih =>
    rw [Store.Row.set_cons, ih]
    cases a <;> rfl

/-- No UPDATE renames an item. -/
theorem placed_updateWhere (db : Db) (p : Row → Bool) (u : Update) :
    placed (db.updateWhere p u) = placed db := by
  simp only [placed, Db.updateWhere, Table.rows_modify, List.map_map]
  refine List.map_congr_left fun r _ => ?_
  simp only [Function.comp]
  split
  · rw [Store.Row.url_set, relativePath_set]
  · rfl

/-- An UPDATE of columns that are not keys. -/
theorem grows_updateWhere (db : Db) (p : Row → Bool) (u : Update) :
    Grows db (db.updateWhere p u) :=
  ⟨(placed_updateWhere db p u).symm ▸ List.prefix_rfl, List.prefix_rfl, List.prefix_rfl,
    List.prefix_rfl⟩

theorem Grows.same (hd : db'.downloads = db.downloads) (hr : db'.runItems = db.runItems)
    (ht : db'.transitions = db.transitions) (hc : db'.controlRequests = db.controlRequests) :
    Grows db db' :=
  ⟨by rw [placed, placed, hd], by rw [hr], by rw [ht], by rw [hc]⟩

/-- A transition adds its row. -/
theorem grows_transitioned (old : Row) (status : Store.Status) (detail : Option String)
    (fields : Update) (text : String) :
    Grows db (db.transitioned runId old status detail fields text) :=
  (grows_updateWhere db _ _).trans
    ⟨List.prefix_rfl, List.prefix_rfl, List.prefix_append _ _, List.prefix_rfl⟩

theorem grows_claimRecheck (url : String) (time : ℚ) (text : String) :
    Grows db (db.claimRecheck url time text) := by
  refine ⟨?_, List.prefix_rfl, List.prefix_rfl, List.prefix_rfl⟩
  have hplaced : placed (db.claimRecheck url time text) = placed db := by
    simp only [placed, Db.claimRecheck, Table.rows_modify, List.map_map]
    refine List.map_congr_left fun r _ => ?_
    simp only [Function.comp]
    split
    · rw [Store.Row.url_set, relativePath_set]
    · rfl
  rw [hplaced]

/-- A queue entry adds a row, or none. -/
theorem grows_importEntry (url rel stored staging : String) (size sha generation : Option String)
    (time : ℚ) (text : String) :
    Grows db (db.importEntry url rel stored staging size sha generation time text) := by
  have hinserted : ∀ r : Row, Grows db { db with downloads := db.downloads.insertNew r } := fun r =>
    ⟨(prefix_insertNew db.downloads r).map _, List.prefix_rfl, List.prefix_rfl, List.prefix_rfl⟩
  unfold Db.importEntry Db.recordSourceGeneration
  exact (hinserted _).trans <| (grows_updateWhere ..).trans <| (grows_updateWhere ..).trans <|
    (grows_updateWhere ..).trans (grows_updateWhere ..)

theorem grows_insertRunItem (i : Store.RunItem) : Grows db (db.insertRunItem i) :=
  ⟨List.prefix_rfl, prefix_insertNew _ _, List.prefix_rfl, List.prefix_rfl⟩

/-- A control action adds its audit row and its answer. -/
theorem grows_commits {o : Outcome} {changed : List Row} {u : Update}
    (h : o.Commits db runId changed u) : Grows db o.db := by
  obtain ⟨_, _, _, _, _, hdb⟩ := h.db_eq
  rw [hdb]
  exact (grows_updateWhere db _ u).trans
    ⟨List.prefix_rfl, List.prefix_rfl, List.prefix_append _ _, prefix_insertNew _ _⟩

theorem grows_handle (a : Store.ItemAction) (q : Request) (clock : Clock) :
    Grows db (a.handle db runId q clock).db := by
  rcases a.handle_cases db runId q clock with hidle | ⟨ids, -, hc, -⟩
  · rw [hidle.1]
  · exact grows_commits hc

theorem grows_retryNow (q : Request) (clock : Clock) :
    Grows db (Store.controlRetryNow db runId q clock).db := by
  rcases Store.retryNow_cases db runId q clock with hidle | ⟨changed, -, -, hc, -⟩
  · rw [hidle.1]
  · exact grows_commits hc

theorem grows_storeReply (cfg : Config) (a b c d f g : String) :
    Grows db (storeReply cfg db a b c d f g) :=
  ⟨List.prefix_rfl, List.prefix_rfl, List.prefix_rfl, prefix_insertNew _ _⟩

end

/-! ## Steps of the connection -/

/-- The connection sees what is committed, and both only grow. -/
def Logs (w : World) (_ : Env) (w' : World) : Prop :=
  Grows w.disk w.db → Grows w'.disk w'.db ∧ Grows w.disk w'.disk

section
variable {w w' : World} {e : Env} {cfg : Config}

theorem Logs.same (hdb : w'.db = w.db) (hdisk : w'.disk = w.disk) : Logs w e w' :=
  fun h => ⟨by rw [hdb, hdisk]; exact h, by rw [hdisk]⟩

theorem Logs.commit {db : Db} (h : Grows w.db db) : Logs w e { w with db, disk := db } :=
  fun hw => ⟨.refl db, hw.trans h⟩

theorem Logs.change {db : Db} (h : Grows w.db db) : Logs w e { w with db } :=
  fun hw => ⟨hw.trans h, .refl _⟩

theorem Logs.rollback : Logs w e { w with db := w.disk } := fun _ => ⟨.refl _, .refl _⟩

/-- Every step but a claim or a request is one of these. -/
def everyMove : Perms where
  moves _ _ := True
  engines := True
  imports := True

theorem Step.logs (hs : Step cfg everyMove w e w') : Logs w e w' := by
  cases hs with
  | quiet hdb hdisk => exact .same hdb hdisk
  | aside hrows hdisk =>
    have hgrows : Grows w.db w'.db :=
      .same hrows.downloads hrows.runItems hrows.transitions hrows.controlRequests
    intro hw
    rcases hdisk with hdisk | hdisk <;> rw [hdisk]
    · exact ⟨hw.trans hgrows, .refl _⟩
    · exact ⟨.refl _, hw.trans hgrows⟩
  | rollback => exact .rollback
  | transition => exact .commit (grows_transitioned ..)
  | failure code hdb hdisk => exact .same hdb hdisk
  | note => exact .same rfl rfl
  | engine _ hdb hdisk => exact .same hdb hdisk
  | importEntry => exact .change (grows_importEntry ..)
  | select => exact .change (grows_insertRunItem _)

theorem uses_logs {α : Type} {p : Ctl α} (hp : p.Uses (Step cfg everyMove)) : p.Uses Logs :=
  hp.mono fun _ _ _ => Step.logs

theorem uses_change_logs {f : Db → Env → Db} (h : ∀ db e, Grows db (f db e)) :
    (dbChange f).Uses Logs := by
  refine Prog.uses_call fun w e => ?_
  split
  · exact .rollback
  · exact .change (h _ _)

theorem uses_commit_logs {f : Db → Env → Db} (h : ∀ db e, Grows db (f db e)) :
    (dbCommit fun db e => .ok (f db e)).Uses Logs := by
  refine Prog.uses_call fun w e => ?_
  rcases e.sqlFault with _ | _ | _
  · exact .commit (h _ _)
  · exact .rollback
  · exact .commit (h _ _)

/-! ## Programs -/

theorem startup_logs : (startup cfg).Uses Logs :=
  uses_startup_of (P := everyMove) (fun _ _ _ => trivial) trivial trivial (fun _ _ _ => Step.logs)
    (uses_commit_logs fun _ _ => grows_updateWhere _ _ _)
    (uses_change_logs fun _ _ => grows_updateWhere _ _ _)
    (uses_change_logs fun _ _ => grows_updateWhere _ _ _) fun _ _ _ => .same rfl rfl

theorem query_logs {β : Type} (f : Db → ℚ → Except Provenance.Failure β) :
    (query f).Uses Logs := by
  refine Prog.uses_call fun w e => ?_
  split <;> exact .same rfl rfl

theorem admitNext_logs : (admitNext cfg).Uses Logs := by
  have hstep : (dbLook fun db e => nextRecheck db cfg.runId e.time).Uses (Step cfg everyMove) :=
    uses_dbLook _
  have hlook := uses_logs hstep
  unfold admitNext
  refine (query_logs _).bind fun found => ?_
  split
  · exact (uses_logs (uses_transition trivial _ _ fun _ => by simp)).bind fun _ => trivial
  · refine hlook.bind fun due => ?_
    split
    · trivial
    · exact (uses_commit_logs fun db e => grows_claimRecheck _ _ _).bind fun _ => trivial

theorem task_logs (task : Task) : (task.program cfg).Uses Logs := by
  cases task with
  | transfer row => exact uses_logs (uses_transfer (fun _ _ => trivial) trivial)
  | recheck row => exact uses_logs (uses_recheckUnavailable fun _ _ => trivial)

theorem andWake_logs {wakes : Bool} {p : Ctl (Store.Reply × Bool)} (hp : p.Uses Logs) :
    (andWake wakes p).Uses Logs := by
  refine hp.bind fun reply => ?_
  obtain ⟨reply, accepted⟩ := reply
  dsimp only
  split
  · exact (Prog.uses_change fun _ _ => .same rfl rfl).bind fun _ => trivial
  · trivial

theorem itemControl_logs {handler : Db → String → Request → Clock → Outcome} {q : Request}
    (h : ∀ db clock, Grows db (handler db cfg.runId q clock).db) :
    (itemControl cfg handler q).Uses Logs := by
  refine Prog.uses_call fun w e => ?_
  dsimp only
  split
  · exact .rollback
  · exact .commit (h _ _)
  · exact .same rfl rfl
  · exact .commit (h _ _)
  · exact .same rfl rfl

theorem flagControl_logs {f : FlagAction} (hf : ∀ w, (f.effect w).db = w.db ∧
    (f.effect w).disk = w.disk) (q : Request) : (flagControl cfg f q).Uses Logs := by
  unfold flagControl
  split
  · refine Prog.uses_call fun w e => ?_
    dsimp only
    split
    · exact .same rfl rfl
    · generalize hflags : (if (f.refusal w).isSome then w else f.effect w) = w₁
      have hw₁ : w₁.db = w.db ∧ w₁.disk = w.disk := by
        subst hflags
        split
        · exact ⟨rfl, rfl⟩
        · exact hf w
      intro hw
      split
      · exact ⟨.refl _, by rw [hw₁.2]⟩
      · exact ⟨.refl _, hw.trans (hw₁.1 ▸ grows_storeReply ..)⟩
      · exact ⟨.refl _, hw.trans (hw₁.1 ▸ grows_storeReply ..)⟩
  · trivial

theorem control_logs (q : Request) (a : ControlAction) : (control cfg q a).Uses Logs := by
  have hitem : ∀ {wakes : Bool} (item : Store.ItemAction),
      (andWake wakes (itemControl cfg item.handle q)).Uses Logs := fun item =>
    andWake_logs (itemControl_logs fun _ _ => grows_handle ..)
  have hflag : ∀ f : FlagAction, (∀ w, (f.effect w).db = w.db ∧ (f.effect w).disk = w.disk) →
      (andWake f.wakes (flagControl cfg f q)).Uses Logs := fun f hf =>
    andWake_logs (flagControl_logs hf q)
  cases a with
  | retryNow => exact andWake_logs (itemControl_logs fun _ _ => grows_retryNow ..)
  | excludeItem => exact hitem Store.excludeItem
  | resumeNewGeneration => exact hitem Store.resumeNewGeneration
  | retryAccessDenied => exact hitem Store.retryAccessDenied
  | setItemPriority => exact hitem (Store.setItemPriority _)
  | setRetryCooldown => exact andWake_logs (itemControl_logs fun _ _ => grows_handle ..)
  | pauseAdmission => exact hflag _ fun _ => ⟨rfl, rfl⟩
  | resumeAdmission => exact hflag _ fun _ => ⟨rfl, rfl⟩
  | drainAndStop => exact hflag _ fun _ => ⟨rfl, rfl⟩
  | checkpointStop => exact hflag _ fun _ => ⟨rfl, rfl⟩

/-- **No program of the controller** takes anything back. -/
theorem programs_log : Session.Programs Logs where
  startup _ := startup_logs
  admitNext _ := admitNext_logs
  retryWait _ := query_logs _
  task _ := task_logs
  control _ q a := control_logs q a

end

/-! ## Sessions -/

/-- The connection of a session sees all that is committed, and its parties take nothing back. -/
structure Session.Logging (s : Session) : Prop where
  sees : Grows s.world.disk s.world.db
  takes : s.Takes Logs

theorem Session.Logging.step {s t : Session} (h : s.Logging) {move : Move}
    (hs : s.step move = some t) : t.Logging ∧ Grows s.world.disk t.world.disk := by
  obtain ⟨htakes, hsame | hboot | ⟨e, hlogs⟩⟩ := h.takes.step programs_log hs
  · exact ⟨⟨by rw [hsame.db, hsame.disk]; exact h.sees, htakes⟩, by rw [hsame.disk]⟩
  · exact ⟨⟨by rw [hboot]; exact .refl _, htakes⟩, by rw [hboot]; exact .refl _⟩
  · obtain ⟨hsees, hgrows⟩ := hlogs h.sees
    exact ⟨⟨hsees, htakes⟩, hgrows⟩

/-- **What is on disk stays there.**  Over any sessions on a state directory, whatever their
    queues, requests and crashes, and wherever a commit fails: every item keeps its row and its
    path, every selected item its rank, and no transition and no answer to a request is
    changed or taken back; what is new comes after them. -/
theorem disk_grows {cfg : Config} {fs : FileTree} {s t : Session}
    (hreach : GRun Session.step (fun _ _ => True) (Session.initial cfg fs) s)
    (hrun : GRun Session.step (fun _ _ => True) s t) : Grows s.world.disk t.world.disk := by
  have hlogging : s.Logging := hreach.invariant _ ⟨.refl _, Session.takes_initial cfg fs⟩
    fun _ _ _ h _ hs => (h.step hs).1
  exact (hrun.monotone Session.Logging (fun a b => Grows a.world.disk b.world.disk) hlogging
    (fun _ => .refl _) (fun _ _ _ => .trans) fun _ _ _ h _ hs => h.step hs).2

theorem disk_grows_excluded : Grows excludedEntry.world.disk excludedAgain.world.disk :=
  @disk_grows oneHour emptyWorld.fs excludedEntry excludedAgain
    ((Lib.GRun.of_exec (Option.some_get _).symm).mono fun _ _ _ => trivial)
    ((Lib.GRun.of_exec (Option.some_get _).symm).mono fun _ _ _ => trivial)

end TodDl.Controller
