/-
  The controller — the reason a session closes with (tod-dl.py, `run`).

  The reason is put together afterwards from flags that many parties set.  `Explained`
  connects each flag with a step of the past; only a stop for another reason than the
  deadline, while there is a deadline, is not told apart from it.

  `close_reason_true`: while no session with a time limit is stopped so, every reason is
  the real one.
-/
import TodDl.Controller.Footprint
import TodDl.Controller.History
import TodDl.Controller.Session
import TodDl.Lib.Guarded

namespace TodDl.Controller

open Lib (FileTree Prog GRun)
open Store (Db Row RunItem Status Update Assign Request Clock Outcome)

/-! ## What the reasons mean -/

/-- The step sets `stop_requested`, and the deadline has passed. -/
structure Moment.StopsAtDeadline (m : Moment) : Prop where
  before : m.before.stopRequested = false
  after : m.after.stopRequested = true
  passed : m.before.deadlinePassed m.answer = true

/-- The step records a local failure. -/
structure Moment.RecordsFailure (m : Moment) : Prop where
  before : m.before.localFailureCode = none
  after : m.after.localFailureCode.isSome = true

/-- The reason is the real one: `db` is what the count of the unresolved items saw. -/
structure Session.Truthful (s : Session) (db : Db) (reason : String) : Prop where
  timeLimit : reason = "time_limit" → ∃ m ∈ s.past, m.StopsAtDeadline
  interrupted : reason = "interrupted" → ∃ m ∈ s.past, m.actor = .signal
  localFailure : reason = "local_failure" → ∃ m ∈ s.past, m.RecordsFailure
  finished : reason = "finished" → ∀ r ∈ db.selected s.cfg.runId, r.status.text = "complete"

/-! ## Statuses -/

/-- No item has the status `existing`, which counts as done like `complete`. -/
def KnownStatuses (db : Db) : Prop := ∀ r ∈ db.downloads.rows, r.status.text ≠ "existing"

/-- The SET clause does not write it. -/
def WritesKnown (u : Update) : Prop := ∀ status, .status status ∈ u → status.text ≠ "existing"

section
variable {db db' : Db} {runId : String} {u : Update}

theorem text_set (hu : WritesKnown u) {r : Row} (h : r.status.text ≠ "existing") :
    (r.set u).status.text ≠ "existing" := by
  induction u generalizing r with
  | nil => exact h
  | cons a u ih =>
    rw [Row.set_cons]
    refine ih (fun status hs => hu status (List.mem_cons_of_mem _ hs)) ?_
    cases a with
    | status status => exact hu status List.mem_cons_self
    | _ => exact h

theorem writesKnown_of_keeps (hu : Store.Update.KeepsStatus u) : WritesKnown u := by
  intro status hmem
  cases hu _ hmem

theorem writesKnown_cons {status : Status} (hs : status.text ≠ "existing")
    (hu : Store.Update.KeepsStatus u) : WritesKnown (.status status :: u) := by
  intro other hmem
  rcases List.mem_cons.1 hmem with heq | hmem
  · obtain rfl := Assign.status.inj heq
    exact hs
  · exact writesKnown_of_keeps hu other hmem

theorem KnownStatuses.same (h : KnownStatuses db) (hd : db'.downloads = db.downloads) :
    KnownStatuses db' := by
  intro r hr
  rw [hd] at hr
  exact h r hr

theorem KnownStatuses.updateWhere (h : KnownStatuses db) {p : Row → Bool} (hu : WritesKnown u) :
    KnownStatuses (db.updateWhere p u) := by
  intro r hmem
  rw [Db.updateWhere, Lib.Table.rows_modify, List.mem_map] at hmem
  obtain ⟨s, hs, rfl⟩ := hmem
  split
  · exact text_set hu (h s hs)
  · exact h s hs

theorem KnownStatuses.transitioned (h : KnownStatuses db) {old : Row} {status : Status}
    {detail : Option String} {text : String} (hs : status.text ≠ "existing")
    (hu : Store.Update.KeepsStatus u) :
    KnownStatuses (db.transitioned runId old status detail u text) := by
  have hknown : WritesKnown (Db.transitionUpdate status u text) :=
    writesKnown_cons hs (by simpa [Db.transitionUpdate] using hu)
  exact (h.updateWhere hknown).same rfl

theorem KnownStatuses.importEntry (h : KnownStatuses db)
    (url rel stored staging : String) (size sha generation : Option String) (time : ℚ)
    (text : String) :
    KnownStatuses (db.importEntry url rel stored staging size sha generation time text) := by
  have hinserted : KnownStatuses { db with
      downloads := db.downloads.insertNew
        { url, relativePath := rel, storagePath := some stored, stagingPath := some staging,
          inventorySize := size, expectedSha256 := sha, updatedAt := text } } := by
    intro r hmem
    have hfind := Lib.Table.find?_eq_some.2 ⟨hmem, rfl⟩
    rw [Lib.Table.find?_insertNew, Option.or_eq_some_iff] at hfind
    rcases hfind with hfind | ⟨-, hfind⟩
    · exact h r (Lib.Table.find?_eq_some.1 hfind).1
    · split at hfind
      · obtain rfl := Option.some.inj hfind
        exact show ("queued" : String) ≠ "existing" by decide
      · cases hfind
  unfold Db.importEntry Db.recordSourceGeneration
  exact (((hinserted.updateWhere (writesKnown_of_keeps (by simp))).updateWhere
    (writesKnown_of_keeps (by simp))).updateWhere (writesKnown_of_keeps (by simp))).updateWhere
      (writesKnown_of_keeps (by simp))

theorem KnownStatuses.claimRecheck (h : KnownStatuses db) (url : String) (claimedAt : ℚ)
    (text : String) : KnownStatuses (db.claimRecheck url claimedAt text) := by
  intro r hmem
  rw [Db.claimRecheck, Lib.Table.rows_modify, List.mem_map] at hmem
  obtain ⟨s, hs, rfl⟩ := hmem
  split
  · exact text_set (writesKnown_of_keeps (by simp)) (h s hs)
  · exact h s hs

theorem KnownStatuses.commits (h : KnownStatuses db) {changed : List Row} {o : Outcome}
    (ho : o.Commits db runId changed u) (hu : WritesKnown u) : KnownStatuses o.db := by
  obtain ⟨_, _, _, _, _, hdb⟩ := ho.db_eq
  rw [hdb]
  exact (h.updateWhere hu).same rfl

theorem KnownStatuses.handle (h : KnownStatuses db) (a : Store.ItemAction) (q : Request)
    (clock : Clock) (hu : WritesKnown a.update) :
    KnownStatuses (a.handle db runId q clock).db := by
  rcases a.handle_cases db runId q clock with hidle | ⟨ids, -, hc, -⟩
  · rw [hidle.1]
    exact h
  · refine h.commits hc fun status hmem => ?_
    rcases List.mem_append.1 hmem with hmem | hmem
    · exact hu status hmem
    · cases List.mem_singleton.1 hmem

end

/-! ## What the parties do to the flags -/

/-- A step of the session: it gives no signal and clears no failure, and where it stops the
    run the deadline has passed or a failure is recorded. -/
structure Accounts (w : World) (e : Env) (w' : World) : Prop where
  statuses : KeepsDb KnownStatuses w e w'
  sigterm : w'.sigtermReceived = w.sigtermReceived
  sigint : w'.sigintReceived = w.sigintReceived
  failure : w.localFailureCode.isSome = true → w'.localFailureCode.isSome = true
  stop : w'.stopRequested = true → w.stopRequested = true ∨ w.deadlinePassed e = true ∨
    w'.localFailureCode.isSome = true

/-- A step of the scheduler loop or beside it, which does not set the deadline. -/
structure LoopAccounts (w : World) (e : Env) (w' : World) : Prop extends Accounts w e w' where
  deadline : w'.deadline = w.deadline

/-- What the programs may do: no item gets the status `existing`. -/
def knownMoves : Perms where
  moves _ status := status.text ≠ "existing"
  engines := True
  imports := True

section
variable {cfg : Config} {w w' : World} {e : Env}

/-- A step that leaves the flags alone. -/
theorem SameFlags.accounts (h : SameFlags w w') (hdb : KeepsDb KnownStatuses w e w') :
    LoopAccounts w e w' where
  statuses := hdb
  sigterm := h.sigterm
  sigint := h.sigint
  failure hf := by rw [h.failure]; exact hf
  stop hs := .inl (by rw [← h.stop]; exact hs)
  deadline := h.deadline

theorem LoopAccounts.sameFlags (hdb : KeepsDb KnownStatuses w e w')
    (h : SameFlags w w' := by exact ⟨rfl, rfl, rfl, rfl, rfl, rfl⟩) : LoopAccounts w e w' :=
  h.accounts hdb

theorem Step.accounts (hs : Step cfg knownMoves w e w') : LoopAccounts w e w' := by
  cases hs with
  | quiet hdb hdisk hf => exact hf.accounts (.same hdb hdisk)
  | aside hrows hdisk hf =>
    refine hf.accounts fun h h' => ?_
    have hdb := h.same hrows.downloads
    refine ⟨hdb, ?_⟩
    rcases hdisk with hdisk | hdisk <;> rw [hdisk]
    · exact h'
    · exact hdb
  | rollback => exact .sameFlags .rollback
  | transition hp hfields hold =>
    exact .sameFlags (.commit fun h => h.transitioned hp hfields)
  | failure code hdb hdisk hf =>
    have hcode : w'.localFailureCode.isSome = true := by rw [hf.failure]; rfl
    exact
      { statuses := .same hdb hdisk, sigterm := hf.sigterm, sigint := hf.sigint
        failure := fun _ => hcode, stop := fun _ => .inr (.inr hcode), deadline := hf.deadline }
  | note code =>
    exact
      { statuses := .same rfl rfl, sigterm := rfl, sigint := rfl, failure := fun _ => rfl
        stop := .inl, deadline := rfl }
  | engine _ hdb hdisk hf =>
    rcases hf with hf | ⟨hstop, hf⟩
    · exact hf.accounts (.same hdb hdisk)
    · refine
        { statuses := .same hdb hdisk, sigterm := hf.sigterm, sigint := hf.sigint
          failure := fun h => by rw [hf.failure]; exact h, stop := fun _ => ?_
          deadline := hf.deadline }
      rw [Bool.or_eq_true] at hstop
      exact hstop.imp id .inl
  | importEntry => exact .sameFlags (.change fun h => h.importEntry _ _ _ _ _ _ _ _ _)
  | select => exact .sameFlags (.change fun h => h.same rfl)

theorem uses_steps {α : Type} {p : Ctl α} (hp : p.Uses (Step cfg knownMoves)) :
    p.Uses LoopAccounts := hp.mono fun _ _ _ => Step.accounts

theorem uses_change_accounts {f : Db → Env → Db}
    (h : ∀ db e, KnownStatuses db → KnownStatuses (f db e)) : (dbChange f).Uses LoopAccounts := by
  refine Prog.uses_call fun w e => ?_
  split
  · exact .sameFlags .rollback
  · exact .sameFlags (.change (h _ _))

theorem uses_commit_accounts {f : Db → Env → Db}
    (h : ∀ db e, KnownStatuses db → KnownStatuses (f db e)) :
    (dbCommit fun db e => .ok (f db e)).Uses LoopAccounts := by
  refine Prog.uses_call fun w e => ?_
  cases e.sqlFault with
  | none => exact .sameFlags (.commit (h _ _))
  | some fault =>
    cases fault with
    | lost => exact .sameFlags .rollback
    | kept => exact .sameFlags (.commit (h _ _))

end

/-! ## The start of `run` -/

section
variable {cfg : Config}

/-- Before the loop the deadline is set, and nothing else is new. -/
theorem uses_startup : (startup cfg).Uses Accounts := by
  have hloop : ∀ {α : Type} {p : Ctl α}, p.Uses LoopAccounts → p.Uses Accounts := fun hp =>
    hp.mono fun _ _ _ h => h.toAccounts
  have hqueued : WritesKnown [.status .queued] := writesKnown_cons (by decide) (by simp)
  have hrequeued : ∀ text, WritesKnown [.status .queued, .nextRetryAt 0, .updatedAt text] :=
    fun text => writesKnown_cons (by decide) (by simp)
  refine uses_startup_of (P := knownMoves) (fun _ s hs => ?_) trivial trivial
    (fun _ _ _ h => h.accounts.toAccounts) ?_ ?_ ?_ fun w e d => ?_
  · have hall : ∀ s ∈ [Status.complete, .existingUnverified, .reviewRequired, .promoting],
        s.text ≠ "existing" := by decide
    exact hall s hs
  · exact hloop (uses_commit_accounts fun db _ h => h.updateWhere hqueued)
  · exact hloop (uses_change_accounts fun db _ h => h.updateWhere (hrequeued _))
  · exact hloop (uses_change_accounts fun db _ h =>
      h.updateWhere (writesKnown_of_keeps (by simp)))
  · exact
      { statuses := .same rfl rfl, sigterm := rfl, sigint := rfl, failure := id, stop := .inl }

end

/-! ## The parties of the loop -/

section
variable {cfg : Config}

theorem uses_query {β : Type} (f : Db → ℚ → Except Provenance.Failure β) :
    (query f).Uses LoopAccounts := by
  refine Prog.uses_call fun w e => ?_
  split <;> exact .sameFlags (.same rfl rfl)

theorem uses_admitNext : (admitNext cfg).Uses LoopAccounts := by
  have hadmitted : ∀ url, knownMoves.moves url .admitted := fun _ =>
    show Status.text .admitted ≠ "existing" by decide
  have hlook : ∀ {β : Type} (f : Db → Env → β), (dbLook f).Uses LoopAccounts := fun f =>
    uses_steps (show (dbLook f).Uses (Step cfg knownMoves) from uses_dbLook f)
  have hadmitted : ∀ url : String, (transition cfg url .admitted (some "transfer admitted")
      fun _ => []).Uses (Step cfg knownMoves) := fun url =>
    uses_transition (hadmitted url) _ _ fun _ => by simp
  unfold admitNext
  refine (uses_query _).bind fun found => ?_
  split
  · exact (uses_steps (hadmitted _)).bind fun _ => trivial
  · refine (hlook _).bind fun due => ?_
    split
    · trivial
    · exact (uses_commit_accounts fun db e h => h.claimRecheck _ _ _).bind fun _ => trivial

theorem uses_task (task : Task) : (task.program cfg).Uses LoopAccounts := by
  have hmoves : ∀ url, ∀ s ∈ workerStatuses, knownMoves.moves url s := by
    intro _ s hs
    have hall : ∀ s ∈ workerStatuses, s.text ≠ "existing" := by decide
    exact hall s hs
  cases task with
  | transfer row => exact uses_steps (uses_transfer (hmoves _) trivial)
  | recheck row => exact uses_steps (uses_recheckUnavailable (hmoves _))

/-- The request has an answer of its own to get. -/
def Fresh (q : Request) (db : Db) : Prop :=
  q.requestId.isSome = true ∧ q.sessionId.isSome = true ∧
    (q.requestId.bind db.controlRequests.find?).isNone = true

instance (q : Request) (db : Db) : Decidable (Fresh q db) := by unfold Fresh; infer_instance

/-- A step of the handler of a request. -/
structure HandlerAccounts (a : ControlAction) (q : Request) (w : World) (e : Env) (w' : World) :
    Prop where
  statuses : KeepsDb KnownStatuses w e w'
  sigterm : w'.sigtermReceived = w.sigtermReceived
  sigint : w'.sigintReceived = w.sigintReceived
  failure : w'.localFailureCode = w.localFailureCode
  deadline : w'.deadline = w.deadline
  stop : w'.stopRequested = true → w.stopRequested = true ∨ a = .checkpointStop ∧ Fresh q w.db

section
variable {a : ControlAction} {q : Request} {w w' : World} {e : Env}

theorem HandlerAccounts.sameFlags (hdb : KeepsDb KnownStatuses w e w')
    (h : SameFlags w w' := by exact ⟨rfl, rfl, rfl, rfl, rfl, rfl⟩) :
    HandlerAccounts a q w e w' where
  statuses := hdb
  sigterm := h.sigterm
  sigint := h.sigint
  failure := h.failure
  deadline := h.deadline
  stop hs := .inl (by rw [← h.stop]; exact hs)

theorem uses_andWake {wakes : Bool} {p : Ctl (Store.Reply × Bool)}
    (hp : p.Uses (HandlerAccounts a q)) : (andWake wakes p).Uses (HandlerAccounts a q) := by
  refine hp.bind fun reply => ?_
  obtain ⟨reply, accepted⟩ := reply
  dsimp only
  split
  · exact (Prog.uses_change fun _ _ => .sameFlags (.same rfl rfl)).bind fun _ => trivial
  · trivial

theorem uses_itemControl {handler : Db → String → Request → Clock → Outcome}
    (h : ∀ db clock, KnownStatuses db → KnownStatuses (handler db cfg.runId q clock).db) :
    (itemControl cfg handler q).Uses (HandlerAccounts a q) := by
  refine Prog.uses_call fun w e => ?_
  dsimp only
  split
  · exact .sameFlags .rollback
  · exact .sameFlags (.commit (h _ _))
  · exact .sameFlags (.same rfl rfl)
  · exact .sameFlags (.commit (h _ _))
  · exact .sameFlags (.same rfl rfl)

/-- An action on the flags, by its effect on them. -/
theorem uses_flagControl_accounts {f : FlagAction} (hdb : ∀ w, (f.effect w).db = w.db)
    (hdisk : ∀ w, (f.effect w).disk = w.disk)
    (hsigterm : ∀ w, (f.effect w).sigtermReceived = w.sigtermReceived)
    (hsigint : ∀ w, (f.effect w).sigintReceived = w.sigintReceived)
    (hfailure : ∀ w, (f.effect w).localFailureCode = w.localFailureCode)
    (hdeadline : ∀ w, (f.effect w).deadline = w.deadline)
    (hstop : ∀ w, (f.effect w).stopRequested = true →
      w.stopRequested = true ∨ a = .checkpointStop) :
    (flagControl cfg f q).Uses (HandlerAccounts a q) := by
  unfold flagControl
  split
  · next requestId sessionId hid hsession =>
    refine Prog.uses_call fun w e => ?_
    dsimp only
    split
    · exact .sameFlags (.same rfl rfl)
    · next hnew =>
      have hfresh : Fresh q w.db := by
        rw [Fresh, hid, hsession]
        exact ⟨rfl, rfl, by rw [Option.bind_some, hnew]; rfl⟩
      have hstore : ∀ db b c d g i j, KnownStatuses db →
          KnownStatuses (storeReply cfg db b c d g i j) := fun _ _ _ _ _ _ _ h => h.same rfl
      generalize hflags : (if (f.refusal w).isSome then w else f.effect w) = w₁
      have hw₁ : HandlerAccounts a q w e w₁ := by
        subst hflags
        split
        · exact .sameFlags (.same rfl rfl)
        · exact ⟨.same (hdb w) (hdisk w), hsigterm w, hsigint w, hfailure w, hdeadline w,
            fun hs => (hstop w hs).imp_right fun h => ⟨h, hfresh⟩⟩
      obtain ⟨hstatuses, h₁, h₂, h₃, h₄, h₅⟩ := hw₁
      split
      · exact ⟨fun h h' => ⟨(hstatuses h h').2, (hstatuses h h').2⟩, h₁, h₂, h₃, h₄, h₅⟩
      · exact ⟨fun h h' => ⟨hstore _ _ _ _ _ _ _ (hstatuses h h').1,
          hstore _ _ _ _ _ _ _ (hstatuses h h').1⟩, h₁, h₂, h₃, h₄, h₅⟩
      · exact ⟨fun h h' => ⟨hstore _ _ _ _ _ _ _ (hstatuses h h').1,
          hstore _ _ _ _ _ _ _ (hstatuses h h').1⟩, h₁, h₂, h₃, h₄, h₅⟩
  · trivial

theorem uses_control (a : ControlAction) (q : Request) :
    (control cfg q a).Uses (HandlerAccounts a q) := by
  have hitem : ∀ {wakes : Bool} {act : ControlAction} (item : Store.ItemAction),
      WritesKnown item.update → (andWake wakes (itemControl cfg item.handle q)).Uses
        (HandlerAccounts act q) := fun item hu =>
    uses_andWake (uses_itemControl fun db clock h => h.handle item q clock hu)
  cases a with
  | retryNow =>
    refine uses_andWake (uses_itemControl fun db clock h => ?_)
    rcases Store.retryNow_cases db cfg.runId q clock with hidle | ⟨changed, -, -, hc, -⟩
    · rw [hidle.1]
      exact h
    · exact h.commits hc (writesKnown_of_keeps (by simp))
  | excludeItem => exact hitem Store.excludeItem (writesKnown_cons (by decide) (by simp))
  | resumeNewGeneration =>
    exact hitem Store.resumeNewGeneration (writesKnown_cons (by decide) (by simp))
  | retryAccessDenied =>
    exact hitem Store.retryAccessDenied (writesKnown_cons (by decide) (by simp))
  | setItemPriority => exact hitem _ (writesKnown_of_keeps (by simp [Store.setItemPriority]))
  | setRetryCooldown =>
    refine uses_andWake (uses_itemControl fun db clock h => ?_)
    exact h.handle _ q clock (writesKnown_of_keeps (by simp [Store.setRetryCooldown]))
  | pauseAdmission =>
    exact uses_andWake (uses_flagControl_accounts (fun _ => rfl) (fun _ => rfl) (fun _ => rfl)
      (fun _ => rfl) (fun _ => rfl) (fun _ => rfl) fun _ => .inl)
  | resumeAdmission =>
    exact uses_andWake (uses_flagControl_accounts (fun _ => rfl) (fun _ => rfl) (fun _ => rfl)
      (fun _ => rfl) (fun _ => rfl) (fun _ => rfl) fun _ => .inl)
  | drainAndStop =>
    exact uses_andWake (uses_flagControl_accounts (fun _ => rfl) (fun _ => rfl) (fun _ => rfl)
      (fun _ => rfl) (fun _ => rfl) (fun _ => rfl) fun _ => .inl)
  | checkpointStop =>
    exact uses_andWake (uses_flagControl_accounts (fun _ => rfl) (fun _ => rfl) (fun _ => rfl)
      (fun _ => rfl) (fun _ => rfl) (fun _ => rfl) fun _ _ => .inr rfl)

end

end

/-! ## Every flag has its step in the past -/

/-- What the past of a session says about its flags; `early` is the time before the loop,
    when the deadline may still be unset. -/
structure Explained (early : Bool) (w : World) (past : List Moment) : Prop where
  statuses : KnownStatuses w.db ∧ KnownStatuses w.disk
  failure : w.localFailureCode.isSome = true → ∃ m ∈ past, m.RecordsFailure
  signal : w.sigtermReceived = true ∨ w.sigintReceived = true → ∃ m ∈ past, m.actor = .signal
  stop : early = true ∨ w.deadline.isSome = true → w.stopRequested = true →
    (∃ m ∈ past, m.StopsAtDeadline) ∨ w.localFailureCode.isSome = true ∨
      w.sigtermReceived = true ∨ w.sigintReceived = true

section
variable {early early' : Bool} {w w' : World} {e : Env} {past : List Moment} {actor : Actor}

theorem deadline_isSome_of_passed (h : w.deadlinePassed e = true) : w.deadline.isSome = true := by
  cases hd : w.deadline with
  | none => simp [World.deadlinePassed, hd] at h
  | some d => rfl

/-- A step whose every stop has a reason. -/
theorem Explained.next (h : Explained early w past) (hdb : KeepsDb KnownStatuses w e w')
    (hfailure : w.localFailureCode.isSome = true → w'.localFailureCode.isSome = true)
    (hkeeps : w.sigtermReceived = true ∨ w.sigintReceived = true →
      w'.sigtermReceived = true ∨ w'.sigintReceived = true)
    (hsignal : w'.sigtermReceived = true ∨ w'.sigintReceived = true →
      (w.sigtermReceived = true ∨ w.sigintReceived = true) ∨ actor = .signal)
    (htimed : early' = true ∨ w'.deadline.isSome = true →
      early = true ∨ w.deadline.isSome = true)
    (hstop : early' = true ∨ w'.deadline.isSome = true → w'.stopRequested = true →
      w.stopRequested = true ∨ w.deadlinePassed e = true ∨ w'.localFailureCode.isSome = true ∨
        w'.sigtermReceived = true ∨ w'.sigintReceived = true) :
    Explained early' w' (past ++ [⟨actor, w, e, w'⟩]) := by
  have hlater : ∀ {P : Moment → Prop}, (∃ m ∈ past, P m) →
      ∃ m ∈ past ++ [⟨actor, w, e, w'⟩], P m := fun ⟨m, hm, hP⟩ =>
    ⟨m, List.mem_append_left _ hm, hP⟩
  have hnow : (⟨actor, w, e, w'⟩ : Moment) ∈ past ++ [⟨actor, w, e, w'⟩] := by simp
  refine ⟨hdb h.statuses.1 h.statuses.2, fun hf => ?_, fun hs => ?_, fun ht hs => ?_⟩
  · cases hcode : w.localFailureCode with
    | none => exact ⟨_, hnow, hcode, hf⟩
    | some code => exact hlater (h.failure (by rw [hcode]; rfl))
  · rcases hsignal hs with hs | hs
    · exact hlater (h.signal hs)
    · exact ⟨_, hnow, hs⟩
  · -- an earlier stop has its reason already, whichever step finds it now
    have hearlier : early = true ∨ w.deadline.isSome = true → w.stopRequested = true →
        (∃ m ∈ past ++ [⟨actor, w, e, w'⟩], m.StopsAtDeadline) ∨
          w'.localFailureCode.isSome = true ∨ w'.sigtermReceived = true ∨
            w'.sigintReceived = true := by
      intro ht hs
      rcases h.stop ht hs with hd | hf | hg
      · exact .inl (hlater hd)
      · exact .inr (.inl (hfailure hf))
      · exact .inr (.inr (hkeeps hg))
    rcases hstop ht hs with hs | hp | hf
    · exact hearlier (htimed ht) hs
    · cases hw : w.stopRequested with
      | false => exact .inl ⟨_, hnow, hw, hs, hp⟩
      | true => exact hearlier (.inr (deadline_isSome_of_passed hp)) hw
    · exact .inr hf

/-- After the start only the stops with a deadline count. -/
theorem Explained.late (h : Explained early w past) : Explained false w past where
  statuses := h.statuses
  failure := h.failure
  signal := h.signal
  stop ht := h.stop (ht.elim (fun h => by cases h) .inr)

/-- A step of the start. -/
theorem Explained.start (h : Explained true w past) (ha : Accounts w e w') :
    Explained true w' (past ++ [⟨actor, w, e, w'⟩]) := by
  refine h.next ha.statuses ha.failure ?_ ?_ (fun _ => .inl rfl) fun _ hs => ?_
  · rw [ha.sigterm, ha.sigint]
    exact id
  · rw [ha.sigterm, ha.sigint]
    exact .inl
  · exact (ha.stop hs).imp_right fun h => h.imp_right .inl

/-- A step of the loop or of a worker. -/
theorem Explained.loop (h : Explained false w past) (ha : LoopAccounts w e w') :
    Explained false w' (past ++ [⟨actor, w, e, w'⟩]) := by
  refine h.next ha.statuses ha.failure ?_ ?_ ?_ fun _ hs => ?_
  · rw [ha.sigterm, ha.sigint]
    exact id
  · rw [ha.sigterm, ha.sigint]
    exact .inl
  · rw [ha.deadline]
    exact id
  · exact (ha.stop hs).imp_right fun h => h.imp_right .inl

/-- A stop of the loop; with a deadline it has a reason. -/
theorem Explained.stopped (h : Explained false w past)
    (hwhy : w.deadline.isSome = true → w.stopRequested = true ∨ w.deadlinePassed e = true ∨
      w.localFailureCode.isSome = true) :
    Explained false w.stopped (past ++ [⟨actor, w, e, w.stopped⟩]) := by
  refine h.next (.same rfl rfl) id id .inl id fun ht _ => ?_
  rcases hwhy (ht.elim (fun h => by cases h) id) with hs | hp | hf
  · exact .inl hs
  · exact .inr (.inl hp)
  · exact .inr (.inr (.inl hf))

end

/-! ## The invariant of a session -/

theorem closeReason_cases (w : World) (n : ℕ) :
    w.closeReason n = "local_failure" ∧ w.localFailureCode.isSome = true ∨
    w.closeReason n = "interrupted" ∧ (w.sigtermReceived = true ∨ w.sigintReceived = true) ∨
    (w.closeReason n = "time_limit" ∧ ¬ w.localFailureCode.isSome = true ∧
      ¬ (w.sigtermReceived = true ∨ w.sigintReceived = true) ∧ w.deadline.isSome = true ∧
        w.stopRequested = true) ∨
    w.closeReason n = "finished" ∧ n = 0 ∨ w.closeReason n = "stopped" := by
  rw [← Bool.or_eq_true]
  unfold World.closeReason
  split
  · next hf => exact .inl ⟨rfl, hf⟩
  · next hf =>
    split
    · next hs => exact .inr (.inl ⟨rfl, hs⟩)
    · next hs =>
      split
      · next ht => exact .inr (.inr (.inl ⟨rfl, hf, hs, by simpa using ht⟩))
      · split
        · next hn => exact .inr (.inr (.inr (.inl ⟨rfl, hn⟩)))
        · exact .inr (.inr (.inr (.inr rfl)))

namespace Session
variable {s : Session}

/-- What `run` has at hand. -/
def MainOk (s : Session) : Prop :=
  match s.main with
  | .starting p => p.Uses Accounts
  | .admitting p => p.Uses LoopAccounts
  | .asking p => p.Uses LoopAccounts
  | .counted db => KnownStatuses db
  | .closed db reason => s.Truthful db reason
  | _ => True

/-- Before the loop. -/
def early (s : Session) : Bool := match s.main with
  | .starting _ => true
  | _ => false

structure Inv (s : Session) : Prop where
  explained : Explained s.early s.world s.past
  main : s.MainOk
  workers : ∀ j ∈ s.workers, j.program.Uses LoopAccounts
  handlers : ∀ j ∈ s.handlers, j.program.Uses (HandlerAccounts j.action j.request)
  unserved : s.early = true → s.handlers = []

/-- **What stays outside the reason.**  While a run has a time limit, its deadline has not
    passed and nothing has stopped it, it is not stopped for another reason. -/
def Guard (s : Session) (move : Move) : Prop :=
  s.world.deadline.isSome = true → s.world.stopRequested = false →
    s.world.localFailureCode = none →
  match move with
  | .run e => s.world.deadlinePassed e = true ∨ match s.main with
    | .measuring => e.osFault.isSome ∨ s.cfg.reserveBytes ≤ e.freeBytes
    | .sleeping wait => 0 < wait
    | _ => True
  | .handler id e => s.world.deadlinePassed e = true ∨
    ∀ j ∈ s.handlers.find? (·.id = id), ¬ (j.action = .checkpointStop ∧ Fresh j.request s.world.db)
  | .projection _ e => s.world.deadlinePassed e = true
  | _ => True

theorem Truthful.mono {t : Session} {db : Db} {reason : String} (h : s.Truthful db reason)
    (hcfg : t.cfg = s.cfg) (hpast : s.past ⊆ t.past) : t.Truthful db reason := by
  have hlater : ∀ {P : Moment → Prop}, (∃ m ∈ s.past, P m) → ∃ m ∈ t.past, P m :=
    fun ⟨m, hm, hP⟩ => ⟨m, hpast hm, hP⟩
  refine ⟨fun hr => hlater (h.timeLimit hr), fun hr => hlater (h.interrupted hr),
    fun hr => hlater (h.localFailure hr), ?_⟩
  rw [hcfg]
  exact h.finished

/-- `run` stays where it is. -/
theorem MainOk.mono {t : Session} (h : s.MainOk) (hmain : t.main = s.main) (hcfg : t.cfg = s.cfg)
    (hpast : s.past ⊆ t.past) : t.MainOk := by
  unfold MainOk at h ⊢
  rw [hmain]
  split <;> simp_all only
  next db reason _ => exact Truthful.mono h hcfg hpast

/-- `run` goes on elsewhere. -/
theorem Inv.moved (h : s.Inv) {main : Main} (hearly : (s.moved main).early = false)
    (hmain : (s.moved main).MainOk) : (s.moved main).Inv where
  explained := by
    rw [hearly]
    exact h.explained.late
  main := hmain
  workers := h.workers
  handlers := h.handlers
  unserved he := by rw [hearly] at he; cases he

/-- A step of `run` in its loop. -/
theorem Inv.went (h : s.Inv) {e : Env} {w : World} {main : Main}
    (hx : Explained false w (s.past ++ [⟨.run, s.world, e, w⟩]))
    (hearly : (s.next .run e w main).early = false) (hmain : (s.next .run e w main).MainOk) :
    (s.next .run e w main).Inv where
  explained := by
    rw [hearly]
    exact hx
  main := hmain
  workers := h.workers
  handlers := h.handlers
  unserved he := by rw [hearly] at he; cases he

/-- The reason that the flags give is the real one. -/
theorem truthful_closeReason {db : Db} (hx : Explained false s.world s.past)
    (hdb : KnownStatuses db) :
    s.Truthful db (s.world.closeReason (unresolved s.cfg db).length) := by
  obtain ⟨hr, hf⟩ | ⟨hr, hs⟩ | ⟨hr, hf, hs, hd, hstop⟩ | ⟨hr, hn⟩ | hr :=
    closeReason_cases s.world (unresolved s.cfg db).length
  all_goals rw [hr]
  · exact ⟨by simp, by simp, fun _ => hx.failure hf, by simp⟩
  · exact ⟨by simp, fun _ => hx.signal hs, by simp, by simp⟩
  · refine ⟨fun _ => ?_, by simp, by simp, by simp⟩
    rcases hx.stop (.inr hd) hstop with h | h | h
    · exact h
    · exact absurd h hf
    · exact absurd h hs
  · refine ⟨by simp, by simp, by simp, fun _ r hmem => ?_⟩
    by_contra hne
    refine absurd (List.eq_nil_of_length_eq_zero hn) (List.ne_nil_of_mem (a := r) ?_)
    refine List.mem_filter.2 ⟨hmem, ?_⟩
    simpa [hne] using hdb r (Lib.Table.mem_join.1 hmem).2
  · exact ⟨by simp, by simp, by simp, by simp⟩

/-- The loop sleeps, as long as something is to be waited for and the deadline is ahead. -/
theorem sleepFor_pos {wait : ℚ} {e : Env} (hw : 0 < wait)
    (hd : s.world.deadlinePassed e = false) : 0 < s.sleepFor wait e := by
  unfold sleepFor
  have hmin : 0 < min wait 60 := lt_min hw (by norm_num)
  cases hdeadline : s.world.deadline with
  | none => exact hmin
  | some deadline =>
    have hahead : e.monotonic < deadline := by
      simpa [World.deadlinePassed, hdeadline] using hd
    exact lt_min hmin (lt_max_of_lt_right (sub_pos.2 hahead))

/-- Nothing is left of the process. -/
theorem Inv.dropped (h : s.Inv) : s.dropped.Inv where
  explained := h.explained.late
  main := trivial
  workers _ hj := by cases hj
  handlers _ hj := by cases hj
  unserved he := by cases he

/-- **`run` takes a step.** -/
theorem Inv.run (h : s.Inv) {e : Env} (hg : s.Guard (.run e)) {t : Session}
    (hs : s.stepRun e = some t) : t.Inv := by
  have hmain := h.main
  have hx := h.explained
  have hwhy : ∀ P : Prop, (s.world.deadline.isSome = true → s.world.stopRequested = false →
      s.world.localFailureCode = none → s.world.deadlinePassed e = true ∨ P) → ¬ P →
      s.world.deadline.isSome = true → s.world.stopRequested = true ∨
        s.world.deadlinePassed e = true ∨ s.world.localFailureCode.isSome = true := by
    intro P hg hP hd
    cases hstop : s.world.stopRequested with
    | true => exact .inl rfl
    | false =>
      cases hcode : s.world.localFailureCode with
      | none => exact .inr (.inl ((hg hd hstop hcode).resolve_right hP))
      | some code => exact .inr (.inr rfl)
  unfold Guard at hg
  unfold MainOk at hmain
  unfold early at hx
  unfold stepRun at hs
  generalize hm : s.main = main at hs hmain hx hg
  cases main with
  | down => cases hs
  | closed => cases hs
  | starting p =>
    cases p with
    | act f k =>
      obtain rfl := Option.some.inj hs
      exact ⟨hx.start (hmain.1 _ _), hmain.2 _, h.workers, h.handlers,
        fun _ => h.unserved (by rw [early, hm])⟩
    | ret a =>
      obtain rfl := Option.some.inj hs
      exact ⟨hx.late, trivial, h.workers, h.handlers, fun he => by cases he⟩
    | raise exc =>
      obtain rfl := Option.some.inj hs
      exact h.dropped
  | checking =>
    obtain rfl := Option.some.inj hs
    split <;> exact h.moved rfl trivial
  | timing =>
    dsimp only at hs
    split at hs
    · next hp =>
      obtain rfl := Option.some.inj hs
      exact h.went (hx.stopped fun _ => .inr (.inl hp)) rfl trivial
    · obtain rfl := Option.some.inj hs
      exact h.moved rfl trivial
  | measuring =>
    dsimp only at hs
    split at hs
    · obtain rfl := Option.some.inj hs
      exact h.moved rfl trivial
    · next hmeasured =>
      split at hs
      · next hlow =>
        obtain rfl := Option.some.inj hs
        exact h.went (hx.stopped (hwhy _ hg (not_or_intro hmeasured (not_le.2 hlow)))) rfl trivial
      · obtain rfl := Option.some.inj hs
        exact h.moved rfl uses_admitNext
  | admitting p =>
    cases p with
    | act f k =>
      obtain rfl := Option.some.inj hs
      exact h.went (hx.loop (hmain.1 _ _)) rfl (hmain.2 _)
    | ret task =>
      cases task with
      | none =>
        obtain rfl := Option.some.inj hs
        exact h.moved rfl trivial
      | some task =>
        obtain rfl := Option.some.inj hs
        refine ⟨hx, trivial, fun j hj => ?_, h.handlers, fun he => by cases he⟩
        rcases List.mem_append.1 hj with hj | hj
        · exact h.workers j hj
        · obtain rfl := List.mem_singleton.1 hj
          exact uses_task task
    | raise exc =>
      obtain rfl := Option.some.inj hs
      exact h.moved rfl trivial
  | waiting =>
    dsimp only at hs
    split at hs
    · split at hs
      · obtain rfl := Option.some.inj hs
        exact h.moved rfl trivial
      · obtain rfl := Option.some.inj hs
        exact h.moved rfl (uses_query _)
    · split at hs
      · next hp =>
        obtain rfl := Option.some.inj hs
        exact h.went (hx.stopped fun _ => .inr (.inl hp)) rfl trivial
      · obtain rfl := Option.some.inj hs
        exact h.moved rfl trivial
  | asking p =>
    cases p with
    | act f k =>
      obtain rfl := Option.some.inj hs
      exact h.went (hx.loop (hmain.1 _ _)) rfl (hmain.2 _)
    | ret wait =>
      cases wait <;> (obtain rfl := Option.some.inj hs; exact h.moved rfl trivial)
    | raise exc =>
      obtain rfl := Option.some.inj hs
      exact h.moved rfl trivial
  | sleeping wait =>
    dsimp only at hs
    split at hs
    · next hzero =>
      obtain rfl := Option.some.inj hs
      refine h.went (hx.stopped fun hd => ?_) rfl trivial
      by_cases hw : 0 < wait
      · cases hp : s.world.deadlinePassed e with
        | false => exact absurd (sleepFor_pos hw hp) (not_lt.2 hzero)
        | true => exact .inr (.inl rfl)
      · exact hwhy _ hg hw hd
    · obtain rfl := Option.some.inj hs
      exact h.went (hx.loop (.sameFlags (.same rfl rfl))) rfl trivial
  | settling =>
    dsimp only at hs
    split at hs
    · obtain rfl := Option.some.inj hs
      exact h.moved rfl hx.statuses.1
    · cases hs
  | counted db =>
    obtain rfl := Option.some.inj hs
    exact h.moved rfl (truthful_closeReason hx hmain)

/-- Another party takes a step, and `run` stays where it is. -/
theorem Inv.aside (h : s.Inv) {actor : Actor} {e : Env} {w : World}
    (hx : Explained s.early w (s.past ++ [⟨actor, s.world, e, w⟩])) :
    (s.next actor e w s.main).Inv where
  explained := hx
  main := h.main.mono rfl rfl (List.subset_append_left _ _)
  workers := h.workers
  handlers := h.handlers
  unserved := h.unserved

theorem early_of_serves (h : s.serves = true) : s.early = false := by
  unfold serves at h
  unfold early
  split <;> simp_all

/-- A step of the loop is one of the start, too. -/
theorem explained_loop {early : Bool} {w w' : World} {e : Env} {past : List Moment}
    {actor : Actor} (h : Explained early w past) (ha : LoopAccounts w e w') :
    Explained early w' (past ++ [⟨actor, w, e, w'⟩]) := by
  cases early with
  | true => exact h.start ha.toAccounts
  | false => exact h.loop ha

theorem Inv.worker (h : s.Inv) {id : ℕ} {e : Env} {t : Session}
    (hs : s.stepWorker id e = some t) : t.Inv := by
  unfold stepWorker at hs
  split at hs
  · next i f k hfind =>
    obtain rfl := Option.some.inj hs
    have huses := h.workers _ (List.mem_of_find?_eq_some hfind)
    refine ⟨explained_loop h.explained (huses.1 s.world e),
      h.main.mono rfl rfl (List.subset_append_left _ _), fun j hj => ?_, h.handlers, h.unserved⟩
    obtain ⟨i, hi, rfl⟩ := List.mem_map.1 hj
    split
    · exact huses.2 _
    · exact h.workers i hi
  · cases hs

/-- A step of a handler, if the guard lets it. -/
theorem explained_handler {w w' : World} {e : Env} {past : List Moment} {a : ControlAction}
    {q : Request} (h : Explained false w past) (ha : HandlerAccounts a q w e w')
    (hg : w.deadline.isSome = true → w.stopRequested = false → w.localFailureCode = none →
      w.deadlinePassed e = true ∨ ¬ (a = .checkpointStop ∧ Fresh q w.db)) :
    Explained false w' (past ++ [⟨.handler, w, e, w'⟩]) := by
  refine h.next ha.statuses (by rw [ha.failure]; exact id) ?_ ?_ ?_ fun ht hs => ?_
  · rw [ha.sigterm, ha.sigint]
    exact id
  · rw [ha.sigterm, ha.sigint]
    exact .inl
  · rw [ha.deadline]
    exact id
  · rcases ha.stop hs with hstop | hfresh
    · exact .inl hstop
    · have hd : w.deadline.isSome = true := by
        rw [← ha.deadline]
        exact ht.elim (fun h => by cases h) id
      cases hstop : w.stopRequested with
      | true => exact .inl rfl
      | false =>
        cases hcode : w.localFailureCode with
        | some code => exact .inr (.inr (.inl (by rw [ha.failure, hcode]; rfl)))
        | none => exact .inr (.inl ((hg hd hstop hcode).resolve_right (not_not.2 hfresh)))

theorem Inv.handler (h : s.Inv) {id : ℕ} {e : Env} (hg : s.Guard (.handler id e)) {t : Session}
    (hs : s.stepHandler id e = some t) : t.Inv := by
  unfold stepHandler at hs
  split at hs
  · next i a q f k hfind =>
    obtain rfl := Option.some.inj hs
    have hmem := List.mem_of_find?_eq_some hfind
    have huses := h.handlers _ hmem
    have hearly : s.early = false := by
      cases hs : s.early with
      | false => rfl
      | true =>
        rw [h.unserved hs] at hmem
        cases hmem
    have hx := h.explained
    simp only [Guard, hfind, Option.mem_def, Option.some.injEq, forall_eq'] at hg
    rw [hearly] at hx
    refine ⟨?_, h.main.mono rfl rfl (List.subset_append_left _ _), h.workers, fun j hj => ?_,
      fun he => absurd (hearly.symm.trans he) Bool.false_ne_true⟩
    · change Explained s.early _ _
      rw [hearly]
      exact explained_handler hx (huses.1 s.world e) hg
    · obtain ⟨i, hi, rfl⟩ := List.mem_map.1 hj
      split
      · exact huses.2 _
      · exact h.handlers i hi
  · cases hs

theorem Inv.collect (h : s.Inv) {id : ℕ} {t : Session} (hs : s.collect id = some t) : t.Inv := by
  have hrest : ∀ j ∈ s.workers.filter fun j => j.id ≠ id, j.program.Uses LoopAccounts :=
    fun j hj => h.workers j (List.mem_of_mem_filter hj)
  have hleft : Session.Inv { s with workers := s.workers.filter fun j => j.id ≠ id } :=
    ⟨h.explained, h.main.mono rfl rfl (List.Subset.refl _), hrest, h.handlers, h.unserved⟩
  unfold Session.collect at hs
  dsimp only at hs
  split at hs
  · obtain rfl := Option.some.inj hs
    exact hleft.moved rfl trivial
  · obtain rfl := Option.some.inj hs
    exact hleft.moved rfl trivial
  · obtain rfl := Option.some.inj hs
    exact hleft
  · obtain rfl := Option.some.inj hs
    exact hleft
  · cases hs

theorem Inv.request (h : s.Inv) {a : ControlAction} {q : Request} (hserves : s.serves = true) :
    Session.Inv { s with
      handlers := s.handlers ++ [⟨s.count, a, q, control s.cfg q a⟩], count := s.count + 1 } := by
  refine ⟨h.explained, h.main.mono rfl rfl (List.Subset.refl _), h.workers, fun j hj => ?_, ?_⟩
  · rcases List.mem_append.1 hj with hj | hj
    · exact h.handlers j hj
    · obtain rfl := List.mem_singleton.1 hj
      exact uses_control a q
  · exact fun he => absurd ((early_of_serves hserves).symm.trans he) Bool.false_ne_true

theorem Inv.signal (h : s.Inv) (terminates : Bool) :
    (s.next .signal {} (s.world.signalled terminates) s.main).Inv := by
  have hafter : (s.world.signalled terminates).sigtermReceived = true ∨
      (s.world.signalled terminates).sigintReceived = true := by
    cases terminates <;> simp [World.signalled]
  exact h.aside (h.explained.next (.same rfl rfl) id (fun _ => hafter) (fun _ => .inr rfl) id
    fun _ _ => .inr (.inr (.inr hafter)))

/-- A projection fails, which the guard lets happen after a stop only. -/
theorem Inv.projection (h : s.Inv) (hserves : s.serves = true) {caught : Bool} {e : Env}
    (hg : s.Guard (.projection caught e)) :
    (s.next .projection e s.world.stopped (if caught then s.main else s.main.interrupted)).Inv := by
  have hearly := early_of_serves hserves
  have hx := h.explained
  rw [hearly] at hx
  have hstopped : Explained false s.world.stopped
      (s.past ++ [⟨.projection, s.world, e, s.world.stopped⟩]) := by
    refine hx.stopped fun hd => ?_
    cases hstop : s.world.stopRequested with
    | true => exact .inl rfl
    | false =>
      cases hcode : s.world.localFailureCode with
      | none => exact .inr (.inl (hg hd hstop hcode))
      | some code => exact .inr (.inr rfl)
  cases caught with
  | true => exact h.aside (hearly ▸ hstopped)
  | false =>
    cases hm : s.main with
    | counted db =>
      have hmain := h.main
      unfold MainOk at hmain
      rw [hm] at hmain
      exact ⟨hstopped, hmain, h.workers, h.handlers, fun he => by cases he⟩
    | _ => exact ⟨hstopped, trivial, h.workers, h.handlers, fun he => by cases he⟩

/-- **One step of the session.** -/
theorem Inv.step (h : s.Inv) {move : Move} (hg : s.Guard move) {t : Session}
    (hs : s.step move = some t) : t.Inv := by
  cases move with
  | boot cfg =>
    have hboot : Session.Inv
        { cfg, world := s.world.booted, main := .starting (startup cfg), count := s.count } := by
      have hdisk := h.explained.statuses.2
      exact ⟨⟨⟨hdisk, hdisk⟩, by simp [World.booted], by simp [World.booted],
        by simp [World.booted]⟩, uses_startup, by simp, by simp, fun _ => rfl⟩
    unfold Session.step at hs
    dsimp only at hs
    split at hs
    · obtain rfl := Option.some.inj hs
      exact hboot
    · obtain rfl := Option.some.inj hs
      exact hboot
    · cases hs
  | crash =>
    obtain rfl := Option.some.inj hs
    exact h.dropped
  | run e => exact h.run hg hs
  | worker id e => exact h.worker hs
  | collect id => exact h.collect hs
  | request a q =>
    unfold Session.step at hs
    dsimp only at hs
    split at hs
    · next hserves =>
      obtain rfl := Option.some.inj hs
      exact h.request hserves
    · cases hs
  | handler id e => exact h.handler hg hs
  | signal terminates =>
    unfold Session.step at hs
    dsimp only at hs
    split at hs
    · obtain rfl := Option.some.inj hs
      exact h.signal terminates
    · cases hs
  | projection caught e =>
    unfold Session.step at hs
    dsimp only at hs
    split at hs
    · next hup =>
      obtain rfl := Option.some.inj hs
      exact h.projection (Bool.and_eq_true _ _ ▸ hup).1 hg
    · cases hs
  | outside fs engines =>
    obtain rfl := Option.some.inj hs
    exact h.aside (explained_loop h.explained (.sameFlags (.same rfl rfl)))

/-- **A whole run.** -/
theorem inv_of_run {cfg : Config} {fs : FileTree}
    (hrun : GRun Session.step Session.Guard (Session.initial cfg fs) s) : s.Inv := by
  refine hrun.invariant Inv ?_ fun _ _ _ h hg hs => h.step hg hs
  have hnone : KnownStatuses {} := by intro r hr; cases hr
  exact ⟨⟨⟨hnone, hnone⟩, by simp [initial], by simp [initial], by simp [initial]⟩, trivial,
    by simp [initial], by simp [initial], fun _ => rfl⟩

end Session

/-- **The reason is the real one.**  Whatever a session does, with whatever others do
    beside it, and whichever sessions were there before: as long as no run with a time
    limit is stopped for another reason before its deadline, the reason is the real one. -/
theorem close_reason_true {cfg : Config} {fs : FileTree} {s : Session}
    (hrun : GRun Session.step Session.Guard (Session.initial cfg fs) s) (db : Db)
    (reason : String) (hclosed : s.main = .closed db reason) : s.Truthful db reason := by
  have hmain := (Session.inv_of_run hrun).main
  unfold Session.MainOk at hmain
  rw [hclosed] at hmain
  exact hmain

/-! ## A run with a time limit -/

instance (s : Session) (move : Move) : Decidable (s.Guard move) := by
  unfold Session.Guard
  cases move with
  | run e => cases s.main <;> (dsimp only; infer_instance)
  | _ => dsimp only; infer_instance

/-- An hour for a queue of one entry. -/
def oneHour : Config := { oneEntry with timeLimit := 3600 }

/-- The answers to a step at a time of the clock. -/
def atTime (monotonic : ℚ) : Env where
  monotonic := monotonic
  text := "2026-01-01T00:00:00Z"
  uuid := "00000000-0000-4000-8000-000000000000"

/-- `run` up to its loop, at the time 0. -/
def reachLoop : List Move := .boot oneHour :: List.replicate 26 (.run (atTime 0))

/-- The reason of a session that is over. -/
def Main.reason : Main → Option String
  | .closed _ reason => some reason
  | _ => none

theorem closed_of_reason {main : Main} {reason : String} (h : main.reason = some reason) :
    ∃ db, main = .closed db reason := by
  cases main with
  | closed db other =>
    obtain rfl := Option.some.inj h
    exact ⟨db, rfl⟩
  | _ => cases h

/-- The loop finds the deadline passed. -/
def hourOver : Session :=
  (Lib.exec Session.step Session.Guard (Session.initial oneHour emptyWorld.fs)
    (reachLoop ++ List.replicate 5 (.run (atTime 3600)))).get (by decide +kernel)

theorem close_reason_true_hourOver :
    ∃ db, hourOver.main = .closed db "time_limit" ∧ hourOver.Truthful db "time_limit" := by
  obtain ⟨db, hdb⟩ : ∃ db, hourOver.main = .closed db "time_limit" :=
    closed_of_reason (by decide +kernel)
  exact ⟨db, hdb, close_reason_true (Lib.GRun.of_exec (Option.some_get _).symm) db _ hdb⟩

/-- An operator's stop, as soon as the loop is there. -/
def stopEarly : List Move :=
  reachLoop ++ [.request .checkpointStop oneItem, .handler 0 (atTime 0)] ++
    List.replicate 4 (.run (atTime 0))

/-- It is recorded as the time limit. -/
theorem early_stop_untrue : ¬ ∀ (cfg : Config) (fs : FileTree) (s : Session),
    GRun Session.step (fun _ _ => True) (Session.initial cfg fs) s →
    ∀ db reason, s.main = .closed db reason → s.Truthful db reason := by
  intro h
  set after := Lib.exec Session.step (fun _ _ => True)
    (Session.initial oneHour emptyWorld.fs) stopEarly with hafter
  have hreason : after.any fun s => s.main.reason = some "time_limit" ∧
      ∀ m ∈ s.past, m.before.deadlinePassed m.answer = false := by decide +kernel
  obtain ⟨s, hs, hreason⟩ := (Option.any_eq_true _ _).1 hreason
  obtain ⟨hreason, hahead⟩ := of_decide_eq_true hreason
  obtain ⟨db, hdb⟩ := closed_of_reason hreason
  have htrue := h oneHour emptyWorld.fs s (Lib.GRun.of_exec (hafter ▸ hs)) db _ hdb
  obtain ⟨m, hm, hstop⟩ := htrue.timeLimit rfl
  exact absurd (hstop.passed.symm.trans (hahead m hm)) (by decide)

end TodDl.Controller
