/-
  The controller — the table of transitions as a status history (tod-dl.py).

  The operations of a controller run one after another on one state directory,
  under any configurations; a restart between two of them loses what was not
  committed, and files may change.  Everything but the bulk UPDATEs of three
  control actions and of the requeue changes a status through `transition`, which
  records it in the same commit.

  `history_complete`: as long as these find no row to move, the table is the
  complete status history of every item.
-/
import TodDl.Controller.Control
import TodDl.Controller.Footprint
import TodDl.Lib.Guarded
import TodDl.Store.History

namespace TodDl.Controller

open Lib (Prog FileTree)
open Store (Db Row Status Update Request Clock Outcome interruptedStatuses)

/-- The operations on the database. -/
inductive Operation where
  | importQueues
  | scopeRun
  | reconcilePromotions
  | requeueInterruptedTransfers
  | transition (url : String) (toStatus : Status) (detail : Option String)
      (fields : { u : Update // u.KeepsStatus })
  | claimRecheck (url : String)
  | control (a : ControlAction) (q : Request)

def Operation.program (cfg : Config) : Operation → Ctl Unit
  | .importQueues => Controller.importQueues cfg
  | .scopeRun => do let _ ← Controller.scopeRun cfg
  | .reconcilePromotions => Controller.reconcilePromotions cfg
  | .requeueInterruptedTransfers => Controller.requeueInterruptedTransfers cfg
  | .transition url toStatus detail fields =>
    Controller.transition cfg url toStatus detail fun _ => fields.1
  | .claimRecheck url => Controller.claimRecheck url
  | .control a q => do let _ ← Controller.control cfg q a

/-- What happens to a state directory. -/
inductive Event where
  | operation (cfg : Config) (op : Operation) (answers : List Env)
  /-- what was not committed is lost -/
  | restart
  /-- files change, records are opened or closed -/
  | outside (fs : FileTree) (records : Option Provenance.Writer)

/-- The world after an event; none when an operation does not end on its answers. -/
def World.happens (w : World) : Event → Option World
  | .operation cfg op answers => ((op.program cfg).execute w answers).map (·.2)
  | .restart => some { w with db := w.disk }
  | .outside fs records => some { w with fs, records }

/-- A bulk UPDATE of statuses finds no row. -/
def World.BulkFindsNone (w : World) : Event → Prop
  | .operation cfg .requeueInterruptedTransfers _ =>
    ∀ r ∈ w.db.selected cfg.runId, r.status ∉ interruptedStatuses
  | .operation cfg (.control .excludeItem q) _ => Store.excludeItem.FindsNone w.db cfg.runId q
  | .operation cfg (.control .resumeNewGeneration q) _ =>
    Store.resumeNewGeneration.FindsNone w.db cfg.runId q
  | .operation cfg (.control .retryAccessDenied q) _ =>
    Store.retryAccessDenied.FindsNone w.db cfg.runId q
  | _ => True

instance (w : World) (ev : Event) : Decidable (w.BulkFindsNone ev) := by
  unfold World.BulkFindsNone
  split <;> infer_instance

/-! ## What one step keeps -/

/-- The step keeps a property of what the connection sees and of what is committed. -/
def KeepsDb (I : Db → Prop) (w : World) (_ : Env) (w' : World) : Prop :=
  I w.db → I w.disk → I w'.db ∧ I w'.disk

section
variable {I : Db → Prop} {cfg : Config} {w : World} {e : Env} {A : Env → Prop}

theorem KeepsDb.commit {db : Db} (h : I w.db → I db) : KeepsDb I w e { w with db, disk := db } :=
  fun hdb _ => ⟨h hdb, h hdb⟩

theorem KeepsDb.change {db : Db} (h : I w.db → I db) : KeepsDb I w e { w with db } :=
  fun hdb hdisk => ⟨h hdb, hdisk⟩

theorem KeepsDb.rollback : KeepsDb I w e { w with db := w.disk } := fun _ hdisk => ⟨hdisk, hdisk⟩

/-- What every step of a run keeps holds at its end. -/
theorem ends_keepsDb {α : Type} {p : Ctl α} {x : Except Exc α} {w' : World}
    (hp : p.Along A (KeepsDb I) w) (hdb : I w.db) (hdisk : I w.disk) (hend : p.Ends A w x w') :
    I w'.db ∧ I w'.disk :=
  (hp.mono (Q := fun w _ w' => I w.db ∧ I w.disk → I w'.db ∧ I w'.disk)
    fun _ _ _ h hw => h hw.1 hw.2).ends (I := fun w => I w.db ∧ I w.disk) ⟨hdb, hdisk⟩ hend

theorem KeepsDb.same {w' : World} (hdb : w'.db = w.db) (hdisk : w'.disk = w.disk) :
    KeepsDb I w e w' := fun h h' => ⟨hdb ▸ h, hdisk ▸ h'⟩

/-- Statements and a commit that keep it. -/
theorem along_dbCommit {f : Db → Env → Except Exc Db}
    (h : ∀ e db, f w.db e = .ok db → I w.db → I db) : (dbCommit f).Along A (KeepsDb I) w := by
  refine Prog.along_call.2 fun e _ => ?_
  split
  · exact .rollback
  · exact .same rfl rfl
  · next hf _ => exact .commit (h e _ hf)
  · next hf _ => exact .commit (h e _ hf)

theorem along_dbChange {f : Db → Env → Db} (h : ∀ e, I w.db → I (f w.db e)) :
    (dbChange f).Along A (KeepsDb I) w := by
  refine Prog.along_call.2 fun e _ => ?_
  split
  · exact .rollback
  · exact .change (h e)

theorem along_andWake {wakes : Bool} {p : Ctl (Store.Reply × Bool)}
    (h : p.Along A (KeepsDb I) w) : (andWake wakes p).Along A (KeepsDb I) w := by
  refine Prog.along_bind.2 ⟨h, fun reply w' _ => ?_⟩
  obtain ⟨reply, accepted⟩ := reply
  refine Prog.Uses.along ?_ w'
  dsimp only
  split
  · exact (Prog.uses_change fun _ _ => .same rfl rfl).bind fun _ => Prog.uses_ret _
  · trivial

theorem along_itemControl {handler : Db → String → Request → Clock → Outcome} {q : Request}
    (h : ∀ clock, I w.db → I (handler w.db cfg.runId q clock).db) :
    (itemControl cfg handler q).Along A (KeepsDb I) w := by
  refine Prog.along_call.2 fun e _ => ?_
  dsimp only
  split
  · exact .rollback
  · exact .commit (h _)
  · exact .same rfl rfl
  · exact .commit (h _)
  · exact .same rfl rfl

/-- The actions on flags keep what the reply in the database keeps. -/
theorem uses_flagControl (hreply : ∀ db a b c d f g, I db → I (storeReply cfg db a b c d f g))
    (a : FlagAction) (ha : ∀ w, (a.effect w).db = w.db ∧ (a.effect w).disk = w.disk) (q : Request) :
    (flagControl cfg a q).Uses (KeepsDb I) := by
  unfold flagControl
  split
  · refine Prog.uses_call fun w e => ?_
    dsimp only
    split
    · exact .same rfl rfl
    · intro h h'
      generalize hflags : (if (a.refusal w).isSome then w else a.effect w) = w₁
      have hw₁ : w₁.db = w.db ∧ w₁.disk = w.disk := by
        subst hflags
        split
        · exact ⟨rfl, rfl⟩
        · exact ha w
      rw [← hw₁.1] at h
      rw [← hw₁.2] at h'
      split
      · exact ⟨h', h'⟩
      · exact ⟨hreply _ _ _ _ _ _ _ h, hreply _ _ _ _ _ _ _ h⟩
      · exact ⟨hreply _ _ _ _ _ _ _ h, hreply _ _ _ _ _ _ _ h⟩
  · trivial

end

/-- The histories of what the connection sees and of what is committed. -/
structure World.Recorded (w : World) : Prop where
  db : w.db.Recorded
  disk : w.disk.Recorded

/-- The step keeps the histories. -/
def KeepsRecorded (w : World) (_ : Env) (w' : World) : Prop := w.Recorded → w'.Recorded

section
variable {cfg : Config} {P : Perms} {w w' : World} {e : Env}

theorem Step.recorded (hs : Step cfg P w e w') : KeepsRecorded w e w' := by
  intro h
  cases hs with
  | quiet hdb hdisk => exact ⟨hdb ▸ h.db, hdisk ▸ h.disk⟩
  | aside hrows hdisk =>
    have hdb : w'.db.Recorded := h.db.same
      ⟨fun _ => by rw [hrows.downloads], fun _ _ => by rw [Db.history, hrows.transitions]; rfl⟩
    refine ⟨hdb, ?_⟩
    rcases hdisk with hdisk | hdisk <;> rw [hdisk]
    · exact h.disk
    · exact hdb
  | rollback => exact ⟨h.disk, h.disk⟩
  | transition _ hfields hold =>
    exact ⟨h.db.transitioned hold _ _ _ hfields _, h.db.transitioned hold _ _ _ hfields _⟩
  | failure _ hdb hdisk => exact ⟨hdb ▸ h.db, hdisk ▸ h.disk⟩
  | note => exact ⟨h.db, h.disk⟩
  | engine _ hdb hdisk => exact ⟨hdb ▸ h.db, hdisk ▸ h.disk⟩
  | importEntry _ hslash => exact ⟨h.db.importEntry hslash .., h.disk⟩
  | select => exact ⟨h.db.same ⟨fun _ => rfl, fun _ _ => rfl⟩, h.disk⟩

/-- What the programs that use `transition` alone may do. -/
def allMoves : Perms where
  moves _ _ := True
  imports := True

theorem KeepsDb.recorded (h : KeepsDb Db.Recorded w e w') : KeepsRecorded w e w' := by
  intro hw
  obtain ⟨hdb, hdisk⟩ := h hw.db hw.disk
  exact ⟨hdb, hdisk⟩

theorem along_claimRecheck_recorded {A : Env → Prop} (url : String) :
    (claimRecheck url).Along A (KeepsDb Db.Recorded) w :=
  along_dbCommit fun _ _ hdb h =>
    h.same (Except.ok.inj hdb ▸ Db.sameHistory_claimRecheck ..)

/-! ## The control actions -/

theorem sameHistory_storeReply (db : Db) (a b c d f g : String) :
    Db.SameHistory db (storeReply cfg db a b c d f g) := ⟨fun _ => rfl, fun _ _ => rfl⟩

theorem along_control {A : Env → Prop} {a : ControlAction} {q : Request} {answers : List Env}
    (h : w.BulkFindsNone (.operation cfg (.control a q) answers)) :
    (control cfg q a).Along A (KeepsDb Db.Recorded) w := by
  have hflag : ∀ (f : FlagAction), (∀ w, (f.effect w).db = w.db ∧ (f.effect w).disk = w.disk) →
      (andWake f.wakes (flagControl cfg f q)).Along A (KeepsDb Db.Recorded) w := fun f hf =>
    along_andWake ((uses_flagControl (fun _ _ _ _ _ _ _ h => h.same (sameHistory_storeReply ..)) f hf
      q).along w)
  have hitem : ∀ {wakes : Bool} {handler : Db → String → Request → Clock → Outcome},
      (∀ clock, Db.SameHistory w.db (handler w.db cfg.runId q clock).db) →
        (andWake wakes (itemControl cfg handler q)).Along A (KeepsDb Db.Recorded) w := fun hsame =>
    along_andWake (along_itemControl fun clock h => h.same (hsame clock))
  cases a with
  | retryNow => exact hitem fun _ => Store.sameHistory_retryNow ..
  | excludeItem => exact hitem fun _ => Store.excludeItem.sameHistory_handle _ (.inr h)
  | resumeNewGeneration =>
    exact hitem fun _ => Store.resumeNewGeneration.sameHistory_handle _ (.inr h)
  | retryAccessDenied =>
    exact hitem fun _ => Store.retryAccessDenied.sameHistory_handle _ (.inr h)
  | setItemPriority =>
    refine hitem fun _ => Store.ItemAction.sameHistory_handle _ _ (.inl ?_)
    simp [Store.setItemPriority]
  | setRetryCooldown =>
    refine hitem fun _ => Store.ItemAction.sameHistory_handle _ _ (.inl ?_)
    simp [Store.setRetryCooldown]
  | pauseAdmission => exact hflag _ fun _ => ⟨rfl, rfl⟩
  | resumeAdmission => exact hflag _ fun _ => ⟨rfl, rfl⟩
  | drainAndStop => exact hflag _ fun _ => ⟨rfl, rfl⟩
  | checkpointStop => exact hflag _ fun _ => ⟨rfl, rfl⟩

/-! ## The requeue -/

/-- The requeue keeps what its UPDATE keeps. -/
theorem along_requeue {I : Db → Prop} {A : Env → Prop}
    (h : ∀ text, I w.db → I (w.db.requeueInterrupted cfg.runId text)) :
    (requeueInterruptedTransfers cfg).Along A (KeepsDb I) w := by
  -- until the UPDATE the connection sees the database of the start
  have hlook : ∀ (R : World → Env → World → Prop) (f : Db → Env → List String),
      (∀ w e, R w e w) → (dbLook f).Uses R := fun R f hR => Prog.uses_call fun w e => by
    split <;> exact hR w e
  have hloop : ∀ (R : World → Env → World → Prop) (urls : List String),
      (∀ w e engines, R w e { w with engines }) →
      (Prog.forEach urls (terminateSurvivingWriter cfg)).Uses R := fun R urls hR =>
    Prog.uses_forEach fun url _ => uses_terminateSurvivingWriter hR url
  unfold requeueInterruptedTransfers
  refine Prog.along_bind.2 ⟨(hlook _ _ fun _ _ => .same rfl rfl).along w, fun urls w₁ h₁ => ?_⟩
  have hdb₁ : w₁.db = w.db :=
    (hlook _ _ fun _ _ => id).ends (I := fun x => x.db = w.db) rfl h₁
  refine Prog.along_bind.2 ⟨(hloop _ _ fun _ _ _ => .same rfl rfl).along w₁, fun _ w₂ h₂ => ?_⟩
  have hdb₂ : w₂.db = w.db :=
    (hloop _ _ fun _ _ _ h => h).ends (I := fun x => x.db = w.db) hdb₁ h₂
  exact along_dbChange fun e => hdb₂ ▸ h e.text

/-! ## Operations and runs -/

/-- **Every operation keeps the histories** unless its bulk UPDATE finds a row. -/
theorem along_operation {A : Env → Prop} {op : Operation} {answers : List Env}
    (h : w.BulkFindsNone (.operation cfg op answers)) :
    (op.program cfg).Along A KeepsRecorded w := by
  have hsteps : ∀ {α : Type} {p : Ctl α}, p.Uses (Step cfg allMoves) →
      p.Along A KeepsRecorded w := fun hp => (hp.mono fun _ _ _ => Step.recorded).along w
  have hkeeps : ∀ {α : Type} {p : Ctl α}, p.Along A (KeepsDb Db.Recorded) w →
      p.Along A KeepsRecorded w := fun hp => hp.mono fun _ _ _ => KeepsDb.recorded
  cases op with
  | importQueues => exact hsteps (uses_importQueues trivial)
  | scopeRun =>
    exact hsteps ((uses_scopeRun (fun _ _ _ => trivial) trivial).bind fun _ => Prog.uses_ret _)
  | reconcilePromotions => exact hsteps (uses_reconcilePromotions fun _ _ _ => trivial)
  | requeueInterruptedTransfers =>
    exact hkeeps (along_requeue fun text hw => hw.same (Db.sameHistory_requeueInterrupted h text))
  | transition url toStatus detail fields =>
    exact hsteps (uses_transition trivial _ _ fun _ => fields.2)
  | claimRecheck url => exact hkeeps (along_claimRecheck_recorded url)
  | control a q =>
    exact Prog.along_bind.2 ⟨hkeeps (along_control h), fun _ _ _ => (Prog.uses_ret _).along _⟩

theorem World.Recorded.happens (h : w.Recorded) {ev : Event} (hguard : w.BulkFindsNone ev)
    (hev : w.happens ev = some w') : w'.Recorded := by
  cases ev with
  | operation cfg op answers =>
    obtain ⟨⟨x, t⟩, hexec, rfl⟩ := Option.map_eq_some_iff.1 hev
    have hend := Prog.ends_of_execute (A := fun _ => True) (fun _ _ => trivial) hexec
    exact (along_operation hguard).ends h hend
  | restart =>
    obtain rfl := Option.some.inj hev
    exact ⟨h.disk, h.disk⟩
  | outside fs records =>
    obtain rfl := Option.some.inj hev
    exact ⟨h.db, h.disk⟩

end

/-- A world whose database is empty. -/
def World.emptied (w : World) : World := { w with db := {}, disk := {} }

/-- A queue of one entry. -/
def oneEntry : Config where
  runId := "run"
  destination := ["dest"]
  state := ["state"]
  queue := ⟨[{ url := "https://host/set/a.bin", rel := ["set", "a.bin"] }], by decide⟩

/-- No files at all. -/
def emptyWorld : World := { fs := ⟨fun _ => none, fun _ => [], 4096⟩ }

/-- A request for the item of the entry. -/
def oneItem : Request where
  requestId := some "request-1"
  sessionId := some "session-1"
  parameters := .dict [(.str "item_ids", .list [.str (Store.itemId "https://host/set/a.bin")])]

/-- The queue is imported and the run selects its entry. -/
def selectOne : List Event :=
  [.operation oneEntry .importQueues (List.replicate 3 {}),
   .operation oneEntry .scopeRun (List.replicate 6 {})]

/-- The item is admitted, and a new session finds it. -/
def admitAndReopen : List Event :=
  selectOne ++
    [.operation oneEntry (.transition "https://host/set/a.bin" .admitted none ⟨[], by decide⟩) [{}],
     .restart, .operation oneEntry .importQueues (List.replicate 3 {})]

def reopened : World :=
  (Lib.exec World.happens World.BulkFindsNone emptyWorld.emptied admitAndReopen).get
    (by decide)

end TodDl.Controller
