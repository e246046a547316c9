/-
  The controller — retries of an incomplete body (tod-dl.py, `transfer`).

  The stall test of a failed transfer compares the staged size with the size that an
  earlier attempt left in the row.  `Lives` is what happens to one item, amid whatever
  happens to the others: sessions start and die, the item is admitted, its worker runs,
  operators act.  `Carries`, `Rests` and `Parked` say what the row keeps of the attempt
  before.

  `sizes_increase`: unless an operator returns the item from review, each attempt stages
  more than the one before it, or the item goes to review and is not tried again.
  `transfer_progresses`: the next transfer goes on with such a life.
-/
import TodDl.Controller.Footprint
import TodDl.Controller.History
import TodDl.Controller.Session
import TodDl.Controller.Waiting
import TodDl.Lib.Amid
import TodDl.Lib.SplitOn

namespace TodDl.Controller

open Lib (Path FileTree Prog)
open Relation (ReflTransGen)
open Store (Db Row Status Update Assign Request Clock Outcome ItemAction)

/-! ## The row of an item -/

/-- What the stall test reads. -/
def lastFailure (r : Row) : Option ℕ × Option String := (r.bytes, r.lastError)

/-- The assignment leaves it alone. -/
def keepsFailure : Assign → Bool
  | .bytes _ | .lastError _ => false
  | _ => true

/-- The statuses from which an item comes back into the queue by itself. -/
def returningStatuses : List Status :=
  [.queued, .retryWait, .failed, .pending, .running, .admitted, .active, .unavailable]

/-- The record of the last failure satisfies `C`. -/
def Carries (C : Option ℕ × Option String → Prop) (r : Row) : Prop := C (lastFailure r)

/-- It does if the item can come back by itself. -/
def Rests (C : Option ℕ × Option String → Prop) (r : Row) : Prop :=
  r.status ∈ returningStatuses → C (lastFailure r)

/-- The item does not come back by itself. -/
def Parked : Row → Prop := Rests fun _ => False

/-- What a request makes of the row of an item; `returns` says whether it may return the item
    from review. -/
def Served (returns : Prop) (r r' : Row) : Prop :=
  lastFailure r' = lastFailure r ∧ (r'.status = r.status ∨ r'.status = .excluded) ∨
    returns ∧ r.status = .reviewRequired ∧ r'.status = .queued

/-- Requests keep the property. -/
def Steady (returns : Prop) (K : Row → Prop) : Prop := ∀ r r', K r → Served returns r r' → K r'

section
variable {returns : Prop} {C : Option ℕ × Option String → Prop} {r : Row} {u : Update}

theorem lastFailure_set (hu : ∀ a ∈ u, keepsFailure a = true) (r : Row) :
    lastFailure (r.set u) = lastFailure r := by
  induction u generalizing r with
  | nil => rfl
  | cons a u ih =>
    rw [Row.set_cons, ih fun b hb => hu b (List.mem_cons_of_mem _ hb)]
    have := hu a List.mem_cons_self
    cases a <;> first | rfl | cases this

theorem Served.refl (r : Row) : Served returns r r := .inl ⟨rfl, .inl rfl⟩

theorem Carries.rests (h : Carries C r) : Rests C r := fun _ => h

theorem Parked.rests (h : Parked r) : Rests C r := fun hs => (h hs).elim

theorem Carries.set (h : Carries C r) (hu : ∀ a ∈ u, keepsFailure a = true) :
    Carries C (r.set u) := by
  rw [Carries, lastFailure_set hu]
  exact h

theorem steady_carries (hno : ¬ returns) : Steady returns (Carries C) := by
  rintro r r' h (⟨hr, -⟩ | ⟨hreturn, -⟩)
  · rw [Carries, hr]
    exact h
  · exact absurd hreturn hno

theorem steady_rests (hno : ¬ returns) : Steady returns (Rests C) := by
  rintro r r' h (⟨hr, hs | hs⟩ | ⟨hreturn, -⟩) hmem
  · rw [hr]
    exact h (hs ▸ hmem)
  · rw [hs] at hmem
    exact absurd hmem (by decide)
  · exact absurd hreturn hno

end

/-- The item has a row, the same on disk, and it satisfies `K`. -/
structure RowIs (url : String) (K : Row → Prop) (w : World) : Prop where
  agree : w.disk.downloads.find? url = w.db.downloads.find? url
  row : ∃ r, w.db.downloads.find? url = some r ∧ K r

/-! ## The others -/

/-- A step that leaves the row of the item where it is, here or on disk. -/
structure Leaves (url : String) (w w' : World) : Prop where
  db : w'.db.downloads.find? url = w.db.downloads.find? url ∨
    w'.db.downloads.find? url = w.disk.downloads.find? url
  disk : w'.disk.downloads.find? url = w.db.downloads.find? url ∨
    w'.disk.downloads.find? url = w.disk.downloads.find? url

/-- The item was returned to the queue from review. -/
def Returned (url : String) (w w' : World) : Prop := ∃ r r',
  w.db.downloads.find? url = some r ∧ r.status = .reviewRequired ∧
    w'.db.downloads.find? url = some r' ∧ r'.status = .queued

/-- What happens beside the item's own worker: other items, files and flags, and the
    requests of operators; `returns` says whether they may return the item from review. -/
inductive Beside (returns : Prop) (url : String) (w w' : World) : Prop
  | leaves (h : Leaves url w w')
  | control (cfg : Config) (q : Request) (a : ControlAction)
      (h : (control cfg q a).Passes (fun _ => True) w w') (hreturn : Returned url w w' → returns)

section
variable {url : String} {w w' : World} {K : Row → Prop}

theorem Leaves.holds (h : Leaves url w w') (hw : RowIs url K w) : RowIs url K w' := by
  have hdb : w'.db.downloads.find? url = w.db.downloads.find? url :=
    h.db.elim id fun hd => hd.trans hw.agree
  have hdisk : w'.disk.downloads.find? url = w.db.downloads.find? url :=
    h.disk.elim id fun hd => hd.trans hw.agree
  exact ⟨hdisk.trans hdb.symm, hdb ▸ hw.row⟩

theorem Leaves.same (hdb : w'.db.downloads = w.db.downloads)
    (hdisk : w'.disk.downloads = w.disk.downloads) : Leaves url w w' :=
  ⟨.inl (by rw [hdb]), .inr (by rw [hdisk])⟩

/-! ## Operators -/

/-- A commit of a handler. -/
theorem commits_served {db : Db} {runId : String} {changed : List Row} {u : Update} {o : Outcome}
    (ho : o.Commits db runId changed u) (hu : ∀ r ∈ changed, Served True r (r.set u)) {r : Row}
    (hr : db.downloads.find? url = some r) :
    ∃ r', o.db.downloads.find? url = some r' ∧ Served True r r' := by
  obtain ⟨_, _, _, _, _, hdb⟩ := ho.db_eq
  rw [hdb, Db.downloads_auditControl, Db.find?_updateWhere, hr, Option.map_some]
  refine ⟨_, rfl, ?_⟩
  split
  · next hmem =>
    obtain ⟨s, hs, hurl⟩ := List.mem_map.1 (of_decide_eq_true hmem)
    have hfind := (Lib.Table.mem_join.1 (ho.selected s hs)).2
    have hrows := Lib.Table.find?_eq_some.1 hr
    obtain rfl : s = r := by
      have := Lib.Table.find?_eq_some.2 ⟨hfind, hurl.trans hrows.2⟩
      rw [hr] at this
      exact (Option.some.inj this).symm
    exact hu s hs
  · exact .refl r

/-- An action on items that either keeps the record or returns an item from review. -/
theorem handle_served (a : ItemAction) (q : Request) (clock : Clock) {db : Db} {runId : String}
    (hu : ∀ r text, a.eligible r = true → Served True r (r.set (a.update ++ [.updatedAt text])))
    {r : Row} (hr : db.downloads.find? url = some r) :
    ∃ r', (a.handle db runId q clock).db.downloads.find? url = some r' ∧ Served True r r' := by
  rcases a.handle_cases db runId q clock with hidle | ⟨ids, -, hc, -⟩
  · rw [hidle.1]
    exact ⟨r, hr, .refl r⟩
  · exact commits_served hc (fun s hs => hu s _ (a.mem_changedRows hs).2) hr

/-- What a request does to the item. -/
def Acts (url : String) (w w' : World) : Prop := ∀ r,
  w.disk.downloads.find? url = w.db.downloads.find? url → w.db.downloads.find? url = some r →
    w'.disk.downloads.find? url = w'.db.downloads.find? url ∧
      ∃ r', w'.db.downloads.find? url = some r' ∧ Served True r r'

theorem Leaves.acts (h : Leaves url w w') : Acts url w w' := fun r hagree hr =>
  have ⟨hagree', _, hfind, hsame⟩ : RowIs url (· = r) w' := h.holds ⟨hagree, r, hr, rfl⟩
  ⟨hagree', r, hsame ▸ hfind, .refl r⟩

section
variable {cfg : Config} {q : Request} {A : Env → Prop}

theorem acts_itemControl {handler : Db → String → Request → Clock → Outcome}
    (h : ∀ clock r, w.db.downloads.find? url = some r →
      ∃ r', (handler w.db cfg.runId q clock).db.downloads.find? url = some r' ∧ Served True r r')
    (hpass : (itemControl cfg handler q).Passes A w w') : Acts url w w' := by
  rcases Prog.passes_call.1 hpass with rfl | ⟨e, -, rfl⟩
  · exact (Leaves.same rfl rfl).acts
  · dsimp only
    split
    · exact Leaves.acts ⟨.inr rfl, .inr rfl⟩
    · exact fun r _ hr => ⟨rfl, h _ r hr⟩
    · exact (Leaves.same rfl rfl).acts
    · exact fun r _ hr => ⟨rfl, h _ r hr⟩
    · exact (Leaves.same rfl rfl).acts

theorem acts_andWake {wakes : Bool} {p : Ctl (Store.Reply × Bool)}
    (hp : ∀ w₁, p.Passes A w w₁ → Acts url w w₁) (hpass : (andWake wakes p).Passes A w w') :
    Acts url w w' := by
  rcases Prog.passes_bind.1 hpass with hpass | ⟨⟨reply, accepted⟩, w₁, hend, hpass⟩
  · exact hp w' hpass
  · -- the wake leaves the database alone
    have hsame : w'.db = w₁.db ∧ w'.disk = w₁.disk := by
      dsimp only at hpass
      split at hpass
      · rcases hpass with rfl | ⟨e, -, rfl⟩ <;> exact ⟨rfl, rfl⟩
      · obtain rfl : w' = w₁ := hpass
        exact ⟨rfl, rfl⟩
    intro r hagree hr
    rw [hsame.1, hsame.2]
    exact hp w₁ hend.passes r hagree hr

theorem acts_flagControl (a : FlagAction)
    (ha : ∀ w, (a.effect w).db = w.db ∧ (a.effect w).disk = w.disk)
    (hpass : (flagControl cfg a q).Passes A w w') : Acts url w w' := by
  intro r hagree hr
  have hkeeps : (flagControl cfg a q).Uses
      (KeepsDb fun db => db.downloads.find? url = some r) :=
    uses_flagControl (fun _ _ _ _ _ _ _ h => h) a ha q
  obtain ⟨hdb, hdisk⟩ : w'.db.downloads.find? url = some r ∧ w'.disk.downloads.find? url = some r :=
    Prog.Along.passes (I := fun w => w.db.downloads.find? url = some r ∧
        w.disk.downloads.find? url = some r)
      ((hkeeps.along w).mono fun _ _ _ h hw => h hw.1 hw.2) ⟨hr, hagree.trans hr⟩ hpass
  exact ⟨hdisk.trans hdb.symm, r, hdb, .refl r⟩

/-- **A request keeps the record**, or returns the item from review. -/
theorem acts_control (q : Request) (a : ControlAction)
    (hpass : (control cfg q a).Passes A w w') : Acts url w w' := by
  have hitem : ∀ {wakes : Bool} (item : ItemAction),
      (∀ r text, item.eligible r = true →
        Served True r (r.set (item.update ++ [.updatedAt text]))) →
      (andWake wakes (itemControl cfg item.handle q)).Passes A w w' → Acts url w w' :=
    fun item hu => acts_andWake fun _ => acts_itemControl fun clock _ =>
      handle_served item q clock hu
  have hflag : ∀ f : FlagAction, (∀ w, (f.effect w).db = w.db ∧ (f.effect w).disk = w.disk) →
      (andWake f.wakes (flagControl cfg f q)).Passes A w w' → Acts url w w' :=
    fun f hf => acts_andWake fun _ => acts_flagControl f hf
  cases a with
  | retryNow =>
    refine acts_andWake (fun w₁ => acts_itemControl fun clock r hr => ?_) hpass
    rcases Store.retryNow_cases w.db cfg.runId q clock with hidle | ⟨changed, -, -, hc, -⟩
    · rw [hidle.1]
      exact ⟨r, hr, .refl r⟩
    · exact commits_served hc (fun s _ => .inl ⟨rfl, .inl rfl⟩) hr
  | excludeItem => exact hitem _ (fun _ _ _ => .inl ⟨rfl, .inr rfl⟩) hpass
  | resumeNewGeneration =>
    refine hitem _ (fun r _ hr => .inr ⟨trivial, ?_, rfl⟩) hpass
    exact of_decide_eq_true (Bool.and_eq_true _ _ ▸ hr).1
  | retryAccessDenied =>
    refine hitem _ (fun r _ hr => .inr ⟨trivial, ?_, rfl⟩) hpass
    exact of_decide_eq_true (Bool.and_eq_true _ _ ▸ hr).1
  | setItemPriority => exact hitem _ (fun _ _ _ => .inl ⟨rfl, .inl rfl⟩) hpass
  | setRetryCooldown =>
    refine acts_andWake (fun w₁ => acts_itemControl fun clock r hr => ?_) hpass
    exact handle_served _ q clock (fun _ _ _ => .inl ⟨rfl, .inl rfl⟩) hr
  | pauseAdmission => exact hflag _ (fun _ => ⟨rfl, rfl⟩) hpass
  | resumeAdmission => exact hflag _ (fun _ => ⟨rfl, rfl⟩) hpass
  | drainAndStop => exact hflag _ (fun _ => ⟨rfl, rfl⟩) hpass
  | checkpointStop => exact hflag _ (fun _ => ⟨rfl, rfl⟩) hpass

end

end

section
variable {returns : Prop} {url : String} {w w₁ w' : World} {K : Row → Prop}

theorem Beside.holds (h : Beside returns url w w') (hK : Steady returns K)
    (hw : RowIs url K w) : RowIs url K w' := by
  obtain ⟨hagree, r, hr, hKr⟩ := hw
  cases h with
  | leaves h => exact h.holds ⟨hagree, r, hr, hKr⟩
  | control cfg q a h hreturn =>
    obtain ⟨hagree', r', hr', hserved⟩ := acts_control q a h r hagree hr
    refine ⟨hagree', r', hr', hK r r' hKr ?_⟩
    exact hserved.imp_right fun ⟨_, hreview, hqueued⟩ =>
      ⟨hreturn ⟨r, r', hr, hreview, hr', hqueued⟩, hreview, hqueued⟩

theorem holds_beside (h : ReflTransGen (Beside returns url) w w') (hK : Steady returns K)
    (hw : RowIs url K w) : RowIs url K w' := by
  induction h with
  | refl => exact hw
  | tail _ h ih => exact h.holds hK ih

theorem RowIs.mono {L : Row → Prop} (h : RowIs url K w) (hKL : ∀ r, K r → L r) : RowIs url L w :=
  ⟨h.agree, h.row.imp fun r hr => ⟨hr.1, hKL r hr.2⟩⟩

/-! ## The programs of the other items -/

/-- What is done to items of other URLs. -/
def elsewhere (url : String) : Perms where
  moves u _ := u ≠ url
  engines := True

theorem Step.leaves {cfg : Config} {e : Env} (h : Step cfg (elsewhere url) w e w') :
    Leaves url w w' := by
  cases h with
  | quiet hdb hdisk => exact .same (by rw [hdb]) (by rw [hdisk])
  | aside hrows hdisk =>
    have hdb := hrows.downloads
    rcases hdisk with hdisk | hdisk
    · exact .same hdb (by rw [hdisk])
    · exact ⟨.inl (by rw [hdb]), .inl (by rw [hdisk, hdb])⟩
  | rollback => exact ⟨.inr rfl, .inr rfl⟩
  | @transition u status detail fields old text hmoves _ hold =>
    have hother : (w.db.transitioned cfg.runId old status detail fields text).downloads.find? url =
        w.db.downloads.find? url := by
      rw [Db.find?_transitioned]
      refine Option.map_congr (fun r hr => if_neg ?_) |>.trans Option.map_id'
      rw [Lib.Table.find?_key hr, Lib.Table.find?_key hold]
      exact fun h => hmoves h.symm
    exact ⟨.inl hother, .inl hother⟩
  | failure code hdb hdisk => exact .same (by rw [hdb]) (by rw [hdisk])
  | note => exact .same rfl rfl
  | engine _ hdb hdisk => exact .same (by rw [hdb]) (by rw [hdisk])
  | importEntry hp => exact hp.elim
  | select hp => exact hp.elim

/-- A program that leaves the item alone is one of the others. -/
theorem absorb (cfg : Config) {α : Type} {p : Ctl α} {x : Option (Except Exc α)}
    (hp : p.Uses (Step cfg (elsewhere url))) (h : p.Amid (Beside returns url) w x w') :
    ReflTransGen (Beside returns url) w w' :=
  h.absorb (hp.mono fun _ _ _ hs => .leaves hs.leaves)

/-- The row a worker was admitted with. -/
def Task.row : Task → Row
  | .transfer row | .recheck row => row

/-- The workers of the other items are among the others. -/
theorem leaves_task {cfg : Config} {task : Task} (htask : task.row.url ≠ url) :
    (task.program cfg).Uses fun w _ w' => Leaves url w w' := by
  have hmoves : ∀ s ∈ workerStatuses, (elsewhere url).moves task.row.url s := fun _ _ => htask
  have hsteps : ∀ w e w', Step cfg (elsewhere url) w e w' → Leaves url w w' :=
    fun _ _ _ => Step.leaves
  cases task with
  | transfer row => exact (uses_transfer hmoves trivial).mono hsteps
  | recheck row => exact (uses_recheckUnavailable hmoves).mono hsteps

/-! ## Transitions of the item -/

section
variable {cfg : Config} {status : Status} {detail : Option String} {fields : Env → Update}

/-- A commit amid others. -/
theorem commit_amid {f : Db → Env → Except Exc Db} {x : Option (Except Exc Unit)}
    (h : (dbCommit f).Amid (Beside returns url) w x w') :
    (ReflTransGen (Beside returns url) w w' ∧ x ≠ some (.ok ())) ∨
      ∃ w₁ e db, ReflTransGen (Beside returns url) w w₁ ∧ f w₁.db e = .ok db ∧
        ReflTransGen (Beside returns url) { w₁ with db, disk := db } w' := by
  rcases Prog.amid_call h with ⟨rfl, hS⟩ | ⟨w₁, e, hS, hS', hx⟩
  · exact .inl ⟨hS, by simp⟩
  · have hnone : ∀ {y : Exc}, x = none ∨ x = some (.error y) → x ≠ some (.ok ()) := by
      rintro y (rfl | rfl) <;> simp
    have hlost : ReflTransGen (Beside returns url) w { w₁ with db := w₁.disk } :=
      hS.tail (.leaves ⟨.inr rfl, .inr rfl⟩)
    cases hf : f w₁.db e with
    | error y =>
      rcases hfault : e.sqlFault with _ | _ | _ <;> simp only [hf, hfault] at hS' hx
      · exact .inl ⟨hS.trans hS', hnone hx⟩
      · exact .inl ⟨hlost.trans hS', hnone hx⟩
      · exact .inl ⟨hS.trans hS', hnone hx⟩
    | ok db =>
      rcases hfault : e.sqlFault with _ | _ | _ <;> simp only [hf, hfault] at hS' hx
      · exact .inr ⟨w₁, e, db, hS, hf, hS'⟩
      · exact .inl ⟨hlost.trans hS', hnone hx⟩
      · exact .inr ⟨w₁, e, db, hS, hf, hS'⟩

/-- The handler of a failed statement raises. -/
theorem sqliteFailure_amid (cfg : Config) {x : Option (Except Exc Unit)}
    (h : sqliteFailure.Amid (Beside returns url) w x w') :
    ReflTransGen (Beside returns url) w w' ∧ x ≠ some (.ok ()) := by
  refine ⟨absorb cfg uses_sqliteFailure h, ?_⟩
  rintro rfl
  obtain ⟨_, _, -, h⟩ := Prog.amid_bind_ok h
  obtain ⟨_, _, -, h⟩ := Prog.amid_bind_ok h
  obtain ⟨h | h, -⟩ := h <;> cases h

/-- What the commit of a transition comes to, and what an exception does. -/
theorem exists_commit (cfg : Config) (u : String) (status : Status) (detail : Option String)
    (fields : Env → Update) : ∃ f handler,
      transition cfg u status detail fields = (dbCommit f).handle handler ∧
      (∀ db e db', f db e = .ok db' → ∃ old, db.downloads.find? u = some old ∧
        db' = db.transitioned cfg.runId old status detail (fields e) e.text) ∧
      ∀ y, handler y = sqliteFailure ∨ handler y = Prog.raise y := by
  refine ⟨_, _, rfl, fun db e db' hdb => ?_, fun y => ?_⟩
  · cases hold : db.downloads.find? u with
    | none => simp [Db.transition, hold] at hdb
    | some old =>
      simp only [Db.transition, hold, Option.map_some, Except.ok.injEq] at hdb
      exact ⟨old, rfl, hdb.symm⟩
  · cases y with
    | sqlite => exact .inl rfl
    | _ => exact .inr rfl


/-- **A transition amid others**: nothing is committed, or the row is moved. -/
theorem transition_amid {u : String} {x : Option (Except Exc Unit)}
    (h : (transition cfg u status detail fields).Amid (Beside returns url) w x w') :
    (ReflTransGen (Beside returns url) w w' ∧ x ≠ some (.ok ())) ∨
      ∃ w₁ e old, ReflTransGen (Beside returns url) w w₁ ∧ w₁.db.downloads.find? u = some old ∧
        ReflTransGen (Beside returns url)
          (w₁.moved cfg old status detail (fields e) e.text) w' := by
  obtain ⟨f, handler, heq, hf, hhandler⟩ := exists_commit cfg u status detail fields
  rw [heq] at h
  rcases Prog.amid_handle h with h | ⟨y, w₁, h, hh⟩
  · rcases commit_amid h with hnone | ⟨w₁, e, db, hS, hdb, hS'⟩
    · exact .inl hnone
    · obtain ⟨old, hold, rfl⟩ := hf _ _ _ hdb
      exact .inr ⟨w₁, e, old, hS, hold, hS'⟩
  · have hraise : ReflTransGen (Beside returns url) w₁ w' ∧ x ≠ some (.ok ()) := by
      rcases hhandler y with hy | hy
      · rw [hy] at hh
        exact sqliteFailure_amid cfg hh
      · rw [hy] at hh
        obtain ⟨rfl | rfl, hS⟩ := hh <;> exact ⟨hS, by simp⟩
    rcases commit_amid h with ⟨hS, -⟩ | ⟨w₂, e, db, hS, hdb, hS'⟩
    · exact .inl ⟨hS.trans hraise.1, hraise.2⟩
    · obtain ⟨old, hold, rfl⟩ := hf _ _ _ hdb
      exact .inr ⟨w₂, e, old, hS, hold, hS'.trans hraise.1⟩

/-- The row after the commit. -/
theorem holds_moved {old : Row} {update : Update} {text : String}
    (hold : w.db.downloads.find? url = some old) :
    RowIs url (· = old.set (Db.transitionUpdate status update text))
      (w.moved cfg old status detail update text) := by
  have hrow : (w.db.transitioned cfg.runId old status detail update text).downloads.find? url =
      some (old.set (Db.transitionUpdate status update text)) := by
    rw [Db.find?_transitioned, hold, Option.map_some, if_pos rfl]
  exact ⟨rfl, _, hrow, rfl⟩

/-- A transition of the item keeps `K`, or it establishes `L`. -/
theorem transition_holds {x : Option (Except Exc Unit)} {L : Row → Prop} (hK : Steady returns K)
    (hL : Steady returns L)
    (hset : ∀ r e, K r → L (r.set (Db.transitionUpdate status (fields e) e.text)))
    (h : (transition cfg url status detail fields).Amid (Beside returns url) w x w')
    (hw : RowIs url K w) : RowIs url K w' ∧ x ≠ some (.ok ()) ∨ RowIs url L w' := by
  rcases transition_amid h with ⟨hS, hx⟩ | ⟨w₁, e, old, hS, hold, hS'⟩
  · exact .inl ⟨holds_beside hS hK hw, hx⟩
  · obtain ⟨-, r, hr, hKr⟩ := holds_beside hS hK hw
    obtain rfl : r = old := Option.some.inj (hr.symm.trans hold)
    exact .inr (holds_beside hS' hL ((holds_moved hold).mono fun s hs => hs ▸ hset r e hKr))

end

/-! ## The programs of the item -/

section
variable {cfg : Config} {C : Option ℕ × Option String → Prop} {row : Row}

/-- The status a transition gives. -/
theorem status_transitionUpdate (r : Row) (status : Status) {update : Update}
    (hu : update.KeepsStatus) (text : String) :
    (r.set (Db.transitionUpdate status update text)).status = status := by
  rw [Db.transitionUpdate, Row.set_cons, Row.set_cons, Row.status_set hu]
  rfl

/-- A transition that leaves the record alone. -/
theorem carries_transitionUpdate {r : Row} (h : Carries C r) (status : Status) {update : Update}
    (hu : ∀ a ∈ update, keepsFailure a = true) (text : String) :
    Carries C (r.set (Db.transitionUpdate status update text)) := by
  refine h.set fun a ha => ?_
  rcases List.mem_cons.1 ha with rfl | ha
  · rfl
  · rcases List.mem_cons.1 ha with rfl | ha
    · rfl
    · exact hu a ha

/-- A transition to a status from which the item does not come back by itself. -/
theorem parked_transitionUpdate (r : Row) {status : Status} (hs : status ∉ returningStatuses)
    {update : Update} (hu : update.KeepsStatus) (text : String) :
    Parked (r.set (Db.transitionUpdate status update text)) := by
  intro hmem
  rw [status_transitionUpdate r status hu] at hmem
  exact hs hmem

section
variable (hno : ¬ returns)
include hno

/-- The row is moved and its record stays. -/
theorem transition_carries {x : Option (Except Exc Unit)} {status : Status}
    {detail : Option String} {fields : Env → Update}
    (hfields : ∀ e, ∀ a ∈ fields e, keepsFailure a = true)
    (h : (transition cfg url status detail fields).Amid (Beside returns url) w x w')
    (hw : RowIs url (Carries C) w) : RowIs url (Carries C) w' :=
  (transition_holds (steady_carries hno) (steady_carries hno)
    (fun _ e hr => carries_transitionUpdate hr status (hfields e) e.text) h hw).elim
    And.left id

/-- The item is parked, or nothing is committed. -/
theorem transition_rests {x : Option (Except Exc Unit)} {status : Status}
    {detail : Option String} {fields : Env → Update} (hs : status ∉ returningStatuses)
    (hfields : ∀ e, Store.Update.KeepsStatus (fields e))
    (h : (transition cfg url status detail fields).Amid (Beside returns url) w x w')
    (hw : RowIs url (Carries C) w) : RowIs url (Rests C) w' := by
  rcases transition_holds (L := Parked) (steady_carries hno) (steady_rests hno)
    (fun r e _ => parked_transitionUpdate r hs (hfields e) e.text) h hw with ⟨hw', -⟩ | hw'
  · exact hw'.mono fun _ => Carries.rests
  · exact hw'.mono fun _ => Parked.rests

/-- What the others keep while the item is in the hands of its worker. -/
theorem RowIs.beside (hw : RowIs url (Carries C) w)
    (h : ReflTransGen (Beside returns url) w w') : RowIs url (Carries C) w' :=
  holds_beside h (steady_carries hno) hw

theorem RowIs.rests (hw : RowIs url (Carries C) w)
    (h : ReflTransGen (Beside returns url) w w') : RowIs url (Rests C) w' :=
  (hw.beside hno h).mono fun _ => Carries.rests

/-- A program that begins with steps which leave the item alone. -/
theorem rests_quiet_bind (cfg : Config) {α β : Type} {p : Ctl α} {q : α → Ctl β}
    {x : Option (Except Exc β)}
    (hp : p.Uses (Step cfg (elsewhere url))) (h : (p.bind q).Amid (Beside returns url) w x w')
    (hw : RowIs url (Carries C) w)
    (hq : ∀ a w₁, RowIs url (Carries C) w₁ → (q a).Amid (Beside returns url) w₁ x w' →
      RowIs url (Rests C) w') : RowIs url (Rests C) w' := by
  rcases Prog.amid_bind h with ⟨a, w₁, hp', h⟩ | ⟨-, hp'⟩ | ⟨y, -, hp'⟩
  · exact hq a w₁ (hw.beside hno (absorb cfg hp hp')) h
  · exact hw.rests hno (absorb cfg hp hp')
  · exact hw.rests hno (absorb cfg hp hp')

/-- A program that ends with steps which leave the item alone. -/
theorem rests_bind_quiet (cfg : Config) {α β : Type} {p : Ctl α} {q : α → Ctl β}
    {x : Option (Except Exc β)}
    (hq : ∀ a, (q a).Uses (Step cfg (elsewhere url)))
    (h : (p.bind q).Amid (Beside returns url) w x w')
    (hp : ∀ y w₁, p.Amid (Beside returns url) w y w₁ → RowIs url (Rests C) w₁) :
    RowIs url (Rests C) w' := by
  rcases Prog.amid_bind h with ⟨a, w₁, hp', h⟩ | ⟨-, hp'⟩ | ⟨y, -, hp'⟩
  · exact holds_beside (absorb cfg (hq a) h) (steady_rests hno) (hp _ _ hp')
  · exact hp _ _ hp'
  · exact hp _ _ hp'

theorem representationReview_rests {staging : Path} {decision : String}
    {observed : Option HeadAnswer} {x : Option (Except Exc Unit)}
    (h : (enterRepresentationReview cfg url staging decision observed).Amid
      (Beside returns url) w x w')
    (hw : RowIs url (Carries C) w) : RowIs url (Rests C) w' := by
  unfold enterRepresentationReview at h
  refine rests_quiet_bind hno cfg (uses_moveCandidate _) h hw fun candidate w₁ hw₁ h => ?_
  refine rests_quiet_bind hno cfg (uses_candidateEvent ..) h hw₁ fun _ w₂ hw₂ h => ?_
  refine rests_bind_quiet hno cfg (fun _ => uses_clearTransferTelemetry _) h
    fun y w₃ ht => ?_
  exact transition_rests hno (by decide) (fun _ => by simp) ht hw₂

theorem recheck_rests (hurl : row.url = url) {x : Option (Except Exc String)}
    (h : (recheckUnavailable cfg row).Amid (Beside returns url) w x w')
    (hw : RowIs url (Carries C) w) : RowIs url (Rests C) w' := by
  subst hurl
  unfold recheckUnavailable at h
  refine rests_quiet_bind hno cfg (uses_look _) h hw fun answer w₁ hw₁ h => ?_
  split at h
  · exact hw₁.rests hno h.2
  split at h
  · exact hw₁.rests hno h.2
  refine rests_quiet_bind hno cfg (uses_partialExists _) h hw₁ fun there w₂ hw₂ h => ?_
  split at h
  · refine rests_bind_quiet hno cfg (fun _ => Prog.uses_ret _) h fun y w₃ hr => ?_
    exact representationReview_rests hno hr hw₂
  · refine rests_bind_quiet hno cfg (fun _ => Prog.uses_ret _) h fun y w₃ ht => ?_
    have hw₃ := transition_carries hno (fun _ => by simp [keepsFailure]) ht hw₂
    exact hw₃.mono fun _ => Carries.rests

end

/-! ## The scheduler -/

/-- What `next_pending` hands out may be tried again. -/
theorem nextPending_returning {db : Db} {time : ℚ} {r : Row}
    (h : nextPending cfg db time = .ok (some r)) :
    db.downloads.find? r.url = some r ∧ r.status ∈ returningStatuses := by
  cases hpatterns : clauseIn 7 db cfg.runId with
  | error f => simp [nextPending, hpatterns, bind, Except.bind] at h
  | ok patterns =>
    obtain ⟨i, hi, -⟩ := nextPending_least hpatterns h
    have hretryable : cfg.retryable r = true := by
      have hadmissible := hi.admissible
      simp only [Config.admissible, Bool.and_eq_true] at hadmissible
      exact hadmissible.1.1
    refine ⟨(Lib.Table.find?_key hi.row).symm ▸ hi.row, ?_⟩
    simp only [Config.retryable, Bool.and_eq_true, decide_eq_true_eq] at hretryable
    have hall : ∀ s ∈ Store.retryableStatuses, s ∈ returningStatuses := by decide
    exact hall _ hretryable.1

theorem claimRecheck_holds {u : String} {x : Option (Except Exc Unit)} (hK : Steady returns K)
    (h : (claimRecheck u).Amid (Beside returns url) w x w') (hw : RowIs url K w) :
    RowIs url K w' := by
  rcases commit_amid h with ⟨hS, -⟩ | ⟨w₁, e, db, hS, hdb, hS'⟩
  · exact holds_beside hS hK hw
  · obtain rfl := Except.ok.inj hdb
    obtain ⟨-, r, hr, hKr⟩ := holds_beside hS hK hw
    refine holds_beside hS' hK ⟨rfl, ?_⟩
    rw [Db.claimRecheck, Lib.Table.find?_modify, hr, Option.map_some]
    refine ⟨_, rfl, ?_⟩
    split
    · exact hK r _ hKr (.inl ⟨rfl, .inl rfl⟩)
    · exact hKr

/-- A query finds what it finds in the database of some moment. -/
theorem query_amid {β : Type} {f : Db → ℚ → Except Provenance.Failure β}
    {x : Option (Except Exc β)} (h : (query f).Amid (Beside returns url) w x w') :
    ∃ w₁ time, ReflTransGen (Beside returns url) w w₁ ∧ ReflTransGen (Beside returns url) w₁ w' ∧
      ∀ b, x = some (.ok b) → f w₁.db time = .ok b := by
  rcases Prog.amid_call h with ⟨rfl, hS⟩ | ⟨w₁, e, hS, hS', hx⟩
  · exact ⟨w, 0, .refl, hS, by simp⟩
  · refine ⟨w₁, e.time, hS, ?_, ?_⟩
    · split at hS' <;> exact hS'
    · rintro b rfl
      simp only [reduceCtorEq, false_or, Option.some.injEq] at hx
      split at hx
      · cases hx
      · cases hx
      · next hf =>
        obtain rfl := Except.ok.inj hx
        exact hf

theorem dbLook_amid {β : Type} {f : Db → Env → β} {x : Option (Except Exc β)}
    (h : (dbLook f).Amid (Beside returns url) w x w') :
    ∃ w₁ e, ReflTransGen (Beside returns url) w w₁ ∧ ReflTransGen (Beside returns url) w₁ w' ∧
      ∀ b, x = some (.ok b) → f w₁.db e = b := by
  rcases Prog.amid_call h with ⟨rfl, hS⟩ | ⟨w₁, e, hS, hS', hx⟩
  · exact ⟨w, {}, .refl, hS, by simp⟩
  · refine ⟨w₁, e, hS, ?_, ?_⟩
    · split at hS' <;> exact hS'
    · rintro b rfl
      simp only [reduceCtorEq, false_or, Option.some.injEq] at hx
      split at hx
      · cases hx
      · exact (Except.ok.inj hx).symm

/-- The task of the item, if the scheduler has one for it. -/
def taskOf (url : String) (cfg : Config) :
    Option (Except Exc (Option Task)) → Option (Config × Task)
  | some (.ok (some task)) => if task.row.url = url then some (cfg, task) else none
  | _ => none

/-- What the row keeps, at rest or in the hands of a worker. -/
def KeepsOf (C : Option ℕ × Option String → Prop) (task : Option (Config × Task)) : Row → Prop :=
  if task.isNone then Rests C else Carries C

theorem Carries.keepsOf {task : Option (Config × Task)} {r : Row} (h : Carries C r) :
    KeepsOf C task r := by
  unfold KeepsOf
  split
  · exact h.rests
  · exact h

/-- A row that is found where the item may come back from carries the record. -/
theorem RowIs.carries (hw : RowIs url (Rests C) w) (hrow : w.db.downloads.find? url = some row)
    (hs : row.status ∈ returningStatuses) : RowIs url (Carries C) w := by
  obtain ⟨hagree, r, hr, hrests⟩ := hw
  obtain rfl : r = row := Option.some.inj (hr.symm.trans hrow)
  exact ⟨hagree, r, hr, hrests hs⟩

section
variable (hno : ¬ returns)
include hno

/-- A task that ends the round, after a step `p` that keeps the record of the item. -/
theorem round_holds {p : Ctl Unit} (task : Task) {x : Option (Except Exc (Option Task))}
    (hcarries : task.row.url = url → ∀ y w₁, p.Amid (Beside returns url) w y w₁ →
      RowIs url (Carries C) w₁)
    (hrests : task.row.url ≠ url → ∀ y w₁, p.Amid (Beside returns url) w y w₁ →
      RowIs url (Rests C) w₁)
    (h : (p.bind fun _ => .ret (some task)).Amid (Beside returns url) w x w') :
    RowIs url (KeepsOf C (taskOf url cfg x)) w' := by
  have hx : x = none ∨ x = some (.ok (some task)) ∨ ∃ y, x = some (.error y) := by
    rcases Prog.amid_bind h with ⟨_, _, -, hret⟩ | ⟨rfl, -⟩ | ⟨y, rfl, -⟩
    · exact hret.1.imp_right .inl
    · exact .inl rfl
    · exact .inr (.inr ⟨y, rfl⟩)
  by_cases hurl : task.row.url = url
  · refine RowIs.mono ?_ fun _ => Carries.keepsOf
    rcases Prog.amid_bind h with ⟨_, w₁, hp, hret⟩ | ⟨-, hp⟩ | ⟨y, -, hp⟩
    · exact (hcarries hurl _ _ hp).beside hno hret.2
    · exact hcarries hurl _ _ hp
    · exact hcarries hurl _ _ hp
  · have hnone : taskOf url cfg x = none := by
      rcases hx with rfl | rfl | ⟨y, rfl⟩
      · rfl
      · exact if_neg hurl
      · rfl
    rw [hnone]
    exact rests_bind_quiet hno cfg (fun _ => Prog.uses_ret _) h (hrests hurl)

/-- **A round of the scheduler.** -/
theorem admitNext_holds {x : Option (Except Exc (Option Task))}
    (h : (admitNext cfg).Amid (Beside returns url) w x w') (hw : RowIs url (Rests C) w) :
    RowIs url (KeepsOf C (taskOf url cfg x)) w' := by
  have hrests : ∀ {w₁}, ReflTransGen (Beside returns url) w w₁ → RowIs url (Rests C) w₁ :=
    fun hS => holds_beside hS (steady_rests hno) hw
  unfold admitNext at h
  rcases Prog.amid_bind h with ⟨found, w₁, hquery, h⟩ | ⟨rfl, hquery⟩ | ⟨y, rfl, hquery⟩
  · obtain ⟨w₀, time, hS, hS', hfound⟩ := query_amid hquery
    replace hfound := hfound _ rfl
    cases found with
    | some row =>
      obtain ⟨hrow, hs⟩ := nextPending_returning hfound
      refine round_holds hno (.transfer row) (fun hurl y w₂ ht => ?_)
        (fun hurl y w₂ ht => ?_) h
      · have hw₁ := ((hrests hS).carries (hurl ▸ hrow) hs).beside hno hS'
        subst hurl
        exact transition_carries hno (fun _ => by simp) ht hw₁
      · have hquiet : (transition cfg row.url .admitted (some "transfer admitted")
            fun _ => []).Uses (Step cfg (elsewhere url)) :=
          uses_transition hurl _ _ fun _ => by simp
        exact holds_beside (absorb cfg hquiet ht) (steady_rests hno) (hrests (hS.trans hS'))
    | none =>
      rcases Prog.amid_bind h with ⟨due, w₂, hlook, h⟩ | ⟨rfl, hlook⟩ | ⟨y, rfl, hlook⟩
      · obtain ⟨w₃, e, hS₂, hS₂', hdue⟩ := dbLook_amid hlook
        replace hdue := hdue _ rfl
        cases due with
        | none =>
          obtain ⟨rfl | rfl, hS₃⟩ := h <;>
            exact hrests (hS.trans (hS'.trans (hS₂.trans (hS₂'.trans hS₃))))
        | some row =>
          obtain ⟨hrow, hstatus, -⟩ := nextRecheck_eq_some hdue
          have hs : row.status ∈ returningStatuses := by
            rw [hstatus]
            decide
          have hw₃ := hrests (hS.trans (hS'.trans hS₂))
          refine round_holds hno (.recheck row) (fun hurl y w₄ hc => ?_)
            (fun hurl y w₄ hc => ?_) h
          · exact claimRecheck_holds (steady_carries hno) hc
              ((hw₃.carries (hurl ▸ hrow) hs).beside hno hS₂')
          · exact claimRecheck_holds (steady_rests hno) hc
              (holds_beside hS₂' (steady_rests hno) hw₃)
      · obtain ⟨w₃, e, hS₂, hS₂', -⟩ := dbLook_amid hlook
        exact hrests (hS.trans (hS'.trans (hS₂.trans hS₂')))
      · obtain ⟨w₃, e, hS₂, hS₂', -⟩ := dbLook_amid hlook
        exact hrests (hS.trans (hS'.trans (hS₂.trans hS₂')))
  · obtain ⟨w₀, time, hS, hS', -⟩ := query_amid hquery
    exact hrests (hS.trans hS')
  · obtain ⟨w₀, time, hS, hS', -⟩ := query_amid hquery
    exact hrests (hS.trans hS')

end

/-! ## The start of a session -/

/-- The row of the item at rest, in a database. -/
def RestsIn (url : String) (C : Option ℕ × Option String → Prop) (db : Db) : Prop :=
  ∃ r, db.downloads.find? url = some r ∧ Rests C r

/-- What a session does before its loop: no item gets a status to come back from. -/
def parks : Perms where
  moves _ status := status ∉ returningStatuses
  engines := True
  imports := True

theorem RestsIn.same {db db' : Db} (h : RestsIn url C db) (hd : db'.downloads = db.downloads) :
    RestsIn url C db' := by
  rw [RestsIn, hd]
  exact h

/-- An UPDATE that keeps the record, and moves only items that come back by themselves. -/
theorem RestsIn.updateWhere {db : Db} {p : Row → Bool} {u : Update} (h : RestsIn url C db)
    (hu : ∀ a ∈ u, keepsFailure a = true)
    (hs : ∀ r, p r = true → r.status ∈ returningStatuses ∨ u.KeepsStatus) :
    RestsIn url C (db.updateWhere p u) := by
  obtain ⟨r, hr, hrests⟩ := h
  rw [RestsIn, Db.find?_updateWhere, hr, Option.map_some]
  refine ⟨_, rfl, fun hmem => ?_⟩
  by_cases hp : p r = true
  · rw [if_pos hp] at hmem ⊢
    rw [lastFailure_set hu]
    rcases hs r hp with hs | hs
    · exact hrests hs
    · rw [Row.status_set hs] at hmem
      exact hrests hmem
  · rw [if_neg hp] at hmem ⊢
    exact hrests hmem

theorem RestsIn.importEntry {db : Db} (h : RestsIn url C db) (u rel stored staging : String)
    (size sha generation : Option String) (time : ℚ) (text : String) :
    RestsIn url C (db.importEntry u rel stored staging size sha generation time text) := by
  have hinserted : RestsIn url C { db with
      downloads := db.downloads.insertNew
        { url := u, relativePath := rel, storagePath := some stored, stagingPath := some staging,
          inventorySize := size, expectedSha256 := sha, updatedAt := text } } := by
    obtain ⟨r, hr, hrests⟩ := h
    exact ⟨r, Lib.Table.find?_insertNew_of_some hr, hrests⟩
  have hkeeps : ∀ {db : Db} {p : Row → Bool} {u : Update}, RestsIn url C db →
      (∀ a ∈ u, keepsFailure a = true) → u.KeepsStatus → RestsIn url C (db.updateWhere p u) :=
    fun h hu hs => h.updateWhere hu fun _ _ => .inr hs
  unfold Db.importEntry Db.recordSourceGeneration
  exact hkeeps (hkeeps (hkeeps (hkeeps hinserted (by simp [keepsFailure]) (by simp))
    (by simp [keepsFailure]) (by simp)) (by simp [keepsFailure]) (by simp))
      (by simp [keepsFailure]) (by simp)

theorem Step.rests {e : Env} (hs : Step cfg parks w e w') : KeepsDb (RestsIn url C) w e w' := by
  cases hs with
  | quiet hdb hdisk => exact .same hdb hdisk
  | aside hrows hdisk =>
    intro h h'
    refine ⟨h.same hrows.downloads, ?_⟩
    rcases hdisk with hdisk | hdisk <;> rw [hdisk]
    · exact h'
    · exact h.same hrows.downloads
  | rollback => exact .rollback
  | transition hp hfields hold =>
    refine .commit fun ⟨r, hr, hrests⟩ => ?_
    rw [RestsIn, Db.find?_transitioned, hr, Option.map_some]
    refine ⟨_, rfl, ?_⟩
    split
    · exact (parked_transitionUpdate r hp hfields _).rests
    · exact hrests
  | failure code hdb hdisk => exact .same hdb hdisk
  | note code => exact .same rfl rfl
  | engine _ hdb hdisk => exact .same hdb hdisk
  | importEntry => exact .change fun h => h.importEntry ..
  | select => exact .change fun h => h.same rfl

theorem uses_change_rests {f : Db → Env → Db}
    (h : ∀ db e, RestsIn url C db → RestsIn url C (f db e)) :
    (dbChange f).Uses (KeepsDb (RestsIn url C)) := by
  refine Prog.uses_call fun w e => ?_
  split
  · exact .rollback
  · exact .change (h _ _)

/-- **A start keeps the record of an item** that may come back, and parked items parked. -/
theorem uses_startup_rests : (startup cfg).Uses (KeepsDb (RestsIn url C)) := by
  refine uses_startup_of (P := parks) (fun _ s hs => ?_) trivial trivial (fun _ _ _ h => h.rests)
    ?_ ?_ ?_ fun w e d => .same rfl rfl
  · have hall : ∀ s ∈ [Status.complete, .existingUnverified, .reviewRequired, .promoting],
        s ∉ returningStatuses := by decide
    exact hall s hs
  · refine Prog.uses_call fun w e => ?_
    have hmigrate : RestsIn url C w.db → RestsIn url C w.db.migratePending := fun h => by
      refine h.updateWhere (by simp [keepsFailure]) fun r hr => .inl ?_
      rw [of_decide_eq_true hr]
      decide
    split
    · exact .rollback
    · exact .same rfl rfl
    · next hdb _ => exact .commit (Except.ok.inj hdb ▸ hmigrate)
    · next hdb _ => exact .commit (Except.ok.inj hdb ▸ hmigrate)
  · refine uses_change_rests fun db e h => h.updateWhere (by simp [keepsFailure]) fun r hr =>
      .inl ?_
    have hall : ∀ s ∈ Store.interruptedStatuses, s ∈ returningStatuses := by decide
    exact hall _ (of_decide_eq_true (Bool.and_eq_true _ _ ▸ hr).1)
  · exact uses_change_rests fun db e h =>
      h.updateWhere (by simp [keepsFailure]) fun _ _ => .inr (by simp)

/-- The last statement of a start is a commit. -/
theorem startup_agrees {A : Env → Prop} (h : (startup cfg).Ends A w (.ok ()) w') :
    w'.disk = w'.db := by
  have hlast : ∀ {α : Type} {p : Ctl α} {q : α → Ctl Unit} {w : World},
      (∀ a w₁, (q a).Ends A w₁ (.ok ()) w' → w'.disk = w'.db) →
      (p.bind q).Ends A w (.ok ()) w' → w'.disk = w'.db := by
    intro α p q w hq h
    rcases Prog.ends_bind.1 h with ⟨a, w₁, -, h⟩ | ⟨y, h, -⟩
    · exact hq a w₁ h
    · cases h
  have hend : ∀ {w : World}, ((dbCommit fun db _ => .ok db).bind fun _ => Prog.change fun w e =>
      { w with deadline :=
          if cfg.timeLimit = 0 then none else some (e.monotonic + cfg.timeLimit) } :
        Ctl Unit).Ends A w (.ok ()) w' → w'.disk = w'.db := by
    intro w h
    rcases Prog.ends_bind.1 h with ⟨_, w₁, hcommit, e, -, -, rfl⟩ | ⟨y, h, -⟩
    · obtain ⟨e, db, -, -, rfl⟩ := ends_dbCommit_ok hcommit
      rfl
    · cases h
  unfold startup at h
  refine hlast (fun _ _ => hlast fun _ _ => hlast fun _ _ => hlast fun _ _ => hlast fun _ _ =>
    hlast fun _ _ => hlast fun _ _ => hlast fun _ _ => hlast fun _ _ => hlast fun _ _ =>
    hlast fun _ _ => hlast fun _ _ => hlast fun _ _ h => ?_) h
  dsimp only at h
  split at h
  · exact hlast (fun _ _ => hend) h
  · exact hend h

theorem RowIs.booted (hw : RowIs url (Rests C) w) : RowIs url (Rests C) w.booted :=
  ⟨rfl, hw.agree ▸ hw.row⟩

/-- A start that was cut off, and the next one. -/
theorem RowIs.died {A : Env → Prop} (hw : RowIs url (Rests C) w)
    (h : (startup cfg).Passes A w.booted w') : RowIs url (Rests C) w'.booted := by
  have hboot : RestsIn url C w.booted.db := hw.booted.row
  obtain ⟨-, hdisk⟩ := Prog.Along.passes (I := fun w => RestsIn url C w.db ∧ RestsIn url C w.disk)
    ((uses_startup_rests.along _).mono fun _ _ _ h hw => h hw.1 hw.2) ⟨hboot, hboot⟩ h
  exact ⟨rfl, hdisk⟩

theorem RowIs.started {A : Env → Prop} (hw : RowIs url (Rests C) w)
    (h : (startup cfg).Ends A w.booted (.ok ()) w') : RowIs url (Rests C) w' := by
  have hboot : RestsIn url C w.booted.db := hw.booted.row
  obtain ⟨hdb, -⟩ := ends_keepsDb (uses_startup_rests.along _) hboot hboot h
  exact ⟨by rw [startup_agrees h], hdb⟩

end

end

/-! ## Failed attempts -/

/-- A failed attempt, as its worker saw it and left it. -/
structure FailedAttempt where
  cfg : Config
  row : Row
  startedAt : String
  /-- the error of the engine -/
  error : String
  /-- the staged size -/
  size : ℕ
  /-- what the stall test found -/
  stalled : Bool
  /-- when the outcome is decided -/
  before : World
  /-- when the worker is done -/
  after : World

/-- It ended in an incomplete body, with a staging file that is not empty. -/
def FailedAttempt.Incomplete (a : FailedAttempt) : Prop :=
  isIncompleteBodyFailure a.error = true ∧ a.size ≠ 0

/-- What `transferFailed` does about a file that did not grow. -/
def setAside (cfg : Config) (row : Row) (staging : Path) (startedAt error : String) :
    Ctl String := do
  attemptEvent cfg row.url (row.attempts + 1) startedAt "validation_failed"
  let candidate ← moveCandidate cfg staging
  candidateEvent cfg row.url staging candidate none "incomplete_body"
  let size ← fileSize candidate
  transition cfg row.url .reviewRequired (some error) fun _ =>
    [.bytes (some size), .lastError (some error)]
  clearTransferTelemetry row.url
  return "review"

/-- What it does about the other failures. -/
def recordFailure (cfg : Config) (row : Row) (startedAt error : String) (size : ℕ) : Ctl String :=
  let url := row.url
  if isDiskFullFailure error then do
    Prog.change fun w _ => { w with admissionPaused := true }
    attemptEvent cfg url (row.attempts + 1) startedAt "stopped"
    recordLocalFailure "storage" "free space exhausted while writing staging"
    transition cfg url .queued (some error) fun _ =>
      [.attempts row.attempts, .bytes (some size), .lastError (some error), .nextRetryAt 0]
    clearTransferTelemetry url
    return "local_failure"
  else if isAccessDeniedFailure error then do
    attemptEvent cfg url (row.attempts + 1) startedAt "access_denied"
    transition cfg url .reviewRequired (some error) fun _ =>
      [.bytes (some size), .lastError (some error), .reviewCode (some "access_denied")]
    clearTransferTelemetry url
    return "review"
  else if isUnavailableFailure error then do
    attemptEvent cfg url (row.attempts + 1) startedAt "unavailable"
    transition cfg url .unavailable (some error) fun e =>
      [.bytes (some size), .lastError (some error),
       .recheckAt (some (e.time + unavailableRecheckInterval)), .earlyRecheck 0]
    clearTransferTelemetry url
    return "unavailable"
  else do
    let stopped ← Prog.look fun w _ => w.stopRequested
    let delay := if stopped then 0
      else retryDelays.getD (min row.attempts (retryDelays.length - 1)) 0
    attemptEvent cfg url (row.attempts + 1) startedAt
      (if stopped then "stopped" else "retryable_failure")
    transition cfg url .retryWait (some error) fun e =>
      [.bytes (some size), .lastError (some error), .nextRetryAt (e.time + delay)]
    clearTransferTelemetry url
    return "failed"

/-- The parts of `transferFailed`. -/
theorem transferFailed_eq (cfg : Config) (row : Row) (staging : Path) (startedAt error : String) :
    transferFailed cfg row staging startedAt error = (stagedSize staging).bind fun size =>
      (stalled row.url size error).bind fun stalled =>
        if stalled then setAside cfg row staging startedAt error
        else recordFailure cfg row startedAt error size := rfl

def FailedAttempt.staging (a : FailedAttempt) : Path := a.cfg.stagingOf a.row

/-- **An attempt that failed**: the worker of `transferAttempt` amid others, step by step. -/
inductive FailedAttempt.From (returns : Prop) (a : FailedAttempt) (w : World) : Prop
  | intro (fields : Update) (ok : Bool) (w₁ w₂ w₃ w₄ w₅ : World) (result : String)
      (hfields : ∀ f ∈ fields, keepsFailure f = true)
      (activated : (transition a.cfg a.row.url .active none fun _ =>
        .attempts (a.row.attempts + 1) :: fields).Amid (Beside returns a.row.url) w
          (some (.ok ())) w₁)
      (started : (recordAttemptStart a.cfg a.row.url (a.row.attempts + 1) a.startedAt).Amid
        (Beside returns a.row.url) w₁ (some (.ok ())) w₂)
      (engine : (runAria2 a.cfg a.row.url a.staging).Amid (Beside returns a.row.url) w₂
        (some (.ok (ok, a.error))) w₃)
      (incomplete : (leftComplete ok a.staging).Amid (Beside returns a.row.url) w₃
        (some (.ok false)) w₄)
      (measured : (stagedSize a.staging).Amid (Beside returns a.row.url) w₄
        (some (.ok a.size)) w₅)
      (tested : (Controller.stalled a.row.url a.size a.error).Amid (Beside returns a.row.url) w₅
        (some (.ok a.stalled)) a.before)
      (settled : (if a.stalled then setAside a.cfg a.row a.staging a.startedAt a.error
        else recordFailure a.cfg a.row a.startedAt a.error a.size).Amid
          (Beside returns a.row.url) a.before (some (.ok result)) a.after)

/-- The staged file became a candidate, and then the item went to review. -/
def FailedAttempt.SetAside (returns : Prop) (a : FailedAttempt) : Prop :=
  ∃ candidate w₁ w₂ w₃ e old size,
    ReflTransGen (Beside returns a.row.url) a.before w₁ ∧
    (moveCandidate a.cfg a.staging).Amid (Beside returns a.row.url) w₁ (some (.ok candidate)) w₂ ∧
    ReflTransGen (Beside returns a.row.url) w₂ w₃ ∧
    w₃.db.downloads.find? a.row.url = some old ∧
    ReflTransGen (Beside returns a.row.url) (w₃.moved a.cfg old .reviewRequired (some a.error)
      [.bytes (some size), .lastError (some a.error)] (Env.text e)) a.after

/-- The row has its staged size and its error. -/
def FailedAttempt.Recorded (a : FailedAttempt) : Prop :=
  RowIs a.row.url (fun r => lastFailure r = (some a.size, some a.error)) a.after

section
variable {returns : Prop} {url : String} {w w' : World} {cfg : Config}

/-- Steps that leave the item alone, and end well. -/
theorem quiet_bind_ok (cfg : Config) {α β : Type} {p : Ctl α} {q : α → Ctl β} {b : β}
    (hp : p.Uses (Step cfg (elsewhere url)))
    (h : (p.bind q).Amid (Beside returns url) w (some (.ok b)) w') :
    ∃ a w₁, ReflTransGen (Beside returns url) w w₁ ∧
      (q a).Amid (Beside returns url) w₁ (some (.ok b)) w' := by
  obtain ⟨a, w₁, hp', hq⟩ := Prog.amid_bind_ok h
  exact ⟨a, w₁, absorb cfg hp hp', hq⟩

/-- A transition that ends well has moved the row. -/
theorem transition_bind_ok {status : Status} {detail : Option String} {fields : Env → Update}
    {β : Type} {q : Unit → Ctl β} {b : β} (hq : ∀ a, (q a).Uses (Step cfg (elsewhere url)))
    (h : ((transition cfg url status detail fields).bind q).Amid (Beside returns url) w
      (some (.ok b)) w') :
    ∃ w₁ e old, ReflTransGen (Beside returns url) w w₁ ∧ w₁.db.downloads.find? url = some old ∧
      ReflTransGen (Beside returns url)
        (w₁.moved cfg old status detail (fields e) (Env.text e)) w' := by
  obtain ⟨_, w₂, ht, hq'⟩ := Prog.amid_bind_ok h
  rcases transition_amid ht with ⟨-, hx⟩ | ⟨w₁, e, old, hS, hold, hS'⟩
  · exact absurd rfl hx
  · exact ⟨w₁, e, old, hS, hold, hS'.trans (absorb cfg (hq _) hq')⟩

theorem setAside_amid {row : Row} {staging : Path} {startedAt error result : String}
    (h : (setAside cfg row staging startedAt error).Amid (Beside returns row.url) w
      (some (.ok result)) w') :
    ∃ candidate w₁ w₂ w₃ e old size, ReflTransGen (Beside returns row.url) w w₁ ∧
      (moveCandidate cfg staging).Amid (Beside returns row.url) w₁ (some (.ok candidate)) w₂ ∧
      ReflTransGen (Beside returns row.url) w₂ w₃ ∧ w₃.db.downloads.find? row.url = some old ∧
      ReflTransGen (Beside returns row.url) (w₃.moved cfg old .reviewRequired (some error)
        [.bytes (some size), .lastError (some error)] (Env.text e)) w' := by
  unfold setAside at h
  obtain ⟨_, w₁, hS₁, h⟩ := quiet_bind_ok cfg (uses_attemptEvent ..) h
  obtain ⟨candidate, w₂, hmove, h⟩ := Prog.amid_bind_ok h
  obtain ⟨_, w₃, hS₃, h⟩ := quiet_bind_ok cfg (uses_candidateEvent ..) h
  obtain ⟨size, w₄, hS₄, h⟩ := quiet_bind_ok cfg (uses_osLook _) h
  obtain ⟨w₅, e, old, hS₅, hold, hS'⟩ := transition_bind_ok (fun _ =>
    (uses_clearTransferTelemetry _).bind fun _ => Prog.uses_ret _) h
  exact ⟨candidate, w₁, w₂, w₅, e, old, size, hS₁, hmove, hS₃.trans (hS₄.trans hS₅), hold, hS'⟩

/-- What the other failures write. -/
theorem recordFailure_amid {row : Row} {startedAt error result : String} {size : ℕ}
    (h : (recordFailure cfg row startedAt error size).Amid (Beside returns row.url) w
      (some (.ok result)) w') :
    ∃ w₁ e old status fields, ReflTransGen (Beside returns row.url) w w₁ ∧
      w₁.db.downloads.find? row.url = some old ∧
      lastFailure (old.set (Db.transitionUpdate status fields (Env.text e))) =
        (some size, some error) ∧
      ReflTransGen (Beside returns row.url)
        (w₁.moved cfg old status (some error) fields (Env.text e)) w' := by
  have hrelease : ∀ b : String, ∀ _ : Unit, ((clearTransferTelemetry row.url).bind fun _ =>
      Prog.ret b : Ctl String).Uses (Step cfg (elsewhere row.url)) := fun _ _ =>
    (uses_clearTransferTelemetry _).bind fun _ => Prog.uses_ret _
  unfold recordFailure at h
  dsimp only at h
  split at h
  · have hpause : (Prog.change fun w (_ : Env) => { w with admissionPaused := true } :
        Ctl Unit).Uses (Step cfg (elsewhere row.url)) := Prog.uses_change fun _ _ =>
      .quiet rfl rfl ⟨rfl, rfl, rfl, rfl, rfl, rfl⟩ ⟨rfl, rfl, rfl⟩
    obtain ⟨_, w₁, hS₁, h⟩ := quiet_bind_ok cfg hpause h
    obtain ⟨_, w₂, hS₂, h⟩ := quiet_bind_ok cfg (uses_attemptEvent ..) h
    obtain ⟨_, w₃, hS₃, h⟩ := quiet_bind_ok cfg (uses_recordLocalFailure ..) h
    obtain ⟨w₄, e, old, hS₄, hold, hS'⟩ := transition_bind_ok (hrelease _) h
    exact ⟨w₄, e, old, _, _, hS₁.trans (hS₂.trans (hS₃.trans hS₄)), hold, rfl, hS'⟩
  split at h
  · obtain ⟨_, w₁, hS₁, h⟩ := quiet_bind_ok cfg (uses_attemptEvent ..) h
    obtain ⟨w₂, e, old, hS₂, hold, hS'⟩ := transition_bind_ok (hrelease _) h
    exact ⟨w₂, e, old, _, _, hS₁.trans hS₂, hold, rfl, hS'⟩
  split at h
  · obtain ⟨_, w₁, hS₁, h⟩ := quiet_bind_ok cfg (uses_attemptEvent ..) h
    obtain ⟨w₂, e, old, hS₂, hold, hS'⟩ := transition_bind_ok (hrelease _) h
    exact ⟨w₂, e, old, _, _, hS₁.trans hS₂, hold, rfl, hS'⟩
  · obtain ⟨_, w₁, hS₁, h⟩ := quiet_bind_ok cfg (uses_look _) h
    obtain ⟨_, w₂, hS₂, h⟩ := quiet_bind_ok cfg (uses_attemptEvent ..) h
    obtain ⟨w₃, e, old, hS₃, hold, hS'⟩ := transition_bind_ok (hrelease _) h
    exact ⟨w₃, e, old, _, _, hS₁.trans (hS₂.trans hS₃), hold, rfl, hS'⟩

/-! ## An attempt and the record it leaves -/

/-- What the next attempt finds; after a review there is none. -/
def FailedAttempt.Leaves (a : FailedAttempt) (c : Option ℕ × Option String) : Prop :=
  a.stalled = false ∧ c = (some a.size, some a.error)

/-- The stall test on what a row keeps. -/
def stallsAfter (size : ℕ) (error : String) : Option ℕ × Option String → Bool
  | (some bytes, some priorError) =>
    isIncompleteBodyFailure error && isIncompleteBodyFailure priorError && decide (size ≤ bytes)
  | _ => false

section
variable {C : Option ℕ × Option String → Prop}

theorem stalled_amid {size : ℕ} {error : String} {b : Bool} (hno : ¬ returns)
    (hsize : size ≠ 0) (hw : RowIs url (Carries C) w)
    (h : (stalled url size error).Amid (Beside returns url) w (some (.ok b)) w') :
    ∃ c, C c ∧ b = stallsAfter size error c := by
  unfold stalled at h
  split at h
  · -- another failure: whatever the row keeps
    next hother =>
    obtain ⟨-, r, -, hr⟩ := hw
    have hb : b = false := by
      obtain ⟨h | h, -⟩ := h
      · cases h
      · exact Except.ok.inj (Option.some.inj h)
    have hinc : isIncompleteBodyFailure error = false := by simpa [hsize] using hother
    refine ⟨lastFailure r, hr, hb.trans ?_⟩
    unfold stallsAfter
    split <;> simp [hinc]
  · next hinc =>
    obtain ⟨w₁, e, hS, -, hb⟩ := dbLook_amid h
    obtain ⟨-, r, hr, hC⟩ := hw.beside hno hS
    have hinc : isIncompleteBodyFailure error = true := by
      simp only [Bool.or_eq_true, decide_eq_true_eq, Bool.not_eq_true', not_or] at hinc
      simpa using hinc.2
    refine ⟨lastFailure r, hC, ((hb b rfl).symm.trans ?_)⟩
    rw [hr, Option.map_some, lastFailure]
    cases hbytes : r.bytes <;> cases hprior : r.lastError <;> simp [stallsAfter, hinc]

/-- An attempt keeps the record of the one before it until the stall test. -/
theorem FailedAttempt.From.stalls {a : FailedAttempt} (hno : ¬ returns) (h : a.From returns w)
    (hsize : a.size ≠ 0) (hw : RowIs a.row.url (Carries C) w) :
    ∃ c, C c ∧ a.stalled = stallsAfter a.size a.error c := by
  obtain ⟨fields, ok, w₁, w₂, w₃, w₄, w₅, result, hfields, activated, started, engine, incomplete,
    measured, tested, -⟩ := h
  have hw₁ : RowIs a.row.url (Carries C) w₁ := by
    refine transition_carries hno (fun _ f hf => ?_) activated hw
    rcases List.mem_cons.1 hf with rfl | hf
    · rfl
    · exact hfields f hf
  have hw₂ := hw₁.beside hno (absorb a.cfg (uses_recordAttemptStart ..) started)
  have hw₃ := hw₂.beside hno (absorb a.cfg (uses_runAria2 trivial _ _) engine)
  have hw₄ := hw₃.beside hno (absorb a.cfg (uses_leftComplete ok a.staging) incomplete)
  exact stalled_amid hno hsize (hw₄.beside hno (absorb a.cfg (uses_stagedSize _) measured)) tested

/-- **What an attempt leaves behind.** -/
theorem FailedAttempt.From.leaves {a : FailedAttempt} (hno : ¬ returns) (h : a.From returns w) :
    (a.stalled = true → a.SetAside returns) ∧ (a.stalled = false → a.Recorded) ∧
      RowIs a.row.url (Rests a.Leaves) a.after := by
  obtain ⟨fields, ok, w₁, w₂, w₃, w₄, w₅, result, hfields, activated, started, engine, incomplete,
    measured, tested, settled⟩ := h
  cases hstalled : a.stalled with
  | true =>
    rw [hstalled, if_pos rfl] at settled
    have hset := setAside_amid settled
    refine ⟨fun _ => hset, nofun, ?_⟩
    obtain ⟨candidate, w₆, w₇, w₈, e, old, size, -, -, -, hold, hS'⟩ := hset
    refine holds_beside hS' (steady_rests hno) ((holds_moved hold).mono fun r hr => ?_)
    rw [hr]
    exact (parked_transitionUpdate old (by decide) (by simp) _).rests
  | false =>
    rw [hstalled, if_neg Bool.false_ne_true] at settled
    obtain ⟨w₆, e, old, status, fields, -, hold, hrecorded, hS'⟩ := recordFailure_amid settled
    have hcarries : RowIs a.row.url (Carries (· = (some a.size, some a.error))) a.after :=
      holds_beside hS' (steady_carries hno) ((holds_moved hold).mono fun r hr => by
        rw [Carries, hr]
        exact hrecorded)
    exact ⟨nofun, fun _ => hcarries, hcarries.mono fun r hr _ => ⟨hstalled, hr⟩⟩

end

end

/-! ## The life of an item -/

/-- An item: its world, and the task its worker has under some configuration. -/
structure Item where
  world : World
  task : Option (Config × Task) := none

/-- What happens to an item, with the failed attempt it is, if it is one. -/
inductive Stage (returns : Prop) (url : String) : Item → List FailedAttempt → Item → Prop
  | beside {w w' task} (h : Beside returns url w w') : Stage returns url ⟨w, task⟩ [] ⟨w', task⟩
  /-- the process dies, and the next one before its loop or while it starts -/
  | died {w w' task cfg} (h : (startup cfg).Passes (fun _ => True) w.booted w') :
    Stage returns url ⟨w, task⟩ [] ⟨w'.booted, none⟩
  | started {w w' task cfg} (h : (startup cfg).Ends (fun _ => True) w.booted (.ok ()) w') :
    Stage returns url ⟨w, task⟩ [] ⟨w', none⟩
  | scheduled {w w' cfg x} (h : (admitNext cfg).Amid (Beside returns url) w x w') :
    Stage returns url ⟨w, none⟩ [] ⟨w', taskOf url cfg x⟩
  | rechecked {w w' cfg row x} (hurl : row.url = url)
    (h : (recheckUnavailable cfg row).Amid (Beside returns url) w x w') :
    Stage returns url ⟨w, some (cfg, .recheck row)⟩ [] ⟨w', none⟩
  /-- the transfer finds a final -/
  | existing {w w' cfg row size x}
    (h : (transition cfg url .existingUnverified (some "final already exists") fun _ =>
      [.bytes (some size)]).Amid (Beside returns url) w x w') :
    Stage returns url ⟨w, some (cfg, .transfer row)⟩ [] ⟨w', none⟩
  /-- the transfer finds another representation -/
  | reviewed {w w' cfg row staging decision observed x}
    (h : (enterRepresentationReview cfg url staging decision observed).Amid
      (Beside returns url) w x w') :
    Stage returns url ⟨w, some (cfg, .transfer row)⟩ [] ⟨w', none⟩
  /-- the attempt is cut off before its outcome -/
  | cut {w w' cfg row fields x} (hfields : ∀ f ∈ fields, keepsFailure f = true)
    (h : (transition cfg url .active none fun _ => .attempts (row.attempts + 1) :: fields).Amid
      (Beside returns url) w x w') :
    Stage returns url ⟨w, some (cfg, .transfer row)⟩ [] ⟨w', none⟩
  | failed {w a} (hurl : a.row.url = url) (h : a.From returns w) :
    Stage returns url ⟨w, some (a.cfg, .transfer a.row)⟩ [a] ⟨a.after, none⟩

/-- The phases of an item, with the attempts that failed in them. -/
inductive Lives (returns : Prop) (url : String) (i : Item) : List FailedAttempt → Item → Prop
  | refl : Lives returns url i [] i
  | tail {as bs j k} (h : Lives returns url i as j) (hstage : Stage returns url j bs k) :
    Lives returns url i (as ++ bs) k

section
variable {returns : Prop} {url : String} {i j k : Item} {w w' : World} {cfg : Config} {row : Row}
  {as bs : List FailedAttempt}

theorem Lives.stage (h : Stage returns url i as j) : Lives returns url i as j := by
  have := Lives.refl.tail h
  rwa [List.nil_append] at this

theorem Lives.trans (h : Lives returns url i as j) (h' : Lives returns url j bs k) :
    Lives returns url i (as ++ bs) k := by
  induction h' with
  | refl => rwa [List.append_nil]
  | tail _ hstage ih =>
    rw [← List.append_assoc]
    exact ih.tail hstage

theorem Lives.beside {task : Option (Config × Task)}
    (h : ReflTransGen (Beside returns url) w w') : Lives returns url ⟨w, task⟩ [] ⟨w', task⟩ := by
  induction h with
  | refl => exact .refl
  | tail _ h ih => exact ih.tail (.beside h)

/-- An attempt fails, or the file it leaves is validated. -/
theorem transferAttempt_amid {stored result : String} {target : Path} {fields : Update}
    (hfields : ∀ f ∈ fields, keepsFailure f = true)
    (h : (transferAttempt cfg row stored (cfg.stagingOf row) target fields).Amid
      (Beside returns row.url) w (some (.ok result)) w') :
    (∃ a : FailedAttempt, a.cfg = cfg ∧ a.row = row ∧ a.after = w' ∧ a.From returns w) ∨
      ∃ startedAt w₁, (validate cfg row stored (cfg.stagingOf row) target startedAt).Amid
        (Beside returns row.url) w₁ (some (.ok result)) w' := by
  unfold transferAttempt at h
  obtain ⟨startedAt, w₀, hS₀, h⟩ := quiet_bind_ok cfg (uses_look _) h
  obtain ⟨_, w₁, activated, h⟩ := Prog.amid_bind_ok h
  obtain ⟨_, w₂, started, h⟩ := Prog.amid_bind_ok h
  obtain ⟨⟨ok, error⟩, w₃, engine, h⟩ := Prog.amid_bind_ok h
  have engine : (runAria2 cfg row.url (cfg.stagingOf row)).Amid (Beside returns row.url) w₂
      (some (.ok (ok, error))) w₃ := by
    rcases Prog.amid_handle engine with hrun | ⟨y, w₄, -, hraise⟩
    · exact hrun
    · obtain ⟨_, _, -, ⟨hr | hr, -⟩⟩ := Prog.amid_bind_ok hraise <;> cases hr
  obtain ⟨complete, w₄, left, h⟩ := Prog.amid_bind_ok h
  cases complete with
  | true => exact .inr ⟨startedAt, w₄, h⟩
  | false =>
    rw [if_neg Bool.false_ne_true, transferFailed_eq] at h
    obtain ⟨size, w₅, measured, h⟩ := Prog.amid_bind_ok h
    obtain ⟨stalled, w₆, tested, settled⟩ := Prog.amid_bind_ok h
    exact .inl ⟨⟨cfg, row, startedAt, error, size, stalled, w₆, w'⟩, rfl, rfl, rfl,
      .intro fields ok w₁ w₂ w₃ w₄ w₅ result hfields (activated.after hS₀) started engine left
        measured tested settled⟩

/-- **A transfer that has ended** is such a life, unless it came to the validation. -/
theorem transfer_lives {result : String}
    (h : (transfer cfg row).Amid (Beside returns row.url) w (some (.ok result)) w') :
    (∃ as, Lives returns row.url ⟨w, some (cfg, .transfer row)⟩ as ⟨w', none⟩) ∨
      ∃ target startedAt w₁, (validate cfg row (cfg.storedOf row) (cfg.stagingOf row) target
        startedAt).Amid (Beside returns row.url) w₁ (some (.ok result)) w' := by
  have hgeneration : ∀ f ∈ generationFields row, keepsFailure f = true := by
    unfold generationFields
    split <;> simp [keepsFailure]
  have hvalidators : ∀ o, ∀ f ∈ validatorFields o, keepsFailure f = true := by
    rintro (_ | o) <;> simp [validatorFields, keepsFailure]
  -- an attempt that begins after the steps that leave the item alone
  have hattempt : ∀ {w₁ target fields}, ReflTransGen (Beside returns row.url) w w₁ →
      (∀ f ∈ fields, keepsFailure f = true) →
      (transferAttempt cfg row (cfg.storedOf row) (cfg.stagingOf row) target fields).Amid
        (Beside returns row.url) w₁ (some (.ok result)) w' →
      (∃ as, Lives returns row.url ⟨w, some (cfg, .transfer row)⟩ as ⟨w', none⟩) ∨
        ∃ target startedAt w₁, (validate cfg row (cfg.storedOf row) (cfg.stagingOf row) target
          startedAt).Amid (Beside returns row.url) w₁ (some (.ok result)) w' := by
    intro w₁ target fields hS hfields h
    rcases transferAttempt_amid hfields h with ⟨a, rfl, rfl, rfl, hfrom⟩ | ⟨startedAt, w₂, hv⟩
    · exact .inl ⟨_, (Lives.beside hS).trans (Lives.stage (.failed rfl hfrom))⟩
    · exact .inr ⟨target, startedAt, w₂, hv⟩
  unfold transfer at h
  obtain ⟨there, w₁, hS₁, h⟩ := quiet_bind_ok cfg (uses_osLook _) h
  split at h
  · obtain ⟨size, w₂, hS₂, h⟩ := quiet_bind_ok cfg (uses_osLook _) h
    obtain ⟨_, w₃, ht, hret⟩ := Prog.amid_bind_ok h
    exact .inl ⟨_, (Lives.stage (.existing (ht.after (hS₁.trans hS₂)))).trans (.beside hret.2)⟩
  · obtain ⟨_, w₂, hS₂, h⟩ := quiet_bind_ok cfg (uses_confirm _) h
    obtain ⟨_, w₃, hS₃, h⟩ := quiet_bind_ok cfg (uses_reserveWorker _) h
    obtain ⟨partly, w₄, hS₄, h⟩ := quiet_bind_ok cfg (uses_partialExists _) h
    have hS := hS₁.trans (hS₂.trans (hS₃.trans hS₄))
    split at h
    · obtain ⟨observed, w₅, hS₅, h⟩ := quiet_bind_ok cfg (uses_freshProbe row) h
      exact hattempt (hS.trans hS₅) (List.forall_mem_append.2 ⟨hgeneration, hvalidators _⟩) h
    split at h
    · obtain ⟨⟨decision, observed⟩, w₅, hS₅, h⟩ :=
        quiet_bind_ok cfg (uses_checkRepresentation row) h
      dsimp only at h
      split at h
      · obtain ⟨_, w₆, hreview, hret⟩ := Prog.amid_bind_ok h
        exact .inl ⟨_, (Lives.stage (.reviewed (hreview.after (hS.trans hS₅)))).trans
          (.beside hret.2)⟩
      · obtain ⟨_, w₆, hS₆, h⟩ := quiet_bind_ok cfg (uses_confirm _) h
        exact hattempt (hS.trans (hS₅.trans hS₆)) hgeneration h
    · exact hattempt hS hgeneration h

end

/-- What the row of the item keeps. -/
def Item.Keeps (url : String) (C : Option ℕ × Option String → Prop) (i : Item) : Prop :=
  RowIs url (KeepsOf C i.task) i.world

section
variable {returns : Prop} {url : String} {i j : Item} {C : Option ℕ × Option String → Prop}
  {a : FailedAttempt} {as : List FailedAttempt}

theorem KeepsOf.rests {task : Option (Config × Task)} {r : Row} (h : KeepsOf C task r) :
    Rests C r := by
  unfold KeepsOf at h
  split at h
  · exact h
  · exact Carries.rests h

theorem steady_keepsOf (hno : ¬ returns) (task : Option (Config × Task)) :
    Steady returns (KeepsOf C task) := by
  unfold KeepsOf
  split
  · exact steady_rests hno
  · exact steady_carries hno

/-- **Between two failures the record of the first one stays.** -/
theorem Stage.keeps (hno : ¬ returns) (h : Stage returns url i [] j) (hi : i.Keeps url C) :
    j.Keeps url C := by
  cases h with
  | beside h => exact h.holds (steady_keepsOf hno _) hi
  | died h => exact (hi.mono fun _ => KeepsOf.rests).died h
  | started h => exact (hi.mono fun _ => KeepsOf.rests).started h
  | scheduled h => exact admitNext_holds hno h hi
  | rechecked hurl h => exact recheck_rests hno hurl h hi
  | existing h => exact transition_rests hno (by decide) (fun _ => by simp) h hi
  | reviewed h => exact representationReview_rests hno h hi
  | cut hfields h =>
    refine (transition_carries hno (fun _ f hf => ?_) h hi).mono fun _ => Carries.rests
    rcases List.mem_cons.1 hf with rfl | hf
    · rfl
    · exact hfields f hf

/-- One attempt after another: the first one grew, and the second one is set aside if it did
    not. -/
def Outgrows (a b : FailedAttempt) : Prop :=
  a.stalled = false ∧ (b.stalled = true ↔ b.size ≤ a.size)

/-- A list of attempts of the item, and the item after the last one. -/
structure Progressed (returns : Prop) (url : String) (as : List FailedAttempt) (j : Item) :
    Prop where
  last : ∀ a ∈ as.getLast?, j.Keeps url a.Leaves
  each : ∀ a ∈ as, (a.stalled = true → a.SetAside returns) ∧ (a.stalled = false → a.Recorded)
  chain : as.IsChain Outgrows

/-- **Every stage keeps the progress.** -/
theorem Progressed.stage {bs : List FailedAttempt} {k : Item} (hno : ¬ returns)
    (h : Progressed returns url as j) (hstage : Stage returns url j bs k)
    (hinc : ∀ a ∈ as ++ bs, a.Incomplete) : Progressed returns url (as ++ bs) k := by
  cases bs with
  | nil =>
    rw [List.append_nil]
    exact ⟨fun a ha => hstage.keeps hno (h.last a ha), h.each, h.chain⟩
  | cons b bs =>
    cases hstage with
    | @failed w _ hurl hfrom =>
      subst hurl
      obtain ⟨hset, hrecorded, hrests⟩ := hfrom.leaves hno
      have hb := hinc b (by simp)
      refine ⟨fun a ha => ?_, fun a ha => ?_, List.isChain_append.2 ⟨h.chain, .singleton b, ?_⟩⟩
      · rw [List.getLast?_append, List.getLast?_singleton, Option.some_or,
          Option.mem_some_iff] at ha
        subst ha
        exact hrests
      · rcases List.mem_append.1 ha with ha | ha
        · exact h.each a ha
        · obtain rfl := List.mem_singleton.1 ha
          exact ⟨hset, hrecorded⟩
      · -- the record of the attempt before is what the stall test of this one reads
        rintro a ha y hy
        obtain rfl : b = y := by simpa using hy
        have hw : RowIs b.row.url (Carries a.Leaves) w := h.last a ha
        obtain ⟨c, ⟨hgrew, rfl⟩, hstalled⟩ := hfrom.stalls hno hb.2 hw
        have ha' := hinc a (List.mem_append_left _ (List.mem_of_getLast? ha))
        refine ⟨hgrew, ?_⟩
        rw [hstalled, stallsAfter, hb.1, ha'.1]
        simp

theorem Lives.progressed (hno : ¬ returns) (h : Lives returns url i as j)
    (hinc : ∀ a ∈ as, a.Incomplete) : Progressed returns url as j := by
  induction h with
  | refl => exact ⟨by simp, by simp, .nil⟩
  | tail h hstage ih =>
    exact (ih fun a ha => hinc a (List.mem_append_left _ ha)).stage hno hstage hinc

/-! ## Progress -/

/-- The attempts stage more and more, up to one that does not and is the last; and so there are
    no more of them than a body of bounded length allows. -/
structure MakesProgress (returns : Prop) (as : List FailedAttempt) : Prop where
  each : ∀ a ∈ as, a.Recorded ∨ a.SetAside returns
  grows : ∀ before a b after, as = before ++ a :: b :: after →
    a.size < b.size ∧ b.Recorded ∨ b.size ≤ a.size ∧ b.SetAside returns ∧ after = []
  bounded : ∀ N, (∀ a ∈ as, a.size ≤ N) → as.length ≤ N + 1

/-- A chain that begins with an attempt of some size. -/
theorem length_le_of_chain {N : ℕ} (hchain : (a :: as).IsChain Outgrows)
    (hN : ∀ b ∈ a :: as, b.size ≤ N) (hsize : a.size ≠ 0) : (a :: as).length + a.size ≤ N + 2 := by
  induction as generalizing a with
  | nil =>
    have := hN a List.mem_cons_self
    simp only [List.length_singleton]
    omega
  | cons b as ih =>
    obtain ⟨⟨-, hb⟩, hrest⟩ := List.isChain_cons_cons.1 hchain
    have ha := hN a List.mem_cons_self
    by_cases hstalled : b.stalled = true
    · -- the last one
      cases as with
      | nil =>
        simp only [List.length_cons, List.length_nil]
        omega
      | cons c as =>
        obtain ⟨⟨hgrew, -⟩, -⟩ := List.isChain_cons_cons.1 hrest
        rw [hstalled] at hgrew
        cases hgrew
    · have hlt : a.size < b.size := Nat.lt_of_not_le fun hle => hstalled (hb.2 hle)
      have := ih hrest (fun c hc => hN c (List.mem_cons_of_mem _ hc)) (by omega)
      simp only [List.length_cons] at this ⊢
      omega

theorem Progressed.makesProgress {url : String} {as : List FailedAttempt} {j : Item}
    (hprogress : Progressed False url as j) (hinc : ∀ a ∈ as, a.Incomplete) :
    MakesProgress False as := by
  refine ⟨fun a ha => ?_, ?_, fun N hN => ?_⟩
  · cases hstalled : a.stalled with
    | true => exact .inr ((hprogress.each a ha).1 hstalled)
    | false => exact .inl ((hprogress.each a ha).2 hstalled)
  · rintro before a b after rfl
    have hb := hprogress.each b (by simp)
    have hchain := (List.isChain_append.1 hprogress.chain).2.1
    obtain ⟨⟨-, hfollows⟩, hrest⟩ := List.isChain_cons_cons.1 hchain
    cases hstalled : b.stalled with
    | false =>
      refine .inl ⟨Nat.lt_of_not_le fun hle => ?_, hb.2 hstalled⟩
      rw [hfollows.2 hle] at hstalled
      cases hstalled
    | true =>
      refine .inr ⟨hfollows.1 hstalled, hb.1 hstalled, ?_⟩
      cases after with
      | nil => rfl
      | cons c after =>
        obtain ⟨⟨hgrew, -⟩, -⟩ := List.isChain_cons_cons.1 hrest
        rw [hstalled] at hgrew
        cases hgrew
  · cases as with
    | nil => exact Nat.zero_le _
    | cons a as =>
      have := length_le_of_chain hprogress.chain hN (hinc a List.mem_cons_self).2
      have hpos := (hinc a List.mem_cons_self).2
      omega

/-- **Retries of an incomplete body make progress**, as long as no operator returns the item
    from review. -/
theorem sizes_increase (url : String) (i j : Item) (as : List FailedAttempt)
    (h : Lives False url i as j) (hinc : ∀ a ∈ as, a.Incomplete) : MakesProgress False as := by
  have hprogress := h.progressed not_false hinc
  exact hprogress.makesProgress hinc

/-- **A transfer that has ended** adds its attempt to those before it, and together they make
    progress, unless it came to the validation. -/
theorem transfer_progresses {i : Item} {as : List FailedAttempt} {result : String}
    (hbefore : Lives False row.url i as ⟨w, some (cfg, .transfer row)⟩)
    (h : (transfer cfg row).Amid (Beside False row.url) w (some (.ok result)) w') :
    (∃ bs, Lives False row.url i (as ++ bs) ⟨w', none⟩ ∧
        ((∀ a ∈ as ++ bs, a.Incomplete) → MakesProgress False (as ++ bs))) ∨
      ∃ target startedAt w₁, (validate cfg row (cfg.storedOf row) (cfg.stagingOf row) target
        startedAt).Amid (Beside False row.url) w₁ (some (.ok result)) w' := by
  obtain ⟨bs, hattempt⟩ | hvalidated := transfer_lives h
  · have hlives := hbefore.trans hattempt
    exact .inl ⟨bs, hlives, fun hinc => (hlives.progressed not_false hinc).makesProgress hinc⟩
  · exact .inr hvalidated

end

/-! ## An item that is returned -/

/-- What the engine says of a body that was cut. -/
def gotEof : String := "Got EOF from the server"

theorem gotEof_failures : isIncompleteBodyFailure gotEof = true ∧ isDiskFullFailure gotEof = false ∧
    isAccessDeniedFailure gotEof = false ∧ isUnavailableFailure gotEof = false := by
  have hupper : gotEof.toUpper = "GOT EOF FROM THE SERVER" := by decide +kernel
  have heof : "GOT EOF FROM THE SERVER".splitOn "GOT EOF FROM THE SERVER" = ["", ""] :=
    Lib.SplitOn.splitOn_eq 30 (by decide) (by decide +kernel)
  have hother : ∀ sep ∈ ["NO SPACE LEFT ON DEVICE", "AUTHORIZATION FAILED", "RESOURCE NOT FOUND",
      "STATUS="], "GOT EOF FROM THE SERVER".splitOn sep = ["GOT EOF FROM THE SERVER"] := by
    have hsteps : ∀ sep ∈ ["NO SPACE LEFT ON DEVICE", "AUTHORIZATION FAILED", "RESOURCE NOT FOUND",
        "STATUS="], (sep == "") = false ∧
          Lib.SplitOn.steps "GOT EOF FROM THE SERVER" sep 60 0 0 0 [] =
            some ["GOT EOF FROM THE SERVER"] := by decide +kernel
    exact fun sep hsep => Lib.SplitOn.splitOn_eq 60 (hsteps sep hsep).1 (hsteps sep hsep).2
  simp [isIncompleteBodyFailure, isDiskFullFailure, isAccessDeniedFailure, isUnavailableFailure,
    mentions, mentionsStatus, hupper, heof, hother]

def oneItemRun : Config := { runId := "run", destination := ["d"], state := ["s"] }

/-- The item, as it comes to its worker. -/
def cutRow : Row where
  url := "u"
  relativePath := "a"
  stagingPath := some "/s/a"
  status := .admitted
  updatedAt := ""

/-- Nothing but the row of the item, and so many bytes in its staging file. -/
def alone (r : Row) (size : ℕ) : World where
  db := { downloads := ⟨[r], List.pairwise_singleton ..⟩
          runItems := ⟨[⟨"run", "u", 0⟩], List.pairwise_singleton ..⟩ }
  disk := { downloads := ⟨[r], List.pairwise_singleton ..⟩
            runItems := ⟨[⟨"run", "u", 0⟩], List.pairwise_singleton ..⟩ }
  fs := ⟨fun p => if p = ["s"] ∨ p = ["d"] then some .dir
    else if p = ["s", "a"] then some (.file 0) else none, fun _ => List.replicate size 0, 4096⟩

/-- The connection is cut; no step fails. -/
def cutEnv (time : ℚ) : Env :=
  { time, uuid := "0", engineEnd := { ok := false, error := gotEof } }

/-- The item after a failed attempt. -/
def cutAgain (r : Row) (size : ℕ) : Row :=
  r.set [.status .retryWait, .attempts 1, .bytes (some size), .lastError (some gotEof),
    .nextRetryAt 60]

/-- What a program gives and what it makes of the row, alone. -/
def Gives {α : Type} (p : Ctl α) (r : Row) (size : ℕ) (time : ℚ) (a : α) (r' : Row) : Prop :=
  (p.execute (alone r size) (List.replicate 20 (cutEnv time))).map (fun y =>
    (y.1, y.2.db.downloads.find? r.url, y.2.disk.downloads.find? r.url)) =
      some (.ok a, some r', some r')

section
variable {returns : Prop} {r r' : Row} {size : ℕ} {time : ℚ}

/-- All but the row may be made over. -/
theorem beside_alone {w : World} (hw : RowIs r.url (· = r) w) (size : ℕ) :
    Beside returns r.url w (alone r size) := by
  obtain ⟨-, s, hrow, rfl⟩ := hw
  have halone : (alone s size).db.downloads.find? s.url = w.db.downloads.find? s.url := by
    rw [hrow]
    simp [alone, Lib.Table.find?, Lib.keyed?]
  exact .leaves ⟨.inl halone, .inl halone⟩

theorem Gives.amid {α : Type} {p : Ctl α} {a : α} (h : Gives p r size time a r')
    (returns : Prop) (hurl : r'.url = r.url) (m n : ℕ) :
    p.Amid (Beside returns r.url) (alone r m) (some (.ok a)) (alone r' n) := by
  obtain ⟨⟨y, w'⟩, hrun, hy⟩ := Option.map_eq_some_iff.1 h
  obtain ⟨rfl, hdb, hdisk⟩ : y = .ok a ∧ w'.db.downloads.find? r.url = some r' ∧
    w'.disk.downloads.find? r.url = some r' := by simpa using hy
  have hend := Prog.ends_of_execute (A := fun _ => True) (fun _ _ => trivial) hrun
  have hbefore : Beside returns r.url (alone r m) (alone r size) :=
    beside_alone ⟨rfl, r, by simp [alone, Lib.Table.find?, Lib.keyed?], rfl⟩ size
  have hafter : Beside returns r'.url w' (alone r' n) :=
    beside_alone (hurl ▸ ⟨hdisk.trans hdb.symm, r', hdb, rfl⟩) n
  rw [hurl] at hafter
  exact (hend.amid.after (.single hbefore)).before (.single hafter)

/-- A cut that left so many bytes. -/
def cutAttempt (r active after : Row) (size : ℕ) : FailedAttempt where
  cfg := oneItemRun
  row := r
  startedAt := ""
  error := gotEof
  size := size
  stalled := false
  before := alone active size
  after := alone after size

theorem cutAttempt_from (admitted r active after : Row) (size : ℕ)
    (hadmitted : admitted.url = r.url) (hactiveUrl : active.url = r.url)
    (hafterUrl : after.url = r.url)
    (hstaging : oneItemRun.stagingOf r = ["s", "a"])
    (hactive : Gives (transition oneItemRun r.url .active none fun _ =>
      [.attempts (r.attempts + 1)]) admitted size time () active)
    (hstart : Gives (recordAttemptStart oneItemRun r.url (r.attempts + 1) "") active size time ()
      active)
    (hengine : Gives (runAria2 oneItemRun r.url ["s", "a"]) active size time (false, gotEof) active)
    (hmeasured : Gives (stagedSize ["s", "a"]) active size time size active)
    (htested : Gives (stalled r.url size gotEof) active size time false active)
    (hsettled : Gives (recordFailure oneItemRun r "" gotEof size) active size time "failed" after)
    (n : ℕ) : (cutAttempt r active after size).From returns (alone admitted n) := by
  have activated := hactive.amid returns (hactiveUrl.trans hadmitted.symm) n size
  have started := hstart.amid returns rfl size size
  have engine := hengine.amid returns rfl size size
  have left : (leftComplete false ["s", "a"]).Amid (Beside returns active.url) (alone active size)
      (some (.ok false)) (alone active size) := ⟨.inr rfl, .refl⟩
  have measured := hmeasured.amid returns rfl size size
  have tested := htested.amid returns rfl size size
  have settled := hsettled.amid returns (hafterUrl.trans hactiveUrl.symm) size size
  rw [hadmitted] at activated
  rw [hactiveUrl] at started engine left measured tested settled
  rw [← hstaging] at engine left measured
  exact .intro [] false _ _ _ _ _ "failed" (by simp) activated started engine left measured tested
    settled

end

/-- After its first attempt. -/
def cutOnce : Row := cutRow.set [.status .retryWait, .attempts 1, .bytes (some 2),
  .lastError (some gotEof), .nextRetryAt 60]

/-- After its second attempt, which got one byte further. -/
def cutLater : Row := cutOnce.set [.status .retryWait, .attempts 2, .bytes (some 3),
  .lastError (some gotEof), .nextRetryAt 180]

/-- Sent to review by the next transfer. -/
def reviewedRow : Row := cutOnce.set [.status .reviewRequired, .bytes none,
  .lastError (some "no reliable version protection or expected checksum on resume"),
  .reviewCode (some "no_reliable_version_protection")]

/-- Returned by an operator. -/
def returnedRow : Row := reviewedRow.set Store.resumeNewGeneration.update

def returnRequest : Request :=
  ⟨some "q", some "s", .dict [(.str "item_ids", .list [.str (Store.itemId "u")])]⟩

/-- After its second attempt. -/
def cutTwice : Row := returnedRow.set [.status .retryWait, .attempts 2, .bytes (some 1),
  .lastError (some gotEof), .nextRetryAt 120]

/-- The attempt before the return. -/
def firstCut : FailedAttempt :=
  cutAttempt cutRow (cutRow.set [.status .active, .attempts 1]) cutOnce 2

/-- And the attempt after it. -/
def secondCut : FailedAttempt :=
  cutAttempt returnedRow (returnedRow.set [.status .active, .attempts 2]) cutTwice 1

theorem firstCut_from (returns : Prop) : firstCut.From returns (alone cutRow 2) := by
  have hsettled : Gives (recordFailure oneItemRun cutRow "" gotEof 2)
      (cutRow.set [.status .active, .attempts 1]) 2 0 "failed" cutOnce := by
    rw [cutOnce, ← zero_add (60 : ℚ)]
    simp only [recordFailure, gotEof_failures]
    exact rfl
  exact cutAttempt_from cutRow cutRow (cutRow.set [.status .active, .attempts 1]) cutOnce 2
    rfl rfl rfl rfl rfl rfl rfl rfl (by rw [stalled, gotEof_failures.1]; exact rfl) hsettled 2

theorem secondCut_from (returns : Prop) :
    secondCut.From returns (alone (returnedRow.set [.status .admitted]) 1) := by
  have hsettled : Gives (recordFailure oneItemRun returnedRow "" gotEof 1)
      (returnedRow.set [.status .active, .attempts 2]) 1 0 "failed" cutTwice := by
    rw [cutTwice, ← zero_add (120 : ℚ)]
    simp only [recordFailure, gotEof_failures]
    exact rfl
  exact cutAttempt_from (returnedRow.set [.status .admitted]) returnedRow
    (returnedRow.set [.status .active, .attempts 2]) cutTwice 1
    rfl rfl rfl rfl rfl rfl rfl rfl (by rw [stalled, gotEof_failures.1]; exact rfl) hsettled 1

/-- The operator's request. -/
theorem beside_return :
    ReflTransGen (Beside True "u") (alone reviewedRow 2) (alone returnedRow 1) := by
  have hreturn : ((control oneItemRun returnRequest .resumeNewGeneration).execute
      (alone reviewedRow 2) (List.replicate 20 (cutEnv 60))).map (fun y =>
        (y.2.db.downloads.find? "u", y.2.disk.downloads.find? "u")) =
          some (some returnedRow, some returnedRow) := rfl
  obtain ⟨⟨x, w⟩, hrun, hrow⟩ := Option.map_eq_some_iff.1 hreturn
  obtain ⟨hdb, hdisk⟩ := Prod.mk.inj hrow
  have hend := Prog.ends_of_execute (A := fun _ => True) (fun _ _ => trivial) hrun
  refine .tail (.single (.control oneItemRun _ _ hend.passes fun _ => trivial)) ?_
  exact beside_alone (r := returnedRow) ⟨hdisk.trans hdb.symm, _, hdb, rfl⟩ 1

/-- The statuses of an item that was sent to review, unless it is admitted again. -/
theorem steady_review : Steady True fun r => r.status ∈ [.reviewRequired, .queued, .excluded] := by
  rintro r r' hr (⟨-, hs | hs⟩ | ⟨-, -, hs⟩)
  · rwa [hs]
  · simp [hs]
  · simp [hs]

/-- If an operator returns the item in between, the file of the next attempt may be shorter than
    that of the one before. -/
theorem not_sizes_increase : ¬ ∀ (url : String) (i j : Item) (as : List FailedAttempt),
    Lives True url i as j → (∀ a ∈ as, a.Incomplete) → MakesProgress True as := by
  intro h
  have hadmits : Gives (admitNext oneItemRun) cutOnce 2 60 (some (.transfer cutOnce))
      (cutOnce.set [.status .admitted]) := rfl
  have hreview : Gives (enterRepresentationReview oneItemRun "u" ["s", "a"] "unknown" none)
      (cutOnce.set [.status .admitted]) 2 60 () reviewedRow := rfl
  have hadmitsAgain : Gives (admitNext oneItemRun) returnedRow 1 60 (some (.transfer returnedRow))
      (returnedRow.set [.status .admitted]) := rfl
  have hreviewed : Lives True "u" ⟨alone cutRow 2, some (oneItemRun, .transfer cutRow)⟩ [firstCut]
      ⟨alone reviewedRow 2, none⟩ :=
    ((Lives.stage (.failed rfl (firstCut_from True))).tail
      (.scheduled (hadmits.amid True rfl 2 2))).tail (.reviewed (hreview.amid True rfl 2 2))
  have hlives : Lives True "u" ⟨alone cutRow 2, some (oneItemRun, .transfer cutRow)⟩
      [firstCut, secondCut] ⟨secondCut.after, none⟩ :=
    ((hreviewed.trans (.beside beside_return)).tail (.scheduled (hadmitsAgain.amid True rfl 1 1))).tail
      (.failed rfl (secondCut_from True))
  have hinc : ∀ a ∈ [firstCut, secondCut], a.Incomplete := by
    simp [FailedAttempt.Incomplete, firstCut, secondCut, cutAttempt, gotEof_failures.1]
  rcases (h _ _ _ _ hlives hinc).grows [] firstCut secondCut [] rfl with ⟨hlt, -⟩ | ⟨-, hset, -⟩
  · exact absurd hlt (by decide)
  · -- a file that was set aside would have left the item in review
    obtain ⟨_, w₁, w₂, w₃, e, old, size, -, -, -, hold, hS⟩ := hset
    have hreview : RowIs "u" (fun r => r.status ∈ [.reviewRequired, .queued, .excluded])
        secondCut.after := holds_beside hS steady_review ((holds_moved hold).mono fun r hr => by
      rw [hr, status_transitionUpdate _ _ (by simp [Update.KeepsStatus])]
      simp)
    obtain ⟨r, hr, hs⟩ := hreview.row
    obtain rfl := Option.some.inj hr
    exact absurd hs (by decide)

/-- The attempt after the first one, a minute later. -/
def laterCut : FailedAttempt :=
  cutAttempt cutOnce (cutOnce.set [.status .active, .attempts 2]) cutLater 3

theorem laterCut_from (returns : Prop) :
    laterCut.From returns (alone (cutOnce.set [.status .admitted]) 3) := by
  have hsettled : Gives (recordFailure oneItemRun cutOnce "" gotEof 3)
      (cutOnce.set [.status .active, .attempts 2]) 3 60 "failed" cutLater := by
    rw [cutLater, show (180 : ℚ) = 60 + 120 by norm_num]
    simp only [recordFailure, gotEof_failures]
    exact rfl
  have htested : Gives (stalled "u" 3 gotEof) (cutOnce.set [.status .active, .attempts 2]) 3 60
      (isIncompleteBodyFailure gotEof && decide (3 ≤ 2))
      (cutOnce.set [.status .active, .attempts 2]) := by
    rw [stalled, if_neg (by simp [gotEof_failures.1])]
    exact rfl
  rw [gotEof_failures.1] at htested
  exact cutAttempt_from (cutOnce.set [.status .admitted]) cutOnce
    (cutOnce.set [.status .active, .attempts 2]) cutLater 3
    rfl rfl rfl rfl rfl rfl rfl rfl htested hsettled 3

/-- Two attempts in a row, the second one a byte further. -/
theorem sizes_increase_laterCut : MakesProgress False [firstCut, laterCut] := by
  have hadmits : Gives (admitNext oneItemRun) cutOnce 2 60 (some (.transfer cutOnce))
      (cutOnce.set [.status .admitted]) := rfl
  have hlives : Lives False "u" ⟨alone cutRow 2, some (oneItemRun, .transfer cutRow)⟩
      [firstCut, laterCut] ⟨laterCut.after, none⟩ :=
    ((Lives.stage (.failed rfl (firstCut_from False))).tail
      (.scheduled (hadmits.amid False rfl 2 3))).tail (.failed rfl (laterCut_from False))
  refine sizes_increase "u" _ _ [firstCut, laterCut] hlives fun a ha => ?_
  rcases List.mem_cons.1 ha with rfl | ha
  · exact ⟨gotEof_failures.1, two_ne_zero⟩
  · obtain rfl := List.mem_singleton.1 ha
    exact ⟨gotEof_failures.1, three_ne_zero⟩

end TodDl.Controller
