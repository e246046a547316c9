/-
  The controller — items that do not come back (tod-dl.py, `run`, `initialize`, `control_action`).

  An item that is complete, excluded, existing unverified, being promoted or up for review
  is at rest: no start requeues it and no query of the scheduler hands it out.  `Retired` is
  what a session keeps of such an item once its worker is done with the row.

  `parked_stays`: outside a start and a round of admission such an item stays so, over any
  further sessions, with any queue, and wherever they are killed, until an operator returns
  it from review.
-/
import TodDl.Controller.Ownership

namespace TodDl.Controller

open Lib (FileTree GRun Prog)
open Store (Db)

/-- The row of the item is one that does not come back by itself. -/
def ParkedIn (url : String) : Db → Prop := RestsIn url fun _ => False

section
variable {url : String} {w w' : World} {e : Env} {cfg : Config}

theorem rowIs_parked : RowIs url Parked w ↔ Agree url w ∧ ParkedIn url w.db :=
  ⟨fun h => ⟨h.agree, h.row⟩, fun h => ⟨h.1, h.2⟩⟩

/-- The committed row is parked with the row that the connection sees. -/
theorem RowIs.onDisk (h : RowIs url Parked w) : ParkedIn url w.disk := by
  obtain ⟨hagree, r, hr, hparked⟩ := h
  exact ⟨r, hagree.trans hr, hparked⟩

/-- Neither query of the scheduler hands out a parked item. -/
theorem not_nextPending_of_parked {time : ℚ} {r : Store.Row} (hw : ParkedIn url w.db)
    (h : nextPending cfg w.db time = .ok (some r)) : r.url ≠ url := by
  rintro rfl
  obtain ⟨r', hr', hparked⟩ := hw
  obtain ⟨hrow, hreturns⟩ := nextPending_returning h
  obtain rfl : r = r' := Option.some.inj (hrow.symm.trans hr')
  exact hparked hreturns

theorem not_nextRecheck_of_parked {time : ℚ} {r : Store.Row} (hw : ParkedIn url w.db)
    (h : nextRecheck w.db cfg.runId time = some r) : r.url ≠ url := by
  rintro rfl
  obtain ⟨r', hr', hparked⟩ := hw
  obtain ⟨hrow, hstatus, -⟩ := nextRecheck_eq_some h
  obtain rfl : r = r' := Option.some.inj (hrow.symm.trans hr')
  exact hparked (by rw [hstatus]; decide)

/-- A round of the scheduler goes past a parked item. -/
theorem away_of_parked {c : Choice} (hw : RowIs url Parked w)
    (h : (choices cfg url).go .away w e w' c) : c = .away ∧ Leaves url w w' := by
  obtain ⟨-, hparked⟩ := rowIs_parked.1 hw
  cases c with
  | away => exact ⟨rfl, h⟩
  | chosen =>
    obtain ⟨⟨r, hr, hurl⟩, -⟩ := h
    exact absurd hurl (not_nextPending_of_parked hparked hr)
  | taken =>
    obtain ⟨r, hr, hurl⟩ := h
    exact absurd hurl (not_nextRecheck_of_parked hparked hr)

/-- A request keeps a parked item parked, unless it returns the item. -/
theorem Serves.parked (h : Serves url w w') (hno : ¬ Returned url w w')
    (hw : RowIs url Parked w) : RowIs url Parked w' := by
  obtain ⟨hagree, r, hr, hparked⟩ := hw
  obtain ⟨hagree', r', hr', hserved⟩ := h.acts r hagree hr
  refine ⟨hagree', r', hr', ?_⟩
  rcases hserved with ⟨-, hs | hs⟩ | ⟨-, hreview, hqueued⟩
  · exact fun hreturns => hparked (hs ▸ hreturns)
  · exact fun hreturns => absurd (hs ▸ hreturns) (by decide)
  · exact absurd ⟨r, r', hr, hreview, hr', hqueued⟩ hno

end

namespace Session

/-- No operator returns the item from review. -/
def KeepsReview (url : String) (s : Session) : Move → Prop
  | .handler id e => ∀ t, s.step (.handler id e) = some t → ¬ Returned url s.world t.world
  | _ => True

/-- The item is parked, and nobody has anything left to do with it. -/
structure Retired (url : String) (s : Session) : Prop where
  start : ∀ p, s.main = .starting p → p.Uses (KeepsDb (ParkedIn url))
  db : ParkedIn url s.world.db
  disk : ParkedIn url s.world.disk
  agree : s.serves = true → Agree url s.world
  round : ∀ p, s.main = .admitting p → Admits s.cfg url .away p
  workers : ∀ j ∈ s.workers, Idle url j.program

section
variable {s t : Session} {url : String} {e : Env}

theorem Retired.row (h : s.Retired url) (hserves : s.serves = true) :
    RowIs url Parked s.world := rowIs_parked.2 ⟨h.agree hserves, h.db⟩

/-- Between two programs of `run`, with the item parked. -/
theorem retired_of_row (hserves : t.serves = true) (hrow : RowIs url Parked t.world)
    (hround : ∀ p, t.main = .admitting p → Admits t.cfg url .away p)
    (hworkers : ∀ j ∈ t.workers, Idle url j.program) : t.Retired url where
  start p hm := absurd hm (not_starting_of_serves hserves p)
  db := (rowIs_parked.1 hrow).2
  disk := hrow.onDisk
  agree _ := hrow.agree
  round := hround
  workers := hworkers

/-- The process is at its start, or there is none. -/
theorem retired_of_unserved (hworkers : t.workers = []) (hserves : t.serves = false)
    (hstart : ∀ p, t.main = .starting p → p.Uses (KeepsDb (ParkedIn url)))
    (hdb : ParkedIn url t.world.db) (hdisk : ParkedIn url t.world.disk) : t.Retired url where
  start := hstart
  db := hdb
  disk := hdisk
  agree h := not_unserved h hserves
  round p hm := by simp [serves, hm] at hserves
  workers j hj := by rw [hworkers] at hj; cases hj

/-- `run` goes on. -/
theorem Retired.onward (h : s.Retired url) (hdb : SameDb s.world t.world) (hp : s.SameParties t)
    (hserves : s.serves = true) (hmain : t.main.Onward s.cfg) : t.Retired url := by
  have hrow : Leaves url s.world t.world := .same (by rw [hdb.db]) (by rw [hdb.disk])
  refine retired_of_row (serves_of_onward hmain) (hrow.holds (h.row hserves)) (fun p hm => ?_)
    (hp.workers ▸ h.workers)
  obtain rfl : p = admitNext s.cfg := by
    rw [hm] at hmain
    exact hmain
  exact hp.cfg ▸ admits_admitNext

/-- **Every step of a session** keeps a retired item retired. -/
theorem Retired.step (hf : s.Framed) (h : s.Retired url) {move : Move}
    (hg : s.KeepsReview url move) (hs : s.step move = some t) : t.Retired url := by
  cases stepped_of_step hs with
  | boot cfg _ =>
    refine retired_of_unserved rfl rfl (fun p hm => ?_) h.disk h.disk
    cases hm
    exact uses_startup_rests
  | dropped => exact retired_of_unserved rfl rfl (fun p hm => by cases hm) h.db h.disk
  | starts hmain =>
    obtain ⟨hdb, hdisk⟩ := (h.start _ hmain).1 s.world _ h.db h.disk
    refine retired_of_unserved (hf.unserved (by rw [serves, hmain])).1 rfl (fun p hm => ?_) hdb hdisk
    cases hm
    exact (h.start _ hmain).2 _
  | started hmain =>
    -- the start has committed what it did
    obtain ⟨b, hphased, hnow⟩ := hf.start _ hmain
    have hcommitted : s.world.disk = s.world.db := hnow (hphased rfl)
    refine retired_of_row rfl (rowIs_parked.2 ⟨?_, h.db⟩) (fun p hm => by cases hm) h.workers
    rw [Agree, moved, hcommitted]
  | admits hmain =>
    have hserves : s.serves = true := by rw [serves, hmain]
    have hadmits := h.round _ hmain
    unfold Admits at hadmits
    obtain ⟨c, ⟨hgo, -⟩, hk⟩ := hadmits s.world _ (h.agree hserves)
    obtain ⟨rfl, hrow⟩ := away_of_parked (h.row hserves) hgo
    refine retired_of_row rfl (hrow.holds (h.row hserves)) (fun p hm => ?_) h.workers
    cases hm
    unfold Admits
    exact hk
  | @hires e task hmain =>
    have hadmits := h.round _ hmain
    unfold Admits at hadmits
    have hother : task.row.url ≠ url := hadmits
    refine retired_of_row rfl (h.row (by rw [serves, hmain])) (fun p hm => by cases hm)
      fun j hj => ?_
    rcases List.mem_append.1 hj with hj | hj
    · exact h.workers j hj
    · obtain rfl := List.mem_singleton.1 hj
      exact idle_of_uses (leaves_task hother)
  | @asks e β f k hmain =>
    have hrow := ((hf.asks _ hmain url).1 s.world e).holds (h.row (by rw [serves, hmain]))
    exact retired_of_row rfl hrow (fun p hm => by cases hm) h.workers
  | onward hdb hp hserves hmain => exact h.onward hdb hp hserves hmain
  | @works id e β f k hfind =>
    have hmem := List.mem_of_find?_eq_some hfind
    have hserves := hf.serves_of_worker hmem
    obtain ⟨hrow, hidle⟩ := h.workers _ hmem s.world e
    refine retired_of_row hserves (hrow.holds (h.row hserves)) h.round fun j hj => ?_
    obtain ⟨i, hi, rfl⟩ := List.mem_map.1 hj
    split
    · exact hidle
    · exact h.workers i hi
  | @leaves id main hmain =>
    have hserves : s.serves = true := by rcases hmain with ⟨hm, -⟩ | ⟨hm, -⟩ <;> rw [serves, hm]
    have hfewer : Retired url { s with workers := s.workers.filter fun j => j.id ≠ id } :=
      ⟨h.start, h.db, h.disk, h.agree, h.round, fun j hj => h.workers j (List.mem_of_mem_filter hj)⟩
    refine hfewer.onward ⟨rfl, rfl⟩ ⟨rfl, rfl, rfl, rfl⟩ hserves ?_
    rcases hmain with ⟨-, rfl | rfl⟩ | ⟨-, rfl⟩ <;> trivial
  | joins => exact ⟨h.start, h.db, h.disk, h.agree, h.round, h.workers⟩
  | @handles id e a q β f k hfind =>
    have hmem := List.mem_of_find?_eq_some hfind
    have hserves := hf.serves_of_handler hmem
    have hrow := ((hf.handlers _ hmem url).1 s.world e).parked (hg _ hs) (h.row hserves)
    exact retired_of_row hserves hrow h.round h.workers
  | aside hdb hp hmain =>
    rcases hmain with hmain | ⟨hserves, hmain⟩
    · refine ⟨fun p hm => h.start p (hmain ▸ hm), hdb.db ▸ h.db, hdb.disk ▸ h.disk, fun hs => ?_,
        fun p hm => hp.cfg ▸ h.round p (hmain ▸ hm), hp.workers ▸ h.workers⟩
      rw [Agree, hdb.db, hdb.disk]
      exact h.agree (by rw [← hs, serves, serves, hmain])
    · refine h.onward hdb hp hserves ?_
      rw [hmain]
      unfold Main.interrupted
      split <;> trivial

end

end Session

/-- **A parked item stays parked.**  Let an item have a status that does not come back by
    itself, its workers be done with its row, and `run` be neither starting nor in a round of
    admission (which may have chosen the item before it was parked).  Then no session that
    follows, on whatever queues, tries it again: until an operator returns it from review, it
    stays parked as the connection sees it and as it is committed, and no worker of any pool
    writes its row. -/
theorem parked_stays {cfg : Config} {fs : FileTree} {s t : Session} {url : String}
    (hreach : GRun Session.step (fun _ _ => True) (Session.initial cfg fs) s)
    (hrow : RowIs url Parked s.world)
    (hmain : ∀ p, s.main ≠ .starting p) (hround : ∀ p, s.main ≠ .admitting p)
    (hidle : ∀ j ∈ s.workers, Idle url j.program)
    (hrun : GRun Session.step (Session.KeepsReview url) s t) :
    ParkedIn url t.world.db ∧ ParkedIn url t.world.disk ∧ ∀ j ∈ t.workers, Idle url j.program := by
  have hframed : s.Framed := hreach.invariant _ (Session.framed_initial cfg fs)
    fun _ _ _ h _ hs => h.step hs
  have hretired : s.Retired url :=
    { start := fun p hm => absurd hm (hmain p)
      db := (rowIs_parked.1 hrow).2
      disk := hrow.onDisk
      agree := fun _ => hrow.agree
      round := fun p hm => absurd hm (hround p)
      workers := hidle }
  have hkept : t.Framed ∧ t.Retired url := by
    refine hrun.invariant (fun s => s.Framed ∧ s.Retired url) ⟨hframed, hretired⟩ ?_
    rintro s move t ⟨hf, h⟩ hg hs
    exact ⟨hf.step hs, h.step hf hg hs⟩
  exact ⟨hkept.2.db, hkept.2.disk, hkept.2.workers⟩

/-- `run` is about to check its deadline. -/
def Main.atLoop : Main → Bool
  | .checking => true
  | _ => false

/-- No handler takes a step. -/
def Session.Unasked (_ : Session) : Move → Prop
  | .handler .. => False
  | _ => True

instance (s : Session) : (move : Move) → Decidable (s.Unasked move)
  | .handler .. => isFalse id
  | .boot _ | .crash | .run _ | .worker .. | .collect _ | .request .. | .signal _
  | .projection .. | .outside .. => isTrue trivial

/-- The only entry of a queue, excluded by an operator. -/
def excludedEntry : Session :=
  (Lib.exec Session.step Session.NoneDue (Session.initial oneHour emptyWorld.fs)
    (reachLoop ++ [.request .excludeItem oneItem, .handler 0 (atTime 0)])).get (by decide +kernel)

/-- The controller dies, and another session comes to its loop. -/
def excludedAgain : Session :=
  (Lib.exec Session.step Session.Unasked excludedEntry
    (.crash :: reachLoop ++ List.replicate 6 (.run (atTime 0)))).get (by decide +kernel)

theorem parked_stays_excluded :
    ParkedIn "https://host/set/a.bin" excludedAgain.world.db ∧
      ParkedIn "https://host/set/a.bin" excludedAgain.world.disk ∧
      ∀ j ∈ excludedAgain.workers, Idle "https://host/set/a.bin" j.program := by
  obtain ⟨hmain, hworkers, hexcluded⟩ : excludedEntry.main.atLoop = true ∧
      excludedEntry.workers.length = 0 ∧
      (excludedEntry.world.db.downloads.find? "https://host/set/a.bin").any
        (·.status = .excluded) = true := by decide +kernel
  have hreach : GRun Session.step Session.NoneDue (Session.initial oneHour emptyWorld.fs)
      excludedEntry := Lib.GRun.of_exec (Option.some_get _).symm
  have hserves : excludedEntry.serves = true := by
    unfold Session.serves
    cases hm : excludedEntry.main <;> rw [hm] at hmain <;> first | rfl | cases hmain
  obtain ⟨o, hruled⟩ := Session.ruled_of_run (hreach.mono fun _ _ h => h.outlive)
    "https://host/set/a.bin"
  obtain ⟨r, hr, hstatus⟩ := (Option.any_eq_true _ _).1 hexcluded
  refine @parked_stays oneHour emptyWorld.fs excludedEntry excludedAgain _
    (hreach.mono fun _ _ _ => trivial) ⟨hruled.agree hserves, r, hr, ?_⟩ (fun p hm => ?_)
    (fun p hm => ?_) (fun j hj => ?_) ((Lib.GRun.of_exec (Option.some_get _).symm).mono fun s move h => ?_)
  · intro hreturns
    rw [of_decide_eq_true hstatus] at hreturns
    exact absurd hreturns (by decide)
  · rw [hm] at hmain
    cases hmain
  · rw [hm] at hmain
    cases hmain
  · rw [List.length_eq_zero_iff.1 hworkers] at hj
    cases hj
  · cases move with
    | handler => exact h.elim
    | _ => trivial

end TodDl.Controller
