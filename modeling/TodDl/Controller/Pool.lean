/-
  The controller — the pool of workers (tod-dl.py, `run`).

  `run` hires in the body of its inner loop (`Main.Admission`), which it enters only where
  the condition of the loop holds (`Session.admits`).  Several steps of `run` and of everyone
  else lie between the condition and the hiring.

  `pool_bounded`: there are never more workers than the configuration has.
  `stop_is_final`: once a session is asked to stop or to drain, at most the round that is
  under way still hires.
-/
import TodDl.Controller.Ledger

namespace TodDl.Controller

open Lib (FileTree GRun Prog)
open Store (Db)

/-! ## Flags -/

section
variable {cfg : Config} {w w' : World} {e : Env}

theorem Stops.asked (h : Stops w w') (hw : w.stopRequested = true ∨ w.drainRequested = true) :
    w'.stopRequested = true ∨ w'.drainRequested = true := hw.imp h.stop h.drain

theorem SameFlags.stops (h : SameFlags w w') : Stops w w' :=
  ⟨fun hs => h.stop.trans hs, fun hd => h.drain.trans hd⟩

theorem Step.stops (hs : Step cfg everyMove w e w') : Stops w w' := by
  cases hs with
  | quiet _ _ hf => exact hf.stops
  | aside _ _ hf => exact hf.stops
  | rollback => exact ⟨id, id⟩
  | transition => exact ⟨id, id⟩
  | failure code _ _ hf => exact ⟨fun _ => hf.stop, fun hd => hf.drain.trans hd⟩
  | note => exact ⟨id, id⟩
  | engine _ _ _ hf =>
    rcases hf with hf | ⟨-, hf⟩
    · exact hf.stops
    · exact ⟨fun _ => hf.stop, fun hd => hf.drain.trans hd⟩
  | importEntry => exact ⟨id, id⟩
  | select => exact ⟨id, id⟩

/-- A step that keeps who is asked to stop. -/
def KeepsStops (w : World) (_ : Env) (w' : World) : Prop := Stops w w'

theorem uses_stops {α : Type} {p : Ctl α} (hp : p.Uses (Step cfg everyMove)) :
    p.Uses KeepsStops := hp.mono fun _ _ _ => Step.stops

theorem uses_change_stops (f : Db → Env → Db) : (dbChange f).Uses KeepsStops := by
  refine Prog.uses_call fun w e => ?_
  split <;> exact ⟨id, id⟩

theorem uses_commit_stops (f : Db → Env → Except Exc Db) : (dbCommit f).Uses KeepsStops := by
  refine Prog.uses_call fun w e => ?_
  split <;> exact ⟨id, id⟩

theorem query_stops {β : Type} (f : Db → ℚ → Except Provenance.Failure β) :
    (query f).Uses KeepsStops := by
  refine Prog.uses_call fun w e => ?_
  split <;> exact .refl w

theorem andWake_stops {wakes : Bool} {p : Ctl (Store.Reply × Bool)} (hp : p.Uses KeepsStops) :
    (andWake wakes p).Uses KeepsStops := by
  refine hp.bind fun reply => ?_
  obtain ⟨reply, accepted⟩ := reply
  dsimp only
  split
  · exact (Prog.uses_change fun _ _ => ⟨id, id⟩).bind fun _ => trivial
  · trivial

/-- A refused action changes no flag; an accepted one may stop or drain. -/
theorem flagControl_stops {f : FlagAction} (hf : ∀ w, Stops w (f.effect w)) (q : Store.Request) :
    (flagControl cfg f q).Uses KeepsStops := by
  unfold flagControl
  split
  · refine Prog.uses_call fun w e => ?_
    dsimp only
    split
    · exact .refl w
    · generalize hflags : (if (f.refusal w).isSome then w else f.effect w) = w₁
      have hw₁ : Stops w w₁ := by
        subst hflags
        split
        · exact .refl w
        · exact hf w
      split <;> exact ⟨hw₁.stop, hw₁.drain⟩
  · trivial

theorem control_stops (q : Store.Request) (a : ControlAction) :
    (control cfg q a).Uses KeepsStops := by
  have hitem : ∀ {wakes : Bool} {handler : Db → String → Store.Request → Store.Clock → Store.Outcome},
      (andWake wakes (itemControl cfg handler q)).Uses KeepsStops := by
    refine andWake_stops (Prog.uses_call fun w e => ?_)
    dsimp only
    split <;> exact ⟨id, id⟩
  cases a with
  | pauseAdmission => exact andWake_stops (flagControl_stops (fun _ => ⟨id, id⟩) q)
  | resumeAdmission => exact andWake_stops (flagControl_stops (fun _ => ⟨id, id⟩) q)
  | drainAndStop => exact andWake_stops (flagControl_stops (fun _ => ⟨id, fun _ => rfl⟩) q)
  | checkpointStop => exact andWake_stops (flagControl_stops (fun _ => ⟨fun _ => rfl, id⟩) q)
  | _ => exact hitem

theorem admitNext_stops : (admitNext cfg).Uses KeepsStops := by
  have hstep : (dbLook fun db e => nextRecheck db cfg.runId e.time).Uses (Step cfg everyMove) :=
    uses_dbLook _
  have hlook := uses_stops hstep
  unfold admitNext
  refine (query_stops _).bind fun found => ?_
  split
  · exact (uses_stops (uses_transition trivial _ _ fun _ => by simp)).bind fun _ => trivial
  · refine hlook.bind fun due => ?_
    split
    · trivial
    · exact (uses_commit_stops _).bind fun _ => trivial

theorem task_stops (task : Task) : (task.program cfg).Uses KeepsStops := by
  cases task with
  | transfer row => exact uses_stops (uses_transfer (fun _ _ => trivial) trivial)
  | recheck row => exact uses_stops (uses_recheckUnavailable fun _ _ => trivial)

/-- **No program of the controller** takes back that it is asked to stop. -/
theorem programs_stop : Session.Programs KeepsStops where
  startup _ := uses_startup_of (P := everyMove) (fun _ _ _ => trivial) trivial trivial
    (fun _ _ _ => Step.stops) (uses_commit_stops _) (uses_change_stops _) (uses_change_stops _)
    fun _ _ _ => ⟨id, id⟩
  admitNext _ := admitNext_stops
  retryWait _ := query_stops _
  task _ := task_stops
  control _ q a := control_stops q a

end

namespace Session

section
variable {s t : Session} {move : Move}

/-! ## The size of the pool -/

/-- There is room for every worker, and for one more in the body of the inner loop. -/
structure Roomy (s : Session) : Prop where
  workers : s.workers.length ≤ s.cfg.workers
  room : s.main.Admission → s.workers.length < s.cfg.workers

theorem room_of_admits (h : s.admits = true) : s.workers.length < s.cfg.workers := by
  simp only [admits, Bool.and_eq_true, decide_eq_true_eq] at h
  exact h.2

/-- No worker is new, and `run` is not in the body of its inner loop unless it was. -/
theorem Roomy.fewer (h : s.Roomy) (hcfg : t.cfg = s.cfg)
    (hworkers : t.workers.length ≤ s.workers.length)
    (hopens : t.main.Admission → s.main.Admission ∨ s.admits = true) : t.Roomy := by
  refine ⟨?_, fun hopen => ?_⟩
  · rw [hcfg]
    exact hworkers.trans h.workers
  · rw [hcfg]
    refine hworkers.trans_lt ?_
    rcases hopens hopen with hopen | hadmits
    · exact h.room hopen
    · exact room_of_admits hadmits

theorem admission_of_admitting {p : Ctl (Option Task)} (h : s.main = .admitting p) :
    s.main.Admission := by
  rw [h]
  trivial

theorem not_admission_interrupted (main : Main) : ¬ main.interrupted.Admission := by
  cases main <;> exact id

theorem Roomy.step (h : s.Roomy) (hs : s.step move = some t) : t.Roomy := by
  cases stepped_of_step hs with
  | boot cfg _ => exact ⟨Nat.zero_le _, fun hopen => hopen.elim⟩
  | dropped => exact ⟨Nat.zero_le _, fun hopen => hopen.elim⟩
  | starts => exact h.fewer rfl le_rfl fun hopen => hopen.elim
  | started => exact h.fewer rfl le_rfl fun hopen => hopen.elim
  | admits hmain =>
    exact h.fewer rfl le_rfl fun _ => .inl (admission_of_admitting hmain)
  | hires hmain =>
    refine ⟨?_, fun hopen => hopen.elim⟩
    rw [hired, List.length_append, List.length_singleton]
    exact h.room (admission_of_admitting hmain)
  | asks => exact h.fewer rfl le_rfl fun hopen => hopen.elim
  | onward hdb hp hserves hmain hstops hopens =>
    exact h.fewer hp.cfg (by rw [hp.workers]) hopens
  | works =>
    exact h.fewer rfl (by rw [List.length_map]) fun hopen => .inl hopen
  | leaves hmain =>
    refine h.fewer rfl (List.length_filter_le _ _) fun hopen => ?_
    rcases hmain with ⟨-, rfl | rfl⟩ | ⟨-, rfl⟩ <;> exact hopen.elim
  | joins => exact ⟨h.workers, h.room⟩
  | handles => exact h.fewer rfl le_rfl fun hopen => .inl hopen
  | aside hdb hp hmain =>
    refine h.fewer hp.cfg (by rw [hp.workers]) fun hopen => ?_
    rcases hmain with hmain | ⟨-, hmain⟩
    · exact .inl (hmain ▸ hopen)
    · rw [hmain] at hopen
      exact absurd hopen (not_admission_interrupted _)

/-! ## After a stop -/

/-- The session is asked to stop or to drain. -/
def Asked (s : Session) : Prop := s.world.stopRequested = true ∨ s.world.drainRequested = true

instance (s : Session) : Decidable s.Asked := inferInstanceAs (Decidable (_ ∨ _))

/-- No other session starts. -/
def SameProcess (_ : Session) : Move → Prop
  | .boot _ => False
  | _ => True

instance (s : Session) : (move : Move) → Decidable (s.SameProcess move)
  | .boot _ => isFalse id
  | .crash | .run _ | .worker .. | .collect _ | .request .. | .handler .. | .signal _
  | .projection .. | .outside .. => isTrue trivial

/-- The loop is closing: `ids` were its workers when it was asked to, and `underWay` says
    whether a round was under way. -/
structure Ending (ids : List ℕ) (underWay : Prop) (s : Session) : Prop where
  asked : s.Asked
  takes : s.Takes KeepsStops
  /-- at most one worker is new -/
  known : ∃ last, ∀ j ∈ s.workers, j.id ∈ ids ∨ underWay ∧ j.id = last
  /-- while the round is under way, none is -/
  round : s.main.Admission → underWay ∧ ∀ j ∈ s.workers, j.id ∈ ids

theorem Asked.not_admits (h : s.Asked) : s.admits = false := by
  rcases h with h | h <;> simp [admits, h]

variable {ids : List ℕ} {underWay : Prop}

/-- No worker is new, and no round opens. -/
theorem Ending.fewer (h : s.Ending ids underWay) (hasked : t.Asked) (htakes : t.Takes KeepsStops)
    (hworkers : ∀ j ∈ t.workers, ∃ i ∈ s.workers, i.id = j.id)
    (hopens : t.main.Admission → s.main.Admission ∨ s.admits = true) : t.Ending ids underWay where
  asked := hasked
  takes := htakes
  known := by
    obtain ⟨last, hknown⟩ := h.known
    refine ⟨last, fun j hj => ?_⟩
    obtain ⟨i, hi, hid⟩ := hworkers j hj
    exact hid ▸ hknown i hi
  round hopen := by
    have hround := hopens hopen
    rw [h.asked.not_admits] at hround
    obtain ⟨hway, hids⟩ := h.round (hround.resolve_right Bool.false_ne_true)
    refine ⟨hway, fun j hj => ?_⟩
    obtain ⟨i, hi, hid⟩ := hworkers j hj
    exact hid ▸ hids i hi

/-- **Every step of a session that is asked to stop.** -/
theorem Ending.step (h : s.Ending ids underWay) (hg : s.SameProcess move)
    (hs : s.step move = some t) : t.Ending ids underWay := by
  obtain ⟨htakes, -⟩ := h.takes.step programs_stop hs
  have hself : ∀ {workers : List Worker}, (∀ j ∈ workers, j ∈ s.workers) →
      ∀ j ∈ workers, ∃ i ∈ s.workers, i.id = j.id := fun hw j hj => ⟨j, hw j hj, rfl⟩
  have hsame : ∀ j ∈ s.workers, ∃ i ∈ s.workers, i.id = j.id := hself fun _ => id
  cases stepped_of_step hs with
  | boot => exact hg.elim
  | dropped => exact h.fewer h.asked htakes (hself fun j hj => by cases hj) fun hopen => hopen.elim
  | @starts e β f k hmain =>
    exact h.fewer (((h.takes.starting _ hmain).1 s.world e).asked h.asked) htakes hsame
      fun hopen => hopen.elim
  | started => exact h.fewer h.asked htakes hsame fun hopen => hopen.elim
  | @admits e β f k hmain =>
    exact h.fewer (((h.takes.admitting _ hmain).1 s.world e).asked h.asked) htakes hsame
      fun _ => .inl (admission_of_admitting hmain)
  | @hires e task hmain =>
    obtain ⟨hway, hids⟩ := h.round (admission_of_admitting hmain)
    refine ⟨h.asked, htakes, ⟨s.count, fun j hj => ?_⟩, fun hopen => hopen.elim⟩
    rcases List.mem_append.1 hj with hj | hj
    · exact .inl (hids j hj)
    · obtain rfl := List.mem_singleton.1 hj
      exact .inr ⟨hway, rfl⟩
  | @asks e β f k hmain =>
    exact h.fewer (((h.takes.asking _ hmain).1 s.world e).asked h.asked) htakes hsame
      fun hopen => hopen.elim
  | onward hdb hp hserves hmain hstops hopens =>
    exact h.fewer (hstops.asked h.asked) htakes (hp.workers ▸ hsame) hopens
  | @works id e β f k hfind =>
    have hmem := List.mem_of_find?_eq_some hfind
    refine h.fewer (((h.takes.workers _ hmem).1 s.world e).asked h.asked) htakes (fun j hj => ?_)
      fun hopen => .inl hopen
    obtain ⟨i, hi, rfl⟩ := List.mem_map.1 hj
    refine ⟨i, hi, ?_⟩
    split
    · next hid => exact hid
    · rfl
  | leaves hmain =>
    refine h.fewer h.asked htakes (hself fun j hj => List.mem_of_mem_filter hj) fun hopen => ?_
    rcases hmain with ⟨-, rfl | rfl⟩ | ⟨-, rfl⟩ <;> exact hopen.elim
  | joins => exact h.fewer h.asked htakes hsame fun hopen => .inl hopen
  | @handles id e a q β f k hfind =>
    have hmem := List.mem_of_find?_eq_some hfind
    exact h.fewer (((h.takes.handlers _ hmem).1 s.world e).asked h.asked) htakes hsame
      fun hopen => .inl hopen
  | aside hdb hp hmain hstops =>
    refine h.fewer (hstops.asked h.asked) htakes (hp.workers ▸ hsame) fun hopen => ?_
    rcases hmain with hmain | ⟨-, hmain⟩
    · exact .inl (hmain ▸ hopen)
    · rw [hmain] at hopen
      exact absurd hopen (not_admission_interrupted _)

end

end Session

/-- **The pool is bounded.**  At no time of any run of sessions are there more workers than the
    configuration of the session has, although `run` counts them several steps before it hires. -/
theorem pool_bounded {cfg : Config} {fs : FileTree} {s : Session}
    (hrun : GRun Session.step (fun _ _ => True) (Session.initial cfg fs) s) :
    s.workers.length ≤ s.cfg.workers :=
  (hrun.invariant Session.Roomy ⟨Nat.zero_le _, fun hopen => hopen.elim⟩
    fun _ _ _ h _ hs => h.step hs).workers

theorem pool_bounded_atWork : atWork.workers.length ≤ atWork.cfg.workers :=
  @pool_bounded twoEntries emptyWorld.fs atWork
    ((Lib.GRun.of_exec (Option.some_get _).symm).mono fun _ _ _ => trivial)

/-- **A stop is final.**  Once a session is asked to stop or to drain, by whomever, it stays so
    until another process starts, and it hires no worker any more; if a round of admission is
    under way just then, at most that one still does. -/
theorem stop_is_final {cfg : Config} {fs : FileTree} {s t : Session}
    (hreach : GRun Session.step (fun _ _ => True) (Session.initial cfg fs) s) (hasked : s.Asked)
    (hrun : GRun Session.step Session.SameProcess s t) :
    t.Asked ∧ (t.main.Admission → s.main.Admission) ∧
      ∃ last, ∀ j ∈ t.workers, (∃ i ∈ s.workers, i.id = j.id) ∨
        s.main.Admission ∧ j.id = last := by
  have htakes : s.Takes KeepsStops := hreach.invariant _ (Session.takes_initial cfg fs)
    fun _ _ _ h _ hs => (h.step programs_stop hs).1
  have hids : ∀ j ∈ s.workers, j.id ∈ s.workers.map (·.id) := fun j hj => List.mem_map_of_mem hj
  have hending : t.Ending (s.workers.map (·.id)) s.main.Admission :=
    hrun.invariant _ ⟨hasked, htakes, ⟨0, fun j hj => .inl (hids j hj)⟩, fun hopen => ⟨hopen, hids⟩⟩
      fun _ _ _ h hg hs => h.step hg hs
  obtain ⟨last, hknown⟩ := hending.known
  refine ⟨hending.asked, fun hopen => (hending.round hopen).1, last, fun j hj => ?_⟩
  exact (hknown j hj).imp_left List.mem_map.1

/-- An operator's stop finds a round of admission under way. -/
def stoppedMidway : Session :=
  (Lib.exec Session.step (fun _ _ => True) (Session.initial oneHour emptyWorld.fs)
    (reachLoop ++ List.replicate 4 (.run (atTime 0)) ++
      [.request .checkpointStop oneItem, .handler 0 (atTime 0)])).get (by decide +kernel)

/-- The round ends. -/
def stoppedAfter : Session :=
  (Lib.exec Session.step Session.SameProcess stoppedMidway
    (List.replicate 4 (.run (atTime 0)))).get (by decide +kernel)

theorem stop_is_final_midway :
    stoppedAfter.Asked ∧ (stoppedAfter.main.Admission → stoppedMidway.main.Admission) ∧
      ∃ last, ∀ j ∈ stoppedAfter.workers, (∃ i ∈ stoppedMidway.workers, i.id = j.id) ∨
        stoppedMidway.main.Admission ∧ j.id = last :=
  @stop_is_final oneHour emptyWorld.fs stoppedMidway stoppedAfter
    (Lib.GRun.of_exec (Option.some_get _).symm) (by decide +kernel)
    (Lib.GRun.of_exec (Option.some_get _).symm)

end TodDl.Controller
