/-
  The controller — what a step of a session can do (tod-dl.py, `run`).

  `Stepped` says it once, as far as the programs of the parties and the database go:
  a program takes one of its steps, a party joins or leaves, or `run` goes on with at
  most its flags and its files changed.  `Takes.step` lifts what every program of the
  controller does to what a session does.
-/
import TodDl.Controller.Session

namespace TodDl.Controller

open Lib (Prog)
open Store (Request)

/-- What the connection sees and what is committed are as before. -/
structure SameDb (w w' : World) : Prop where
  db : w'.db = w.db
  disk : w'.disk = w.disk

@[refl] theorem SameDb.refl (w : World) : SameDb w w := ⟨rfl, rfl⟩

/-- Who is asked to stop or to drain stays so. -/
structure Stops (w w' : World) : Prop where
  stop : w.stopRequested = true → w'.stopRequested = true
  drain : w.drainRequested = true → w'.drainRequested = true

@[refl] theorem Stops.refl (w : World) : Stops w w := ⟨id, id⟩

/-- The body of the inner loop, which hires a worker or leaves the loop. -/
def Main.Admission : Main → Prop
  | .timing | .measuring | .admitting _ => True
  | _ => False

/-- `run` is past its start, and at no program but the beginning of one. -/
def Main.Onward (cfg : Config) : Main → Prop
  | .down | .starting _ => False
  | .admitting p => p = admitNext cfg
  | .asking p => p = query (retryWait cfg)
  | _ => True

namespace Session

/-- The same session but for its world, its past and where `run` is. -/
structure SameParties (s t : Session) : Prop where
  cfg : t.cfg = s.cfg
  workers : t.workers = s.workers
  handlers : t.handlers = s.handlers
  count : t.count = s.count

/-- **What a step does.** -/
inductive Stepped (s : Session) : Move → Session → Prop
  /-- a session starts; none was there, or its loop was over -/
  | boot (cfg : Config) (h : s.main = .down ∨ ∃ db reason, s.main = .closed db reason) :
      Stepped s (.boot cfg)
        { cfg, world := s.world.booted, main := .starting (startup cfg), count := s.count }
  /-- a crash, or an exception before the loop -/
  | dropped {move} : Stepped s move s.dropped
  | starts {e : Env} {β : Type} {f : World → Env → β × World} {k} (h : s.main = .starting (.act f k)) :
      Stepped s (.run e) (s.next .run e (f s.world e).2 (.starting (k (f s.world e).1)))
  | started {e : Env} (h : s.main = .starting (.ret ())) : Stepped s (.run e) (s.moved .checking)
  | admits {e : Env} {β : Type} {f : World → Env → β × World} {k}
      (h : s.main = .admitting (.act f k)) :
      Stepped s (.run e) (s.next .run e (f s.world e).2 (.admitting (k (f s.world e).1)))
  | hires {e : Env} {task : Task} (h : s.main = .admitting (.ret (some task))) :
      Stepped s (.run e) (s.hired task)
  | asks {e : Env} {β : Type} {f : World → Env → β × World} {k} (h : s.main = .asking (.act f k)) :
      Stepped s (.run e) (s.next .run e (f s.world e).2 (.asking (k (f s.world e).1)))
  /-- `run` goes on -/
  | onward {e : Env} {t : Session} (hdb : SameDb s.world t.world) (h : s.SameParties t)
      (hserves : s.serves = true) (hmain : t.main.Onward s.cfg) (hstops : Stops s.world t.world)
      (hopens : t.main.Admission → s.main.Admission ∨ s.admits = true) : Stepped s (.run e) t
  | works {id : ℕ} {e : Env} {β : Type} {f : World → Env → β × World} {k}
      (h : s.workers.find? (·.id = id) = some ⟨id, .act f k⟩) :
      Stepped s (.worker id e) { s.next .worker e (f s.world e).2 s.main with
        workers := s.workers.map fun j => if j.id = id then ⟨id, k (f s.world e).1⟩ else j }
  /-- a future that is done leaves the pool -/
  | leaves {id : ℕ} {main : Main}
      (hmain : s.main = .waiting ∧ (main = .checking ∨ main = .settling) ∨
        s.main = .settling ∧ main = .settling) :
      Stepped s (.collect id)
        { s with workers := s.workers.filter fun j => j.id ≠ id, main }
  | joins {a : ControlAction} {q : Request} (h : s.serves = true) :
      Stepped s (.request a q)
        { s with
          handlers := s.handlers ++ [⟨s.count, a, q, control s.cfg q a⟩], count := s.count + 1 }
  | handles {id : ℕ} {e : Env} {a : ControlAction} {q : Request} {β : Type}
      {f : World → Env → β × World} {k}
      (h : s.handlers.find? (·.id = id) = some ⟨id, a, q, .act f k⟩) :
      Stepped s (.handler id e) { s.next .handler e (f s.world e).2 s.main with
        handlers := s.handlers.map fun j => if j.id = id then ⟨id, a, q, k (f s.world e).1⟩ else j }
  /-- a signal, a projection or others beside the process -/
  | aside {move : Move} {t : Session} (hdb : SameDb s.world t.world) (h : s.SameParties t)
      (hmain : t.main = s.main ∨ s.serves = true ∧ t.main = s.main.interrupted)
      (hstops : Stops s.world t.world) : Stepped s move t

section
variable {s t : Session}

theorem stops_stopped (w : World) : Stops w w.stopped := ⟨fun _ => rfl, id⟩

theorem SameParties.refl (s : Session) : s.SameParties s := ⟨rfl, rfl, rfl, rfl⟩

theorem stepped_run {e : Env} (h : s.stepRun e = some t) : Stepped s (.run e) t := by
  have honward : ∀ {u : Session}, some u = some t → SameDb s.world u.world → s.SameParties u →
      s.serves = true → u.main.Onward s.cfg → Stops s.world u.world →
      (u.main.Admission → s.main.Admission ∨ s.admits = true) → Stepped s (.run e) t := by
    intro u hu hdb hp hs hmain hstops hopens
    obtain rfl := Option.some.inj hu
    exact .onward hdb hp hs hmain hstops hopens
  have hmoved : ∀ {main : Main}, some (s.moved main) = some t → s.serves = true →
      main.Onward s.cfg → (main.Admission → s.main.Admission ∨ s.admits = true) →
      Stepped s (.run e) t := fun hu hs hmain =>
    honward hu ⟨rfl, rfl⟩ ⟨rfl, rfl, rfl, rfl⟩ hs hmain (.refl _)
  have hserves : ∀ main, s.main = main → (∀ p, main ≠ .starting p) → main ≠ .down →
      s.serves = true := by
    intro main hm hstarting hdown
    unfold serves
    rw [hm]
    cases main <;> first | rfl | exact absurd rfl (hstarting _) | exact absurd rfl hdown
  unfold stepRun at h
  cases hm : s.main with
  | down => simp only [hm] at h; cases h
  | closed => simp only [hm] at h; cases h
  | starting p =>
    cases p <;> simp only [hm, Option.some.injEq] at h <;> subst h
    · exact .started hm
    · exact .dropped
    · exact .starts hm
  | admitting p =>
    have hs := hserves _ hm (by simp) (by simp)
    cases p with
    | act f k =>
      simp only [hm, Option.some.injEq] at h
      exact h ▸ .admits hm
    | ret task =>
      cases task with
      | none =>
        simp only [hm] at h
        exact hmoved h hs trivial False.elim
      | some task =>
        simp only [hm, Option.some.injEq] at h
        exact h ▸ .hires hm
    | raise x =>
      simp only [hm] at h
      exact hmoved h hs trivial False.elim
  | asking p =>
    have hs := hserves _ hm (by simp) (by simp)
    cases p with
    | act f k =>
      simp only [hm, Option.some.injEq] at h
      exact h ▸ .asks hm
    | ret wait =>
      cases wait <;> simp only [hm] at h <;> exact hmoved h hs trivial False.elim
    | raise x =>
      simp only [hm] at h
      exact hmoved h hs trivial False.elim
  | checking =>
    simp only [hm] at h
    refine hmoved h (hserves _ hm (by simp) (by simp)) ?_ fun hopen => ?_
    · split <;> trivial
    · split at hopen
      · next hadmits => exact .inr hadmits
      · exact hopen.elim
  | timing =>
    have hs := hserves _ hm (by simp) (by simp)
    simp only [hm] at h
    split at h
    · exact honward h ⟨rfl, rfl⟩ ⟨rfl, rfl, rfl, rfl⟩ hs trivial (stops_stopped _) False.elim
    · exact hmoved h hs trivial fun _ => .inl (by rw [hm]; trivial)
  | measuring =>
    have hs := hserves _ hm (by simp) (by simp)
    simp only [hm] at h
    split at h
    · exact hmoved h hs trivial False.elim
    · split at h
      · exact honward h ⟨rfl, rfl⟩ ⟨rfl, rfl, rfl, rfl⟩ hs trivial (stops_stopped _) False.elim
      · exact hmoved h hs rfl fun _ => .inl (by rw [hm]; trivial)
  | waiting =>
    have hs := hserves _ hm (by simp) (by simp)
    simp only [hm] at h
    split at h
    · split at h
      · exact hmoved h hs trivial False.elim
      · exact hmoved h hs rfl False.elim
    · split at h
      · exact honward h ⟨rfl, rfl⟩ ⟨rfl, rfl, rfl, rfl⟩ hs trivial (stops_stopped _) False.elim
      · exact hmoved h hs trivial False.elim
  | sleeping wait =>
    have hs := hserves _ hm (by simp) (by simp)
    simp only [hm] at h
    split at h
    · exact honward h ⟨rfl, rfl⟩ ⟨rfl, rfl, rfl, rfl⟩ hs trivial (stops_stopped _) False.elim
    · exact honward h ⟨rfl, rfl⟩ ⟨rfl, rfl, rfl, rfl⟩ hs trivial ⟨id, id⟩ False.elim
  | settling =>
    have hs := hserves _ hm (by simp) (by simp)
    simp only [hm] at h
    split at h
    · exact hmoved h hs trivial False.elim
    · cases h
  | counted db =>
    simp only [hm] at h
    exact hmoved h (hserves _ hm (by simp) (by simp)) trivial False.elim

/-- **Every step is one of these.** -/
theorem stepped_of_step {move : Move} (h : s.step move = some t) : Stepped s move t := by
  unfold step at h
  cases move with
  | boot cfg =>
    dsimp only at h
    split at h
    · next hm =>
      obtain rfl := Option.some.inj h
      exact .boot cfg (.inl hm)
    · next db reason hm =>
      obtain rfl := Option.some.inj h
      exact .boot cfg (.inr ⟨db, reason, hm⟩)
    · cases h
  | crash =>
    obtain rfl := Option.some.inj h
    exact .dropped
  | run e => exact stepped_run h
  | worker id e =>
    dsimp only at h
    unfold stepWorker at h
    split at h
    · next i β f k hfind =>
      obtain rfl := Option.some.inj h
      obtain rfl : i = id := by simpa using List.find?_some hfind
      exact .works hfind
    · cases h
  | collect id =>
    dsimp only at h
    unfold collect at h
    dsimp only at h
    split at h <;> cases h
    · next hm => exact .leaves (.inl ⟨hm, .inl rfl⟩)
    · next hm => exact .leaves (.inl ⟨hm, .inr rfl⟩)
    · next hm => exact hm ▸ .leaves (.inr ⟨hm, rfl⟩)
    · next hm => exact hm ▸ .leaves (.inr ⟨hm, rfl⟩)
  | request a q =>
    dsimp only at h
    split at h
    · next hserves =>
      obtain rfl := Option.some.inj h
      exact .joins hserves
    · cases h
  | handler id e =>
    dsimp only at h
    unfold stepHandler at h
    split at h
    · next i a q β f k hfind =>
      obtain rfl := Option.some.inj h
      obtain rfl : i = id := by simpa using List.find?_some hfind
      exact .handles hfind
    · cases h
  | signal terminates =>
    dsimp only at h
    split at h
    · obtain rfl := Option.some.inj h
      exact .aside ⟨rfl, rfl⟩ ⟨rfl, rfl, rfl, rfl⟩ (.inl rfl) ⟨fun _ => rfl, id⟩
    · cases h
  | projection caught e =>
    dsimp only at h
    split at h
    · next hup =>
      obtain rfl := Option.some.inj h
      refine .aside ⟨rfl, rfl⟩ ⟨rfl, rfl, rfl, rfl⟩ ?_ (stops_stopped _)
      cases caught with
      | true => exact .inl rfl
      | false => exact .inr ⟨(Bool.and_eq_true _ _ ▸ hup).1, rfl⟩
    · cases h
  | outside fs engines =>
    obtain rfl := Option.some.inj h
    exact .aside ⟨rfl, rfl⟩ ⟨rfl, rfl, rfl, rfl⟩ (.inl rfl) ⟨id, id⟩

end

/-! ## What all programs do -/

/-- The programs that the controller runs take only steps of `R`. -/
structure Programs (R : World → Env → World → Prop) : Prop where
  startup : ∀ cfg, (startup cfg).Uses R
  admitNext : ∀ cfg, (admitNext cfg).Uses R
  retryWait : ∀ cfg, (query (retryWait cfg)).Uses R
  task : ∀ cfg (task : Task), (task.program cfg).Uses R
  control : ∀ cfg q a, (control cfg q a).Uses R

/-- What is left of the programs of the parties takes only steps of `R`. -/
structure Takes (R : World → Env → World → Prop) (s : Session) : Prop where
  starting : ∀ p, s.main = .starting p → p.Uses R
  admitting : ∀ p, s.main = .admitting p → p.Uses R
  asking : ∀ p, s.main = .asking p → p.Uses R
  workers : ∀ j ∈ s.workers, j.program.Uses R
  handlers : ∀ j ∈ s.handlers, j.program.Uses R

section
variable {R : World → Env → World → Prop} {s t : Session}

/-- A process that has only begun. -/
theorem takes_of_begins (hstarting : ∀ p, t.main = .starting p → p.Uses R)
    (hserves : t.serves = false) (hworkers : t.workers = []) (hhandlers : t.handlers = []) :
    t.Takes R where
  starting := hstarting
  admitting p hm := by simp [serves, hm] at hserves
  asking p hm := by simp [serves, hm] at hserves
  workers j hj := by rw [hworkers] at hj; cases hj
  handlers j hj := by rw [hhandlers] at hj; cases hj

/-- `run` is elsewhere, with the same parties. -/
theorem Takes.goes (h : s.Takes R) (hstarting : ∀ p, t.main = .starting p → p.Uses R)
    (hadmitting : ∀ p, t.main = .admitting p → p.Uses R)
    (hasking : ∀ p, t.main = .asking p → p.Uses R) (hworkers : ∀ j ∈ t.workers, j ∈ s.workers)
    (hhandlers : t.handlers = s.handlers) : t.Takes R where
  starting := hstarting
  admitting := hadmitting
  asking := hasking
  workers j hj := h.workers j (hworkers j hj)
  handlers := hhandlers ▸ h.handlers

/-- `run` is past its start. -/
theorem Takes.onward (hR : Programs R) (h : s.Takes R) (hmain : t.main.Onward s.cfg)
    (hworkers : ∀ j ∈ t.workers, j ∈ s.workers) (hhandlers : t.handlers = s.handlers) :
    t.Takes R := by
  refine h.goes (fun p hm => ?_) (fun p hm => ?_) (fun p hm => ?_) hworkers hhandlers <;>
    rw [hm] at hmain
  · exact hmain.elim
  · exact hmain ▸ hR.admitNext _
  · exact hmain ▸ hR.retryWait _

/-- **What all programs do, a session does**: it takes a step of `R`, leaves the database
    alone, or opens it again. -/
theorem Takes.step (hR : Programs R) (h : s.Takes R) {move : Move} (hs : s.step move = some t) :
    t.Takes R ∧
      (SameDb s.world t.world ∨ t.world = s.world.booted ∨ ∃ e, R s.world e t.world) := by
  have hstay : SameDb s.world s.world := .refl _
  cases stepped_of_step hs with
  | boot cfg _ =>
    refine ⟨takes_of_begins (fun p hm => ?_) rfl rfl rfl, .inr (.inl rfl)⟩
    cases hm
    exact hR.startup cfg
  | dropped =>
    exact ⟨takes_of_begins (fun p hm => by cases hm) rfl rfl rfl, .inl hstay⟩
  | starts hmain =>
    obtain ⟨hstep, hrest⟩ := h.starting _ hmain
    refine ⟨h.goes (fun p hm => ?_) (fun p hm => by cases hm) (fun p hm => by cases hm)
      (fun j hj => hj) rfl, .inr (.inr ⟨_, hstep s.world _⟩)⟩
    cases hm
    exact hrest _
  | started hmain => exact ⟨h.onward hR trivial (fun j hj => hj) rfl, .inl hstay⟩
  | admits hmain =>
    obtain ⟨hstep, hrest⟩ := h.admitting _ hmain
    refine ⟨h.goes (fun p hm => by cases hm) (fun p hm => ?_) (fun p hm => by cases hm)
      (fun j hj => hj) rfl, .inr (.inr ⟨_, hstep s.world _⟩)⟩
    cases hm
    exact hrest _
  | @hires e task hmain =>
    have hmoved : (s.moved .checking).Takes R := h.onward hR trivial (fun j hj => hj) rfl
    refine ⟨⟨hmoved.starting, hmoved.admitting, hmoved.asking, fun j hj => ?_, h.handlers⟩,
      .inl hstay⟩
    rcases List.mem_append.1 hj with hj | hj
    · exact h.workers j hj
    · obtain rfl := List.mem_singleton.1 hj
      exact hR.task s.cfg task
  | asks hmain =>
    obtain ⟨hstep, hrest⟩ := h.asking _ hmain
    refine ⟨h.goes (fun p hm => by cases hm) (fun p hm => by cases hm) (fun p hm => ?_)
      (fun j hj => hj) rfl, .inr (.inr ⟨_, hstep s.world _⟩)⟩
    cases hm
    exact hrest _
  | onward hdb hp hserves hmain =>
    exact ⟨h.onward hR hmain (fun j hj => hp.workers ▸ hj) hp.handlers, .inl hdb⟩
  | works hfind =>
    obtain ⟨hstep, hrest⟩ := h.workers _ (List.mem_of_find?_eq_some hfind)
    refine ⟨⟨h.starting, h.admitting, h.asking, fun j hj => ?_, h.handlers⟩,
      .inr (.inr ⟨_, hstep s.world _⟩)⟩
    obtain ⟨i, hi, rfl⟩ := List.mem_map.1 hj
    split
    · exact hrest _
    · exact h.workers i hi
  | leaves hmain =>
    refine ⟨h.onward hR ?_ (fun j hj => List.mem_of_mem_filter hj) rfl, .inl hstay⟩
    rcases hmain with ⟨-, rfl | rfl⟩ | ⟨-, rfl⟩ <;> trivial
  | joins =>
    refine ⟨⟨h.starting, h.admitting, h.asking, h.workers, fun j hj => ?_⟩, .inl hstay⟩
    rcases List.mem_append.1 hj with hj | hj
    · exact h.handlers j hj
    · obtain rfl := List.mem_singleton.1 hj
      exact hR.control _ _ _
  | handles hfind =>
    obtain ⟨hstep, hrest⟩ := h.handlers _ (List.mem_of_find?_eq_some hfind)
    refine ⟨⟨h.starting, h.admitting, h.asking, h.workers, fun j hj => ?_⟩,
      .inr (.inr ⟨_, hstep s.world _⟩)⟩
    obtain ⟨i, hi, rfl⟩ := List.mem_map.1 hj
    split
    · exact hrest _
    · exact h.handlers i hi
  | aside hdb hp hmain =>
    refine ⟨?_, .inl hdb⟩
    rcases hmain with hmain | ⟨-, hmain⟩
    · exact ⟨fun p hm => h.starting p (hmain ▸ hm), fun p hm => h.admitting p (hmain ▸ hm),
        fun p hm => h.asking p (hmain ▸ hm), hp.workers ▸ h.workers, hp.handlers ▸ h.handlers⟩
    · refine h.onward hR ?_ (fun j hj => hp.workers ▸ hj) hp.handlers
      rw [hmain]
      unfold Main.interrupted
      split <;> trivial

theorem takes_initial (cfg : Config) (fs : Lib.FileTree) : (initial cfg fs).Takes R :=
  takes_of_begins (fun p hm => by cases hm) rfl rfl rfl

end

end Session

end TodDl.Controller
