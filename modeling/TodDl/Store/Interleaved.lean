/-
  The live projection — workers and the control thread side by side.

  A thread commits a mutation in one step and makes the calls of its job in later
  steps, one at a time; between them other threads take steps of their own.
  `caughtUp s` is the projection once every outstanding job is done in the order
  of the commits.  A step that commits, or that serves the oldest outstanding
  job, keeps `caughtUp s` in sync with the database (`Behind.step`), and from it
  the runs of `interleaved_safe`.
-/
import TodDl.Store.Incremental

namespace TodDl.Store

open Db (Image)

/-- A thread between the commit of a mutation and the last call of its job. -/
structure Outstanding where
  thread : ℕ
  job : Job

/-- The controller while it runs: the database, the projection, and the
    outstanding jobs in the order of their commits. -/
structure Live where
  db : Db
  projection : Projection
  outstanding : List Outstanding := []

/-- A step of one thread. -/
inductive Live.Step where
  | commit (thread : ℕ) (m : Mutation)
  | call (thread : ℕ)

/-- The next call of a thread's job, with its revision and what is left of the
    outstanding jobs. -/
def nextCall (thread : ℕ) : List Outstanding → Option (ℕ × Apply × List Outstanding)
  | [] => none
  | o :: os =>
    if o.thread = thread then
      match o.job.applies with
      | [] => none
      | [a] => some (o.job.revision, a, os)
      | a :: as => some (o.job.revision, a, ⟨o.thread, ⟨o.job.revision, as⟩⟩ :: os)
    else (nextCall thread os).map fun c => (c.1, c.2.1, o :: c.2.2)

namespace Live
variable (runId : String)

/-- Puts the job of a commit behind the others, unless there is nothing to tell. -/
def enqueue (thread : ℕ) (j : Job) (os : List Outstanding) : List Outstanding :=
  if j.applies.isEmpty then os else os ++ [⟨thread, j⟩]

/-- One step.  A thread commits when it has no job left; workers change items of
    the run only. -/
def step (s : Live) : Step → Option Live
  | .commit thread m =>
    if m.OfSelected runId s.db ∧ thread ∉ s.outstanding.map (·.thread) then
      some ⟨(m.commit runId s.db).1, s.projection,
        enqueue thread (m.commit runId s.db).2 s.outstanding⟩
    else none
  | .call thread =>
    (nextCall thread s.outstanding).map fun (revision, a, os) =>
      ⟨s.db, s.projection.perform revision a, os⟩

/-- The step serves the oldest outstanding job, if it serves one. -/
def InCommitOrder (s : Live) : Step → Prop
  | .commit _ _ => True
  | .call thread => (s.outstanding.head?.map (·.thread)) = some thread

instance (s : Live) (l : Step) : Decidable (s.InCommitOrder l) := by
  cases l <;> unfold InCommitOrder <;> infer_instance

/-- The start of a session: a fresh projection. -/
def start (db : Db) (maxAttempts : ℤ) : Live := ⟨db, Projection.hydrate db runId maxAttempts, []⟩

/-- The projection once every outstanding job is done. -/
def caughtUp (s : Live) : Projection :=
  s.outstanding.foldl (fun p o => p.performAll o.job) s.projection

/-- The projection is behind the database by the outstanding jobs. -/
structure Behind (maxAttempts : ℤ) (s : Live) : Prop where
  ranked : WellRanked s.db runId
  distinct : DistinctIds s.db runId
  attempts : s.caughtUp.maxAttempts = maxAttempts
  retries : RetriesReflect (s.db.images runId) s.caughtUp
  latest : s.caughtUp.revision = s.db.revision runId
  notEmpty : ∀ o ∈ s.outstanding, o.job.applies ≠ []
  /-- the revisions rise from the projection over the jobs to the database -/
  rising : (s.projection.revision :: s.outstanding.map (·.job.revision)).Pairwise (· ≤ ·)
  bounded : ∀ r ∈ s.projection.revision :: s.outstanding.map (·.job.revision),
    r ≤ s.db.revision runId

variable {runId} {maxAttempts : ℤ} {s t : Live}

theorem behind_start {db : Db} (hw : WellRanked db runId) (hd : DistinctIds db runId) :
    Behind runId maxAttempts (start runId db maxAttempts) := by
  have h := hydrate_synced hw hd maxAttempts
  refine ⟨hw, hd, maxAttempts_hydrate .., h.retries, h.revision, by simp [start], by simp [start], ?_⟩
  simp [start, h.revision]

/-- Doing one call of the oldest job early does not change what is caught up to. -/
theorem nextCall_oldest {os os' : List Outstanding} {thread revision : ℕ} {a : Apply}
    (hhead : os.head?.map (·.thread) = some thread)
    (h : nextCall thread os = some (revision, a, os')) :
    (∃ rest, os.map (·.job.revision) = revision :: rest ∧
      (os'.map (·.job.revision) = rest ∨ os'.map (·.job.revision) = revision :: rest)) ∧
    ((∀ o ∈ os, o.job.applies ≠ []) → ∀ o ∈ os', o.job.applies ≠ []) ∧
    ∀ p : Projection, os.foldl (fun p o => p.performAll o.job) p =
      os'.foldl (fun p o => p.performAll o.job) (p.perform revision a) := by
  cases os with
  | nil => cases hhead
  | cons o os =>
    obtain rfl : o.thread = thread := Option.some.inj hhead
    obtain ⟨thread, r, as⟩ := o
    rw [nextCall, if_pos rfl] at h
    rcases as with - | ⟨b, - | ⟨c, as⟩⟩
    · cases h
    · obtain ⟨rfl, rfl, rfl⟩ : r = revision ∧ b = a ∧ os = os' := by simpa using h
      exact ⟨⟨_, rfl, .inl rfl⟩, fun hne o ho => hne o (List.mem_cons_of_mem _ ho), fun _ => rfl⟩
    · obtain ⟨rfl, rfl, rfl⟩ : r = revision ∧ b = a ∧
          (⟨thread, ⟨r, c :: as⟩⟩ : Outstanding) :: os = os' := by simpa using h
      refine ⟨⟨_, rfl, .inr rfl⟩, fun hne o ho => ?_, fun _ => rfl⟩
      rcases List.mem_cons.1 ho with rfl | ho
      · exact List.cons_ne_nil _ _
      · exact hne o (List.mem_cons_of_mem _ ho)

theorem mem_enqueue {thread : ℕ} {j : Job} {os : List Outstanding} {o : Outstanding}
    (h : o ∈ enqueue thread j os) : o ∈ os ∨ o = ⟨thread, j⟩ ∧ j.applies ≠ [] := by
  unfold enqueue at h
  split at h
  · exact .inl h
  · next hne =>
    rcases List.mem_append.1 h with h | h
    · exact .inl h
    · exact .inr ⟨List.mem_singleton.1 h, by simpa using hne⟩

theorem foldl_enqueue (thread : ℕ) (j : Job) (os : List Outstanding) (p : Projection) :
    (enqueue thread j os).foldl (fun p o => p.performAll o.job) p =
      (os.foldl (fun p o => p.performAll o.job) p).performAll j := by
  unfold enqueue
  split
  · next h =>
    obtain ⟨r, as⟩ := j
    obtain rfl : as = [] := List.isEmpty_iff.1 h
    rfl
  · rw [List.foldl_append]; rfl

/-- A commit puts its job behind the others. -/
theorem Behind.commit (h : Behind runId maxAttempts s) {thread : ℕ} {m : Mutation}
    (hm : m.OfSelected runId s.db) :
    Behind runId maxAttempts ⟨(m.commit runId s.db).1, s.projection,
      enqueue thread (m.commit runId s.db).2 s.outstanding⟩ := by
  have htold := commit_told h.distinct hm
  set db' := (m.commit runId s.db).1
  set j := (m.commit runId s.db).2
  have hup : caughtUp ⟨db', s.projection, enqueue thread j s.outstanding⟩ =
      s.caughtUp.performAll j := foldl_enqueue ..
  have hle : s.db.revision runId ≤ db'.revision runId := by
    rcases htold.revision with ⟨-, hrev⟩ | ⟨-, -, hrev⟩ <;> omega
  have hnew : j.applies ≠ [] → j.revision = db'.revision runId := by
    rcases htold.revision with ⟨hnil, -⟩ | ⟨-, hrev, -⟩
    · exact fun hne => absurd hnil hne
    · exact fun _ => hrev
  refine ⟨htold.same.wellRanked h.ranked, htold.same.distinctIds h.distinct, ?_, ?_, ?_, ?_, ?_, ?_⟩
  · rw [hup, maxAttempts_performAll, h.attempts]
  · rw [hup]; exact htold.retries h.retries
  · rw [hup]; exact htold.revision_eq h.latest
  · intro o ho
    rcases mem_enqueue ho with ho | ⟨rfl, hne⟩
    · exact h.notEmpty o ho
    · exact hne
  · show List.Pairwise _ (_ :: (enqueue thread j s.outstanding).map _)
    unfold enqueue
    split
    · exact h.rising
    · next hne =>
      rw [List.map_append, ← List.cons_append, List.pairwise_append]
      refine ⟨h.rising, List.pairwise_singleton _ _, fun r hr r' hr' => ?_⟩
      obtain rfl : r' = j.revision := List.mem_singleton.1 hr'
      have := h.bounded r hr
      have := hnew (by simpa using hne)
      omega
  · intro r hr
    rcases List.mem_cons.1 hr with rfl | hr
    · exact (h.bounded _ List.mem_cons_self).trans hle
    · obtain ⟨o, ho, rfl⟩ := List.mem_map.1 hr
      rcases mem_enqueue ho with ho | ⟨rfl, hne⟩
      · exact (h.bounded _ (List.mem_cons_of_mem _ (List.mem_map_of_mem ho))).trans hle
      · exact (hnew hne).le

/-- A call of the oldest job moves the projection towards the database. -/
theorem Behind.call (h : Behind runId maxAttempts s) {thread revision : ℕ} {a : Apply}
    {os : List Outstanding} (hhead : s.outstanding.head?.map (·.thread) = some thread)
    (hnext : nextCall thread s.outstanding = some (revision, a, os)) :
    Behind runId maxAttempts ⟨s.db, s.projection.perform revision a, os⟩ ∧
      s.projection.revision ≤ revision := by
  obtain ⟨⟨rest, hold, hnew⟩, hne, hup⟩ := nextCall_oldest hhead hnext
  have hsame : caughtUp ⟨s.db, s.projection.perform revision a, os⟩ = s.caughtUp := (hup _).symm
  have hrising := h.rising
  have hbounded := h.bounded
  rw [hold, List.pairwise_cons] at hrising
  rw [hold] at hbounded
  obtain ⟨hfirst, hrest⟩ := hrising
  refine ⟨⟨h.ranked, h.distinct, ?_, ?_, ?_, hne h.notEmpty, ?_, ?_⟩,
    hfirst _ List.mem_cons_self⟩
  · rw [hsame, h.attempts]
  · rw [hsame]; exact h.retries
  · rw [hsame]; exact h.latest
  · rw [revision_perform]
    rcases hnew with hnew | hnew
    · rw [hnew]; exact hrest
    · rw [hnew, List.pairwise_cons]
      refine ⟨fun r hr => ?_, hrest⟩
      rcases List.mem_cons.1 hr with rfl | hr
      · exact le_rfl
      · exact (List.pairwise_cons.1 hrest).1 r hr
  · rw [revision_perform]
    intro r hr
    refine hbounded r ?_
    rcases hnew with hnew | hnew <;> rw [hnew] at hr <;> simp only [List.mem_cons] at hr ⊢ <;> tauto

/-- **Each step in the order of the commits** keeps the projection behind the
    database and its revision from falling. -/
theorem Behind.step (h : Behind runId maxAttempts s) {l : Step} (hl : s.InCommitOrder l)
    (hs : s.step runId l = some t) :
    Behind runId maxAttempts t ∧ s.projection.revision ≤ t.projection.revision := by
  cases l with
  | commit thread m =>
    rw [Live.step] at hs
    split at hs
    · next hc =>
      obtain rfl := Option.some.inj hs
      exact ⟨h.commit hc.1, le_rfl⟩
    · cases hs
  | call thread =>
    obtain ⟨⟨revision, a, os⟩, hnext, rfl⟩ := Option.map_eq_some_iff.1 hs
    obtain ⟨hb, hle⟩ := h.call hl hnext
    exact ⟨hb, by simpa using hle⟩

/-- With nothing outstanding the revision and the retry index are fresh. -/
theorem Behind.fresh (h : Behind runId maxAttempts s) (hnone : s.outstanding = []) :
    s.projection.revision = (Projection.hydrate s.db runId maxAttempts).revision ∧
      s.projection.retries = (Projection.hydrate s.db runId maxAttempts).retries := by
  have hup : s.caughtUp = s.projection := by rw [caughtUp, hnone]; rfl
  have hfresh := hydrate_synced h.ranked h.distinct maxAttempts
  refine ⟨?_, Finmap.ext_lookup fun k => ?_⟩
  · rw [← hup, h.latest, hfresh.revision]
  · rw [← hup, h.retries, hfresh.retries, h.attempts, maxAttempts_hydrate]

end Live

/-- Nothing later lowers the revision, and with nothing outstanding the revision
    and the retry index are those of a fresh projection. -/
structure SafeNow (runId : String) (maxAttempts : ℤ) (C : Live → Live.Step → Prop) (s : Live) :
    Prop where
  revision : ∀ t, Lib.GRun (Live.step runId) C s t →
    s.projection.copy.revision ≤ t.projection.copy.revision
  fresh : s.outstanding = [] →
    s.projection.copy.revision = (Projection.hydrate s.db runId maxAttempts).copy.revision ∧
    s.projection.copy.retryCount = (Projection.hydrate s.db runId maxAttempts).copy.retryCount ∧
    s.projection.copy.retryAt = (Projection.hydrate s.db runId maxAttempts).copy.retryAt ∧
    s.projection.copy.retryError = (Projection.hydrate s.db runId maxAttempts).copy.retryError

/-- Runs of any threads that make their calls in the order of the commits. -/
theorem interleaved_safe {db : Db} {runId : String} {maxAttempts : ℤ} {s : Live}
    (hw : WellRanked db runId) (hd : DistinctIds db runId)
    (hrun : Lib.GRun (Live.step runId) Live.InCommitOrder (Live.start runId db maxAttempts) s) :
    SafeNow runId maxAttempts Live.InCommitOrder s := by
  have hbehind : Live.Behind runId maxAttempts s :=
    hrun.invariant (Live.Behind runId maxAttempts) (Live.behind_start hw hd)
      fun _ _ _ h hl hs => (h.step hl hs).1
  refine ⟨fun t hrun' => ?_, fun hnone => ?_⟩
  · exact (hrun'.monotone (Live.Behind runId maxAttempts)
      (fun a b => a.projection.revision ≤ b.projection.revision) hbehind (fun _ => le_rfl)
      (fun _ _ _ => le_trans) fun _ _ _ h hl hs => h.step hl hs).2
  · obtain ⟨hrev, hret⟩ := hbehind.fresh hnone
    exact ⟨hrev, by simp only [Projection.copy, hret],
      by simp only [Projection.copy, Projection.firstRetry, Projection.retryTuples, hret],
      by simp only [Projection.copy, Projection.firstRetry, Projection.retryTuples, hret]⟩

/-! ## A thread that overtakes another -/

/-- A worker puts the item in retry_wait; the control thread excludes it before the
    worker has told the projection. -/
def twoCommits : List Live.Step :=
  [.commit 1 (.transition "https://host/set/a.bin" .retryWait none [.nextRetryAt 5] ⟨1, ""⟩),
   .commit 0 (.excludeItem (askFor 1) ⟨2, ""⟩)]

/-- When the control thread comes first, the projection ends with the older
    revision and the retry of an excluded item. -/
theorem overtaken_unsafe : ¬ ∀ (db : Db) (runId : String) (maxAttempts : ℤ) (s : Live),
    WellRanked db runId → DistinctIds db runId →
    Lib.GRun (Live.step runId) (fun _ _ => True) (Live.start runId db maxAttempts) s →
    SafeNow runId maxAttempts (fun _ _ => True) s := by
  intro h
  set after := Lib.exec (Live.step "run") (fun _ _ => True) (Live.start "run" oneItemDb 6)
    (twoCommits ++ [.call 0, .call 1]) with hafter
  obtain ⟨s, hs⟩ : ∃ s, after = some s := Option.isSome_iff_exists.1 (by decide +kernel)
  have hstale : after.all fun s => s.outstanding.isEmpty &&
      s.projection.copy.revision ≠ (Projection.hydrate s.db "run" 6).copy.revision := by
    decide +kernel
  rw [hs] at hstale
  simp only [Option.all_some, Bool.and_eq_true, List.isEmpty_iff, decide_eq_true_eq] at hstale
  have hsafe := h oneItemDb "run" 6 s wellRanked_oneItemDb (by decide)
    (Lib.GRun.of_exec (hafter ▸ hs))
  exact hstale.2 (hsafe.fresh hstale.1).1

/-- The same commits, told in their order. -/
def servedInOrder : Live :=
  (Lib.exec (Live.step "run") Live.InCommitOrder (Live.start "run" oneItemDb 6)
    (twoCommits ++ [.call 1, .call 0])).get (by decide +kernel)

theorem interleaved_safe_servedInOrder : SafeNow "run" 6 Live.InCommitOrder servedInOrder :=
  interleaved_safe wellRanked_oneItemDb (by decide)
    (Lib.GRun.of_exec (Option.some_get _).symm)

end TodDl.Store
