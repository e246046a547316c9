/-
  The controller — the dry run (tod-dl.py, `dry_run`, `scope_run`).

  `dryRun` and `scopeCounts` are two loops over one queue.  `dryRun` reports each entry
  that it reaches; `scopeCounts` is `scope_run` with both of its results, and
  `scopeCounts_fst` says that its first one is that of `scopeRun`.

  `foretold_iff`: the first `scope_run` of a run selects what the dry run reports as
  missing exactly if it reaches no final that it would have to record as verified.
-/
import TodDl.Controller.Queue
import TodDl.Controller.Selection

namespace TodDl.Controller

open Lib (Path FileTree Prog BatchStep)
open Store (Db Row RunItem Status truthy scopeRunTrackedStatuses)

variable (cfg : Config)

/-! ## `scope_run` with both of its results -/

/-- The body of the loop of `scope_run`: the counts of selected and existing entries after
    it. -/
def scopeRound (entry : QueueEntry) (selected existing : ℕ) : Ctl (ℕ × ℕ) := do
  let (_, target) ← resolvedStorageTarget cfg entry.rel entry.url
  if ← pathExists target then
    let status ← dbLook fun db _ => (db.downloads.find? entry.url).map (·.status)
    if !status.any (· ∈ scopeRunTrackedStatuses) then
      reconcileExistingFile cfg entry.url purePath purePath target entry.expectedSha256
    return (selected, existing + 1)
  else do
    dbChange fun db _ => db.insertRunItem ⟨cfg.runId, entry.url, selected⟩
    return (selected + 1, existing)

/-- The loop of `scope_run`. -/
def scopeRounds : List QueueEntry → ℕ → ℕ → Ctl (ℕ × ℕ)
  | [], selected, existing => return (selected, existing)
  | entry :: rest, selected, existing =>
    if cfg.limitReached selected then return (selected, existing)
    else do
      let (selected, existing) ← scopeRound cfg entry selected existing
      scopeRounds rest selected existing

/-- `scope_run(db)`: the counts of selected and of existing entries. -/
def scopeCounts : Ctl (ℕ × ℕ) := do
  dbChange fun db _ => db.openRevision cfg.runId
  let previous ← dbLook fun db _ => (db.runUrls cfg.runId).length
  if previous ≠ 0 then do
    dbCommit fun db _ => .ok db
    return (previous, 0)
  else do
    let (selected, existing) ← scopeRounds cfg cfg.queue.rows 0 0
    dbCommit fun db _ => .ok (db.advanceRevision cfg.runId)
    return (selected, existing)

/-! ## `dry_run` -/

/-- A line that `dry_run` prints for an entry. -/
inductive DryLine where
  | existing (target : Path)
  | missing (target : Path) (url : String)
  deriving DecidableEq

/-- The counts of `dry_run` and what it has printed. -/
structure DryRun where
  existing : ℕ := 0
  missing : ℕ := 0
  selected : ℕ := 0
  printed : List DryLine := []

/-- The body of the loop of `dry_run`. -/
def dryRound (entry : QueueEntry) (d : DryRun) : Ctl DryRun := do
  let (_, target) ← resolvedStorageTarget cfg entry.rel entry.url
  if ← pathExists target then
    return { d with existing := d.existing + 1, printed := d.printed ++ [.existing target] }
  else
    return { d with
      selected := d.selected + 1, missing := d.missing + 1
      printed := d.printed ++ [.missing target entry.url] }

/-- The loop of `dry_run`. -/
def dryRounds : List QueueEntry → DryRun → Ctl DryRun
  | [], d => return d
  | entry :: rest, d =>
    if cfg.limitReached d.selected then return d
    else do
      let d ← dryRound cfg entry d
      dryRounds rest d

/-- `dry_run()` -/
def dryRun : Ctl DryRun := dryRounds cfg cfg.queue.rows {}

/-- The URLs that are reported as missing. -/
def DryRun.missingUrls (d : DryRun) : List String := d.printed.filterMap fun
  | .existing _ => none
  | .missing _ url => some url

/-! ## One entry -/

section
variable {cfg} {w w' : World} {entry : QueueEntry} {rest : List QueueEntry}

/-- Counting existing entries changes nothing else. -/
theorem scopeRound_eq (n e : ℕ) : scopeRound cfg entry n e =
    (scopeEntry cfg entry n).bind fun m => .ret (m, if m = n then e + 1 else e) := by
  simp only [scopeRound, scopeEntry, Prog.bind_eq, Prog.bind_assoc]
  refine congrArg _ (funext fun p => congrArg _ (funext fun there => ?_))
  cases there with
  | false => simp [Prog.bind_assoc]
  | true =>
    simp only [if_true, Prog.bind_assoc]
    refine congrArg _ (funext fun status => ?_)
    split <;> simp [Prog.bind_assoc]

theorem scopeRounds_fst (rest : List QueueEntry) (n e : ℕ) :
    (scopeRounds cfg rest n e).bind (fun p => .ret p.1) = scopeEntries cfg rest n := by
  induction rest generalizing n e with
  | nil => rfl
  | cons entry rest ih =>
    rw [scopeRounds, scopeEntries]
    split
    · rfl
    · simp only [Prog.bind_eq, scopeRound_eq, Prog.bind_assoc, Prog.ret_bind, ih]

/-- **The first result is that of `scopeRun`.** -/
theorem scopeCounts_fst : (scopeCounts cfg).bind (fun p => .ret p.1) = scopeRun cfg := by
  simp only [scopeCounts, scopeRun, scopeSelection, Prog.bind_eq, Prog.bind_assoc]
  refine congrArg _ (funext fun _ => congrArg _ (funext fun previous => ?_))
  split
  · simp only [Prog.bind_assoc, Prog.pure_eq, Prog.ret_bind]
  · rw [← scopeRounds_fst _ 0 0]
    simp only [Prog.bind_assoc, Prog.pure_eq, Prog.ret_bind]

end

/-! ## What the loops report -/

/-- The URLs of the entries that are selected. -/
def inserted (l : List (QueueEntry × BatchStep)) : List String :=
  (l.filter (·.2 = .insert)).map (·.1.url)

/-- The line that `dry_run` prints for an entry that it reaches. -/
def World.dryLine (w : World) (p : QueueEntry × BatchStep) : DryLine :=
  if p.2 = .insert then .missing (w.targetOf cfg p.1) p.1.url else .existing (w.targetOf cfg p.1)

/-- The counts after a line. -/
def DryRun.note (d : DryRun) : DryLine → DryRun
  | .existing target =>
    { d with existing := d.existing + 1, printed := d.printed ++ [.existing target] }
  | .missing target url =>
    { d with
      selected := d.selected + 1, missing := d.missing + 1
      printed := d.printed ++ [.missing target url] }

/-- The dry run after some entries. -/
def World.dryAfter (w : World) (d : DryRun) (l : List (QueueEntry × BatchStep)) : DryRun :=
  l.foldl (fun d p => d.note (w.dryLine cfg p)) d

section
variable {cfg} {w w' : World} {entry : QueueEntry} {rest : List QueueEntry} {d : DryRun}
  {l : List (QueueEntry × BatchStep)} {n e : ℕ}

theorem scopeStep_eq_insert :
    w.scopeStep cfg entry = .insert ↔ w.fs.pathExists (w.targetOf cfg entry) = false := by
  constructor
  · intro h
    by_contra hthere
    unfold World.scopeStep at h
    rw [Bool.not_eq_false] at hthere
    rw [hthere] at h
    simp only [Bool.not_true, Bool.false_eq_true, if_false] at h
    split at h
    · cases h
    · split at h
      · cases h
      · split at h <;> cases h
  · exact scopeStep_missing

/-- The rows of a selection are its URLs by rank. -/
theorem selection_eq (runId : String) (l : List (QueueEntry × BatchStep)) (rank : ℕ) :
    selection runId l rank = ((inserted l).zipIdx rank).map fun p => ⟨runId, p.1, p.2⟩ := by
  induction l generalizing rank with
  | nil => rfl
  | cons p l ih =>
    obtain ⟨entry, step⟩ := p
    rw [selection]
    split
    · next h => simp [inserted, h, ih]
    · next h => simp [inserted, h, ih]

/-- What the dry run has counted and printed. -/
structure World.Counted (cfg : Config) (w : World) (d : DryRun) (l : List (QueueEntry × BatchStep))
    (after : DryRun) : Prop where
  selected : after.selected = d.selected + (inserted l).length
  missing : after.missing = d.missing + (inserted l).length
  existing : after.existing + (inserted l).length = d.existing + l.length
  urls : after.missingUrls = d.missingUrls ++ inserted l

theorem inserted_cons (entry : QueueEntry) (step : BatchStep)
    (l : List (QueueEntry × BatchStep)) : inserted ((entry, step) :: l) =
      if step = .insert then entry.url :: inserted l else inserted l := by
  unfold inserted
  split <;> simp [*]

theorem World.Counted.cons {p : QueueEntry × BatchStep} {after : DryRun}
    (h : w.Counted cfg (d.note (w.dryLine cfg p)) l after) : w.Counted cfg d (p :: l) after := by
  obtain ⟨entry, step⟩ := p
  obtain ⟨hselected, hmissing, hexisting, hurls⟩ := h
  by_cases hstep : step = .insert
  · have hline : w.dryLine cfg (entry, step) = .missing (w.targetOf cfg entry) entry.url :=
      if_pos hstep
    rw [hline] at hselected hmissing hexisting hurls
    simp only [DryRun.note] at hselected hmissing hexisting
    constructor <;> rw [inserted_cons, if_pos hstep]
    · rw [hselected, List.length_cons]
      omega
    · rw [hmissing, List.length_cons]
      omega
    · rw [List.length_cons, List.length_cons]
      omega
    · rw [hurls]
      simp [DryRun.note, DryRun.missingUrls]
  · have hline : w.dryLine cfg (entry, step) = .existing (w.targetOf cfg entry) := if_neg hstep
    rw [hline] at hselected hmissing hexisting hurls
    simp only [DryRun.note] at hselected hmissing hexisting
    constructor <;> rw [inserted_cons, if_neg hstep]
    · exact hselected
    · exact hmissing
    · rw [List.length_cons]
      omega
    · rw [hurls]
      simp [DryRun.note, DryRun.missingUrls]

theorem counted_dryAfter (cfg : Config) (w : World) (d : DryRun) (l : List (QueueEntry × BatchStep)) :
    w.Counted cfg d l (w.dryAfter cfg d l) := by
  induction l generalizing d with
  | nil => exact ⟨rfl, rfl, rfl, by simp [World.dryAfter, inserted]⟩
  | cons p l ih => exact (ih (d.note (w.dryLine cfg p))).cons

/-! ## The loops -/

theorem ends_dryRound {x : Except Exc DryRun} (h : (dryRound cfg entry d).Ends Calm w x w') :
    w' = w ∧ x = .ok (d.note (w.dryLine cfg (entry, w.scopeStep cfg entry))) := by
  obtain ⟨⟨stored, target⟩, w₁, h₁, hrest⟩ | ⟨_, -, herr⟩ := Prog.ends_bind.1 h
  · obtain ⟨hr, rfl⟩ := ends_osLook_total h₁
    obtain rfl : target = w₁.targetOf cfg entry := congrArg Prod.snd (Except.ok.inj hr)
    obtain ⟨there, w₂, h₂, hrest⟩ | ⟨_, -, herr⟩ := Prog.ends_bind.1 hrest
    · obtain ⟨hr, rfl⟩ := ends_osLook_total h₂
      obtain rfl := Except.ok.inj hr
      split at hrest
      · next hthere =>
        obtain ⟨rfl, rfl⟩ := hrest
        have hstep : w'.scopeStep cfg entry ≠ .insert := fun hs => by
          rw [scopeStep_eq_insert.1 hs] at hthere
          cases hthere
        exact ⟨rfl, by rw [World.dryLine, if_neg hstep]; rfl⟩
      · next hmissing =>
        obtain ⟨rfl, rfl⟩ := hrest
        have hstep : w'.scopeStep cfg entry = .insert :=
          scopeStep_eq_insert.2 (by simpa using hmissing)
        exact ⟨rfl, by rw [World.dryLine, if_pos hstep]; rfl⟩
    · obtain ⟨hx, -⟩ := ends_osLook_total herr
      cases hx
  · obtain ⟨hx, -⟩ := ends_osLook_total herr
    cases hx

/-- **The dry run** changes nothing and reports every entry that it reaches. -/
theorem ends_dryRounds {x : Except Exc DryRun} (h : (dryRounds cfg rest d).Ends Calm w x w') :
    w' = w ∧ x = .ok (w.dryAfter cfg d (w.reached cfg rest d.selected)) := by
  induction rest generalizing d w with
  | nil =>
    obtain ⟨rfl, rfl⟩ := h
    exact ⟨rfl, rfl⟩
  | cons entry rest ih =>
    unfold dryRounds at h
    rw [World.reached]
    cases hlimit : cfg.limitReached d.selected with
    | true =>
      rw [if_pos hlimit] at h
      obtain ⟨rfl, rfl⟩ := h
      exact ⟨rfl, rfl⟩
    | false =>
      rw [if_neg (by simp [hlimit])] at h
      obtain ⟨d', w₁, h₁, h₂⟩ | ⟨exc, rfl, h₁⟩ := Prog.ends_bind.1 h
      · obtain ⟨rfl, hd⟩ := ends_dryRound h₁
        obtain rfl := Except.ok.inj hd
        obtain ⟨rfl, rfl⟩ := ih h₂
        refine ⟨rfl, ?_⟩
        have hselected : (d.note (w'.dryLine cfg (entry, w'.scopeStep cfg entry))).selected =
            if w'.scopeStep cfg entry = .insert then d.selected + 1 else d.selected := by
          rw [World.dryLine]
          split <;> rfl
        rw [hselected]
        rfl
      · obtain ⟨-, hx⟩ := ends_dryRound h₁
        cases hx

/-- How the counting loop ends: at a failure, or with all entries counted. -/
theorem ends_scopeRounds {x : Except Exc (ℕ × ℕ)} (hn : (rest.map (·.url)).Nodup)
    (h : (scopeRounds cfg rest n e).Ends Calm w x w') :
    (.fail ∈ w.steps cfg rest n ∧ ∃ exc, x = .error exc) ∨
      (.fail ∉ w.steps cfg rest n ∧ ∃ m k, x = .ok (m, k) ∧
        m = n + (inserted (w.reached cfg rest n)).length ∧
        k + (inserted (w.reached cfg rest n)).length = e + (w.reached cfg rest n).length) := by
  induction rest generalizing w n e with
  | nil =>
    obtain ⟨rfl, rfl⟩ := h
    exact .inr ⟨by simp [World.steps, World.reached], n, e, rfl, rfl, rfl⟩
  | cons entry rest ih =>
    unfold scopeRounds at h
    cases hlimit : cfg.limitReached n with
    | true =>
      rw [if_pos hlimit] at h
      obtain ⟨rfl, rfl⟩ := h
      refine .inr ⟨by simp [World.steps, World.reached, hlimit], n, e, rfl, ?_⟩
      simp [World.reached, hlimit, inserted]
    | false =>
      rw [if_neg (by simp [hlimit]), Prog.bind_eq, scopeRound_eq, Prog.bind_assoc] at h
      have hcons : ∀ {step : BatchStep} {w₁ : World}, w.scopeStep cfg entry = step →
          (∀ k, w₁.reached cfg rest k = w.reached cfg rest k) →
          w.reached cfg (entry :: rest) n = (entry, step) ::
            w₁.reached cfg rest (if step = .insert then n + 1 else n) := by
        intro step w₁ hstep hreach
        simp [World.reached, hlimit, hstep, hreach]
      have hn' := (List.nodup_cons.1 hn).2
      obtain ⟨m, w₁, h₁, h₂⟩ | ⟨exc, rfl, h₁⟩ := Prog.ends_bind.1 h
      · have hround := ends_scopeEntry h₁
        generalize hstep : w.scopeStep cfg entry = step at hround
        have hreach : ∀ k, w₁.reached cfg rest k = w.reached cfg rest k := by
          cases hround with
          | insert => exact reached_congr rfl rfl fun _ _ => rfl
          | skip => exact fun _ => rfl
          | commit hset => exact hset.reached hn
        have hm : m = if step = .insert then n + 1 else n := by cases hround <;> rfl
        have hstep' : step ≠ .fail := by rintro rfl; cases hround
        rw [Prog.ret_bind, hm] at h₂
        unfold World.steps
        rw [hcons hstep hreach, inserted_cons, List.map_cons, List.length_cons]
        rcases ih hn' h₂ with ⟨hfail, hx⟩ | ⟨hfail, m, k, rfl, hm, hk⟩
        · exact .inl ⟨List.mem_cons_of_mem _ hfail, hx⟩
        · have hfail' : .fail ∉ step :: (w₁.steps cfg rest (if step = .insert then n + 1 else n)) :=
            fun hmem => (List.mem_cons.1 hmem).elim (fun h => hstep' h.symm) hfail
          refine .inr ⟨hfail', m, k, rfl, ?_⟩
          by_cases hins : step = .insert
          · simp only [hins, if_true, Nat.succ_ne_self, if_false, List.length_cons] at hm hk ⊢
            omega
          · simp only [hins, if_false, if_true] at hm hk ⊢
            omega
      · have hround := ends_scopeEntry h₁
        generalize hstep : w.scopeStep cfg entry = step at hround
        cases hround with
        | fail hu =>
          exact .inl ⟨by simp [World.steps, World.reached, hlimit, hstep], exc, rfl⟩

end

/-! ## The whole runs -/

section
variable {cfg} {w w' : World}

/-- How the first `scope_run` of a run ends. -/
theorem ends_scopeCounts (hfresh : runRows cfg.runId w.disk = []) {x : Except Exc (ℕ × ℕ)}
    (h : (scopeCounts cfg).Ends Calm w.restarted x w') :
    (.fail ∈ w.batch cfg ∧ ∃ exc, x = .error exc) ∨
      (.fail ∉ w.batch cfg ∧ runRows cfg.runId w'.disk = w.selected cfg ∧ ∃ m k, x = .ok (m, k) ∧
        m = (inserted (w.restarted.reached cfg cfg.queue.rows 0)).length ∧
        k + m = (w.restarted.reached cfg cfg.queue.rows 0).length) := by
  have hrows : runRows cfg.runId w'.disk =
      (w.selected cfg).take (BatchStep.persisted (0, 0) (w.batch cfg)) := by
    refine ends_fresh hfresh (x := x.map Prod.fst) ?_
    rw [← scopeCounts_fst]
    cases x with
    | ok p => exact Prog.ends_bind.2 (.inl ⟨p, w', h, rfl, rfl⟩)
    | error exc => exact Prog.ends_bind.2 (.inr ⟨exc, rfl, h⟩)
  have hlen : (w.disk.runUrls cfg.runId).length = 0 := by
    rw [Db.runUrls, List.length_map]
    exact List.length_eq_zero_iff.2 hfresh
  have hsteps : (w.restarted.opened cfg).steps cfg cfg.queue.rows 0 = w.batch cfg := by
    rw [World.steps, reached_opened]
    rfl
  obtain ⟨_, w₁, h₁, h⟩ | ⟨_, -, herr⟩ := Prog.ends_bind.1 h
  · obtain ⟨_, -, -, rfl⟩ := ends_dbChange_calm h₁
    obtain ⟨previous, w₂, h₂, h⟩ | ⟨_, -, herr⟩ := Prog.ends_bind.1 h
    · obtain ⟨_, -, hp, rfl⟩ := ends_dbLook_calm h₂
      obtain rfl : previous = 0 := (Except.ok.inj hp).trans hlen
      rw [if_neg (not_not.2 rfl)] at h
      obtain ⟨⟨m, k⟩, w₃, h₃, h⟩ | ⟨exc, rfl, h₃⟩ := Prog.ends_bind.1 h
      · rcases ends_scopeRounds cfg.queue.nodup h₃ with ⟨-, _, hx⟩ | ⟨hfail, m', k', hx, hm, hk⟩
        · cases hx
        · obtain ⟨rfl, rfl⟩ := Prod.mk.inj (Except.ok.inj hx)
          change .fail ∉ (w.restarted.opened cfg).steps cfg cfg.queue.rows 0 at hfail
          change m = 0 + (inserted ((w.restarted.opened cfg).reached cfg cfg.queue.rows 0)).length
            at hm
          change k + (inserted ((w.restarted.opened cfg).reached cfg cfg.queue.rows 0)).length =
            0 + ((w.restarted.opened cfg).reached cfg cfg.queue.rows 0).length at hk
          rw [hsteps] at hfail
          rw [reached_opened, Nat.zero_add] at hm hk
          have htally := length_selection cfg.runId (w.restarted.reached cfg cfg.queue.rows 0) 0 0
          rw [BatchStep.persisted, if_neg hfail, World.batch, World.steps, htally, Nat.zero_add,
            ← World.selected, List.take_length] at hrows
          obtain ⟨_, w₄, h₄, hx, -⟩ | ⟨_, -, herr⟩ := Prog.ends_bind.1 h
          · exact .inr ⟨hfail, hrows, m, k, hx, hm, by rw [hm]; exact hk⟩
          · obtain ⟨_, -, ⟨_, hdb, -⟩ | ⟨_, -, hx, -⟩⟩ := ends_dbCommit_calm herr
            · cases hdb
            · cases hx
      · rcases ends_scopeRounds cfg.queue.nodup h₃ with ⟨hfail, -⟩ | ⟨-, _, _, hx, -⟩
        · exact .inl ⟨hsteps ▸ hfail, exc, rfl⟩
        · cases hx
    · obtain ⟨_, -, hx, -⟩ := ends_dbLook_calm herr
      cases hx
  · obtain ⟨_, -, hx, -⟩ := ends_dbChange_calm herr
    cases hx

/-- Each entry that is reached has its step. -/
theorem reached_step {rest : List QueueEntry} {n : ℕ} {p : QueueEntry × BatchStep}
    (hp : p ∈ w.reached cfg rest n) : w.scopeStep cfg p.1 = p.2 := by
  induction rest generalizing n with
  | nil => cases hp
  | cons entry rest ih =>
    rw [World.reached] at hp
    split at hp
    · cases hp
    · rcases List.mem_cons.1 hp with rfl | hp
      · rfl
      · exact ih hp

/-- The entries that are reached are the first ones. -/
theorem reached_entries (rest : List QueueEntry) (n : ℕ) :
    (w.reached cfg rest n).map (·.1) <+: rest := by
  induction rest generalizing n with
  | nil => exact List.nil_prefix
  | cons entry rest ih =>
    rw [World.reached]
    split
    · exact List.nil_prefix
    · exact (List.prefix_cons_inj entry).2 (ih _)

theorem nodup_inserted {rest : List QueueEntry} (hn : (rest.map (·.url)).Nodup) (n : ℕ) :
    (inserted (w.reached cfg rest n)).Nodup := by
  have hsub : (inserted (w.reached cfg rest n)).Sublist (rest.map (·.url)) := by
    have hpre : (w.reached cfg rest n).map (·.1) <+: rest := reached_entries rest n
    have hall := hpre.sublist.map QueueEntry.url
    rw [List.map_map] at hall
    exact (List.filter_sublist.map _).trans hall
  exact hn.sublist hsub

/-- No more entries are selected than `max_files`. -/
theorem selected_le (hmax : cfg.maxFiles ≠ 0) (rest : List QueueEntry) {n : ℕ}
    (hn : n ≤ cfg.maxFiles) : n + (inserted (w.reached cfg rest n)).length ≤ cfg.maxFiles := by
  induction rest generalizing n with
  | nil => exact hn
  | cons entry rest ih =>
    rw [World.reached]
    split
    · exact hn
    · next hlimit =>
      have hlt : n < cfg.maxFiles := by
        simp only [Config.limitReached, hmax, ne_eq, not_false_eq_true, decide_true, Bool.true_and,
          decide_eq_true_eq, not_le] at hlimit
        exact hlimit
      rw [inserted_cons]
      split
      · next h =>
        have hih := ih (n := n + 1) hlt
        rw [List.length_cons]
        omega
      · exact ih hn

end

/-! ## The selection foretold -/

/-- The dry run reported what the run has selected. -/
structure Foretold (cfg : Config) (w v v' : World) (d : DryRun) (counts : ℕ × ℕ) : Prop where
  unchanged : v = w
  rows : runRows cfg.runId v'.disk =
    d.missingUrls.zipIdx.map fun p => ⟨cfg.runId, p.1, p.2⟩
  selected : counts.1 = d.missing
  existing : counts.2 = d.existing
  length : d.missingUrls.length = d.missing
  nodup : d.missingUrls.Nodup
  limit : 0 < cfg.maxFiles → d.missing ≤ cfg.maxFiles

/-- However both end, the dry run reported what the run has selected. -/
def SelectionForetold (cfg : Config) (w : World) : Prop :=
  ∀ x y v v', (dryRun cfg).Ends Calm w x v → (scopeCounts cfg).Ends Calm w y v' →
    ∃ d counts, x = .ok d ∧ y = .ok counts ∧ Foretold cfg w v v' d counts

/-- A final that `scope_run` would record as verified while records are open. -/
structure World.VerifiedFinal (cfg : Config) (w : World) (entry : QueueEntry) : Prop where
  final : w.fs.pathExists (w.targetOf cfg entry) = true
  untracked : ∀ s ∈ scopeRunTrackedStatuses,
    (w.db.downloads.find? entry.url).map (·.status) ≠ some s
  records : w.records.isSome = true
  expected : truthy entry.expectedSha256 = true
  digest : hasDigest w.fs (w.targetOf cfg entry) entry.expectedSha256 = true

section
variable {cfg} {w w₀ : World} {entry : QueueEntry}

theorem scopeStep_eq_fail (hrow : (w.db.downloads.find? entry.url).isSome) :
    w.scopeStep cfg entry = .fail ↔ w.VerifiedFinal cfg entry := by
  obtain ⟨row, hrow⟩ := Option.isSome_iff_exists.1 hrow
  constructor
  · intro h
    have hthere : w.fs.pathExists (w.targetOf cfg entry) = true := by
      by_contra hmissing
      rw [scopeStep_missing (by simpa using hmissing)] at h
      cases h
    have hnew : ∀ s ∈ scopeRunTrackedStatuses,
        (w.db.downloads.find? entry.url).map (·.status) ≠ some s := by
      intro s hs hstatus
      rw [scopeStep_tracked hthere hstatus hs] at h
      cases h
    rcases scopeStep_existing hthere hnew with ⟨hnone | hfails, -⟩ | ⟨-, hcommit⟩
    · rw [hrow] at hnone
      cases hnone
    · rw [Bool.and_eq_true, Bool.and_eq_true] at hfails
      exact ⟨hthere, hnew, hfails.1.1, hfails.1.2, hfails.2⟩
    · rw [hcommit] at h
      cases h
  · rintro ⟨hthere, hnew, hrecords, hexpected, hdigest⟩
    rcases scopeStep_existing hthere hnew with ⟨-, hfail⟩ | ⟨hok, -⟩
    · exact hfail
    · exact absurd (.inr (by rw [hrecords, hexpected, hdigest]; rfl)) hok

/-- An import adds a queued item for the entry, if it is not known, and changes no status. -/
structure Imports (entry : QueueEntry) (v v' : World) : Prop where
  fs : v'.fs = v.fs
  records : v'.records = v.records
  runItems : v'.db.runItems = v.db.runItems
  status : ∀ url, (v'.db.downloads.find? url).map (·.status) =
    ((v.db.downloads.find? url).map (·.status)).or (if entry.url = url then some .queued else none)

theorem ends_import {v v' : World} {x : Except Exc Unit}
    (h : (importQueueEntry cfg entry).Ends Calm v x v') : x = .ok () ∧ Imports entry v v' := by
  obtain ⟨⟨stored, target⟩, v₁, h₁, h₂⟩ | ⟨_, -, herr⟩ := Prog.ends_bind.1 h
  · obtain ⟨-, rfl⟩ := ends_osLook_total h₁
    obtain ⟨e, -, rfl, rfl⟩ := ends_dbChange_calm h₂
    refine ⟨rfl, rfl, rfl, rfl, fun url => ?_⟩
    have hstatus := (@Db.sameHistory_importEntry v₁.db entry.url (Lib.Posix.asPosix entry.rel)
      (Lib.Posix.asPosix stored) (pathText (cfg.stagingPath entry.url)) entry.inventorySize
      entry.expectedSha256 entry.generation e.time e.text).status url
    refine hstatus.trans ?_
    rw [Lib.Table.find?_insertNew]
    cases v₁.db.downloads.find? url with
    | none => by_cases hurl : entry.url = url <;> simp [hurl]
    | some row => rfl
  · obtain ⟨hx, -⟩ := ends_osLook_total herr
    cases hx

/-- What the import of a queue leaves: files, records and selections as before, an item for
    every entry, and each new item queued. -/
structure Imported (as : List QueueEntry) (v v' : World) : Prop where
  fs : v'.fs = v.fs
  records : v'.records = v.records
  runItems : v'.db.runItems = v.db.runItems
  known : ∀ entry ∈ as, (v'.db.downloads.find? entry.url).isSome
  kept : ∀ url, (v.db.downloads.find? url).isSome → (v'.db.downloads.find? url).isSome
  queued : (∀ url row, v.db.downloads.find? url = some row → row.status = .queued) →
    ∀ url row, v'.db.downloads.find? url = some row → row.status = .queued

theorem Imports.imported {v v₁ v' : World} {as : List QueueEntry} (h : Imports entry v v₁)
    (h' : Imported as v₁ v') : Imported (entry :: as) v v' := by
  have hkept : ∀ url, (v.db.downloads.find? url).isSome ∨ entry.url = url →
      (v₁.db.downloads.find? url).isSome := by
    intro url hurl
    rw [← Option.isSome_map, h.status url, Option.isSome_or, Option.isSome_map]
    rcases hurl with hurl | hurl
    · rw [hurl]
      rfl
    · rw [if_pos hurl]
      exact Bool.or_true _
  refine ⟨h'.fs.trans h.fs, h'.records.trans h.records, h'.runItems.trans h.runItems, ?_,
    fun url hurl => h'.kept url (hkept url (.inl hurl)), fun hqueued => h'.queued ?_⟩
  · intro e he
    rcases List.mem_cons.1 he with rfl | he
    · exact h'.kept _ (hkept _ (.inr rfl))
    · exact h'.known e he
  · intro url row hrow
    have hstatus := h.status url
    rw [hrow, Option.map_some] at hstatus
    cases hbefore : v.db.downloads.find? url with
    | some before =>
      rw [hbefore, Option.map_some, Option.some_or] at hstatus
      exact (Option.some.inj hstatus).trans (hqueued url before hbefore)
    | none =>
      rw [hbefore, Option.map_none, Option.none_or] at hstatus
      split at hstatus
      · exact Option.some.inj hstatus
      · cases hstatus

theorem ends_importEntries {v v' : World} {as : List QueueEntry} {x : Except Exc Unit}
    (h : (Prog.forEach as (importQueueEntry cfg)).Ends Calm v x v') :
    x = .ok () ∧ Imported as v v' := by
  induction as generalizing v with
  | nil =>
    obtain ⟨rfl, rfl⟩ := h
    exact ⟨rfl, rfl, rfl, rfl, by simp, fun _ h => h, fun h => h⟩
  | cons entry as ih =>
    obtain ⟨_, v₁, h₁, h₂⟩ | ⟨_, -, h₁⟩ := Prog.ends_bind.1 h
    · obtain ⟨rfl, himported⟩ := ih h₂
      exact ⟨rfl, (ends_import h₁).2.imported himported⟩
    · obtain ⟨hx, -⟩ := ends_import h₁
      cases hx

/-- The import of the queue ends with everything committed. -/
theorem ends_importQueues {x : Except Exc Unit} (h : (importQueues cfg).Ends Calm w₀ x w) :
    x = .ok () ∧ w.db = w.disk ∧ Imported cfg.queue.rows w₀ w := by
  obtain ⟨_, w₁, h₁, h₂⟩ | ⟨_, -, h₁⟩ := Prog.ends_bind.1 h
  · obtain ⟨_, himported⟩ := ends_importEntries h₁
    obtain ⟨_, -, ⟨_, hdb, -⟩ | ⟨db, hdb, rfl, rfl⟩⟩ := ends_dbCommit_calm h₂
    · cases hdb
    · obtain rfl := Except.ok.inj hdb
      exact ⟨rfl, rfl, himported.fs, himported.records, himported.runItems, himported.known,
        himported.kept, himported.queued⟩
  · obtain ⟨hx, -⟩ := ends_importEntries h₁
    cases hx

/-- There is an import of the queue. -/
theorem exists_importQueues (cfg : Config) (w₀ : World) :
    ∃ w, (importQueues cfg).Ends Calm w₀ (.ok ()) w := by
  obtain ⟨x, w, h⟩ := Prog.exists_ends exists_calm (importQueues cfg) w₀
  obtain ⟨rfl, -⟩ := ends_importQueues h
  exact ⟨w, h⟩

/-- Without a failing entry the selection is foretold. -/
theorem foretold_of (hdb : w.db = w.disk) (hfresh : runRows cfg.runId w.db = [])
    (hfail : .fail ∉ w.batch cfg) : SelectionForetold cfg w := by
  have hrestarted : w.restarted = w := congrArg (fun db => { w with db := db }) hdb.symm
  intro x y v v' hdry hscope
  obtain ⟨rfl, rfl⟩ := ends_dryRounds hdry
  rw [← hrestarted] at hscope
  rcases ends_scopeCounts (hdb ▸ hfresh) hscope with ⟨h, -⟩ | ⟨-, hrows, m, k, rfl, hm, hk⟩
  · exact absurd h hfail
  · rw [World.selected, hrestarted, selection_eq] at hrows
    rw [hrestarted] at hm hk
    have hcounted := counted_dryAfter cfg v {} (v.reached cfg cfg.queue.rows 0)
    have hurls := hcounted.urls.trans (List.nil_append _)
    have hmissing := hcounted.missing.trans (Nat.zero_add _)
    have hexisting := hcounted.existing.trans (Nat.zero_add _)
    refine ⟨_, (m, k), rfl, rfl, rfl, ?_, hm.trans hmissing.symm, ?_, ?_, ?_, ?_⟩
    · rw [hrows, ← hurls]
    · exact Nat.add_right_cancel ((hk.trans hexisting.symm).trans (congrArg _ hm.symm))
    · exact (congrArg List.length hurls).trans hmissing.symm
    · exact hurls.symm ▸ nodup_inserted cfg.queue.nodup 0
    · intro hmax
      have hle := selected_le (w := v) hmax.ne' cfg.queue.rows (n := 0) (by simpa using hmax.le)
      rw [Nat.cast_zero, zero_add, ← hmissing] at hle
      exact hle

/-- A failing entry ends `scope_run` without a result. -/
theorem not_foretold (hdb : w.db = w.disk) (hfresh : runRows cfg.runId w.db = [])
    (hfail : .fail ∈ w.batch cfg) : ¬ SelectionForetold cfg w := by
  have hrestarted : w.restarted = w := congrArg (fun db => { w with db := db }) hdb.symm
  intro h
  obtain ⟨x, v, hdry⟩ := Prog.exists_ends exists_calm (dryRun cfg) w
  obtain ⟨y, v', hscope⟩ := Prog.exists_ends exists_calm (scopeCounts cfg) w
  obtain ⟨d, counts, -, rfl, -⟩ := h x y v v' hdry hscope
  rw [← hrestarted] at hscope
  rcases ends_scopeCounts (hdb ▸ hfresh) hscope with ⟨-, _, hx⟩ | ⟨h, -⟩
  · cases hx
  · exact h hfail

/-- An entry fails exactly if the loop reaches a verified final. -/
theorem fail_mem_batch (hdb : w.db = w.disk)
    (hknown : ∀ entry ∈ cfg.queue.rows, (w.db.downloads.find? entry.url).isSome) :
    .fail ∈ w.batch cfg ↔
      ∃ p ∈ w.reached cfg cfg.queue.rows 0, w.VerifiedFinal cfg p.1 := by
  have hrestarted : w.restarted = w := congrArg (fun db => { w with db := db }) hdb.symm
  rw [World.batch, hrestarted, World.steps, List.mem_map]
  refine exists_congr fun p => and_congr_right fun hp => ?_
  have hentry : p.1 ∈ cfg.queue.rows :=
    (reached_entries cfg.queue.rows 0).subset (List.mem_map_of_mem hp)
  rw [← scopeStep_eq_fail (hknown p.1 hentry), reached_step hp]

end

/-- The controller with the queue that its files hold. -/
def Config.reading (settings : Config) (files : List (List String)) : Config :=
  { settings with queue := queueOf files }

/-- **The dry run and the first `scope_run` agree** after the import of the queue files,
    exactly if the loop reaches no final that it would have to record as verified. -/
theorem foretold_iff (files : List (List String)) (settings : Config) (w₀ w : World)
    (himport : (importQueues (settings.reading files)).Ends Calm w₀ (.ok ()) w)
    (hfresh : runRows settings.runId w.db = []) :
    SelectionForetold (settings.reading files) w ↔
      ∀ p ∈ w.reached (settings.reading files) (queueOf files).rows 0,
        ¬ w.VerifiedFinal (settings.reading files) p.1 := by
  obtain ⟨-, hdb, himported⟩ := ends_importQueues himport
  have hfail := fail_mem_batch hdb himported.known
  have hfresh' : runRows (settings.reading files).runId w.db = [] := hfresh
  constructor
  · intro h p hp hverified
    exact not_foretold hdb hfresh' (hfail.2 ⟨p, hp, hverified⟩) h
  · intro h
    refine foretold_of hdb hfresh' fun hmem => ?_
    obtain ⟨p, hp, hverified⟩ := hfail.1 hmem
    exact h p hp hverified

/-! ## A verified final -/

def oneQueue : Config where
  runId := "run"
  destination := ["dest"]
  state := ["state"]

/-- An empty final, and open records. -/
def emptyFinal : World where
  fs := ⟨fun p => if p = ["dest"] ∨ p = ["dest", "set"] then some .dir
    else if p = ["dest", "set", "a.bin"] then some (.file 0) else none, fun _ => [], 4096⟩
  records := some (.start "run" "session")

/-- Its URL alone, and with the digest of no bytes. -/
def plainLine : List (List String) := [["https://host/set/a.bin"]]

def digestLine : List (List String) := [["https://host/set/a.bin " ++
  "sha256=e3b0c44298fc1c149afbf4c8996fb92427ae41e4649b934ca495991b7852b855"]]

theorem read_plainLine : (readQueues plainLine).entries.map (fun e => (e.url, e.expectedSha256)) =
    [("https://host/set/a.bin", none)] := by
  decide

theorem read_digestLine :
    (readQueues digestLine).entries.map (fun e => (e.url, e.rel, e.expectedSha256)) =
      [("https://host/set/a.bin", ["set", "a.bin"],
        some "e3b0c44298fc1c149afbf4c8996fb92427ae41e4649b934ca495991b7852b855")] := by
  decide +kernel

theorem foretold_iff_plain : ∃ w, (importQueues (oneQueue.reading plainLine)).Ends Calm emptyFinal
    (.ok ()) w ∧ SelectionForetold (oneQueue.reading plainLine) w := by
  obtain ⟨w, himport⟩ := exists_importQueues (oneQueue.reading plainLine) emptyFinal
  have hfresh : runRows oneQueue.runId w.db = [] := by
    rw [runRows, (ends_importQueues himport).2.2.runItems]
    rfl
  refine ⟨w, himport, (foretold_iff plainLine oneQueue emptyFinal w himport hfresh).2 ?_⟩
  obtain ⟨entry, hentries, hentry⟩ := List.map_eq_singleton_iff.1 read_plainLine
  intro p hp hverified
  have hmem : p.1 ∈ (readQueues plainLine).entries :=
    (reached_entries _ 0).subset (List.mem_map_of_mem hp)
  rw [hentries, List.mem_singleton] at hmem
  have hexpected := hverified.expected
  rw [hmem, show entry.expectedSha256 = none from congrArg Prod.snd hentry] at hexpected
  cases hexpected

/-- The event of the verified final fails, and `scope_run` ends without a result. -/
theorem verified_final_raises : ¬ ∀ (files : List (List String)) (settings : Config) (w₀ w : World),
    (importQueues (settings.reading files)).Ends Calm w₀ (.ok ()) w →
      runRows settings.runId w.db = [] → SelectionForetold (settings.reading files) w := by
  intro h
  obtain ⟨w, himport⟩ := exists_importQueues (oneQueue.reading digestLine) emptyFinal
  obtain ⟨-, hdb, himported⟩ := ends_importQueues himport
  have hfresh : runRows (oneQueue.reading digestLine).runId w.db = [] := by
    rw [runRows, himported.runItems]
    rfl
  refine not_foretold hdb hfresh ?_ (h digestLine oneQueue emptyFinal _ himport hfresh)
  rw [fail_mem_batch hdb himported.known]
  obtain ⟨entry, hentries, hentry⟩ := List.map_eq_singleton_iff.1 read_digestLine
  obtain ⟨hurl, hrel, hexpected⟩ : entry.url = _ ∧ entry.rel = _ ∧ entry.expectedSha256 = _ := by
    simpa using hentry
  have hrows : (oneQueue.reading digestLine).queue.rows = [entry] := hentries
  have htarget : w.targetOf (oneQueue.reading digestLine) entry = ["dest", "set", "a.bin"] := by
    rw [World.targetOf, himported.fs, hurl, hrel]
    decide
  refine ⟨(entry, w.scopeStep (oneQueue.reading digestLine) entry), ?_, ?_, ?_, ?_, ?_, ?_⟩
  · rw [hrows, World.reached, if_neg (by decide)]
    exact List.mem_cons_self
  · rw [htarget, himported.fs]
    decide
  · intro s hs hstatus
    obtain ⟨row, hrow, rfl⟩ := Option.map_eq_some_iff.1 hstatus
    rw [himported.queued (fun _ _ hrow => by cases hrow) _ row hrow] at hs
    exact absurd hs (by decide)
  · rw [himported.records]
    rfl
  · rw [hexpected]
    decide
  · have hread : emptyFinal.fs.read ["dest", "set", "a.bin"] = .ok [] := rfl
    have hdigest : Lib.Sha256.hexdigest [] =
        "e3b0c44298fc1c149afbf4c8996fb92427ae41e4649b934ca495991b7852b855" := by
      decide +kernel
    rw [htarget, himported.fs, hexpected, hasDigest, hread]
    simp [hdigest]

end TodDl.Controller
