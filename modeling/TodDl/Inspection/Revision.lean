/-
  The inspection server — what `state_revision` identifies (inspection.py, tod-dl.py).

  The controller commits while readers read.  A transition and a control action advance
  the revision; `claim_recheck`, `record_attempt_start` and `attempt_event` do not.

  `revision_identifies`: two reads of one revision return the same, as long as those
  three change nothing that is shown once the revision has been read.
-/
import TodDl.Inspection.Records
import TodDl.Lib.Guarded
import TodDl.Store.Mutation

namespace TodDl.Inspection

open Store
open Lib (GRun)

/-! ## What a read shows -/

/-- A row without the columns that no read shows. -/
def shownRow (x : ℤ × Row) : ℤ × Row := (x.1, { x.2 with recheckAt := none, earlyRecheck := 0 })

/-- The items of a run with their attempts. -/
def shownItems (db : Db) (runId : String) : List ((ℤ × Row) × List AttemptRow) :=
  (itemRows db runId).map fun x => (shownRow x, attemptRows db runId x.2.url)

/-- Two databases that every read shows alike. -/
structure Alike (runId : String) (db db' : Db) : Prop where
  items : shownItems db runId = shownItems db' runId
  revision : db.revision runId = db'.revision runId

section
variable {runId : String} {db db' db'' : Db}

theorem Alike.refl (runId : String) (db : Db) : Alike runId db db := ⟨rfl, rfl⟩

theorem Alike.symm (h : Alike runId db db') : Alike runId db' db :=
  ⟨h.items.symm, h.revision.symm⟩

theorem Alike.trans (h : Alike runId db db') (h' : Alike runId db' db'') : Alike runId db db'' :=
  ⟨h.items.trans h'.items, h.revision.trans h'.revision⟩

theorem Alike.rows (h : Alike runId db db') :
    (itemRows db runId).map shownRow = (itemRows db' runId).map shownRow := by
  have hfst := congrArg (List.map Prod.fst) h.items
  rwa [shownItems, shownItems, List.map_map, List.map_map] at hfst

/-- An item is found in both or in neither, and is shown alike with its attempts. -/
theorem Alike.itemRow (h : Alike runId db db') (id : String) :
    ((itemRow (itemRows db runId) id).map fun x => (shownRow x, attemptRows db runId x.2.url)) =
      (Inspection.itemRow (itemRows db' runId) id).map fun x =>
        (shownRow x, attemptRows db' runId x.2.url) := by
  have hfind : ∀ db, ((Inspection.itemRow (itemRows db runId) id).map fun x =>
      (shownRow x, attemptRows db runId x.2.url)) =
        (shownItems db runId).find? fun p => itemId p.1.2.url = id := by
    intro db
    rw [shownItems, List.find?_map]
    rfl
  rw [hfind, hfind, h.items]

theorem queueRows_shown (db : Db) (runId : String) :
    (queueRows db runId).map shownRow =
      ((itemRows db runId).map shownRow).insertionSort fun a b => queueKey a ≤ queueKey b := by
  rw [queueRows]
  exact List.map_insertionSort _ _ _ _ fun _ _ _ _ => Iff.rfl

theorem Alike.queueRows (h : Alike runId db db') :
    (queueRows db runId).map shownRow = (Inspection.queueRows db' runId).map shownRow := by
  rw [queueRows_shown, queueRows_shown, h.rows]

variable {server : Server}

theorem Alike.scanQueue (h : Alike server.runId db db') (bucket query : String) (size : ℕ)
    (after : ℤ ×ₗ String) :
    server.scanQueue db bucket query size after = server.scanQueue db' bucket query size after := by
  have hkey : ∀ x, queueKey (shownRow x) = queueKey x := fun _ => rfl
  have hview : ∀ x, server.queueRow bucket query (shownRow x) = server.queueRow bucket query x :=
    fun _ => rfl
  have hlen : (Inspection.queueRows db server.runId).length =
      (Inspection.queueRows db' server.runId).length := by
    have := congrArg List.length h.queueRows
    rwa [List.length_map, List.length_map] at this
  unfold Server.scanQueue
  dsimp only
  rw [← Lib.Scan.run_map hkey hview (Inspection.queueRows db server.runId),
    ← Lib.Scan.run_map hkey hview (Inspection.queueRows db' server.runId), h.queueRows, hlen]

theorem Alike.getItem (h : Alike server.runId db db') (id : String) (reveal : Bool) :
    server.getItem db id reveal = server.getItem db' id reveal := by
  -- the record is one of the columns that are shown
  have hrecord : ∀ x y, shownRow x = shownRow y →
      server.itemRecord id reveal x = server.itemRecord id reveal y := by
    intro x y hxy
    have hshown := congrArg (server.itemRecord id reveal) hxy
    exact hshown
  have hfound := h.itemRow id
  unfold Server.getItem
  cases hx : Inspection.itemRow (itemRows db server.runId) id with
  | none =>
    cases hy : Inspection.itemRow (itemRows db' server.runId) id with
    | none => rfl
    | some y => rw [hx, hy] at hfound; cases hfound
  | some x =>
    cases hy : Inspection.itemRow (itemRows db' server.runId) id with
    | none => rw [hx, hy] at hfound; cases hfound
    | some y =>
      rw [hx, hy, Option.map_some, Option.map_some, Option.some.injEq, Prod.mk.injEq] at hfound
      simp only [hrecord x y hfound.1]

theorem Alike.listAttempts (h : Alike server.runId db db') (p : AttemptParameters) :
    server.listAttempts db p = server.listAttempts db' p := by
  have hfound := h.itemRow p.itemId
  unfold Server.listAttempts
  cases hx : Inspection.itemRow (itemRows db server.runId) p.itemId with
  | none =>
    cases hy : Inspection.itemRow (itemRows db' server.runId) p.itemId with
    | none => rfl
    | some y => rw [hx, hy] at hfound; cases hfound
  | some x =>
    cases hy : Inspection.itemRow (itemRows db' server.runId) p.itemId with
    | none => rw [hx, hy] at hfound; cases hfound
    | some y =>
      rw [hx, hy, Option.map_some, Option.map_some, Option.some.injEq, Prod.mk.injEq] at hfound
      simp only [hfound.2, h.revision]

theorem Alike.listQueue (h : Alike server.runId db db') (p : QueueParameters) :
    server.listQueue db p = server.listQueue db' p := by
  unfold Server.listQueue Server.current
  simp only [h.scanQueue, h.revision]

/-- **Alike databases are read alike.** -/
theorem Alike.answer (h : Alike server.runId db db') (q : Query) :
    server.answer db q = server.answer db' q := by
  cases q with
  | getItem id reveal => exact congrArg Answer.item (h.getItem id reveal)
  | listQueue p => exact congrArg Answer.queue (h.listQueue p)
  | listAttempts p => exact congrArg Answer.attempts (h.listAttempts p)

end

/-! ## The writes of the controller -/

/-- One commit of the running controller. -/
inductive Write where
  /-- `transition`, or a control action on items -/
  | mutation (m : Mutation)
  /-- a control action on the run: it only leaves its audit row -/
  | audit (requestId sessionId action outcome reason recordedAt : String)
  | claimRecheck (url : String) (claimedAt : ℚ) (updatedAt : String)
  | recordAttemptStart (url : String) (number : ℕ) (startedAt : String)
  | attemptEvent (url : String) (number : ℕ) (outcome endedAt : String)

/-- The audit row of a control action on the run. -/
def auditRun (db : Db) (runId requestId sessionId action outcome reason recordedAt : String) : Db :=
  let advanced := db.advanceRevision runId
  { advanced with
    controlRequests := advanced.controlRequests.insertNew
      ⟨requestId, runId, sessionId, action, outcome, reason, advanced.revision runId, recordedAt⟩ }

def Write.commit (runId : String) (db : Db) : Write → Db
  | .mutation m => (m.commit runId db).1
  | .audit requestId sessionId action outcome reason recordedAt =>
    auditRun db runId requestId sessionId action outcome reason recordedAt
  | .claimRecheck url claimedAt updatedAt => db.claimRecheck url claimedAt updatedAt
  | .recordAttemptStart url number startedAt => db.recordAttemptStart runId url number startedAt
  | .attemptEvent url number outcome endedAt => db.recordAttemptEnd runId url number outcome endedAt

/-- A write that does not advance the revision changes nothing that a read shows: the
    claim falls on the second of the last update, the attempt has its row, or it has
    ended in the same way at the same second. -/
def Write.Hidden (runId : String) (db : Db) : Write → Prop
  | .mutation _ => True
  | .audit .. => True
  | .claimRecheck url _ updatedAt =>
    ∀ r ∈ db.selected runId, r.url = url → r.updatedAt = updatedAt
  | .recordAttemptStart url number _ => url ∉ (db.selected runId).map (·.url) ∨
      (runId, url, Db.attemptId runId url number) ∈ db.attempts.rows.map AttemptRow.key
  | .attemptEvent url number outcome endedAt => url ∉ (db.selected runId).map (·.url) ∨
      ∀ a ∈ db.attempts.rows, a.key = (runId, url, Db.attemptId runId url number) →
        a.endedAt = some endedAt ∧ a.outcome = some outcome

instance (runId : String) (db : Db) (w : Write) : Decidable (w.Hidden runId db) := by
  cases w <;> unfold Write.Hidden <;> infer_instance

section
variable {runId : String} {db : Db}

/-- **A mutation that commits advances the revision.** -/
theorem commit_advances (m : Mutation) : (m.commit runId db).1 = db ∨
    (m.commit runId db).1.revision runId = db.revision runId + 1 := by
  have hitem : ∀ (a : ItemAction) (q : Request) (clock : Clock),
      (a.handle db runId q clock).db = db ∨
        (a.handle db runId q clock).db.revision runId = db.revision runId + 1 := by
    intro a q clock
    rcases a.handle_cases db runId q clock with h | ⟨_, -, h, -⟩
    · exact .inl h.1
    · exact .inr h.revision_eq
  cases m with
  | transition url toStatus detail fields clock =>
    cases hold : db.downloads.find? url with
    | none =>
      exact .inl (congrArg Prod.fst
        (commitTransition_missing runId toStatus detail fields clock.text hold))
    | some old =>
      obtain ⟨_, heq⟩ := commitTransition_eq runId toStatus detail fields clock.text hold
      refine .inr ((congrArg (fun c => c.1.revision runId) heq).trans ?_)
      exact Db.revision_advanceRevision ..
  | retryNow q clock =>
    rcases retryNow_cases db runId q clock with h | ⟨_, -, -, h, -⟩
    · exact .inl h.1
    · exact .inr h.revision_eq
  | excludeItem q clock => exact hitem _ q clock
  | resumeNewGeneration q clock => exact hitem _ q clock
  | retryAccessDenied q clock => exact hitem _ q clock
  | setItemPriority q clock => exact hitem _ q clock
  | setRetryCooldown q clock => exact hitem _ q clock

/-- The rows of the run are those of the join. -/
theorem mem_selected {x : ℤ × Row} (h : x ∈ itemRows db runId) : x.2 ∈ db.selected runId := by
  have hranked : x ∈ db.ranked runId := (List.perm_insertionSort _ _).mem_iff.2 h
  exact ranked_perm.mem_iff.1 (List.mem_map_of_mem hranked)

theorem alike_claimRecheck {url updatedAt : String} {claimedAt : ℚ}
    (h : (Write.claimRecheck url claimedAt updatedAt).Hidden runId db) :
    Alike runId db (db.claimRecheck url claimedAt updatedAt) := by
  refine ⟨?_, rfl⟩
  set claim : Row → Row := fun r => if r.url = url then
      r.set [.earlyRecheck (if r.earlyRecheck = 1 ∧ claimedAt < r.recheckAt.getD 0 then 2 else 0),
        .recheckAt (some (claimedAt + 86400)), .updatedAt updatedAt]
    else r with hclaim
  have hrows : itemRows (db.claimRecheck url claimedAt updatedAt) runId =
      (itemRows db runId).map fun x => (x.1, claim x.2) := by
    rw [itemRows, itemRows, List.map_filterMap]
    refine List.filterMap_congr fun i _ => ?_
    rw [Db.claimRecheck, Lib.Table.find?_modify, Option.map_map, Option.map_map]
    rfl
  rw [shownItems, shownItems, hrows, List.map_map]
  refine List.map_congr_left fun x hx => ?_
  have hupdated := h x.2 (mem_selected hx)
  have hrow : shownRow (x.1, claim x.2) = shownRow x ∧ (claim x.2).url = x.2.url := by
    by_cases hurl : x.2.url = url
    · simp [hclaim, shownRow, hurl, Assign.apply, ← hupdated hurl]
    · simp [hclaim, hurl]
  simp only [Function.comp, hrow]
  rfl

/-- The items are shown alike if the attempts of each of them are. -/
theorem alike_attempts {attempts : Lib.Table AttemptRow.key}
    (h : ∀ x ∈ itemRows db runId,
      attemptRows db runId x.2.url = attemptRows { db with attempts } runId x.2.url) :
    Alike runId db { db with attempts } :=
  ⟨List.map_congr_left fun x hx => congrArg (Prod.mk (shownRow x)) (h x hx), rfl⟩

theorem alike_recordAttemptStart {url startedAt : String} {number : ℕ}
    (h : (Write.recordAttemptStart url number startedAt).Hidden runId db) :
    Alike runId db (db.recordAttemptStart runId url number startedAt) := by
  refine alike_attempts fun x hx => ?_
  unfold attemptRows Lib.Table.insertNew
  split
  · rfl
  · next hnew =>
    -- a new attempt is one of an item outside the run
    rcases h with houtside | hthere
    · have hurl : url ≠ x.2.url := by
        rintro rfl
        exact houtside (List.mem_map_of_mem (mem_selected hx))
      simp [hurl]
    · exact absurd hthere hnew

theorem alike_attemptEvent {url outcome endedAt : String} {number : ℕ}
    (h : (Write.attemptEvent url number outcome endedAt).Hidden runId db) :
    Alike runId db (db.recordAttemptEnd runId url number outcome endedAt) := by
  refine alike_attempts fun x hx => ?_
  set finish : AttemptRow → AttemptRow := fun a =>
    if a.key = (runId, url, Db.attemptId runId url number) then
      { a with endedAt := some endedAt, outcome := some outcome } else a with hfinish
  have hkey : ∀ a, (finish a).runId = a.runId ∧ (finish a).url = a.url := by
    intro a
    rw [hfinish]
    dsimp only
    split
    · exact ⟨rfl, rfl⟩
    · exact ⟨rfl, rfl⟩
  have hkept : ∀ a ∈ attemptRows db runId x.2.url, finish a = a := by
    intro a ha
    obtain ⟨hmem, hshown⟩ := List.mem_filter.1 ha
    by_cases hends : a.key = (runId, url, Db.attemptId runId url number)
    · rcases h with houtside | hended
      · have hurl : url = x.2.url := by
          have haurl : a.url = url := congrArg (fun k => k.2.1) hends
          simp only [Bool.and_eq_true, decide_eq_true_eq] at hshown
          exact haurl.symm.trans hshown.2
        exact absurd (hurl ▸ List.mem_map_of_mem (mem_selected hx)) houtside
      · obtain ⟨hat, hout⟩ := hended a hmem hends
        rw [hfinish]
        dsimp only
        rw [if_pos hends, ← hat, ← hout]
    · exact if_neg hends
  have hfilter : attemptRows (db.recordAttemptEnd runId url number outcome endedAt) runId x.2.url =
      (attemptRows db runId x.2.url).map finish := by
    rw [attemptRows, attemptRows, Db.recordAttemptEnd, Lib.Table.rows_modify, List.filter_map]
    refine congrArg (List.map finish) (List.filter_congr fun a _ => ?_)
    exact congrArg₂ (fun b c => decide (b = runId) && decide (c = x.2.url)) (hkey a).1 (hkey a).2
  refine Eq.trans ?_ hfilter.symm
  rw [List.map_congr_left hkept, List.map_id']

/-- **What a write does to the reads**: it advances the revision or shows nothing. -/
theorem Write.Hidden.commit {w : Write} (h : w.Hidden runId db) :
    Alike runId db (w.commit runId db) ∨
      (w.commit runId db).revision runId = db.revision runId + 1 := by
  cases w with
  | mutation m =>
    rcases (commit_advances m : (m.commit runId db).1 = db ∨ _) with hsame | hnext
    · refine .inl ?_
      rw [Write.commit, hsame]
      exact .refl runId db
    · exact .inr hnext
  | audit => exact .inr (Db.revision_advanceRevision ..)
  | claimRecheck url claimedAt updatedAt => exact .inl (alike_claimRecheck h)
  | recordAttemptStart url number startedAt => exact .inl (alike_recordAttemptStart h)
  | attemptEvent url number outcome endedAt => exact .inl (alike_attemptEvent h)

/-- A write never takes the revision back. -/
theorem Write.revision_le (w : Write) : db.revision runId ≤ (w.commit runId db).revision runId := by
  cases w with
  | mutation m =>
    rcases (commit_advances m : (m.commit runId db).1 = db ∨ _) with hsame | hnext
    · rw [Write.commit, hsame]
    · exact (Nat.le_succ _).trans hnext.ge
  | audit => exact (Nat.le_succ _).trans (Db.revision_advanceRevision ..).ge
  | claimRecheck => exact le_rfl
  | recordAttemptStart => exact le_rfl
  | attemptEvent => exact le_rfl

end

/-! ## Writes and reads in any order -/

/-- A read that was answered, and the snapshot it was answered from. -/
structure Read where
  query : Query
  db : Db

/-- The database and the reads so far. -/
structure Session where
  db : Db
  reads : List Read := []

inductive Event where
  | write (w : Write)
  | read (q : Query)

namespace Session
variable (runId : String)

def step (s : Session) : Event → Option Session
  | .write w => some { s with db := w.commit runId s.db }
  | .read q => some { s with reads := s.reads ++ [⟨q, s.db⟩] }

/-- A write that would show something without a new revision comes before the first read
    of the revision. -/
def Announced (s : Session) : Event → Prop
  | .write w => w.Hidden runId s.db ∨ ∀ r ∈ s.reads, r.db.revision runId ≠ s.db.revision runId
  | .read _ => True

instance (s : Session) (e : Event) : Decidable (s.Announced runId e) := by
  cases e <;> unfold Announced <;> infer_instance

/-- Reads of one revision read alike, and so does the database while it has it. -/
structure Identified (s : Session) : Prop where
  past : ∀ r ∈ s.reads, r.db.revision runId ≤ s.db.revision runId
  now : ∀ r ∈ s.reads, r.db.revision runId = s.db.revision runId → Alike runId r.db s.db
  pairs : ∀ r ∈ s.reads, ∀ r' ∈ s.reads, r.db.revision runId = r'.db.revision runId →
    Alike runId r.db r'.db

variable {runId}

theorem Identified.step {s s' : Session} {e : Event} (hs : s.Identified runId)
    (he : s.Announced runId e) (hstep : s.step runId e = some s') : s'.Identified runId := by
  cases e with
  | read q =>
    obtain rfl := Option.some.inj hstep
    refine ⟨fun r hr => ?_, fun r hr heq => ?_, fun r hr r' hr' heq => ?_⟩
    · rcases List.mem_append.1 hr with hr | hr
      · exact hs.past r hr
      · obtain rfl := List.mem_singleton.1 hr
        exact le_rfl
    · rcases List.mem_append.1 hr with hr | hr
      · exact hs.now r hr heq
      · obtain rfl := List.mem_singleton.1 hr
        exact .refl runId s.db
    · rcases List.mem_append.1 hr with hr | hr <;> rcases List.mem_append.1 hr' with hr' | hr'
      · exact hs.pairs r hr r' hr' heq
      · obtain rfl := List.mem_singleton.1 hr'
        exact hs.now r hr heq
      · obtain rfl := List.mem_singleton.1 hr
        exact (hs.now r' hr' heq.symm).symm
      · obtain rfl := List.mem_singleton.1 hr
        obtain rfl := List.mem_singleton.1 hr'
        exact .refl runId s.db
  | write w =>
    obtain rfl := Option.some.inj hstep
    refine ⟨fun r hr => (hs.past r hr).trans w.revision_le, fun r hr heq => ?_, hs.pairs⟩
    have hle := hs.past r hr
    have hkept : r.db.revision runId = s.db.revision runId :=
      le_antisymm hle (w.revision_le.trans_eq heq.symm)
    rcases he with hhidden | hfresh
    · rcases hhidden.commit with halike | hnext
      · exact (hs.now r hr hkept).trans halike
      · exact absurd (heq.trans hnext) (by omega)
    · exact absurd hkept (hfresh r hr)

/-- Reads with one query and one revision return the same. -/
def Identifies (server : Server) (s : Session) : Prop :=
  ∀ r ∈ s.reads, ∀ r' ∈ s.reads, r.query = r'.query →
    r.db.revision server.runId = r'.db.revision server.runId →
      server.answer r.db r.query = server.answer r'.db r'.query

/-- **The revision identifies the durable read**, in every order of writes and reads whose
    writes are announced. -/
theorem revision_identifies {server : Server} {db : Db} {s : Session}
    (hrun : GRun (Session.step server.runId) (Session.Announced server.runId) ⟨db, []⟩ s) :
    s.Identifies server := by
  have hidentified : s.Identified server.runId := by
    refine hrun.invariant _ ⟨?_, ?_, ?_⟩ fun t e t' ht he hstep => ht.step he hstep
    all_goals exact List.forall_mem_nil _
  intro r hr r' hr' hquery hrevision
  rw [hquery]
  exact (hidentified.pairs r hr r' hr' hrevision).answer r'.query

/-- An attempt starts, and its page is read before the item is active and, twice, after. -/
def readsOfAttempt : List Event :=
  [.write (.recordAttemptStart "https://host/set/a.bin" 1 "t1"),
   .read (.listAttempts { itemId := itemId "https://host/set/a.bin" }),
   .write (.mutation (.transition "https://host/set/a.bin" .active none [.attempts 1] ⟨1, "t1"⟩)),
   .read (.listAttempts { itemId := itemId "https://host/set/a.bin" }),
   .read (.listAttempts { itemId := itemId "https://host/set/a.bin" })]

/-- The session of these writes and reads. -/
def attemptSession : Session :=
  (Lib.exec (Session.step "run") (Session.Announced "run") ⟨oneItemDb, []⟩ readsOfAttempt).get
    (by decide)

theorem revision_identifies_attempt : attemptSession.Identifies someServer :=
  revision_identifies (Lib.GRun.of_exec (Option.some_get _).symm)

/-- The time of the last update that an answer shows. -/
def shownUpdate : Answer → Option String
  | .item (.ok r) => some r.updatedAt
  | _ => none

/-- The claim of a recheck changes the time of the item's last update. -/
theorem claim_unannounced : ¬ ∀ (server : Server) (db : Db) (s : Session),
    GRun (Session.step server.runId) (fun _ _ => True) ⟨db, []⟩ s → s.Identifies server := by
  intro h
  set id := itemId "https://host/set/a.bin" with hid
  set gone : Db := ((Mutation.transition "https://host/set/a.bin" .unavailable none []
    ⟨0, "t0"⟩).commit "run" oneItemDb).1 with hgone
  set claimed := gone.claimRecheck "https://host/set/a.bin" 0 "t1" with hclaimed
  have hrun : GRun (Session.step "run") (fun _ _ => True) ⟨gone, []⟩
      ⟨claimed, [⟨.getItem id false, gone⟩, ⟨.getItem id false, claimed⟩]⟩ :=
    (((GRun.refl _).tail (l := .read (.getItem id false)) trivial rfl).tail
      (l := .write (.claimRecheck "https://host/set/a.bin" 0 "t1")) trivial rfl).tail
        (l := .read (.getItem id false)) trivial rfl
  have hsame := h someServer gone _ hrun ⟨.getItem id false, gone⟩ (by simp)
    ⟨.getItem id false, claimed⟩ (by simp) rfl rfl
  have hupdated := congrArg shownUpdate hsame
  rw [hclaimed, hgone, hid] at hupdated
  revert hupdated
  decide +kernel

end Session

end TodDl.Inspection
