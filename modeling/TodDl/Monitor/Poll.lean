/-
  The monitor — polling for a changed revision (monitor.py, `QueuePane.poll_revision`).

  The poll asks for the page at the index of the pane again, with the cursor it has there,
  and compares the revision in the answer with the displayed one.  `Watched` is a pane in a
  run: its pages are answered by servers of one run, whose revision does not decrease.

  * `readCursor_stale`: a server refuses a cursor of another revision;
  * `Watched.known`: the cursors of the pane are not newer than what is displayed;
  * `announced_iff`: a changed revision is announced exactly if the poll has no cursor, that
    is, on the first page.
-/
import TodDl.Inspection.Cursor
import TodDl.Monitor.QueuePane

namespace TodDl.Monitor

open Store
open Inspection

/-! ## The poll -/

/-- `if cursor: parameters["cursor"] = cursor` -/
def cursorParameter (cursor : Option String) : Option String :=
  if truthy cursor then cursor else none

/-- The request of `poll_revision`, if it is made: its cursor. -/
def QueuePane.pollRequest {ρ : Type} (s : QueuePane ρ) : Option (Option String) :=
  if s.ended || s.inFlight.isSome || s.rows.isEmpty then none
  else (pyGet s.cursorStack s.pageIndex).map cursorParameter

/-- A request of the pane, served by `_list_queue`: the page and `state_revision`, or why it is
    refused. -/
def serve (server : Server) (db : Db) (filters : Filters) (cursor : Option String) :
    Except String ((List QueueRow × Option String) × ℕ) :=
  (server.queuePage db filters.1 filters.2 100 cursor).map (·, db.revision server.runId)

/-- `completed(response, error)` of `poll_revision`: whether it sets "Results changed". -/
def completed {α : Type} (revision : Option ℕ) : Except String (α × ℕ) → Bool
  | .error _ => false
  | .ok (_, stateRevision) => revision.any (· ≠ stateRevision)

/-! ## A pane in a run -/

/-- A pane with `revision`, that of the displayed page. -/
structure Watching where
  viewed : Viewed QueueRow := { pane := {} }
  revision : Option ℕ := none

/-- The pane gets the answer of a server to its request. -/
def Watching.answered (w : Watching) (server : Server) (db : Db) : Watching :=
  match w.viewed.pane.inFlight, w.viewed.pane.ended with
  | some sent, false =>
    match serve server db sent.filters (cursorParameter sent.cursor) with
    | .error _ => { w with viewed := w.viewed.step (.answered .failed) }
    | .ok ((rows, next), stateRevision) =>
      { viewed := w.viewed.step (.answered (.page rows next))
        revision :=
          if rows = [] ∧ sent.cursor ≠ none then w.revision else some stateRevision }
  | _, _ => w

/-- A pane in a run, and the durable revision when it was last answered. -/
inductive Watched (runId : String) : ℕ → Watching → Prop
  | opened : Watched runId 0 {}
  | acts {latest w} (h : Watched runId latest w) (e : Event QueueRow)
      (he : ∀ rows next, e ≠ .answered (.page rows next)) :
      Watched runId latest { w with viewed := w.viewed.step e }
  | answers {latest w} (h : Watched runId latest w) (server : Server) (hrun : server.runId = runId)
      (db : Db) (hlater : latest ≤ db.revision runId) :
      Watched runId (db.revision runId) (w.answered server db)

/-! ## Cursors of another revision -/

/-- A server refuses a cursor of another revision. -/
theorem readCursor_stale {server : Server} {db : Db} {bucket query : String} {c : QueueCursor}
    (h : c.revision ≠ db.revision server.runId) :
    ∃ e, server.readCursor db bucket query (cursorEncode c) = .error e := by
  by_cases hfits : (cursorText c).length ≤ 768
  · exact ⟨_, by rw [Server.readCursor_text hfits, if_neg (by simp [Server.current, h])]⟩
  · exact ⟨_, Server.readCursor_long hfits⟩

/-- The cursors that the pane holds. -/
def QueuePane.cursors {ρ : Type} (s : QueuePane ρ) : List (Option String) :=
  s.nextCursor :: s.cursorStack

section
variable {ρ : Type} {s : QueuePane ρ} {text : String}

theorem QueuePane.cursors_requestPage (cursor : Option String) :
    (s.requestPage cursor).cursors = s.cursors := by
  unfold requestPage
  split
  · rfl
  · split <;> rfl

theorem QueuePane.cursors_requestIndex : s.requestIndex.cursors = s.cursors := by
  unfold requestIndex
  split
  · rfl
  · exact cursors_requestPage _

theorem mem_pySet {l stack : List (Option String)} {i : ℤ} {v c : Option String}
    (h : pySet l i v = some stack) (hc : c ∈ stack) : c ∈ l ∨ c = v := by
  obtain ⟨k, -, rfl⟩ := Option.map_eq_some_iff.1 h
  exact List.mem_or_eq_of_mem_set hc

/-- A page adds its cursor. -/
theorem QueuePane.mem_cursors_applyPage {cursor : Option String} {answer : Answer ρ}
    (h : some text ∈ (s.applyPage cursor answer).cursors) :
    some text ∈ s.cursors ∨ ∃ row rows, answer = .page (row :: rows) (some text) := by
  cases answer with
  | failed => exact .inl h
  | page page next =>
    cases page with
    | nil =>
      have hempty : (s.applyPage cursor (.page [] next)).cursors =
          (if cursor = none then s.nextCursor else none) :: s.cursorStack := by
        rw [applyPage]
        split <;> rfl
      rw [hempty] at h
      split at h
      · exact .inl h
      · rcases List.mem_cons.1 h with hnone | hmem
        · cases hnone
        · exact .inl (List.mem_cons_of_mem _ hmem)
    | cons row rows =>
      -- the new cursor and the old stack
      have hnew : some text = next ∨ some text ∈ s.cursorStack → some text ∈ s.cursors ∨
          ∃ row' rows', Answer.page (row :: rows) next = .page (row' :: rows') (some text) := by
        rintro (rfl | hmem)
        · exact .inr ⟨row, rows, rfl⟩
        · exact .inl (List.mem_cons_of_mem _ hmem)
      refine hnew ?_
      unfold applyPage at h
      dsimp only at h
      split at h
      · exact List.mem_cons.1 h
      · next stack hstack =>
        have hold : ∀ c ∈ stack, c ∈ s.cursorStack ∨ c = next := by
          intro c hc
          split at hstack
          · obtain rfl := Option.some.inj hstack
            simpa using hc
          · exact mem_pySet hstack hc
        have hmem : some text = next ∨ some text ∈ stack := by
          split at h
          · exact (List.mem_cons.1 h).imp_right List.mem_of_mem_drop
          · exact List.mem_cons.1 h
        rcases hmem with hnext | hmem
        · exact .inl hnext
        · exact (hold _ hmem).symm

/-- An action of the pane adds no cursor. -/
theorem Viewed.mem_cursors_step {v : Viewed ρ} {e : Event ρ}
    (he : ∀ rows next, e ≠ .answered (.page rows next))
    (h : some text ∈ (v.step e).pane.cursors) : some text ∈ v.pane.cursors := by
  unfold step at h
  split at h
  · exact h
  cases e with
  | nextPage =>
    change some text ∈ v.pane.nextPage.cursors at h
    unfold QueuePane.nextPage at h
    split at h
    · exact h
    · rw [QueuePane.cursors_requestIndex] at h
      dsimp only [QueuePane.cursors] at h
      split at h
      · simpa [QueuePane.cursors, or_comm] using h
      · exact h
  | previousPage =>
    change some text ∈ v.pane.previousPage.cursors at h
    unfold QueuePane.previousPage at h
    split at h
    · exact h
    · rwa [QueuePane.cursors_requestIndex] at h
  | firstPage =>
    change some text ∈ v.pane.firstPage.cursors at h
    unfold QueuePane.firstPage at h
    split at h
    · exact h
    · rw [QueuePane.cursors_requestPage] at h
      simp [QueuePane.cursors] at h
  | reload filters selectedCount =>
    have hpane : some text ∈ ({ v.pane with filters }.reload selectedCount).cursors := by
      dsimp only at h
      split at h
      · exact h
      · exact h
    unfold QueuePane.reload at hpane
    dsimp only at hpane
    split at hpane
    · simp [QueuePane.cursors] at hpane
    · rw [QueuePane.cursors_requestIndex] at hpane
      simp [QueuePane.cursors] at hpane
  | answered answer =>
    cases answer with
    | page rows next => exact absurd rfl (he rows next)
    | failed =>
      dsimp only at h
      split at h
      · exact h
      · exact h
  | inspection active => exact h

end

/-! ## What is displayed -/

/-- What the pane displays is not newer than the last answer, and its cursors are not newer
    than what it displays. -/
structure Watching.Known (w : Watching) (latest : ℕ) : Prop where
  displayed : ∀ d ∈ w.revision, d ≤ latest
  cursors : ∀ text, some text ∈ w.viewed.pane.cursors →
    ∃ c : QueueCursor, text = cursorEncode c ∧ ∃ d ∈ w.revision, c.revision ≤ d

/-- A request that is served. -/
theorem serve_eq_ok {server : Server} {db : Db} {filters : Filters} {cursor : Option String}
    {page : List QueueRow × Option String} {stateRevision : ℕ} :
    serve server db filters cursor = .ok (page, stateRevision) ↔
      server.queuePage db filters.1 filters.2 100 cursor = .ok page ∧
        stateRevision = db.revision server.runId := by
  unfold serve
  cases server.queuePage db filters.1 filters.2 100 cursor with
  | error e => simp [Except.map]
  | ok page' => simp [Except.map, eq_comm]

/-- The cursor of a page that is served is one of its revision. -/
theorem next_queuePage {server : Server} {db : Db} {bucket query text : String} {size : ℤ}
    {cursor : Option String} {rows : List QueueRow}
    (h : server.queuePage db bucket query size cursor = .ok (rows, some text)) :
    ∃ c : QueueCursor, text = cursorEncode c ∧ c.revision = db.revision server.runId := by
  unfold Server.queuePage at h
  split_ifs at h
  cases hstart : server.pageStart db bucket query cursor with
  | error e => simp [hstart, Except.map] at h
  | ok k =>
    rw [hstart, Except.map, Except.ok.injEq, Prod.mk.injEq] at h
    obtain ⟨-, hnext⟩ := h
    split at hnext
    · exact ⟨_, (Option.some.inj hnext).symm, rfl⟩
    · cases hnext

theorem Viewed.pane_displayAnswer {ρ : Type} (v : Viewed ρ) (sent : Sent) (answer : Answer ρ) :
    (v.displayAnswer sent answer).pane = v.pane := by
  unfold displayAnswer
  split
  · rfl
  · split <;> rfl
  · rfl

/-- The pane after an answer. -/
theorem Viewed.pane_answered {ρ : Type} {v : Viewed ρ} {sent : Sent}
    (hrunning : v.pane.ended = false) (hsent : v.pane.inFlight = some sent) (answer : Answer ρ) :
    (v.step (.answered answer)).pane =
      { v.pane with inspectionActive := false }.applyPage sent.cursor answer := by
  rw [step, if_neg (by simp [hrunning])]
  dsimp only
  rw [hsent]
  exact pane_displayAnswer _ _ _

/-- **The cursors of a pane are not newer than what it displays.** -/
theorem Watched.known {runId : String} {latest : ℕ} {w : Watching} (h : Watched runId latest w) :
    w.Known latest := by
  induction h with
  | opened => exact ⟨nofun, fun text htext => by simp [QueuePane.cursors] at htext⟩
  | acts h e he ih =>
    exact ⟨ih.displayed, fun text htext => ih.cursors text (Viewed.mem_cursors_step he htext)⟩
  | @answers latest w h server hrun db hlater ih =>
    have hdisplayed : ∀ d ∈ w.revision, d ≤ db.revision runId := fun d hd =>
      (ih.displayed d hd).trans hlater
    unfold Watching.answered
    split
    · next sent hsent hrunning =>
      split
      · refine ⟨hdisplayed, fun text htext => ih.cursors text (Viewed.mem_cursors_step ?_ htext)⟩
        rintro rows next hanswer
        cases hanswer
      · next rows next stateRevision hserve =>
        obtain ⟨hpage, rfl⟩ := serve_eq_ok.1 hserve
        rw [hrun]
        -- the displayed revision does not decrease
        have hlater : ∀ d ∈ w.revision, ∃ d' ∈ (if rows = [] ∧ sent.cursor ≠ none then w.revision
            else some (db.revision runId)), d ≤ d' := by
          intro d hd
          split
          · exact ⟨d, hd, le_rfl⟩
          · exact ⟨_, rfl, hdisplayed d hd⟩
        refine ⟨fun d hd => ?_, fun text htext => ?_⟩
        · dsimp only at hd
          split at hd
          · exact hdisplayed d hd
          · exact (Option.some.inj hd).ge
        · dsimp only at htext
          rw [Viewed.pane_answered hrunning hsent] at htext
          rcases QueuePane.mem_cursors_applyPage htext with hold | ⟨row, rows', hanswer⟩
          · obtain ⟨c, hc, d, hd, hle⟩ := ih.cursors text hold
            obtain ⟨d', hd', hle'⟩ := hlater d hd
            exact ⟨c, hc, d', hd', hle.trans hle'⟩
          · obtain ⟨rfl, rfl⟩ := Answer.page.inj hanswer
            obtain ⟨c, hc, hrevision⟩ := next_queuePage hpage
            exact ⟨c, hc, db.revision runId, rfl, (hrun ▸ hrevision).le⟩
    · exact ⟨hdisplayed, ih.cursors⟩

/-! ## What a poll announces -/

/-- The filters are ones of the server. -/
def Served (filters : Filters) : Prop :=
  (filters.1 = "all" ∨ filters.1 ∈ buckets) ∧ (utf8 filters.2).length ≤ 1024

/-- Another revision is announced exactly if the request is served. -/
theorem completed_iff {server : Server} {db : Db} {filters : Filters} {cursor : Option String}
    {d : ℕ} (hchanged : d ≠ db.revision server.runId) :
    completed (some d) (serve server db filters cursor) = true ↔ Served filters ∧
      ∃ k, server.pageStart db filters.1 filters.2 cursor = .ok k := by
  have hpage : (∃ page, server.queuePage db filters.1 filters.2 100 cursor = .ok page) ↔
      Served filters ∧ ∃ k, server.pageStart db filters.1 filters.2 cursor = .ok k := by
    unfold Server.queuePage Served
    by_cases hbucket : filters.1 = "all" ∨ filters.1 ∈ buckets
    · by_cases hquery : (utf8 filters.2).length ≤ 1024
      · rw [if_neg (by tauto), if_neg (by omega), if_neg (by decide)]
        cases server.pageStart db filters.1 filters.2 cursor with
        | error e => simp [Except.map]
        | ok k => simp [Except.map, hbucket, hquery]
      · rw [if_neg (by tauto), if_pos (by omega)]
        simp [hquery]
    · rw [if_pos (by tauto)]
      simp [hbucket]
  rw [← hpage]
  constructor
  · intro h
    cases hserve : serve server db filters cursor with
    | error e => simp [hserve, completed] at h
    | ok answer => exact ⟨_, (serve_eq_ok.1 hserve).1⟩
  · rintro ⟨page, hpage⟩
    rw [serve_eq_ok.2 ⟨hpage, rfl⟩]
    simp [completed, hchanged]

/-- The cursor of a poll is one of the pane. -/
theorem mem_cursors_of_pollRequest {ρ : Type} {s : QueuePane ρ} {text : String}
    (h : s.pollRequest = some (some text)) : some text ∈ s.cursors := by
  unfold QueuePane.pollRequest at h
  split at h
  · cases h
  · obtain ⟨cursor, hcursor, hparameter⟩ := Option.map_eq_some_iff.1 h
    obtain ⟨k, -, hk⟩ := Option.bind_eq_some_iff.1 hcursor
    have heq : cursor = some text := by
      unfold cursorParameter at hparameter
      split at hparameter
      · exact hparameter
      · cases hparameter
    exact List.mem_cons_of_mem _ (heq ▸ List.mem_of_getElem? hk)

/-- A server refuses the cursor of a pane that does not display its revision. -/
theorem Watched.refused {w : Watching} {server : Server} {db : Db} {text : String} {latest d : ℕ}
    (hw : Watched server.runId latest w) (hlatest : latest ≤ db.revision server.runId)
    (hsent : w.viewed.pane.pollRequest = some (some text)) (hd : w.revision = some d)
    (hchanged : d ≠ db.revision server.runId) (bucket query : String) :
    ∃ e, server.readCursor db bucket query text = .error e := by
  obtain ⟨c, rfl, d', hd', hle⟩ := hw.known.cursors text (mem_cursors_of_pollRequest hsent)
  obtain rfl := Option.some.inj (hd.symm.trans hd')
  have hshown := hw.known.displayed d hd'
  exact readCursor_stale (by omega)

/-- **A poll announces a changed revision** exactly if the server takes its cursor; in a run,
    that is on the first page only. -/
theorem announced_iff {w : Watching} {server : Server} {db : Db} {cursor : Option String} {d : ℕ}
    (hsent : w.viewed.pane.pollRequest = some cursor) (hd : w.revision = some d)
    (hchanged : d ≠ db.revision server.runId) :
    (completed w.revision (serve server db w.viewed.pane.filters cursor) = true ↔
      Served w.viewed.pane.filters ∧
        ∃ k, server.pageStart db w.viewed.pane.filters.1 w.viewed.pane.filters.2 cursor = .ok k) ∧
    ∀ latest, Watched server.runId latest w → latest ≤ db.revision server.runId →
      (completed w.revision (serve server db w.viewed.pane.filters cursor) = true ↔
        Served w.viewed.pane.filters ∧ cursor = none) := by
  rw [hd, completed_iff hchanged]
  refine ⟨Iff.rfl, fun latest hw hlatest => and_congr_right fun _ => ?_⟩
  cases cursor with
  | none => exact ⟨fun _ => rfl, fun _ => ⟨_, rfl⟩⟩
  | some text =>
    refine ⟨fun ⟨k, hk⟩ => ?_, nofun⟩
    obtain ⟨e, he⟩ := hw.refused hlatest hsent hd hchanged w.viewed.pane.filters.1
      w.viewed.pane.filters.2
    cases he.symm.trans hk

/-- A pane that displays a first page of an earlier revision. -/
def firstPage : Watching where
  viewed := { pane := { rows := [⟨"", 0, "a.bin", "queued", none, none, none, 0, 0⟩] } }
  revision := some 1

/-- The poll announces the change. -/
theorem announced_first :
    completed firstPage.revision (serve someServer oneItemDb ("all", "") none) = true :=
  (announced_iff (w := firstPage) (d := 1) rfl rfl (by decide)).1.2
    ⟨⟨.inl rfl, by decide⟩, _, rfl⟩

/-! ## The second page -/

/-- URLs of growing length. -/
def longUrl (i : ℕ) : String := "https://host/" ++ String.ofList (List.replicate i 'a')

theorem longUrl_injective {i j : ℕ} (h : longUrl i = longUrl j) : i = j := by
  have hletters : ∀ k, (String.ofList (List.replicate k 'a')).length = k := by
    intro k
    rw [String.length_ofList, List.length_replicate]
  have hlength : ∀ k, (longUrl k).length = "https://host/".length + k := by
    intro k
    rw [longUrl, String.length_append, hletters]
  exact Nat.add_left_cancel ((hlength i).symm.trans ((congrArg String.length h).trans (hlength j)))

def longRow (i : ℕ) : Row where
  url := longUrl i
  relativePath := "set/a.bin"
  updatedAt := ""

variable (n : ℕ)

/-- A run of many items. -/
def manyDb : Db where
  downloads := ⟨(List.range n).map longRow, by
    rw [List.map_map]
    exact List.nodup_range.map fun i j h => longUrl_injective h⟩
  runItems := ⟨(List.range n).map fun i => ⟨"run", longUrl i, i⟩, by
    rw [List.map_map]
    exact List.nodup_range.map fun i j h => longUrl_injective (Prod.mk.inj h).2⟩

theorem find?_manyDb {i : ℕ} (h : i < n) :
    (manyDb n).downloads.find? (longUrl i) = some (longRow i) :=
  Lib.Table.find?_eq_some.2 ⟨List.mem_map_of_mem (List.mem_range.2 h), rfl⟩

/-- All items are of the run. -/
theorem runItems_manyDb : ((manyDb n).runItems.rows.filter fun i => i.runId = "run") =
    (List.range n).map fun i : ℕ => ⟨"run", longUrl i, i⟩ := by
  refine List.filter_eq_self.2 fun x hx => ?_
  obtain ⟨i, -, rfl⟩ := List.mem_map.1 hx
  rfl

theorem wellRanked_manyDb : WellRanked (manyDb n) "run" where
  nonneg := by
    intro x hx _
    obtain ⟨i, -, rfl⟩ := List.mem_map.1 hx
    exact Int.natCast_nonneg i
  distinct := by
    rw [runItems_manyDb, List.map_map]
    exact List.nodup_range.map fun i j h => Int.ofNat.inj h
  imported := by
    intro url hurl
    rw [Db.runUrls, runItems_manyDb, List.map_map] at hurl
    obtain ⟨i, hi, rfl⟩ := List.mem_map.1 hurl
    exact Option.isSome_iff_exists.2 ⟨_, find?_manyDb n (List.mem_range.1 hi)⟩

theorem length_queueRows_manyDb : (queueRows (manyDb n) "run").length = n := by
  have hitems : itemRows (manyDb n) "run" =
      (List.range n).map fun i : ℕ => ((i : ℤ), longRow i) := by
    rw [itemRows, runItems_manyDb, List.filterMap_map]
    refine List.filterMap_eq_map_iff_forall_eq_some.2 fun i hi => ?_
    rw [Function.comp, find?_manyDb n (List.mem_range.1 hi)]
    rfl
  rw [queueRows, List.length_insertionSort, hitems, List.length_map, List.length_range]

/-- Without filters every item is shown. -/
theorem queueRow_all (x : ℤ × Row) : ∃ row, someServer.queueRow "all" "" x = some row := by
  simp [Server.queueRow]

/-- The first page of a run of more than 100 items has a cursor. -/
theorem queuePage_manyDb (hn : 100 < n) : ∃ row rows text,
    someServer.queuePage (manyDb n) "all" "" 100 none = .ok (row :: rows, some text) := by
  have hw : WellRanked (manyDb n) someServer.runId := wellRanked_manyDb n
  have hquery : (utf8 "").length ≤ 1024 := by decide
  have hsize : 1 ≤ (100 : ℤ) ∧ 100 ≤ maxPageSize := by decide
  obtain ⟨init, tail, next, hsplit, hpage, hend⟩ := Server.queuePage_eq hw (.inl rfl) hquery hsize
    Server.startsAfter_none (fun x hx => by cases hx)
  obtain ⟨view, hview⟩ := Classical.axiomOfChoice queueRow_all
  have hall : init.filterMap (someServer.queueRow "all" "") = init.map view :=
    List.filterMap_eq_map_iff_forall_eq_some.2 fun x _ => hview x
  rcases hend with ⟨-, rfl, hshort⟩ | ⟨c, rfl, hne, -⟩
  · have hlength := congrArg List.length hsplit
    have hlength := hlength.symm.trans (length_queueRows_manyDb n)
    rw [List.append_nil] at hlength
    rw [hall, List.length_map, hlength] at hshort
    omega
  · obtain ⟨x, xs, rfl⟩ := List.exists_cons_of_ne_nil hne
    exact ⟨view x, xs.map view, c, by rw [hpage, hall]; rfl⟩

/-- The text of a cursor is not empty. -/
theorem truthy_cursorEncode (c : QueueCursor) : truthy (some (cursorEncode c)) = true := by
  have htext : (Provenance.utf8 (objectText c.fields)).length = (objectText c.fields).length :=
    length_utf8_ascii (objectText_ascii c.fields)
  have hlength : (cursorEncode c).length = 4 * (((objectText c.fields).length + 2) / 3) := by
    rw [← htext, ← Lib.Base64.length_encode, ← String.length_ofList]
    rfl
  have hne : cursorEncode c ≠ "" := by
    intro hempty
    have htext : 0 < (objectText c.fields).length := by
      rw [objectText, List.length_cons]
      omega
    rw [hempty, String.length_empty] at hlength
    omega
  simpa [truthy] using hne

/-- Whatever the answer is, the next poll has the cursor of the second page. -/
theorem pollRequest_second {v : Viewed QueueRow} {sent : Sent} {text : String}
    (hrunning : v.pane.ended = false) (hsent : v.pane.inFlight = some sent)
    (hstack : v.pane.cursorStack = [none, some text]) (hindex : v.pane.pageIndex = 1)
    (hrows : v.pane.rows ≠ []) (htext : truthy (some text) = true) (hcursor : sent.cursor ≠ none)
    (answer : Answer QueueRow) :
    (v.step (.answered answer)).pane.pollRequest = some (some text) := by
  have hget : pyGet [none, some text] 1 = some (some text) := rfl
  have hget' : ∀ next, pyGet [none, some text, next] 1 = some (some text) := fun _ => rfl
  have hempty : v.pane.rows.isEmpty = false := by simpa using hrows
  rw [Viewed.pane_answered hrunning hsent]
  match answer with
  | .failed =>
    simp [QueuePane.applyPage, QueuePane.pollRequest, hrunning, hempty, hstack, hindex, hget,
      cursorParameter, htext]
  | .page [] next =>
    simp [QueuePane.applyPage, QueuePane.pollRequest, hrunning, hempty, hstack, hindex, hget,
      cursorParameter, htext, hcursor]
  | .page (row :: rows) next =>
    simp [QueuePane.applyPage, QueuePane.pollRequest, hrunning, hstack, hindex, hget',
      cursorParameter, htext]

/-- The pane after the answer of a server. -/
theorem Watching.answered_ok {w : Watching} {sent : Sent} {server : Server} {db : Db}
    {rows : List QueueRow} {next : Option String} {stateRevision : ℕ}
    (hsent : w.viewed.pane.inFlight = some sent) (hrunning : w.viewed.pane.ended = false)
    (hserve : serve server db sent.filters (cursorParameter sent.cursor) =
      .ok ((rows, next), stateRevision)) :
    w.answered server db =
      { viewed := w.viewed.step (.answered (.page rows next))
        revision :=
          if rows = [] ∧ sent.cursor ≠ none then w.revision else some stateRevision } := by
  rw [answered, hsent, hrunning]
  dsimp only
  rw [hserve]

theorem Watching.answered_eq {w : Watching} {sent : Sent}
    (hsent : w.viewed.pane.inFlight = some sent) (hrunning : w.viewed.pane.ended = false)
    (server : Server) (db : Db) :
    ∃ answer, (w.answered server db).viewed = w.viewed.step (.answered answer) ∧
      ((w.answered server db).revision = w.revision ∨
        (w.answered server db).revision = some (db.revision server.runId)) := by
  cases hserve : serve server db sent.filters (cursorParameter sent.cursor) with
  | error e =>
    have heq : w.answered server db = { w with viewed := w.viewed.step (.answered .failed) } := by
      rw [answered, hsent, hrunning]
      dsimp only
      rw [hserve]
    exact ⟨.failed, by rw [heq], .inl (by rw [heq])⟩
  | ok answer =>
    obtain ⟨⟨rows, next⟩, stateRevision⟩ := answer
    obtain ⟨-, rfl⟩ := serve_eq_ok.1 hserve
    rw [answered_ok hsent hrunning hserve]
    refine ⟨_, rfl, ?_⟩
    dsimp only
    split
    · exact .inl rfl
    · exact .inr rfl

/-- A pane that displays the first of many items at revision 0 and has gone on to the second
    page. -/
theorem watched_second : ∃ w text, Watched someServer.runId 0 w ∧
    w.viewed.pane.pollRequest = some (some text) ∧ w.revision = some 0 := by
  obtain ⟨row, rows, text, hpage⟩ := queuePage_manyDb 101 (by decide)
  have htext : truthy (some text) = true := by
    obtain ⟨c, rfl, -⟩ := next_queuePage hpage
    exact truthy_cursorEncode c
  have hserve : serve someServer (manyDb 101) ("all", "") none =
      .ok ((row :: rows, some text), 0) :=
    serve_eq_ok.2 ⟨hpage, rfl⟩
  -- the queue is opened, and its first page is answered
  have hopened : Watched someServer.runId 0 _ :=
    .acts .opened (.reload ("all", "") 101) (by rintro _ _ h; cases h)
  have hfirst := hopened.answers someServer rfl (manyDb 101) (Nat.zero_le _)
  have hsent : ({} : Watching).viewed.step (.reload ("all", "") 101) =
      { pane := { inFlight := some ⟨none, ("all", "")⟩, inspectionActive := true } } := rfl
  rw [hsent] at hfirst
  rw [Watching.answered_ok rfl rfl hserve, if_neg (by simp)] at hfirst
  -- the second page is asked for, and answered
  have hsecond := hfirst.acts .nextPage (by rintro _ _ h; cases h)
  set first := Viewed.step _ (.answered (.page (row :: rows) (some text)))
  have hpane : first.pane =
      { rows := row :: rows, nextCursor := some text, cursorStack := [none, some text] } := rfl
  have hnext : (first.step .nextPage).pane =
      { rows := row :: rows, nextCursor := some text, cursorStack := [none, some text]
        pageIndex := 1, inFlight := some ⟨some text, ("all", "")⟩, inspectionActive := true } := by
    have hget : pyGet [none, some text] 1 = some (some text) := rfl
    show first.pane.nextPage = _
    rw [hpane]
    simp [QueuePane.nextPage, QueuePane.requestIndex, QueuePane.requestPage, htext, hget]
  have hthird := hsecond.answers someServer rfl (manyDb 101) le_rfl
  have hasked : (first.step .nextPage).pane.inFlight = some ⟨some text, ("all", "")⟩ := by
    rw [hnext]
  obtain ⟨answer, hviewed, hshown⟩ := Watching.answered_eq
    (w := { viewed := first.step .nextPage, revision := some 0 }) hasked (by rw [hnext]) someServer
    (manyDb 101)
  refine ⟨_, text, hthird, ?_, ?_⟩
  · rw [hviewed]
    exact pollRequest_second (by rw [hnext]) (by rw [hnext]) (by rw [hnext]) (by rw [hnext])
      (by rw [hnext]; exact List.cons_ne_nil _ _) htext (Option.some_ne_none text) answer
  · exact hshown.elim id id

/-- A changed revision is not announced on the second page. -/
theorem second_page_silent : ¬ ∀ (latest : ℕ) (w : Watching) (server : Server) (db : Db)
    (cursor : Option String) (d : ℕ), Watched server.runId latest w →
    latest ≤ db.revision server.runId → w.viewed.pane.pollRequest = some cursor →
      w.revision = some d → d ≠ db.revision server.runId →
        completed w.revision (serve server db w.viewed.pane.filters cursor) = true := by
  intro hall
  obtain ⟨w, text, hw, hsent, hd⟩ := watched_second
  have hlater : (0 : ℕ) ≠ ((manyDb 101).advanceRevision "run").revision someServer.runId := by
    rw [show someServer.runId = "run" from rfl, Db.revision_advanceRevision]
    omega
  have hannounced := hall 0 w someServer _ _ 0 hw (Nat.zero_le _) hsent hd hlater
  obtain ⟨e, he⟩ := hw.refused (Nat.zero_le _) hsent hd hlater w.viewed.pane.filters.1
    w.viewed.pane.filters.2
  rw [hd, completed_iff hlater] at hannounced
  obtain ⟨-, k, hk⟩ := hannounced
  cases he.symm.trans hk

end TodDl.Monitor
