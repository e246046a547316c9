/-
  The controller — one recheck a day (tod-dl.py, `next_recheck`, `claim_recheck`,
  `record_source_generation`).

  A run of the events that read or write the recheck columns: imports, the two halves
  of a claim, 404 answers and the moves to another status.

  * `spent_run`: after a claim, an item stays claimed for a day unless an import pulls
    its recheck forward.
  * `recheck_daily`: two claims within a day have such an import between them, and
    there are no more early claims than such imports.
-/
import TodDl.Controller.Transfer

namespace TodDl.Controller

open Store (Db Row Status Update Assign truthy)

/-! ## Events -/

/-- `next_recheck(db)` -/
def nextRecheck (db : Db) (runId : String) (time : ℚ) : Option Row :=
  (((db.ranked runId).map (·.2)).filter fun r =>
    r.status = .unavailable && (decide (r.recheckAt.getD 0 ≤ time) || r.earlyRecheck = 1)).head?

/-- The assignment leaves the status and the mark of an early recheck alone. -/
def keepsMark : Assign → Bool
  | .status _ | .earlyRecheck _ => false
  | _ => true

/-- What happens to the items, with the clock as it was read. -/
inductive RecheckEvent where
  /-- `import_queues` reads an entry -/
  | imported (url relativePath stored staging : String)
      (inventorySize expectedSha256 generation : Option String) (time : ℚ) (text : String)
  /-- `record_source_generation` on its own -/
  | recorded (url : String) (generation : Option String) (time : ℚ)
  | looked (runId : String) (time : ℚ)
  /-- `claim_recheck` of the row that was found -/
  | claimed (time : ℚ) (text : String)
  /-- a transfer ends with 404 or 410 -/
  | notFound (runId url error : String) (size : ℕ) (time : ℚ) (text : String)
  /-- a transition to another status -/
  | moved (runId url : String) (status : Status) (detail : Option String) (fields : Update)
      (text : String) (hstatus : status ≠ .unavailable) (hfields : ∀ a ∈ fields, keepsMark a = true)

/-- The database, and what the scheduler found and has not claimed yet. -/
structure Rechecking where
  db : Db
  found : Option Row := none

/-- The database after a transition, if the item is there. -/
def moveItem (db : Db) (runId url : String) (status : Status) (detail : Option String)
    (fields : Update) (text : String) : Db :=
  ((db.transition runId url status detail fields text).map (·.1)).getD db

def Rechecking.step (s : Rechecking) : RecheckEvent → Rechecking
  | .imported url relativePath stored staging inventorySize expectedSha256 generation time text =>
    { s with
      db := s.db.importEntry url relativePath stored staging inventorySize expectedSha256
        generation time text }
  | .recorded url generation time => { s with db := s.db.recordSourceGeneration url generation time }
  | .looked runId time => { s with found := nextRecheck s.db runId time }
  | .claimed time text => match s.found with
    | none => s
    | some row => { db := s.db.claimRecheck row.url time text }
  | .notFound runId url error size time text =>
    { s with
      db := moveItem s.db runId url .unavailable (some error)
        [.bytes (some size), .lastError (some error),
         .recheckAt (some (time + unavailableRecheckInterval)), .earlyRecheck 0] text }
  | .moved runId url status detail fields text _ _ =>
    { s with db := moveItem s.db runId url status detail fields text }

def Rechecking.run (s : Rechecking) (events : List RecheckEvent) : Rechecking := events.foldl step s

/-- When the clock was read. -/
def RecheckEvent.time : RecheckEvent → Option ℚ
  | .imported _ _ _ _ _ _ _ time _ | .recorded _ _ time | .looked _ time | .claimed time _
  | .notFound _ _ _ _ time _ => some time
  | .moved .. => none

/-- The clock does not go back. -/
def ClockForward : ℚ → List RecheckEvent → Prop
  | _, [] => True
  | now, e :: es => (∀ time ∈ e.time, now ≤ time) ∧ ClockForward (e.time.getD now) es

/-- The identifier that an event records for an item, and when. -/
def RecheckEvent.recordedFor (url : String) : RecheckEvent → Option (Option String × ℚ)
  | .imported url' _ _ _ _ _ generation time _ | .recorded url' generation time =>
    if url' = url then some (generation, time) else none
  | _ => none

/-- An import compares a known new identifier with a different known one that is stored,
    while the item is unavailable, not pulled forward yet and not due. -/
def Row.Pulled (row : Row) (generation : Option String) (time : ℚ) : Prop :=
  row.status = .unavailable ∧ row.earlyRecheck ≠ 1 ∧ truthy row.sourceGeneration = true ∧
    truthy generation = true ∧ row.sourceGeneration ≠ generation ∧ time < row.recheckAt.getD 0

/-- The event pulls the recheck of an item forward. -/
def Rechecking.Pulls (s : Rechecking) (url : String) (e : RecheckEvent) : Prop :=
  ∃ p ∈ e.recordedFor url, ∃ row ∈ s.db.downloads.find? url, Row.Pulled row p.1 p.2

/-- The event claims an item. -/
def Rechecking.Claims (s : Rechecking) (url : String) : RecheckEvent → Prop
  | .claimed _ _ => ∃ row ∈ s.found, row.url = url
  | _ => False

/-- The event claims an item before it is due. -/
def Rechecking.ClaimsEarly (s : Rechecking) (url : String) (e : RecheckEvent) : Prop :=
  s.Claims url e ∧ ∃ row ∈ s.db.downloads.find? url, row.earlyRecheck = 1 ∧
    ∃ time ∈ e.time, time < row.recheckAt.getD 0

instance (row : Row) (generation : Option String) (time : ℚ) :
    Decidable (Row.Pulled row generation time) := by unfold Row.Pulled; infer_instance

instance (s : Rechecking) (url : String) (e : RecheckEvent) : Decidable (s.Pulls url e) := by
  unfold Rechecking.Pulls; infer_instance

instance (s : Rechecking) (url : String) (e : RecheckEvent) : Decidable (s.Claims url e) := by
  cases e <;> (unfold Rechecking.Claims; infer_instance)

instance (s : Rechecking) (url : String) (e : RecheckEvent) : Decidable (s.ClaimsEarly url e) := by
  unfold Rechecking.ClaimsEarly; infer_instance

/-- How many events of a run have a property of the state before them. -/
def Rechecking.count (P : Rechecking → RecheckEvent → Prop) [∀ s e, Decidable (P s e)] :
    Rechecking → List RecheckEvent → ℕ
  | _, [] => 0
  | s, e :: es => (if P s e then 1 else 0) + count P (s.step e) es

/-! ## What an event does to a row -/

/-- How the row of an item got its recheck columns. -/
inductive Rechecking.Becomes (s : Rechecking) (url : String) (e : RecheckEvent) (row' : Row) :
    Prop where
  /-- the item is new -/
  | fresh (hearly : row'.earlyRecheck ≠ 1) (hstatus : row'.status ≠ .unavailable)
  | kept (row : Row) (hrow : s.db.downloads.find? url = some row)
      (hearly : row'.earlyRecheck = row.earlyRecheck)
      (hwait : row'.status = .unavailable →
        row.status = .unavailable ∧ row'.recheckAt = row.recheckAt)
  /-- the next recheck is a day away -/
  | delayed (time : ℚ) (htime : e.time = some time) (hearly : row'.earlyRecheck ≠ 1)
      (hwait : row'.recheckAt = some (time + unavailableRecheckInterval))
  | pulled (h : s.Pulls url e)

section
variable {s : Rechecking} {db : Db} {url url' : String} {row row' : Row} {generation : Option String}
  {time : ℚ} {e : RecheckEvent}

/-- The recheck columns are the same. -/
structure SameMark (row row' : Row) : Prop where
  status : row'.status = row.status
  recheckAt : row'.recheckAt = row.recheckAt
  earlyRecheck : row'.earlyRecheck = row.earlyRecheck
  sourceGeneration : row'.sourceGeneration = row.sourceGeneration

theorem SameMark.trans {row₁ row₂ row₃ : Row} (h : SameMark row₁ row₂) (h' : SameMark row₂ row₃) :
    SameMark row₁ row₃ where
  status := h'.status.trans h.status
  recheckAt := h'.recheckAt.trans h.recheckAt
  earlyRecheck := h'.earlyRecheck.trans h.earlyRecheck
  sourceGeneration := h'.sourceGeneration.trans h.sourceGeneration

theorem SameMark.pulled (h : SameMark row row') : Row.Pulled row' generation time ↔
    Row.Pulled row generation time := by
  unfold Row.Pulled
  rw [h.status, h.recheckAt, h.earlyRecheck, h.sourceGeneration]

/-- What `record_source_generation` makes of a row. -/
theorem find?_recordSourceGeneration
    (h : (db.recordSourceGeneration url' generation time).downloads.find? url = some row') :
    ∃ row, db.downloads.find? url = some row ∧
      ((url' = url ∧ Row.Pulled row generation time) ∨
        row'.earlyRecheck = row.earlyRecheck ∧ row'.status = row.status ∧
          row'.recheckAt = row.recheckAt) := by
  rw [Db.recordSourceGeneration, Db.find?_updateWhere, Db.find?_updateWhere] at h
  obtain ⟨r, hr, rfl⟩ := Option.map_eq_some_iff.1 h
  obtain ⟨row, hrow, rfl⟩ := Option.map_eq_some_iff.1 hr
  refine ⟨row, hrow, ?_⟩
  have hurl : row.url = url := Lib.Table.find?_key hrow
  by_cases hpulled : url' = url ∧ Row.Pulled row generation time
  · exact .inl hpulled
  · refine .inr ?_
    have hno : (row.url = url' && row.status = .unavailable && row.earlyRecheck ≠ 1 &&
        truthy row.sourceGeneration && truthy generation && row.sourceGeneration ≠ generation &&
        time < row.recheckAt.getD 0) = false := by
      rw [Bool.eq_false_iff]
      intro hcond
      simp only [Bool.and_eq_true, decide_eq_true_eq] at hcond
      obtain ⟨⟨⟨⟨⟨⟨h₁, h₂⟩, h₃⟩, h₄⟩, h₅⟩, h₆⟩, h₇⟩ := hcond
      exact hpulled ⟨h₁.symm.trans hurl, h₂, h₃, h₄, h₅, h₆, h₇⟩
    rw [hno]
    simp only [Bool.false_eq_true, if_false]
    split <;> exact ⟨rfl, rfl, rfl⟩

theorem set_keepsMark {u : Update} (h : ∀ a ∈ u, keepsMark a = true) (row : Row) :
    (row.set u).earlyRecheck = row.earlyRecheck ∧ (row.set u).status = row.status := by
  induction u generalizing row with
  | nil => exact ⟨rfl, rfl⟩
  | cons a u ih =>
    obtain ⟨hearly, hstatus⟩ := ih (fun b hb => h b (List.mem_cons_of_mem _ hb)) (a.apply row)
    have ha := h a List.mem_cons_self
    rw [Row.set_cons, hearly, hstatus]
    cases a <;> first | exact ⟨rfl, rfl⟩ | cases ha

/-- What `import_queues` makes of a row before it compares the identifiers. -/
theorem find?_importEntry {relativePath stored staging text : String}
    {inventorySize expectedSha256 : Option String}
    (h : (db.importEntry url' relativePath stored staging inventorySize expectedSha256 generation
      time text).downloads.find? url = some row') :
    (row'.earlyRecheck ≠ 1 ∧ row'.status ≠ .unavailable) ∨
    ∃ row, db.downloads.find? url = some row ∧
      ((url' = url ∧ Row.Pulled row generation time) ∨
        row'.earlyRecheck = row.earlyRecheck ∧ row'.status = row.status ∧
          row'.recheckAt = row.recheckAt) := by
  obtain ⟨sized, hsized, hcases⟩ := find?_recordSourceGeneration h
  rw [Db.find?_updateWhere, Db.find?_updateWhere] at hsized
  obtain ⟨placed, hplaced, hsized⟩ := Option.map_eq_some_iff.1 hsized
  obtain ⟨inserted, hinserted, hplaced⟩ := Option.map_eq_some_iff.1 hplaced
  -- the updates before the comparison leave the recheck columns alone
  have hsame₁ : SameMark inserted placed := by
    rw [← hplaced]
    split <;> exact ⟨rfl, rfl, rfl, rfl⟩
  have hsame₂ : SameMark placed sized := by
    rw [← hsized]
    split <;> exact ⟨rfl, rfl, rfl, rfl⟩
  have hsame := hsame₁.trans hsame₂
  rw [Lib.Table.find?_insertNew, Option.or_eq_some_iff] at hinserted
  rcases hinserted with hrow | ⟨-, hnew⟩
  · refine .inr ⟨inserted, hrow, ?_⟩
    rcases hcases with ⟨hurl, hpulled⟩ | ⟨hearly, hstatus, hat⟩
    · exact .inl ⟨hurl, hsame.pulled.1 hpulled⟩
    · exact .inr ⟨hearly.trans hsame.earlyRecheck, hstatus.trans hsame.status,
        hat.trans hsame.recheckAt⟩
  · split at hnew
    · obtain rfl := Option.some.inj hnew
      left
      rcases hcases with ⟨-, hpulled⟩ | ⟨hearly, hstatus, -⟩
      · exact absurd (hsame.pulled.1 hpulled).1 (by simp)
      · rw [hearly, hsame.earlyRecheck, hstatus, hsame.status]
        exact ⟨by simp, by simp⟩
    · cases hnew

/-- **How the recheck columns of an item come about.** -/
theorem becomes_step (h : (s.step e).db.downloads.find? url = some row') :
    s.Becomes url e row' := by
  cases e with
  | imported u relativePath stored staging inventorySize expectedSha256 g time text =>
    rcases find?_importEntry h with ⟨hearly, hstatus⟩ | ⟨row, hrow, ⟨rfl, hpulled⟩ | hkept⟩
    · exact .fresh hearly hstatus
    · exact .pulled ⟨(g, time), by simp [RecheckEvent.recordedFor], row, hrow, hpulled⟩
    · obtain ⟨hearly, hstatus, hat⟩ := hkept
      exact .kept row hrow hearly fun hwait => ⟨hstatus ▸ hwait, hat⟩
  | recorded u g time =>
    obtain ⟨row, hrow, ⟨rfl, hpulled⟩ | hkept⟩ := find?_recordSourceGeneration h
    · exact .pulled ⟨(g, time), by simp [RecheckEvent.recordedFor], row, hrow, hpulled⟩
    · obtain ⟨hearly, hstatus, hat⟩ := hkept
      exact .kept row hrow hearly fun hwait => ⟨hstatus ▸ hwait, hat⟩
  | looked runId time => exact .kept row' h rfl fun hwait => ⟨hwait, rfl⟩
  | claimed time text =>
    simp only [Rechecking.step] at h
    split at h
    · exact .kept row' h rfl fun hwait => ⟨hwait, rfl⟩
    · next found hfound =>
      simp only [Db.claimRecheck, Lib.Table.find?_modify] at h
      obtain ⟨row, hrow, rfl⟩ := Option.map_eq_some_iff.1 h
      by_cases hurl : row.url = found.url
      · rw [if_pos hurl]
        refine .delayed time rfl ?_ rfl
        simp only [Row.set_cons, Row.set_nil, Assign.apply]
        split <;> decide
      · rw [if_neg hurl]
        exact .kept row hrow rfl fun hwait => ⟨hwait, rfl⟩
  | notFound runId u error size time text =>
    simp only [Rechecking.step, moveItem, Db.transition] at h
    cases hold : s.db.downloads.find? u with
    | none =>
      rw [hold] at h
      exact .kept row' h rfl fun hwait => ⟨hwait, rfl⟩
    | some old =>
      rw [hold, Option.map_some, Option.map_some, Option.getD_some, Db.find?_transitioned] at h
      obtain ⟨row, hrow, rfl⟩ := Option.map_eq_some_iff.1 h
      by_cases hurl : row.url = old.url
      · rw [if_pos hurl]
        exact .delayed time rfl (by simp [Db.transitionUpdate, Assign.apply]) rfl
      · rw [if_neg hurl]
        exact .kept row hrow rfl fun hwait => ⟨hwait, rfl⟩
  | moved runId u status detail fields text hstatus hfields =>
    simp only [Rechecking.step, moveItem, Db.transition] at h
    cases hold : s.db.downloads.find? u with
    | none =>
      rw [hold] at h
      exact .kept row' h rfl fun hwait => ⟨hwait, rfl⟩
    | some old =>
      rw [hold, Option.map_some, Option.map_some, Option.getD_some, Db.find?_transitioned] at h
      obtain ⟨row, hrow, rfl⟩ := Option.map_eq_some_iff.1 h
      by_cases hurl : row.url = old.url
      · obtain ⟨hearly, hset⟩ := set_keepsMark hfields
          ((Assign.updatedAt text).apply ((Assign.status status).apply row))
        rw [if_pos hurl]
        exact .kept row hrow hearly fun hwait => absurd (hset.symm.trans hwait) hstatus
      · rw [if_neg hurl]
        exact .kept row hrow rfl fun hwait => ⟨hwait, rfl⟩

/-- A claim moves the next recheck a day away. -/
theorem claimed_row {text : String} (h : s.Claims url (.claimed time text))
    (hrow : (s.step (.claimed time text)).db.downloads.find? url = some row') :
    row'.earlyRecheck ≠ 1 ∧ row'.recheckAt = some (time + unavailableRecheckInterval) := by
  obtain ⟨found, hfound, rfl⟩ := h
  rw [Option.mem_def] at hfound
  simp only [Rechecking.step, hfound, Db.claimRecheck, Lib.Table.find?_modify] at hrow
  obtain ⟨row, hold, rfl⟩ := Option.map_eq_some_iff.1 hrow
  rw [if_pos (Lib.Table.find?_key hold)]
  refine ⟨?_, rfl⟩
  simp only [Row.set_cons, Row.set_nil, Assign.apply]
  split <;> decide

/-- The row that is found is due, or marked. -/
theorem nextRecheck_eq_some {runId : String} (h : nextRecheck db runId time = some row) :
    db.downloads.find? row.url = some row ∧ row.status = .unavailable ∧
      (row.recheckAt.getD 0 ≤ time ∨ row.earlyRecheck = 1) := by
  obtain ⟨hmem, hdue⟩ := List.mem_filter.1 (List.mem_of_head? h)
  obtain ⟨⟨rank, _⟩, hranked, rfl⟩ := List.mem_map.1 hmem
  rw [Db.ranked, List.mem_insertionSort, List.mem_filterMap] at hranked
  obtain ⟨i, -, hi⟩ := hranked
  obtain ⟨r, hr, heq⟩ := Option.map_eq_some_iff.1 hi
  obtain ⟨-, rfl⟩ := Prod.mk.inj heq
  simp only [Bool.and_eq_true, Bool.or_eq_true, decide_eq_true_eq] at hdue
  have hurl : r.url = i.url := Lib.Table.find?_key hr
  exact ⟨hurl ▸ hr, hdue⟩

end

/-! ## After a claim -/

/-- The item was claimed at `t` and is not claimed again before a day is over. -/
structure Rechecking.Spent (s : Rechecking) (url : String) (t now : ℚ) : Prop where
  row : ∀ row, s.db.downloads.find? url = some row → row.earlyRecheck ≠ 1 ∧
    (row.status = .unavailable → t + unavailableRecheckInterval ≤ row.recheckAt.getD 0)
  found : ∀ row, s.found = some row → row.url = url → t + unavailableRecheckInterval ≤ now

/-- What the clock showed last. -/
def lastTime (now : ℚ) (events : List RecheckEvent) : ℚ :=
  events.foldl (fun now e => e.time.getD now) now

section
variable {s : Rechecking} {url : String} {t now : ℚ} {e : RecheckEvent} {events : List RecheckEvent}

theorem spent_claimed {text : String} (h : s.Claims url (.claimed t text)) :
    (s.step (.claimed t text)).Spent url t t where
  row row hrow := by
    obtain ⟨hearly, hat⟩ := claimed_row h hrow
    exact ⟨hearly, fun _ => by rw [hat, Option.getD_some]⟩
  found row hfound := by
    obtain ⟨found, hf, -⟩ := h
    rw [Option.mem_def] at hf
    simp only [Rechecking.step, hf] at hfound
    cases hfound

theorem le_nextTime (h : ∀ time ∈ e.time, now ≤ time) : now ≤ e.time.getD now := by
  cases htime : e.time with
  | none => exact le_rfl
  | some time => exact h time htime

/-- **Only a pull ends the day of a claim early.** -/
theorem spent_step (h : s.Spent url t now) (hle : t ≤ now) (hnow : ∀ time ∈ e.time, now ≤ time)
    (hpull : ¬ s.Pulls url e) : (s.step e).Spent url t (e.time.getD now) where
  row row' hrow' := by
    cases becomes_step hrow' with
    | fresh hearly hstatus => exact ⟨hearly, fun hwait => absurd hwait hstatus⟩
    | kept row hrow hearly hwait =>
      obtain ⟨hspent, hday⟩ := h.row row hrow
      refine ⟨hearly ▸ hspent, fun hstatus => ?_⟩
      obtain ⟨hstatus, hat⟩ := hwait hstatus
      rw [hat]
      exact hday hstatus
    | delayed time htime hearly hwait =>
      refine ⟨hearly, fun _ => ?_⟩
      rw [hwait, Option.getD_some]
      exact add_le_add_left (hle.trans (hnow time htime)) _
    | pulled hpulled => exact absurd hpulled hpull
  found row hfound hurl := by
    have hlater := le_nextTime hnow
    cases e with
    | looked runId time =>
      obtain ⟨hrow, hstatus, hdue⟩ := nextRecheck_eq_some hfound
      obtain ⟨hspent, hday⟩ := h.row row (hurl ▸ hrow)
      rcases hdue with hdue | hmarked
      · exact (hday hstatus).trans hdue
      · exact absurd hmarked hspent
    | claimed time text =>
      simp only [Rechecking.step] at hfound
      split at hfound
      · next hnone =>
        rw [hnone] at hfound
        cases hfound
      · cases hfound
    | imported => exact (h.found row hfound hurl).trans hlater
    | recorded => exact (h.found row hfound hurl).trans hlater
    | notFound => exact (h.found row hfound hurl).trans hlater
    | moved => exact (h.found row hfound hurl).trans hlater

theorem spent_run (h : s.Spent url t now) (hle : t ≤ now) (hclock : ClockForward now events)
    (hpull : ∀ before e after, events = before ++ e :: after → ¬ (s.run before).Pulls url e) :
    (s.run events).Spent url t (lastTime now events) := by
  induction events generalizing s now with
  | nil => exact h
  | cons e events ih =>
    obtain ⟨hnow, hclock⟩ := hclock
    have hlater := le_nextTime hnow
    refine ih (spent_step h hle hnow (hpull [] e events rfl)) (hle.trans hlater) hclock ?_
    intro before e' after heq
    exact hpull (e :: before) e' after (congrArg (e :: ·) heq)

theorem clock_concat {last : RecheckEvent} (h : ClockForward now (events ++ [last])) :
    ClockForward now events ∧ ∀ time ∈ last.time, lastTime now events ≤ time := by
  induction events generalizing now with
  | nil => exact ⟨trivial, h.1⟩
  | cons e events ih =>
    obtain ⟨hnow, hclock⟩ := h
    obtain ⟨hevents, hlast⟩ := ih hclock
    exact ⟨⟨hnow, hevents⟩, hlast⟩

/-! ## Early claims -/

/-- 1 if the item is marked for an early recheck. -/
def Rechecking.pending (s : Rechecking) (url : String) : ℕ :=
  if ∃ row ∈ s.db.downloads.find? url, row.earlyRecheck = 1 then 1 else 0

/-- **A pull marks an item once, and an early claim spends the mark.** -/
theorem pending_step : (if s.ClaimsEarly url e then 1 else 0) + (s.step e).pending url ≤
    s.pending url + if s.Pulls url e then 1 else 0 := by
  have hbound : (s.step e).pending url ≤ 1 := by
    unfold Rechecking.pending
    split <;> omega
  by_cases hpull : s.Pulls url e
  · have hnoclaim : ¬ s.ClaimsEarly url e := by
      rintro ⟨hclaims, -⟩
      obtain ⟨p, hp, -⟩ := hpull
      cases e <;> first | exact hclaims | cases hp
    rw [if_neg hnoclaim, if_pos hpull]
    omega
  by_cases hclaim : s.ClaimsEarly url e
  · obtain ⟨hclaims, row, hrow, hearly, -⟩ := hclaim
    have hbefore : s.pending url = 1 := if_pos ⟨row, hrow, hearly⟩
    have hafter : (s.step e).pending url = 0 := by
      refine if_neg ?_
      rintro ⟨row', hrow', hearly'⟩
      cases e with
      | claimed time text => exact (claimed_row hclaims hrow').1 hearly'
      | imported | recorded | looked | notFound | moved => exact hclaims
    rw [hbefore, hafter]
    split <;> omega
  · rw [if_neg hclaim, if_neg hpull, Nat.zero_add, Nat.add_zero]
    -- the mark can only have been there before
    by_cases hafter : ∃ row ∈ (s.step e).db.downloads.find? url, row.earlyRecheck = 1
    · obtain ⟨row', hrow', hearly'⟩ := hafter
      have hbefore : s.pending url = 1 := by
        refine if_pos ?_
        cases becomes_step hrow' with
        | fresh hearly => exact absurd hearly' hearly
        | kept row hrow hearly => exact ⟨row, hrow, hearly ▸ hearly'⟩
        | delayed time htime hearly => exact absurd hearly' hearly
        | pulled hpulled => exact absurd hpulled hpull
      omega
    · rw [show (s.step e).pending url = 0 from if_neg hafter]
      exact Nat.zero_le _

theorem count_run : s.count (·.ClaimsEarly url) events + (s.run events).pending url ≤
    s.pending url + s.count (·.Pulls url) events := by
  induction events generalizing s with
  | nil => simp [Rechecking.count, Rechecking.run]
  | cons e events ih =>
    have hstep := @pending_step s url e
    have hrun := @ih (s.step e)
    simp only [Rechecking.count, Rechecking.run, List.foldl_cons] at hrun ⊢
    omega

/-- An update that changes no row changes nothing. -/
theorem updateWhere_eq_self {db : Db} {p : Row → Bool} {u : Update}
    (h : ∀ row ∈ db.downloads.rows, p row = true → row.set u = row) : db.updateWhere p u = db := by
  have hrows : db.downloads.rows.map (fun r => if p r then r.set u else r) = db.downloads.rows := by
    refine (List.map_congr_left fun row hrow => ?_).trans (List.map_id _)
    split
    · next hp => exact h row hrow hp
    · rfl
  cases db with
  | mk downloads =>
    cases downloads with
    | mk rows nodup =>
      simp only [Db.updateWhere, Lib.Table.modify, Db.mk.injEq, Lib.Table.mk.injEq]
      simpa using hrows

/-- Recording the identifier that is stored changes nothing. -/
theorem recordSourceGeneration_same {db : Db} {row : Row}
    (hrow : db.downloads.find? url = some row) (time : ℚ) :
    db.recordSourceGeneration url row.sourceGeneration time = db := by
  have honly : ∀ r ∈ db.downloads.rows, r.url = url → r = row := fun r hr hurl =>
    Option.some.inj ((Lib.Table.find?_eq_some.2 ⟨hr, hurl⟩).symm.trans hrow)
  have hmark : ∀ r ∈ db.downloads.rows, (r.url = url && r.status = .unavailable &&
      r.earlyRecheck ≠ 1 && truthy r.sourceGeneration && truthy row.sourceGeneration &&
      r.sourceGeneration ≠ row.sourceGeneration && time < r.recheckAt.getD 0) = true →
        r.set [.earlyRecheck 1] = r := by
    intro r hr hcond
    simp only [Bool.and_eq_true, decide_eq_true_eq] at hcond
    obtain ⟨⟨⟨⟨⟨⟨hurl, -⟩, -⟩, -⟩, -⟩, hdiffer⟩, -⟩ := hcond
    exact absurd (congrArg Row.sourceGeneration (honly r hr hurl)) hdiffer
  rw [Db.recordSourceGeneration, updateWhere_eq_self hmark]
  refine updateWhere_eq_self fun r hr hurl => ?_
  obtain rfl := honly r hr (of_decide_eq_true hurl)
  rfl

/-- **One recheck a day**: between two claims of an item less than a day apart, an import
    pulled its recheck forward, comparing a known identifier with a different known one.
    When an import repeats the stored identifier, nothing changes, and an item that is not
    marked is claimed early at most as often as imports pull it forward. -/
theorem recheck_daily (s : Rechecking) (url : String) :
    (∀ (t₁ t₂ : ℚ) (text₁ text₂ : String) (between : List RecheckEvent),
      s.Claims url (.claimed t₁ text₁) →
      ((s.step (.claimed t₁ text₁)).run between).Claims url (.claimed t₂ text₂) →
      ClockForward t₁ (between ++ [.claimed t₂ text₂]) → t₂ < t₁ + 86400 →
        ∃ before e after, between = before ++ e :: after ∧
          ((s.step (.claimed t₁ text₁)).run before).Pulls url e) ∧
    (∀ row time, s.db.downloads.find? url = some row →
      s.step (.recorded url row.sourceGeneration time) = s) ∧
    ((∀ row, s.db.downloads.find? url = some row → row.earlyRecheck ≠ 1) → ∀ events,
      s.count (·.ClaimsEarly url) events ≤ s.count (·.Pulls url) events) := by
  refine ⟨?_, ?_, ?_⟩
  · intro t₁ t₂ text₁ text₂ between hfirst hsecond hclock hday
    by_contra hno
    obtain ⟨hbetween, hlast⟩ := clock_concat hclock
    have hspent := spent_run (spent_claimed hfirst) le_rfl hbetween
      fun before e after heq hpull => hno ⟨before, e, after, heq, hpull⟩
    obtain ⟨row, hfound, hurl⟩ := hsecond
    have hover := (hspent.found row hfound hurl).trans (hlast t₂ rfl)
    rw [unavailableRecheckInterval] at hover
    exact absurd hday (not_lt.2 hover)
  · intro row time hrow
    rw [Rechecking.step, recordSourceGeneration_same hrow]
  · intro hunmarked events
    have hnone : s.pending url = 0 := by
      refine if_neg ?_
      rintro ⟨row, hrow, hearly⟩
      exact hunmarked row hrow hearly
    have hcount := @count_run s url events
    omega

end

/-- An item that was claimed with the identifier `a`. -/
def claimedItem : Rechecking where
  db := { downloads := Lib.Table.empty.insertNew
            { url := "http://h/set/a", relativePath := "set/a", status := .unavailable,
              recheckAt := some 0, sourceGeneration := some "a", updatedAt := "" }
          runItems := Lib.Table.empty.insertNew
            { runId := "run", url := "http://h/set/a", queueRank := 0 } }
  found := some { url := "http://h/set/a", relativePath := "set/a", updatedAt := "" }

/-- A new identifier brings the next claim forward. -/
theorem recheck_daily_pulled : ∃ before e after,
    [.recorded "http://h/set/a" (some "b") 10, .looked "run" 20] = before ++ e :: after ∧
      ((claimedItem.step (.claimed 0 "")).run before).Pulls "http://h/set/a" e :=
  (recheck_daily claimedItem "http://h/set/a").1 0 20 "" "" _ (by decide)
    (by decide +kernel)
    (by simp only [ClockForward, RecheckEvent.time, List.cons_append, List.nil_append, Option.mem_def,
          Option.some.injEq, forall_eq', Option.getD_some]; decide)
    (by decide +kernel)

end TodDl.Controller
