/-
  The metrics of a run, reduced in two ways (download_telemetry.py).

  `reduceMetrics` goes over the items of the run and looks the sample of each one up;
  `reduceProjectedMetrics` goes over the samples alone and has the rest from summaries.
  Amounts are exact, and the end of a run is whatever the clock makes of its ETA.

  * `samples_perm`: the samples that the items find are the samples, in some order;
  * `foldl_reduceItem`: the first loop is the second one over the samples found;
  * `reduceProjectedMetrics_eq`: both reductions return one snapshot.
-/
import Mathlib.Algebra.Order.Field.Rat
import Mathlib.Data.List.Perm.Basic
import Mathlib.Tactic.Linarith
import TodDl.Lib.Summary
import TodDl.Store.Row

namespace TodDl.Telemetry

open Lib (keyed? Table)
open Store (Status)

/-! ## Items and samples -/

/-- A row of the selected run, as far as the metrics read it. -/
structure RunItem where
  url : String
  status : Status
  bytes : Option ℚ
  deriving DecidableEq

/-- The rows of one run.  The primary key of the run's items is `(run_id, url)`, so that no two
    rows of a run have one URL. -/
abbrev RunItems := Table RunItem.url

/-- What an engine adapter has supplied about an active transfer. -/
structure Sample where
  url : String
  receivedBytes : Option ℚ
  totalBytes : Option ℚ
  speedBps : Option ℚ
  deriving DecidableEq

/-- The rows with `status == "complete"` -/
def RunItem.isComplete (item : RunItem) : Bool := item.status = .complete

/-- `sum(row["bytes"] or 0 ...)` over the complete rows -/
def completeBytes (items : List RunItem) : ℚ :=
  ((items.filter RunItem.isComplete).map fun item => item.bytes.getD 0).sum

/-- `{row["url"]: row for row in active}`, in which the last row of a URL stays -/
def activeByUrl (active : List Sample) (url : String) : Option Sample :=
  keyed? Sample.url active.reverse url

/-! ## The snapshot -/

inductive Quality where
  | exact | partial_ | unavailable
  deriving DecidableEq

/-- `metric(value, quality)` -/
structure Metric (α : Type) where
  value : Option α
  quality : Quality
  deriving DecidableEq

structure Metrics where
  retainedBytes : Metric ℚ
  completeBytes : Metric ℚ
  sessionReceivedBytes : Metric ℚ
  knownTotalBytes : Metric ℚ
  knownRemainingBytes : Metric ℚ
  unknownSizeItems : Metric ℤ
  speedBps : Metric ℚ
  averageSpeedBps : Metric ℚ
  etaSeconds : Metric ℚ
  etaReason : String
  estimatedFinishAt : Metric String
  sessionElapsedS : Metric ℚ
  deriving DecidableEq

/-- The variables of either loop. -/
structure Amounts where
  retained : ℚ
  knownTotal : ℚ
  knownRemaining : ℚ := 0
  speed : ℚ := 0
  speedQuality : Quality := .exact
  deriving DecidableEq

attribute [ext] Amounts

namespace Amounts

/-- Before the loop. -/
def start (complete : ℚ) : Amounts := { retained := complete, knownTotal := complete }

/-- A transfer whose size is known. -/
def sized (a : Amounts) (total : ℚ) (received : Option ℚ) : Amounts :=
  { a with
    knownTotal := a.knownTotal + total
    knownRemaining := a.knownRemaining + max 0 (total - received.getD 0) }

/-- `if received is not None` -/
def received (a : Amounts) : Option ℚ → Amounts
  | some bytes => { a with retained := a.retained + bytes }
  | none => a

/-- A sample with or without a speed. -/
def sampled (a : Amounts) : Option ℚ → Amounts
  | some bps => { a with speed := a.speed + bps }
  | none => { a with speedQuality := .partial_ }

end Amounts

/-- The block that both functions end in, line for line the same, down to the dictionary they
    return.  `finish eta` is the text of the clock's time in `eta` seconds, or the error of a time
    past the calendar. -/
def report {ε : Type} (finish : ℚ → Except ε String) (started sampled : ℚ) (active : List Sample)
    (complete : ℚ) (a : Amounts) (unknown : ℤ) : Except ε Metrics := do
  let elapsed := max 0 (sampled - started)
  let eta := if active ≠ [] ∧ unknown = 0 ∧ 0 < a.speed ∧ a.speedQuality = .exact then
    some (a.knownRemaining / a.speed) else none
  let finishAt ← eta.mapM finish
  return {
    retainedBytes := ⟨some a.retained, if active = [] then .exact else .partial_⟩
    completeBytes := ⟨some complete, .exact⟩
    sessionReceivedBytes := ⟨none, .unavailable⟩
    knownTotalBytes := ⟨some a.knownTotal, if unknown ≠ 0 then .partial_ else .exact⟩
    knownRemainingBytes := ⟨some a.knownRemaining, if unknown ≠ 0 then .partial_ else .exact⟩
    unknownSizeItems := ⟨some unknown, .exact⟩
    speedBps := ⟨if active = [] then none else some a.speed,
      if active = [] then .unavailable else a.speedQuality⟩
    averageSpeedBps := ⟨none, .unavailable⟩
    etaSeconds := ⟨eta, if eta.isSome then .exact else .unavailable⟩
    etaReason := if eta.isSome then "based on current aria2 RPC speed"
      else if active = [] then "no active transfer" else "engine counters unavailable"
    estimatedFinishAt := ⟨finishAt, if finishAt.isSome then .exact else .unavailable⟩
    sessionElapsedS := ⟨some elapsed, .exact⟩ }

/-! ## `reduce_metrics` -/

/-- One pass of the loop over the items; the number counts the unknown sizes. -/
def reduceItem (active : List Sample) (state : Amounts × ℤ) (item : RunItem) : Amounts × ℤ :=
  let (a, unknown) := state
  let sample := activeByUrl active item.url
  if item.isComplete then (a, unknown)
  else
    let total := sample.bind Sample.totalBytes
    let received := sample.bind Sample.receivedBytes
    let (a, unknown) := match total with
      | none => (a, unknown + 1)
      | some total => (a.sized total received, unknown)
    let a := a.received received
    match sample with
      | some sample => (a.sampled sample.speedBps, unknown)
      | none => (a, unknown)

/-- `reduce_metrics(items, active, started_monotonic, sampled_monotonic)` -/
def reduceMetrics {ε : Type} (finish : ℚ → Except ε String) (items : List RunItem)
    (active : List Sample) (started sampled : ℚ) : Except ε Metrics :=
  let complete := completeBytes items
  let (a, unknown) := items.foldl (reduceItem active) (.start complete, 0)
  report finish started sampled active complete a unknown

/-! ## `reduce_projected_metrics` -/

/-- One pass of the loop over the samples; the number counts the known sizes. -/
def reduceSample (state : Amounts × ℤ) (sample : Sample) : Amounts × ℤ :=
  let (a, knownActive) := state
  let (a, knownActive) := match sample.totalBytes with
    | some total => (a.sized total sample.receivedBytes, knownActive + 1)
    | none => (a, knownActive)
  ((a.received sample.receivedBytes).sampled sample.speedBps, knownActive)

/-- `reduce_projected_metrics(selected_count, counts, complete_bytes, active, ...)` -/
def reduceProjectedMetrics {ε : Type} (finish : ℚ → Except ε String) (selectedCount : ℤ)
    (counts : List (String × ℤ)) (completeBytes : ℚ) (active : List Sample) (started sampled : ℚ) :
    Except ε Metrics :=
  let completeCount := (counts.lookup "complete").getD 0
  let (a, knownActive) := active.foldl reduceSample (.start completeBytes, 0)
  let unknown := max 0 (selectedCount - completeCount - knownActive)
  report finish started sampled active completeBytes a unknown

/-! ## One loop as the other -/

section
variable {active : List Sample} {items : RunItems}

/-- The rows that are not complete. -/
def openItems (items : List RunItem) : List RunItem := items.filter fun item => !item.isComplete

/-- The samples that the open rows find, in the order of the rows. -/
def samplesFound (active : List Sample) (items : List RunItem) : List Sample :=
  (openItems items).filterMap fun item => activeByUrl active item.url

/-- The open rows find every sample once. -/
theorem samples_perm (hn : (active.map Sample.url).Nodup)
    (hopen : ∀ s ∈ active, ∃ item ∈ openItems items.rows, item.url = s.url) :
    (samplesFound active items.rows).Perm active := by
  have hkeys : ((openItems items.rows).map RunItem.url).Nodup :=
    items.nodup.sublist (List.filter_sublist.map _)
  have hrev : (active.reverse.map Sample.url).Nodup := by
    rw [List.map_reverse]
    exact List.nodup_reverse.2 hn
  have hfound : ∀ s ∈ active.reverse, s.url ∈ (openItems items.rows).map RunItem.url :=
    fun s hs => List.mem_map.2 (hopen s (List.mem_reverse.1 hs))
  have := Lib.filterMap_keyed?_perm hrev hkeys hfound
  rw [List.filterMap_map] at this
  exact this.trans (List.reverse_perm _)

section
variable (state : Amounts × ℤ) (s : Sample)

@[simp] theorem reduceSample_retained :
    (reduceSample state s).1.retained = state.1.retained + s.receivedBytes.getD 0 := by
  obtain ⟨_, _ | _, _ | _, _ | _⟩ := s <;>
    simp [reduceSample, Amounts.sized, Amounts.received, Amounts.sampled]

@[simp] theorem reduceSample_knownTotal :
    (reduceSample state s).1.knownTotal = state.1.knownTotal + s.totalBytes.getD 0 := by
  obtain ⟨_, _ | _, _ | _, _ | _⟩ := s <;>
    simp [reduceSample, Amounts.sized, Amounts.received, Amounts.sampled]

@[simp] theorem reduceSample_knownRemaining :
    (reduceSample state s).1.knownRemaining = state.1.knownRemaining +
      (s.totalBytes.map fun total => max 0 (total - s.receivedBytes.getD 0)).getD 0 := by
  obtain ⟨_, _ | _, _ | _, _ | _⟩ := s <;>
    simp [reduceSample, Amounts.sized, Amounts.received, Amounts.sampled]

@[simp] theorem reduceSample_speed :
    (reduceSample state s).1.speed = state.1.speed + s.speedBps.getD 0 := by
  obtain ⟨_, _ | _, _ | _, _ | _⟩ := s <;>
    simp [reduceSample, Amounts.sized, Amounts.received, Amounts.sampled]

@[simp] theorem reduceSample_speedQuality : (reduceSample state s).1.speedQuality =
    if s.speedBps.isSome then state.1.speedQuality else .partial_ := by
  obtain ⟨_, _ | _, _ | _, _ | _⟩ := s <;>
    simp [reduceSample, Amounts.sized, Amounts.received, Amounts.sampled]

@[simp] theorem reduceSample_known :
    (reduceSample state s).2 = state.2 + if s.totalBytes.isSome then 1 else 0 := by
  obtain ⟨_, _ | _, _ | _, _ | _⟩ := s <;> simp [reduceSample]

end

/-- Two samples may change places. -/
theorem reduceSample_comm (state : Amounts × ℤ) (s s' : Sample) :
    reduceSample (reduceSample state s) s' = reduceSample (reduceSample state s') s := by
  refine Prod.ext (Amounts.ext ?_ ?_ ?_ ?_ ?_) ?_
  all_goals simp only [reduceSample_retained, reduceSample_knownTotal, reduceSample_knownRemaining,
    reduceSample_speed, reduceSample_known, reduceSample_speedQuality]
  case refine_5 => split <;> simp
  all_goals exact add_right_comm _ _ _

/-- The loop over the samples counts those with a size. -/
theorem foldl_reduceSample_snd (samples : List Sample) (state : Amounts × ℤ) :
    (samples.foldl reduceSample state).2 =
      state.2 + samples.countP fun s => s.totalBytes.isSome := by
  induction samples generalizing state with
  | nil => simp
  | cons s samples ih =>
    rw [List.foldl_cons, ih, reduceSample_known, List.countP_cons]
    split <;> push_cast <;> omega

/-- An open row without a sample has an unknown size. -/
theorem reduceItem_unsampled {item : RunItem} (hitem : item.isComplete = false)
    (h : activeByUrl active item.url = none) (a : Amounts) (unknown : ℤ) :
    reduceItem active (a, unknown) item = (a, unknown + 1) := by
  simp [reduceItem, hitem, h, Amounts.received]

/-- An open row with a sample is a pass of the other loop. -/
theorem reduceItem_sampled {item : RunItem} {s : Sample} (hitem : item.isComplete = false)
    (h : activeByUrl active item.url = some s) (a : Amounts) (unknown known : ℤ) :
    reduceItem active (a, unknown) item = ((reduceSample (a, known) s).1,
      unknown + 1 - if s.totalBytes.isSome then 1 else 0) := by
  obtain ⟨_, _ | _, _ | _, _ | _⟩ := s <;>
    simp [reduceItem, reduceSample, hitem, h, Amounts.received, Amounts.sampled, Amounts.sized]

/-- **The first loop as the second**: the amounts are those of the samples found, and the
    sizes that are unknown are those of the other open rows. -/
theorem foldl_reduceItem (rows : List RunItem) (a : Amounts) (unknown known : ℤ) :
    rows.foldl (reduceItem active) (a, unknown) =
      (((samplesFound active rows).foldl reduceSample (a, known)).1,
        unknown + (openItems rows).length -
          (samplesFound active rows).countP fun s => s.totalBytes.isSome) := by
  induction rows generalizing a unknown known with
  | nil => simp [samplesFound, openItems]
  | cons item rows ih =>
    rw [List.foldl_cons]
    by_cases hitem : item.isComplete
    · have hopen : openItems (item :: rows) = openItems rows := by simp [openItems, hitem]
      have hstep : reduceItem active (a, unknown) item = (a, unknown) := by
        simp [reduceItem, hitem]
      rw [hstep, ih a unknown known, samplesFound, samplesFound, hopen]
    · have hitem : item.isComplete = false := by simpa using hitem
      have hopen : openItems (item :: rows) = item :: openItems rows := by
        simp [openItems, hitem]
      rw [samplesFound, hopen, List.filterMap_cons, List.length_cons]
      cases hs : activeByUrl active item.url with
      | none =>
        rw [reduceItem_unsampled hitem hs, ih a (unknown + 1) known]
        refine Prod.ext rfl ?_
        simp only [samplesFound]
        push_cast
        omega
      | some s =>
        rw [reduceItem_sampled hitem hs a unknown known, ih _ _ (reduceSample (a, known) s).2]
        refine Prod.ext rfl ?_
        simp only [samplesFound, List.countP_cons]
        push_cast
        split <;> omega

end

/-! ## The reductions -/

/-- Open and complete rows are all rows. -/
theorem length_openItems (items : List RunItem) :
    ((openItems items).length : ℤ) = items.length - items.countP RunItem.isComplete := by
  have hsum := List.length_eq_countP_add_countP RunItem.isComplete (l := items)
  rw [openItems, ← List.countP_eq_length_filter]
  simp only [Bool.not_eq_true, Bool.decide_eq_false] at hsum
  omega

/-- **The fast reduction is the plain one**: with the summaries of the items, a sample for each
    active transfer and no two for one URL, both return the same metrics. -/
theorem reduceProjectedMetrics_eq {ε : Type} (finish : ℚ → Except ε String) (items : RunItems)
    (counts : List (String × ℤ)) (active : List Sample) (started sampled : ℚ)
    (hn : (active.map Sample.url).Nodup)
    (hopen : ∀ s ∈ active, ∃ item ∈ items.rows, item.url = s.url ∧ item.status ≠ .complete)
    (hcounts : counts.lookup "complete" = some (items.rows.countP RunItem.isComplete : ℤ)) :
    reduceProjectedMetrics finish items.rows.length counts (completeBytes items.rows) active
      started sampled = reduceMetrics finish items.rows active started sampled := by
  have hfound : (samplesFound active items.rows).Perm active := by
    refine samples_perm hn fun s hs => ?_
    obtain ⟨item, hitem, hurl, hstatus⟩ := hopen s hs
    exact ⟨item, by simp [openItems, RunItem.isComplete, hitem, hstatus], hurl⟩
  set start := Amounts.start (completeBytes items.rows)
  -- the order of the samples makes no difference
  have hloop : (samplesFound active items.rows).foldl reduceSample (start, 0) =
      active.foldl reduceSample (start, 0) :=
    hfound.foldl_eq' (fun _ _ _ _ state => reduceSample_comm state _ _) _
  have hknown := foldl_reduceSample_snd active (start, 0)
  have hunknown : max 0 ((items.rows.length : ℤ) - items.rows.countP RunItem.isComplete -
        (active.foldl reduceSample (start, 0)).2) =
      0 + (openItems items.rows).length -
        (samplesFound active items.rows).countP fun s => s.totalBytes.isSome := by
    have hle : (samplesFound active items.rows).countP (fun s => s.totalBytes.isSome) ≤
        (openItems items.rows).length :=
      List.countP_le_length.trans (List.length_filterMap_le _ _)
    rw [hknown, ← hfound.countP_eq, ← length_openItems]
    omega
  rw [reduceProjectedMetrics, reduceMetrics, hcounts, foldl_reduceItem items.rows start 0 0, hloop]
  simp only [Option.getD_some]
  rw [hunknown]

/-- A complete row and two that are transferred. -/
def threeItems : RunItems :=
  ⟨[⟨"https://host/a", .complete, some 7⟩, ⟨"https://host/b", .active, none⟩,
    ⟨"https://host/c", .active, none⟩], by decide⟩

/-- Their samples, which the engine lists the other way round. -/
def twoSamples : List Sample :=
  [⟨"https://host/c", some 1, some 4, some 2⟩, ⟨"https://host/b", some 3, some 5, some 1⟩]

/-- A clock that tells near times from far ones. -/
def roughly (eta : ℚ) : Except Empty String := .ok (if eta < 2 then "soon" else "later")

theorem reduceProjectedMetrics_eq_threeItems :
    reduceProjectedMetrics roughly threeItems.rows.length [("complete", 1)]
        (completeBytes threeItems.rows) twoSamples 1 2 =
      reduceMetrics roughly threeItems.rows twoSamples 1 2 ∧
    (reduceMetrics roughly threeItems.rows twoSamples 1 2).map (fun metrics =>
        (metrics.knownRemainingBytes.value, metrics.speedBps.value, metrics.etaSeconds.value,
          metrics.estimatedFinishAt.value)) =
      .ok (some 5, some 3, some (5 / 3), some "soon") :=
  ⟨reduceProjectedMetrics_eq _ threeItems _ twoSamples 1 2 (by decide) (by decide) (by decide),
    by decide +kernel⟩

end TodDl.Telemetry
