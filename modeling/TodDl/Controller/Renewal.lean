/-
  The controller — requests for new Tor circuits (tod-dl.py, `request_newnym`).

  Any number of threads call `request_newnym` with the database.  A call reads the
  clock and checks the limit under `newnym_lock`, sends the signal without a lock,
  and records the result; `Renewals` is what they share, with the signals sent so
  far.

  `limited_of_alone`: the check of a call keeps the recorded times apart as long as no
  other call is on its way, and the signals too as long as none waits longer after its
  check than a later one does.
-/
import Mathlib.Algebra.Order.Field.Rat
import Mathlib.Data.Rat.Floor
import Mathlib.Tactic.Linarith
import TodDl.Lib.Guarded
import TodDl.Lib.Table

namespace TodDl.Controller

/-! ## The calls -/

/-- The values of `tor_renewals.outcome`. -/
inductive RenewalOutcome where
  | pending
  | rejected
  | failed
  | completed
  deriving DecidableEq

/-- A row of `tor_renewals`. -/
structure Renewal where
  requestId : String
  intervalSeconds : ℕ
  previousSuccessAt : Option ℚ
  outcome : RenewalOutcome
  failureReason : Option String := none
  successfulAt : Option ℚ := none
  nextEligibleAt : Option ℚ := none

/-- Where a call is; `current` is the time it read. -/
inductive Phase where
  | checking (current : ℚ)
  | sending (current : ℚ)
  /-- the signal was sent, or it failed for a reason -/
  | recording (current : ℚ) (failure : Option String)

/-- The time a call read. -/
def Phase.current : Phase → ℚ
  | .checking current | .sending current | .recording current _ => current

/-- A call of a thread. -/
structure Call where
  thread : ℕ
  requestId : String
  phase : Phase

/-- The call is past its check, and its result is not recorded. -/
def Call.onItsWay (c : Call) : Bool :=
  match c.phase with
  | .checking _ => false
  | _ => true

/-- A signal that was sent, the time that its call read, and whether Tor accepted it. -/
structure Signal where
  time : ℚ
  checked : ℚ
  ok : Bool

/-- How long it was sent after the check. -/
def Signal.delay (g : Signal) : ℚ := g.time - g.checked

/-- What the threads share, their calls, and the signals, the last one first. -/
structure Renewals where
  clock : ℚ := 0
  table : Lib.Table Renewal.requestId := .empty
  calls : List Call := []
  signals : List Signal := []

/-- A step of a thread, or of the clock. -/
inductive RenewalStep where
  | tick (time : ℚ)
  | enter (thread : ℕ) (requestId : String)
  | check (thread : ℕ)
  | send (thread : ℕ) (failure : Option String)
  | record (thread : ℕ)

namespace Renewals
variable (interval : ℕ) (s : Renewals)

/-- The call of a thread. -/
def call (thread : ℕ) : Option Call := s.calls.find? fun c => c.thread = thread

/-- The other calls. -/
def others (thread : ℕ) : List Call := s.calls.filter fun c => c.thread ≠ thread

/-- `SELECT MAX(successful_at) FROM tor_renewals` -/
def previous : Option ℚ := (s.table.rows.filterMap (·.successfulAt)).max?

/-- The limit refuses a call that read this time. -/
def refuses (current : ℚ) : Bool := s.previous.any fun p => current < p + interval

/-- `f"renewal available in {remaining} seconds"` -/
def waitReason (current : ℚ) : String :=
  let remaining := s.previous.getD 0 + interval - current + 999 / 1000
  "renewal available in " ++ toString ⌊remaining⌋ ++ " seconds"

/-- The check and the INSERT, for a call that read `current`. -/
def checked (c : Call) (current : ℚ) : Renewals :=
  if (s.table.find? c.requestId).isSome then { s with calls := s.others c.thread }
  else if s.refuses interval current then
    { s with
      calls := s.others c.thread
      table := s.table.insertNew ⟨c.requestId, interval, s.previous, .rejected,
        some (s.waitReason interval current), none, none⟩ }
  else
    { s with
      calls := { c with phase := .sending current } :: s.others c.thread
      table := s.table.insertNew ⟨c.requestId, interval, s.previous, .pending, none, none, none⟩ }

/-- The row after the result of a request. -/
def settled (current : ℚ) (failure : Option String) (r : Renewal) : Renewal :=
  match failure with
  | none => { r with
      outcome := .completed, successfulAt := some current,
      nextEligibleAt := some (current + interval) }
  | some reason => { r with
      outcome := .failed, failureReason := some (String.ofList (reason.toList.take 512)) }

theorem requestId_settled (current : ℚ) (failure : Option String) (r : Renewal) :
    (settled interval current failure r).requestId = r.requestId := by
  cases failure <;> rfl

/-- One step. -/
def step : RenewalStep → Option Renewals
  | .tick time => if s.clock ≤ time then some { s with clock := time } else none
  | .enter thread requestId =>
    if interval ≠ 0 ∧ (s.call thread).isNone ∧ ∀ c ∈ s.calls, c.onItsWay = true then
      some { s with calls := ⟨thread, requestId, .checking s.clock⟩ :: s.calls }
    else none
  | .check thread =>
    match s.call thread with
    | some ⟨t, requestId, .checking current⟩ =>
      some (s.checked interval ⟨t, requestId, .checking current⟩ current)
    | _ => none
  | .send thread failure =>
    match s.call thread with
    | some ⟨t, requestId, .sending current⟩ => some { s with
        calls := ⟨t, requestId, .recording current failure⟩ :: s.others thread
        signals := ⟨s.clock, current, failure.isNone⟩ :: s.signals }
    | _ => none
  | .record thread =>
    match s.call thread with
    | some ⟨_, requestId, .recording current failure⟩ => some { s with
        calls := s.others thread
        table := s.table.modify
          (fun r => if r.requestId = requestId then settled interval current failure r else r)
          (fun r => by split <;> simp [requestId_settled]) }
    | _ => none

/-! ## The limit -/

/-- **The rate limit**: recorded successes are an interval apart, and no signal follows
    a successful one earlier. -/
structure Limited : Prop where
  recorded : ∀ r ∈ s.table.rows, ∀ r' ∈ s.table.rows, r.requestId ≠ r'.requestId →
    ∀ t t', r.successfulAt = some t → r'.successfulAt = some t' → t ≤ t' → t + interval ≤ t'
  signals : s.signals.Pairwise fun later earlier : Signal =>
    earlier.ok = true → earlier.time + interval ≤ later.time

/-- The request ID of a call that is at its check, and the time it read. -/
def atCheck (thread : ℕ) : Option (String × ℚ) :=
  match s.call thread with
  | some ⟨_, requestId, .checking current⟩ => some (requestId, current)
  | _ => none

/-- The time that a call read whose signal is to be sent. -/
def atSend (thread : ℕ) : Option ℚ :=
  match s.call thread with
  | some ⟨_, _, .sending current⟩ => some current
  | _ => none

/-- A check that lets its call through finds no other one on its way, and a signal is sent
    no sooner after its check than the successful ones before it. -/
def Alone : RenewalStep → Prop
  | .check thread => ∀ p ∈ s.atCheck thread,
    s.table.find? p.1 = none → s.refuses interval p.2 = false →
      ∀ c ∈ s.calls, c.onItsWay = false
  | .send thread _ => ∀ current ∈ s.atSend thread, ∀ g ∈ s.signals, g.ok = true →
    g.delay ≤ s.clock - current
  | _ => True

instance (l : RenewalStep) : Decidable (s.Alone interval l) := by
  cases l <;> unfold Alone <;> infer_instance

/-- No call is under way, the limit holds, and the successful signals are recorded. -/
structure Rested : Prop where
  calls : s.calls = []
  limited : s.Limited interval
  recorded : ∀ g ∈ s.signals, g.ok = true → ∃ r ∈ s.table.rows, r.successfulAt = some g.checked

/-- What every step keeps: besides the limit, at most one call is on its way, after
    all the successes, and a successful signal is recorded or about to be. -/
structure Spaced : Prop where
  limited : s.Limited interval
  clock : ∀ c ∈ s.calls, c.phase.current ≤ s.clock
  threads : (s.calls.map (·.thread)).Nodup
  one : ∀ c ∈ s.calls, ∀ d ∈ s.calls, c.onItsWay = true → d.onItsWay = true → c = d
  pending : ∀ c ∈ s.calls, c.onItsWay = true →
    ∃ r ∈ s.table.rows, r.requestId = c.requestId ∧ r.successfulAt = none
  successes : ∀ c ∈ s.calls, c.onItsWay = true → ∀ r ∈ s.table.rows, ∀ t,
    r.successfulAt = some t → t + interval ≤ c.phase.current
  signals : ∀ c ∈ s.calls, ∀ current, c.phase = .sending current → ∀ g ∈ s.signals,
    g.ok = true → g.checked + interval ≤ current
  recorded : ∀ g ∈ s.signals, g.ok = true →
    (∃ r ∈ s.table.rows, r.successfulAt = some g.checked) ∨
      ∃ c ∈ s.calls, c.phase = .recording g.checked none

variable {interval} {s} {s' : Renewals}

theorem mem_of_call {thread : ℕ} {c : Call} (h : s.call thread = some c) :
    c ∈ s.calls ∧ c.thread = thread :=
  ⟨List.mem_of_find?_eq_some h, by simpa using List.find?_some h⟩

theorem mem_others {thread : ℕ} {c : Call} : c ∈ s.others thread ↔ c ∈ s.calls ∧ c.thread ≠ thread := by
  simp [others]

/-- What the limit lets through comes after the recorded successes. -/
theorem le_of_not_refuses {current : ℚ} (h : s.refuses interval current = false) {r : Renewal}
    (hr : r ∈ s.table.rows) {t : ℚ} (ht : r.successfulAt = some t) : t + interval ≤ current := by
  have hmem : t ∈ s.table.rows.filterMap (·.successfulAt) := List.mem_filterMap.2 ⟨r, hr, ht⟩
  rw [refuses, previous] at h
  cases hmax : (s.table.rows.filterMap (·.successfulAt)).max? with
  | none => rw [List.max?_eq_none_iff.1 hmax] at hmem; cases hmem
  | some p =>
    have hle : t ≤ p := (List.max?_eq_some_iff.1 hmax).2 t hmem
    rw [hmax, Option.any_some, decide_eq_false_iff_not, not_lt] at h
    linarith

/-- A row that was there stays. -/
theorem mem_insertNew_of_mem {table : Lib.Table Renewal.requestId} {r : Renewal} (a : Renewal)
    (hr : r ∈ table.rows) : r ∈ (table.insertNew a).rows := by
  rw [Lib.Table.insertNew]
  split
  · exact hr
  · exact List.mem_append_left _ hr

/-- A row with a new key is put in. -/
theorem mem_insertNew_self {table : Lib.Table Renewal.requestId} {a : Renewal}
    (h : table.find? a.requestId = none) : a ∈ (table.insertNew a).rows := by
  rw [Lib.Table.insertNew, dif_neg (Lib.Table.find?_eq_none.1 h)]
  exact List.mem_append_right _ (List.mem_singleton_self a)

/-- A new row without a success adds no success. -/
theorem mem_of_insertNew {table : Lib.Table Renewal.requestId} {a r : Renewal}
    (ha : a.successfulAt = none) (hr : r ∈ (table.insertNew a).rows) {t : ℚ}
    (ht : r.successfulAt = some t) : r ∈ table.rows := by
  rw [Lib.Table.insertNew] at hr
  split at hr
  · exact hr
  · rcases List.mem_append.1 hr with hr | hr
    · exact hr
    · rw [List.mem_singleton.1 hr, ha] at ht
      cases ht

/-- The call of a thread is one. -/
theorem Spaced.unique (h : s.Spaced interval) {thread : ℕ} {c d : Call}
    (hcall : s.call thread = some c) (hd : d ∈ s.calls) (hthread : d.thread = thread) : d = c := by
  obtain ⟨hmem, hc⟩ := mem_of_call hcall
  exact List.inj_on_of_nodup_map h.threads hd hmem (hthread.trans hc.symm)

/-- A call at its check that ends, and rows without a success, keep everything. -/
theorem Spaced.leave (h : s.Spaced interval) {thread : ℕ} {requestId : String} {current : ℚ}
    {table : Lib.Table Renewal.requestId}
    (hcall : s.call thread = some ⟨thread, requestId, .checking current⟩)
    (hkept : ∀ r ∈ s.table.rows, r ∈ table.rows)
    (hrows : ∀ r ∈ table.rows, ∀ t, r.successfulAt = some t → r ∈ s.table.rows) :
    { s with calls := s.others thread, table }.Spaced interval where
  limited := ⟨fun r hr r' hr' hne t t' ht ht' => h.limited.recorded r (hrows r hr t ht) r'
    (hrows r' hr' t' ht') hne t t' ht ht', h.limited.signals⟩
  clock c hc := h.clock c (mem_others.1 hc).1
  threads := h.threads.sublist (List.filter_sublist.map _)
  one c hc d hd := h.one c (mem_others.1 hc).1 d (mem_others.1 hd).1
  pending c hc hway := (h.pending c (mem_others.1 hc).1 hway).imp fun _ hr => ⟨hkept _ hr.1, hr.2⟩
  successes c hc hway r hr t ht := h.successes c (mem_others.1 hc).1 hway r (hrows r hr t ht) t ht
  signals c hc := h.signals c (mem_others.1 hc).1
  recorded g hg hok := by
    rcases h.recorded g hg hok with ⟨r, hr, ht⟩ | ⟨c, hc, hphase⟩
    · exact .inl ⟨r, hkept r hr, ht⟩
    · refine .inr ⟨c, mem_others.2 ⟨hc, fun hthread => ?_⟩, hphase⟩
      rw [h.unique hcall hc hthread] at hphase
      cases hphase

/-- The calls when one of them goes on. -/
theorem Spaced.nodup_threads (h : s.Spaced interval) (thread : ℕ) (requestId : String)
    (phase : Phase) : ((⟨thread, requestId, phase⟩ :: s.others thread).map (·.thread)).Nodup := by
  rw [List.map_cons, List.nodup_cons]
  refine ⟨fun hmem => ?_, h.threads.sublist (List.filter_sublist.map _)⟩
  obtain ⟨c, hc, hthread⟩ := List.mem_map.1 hmem
  exact (mem_others.1 hc).2 hthread

/-- A check keeps the calls apart. -/
theorem Spaced.checked (h : s.Spaced interval) {thread : ℕ} {requestId : String} {current : ℚ}
    (hcall : s.call thread = some ⟨thread, requestId, .checking current⟩)
    (halone : s.Alone interval (.check thread)) :
    (s.checked interval ⟨thread, requestId, .checking current⟩ current).Spaced interval := by
  obtain ⟨hmem, -⟩ := mem_of_call hcall
  have hclock : current ≤ s.clock := h.clock _ hmem
  unfold Renewals.checked
  split
  · exact h.leave hcall (fun _ hr => hr) fun r hr _ _ => hr
  · next hnew =>
    have hnew : s.table.find? requestId = none := by simpa using hnew
    split
    · exact h.leave hcall (fun r => mem_insertNew_of_mem _) fun r hr t ht =>
        mem_of_insertNew rfl hr ht
    · next hpass =>
      have hpass : s.refuses interval current = false := by simpa using hpass
      have hcalls := halone (requestId, current) (by simp [atCheck, hcall]) hnew hpass
      have hothers : ∀ c ∈ s.others thread, c.onItsWay = false := fun c hc =>
        hcalls c (mem_others.1 hc).1
      -- with no other call on its way every success is recorded
      have hrecorded : ∀ g ∈ s.signals, g.ok = true →
          ∃ r ∈ s.table.rows, r.successfulAt = some g.checked := by
        intro g hg hok
        refine (h.recorded g hg hok).resolve_right ?_
        rintro ⟨c, hc, hphase⟩
        have := hcalls c hc
        rw [Call.onItsWay, hphase] at this
        cases this
      refine ⟨?_, ?_, h.nodup_threads _ _ _, ?_, ?_, ?_, ?_, fun g hg hok => .inl ?_⟩
      · exact ⟨fun r hr r' hr' hne t t' ht ht' => h.limited.recorded r (mem_of_insertNew rfl hr ht)
          r' (mem_of_insertNew rfl hr' ht') hne t t' ht ht', h.limited.signals⟩
      · intro c hc
        rcases List.mem_cons.1 hc with rfl | hc
        · exact hclock
        · exact h.clock c (mem_others.1 hc).1
      · intro c hc d hd hcway hdway
        rcases List.mem_cons.1 hc with rfl | hc <;> rcases List.mem_cons.1 hd with rfl | hd
        · rfl
        · rw [hothers d hd] at hdway; cases hdway
        · rw [hothers c hc] at hcway; cases hcway
        · rw [hothers c hc] at hcway; cases hcway
      · intro c hc hway
        rcases List.mem_cons.1 hc with rfl | hc
        · exact ⟨_, mem_insertNew_self hnew, rfl, rfl⟩
        · rw [hothers c hc] at hway; cases hway
      · intro c hc hway r hr t ht
        rcases List.mem_cons.1 hc with rfl | hc
        · exact le_of_not_refuses hpass (mem_of_insertNew rfl hr ht) ht
        · rw [hothers c hc] at hway; cases hway
      · intro c hc current' hphase g hg hok
        rcases List.mem_cons.1 hc with rfl | hc
        · obtain rfl : current = current' := Phase.sending.inj hphase
          obtain ⟨r, hr, ht⟩ := hrecorded g hg hok
          exact le_of_not_refuses hpass hr ht
        · have := hothers c hc
          rw [Call.onItsWay, hphase] at this
          cases this
      · obtain ⟨r, hr, ht⟩ := hrecorded g hg hok
        exact ⟨r, mem_insertNew_of_mem _ hr, ht⟩

/-- The other calls than the one on its way are at their checks. -/
theorem Spaced.others_checking (h : s.Spaced interval) {thread : ℕ} {c : Call}
    (hcall : s.call thread = some c) (hway : c.onItsWay = true) :
    ∀ d ∈ s.others thread, d.onItsWay = false := by
  intro d hd
  obtain ⟨hmem, hthread⟩ := mem_of_call hcall
  obtain ⟨hdmem, hne⟩ := mem_others.1 hd
  by_contra hdway
  exact hne (h.one c hmem d hdmem hway (by simpa using hdway) ▸ hthread)

/-- A signal keeps the calls apart, and comes an interval after the successful ones. -/
theorem Spaced.sent (h : s.Spaced interval) {thread : ℕ} {requestId : String} {current : ℚ}
    (failure : Option String)
    (hcall : s.call thread = some ⟨thread, requestId, .sending current⟩)
    (halone : s.Alone interval (.send thread failure)) :
    { s with
      calls := ⟨thread, requestId, .recording current failure⟩ :: s.others thread
      signals := ⟨s.clock, current, failure.isNone⟩ :: s.signals }.Spaced interval := by
  obtain ⟨hmem, -⟩ := mem_of_call hcall
  have hothers := h.others_checking hcall rfl
  have hdelays := halone current (by simp [atSend, hcall])
  have hclock : current ≤ s.clock := h.clock _ hmem
  have hpending := h.pending _ hmem rfl
  have hsuccesses := h.successes _ hmem rfl
  refine ⟨⟨h.limited.recorded, ?_⟩, ?_, h.nodup_threads _ _ _, ?_, ?_, ?_, ?_, ?_⟩
  · -- the check came an interval after theirs, and the signal waited no less
    refine List.pairwise_cons.2 ⟨fun g hg hok => ?_, h.limited.signals⟩
    have hspaced := h.signals _ hmem current rfl g hg hok
    have hdelay := hdelays g hg hok
    rw [Signal.delay] at hdelay
    show g.time + interval ≤ s.clock
    linarith
  · intro c hc
    rcases List.mem_cons.1 hc with rfl | hc
    · exact hclock
    · exact h.clock c (mem_others.1 hc).1
  · intro c hc d hd hcway hdway
    rcases List.mem_cons.1 hc with rfl | hc <;> rcases List.mem_cons.1 hd with rfl | hd
    · rfl
    · rw [hothers d hd] at hdway; cases hdway
    · rw [hothers c hc] at hcway; cases hcway
    · rw [hothers c hc] at hcway; cases hcway
  · intro c hc hway
    rcases List.mem_cons.1 hc with rfl | hc
    · exact hpending
    · rw [hothers c hc] at hway; cases hway
  · intro c hc hway
    rcases List.mem_cons.1 hc with rfl | hc
    · exact hsuccesses
    · rw [hothers c hc] at hway; cases hway
  · intro c hc current' hphase
    rcases List.mem_cons.1 hc with rfl | hc
    · cases hphase
    · have := hothers c hc
      rw [Call.onItsWay, hphase] at this
      cases this
  · intro g hg hok
    rcases List.mem_cons.1 hg with rfl | hg
    · refine .inr ⟨_, List.mem_cons_self, ?_⟩
      rw [Option.isNone_iff_eq_none.1 hok]
    · refine (h.recorded g hg hok).imp id ?_
      rintro ⟨c, hc, hphase⟩
      have hway : c.onItsWay = true := by rw [Call.onItsWay, hphase]
      rw [h.one c hc _ hmem hway rfl] at hphase
      cases hphase

/-- A recorded success comes an interval after the others. -/
theorem Spaced.recording (h : s.Spaced interval) {thread : ℕ} {requestId : String} {current : ℚ}
    {failure : Option String}
    (hcall : s.call thread = some ⟨thread, requestId, .recording current failure⟩) :
    { s with
      calls := s.others thread
      table := s.table.modify
        (fun r => if r.requestId = requestId then settled interval current failure r else r)
        (fun r => by split <;> simp [requestId_settled]) }.Spaced interval := by
  obtain ⟨hmem, -⟩ := mem_of_call hcall
  have hothers := h.others_checking hcall rfl
  have hsuccesses := h.successes _ hmem rfl
  obtain ⟨row, hrowmem, hrowid, hrownone⟩ := h.pending _ hmem rfl
  -- a success after the step was there before it, or it is the one that is recorded
  have hrow : ∀ r ∈ (s.table.modify
      (fun r => if r.requestId = requestId then settled interval current failure r else r)
      (fun r => by split <;> simp [requestId_settled])).rows, ∀ t, r.successfulAt = some t →
        (∃ r₀ ∈ s.table.rows, r₀.successfulAt = some t ∧ r₀.requestId = r.requestId) ∨
          r.requestId = requestId ∧ t = current := by
    intro r hr t ht
    obtain ⟨r₀, hr₀, rfl⟩ := List.mem_map.1 hr
    by_cases hid : r₀.requestId = requestId
    · rw [if_pos hid] at ht ⊢
      cases failure with
      | none => exact .inr ⟨hid, (Option.some.inj ht).symm⟩
      | some reason => exact .inl ⟨r₀, hr₀, ht, rfl⟩
    · rw [if_neg hid] at ht ⊢
      exact .inl ⟨r₀, hr₀, ht, rfl⟩
  refine ⟨⟨?_, h.limited.signals⟩, fun c hc => h.clock c (mem_others.1 hc).1,
    h.threads.sublist (List.filter_sublist.map _), ?_, ?_, ?_, ?_, ?_⟩
  · intro r hr r' hr' hne t t' ht ht' hle
    rcases hrow r hr t ht with ⟨r₀, hr₀, ht₀, hid₀⟩ | ⟨hid, rfl⟩ <;>
      rcases hrow r' hr' t' ht' with ⟨r₁, hr₁, ht₁, hid₁⟩ | ⟨hid', rfl⟩
    · exact h.limited.recorded r₀ hr₀ r₁ hr₁ (by rw [hid₀, hid₁]; exact hne) t t' ht₀ ht₁ hle
    · exact hsuccesses r₀ hr₀ t ht₀
    · have hlast : t' + interval ≤ t := hsuccesses r₁ hr₁ t' ht₁
      linarith
    · exact absurd (hid.trans hid'.symm) hne
  · intro c hc d hd hway
    rw [hothers c hc] at hway; cases hway
  · intro c hc hway
    rw [hothers c hc] at hway; cases hway
  · intro c hc hway
    rw [hothers c hc] at hway; cases hway
  · intro c hc current' hphase
    have := hothers c hc
    rw [Call.onItsWay, hphase] at this
    cases this
  · intro g hg hok
    rcases h.recorded g hg hok with ⟨r, hr, ht⟩ | ⟨c, hc, hphase⟩
    · -- the row that is recorded had no success
      refine .inl ⟨r, List.mem_map.2 ⟨r, hr, if_neg fun hid => ?_⟩, ht⟩
      have hsame : r = row :=
        List.inj_on_of_nodup_map s.table.nodup hr hrowmem (hid.trans hrowid.symm)
      rw [hsame, hrownone] at ht
      cases ht
    · have hway : c.onItsWay = true := by rw [Call.onItsWay, hphase]
      rw [h.one c hc _ hmem hway rfl] at hphase
      obtain ⟨rfl, rfl⟩ := Phase.recording.inj hphase
      exact .inl ⟨_, List.mem_map.2 ⟨row, hrowmem, if_pos hrowid⟩, rfl⟩

theorem Spaced.step (h : s.Spaced interval) {l : RenewalStep} (halone : s.Alone interval l)
    (hs : s.step interval l = some s') : s'.Spaced interval := by
  cases l with
  | tick time =>
    rw [Renewals.step] at hs
    split at hs
    · next hle =>
      obtain rfl := Option.some.inj hs
      exact ⟨⟨h.limited.recorded, h.limited.signals⟩, fun c hc => (h.clock c hc).trans hle,
        h.threads, h.one, h.pending, h.successes, h.signals, h.recorded⟩
    · cases hs
  | enter thread requestId =>
    rw [Renewals.step] at hs
    split at hs
    · next henter =>
      obtain rfl := Option.some.inj hs
      refine ⟨⟨h.limited.recorded, h.limited.signals⟩, ?_, ?_, ?_, ?_, ?_, ?_, ?_⟩
      · exact List.forall_mem_cons.2 ⟨le_refl s.clock, h.clock⟩
      · rw [List.map_cons, List.nodup_cons]
        refine ⟨fun hmem => ?_, h.threads⟩
        obtain ⟨c, hc, hthread⟩ := List.mem_map.1 hmem
        have hnone := List.find?_eq_none.1 (Option.isNone_iff_eq_none.1 henter.2.1) c hc
        exact hnone (decide_eq_true hthread)
      · intro c hc d hd hcway hdway
        rcases List.mem_cons.1 hc with rfl | hc
        · cases hcway
        · rcases List.mem_cons.1 hd with rfl | hd
          · cases hdway
          · exact h.one c hc d hd hcway hdway
      · intro c hc hway
        rcases List.mem_cons.1 hc with rfl | hc
        · cases hway
        · exact h.pending c hc hway
      · intro c hc hway
        rcases List.mem_cons.1 hc with rfl | hc
        · cases hway
        · exact h.successes c hc hway
      · intro c hc current hphase
        rcases List.mem_cons.1 hc with rfl | hc
        · cases hphase
        · exact h.signals c hc current hphase
      · intro g hg hok
        refine (h.recorded g hg hok).imp id ?_
        rintro ⟨c, hc, hphase⟩
        exact ⟨c, List.mem_cons_of_mem _ hc, hphase⟩
    · cases hs
  | check thread =>
    rw [Renewals.step] at hs
    split at hs
    · next t requestId current hcall =>
      obtain rfl : t = thread := (mem_of_call hcall).2
      obtain rfl := Option.some.inj hs
      exact h.checked hcall halone
    · cases hs
  | send thread failure =>
    rw [Renewals.step] at hs
    split at hs
    · next t requestId current hcall =>
      obtain rfl : t = thread := (mem_of_call hcall).2
      obtain rfl := Option.some.inj hs
      exact h.sent failure hcall halone
    · cases hs
  | record thread =>
    rw [Renewals.step] at hs
    split at hs
    · next t requestId current failure hcall =>
      obtain rfl : t = thread := (mem_of_call hcall).2
      obtain rfl := Option.some.inj hs
      exact h.recording hcall
    · cases hs

theorem Rested.spaced (h : s.Rested interval) : s.Spaced interval := by
  obtain ⟨hcalls, hlimited, hrecorded⟩ := h
  exact ⟨hlimited, by simp [hcalls], by simp [hcalls], by simp [hcalls], by simp [hcalls],
    by simp [hcalls], by simp [hcalls], fun g hg hok => .inl (hrecorded g hg hok)⟩

/-- **The limit holds** in every run whose checks let a call through only when no other
    one is on its way, and whose signals wait no longer after their checks than later ones. -/
theorem limited_of_alone (interval : ℕ) (s s' : Renewals) (hrested : s.Rested interval)
    (hrun : Lib.GRun (Renewals.step interval) (Renewals.Alone interval) s s') :
    s'.Limited interval :=
  (hrun.invariant (Spaced interval) hrested.spaced fun _ _ _ h hC hs => h.step hC hs).limited

/-! ## Two threads -/

/-- Two threads check the limit before either one records its result. -/
def overlapping : List RenewalStep :=
  [.enter 1 "a", .check 1, .enter 2 "b", .check 2, .send 1 none, .send 2 none, .record 1, .record 2]

/-- One thread after the other, with some time between check and signal, and a third one
    that comes too early. -/
def inTurn : List RenewalStep :=
  [.enter 1 "a", .check 1, .tick 1, .send 1 none, .record 1, .tick 60, .enter 2 "b", .check 2,
   .tick 62, .send 2 none, .record 2, .tick 90, .enter 3 "c", .check 3]

def empty : Renewals := {}

theorem rested_empty : empty.Rested 60 :=
  ⟨rfl, ⟨by simp [empty, Lib.Table.empty], .nil⟩, by simp [empty]⟩

theorem limited_of_alone_inTurn :
    ((Lib.exec (Renewals.step 60) (Renewals.Alone 60) empty inTurn).get (by decide +kernel)).Limited 60 :=
  limited_of_alone 60 empty _ rested_empty (Lib.GRun.of_exec (Option.some_get _).symm)

/-- Overlapping calls both succeed at once. -/
theorem overlapping_unlimited : ¬ ∀ (interval : ℕ) (s s' : Renewals), 0 < interval →
    s.Rested interval → Lib.GRun (Renewals.step interval) (fun _ _ => True) s s' →
      s'.Limited interval := by
  intro h
  set after := Lib.exec (Renewals.step 60) (fun _ _ => True) empty overlapping with hafter
  obtain ⟨w, hw⟩ : ∃ w, after = some w := Option.isSome_iff_exists.1 (by decide)
  have hlimited := h 60 empty w (by decide) rested_empty (Lib.GRun.of_exec (hafter ▸ hw))
  have hrows : after.map (fun w => w.table.rows.map fun r => (r.requestId, r.successfulAt)) =
      some [("a", some 0), ("b", some 0)] := by decide
  rw [hw, Option.map_some, Option.some.injEq] at hrows
  obtain ⟨r, hr, heq⟩ := List.mem_map.1 (hrows ▸ List.mem_cons_self)
  obtain ⟨r', hr', heq'⟩ := List.mem_map.1
    (hrows ▸ List.mem_cons_of_mem ("a", some (0 : ℚ)) (List.mem_singleton_self ("b", some (0 : ℚ))))
  obtain ⟨hid, ht⟩ := Prod.mk.inj heq
  obtain ⟨hid', ht'⟩ := Prod.mk.inj heq'
  have hspaced := hlimited.recorded r hr r' hr' (by rw [hid, hid']; decide) 0 0 ht ht' le_rfl
  norm_num at hspaced

end Renewals

end TodDl.Controller
