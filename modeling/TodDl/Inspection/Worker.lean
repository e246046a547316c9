/-
  The inspection server — the details of a worker (download_telemetry.py,
  `TelemetryPublisher`; inspection.py, `_get_worker`).

  The publisher keeps a sample for every active URL and copies them as dictionaries; the
  server puts the record of a worker together from such a dictionary, and names a reason
  for each field that it has no value for.

  * `mem_workerReasons`: the fields for which there is a reason;
  * `record_explained`: they are those that are null, but for the elapsed time of the attempt;
  * `attemptElapsed_explained`: that one has a reason, and a value;
  * `getWorker_explained`: the same for every sample of a publisher.
-/
import TodDl.Inspection.Records

namespace TodDl.Inspection

open Store

/-! ## Dictionaries -/

/-- The keys of the samples and of the records. -/
inductive WorkerKey where
  | url | workerId | generation | attemptId | attemptNumber | phase | reason | phaseStarted
  | attemptStarted | pid | engineInstanceId | engineJobId | receivedBytes | totalBytes
  | totalSource | speedBps | connections | sampleAgeS | lastProgressMonotonic | sampleSequence
  | progressSamples | admission
  | runId | sessionId | itemId | basename | phaseAgeS | phaseElapsedS | attemptElapsedS
  | resumeBaselineBytes | lastTransitionAt | lastProgressAgeS | smoothedSpeedBps | etaSeconds
  | validation | quality | estimator
  deriving DecidableEq

inductive Value where
  /-- `None` -/
  | null
  | int (i : ℤ)
  | real (q : ℚ)
  | text (s : String)
  /-- what the admission provider returns -/
  | conditions (fields : List (String × String))
  /-- the times and the received bytes of the samples -/
  | samples (l : List (ℚ × Option ℤ))

namespace Value

/-- `value is None` -/
def isNull : Value → Bool
  | null => true
  | _ => false

/-- `isinstance(value, (int, float))` -/
def number? : Value → Option ℚ
  | int i => some i
  | real q => some q
  | _ => none

/-- `isinstance(value, int)` -/
def int? : Value → Option ℤ
  | int i => some i
  | _ => none

/-- `isinstance(value, str)` -/
def text? : Value → Option String
  | text s => some s
  | _ => none

def ofInt : Option ℤ → Value
  | some i => int i
  | none => null

def ofReal : Option ℚ → Value
  | some q => real q
  | none => null

def ofText : Option String → Value
  | some s => text s
  | none => null

end Value

section
variable {α : Type}

/-- `d[k] = v` -/
def assign : List (WorkerKey × α) → WorkerKey → α → List (WorkerKey × α)
  | [], k, v => [(k, v)]
  | (k', w) :: d, k, v => if k' = k then (k, v) :: d else (k', w) :: assign d k v

/-- `d.setdefault(k, v)` -/
def setDefault (d : List (WorkerKey × α)) (k : WorkerKey) (v : α) : List (WorkerKey × α) :=
  if k ∈ d.map (·.1) then d else d ++ [(k, v)]

/-- `d.update(e)`, or `{**d, **e}` -/
def update (d e : List (WorkerKey × α)) : List (WorkerKey × α) :=
  e.foldl (fun d p => assign d p.1 p.2) d

end

abbrev Dict := List (WorkerKey × Value)

/-- `d.get(k)` -/
def Dict.get (d : Dict) (k : WorkerKey) : Value := (d.lookup k).getD .null

/-! ## `TelemetryPublisher` -/

/-- A sample of an active URL. -/
structure ActiveSample where
  url : String
  workerId : ℤ
  generation : ℤ
  attemptId : String
  attemptNumber : ℤ
  phase : String
  reason : Option String := none
  phaseStarted : ℚ
  attemptStarted : ℚ
  pid : Option ℤ
  engineInstanceId : Option String := none
  engineJobId : Option String := none
  receivedBytes : Option ℤ := none
  totalBytes : Option ℤ := none
  totalSource : String := "unavailable"
  speedBps : Option ℤ := none
  connections : Option ℤ := none
  sampleAgeS : Option ℚ := none
  lastProgressMonotonic : Option ℚ := none
  sampleSequence : Option ℤ := none
  progressSamples : List (ℚ × Option ℤ) := []
  /-- `sample_monotonic`, once there was a sample -/
  sampleMonotonic : Option ℚ := none

/-- `active`, in the order in which the URLs came. -/
abbrev Publisher := List ActiveSample

/-- What changes `active`. -/
inductive Publish where
  | setActive (url : String) (workerId attempt : ℤ) (phase : String) (pid : Option ℤ)
  | updatePhase (url phase : String)
  | updateSample (url : String) (receivedBytes totalBytes speedBps connections : Option ℤ)
  | clearActive (url : String)

/-- What `update_sample` makes of a sample; `now` is `time.monotonic()`. -/
def ActiveSample.updated (sample : ActiveSample) (now : ℚ)
    (receivedBytes totalBytes speedBps connections : Option ℤ) : ActiveSample :=
  let progressed := receivedBytes.any fun received => sample.receivedBytes.all (· < received)
  { sample with
    lastProgressMonotonic := if progressed then some now else sample.lastProgressMonotonic
    receivedBytes
    totalBytes := if totalBytes = some 0 then none else totalBytes
    speedBps, connections
    totalSource := "aria2_rpc"
    sampleAgeS := some 0
    sampleSequence := some (sample.sampleSequence.getD 0 + 1)
    sampleMonotonic := some now
    progressSamples :=
      (sample.progressSamples ++ [(now, receivedBytes)]).filter fun value => now - value.1 ≤ 30 }

/-- One call, at a time. -/
def Publisher.step (active : Publisher) (now : ℚ) : Publish → Publisher
  | .setActive url workerId attempt phase pid =>
    let sample : ActiveSample :=
      { url, workerId, generation := attempt, attemptId := itemId url ++ ":" ++ toString attempt
        attemptNumber := attempt, phase, phaseStarted := now, attemptStarted := now, pid }
    if url ∈ active.map (·.url) then active.map fun a => if a.url = url then sample else a
    else active ++ [sample]
  | .updatePhase url phase =>
    active.map fun a => if a.url = url then { a with phase, phaseStarted := now } else a
  | .updateSample url receivedBytes totalBytes speedBps connections =>
    active.map fun a => if a.url = url then
      a.updated now receivedBytes totalBytes speedBps connections else a
  | .clearActive url => active.filter (·.url ≠ url)

/-- A publisher after some calls. -/
def Publisher.run (calls : List (ℚ × Publish)) : Publisher :=
  calls.foldl (fun active call => Publisher.step active call.1 call.2) []

/-- The dictionary of a sample in `_aged_active_copy`; `admission` is what the provider returns
    at a cooldown, if there is one. -/
def ActiveSample.copy (a : ActiveSample) (now : ℚ)
    (admission : Option (Option (List (String × String)))) : Dict :=
  [(.url, .text a.url), (.workerId, .int a.workerId), (.generation, .int a.generation),
   (.attemptId, .text a.attemptId), (.attemptNumber, .int a.attemptNumber),
   (.phase, .text a.phase), (.reason, .ofText a.reason), (.phaseStarted, .real a.phaseStarted),
   (.attemptStarted, .real a.attemptStarted), (.pid, .ofInt a.pid),
   (.engineInstanceId, .ofText a.engineInstanceId), (.engineJobId, .ofText a.engineJobId),
   (.receivedBytes, .ofInt a.receivedBytes), (.totalBytes, .ofInt a.totalBytes),
   (.totalSource, .text a.totalSource), (.speedBps, .ofInt a.speedBps),
   (.connections, .ofInt a.connections),
   (.sampleAgeS, match a.sampleMonotonic with
     | some sampled => .real (max 0 (now - sampled))
     | none => .ofReal a.sampleAgeS),
   (.lastProgressMonotonic, .ofReal a.lastProgressMonotonic),
   (.sampleSequence, .ofInt a.sampleSequence), (.progressSamples, .samples a.progressSamples)] ++
  match admission with
  | some conditions =>
    if a.phase = "cooldown" then [(.admission, (conditions.map .conditions).getD .null)] else []
  | none => []

/-- `runtime_copy()` -/
def Publisher.runtimeCopy (active : Publisher) (now : ℚ)
    (admission : Option (Option (List (String × String)))) : List Dict :=
  active.map (·.copy now admission)

/-! ## `_worker_reasons` -/

abbrev Reasons := List (WorkerKey × String)

def reasonNotInSample : String := "not in sample"
def reasonSampleStale : String := "sample stale"
def reasonNotApplicable : String := "not applicable"
def reasonNotReported : String := "controller did not report"

/-- `WORKER_SAMPLE_FIELDS` -/
def workerSampleFields : List WorkerKey :=
  [.generation, .attemptId, .attemptNumber, .engineInstanceId, .engineJobId, .pid, .phase, .reason,
   .phaseElapsedS, .attemptElapsedS, .receivedBytes, .totalBytes, .totalSource,
   .resumeBaselineBytes, .sampleSequence, .sampleAgeS, .lastTransitionAt]

/-- `WORKER_DOWNLOAD_FIELDS` -/
def workerDownloadFields : List WorkerKey :=
  [.lastProgressAgeS, .speedBps, .smoothedSpeedBps, .etaSeconds, .connections]

/-- `WORKER_LIVE_FIELDS` -/
def workerLiveFields : List WorkerKey := [.speedBps, .smoothedSpeedBps, .etaSeconds]

/-- The sample in `live` is older than five seconds. -/
def stale (live : Dict) : Bool := (live.get .sampleAgeS).number?.any (staleSampleAge < ·)

/-- What a stale sample suppresses, and the reasons for that. -/
def suppress (live : Dict) : Dict × Reasons :=
  workerLiveFields.foldl (fun (live, reasons) name =>
    if (live.get name).isNull then (live, reasons)
    else (assign live name .null, assign reasons name reasonSampleStale)) (live, [])

/-- The reasons for the fields that are null. -/
def missing (d : Dict) (reason : String) (fields : List WorkerKey) (reasons : Reasons) : Reasons :=
  fields.foldl (fun reasons name =>
    if (d.get name).isNull then setDefault reasons name reason else reasons) reasons

/-- A reason for one field, if it is null. -/
def ifMissing (d : Dict) (name : WorkerKey) (reason : String) (reasons : Reasons) : Reasons :=
  if (d.get name).isNull then assign reasons name reason else reasons

/-- What a stale sample leaves of `live`, and the reasons for the rest. -/
def settle (live : Dict) : Dict × Reasons := if stale live then suppress live else (live, [])

/-- `_worker_reasons(live, assignment)`: what is left of `live`, and the reasons. -/
def workerReasons (live assignment : Dict) : Dict × Reasons :=
  let left := (settle live).1
  let reasons := missing (update left assignment) reasonNotInSample workerSampleFields
    (settle live).2
  let downloading := (left.get .phase).text? = some "downloading"
  let reasons := missing left (if downloading then reasonNotInSample else reasonNotApplicable)
    workerDownloadFields reasons
  let reasons := ifMissing left .validation reasonNotApplicable reasons
  let reasons := ifMissing left .admission reasonNotReported reasons
  (left, ifMissing assignment .basename reasonNotReported reasons)

/-! ## `_get_worker` -/

/-- The speed over the samples of the last 30 seconds, if they span ten. -/
def smoothedSpeed (now : ℚ) (samples : List (ℚ × Option ℤ)) : Option ℚ :=
  let fresh := samples.filterMap fun (observed, value) =>
    if now - observed ≤ 30 then value.map (observed, ·) else none
  match fresh.head?, fresh.getLast? with
  | some first, some last =>
    if 2 ≤ fresh.length ∧ 10 ≤ last.1 - first.1 then
      let growth := ((fresh.zip fresh.tail).map fun (earlier, later) =>
        max 0 (later.2 - earlier.2)).sum
      some (growth / (last.1 - first.1))
    else none
  | _, _ => none

/-- The time to the end, where there is a speed. -/
def etaSeconds (received total : Value) (smoothed : Option ℚ) : Option ℚ :=
  match received.int?, total.int?, smoothed with
  | some received, some total, some smoothed =>
    if smoothed ≠ 0 ∧ received ≤ total then some ((total - received) / smoothed) else none
  | _, _, _ => none

/-- The record of an assigned worker: its own fields, those of the assignment, and the
    reasons. -/
structure WorkerRecord where
  fields : Dict
  assignment : Dict
  unavailableReason : Reasons

/-- What `get_worker` returns. -/
inductive WorkerAnswer where
  | idle (workerId : ℤ)
  | assigned (record : WorkerRecord)

/-- The clocks of a request: `time.monotonic()`, and the text of the time some seconds ago. -/
structure Clocks where
  now : ℚ
  ago : ℚ → String

/-- What `_get_worker` derives from a dictionary of the runtime provider. -/
structure Derived where
  /-- with `last_transition_at` -/
  worker : Dict
  itemId : Option String
  attemptId : Option String
  basename : Option String
  smoothed : Option ℚ
  eta : Option ℚ

/-- `live`, before the stale fields are suppressed. -/
def Derived.live (x : Derived) (assignment : Dict) : Dict :=
  update ((workerSampleFields.filter (· ∉ assignment.map (·.1))).map fun name =>
      (name, x.worker.get name))
    [(.speedBps, x.worker.get .speedBps), (.smoothedSpeedBps, .ofReal x.smoothed),
     (.etaSeconds, .ofReal x.eta), (.lastProgressAgeS, x.worker.get .lastProgressAgeS),
     (.connections, x.worker.get .connections), (.validation, x.worker.get .validation),
     (.admission, x.worker.get .admission)]

namespace Server
variable (server : Server) (db : Db) (clocks : Clocks) (workerId : ℤ)

def derive (row : Dict) : Derived :=
  let id := (row.get .url).text?.map itemId
  let samples := match row.get .progressSamples with
    | .samples l => l
    | _ => []
  let worker : Dict := assign row .lastTransitionAt
    (.ofText ((row.get .phaseAgeS).number?.map clocks.ago))
  let smoothed := smoothedSpeed clocks.now samples
  { worker, itemId := id, smoothed
    attemptId := match id, (row.get .attemptNumber).int? with
      | some id, some n => some (id ++ ":" ++ toString n)
      | _, _ => none
    basename := (id.bind (itemRow (itemRows db server.runId))).map fun x =>
      basename x.2.relativePath
    eta := etaSeconds (worker.get .receivedBytes) (worker.get .totalBytes) smoothed }

def assignment (x : Derived) : Dict :=
  [(.runId, .text server.runId), (.sessionId, .text server.sessionId), (.workerId, .int workerId),
   (.itemId, .ofText x.itemId), (.basename, .ofText x.basename),
   (.generation, x.worker.get .generation), (.attemptId, .ofText x.attemptId),
   (.attemptNumber, x.worker.get .attemptNumber),
   (.engineInstanceId, x.worker.get .engineInstanceId),
   (.engineJobId, x.worker.get .engineJobId), (.pid, x.worker.get .pid)]

/-- The record that is made of it. -/
def record (x : Derived) : WorkerRecord :=
  let assignment := server.assignment workerId x
  let (live, unavailableReason) := workerReasons (x.live assignment) assignment
  let fresh := (x.worker.get .sampleAgeS).number?.any (· ≤ staleSampleAge)
  { assignment, unavailableReason
    fields :=
      [(.workerId, .int workerId), (.phase, x.worker.get .phase), (.reason, x.worker.get .reason),
       (.phaseElapsedS, x.worker.get .phaseAgeS),
       (.lastTransitionAt, x.worker.get .lastTransitionAt),
       (.attemptElapsedS, .ofReal ((x.worker.get .attemptStarted).number?.map fun started =>
         max 0 (clocks.now - started))),
       (.lastProgressAgeS, x.worker.get .lastProgressAgeS),
       (.receivedBytes, x.worker.get .receivedBytes), (.totalBytes, x.worker.get .totalBytes),
       (.totalSource, x.worker.get .totalSource),
       (.resumeBaselineBytes, x.worker.get .resumeBaselineBytes),
       (.speedBps, live.get .speedBps), (.smoothedSpeedBps, live.get .smoothedSpeedBps),
       (.etaSeconds, live.get .etaSeconds), (.connections, x.worker.get .connections),
       (.sampleSequence, x.worker.get .sampleSequence), (.sampleAgeS, x.worker.get .sampleAgeS),
       (.quality, .text (if fresh then "exact" else "unavailable")),
       (.estimator, .text (if (live.get .smoothedSpeedBps).isNull then "Estimating" else "ready")),
       (.validation, x.worker.get .validation), (.admission, x.worker.get .admission)] }

/-- `_get_worker(db, parameters)`, with the rows of the runtime provider. -/
def getWorker (rows : List Dict) : Except String WorkerAnswer :=
  if workerId ≤ 0 then .error "worker ID is invalid"
  else match rows.find? fun row => (row.get .workerId).int? = some workerId with
    | none => .ok (.idle workerId)
    | some row => .ok (.assigned (server.record clocks workerId (server.derive db clocks row)))

end Server

/-- A null field of a record, or of its assignment. -/
def WorkerRecord.isNull (r : WorkerRecord) (f : WorkerKey) : Bool :=
  (r.fields.lookup f).any Value.isNull || (r.assignment.lookup f).any Value.isNull

/-- There is a reason for a field exactly if it is null. -/
def WorkerRecord.Explained (r : WorkerRecord) (f : WorkerKey) : Prop :=
  f ∈ r.unavailableReason.map (·.1) ↔ r.isNull f = true

/-- With a sample older than five seconds there is no speed and no time to the end. -/
def WorkerRecord.StaleIsNull (r : WorkerRecord) : Prop :=
  stale r.fields = true → ∀ f ∈ workerLiveFields, (r.fields.get f).isNull = true

/-! ## Keys and values -/

section
variable {α : Type} {d e : List (WorkerKey × α)} {k f : WorkerKey} {v : α}

theorem mem_keys_assign : f ∈ (assign d k v).map (·.1) ↔ f ∈ d.map (·.1) ∨ f = k := by
  induction d with
  | nil => simp [assign]
  | cons p d ih =>
    obtain ⟨k', w⟩ := p
    unfold assign
    split
    · next hk =>
      subst hk
      simp only [List.map_cons, List.mem_cons]
      tauto
    · simp only [List.map_cons, List.mem_cons, ih, or_assoc]

theorem mem_keys_setDefault : f ∈ (setDefault d k v).map (·.1) ↔ f ∈ d.map (·.1) ∨ f = k := by
  unfold setDefault
  split
  · next hk => exact ⟨.inl, fun h => h.elim id fun h => h ▸ hk⟩
  · simp

theorem lookup_cons (k : WorkerKey) (v : α) (d : List (WorkerKey × α)) (f : WorkerKey) :
    List.lookup f ((k, v) :: d) = if f = k then some v else d.lookup f := by
  by_cases hf : f = k
  · simp [hf]
  · simp [List.lookup_cons, beq_false_of_ne hf, hf]

theorem lookup_assign : (assign d k v).lookup f = if f = k then some v else d.lookup f := by
  induction d with
  | nil => rw [assign, lookup_cons]
  | cons p d ih =>
    obtain ⟨k', w⟩ := p
    unfold assign
    split
    · next hk =>
      subst hk
      rw [lookup_cons, lookup_cons]
      split <;> rfl
    · next hk =>
      rw [lookup_cons, lookup_cons, ih]
      by_cases hf : f = k'
      · rw [if_pos hf, if_pos hf, if_neg (hf ▸ hk)]
      · rw [if_neg hf, if_neg hf]

/-- An update counts, where it has the key. -/
theorem lookup_update (h : (e.map (·.1)).Nodup) :
    (update d e).lookup f = (e.lookup f).or (d.lookup f) := by
  induction e generalizing d with
  | nil => simp [update]
  | cons p e ih =>
    obtain ⟨k', w⟩ := p
    obtain ⟨hk, he⟩ := List.nodup_cons.1 h
    have hstep : update d ((k', w) :: e) = update (assign d k' w) e := rfl
    rw [hstep, ih he, lookup_assign, lookup_cons]
    by_cases hf : f = k'
    · have hnone : e.lookup f = none := by
        rw [List.lookup_eq_none_iff]
        rintro q hq
        refine bne_iff_ne.2 fun heq => hk ?_
        rw [← hf, heq]
        exact List.mem_map.2 ⟨q, hq, rfl⟩
      rw [if_pos hf, if_pos hf, hnone]
      rfl
    · rw [if_neg hf, if_neg hf]

end

theorem Value.isNull_iff {v : Value} : v.isNull = true ↔ v = .null := by
  cases v <;> simp [isNull]

theorem Dict.get_assign (d : Dict) (k : WorkerKey) (v : Value) (f : WorkerKey) :
    Dict.get (assign d k v) f = if f = k then v else d.get f := by
  rw [get, lookup_assign]
  split <;> rfl

section
variable {d live assignment : Dict} {reason : String} {fields : List WorkerKey}
  {reasons : Reasons} {f : WorkerKey}

theorem mem_missing : f ∈ (missing d reason fields reasons).map (·.1) ↔
    f ∈ reasons.map (·.1) ∨ f ∈ fields ∧ (d.get f).isNull = true := by
  induction fields generalizing reasons with
  | nil => simp [missing]
  | cons name fields ih =>
    have hstep : missing d reason (name :: fields) reasons = missing d reason fields
        (if (d.get name).isNull then setDefault reasons name reason else reasons) := rfl
    rw [hstep, ih, List.mem_cons]
    by_cases hnull : (d.get name).isNull = true
    · rw [if_pos hnull, mem_keys_setDefault]
      constructor
      · rintro ((h | rfl) | h)
        · exact .inl h
        · exact .inr ⟨.inl rfl, hnull⟩
        · exact .inr ⟨.inr h.1, h.2⟩
      · rintro (h | ⟨rfl | h, hf⟩)
        · exact .inl (.inl h)
        · exact .inl (.inr rfl)
        · exact .inr ⟨h, hf⟩
    · rw [if_neg hnull]
      refine or_congr_right ⟨fun h => ⟨.inr h.1, h.2⟩, fun h => ⟨h.1.resolve_left ?_, h.2⟩⟩
      rintro rfl
      exact hnull h.2

theorem mem_ifMissing {name : WorkerKey} : f ∈ (ifMissing d name reason reasons).map (·.1) ↔
    f ∈ reasons.map (·.1) ∨ f = name ∧ (d.get name).isNull = true := by
  unfold ifMissing
  split
  · next hnull => rw [mem_keys_assign, and_iff_left hnull]
  · next hnull => simp [hnull]

/-- One suppressed field after the other: they are null, and the rest is as it was. -/
theorem suppress_fold (fields : List WorkerKey) (live : Dict) (reasons : Reasons) :
    let s := fields.foldl (fun (s : Dict × Reasons) name =>
      if (s.1.get name).isNull then (s.1, s.2)
      else (assign s.1 name .null, assign s.2 name reasonSampleStale)) (live, reasons)
    (∀ f, s.1.get f = if f ∈ fields then .null else live.get f) ∧
      ∀ f ∈ s.2.map (·.1), f ∈ reasons.map (·.1) ∨ f ∈ fields := by
  induction fields generalizing live reasons with
  | nil => exact ⟨fun f => by simp, fun f hf => .inl hf⟩
  | cons name fields ih =>
    rw [List.foldl_cons]
    dsimp only
    by_cases hnull : (live.get name).isNull = true
    · rw [if_pos hnull]
      obtain ⟨hget, hkeys⟩ := ih live reasons
      refine ⟨fun f => (hget f).trans ?_,
        fun f hf => (hkeys f hf).imp_right (List.mem_cons_of_mem _)⟩
      by_cases hf : f = name
      · subst hf
        simp [Value.isNull_iff.1 hnull]
      · simp [hf]
    · rw [if_neg hnull]
      obtain ⟨hget, hkeys⟩ := ih (assign live name .null) (assign reasons name reasonSampleStale)
      refine ⟨fun f => (hget f).trans ?_, fun f hf => ?_⟩
      · rw [Dict.get_assign]
        by_cases hf : f = name <;> simp [hf]
      · rcases hkeys f hf with hold | hmem
        · exact (mem_keys_assign.1 hold).imp_right fun h => by rw [h]; exact List.mem_cons_self
        · exact .inr (List.mem_cons_of_mem _ hmem)

theorem get_settle : (settle live).1.get f =
    if stale live ∧ f ∈ workerLiveFields then .null else live.get f := by
  have hsuppress : ∀ f, (suppress live).1.get f = _ :=
    (suppress_fold workerLiveFields live []).1
  unfold settle
  by_cases hstale : stale live = true
  · simp [hstale, hsuppress]
  · simp [hstale]

/-- A suppressed field is null. -/
theorem mem_settle (h : f ∈ (settle live).2.map (·.1)) :
    f ∈ workerLiveFields ∧ ((settle live).1.get f).isNull = true := by
  have hsuppress : ∀ f ∈ (suppress live).2.map (·.1), _ :=
    (suppress_fold workerLiveFields live []).2
  rw [get_settle]
  unfold settle at h
  by_cases hstale : stale live = true
  · rw [if_pos hstale] at h
    have hmem := (hsuppress f h).resolve_left (by simp)
    simp [hmem, hstale, Value.isNull]
  · simp [hstale] at h

/-- **The fields for which there is a reason.** -/
theorem mem_workerReasons : f ∈ (workerReasons live assignment).2.map (·.1) ↔
    f ∈ workerSampleFields ∧ (Dict.get (update (settle live).1 assignment) f).isNull = true ∨
      f ∈ workerDownloadFields ∧ ((settle live).1.get f).isNull = true ∨
      f = .validation ∧ ((settle live).1.get .validation).isNull = true ∨
      f = .admission ∧ ((settle live).1.get .admission).isNull = true ∨
      f = .basename ∧ (assignment.get .basename).isNull = true := by
  have hdownload : f ∈ workerLiveFields → f ∈ workerDownloadFields := by
    cases f <;> decide
  have hfirst : f ∈ (settle live).2.map (·.1) →
      f ∈ workerDownloadFields ∧ ((settle live).1.get f).isNull = true :=
    fun h => (mem_settle h).imp_left hdownload
  unfold workerReasons
  rw [mem_ifMissing, mem_ifMissing, mem_ifMissing, mem_missing, mem_missing, or_assoc, or_assoc,
    or_assoc, or_assoc]
  exact ⟨fun h => h.elim (fun h => .inr (.inl (hfirst h))) id, .inr⟩

end

/-! ## The record -/

theorem Dict.get_update {d e : Dict} (h : (e.map (·.1)).Nodup) (f : WorkerKey) :
    Dict.get (update d e) f = (e.lookup f).getD (d.get f) := by
  rw [get, lookup_update h]
  cases e.lookup f <;> rfl

section
variable {server : Server} {clocks : Clocks} {workerId : ℤ} {x : Derived}

theorem Server.lookup_assignment (f : WorkerKey) : (server.assignment workerId x).lookup f =
    match f with
    | .runId => some (.text server.runId)
    | .sessionId => some (.text server.sessionId)
    | .workerId => some (.int workerId)
    | .itemId => some (.ofText x.itemId)
    | .basename => some (.ofText x.basename)
    | .attemptId => some (.ofText x.attemptId)
    | .generation | .attemptNumber | .engineInstanceId | .engineJobId | .pid =>
      some (x.worker.get f)
    | _ => none := by
  cases f <;> rfl

theorem Server.get_live (f : WorkerKey) : (x.live (server.assignment workerId x)).get f =
    match f with
    | .smoothedSpeedBps => .ofReal x.smoothed
    | .etaSeconds => .ofReal x.eta
    | .phase | .reason | .phaseElapsedS | .attemptElapsedS | .receivedBytes | .totalBytes
    | .totalSource | .resumeBaselineBytes | .sampleSequence | .sampleAgeS | .lastTransitionAt
    | .speedBps | .lastProgressAgeS | .connections | .validation | .admission => x.worker.get f
    | _ => .null := by
  have hkeys : (server.assignment workerId x).map (·.1) =
      [.runId, .sessionId, .workerId, .itemId, .basename, .generation, .attemptId, .attemptNumber,
       .engineInstanceId, .engineJobId, .pid] := rfl
  have hrest : workerSampleFields.filter (· ∉ (server.assignment workerId x).map (·.1)) =
      [.phase, .reason, .phaseElapsedS, .attemptElapsedS, .receivedBytes, .totalBytes,
       .totalSource, .resumeBaselineBytes, .sampleSequence, .sampleAgeS, .lastTransitionAt] := by
    rw [hkeys]
    decide
  rw [Derived.live, hrest, Dict.get_update (by simp)]
  cases f <;> rfl

/-- What is left of `live` in the record. -/
def Server.left (server : Server) (workerId : ℤ) (x : Derived) : Dict :=
  (settle (x.live (server.assignment workerId x))).1

theorem Server.lookup_fields (f : WorkerKey) : (server.record clocks workerId x).fields.lookup f =
    match f with
    | .workerId => some (.int workerId)
    | .phaseElapsedS => some (x.worker.get .phaseAgeS)
    | .attemptElapsedS => some (.ofReal ((x.worker.get .attemptStarted).number?.map fun started =>
        max 0 (clocks.now - started)))
    | .quality => some (.text
        (if (x.worker.get .sampleAgeS).number?.any (· ≤ staleSampleAge) then "exact"
          else "unavailable"))
    | .estimator => some (.text
        (if ((server.left workerId x).get .smoothedSpeedBps).isNull then "Estimating" else "ready"))
    | .speedBps | .smoothedSpeedBps | .etaSeconds => some ((server.left workerId x).get f)
    | .phase | .reason | .lastTransitionAt | .lastProgressAgeS | .receivedBytes | .totalBytes
    | .totalSource | .resumeBaselineBytes | .connections | .sampleSequence | .sampleAgeS
    | .validation | .admission => some (x.worker.get f)
    | _ => none := by
  cases f <;> rfl

theorem Server.get_left {f : WorkerKey} (hf : f ∉ workerLiveFields) :
    (server.left workerId x).get f = (x.live (server.assignment workerId x)).get f := by
  rw [left, get_settle, if_neg fun h => hf h.2]

/-- The fields that have a reason, in the values of the record. -/
theorem Server.mem_unavailableReason (f : WorkerKey) :
    f ∈ (server.record clocks workerId x).unavailableReason.map (·.1) ↔
      f ∈ workerSampleFields ∧ (((server.assignment workerId x).lookup f).getD
          ((server.left workerId x).get f)).isNull = true ∨
        f ∈ workerDownloadFields ∧ ((server.left workerId x).get f).isNull = true ∨
        f = .validation ∧ (x.worker.get .validation).isNull = true ∨
        f = .admission ∧ (x.worker.get .admission).isNull = true ∨
        f = .basename ∧ x.basename = none := by
  have hkeys : ((server.assignment workerId x).map (·.1)).Nodup := by
    rw [assignment]
    simp
  have hbasename : ((server.assignment workerId x).get .basename).isNull = true ↔
      x.basename = none := by
    rw [Dict.get, lookup_assignment]
    cases x.basename <;> simp [Value.ofText, Value.isNull]
  have hreasons : (server.record clocks workerId x).unavailableReason =
      (workerReasons (x.live (server.assignment workerId x)) (server.assignment workerId x)).2 :=
    rfl
  rw [hreasons, mem_workerReasons, Dict.get_update hkeys, hbasename]
  change f ∈ workerSampleFields ∧ (((server.assignment workerId x).lookup f).getD
    ((server.left workerId x).get f)).isNull = true ∨
      f ∈ workerDownloadFields ∧ ((server.left workerId x).get f).isNull = true ∨
      f = .validation ∧ ((server.left workerId x).get .validation).isNull = true ∨
      f = .admission ∧ ((server.left workerId x).get .admission).isNull = true ∨ _ ↔ _
  rw [get_left (f := .validation) (by decide), get_left (f := .admission) (by decide), get_live,
    get_live]

/-- **The reasons are for the fields that are null**, but for the elapsed time of the
    attempt. -/
theorem record_explained (hitem : x.itemId.isSome)
    (hphase : x.worker.get .phaseAgeS = x.worker.get .phaseElapsedS) {f : WorkerKey}
    (hf : f ≠ .attemptElapsedS) : (server.record clocks workerId x).Explained f := by
  have hassignment : (server.record clocks workerId x).assignment = server.assignment workerId x :=
    rfl
  rw [WorkerRecord.Explained, Server.mem_unavailableReason, WorkerRecord.isNull,
    Server.lookup_fields, hassignment, Server.lookup_assignment]
  cases f
  case attemptElapsedS => exact absurd rfl hf
  case itemId =>
    obtain ⟨id, hid⟩ := Option.isSome_iff_exists.1 hitem
    simp [workerSampleFields, workerDownloadFields, hid, Value.isNull, Value.ofText]
  case basename =>
    cases hbasename : x.basename <;>
      simp [workerSampleFields, workerDownloadFields, Value.isNull, Value.ofText]
  all_goals simp [workerSampleFields, workerDownloadFields, Server.get_left, workerLiveFields,
    Server.get_live, hphase, Value.isNull, Value.ofText]

/-- **The elapsed time of the attempt** has a reason, and a value. -/
theorem attemptElapsed_explained (habsent : (x.worker.get .attemptElapsedS).isNull = true)
    {started : ℚ} (hstarted : x.worker.get .attemptStarted = .real started) :
    .attemptElapsedS ∈ (server.record clocks workerId x).unavailableReason.map (·.1) ∧
      (server.record clocks workerId x).isNull .attemptElapsedS = false := by
  constructor
  · refine (Server.mem_unavailableReason _).2 (.inl ⟨by decide, ?_⟩)
    rw [Server.lookup_assignment, Server.get_left (by decide), Server.get_live]
    exact habsent
  · have hassignment : (server.record clocks workerId x).assignment =
        server.assignment workerId x := rfl
    rw [WorkerRecord.isNull, Server.lookup_fields, hassignment, Server.lookup_assignment, hstarted]
    rfl

/-- **An old sample** has no speed and no time to the end. -/
theorem record_staleIsNull : (server.record clocks workerId x).StaleIsNull := by
  intro hstale f hf
  have hlive : stale (x.live (server.assignment workerId x)) = true := by
    rw [stale, Server.get_live]
    rwa [stale, Dict.get, Server.lookup_fields] at hstale
  have hnull : (server.left workerId x).get f = .null := by
    rw [Server.left, get_settle, if_pos ⟨hlive, hf⟩]
  rw [Dict.get, Server.lookup_fields]
  simp only [workerLiveFields, List.mem_cons, List.not_mem_nil, or_false] at hf
  rcases hf with rfl | rfl | rfl <;> simp [hnull, Value.isNull]

end

/-! ## The samples of a publisher -/

/-- A copy has no key but its own. -/
theorem ActiveSample.get_copy_none (a : ActiveSample) (now : ℚ)
    (admission : Option (Option (List (String × String)))) {f : WorkerKey}
    (hf : f = .phaseAgeS ∨ f = .phaseElapsedS ∨ f = .attemptElapsedS) :
    (a.copy now admission).get f = .null := by
  have hadmission : ∀ v, List.lookup f [(WorkerKey.admission, v)] = (none : Option Value) := by
    intro v
    rcases hf with rfl | rfl | rfl <;> rfl
  unfold copy
  rw [Dict.get, List.lookup_append]
  rcases hf with rfl | rfl | rfl
  all_goals
    cases admission with
    | none => rfl
    | some conditions => by_cases hphase : a.phase = "cooldown" <;> simp [hphase, lookup_cons]

section
variable (server : Server) (db : Db) (clocks : Clocks) (workerId : ℤ)

variable {server db clocks}

theorem get_worker_derive {f : WorkerKey} (hf : f ≠ .lastTransitionAt) (row : Dict) :
    (server.derive db clocks row).worker.get f = row.get f := by
  rw [Server.derive, Dict.get_assign, if_neg hf]

variable {workerId} in
/-- The record of an assigned worker is made of one of the samples. -/
theorem assigned_eq {active : Publisher} {now : ℚ}
    {admission : Option (Option (List (String × String)))} {r : WorkerRecord}
    (h : server.getWorker db clocks workerId (active.runtimeCopy now admission) =
      .ok (.assigned r)) :
    ∃ a ∈ active, r = server.record clocks workerId
      (server.derive db clocks (a.copy now admission)) := by
  unfold Server.getWorker at h
  split at h
  · cases h
  · split at h
    · cases h
    · next row hrow =>
      obtain ⟨a, ha, rfl⟩ := List.mem_map.1 (List.mem_of_find?_eq_some hrow)
      cases h
      exact ⟨a, ha, rfl⟩

/-- The elapsed time of the attempt is not explained. -/
theorem not_explained (workerId : ℤ) (a : ActiveSample) (now : ℚ)
    (admission : Option (Option (List (String × String)))) :
    ¬ (server.record clocks workerId
      (server.derive db clocks (a.copy now admission))).Explained .attemptElapsedS := by
  set x := server.derive db clocks (a.copy now admission) with hx
  have habsent : (x.worker.get .attemptElapsedS).isNull = true := by
    rw [hx, get_worker_derive (by decide), a.get_copy_none now admission (by simp)]
    rfl
  have hstarted : x.worker.get .attemptStarted = .real a.attemptStarted :=
    get_worker_derive (by decide) _
  have helapsed : _ ∧ (server.record clocks workerId x).isNull .attemptElapsedS = false :=
    attemptElapsed_explained habsent hstarted
  intro hexplained
  rw [hexplained.1 helapsed.1] at helapsed
  cases helapsed.2

/-- **What the details of a worker explain**: a reason is given exactly for the fields that are
    null, except that the elapsed time of the attempt always has a reason and a value; and an
    old sample has no speed. -/
theorem getWorker_explained (workerId : ℤ) (calls : List (ℚ × Publish)) (now : ℚ)
    (admission : Option (Option (List (String × String)))) {r : WorkerRecord}
    (h : server.getWorker db clocks workerId ((Publisher.run calls).runtimeCopy now admission) =
      .ok (.assigned r)) :
    (¬ ∀ f, r.Explained f) ∧ (∀ f, r.Explained f ↔ f ≠ .attemptElapsedS) ∧ r.StaleIsNull := by
  obtain ⟨a, -, rfl⟩ := assigned_eq h
  have hnot : ¬ (server.record clocks workerId (server.derive db clocks
      (a.copy now admission))).Explained .attemptElapsedS := not_explained workerId a now admission
  refine ⟨fun hall => hnot (hall _), fun f => ⟨?_, fun hf => ?_⟩, record_staleIsNull⟩
  · rintro hexplained rfl
    exact hnot hexplained
  · refine record_explained rfl ?_ hf
    rw [get_worker_derive (by decide), get_worker_derive (by decide),
      a.get_copy_none now admission (by simp), a.get_copy_none now admission (by simp)]

end

/-- A worker that has just begun to download. -/
def oneWorker : List (ℚ × Publish) :=
  [(0, .setActive "https://host/set/a.bin" 1 1 "downloading" none)]

def someClocks : Clocks := ⟨1, fun _ => ""⟩

/-- Its record, one second later. -/
def oneRecord : WorkerRecord := someServer.record someClocks 1 (someServer.derive {} someClocks
  (ActiveSample.copy { url := "https://host/set/a.bin", workerId := 1, generation := 1
                       attemptId := itemId "https://host/set/a.bin" ++ ":" ++ toString (1 : ℤ)
                       attemptNumber := 1, phase := "downloading", phaseStarted := 0
                       attemptStarted := 0, pid := none } 1 none))

theorem getWorker_one : someServer.getWorker {} someClocks 1
    ((Publisher.run oneWorker).runtimeCopy 1 none) = .ok (.assigned oneRecord) := rfl

theorem explained_one : (¬ ∀ f, oneRecord.Explained f) ∧ oneRecord.StaleIsNull :=
  have hrecord := getWorker_explained 1 oneWorker 1 none getWorker_one
  ⟨hrecord.1, hrecord.2.2⟩

/-- The attempt has run for a second, and the reason says that this is not in the sample. -/
theorem elapsed_not_explained : ¬ ∀ (server : Server) (db : Db) (clocks : Clocks) (workerId : ℤ)
    (calls : List (ℚ × Publish)) (now : ℚ) (admission : Option (Option (List (String × String))))
    (r : WorkerRecord), server.getWorker db clocks workerId
      ((Publisher.run calls).runtimeCopy now admission) = .ok (.assigned r) →
        (∀ f, r.Explained f) ∧ r.StaleIsNull := fun hall =>
  not_explained 1 _ 1 none
    ((hall someServer {} someClocks 1 oneWorker 1 none oneRecord getWorker_one).1 .attemptElapsedS)

end TodDl.Inspection
