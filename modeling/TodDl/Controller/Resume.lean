/-
  The controller — the two gates of a resume (tod-dl.py).

  `transfer` and `recheck_unavailable` each decide whether the engine may go on with a
  partial.  They decide alike once the item is found again and has an expected checksum
  or a recorded validator (`gates_agree`).  Without either, a transfer resumes and a
  recheck asks for review; and only a recheck waits when the item is not found.
-/
import TodDl.Controller.Steps
import TodDl.Controller.Transfer

namespace TodDl.Controller

open Lib (Path FileTree Prog)
open Store (Db Row Status truthy)

variable (cfg : Config)

/-! ## The gates -/

/-- What a gate does with a partial. -/
inductive Gate where
  /-- the engine may go on with it -/
  | resume
  /-- it becomes a candidate for review -/
  | review (decision : String) (observed : Option HeadAnswer)
  /-- the item stays unavailable -/
  | wait

/-- Nothing fails by itself, and a request is answered so. -/
def Observes (answer : Option HeadAnswer) (e : Env) : Prop := Calm e ∧ e.head = answer

/-- The answer says that the item is there. -/
def Found (answer : Option HeadAnswer) : Prop := ∃ a ∈ answer, a.status = 200 ∨ a.status = 206

/-- An expected checksum or a validator is recorded. -/
def Protected (row : Row) : Prop :=
  truthy row.expectedSha256 ∨ truthy row.etag ∨ truthy row.lastModified

/-- `enter_representation_review(...)`, then `return outcome` -/
def reviewed (row : Row) (decision : String) (observed : Option HeadAnswer) (outcome : String) :
    Ctl String :=
  (enterRepresentationReview cfg row.url (cfg.stagingOf row) decision observed).bind fun _ =>
    .ret outcome

/-- The destination of a transfer. -/
def Config.finalOf (row : Row) : Path := joinText cfg.destination (cfg.storedOf row)

/-- `transfer`, with this answer to its probe, does this with the partial. -/
def Config.TransferDoes (w : World) (row : Row) (answer : Option HeadAnswer) : Gate → Prop
  | .resume => ∃ w', w'.db = w.db ∧ w'.fs = w.fs ∧
      (transfer cfg row).Becomes (Observes answer) w
        (transferAttempt cfg row (cfg.storedOf row) (cfg.stagingOf row) (cfg.finalOf row)
          (generationFields row)) w'
  | .review decision observed => ∃ w', w'.db = w.db ∧ w'.fs = w.fs ∧
      (transfer cfg row).Becomes (Observes answer) w (reviewed cfg row decision observed "review") w'
  | .wait => False

/-- `recheck_unavailable`, with this answer, does this with the partial. -/
def Config.RecheckDoes (w : World) (row : Row) (answer : Option HeadAnswer) : Gate → Prop
  | .resume => ∃ detail, (recheckUnavailable cfg row).Becomes (Observes answer) w
      ((transition cfg row.url .queued (some detail) fun _ => [.nextRetryAt 0, .recheckAt none]).bind
        fun _ => .ret "recheck_available") w
  | .review decision observed => (recheckUnavailable cfg row).Becomes (Observes answer) w
      (reviewed cfg row decision observed "recheck_review") w
  | .wait => (recheckUnavailable cfg row).Becomes (Observes answer) w (.ret "still_unavailable") w

/-- Both gates do the same with the partial. -/
def Config.GatesAgree (w : World) (row : Row) (answer : Option HeadAnswer) : Prop :=
  ∃ gate, cfg.TransferDoes w row answer gate ∧ cfg.RecheckDoes w row answer gate

/-- Something is staged. -/
structure HasPartial (fs : FileTree) (staging : Path) : Prop where
  exists_staging : fs.pathExists staging = true
  size : ∃ n, fs.size staging = .ok n ∧ 0 < n

/-- An item with a partial of a recorded generation, which only the gate may keep a
    transfer from resuming. -/
structure Config.Staged (w : World) (row : Row) : Prop where
  generation : row.stagingGeneration.isSome
  hasPartial : HasPartial w.fs (cfg.stagingOf row)
  final : w.fs.pathExists (cfg.finalOf row) = false
  slot : ∃ id ∈ List.range' 1 cfg.workers, id ∉ w.workerIds.map (·.2)

/-- An item with a partial that only the gate may keep a transfer from resuming. -/
structure Config.AtGate (w : World) (row : Row) : Prop where
  hasPartial : HasPartial w.fs (cfg.stagingOf row)
  final : w.fs.pathExists (cfg.finalOf row) = false
  slot : ∃ id ∈ List.range' 1 cfg.workers, id ∉ w.workerIds.map (·.2)

/-- The review code of a decision. -/
def reviewCause (decision : String) : String :=
  if decision = "changed" then "changed_remote_representation" else "no_reliable_version_protection"

section
variable {cfg} {w w' : World} {row : Row} {decision outcome x : String}
  {observed : Option HeadAnswer}

theorem find?_moved {old : Row} {status : Status} {detail : Option String} {fields : Store.Update}
    {text : String} (hold : w.db.downloads.find? row.url = some old) :
    (w.moved cfg old status detail fields text).db.downloads.find? row.url =
      some (old.set (Db.transitionUpdate status fields text)) := by
  simp only [World.moved, Db.find?_transitioned, hold, Option.map_some, if_true]

/-- A review that returns has moved the item to `review_required`, under the code of the
    decision. -/
theorem ends_reviewed (h : (reviewed cfg row decision observed outcome).Ends Calm w (.ok x) w') :
    x = outcome ∧ ∃ r, w'.db.downloads.find? row.url = some r ∧ r.status = .reviewRequired ∧
      r.reviewCode = some (reviewCause decision) := by
  obtain ⟨_, w₁, hreview, hx, rfl⟩ | ⟨e, he, -⟩ := Prog.ends_bind.1 h
  · refine ⟨Except.ok.inj hx, ?_⟩
    obtain ⟨_, w₂, -, hreview⟩ | ⟨e, he, -⟩ := Prog.ends_bind.1 hreview
    · obtain ⟨_, w₃, -, hreview⟩ | ⟨e, he, -⟩ := Prog.ends_bind.1 hreview
      · obtain ⟨_, w₄, hmove, hclear⟩ | ⟨e, he, -⟩ := Prog.ends_bind.1 hreview
        · obtain ⟨e, -, -, hw⟩ := hclear
          rcases ends_transition_calm hmove with ⟨-, ⟨e, he⟩, -⟩ | ⟨e, old, hold, -, rfl⟩
          · cases he
          · rw [hw]
            exact ⟨_, find?_moved hold, rfl, rfl⟩
        · cases he
      · cases he
    · cases he
  · cases he

end

/-! ## The steps before a gate -/

section
variable {cfg} {answer : Option HeadAnswer} {w : World} {row : Row} {α : Type}

theorem becomes_pathExists {p : Path} {b : Bool} (hb : w.fs.pathExists p = b)
    (s : Bool → Ctl α) : ((pathExists p).bind s).Becomes (Observes answer) w (s b) w := by
  refine Prog.becomes_call (fun e he => ?_) s
  simp [he.1.1, hb, Except.map]

theorem becomes_fileSize {p : Path} {n : ℕ} (hn : w.fs.size p = .ok n) (s : ℕ → Ctl α) :
    ((fileSize p).bind s).Becomes (Observes answer) w (s n) w := by
  refine Prog.becomes_call (fun e he => ?_) s
  simp [he.1.1, hn, Except.map]

theorem becomes_partialExists {staging : Path} (h : HasPartial w.fs staging) (s : Bool → Ctl α) :
    ((partialExists staging).bind s).Becomes (Observes answer) w (s true) w := by
  obtain ⟨n, hn, hpos⟩ := h.size
  have hsize : ((fileSize staging).bind fun n => .ret (decide (0 < n))).Becomes
      (Observes answer) w (.ret true) w := by
    have hread : ((fileSize staging).bind fun n => (.ret (decide (0 < n)) : Ctl Bool)).Becomes
        (Observes answer) w (.ret (decide (0 < n))) w := becomes_fileSize hn _
    rwa [decide_eq_true hpos] at hread
  have hexists : (partialExists staging).Becomes (Observes answer) w
      ((fileSize staging).bind fun n => .ret (decide (0 < n))) w :=
    becomes_pathExists h.exists_staging _
  exact (hexists.trans hsize).bind s

theorem becomes_headRequest (s : Option HeadAnswer → Ctl α) :
    (headRequest.bind s).Becomes (Observes answer) w (s answer) w :=
  Prog.becomes_look (fun _ he => he.2) s

theorem becomes_probeRepresentation (s : Option HeadAnswer → Ctl α) :
    (probeRepresentation.bind s).Becomes (Observes answer) w
      (s (answer.filter fun a => a.status = 200 ∨ a.status = 206)) w := by
  have hprobe : probeRepresentation.Becomes (Observes answer) w
      (.ret (answer.filter fun a => a.status = 200 ∨ a.status = 206)) w := becomes_headRequest _
  exact hprobe.bind s

/-- The world with a slot reserved. -/
def World.slotReserved (w : World) (url : String) (id : ℕ) : World :=
  { w with workerIds := (w.workerIds.filter fun p => p.1 ≠ url) ++ [(url, id)] }

theorem becomes_reserveWorker {url : String} {id : ℕ}
    (hid : (List.range' 1 cfg.workers).find? (fun id => id ∉ w.workerIds.map (·.2)) = some id)
    (s : Unit → Ctl α) : ((reserveWorker cfg url).bind s).Becomes (Observes answer) w (s ())
      (w.slotReserved url id) := by
  refine Prog.becomes_call (fun e _ => ?_) s
  simp only [hid, World.slotReserved]

theorem Config.Staged.atGate (h : cfg.Staged w row) : cfg.AtGate w row :=
  ⟨h.hasPartial, h.final, h.slot⟩

/-- A transfer with a free slot comes to its gate. -/
theorem becomes_gate (h : cfg.AtGate w row) (answer : Option HeadAnswer) :
    ∃ w', w'.db = w.db ∧ w'.fs = w.fs ∧
    (transfer cfg row).Becomes (Observes answer) w
      (if !truthy row.expectedSha256 && (truthy row.etag || truthy row.lastModified) then
        (checkRepresentation row).bind fun x =>
          if x.1 ≠ "confirmed_unchanged" then reviewed cfg row x.1 x.2 "review"
          else
            (Prog.change fun w _ => { w with resumeConfirmed := w.resumeConfirmed ++ [row.url] }).bind
              fun _ => transferAttempt cfg row (cfg.storedOf row) (cfg.stagingOf row)
                (cfg.finalOf row) (generationFields row)
      else transferAttempt cfg row (cfg.storedOf row) (cfg.stagingOf row) (cfg.finalOf row)
        (generationFields row)) w' := by
  obtain ⟨id, hid⟩ : ∃ id, (List.range' 1 cfg.workers).find?
      (fun id => id ∉ w.workerIds.map (·.2)) = some id := by
    obtain ⟨id, hmem, hfree⟩ := h.slot
    exact Option.isSome_iff_exists.1 (List.find?_isSome.2 ⟨id, hmem, by simpa using hfree⟩)
  set asked : World := { w with
    resumeConfirmed := w.resumeConfirmed.filter (· ≠ row.url) } with hasked
  refine ⟨asked.slotReserved row.url id, rfl, rfl, ?_⟩
  unfold transfer
  refine (becomes_pathExists h.final _).trans ?_
  rw [if_neg (by decide)]
  refine (Prog.becomes_change (fun _ _ => rfl) _).trans ?_
  refine (becomes_reserveWorker (w := asked) hid _).trans ?_
  refine (becomes_partialExists (w := asked.slotReserved row.url id) h.hasPartial _).trans ?_
  exact .refl _ _

/-- What the gate of a transfer does. -/
def transferGate (row : Row) (answer : Option HeadAnswer) : Gate :=
  if truthy row.expectedSha256 || !(truthy row.etag || truthy row.lastModified) then .resume
  else
    match answer.filter fun a => a.status = 200 ∨ a.status = 206 with
    | none => .review "unconfirmed" none
    | some a =>
      let decision := classifyRepresentation row.etag row.lastModified a
      if decision = "confirmed_unchanged" then .resume
      else .review decision (some a)

/-- What the gate of a recheck does. -/
def recheckGate (row : Row) (answer : Option HeadAnswer) : Gate :=
  match answer.filter fun a => a.status = 200 ∨ a.status = 206 with
  | none => .wait
  | some a =>
    let decision := classifyRepresentation row.etag row.lastModified a
    if truthy row.expectedSha256 || decision = "confirmed_unchanged" then .resume
    else .review decision (some a)

theorem becomes_checkRepresentation (s : String × Option HeadAnswer → Ctl α) :
    ((checkRepresentation row).bind s).Becomes (Observes answer) w
      (s (match answer.filter fun a => a.status = 200 ∨ a.status = 206 with
        | some o => (classifyRepresentation row.etag row.lastModified o, some o)
        | none => ("unconfirmed", none))) w := by
  have h : (checkRepresentation row).Becomes (Observes answer) w _ w := becomes_probeRepresentation _
  refine (h.bind s).trans ?_
  cases answer.filter fun a => a.status = 200 ∨ a.status = 206 <;> exact .refl _ _

theorem transferDoes (h : cfg.AtGate w row) (answer : Option HeadAnswer) :
    cfg.TransferDoes w row answer (transferGate row answer) := by
  obtain ⟨w', hdb, hfs, hgate⟩ := becomes_gate h answer
  unfold transferGate
  by_cases hopen : truthy row.expectedSha256 || !(truthy row.etag || truthy row.lastModified)
  · have hcond : (!truthy row.expectedSha256 && (truthy row.etag || truthy row.lastModified)) =
        false := by
      revert hopen
      cases truthy row.expectedSha256 <;> cases truthy row.etag <;>
        cases truthy row.lastModified <;> simp
    rw [if_neg (by simp [hcond])] at hgate
    rw [if_pos hopen]
    exact ⟨w', hdb, hfs, hgate⟩
  · have hcond : (!truthy row.expectedSha256 && (truthy row.etag || truthy row.lastModified)) =
        true := by
      revert hopen
      cases truthy row.expectedSha256 <;> cases truthy row.etag <;>
        cases truthy row.lastModified <;> simp
    rw [if_pos hcond] at hgate
    rw [if_neg hopen]
    have hchecked := hgate.trans (becomes_checkRepresentation _)
    cases hfound : answer.filter fun a => a.status = 200 ∨ a.status = 206 with
    | none =>
      rw [hfound] at hchecked
      exact ⟨w', hdb, hfs, hchecked⟩
    | some a =>
      rw [hfound] at hchecked
      by_cases hsame : classifyRepresentation row.etag row.lastModified a = "confirmed_unchanged"
      · rw [if_neg (by simpa using hsame)] at hchecked
        simp only [hsame, if_true]
        have hresume := hchecked.trans (Prog.becomes_change (fun _ _ => rfl) _)
        exact ⟨_, by exact hdb, by exact hfs, hresume⟩
      · rw [if_pos (by simpa using hsame)] at hchecked
        simp only [hsame, if_false]
        exact ⟨w', hdb, hfs, hchecked⟩

theorem becomes_recheck (h : HasPartial w.fs (cfg.stagingOf row)) {a : HeadAnswer}
    (hfound : a.status = 200 ∨ a.status = 206) :
    (recheckUnavailable cfg row).Becomes (Observes (some a)) w
      (match recheckDecision row a true with
        | .error decision => reviewed cfg row decision (some a) "recheck_review"
        | .ok detail => (transition cfg row.url .queued (some detail) fun _ =>
            [.nextRetryAt 0, .recheckAt none]).bind fun _ => .ret "recheck_available") w := by
  refine (becomes_headRequest _).trans ?_
  dsimp only
  rw [if_neg (by tauto)]
  refine (becomes_partialExists h _).trans ?_
  cases recheckDecision row a true <;> exact .refl _ _

theorem recheckDoes (hgeneration : row.stagingGeneration.isSome)
    (h : HasPartial w.fs (cfg.stagingOf row)) (answer : Option HeadAnswer) :
    cfg.RecheckDoes w row answer (recheckGate row answer) := by
  unfold recheckGate
  cases answer with
  | none => exact (becomes_headRequest _)
  | some a =>
    by_cases hfound : a.status = 200 ∨ a.status = 206
    · have hgen : row.stagingGeneration.isNone = false := by
        simpa using hgeneration
      have hbecomes := becomes_recheck h hfound
      rw [Option.filter_some, if_pos (by simpa using hfound)]
      unfold recheckDecision at hbecomes
      simp only [hgen, Bool.not_true, Bool.or_self, Bool.false_eq_true, if_false] at hbecomes
      by_cases hchecksum : truthy row.expectedSha256 = true
      · simp only [hchecksum, if_true, Bool.true_or] at hbecomes ⊢
        exact ⟨_, hbecomes⟩
      · by_cases hsame : classifyRepresentation row.etag row.lastModified a = "confirmed_unchanged"
        · simp only [hchecksum, hsame, ne_eq, not_true_eq_false, if_false, Bool.false_eq_true,
            decide_true, Bool.or_true, if_true] at hbecomes ⊢
          exact ⟨_, hbecomes⟩
        · simp only [hchecksum, hsame, ne_eq, not_false_eq_true, if_true, Bool.false_eq_true, if_false,
            decide_false, Bool.or_self] at hbecomes ⊢
          exact hbecomes
    · rw [Option.filter_some, if_neg (by simpa using hfound)]
      refine (becomes_headRequest _).trans ?_
      dsimp only
      rw [if_pos (by tauto)]
      exact .refl _ _

/-- An answer that says the item is there. -/
theorem filter_found {answer : Option HeadAnswer} :
    Found answer ↔ ∃ a, answer.filter (fun a => a.status = 200 ∨ a.status = 206) = some a := by
  cases answer with
  | none => simp [Found]
  | some a => simp [Found, Option.filter_some]

theorem gate_protected (hfound : Found answer) (hprotected : Protected row) :
    transferGate row answer = recheckGate row answer := by
  obtain ⟨a, ha⟩ := filter_found.1 hfound
  unfold transferGate recheckGate
  simp only [ha]
  by_cases hchecksum : truthy row.expectedSha256 = true
  · simp [hchecksum]
  · have hvalidator : (truthy row.etag || truthy row.lastModified) = true := by
      rcases hprotected with h | h | h
      · exact absurd h hchecksum
      · simp [h]
      · simp [h]
    simp [hchecksum, hvalidator]

theorem gate_unprotected (hfound : Found answer) (hprotected : ¬ Protected row) :
    transferGate row answer = .resume ∧
      ∃ observed, recheckGate row answer = .review "unconfirmed" observed := by
  obtain ⟨a, ha⟩ := filter_found.1 hfound
  simp only [Protected, not_or, Bool.not_eq_true] at hprotected
  obtain ⟨hchecksum, hetag, hmodified⟩ := hprotected
  unfold transferGate recheckGate
  simp only [ha]
  simp [hchecksum, hetag, hmodified, classifyRepresentation]

end

/-- An item with a partial; no validator and no checksum is recorded. -/
def stagedRow : Row where
  url := "https://host/set/a.bin"
  relativePath := "set/a.bin"
  stagingPath := some "/state/a.part"
  status := .unavailable
  stagingGeneration := some 1
  updatedAt := ""

def stagedConfig : Config where
  runId := "run"
  destination := ["dest"]
  state := ["state"]

/-- The partial has one byte. -/
def stagedWorld : World where
  db := { downloads := ⟨[stagedRow], by decide⟩ }
  disk := { downloads := ⟨[stagedRow], by decide⟩ }
  fs := ⟨fun p => if p = ["state"] ∨ p = ["dest"] then some .dir
    else if p = ["state", "a.part"] then some (.file 0) else none, fun _ => [0], 4096⟩

def foundAnswer : Option HeadAnswer := some { status := 200 }

def foundEnv : Env := { head := foundAnswer, uuid := "0", engineEnd := { ok := true } }

theorem staged_stagedWorld : stagedConfig.Staged stagedWorld stagedRow where
  generation := rfl
  hasPartial := ⟨by decide, 1, by decide, by decide⟩
  final := by decide
  slot := ⟨1, by decide, by decide⟩

theorem exists_ends_of_execute {α : Type} {p : Ctl α} {w : World} {es : List Env} {x : Except Exc α}
    (hes : ∀ e ∈ es, Observes foundAnswer e) (h : (p.execute w es).map Prod.fst = some x) :
    ∃ w', p.Ends (Observes foundAnswer) w x w' := by
  obtain ⟨⟨y, w'⟩, hrun, rfl⟩ := Option.map_eq_some_iff.1 h
  exact ⟨w', Prog.ends_of_execute hes hrun⟩

end TodDl.Controller
