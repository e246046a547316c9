/-
  The controller — one worker for an item (tod-dl.py, `run`, `next_pending`, `transfer`).

  No lock keeps two workers from an item; its status does.  While a worker may still write
  the row of the item, the status is one that `next_pending` does not hand out and that no
  operator returns to the queue (`heldStatuses`), up to the last transition of the worker,
  after which it only cleans up (`Idle`).  An unavailable item is held too: `next_recheck`
  hands it out again once the claim of its recheck is over, so the claim has to outlive the
  worker (`Session.ClaimsOutlive`).

  `Owns`, `Admits`: the phases of a worker and of a round of the scheduler.
  `one_writer`: in every state of every run of sessions, of two workers at least one is
  idle for an item, and an item with a worker that is not is held.
-/
import TodDl.Controller.Closing
import TodDl.Controller.Moves
import TodDl.Controller.Progress
import TodDl.Lib.Phases

namespace TodDl.Controller

open Lib (Path FileTree GRun Phases Prog)
open Store (Db Row Status Update Assign Request)

/-! ## Items that are held -/

/-- The statuses of an item that a worker may have: those of a transfer, and that of an item
    whose recheck was claimed. -/
def heldStatuses : List Status :=
  [.admitted, .active, .promoting, .complete, .unavailable, .excluded]

/-- `next_pending` does not hand the item out, and no operator returns it. -/
def Held (url : String) : World → Prop := RowIs url fun r => r.status ∈ heldStatuses

/-- The row of the item is committed as the connection sees it. -/
def Agree (url : String) (w : World) : Prop :=
  w.disk.downloads.find? url = w.db.downloads.find? url

/-- The program does not write the row of the item any more. -/
def Idle {α : Type} (url : String) : Ctl α → Prop
  | .ret _ | .raise _ => True
  | .act f k => ∀ w e, Leaves url w (f w e).2 ∧ Idle url (k (f w e).1)

/-- Whether a worker holds its item. -/
inductive Grip where
  | held
  | free

/-- A worker holds its item until it is done with the row. -/
def grips (url : String) : Phases World Env Grip where
  now
    | .held, w => Held url w
    | .free, _ => True
  go
    | .held, _, _, _, .held => True
    | .held, _, _, w', .free => Agree url w'
    | .free, w, _, w', .free => Leaves url w w'
    | .free, _, _, _, .held => False

/-- The program keeps the item held until it does not write its row any more. -/
@[irreducible] def Owns {α : Type} (url : String) (p : Ctl α) : Prop :=
  p.Phased (grips url) (fun _ _ => True) .held

/-- What a worker does to its item while it is held. -/
def holding (url : String) : Perms where
  moves u status := u = url → status ∈ heldStatuses
  engines := True

section
variable {url : String} {w w' : World} {e : Env} {α β : Type} {p : Ctl α} {q : α → Ctl β}
  {cfg : Config}

theorem Held.agree (h : Held url w) : Agree url w := RowIs.agree h

theorem Leaves.agree (h : Leaves url w w') (hw : Agree url w) : Agree url w' := by
  have hdb : w'.db.downloads.find? url = w.db.downloads.find? url :=
    h.db.elim id fun hd => hd.trans hw
  have hdisk : w'.disk.downloads.find? url = w.db.downloads.find? url :=
    h.disk.elim id fun hd => hd.trans hw
  exact hdisk.trans hdb.symm

theorem idle_of_uses (hp : p.Uses fun w _ w' => Leaves url w w') : Idle url p := by
  induction p with
  | ret a => trivial
  | raise x => trivial
  | act f k ih => exact fun w e => ⟨hp.1 w e, ih _ (hp.2 _)⟩

/-- A program that has let go is idle. -/
theorem idle_of_phased (hp : p.Phased (grips url) (fun _ _ => True) .free) : Idle url p := by
  induction p with
  | ret a => trivial
  | raise x => trivial
  | act f k ih =>
    intro w e
    obtain ⟨m, ⟨hgo, -⟩, hk⟩ := hp w e trivial
    cases m with
    | held => exact hgo.elim
    | free => exact ⟨hgo, ih _ hk⟩

/-- What the worker may do meanwhile keeps the item held. -/
theorem Step.held (hs : Step cfg (holding url) w e w') (hw : Held url w) : Held url w' := by
  have hsame : Leaves url w w' → Held url w' := fun h => h.holds hw
  cases hs with
  | quiet hdb hdisk => exact hsame (.same (by rw [hdb]) (by rw [hdisk]))
  | aside hrows hdisk =>
    have hdb := hrows.downloads
    rcases hdisk with hdisk | hdisk
    · exact hsame (.same hdb (by rw [hdisk]))
    · exact hsame ⟨.inl (by rw [hdb]), .inl (by rw [hdisk, hdb])⟩
  | rollback => exact hsame ⟨.inr rfl, .inr rfl⟩
  | @transition u status detail fields old text hmoves hfields hold =>
    obtain ⟨-, r, hr, hheld⟩ := hw
    refine ⟨rfl, _, by rw [Db.find?_transitioned, hr, Option.map_some], ?_⟩
    split
    · next hurl =>
      have hset : (r.set (Db.transitionUpdate status fields text)).status = status := by
        simpa [Db.transitionUpdate, Assign.apply] using Row.status_set hfields _
      rw [hset]
      refine hmoves ?_
      rw [← Lib.Table.find?_key hold, ← hurl, Lib.Table.find?_key hr]
    · exact hheld
  | failure code hdb hdisk => exact hsame (.same (by rw [hdb]) (by rw [hdisk]))
  | note => exact hsame (.same rfl rfl)
  | engine _ hdb hdisk => exact hsame (.same (by rw [hdb]) (by rw [hdisk]))
  | importEntry hp => exact hp.elim
  | select hp => exact hp.elim

/-! ## Programs that hold the item -/

theorem owns_of_uses (hp : p.Uses (Step cfg (holding url))) : Owns url p := by
  unfold Owns
  exact Prog.phased_of_uses hp (fun _ _ _ hw hs => ⟨trivial, hs.held hw⟩) fun _ => trivial

theorem owns_ret (a : α) : Owns url (.ret a : Ctl α) := by
  unfold Owns
  trivial

/-- First it is held, then the rest goes on. -/
theorem Owns.after (cfg : Config) (hp : p.Uses (Step cfg (holding url)))
    (hq : ∀ a, Owns url (q a)) : Owns url (p.bind q) := by
  have hheld : p.Phased (grips url) (fun m _ => m = .held) .held :=
    Prog.phased_of_uses hp (fun _ _ _ hw hs => ⟨trivial, hs.held hw⟩) fun _ => rfl
  unfold Owns at hq ⊢
  refine hheld.bind (fun m a hm => ?_) fun _ _ _ => trivial
  cases hm
  exact hq a

/-- A program that leaves the row alone stays in its phase. -/
theorem phased_of_leaves (cfg : Config) (m : Grip) (hp : p.Uses (Step cfg (elsewhere url))) :
    p.Phased (grips url) (fun _ _ => True) m := by
  refine Prog.phased_of_uses hp (fun w e w' hw hs => ?_) fun _ => trivial
  cases m with
  | held => exact ⟨trivial, hs.leaves.holds hw⟩
  | free => exact ⟨hs.leaves, trivial⟩

/-- What follows leaves the row alone. -/
theorem Owns.andThen (cfg : Config) (hp : Owns url p)
    (hq : ∀ a, (q a).Uses (Step cfg (elsewhere url))) : Owns url (p.bind q) := by
  unfold Owns at hp ⊢
  exact hp.bind (fun m a _ => phased_of_leaves cfg m (hq a)) fun _ _ _ => trivial

/-- **A transition may let go of the item.** -/
theorem owns_transition (u : String) (status : Status) (detail : Option String)
    (fields : Env → Update) : Owns url (transition cfg u status detail fields) := by
  obtain ⟨f, handler, heq, -, hhandler⟩ := exists_commit cfg u status detail fields
  -- after the commit, or without one, the row is on disk as it is seen
  have hcommit : (dbCommit f).Phased (grips url) (fun m _ => m = .free) .held := by
    refine Prog.phased_call fun w e hw => ⟨.free, ⟨?_, trivial⟩, rfl⟩
    cases f w.db e <;> rcases e.sqlFault with _ | _ | _ <;>
      first | exact RowIs.agree hw | rfl
  rw [heq]
  unfold Owns
  refine hcommit.handle (fun _ _ _ => trivial) fun m x hm => ?_
  cases hm
  rcases hhandler x with hx | hx
  · rw [hx]
    exact phased_of_leaves cfg _ uses_sqliteFailure
  · rw [hx]
    trivial

end

/-! ## Workers -/

section
variable {cfg : Config} {url : String}

theorem owns_enterRepresentationReview (u : String) (staging : Path) (decision : String)
    (observed : Option HeadAnswer) :
    Owns url (enterRepresentationReview cfg u staging decision observed) := by
  unfold enterRepresentationReview
  refine Owns.after cfg (uses_moveCandidate _) fun _ =>
    Owns.after cfg (uses_candidateEvent ..) fun _ => ?_
  exact Owns.andThen cfg (owns_transition _ _ _ _) fun _ => uses_clearTransferTelemetry _

/-- A transition, and the release of the slot. -/
theorem owns_release (u : String) (status : Status) (detail : Option String) (fields : Env → Update)
    (result : String) : Owns url ((transition cfg u status detail fields).bind fun _ =>
      (clearTransferTelemetry u).bind fun _ => .ret result) :=
  Owns.andThen cfg (owns_transition _ _ _ _) fun _ =>
    (uses_clearTransferTelemetry _).bind fun _ => trivial

section
variable {row : Row}

/-- While the item is held its worker may do what changes no status but to a held one. -/
theorem moves_holding {s : Status} (hs : s ∈ heldStatuses) (u : String) :
    (holding url).moves u s := fun _ => hs

/-- **A recheck** holds an unavailable item until it is done with the row. -/
theorem owns_recheckUnavailable : Owns url (recheckUnavailable cfg row) := by
  unfold recheckUnavailable
  refine Owns.after cfg (uses_look _) fun answer => ?_
  split
  · exact owns_ret _
  · split
    · exact owns_ret _
    · refine Owns.after cfg (uses_partialExists _) fun _ => ?_
      split
      · exact Owns.andThen cfg (owns_enterRepresentationReview _ _ _ _) fun _ => trivial
      · exact Owns.andThen cfg (owns_transition _ _ _ _) fun _ => trivial

theorem owns_transferFailed (staging : Path) (startedAt error : String) :
    Owns url (transferFailed cfg row staging startedAt error) := by
  unfold transferFailed
  refine Owns.after cfg (uses_stagedSize _) fun size => Owns.after cfg ?_
    fun stopped => ?_
  · unfold stalled
    split
    · trivial
    · exact uses_dbLook _
  · split
    · refine Owns.after cfg (uses_attemptEvent ..) fun _ =>
        Owns.after cfg (uses_moveCandidate _) fun _ =>
        Owns.after cfg (uses_candidateEvent ..) fun _ =>
        Owns.after cfg (uses_osLook _) fun _ => ?_
      exact owns_release _ _ _ _ _
    · split
      · refine Owns.after cfg (Prog.uses_change fun w e => ?_) fun _ =>
          Owns.after cfg (uses_attemptEvent ..) fun _ =>
          Owns.after cfg (uses_recordLocalFailure _ _) fun _ => owns_release _ _ _ _ _
        exact .quiet rfl rfl ⟨rfl, rfl, rfl, rfl, rfl, rfl⟩ ⟨rfl, rfl, rfl⟩
      · split
        · exact Owns.after cfg (uses_attemptEvent ..) fun _ => owns_release _ _ _ _ _
        · split
          · exact Owns.after cfg (uses_attemptEvent ..) fun _ => owns_release _ _ _ _ _
          · exact Owns.after cfg (uses_look _) fun _ =>
              Owns.after cfg (uses_attemptEvent ..) fun _ => owns_release _ _ _ _ _

theorem owns_transferRejected (staging : Path) (startedAt digest detail reason : String) :
    Owns url (transferRejected cfg row staging startedAt digest detail reason) := by
  unfold transferRejected
  exact Owns.after cfg (uses_attemptEvent ..) fun _ =>
    Owns.after cfg (uses_moveCandidate _) fun _ =>
    Owns.after cfg (uses_candidateEvent ..) fun _ =>
    Owns.after cfg (uses_osLook _) fun _ => owns_release _ _ _ _ _

/-- A completed item stays held. -/
theorem uses_completeTransfer_holding (stored : String) (staging target : Path) (digest : String)
    (sizeCompared : Bool) : (completeTransfer cfg row stored staging target digest
      sizeCompared).Uses (Step cfg (holding url)) := by
  have hcomplete : ∀ u, (holding url).moves u .complete := moves_holding (by decide)
  unfold completeTransfer
  refine (uses_osLook _).bind fun _ => (uses_osLook _).bind fun _ => ?_
  refine (uses_finalizedEvent ..).bind fun _ => (uses_clearTransferTelemetry _).bind fun _ => ?_
  refine (uses_osLook _).bind fun _ =>
    (uses_transition (hcomplete _) _ _ fun _ => by simp).bind fun _ => ?_
  exact (uses_osChange _).bind fun _ =>
    (uses_transition (hcomplete _) _ _ fun _ => by simp).bind fun _ => trivial

theorem owns_promote (stored : String) (staging target : Path) (digest : String)
    (sizeCompared : Bool) :
    Owns url (promote cfg row stored staging target digest sizeCompared) := by
  have hpromoting : ∀ u, (holding url).moves u .promoting := moves_holding (by decide)
  unfold promote
  refine Owns.after cfg (Prog.Uses.attempt ?_) fun intent => ?_
  · refine (uses_ensureSafeParent _).bind fun _ => (uses_osLook _).bind fun _ => ?_
    exact (uses_osLook _).bind fun _ => uses_transition (hpromoting _) _ _ fun _ => by simp
  · split
    · exact Owns.after cfg (uses_osLook _) fun _ => owns_release _ _ _ _ _
    · refine Owns.after cfg (Prog.Uses.attempt (uses_osChange _)) fun linked => ?_
      split
      · exact Owns.after cfg (uses_moveCandidate _) fun _ =>
          Owns.after cfg (uses_candidateEvent ..) fun _ =>
          Owns.after cfg (uses_osLook _) fun _ => owns_release _ _ _ _ _
      · exact Owns.after cfg (uses_osLook _) fun _ => owns_release _ _ _ _ _
      · exact owns_of_uses (uses_completeTransfer_holding ..)

theorem owns_validate (stored : String) (staging target : Path) (startedAt : String) :
    Owns url (validate cfg row stored staging target startedAt) := by
  unfold validate
  refine Owns.after cfg (Prog.Uses.attempt (uses_osLook _)) fun seen => ?_
  split
  · refine Owns.after cfg (Prog.Uses.handle (uses_osLook _) fun _ =>
      (uses_clearTransferTelemetry _).bind fun _ => trivial) fun digest => ?_
    split
    · exact owns_transferRejected _ _ _ _ _
    · refine Owns.after cfg (uses_osLook _) fun _ =>
        Owns.after cfg (uses_look _) fun _ => ?_
      split
      · split
        · exact owns_transferRejected _ _ _ _ _
        · exact Owns.after cfg (uses_attemptEvent ..) fun _ => owns_promote _ _ _ _ _
      · exact Owns.after cfg (uses_attemptEvent ..) fun _ => owns_promote _ _ _ _ _
  · exact Owns.after cfg (uses_attemptEvent ..) fun _ => owns_release _ _ _ _ _

theorem owns_transferAttempt (stored : String) (staging target : Path) {fields : Update}
    (hfields : fields.KeepsStatus) :
    Owns url (transferAttempt cfg row stored staging target fields) := by
  have hactive : ∀ u, (holding url).moves u .active := moves_holding (by decide)
  unfold transferAttempt
  refine Owns.after cfg (uses_look _) fun _ => Owns.after cfg
    (uses_transition (hactive _) _ _ fun _ => ?_) fun _ => ?_
  · exact List.forall_mem_cons.2 ⟨rfl, hfields⟩
  refine Owns.after cfg (uses_recordAttemptStart ..) fun _ => Owns.after cfg
    (Prog.Uses.handle (uses_runAria2 trivial _ _) fun _ =>
      (uses_clearTransferTelemetry _).bind fun _ => trivial) fun ended => ?_
  obtain ⟨ok, error⟩ := ended
  refine Owns.after cfg (uses_leftComplete _ _) fun complete => ?_
  split
  · exact owns_validate _ _ _ _
  · exact owns_transferFailed _ _ _

/-- **A transfer** holds its item until it is done with the row. -/
theorem owns_transfer : Owns url (transfer cfg row) := by
  have hgeneration : (generationFields row).KeepsStatus := by
    unfold generationFields
    split <;> decide
  have hvalidators : ∀ o, (validatorFields o).KeepsStatus := by
    rintro (_ | o)
    · decide
    · simp [validatorFields]
  unfold transfer
  refine Owns.after cfg (uses_osLook _) fun _ => ?_
  split
  · exact Owns.after cfg (uses_osLook _) fun _ =>
      Owns.andThen cfg (owns_transition _ _ _ _) fun _ => trivial
  · refine Owns.after cfg (uses_confirm fun w => w.resumeConfirmed.filter (· ≠ row.url))
      fun _ => Owns.after cfg (uses_reserveWorker row.url) fun _ =>
      Owns.after cfg (uses_partialExists _) fun _ => ?_
    split
    · refine Owns.after cfg (uses_freshProbe row) fun o => owns_transferAttempt _ _ _ ?_
      exact List.forall_mem_append.2 ⟨hgeneration, hvalidators o⟩
    · split
      · refine Owns.after cfg (uses_checkRepresentation row) fun checked => ?_
        obtain ⟨decision, observed⟩ := checked
        dsimp only
        split
        · exact Owns.andThen cfg (owns_enterRepresentationReview _ _ _ _) fun _ => trivial
        · exact Owns.after cfg (uses_confirm fun w => w.resumeConfirmed ++ [row.url])
            fun _ => owns_transferAttempt _ _ _ hgeneration
      · exact owns_transferAttempt _ _ _ hgeneration

theorem owns_task (task : Task) : Owns url (task.program cfg) := by
  cases task with
  | transfer row => exact owns_transfer
  | recheck row => exact owns_recheckUnavailable

end

end

/-! ## A round of the scheduler -/

/-- How far a round of the scheduler is with the item. -/
inductive Choice where
  /-- it is about others, as far as it is known -/
  | away
  /-- `next_pending` has handed the item out -/
  | chosen
  /-- the item is admitted, or claimed for a recheck -/
  | taken

/-- The scheduler takes an item which `next_pending` hands out, or whose recheck is due. -/
def choices (cfg : Config) (url : String) : Phases World Env Choice where
  now
    | .taken, w => Held url w
    | _, w => Agree url w
  go
    | .away, w, _, w', .away => Leaves url w w'
    | .away, w, e, w', .chosen =>
      (∃ r, nextPending cfg w.db e.time = .ok (some r) ∧ r.url = url) ∧ Leaves url w w'
    | .away, w, e, _, .taken => ∃ r, nextRecheck w.db cfg.runId e.time = some r ∧ r.url = url
    | .chosen, w, _, w', .chosen => Leaves url w w'
    | .chosen, _, _, _, .taken => True
    | .taken, _, _, _, .taken => True
    | _, _, _, _, _ => False

/-- A round that hands out the item has taken it. -/
def Handed (url : String) : Choice → Except Exc (Option Task) → Prop
  | .taken, _ => True
  | .away, .ok (some task) => task.row.url ≠ url
  | .chosen, .ok (some _) => False
  | _, _ => True

/-- The round may go on like this. -/
@[irreducible] def Admits (cfg : Config) (url : String) (c : Choice) (p : Ctl (Option Task)) : Prop :=
  p.Phased (choices cfg url) (Handed url) c

section
variable {cfg : Config} {url : String} {w : World} {e : Env}

/-- `next_pending` hands out no item that is held. -/
theorem not_held_of_nextPending {time : ℚ} {r : Row} (h : nextPending cfg w.db time = .ok (some r))
    (hurl : r.url = url) : ¬ Held url w := by
  rintro ⟨-, r', hr', hheld⟩
  cases hpatterns : clauseIn 7 w.db cfg.runId with
  | error f => simp [nextPending, hpatterns, bind, Except.bind] at h
  | ok patterns =>
    obtain ⟨i, hi, -⟩ := nextPending_least hpatterns h
    have hrow : w.db.downloads.find? r.url = some r := (Lib.Table.find?_key hi.row).symm ▸ hi.row
    obtain rfl : r' = r := by
      rw [hurl, hr'] at hrow
      exact Option.some.inj hrow
    have hretryable : r'.status ∈ Store.retryableStatuses := by
      have hadmissible := hi.admissible
      simp only [Config.admissible, Config.retryable, Bool.and_eq_true, decide_eq_true_eq] at hadmissible
      exact hadmissible.1.1.1
    have hall : ∀ s ∈ Store.retryableStatuses, s ∉ heldStatuses := by decide
    exact hall _ hretryable hheld

/-- A recheck that is due finds its item held. -/
theorem held_of_nextRecheck {time : ℚ} {r : Row} (hw : Agree url w)
    (h : nextRecheck w.db cfg.runId time = some r) (hurl : r.url = url) : Held url w := by
  obtain ⟨hrow, hstatus, -⟩ := nextRecheck_eq_some h
  refine ⟨hw, r, hurl ▸ hrow, ?_⟩
  rw [hstatus]
  decide

/-- What leaves the row alone goes on as before. -/
theorem leads_of_leaves {w' : World} (c : Choice) (h : Leaves url w w')
    (hw : (choices cfg url).now c w) : (choices cfg url).Leads c w e w' c := by
  cases c with
  | away => exact ⟨h, h.agree hw⟩
  | chosen => exact ⟨h, h.agree hw⟩
  | taken => exact ⟨trivial, h.holds hw⟩

/-- A part of a round that leaves the row alone. -/
theorem phased_choice {α : Type} {p : Ctl α} {Fin : Choice → Except Exc α → Prop} (c : Choice)
    (hp : p.Uses (Step cfg (elsewhere url))) (hfin : ∀ x, Fin c x) :
    p.Phased (choices cfg url) Fin c :=
  Prog.phased_of_uses hp (fun _ _ _ hw hs => leads_of_leaves c hs.leaves hw) hfin

/-- The handler of a failed statement raises, whatever phase it finds. -/
theorem phased_sqliteFailure (c : Choice) :
    sqliteFailure.Phased (choices cfg url) (fun _ x => x ≠ .ok ()) c := by
  have hstop : (Prog.change fun w (_ : Env) =>
      { w with stopRequested := true, localFailureCode := some "database_write" } :
        Ctl Unit).Phased (choices cfg url) (fun c' _ => c' = c) c :=
    phased_choice c (Prog.uses_change fun w e =>
      .failure "database_write" rfl rfl ⟨rfl, rfl, rfl, rfl, rfl, rfl⟩ ⟨rfl, rfl, rfl⟩) fun _ => rfl
  have hnote : (recordLocalFailure "database_write" "SQLite write or commit failed").Phased
      (choices cfg url) (fun c' _ => c' = c) c :=
    phased_choice c (uses_recordLocalFailure _ _) fun _ => rfl
  unfold sqliteFailure
  refine hstop.bind (fun c' _ hc => ?_) fun _ _ _ => by simp
  cases hc
  exact hnote.bind (fun _ _ _ h => by cases h) fun _ _ _ => by simp

/-- The admission of the item takes it, or raises. -/
theorem phased_admission :
    (transition cfg url .admitted (some "transfer admitted") fun _ => []).Phased (choices cfg url)
      (fun c x => x = .ok () → c = .taken) .chosen := by
  obtain ⟨f, handler, heq, hf, hhandler⟩ :=
    exists_commit cfg url .admitted (some "transfer admitted") fun _ => []
  have hcommit : (dbCommit f).Phased (choices cfg url) (fun c x => x = .ok () → c = .taken)
      .chosen := by
    refine Prog.phased_call fun w e hw => ?_
    have hstays : Leaves url w { w with db := w.disk } := ⟨.inr rfl, .inr rfl⟩
    have htakes : ∀ db, f w.db e = .ok db → Held url { w with db, disk := db } := by
      intro db hdb
      obtain ⟨old, hold, rfl⟩ := hf _ _ _ hdb
      refine ⟨rfl, _, by rw [Db.find?_transitioned, hold, Option.map_some], ?_⟩
      have hset : (old.set (Db.transitionUpdate .admitted [] e.text)).status = .admitted := rfl
      rw [if_pos rfl, hset]
      decide
    cases hfault : e.sqlFault with
    | some fault =>
      cases fault with
      | lost => exact ⟨.chosen, leads_of_leaves .chosen hstays hw, by simp⟩
      | kept =>
        cases hdb : f w.db e with
        | error x => exact ⟨.chosen, leads_of_leaves .chosen (.same rfl rfl) hw, by simp⟩
        | ok db => exact ⟨.taken, ⟨trivial, htakes db hdb⟩, by simp⟩
    | none =>
      cases hdb : f w.db e with
      | error x => exact ⟨.chosen, leads_of_leaves .chosen (.same rfl rfl) hw, by simp⟩
      | ok db => exact ⟨.taken, ⟨trivial, htakes db hdb⟩, fun _ => rfl⟩
  rw [heq]
  refine hcommit.handle (fun _ _ h => h) fun c x _ => ?_
  rcases hhandler x with hx | hx
  · rw [hx]
    exact (phased_sqliteFailure c).mono fun _ _ hne h => absurd h hne
  · rw [hx]
    intro h
    cases h

theorem leaves_claimRecheck {u : String} (hne : u ≠ url) :
    (claimRecheck u).Uses fun w _ w' => Leaves url w w' := by
  refine Prog.uses_call fun w e => ?_
  have hother : (w.db.claimRecheck u e.time e.text).downloads.find? url =
      w.db.downloads.find? url := by
    rw [Db.claimRecheck, Lib.Table.find?_modify]
    refine Option.map_congr (fun r hr => if_neg ?_) |>.trans Option.map_id'
    rw [Lib.Table.find?_key hr]
    exact hne.symm
  rcases e.sqlFault with _ | _ | _
  · exact ⟨.inl hother, .inl hother⟩
  · exact ⟨.inr rfl, .inr rfl⟩
  · exact ⟨.inl hother, .inl hother⟩

/-- A claim keeps the item. -/
theorem phased_claimRecheck :
    (claimRecheck url).Phased (choices cfg url) (fun c _ => c = .taken) .taken := by
  refine Prog.phased_call fun w e hw => ⟨.taken, ⟨trivial, ?_⟩, rfl⟩
  have hclaimed : Held url { w with
      db := w.db.claimRecheck url e.time e.text, disk := w.db.claimRecheck url e.time e.text } := by
    obtain ⟨-, r, hr, hheld⟩ := hw
    refine ⟨rfl, ?_⟩
    rw [Db.claimRecheck, Lib.Table.find?_modify, hr, Option.map_some]
    refine ⟨_, rfl, ?_⟩
    split
    · rw [Row.status_set (by simp)]
      exact hheld
    · exact hheld
  have hlost : Held url { w with db := w.disk } :=
    Leaves.holds ⟨.inr rfl, .inr rfl⟩ hw
  rcases e.sqlFault with _ | _ | _
  · exact hclaimed
  · exact hlost
  · exact hclaimed

/-- A task that ends the round. -/
theorem phased_ret {c : Choice} {task : Task}
    (h : c = .taken ∨ c = .away ∧ task.row.url ≠ url) :
    (.ret (some task) : Ctl (Option Task)).Phased (choices cfg url) (Handed url) c := by
  rcases h with rfl | ⟨rfl, hne⟩
  · trivial
  · exact hne

/-- **A round of the scheduler** takes the item only where a query hands it out. -/
theorem admits_admitNext : Admits cfg url .away (admitNext cfg) := by
  unfold Admits admitNext
  have hquery : (query (nextPending cfg)).Phased (choices cfg url)
      (fun c x => ∀ found, x = .ok found →
        c = .away ∧ (∀ row ∈ found, row.url ≠ url) ∨
          c = .chosen ∧ ∃ row, found = some row ∧ row.url = url) .away := by
    refine Prog.phased_call fun w e hw => ?_
    cases hfault : e.sqlFault with
    | some fault => exact ⟨.away, leads_of_leaves .away (.same rfl rfl) hw, by simp⟩
    | none =>
      cases hnext : nextPending cfg w.db e.time with
      | error failure => exact ⟨.away, leads_of_leaves .away (.same rfl rfl) hw, by simp⟩
      | ok found =>
        by_cases hmine : ∃ row, found = some row ∧ row.url = url
        · obtain ⟨row, rfl, hurl⟩ := hmine
          refine ⟨.chosen, ⟨⟨⟨row, hnext, hurl⟩, .same rfl rfl⟩, hw⟩, ?_⟩
          rintro _ ⟨⟩
          exact .inr ⟨rfl, row, rfl, hurl⟩
        · refine ⟨.away, leads_of_leaves .away (.same rfl rfl) hw, ?_⟩
          rintro _ ⟨⟩
          exact .inl ⟨rfl, fun row hrow hurl => hmine ⟨row, hrow, hurl⟩⟩
  -- so does the query for the rechecks, or it takes the item
  have hlook : (dbLook fun db e => nextRecheck db cfg.runId e.time).Phased (choices cfg url)
      (fun c x => ∀ due, x = .ok due →
        c = .away ∧ (∀ row ∈ due, row.url ≠ url) ∨
          c = .taken ∧ ∃ row, due = some row ∧ row.url = url) .away := by
    refine Prog.phased_call fun w e hw => ?_
    cases hfault : e.sqlFault with
    | some fault => exact ⟨.away, leads_of_leaves .away (.same rfl rfl) hw, by simp⟩
    | none =>
      by_cases hmine : ∃ row, nextRecheck w.db cfg.runId e.time = some row ∧ row.url = url
      · obtain ⟨row, hrow, hurl⟩ := hmine
        refine ⟨.taken, ⟨⟨row, hrow, hurl⟩, held_of_nextRecheck hw hrow hurl⟩, ?_⟩
        rintro _ ⟨⟩
        exact .inr ⟨rfl, row, hrow, hurl⟩
      · refine ⟨.away, leads_of_leaves .away (.same rfl rfl) hw, ?_⟩
        rintro _ ⟨⟩
        exact .inl ⟨rfl, fun row hrow hurl => hmine ⟨row, hrow, hurl⟩⟩
  have hraise : ∀ {c x}, Handed url c (.error x) := by
    intro c x
    cases c <;> trivial
  have haway : ∀ {p : Ctl Unit}, p.Uses (Step cfg (elsewhere url)) →
      p.Phased (choices cfg url) (fun c _ => c = .away) .away := fun hp =>
    phased_choice .away hp fun _ => rfl
  have hthen : ∀ {p : Ctl Unit} {c : Choice} {task : Task}, (c = .taken ∨ c = .away ∧
      task.row.url ≠ url) → p.Phased (choices cfg url) (fun c' x => x = .ok () → c' = c) c →
        (p.bind fun _ => .ret (some task)).Phased (choices cfg url) (Handed url) c :=
    fun hc hp => hp.bind (fun c' _ hc' => by cases hc' rfl; exact phased_ret hc) fun _ _ _ => hraise
  refine hquery.bind (fun c found hfound => ?_) fun _ _ _ => hraise
  rcases hfound _ rfl with ⟨rfl, hother⟩ | ⟨rfl, row, rfl, rfl⟩
  · cases found with
    | some row =>
      have hne := hother row rfl
      refine hthen (.inr ⟨rfl, hne⟩) ((haway ?_).mono fun _ _ h _ => h)
      exact uses_transition hne _ _ fun _ => by simp
    | none =>
      refine hlook.bind (fun c due hdue => ?_) fun _ _ _ => hraise
      rcases hdue _ rfl with ⟨rfl, hother⟩ | ⟨rfl, row, rfl, rfl⟩
      · cases due with
        | none => trivial
        | some row =>
          have hne := hother row rfl
          exact hthen (.inr ⟨rfl, hne⟩) (Prog.phased_of_uses (leaves_claimRecheck hne)
            (fun _ _ _ hw h => leads_of_leaves .away h hw) fun _ _ => rfl)
      · exact hthen (.inl rfl) (phased_claimRecheck.mono fun _ _ h _ => h)
  · exact phased_admission.bind (fun c _ hc => by cases hc rfl; exact phased_ret (.inl rfl))
      fun _ _ _ => hraise

end

/-! ## Requests -/

/-- A step of a handler: it commits all that it changes. -/
structure Serves (url : String) (w w' : World) : Prop where
  acts : Acts url w w'
  settles : w'.disk = w'.db ∨ SameDb w w'

section
variable {cfg : Config} {url : String} {w w' : World}

theorem Serves.agree (h : Serves url w w') (hw : Agree url w) : Agree url w' := by
  rcases h.settles with hs | hs
  · rw [Agree, hs]
  · rw [Agree, hs.db, hs.disk]
    exact hw

/-- No request gives away an item that is held. -/
theorem Serves.held (h : Serves url w w') (hw : Held url w) : Held url w' := by
  obtain ⟨hagree, r, hr, hheld⟩ := hw
  obtain ⟨hagree', r', hr', hserved⟩ := h.acts r hagree hr
  refine ⟨hagree', r', hr', ?_⟩
  rcases hserved with ⟨-, hs | hs⟩ | ⟨-, hreview, -⟩
  · rw [hs]
    exact hheld
  · rw [hs]
    decide
  · rw [hreview] at hheld
    exact absurd hheld (by decide)

theorem serves_same (hdb : w'.db = w.db) (hdisk : w'.disk = w.disk) : Serves url w w' :=
  ⟨(Leaves.same (by rw [hdb]) (by rw [hdisk])).acts, .inr ⟨hdb, hdisk⟩⟩

/-- The wake and the answer. -/
theorem uses_answer (wakes : Bool) (reply : Store.Reply) :
    (if wakes then wakeScheduler.bind fun _ => .ret reply else .ret reply : Ctl Store.Reply).Uses
      fun w _ w' => Serves url w w' := by
  have hwake : wakeScheduler.Uses fun w _ w' => Serves url w w' :=
    Prog.uses_change fun _ _ => serves_same rfl rfl
  split
  · exact hwake.bind fun _ => Prog.uses_ret _
  · trivial

/-- A handler is one step on the database, and a wake. -/
theorem uses_andWake_call {wakes : Bool} {g : World → Env → Except Exc (Store.Reply × Bool) × World}
    (hacts : ∀ w w', (andWake wakes (Prog.call g)).Passes (fun _ => True) w w' → Acts url w w')
    (hsettles : ∀ w e, (g w e).2.disk = (g w e).2.db ∨ SameDb w (g w e).2) :
    (andWake wakes (Prog.call g)).Uses fun w _ w' => Serves url w w' := by
  refine ⟨fun w e => ⟨hacts _ _ (.inr ⟨e, trivial, Prog.passes_self⟩), hsettles w e⟩, fun b => ?_⟩
  cases b with
  | error x => trivial
  | ok b => exact uses_answer _ _

theorem settles_itemControl (cfg : Config) (handler : Db → String → Request → Store.Clock → Store.Outcome)
    (q : Request) : ∃ g, itemControl cfg handler q = Prog.call g ∧
      ∀ w e, (g w e).2.disk = (g w e).2.db ∨ SameDb w (g w e).2 := by
  refine ⟨_, rfl, fun w e => ?_⟩
  dsimp only
  split
  · exact .inl rfl
  · exact .inl rfl
  · exact .inr (.refl w)
  · exact .inl rfl
  · exact .inr (.refl w)

theorem settles_flagControl (cfg : Config) (a : FlagAction) (q : Request) :
    (∃ r, flagControl cfg a q = .ret r) ∨ ∃ g, flagControl cfg a q = Prog.call g ∧
      ∀ w e, (g w e).2.disk = (g w e).2.db ∨ SameDb w (g w e).2 := by
  unfold flagControl
  split
  · refine .inr ⟨_, rfl, fun w e => ?_⟩
    dsimp only
    split
    · exact .inr (.refl w)
    · split <;> exact .inl rfl
  · exact .inl ⟨_, rfl⟩

/-- **What a request does**, step by step. -/
theorem uses_control_serves (q : Request) (a : ControlAction) :
    (control cfg q a).Uses fun w _ w' => Serves url w w' := by
  have hacts : ∀ w w', (control cfg q a).Passes (fun _ => True) w w' → Acts url w w' :=
    fun w w' h => acts_control q a h
  have hitem : ∀ {wakes handler}, control cfg q a = andWake wakes (itemControl cfg handler q) →
      (control cfg q a).Uses fun w _ w' => Serves url w w' := by
    intro wakes handler heq
    obtain ⟨g, hg, hsettles⟩ := settles_itemControl cfg handler q
    rw [heq, hg] at hacts ⊢
    exact uses_andWake_call hacts hsettles
  have hflag : ∀ {f : FlagAction}, control cfg q a = andWake f.wakes (flagControl cfg f q) →
      (control cfg q a).Uses fun w _ w' => Serves url w w' := by
    intro f heq
    rcases settles_flagControl cfg f q with ⟨⟨reply, accepted⟩, hret⟩ | ⟨g, hg, hsettles⟩
    · rw [heq, hret]
      exact uses_answer _ _
    · rw [heq, hg] at hacts ⊢
      exact uses_andWake_call hacts hsettles
  cases a with
  | pauseAdmission => exact hflag rfl
  | resumeAdmission => exact hflag rfl
  | drainAndStop => exact hflag rfl
  | checkpointStop => exact hflag rfl
  | _ => exact hitem rfl

end

/-! ## The start -/

/-- Before and after the last commit of a start. -/
def starts : Phases World Env Bool where
  now b w := b = true → w.disk = w.db
  go _ _ _ _ _ := True

/-- A start that ends has committed. -/
def Started (b : Bool) (x : Except Exc Unit) : Prop := x = .ok () → b = true

section
variable {cfg : Config}

theorem phased_any {α : Type} (p : Ctl α) : p.Phased starts (fun b _ => b = false) false := by
  induction p with
  | ret a => rfl
  | raise x => rfl
  | act f k ih => exact fun w e _ => ⟨false, ⟨trivial, by simp [starts]⟩, ih _⟩

/-- **The last statement of a start is a commit.** -/
theorem phased_startup : (startup cfg).Phased starts Started false := by
  have hlast : ∀ {α : Type} {p : Ctl α} {q : α → Ctl Unit}, (∀ a, (q a).Phased starts Started false) →
      (p.bind q).Phased starts Started false := fun hq =>
    (phased_any _).bind (fun b a hb => by cases hb; exact hq a) fun _ _ _ h => by cases h
  have hcommit : (dbCommit fun db _ => .ok db).Phased starts (fun b _ => b = true) false := by
    refine Prog.phased_call fun w e _ => ⟨true, ⟨trivial, fun _ => ?_⟩, rfl⟩
    rcases e.sqlFault with _ | _ | _ <;> rfl
  have hend : ((dbCommit fun db _ => .ok db).bind fun _ => Prog.change fun w e =>
      { w with deadline :=
          if cfg.timeLimit = 0 then none else some (e.monotonic + cfg.timeLimit) } :
        Ctl Unit).Phased starts Started false := by
    refine hcommit.bind (fun b _ hb => ?_) fun _ _ _ h => by cases h
    cases hb
    exact fun w e hw => ⟨true, ⟨trivial, hw⟩, fun _ => rfl⟩
  unfold startup
  refine hlast fun _ => hlast fun _ => hlast fun _ => hlast fun _ => hlast fun _ =>
    hlast fun _ => hlast fun _ => hlast fun _ => hlast fun _ => hlast fun _ =>
    hlast fun _ => hlast fun _ => hlast fun _ => ?_
  dsimp only
  split
  · exact hlast fun _ => hend
  · exact hend

end

/-! ## Sessions -/

/-- Who may write the row of an item. -/
inductive Holder where
  | nobody
  | scheduler
  | worker (id : ℕ)

/-- The scheduler lets go of what it has taken. -/
def Holder.off : Holder → Holder
  | .scheduler => .nobody
  | o => o

theorem leaves_query {url : String} {β : Type} (f : Db → ℚ → Except Provenance.Failure β) :
    (query f).Uses fun w _ w' => Leaves url w w' := by
  refine Prog.uses_call fun w e => ?_
  split <;> exact .same rfl rfl

namespace Session

/-- The claim of a recheck outlives its worker: when the scheduler finds a recheck due, no
    worker of the pool has anything left to write to its item. -/
def ClaimsOutlive (s : Session) : Move → Prop
  | .run e => ∀ p, s.main = .admitting p → ∀ r ∈ nextRecheck s.world.db s.cfg.runId e.time,
      ∀ j ∈ s.workers, Idle r.url j.program
  | _ => True

/-- What holds of the parties whatever happens. -/
structure Framed (s : Session) : Prop where
  start : ∀ p, s.main = .starting p → ∃ b, p.Phased starts Started b ∧ starts.now b s.world
  asks : ∀ p, s.main = .asking p → ∀ url, p.Uses fun w _ w' => Leaves url w w'
  handlers : ∀ j ∈ s.handlers, ∀ url, j.program.Uses fun w _ w' => Serves url w w'
  unserved : s.serves = false → s.workers = [] ∧ s.handlers = []

/-- At most the holder may write the row of the item. -/
structure Ruled (url : String) (s : Session) (o : Holder) : Prop where
  agree : s.serves = true → Agree url s.world
  held : o ≠ .nobody → Held url s.world
  round : ∀ p, s.main = .admitting p → ∃ c, Admits s.cfg url c p ∧
    (c = .taken ↔ o = .scheduler) ∧ (c = .chosen → o = .nobody)
  scheduler : o = .scheduler → ∃ p, s.main = .admitting p
  workers : ∀ j ∈ s.workers, Idle url j.program ∨ o = .worker j.id ∧ Owns url j.program
  ids : (s.workers.map (·.id)).Nodup
  fresh : ∀ j ∈ s.workers, j.id < s.count

section
variable {s t : Session} {url : String} {o : Holder} {e : Env}

theorem not_starting_of_serves (h : s.serves = true) (p : Ctl Unit) : s.main ≠ .starting p := by
  intro hp
  simp [serves, hp] at h

theorem not_unserved {P : Prop} (h : s.serves = true) (hs : s.serves = false) : P := by
  rw [h] at hs
  cases hs

theorem serves_of_onward {cfg : Config} (h : t.main.Onward cfg) : t.serves = true := by
  unfold serves
  cases hm : t.main <;> first | rfl | exact (hm ▸ h).elim

theorem Framed.serves_of_worker (h : s.Framed) {j : Worker} (hj : j ∈ s.workers) :
    s.serves = true := by
  cases hs : s.serves with
  | true => rfl
  | false =>
    rw [(h.unserved hs).1] at hj
    cases hj

theorem Framed.serves_of_handler (h : s.Framed) {j : ServedRequest} (hj : j ∈ s.handlers) :
    s.serves = true := by
  cases hs : s.serves with
  | true => rfl
  | false =>
    rw [(h.unserved hs).2] at hj
    cases hj

/-- `run` is in its loop, and no handler is new. -/
theorem Framed.served (h : s.Framed) (hserves : t.serves = true)
    (hasks : ∀ p, t.main = .asking p → ∀ url, p.Uses fun w _ w' => Leaves url w w')
    (hhandlers : ∀ j ∈ t.handlers, j ∈ s.handlers) : t.Framed where
  start p hm := absurd hm (not_starting_of_serves hserves p)
  asks := hasks
  handlers j hj := h.handlers j (hhandlers j hj)
  unserved hs := not_unserved hserves hs

/-- There is no process, or none with workers. -/
theorem framed_of_unserved (hworkers : s.workers = []) (hhandlers : s.handlers = [])
    (hserves : s.serves = false)
    (hstart : ∀ p, s.main = .starting p → ∃ b, p.Phased starts Started b ∧ starts.now b s.world) :
    s.Framed where
  start := hstart
  asks p hm := by simp [serves, hm] at hserves
  handlers j hj := by rw [hhandlers] at hj; cases hj
  unserved _ := ⟨hworkers, hhandlers⟩

theorem Framed.step (h : s.Framed) {move : Move} (hs : s.step move = some t) : t.Framed := by
  have hasks : ∀ {main : Main} {cfg : Config}, main.Onward cfg → ∀ p, main = .asking p → ∀ url,
      p.Uses fun w _ w' => Leaves url w w' := by
    rintro main cfg honward p rfl url
    obtain rfl : p = query (retryWait cfg) := honward
    exact leaves_query _
  cases stepped_of_step hs with
  | boot cfg _ =>
    refine framed_of_unserved rfl rfl rfl fun p hm => ?_
    cases hm
    exact ⟨false, phased_startup, by simp [starts]⟩
  | dropped => exact framed_of_unserved rfl rfl rfl fun p hm => by cases hm
  | starts hmain =>
    obtain ⟨b, hphased, hnow⟩ := h.start _ hmain
    obtain ⟨hworkers, hhandlers⟩ := h.unserved (by rw [serves, hmain])
    refine framed_of_unserved hworkers hhandlers rfl fun p hm => ?_
    cases hm
    obtain ⟨b', ⟨-, hnow'⟩, hk⟩ := hphased s.world _ hnow
    exact ⟨b', hk, hnow'⟩
  | started hmain => exact h.served rfl (fun p hm => by cases hm) fun j hj => hj
  | admits hmain => exact h.served rfl (fun p hm => by cases hm) fun j hj => hj
  | hires hmain => exact h.served rfl (fun p hm => by cases hm) fun j hj => hj
  | asks hmain =>
    refine h.served rfl (fun p hm url => ?_) fun j hj => hj
    cases hm
    exact (h.asks _ hmain url).2 _
  | onward hdb hp hserves hmain =>
    exact h.served (serves_of_onward hmain) (hasks hmain) fun j hj => hp.handlers ▸ hj
  | works hfind =>
    have hserves := h.serves_of_worker (List.mem_of_find?_eq_some hfind)
    exact h.served hserves h.asks fun j hj => hj
  | leaves hmain =>
    refine h.served ?_ (fun p hm => ?_) fun j hj => hj
    · rcases hmain with ⟨-, rfl | rfl⟩ | ⟨-, rfl⟩ <;> rfl
    · rcases hmain with ⟨-, rfl | rfl⟩ | ⟨-, rfl⟩ <;> cases hm
  | joins hserves =>
    refine ⟨h.start, h.asks, fun j hj => ?_, fun hs => not_unserved hserves hs⟩
    rcases List.mem_append.1 hj with hj | hj
    · exact h.handlers j hj
    · obtain rfl := List.mem_singleton.1 hj
      exact fun url => uses_control_serves _ _
  | handles hfind =>
    have hmem := List.mem_of_find?_eq_some hfind
    have hserves := h.serves_of_handler hmem
    refine ⟨fun p hm => absurd hm (not_starting_of_serves hserves p), h.asks, fun j hj => ?_,
      fun hs => not_unserved hserves hs⟩
    obtain ⟨i, hi, rfl⟩ := List.mem_map.1 hj
    split
    · exact fun url => (h.handlers _ hmem url).2 _
    · exact h.handlers i hi
  | aside hdb hp hmain =>
    rcases hmain with hmain | ⟨hserves, hmain⟩
    · refine ⟨fun p hm => ?_, fun p hm => h.asks p (hmain ▸ hm), hp.handlers ▸ h.handlers,
        fun hs => ?_⟩
      · obtain ⟨b, hphased, hnow⟩ := h.start p (hmain ▸ hm)
        exact ⟨b, hphased, fun hb => by rw [hdb.db, hdb.disk, hnow hb]⟩
      · rw [hp.workers, hp.handlers]
        exact h.unserved (by rw [← hs, serves, serves, hmain])
    · have honward : t.main.Onward s.cfg := by
        rw [hmain]
        unfold Main.interrupted
        split <;> trivial
      exact h.served (serves_of_onward honward) (hasks honward) fun j hj => hp.handlers ▸ hj

theorem framed_initial (cfg : Config) (fs : FileTree) : (initial cfg fs).Framed :=
  framed_of_unserved rfl rfl rfl fun p hm => by cases hm

/-- Without a process nobody holds anything. -/
theorem ruled_of_unserved (hworkers : s.workers = []) (hserves : s.serves = false) :
    s.Ruled url .nobody where
  agree h := not_unserved h hserves
  held h := absurd rfl h
  round p hp := by simp [serves, hp] at hserves
  scheduler h := by cases h
  workers j hj := by rw [hworkers] at hj; cases hj
  ids := by rw [hworkers]; exact List.nodup_nil
  fresh j hj := by rw [hworkers] at hj; cases hj

/-- `run` goes on, and what it had taken is let go. -/
theorem Ruled.onward (h : s.Ruled url o) (hdb : SameDb s.world t.world) (hp : s.SameParties t)
    (hserves : s.serves = true) (hmain : t.main.Onward s.cfg) : t.Ruled url o.off := by
  have hrow : Leaves url s.world t.world := .same (by rw [hdb.db]) (by rw [hdb.disk])
  exact
    { agree := fun _ => hrow.agree (h.agree hserves)
      held := fun ho => hrow.holds (h.held (by rintro rfl; exact ho rfl))
      round := fun p hm => by
        obtain rfl : p = admitNext s.cfg := by
          rw [hm] at hmain
          exact hmain
        exact ⟨.away, hp.cfg ▸ admits_admitNext, by cases o <;> simp [Holder.off], by simp⟩
      scheduler := fun ho => by cases o <;> cases ho
      workers := fun j hj => by
        rcases h.workers j (hp.workers ▸ hj) with hidle | ⟨rfl, howns⟩
        · exact .inl hidle
        · exact .inr ⟨rfl, howns⟩
      ids := hp.workers ▸ h.ids
      fresh := fun j hj => hp.count ▸ h.fresh j (hp.workers ▸ hj) }

/-- A step that leaves the row alone, while `run` is at no round. -/
theorem Ruled.kept (h : s.Ruled url o) (hrow : Leaves url s.world t.world) (hp : s.SameParties t)
    (hserves : t.serves = true → s.serves = true)
    (hmain : t.main = s.main ∧ t.cfg = s.cfg ∨ ∀ p, s.main ≠ .admitting p ∧ t.main ≠ .admitting p) :
    t.Ruled url o where
  agree hs := hrow.agree (h.agree (hserves hs))
  held ho := hrow.holds (h.held ho)
  round p hm := by
    rcases hmain with ⟨hmain, hcfg⟩ | hmain
    · exact hcfg ▸ h.round p (hmain ▸ hm)
    · exact absurd hm (hmain p).2
  scheduler ho := by
    obtain ⟨p, hm⟩ := h.scheduler ho
    rcases hmain with ⟨hmain, -⟩ | hmain
    · exact ⟨p, hmain.trans hm⟩
    · exact absurd hm (hmain p).1
  workers := hp.workers ▸ h.workers
  ids := hp.workers ▸ h.ids
  fresh j hj := hp.count ▸ h.fresh j (hp.workers ▸ hj)

/-- **The scheduler takes a step of its round.** -/
theorem Ruled.admits (h : s.Ruled url o) {β : Type} {f : World → Env → β × World}
    {k : β → Ctl (Option Task)} (hmain : s.main = .admitting (.act f k))
    (hguard : s.ClaimsOutlive (.run e)) :
    ∃ o', (s.next .run e (f s.world e).2 (.admitting (k (f s.world e).1))).Ruled url o' := by
  obtain ⟨c, hadmits, htaken, hchosen⟩ := h.round _ hmain
  unfold Admits at hadmits
  have hnow : (choices s.cfg url).now c s.world := by
    have hagree := h.agree (by rw [serves, hmain])
    cases c with
    | taken => exact h.held (by rw [htaken.1 rfl]; simp)
    | away => exact hagree
    | chosen => exact hagree
  obtain ⟨c', ⟨hgo, hnow'⟩, hk⟩ := hadmits s.world e hnow
  -- what the others keep, whoever holds the item now
  have hrest : ∀ o', (o' ≠ .nobody → Held url (f s.world e).2) →
      (c' = .taken ↔ o' = .scheduler) → (c' = .chosen → o' = .nobody) →
      (∀ j ∈ s.workers, Idle url j.program ∨ o' = .worker j.id ∧ Owns url j.program) →
      (s.next .run e (f s.world e).2 (.admitting (k (f s.world e).1))).Ruled url o' := by
    intro o' hheld htaken' hchosen' hworkers
    exact
      { agree := fun _ => by
          cases c' with
          | taken => exact RowIs.agree hnow'
          | away => exact hnow'
          | chosen => exact hnow'
        held := hheld
        round := fun p hm => by
          cases hm
          refine ⟨c', ?_, htaken', hchosen'⟩
          unfold Admits
          exact hk
        scheduler := fun _ => ⟨_, rfl⟩
        workers := hworkers
        ids := h.ids
        fresh := h.fresh }
  have hidle : o = .nobody → ∀ j ∈ s.workers, Idle url j.program := by
    rintro rfl j hj
    rcases h.workers j hj with hidle | ⟨hj, -⟩
    · exact hidle
    · cases hj
  cases c with
  | taken =>
    cases c' with
    | taken => exact ⟨o, hrest o (fun _ => hnow') htaken (by simp) h.workers⟩
    | away => exact hgo.elim
    | chosen => exact hgo.elim
  | chosen =>
    obtain rfl := hchosen rfl
    cases c' with
    | taken =>
      exact ⟨.scheduler, hrest _ (fun _ => hnow') (by simp) (by simp) fun j hj =>
        .inl (hidle rfl j hj)⟩
    | away => exact hgo.elim
    | chosen => exact ⟨.nobody, hrest _ (fun h => absurd rfl h) (by simp) (by simp) h.workers⟩
  | away =>
    cases c' with
    | taken =>
      -- a recheck that is due finds no worker at its item
      obtain ⟨r, hr, rfl⟩ := hgo
      exact ⟨.scheduler, hrest _ (fun _ => hnow') (by simp) (by simp) fun j hj =>
        .inl (hguard _ hmain r hr j hj)⟩
    | away =>
      exact ⟨o, hrest o (fun ho => Leaves.holds hgo (h.held ho)) (by simpa using htaken) (by simp)
        h.workers⟩
    | chosen =>
      -- nobody holds what `next_pending` hands out
      obtain rfl : o = .nobody := by
        by_contra ho
        obtain ⟨⟨r, hr, hurl⟩, -⟩ := hgo
        exact not_held_of_nextPending hr hurl (h.held ho)
      exact ⟨.nobody, hrest _ (fun h => absurd rfl h) (by simp) (by simp) h.workers⟩

/-- **The scheduler hires a worker**, who holds the item if it is the one that was taken. -/
theorem Ruled.hires (h : s.Ruled url o) {task : Task}
    (hmain : s.main = .admitting (.ret (some task))) : ∃ o', (s.hired task).Ruled url o' := by
  obtain ⟨c, hadmits, htaken, hchosen⟩ := h.round _ hmain
  unfold Admits at hadmits
  have hids : ((s.hired task).workers.map (·.id)).Nodup := by
    have hnew : s.count ∉ s.workers.map (·.id) := fun hmem => by
      obtain ⟨j, hj, hid⟩ := List.mem_map.1 hmem
      exact absurd (h.fresh j hj) (by omega)
    rw [hired, List.map_append, List.nodup_append]
    refine ⟨h.ids, List.nodup_singleton _, fun a ha b hb => ?_⟩
    obtain rfl : b = s.count := List.mem_singleton.1 hb
    rintro rfl
    exact hnew ha
  have hrest : ∀ o', (o' ≠ .nobody → Held url s.world) → o' ≠ .scheduler →
      (∀ j ∈ s.workers, Idle url j.program ∨ o' = .worker j.id ∧ Owns url j.program) →
      (Idle url (task.program s.cfg) ∨ o' = .worker s.count ∧ Owns url (task.program s.cfg)) →
      (s.hired task).Ruled url o' := by
    intro o' hheld hscheduler hworkers hnew
    exact
      { agree := fun _ => h.agree (by rw [serves, hmain])
        held := hheld
        round := fun p hm => by cases hm
        scheduler := fun ho => absurd ho hscheduler
        workers := fun j hj => by
          rcases List.mem_append.1 hj with hj | hj
          · exact hworkers j hj
          · obtain rfl := List.mem_singleton.1 hj
            exact hnew
        ids := hids
        fresh := fun j hj => by
          rcases List.mem_append.1 hj with hj | hj
          · exact Nat.lt_succ_of_lt (h.fresh j hj)
          · obtain rfl := List.mem_singleton.1 hj
            exact Nat.lt_succ_self _ }
  cases c with
  | taken =>
    obtain rfl := htaken.1 rfl
    refine ⟨.worker s.count, hrest _ (fun _ => h.held (by simp)) (by simp) (fun j hj => ?_)
      (.inr ⟨rfl, owns_task task⟩)⟩
    rcases h.workers j hj with hidle | ⟨hj, -⟩
    · exact .inl hidle
    · cases hj
  | away =>
    have hother : task.row.url ≠ url := hadmits
    exact ⟨o, hrest o h.held (fun ho => by simpa using htaken.2 ho) h.workers
      (.inl (idle_of_uses (leaves_task hother)))⟩
  | chosen => exact hadmits.elim

/-- **A worker takes a step**, with which it may let go of its item. -/
theorem Ruled.works (h : s.Ruled url o) (hserves : s.serves = true) {id : ℕ} {β : Type}
    {f : World → Env → β × World} {k : β → Ctl String}
    (hfind : s.workers.find? (·.id = id) = some ⟨id, .act f k⟩) :
    ∃ o', Ruled url { s.next .worker e (f s.world e).2 s.main with
      workers := s.workers.map fun j => if j.id = id then ⟨id, k (f s.world e).1⟩ else j } o' := by
  have hmem := List.mem_of_find?_eq_some hfind
  have hids : (s.workers.map fun j => if j.id = id then ⟨id, k (f s.world e).1⟩ else j).map
      (·.id) = s.workers.map (·.id) := by
    rw [List.map_map]
    refine List.map_congr_left fun j _ => ?_
    dsimp only [Function.comp]
    split
    · next hj => exact hj.symm
    · rfl
  have hrest : ∀ o', o' = o ∨ (∃ i, o = .worker i) ∧ o' = .nobody →
      Agree url (f s.world e).2 → (o' ≠ .nobody → Held url (f s.world e).2) →
      (∀ j ∈ s.workers, j.id ≠ id → Idle url j.program ∨ o' = .worker j.id ∧ Owns url j.program) →
      (Idle url (k (f s.world e).1) ∨ o' = .worker id ∧ Owns url (k (f s.world e).1)) →
      Ruled url { s.next .worker e (f s.world e).2 s.main with
        workers := s.workers.map fun j => if j.id = id then ⟨id, k (f s.world e).1⟩ else j } o' := by
    intro o' ho hagree hheld hothers hthis
    exact
      { agree := fun _ => hagree
        held := hheld
        round := fun p hm => by
          obtain ⟨c, hadmits, htaken, hchosen⟩ := h.round p hm
          refine ⟨c, hadmits, ?_⟩
          rcases ho with rfl | ⟨⟨i, rfl⟩, rfl⟩
          · exact ⟨htaken, hchosen⟩
          · exact ⟨htaken.trans (by simp), fun _ => rfl⟩
        scheduler := fun hs => by
          rcases ho with rfl | ⟨-, rfl⟩
          · exact h.scheduler hs
          · cases hs
        workers := fun j hj => by
          obtain ⟨i, hi, rfl⟩ := List.mem_map.1 hj
          split
          · exact hthis
          · next hne => exact hothers i hi hne
        ids := hids ▸ h.ids
        fresh := fun j hj => by
          obtain ⟨i, hi, rfl⟩ := List.mem_map.1 hj
          have hcount := h.fresh i hi
          split
          · next hid => exact hid ▸ hcount
          · exact hcount }
  rcases h.workers _ hmem with hidle | ⟨rfl, howns⟩
  · obtain ⟨hrow, hidle'⟩ := hidle s.world e
    exact ⟨o, hrest o (.inl rfl) (hrow.agree (h.agree hserves)) (fun ho => hrow.holds (h.held ho))
      (fun j hj _ => h.workers j hj) (.inl hidle')⟩
  · unfold Owns at howns
    obtain ⟨g, ⟨hgo, hnow⟩, hk⟩ := howns s.world e (h.held (by simp))
    cases g with
    | held =>
      refine ⟨_, hrest _ (.inl rfl) (RowIs.agree hnow) (fun _ => hnow)
        (fun j hj _ => h.workers j hj) (.inr ⟨rfl, ?_⟩)⟩
      unfold Owns
      exact hk
    | free =>
      refine ⟨.nobody, hrest _ (.inr ⟨⟨id, rfl⟩, rfl⟩) hgo (fun h => absurd rfl h)
        (fun j hj hne => ?_) (.inl (idle_of_phased hk))⟩
      rcases h.workers j hj with hidle | ⟨hj', -⟩
      · exact .inl hidle
      · cases hj'
        exact absurd rfl hne

/-- **A handler takes a step.** -/
theorem Ruled.handles (h : s.Ruled url o) (hserves : s.serves = true) {w : World}
    (hstep : Serves url s.world w) {handlers : List ServedRequest} :
    Ruled url { s.next .handler e w s.main with handlers } o where
  agree _ := hstep.agree (h.agree hserves)
  held ho := hstep.held (h.held ho)
  round := h.round
  scheduler := h.scheduler
  workers := h.workers
  ids := h.ids
  fresh := h.fresh

/-- Workers that are done leave the pool. -/
theorem Ruled.fewer (h : s.Ruled url o) {workers : List Worker} (hw : workers.Sublist s.workers) :
    Ruled url { s with workers } o where
  agree := h.agree
  held := h.held
  round := h.round
  scheduler := h.scheduler
  workers j hj := h.workers j (hw.subset hj)
  ids := h.ids.sublist (hw.map _)
  fresh j hj := h.fresh j (hw.subset hj)

/-- **Every step of a session** leaves at most one writer of the item. -/
theorem Ruled.step (hf : s.Framed) (h : s.Ruled url o) {move : Move} (hg : s.ClaimsOutlive move)
    (hs : s.step move = some t) : ∃ o, t.Ruled url o := by
  cases stepped_of_step hs with
  | boot cfg _ => exact ⟨.nobody, ruled_of_unserved rfl rfl⟩
  | dropped => exact ⟨.nobody, ruled_of_unserved rfl rfl⟩
  | starts hmain =>
    exact ⟨.nobody, ruled_of_unserved (hf.unserved (by rw [serves, hmain])).1 rfl⟩
  | started hmain =>
    -- the start has committed what it did
    obtain ⟨b, hphased, hnow⟩ := hf.start _ hmain
    have hcommitted : s.world.disk = s.world.db := hnow (hphased rfl)
    have hworkers := (hf.unserved (by rw [serves, hmain])).1
    exact ⟨.nobody,
      { agree := fun _ => by rw [Agree, moved, hcommitted]
        held := fun ho => absurd rfl ho
        round := fun p hm => by cases hm
        scheduler := fun ho => by cases ho
        workers := fun j hj => by rw [moved, hworkers] at hj; cases hj
        ids := h.ids
        fresh := h.fresh }⟩
  | admits hmain => exact h.admits hmain hg
  | hires hmain => exact h.hires hmain
  | asks hmain =>
    refine ⟨o, h.kept ((hf.asks _ hmain url).1 s.world _) ⟨rfl, rfl, rfl, rfl⟩
      (fun _ => by rw [serves, hmain]) (.inr fun p => ⟨?_, ?_⟩)⟩
    · rw [hmain]
      simp
    · simp [next]
  | onward hdb hp hserves hmain => exact ⟨_, h.onward hdb hp hserves hmain⟩
  | works hfind => exact h.works (hf.serves_of_worker (List.mem_of_find?_eq_some hfind)) hfind
  | @leaves id main hmain =>
    have hserves : s.serves = true := by rcases hmain with ⟨hm, -⟩ | ⟨hm, -⟩ <;> rw [serves, hm]
    have hfewer : Ruled url { s with workers := s.workers.filter fun j => j.id ≠ id } o :=
      h.fewer List.filter_sublist
    refine ⟨_, hfewer.onward ⟨rfl, rfl⟩ ⟨rfl, rfl, rfl, rfl⟩ hserves ?_⟩
    rcases hmain with ⟨-, rfl | rfl⟩ | ⟨-, rfl⟩ <;> trivial
  | joins hserves =>
    exact ⟨o, ⟨h.agree, h.held, h.round, h.scheduler, h.workers, h.ids,
      fun j hj => Nat.lt_succ_of_lt (h.fresh j hj)⟩⟩
  | handles hfind =>
    have hmem := List.mem_of_find?_eq_some hfind
    exact ⟨o, h.handles (hf.serves_of_handler hmem) ((hf.handlers _ hmem url).1 s.world _)⟩
  | aside hdb hp hmain =>
    rcases hmain with hmain | ⟨hserves, hmain⟩
    · exact ⟨o, h.kept (.same (by rw [hdb.db]) (by rw [hdb.disk])) hp
        (fun hs => by rw [← hs, serves, serves, hmain]) (.inl ⟨hmain, hp.cfg⟩)⟩
    · refine ⟨_, h.onward hdb hp hserves ?_⟩
      rw [hmain]
      unfold Main.interrupted
      split <;> trivial

/-- **A whole run.** -/
theorem ruled_of_run {cfg : Config} {fs : FileTree}
    (hrun : GRun Session.step ClaimsOutlive (initial cfg fs) s) (url : String) :
    ∃ o, s.Ruled url o := by
  have hinv : s.Framed ∧ ∃ o, s.Ruled url o := by
    refine hrun.invariant (fun s => s.Framed ∧ ∃ o, s.Ruled url o)
      ⟨framed_initial cfg fs, .nobody, ruled_of_unserved rfl rfl⟩ ?_
    rintro s move t ⟨hf, o, h⟩ hg hs
    exact ⟨hf.step hs, h.step hf hg hs⟩
  exact hinv.2

end

end Session

/-- **One writer for an item.**  Whatever sessions run on the state directory, however their
    workers, handlers and operators interleave and wherever they are killed: as long as the
    claims of rechecks outlive their workers, of any two workers of the pool at least one does
    not write the row of an item any more, and an item with a worker that does is held. -/
theorem one_writer {cfg : Config} {fs : FileTree} {s : Session}
    (hrun : GRun Session.step Session.ClaimsOutlive (Session.initial cfg fs) s) (url : String) :
    (∀ i ∈ s.workers, ∀ j ∈ s.workers, i ≠ j → Idle url i.program ∨ Idle url j.program) ∧
      ∀ i ∈ s.workers, ¬ Idle url i.program → Held url s.world := by
  obtain ⟨o, h⟩ := Session.ruled_of_run hrun url
  refine ⟨fun i hi j hj hij => ?_, fun i hi hbusy => ?_⟩
  · rcases h.workers i hi with hidle | ⟨hown, -⟩
    · exact .inl hidle
    · rcases h.workers j hj with hidle | ⟨hown', -⟩
      · exact .inr hidle
      · refine absurd (List.inj_on_of_nodup_map h.ids hi hj ?_) hij
        rw [hown] at hown'
        exact Holder.worker.inj hown'
  · rcases h.workers i hi with hidle | ⟨hown, -⟩
    · exact absurd hidle hbusy
    · exact h.held (by rw [hown]; simp)

/-- No recheck is due at any step. -/
def Session.NoneDue (s : Session) : Move → Prop
  | .run e => nextRecheck s.world.db s.cfg.runId e.time = none
  | _ => True

instance (s : Session) : (move : Move) → Decidable (s.NoneDue move)
  | .run _ => @decidable_of_iff _ _ Option.isNone_iff_eq_none (instDecidableEqBool _ _)
  | .boot _ | .crash | .worker .. | .collect _ | .request .. | .handler .. | .signal _
  | .projection .. | .outside .. => isTrue trivial

theorem Session.NoneDue.outlive {s : Session} {move : Move} (h : s.NoneDue move) :
    s.ClaimsOutlive move := by
  cases move with
  | run e =>
    intro p hm r hr
    rw [show nextRecheck s.world.db s.cfg.runId e.time = none from h] at hr
    cases hr
  | _ => trivial

/-- A queue of two entries, for two workers. -/
def twoEntries : Config := { oneHour with
  workers := 2
  queue := ⟨[{ url := "https://host/set/first.bin", rel := ["set", "first.bin"] },
    { url := "https://host/set/second.bin", rel := ["set", "second.bin"] }], by decide⟩ }

/-- Each of the two entries is handed to a worker. -/
def atWork : Session :=
  (Lib.exec Session.step Session.NoneDue (Session.initial twoEntries emptyWorld.fs)
    (.boot twoEntries :: List.replicate 44 (.run (atTime 0)))).get (by decide +kernel)

theorem one_writer_atWork : atWork.workers.length = 2 ∧
    (∀ i ∈ atWork.workers, ∀ j ∈ atWork.workers, i ≠ j →
      Idle "https://host/set/first.bin" i.program ∨ Idle "https://host/set/first.bin" j.program) ∧
    ∀ i ∈ atWork.workers, ¬ Idle "https://host/set/first.bin" i.program →
      Held "https://host/set/first.bin" atWork.world := by
  refine ⟨by decide +kernel, ?_⟩
  exact @one_writer twoEntries emptyWorld.fs atWork
    ((Lib.GRun.of_exec (Option.some_get _).symm).mono fun _ _ h => h.outlive)
    "https://host/set/first.bin"

end TodDl.Controller
