/-
  The controller — what a safe-path remediation leaves behind (tod-dl.py,
  `remediate_safe_paths`).

  A remediation checks the staged file, commits its intent, links the file to its final
  name and completes the item.  `Stranded` is a final whose link is there while a call after
  it failed.

  `remediated_iff`: an item ends complete with its event or in review without a new file,
  exactly when its remediation strands no final.
-/
import TodDl.Controller.Selection
import TodDl.Controller.Validators
import TodDl.Lib.Answers

namespace TodDl.Controller

open Lib (Errno FileTree Node Path Prog)
open Provenance (PyVal Writer)
open Store (Db Row Status Update itemId)

/-! ## Files that appear -/

/-- Every file of the tree was there before. -/
def NoNewFile (t t' : FileTree) : Prop :=
  ∀ p inode, t'.node p = some (.file inode) → t.node p = some (.file inode)

theorem NoNewFile.refl (t : FileTree) : NoNewFile t t := fun _ _ h => h

theorem NoNewFile.trans {t t' t'' : FileTree} (h : NoNewFile t t') (h' : NoNewFile t' t'') :
    NoNewFile t t'' := fun p inode hp => h p inode (h' p inode hp)

theorem noNewFile_mkdir {t t' : FileTree} {p : Path} (h : t.mkdir p = .ok t') : NoNewFile t t' := by
  obtain ⟨q, -, -, rfl⟩ := FileTree.create_eq_ok h
  intro r inode hr
  by_cases hq : r = q
  · subst hq
    simp [FileTree.put] at hr
  · simpa [FileTree.put, Function.update_of_ne hq] using hr

/-- The step adds directories, and nothing else happens. -/
def AddsDirs (w w' : World) : Prop :=
  ∃ fs, w' = { w with fs } ∧ NoNewFile w.fs fs ∧ FileTree.Extends w.fs fs

section
variable {w w' w'' : World} {cfg : Config}

theorem AddsDirs.refl (w : World) : AddsDirs w w := ⟨w.fs, rfl, .refl _, .refl _⟩

theorem AddsDirs.trans (h : AddsDirs w w') (h' : AddsDirs w' w'') : AddsDirs w w'' := by
  obtain ⟨fs, rfl, hfs, hext⟩ := h
  obtain ⟨fs', rfl, hfs', hext'⟩ := h'
  exact ⟨fs', rfl, hfs.trans hfs', hext.trans hext'⟩

theorem addsDirs_osLook {β : Type} (f : FileTree → Except Errno β) :
    (osLook f).Uses fun w _ w' => AddsDirs w w' := by
  refine Prog.uses_call fun w e => ?_
  dsimp only
  split
  · exact .refl w
  · cases f w.fs <;> exact .refl w

theorem addsDirs_mkdir (p : Path) :
    (osChange fun fs => fs.mkdir p).Uses fun w _ w' => AddsDirs w w' := by
  refine Prog.uses_call fun w e => ?_
  dsimp only
  split
  · exact .refl w
  · cases h : w.fs.mkdir p with
    | error errno => exact .refl w
    | ok fs => exact ⟨fs, rfl, noNewFile_mkdir h, FileTree.mkdir_extends h⟩

theorem addsDirs_ensureSafeParent (target : Path) :
    (ensureSafeParent cfg target).Uses fun w _ w' => AddsDirs w w' := by
  have hcheck : ∀ f : FileTree → Bool, (osCheck f).Uses fun w (_ : Env) w' => AddsDirs w w' :=
    fun f => Prog.uses_look _ fun w _ => .refl w
  unfold ensureSafeParent
  split
  · trivial
  · refine (addsDirs_osLook _).bind fun linked => ?_
    split
    · trivial
    · refine Prog.uses_forEach fun current _ => ?_
      refine (Prog.Uses.attempt (addsDirs_osLook _)).bind fun seen => ?_
      split
      · exact addsDirs_mkdir current
      · refine (hcheck _).bind fun linked => ?_
        split
        · trivial
        · refine (hcheck _).bind fun dir => ?_
          split <;> trivial

/-- The checks make the parents of the final, and no file. -/
theorem addsDirs_remediationChecks (row : Row) :
    (remediationChecks cfg row).Uses fun w _ w' => AddsDirs w w' := by
  unfold remediationChecks
  dsimp only
  split
  · trivial
  · refine (addsDirs_osLook _).bind fun regular => ?_
    split
    · trivial
    · split
      · trivial
      · refine (addsDirs_osLook _).bind fun digest => ?_
        split
        · trivial
        · refine Prog.Uses.bind ?_ fun mapped => (addsDirs_ensureSafeParent _).bind fun _ =>
            (addsDirs_osLook _).bind fun _ => trivial
          unfold safeRemediationTarget
          dsimp only
          split <;> trivial

/-! ## What the checks raise -/

/-- The exceptions that `remediate_safe_paths` catches around its checks. -/
def Caught (x : Exc) : Prop := x.isOsOrRuntime = true

theorem raises_osCall {β : Type} (f : FileTree → Except Errno (β × FileTree)) :
    (osCall f).Raises Caught := by
  refine Prog.raises_call fun w e x h => ?_
  split at h
  · obtain rfl := Except.error.inj h
    rfl
  · split at h
    · obtain rfl := Except.error.inj h
      rfl
    · cases h

theorem raises_osLook {β : Type} (f : FileTree → Except Errno β) : (osLook f).Raises Caught :=
  raises_osCall _

theorem raises_osCheck (f : FileTree → Bool) : (osCheck f).Raises Caught := Prog.raises_look _

theorem raises_ensureSafeParent {stored : List String} :
    (ensureSafeParent cfg (cfg.destination ++ stored)).Raises Caught := by
  have hbelow : relativeTo (cfg.destination ++ stored) cfg.destination = some stored := by
    rw [relativeTo, if_pos (List.isPrefixOf_iff_prefix.2 (List.prefix_append _ _)),
      List.drop_left]
  unfold ensureSafeParent
  rw [hbelow]
  refine (raises_osLook _).bind fun linked => ?_
  split
  · exact Prog.raises_raise rfl
  · refine Prog.raises_forEach fun current _ => ?_
    refine (Prog.Raises.attempt (raises_osLook _)).bind fun seen => ?_
    split
    · exact raises_osCall _
    · refine (raises_osCheck _).bind fun linked => ?_
      split
      · exact Prog.raises_raise rfl
      · refine (raises_osCheck _).bind fun dir => ?_
        split
        · exact Prog.raises_raise rfl
        · exact Prog.raises_ret _

/-- Whatever goes wrong in the checks is caught. -/
theorem raises_remediationChecks (row : Row) : (remediationChecks cfg row).Raises Caught := by
  unfold remediationChecks
  dsimp only
  split
  · exact Prog.raises_raise rfl
  · refine (raises_osLook _).bind fun regular => ?_
    split
    · exact Prog.raises_raise rfl
    · split
      · exact Prog.raises_raise rfl
      · refine (raises_osLook _).bind fun digest => ?_
        split
        · exact Prog.raises_raise rfl
        · unfold safeRemediationTarget
          dsimp only
          split
          · exact Prog.raises_raise rfl
          · exact raises_ensureSafeParent.bind fun _ =>
              (raises_osLook _).bind fun _ => Prog.raises_ret _

end

/-! ## What the checks find -/

section
variable {w w' : World} {cfg : Config} {row : Row} {A : Env → Prop}

theorem AddsDirs.ends {α : Type} {p : Ctl α} {x : Except Exc α}
    (hp : p.Uses fun w _ w' => AddsDirs w w') (h : p.Ends A w x w') : AddsDirs w w' :=
  (hp.mono fun _ _ _ hs (hI : AddsDirs w _) => hI.trans hs).ends (.refl w) h

theorem isRegular_extends {t t' : FileTree} {p : Path} (h : FileTree.Extends t t')
    (hr : t.isRegular p = true) : t'.isRegular p = true := by
  obtain ⟨q, inode, hl, hn⟩ := FileTree.isRegular_iff.1 hr
  exact FileTree.isRegular_iff.2 ⟨q, inode, locate_extends h hl, h.nodeAt hn⟩

/-- The storage name of a remediated row. -/
def finalName (cfg : Config) (row : Row) : List String :=
  cfg.storageRelative (Lib.Posix.components row.relativePath)

/-- The checks pass for a regular staged file, with the name of its final. -/
theorem ends_remediationChecks_ok {mapped : List String × Path}
    (h : (remediationChecks cfg row).Ends A w (.ok mapped) w') :
    AddsDirs w w' ∧ w'.fs.isRegular (cfg.stagingPath row.url) = true ∧
      mapped = (finalName cfg row, cfg.destination ++ finalName cfg row) := by
  refine ⟨.ends (addsDirs_remediationChecks row) h, ?_⟩
  unfold remediationChecks at h
  dsimp only at h
  split at h
  · cases h.1
  · obtain ⟨regular, w₁, hlook, h₁⟩ | ⟨_, hx, -⟩ := Prog.ends_bind.1 h
    swap
    · cases hx
    obtain ⟨hregular, rfl⟩ := ends_osLook_ok hlook
    split at h₁
    · cases h₁.1
    · next hreg =>
      have hstaged : w₁.fs.isRegular (cfg.stagingPath row.url) = true := by
        unfold FileTree.isRegular
        cases hl : w₁.fs.lstat (cfg.stagingPath row.url) with
        | error errno => rw [hl] at hregular; cases hregular
        | ok n =>
          rw [hl] at hregular
          obtain rfl := Except.ok.inj hregular
          cases n <;> simp at hreg ⊢
      split at h₁
      · cases h₁.1
      · obtain ⟨digest, w₂, hlook, h₂⟩ | ⟨_, hx, -⟩ := Prog.ends_bind.1 h₁
        swap
        · cases hx
        obtain ⟨-, rfl⟩ := ends_osLook_ok hlook
        split at h₂
        · cases h₂.1
        · obtain ⟨found, w₃, hmap, h₃⟩ | ⟨_, hx, -⟩ := Prog.ends_bind.1 h₂
          swap
          · cases hx
          simp only [safeRemediationTarget] at hmap
          split at hmap
          · cases hmap.1
          · obtain ⟨hfound, rfl⟩ := hmap
            obtain rfl := Except.ok.inj hfound
            obtain ⟨_, w₄, hparent, h₄⟩ | ⟨_, hx, -⟩ := Prog.ends_bind.1 h₃
            swap
            · cases hx
            obtain ⟨fs, rfl, -, hext⟩ := AddsDirs.ends (addsDirs_ensureSafeParent _) hparent
            obtain ⟨_, w₅, hflush, h₅⟩ | ⟨_, hx, -⟩ := Prog.ends_bind.1 h₄
            swap
            · cases hx
            obtain ⟨-, rfl⟩ := ends_osLook_ok hflush
            obtain ⟨hx, rfl⟩ := h₅
            exact ⟨isRegular_extends hext hstaged, Except.ok.inj hx⟩

end

/-! ## The finalized event -/

/-- The finalized event of a remediated row. -/
structure IsFinalEvent (row : Row) (stored : List String) (event : PyVal) : Prop where
  type : event.get "event_type" = .str "finalized"
  item : event.get "item_id" = .str (itemId row.url)
  path : event.get "final_relative_path" = .str (Lib.Posix.asPosix stored)

/-- An event that is written is the last one of the writer. -/
theorem event_eq_ok {w w' : Writer} {eventType : String} {fields : List (String × PyVal)}
    {io : Provenance.EventIo} {event : PyVal}
    (h : w.event eventType fields io = (.ok event, w')) :
    w'.events = w.events ++ [event] ∧
      ∃ d, event = Writer.sealed (w.recordItems eventType fields io) d := by
  unfold Writer.event at h
  split at h
  · cases h
  · split at h
    · cases h
    · unfold Writer.append at h
      dsimp only at h
      split at h
      · cases h
      · next d hd =>
        split at h
        · cases h
        · split at h
          · split at h
            · cases h
            · obtain ⟨he, rfl⟩ := Prod.mk.inj h
              obtain rfl := Except.ok.inj he
              exact ⟨rfl, d, rfl⟩
          · cases h

/-- A field of a record, if it is not the digest. -/
theorem get_sealed {w : Writer} {eventType name d : String} {fields : List (String × PyVal)}
    {io : Provenance.EventIo} (hname : name ≠ "event_digest") :
    (Writer.sealed (w.recordItems eventType fields io) d).get name =
      ((Provenance.lookup name (Provenance.update [] fields)).or
        (Provenance.lookup name (w.recordItems eventType [] io))).getD .null := by
  have hkey : Provenance.Key.str "event_digest" ≠ .str name := by simpa using hname.symm
  rw [PyVal.get, Writer.sealed, PyVal.items, Provenance.lookup_insert_ne _ _ hkey,
    Writer.recordItems, Provenance.lookup_update]
  rfl

section
variable {row : Row} {w w' : World} {es es' : Stream' Env} {logical : PyVal} {stored : List String}
  {byteCount : ℕ} {sha256 : String} {expected : Option String} {compared : Bool} {u : Unit}

theorem lookup_finalizedFields (url : String) (logical stored : PyVal) (byteCount : ℕ)
    (sha256 : String) (expected : Option String) (compared confirmed : Bool)
    (response : Option Response) (etag lastModified : Option String) (e : Env) :
    Provenance.lookup "event_type" (Provenance.update [] (finalizedFields url logical stored
        byteCount sha256 expected compared confirmed response etag lastModified e)) = none ∧
      Provenance.lookup "item_id" (Provenance.update [] (finalizedFields url logical stored
        byteCount sha256 expected compared confirmed response etag lastModified e)) =
          some (.str (itemId url)) := by
  simp only [finalizedFields, Provenance.update, List.foldl_cons, List.foldl_nil]
  constructor
  · repeat rw [Provenance.lookup_insert_ne _ _ (by decide)]
    rfl
  · repeat rw [Provenance.lookup_insert_ne _ _ (by decide)]
    exact Provenance.lookup_insert_self ..

/-- With open records an event that is accepted is written. -/
theorem feed_finalizedEvent_ok (hr : w.records.isSome = true)
    (h : (finalizedEvent row.url logical (.str (Lib.Posix.asPosix stored)) byteCount sha256 expected
      compared).feed w es = (.ok u, w', es')) :
    ∃ writer writer' event, w.records = some writer ∧ w'.records = some writer' ∧
      writer'.events = writer.events ++ [event] ∧ IsFinalEvent row stored event := by
  obtain ⟨writer, hwriter⟩ := Option.isSome_iff_exists.1 hr
  have hend := (Prog.ends_of_feed (A := fun _ => True) (fun _ => trivial) h).1
  obtain ⟨⟨response, confirmed⟩, w₁, ⟨e₁, -, -, hw₁⟩, hrest⟩ | ⟨_, hx, -⟩ := Prog.ends_bind.1 hend
  swap
  · cases hx
  have hwriter₁ : w₁.records = some writer := by rw [hw₁]; exact hwriter
  obtain ⟨found, w₂, hlook, hevent⟩ | ⟨_, hx, -⟩ := Prog.ends_bind.1 hrest
  swap
  · cases hx
  obtain ⟨e₂, -, -, rfl⟩ := ends_dbLook_ok hlook
  obtain ⟨e, -, hcall⟩ := Prog.ends_call.1 hevent
  rw [hwriter₁] at hcall
  dsimp only at hcall
  split at hcall
  · next event writer' hok =>
    obtain ⟨-, rfl⟩ := Prod.mk.inj hcall
    obtain ⟨hevents, d, rfl⟩ := event_eq_ok hok
    obtain ⟨htype, hitem⟩ := lookup_finalizedFields row.url logical
      (.str (Lib.Posix.asPosix stored)) byteCount sha256 expected compared confirmed response
      (found.bind (·.etag))
      (found.bind (·.lastModified)) e
    refine ⟨writer, writer', _, hwriter, rfl, hevents, ?_, ?_, ?_⟩
    · rw [get_sealed (by decide), htype]
      rfl
    · rw [get_sealed (by decide), hitem]
      rfl
    · rw [get_sealed (by decide), finalRelativePath_finalizedFields]
      rfl
  · cases hcall
  · cases hcall

end

/-! ## The parts of a remediation -/

section
variable (cfg : Config) (row : Row)

/-- What follows when the checks failed. -/
def remediationRefused (exc : Exc) : Ctl Unit :=
  transition cfg row.url .reviewRequired (some exc.text) fun _ =>
    [.lastError (some exc.text), .remediationReason (some "automatic safe-path remediation"),
     .remediationMappingVersion (some safePathMappingVersion),
     .remediationOutcome (some "manual_error")]

/-- The intent of a remediation whose checks passed. -/
def remediationIntent (stored : List String) (target : Path) : Ctl Unit :=
  transition cfg row.url .promoting (some "automatic safe-path remediation intent") fun e =>
    [.storagePath (some (Lib.Posix.asPosix stored)), .promotionTarget (some (pathText target)),
     .promotionIntentAt (some e.text), .remediationReason (some "automatic safe-path remediation"),
     .remediationMappingVersion (some safePathMappingVersion), .reviewCode (some "ENAMETOOLONG"),
     .remediationStartedAt (some e.text)]

/-- A remediation up to `os.link`. -/
def linkFinal : Ctl (List String × Path) := do
  let (stored, target) ← remediationChecks cfg row
  remediationIntent cfg row stored target
  osLink (cfg.stagingPath row.url) target
  return (stored, target)

/-- What follows when the link or the flush of its directory failed. -/
def remediationFailed : Exc → Ctl Unit
  | .os .eexist _ =>
    transition cfg row.url .reviewRequired (some "mapped destination already exists") fun _ =>
      [.lastError (some "mapped destination already exists"),
       .remediationOutcome (some "manual_collision")]
  | exc =>
    transition cfg row.url .reviewRequired (some exc.text) fun _ =>
      [.lastError (some exc.text), .remediationOutcome (some "manual_error")]

/-- A remediation after its checks. -/
def remediateChecked (stored : List String) (target : Path) : Ctl Unit := do
  remediationIntent cfg row stored target
  match ← Prog.attempt Exc.isOs (do
    osLink (cfg.stagingPath row.url) target
    flush target.dropLast) with
  | .error exc => remediationFailed cfg row exc
  | .ok () => completeRemediation cfg row (cfg.stagingPath row.url) stored target

theorem remediateSafePath_eq : remediateSafePath cfg row =
    (Prog.attempt Exc.isOsOrRuntime (remediationChecks cfg row)).bind fun checked =>
      match checked with
      | .error exc => remediationRefused cfg row exc
      | .ok (stored, target) => remediateChecked cfg row stored target := by
  unfold remediateSafePath
  refine congrArg (Prog.bind _) (funext fun checked => ?_)
  cases checked with
  | error exc => rfl
  | ok mapped =>
    obtain ⟨stored, target⟩ := mapped
    refine congrArg (Prog.bind _) (funext fun _ => congrArg (Prog.bind _) (funext fun linked => ?_))
    cases linked with
    | ok u => rfl
    | error exc =>
      cases exc with
      | os errno text => cases errno <;> rfl
      | _ => rfl

end

/-! ## The steps on a stream of answers -/

/-- No statement fails. -/
def DbAnswers (es : Stream' Env) : Prop := ∀ n, (es n).sqlFault = none

section
variable {cfg : Config} {row : Row} {w w' w₁ : World} {es es' es₁ : Stream' Env}

theorem DbAnswers.tail (h : DbAnswers es) : DbAnswers es.tail := fun n => h (n + 1)

/-- The item of a URL has a status. -/
def HasStatus (w : World) (url : String) (status : Status) : Prop :=
  (w.db.downloads.find? url).map (·.status) = some status

theorem hasStatus_moved {old : Row} {status : Status} {detail : Option String} {fields : Update}
    {text url : String} (hold : w.db.downloads.find? url = some old) (hf : fields.KeepsStatus) :
    HasStatus (w.moved cfg old status detail fields text) url status := by
  obtain rfl := Lib.Table.find?_key hold
  unfold HasStatus
  rw [World.moved, Db.find?_transitioned, hold, Option.map_some, if_pos rfl, Option.map_some]
  exact congrArg some (Row.status_set hf _)

/-- A transition of a known item. -/
theorem feed_transition {url : String} {old : Row} {status : Status} {detail : Option String}
    {fields : Env → Update} (hdb : es.head.sqlFault = none)
    (hold : w.db.downloads.find? url = some old) :
    (transition cfg url status detail fields).feed w es =
      (.ok (), w.moved cfg old status detail (fields es.head) es.head.text, es.tail) := by
  refine Prog.feed_handle_ok ?_
  unfold dbCommit
  rw [Prog.feed_call, hdb]
  simp only [Db.transition, hold, Option.map_some]
  rfl

/-- A transition of a known item ends with its status. -/
theorem feed_transition_status {url : String} {status : Status} {detail : Option String}
    {fields : Env → Update} (hdb : DbAnswers es) (hf : ∀ e, (fields e).KeepsStatus)
    (hrow : (w.db.downloads.find? url).isSome = true) :
    ∃ w', (transition cfg url status detail fields).feed w es = (.ok (), w', es.tail) ∧
      HasStatus w' url status ∧ w'.fs = w.fs ∧ w'.records = w.records := by
  obtain ⟨old, hold⟩ := Option.isSome_iff_exists.1 hrow
  exact ⟨_, feed_transition (hdb 0) hold, hasStatus_moved hold (hf _), rfl, rfl⟩

theorem HasStatus.isSome {url : String} {status : Status} (h : HasStatus w url status) :
    (w.db.downloads.find? url).isSome = true := by
  unfold HasStatus at h
  cases hfind : w.db.downloads.find? url with
  | none => rw [hfind] at h; cases h
  | some r => rfl

theorem HasStatus.unique {url : String} {s s' : Status} (h : HasStatus w url s)
    (h' : HasStatus w url s') : s = s' := Option.some.inj (h.symm.trans h')

/-- A call that cannot fail by itself fails exactly by a fault. -/
theorem feed_osLook {β : Type} {b : β} (es : Stream' Env) (f : FileTree → Except Errno β)
    (hf : f w.fs = .ok b) :
    (es.head.osFault = none ∧ (osLook f).feed w es = (.ok b, w, es.tail)) ∨
      ∃ errno, es.head.osFault = some errno ∧
        (osLook f).feed w es = (.error (.os errno es.head.errorText), w, es.tail) := by
  unfold osLook osCall
  rw [Prog.feed_call]
  cases hfault : es.head.osFault with
  | none =>
    refine .inl ⟨rfl, ?_⟩
    simp only [hf, Except.map]
  | some errno => exact .inr ⟨errno, rfl, rfl⟩

/-- A call that changes the tree does, or fails and changes nothing. -/
theorem feed_osChange (f : FileTree → Except Errno FileTree) (w : World) (es : Stream' Env) :
    (∃ fs, f w.fs = .ok fs ∧ (osChange f).feed w es = (.ok (), { w with fs }, es.tail)) ∨
      ∃ errno, (osChange f).feed w es = (.error (.os errno es.head.errorText), w, es.tail) := by
  unfold osChange osCall
  rw [Prog.feed_call]
  cases hfault : es.head.osFault with
  | some errno => exact .inr ⟨errno, rfl⟩
  | none =>
    cases hf : f w.fs with
    | error errno => exact .inr ⟨errno, by simp only [hf, Except.map]⟩
    | ok fs => exact .inl ⟨fs, rfl, by simp only [hf, Except.map]⟩

end

/-! ## One item -/

section
variable (cfg : Config) (row : Row)

/-- **What follows a link succeeds**: the flush of the directory, both calls of `stat` and the
    finalized event, which open records accept. -/
structure Undisturbed (mapped : List String × Path) (w : World) (es : Stream' Env) : Prop where
  flush : (es 0).osFault = none
  size : (es 1).osFault = none
  records : w.records.isSome = true
  event : ∀ size, w.fs.size mapped.2 = .ok size →
    ((finalizedEvent row.url (.str row.relativePath) (.str (Lib.Posix.asPosix mapped.1)) size
      (row.sha256.getD "") none false).feed w (es.drop 2)).1 = .ok ()
  measured : (es 5).osFault = none

/-- **A stranded final**: the link is there, and a call that follows it fails. -/
def Stranded (w : World) (es : Stream' Env) : Prop :=
  ∃ mapped w' es', (linkFinal cfg row).feed w es = (.ok mapped, w', es') ∧
    ¬ Undisturbed row mapped w' es'

/-- The item is complete, with a new final and its event. -/
structure Finalized (w w' : World) : Prop where
  status : HasStatus w' row.url .complete
  final : ∃ fs q inode, AddsDirs w { w with fs } ∧
    fs.locate (cfg.destination ++ finalName cfg row) = .ok q ∧ w.fs.node q = none ∧
      w'.fs.node q = some (.file inode)
  event : ∃ writer writer' event, w.records = some writer ∧ w'.records = some writer' ∧
    writer'.events = writer.events ++ [event] ∧ IsFinalEvent row (finalName cfg row) event

/-- The item is in review, and no file is new. -/
structure Reviewed (w w' : World) : Prop where
  status : HasStatus w' row.url .reviewRequired
  files : NoNewFile w.fs w'.fs

end

section
variable {cfg : Config} {row : Row} {w w' w₁ : World} {es es' es₁ : Stream' Env}
  {mapped : List String × Path}

/-- What is there after a link. -/
structure Linked (cfg : Config) (row : Row) (w w₁ : World) (mapped : List String × Path) :
    Prop where
  name : mapped = (finalName cfg row, cfg.destination ++ finalName cfg row)
  status : HasStatus w₁ row.url .promoting
  records : w₁.records = w.records
  final : ∃ fs q inode, AddsDirs w { w with fs } ∧ fs.locate mapped.2 = .ok q ∧
    fs.nodeAt q = none ∧ fs.isRegular (cfg.stagingPath row.url) = true ∧
    fs.link (cfg.stagingPath row.url) mapped.2 = .ok w₁.fs ∧
    w₁.fs = fs.put q (some (.file inode))

theorem feed_remediationRefused (cfg : Config) (row : Row) (hdb : DbAnswers es)
    (hrow : (w.db.downloads.find? row.url).isSome = true) (exc : Exc) :
    ∃ w', (remediationRefused cfg row exc).feed w es = (.ok (), w', es.tail) ∧
      HasStatus w' row.url .reviewRequired ∧ w'.fs = w.fs ∧ w'.records = w.records :=
  feed_transition_status hdb (fun _ => by simp) hrow

theorem feed_remediationIntent (cfg : Config) (row : Row) (hdb : DbAnswers es)
    (hrow : (w.db.downloads.find? row.url).isSome = true) (stored : List String) (target : Path) :
    ∃ w', (remediationIntent cfg row stored target).feed w es = (.ok (), w', es.tail) ∧
      HasStatus w' row.url .promoting ∧ w'.fs = w.fs ∧ w'.records = w.records :=
  feed_transition_status hdb (fun _ => by simp) hrow

theorem feed_remediationFailed (cfg : Config) (row : Row) (hdb : DbAnswers es)
    (hrow : (w.db.downloads.find? row.url).isSome = true) (exc : Exc) :
    ∃ w', (remediationFailed cfg row exc).feed w es = (.ok (), w', es.tail) ∧
      HasStatus w' row.url .reviewRequired ∧ w'.fs = w.fs ∧ w'.records = w.records := by
  unfold remediationFailed
  split
  · exact feed_transition_status hdb (fun _ => by simp) hrow
  · exact feed_transition_status hdb (fun _ => by simp) hrow

theorem feed_completed (cfg : Config) (row : Row) (hdb : DbAnswers es)
    (hrow : (w.db.downloads.find? row.url).isSome = true) (size : ℕ) :
    ∃ w', (transition cfg row.url .complete (some "automatic safe-path remediation complete")
        fun e => [.bytes (some size), .sha256 row.sha256, .remediationOutcome (some "complete"),
          .remediationCompletedAt (some e.text)]).feed w es = (.ok (), w', es.tail) ∧
      HasStatus w' row.url .complete ∧ w'.fs = w.fs ∧ w'.records = w.records :=
  feed_transition_status hdb (fun _ => by simp) hrow

theorem feed_cleanedUp (cfg : Config) (row : Row) (hdb : DbAnswers es)
    (hrow : (w.db.downloads.find? row.url).isSome = true) :
    ∃ w', (transition cfg row.url .complete (some "staging cleanup complete")
        fun e => [.cleanupCompletedAt (some e.text)]).feed w es = (.ok (), w', es.tail) ∧
      HasStatus w' row.url .complete ∧ w'.fs = w.fs ∧ w'.records = w.records :=
  feed_transition_status hdb (fun _ => by simp) hrow

/-- What follows a link. -/
def afterLink (cfg : Config) (row : Row) (mapped : List String × Path) : Ctl Unit := do
  match ← Prog.attempt Exc.isOs (flush mapped.2.dropLast) with
  | .error exc => remediationFailed cfg row exc
  | .ok () => completeRemediation cfg row (cfg.stagingPath row.url) mapped.1 mapped.2

/-- **A remediation links its final**, and goes on from there; or the item goes to review
    without a new file. -/
theorem feed_linkFinal (cfg : Config) (row : Row) (hdb : DbAnswers es)
    (hrow : (w.db.downloads.find? row.url).isSome = true) :
    (∃ mapped w₁ es₁, (linkFinal cfg row).feed w es = (.ok mapped, w₁, es₁) ∧ DbAnswers es₁ ∧
      Linked cfg row w w₁ mapped ∧
      (remediateSafePath cfg row).feed w es = (afterLink cfg row mapped).feed w₁ es₁) ∨
    (∃ exc w₁ es₁, (linkFinal cfg row).feed w es = (.error exc, w₁, es₁)) ∧
      Reviewed row w ((remediateSafePath cfg row).feed w es).2.1 := by
  rcases hchecks : (remediationChecks cfg row).feed w es with ⟨x, w₁, es₁⟩
  obtain ⟨hend, hdb₁⟩ := Prog.ends_of_feed (A := fun e : Env => e.sqlFault = none) hdb hchecks
  rw [remediateSafePath_eq]
  cases x with
  | error exc =>
    have hcaught := raises_remediationChecks row w es exc w₁ es₁ hchecks
    obtain ⟨fs, rfl, hfiles, -⟩ := AddsDirs.ends (addsDirs_remediationChecks row) hend
    refine .inr ⟨⟨exc, _, es₁, Prog.feed_bind_error hchecks⟩, ?_⟩
    rw [Prog.feed_bind_ok (Prog.feed_attempt_caught hcaught hchecks)]
    obtain ⟨w₂, hfeed, hstatus, hfs, -⟩ :=
      feed_remediationRefused cfg row (w := { w with fs }) hdb₁ hrow exc
    dsimp only
    rw [hfeed]
    exact ⟨hstatus, by rw [hfs]; exact hfiles⟩
  | ok mapped =>
    obtain ⟨⟨fs, rfl, hfiles, hext⟩, hstaged, rfl⟩ := ends_remediationChecks_ok hend
    rw [Prog.feed_bind_ok (Prog.feed_attempt_ok hchecks)]
    have hdb₁ : DbAnswers es₁ := hdb₁
    obtain ⟨w₂, hintent, hpromoting, hfs₂, hrec₂⟩ := feed_remediationIntent cfg row
      (w := { w with fs }) hdb₁ hrow (finalName cfg row) (cfg.destination ++ finalName cfg row)
    have hlinkFinal : (linkFinal cfg row).feed w es =
        ((osLink (cfg.stagingPath row.url) (cfg.destination ++ finalName cfg row)).bind fun _ =>
          .ret (finalName cfg row, cfg.destination ++ finalName cfg row)).feed w₂ es₁.tail :=
      (Prog.feed_bind_ok hchecks).trans (Prog.feed_bind_ok hintent)
    dsimp only [remediateChecked]
    rw [Prog.bind_eq, Prog.feed_bind_ok hintent, hlinkFinal]
    rcases feed_osChange (fun fs => fs.link (cfg.stagingPath row.url)
      (cfg.destination ++ finalName cfg row)) w₂ es₁.tail with ⟨fs', hlink, hfeed⟩ | ⟨errno, hfeed⟩
    · refine .inl ⟨_, { w₂ with fs := fs' }, _, Prog.feed_bind_ok hfeed, hdb₁.tail.tail, ?_, ?_⟩
      · obtain ⟨s, inode, hs, hn⟩ := FileTree.isRegular_iff.1 hstaged
        have hroot : s ≠ [] := by
          rintro rfl
          simp [FileTree.nodeAt] at hn
        rw [FileTree.nodeAt, if_neg hroot] at hn
        rw [hfs₂] at hlink
        obtain ⟨q, hq, hnone, hput, -⟩ := link_eq_ok hlink hs hn
        exact ⟨rfl, hpromoting, hrec₂,
          fs, q, inode, ⟨fs, rfl, hfiles, hext⟩, hq, hnone, hstaged, hlink, hput⟩
      · exact Prog.feed_bind_congr (Prog.feed_attempt_bind hfeed)
    · have hattempt : (Prog.attempt Exc.isOs (do
          osLink (cfg.stagingPath row.url) (cfg.destination ++ finalName cfg row)
          flush (cfg.destination ++ finalName cfg row).dropLast)).feed w₂ es₁.tail =
          (.ok (.error (.os errno es₁.tail.head.errorText)), w₂, es₁.tail.tail) :=
        Prog.feed_attempt_caught rfl (Prog.feed_bind_error hfeed)
      refine .inr ⟨⟨_, _, _, Prog.feed_bind_error hfeed⟩, ?_⟩
      rw [Prog.bind_eq, Prog.feed_bind_ok hattempt]
      obtain ⟨w₃, hfailed, hstatus, hfs₃, -⟩ := feed_remediationFailed cfg row
        hdb₁.tail.tail hpromoting.isSome (.os errno es₁.tail.head.errorText)
      dsimp only
      rw [hfailed]
      exact ⟨hstatus, by rw [hfs₃, hfs₂]; exact hfiles⟩

/-- The event takes three answers. -/
theorem rest_feed_finalizedEvent {url : String} {logical stored : PyVal} {byteCount : ℕ}
    {sha256 : String} {expected : Option String} {compared : Bool} (hdb : DbAnswers es) :
    ((finalizedEvent url logical stored byteCount sha256 expected compared).feed w es).2.2 =
      es.drop 3 := by
  have hlook : ∀ (w : World) (es : Stream' Env) (f : Db → Env → Option Row), DbAnswers es →
      (dbLook f).feed w es = (.ok (f w.db es.head), w, es.tail) := by
    intro w es f hdb
    rw [dbLook, Prog.feed_call, show es.head.sqlFault = none from hdb 0]
  unfold finalizedEvent
  rw [Prog.bind_eq, Prog.feed_bind_ok (Prog.feed_act _ _ w es)]
  dsimp only
  rw [Prog.bind_eq, Prog.feed_bind_ok (hlook _ _ _ hdb.tail), provenanceEvent, Prog.feed_call]
  rfl

/-- The file that is new, and its place, which the end of the staged file leaves alone. -/
theorem Linked.new (h : Linked cfg row w w₁ mapped) : ∃ fs q inode, AddsDirs w { w with fs } ∧
    fs.locate mapped.2 = .ok q ∧ w.fs.node q = none ∧ w₁.fs.node q = some (.file inode) ∧
      ∀ fs', w₁.fs.unlink (cfg.stagingPath row.url) = .ok fs' →
        fs'.node q = some (.file inode) := by
  obtain ⟨fs, q, inode, ⟨fs', hfs, hfiles, hext⟩, hq, hnone, hstaged, hlink, hput⟩ := h.final
  obtain rfl : fs = fs' := congrArg World.fs hfs
  have hroot : q ≠ [] := by
    rintro rfl
    simp [FileTree.nodeAt] at hnone
  have hnode : fs.node q = none := by rwa [FileTree.nodeAt, if_neg hroot] at hnone
  have hnew : w₁.fs.node q = some (.file inode) := by rw [hput]; simp [FileTree.put]
  refine ⟨fs, q, inode, ⟨fs, rfl, hfiles, hext⟩, hq, ?_, hnew, fun fs' hunlink => ?_⟩
  · cases hold : w.fs.node q with
    | none => rfl
    | some n => rw [hext.node q n hold] at hnode; cases hnode
  · obtain ⟨s, inode', hs, hn⟩ := FileTree.isRegular_iff.1 hstaged
    have hqs : q ≠ s := by
      rintro rfl
      rw [hnone] at hn
      cases hn
    rw [unlink_eq_ok hunlink (locate_extends (FileTree.link_extends hlink) hs), FileTree.put]
    dsimp only
    rw [Function.update_of_ne hqs, hnew]

/-- With the file that is new nothing counts as a review without a new one. -/
theorem Linked.not_reviewed (h : Linked cfg row w w₁ mapped) {w' : World} (hfs : w'.fs = w₁.fs) :
    ¬ Reviewed row w w' := by
  intro hr
  obtain ⟨-, q, inode, -, -, hnone, hnew, -⟩ := h.new
  have hold := hr.files q inode (by rw [hfs]; exact hnew)
  rw [hnone] at hold
  cases hold

/-- Where a new entry has its place there is a directory. -/
theorem stat_parent {t : FileTree} {p q : Path} (hl : t.locate p = .ok q) (hq : t.nodeAt q = none)
    (hlast : p.getLast? ≠ some "..") : t.stat p.dropLast = .ok .dir := by
  unfold FileTree.locate at hl
  split at hl
  · obtain rfl := Except.ok.inj hl
    simp [FileTree.nodeAt] at hq
  · next name hname =>
    have hup : name ≠ ".." := by
      rintro rfl
      exact hlast hname
    rw [if_neg hup] at hl
    unfold FileTree.stat
    cases hr : t.resolve p.dropLast with
    | error e => rw [hr] at hl; cases hl
    | ok parent =>
      rw [hr] at hl
      dsimp only at hl ⊢
      split at hl
      · next hdir => rw [hdir]
      · cases hl

/-- The directory of the final is there. -/
theorem Linked.flushes (h : Linked cfg row w w₁ mapped) :
    (w₁.fs.stat mapped.2.dropLast).map (fun _ => ()) = .ok () := by
  obtain ⟨fs, q, inode, -, hq, hnone, hstaged, hlink, -⟩ := h.final
  obtain ⟨s, inode', hs, hn⟩ := FileTree.isRegular_iff.1 hstaged
  have hroot : s ≠ [] := by
    rintro rfl
    simp [FileTree.nodeAt] at hn
  rw [FileTree.nodeAt, if_neg hroot] at hn
  obtain ⟨_, -, -, -, hlast⟩ := link_eq_ok hlink hs hn
  have hstat := stat_parent hq hnone hlast
  rw [FileTree.stat_extends (FileTree.link_extends hlink) hstat]
  rfl

theorem Linked.feed_flush (h : Linked cfg row w w₁ mapped) (es : Stream' Env) :
    (es.head.osFault = none ∧ (flush mapped.2.dropLast).feed w₁ es = (.ok (), w₁, es.tail)) ∨
      ∃ errno, es.head.osFault = some errno ∧ (flush mapped.2.dropLast).feed w₁ es =
        (.error (.os errno es.head.errorText), w₁, es.tail) :=
  feed_osLook es (fun fs => (fs.stat mapped.2.dropLast).map fun _ => ()) h.flushes

/-- The final has a size. -/
theorem Linked.size (h : Linked cfg row w w₁ mapped) : ∃ size, w₁.fs.size mapped.2 = .ok size := by
  obtain ⟨fs, q, inode, -, -, -, hstaged, hlink, -⟩ := h.final
  obtain ⟨d, hd⟩ := FileTree.read_isRegular hstaged
  exact ⟨d.length, FileTree.size_of_read ((FileTree.read_link hlink hstaged).trans hd)⟩

theorem feed_fileSize {p : Path} {size : ℕ} (h : w.fs.size p = .ok size) (es : Stream' Env) :
    (es.head.osFault = none ∧ (fileSize p).feed w es = (.ok size, w, es.tail)) ∨
      ∃ errno, es.head.osFault = some errno ∧
        (fileSize p).feed w es = (.error (.os errno es.head.errorText), w, es.tail) :=
  feed_osLook es (fun fs => fs.size p) h

/-- Neither complete nor in review. -/
theorem not_settled_of_promoting {w' : World} (h : HasStatus w' row.url .promoting) :
    ¬ (Finalized cfg row w w' ∨ Reviewed row w w') := by
  rintro (hf | hr)
  · cases h.unique hf.status
  · cases h.unique hr.status

/-- **After its link** an item ends complete or in review, as it should, exactly when no call
    fails. -/
theorem afterLink_iff (hdb : DbAnswers es₁) (hl : Linked cfg row w w₁ mapped) :
    (Finalized cfg row w ((afterLink cfg row mapped).feed w₁ es₁).2.1 ∨
      Reviewed row w ((afterLink cfg row mapped).feed w₁ es₁).2.1) ↔
        Undisturbed row mapped w₁ es₁ := by
  unfold afterLink
  rcases hl.feed_flush es₁ with ⟨hflush, hfeed⟩ | ⟨errno, hfault, hfeed⟩
  swap
  · -- the final is there, and the item goes to review
    rw [Prog.bind_eq, Prog.feed_bind_ok (Prog.feed_attempt_caught rfl hfeed)]
    obtain ⟨w₂, hfailed, hstatus, hfs, -⟩ := feed_remediationFailed cfg row
      hdb.tail hl.status.isSome (.os errno es₁.head.errorText)
    dsimp only
    rw [hfailed]
    refine iff_of_false ?_ fun h => ?_
    · rintro (hf | hr)
      · cases hstatus.unique hf.status
      · exact hl.not_reviewed hfs hr
    · cases hfault.symm.trans h.flush
  rw [Prog.bind_eq, Prog.feed_bind_ok (Prog.feed_attempt_ok hfeed)]
  dsimp only [completeRemediation]
  obtain ⟨size, hsize⟩ := hl.size
  rcases feed_fileSize hsize es₁.tail with ⟨hstat, hfeed⟩ | ⟨errno, hfault, hfeed⟩
  swap
  · rw [Prog.bind_eq, Prog.feed_bind_error hfeed]
    refine iff_of_false (not_settled_of_promoting hl.status) fun h => ?_
    cases hfault.symm.trans h.size
  rw [Prog.bind_eq, Prog.feed_bind_ok hfeed, Prog.bind_eq]
  rcases hevent : (finalizedEvent row.url (.str row.relativePath)
    (.str (Lib.Posix.asPosix mapped.1)) size (row.sha256.getD "") none false).feed w₁
      es₁.tail.tail with ⟨x, w₂, es₂⟩
  obtain ⟨hend, hdb₂⟩ := Prog.ends_of_feed (A := fun e : Env => e.sqlFault = none)
    hdb.tail.tail hevent
  have hdb₂ : DbAnswers es₂ := hdb₂
  have hunmoved : Unmoved w₁ w₂ := ends_finalizedEvent_unmoved hend
  have hstatus₂ : HasStatus w₂ row.url .promoting := by
    unfold HasStatus
    rw [hunmoved.db]
    exact hl.status
  have hrest : es₂ = es₁.tail.tail.drop 3 :=
    (congrArg (fun r => r.2.2) hevent).symm.trans (rest_feed_finalizedEvent hdb.tail.tail)
  cases x with
  | error exc =>
    rw [Prog.feed_bind_error hevent]
    refine iff_of_false (not_settled_of_promoting hstatus₂) fun h => ?_
    have haccepted := h.event size hsize
    rw [show es₁.drop 2 = es₁.tail.tail from rfl, hevent] at haccepted
    cases haccepted
  | ok u =>
    rw [Prog.feed_bind_ok hevent, Prog.bind_eq]
    have hsize₂ : w₂.fs.size mapped.2 = .ok size := by rw [hunmoved.fs]; exact hsize
    rcases feed_fileSize hsize₂ es₂ with ⟨hmeasured, hfeed⟩ | ⟨errno, hfault, hfeed⟩
    swap
    · rw [Prog.feed_bind_error hfeed]
      refine iff_of_false (not_settled_of_promoting hstatus₂) fun h => ?_
      rw [hrest] at hfault
      cases hfault.symm.trans h.measured
    obtain ⟨w₃, hcompleted, hstatus₃, hfs₃, hrec₃⟩ := feed_completed cfg row hdb₂.tail
      hstatus₂.isSome size
    rw [Prog.feed_bind_ok hfeed, Prog.bind_eq, Prog.feed_bind_ok hcompleted, Prog.bind_eq]
    obtain ⟨fs, q, inode, hdirs, hq, hnone, hnew, hunlinked⟩ := hl.new
    rw [hl.name] at hq
    -- the item is complete, whether the staged file could be removed or not
    have hdone : ∀ w', HasStatus w' row.url .complete → w'.fs.node q = some (.file inode) →
        w'.records = w₂.records →
        (Finalized cfg row w w' ∨ Reviewed row w w' ↔ Undisturbed row mapped w₁ es₁) := by
      intro w' hstatus hfinal hrec
      cases hr : w₁.records.isSome with
      | false =>
        refine iff_of_false ?_ fun h => absurd (hr.symm.trans h.records) Bool.false_ne_true
        rintro (hf | hr')
        · obtain ⟨writer, _, _, hw, -⟩ := hf.event
          rw [hl.records, hw] at hr
          cases hr
        · cases hstatus.unique hr'.status
      | true =>
        have hstored : mapped.1 = finalName cfg row := congrArg Prod.fst hl.name
        refine iff_of_true (.inl ⟨hstatus, ⟨fs, q, inode, hdirs, hq, hnone, hfinal⟩, ?_⟩)
          ⟨hflush, hstat, hr, fun size' hsize' => ?_, ?_⟩
        · rw [hstored] at hevent
          rw [← hl.records, hrec]
          exact feed_finalizedEvent_ok hr hevent
        · obtain rfl : size = size' := Except.ok.inj (hsize.symm.trans hsize')
          rw [show es₁.drop 2 = es₁.tail.tail from rfl, hevent]
        · rw [hrest] at hmeasured
          exact hmeasured
    rcases feed_osChange (fun fs => fs.unlink (cfg.stagingPath row.url)) w₃ es₂.tail.tail with
      ⟨fs', hunlink, hfeed⟩ | ⟨errno, hfeed⟩
    · obtain ⟨w₄, hcleaned, hstatus₄, hfs₄, hrec₄⟩ := feed_cleanedUp cfg row
        (w := { w₃ with fs := fs' }) hdb₂.tail.tail.tail hstatus₃.isSome
      rw [osUnlink, Prog.feed_bind_ok hfeed, hcleaned]
      refine hdone w₄ hstatus₄ ?_ (hrec₄.trans hrec₃)
      rw [hfs₄]
      rw [hfs₃, hunmoved.fs] at hunlink
      exact hunlinked fs' hunlink
    · rw [osUnlink, Prog.feed_bind_error hfeed]
      refine hdone w₃ hstatus₃ ?_ hrec₃
      rw [hfs₃, hunmoved.fs]
      exact hnew

/-- **One item** ends complete with its event or in review without a new file, exactly when
    its final is not stranded. -/
theorem remediateSafePath_iff (cfg : Config) (hdb : DbAnswers es)
    (hrow : (w.db.downloads.find? row.url).isSome = true) :
    (Finalized cfg row w ((remediateSafePath cfg row).feed w es).2.1 ∨
      Reviewed row w ((remediateSafePath cfg row).feed w es).2.1) ↔ ¬ Stranded cfg row w es := by
  obtain ⟨mapped, w₁, es₁, hlink, hdb₁, hlinked, hgoes⟩ | ⟨⟨exc, w₁, es₁, hlink⟩, hreviewed⟩ :=
    feed_linkFinal cfg row hdb hrow
  · rw [hgoes, afterLink_iff hdb₁ hlinked]
    constructor
    · rintro hund ⟨mapped', w', es', hlink', hno⟩
      have hsame := hlink.symm.trans hlink'
      simp only [Prod.mk.injEq, Except.ok.injEq] at hsame
      obtain ⟨rfl, rfl, rfl⟩ := hsame
      exact hno hund
    · intro hno
      by_contra hund
      exact hno ⟨mapped, w₁, es₁, hlink, hund⟩
  · refine iff_of_true (.inr hreviewed) ?_
    rintro ⟨mapped', w', es', hlink', -⟩
    cases (congrArg Prod.fst hlink).symm.trans (congrArg Prod.fst hlink')

end

/-! ## The other items -/

/-- The other items are left alone, and events are only added. -/
structure KeepsOthers (url : String) (w w' : World) : Prop where
  others : ∀ u ≠ url, w'.db.downloads.find? u = w.db.downloads.find? u
  records : ∀ writer, w.records = some writer →
    ∃ writer', w'.records = some writer' ∧ writer.events <+: writer'.events

/-- A step whose statement does not fail keeps the other items. -/
def OnItem (url : String) (w : World) (e : Env) (w' : World) : Prop :=
  e.sqlFault = none → KeepsOthers url w w'

section
variable {url : String} {w w' w'' : World} {cfg : Config}

theorem KeepsOthers.same (hdb : w'.db = w.db) (hr : w'.records = w.records) :
    KeepsOthers url w w' :=
  ⟨fun u _ => by rw [hdb], fun writer hw => ⟨writer, hr.trans hw, List.prefix_rfl⟩⟩

theorem KeepsOthers.refl (w : World) : KeepsOthers url w w := .same rfl rfl

theorem KeepsOthers.trans (h : KeepsOthers url w w') (h' : KeepsOthers url w' w'') :
    KeepsOthers url w w'' := by
  refine ⟨fun u hu => (h'.others u hu).trans (h.others u hu), fun writer hw => ?_⟩
  obtain ⟨writer', hw', hpre⟩ := h.records writer hw
  obtain ⟨writer'', hw'', hpre'⟩ := h'.records writer' hw'
  exact ⟨writer'', hw'', hpre.trans hpre'⟩

theorem KeepsOthers.status {u : String} {s : Status} (h : KeepsOthers url w w') (hu : u ≠ url) :
    HasStatus w' u s ↔ HasStatus w u s := by
  unfold HasStatus
  rw [h.others u hu]

/-- A failed event adds nothing. -/
theorem events_event (w : Writer) (eventType : String) (fields : List (String × PyVal))
    (io : Provenance.EventIo) : w.events <+: (w.event eventType fields io).2.events := by
  rcases h : w.event eventType fields io with ⟨x | event, w'⟩
  · unfold Writer.event at h
    split at h
    · obtain ⟨-, rfl⟩ := Prod.mk.inj h
      exact List.prefix_rfl
    · split at h
      · obtain ⟨-, rfl⟩ := Prod.mk.inj h
        exact List.prefix_rfl
      · unfold Writer.append at h
        dsimp only at h
        repeat' split at h
        all_goals first
          | (obtain ⟨-, rfl⟩ := Prod.mk.inj h; exact List.prefix_rfl)
          | cases h
  · rw [(event_eq_ok h).1]
    exact List.prefix_append _ _

theorem onItem_osCall {β : Type} (f : FileTree → Except Errno (β × FileTree)) :
    (osCall f).Uses (OnItem url) := by
  refine Prog.uses_call fun w e _ => ?_
  split
  · exact .refl w
  · split
    · exact .refl w
    · exact .same rfl rfl

theorem onItem_osLook {β : Type} (f : FileTree → Except Errno β) : (osLook f).Uses (OnItem url) :=
  onItem_osCall _

theorem onItem_osChange (f : FileTree → Except Errno FileTree) : (osChange f).Uses (OnItem url) :=
  onItem_osCall _

theorem onItem_dbLook {β : Type} (f : Db → Env → β) : (dbLook f).Uses (OnItem url) := by
  refine Prog.uses_call fun w e he => ?_
  rw [he]
  exact .refl w

theorem onItem_provenanceEvent (eventType : String) (fields : Env → List (String × PyVal)) :
    (provenanceEvent eventType fields).Uses (OnItem url) := by
  refine Prog.uses_call fun w e _ => ?_
  split
  · exact .refl w
  · next writer hw =>
    have hgrows := events_event writer eventType (fields e) e.eventIo
    split <;> next writer' hevent =>
      rw [hevent] at hgrows
      refine ⟨fun u _ => rfl, fun old hold => ⟨_, rfl, ?_⟩⟩
      obtain rfl := Option.some.inj (hw.symm.trans hold)
      exact hgrows

theorem onItem_transition (status : Status) (detail : Option String) (fields : Env → Update) :
    (transition cfg url status detail fields).Uses (OnItem url) := by
  have hfailure : sqliteFailure.Uses (OnItem url) := by
    refine (Prog.uses_change fun w e _ => .same rfl rfl).bind fun _ => Prog.Uses.bind ?_ fun _ =>
      trivial
    refine (Prog.uses_change fun w e _ => .same rfl rfl).bind fun _ => ?_
    refine (onItem_provenanceEvent _ _).handle fun x => ?_
    cases x <;> trivial
  refine Prog.Uses.handle (Prog.uses_call fun w e he => ?_) fun x => ?_
  · rw [he]
    cases hold : w.db.downloads.find? url with
    | none =>
      simp only [Db.transition, hold]
      exact .refl w
    | some old =>
      obtain rfl := Lib.Table.find?_key hold
      simp only [Db.transition, hold, Option.map_some]
      refine ⟨fun u hu => ?_, fun writer hw => ⟨writer, hw, List.prefix_rfl⟩⟩
      dsimp only
      rw [Db.find?_transitioned]
      cases hu' : w.db.downloads.find? u with
      | none => rfl
      | some r => rw [Option.map_some, if_neg (Lib.Table.find?_key hu' ▸ hu)]
  · cases x <;> first | exact hfailure | trivial

theorem onItem_remediateSafePath (row : Row) :
    (remediateSafePath cfg row).Uses (OnItem row.url) := by
  have hchecks : (remediationChecks cfg row).Uses (OnItem row.url) := by
    refine (addsDirs_remediationChecks row).mono fun w e w' h _ => ?_
    obtain ⟨fs, rfl, -⟩ := h
    exact .same rfl rfl
  rw [remediateSafePath_eq]
  refine (Prog.Uses.attempt hchecks).bind fun checked => ?_
  rcases checked with exc | ⟨stored, target⟩
  · exact onItem_transition _ _ _
  · refine (onItem_transition _ _ _).bind fun _ => ?_
    refine (Prog.Uses.attempt ((onItem_osChange _).bind fun _ => onItem_osLook _)).bind
      fun linked => ?_
    cases linked with
    | error exc =>
      dsimp only [remediationFailed]
      split <;> exact onItem_transition _ _ _
    | ok u =>
      dsimp only [completeRemediation]
      refine (onItem_osLook _).bind fun _ => Prog.Uses.bind ?_ fun _ => (onItem_osLook _).bind
        fun _ => (onItem_transition _ _ _).bind fun _ => (onItem_osChange _).bind fun _ =>
          onItem_transition _ _ _
      exact Prog.Uses.bind ⟨fun w e _ => .same rfl rfl, fun _ => trivial⟩ fun _ =>
        (onItem_dbLook _).bind fun _ => onItem_provenanceEvent _ _

theorem keepsOthers_feed {α : Type} {p : Ctl α} {x : Except Exc α} {es es' : Stream' Env}
    (hp : p.Uses (OnItem url)) (hdb : DbAnswers es) (h : p.feed w es = (x, w', es')) :
    KeepsOthers url w w' ∧ DbAnswers es' := by
  obtain ⟨hend, hdb'⟩ := Prog.ends_of_feed (A := fun e : Env => e.sqlFault = none) hdb h
  exact ⟨((hp.along_of w).mono fun _ _ _ hs (hI : KeepsOthers url w _) => hI.trans hs).ends
    (.refl w) hend, hdb'⟩

end

/-! ## The loop -/

/-- One round of the loop: its item, the world and the answers it starts with, and the world it
    leaves. -/
structure Round where
  row : Row
  before : World
  answers : Stream' Env
  after : World

section
variable (cfg : Config)

/-- The items that `remediate_safe_paths` takes up. -/
def remediable (db : Db) : List Row :=
  (db.selected cfg.runId).filter fun r =>
    r.status = .reviewRequired && r.remediationOutcome.isNone &&
      (r.reviewCode = some "ENAMETOOLONG" || legacyNameTooLongError r.lastError)

/-- The rounds of the loop; an exception ends it. -/
def rounds : List Row → World → Stream' Env → List Round
  | [], _, _ => []
  | row :: rows, w, es =>
    match (remediateSafePath cfg row).feed w es with
    | (.ok _, w', es') => ⟨row, w, es, w'⟩ :: rounds rows w' es'
    | (.error _, w', _) => [⟨row, w, es, w'⟩]

/-- **An item ends as it should**: complete, with a new final and its event in the records; or
    in review, and its remediation made no file. -/
def Ended (past : List Round) (w : World) (row : Row) : Prop :=
  (HasStatus w row.url .complete ∧
    (∃ round ∈ past, round.row = row ∧ Finalized cfg row round.before round.after) ∧
    ∃ writer event, w.records = some writer ∧ event ∈ writer.events ∧
      IsFinalEvent row (finalName cfg row) event) ∨
  (HasStatus w row.url .reviewRequired ∧
    ∀ round ∈ past, round.row = row → NoNewFile round.before.fs round.after.fs)

end

section
variable {cfg : Config} {row : Row} {rows : List Row} {w w' w₁ : World} {es es' es₁ : Stream' Env}

theorem remediateSafePaths_eq : remediateSafePaths cfg =
    (dbLook fun db _ => remediable cfg db).bind fun rows =>
      Prog.forEach rows (remediateSafePath cfg) := rfl

/-- The rounds are about the rows of the loop. -/
theorem rounds_row {round : Round} (h : round ∈ rounds cfg rows w es) : round.row ∈ rows := by
  induction rows generalizing w es with
  | nil => cases h
  | cons row rows ih =>
    unfold rounds at h
    rcases hfeed : (remediateSafePath cfg row).feed w es with ⟨_ | _, w₁, es₁⟩
    · rw [hfeed] at h
      obtain rfl := List.mem_singleton.1 h
      exact List.mem_cons_self
    · rw [hfeed] at h
      rcases List.mem_cons.1 h with rfl | h
      · exact List.mem_cons_self
      · exact List.mem_cons_of_mem _ (ih h)

/-- What the other rounds do to an item: nothing, and events are only added. -/
theorem keepsOthers_rounds (cfg : Config) (hdb : DbAnswers es) (hrow : row.url ∉ rows.map Row.url) :
    (∀ s, HasStatus ((Prog.forEach rows (remediateSafePath cfg)).feed w es).2.1 row.url s ↔
      HasStatus w row.url s) ∧
    ∀ writer, w.records = some writer → ∃ writer',
      ((Prog.forEach rows (remediateSafePath cfg)).feed w es).2.1.records = some writer' ∧
        writer.events <+: writer'.events := by
  induction rows generalizing w es with
  | nil => exact ⟨fun s => Iff.rfl, fun writer hw => ⟨writer, hw, List.prefix_rfl⟩⟩
  | cons other rows ih =>
    rw [List.map_cons, List.mem_cons, not_or] at hrow
    rcases hfeed : (remediateSafePath cfg other).feed w es with ⟨x | u, w₁, es₁⟩
    all_goals
      obtain ⟨hkeeps, hdb₁⟩ := keepsOthers_feed (onItem_remediateSafePath other) hdb hfeed
      unfold Prog.forEach
    · rw [Prog.feed_bind_error hfeed]
      exact ⟨fun s => hkeeps.status hrow.1, hkeeps.records⟩
    · rw [Prog.feed_bind_ok hfeed]
      obtain ⟨hstatus, hrecords⟩ := ih (w := w₁) hdb₁ hrow.2
      refine ⟨fun s => (hstatus s).trans (hkeeps.status hrow.1), fun writer hw => ?_⟩
      obtain ⟨writer₁, hw₁, hpre⟩ := hkeeps.records writer hw
      obtain ⟨writer', hw', hpre'⟩ := hrecords writer₁ hw₁
      exact ⟨writer', hw', hpre.trans hpre'⟩

/-- Rounds of other items say nothing about an item. -/
theorem ended_cons {past : List Round} {round : Round} (h : round.row ≠ row) :
    Ended cfg (round :: past) w row ↔ Ended cfg past w row := by
  unfold Ended
  simp only [List.mem_cons, exists_eq_or_imp, forall_eq_or_imp, h, false_and, false_or,
    false_implies, true_and]

/-- An item ends as its round ends. -/
theorem ended_iff {past : List Round} (hpast : ∀ round ∈ past, round.row ≠ row)
    (hstatus : ∀ s, HasStatus w' row.url s ↔ HasStatus w₁ row.url s)
    (hrecords : ∀ writer, w₁.records = some writer →
      ∃ writer', w'.records = some writer' ∧ writer.events <+: writer'.events) :
    Ended cfg (⟨row, w, es, w₁⟩ :: past) w' row ↔
      Finalized cfg row w w₁ ∨ Reviewed row w w₁ := by
  constructor
  · rintro (⟨-, ⟨round, hround, hrow, hfinal⟩, -⟩ | ⟨hreview, hfiles⟩)
    · rcases List.mem_cons.1 hround with rfl | hround
      · exact .inl hfinal
      · exact absurd hrow (hpast round hround)
    · exact .inr ⟨(hstatus _).1 hreview, hfiles _ List.mem_cons_self rfl⟩
  · rintro (hfinal | hreview)
    · obtain ⟨writer, writer₁, event, -, hw₁, hevents, hevent⟩ := hfinal.event
      obtain ⟨writer', hw', hpre⟩ := hrecords writer₁ hw₁
      refine .inl ⟨(hstatus _).2 hfinal.status, ⟨_, List.mem_cons_self, rfl, hfinal⟩, writer',
        event, hw', hpre.subset ?_, hevent⟩
      rw [hevents]
      exact List.mem_append_right _ List.mem_cons_self
    · refine .inr ⟨(hstatus _).2 hreview.status, fun round hround hrow => ?_⟩
      rcases List.mem_cons.1 hround with rfl | hround
      · exact hreview.files
      · exact absurd hrow (hpast round hround)

theorem rounds_iff (hdb : DbAnswers es) (hn : (rows.map Row.url).Nodup)
    (hrows : ∀ r ∈ rows, HasStatus w r.url .reviewRequired) :
    (∀ r ∈ rows, Ended cfg (rounds cfg rows w es)
      ((Prog.forEach rows (remediateSafePath cfg)).feed w es).2.1 r) ↔
        ∀ round ∈ rounds cfg rows w es, ¬ Stranded cfg round.row round.before round.answers := by
  induction rows generalizing w es with
  | nil => simp [rounds]
  | cons row rows ih =>
    rw [List.map_cons, List.nodup_cons] at hn
    have hne : ∀ r ∈ rows, r.url ≠ row.url := by
      intro r hr heq
      exact hn.1 (List.mem_map.2 ⟨r, hr, heq⟩)
    have hitem := remediateSafePath_iff cfg hdb (hrows row List.mem_cons_self).isSome
    rcases hfeed : (remediateSafePath cfg row).feed w es with ⟨x | u, w₁, es₁⟩
    all_goals
      obtain ⟨hkeeps, hdb₁⟩ := keepsOthers_feed (onItem_remediateSafePath row) hdb hfeed
      have hrows₁ : ∀ r ∈ rows, HasStatus w₁ r.url .reviewRequired := fun r hr =>
        (hkeeps.status (hne r hr)).2 (hrows r (List.mem_cons_of_mem _ hr))
      rw [hfeed] at hitem
      unfold rounds Prog.forEach
      rw [hfeed]
      dsimp only
    · -- the exception ends the loop: the rest stays in review, and has no round
      rw [Prog.feed_bind_error hfeed]
      have hself : Ended cfg [⟨row, w, es, w₁⟩] w₁ row ↔ _ :=
        ended_iff (by simp) (fun s => Iff.rfl) fun writer hw => ⟨writer, hw, List.prefix_rfl⟩
      rw [List.forall_mem_cons, List.forall_mem_singleton, hself, hitem, and_iff_left_iff_imp]
      refine fun _ r hr => .inr ⟨hrows₁ r hr, fun round hround hrow => ?_⟩
      obtain rfl := List.mem_singleton.1 hround
      exact absurd (congrArg Row.url hrow.symm) (hne r hr)
    · rw [Prog.feed_bind_ok hfeed]
      obtain ⟨hstatus, hrecords⟩ := keepsOthers_rounds cfg (w := w₁) hdb₁ hn.1
      have hself : Ended cfg (⟨row, w, es, w₁⟩ :: rounds cfg rows w₁ es₁) _ row ↔ _ := ended_iff
        (fun round hround heq => hn.1 (List.mem_map.2 ⟨_, rounds_row hround, by rw [heq]⟩))
        hstatus hrecords
      rw [List.forall_mem_cons, List.forall_mem_cons, hself, hitem, ← ih hdb₁ hn.2 hrows₁]
      refine and_congr_right fun _ => forall₂_congr fun r hr => ended_cons fun heq => ?_
      exact hne r hr (congrArg Row.url heq.symm)

/-- The call loops over its items. -/
theorem feed_remediateSafePaths (cfg : Config) (w : World) (hdb : DbAnswers es) :
    (remediateSafePaths cfg).feed w es =
      (Prog.forEach (remediable cfg w.db) (remediateSafePath cfg)).feed w es.tail := by
  have hlook : (dbLook fun db _ => remediable cfg db).feed w es =
      (.ok (remediable cfg w.db), w, es.tail) := by
    rw [dbLook, Prog.feed_call, show es.head.sqlFault = none from hdb 0]
  rw [remediateSafePaths_eq, Prog.feed_bind_ok hlook]

theorem nodup_remediable (cfg : Config) (db : Db) : ((remediable cfg db).map Row.url).Nodup :=
  (db.nodup_selected cfg.runId).sublist (List.filter_sublist.map _)

/-- The items of the loop are in review. -/
theorem remediable_inReview (cfg : Config) (w : World) :
    ∀ r ∈ remediable cfg w.db, HasStatus w r.url .reviewRequired := by
  intro r hr
  obtain ⟨hmem, hr⟩ := List.mem_filter.1 hr
  simp only [Bool.and_eq_true, decide_eq_true_eq] at hr
  unfold HasStatus
  rw [Lib.Table.find?_eq_some.2 ⟨(Lib.Table.mem_join.1 hmem).2, rfl⟩, Option.map_some, hr.1.1]

/-- **A remediation leaves no item between two states**, exactly when no call fails after a
    link. -/
theorem remediated_iff (cfg : Config) (w : World) (es : Stream' Env) (hdb : DbAnswers es) :
    (∀ row ∈ remediable cfg w.db, Ended cfg (rounds cfg (remediable cfg w.db) w es.tail)
      ((remediateSafePaths cfg).feed w es).2.1 row) ↔
        ∀ round ∈ rounds cfg (remediable cfg w.db) w es.tail,
          ¬ Stranded cfg round.row round.before round.answers := by
  rw [feed_remediateSafePaths cfg w hdb]
  exact rounds_iff hdb.tail (nodup_remediable cfg w.db) (remediable_inReview cfg w)

/-- The first item has a round. -/
theorem rounds_cons (cfg : Config) (row : Row) (rows : List Row) (w : World) (es : Stream' Env) :
    ∃ round past, rounds cfg (row :: rows) w es = round :: past ∧ round.row = row ∧
      round.before = w ∧ round.answers = es := by
  unfold rounds
  split <;> exact ⟨_, _, rfl, rfl, rfl, rfl⟩

end

/-! ## One item and one fault -/

/-- A destination and the state of a run. -/
def sideBySide : Config := { runId := "run", destination := ["d"], state := ["s"] }

/-- A staged file, empty, whose final name was too long. -/
def tooLong : Row where
  url := "http://h/a"
  relativePath := "a"
  status := .reviewRequired
  updatedAt := ""
  stagingPath := some (pathText (sideBySide.stagingPath "http://h/a"))
  sha256 := some (Lib.Sha256.hexdigest [])
  reviewCode := some "ENAMETOOLONG"

def staged : World where
  db := { downloads := Lib.Table.empty.insertNew tooLong
          runItems := Lib.Table.empty.insertNew ⟨"run", tooLong.url, 0⟩ }
  fs.node p :=
    if p = sideBySide.stagingPath tooLong.url then some (.file 0)
    else if p.isPrefixOf (sideBySide.stagingPath tooLong.url) || p = ["d"] then some .dir else none
  fs.data _ := []

/-- One system call fails. -/
def faultAt (n : ℕ) : Stream' Env := fun k =>
  if k = n then { osFault := some (.other 5), errorText := "[Errno 5] Input/output error" } else {}

theorem dbAnswers_faultAt (n : ℕ) : DbAnswers (faultAt n) := by
  intro k
  unfold faultAt
  split <;> rfl

theorem remediable_staged : remediable sideBySide staged.db = [tooLong] := by rfl

/-- When the link itself fails the item goes to review, and there is no final. -/
theorem remediated_iff_link : Ended sideBySide
    (rounds sideBySide (remediable sideBySide staged.db) staged (faultAt 6).tail)
    ((remediateSafePaths sideBySide).feed staged (faultAt 6)).2.1 tooLong := by
  have hfails : ((linkFinal sideBySide tooLong).feed staged (faultAt 6).tail).1.isOk = false := by
    decide +kernel
  have hstranded : ¬ Stranded sideBySide tooLong staged (faultAt 6).tail := by
    rintro ⟨mapped, w', es', hlink, -⟩
    rw [hlink] at hfails
    cases hfails
  have hmem : tooLong ∈ remediable sideBySide staged.db := by
    rw [remediable_staged]
    exact List.mem_cons_self
  refine (remediated_iff sideBySide staged (faultAt 6) (dbAnswers_faultAt 6)).2
    (fun round hround => ?_) tooLong hmem
  rw [remediable_staged] at hround
  unfold rounds at hround
  split at hround <;> obtain rfl := List.mem_singleton.1 hround <;> exact hstranded

/-- The system call after a final is linked fails. -/
def faultFollows : Except Exc (List String × Path) × World × Stream' Env → Bool
  | (.ok _, _, es) => (es 0).osFault.isSome
  | _ => false

/-- When the flush after the link fails the item goes to review, and its final stays. -/
theorem flush_strands : ¬ ∀ (cfg : Config) (w : World) (es : Stream' Env), DbAnswers es →
    ∀ row ∈ remediable cfg w.db, Ended cfg (rounds cfg (remediable cfg w.db) w es.tail)
      ((remediateSafePaths cfg).feed w es).2.1 row := by
  intro hall
  have hended := hall sideBySide staged (faultAt 7) (dbAnswers_faultAt 7)
  rw [feed_remediateSafePaths _ _ (dbAnswers_faultAt 7), rounds_iff (dbAnswers_faultAt 7).tail
    (nodup_remediable ..) (remediable_inReview sideBySide staged), remediable_staged] at hended
  obtain ⟨round, past, hrounds, hrow, hbefore, hanswers⟩ :=
    rounds_cons sideBySide tooLong [] staged (faultAt 7).tail
  rw [hrounds] at hended
  refine hended round List.mem_cons_self ?_
  rw [hrow, hbefore, hanswers]
  have hfaults : faultFollows ((linkFinal sideBySide tooLong).feed staged (faultAt 7).tail) =
      true := by decide +kernel
  unfold faultFollows at hfaults
  split at hfaults
  · next mapped w' es' hlink =>
    refine ⟨mapped, w', es', hlink, fun hund => ?_⟩
    rw [hund.flush] at hfaults
    cases hfaults
  · cases hfaults

end TodDl.Controller
