/-
  The controller — how the atomic steps end.

  What a step that ended says about the world it started from, under any answers
  of the environment; under `Calm` ones no call fails by itself.
-/
import TodDl.Controller.World

namespace TodDl.Controller

open Lib (Path FileTree Errno Prog)
open Provenance (PyVal)
open Store (Db Row Status Update)

/-- No system call and no statement fails by itself. -/
def Calm (e : Env) : Prop := e.osFault = none ∧ e.sqlFault = none

instance (e : Env) : Decidable (Calm e) := inferInstanceAs (Decidable (_ ∧ _))

theorem exists_calm : ∃ e, Calm e := ⟨{}, rfl, rfl⟩

section
variable {A : Env → Prop} {w w' : World} {β : Type} {b : β} {exc : Exc}

/-! ## System calls -/

theorem ends_osCall_ok {f : FileTree → Except Errno (β × FileTree)}
    (h : (osCall f).Ends A w (.ok b) w') : ∃ fs, f w.fs = .ok (b, fs) ∧ w' = { w with fs } := by
  obtain ⟨e, -, h⟩ := Prog.ends_call.1 h
  split at h
  · cases h
  · split at h
    · cases h
    · next hf =>
      obtain ⟨hb, rfl⟩ := Prod.mk.inj h
      obtain rfl := Except.ok.inj hb
      exact ⟨_, hf, rfl⟩

theorem ends_osCall_error {f : FileTree → Except Errno (β × FileTree)}
    (h : (osCall f).Ends A w (.error exc) w') : exc.isOs = true ∧ w' = w := by
  obtain ⟨e, -, h⟩ := Prog.ends_call.1 h
  split at h
  · obtain ⟨hx, rfl⟩ := Prod.mk.inj h
    obtain rfl := Except.error.inj hx
    exact ⟨rfl, rfl⟩
  · split at h
    · obtain ⟨hx, rfl⟩ := Prod.mk.inj h
      obtain rfl := Except.error.inj hx
      exact ⟨rfl, rfl⟩
    · cases h

theorem ends_osCall_calm {f : FileTree → Except Errno (β × FileTree)}
    (h : (osCall f).Ends Calm w (.error exc) w') : ∃ errno, f w.fs = .error errno := by
  obtain ⟨e, he, h⟩ := Prog.ends_call.1 h
  rw [he.1] at h
  dsimp only at h
  split at h
  · exact ⟨_, ‹_›⟩
  · cases h

theorem ends_osLook_ok {f : FileTree → Except Errno β} (h : (osLook f).Ends A w (.ok b) w') :
    f w.fs = .ok b ∧ w' = w := by
  obtain ⟨fs, hf, rfl⟩ := ends_osCall_ok h
  cases hfs : f w.fs with
  | error errno => simp [hfs, Except.map] at hf
  | ok c =>
    simp only [hfs, Except.map, Except.ok.injEq, Prod.mk.injEq] at hf
    obtain ⟨rfl, rfl⟩ := hf
    exact ⟨rfl, rfl⟩

theorem ends_osLook_error {f : FileTree → Except Errno β} (h : (osLook f).Ends A w (.error exc) w') :
    exc.isOs = true ∧ w' = w := ends_osCall_error h

theorem ends_osLook_calm {f : FileTree → Except Errno β}
    (h : (osLook f).Ends Calm w (.error exc) w') : ∃ errno, f w.fs = .error errno := by
  obtain ⟨errno, hf⟩ := ends_osCall_calm h
  cases hfs : f w.fs with
  | error errno => exact ⟨errno, rfl⟩
  | ok c => simp [hfs, Except.map] at hf

theorem passes_osLook {f : FileTree → Except Errno β} (h : (osLook f).Passes A w w') : w' = w := by
  rcases Prog.passes_call.1 h with rfl | ⟨e, -, rfl⟩
  · rfl
  · dsimp only
    split
    · rfl
    · cases hf : f w.fs <;> simp [Except.map]

theorem passes_dbLook {f : Db → Env → β} (h : (dbLook f).Passes A w w') : w' = w := by
  rcases Prog.passes_call.1 h with rfl | ⟨e, -, rfl⟩
  · rfl
  · split <;> rfl

/-- A look that cannot fail on calm answers. -/
theorem ends_osLook_total {f : FileTree → β} {x : Except Exc β}
    (h : (osLook fun fs => .ok (f fs)).Ends Calm w x w') : x = .ok (f w.fs) ∧ w' = w := by
  cases x with
  | ok b =>
    obtain ⟨hb, rfl⟩ := ends_osLook_ok h
    exact ⟨by rw [← Except.ok.inj hb], rfl⟩
  | error exc =>
    obtain ⟨errno, hf⟩ := ends_osLook_calm h
    cases hf

/-! ## Statements -/

theorem ends_dbLook_ok {f : Db → Env → β} (h : (dbLook f).Ends A w (.ok b) w') :
    ∃ e, A e ∧ f w.db e = b ∧ w' = w := by
  obtain ⟨e, he, h⟩ := Prog.ends_call.1 h
  split at h
  · cases h
  · obtain ⟨hb, rfl⟩ := Prod.mk.inj h
    exact ⟨e, he, Except.ok.inj hb, rfl⟩

theorem ends_dbLook_calm {f : Db → Env → β} {x : Except Exc β} (h : (dbLook f).Ends Calm w x w') :
    ∃ e, Calm e ∧ x = .ok (f w.db e) ∧ w' = w := by
  obtain ⟨e, he, h⟩ := Prog.ends_call.1 h
  rw [he.2] at h
  obtain ⟨rfl, rfl⟩ := Prod.mk.inj h
  exact ⟨e, he, rfl, rfl⟩

theorem ends_dbChange_ok {f : Db → Env → Db} (h : (dbChange f).Ends A w (.ok ()) w') :
    ∃ e, A e ∧ w' = { w with db := f w.db e } := by
  obtain ⟨e, he, h⟩ := Prog.ends_call.1 h
  split at h
  · cases h
  · exact ⟨e, he, (Prod.mk.inj h).2.symm⟩

theorem ends_dbChange_calm {f : Db → Env → Db} {x : Except Exc Unit}
    (h : (dbChange f).Ends Calm w x w') :
    ∃ e, Calm e ∧ x = .ok () ∧ w' = { w with db := f w.db e } := by
  obtain ⟨e, he, h⟩ := Prog.ends_call.1 h
  rw [he.2] at h
  obtain ⟨rfl, rfl⟩ := Prod.mk.inj h
  exact ⟨e, he, rfl, rfl⟩

theorem ends_dbCommit_ok {f : Db → Env → Except Exc Db} (h : (dbCommit f).Ends A w (.ok ()) w') :
    ∃ e db, A e ∧ f w.db e = .ok db ∧ w' = { w with db, disk := db } := by
  obtain ⟨e, he, h⟩ := Prog.ends_call.1 h
  split at h
  · cases h
  · cases h
  · cases h
  · next db hdb _ => exact ⟨e, db, he, hdb, (Prod.mk.inj h).2.symm⟩

theorem ends_dbCommit_calm {f : Db → Env → Except Exc Db} {x : Except Exc Unit}
    (h : (dbCommit f).Ends Calm w x w') : ∃ e, Calm e ∧
      ((∃ exc, f w.db e = .error exc ∧ x = .error exc ∧ w' = w) ∨
        ∃ db, f w.db e = .ok db ∧ x = .ok () ∧ w' = { w with db, disk := db }) := by
  obtain ⟨e, he, h⟩ := Prog.ends_call.1 h
  rw [he.2] at h
  refine ⟨e, he, ?_⟩
  cases hf : f w.db e with
  | error exc =>
    rw [hf] at h
    obtain ⟨rfl, rfl⟩ := Prod.mk.inj h
    exact .inl ⟨exc, rfl, rfl, rfl⟩
  | ok db =>
    rw [hf] at h
    obtain ⟨rfl, rfl⟩ := Prod.mk.inj h
    exact .inr ⟨db, rfl, rfl, rfl⟩

section
variable {cfg : Config} {url : String} {status : Status} {detail : Option String}
  {fields : Env → Update}

/-- The commit of a transition of a known item. -/
def World.moved (cfg : Config) (w : World) (old : Row) (status : Status) (detail : Option String)
    (fields : Update) (text : String) : World :=
  { w with
    db := w.db.transitioned cfg.runId old status detail fields text
    disk := w.db.transitioned cfg.runId old status detail fields text }

theorem ends_transition_calm {x : Except Exc Unit}
    (h : (transition cfg url status detail fields).Ends Calm w x w') :
    (w.db.downloads.find? url = none ∧ (∃ exc, x = .error exc) ∧ w' = w) ∨
      ∃ e old, w.db.downloads.find? url = some old ∧ x = .ok () ∧
        w' = w.moved cfg old status detail (fields e) e.text := by
  rcases Prog.ends_handle.1 h with ⟨_, rfl, hc⟩ | ⟨exc, w₁, hc, hh⟩
  · obtain ⟨e, -, ⟨exc, -, hx, -⟩ | ⟨db, hdb, -, rfl⟩⟩ := ends_dbCommit_calm hc
    · cases hx
    · cases hold : w.db.downloads.find? url with
      | none => simp [Db.transition, hold] at hdb
      | some old =>
        simp only [Db.transition, hold, Option.map_some, Except.ok.injEq] at hdb
        subst hdb
        exact .inr ⟨e, old, rfl, rfl, rfl⟩
  · obtain ⟨e, -, ⟨exc', hexc, hx, rfl⟩ | ⟨db, -, hx, -⟩⟩ := ends_dbCommit_calm hc
    · obtain rfl := Except.error.inj hx
      cases hold : w₁.db.downloads.find? url with
      | none =>
        simp only [Db.transition, hold, Option.map_none, Except.error.injEq] at hexc
        subst hexc
        exact .inl ⟨rfl, ⟨_, hh.1⟩, hh.2⟩
      | some old => simp [Db.transition, hold] at hexc
    · cases hx

end

/-! ## Records -/

theorem finalRelativePath_finalizedFields (url : String) (logical stored : PyVal) (byteCount : ℕ)
    (sha256 : String) (expected : Option String) (compared confirmed : Bool)
    (response : Option Response) (etag lastModified : Option String) (e : Env) :
    Provenance.lookup "final_relative_path" (Provenance.update [] (finalizedFields url logical stored
      byteCount sha256 expected compared confirmed response etag lastModified e)) = some stored := by
  simp only [finalizedFields, Provenance.update, List.foldl_cons, List.foldl_nil]
  repeat rw [Provenance.lookup_insert_ne _ _ (by decide)]
  exact Provenance.lookup_insert_self ..

/-- With open records an event fails that has a value `json.dumps` refuses. -/
theorem provenanceEvent_other {eventType name type : String} {fields : Env → List (String × PyVal)}
    (hr : w.records.isSome)
    (h : ∀ e, Provenance.lookup name (Provenance.update [] (fields e)) = some (.other type))
    {u : Unit} : ¬ (provenanceEvent eventType fields).Ends A w (.ok u) w' := by
  intro hend
  obtain ⟨e, -, hend⟩ := Prog.ends_call.1 hend
  obtain ⟨writer, hw⟩ := Option.isSome_iff_exists.1 hr
  obtain ⟨f, hf⟩ := writer.event_other eventType e.eventIo (h e)
  rw [hw] at hend
  dsimp only at hend
  split at hend
  · next hok => rw [hok] at hf; cases hf
  · cases hend
  · cases hend

end

end TodDl.Controller
