/-
  The controller — which validators confirm a resume (tod-dl.py,
  `classify_representation`).

  The gates of a resume ask for a strong ETag that matches the recorded one, but they
  compare the texts only: a weak ETag that matches passes too.  `strict_iff`: the gate of
  a transfer does what the specification asks for exactly if no weak ETag matches; that
  of a recheck, if besides the item is found again.
-/
import TodDl.Controller.Resume

namespace TodDl.Controller

open Lib (Path FileTree Errno Prog)
open Store (Row Status truthy)

/-! ## Matches -/

/-- `W/` stands before a weak entity tag. -/
def isWeak (tag : String) : Bool := "W/".toList.isPrefixOf tag.toList

/-- The item is there, with the recorded ETag. -/
def SameTag (row : Row) (answer : Option HeadAnswer) (tag : String) : Prop :=
  tag ≠ "" ∧ row.etag = some tag ∧ ∃ a ∈ answer, (a.status = 200 ∨ a.status = 206) ∧ a.etag = some tag

/-- The observed ETag is a strong one and the recorded one. -/
def StrongMatch (row : Row) (answer : Option HeadAnswer) : Prop :=
  ∃ tag, SameTag row answer tag ∧ isWeak tag = false

/-- The observed ETag is a weak one and the recorded one. -/
def WeakMatch (row : Row) (answer : Option HeadAnswer) : Prop :=
  ∃ tag, SameTag row answer tag ∧ isWeak tag = true

/-- What the specification asks of a gate: only a strong match resumes, and whatever else
    is observed leads to a review. -/
structure Gate.Strict (strong : Prop) (g : Gate) : Prop where
  resume : g = .resume → strong
  review : ¬ strong → ∃ decision observed, g = .review decision observed

section
variable {row : Row} {answer : Option HeadAnswer} {etag lastModified : Option String} {a : HeadAnswer}

theorem sameTag_unique {tag tag' : String} (h : SameTag row answer tag)
    (h' : SameTag row answer tag') : tag = tag' := Option.some.inj (h.2.1.symm.trans h'.2.1)

theorem truthy_some {s : String} : truthy (some s) = true ↔ s ≠ "" := by simp [truthy]

/-- Only ETags confirm. -/
theorem classify_confirmed : classifyRepresentation etag lastModified a = "confirmed_unchanged" ↔
    ∃ tag, tag ≠ "" ∧ etag = some tag ∧ a.etag = some tag := by
  unfold classifyRepresentation
  constructor
  · intro h
    split at h
    · next htags =>
      obtain ⟨hetag, -⟩ := Bool.and_eq_true_iff.1 htags
      split at h
      · next heq =>
        cases etag with
        | none => cases hetag
        | some tag => exact ⟨tag, truthy_some.1 hetag, rfl, heq.symm⟩
      · exact absurd h (by decide)
    · split at h
      · exact absurd h (by decide)
      · exact absurd h (by decide)
  · rintro ⟨tag, hne, rfl, heq⟩
    rw [heq, if_pos (by simp [truthy_some, hne]), if_pos rfl]

theorem found_of_sameTag {tag : String} (h : SameTag row answer tag) : Found answer := by
  obtain ⟨-, -, a, ha, hstatus, -⟩ := h
  exact ⟨a, ha, hstatus⟩

/-- A gate that is open where the recorded ETag is found again. -/
theorem strict_iff_of {g : Gate} (hresume : g = .resume ↔ ∃ tag, SameTag row answer tag)
    (hreview : (¬∃ tag, SameTag row answer tag) → ∃ decision observed, g = .review decision observed) :
    g.Strict (StrongMatch row answer) ↔ ¬ WeakMatch row answer := by
  constructor
  · rintro h ⟨tag, hsame, hweak⟩
    obtain ⟨tag', hsame', hstrong⟩ := h.resume (hresume.2 ⟨tag, hsame⟩)
    rw [sameTag_unique hsame hsame', hstrong] at hweak
    cases hweak
  · intro hweak
    refine ⟨fun hg => ?_, fun hstrong => hreview ?_⟩
    · obtain ⟨tag, hsame⟩ := hresume.1 hg
      exact ⟨tag, hsame, by simpa using fun hw => hweak ⟨tag, hsame, hw⟩⟩
    · rintro ⟨tag, hsame⟩
      cases hw : isWeak tag with
      | true => exact hweak ⟨tag, hsame, hw⟩
      | false => exact hstrong ⟨tag, hsame, hw⟩

/-! ## The gates -/

/-- The answer of a probe, if the item is there. -/
theorem sameTag_iff {tag : String} : SameTag row answer tag ↔ tag ≠ "" ∧ row.etag = some tag ∧
    ∃ a, answer.filter (fun a => a.status = 200 ∨ a.status = 206) = some a ∧ a.etag = some tag := by
  unfold SameTag
  refine and_congr_right fun _ => and_congr_right fun _ => ?_
  cases answer with
  | none => simp
  | some a =>
    by_cases hstatus : a.status = 200 ∨ a.status = 206
    · simp [Option.filter_some, hstatus]
    · simp [Option.filter_some, hstatus]

/-- Without a checksum and with a validator, the gate of a transfer looks at the ETags. -/
theorem transferGate_cases (hchecksum : truthy row.expectedSha256 = false)
    (hvalidator : truthy row.etag ∨ truthy row.lastModified) :
    (transferGate row answer = .resume ↔ ∃ tag, SameTag row answer tag) ∧
      ((¬∃ tag, SameTag row answer tag) →
        ∃ decision observed, transferGate row answer = .review decision observed) := by
  have hopen : (truthy row.expectedSha256 || !(truthy row.etag || truthy row.lastModified)) = false := by
    rcases hvalidator with h | h <;> simp [hchecksum, h]
  unfold transferGate
  simp only [hopen, Bool.false_eq_true, if_false, sameTag_iff]
  cases answer.filter fun a => decide (a.status = 200 ∨ a.status = 206) with
  | none => simp
  | some a =>
    dsimp only
    by_cases hconfirmed : classifyRepresentation row.etag row.lastModified a = "confirmed_unchanged"
    · obtain ⟨tag, hne, hrow, hobserved⟩ := classify_confirmed.1 hconfirmed
      rw [if_pos hconfirmed]
      exact ⟨iff_of_true rfl ⟨tag, hne, hrow, a, rfl, hobserved⟩,
        fun hno => absurd ⟨tag, hne, hrow, a, rfl, hobserved⟩ hno⟩
    · rw [if_neg hconfirmed]
      refine ⟨iff_of_false nofun ?_, fun _ => ⟨_, _, rfl⟩⟩
      rintro ⟨tag, hne, hrow, b, hb, hobserved⟩
      obtain rfl := Option.some.inj hb
      exact hconfirmed (classify_confirmed.2 ⟨tag, hne, hrow, hobserved⟩)

/-- Without a checksum, so does that of a recheck, once the item is found again. -/
theorem recheckGate_cases (hchecksum : truthy row.expectedSha256 = false) (hfound : Found answer) :
    (recheckGate row answer = .resume ↔ ∃ tag, SameTag row answer tag) ∧
      ((¬∃ tag, SameTag row answer tag) →
        ∃ decision observed, recheckGate row answer = .review decision observed) := by
  obtain ⟨a, ha⟩ := filter_found.1 hfound
  unfold recheckGate
  simp only [hchecksum, Bool.false_or, sameTag_iff, ha]
  by_cases hconfirmed : classifyRepresentation row.etag row.lastModified a = "confirmed_unchanged"
  · obtain ⟨tag, hne, hrow, hobserved⟩ := classify_confirmed.1 hconfirmed
    rw [if_pos (by simpa using hconfirmed)]
    exact ⟨iff_of_true rfl ⟨tag, hne, hrow, a, rfl, hobserved⟩,
      fun hno => absurd ⟨tag, hne, hrow, a, rfl, hobserved⟩ hno⟩
  · rw [if_neg (by simpa using hconfirmed)]
    refine ⟨iff_of_false nofun ?_, fun _ => ⟨_, _, rfl⟩⟩
    rintro ⟨tag, hne, hrow, b, hb, hobserved⟩
    obtain rfl := Option.some.inj hb
    exact hconfirmed (classify_confirmed.2 ⟨tag, hne, hrow, hobserved⟩)

theorem recheckGate_wait (hfound : ¬ Found answer) : recheckGate row answer = .wait := by
  have hnone : answer.filter (fun a => a.status = 200 ∨ a.status = 206) = none := by
    rw [Option.eq_none_iff_forall_ne_some]
    exact fun a ha => hfound (filter_found.2 ⟨a, ha⟩)
  unfold recheckGate
  rw [hnone]

end

/-! ## The candidate -/

/-- What stood at a path is an entry of the directory of the candidates, which is made where it is
    missing, and no bytes are lost. -/
structure Kept (candidates : Path) (t t' : FileTree) (p : Path) : Prop where
  entry : ∃ made, FileTree.Extends t made ∧ ∀ q n, t.locate p = .ok q → t.node q = some n →
    ∃ dir name, made.resolve candidates = .ok dir ∧ t'.node (dir ++ [name]) = some n
  data : t'.data = t.data

section
variable {t t' : FileTree} {p q : Path}

open Lib.FileTree (Extends)

theorem locate_extends (h : Extends t t') (hl : t.locate p = .ok q) : t'.locate p = .ok q := by
  unfold FileTree.locate at hl ⊢
  cases hp : p.getLast? with
  | none => rw [hp] at hl; exact hl
  | some name =>
    rw [hp] at hl
    dsimp only at hl ⊢
    split
    · next hname => rw [if_pos hname] at hl; exact FileTree.resolve_extends h hl
    · next hname =>
      rw [if_neg hname] at hl
      cases hr : t.resolve p.dropLast with
      | error e => rw [hr] at hl; cases hl
      | ok parent =>
        rw [hr] at hl
        rw [FileTree.resolve_extends h hr]
        dsimp only at hl ⊢
        split at hl
        · next hdir => rw [h.nodeAt hdir, if_pos rfl]; exact hl
        · cases hl

/-- A location is an entry of the directory that the rest of the path leads to. -/
theorem locate_concat {name : String} (hl : t.locate (p ++ [name]) = .ok q) (hname : name ≠ "..") :
    ∃ dir, t.resolve p = .ok dir ∧ q = dir ++ [name] := by
  unfold FileTree.locate at hl
  rw [List.getLast?_concat, List.dropLast_concat] at hl
  dsimp only at hl
  rw [if_neg hname] at hl
  cases hdir : t.resolve p with
  | error e =>
    rw [hdir] at hl
    cases hl
  | ok dir =>
    rw [hdir] at hl
    dsimp only at hl
    split at hl
    · exact ⟨dir, rfl, (Except.ok.inj hl).symm⟩
    · cases hl

/-- What is removed was there before. -/
theorem extends_put_none (t : FileTree) (q : Path) : Extends (t.put q none) t := by
  refine ⟨fun r n hn => ?_, rfl⟩
  by_cases hr : r = q
  · subst hr
    simp [FileTree.put] at hn
  · simpa [FileTree.put, Function.update_of_ne hr] using hn

theorem linkFree_eq_ok {c : Path} {cs : List Path} (h : linkFree t p cs = .ok (c, t')) :
    c ∈ cs ∧ t.link p c = .ok t' := by
  induction cs with
  | nil => cases h
  | cons d cs ih =>
    unfold linkFree at h
    split at h
    · exact (ih h).imp_left (List.mem_cons_of_mem d)
    · cases h
    · next hlink =>
      obtain ⟨rfl, rfl⟩ := Prod.mk.inj (Except.ok.inj h)
      exact ⟨List.mem_cons_self, hlink⟩

/-- A second entry of what stands at a path. -/
theorem link_eq_ok {dst : Path} {n : Lib.Node} (h : t.link p dst = .ok t') (hl : t.locate p = .ok q)
    (hn : t.node q = some n) : ∃ r, t.locate dst = .ok r ∧ t.nodeAt r = none ∧
      t' = t.put r (some n) ∧ dst.getLast? ≠ some ".." := by
  have hne : q ≠ [] := by
    rintro rfl
    unfold FileTree.link FileTree.lstat at h
    rw [hl] at h
    simp [FileTree.nodeAt] at h
  have hcreate : t.create dst n = .ok t' := by
    unfold FileTree.link FileTree.lstat at h
    rw [hl] at h
    simp only [FileTree.nodeAt, if_neg hne, hn] at h
    cases n <;> first | exact h | cases h
  obtain ⟨r, hr, hnone, rfl⟩ := FileTree.create_eq_ok hcreate
  refine ⟨r, hr, hnone, rfl, fun hlast => ?_⟩
  rw [FileTree.create, if_pos hlast] at hcreate
  cases hcreate

theorem unlink_eq_ok (h : t.unlink p = .ok t') (hl : t.locate p = .ok q) : t' = t.put q none := by
  unfold FileTree.unlink at h
  rw [hl] at h
  dsimp only at h
  split at h
  · cases h
  · cases h
  · exact (Except.ok.inj h).symm

theorem rename_data {src : Path} (h : t.rename src p = .ok t') : t'.data = t.data := by
  unfold FileTree.rename at h
  split at h
  · cases h
  · cases h
  · split at h
    · cases h
    · cases h
    · obtain rfl := Except.ok.inj h
      rfl

/-- An entry that is not overwritten is still there after a renaming, or it is what was renamed. -/
theorem rename_eq_ok {src : Path} {r : Path} {n : Lib.Node} (h : t.rename src p = .ok t')
    (hl : ∀ b, t.locate p = .ok b → b ≠ r) (hn : t.node r = some n) :
    t'.node r = some n ∨ ∃ b, t.locate p = .ok b ∧ t'.node b = some n := by
  unfold FileTree.rename at h
  cases ha : t.locate src with
  | error e => rw [ha] at h; cases h
  | ok a =>
    cases hb : t.locate p with
    | error e => rw [ha, hb] at h; cases h
    | ok b =>
      rw [ha, hb] at h
      dsimp only at h
      have hbr := hl b hb
      split at h
      · cases h
      · cases h
      · next m hdir hm =>
        obtain rfl := Except.ok.inj h
        have hroot : a ≠ [] := by
          rintro rfl
          rw [FileTree.nodeAt, if_pos rfl] at hm
          exact hdir (Option.some.inj hm).symm
        by_cases har : a = r
        · -- the entry itself is renamed
          have hab : a ≠ b := fun hab => hbr (hab ▸ har)
          have hmn : m = n := by
            rw [FileTree.nodeAt, if_neg hroot, har] at hm
            exact Option.some.inj (hm.symm.trans hn)
          refine .inr ⟨b, rfl, ?_⟩
          simp [FileTree.put, Function.update_of_ne (Ne.symm hab), hmn]
        · refine .inl ?_
          simp [FileTree.put, Function.update_of_ne (Ne.symm har), Function.update_of_ne (Ne.symm hbr),
            hn]

theorem ends_osChange_ok {A : Env → Prop} {w w' : World} {f : FileTree → Except Errno FileTree}
    {u : Unit} (h : (osChange f).Ends A w (.ok u) w') :
    ∃ fs, f w.fs = .ok fs ∧ w' = { w with fs } := by
  obtain ⟨fs, hf, rfl⟩ := ends_osCall_ok h
  cases hfs : f w.fs with
  | error errno => simp [hfs, Except.map] at hf
  | ok fs' =>
    simp only [hfs, Except.map, Except.ok.injEq, Prod.mk.injEq, true_and] at hf
    exact ⟨fs, by rw [hf], rfl⟩

theorem makeDirs_extends {A : Env → Prop} {w w' : World} {u : Unit}
    (h : (makeDirs p).Ends A w (.ok u) w') : Extends w.fs w'.fs := by
  obtain ⟨fs, hf, rfl⟩ := ends_osChange_ok h
  dsimp only
  generalize w.fs = t at hf ⊢
  generalize List.range p.length = is at hf
  induction is generalizing t with
  | nil =>
    obtain rfl := Except.ok.inj hf
    exact .refl _
  | cons i is ih =>
    rw [List.foldlM_cons] at hf
    dsimp only [bind, Except.bind] at hf
    cases hdir : t.isDir (p.take (i + 1)) with
    | true =>
      rw [hdir, if_pos rfl] at hf
      exact ih t hf
    | false =>
      rw [hdir, if_neg Bool.false_ne_true] at hf
      cases hmk : t.mkdir (p.take (i + 1)) with
      | error errno => rw [hmk] at hf; cases hf
      | ok t' =>
        rw [hmk] at hf
        exact (FileTree.mkdir_extends hmk).trans (ih t' hf)

/-- **A partial that becomes a candidate is kept.** -/
theorem kept_moveCandidate {cfg : Config} {A : Env → Prop} {w w' : World} {c : Path}
    (h : (moveCandidate cfg p).Ends A w (.ok c) w') : Kept cfg.candidates w.fs w'.fs p := by
  obtain ⟨_, w₁, hdirs, h⟩ | ⟨e, he, -⟩ := Prog.ends_bind.1 h
  swap
  · cases he
  obtain ⟨candidate, w₂, hlink, h⟩ | ⟨e, he, -⟩ := Prog.ends_bind.1 h
  swap
  · cases he
  obtain ⟨_, w₃, hunlink, h⟩ | ⟨e, he, -⟩ := Prog.ends_bind.1 h
  swap
  · cases he
  have hextends := makeDirs_extends hdirs
  obtain ⟨name, rfl, fs₂, hfs₂, rfl⟩ : ∃ name, candidate = cfg.candidates ++ [name] ∧
      ∃ fs₂, w₁.fs.link p (cfg.candidates ++ [name]) = .ok fs₂ ∧ w₂ = { w₁ with fs := fs₂ } := by
    obtain ⟨e, -, hlink⟩ := Prog.ends_call.1 hlink
    dsimp only at hlink
    split at hlink
    · cases hlink
    · cases hlink
    · next hfree =>
      obtain ⟨hc, rfl⟩ := Prod.mk.inj hlink
      obtain rfl := Except.ok.inj hc
      obtain ⟨hmem, hfs⟩ := linkFree_eq_ok hfree
      obtain ⟨uuid, -, rfl⟩ := List.mem_map.1 hmem
      exact ⟨_, rfl, _, hfs, rfl⟩
  have hlinked := FileTree.link_extends hfs₂
  obtain ⟨fs₃, hfs₃, rfl⟩ := ends_osChange_ok hunlink
  dsimp only at hfs₃
  obtain ⟨there, w₄, hthere, h⟩ | ⟨e, he, -⟩ := Prog.ends_bind.1 h
  swap
  · cases he
  obtain ⟨-, rfl⟩ := ends_osLook_ok hthere
  -- the entry after the link and the unlink of the partial
  have hmoved : ∀ q n, w.fs.locate p = .ok q → w.fs.node q = some n → Extends fs₃ fs₂ ∧
      ∃ dir, w₁.fs.resolve cfg.candidates = .ok dir ∧ fs₃.node (dir ++ [name]) = some n := by
    intro q n hl hn
    have hl₁ := locate_extends hextends hl
    have hn₁ := hextends.node q n hn
    obtain ⟨r, hr, hnone, rfl, hlast⟩ := link_eq_ok hfs₂ hl₁ hn₁
    obtain ⟨dir, hdir, rfl⟩ := locate_concat hr (by simpa using hlast)
    have hqr : q ≠ dir ++ [name] := by
      rintro rfl
      unfold FileTree.nodeAt at hnone
      split at hnone
      · cases hnone
      · rw [hn₁] at hnone
        cases hnone
    rw [unlink_eq_ok hfs₃ (locate_extends (FileTree.put_extends hnone) hl₁)]
    exact ⟨extends_put_none _ q, dir, hdir,
      by simp [FileTree.put, Function.update_of_ne (Ne.symm hqr)]⟩
  have hdata : fs₃.data = w.fs.data := by
    have hunlinked : fs₃.data = fs₂.data := by
      unfold FileTree.unlink at hfs₃
      split at hfs₃
      · cases hfs₃
      · split at hfs₃
        · cases hfs₃
        · cases hfs₃
        · obtain rfl := Except.ok.inj hfs₃
          rfl
    exact hunlinked.trans (hlinked.data.trans hextends.data)
  split at h
  · obtain ⟨_, w₅, hrename, hret⟩ | ⟨e, he, -⟩ := Prog.ends_bind.1 h
    swap
    · cases he
    obtain ⟨fs₅, hfs₅, rfl⟩ := ends_osChange_ok hrename
    obtain ⟨-, rfl⟩ := hret
    refine ⟨⟨w₁.fs, hextends, fun q n hl hn => ?_⟩, (rename_data hfs₅).trans hdata⟩
    obtain ⟨hless, dir, hdir, hr⟩ := hmoved q n hl hn
    -- the control file goes to another name in the same directory
    have hcontrol : controlFile (cfg.candidates ++ [name]) = cfg.candidates ++ [name ++ ".aria2"] := by
      simp [controlFile]
    have hsuffix : ".aria2".length = 6 := by decide
    have hother : ∀ b, fs₃.locate (controlFile (cfg.candidates ++ [name])) = .ok b →
        b = dir ++ [name ++ ".aria2"] := by
      intro b hb
      rw [hcontrol] at hb
      have hne : name ++ ".aria2" ≠ ".." := by
        intro heq
        have hlen := congrArg String.length heq
        rw [String.length_append, show "..".length = 2 by decide] at hlen
        omega
      obtain ⟨dir', hdir', rfl⟩ := locate_concat hb hne
      have hsame := (FileTree.resolve_extends hless hdir').symm.trans
        (FileTree.resolve_extends hlinked hdir)
      rw [Except.ok.inj hsame]
    have hfree : ∀ b, fs₃.locate (controlFile (cfg.candidates ++ [name])) = .ok b →
        b ≠ dir ++ [name] := by
      intro b hb hbr
      have heq : name ++ ".aria2" = name := by simpa using (hother b hb).symm.trans hbr
      have hlen := congrArg String.length heq
      rw [String.length_append] at hlen
      omega
    obtain hkept | ⟨b, hb, hkept⟩ := rename_eq_ok hfs₅ hfree hr
    · exact ⟨dir, name, hdir, hkept⟩
    · exact ⟨dir, _, hdir, hother b hb ▸ hkept⟩
  · obtain ⟨-, rfl⟩ := h
    refine ⟨⟨w₁.fs, hextends, fun q n hl hn => ?_⟩, hdata⟩
    obtain ⟨-, dir, hdir, hr⟩ := hmoved q n hl hn
    exact ⟨dir, name, hdir, hr⟩

end

/-! ## The two call sites -/

section
variable {cfg : Config} {w w' : World} {row : Row} {decision outcome x : String}
  {observed : Option HeadAnswer}

/-- Events and transitions leave the files alone. -/
theorem uses_provenanceEvent_fs (fs : FileTree) (eventType : String)
    (fields : Env → List (String × Provenance.PyVal)) :
    (provenanceEvent eventType fields).Uses fun w _ w' => w.fs = fs → w'.fs = fs := by
  refine Prog.uses_call fun w e => ?_
  split
  · exact id
  · split <;> exact id

theorem uses_transition_fs (fs : FileTree) (url : String) (status : Status) (detail : Option String)
    (fields : Env → Store.Update) :
    (transition cfg url status detail fields).Uses fun w _ w' => w.fs = fs → w'.fs = fs := by
  refine Prog.Uses.handle (Prog.uses_call fun w e => ?_) fun x => ?_
  · split <;> exact id
  · cases x with
    | sqlite =>
      refine Prog.Uses.bind (Prog.uses_change fun _ _ => id) fun _ => Prog.Uses.bind ?_ fun _ => trivial
      refine Prog.Uses.bind (Prog.uses_change fun _ _ => id) fun _ => ?_
      refine Prog.Uses.handle (uses_provenanceEvent_fs fs _ _) fun x => ?_
      cases x <;> trivial
    | os errno text | runtime text | failure f => trivial

theorem uses_candidateEvent_fs (fs : FileTree) (url : String) (staging candidate : Path)
    (sha256 : Option String) (reason : String) :
    (candidateEvent cfg url staging candidate sha256 reason).Uses
      fun w _ w' => w.fs = fs → w'.fs = fs := by
  unfold candidateEvent
  split
  · exact uses_provenanceEvent_fs fs _ _
  · trivial

/-- A review keeps the partial. -/
theorem kept_reviewed (h : (reviewed cfg row decision observed outcome).Ends Calm w (.ok x) w') :
    Kept cfg.candidates w.fs w'.fs (cfg.stagingOf row) := by
  obtain ⟨_, w₁, hreview, -, rfl⟩ | ⟨e, he, -⟩ := Prog.ends_bind.1 h
  swap
  · cases he
  obtain ⟨c, w₂, hcandidate, hreview⟩ | ⟨e, he, -⟩ := Prog.ends_bind.1 hreview
  swap
  · cases he
  have hkept := kept_moveCandidate hcandidate
  have hfs : w'.fs = w₂.fs := by
    refine Prog.Uses.ends (I := fun v => v.fs = w₂.fs) ?_ rfl hreview
    refine (uses_candidateEvent_fs w₂.fs _ _ _ _ _).bind fun _ => ?_
    exact (uses_transition_fs w₂.fs _ _ _ _).bind fun _ => Prog.uses_change fun _ _ => id
  exact hfs ▸ hkept

/-- **When the gates ask for a strong match**: with a partial, a recorded validator and no
    checksum, a transfer resumes on a strong match only and asks for a review otherwise,
    exactly if no weak ETag matches; so does a recheck, if the item is found again.  A
    review sends the item to `review_required` and keeps the partial as a candidate. -/
theorem strict_iff (h : cfg.AtGate w row) (hchecksum : truthy row.expectedSha256 = false)
    (hvalidator : truthy row.etag ∨ truthy row.lastModified) (answer : Option HeadAnswer) :
    (∃ g, cfg.TransferDoes w row answer g ∧
      (g.Strict (StrongMatch row answer) ↔ ¬ WeakMatch row answer)) ∧
    (row.stagingGeneration.isSome → ∃ g, cfg.RecheckDoes w row answer g ∧
      (g.Strict (StrongMatch row answer) ↔ ¬ WeakMatch row answer ∧ Found answer)) ∧
    ∀ (decision outcome : String) (observed : Option HeadAnswer) (w₁ w' : World) (x : String),
      (reviewed cfg row decision observed outcome).Ends Calm w₁ (.ok x) w' →
        (∃ r, w'.db.downloads.find? row.url = some r ∧ r.status = .reviewRequired ∧
          r.reviewCode = some (reviewCause decision)) ∧
          Kept cfg.candidates w₁.fs w'.fs (cfg.stagingOf row) := by
  refine ⟨?_, fun hgeneration => ?_, fun decision outcome observed w₁ w' x hend => ?_⟩
  · obtain ⟨hresume, hreview⟩ := @transferGate_cases row answer hchecksum hvalidator
    exact ⟨_, transferDoes h answer, strict_iff_of hresume hreview⟩
  · refine ⟨_, recheckDoes hgeneration h.hasPartial answer, ?_⟩
    by_cases hfound : Found answer
    · obtain ⟨hresume, hreview⟩ := recheckGate_cases hchecksum hfound
      rw [and_iff_left hfound]
      exact strict_iff_of hresume hreview
    · rw [recheckGate_wait hfound]
      refine iff_of_false (fun hstrict => ?_) fun hand => hfound hand.2
      have hno : ¬ StrongMatch row answer := fun ⟨_, hsame, _⟩ => hfound (found_of_sameTag hsame)
      obtain ⟨decision, observed, hreview⟩ := hstrict.review hno
      cases hreview
  · exact ⟨(ends_reviewed hend).2, kept_reviewed hend⟩

end

/-- A partial whose weak ETag is recorded. -/
def weakRow : Row := { stagedRow with etag := some "W/\"1\"" }

def weakAnswer : Option HeadAnswer := some { status := 200, etag := some "W/\"1\"" }

def weakEnv : Env := { head := weakAnswer, uuid := "0", engineEnd := { ok := true } }

theorem atGate_weakRow : stagedConfig.AtGate stagedWorld weakRow :=
  { staged_stagedWorld.atGate with }

theorem strict_iff_weakRow : ∃ g, stagedConfig.TransferDoes stagedWorld weakRow none g ∧
    (g.Strict (StrongMatch weakRow none) ↔ ¬ WeakMatch weakRow none) :=
  (strict_iff atGate_weakRow (by decide) (.inl (by decide)) none).1

/-- A weak ETag that is found again lets the engine go on with the partial. -/
theorem weak_resumes : ¬ ∀ (cfg : Config) (w : World) (row : Row) (answer : Option HeadAnswer),
    cfg.AtGate w row → truthy row.expectedSha256 = false →
      (truthy row.etag ∨ truthy row.lastModified) →
        ∃ g, cfg.TransferDoes w row answer g ∧ g.Strict (StrongMatch row answer) := by
  intro h
  obtain ⟨g, htransfer, hstrict⟩ := h stagedConfig stagedWorld weakRow weakAnswer atGate_weakRow
    (by decide) (.inl (by decide))
  have hweak : ¬ StrongMatch weakRow weakAnswer := by
    rintro ⟨tag, ⟨-, htag, -⟩, hstrong⟩
    obtain rfl := Option.some.inj htag
    exact absurd hstrong (by decide)
  obtain ⟨decision, observed, rfl⟩ := hstrict.review hweak
  obtain ⟨w₁, -, -, hbecomes⟩ := htransfer
  have hobserves : ∀ e ∈ List.replicate 60 weakEnv, Observes weakAnswer e := by
    intro e he
    obtain rfl := List.eq_of_mem_replicate he
    exact ⟨⟨rfl, rfl⟩, rfl⟩
  obtain ⟨⟨x, w'⟩, hrun, hx⟩ := Option.map_eq_some_iff.1
    (by decide : ((transfer stagedConfig weakRow).execute stagedWorld
      (List.replicate 60 weakEnv)).map Prod.fst = some (.ok "complete"))
  obtain rfl : x = .ok "complete" := hx
  have hend := Prog.ends_of_execute hobserves hrun
  obtain ⟨a, w₂, -, hret⟩ | ⟨e, he, -⟩ := Prog.ends_bind.1
    ((hbecomes.ends ⟨weakEnv, ⟨rfl, rfl⟩, rfl⟩).1 hend)
  · exact absurd hret.1 (by decide)
  · cases he

end TodDl.Controller
