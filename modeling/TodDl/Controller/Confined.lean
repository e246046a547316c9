/-
  The controller — every destination path is below the destination (tod-dl.py).

  `Confined`: a storage path and its target are strictly below the destination,
  with no component that leaves it.

  * `confined_resolvedStorageTarget`: the path chosen for an entry of a queue is
    confined exactly when a segment of its URL decodes to a name, or the
    destination alone is too long to be kept.
  * `confined_safeRemediationTarget`: a path that remediation returns is confined
    exactly when it keeps no component with a NUL.
-/
import TodDl.Controller.Queue
import TodDl.Controller.Startup
import TodDl.Controller.Steps

namespace TodDl.Controller

open Lib (Path FileTree Prog)
open Lib.Posix (SafeName components isAbsolute mem_components)
open Store (utf8 itemId)

/-! ## Decoded paths -/

namespace PurePath
variable {p q : PurePath} {texts : List String}

@[simp] theorem root_ofText (text : String) : (ofText text).root = isAbsolute text := rfl
@[simp] theorem parts_ofText (text : String) : (ofText text).parts = components text := rfl

theorem root_join : (p.join q).root = (p.root || q.root) := by
  unfold join
  split <;> simp [*]

theorem parts_join (h : q.root = false) : (p.join q).parts = p.parts ++ q.parts := by
  rw [join, if_neg (by simp [h])]

/-- What follows a path from the root is not lost, but the root stays. -/
theorem root_ofTexts : (ofTexts texts).root = texts.any isAbsolute := by
  suffices h : ∀ p : PurePath, (texts.foldl (fun p text => p.join (.ofText text)) p).root =
      (p.root || texts.any isAbsolute) from (h _).trans (Bool.false_or _)
  induction texts with
  | nil => simp
  | cons text texts ih =>
    intro p
    rw [List.foldl_cons, ih, root_join, List.any_cons, Bool.or_assoc, root_ofText]

theorem parts_ofTexts (h : ∀ text ∈ texts, isAbsolute text = false) :
    (ofTexts texts).parts = texts.flatMap components := by
  suffices h : ∀ p : PurePath, (texts.foldl (fun p text => p.join (.ofText text)) p).parts =
      p.parts ++ texts.flatMap components from (h _).trans (List.nil_append _)
  induction texts with
  | nil => simp
  | cons text texts ih =>
    intro p
    have htext : (ofText text).root = false := h text List.mem_cons_self
    rw [List.foldl_cons, ih fun t ht => h t (List.mem_cons_of_mem _ ht), parts_join htext,
      List.append_assoc, List.flatMap_cons, parts_ofText]

end PurePath

/-- The components of a path that is not unsafe. -/
theorem safeName_of_isUnsafeRelative {parts : List String} (h : isUnsafeRelative parts = false)
    (hplain : ∀ c ∈ parts, c ≠ "" ∧ c ≠ "." ∧ '/' ∉ c.toList) : ∀ c ∈ parts, SafeName c := by
  intro c hc
  obtain ⟨hempty, hdot, hslash⟩ := hplain c hc
  rw [isUnsafeRelative, List.any_eq_false] at h
  have hc' : ¬ (c = ".." ∨ '\x00' ∈ c.toList) := by simpa using h c hc
  exact ⟨hempty, hdot, fun hup => hc' (.inl hup), hslash, fun hnul => hc' (.inr hnul)⟩

theorem PurePath.safeName {p : PurePath} (h : p.isUnsafe = false) : ∀ c ∈ p.parts, SafeName c :=
  safeName_of_isUnsafeRelative (Bool.or_eq_false_iff.1 h).2 p.plain

/-- The components of the decoded path, segment by segment. -/
theorem parts_decodedPath {first rest : List ℕ} (h : (decodedPath first rest).isUnsafe = false) :
    (decodedPath first rest).parts = components (unquote (ofCodes first)) ++
      (components (ofCodes rest)).flatMap fun s => components (unquote s) := by
  have hroot : (decodedPath first rest).root = false := (Bool.or_eq_false_iff.1 h).1
  rw [decodedPath, PurePath.root_join, Bool.or_eq_false_iff] at hroot
  obtain ⟨-, htail⟩ := hroot
  have habs := htail
  rw [PurePath.root_ofTexts, List.any_eq_false] at habs
  -- an absolute text has the segment "/", which decodes to itself
  have hrel : isAbsolute (ofCodes rest) = false := by
    by_contra hne
    refine habs (unquote "/") (List.mem_map_of_mem ?_) (by decide)
    rw [PurePath.texts, PurePath.ofText, if_pos (by simpa using hne)]
    exact List.mem_cons_self
  have htexts : (PurePath.ofText (ofCodes rest)).texts = components (ofCodes rest) := by
    simp [PurePath.texts, PurePath.ofText, hrel]
  rw [decodedPath, PurePath.parts_join htail,
    PurePath.parts_ofTexts fun t ht => by simpa using habs t ht, htexts, List.flatMap_map,
    PurePath.parts_ofText]

/-- A segment decodes to more than empty components and `.`. -/
def NamesFile (url : String) : Prop :=
  ∃ s ∈ urlSegments url, components (unquote (ofCodes s)) ≠ []

instance (url : String) : Decidable (NamesFile url) := by unfold NamesFile; infer_instance

theorem splitOn_map {α β : Type*} [DecidableEq α] [DecidableEq β] {f : α → β} {a : α} {b : β}
    (h : ∀ x, f x = b ↔ x = a) (l : List α) : (l.map f).splitOn b = (l.splitOn a).map (·.map f) := by
  induction l with
  | nil => simp
  | cons x l ih =>
    rw [List.map_cons, List.splitOn_cons_eq_if_modifyHead, List.splitOn_cons_eq_if_modifyHead, ih]
    by_cases hx : x = a
    · simp [hx, (h a).2 rfl]
    · have hfx : f x ≠ b := fun he => hx ((h x).1 he)
      cases hs : l.splitOn a <;> simp [hx, hfx]

theorem ofNat_eq_slash (n : ℕ) : Char.ofNat n = '/' ↔ n = 47 := by
  constructor
  · intro h
    by_cases hvalid : n.isValidChar
    · have hval := congrArg Char.toNat h
      rw [show Char.ofNat n = Char.ofNatAux n hvalid from dif_pos hvalid] at hval
      exact hval
    · rw [show Char.ofNat n = _ from dif_neg hvalid] at h
      cases h
  · rintro rfl
    decide

/-- The components of a text of code points, before it is decoded. -/
theorem mem_components_ofCodes {codes : List ℕ} {c : String} : c ∈ components (ofCodes codes) ↔
    c ≠ "" ∧ c ≠ "." ∧ ∃ s ∈ codes.splitOn 47, c = ofCodes s := by
  rw [components, List.mem_filter, ofCodes, String.toList_ofList, splitOn_map ofNat_eq_slash]
  simp only [List.map_map, List.mem_map, Function.comp_apply, Bool.and_eq_true, decide_eq_true_eq]
  constructor
  · rintro ⟨⟨s, hs, rfl⟩, hempty, hdot⟩
    exact ⟨hempty, hdot, s, hs, rfl⟩
  · rintro ⟨hempty, hdot, s, hs, rfl⟩
    exact ⟨⟨s, hs, rfl⟩, hempty, hdot⟩

/-- Segments without a component decode to nothing. -/
theorem components_unquote {s : String} (h : s = "" ∨ s = ".") : components (unquote s) = [] := by
  rcases h with rfl | rfl <;> decide

/-- The decoded path of an accepted URL has a component exactly when it names a file. -/
theorem namesFile_iff {url : String} {path : PurePath} (h : relativePath url = .ok path) :
    NamesFile url ↔ path.parts ≠ [] := by
  obtain ⟨first, rest, hseg, rfl, hsafe⟩ := relativePath_eq_ok h
  rw [parts_decodedPath hsafe, NamesFile, hseg]
  simp only [List.mem_cons, exists_eq_or_imp, ne_eq, List.append_eq_nil_iff, List.flatMap_eq_nil_iff,
    not_and_or, not_forall, exists_prop]
  refine or_congr_right ⟨?_, ?_⟩
  · rintro ⟨s, hs, hne⟩
    refine ⟨ofCodes s, mem_components_ofCodes.2 ⟨?_, ?_, s, hs, rfl⟩, hne⟩
    · exact fun he => hne (components_unquote (.inl he))
    · exact fun he => hne (components_unquote (.inr he))
  · rintro ⟨c, hc, hne⟩
    obtain ⟨-, -, s, hs, rfl⟩ := mem_components_ofCodes.1 hc
    exact ⟨s, hs, hne⟩

/-! ## Storage paths -/

/-- A storage path and its target are strictly below the destination. -/
def Config.Confined (cfg : Config) (p : List String × Path) : Prop :=
  p.2 = cfg.destination ++ p.1 ∧ p.1 ≠ [] ∧ ∀ c ∈ p.1, SafeName c

/-- The destination alone is longer than a path may be. -/
def Config.longDestination (cfg : Config) : Prop :=
  3800 < (utf8 (pathText cfg.destination)).length

section
variable {cfg : Config} {rel : List String}

/-- A name in front of a digest is a name. -/
theorem safeName_digest {text : String} (h : SafeName text) (data : List UInt8) :
    SafeName (text ++ Lib.Sha256.hexdigest data) := by
  obtain ⟨hempty, hdot, hup, hslash, hnul⟩ := h
  have hdigest : ∀ c ∈ (Lib.Sha256.hexdigest data).toList, c ≠ '.' ∧ c ≠ '/' ∧ c ≠ '\x00' := by
    intro c hc
    have hall : ("0123456789abcdef".toList.all fun c => c ≠ '.' ∧ c ≠ '/' ∧ c ≠ '\x00') = true := by
      decide
    exact of_decide_eq_true (List.all_eq_true.1 hall c (Lib.Sha256.mem_hexdigest hc))
  -- what comes after a dot in `.` or `..` is no digest
  have hdots : ∀ dots : List Char, (∀ c ∈ dots, c = '.') → text.toList ≠ dots →
      (text ++ Lib.Sha256.hexdigest data).toList ≠ dots := by
    intro dots hall hne heq
    rw [String.toList_append] at heq
    cases hd : (Lib.Sha256.hexdigest data).toList with
    | nil => exact hne (by rw [← heq, hd, List.append_nil])
    | cons c cs =>
      have hc : c ∈ (Lib.Sha256.hexdigest data).toList := hd ▸ List.mem_cons_self
      exact (hdigest c hc).1 (hall c (heq ▸ List.mem_append_right _ hc))
  have hne : ∀ s : String, (∀ c ∈ s.toList, c = '.') → text ≠ s →
      text ++ Lib.Sha256.hexdigest data ≠ s := fun s hall hne heq =>
    hdots s.toList hall (fun h => hne (String.toList_inj.1 h)) (by rw [heq])
  refine ⟨hne _ (by simp) hempty, hne _ (by simp) hdot, hne _ (by simp) hup, ?_, ?_⟩
  all_goals
    rw [String.toList_append, List.mem_append, not_or]
    refine ⟨by assumption, fun hc => ?_⟩
    simpa using hdigest _ hc

theorem safeName_storageComponent {c : String} (h : SafeName c) : SafeName (cfg.storageComponent c) := by
  unfold Config.storageComponent
  split
  · exact safeName_digest (by decide) _
  · exact h

theorem safeName_storageRelative (h : ∀ c ∈ rel, SafeName c) :
    ∀ c ∈ cfg.storageRelative rel, SafeName c := by
  simp only [Config.storageRelative]
  split
  · rintro c hc
    rw [List.mem_singleton.1 hc]
    exact safeName_digest (by decide) _
  · intro c hc
    obtain ⟨d, hd, rfl⟩ := List.mem_map.1 hc
    exact safeName_storageComponent (h d hd)

theorem storageRelative_ne_nil : cfg.storageRelative rel ≠ [] ↔ rel ≠ [] ∨ cfg.longDestination := by
  simp only [Config.storageRelative, Config.longDestination]
  split
  · next hlong =>
    refine ⟨fun _ => ?_, fun _ => List.cons_ne_nil _ _⟩
    by_cases hrel : rel = []
    · subst hrel
      exact .inr (by simpa using hlong)
    · exact .inl hrel
  · next hshort =>
    rw [Ne, List.map_eq_nil_iff]
    refine ⟨.inl, ?_⟩
    rintro (hrel | hlong) rfl
    · exact hrel rfl
    · exact hshort (by simpa using hlong)

theorem safeName_legacy {url : String} {legacy : List String}
    (h : legacyRelativePath url = some legacy) : ∀ c ∈ legacy, SafeName c := by
  obtain ⟨first, rest, -, -, rfl, hsafe⟩ := legacyRelativePath_eq_some h
  exact safeName_of_isUnsafeRelative hsafe fun c hc =>
    (List.mem_append.1 hc).elim mem_components mem_components

/-- A text without a component decodes to none. -/
theorem components_segment {codes s : List ℕ} (h : components (ofCodes codes) = [])
    (hs : s ∈ codes.splitOn 47) : components (unquote (ofCodes s)) = [] := by
  refine components_unquote ?_
  by_contra hne
  have hmem := mem_components_ofCodes.2 ⟨fun he => hne (.inl he), fun he => hne (.inr he), s, hs, rfl⟩
  rw [h] at hmem
  cases hmem

/-- A URL whose legacy path is empty names no file. -/
theorem not_namesFile_of_legacy {url : String} (h : legacyRelativePath url = some []) :
    ¬ NamesFile url := by
  obtain ⟨first, rest, hseg, hslash, hnil, -⟩ := legacyRelativePath_eq_some h
  obtain ⟨hfirst, hrest⟩ := List.append_eq_nil_iff.1 hnil.symm
  rintro ⟨s, hs, hne⟩
  rw [hseg] at hs
  rcases List.mem_cons.1 hs with rfl | hs
  · refine hne (components_segment hfirst ?_)
    rw [List.splitOn_eq_singleton hslash]
    exact List.mem_singleton_self _
  · exact hne (components_segment hrest hs)

/-- **The path of an entry is confined** exactly when its URL names a file. -/
theorem confined_resolvedStorageTarget {url : String} {path : PurePath}
    (h : relativePath url = .ok path) (fs : FileTree) :
    cfg.Confined (cfg.resolvedStorageTarget fs path.parts url) ↔
      NamesFile url ∨ cfg.longDestination := by
  obtain ⟨-, -, -, -, hsafe⟩ := relativePath_eq_ok h
  have hparts : ∀ c ∈ path.parts, SafeName c := PurePath.safeName hsafe
  have hown : cfg.Confined (cfg.storageRelative path.parts,
      cfg.destination ++ cfg.storageRelative path.parts) ↔ NamesFile url ∨ cfg.longDestination := by
    rw [namesFile_iff h, ← storageRelative_ne_nil]
    exact ⟨fun hc => hc.2.1, fun hne => ⟨rfl, hne, safeName_storageRelative hparts⟩⟩
  simp only [Config.resolvedStorageTarget]
  split
  · exact hown
  · next hmissing =>
    split
    · exact hown
    · next legacy hlegacy =>
      split
      · next hfound =>
        -- the legacy path is below the destination, which exists then
        have hdest := FileTree.pathExists_of_append hfound.2
        have hnil : cfg.storageRelative path.parts ≠ [] := fun hnil => by
          rw [hnil, List.append_nil] at hmissing
          exact hmissing hdest
        rw [storageRelative_ne_nil, ← namesFile_iff h] at hnil
        have hlegacy : cfg.storageRelative legacy ≠ [] := storageRelative_ne_nil.2 <|
          hnil.imp_left fun hname hempty => not_namesFile_of_legacy (hempty ▸ hlegacy) hname
        exact ⟨fun _ => hnil, fun _ => ⟨rfl, hlegacy, safeName_storageRelative (safeName_legacy ‹_›)⟩⟩
      · exact hown

/-! ## Remediation -/

/-- A component with a NUL stays only if it, and the path, is short enough. -/
def Config.KeepsNoNul (cfg : Config) (text : String) : Prop :=
  3800 < (utf8 (pathText (cfg.destination ++ (components text).map cfg.storageComponent))).length ∨
    ∀ c ∈ components text, '\x00' ∈ c.toList → cfg.safeComponentBytes < (utf8 c).length

theorem safeName_storageComponent_iff {c : String} (h : c ≠ "" ∧ c ≠ "." ∧ '/' ∉ c.toList)
    (hup : c ≠ "..") : SafeName (cfg.storageComponent c) ↔
      ('\x00' ∈ c.toList → cfg.safeComponentBytes < (utf8 c).length) := by
  unfold Config.storageComponent
  split
  · next hlong => exact ⟨fun _ _ => hlong, fun _ => safeName_digest (by decide) _⟩
  · next hshort =>
    exact ⟨fun hsafe hnul => absurd hnul hsafe.2.2.2.2,
      fun hnul => ⟨h.1, h.2.1, hup, h.2.2, fun hmem => hshort (hnul hmem)⟩⟩

/-- **A path that remediation returns is confined** exactly when it keeps no NUL. -/
theorem confined_safeRemediationTarget {A : Env → Prop} {text : String} {p : List String × Path}
    {w w' : World} (h : (safeRemediationTarget cfg text).Ends A w (.ok p) w') :
    cfg.Confined p ↔ cfg.KeepsNoNul text := by
  simp only [safeRemediationTarget] at h
  split at h
  · obtain ⟨hx, -⟩ := h
    cases hx
  · next hchecks =>
    obtain ⟨hx, -⟩ := h
    obtain rfl := Except.ok.inj hx
    simp only [Bool.or_eq_true, not_or] at hchecks
    obtain ⟨⟨-, hne⟩, hup⟩ := hchecks
    have hne : components text ≠ [] := by simpa using hne
    have hup : ".." ∉ components text := by simpa using hup
    have hnil : cfg.storageRelative (components text) ≠ [] := storageRelative_ne_nil.2 (.inl hne)
    have hnames : (∀ c ∈ cfg.storageRelative (components text), SafeName c) ↔ cfg.KeepsNoNul text := by
      simp only [Config.storageRelative, Config.KeepsNoNul]
      split
      · next hlong =>
        refine ⟨fun _ => .inl hlong, fun _ c hc => ?_⟩
        rw [List.mem_singleton.1 hc]
        exact safeName_digest (by decide) _
      · next hshort =>
        rw [or_iff_right hshort, List.forall_mem_map]
        refine forall₂_congr fun c hc => ?_
        exact safeName_storageComponent_iff (mem_components hc) fun h => hup (h ▸ hc)
    exact ⟨fun hc => hnames.1 hc.2.2, fun hk => ⟨rfl, hnil, hnames.2 hk⟩⟩

end

/-- The paths chosen for the entries of queues, and those remediation returns, are
    strictly below the destination in exactly these cases. -/
theorem confined_iff (cfg : Config) :
    (∀ (files : List (List String)) (fs : FileTree), ∀ entry ∈ (readQueues files).entries,
      (cfg.Confined (cfg.resolvedStorageTarget fs entry.rel entry.url) ↔
        NamesFile entry.url ∨ cfg.longDestination)) ∧
    ∀ (text : String) (p : List String × Path) (w w' : World),
      (safeRemediationTarget cfg text).Ends (fun _ => True) w (.ok p) w' →
        (cfg.Confined p ↔ cfg.KeepsNoNul text) := by
  constructor
  · intro files fs entry he
    obtain ⟨path, hpath, hrel⟩ := (valid_readQueues files).path entry he
    rw [hrel]
    exact confined_resolvedStorageTarget hpath fs
  · exact fun _ _ _ _ h => confined_safeRemediationTarget h

/-! ## A URL of dots -/

/-- An empty destination. -/
def emptyDestination : Config where
  runId := "run"
  destination := ["dest"]
  state := ["state"]

/-- No files at all. -/
def noFiles : FileTree := ⟨fun _ => none, fun _ => [], 4096⟩

theorem confined_iff_named :
    (readQueues [["https://host/set/a.bin"]]).entries.length = 1 ∧
    (∀ entry ∈ (readQueues [["https://host/set/a.bin"]]).entries,
      emptyDestination.Confined
        (emptyDestination.resolvedStorageTarget noFiles entry.rel entry.url)) ∧
    emptyDestination.Confined (["set", "a.bin"], ["dest", "set", "a.bin"]) := by
  have hnames : ∀ entry ∈ (readQueues [["https://host/set/a.bin"]]).entries,
    NamesFile entry.url := by decide
  refine ⟨by decide, fun entry he => ?_, ?_⟩
  · exact ((confined_iff emptyDestination).1 _ noFiles entry he).2 (.inl (hnames entry he))
  · refine ((confined_iff emptyDestination).2 "set/a.bin" _ { fs := noFiles } { fs := noFiles } ?_).2
      (.inr (by decide))
    exact ⟨by decide, rfl⟩

/-- The entry of a URL whose segments are dots is the destination itself. -/
theorem dots_unconfined : ¬ ∀ (cfg : Config) (files : List (List String)) (fs : FileTree),
    ∀ entry ∈ (readQueues files).entries,
      cfg.Confined (cfg.resolvedStorageTarget fs entry.rel entry.url) := by
  intro h
  have hread : (readQueues [["http://host/./."]]).entries.map (·.url) = ["http://host/./."] := by
    decide
  obtain ⟨entry, he, hurl⟩ := List.mem_map.1 (hread ▸ List.mem_singleton_self "http://host/./.")
  obtain ⟨path, hpath, hrel⟩ := (valid_readQueues _).path entry he
  have hconfined := h emptyDestination _ noFiles entry he
  rw [hrel, confined_resolvedStorageTarget hpath, hurl] at hconfined
  exact absurd hconfined (by unfold Config.longDestination; decide)

end TodDl.Controller
