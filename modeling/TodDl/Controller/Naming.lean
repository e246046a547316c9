/-
  The controller — different items have different paths (tod-dl.py, `relative_path`,
  `storage_relative`).

  * `parts_eq_iff`: the components of the path of a URL are its decoded segments, one
    for one, exactly if no segment decodes to a text with a slash or to a dot.
  * `storageRelative_eq_iff`: two paths are stored as one exactly if they are equal or
    one of them spells out the digest that stands for the other.
-/
import TodDl.Controller.Confined

namespace TodDl.Controller

open Lib (Path FileTree)
open Lib.Posix (components SafeName asPosix mem_components)
open Store (utf8 itemId)

/-! ## Segments -/

/-- The segments of the path of a URL that are neither empty nor a dot, decoded. -/
def decodedSegments (url : String) : List String :=
  (((urlSegments url).map ofCodes).filter fun s => s ≠ "" && s ≠ ".").map unquote

/-- No segment decodes to more than one component, or to none. -/
def KeepsSegments (url : String) : Prop :=
  ∀ s ∈ decodedSegments url, '/' ∉ s.toList ∧ s ≠ "."

instance (url : String) : Decidable (KeepsSegments url) := by unfold KeepsSegments; infer_instance

theorem components_ofCodes (codes : List ℕ) : components (ofCodes codes) =
    ((codes.splitOn 47).map ofCodes).filter fun s => s ≠ "" && s ≠ "." := by
  rw [components, ofCodes, String.toList_ofList, splitOn_map ofNat_eq_slash, List.map_map]
  rfl

/-- What is pending always gives a character. -/
theorem decodeRuns_some_ne_nil (runs : List (ℕ ⊕ Char)) : ∀ p, decodeRuns (some p) runs ≠ [] := by
  induction runs with
  | nil => exact fun p => List.cons_ne_nil _ _
  | cons run runs ih =>
    intro p
    cases run with
    | inr c => exact List.cons_ne_nil _ _
    | inl b =>
      simp only [decodeRuns, nextByte]
      split
      · split
        · exact List.cons_ne_nil _ _
        · exact ih _
      · exact List.cons_ne_nil _ _

theorem decodeRuns_ne_nil {runs : List (ℕ ⊕ Char)} (h : runs ≠ []) : decodeRuns none runs ≠ [] := by
  cases runs with
  | nil => exact absurd rfl h
  | cons run runs =>
    cases run with
    | inr c => exact List.cons_ne_nil _ _
    | inl b =>
      simp only [decodeRuns, startByte]
      split
      · exact List.cons_ne_nil _ _
      · split
        · exact List.cons_ne_nil _ _
        · exact decodeRuns_some_ne_nil _ _

/-- Only the empty text decodes to the empty text. -/
theorem unquote_ne_empty {s : String} (h : s ≠ "") : unquote s ≠ "" := by
  obtain ⟨c, cs, hs⟩ := List.exists_cons_of_ne_nil (show s.toList ≠ [] by simpa using h)
  have hbytes : percentBytes 0 s.toList ≠ [] := by
    rw [hs, percentBytes]
    split
    · exact List.cons_ne_nil _ _
    · split
      · exact List.cons_ne_nil _ _
      · split <;> exact List.cons_ne_nil _ _
  intro hempty
  exact decodeRuns_ne_nil hbytes (String.ofList_eq_empty_iff.1 hempty)

/-- The components of the path are those of the decoded segments. -/
theorem parts_relativePath {url : String} {path : PurePath} (h : relativePath url = .ok path) :
    path.parts = (decodedSegments url).flatMap components := by
  obtain ⟨first, rest, hseg, rfl, hsafe⟩ := relativePath_eq_ok h
  rw [parts_decodedPath hsafe, decodedSegments, hseg, List.map_cons, List.filter_cons,
    components_ofCodes, List.flatMap_map]
  split
  · rw [List.flatMap_cons]
  · next hdrop =>
    have hnil : components (unquote (ofCodes first)) = [] := by
      refine components_unquote ?_
      by_contra hne
      exact hdrop (by simpa [not_or] using hne)
    rw [hnil, List.nil_append]

/-- A text is its only component. -/
theorem components_eq_singleton {s : String} :
    components s = [s] ↔ s ≠ "" ∧ s ≠ "." ∧ '/' ∉ s.toList := by
  constructor
  · intro h
    exact mem_components (h ▸ List.mem_singleton_self s)
  · rintro ⟨hempty, hdot, hslash⟩
    rw [components, List.splitOn_eq_singleton hslash]
    simp [hempty, hdot]

theorem flatMap_components_eq {texts : List String} : texts.flatMap components = texts ↔
    ∀ s ∈ texts, s ≠ "" ∧ s ≠ "." ∧ '/' ∉ s.toList := by
  constructor
  · intro h s hs
    rw [← h, List.mem_flatMap] at hs
    obtain ⟨t, -, hs⟩ := hs
    exact mem_components hs
  · intro h
    induction texts with
    | nil => rfl
    | cons s texts ih =>
      have hs := components_eq_singleton.2 (h s List.mem_cons_self)
      rw [List.flatMap_cons, hs, ih fun t ht => h t (List.mem_cons_of_mem _ ht)]
      rfl

/-- **One component per segment**, exactly if each segment decodes to one. -/
theorem parts_eq_iff {url : String} {path : PurePath} (h : relativePath url = .ok path) :
    path.parts = decodedSegments url ↔ KeepsSegments url := by
  rw [parts_relativePath h, flatMap_components_eq]
  refine forall₂_congr fun s hs => ?_
  obtain ⟨raw, hraw, rfl⟩ := List.mem_map.1 hs
  have hne : raw ≠ "" := by
    have hkeep := (List.mem_filter.1 hraw).2
    simp only [Bool.and_eq_true, decide_eq_true_eq] at hkeep
    exact hkeep.1
  constructor
  · rintro ⟨-, hdot, hslash⟩
    exact ⟨hslash, hdot⟩
  · rintro ⟨hslash, hdot⟩
    exact ⟨unquote_ne_empty hne, hdot, hslash⟩

/-- The path of a URL has the structure of the URL. -/
def SamePath (url : String) (path : PurePath) : Prop :=
  path.root = false ∧ path.parts = decodedSegments url

theorem root_relativePath {url : String} {path : PurePath} (h : relativePath url = .ok path) :
    path.root = false := by
  obtain ⟨-, -, -, -, hsafe⟩ := relativePath_eq_ok h
  exact (Bool.or_eq_false_iff.1 hsafe).1

/-- Paths of URLs are equal if their components are. -/
theorem path_eq {url url' : String} {path path' : PurePath} (h : relativePath url = .ok path)
    (h' : relativePath url' = .ok path') (hparts : path.parts = path'.parts) : path = path' := by
  have hroot := (root_relativePath h).trans (root_relativePath h').symm
  cases path with
  | mk root parts plain =>
    cases path' with
    | mk root' parts' plain' =>
      obtain rfl : root = root' := hroot
      obtain rfl : parts = parts' := hparts
      rfl

theorem exists_path {url : String} {parts : List String}
    (h : (relativePath url).toOption.map PurePath.parts = some parts) :
    ∃ path, relativePath url = .ok path ∧ path.parts = parts := by
  cases hpath : relativePath url with
  | error e =>
    rw [hpath] at h
    cases h
  | ok path =>
    rw [hpath] at h
    exact ⟨path, rfl, Option.some.inj h⟩

/-- **When encoding keeps the structure**: the paths of two URLs are their decoded segments,
    and differ where these do, exactly if no segment of either decodes to a text with a
    slash or to a dot. -/
theorem segments_iff {url url' : String} {path path' : PurePath} (h : relativePath url = .ok path)
    (h' : relativePath url' = .ok path') :
    (SamePath url path ∧ SamePath url' path' ∧
      (decodedSegments url ≠ decodedSegments url' → path ≠ path')) ↔
    KeepsSegments url ∧ KeepsSegments url' := by
  constructor
  · rintro ⟨⟨-, hparts⟩, ⟨-, hparts'⟩, -⟩
    exact ⟨(parts_eq_iff h).1 hparts, (parts_eq_iff h').1 hparts'⟩
  · rintro ⟨hkeeps, hkeeps'⟩
    have hparts := (parts_eq_iff h).2 hkeeps
    have hparts' := (parts_eq_iff h').2 hkeeps'
    refine ⟨⟨root_relativePath h, hparts⟩, ⟨root_relativePath h', hparts'⟩, fun hne heq => hne ?_⟩
    rw [← hparts, ← hparts', heq]

theorem segments_iff_named : ∃ path path', relativePath "http://h/set/a%20b" = .ok path ∧
    relativePath "http://h/set/c" = .ok path' ∧ path ≠ path' := by
  obtain ⟨path, hpath, -⟩ := @exists_path "http://h/set/a%20b" ["set", "a b"] (by decide)
  obtain ⟨path', hpath', -⟩ := @exists_path "http://h/set/c" ["set", "c"] (by decide)
  obtain ⟨-, -, hne⟩ := (segments_iff hpath hpath').2 ⟨by decide, by decide +kernel⟩
  exact ⟨path, path', hpath, hpath', hne (by decide)⟩

/-- An encoded slash separates: `a%2Fb` and `a/b` have one path. -/
theorem slash_separates : ¬ ∀ (url url' : String) (path path' : PurePath),
    relativePath url = .ok path → relativePath url' = .ok path' →
      SamePath url path ∧ SamePath url' path' ∧
        (decodedSegments url ≠ decodedSegments url' → path ≠ path') := by
  intro h
  obtain ⟨path, hpath, hparts⟩ :=
    @exists_path "http://h/set/a%2Fb" ["set", "a", "b"] (by decide)
  obtain ⟨path', hpath', hparts'⟩ :=
    @exists_path "http://h/set/a/b" ["set", "a", "b"] (by decide)
  obtain ⟨-, -, hne⟩ := h _ _ _ _ hpath hpath'
  exact hne (by decide) (path_eq hpath hpath' (hparts.trans hparts'.symm))

/-! ## Substitutes -/

section
variable {cfg : Config} {p q : List String} {a b : String}

/-- A component that is replaced by its digest. -/
def Config.LongName (cfg : Config) (c : String) : Prop := cfg.safeComponentBytes < (utf8 c).length

/-- A path that is replaced by its digest. -/
def Config.LongPath (cfg : Config) (rel : List String) : Prop :=
  3800 < (utf8 (pathText (cfg.destination ++ rel.map cfg.storageComponent))).length

instance (cfg : Config) (c : String) : Decidable (cfg.LongName c) := by
  unfold Config.LongName; infer_instance

instance (cfg : Config) (rel : List String) : Decidable (cfg.LongPath rel) := by
  unfold Config.LongPath; infer_instance

/-- The second name spells out what replaces the first. -/
def Config.PosesAsName (cfg : Config) (a b : String) : Prop :=
  cfg.LongName a ∧ ¬ cfg.LongName b ∧ b = "__longname__" ++ itemId a

/-- The second path spells out what replaces the first. -/
def Config.PosesAsPath (cfg : Config) (p q : List String) : Prop :=
  cfg.LongPath p ∧ ¬ cfg.LongPath q ∧ q = ["__longpath__" ++ itemId (asPosix p)] ∧
    ¬ cfg.LongName ("__longpath__" ++ itemId (asPosix p))

/-- One of two paths spells out what replaces the other, or a component of the other. -/
def Config.Poses (cfg : Config) (p q : List String) : Prop :=
  cfg.PosesAsPath p q ∨ cfg.PosesAsPath q p ∨
    p ≠ q ∧ ¬ cfg.LongPath p ∧ ¬ cfg.LongPath q ∧
      List.Forall₂ (fun a b => a = b ∨ cfg.PosesAsName a b ∨ cfg.PosesAsName b a) p q

/-- The texts of a path that are hashed. -/
def Config.hashedTexts (cfg : Config) (rel : List String) : List String :=
  (if cfg.LongPath rel then [asPosix rel] else []) ++ rel.filter fun c => cfg.LongName c

theorem storageComponent_long (h : cfg.LongName a) :
    cfg.storageComponent a = "__longname__" ++ itemId a := if_pos h

theorem storageComponent_short (h : ¬ cfg.LongName a) : cfg.storageComponent a = a := if_neg h

theorem storageRelative_long (h : cfg.LongPath p) :
    cfg.storageRelative p = ["__longpath__" ++ itemId (asPosix p)] := if_pos h

theorem storageRelative_short (h : ¬ cfg.LongPath p) :
    cfg.storageRelative p = p.map cfg.storageComponent := if_neg h

theorem mem_hashedTexts_name (ha : a ∈ p) (h : cfg.LongName a) : a ∈ cfg.hashedTexts p :=
  List.mem_append_right _ (List.mem_filter.2 ⟨ha, decide_eq_true h⟩)

theorem mem_hashedTexts_path (h : cfg.LongPath p) : asPosix p ∈ cfg.hashedTexts p := by
  rw [Config.hashedTexts, if_pos h]
  exact List.mem_append_left _ (List.mem_singleton_self _)

theorem longName_ne_longPath (x y : String) : "__longname__" ++ x ≠ "__longpath__" ++ y := by
  intro h
  have htake := congrArg (fun s : String => s.toList.take 12) h
  simp only [String.toList_append] at htake
  rw [List.take_append_of_le_length (by decide), List.take_append_of_le_length (by decide)] at htake
  exact absurd htake (by decide)

theorem append_right_inj_string {t x y : String} (h : t ++ x = t ++ y) : x = y := by
  have hlist := congrArg String.toList h
  rw [String.toList_append, String.toList_append] at hlist
  exact String.toList_inj.1 (List.append_cancel_left hlist)

theorem asPosix_inj (hp : ∀ c ∈ p, SafeName c) (hq : ∀ c ∈ q, SafeName c)
    (h : asPosix p = asPosix q) : p = q := by
  have hcomponents : ∀ {l : List String}, (∀ c ∈ l, SafeName c) → components (asPosix l) = l := by
    intro l hl
    by_cases hnil : l = []
    · subst hnil
      decide
    · exact Lib.Posix.components_asPosix hnil hl
  rw [← hcomponents hp, h, hcomponents hq]

/-- Two components are stored as one exactly if they are equal or one poses as the other. -/
theorem storageComponent_eq_iff
    (hdigest : cfg.LongName a → cfg.LongName b → itemId a = itemId b → a = b) :
    cfg.storageComponent a = cfg.storageComponent b ↔
      a = b ∨ cfg.PosesAsName a b ∨ cfg.PosesAsName b a := by
  unfold Config.PosesAsName
  by_cases ha : cfg.LongName a
  · by_cases hb : cfg.LongName b
    · rw [storageComponent_long ha, storageComponent_long hb]
      refine ⟨fun h => .inl (hdigest ha hb (append_right_inj_string h)), ?_⟩
      rintro (rfl | ⟨-, hno, -⟩ | ⟨-, hno, -⟩)
      · rfl
      · exact absurd hb hno
      · exact absurd ha hno
    · rw [storageComponent_long ha, storageComponent_short hb]
      refine ⟨fun h => .inr (.inl ⟨ha, hb, h.symm⟩), ?_⟩
      rintro (rfl | ⟨-, -, h⟩ | ⟨hno, -⟩)
      · exact absurd ha hb
      · exact h.symm
      · exact absurd hno hb
  · by_cases hb : cfg.LongName b
    · rw [storageComponent_short ha, storageComponent_long hb]
      refine ⟨fun h => .inr (.inr ⟨hb, ha, h⟩), ?_⟩
      rintro (rfl | ⟨hno, -⟩ | ⟨-, -, h⟩)
      · exact absurd hb ha
      · exact absurd hno ha
      · exact h
    · rw [storageComponent_short ha, storageComponent_short hb]
      refine ⟨.inl, ?_⟩
      rintro (h | ⟨hno, -⟩ | ⟨hno, -⟩)
      · exact h
      · exact absurd hno ha
      · exact absurd hno hb

/-- So are two lists of components. -/
theorem map_storageComponent_eq_iff (hdigest : ∀ a ∈ p, ∀ b ∈ q, cfg.LongName a → cfg.LongName b →
      itemId a = itemId b → a = b) :
    p.map cfg.storageComponent = q.map cfg.storageComponent ↔
      List.Forall₂ (fun a b => a = b ∨ cfg.PosesAsName a b ∨ cfg.PosesAsName b a) p q := by
  rw [← List.forall₂_eq_eq_eq, List.forall₂_map_left_iff, List.forall₂_map_right_iff]
  constructor
  · intro h
    refine List.forall₂_iff_get.2 ⟨h.length_eq, fun i hp hq => ?_⟩
    have hdigest := hdigest _ (List.get_mem p ⟨i, hp⟩) _ (List.get_mem q ⟨i, hq⟩)
    exact (storageComponent_eq_iff hdigest).1 (h.get hp hq)
  · intro h
    refine List.forall₂_iff_get.2 ⟨h.length_eq, fun i hp hq => ?_⟩
    have hdigest := hdigest _ (List.get_mem p ⟨i, hp⟩) _ (List.get_mem q ⟨i, hq⟩)
    exact (storageComponent_eq_iff hdigest).2 (h.get hp hq)

/-- What replaces a path is stored for a short one only if that spells it out. -/
theorem storageRelative_eq_path (hp : cfg.LongPath p) (hq : ¬ cfg.LongPath q) :
    cfg.storageRelative p = cfg.storageRelative q ↔ cfg.PosesAsPath p q := by
  rw [storageRelative_long hp, storageRelative_short hq]
  constructor
  · intro h
    obtain ⟨c, hc, hstored⟩ := List.map_eq_singleton_iff.1 h.symm
    by_cases hlong : cfg.LongName c
    · rw [storageComponent_long hlong] at hstored
      exact absurd hstored (longName_ne_longPath _ _)
    · rw [storageComponent_short hlong] at hstored
      exact ⟨hp, hq, hstored ▸ hc, hstored ▸ hlong⟩
  · rintro ⟨-, -, rfl, hlong⟩
    rw [List.map_singleton, storageComponent_short hlong]

/-- **Two paths are stored as one** exactly if they are equal or one poses as the other. -/
theorem storageRelative_eq_iff (hp : ∀ c ∈ p, SafeName c) (hq : ∀ c ∈ q, SafeName c)
    (hdigest : Set.InjOn itemId {t | t ∈ cfg.hashedTexts p ++ cfg.hashedTexts q}) :
    cfg.storageRelative p = cfg.storageRelative q ↔ p = q ∨ cfg.Poses p q := by
  by_cases hlong : cfg.LongPath p
  · by_cases hlong' : cfg.LongPath q
    · rw [storageRelative_long hlong, storageRelative_long hlong']
      constructor
      · intro h
        have hid := append_right_inj_string (List.cons.inj h).1
        exact .inl (asPosix_inj hp hq (hdigest (List.mem_append_left _ (mem_hashedTexts_path hlong))
          (List.mem_append_right _ (mem_hashedTexts_path hlong')) hid))
      · rintro (rfl | ⟨-, hno, -⟩ | ⟨-, hno, -⟩ | ⟨-, hno, -⟩)
        · rfl
        · exact absurd hlong' hno
        · exact absurd hlong hno
        · exact absurd hlong hno
    · rw [storageRelative_eq_path hlong hlong']
      refine ⟨fun h => .inr (.inl h), ?_⟩
      rintro (rfl | h | ⟨hno, -⟩ | ⟨-, hno, -⟩)
      · exact absurd hlong hlong'
      · exact h
      · exact absurd hno hlong'
      · exact absurd hlong hno
  · by_cases hlong' : cfg.LongPath q
    · rw [eq_comm, storageRelative_eq_path hlong' hlong]
      refine ⟨fun h => .inr (.inr (.inl h)), ?_⟩
      rintro (rfl | ⟨hno, -⟩ | h | ⟨-, -, hno, -⟩)
      · exact absurd hlong' hlong
      · exact absurd hno hlong
      · exact h
      · exact absurd hlong' hno
    · have hnames := @map_storageComponent_eq_iff cfg p q fun a ha b hb hlong hlong' =>
        hdigest (List.mem_append_left _ (mem_hashedTexts_name ha hlong))
          (List.mem_append_right _ (mem_hashedTexts_name hb hlong'))
      rw [storageRelative_short hlong, storageRelative_short hlong', hnames]
      constructor
      · intro h
        by_cases heq : p = q
        · exact .inl heq
        · exact .inr (.inr (.inr ⟨heq, hlong, hlong', h⟩))
      · rintro (rfl | ⟨hno, -⟩ | ⟨hno, -⟩ | ⟨-, -, -, h⟩)
        · exact List.forall₂_same.2 fun _ _ => .inl rfl
        · exact absurd hno hlong
        · exact absurd hno hlong'
        · exact h

/-! ## Targets -/

/-- The path whose storage path `resolved_storage_target` returns. -/
def Config.chosenPath (cfg : Config) (fs : FileTree) (rel : List String) (url : String) :
    List String :=
  if fs.pathExists (cfg.destination ++ cfg.storageRelative rel) then rel
  else match legacyRelativePath url with
    | none => rel
    | some legacy =>
      if legacy ≠ rel ∧ fs.pathExists (cfg.destination ++ cfg.storageRelative legacy) then legacy
      else rel

theorem resolvedStorageTarget_eq (fs : FileTree) (rel : List String) (url : String) :
    cfg.resolvedStorageTarget fs rel url = (cfg.storageRelative (cfg.chosenPath fs rel url),
      cfg.destination ++ cfg.storageRelative (cfg.chosenPath fs rel url)) := by
  simp only [Config.resolvedStorageTarget, Config.chosenPath]
  split
  · rfl
  · cases legacyRelativePath url with
    | none => rfl
    | some legacy =>
      dsimp only
      split <;> rfl

/-- The paths of a URL that may be chosen. -/
def urlPaths (url : String) (rel : List String) : List (List String) :=
  rel :: (legacyRelativePath url).toList

theorem chosenPath_mem (fs : FileTree) (rel : List String) (url : String) :
    cfg.chosenPath fs rel url ∈ urlPaths url rel := by
  unfold Config.chosenPath urlPaths
  split
  · exact List.mem_cons_self
  · split
    · exact List.mem_cons_self
    · next legacy hlegacy =>
      split
      · rw [hlegacy]
        exact List.mem_cons_of_mem _ (List.mem_singleton_self _)
      · exact List.mem_cons_self

theorem safeName_urlPaths {url : String} {path : PurePath} (h : relativePath url = .ok path)
    {rel : List String} (hrel : rel ∈ urlPaths url path.parts) : ∀ c ∈ rel, SafeName c := by
  rcases List.mem_cons.1 hrel with rfl | hlegacy
  · obtain ⟨-, -, -, -, hsafe⟩ := relativePath_eq_ok h
    exact PurePath.safeName hsafe
  · exact safeName_legacy (Option.mem_toList.1 hlegacy)

/-- The hash has no collision among the texts hashed for the paths of two URLs. -/
def Config.NoCollision (cfg : Config) (url url' : String) (path path' : PurePath) : Prop :=
  Set.InjOn itemId {t | ∃ rel ∈ urlPaths url path.parts ++ urlPaths url' path'.parts,
    t ∈ cfg.hashedTexts rel}

/-- **When items are stored apart**: two different paths have different storage paths
    exactly if neither poses as the other; and in every file tree the targets of their
    items differ exactly if the paths that are chosen do, and neither of those poses as the
    other. -/
theorem stored_apart_iff {url url' : String} {path path' : PurePath}
    (h : relativePath url = .ok path) (h' : relativePath url' = .ok path') (hne : path ≠ path')
    (hdigest : cfg.NoCollision url url' path path') :
    (cfg.storageRelative path.parts ≠ cfg.storageRelative path'.parts ↔
      ¬ cfg.Poses path.parts path'.parts) ∧
    ∀ fs : FileTree, (cfg.resolvedStorageTarget fs path.parts url).2 ≠
        (cfg.resolvedStorageTarget fs path'.parts url').2 ↔
      cfg.chosenPath fs path.parts url ≠ cfg.chosenPath fs path'.parts url' ∧
        ¬ cfg.Poses (cfg.chosenPath fs path.parts url) (cfg.chosenPath fs path'.parts url') := by
  have hstored : ∀ rel ∈ urlPaths url path.parts, ∀ rel' ∈ urlPaths url' path'.parts,
      (cfg.storageRelative rel ≠ cfg.storageRelative rel' ↔ rel ≠ rel' ∧ ¬ cfg.Poses rel rel') := by
    intro rel hrel rel' hrel'
    rw [← not_or, Ne, not_iff_not]
    refine storageRelative_eq_iff (safeName_urlPaths h hrel) (safeName_urlPaths h' hrel') ?_
    refine hdigest.mono fun t ht => ?_
    rcases List.mem_append.1 ht with ht | ht
    · exact ⟨rel, List.mem_append_left _ hrel, ht⟩
    · exact ⟨rel', List.mem_append_right _ hrel', ht⟩
  constructor
  · have hparts : path.parts ≠ path'.parts := fun heq => hne (path_eq h h' heq)
    rw [hstored _ List.mem_cons_self _ List.mem_cons_self, and_iff_right hparts]
  · intro fs
    rw [resolvedStorageTarget_eq, resolvedStorageTarget_eq, Ne, List.append_cancel_left_eq]
    exact hstored _ (chosenPath_mem _ _ _) _ (chosenPath_mem _ _ _)

end

/-- A file system whose names have at most 76 bytes. -/
def shortNames : Config := { emptyDestination with nameMax := some 77 }

/-- Two names that are too long. -/
def longName : String := String.ofList (List.replicate 77 'a')

def otherLongName : String := String.ofList (List.replicate 77 'b')

/-- What the first name and its URL evaluate to. -/
theorem longName_facts :
    shortNames.LongName longName ∧ ¬ shortNames.LongPath ["set", longName] ∧
    shortNames.hashedTexts ["set", longName] = [longName] ∧
    (relativePath ("http://h/set/" ++ longName)).toOption.map PurePath.parts =
      some ["set", longName] ∧
    (urlPaths ("http://h/set/" ++ longName) ["set", longName]).all (· = ["set", longName]) := by
  decide +kernel

theorem otherLongName_facts :
    shortNames.LongName otherLongName ∧ itemId longName ≠ itemId otherLongName ∧
    shortNames.hashedTexts ["set", otherLongName] = [otherLongName] ∧
    (relativePath ("http://h/set/" ++ otherLongName)).toOption.map PurePath.parts =
      some ["set", otherLongName] ∧
    (urlPaths ("http://h/set/" ++ otherLongName) ["set", otherLongName]).all
      (· = ["set", otherLongName]) := by
  decide +kernel

/-- Both names are hashed, and their items are stored apart. -/
theorem stored_apart_iff_hashed : ∃ path path',
    relativePath ("http://h/set/" ++ longName) = .ok path ∧
    relativePath ("http://h/set/" ++ otherLongName) = .ok path' ∧
      shortNames.hashedTexts path.parts = [longName] ∧
      shortNames.hashedTexts path'.parts = [otherLongName] ∧
      shortNames.storageRelative path.parts ≠ shortNames.storageRelative path'.parts := by
  obtain ⟨hname, -, hhashed, hlong, hpaths⟩ := longName_facts
  obtain ⟨hname', hids, hhashed', hother, hpaths'⟩ := otherLongName_facts
  obtain ⟨path, hpath, hparts⟩ := exists_path hlong
  obtain ⟨path', hpath', hparts'⟩ := exists_path hother
  have hnames : longName ≠ otherLongName := fun h => hids (congrArg itemId h)
  have hne : path ≠ path' := by
    rintro rfl
    rw [hparts] at hparts'
    exact hnames (List.cons.inj (List.cons.inj hparts').2).1
  have hdigest : shortNames.NoCollision ("http://h/set/" ++ longName)
      ("http://h/set/" ++ otherLongName) path path' := by
    have htexts : ∀ t, (∃ rel ∈ urlPaths ("http://h/set/" ++ longName) path.parts ++
        urlPaths ("http://h/set/" ++ otherLongName) path'.parts,
          t ∈ shortNames.hashedTexts rel) → t = longName ∨ t = otherLongName := by
      rintro t ⟨rel, hrel, ht⟩
      rw [hparts, hparts'] at hrel
      rcases List.mem_append.1 hrel with hrel | hrel
      · rw [of_decide_eq_true (List.all_eq_true.1 hpaths rel hrel), hhashed] at ht
        exact .inl (List.mem_singleton.1 ht)
      · rw [of_decide_eq_true (List.all_eq_true.1 hpaths' rel hrel), hhashed'] at ht
        exact .inr (List.mem_singleton.1 ht)
    intro t ht t' ht' heq
    rcases htexts t ht with rfl | rfl <;> rcases htexts t' ht' with rfl | rfl
    · rfl
    · exact absurd heq hids
    · exact absurd heq.symm hids
    · rfl
  have hapart : ¬ shortNames.Poses path.parts path'.parts := by
    rw [hparts, hparts']
    rintro (⟨-, -, hone, -⟩ | ⟨-, -, hone, -⟩ | ⟨-, -, -, hposes⟩)
    · cases (List.cons.inj hone).2
    · cases (List.cons.inj hone).2
    · -- neither of two long names spells out a digest
      rw [List.forall₂_cons, List.forall₂_cons] at hposes
      rcases hposes.2.1 with heq | ⟨-, hno, -⟩ | ⟨-, hno, -⟩
      · exact hnames heq
      · exact hno hname'
      · exact hno hname
  refine ⟨path, path', hpath, hpath', hparts ▸ hhashed, hparts' ▸ hhashed',
    (stored_apart_iff hpath hpath' hne hdigest).1.2 hapart⟩

/-- A name that spells out what replaces the first one. -/
def posingName : String :=
  "__longname__bc19b9d355411a4e3d3426f5d39bfc9a856ca5f042bc3a468572080086ad1384"

/-- What that name and its URL evaluate to. -/
theorem spelled_out :
    ("__longname__" ++ itemId longName = posingName ∧ longName ≠ posingName) ∧
    (¬ shortNames.LongName posingName ∧ ¬ shortNames.LongName "set") ∧
    ¬ shortNames.LongPath ["set", posingName] ∧
    (relativePath ("http://h/set/" ++ posingName)).toOption.map PurePath.parts =
      some ["set", posingName] ∧
    (urlPaths ("http://h/set/" ++ posingName) ["set", posingName]).all (· = ["set", posingName]) := by
  decide +kernel

theorem posingName_short : ¬ shortNames.LongName posingName := spelled_out.2.1.1

theorem set_short : ¬ shortNames.LongName "set" := spelled_out.2.1.2

theorem stored_longName :
    ["set", longName].map shortNames.storageComponent = ["set", posingName] := by
  rw [List.map_cons, List.map_singleton, storageComponent_short set_short,
    storageComponent_long longName_facts.1, spelled_out.1.1]

theorem stored_posingName :
    ["set", posingName].map shortNames.storageComponent = ["set", posingName] := by
  rw [List.map_cons, List.map_singleton, storageComponent_short set_short,
    storageComponent_short posingName_short]

/-- A name can spell out the digest of a longer one. -/
theorem names_merge : ¬ ∀ (cfg : Config) (url url' : String) (path path' : PurePath),
    relativePath url = .ok path → relativePath url' = .ok path' → path ≠ path' →
      cfg.NoCollision url url' path path' →
        cfg.storageRelative path.parts ≠ cfg.storageRelative path'.parts := by
  intro h
  obtain ⟨-, longPath_longName, hhashed, hlong, hpaths⟩ := longName_facts
  obtain ⟨⟨-, hnames⟩, -, longPath_posingName, hposing, hpaths'⟩ := spelled_out
  obtain ⟨path, hpath, hparts⟩ := exists_path hlong
  obtain ⟨path', hpath', hparts'⟩ := exists_path hposing
  have hne : path ≠ path' := by
    rintro rfl
    rw [hparts] at hparts'
    exact hnames (List.cons.inj (List.cons.inj hparts').2).1
  have hdigest : shortNames.NoCollision ("http://h/set/" ++ longName)
      ("http://h/set/" ++ posingName) path path' := by
    -- the long name alone is hashed
    have honly : ∀ t, (∃ rel ∈ urlPaths ("http://h/set/" ++ longName) path.parts ++
        urlPaths ("http://h/set/" ++ posingName) path'.parts,
          t ∈ shortNames.hashedTexts rel) → t = longName := by
      rintro t ⟨rel, hrel, ht⟩
      rw [hparts, hparts'] at hrel
      rcases List.mem_append.1 hrel with hrel | hrel
      · rw [of_decide_eq_true (List.all_eq_true.1 hpaths rel hrel), hhashed] at ht
        exact List.mem_singleton.1 ht
      · rw [of_decide_eq_true (List.all_eq_true.1 hpaths' rel hrel)] at ht
        have hnone : (["set", posingName].filter fun c => shortNames.LongName c) = [] := by
          simp [set_short, posingName_short]
        rw [Config.hashedTexts, if_neg longPath_posingName, List.nil_append, hnone] at ht
        cases ht
    exact fun t ht t' ht' _ => (honly t ht).trans (honly t' ht').symm
  refine h shortNames _ _ _ _ hpath hpath' hne hdigest ?_
  rw [hparts, hparts', storageRelative_short longPath_longName,
    storageRelative_short longPath_posingName, stored_longName, stored_posingName]

end TodDl.Controller
