/-
  The snapshot diff (inventory.py).

  `loadSizes` reads one side from its listing; `diffSnapshots` puts every path of the
  two sides into a category and then makes pairs of what normalization alone moved.
  The normal form is any function on texts.

  * `loadSizes_spec`: the side holds the first size of every path, the paths on several
    lines and those that are unsafe;
  * `diffSnapshots_eq`: the diff never fails, and a path's record is a function of the
    two sides and the path (`finalRecord`);
  * `finalRecord_swap`: with the sides exchanged it is the mirrored record;
  * `diffSnapshots_partition`: one category for every path, and its totals.
-/
import Mathlib.Data.Finset.Sort
import Mathlib.Data.String.Basic
import TodDl.Inventory.Manifest
import TodDl.Lib.Marking

namespace TodDl.Inventory

open Lib (Table)

/-! ## `_load_sizes` -/

/-- One snapshot: path to size token, with duplicates and unsafe paths apart. -/
structure Snapshot where
  sizes : Table (Prod.fst : String × String → String) := .empty
  dups : Finset String := ∅
  unsafePaths : Finset String := ∅
  files : ℕ := 0
  listing : ℕ := 0
  dupLines : ℕ := 0

namespace Snapshot

/-- `side["sizes"].get(path)` -/
def size? (side : Snapshot) (path : String) : Option String :=
  (side.sizes.find? path).map Prod.snd

/-- `side["sizes"].keys()` -/
def paths (side : Snapshot) : Finset String := (side.sizes.rows.map Prod.fst).toFinset

/-- One entry of the listing. -/
def entry (side : Snapshot) (e : Entry) : Snapshot :=
  let side := { side with files := side.files + 1 }
  -- the listing file itself changes with every refresh
  if e.path = "ALL_FILES" then { side with listing := side.listing + 1 }
  else if (side.size? e.path).isSome then
    { side with dups := insert e.path side.dups, dupLines := side.dupLines + 1 }
  else
    { side with
      sizes := side.sizes.insertNew (e.path, e.sizeToken)
      unsafePaths := if (unsafePathReason e.path e.name).isSome then
        insert e.path side.unsafePaths else side.unsafePaths }

end Snapshot

/-- `_load_sizes(snapshot_dir)` on the bytes of its `raw.txt` -/
def loadSizes (raw : List UInt8) : Snapshot := (parse raw).entries.foldl Snapshot.entry {}

/-! ## `diff_snapshots` -/

/-- `DIFF_CATEGORIES` -/
inductive Category where
  | added | removed | metadataChanged | ambiguous | unchanged
  deriving DecidableEq

def diffCategories : List Category := [.added, .removed, .metadataChanged, .ambiguous, .unchanged]

inductive DiffReason where
  | duplicatePathInOld | duplicatePathInNew | unsafePath | nfcEquivalentAddRemove
  deriving DecidableEq

/-- A record of the diff; its type is `item`. -/
structure DiffRecord where
  path : String
  category : Category
  oldSizeToken : Option String
  newSizeToken : Option String
  reasons : List DiffReason

/-- Why a path is ambiguous by itself. -/
def diffReasons (old new : Snapshot) (path : String) : List DiffReason :=
  (if path ∈ old.dups then [.duplicatePathInOld] else []) ++
    (if path ∈ new.dups then [.duplicatePathInNew] else []) ++
    (if path ∈ old.unsafePaths ∨ path ∈ new.unsafePaths then [.unsafePath] else [])

/-- The record of a path, or none when it is unchanged. -/
def diffRecord (old new : Snapshot) (path : String) : Option DiffRecord :=
  let before := old.size? path
  let after := new.size? path
  let reasons := diffReasons old new path
  if reasons ≠ [] then some ⟨path, .ambiguous, before, after, reasons⟩
  else if before = none then some ⟨path, .added, before, after, reasons⟩
  else if after = none then some ⟨path, .removed, before, after, reasons⟩
  else if before ≠ after then some ⟨path, .metadataChanged, before, after, reasons⟩
  else none

/-- One turn of the first loop: the records so far, and the count of unchanged paths. -/
def diffPath (old new : Snapshot) (state : List DiffRecord × ℕ) (path : String) :
    List DiffRecord × ℕ :=
  match diffRecord old new path with
  | some record => (state.1 ++ [record], state.2)
  | none => (state.1, state.2 + 1)

namespace DiffRecord

def isAdded (r : DiffRecord) : Bool := r.category = .added

def isRemoved (r : DiffRecord) : Bool := r.category = .removed

/-- A name that only changed Unicode normalization is not a real add plus remove. -/
def twin (r : DiffRecord) : DiffRecord :=
  { r with category := .ambiguous, reasons := [.nfcEquivalentAddRemove] }

end DiffRecord

/-- The second loop, which changes the records in place. -/
def markTwins (nfc : String → String) (records : List DiffRecord) : List DiffRecord :=
  Lib.markPairs DiffRecord.isAdded DiffRecord.isRemoved (fun r => nfc r.path) DiffRecord.twin
    records

structure DiffTotals where
  oldFiles : ℕ
  newFiles : ℕ
  oldUniquePaths : ℕ
  newUniquePaths : ℕ
  oldDuplicateLines : ℕ
  newDuplicateLines : ℕ
  oldListingEntries : ℕ
  newListingEntries : ℕ
  categories : Category → ℕ

inductive DiffError where
  /-- the diff does not reconcile with the file count of a side -/
  | reconcile (side : String)
  /-- the categories do not cover every path exactly once -/
  | cover
  deriving DecidableEq

/-- `sorted(old["sizes"].keys() | new["sizes"].keys())` -/
def diffPaths (old new : Snapshot) : List String := (old.paths ∪ new.paths).sort

/-- `diff_snapshots(old, new)` -/
def diffSnapshots (nfc : String → String) (old new : Snapshot) :
    Except DiffError (List DiffRecord × DiffTotals) :=
  let (records, unchanged) := (diffPaths old new).foldl (diffPath old new) ([], 0)
  let records := markTwins nfc records
  let counts : Category → ℕ := fun c =>
    (if c = .unchanged then unchanged else 0) + records.countP fun r => r.category = c
  let totals : DiffTotals := {
    oldFiles := old.files
    newFiles := new.files
    oldUniquePaths := old.sizes.rows.length
    newUniquePaths := new.sizes.rows.length
    oldDuplicateLines := old.dupLines
    newDuplicateLines := new.dupLines
    oldListingEntries := old.listing
    newListingEntries := new.listing
    categories := counts }
  if totals.oldFiles ≠
      totals.oldUniquePaths + totals.oldDuplicateLines + totals.oldListingEntries then
    .error (.reconcile "old")
  else if totals.newFiles ≠
      totals.newUniquePaths + totals.newDuplicateLines + totals.newListingEntries then
    .error (.reconcile "new")
  else if (diffCategories.map counts).sum ≠ (old.paths ∪ new.paths).card then .error .cover
  else .ok (records, totals)

/-! ## What a side holds -/

/-- The path of an entry; the listing file itself has none. -/
def Listed (raw : List UInt8) (path : String) : Prop :=
  path ≠ "ALL_FILES" ∧ ∃ e ∈ (parse raw).entries, e.path = path

/-- The path is listed more than once. -/
def Duplicated (raw : List UInt8) (path : String) : Prop :=
  path ≠ "ALL_FILES" ∧ 2 ≤ (parse raw).entries.countP fun e => e.path = path

/-- The path cannot map safely. -/
def Unmappable (raw : List UInt8) (path : String) : Prop :=
  path ≠ "ALL_FILES" ∧ ∃ e ∈ (parse raw).entries, e.path = path ∧
    (unsafePathReason path e.name).isSome

def Doubtful (raw : List UInt8) (path : String) : Prop :=
  Duplicated raw path ∨ Unmappable raw path

namespace Snapshot

/-- The first entry of a path. -/
def first? (entries : List Entry) (path : String) : Option Entry :=
  entries.find? fun e => e.path = path

/-- The side is what `_load_sizes` has read after these entries. -/
structure Reads (side : Snapshot) (entries : List Entry) : Prop where
  size : ∀ path, side.size? path =
    if path = "ALL_FILES" then none else (first? entries path).map Entry.sizeToken
  dups : ∀ path, path ∈ side.dups ↔
    path ≠ "ALL_FILES" ∧ 2 ≤ entries.countP fun e => e.path = path
  unsafePaths : ∀ path, path ∈ side.unsafePaths ↔ path ≠ "ALL_FILES" ∧
    ∃ e, first? entries path = some e ∧ (unsafePathReason path e.name).isSome
  files : side.files = side.sizes.rows.length + side.dupLines + side.listing

theorem first?_append (entries : List Entry) (e : Entry) (path : String) :
    first? (entries ++ [e]) path =
      (first? entries path).or (if e.path = path then some e else none) := by
  simp [first?, List.find?_append, List.find?_singleton]

theorem first?_eq_none {entries : List Entry} {path : String} :
    first? entries path = none ↔ entries.countP (fun e => e.path = path) = 0 := by
  simp [first?, List.countP_eq_zero]

theorem first?_some {entries : List Entry} {path : String} {e : Entry}
    (h : first? entries path = some e) : e ∈ entries ∧ e.path = path := by
  rw [first?] at h
  exact ⟨List.mem_of_find?_eq_some h, by simpa using List.find?_some h⟩

theorem Reads.entry {side : Snapshot} {entries : List Entry} (h : side.Reads entries) (e : Entry) :
    (side.entry e).Reads (entries ++ [e]) := by
  have hcount : ∀ path, (entries ++ [e]).countP (fun e => e.path = path) =
      entries.countP (fun e => e.path = path) + if e.path = path then 1 else 0 := by
    intro path
    simp [List.countP_append, List.countP_singleton]
  unfold Snapshot.entry
  dsimp only
  split
  · next hlisting =>
    -- the listing file
    have hother : ∀ path, path ≠ "ALL_FILES" → ¬ e.path = path := fun path hne he =>
      hne (he.symm.trans hlisting)
    refine ⟨fun path => ?_, fun path => ?_, fun path => ?_, ?_⟩
    · refine (h.size path).trans ?_
      split
      · rfl
      · next hne => rw [first?_append, if_neg (hother path hne), Option.or_none]
    · refine (h.dups path).trans (and_congr_right fun hne => ?_)
      rw [hcount, if_neg (hother path hne), Nat.add_zero]
    · refine (h.unsafePaths path).trans (and_congr_right fun hne => ?_)
      rw [first?_append, if_neg (hother path hne), Option.or_none]
    · have := h.files
      simp only
      omega
  · next hlisting =>
    have hsize : side.size? e.path = (first? entries e.path).map Entry.sizeToken := by
      rw [h.size, if_neg hlisting]
    split
    · next hdup =>
      -- a path that is there
      have hdup : (side.size? e.path).isSome := hdup
      rw [hsize, Option.isSome_map] at hdup
      obtain ⟨e₀, he₀⟩ := Option.isSome_iff_exists.1 hdup
      have hfirst : ∀ path, first? (entries ++ [e]) path = first? entries path := by
        intro path
        rw [first?_append]
        split
        · next he =>
          subst he
          rw [he₀, Option.some_or]
        · exact Option.or_none
      refine ⟨fun path => ?_, fun path => ?_, fun path => ?_, ?_⟩
      · rw [hfirst]
        exact h.size path
      · rw [Finset.mem_insert, h.dups, hcount]
        split
        · next he =>
          subst he
          have hpos : entries.countP (fun e' => e'.path = e.path) ≠ 0 := fun h0 => by
            rw [first?_eq_none.2 h0] at he₀
            cases he₀
          simp only [true_or, ne_eq, hlisting, not_false_iff, true_and, true_iff]
          omega
        · next he =>
          rw [Nat.add_zero, or_iff_right fun hp => he hp.symm]
      · rw [hfirst]
        exact h.unsafePaths path
      · have := h.files
        simp only
        omega
    · next hnew =>
      -- a new path
      have hnew : side.size? e.path = none := Option.not_isSome_iff_eq_none.1 hnew
      have hnone : first? entries e.path = none :=
        Option.map_eq_none_iff.1 (hsize.symm.trans hnew)
      have hzero := first?_eq_none.1 hnone
      have hfind : side.sizes.find? e.path = none := Option.map_eq_none_iff.1 hnew
      refine ⟨fun path => ?_, fun path => ?_, fun path => ?_, ?_⟩
      · have hold := h.size path
        simp only [size?] at hold ⊢
        rw [Table.find?_insertNew, first?_append]
        by_cases he : e.path = path
        · subst he
          rw [hfind, hnone, if_neg hlisting]
          simp
        · simp only [if_neg he, Option.or_none]
          exact hold
      · rw [hcount, h.dups]
        refine and_congr_right fun _ => ?_
        split
        · next he =>
          subst he
          omega
        · rw [Nat.add_zero]
      · have hold := h.unsafePaths path
        rw [first?_append]
        by_cases he : e.path = path
        · subst he
          rw [hnone] at hold ⊢
          have hout : e.path ∉ side.unsafePaths := fun hp => by simpa using (hold.1 hp).2
          by_cases hreason : (unsafePathReason e.path e.name).isSome <;>
            simp [hreason, hout, hlisting]
        · rw [if_neg he, Option.or_none, ← hold]
          split
          · rw [Finset.mem_insert, or_iff_right fun hp => he hp.symm]
          · rfl
      · have hlength : (side.sizes.insertNew (e.path, e.sizeToken)).rows.length =
            side.sizes.rows.length + 1 := by
          rw [Table.insertNew, dif_neg (Table.find?_eq_none.1 hfind), List.length_append,
            List.length_singleton]
        have := h.files
        simp only [hlength]
        omega

end Snapshot

/-- **What is loaded**: the first size of every path, with what is duplicated or unsafe. -/
theorem loadSizes_spec (raw : List UInt8) : (loadSizes raw).Reads (parse raw).entries := by
  rw [loadSizes]
  induction (parse raw).entries using List.reverseRecOn with
  | nil =>
    refine ⟨fun path => ?_, fun path => ?_, fun path => ?_, rfl⟩
    · simp [Snapshot.first?, Snapshot.size?, Table.find?, Table.empty, Lib.keyed?]
    · simp
    · simp [Snapshot.first?]
  | append_singleton entries e ih =>
    rw [List.foldl_append, List.foldl_cons, List.foldl_nil]
    exact ih.entry e

theorem mem_paths_iff {side : Snapshot} {path : String} :
    path ∈ side.paths ↔ (side.size? path).isSome := by
  rw [Snapshot.paths, List.mem_toFinset, Snapshot.size?, Option.isSome_map,
    ← not_iff_not, ← Table.find?_eq_none, Option.not_isSome_iff_eq_none]

/-- The side has the paths that are listed. -/
theorem mem_paths_loadSizes {raw : List UInt8} {path : String} :
    path ∈ (loadSizes raw).paths ↔ Listed raw path := by
  rw [mem_paths_iff, (loadSizes_spec raw).size, Listed]
  split
  · next h => simp [h]
  · next h => simp [h, Snapshot.first?]

/-- The side keeps apart what is doubtful. -/
theorem doubtful_loadSizes {raw : List UInt8} {path : String} :
    path ∈ (loadSizes raw).dups ∨ path ∈ (loadSizes raw).unsafePaths ↔ Doubtful raw path := by
  have h := loadSizes_spec raw
  rw [h.dups, h.unsafePaths, Doubtful, Duplicated, Unmappable]
  refine or_congr_right' fun hsingle => and_congr_right fun hne => ?_
  constructor
  · rintro ⟨e, he, hreason⟩
    obtain ⟨hmem, hpath⟩ := Snapshot.first?_some he
    exact ⟨e, hmem, hpath, hreason⟩
  · rintro ⟨e, he, hpath, hreason⟩
    obtain ⟨first, hfirst⟩ : ∃ first, Snapshot.first? (parse raw).entries path = some first :=
      Option.isSome_iff_exists.1 (List.find?_isSome.2 ⟨e, he, by simpa using hpath⟩)
    -- the path has one entry
    have hone : first = e := by
      have hlt : ((parse raw).entries.filter fun e => e.path = path).length < 2 := by
        rw [← List.countP_eq_length_filter]
        exact not_le.1 fun hle => hsingle ⟨hne, hle⟩
      have hmem : e ∈ (parse raw).entries.filter fun e => e.path = path := by
        simp [he, hpath]
      have hmem' : first ∈ (parse raw).entries.filter fun e => e.path = path := by
        simpa using Snapshot.first?_some hfirst
      match hlist : (parse raw).entries.filter fun e => e.path = path with
      | [] => simp [hlist] at hmem
      | [x] =>
        rw [hlist, List.mem_singleton] at hmem hmem'
        rw [hmem, hmem']
      | _ :: _ :: _ =>
        rw [hlist, List.length_cons, List.length_cons] at hlt
        omega
    exact ⟨e, hone ▸ hfirst, hreason⟩

/-! ## The record of a path -/

section
variable {nfc : String → String} {old new : Snapshot}

theorem diffRecord_path {path : String} {r : DiffRecord} (h : diffRecord old new path = some r) :
    r.path = path := by
  unfold diffRecord at h
  dsimp only at h
  repeat' split at h
  all_goals cases h
  all_goals rfl

theorem diffRecord_changed {path : String} {r : DiffRecord}
    (h : diffRecord old new path = some r) : r.category ≠ .unchanged := by
  unfold diffRecord at h
  dsimp only at h
  repeat' split at h
  all_goals cases h
  all_goals exact fun hc => Category.noConfusion hc

/-- The category of a path before the pairs are made. -/
def plainCategory (old new : Snapshot) (path : String) : Category :=
  ((diffRecord old new path).map DiffRecord.category).getD .unchanged

/-- The first loop has a record for each path that is not unchanged. -/
theorem foldl_diffPath (paths : List String) (state : List DiffRecord × ℕ) :
    paths.foldl (diffPath old new) state = (state.1 ++ paths.filterMap (diffRecord old new),
      state.2 + paths.countP fun path => (diffRecord old new path).isNone) := by
  induction paths generalizing state with
  | nil => simp
  | cons path paths ih =>
    rw [List.foldl_cons, ih, List.filterMap_cons, List.countP_cons, diffPath]
    cases diffRecord old new path with
    | none =>
      refine Prod.ext rfl ?_
      simp only [Option.isNone_none, if_true]
      omega
    | some r => simp

/-- A path that the other side has only in another normal form. -/
def Twinned (nfc : String → String) (old new : Snapshot) (path : String) : Prop :=
  (plainCategory old new path = .added ∧ ∃ path' ∈ diffPaths old new,
    plainCategory old new path' = .removed ∧ nfc path' = nfc path) ∨
  (plainCategory old new path = .removed ∧ ∃ path' ∈ diffPaths old new,
    plainCategory old new path' = .added ∧ nfc path' = nfc path)

instance (nfc : String → String) (old new : Snapshot) (path : String) :
    Decidable (Twinned nfc old new path) := inferInstanceAs (Decidable (_ ∨ _))

/-- The record of a path, after the pairs are made. -/
def finalRecord (nfc : String → String) (old new : Snapshot) (path : String) :
    Option DiffRecord :=
  (diffRecord old new path).map fun r => if Twinned nfc old new path then r.twin else r

theorem any_diffRecord (nfc : String → String) (old new : Snapshot) {c : Category}
    (hc : c ≠ .unchanged) (key : String) : ((diffPaths old new).filterMap (diffRecord old new)).any
        (fun r => decide (r.category = c) && nfc r.path = key) ↔
      ∃ path ∈ diffPaths old new, plainCategory old new path = c ∧ nfc path = key := by
  simp only [List.any_eq_true, List.mem_filterMap, Bool.and_eq_true, decide_eq_true_eq]
  constructor
  · rintro ⟨r, ⟨path, hpath, hr⟩, hcat, hkey⟩
    refine ⟨path, hpath, ?_, diffRecord_path hr ▸ hkey⟩
    rw [plainCategory, hr]
    exact hcat
  · rintro ⟨path, hpath, hcat, hkey⟩
    rw [plainCategory] at hcat
    cases hr : diffRecord old new path with
    | none =>
      rw [hr] at hcat
      exact absurd hcat.symm hc
    | some r =>
      rw [hr] at hcat
      exact ⟨r, ⟨path, hpath, hr⟩, hcat, by rw [diffRecord_path hr, hkey]⟩

/-- Both loops: what a path gets depends on the two sides and the path alone. -/
theorem markTwins_diffRecord :
    markTwins nfc ((diffPaths old new).filterMap (diffRecord old new)) =
      (diffPaths old new).filterMap (finalRecord nfc old new) := by
  have hmark : ∀ r : DiffRecord, r.twin.twin = r.twin := fun _ => rfl
  have hadded : ∀ r : DiffRecord, r.twin.isAdded = false := fun _ => rfl
  have hkinds : ∀ r : DiffRecord, r.isAdded → r.isRemoved = false := by
    intro r hr
    simp only [DiffRecord.isAdded, DiffRecord.isRemoved, decide_eq_true_eq] at hr ⊢
    simp [hr]
  rw [markTwins, Lib.markPairs_eq_map hmark hadded hkinds, List.map_filterMap]
  refine List.filterMap_congr fun path _ => ?_
  rw [finalRecord]
  refine Option.map_congr fun r hr => ?_
  have hpath := diffRecord_path hr
  have hcat : plainCategory old new path = r.category := by
    rw [plainCategory, hr]
    rfl
  have hiff : Lib.paired DiffRecord.isAdded DiffRecord.isRemoved (fun r => nfc r.path)
      ((diffPaths old new).filterMap (diffRecord old new)) r ↔ Twinned nfc old new path := by
    simp only [Lib.paired, Bool.or_eq_true, Bool.and_eq_true, DiffRecord.isAdded,
      DiffRecord.isRemoved, decide_eq_true_eq]
    rw [any_diffRecord nfc old new (fun h => Category.noConfusion h) (nfc r.path),
      any_diffRecord nfc old new (fun h => Category.noConfusion h) (nfc r.path), hpath, Twinned,
      hcat]
  exact if_congr hiff rfl rfl

/-! ## The categories -/

/-- The category of a path in a diff: a path without a record is unchanged. -/
def categoryIn (records : List DiffRecord) (path : String) : Category :=
  ((Lib.keyed? DiffRecord.path records path).map DiffRecord.category).getD .unchanged

theorem finalRecord_path {path : String} {r : DiffRecord}
    (h : finalRecord nfc old new path = some r) : r.path = path := by
  obtain ⟨r, hr, rfl⟩ := Option.map_eq_some_iff.1 h
  split
  · exact (diffRecord_path hr : r.path = path)
  · exact diffRecord_path hr

theorem finalRecord_changed {path : String} {r : DiffRecord}
    (h : finalRecord nfc old new path = some r) : r.category ≠ .unchanged := by
  obtain ⟨r, hr, rfl⟩ := Option.map_eq_some_iff.1 h
  split
  · exact fun hc => Category.noConfusion hc
  · exact diffRecord_changed hr

theorem finalRecord_isNone (nfc : String → String) (old new : Snapshot) (path : String) :
    (finalRecord nfc old new path).isNone = (diffRecord old new path).isNone := by
  rw [finalRecord, Option.isNone_map]

/-- The records of a diff, and their totals. -/
def finalRecords (nfc : String → String) (old new : Snapshot) : List DiffRecord :=
  (diffPaths old new).filterMap (finalRecord nfc old new)

theorem categoryIn_finalRecords (path : String) : categoryIn (finalRecords nfc old new) path =
    if path ∈ diffPaths old new then
      ((finalRecord nfc old new path).map DiffRecord.category).getD .unchanged
    else .unchanged := by
  rw [categoryIn, finalRecords, Lib.keyed?_filterMap fun _ _ => finalRecord_path]
  split
  · rfl
  · rfl

/-- The counts of the third loop are those of the paths. -/
theorem counts_finalRecords (c : Category) :
    (if c = .unchanged then
        (diffPaths old new).countP fun path => (diffRecord old new path).isNone else 0) +
      (finalRecords nfc old new).countP (fun r => r.category = c) =
    (diffPaths old new).countP fun path =>
      categoryIn (finalRecords nfc old new) path = c := by
  have hcat : ∀ path ∈ diffPaths old new, categoryIn (finalRecords nfc old new) path =
      ((finalRecord nfc old new path).map DiffRecord.category).getD .unchanged :=
    fun path hpath => by rw [categoryIn_finalRecords, if_pos hpath]
  have hrecords : (finalRecords nfc old new).countP (fun r => r.category = c) =
      (diffPaths old new).countP fun path =>
        ((finalRecord nfc old new path).map fun r => decide (r.category = c)).getD false :=
    List.countP_filterMap
  rw [hrecords]
  split
  · next hc =>
    subst hc
    -- no record says unchanged
    have hzero : ((diffPaths old new).countP fun path =>
        ((finalRecord nfc old new path).map fun r =>
          decide (r.category = .unchanged)).getD false) = 0 := by
      refine List.countP_eq_zero.2 fun path _ hany => ?_
      cases hr : finalRecord nfc old new path with
      | none => simp [hr] at hany
      | some r => exact finalRecord_changed hr (by simpa [hr] using hany)
    rw [hzero, Nat.add_zero]
    refine List.countP_congr fun path hpath => ?_
    rw [← finalRecord_isNone nfc, hcat path hpath]
    cases hr : finalRecord nfc old new path with
    | none => simp
    | some r => simp [finalRecord_changed hr]
  · next hc =>
    rw [Nat.zero_add]
    refine List.countP_congr fun path hpath => ?_
    rw [hcat path hpath]
    cases finalRecord nfc old new path with
    | none => simp [Ne.symm hc]
    | some r => simp

/-- Every path is in one category. -/
theorem sum_diffCategories {α : Type} (category : α → Category) (l : List α) :
    (diffCategories.map fun c => l.countP fun a => category a = c).sum = l.length := by
  induction l with
  | nil => rfl
  | cons a l ih =>
    simp only [diffCategories, List.map_cons, List.map_nil, List.sum_cons, List.sum_nil,
      List.countP_cons, List.length_cons] at ih ⊢
    cases category a <;> simp <;> omega

/-- The totals of a diff whose records are known. -/
def diffTotals (old new : Snapshot) (category : String → Category) : DiffTotals where
  oldFiles := old.files
  newFiles := new.files
  oldUniquePaths := old.sizes.rows.length
  newUniquePaths := new.sizes.rows.length
  oldDuplicateLines := old.dupLines
  newDuplicateLines := new.dupLines
  oldListingEntries := old.listing
  newListingEntries := new.listing
  categories := fun c => (diffPaths old new).countP fun path => category path = c

/-- **The diff never fails**, and has the record of each path. -/
theorem diffSnapshots_eq (nfc : String → String)
    (hold : old.files = old.sizes.rows.length + old.dupLines + old.listing)
    (hnew : new.files = new.sizes.rows.length + new.dupLines + new.listing) :
    diffSnapshots nfc old new = .ok (finalRecords nfc old new,
      diffTotals old new (categoryIn (finalRecords nfc old new))) := by
  have hcounts : (fun c => (if c = .unchanged then
        (diffPaths old new).countP fun path => (diffRecord old new path).isNone else 0) +
      (finalRecords nfc old new).countP (fun r => r.category = c)) = fun c =>
    (diffPaths old new).countP fun path => categoryIn (finalRecords nfc old new) path = c :=
    funext counts_finalRecords
  have hcover : (diffCategories.map fun c => (diffPaths old new).countP fun path =>
      categoryIn (finalRecords nfc old new) path = c).sum = (old.paths ∪ new.paths).card := by
    rw [sum_diffCategories, diffPaths, Finset.length_sort]
  unfold diffSnapshots
  simp only [foldl_diffPath, List.nil_append, Nat.zero_add, markTwins_diffRecord]
  rw [← finalRecords, hcounts, if_neg (not_not.2 hold), if_neg (not_not.2 hnew),
    if_neg (not_not.2 hcover)]
  rfl

theorem mem_diffPaths {path : String} :
    path ∈ diffPaths old new ↔ path ∈ old.paths ∨ path ∈ new.paths := by
  rw [diffPaths, Finset.mem_sort, Finset.mem_union]

theorem diffReasons_eq_nil {path : String} : diffReasons old new path = [] ↔
    ¬ (path ∈ old.dups ∨ path ∈ old.unsafePaths) ∧
      ¬ (path ∈ new.dups ∨ path ∈ new.unsafePaths) := by
  unfold diffReasons
  by_cases h₁ : path ∈ old.dups <;> by_cases h₂ : path ∈ new.dups <;>
    by_cases h₃ : path ∈ old.unsafePaths <;> by_cases h₄ : path ∈ new.unsafePaths <;>
    simp [h₁, h₂, h₃, h₄]

theorem plainCategory_ambiguous {path : String} :
    plainCategory old new path = .ambiguous ↔ diffReasons old new path ≠ [] := by
  unfold plainCategory diffRecord
  dsimp only
  repeat' split
  all_goals simp_all

theorem plainCategory_added {path : String} : plainCategory old new path = .added ↔
    diffReasons old new path = [] ∧ path ∉ old.paths := by
  rw [mem_paths_iff, Option.not_isSome_iff_eq_none]
  unfold plainCategory diffRecord
  dsimp only
  repeat' split
  all_goals simp_all

theorem plainCategory_removed {path : String} : plainCategory old new path = .removed ↔
    diffReasons old new path = [] ∧ path ∈ old.paths ∧ path ∉ new.paths := by
  rw [mem_paths_iff, mem_paths_iff, Option.not_isSome_iff_eq_none, Option.isSome_iff_ne_none]
  unfold plainCategory diffRecord
  dsimp only
  repeat' split
  all_goals simp_all

end

/-! ## Exchanging the sides -/

/-- What the other direction calls a category. -/
def Category.swap : Category → Category
  | .added => .removed
  | .removed => .added
  | c => c

theorem Category.swap_eq_iff {c c' : Category} : c.swap = c' ↔ c = c'.swap := by
  cases c <;> cases c' <;> simp [swap]

def DiffReason.swap : DiffReason → DiffReason
  | .duplicatePathInOld => .duplicatePathInNew
  | .duplicatePathInNew => .duplicatePathInOld
  | reason => reason

/-- The record of the same path in the other direction; the reasons are in the order of the
    checks there. -/
structure DiffRecord.Mirrors (r r' : DiffRecord) : Prop where
  path : r'.path = r.path
  category : r'.category = r.category.swap
  oldSizeToken : r'.oldSizeToken = r.newSizeToken
  newSizeToken : r'.newSizeToken = r.oldSizeToken
  reasons : r'.reasons.Perm (r.reasons.map DiffReason.swap)

def DiffTotals.swap (t : DiffTotals) : DiffTotals where
  oldFiles := t.newFiles
  newFiles := t.oldFiles
  oldUniquePaths := t.newUniquePaths
  newUniquePaths := t.oldUniquePaths
  oldDuplicateLines := t.newDuplicateLines
  newDuplicateLines := t.oldDuplicateLines
  oldListingEntries := t.newListingEntries
  newListingEntries := t.oldListingEntries
  categories := fun c => t.categories c.swap

section
variable (nfc : String → String) (old new : Snapshot)

theorem diffPaths_swap : diffPaths new old = diffPaths old new := by
  rw [diffPaths, diffPaths, Finset.union_comm]

theorem diffReasons_swap (path : String) :
    (diffReasons new old path).Perm ((diffReasons old new path).map DiffReason.swap) := by
  have hmap : ∀ (c : Prop) [Decidable c] (reason : DiffReason),
      (if c then [reason] else []).map DiffReason.swap = if c then [reason.swap] else [] := by
    intro c _ reason
    split <;> rfl
  rw [diffReasons, diffReasons, List.map_append, List.map_append, hmap, hmap, hmap]
  simp only [or_comm]
  exact List.perm_append_comm.append_right _

theorem diffReasons_swap_eq_nil (path : String) :
    diffReasons new old path = [] ↔ diffReasons old new path = [] := by
  rw [diffReasons_eq_nil, diffReasons_eq_nil, and_comm]

theorem diffRecord_swap {path : String} (h : path ∈ diffPaths old new) :
    Option.Rel DiffRecord.Mirrors (diffRecord old new path) (diffRecord new old path) := by
  have hreasons := diffReasons_swap old new path
  have hnil := diffReasons_swap_eq_nil old new path
  rw [mem_diffPaths, mem_paths_iff, mem_paths_iff] at h
  unfold diffRecord
  dsimp only
  by_cases hnone : diffReasons old new path = []
  · rw [hnil.2 hnone, hnone]
    simp only [ne_eq, not_true, if_false]
    cases hbefore : old.size? path with
    | none =>
      cases hafter : new.size? path with
      | none => simp [hbefore, hafter] at h
      | some after => exact .some ⟨rfl, rfl, rfl, rfl, .nil⟩
    | some before =>
      cases hafter : new.size? path with
      | none => exact .some ⟨rfl, rfl, rfl, rfl, .nil⟩
      | some after =>
        by_cases hsize : before = after
        · simp only [hsize, reduceCtorEq, if_false, not_true]
          exact .none
        · simp only [Option.some.injEq, hsize, Ne.symm hsize, reduceCtorEq, if_false,
            not_false_iff, if_true]
          exact .some ⟨rfl, rfl, rfl, rfl, .nil⟩
  · rw [if_pos hnone, if_pos (mt hnil.1 hnone)]
    exact .some ⟨rfl, rfl, rfl, rfl, hreasons⟩

theorem category_mirrors {x y : Option DiffRecord} (h : Option.Rel DiffRecord.Mirrors x y) :
    (y.map DiffRecord.category).getD .unchanged =
      ((x.map DiffRecord.category).getD .unchanged).swap := by
  cases h with
  | none => rfl
  | some hmirrors => exact hmirrors.category

theorem plainCategory_swap {path : String} (h : path ∈ diffPaths old new) :
    plainCategory new old path = (plainCategory old new path).swap :=
  category_mirrors (diffRecord_swap old new h)

/-- Twins are twins in both directions. -/
theorem twinned_swap {path : String} (h : path ∈ diffPaths old new) :
    Twinned nfc new old path ↔ Twinned nfc old new path := by
  have hcat : ∀ {path}, path ∈ diffPaths old new → ∀ c,
      plainCategory new old path = c ↔ plainCategory old new path = c.swap := fun hpath c => by
    rw [plainCategory_swap old new hpath, Category.swap_eq_iff]
  have hpartner : ∀ c, (∃ path' ∈ diffPaths new old, plainCategory new old path' = c ∧
      nfc path' = nfc path) ↔ ∃ path' ∈ diffPaths old new, plainCategory old new path' = c.swap ∧
        nfc path' = nfc path := by
    intro c
    rw [diffPaths_swap]
    exact exists_congr fun path' => and_congr_right fun hpath' =>
      and_congr_left' (hcat hpath' c)
  rw [Twinned, Twinned, hpartner, hpartner, hcat h, hcat h, or_comm]
  rfl

theorem finalRecord_swap {path : String} (h : path ∈ diffPaths old new) :
    Option.Rel DiffRecord.Mirrors (finalRecord nfc old new path) (finalRecord nfc new old path) := by
  have hrel := diffRecord_swap old new h
  have htwins := twinned_swap nfc old new h
  unfold finalRecord
  generalize diffRecord old new path = x, diffRecord new old path = y at hrel ⊢
  cases hrel with
  | none => exact .none
  | some hmirrors =>
    refine .some ?_
    dsimp only
    by_cases ht : Twinned nfc old new path
    · rw [if_pos ht, if_pos (htwins.2 ht)]
      exact ⟨hmirrors.path, rfl, hmirrors.oldSizeToken, hmirrors.newSizeToken, .refl _⟩
    · rw [if_neg ht, if_neg (mt htwins.1 ht)]
      exact hmirrors

/-- The records of the other direction, one by one. -/
theorem finalRecords_swap : List.Forall₂ DiffRecord.Mirrors (finalRecords nfc old new)
    (finalRecords nfc new old) := by
  have hmirror : ∀ l : List String, (∀ path ∈ l, path ∈ diffPaths old new) →
      List.Forall₂ DiffRecord.Mirrors (l.filterMap (finalRecord nfc old new))
        (l.filterMap (finalRecord nfc new old)) := by
    intro l hl
    induction l with
    | nil => exact .nil
    | cons path l ih =>
      have hrest := ih fun path hpath => hl path (List.mem_cons_of_mem _ hpath)
      have hrel := finalRecord_swap nfc old new (hl path List.mem_cons_self)
      rw [List.filterMap_cons, List.filterMap_cons]
      generalize finalRecord nfc old new path = x, finalRecord nfc new old path = y at hrel ⊢
      cases hrel with
      | none => exact hrest
      | some hmirrors => exact .cons hmirrors hrest
  rw [finalRecords, finalRecords, diffPaths_swap old new]
  exact hmirror _ fun _ hpath => hpath

theorem categoryIn_swap (path : String) : categoryIn (finalRecords nfc new old) path =
    (categoryIn (finalRecords nfc old new) path).swap := by
  rw [categoryIn_finalRecords, categoryIn_finalRecords, diffPaths_swap]
  split
  · next h => exact category_mirrors (finalRecord_swap nfc old new h)
  · rfl

theorem diffTotals_swap : diffTotals new old (categoryIn (finalRecords nfc new old)) =
    (diffTotals old new (categoryIn (finalRecords nfc old new))).swap := by
  unfold diffTotals DiffTotals.swap
  congr 1
  funext c
  rw [diffPaths_swap old new]
  refine List.countP_congr fun path _ => ?_
  rw [categoryIn_swap nfc old new, decide_eq_true_eq, decide_eq_true_eq, Category.swap_eq_iff]

end

/-! ## The diff of two listings -/

/-- Otherwise removed, and with the sides exchanged otherwise added: a path of one side alone
    that nothing makes ambiguous. -/
def OnlyIn (here there : List UInt8) (path : String) : Prop :=
  Listed here path ∧ ¬ Listed there path ∧ ¬ Doubtful here path

/-- A class of the normal form with an added and a removed path. -/
def MovedClass (nfc : String → String) (raw raw' : List UInt8) (key : String) : Prop :=
  (∃ path, OnlyIn raw' raw path ∧ nfc path = key) ∧ ∃ path, OnlyIn raw raw' path ∧ nfc path = key

/-- The diff of two listings puts every path into its category. -/
structure Partition (nfc : String → String) (raw raw' : List UInt8) (records : List DiffRecord)
    (totals : DiffTotals) : Prop where
  /-- no path has two records -/
  sorted : (records.map DiffRecord.path).Pairwise (· < ·)
  listed : ∀ r ∈ records, Listed raw r.path ∨ Listed raw' r.path
  changed : ∀ r ∈ records, r.category ≠ .unchanged
  counted : ∀ c, totals.categories c = (((loadSizes raw).paths ∪ (loadSizes raw').paths).filter
    fun path => categoryIn records path = c).card
  ambiguous : ∀ path, categoryIn records path = .ambiguous ↔
    Doubtful raw path ∨ Doubtful raw' path ∨
      ((OnlyIn raw' raw path ∨ OnlyIn raw raw' path) ∧ MovedClass nfc raw raw' (nfc path))

theorem Doubtful.listed {raw : List UInt8} {path : String} (h : Doubtful raw path) :
    Listed raw path := by
  rcases h with ⟨hne, hcount⟩ | ⟨hne, e, he, hpath, -⟩
  · have hpos : 0 < (parse raw).entries.countP fun e => e.path = path := by omega
    obtain ⟨e, he, hpath⟩ := List.countP_pos_iff.1 hpos
    exact ⟨hne, e, he, by simpa using hpath⟩
  · exact ⟨hne, e, he, hpath⟩

section
variable (nfc : String → String) (raw raw' : List UInt8)

theorem mem_diffPaths_loadSizes {path : String} :
    path ∈ diffPaths (loadSizes raw) (loadSizes raw') ↔ Listed raw path ∨ Listed raw' path := by
  rw [mem_diffPaths, mem_paths_loadSizes, mem_paths_loadSizes]

theorem diffReasons_loadSizes {path : String} :
    diffReasons (loadSizes raw) (loadSizes raw') path = [] ↔
      ¬ Doubtful raw path ∧ ¬ Doubtful raw' path := by
  rw [diffReasons_eq_nil, doubtful_loadSizes, doubtful_loadSizes]

theorem plainCategory_loadSizes_added {path : String}
    (h : path ∈ diffPaths (loadSizes raw) (loadSizes raw')) :
    plainCategory (loadSizes raw) (loadSizes raw') path = .added ↔ OnlyIn raw' raw path := by
  rw [mem_diffPaths_loadSizes] at h
  rw [plainCategory_added, diffReasons_loadSizes, mem_paths_loadSizes, OnlyIn]
  constructor
  · rintro ⟨⟨-, hdoubt⟩, hold⟩
    exact ⟨h.resolve_left hold, hold, hdoubt⟩
  · rintro ⟨-, hold, hdoubt⟩
    exact ⟨⟨fun hd => hold hd.listed, hdoubt⟩, hold⟩

theorem plainCategory_loadSizes_removed {path : String} :
    plainCategory (loadSizes raw) (loadSizes raw') path = .removed ↔ OnlyIn raw raw' path := by
  rw [plainCategory_removed, diffReasons_loadSizes, mem_paths_loadSizes, mem_paths_loadSizes,
    OnlyIn]
  constructor
  · rintro ⟨⟨hdoubt, -⟩, hold, hnew⟩
    exact ⟨hold, hnew, hdoubt⟩
  · rintro ⟨hold, hnew, hdoubt⟩
    exact ⟨⟨hdoubt, fun hd => hnew hd.listed⟩, hold, hnew⟩

theorem OnlyIn.mem_diffPaths {path : String} (h : OnlyIn raw' raw path ∨ OnlyIn raw raw' path) :
    path ∈ diffPaths (loadSizes raw) (loadSizes raw') := by
  rw [mem_diffPaths_loadSizes]
  exact h.symm.imp (fun h => h.1) fun h => h.1

/-- A twin is a path of one side in a class with paths of either side alone. -/
theorem twinned_loadSizes {path : String}
    (h : path ∈ diffPaths (loadSizes raw) (loadSizes raw')) :
    Twinned nfc (loadSizes raw) (loadSizes raw') path ↔
      (OnlyIn raw' raw path ∨ OnlyIn raw raw' path) ∧ MovedClass nfc raw raw' (nfc path) := by
  have hremoved : (∃ path' ∈ diffPaths (loadSizes raw) (loadSizes raw'),
      plainCategory (loadSizes raw) (loadSizes raw') path' = .removed ∧ nfc path' = nfc path) ↔
        ∃ path', OnlyIn raw raw' path' ∧ nfc path' = nfc path := by
    constructor
    · rintro ⟨path', -, hcat, hkey⟩
      exact ⟨path', (plainCategory_loadSizes_removed raw raw').1 hcat, hkey⟩
    · rintro ⟨path', honly, hkey⟩
      exact ⟨path', OnlyIn.mem_diffPaths raw raw' (.inr honly),
        (plainCategory_loadSizes_removed raw raw').2 honly, hkey⟩
  have hadded : (∃ path' ∈ diffPaths (loadSizes raw) (loadSizes raw'),
      plainCategory (loadSizes raw) (loadSizes raw') path' = .added ∧ nfc path' = nfc path) ↔
        ∃ path', OnlyIn raw' raw path' ∧ nfc path' = nfc path := by
    constructor
    · rintro ⟨path', hpath', hcat, hkey⟩
      exact ⟨path', (plainCategory_loadSizes_added raw raw' hpath').1 hcat, hkey⟩
    · rintro ⟨path', honly, hkey⟩
      have hpath' := OnlyIn.mem_diffPaths raw raw' (.inl honly)
      exact ⟨path', hpath', (plainCategory_loadSizes_added raw raw' hpath').2 honly, hkey⟩
  rw [Twinned, hremoved, hadded, plainCategory_loadSizes_added raw raw' h,
    plainCategory_loadSizes_removed, MovedClass]
  constructor
  · rintro (⟨honly, hother⟩ | ⟨honly, hother⟩)
    · exact ⟨.inl honly, ⟨path, honly, rfl⟩, hother⟩
    · exact ⟨.inr honly, hother, path, honly, rfl⟩
  · rintro ⟨honly | honly, hadd, hrem⟩
    · exact .inl ⟨honly, hrem⟩
    · exact .inr ⟨honly, hadd⟩

/-- **What is ambiguous**: the paths that are doubtful by themselves, and the paths of one side
    alone that the other side has in another normal form. -/
theorem categoryIn_ambiguous (path : String) :
    categoryIn (finalRecords nfc (loadSizes raw) (loadSizes raw')) path = .ambiguous ↔
      Doubtful raw path ∨ Doubtful raw' path ∨
        ((OnlyIn raw' raw path ∨ OnlyIn raw raw' path) ∧ MovedClass nfc raw raw' (nfc path)) := by
  rw [categoryIn_finalRecords]
  split
  · next h =>
    rw [← twinned_loadSizes nfc raw raw' h, ← or_assoc]
    have hplain : plainCategory (loadSizes raw) (loadSizes raw') path = .ambiguous ↔
        Doubtful raw path ∨ Doubtful raw' path := by
      rw [plainCategory_ambiguous, Ne, diffReasons_loadSizes, ← not_or, not_not]
    rw [← hplain, finalRecord, plainCategory]
    have hnone : Twinned nfc (loadSizes raw) (loadSizes raw') path →
        (diffRecord (loadSizes raw) (loadSizes raw') path).isSome := by
      intro ht
      rw [Twinned, plainCategory] at ht
      cases hr : diffRecord (loadSizes raw) (loadSizes raw') path with
      | none => simp [hr] at ht
      | some r => rfl
    generalize diffRecord (loadSizes raw) (loadSizes raw') path = x at hnone ⊢
    cases x with
    | none => simpa using hnone
    | some r =>
      by_cases ht : Twinned nfc (loadSizes raw) (loadSizes raw') path
      · simp [ht, DiffRecord.twin]
      · simp [ht]
  · next h =>
    rw [mem_diffPaths_loadSizes, not_or] at h
    simp only [reduceCtorEq, false_iff]
    rintro (hdoubt | hdoubt | ⟨honly, -⟩)
    · exact h.1 hdoubt.listed
    · exact h.2 hdoubt.listed
    · exact honly.elim (fun ho => h.2 ho.1) fun ho => h.1 ho.1

theorem sorted_finalRecords (old new : Snapshot) :
    ((finalRecords nfc old new).map DiffRecord.path).Pairwise (· < ·) := by
  have hsub : ((finalRecords nfc old new).map DiffRecord.path).Sublist (diffPaths old new) := by
    rw [finalRecords]
    induction diffPaths old new with
    | nil => exact .refl _
    | cons path l ih =>
      rw [List.filterMap_cons]
      cases hr : finalRecord nfc old new path with
      | none => exact ih.cons _
      | some r =>
        rw [List.map_cons, finalRecord_path hr]
        exact ih.cons_cons _
  exact (Finset.sortedLT_sort _).pairwise.sublist hsub

/-- Counting in the sorted paths is counting in the union. -/
theorem countP_diffPaths (old new : Snapshot) (q : String → Prop) [DecidablePred q] :
    (diffPaths old new).countP (fun path => q path) = ((old.paths ∪ new.paths).filter q).card := by
  have hfilter : (old.paths ∪ new.paths).filter q =
      ((diffPaths old new).filter fun path => q path).toFinset := by
    ext path
    simp [diffPaths]
  have hnodup : ((diffPaths old new).filter fun path => q path).Nodup :=
    (Finset.sort_nodup _ _).filter _
  rw [hfilter, List.toFinset_card_of_nodup hnodup, List.countP_eq_length_filter]

/-- **A symmetric partition**: the diff of two listings never fails; it puts each path into one
    category, and in the other direction it has the mirrored records and totals. -/
theorem diffSnapshots_partition : ∃ records totals records',
    diffSnapshots nfc (loadSizes raw) (loadSizes raw') = .ok (records, totals) ∧
    Partition nfc raw raw' records totals ∧
    diffSnapshots nfc (loadSizes raw') (loadSizes raw) = .ok (records', totals.swap) ∧
    List.Forall₂ DiffRecord.Mirrors records records' := by
  have hfiles := (loadSizes_spec raw).files
  have hfiles' := (loadSizes_spec raw').files
  refine ⟨_, _, _, diffSnapshots_eq nfc hfiles hfiles', ?_, ?_,
    finalRecords_swap nfc (loadSizes raw) (loadSizes raw')⟩
  · refine ⟨sorted_finalRecords nfc _ _, fun r hr => ?_, fun r hr => ?_, fun c => ?_,
      categoryIn_ambiguous nfc raw raw'⟩
    · obtain ⟨path, hpath, hfinal⟩ := List.mem_filterMap.1 hr
      rw [finalRecord_path hfinal]
      exact (mem_diffPaths_loadSizes raw raw').1 hpath
    · obtain ⟨path, -, hfinal⟩ := List.mem_filterMap.1 hr
      exact finalRecord_changed hfinal
    · exact countP_diffPaths _ _ _
  · rw [diffSnapshots_eq nfc hfiles' hfiles, diffTotals_swap]

end

/-! ## A third variant -/

instance (raw : List UInt8) (path : String) : Decidable (Listed raw path) :=
  inferInstanceAs (Decidable (_ ∧ _))

instance (raw : List UInt8) (path : String) : Decidable (Doubtful raw path) :=
  inferInstanceAs (Decidable ((_ ∧ _) ∨ (_ ∧ _)))

instance (here there : List UInt8) (path : String) : Decidable (OnlyIn here there path) :=
  inferInstanceAs (Decidable (_ ∧ _))

/-- The root has the angstrom sign and an A with its ring. -/
def oldRings : List UInt8 := Provenance.utf8 ".:\n- 1 \u212b\n- 1 A\u030a\n".toList

/-- The angstrom sign has grown; the other name is one letter now. -/
def newRings : List UInt8 := Provenance.utf8 ".:\n- 2 \u212b\n- 1 \u00c5\n".toList

/-- The normal form of the three names. -/
def ringNfc (name : String) : String :=
  if name ∈ ["\u212b", "A\u030a"] then "\u00c5" else name

/-- A path of both sides stays what it is, in a class with an added and a removed one. -/
theorem moved_class_keeps : ¬ ∀ nfc : String → String, (∀ name, nfc (nfc name) = nfc name) →
    ∀ (raw raw' : List UInt8) (records : List DiffRecord) (totals : DiffTotals),
    diffSnapshots nfc (loadSizes raw) (loadSizes raw') = .ok (records, totals) →
      ∀ path, Listed raw path ∨ Listed raw' path →
        (categoryIn records path = .ambiguous ↔
          Doubtful raw path ∨ Doubtful raw' path ∨ MovedClass nfc raw raw' (nfc path)) := by
  intro h
  have hok := diffSnapshots_eq ringNfc (loadSizes_spec oldRings).files (loadSizes_spec newRings).files
  have hnormal : ∀ name, ringNfc (ringNfc name) = ringNfc name := by
    intro name
    by_cases hname : name ∈ ["\u212b", "A\u030a"]
    · rw [show ringNfc name = "\u00c5" from if_pos hname]
      decide
    · rw [show ringNfc name = name from if_neg hname, show ringNfc name = name from if_neg hname]
  have hclass : MovedClass ringNfc oldRings newRings (ringNfc "\u212b") :=
    ⟨⟨"\u00c5", by decide, by decide⟩, "A\u030a", by decide, by decide⟩
  have hkept : Listed oldRings "\u212b" ∧ Listed newRings "\u212b" ∧
      ¬ Doubtful oldRings "\u212b" ∧ ¬ Doubtful newRings "\u212b" := by decide
  obtain ⟨hold, hnew, hdoubt, hdoubt'⟩ := hkept
  have hambiguous := (h ringNfc hnormal oldRings newRings _ _ hok "\u212b" (.inl hold)).2
    (.inr (.inr hclass))
  rcases (categoryIn_ambiguous ringNfc oldRings newRings _).1 hambiguous with
    hd | hd | ⟨⟨-, ho, -⟩ | ⟨-, ho, -⟩, -⟩
  · exact hdoubt hd
  · exact hdoubt' hd
  · exact ho hold
  · exact ho hnew

end TodDl.Inventory
