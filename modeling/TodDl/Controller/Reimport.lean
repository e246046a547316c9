/-
  The controller — importing queues again (tod-dl.py, `import_queues`).

  A call copies the tokens of every entry that `read_queues` yields into the row of its
  URL, so a row has the tokens of the latest entry (`Follows.protection_after`).

  `neverDropped_iff`: the rows keep the last checksum and the last size that a line gave,
  after every call of a sequence, exactly if no line leaves out a token that an earlier
  queue gave for its URL.
-/
import TodDl.Controller.DryRun
import TodDl.Lib.Latest

namespace TodDl.Store

variable {db : Db} {url rel stored staging updatedAt u : String}
  {size sha generation : Option String} {time : ℚ}

/-- The tokens that a row stores: the expected checksum and the size. -/
def Row.tokens (r : Row) : Option String × Option String := (r.expectedSha256, r.inventorySize)

/-- The tokens that are stored for a URL, if it has a row. -/
def Db.protection (db : Db) (url : String) : Option (Option String × Option String) :=
  (db.downloads.find? url).map Row.tokens

/-- What an import makes of the row of its entry. -/
structure Row.Placed (r : Row) (stored : String) (size sha generation : Option String) : Prop where
  storagePath : r.storagePath = some stored
  stagingPath : r.stagingPath ≠ none
  inventorySize : r.inventorySize = size
  expectedSha256 : r.expectedSha256 = sha
  sourceGeneration : r.sourceGeneration = generation

/-- What an update makes of the row of a URL. -/
theorem Db.updateWhere_spec {P Q : Row → Prop} {p : Row → Bool} {up : Update}
    (h : ∃ r, db.downloads.find? u = some r ∧ P r)
    (hset : ∀ r, r.url = u → P r → p r → Q (r.set up))
    (hleft : ∀ r, r.url = u → P r → p r = false → Q r) :
    ∃ r, (db.updateWhere p up).downloads.find? u = some r ∧ Q r := by
  obtain ⟨r, hr, hP⟩ := h
  rw [Db.find?_updateWhere, hr]
  cases hp : p r with
  | true => exact ⟨_, congrArg some (if_pos hp), hset r (Lib.Table.find?_key hr) hP hp⟩
  | false =>
    exact ⟨_, congrArg some (if_neg (by simp [hp])), hleft r (Lib.Table.find?_key hr) hP hp⟩

theorem Db.find?_updateWhere_other {p : Row → Bool} {up : Update}
    (h : ∀ r, r.url = u → p r = false) :
    (db.updateWhere p up).downloads.find? u = db.downloads.find? u := by
  rw [Db.find?_updateWhere]
  cases hrow : db.downloads.find? u with
  | none => rfl
  | some row =>
    rw [Option.map_some, h row (Lib.Table.find?_key hrow)]
    rfl

theorem Db.updateWhere_self {p : Row → Bool} {up : Update}
    (h : ∀ r ∈ db.downloads.rows, p r = true → r.set up = r) : db.updateWhere p up = db := by
  have hself : db.downloads.modify (fun r => if p r then r.set up else r)
      (fun r => by split <;> simp) = db.downloads := by
    refine Lib.Table.modify_self _ fun r hr => ?_
    split
    · next hp => exact h r hr hp
    · rfl
  exact congrArg (fun t => { db with downloads := t }) hself

/-- An import leaves the rows of other URLs alone. -/
theorem Db.importEntry_other (h : u ≠ url) :
    (db.importEntry url rel stored staging size sha generation time updatedAt).downloads.find? u =
      db.downloads.find? u := by
  have hother : ∀ r : Row, r.url = u → decide (r.url = url) = false := by
    rintro r rfl
    exact decide_eq_false h
  unfold Db.importEntry Db.recordSourceGeneration
  iterate 4
    refine (Db.find?_updateWhere_other fun r hr => by simp [hother r hr]).trans ?_
  rw [Lib.Table.find?_insertNew, if_neg fun heq => h heq.symm, Option.or_none]

/-- An import places the row of its entry. -/
theorem Db.importEntry_self : ∃ row,
    (db.importEntry url rel stored staging size sha generation time updatedAt).downloads.find? url =
      some row ∧ row.Placed stored size sha generation := by
  have hinserted : ∃ r, (db.downloads.insertNew
      { url, relativePath := rel, storagePath := some stored, stagingPath := some staging,
        inventorySize := size, expectedSha256 := sha, updatedAt }).find? url = some r ∧ True := by
    rw [Lib.Table.find?_insertNew]
    cases db.downloads.find? url with
    | none => exact ⟨_, if_pos rfl, trivial⟩
    | some row => exact ⟨row, rfl, trivial⟩
  unfold Db.importEntry Db.recordSourceGeneration
  -- the last update applies to the row; the one before names no column of the entry
  refine Db.updateWhere_spec (P := fun r => (r.storagePath = some stored ∧ r.stagingPath ≠ none) ∧
    r.inventorySize = size ∧ r.expectedSha256 = sha) ?_ ?_ ?_
  · refine Db.updateWhere_spec (P := fun r => (r.storagePath = some stored ∧ r.stagingPath ≠ none) ∧
      r.inventorySize = size ∧ r.expectedSha256 = sha) ?_ (fun r _ h _ => h) (fun r _ h _ => h)
    refine Db.updateWhere_spec (P := fun r => r.storagePath = some stored ∧ r.stagingPath ≠ none)
      ?_ ?_ ?_
    · refine Db.updateWhere_spec hinserted ?_ ?_
      · exact fun r _ _ _ => ⟨rfl, Option.some_ne_none _⟩
      · intro r hr _ hp
        simpa [hr] using hp
    · exact fun r _ h _ => ⟨h, rfl, rfl⟩
    · intro r hr h hp
      refine ⟨h, ?_⟩
      simpa [hr] using hp
  · rintro r - ⟨⟨hstorage, hstaging⟩, hsize, hsha⟩ -
    exact ⟨hstorage, hstaging, hsize, hsha, rfl⟩
  · intro r hr _ hp
    exact absurd hr (of_decide_eq_false hp)

/-- An import of the same entry again changes nothing. -/
theorem Db.importEntry_again {row : Row} (hrow : db.downloads.find? url = some row)
    (h : row.Placed stored size sha generation) :
    db.importEntry url rel stored staging size sha generation time updatedAt = db := by
  have honly : ∀ r ∈ db.downloads.rows, r.url = url → r = row := by
    rintro r hr rfl
    exact Option.some.inj ((Lib.Table.find?_eq_some.2 ⟨hr, rfl⟩).symm.trans hrow)
  obtain ⟨hstorage, hstaging, hsize, hsha, hgeneration⟩ := h
  have hinserted : ∀ new : Row, new.url = url → db.downloads.insertNew new = db.downloads := by
    rintro new rfl
    obtain ⟨hmem, hkey⟩ := Lib.Table.find?_eq_some.1 hrow
    exact Lib.Table.insertNew_of_mem (hkey ▸ List.mem_map_of_mem hmem)
  -- an update that asks for more than the URL does not apply
  have hnone : ∀ (p : Row → Bool) (up : Update), p row = false →
      (∀ r, r.url ≠ url → p r = false) → db.updateWhere p up = db := by
    intro p up hp hother
    refine Db.updateWhere_self fun r hr hpr => ?_
    by_cases hurl : r.url = url
    · rw [honly r hr hurl, hp] at hpr
      cases hpr
    · rw [hother r hurl] at hpr
      cases hpr
  unfold Db.importEntry Db.recordSourceGeneration
  simp only [hinserted]
  rw [hnone _ _ (by simp [hstorage, hstaging]) fun r hr => by simp [hr],
    hnone _ _ (by simp [hsize, hsha]) fun r hr => by simp [hr],
    hnone _ _ (by simp [hgeneration]) fun r hr => by simp [hr]]
  refine Db.updateWhere_self fun r hr hp => ?_
  rw [honly r hr (of_decide_eq_true hp), ← hgeneration]
  rfl

end TodDl.Store

namespace TodDl.Controller

open Lib (FileTree Path Prog)
open Lib.Latest (latest latestGiven Keeps Current)
open Store (Db Row)

/-! ## One call -/

/-- The statements of `import_queues` for some entries, with the clocks of each. -/
inductive ImportsAll (cfg : Config) (fs : FileTree) : List QueueEntry → Db → Db → Prop
  | nil {db : Db} : ImportsAll cfg fs [] db db
  | cons {entry : QueueEntry} {rest : List QueueEntry} {db db' : Db} (time : ℚ) (text : String) :
    ImportsAll cfg fs rest (db.importEntry entry.url (Lib.Posix.asPosix entry.rel)
      (Lib.Posix.asPosix (cfg.resolvedStorageTarget fs entry.rel entry.url).1)
      (pathText (cfg.stagingPath entry.url)) entry.inventorySize entry.expectedSha256
      entry.generation time text) db' →
    ImportsAll cfg fs (entry :: rest) db db'

section
variable {cfg : Config} {A : Env → Prop} {w w' : World} {entry : QueueEntry}
  {as : List QueueEntry} {fs : FileTree} {db db' : Db} {u : String}

theorem all_of_forEach (h : (Prog.forEach as (importQueueEntry cfg)).Ends A w (.ok ()) w') :
    w'.fs = w.fs ∧ ImportsAll cfg w.fs as w.db w'.db := by
  induction as generalizing w with
  | nil =>
    obtain ⟨-, rfl⟩ := h
    exact ⟨rfl, .nil⟩
  | cons entry as ih =>
    obtain ⟨_, w₂, h, hrest⟩ | ⟨_, herr, -⟩ := Prog.ends_bind.1 h
    · obtain ⟨⟨stored, target⟩, w₁, h₁, h₂⟩ | ⟨_, herr, -⟩ := Prog.ends_bind.1 h
      · obtain ⟨hresolved, rfl⟩ := ends_osLook_ok h₁
        obtain ⟨e, -, rfl⟩ := ends_dbChange_ok h₂
        obtain ⟨hfs, hall⟩ := ih hrest
        obtain rfl : (cfg.resolvedStorageTarget w₁.fs entry.rel entry.url).1 = stored :=
          congrArg Prod.fst (Except.ok.inj hresolved)
        exact ⟨hfs, .cons e.time e.text hall⟩
      · cases herr
    · cases herr

/-- A call that returns has executed the statements of its entries and committed them. -/
theorem all_of_importQueues (h : (importQueues cfg).Ends A w (.ok ()) w') :
    w'.fs = w.fs ∧ w'.disk = w'.db ∧ ImportsAll cfg w.fs cfg.queue.rows w.db w'.db := by
  obtain ⟨_, w₁, h₁, h₂⟩ | ⟨_, herr, -⟩ := Prog.ends_bind.1 h
  · obtain ⟨hfs, hall⟩ := all_of_forEach h₁
    obtain ⟨e, db, -, hdb, rfl⟩ := ends_dbCommit_ok h₂
    obtain rfl := Except.ok.inj hdb
    exact ⟨hfs, rfl, hall⟩
  · cases herr

/-- The tokens of an entry. -/
def QueueEntry.tokens (entry : QueueEntry) : Option String × Option String :=
  (entry.expectedSha256, entry.inventorySize)

theorem protection_importEntry {rel stored staging text : String} {time : ℚ} :
    (db.importEntry entry.url rel stored staging entry.inventorySize entry.expectedSha256
      entry.generation time text).protection u =
      if entry.url = u then some entry.tokens else db.protection u := by
  split
  · next hurl =>
    subst hurl
    obtain ⟨row, hrow, hplaced⟩ := Db.importEntry_self
    rw [Db.protection, hrow]
    exact congrArg some (Prod.ext hplaced.expectedSha256 hplaced.inventorySize)
  · next hurl => rw [Db.protection, Db.importEntry_other fun heq => hurl heq.symm, ← Db.protection]

/-- **What a call stores**: the tokens of the latest entry of a URL. -/
theorem ImportsAll.protection (h : ImportsAll cfg fs as db db') (u : String) :
    db'.protection u = ((latest QueueEntry.url as u).map QueueEntry.tokens).or (db.protection u) := by
  induction h with
  | nil => rfl
  | @cons entry rest db db' time text _ ih =>
    have hcons : latest QueueEntry.url (entry :: rest) u =
        (latest QueueEntry.url rest u).or (if entry.url = u then some entry else none) := by
      rw [← List.singleton_append, Lib.Latest.latest_append]
      congr 1
      by_cases hurl : entry.url = u <;> simp [latest, hurl]
    rw [ih, protection_importEntry, hcons]
    cases latest QueueEntry.url rest u with
    | some later => rfl
    | none => by_cases hurl : entry.url = u <;> simp [hurl]

/-! ## The same call again -/

/-- A row as the import of an entry leaves it. -/
def Db.Holds (cfg : Config) (fs : FileTree) (db : Db) (entry : QueueEntry) : Prop :=
  ∃ row, db.downloads.find? entry.url = some row ∧
    row.Placed (Lib.Posix.asPosix (cfg.resolvedStorageTarget fs entry.rel entry.url).1)
      entry.inventorySize entry.expectedSha256 entry.generation

theorem ImportsAll.other (h : ImportsAll cfg fs as db db') (hu : ∀ entry ∈ as, u ≠ entry.url) :
    db'.downloads.find? u = db.downloads.find? u := by
  induction h with
  | nil => rfl
  | cons time text _ ih =>
    rw [ih fun entry hentry => hu entry (List.mem_cons_of_mem _ hentry)]
    exact Db.importEntry_other (hu _ List.mem_cons_self)

theorem ImportsAll.holds (h : ImportsAll cfg fs as db db') (hn : (as.map (·.url)).Nodup) :
    ∀ entry ∈ as, Db.Holds cfg fs db' entry := by
  induction h with
  | nil => simp
  | @cons entry rest db db' time text hall ih =>
    obtain ⟨hnew, hn⟩ := List.nodup_cons.1 hn
    intro e he
    rcases List.mem_cons.1 he with rfl | he
    · obtain ⟨row, hrow, hplaced⟩ := Db.importEntry_self
      refine ⟨row, (hall.other fun later hlater heq => hnew ?_).trans hrow, hplaced⟩
      exact List.mem_map.2 ⟨later, hlater, heq.symm⟩
    · exact ih hn e he

/-- Where every entry holds already, a call changes nothing. -/
theorem ImportsAll.again (h : ImportsAll cfg fs as db db')
    (hholds : ∀ entry ∈ as, Db.Holds cfg fs db entry) : db' = db := by
  induction h with
  | nil => rfl
  | cons time text _ ih =>
    obtain ⟨⟨row, hrow, hplaced⟩, hrest⟩ := List.forall_mem_cons.1 hholds
    rw [Db.importEntry_again hrow hplaced] at ih
    exact ih hrest

/-- The final paths exist or not as before. -/
def SameDestination (cfg : Config) (fs fs' : FileTree) : Prop :=
  ∀ stored : List String, fs'.pathExists (cfg.destination ++ stored) =
    fs.pathExists (cfg.destination ++ stored)

theorem SameDestination.resolved {fs' : FileTree} (h : SameDestination cfg fs fs')
    (rel : List String) (url : String) :
    cfg.resolvedStorageTarget fs' rel url = cfg.resolvedStorageTarget fs rel url := by
  unfold Config.resolvedStorageTarget
  simp only [h _]

end

/-! ## Sequences of calls -/

/-- A call of `import_queues` that returned. -/
structure ImportCall where
  settings : Config
  /-- the lines of its queue files -/
  files : List (List String)
  before : World
  after : World
  returns : (importQueues (settings.reading files)).Ends (fun _ => True) before (.ok ()) after

namespace ImportCall

/-- The lines that `read_queues` accepts. -/
def entries (c : ImportCall) : List QueueEntry := (readQueues c.files).entries

variable (c : ImportCall)

theorem nodup : (c.entries.map QueueEntry.url).Nodup := (valid_readQueues c.files).nodup

theorem all : ImportsAll (c.settings.reading c.files) c.before.fs c.entries c.before.db
    c.after.db := (all_of_importQueues c.returns).2.2

/-- The same queues with an unchanged destination change nothing. -/
theorem again {repeated : ImportCall} (hsettings : repeated.settings = c.settings)
    (hfiles : repeated.files = c.files) (hdb : repeated.before.db = c.after.db)
    (hsame : SameDestination c.settings c.after.fs repeated.before.fs) :
    repeated.after.db = c.after.db := by
  have hholds := c.all.holds c.nodup
  have hall := repeated.all
  have hentries : repeated.entries = c.entries := by rw [entries, entries, hfiles]
  rw [hsettings, hfiles, hentries, hdb] at hall
  refine hall.again fun entry hentry => ?_
  obtain ⟨row, hrow, hplaced⟩ := hholds entry hentry
  refine ⟨row, hrow, ?_⟩
  have hbefore : SameDestination c.settings c.before.fs repeated.before.fs := by
    rw [← (all_of_importQueues c.returns).1]
    exact hsame
  exact (hbefore.resolved entry.rel entry.url).symm ▸ hplaced

end ImportCall

/-- Each call begins with the tokens that the one before it left; what else a row has may
    have changed in between. -/
def Follows : (String → Option (Option String × Option String)) → List ImportCall → Prop
  | _, [] => True
  | stored, c :: rest => c.before.db.protection = stored ∧ Follows c.after.db.protection rest

/-- A sequence of calls that begins without items. -/
structure Reimports where
  calls : List ImportCall
  follows : Follows (fun _ => none) calls

section
variable {stored : String → Option (Option String × Option String)}
  {pre post : List ImportCall} {c : ImportCall} {u : String}

theorem Follows.protection_before (h : Follows stored (pre ++ c :: post)) (u : String) :
    c.before.db.protection u =
      ((latest QueueEntry.url (pre.flatMap ImportCall.entries) u).map QueueEntry.tokens).or
        (stored u) := by
  induction pre generalizing stored with
  | nil => exact congrFun h.1 u
  | cons d pre ih =>
    obtain ⟨hbefore, hrest⟩ := h
    rw [ih hrest, d.all.protection u, hbefore, List.flatMap_cons, Lib.Latest.latest_append,
      Option.map_or, Option.or_assoc]

/-- **The tokens of a row are those of the latest entry.** -/
theorem Follows.protection_after (h : Follows stored (pre ++ c :: post)) (u : String) :
    c.after.db.protection u =
      ((latest QueueEntry.url ((pre ++ [c]).flatMap ImportCall.entries) u).map
        QueueEntry.tokens).or (stored u) := by
  rw [c.all.protection u, h.protection_before, List.flatMap_append, List.flatMap_singleton,
    Lib.Latest.latest_append, Option.map_or, Option.or_assoc]

end

/-! ## Tokens that are never dropped -/

/-- The last value that a line of some calls gave for a URL. -/
def lastGiven (token : QueueEntry → Option String) (calls : List ImportCall) (url : String) :
    Option String :=
  latestGiven QueueEntry.url token (calls.flatMap ImportCall.entries) url

namespace Reimports

/-- Importing never drops a checksum or a size. -/
structure NeverDropped (run : Reimports) : Prop where
  /-- after every call an item has the last values given -/
  current : ∀ pre c post, run.calls = pre ++ c :: post → ∀ row ∈ c.after.db.downloads.rows,
    row.expectedSha256 = lastGiven (·.expectedSha256) (pre ++ [c]) row.url ∧
      row.inventorySize = lastGiven (·.inventorySize) (pre ++ [c]) row.url
  /-- a line without a token leaves the stored value alone -/
  kept : ∀ c ∈ run.calls, ∀ entry ∈ c.entries, ∀ row,
    c.before.db.downloads.find? entry.url = some row →
      ∃ row', c.after.db.downloads.find? entry.url = some row' ∧
        (entry.expectedSha256 = none → row'.expectedSha256 = row.expectedSha256) ∧
        (entry.inventorySize = none → row'.inventorySize = row.inventorySize)
  /-- the same queues again change nothing -/
  again : ∀ c ∈ run.calls, ∀ repeated : ImportCall, repeated.settings = c.settings →
    repeated.files = c.files → repeated.before.db = c.after.db →
      SameDestination c.settings c.after.fs repeated.before.fs →
        repeated.after.db = c.after.db

/-- No accepted line leaves out a token that a line of an earlier call gave for its URL. -/
def TokensKept (run : Reimports) : Prop :=
  Keeps QueueEntry.url (·.expectedSha256) ImportCall.entries run.calls ∧
    Keeps QueueEntry.url (·.inventorySize) ImportCall.entries run.calls

/-- A token of a line with the column that stores it. -/
structure TokenColumn where
  token : QueueEntry → Option String
  column : Row → Option String
  copied : ∀ row entry, row.tokens = entry.tokens → column row = token entry

def TokenColumn.checksum : TokenColumn where
  token := QueueEntry.expectedSha256
  column := Row.expectedSha256
  copied := fun _ _ htokens => congrArg Prod.fst htokens

def TokenColumn.size : TokenColumn where
  token := QueueEntry.inventorySize
  column := Row.inventorySize
  copied := fun _ _ htokens => congrArg Prod.snd htokens

variable {run : Reimports} {pre post : List ImportCall} {c : ImportCall} {u : String}
  {row : Row}

theorem nodup (run : Reimports) : ∀ c ∈ run.calls, (c.entries.map QueueEntry.url).Nodup :=
  fun c _ => c.nodup

/-- The row that the latest entry of a URL left. -/
theorem latest_of_row (hcalls : run.calls = pre ++ c :: post)
    (hrow : c.after.db.downloads.find? u = some row) :
    ∃ entry, latest QueueEntry.url ((pre ++ [c]).flatMap ImportCall.entries) u = some entry ∧
      row.tokens = entry.tokens := by
  have hprotection := (hcalls ▸ run.follows).protection_after u
  rw [Db.protection, hrow, Option.or_none] at hprotection
  obtain ⟨entry, hentry, htokens⟩ := Option.map_eq_some_iff.1 hprotection.symm
  exact ⟨entry, hentry, htokens.symm⟩

theorem row_of_latest {entry : QueueEntry} (hcalls : run.calls = pre ++ c :: post)
    (h : latest QueueEntry.url ((pre ++ [c]).flatMap ImportCall.entries) u = some entry) :
    ∃ row, c.after.db.downloads.find? u = some row ∧ row.tokens = entry.tokens := by
  have hprotection := (hcalls ▸ run.follows).protection_after u
  rw [h, Option.or_none] at hprotection
  exact Option.map_eq_some_iff.1 hprotection

/-- Rows with the last values given have those of the latest entries. -/
theorem current_of_rows (t : TokenColumn)
    (h : ∀ pre c post, run.calls = pre ++ c :: post → ∀ row ∈ c.after.db.downloads.rows,
      t.column row = lastGiven t.token (pre ++ [c]) row.url) :
    Current QueueEntry.url t.token ImportCall.entries run.calls := by
  intro pre c post hcalls u
  cases hlatest : latest QueueEntry.url ((pre ++ [c]).flatMap ImportCall.entries) u with
  | none =>
    refine (Lib.Latest.latestGiven_eq_none.2 fun entry hentry hurl => ?_).symm
    exact absurd hurl (Lib.Latest.latest_eq_none.1 hlatest entry hentry)
  | some entry =>
    obtain ⟨row, hrow, htokens⟩ := row_of_latest hcalls hlatest
    obtain ⟨hmem, hurl⟩ := Lib.Table.find?_eq_some.1 hrow
    rw [Option.bind_some, ← t.copied row entry htokens, h pre c post hcalls row hmem, hurl]
    rfl

theorem rows_of_current (t : TokenColumn)
    (h : Current QueueEntry.url t.token ImportCall.entries run.calls)
    (hcalls : run.calls = pre ++ c :: post) (hrow : row ∈ c.after.db.downloads.rows) :
    t.column row = lastGiven t.token (pre ++ [c]) row.url := by
  obtain ⟨entry, hlatest, htokens⟩ :=
    latest_of_row hcalls (Lib.Table.find?_eq_some.2 ⟨hrow, rfl⟩)
  have hnow := h pre c post hcalls row.url
  rw [hlatest, Option.bind_some] at hnow
  exact (t.copied row entry htokens).trans hnow

/-- An entry without a token leaves its column alone. -/
theorem column_kept (t : TokenColumn)
    (h : Keeps QueueEntry.url t.token ImportCall.entries run.calls)
    (hcalls : run.calls = pre ++ c :: post) {entry : QueueEntry} (hentry : entry ∈ c.entries)
    (hnone : t.token entry = none) {row' : Row}
    (hrow : c.before.db.downloads.find? entry.url = some row)
    (htokens : row'.tokens = entry.tokens) :
    t.column row' = t.column row := by
  -- an earlier entry left the row, and gave no token either
  have hprotection := (hcalls ▸ run.follows).protection_before entry.url
  rw [Db.protection, hrow, Option.or_none] at hprotection
  obtain ⟨given, hgiven, hsame⟩ := Option.map_eq_some_iff.1 hprotection.symm
  have hmem := List.mem_of_getLast? hgiven
  obtain ⟨hmem, hurl⟩ := List.mem_filter.1 hmem
  obtain ⟨earlier, hearlier, hmem⟩ := List.mem_flatMap.1 hmem
  have hkept := h pre c post hcalls entry hentry earlier hearlier given hmem
    (of_decide_eq_true hurl)
  rw [hnone] at hkept
  rw [t.copied row' entry htokens, t.copied row given hsame.symm, hnone]
  cases hnow : t.token given with
  | none => rfl
  | some value =>
    rw [hnow] at hkept
    cases hkept rfl

theorem tokensKept_of_neverDropped (h : run.NeverDropped) : run.TokensKept := by
  constructor
  · refine (Lib.Latest.current_iff run.nodup).1 (current_of_rows .checksum ?_)
    exact fun pre c post hcalls row hrow => (h.current pre c post hcalls row hrow).1
  · refine (Lib.Latest.current_iff run.nodup).1 (current_of_rows .size ?_)
    exact fun pre c post hcalls row hrow => (h.current pre c post hcalls row hrow).2

/-- **Checksums and sizes are never dropped** exactly if no line leaves out a token that a
    line of an earlier queue gave. -/
theorem neverDropped_iff (run : Reimports) : run.NeverDropped ↔ run.TokensKept := by
  refine ⟨tokensKept_of_neverDropped, fun h => ⟨?_, ?_, ?_⟩⟩
  · intro pre c post hcalls row hrow
    have hchecksum := (Lib.Latest.current_iff run.nodup).2 h.1
    have hsize := (Lib.Latest.current_iff run.nodup).2 h.2
    exact ⟨rows_of_current .checksum hchecksum hcalls hrow, rows_of_current .size hsize hcalls hrow⟩
  · intro c hc entry hentry row hrow
    obtain ⟨pre, post, hcalls⟩ := List.append_of_mem hc
    have hlatest : latest QueueEntry.url ((pre ++ [c]).flatMap ImportCall.entries) entry.url =
        some entry := by
      rw [List.flatMap_append, List.flatMap_singleton, Lib.Latest.latest_append,
        Lib.Latest.latest_of_mem c.nodup hentry, Option.some_or]
    obtain ⟨row', hrow', htokens⟩ := row_of_latest hcalls hlatest
    exact ⟨row', hrow', fun hnone => column_kept .checksum h.1 hcalls hentry hnone hrow htokens,
      fun hnone => column_kept .size h.2 hcalls hentry hnone hrow htokens⟩
  · intro c _ repeated hsettings hfiles hdb hsame
    exact c.again hsettings hfiles hdb hsame

/-! ## A checksum that is dropped -/

/-- A queue with a checksum, and the same URL in a later queue without one. -/
theorem checksum_dropped : ¬ ∀ run : Reimports, run.NeverDropped := by
  intro h
  obtain ⟨after, hafter⟩ := exists_importQueues (oneQueue.reading digestLine) emptyFinal
  obtain ⟨later, hlater⟩ := exists_importQueues (oneQueue.reading plainLine) after
  let first : ImportCall :=
    ⟨oneQueue, digestLine, emptyFinal, after, hafter.mono fun _ _ => trivial⟩
  let second : ImportCall :=
    ⟨oneQueue, plainLine, after, later, hlater.mono fun _ _ => trivial⟩
  have hkept := tokensKept_of_neverDropped
    (h ⟨[first, second], funext fun _ => rfl, rfl, trivial⟩)
  obtain ⟨given, hgiven, hdigest⟩ := List.map_eq_singleton_iff.1 read_digestLine
  obtain ⟨entry, hentry, hplain⟩ := List.map_eq_singleton_iff.1 read_plainLine
  obtain ⟨hurl, -, hsha⟩ : given.url = _ ∧ given.rel = _ ∧ given.expectedSha256 = _ := by
    simpa using hdigest
  obtain ⟨hurl', hsha'⟩ : entry.url = _ ∧ entry.expectedSha256 = _ := by simpa using hplain
  have hmem : given ∈ (readQueues digestLine).entries := by
    rw [hgiven]
    exact List.mem_singleton_self given
  have hmem' : entry ∈ (readQueues plainLine).entries := by
    rw [hentry]
    exact List.mem_singleton_self entry
  have hsome := hkept.1 [first] second [] rfl entry hmem' first (List.mem_singleton_self first)
    given hmem (hurl.trans hurl'.symm)
  simp only [hsha, hsha'] at hsome
  cases hsome rfl

end Reimports

end TodDl.Controller
