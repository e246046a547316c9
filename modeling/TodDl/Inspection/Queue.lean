/-
  The inspection server — the queue view (inspection.py).

  `listQueue` is one request: it reads the items of the run in batches, in the order of
  their ranks, and shows those of a bucket that match a query, one page at a time; the
  cursor of a full page says where the next one begins.

  `listQueue_iff`: the view of a bucket is the items that the projection counts in it,
  except where an excluded item is concerned, for which the server has no bucket.
-/
import TodDl.Lib.Paging
import TodDl.Lib.Posix
import TodDl.Store.Incremental

namespace TodDl.Inspection

open Store
open Lib.Posix (components)

/-! ## `InspectionServer` -/

/-- `BUCKETS` -/
def buckets : List String :=
  ["queued", "busy", "retry", "exhausted", "complete", "existing_unverified", "review_required",
   "unavailable", "unknown"]

/-- `QUEUE_SCAN_BATCH` -/
def queueScanBatch : ℕ := 500

/-- `MAX_PAGE_SIZE` -/
def maxPageSize : ℤ := 200

/-- A sample of the runtime provider. -/
structure Sample where
  workerId : Option ℕ := none
  phase : Option String := none
  reason : Option String := none
  generation : Option String := none
  attemptNumber : Option ℤ := none
  engineName : Option String := none
  engineVersion : Option String := none
  engineInstanceId : Option String := none
  engineJobId : Option String := none
  pid : Option ℕ := none
  sampleAt : Option String := none
  sampleSequence : Option ℕ := none
  sampleAge : Option ℚ := none
  resumeBaselineBytes : Option ℕ := none
  totalBytes : Option ℕ := none
  totalSource : Option String := none
  validationProcessedBytes : Option ℕ := none

/-- `InspectionServer` -/
structure Server where
  runId : String
  sessionId : String
  maxAttempts : ℤ
  /-- `runtime_provider`, by URL -/
  runtime : String → Option Sample := fun _ => none

/-- The object in the text of a cursor. -/
structure QueueCursor where
  runId : String
  sessionId : String
  revision : ℕ
  bucket : String
  query : String
  rank : ℤ
  itemId : String

/-- The parameters of `list_queue`. -/
structure QueueParameters where
  bucket : String := "all"
  query : String := ""
  pageSize : ℤ := 100
  cursor : Option QueueCursor := none

/-- One row of a page. -/
structure QueueRow where
  itemId : String
  queueRank : ℤ
  basename : String
  bucket : String
  phase : Option String
  receivedBytes : Option ℕ
  totalBytes : Option ℕ
  retryAt : ℚ
  priority : ℤ

structure QueuePage where
  rows : List QueueRow
  nextCursor : Option QueueCursor

/-- `Path(path).name` -/
def basename (path : String) : String := (components path).getLast?.getD ""

/-- `needle in text` -/
def contains (needle text : String) : Bool := needle.toList <:+: text.toList

/-- The key that orders the queue: the rank, then the item ID. -/
def queueKey (x : ℤ × Row) : ℤ ×ₗ String := toLex (x.1, itemId x.2.url)

/-- The key after which a page begins. -/
def startKey : Option QueueCursor → ℤ ×ₗ String
  | none => toLex (-1, "")
  | some c => toLex (c.rank, c.itemId)

/-- `… run_items r JOIN downloads d ON d.url=r.url WHERE r.run_id=?` -/
def itemRows (db : Db) (runId : String) : List (ℤ × Row) :=
  (db.runItems.rows.filter fun i => i.runId = runId).filterMap fun i =>
    (db.downloads.find? i.url).map fun r => (i.queueRank, r)

/-- `ORDER BY r.queue_rank, item_id(d.url)` -/
def queueRows (db : Db) (runId : String) : List (ℤ × Row) :=
  (itemRows db runId).insertionSort fun a b => queueKey a ≤ queueKey b

namespace Server
variable (server : Server)

/-- `_bucket(status, attempts)` -/
def bucket (status : Status) (attempts : ℕ) : String :=
  if status = .complete then "complete"
  else if status ∈ [.active, .admitted, .promoting] then "busy"
  else if status ∈ [.retryWait, .failed] then
    if server.maxAttempts ≠ 0 ∧ server.maxAttempts ≤ attempts then "exhausted" else "retry"
  else if status ∈ [.existingUnverified, .reviewRequired, .unavailable] then status.text
  else if status = .queued then "queued" else "unknown"

/-- What a page shows of an item, if it shows the item. -/
def queueRow (bucket query : String) (x : ℤ × Row) : Option QueueRow :=
  let rowBucket := server.bucket x.2.status x.2.attempts
  if (bucket ≠ "all" ∧ bucket ≠ rowBucket) ∨ (query ≠ "" ∧ !contains query x.2.relativePath ∧
      !contains query (x.2.storagePath.getD "") ∧ !contains query (itemId x.2.url)) then none
  else
    let sample := server.runtime x.2.url
    let totalBytes := sample.bind (·.totalBytes)
    some
      { itemId := itemId x.2.url, queueRank := x.1, basename := basename x.2.relativePath
        bucket := rowBucket, phase := sample.bind (·.phase), receivedBytes := x.2.bytes
        totalBytes := if totalBytes = none ∧ rowBucket = "complete" then x.2.bytes else totalBytes
        retryAt := x.2.nextRetryAt, priority := x.2.priority }

/-- The loop of `_list_queue`, from a key on: the rows and where they end. -/
def scanQueue (db : Db) (bucket query : String) (size : ℕ) (after : ℤ ×ₗ String) :
    Lib.Scan QueueRow (ℤ ×ₗ String) :=
  let rows := queueRows db server.runId
  Lib.Scan.run queueKey (server.queueRow bucket query) size
    (fun k => (Lib.rowsAfter queueKey rows k).take queueScanBatch) queueScanBatch (rows.length + 1)
    { after }

/-- The cursor is of this run, session and revision, and of this view. -/
def current (db : Db) (bucket query : String) (c : QueueCursor) : Bool :=
  c.runId = server.runId && c.sessionId = server.sessionId &&
    c.revision = db.revision server.runId && c.bucket = bucket && c.query = query

/-- `_list_queue(db, parameters, revision, started)`, with the cursor as the object that its text
    is of; `queuePage` has the text. -/
def listQueue (db : Db) (p : QueueParameters) : Except String QueuePage :=
  if p.bucket ≠ "all" ∧ p.bucket ∉ buckets then .error "bucket is invalid"
  else if 1024 < (utf8 p.query).length then .error "query is invalid"
  else if ¬(1 ≤ p.pageSize ∧ p.pageSize ≤ maxPageSize) then .error "page_size is invalid"
  else if p.cursor.any (!server.current db p.bucket p.query ·) then .error "cursor expired"
  else
    let s := server.scanQueue db p.bucket p.query p.pageSize.toNat (startKey p.cursor)
    .ok
      { rows := s.shown
        nextCursor := if s.filled then
            some ⟨server.runId, server.sessionId, db.revision server.runId, p.bucket, p.query,
              (ofLex s.after).1, (ofLex s.after).2⟩
          else none }

/-- `rows` is what a reader sees who asks for the first page, and then follows the
    cursors of the pages to the end. -/
def Lists (db : Db) (p : QueueParameters) (rows : List QueueRow) : Prop :=
  Lib.Follows (fun cursor => (server.listQueue db { p with cursor }).map fun page =>
    (page.rows, page.nextCursor)) none rows

end Server

/-! ## The pages -/

section
variable {db : Db} {runId : String}

theorem queueRows_perm : (queueRows db runId).Perm (db.ranked runId) :=
  (List.perm_insertionSort _ _).trans (List.perm_insertionSort _ _).symm

/-- With distinct ranks, the item IDs do not matter. -/
theorem queueRows_eq (hw : WellRanked db runId) : queueRows db runId = db.ranked runId := by
  have hsorted : (queueRows db runId).Pairwise fun a b => a.1 ≤ b.1 := by
    have h : (queueRows db runId).Pairwise fun a b => queueKey a ≤ queueKey b :=
      List.pairwise_insertionSort (fun a b : ℤ × Row => queueKey a ≤ queueKey b) _
    refine h.imp fun {a b} hab => ?_
    rcases Prod.Lex.le_iff.1 hab with hlt | ⟨heq, -⟩
    · exact hlt.le
    · exact heq.le
  have hne : (queueRows db runId).Pairwise fun a b => a.1 ≠ b.1 := by
    refine (queueRows_perm.pairwise_iff fun h => h.symm).2 ?_
    exact hw.pairwise.imp fun h => h.ne
  have hstrict : (queueRows db runId).Pairwise fun a b => a.1 < b.1 :=
    (hsorted.and hne).imp fun h => lt_of_le_of_ne h.1 h.2
  exact queueRows_perm.eq_of_pairwise (fun a b _ _ hab hba => absurd hab hba.not_gt) hstrict
    hw.pairwise

variable {server : Server} (bucket query : String)

theorem pairwise_queueRows (hw : WellRanked db runId) :
    (queueRows db runId).Pairwise fun a b => queueKey a < queueKey b := by
  rw [queueRows_eq hw]
  refine hw.pairwise.imp fun {a b} (h : a.1 < b.1) => ?_
  exact Prod.Lex.lt_iff.2 (.inl h)

/-- A page shows rows after a key, and the others come after its cursor. -/
theorem Server.scanQueue_eq (hw : WellRanked db server.runId) {size : ℕ} (hsize : 0 < size)
    (k : ℤ ×ₗ String) : ∃ init tail,
      Lib.rowsAfter queueKey (queueRows db server.runId) k = init ++ tail ∧
      (server.scanQueue db bucket query size k).shown =
        init.filterMap (server.queueRow bucket query) ∧
      ((server.scanQueue db bucket query size k).filled = true ∧
          (server.scanQueue db bucket query size k).shown.length = size ∧
          (∃ x, init.getLast? = some x ∧ (server.queueRow bucket query x).isSome ∧
            (server.scanQueue db bucket query size k).after = queueKey x) ∧
          Lib.rowsAfter queueKey (queueRows db server.runId)
            (server.scanQueue db bucket query size k).after = tail ∨
        (server.scanQueue db bucket query size k).filled = false ∧
          (server.scanQueue db bucket query size k).shown.length < size ∧ tail = []) := by
  have hlen : (Lib.rowsAfter queueKey (queueRows db server.runId) k).length <
      (queueRows db server.runId).length + 1 := Nat.lt_succ_of_le (List.length_filter_le _ _)
  exact Lib.Scan.run_eq (s := ⟨[], k, false⟩) (pairwise_queueRows hw) (by decide) rfl hsize hlen

/-- A page that is asked for with a cursor begins at some rows. -/
structure Server.Begins (server : Server) (db : Db) (bucket query : String)
    (cursor : Option QueueCursor) (rows : List (ℤ × Row)) : Prop where
  current : ∀ c ∈ cursor, server.current db bucket query c = true
  rest : rows = Lib.rowsAfter queueKey (queueRows db server.runId) (startKey cursor)

theorem Server.begins_none (hw : WellRanked db server.runId) :
    server.Begins db bucket query none (queueRows db server.runId) := by
  refine ⟨by simp, (List.filter_eq_self.2 fun x hx => ?_).symm⟩
  have hrank := hw.rank_nonneg x (queueRows_perm.mem_iff.1 hx)
  exact decide_eq_true (Prod.Lex.lt_iff.2 (.inl hrank))

variable {bucket query}

/-- **The pages show the rows of the view**, in their order. -/
theorem Server.lists (hw : WellRanked db server.runId) (hbucket : bucket = "all" ∨ bucket ∈ buckets)
    (hquery : (utf8 query).length ≤ 1024) {size : ℤ} (hsize : 1 ≤ size ∧ size ≤ maxPageSize) :
    server.Lists db { bucket, query, pageSize := size }
      ((queueRows db server.runId).filterMap (server.queueRow bucket query)) := by
  refine Lib.follows_pages (server.Begins db bucket query) ?_ (server.begins_none bucket query hw)
  rintro cursor rows ⟨hcursor, rfl⟩
  have hpos : 0 < size.toNat := by omega
  obtain ⟨init, tail, hrows, hshown, hend⟩ :=
    server.scanQueue_eq bucket query hw hpos (startKey cursor)
  have hany : cursor.any (!server.current db bucket query ·) = false := by
    cases cursor with
    | none => rfl
    | some c => simpa using hcursor c rfl
  have hpage : server.listQueue db { bucket, query, pageSize := size, cursor } = .ok
      { rows := init.filterMap (server.queueRow bucket query)
        nextCursor := if (server.scanQueue db bucket query size.toNat (startKey cursor)).filled then
            some ⟨server.runId, server.sessionId, db.revision server.runId, bucket, query,
              (ofLex (server.scanQueue db bucket query size.toNat (startKey cursor)).after).1,
              (ofLex (server.scanQueue db bucket query size.toNat (startKey cursor)).after).2⟩
          else none } := by
    unfold listQueue
    simp only [hany, hshown]
    rw [if_neg (by tauto), if_neg (by omega), if_neg (by simpa using hsize), if_neg (by simp)]
  refine ⟨init, tail, _, hrows, by rw [hpage]; rfl, ?_, ?_⟩
  · intro hnone
    rcases hend with ⟨hfull, -⟩ | ⟨-, -, htail⟩
    · simp [hfull] at hnone
    · exact htail
  · intro c hc
    rcases hend with ⟨hfull, -, ⟨x, hx, -⟩, htail⟩ | ⟨hopen, -⟩
    · have hne : init ≠ [] := by
        rintro rfl
        cases hx
      simp only [hfull, if_true, Option.some.injEq] at hc
      obtain rfl := hc
      refine ⟨hne, fun c hc => ?_, htail.symm⟩
      obtain rfl := Option.some.inj hc
      simp [current]
    · simp [hopen] at hc

/-! ## The buckets -/

/-- The text of a display bucket. -/
def bucketText : Bucket → String
  | .queued => "queued"
  | .busy => "busy"
  | .retry => "retry"
  | .exhausted => "exhausted"
  | .complete => "complete"
  | .existingUnverified => "existing_unverified"
  | .reviewRequired => "review_required"
  | .unavailable => "unavailable"
  | .excluded => "excluded"
  | .unknown => "unknown"

theorem bucketText_injective {b c : Bucket} (h : bucketText b = bucketText c) : b = c := by
  revert h
  cases b <;> cases c <;> decide

/-- The server has every display bucket but that of the excluded items. -/
theorem bucketText_mem {b : Bucket} : bucketText b ∈ buckets ↔ b ≠ .excluded := by
  cases b <;> decide

/-- It counts the excluded items as unknown. -/
theorem Server.bucket_eq (status : Status) (attempts : ℕ) : server.bucket status attempts =
    bucketText (if status = .excluded then .unknown
      else displayBucket status attempts server.maxAttempts) := by
  unfold bucket displayBucket
  cases status <;> simp only [reduceCtorEq, if_false, if_true, List.mem_cons, List.not_mem_nil,
    or_false, or_true, or_self] <;> first | rfl | split <;> rfl

/-- The items in a display bucket. -/
def inBucket (maxAttempts : ℤ) (b : Bucket) (x : ℤ × Row) : Bool :=
  displayBucket x.2.status x.2.attempts maxAttempts = b

theorem counts_eq (hw : WellRanked db runId) (maxAttempts : ℤ) (b : Bucket) :
    (Projection.hydrate db runId maxAttempts).counts b =
      ((db.ranked runId).filter (inBucket maxAttempts b)).length := by
  have hcounts := (hw.countsReflect maxAttempts).counts b
  rw [maxAttempts_hydrate] at hcounts
  rw [hcounts, Lib.total]
  induction db.ranked runId with
  | nil => rfl
  | cons x rows ih =>
    have hcount : Db.Image.countIn maxAttempts b x.2.image =
        if inBucket maxAttempts b x then 1 else 0 := by
      by_cases hx : displayBucket x.2.status x.2.attempts maxAttempts = b
      · simp [Db.Image.countIn, Db.Image.bucket, inBucket, Row.image, hx]
      · simp [Db.Image.countIn, Db.Image.bucket, inBucket, Row.image, hx]
    rw [List.map_cons, List.map_cons, List.sum_cons, ih, List.filter_cons, hcount]
    split
    · rw [List.length_cons, Nat.cast_succ, add_comm]
    · rw [zero_add]

/-- The IDs that the view of a bucket shows. -/
theorem Server.ids_queueRow (hbucket : bucket ≠ "all") (rows : List (ℤ × Row)) :
    (rows.filterMap (server.queueRow bucket "")).map (·.itemId) =
      (rows.filter fun x => server.bucket x.2.status x.2.attempts = bucket).map
        fun x => itemId x.2.url := by
  induction rows with
  | nil => rfl
  | cons x rows ih =>
    by_cases hx : server.bucket x.2.status x.2.attempts = bucket
    · have hrow : ∃ row, server.queueRow bucket "" x = some row ∧ row.itemId = itemId x.2.url := by
        simp [queueRow, hx]
      obtain ⟨row, hrow, hid⟩ := hrow
      rw [List.filterMap_cons_some hrow, List.filter_cons_of_pos (by simpa using hx), List.map_cons,
        List.map_cons, hid, ih]
    · have hrow : server.queueRow bucket "" x = none := by
        simp [queueRow, hbucket, Ne.symm hx]
      rw [List.filterMap_cons_none hrow, List.filter_cons_of_neg (by simpa using hx), ih]

/-- The view of a bucket is the items that the projection counts in it. -/
def Server.Agrees (server : Server) (db : Db) (b : Bucket) (size : ℤ) : Prop :=
  ∃ rows, server.Lists db { bucket := bucketText b, pageSize := size } rows ∧
    rows.map (·.itemId) = ((db.ranked server.runId).filter (inBucket server.maxAttempts b)).map
      (fun x => itemId x.2.url) ∧
    (rows.length : ℤ) = (Projection.hydrate db server.runId server.maxAttempts).counts b

/-- What the view of a bucket shows: the items of the bucket, and the excluded ones among
    the unknown ones. -/
theorem Server.bucket_iff {b : Bucket} (hb : b ≠ .excluded) (x : ℤ × Row) :
    server.bucket x.2.status x.2.attempts = bucketText b ↔
      inBucket server.maxAttempts b x = true ∨ b = .unknown ∧ x.2.status = .excluded := by
  rw [server.bucket_eq, inBucket, decide_eq_true_eq]
  by_cases hx : x.2.status = .excluded
  · have hdisplay : displayBucket x.2.status x.2.attempts server.maxAttempts = .excluded := by
      rw [hx]
      rfl
    rw [if_pos hx, hdisplay]
    constructor
    · exact fun h => .inr ⟨(bucketText_injective h).symm, hx⟩
    · rintro (h | ⟨rfl, -⟩)
      · exact absurd h.symm hb
      · rfl
  · rw [if_neg hx]
    constructor
    · exact fun h => .inl (bucketText_injective h)
    · rintro (rfl | ⟨-, h⟩)
      · rfl
      · exact absurd h hx

theorem Server.not_lists_excluded {size : ℤ} {rows : List QueueRow} :
    ¬ server.Lists db { bucket := bucketText .excluded, pageSize := size } rows := by
  have herror : server.listQueue db { bucket := "excluded", pageSize := size } =
      .error "bucket is invalid" := by
    have hbucket : "excluded" ≠ "all" ∧ "excluded" ∉ buckets := by decide
    exact if_pos hbucket
  intro h
  cases h with
  | last hask => simp [bucketText, herror, Except.map] at hask
  | more hask => simp [bucketText, herror, Except.map] at hask

/-- **The queue view agrees with the dashboard** on every bucket but that of the excluded
    items, and on the unknown ones if no item is excluded. -/
theorem listQueue_iff {b : Bucket} {size : ℤ} (hw : WellRanked db server.runId)
    (hsize : 1 ≤ size ∧ size ≤ maxPageSize) : server.Agrees db b size ↔
      b ≠ .excluded ∧ (b = .unknown → ∀ r ∈ db.selected server.runId, r.status ≠ .excluded) := by
  by_cases hb : b = .excluded
  · subst hb
    constructor
    · rintro ⟨rows, hlists, -⟩
      exact absurd hlists server.not_lists_excluded
    · exact fun h => absurd rfl h.1
  have hquery : (utf8 "").length ≤ 1024 := by decide
  have hall : bucketText b ≠ "all" := by cases b <;> decide
  have hlists := server.lists hw (.inr (bucketText_mem.2 hb)) hquery hsize
  have hids := server.ids_queueRow hall (queueRows db server.runId)
  rw [queueRows_eq hw] at hlists hids
  have hlength := congrArg List.length hids
  rw [List.length_map, List.length_map] at hlength
  constructor
  · rintro ⟨rows, hrows, -, hcount⟩
    obtain rfl := hrows.unique hlists
    rw [counts_eq hw, hlength, Nat.cast_inj] at hcount
    refine ⟨hb, fun hunknown r hr hexcluded => ?_⟩
    obtain ⟨x, hx, rfl⟩ := List.mem_map.1 (ranked_perm.mem_iff.2 hr)
    -- what is counted is part of what is shown, and the excluded item is shown only
    have hpart : (db.ranked server.runId).filter (inBucket server.maxAttempts b) =
        ((db.ranked server.runId).filter fun x =>
          server.bucket x.2.status x.2.attempts = bucketText b).filter
            (inBucket server.maxAttempts b) := by
      rw [List.filter_filter]
      refine List.filter_congr fun y _ => ?_
      by_cases hy : inBucket server.maxAttempts b y = true
      · simp [hy, (server.bucket_iff hb y).2 (.inl hy)]
      · simp [hy]
    rw [hpart] at hcount
    have hshown : x ∈ (db.ranked server.runId).filter fun x =>
        server.bucket x.2.status x.2.attempts = bucketText b :=
      List.mem_filter.2 ⟨hx, decide_eq_true ((server.bucket_iff hb x).2 (.inr ⟨hunknown, hexcluded⟩))⟩
    have hin := List.length_filter_eq_length_iff.1 hcount.symm x hshown
    rw [inBucket, decide_eq_true_eq, hexcluded, hunknown] at hin
    cases hin
  · rintro ⟨-, hnone⟩
    have hsame : ((db.ranked server.runId).filter fun x =>
        server.bucket x.2.status x.2.attempts = bucketText b) =
          (db.ranked server.runId).filter (inBucket server.maxAttempts b) := by
      refine List.filter_congr fun x hx => ?_
      rw [Bool.eq_iff_iff, decide_eq_true_eq, server.bucket_iff hb]
      constructor
      · rintro (h | ⟨hunknown, hexcluded⟩)
        · exact h
        · exact absurd hexcluded
            (hnone hunknown x.2 (ranked_perm.mem_iff.1 (List.mem_map_of_mem hx)))
      · exact .inl
    refine ⟨_, hlists, by rw [hids, hsame], ?_⟩
    rw [counts_eq hw, hlength, hsame]

end

/-- A server of the run "run". -/
def someServer : Server where
  runId := "run"
  sessionId := "session"
  maxAttempts := 6

/-- A run of four items, two of them queued. -/
def fourItemsDb : Db where
  downloads := ⟨[
    { url := "https://host/set/1.bin", relativePath := "set/1.bin", updatedAt := "" },
    { url := "https://host/set/2.bin", relativePath := "set/2.bin", status := .complete
      updatedAt := "" },
    { url := "https://host/set/3.bin", relativePath := "set/3.bin", updatedAt := "" },
    { url := "https://host/set/4.bin", relativePath := "set/4.bin", status := .reviewRequired
      updatedAt := "" }], by decide⟩
  runItems := ⟨[⟨"run", "https://host/set/1.bin", 3⟩, ⟨"run", "https://host/set/2.bin", 1⟩,
    ⟨"run", "https://host/set/3.bin", 0⟩, ⟨"run", "https://host/set/4.bin", 2⟩], by decide⟩

theorem wellRanked_fourItemsDb : WellRanked fourItemsDb "run" := ⟨by decide, by decide, by decide⟩

/-- The two queued items are the rows of two pages of their bucket. -/
theorem listQueue_queued : someServer.Agrees fourItemsDb .queued 1 :=
  (listQueue_iff wellRanked_fourItemsDb (by decide)).2 ⟨by decide, fun h => by cases h⟩

/-- A run of one item, which is excluded. -/
def excludedDb : Db where
  downloads := ⟨[{ url := "https://host/set/a.bin", relativePath := "set/a.bin", status := .excluded
                   updatedAt := "" }], by decide⟩
  runItems := ⟨[⟨"run", "https://host/set/a.bin", 0⟩], Store.nodup_oneRunItem⟩

/-- The projection counts it as excluded, and the server has no such bucket. -/
theorem excluded_not_listed : ¬ ∀ (server : Server) (db : Db) (b : Bucket) (size : ℤ),
    WellRanked db server.runId → 1 ≤ size ∧ size ≤ maxPageSize → server.Agrees db b size := by
  intro h
  have hw : WellRanked excludedDb "run" := ⟨by decide, by decide, by decide⟩
  obtain ⟨rows, hlists, -⟩ := h someServer excludedDb .excluded 1 hw (by decide)
  exact someServer.not_lists_excluded hlists

end TodDl.Inspection
