/-
  The inspection server — following the attempts of an item (inspection.py,
  `_list_attempts`).

  A page is read with one row more than it shows: with that row there is a cursor, which
  names the last row that is shown.  `AttemptLine` is a row of `download_attempts` with
  whatever numbers and IDs the table holds.

  * `Server.keyset_attempts`: the pages are those of a keyset, whose cursors are read back
    if they are short enough;
  * `Server.attempts_complete_iff`: following the cursors lists the attempts of an item, each once
    and the latest first, exactly if every cursor is short enough to be read back, as those
    of the controller's own attempts are.
-/
import TodDl.Inspection.Cursor
import TodDl.Inspection.Records

namespace TodDl.Inspection

open Store
open Provenance (PyVal pyEq joinComma)

/-! ## `_list_attempts` -/

/-- A row of `download_attempts`, as it is selected for an item. -/
structure AttemptLine where
  attemptNumber : ℤ
  attemptId : String
  generation : Option String := none
  startedAt : Option String := none
  endedAt : Option String := none
  outcome : Option String := none
  errorCategory : Option String := none
  errorMessage : Option String := none
  retryAt : Option String := none

/-- The attempts of one item in one run; the attempt ID completes the primary key. -/
abbrev Attempts := Lib.Table AttemptLine.attemptId

/-- `ORDER BY attempt_number DESC, attempt_id ASC` -/
def AttemptLine.order (a b : AttemptLine) : Prop :=
  b.attemptNumber < a.attemptNumber ∨ a.attemptNumber = b.attemptNumber ∧ a.attemptId ≤ b.attemptId

instance : DecidableRel AttemptLine.order := fun _ _ => inferInstanceAs (Decidable (_ ∨ _ ∧ _))

/-- One attempt comes before another in that order. -/
def AttemptLine.before (a b : AttemptLine) : Prop :=
  b.attemptNumber < a.attemptNumber ∨ a.attemptNumber = b.attemptNumber ∧ a.attemptId < b.attemptId

/-- `attempt_number<? OR (attempt_number=? AND attempt_id>?)` -/
def AttemptLine.comesAfter (k : ℤ × String) (a : AttemptLine) : Bool :=
  a.attemptNumber < k.1 || (a.attemptNumber = k.1 && k.2 < a.attemptId)

namespace Server
variable (server : Server) (revision : ℕ) (id : String)

/-- The object in the cursor after an attempt, in the order of its names. -/
def attemptFields (a : AttemptLine) : List (String × Scalar) :=
  [("attempt_id", .text a.attemptId), ("attempt_number", .number a.attemptNumber),
   ("item_id", .text id), ("revision", .number revision), ("run_id", .text server.runId),
   ("session_id", .text server.sessionId)]

/-- The number and the ID in a cursor of this item. -/
def readAttemptCursor (value : String) : Except String (ℤ × String) := do
  let cursor := PyVal.dict (← cursorDecode value)
  if !(pyEq (cursor.get "run_id") (.str server.runId) &&
      pyEq (cursor.get "session_id") (.str server.sessionId) &&
      pyEq (cursor.get "revision") (.int revision) && pyEq (cursor.get "item_id") (.str id)) then
    throw "cursor expired"
  match cursor.get "attempt_number", cursor.get "attempt_id" with
  | .int number, .str attemptId => return (number, attemptId)
  | .bool number, .str attemptId => return ((number.toNat : ℤ), attemptId)
  | _, _ => throw "cursor is invalid"

def attemptStart : Option String → Except String (Option (ℤ × String))
  | none => .ok none
  | some value => (server.readAttemptCursor revision id value).map some

/-- The page of these attempts after a number and an ID, and its cursor. -/
def attemptsAfter (attempts : Attempts) (size : ℕ) (start : Option (ℤ × String)) :
    List AttemptLine × Option String :=
  let rows := ((attempts.rows.insertionSort AttemptLine.order).filter fun a =>
    start.all (AttemptLine.comesAfter · a)).take (size + 1)
  let shown := rows.take size
  (shown, if size < rows.length then
      shown.getLast?.map fun a => objectEncode (server.attemptFields revision id a)
    else none)

/-- `_list_attempts(db, parameters, revision)`; `contents` has the attempts of each URL. -/
def attemptsPage (db : Db) (contents : String → Attempts) (pageSize : ℤ)
    (cursor : Option String) : Except String (List AttemptLine × Option String) :=
  if !isItemId id then .error "item ID is invalid"
  else if ¬(1 ≤ pageSize ∧ pageSize ≤ maxPageSize) then .error "page_size is invalid"
  else match itemRow (itemRows db server.runId) id with
    | none => .error "item was not found"
    | some x => (server.attemptStart (db.revision server.runId) id cursor).map
        (server.attemptsAfter (db.revision server.runId) id (contents x.2.url) pageSize.toNat)

/-- Following the cursors from the first page on comes to an end, and the pages are the
    attempts, each once and the latest first; every page but the last one is full, and there is
    no empty page after another. -/
def AttemptsComplete (db : Db) (contents : String → Attempts) (pageSize : ℤ)
    (attempts : Attempts) : Prop :=
  ∃ pages, Lib.Follows (Lib.byPage (server.attemptsPage id db contents pageSize)) none pages ∧
    pages.flatten.Perm attempts.rows ∧ pages.flatten.Pairwise AttemptLine.before ∧
    (∀ page ∈ pages.dropLast, page.length = pageSize.toNat) ∧
    (∀ page ∈ pages, page.length ≤ pageSize.toNat) ∧ (attempts.rows ≠ [] → [] ∉ pages)

/-- The text of the cursor after every page but the last one is short enough to be read back. -/
def AttemptsFit (pageSize : ℤ) (attempts : Attempts) : Prop :=
  ∀ m a, 0 < m → m * pageSize.toNat < attempts.rows.length →
    (attempts.rows.insertionSort AttemptLine.order)[m * pageSize.toNat - 1]? = some a →
      (objectText (server.attemptFields revision id a)).length ≤ 768

end Server

/-! ## The order -/

/-- The key that orders the attempts. -/
def AttemptLine.key (a : AttemptLine) : ℤᵒᵈ ×ₗ String :=
  toLex (OrderDual.toDual a.attemptNumber, a.attemptId)

theorem AttemptLine.before_iff {a b : AttemptLine} : a.before b ↔ a.key < b.key := by
  rw [key, key, Prod.Lex.toLex_lt_toLex, OrderDual.toDual_lt_toDual, OrderDual.toDual_inj]
  rfl

theorem AttemptLine.order_iff {a b : AttemptLine} : a.order b ↔ a.key ≤ b.key := by
  rw [key, key, Prod.Lex.toLex_le_toLex, OrderDual.toDual_lt_toDual, OrderDual.toDual_inj]
  rfl

theorem AttemptLine.comesAfter_iff {a b : AttemptLine} :
    b.comesAfter (a.attemptNumber, a.attemptId) = true ↔ a.key < b.key := by
  rw [← before_iff, before, comesAfter, Bool.or_eq_true, Bool.and_eq_true, decide_eq_true_eq,
    decide_eq_true_eq, decide_eq_true_eq, eq_comm (a := b.attemptNumber)]

instance : Std.Total AttemptLine.order where
  total a b := by
    rw [AttemptLine.order_iff, AttemptLine.order_iff]
    exact le_total _ _

instance : IsTrans AttemptLine AttemptLine.order where
  trans a b c := by
    rw [AttemptLine.order_iff, AttemptLine.order_iff, AttemptLine.order_iff]
    exact le_trans

/-- The attempts in their order: with distinct IDs there are no ties. -/
theorem pairwise_attempts (attempts : Attempts) :
    (attempts.rows.insertionSort AttemptLine.order).Pairwise fun a b => a.key < b.key := by
  have hsorted : (attempts.rows.insertionSort AttemptLine.order).Pairwise AttemptLine.order :=
    List.pairwise_insertionSort _ _
  have hne : (attempts.rows.insertionSort AttemptLine.order).Pairwise
      fun a b => a.attemptId ≠ b.attemptId := by
    refine ((List.perm_insertionSort _ _).pairwise_iff fun h => h.symm).2 ?_
    exact List.pairwise_map.1 attempts.nodup
  refine (hsorted.and hne).imp fun {a b} h => ?_
  refine lt_of_le_of_ne (AttemptLine.order_iff.1 h.1) fun heq => h.2 ?_
  exact congrArg (fun k => (ofLex k).2) heq

/-! ## The cursors -/

namespace Server
section
variable {server : Server} {revision : ℕ} {id : String}

/-- **A cursor of the same item** gives its number and ID, if it is short enough. -/
theorem readAttemptCursor_encode {a : AttemptLine}
    (h : (objectText (server.attemptFields revision id a)).length ≤ 768) :
    server.readAttemptCursor revision id (objectEncode (server.attemptFields revision id a)) =
      .ok (a.attemptNumber, a.attemptId) := by
  have hdecode := cursorDecode_encode (server.attemptFields revision id a) nofun
    (by simp [attemptFields]) h
  rw [readAttemptCursor, hdecode]
  simp [attemptFields, bind, Except.bind, PyVal.get, PyVal.items, Provenance.lookup,
    Scalar.toPy, pyEq, PyVal.number, pure, Except.pure]

theorem readAttemptCursor_long {a : AttemptLine}
    (h : ¬ (objectText (server.attemptFields revision id a)).length ≤ 768) :
    server.readAttemptCursor revision id (objectEncode (server.attemptFields revision id a)) =
      .error "cursor is invalid" := by
  rw [readAttemptCursor, cursorDecode_long _ h]
  rfl

/-- A digest has the form of an item ID. -/
theorem isItemId_hexdigest (data : List UInt8) : isItemId (Lib.Sha256.hexdigest data) = true := by
  have hdigits : ∀ c ∈ "0123456789abcdef".toList,
      (c.isDigit || ('a' ≤ c && c ≤ 'f')) = true := by simp
  rw [isItemId, Lib.Sha256.length_hexdigest, Bool.and_eq_true, List.all_eq_true]
  exact ⟨rfl, fun c hc => hdigits c (Lib.Sha256.mem_hexdigest hc)⟩

/-- The ID of an item is a digest. -/
theorem isItemId_of_itemRow {rows : List (ℤ × Row)} {x : ℤ × Row} (h : itemRow rows id = some x) :
    isItemId id = true := by
  have hid : itemId x.2.url = id := by simpa using List.find?_some h
  rw [← hid]
  exact isItemId_hexdigest _

variable {db : Db} {contents : String → Attempts} {pageSize : ℤ} {x : ℤ × Row}

theorem attemptsAfter_eq (attempts : Attempts) (size : ℕ) (start : Option (ℤ × String)) :
    server.attemptsAfter revision id attempts size start =
      Lib.keysetPage (fun a => objectEncode (server.attemptFields revision id a)) size
        ((attempts.rows.insertionSort AttemptLine.order).filter fun a =>
          start.all (AttemptLine.comesAfter · a)) := rfl

/-- **The pages are those of a keyset.** -/
theorem keyset_attempts (contents : String → Attempts)
    (hitem : itemRow (itemRows db server.runId) id = some x)
    (hsize : 1 ≤ pageSize ∧ pageSize ≤ maxPageSize) :
    Lib.Keyset AttemptLine.key
      (fun a => objectEncode (server.attemptFields (db.revision server.runId) id a))
      pageSize.toNat (server.attemptsPage id db contents pageSize)
      ((contents x.2.url).rows.insertionSort AttemptLine.order)
      (fun a =>
        (objectText (server.attemptFields (db.revision server.runId) id a)).length ≤ 768) := by
  have hpage : ∀ cursor, server.attemptsPage id db contents pageSize cursor =
      (server.attemptStart (db.revision server.runId) id cursor).map
        (server.attemptsAfter (db.revision server.runId) id (contents x.2.url) pageSize.toNat) := by
    intro cursor
    rw [attemptsPage, isItemId_of_itemRow hitem, if_neg (by simp), if_neg (by simpa using hsize),
      hitem]
  refine ⟨pairwise_attempts _, by omega, ?_, fun a ha => ?_, fun a ha page => ?_⟩
  · have hall : ((contents x.2.url).rows.insertionSort AttemptLine.order).filter
        (fun a => (none : Option (ℤ × String)).all (AttemptLine.comesAfter · a)) =
          (contents x.2.url).rows.insertionSort AttemptLine.order :=
      List.filter_eq_self.2 fun _ _ => rfl
    rw [hpage, attemptStart, Except.map, attemptsAfter_eq, hall]
  · have hstart : server.attemptStart (db.revision server.runId) id
        (some (objectEncode (server.attemptFields (db.revision server.runId) id a))) =
          .ok (some (a.attemptNumber, a.attemptId)) := by
      rw [attemptStart, readAttemptCursor_encode ha]
      rfl
    have hafter : ∀ b : AttemptLine, (some (a.attemptNumber, a.attemptId)).all
        (AttemptLine.comesAfter · b) = decide (a.key < b.key) := by
      intro b
      rw [Option.all_some, Bool.eq_iff_iff, decide_eq_true_eq, AttemptLine.comesAfter_iff]
    rw [hpage, hstart, Except.map, attemptsAfter_eq, Lib.rowsAfter,
      List.filter_congr fun b _ => hafter b]
  · rw [hpage, attemptStart, readAttemptCursor_long ha, Except.map, Except.map]
    intro h
    cases h

/-- **Following the cursors lists the attempts of an item**, each once and the latest first,
    exactly if the cursors are short enough. -/
theorem attempts_complete_iff (hitem : itemRow (itemRows db server.runId) id = some x)
    (hsize : 1 ≤ pageSize ∧ pageSize ≤ maxPageSize) :
    server.AttemptsComplete id db contents pageSize (contents x.2.url) ↔
      server.AttemptsFit (db.revision server.runId) id pageSize (contents x.2.url) := by
  have hkeyset := server.keyset_attempts contents hitem hsize
  have hlength := List.length_insertionSort AttemptLine.order (contents x.2.url).rows
  constructor
  · rintro ⟨pages, hfollows, -⟩ m a hm hin ha
    exact hkeyset.reads_of_follows .first hfollows m a (Nat.zero_le m) hm (hlength.symm ▸ hin) ha
  · intro hfit
    obtain ⟨pages, hfollows, hpages⟩ := hkeyset.follows_iff.2 fun m a hm hin ha =>
      hfit m a hm (hlength ▸ hin) ha
    refine ⟨pages, hfollows, ?_, ?_, hpages.full, hpages.short, fun hne => hpages.nonempty ?_⟩
    · rw [hpages.flatten]
      exact List.perm_insertionSort _ _
    · rw [hpages.flatten]
      exact (pairwise_attempts _).imp AttemptLine.before_iff.2
    · rw [← List.length_pos_iff, hlength]
      exact List.length_pos_of_ne_nil hne

/-- A digest is written as it is. -/
theorem length_asciiString_digest (h : isItemId id = true) : (asciiString id).length = 66 := by
  rw [isItemId, Bool.and_eq_true, decide_eq_true_eq, List.all_eq_true] at h
  have hplain : ∀ c ∈ id.toList, asciiChar c = [c] := by
    intro c hc
    have hrange : 48 ≤ c.toNat ∧ c.toNat ≤ 57 ∨ 97 ≤ c.toNat ∧ c.toNat ≤ 102 := by
      have hdigit := h.2 c hc
      simp only [Char.isDigit, Bool.or_eq_true, Bool.and_eq_true, decide_eq_true_eq] at hdigit
      exact hdigit
    have hne : ∀ d : Char, ¬ (48 ≤ d.toNat ∧ d.toNat ≤ 57 ∨ 97 ≤ d.toNat ∧ d.toNat ≤ 102) →
        c ≠ d := by
      rintro d hd rfl
      exact hd hrange
    rw [asciiChar, if_neg (hne _ (by decide)), if_neg (hne _ (by decide)),
      if_neg (hne _ (by decide)), if_neg (hne _ (by decide)), if_neg (hne _ (by decide)),
      if_neg (by omega), if_neg (by omega), if_pos (by omega)]
  have hsame : id.toList.flatMap asciiChar = id.toList := by
    rw [List.flatMap_congr hplain, List.flatMap_singleton']
  rw [asciiString, hsame, List.length_cons, List.length_append, String.length_toList, h.1]
  rfl

/-- A number of 64 bits has at most 20 characters. -/
theorem length_dumps_number {i : ℤ} (h : i.natAbs < 10 ^ 19) :
    (Scalar.number i).dumps.length ≤ 20 := by
  have hdigits : ∀ n : ℕ, n < 10 ^ 19 → (Nat.toDigits 10 n).length ≤ 19 := fun n hn =>
    (Nat.length_toDigits_le_iff (by decide) (by decide)).2 hn
  cases i with
  | ofNat n =>
    rw [Scalar.dumps, show (toString (Int.ofNat n)).toList = Nat.toDigits 10 n from
      Nat.toList_repr]
    exact (hdigits n h).trans (by decide)
  | negSucc n =>
    rw [Scalar.dumps, Provenance.toString_negSucc, List.length_cons]
    have := hdigits (n + 1) h
    omega

theorem length_attemptFields (a : AttemptLine) :
    (objectText (server.attemptFields revision id a)).length =
      80 + (asciiString a.attemptId).length + (Scalar.number a.attemptNumber).dumps.length +
        (asciiString id).length + (Scalar.number revision).dumps.length +
        (asciiString server.runId).length + (asciiString server.sessionId).length := by
  have hkeys : (asciiString "attempt_id").length = 12 ∧ (asciiString "attempt_number").length = 16 ∧
      (asciiString "item_id").length = 9 ∧ (asciiString "revision").length = 10 ∧
      (asciiString "run_id").length = 8 ∧ (asciiString "session_id").length = 12 := by decide
  simp only [objectText, attemptFields, List.map_cons, List.map_nil, joinComma, dumpsField,
    List.length_cons, List.length_append, List.length_nil, hkeys]
  simp only [Scalar.dumps]
  omega

/-- **The attempts of the controller fit**: their IDs are digests, and the IDs of the run and
    of the session are not very long. -/
theorem attemptsFit_digests {attempts : Attempts} (hitem : isItemId id = true)
    (hattempts : ∀ a ∈ attempts.rows,
      isItemId a.attemptId = true ∧ a.attemptNumber.natAbs < 10 ^ 19)
    (hrevision : revision < 10 ^ 19)
    (hrun : (asciiString server.runId).length + (asciiString server.sessionId).length ≤ 512) :
    server.AttemptsFit revision id pageSize attempts := by
  intro m a _ _ ha
  obtain ⟨hid, hnumber⟩ := hattempts a ((List.mem_insertionSort _).1 (List.mem_of_getElem? ha))
  have hnumber := length_dumps_number hnumber
  have hrevision := length_dumps_number (i := revision) hrevision
  rw [length_attemptFields, length_asciiString_digest hid, length_asciiString_digest hitem]
  omega

end
end Server

/-- Two attempts of an item. -/
def twoAttempts (first : String) (h : "b" ≠ first) : Attempts :=
  ⟨[{ attemptNumber := 1, attemptId := "b" }, { attemptNumber := 2, attemptId := first }],
    by simpa using h⟩

theorem itemRow_oneItem : ∃ x,
    itemRow (itemRows oneItemDb someServer.runId) (itemId "https://host/set/a.bin") = some x := by
  have hrows : itemRows oneItemDb someServer.runId =
      [(0, { url := "https://host/set/a.bin", relativePath := "set/a.bin", updatedAt := "" })] :=
    rfl
  rw [hrows]
  exact ⟨_, List.find?_cons_of_pos (by simp)⟩

theorem length_twoAttempts (first : String) (h : "b" ≠ first) :
    1 * (1 : ℤ).toNat < ((twoAttempts first h).rows.insertionSort AttemptLine.order).length := by
  rw [List.length_insertionSort]
  exact Nat.lt_succ_self 1

theorem first_twoAttempts (first : String) (h : "b" ≠ first) :
    ((twoAttempts first h).rows.insertionSort AttemptLine.order)[0]? =
      some { attemptNumber := 2, attemptId := first } := rfl

/-- Two attempts, in pages of one. -/
theorem attempts_complete_two : someServer.AttemptsComplete (itemId "https://host/set/a.bin")
    oneItemDb (fun _ => twoAttempts "a" (by decide)) 1 (twoAttempts "a" (by decide)) := by
  obtain ⟨x, hx⟩ := itemRow_oneItem
  refine (Server.attempts_complete_iff hx (by decide)).2 fun m a hm hin ha => ?_
  obtain rfl : m = 1 := by
    change m * 1 < 2 at hin
    omega
  rw [show 1 * (1 : ℤ).toNat - 1 = 0 from rfl, first_twoAttempts] at ha
  obtain rfl := Option.some.inj ha
  have htexts : (asciiString "a").length = 3 ∧ (asciiString someServer.runId).length = 5 ∧
      (asciiString someServer.sessionId).length = 9 := by decide
  have hnumbers : (Scalar.number 2).dumps.length = 1 ∧
      (Scalar.number (oneItemDb.revision someServer.runId)).dumps.length = 1 := by decide
  rw [Server.length_attemptFields,
    Server.length_asciiString_digest (Server.isItemId_of_itemRow hx), htexts.1, htexts.2.1,
    htexts.2.2, hnumbers.1, hnumbers.2]
  decide

/-- A cursor that is too long ends the listing. -/
theorem not_complete_twoAttempts {first : String} (h : "b" ≠ first)
    (hlong : 768 ≤ (asciiString first).length) {x : ℤ × Row}
    (hx : itemRow (itemRows oneItemDb someServer.runId) (itemId "https://host/set/a.bin") =
      some x) :
    ¬ someServer.AttemptsComplete (itemId "https://host/set/a.bin") oneItemDb
      (fun _ => twoAttempts first h) 1 (twoAttempts first h) := by
  rintro ⟨pages, hfollows, -⟩
  have hsize : 1 ≤ (1 : ℤ) ∧ 1 ≤ maxPageSize := by decide
  have hkeyset := Server.keyset_attempts (fun _ => twoAttempts first h) hx hsize
  have hfit := hkeyset.reads_of_follows .first hfollows 1 _ (by decide) (by decide)
    (length_twoAttempts first h) (first_twoAttempts first h)
  rw [Server.length_attemptFields] at hfit
  dsimp only at hfit
  omega

theorem length_asciiString_letters (n : ℕ) :
    (asciiString (String.ofList (List.replicate n 'a'))).length = n + 2 := by
  have hletter : (asciiChar 'a').length = 1 := by decide
  simp [asciiString, hletter]

/-- An ID of 800 letters, which the table can hold. -/
def longId : String := String.ofList (List.replicate 800 'a')

/-- The cursor after the first attempt is too long, and the second one is never seen. -/
theorem longId_incomplete : ¬ ∀ (server : Server) (id : String) (db : Db)
    (contents : String → Attempts) (pageSize : ℤ) (x : ℤ × Row),
    itemRow (itemRows db server.runId) id = some x → 1 ≤ pageSize ∧ pageSize ≤ maxPageSize →
      server.AttemptsComplete id db contents pageSize (contents x.2.url) := by
  intro hall
  obtain ⟨x, hx⟩ := itemRow_oneItem
  have hlong : (asciiString longId).length = 800 + 2 := length_asciiString_letters 800
  have hne : "b" ≠ longId := by
    intro h
    have hshort : (asciiString "b").length = 3 := by decide
    rw [← h, hshort] at hlong
    cases hlong
  have hcomplete := hall someServer _ oneItemDb (fun _ => twoAttempts longId hne) 1 x hx (by decide)
  exact not_complete_twoAttempts hne (hlong.symm ▸ by decide) hx hcomplete

end TodDl.Inspection
