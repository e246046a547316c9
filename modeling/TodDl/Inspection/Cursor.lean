/-
  The inspection server — the text of a cursor (inspection.py, `_cursor_encode`,
  `_cursor_decode`).

  A cursor goes over the wire as base64 of a JSON object in ASCII, and is read back only
  if it has at most 1024 characters.  `queuePage` is the request of the queue view with
  such a cursor.

  `complete_iff`: following the cursors lists the items of a view, each once and in
  order, exactly if the JSON text of every page end has at most 768 characters.
-/
import TodDl.Lib.Base64
import TodDl.Inspection.Queue
import TodDl.Provenance.Canonical

namespace TodDl.Inspection

open Store
open Provenance (PyVal Key pyEq joinComma skipSpace scanString scanScalar textOf keyOf Delimited
  intMaxStrDigits)

/-! ## `json.dumps` -/

/-- `\uXXXX` -/
def unicodeEscape (n : ℕ) : List Char :=
  '\\' :: 'u' :: [n / 4096, n / 256 % 16, n / 16 % 16, n % 16].map Lib.Sha256.hexDigit

/-- The UTF-16 units of a character. -/
def utf16 (c : Char) : List ℕ :=
  if c.toNat < 0x10000 then [c.toNat]
  else [0xd800 + (c.toNat - 0x10000) / 1024, 0xdc00 + (c.toNat - 0x10000) % 1024]

/-- A character inside a JSON string (`ensure_ascii=True`). -/
def asciiChar (c : Char) : List Char :=
  if c = '"' then ['\\', '"']
  else if c = '\\' then ['\\', '\\']
  else if c = '\n' then ['\\', 'n']
  else if c = '\r' then ['\\', 'r']
  else if c = '\t' then ['\\', 't']
  else if c.toNat = 8 then ['\\', 'b']
  else if c.toNat = 12 then ['\\', 'f']
  else if 32 ≤ c.toNat ∧ c.toNat ≤ 126 then [c]
  else (utf16 c).flatMap unicodeEscape

def asciiString (s : String) : List Char := '"' :: (s.toList.flatMap asciiChar ++ ['"'])

/-- A value in a cursor. -/
inductive Scalar where
  | text (s : String)
  | number (i : ℤ)

def Scalar.toPy : Scalar → PyVal
  | .text s => .str s
  | .number i => .int i

def Scalar.dumps : Scalar → List Char
  | .text s => asciiString s
  | .number i => (toString i).toList

/-- The fields of a cursor, in the order of their names. -/
def QueueCursor.fields (c : QueueCursor) : List (String × Scalar) :=
  [("bucket", .text c.bucket), ("item_id", .text c.itemId), ("query", .text c.query),
   ("rank", .number c.rank), ("revision", .number c.revision), ("run_id", .text c.runId),
   ("session_id", .text c.sessionId)]

def dumpsField (p : String × Scalar) : List Char := asciiString p.1 ++ ':' :: p.2.dumps

/-- `json.dumps(value, sort_keys=True, separators=(",", ":"))` -/
def cursorText (c : QueueCursor) : List Char :=
  '\x7b' :: (joinComma (c.fields.map dumpsField) ++ ['\x7d'])

/-- `_cursor_encode(value)` -/
def cursorEncode (c : QueueCursor) : String :=
  String.ofList (Lib.Base64.encode (Provenance.utf8 (cursorText c)))

/-! ## `json.loads` -/

/-- An object of the pairs: the last one of a key counts. -/
def dictOf (pairs : List (Key × PyVal)) : List (Key × PyVal) :=
  pairs.foldl (fun items p => Provenance.insert p.1 p.2 items) []

mutual

/-- One value, without the space around it. -/
def readValue : ℕ → List Char → Option (PyVal × List Char)
  | 0, _ => none
  | _, [] => none
  | fuel + 1, c :: rest =>
    if c = '"' then (scanString rest).map fun (codes, rest) => (textOf codes, rest)
    else if c = '[' then
      match skipSpace rest with
      | ']' :: rest => some (.list [], rest)
      | rest => (readItems fuel rest).map fun (items, rest) => (.list items, rest)
    else if c = '\x7b' then
      match skipSpace rest with
      | '\x7d' :: rest => some (.dict [], rest)
      | rest => (readFields fuel rest).map fun (pairs, rest) => (.dict (dictOf pairs), rest)
    else scanScalar (c :: rest)

/-- The items of an array that has one, up to its bracket. -/
def readItems : ℕ → List Char → Option (List PyVal × List Char)
  | 0, _ => none
  | fuel + 1, cs => do
    let (v, rest) ← readValue fuel cs
    match skipSpace rest with
    | ',' :: rest => (readItems fuel (skipSpace rest)).map fun (items, rest) => (v :: items, rest)
    | ']' :: rest => some ([v], rest)
    | _ => none

/-- The fields of an object that has one, up to its brace. -/
def readFields : ℕ → List Char → Option (List (Key × PyVal) × List Char)
  | fuel + 1, '"' :: rest => do
    let (codes, rest) ← scanString rest
    match skipSpace rest with
    | ':' :: rest =>
      let (v, rest) ← readValue fuel (skipSpace rest)
      match skipSpace rest with
      | ',' :: rest =>
        (readFields fuel (skipSpace rest)).map fun (pairs, rest) =>
          ((keyOf codes, v) :: pairs, rest)
      | '\x7d' :: rest => some ([(keyOf codes, v)], rest)
      | _ => none
    | _ => none
  | _, _ => none

end

/-- `json.loads(bytes)` of UTF-8 bytes without a byte order mark; none when it raises.  There
    are at most two calls for a character. -/
def readJson (bytes : List UInt8) : Option PyVal :=
  match Provenance.decodeUtf8 bytes with
  | none => none
  | some text =>
    match readValue (2 * text.length + 1) (skipSpace text) with
    | some (v, rest) => if (skipSpace rest).isEmpty then some v else none
    | none => none

/-- `ASCII_CURSOR` -/
def asciiCursor (value : String) : Bool :=
  1 ≤ value.length && value.length ≤ 1024 &&
    value.toList.all fun c => 33 ≤ c.toNat && c.toNat ≤ 126

/-- `_cursor_decode(value)`: the items of the object. -/
def cursorDecode (value : String) : Except String (List (Key × PyVal)) :=
  if !asciiCursor value then .error "cursor is invalid"
  else
    match (Lib.Base64.decode value.toList).bind readJson with
    | some (.dict items) => .ok items
    | _ => .error "cursor is invalid"

/-! ## The request -/

namespace Server
variable (server : Server) (db : Db) (bucket query : String)

/-- The key in a cursor of this view. -/
def readCursor (value : String) : Except String (ℤ ×ₗ String) := do
  let cursor := PyVal.dict (← cursorDecode value)
  if !(pyEq (cursor.get "run_id") (.str server.runId) &&
      pyEq (cursor.get "session_id") (.str server.sessionId) &&
      pyEq (cursor.get "revision") (.int (db.revision server.runId)) &&
      pyEq (cursor.get "bucket") (.str bucket) && pyEq (cursor.get "query") (.str query)) then
    throw "cursor expired"
  match cursor.get "rank", cursor.get "item_id" with
  | .int rank, .str itemId => return toLex (rank, itemId)
  | .bool rank, .str itemId => return toLex ((rank.toNat : ℤ), itemId)
  | _, _ => throw "cursor is invalid"

/-- The key after which a page begins. -/
def pageStart : Option String → Except String (ℤ ×ₗ String)
  | none => .ok (toLex (-1, ""))
  | some value => server.readCursor db bucket query value

/-- The cursor of a page that ends at a key. -/
def cursorAt (k : ℤ ×ₗ String) : QueueCursor :=
  ⟨server.runId, server.sessionId, db.revision server.runId, bucket, query, (ofLex k).1,
    (ofLex k).2⟩

/-- `_list_queue(db, parameters, revision, started)`, with the cursor as it is sent. -/
def queuePage (pageSize : ℤ) (cursor : Option String) :
    Except String (List QueueRow × Option String) :=
  if bucket ≠ "all" ∧ bucket ∉ buckets then .error "bucket is invalid"
  else if 1024 < (utf8 query).length then .error "query is invalid"
  else if ¬(1 ≤ pageSize ∧ pageSize ≤ maxPageSize) then .error "page_size is invalid"
  else
    (server.pageStart db bucket query cursor).map fun after =>
      let s := server.scanQueue db bucket query pageSize.toNat after
      (s.shown, if s.filled then some (cursorEncode (server.cursorAt db bucket query s.after))
        else none)

/-- A reader who follows the cursors to their end has seen the items that match, each once
    and in the order of the queue. -/
def Complete (pageSize : ℤ) : Prop :=
  ∃ rows, Lib.Follows (server.queuePage db bucket query pageSize) none rows ∧
    (∀ row, row ∈ rows ↔
      ∃ x ∈ itemRows db server.runId, server.queueRow bucket query x = some row) ∧
    rows.Pairwise fun a b => toLex (a.queueRank, a.itemId) < toLex (b.queueRank, b.itemId)

/-- The items that match. -/
def matching : List (ℤ × Row) :=
  (queueRows db server.runId).filter fun x => (server.queueRow bucket query x).isSome

/-- The text of the cursor at the end of every full page is short enough to be read back. -/
def CursorsFit (pageSize : ℤ) : Prop :=
  ∀ m, 0 < m → ∀ x, (server.matching db bucket query)[m * pageSize.toNat - 1]? = some x →
    (cursorText (server.cursorAt db bucket query (queueKey x))).length ≤ 768

end Server

/-! ## Strings in ASCII -/

theorem scanString_unicodeEscape {n : ℕ} (hn : n < 65536) (rest : List Char) :
    scanString (unicodeEscape n ++ rest) = (scanString rest).map fun p => (n :: p.1, p.2) :=
  Provenance.scanString_code hn rest

/-- A character is no surrogate. -/
theorem toNat_valid (c : Char) : c.toNat < 0xd800 ∨ 0xdfff < c.toNat ∧ c.toNat < 0x110000 :=
  c.valid

/-- The UTF-16 units of a character have 16 bits. -/
theorem utf16_lt {c : Char} : ∀ n ∈ utf16 c, n < 65536 := by
  have hvalid := toNat_valid c
  unfold utf16
  split
  · next hsmall =>
    intro n hn
    obtain rfl := List.mem_singleton.1 hn
    exact hsmall
  · intro n hn
    simp only [List.mem_cons, List.not_mem_nil, or_false] at hn
    omega

theorem scanString_units {units : List ℕ} (h : ∀ n ∈ units, n < 65536) (rest : List Char) :
    scanString (units.flatMap unicodeEscape ++ rest) =
      (scanString rest).map fun p => (units ++ p.1, p.2) := by
  induction units with
  | nil => simp
  | cons n units ih =>
    rw [List.flatMap_cons, List.append_assoc, scanString_unicodeEscape (h n List.mem_cons_self),
      ih fun m hm => h m (List.mem_cons_of_mem _ hm), Option.map_map]
    rfl

/-- The scanner reads an escaped character as its UTF-16 units. -/
theorem scanString_asciiChar (c : Char) (rest : List Char) :
    scanString (asciiChar c ++ rest) = (scanString rest).map fun p => (utf16 c ++ p.1, p.2) := by
  have hsmall : ∀ {d : Char}, c = d → d.toNat < 0x10000 → utf16 c = [d.toNat] := by
    rintro d rfl hd
    exact if_pos hd
  have hcode : ∀ {n : ℕ}, c.toNat = n → n < 0x10000 → utf16 c = [n] := by
    rintro n rfl hn
    exact if_pos hn
  unfold asciiChar
  split
  · next h => rw [hsmall h (by decide)]; exact Provenance.scanString_escape (by decide) rfl rest
  split
  · next h => rw [hsmall h (by decide)]; exact Provenance.scanString_escape (by decide) rfl rest
  split
  · next h => rw [hsmall h (by decide)]; exact Provenance.scanString_escape (by decide) rfl rest
  split
  · next h => rw [hsmall h (by decide)]; exact Provenance.scanString_escape (by decide) rfl rest
  split
  · next h => rw [hsmall h (by decide)]; exact Provenance.scanString_escape (by decide) rfl rest
  split
  · next h => rw [hcode h (by decide)]; exact Provenance.scanString_escape (by decide) rfl rest
  split
  · next h => rw [hcode h (by decide)]; exact Provenance.scanString_escape (by decide) rfl rest
  split
  · next hquote hback _ _ _ _ _ hplain =>
    rw [hcode rfl (by omega)]
    exact Provenance.scanString_plain hquote hback hplain.1 rest
  · exact scanString_units utf16_lt rest

theorem scanString_ascii (cs rest : List Char) :
    scanString (cs.flatMap asciiChar ++ '"' :: rest) = some (cs.flatMap utf16, rest) := by
  induction cs with
  | nil =>
    rw [List.flatMap_nil, List.nil_append]
    unfold scanString
    rfl
  | cons c cs ih =>
    rw [List.flatMap_cons, List.append_assoc, scanString_asciiChar, ih]
    rfl

/-- A unit that is no high surrogate stays alone. -/
theorem joinSurrogates_cons {n : ℕ} (hn : n < 0xd800 ∨ 0xdc00 ≤ n) (units : List ℕ) :
    Provenance.joinSurrogates (n :: units) = n :: Provenance.joinSurrogates units := by
  cases units with
  | nil => rfl
  | cons m units =>
    rw [Provenance.joinSurrogates, if_neg (by omega)]

/-- The units of characters are joined to the characters. -/
theorem joinSurrogates_utf16 (cs : List Char) :
    Provenance.joinSurrogates (cs.flatMap utf16) = cs.map Char.toNat := by
  induction cs with
  | nil => rfl
  | cons c cs ih =>
    have hvalid := toNat_valid c
    rw [List.flatMap_cons, List.map_cons, utf16]
    split
    · rw [List.singleton_append, joinSurrogates_cons (by omega), ih]
    · have hjoined : 0x10000 + 1024 * (0xd800 + (c.toNat - 0x10000) / 1024 - 0xd800) +
          (0xdc00 + (c.toNat - 0x10000) % 1024 - 0xdc00) = c.toNat := by omega
      rw [List.cons_append, List.singleton_append, Provenance.joinSurrogates, if_pos (by omega), ih,
        hjoined]

/-- A string is read back. -/
theorem keyOf_utf16 (s : String) : keyOf (s.toList.flatMap utf16) = .str s := by
  rw [← Provenance.keyOf_toNat s, keyOf, keyOf, joinSurrogates_utf16,
    Provenance.joinSurrogates_toNat]

/-! ## Reading a cursor back -/

/-- A value whose number `json.loads` reads. -/
def Scalar.Readable : Scalar → Prop
  | .text _ => True
  | .number i => i.natAbs < 10 ^ intMaxStrDigits

/-- No value begins with space. -/
theorem Scalar.dumps_eq_cons (v : Scalar) : ∃ c cs, v.dumps = c :: cs ∧
    Provenance.isJsonSpace c = false := by
  cases v with
  | text s => exact ⟨'"', _, rfl, rfl⟩
  | number i =>
    obtain ⟨c, cs, hc, hhead⟩ := Provenance.render_int i
    refine ⟨c, cs, hc, ?_⟩
    rcases hhead with rfl | hdigit
    · rfl
    · by_contra hspace
      rw [Bool.not_eq_false] at hspace
      simp only [Provenance.isJsonSpace, Bool.or_eq_true, decide_eq_true_eq] at hspace
      rcases hspace with ((rfl | rfl) | rfl) | rfl <;> exact absurd hdigit (by decide)

/-- **A value is read back.** -/
theorem readValue_dumps {v : Scalar} (hv : v.Readable) (fuel : ℕ) {rest : List Char}
    (hrest : Delimited rest) : readValue (fuel + 1) (v.dumps ++ rest) = some (v.toPy, rest) := by
  cases v with
  | text s =>
    have htext : (Scalar.text s).dumps ++ rest =
        '"' :: (s.toList.flatMap asciiChar ++ '"' :: rest) := by
      simp [Scalar.dumps, asciiString]
    rw [htext, readValue, if_pos rfl, scanString_ascii, Option.map_some]
    show some (textOf _, rest) = _
    rw [textOf, keyOf_utf16]
    rfl
  | number i =>
    obtain ⟨c, cs, hc, hhead⟩ := Provenance.render_int i
    have hscalar : c ≠ '"' ∧ c ≠ '[' ∧ c ≠ '\x7b' := by
      rcases hhead with rfl | hdigit
      · decide
      · refine ⟨?_, ?_, ?_⟩ <;> (rintro rfl; revert hdigit; decide)
    have hscan := Provenance.scanScalar_int hv hrest
    have htext : (toString i).toList = c :: cs := hc
    rw [Scalar.dumps, htext, List.cons_append, readValue, if_neg hscalar.1, if_neg hscalar.2.1,
      if_neg hscalar.2.2]
    rw [htext, List.cons_append] at hscan
    exact hscan

theorem Scalar.skipSpace_dumps (v : Scalar) (rest : List Char) :
    skipSpace (v.dumps ++ rest) = v.dumps ++ rest := by
  obtain ⟨c, cs, hc, hspace⟩ := v.dumps_eq_cons
  rw [hc, List.cons_append, Provenance.skipSpace_cons hspace]

/-- Reading one field and what follows its value. -/
theorem readFields_succ {p : String × Scalar} (hv : p.2.Readable) {fuel : ℕ} (hfuel : 0 < fuel)
    {rest : List Char} (hrest : Delimited rest) :
    readFields (fuel + 1) (dumpsField p ++ rest) =
      match skipSpace rest with
      | ',' :: rest => (readFields fuel (skipSpace rest)).map fun (pairs, rest) =>
          ((.str p.1, p.2.toPy) :: pairs, rest)
      | '\x7d' :: rest => some ([(.str p.1, p.2.toPy)], rest)
      | _ => none := by
  obtain ⟨fuel, rfl⟩ : ∃ k, fuel = k + 1 := ⟨fuel - 1, by omega⟩
  have htext : dumpsField p ++ rest = '"' :: (p.1.toList.flatMap asciiChar ++
      '"' :: ':' :: (p.2.dumps ++ rest)) := by
    simp [dumpsField, asciiString]
  rw [htext, readFields, scanString_ascii]
  simp only [bind, Option.bind_some, Provenance.skipSpace_cons (c := ':') rfl, p.2.skipSpace_dumps,
    readValue_dumps hv fuel hrest, keyOf_utf16]

/-- **The fields of an object are read back.** -/
theorem readFields_dumps {fields : List (String × Scalar)} (hne : fields ≠ [])
    (hfields : ∀ p ∈ fields, p.2.Readable) (rest : List Char) : ∀ fuel, fields.length < fuel →
      readFields fuel (joinComma (fields.map dumpsField) ++ '\x7d' :: rest) =
        some (fields.map fun p => (.str p.1, p.2.toPy), rest) := by
  induction fields with
  | nil => exact absurd rfl hne
  | cons p fields ih =>
    intro fuel hfuel
    rw [List.length_cons] at hfuel
    obtain ⟨fuel, rfl⟩ : ∃ k, fuel = k + 1 := ⟨fuel - 1, by omega⟩
    have hv := hfields p List.mem_cons_self
    cases fields with
    | nil =>
      have hclose : Delimited ('\x7d' :: rest) := by
        rintro c ⟨⟩
        exact .inr (.inr rfl)
      rw [List.map_singleton, joinComma, readFields_succ hv (by omega) hclose]
      simp only [Provenance.skipSpace_cons (c := '\x7d') rfl]
      rfl
    | cons q fields =>
      have htext : joinComma ((p :: q :: fields).map dumpsField) ++ '\x7d' :: rest =
          dumpsField p ++ ',' :: (joinComma ((q :: fields).map dumpsField) ++ '\x7d' :: rest) := by
        rw [List.map_cons, List.map_cons, joinComma, List.append_assoc, List.cons_append,
          ← List.map_cons]
        rintro ⟨⟩
      have hcomma : Delimited (',' :: (joinComma ((q :: fields).map dumpsField) ++
          '\x7d' :: rest)) := by
        rintro c ⟨⟩
        exact .inl rfl
      have hskip : skipSpace (joinComma ((q :: fields).map dumpsField) ++ '\x7d' :: rest) =
          joinComma ((q :: fields).map dumpsField) ++ '\x7d' :: rest := by
        cases fields <;> exact Provenance.skipSpace_cons (c := '"') rfl _
      have hlater := ih (by simp) (fun u hu => hfields u (List.mem_cons_of_mem _ hu)) fuel
        (by omega)
      rw [htext, readFields_succ hv (by omega) hcomma]
      simp only [Provenance.skipSpace_cons (c := ',') rfl]
      rw [hskip, hlater]
      rfl

/-! ## The length of a cursor -/

theorem mem_joinComma {c : Char} {parts : List (List Char)} (h : c ∈ joinComma parts) :
    c = ',' ∨ ∃ part ∈ parts, c ∈ part := by
  induction parts with
  | nil => cases h
  | cons part parts ih =>
    cases parts with
    | nil => exact .inr ⟨part, List.mem_cons_self, h⟩
    | cons next parts =>
      rw [joinComma, List.mem_append, List.mem_cons] at h
      · rcases h with h | h | h
        · exact .inr ⟨part, List.mem_cons_self, h⟩
        · exact .inl h
        · rcases ih h with hc | ⟨q, hq, hc⟩
          · exact .inl hc
          · exact .inr ⟨q, List.mem_cons_of_mem _ hq, hc⟩
      · rintro ⟨⟩

theorem length_le_joinComma {part : List Char} {parts : List (List Char)} (h : part ∈ parts) :
    part.length ≤ (joinComma parts).length := by
  induction parts with
  | nil => cases h
  | cons first parts ih =>
    cases parts with
    | nil =>
      obtain rfl := List.mem_singleton.1 h
      exact le_rfl
    | cons next parts =>
      rw [joinComma, List.length_append, List.length_cons]
      · rcases List.mem_cons.1 h with rfl | h
        · omega
        · have hle := ih h
          omega
      · rintro ⟨⟩

theorem hexDigit_ascii : ∀ n < 16, (Lib.Sha256.hexDigit n).toNat < 128 := by decide

/-- An escaped character is in ASCII. -/
theorem asciiChar_ascii (c : Char) : ∀ d ∈ asciiChar c, d.toNat < 128 := by
  have hpair : ∀ a b : Char, a.toNat < 128 → b.toNat < 128 → ∀ d ∈ [a, b], d.toNat < 128 := by
    intro a b ha hb d hd
    simp only [List.mem_cons, List.not_mem_nil, or_false] at hd
    rcases hd with rfl | rfl
    · exact ha
    · exact hb
  unfold asciiChar
  split
  · exact hpair _ _ (by decide) (by decide)
  split
  · exact hpair _ _ (by decide) (by decide)
  split
  · exact hpair _ _ (by decide) (by decide)
  split
  · exact hpair _ _ (by decide) (by decide)
  split
  · exact hpair _ _ (by decide) (by decide)
  split
  · exact hpair _ _ (by decide) (by decide)
  split
  · exact hpair _ _ (by decide) (by decide)
  split
  · next hplain =>
    intro d hd
    rw [List.mem_singleton.1 hd]
    omega
  · intro d hd
    obtain ⟨n, hn, hd⟩ := List.mem_flatMap.1 hd
    have hlt := utf16_lt n hn
    simp only [unicodeEscape, List.map_cons, List.map_nil, List.mem_cons, List.not_mem_nil,
      or_false] at hd
    rcases hd with rfl | rfl | rfl | rfl | rfl | rfl
    · decide
    · decide
    · exact hexDigit_ascii _ (by omega)
    · exact hexDigit_ascii _ (by omega)
    · exact hexDigit_ascii _ (by omega)
    · exact hexDigit_ascii _ (by omega)

theorem asciiString_ascii (s : String) : ∀ d ∈ asciiString s, d.toNat < 128 := by
  intro d hd
  simp only [asciiString, List.mem_cons, List.mem_append, List.not_mem_nil, or_false] at hd
  rcases hd with rfl | hd | rfl
  · decide
  · obtain ⟨c, -, hd⟩ := List.mem_flatMap.1 hd
    exact asciiChar_ascii c d hd
  · decide

theorem Scalar.dumps_ascii (v : Scalar) : ∀ d ∈ v.dumps, d.toNat < 128 := by
  have hdigits : ∀ n : ℕ, ∀ d ∈ Nat.toDigits 10 n, d.toNat < 128 := by
    intro n d hd
    have hdigit := Nat.isDigit_of_mem_toDigits (by decide) (by decide) hd
    simp only [Char.isDigit, Bool.and_eq_true, decide_eq_true_eq] at hdigit
    have hle : d.toNat ≤ 57 := hdigit.2
    omega
  cases v with
  | text s => exact asciiString_ascii s
  | number i =>
    cases i with
    | ofNat n =>
      rw [Scalar.dumps, show (toString (Int.ofNat n)).toList = Nat.toDigits 10 n from
        Nat.toList_repr]
      exact hdigits n
    | negSucc n =>
      intro d hd
      rw [Scalar.dumps, Provenance.toString_negSucc] at hd
      rcases List.mem_cons.1 hd with rfl | hd
      · decide
      · exact hdigits _ d hd

/-- The text of an object. -/
def objectText (fields : List (String × Scalar)) : List Char :=
  '\x7b' :: (joinComma (fields.map dumpsField) ++ ['\x7d'])

/-- `_cursor_encode(value)` of an object with sorted names. -/
def objectEncode (fields : List (String × Scalar)) : String :=
  String.ofList (Lib.Base64.encode (Provenance.utf8 (objectText fields)))

theorem objectText_ascii (fields : List (String × Scalar)) :
    ∀ d ∈ objectText fields, d.toNat < 128 := by
  intro d hd
  simp only [objectText, List.mem_cons, List.mem_append, List.not_mem_nil, or_false] at hd
  rcases hd with rfl | hd | rfl
  · decide
  · rcases mem_joinComma hd with rfl | ⟨part, hpart, hd⟩
    · decide
    · obtain ⟨p, -, rfl⟩ := List.mem_map.1 hpart
      simp only [dumpsField, List.mem_append, List.mem_cons] at hd
      rcases hd with hd | rfl | hd
      · exact asciiString_ascii _ d hd
      · decide
      · exact p.2.dumps_ascii d hd
  · decide

/-- A text in ASCII has as many bytes as characters. -/
theorem length_utf8_ascii {cs : List Char} (h : ∀ c ∈ cs, c.toNat < 128) :
    (Provenance.utf8 cs).length = cs.length := by
  induction cs with
  | nil => rfl
  | cons c cs ih =>
    have hc : (String.utf8EncodeChar c).length = 1 := by
      have hlt := h c List.mem_cons_self
      rw [String.length_utf8EncodeChar, Char.utf8Size_eq_one_iff, UInt32.le_iff_toNat_le]
      show c.toNat ≤ 127
      omega
    rw [Provenance.utf8, List.flatMap_cons, List.length_append, hc, List.length_cons,
      ← ih fun d hd => h d (List.mem_cons_of_mem _ hd), Provenance.utf8]
    omega

section
variable {fields : List (String × Scalar)}

/-- **A cursor is short enough** if its text has at most 768 characters. -/
theorem asciiCursor_encode (fields : List (String × Scalar)) :
    asciiCursor (objectEncode fields) = true ↔ (objectText fields).length ≤ 768 := by
  have hlength : (objectEncode fields).length = 4 * (((objectText fields).length + 2) / 3) := by
    rw [objectEncode, String.length_ofList, Lib.Base64.length_encode,
      length_utf8_ascii (objectText_ascii fields)]
  have hpos : 0 < (objectText fields).length := by
    rw [objectText, List.length_cons]
    omega
  have hvisible :
      ((objectEncode fields).toList.all fun d => 33 ≤ d.toNat && d.toNat ≤ 126) = true := by
    rw [List.all_eq_true, objectEncode, String.toList_ofList]
    intro d hd
    obtain ⟨hlow, hhigh⟩ := Lib.Base64.encode_visible _ d hd
    simp [hlow, hhigh]
  rw [asciiCursor, hvisible, hlength, Bool.and_true, Bool.and_eq_true, decide_eq_true_eq,
    decide_eq_true_eq]
  omega

/-- The numbers of a short cursor are read back. -/
theorem readable_of_length (h : (objectText fields).length ≤ 768) :
    ∀ p ∈ fields, p.2.Readable := by
  intro p hp
  have hpart := length_le_joinComma (List.mem_map_of_mem (f := dumpsField) hp)
  have hdumps : p.2.dumps.length ≤ 768 := by
    rw [objectText, List.length_cons, List.length_append] at h
    rw [dumpsField, List.length_append, List.length_cons] at hpart
    omega
  have hdigits : ∀ n : ℕ, (Nat.toDigits 10 n).length ≤ 768 → n < 10 ^ intMaxStrDigits := by
    intro n hn
    refine (Nat.length_toDigits_le_iff (by decide) (by decide)).1 (hn.trans ?_)
    decide
  cases hv : p.2 with
  | text s => trivial
  | number i =>
    rw [hv] at hdumps
    cases i with
    | ofNat n =>
      rw [Scalar.dumps, show (toString (Int.ofNat n)).toList = Nat.toDigits 10 n from
        Nat.toList_repr] at hdumps
      exact hdigits n hdumps
    | negSucc n =>
      rw [Scalar.dumps, Provenance.toString_negSucc, List.length_cons] at hdumps
      exact hdigits (n + 1) (by omega)

theorem insert_new {key : Key} {v : PyVal} {items : List (Key × PyVal)}
    (h : key ∉ items.map (·.1)) : Provenance.insert key v items = items ++ [(key, v)] := by
  induction items with
  | nil => rfl
  | cons p items ih =>
    rw [List.map_cons, List.mem_cons, not_or] at h
    rw [Provenance.insert, if_neg (Ne.symm h.1), ih h.2, List.cons_append]

/-- Distinct names stay as they are. -/
theorem dictOf_of_nodup {pairs : List (Key × PyVal)} (h : (pairs.map (·.1)).Nodup) :
    dictOf pairs = pairs := by
  have hfold : ∀ items : List (Key × PyVal), ((items ++ pairs).map (·.1)).Nodup →
      pairs.foldl (fun items p => Provenance.insert p.1 p.2 items) items = items ++ pairs := by
    clear h
    induction pairs with
    | nil => exact fun items _ => (List.append_nil _).symm
    | cons p pairs ih =>
      intro items hn
      have hnew : p.1 ∉ items.map (·.1) := by
        rw [List.map_append, List.map_cons] at hn
        exact fun hmem => (List.nodup_append.1 hn).2.2 _ hmem _ List.mem_cons_self rfl
      rw [List.foldl_cons, insert_new hnew, ih _ (by simpa using hn), List.append_assoc]
      rfl
  exact hfold [] h

theorem length_le_joinComma_map (fields : List (String × Scalar)) :
    fields.length ≤ (joinComma (fields.map dumpsField)).length := by
  have hpart : ∀ p : String × Scalar, 1 ≤ (dumpsField p).length := by
    intro p
    rw [dumpsField, List.length_append, List.length_cons]
    omega
  induction fields with
  | nil => exact Nat.zero_le _
  | cons p fields ih =>
    cases fields with
    | nil => exact hpart p
    | cons q fields =>
      rw [List.map_cons, List.map_cons, joinComma, List.length_append, List.length_cons,
        ← List.map_cons]
      · have hfirst := hpart p
        rw [List.length_cons, List.length_cons] at *
        omega
      · rintro ⟨⟩

/-- **A short cursor is decoded** to its fields. -/
theorem cursorDecode_encode (fields : List (String × Scalar)) (hne : fields ≠ [])
    (hkeys : (fields.map (·.1)).Nodup)
    (h : (objectText fields).length ≤ 768) :
    cursorDecode (objectEncode fields) = .ok (fields.map fun p => (.str p.1, p.2.toPy)) := by
  have hread : readFields (2 * (objectText fields).length) (joinComma (fields.map dumpsField) ++
      ['\x7d']) = some (fields.map fun p => (.str p.1, p.2.toPy), []) := by
    refine readFields_dumps hne (readable_of_length h) [] _ ?_
    have hle := length_le_joinComma_map fields
    rw [objectText, List.length_cons, List.length_append]
    omega
  have hopen : skipSpace (joinComma (fields.map dumpsField) ++ ['\x7d']) =
      joinComma (fields.map dumpsField) ++ ['\x7d'] := by
    obtain ⟨p, fields, rfl⟩ := List.exists_cons_of_ne_nil hne
    cases fields <;> exact Provenance.skipSpace_cons (c := '"') rfl _
  have hdict : dictOf (fields.map fun p => (.str p.1, p.2.toPy)) =
      fields.map fun p => (.str p.1, p.2.toPy) := by
    refine dictOf_of_nodup ?_
    rw [List.map_map]
    have hstr : ((fields.map (·.1)).map Key.str).Nodup :=
      hkeys.map fun a b hab => Key.str.inj hab
    rw [List.map_map] at hstr
    exact hstr
  have hvalue : readValue (2 * (objectText fields).length + 1) (skipSpace (objectText fields)) =
      some (.dict (fields.map fun p => (.str p.1, p.2.toPy)), []) := by
    rw [objectText, Provenance.skipSpace_cons (c := '\x7b') rfl, readValue, if_neg (by decide),
      if_neg (by decide), if_pos rfl, hopen]
    split
    · next heq =>
      obtain ⟨p, fields, rfl⟩ := List.exists_cons_of_ne_nil hne
      cases fields <;> cases heq
    · rw [← objectText, hread, Option.map_some]
      exact congrArg (fun items => some (PyVal.dict items, ([] : List Char))) hdict
  have hjson : (Lib.Base64.decode (objectEncode fields).toList).bind readJson =
      some (.dict (fields.map fun p => (.str p.1, p.2.toPy))) := by
    rw [objectEncode, String.toList_ofList, Lib.Base64.decode_encode, Option.bind_some, readJson,
      Provenance.decodeUtf8_utf8]
    dsimp only
    rw [hvalue]
    rfl
  rw [cursorDecode, (asciiCursor_encode fields).2 h, hjson]
  rfl

/-- A long cursor is not. -/
theorem cursorDecode_long (fields : List (String × Scalar))
    (h : ¬ (objectText fields).length ≤ 768) :
    cursorDecode (objectEncode fields) = .error "cursor is invalid" := by
  rw [← asciiCursor_encode, Bool.not_eq_true] at h
  rw [cursorDecode, h]
  rfl

end

section
variable {server : Server} {db : Db} {bucket query : String}

/-- **A cursor that is short enough** is read back: it gives its key to the view it is of. -/
theorem Server.readCursor_text {c : QueueCursor} (h : (cursorText c).length ≤ 768) :
    server.readCursor db bucket query (cursorEncode c) =
      if server.current db bucket query c then .ok (toLex (c.rank, c.itemId))
      else .error "cursor expired" := by
  have hdecode : cursorDecode (cursorEncode c) = _ :=
    cursorDecode_encode c.fields nofun (by simp [QueueCursor.fields]) h
  rw [readCursor, hdecode]
  cases hcurrent : server.current db bucket query c with
  | true =>
    have hview := hcurrent
    simp only [current, Bool.and_eq_true, decide_eq_true_eq] at hview
    obtain ⟨⟨⟨⟨hrun, hsession⟩, hrevision⟩, hbucket⟩, hquery⟩ := hview
    simp [QueueCursor.fields, bind, Except.bind, PyVal.get, PyVal.items, Provenance.lookup,
      Scalar.toPy, pyEq, PyVal.number, pure, Except.pure, hrun, hsession, hrevision, hbucket,
      hquery]
  | false =>
    simp only [current, Bool.and_eq_false_iff, decide_eq_false_iff_not, or_assoc] at hcurrent
    obtain h | h | h | h | h := hcurrent <;>
      simp [QueueCursor.fields, bind, Except.bind, PyVal.get, PyVal.items, Provenance.lookup,
        Scalar.toPy, pyEq, PyVal.number, h, throw, throwThe, MonadExceptOf.throw]

/-- A long one is not. -/
theorem Server.readCursor_long {c : QueueCursor} (h : ¬ (cursorText c).length ≤ 768) :
    server.readCursor db bucket query (cursorEncode c) = .error "cursor is invalid" := by
  have hdecode : cursorDecode (cursorEncode c) = _ := cursorDecode_long c.fields h
  rw [readCursor, hdecode]
  rfl

/-- A cursor of the same view gives its key. -/
theorem Server.readCursor_encode {k : ℤ ×ₗ String}
    (h : (cursorText (server.cursorAt db bucket query k)).length ≤ 768) :
    server.readCursor db bucket query (cursorEncode (server.cursorAt db bucket query k)) =
      .ok k := by
  rw [readCursor_text h, if_pos (by simp [current, cursorAt])]
  rfl

/-- **The requests as they are sent are those of `listQueue`**, for a cursor that is short enough;
    the cursor of the answer is sent as its text. -/
theorem Server.queuePage_eq_listQueue (pageSize : ℤ) {cursor : Option QueueCursor}
    (h : ∀ c ∈ cursor, (cursorText c).length ≤ 768) :
    server.queuePage db bucket query pageSize (cursor.map cursorEncode) =
      (server.listQueue db { bucket, query, pageSize, cursor }).map fun page =>
        (page.rows, page.nextCursor.map cursorEncode) := by
  have hnext : ∀ s : Lib.Scan QueueRow (ℤ ×ₗ String),
      (if s.filled then some (cursorEncode (server.cursorAt db bucket query s.after)) else none) =
        (if s.filled then some (server.cursorAt db bucket query s.after) else none).map
          cursorEncode := by
    intro s
    split <;> rfl
  unfold queuePage listQueue
  by_cases hbucket : bucket ≠ "all" ∧ bucket ∉ buckets
  · rw [if_pos hbucket, if_pos hbucket]
    rfl
  by_cases hquery : 1024 < (utf8 query).length
  · rw [if_neg hbucket, if_neg hbucket, if_pos hquery, if_pos hquery]
    rfl
  by_cases hsize : 1 ≤ pageSize ∧ pageSize ≤ maxPageSize
  swap
  · rw [if_neg hbucket, if_neg hbucket, if_neg hquery, if_neg hquery, if_pos hsize, if_pos hsize]
    rfl
  rw [if_neg hbucket, if_neg hbucket, if_neg hquery, if_neg hquery, if_neg (not_not_intro hsize),
    if_neg (not_not_intro hsize)]
  cases cursor with
  | none => simp only [pageStart, Option.map_none, Except.map, Option.any_none, hnext]; rfl
  | some c =>
    have hread := @readCursor_text server db bucket query c (h c rfl)
    cases hcurrent : server.current db bucket query c with
    | true =>
      rw [hcurrent, if_pos rfl] at hread
      simp only [pageStart, Option.map_some, hread, Except.map, Option.any_some, hcurrent, hnext]
      rfl
    | false =>
      rw [hcurrent, if_neg Bool.false_ne_true] at hread
      simp only [pageStart, Option.map_some, hread, Except.map, Option.any_some, hcurrent]
      rfl

/-! ## Following the cursors -/

/-- A page that is asked for with a cursor begins after some rows, whose matching ones fill
    the pages before it. -/
structure Server.StartsAfter (server : Server) (db : Db) (bucket query : String) (size m : ℕ)
    (cursor : Option String) (done rows : List (ℤ × Row)) : Prop where
  split : queueRows db server.runId = done ++ rows
  pages : (done.filterMap (server.queueRow bucket query)).length = m * size
  start : m = 0 ∧ cursor = none ∧ done = [] ∨
    0 < m ∧ ∃ x, done.getLast? = some x ∧ (server.queueRow bucket query x).isSome ∧
      cursor = some (cursorEncode (server.cursorAt db bucket query (queueKey x)))

theorem length_filter_isSome {α β : Type} (view : α → Option β) (rows : List α) :
    (rows.filter fun x => (view x).isSome).length = (rows.filterMap view).length := by
  induction rows with
  | nil => rfl
  | cons x rows ih =>
    cases hx : view x with
    | none => rw [List.filter_cons_of_neg (by simp [hx]), List.filterMap_cons_none hx, ih]
    | some b =>
      rw [List.filter_cons_of_pos (by simp [hx]), List.filterMap_cons_some hx, List.length_cons,
        List.length_cons, ih]

variable {size m : ℕ} {cursor : Option String} {done rows : List (ℤ × Row)}

/-- The row before the page ends the pages before it. -/
theorem Server.StartsAfter.matching_eq
    (h : server.StartsAfter db bucket query size m cursor done rows) {x : ℤ × Row}
    (hlast : done.getLast? = some x)
    (hview : (server.queueRow bucket query x).isSome = true) :
    (server.matching db bucket query)[m * size - 1]? = some x := by
  obtain ⟨front, rfl⟩ := List.getLast?_eq_some_iff.1 hlast
  have hone : ([x].filter fun x => (server.queueRow bucket query x).isSome) = [x] := by
    simp [hview]
  have hlength := h.pages
  rw [← length_filter_isSome, List.filter_append, List.length_append, hone,
    List.length_singleton] at hlength
  rw [matching, h.split, List.filter_append, List.filter_append, hone, List.append_assoc, ← hlength,
    Nat.add_sub_cancel, List.getElem?_append_right le_rfl, Nat.sub_self]
  rfl

/-- The pages that the matching rows fill. -/
theorem Server.StartsAfter.length_matching
    (h : server.StartsAfter db bucket query size m cursor done rows) :
    (server.matching db bucket query).length =
      m * size + (rows.filterMap (server.queueRow bucket query)).length := by
  rw [matching, h.split, List.filter_append, List.length_append, length_filter_isSome,
    length_filter_isSome, h.pages]

theorem Server.startsAfter_none : server.StartsAfter db bucket query size 0 none []
    (queueRows db server.runId) where
  split := rfl
  pages := by simp
  start := .inl ⟨rfl, rfl, rfl⟩

variable {pageSize : ℤ}

/-- **One page**: it ends where it is full, or with the last row. -/
theorem Server.queuePage_eq (hw : WellRanked db server.runId)
    (hbucket : bucket = "all" ∨ bucket ∈ buckets) (hquery : (utf8 query).length ≤ 1024)
    (hsize : 1 ≤ pageSize ∧ pageSize ≤ maxPageSize)
    (h : server.StartsAfter db bucket query pageSize.toNat m cursor done rows)
    (hfits : ∀ x, done.getLast? = some x →
      (cursorText (server.cursorAt db bucket query (queueKey x))).length ≤ 768) :
    ∃ init tail next, rows = init ++ tail ∧
      server.queuePage db bucket query pageSize cursor =
        .ok (init.filterMap (server.queueRow bucket query), next) ∧
      (next = none ∧ tail = [] ∧
          (init.filterMap (server.queueRow bucket query)).length < pageSize.toNat ∨
        ∃ c, next = some c ∧ init ≠ [] ∧
          server.StartsAfter db bucket query pageSize.toNat (m + 1) next (done ++ init) tail) := by
  obtain ⟨k, hk, hrows⟩ : ∃ k, server.pageStart db bucket query cursor = .ok k ∧
      rows = Lib.rowsAfter queueKey (queueRows db server.runId) k := by
    rcases h.start with ⟨-, rfl, rfl⟩ | ⟨-, x, hx, -, rfl⟩
    · exact ⟨toLex (-1, ""), rfl, h.split.symm.trans (server.begins_none bucket query hw).rest⟩
    · refine ⟨queueKey x, readCursor_encode (hfits x hx), ?_⟩
      have hall : Lib.rowsAfter queueKey (queueRows db server.runId) (toLex (-1, "")) =
          done ++ rows := (server.begins_none bucket query hw).rest.symm.trans h.split
      exact (Lib.rowsAfter_last (pairwise_queueRows hw) hall hx).symm
  obtain ⟨init, tail, hsplit, hshown, hend⟩ :=
    server.scanQueue_eq bucket query hw (show 1 ≤ pageSize.toNat by omega) k
  have hpage : server.queuePage db bucket query pageSize cursor =
      .ok (init.filterMap (server.queueRow bucket query),
        if (server.scanQueue db bucket query pageSize.toNat k).filled then
          some (cursorEncode (server.cursorAt db bucket query
            (server.scanQueue db bucket query pageSize.toNat k).after))
        else none) := by
    rw [queuePage, if_neg (by tauto), if_neg (by omega), if_neg (by simpa using hsize), hk,
      ← hshown]
    rfl
  refine ⟨init, tail, _, hrows.trans hsplit, hpage, ?_⟩
  rcases hend with ⟨hfilled, hlength, ⟨x, hx, hview, hafter⟩, htail⟩ | ⟨hopen, hlength, rfl⟩
  · refine .inr ⟨_, if_pos hfilled, ?_, ?_⟩
    · rintro rfl
      cases hx
    · refine ⟨?_, ?_, .inr ⟨Nat.succ_pos m, x, ?_, hview, ?_⟩⟩
      · rw [h.split, hrows, hsplit, List.append_assoc]
      · rw [List.filterMap_append, List.length_append, h.pages, ← hshown, hlength, Nat.succ_mul]
      · rw [List.getLast?_append, hx]
        rfl
      · rw [if_pos hfilled, hafter]
  · exact .inl ⟨by rw [hopen]; rfl, rfl, hshown ▸ hlength⟩

/-- The cursor of a page that is given is short enough. -/
theorem Server.fits_of_queuePage
    (h : server.StartsAfter db bucket query pageSize.toNat m cursor done rows)
    {page : List QueueRow × Option String}
    (hpage : server.queuePage db bucket query pageSize cursor = .ok page) :
    ∀ x, done.getLast? = some x →
      (cursorText (server.cursorAt db bucket query (queueKey x))).length ≤ 768 := by
  intro x hx
  by_contra hlong
  rcases h.start with ⟨-, -, rfl⟩ | ⟨-, y, hy, -, rfl⟩
  · cases hx
  · obtain rfl := Option.some.inj (hx.symm.trans hy)
    have hstart : server.pageStart db bucket query
        (some (cursorEncode (server.cursorAt db bucket query (queueKey x)))) =
          .error "cursor is invalid" := readCursor_long hlong
    unfold queuePage at hpage
    rw [hstart] at hpage
    split_ifs at hpage
    cases hpage

/-- **A reader who comes to the end** has been given cursors that are short enough. -/
theorem Server.fits_of_follows (hw : WellRanked db server.runId)
    (hbucket : bucket = "all" ∨ bucket ∈ buckets) (hquery : (utf8 query).length ≤ 1024)
    (hsize : 1 ≤ pageSize ∧ pageSize ≤ maxPageSize) {got : List QueueRow}
    (hfollows : Lib.Follows (server.queuePage db bucket query pageSize) cursor got)
    (h : server.StartsAfter db bucket query pageSize.toNat m cursor done rows) :
    ∀ n, m ≤ n → 0 < n → ∀ x,
      (server.matching db bucket query)[n * pageSize.toNat - 1]? = some x →
        (cursorText (server.cursorAt db bucket query (queueKey x))).length ≤ 768 := by
  -- the row that ends the pages before this one
  have hhere : ∀ {m cursor done rows} {page : List QueueRow × Option String},
      server.StartsAfter db bucket query pageSize.toNat m cursor done rows →
      server.queuePage db bucket query pageSize cursor = .ok page → 0 < m →
      ∀ x, (server.matching db bucket query)[m * pageSize.toNat - 1]? = some x →
        (cursorText (server.cursorAt db bucket query (queueKey x))).length ≤ 768 := by
    intro m cursor done rows page h hpage hm x hx
    rcases h.start with ⟨rfl, -⟩ | ⟨-, y, hy, hview, -⟩
    · omega
    · obtain rfl := Option.some.inj (hx.symm.trans (h.matching_eq hy hview))
      exact fits_of_queuePage h hpage x hy
  induction hfollows generalizing m done rows with
  | last hask =>
    intro n hmn hn x hx
    rcases hmn.eq_or_lt with rfl | hlt
    · exact hhere h hask hn x hx
    · -- there is no full page after the last one
      obtain ⟨init, tail, next, rfl, hpage, hend⟩ :=
        server.queuePage_eq hw hbucket hquery hsize h (fits_of_queuePage h hask)
      obtain ⟨rfl, rfl⟩ := Prod.mk.inj (Except.ok.inj (hask.symm.trans hpage))
      rcases hend with ⟨-, rfl, hshort⟩ | ⟨c, hc, -⟩
      · have hlength := h.length_matching
        have hindex := (List.getElem?_eq_some_iff.1 hx).1
        have hmul : (m + 1) * pageSize.toNat ≤ n * pageSize.toNat := Nat.mul_le_mul_right _ hlt
        rw [List.append_nil] at hlength
        rw [Nat.succ_mul] at hmul
        omega
      · cases hc
  | more hask hrest ih =>
    intro n hmn hn x hx
    rcases hmn.eq_or_lt with rfl | hlt
    · exact hhere h hask hn x hx
    · obtain ⟨init, tail, next, rfl, hpage, hend⟩ :=
        server.queuePage_eq hw hbucket hquery hsize h (fits_of_queuePage h hask)
      obtain ⟨rfl, rfl⟩ := Prod.mk.inj (Except.ok.inj (hask.symm.trans hpage))
      rcases hend with ⟨hc, -⟩ | ⟨c, -, -, hnext⟩
      · cases hc
      · exact ih hnext n hlt hn x hx

/-- **A reader whose cursors are short enough** comes to the end. -/
theorem Server.follows_of_fits (hw : WellRanked db server.runId)
    (hbucket : bucket = "all" ∨ bucket ∈ buckets) (hquery : (utf8 query).length ≤ 1024)
    (hsize : 1 ≤ pageSize ∧ pageSize ≤ maxPageSize)
    (hfits : server.CursorsFit db bucket query pageSize) :
    Lib.Follows (server.queuePage db bucket query pageSize) none
      ((queueRows db server.runId).filterMap (server.queueRow bucket query)) := by
  refine Lib.follows_pages (fun cursor rows => ∃ m done,
    server.StartsAfter db bucket query pageSize.toNat m cursor done rows) ?_
      ⟨0, [], startsAfter_none⟩
  rintro cursor rows ⟨m, done, h⟩
  obtain ⟨init, tail, next, rfl, hpage, hend⟩ :=
    server.queuePage_eq hw hbucket hquery hsize h fun x hx => by
      rcases h.start with ⟨-, -, rfl⟩ | ⟨hm, y, hy, hview, -⟩
      · cases hx
      · obtain rfl := Option.some.inj (hx.symm.trans hy)
        exact hfits m hm x (h.matching_eq hy hview)
  refine ⟨init, tail, next, rfl, hpage, ?_, ?_⟩
  · rintro rfl
    rcases hend with ⟨-, htail, -⟩ | ⟨c, hc, -⟩
    · exact htail
    · cases hc
  · rintro c rfl
    rcases hend with ⟨hc, -⟩ | ⟨_, -, hne, hnext⟩
    · cases hc
    · exact ⟨hne, m + 1, done ++ init, hnext⟩

/-- A row has the key of its item. -/
theorem Server.key_queueRow {x : ℤ × Row} {row : QueueRow}
    (h : server.queueRow bucket query x = some row) :
    toLex (row.queueRank, row.itemId) = queueKey x := by
  unfold queueRow at h
  dsimp only at h
  split_ifs at h
  all_goals
    obtain rfl := Option.some.inj h
    rfl

/-- **Following the cursors lists the items of the view**, exactly if the cursors of the full
    pages are short enough. -/
theorem complete_iff (hw : WellRanked db server.runId)
    (hbucket : bucket = "all" ∨ bucket ∈ buckets) (hquery : (utf8 query).length ≤ 1024)
    (hsize : 1 ≤ pageSize ∧ pageSize ≤ maxPageSize) :
    server.Complete db bucket query pageSize ↔ server.CursorsFit db bucket query pageSize := by
  constructor
  · rintro ⟨rows, hfollows, -⟩ n hn x hx
    exact Server.fits_of_follows hw hbucket hquery hsize hfollows Server.startsAfter_none n
      (Nat.zero_le n) hn x hx
  · intro hfits
    refine ⟨_, Server.follows_of_fits hw hbucket hquery hsize hfits, fun row => ?_, ?_⟩
    · rw [List.mem_filterMap]
      exact exists_congr fun x => and_congr_left fun _ =>
        (List.perm_insertionSort _ (itemRows db server.runId)).mem_iff
    · refine List.pairwise_filterMap.2 ((pairwise_queueRows hw).imp ?_)
      intro x y hlt a ha b hb
      rw [Server.key_queueRow ha, Server.key_queueRow hb]
      exact hlt

end

/-- Four items, in two pages of two rows. -/
theorem complete_fourItems : someServer.Complete fourItemsDb "all" "" 2 :=
  (complete_iff wellRanked_fourItemsDb (.inl rfl) (by decide) (by decide)).2 (by
    intro m _ x hx
    have hfits : ((someServer.matching fourItemsDb "all" "").all fun x => (cursorText
        (someServer.cursorAt fourItemsDb "all" "" (queueKey x))).length ≤ 768) = true := by
      decide +kernel
    exact of_decide_eq_true (List.all_eq_true.1 hfits x (List.mem_of_getElem? hx)))

/-- The name of a file: 63 emoji and a letter, in 253 bytes. -/
def emojiName : String := String.ofList (List.replicate 63 '😀' ++ ['a'])

def emojiRow : Row where
  url := "https://host/set/a.bin"
  relativePath := "set/" ++ emojiName
  updatedAt := ""

/-- A run of one item of that name. -/
def emojiDb : Db where
  downloads := ⟨[emojiRow], by decide⟩
  runItems := ⟨[⟨"run", "https://host/set/a.bin", 0⟩], Store.nodup_oneRunItem⟩

/-- A search for the name finds the file, and the cursor after it is too long. -/
theorem emoji_incomplete : ¬ ∀ (server : Server) (db : Db) (bucket query : String) (pageSize : ℤ),
    WellRanked db server.runId → (bucket = "all" ∨ bucket ∈ buckets) →
      (utf8 query).length ≤ 1024 → 1 ≤ pageSize ∧ pageSize ≤ maxPageSize →
        server.Complete db bucket query pageSize := by
  intro hall
  have hw : WellRanked emojiDb "run" := ⟨by decide, by decide, by decide⟩
  have hname : emojiName.toList = List.replicate 63 '😀' ++ ['a'] := String.toList_ofList
  have hquery : (utf8 emojiName).length ≤ 1024 := by
    have hemoji : (String.utf8EncodeChar '😀').length = 4 := rfl
    have hletter : (String.utf8EncodeChar 'a').length = 1 := rfl
    simp [utf8, hname, hemoji, hletter]
  obtain ⟨rows, hfollows, -⟩ :=
    hall someServer emojiDb "all" emojiName 1 hw (.inl rfl) hquery (by decide)
  have hfits := Server.fits_of_follows hw (.inl rfl) hquery (by decide) hfollows
    Server.startsAfter_none 1 (by decide) (by decide)
  have hshown : (someServer.queueRow "all" emojiName (0, emojiRow)).isSome = true := by
    have hcontains : contains emojiName emojiRow.relativePath = true :=
      decide_eq_true ⟨"set/".toList, [], by simp [emojiRow]⟩
    simp [Server.queueRow, hcontains]
  obtain ⟨x, hx⟩ : ∃ x, (someServer.matching emojiDb "all" emojiName)[0]? = some x := by
    refine ⟨(0, emojiRow), ?_⟩
    rw [Server.matching, show queueRows emojiDb someServer.runId = [(0, emojiRow)] from rfl]
    simp [hshown]
  have hle := hfits x hx
  -- the query alone is too long
  have htext : (dumpsField ("query", .text emojiName)).length = 767 := by
    have hemoji : (asciiChar '😀').length = 12 := by decide
    have hletter : (asciiChar 'a').length = 1 := by decide
    have hkey : (asciiString "query").length = 7 := by decide
    have hvalue : (asciiString emojiName).length = 759 := by
      simp [asciiString, hname, hemoji, hletter]
    rw [dumpsField, List.length_append, List.length_cons, Scalar.dumps, hkey, hvalue]
  have hpart := length_le_joinComma (List.mem_map_of_mem (f := dumpsField)
    (show ("query", Scalar.text emojiName) ∈
      (someServer.cursorAt emojiDb "all" emojiName (queueKey x)).fields by
        simp [QueueCursor.fields, Server.cursorAt]))
  rw [cursorText, List.length_cons, List.length_append, List.length_singleton] at hle
  omega

end TodDl.Inspection
