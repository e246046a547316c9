/-
  The inventory — a listing, its lines and the file entries on them (inventory.py).

  `readLines` cuts the bytes in bounded chunks, as `read_lines` does.  A `Parser` is
  the state of `ListingParser.parse` after the lines before; an entry it yields has
  passed both patterns, which `Entry` keeps as fields.
-/
import TodDl.Provenance.Decode
import TodDl.Store.Projection

namespace TodDl.Inventory

open Store (isPySpace)

/-! ## `read_lines` -/

/-- `MAX_LINE_BYTES` -/
def maxLineBytes : ℕ := 8192

/-- `handle.readline(limit)`, and what is left to read. -/
def readline : ℕ → List UInt8 → List UInt8 × List UInt8
  | 0, bytes => ([], bytes)
  | _ + 1, [] => ([], [])
  | limit + 1, b :: bytes =>
    if b = 10 then ([b], bytes)
    else
      let (line, rest) := readline limit bytes
      (b :: line, rest)

/-- Discards the rest of a line, a chunk at a time. -/
def skipLine : ℕ → List UInt8 → List UInt8
  | 0, bytes => bytes
  | fuel + 1, bytes =>
    let (chunk, rest) := readline maxLineBytes bytes
    if chunk = [] ∨ chunk.getLast? = some 10 then rest else skipLine fuel rest

/-- What `read_lines` yields. -/
structure RawLine where
  number : ℕ
  bytes : List UInt8
  tooLong : Bool

/-- The lines from here on, the first of them after `number` others. -/
def readLinesFrom : ℕ → ℕ → List UInt8 → List RawLine
  | 0, _, _ => []
  | fuel + 1, number, bytes =>
    let (chunk, rest) := readline (maxLineBytes + 1) bytes
    if chunk = [] then []
    else if chunk.length > maxLineBytes ∧ chunk.getLast? ≠ some 10 then
      ⟨number + 1, chunk.take maxLineBytes, true⟩ ::
        readLinesFrom fuel (number + 1) (skipLine (rest.length + 1) rest)
    else if chunk.getLast? = some 10 then
      ⟨number + 1, chunk.dropLast, false⟩ :: readLinesFrom fuel (number + 1) rest
    else ⟨number + 1, chunk, false⟩ :: readLinesFrom fuel (number + 1) rest

/-- `read_lines(handle)`; each line takes a byte at least. -/
def readLines (bytes : List UInt8) : List RawLine := readLinesFrom (bytes.length + 1) 0 bytes

/-! ## `ListingParser` -/

/-- `LINE_CLASSES` -/
inductive LineClass where
  | blank | header | directory | file | unparsed | decodeError
  deriving DecidableEq

/-- The codes of issues. -/
inductive IssueCode where
  | decodeError | lineTooLong | badEntry | badSizeToken | emptyName | notAHeader | duplicateHeader
  deriving DecidableEq

/-- `STRUCTURAL_CODES` -/
def structuralCodes : List IssueCode :=
  [.decodeError, .lineTooLong, .badEntry, .badSizeToken, .emptyName, .notAHeader]

/-- `SIZE_TOKEN_RE`: digits, a fraction, a unit. -/
def isSizeToken (token : List Char) : Bool :=
  let digit := Provenance.isAsciiDigit
  let whole := token.takeWhile digit
  let rest := token.drop whole.length
  let rest := match rest with
    | '.' :: fraction => if (fraction.takeWhile digit).isEmpty then rest else fraction.dropWhile digit
    | _ => rest
  !whole.isEmpty && (rest = [] || rest ∈ "KMGTPE".toList.map fun c => [c])

/-- The groups of `ENTRY_RE`: kind, size token and name. -/
def entryGroups : List Char → Option (Char × List Char × List Char)
  | kind :: ' ' :: rest =>
    let token := rest.takeWhile fun c => !isPySpace c
    if kind ≠ 'd' ∧ kind ≠ '-' ∨ token = [] then none
    else match rest.drop token.length with
      | ' ' :: name => some (kind, token, name)
      | _ => none
  | _ => none

/-- `Entry`: a file of the listing. -/
structure Entry where
  line : ℕ
  sizeToken : String
  directory : String
  name : String
  sized : isSizeToken sizeToken.toList = true
  named : name ≠ ""

/-- The path of an entry. -/
def Entry.path (e : Entry) : String :=
  if e.directory = "" then e.name else e.directory ++ "/" ++ e.name

structure Parser where
  lines : ℕ := 0
  classes : List LineClass := []
  issues : List (ℕ × IssueCode) := []
  headers : List String := []
  directory : Option String := none
  expectHeader : Bool := true
  /-- a header is followed by one blank separator line -/
  afterHeader : Bool := false
  entries : List Entry := []

namespace Parser

/-- A line of the class; the counts are those of the list. -/
def counted (p : Parser) (c : LineClass) : Parser := { p with classes := p.classes ++ [c] }

/-- `_issue(line, code, detail)`, without the detail -/
def issue (p : Parser) (line : ℕ) (code : IssueCode) : Parser :=
  { p with issues := p.issues ++ [(line, code)] }

/-- A line that should have been a header. -/
def lostHeader (p : Parser) : Parser :=
  if p.expectHeader then { p with directory := none, expectHeader := false } else p

/-- `_entry(number, text, directory)`, and the `yield` of what it returns -/
def entry (p : Parser) (number : ℕ) (text : List Char) : Parser :=
  match entryGroups text with
  | none => (p.counted .unparsed).issue number .badEntry
  | some (kind, token, name) =>
    if hname : String.ofList name = "" then (p.counted .unparsed).issue number .emptyName
    else if hsize : isSizeToken (String.ofList token).toList = true then
      match p.directory with
      | none => (p.counted .unparsed).issue number .badEntry
      | some directory =>
        if kind = 'd' then p.counted .directory
        else
          { p.counted .file with
            entries := p.entries ++
              [⟨number, String.ofList token, directory, String.ofList name, hsize, hname⟩] }
    else (p.counted .unparsed).issue number .badSizeToken

/-- The name of a header line: what is before its colon, without a leading `./`. -/
def headerName (text : List Char) : Option (List Char) :=
  if text.getLast? = some ':' then
    match text.dropLast with
    | '.' :: '/' :: name => some name
    | name => some name
  else none

/-- A line where a header is expected. -/
def header (p : Parser) (number : ℕ) (text : List Char) : Parser :=
  let p := { p with expectHeader := false, afterHeader := false }
  match headerName text with
  | none | some [] => { (p.counted .unparsed).issue number .notAHeader with directory := none }
  | some (c :: cs) =>
    let name := String.ofList (c :: cs)
    let p := p.counted .header
    let p := if name ∈ p.headers then p.issue number .duplicateHeader else p
    { p with
      headers := name :: p.headers
      directory := some (if name = "." then "" else name)
      afterHeader := true }

/-- One turn of the loop of `parse`. -/
def step (p : Parser) (raw : RawLine) : Parser :=
  let p := { p with lines := p.lines + 1 }
  if raw.tooLong then ((p.counted .unparsed).issue raw.number .lineTooLong).lostHeader
  else if raw.bytes = [] then
    let p := p.counted .blank
    if p.afterHeader then { p with afterHeader := false } else { p with expectHeader := true }
  else match Provenance.decodeUtf8 raw.bytes with
    | none => ((p.counted .decodeError).issue raw.number .decodeError).lostHeader
    | some text =>
      if p.expectHeader then p.header raw.number text
      else { p with afterHeader := false }.entry raw.number text

end Parser

/-- `ListingParser().parse(handle)` on the bytes of a listing -/
def parse (raw : List UInt8) : Parser := (readLines raw).foldl Parser.step {}

/-! ## The entries of a listing -/

theorem sublist_readLinesFrom (fuel number : ℕ) (bytes : List UInt8) :
    ((readLinesFrom fuel number bytes).map (·.number)).Sublist (List.range' (number + 1) fuel) := by
  induction fuel generalizing number bytes with
  | zero => exact List.nil_sublist _
  | succ fuel ih =>
    rw [readLinesFrom, List.range'_succ]
    dsimp only
    split
    · exact List.nil_sublist _
    · split
      · exact (ih _ _).cons_cons _
      · split
        · exact (ih _ _).cons_cons _
        · exact (ih _ _).cons_cons _

namespace Parser

/-- What one line adds: a file entry on it or none, and its class. -/
theorem entries_step (p : Parser) (raw : RawLine) :
    ((p.step raw).entries = p.entries ∧
      ∃ c, (p.step raw).classes = p.classes ++ [c] ∧ c ≠ .file) ∨
    ∃ e : Entry, e.line = raw.number ∧ (p.step raw).entries = p.entries ++ [e] ∧
      (p.step raw).classes = p.classes ++ [.file] := by
  unfold step
  dsimp only
  split
  · refine .inl ⟨?_, .unparsed, ?_, by decide⟩ <;>
      simp only [lostHeader] <;> split <;> rfl
  · split
    · refine .inl ⟨?_, .blank, ?_, by decide⟩ <;> cases p.afterHeader <;> simp [counted]
    · split
      · refine .inl ⟨?_, .decodeError, ?_, by decide⟩ <;> simp only [lostHeader] <;> split <;> rfl
      · split
        · left
          unfold header
          dsimp only
          split
          · exact ⟨rfl, .unparsed, rfl, by decide⟩
          · exact ⟨rfl, .unparsed, rfl, by decide⟩
          · refine ⟨?_, .header, ?_, by decide⟩ <;> dsimp only <;> split <;> rfl
        · unfold entry
          split
          · exact .inl ⟨rfl, .unparsed, rfl, by decide⟩
          · split
            · exact .inl ⟨rfl, .unparsed, rfl, by decide⟩
            · split
              · split
                · exact .inl ⟨rfl, .unparsed, rfl, by decide⟩
                · split
                  · exact .inl ⟨rfl, .directory, rfl, by decide⟩
                  · exact .inr ⟨_, rfl, rfl, rfl⟩
              · exact .inl ⟨rfl, .unparsed, rfl, by decide⟩

theorem entries_steps (raws : List RawLine) (p : Parser) :
    ∃ es : List Entry, (raws.foldl step p).entries = p.entries ++ es ∧
      (es.map (·.line)).Sublist (raws.map (·.number)) ∧
      (raws.foldl step p).classes.count .file = p.classes.count .file + es.length := by
  induction raws generalizing p with
  | nil => exact ⟨[], by simp⟩
  | cons raw raws ih =>
    obtain ⟨es, hes, hsub, hcount⟩ := ih (p.step raw)
    rcases p.entries_step raw with ⟨he, c, hc, hfile⟩ | ⟨e, hline, he, hc⟩
    · refine ⟨es, ?_, hsub.cons _, ?_⟩
      · rw [List.foldl_cons, hes, he]
      · rw [List.foldl_cons, hcount, hc]
        simp [hfile]
    · refine ⟨e :: es, ?_, ?_, ?_⟩
      · rw [List.foldl_cons, hes, he, List.append_assoc, List.singleton_append]
      · rw [List.map_cons, List.map_cons, hline]
        exact hsub.cons_cons _
      · rw [List.foldl_cons, hcount, hc, List.count_append, List.count_singleton_self,
          List.length_cons]
        omega

end Parser

/-- Entries come in the order of their lines, one on a line. -/
theorem pairwise_line (raw : List UInt8) :
    (parse raw).entries.Pairwise fun a b => a.line < b.line := by
  obtain ⟨es, hes, hsub, -⟩ := Parser.entries_steps (readLines raw) {}
  rw [parse, hes, List.nil_append]
  exact List.pairwise_map.1 ((List.pairwise_lt_range' (s := 1) (n := raw.length + 1)).sublist
    (hsub.trans (sublist_readLinesFrom _ 0 _)))

end TodDl.Inventory
