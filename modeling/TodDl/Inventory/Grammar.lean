/-
  The grammar of a listing (inventory.py, `ListingParser`).

  A listing is a list of sections: a header, its separator and the entries, with a blank
  line between sections.  The parser is an automaton over lines; of its state only two
  flags decide where a header stands.

  * `parse_render`: what is rendered from sections is read back, line by line;
  * `section_of_state`: a parser inside a section has seen its header, and what came since;
  * `entries_inSection_iff`: every entry lies in its section exactly if no separator is
    taken for one that stands after damaged lines.
-/
import TodDl.Inventory.Encode
import TodDl.Inventory.Lines

namespace TodDl.Inventory

open Provenance (utf8 decodeUtf8)

/-! ## Rendering -/

/-- An entry of a section: a size token and a name of any characters. -/
structure SectionEntry where
  isDirectory : Bool
  token : List Char
  name : List Char
  sized : isSizeToken token = true
  named : name ≠ []
  oneLine : '\n' ∉ name

/-- A section, with the form of its header. -/
structure ListingSection where
  dotted : Bool
  name : List Char
  entries : List SectionEntry
  named : name ≠ []
  oneLine : '\n' ∉ name
  /-- a leading `./` belongs to the form of the header -/
  plain : dotted = false → ¬ ['.', '/'] <+: name

namespace SectionEntry

/-- `<d|-> <size-token> <name>` -/
def line (e : SectionEntry) : List Char :=
  (if e.isDirectory then 'd' else '-') :: ' ' :: (e.token ++ ' ' :: e.name)

end SectionEntry

namespace ListingSection

/-- `name:` or `./name:` -/
def header (s : ListingSection) : List Char :=
  (if s.dotted then ['.', '/'] else []) ++ s.name ++ [':']

def lines (s : ListingSection) : List (List Char) :=
  s.header :: [] :: s.entries.map SectionEntry.line

/-- The directory that the header names; `.` is the root. -/
def directory (s : ListingSection) : String :=
  if String.ofList s.name = "." then "" else String.ofList s.name

end ListingSection

/-- The lines of a listing: a blank line between sections. -/
def listingLines : List ListingSection → List (List Char)
  | [] => []
  | [s] => s.lines
  | s :: rest => s.lines ++ [] :: listingLines rest

/-- The bytes of a listing. -/
def render (sections : List ListingSection) : List UInt8 :=
  (listingLines sections).flatMap fun line => utf8 line ++ [10]

/-- The line is short enough to be read whole. -/
def Fits (line : List Char) : Prop := (utf8 line).length ≤ maxLineBytes

instance (line : List Char) : Decidable (Fits line) := inferInstanceAs (Decidable (_ ≤ _))

/-- A listing: sections whose lines are read whole. -/
structure Listing where
  sections : List ListingSection
  fits : ∀ line ∈ listingLines sections, Fits line

/-- What a reader sees of an entry. -/
structure EntryFields where
  line : ℕ
  sizeToken : String
  directory : String
  name : String
  deriving DecidableEq

def Entry.fields (e : Entry) : EntryFields := ⟨e.line, e.sizeToken, e.directory, e.name⟩

/-- The files among the entries of a directory, the first of them on line `number`. -/
def fileFields (directory : String) : ℕ → List SectionEntry → List EntryFields
  | _, [] => []
  | number, e :: rest =>
    (if e.isDirectory then [] else
      [⟨number, String.ofList e.token, directory, String.ofList e.name⟩]) ++
      fileFields directory (number + 1) rest

/-- The files of the sections, the first of which begins on line `number`. -/
def listingFields : ℕ → List ListingSection → List EntryFields
  | _, [] => []
  | number, s :: rest =>
    fileFields s.directory (number + 2) s.entries ++
      listingFields (number + s.entries.length + 3) rest

/-! ## Lines of text -/

theorem newline_notMem_utf8EncodeChar {c : Char} (h : c ≠ '\n') :
    10 ∉ String.utf8EncodeChar c := by
  intro hmem
  have hmap : 10 ∈ (String.utf8EncodeChar c).map UInt8.toNat := List.mem_map.2 ⟨10, hmem, rfl⟩
  have hne : c.toNat ≠ 10 := fun he => h (Char.toNat_inj.1 he)
  rw [map_utf8EncodeChar] at hmap
  split at hmap
  · simp only [List.mem_singleton] at hmap
    omega
  · split at hmap
    · simp only [List.mem_cons, List.not_mem_nil, or_false] at hmap
      omega
    · split at hmap
      · simp only [List.mem_cons, List.not_mem_nil, or_false] at hmap
        omega
      · simp only [List.mem_cons, List.not_mem_nil, or_false] at hmap
        omega

theorem newline_notMem_utf8 {line : List Char} (h : '\n' ∉ line) : 10 ∉ utf8 line := by
  intro hmem
  obtain ⟨c, hc, hbyte⟩ := List.mem_flatMap.1 hmem
  exact newline_notMem_utf8EncodeChar (fun he => h (he ▸ hc)) hbyte

theorem utf8_ne_nil {line : List Char} (h : line ≠ []) : utf8 line ≠ [] := by
  cases line with
  | nil => exact absurd rfl h
  | cons c line =>
    rw [utf8, List.flatMap_cons, Ne, List.append_eq_nil_iff, not_and]
    exact fun hc => absurd hc (String.utf8EncodeChar_ne_nil)

theorem splitLines_text (lines : List (List Char)) (h : ∀ line ∈ lines, '\n' ∉ line) :
    splitLines (lines.flatMap fun line => utf8 line ++ [10]) = lines.map utf8 := by
  induction lines with
  | nil => rfl
  | cons line lines ih =>
    rw [List.flatMap_cons, List.append_assoc, List.singleton_append,
      splitLines_newline (newline_notMem_utf8 (h line List.mem_cons_self)),
      ih fun l hl => h l (List.mem_cons_of_mem _ hl), List.map_cons]

namespace SectionEntry

theorem oneLine_line (e : SectionEntry) : '\n' ∉ e.line := by
  obtain ⟨-, hword⟩ := word_sizeToken e.sized
  have htoken : '\n' ∉ e.token := fun hmem =>
    absurd (hword _ hmem) (by decide)
  have hkind : '\n' ≠ if e.isDirectory then 'd' else '-' := by split <;> decide
  rw [line, List.mem_cons, List.mem_cons, List.mem_append, List.mem_cons]
  rintro (h | h | h | h | h)
  · exact hkind h
  · exact absurd h (by decide)
  · exact htoken h
  · exact absurd h (by decide)
  · exact e.oneLine h

/-- The groups of an entry line are its fields. -/
theorem entryGroups_line (e : SectionEntry) :
    entryGroups e.line = some (if e.isDirectory then 'd' else '-', e.token, e.name) := by
  obtain ⟨hne, hword⟩ := word_sizeToken e.sized
  have htake : (e.token ++ ' ' :: e.name).takeWhile (fun c => !Store.isPySpace c) = e.token := by
    rw [List.takeWhile_append_of_pos fun c hc => by simp [hword c hc]]
    have hspace : Store.isPySpace ' ' = true := by decide
    simp [hspace]
  have hkind : ¬ ((if e.isDirectory then 'd' else '-') ≠ 'd' ∧
      (if e.isDirectory then 'd' else '-') ≠ '-' ∨ e.token = []) := by
    rintro (⟨h, h'⟩ | h)
    · split at h
      · exact h rfl
      · next hd => exact h' (if_neg hd)
    · exact hne h
  rw [line, entryGroups]
  simp only [htake, if_neg hkind, List.drop_left]

end SectionEntry

namespace ListingSection

theorem headerName_header (s : ListingSection) : Parser.headerName s.header = some s.name := by
  have hlast : s.header.getLast? = some ':' := by simp [header]
  have hdrop : s.header.dropLast = (if s.dotted then ['.', '/'] else []) ++ s.name := by
    rw [header, List.dropLast_concat]
  rw [Parser.headerName, if_pos hlast, hdrop]
  by_cases hdotted : s.dotted = true
  · simp [hdotted]
  · have hplain := s.plain (by simpa using hdotted)
    simp only [hdotted, if_false, Bool.false_eq_true, List.nil_append]
    split
    · next name hname =>
      rw [hname] at hplain
      exact absurd ⟨name, rfl⟩ hplain
    · rfl

theorem oneLine_header (s : ListingSection) : '\n' ∉ s.header := by
  have hdots : '\n' ∉ if s.dotted then ['.', '/'] else [] := by split <;> decide
  rw [header, List.mem_append, List.mem_append, List.mem_singleton]
  rintro ((h | h) | h)
  · exact hdots h
  · exact s.oneLine h
  · exact absurd h (by decide)

theorem oneLine_lines (s : ListingSection) : ∀ line ∈ s.lines, '\n' ∉ line := by
  intro line hline
  rcases List.mem_cons.1 hline with rfl | hline
  · exact s.oneLine_header
  · rcases List.mem_cons.1 hline with rfl | hline
    · exact List.not_mem_nil
    · obtain ⟨e, -, rfl⟩ := List.mem_map.1 hline
      exact e.oneLine_line

end ListingSection

theorem oneLine_listingLines : ∀ sections : List ListingSection,
    ∀ line ∈ listingLines sections, '\n' ∉ line
  | [], _, h => absurd h List.not_mem_nil
  | [s], line, h => s.oneLine_lines line h
  | s :: s' :: rest, line, h => by
    rcases List.mem_append.1 h with h | h
    · exact s.oneLine_lines line h
    · rcases List.mem_cons.1 h with rfl | h
      · exact List.not_mem_nil
      · exact oneLine_listingLines (s' :: rest) line h

/-! ## Reading what is rendered -/

theorem rawLine_fits {line : List Char} (h : Fits line) (number : ℕ) :
    rawLine number (utf8 line) = ⟨number, utf8 line, false⟩ := by
  rw [rawLine, List.take_of_length_le h, decide_eq_false (not_lt.2 h)]

/-- A parser that has read these files, without a structural issue. -/
structure Parser.ReadOn (p p' : Parser) (fields : List EntryFields) : Prop where
  entries : p'.entries.map Entry.fields = p.entries.map Entry.fields ++ fields
  issues : ∀ issue ∈ p'.issues, issue ∈ p.issues ∨ issue.2 = .duplicateHeader

theorem Parser.ReadOn.trans {p p' p'' : Parser} {fields fields' : List EntryFields}
    (h : p.ReadOn p' fields) (h' : p'.ReadOn p'' fields') :
    p.ReadOn p'' (fields ++ fields') := by
  refine ⟨by rw [h'.entries, h.entries, List.append_assoc], fun issue hissue => ?_⟩
  rcases h'.issues issue hissue with hissue | hissue
  · exact h.issues issue hissue
  · exact .inr hissue

/-- The parser is in a section, past its header line. -/
structure Parser.InDirectory (p : Parser) (directory : String) : Prop where
  expectHeader : p.expectHeader = false
  directory : p.directory = some directory

theorem step_header {p : Parser} (hp : p.expectHeader = true) (s : ListingSection)
    (number : ℕ) : p.ReadOn (p.step ⟨number, utf8 s.header, false⟩) [] ∧
      (p.step ⟨number, utf8 s.header, false⟩).InDirectory s.directory ∧
      (p.step ⟨number, utf8 s.header, false⟩).afterHeader = true := by
  have hne : utf8 s.header ≠ [] := utf8_ne_nil (by simp [ListingSection.header])
  obtain ⟨c, cs, hname⟩ := List.exists_cons_of_ne_nil s.named
  rw [Parser.step]
  simp only [Bool.false_eq_true, if_false, if_neg hne, Provenance.decodeUtf8_utf8, hp, if_true]
  rw [Parser.header, s.headerName_header, hname]
  dsimp only
  rw [ListingSection.directory, hname]
  split
  · refine ⟨⟨by simp [Parser.issue, Parser.counted], fun issue hissue => ?_⟩, ⟨rfl, rfl⟩, rfl⟩
    rcases List.mem_append.1 hissue with h | h
    · exact .inl h
    · exact .inr (congrArg Prod.snd (List.mem_singleton.1 h))
  · exact ⟨⟨by simp [Parser.counted], fun issue hissue => .inl hissue⟩, ⟨rfl, rfl⟩, rfl⟩

theorem step_separator {p : Parser} {directory : String} (hp : p.InDirectory directory)
    (hafter : p.afterHeader = true) (number : ℕ) : p.ReadOn (p.step ⟨number, [], false⟩) [] ∧
      (p.step ⟨number, [], false⟩).InDirectory directory ∧
      (p.step ⟨number, [], false⟩).afterHeader = false := by
  simp only [Parser.step, Parser.counted, hafter, Bool.false_eq_true, if_false, if_true]
  exact ⟨⟨by simp, fun issue hissue => .inl hissue⟩, ⟨hp.expectHeader, hp.directory⟩, trivial⟩

theorem step_break {p : Parser} (hafter : p.afterHeader = false) (number : ℕ) :
    p.ReadOn (p.step ⟨number, [], false⟩) [] ∧
      (p.step ⟨number, [], false⟩).expectHeader = true := by
  simp only [Parser.step, Parser.counted, hafter, Bool.false_eq_true, if_false, if_true]
  exact ⟨⟨by simp, fun issue hissue => .inl hissue⟩, trivial⟩

theorem step_entry {p : Parser} {directory : String} (hp : p.InDirectory directory)
    (e : SectionEntry) (number : ℕ) :
    p.ReadOn (p.step ⟨number, utf8 e.line, false⟩) (if e.isDirectory then [] else
        [⟨number, String.ofList e.token, directory, String.ofList e.name⟩]) ∧
      (p.step ⟨number, utf8 e.line, false⟩).InDirectory directory ∧
      (p.step ⟨number, utf8 e.line, false⟩).afterHeader = false := by
  have hne : utf8 e.line ≠ [] := utf8_ne_nil (List.cons_ne_nil _ _)
  have hname : String.ofList e.name ≠ "" := fun h => e.named (by
    rw [← String.toList_ofList (l := e.name), h, String.toList_empty])
  have hsized : isSizeToken (String.ofList e.token).toList = true := by
    rw [String.toList_ofList]
    exact e.sized
  rw [Parser.step]
  simp only [Bool.false_eq_true, if_false, if_neg hne, Provenance.decodeUtf8_utf8,
    hp.expectHeader]
  rw [Parser.entry, e.entryGroups_line]
  simp only [dif_neg hname, dif_pos hsized, hp.directory]
  by_cases hdir : e.isDirectory = true
  · simp only [hdir, if_true]
    exact ⟨⟨by simp [Parser.counted], fun issue hissue => .inl hissue⟩, ⟨rfl, rfl⟩, rfl⟩
  · have hkind : ¬ (if e.isDirectory = true then 'd' else '-') = 'd' := by
      rw [if_neg hdir]
      decide
    rw [if_neg hkind, if_neg hdir]
    exact ⟨⟨by simp [Entry.fields], fun issue hissue => .inl hissue⟩,
      ⟨rfl, rfl⟩, rfl⟩

/-- The parser after more lines, the first of them after `number` others. -/
def Parser.reads (p : Parser) (number : ℕ) (lines : List (List Char)) : Parser :=
  (numbered number (lines.map utf8)).foldl Parser.step p

theorem reads_cons (p : Parser) (number : ℕ) {line : List Char} (h : Fits line)
    (lines : List (List Char)) : p.reads number (line :: lines) =
      (p.step ⟨number + 1, utf8 line, false⟩).reads (number + 1) lines := by
  rw [Parser.reads, List.map_cons, numbered, rawLine_fits h]
  rfl

theorem reads_append (p : Parser) (number : ℕ) (lines lines' : List (List Char)) :
    p.reads number (lines ++ lines') =
      (p.reads number lines).reads (number + lines.length) lines' := by
  rw [Parser.reads, List.map_append, numbered_append, List.foldl_append, List.length_map]
  rfl

theorem reads_entries {directory : String} (es : List SectionEntry) {p : Parser} (number : ℕ)
    (hfits : ∀ e ∈ es, Fits e.line) (hp : p.InDirectory directory)
    (hafter : p.afterHeader = false) :
    p.ReadOn (p.reads number (es.map SectionEntry.line)) (fileFields directory (number + 1) es) ∧
      (p.reads number (es.map SectionEntry.line)).InDirectory directory ∧
      (p.reads number (es.map SectionEntry.line)).afterHeader = false := by
  induction es generalizing p number with
  | nil => exact ⟨⟨by simp [Parser.reads, fileFields, numbered], fun _ h => .inl h⟩, hp, hafter⟩
  | cons e es ih =>
    obtain ⟨hread, hin, hseparated⟩ := step_entry hp e (number + 1)
    obtain ⟨hrest, hstate⟩ := ih (number + 1)
      (fun e' he' => hfits e' (List.mem_cons_of_mem _ he')) hin hseparated
    rw [List.map_cons, reads_cons p number (hfits e List.mem_cons_self), fileFields]
    exact ⟨hread.trans hrest, hstate⟩

/-- A section is read where a header is expected. -/
theorem reads_section (s : ListingSection) {p : Parser} (number : ℕ)
    (hfits : ∀ line ∈ s.lines, Fits line) (hp : p.expectHeader = true) :
    p.ReadOn (p.reads number s.lines) (fileFields s.directory (number + 3) s.entries) ∧
      (p.reads number s.lines).afterHeader = false := by
  obtain ⟨hheader, hin, hafter⟩ := step_header hp s (number + 1)
  obtain ⟨hblank, hin', hafter'⟩ := step_separator hin hafter (number + 2)
  have hentries : ∀ e ∈ s.entries, Fits e.line := fun e he =>
    hfits _ (List.mem_cons_of_mem _ (List.mem_cons_of_mem _ (List.mem_map.2 ⟨e, he, rfl⟩)))
  obtain ⟨hread, -, hend⟩ := reads_entries s.entries (number + 2) hentries hin' hafter'
  rw [ListingSection.lines, reads_cons p number (hfits _ List.mem_cons_self),
    reads_cons _ _ (hfits _ (List.mem_cons_of_mem _ List.mem_cons_self))]
  exact ⟨(hheader.trans hblank).trans hread, hend⟩

/-- **A listing is read section by section.** -/
theorem reads_listing : ∀ (sections : List ListingSection) (number : ℕ) {p : Parser},
    (∀ line ∈ listingLines sections, Fits line) → p.expectHeader = true →
      p.ReadOn (p.reads number (listingLines sections)) (listingFields (number + 1) sections)
  | [], number, p, _, _ => ⟨by simp [Parser.reads, listingLines, listingFields, numbered],
      fun _ h => .inl h⟩
  | [s], number, p, hfits, hp => by
    rw [listingFields, listingFields, List.append_nil]
    exact (reads_section s number hfits hp).1
  | s :: s' :: rest, number, p, hfits, hp => by
    obtain ⟨hread, hafter⟩ := reads_section s (p := p) number
      (fun line hline => hfits line (List.mem_append_left _ hline)) hp
    have hrest : ∀ line ∈ [] :: listingLines (s' :: rest), Fits line := fun line hline =>
      hfits line (List.mem_append_right _ hline)
    obtain ⟨hblank, hexpect⟩ := step_break hafter (number + s.lines.length + 1)
    have hlength : s.lines.length = s.entries.length + 2 := by
      simp [ListingSection.lines]
    have hmore := reads_listing (s' :: rest) (number + s.lines.length + 1)
      (fun line hline => hrest line (List.mem_cons_of_mem _ hline)) hexpect
    have hnumber : number + s.lines.length + 1 + 1 = number + 1 + s.entries.length + 3 := by
      omega
    have hall := (hread.trans hblank).trans hmore
    rw [List.append_nil, hnumber] at hall
    rw [listingLines, reads_append, reads_cons _ _ (hrest _ List.mem_cons_self), listingFields]
    · exact hall
    · exact List.cons_ne_nil s' rest

theorem parse_eq_reads (sections : List ListingSection) :
    parse (render sections) = ({} : Parser).reads 0 (listingLines sections) := by
  rw [parse, readLines_eq, render, splitLines_text _ (oneLine_listingLines sections)]
  rfl

/-- **What is rendered is read back**: the files of the sections in order, each with its
    directory, name, size token and line, and no structural issue. -/
theorem parse_render (listing : Listing) :
    (parse (render listing.sections)).entries.map Entry.fields =
        listingFields 1 listing.sections ∧
      ∀ issue ∈ (parse (render listing.sections)).issues, issue.2 ∉ structuralCodes := by
  rw [parse_eq_reads]
  have hread := reads_listing listing.sections 0 (p := {}) listing.fits rfl
  refine ⟨by simpa using hread.entries, fun issue hissue => ?_⟩
  rcases hread.issues issue hissue with h | h
  · cases h
  · rw [h]
    decide

/-! ## Where headers stand -/

namespace RawLine

def isBlank (l : RawLine) : Bool := !l.tooLong && l.bytes.isEmpty

/-- Over the limit, or not UTF-8. -/
def isDamaged (l : RawLine) : Bool :=
  l.tooLong || (!l.bytes.isEmpty && (decodeUtf8 l.bytes).isNone)

/-- The text of a line that is neither blank nor damaged. -/
def text? (l : RawLine) : Option (List Char) :=
  if l.isBlank || l.isDamaged then none else decodeUtf8 l.bytes

/-- The directory of a line that has the form of a header. -/
def headerOf (l : RawLine) : Option String :=
  (l.text?.bind Parser.headerName).bind fun name =>
    if name = [] then none else some (if String.ofList name = "." then "" else String.ofList name)

/-- The line has the form of a file entry. -/
def isFile (l : RawLine) : Bool :=
  (l.text?.bind entryGroups).any fun (kind, token, name) =>
    kind ≠ 'd' && name ≠ [] && isSizeToken token

end RawLine

/-- Where the lines before have led the parser: whether a header is expected, whether one waits
    for its separator, and the directory.  These are the parser's own flags, over lines that are
    blank, damaged or text: a blank line means an end or a separator, by what came before, so that
    where a header stands is not said without them. -/
structure Place where
  expectHeader : Bool := true
  afterHeader : Bool := false
  directory : Option String := none

/-- What a line does to the place. -/
def Place.step (s : Place) (l : RawLine) : Place :=
  if l.isBlank then
    if s.afterHeader then { s with afterHeader := false } else { s with expectHeader := true }
  else if l.isDamaged then
    if s.expectHeader then { s with expectHeader := false, directory := none } else s
  else if s.expectHeader then ⟨false, l.headerOf.isSome, l.headerOf⟩
  else ⟨false, false, s.directory⟩

def placeAfter (lines : List RawLine) : Place := lines.foldl Place.step {}

/-- A header is expected after these lines, by the rule of the parser. -/
def headerDue (lines : List RawLine) : Bool := (placeAfter lines).expectHeader

/-- The entry lies in a section: a header opens it, and no blank line but the separator directly
    after the header comes before the entry. -/
def InSection (lines : List RawLine) (e : Entry) : Prop :=
  ∃ before header between line rest, lines = before ++ header :: (between ++ line :: rest) ∧
    line.number = e.line ∧ headerDue before = true ∧
    header.headerOf = some e.directory ∧
    ∀ b₁ b b₂, between = b₁ ++ b :: b₂ → b.isBlank = true → b₁ = []

/-- A section that goes on after its end: damaged lines stand between a header and the first
    blank line, and a file comes before the next one. -/
def RunsOn (lines : List RawLine) : Prop :=
  ∃ before header damaged blank more file rest,
    lines = before ++ header :: (damaged ++ blank :: (more ++ file :: rest)) ∧
    headerDue before = true ∧ header.headerOf.isSome ∧
    damaged ≠ [] ∧ (∀ l ∈ damaged, l.isDamaged = true) ∧ blank.isBlank = true ∧
    (∀ l ∈ more, l.isBlank = false) ∧ file.isFile = true

/-! ## The state inside a section -/

theorem isDamaged_isBlank {l : RawLine} (h : l.isDamaged = true) : l.isBlank = false := by
  rw [RawLine.isDamaged, Bool.or_eq_true, Bool.and_eq_true] at h
  rw [RawLine.isBlank, Bool.and_eq_false_iff]
  rcases h with hlong | ⟨hbytes, -⟩
  · exact .inl (by rw [hlong]; rfl)
  · exact .inr (by simpa using hbytes)

/-- The lines keep a section of the parser open: before a blank line all are damaged. -/
def Unbroken (lines : List RawLine) : Prop :=
  ∀ l₁ l l₂, lines = l₁ ++ l :: l₂ → l.isBlank = true → ∀ x ∈ l₁, x.isDamaged = true

theorem Unbroken.of_append {l l' : List RawLine} (h : Unbroken (l ++ l')) : Unbroken l := by
  rintro l₁ x l₂ rfl hblank
  exact h l₁ x (l₂ ++ l') (by simp) hblank

/-- A line keeps the section open if it is not blank, or all before it are damaged. -/
theorem unbroken_concat {lines : List RawLine} {l : RawLine} : Unbroken (lines ++ [l]) ↔
    Unbroken lines ∧ (l.isBlank = true → ∀ x ∈ lines, x.isDamaged = true) := by
  constructor
  · intro h
    exact ⟨h.of_append, fun hblank => h lines l [] rfl hblank⟩
  · rintro ⟨h, hl⟩ l₁ x l₂ hsplit hblank
    rcases List.eq_nil_or_concat l₂ with rfl | ⟨l₂, y, rfl⟩
    · obtain ⟨rfl, hx⟩ := List.append_inj' hsplit rfl
      obtain rfl := (List.cons.inj hx).1
      exact hl hblank
    · refine h l₁ x l₂ ?_ hblank
      rw [List.concat_eq_append, ← List.cons_append, ← List.append_assoc] at hsplit
      exact (List.append_inj' hsplit rfl).1

/-- A header, and the lines that keep its section open. -/
def Opened (lines : List RawLine) (d : String) (within : List RawLine) : Prop :=
  ∃ before header, lines = before ++ header :: within ∧ headerDue before = true ∧
    header.headerOf = some d ∧ Unbroken within

theorem placeAfter_concat (lines : List RawLine) (l : RawLine) :
    placeAfter (lines ++ [l]) = (placeAfter lines).step l := by
  rw [placeAfter, List.foldl_append]
  rfl

/-- One more line: it opens a section, or keeps one open. -/
theorem opened_concat {lines : List RawLine} {l : RawLine} {d : String} {within : List RawLine} :
    Opened (lines ++ [l]) d within ↔
      (within = [] ∧ headerDue lines = true ∧ l.headerOf = some d) ∨
      ∃ w, within = w ++ [l] ∧ Opened lines d w ∧
        (l.isBlank = true → ∀ x ∈ w, x.isDamaged = true) := by
  constructor
  · rintro ⟨before, header, hlines, hdue, hheader, hopen⟩
    rcases List.eq_nil_or_concat within with rfl | ⟨w, x, rfl⟩
    · obtain ⟨rfl, hx⟩ := List.append_inj' hlines rfl
      obtain rfl := (List.cons.inj hx).1
      exact .inl ⟨rfl, hdue, hheader⟩
    · rw [List.concat_eq_append, ← List.cons_append, ← List.append_assoc] at hlines
      obtain ⟨rfl, hx⟩ := List.append_inj' hlines rfl
      obtain rfl := (List.cons.inj hx).1
      rw [List.concat_eq_append] at hopen ⊢
      obtain ⟨hw, hl⟩ := unbroken_concat.1 hopen
      exact .inr ⟨w, rfl, ⟨before, header, rfl, hdue, hheader, hw⟩, hl⟩
  · rintro (⟨rfl, hdue, hheader⟩ | ⟨w, rfl, ⟨before, header, rfl, hdue, hheader, hw⟩, hl⟩)
    · refine ⟨lines, l, rfl, hdue, hheader, ?_⟩
      rintro l₁ x l₂ hnil
      simp at hnil
    · exact ⟨before, header, by simp, hdue, hheader, unbroken_concat.2 ⟨hw, hl⟩⟩

theorem headerOf_isBlank {l : RawLine} {d : String} (h : l.headerOf = some d) :
    l.isBlank = false ∧ l.isDamaged = false := by
  unfold RawLine.headerOf RawLine.text? at h
  cases hb : l.isBlank <;> cases hd : l.isDamaged <;> simp [hb, hd] at h ⊢

/-- **Where the lines have led**: inside a section exactly if they opened one, and waiting for
    the separator as long as only damaged lines came. -/
structure Follows (lines : List RawLine) : Prop where
  opened : ∀ d, (placeAfter lines).expectHeader = false → (placeAfter lines).directory = some d →
    ∃ within, Opened lines d within
  inside : ∀ d within, Opened lines d within → (placeAfter lines).expectHeader = false ∧
    (placeAfter lines).directory = some d ∧
    ((placeAfter lines).afterHeader = true ↔ ∀ x ∈ within, x.isDamaged = true)
  waiting : (placeAfter lines).afterHeader = true → (placeAfter lines).expectHeader = false ∧
    ∃ d, (placeAfter lines).directory = some d

theorem Follows.blank {lines : List RawLine} (h : Follows lines) {l : RawLine}
    (hl : l.isBlank = true) : Follows (lines ++ [l]) := by
  have hheader : l.headerOf = none := by
    cases hd : l.headerOf with
    | none => rfl
    | some d => simp [(headerOf_isBlank hd).1] at hl
  have hdamaged : l.isDamaged = false := by
    cases hd : l.isDamaged with
    | false => rfl
    | true => simp [isDamaged_isBlank hd] at hl
  have hplace : placeAfter (lines ++ [l]) = if (placeAfter lines).afterHeader then
      { placeAfter lines with afterHeader := false }
      else { placeAfter lines with expectHeader := true } := by
    rw [placeAfter_concat, Place.step, if_pos hl]
  refine ⟨fun d hexpect hdir => ?_, fun d within hopen => ?_, fun hafter => ?_⟩
  · rw [hplace] at hexpect hdir
    split at hexpect
    · next hafter =>
      rw [if_pos hafter] at hdir
      obtain ⟨w, hw⟩ := h.opened d hexpect hdir
      have hall := (h.inside d w hw).2.2.1 hafter
      exact ⟨w ++ [l], opened_concat.2 (.inr ⟨w, rfl, hw, fun _ => hall⟩)⟩
    · cases hexpect
  · rcases opened_concat.1 hopen with ⟨-, -, hd⟩ | ⟨w, rfl, hw, hl'⟩
    · simp [hheader] at hd
    · obtain ⟨hexpect, hdir, hafter⟩ := h.inside d w hw
      rw [hplace, if_pos (hafter.2 (hl' hl))]
      refine ⟨hexpect, hdir, ?_⟩
      simp [hdamaged]
  · rw [hplace] at hafter
    split at hafter
    · cases hafter
    · next hno => exact absurd hafter hno

theorem Follows.damaged {lines : List RawLine} (h : Follows lines) {l : RawLine}
    (hl : l.isDamaged = true) : Follows (lines ++ [l]) := by
  have hblank := isDamaged_isBlank hl
  have hheader : l.headerOf = none := by
    cases hd : l.headerOf with
    | none => rfl
    | some d => simp [(headerOf_isBlank hd).2] at hl
  have hplace : placeAfter (lines ++ [l]) = if (placeAfter lines).expectHeader then
      { placeAfter lines with expectHeader := false, directory := none } else placeAfter lines := by
    rw [placeAfter_concat, Place.step, if_neg (by simp [hblank]), if_pos hl]
  refine ⟨fun d hexpect hdir => ?_, fun d within hopen => ?_, fun hafter => ?_⟩
  · rw [hplace] at hexpect hdir
    split at hexpect
    · next hdue =>
      rw [if_pos hdue] at hdir
      cases hdir
    · next hdue =>
      rw [if_neg hdue] at hdir
      obtain ⟨w, hw⟩ := h.opened d hexpect hdir
      exact ⟨w ++ [l], opened_concat.2 (.inr ⟨w, rfl, hw, fun hb => by simp [hblank] at hb⟩)⟩
  · rcases opened_concat.1 hopen with ⟨-, -, hd⟩ | ⟨w, rfl, hw, -⟩
    · simp [hheader] at hd
    · obtain ⟨hexpect, hdir, hafter⟩ := h.inside d w hw
      rw [hplace, if_neg (by simp [hexpect])]
      refine ⟨hexpect, hdir, ?_⟩
      rw [hafter, List.forall_mem_append]
      simp [hl]
  · rw [hplace] at hafter ⊢
    split at hafter
    · next hdue =>
      obtain ⟨hexpect, -⟩ := h.waiting hafter
      simp [hexpect] at hdue
    · next hdue =>
      rw [if_neg hdue]
      exact h.waiting hafter

theorem Follows.text {lines : List RawLine} (h : Follows lines) {l : RawLine}
    (hblank : l.isBlank = false) (hl : l.isDamaged = false) : Follows (lines ++ [l]) := by
  have hplace : placeAfter (lines ++ [l]) = if (placeAfter lines).expectHeader then
      ⟨false, l.headerOf.isSome, l.headerOf⟩ else ⟨false, false, (placeAfter lines).directory⟩ := by
    rw [placeAfter_concat, Place.step, if_neg (by simp [hblank]), if_neg (by simp [hl])]
  by_cases hdue : (placeAfter lines).expectHeader = true
  · -- the line is read as a header
    rw [if_pos hdue] at hplace
    refine ⟨fun d _ hdir => ?_, fun d within hopen => ?_, fun hafter => ?_⟩
    · rw [hplace] at hdir
      exact ⟨[], opened_concat.2 (.inl ⟨rfl, hdue, hdir⟩)⟩
    · rcases opened_concat.1 hopen with ⟨rfl, -, hd⟩ | ⟨w, rfl, hw, -⟩
      · rw [hplace]
        simp [hd]
      · obtain ⟨hexpect, -⟩ := h.inside d w hw
        simp [hexpect] at hdue
    · rw [hplace] at hafter ⊢
      exact ⟨rfl, Option.isSome_iff_exists.1 hafter⟩
  · have hexpect : (placeAfter lines).expectHeader = false := by simpa using hdue
    rw [if_neg hdue] at hplace
    refine ⟨fun d _ hdir => ?_, fun d within hopen => ?_, fun hafter => ?_⟩
    · rw [hplace] at hdir
      obtain ⟨w, hw⟩ := h.opened d hexpect hdir
      exact ⟨w ++ [l], opened_concat.2 (.inr ⟨w, rfl, hw, fun hb => by simp [hblank] at hb⟩)⟩
    · rcases opened_concat.1 hopen with ⟨-, hdue', -⟩ | ⟨w, rfl, hw, -⟩
      · exact absurd hdue' hdue
      · rw [hplace]
        refine ⟨rfl, (h.inside d w hw).2.1, ?_⟩
        simp [hl]
    · rw [hplace] at hafter
      cases hafter

theorem follows (lines : List RawLine) : Follows lines := by
  induction lines using List.reverseRecOn with
  | nil =>
    refine ⟨fun d hexpect => absurd hexpect (by decide), fun d within hopen => ?_,
      fun hafter => absurd hafter (by decide)⟩
    obtain ⟨before, header, hnil, -⟩ := hopen
    simp at hnil
  | append_singleton lines l ih =>
    cases hblank : l.isBlank with
    | true => exact ih.blank hblank
    | false =>
      cases hdamaged : l.isDamaged with
      | true => exact ih.damaged hdamaged
      | false => exact ih.text hblank hdamaged

/-! ## The entries that are read -/

def Parser.place (p : Parser) : Place := ⟨p.expectHeader, p.afterHeader, p.directory⟩

theorem headerOf_text {l : RawLine} {text : List Char} (h : l.text? = some text) :
    l.headerOf = (Parser.headerName text).bind fun name =>
      if name = [] then none
      else some (if String.ofList name = "." then "" else String.ofList name) := by
  rw [RawLine.headerOf, h]
  rfl

/-- The parser goes where the lines lead, and what it yields. -/
theorem Parser.step_cases (p : Parser) (l : RawLine) :
    (l.isBlank = true ∧ (p.step l).place = p.place.step l ∧ (p.step l).entries = p.entries) ∨
    (l.isDamaged = true ∧ (p.step l).place = p.place.step l ∧ (p.step l).entries = p.entries) ∨
    ∃ text, l.text? = some text ∧ l.isBlank = false ∧ l.isDamaged = false ∧
      p.step l = if p.expectHeader then { p with lines := p.lines + 1 }.header l.number text
        else { p with lines := p.lines + 1, afterHeader := false }.entry l.number text := by
  obtain ⟨number, bytes, tooLong⟩ := l
  obtain ⟨lines, classes, issues, headers, directory, expectHeader, afterHeader, entries⟩ := p
  cases tooLong with
  | true =>
    refine .inr (.inl ⟨rfl, ?_, ?_⟩)
    · cases expectHeader <;> rfl
    · cases expectHeader <;> rfl
  | false =>
    cases bytes with
    | nil =>
      refine .inl ⟨rfl, ?_, ?_⟩
      · cases afterHeader <;> rfl
      · cases afterHeader <;> rfl
    | cons b bytes =>
      cases hdecode : decodeUtf8 (b :: bytes) with
      | none =>
        have hdamaged : RawLine.isDamaged ⟨number, b :: bytes, false⟩ = true := by
          simp [RawLine.isDamaged, hdecode]
        refine .inr (.inl ⟨hdamaged, ?_, ?_⟩)
        · rw [Place.step, if_neg (by simp [RawLine.isBlank]), if_pos hdamaged]
          cases expectHeader <;> simp [Parser.step, hdecode, Parser.lostHeader, Parser.counted,
            Parser.issue, Parser.place]
        · cases expectHeader <;> simp [Parser.step, hdecode, Parser.lostHeader, Parser.counted,
            Parser.issue]
      | some text =>
        refine .inr (.inr ⟨text, ?_, ?_, ?_, ?_⟩)
        · simp [RawLine.text?, RawLine.isBlank, RawLine.isDamaged, hdecode]
        · simp [RawLine.isBlank]
        · simp [RawLine.isDamaged, hdecode]
        · simp [Parser.step, hdecode]

theorem place_header (p : Parser) (number : ℕ) (text : List Char) :
    (p.header number text).place = ⟨false, ((Parser.headerName text).bind fun name =>
        if name = [] then none
        else some (if String.ofList name = "." then "" else String.ofList name)).isSome,
      (Parser.headerName text).bind fun name =>
        if name = [] then none
        else some (if String.ofList name = "." then "" else String.ofList name)⟩ ∧
    (p.header number text).entries = p.entries := by
  unfold Parser.header
  dsimp only
  split
  · next hname => simp [Parser.place, Parser.counted, Parser.issue, hname]
  · next hname => simp [Parser.place, Parser.counted, Parser.issue, hname]
  · next c cs hname =>
    dsimp only
    split
    · simp [Parser.place, Parser.counted, Parser.issue, hname]
    · simp [Parser.place, Parser.counted, hname]

/-- The file entry that a text has in a directory. -/
def FileEntry (text : List Char) (number : ℕ) (directory : String) (e : Entry) : Prop :=
  ∃ kind token name, entryGroups text = some (kind, token, name) ∧ kind ≠ 'd' ∧
    e.fields = ⟨number, String.ofList token, directory, String.ofList name⟩

theorem place_entry (p : Parser) (number : ℕ) (text : List Char) :
    (p.entry number text).place = p.place := by
  unfold Parser.entry
  repeat' split
  all_goals rfl

theorem fields_inj {e e' : Entry} (h : e.fields = e'.fields) : e = e' := by
  obtain ⟨line, token, directory, name, hsized, hnamed⟩ := e
  obtain ⟨line', token', directory', name', hsized', hnamed'⟩ := e'
  simp only [Entry.fields, EntryFields.mk.injEq] at h
  obtain ⟨rfl, rfl, rfl, rfl⟩ := h
  rfl

theorem mem_entries_entry {p : Parser} {number : ℕ} {text : List Char} {e : Entry} :
    e ∈ (p.entry number text).entries ↔
      e ∈ p.entries ∨ ∃ d, p.directory = some d ∧ FileEntry text number d e := by
  unfold Parser.entry
  split
  · next hgroups =>
    refine ⟨.inl, fun h => h.resolve_right ?_⟩
    rintro ⟨d, -, kind, token, name, hsome, -⟩
    cases hgroups.symm.trans hsome
  · next kind token name hgroups =>
    -- an entry has the groups of the line
    have hfile : ∀ {d}, FileEntry text number d e → kind ≠ 'd' ∧
        e.fields = ⟨number, String.ofList token, d, String.ofList name⟩ := by
      rintro d ⟨kind', token', name', hsome, hkind, hfields⟩
      obtain ⟨rfl, rfl, rfl⟩ := by simpa using hgroups.symm.trans hsome
      exact ⟨hkind, hfields⟩
    split
    · next hname =>
      refine ⟨.inl, fun h => h.resolve_right ?_⟩
      rintro ⟨d, -, he⟩
      exact e.named ((congrArg EntryFields.name (hfile he).2).trans hname)
    · split
      · split
        · next hnone =>
          refine ⟨.inl, fun h => h.resolve_right ?_⟩
          rintro ⟨d, hd, -⟩
          cases hnone.symm.trans hd
        · next d hd =>
          split
          · next hkind =>
            refine ⟨.inl, fun h => h.resolve_right ?_⟩
            rintro ⟨d', -, he⟩
            exact (hfile he).1 hkind
          · next hkind =>
            dsimp only
            rw [List.mem_append, List.mem_singleton]
            refine or_congr_right ⟨?_, ?_⟩
            · rintro rfl
              exact ⟨d, hd, kind, token, name, hgroups, hkind, rfl⟩
            · rintro ⟨d', hd', he⟩
              obtain rfl := Option.some.inj (hd.symm.trans hd')
              exact fields_inj (hfile he).2
      · next hsize =>
        refine ⟨.inl, fun h => h.resolve_right ?_⟩
        rintro ⟨d, -, he⟩
        have htoken : e.sizeToken = String.ofList token := congrArg EntryFields.sizeToken (hfile he).2
        exact hsize (htoken ▸ e.sized)

/-- A file line has an entry in every directory, and no other line has one. -/
theorem isFile_iff {l : RawLine} {text : List Char} (h : l.text? = some text) (d : String) :
    l.isFile = true ↔ ∃ e, FileEntry text l.number d e := by
  rw [RawLine.isFile, h, Option.bind_some]
  constructor
  · intro hfile
    obtain ⟨⟨kind, token, name⟩, hgroups, hall⟩ := (Option.any_eq_true _ _).1 hfile
    simp only [Bool.and_eq_true, decide_eq_true_eq, ne_eq] at hall
    obtain ⟨⟨hkind, hname⟩, hsize⟩ := hall
    refine ⟨⟨l.number, String.ofList token, d, String.ofList name,
      by rwa [String.toList_ofList], fun hempty => hname ?_⟩, kind, token, name, hgroups, hkind, rfl⟩
    rw [← String.toList_ofList (l := name), hempty, String.toList_empty]
  · rintro ⟨e, kind, token, name, hgroups, hkind, hfields⟩
    have hname : e.name = String.ofList name := congrArg EntryFields.name hfields
    have htoken : e.sizeToken = String.ofList token := congrArg EntryFields.sizeToken hfields
    have hsized := e.sized
    have hne : name ≠ [] := by
      rintro rfl
      exact e.named (hname.trans rfl)
    rw [htoken, String.toList_ofList] at hsized
    rw [hgroups]
    simp [hkind, hne, hsized]

/-- **What is read**: the parser is where the lines have led it, and has an entry for each file
    line of an open section. -/
theorem parser_after (lines : List RawLine) :
    (lines.foldl Parser.step {}).place = placeAfter lines ∧
    ∀ e, e ∈ (lines.foldl Parser.step {}).entries ↔ ∃ before l rest text d,
      lines = before ++ l :: rest ∧ l.text? = some text ∧ headerDue before = false ∧
        (placeAfter before).directory = some d ∧ FileEntry text l.number d e := by
  induction lines using List.reverseRecOn with
  | nil => exact ⟨rfl, fun e => by simp⟩
  | append_singleton lines l ih =>
    obtain ⟨hplace, hentries⟩ := ih
    set p := lines.foldl Parser.step {} with hp
    have hfold : (lines ++ [l]).foldl Parser.step {} = p.step l := by
      rw [List.foldl_append]
      rfl
    have hexpect : p.expectHeader = headerDue lines := congrArg Place.expectHeader hplace
    have hdir : p.directory = (placeAfter lines).directory := congrArg Place.directory hplace
    -- the last line, or one before it
    have hsplit : ∀ e, (∃ before l' rest text d, lines ++ [l] = before ++ l' :: rest ∧
        l'.text? = some text ∧ headerDue before = false ∧
          (placeAfter before).directory = some d ∧ FileEntry text l'.number d e) ↔
        e ∈ p.entries ∨ ∃ text d, l.text? = some text ∧ headerDue lines = false ∧
          (placeAfter lines).directory = some d ∧ FileEntry text l.number d e := by
      intro e
      rw [hentries]
      constructor
      · rintro ⟨before, l', rest, text, d, hlines, hrest⟩
        rcases List.eq_nil_or_concat rest with rfl | ⟨rest, x, rfl⟩
        · obtain ⟨rfl, hx⟩ := List.append_inj' hlines rfl
          obtain rfl := (List.cons.inj hx).1
          exact .inr ⟨text, d, hrest⟩
        · rw [List.concat_eq_append, ← List.cons_append, ← List.append_assoc] at hlines
          exact .inl ⟨before, l', rest, text, d, (List.append_inj' hlines rfl).1, hrest⟩
      · rintro (⟨before, l', rest, text, d, hlines, hrest⟩ | ⟨text, d, hrest⟩)
        · exact ⟨before, l', rest ++ [l], text, d, by rw [hlines]; simp, hrest⟩
        · exact ⟨lines, l, [], text, d, rfl, hrest⟩
    rw [hfold, placeAfter_concat]
    simp only [hsplit]
    rcases p.step_cases l with ⟨hblank, hpl, hen⟩ | ⟨hdamaged, hpl, hen⟩ |
      ⟨text, htext, hblank, hdamaged, hstep⟩
    · refine ⟨hplace ▸ hpl, fun e => ?_⟩
      simp [hen, RawLine.text?, hblank]
    · refine ⟨hplace ▸ hpl, fun e => ?_⟩
      simp [hen, RawLine.text?, hdamaged]
    · have hgo : (placeAfter lines).step l = if headerDue lines then
          ⟨false, l.headerOf.isSome, l.headerOf⟩
          else ⟨false, false, (placeAfter lines).directory⟩ := by
        rw [Place.step, if_neg (by simp [hblank]), if_neg (by simp [hdamaged])]
        rfl
      cases hdue : headerDue lines with
      | true =>
        rw [hstep, hgo, if_pos (hexpect.trans hdue), if_pos hdue]
        obtain ⟨hpl, hen⟩ := place_header { p with lines := p.lines + 1 } l.number text
        refine ⟨?_, fun e => ?_⟩
        · rw [hpl, headerOf_text htext]
        · rw [hen]
          simp
      | false =>
        have hno : ¬ p.expectHeader = true := by simp [hexpect, hdue]
        rw [hstep, hgo, if_neg hno, if_neg (by simp [hdue])]
        refine ⟨?_, fun e => ?_⟩
        · rw [place_entry, Parser.place, ← hdir, hexpect.trans hdue]
        · rw [mem_entries_entry]
          simp [htext, hdir]

/-! ## The entries of a section -/

theorem pairwise_numbered (number : ℕ) (lines : List (List UInt8)) :
    (numbered number lines).Pairwise (fun a b => a.number < b.number) ∧
      ∀ l ∈ numbered number lines, number < l.number := by
  induction lines generalizing number with
  | nil => simp [numbered]
  | cons line lines ih =>
    obtain ⟨hpair, hlt⟩ := ih (number + 1)
    rw [numbered]
    refine ⟨List.pairwise_cons.2 ⟨fun l hl => ?_, hpair⟩, fun l hl => ?_⟩
    · exact hlt l hl
    · rcases List.mem_cons.1 hl with rfl | hl
      · exact Nat.lt_succ_self _
      · exact (Nat.lt_succ_self _).trans (hlt l hl)

/-- A line stands in one place. -/
theorem split_unique {lines before before' rest rest' : List RawLine} {l l' : RawLine}
    (hn : (lines.map RawLine.number).Nodup) (h : lines = before ++ l :: rest)
    (h' : lines = before' ++ l' :: rest') (hl : l.number = l'.number) : before = before' := by
  subst h
  induction before generalizing before' with
  | nil =>
    cases before' with
    | nil => rfl
    | cons x before' =>
      obtain ⟨rfl, hrest⟩ := List.cons.inj h'
      rw [List.nil_append, List.map_cons, List.nodup_cons] at hn
      exact absurd (List.mem_map.2 ⟨l', by simp [hrest], hl.symm⟩) hn.1
  | cons x before ih =>
    rw [List.cons_append, List.map_cons, List.nodup_cons] at hn
    cases before' with
    | nil =>
      obtain ⟨rfl, hrest⟩ := List.cons.inj h'
      exact absurd (List.mem_map.2 ⟨l, by simp, hl⟩) hn.1
    | cons x' before' =>
      obtain ⟨rfl, hrest⟩ := List.cons.inj h'
      rw [ih hn.2 hrest]

/-- Between a header and another line, no blank line but the first can come. -/
theorem unbroken_of_separator {lines : List RawLine}
    (h : ∀ l₁ l l₂, lines = l₁ ++ l :: l₂ → l.isBlank = true → l₁ = []) : Unbroken lines := by
  intro l₁ l l₂ hsplit hblank x hx
  rw [h l₁ l l₂ hsplit hblank] at hx
  cases hx

/-- Two headers with open sections before one line are one. -/
theorem opened_unique {before before' within within' : List RawLine} {header header' : RawLine}
    (h : before ++ header :: within = before' ++ header' :: within')
    (hdue : headerDue before = true) (hdue' : headerDue before' = true)
    (hheader : header.headerOf.isSome) (hheader' : header'.headerOf.isSome)
    (hopen : Unbroken within) (hopen' : Unbroken within') : before = before' := by
  -- after an open header none is due before the section is broken
  have hnone : ∀ {b w : List RawLine} {x : RawLine}, headerDue b = true → x.headerOf.isSome →
      Unbroken w → headerDue (b ++ x :: w) = false := by
    intro b w x hb hx hw
    obtain ⟨d, hd⟩ := Option.isSome_iff_exists.1 hx
    exact ((follows _).inside d w ⟨b, x, rfl, hb, hd, hw⟩).1
  rcases List.append_eq_append_iff.1 h with ⟨more, hb, hw⟩ | ⟨more, hb, hw⟩
  · cases more with
    | nil => simpa using hb.symm
    | cons x more =>
      obtain ⟨rfl, hwithin⟩ := List.cons.inj hw
      rw [hwithin] at hopen
      have := hnone hdue hheader hopen.of_append
      rw [← hb, hdue'] at this
      cases this
  · cases more with
    | nil => simpa using hb
    | cons x more =>
      obtain ⟨rfl, hwithin⟩ := List.cons.inj hw
      rw [hwithin] at hopen'
      have := hnone hdue' hheader' hopen'.of_append
      rw [← hb, hdue] at this
      cases this

/-- **When entries stay in their section**: every entry lies in a section that a header opens and
    no break ends, exactly if no section runs on after its end. -/
theorem entries_inSection_iff (raw : List UInt8) :
    (∀ e ∈ (parse raw).entries, InSection (readLines raw) e) ↔ ¬ RunsOn (readLines raw) := by
  have hn : ((readLines raw).map RawLine.number).Nodup := by
    rw [readLines_eq]
    exact List.pairwise_map.2 ((pairwise_numbered 0 _).1.imp fun h => h.ne)
  obtain ⟨-, hentries⟩ := parser_after (readLines raw)
  constructor
  · rintro hall ⟨before, header, damaged, blank, more, file, rest, hlines, hdue, hheader, hne, hdamaged,
      hblank, hmore, hfile⟩
    obtain ⟨d, hd⟩ := Option.isSome_iff_exists.1 hheader
    -- the section is still open for the parser
    have hopen : Unbroken (damaged ++ blank :: more) := by
      intro l₁ l l₂ hsplit hl x hx
      rcases List.append_eq_append_iff.1 hsplit with ⟨between, rfl, hrest⟩ | ⟨between, rfl, -⟩
      · cases between with
        | nil => exact hdamaged x (by simpa using hx)
        | cons y between =>
          obtain ⟨-, rfl⟩ := List.cons.inj hrest
          simp [hmore l (by simp)] at hl
      · exact hdamaged x (List.mem_append_left _ hx)
    obtain ⟨hin, hdir, -⟩ := (follows _).inside d _ ⟨before, header, rfl, hdue, hd, hopen⟩
    obtain ⟨text, htext⟩ : ∃ text, file.text? = some text := by
      cases htext : file.text? with
      | none => simp [RawLine.isFile, htext] at hfile
      | some text => exact ⟨text, rfl⟩
    obtain ⟨e, he⟩ := (isFile_iff htext d).1 hfile
    have hplace : readLines raw = (before ++ header :: (damaged ++ blank :: more)) ++ file :: rest :=
      by simpa using hlines
    have hmem := (hentries e).2 ⟨_, file, rest, text, d, hplace, htext, hin, hdir, he⟩
    obtain ⟨first, header', between, line, rest', hlines', hline, hdue', hheader', hsep⟩ := hall e hmem
    obtain ⟨kind, token, name, -, -, hfields⟩ := he
    have hsame : before ++ header :: (damaged ++ blank :: more) = first ++ header' :: between := by
      refine split_unique hn hplace (by simpa using hlines') ?_
      rw [hline]
      exact (congrArg EntryFields.line hfields).symm
    -- so it is the section of the entry, and the blank line ends it
    obtain rfl := opened_unique hsame hdue hdue' hheader (by simp [hheader']) hopen
      (unbroken_of_separator hsep)
    obtain ⟨-, rfl⟩ := List.cons.inj (List.append_cancel_left hsame)
    exact hne (hsep damaged blank more rfl hblank)
  · intro hno e he
    obtain ⟨before, l, rest, text, d, hlines, htext, hdue, hdir, hfile⟩ := (hentries e).1 he
    obtain ⟨within, first, header, rfl, hfirst, hheader, hopen⟩ := (follows before).opened d hdue hdir
    obtain ⟨kind, token, name, -, -, hfields⟩ := id hfile
    refine ⟨first, header, within, l, rest, by simpa using hlines,
      (congrArg EntryFields.line hfields).symm, hfirst, ?_, fun b₁ b b₂ hsplit hblank => ?_⟩
    · rw [hheader]
      exact congrArg some (congrArg EntryFields.directory hfields).symm
    · by_contra hne
      refine hno ⟨first, header, b₁, b, b₂, l, rest, by simpa [hsplit] using hlines, hfirst,
        by simp [hheader], hne, hopen b₁ b b₂ hsplit hblank, hblank, fun x hx => ?_,
        (isFile_iff htext d).2 ⟨e, hfile⟩⟩
      -- a second blank line would find an undamaged one before it
      by_contra hx'
      obtain ⟨c₁, c₂, rfl⟩ := List.append_of_mem hx
      have hb := hopen (b₁ ++ b :: c₁) x c₂ (by simp [hsplit]) (by simpa using hx') b (by simp)
      simp [isDamaged_isBlank hb] at hblank

/-! ## The whole parser -/

/-- `LINE_CLASSES`, in the order of the report. -/
def lineClasses : List LineClass := [.blank, .header, .directory, .file, .unparsed, .decodeError]

theorem sum_lineClasses (classes : List LineClass) :
    (lineClasses.map fun c => classes.count c).sum = classes.length := by
  induction classes with
  | nil => rfl
  | cons c classes ih =>
    simp only [lineClasses, List.map_cons, List.map_nil, List.sum_cons, List.sum_nil,
      List.count_cons, List.length_cons] at ih ⊢
    cases c <;> simp <;> omega

theorem lines_step (p : Parser) (l : RawLine) : (p.step l).lines = p.lines + 1 := by
  have hheader : ∀ (p : Parser) (number : ℕ) (text : List Char),
      (p.header number text).lines = p.lines := by
    intro p number text
    unfold Parser.header
    dsimp only
    split
    · rfl
    · rfl
    · dsimp only
      split <;> rfl
  have hentry : ∀ (p : Parser) (number : ℕ) (text : List Char),
      (p.entry number text).lines = p.lines := by
    intro p number text
    unfold Parser.entry
    repeat' split
    all_goals rfl
  unfold Parser.step
  dsimp only
  split
  · simp only [Parser.lostHeader]
    split <;> rfl
  · split
    · split <;> rfl
    · split
      · simp only [Parser.lostHeader]
        split <;> rfl
      · split
        · exact hheader _ _ _
        · exact hentry _ _ _

/-- Each line has one class. -/
theorem classes_parse (raw : List UInt8) : (parse raw).lines = (splitLines raw).length ∧
    (parse raw).classes.length = (parse raw).lines := by
  have hfold : ∀ (lines : List RawLine) (p : Parser),
      (lines.foldl Parser.step p).lines = p.lines + lines.length ∧
        (lines.foldl Parser.step p).classes.length = p.classes.length + lines.length := by
    intro lines
    induction lines with
    | nil => exact fun p => ⟨rfl, rfl⟩
    | cons l lines ih =>
      intro p
      obtain ⟨hlines, hclasses⟩ := ih (p.step l)
      have hone : (p.step l).classes.length = p.classes.length + 1 := by
        rcases p.entries_step l with ⟨-, c, hc, -⟩ | ⟨e, -, -, hc⟩ <;> simp [hc]
      rw [List.foldl_cons, hlines, hclasses, lines_step, hone, List.length_cons]
      omega
  have hlength : ∀ (lines : List (List UInt8)) (number : ℕ),
      (numbered number lines).length = lines.length := by
    intro lines
    induction lines with
    | nil => exact fun _ => rfl
    | cons line lines ih => exact fun number => congrArg Nat.succ (ih _)
  obtain ⟨hlines, hclasses⟩ := hfold (readLines raw) {}
  rw [parse, hlines, hclasses, readLines_eq, hlength]
  simp

/-- **The parser and its grammar**: a rendered listing is read back exactly; each line of any
    bytes has one class; and the entries lie in their sections exactly if no section runs on
    after its end. -/
theorem parse_listing (listing : Listing) (raw : List UInt8) :
    ((parse (render listing.sections)).entries.map Entry.fields =
        listingFields 1 listing.sections ∧
      ∀ issue ∈ (parse (render listing.sections)).issues, issue.2 ∉ structuralCodes) ∧
    (parse raw).lines = (splitLines raw).length ∧
      (lineClasses.map fun c => (parse raw).classes.count c).sum = (parse raw).lines ∧
      ((∀ e ∈ (parse raw).entries, InSection (readLines raw) e) ↔ ¬ RunsOn (readLines raw)) := by
  obtain ⟨hlines, hclasses⟩ := classes_parse raw
  exact ⟨parse_render listing, hlines, (sum_lineClasses _).trans hclasses,
    entries_inSection_iff raw⟩

/-- The root with a directory and a file, and the directory with a file. -/
def nestedListing : Listing where
  sections :=
    [{ dotted := false
       name := ['.']
       entries :=
        [⟨true, "4.0K".toList, "old notes".toList, by decide, by decide, by decide⟩,
         ⟨false, "12".toList, "read me first:".toList, by decide, by decide, by decide⟩]
       named := by decide
       oneLine := by decide
       plain := fun _ => by decide },
     { dotted := true
       name := "old notes".toList
       entries := [⟨false, "1.5M".toList, "part 1: draft".toList, by decide, by decide, by decide⟩]
       named := by decide
       oneLine := by decide
       plain := nofun }]
  fits := by decide

example : listingFields 1 nestedListing.sections =
    [⟨4, "12", "", "read me first:"⟩, ⟨8, "1.5M", "old notes", "part 1: draft"⟩] := by decide

/-- A damaged line, a blank one and a file after the header of the root. -/
def damagedSeparator : List UInt8 := utf8 ".:\n- 5 ".toList ++ [0xff] ++ utf8 "\n\n- 1 a\n".toList

/-- The blank line ends the section, but the file is read in it. -/
theorem section_runs_on :
    ¬ ∀ raw, ∀ e ∈ (parse raw).entries, InSection (readLines raw) e := by
  intro h
  refine (entries_inSection_iff damagedSeparator).1 (h _) ?_
  rw [readLines_eq]
  exact ⟨[], ⟨1, utf8 ".:".toList, false⟩, [⟨2, utf8 "- 5 ".toList ++ [0xff], false⟩],
    ⟨3, [], false⟩, [], ⟨4, utf8 "- 1 a".toList, false⟩, [], rfl, rfl, rfl, List.cons_ne_nil _ _,
    by simp; decide, rfl, by simp, by decide⟩

end TodDl.Inventory
