/-
  Text wrapping in the monitor (monitor.py, `wrap_cells`).

  The words of a text are put on lines of a number of display columns; a word that is
  too wide for a line is cut.  A pass over a wide word may cut nothing off: then the line
  it was on is closed, and the next pass starts an empty one.

  * `splitWord_isSome`: the passes over a word end;
  * `wrapCells_fits`: every line fits, and no character is lost.
-/
import Mathlib.Algebra.BigOperators.Group.List.Basic
import Mathlib.Algebra.GroupWithZero.Nat
import Mathlib.Data.List.Basic

namespace TodDl.Monitor

/-- Display widths, as `rich.cells.cell_len` gives them. -/
structure CellWidths where
  width : Char → ℕ
  width_le : ∀ c, width c ≤ 2
  width_space : width ' ' = 1

namespace CellWidths
variable (cells : CellWidths)

/-- `cell_len(text)` -/
def cellLen (text : List Char) : ℕ := (text.map cells.width).sum

/-- The loop over the characters of a word: `head`, as far as it fits into the room. -/
def headOf (room : ℕ) (head : List Char) : List Char → List Char
  | [] => head
  | c :: word =>
    if cells.cellLen (head ++ [c]) > room then head else headOf room (head ++ [c]) word

end CellWidths

/-- `lines` and `current` of `wrap_cells`. -/
structure Wrapping where
  lines : List (List Char) := []
  current : List Char := []

section
variable (cells : CellWidths) (width : ℕ)

/-- One pass of the loop over a word that is too wide: what is left of the word. -/
def splitPass (s : Wrapping) (word : List Char) : Wrapping × List Char :=
  -- the room is not negative but 0 when nothing fits
  let room := width - if s.current = [] then 0 else cells.cellLen s.current + 1
  let (s, room) := if room = 0 then (⟨s.lines ++ [s.current], []⟩, width) else (s, room)
  let head := cells.headOf room [] word
  let line := if s.current = [] then head else s.current ++ ' ' :: head
  (⟨s.lines ++ [line], []⟩, word.drop head.length)

/-- `while cell_len(word) > width`; none when the loop does not end in time. -/
def splitWord : ℕ → Wrapping → List Char → Option (Wrapping × List Char)
  | 0, _, _ => none
  | fuel + 1, s, word =>
    if cells.cellLen word > width then
      splitWord fuel (splitPass cells width s word).1 (splitPass cells width s word).2
    else some (s, word)

/-- The loop over the words, at one of them: a pass cuts off a character or closes a line. -/
def wrapWord (s : Wrapping) (word : List Char) : Option Wrapping :=
  (splitWord cells width (2 * word.length + 2) s word).map fun (s, word) =>
    if s.current = [] then ⟨s.lines, word⟩
    else if cells.cellLen s.current + 1 + cells.cellLen word ≤ width then
      ⟨s.lines, s.current ++ ' ' :: word⟩
    else ⟨s.lines ++ [s.current], word⟩

/-- `wrap_cells(value, width)` -/
def wrapCells (value : List Char) : Option (List (List Char)) :=
  ((value.splitOn ' ').foldlM (wrapWord cells width) {}).map fun s => s.lines ++ [s.current]

end

/-! ## Widths -/

section
variable {cells : CellWidths} {width room : ℕ} {s s' : Wrapping} {word rest head : List Char}

@[simp] theorem CellWidths.cellLen_nil : cells.cellLen [] = 0 := rfl

@[simp] theorem CellWidths.cellLen_append (a b : List Char) :
    cells.cellLen (a ++ b) = cells.cellLen a + cells.cellLen b := by
  simp [CellWidths.cellLen]

@[simp] theorem CellWidths.cellLen_cons (c : Char) (a : List Char) :
    cells.cellLen (c :: a) = cells.width c + cells.cellLen a := by
  simp [CellWidths.cellLen]

/-- What is cut off is the head of the word, and it fits. -/
theorem CellWidths.headOf_spec (cells : CellWidths) (word : List Char)
    (hhead : cells.cellLen head ≤ room) :
    ∃ taken rest, word = taken ++ rest ∧ cells.headOf room head word = head ++ taken ∧
      cells.cellLen (head ++ taken) ≤ room := by
  induction word generalizing head with
  | nil => exact ⟨[], [], rfl, (List.append_nil _).symm, by simpa using hhead⟩
  | cons c word ih =>
    rw [CellWidths.headOf]
    split
    · exact ⟨[], c :: word, rfl, (List.append_nil _).symm, by simpa using hhead⟩
    · next hfits =>
      obtain ⟨taken, rest, rfl, htaken, hlen⟩ := ih (Nat.le_of_not_lt hfits)
      rw [List.append_assoc] at htaken hlen
      exact ⟨c :: taken, rest, rfl, htaken, hlen⟩

theorem CellWidths.headOf_nil (cells : CellWidths) (room : ℕ) (word : List Char) :
    ∃ head rest, word = head ++ rest ∧ cells.headOf room [] word = head ∧
      cells.cellLen head ≤ room :=
  cells.headOf_spec word (Nat.zero_le room)

/-- With two columns there is room for a character. -/
theorem CellWidths.headOf_ne_nil (cells : CellWidths) (hroom : 2 ≤ room) (hword : word ≠ []) :
    cells.headOf room [] word ≠ [] := by
  obtain ⟨c, word, rfl⟩ := List.exists_cons_of_ne_nil hword
  have hfits : cells.cellLen ([] ++ [c]) ≤ room := by
    have := cells.width_le c
    simp only [List.nil_append, CellWidths.cellLen_cons, CellWidths.cellLen_nil]
    omega
  rw [CellWidths.headOf, if_neg (Nat.not_lt.2 hfits)]
  obtain ⟨taken, rest, -, hhead, -⟩ := cells.headOf_spec word hfits
  rw [hhead]
  simp

/-! ## Passes -/

/-- The characters of a text other than spaces. -/
def letters (text : List Char) : List Char := text.filter (· ≠ ' ')

@[simp] theorem letters_append (a b : List Char) : letters (a ++ b) = letters a ++ letters b :=
  List.filter_append a b

@[simp] theorem letters_space (a : List Char) : letters (' ' :: a) = letters a := rfl

/-- Every line fits, the open one too. -/
structure Wrapping.Fits (cells : CellWidths) (width : ℕ) (s : Wrapping) : Prop where
  lines : ∀ line ∈ s.lines, cells.cellLen line ≤ width
  current : cells.cellLen s.current ≤ width

/-- What is on the lines so far. -/
def Wrapping.text (s : Wrapping) : List Char := s.lines.flatten ++ s.current

/-- The passes over a word that are left: two for a character, and one to close a line. -/
def Wrapping.passes (s : Wrapping) (word : List Char) : ℕ :=
  2 * word.length + if s.current = [] then 0 else 1

theorem Wrapping.Fits.close (h : s.Fits cells width) {line : List Char}
    (hline : cells.cellLen line ≤ width) : Wrapping.Fits cells width ⟨s.lines ++ [line], []⟩ := by
  refine ⟨fun l hl => ?_, Nat.zero_le _⟩
  rcases List.mem_append.1 hl with hl | hl
  · exact h.lines l hl
  · rw [List.mem_singleton.1 hl]
    exact hline

/-- An empty line takes something of a word. -/
theorem CellWidths.headOf_width (cells : CellWidths) (hwidth : 2 ≤ width) (hword : word ≠ []) :
    ∃ head rest, word = head ++ rest ∧ head ≠ [] ∧ cells.headOf width [] word = head ∧
      cells.cellLen head ≤ width := by
  obtain ⟨head, rest, rfl, hhead, hlen⟩ := cells.headOf_nil width word
  refine ⟨head, rest, rfl, ?_, hhead, hlen⟩
  rw [← hhead]
  exact cells.headOf_ne_nil hwidth hword

/-- **One pass**: the lines fit, no letter is lost, and there are fewer passes left. -/
theorem splitPass_spec (hwidth : 2 ≤ width) (hs : s.Fits cells width)
    (hwide : width < cells.cellLen word) :
    (splitPass cells width s word).1.Fits cells width ∧
      letters ((splitPass cells width s word).1.text ++ (splitPass cells width s word).2) =
        letters (s.text ++ word) ∧
      (splitPass cells width s word).1.passes (splitPass cells width s word).2 <
        s.passes word := by
  have hword : word ≠ [] := by
    rintro rfl
    simp at hwide
  have hpos : width ≠ 0 := by omega
  unfold splitPass Wrapping.passes Wrapping.text
  by_cases hopen : s.current = []
  · -- the line is empty
    obtain ⟨head, rest, rfl, hne, hhead, hlen⟩ := cells.headOf_width hwidth hword
    have hcut := List.length_pos_iff.2 hne
    simp only [hopen, if_true, Nat.sub_zero, if_neg hpos, hhead, List.drop_left]
    refine ⟨hs.close hlen, by simp, ?_⟩
    rw [List.length_append]
    omega
  · simp only [if_neg hopen]
    by_cases hfull : width - (cells.cellLen s.current + 1) = 0
    · -- the line is full: it is closed, and the word starts the next one
      obtain ⟨head, rest, rfl, hne, hhead, hlen⟩ := cells.headOf_width hwidth hword
      have hcut := List.length_pos_iff.2 hne
      simp only [hfull, if_true, hhead, List.drop_left]
      refine ⟨(hs.close hs.current).close hlen, by simp, ?_⟩
      rw [List.length_append]
      omega
    · -- the line takes what fits, perhaps nothing, and is closed
      obtain ⟨head, rest, rfl, hhead, hlen⟩ := cells.headOf_nil
        (width - (cells.cellLen s.current + 1)) word
      simp only [if_neg hfull, if_neg hopen, hhead, List.drop_left]
      refine ⟨hs.close ?_, by simp, ?_⟩
      · simp only [CellWidths.cellLen_append, CellWidths.cellLen_cons, cells.width_space]
        omega
      · rw [List.length_append, if_true]
        omega

/-! ## Words and texts -/

/-- **The passes over a word end**, with a rest that fits. -/
theorem splitWord_spec (hwidth : 2 ≤ width) (hs : s.Fits cells width) {fuel : ℕ}
    (hfuel : s.passes word < fuel) :
    ∃ s' rest, splitWord cells width fuel s word = some (s', rest) ∧ s'.Fits cells width ∧
      cells.cellLen rest ≤ width ∧ letters (s'.text ++ rest) = letters (s.text ++ word) := by
  induction fuel generalizing s word with
  | zero => omega
  | succ fuel ih =>
    rw [splitWord]
    by_cases hwide : width < cells.cellLen word
    · obtain ⟨hfits, hletters, hpasses⟩ := splitPass_spec hwidth hs hwide
      obtain ⟨s', rest, hsplit, hs', hrest, hletters'⟩ := ih hfits (Nat.lt_of_lt_of_le hpasses
        (Nat.le_of_lt_succ hfuel))
      rw [if_pos hwide]
      exact ⟨s', rest, hsplit, hs', hrest, hletters'.trans hletters⟩
    · rw [if_neg hwide]
      exact ⟨s, word, rfl, hs, Nat.le_of_not_lt hwide, rfl⟩

theorem wrapWord_spec (hwidth : 2 ≤ width) (hs : s.Fits cells width) (word : List Char) :
    ∃ s', wrapWord cells width s word = some s' ∧ s'.Fits cells width ∧
      letters s'.text = letters (s.text ++ word) := by
  have hfuel : s.passes word < 2 * word.length + 2 := by
    unfold Wrapping.passes
    split <;> omega
  obtain ⟨s₁, rest, hsplit, hs₁, hrest, hletters⟩ := splitWord_spec hwidth hs hfuel
  refine ⟨_, by rw [wrapWord, hsplit, Option.map_some], ?_⟩
  dsimp only
  rw [← hletters]
  split
  · next hopen => exact ⟨⟨hs₁.lines, hrest⟩, by simp [Wrapping.text, hopen]⟩
  · split
    · next hfits =>
      refine ⟨⟨hs₁.lines, ?_⟩, by simp [Wrapping.text]⟩
      simp only [CellWidths.cellLen_append, CellWidths.cellLen_cons, cells.width_space]
      omega
    · have hclosed := hs₁.close hs₁.current
      exact ⟨⟨hclosed.lines, hrest⟩, by simp [Wrapping.text]⟩

theorem foldlM_wrapWord (hwidth : 2 ≤ width) (hs : s.Fits cells width) (words : List (List Char)) :
    ∃ s', words.foldlM (wrapWord cells width) s = some s' ∧ s'.Fits cells width ∧
      letters s'.text = letters (s.text ++ words.flatten) := by
  induction words generalizing s with
  | nil => exact ⟨s, rfl, hs, by simp⟩
  | cons word words ih =>
    obtain ⟨s₁, hword, hs₁, hletters₁⟩ := wrapWord_spec hwidth hs word
    obtain ⟨s', hwords, hs', hletters'⟩ := ih hs₁
    refine ⟨s', ?_, hs', ?_⟩
    · rw [List.foldlM_cons, hword]
      exact hwords
    · rw [hletters', letters_append, hletters₁, List.flatten_cons, ← letters_append,
        List.append_assoc]

/-- The words of a text have its letters. -/
theorem letters_splitOn (value : List Char) :
    letters (value.splitOn ' ').flatten = letters value := by
  induction value with
  | nil => rfl
  | cons c value ih =>
    rw [List.splitOn_cons_eq_if_modifyHead]
    obtain ⟨word, words, hwords⟩ := List.exists_cons_of_ne_nil (List.splitOn_ne_nil ' ' value)
    rw [hwords] at ih ⊢
    split
    · next hspace =>
      obtain rfl := beq_iff_eq.1 hspace
      exact ih
    · rw [List.modifyHead_cons, List.flatten_cons, List.cons_append, letters, letters,
        List.filter_cons, List.filter_cons]
      exact congrArg (fun l => if decide (c ≠ ' ') = true then c :: l else l) ih

/-- **Wrapping ends**, every line fits, and the letters are those of the text. -/
theorem wrapCells_fits (cells : CellWidths) (value : List Char) (width : ℕ) (hwidth : 2 ≤ width) :
    ∃ lines, wrapCells cells width value = some lines ∧
      (∀ line ∈ lines, cells.cellLen line ≤ width) ∧
        lines.flatten.filter (· ≠ ' ') = value.filter (· ≠ ' ') := by
  have hempty : Wrapping.Fits cells width {} := ⟨by simp, Nat.zero_le _⟩
  obtain ⟨s, hfold, hs, hletters⟩ := foldlM_wrapWord hwidth hempty (value.splitOn ' ')
  refine ⟨s.lines ++ [s.current], by rw [wrapCells, hfold, Option.map_some], ?_, ?_⟩
  · exact (hs.close hs.current).lines
  · have htext : (s.lines ++ [s.current]).flatten = s.text := by simp [Wrapping.text]
    rw [htext]
    exact hletters.trans (letters_splitOn value)

end

/-- Widths of ASCII and of the wide characters beyond. -/
def asciiOrWide : CellWidths where
  width c := if c.toNat < 128 then 1 else 2
  width_le c := by
    split <;> decide
  width_space := rfl

/-- A wide character with one column left. -/
theorem wrapCells_fits_wide : ∃ lines, wrapCells asciiOrWide 3 "ab 日本語".toList = some lines ∧
    (∀ line ∈ lines, asciiOrWide.cellLen line ≤ 3) ∧
      lines.flatten.filter (· ≠ ' ') = "ab 日本語".toList.filter (· ≠ ' ') :=
  wrapCells_fits asciiOrWide "ab 日本語".toList 3 (by decide)

end TodDl.Monitor
