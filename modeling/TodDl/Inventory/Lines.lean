/-
  Bounded reading of lines (inventory.py, `read_lines`).

  A line is read in one chunk when it and its newline fit, and otherwise cut after the
  limit; what is over is read and dropped, chunk by chunk.

  * `readline_newline`, `readline_full`: what one call to `readline` takes;
  * `skipLine_newline`: the rest of a line is gone, however many chunks it has;
  * `readLines_eq`, `readLines_split`: the lines are those of the bytes split at newlines.
-/
import TodDl.Inventory.Listing

namespace TodDl.Inventory

/-! ## Splitting at newlines -/

/-- The bytes cut at the newlines; a tail without a newline is a line, an empty one is not. -/
def splitLines : List UInt8 → List (List UInt8)
  | [] => []
  | b :: bytes =>
    if b = 10 then [] :: splitLines bytes
    else match splitLines bytes with
      | [] => [[b]]
      | line :: lines => if bytes.head? = some 10 then [b] :: lines else (b :: line) :: lines

section
variable {line rest : List UInt8}

theorem splitLines_newline (h : 10 ∉ line) :
    splitLines (line ++ 10 :: rest) = line :: splitLines rest := by
  induction line with
  | nil => simp [splitLines]
  | cons b line ih =>
    have hb : b ≠ 10 := fun e => h (e ▸ List.mem_cons_self)
    have hline : 10 ∉ line := fun m => h (List.mem_cons_of_mem _ m)
    rw [List.cons_append, splitLines, if_neg hb, ih hline]
    cases line with
    | nil => rfl
    | cons c line =>
      have hc : c ≠ 10 := fun e => hline (e ▸ List.mem_cons_self)
      simp [hc]

theorem splitLines_last (h : 10 ∉ line) (hne : line ≠ []) : splitLines line = [line] := by
  induction line with
  | nil => exact absurd rfl hne
  | cons b line ih =>
    have hb : b ≠ 10 := fun e => h (e ▸ List.mem_cons_self)
    have hline : 10 ∉ line := fun m => h (List.mem_cons_of_mem _ m)
    rw [splitLines, if_neg hb]
    cases line with
    | nil => rfl
    | cons c line =>
      have hc : c ≠ 10 := fun e => hline (e ▸ List.mem_cons_self)
      rw [ih hline (List.cons_ne_nil c line)]
      simp [hc]

/-- Every text begins with a line and its newline, or is a line without one. -/
theorem line_cases (bytes : List UInt8) :
    (∃ line rest, 10 ∉ line ∧ bytes = line ++ 10 :: rest) ∨ 10 ∉ bytes := by
  by_cases h : 10 ∈ bytes
  · obtain ⟨line, rest, hbytes, hline⟩ := List.eq_append_cons_of_mem h
    exact .inl ⟨line, rest, hline, hbytes⟩
  · exact .inr h

/-! ## Chunks -/

/-- The line and its newline fit. -/
theorem readline_newline {limit : ℕ} (h : 10 ∉ line) (hlimit : line.length < limit) :
    readline limit (line ++ 10 :: rest) = (line ++ [10], rest) := by
  induction line generalizing limit with
  | nil =>
    obtain ⟨limit, rfl⟩ := Nat.exists_eq_succ_of_ne_zero (by simpa using hlimit.ne')
    rfl
  | cons b line ih =>
    have hb : b ≠ 10 := fun e => h (e ▸ List.mem_cons_self)
    have hline : 10 ∉ line := fun m => h (List.mem_cons_of_mem _ m)
    obtain ⟨limit, rfl⟩ := Nat.exists_eq_succ_of_ne_zero (by omega : limit ≠ 0)
    rw [List.cons_append, readline, if_neg hb, ih hline (by simpa using hlimit)]
    rfl

/-- The limit is reached before the newline. -/
theorem readline_full (rest : List UInt8) {limit : ℕ} (h : 10 ∉ line) (hlimit : limit ≤ line.length) :
    readline limit (line ++ rest) = (line.take limit, line.drop limit ++ rest) := by
  induction line generalizing limit with
  | nil =>
    obtain rfl : limit = 0 := by simpa using hlimit
    rfl
  | cons b line ih =>
    have hb : b ≠ 10 := fun e => h (e ▸ List.mem_cons_self)
    have hline : 10 ∉ line := fun m => h (List.mem_cons_of_mem _ m)
    cases limit with
    | zero => rfl
    | succ limit =>
      rw [List.cons_append, readline, if_neg hb, ih hline (by simpa using hlimit)]
      rfl

/-- The text ends before the limit, without a newline. -/
theorem readline_last {limit : ℕ} (h : 10 ∉ line) (hlimit : line.length ≤ limit) :
    readline limit line = (line, []) := by
  induction line generalizing limit with
  | nil => cases limit <;> rfl
  | cons b line ih =>
    have hb : b ≠ 10 := fun e => h (e ▸ List.mem_cons_self)
    have hline : 10 ∉ line := fun m => h (List.mem_cons_of_mem _ m)
    cases limit with
    | zero => simp at hlimit
    | succ limit => rw [readline, if_neg hb, ih hline (by simpa using hlimit)]

theorem getLast?_ne_newline (h : 10 ∉ line) : line.getLast? ≠ some 10 :=
  fun hlast => h (List.mem_of_getLast? hlast)

/-- What is over of a long line is dropped with its newline. -/
theorem skipLine_newline {fuel : ℕ} (h : 10 ∉ line) (hfuel : line.length < fuel) :
    skipLine fuel (line ++ 10 :: rest) = rest := by
  induction fuel generalizing line with
  | zero => omega
  | succ fuel ih =>
    rw [skipLine]
    dsimp only
    by_cases hlimit : line.length < maxLineBytes
    · rw [readline_newline h hlimit, if_pos (.inr (by simp))]
    · have hle : maxLineBytes ≤ line.length := not_lt.1 hlimit
      have hpos : 0 < maxLineBytes := by decide
      have htake : 10 ∉ line.take maxLineBytes := fun m => h (List.mem_of_mem_take m)
      rw [readline_full _ h hle, if_neg]
      · refine ih (fun m => h (List.mem_of_mem_drop m)) ?_
        rw [List.length_drop]
        omega
      · rintro (hnil | hlast)
        · have := congrArg List.length hnil
          rw [List.length_take, List.length_nil] at this
          omega
        · exact getLast?_ne_newline htake hlast

theorem skipLine_last {fuel : ℕ} (h : 10 ∉ line) (hfuel : line.length < fuel) :
    skipLine fuel line = [] := by
  induction fuel generalizing line with
  | zero => omega
  | succ fuel ih =>
    rw [skipLine]
    dsimp only
    by_cases hlimit : line.length ≤ maxLineBytes
    · rw [readline_last h hlimit]
      split
      · rfl
      · next hmore =>
        refine ih List.not_mem_nil ?_
        have : line ≠ [] := fun hnil => hmore (.inl hnil)
        have := List.length_pos_iff.2 this
        rw [List.length_nil]
        omega
    · have hle : maxLineBytes ≤ line.length := (not_le.1 hlimit).le
      have hpos : 0 < maxLineBytes := by decide
      have hfull := readline_full [] h hle
      have htake : 10 ∉ line.take maxLineBytes := fun m => h (List.mem_of_mem_take m)
      rw [List.append_nil, List.append_nil] at hfull
      rw [hfull, if_neg]
      · refine ih (fun m => h (List.mem_of_mem_drop m)) ?_
        rw [List.length_drop]
        omega
      · rintro (hnil | hlast)
        · have := congrArg List.length hnil
          rw [List.length_take, List.length_nil] at this
          omega
        · exact getLast?_ne_newline htake hlast

end

/-! ## Lines -/

/-- A line as `read_lines` yields it: whole, or its first bytes. -/
def rawLine (number : ℕ) (line : List UInt8) : RawLine :=
  ⟨number, line.take maxLineBytes, maxLineBytes < line.length⟩

/-- The lines with their numbers, the first of them after `number` others. -/
def numbered (number : ℕ) : List (List UInt8) → List RawLine
  | [] => []
  | line :: lines => rawLine (number + 1) line :: numbered (number + 1) lines

/-- A line over the limit is cut, and what is over of it dropped. -/
theorem readLinesFrom_long {line tail rest : List UInt8} {fuel number : ℕ} (h : 10 ∉ line)
    (hlong : maxLineBytes + 1 ≤ line.length)
    (hskip : skipLine ((line.drop (maxLineBytes + 1) ++ tail).length + 1)
      (line.drop (maxLineBytes + 1) ++ tail) = rest) :
    readLinesFrom (fuel + 1) number (line ++ tail) =
      rawLine (number + 1) line :: readLinesFrom fuel (number + 1) rest := by
  have htake : 10 ∉ line.take (maxLineBytes + 1) := fun m => h (List.mem_of_mem_take m)
  have hlength : (line.take (maxLineBytes + 1)).length = maxLineBytes + 1 :=
    List.length_take_of_le hlong
  have hne : line.take (maxLineBytes + 1) ≠ [] := by
    rw [← List.length_pos_iff, hlength]
    omega
  have hover : maxLineBytes < (line.take (maxLineBytes + 1)).length := by
    rw [hlength]
    omega
  rw [readLinesFrom, rawLine, readline_full tail h hlong]
  dsimp only
  rw [if_neg hne, if_pos ⟨hover, getLast?_ne_newline htake⟩, hskip, List.take_take,
    decide_eq_true (Nat.lt_of_succ_le hlong), Nat.min_eq_left (Nat.le_succ _)]

theorem readLinesFrom_newline {line rest : List UInt8} {fuel number : ℕ} (h : 10 ∉ line) :
    readLinesFrom (fuel + 1) number (line ++ 10 :: rest) =
      rawLine (number + 1) line :: readLinesFrom fuel (number + 1) rest := by
  by_cases hlong : maxLineBytes + 1 ≤ line.length
  · refine readLinesFrom_long h hlong (skipLine_newline (fun m => h (List.mem_of_mem_drop m)) ?_)
    rw [List.length_append]
    omega
  · have hlast : (line ++ [(10 : UInt8)]).getLast? = some 10 := by simp
    have hshort : ¬ maxLineBytes < line.length := hlong
    rw [readLinesFrom, rawLine, readline_newline h (not_le.1 hlong)]
    dsimp only
    rw [if_neg (by simp), if_neg fun hc => hc.2 hlast, if_pos hlast, List.dropLast_concat,
      decide_eq_false hshort, List.take_of_length_le (not_lt.1 hshort)]

theorem readLinesFrom_last {line : List UInt8} {fuel number : ℕ} (h : 10 ∉ line)
    (hne : line ≠ []) : readLinesFrom (fuel + 2) number line = [rawLine (number + 1) line] := by
  by_cases hlong : maxLineBytes + 1 ≤ line.length
  · have hskip := skipLine_last (fun m => h (List.mem_of_mem_drop m))
      (Nat.lt_succ_self (line.drop (maxLineBytes + 1)).length)
    rw [← List.append_nil (line.drop _)] at hskip
    have hcut : readLinesFrom (fuel + 2) number (line ++ []) = _ :=
      readLinesFrom_long h hlong hskip
    rw [List.append_nil] at hcut
    exact hcut
  · have hshort : ¬ maxLineBytes < line.length := hlong
    rw [readLinesFrom, rawLine, readline_last h (not_le.1 hlong).le]
    dsimp only
    rw [if_neg hne, if_neg fun hc => hshort hc.1, if_neg (getLast?_ne_newline h),
      decide_eq_false hshort, List.take_of_length_le (not_lt.1 hshort)]
    rfl

theorem numbered_append (number : ℕ) (lines lines' : List (List UInt8)) :
    numbered number (lines ++ lines') =
      numbered number lines ++ numbered (number + lines.length) lines' := by
  induction lines generalizing number with
  | nil => rfl
  | cons line lines ih =>
    rw [List.cons_append, numbered, numbered, ih, List.length_cons, List.cons_append,
      Nat.add_right_comm, Nat.add_assoc]

theorem readLinesFrom_eq (fuel number : ℕ) (bytes : List UInt8) (hfuel : bytes.length < fuel) :
    readLinesFrom fuel number bytes = numbered number (splitLines bytes) := by
  induction fuel generalizing number bytes with
  | zero => omega
  | succ fuel ih =>
    rcases line_cases bytes with ⟨line, rest, hline, rfl⟩ | hlast
    · rw [List.length_append, List.length_cons] at hfuel
      rw [readLinesFrom_newline hline, splitLines_newline hline, numbered,
        ih (number + 1) rest (by omega)]
    · by_cases hnil : bytes = []
      · subst hnil
        rfl
      · have hpos := List.length_pos_iff.2 hnil
        obtain ⟨fuel, rfl⟩ := Nat.exists_eq_succ_of_ne_zero (by omega : fuel ≠ 0)
        rw [readLinesFrom_last hlast hnil, splitLines_last hlast hnil]
        rfl

/-- **Bounded reading is splitting**: every line comes once, with its number, whole or cut at
    the limit. -/
theorem readLines_eq (bytes : List UInt8) :
    readLines bytes = numbered 0 (splitLines bytes) :=
  readLinesFrom_eq _ 0 bytes (Nat.lt_succ_self _)

/-! ## Plain splitting -/

/-- `data.split(b"\n")` without an empty tail. -/
def plainLines (bytes : List UInt8) : List (List UInt8) :=
  let parts := bytes.splitOn 10
  if parts.getLast? = some [] then parts.dropLast else parts

theorem plainLines_newline {line rest : List UInt8} (h : 10 ∉ line) :
    plainLines (line ++ 10 :: rest) = line :: plainLines rest := by
  unfold plainLines
  dsimp only
  rw [List.splitOn_append_cons_self_of_not_mem h]
  obtain ⟨part, parts, hparts⟩ := List.exists_cons_of_ne_nil (List.splitOn_ne_nil 10 rest)
  rw [hparts, List.getLast?_cons_cons]
  split
  · rw [List.dropLast_cons_cons]
  · rfl

theorem plainLines_last {line : List UInt8} (h : 10 ∉ line) :
    plainLines line = if line = [] then [] else [line] := by
  unfold plainLines
  dsimp only
  rw [List.splitOn_eq_singleton h, List.getLast?_singleton, List.dropLast_singleton]
  simp only [Option.some.injEq]

theorem splitLines_eq (bytes : List UInt8) : splitLines bytes = plainLines bytes := by
  induction hn : bytes.length using Nat.strong_induction_on generalizing bytes with
  | h n ih =>
    rcases line_cases bytes with ⟨line, rest, hline, rfl⟩ | hlast
    · rw [List.length_append, List.length_cons] at hn
      rw [splitLines_newline hline, plainLines_newline hline, ih _ (by omega) rest rfl]
    · rw [plainLines_last hlast]
      split
      · next hnil => rw [hnil]; rfl
      · next hne => exact splitLines_last hlast hne

theorem numbered_eq (number : ℕ) (lines : List (List UInt8)) :
    numbered number lines = lines.mapIdx fun i line => rawLine (number + i + 1) line := by
  induction lines generalizing number with
  | nil => rfl
  | cons line lines ih =>
    rw [numbered, ih, List.mapIdx_cons]
    simp only [Nat.add_zero, Nat.add_assoc, Nat.add_comm 1]

/-- **`read_lines` yields the lines of the text**, numbered from one: a line within the limit
    whole, a longer one as its first bytes. -/
theorem readLines_split (bytes : List UInt8) : readLines bytes =
    (plainLines bytes).mapIdx fun i line =>
      if line.length ≤ 8192 then ⟨i + 1, line, false⟩ else ⟨i + 1, line.take 8192, true⟩ := by
  rw [readLines, readLinesFrom_eq _ 0 bytes (Nat.lt_succ_self _), splitLines_eq, numbered_eq]
  congr 1
  funext i line
  rw [rawLine, Nat.zero_add, show maxLineBytes = 8192 from rfl]
  by_cases h : line.length ≤ 8192
  · rw [if_pos h, List.take_of_length_le h, decide_eq_false (not_lt.2 h)]
  · rw [if_neg h, decide_eq_true (not_le.1 h)]

/-- Lines around the limit, with and without a newline at the end. -/
example : (readLines []).length = 0 ∧ (readLines [10]).length = 1 ∧
    (readLines [97, 10, 98]).length = 2 := by decide

end TodDl.Inventory
