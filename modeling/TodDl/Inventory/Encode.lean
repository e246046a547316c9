/-
  The inventory — encoded segments read back.

  `unquote` undoes `encode_segment`, one character after another; and it leaves an
  ASCII text as it is or makes it shorter.  A size token is a word without spaces.
-/
import TodDl.Inventory.Manifest
import TodDl.Controller.Queue

namespace TodDl.Inventory

open Controller (decodeRuns startByte nextByte firstByte Pending percentBytes escapedByte hexValue
  unquote replacementChar)
open Store (isPySpace)

/-! ## UTF-8 -/

theorem toNat_valid (c : Char) : c.toNat < 0xd800 ∨ 0xdfff < c.toNat ∧ c.toNat < 0x110000 := c.valid

/-- The bytes of a character as numbers. -/
theorem map_utf8EncodeChar (c : Char) : (String.utf8EncodeChar c).map UInt8.toNat =
    if c.toNat ≤ 0x7f then [c.toNat]
    else if c.toNat ≤ 0x7ff then [0xc0 + c.toNat / 64, 0x80 + c.toNat % 64]
    else if c.toNat ≤ 0xffff then
      [0xe0 + c.toNat / 4096, 0x80 + c.toNat / 64 % 64, 0x80 + c.toNat % 64]
    else [0xf0 + c.toNat / 262144, 0x80 + c.toNat / 4096 % 64, 0x80 + c.toNat / 64 % 64,
      0x80 + c.toNat % 64] := by
  have hval : c.val.toNat = c.toNat := rfl
  have hvalid := toNat_valid c
  unfold String.utf8EncodeChar
  simp only [hval]
  split
  · simp only [List.map_cons, List.map_nil, UInt8.toNat_ofNat', List.cons.injEq, and_true]
    omega
  · split
    · simp only [List.map_cons, List.map_nil, UInt8.toNat_ofNat', List.cons.injEq, and_true]
      omega
    · split
      · simp only [List.map_cons, List.map_nil, UInt8.toNat_ofNat', List.cons.injEq, and_true]
        omega
      · simp only [List.map_cons, List.map_nil, UInt8.toNat_ofNat', List.cons.injEq, and_true]
        omega

section
variable {p : Pending} {b : ℕ} {rest : List (ℕ ⊕ Char)}

theorem decodeRuns_first (h : firstByte b = some p) (hmissing : p.missing ≠ 0) :
    decodeRuns none (.inl b :: rest) = decodeRuns (some p) rest := by
  simp [decodeRuns, startByte, h, hmissing]

theorem decodeRuns_more (hlow : p.low ≤ b) (hhigh : b ≤ p.high) (hmissing : p.missing ≠ 1) :
    decodeRuns (some p) (.inl b :: rest) =
      decodeRuns (some ⟨64 * p.code + (b - 0x80), p.missing - 1, 0x80, 0xbf⟩) rest := by
  simp [decodeRuns, nextByte, hlow, hhigh, hmissing]

theorem decodeRuns_last (hlow : p.low ≤ b) (hhigh : b ≤ p.high) (hmissing : p.missing = 1) :
    decodeRuns (some p) (.inl b :: rest) =
      Char.ofNat (64 * p.code + (b - 0x80)) :: decodeRuns none rest := by
  simp [decodeRuns, nextByte, hlow, hhigh, hmissing]

end

/-- A decoder reads a character back. -/
theorem decodeRuns_char (c : Char) (rest : List (ℕ ⊕ Char)) :
    decodeRuns none (((String.utf8EncodeChar c).map UInt8.toNat).map .inl ++ rest) =
      c :: decodeRuns none rest := by
  have hvalid := toNat_valid c
  rw [map_utf8EncodeChar]
  set v := c.toNat with hv
  have hchar : Char.ofNat v = c := Char.ofNat_toNat c
  split
  · next h => simp [decodeRuns, startByte, firstByte, hchar, show v < 128 by omega]
  · split
    · next h1 h2 =>
      have hfirst : firstByte (0xc0 + v / 64) = some ⟨v / 64, 1, 0x80, 0xbf⟩ := by
        unfold firstByte
        rw [if_neg (by omega), if_neg (by omega), if_pos (by omega), Nat.add_sub_cancel_left]
      simp only [List.map_cons, List.map_nil, List.cons_append, List.nil_append]
      rw [decodeRuns_first hfirst (by simp), decodeRuns_last (by simp) (by simp; omega) rfl,
        show 64 * (v / 64) + (0x80 + v % 64 - 0x80) = v by omega, hchar]
    · split
      · next h2 h3 =>
        have hfirst : firstByte (0xe0 + v / 4096) = some ⟨v / 4096, 2,
            if v / 4096 = 0 then 0xa0 else 0x80, if v / 4096 = 13 then 0x9f else 0xbf⟩ := by
          unfold firstByte
          rw [if_neg (by omega), if_neg (by omega), if_neg (by omega), if_pos (by omega),
            Nat.add_sub_cancel_left]
          congr 2 <;> congr 1
          · simp
          · simp
            omega
        simp only [List.map_cons, List.map_nil, List.cons_append, List.nil_append]
        rw [decodeRuns_first hfirst (by simp), decodeRuns_more _ _ (by simp),
          decodeRuns_last (by simp) (by simp; omega) rfl]
        · dsimp only
          rw [show 64 * (64 * (v / 4096) + (0x80 + v / 64 % 64 - 0x80)) + (0x80 + v % 64 - 0x80) = v
            by omega, hchar]
        · dsimp only
          split <;> omega
        · dsimp only
          split <;> omega
      · next h3 =>
        have hfirst : firstByte (0xf0 + v / 262144) = some ⟨v / 262144, 3,
            if v / 262144 = 0 then 0x90 else 0x80, if v / 262144 = 4 then 0x8f else 0xbf⟩ := by
          unfold firstByte
          rw [if_neg (by omega), if_neg (by omega), if_neg (by omega), if_neg (by omega),
            if_pos (by omega), Nat.add_sub_cancel_left]
          congr 2 <;> congr 1
          · simp
          · simp
            omega
        simp only [List.map_cons, List.map_nil, List.cons_append, List.nil_append]
        rw [decodeRuns_first hfirst (by simp), decodeRuns_more _ _ (by simp),
          decodeRuns_more (by simp) (by simp; omega) (by simp),
          decodeRuns_last (by simp) (by simp; omega) rfl]
        · dsimp only
          rw [show 64 * (64 * (64 * (v / 262144) + (0x80 + v / 4096 % 64 - 0x80)) +
            (0x80 + v / 64 % 64 - 0x80)) + (0x80 + v % 64 - 0x80) = v by omega, hchar]
        · dsimp only
          split <;> omega
        · dsimp only
          split <;> omega

/-! ## `encode_segment` -/

theorem hexValue_hexUpper : ∀ n < 16, hexValue (hexUpper n) = some n := by decide

theorem percentBytes_escapeByte (b : UInt8) (rest : List Char) :
    percentBytes 0 (escapeByte b ++ rest) = .inl b.toNat :: percentBytes 0 rest := by
  have hb : b.toNat < 256 := b.toNat_lt
  have hescaped : escapedByte (hexUpper (b.toNat / 16) :: hexUpper (b.toNat % 16) :: rest) =
      some b.toNat := by
    rw [escapedByte, hexValue_hexUpper _ (by omega), hexValue_hexUpper _ (by omega)]
    exact congrArg some (by omega)
  simp [escapeByte, percentBytes, hescaped]

theorem percentBytes_escapeBytes (bs : List UInt8) (rest : List Char) :
    percentBytes 0 (bs.flatMap escapeByte ++ rest) =
      (bs.map UInt8.toNat).map .inl ++ percentBytes 0 rest := by
  induction bs with
  | nil => rfl
  | cons b bs ih =>
    rw [List.flatMap_cons, List.append_assoc, percentBytes_escapeByte, ih]
    rfl

theorem segmentSafe_ascii : ∀ c ∈ segmentSafe, c.toNat < 128 ∧ c ≠ '%' ∧ c ≠ '/' := by
  have hall : segmentSafe.all (fun c => c.toNat < 128 ∧ c ≠ '%' ∧ c ≠ '/') = true := by decide
  simpa using hall

theorem percentBytes_encodeSegment (s rest : List Char) :
    percentBytes 0 (encodeSegment s ++ rest) =
      (s.flatMap fun c => ((String.utf8EncodeChar c).map UInt8.toNat).map .inl) ++
        percentBytes 0 rest := by
  induction s with
  | nil => rfl
  | cons c s ih =>
    rw [encodeSegment, List.flatMap_cons, List.flatMap_cons, List.append_assoc, List.append_assoc]
    by_cases hc : c ∈ segmentSafe
    · -- a safe character is its own byte
      obtain ⟨hlt, hne, -⟩ := segmentSafe_ascii c hc
      rw [if_pos hc, map_utf8EncodeChar, if_pos (by omega), List.singleton_append, percentBytes,
        if_neg (by omega), if_pos hne]
      exact congrArg _ ih
    · rw [if_neg hc, percentBytes_escapeBytes]
      exact congrArg _ ih

/-- **`unquote` undoes `encode_segment`.** -/
theorem unquote_encodeSegment (s : List Char) :
    unquote (String.ofList (encodeSegment s)) = String.ofList s := by
  have h := percentBytes_encodeSegment s []
  rw [List.append_nil] at h
  rw [unquote, String.toList_ofList, h]
  congr 1
  induction s with
  | nil => rfl
  | cons c s ih =>
    have ih := ih (by simpa using percentBytes_encodeSegment s [])
    rw [List.flatMap_cons, List.append_assoc, decodeRuns_char, ih]

/-! ## Texts without escapes -/

theorem length_decodeRuns (p : Option Pending) (l : List (ℕ ⊕ Char)) :
    (decodeRuns p l).length ≤ l.length + p.elim 0 fun _ => 1 := by
  have hstart : ∀ b, (startByte b).1.length + ((startByte b).2.elim 0 fun _ => 1) = 1 := by
    intro b
    unfold startByte
    split
    · rfl
    · split <;> rfl
  have hnext : ∀ p b, (nextByte p b).1.length + ((nextByte p b).2.elim 0 fun _ => 1) ≤ 2 := by
    intro p b
    unfold nextByte
    dsimp only
    split
    · split <;> simp
    · have := hstart b
      simp only [List.length_cons]
      omega
  induction l generalizing p with
  | nil => cases p <;> simp [decodeRuns]
  | cons x l ih =>
    cases x with
    | inl b =>
      cases p with
      | none =>
        have h := hstart b
        have := ih (startByte b).2
        simp only [decodeRuns, List.length_append, List.length_cons, Option.elim_none]
        omega
      | some p =>
        have h := hnext p b
        have := ih (nextByte p b).2
        simp only [decodeRuns, List.length_append, List.length_cons, Option.elim_some]
        omega
    | inr c =>
      have := ih none
      cases p <;> simp only [decodeRuns, List.length_cons, Option.elim_none, Option.elim_some] at * <;>
        omega

theorem length_percentBytes (skip : ℕ) (l : List Char) :
    (percentBytes skip l).length ≤ l.length - skip := by
  induction l generalizing skip with
  | nil => simp [percentBytes]
  | cons c l ih =>
    cases skip with
    | succ skip =>
      rw [percentBytes, List.length_cons]
      have := ih skip
      omega
    | zero =>
      have h0 := ih 0
      have h2 := ih 2
      unfold percentBytes
      split
      · simp only [List.length_cons]
        omega
      · split
        · simp only [List.length_cons]
          omega
        · split <;> simp only [List.length_cons] <;> omega

/-- The bytes of an ASCII text are those of its characters, or fewer. -/
theorem percentBytes_ascii {l : List Char} (h : ∀ c ∈ l, c.toNat < 128) :
    percentBytes 0 l = l.map (fun c => .inl c.toNat) ∨ (percentBytes 0 l).length < l.length := by
  induction l with
  | nil => exact .inl rfl
  | cons c l ih =>
    obtain ⟨hc, hl⟩ := List.forall_mem_cons.1 h
    unfold percentBytes
    rw [if_neg (by omega)]
    split
    · rcases ih hl with ih | ih
      · exact .inl (by rw [ih, List.map_cons])
      · exact .inr (by simpa using ih)
    · next hpercent =>
      obtain rfl : c = '%' := by simpa using hpercent
      split
      · next b hb =>
        right
        have := length_percentBytes 2 l
        have hlen : 2 ≤ l.length := by
          unfold escapedByte at hb
          split at hb
          · simp
          · cases hb
        simp only [List.length_cons]
        omega
      · rcases ih hl with ih | ih
        · exact .inl (by rw [ih, List.map_cons]; rfl)
        · exact .inr (by simpa using ih)

theorem decodeRuns_ascii {l : List Char} (h : ∀ c ∈ l, c.toNat < 128) :
    decodeRuns none (l.map fun c => .inl c.toNat) = l := by
  induction l with
  | nil => rfl
  | cons c l ih =>
    obtain ⟨hc, hl⟩ := List.forall_mem_cons.1 h
    have hstart : startByte c.toNat = ([c], none) := by
      simp [startByte, firstByte, hc, Char.ofNat_toNat]
    rw [List.map_cons, decodeRuns, hstart]
    exact congrArg (c :: ·) (ih hl)

/-- **An escape makes a text shorter.** -/
theorem unquote_eq_or_length_lt {text : String} (h : ∀ c ∈ text.toList, c.toNat < 128) :
    unquote text = text ∨ (unquote text).toList.length < text.toList.length := by
  rw [unquote, String.toList_ofList]
  rcases percentBytes_ascii h with hp | hp
  · exact .inl (by rw [hp, decodeRuns_ascii h, String.ofList_toList])
  · right
    have := length_decodeRuns none (percentBytes 0 text.toList)
    simp only [Option.elim_none] at this
    omega

/-! ## Size tokens -/

theorem isPySpace_digit {c : Char} (h : Provenance.isAsciiDigit c = true) : isPySpace c = false := by
  have hdigits : ∀ n < 128, Provenance.isAsciiDigit (Char.ofNat n) = true →
      isPySpace (Char.ofNat n) = false := by decide
  have hlt : c.toNat < 128 := by
    simp only [Provenance.isAsciiDigit, Bool.and_eq_true, decide_eq_true_eq] at h
    exact lt_of_le_of_lt (show c.toNat ≤ '9'.toNat from h.2) (by decide)
  simpa [Char.ofNat_toNat] using hdigits c.toNat hlt (by simpa [Char.ofNat_toNat] using h)

/-- Text that is checked to have no space. -/
theorem notSpace_of_all {l : List Char} (h : l.all (!isPySpace ·) = true) :
    ∀ c ∈ l, isPySpace c = false := by
  simpa using h

/-- A size token is a word. -/
theorem word_sizeToken {t : List Char} (h : isSizeToken t = true) :
    t ≠ [] ∧ ∀ c ∈ t, isPySpace c = false := by
  have hunits : ∀ l ∈ "KMGTPE".toList.map fun c => [c], ∀ c ∈ l, isPySpace c = false := by
    intro l hl
    obtain ⟨unit, hunit, rfl⟩ := List.mem_map.1 hl
    intro c hc
    exact notSpace_of_all (by decide) c (List.mem_singleton.1 hc ▸ hunit)
  have hdigits : ∀ l : List Char, ∀ c ∈ l.takeWhile Provenance.isAsciiDigit, isPySpace c = false :=
    fun l c hc => isPySpace_digit (List.mem_takeWhile_imp hc)
  have hend : ∀ l : List Char, l = [] ∨ (l ∈ "KMGTPE".toList.map fun c => [c]) →
      ∀ c ∈ l, isPySpace c = false := by
    rintro l (rfl | hl)
    · simp
    · exact hunits l hl
  simp only [isSizeToken, Bool.and_eq_true, Bool.or_eq_true, Bool.not_eq_true', decide_eq_true_eq] at h
  obtain ⟨hwhole, hrest⟩ := h
  rw [Controller.drop_length_takeWhile] at hrest
  have hsplit := List.takeWhile_append_dropWhile (p := Provenance.isAsciiDigit) (l := t)
  refine ⟨?_, fun c hc => ?_⟩
  · rintro rfl
    simp at hwhole
  · rw [← hsplit] at hc
    rcases List.mem_append.1 hc with hc | hc
    · exact hdigits t c hc
    · split at hrest
      · next fraction hfraction =>
        rw [hfraction] at hc hrest
        split at hrest
        · exact hend _ hrest c hc
        · rcases List.mem_cons.1 hc with rfl | hc
          · decide
          · rw [← List.takeWhile_append_dropWhile (p := Provenance.isAsciiDigit) (l := fraction)]
              at hc
            rcases List.mem_append.1 hc with hc | hc
            · exact hdigits fraction c hc
            · exact hend _ hrest c hc
      · exact hend _ hrest c hc

end TodDl.Inventory
