/-
  The SQL operator `text LIKE pattern ESCAPE c`.

  `%` matches any text and `_` any character; a character after the escape
  character stands for itself.  Characters match whatever their ASCII case.

  `like_escaped`: an escaped text with a `%` after it matches exactly the texts
  that start with it, case aside.
-/
import Mathlib.Data.List.Infix

namespace TodDl.Lib.Like

/-! ## ASCII case -/

/-- ASCII case goes by 32. -/
theorem toNat_toLower (c : Char) :
    c.toLower.toNat = if 65 ≤ c.toNat ∧ c.toNat ≤ 90 then c.toNat + 32 else c.toNat := by
  unfold Char.toLower
  simp only [ge_iff_le, UInt32.le_iff_toNat_le]
  split
  · next h =>
    have h1 : 65 ≤ c.toNat := h.1
    have h2 : c.toNat ≤ 90 := h.2
    rw [if_pos ⟨h1, h2⟩]
    have hval : c.val.toNat = c.toNat := rfl
    show (c.val + ('a'.val - 'A'.val)).toNat = c.toNat + 32
    rw [UInt32.toNat_add, hval, show ('a'.val - 'A'.val).toNat = 32 from rfl]
    omega
  · next h =>
    rw [if_neg]
    exact h
theorem toLower_toLower (c : Char) : c.toLower.toLower = c.toLower := by
  rw [← Char.toNat_inj, toNat_toLower c.toLower, toNat_toLower c]
  split_ifs <;> omega

/-! ## Patterns -/

/-- A token of a pattern. -/
inductive Token where
  | any
  | one
  | lit (c : Char)

/-- The tokens of a pattern (`escaped`: the escape character was just read); none when
    it ends in the escape character. -/
def tokens (escape : Char) : Bool → List Char → Option (List Token)
  | true, [] => none
  | false, [] => some []
  | true, c :: cs => (tokens escape false cs).map (.lit c :: ·)
  | false, c :: cs =>
    if c = escape then tokens escape true cs
    else (tokens escape false cs).map
      ((if c = '%' then .any else if c = '_' then .one else .lit c) :: ·)

/-- The text matches the tokens. -/
def accepts : List Token → List Char → Bool
  | [], text => text.isEmpty
  | .any :: ts, text => text.tails.any fun rest => accepts ts rest
  | .one :: _, [] => false
  | .one :: ts, _ :: text => accepts ts text
  | .lit _ :: _, [] => false
  | .lit c :: ts, d :: text => c.toLower = d.toLower && accepts ts text

/-- `text LIKE pattern ESCAPE escape` -/
def like (escape : Char) (pattern text : String) : Bool :=
  (tokens escape false pattern.toList).any fun ts => accepts ts text.toList

/-- `text.replace(c, with)` of a character. -/
def replaceChar (c : Char) (replacement text : List Char) : List Char :=
  text.flatMap fun d => if d = c then replacement else [d]

/-- The wildcards and the escape character are escaped, the latter first. -/
def escaped (escape : Char) (text : List Char) : List Char :=
  replaceChar '_' [escape, '_'] (replaceChar '%' [escape, '%']
    (replaceChar escape [escape, escape] text))

variable {escape : Char} {text rest : List Char}

/-- Escaping goes character by character. -/
theorem escaped_cons (h : escape ≠ '%') (h' : escape ≠ '_') (c : Char) :
    escaped escape (c :: text) =
      (if c = escape ∨ c = '%' ∨ c = '_' then [escape, c] else [c]) ++ escaped escape text := by
  by_cases hc : c = escape
  · subst hc
    simp [escaped, replaceChar, h, h']
  · by_cases hp : c = '%'
    · subst hp
      simp [escaped, replaceChar, h', hc]
    · by_cases hu : c = '_'
      · subst hu
        simp [escaped, replaceChar, hc]
      · simp [escaped, replaceChar, hc, hp, hu]

/-- **An escaped text is read as itself.** -/
theorem tokens_escaped (h : escape ≠ '%') (h' : escape ≠ '_') :
    tokens escape false (escaped escape text ++ rest) =
      (tokens escape false rest).map (text.map .lit ++ ·) := by
  induction text with
  | nil => simp [escaped, replaceChar]
  | cons c text ih =>
    rw [escaped_cons h h', List.append_assoc]
    split
    · simp [tokens, ih, Function.comp_def]
    · next hc =>
      simp only [not_or] at hc
      simp [tokens, hc, ih, Function.comp_def]

theorem accepts_any : accepts [.any] text = true := by
  simp only [accepts, List.any_eq_true, List.mem_tails]
  exact ⟨[], List.nil_suffix, rfl⟩

theorem accepts_lits {word : List Char} : accepts (word.map .lit ++ [.any]) text = true ↔
    word.map Char.toLower <+: text.map Char.toLower := by
  induction word generalizing text with
  | nil => simp [accepts_any]
  | cons c word ih =>
    cases text with
    | nil => simp [accepts]
    | cons d text =>
      simp only [List.map_cons, List.cons_append, accepts, Bool.and_eq_true, decide_eq_true_eq, ih,
        List.cons_prefix_cons]

/-- **An escaped text and a `%`** match what starts with the text, case aside. -/
theorem like_escaped (h : escape ≠ '%') (h' : escape ≠ '_') {word s : String} :
    like escape (String.ofList (escaped escape word.toList ++ ['%'])) s = true ↔
      word.toList.map Char.toLower <+: s.toList.map Char.toLower := by
  have htokens : tokens escape false ['%'] = some [.any] := by
    simp [tokens, h.symm]
  rw [like, String.toList_ofList, tokens_escaped h h', htokens, Option.map_some, Option.any_some,
    accepts_lits]

end TodDl.Lib.Like
