/-
  Provenance records — canonical JSON reads back.

  `sorted` orders the fields of every object of a value by their keys; two values
  with one `sorted` form differ in the order of their fields only.

  `loads_render`: what `canonical_json` writes for a recordable value, `json.loads`
  reads as its sorted form.  `sorted_of_canonicalJson`: so equal bytes come from
  values that are the same up to the order of fields.
-/
import Mathlib.Data.List.Nodup
import TodDl.Provenance.Decode
import TodDl.Provenance.Valid

namespace TodDl.Provenance

/-! ## Strings -/

theorem hexDigitValue_hexDigit : ∀ n < 16, hexDigitValue (Lib.Sha256.hexDigit n) = some n := by
  decide

/-- The scanner reads a one-letter escape. -/
theorem scanString_escape {e : Char} {code : ℕ} (hu : e ≠ 'u') (he : escapeCode e = some code)
    (rest : List Char) : scanString ('\\' :: e :: rest) =
      (scanString rest).map fun p => (code :: p.1, p.2) := by
  rw [scanString.eq_def]
  simp only [show ('\\' : Char) ≠ '"' by decide, if_false, if_true, hu, he, bind, Option.bind_some]
  cases scanString rest <;> rfl

/-- The scanner reads the escape of a code. -/
theorem scanString_code {n : ℕ} (hn : n < 65536) (rest : List Char) :
    scanString ('\\' :: 'u' :: Lib.Sha256.hexDigit (n / 4096) ::
      Lib.Sha256.hexDigit (n / 256 % 16) :: Lib.Sha256.hexDigit (n / 16 % 16) ::
        Lib.Sha256.hexDigit (n % 16) :: rest) =
      (scanString rest).map fun p => (n :: p.1, p.2) := by
  have hcode : hex4 (Lib.Sha256.hexDigit (n / 4096)) (Lib.Sha256.hexDigit (n / 256 % 16))
      (Lib.Sha256.hexDigit (n / 16 % 16)) (Lib.Sha256.hexDigit (n % 16)) = some n := by
    have h3 := hexDigitValue_hexDigit (n / 4096) (by omega)
    have h2 := hexDigitValue_hexDigit (n / 256 % 16) (by omega)
    have h1 := hexDigitValue_hexDigit (n / 16 % 16) (by omega)
    have h0 := hexDigitValue_hexDigit (n % 16) (by omega)
    simp only [hex4, h3, h2, h1, h0, bind, Option.bind_some, pure, Option.some.injEq]
    omega
  rw [scanString]
  simp only [show ('\\' : Char) ≠ '"' by decide, if_false, if_true, hcode, bind, Option.bind_some]
  cases scanString rest <;> rfl

/-- The scanner reads a character that is not escaped. -/
theorem scanString_plain {c : Char} (hquote : c ≠ '"') (hback : c ≠ '\\') (hcontrol : 32 ≤ c.toNat)
    (rest : List Char) :
    scanString (c :: rest) = (scanString rest).map fun p => (c.toNat :: p.1, p.2) := by
  rw [scanString.eq_def]
  simp only [hquote, hback, Nat.not_lt.2 hcontrol, if_false, bind]
  cases scanString rest <;> rfl

/-- The scanner reads one escaped character. -/
theorem scanString_escapeChar (c : Char) (rest : List Char) :
    scanString (escapeChar c ++ rest) =
      (scanString rest).map fun p => (c.toNat :: p.1, p.2) := by
  unfold escapeChar
  split
  · next h => subst h; exact scanString_escape (by decide) rfl rest
  split
  · next h => subst h; exact scanString_escape (by decide) rfl rest
  split
  · next h => subst h; exact scanString_escape (by decide) rfl rest
  split
  · next h => subst h; exact scanString_escape (by decide) rfl rest
  split
  · next h => subst h; exact scanString_escape (by decide) rfl rest
  split
  · next h => rw [h]; exact scanString_escape (by decide) rfl rest
  split
  · next h => rw [h]; exact scanString_escape (by decide) rfl rest
  split
  · next h =>
    have hzero : Lib.Sha256.hexDigit 0 = '0' := rfl
    have hread := scanString_code (n := c.toNat) (by omega) rest
    rw [show c.toNat / 4096 = 0 by omega, show c.toNat / 256 % 16 = 0 by omega, hzero,
      show c.toNat / 16 % 16 = c.toNat / 16 by omega] at hread
    exact hread
  · next hquote hback _ _ _ _ _ hcontrol =>
    exact scanString_plain hquote hback (Nat.not_lt.1 hcontrol) rest

theorem scanString_escaped (cs rest : List Char) :
    scanString (cs.flatMap escapeChar ++ '"' :: rest) = some (cs.map Char.toNat, rest) := by
  induction cs with
  | nil => rw [List.flatMap_nil, List.nil_append, scanString.eq_def]; rfl
  | cons c cs ih =>
    rw [List.flatMap_cons, List.append_assoc, scanString_escapeChar, ih]
    rfl

theorem joinSurrogates_eq_self {codes : List ℕ} (h : ∀ c ∈ codes, c < 0xd800 ∨ 0xe000 ≤ c) :
    joinSurrogates codes = codes := by
  fun_induction joinSurrogates codes with
  | case1 a b rest hsurrogate =>
    have := h a List.mem_cons_self
    omega
  | case2 a b rest _ ih => rw [ih fun c hc => h c (List.mem_cons_of_mem _ hc)]
  | case3 => rfl

/-- Characters are no surrogates. -/
theorem joinSurrogates_toNat (cs : List Char) :
    joinSurrogates (cs.map Char.toNat) = cs.map Char.toNat := by
  refine joinSurrogates_eq_self fun n hn => ?_
  obtain ⟨c, -, rfl⟩ := List.mem_map.1 hn
  have hvalid : c.toNat < 0xd800 ∨ 0xdfff < c.toNat ∧ c.toNat < 0x110000 := c.valid
  omega

/-- A string without lone surrogates is read as it is. -/
theorem keyOf_toNat (s : String) : keyOf (s.toList.map Char.toNat) = .str s := by
  have hvalid : ∀ c ∈ s.toList.map Char.toNat, Nat.isValidChar c := by
    intro c hc
    obtain ⟨d, -, rfl⟩ := List.mem_map.1 hc
    exact d.valid
  simp only [keyOf, joinSurrogates_toNat]
  rw [if_pos (by simpa using hvalid)]
  simp [Function.comp_def]

/-! ## Numbers and constants -/

/-- What follows a value inside a text. -/
def Delimited (rest : List Char) : Prop :=
  ∀ c, rest.head? = some c → c = ',' ∨ c = ']' ∨ c = '\x7d'

theorem isAsciiDigit_of_isDigit {c : Char} (h : c.isDigit = true) : isAsciiDigit c = true := by
  simpa [isAsciiDigit, Char.isDigit, Char.le_def] using h

theorem head_toDigits {n : ℕ} (h : n ≠ 0) : ∃ d ds, Nat.toDigits 10 n = d :: ds ∧ d ≠ '0' := by
  induction n using Nat.strong_induction_on with
  | _ n ih =>
    by_cases hn : n < 10
    · have hdigit : ∀ m < 10, m ≠ 0 → m.digitChar ≠ '0' := by decide
      exact ⟨n.digitChar, [], Nat.toDigits_of_lt_base hn, hdigit n hn h⟩
    · obtain ⟨d, ds, hd, hne⟩ := ih (n / 10) (by omega) (by omega)
      refine ⟨d, ds ++ [(n % 10).digitChar], ?_, hne⟩
      rw [Nat.toDigits_of_base_le (by decide) (by omega), hd, List.cons_append]

theorem scanInteger_toDigits (n : ℕ) {rest : List Char} (hrest : Delimited rest) :
    scanInteger (Nat.toDigits 10 n ++ rest) = some (Nat.toDigits 10 n, rest) := by
  have hall : ∀ c ∈ Nat.toDigits 10 n, isAsciiDigit c = true := fun c hc =>
    isAsciiDigit_of_isDigit (Nat.isDigit_of_mem_toDigits (by decide) (by decide) hc)
  by_cases hn : n = 0
  · subst hn
    rw [Nat.toDigits_zero, List.singleton_append, scanInteger]
  · obtain ⟨d, ds, hd, hne⟩ := head_toDigits hn
    have htake : (Nat.toDigits 10 n ++ rest).takeWhile isAsciiDigit = Nat.toDigits 10 n := by
      rw [List.takeWhile_append_of_pos hall]
      cases rest with
      | nil => simp
      | cons c rest =>
        have hc : isAsciiDigit c = false := by
          rcases hrest c rfl with rfl | rfl | rfl <;> decide
        simp [hc]
    have hscan : scanDigits (Nat.toDigits 10 n ++ rest) = some (Nat.toDigits 10 n, rest) := by
      simp only [scanDigits, htake, List.drop_left]
      rw [if_neg (by simp [hd])]
    rw [← hscan, hd, List.cons_append]
    unfold scanInteger
    split
    · next heq => cases heq; exact absurd rfl hne
    · rfl

theorem scanMagnitude_toDigits (negative : Bool) {n : ℕ} (hn : n < 10 ^ intMaxStrDigits)
    {rest : List Char} (hrest : Delimited rest) :
    scanMagnitude negative (Nat.toDigits 10 n ++ rest) =
      some (.int (if negative then -(n : ℤ) else n), rest) := by
  have hfraction : scanFraction rest = none := by
    unfold scanFraction
    split
    · next tail => rcases hrest '.' rfl with h | h | h <;> cases h
    · rfl
  have hexponent : scanExponent rest = none := by
    unfold scanExponent
    split
    · next c tail =>
      have hc : ¬ (c = 'e' ∨ c = 'E') := by
        rcases hrest c rfl with rfl | rfl | rfl <;> decide
      rw [if_neg hc]
    · rfl
  have hlength : ¬ intMaxStrDigits < (Nat.toDigits 10 n).length :=
    Nat.not_lt.2 ((Nat.length_toDigits_le_iff (by decide) (by decide)).2 hn)
  simp only [scanMagnitude, scanInteger_toDigits n hrest, bind, Option.bind_some, hfraction,
    hexponent, Option.elim_none, if_neg hlength]
  rw [Nat.ofDigitChars_toDigits (by decide) (by decide)]

theorem exists_toDigits (n : ℕ) : ∃ d ds, Nat.toDigits 10 n = d :: ds ∧ isAsciiDigit d = true := by
  obtain ⟨d, ds, hd⟩ := List.exists_cons_of_ne_nil (Nat.toDigits_ne_nil (n := n) (b := 10))
  exact ⟨d, ds, hd, isAsciiDigit_of_isDigit
    (Nat.isDigit_of_mem_toDigits (by decide) (by decide) (hd ▸ List.mem_cons_self))⟩

theorem toString_negSucc (n : ℕ) :
    (toString (Int.negSucc n)).toList = '-' :: Nat.toDigits 10 (n + 1) := by
  show (("-" : String) ++ (n + 1).repr).toList = _
  rw [String.toList_append, Nat.toList_repr]
  rfl

/-- The scanner reads an integer. -/
theorem scanScalar_int {i : ℤ} (hi : i.natAbs < 10 ^ intMaxStrDigits) {rest : List Char}
    (hrest : Delimited rest) : scanScalar ((toString i).toList ++ rest) = some (.int i, rest) := by
  have hne : ∀ {d : Char}, isAsciiDigit d = true → d ≠ 'n' ∧ d ≠ 't' ∧ d ≠ 'f' ∧ d ≠ 'N' ∧
      d ≠ 'I' ∧ d ≠ '-' := by
    intro d hd
    refine ⟨?_, ?_, ?_, ?_, ?_, ?_⟩ <;> (rintro rfl; revert hd; decide)
  cases i with
  | ofNat n =>
    obtain ⟨d, ds, hd, hdd⟩ := exists_toDigits n
    obtain ⟨h1, h2, h3, h4, h5, h6⟩ := hne hdd
    have htext : (toString (Int.ofNat n)).toList = Nat.toDigits 10 n := Nat.toList_repr
    have hscan := scanMagnitude_toDigits false (n := n) (by simpa using hi) hrest
    have hfind : (constants.find? fun p => p.1.isPrefixOf (d :: (ds ++ rest))) = none := by
      simp [constants, List.isPrefixOf, h1.symm, h2.symm, h3.symm, h4.symm, h5.symm, h6.symm]
    rw [htext, hd, List.cons_append, scanScalar, hfind]
    · simpa [hd] using hscan
    · rintro tail ⟨⟩
      exact h6 rfl
  | negSucc n =>
    obtain ⟨d, ds, hd, hdd⟩ := exists_toDigits (n + 1)
    obtain ⟨h1, h2, h3, h4, h5, h6⟩ := hne hdd
    have hscan := scanMagnitude_toDigits true (n := n + 1) (by simpa using hi) hrest
    have hfind : (constants.find? fun p => p.1.isPrefixOf ('-' :: (d :: ds ++ rest))) = none := by
      simp [constants, List.isPrefixOf, h5.symm]
    rw [toString_negSucc, List.cons_append, hd, scanScalar, hfind]
    rw [hd] at hscan
    exact hscan

/-! ## Sorted values -/

mutual

/-- The value with the fields of every object in the order of their keys. -/
def PyVal.sorted : PyVal → PyVal
  | .list items => .list (sortedItems items)
  | .dict items => .dict (((namedFields items).foldr insertSorted []).map fun p => (.str p.1, p.2))
  | v => v

def sortedItems : List PyVal → List PyVal
  | [] => []
  | v :: rest => v.sorted :: sortedItems rest

def namedFields : List (Key × PyVal) → List (String × PyVal)
  | [] => []
  | (k, v) :: rest => (k.text, v.sorted) :: namedFields rest

end

theorem map_insertSorted {α β : Type} (f : α → β) (p : String × α) (l : List (String × α)) :
    (insertSorted p l).map (Prod.map id f) = insertSorted (Prod.map id f p) (l.map (Prod.map id f)) := by
  induction l with
  | nil => rfl
  | cons q l ih =>
    rw [insertSorted, List.map_cons, insertSorted]
    split
    · next h => rw [if_pos (by exact h), List.map_cons, ih]
    · next h => rw [if_neg (by exact h), List.map_cons, List.map_cons]

/-- Sorting by the key commutes with a change of the values. -/
theorem map_sorted {α β : Type} (f : α → β) (l : List (String × α)) :
    (l.map (Prod.map id f)).foldr insertSorted [] =
      (l.foldr insertSorted []).map (Prod.map id f) := by
  induction l with
  | nil => rfl
  | cons p l ih => rw [List.map_cons, List.foldr_cons, ih, List.foldr_cons, map_insertSorted]

theorem perm_insertSorted {α : Type} (p : String × α) (l : List (String × α)) :
    (insertSorted p l).Perm (p :: l) := by
  induction l with
  | nil => exact .refl _
  | cons q l ih =>
    rw [insertSorted]
    split
    · exact (ih.cons q).trans (.swap p q l)
    · exact .refl _

theorem perm_sorted {α : Type} (l : List (String × α)) : (l.foldr insertSorted []).Perm l := by
  induction l with
  | nil => exact .refl _
  | cons p l ih => exact (perm_insertSorted p _).trans (ih.cons p)

theorem namedFields_eq (items : List (Key × PyVal)) :
    namedFields items = items.map fun p => (p.1.text, p.2.sorted) := by
  induction items with
  | nil => rfl
  | cons p rest ih => rw [namedFields, ih]; rfl

theorem renderFields_eq (items : List (Key × PyVal)) :
    renderFields items = items.map fun p => (p.1.text, render p.2) := by
  induction items with
  | nil => rfl
  | cons p rest ih => rw [renderFields, ih]; rfl

/-- The fields of an object by the text of their key. -/
def textFields (items : List (Key × PyVal)) : List (String × PyVal) :=
  (items.map fun p => (p.1.text, p.2)).foldr insertSorted []

theorem sorted_dict (items : List (Key × PyVal)) :
    (PyVal.dict items).sorted = .dict ((textFields items).map fun p => (.str p.1, p.2.sorted)) := by
  have h := map_sorted PyVal.sorted (items.map fun p => (p.1.text, p.2))
  rw [List.map_map] at h
  rw [PyVal.sorted, namedFields_eq]
  refine congrArg PyVal.dict ?_
  rw [textFields, show (fun p : String × PyVal => (Key.str p.1, p.2.sorted)) =
    (fun p => (Key.str p.1, p.2)) ∘ Prod.map id PyVal.sorted from rfl, ← List.map_map, ← h]
  rfl

theorem render_dict (items : List (Key × PyVal)) :
    render (.dict items) = '\x7b' :: (joinComma ((textFields items).map fun p =>
      renderString p.1 ++ ':' :: render p.2) ++ ['\x7d']) := by
  have h := map_sorted render (items.map fun p => (p.1.text, p.2))
  rw [List.map_map] at h
  rw [render, renderFields_eq]
  rw [textFields, show (fun p : String × PyVal => renderString p.1 ++ ':' :: render p.2) =
    (fun p => renderString p.1 ++ ':' :: p.2) ∘ Prod.map id render from rfl, ← List.map_map, ← h]
  rfl

theorem mem_textFields {items : List (Key × PyVal)} {p : String × PyVal} (h : p ∈ textFields items) :
    ∃ q ∈ items, p = (q.1.text, q.2) := by
  obtain ⟨q, hq, rfl⟩ := List.mem_map.1 ((perm_sorted _).subset h)
  exact ⟨q, hq, rfl⟩

/-! ## Reading back -/

theorem skipSpace_cons {c : Char} (h : isJsonSpace c = false) (cs : List Char) :
    skipSpace (c :: cs) = c :: cs := by
  rw [skipSpace, List.dropWhile_cons_of_neg (by simp [h])]

theorem render_int (i : ℤ) : ∃ c cs, render (.int i) = c :: cs ∧ (c = '-' ∨ isAsciiDigit c = true) := by
  cases i with
  | ofNat n =>
    obtain ⟨d, ds, hd, hdigit⟩ := exists_toDigits n
    exact ⟨d, ds, (Nat.toList_repr (n := n)).trans hd, .inr hdigit⟩
  | negSucc n => exact ⟨'-', _, toString_negSucc n, .inl rfl⟩

/-- The text of a value starts with no space, no closing bracket and no byte order mark. -/
theorem render_eq_cons {v : PyVal} (h : Recordable v) :
    ∃ c cs, render v = c :: cs ∧ isJsonSpace c = false ∧ c ≠ ']' ∧ c ≠ '\ufeff' := by
  cases v with
  | null => exact ⟨'n', ['u', 'l', 'l'], rfl, rfl, by decide, by decide⟩
  | bool b =>
    cases b
    · exact ⟨'f', ['a', 'l', 's', 'e'], rfl, rfl, by decide, by decide⟩
    · exact ⟨'t', ['r', 'u', 'e'], rfl, rfl, by decide, by decide⟩
  | int i =>
    obtain ⟨c, cs, hc, rfl | hdigit⟩ := render_int i
    · exact ⟨'-', cs, hc, rfl, by decide, by decide⟩
    · refine ⟨c, cs, hc, ?_, ?_, ?_⟩
      · cases h : isJsonSpace c
        · rfl
        · simp only [isJsonSpace, Bool.or_eq_true, decide_eq_true_eq] at h
          rcases h with ((rfl | rfl) | rfl) | rfl <;> cases hdigit
      · rintro rfl
        cases hdigit
      · rintro rfl
        cases hdigit
  | str s => exact ⟨'"', _, rfl, rfl, by decide, by decide⟩
  | list items => exact ⟨'[', _, rfl, rfl, by decide, by decide⟩
  | dict items => exact ⟨'\x7b', _, rfl, rfl, by decide, by decide⟩
  | _ => exact absurd h (by simp [Recordable])

/-- The scanner reads the text of the value, whatever follows it. -/
def Scans (v : PyVal) : Prop :=
  ∀ fuel rest, Delimited rest → 2 * (render v ++ rest).length < fuel →
    scanValue fuel (render v ++ rest) = some (v.sorted, rest)

theorem scanItems_render {items : List PyVal} (hne : items ≠ [])
    (hitems : ∀ v ∈ items, Recordable v ∧ Scans v) :
    ∀ fuel rest, 2 * (joinComma (renderItems items) ++ ']' :: rest).length + 1 < fuel →
      scanItems fuel (joinComma (renderItems items) ++ ']' :: rest) =
        some (sortedItems items, rest) := by
  induction items with
  | nil => exact absurd rfl hne
  | cons v items ih =>
    intro fuel rest hfuel
    obtain ⟨fuel, rfl⟩ : ∃ k, fuel = k + 1 := ⟨fuel - 1, by omega⟩
    obtain ⟨hv, hscan⟩ := hitems v List.mem_cons_self
    cases items with
    | nil =>
      rw [renderItems, renderItems, joinComma] at hfuel ⊢
      have hclose : Delimited (']' :: rest) := by rintro c ⟨⟩; exact .inr (.inl rfl)
      rw [scanItems, hscan fuel _ hclose (by omega)]
      simp only [bind, Option.bind_some, skipSpace_cons (c := ']') rfl]
      rfl
    | cons w items =>
      have htext : joinComma (renderItems (v :: w :: items)) ++ ']' :: rest =
          render v ++ ',' :: (joinComma (renderItems (w :: items)) ++ ']' :: rest) := by
        rw [renderItems, renderItems, joinComma, List.append_assoc, List.cons_append, ← renderItems]
        rintro ⟨⟩
      rw [htext] at hfuel ⊢
      have hcomma : Delimited (',' :: (joinComma (renderItems (w :: items)) ++ ']' :: rest)) := by
        rintro c ⟨⟩
        exact .inl rfl
      have hrest := ih (by simp) (fun u hu => hitems u (List.mem_cons_of_mem _ hu)) fuel rest
        (by simp only [List.length_append, List.length_cons] at hfuel ⊢; omega)
      -- no space before the next item
      obtain ⟨c, cs, hc, hspace, -⟩ := render_eq_cons (hitems w (by simp)).1
      have hskip : skipSpace (joinComma (renderItems (w :: items)) ++ ']' :: rest) =
          joinComma (renderItems (w :: items)) ++ ']' :: rest := by
        cases items <;> simp only [renderItems, joinComma, hc, List.cons_append] <;>
          exact skipSpace_cons hspace _
      rw [scanItems, hscan fuel _ hcomma (by omega)]
      simp only [bind, Option.bind_some, skipSpace_cons (c := ',') rfl]
      rw [hskip, hrest]
      rfl

/-- The text of a field. -/
def renderField (p : String × PyVal) : List Char := renderString p.1 ++ ':' :: render p.2

/-- Reading one field and what follows its value. -/
theorem scanFields_succ {p : String × PyVal} (hv : Recordable p.2) (hscan : Scans p.2) {fuel : ℕ}
    {rest : List Char} (hrest : Delimited rest) (hfuel : 2 * (render p.2 ++ rest).length < fuel) :
    scanFields (fuel + 1) (renderField p ++ rest) =
      match skipSpace rest with
      | ',' :: rest => (scanFields fuel (skipSpace rest)).map fun (items, rest) =>
          ((.str p.1, p.2.sorted) :: items, rest)
      | '\x7d' :: rest => some ([(.str p.1, p.2.sorted)], rest)
      | _ => none := by
  have htext : renderField p ++ rest = '"' :: (p.1.toList.flatMap escapeChar ++
      '"' :: ':' :: (render p.2 ++ rest)) := by
    simp [renderField, renderString]
  obtain ⟨c, cs, hc, hspace, -⟩ := render_eq_cons hv
  have hskip : skipSpace (render p.2 ++ rest) = render p.2 ++ rest := by
    rw [hc, List.cons_append, skipSpace_cons hspace]
  rw [htext, scanFields, scanString_escaped]
  simp only [bind, Option.bind_some, skipSpace_cons (c := ':') rfl, hskip]
  rewrite [hscan fuel rest hrest hfuel, keyOf_toNat]
  rfl

theorem scanFields_render {fields : List (String × PyVal)} (hne : fields ≠ [])
    (hfields : ∀ p ∈ fields, Recordable p.2 ∧ Scans p.2) :
    ∀ fuel rest, 2 * (joinComma (fields.map renderField) ++ '\x7d' :: rest).length < fuel →
      scanFields fuel (joinComma (fields.map renderField) ++ '\x7d' :: rest) =
        some (fields.map fun p => (.str p.1, p.2.sorted), rest) := by
  induction fields with
  | nil => exact absurd rfl hne
  | cons p fields ih =>
    intro fuel rest hfuel
    obtain ⟨fuel, rfl⟩ : ∃ k, fuel = k + 1 := ⟨fuel - 1, by omega⟩
    obtain ⟨hv, hscan⟩ := hfields p List.mem_cons_self
    have hlength : (render p.2).length + 2 ≤ (renderField p).length := by
      simp only [renderField, renderString, List.length_append, List.length_cons]
      omega
    cases fields with
    | nil =>
      rw [List.map_singleton, joinComma, List.length_append] at hfuel
      have hclose : Delimited ('\x7d' :: rest) := by rintro c ⟨⟩; exact .inr (.inr rfl)
      rw [List.map_singleton, joinComma, scanFields_succ hv hscan hclose
        (by rw [List.length_append]; omega)]
      simp only [skipSpace_cons (c := '\x7d') rfl]
      rfl
    | cons q fields =>
      have htext : joinComma ((p :: q :: fields).map renderField) ++ '\x7d' :: rest =
          renderField p ++ ',' :: (joinComma ((q :: fields).map renderField) ++ '\x7d' :: rest) := by
        rw [List.map_cons, List.map_cons, joinComma, List.append_assoc, List.cons_append,
          ← List.map_cons]
        nofun
      rw [htext, List.length_append, List.length_cons] at hfuel
      have hcomma : Delimited (',' :: (joinComma ((q :: fields).map renderField) ++
          '\x7d' :: rest)) := by
        rintro c ⟨⟩
        exact .inl rfl
      have hrest := ih (by simp) (fun u hu => hfields u (List.mem_cons_of_mem _ hu)) fuel rest
        (by omega)
      have hskip : skipSpace (joinComma ((q :: fields).map renderField) ++ '\x7d' :: rest) =
          joinComma ((q :: fields).map renderField) ++ '\x7d' :: rest := by
        cases fields <;> exact skipSpace_cons (c := '"') rfl _
      rw [htext, scanFields_succ hv hscan hcomma (by
        rw [List.length_append, List.length_cons]; omega)]
      simp only [skipSpace_cons (c := ',') rfl]
      rw [hskip, hrest]
      rfl

/-- A value that starts like none of the three brackets is a scalar. -/
theorem scans_of_scalar {v : PyVal} (hsorted : v.sorted = v)
    (hhead : ∀ c, (render v).head? = some c → c ≠ '"' ∧ c ≠ '[' ∧ c ≠ '\x7b')
    (hne : render v ≠ [])
    (hscan : ∀ rest, Delimited rest → scanScalar (render v ++ rest) = some (v, rest)) : Scans v := by
  intro fuel rest hrest hfuel
  obtain ⟨fuel, rfl⟩ : ∃ k, fuel = k + 1 := ⟨fuel - 1, by omega⟩
  have hrender := hscan rest hrest
  obtain ⟨c, cs, hc⟩ := List.exists_cons_of_ne_nil hne
  obtain ⟨hquote, hbracket, hbrace⟩ := hhead c (by rw [hc]; rfl)
  rw [hc, List.cons_append] at hrender ⊢
  rw [scanValue, if_neg hquote, if_neg hbracket, if_neg hbrace, hrender, hsorted]

theorem scans_list {items : List PyVal} (hitems : ∀ v ∈ items, Recordable v ∧ Scans v) :
    Scans (.list items) := by
  intro fuel rest hrest hfuel
  obtain ⟨fuel, rfl⟩ : ∃ k, fuel = k + 1 := ⟨fuel - 1, by omega⟩
  have htext : render (.list items) ++ rest = '[' :: (joinComma (renderItems items) ++ ']' :: rest) := by
    rw [render]; simp
  rw [htext] at hfuel ⊢
  rw [List.length_cons] at hfuel
  rw [scanValue, PyVal.sorted]
  simp only [show ('[' : Char) ≠ '"' by decide, if_false, if_true]
  cases items with
  | nil =>
    rw [renderItems, joinComma, List.nil_append, skipSpace_cons rfl]
    rfl
  | cons v items =>
    have hscan := scanItems_render (List.cons_ne_nil v items) hitems fuel rest (by omega)
    obtain ⟨c, cs, hc, hspace, hclose, -⟩ := render_eq_cons (hitems v List.mem_cons_self).1
    obtain ⟨tail, htail⟩ : ∃ tail, joinComma (renderItems (v :: items)) ++ ']' :: rest = c :: tail := by
      cases items <;> simp only [renderItems, joinComma, hc, List.cons_append] <;> exact ⟨_, rfl⟩
    rw [htail] at hscan ⊢
    rw [skipSpace_cons hspace]
    split
    · next heq => cases heq; exact absurd rfl hclose
    · rw [hscan]
      rfl

/-- Different keys that are strings have different texts. -/
theorem nodup_texts {items : List (Key × PyVal)} (hnodup : (items.map (·.1)).Nodup)
    (hrecord : RecordableFields items) :
    ((items.map fun p => (p.1.text, p.2)).map (·.1)).Nodup := by
  have h : ((items.map (·.1)).map Key.text).Nodup := by
    refine List.Nodup.map_on (fun k hk k' hk' h => ?_) hnodup
    obtain ⟨p, hp, rfl⟩ := List.mem_map.1 hk
    obtain ⟨q, hq, rfl⟩ := List.mem_map.1 hk'
    obtain ⟨⟨name, hname⟩, -⟩ := recordableFields_iff.1 hrecord p hp
    obtain ⟨⟨name', hname'⟩, -⟩ := recordableFields_iff.1 hrecord q hq
    rw [hname, hname'] at h ⊢
    rw [show name = name' from h]
  rw [List.map_map] at h ⊢
  exact h

theorem nodup_textFields {items : List (Key × PyVal)} (hnodup : (items.map (·.1)).Nodup)
    (hrecord : RecordableFields items) : ((textFields items).map (·.1)).Nodup :=
  ((perm_sorted _).map Prod.fst).nodup_iff.2 (nodup_texts hnodup hrecord)

theorem scans_dict {items : List (Key × PyVal)} (hnodup : (items.map (·.1)).Nodup)
    (hrecord : RecordableFields items) (hitems : ∀ p ∈ items, Scans p.2) : Scans (.dict items) := by
  intro fuel rest hrest hfuel
  obtain ⟨fuel, rfl⟩ : ∃ k, fuel = k + 1 := ⟨fuel - 1, by omega⟩
  have hfields : ∀ p ∈ textFields items, Recordable p.2 ∧ Scans p.2 := by
    intro p hp
    obtain ⟨q, hq, rfl⟩ := mem_textFields hp
    exact ⟨(recordableFields_iff.1 hrecord q hq).2, hitems q hq⟩
  have htext : render (.dict items) ++ rest =
      '\x7b' :: (joinComma ((textFields items).map renderField) ++ '\x7d' :: rest) := by
    rw [render_dict, show (fun p : String × PyVal => renderString p.1 ++ ':' :: render p.2) =
      renderField from rfl]
    simp
  have hkeys : (((textFields items).map fun p => (Key.str p.1, p.2.sorted)).map (·.1)).Nodup := by
    have h := List.Nodup.map (f := Key.str) (fun _ _ h => Key.str.inj h)
      (nodup_textFields hnodup hrecord)
    rw [List.map_map] at h ⊢
    exact h
  rw [htext] at hfuel ⊢
  rw [List.length_cons] at hfuel
  rw [scanValue, sorted_dict]
  simp only [show ('\x7b' : Char) ≠ '"' by decide, show ('\x7b' : Char) ≠ '[' by decide, if_false,
    if_true]
  cases hempty : textFields items with
  | nil =>
    rw [List.map_nil, joinComma, List.nil_append, skipSpace_cons rfl]
    rfl
  | cons p fields =>
    have hscan := @scanFields_render (textFields items) (by rw [hempty]; simp) hfields fuel
      rest (by omega)
    obtain ⟨tail, htail⟩ : ∃ tail, joinComma ((p :: fields).map renderField) ++ '\x7d' :: rest =
        '"' :: tail := by
      cases fields <;> exact ⟨_, rfl⟩
    rw [hempty, htail] at hscan
    rw [hempty] at hkeys
    rw [htail, skipSpace_cons rfl]
    split
    · next heq => cases heq
    · rw [hscan]
      exact if_pos hkeys

mutual

/-- **The scanner reads what is rendered.** -/
theorem scans_render (v : PyVal) (hr : Recordable v) (hd : Decoded v) : Scans v := by
  match v with
  | .list items =>
    rw [Recordable] at hr
    rw [Decoded] at hd
    exact scans_list (scans_renderItems items hr hd)
  | .dict items =>
    rw [Recordable] at hr
    rw [Decoded] at hd
    exact scans_dict hd.1 hr (scans_renderFields items hr hd.2)
  | .null => exact scans_of_scalar rfl (by rintro c ⟨⟩; decide) (by decide) fun _ _ => rfl
  | .bool true => exact scans_of_scalar rfl (by rintro c ⟨⟩; decide) (by decide) fun _ _ => rfl
  | .bool false => exact scans_of_scalar rfl (by rintro c ⟨⟩; decide) (by decide) fun _ _ => rfl
  | .int i =>
    rw [Decoded] at hd
    obtain ⟨c, cs, hc, hhead⟩ := render_int i
    refine scans_of_scalar rfl ?_ (by rw [hc]; nofun) fun rest hrest => scanScalar_int hd hrest
    rintro d hd
    rw [hc] at hd
    obtain rfl : c = d := by simpa using hd
    rcases hhead with rfl | hdigit
    · decide
    · refine ⟨?_, ?_, ?_⟩ <;> (rintro rfl; cases hdigit)
  | .str s =>
    intro fuel rest _ hfuel
    obtain ⟨fuel, rfl⟩ : ∃ k, fuel = k + 1 := ⟨fuel - 1, by omega⟩
    have htext : render (.str s) ++ rest = '"' :: (s.toList.flatMap escapeChar ++ '"' :: rest) := by
      simp [render, renderString]
    rw [htext, scanValue, if_pos rfl, scanString_escaped]
    simp only [Option.map_some, textOf, keyOf_toNat]
    rfl
  | .float _ | .badStr _ | .other _ => exact absurd hr (by simp [Recordable])

theorem scans_renderItems (items : List PyVal) (hr : RecordableItems items)
    (hd : DecodedItems items) : ∀ v ∈ items, Recordable v ∧ Scans v := by
  match items with
  | [] => nofun
  | v :: rest =>
    rw [RecordableItems] at hr
    rw [DecodedItems] at hd
    exact List.forall_mem_cons.2 ⟨⟨hr.1, scans_render v hr.1 hd.1⟩, scans_renderItems rest hr.2 hd.2⟩

theorem scans_renderFields (items : List (Key × PyVal)) (hr : RecordableFields items)
    (hd : DecodedFields items) : ∀ p ∈ items, Scans p.2 := by
  match items with
  | [] => nofun
  | (k, v) :: rest =>
    rw [RecordableFields] at hr
    rw [DecodedFields] at hd
    exact List.forall_mem_cons.2 ⟨scans_render v hr.1.2 hd.1.2, scans_renderFields rest hr.2 hd.2⟩

end

/-- **Canonical JSON reads back** as the sorted value. -/
theorem loads_render {v : PyVal} (hr : Recordable v) (hd : Decoded v) :
    loads (render v) = some v.sorted := by
  obtain ⟨c, cs, hc, hspace, -, hmark⟩ := render_eq_cons hr
  have hscan := scans_render v hr hd (2 * (render v).length + 1) [] (by nofun) (by simp)
  rw [List.append_nil] at hscan
  rw [loads, if_neg (by rw [hc]; simpa using hmark)]
  have hskip : skipSpace (render v) = render v := by rw [hc, skipSpace_cons hspace]
  rw [hskip, hscan]
  rfl

theorem loadBytes_canonicalJson {depth : ℕ} {v : PyVal} {bytes : List UInt8} (hd : Decoded v)
    (h : canonicalJson depth v = .ok bytes) : loadBytes bytes = some v.sorted := by
  obtain ⟨hr, -, rfl⟩ := canonicalJson_eq_ok.1 h
  rw [loadBytes, decodeUtf8_utf8, Option.bind_some, loads_render hr hd]

/-- Values with one canonical JSON are the same up to the order of fields. -/
theorem sorted_of_canonicalJson {depth depth' : ℕ} {v w : PyVal} {bytes : List UInt8}
    (hv : Decoded v) (hw : Decoded w) (h : canonicalJson depth v = .ok bytes)
    (h' : canonicalJson depth' w = .ok bytes) : v.sorted = w.sorted := by
  have heq := (loadBytes_canonicalJson hv h).symm.trans (loadBytes_canonicalJson hw h')
  simpa using heq

/-! ## A field more -/

theorem insertSorted_comm_of_lt {α : Type} {p q : String × α} (h : p.1 < q.1)
    (l : List (String × α)) :
    insertSorted p (insertSorted q l) = insertSorted q (insertSorted p l) := by
  have hqp : ¬ q.1 < p.1 := String.lt_asymm h
  induction l with
  | nil => simp [insertSorted, h, hqp]
  | cons r l ih =>
    by_cases hrp : r.1 < p.1
    · have hrq : r.1 < q.1 := String.lt_trans hrp h
      simp only [insertSorted, hrp, hrq, if_true, ih]
    · by_cases hrq : r.1 < q.1
      · simp [insertSorted, hrp, hrq, h]
      · simp [insertSorted, hrp, hrq, h, hqp]

theorem insertSorted_comm {α : Type} {p q : String × α} (h : p.1 ≠ q.1) (l : List (String × α)) :
    insertSorted p (insertSorted q l) = insertSorted q (insertSorted p l) := by
  have hor : p.1 < q.1 ∨ q.1 < p.1 := by
    by_contra hno
    rw [not_or] at hno
    exact h (String.le_antisymm hno.2 hno.1)
  rcases hor with hlt | hlt
  · exact insertSorted_comm_of_lt hlt l
  · exact (insertSorted_comm_of_lt hlt l).symm

/-- The sorted list of items with different keys does not depend on their order. -/
theorem sorted_of_perm {α : Type} {l l' : List (String × α)} (hperm : l.Perm l')
    (hnodup : (l.map (·.1)).Nodup) : l.foldr insertSorted [] = l'.foldr insertSorted [] := by
  refine hperm.foldr_eq' (fun p hp q hq z => ?_) []
  by_cases h : p = q
  · rw [h]
  · refine insertSorted_comm (fun hkey => h ?_) z
    exact List.inj_on_of_nodup_map hnodup hp hq hkey.symm

/-- An object is the item of one key and the rest. -/
theorem perm_of_lookup {items : List (Key × PyVal)} {name : String} {v : PyVal}
    (hnodup : (items.map (·.1)).Nodup) (hv : lookup name items = some v) :
    items.Perm ((.str name, v) :: items.filter fun p => p.1 ≠ .str name) := by
  induction items with
  | nil => cases hv
  | cons p rest ih =>
    obtain ⟨k, u⟩ := p
    rw [List.map_cons, List.nodup_cons] at hnodup
    by_cases hk : k = .str name
    · subst hk
      obtain rfl : u = v := by simpa [lookup] using hv
      have hrest : (rest.filter fun p => p.1 ≠ .str name) = rest := by
        rw [List.filter_eq_self]
        intro q hq
        have : q.1 ≠ .str name := fun heq => hnodup.1 (List.mem_map.2 ⟨q, hq, heq⟩)
        simpa using this
      rw [List.filter_cons_of_neg (by simp), hrest]
    · have hrest : lookup name rest = some v := by
        simpa [lookup, List.find?_cons, hk] using hv
      rw [List.filter_cons_of_pos (by simpa using hk)]
      exact ((ih hnodup.2 hrest).cons _).trans (.swap _ _ _)

theorem textFields_of_lookup {items : List (Key × PyVal)} {name : String} {v : PyVal}
    (hnodup : (items.map (·.1)).Nodup) (hr : RecordableFields items)
    (hv : lookup name items = some v) :
    textFields items =
      insertSorted (name, v) (textFields (items.filter fun p => p.1 ≠ .str name)) := by
  have hperm := (perm_of_lookup hnodup hv).map fun p => (p.1.text, p.2)
  exact sorted_of_perm hperm (nodup_texts hnodup hr)

/-- Two objects with one value under a key are the same when the rest is. -/
theorem sorted_of_filter {items items' : List (Key × PyVal)} {name : String} {v : PyVal}
    (hnodup : (items.map (·.1)).Nodup) (hnodup' : (items'.map (·.1)).Nodup)
    (hr : RecordableFields items) (hr' : RecordableFields items')
    (hv : lookup name items = some v) (hv' : lookup name items' = some v)
    (h : (PyVal.dict (items.filter fun p => p.1 ≠ .str name)).sorted =
      (PyVal.dict (items'.filter fun p => p.1 ≠ .str name)).sorted) :
    (PyVal.dict items).sorted = (PyVal.dict items').sorted := by
  have hsplit : ∀ l : List (String × PyVal), (l.map fun p => (Key.str p.1, p.2.sorted)) =
      (l.map (Prod.map id PyVal.sorted)).map (Prod.map Key.str id) := fun l => by
    rw [List.map_map]
    rfl
  have hinj : Function.Injective (List.map (Prod.map Key.str (id : PyVal → PyVal))) :=
    List.map_injective_iff.2 fun p q hpq => by
      obtain ⟨hkey, hval⟩ := Prod.mk.inj hpq
      exact Prod.ext (Key.str.inj hkey) hval
  rw [sorted_dict, sorted_dict, PyVal.dict.injEq, hsplit, hsplit] at h ⊢
  rw [textFields_of_lookup hnodup hr hv, textFields_of_lookup hnodup' hr' hv', map_insertSorted,
    map_insertSorted, hinj h]

/-! ## Equality in Python -/

theorem find_of_mem {items : List (Key × PyVal)} (hnodup : (items.map (·.1)).Nodup)
    {p : Key × PyVal} (hp : p ∈ items) : items.find? (fun q => q.1 = p.1) = some p := by
  obtain ⟨q, hq⟩ := Option.isSome_iff_exists.1
    (List.find?_isSome.2 ⟨p, hp, by simp⟩ : (items.find? fun q => q.1 = p.1).isSome = true)
  have hkey : q.1 = p.1 := by simpa using List.find?_some hq
  rw [hq, List.inj_on_of_nodup_map hnodup (List.mem_of_find?_eq_some hq) hp hkey]

theorem pyEqFields_iff {d d' : List (Key × PyVal)} : pyEqFields d d' = true ↔
    ∀ p ∈ d, ∃ q, d'.find? (fun q => q.1 = p.1) = some q ∧ pyEq p.2 q.2 = true := by
  induction d with
  | nil => simp [pyEqFields]
  | cons p d ih =>
    obtain ⟨k, a⟩ := p
    rw [pyEqFields, Bool.and_eq_true, ih, List.forall_mem_cons]
    refine and_congr_left fun _ => ?_
    cases d'.find? fun q => q.1 = k <;> simp

theorem length_textFields (items : List (Key × PyVal)) : (textFields items).length = items.length := by
  rw [textFields, (perm_sorted _).length_eq, List.length_map]

mutual

/-- **Sorting the fields does not change a value** in Python's equality. -/
theorem pyEq_sorted (v : PyVal) (hr : Recordable v) (hd : Decoded v) : pyEq v.sorted v = true := by
  match v with
  | .null => rfl
  | .bool b => simp [PyVal.sorted, pyEq, PyVal.number]
  | .int i => simp [PyVal.sorted, pyEq, PyVal.number]
  | .str s => simp [PyVal.sorted, pyEq]
  | .list items =>
    rw [Recordable] at hr
    rw [Decoded] at hd
    rw [PyVal.sorted, pyEq]
    exact pyEqItems_sorted items hr hd
  | .dict items =>
    rw [Recordable] at hr
    rw [Decoded] at hd
    rw [sorted_dict, pyEq, Bool.and_eq_true, decide_eq_true_eq, pyEqFields_iff]
    refine ⟨by rw [List.length_map, length_textFields], fun p hp => ?_⟩
    obtain ⟨q, hq, rfl⟩ := List.mem_map.1 hp
    obtain ⟨r, hmem, rfl⟩ := mem_textFields hq
    obtain ⟨⟨name, hname⟩, -⟩ := recordableFields_iff.1 hr r hmem
    have hfind := find_of_mem hd.1 hmem
    refine ⟨r, ?_, pyEq_sortedFields items hr hd.2 r hmem⟩
    rw [hname] at hfind ⊢
    exact hfind
  | .float _ | .badStr _ | .other _ => exact absurd hr (by simp [Recordable])

theorem pyEqItems_sorted (items : List PyVal) (hr : RecordableItems items)
    (hd : DecodedItems items) :
    (decide ((sortedItems items).length = items.length) &&
      pyEqItems (sortedItems items) items) = true := by
  match items with
  | [] => rfl
  | v :: rest =>
    rw [RecordableItems] at hr
    rw [DecodedItems] at hd
    have hv := pyEq_sorted v hr.1 hd.1
    have hrest := pyEqItems_sorted rest hr.2 hd.2
    rw [Bool.and_eq_true, decide_eq_true_eq] at hrest ⊢
    rw [sortedItems, pyEqItems, hv, hrest.2, List.length_cons, List.length_cons, hrest.1]
    exact ⟨rfl, rfl⟩

theorem pyEq_sortedFields (items : List (Key × PyVal)) (hr : RecordableFields items)
    (hd : DecodedFields items) : ∀ p ∈ items, pyEq p.2.sorted p.2 = true := by
  match items with
  | [] => nofun
  | (k, v) :: rest =>
    rw [RecordableFields] at hr
    rw [DecodedFields] at hd
    exact List.forall_mem_cons.2 ⟨pyEq_sorted v hr.1.2 hd.1.2, pyEq_sortedFields rest hr.2 hd.2⟩

end

end TodDl.Provenance
