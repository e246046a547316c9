/-
  Provenance records — the bytes of the record files (`json.loads` with the
  `no_duplicates` hook, `bytes.splitlines`).

  `loads` reads a text as Python's JSON scanner does: it takes `NaN` and the
  infinities, rounds floats to binary64, keeps lone surrogates, joins escaped
  pairs, and fails on a duplicate key and on an integer with more than 4300 digits.
  `loadsDeep` tells where the scanner runs out of stack first: it opens more lists
  and objects inside one another than the stack holds.

  `decoded_loads`: what it returns is a JSON value without duplicate keys.
  `loadsDeep_eq`: on a text it reads, the scanner runs out of stack exactly when
  the value nests deeper.
-/
import Mathlib.Data.List.TakeWhile
import Mathlib.Data.String.Basic
import TodDl.Provenance.Verify

namespace TodDl.Provenance

/-! ## Floats -/

/-- `base ^ k` -/
def scale (base : ℕ) (k : ℤ) : ℚ :=
  if 0 ≤ k then ((base ^ k.toNat : ℕ) : ℚ) else mkRat 1 (base ^ (-k).toNat)

/-- The nearest integer, to the even one from the middle. -/
def roundEven (q : ℚ) : ℤ :=
  let below := q.floor
  if 2 * (q - below) < 1 then below
  else if 1 < 2 * (q - below) then below + 1
  else if below % 2 = 0 then below else below + 1

/-- The float nearest to a nonnegative number. -/
def toFloat (negative : Bool) (q : ℚ) : PyFloat :=
  if q = 0 then .finite 0
  else
    let guess : ℤ := (Nat.log2 q.num.toNat : ℤ) - Nat.log2 q.den
    let exponent := if scale 2 guess ≤ q then guess else guess - 1
    let unit := scale 2 ((if exponent < -1022 then -1022 else exponent) - 52)
    let rounded := roundEven (q / unit) * unit
    if scale 2 1024 ≤ rounded then .infinite negative
    else .finite (if negative then -rounded else rounded)

/-! ## Scanning -/

/-- The whitespace of JSON. -/
def isJsonSpace (c : Char) : Bool := c = ' ' || c = '\t' || c = '\n' || c = '\r'

def skipSpace (cs : List Char) : List Char := cs.dropWhile isJsonSpace

def isAsciiDigit (c : Char) : Bool := '0' ≤ c && c ≤ '9'

/-- A hexadecimal digit. -/
def hexDigitValue (c : Char) : Option ℕ :=
  if '0' ≤ c ∧ c ≤ '9' then some (c.toNat - 48)
  else if 'a' ≤ c ∧ c ≤ 'f' then some (c.toNat - 87)
  else if 'A' ≤ c ∧ c ≤ 'F' then some (c.toNat - 55)
  else none

/-- The code of `\uXXXX`. -/
def hex4 (a b c d : Char) : Option ℕ := do
  return 4096 * (← hexDigitValue a) + 256 * (← hexDigitValue b) + 16 * (← hexDigitValue c) +
    (← hexDigitValue d)

/-- The code of a one-letter escape. -/
def escapeCode (c : Char) : Option ℕ :=
  if c = '"' then some 34
  else if c = '\\' then some 92
  else if c = '/' then some 47
  else if c = 'b' then some 8
  else if c = 'f' then some 12
  else if c = 'n' then some 10
  else if c = 'r' then some 13
  else if c = 't' then some 9
  else none

/-- The codes of a string after its opening quote, escapes one by one. -/
def scanString : List Char → Option (List ℕ × List Char)
  | [] => none
  | c :: rest =>
    if c = '"' then some ([], rest)
    else if c = '\\' then
      match rest with
      | [] => none
      | e :: rest =>
        if e = 'u' then
          match rest with
          | a :: b :: c :: d :: rest => do
            let code ← hex4 a b c d
            let (codes, rest) ← scanString rest
            return (code :: codes, rest)
          | _ => none
        else do
          let code ← escapeCode e
          let (codes, rest) ← scanString rest
          return (code :: codes, rest)
    else if c.toNat < 32 then none
    else do
      let (codes, rest) ← scanString rest
      return (c.toNat :: codes, rest)

/-- A high surrogate with a low one after it is one character; any other stays alone. -/
def joinSurrogates : List ℕ → List ℕ
  | a :: b :: rest =>
    if 0xd800 ≤ a ∧ a < 0xdc00 ∧ 0xdc00 ≤ b ∧ b < 0xe000 then
      (0x10000 + 1024 * (a - 0xd800) + (b - 0xdc00)) :: joinSurrogates rest
    else a :: joinSurrogates (b :: rest)
  | codes => codes

/-- A string read as a key. -/
def keyOf (codes : List ℕ) : Key :=
  let codes := joinSurrogates codes
  if codes.all fun c => Nat.isValidChar c then .str (String.ofList (codes.map Char.ofNat))
  else .badStr codes

/-- A string read as a value. -/
def textOf (codes : List ℕ) : PyVal := (keyOf codes).toPy

/-- An optional sign. -/
def scanSign : List Char → Bool × List Char
  | '-' :: rest => (true, rest)
  | '+' :: rest => (false, rest)
  | cs => (false, cs)

/-- A run of digits, if there is one. -/
def scanDigits (cs : List Char) : Option (List Char × List Char) :=
  let digits := cs.takeWhile isAsciiDigit
  if digits.isEmpty then none else some (digits, cs.drop digits.length)

/-- The digits of the integer part: a zero stands alone. -/
def scanInteger : List Char → Option (List Char × List Char)
  | '0' :: rest => some (['0'], rest)
  | cs => scanDigits cs

/-- The digits after a point, if the point has any. -/
def scanFraction : List Char → Option (List Char × List Char)
  | '.' :: rest => scanDigits rest
  | _ => none

/-- The exponent, if the letter has digits. -/
def scanExponent : List Char → Option (ℤ × List Char)
  | c :: rest =>
    if c = 'e' ∨ c = 'E' then
      let (negative, rest) := scanSign rest
      (scanDigits rest).map fun (digits, rest) =>
        let n : ℤ := Nat.ofDigitChars 10 digits 0
        (if negative then -n else n, rest)
    else none
  | [] => none

/-- A number without its sign. -/
def scanMagnitude (negative : Bool) (cs : List Char) : Option (PyVal × List Char) := do
  let (whole, rest) ← scanInteger cs
  match scanFraction rest, scanExponent ((scanFraction rest).elim rest (·.2)) with
  | none, none =>
    if intMaxStrDigits < whole.length then none
    else
      let n : ℤ := Nat.ofDigitChars 10 whole 0
      some (.int (if negative then -n else n), rest)
  | fraction, exponent =>
    let digits := whole ++ fraction.elim [] (·.1)
    let shift : ℤ := (exponent.elim 0 (·.1)) - (fraction.elim [] (·.1)).length
    some (.float (toFloat negative ((Nat.ofDigitChars 10 digits 0 : ℕ) * scale 10 shift)),
      exponent.elim (fraction.elim rest (·.2)) (·.2))

/-- `NaN`, `Infinity`, `-Infinity`, `null`, `true` and `false`. -/
def constants : List (List Char × PyVal) :=
  [("null".toList, .null), ("true".toList, .bool true), ("false".toList, .bool false),
   ("NaN".toList, .float .nan), ("Infinity".toList, .float (.infinite false)),
   ("-Infinity".toList, .float (.infinite true))]

/-- A constant or a number. -/
def scanScalar (cs : List Char) : Option (PyVal × List Char) :=
  match constants.find? fun p => p.1.isPrefixOf cs with
  | some (name, v) => some (v, cs.drop name.length)
  | none =>
    match cs with
    | '-' :: rest => scanMagnitude true rest
    | _ => scanMagnitude false cs

mutual

/-- One value, without the space around it (`scan_fuel`: fuel for two calls a
    character is enough). -/
def scanValue : ℕ → List Char → Option (PyVal × List Char)
  | 0, _ => none
  | _, [] => none
  | fuel + 1, c :: rest =>
    if c = '"' then (scanString rest).map fun (codes, rest) => (textOf codes, rest)
    else if c = '[' then
      match skipSpace rest with
      | ']' :: rest => some (.list [], rest)
      | rest => (scanItems fuel rest).map fun (items, rest) => (.list items, rest)
    else if c = '\x7b' then
      match skipSpace rest with
      | '\x7d' :: rest => some (.dict [], rest)
      | rest => do
        let (items, rest) ← scanFields fuel rest
        -- the `no_duplicates` hook
        if (items.map (·.1)).Nodup then some (.dict items, rest) else none
    else scanScalar (c :: rest)

/-- The items of an array that has one, up to its bracket. -/
def scanItems : ℕ → List Char → Option (List PyVal × List Char)
  | 0, _ => none
  | fuel + 1, cs => do
    let (v, rest) ← scanValue fuel cs
    match skipSpace rest with
    | ',' :: rest => (scanItems fuel (skipSpace rest)).map fun (items, rest) => (v :: items, rest)
    | ']' :: rest => some ([v], rest)
    | _ => none

/-- The fields of an object that has one, up to its brace. -/
def scanFields : ℕ → List Char → Option (List (Key × PyVal) × List Char)
  | fuel + 1, '"' :: rest => do
    let (codes, rest) ← scanString rest
    match skipSpace rest with
    | ':' :: rest =>
      let (v, rest) ← scanValue fuel (skipSpace rest)
      match skipSpace rest with
      | ',' :: rest =>
        (scanFields fuel (skipSpace rest)).map fun (items, rest) => ((keyOf codes, v) :: items, rest)
      | '\x7d' :: rest => some ([(keyOf codes, v)], rest)
      | _ => none
    | _ => none
  | _, _ => none

end

/-- `json.loads(text, object_pairs_hook=no_duplicates)`; none when it raises. -/
def loads (text : List Char) : Option PyVal :=
  if text.head? = some '\ufeff' then none
  else
    match scanValue (2 * text.length + 1) (skipSpace text) with
    | some (v, rest) => if (skipSpace rest).isEmpty then some v else none
    | none => none

mutual

/-- The scanner opens more than `depth` brackets inside one another before it is
    through with the value. -/
def deepValue : ℕ → ℕ → List Char → Bool
  | _, 0, _ => false
  | _, _, [] => false
  | depth, fuel + 1, c :: rest =>
    if c = '[' then
      match depth with
      | 0 => true
      | depth + 1 =>
        match skipSpace rest with
        | ']' :: _ => false
        | rest => deepItems depth fuel rest
    else if c = '\x7b' then
      match depth with
      | 0 => true
      | depth + 1 =>
        match skipSpace rest with
        | '\x7d' :: _ => false
        | rest => deepFields depth fuel rest
    else false

/-- The same of the items of an array, one after the other. -/
def deepItems : ℕ → ℕ → List Char → Bool
  | _, 0, _ => false
  | depth, fuel + 1, cs =>
    deepValue depth fuel cs ||
      match scanValue fuel cs with
      | some (_, rest) =>
        match skipSpace rest with
        | ',' :: rest => deepItems depth fuel (skipSpace rest)
        | _ => false
      | none => false

/-- The same of the fields of an object. -/
def deepFields : ℕ → ℕ → List Char → Bool
  | depth, fuel + 1, '"' :: rest =>
    match scanString rest with
    | some (_, rest) =>
      match skipSpace rest with
      | ':' :: rest =>
        deepValue depth fuel (skipSpace rest) ||
          match scanValue fuel (skipSpace rest) with
          | some (_, rest) =>
            match skipSpace rest with
            | ',' :: rest => deepFields depth fuel (skipSpace rest)
            | _ => false
          | none => false
      | _ => false
    | none => false
  | _, _, _ => false

end

/-- `json.loads` raises `RecursionError` where the stack lets a text nest `depth` deep. -/
def loadsDeep (depth : ℕ) (text : List Char) : Bool :=
  text.head? ≠ some '\ufeff' && deepValue depth (2 * text.length + 1) (skipSpace text)

/-! ## Fuel -/

theorem length_skipSpace_le (cs : List Char) : (skipSpace cs).length ≤ cs.length :=
  (List.dropWhile_suffix _).length_le

theorem length_scanString {cs rest : List Char} {codes : List ℕ}
    (h : scanString cs = some (codes, rest)) : rest.length < cs.length := by
  fun_induction scanString cs generalizing codes with
  | case1 => cases h
  | case2 => cases h; simp
  | case3 => cases h
  | case4 a b c d tail _ ih =>
    simp only [bind, Option.bind_eq_some_iff] at h
    obtain ⟨_, -, ⟨_, _⟩, hp, h⟩ := h
    cases h
    exact Nat.lt_trans (ih hp) (by simp only [List.length_cons]; omega)
  | case5 => cases h
  | case6 e tail _ _ ih =>
    simp only [bind, Option.bind_eq_some_iff] at h
    obtain ⟨_, -, ⟨_, _⟩, hp, h⟩ := h
    cases h
    exact Nat.lt_trans (ih hp) (by simp only [List.length_cons]; omega)
  | case7 => cases h
  | case8 e tail _ _ _ ih =>
    simp only [bind, Option.bind_eq_some_iff] at h
    obtain ⟨⟨_, _⟩, hp, h⟩ := h
    cases h
    exact Nat.lt_trans (ih hp) (by simp only [List.length_cons]; omega)

theorem length_scanDigits {cs digits rest : List Char} (h : scanDigits cs = some (digits, rest)) :
    rest.length < cs.length := by
  simp only [scanDigits] at h
  split at h
  · cases h
  · next hne =>
    cases h
    have hle := (List.takeWhile_prefix (p := isAsciiDigit) (l := cs)).length_le
    have hpos : 0 < (cs.takeWhile isAsciiDigit).length := by
      rw [List.length_pos_iff]; simpa using hne
    rw [List.length_drop]
    omega

theorem length_scanMagnitude {negative : Bool} {cs rest : List Char} {v : PyVal}
    (h : scanMagnitude negative cs = some (v, rest)) : rest.length < cs.length := by
  have hwhole : ∀ {cs digits rest}, scanInteger cs = some (digits, rest) → rest.length < cs.length := by
    intro cs digits rest h
    unfold scanInteger at h
    split at h
    · cases h; simp
    · exact length_scanDigits h
  have hfraction : ∀ cs, ((scanFraction cs).elim cs (·.2)).length ≤ cs.length := by
    intro cs
    unfold scanFraction
    split
    · next tail =>
      cases h : scanDigits tail with
      | none => simp
      | some p =>
        have : p.2.length < tail.length := length_scanDigits h
        simp only [Option.elim_some, List.length_cons]; omega
    · simp
  have hexponent : ∀ cs, ((scanExponent cs).elim cs (·.2)).length ≤ cs.length := by
    intro cs
    cases cs with
    | nil => simp [scanExponent]
    | cons c tail =>
      have hsign : (scanSign tail).2.length ≤ tail.length := by
        unfold scanSign
        split <;> simp
      simp only [scanExponent]
      split
      · cases h : scanDigits (scanSign tail).2 with
        | none => simp
        | some p =>
          have := length_scanDigits h
          simp only [Option.map_some, Option.elim_some, List.length_cons]
          omega
      · simp
  simp only [scanMagnitude, bind, Option.bind_eq_some_iff] at h
  obtain ⟨⟨whole, tail⟩, hint, h⟩ := h
  split at h
  · split at h
    · cases h
    · cases h; exact hwhole hint
  · cases h
    exact Nat.lt_of_le_of_lt (Nat.le_trans (hexponent _) (hfraction tail)) (hwhole hint)

theorem length_scanScalar {cs rest : List Char} {v : PyVal} (h : scanScalar cs = some (v, rest)) :
    rest.length < cs.length := by
  unfold scanScalar at h
  split at h
  · next name w hfind =>
    cases h
    have hmem := List.mem_of_find?_eq_some hfind
    have hprefix : name <+: cs := by simpa using List.find?_some hfind
    have hpos : 0 < name.length := by
      simp only [constants, List.mem_cons, Prod.mk.injEq, List.not_mem_nil, or_false] at hmem
      rcases hmem with ⟨rfl, -⟩ | ⟨rfl, -⟩ | ⟨rfl, -⟩ | ⟨rfl, -⟩ | ⟨rfl, -⟩ | ⟨rfl, -⟩ <;> decide
    have := hprefix.length_le
    rw [List.length_drop]
    omega
  · split at h
    · exact Nat.lt_trans (length_scanMagnitude h) (Nat.lt_succ_self _)
    · exact length_scanMagnitude h

/-- Every scan takes a character at least. -/
theorem length_scan (fuel : ℕ) :
    (∀ cs v rest, scanValue fuel cs = some (v, rest) → rest.length < cs.length) ∧
    (∀ cs items rest, scanItems fuel cs = some (items, rest) → rest.length < cs.length) ∧
    (∀ cs items rest, scanFields fuel cs = some (items, rest) → rest.length < cs.length) := by
  induction fuel with
  | zero => exact ⟨fun _ _ _ h => by simp [scanValue] at h, fun _ _ _ h => by simp [scanItems] at h,
      fun _ _ _ h => by simp [scanFields] at h⟩
  | succ fuel ih =>
    obtain ⟨ihv, ihi, ihf⟩ := ih
    refine ⟨fun cs v rest h => ?_, fun cs items rest h => ?_, fun cs items rest h => ?_⟩
    · cases cs with
      | nil => simp [scanValue] at h
      | cons c cs =>
        have hskip := length_skipSpace_le cs
        rw [List.length_cons, Nat.lt_succ_iff]
        rw [scanValue] at h
        split at h
        · obtain ⟨⟨codes, tail⟩, hs, h⟩ := Option.map_eq_some_iff.1 h
          cases h
          exact Nat.le_of_lt (length_scanString hs)
        · split at h
          · split at h
            · next heq => cases h; rw [heq, List.length_cons] at hskip; omega
            · obtain ⟨⟨items, tail⟩, hitems, h⟩ := Option.map_eq_some_iff.1 h
              cases h
              exact Nat.le_of_lt (Nat.lt_of_lt_of_le (ihi _ _ _ hitems) hskip)
          · split at h
            · split at h
              · next heq => cases h; rw [heq, List.length_cons] at hskip; omega
              · simp only [bind, Option.bind_eq_some_iff] at h
                obtain ⟨⟨items, tail⟩, hitems, h⟩ := h
                split at h
                · cases h; exact Nat.le_of_lt (Nat.lt_of_lt_of_le (ihf _ _ _ hitems) hskip)
                · cases h
            · exact Nat.lt_succ_iff.1 (length_scanScalar h)
    · simp only [scanItems, bind, Option.bind_eq_some_iff] at h
      obtain ⟨⟨v, tail⟩, hv, h⟩ := h
      have hlt := ihv _ _ _ hv
      have hskip := length_skipSpace_le tail
      split at h
      · next more heq =>
        obtain ⟨⟨items, tail'⟩, hitems, h⟩ := Option.map_eq_some_iff.1 h
        cases h
        have hmore := length_skipSpace_le more
        have hlt' := ihi _ _ _ hitems
        rw [heq, List.length_cons] at hskip
        simp only at *
        omega
      · next heq => cases h; rw [heq, List.length_cons] at hskip; omega
      · cases h
    · unfold scanFields at h
      split at h
      · next k cs hk =>
        obtain rfl : fuel = k := Nat.succ.inj hk
        simp only [bind, Option.bind_eq_some_iff] at h
        obtain ⟨⟨codes, tail⟩, hs, h⟩ := h
        have hlt := length_scanString hs
        have hskip := length_skipSpace_le tail
        split at h
        · next after heq =>
          obtain ⟨⟨v, tail'⟩, hv, h⟩ := Option.bind_eq_some_iff.1 h
          have hlt' := ihv _ _ _ hv
          have hskip' := length_skipSpace_le after
          have hskip'' := length_skipSpace_le tail'
          rw [heq, List.length_cons] at hskip
          rw [List.length_cons]
          split at h
          · next more heq' =>
            obtain ⟨⟨items, tail''⟩, hitems, h⟩ := Option.map_eq_some_iff.1 h
            cases h
            have hmore := length_skipSpace_le more
            have hlt'' := ihf _ _ _ hitems
            rw [heq', List.length_cons] at hskip''
            simp only at *
            omega
          · next heq' => cases h; rw [heq', List.length_cons] at hskip''; simp only at *; omega
          · cases h
        · cases h
      · cases h
/-- **Enough fuel**: more than two calls a character make no difference. -/
theorem scan_fuel (fuel : ℕ) :
    (∀ cs : List Char, 2 * cs.length < fuel → scanValue (fuel + 1) cs = scanValue fuel cs) ∧
    (∀ cs : List Char, 2 * cs.length + 1 < fuel → scanItems (fuel + 1) cs = scanItems fuel cs) ∧
    (∀ cs : List Char, 2 * cs.length < fuel → scanFields (fuel + 1) cs = scanFields fuel cs) := by
  induction fuel with
  | zero => exact ⟨fun _ h => by omega, fun _ h => by omega, fun _ h => by omega⟩
  | succ fuel ih =>
    obtain ⟨ihv, ihi, ihf⟩ := ih
    refine ⟨fun cs h => ?_, fun cs h => ?_, fun cs h => ?_⟩
    · cases cs with
      | nil => simp [scanValue]
      | cons c cs =>
        have hskip := length_skipSpace_le cs
        rw [List.length_cons] at h
        have hitems := ihi (skipSpace cs) (by omega)
        have hfields := ihf (skipSpace cs) (by omega)
        rw [scanValue, scanValue]
        split
        · rfl
        · split
          · split
            · rfl
            · rw [hitems]
          · split
            · split
              · rfl
              · rw [hfields]
            · rfl
    · rw [scanItems, scanItems, ihv _ (by omega)]
      cases hv : scanValue fuel cs with
      | none => rfl
      | some p =>
        have hlt := (length_scan fuel).1 cs p.1 p.2 hv
        have hskip := length_skipSpace_le p.2
        simp only [bind, Option.bind_some]
        split
        · next more heq =>
          have hmore := length_skipSpace_le more
          rw [heq, List.length_cons] at hskip
          rw [ihi _ (by omega)]
        · rfl
        · rfl
    · match cs with
      | [] => simp [scanFields]
      | c :: cs =>
        by_cases hc : c = '"'
        · subst hc
          rw [List.length_cons] at h
          rw [scanFields, scanFields]
          cases hs : scanString cs with
          | none => rfl
          | some p =>
            have hlt : p.2.length < cs.length := length_scanString hs
            have hskip := length_skipSpace_le p.2
            simp only [bind, Option.bind_some]
            split
            · next after heq =>
              have hafter := length_skipSpace_le after
              rw [heq, List.length_cons] at hskip
              rw [ihv _ (by omega)]
              cases hv : scanValue fuel (skipSpace after) with
              | none => rfl
              | some q =>
                have hlt' := (length_scan fuel).1 _ q.1 q.2 hv
                have hskip' := length_skipSpace_le q.2
                simp only [Option.bind_some]
                split
                · next more heq' =>
                  have hmore := length_skipSpace_le more
                  rw [heq', List.length_cons] at hskip'
                  rw [ihf _ (by omega)]
                · rfl
                · rfl
            · rfl
        · unfold scanFields
          split <;> simp_all

theorem scanValue_eq {fuel more : ℕ} {cs : List Char} (h : 2 * cs.length < fuel) :
    scanValue (fuel + more) cs = scanValue fuel cs := by
  induction more with
  | zero => rfl
  | succ more ih => rw [← ih]; exact (scan_fuel (fuel + more)).1 cs (by omega)

/-- White space before a text makes no difference. -/
theorem loads_space {c : Char} (hc : isJsonSpace c = true) {text : List Char}
    (hmark : text.head? ≠ some '\ufeff') : loads (c :: text) = loads text := by
  have hne : (c :: text).head? ≠ some '\ufeff' := by
    rw [List.head?_cons]
    rintro ⟨⟩
    revert hc
    decide
  have hskip : skipSpace (c :: text) = skipSpace text := List.dropWhile_cons_of_pos hc
  have hshort : (skipSpace text).length ≤ text.length :=
    (List.dropWhile_sublist isJsonSpace).length_le
  have hfuel : 2 * (c :: text).length + 1 = (2 * text.length + 1) + 2 := by
    rw [List.length_cons]
    omega
  rw [loads, loads, if_neg hne, if_neg hmark, hskip, hfuel, scanValue_eq (by omega)]

/-! ## Decoded values -/

mutual

/-- A JSON value without duplicate keys and without longer integers than it reads. -/
def Decoded : PyVal → Prop
  | .list items => DecodedItems items
  | .dict items => (items.map (·.1)).Nodup ∧ DecodedFields items
  | .other _ => False
  | .int i => i.natAbs < 10 ^ intMaxStrDigits
  | .null | .bool _ | .float _ | .str _ | .badStr _ => True

def DecodedItems : List PyVal → Prop
  | [] => True
  | v :: rest => Decoded v ∧ DecodedItems rest

def DecodedFields : List (Key × PyVal) → Prop
  | [] => True
  | (k, v) :: rest => ((∀ repr, k ≠ .other repr) ∧ Decoded v) ∧ DecodedFields rest

end

mutual

def decDecoded : (v : PyVal) → Decidable (Decoded v)
  | .list items => decDecodedItems items
  | .dict items =>
    have := decDecodedFields items
    inferInstanceAs (Decidable ((items.map (·.1)).Nodup ∧ DecodedFields items))
  | .other _ => isFalse fun h => h
  | .int i => inferInstanceAs (Decidable (i.natAbs < 10 ^ intMaxStrDigits))
  | .null | .bool _ | .float _ | .str _ | .badStr _ => isTrue trivial

def decDecodedItems : (items : List PyVal) → Decidable (DecodedItems items)
  | [] => isTrue trivial
  | v :: rest =>
    have := decDecoded v
    have := decDecodedItems rest
    inferInstanceAs (Decidable (Decoded v ∧ DecodedItems rest))

def decDecodedFields : (items : List (Key × PyVal)) → Decidable (DecodedFields items)
  | [] => isTrue trivial
  | (k, v) :: rest =>
    have : Decidable (∀ repr, k ≠ .other repr) :=
      match k with
      | .str _ | .badStr _ => isTrue nofun
      | .other repr => isFalse fun h => h repr rfl
    have := decDecoded v
    have := decDecodedFields rest
    inferInstanceAs (Decidable (((∀ repr, k ≠ .other repr) ∧ Decoded v) ∧ DecodedFields rest))

end

instance : DecidablePred Decoded := decDecoded

theorem decoded_textOf (codes : List ℕ) : Decoded (textOf codes) := by
  simp only [textOf, keyOf]
  split <;> simp [Key.toPy, Decoded]

theorem keyOf_ne_other (codes : List ℕ) (repr : String) : keyOf codes ≠ .other repr := by
  simp only [keyOf]
  split <;> nofun

theorem ofDigitChars_lt {digits : List Char} (h : ∀ c ∈ digits, isAsciiDigit c = true) :
    Nat.ofDigitChars 10 digits 0 < 10 ^ digits.length := by
  induction digits with
  | nil => simp
  | cons c digits ih =>
    have hc : c.toNat - '0'.toNat < 10 := by
      have := h c List.mem_cons_self
      simp only [isAsciiDigit, Bool.and_eq_true, decide_eq_true_eq, Char.le_def,
        UInt32.le_iff_toNat_le] at this
      have h9 : '9'.val.toNat = 57 := rfl
      have h0 : '0'.toNat = 48 := rfl
      have hn : c.toNat = c.val.toNat := rfl
      omega
    have := ih fun d hd => h d (List.mem_cons_of_mem _ hd)
    rw [Nat.ofDigitChars_cons, Nat.ofDigitChars_eq_ofDigitChars_zero, List.length_cons, Nat.pow_succ,
      Nat.mul_zero, Nat.zero_add]
    have hmul := Nat.mul_le_mul_left (10 ^ digits.length) (Nat.le_of_lt_succ hc)
    omega

theorem digits_scanInteger {cs digits rest : List Char} (h : scanInteger cs = some (digits, rest)) :
    ∀ c ∈ digits, isAsciiDigit c = true := by
  unfold scanInteger at h
  split at h
  · cases h
    simp [isAsciiDigit]
  · simp only [scanDigits] at h
    split at h
    · cases h
    · cases h
      exact fun c hc => List.mem_takeWhile_imp hc

theorem decoded_scanScalar {cs rest : List Char} {v : PyVal} (h : scanScalar cs = some (v, rest)) :
    Decoded v := by
  have hmagnitude : ∀ {negative cs}, scanMagnitude negative cs = some (v, rest) → Decoded v := by
    intro negative cs h
    simp only [scanMagnitude, bind, Option.bind_eq_some_iff] at h
    obtain ⟨⟨whole, tail⟩, hwhole, h⟩ := h
    split at h
    · split at h
      · cases h
      · next hlength =>
        cases h
        have hlt := Nat.lt_of_lt_of_le (ofDigitChars_lt (digits_scanInteger hwhole))
          (Nat.pow_le_pow_right (by decide) (Nat.le_of_not_lt hlength))
        cases negative <;> simpa [Decoded] using hlt
    · cases h; rw [Decoded]; trivial
  unfold scanScalar at h
  split at h
  · next name w hfind =>
    obtain ⟨rfl, -⟩ : w = v ∧ _ := by simpa using h
    have hmem := List.mem_of_find?_eq_some hfind
    simp only [constants, List.mem_cons, Prod.mk.injEq, List.not_mem_nil, or_false] at hmem
    rcases hmem with ⟨-, rfl⟩ | ⟨-, rfl⟩ | ⟨-, rfl⟩ | ⟨-, rfl⟩ | ⟨-, rfl⟩ | ⟨-, rfl⟩ <;>
      simp [Decoded]
  · split at h
    · exact hmagnitude h
    · exact hmagnitude h

/-- **What the scanner returns** is a JSON value without duplicate keys. -/
theorem decoded_scan (fuel : ℕ) :
    (∀ cs v rest, scanValue fuel cs = some (v, rest) → Decoded v) ∧
    (∀ cs items rest, scanItems fuel cs = some (items, rest) → DecodedItems items) ∧
    (∀ cs items rest, scanFields fuel cs = some (items, rest) → DecodedFields items) := by
  induction fuel with
  | zero => exact ⟨fun _ _ _ h => by simp [scanValue] at h, fun _ _ _ h => by simp [scanItems] at h,
      fun _ _ _ h => by simp [scanFields] at h⟩
  | succ fuel ih =>
    obtain ⟨ihv, ihi, ihf⟩ := ih
    refine ⟨fun cs v rest h => ?_, fun cs items rest h => ?_, fun cs items rest h => ?_⟩
    · cases cs with
      | nil => simp [scanValue] at h
      | cons c cs =>
        rw [scanValue] at h
        split at h
        · obtain ⟨⟨codes, tail⟩, -, h⟩ := Option.map_eq_some_iff.1 h
          cases h
          exact decoded_textOf codes
        · split at h
          · split at h
            · cases h; rw [Decoded]; trivial
            · obtain ⟨⟨items, tail⟩, hitems, h⟩ := Option.map_eq_some_iff.1 h
              cases h
              rw [Decoded]
              exact ihi _ _ _ hitems
          · split at h
            · split at h
              · cases h; rw [Decoded]; exact ⟨by simp, trivial⟩
              · simp only [bind, Option.bind_eq_some_iff] at h
                obtain ⟨⟨items, tail⟩, hitems, h⟩ := h
                split at h
                · next hnodup => cases h; rw [Decoded]; exact ⟨hnodup, ihf _ _ _ hitems⟩
                · cases h
            · exact decoded_scanScalar h
    · simp only [scanItems, bind, Option.bind_eq_some_iff] at h
      obtain ⟨⟨v, tail⟩, hv, h⟩ := h
      split at h
      · obtain ⟨⟨items, tail⟩, hitems, h⟩ := Option.map_eq_some_iff.1 h
        cases h
        rw [DecodedItems]
        exact ⟨ihv _ _ _ hv, ihi _ _ _ hitems⟩
      · cases h; rw [DecodedItems]; exact ⟨ihv _ _ _ hv, trivial⟩
      · cases h
    · unfold scanFields at h
      split at h
      · next k _ hk =>
        obtain rfl : fuel = k := Nat.succ.inj hk
        simp only [bind, Option.bind_eq_some_iff] at h
        obtain ⟨⟨codes, tail⟩, -, h⟩ := h
        split at h
        · obtain ⟨⟨v, tail⟩, hv, h⟩ := Option.bind_eq_some_iff.1 h
          have hfield := And.intro (keyOf_ne_other codes) (ihv _ _ _ hv)
          split at h
          · obtain ⟨⟨items, tail⟩, hitems, h⟩ := Option.map_eq_some_iff.1 h
            cases h
            rw [DecodedFields]
            exact ⟨hfield, ihf _ _ _ hitems⟩
          · cases h; rw [DecodedFields]; exact ⟨hfield, trivial⟩
          · cases h
        · cases h
      · cases h

theorem decoded_loads {text : List Char} {v : PyVal} (h : loads text = some v) : Decoded v := by
  rw [loads] at h
  split at h
  · cases h
  · split at h
    · next hscan =>
      split at h
      · cases h; exact (decoded_scan _).1 _ _ _ hscan
      · cases h
    · cases h

/-! ## Nesting -/

theorem nesting_scanScalar {cs rest : List Char} {v : PyVal} (h : scanScalar cs = some (v, rest)) :
    nesting v = 0 := by
  have hmagnitude : ∀ {negative cs}, scanMagnitude negative cs = some (v, rest) → nesting v = 0 := by
    intro negative cs h
    simp only [scanMagnitude, bind, Option.bind_eq_some_iff] at h
    obtain ⟨⟨whole, tail⟩, -, h⟩ := h
    split at h
    · split at h
      · cases h
      · cases h; rfl
    · cases h; rfl
  unfold scanScalar at h
  split at h
  · next name w hfind =>
    obtain ⟨rfl, -⟩ : w = v ∧ _ := by simpa using h
    have hmem := List.mem_of_find?_eq_some hfind
    simp only [constants, List.mem_cons, Prod.mk.injEq, List.not_mem_nil, or_false] at hmem
    rcases hmem with ⟨-, rfl⟩ | ⟨-, rfl⟩ | ⟨-, rfl⟩ | ⟨-, rfl⟩ | ⟨-, rfl⟩ | ⟨-, rfl⟩ <;> rfl
  · split at h
    · exact hmagnitude h
    · exact hmagnitude h

theorem nesting_textOf (codes : List ℕ) : nesting (textOf codes) = 0 := by
  simp only [textOf, keyOf]
  split <;> rfl

/-- **What the scanner reads** exhausts a stack exactly when it nests deeper. -/
theorem deep_scan (fuel : ℕ) : ∀ depth,
    (∀ cs v rest, scanValue fuel cs = some (v, rest) →
      deepValue depth fuel cs = decide (depth < nesting v)) ∧
    (∀ cs items rest, scanItems fuel cs = some (items, rest) →
      deepItems depth fuel cs = decide (depth < nestingItems items)) ∧
    (∀ cs items rest, scanFields fuel cs = some (items, rest) →
      deepFields depth fuel cs = decide (depth < nestingFields items)) := by
  induction fuel with
  | zero => exact fun _ => ⟨fun _ _ _ h => by simp [scanValue] at h,
      fun _ _ _ h => by simp [scanItems] at h, fun _ _ _ h => by simp [scanFields] at h⟩
  | succ fuel ih =>
    intro depth
    refine ⟨fun cs v rest h => ?_, fun cs items rest h => ?_, fun cs items rest h => ?_⟩
    · cases cs with
      | nil => simp [scanValue] at h
      | cons c cs =>
        rw [scanValue] at h
        rw [deepValue.eq_def]
        dsimp only
        split at h
        · next hquote =>
          obtain ⟨⟨codes, tail⟩, -, h⟩ := Option.map_eq_some_iff.1 h
          cases h
          rw [nesting_textOf, if_neg (by rw [hquote]; decide), if_neg (by rw [hquote]; decide)]
          rfl
        · split at h
          · next hlist =>
            rw [if_pos hlist]
            split at h
            · cases h
              cases depth with
              | zero => rfl
              | succ depth => simp [nesting, nestingItems]
            · obtain ⟨⟨items, tail⟩, hitems, h⟩ := Option.map_eq_some_iff.1 h
              cases h
              cases depth with
              | zero => simp [nesting]
              | succ depth => simpa [nesting] using (ih depth).2.1 _ _ _ hitems
          · next hlist =>
            rw [if_neg hlist]
            split at h
            · next hdict =>
              rw [if_pos hdict]
              split at h
              · cases h
                cases depth with
                | zero => rfl
                | succ depth => simp [nesting, nestingFields]
              · simp only [bind, Option.bind_eq_some_iff] at h
                obtain ⟨⟨items, tail⟩, hitems, h⟩ := h
                split at h
                · cases h
                  cases depth with
                  | zero => simp [nesting]
                  | succ depth => simpa [nesting] using (ih depth).2.2 _ _ _ hitems
                · cases h
            · next hdict =>
              rw [if_neg hdict, nesting_scanScalar h]
              rfl
    · simp only [scanItems, bind, Option.bind_eq_some_iff] at h
      obtain ⟨⟨v, tail⟩, hv, h⟩ := h
      rw [deepItems, (ih depth).1 _ _ _ hv, hv]
      split at h
      · next more heq =>
        obtain ⟨⟨items, tail⟩, hitems, h⟩ := Option.map_eq_some_iff.1 h
        cases h
        simp only [heq, (ih depth).2.1 _ _ _ hitems, nestingItems, lt_max_iff, Bool.decide_or]
      · next heq => cases h; simp [heq, nestingItems]
      · cases h
    · unfold scanFields at h
      split at h
      · next k cs hk =>
        obtain rfl : fuel = k := Nat.succ.inj hk
        simp only [bind, Option.bind_eq_some_iff] at h
        obtain ⟨⟨codes, tail⟩, hs, h⟩ := h
        rw [deepFields, hs]
        split at h
        · next after heq =>
          obtain ⟨⟨v, tail⟩, hv, h⟩ := Option.bind_eq_some_iff.1 h
          simp only [heq]
          rw [(ih depth).1 _ _ _ hv, hv]
          split at h
          · next more heq' =>
            obtain ⟨⟨items, tail⟩, hitems, h⟩ := Option.map_eq_some_iff.1 h
            cases h
            simp only [heq', (ih depth).2.2 _ _ _ hitems, nestingFields, lt_max_iff, Bool.decide_or]
          · next heq' => cases h; simp [heq', nestingFields]
          · cases h
        · cases h
      · cases h

theorem loadsDeep_eq {depth : ℕ} {text : List Char} {v : PyVal} (h : loads text = some v) :
    loadsDeep depth text = decide (depth < nesting v) := by
  rw [loads] at h
  split at h
  · cases h
  · next hmark =>
    split at h
    · next hscan =>
      split at h
      · cases h
        rw [loadsDeep, (deep_scan _ depth).1 _ _ _ hscan, decide_eq_true hmark, Bool.true_and]
      · cases h
    · cases h

/-! ## The files -/

/-- `bytes.decode("utf-8")` -/
def decodeUtf8 (bytes : List UInt8) : Option (List Char) :=
  bytes.toByteArray.utf8Decode?.map Array.toList

/-- Decoding undoes encoding. -/
theorem decodeUtf8_utf8 (text : List Char) : decodeUtf8 (utf8 text) = some text := by
  have hbytes : (utf8 text).toByteArray = text.utf8Encode := rfl
  rw [decodeUtf8, hbytes, List.utf8Decode?_utf8Encode]
  rfl

/-- A line or a file as a JSON value. -/
def loadBytes (bytes : List UInt8) : Option PyVal := (decodeUtf8 bytes).bind loads

/-- `json.loads` runs out of stack on a line or a file. -/
def bytesDeep (depth : ℕ) (bytes : List UInt8) : Bool :=
  (decodeUtf8 bytes).any (loadsDeep depth)

theorem bytesDeep_eq {depth : ℕ} {bytes : List UInt8} {v : PyVal} (h : loadBytes bytes = some v) :
    bytesDeep depth bytes = decide (depth < nesting v) := by
  obtain ⟨text, htext, h⟩ := Option.bind_eq_some_iff.1 h
  rw [bytesDeep, htext, Option.any_some, loadsDeep_eq h]

theorem loadBytes_utf8 (text : List Char) : loadBytes (utf8 text) = loads text := by
  rw [loadBytes, decodeUtf8_utf8, Option.bind_some]

/-- `bytes.splitlines()`; `line` is the part of the current line before the rest. -/
def splitlines : List UInt8 → List UInt8 → List (List UInt8)
  | line, [] => if line.isEmpty then [] else [line]
  | line, b :: rest =>
    if b = 10 then line :: splitlines [] rest
    else if b = 13 then
      match rest with
      | 10 :: rest => line :: splitlines [] rest
      | rest => line :: splitlines [] rest
    else splitlines (line ++ [b]) rest

/-- The files of a record directory; none for a file that is not there. -/
structure RecordFiles where
  runId : String
  sessionId : String
  schema : Option (List UInt8)
  summary : Option (List UInt8)
  events : Option (List UInt8)
  stack : Stack := {}

theorem decoded_loadBytes {bytes : List UInt8} {v : PyVal} (h : loadBytes bytes = some v) :
    Decoded v := by
  obtain ⟨text, -, h⟩ := Option.bind_eq_some_iff.1 h
  exact decoded_loads h

/-- What the verifier decodes. -/
def RecordFiles.read (f : RecordFiles) : RecordSet where
  runId := f.runId
  sessionId := f.sessionId
  schemaBytes := f.schema
  schema := f.schema.bind loadBytes
  summary := f.summary.bind loadBytes
  lines := f.events.map fun bytes => (splitlines [] bytes).map loadBytes
  stack := f.stack
  deepFile := f.schema.any (bytesDeep f.stack.file) || f.summary.any (bytesDeep f.stack.file)
  deepLine := f.events.bind fun bytes => (splitlines [] bytes).findIdx? (bytesDeep f.stack.line)

end TodDl.Provenance
