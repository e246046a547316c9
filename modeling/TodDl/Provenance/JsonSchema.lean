/-
  Provenance records — JSON Schema's own meaning of the record schema, and how far the
  checker follows it (provenance.py).

  * `SchemaValid v s`: the value is valid by Draft 2020-12, for the keywords the schema
    uses.  Equality keeps booleans from numbers, and patterns are read as ECMA ones.
  * `mend v s`: the value with everything put right that the checker overlooks.
    `valid_iff_mend`: the checker accepts exactly what is valid after that.
  * `schemaErrors_iff_schemaValid`: the checker and the standard agree on a value unless
    it is one that only becomes valid by mending.
-/
import Mathlib.Data.List.TakeWhile
import TodDl.Provenance.Decode
import TodDl.Provenance.Valid

namespace TodDl.Provenance

/-! ## Digits -/

/-- The zero of the digits a character is one of. -/
def digitZero (c : Char) : Option ℕ := digitZeros.find? fun z => z ≤ c.toNat && c.toNat < z + 10

/-- The ASCII digit of the same value; every other character stays. -/
def asciiDigit (c : Char) : Char :=
  match digitZero c with
  | some z => Char.ofNat (0x30 + (c.toNat - z))
  | none => c

section
variable {c d : Char}

theorem isAsciiDigit_iff : isAsciiDigit c = true ↔ 48 ≤ c.toNat ∧ c.toNat ≤ 57 := by
  simp only [isAsciiDigit, Bool.and_eq_true, decide_eq_true_eq, Char.le_def,
    UInt32.le_iff_toNat_le]
  rfl

theorem isDigit_iff : isDigit c = true ↔ ∃ z, digitZero c = some z := by
  rw [← Option.isSome_iff_exists, digitZero, List.find?_isSome, isDigit, List.any_eq_true]

theorem digitZero_range {z : ℕ} (h : digitZero c = some z) : z ≤ c.toNat ∧ c.toNat < z + 10 := by
  simpa using List.find?_some h

theorem digitZero_ascii (h : isAsciiDigit c = true) : digitZero c = some 48 := by
  obtain ⟨hlow, hhigh⟩ := isAsciiDigit_iff.1 h
  have hin : (decide (0x30 ≤ c.toNat) && decide (c.toNat < 0x30 + 10)) = true := by
    simp only [Bool.and_eq_true, decide_eq_true_eq]
    omega
  rw [digitZero, digitZeros, List.find?_cons, hin]

/-- Among the ASCII characters there are no other digits. -/
theorem isDigit_of_ascii (h : c.toNat < 128) : isDigit c = isAsciiDigit c := by
  rw [Bool.eq_iff_iff]
  constructor
  · intro hd
    obtain ⟨z, hz⟩ := isDigit_iff.1 hd
    obtain ⟨hlow, hhigh⟩ := digitZero_range hz
    have hmem : z ∈ digitZeros := List.mem_of_find?_eq_some hz
    have hall : ∀ z ∈ digitZeros, z = 48 ∨ 128 ≤ z := by decide
    refine isAsciiDigit_iff.2 ?_
    rcases hall z hmem with rfl | hz
    · omega
    · omega
  · exact fun ha => isDigit_iff.2 ⟨_, digitZero_ascii ha⟩

theorem asciiDigit_of_not (h : isDigit c = false) : asciiDigit c = c := by
  cases hz : digitZero c with
  | none => rw [asciiDigit, hz]
  | some z => rw [isDigit_iff.2 ⟨z, hz⟩] at h; cases h

theorem asciiDigit_ascii (h : c.toNat < 128) : asciiDigit c = c := by
  cases hd : isAsciiDigit c with
  | false => exact asciiDigit_of_not ((isDigit_of_ascii h).trans hd)
  | true =>
    have hlow := (isAsciiDigit_iff.1 hd).1
    rw [asciiDigit, digitZero_ascii hd]
    dsimp only
    rw [Nat.add_sub_cancel' hlow]
    exact Char.ofNat_toNat c

/-- The mended character is an ASCII digit, if the character is any digit. -/
theorem isAsciiDigit_asciiDigit : isAsciiDigit (asciiDigit c) = isDigit c := by
  cases hd : isDigit c with
  | false =>
    rw [asciiDigit_of_not hd]
    cases ha : isAsciiDigit c with
    | false => rfl
    | true => rw [isDigit_iff.2 ⟨_, digitZero_ascii ha⟩] at hd; cases hd
  | true =>
    obtain ⟨z, hz⟩ := isDigit_iff.1 hd
    obtain ⟨hlow, hhigh⟩ := digitZero_range hz
    have hall : ∀ n < 10, isAsciiDigit (Char.ofNat (0x30 + n)) = true := by decide
    rw [asciiDigit, hz]
    exact hall _ (by omega)

/-- A character that is no digit is told as before. -/
theorem asciiDigit_eq_iff (hd : isDigit d = false) : asciiDigit c = d ↔ c = d := by
  cases hc : isDigit c with
  | false => rw [asciiDigit_of_not hc]
  | true =>
    constructor
    · rintro rfl
      have hascii : isAsciiDigit (asciiDigit c) = true := isAsciiDigit_asciiDigit.trans hc
      rw [isDigit_iff.2 ⟨_, digitZero_ascii hascii⟩] at hd
      cases hd
    · rintro rfl
      rw [hc] at hd
      cases hd

end

/-! ## Patterns of ECMA -/

/-- `(\.\d+)?Z` up to the end of the text, for a class of digits. -/
def fractionMatch (digit : Char → Bool) : List Char → Bool
  | ['Z'] => true
  | '.' :: c :: cs => digit c && (cs.dropWhile digit) = ['Z']
  | _ => false

/-- The pattern of a time, for a class of digits. -/
def timestampMatch (digit : Char → Bool) (cs : List Char) : Bool :=
  (takeClass digit 4 cs >>= takeChar '-' >>= takeClass digit 2 >>= takeChar '-' >>=
    takeClass digit 2 >>= takeChar 'T' >>= takeClass digit 2 >>= takeChar ':' >>=
    takeClass digit 2 >>= takeChar ':' >>= takeClass digit 2).any (fractionMatch digit)

/-- The text matches the anchored ECMA pattern: `$` is the end of the text, and `\d` an
    ASCII digit. -/
def Pattern.ecmaMatch (p : Pattern) (cs : List Char) : Bool :=
  match p with
  | .timestamp => timestampMatch isAsciiDigit cs
  | p => p.fullMatch cs

theorem fullMatch_timestamp (cs : List Char) :
    Pattern.timestamp.fullMatch cs = timestampMatch isDigit cs := by
  have htail : timestampTail = fractionMatch isDigit := by
    funext cs
    unfold timestampTail fractionMatch
    rfl
  simp only [Pattern.fullMatch, timestampMatch, htail]

theorem fractionMatch_iff {digit : Char → Bool} {cs : List Char} : fractionMatch digit cs = true ↔
    cs = ['Z'] ∨ ∃ c more, cs = '.' :: c :: more ∧ digit c = true ∧
      more.dropWhile digit = ['Z'] := by
  unfold fractionMatch
  split
  · simp
  · simp
  · next hz hdot =>
    constructor
    · exact nofun
    · rintro (h | ⟨c, more, h, -⟩)
      · exact absurd h hz
      · exact absurd h (hdot c more)

/-- The text without a final newline. -/
def withoutNewline (cs : List Char) : List Char :=
  if cs.getLast? = some '\n' then cs.dropLast else cs

/-- What the checker reads in a text that a pattern is for. -/
def Pattern.mend (p : Pattern) (cs : List Char) : List Char :=
  match p with
  | .timestamp => (withoutNewline cs).map asciiDigit
  | _ => withoutNewline cs

/-! ## Which characters a match reads -/

section
variable {P : Char → Prop} {p : Char → Bool} {n : ℕ} {cs : List Char} {d : Char}
  {o : Option (List Char)} {f : List Char → Option (List Char)}

/-- What is read from `cs` up to the rest `o` has a property, if the rest has it. -/
def ReadsOnly (P : Char → Prop) (cs : List Char) (o : Option (List Char)) : Prop :=
  ∀ rest, o = some rest → (∀ c ∈ rest, P c) → ∀ c ∈ cs, P c

theorem readsOnly_takeClass (hp : ∀ c, p c = true → P c) : ReadsOnly P cs (takeClass p n cs) := by
  intro rest
  induction n generalizing cs with
  | zero =>
    intro h
    obtain rfl : cs = rest := Option.some.inj h
    exact id
  | succ n ih =>
    intro h hrest
    cases cs with
    | nil => cases h
    | cons c cs =>
      rw [takeClass] at h
      split at h
      · next hc => exact List.forall_mem_cons.2 ⟨hp c hc, ih h hrest⟩
      · cases h

theorem readsOnly_takeChar (hd : P d) : ReadsOnly P cs (takeChar d cs) := by
  intro rest h hrest
  cases cs with
  | nil => cases h
  | cons c cs =>
    rw [takeChar] at h
    split at h
    · next hc =>
      obtain rfl : cs = rest := Option.some.inj h
      exact List.forall_mem_cons.2 ⟨hc ▸ hd, hrest⟩
    · cases h

theorem ReadsOnly.bind (h : ReadsOnly P cs o) (hf : ∀ cs, ReadsOnly P cs (f cs)) :
    ReadsOnly P cs (o >>= f) := by
  intro rest hrest hP
  obtain ⟨cs', ho, hcs'⟩ := Option.bind_eq_some_iff.1 hrest
  exact h cs' ho (hf cs' rest hcs' hP)

end

section
variable {P : Char → Prop} {digit : Char → Bool} {cs : List Char}

theorem forall_timestampMatch (hdigit : ∀ c, digit c = true → P c)
    (hmarks : ∀ d ∈ ['-', 'T', ':', '.', 'Z'], P d) (h : timestampMatch digit cs = true) :
    ∀ c ∈ cs, P c := by
  obtain ⟨rest, hrest, htail⟩ := (Option.any_eq_true _ _).1 h
  have hclass : ∀ {n : ℕ} (cs : List Char), ReadsOnly P cs (takeClass digit n cs) :=
    fun _ => readsOnly_takeClass hdigit
  have hmark : ∀ {d : Char}, d ∈ ['-', 'T', ':', '.', 'Z'] →
      ∀ cs : List Char, ReadsOnly P cs (takeChar d cs) :=
    fun hd _ => readsOnly_takeChar (hmarks _ hd)
  refine ((hclass cs).bind (hmark (by simp)) |>.bind hclass |>.bind (hmark (by simp)) |>.bind hclass
    |>.bind (hmark (by simp)) |>.bind hclass |>.bind (hmark (by simp)) |>.bind hclass
    |>.bind (hmark (by simp)) |>.bind hclass) rest hrest ?_
  obtain rfl | ⟨c, more, rfl, hc, hmore⟩ := fractionMatch_iff.1 htail
  · exact List.forall_mem_singleton.2 (hmarks _ (by simp))
  · refine List.forall_mem_cons.2 ⟨hmarks _ (by simp), List.forall_mem_cons.2
      ⟨hdigit _ hc, fun d hd => ?_⟩⟩
    rw [← List.takeWhile_append_dropWhile (p := digit) (l := more), hmore] at hd
    rcases List.mem_append.1 hd with hd | hd
    · exact hdigit _ (List.mem_takeWhile_imp hd)
    · exact List.forall_mem_singleton.2 (hmarks _ (by simp)) d hd

/-- The other patterns name all their characters. -/
theorem forall_fullMatch {p : Pattern} (hp : p ≠ .timestamp) (hhex : ∀ c, isHex c = true → P c)
    (hbase : ∀ c, isBase64Url c = true → P c) (hdash : P '-') (h : p.fullMatch cs = true) :
    ∀ c ∈ cs, P c := by
  have hclass : ∀ {n : ℕ} (cs : List Char), ReadsOnly P cs (takeClass isHex n cs) :=
    fun _ => readsOnly_takeClass hhex
  have hmark : ∀ cs : List Char, ReadsOnly P cs (takeChar '-' cs) := fun _ =>
    readsOnly_takeChar hdash
  cases p with
  | hex => exact hclass cs [] (of_decide_eq_true h) (by simp)
  | signature => exact readsOnly_takeClass hbase [] (of_decide_eq_true h) (by simp)
  | uuid =>
    exact ((hclass cs).bind hmark |>.bind hclass |>.bind hmark |>.bind hclass |>.bind hmark
      |>.bind hclass |>.bind hmark |>.bind hclass) [] (of_decide_eq_true h) (by simp)
  | timestamp => exact absurd rfl hp

end

/-- A plain ASCII character. -/
def IsPlain (c : Char) : Prop := c.toNat < 128 ∧ c ≠ '\n'

instance (c : Char) : Decidable (IsPlain c) := inferInstanceAs (Decidable (_ ∧ _))

section
variable {a b c : Char} {cs : List Char} {p : Pattern}

theorem isPlain_of_between (ha : 10 < a.toNat) (hb : b.toNat < 128) (hac : a ≤ c) (hcb : c ≤ b) :
    IsPlain c := by
  have hlow : a.toNat ≤ c.toNat := hac
  have hhigh : c.toNat ≤ b.toNat := hcb
  refine ⟨by omega, ?_⟩
  rintro rfl
  have hten : '\n'.toNat = 10 := rfl
  omega

theorem isPlain_hex (h : isHex c = true) : IsPlain c := by
  simp only [isHex, Bool.or_eq_true, Bool.and_eq_true, decide_eq_true_eq] at h
  rcases h with ⟨hlow, hhigh⟩ | ⟨hlow, hhigh⟩ <;>
    exact isPlain_of_between (by decide) (by decide) hlow hhigh

theorem isPlain_base64Url (h : isBase64Url c = true) : IsPlain c := by
  simp only [isBase64Url, Bool.or_eq_true, Bool.and_eq_true, decide_eq_true_eq] at h
  rcases h with (((⟨hlow, hhigh⟩ | ⟨hlow, hhigh⟩) | ⟨hlow, hhigh⟩) | rfl) | rfl
  · exact isPlain_of_between (by decide) (by decide) hlow hhigh
  · exact isPlain_of_between (by decide) (by decide) hlow hhigh
  · exact isPlain_of_between (by decide) (by decide) hlow hhigh
  · decide
  · decide

theorem isPlain_of_ecmaMatch (h : p.ecmaMatch cs = true) : ∀ c ∈ cs, IsPlain c := by
  cases p with
  | timestamp =>
    refine forall_timestampMatch (fun c hc => ?_) (by simp [IsPlain]) h
    simp only [isAsciiDigit, Bool.and_eq_true, decide_eq_true_eq] at hc
    exact isPlain_of_between (by decide) (by decide) hc.1 hc.2
  | hex =>
    exact forall_fullMatch (p := .hex) (by decide) (fun _ => isPlain_hex)
      (fun _ => isPlain_base64Url) (by decide) h
  | uuid =>
    exact forall_fullMatch (p := .uuid) (by decide) (fun _ => isPlain_hex)
      (fun _ => isPlain_base64Url) (by decide) h
  | signature =>
    exact forall_fullMatch (p := .signature) (by decide) (fun _ => isPlain_hex)
      (fun _ => isPlain_base64Url) (by decide) h

/-- No match of the checker's patterns reads a newline. -/
theorem ne_newline_of_fullMatch (h : p.fullMatch cs = true) : ∀ c ∈ cs, c ≠ '\n' := by
  cases p with
  | timestamp =>
    rw [fullMatch_timestamp] at h
    refine forall_timestampMatch (fun c hc => ?_) (by simp) h
    rintro rfl
    exact absurd hc (by decide)
  | _ =>
    exact forall_fullMatch (by decide) (fun c hc => (isPlain_hex hc).2)
      (fun c hc => (isPlain_base64Url hc).2) (by decide) h

/-! ## What the checker reads -/

theorem takeClass_map (n : ℕ) (cs : List Char) : takeClass isAsciiDigit n (cs.map asciiDigit) =
    (takeClass isDigit n cs).map (List.map asciiDigit) := by
  induction n generalizing cs with
  | zero => rfl
  | succ n ih =>
    cases cs with
    | nil => rfl
    | cons c cs =>
      rw [List.map_cons, takeClass, takeClass, isAsciiDigit_asciiDigit, ih]
      split <;> rfl

theorem takeChar_map {d : Char} (hd : isDigit d = false) (cs : List Char) :
    takeChar d (cs.map asciiDigit) = (takeChar d cs).map (List.map asciiDigit) := by
  cases cs with
  | nil => rfl
  | cons c cs =>
    rw [List.map_cons, takeChar, takeChar]
    simp only [asciiDigit_eq_iff hd]
    split <;> rfl

theorem fractionMatch_map (cs : List Char) :
    fractionMatch isAsciiDigit (cs.map asciiDigit) = fractionMatch isDigit cs := by
  have hdigits : isAsciiDigit ∘ asciiDigit = isDigit := funext fun _ => isAsciiDigit_asciiDigit
  have hz : ∀ cs : List Char, cs.map asciiDigit = ['Z'] ↔ cs = ['Z'] := by
    intro cs
    rw [List.map_eq_singleton_iff]
    constructor
    · rintro ⟨c, rfl, hc⟩
      rw [(asciiDigit_eq_iff (by decide)).1 hc]
    · rintro rfl
      exact ⟨'Z', rfl, by decide⟩
  rw [Bool.eq_iff_iff, fractionMatch_iff, fractionMatch_iff, hz]
  refine or_congr_right ⟨?_, ?_⟩
  · rintro ⟨c, more, h, hc, hmore⟩
    obtain ⟨dot, cs, rfl, hdot, h⟩ := List.map_eq_cons_iff.1 h
    obtain ⟨c, cs, rfl, rfl, rfl⟩ := List.map_eq_cons_iff.1 h
    rw [List.dropWhile_map, hdigits, hz] at hmore
    rw [isAsciiDigit_asciiDigit] at hc
    exact ⟨c, cs, by rw [(asciiDigit_eq_iff (by decide)).1 hdot], hc, hmore⟩
  · rintro ⟨c, more, rfl, hc, hmore⟩
    refine ⟨asciiDigit c, more.map asciiDigit, ?_, isAsciiDigit_asciiDigit.trans hc, ?_⟩
    · rw [List.map_cons, List.map_cons, (asciiDigit_eq_iff (d := '.') (by decide)).2 rfl]
    · rw [List.dropWhile_map, hdigits, hz]
      exact hmore

/-- With mended digits the two classes of digits match the same texts. -/
theorem timestampMatch_map (cs : List Char) :
    timestampMatch isAsciiDigit (cs.map asciiDigit) = timestampMatch isDigit cs := by
  have hthen : ∀ (o : Option (List Char)) {f g : List Char → Option (List Char)},
      (∀ cs, f (cs.map asciiDigit) = (g cs).map (List.map asciiDigit)) →
      (o.map (List.map asciiDigit) >>= f) = (o >>= g).map (List.map asciiDigit) := by
    intro o f g hfg
    cases o with
    | none => rfl
    | some cs => exact hfg cs
  have htail : (fun cs => fractionMatch isAsciiDigit (List.map asciiDigit cs)) =
      fractionMatch isDigit := funext fractionMatch_map
  unfold timestampMatch
  rw [takeClass_map, hthen _ (takeChar_map (by decide)), hthen _ (takeClass_map 2),
    hthen _ (takeChar_map (by decide)), hthen _ (takeClass_map 2),
    hthen _ (takeChar_map (by decide)), hthen _ (takeClass_map 2),
    hthen _ (takeChar_map (by decide)), hthen _ (takeClass_map 2),
    hthen _ (takeChar_map (by decide)), hthen _ (takeClass_map 2), Option.any_map, htail]

/-- What is left of a text when a final newline is taken away. -/
theorem search_withoutNewline (p : Pattern) (t : String) :
    p.search t = p.fullMatch (withoutNewline t.toList) := by
  unfold Pattern.search withoutNewline
  split
  · next hlast =>
    have hmem : '\n' ∈ t.toList := List.mem_of_getLast? hlast
    have hfull : p.fullMatch t.toList = false := by
      cases h : p.fullMatch t.toList with
      | false => rfl
      | true => exact absurd rfl (ne_newline_of_fullMatch h _ hmem)
    rw [hfull, decide_eq_true hlast, Bool.false_or, Bool.true_and]
  · next hlast => rw [decide_eq_false hlast, Bool.false_and, Bool.or_false]

/-- **The checker searches in the mended text.** -/
theorem search_eq_mend (p : Pattern) (t : String) :
    p.search t = p.ecmaMatch (p.mend t.toList) := by
  rw [search_withoutNewline]
  cases p with
  | timestamp => exact (fullMatch_timestamp _).trans (timestampMatch_map _).symm
  | _ => rfl

/-- A text that matches needs no mending. -/
theorem mend_of_ecmaMatch (h : p.ecmaMatch cs = true) : p.mend cs = cs := by
  have hplain := isPlain_of_ecmaMatch h
  have hwhole : withoutNewline cs = cs := by
    unfold withoutNewline
    split
    · next hlast => exact absurd rfl (hplain _ (List.mem_of_getLast? hlast)).2
    · rfl
  cases p with
  | timestamp =>
    rw [Pattern.mend, hwhole]
    exact (List.map_congr_left fun c hc => asciiDigit_ascii (hplain c hc).1).trans
      (List.map_id cs)
  | _ => exact hwhole

end

/-! ## Validity -/

mutual

/-- Equality of JSON values: objects whatever the order of their members, and a boolean is
    no number. -/
def jsonEq : PyVal → PyVal → Bool
  | .null, .null => true
  | .bool a, .bool b => a = b
  | .int i, .int j => i = j
  | .str s, .str t => s = t
  | .badStr s, .badStr t => s = t
  | .list l, .list l' => l.length = l'.length && jsonEqItems l l'
  | .dict d, .dict d' => d.length = d'.length && jsonEqMembers d d'
  | _, _ => false

def jsonEqItems : List PyVal → List PyVal → Bool
  | a :: l, b :: l' => jsonEq a b && jsonEqItems l l'
  | _, _ => true

def jsonEqMembers : List (Key × PyVal) → List (Key × PyVal) → Bool
  | (k, a) :: d, d' =>
    (match d'.find? fun p => p.1 = k with
      | some p => jsonEq a p.2
      | none => false) && jsonEqMembers d d'
  | [], _ => true

end

/-- The type of a JSON value; every number here is an integer. -/
def jsonType : PyVal → Option TypeName
  | .null => some .null
  | .bool _ => some .boolean
  | .int _ => some .integer
  | .str _ | .badStr _ => some .string
  | .list _ => some .array
  | .dict _ => some .object
  | .float _ | .other _ => none

/-- The assertions of Draft 2020-12 on the value as a whole. -/
structure Schema.Asserts (s : Schema) (v : PyVal) : Prop where
  const : ∀ c, s.const = some c → jsonEq v c = true
  enum : ∀ vs, s.enum = some vs → ∃ c ∈ vs, jsonEq v c = true
  types : ∀ ts, s.types = some ts → ∃ t ∈ ts, jsonType v = some t
  pattern : ∀ p t, s.pattern = some p → v = .str t → p.ecmaMatch t.toList = true
  /-- no pattern here matches a lone surrogate -/
  surrogate : ∀ codes, s.pattern ≠ none → v ≠ .badStr codes
  minLength : ∀ n codes, s.minLength = some n → v.codes = some codes → n ≤ codes.length
  minimum : ∀ low i, s.minimum = some low → v = .int i → low ≤ i
  maximum : ∀ high i, s.maximum = some high → v = .int i → i ≤ high

mutual

/-- **The value is valid against the schema**, by Draft 2020-12. -/
def SchemaValid (v : PyVal) (s : Schema) : Prop :=
  s.Asserts v ∧
    match v with
    | .dict items =>
      (∀ name ∈ s.required, Key.str name ∈ items.map (·.1)) ∧ SchemaValidMembers items s
    | .list items => ∀ t, s.items = some t → SchemaValidItems items t
    | _ => True

/-- `properties` first, and `additionalProperties` for the other members. -/
def SchemaValidMembers (items : List (Key × PyVal)) (s : Schema) : Prop :=
  match items with
  | [] => True
  | (k, v) :: rest =>
    (match s.property k with
      | some t => SchemaValid v t
      | none =>
        match s.extra with
        | .forbidden => False
        | .schema t => SchemaValid v t
        | .allowed => True) ∧ SchemaValidMembers rest s

def SchemaValidItems (items : List PyVal) (t : Schema) : Prop :=
  match items with
  | [] => True
  | v :: rest => SchemaValid v t ∧ SchemaValidItems rest t

end

mutual

/-- The value with what the checker overlooks put right, where the schema looks: the
    number for a boolean that equals it, no newline after a text with a pattern, and its
    digits in ASCII. -/
def mend (v : PyVal) (s : Schema) : PyVal :=
  match v with
  | .bool b =>
    match s.const with
    | some c => if pyEq (.bool b) c then c else .bool b
    | none => .bool b
  | .str t =>
    match s.pattern with
    | some p => .str (String.ofList (p.mend t.toList))
    | none => .str t
  | .list items =>
    match s.items with
    | some t => .list (mendItems items t)
    | none => .list items
  | .dict items => .dict (mendMembers items s)
  | .null => .null
  | .int i => .int i
  | .float x => .float x
  | .badStr codes => .badStr codes
  | .other type => .other type

def mendMembers (items : List (Key × PyVal)) (s : Schema) : List (Key × PyVal) :=
  match items with
  | [] => []
  | (k, v) :: rest =>
    (k, match s.property k with
      | some t => mend v t
      | none =>
        match s.extra with
        | .schema t => mend v t
        | .forbidden | .allowed => v) :: mendMembers rest s

def mendItems (items : List PyVal) (t : Schema) : List PyVal :=
  match items with
  | [] => []
  | v :: rest => mend v t :: mendItems rest t

end

/-! ## The schemas of the document -/

/-- The (sub)schemas of `schema_document()`. -/
inductive Occurs : Schema → Prop
  | event {p : String × List (String × Schema)} : p ∈ eventFieldRules → Occurs (eventBranch p.1 p.2)
  | summary : Occurs summarySchema
  | property {s t : Schema} {name : String} : Occurs s → (name, t) ∈ s.properties → Occurs t
  | extra {s t : Schema} : Occurs s → s.extra = .schema t → Occurs t
  | items {s t : Schema} : Occurs s → s.items = some t → Occurs t

/-- Which keywords stand together in the document: a constant stands alone, it and the
    values of an enumeration are no booleans, and a pattern comes without a length. -/
structure Schema.Regular (s : Schema) : Prop where
  const : ∀ c, s.const = some c → s = .ofConst c ∧ ((∃ i, c = .int i) ∨ ∃ t, c = .str t)
  enum : ∀ vs, s.enum = some vs → ∀ c ∈ vs, ∃ t, c = .str t
  pattern : ∀ p, s.pattern = some p → s.enum = none ∧ s.minLength = none

def isText : PyVal → Bool
  | .str _ => true
  | _ => false

/-- No constant, or nothing else. -/
def Schema.plainConst : Schema → Bool
  | .mk none _ _ _ _ _ _ _ _ _ _ => true
  | .mk (some (.int _)) none none none none none none [] [] .allowed none => true
  | .mk (some (.str _)) none none none none none none [] [] .allowed none => true
  | _ => false

mutual

/-- The schema and all below it are regular. -/
def Schema.regular (s : Schema) : Bool :=
  s.plainConst && (s.enum.getD []).all isText &&
    (s.pattern.isNone || (s.enum.isNone && s.minLength.isNone)) &&
    match s with
    | .mk _ _ _ _ _ _ _ _ properties extra items =>
      propertiesRegular properties &&
        (match extra with
          | .schema t => t.regular
          | _ => true) &&
        match items with
        | some t => t.regular
        | none => true

def propertiesRegular : List (String × Schema) → Bool
  | [] => true
  | (_, s) :: rest => s.regular && propertiesRegular rest

end

section
variable {s : Schema}

theorem propertiesRegular_iff {ps : List (String × Schema)} :
    propertiesRegular ps = true ↔ ∀ p ∈ ps, p.2.regular = true := by
  induction ps with
  | nil => simp [propertiesRegular]
  | cons p ps ih => rw [propertiesRegular, Bool.and_eq_true, ih, List.forall_mem_cons]

theorem Schema.regular_iff : s.regular = true ↔
    (s.plainConst = true ∧ (s.enum.getD []).all isText = true ∧
      (s.pattern.isNone = true ∨ s.enum.isNone = true ∧ s.minLength.isNone = true)) ∧
    (∀ p ∈ s.properties, p.2.regular = true) ∧
    (∀ t, s.extra = .schema t → t.regular = true) ∧ ∀ t, s.items = some t → t.regular = true := by
  obtain ⟨c, e, ts, p, len, low, high, req, props, extra, items⟩ := s
  rw [Schema.regular.eq_def]
  simp only [Bool.and_eq_true, Bool.or_eq_true, propertiesRegular_iff, Schema.properties,
    Schema.extra, Schema.items, and_assoc]
  cases extra <;> cases items <;> simp

theorem Schema.Regular.of_regular (h : s.regular = true) : s.Regular := by
  obtain ⟨⟨hconst, henum, hpattern⟩, -⟩ := Schema.regular_iff.1 h
  refine ⟨fun c hc => ?_, fun vs hvs c hmem => ?_, fun p hp => ?_⟩
  · unfold Schema.plainConst at hconst
    split at hconst
    · cases hc
    · obtain rfl := Option.some.inj hc
      exact ⟨rfl, .inl ⟨_, rfl⟩⟩
    · obtain rfl := Option.some.inj hc
      exact ⟨rfl, .inr ⟨_, rfl⟩⟩
    · cases hconst
  · rw [hvs, Option.getD_some] at henum
    have htext := List.all_eq_true.1 henum c hmem
    cases c <;> simp [isText] at htext ⊢
  · rw [hp] at hpattern
    simpa using hpattern

/-- **Every schema of the document is regular.** -/
theorem Occurs.regular (h : Occurs s) : s.regular = true := by
  have hevents : ∀ p ∈ eventFieldRules, (eventBranch p.1 p.2).regular = true := by decide
  induction h with
  | event hp => exact hevents _ hp
  | summary => decide
  | property _ hmem ih => exact (Schema.regular_iff.1 ih).2.1 _ hmem
  | extra _ heq ih => exact (Schema.regular_iff.1 ih).2.2.1 _ heq
  | items _ heq ih => exact (Schema.regular_iff.1 ih).2.2.2 _ heq

/-- The schema of a member occurs, too. -/
theorem Schema.regular_property {k : Key} {t : Schema} (h : s.regular = true)
    (ht : s.property k = some t) : t.regular = true := by
  unfold Schema.property at ht
  split at ht
  · obtain ⟨p, hp, rfl⟩ := Option.map_eq_some_iff.1 ht
    exact (Schema.regular_iff.1 h).2.1 p (List.mem_of_find?_eq_some hp)
  · cases ht

end

/-! ## JSON values -/

mutual

/-- A JSON value whose numbers are integers. -/
def IsJson : PyVal → Prop
  | .float _ | .other _ => False
  | .list items => IsJsonItems items
  | .dict items => IsJsonMembers items
  | .null | .bool _ | .int _ | .str _ | .badStr _ => True

def IsJsonItems : List PyVal → Prop
  | [] => True
  | v :: rest => IsJson v ∧ IsJsonItems rest

def IsJsonMembers : List (Key × PyVal) → Prop
  | [] => True
  | (k, v) :: rest => ((∀ repr, k ≠ .other repr) ∧ IsJson v) ∧ IsJsonMembers rest

end

/-- A JSON value without floats. -/
structure JsonValue where
  value : PyVal
  isJson : IsJson value

/-- A schema of the document. -/
structure Subschema where
  schema : Schema
  occurs : Occurs schema

section
variable {v v' : PyVal} {s : Schema}

theorem jsonEq_str {t : String} : jsonEq v (.str t) = true ↔ v = .str t := by
  cases v <;> simp [jsonEq]

theorem jsonEq_int {i : ℤ} : jsonEq v (.int i) = true ↔ v = .int i := by
  cases v <;> simp [jsonEq]

theorem pyEq_int {i : ℤ} (hbool : ∀ b, v ≠ .bool b) (hfloat : ∀ x, v ≠ .float x) :
    pyEq v (.int i) = true ↔ v = .int i := by
  cases v with
  | int j => rw [int_pyEq, PyVal.int.injEq]
  | bool b => exact absurd rfl (hbool b)
  | float x => exact absurd rfl (hfloat x)
  | _ => simp [pyEq, PyVal.number]

theorem hasType_iff {t : TypeName} (hv : IsJson v) :
    hasType v t = true ↔ jsonType v = some t := by
  cases v with
  | float x => exact absurd hv id
  | other type => exact absurd hv id
  | _ => cases t <;> simp [hasType, jsonType]

/-- No array and no object. -/
def isScalar : PyVal → Bool
  | .list _ | .dict _ => false
  | _ => true

/-- What two values must have in common for the checker to judge the one as the standard
    judges the other. -/
structure Judged (s : Schema) (v v' : PyVal) : Prop where
  const : ∀ c, s.const = some c → (pyEq v c = true ↔ jsonEq v' c = true)
  type : ∀ t, hasType v t = true ↔ jsonType v' = some t
  text : s.pattern = none → v.codes = v'.codes ∧ ∀ t, v = .str t ↔ v' = .str t
  pattern : ∀ p, s.pattern = some p →
    (((∀ codes, v ≠ .badStr codes) ∧ ∀ t, v = .str t → p.search t = true) ↔
      ((∀ codes, v' ≠ .badStr codes) ∧ ∀ t, v' = .str t → p.ecmaMatch t.toList = true))
  int : ∀ i, v = .int i ↔ v' = .int i

/-- **The keywords that look at the value as a whole.** -/
theorem Judged.admits_iff (h : Judged s v v') (hs : s.Regular) : s.Admits v ↔ s.Asserts v' := by
  have henum : ∀ vs, s.enum = some vs → (pyMem v vs = true ↔ ∃ c ∈ vs, jsonEq v' c = true) := by
    intro vs hvs
    have hnone : s.pattern = none := by
      cases hp : s.pattern with
      | none => rfl
      | some p => rw [(hs.pattern p hp).1] at hvs; cases hvs
    rw [pyMem, List.any_eq_true]
    refine exists_congr fun c => and_congr_right fun hmem => ?_
    obtain ⟨t, rfl⟩ := hs.enum vs hvs c hmem
    rw [pyEq_str, jsonEq_str]
    exact (h.text hnone).2 t
  have hlength : (∀ codes, v.codes = some codes → s.minLength.getD 0 ≤ codes.length) ↔
      ∀ n codes, s.minLength = some n → v'.codes = some codes → n ≤ codes.length := by
    cases hn : s.minLength with
    | none => simp
    | some n =>
      have hnone : s.pattern = none := by
        cases hp : s.pattern with
        | none => rfl
        | some p => rw [(hs.pattern p hp).2] at hn; cases hn
      rw [(h.text hnone).1, Option.getD_some]
      refine ⟨fun hall m codes hm hc => ?_, fun hall codes => hall n codes rfl⟩
      obtain rfl := Option.some.inj hm
      exact hall codes hc
  constructor
  · intro ha
    have hpattern : ∀ p, s.pattern = some p → _ := fun p hp => (h.pattern p hp).1 (ha.pattern p hp)
    exact
      { const := fun c hc => (h.const c hc).1 (ha.const c hc)
        enum := fun vs hvs => (henum vs hvs).1 (ha.enum vs hvs)
        types := fun ts hts => by
          obtain ⟨t, hmem, ht⟩ := ha.types ts hts
          exact ⟨t, hmem, (h.type t).1 ht⟩
        pattern := fun p t hp ht => (hpattern p hp).2 t ht
        surrogate := fun codes hp => by
          obtain ⟨p, hp⟩ := Option.ne_none_iff_exists'.1 hp
          exact (hpattern p hp).1 codes
        minLength := hlength.1 ha.minLength
        minimum := fun low i hlow hi => ha.minimum low i hlow ((h.int i).2 hi)
        maximum := fun high i hhigh hi => ha.maximum high i hhigh ((h.int i).2 hi) }
  · intro ha
    exact
      { const := fun c hc => (h.const c hc).2 (ha.const c hc)
        enum := fun vs hvs => (henum vs hvs).2 (ha.enum vs hvs)
        types := fun ts hts => by
          obtain ⟨t, hmem, ht⟩ := ha.types ts hts
          exact ⟨t, hmem, (h.type t).2 ht⟩
        pattern := fun p hp => (h.pattern p hp).2
          ⟨fun codes => ha.surrogate codes (by rw [hp]; exact Option.some_ne_none p),
            fun t ht => ha.pattern p t hp ht⟩
        minLength := hlength.2 ha.minLength
        minimum := fun low i hlow hi => ha.minimum low i hlow ((h.int i).1 hi)
        maximum := fun high i hhigh hi => ha.maximum high i hhigh ((h.int i).1 hi) }

/-- Neither a boolean nor a text: nothing is overlooked. -/
theorem judged_of_same (hs : s.Regular) (hv : IsJson v) (htype : jsonType v = jsonType v')
    (hint : ∀ i, v = .int i ↔ v' = .int i) (hbool : ∀ b, v ≠ .bool b)
    (hstr : ∀ t, v ≠ .str t) (hstr' : ∀ t, v' ≠ .str t) (hcodes : v.codes = v'.codes)
    (hbad : ∀ codes, v = .badStr codes ↔ v' = .badStr codes) : Judged s v v' := by
  have hfloat : ∀ x, v ≠ .float x := by
    rintro x rfl
    exact hv
  refine ⟨fun c hc => ?_, fun t => ?_, fun _ => ⟨hcodes, fun t => ?_⟩, fun p _ => ?_, hint⟩
  · obtain ⟨-, ⟨i, rfl⟩ | ⟨t, rfl⟩⟩ := hs.const c hc
    · rw [pyEq_int hbool hfloat, jsonEq_int]
      exact hint i
    · rw [pyEq_str, jsonEq_str]
      exact iff_of_false (hstr t) (hstr' t)
  · rw [hasType_iff hv, htype]
  · exact iff_of_false (hstr t) (hstr' t)
  · refine and_congr (forall_congr' fun codes => not_congr (hbad codes)) ?_
    exact iff_of_true (fun t ht => absurd ht (hstr t)) (fun t ht => absurd ht (hstr' t))

/-- A text, with its pattern. -/
theorem judged_str (hs : s.Regular) (t : String) : Judged s (.str t) (mend (.str t) s) := by
  cases hp : s.pattern with
  | none =>
    have hmend : mend (.str t) s = .str t := by rw [mend, hp]
    rw [hmend]
    refine ⟨fun c hc => ?_, fun _ => hasType_iff (v := .str t) trivial,
      fun _ => ⟨rfl, fun _ => Iff.rfl⟩, fun p h => absurd (hp.symm.trans h) nofun,
      fun _ => Iff.rfl⟩
    obtain ⟨-, ⟨i, rfl⟩ | ⟨t', rfl⟩⟩ := hs.const c hc
    · rw [pyEq_int (by simp) (by simp), jsonEq_int]
    · rw [pyEq_str, jsonEq_str]
  | some p =>
    have hmend : mend (.str t) s = .str (String.ofList (p.mend t.toList)) := by rw [mend, hp]
    rw [hmend]
    refine ⟨fun c hc => ?_, fun t => ?_, fun h => absurd (hp.symm.trans h) nofun,
      fun p' h => ?_, fun i => iff_of_false nofun nofun⟩
    · rw [(hs.const c hc).1] at hp
      cases hp
    · cases t <;> simp [hasType, jsonType]
    · obtain rfl : p = p' := Option.some.inj (hp.symm.trans h)
      refine and_congr (iff_of_true nofun nofun) ?_
      simp only [PyVal.str.injEq, forall_eq', String.toList_ofList]
      rw [search_eq_mend]

/-- A boolean, with its constant. -/
theorem admits_bool (hs : s.Regular) (b : Bool) :
    s.Admits (.bool b) ↔ s.Asserts (mend (.bool b) s) := by
  cases hc : s.const with
  | none =>
    have hmend : mend (.bool b) s = .bool b := by rw [mend, hc]
    rw [hmend]
    have hjudged : Judged s (.bool b) (.bool b) :=
      ⟨fun c h => absurd (hc.symm.trans h) nofun, fun _ => hasType_iff (v := .bool b) trivial,
        fun _ => ⟨rfl, fun _ => Iff.rfl⟩,
        fun p _ => iff_of_true ⟨nofun, nofun⟩ ⟨nofun, nofun⟩, fun _ => Iff.rfl⟩
    exact hjudged.admits_iff hs
  | some c =>
    obtain ⟨heq, hkind⟩ := hs.const c hc
    have hadmits : s.Admits (.bool b) ↔ pyEq (.bool b) c = true := by
      rw [heq]
      refine ⟨fun h => h.const c rfl, fun h => ?_⟩
      exact ⟨fun c' hc' => Option.some.inj hc' ▸ h, nofun, nofun, nofun, nofun, nofun, nofun⟩
    have hasserts : ∀ v, s.Asserts v ↔ jsonEq v c = true := by
      intro v
      rw [heq]
      refine ⟨fun h => h.const c rfl, fun h => ?_⟩
      exact ⟨fun c' hc' => Option.some.inj hc' ▸ h, nofun, nofun, nofun,
        fun _ h => absurd rfl h, nofun, nofun, nofun⟩
    have hmend : mend (.bool b) s = if pyEq (.bool b) c then c else .bool b := by rw [mend, hc]
    rw [hadmits, hasserts, hmend]
    split
    · next h =>
      refine iff_of_true h ?_
      rcases hkind with ⟨i, rfl⟩ | ⟨t, rfl⟩
      · exact jsonEq_int.2 rfl
      · exact jsonEq_str.2 rfl
    · next h =>
      refine iff_of_false h ?_
      rcases hkind with ⟨i, rfl⟩ | ⟨t, rfl⟩
      · rw [jsonEq_int]
        exact nofun
      · rw [jsonEq_str]
        exact nofun

theorem valid_scalar (hv : isScalar v = true) : Valid v s ↔ s.Admits v := by
  cases v with
  | list items => cases hv
  | dict items => cases hv
  | _ => simp only [Valid, and_true]

theorem schemaValid_scalar (hv : isScalar v = true) : SchemaValid v s ↔ s.Asserts v := by
  cases v with
  | list items => cases hv
  | dict items => cases hv
  | _ => simp only [SchemaValid, and_true]

/-- A mended boolean is no array and no object. -/
theorem mend_bool (hs : s.Regular) (b : Bool) : mend (.bool b) s = .bool b ∨
    (∃ i, mend (.bool b) s = .int i) ∨ ∃ t, mend (.bool b) s = .str t := by
  rw [mend]
  cases hc : s.const with
  | none => exact .inl rfl
  | some c =>
    dsimp only
    split
    · exact .inr (hs.const c hc).2
    · exact .inl rfl

/-- Mending keeps the names of the members. -/
theorem mendMembers_names (items : List (Key × PyVal)) (s : Schema) :
    (mendMembers items s).map (·.1) = items.map (·.1) := by
  induction items with
  | nil => rfl
  | cons p rest ih => rw [mendMembers, List.map_cons, List.map_cons, ih]

theorem required_iff {items items' : List (Key × PyVal)}
    (h : items'.map (·.1) = items.map (·.1)) :
    (∀ name ∈ s.required, (lookup name items).isSome = true) ↔
      ∀ name ∈ s.required, Key.str name ∈ items'.map (·.1) := by
  simp only [lookup_isSome, h]

end

mutual

/-- **The checker accepts what is valid once it is mended.** -/
theorem valid_iff_mend (v : PyVal) (hv : IsJson v) (s : Schema) (hs : s.regular = true) :
    Valid v s ↔ SchemaValid (mend v s) s := by
  have hregular := Schema.Regular.of_regular hs
  match v with
  | .null | .int _ | .badStr _ =>
    rw [mend, valid_scalar rfl, schemaValid_scalar rfl]
    exact (judged_of_same hregular hv rfl (fun _ => Iff.rfl) nofun nofun nofun rfl
      fun _ => Iff.rfl).admits_iff hregular
  | .bool b =>
    rw [valid_scalar rfl, admits_bool hregular]
    rcases mend_bool hregular b with h | ⟨i, h⟩ | ⟨t, h⟩ <;> rw [h]
    · exact (schemaValid_scalar rfl).symm
    · exact (schemaValid_scalar rfl).symm
    · exact (schemaValid_scalar rfl).symm
  | .str t =>
    have hmend : ∃ t', mend (.str t) s = .str t' := by
      rw [mend]
      cases s.pattern <;> exact ⟨_, rfl⟩
    obtain ⟨t', ht'⟩ := hmend
    rw [valid_scalar rfl, (judged_str hregular t).admits_iff hregular, ht',
      schemaValid_scalar rfl]
  | .list items =>
    cases hitems : s.items with
    | none =>
      rw [mend, hitems, Valid, SchemaValid, hitems]
      refine and_congr ?_ (by simp)
      exact (judged_of_same hregular hv rfl (fun _ => Iff.rfl) nofun nofun nofun rfl
        fun _ => Iff.rfl).admits_iff hregular
    | some t =>
      have ht : t.regular = true := (Schema.regular_iff.1 hs).2.2.2 t hitems
      rw [mend, hitems, Valid, SchemaValid, hitems]
      have hjudged : Judged s (.list items) (.list (mendItems items t)) :=
        judged_of_same hregular hv rfl (fun _ => iff_of_false nofun nofun) nofun nofun nofun rfl
          fun _ => iff_of_false nofun nofun
      refine and_congr (hjudged.admits_iff hregular) ?_
      simpa using validItems_iff_mend items hv t ht
  | .dict items =>
    rw [mend, Valid, SchemaValid]
    have hjudged : Judged s (.dict items) (.dict (mendMembers items s)) :=
      judged_of_same hregular hv rfl (fun _ => iff_of_false nofun nofun) nofun nofun nofun rfl
        fun _ => iff_of_false nofun nofun
    refine and_congr (hjudged.admits_iff hregular) (and_congr ?_ ?_)
    · exact required_iff (mendMembers_names items s)
    · exact validMembers_iff_mend items hv s hs
  | .float x => exact absurd hv id
  | .other type => exact absurd hv id

theorem validMembers_iff_mend (items : List (Key × PyVal)) (hv : IsJsonMembers items) (s : Schema)
    (hs : s.regular = true) :
    ValidFields items s ↔ SchemaValidMembers (mendMembers items s) s := by
  match items with
  | [] => simp only [ValidFields, mendMembers, SchemaValidMembers]
  | (k, v) :: rest =>
    rw [ValidFields, mendMembers, SchemaValidMembers]
    refine and_congr ?_ (validMembers_iff_mend rest hv.2 s hs)
    cases hk : s.property k with
    | some t => exact valid_iff_mend v hv.1.2 t (Schema.regular_property hs hk)
    | none =>
      cases hextra : s.extra with
      | forbidden => exact Iff.rfl
      | allowed => exact Iff.rfl
      | schema t =>
        exact valid_iff_mend v hv.1.2 t ((Schema.regular_iff.1 hs).2.2.1 t hextra)

theorem validItems_iff_mend (items : List PyVal) (hv : IsJsonItems items) (t : Schema)
    (ht : t.regular = true) : ValidItems items t ↔ SchemaValidItems (mendItems items t) t := by
  match items with
  | [] => simp only [ValidItems, mendItems, SchemaValidItems]
  | v :: rest =>
    rw [ValidItems, mendItems, SchemaValidItems]
    exact and_congr (valid_iff_mend v hv.1 t ht) (validItems_iff_mend rest hv.2 t ht)

end

mutual

/-- What is valid needs no mending. -/
theorem mend_of_schemaValid (v : PyVal) (s : Schema) (hs : s.regular = true)
    (h : SchemaValid v s) : mend v s = v := by
  have hregular := Schema.Regular.of_regular hs
  match v with
  | .null | .int _ | .badStr _ | .float _ | .other _ => rw [mend]
  | .bool b =>
    rw [schemaValid_scalar rfl] at h
    rw [mend]
    cases hc : s.const with
    | none => rfl
    | some c =>
      have heq := h.const c hc
      obtain ⟨-, ⟨i, rfl⟩ | ⟨t, rfl⟩⟩ := hregular.const c hc
      · cases jsonEq_int.1 heq
      · cases jsonEq_str.1 heq
  | .str t =>
    rw [schemaValid_scalar rfl] at h
    rw [mend]
    cases hp : s.pattern with
    | none => rfl
    | some p =>
      dsimp only
      rw [mend_of_ecmaMatch (h.pattern p t hp rfl), String.ofList_toList]
  | .list items =>
    rw [SchemaValid] at h
    rw [mend]
    cases hitems : s.items with
    | none => rfl
    | some t =>
      exact congrArg PyVal.list (mendItems_of_schemaValid items t
        ((Schema.regular_iff.1 hs).2.2.2 t hitems) (h.2 t hitems))
  | .dict items =>
    rw [SchemaValid] at h
    rw [mend, mendMembers_of_schemaValid items s hs h.2.2]

theorem mendMembers_of_schemaValid (items : List (Key × PyVal)) (s : Schema)
    (hs : s.regular = true) (h : SchemaValidMembers items s) : mendMembers items s = items := by
  match items with
  | [] => rw [mendMembers]
  | (k, v) :: rest =>
    rw [SchemaValidMembers] at h
    obtain ⟨hv, hrest⟩ := h
    rw [mendMembers, mendMembers_of_schemaValid rest s hs hrest]
    refine congrArg (fun v => (k, v) :: rest) ?_
    cases hk : s.property k with
    | some t =>
      rw [hk] at hv
      exact mend_of_schemaValid v t (Schema.regular_property hs hk) hv
    | none =>
      rw [hk] at hv
      cases hextra : s.extra with
      | forbidden => rfl
      | allowed => rfl
      | schema t =>
        rw [hextra] at hv
        exact mend_of_schemaValid v t ((Schema.regular_iff.1 hs).2.2.1 t hextra) hv

theorem mendItems_of_schemaValid (items : List PyVal) (t : Schema) (ht : t.regular = true)
    (h : SchemaValidItems items t) : mendItems items t = items := by
  match items with
  | [] => rw [mendItems]
  | v :: rest =>
    rw [SchemaValidItems] at h
    rw [mendItems, mend_of_schemaValid v t ht h.1, mendItems_of_schemaValid rest t ht h.2]

end

/-! ## The checker and the standard -/

/-- **The checker decides the schema, except where it mends.**  The two agree on a value,
    unless the value is invalid and mending it makes it valid. -/
theorem schemaErrors_iff_schemaValid (v : JsonValue) (s : Subschema) (path : String) :
    (schemaErrors v.value s.schema path = [] ↔ SchemaValid v.value s.schema) ↔
      (mend v.value s.schema = v.value ∨ ¬ SchemaValid (mend v.value s.schema) s.schema) := by
  have hregular := s.occurs.regular
  rw [schemaErrors_eq_nil, valid_iff_mend v.value v.isJson s.schema hregular]
  constructor
  · intro hagree
    by_cases hmended : SchemaValid (mend v.value s.schema) s.schema
    · exact .inl (mend_of_schemaValid _ _ hregular (hagree.1 hmended))
    · exact .inr hmended
  · rintro (hsame | hinvalid)
    · rw [hsame]
    · refine iff_of_false hinvalid fun hvalid => hinvalid ?_
      rw [mend_of_schemaValid _ _ hregular hvalid]
      exact hvalid

/-- The schema of a version. -/
def versionSchema : Subschema where
  schema := .ofConst schemaVersion
  occurs := Occurs.summary.property (List.mem_cons_self :
    ("schema_version", Schema.ofConst schemaVersion) ∈ summarySchema.properties)

/-- The checker takes `True` for the version 1. -/
theorem true_is_version : ¬ ∀ (v : JsonValue) (s : Subschema) (path : String),
    (schemaErrors v.value s.schema path = [] ↔ SchemaValid v.value s.schema) := by
  intro h
  have haccepted : schemaErrors (.bool true) versionSchema.schema "" = [] := by
    rw [schemaErrors_eq_nil, valid_scalar rfl]
    have heq : pyEq (.bool true) schemaVersion = true := by decide
    exact ⟨fun c hc => Option.some.inj hc ▸ heq, nofun, nofun, nofun, nofun, nofun, nofun⟩
  have hvalid := (h ⟨.bool true, trivial⟩ versionSchema "").1 haccepted
  rw [schemaValid_scalar rfl] at hvalid
  exact absurd (hvalid.const schemaVersion rfl) (by decide)

end TodDl.Provenance
