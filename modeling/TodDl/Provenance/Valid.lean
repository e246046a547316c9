/-
  Provenance records — what the schema and `canonical_json` ask of a value,
  without reference to how the checkers walk through it.

  * `Valid v s`: the value satisfies the schema; `schemaErrors_eq_nil`: the
    checker reports nothing exactly on such values.
  * `Recordable v`: no float, no lone surrogate, no integer of too many digits and
    no key or object outside JSON anywhere in the value; `digest_isOk_iff`:
    exactly these are encoded, as far as the stack lets them nest.
-/
import TodDl.Provenance.Writer

namespace TodDl.Provenance

/-! ## Equality -/

theorem pyEq_null {v : PyVal} : pyEq v .null = true ↔ v = .null := by
  cases v with
  | float x => cases x <;> simp [pyEq, PyVal.number]
  | _ => simp [pyEq, PyVal.number]

theorem pyEq_str {v : PyVal} {s : String} : pyEq v (.str s) = true ↔ v = .str s := by
  cases v with
  | float x => cases x <;> simp [pyEq, PyVal.number]
  | _ => simp [pyEq, PyVal.number]

theorem str_pyEq {v : PyVal} {s : String} : pyEq (.str s) v = true ↔ v = .str s := by
  cases v with
  | float x => cases x <;> simp [pyEq, PyVal.number]
  | _ => simp [pyEq, PyVal.number, eq_comm]

theorem int_pyEq {i j : ℤ} : pyEq (.int i) (.int j) = true ↔ i = j :=
  decide_eq_true_iff.trans (Rat.intCast_inj (a := i) (b := j))

/-- A digest position of the chain: null before the first line. -/
def IsLink (v : PyVal) : Prop := v = .null ∨ ∃ d, v = .str d

theorem IsLink.pyEq_iff {v link : PyVal} (h : IsLink link) : pyEq v link = true ↔ v = link := by
  rcases h with rfl | ⟨d, rfl⟩
  · exact pyEq_null
  · exact pyEq_str

/-! ## The schema -/

/-- The keywords that look at the value as a whole. -/
structure Schema.Admits (s : Schema) (v : PyVal) : Prop where
  const : ∀ c, s.const = some c → pyEq v c = true
  enum : ∀ vs, s.enum = some vs → pyMem v vs = true
  types : ∀ ts, s.types = some ts → ∃ t ∈ ts, hasType v t = true
  pattern : ∀ p, s.pattern = some p →
    (∀ codes, v ≠ .badStr codes) ∧ ∀ t, v = .str t → p.search t = true
  minLength : ∀ codes, v.codes = some codes → s.minLength.getD 0 ≤ codes.length
  minimum : ∀ low i, s.minimum = some low → v = .int i → low ≤ i
  maximum : ∀ high i, s.maximum = some high → v = .int i → i ≤ high

mutual

/-- The value satisfies the schema. -/
def Valid (v : PyVal) (s : Schema) : Prop :=
  s.Admits v ∧
    match v with
    | .dict items => (∀ name ∈ s.required, (lookup name items).isSome = true) ∧ ValidFields items s
    | .list items => ∀ t, s.items = some t → ValidItems items t
    | _ => True

/-- Every field is declared with its own schema, or allowed as a further one. -/
def ValidFields (items : List (Key × PyVal)) (s : Schema) : Prop :=
  match items with
  | [] => True
  | (k, v) :: rest =>
    (match s.property k with
      | some t => Valid v t
      | none =>
        match s.extra with
        | .forbidden => False
        | .schema t => Valid v t
        | .allowed => True) ∧ ValidFields rest s

/-- Every item satisfies the schema of the items. -/
def ValidItems (items : List PyVal) (t : Schema) : Prop :=
  match items with
  | [] => True
  | v :: rest => Valid v t ∧ ValidItems rest t

end

/-- What one field of an object must be. -/
def ValidField (s : Schema) (k : Key) (v : PyVal) : Prop :=
  match s.property k with
  | some t => Valid v t
  | none =>
    match s.extra with
    | .forbidden => False
    | .schema t => Valid v t
    | .allowed => True

theorem validFields_iff {items : List (Key × PyVal)} {s : Schema} :
    ValidFields items s ↔ ∀ p ∈ items, ValidField s p.1 p.2 := by
  induction items with
  | nil => simp [ValidFields]
  | cons p rest ih => rw [ValidFields, ih, List.forall_mem_cons]; rfl

variable {v : PyVal} {s : Schema} {path : String}

theorem Valid.admits (h : Valid v s) : s.Admits v := by
  rw [Valid.eq_def] at h
  exact h.1

theorem Valid.fields {items : List (Key × PyVal)} (h : Valid (.dict items) s) :
    ∀ p ∈ items, ValidField s p.1 p.2 := by
  rw [Valid] at h
  exact validFields_iff.1 h.2.2

/-- A field satisfies the schema of its name. -/
theorem Valid.field {items : List (Key × PyVal)} {name : String} {t : Schema}
    (h : Valid (.dict items) s) (hv : lookup name items = some v)
    (ht : s.property (.str name) = some t) : Valid v t := by
  obtain ⟨p, hp, hpv⟩ := Option.map_eq_some_iff.1 hv
  have hkey : p.1 = .str name := by simpa using List.find?_some hp
  have hfield := h.fields p (List.mem_of_find?_eq_some hp)
  rwa [ValidField, hkey, ht, hpv] at hfield

theorem valueProblems_eq_nil : valueProblems v s path = [] ↔
    (∀ c, s.const = some c → pyEq v c = true) ∧ ∀ vs, s.enum = some vs → pyMem v vs = true := by
  rw [valueProblems, List.append_eq_nil_iff]
  refine and_congr ?_ ?_
  · cases s.const <;> simp
  · cases s.enum <;> simp

theorem typeProblem_eq_none : typeProblem v s path = none ↔
    ∀ ts, s.types = some ts → ∃ t ∈ ts, hasType v t = true := by
  rw [typeProblem]
  cases s.types with
  | none => simp
  | some ts => simp [← List.any_eq_true]

theorem textProblems_eq_nil : textProblems v s path = [] ↔
    (∀ p, s.pattern = some p →
      (∀ codes, v ≠ .badStr codes) ∧ ∀ t, v = .str t → p.search t = true) ∧
    ∀ codes, v.codes = some codes → s.minLength.getD 0 ≤ codes.length := by
  cases v with
  | str t =>
    simp only [textProblems, List.append_eq_nil_iff, PyVal.codes]
    refine and_congr ?_ (by simp [String.length_toList])
    cases s.pattern <;> simp
  | badStr codes =>
    simp only [textProblems, List.append_eq_nil_iff, PyVal.codes]
    refine and_congr ?_ (by simp)
    cases s.pattern <;> simp
  | _ => simp [textProblems, PyVal.codes]

theorem rangeProblems_eq_nil : rangeProblems v s path = [] ↔
    (∀ low i, s.minimum = some low → v = .int i → low ≤ i) ∧
    ∀ high i, s.maximum = some high → v = .int i → i ≤ high := by
  cases v with
  | int i =>
    simp only [rangeProblems, PyVal.int.injEq]
    cases s.minimum <;> cases s.maximum <;> simp
  | _ => simp [rangeProblems]

theorem requiredProblems_eq_nil {items : List (Key × PyVal)} :
    requiredProblems items s path = [] ↔ ∀ name ∈ s.required, (lookup name items).isSome = true := by
  simp [requiredProblems, List.filter_eq_nil_iff, Option.isSome_iff_ne_none]

/-- The checker looks at the keywords of `Admits` before it descends. -/
theorem problems_eq_nil {nested : List Problem} :
    (valueProblems v s path ++
      match typeProblem v s path with
      | some p => [p]
      | none => textProblems v s path ++ rangeProblems v s path ++ nested) = [] ↔
    s.Admits v ∧ nested = [] := by
  have hadmits : s.Admits v ↔ valueProblems v s path = [] ∧ typeProblem v s path = none ∧
      textProblems v s path = [] ∧ rangeProblems v s path = [] := by
    rw [valueProblems_eq_nil, typeProblem_eq_none, textProblems_eq_nil, rangeProblems_eq_nil]
    exact ⟨fun h => ⟨⟨h.const, h.enum⟩, h.types, ⟨h.pattern, h.minLength⟩, h.minimum, h.maximum⟩,
      fun ⟨⟨hc, he⟩, ht, ⟨hp, hl⟩, hlow, hhigh⟩ => ⟨hc, he, ht, hp, hl, hlow, hhigh⟩⟩
  rw [hadmits, List.append_eq_nil_iff]
  cases typeProblem v s path with
  | some p => simp
  | none => simp [and_assoc]

mutual

/-- **The checker decides the schema.** -/
theorem schemaErrors_eq_nil (v : PyVal) (s : Schema) (path : String) :
    schemaErrors v s path = [] ↔ Valid v s := by
  match v with
  | .dict items =>
    rw [schemaErrors, Valid]
    refine problems_eq_nil.trans (and_congr_right fun _ => ?_)
    rw [List.append_eq_nil_iff, requiredProblems_eq_nil, fieldErrors_eq_nil items s path]
  | .list items =>
    rw [schemaErrors, Valid]
    refine problems_eq_nil.trans (and_congr_right fun _ => ?_)
    cases hitems : s.items with
    | none => simp
    | some t => simpa using itemErrors_eq_nil items t path 0
  | .null | .bool _ | .int _ | .float _ | .str _ | .badStr _ | .other _ =>
    simp only [schemaErrors, Valid]
    exact problems_eq_nil.trans (by simp)

theorem fieldErrors_eq_nil (items : List (Key × PyVal)) (s : Schema) (path : String) :
    fieldErrors items s path = [] ↔ ValidFields items s := by
  match items with
  | [] => simp [fieldErrors, ValidFields]
  | (k, v) :: rest =>
    rw [fieldErrors, ValidFields, List.append_eq_nil_iff, fieldErrors_eq_nil rest s path]
    refine and_congr_left fun _ => ?_
    cases s.property k with
    | some t => exact schemaErrors_eq_nil v t _
    | none =>
      cases s.extra with
      | forbidden => simp
      | schema t => exact schemaErrors_eq_nil v t _
      | allowed => simp

theorem itemErrors_eq_nil (items : List PyVal) (t : Schema) (path : String) (index : ℕ) :
    itemErrors items t path index = [] ↔ ValidItems items t := by
  match items with
  | [] => simp [itemErrors, ValidItems]
  | v :: rest =>
    rw [itemErrors, ValidItems, List.append_eq_nil_iff, schemaErrors_eq_nil v t _,
      itemErrors_eq_nil rest t path (index + 1)]

end

/-! ## Canonical JSON -/

mutual

/-- A JSON value without floats, without lone surrogates and with integers that
    `int.__repr__` prints. -/
def Recordable : PyVal → Prop
  | .float _ | .badStr _ | .other _ => False
  | .int i => i.natAbs < 10 ^ intMaxStrDigits
  | .list items => RecordableItems items
  | .dict items => RecordableFields items
  | .null | .bool _ | .str _ => True

def RecordableItems : List PyVal → Prop
  | [] => True
  | v :: rest => Recordable v ∧ RecordableItems rest

def RecordableFields : List (Key × PyVal) → Prop
  | [] => True
  | (k, v) :: rest => ((∃ name, k = .str name) ∧ Recordable v) ∧ RecordableFields rest

end

mutual

def decRecordable : (v : PyVal) → Decidable (Recordable v)
  | .float _ | .badStr _ | .other _ => isFalse fun h => h
  | .int i => inferInstanceAs (Decidable (i.natAbs < 10 ^ intMaxStrDigits))
  | .list items => decRecordableItems items
  | .dict items => decRecordableFields items
  | .null | .bool _ | .str _ => isTrue trivial

def decRecordableItems : (items : List PyVal) → Decidable (RecordableItems items)
  | [] => isTrue trivial
  | v :: rest =>
    have := decRecordable v
    have := decRecordableItems rest
    inferInstanceAs (Decidable (Recordable v ∧ RecordableItems rest))

def decRecordableFields : (items : List (Key × PyVal)) → Decidable (RecordableFields items)
  | [] => isTrue trivial
  | (.str name, v) :: rest =>
    have : Decidable (∃ name', Key.str name = .str name') := isTrue ⟨name, rfl⟩
    have := decRecordable v
    have := decRecordableFields rest
    inferInstanceAs (Decidable (((∃ name', Key.str name = .str name') ∧ Recordable v) ∧
      RecordableFields rest))
  | (.badStr _, _) :: _ | (.other _, _) :: _ => isFalse fun h => by obtain ⟨_, h⟩ := h.1.1; cases h

end

instance : DecidablePred Recordable := decRecordable

theorem recordableFields_iff {items : List (Key × PyVal)} :
    RecordableFields items ↔ ∀ p ∈ items, (∃ name, p.1 = .str name) ∧ Recordable p.2 := by
  induction items with
  | nil => simp [RecordableFields]
  | cons p rest ih => rw [RecordableFields, ih, List.forall_mem_cons]

theorem nestingItems_le_iff {items : List PyVal} {n : ℕ} :
    nestingItems items ≤ n ↔ ∀ v ∈ items, nesting v ≤ n := by
  induction items with
  | nil => simp [nestingItems]
  | cons v rest ih => rw [nestingItems, Nat.max_le, ih, List.forall_mem_cons]

theorem nestingFields_le_iff {items : List (Key × PyVal)} {n : ℕ} :
    nestingFields items ≤ n ↔ ∀ p ∈ items, nesting p.2 ≤ n := by
  induction items with
  | nil => simp [nestingFields]
  | cons p rest ih => rw [nestingFields, Nat.max_le, ih, List.forall_mem_cons]

mutual

/-- The four conditions of `canonical_json` on a value and its parts. -/
theorem encoded_iff (v : PyVal) :
    (rejectFloat v = .ok () ∧ serializable v = true ∧ printable v = true ∧ encodable v = true) ↔
      Recordable v := by
  match v with
  | .list items =>
    simpa [rejectFloat, serializable, printable, encodable, Recordable] using encodedItems_iff items
  | .dict items =>
    simpa [rejectFloat, serializable, printable, encodable, Recordable] using encodedFields_iff items
  | .int i => simp only [rejectFloat, serializable, printable, encodable, Recordable, true_and,
      and_true, decide_eq_true_iff]
  | .null | .bool _ | .float _ | .str _ | .badStr _ | .other _ =>
    simp [rejectFloat, serializable, printable, encodable, Recordable]

theorem encodedItems_iff (items : List PyVal) :
    (rejectFloatItems items = .ok () ∧ serializableItems items = true ∧
      printableItems items = true ∧ encodableItems items = true) ↔ RecordableItems items := by
  match items with
  | [] => simp [rejectFloatItems, serializableItems, printableItems, encodableItems, RecordableItems]
  | v :: rest =>
    rw [RecordableItems, ← encoded_iff v, ← encodedItems_iff rest]
    cases hv : rejectFloat v with
    | error e => simp [rejectFloatItems, hv, bind, Except.bind]
    | ok u =>
      simp only [rejectFloatItems, serializableItems, printableItems, encodableItems, hv, bind,
        Except.bind, Bool.and_eq_true, true_and]
      exact ⟨fun ⟨h, ⟨a, b⟩, ⟨c, d⟩, e, f⟩ => ⟨⟨a, c, e⟩, h, b, d, f⟩,
        fun ⟨⟨a, c, e⟩, h, b, d, f⟩ => ⟨h, ⟨a, b⟩, ⟨c, d⟩, e, f⟩⟩

theorem encodedFields_iff (items : List (Key × PyVal)) :
    (rejectFloatFields items = .ok () ∧ serializableFields items = true ∧
      printableFields items = true ∧ encodableFields items = true) ↔ RecordableFields items := by
  match items with
  | [] =>
    simp [rejectFloatFields, serializableFields, printableFields, encodableFields, RecordableFields]
  | (k, v) :: rest =>
    rw [RecordableFields, ← encoded_iff v, ← encodedFields_iff rest]
    cases k with
    | badStr codes => simp [encodableFields]
    | other repr => simp [rejectFloatFields]
    | str name =>
      cases hv : rejectFloat v with
      | error e => simp [rejectFloatFields, hv, bind, Except.bind]
      | ok u =>
        simp only [rejectFloatFields, serializableFields, printableFields, encodableFields, hv, bind,
          Except.bind, Bool.and_eq_true, true_and, Key.str.injEq, exists_eq']
        exact ⟨fun ⟨h, ⟨a, b⟩, ⟨c, d⟩, e, f⟩ => ⟨⟨a, c, e⟩, h, b, d, f⟩,
          fun ⟨⟨a, c, e⟩, h, b, d, f⟩ => ⟨h, ⟨a, b⟩, ⟨c, d⟩, e, f⟩⟩

end

mutual

theorem rejectFloat_error (v : PyVal) {e : Failure} (h : rejectFloat v = .error e) :
    ∃ message, e = .provenance message := by
  match v with
  | .list items => exact rejectFloatItems_error items h
  | .dict items => exact rejectFloatFields_error items h
  | .float _ => cases h; exact ⟨_, rfl⟩
  | .null | .bool _ | .int _ | .str _ | .badStr _ | .other _ => cases h

theorem rejectFloatItems_error (items : List PyVal) {e : Failure}
    (h : rejectFloatItems items = .error e) : ∃ message, e = .provenance message := by
  match items with
  | [] => cases h
  | v :: rest =>
    simp only [rejectFloatItems, bind, Except.bind] at h
    split at h
    · next hv => cases h; exact rejectFloat_error v hv
    · exact rejectFloatItems_error rest h

theorem rejectFloatFields_error (items : List (Key × PyVal)) {e : Failure}
    (h : rejectFloatFields items = .error e) : ∃ message, e = .provenance message := by
  match items with
  | [] => cases h
  | (.other _, _) :: _ => cases h; exact ⟨_, rfl⟩
  | (.str _, v) :: rest | (.badStr _, v) :: rest =>
    simp only [rejectFloatFields, bind, Except.bind] at h
    split at h
    · next hv => cases h; exact rejectFloat_error v hv
    · exact rejectFloatFields_error rest h

end

/-- **What `canonical_json` does with a value**: it encodes a recordable one that the
    stack holds, and on a value without floats and foreign objects that the stack
    holds it raises a `ValueError` only. -/
theorem canonicalJson_cases (depth : ℕ) (v : PyVal) :
    (Recordable v ∧ nesting v ≤ depth ∧ canonicalJson depth v = .ok (utf8 (render v))) ∨
    (¬ Recordable v ∧ (rejectFloat v = .ok () ∧ serializable v = true ∧ nesting v ≤ depth) ∧
      ∃ e, canonicalJson depth v = .error e ∧ e.isValueError = true) ∨
    (¬ (rejectFloat v = .ok () ∧ serializable v = true ∧ nesting v ≤ depth) ∧
      ∃ e, canonicalJson depth v = .error e ∧ e.isValueError = false) := by
  rw [← encoded_iff, canonicalJson]
  cases hf : rejectFloat v with
  | error e =>
    obtain ⟨message, rfl⟩ := rejectFloat_error v hf
    exact .inr (.inr ⟨by simp, _, rfl, rfl⟩)
  | ok u =>
    by_cases hdeep : depth < nesting v
    · exact .inr (.inr ⟨fun h => by omega, .other "RecursionError", by simp [hdeep, bind, Except.bind,
        throw, throwThe, MonadExceptOf.throw], rfl⟩)
    have hfits : nesting v ≤ depth := by omega
    simp only [hdeep, if_false]
    cases hs : serializable v with
    | false => exact .inr (.inr ⟨by simp, .typeError, rfl, rfl⟩)
    | true =>
      cases hp : printable v with
      | false => exact .inr (.inl ⟨by simp, ⟨trivial, rfl, hfits⟩, .valueError, rfl, rfl⟩)
      | true =>
        cases he : encodable v with
        | false => exact .inr (.inl ⟨by simp, ⟨trivial, rfl, hfits⟩, .unicodeEncodeError, rfl, rfl⟩)
        | true => exact .inl ⟨⟨trivial, rfl, rfl, rfl⟩, hfits, rfl⟩

/-- **What `canonical_json` encodes**: recordable values that the stack holds. -/
theorem canonicalJson_eq_ok {depth : ℕ} {bytes : List UInt8} :
    canonicalJson depth v = .ok bytes ↔
      Recordable v ∧ nesting v ≤ depth ∧ utf8 (render v) = bytes := by
  obtain ⟨hv, hd, h⟩ | ⟨hv, -, e, h, -⟩ | ⟨hv, e, h, -⟩ := canonicalJson_cases depth v <;> rw [h]
  · simp [hv, hd]
  · simp [hv]
  · refine iff_of_false (by simp) fun k => hv ?_
    have hencoded := (encoded_iff v).2 k.1
    exact ⟨hencoded.1, hencoded.2.1, k.2.1⟩

theorem canonicalJson_isOk_iff {depth : ℕ} :
    (canonicalJson depth v).isOk = true ↔ Recordable v ∧ nesting v ≤ depth := by
  have hok : (canonicalJson depth v).isOk = true ↔ ∃ bytes, canonicalJson depth v = .ok bytes := by
    cases canonicalJson depth v <;> simp [Except.isOk, Except.toBool]
  rw [hok]
  simp only [canonicalJson_eq_ok, exists_and_left, exists_eq', and_true]

theorem digest_eq_ok {depth : ℕ} {d : String} : digest depth v = .ok d ↔
    Recordable v ∧ nesting v ≤ depth ∧ Lib.Sha256.hexdigest (utf8 (render v)) = d := by
  have hmap : digest depth v = .ok d ↔
      ∃ bytes, canonicalJson depth v = .ok bytes ∧ Lib.Sha256.hexdigest bytes = d := by
    rw [digest]
    cases canonicalJson depth v <;> simp [Except.map]
  rw [hmap]
  simp only [canonicalJson_eq_ok, and_assoc, exists_and_left, exists_eq_left']

theorem digest_isOk (depth : ℕ) (v : PyVal) :
    (digest depth v).isOk = (canonicalJson depth v).isOk := by
  simp only [digest]; cases canonicalJson depth v <;> rfl

/-- **What can be hashed.** -/
theorem digest_isOk_iff {depth : ℕ} :
    (digest depth v).isOk = true ↔ Recordable v ∧ nesting v ≤ depth := by
  rw [digest_isOk, canonicalJson_isOk_iff]

end TodDl.Provenance
