/-
  Provenance records — the Python values a record can hold, their equality, and
  `canonical_json` / `digest` (provenance.py).

  * `PyVal` are the values that reach a record or come out of `json.loads`: JSON
    values, floats, strings with a lone surrogate (which UTF-8 cannot encode)
    and objects `json.dumps` refuses.
  * `canonicalJson` fails as the source does: on a float or a key that is not a
    string (`ProvenanceError`), on a value that nests deeper than the stack allows
    (`RecursionError`), on an object `json.dumps` refuses (`TypeError`), on an
    integer of too many digits (`ValueError`), and on a lone surrogate
    (`UnicodeEncodeError`).
-/
import Mathlib.Data.Int.Notation
import Mathlib.Data.Rat.Init
import Mathlib.Data.List.Induction
import TodDl.Lib.Sha256

namespace TodDl.Provenance

/-- A key of a Python dict. -/
inductive Key where
  | str (s : String)
  /-- a string with a lone surrogate, by its code points -/
  | badStr (codes : List ℕ)
  /-- any other hashable key -/
  | other (repr : String)
  deriving DecidableEq

/-- A Python float; `json.loads` reads `NaN` and `Infinity` too. -/
inductive PyFloat where
  | finite (q : ℚ)
  | infinite (negative : Bool)
  | nan

/-- A Python value. -/
inductive PyVal where
  /-- `None` -/
  | null
  | bool (b : Bool)
  | int (i : ℤ)
  | float (x : PyFloat)
  | str (s : String)
  /-- a string with a lone surrogate, by its code points -/
  | badStr (codes : List ℕ)
  | list (items : List PyVal)
  | dict (items : List (Key × PyVal))
  /-- an object of another type, such as a `PurePosixPath` -/
  | other (type : String)

/-- Why a provenance operation raised. -/
inductive Failure where
  | provenance (message : String)
  | typeError
  | unicodeEncodeError
  | valueError
  | osError
  /-- an exception that nothing here catches, such as `AttributeError` -/
  | other (type : String)
  deriving DecidableEq

/-- The exceptions `except (OSError, ValueError)` catches. -/
def Failure.isOsOrValueError : Failure → Bool
  | .osError | .valueError | .unicodeEncodeError => true
  | _ => false

/-- The exceptions `except ValueError` catches. -/
def Failure.isValueError : Failure → Bool
  | .valueError | .unicodeEncodeError => true
  | _ => false

/-- The items of a dict, or none for another value. -/
def PyVal.items : PyVal → List (Key × PyVal)
  | .dict items => items
  | _ => []

/-- `value.get(name)` on the items of a dict. -/
def lookup (name : String) (items : List (Key × PyVal)) : Option PyVal :=
  (items.find? fun p => p.1 = .str name).map (·.2)

/-- `value.get(name)`, with `None` for a missing key. -/
def PyVal.get (v : PyVal) (name : String) : PyVal := (lookup name v.items).getD .null

theorem lookup_isSome {name : String} {items : List (Key × PyVal)} :
    (lookup name items).isSome = true ↔ Key.str name ∈ items.map (·.1) := by
  simp [lookup]

/-- `dict.update` with one item: an existing key keeps its place. -/
def insert (key : Key) (v : PyVal) : List (Key × PyVal) → List (Key × PyVal)
  | [] => [(key, v)]
  | (k, u) :: rest => if k = key then (k, v) :: rest else (k, u) :: insert key v rest

/-- `dict.update(fields)` for keyword arguments. -/
def update (items : List (Key × PyVal)) (fields : List (String × PyVal)) : List (Key × PyVal) :=
  fields.foldl (fun acc p => insert (.str p.1) p.2 acc) items

theorem lookup_insert_self (name : String) (v : PyVal) (items : List (Key × PyVal)) :
    lookup name (insert (.str name) v items) = some v := by
  induction items with
  | nil => simp [insert, lookup]
  | cons p rest ih =>
    obtain ⟨k, u⟩ := p
    by_cases hk : k = .str name
    · simp [insert, lookup, hk]
    · simpa [insert, lookup, hk, List.find?_cons] using ih

theorem lookup_insert_ne {name : String} {key : Key} (v : PyVal) (items : List (Key × PyVal))
    (h : key ≠ .str name) : lookup name (insert key v items) = lookup name items := by
  induction items with
  | nil => simp [insert, lookup, h]
  | cons p rest ih =>
    obtain ⟨k, u⟩ := p
    by_cases hk : k = key
    · subst hk; simp [insert, lookup, h]
    · simp only [insert, if_neg hk, lookup, List.find?_cons] at ih ⊢
      split
      · rfl
      · exact ih

/-- A keyword argument replaces the item of its name; the others stay. -/
theorem lookup_update (name : String) (items : List (Key × PyVal)) (fields : List (String × PyVal)) :
    lookup name (update items fields) = (lookup name (update [] fields)).or (lookup name items) := by
  induction fields using List.reverseRecOn with
  | nil => rfl
  | append_singleton fields p ih =>
    simp only [update, List.foldl_append, List.foldl_cons, List.foldl_nil] at ih ⊢
    by_cases hp : p.1 = name
    · subst hp; simp [lookup_insert_self]
    · have hne : Key.str p.1 ≠ .str name := by simpa using hp
      rw [lookup_insert_ne _ _ hne, lookup_insert_ne _ _ hne, ih]

/-! ## Equality -/

/-- The finite number a value stands for in a comparison (`True` is 1). -/
def PyVal.number : PyVal → Option ℚ
  | .bool b => some (if b then 1 else 0)
  | .int i => some i
  | .float (.finite q) => some q
  | _ => none

mutual

/-- `a == b` in Python: numbers by value, dicts whatever the order of their items. -/
def pyEq : PyVal → PyVal → Bool
  | .null, .null => true
  | .str s, .str t => s = t
  | .badStr s, .badStr t => s = t
  | .other s, .other t => s = t
  | .float (.infinite s), .float (.infinite t) => s = t
  | .list l, .list l' => l.length = l'.length && pyEqItems l l'
  | .dict d, .dict d' => d.length = d'.length && pyEqFields d d'
  | a, b => match a.number, b.number with
    | some x, some y => x = y
    | _, _ => false

/-- Equality of two lists of one length, item by item. -/
def pyEqItems : List PyVal → List PyVal → Bool
  | a :: l, b :: l' => pyEq a b && pyEqItems l l'
  | _, _ => true

/-- Every item of the first dict is in the second one. -/
def pyEqFields : List (Key × PyVal) → List (Key × PyVal) → Bool
  | (k, a) :: d, d' =>
    (match d'.find? fun p => p.1 = k with
      | some p => pyEq a p.2
      | none => false) && pyEqFields d d'
  | [], _ => true

end

/-- `value in values`. -/
def pyMem (v : PyVal) (values : List PyVal) : Bool := values.any (pyEq v)

/-! ## Canonical JSON -/

mutual

/-- `reject_float`: the first float or key that is not a string. -/
def rejectFloat : PyVal → Except Failure Unit
  | .float _ => .error (.provenance "provenance records must not contain floats")
  | .dict items => rejectFloatFields items
  | .list items => rejectFloatItems items
  | _ => .ok ()

def rejectFloatItems : List PyVal → Except Failure Unit
  | [] => .ok ()
  | v :: rest => do rejectFloat v; rejectFloatItems rest

def rejectFloatFields : List (Key × PyVal) → Except Failure Unit
  | [] => .ok ()
  | (.other _, _) :: _ => .error (.provenance "provenance object keys must be strings")
  | (_, v) :: rest => do rejectFloat v; rejectFloatFields rest

end

mutual

/-- How many lists and dicts a value has inside one another. -/
def nesting : PyVal → ℕ
  | .list items => nestingItems items + 1
  | .dict items => nestingFields items + 1
  | _ => 0

def nestingItems : List PyVal → ℕ
  | [] => 0
  | v :: rest => max (nesting v) (nestingItems rest)

def nestingFields : List (Key × PyVal) → ℕ
  | [] => 0
  | (_, v) :: rest => max (nesting v) (nestingFields rest)

end

/-- `sys.get_int_max_str_digits()` -/
def intMaxStrDigits : ℕ := 4300

mutual

/-- No integer of the value has too many digits for `int.__repr__`. -/
def printable : PyVal → Bool
  | .int i => i.natAbs < 10 ^ intMaxStrDigits
  | .list items => printableItems items
  | .dict items => printableFields items
  | _ => true

def printableItems : List PyVal → Bool
  | [] => true
  | v :: rest => printable v && printableItems rest

def printableFields : List (Key × PyVal) → Bool
  | [] => true
  | (_, v) :: rest => printable v && printableFields rest

end

mutual

/-- `json.dumps` accepts every part of the value. -/
def serializable : PyVal → Bool
  | .other _ => false
  | .list items => serializableItems items
  | .dict items => serializableFields items
  | _ => true

def serializableItems : List PyVal → Bool
  | [] => true
  | v :: rest => serializable v && serializableItems rest

def serializableFields : List (Key × PyVal) → Bool
  | [] => true
  | (_, v) :: rest => serializable v && serializableFields rest

end

mutual

/-- No string of the value, key or not, holds a lone surrogate. -/
def encodable : PyVal → Bool
  | .badStr _ => false
  | .list items => encodableItems items
  | .dict items => encodableFields items
  | _ => true

def encodableItems : List PyVal → Bool
  | [] => true
  | v :: rest => encodable v && encodableItems rest

def encodableFields : List (Key × PyVal) → Bool
  | [] => true
  | (.badStr _, _) :: _ => false
  | (_, v) :: rest => encodable v && encodableFields rest

end

/-- A character inside a JSON string (`ensure_ascii=False`). -/
def escapeChar (c : Char) : List Char :=
  if c = '"' then ['\\', '"']
  else if c = '\\' then ['\\', '\\']
  else if c = '\n' then ['\\', 'n']
  else if c = '\r' then ['\\', 'r']
  else if c = '\t' then ['\\', 't']
  else if c.toNat = 8 then ['\\', 'b']
  else if c.toNat = 12 then ['\\', 'f']
  else if c.toNat < 32 then
    ['\\', 'u', '0', '0', Lib.Sha256.hexDigit (c.toNat / 16), Lib.Sha256.hexDigit (c.toNat % 16)]
  else [c]

def renderString (s : String) : List Char :=
  '"' :: (s.toList.flatMap escapeChar ++ ['"'])

/-- The text of a key; only string keys reach the encoder. -/
def Key.text : Key → String
  | .str s => s
  | .badStr _ => ""
  | .other repr => repr

/-- Insert an item into items sorted by key (code point order). -/
def insertSorted {α : Type} (p : String × α) : List (String × α) → List (String × α)
  | [] => [p]
  | q :: rest => if q.1 < p.1 then q :: insertSorted p rest else p :: q :: rest

/-- Join the parts with commas. -/
def joinComma : List (List Char) → List Char
  | [] => []
  | [p] => p
  | p :: rest => p ++ ',' :: joinComma rest

mutual

/-- `json.dumps(value, ensure_ascii=False, sort_keys=True, separators=(",", ":"))`
    on a value that `rejectFloat` and `serializable` let through. -/
def render : PyVal → List Char
  | .null => "null".toList
  | .bool true => "true".toList
  | .bool false => "false".toList
  | .int i => (toString i).toList
  | .str s => renderString s
  | .list items => '[' :: (joinComma (renderItems items) ++ [']'])
  | .dict items =>
    let sorted := (renderFields items).foldr insertSorted []
    '\x7b' :: (joinComma (sorted.map fun p => renderString p.1 ++ ':' :: p.2) ++ ['\x7d'])
  | .float _ | .badStr _ | .other _ => []

def renderItems : List PyVal → List (List Char)
  | [] => []
  | v :: rest => render v :: renderItems rest

def renderFields : List (Key × PyVal) → List (String × List Char)
  | [] => []
  | (k, v) :: rest => (k.text, render v) :: renderFields rest

end

/-- UTF-8 bytes of a text. -/
def utf8 (cs : List Char) : List UInt8 := cs.flatMap String.utf8EncodeChar

/-- `canonical_json(value)`, where the stack lets a value nest `depth` deep: beyond it
    `reject_float` or `json.dumps` raises. -/
def canonicalJson (depth : ℕ) (v : PyVal) : Except Failure (List UInt8) := do
  rejectFloat v
  if depth < nesting v then throw (.other "RecursionError")
  if !serializable v then throw .typeError
  if !printable v then throw .valueError
  if !encodable v then throw .unicodeEncodeError
  return utf8 (render v)

theorem serializable_lookup {items : List (Key × PyVal)} {name : String} {v : PyVal}
    (h : serializableFields items = true) (hv : lookup name items = some v) :
    serializable v = true := by
  induction items with
  | nil => cases hv
  | cons p rest ih =>
    obtain ⟨k, u⟩ := p
    simp only [serializableFields, Bool.and_eq_true] at h
    by_cases hk : k = .str name
    · simp only [lookup, List.find?_cons, hk, decide_true, Option.map_some, Option.some.injEq] at hv
      exact hv ▸ h.1
    · refine ih h.2 ?_
      simpa [lookup, List.find?_cons, hk] using hv

/-- A dict with an object that `json.dumps` refuses has no canonical JSON. -/
theorem canonicalJson_other {items : List (Key × PyVal)} {name type : String} (depth : ℕ)
    (h : lookup name items = some (.other type)) :
    ∃ f, canonicalJson depth (.dict items) = .error f := by
  have hser : serializable (.dict items) = false := by
    by_contra hs
    simpa [serializable] using serializable_lookup (by simpa [serializable] using hs) h
  cases hfloat : rejectFloat (.dict items) with
  | error f => exact ⟨f, by simp [canonicalJson, hfloat, bind, Except.bind]⟩
  | ok _ =>
    by_cases hdeep : depth < nesting (.dict items)
    · exact ⟨.other "RecursionError", by simp [canonicalJson, hfloat, hdeep, bind, Except.bind, throw,
        throwThe, MonadExceptOf.throw]⟩
    · exact ⟨.typeError, by simp [canonicalJson, hfloat, hdeep, hser, bind, Except.bind,
        throw, throwThe, MonadExceptOf.throw]⟩

/-- `digest(value)`. -/
def digest (depth : ℕ) (v : PyVal) : Except Failure String :=
  (canonicalJson depth v).map Lib.Sha256.hexdigest

end TodDl.Provenance
