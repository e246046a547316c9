/-
  Provenance records — the record schema and its checker (provenance.py).

  A `Schema` holds the JSON Schema keywords that `schema_document()` uses.
  `schemaErrors` is the source's checker, with `re.search` semantics for the
  patterns: `^` and `$` anchor, but `$` also matches before a final newline, and
  `\d` is any Unicode decimal digit.  `Schema.toPy` renders a schema as the dict
  the source writes to `schema.json`.
-/
import TodDl.Provenance.Value

namespace TodDl.Provenance

/-! ## Patterns -/

/-- The regular expressions of the schema. -/
inductive Pattern where
  | hex
  | timestamp
  | uuid
  | signature
  deriving DecidableEq

def Pattern.regex : Pattern → String
  | .hex => "^[0-9a-f]\x7b64\x7d$"
  | .timestamp => "^\\d\x7b4\x7d-\\d\x7b2\x7d-\\d\x7b2\x7dT\\d\x7b2\x7d:\\d\x7b2\x7d:\\d\x7b2\x7d(\\.\\d+)?Z$"
  | .uuid => "^[0-9a-f]\x7b8\x7d-[0-9a-f]\x7b4\x7d-[0-9a-f]\x7b4\x7d-[0-9a-f]\x7b4\x7d-[0-9a-f]\x7b12\x7d$"
  | .signature => "^[A-Za-z0-9_-]\x7b86\x7d$"

/-- The zeros of the Unicode decimal digit ranges. -/
def digitZeros : List ℕ :=
  [0x30, 0x660, 0x6f0, 0x7c0, 0x966, 0x9e6, 0xa66, 0xae6, 0xb66, 0xbe6, 0xc66, 0xce6, 0xd66, 0xde6,
   0xe50, 0xed0, 0xf20, 0x1040, 0x1090, 0x17e0, 0x1810, 0x1946, 0x19d0, 0x1a80, 0x1a90, 0x1b50,
   0x1bb0, 0x1c40, 0x1c50, 0xa620, 0xa8d0, 0xa900, 0xa9d0, 0xa9f0, 0xaa50, 0xabf0, 0xff10, 0x104a0,
   0x10d30, 0x11066, 0x110f0, 0x11136, 0x111d0, 0x112f0, 0x11450, 0x114d0, 0x11650, 0x116c0,
   0x11730, 0x118e0, 0x11950, 0x11c50, 0x11d50, 0x11da0, 0x16a60, 0x16ac0, 0x16b50, 0x1d7ce,
   0x1d7d8, 0x1d7e2, 0x1d7ec, 0x1d7f6, 0x1e140, 0x1e2f0, 0x1e950, 0x1fbf0]

/-- `\d` -/
def isDigit (c : Char) : Bool := digitZeros.any fun z => z ≤ c.toNat && c.toNat < z + 10

/-- `[0-9a-f]` -/
def isHex (c : Char) : Bool := ('0' ≤ c && c ≤ '9') || ('a' ≤ c && c ≤ 'f')

/-- `[A-Za-z0-9_-]` -/
def isBase64Url (c : Char) : Bool :=
  ('A' ≤ c && c ≤ 'Z') || ('a' ≤ c && c ≤ 'z') || ('0' ≤ c && c ≤ '9') || c = '_' || c = '-'

/-- Take exactly `n` characters of a class; none when they are not there. -/
def takeClass (p : Char → Bool) : ℕ → List Char → Option (List Char)
  | 0, cs => some cs
  | n + 1, c :: cs => if p c then takeClass p n cs else none
  | _ + 1, [] => none

/-- Take one literal character. -/
def takeChar (c : Char) : List Char → Option (List Char)
  | d :: cs => if d = c then some cs else none
  | [] => none

/-- `(\.\d+)?Z` up to the end of the text. -/
def timestampTail : List Char → Bool
  | ['Z'] => true
  | '.' :: c :: cs => isDigit c && (cs.dropWhile isDigit) = ['Z']
  | _ => false

/-- The whole text matches what the pattern says between its anchors. -/
def Pattern.fullMatch (p : Pattern) (cs : List Char) : Bool :=
  match p with
  | .hex => takeClass isHex 64 cs = some []
  | .signature => takeClass isBase64Url 86 cs = some []
  | .uuid =>
    (takeClass isHex 8 cs >>= takeChar '-' >>= takeClass isHex 4 >>= takeChar '-' >>=
      takeClass isHex 4 >>= takeChar '-' >>= takeClass isHex 4 >>= takeChar '-' >>=
      takeClass isHex 12) = some []
  | .timestamp =>
    (takeClass isDigit 4 cs >>= takeChar '-' >>= takeClass isDigit 2 >>= takeChar '-' >>=
      takeClass isDigit 2 >>= takeChar 'T' >>= takeClass isDigit 2 >>= takeChar ':' >>=
      takeClass isDigit 2 >>= takeChar ':' >>= takeClass isDigit 2).any timestampTail

/-- `re.search(pattern, text)`: the text, or the text before a final newline. -/
def Pattern.search (p : Pattern) (s : String) : Bool :=
  p.fullMatch s.toList || (s.toList.getLast? = some '\n' && p.fullMatch s.toList.dropLast)

/-! ## Schemas -/

/-- The type names the schema uses. -/
inductive TypeName where
  | string
  | boolean
  | null
  | object
  | array
  | integer
  deriving DecidableEq

def TypeName.text : TypeName → String
  | .string => "string"
  | .boolean => "boolean"
  | .null => "null"
  | .object => "object"
  | .array => "array"
  | .integer => "integer"

/-- The keyword `additionalProperties`: absent, `False`, or a schema. -/
inductive Extra (S : Type) where
  | allowed
  | forbidden
  | schema (s : S)

/-- A schema, keyword by keyword. -/
inductive Schema where
  | mk (const : Option PyVal) (enum : Option (List PyVal)) (types : Option (List TypeName))
      (pattern : Option Pattern) (minLength : Option ℕ) (minimum maximum : Option ℤ)
      (required : List String) (properties : List (String × Schema)) (extra : Extra Schema)
      (items : Option Schema)

namespace Schema

/-- The schema without keywords. -/
def any : Schema := .mk none none none none none none none [] [] .allowed none

def const : Schema → Option PyVal | .mk c _ _ _ _ _ _ _ _ _ _ => c
def enum : Schema → Option (List PyVal) | .mk _ e _ _ _ _ _ _ _ _ _ => e
def types : Schema → Option (List TypeName) | .mk _ _ t _ _ _ _ _ _ _ _ => t
def pattern : Schema → Option Pattern | .mk _ _ _ p _ _ _ _ _ _ _ => p
def minLength : Schema → Option ℕ | .mk _ _ _ _ l _ _ _ _ _ _ => l
def minimum : Schema → Option ℤ | .mk _ _ _ _ _ m _ _ _ _ _ => m
def maximum : Schema → Option ℤ | .mk _ _ _ _ _ _ m _ _ _ _ => m
def required : Schema → List String | .mk _ _ _ _ _ _ _ r _ _ _ => r
def properties : Schema → List (String × Schema) | .mk _ _ _ _ _ _ _ _ p _ _ => p
def extra : Schema → Extra Schema | .mk _ _ _ _ _ _ _ _ _ x _ => x
def items : Schema → Option Schema | .mk _ _ _ _ _ _ _ _ _ _ i => i

def ofConst (v : PyVal) : Schema := .mk (some v) none none none none none none [] [] .allowed none
def ofEnum (vs : List String) : Schema :=
  .mk none (some (vs.map .str)) none none none none none [] [] .allowed none
def ofTypes (ts : List TypeName) : Schema :=
  .mk none none (some ts) none none none none [] [] .allowed none
def ofPattern (ts : List TypeName) (p : Pattern) : Schema :=
  .mk none none (some ts) (some p) none none none [] [] .allowed none
def ofRange (ts : List TypeName) (low : ℤ) (high : Option ℤ) : Schema :=
  .mk none none (some ts) none none (some low) high [] [] .allowed none
def ofText (least : ℕ) : Schema :=
  .mk none none (some [.string]) none (some least) none none [] [] .allowed none
def ofArray (item : Schema) : Schema :=
  .mk none none (some [.array]) none none none none [] [] .allowed (some item)
/-- An object with these properties and no others. -/
def ofObject (required : List String) (properties : List (String × Schema)) : Schema :=
  .mk none none (some [.object]) none none none none required properties .forbidden none
/-- An object all of whose values satisfy a schema. -/
def ofValues (s : Schema) : Schema :=
  .mk none none (some [.object]) none none none none [] [] (.schema s) none

end Schema

/-! ## The checker -/

/-- What a checked value does wrong. -/
inductive Reason where
  | mustEqual (v : PyVal)
  | notAllowed (v : PyVal)
  | wrongType
  | badFormat
  | tooShort
  | outOfRange
  | missing (name : String)
  | unknownField (name : String)

/-- One message of the checker: where in the value, and what is wrong. -/
structure Problem where
  path : String
  reason : Reason

/-- `_has_type(value, name)` -/
def hasType : PyVal → TypeName → Bool
  | .int _, .integer => true
  | .str _, .string => true
  | .badStr _, .string => true
  | .bool _, .boolean => true
  | .null, .null => true
  | .dict _, .object => true
  | .list _, .array => true
  | _, _ => false

/-- The keywords `const` and `enum`. -/
def valueProblems (v : PyVal) (s : Schema) (path : String) : List Problem :=
  (match s.const with
    | some c => if pyEq v c then [] else [⟨path, .mustEqual c⟩]
    | none => []) ++
  (match s.enum with
    | some vs => if pyMem v vs then [] else [⟨path, .notAllowed v⟩]
    | none => [])

/-- The keyword `type`; none when the value has one of the types. -/
def typeProblem (v : PyVal) (s : Schema) (path : String) : Option Problem :=
  match s.types with
  | some ts => if ts.any (hasType v) then none else some ⟨path, .wrongType⟩
  | none => none

/-- The keywords `pattern` and `minLength` on a string. -/
def textProblems (v : PyVal) (s : Schema) (path : String) : List Problem :=
  match v with
  | .str t =>
    (match s.pattern with
      | some p => if p.search t then [] else [⟨path, .badFormat⟩]
      | none => []) ++
    (if t.length < s.minLength.getD 0 then [⟨path, .tooShort⟩] else [])
  | .badStr codes =>
    (if s.pattern.isSome then [⟨path, .badFormat⟩] else []) ++
    (if codes.length < s.minLength.getD 0 then [⟨path, .tooShort⟩] else [])
  | _ => []

/-- The keywords `minimum` and `maximum` on an integer. -/
def rangeProblems (v : PyVal) (s : Schema) (path : String) : List Problem :=
  match v with
  | .int i =>
    if i < s.minimum.getD i ∨ s.maximum.getD i < i then [⟨path, .outOfRange⟩] else []
  | _ => []

/-- The keyword `required`. -/
def requiredProblems (items : List (Key × PyVal)) (s : Schema) (path : String) : List Problem :=
  (s.required.filter fun name => (lookup name items).isNone).map fun name => ⟨path, .missing name⟩

/-- The schema of a named property. -/
def Schema.property (s : Schema) (k : Key) : Option Schema :=
  match k with
  | .str name => (s.properties.find? fun p => p.1 = name).map (·.2)
  | _ => none

mutual

/-- `schema_errors(value, schema, where)` -/
def schemaErrors (v : PyVal) (s : Schema) (path : String) : List Problem :=
  valueProblems v s path ++
    match typeProblem v s path with
    | some p => [p]
    | none =>
      textProblems v s path ++ rangeProblems v s path ++
        match v with
        | .dict items => requiredProblems items s path ++ fieldErrors items s path
        | .list items =>
          match s.items with
          | some t => itemErrors items t path 0
          | none => []
        | _ => []

/-- The fields of an object, by `properties` and `additionalProperties`. -/
def fieldErrors (items : List (Key × PyVal)) (s : Schema) (path : String) : List Problem :=
  match items with
  | [] => []
  | (k, v) :: rest =>
    (match s.property k with
      | some t => schemaErrors v t (path ++ "." ++ k.text)
      | none =>
        match s.extra with
        | .forbidden => [⟨path, .unknownField k.text⟩]
        | .schema t => schemaErrors v t (path ++ "." ++ k.text)
        | .allowed => []) ++ fieldErrors rest s path

/-- The items of an array. -/
def itemErrors (items : List PyVal) (t : Schema) (path : String) (index : ℕ) : List Problem :=
  match items with
  | [] => []
  | v :: rest =>
    schemaErrors v t (path ++ "[" ++ toString index ++ "]") ++ itemErrors rest t path (index + 1)

end

/-! ## The record schema -/

def schemaVersion : PyVal := .int 1

def hexSchema : Schema := .ofPattern [.string] .hex
def nullableHex : Schema := .ofPattern [.string, .null] .hex
def timestampSchema : Schema := .ofPattern [.string] .timestamp
def uuidSchema : Schema := .ofPattern [.string] .uuid
def countSchema : Schema := .ofRange [.integer] 0 none
def countsSchema : Schema := .ofValues countSchema
def nullableText : Schema := .ofTypes [.string, .null]
def textSchema : Schema := .ofTypes [.string]

/-- `VALIDATION_OBJECT` -/
def validationObject : Schema :=
  .ofObject ["available", "compared", "value"]
    [("available", .ofTypes [.boolean]), ("compared", .ofTypes [.boolean]), ("value", .any)]

def attemptOutcomes : List String :=
  ["success", "retryable_failure", "unavailable", "access_denied", "validation_failed", "stopped"]
def candidateReasons : List String :=
  ["validation_failed", "destination_collision", "unsafe_path", "promotion_error", "recovery_review"]
def closeReasons : List String := ["finished", "stopped", "time_limit", "local_failure", "interrupted"]
def failureCodes : List String :=
  ["record_write", "database_write", "permission", "storage", "other_local_failure"]

/-- `EVENT_FIELD_RULES` -/
def eventFieldRules : List (String × List (String × Schema)) :=
  [("run_started",
    [("queue_input_digests", .ofTypes [.array]), ("selection_settings", .ofTypes [.object]),
     ("selected_item_count", countSchema)]),
   ("attempt_finished",
    [("item_id", hexSchema), ("source_url", textSchema),
     ("attempt_number", .ofRange [.integer] 1 none),
     ("request_started_at", timestampSchema), ("request_finished_at", timestampSchema),
     ("final_url", nullableText), ("redirect_chain", .ofArray textSchema),
     ("http_status", .ofRange [.integer, .null] 100 (some 599)),
     ("outcome", .ofEnum attemptOutcomes),
     ("response_content_length", nullableText), ("response_content_range", nullableText),
     ("response_content_type", nullableText), ("response_etag", nullableText),
     ("response_last_modified", nullableText)]),
   ("finalized",
    [("item_id", hexSchema), ("source_url", textSchema), ("logical_relative_path", textSchema),
     ("final_relative_path", textSchema), ("byte_count", countSchema), ("sha256", hexSchema),
     ("validation_method_version", textSchema), ("finalized_at", timestampSchema),
     ("expected_size", validationObject), ("expected_checksum", validationObject),
     ("etag", validationObject), ("last_modified", validationObject)]),
   ("candidate_created",
    [("item_id", hexSchema), ("staging_relative_path", textSchema),
     ("candidate_relative_path", textSchema), ("sha256", nullableHex),
     ("finalization_failure_reason", .ofEnum candidateReasons)]),
   ("run_closed",
    [("closed_at", timestampSchema), ("close_reason", .ofEnum closeReasons),
     ("durable_outcome_counts", countsSchema)]),
   ("local_failure",
    [("failure_code", .ofEnum failureCodes), ("failure_detail", textSchema)])]

/-- `EVENT_TYPES`, sorted. -/
def eventTypes : List String :=
  ["attempt_finished", "candidate_created", "finalized", "local_failure", "run_closed", "run_started"]

/-- The fields every event has. -/
def commonFields : List String :=
  ["schema_version", "event_id", "sequence", "event_type", "run_id", "session_id", "recorded_at",
   "previous_digest", "event_digest"]

/-- `base_properties` with the branch's own event type. -/
def baseProperties (eventType : String) : List (String × Schema) :=
  [("schema_version", .ofConst schemaVersion), ("event_id", uuidSchema),
   ("sequence", .ofRange [.integer] 1 none), ("event_type", .ofConst (.str eventType)),
   ("run_id", .ofText 1), ("session_id", uuidSchema), ("recorded_at", timestampSchema),
   ("previous_digest", nullableHex), ("event_digest", hexSchema)]

/-- The schema branch of one event type. -/
def eventBranch (eventType : String) (rules : List (String × Schema)) : Schema :=
  .ofObject (commonFields ++ rules.map (·.1)) (baseProperties eventType ++ rules)

/-- `event_schema(schema_document(), event_type)` -/
def eventSchema (eventType : String) : Except Failure Schema :=
  match eventFieldRules.find? fun p => p.1 = eventType with
  | some (_, rules) => .ok (eventBranch eventType rules)
  | none => .error (.provenance "unknown provenance event type")

/-- The fields of `summary.json`. -/
def summaryFields : List String :=
  ["schema_version", "run_id", "session_id", "queue_input_digests", "selection_settings",
   "event_count", "final_event_digest", "selected_item_count", "durable_outcome_counts",
   "session_finalized_count", "schema_sha256", "signing_key_fingerprint", "signature"]

/-- `schema_document()["$defs"]["summary"]` -/
def summarySchema : Schema :=
  .ofObject summaryFields
    [("schema_version", .ofConst schemaVersion), ("run_id", .ofText 1), ("session_id", uuidSchema),
     ("queue_input_digests", .ofTypes [.array]), ("selection_settings", .ofTypes [.object]),
     ("event_count", countSchema), ("final_event_digest", nullableHex),
     ("selected_item_count", countSchema), ("durable_outcome_counts", countsSchema),
     ("session_finalized_count", countSchema), ("schema_sha256", hexSchema),
     ("signing_key_fingerprint", hexSchema), ("signature", .ofPattern [.string] .signature)]

/-! ## `schema.json` -/

/-- A dict item that is there only when the keyword is set. -/
def keyword (name : String) (v : Option PyVal) : List (Key × PyVal) :=
  match v with
  | some v => [(.str name, v)]
  | none => []

/-- The value of `type`: one name, or the list of names. -/
def typesValue : List TypeName → PyVal
  | [t] => .str t.text
  | ts => .list (ts.map fun t => .str t.text)

mutual

/-- The dict of a schema. -/
def Schema.toPy : Schema → PyVal
  | .mk const enum types pattern minLength minimum maximum required properties extra items =>
    .dict (keyword "const" const ++ keyword "enum" (enum.map .list) ++
      keyword "type" (types.map typesValue) ++
      keyword "pattern" (pattern.map fun p => .str p.regex) ++
      keyword "minLength" (minLength.map fun n => .int n) ++
      keyword "minimum" (minimum.map .int) ++ keyword "maximum" (maximum.map .int) ++
      (if required.isEmpty then [] else [(.str "required", .list (required.map .str))]) ++
      (if properties.isEmpty then [] else [(.str "properties", .dict (propertiesToPy properties))]) ++
      (match extra with
        | .allowed => []
        | .forbidden => [(.str "additionalProperties", .bool false)]
        | .schema s => [(.str "additionalProperties", s.toPy)]) ++
      (match items with
        | some s => [(.str "items", s.toPy)]
        | none => []))

def propertiesToPy : List (String × Schema) → List (Key × PyVal)
  | [] => []
  | (name, s) :: rest => (.str name, s.toPy) :: propertiesToPy rest

end

/-- `schema_document()` -/
def schemaDocument : PyVal :=
  .dict
    [(.str "$schema", .str "https://json-schema.org/draft/2020-12/schema"),
     (.str "title", .str "Acquisition provenance manifest"),
     (.str "schema_version", schemaVersion), (.str "canonicalization", .str "JCS-RFC8785"),
     (.str "$defs", .dict
      [(.str "event", .dict
        [(.str "oneOf", .list (eventFieldRules.map fun p => (eventBranch p.1 p.2).toPy))]),
       (.str "summary", summarySchema.toPy)])]

end TodDl.Provenance
