/-
  The inventory — the manifest of a listing (inventory.py).

  `writeManifest` turns each entry of a listing into an item, puts it into the bucket
  of its disposition and rank, and reads the buckets in order.  The lines of
  `manifest.jsonl` are taken as the items they encode; the files of the buckets, the
  digests and the sidecar are left out.
-/
import TodDl.Lib.Bucket
import TodDl.Inventory.Listing
import TodDl.Controller.Config

namespace TodDl.Inventory

open Store (isPySpace)
open Controller (urlsplit hasUserInfo ofCodes)

/-- What the Unicode tables of Python give: `str.lower` and `normalize("NFC", text)`. -/
structure Unicode where
  lower : String → String
  nfc : String → String

/-! ## Identity -/

/-- `SEGMENT_SAFE` -/
def segmentSafe : List Char :=
  "ABCDEFGHIJKLMNOPQRSTUVWXYZabcdefghijklmnopqrstuvwxyz0123456789-._~".toList

/-- A digit of `%02X` -/
def hexUpper (n : ℕ) : Char := "0123456789ABCDEF".toList.getD n '0'

/-- `f"%{b:02X}"` -/
def escapeByte (b : UInt8) : List Char := ['%', hexUpper (b.toNat / 16), hexUpper (b.toNat % 16)]

/-- `encode_segment(segment)` -/
def encodeSegment (segment : List Char) : List Char :=
  segment.flatMap fun c =>
    if c ∈ segmentSafe then [c] else (String.utf8EncodeChar c).flatMap escapeByte

/-- `path.split("/")` -/
def segments (path : String) : List (List Char) := path.toList.splitOn '/'

/-- A character below U+0020, or U+007F -/
def isControl (c : Char) : Bool := c.toNat < 0x20 || c.toNat = 0x7f

def unsafeSegmentReason (segment : List Char) : Option String :=
  if segment = [] ∨ segment = ['.'] ∨ segment = ['.', '.'] then
    some ("unsafe segment '" ++ String.ofList segment ++ "'")
  else if segment.any isControl then some "control character in path"
  else none

/-- `unsafe_path_reason(path, name)` -/
def unsafePathReason (path name : String) : Option String :=
  if '/' ∈ name.toList then some "name contains a slash"
  else (segments path).findSome? unsafeSegmentReason

/-- Why a command of the inventory stops. -/
inductive InventoryError where
  | invalidBaseUrl
  | baseUrlForm
  | badGeneration
  | queueUrl (url : Option String)
  | urlTwice (url : String)
  deriving DecidableEq

/-- What `urlsplit` takes off the text before it splits it. -/
def strippedUrl (url : List ℕ) : List ℕ :=
  (url.dropWhile (· ≤ 32)).filter fun c => c ≠ 9 && c ≠ 10 && c ≠ 13

/-- `urlsplit(url).scheme` -/
def urlScheme (url : List ℕ) : List ℕ :=
  let scheme := (strippedUrl url).takeWhile (· ≠ 58)
  match (strippedUrl url).drop scheme.length, scheme with
  | _ :: _, c :: _ =>
    if Provenance.isAsciiAlpha c && scheme.all Provenance.isSchemeChar then
      scheme.map fun c => if 65 ≤ c ∧ c ≤ 90 then c + 32 else c
    else []
  | _, _ => []

/-- `urlsplit(url).fragment` -/
def urlFragment (url : List ℕ) : List ℕ :=
  ((Provenance.afterScheme (strippedUrl url)).dropWhile (· ≠ 35)).drop 1

/-- The host of a netloc before it is lowered, and the text of its port. -/
def hostPort (netloc : List ℕ) : List ℕ × List ℕ :=
  let host := (netloc.reverse.takeWhile (· ≠ 64)).reverse
  match host.dropWhile (· ≠ 91) with
  | _ :: bracketed =>
    (bracketed.takeWhile (· ≠ 93),
      (((bracketed.dropWhile (· ≠ 93)).drop 1).dropWhile (· ≠ 58)).drop 1)
  | [] => (host.takeWhile (· ≠ 58), (host.dropWhile (· ≠ 58)).drop 1)

/-- `parts.port is None or parts.port > 0`; a port that is no number up to 65535 raises
    `ValueError`. -/
def portOk (port : List ℕ) : Except InventoryError Bool :=
  if port = [] then .ok true
  else if port.all fun c => 48 ≤ c && c ≤ 57 then
    let value := port.foldl (fun n c => 10 * n + (c - 48)) 0
    if value ≤ 65535 then .ok (0 < value) else .error .invalidBaseUrl
  else .error .invalidBaseUrl

/-- `text.strip("/")` -/
def stripSlashes (path : List ℕ) : List ℕ :=
  ((path.dropWhile (· = 47)).reverse.dropWhile (· = 47)).reverse

/-- `scheme in ("http", "https")` -/
def isHttp (scheme : List ℕ) : Bool :=
  scheme = "http".toList.map Char.toNat || scheme = "https".toList.map Char.toNat

/-- `"data"` -/
def dataSegment : List ℕ := "data".toList.map Char.toNat

/-- The checks of `parse_base_url` on the parts of the URL. -/
def acceptsBase (baseUrl : String) (parsed : Controller.SplitUrl) (port : Bool) : Bool :=
  let codes := baseUrl.toList.map Char.toNat
  let parts := (stripSlashes parsed.path).splitOn 47
  isHttp (urlScheme codes) && !(hostPort parsed.netloc).1.isEmpty && port
    && !hasUserInfo parsed.netloc && parsed.query.isEmpty && (urlFragment codes).isEmpty
    && (parts.length = 1 || parts.length = 2 && parts.getLast? = some dataSegment)
    && parts.head? ∉ [some [], some [46], some [46, 46]]
    && codes.all (· < 128) && !baseUrl.toList.any isPySpace

/-- `parse_base_url(base_url)`: the normalized base URL and the prefix of destinations. -/
def parseBaseUrl (baseUrl : String) : Except InventoryError (String × String) :=
  let codes := baseUrl.toList.map Char.toNat
  match urlsplit codes with
  | .error _ => .error .invalidBaseUrl
  | .ok parsed => do
    let port ← portOk (hostPort parsed.netloc).2
    if acceptsBase baseUrl parsed port then
      let path := stripSlashes parsed.path
      .ok (ofCodes (urlScheme codes ++ [58, 47, 47] ++ parsed.netloc ++ 47 :: path), ofCodes path)
    else .error .baseUrlForm

/-! ## Policy -/

/-- `DISPOSITIONS`, in their order -/
inductive Disposition where
  | priority | deferred | rejected
  deriving DecidableEq

/-- `DISPOSITIONS.index(disposition)` -/
def Disposition.index : Disposition → ℕ
  | priority => 0
  | deferred => 1
  | rejected => 2

structure Rule where
  id : String
  pathPrefix : List String
  extensions : List String
  names : List String
  disposition : Disposition
  reason : String

structure Policy where
  version : String
  rules : List Rule
  default : Rule

/-- The rule applies to a path and a lowered name. -/
def Rule.applies (rule : Rule) (path : List (List Char)) (lowered : String) : Bool :=
  (rule.pathPrefix = [] || path.take rule.pathPrefix.length = rule.pathPrefix.map String.toList)
    && (rule.extensions = [] || rule.extensions.any fun e => e.toList.isSuffixOf lowered.toList)
    && (rule.names = [] || rule.names.contains lowered)

/-- `classify(policy, path, name)`: the first rule that applies, and its rank. -/
def classify (uni : Unicode) (policy : Policy) (path name : String) : ℕ × Rule :=
  match policy.rules.findIdx? fun rule => rule.applies (segments path) (uni.lower name) with
  | some rank => (rank, policy.rules.getD rank policy.default)
  | none => (policy.rules.length, policy.default)

/-! ## `_write_manifest` -/

/-- A line of the manifest. -/
structure Item where
  line : ℕ
  path : String
  sizeToken : String
  sourceUrl : Option String
  destination : Option String
  flags : List String
  disposition : Disposition
  rule : String
  reason : String
  rank : ℕ

/-- The bucket of an item. -/
def Item.bucket (i : Item) : ℕ ×ₗ ℕ := toLex (i.disposition.index, i.rank)

structure Totals where
  files : ℕ := 0
  priority : ℕ := 0
  deferred : ℕ := 0
  rejected : ℕ := 0
  nfcCollisions : ℕ := 0
  byRule : List (String × ℕ) := []

/-- `by_rule[rule] = by_rule.get(rule, 0) + 1` -/
def countRule (rule : String) : List (String × ℕ) → List (String × ℕ)
  | [] => [(rule, 1)]
  | p :: ps => if p.1 = rule then (rule, p.2 + 1) :: ps else p :: countRule rule ps

/-- The totals after one more item. -/
def Totals.add (t : Totals) (i : Item) : Totals where
  files := t.files + 1
  priority := t.priority + if i.disposition = .priority then 1 else 0
  deferred := t.deferred + if i.disposition = .deferred then 1 else 0
  rejected := t.rejected + if i.disposition = .rejected then 1 else 0
  nfcCollisions := t.nfcCollisions + i.flags.length
  byRule := countRule i.rule t.byRule

/-- The state of the loop of `_write_manifest`. -/
structure Writing where
  totals : Totals := {}
  buckets : List ((ℕ ×ₗ ℕ) × List Item) := []
  seen : List (String × ℕ) := []
  nfcSeen : List (String × ℕ) := []

section
variable (uni : Unicode) (policy : Policy) (base collection : String)

/-- `f"{base}/" + "/".join(encode_segment(s) for s in path.split("/"))` -/
def sourceUrl (path : String) : String :=
  base ++ "/" ++ String.ofList (['/'].intercalate ((segments path).map encodeSegment))

/-- An item that a built-in check rejects. -/
def builtinItem (e : Entry) (rule reason : String) : Item where
  line := e.line
  path := e.path
  sizeToken := e.sizeToken
  sourceUrl := none
  destination := none
  flags := []
  disposition := .rejected
  rule := "builtin:" ++ rule
  reason := reason
  rank := policy.rules.length + 1

/-- An item that the policy classifies; `nfcLine` is the line of an earlier path that
    is equal after normalization. -/
def policyItem (e : Entry) (nfcLine : Option ℕ) : Item where
  line := e.line
  path := e.path
  sizeToken := e.sizeToken
  sourceUrl := some (sourceUrl base e.path)
  destination := some (collection ++ "/" ++ e.path)
  flags := (nfcLine.map fun n => "nfc_collision_with_line:" ++ toString n).toList
  disposition := (classify uni policy e.path e.name).2.disposition
  rule := (classify uni policy e.path e.name).2.id
  reason := (classify uni policy e.path e.name).2.reason
  rank := (classify uni policy e.path e.name).1

/-- The item of an entry, after the entries before it. -/
def Writing.item (w : Writing) (e : Entry) : Item :=
  match unsafePathReason e.path e.name with
  | some reason => builtinItem policy e "unsafe_path" reason
  | none =>
    if e.path = "ALL_FILES" then
      builtinItem policy e "inventory_listing" "root ALL_FILES is the inventory listing itself"
    else match w.seen.lookup e.path with
      | some line => builtinItem policy e "duplicate_path" ("same path as line " ++ toString line)
      | none => policyItem uni policy base collection e (w.nfcSeen.lookup (uni.nfc e.path))

/-- `seen.setdefault(key, line)` -/
def setDefault (key : String) (line : ℕ) (seen : List (String × ℕ)) : List (String × ℕ) :=
  if (seen.lookup key).isSome then seen else seen ++ [(key, line)]

/-- One turn of the loop. -/
def Writing.write (w : Writing) (e : Entry) : Writing :=
  let item := w.item uni policy base collection e
  { totals := w.totals.add item
    buckets := Lib.put item.bucket item w.buckets
    seen := setDefault e.path e.line w.seen
    nfcSeen :=
      if item.sourceUrl.isSome then setDefault (uni.nfc e.path) e.line w.nfcSeen else w.nfcSeen }

/-- `manifest.jsonl`: of the header what the listing decides, and the items. -/
structure Manifest where
  policyVersion : String
  baseUrl : String
  totals : Totals
  items : List Item

/-- `_write_manifest(...)` for the bytes of `raw.txt` -/
def writeManifest (raw : List UInt8) : Manifest :=
  let w := (parse raw).entries.foldl (Writing.write uni policy base collection) {}
  { policyVersion := policy.version, baseUrl := base, totals := w.totals
    items := Lib.collect w.buckets }

end

/-! ## The totals -/

/-- The totals are the counts of the items. -/
structure Totals.Counts (t : Totals) (items : List Item) : Prop where
  files : t.files = items.length
  priority : t.priority = items.countP (·.disposition = .priority)
  deferred : t.deferred = items.countP (·.disposition = .deferred)
  rejected : t.rejected = items.countP (·.disposition = .rejected)
  nfcCollisions : t.nfcCollisions = (items.map (·.flags.length)).sum
  byRule : ∀ rule, (t.byRule.lookup rule).getD 0 = items.countP (·.rule = rule)

theorem lookup_countRule (rule r : String) (counts : List (String × ℕ)) :
    ((countRule rule counts).lookup r).getD 0 =
      (counts.lookup r).getD 0 + if rule = r then 1 else 0 := by
  induction counts with
  | nil =>
    by_cases hr : rule = r
    · simp [countRule, hr]
    · have hr' : (r == rule) = false := by simpa using fun h : r = rule => hr h.symm
      simp [countRule, List.lookup_cons, hr, hr']
  | cons p ps ih =>
    obtain ⟨q, n⟩ := p
    rw [countRule, List.lookup_cons]
    by_cases hq : q = rule
    · rw [if_pos hq, List.lookup_cons, hq]
      by_cases hr : rule = r
      · simp [hr]
      · have hr' : (r == rule) = false := by simpa using fun h : r = rule => hr h.symm
        simp [hr, hr']
    · rw [if_neg hq, List.lookup_cons]
      cases hr : r == q with
      | false => exact ih
      | true =>
        have hne : rule ≠ r := fun h => hq (by rw [h]; exact (beq_iff_eq.1 hr).symm)
        simp [hne]

theorem Totals.Counts.add {t : Totals} {items : List Item} (h : t.Counts items) (i : Item) :
    (t.add i).Counts (items ++ [i]) := by
  refine ⟨?_, ?_, ?_, ?_, ?_, fun rule => ?_⟩
  · simp [Totals.add, h.files]
  · simp [Totals.add, h.priority, List.countP_cons]
  · simp [Totals.add, h.deferred, List.countP_cons]
  · simp [Totals.add, h.rejected, List.countP_cons]
  · simp [Totals.add, h.nfcCollisions]
  · simp [Totals.add, lookup_countRule, h.byRule, List.countP_cons]

theorem Totals.Counts.adds {t : Totals} {items : List Item} (h : t.Counts items)
    (more : List Item) : (more.foldl Totals.add t).Counts (items ++ more) := by
  induction more generalizing t items with
  | nil => simpa using h
  | cons i more ih =>
    rw [List.foldl_cons, ← List.singleton_append, ← List.append_assoc]
    exact ih (h.add i)

theorem Totals.Counts.perm {t : Totals} {items items' : List Item} (h : t.Counts items)
    (hp : items.Perm items') : t.Counts items' where
  files := h.files.trans hp.length_eq
  priority := h.priority.trans (hp.countP_eq _)
  deferred := h.deferred.trans (hp.countP_eq _)
  rejected := h.rejected.trans (hp.countP_eq _)
  nfcCollisions := h.nfcCollisions.trans (hp.map _).sum_eq
  byRule rule := (h.byRule rule).trans (hp.countP_eq _)

/-! ## The items in the order of the listing -/

section
variable (uni : Unicode) (policy : Policy) (base collection : String)

/-- The items of entries, after those before them. -/
def written : Writing → List Entry → List Item
  | _, [] => []
  | w, e :: es =>
    w.item uni policy base collection e :: written (w.write uni policy base collection e) es

variable {uni policy base collection}

theorem written_append (w : Writing) (es es' : List Entry) :
    written uni policy base collection w (es ++ es') =
      written uni policy base collection w es ++
        written uni policy base collection (es.foldl (Writing.write uni policy base collection) w)
          es' := by
  induction es generalizing w with
  | nil => rfl
  | cons e es ih => rw [List.cons_append, written, ih, written, List.foldl_cons, List.cons_append]

theorem buckets_foldl (w : Writing) (es : List Entry) :
    (es.foldl (Writing.write uni policy base collection) w).buckets =
      Lib.puts Item.bucket w.buckets (written uni policy base collection w es) := by
  induction es generalizing w with
  | nil => rfl
  | cons e es ih => exact ih _

theorem totals_foldl (w : Writing) (es : List Entry) :
    (es.foldl (Writing.write uni policy base collection) w).totals =
      (written uni policy base collection w es).foldl Totals.add w.totals := by
  induction es generalizing w with
  | nil => rfl
  | cons e es ih => exact ih _

theorem item_cases (w : Writing) (e : Entry) :
    (∃ rule reason, w.item uni policy base collection e = builtinItem policy e rule reason ∧
      (unsafePathReason e.path e.name ≠ none ∨ e.path = "ALL_FILES" ∨
        w.seen.lookup e.path ≠ none)) ∨
    (∃ nfcLine, w.item uni policy base collection e =
        policyItem uni policy base collection e nfcLine) ∧
      unsafePathReason e.path e.name = none ∧ e.path ≠ "ALL_FILES" ∧
      w.seen.lookup e.path = none := by
  unfold Writing.item
  split
  · next h => exact .inl ⟨_, _, rfl, .inl (by simp [h])⟩
  · next hsafe =>
    split
    · next h => exact .inl ⟨_, _, rfl, .inr (.inl h)⟩
    · next hlisting =>
      split
      · next h => exact .inl ⟨_, _, rfl, .inr (.inr (by simp [h]))⟩
      · next h => exact .inr ⟨⟨_, rfl⟩, hsafe, hlisting, h⟩

variable (uni policy base collection) in
/-- What an item has of its entry. -/
theorem item_entry (w : Writing) (e : Entry) :
    (w.item uni policy base collection e).line = e.line ∧
      (w.item uni policy base collection e).path = e.path ∧
      (w.item uni policy base collection e).sizeToken = e.sizeToken := by
  rcases item_cases w e with ⟨rule, reason, h, -⟩ | ⟨⟨nfcLine, h⟩, -⟩ <;> rw [h] <;>
    exact ⟨rfl, rfl, rfl⟩

variable (uni policy base collection) in
theorem map_written (w : Writing) (es : List Entry) :
    (written uni policy base collection w es).map (fun i => (i.line, i.path, i.sizeToken)) =
      es.map fun e => (e.line, e.path, e.sizeToken) := by
  induction es generalizing w with
  | nil => rfl
  | cons e es ih =>
    obtain ⟨hline, hpath, hsize⟩ := item_entry uni policy base collection w e
    rw [written, List.map_cons, ih, List.map_cons, hline, hpath, hsize]

theorem lookup_setDefault (key k : String) (line : ℕ) (seen : List (String × ℕ)) :
    (setDefault key line seen).lookup k =
      (seen.lookup k).or (if key = k then some line else none) := by
  unfold setDefault
  have hsome : ∀ l : List (String × ℕ), ∀ n, (l ++ [(key, n)]).lookup k =
      (l.lookup k).or (if key = k then some n else none) := by
    intro l n
    by_cases hk : key = k
    · simp [List.lookup_append, hk]
    · have hk' : (k == key) = false := by simpa using fun h : k = key => hk h.symm
      simp [List.lookup_append, List.lookup_cons, hk, hk']
  split
  · next h =>
    by_cases hk : key = k
    · subst hk
      obtain ⟨n, hn⟩ := Option.isSome_iff_exists.1 h
      simp [hn]
    · simp [hk]
  · exact hsome seen line

/-- A path is seen at the line of the first entry that has it. -/
theorem lookup_seen (w : Writing) (es : List Entry) (path : String) :
    (es.foldl (Writing.write uni policy base collection) w).seen.lookup path =
      (w.seen.lookup path).or ((es.find? (·.path = path)).map (·.line)) := by
  induction es generalizing w with
  | nil => simp
  | cons e es ih =>
    rw [List.foldl_cons, ih, Writing.write, lookup_setDefault, Option.or_assoc, List.find?_cons]
    congr 1
    by_cases he : e.path = path <;> simp [he]

/-- No item of a path that was seen carries a URL. -/
theorem written_of_seen {w : Writing} {es : List Entry} {path : String} {line : ℕ}
    (hseen : w.seen.lookup path = some line) :
    ∀ i ∈ written uni policy base collection w es, i.path = path →
      i.sourceUrl = none ∧ i.rank = policy.rules.length + 1 := by
  induction es generalizing w with
  | nil => simp [written]
  | cons e es ih =>
    intro i hi hpath
    rcases List.mem_cons.1 hi with rfl | hi
    · rcases item_cases w e with ⟨rule, reason, h, -⟩ | ⟨⟨nfcLine, h⟩, -, -, hnone⟩
      · rw [h]
        exact ⟨rfl, rfl⟩
      · rw [(item_entry uni policy base collection w e).2.1] at hpath
        rw [hpath, hseen] at hnone
        cases hnone
    · refine ih ?_ i hi hpath
      rw [Writing.write, lookup_setDefault, hseen, Option.some_or]

/-- The first entry of a path decides: its item carries the URL, if the check passes
    it, and no other item of the path does. -/
theorem written_path {es : List Entry} {e : Entry} {path : String}
    (hfirst : es.find? (·.path = path) = some e) (hlisting : path ≠ "ALL_FILES") :
    ∃ before item after, written uni policy base collection {} es = before ++ item :: after ∧
      item.line = e.line ∧ (∀ i ∈ before ++ after, i.path = path → i.sourceUrl = none ∧
        i.rank = policy.rules.length + 1) ∧
      if unsafePathReason path e.name = none then
        ∃ nfcLine, item = policyItem uni policy base collection e nfcLine
      else item.sourceUrl = none := by
  obtain ⟨hpath, es₁, es₂, rfl, hbefore⟩ := List.find?_eq_some_iff_append.1 hfirst
  replace hpath : e.path = path := by simpa using hpath
  replace hbefore : ∀ a ∈ es₁, a.path ≠ path := by simpa using hbefore
  set w := es₁.foldl (Writing.write uni policy base collection) {} with hw
  have hnone : w.seen.lookup path = none := by
    rw [hw, lookup_seen, List.find?_eq_none.2 (by simpa using hbefore)]
    rfl
  refine ⟨_, w.item uni policy base collection e, _, written_append _ _ _,
    (item_entry uni policy base collection w e).1, fun i hi hi' => ?_, ?_⟩
  · rcases List.mem_append.1 hi with hi | hi
    · -- before the first entry there is none of the path
      exfalso
      have hmem : i.path ∈ (written uni policy base collection {} es₁).map (·.path) :=
        List.mem_map_of_mem hi
      have hmap := congrArg (List.map fun t : ℕ × String × String => t.2.1)
        (map_written uni policy base collection {} es₁)
      rw [List.map_map, List.map_map] at hmap
      obtain ⟨a, ha, heq⟩ := List.mem_map.1 (hmap ▸ hmem)
      exact hbefore a ha (heq.trans hi')
    · refine written_of_seen (?_ : _ = some e.line) i hi hi'
      rw [Writing.write, lookup_setDefault, hpath, hnone]
      simp
  · rcases item_cases w e with ⟨rule, reason, h, hwhy⟩ | ⟨⟨nfcLine, h⟩, hsafe, -, -⟩
    · rw [hpath] at hwhy
      rw [if_neg fun hsafe => hwhy.elim (· hsafe) (·.elim hlisting (· hnone)), h]
      rfl
    · rw [hpath] at hsafe
      rw [if_pos hsafe]
      exact ⟨nfcLine, h⟩

/-- An item with a URL is that of the first entry of its path. -/
theorem first_of_url {es : List Entry} {i : Item}
    (hi : i ∈ written uni policy base collection {} es) (hurl : i.sourceUrl ≠ none) :
    ∃ e nfcLine, i = policyItem uni policy base collection e nfcLine ∧
      es.find? (·.path = e.path) = some e ∧ unsafePathReason e.path e.name = none ∧
      e.path ≠ "ALL_FILES" := by
  obtain ⟨es₁, e, es₂, rfl, hitem⟩ : ∃ es₁ e es₂, es = es₁ ++ e :: es₂ ∧
      i = (es₁.foldl (Writing.write uni policy base collection) {}).item uni policy base
        collection e := by
    clear hurl
    generalize ({} : Writing) = w at hi ⊢
    induction es generalizing w with
    | nil => cases hi
    | cons e es ih =>
      rcases List.mem_cons.1 hi with rfl | hi
      · exact ⟨[], e, es, rfl, rfl⟩
      · obtain ⟨es₁, e', es₂, rfl, h⟩ := ih _ hi
        exact ⟨e :: es₁, e', es₂, rfl, h⟩
  rcases item_cases (es₁.foldl (Writing.write uni policy base collection) {}) e with
    ⟨rule, reason, h, -⟩ | ⟨⟨nfcLine, h⟩, hsafe, hlisting, hseen⟩
  · exact absurd (by rw [hitem, h]; rfl) hurl
  · refine ⟨e, nfcLine, hitem.trans h, ?_, hsafe, hlisting⟩
    rw [lookup_seen] at hseen
    have hnone : es₁.find? (·.path = e.path) = none := by simpa using hseen
    rw [List.find?_append, hnone]
    simp

/-- An item without a URL is rejected. -/
theorem rejected_of_url {w : Writing} {es : List Entry} {i : Item}
    (hi : i ∈ written uni policy base collection w es) (hurl : i.sourceUrl = none) :
    i.disposition = .rejected := by
  induction es generalizing w with
  | nil => cases hi
  | cons e es ih =>
    rcases List.mem_cons.1 hi with rfl | hi
    · rcases item_cases w e with ⟨rule, reason, h, -⟩ | ⟨⟨nfcLine, h⟩, -⟩
      · rw [h]
        rfl
      · rw [h] at hurl
        cases hurl
    · exact ih hi

variable (uni policy base collection)

/-- The items are those of the entries in another order. -/
theorem perm_items (raw : List UInt8) : (writeManifest uni policy base collection raw).items.Perm
    (written uni policy base collection {} (parse raw).entries) := by
  refine (Lib.perm_collect _).trans ?_
  rw [buckets_foldl]
  exact (Lib.perm_puts Item.bucket [] _)

theorem pairwise_items (raw : List UInt8) :
    (writeManifest uni policy base collection raw).items.Pairwise fun a b =>
      a.bucket < b.bucket ∨ a.bucket = b.bucket ∧ a.line < b.line := by
  have hlines : (written uni policy base collection {} (parse raw).entries).Pairwise
      fun a b => a.line < b.line := by
    have hmap := congrArg (List.map fun t : ℕ × String × String => t.1)
      (map_written uni policy base collection {} (parse raw).entries)
    rw [List.map_map, List.map_map] at hmap
    have hsorted := List.pairwise_map (f := Entry.line) (R := (· < ·)) |>.2 (pairwise_line raw)
    exact List.pairwise_map.1 (hmap ▸ hsorted)
  have h := Lib.pairwise_collect (Lib.bucketed_puts Item.bucket hlines)
  simpa only [writeManifest, buckets_foldl] using h

/-- The first entry of a path has an item, and the others of the path are rejected. -/
theorem exists_firstItem {raw : List UInt8} {path : String} {e : Entry} (hlisting : path ≠ "ALL_FILES")
    (hfind : (parse raw).entries.find? (·.path = path) = some e) :
    ∃ item ∈ (writeManifest uni policy base collection raw).items, item.line = e.line ∧
      (if unsafePathReason path e.name = none then
        ∃ nfcLine, item = policyItem uni policy base collection e nfcLine
      else item.sourceUrl = none) ∧
      ∀ other ∈ (writeManifest uni policy base collection raw).items, other.path = path →
        other ≠ item → other.sourceUrl = none ∧ other.rank = policy.rules.length + 1 := by
  have hperm := perm_items uni policy base collection raw
  obtain ⟨before, item, after, hw, hline, hothers, hitem⟩ := written_path hfind hlisting
  refine ⟨item, hperm.symm.subset (hw ▸ by simp), hline, hitem, ?_⟩
  intro other ho hpath hne
  refine hothers other ?_ hpath
  have := hw ▸ hperm.subset ho
  simp only [List.mem_append, List.mem_cons] at this ⊢
  tauto

/-- A manifest that has an item for each entry of a listing, in order, and counts them;
    the first entry of a path, if the check passes it, is classified and carries the URL
    of the path, and no other item does. -/
structure Manifest.Complete (uni : Unicode) (policy : Policy) (base collection : String)
    (entries : List Entry) (manifest : Manifest) : Prop where
  lines : (manifest.items.map fun i => (i.line, i.path, i.sizeToken)).Perm
    (entries.map fun e => (e.line, e.path, e.sizeToken))
  ordered : manifest.items.Pairwise fun a b =>
    a.bucket < b.bucket ∨ a.bucket = b.bucket ∧ a.line < b.line
  counted : manifest.totals.Counts manifest.items
  classified : ∀ path e, path ≠ "ALL_FILES" → entries.find? (·.path = path) = some e →
    unsafePathReason path e.name = none → ∃ item ∈ manifest.items, item.line = e.line ∧
      (∃ nfcLine, item = policyItem uni policy base collection e nfcLine) ∧
      ∀ other ∈ manifest.items, other.path = path → other ≠ item →
        other.sourceUrl = none ∧ other.rank = policy.rules.length + 1
  rejected : ∀ path e, path ≠ "ALL_FILES" → entries.find? (·.path = path) = some e →
    unsafePathReason path e.name ≠ none →
      ∀ item ∈ manifest.items, item.path = path → item.sourceUrl = none

/-- **The manifest is complete.** -/
theorem writeManifest_complete (raw : List UInt8) :
    (writeManifest uni policy base collection raw).Complete uni policy base collection
      (parse raw).entries := by
  have hperm : (writeManifest uni policy base collection raw).items.Perm
      (written uni policy base collection {} (parse raw).entries) :=
    perm_items uni policy base collection raw
  constructor
  · rw [← map_written uni policy base collection {} (parse raw).entries]
    exact hperm.map _
  · exact pairwise_items uni policy base collection raw
  · have hcounts : Totals.Counts {} [] := ⟨rfl, rfl, rfl, rfl, rfl, fun _ => rfl⟩
    have h := hcounts.adds (written uni policy base collection {} (parse raw).entries)
    have htotals : (writeManifest uni policy base collection raw).totals = _ :=
      totals_foldl {} (parse raw).entries
    rw [htotals]
    exact h.perm hperm.symm
  · intro path e hlisting hfind hsafe
    obtain ⟨item, hmem, hline, hitem, hothers⟩ := exists_firstItem uni policy base collection
      hlisting hfind
    rw [if_pos hsafe] at hitem
    exact ⟨item, hmem, hline, hitem, hothers⟩
  · intro path e hlisting hfind hkept i hi hpath
    obtain ⟨item, -, -, hitem, hothers⟩ := exists_firstItem uni policy base collection
      hlisting hfind
    rw [if_neg hkept] at hitem
    by_cases hsame : i = item
    · exact hsame ▸ hitem
    · exact (hothers i hi hpath hsame).1

end

/-- Deferring every file. -/
def deferAll : Policy := ⟨"1", [], ⟨"default", [], [], [], .deferred, "no rule matched"⟩⟩

/-- Tables that know ASCII only. -/
def asciiTables : Unicode := ⟨String.toLower, id⟩

/-- A name with a slash, then the file that has the same path. -/
def slashListing : List UInt8 := Provenance.utf8 "a:\n\n- 1 b/c\n\na/b:\n\n- 2 c\n".toList

/-- The file is a duplicate of a name that the check rejected. -/
theorem slash_hides_file : ¬ ∀ (uni : Unicode) (policy : Policy) (base collection : String)
    (raw : List UInt8) (path : String), path ≠ "ALL_FILES" →
    (∃ e ∈ (parse raw).entries, e.path = path ∧ unsafePathReason path e.name = none) →
    ∃ item ∈ (writeManifest uni policy base collection raw).items,
      item.path = path ∧ item.sourceUrl.isSome := by
  intro h
  have hentry : (parse slashListing).entries.any (fun e =>
      e.path = "a/b/c" && (unsafePathReason "a/b/c" e.name).isNone) = true := by decide
  have hitems : (writeManifest asciiTables deferAll "http://h/C" "C" slashListing).items.all
      (fun i => i.path ≠ "a/b/c" || i.sourceUrl.isNone) = true := by decide
  obtain ⟨e, he, heq⟩ := List.any_eq_true.1 hentry
  obtain ⟨item, hitem, hpath, hurl⟩ := h asciiTables deferAll "http://h/C" "C" slashListing "a/b/c"
    (by decide) ⟨e, he, by simpa using heq⟩
  have hnone := List.all_eq_true.1 hitems item hitem
  simp [hpath] at hnone
  simp [hnone] at hurl

end TodDl.Inventory
