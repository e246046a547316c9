/-
  The controller — queue files and the paths of their entries (tod-dl.py).

  `readQueues` yields an entry for each line that is accepted, with the path that
  `relative_path` decodes from its URL.  A `PurePath` is a `PurePosixPath`: whether
  it starts at the root, and components without `/` that are neither empty nor `.`.
-/
import Mathlib.Data.List.TakeWhile
import TodDl.Controller.Config

namespace TodDl.Controller

open Lib.Posix (components isAbsolute mem_components)

/-! ## `PurePosixPath` -/

/-- A path without a drive: a root or none, and its components. -/
structure PurePath where
  root : Bool
  parts : List String
  plain : ∀ c ∈ parts, c ≠ "" ∧ c ≠ "." ∧ '/' ∉ c.toList

namespace PurePath

/-- `PurePosixPath(text)` -/
def ofText (text : String) : PurePath :=
  ⟨isAbsolute text, components text, fun _ => mem_components⟩

/-- `p / q`: a path from the root replaces what is before it. -/
def join (p q : PurePath) : PurePath :=
  if q.root then q
  else ⟨p.root, p.parts ++ q.parts, fun c hc =>
    (List.mem_append.1 hc).elim (p.plain c) (q.plain c)⟩

/-- `PurePosixPath(*texts)` -/
def ofTexts (texts : List String) : PurePath :=
  texts.foldl (fun p text => p.join (.ofText text)) ⟨false, [], by simp⟩

/-- `p.parts` -/
def texts (p : PurePath) : List String := if p.root then "/" :: p.parts else p.parts

/-- `is_unsafe_relative(p)` -/
def isUnsafe (p : PurePath) : Bool := p.root || isUnsafeRelative p.parts

end PurePath

/-! ## `unquote` -/

/-- What a UTF-8 decoder has read of a character: its code point so far, how many
    bytes are missing, and the range of the next one. -/
structure Pending where
  code : ℕ
  missing : ℕ
  low : ℕ := 0x80
  high : ℕ := 0xbf

/-- The first byte of a character, if it can be one. -/
def firstByte (b : ℕ) : Option Pending :=
  if b < 0x80 then some ⟨b, 0, 0x80, 0xbf⟩
  else if b < 0xc2 then none
  else if b < 0xe0 then some ⟨b - 0xc0, 1, 0x80, 0xbf⟩
  else if b < 0xf0 then
    some ⟨b - 0xe0, 2, if b = 0xe0 then 0xa0 else 0x80, if b = 0xed then 0x9f else 0xbf⟩
  else if b < 0xf5 then
    some ⟨b - 0xf0, 3, if b = 0xf0 then 0x90 else 0x80, if b = 0xf4 then 0x8f else 0xbf⟩
  else none

def replacementChar : Char := Char.ofNat 0xfffd

/-- The characters after the first byte of one, and what is pending. -/
def startByte (b : ℕ) : List Char × Option Pending :=
  match firstByte b with
  | none => ([replacementChar], none)
  | some p => if p.missing = 0 then ([Char.ofNat p.code], none) else ([], some p)

/-- The characters after one more byte; a byte that does not fit starts anew. -/
def nextByte (p : Pending) (b : ℕ) : List Char × Option Pending :=
  if p.low ≤ b ∧ b ≤ p.high then
    let code := 64 * p.code + (b - 0x80)
    if p.missing = 1 then ([Char.ofNat code], none) else ([], some ⟨code, p.missing - 1, 0x80, 0xbf⟩)
  else
    let (cs, p') := startByte b
    (replacementChar :: cs, p')

/-- `bytes.decode("utf-8", "replace")` of the runs of bytes between characters. -/
def decodeRuns : Option Pending → List (ℕ ⊕ Char) → List Char
  | none, [] => []
  | some _, [] => [replacementChar]
  | none, .inr c :: rest => c :: decodeRuns none rest
  | some _, .inr c :: rest => replacementChar :: c :: decodeRuns none rest
  | none, .inl b :: rest =>
    let (cs, p) := startByte b
    cs ++ decodeRuns p rest
  | some p, .inl b :: rest =>
    let (cs, p') := nextByte p b
    cs ++ decodeRuns p' rest

def hexValue (c : Char) : Option ℕ :=
  if '0' ≤ c ∧ c ≤ '9' then some (c.toNat - 48)
  else if 'a' ≤ c ∧ c ≤ 'f' then some (c.toNat - 87)
  else if 'A' ≤ c ∧ c ≤ 'F' then some (c.toNat - 55)
  else none

/-- The byte that the two characters after a `%` give. -/
def escapedByte : List Char → Option ℕ
  | a :: b :: _ =>
    match hexValue a, hexValue b with
    | some x, some y => some (16 * x + y)
    | _, _ => none
  | _ => none

/-- ASCII as bytes, and the byte of each `%XX`; `skip` characters were read with the
    `%` before them. -/
def percentBytes : ℕ → List Char → List (ℕ ⊕ Char)
  | _, [] => []
  | skip + 1, _ :: rest => percentBytes skip rest
  | 0, c :: rest =>
    if c.toNat ≥ 128 then .inr c :: percentBytes 0 rest
    else if c ≠ '%' then .inl c.toNat :: percentBytes 0 rest
    else match escapedByte rest with
      | some b => .inl b :: percentBytes 2 rest
      | none => .inl 37 :: percentBytes 0 rest

/-- `unquote(text)` -/
def unquote (text : String) : String := String.ofList (decodeRuns none (percentBytes 0 text.toList))

/-! ## `relative_path` -/

/-- Why a queue line is rejected. -/
inductive LineError where
  | duplicateUrl
  | unrecognizedToken (field : String)
  | duplicateToken (key : String)
  | emptyValue (key : String)
  | badSha256
  | invalidUrl
  | credentials
  | notDataFile
  | unsafePath
  deriving DecidableEq

/-- `relative_path(url)` -/
def relativePath (url : String) : Except LineError PurePath :=
  match urlsplit (url.toList.map Char.toNat) with
  | .error _ => .error .invalidUrl
  | .ok parsed =>
    if hasUserInfo parsed.netloc || !parsed.query.isEmpty then .error .credentials
    else
      let path := parsed.path.dropWhile (· = 47)
      let first := path.takeWhile (· ≠ 47)
      match path.drop first.length with
      | [] => .error .notDataFile
      | _ :: rest =>
        if ofCodes rest ∈ ["", "ALL_FILES", "data/ALL_FILES"] then .error .notDataFile
        else
          let tail := (PurePath.ofText (ofCodes rest)).texts.map unquote
          let path := (PurePath.ofText (unquote (ofCodes first))).join (.ofTexts tail)
          if path.isUnsafe then .error .unsafePath else .ok path

/-- The segments of the path of a URL, after the slashes in front of it. -/
def urlSegments (url : String) : List (List ℕ) :=
  match urlsplit (url.toList.map Char.toNat) with
  | .error _ => []
  | .ok parsed => (parsed.path.dropWhile (· = 47)).splitOn 47

/-- What `relative_path` makes of the first segment of a URL and of what follows. -/
def decodedPath (first rest : List ℕ) : PurePath :=
  (PurePath.ofText (unquote (ofCodes first))).join
    (.ofTexts ((PurePath.ofText (ofCodes rest)).texts.map unquote))

theorem drop_length_takeWhile {α : Type*} (p : α → Bool) (l : List α) :
    l.drop (l.takeWhile p).length = l.dropWhile p := by
  induction l with
  | nil => rfl
  | cons a l ih => cases h : p a <;> simp [h, ih]

/-- What follows the first segment starts with a slash. -/
theorem splitOn_of_drop {whole rest : List ℕ} {c : ℕ}
    (h : whole.drop (whole.takeWhile (· ≠ 47)).length = c :: rest) :
    whole.splitOn 47 = whole.takeWhile (· ≠ 47) :: rest.splitOn 47 := by
  have hwhole := List.takeWhile_append_dropWhile (p := fun c : ℕ => decide (c ≠ 47)) (l := whole)
  set first := whole.takeWhile (· ≠ 47) with hfirst
  rw [drop_length_takeWhile] at h
  have hc : c = 47 := by
    have hhead := List.head?_dropWhile_not (fun c : ℕ => decide (c ≠ 47)) whole
    rw [h] at hhead
    simpa using hhead
  have hno : 47 ∉ first := fun hmem => by simpa using List.mem_takeWhile_imp hmem
  rw [h, hc] at hwhole
  rw [← hwhole]
  exact List.splitOn_append_cons_self_of_not_mem hno rest

theorem relativePath_eq_ok {url : String} {path : PurePath} (h : relativePath url = .ok path) :
    ∃ first rest, urlSegments url = first :: rest.splitOn 47 ∧ path = decodedPath first rest ∧
      path.isUnsafe = false := by
  unfold relativePath at h
  unfold urlSegments
  cases hsplit : urlsplit (url.toList.map Char.toNat) with
  | error f => rw [hsplit] at h; cases h
  | ok parsed =>
    simp only [hsplit] at h ⊢
    split at h
    · cases h
    · split at h
      · cases h
      · next rest hrest =>
        split at h
        · cases h
        · split at h
          · cases h
          · next hsafe =>
            obtain rfl := Except.ok.inj h
            exact ⟨_, rest, splitOn_of_drop hrest, rfl, by simpa using hsafe⟩

theorem legacyRelativePath_eq_some {url : String} {legacy : List String}
    (h : legacyRelativePath url = some legacy) :
    ∃ first rest, urlSegments url = first :: rest.splitOn 47 ∧
      47 ∉ first ∧ legacy = components (ofCodes first) ++ components (ofCodes rest) ∧
      isUnsafeRelative legacy = false := by
  unfold legacyRelativePath at h
  unfold urlSegments
  cases hsplit : urlsplit (url.toList.map Char.toNat) with
  | error f => rw [hsplit] at h; cases h
  | ok parsed =>
    simp only [hsplit] at h ⊢
    split at h
    · cases h
    · split at h
      · cases h
      · next rest hrest =>
        split at h
        · cases h
        · split at h
          · cases h
          · split at h
            · cases h
            · next hsafe =>
              obtain rfl := Option.some.inj h
              refine ⟨_, rest, splitOn_of_drop hrest, fun hmem => ?_, rfl, by simpa using hsafe⟩
              simpa using List.mem_takeWhile_imp hmem

/-! ## `read_queues` -/

theorem afterScheme_suffix (url : List ℕ) : Provenance.afterScheme url <:+ url := by
  simp only [Provenance.afterScheme]
  split
  · next rest _ _ hdrop _ =>
    split
    · exact (List.suffix_cons _ rest).trans (hdrop ▸ List.drop_suffix _ _)
    · exact List.suffix_rfl
  · exact List.suffix_rfl

/-- The path is a part of the URL. -/
theorem mem_of_mem_path {url : List ℕ} {parsed : SplitUrl} {c : ℕ} (h : urlsplit url = .ok parsed)
    (hc : c ∈ parsed.path) : c ∈ url := by
  cases hn : Provenance.netloc url with
  | error f => simp [urlsplit, hn, bind, Except.bind] at h
  | ok netloc =>
    simp only [urlsplit, hn, bind, Except.bind, pure, Except.pure, Except.ok.injEq] at h
    subst h
    have hrest := (List.takeWhile_sublist _).mem ((List.takeWhile_sublist _).mem hc)
    have hscheme : c ∈ Provenance.afterScheme
        ((url.dropWhile (· ≤ 32)).filter fun c => c ≠ 9 && c ≠ 10 && c ≠ 13) := by
      split at hrest
      · next heq =>
        rw [heq]
        exact List.mem_cons_of_mem _ (List.mem_cons_of_mem _ (List.mem_of_mem_drop hrest))
      · exact hrest
    exact (List.dropWhile_sublist _).mem
      (List.mem_of_mem_filter ((afterScheme_suffix _).sublist.mem hscheme))

/-- An accepted URL has a slash in its path. -/
theorem urlsplit_of_relativePath {url : String} {path : PurePath} (h : relativePath url = .ok path) :
    ∃ parsed, urlsplit (url.toList.map Char.toNat) = .ok parsed ∧ 47 ∈ parsed.path := by
  obtain ⟨first, rest, hseg, -⟩ := relativePath_eq_ok h
  unfold urlSegments at hseg
  split at hseg
  · cases hseg
  · next parsed hsplit =>
    refine ⟨parsed, hsplit, ?_⟩
    -- a path without a slash has one segment only
    by_contra hno
    rw [List.splitOn_eq_singleton fun hd => hno ((List.dropWhile_sublist _).mem hd)] at hseg
    exact List.splitOn_ne_nil _ _ (List.cons.inj hseg).2.symm

theorem slash_of_relativePath {url : String} {path : PurePath} (h : relativePath url = .ok path) :
    '/' ∈ url.toList := by
  obtain ⟨parsed, hsplit, hmem⟩ := urlsplit_of_relativePath h
  obtain ⟨c, hc, hcode⟩ := List.mem_map.1 (mem_of_mem_path hsplit hmem)
  rwa [show '/' = c from Char.toNat_inj.1 hcode.symm]

/-- `QUEUE_LINE_TOKEN_KEYS` -/
def queueLineTokenKeys : List String := ["size", "sha256", "generation"]

/-- One field of `parse_queue_line_tokens`, after the tokens before it. -/
def parseToken (tokens : List (String × String)) (field : String) :
    Except LineError (List (String × String)) :=
  let key := String.ofList (field.toList.takeWhile (· ≠ '='))
  match field.toList.dropWhile (· ≠ '=') with
  | [] => .error (.unrecognizedToken field)
  | _ :: value =>
    if key ∉ queueLineTokenKeys then .error (.unrecognizedToken field)
    else if tokens.any (·.1 = key) then .error (.duplicateToken key)
    else if value.isEmpty then .error (.emptyValue key)
    else if key ≠ "sha256" then .ok (tokens ++ [(key, String.ofList value)])
    else if value.length = 64 && value.all fun c => (hexValue c).isSome then
      .ok (tokens ++ [(key, (String.ofList value).toLower)])
    else .error .badSha256

/-- `parse_queue_line_tokens(fields)` -/
def parseQueueLineTokens (fields : List String) : Except LineError (List (String × String)) :=
  fields.foldlM parseToken []

/-- `tokens.get(key)` -/
def token (tokens : List (String × String)) (key : String) : Option String :=
  (tokens.find? fun p => p.1 = key).map (·.2)

/-- What is yielded for a URL. -/
def queueEntry (url : String) (tokens : List (String × String)) : Except LineError QueueEntry :=
  match h : relativePath url with
  | .error e => .error e
  | .ok path => .ok
    { url, hasSlash := slash_of_relativePath h, rel := path.parts,
      inventorySize := token tokens "size", expectedSha256 := token tokens "sha256",
      generation := token tokens "generation" }

/-- The state of `read_queues`: what was seen, yielded and rejected. -/
structure Reading where
  seen : List String := []
  entries : List QueueEntry := []
  rejected : List (String × LineError) := []

/-- `on_reject(url, reason)` -/
def Reading.reject (r : Reading) (url : String) (e : LineError) : Reading :=
  { r with rejected := r.rejected ++ [(url, e)] }

/-- One line of a queue file. -/
def readLine (r : Reading) (line : String) : Reading :=
  match (Store.splitWords line.toList []).map String.ofList with
  | [] => r
  | url :: fields =>
    if url.toList.head? = some '#' then r
    else if url ∈ r.seen then r.reject url .duplicateUrl
    else match parseQueueLineTokens fields with
      | .error e => r.reject url e
      | .ok tokens =>
        let r := { r with seen := url :: r.seen }
        match queueEntry url tokens with
        | .error e => r.reject url e
        | .ok entry => { r with entries := r.entries ++ [entry] }

/-- `read_queues(paths, on_reject)` on the lines of the files. -/
def readQueues (files : List (List String)) : Reading := files.flatten.foldl readLine {}

theorem queueEntry_eq_ok {url : String} {tokens : List (String × String)} {entry : QueueEntry}
    (h : queueEntry url tokens = .ok entry) :
    entry.url = url ∧ ∃ path, relativePath url = .ok path ∧ entry.rel = path.parts := by
  unfold queueEntry at h
  split at h
  · cases h
  · next path hpath =>
    obtain rfl := Except.ok.inj h
    exact ⟨rfl, path, hpath, rfl⟩

theorem word_splitWords {cs word : List Char} (hword : ∀ c ∈ word, Store.isPySpace c = false) :
    ∀ w ∈ Store.splitWords cs word, ∀ c ∈ w, Store.isPySpace c = false := by
  induction cs generalizing word with
  | nil =>
    intro w hw
    rw [Store.splitWords] at hw
    split at hw
    · cases hw
    · rw [List.mem_singleton.1 hw]
      simpa using hword
  | cons c cs ih =>
    rw [Store.splitWords]
    split
    · split
      · exact ih (by simp)
      · intro w hw
        rcases List.mem_cons.1 hw with rfl | hw
        · simpa using hword
        · exact ih (by simp) w hw
    · next hc => exact ih (List.forall_mem_cons.2 ⟨by simpa using hc, hword⟩)

/-- What holds of a reading: its entries have distinct URLs that were seen, and these
    are words with a path. -/
structure Reading.Valid (r : Reading) : Prop where
  seen : ∀ entry ∈ r.entries, entry.url ∈ r.seen
  nodup : (r.entries.map (·.url)).Nodup
  path : ∀ entry ∈ r.entries, ∃ path, relativePath entry.url = .ok path ∧ entry.rel = path.parts
  word : ∀ entry ∈ r.entries, ∀ c ∈ entry.url.toList, Store.isPySpace c = false

theorem Reading.Valid.readLine {r : Reading} (h : r.Valid) (line : String) :
    (readLine r line).Valid := by
  unfold TodDl.Controller.readLine
  split
  · exact h
  · next url fields hwords =>
    split
    · exact h
    · split
      · exact ⟨h.seen, h.nodup, h.path, h.word⟩
      · next hurl =>
        split
        · exact ⟨h.seen, h.nodup, h.path, h.word⟩
        · have hseen : ∀ entry ∈ r.entries, entry.url ∈ url :: r.seen := fun entry he =>
            List.mem_cons_of_mem _ (h.seen entry he)
          simp only
          split
          · exact ⟨hseen, h.nodup, h.path, h.word⟩
          · next entry hentry =>
            obtain ⟨rfl, hpath⟩ := queueEntry_eq_ok hentry
            refine ⟨?_, ?_, ?_, ?_⟩
            · intro e he
              rcases List.mem_append.1 he with he | he
              · exact hseen e he
              · rw [List.mem_singleton.1 he]
                exact List.mem_cons_self
            · rw [List.map_append, List.map_singleton, List.nodup_append]
              refine ⟨h.nodup, List.nodup_singleton _, ?_⟩
              rintro _ hmem _ hlast rfl
              obtain ⟨e, he, heq⟩ := List.mem_map.1 hmem
              exact hurl ((List.mem_singleton.1 hlast) ▸ heq ▸ h.seen e he)
            · intro e he
              rcases List.mem_append.1 he with he | he
              · exact h.path e he
              · rw [List.mem_singleton.1 he]
                exact hpath
            · intro e he
              rcases List.mem_append.1 he with he | he
              · exact h.word e he
              · obtain ⟨w, hw, heq⟩ := List.mem_map.1 (hwords ▸ List.mem_cons_self)
                rw [List.mem_singleton.1 he, ← heq, String.toList_ofList]
                exact word_splitWords (by simp) w hw

/-- The entries of the queue files have distinct URLs and the paths of these. -/
theorem valid_readQueues (files : List (List String)) : (readQueues files).Valid := by
  suffices h : ∀ (lines : List String) (r : Reading), r.Valid → (lines.foldl readLine r).Valid from
    h _ _ ⟨by simp, by simp, by simp, by simp⟩
  intro lines
  induction lines with
  | nil => exact fun _ h => h
  | cons line lines ih => exact fun r h => ih _ (h.readLine line)

/-- The queue of a session. -/
def queueOf (files : List (List String)) : Lib.Table QueueEntry.url :=
  ⟨(readQueues files).entries, (valid_readQueues files).nodup⟩

end TodDl.Controller
