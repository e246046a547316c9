/-
  The controller — the response in an engine's log (tod-dl.py,
  `parse_aria2_response_log`).

  `IsLog` is the grammar of a log: lines, and responses with their header lines.  Every
  text is a log in one way (`exists_isLog`, `IsLog.unique`), and the parser reads it so
  (`readLog_eq`).

  `safelyParsed_iff`: the parser returns the last response, without a URL with user-info,
  exactly if `urlsplit` refuses no URL before the first one with user-info.
-/
import TodDl.Controller.Transfer
import TodDl.Controller.Queue
import TodDl.Provenance.Valid

namespace TodDl.Controller

open Provenance (Failure isDigit PyVal Valid ValidField eventSchema)
open Store (isPySpace)

/-! ## Lines -/

abbrev Line := List Char

/-- The line ends of `str.splitlines()`. -/
def lineEnds : List ℕ := [0x0a, 0x0b, 0x0c, 0x0d, 0x1c, 0x1d, 0x1e, 0x85, 0x2028, 0x2029]

/-- `text.splitlines()`; `line` is the part of the current line before the rest. -/
def splitLines : Line → List Char → List Line
  | line, [] => if line.isEmpty then [] else [line]
  | line, '\r' :: '\n' :: rest => line :: splitLines [] rest
  | line, c :: rest =>
    if c.toNat ∈ lineEnds then line :: splitLines [] rest else splitLines (line ++ [c]) rest

/-- `line.endswith("Response received:")` -/
def announces (line : Line) : Bool := "Response received:".toList.isSuffixOf line

/-- `not line.strip()` -/
def isBlank (line : Line) : Bool := (strip line).isEmpty

/-- The URL of `- Redirecting to (\S+)$` in a line. -/
def redirectOf (line : Line) : Option Line :=
  let url := (line.reverse.takeWhile fun c => !isPySpace c).reverse
  if url ≠ [] && "- Redirecting to ".toList.isSuffixOf (line.take (line.length - url.length)) then
    some url
  else none

/-- What Python knows beyond ASCII and IP literals. -/
structure Library where
  /-- `str.isalnum` of one character: it is a letter (of a category `L*`), a decimal digit, a
      digit or a numeric character of the Unicode database -/
  isAlnum : Char → Bool
  /-- `urlsplit` raises ValueError for the netloc, whose brackets come in pairs.  It does if what
      stands between a `[` and the `]` after it is neither an IPv6 address nor a `v` with
      hexadecimal digits, a dot and more; or if the netloc is not ASCII, and NFKC changes the text
      without `@`, `:`, `#` and `?` to one with a character of `/?#@:`. -/
  refusesNetloc : List ℕ → Bool

/-- What follows `HTTP/\d(?:\.\d)? ` where `HTTP/\d` is read already. -/
def afterVersion : Line → Option Line
  | '.' :: d :: ' ' :: rest => if isDigit d then some rest else none
  | ' ' :: rest => some rest
  | _ => none

namespace Library
variable (lib : Library)

/-- `\w` -/
def isWord (c : Char) : Bool := lib.isAlnum c || c = '_'

/-- The status of `HTTP/\d(?:\.\d)? (\d{3})\b`. -/
def statusOf (line : Line) : Option ℕ :=
  match line with
  | 'H' :: 'T' :: 'T' :: 'P' :: '/' :: d :: rest =>
    match if isDigit d then afterVersion rest else none with
    | some (a :: b :: c :: rest) =>
      if [a, b, c].all isDigit && !(rest.head?.any lib.isWord) then
        some (100 * digitValue a + 10 * digitValue b + digitValue c)
      else none
    | _ => none
  | _ => none

/-- `urlsplit(url).netloc` -/
def netloc (url : Line) : Except Failure (List ℕ) := do
  let netloc ← Provenance.netloc (url.map Char.toNat)
  if lib.refusesNetloc netloc then throw .valueError else return netloc

end Library

/-! ## The parser -/

/-- The headers of a response, by lower-case name. -/
abbrev Headers := List (Line × String)

/-- `headers.setdefault(name.strip().lower(), value.strip())` for a line with a colon. -/
def addHeader (headers : Headers) (line : Line) : Headers :=
  let name := line.takeWhile (· ≠ ':')
  match line.drop name.length with
  | [] => headers
  | _ :: value =>
    let key := (strip name).map Char.toLower
    if headers.any (·.1 = key) then headers else headers ++ [(key, String.ofList (strip value))]

/-- `headers.get(name)` -/
def headerOf (headers : Headers) (name : String) : Option String :=
  (headers.find? fun h => h.1 = name.toList).map (·.2)

/-- `urls` without the source, and `response`. -/
structure LogState where
  redirects : List Line := []
  response : Option (ℕ × Headers) := none

section
variable (lib : Library)

/-- A response counts if its status line is one. -/
def LogState.respond (s : LogState) (status : Line) (headers : List Line) : LogState :=
  match lib.statusOf status with
  | some code => { s with response := some (code, headers.foldl addHeader []) }
  | none => s

/-- A line outside a response. -/
def LogState.redirect (s : LogState) (line : Line) : LogState :=
  match redirectOf line with
  | some url => { s with redirects := s.redirects ++ [url] }
  | none => s

/-- The loop over the lines: the rest from `index` on. -/
def readLog (lines : List Line) (s : LogState) : LogState :=
  match lines with
  | [] => s
  | line :: rest =>
    if announces line then
      let headers := (rest.drop 1).takeWhile fun l => !isBlank l
      readLog ((rest.drop 1).drop headers.length) (s.respond lib (rest.headD []) headers)
    else readLog rest (s.redirect line)
termination_by lines.length
decreasing_by
  · simp only [List.length_drop, List.length_cons]
    omega
  · exact Nat.lt_succ_self _

/-- `any(parts.username is not None or … for parts in map(urlsplit, urls))` -/
def anyCredentialed : List Line → Except Failure Bool
  | [] => .ok false
  | url :: urls => do
    if (← lib.netloc url).contains 64 then return true
    else anyCredentialed urls

/-- `fields` -/
def foundResponse (status : ℕ) (headers : Headers) (urls : List Line) (credentialed : Bool) :
    Response where
  finalUrl := if credentialed then none else some (String.ofList (urls.getLastD []))
  redirectChain := if credentialed then [] else (urls.drop 1).dropLast.map String.ofList
  httpStatus := if 100 ≤ status ∧ status ≤ 599 then some status else none
  contentLength := headerOf headers "content-length"
  contentRange := headerOf headers "content-range"
  contentType := headerOf headers "content-type"
  etag := headerOf headers "etag"
  lastModified := headerOf headers "last-modified"

/-- `parse_aria2_response_log(text, source_url)`; no response is the empty dict. -/
def parseAria2ResponseLog (text sourceUrl : String) : Except Failure (Option Response) := do
  let log := readLog lib (splitLines [] text.toList) {}
  match log.response with
  | none => return none
  | some (status, headers) =>
    let urls := sourceUrl.toList :: log.redirects
    return some (foundResponse status headers urls (← anyCredentialed lib urls))

end

/-! ## The grammar of a log -/

/-- A part of a log. -/
inductive LogPart where
  | line (l : Line)
  /-- what follows the announcement of a response -/
  | response (status : Line) (headers : List Line)

/-- The lines are the parts, one after another. -/
inductive IsLog : List Line → List LogPart → Prop
  | nil : IsLog [] []
  | line {l : Line} {rest : List Line} {parts : List LogPart} (hl : announces l = false) :
    IsLog rest parts → IsLog (l :: rest) (.line l :: parts)
  /-- the headers go on to the next blank line -/
  | response {l status : Line} {headers rest : List Line} {parts : List LogPart}
    (hl : announces l = true) (hheaders : ∀ h ∈ headers, isBlank h = false)
    (hrest : ∀ next ∈ rest.head?, isBlank next = true) :
    IsLog rest parts → IsLog (l :: status :: (headers ++ rest)) (.response status headers :: parts)
  /-- the text ends with the announcement -/
  | cut {l : Line} (hl : announces l = true) : IsLog [l] [.response [] []]

/-- The URLs that the lines outside responses redirect to. -/
def redirects (parts : List LogPart) : List Line := parts.filterMap fun
  | .line l => redirectOf l
  | .response _ _ => none

/-- The responses with a status line. -/
def responses (lib : Library) (parts : List LogPart) : List (ℕ × Headers) := parts.filterMap fun
  | .line _ => none
  | .response status headers =>
    (lib.statusOf status).map fun code => (code, headers.foldl addHeader [])

section
variable {lib : Library} {lines : List Line} {parts parts' : List LogPart} {s : LogState}

/-- The headers of a response end where its rest begins. -/
theorem takeWhile_headers {headers rest : List Line} (hheaders : ∀ h ∈ headers, isBlank h = false)
    (hrest : ∀ next ∈ rest.head?, isBlank next = true) :
    (headers ++ rest).takeWhile (fun l => !isBlank l) = headers := by
  rw [List.takeWhile_append_of_pos fun h hh => by simp [hheaders h hh]]
  cases rest with
  | nil => simp
  | cons next rest =>
    rw [List.takeWhile_cons_of_neg (by simp [hrest next (by simp)]), List.append_nil]

/-- Every text is a log. -/
theorem exists_isLog (lines : List Line) : ∃ parts, IsLog lines parts := by
  induction hn : lines.length using Nat.strong_induction_on generalizing lines with
  | _ n ih =>
    cases lines with
    | nil => exact ⟨[], .nil⟩
    | cons l rest =>
      cases hl : announces l with
      | false =>
        obtain ⟨parts, hparts⟩ := ih rest.length (by simp [← hn]) rest rfl
        exact ⟨.line l :: parts, .line hl hparts⟩
      | true =>
        cases rest with
        | nil => exact ⟨_, .cut hl⟩
        | cons status body =>
          have hlen : (body.dropWhile fun l => !isBlank l).length ≤ body.length :=
            (List.dropWhile_sublist _).length_le
          obtain ⟨parts, hparts⟩ := ih (body.dropWhile fun l => !isBlank l).length
            (by simp only [← hn, List.length_cons]; omega) _ rfl
          have hheaders : ∀ h ∈ body.takeWhile (fun l => !isBlank l), isBlank h = false :=
            fun h hh => by simpa using List.mem_takeWhile_imp hh
          have hrest : ∀ next ∈ (body.dropWhile fun l => !isBlank l).head?,
              isBlank next = true := by
            intro next hnext
            have hstop := List.head?_dropWhile_not (fun l => !isBlank l) body
            rw [Option.mem_def.1 hnext] at hstop
            simpa using hstop
          have hlog : IsLog (l :: status :: _) _ := .response hl hheaders hrest hparts
          rw [List.takeWhile_append_dropWhile] at hlog
          exact ⟨_, hlog⟩

theorem dropWhile_headers {headers rest : List Line} (hheaders : ∀ h ∈ headers, isBlank h = false)
    (hrest : ∀ next ∈ rest.head?, isBlank next = true) :
    (headers ++ rest).dropWhile (fun l => !isBlank l) = rest := by
  have h := List.takeWhile_append_dropWhile (p := fun l => !isBlank l) (l := headers ++ rest)
  rw [takeWhile_headers hheaders hrest] at h
  exact List.append_cancel_left h

/-- What the first part of a log is. -/
inductive FirstPart (l : Line) (rest : List Line) : List LogPart → Prop
  | line {parts : List LogPart} (hl : announces l = false) (h : IsLog rest parts) :
    FirstPart l rest (.line l :: parts)
  | cut (hl : announces l = true) (hrest : rest = []) : FirstPart l rest [.response [] []]
  | response {status : Line} {body : List Line} {parts : List LogPart} (hl : announces l = true)
    (hrest : rest = status :: body) (h : IsLog (body.dropWhile fun l => !isBlank l) parts) :
    FirstPart l rest (.response status (body.takeWhile fun l => !isBlank l) :: parts)

theorem IsLog.firstPart {l : Line} {rest : List Line} (h : IsLog (l :: rest) parts) :
    FirstPart l rest parts := by
  generalize hlines : l :: rest = lines at h
  cases h with
  | nil => cases hlines
  | line hl h =>
    obtain ⟨rfl, rfl⟩ := List.cons.inj hlines
    exact .line hl h
  | cut hl =>
    obtain ⟨rfl, rfl⟩ := List.cons.inj hlines
    exact .cut hl rfl
  | @response _ status headers after parts hl hheaders hrest h =>
    obtain ⟨rfl, rfl⟩ := List.cons.inj hlines
    have hbody : IsLog ((headers ++ after).dropWhile fun l => !isBlank l) parts := by
      rw [dropWhile_headers hheaders hrest]
      exact h
    have hfirst : FirstPart l (status :: (headers ++ after)) _ := .response hl rfl hbody
    rwa [takeWhile_headers hheaders hrest] at hfirst

/-- A text is a log in one way only. -/
theorem IsLog.unique (h : IsLog lines parts) (h' : IsLog lines parts') : parts = parts' := by
  induction h generalizing parts' with
  | nil =>
    cases h'
    rfl
  | line hl _ ih =>
    cases h'.firstPart with
    | line _ hnew => rw [ih hnew]
    | cut hl' => exact absurd (hl.symm.trans hl') (by simp)
    | response hl' => exact absurd (hl.symm.trans hl') (by simp)
  | response hl hheaders hrest _ ih =>
    cases h'.firstPart with
    | line hl' => exact absurd (hl.symm.trans hl') (by simp)
    | cut _ hnil => cases hnil
    | response _ hbody hnew =>
      obtain ⟨rfl, rfl⟩ := List.cons.inj hbody
      rw [dropWhile_headers hheaders hrest] at hnew
      rw [takeWhile_headers hheaders hrest, ih hnew]
  | cut hl =>
    cases h'.firstPart with
    | line hl' => exact absurd (hl.symm.trans hl') (by simp)
    | cut => rfl
    | response _ hbody => cases hbody

/-- A response takes the place of the one before. -/
theorem respond_eq (status : Line) (headers : List Line) : s.respond lib status headers =
    ⟨s.redirects, (responses lib [.response status headers]).getLast?.or s.response⟩ := by
  rw [LogState.respond]
  cases hstatus : lib.statusOf status <;> simp [responses, hstatus]

theorem responses_cons (part : LogPart) (parts : List LogPart) :
    responses lib (part :: parts) = responses lib [part] ++ responses lib parts := by
  rw [responses, responses, responses, ← List.filterMap_append, List.singleton_append]

/-- **The parser reads the parts of the log.** -/
theorem readLog_eq (h : IsLog lines parts) : readLog lib lines s =
    ⟨s.redirects ++ redirects parts, (responses lib parts).getLast?.or s.response⟩ := by
  induction h generalizing s with
  | nil =>
    rw [readLog]
    simp [redirects, responses]
  | @line l rest parts hl _ ih =>
    rw [readLog, if_neg (by simp [hl]), ih, LogState.redirect]
    cases hredirect : redirectOf l <;> simp [redirects, responses, hredirect]
  | @response l status headers rest parts hl hheaders hrest _ ih =>
    rw [readLog, if_pos hl]
    simp only [List.drop_succ_cons, List.drop_zero, takeWhile_headers hheaders hrest,
      List.drop_left', List.headD_cons]
    rw [ih, respond_eq, responses_cons (.response status headers) parts, List.getLast?_append,
      Option.or_assoc]
    rfl
  | @cut l hl =>
    rw [readLog, if_pos hl]
    have hend : readLog lib [] (s.respond lib [] []) = s.respond lib [] [] := by rw [readLog]
    exact hend.trans ((respond_eq [] []).trans (by simp [redirects]))

/-! ## URLs with user-info -/

/-- `urlsplit` refuses a URL and no URL before it has user-info. -/
def RefusedFirst (lib : Library) (urls : List Line) : Prop :=
  ∃ pre url post, urls = pre ++ url :: post ∧ (∃ failure, lib.netloc url = .error failure) ∧
    ∀ earlier ∈ pre, ∀ netloc, lib.netloc earlier = .ok netloc → 64 ∉ netloc

/-- The URL is split and has no user-info. -/
def CredentialFree (lib : Library) (url : Line) : Prop :=
  ∃ netloc, lib.netloc url = .ok netloc ∧ 64 ∉ netloc

theorem RefusedFirst.cons {url : Line} {urls : List Line} (h : RefusedFirst lib urls)
    (hurl : CredentialFree lib url) : RefusedFirst lib (url :: urls) := by
  obtain ⟨pre, refused, post, rfl, hrefused, hpre⟩ := h
  refine ⟨url :: pre, refused, post, rfl, hrefused, List.forall_mem_cons.2 ⟨?_, hpre⟩⟩
  obtain ⟨netloc, hnetloc, hfree⟩ := hurl
  intro other hother
  rw [hnetloc] at hother
  exact Except.ok.inj hother ▸ hfree

/-- A URL that is split is not the first refused one. -/
theorem RefusedFirst.tail {url : Line} {urls : List Line} {netloc : List ℕ}
    (h : RefusedFirst lib (url :: urls)) (hurl : lib.netloc url = .ok netloc) :
    64 ∉ netloc ∧ RefusedFirst lib urls := by
  obtain ⟨pre, refused, post, heq, ⟨failure, hrefused⟩, hpre⟩ := h
  cases pre with
  | nil =>
    obtain ⟨rfl, -⟩ := List.cons.inj heq
    rw [hurl] at hrefused
    cases hrefused
  | cons first pre =>
    obtain ⟨rfl, rfl⟩ := List.cons.inj heq
    obtain ⟨hfirst, hpre⟩ := List.forall_mem_cons.1 hpre
    exact ⟨hfirst netloc hurl, pre, refused, post, rfl, ⟨failure, hrefused⟩, hpre⟩

/-- **How the search for user-info ends.** -/
theorem anyCredentialed_cases (lib : Library) (urls : List Line) :
    (anyCredentialed lib urls = .ok false ∧ ¬ RefusedFirst lib urls ∧
        ∀ url ∈ urls, CredentialFree lib url) ∨
      (anyCredentialed lib urls = .ok true ∧ ¬ RefusedFirst lib urls) ∨
      ((∃ failure, anyCredentialed lib urls = .error failure) ∧ RefusedFirst lib urls) := by
  induction urls with
  | nil =>
    refine .inl ⟨rfl, ?_, by simp⟩
    rintro ⟨pre, url, post, hnil, -⟩
    cases pre <;> cases hnil
  | cons url urls ih =>
    rw [anyCredentialed]
    cases hurl : lib.netloc url with
    | error failure =>
      exact .inr (.inr ⟨⟨failure, rfl⟩, [], url, urls, rfl, ⟨failure, hurl⟩, by simp⟩)
    | ok netloc =>
      by_cases hcredentialed : 64 ∈ netloc
      · refine .inr (.inl ⟨?_, fun h => (h.tail hurl).1 hcredentialed⟩)
        simp [bind, Except.bind, hcredentialed]
        rfl
      · have hfree : CredentialFree lib url := ⟨netloc, hurl, hcredentialed⟩
        have hrest : (Except.ok netloc >>= fun n => if List.contains n 64 then return true
            else anyCredentialed lib urls) = anyCredentialed lib urls := by
          simp [bind, Except.bind, hcredentialed]
        rw [hrest]
        rcases ih with ⟨hend, hnot, hall⟩ | ⟨hend, hnot⟩ | ⟨hend, hrefused⟩
        · exact .inl ⟨hend, fun h => hnot (h.tail hurl).2, List.forall_mem_cons.2 ⟨hfree, hall⟩⟩
        · exact .inr (.inl ⟨hend, fun h => hnot (h.tail hurl).2⟩)
        · exact .inr (.inr ⟨hend, hrefused.cons hfree⟩)

/-! ## The result -/

/-- What a response that is returned promises. -/
structure Response.Reports (lib : Library) (parts : List LogPart) (r : Response) : Prop where
  /-- the fields are those of the last response -/
  last : ∃ status headers, (responses lib parts).getLast? = some (status, headers) ∧
    r.httpStatus = (if 100 ≤ status ∧ status ≤ 599 then some status else none) ∧
    r.contentLength = headerOf headers "content-length" ∧
    r.contentRange = headerOf headers "content-range" ∧
    r.contentType = headerOf headers "content-type" ∧
    r.etag = headerOf headers "etag" ∧ r.lastModified = headerOf headers "last-modified"
  /-- the rules of `attempt_finished` -/
  rules : ∀ s, eventSchema "attempt_finished" = .ok s →
    ∀ field ∈ responseFields (some r), ValidField s (.str field.1) field.2
  finalUrl : ∀ url, r.finalUrl = some url → CredentialFree lib url.toList
  redirectChain : ∀ url ∈ r.redirectChain, CredentialFree lib url.toList

/-- The parser returns nothing where there is no response, and else the last one. -/
def SafelyParsed (lib : Library) (text sourceUrl : String) : Prop :=
  ∀ parts, IsLog (splitLines [] text.toList) parts →
    (responses lib parts = [] ∧ parseAria2ResponseLog lib text sourceUrl = .ok none) ∨
      ∃ r, parseAria2ResponseLog lib text sourceUrl = .ok (some r) ∧ r.Reports lib parts

/-- A log without a response, or none of whose URLs is refused. -/
def LogAccepted (lib : Library) (text sourceUrl : String) : Prop :=
  ∀ parts, IsLog (splitLines [] text.toList) parts →
    responses lib parts = [] ∨ ¬ RefusedFirst lib (sourceUrl.toList :: redirects parts)

variable {text sourceUrl : String}

theorem parse_of_none (h : IsLog (splitLines [] text.toList) parts)
    (hnone : responses lib parts = []) : parseAria2ResponseLog lib text sourceUrl = .ok none := by
  rw [parseAria2ResponseLog, readLog_eq h, hnone]
  rfl

theorem parse_of_some {status : ℕ} {headers : Headers} (h : IsLog (splitLines [] text.toList) parts)
    (hlast : (responses lib parts).getLast? = some (status, headers)) :
    parseAria2ResponseLog lib text sourceUrl =
      (anyCredentialed lib (sourceUrl.toList :: redirects parts)).map fun credentialed =>
        some (foundResponse status headers (sourceUrl.toList :: redirects parts) credentialed) := by
  have hlog : readLog lib (splitLines [] text.toList) {} =
      ⟨redirects parts, some (status, headers)⟩ := by
    rw [readLog_eq h, hlast]
    rfl
  rw [parseAria2ResponseLog, hlog]
  dsimp only
  cases anyCredentialed lib (sourceUrl.toList :: redirects parts) <;> rfl

theorem valid_optStr (text : Option String) : Valid (optStr text) Provenance.nullableText := by
  cases text with
  | none => exact (Provenance.schemaErrors_eq_nil _ _ "").1 rfl
  | some text => exact (Provenance.schemaErrors_eq_nil _ _ "").1 rfl

theorem valid_texts (texts : List String) :
    Valid (.list (texts.map .str)) (.ofArray Provenance.textSchema) := by
  have hitem : ∀ text : String, Valid (.str text) Provenance.textSchema := fun text =>
    (Provenance.schemaErrors_eq_nil _ _ "").1 rfl
  have hitems : Provenance.ValidItems (texts.map .str) Provenance.textSchema := by
    induction texts with
    | nil => trivial
    | cons text texts ih => exact ⟨hitem text, ih⟩
  exact (Provenance.schemaErrors_eq_nil _ _ "").1 ((Provenance.itemErrors_eq_nil _ _ "" 0).2 hitems)

theorem valid_status {n : ℕ} (h : 100 ≤ n ∧ n ≤ 599) :
    Valid (.int n) (.ofRange [.integer, .null] 100 (some 599)) := by
  have hrange : Provenance.rangeProblems (.int n) (.ofRange [.integer, .null] 100 (some 599)) "" =
      [] := by
    refine Provenance.rangeProblems_eq_nil.2 ⟨?_, ?_⟩
    · rintro low i hlow hi
      cases hlow
      cases hi
      omega
    · rintro high i hhigh hi
      cases hhigh
      cases hi
      omega
  refine (Provenance.schemaErrors_eq_nil _ _ "").1 ?_
  show [] ++ ([] ++ Provenance.rangeProblems _ _ _ ++ []) = []
  rw [hrange]
  rfl

/-- Every field of a response satisfies its rule. -/
theorem rules_responseFields {r : Response} (hstatus : ∀ n ∈ r.httpStatus, 100 ≤ n ∧ n ≤ 599) :
    ∀ s, eventSchema "attempt_finished" = .ok s →
      ∀ field ∈ responseFields (some r), ValidField s (.str field.1) field.2 := by
  intro s hs
  obtain rfl := Except.ok.inj hs
  simp only [responseFields, List.forall_mem_cons]
  refine ⟨?_, ?_, ?_, ?_, ?_, ?_, ?_, ?_, by simp⟩
  · exact valid_optStr _
  · exact valid_texts _
  · show Valid (match r.httpStatus with | some n => .int n | none => .null)
      (.ofRange [.integer, .null] 100 (some 599))
    cases hcode : r.httpStatus with
    | none => exact (Provenance.schemaErrors_eq_nil _ _ "").1 rfl
    | some n => exact valid_status (hstatus n hcode)
  · exact valid_optStr _
  · exact valid_optStr _
  · exact valid_optStr _
  · exact valid_optStr _
  · exact valid_optStr _

theorem reports_foundResponse {status : ℕ} {headers : Headers} {credentialed : Bool}
    (hlast : (responses lib parts).getLast? = some (status, headers))
    (hfree : credentialed = false →
      ∀ url ∈ sourceUrl.toList :: redirects parts, CredentialFree lib url) :
    (foundResponse status headers (sourceUrl.toList :: redirects parts) credentialed).Reports lib
      parts := by
  refine ⟨⟨status, headers, hlast, rfl, rfl, rfl, rfl, rfl, rfl⟩, rules_responseFields ?_, ?_, ?_⟩
  · intro n hn
    obtain ⟨hrange, hn⟩ := Option.ite_none_right_eq_some.1 hn
    exact Option.some.inj hn ▸ hrange
  · intro url hurl
    cases credentialed with
    | true => cases hurl
    | false =>
      obtain rfl := Option.some.inj hurl
      rw [String.toList_ofList]
      refine hfree rfl _ ?_
      rw [List.getLastD_eq_getLast?, List.getLast?_eq_some_getLast (List.cons_ne_nil _ _)]
      exact List.getLast_mem _
  · intro url hurl
    cases credentialed with
    | true => cases hurl
    | false =>
      obtain ⟨line, hline, rfl⟩ := List.mem_map.1 hurl
      rw [String.toList_ofList]
      exact hfree rfl line (List.mem_of_mem_drop (List.mem_of_mem_dropLast hline))

/-- A refused URL before the first one with user-info is raised. -/
theorem raises_of_refused {found : ℕ × Headers} (h : IsLog (splitLines [] text.toList) parts)
    (hlast : (responses lib parts).getLast? = some found)
    (hrefused : RefusedFirst lib (sourceUrl.toList :: redirects parts)) :
    ∃ failure, parseAria2ResponseLog lib text sourceUrl = .error failure := by
  rw [parse_of_some h hlast]
  rcases anyCredentialed_cases lib (sourceUrl.toList :: redirects parts) with
    ⟨-, hnot, -⟩ | ⟨-, hnot⟩ | ⟨⟨failure, hend⟩, -⟩
  · exact absurd hrefused hnot
  · exact absurd hrefused hnot
  · exact ⟨failure, by rw [hend]; rfl⟩

/-- **A log is parsed safely** exactly if it has no response, or if `urlsplit` refuses no URL
    before the first one with user-info. -/
theorem safelyParsed_iff (lib : Library) (text sourceUrl : String) :
    SafelyParsed lib text sourceUrl ↔ LogAccepted lib text sourceUrl := by
  constructor
  · intro h parts hlog
    cases hlast : (responses lib parts).getLast? with
    | none => exact .inl (List.getLast?_eq_none_iff.1 hlast)
    | some found =>
      refine .inr fun hrefused => ?_
      obtain ⟨failure, hraises⟩ := raises_of_refused hlog hlast hrefused
      rcases h parts hlog with ⟨-, hnone⟩ | ⟨r, hsome, -⟩
      · cases hraises.symm.trans hnone
      · cases hraises.symm.trans hsome
  · intro h parts hlog
    cases hlast : (responses lib parts).getLast? with
    | none =>
      have hnone := List.getLast?_eq_none_iff.1 hlast
      exact .inl ⟨hnone, parse_of_none hlog hnone⟩
    | some found =>
      obtain ⟨status, headers⟩ := found
      have hnot : ¬ RefusedFirst lib (sourceUrl.toList :: redirects parts) := by
        rcases h parts hlog with hnone | hnot
        · rw [hnone] at hlast
          cases hlast
        · exact hnot
      right
      rw [parse_of_some hlog hlast]
      rcases anyCredentialed_cases lib (sourceUrl.toList :: redirects parts) with
        ⟨hend, -, hfree⟩ | ⟨hend, -⟩ | ⟨-, hrefused⟩
      · rw [hend]
        exact ⟨_, rfl, reports_foundResponse hlast fun _ => hfree⟩
      · rw [hend]
        exact ⟨_, rfl, reports_foundResponse hlast fun hfalse => by cases hfalse⟩
      · exact absurd hrefused hnot

end

/-! ## A redirect that is refused -/

/-- The word characters and the IP literals of ASCII only. -/
def asciiLibrary : Library := ⟨Char.isAlphanum, fun _ => false⟩

/-- A redirect to a URL whose bracket is not closed. -/
def hostileLog : String :=
  "x Response received:\nHTTP/1.1 200 OK\nETag: e\n\nx - Redirecting to http://[::1\n"

theorem isLog_hostile : IsLog (splitLines [] hostileLog.toList)
    [.response "HTTP/1.1 200 OK".toList ["ETag: e".toList], .line [],
      .line "x - Redirecting to http://[::1".toList] := by
  have hlines : splitLines [] hostileLog.toList = ["x Response received:".toList,
      "HTTP/1.1 200 OK".toList, "ETag: e".toList, [], "x - Redirecting to http://[::1".toList] := by
    decide
  rw [hlines]
  have hrest : IsLog [[], "x - Redirecting to http://[::1".toList]
      [.line [], .line "x - Redirecting to http://[::1".toList] :=
    .line (by decide) (.line (by decide) .nil)
  have hheaders : ∀ h ∈ ["ETag: e".toList], isBlank h = false := by decide
  exact .response (by decide) hheaders (by decide) hrest

/-- The redirect of a hostile source is raised to the worker. -/
theorem hostile_redirect_raises : ¬ ∀ (lib : Library) (files : List (List String)),
    ∀ entry ∈ (readQueues files).entries, ∀ text, SafelyParsed lib text entry.url := by
  intro h
  have hread : (readQueues [["https://h/set/a"]]).entries.map (·.url) = ["https://h/set/a"] := by
    decide
  obtain ⟨entry, hentries, hurl⟩ := List.map_eq_singleton_iff.1 hread
  have hresponses : (responses asciiLibrary [.response "HTTP/1.1 200 OK".toList
      ["ETag: e".toList], .line [], .line "x - Redirecting to http://[::1".toList]).getLast? =
      some (200, [("etag".toList, "e")]) := by
    decide
  have hredirects : redirects [.response "HTTP/1.1 200 OK".toList ["ETag: e".toList], .line [],
      .line "x - Redirecting to http://[::1".toList] = ["http://[::1".toList] := by
    decide
  have hsource : asciiLibrary.netloc "https://h/set/a".toList = .ok [104] := by decide
  have hrefused : RefusedFirst asciiLibrary ["https://h/set/a".toList, "http://[::1".toList] := by
    refine ⟨["https://h/set/a".toList], "http://[::1".toList, [], rfl, ⟨.valueError, by decide⟩, ?_⟩
    intro earlier hearlier netloc hnetloc
    rw [List.mem_singleton.1 hearlier, hsource] at hnetloc
    rw [← Except.ok.inj hnetloc]
    decide
  have hsafe := h asciiLibrary [["https://h/set/a"]] entry (hentries ▸ List.mem_singleton_self _)
    hostileLog _ isLog_hostile
  rw [hurl] at hsafe
  obtain ⟨failure, hraises⟩ : ∃ failure, parseAria2ResponseLog asciiLibrary hostileLog
      "https://h/set/a" = .error failure :=
    raises_of_refused isLog_hostile hresponses (by rw [hredirects]; exact hrefused)
  rcases hsafe with ⟨-, hnone⟩ | ⟨r, hsome, -⟩
  · cases hraises.symm.trans hnone
  · cases hraises.symm.trans hsome

end TodDl.Controller
