/-
  The controller — the pause of origins that denied access (tod-dl.py).

  `accessDeniedPatterns` are the patterns of `access_denied_scope_clause`,
  `nextPending` and `retryWait` the queries that use them.

  SQLite bounds the depth of an expression, and the clause adds a level for every
  denied prefix: `clauseIn` is the clause in the condition of a query.

  `scope_exact_iff`: on URLs that `read_queues` accepts and that are written
  `scheme://authority/path`, both queries withhold an item exactly when an item of
  the same origin, ASCII case aside, is in review for a denied access, if and only
  if the denied prefixes fit into the condition; with more of them `next_pending`
  raises.
-/
import TodDl.Lib.Like
import TodDl.Controller.Queue

namespace TodDl.Controller

open Lib.Like (like escaped toNat_toLower toLower_toLower)
open Provenance (Failure isAsciiAlpha isSchemeChar)
open Store (Db Row isPySpace retryableStatuses)

/-! ## The queries -/

/-- `str.lower()` of an ASCII code. -/
def lowerCode (c : ℕ) : ℕ := if 65 ≤ c ∧ c ≤ 90 then c + 32 else c

/-- `urlsplit(url).scheme` -/
def urlScheme (url : List ℕ) : List ℕ :=
  let stripped := (url.dropWhile (· ≤ 32)).filter fun c => c ≠ 9 && c ≠ 10 && c ≠ 13
  let scheme := stripped.takeWhile (· ≠ 58)
  match stripped.drop scheme.length, scheme with
  | _ :: _, c :: _ => if isAsciiAlpha c && scheme.all isSchemeChar then scheme.map lowerCode else []
  | _, _ => []

/-- `f"{parts.scheme}://{parts.netloc}/"` -/
def scopePrefix (url : String) : Except Failure String := do
  let parts ← urlsplit (url.toList.map Char.toNat)
  return ofCodes (urlScheme (url.toList.map Char.toNat)) ++ "://" ++ ofCodes parts.netloc ++ "/"

/-- In review with the code `access_denied`. -/
def accessDenied (r : Row) : Bool :=
  r.status = .reviewRequired && r.reviewCode = some "access_denied"

/-- `access_denied_scope_clause(db)`: the patterns that a URL must not be like. -/
def accessDeniedPatterns (db : Db) (runId : String) : Except Failure (List String) := do
  let prefixes ← ((db.selected runId).filter accessDenied).mapM fun r => scopePrefix r.url
  return prefixes.dedup.map fun p => String.ofList (escaped '\\' p.toList ++ ['%'])

/-- The item may be tried again. -/
def Config.retryable (cfg : Config) (r : Row) : Bool :=
  r.status ∈ retryableStatuses && (cfg.maxAttempts = 0 || r.attempts < cfg.maxAttempts)

/-- The clause lets the item through. -/
def passes (patterns : List String) (r : Row) : Bool := patterns.all fun p => !like '\\' p r.url

/-- The levels that SQLite allows in an expression (`SQLITE_MAX_EXPR_DEPTH`). -/
def maxExprDepth : ℕ := 1000

/-- The clause in a condition of `levels` levels, to which each pattern adds one.  A
    condition that gets too deep raises `OperationalError`. -/
def clauseIn (levels : ℕ) (db : Db) (runId : String) : Except Failure (List String) := do
  let patterns ← accessDeniedPatterns db runId
  if levels + patterns.length ≤ maxExprDepth then return patterns
  else throw (.other "OperationalError")

/-- `next_pending(db)` -/
def nextPending (cfg : Config) (db : Db) (time : ℚ) : Except Failure (Option Row) := do
  -- four terms, one of them an `OR`, and the condition of the join
  let patterns ← clauseIn 7 db cfg.runId
  return (((db.ranked cfg.runId).map (·.2)).filter fun r =>
    cfg.retryable r && r.nextRetryAt ≤ time && passes patterns r).head?

/-- `retry_wait(db)` -/
def retryWait (cfg : Config) (db : Db) (time : ℚ) : Except Failure (Option ℚ) := do
  let patterns ← clauseIn 6 db cfg.runId
  let times := ((db.selected cfg.runId).filter fun r => cfg.retryable r && passes patterns r).map
    (·.nextRetryAt)
  return times.min?.map fun t => max 0 (t - time)

/-- The prefixes of the denied items fit into the condition of `next_pending`. -/
structure ClauseFits (db : Db) (runId : String) : Prop where
  prefixes : ∀ r ∈ (db.selected runId).filter accessDenied, ∃ text, scopePrefix r.url = .ok text
  few : (((db.selected runId).filter accessDenied).map fun r => scopePrefix r.url).dedup.length ≤
    993

section
variable {db : Db} {runId : String} {levels : ℕ} {patterns : List String}

theorem clauseIn_eq_ok : clauseIn levels db runId = .ok patterns ↔
    accessDeniedPatterns db runId = .ok patterns ∧ levels + patterns.length ≤ maxExprDepth := by
  unfold clauseIn
  cases accessDeniedPatterns db runId with
  | error f => simp [bind, Except.bind]
  | ok found =>
    simp only [bind, Except.bind, pure, Except.pure, Except.ok.injEq]
    split
    · next hle =>
      rw [Except.ok.injEq]
      exact ⟨fun h => ⟨h, h ▸ hle⟩, fun h => h.1⟩
    · next hdeep =>
      refine iff_of_false (by rintro ⟨⟩) ?_
      rintro ⟨rfl, hle⟩
      exact hdeep hle

theorem clauseIn_of_le {levels' : ℕ} (h : clauseIn levels db runId = .ok patterns)
    (hle : levels' ≤ levels) : clauseIn levels' db runId = .ok patterns := by
  obtain ⟨hpatterns, hdepth⟩ := clauseIn_eq_ok.1 h
  exact clauseIn_eq_ok.2 ⟨hpatterns, by omega⟩

theorem mapM_ok {α β ε : Type} {f : α → Except ε β} {g : α → β} {l : List α}
    (h : ∀ a ∈ l, f a = .ok (g a)) : l.mapM f = .ok (l.map g) := by
  induction l with
  | nil => rfl
  | cons a l ih =>
    rw [List.mapM_cons, h a List.mem_cons_self, ih fun b hb => h b (List.mem_cons_of_mem _ hb)]
    rfl

theorem mapM_eq_ok {α β ε : Type} {f : α → Except ε β} {l : List α} {bs : List β}
    (h : l.mapM f = .ok bs) : l.map f = bs.map .ok := by
  induction l generalizing bs with
  | nil =>
    cases h
    rfl
  | cons a l ih =>
    rw [List.mapM_cons] at h
    cases ha : f a with
    | error x =>
      rw [ha] at h
      cases h
    | ok b =>
      cases hl : l.mapM f with
      | error x =>
        rw [ha, hl] at h
        cases h
      | ok bs' =>
        rw [ha, hl] at h
        cases h
        rw [List.map_cons, List.map_cons, ha, ih hl]

/-- The clause is built and fits exactly if the prefixes do. -/
theorem exists_clauseIn_iff : (∃ patterns, clauseIn 7 db runId = .ok patterns) ↔
    ClauseFits db runId := by
  set denied := (db.selected runId).filter accessDenied with hdenied
  have hdedup : ∀ texts : List String, (texts.map (Except.ok (ε := Failure))).dedup.length =
      texts.dedup.length := fun texts => by
    rw [List.dedup_map_of_injective fun s t h => Except.ok.inj h, List.length_map]
  constructor
  · rintro ⟨patterns, h⟩
    obtain ⟨hpatterns, hdepth⟩ := clauseIn_eq_ok.1 h
    rw [accessDeniedPatterns, ← hdenied] at hpatterns
    cases hmap : denied.mapM (fun r => scopePrefix r.url) with
    | error f =>
      rw [hmap] at hpatterns
      cases hpatterns
    | ok texts =>
      rw [hmap] at hpatterns
      obtain rfl := Except.ok.inj hpatterns
      have htexts := mapM_eq_ok hmap
      refine ⟨fun r hr => ?_, ?_⟩
      · have hmem := List.mem_map_of_mem (f := fun r : Row => scopePrefix r.url) hr
        rw [htexts] at hmem
        obtain ⟨text, -, htext⟩ := List.mem_map.1 hmem
        exact ⟨text, htext.symm⟩
      · rw [← hdenied, htexts, hdedup]
        rw [List.length_map, maxExprDepth] at hdepth
        omega
  · rintro ⟨htexts, hfew⟩
    choose! text htext using htexts
    have hmap := mapM_ok htext
    refine ⟨_, clauseIn_eq_ok.2 ⟨by rw [accessDeniedPatterns, ← hdenied, hmap]; rfl, ?_⟩⟩
    rw [← hdenied, mapM_eq_ok hmap, hdedup] at hfew
    rw [List.length_map, maxExprDepth]
    omega

end

/-! ## Origins -/

/-- The scheme and the authority of a text `scheme://authority/path`. -/
def origin (url : String) : List Char × List Char :=
  let scheme := url.toList.takeWhile (· ≠ ':')
  (scheme, (url.toList.drop (scheme.length + 3)).takeWhile (· ≠ '/'))

/-- One origin, ASCII case aside. -/
def SameOrigin (url url' : String) : Prop :=
  (origin url).1.map Char.toLower = (origin url').1.map Char.toLower ∧
    (origin url).2.map Char.toLower = (origin url').2.map Char.toLower

instance (url url' : String) : Decidable (SameOrigin url url') := by
  unfold SameOrigin; infer_instance

/-- The URL of a queue line: a word that is written `scheme://authority/path` and
    that `relative_path` accepts. -/
structure QueueUrl (url : String) : Prop where
  word : ∀ c ∈ url.toList, isPySpace c = false
  accepted : ∃ path, relativePath url = .ok path
  written : ∃ scheme authority path,
    url.toList = scheme ++ ':' :: '/' :: '/' :: (authority ++ '/' :: path) ∧
    (scheme.head?.any fun c => isAsciiAlpha c.toNat) ∧ (∀ c ∈ scheme, isSchemeChar c.toNat = true) ∧
    authority ≠ [] ∧ '/' ∉ authority

/-- An item of the origin is in review for a denied access. -/
def DeniedOrigin (db : Db) (runId url : String) : Prop :=
  ∃ r ∈ db.selected runId, accessDenied r = true ∧ SameOrigin r.url url

instance (db : Db) (runId url : String) : Decidable (DeniedOrigin db runId url) := by
  unfold DeniedOrigin; infer_instance

/-! ## The prefix of a URL -/

section
variable {url : String} {scheme authority path : List Char}

/-- Nothing of a word that starts with a letter is stripped. -/
theorem stripped_eq {codes : List ℕ} (hhead : codes.head?.any isAsciiAlpha = true)
    (hword : ∀ c ∈ codes, c ≠ 9 ∧ c ≠ 10 ∧ c ≠ 13) :
    ((codes.dropWhile (· ≤ 32)).filter fun c => c ≠ 9 && c ≠ 10 && c ≠ 13) = codes := by
  have hdrop : codes.dropWhile (· ≤ 32) = codes := by
    cases codes with
    | nil => rfl
    | cons c rest =>
      have hc : ¬ c ≤ 32 := by
        simp only [List.head?_cons, Option.any_some, isAsciiAlpha, Bool.or_eq_true, Bool.and_eq_true,
          decide_eq_true_eq] at hhead
        omega
      rw [List.dropWhile_cons_of_neg (by simpa using hc)]
  rw [hdrop, List.filter_eq_self]
  intro c hc
  simpa [and_assoc] using hword c hc

theorem takeWhile_append_of_mem {α : Type*} [DecidableEq α] {a : α} {l : List α} (h : a ∉ l)
    (l' : List α) :
    (l ++ a :: l').takeWhile (· ≠ a) = l := by
  rw [List.takeWhile_append_of_pos fun x hx => by simpa using fun he : x = a => h (he ▸ hx)]
  simp

theorem netloc_of_path {codes authority rest : List ℕ} {parsed : SplitUrl}
    (hafter : Provenance.afterScheme
      ((codes.dropWhile (· ≤ 32)).filter fun c => c ≠ 9 && c ≠ 10 && c ≠ 13) =
        47 :: 47 :: (authority ++ 47 :: rest))
    (h : urlsplit codes = .ok parsed) (hpath : 47 ∈ parsed.path) (hslash : 47 ∉ authority) :
    parsed.netloc = authority := by
  set whole := authority ++ 47 :: rest with hwhole
  set ends : ℕ → Bool := fun c => c ≠ 47 && c ≠ 63 && c ≠ 35 with hends
  have hnetloc : Provenance.netloc codes = .ok parsed.netloc := by
    cases hn : Provenance.netloc codes with
    | error f => simp [urlsplit, hn, bind, Except.bind] at h
    | ok netloc =>
      simp only [urlsplit, hn, bind, Except.bind, pure, Except.pure, Except.ok.injEq] at h
      rw [← h]
  have hhost : parsed.netloc = whole.takeWhile ends := by
    simp only [Provenance.netloc, hafter] at hnetloc
    split at hnetloc
    · exact (Except.ok.inj hnetloc).symm
    · cases hnetloc
  have hrest : parsed.path =
      ((whole.dropWhile ends).takeWhile (· ≠ 35)).takeWhile (· ≠ 63) := by
    simp only [urlsplit, hnetloc, hafter, bind, Except.bind, pure, Except.pure,
      Except.ok.injEq] at h
    rw [← h]
    simp only
    rw [hhost, drop_length_takeWhile]
  -- the netloc ends where the path starts, at a slash
  obtain ⟨d, tail, hd⟩ : ∃ d tail, whole.dropWhile ends = d :: tail := by
    refine List.exists_cons_of_ne_nil fun hnil => ?_
    simp [hrest, hnil] at hpath
  have hend : ends d = false := by
    have hhead := List.head?_dropWhile_not ends whole
    rw [hd] at hhead
    simpa using hhead
  have hd47 : d = 47 := by
    rw [hrest, hd] at hpath
    by_contra hne
    simp only [hends, Bool.and_eq_false_iff, decide_eq_false_iff_not, not_not] at hend
    rcases hend with (hend | hend) | hend
    · exact hne hend
    · simp [hend] at hpath
    · simp [hend] at hpath
  have hhost47 : 47 ∉ whole.takeWhile ends := fun hmem => by
    simpa [hends] using List.mem_takeWhile_imp hmem
  have hsplit := List.takeWhile_append_dropWhile (p := ends) (l := whole)
  rw [hd, hd47] at hsplit
  rw [hhost, ← takeWhile_append_of_mem hhost47 tail, hsplit, hwhole,
    takeWhile_append_of_mem hslash]

theorem ofCodes_map_toNat (l : List Char) : ofCodes (l.map Char.toNat) = String.ofList l := by
  simp [ofCodes, Function.comp_def]

theorem lowerCode_toNat (c : Char) : lowerCode c.toNat = c.toLower.toNat := (toNat_toLower c).symm

theorem ofCodes_lower (l : List Char) :
    ofCodes ((l.map Char.toNat).map lowerCode) = String.ofList (l.map Char.toLower) := by
  simp [ofCodes, Function.comp_def, lowerCode_toNat]

theorem notMem_toNat {c : Char} {l : List Char} (h : c ∉ l) : c.toNat ∉ l.map Char.toNat := by
  intro hmem
  obtain ⟨d, hd, heq⟩ := List.mem_map.1 hmem
  exact h (Char.toNat_inj.1 heq ▸ hd)

/-- A scheme that starts with a letter is split off. -/
theorem afterScheme_eq {codes : List ℕ} (hhead : codes.head?.any isAsciiAlpha = true)
    (hall : ∀ c ∈ codes, isSchemeChar c = true) (hcolon : 58 ∉ codes) (rest : List ℕ) :
    Provenance.afterScheme (codes ++ 58 :: rest) = rest := by
  obtain ⟨c, cs, rfl⟩ : ∃ c cs, codes = c :: cs := by
    cases codes with
    | nil => cases hhead
    | cons c cs => exact ⟨c, cs, rfl⟩
  simp only [Provenance.afterScheme, takeWhile_append_of_mem hcolon, List.drop_left]
  have hhead : isAsciiAlpha c = true := by simpa using hhead
  rw [if_pos (by rw [hhead, List.all_eq_true.2 hall]; rfl)]

theorem urlScheme_eq {codes scheme rest : List ℕ}
    (hstrip : ((codes.dropWhile (· ≤ 32)).filter fun c => c ≠ 9 && c ≠ 10 && c ≠ 13) =
      scheme ++ 58 :: rest)
    (hhead : scheme.head?.any isAsciiAlpha = true) (hall : ∀ c ∈ scheme, isSchemeChar c = true)
    (hcolon : 58 ∉ scheme) : urlScheme codes = scheme.map lowerCode := by
  obtain ⟨c, cs, rfl⟩ : ∃ c cs, scheme = c :: cs := by
    cases scheme with
    | nil => cases hhead
    | cons c cs => exact ⟨c, cs, rfl⟩
  simp only [urlScheme, hstrip, takeWhile_append_of_mem hcolon, List.drop_left]
  have hhead : isAsciiAlpha c = true := by simpa using hhead
  rw [if_pos (by rw [hhead, List.all_eq_true.2 hall]; rfl)]

/-- What the text of a URL says of its origin. -/
theorem toList_eq_origin (h : QueueUrl url) : ∃ path,
    url.toList = (origin url).1 ++ ':' :: '/' :: '/' :: ((origin url).2 ++ '/' :: path) ∧
      ((origin url).1.head?.any fun c => isAsciiAlpha c.toNat) = true ∧
      (∀ c ∈ (origin url).1, isSchemeChar c.toNat = true) ∧ ':' ∉ (origin url).1 ∧
      '/' ∉ (origin url).2 := by
  obtain ⟨scheme, authority, path, htext, hhead, hscheme, -, hslash⟩ := h.written
  have hcolon : ':' ∉ scheme := fun hmem => absurd (hscheme _ hmem) (by decide)
  have horigin : origin url = (scheme, authority) := by
    simp only [origin, htext, takeWhile_append_of_mem hcolon]
    rw [List.drop_append, List.drop_eq_nil_of_le (by omega), Nat.add_sub_cancel_left,
      List.nil_append]
    simp only [List.drop_succ_cons, List.drop_zero, takeWhile_append_of_mem hslash]
  rw [horigin]
  exact ⟨path, htext, hhead, hscheme, hcolon, hslash⟩

/-- The prefix of a URL is its origin, the scheme in lower case. -/
theorem scopePrefix_eq (h : QueueUrl url) : scopePrefix url = .ok (String.ofList
    ((origin url).1.map Char.toLower ++ ':' :: '/' :: '/' :: ((origin url).2 ++ ['/']))) := by
  obtain ⟨path, htext, hhead, hscheme, hcolon, hslash⟩ := toList_eq_origin h
  set scheme := (origin url).1
  set authority := (origin url).2
  have hcodes : url.toList.map Char.toNat = scheme.map Char.toNat ++
      58 :: 47 :: 47 :: (authority.map Char.toNat ++ 47 :: path.map Char.toNat) := by
    rw [htext]
    simp
  have hhead' : (scheme.map Char.toNat).head?.any isAsciiAlpha = true := by
    rw [List.head?_map, Option.any_map]
    exact hhead
  have hall : ∀ c ∈ scheme.map Char.toNat, isSchemeChar c = true := by simpa using hscheme
  have hcolon' : 58 ∉ scheme.map Char.toNat := notMem_toNat hcolon
  -- a word has no tab and no line end, and it starts with a letter
  have hstrip : (((url.toList.map Char.toNat).dropWhile (· ≤ 32)).filter
      fun c => c ≠ 9 && c ≠ 10 && c ≠ 13) = url.toList.map Char.toNat := stripped_eq
    (by
      rw [hcodes, List.head?_append]
      revert hhead'
      cases (scheme.map Char.toNat).head? <;> simp)
    (fun n hn => by
      obtain ⟨c, hc, rfl⟩ := List.mem_map.1 hn
      have hspace := h.word c hc
      simp only [isPySpace, Bool.or_eq_false_iff, decide_eq_false_iff_not] at hspace
      simp only [List.mem_cons, not_or] at hspace
      exact ⟨hspace.1.1, hspace.1.2.1, hspace.1.2.2.2.2.1⟩)
  have hafter := afterScheme_eq hhead' hall hcolon'
    (47 :: 47 :: (authority.map Char.toNat ++ 47 :: path.map Char.toNat))
  obtain ⟨p, hp⟩ := h.accepted
  obtain ⟨parsed, hsplit, hpath⟩ := urlsplit_of_relativePath hp
  have hnetloc := netloc_of_path (by rw [hstrip, hcodes]; exact hafter) hsplit hpath
    (notMem_toNat hslash)
  have hlower := urlScheme_eq (by rw [hstrip, hcodes]) hhead' hall hcolon'
  simp only [scopePrefix, hsplit, bind, Except.bind, pure, Except.pure, hnetloc, hlower]
  rw [ofCodes_lower, ofCodes_map_toNat]
  congr 1
  rw [← String.toList_inj]
  simp

theorem append_cons_prefix_iff {α : Type*} [DecidableEq α] {a : α} {l l' r r' : List α} (h : a ∉ l)
    (h' : a ∉ l') : l ++ a :: r <+: l' ++ a :: r' ↔ l = l' ∧ r <+: r' := by
  constructor
  · rintro ⟨t, ht⟩
    rw [List.append_assoc, List.cons_append] at ht
    have hl : l = l' := by
      rw [← takeWhile_append_of_mem h (r ++ t), ht, takeWhile_append_of_mem h']
    subst hl
    exact ⟨rfl, t, by simpa using ht⟩
  · rintro ⟨rfl, t, rfl⟩
    exact ⟨t, by simp⟩

theorem notMem_toLower {c : Char} {l : List Char} (h : c ∉ l) (hc : ∀ d : Char, d.toLower = c → d = c) :
    c ∉ l.map Char.toLower := by
  intro hmem
  obtain ⟨d, hd, heq⟩ := List.mem_map.1 hmem
  exact h (hc d heq ▸ hd)

theorem toLower_eq {c d : Char} (h : d.toLower = c) (hc : c = ':' ∨ c = '/') : d = c := by
  have hn := congrArg Char.toNat h
  rw [toNat_toLower] at hn
  rw [← Char.toNat_inj]
  have hcn : c.toNat = 58 ∨ c.toNat = 47 := hc.imp (by rintro rfl; rfl) (by rintro rfl; rfl)
  split_ifs at hn <;> omega

/-- **The pattern of a URL** matches exactly the URLs of its origin. -/
theorem like_scopePrefix {url' text : String} (h : QueueUrl url) (h' : QueueUrl url')
    (htext : scopePrefix url = .ok text) :
    like '\\' (String.ofList (escaped '\\' text.toList ++ ['%'])) url' = true ↔
      SameOrigin url url' := by
  obtain ⟨path, -, -, -, hcolon, hslash⟩ := toList_eq_origin h
  obtain ⟨path', htext', -, -, hcolon', hslash'⟩ := toList_eq_origin h'
  rw [scopePrefix_eq h] at htext
  obtain rfl := Except.ok.inj htext
  rw [Lib.Like.like_escaped (by decide) (by decide), String.toList_ofList, htext']
  have hlow : ∀ l : List Char, (l.map Char.toLower).map Char.toLower = l.map Char.toLower := fun l => by
    rw [List.map_map]
    exact List.map_congr_left fun c _ => toLower_toLower c
  simp only [List.map_append, List.map_cons, hlow]
  have hkeep : ∀ c d : Char, c = ':' ∨ c = '/' → d.toLower = c → d = c := fun c d hc hd =>
    toLower_eq hd hc
  rw [show Char.toLower ':' = ':' from rfl, show Char.toLower '/' = '/' from rfl]
  rw [append_cons_prefix_iff (notMem_toLower hcolon fun d => hkeep _ d (.inl rfl))
    (notMem_toLower hcolon' fun d => hkeep _ d (.inl rfl))]
  rw [List.cons_prefix_cons, List.cons_prefix_cons,
    append_cons_prefix_iff (notMem_toLower hslash fun d => hkeep _ d (.inr rfl))
      (notMem_toLower hslash' fun d => hkeep _ d (.inr rfl))]
  simp [SameOrigin]

end

/-- The URLs that are read from queue files are such URLs, if they are written so. -/
theorem queueUrl_of_readQueues {files : List (List String)} {entry : QueueEntry}
    {scheme authority path : List Char} (he : entry ∈ (readQueues files).entries)
    (htext : entry.url.toList = scheme ++ ':' :: '/' :: '/' :: (authority ++ '/' :: path))
    (hhead : scheme.head?.any fun c => isAsciiAlpha c.toNat)
    (hscheme : ∀ c ∈ scheme, isSchemeChar c.toNat = true) (hne : authority ≠ [])
    (hslash : '/' ∉ authority) : QueueUrl entry.url where
  word := (valid_readQueues files).word entry he
  accepted := ((valid_readQueues files).path entry he).imp fun _ h => h.1
  written := ⟨scheme, authority, path, htext, hhead, hscheme, hne, hslash⟩

/-! ## The queries on origins -/

section
variable {cfg : Config} {db : Db} {runId : String} {time : ℚ}

theorem mem_selected_of_ranked {r : Row} (h : r ∈ (db.ranked runId).map (·.2)) :
    r ∈ db.selected runId := by
  obtain ⟨⟨rank, r⟩, hp, rfl⟩ := List.mem_map.1 h
  rw [Db.ranked, List.mem_insertionSort, List.mem_filterMap] at hp
  obtain ⟨i, hi, hfind⟩ := hp
  obtain ⟨r', hr', heq⟩ := Option.map_eq_some_iff.1 hfind
  obtain ⟨rfl, rfl⟩ := Prod.mk.inj heq
  obtain ⟨hrow, hkey⟩ := Lib.Table.find?_eq_some.1 hr'
  refine Lib.Table.mem_join.2 ⟨?_, hrow⟩
  rw [show (i.queueRank, r').2.url = i.url from hkey]
  exact List.mem_map_of_mem hi

/-- **The clause lets exactly the items of other origins through.** -/
theorem passes_iff {patterns : List String} (hurls : ∀ r ∈ db.selected runId, QueueUrl r.url)
    (hpatterns : accessDeniedPatterns db runId = .ok patterns) :
    ∀ r ∈ db.selected runId, passes patterns r = true ↔ ¬ DeniedOrigin db runId r.url := by
  set denied := (db.selected runId).filter accessDenied with hdenied
  have hmem : ∀ r ∈ denied, QueueUrl r.url := fun r hr => hurls r (List.mem_of_mem_filter hr)
  have hprefixes : denied.mapM (fun r => scopePrefix r.url) =
      .ok (denied.map fun r => ((scopePrefix r.url).toOption).getD "") :=
    mapM_ok fun r hr => by rw [scopePrefix_eq (hmem r hr)]; rfl
  rw [accessDeniedPatterns, ← hdenied, hprefixes] at hpatterns
  obtain rfl := Except.ok.inj hpatterns
  intro r hr
  have hlike : ∀ d ∈ denied, like '\\' (String.ofList (escaped '\\'
      ((scopePrefix d.url).toOption.getD "").toList ++ ['%'])) r.url = true ↔
        SameOrigin d.url r.url := fun d hd =>
    like_scopePrefix (hmem d hd) (hurls r hr) (by rw [scopePrefix_eq (hmem d hd)]; rfl)
  simp only [passes, List.all_map, List.all_eq_true, List.mem_dedup, Function.comp_apply,
    Bool.not_eq_true', List.mem_map, forall_exists_index, and_imp, forall_apply_eq_imp_iff₂]
  constructor
  · rintro hall ⟨d, hd, hcode, hsame⟩
    have hdm : d ∈ denied := List.mem_filter.2 ⟨hd, hcode⟩
    exact Bool.false_ne_true ((hall d hdm).symm.trans ((hlike d hdm).2 hsame))
  · intro hno d hd
    rw [← Bool.not_eq_true, hlike d hd]
    exact fun hsame => hno ⟨d, List.mem_of_mem_filter hd, (List.mem_filter.1 hd).2, hsame⟩

end

/-- The prefixes of such URLs can be told. -/
theorem clauseFits_of_few {db : Db} {runId : String}
    (hurls : ∀ r ∈ db.selected runId, QueueUrl r.url)
    (hfew : (((db.selected runId).filter accessDenied).map fun r =>
      scopePrefix r.url).dedup.length ≤ 993) : ClauseFits db runId where
  prefixes r hr := ⟨_, scopePrefix_eq (hurls r (List.mem_of_mem_filter hr))⟩
  few := hfew

/-- An origin that denied access is paused exactly: the next item, and the wait for it, are
    those of the retryable items of other origins. -/
def ScopeExact (cfg : Config) (db : Db) : Prop :=
  ∀ time, nextPending cfg db time =
      .ok (((db.ranked cfg.runId).map (·.2)).filter fun r => cfg.retryable r &&
        r.nextRetryAt ≤ time && !decide (DeniedOrigin db cfg.runId r.url)).head? ∧
    retryWait cfg db time = .ok ((((db.selected cfg.runId).filter fun r =>
      cfg.retryable r && !decide (DeniedOrigin db cfg.runId r.url)).map (·.nextRetryAt)).min?.map
        fun t => max 0 (t - time))

/-- A query that answers has a clause that fits. -/
theorem clauseFits_of_nextPending {cfg : Config} {db : Db} {time : ℚ} {found : Option Row}
    (h : nextPending cfg db time = .ok found) : ClauseFits db cfg.runId := by
  refine exists_clauseIn_iff.1 ?_
  rw [nextPending] at h
  cases hclause : clauseIn 7 db cfg.runId with
  | error f =>
    rw [hclause] at h
    cases h
  | ok patterns => exact ⟨patterns, rfl⟩

/-- **An origin that denied access is paused exactly** if and only if the clause fits. -/
theorem scope_exact_iff (cfg : Config) (db : Db)
    (hurls : ∀ r ∈ db.selected cfg.runId, QueueUrl r.url) :
    ScopeExact cfg db ↔ ClauseFits db cfg.runId := by
  constructor
  · intro hexact
    exact clauseFits_of_nextPending (hexact 0).1
  · rw [← exists_clauseIn_iff]
    rintro ⟨patterns, hclause⟩ time
    have hpasses := passes_iff hurls (clauseIn_eq_ok.1 hclause).1
    have heq : ∀ r ∈ db.selected cfg.runId,
        passes patterns r = !decide (DeniedOrigin db cfg.runId r.url) := fun r hr => by
      rw [Bool.eq_iff_iff, hpasses r hr]
      simp
    constructor
    · rw [nextPending, hclause]
      refine congrArg (fun l : List Row => Except.ok l.head?) (List.filter_congr fun r hr => ?_)
      rw [heq r (mem_selected_of_ranked hr)]
    · rw [retryWait, clauseIn_of_le hclause (by omega)]
      refine congrArg (fun l : List Row => Except.ok ((l.map (·.nextRetryAt)).min?.map
        fun t => max 0 (t - time))) (List.filter_congr fun r hr => ?_)
      rw [heq r hr]

/-- One origin is denied; another one contains a wildcard that would match it. -/
def deniedHost : Db where
  downloads := ⟨[
    { url := "https://a_c/set/1", relativePath := "set/1", status := .reviewRequired,
      reviewCode := some "access_denied", updatedAt := "" },
    { url := "HTTPS://A_C/set/2", relativePath := "set/2", updatedAt := "" },
    { url := "https://abc/set/3", relativePath := "set/3", updatedAt := "" }], by decide⟩
  runItems := ⟨[⟨"run", "https://a_c/set/1", 0⟩, ⟨"run", "HTTPS://A_C/set/2", 1⟩,
    ⟨"run", "https://abc/set/3", 2⟩], by decide⟩

def oneRun : Config where
  runId := "run"
  destination := ["dest"]
  state := ["state"]

theorem queueUrl_deniedHost : ∀ r ∈ deniedHost.selected "run", QueueUrl r.url := by
  have hurls : ∀ r ∈ deniedHost.selected "run", r.url ∈
      ["https://a_c/set/1", "HTTPS://A_C/set/2", "https://abc/set/3"] := by decide
  have haccepted : ∀ url ∈ ["https://a_c/set/1", "HTTPS://A_C/set/2", "https://abc/set/3"],
      (relativePath url).isOk = true ∧ (url.toList.all fun c => !isPySpace c) = true := by
    decide
  intro r hr
  have hurl := hurls r hr
  obtain ⟨hok, hword⟩ := haccepted r.url hurl
  have hpath : ∃ path, relativePath r.url = .ok path := by
    cases h : relativePath r.url with
    | error e => rw [h] at hok; cases hok
    | ok path => exact ⟨path, rfl⟩
  refine ⟨fun c hc => by simpa using List.all_eq_true.1 hword c hc, hpath, ?_⟩
  simp only [List.mem_cons, List.not_mem_nil, or_false] at hurl
  rcases hurl with hurl | hurl | hurl <;> rw [hurl]
  · exact ⟨"https".toList, "a_c".toList, "set/1".toList, by simp; decide⟩
  · exact ⟨"HTTPS".toList, "A_C".toList, "set/2".toList, by simp; decide⟩
  · exact ⟨"https".toList, "abc".toList, "set/3".toList, by simp; decide⟩

theorem scope_exact_deniedHost : ScopeExact oneRun deniedHost :=
  (scope_exact_iff oneRun deniedHost queueUrl_deniedHost).2
    (clauseFits_of_few queueUrl_deniedHost (by decide))

/-! ## Many denied origins -/

/-- The URL of one file on a numbered host. -/
def mirror (n : ℕ) : String :=
  String.ofList ("http://".toList ++ (Nat.toDigits 10 n ++ "/set/f".toList))

theorem toList_mirror (n : ℕ) : (mirror n).toList =
    "http://".toList ++ (Nat.toDigits 10 n ++ "/set/f".toList) := String.toList_ofList

theorem toDigits_injective {m n : ℕ} (h : Nat.toDigits 10 m = Nat.toDigits 10 n) : m = n := by
  have hm := Nat.ofDigitChars_ten_toDigits (n := m)
  rwa [h, Nat.ofDigitChars_ten_toDigits, eq_comm] at hm

theorem mirror_injective {m n : ℕ} (h : mirror m = mirror n) : m = n :=
  toDigits_injective (List.append_cancel_right (List.append_cancel_left (String.ofList_injective h)))

theorem digits_codes {n c : ℕ} (h : c ∈ (Nat.toDigits 10 n).map Char.toNat) : 48 ≤ c ∧ c ≤ 57 := by
  obtain ⟨d, hd, rfl⟩ := List.mem_map.1 h
  have hdigit := Nat.isDigit_of_mem_toDigits (by decide) (by decide) hd
  simpa [Char.isDigit, UInt32.le_iff_toNat_le] using hdigit

theorem slash_notMem_toDigits (n : ℕ) : '/' ∉ Nat.toDigits 10 n := fun hmem =>
  absurd (digits_codes (List.mem_map_of_mem (f := Char.toNat) hmem)).1 (by decide)

/-- `http://` -/
def httpCodes : List ℕ := [104, 116, 116, 112, 58, 47, 47]

/-- `/set/f` -/
def fileCodes : List ℕ := [47, 115, 101, 116, 47, 102]

/-- A numeric host is split off. -/
theorem urlsplit_digits {host : List ℕ} (hhost : ∀ c ∈ host, 48 ≤ c ∧ c ≤ 57) :
    urlsplit (httpCodes ++ (host ++ fileCodes)) = .ok ⟨host, fileCodes, []⟩ := by
  have hstrip := @stripped_eq (httpCodes ++ (host ++ fileCodes)) rfl fun c hc => by
    have hplain : ∀ c ∈ httpCodes ++ fileCodes, c ≠ 9 ∧ c ≠ 10 ∧ c ≠ 13 := by decide
    rcases List.mem_append.1 hc with hc | hc
    · exact hplain c (List.mem_append_left _ hc)
    rcases List.mem_append.1 hc with hc | hc
    · have := hhost c hc
      omega
    · exact hplain c (List.mem_append_right _ hc)
  have hafter := @afterScheme_eq [104, 116, 116, 112] rfl (by decide) (by decide)
    (47 :: 47 :: (host ++ fileCodes))
  have hends : (host ++ fileCodes).takeWhile (fun c => c ≠ 47 && c ≠ 63 && c ≠ 35) = host := by
    rw [List.takeWhile_append_of_pos fun c hc => by
      have := hhost c hc
      simp only [Bool.and_eq_true, decide_eq_true_eq]
      omega]
    exact List.append_nil host
  have hbracket : ∀ c, 57 < c → host.contains c = false := fun c hc => by
    rw [← Bool.not_eq_true, List.contains_iff_mem]
    exact fun hmem => absurd (hhost c hmem).2 (by omega)
  have hafter' : Provenance.afterScheme (httpCodes ++ (host ++ fileCodes)) =
      47 :: 47 :: (host ++ fileCodes) := hafter
  have hnetloc : Provenance.netloc (httpCodes ++ (host ++ fileCodes)) = .ok host := by
    simp only [Provenance.netloc, hstrip, hafter', hends, hbracket 91 (by decide),
      hbracket 93 (by decide), if_true]
  simp only [urlsplit, hnetloc, hstrip, hafter', List.drop_left, bind, Except.bind]
  rfl

theorem codes_mirror (n : ℕ) : (mirror n).toList.map Char.toNat =
    httpCodes ++ ((Nat.toDigits 10 n).map Char.toNat ++ fileCodes) := by
  have hhttp : "http://".toList.map Char.toNat = httpCodes := by decide
  have hfile : "/set/f".toList.map Char.toNat = fileCodes := by decide
  rw [toList_mirror, List.map_append, List.map_append, hhttp, hfile]

/-- The host of a mirror says nothing of the path. -/
theorem relativePath_mirror (n : ℕ) : relativePath (mirror n) = relativePath (mirror 0) := by
  have huser : ∀ k, hasUserInfo ((Nat.toDigits 10 k).map Char.toNat) = false := fun k => by
    have hno : ((Nat.toDigits 10 k).map Char.toNat).reverse.dropWhile (· ≠ 64) = [] := by
      refine List.dropWhile_eq_nil_iff.2 fun c hc => ?_
      have := digits_codes (List.mem_reverse.1 hc)
      rw [decide_eq_true_eq]
      omega
    rw [hasUserInfo, hno]
    rfl
  have hsplit : ∀ k, urlsplit ((mirror k).toList.map Char.toNat) =
      .ok ⟨(Nat.toDigits 10 k).map Char.toNat, fileCodes, []⟩ := fun k => by
    rw [codes_mirror]
    exact urlsplit_digits fun c hc => digits_codes hc
  rw [relativePath, hsplit, relativePath, hsplit]
  dsimp only
  rw [huser, huser]

theorem origin_mirror (n : ℕ) : origin (mirror n) = ("http".toList, Nat.toDigits 10 n) := by
  have hslash : '/' ∉ Nat.toDigits 10 n := slash_notMem_toDigits n
  have hhttp : "http://".toList = "http".toList ++ ':' :: '/' :: '/' :: [] := by decide
  have hfile : "/set/f".toList = '/' :: "set/f".toList := by decide
  have hcolon : ':' ∉ "http".toList := by decide
  simp only [origin, toList_mirror, hhttp, hfile, List.append_assoc, List.cons_append,
    List.nil_append, takeWhile_append_of_mem hcolon]
  rw [List.drop_append, List.drop_eq_nil_of_le (by omega), Nat.add_sub_cancel_left, List.nil_append]
  simp only [List.drop_succ_cons, List.drop_zero, takeWhile_append_of_mem hslash]

theorem queueUrl_mirror (n : ℕ) : QueueUrl (mirror n) where
  word := by
    have hall : (("http://".toList ++ "/set/f".toList).all fun c => !isPySpace c) = true := by decide
    have hplain : ∀ c ∈ "http://".toList ++ "/set/f".toList, isPySpace c = false := fun c hc => by
      simpa using List.all_eq_true.1 hall c hc
    intro c hc
    rw [toList_mirror] at hc
    rcases List.mem_append.1 hc with hc | hc
    · exact hplain c (List.mem_append_left _ hc)
    rcases List.mem_append.1 hc with hc | hc
    · have := digits_codes (List.mem_map_of_mem (f := Char.toNat) hc)
      simp only [isPySpace, List.mem_cons, List.not_mem_nil, or_false, Bool.or_eq_false_iff,
        Bool.and_eq_false_iff, decide_eq_false_iff_not]
      omega
    · exact hplain c (List.mem_append_right _ hc)
  accepted := by
    have hok : (relativePath (mirror 0)).isOk = true := by decide +kernel
    rw [relativePath_mirror]
    cases h : relativePath (mirror 0) with
    | error e =>
      rw [h] at hok
      cases hok
    | ok path => exact ⟨path, rfl⟩
  written := by
    have hscheme : ("http".toList.all fun c => isSchemeChar c.toNat) = true := by decide
    refine ⟨"http".toList, Nat.toDigits 10 n, "set/f".toList, String.toList_ofList, by decide,
      List.all_eq_true.1 hscheme, Nat.toDigits_ne_nil, slash_notMem_toDigits n⟩

/-- One file is queued on its first host, `n` other hosts deny it. -/
def mirrorRow (i : ℕ) : Row where
  url := mirror i
  relativePath := "set/f"
  status := if i = 0 then .queued else .reviewRequired
  reviewCode := if i = 0 then none else some "access_denied"
  updatedAt := ""

def mirrors (n : ℕ) : Db where
  downloads := ⟨(List.range (n + 1)).map mirrorRow, by
    rw [List.map_map]
    exact List.nodup_range.map fun i j h => mirror_injective h⟩
  runItems := ⟨(List.range (n + 1)).map fun i => ⟨"run", mirror i, i⟩, by
    rw [List.map_map]
    exact List.nodup_range.map fun i j h => mirror_injective (Prod.mk.inj h).2⟩

theorem selected_mirrors (n : ℕ) :
    (mirrors n).selected "run" = (List.range (n + 1)).map mirrorRow := by
  have hitems : (mirrors n).runUrls "run" = (List.range (n + 1)).map mirror := by
    have hall : (mirrors n).runItems.rows.filter (fun i => i.runId = "run") =
        (mirrors n).runItems.rows := List.filter_eq_self.2 fun x hx => by
      obtain ⟨i, -, rfl⟩ := List.mem_map.1 hx
      rfl
    rw [Db.runUrls, hall]
    exact List.map_map
  rw [Db.selected, hitems, Lib.Table.join, List.filterMap_map]
  refine List.filterMap_eq_map_iff_forall_eq_some.2 fun i hi => ?_
  exact Lib.Table.find?_eq_some.2 ⟨List.mem_map_of_mem hi, rfl⟩

theorem queueUrl_mirrors (n : ℕ) : ∀ r ∈ (mirrors n).selected "run", QueueUrl r.url := by
  intro r hr
  rw [selected_mirrors] at hr
  obtain ⟨i, -, rfl⟩ := List.mem_map.1 hr
  exact queueUrl_mirror i

/-- The denied hosts are all but the first. -/
theorem denied_mirrors (n : ℕ) : ((mirrors n).selected "run").filter accessDenied =
    (List.range n).map fun i => mirrorRow (i + 1) := by
  rw [selected_mirrors, List.range_succ_eq_map, List.map_cons, List.map_map,
    List.filter_cons_of_neg (by decide)]
  refine List.filter_eq_self.2 fun r hr => ?_
  obtain ⟨i, -, rfl⟩ := List.mem_map.1 hr
  simp [mirrorRow, accessDenied]

/-- Every denied host has a prefix of its own. -/
theorem clauseFits_mirrors (n : ℕ) : ClauseFits (mirrors n) "run" ↔ n ≤ 993 := by
  have htextOf : ∀ i, scopePrefix (mirror i) = .ok (String.ofList
      ("http://".toList ++ (Nat.toDigits 10 i ++ ['/']))) := fun i => by
    rw [scopePrefix_eq (queueUrl_mirror i), origin_mirror]
    rfl
  have hnodup : (((mirrors n).selected "run").filter accessDenied |>.map fun r =>
      scopePrefix r.url).Nodup := by
    rw [denied_mirrors, List.map_map]
    refine List.nodup_range.map fun i j h => ?_
    have htext := (htextOf (i + 1)).symm.trans (h.trans (htextOf (j + 1)))
    have hdigits := List.append_cancel_right (List.append_cancel_left
      (String.ofList_injective (Except.ok.inj htext)))
    exact Nat.succ_injective (toDigits_injective hdigits)
  have hcount : ((((mirrors n).selected "run").filter accessDenied).map fun r =>
      scopePrefix r.url).dedup.length = n := by
    rw [hnodup.dedup, denied_mirrors, List.length_map, List.length_map, List.length_range]
  constructor
  · intro h
    exact hcount ▸ h.few
  · intro h
    exact clauseFits_of_few (queueUrl_mirrors n) (hcount.trans_le h)

/-- With 994 denied hosts nothing is handed out any more. -/
theorem not_scope_exact : ¬ ∀ cfg db, (∀ r ∈ db.selected cfg.runId, QueueUrl r.url) →
    ScopeExact cfg db := by
  intro hall
  have hfits := clauseFits_of_nextPending (hall oneRun (mirrors 994) (queueUrl_mirrors 994) 0).1
  exact absurd ((clauseFits_mirrors 994).1 hfits) (by decide)

end TodDl.Controller
