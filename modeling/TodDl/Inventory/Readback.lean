/-
  The inventory — exported queues read back by the downloader.

  The lines of a queue are words: the URL of an item and its tokens.  The path that
  `relative_path` decodes from the URL is the destination of the item exactly when the
  collection keeps its name under `unquote`.
-/
import TodDl.Inventory.Export

namespace TodDl.Inventory

open Store (isPySpace splitWords)
open Controller (ofCodes unquote relativePath decodedPath PurePath parseQueueLineTokens parseToken
  readLine readQueues queueEntry Reading QueueEntry isUnsafeRelative token)
open Lib.Posix (components isAbsolute asPosix)

/-! ## Lines and words -/

/-- The lines of a text file, whose ends are `\n`, `\r` or both; `line` is the one being
    read, reversed. -/
def textLines : List Char → List Char → List String
  | [], [] => []
  | [], line => [String.ofList line.reverse]
  | '\n' :: cs, line => String.ofList line.reverse :: textLines cs []
  | '\r' :: '\n' :: cs, line => String.ofList line.reverse :: textLines cs []
  | '\r' :: cs, line => String.ofList line.reverse :: textLines cs []
  | c :: cs, line => textLines cs (c :: line)

theorem textLines_line {line : List Char} (h : ∀ c ∈ line, c ≠ '\n' ∧ c ≠ '\r')
    (rest read : List Char) : textLines (line ++ '\n' :: rest) read =
      String.ofList (read.reverse ++ line) :: textLines rest [] := by
  induction line generalizing read with
  | nil => simp [textLines]
  | cons c line ih =>
    obtain ⟨⟨hn, hr⟩, hline⟩ := List.forall_mem_cons.1 h
    rw [List.cons_append, textLines.eq_6 _ _ _ hn (fun _ h _ => hr h) hr, ih hline]
    simp

/-- A word and what follows it. -/
theorem splitWords_word {word : List Char} (h : ∀ c ∈ word, isPySpace c = false)
    (rest read : List Char) :
    splitWords (word ++ rest) read = splitWords rest (word.reverse ++ read) := by
  induction word generalizing read with
  | nil => rfl
  | cons c word ih =>
    obtain ⟨hc, hword⟩ := List.forall_mem_cons.1 h
    rw [List.cons_append, splitWords, if_neg (by simp [hc]), ih hword]
    simp

/-- The words of words with blanks between them. -/
theorem splitWords_intercalate {words : List (List Char)}
    (h : ∀ w ∈ words, w ≠ [] ∧ ∀ c ∈ w, isPySpace c = false) :
    splitWords ([' '].intercalate words) [] = words := by
  induction words with
  | nil => rfl
  | cons w words ih =>
    obtain ⟨⟨hne, hw⟩, hwords⟩ := List.forall_mem_cons.1 h
    have hread : w.reverse.isEmpty = false := by simpa using hne
    cases words with
    | nil =>
      have hone : [' '].intercalate [w] = w ++ [] := by simp [List.intercalate]
      rw [hone, splitWords_word hw, List.append_nil, splitWords, hread]
      simp
    | cons v words =>
      have hcons : [' '].intercalate (w :: v :: words) =
          w ++ ' ' :: [' '].intercalate (v :: words) := by simp [List.intercalate]
      rw [hcons, splitWords_word hw, List.append_nil, splitWords, if_pos (by decide), hread]
      simp only [Bool.false_eq_true, if_false, List.reverse_reverse, ih hwords]

/-! ## Tokens -/

theorem isPySpace_generationChar {c : Char} (h : isGenerationChar c = true) :
    isPySpace c = false := by
  have hchars : ∀ n < 128, isGenerationChar (Char.ofNat n) = true →
      isPySpace (Char.ofNat n) = false := by decide
  by_cases hlt : c.toNat < 128
  · simpa [Char.ofNat_toNat] using hchars c.toNat hlt (by simpa [Char.ofNat_toNat] using h)
  · exfalso
    have hle : c ≤ '9' → c.toNat ≤ 57 := fun hle => hle
    simp only [isGenerationChar, Provenance.isAsciiAlpha, Provenance.isAsciiDigit, Bool.or_eq_true,
      Bool.and_eq_true, decide_eq_true_eq, List.mem_cons, List.not_mem_nil, or_false] at h
    rcases h with ((h | h) | h) | rfl | rfl | rfl | rfl
    · omega
    · omega
    · have := hle h.2
      omega
    all_goals exact hlt (by decide)

/-- The identifier of a generation is a word, but for a newline at its end. -/
theorem word_generation {g : String} (h : isGeneration g = true) :
    (chomp g).toList ≠ [] ∧ ∀ c ∈ (chomp g).toList, isPySpace c = false := by
  simp only [isGeneration, Bool.and_eq_true, Bool.not_eq_true', decide_eq_true_eq,
    List.all_eq_true] at h
  obtain ⟨⟨hne, -⟩, hall⟩ := h
  exact ⟨fun hnil => by simp [hnil] at hne, fun c hc => isPySpace_generationChar (hall c hc)⟩

theorem parseToken_ok (tokens : List (String × String)) {key value : List Char} (hkey : '=' ∉ key)
    (hmem : String.ofList key ∈ ["size", "generation"])
    (hnew : tokens.any (·.1 = String.ofList key) = false) (hvalue : value ≠ []) :
    parseToken tokens (String.ofList (key ++ '=' :: value)) =
      .ok (tokens ++ [(String.ofList key, String.ofList value)]) := by
  have hall : ∀ c ∈ key, decide (c ≠ '=') = true := fun c hc => by
    simpa using fun h : c = '=' => hkey (h ▸ hc)
  have htake : (key ++ '=' :: value).takeWhile (· ≠ '=') = key := by
    rw [List.takeWhile_append_of_pos hall]
    simp
  have hdrop : (key ++ '=' :: value).dropWhile (· ≠ '=') = '=' :: value := by
    rw [List.dropWhile_append_of_pos hall]
    simp
  have hknown : String.ofList key ∈ Controller.queueLineTokenKeys ∧ String.ofList key ≠ "sha256" := by
    simp only [List.mem_cons, List.not_mem_nil, or_false] at hmem
    rcases hmem with h | h <;> rw [h] <;> decide
  have hempty : value.isEmpty = false := by simpa using hvalue
  simp only [parseToken, String.toList_ofList, htake, hdrop]
  rw [if_neg (not_not.2 hknown.1), hnew, hempty]
  simp [hknown.2]

/-- The tokens of an item. -/
def itemTokens (generation : Option String) (sizeToken : String) : List (String × String) :=
  ("size", sizeToken) :: (generation.elim [] fun g => [("generation", chomp g)])

/-- The words on the line of an item. -/
def itemWords (generation : Option String) (i : Item) : List (List Char) :=
  (i.sourceUrl.getD "").toList :: ("size=".toList ++ i.sizeToken.toList) ::
    (generation.elim [] fun g => ["generation=".toList ++ (chomp g).toList])

theorem parseQueueLineTokens_item {generation : Option String} {i : Item}
    (hsize : isSizeToken i.sizeToken.toList = true) (hgen : generation.all isGeneration = true) :
    parseQueueLineTokens ((itemWords generation i).tail.map String.ofList) =
      .ok (itemTokens generation i.sizeToken) := by
  have hsized : parseToken [] (String.ofList ("size=".toList ++ i.sizeToken.toList)) =
      .ok [("size", i.sizeToken)] := by
    simpa using parseToken_ok [] (show '=' ∉ "size".toList by decide) (by decide) rfl
      (word_sizeToken hsize).1
  cases generation with
  | none =>
    simp only [itemWords, parseQueueLineTokens, List.tail_cons, List.map_cons, Option.elim_none,
      List.map_nil, List.foldlM_cons, List.foldlM_nil, hsized]
    rfl
  | some g =>
    have hnamed : parseToken [("size", i.sizeToken)]
        (String.ofList ("generation=".toList ++ (chomp g).toList)) =
          .ok [("size", i.sizeToken), ("generation", chomp g)] := by
      simpa using parseToken_ok [("size", i.sizeToken)]
        (show '=' ∉ "generation".toList by decide) (by decide) (by simp)
        (word_generation (by simpa using hgen)).1
    simp only [itemWords, parseQueueLineTokens, List.tail_cons, List.map_cons, Option.elim_some,
      List.map_nil, List.foldlM_cons, List.foldlM_nil, hsized, hnamed, bind, Except.bind]
    rfl

/-! ## Lines of items -/

/-- The line of an item, without its end. -/
def itemText (generation : Option String) (i : Item) : List Char :=
  [' '].intercalate (itemWords generation i)

theorem chomp_or (g : String) : g.toList = (chomp g).toList ∨ g.toList = (chomp g).toList ++ ['\n'] := by
  unfold chomp
  split
  · next h =>
    right
    rw [String.toList_ofList]
    exact (List.dropLast_append_getLast? _ (by simpa using h)).symm
  · exact .inl rfl

/-- An item of the manifest as far as its line is concerned. -/
structure Lined (generation : Option String) (i : Item) (url : String) : Prop where
  source : i.sourceUrl = some url
  head : url.toList.head? = some 'h'
  word : ∀ c ∈ url.toList, isPySpace c = false
  sized : isSizeToken i.sizeToken.toList = true
  named : generation.all isGeneration = true

section
variable {generation : Option String} {i : Item} {url : String} (h : Lined generation i url)
include h

theorem Lined.words : ∀ w ∈ itemWords generation i, w ≠ [] ∧ ∀ c ∈ w, isPySpace c = false := by
  have hsize : ∀ c ∈ "size=".toList, isPySpace c = false := notSpace_of_all (by decide)
  have hgen : ∀ c ∈ "generation=".toList, isPySpace c = false := notSpace_of_all (by decide)
  intro w hw
  rw [itemWords, h.source, Option.getD_some] at hw
  rcases List.mem_cons.1 hw with rfl | hw
  · refine ⟨fun hnil => ?_, h.word⟩
    have := h.head
    simp [hnil] at this
  · rcases List.mem_cons.1 hw with rfl | hw
    · refine ⟨by simp, fun c hc => ?_⟩
      rcases List.mem_append.1 hc with hc | hc
      · exact hsize c hc
      · exact (word_sizeToken h.sized).2 c hc
    · cases generation with
      | none => cases hw
      | some g =>
        obtain rfl := List.mem_singleton.1 hw
        refine ⟨by simp, fun c hc => ?_⟩
        rcases List.mem_append.1 hc with hc | hc
        · exact hgen c hc
        · exact (word_generation (by simpa using h.named)).2 c hc

/-- What one line of a queue does. -/
theorem Lined.readLine {r : Reading} (hseen : url ∉ r.seen) :
    readLine r (String.ofList (itemText generation i)) =
      match queueEntry url (itemTokens generation i.sizeToken) with
      | .error e => { r with seen := url :: r.seen }.reject url e
      | .ok entry => { r with seen := url :: r.seen, entries := r.entries ++ [entry] } := by
  have hwords : (splitWords (String.ofList (itemText generation i)).toList []).map String.ofList =
      url :: (itemWords generation i).tail.map String.ofList := by
    rw [String.toList_ofList, itemText, splitWords_intercalate h.words]
    simp [itemWords, h.source]
  unfold TodDl.Controller.readLine
  rw [hwords]
  dsimp only
  rewrite [h.head, if_neg (by decide), if_neg hseen, parseQueueLineTokens_item h.sized h.named]
  rfl

theorem Lined.itemLine_eq : itemLine generation i = itemText generation i ++
    '\n' :: (if generation.all fun g => chomp g = g then [] else ['\n']) := by
  have hhead : ∀ w v : List Char, [' '].intercalate [w, v] = w ++ ' ' :: v := by
    simp [List.intercalate]
  have hhead₃ : ∀ u w v : List Char, [' '].intercalate [u, w, v] = u ++ ' ' :: (w ++ ' ' :: v) := by
    simp [List.intercalate]
  have hsize : " size=".toList = ' ' :: "size=".toList := by decide
  have hgen : " generation=".toList = ' ' :: "generation=".toList := by decide
  unfold itemLine queueLine itemText itemWords
  rw [h.source, Option.getD_some, hsize, hgen]
  cases generation with
  | none => simp [hhead]
  | some g =>
    simp only [Option.elim_some, hhead₃, Option.all_some]
    rcases chomp_or g with hg | hg
    · rw [if_pos (by simpa using (String.toList_inj.1 hg).symm), ← hg]
      simp
    · rw [if_neg (by simpa using fun heq : chomp g = g => by simp [heq] at hg), hg]
      simp

theorem Lined.ne_newline : ∀ c ∈ itemText generation i, c ≠ '\n' ∧ c ≠ '\r' := by
  intro c hc
  rcases mem_intercalate hc with rfl | ⟨w, hw, hc⟩
  · decide
  · have hspace := (h.words w hw).2 c hc
    constructor <;> rintro rfl <;> exact absurd hspace (by decide)

end

/-- The lines of a queue after its comments. -/
theorem foldl_itemLines {generation : Option String} {items : List Item}
    (h : ∀ i ∈ items, ∃ url, Lined generation i url) (r : Reading) :
    (textLines (items.flatMap (itemLine generation)) []).foldl readLine r =
      items.foldl (fun r i => readLine r (String.ofList (itemText generation i))) r := by
  have hblank : ∀ r : Reading, readLine r "" = r := fun _ => rfl
  induction items generalizing r with
  | nil => rfl
  | cons i items ih =>
    obtain ⟨⟨url, hi⟩, hitems⟩ := List.forall_mem_cons.1 h
    rw [List.flatMap_cons, hi.itemLine_eq, List.append_assoc, List.cons_append,
      textLines_line hi.ne_newline, List.foldl_cons, List.foldl_cons, List.reverse_nil,
      List.nil_append, ← ih hitems]
    split
    · rfl
    · have hempty := textLines_line (List.forall_mem_nil _) (items.flatMap (itemLine generation)) []
      rw [List.nil_append, List.reverse_nil, List.nil_append] at hempty
      rw [List.singleton_append, hempty, List.foldl_cons, String.ofList_nil, hblank]

/-- What the downloader reads of an item. -/
structure Entered (generation : Option String) (entry : QueueEntry) (i : Item) : Prop where
  url : i.sourceUrl = some entry.url
  size : entry.inventorySize = some i.sizeToken
  generation : entry.generation = generation.map chomp
  path : ∃ path, relativePath entry.url = .ok path ∧ entry.rel = path.parts

theorem entered_of_queueEntry {generation : Option String} {i : Item} {url : String}
    {entry : QueueEntry} (hurl : i.sourceUrl = some url)
    (h : queueEntry url (itemTokens generation i.sizeToken) = .ok entry) :
    Entered generation entry i := by
  have htoken : token (itemTokens generation i.sizeToken) "size" = some i.sizeToken ∧
      token (itemTokens generation i.sizeToken) "generation" = generation.map chomp := by
    cases generation <;> simp [itemTokens, token]
  unfold queueEntry at h
  split at h
  · cases h
  · next path hpath =>
    obtain rfl := Except.ok.inj h
    exact ⟨hurl, htoken.1, htoken.2, path, hpath, rfl⟩

/-- **What the lines of a queue give**: an entry for each item whose URL has a path, and
    a rejected line for each other one. -/
theorem read_items {generation : Option String} {items : List Item}
    (h : ∀ i ∈ items, ∃ url, Lined generation i url)
    (hnodup : (items.filterMap (·.sourceUrl)).Nodup) {r : Reading}
    (hfresh : ∀ url ∈ items.filterMap (·.sourceUrl), url ∉ r.seen) :
    ∃ es rs, (items.foldl (fun r i => readLine r (String.ofList (itemText generation i))) r).entries =
        r.entries ++ es ∧
      (items.foldl (fun r i => readLine r (String.ofList (itemText generation i))) r).rejected =
        r.rejected ++ rs ∧
      (rs = [] ↔ ∀ i ∈ items, ∀ url, i.sourceUrl = some url → ∃ path, relativePath url = .ok path) ∧
      (rs = [] → List.Forall₂ (Entered generation) es items) := by
  induction items generalizing r with
  | nil => exact ⟨[], [], by simp, by simp, by simp, fun _ => .nil⟩
  | cons i items ih =>
    obtain ⟨⟨url, hi⟩, hitems⟩ := List.forall_mem_cons.1 h
    rw [List.filterMap_cons_some hi.source] at hnodup hfresh
    obtain ⟨hnew, hnodup⟩ := List.nodup_cons.1 hnodup
    have hseen : ∀ v ∈ items.filterMap (·.sourceUrl), v ∉ url :: r.seen := fun v hv hmem => by
      rcases List.mem_cons.1 hmem with rfl | hmem
      · exact hnew hv
      · exact hfresh v (List.mem_cons_of_mem _ hv) hmem
    have hstep := hi.readLine (hfresh url List.mem_cons_self)
    rw [List.foldl_cons, hstep]
    cases hentry : queueEntry url (itemTokens generation i.sizeToken) with
    | error e =>
      obtain ⟨es, rs, hes, hrs, -, -⟩ :=
        ih hitems hnodup (r := { r with seen := url :: r.seen }.reject url e)
        hseen
      refine ⟨es, (url, e) :: rs, hes, by simpa [Reading.reject] using hrs, ?_, by simp⟩
      simp only [reduceCtorEq, false_iff, not_forall]
      refine ⟨i, List.mem_cons_self, url, hi.source, ?_⟩
      rintro ⟨path, hpath⟩
      unfold queueEntry at hentry
      split at hentry
      · next heq => exact nomatch heq.symm.trans hpath
      · cases hentry
    | ok entry =>
      have hentered := entered_of_queueEntry hi.source hentry
      obtain ⟨es, rs, hes, hrs, hiff, hall⟩ := ih hitems hnodup
        (r := { r with seen := url :: r.seen, entries := r.entries ++ [entry] }) hseen
      refine ⟨entry :: es, rs, by simpa using hes, hrs, ?_, fun hnil => .cons hentered (hall hnil)⟩
      rw [hiff, List.forall_mem_cons]
      refine (and_iff_right fun v hv => ?_).symm
      obtain ⟨path, hpath, -⟩ := hentered.path
      obtain rfl := Option.some.inj (hv.symm.trans hentered.url)
      exact ⟨path, hpath⟩

/-! ## The paths of URLs -/

theorem segments_of_safe {path name : String} (h : unsafePathReason path name = none) :
    ∀ s ∈ segments path, s ∉ [[], ['.'], ['.', '.']] ∧ s.any isControl = false := by
  intro s hs
  unfold unsafePathReason at h
  split at h
  · cases h
  · have hnone := List.findSome?_eq_none_iff.1 h s hs
    unfold unsafeSegmentReason at hnone
    split at hnone
    · cases hnone
    · next hs =>
      split at hnone
      · cases hnone
      · next hcontrol => exact ⟨by simpa using hs, by simpa using hcontrol⟩

/-- Components that are joined are read back. -/
theorem components_intercalate {ts : List (List Char)} (hne : ts ≠ [])
    (h : ∀ t ∈ ts, t ≠ [] ∧ t ≠ ['.'] ∧ '/' ∉ t) :
    components (String.ofList (['/'].intercalate ts)) = ts.map String.ofList := by
  rw [components, String.toList_ofList, List.splitOn_intercalate _ (fun t ht => (h t ht).2.2) hne,
    List.filter_eq_self]
  intro c hc
  obtain ⟨t, ht, rfl⟩ := List.mem_map.1 hc
  have hempty : String.ofList t ≠ "" := fun he =>
    (h t ht).1 (by simpa using congrArg String.toList he)
  have hdot : String.ofList t ≠ "." := fun he =>
    (h t ht).2.1 (by simpa using congrArg String.toList he)
  simp [hempty, hdot]

theorem components_single {t : List Char} (hne : t ≠ []) (hdot : t ≠ ['.']) (hslash : '/' ∉ t) :
    components (String.ofList t) = [String.ofList t] := by
  have h := components_intercalate (List.cons_ne_nil t []) (by simp [hne, hdot, hslash])
  simpa [List.intercalate] using h

theorem isAbsolute_ofList {t : List Char} (h : '/' ∉ t) : isAbsolute (String.ofList t) = false := by
  cases t with
  | nil => rfl
  | cons c t =>
    have : c ≠ '/' := fun hc => h (hc ▸ List.mem_cons_self)
    simpa [isAbsolute] using this

namespace Base
variable (b : Base)

/-- The components below the collection. -/
def tail (path : String) : List (List Char) :=
  (if b.data then ["data".toList] else []) ++ segments path

/-- The name of the collection, as the base URL writes it. -/
def name : String := ofCodes b.first

section
variable {path : String} (hsafe : ∀ s ∈ segments path, s ∉ [[], ['.'], ['.', '.']] ∧
  s.any isControl = false)
include hsafe

theorem mem_tail : ∀ t ∈ b.tail path, t ≠ [] ∧ t ≠ ['.'] ∧ '/' ∉ t ∧ t ≠ ['.', '.'] ∧ '\x00' ∉ t := by
  intro t ht
  rcases List.mem_append.1 ht with ht | ht
  · split at ht
    · obtain rfl := List.mem_singleton.1 ht
      decide
    · cases ht
  · obtain ⟨hnames, hcontrol⟩ := hsafe t ht
    simp only [List.mem_cons, List.not_mem_nil, or_false, not_or] at hnames
    refine ⟨hnames.1, hnames.2.1, Lib.Posix.notMem_of_mem_splitOn ht, hnames.2.2, fun hnul => ?_⟩
    have := List.any_eq_false.1 hcontrol _ hnul
    revert this
    decide

/-- The segments of the URL behind the collection, before they are decoded. -/
theorem texts_rest : (PurePath.ofText (ofCodes (b.rest path))).texts.map unquote =
    (b.tail path).map String.ofList := by
  have hnil : encodeSegment [] = [] := rfl
  have hdot : encodeSegment ['.'] = ['.'] := by decide
  have hdata : encodeSegment ['d', 'a', 't', 'a'] = ['d', 'a', 't', 'a'] := by decide
  have htail := b.mem_tail hsafe
  have htexts : ∀ t ∈ (b.tail path).map encodeSegment, t ≠ [] ∧ t ≠ ['.'] ∧ '/' ∉ t := by
    intro t ht
    obtain ⟨s, hs, rfl⟩ := List.mem_map.1 ht
    refine ⟨fun he => (htail s hs).1 (encodeSegment_injective (he.trans hnil.symm)), fun he =>
      (htail s hs).2.1 (encodeSegment_injective (he.trans hdot.symm)), fun hc => ?_⟩
    exact (mem_encodeSegment hc).2 rfl
  have hne : (b.tail path).map encodeSegment ≠ [] := by
    have := List.splitOn_ne_nil '/' path.toList
    simp [tail, segments, this]
  have hrest : ofCodes (b.rest path) =
      String.ofList (['/'].intercalate ((b.tail path).map encodeSegment)) := by
    rw [b.ofCodes_rest, encodePath]
    congr 1
    obtain ⟨s, ss, hs⟩ := List.exists_cons_of_ne_nil (List.splitOn_ne_nil '/' path.toList)
    rw [tail, List.map_append, segments, hs]
    cases b.data with
    | false => simp
    | true => simp [List.intercalate, hdata]
  have habs : isAbsolute (ofCodes (b.rest path)) = false := by
    obtain ⟨t, ts, hts⟩ := List.exists_cons_of_ne_nil hne
    obtain ⟨ht, -, hslash⟩ := htexts t (hts ▸ List.mem_cons_self)
    obtain ⟨c, cs, rfl⟩ := List.exists_cons_of_ne_nil ht
    have hc : c ≠ '/' := fun h => hslash (h ▸ List.mem_cons_self)
    rw [hrest, hts]
    cases ts <;> simpa [isAbsolute, List.intercalate] using hc
  have hparts : (PurePath.ofText (ofCodes (b.rest path))).texts =
      components (ofCodes (b.rest path)) := by simp [PurePath.texts, PurePath.ofText, habs]
  rw [hparts, hrest, components_intercalate hne htexts, List.map_map, List.map_map]
  exact List.map_congr_left fun s _ => unquote_encodeSegment s

/-- **The decoded path of a URL**: the decoded name of the collection, and the path. -/
theorem decodedPath_eq : decodedPath b.first (b.rest path) =
    (PurePath.ofText (unquote b.name)).join (.ofTexts ((b.tail path).map String.ofList)) := by
  rw [decodedPath, b.texts_rest hsafe]
  rfl

theorem root_tail : (PurePath.ofTexts ((b.tail path).map String.ofList)).root = false := by
  rw [PurePath.root_ofTexts, List.any_eq_false]
  intro c hc
  obtain ⟨t, ht, rfl⟩ := List.mem_map.1 hc
  simpa using isAbsolute_ofList (b.mem_tail hsafe t ht).2.2.1

theorem parts_decoded : (decodedPath b.first (b.rest path)).parts =
    components (unquote b.name) ++ (b.tail path).map String.ofList := by
  have htail := b.mem_tail hsafe
  rw [b.decodedPath_eq hsafe, PurePath.parts_join (b.root_tail hsafe), PurePath.parts_ofTexts,
    List.flatMap_map]
  · rw [PurePath.parts_ofText, List.append_cancel_left_eq, List.map_eq_flatMap]
    refine List.flatMap_congr fun t ht => ?_
    obtain ⟨hne, hdot, hslash, -⟩ := htail t ht
    exact components_single hne hdot hslash
  · intro c hc
    obtain ⟨t, ht, rfl⟩ := List.mem_map.1 hc
    exact isAbsolute_ofList (htail t ht).2.2.1

/-- The path is unsafe exactly when the name of the collection is. -/
theorem isUnsafe_decoded : (decodedPath b.first (b.rest path)).isUnsafe =
    (PurePath.ofText (unquote b.name)).isUnsafe := by
  have htail : isUnsafeRelative ((b.tail path).map String.ofList) = false := by
    rw [isUnsafeRelative, List.any_eq_false]
    intro c hc
    obtain ⟨t, ht, rfl⟩ := List.mem_map.1 hc
    obtain ⟨-, -, -, hup, hnul⟩ := b.mem_tail hsafe t ht
    have hup' : String.ofList t ≠ ".." := fun he => hup (by simpa using congrArg String.toList he)
    simp [hup', hnul]
  have hroot : (decodedPath b.first (b.rest path)).root = (PurePath.ofText (unquote b.name)).root := by
    rw [b.decodedPath_eq hsafe, PurePath.root_join, b.root_tail hsafe, Bool.or_false]
  have happend : ∀ p q : List String,
      isUnsafeRelative (p ++ q) = (isUnsafeRelative p || isUnsafeRelative q) := fun _ _ =>
    List.any_append
  rw [PurePath.isUnsafe, PurePath.isUnsafe, hroot, b.parts_decoded hsafe, happend, htail,
    Bool.or_false, PurePath.parts_ofText]

/-- What `relative_path` makes of a URL that is exported. -/
theorem relativePath_sourceUrl (hok : ofCodes (b.rest path) ∉ ["", "ALL_FILES", "data/ALL_FILES"]) :
    relativePath (sourceUrl (ofCodes b.codes) path) =
      if (PurePath.ofText (unquote b.name)).isUnsafe then .error .unsafePath
      else .ok (decodedPath b.first (b.rest path)) := by
  unfold relativePath
  rw [b.codes_sourceUrl, b.urlsplit_below (plain_encodePath path)]
  dsimp only
  rw [b.user, b.path_below, b.takeWhile_first, List.drop_left]
  simp only [List.isEmpty_nil, Bool.not_true, Bool.or_self, Bool.false_eq_true, if_false]
  rw [if_neg hok]
  show (if (decodedPath b.first (b.rest path)).isUnsafe then _ else _) = _
  rw [b.isUnsafe_decoded hsafe]
  rfl

end

end Base

theorem length_le_of_mem_splitOn {l piece : List Char} (h : piece ∈ l.splitOn '/') :
    piece.length ≤ l.length := by
  induction l generalizing piece with
  | nil =>
    rw [List.splitOn_nil, List.mem_singleton] at h
    simp [h]
  | cons c l ih =>
    obtain ⟨first, rest, hsplit⟩ := List.exists_cons_of_ne_nil (List.splitOn_ne_nil '/' l)
    rw [List.splitOn_cons_eq_if_modifyHead, hsplit] at h
    rw [hsplit] at ih
    split at h
    · rcases List.mem_cons.1 h with rfl | h
      · simp
      · exact (ih h).trans (by simp)
    · rw [List.modifyHead_cons] at h
      rcases List.mem_cons.1 h with rfl | h
      · simpa using ih List.mem_cons_self
      · exact (ih (List.mem_cons_of_mem _ h)).trans (by simp)

theorem length_le_of_mem_components {t c : String} (h : c ∈ components t) :
    c.toList.length ≤ t.toList.length := by
  obtain ⟨l, hl, rfl⟩ := List.mem_map.1 (List.mem_filter.1 h).1
  rw [String.toList_ofList]
  exact length_le_of_mem_splitOn hl

/-- Joined components without a slash determine the list. -/
theorem asPosix_injective {p q : List String} (hp : p ≠ []) (hq : q ≠ [])
    (hps : ∀ c ∈ p, '/' ∉ c.toList) (hqs : ∀ c ∈ q, '/' ∉ c.toList) (h : asPosix p = asPosix q) :
    p = q := by
  rw [Lib.Posix.asPosix_of_ne_nil hp, Lib.Posix.asPosix_of_ne_nil hq] at h
  have hjoin := congrArg (List.splitOn '/') (String.ofList_injective h)
  have hslash : ∀ r : List String, (∀ c ∈ r, '/' ∉ c.toList) → ∀ l ∈ r.map String.toList, '/' ∉ l := by
    intro r hr l hl
    obtain ⟨c, hc, rfl⟩ := List.mem_map.1 hl
    exact hr c hc
  rw [List.splitOn_intercalate _ (hslash p hps) (by simpa using hp),
    List.splitOn_intercalate _ (hslash q hqs) (by simpa using hq)] at hjoin
  exact (show Function.Injective String.toList from fun _ _ => String.toList_inj.1).list_map hjoin

namespace Base
variable (b : Base)

theorem toList_name : b.name.toList = b.first.map Char.ofNat := String.toList_ofList ..

/-- The name of the collection is a component. -/
theorem plain_name : (∀ c ∈ b.name.toList, c.toNat < 128) ∧ '/' ∉ b.name.toList ∧
    b.name ≠ "" ∧ b.name ≠ "." ∧ b.name ≠ ".." := by
  have hcodes : b.name.toList.map Char.toNat = b.first :=
    codes_ofCodes fun c hc => (b.plain_first c hc).1.1
  have hmem : ∀ c ∈ b.name.toList, c.toNat ∈ b.first := fun c hc =>
    hcodes ▸ List.mem_map_of_mem hc
  have hne : ∀ s : String, s.toList.map Char.toNat ∈ [[], [46], [46, 46]] → b.name ≠ s := by
    rintro s hs rfl
    exact b.named (hcodes ▸ hs)
  refine ⟨fun c hc => (b.plain_first _ (hmem c hc)).1.1, fun hc => ?_, hne _ (by decide),
    hne _ (by decide), hne _ (by decide)⟩
  exact (b.plain_first _ (hmem _ hc)).2 rfl

theorem components_name : components b.name = [b.name] := by
  obtain ⟨-, hslash, hne, hdot, -⟩ := b.plain_name
  have h := components_single (fun h => hne (String.toList_inj.1 h))
    (fun h => hdot (String.toList_inj.1 h)) hslash
  rwa [String.ofList_toList] at h

/-- **The collection keeps its name**: it has no escape and no NUL. -/
theorem keeps_name : ((PurePath.ofText (unquote b.name)).isUnsafe = false ∧
      components (unquote b.name) = [b.name]) ↔
    unquote b.name = b.name ∧ '\x00' ∉ b.name.toList := by
  obtain ⟨hascii, hslash, -, -, hup⟩ := b.plain_name
  have habs : isAbsolute b.name = false := by
    have := isAbsolute_ofList hslash
    rwa [String.ofList_toList] at this
  have hkept : (PurePath.ofText b.name).isUnsafe = false ↔ '\x00' ∉ b.name.toList := by
    rw [PurePath.isUnsafe, PurePath.parts_ofText, b.components_name]
    simp [PurePath.ofText, habs, isUnsafeRelative, hup]
  constructor
  · rintro ⟨hsafe, hcomponents⟩
    have hlength := length_le_of_mem_components (hcomponents ▸ List.mem_singleton_self b.name)
    have hsame : unquote b.name = b.name :=
      (unquote_eq_or_length_lt hascii).resolve_right (not_lt.2 hlength)
    rw [hsame] at hsafe
    exact ⟨hsame, hkept.1 hsafe⟩
  · rintro ⟨hsame, hnul⟩
    rw [hsame]
    exact ⟨hkept.2 hnul, b.components_name⟩

/-- The destination of a path. -/
theorem destination_eq (path : String) : ofCodes b.path ++ "/" ++ path =
    asPosix (b.name :: (b.tail path).map String.ofList) := by
  have hjoin : ['/'].intercalate (segments path) = path.toList := List.intercalate_splitOn '/'
  have hpath : (ofCodes b.path).toList =
      b.name.toList ++ if b.data then '/' :: "data".toList else [] := by
    rw [ofCodes, String.toList_ofList, Base.path, List.map_append, b.toList_name]
    cases b.data <;> rfl
  have hmap : ((b.tail path).map String.ofList).map String.toList = b.tail path := by
    rw [List.map_map]
    exact (List.map_congr_left fun t _ => String.toList_ofList).trans (List.map_id _)
  obtain ⟨s, ss, hs⟩ := List.exists_cons_of_ne_nil (List.splitOn_ne_nil '/' path.toList)
  refine String.toList_inj.1 ?_
  rw [asPosix, String.toList_ofList, List.map_cons, hmap, String.toList_append, String.toList_append,
    hpath, ← hjoin, tail, segments, hs]
  cases b.data <;> simp [List.intercalate]

end Base

/-- The collection of a destination prefix. -/
def collectionName (collection : String) : String :=
  String.ofList (collection.toList.takeWhile (· ≠ '/'))

theorem collectionName_path (b : Base) : collectionName (ofCodes b.path) = b.name := by
  have hall : ∀ c ∈ b.name.toList, decide (c ≠ '/') = true := fun c hc => by
    simpa using fun h : c = '/' => b.plain_name.2.1 (h ▸ hc)
  have hpath : (ofCodes b.path).toList =
      b.name.toList ++ if b.data then '/' :: "data".toList else [] := by
    rw [ofCodes, String.toList_ofList, Base.path, List.map_append, b.toList_name]
    cases b.data <;> rfl
  rw [collectionName, hpath, List.takeWhile_append_of_pos hall]
  cases b.data <;> simp

/-! ## Queues read back -/

/-- The downloader reads a queue as the items that were exported: no line is rejected,
    and the entries are those of the items, in their order, at their destinations. -/
structure ReadBack (generation : Option String) (items : List Item) (r : Reading) : Prop where
  rejected : r.rejected = []
  entries : List.Forall₂ (fun entry i => i.sourceUrl = some entry.url ∧
    entry.inventorySize = some i.sizeToken ∧ entry.generation = generation ∧
    i.destination = some (asPosix entry.rel)) r.entries items

/-- A comment of two words. -/
theorem readLine_comment {word : List Char} (hne : word ≠ []) (h : ∀ c ∈ word, isPySpace c = false)
    (r : Reading) : readLine r (String.ofList (['#', ' '] ++ word)) = r := by
  have hplain : ∀ w ∈ [['#'], word], w ≠ [] ∧ ∀ c ∈ w, isPySpace c = false := by
    intro w hw
    rcases List.mem_pair.1 hw with rfl | rfl
    · exact ⟨by simp, notSpace_of_all (by decide)⟩
    · exact ⟨hne, h⟩
  have hwords := splitWords_intercalate hplain
  have hjoin : [' '].intercalate [['#'], word] = ['#', ' '] ++ word := by simp [List.intercalate]
  rw [hjoin] at hwords
  unfold readLine
  rw [String.toList_ofList, hwords]
  rfl

theorem queueHead_append (sha : String) (choice : Choice) (text : List Char) :
    queueHead sha choice ++ text = (['#', ' '] ++ ("manifest_sha256=".toList ++ sha.toList)) ++
      '\n' :: ((['#', ' '] ++ ("disposition=".toList ++ choice.text.toList)) ++ '\n' :: text) := by
  have hkey : "# manifest_sha256=".toList = ['#', ' '] ++ "manifest_sha256=".toList := by decide
  have hdisposition : "\n# disposition=".toList =
      '\n' :: (['#', ' '] ++ "disposition=".toList) := by decide
  unfold queueHead
  generalize sha.toList = digits, choice.text.toList = word
  rw [hkey, hdisposition]
  simp only [List.append_assoc, List.cons_append, List.nil_append]

/-- The comments add nothing. -/
theorem foldl_queueText (manifestFile : List UInt8) (choice : Choice) (generation : Option String)
    (items : List Item) (r : Reading) :
    (textLines (queueText manifestFile choice generation items) []).foldl readLine r =
      (textLines ((exported choice items).flatMap (itemLine generation)) []).foldl readLine r := by
  obtain ⟨sha, hsha⟩ : ∃ sha, sha = Lib.Sha256.hexdigest manifestFile := ⟨_, rfl⟩
  have hdigits : ∀ c ∈ "0123456789abcdef".toList, isPySpace c = false :=
    notSpace_of_all (by decide)
  have hfirst : ∀ c ∈ "manifest_sha256=".toList ++ sha.toList, isPySpace c = false := by
    have hkey : ∀ c ∈ "manifest_sha256=".toList, isPySpace c = false := notSpace_of_all (by decide)
    intro c hc
    rcases List.mem_append.1 hc with hc | hc
    · exact hkey c hc
    · rw [hsha] at hc
      exact hdigits c (Lib.Sha256.mem_hexdigest hc)
  have hsecond : ∀ c ∈ "disposition=".toList ++ choice.text.toList, isPySpace c = false := by
    cases choice <;> exact notSpace_of_all (by decide)
  have hend : ∀ w : List Char, (∀ c ∈ w, isPySpace c = false) →
      ∀ c ∈ ['#', ' '] ++ w, c ≠ '\n' ∧ c ≠ '\r' := by
    intro w hw c hc
    simp only [List.cons_append, List.nil_append, List.mem_cons] at hc
    rcases hc with rfl | rfl | hc
    · decide
    · decide
    · constructor <;> rintro rfl <;> exact absurd (hw _ hc) (by decide)
  rw [queueText, ← hsha, queueHead_append, textLines_line (hend _ hfirst),
    textLines_line (hend _ hsecond), List.foldl_cons,
    List.foldl_cons, List.reverse_nil, List.nil_append, List.nil_append,
    readLine_comment (by simp) hfirst, readLine_comment (by simp) hsecond]

theorem forall₂_and_mem {α β : Type*} {R : α → β → Prop} {p : β → Prop} {l : List α} {m : List β}
    (h : List.Forall₂ R l m) (hp : ∀ b ∈ m, p b) : List.Forall₂ (fun a b => R a b ∧ p b) l m := by
  induction h with
  | nil => exact .nil
  | cons hr _ ih =>
    obtain ⟨hb, hp⟩ := List.forall_mem_cons.1 hp
    exact .cons ⟨hr, hb⟩ (ih hp)

/-- The destination of an item is the path of its URL exactly when the collection keeps
    its name. -/
theorem Base.destination_iff (b : Base) {path : String}
    (hsafe : ∀ s ∈ segments path, s ∉ [[], ['.'], ['.', '.']] ∧ s.any isControl = false)
    (hkept : (PurePath.ofText (unquote b.name)).isUnsafe = false) :
    ofCodes b.path ++ "/" ++ path = asPosix (decodedPath b.first (b.rest path)).parts ↔
      unquote b.name = b.name ∧ '\x00' ∉ b.name.toList := by
  have htail := b.mem_tail hsafe
  have hslash : ∀ c ∈ (b.tail path).map String.ofList, '/' ∉ c.toList := by
    intro c hc
    obtain ⟨t, ht, rfl⟩ := List.mem_map.1 hc
    rw [String.toList_ofList]
    exact (htail t ht).2.2.1
  have hcomponents : ∀ c ∈ components (unquote b.name), '/' ∉ c.toList := fun c hc =>
    (Lib.Posix.mem_components hc).2.2
  have hne : (b.tail path).map String.ofList ≠ [] := by
    have := List.splitOn_ne_nil '/' path.toList
    simp [tail, segments, this]
  rw [← b.keeps_name, b.destination_eq, b.parts_decoded hsafe, ← List.singleton_append]
  constructor
  · intro h
    have heq := asPosix_injective (by simp) (by simp [hne]) (fun c hc => ?_) (fun c hc => ?_) h
    · exact ⟨hkept, (List.append_cancel_right heq).symm⟩
    · rcases List.mem_append.1 hc with hc | hc
      · exact List.mem_singleton.1 hc ▸ b.plain_name.2.1
      · exact hslash c hc
    · rcases List.mem_append.1 hc with hc | hc
      · exact hcomponents c hc
      · exact hslash c hc
  · rintro ⟨-, h⟩
    rw [h]

section
variable (uni : Unicode) (policy : Policy) {base collection : String} {raw : List UInt8}

/-- **A queue is read back** as it was exported, unless the name of the collection has an
    escape or a NUL, or the generation ends in a newline. -/
theorem readBack_iff {baseUrl : String} (hbase : parseBaseUrl baseUrl = .ok (base, collection))
    {manifestFile : List UInt8} {choice : Choice} {generation : Option String} {text : List Char}
    (hqueue : commandQueue manifestFile (writeManifest uni policy base collection raw).items choice
      generation = .ok text) :
    ReadBack generation (exported choice (writeManifest uni policy base collection raw).items)
        (readQueues [textLines text []]) ↔
      exported choice (writeManifest uni policy base collection raw).items = [] ∨
        unquote (collectionName collection) = collectionName collection ∧
        '\x00' ∉ (collectionName collection).toList ∧ ∀ g ∈ generation, chomp g = g := by
  obtain ⟨b, rfl, rfl⟩ := exists_base hbase
  rw [collectionName_path]
  set items := exported choice (writeManifest uni policy (ofCodes b.codes) (ofCodes b.path) raw).items
    with hitems
  obtain ⟨hgeneration, hchecked, hnodup, rfl⟩ := commandQueue_eq_ok.1 hqueue
  -- the items are those of entries whose paths are safe
  have hitem : ∀ i ∈ items, ∃ e nfcLine, i = policyItem uni policy (ofCodes b.codes) (ofCodes b.path)
      e nfcLine ∧ unsafePathReason e.path e.name = none ∧
      ofCodes (b.rest e.path) ∉ ["", "ALL_FILES", "data/ALL_FILES"] := by
    intro i hi
    obtain ⟨url, hurl, hok⟩ := hchecked i hi
    obtain ⟨e, nfcLine, rfl, -, hsafe, -⟩ :=
      mem_items uni policy (List.mem_of_mem_filter hi) (by simp [hurl])
    obtain rfl := Option.some.inj hurl
    exact ⟨e, nfcLine, rfl, hsafe, (b.checkQueueUrl_sourceUrl e.path).1 hok⟩
  have hlined : ∀ i ∈ items, ∃ url, Lined generation i url := by
    intro i hi
    obtain ⟨e, nfcLine, rfl, -, -⟩ := hitem i hi
    refine ⟨_, rfl, ?_, fun c hc => ?_, e.sized, hgeneration⟩
    · exact b.head_sourceUrl e.path
    · simpa using List.any_eq_false.1 (b.word_sourceUrl e.path) c hc
  obtain ⟨es, rs, hes, hrs, hiff, hall⟩ :=
    read_items (r := {}) hlined hnodup fun _ _ => List.not_mem_nil
  have hread : readQueues [textLines (queueText manifestFile choice generation
      (writeManifest uni policy (ofCodes b.codes) (ofCodes b.path) raw).items) []] =
      items.foldl (fun r i => readLine r (String.ofList (itemText generation i))) {} := by
    rw [readQueues, List.flatten_singleton, foldl_queueText, foldl_itemLines hlined]
  rw [hread]
  have hrelative : ∀ i ∈ items, ∀ url, i.sourceUrl = some url →
      ((∃ path, relativePath url = .ok path) ↔
        (PurePath.ofText (unquote b.name)).isUnsafe = false) := by
    intro i hi url hurl
    obtain ⟨e, nfcLine, rfl, hsafe, hok⟩ := hitem i hi
    obtain rfl := Option.some.inj hurl
    rw [b.relativePath_sourceUrl (segments_of_safe hsafe) hok]
    cases (PurePath.ofText (unquote b.name)).isUnsafe <;> simp
  constructor
  · rintro ⟨hrejected, hentries⟩
    rw [hrs, List.nil_append] at hrejected
    rw [hes, List.nil_append] at hentries
    have hentered := hall hrejected
    rcases hcases : items with _ | ⟨i, rest⟩
    · exact .inl rfl
    · right
      rw [hcases] at hentries hentered
      obtain ⟨entry, es, ⟨hurl, hsize, hgen, hdest⟩, -, rfl⟩ := List.forall₂_cons_right_iff.1 hentries
      obtain ⟨-, -, hchomp, path, hpath, hrel⟩ := (List.forall₂_cons.1 hentered).1
      have hi : i ∈ items := hcases ▸ List.mem_cons_self
      have hkept := (hrelative i hi _ hurl).1 ⟨path, hpath⟩
      obtain ⟨e, nfcLine, rfl, hsafe, hok⟩ := hitem i hi
      rw [← Option.some.inj hurl, b.relativePath_sourceUrl (segments_of_safe hsafe) hok, hkept]
        at hpath
      obtain rfl := Except.ok.inj hpath
      rw [hrel] at hdest
      obtain ⟨hsame, hnul⟩ :=
        (b.destination_iff (segments_of_safe hsafe) hkept).1 (Option.some.inj hdest)
      refine ⟨hsame, hnul, fun g hg => ?_⟩
      obtain rfl := Option.mem_def.1 hg
      rw [hchomp] at hgen
      exact Option.some.inj hgen
  · intro hcond
    have hgood : ∀ i ∈ items, unquote b.name = b.name ∧ '\x00' ∉ b.name.toList ∧
        ∀ g ∈ generation, chomp g = g := by
      rcases hcond with hnil | hgood
      · rw [hnil]
        simp
      · exact fun _ _ => hgood
    have hempty : rs = [] := hiff.2 fun i hi url hurl => by
      obtain ⟨hsame, hnul, -⟩ := hgood i hi
      exact (hrelative i hi url hurl).2 (b.keeps_name.2 ⟨hsame, hnul⟩).1
    refine ⟨by rw [hrs, hempty]; rfl, ?_⟩
    rw [hes, List.nil_append]
    refine (forall₂_and_mem (hall hempty) fun i hi => hi).imp ?_
    rintro entry i ⟨⟨hurl, hsize, hchomp, path, hpath, hrel⟩, hi⟩
    obtain ⟨hsame, hnul, hgen⟩ := hgood i hi
    have hkept := (b.keeps_name.2 ⟨hsame, hnul⟩).1
    refine ⟨hurl, hsize, ?_, ?_⟩
    · rw [hchomp]
      cases generation with
      | none => rfl
      | some g => exact congrArg some (hgen g rfl)
    · obtain ⟨e, nfcLine, rfl, hsafe, hok⟩ := hitem i hi
      rw [← Option.some.inj hurl, b.relativePath_sourceUrl (segments_of_safe hsafe) hok, hkept]
        at hpath
      obtain rfl := Except.ok.inj hpath
      rw [hrel]
      exact congrArg some
        ((b.destination_iff (segments_of_safe hsafe) hkept).2 ⟨hsame, hnul⟩)

end

/-- What is enough for a queue to be written. -/
theorem queued_of_checked {manifestFile : List UInt8} {items : List Item} {choice : Choice}
    {generation : Option String} (hgeneration : generation.all isGeneration = true)
    (hchecked : (exported choice items).all (fun i =>
      i.sourceUrl.any fun url => decide (checkQueueUrl url = .ok ())) = true)
    (hnodup : ((exported choice items).filterMap (·.sourceUrl)).Nodup) :
    commandQueue manifestFile items choice generation =
      .ok (queueText manifestFile choice generation items) := by
  refine commandQueue_eq_ok.2 ⟨hgeneration, fun i hi => ?_, hnodup, rfl⟩
  obtain ⟨url, hurl, hok⟩ := (Option.any_eq_true _ _).1 (List.all_eq_true.1 hchecked i hi)
  exact ⟨url, hurl, of_decide_eq_true hok⟩

/-- Three files, in two directories, with names that a URL has to escape. -/
def notesListing : List UInt8 := Provenance.utf8
  ".:\n\n- 12 read me 100%\n- 1.5K part#1?\n\n./old notes:\n\n- 4M a+b;c\n".toList

/-- The manifest of these files below `/C/data`. -/
def notesItems : List Item :=
  (writeManifest asciiTables deferAll "http://h/C/data" "C/data" notesListing).items

/-- Below `/C/data` the files are read back, with their sizes and the generation. -/
theorem readBack_below_data : (exported .deferred notesItems).length = 3 ∧
    ReadBack (some "2026-07") (exported .deferred notesItems)
      (readQueues [textLines (queueText [] .deferred (some "2026-07") notesItems) []]) := by
  have hbase : parseBaseUrl "http://h/C/data" = .ok ("http://h/C/data", "C/data") := by
    decide
  have hqueue : commandQueue [] notesItems .deferred (some "2026-07") =
      .ok (queueText [] .deferred (some "2026-07") notesItems) :=
    queued_of_checked (by decide) (by decide +kernel) (by decide +kernel)
  exact ⟨by decide +kernel,
    (readBack_iff asciiTables deferAll hbase hqueue).2 (.inr (by decide))⟩

/-- A file in the root directory. -/
def rootListing : List UInt8 := Provenance.utf8 ".:\n\n- 1 f\n".toList

/-- The manifest of that file below a base URL. -/
def rootItems (base collection : String) : List Item :=
  (writeManifest asciiTables deferAll base collection rootListing).items

/-- Below `/a%20b` the downloader stores the file in another directory. -/
theorem escaped_collection : ¬ ∀ (uni : Unicode) (policy : Policy)
    (baseUrl base collection : String) (raw manifestFile : List UInt8) (choice : Choice)
    (generation : Option String) (text : List Char),
    parseBaseUrl baseUrl = .ok (base, collection) →
    commandQueue manifestFile (writeManifest uni policy base collection raw).items choice
      generation = .ok text →
    ReadBack generation (exported choice (writeManifest uni policy base collection raw).items)
      (readQueues [textLines text []]) := by
  intro h
  have hbase : parseBaseUrl "http://h/a%20b" = .ok ("http://h/a%20b", "a%20b") := by
    decide
  have hqueue : commandQueue [] (rootItems "http://h/a%20b" "a%20b") .deferred none =
      .ok (queueText [] .deferred none (rootItems "http://h/a%20b" "a%20b")) :=
    queued_of_checked rfl (by decide) (by decide)
  have hdestination : (exported .deferred (rootItems "http://h/a%20b" "a%20b")).map
      Item.destination = [some "a%20b/f"] := by decide
  have hread : ((textLines ((exported .deferred (rootItems "http://h/a%20b" "a%20b")).flatMap
      (itemLine none)) []).foldl readLine {}).entries.map (asPosix ·.rel) = ["a b/f"] := by
    decide
  have hentries := (h _ _ _ _ _ _ _ _ _ _ hbase hqueue).entries
  rw [readQueues, List.flatten_singleton, foldl_queueText] at hentries
  obtain ⟨i, hi, hpath⟩ := List.map_eq_singleton_iff.1 hdestination
  obtain ⟨entry, hentry, hrel⟩ := List.map_eq_singleton_iff.1 hread
  rw [show (writeManifest asciiTables deferAll "http://h/a%20b" "a%20b" rootListing).items =
    rootItems "http://h/a%20b" "a%20b" from rfl, hi] at hentries
  rw [hi] at hentry
  rw [hentry, List.forall₂_cons, hpath, hrel] at hentries
  exact absurd hentries.1.2.2.2 (by decide)

end TodDl.Inventory
