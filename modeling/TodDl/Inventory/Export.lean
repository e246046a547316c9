/-
  The inventory — queue files exported from a manifest (inventory.py).

  An accepted base URL is a `Base`: a scheme, a host and one or two segments of plain
  characters.  The URLs of a manifest extend it by encoded segments, which is what
  `check_queue_url` and the downloader read back.
-/
import TodDl.Inventory.Encode
import TodDl.Controller.Confined

namespace TodDl.Inventory

open Store (isPySpace)
open Controller (urlsplit hasUserInfo ofCodes)

/-! ## `command_queue` -/

/-- `check_queue_url(url)` -/
def checkQueueUrl (url : String) : Except InventoryError Unit :=
  let codes := url.toList.map Char.toNat
  match urlsplit codes with
  | .error _ => .error (.queueUrl (some url))
  | .ok parsed =>
    let named := match (parsed.path.dropWhile (· = 47)).dropWhile (· ≠ 47) with
      | [] => false
      | _ :: rest => ofCodes rest ∉ ["", "ALL_FILES", "data/ALL_FILES"]
    if isHttp (urlScheme codes) && !(hostPort parsed.netloc).1.isEmpty
      && !hasUserInfo parsed.netloc && parsed.query.isEmpty && (urlFragment codes).isEmpty
      && codes.all (· < 128) && !url.toList.any isPySpace && named
    then .ok () else .error (.queueUrl (some url))

/-- A text without the newline at its end. -/
def chomp (text : String) : String :=
  if text.toList.getLast? = some '\n' then String.ofList text.toList.dropLast else text

/-- A character of `GENERATION_RE` -/
def isGenerationChar (c : Char) : Bool :=
  Provenance.isAsciiAlpha c.toNat || Provenance.isAsciiDigit c || c ∈ ['.', '_', ':', '-']

/-- `GENERATION_RE.match(generation)`: its `$` lets a newline at the end through. -/
def isGeneration (generation : String) : Bool :=
  let word := (chomp generation).toList
  !word.isEmpty && word.length ≤ 128 && word.all isGenerationChar

/-- The choices of `--disposition` -/
inductive Choice where
  | priority | deferred
  deriving DecidableEq

def Choice.disposition : Choice → Disposition
  | priority => .priority
  | deferred => .deferred

def Choice.text : Choice → String
  | priority => "priority"
  | deferred => "deferred"

/-- The line of an item. -/
def queueLine (generation : Option String) (url sizeToken : String) : List Char :=
  url.toList ++ " size=".toList ++ sizeToken.toList
    ++ (generation.elim [] fun g => " generation=".toList ++ g.toList) ++ ['\n']

/-- The comments at the start. -/
def queueHead (manifestSha : String) (choice : Choice) : List Char :=
  "# manifest_sha256=".toList ++ manifestSha.toList ++ "\n# disposition=".toList
    ++ choice.text.toList ++ ['\n']

/-- One line of the manifest: the URLs seen, and the text so far. -/
def exportItem (choice : Choice) (generation : Option String) (out : List String × List Char)
    (i : Item) : Except InventoryError (List String × List Char) :=
  if i.disposition ≠ choice.disposition then .ok out
  else match i.sourceUrl with
    | none => .error (.queueUrl none)
    | some url => do
      checkQueueUrl url
      if url ∈ out.1 then .error (.urlTwice url)
      else .ok (url :: out.1, out.2 ++ queueLine generation url i.sizeToken)

/-- `command_queue(args)`: the text of the queue, for the bytes of `manifest.jsonl` and
    the items on its lines. -/
def commandQueue (manifestFile : List UInt8) (items : List Item) (choice : Choice)
    (generation : Option String) : Except InventoryError (List Char) :=
  if generation.all isGeneration then do
    let out ← items.foldlM (exportItem choice generation)
      ([], queueHead (Lib.Sha256.hexdigest manifestFile) choice)
    .ok out.2
  else .error .badGeneration

/-! ## Base URLs -/

/-- A character that a URL keeps as it is. -/
def Plain (c : ℕ) : Prop := c < 128 ∧ c ≠ 63 ∧ c ≠ 35 ∧ isPySpace (Char.ofNat c) = false

/-- The parts of a base URL that is accepted. -/
structure Base where
  scheme : List ℕ
  netloc : List ℕ
  first : List ℕ
  data : Bool
  http : isHttp scheme = true
  host : (hostPort netloc).1 ≠ []
  user : hasUserInfo netloc = false
  brackets : netloc.contains 91 = netloc.contains 93
  plain_netloc : ∀ c ∈ netloc, Plain c ∧ c ≠ 47
  plain_first : ∀ c ∈ first, Plain c ∧ c ≠ 47
  named : first ∉ [[], [46], [46, 46]]

namespace Base

/-- The path without the slash in front. -/
def path (b : Base) : List ℕ := b.first ++ if b.data then 47 :: dataSegment else []

/-- The text of the base URL, `scheme://netloc/path`. -/
def codes (b : Base) : List ℕ := b.scheme ++ 58 :: 47 :: 47 :: (b.netloc ++ 47 :: b.path)

/-- A URL below the base. -/
def below (b : Base) (tail : List ℕ) : List ℕ :=
  b.scheme ++ 58 :: 47 :: 47 :: (b.netloc ++ 47 :: (b.path ++ 47 :: tail))

variable (b : Base)

theorem scheme_cases : b.scheme = [104, 116, 116, 112] ∨ b.scheme = [104, 116, 116, 112, 115] := by
  simpa [isHttp] using b.http

theorem plain_path : ∀ c ∈ b.path, Plain c := by
  intro c hc
  rcases List.mem_append.1 hc with hc | hc
  · exact (b.plain_first c hc).1
  · have hdata : ∀ c ∈ 47 :: dataSegment, Plain c := by
      unfold Plain
      decide
    split at hc
    · exact hdata c hc
    · cases hc

section
variable {tail : List ℕ} (htail : ∀ c ∈ tail, Plain c)
include htail

theorem plain_rest : ∀ c ∈ 47 :: (b.path ++ 47 :: tail), Plain c := by
  have hslash : Plain 47 := by unfold Plain; decide
  intro c hc
  rcases List.mem_cons.1 hc with rfl | hc
  · exact hslash
  · rcases List.mem_append.1 hc with hc | hc
    · exact b.plain_path c hc
    · rcases List.mem_cons.1 hc with rfl | hc
      · exact hslash
      · exact htail c hc

/-- The characters of a URL below the base. -/
theorem word_below : ∀ c ∈ b.below tail, c < 128 ∧ isPySpace (Char.ofNat c) = false := by
  have hscheme : ∀ c ∈ b.scheme, c < 128 ∧ isPySpace (Char.ofNat c) = false := by
    rcases b.scheme_cases with h | h <;> rw [h] <;> decide
  have hslashes : ∀ c ∈ [58, 47, 47], c < 128 ∧ isPySpace (Char.ofNat c) = false := by decide
  intro c hc
  rcases List.mem_append.1 hc with hc | hc
  · exact hscheme c hc
  · rcases List.mem_append.1 (show c ∈ [58, 47, 47] ++ _ from hc) with hc | hc
    · exact hslashes c hc
    · rcases List.mem_append.1 hc with hc | hc
      · exact ⟨(b.plain_netloc c hc).1.1, (b.plain_netloc c hc).1.2.2.2⟩
      · exact ⟨(b.plain_rest htail c hc).1, (b.plain_rest htail c hc).2.2.2⟩

theorem strippedUrl_below : strippedUrl (b.below tail) = b.below tail := by
  have hhead : (b.below tail).dropWhile (· ≤ 32) = b.below tail := by
    unfold below
    rcases b.scheme_cases with h | h <;> rw [h] <;> rfl
  rw [strippedUrl, hhead, List.filter_eq_self]
  intro c hc
  have hspace := (b.word_below htail c hc).2
  simp only [Bool.and_eq_true, decide_eq_true_eq]
  refine ⟨⟨?_, ?_⟩, ?_⟩ <;> rintro rfl <;> exact absurd hspace (by decide)

omit htail in
theorem afterScheme_below : Provenance.afterScheme (b.below tail) =
    47 :: 47 :: (b.netloc ++ 47 :: (b.path ++ 47 :: tail)) := by
  unfold below Provenance.afterScheme
  rcases b.scheme_cases with h | h <;> rw [h] <;> rfl

theorem urlScheme_below : urlScheme (b.below tail) = b.scheme := by
  rw [urlScheme, b.strippedUrl_below htail, below]
  rcases b.scheme_cases with h | h <;> rw [h] <;> rfl

theorem urlFragment_below : urlFragment (b.below tail) = [] := by
  rw [urlFragment, b.strippedUrl_below htail, b.afterScheme_below, List.dropWhile_eq_nil_iff.2]
  · rfl
  · intro c hc
    have hplain : c = 47 ∨ Plain c := by
      simp only [List.mem_cons, List.mem_append] at hc
      rcases hc with rfl | rfl | hc | rfl | hc | rfl | hc <;> first | exact .inl rfl | right
      · exact (b.plain_netloc c hc).1
      · exact b.plain_path c hc
      · exact htail c hc
    rcases hplain with rfl | h
    · decide
    · simpa using h.2.2.1

theorem netloc_below : Provenance.netloc (b.below tail) = .ok b.netloc := by
  have hstrip := b.strippedUrl_below htail
  rw [strippedUrl] at hstrip
  have hhost : (b.netloc ++ 47 :: (b.path ++ 47 :: tail)).takeWhile
      (fun c => c ≠ 47 && c ≠ 63 && c ≠ 35) = b.netloc := by
    rw [List.takeWhile_append_of_pos]
    · simp
    · intro c hc
      obtain ⟨hplain, hne⟩ := b.plain_netloc c hc
      simp [hne, hplain.2.1, hplain.2.2.1]
  simp only [Provenance.netloc, hstrip, b.afterScheme_below, hhost]
  exact if_pos b.brackets

/-- **What `urlsplit` finds in a URL below the base.** -/
theorem urlsplit_below : urlsplit (b.below tail) =
    .ok ⟨b.netloc, 47 :: (b.path ++ 47 :: tail), []⟩ := by
  have hstrip := b.strippedUrl_below htail
  rw [strippedUrl] at hstrip
  have hplain := b.plain_rest htail
  have hpath : (47 :: (b.path ++ 47 :: tail)).takeWhile (· ≠ 35) = 47 :: (b.path ++ 47 :: tail) :=
    List.takeWhile_eq_self_iff.2 fun c hc => by simpa using (hplain c hc).2.2.1
  have hquery : (47 :: (b.path ++ 47 :: tail)).takeWhile (· ≠ 63) = 47 :: (b.path ++ 47 :: tail) :=
    List.takeWhile_eq_self_iff.2 fun c hc => by simpa using (hplain c hc).2.1
  have hrest : (47 :: (b.path ++ 47 :: tail)).dropWhile (· ≠ 63) = [] :=
    List.dropWhile_eq_nil_iff.2 fun c hc => by simpa using (hplain c hc).2.1
  simp only [urlsplit, b.netloc_below htail, hstrip, b.afterScheme_below, bind, Except.bind,
    pure, Except.pure, List.drop_left, hpath, hquery, hrest, List.drop_nil]

end

end Base

theorem codes_ofCodes {codes : List ℕ} (h : ∀ c ∈ codes, c < 128) :
    (ofCodes codes).toList.map Char.toNat = codes := by
  have hascii : ∀ n < 128, (Char.ofNat n).toNat = n := by decide
  rw [ofCodes, String.toList_ofList, List.map_map]
  refine (List.map_congr_left fun c hc => ?_).trans (List.map_id codes)
  exact hascii c (h c hc)

/-- The netloc of a URL that has one. -/
theorem netloc_eq_ok {url host : List ℕ} (h : Provenance.netloc url = .ok host) (hne : host ≠ []) :
    (∀ c ∈ host, c ∈ url ∧ c ≠ 47 ∧ c ≠ 63 ∧ c ≠ 35) ∧ host.contains 91 = host.contains 93 := by
  unfold Provenance.netloc at h
  dsimp only at h
  split at h
  · next rest hrest =>
    split at h
    · next hbrackets =>
      obtain rfl := Except.ok.inj h
      refine ⟨fun c hc => ?_, hbrackets⟩
      have hmem : c ∈ Provenance.afterScheme
          ((url.dropWhile (· ≤ 32)).filter fun c => c ≠ 9 && c ≠ 10 && c ≠ 13) := by
        rw [hrest]
        exact List.mem_cons_of_mem _ (List.mem_cons_of_mem _ ((List.takeWhile_sublist _).mem hc))
      refine ⟨(List.dropWhile_sublist _).mem (List.mem_of_mem_filter
        ((Controller.afterScheme_suffix _).sublist.mem hmem)), ?_⟩
      simpa [and_assoc] using List.mem_takeWhile_imp hc
    · cases h
  · exact absurd (Except.ok.inj h).symm hne

theorem mem_path {url : List ℕ} {parsed : Controller.SplitUrl} (h : urlsplit url = .ok parsed) :
    Provenance.netloc url = .ok parsed.netloc ∧
      ∀ c ∈ parsed.path, c ∈ url ∧ c ≠ 63 ∧ c ≠ 35 := by
  cases hn : Provenance.netloc url with
  | error f => simp [urlsplit, hn, bind, Except.bind] at h
  | ok netloc =>
    have hmem := fun c => Controller.mem_of_mem_path (c := c) h
    simp only [urlsplit, hn, bind, Except.bind, pure, Except.pure, Except.ok.injEq] at h
    subst h
    refine ⟨rfl, fun c hc => ⟨hmem c hc, ?_, ?_⟩⟩
    · simpa using List.mem_takeWhile_imp hc
    · simpa using List.mem_takeWhile_imp ((List.takeWhile_sublist _).mem hc)

theorem mem_stripSlashes {path : List ℕ} {c : ℕ} (h : c ∈ stripSlashes path) : c ∈ path := by
  rw [stripSlashes, List.mem_reverse] at h
  have h := (List.dropWhile_sublist _).mem h
  rw [List.mem_reverse] at h
  exact (List.dropWhile_sublist _).mem h

/-- **An accepted base URL is a `Base`.** -/
theorem exists_base {baseUrl base collection : String}
    (h : parseBaseUrl baseUrl = .ok (base, collection)) :
    ∃ b : Base, base = ofCodes b.codes ∧ collection = ofCodes b.path := by
  unfold parseBaseUrl at h
  dsimp only at h
  split at h
  · cases h
  · next parsed hparsed =>
    cases hport : portOk (hostPort parsed.netloc).2 with
    | error e => rw [hport] at h; cases h
    | ok port =>
      simp only [hport, bind, Except.bind] at h
      split at h
      · next haccepts =>
        obtain ⟨rfl, rfl⟩ := Prod.mk.inj (Except.ok.inj h)
        simp only [acceptsBase, Bool.and_eq_true, Bool.or_eq_true, Bool.not_eq_true',
          decide_eq_true_eq, List.isEmpty_iff, List.all_eq_true, List.any_eq_false] at haccepts
        obtain ⟨⟨⟨⟨⟨⟨⟨⟨⟨hhttp, hhost⟩, hport⟩, huser⟩, hquery⟩, hfragment⟩, hparts⟩, hnamed⟩,
          hascii⟩, hspace⟩ := haccepts
        obtain ⟨hnetloc, hpath⟩ := mem_path hparsed
        have hplain : ∀ c ∈ baseUrl.toList.map Char.toNat, c ≠ 63 → c ≠ 35 → Plain c := by
          intro c hc hq hf
          refine ⟨hascii c hc, hq, hf, ?_⟩
          obtain ⟨d, hd, rfl⟩ := List.mem_map.1 hc
          simpa using hspace d hd
        have hne : parsed.netloc ≠ [] := by
          intro hnil
          rw [hnil] at hhost
          revert hhost
          decide
        obtain ⟨hmem, hbrackets⟩ := netloc_eq_ok hnetloc hne
        obtain ⟨first, rest, hfirst⟩ := List.exists_cons_of_ne_nil
          (List.splitOn_ne_nil 47 (stripSlashes parsed.path))
        have hjoin : [47].intercalate ((stripSlashes parsed.path).splitOn 47) = _ :=
          List.intercalate_splitOn 47
        rw [hfirst] at hparts hnamed hjoin
        have hslash : 47 ∉ first :=
          Lib.Posix.notMem_of_mem_splitOn (hfirst ▸ List.mem_cons_self)
        have hmem_first : ∀ c ∈ first, c ∈ stripSlashes parsed.path := by
          intro c hc
          rw [← hjoin]
          cases rest <;> simp [List.intercalate, hc]
        have hplain_first : ∀ c ∈ first, Plain c ∧ c ≠ 47 := by
          intro c hc
          obtain ⟨hurl, hq, hf⟩ := hpath c (mem_stripSlashes (hmem_first c hc))
          exact ⟨hplain c hurl hq hf, fun h => hslash (h ▸ hc)⟩
        have hdata : stripSlashes parsed.path =
            first ++ if (rest ≠ [] : Bool) then 47 :: dataSegment else [] := by
          rcases hparts with hone | ⟨htwo, hlast⟩
          · obtain rfl : rest = [] := by simpa using hone
            simpa using hjoin.symm
          · obtain ⟨x, rfl⟩ : ∃ x, rest = [x] := by
              rw [List.length_cons] at htwo
              exact List.length_eq_one_iff.1 (by omega)
            obtain rfl : x = dataSegment := by simpa using hlast
            simpa [List.intercalate] using hjoin.symm
        refine ⟨⟨urlScheme (baseUrl.toList.map Char.toNat), parsed.netloc, first, rest ≠ [], hhttp,
          by simpa using hhost, huser, hbrackets, fun c hc => ?_, hplain_first,
          by simpa using hnamed⟩, ?_, ?_⟩
        · obtain ⟨hurl, hs, hq, hf⟩ := hmem c hc
          exact ⟨hplain c hurl hq hf, hs⟩
        · rw [hdata]
          simp [Base.codes, Base.path]
        · rw [hdata]
          rfl
      · cases h

/-! ## The URLs of a manifest -/

/-- The path of an item below the base. -/
def encodePath (path : String) : List Char := ['/'].intercalate ((segments path).map encodeSegment)

theorem mem_encodeSegment {s : List Char} {c : Char} (h : c ∈ encodeSegment s) :
    Plain c.toNat ∧ c ≠ '/' := by
  have hsafe : ∀ c ∈ segmentSafe, Plain c.toNat ∧ c ≠ '/' := by
    have hall : segmentSafe.all (fun c => c.toNat < 128 ∧ c.toNat ≠ 63 ∧ c.toNat ≠ 35 ∧
        isPySpace (Char.ofNat c.toNat) = false ∧ c ≠ '/') = true := by decide
    intro c hc
    obtain ⟨hlt, hquery, hfragment, hspace, hslash⟩ := of_decide_eq_true (List.all_eq_true.1 hall c hc)
    exact ⟨⟨hlt, hquery, hfragment, hspace⟩, hslash⟩
  have hhex : ∀ n, hexUpper n ∈ segmentSafe := by
    intro n
    have hall : ∀ c ∈ "0123456789ABCDEF".toList, c ∈ segmentSafe := by
      have hdigits : "0123456789ABCDEF".toList.all (· ∈ segmentSafe) = true := by decide
      simpa using hdigits
    rw [hexUpper, List.getD_eq_getElem?_getD]
    cases hn : "0123456789ABCDEF".toList[n]? with
    | none => decide
    | some c => exact hall c (List.mem_of_getElem? hn)
  obtain ⟨d, -, hc⟩ := List.mem_flatMap.1 h
  split at hc
  · next hd => exact List.mem_singleton.1 hc ▸ hsafe d hd
  · obtain ⟨b, -, hc⟩ := List.mem_flatMap.1 hc
    simp only [escapeByte, List.mem_cons, List.not_mem_nil, or_false] at hc
    rcases hc with rfl | rfl | rfl
    · unfold Plain
      decide
    · exact hsafe _ (hhex _)
    · exact hsafe _ (hhex _)

theorem mem_intercalate {sep c : Char} {ls : List (List Char)} (h : c ∈ [sep].intercalate ls) :
    c = sep ∨ ∃ l ∈ ls, c ∈ l := by
  induction ls with
  | nil => simp [List.intercalate] at h
  | cons a ls ih =>
    cases ls with
    | nil => exact .inr ⟨a, List.mem_cons_self, by simpa [List.intercalate] using h⟩
    | cons b ls =>
      have hcons : [sep].intercalate (a :: b :: ls) = a ++ sep :: [sep].intercalate (b :: ls) := by
        simp [List.intercalate]
      rw [hcons] at h
      rcases List.mem_append.1 h with h | h
      · exact .inr ⟨a, List.mem_cons_self, h⟩
      · rcases List.mem_cons.1 h with h | h
        · exact .inl h
        · exact (ih h).imp_right fun ⟨l, hl, hc⟩ => ⟨l, List.mem_cons_of_mem _ hl, hc⟩

theorem plain_encodePath (path : String) : ∀ c ∈ (encodePath path).map Char.toNat, Plain c := by
  intro n hn
  obtain ⟨c, hc, rfl⟩ := List.mem_map.1 hn
  rcases mem_intercalate hc with rfl | ⟨l, hl, hc⟩
  · unfold Plain
    decide
  · obtain ⟨s, -, rfl⟩ := List.mem_map.1 hl
    exact (mem_encodeSegment hc).1

theorem encodeSegment_injective : Function.Injective encodeSegment := fun s t h =>
  String.ofList_injective (by rw [← unquote_encodeSegment s, h, unquote_encodeSegment])

theorem splitOn_encodePath (path : String) :
    (encodePath path).splitOn '/' = (segments path).map encodeSegment := by
  refine List.splitOn_intercalate _ (fun l hl hmem => ?_)
    (by rw [ne_eq, List.map_eq_nil_iff]; exact List.splitOn_ne_nil '/' path.toList)
  obtain ⟨s, -, rfl⟩ := List.mem_map.1 hl
  exact (mem_encodeSegment hmem).2 rfl

/-- Different paths have different encodings. -/
theorem encodePath_injective : Function.Injective encodePath := by
  intro p q h
  have hs : (segments p).map encodeSegment = (segments q).map encodeSegment := by
    rw [← splitOn_encodePath, h, splitOn_encodePath]
  have hjoin : ∀ p : String, ['/'].intercalate (segments p) = p.toList := fun p =>
    List.intercalate_splitOn '/'
  exact String.toList_inj.1 (by
    rw [← hjoin p, encodeSegment_injective.list_map hs, hjoin])

namespace Base
variable (b : Base)

theorem ascii_codes : ∀ c ∈ b.codes, c < 128 := by
  intro c hc
  have hmem : c ∈ b.below [] := by
    simp only [codes, below, List.mem_append, List.mem_cons, List.not_mem_nil, or_false] at hc ⊢
    tauto
  exact (b.word_below (by simp) c hmem).1

/-- The URL of a path, as codes. -/
theorem codes_sourceUrl (path : String) : (sourceUrl (ofCodes b.codes) path).toList.map Char.toNat =
    b.below ((encodePath path).map Char.toNat) := by
  have hslash : ("/" : String).toList.map Char.toNat = [47] := by decide
  rw [sourceUrl, String.toList_append, String.toList_append, List.map_append, List.map_append,
    codes_ofCodes b.ascii_codes, hslash, String.toList_ofList]
  simp [codes, below, encodePath]

theorem word_sourceUrl (path : String) :
    (sourceUrl (ofCodes b.codes) path).toList.any isPySpace = false := by
  refine List.any_eq_false.2 fun c hc => ?_
  have hmem := List.mem_map_of_mem (f := Char.toNat) hc
  rw [b.codes_sourceUrl] at hmem
  simpa [Char.ofNat_toNat] using (b.word_below (plain_encodePath path) _ hmem).2

theorem head_sourceUrl (path : String) :
    (sourceUrl (ofCodes b.codes) path).toList.head? = some 'h' := by
  have hcodes := b.codes_sourceUrl path
  cases hurl : (sourceUrl (ofCodes b.codes) path).toList with
  | nil =>
    rw [hurl, below] at hcodes
    simp at hcodes
  | cons c cs =>
    rw [hurl, List.map_cons, below] at hcodes
    have hc : c.toNat = 'h'.toNat := by
      rcases b.scheme_cases with h | h <;> rw [h] at hcodes <;> exact (List.cons.inj hcodes).1
    rw [Char.toNat_inj.1 hc, List.head?_cons]

theorem sourceUrl_injective : Function.Injective (sourceUrl (ofCodes b.codes)) := by
  intro p q h
  have hcodes := b.codes_sourceUrl p
  rw [h, b.codes_sourceUrl q] at hcodes
  have htail : (encodePath q).map Char.toNat = (encodePath p).map Char.toNat := by
    simpa [below] using hcodes
  have hinj : Function.Injective Char.toNat := fun _ _ => Char.toNat_inj.1
  exact (encodePath_injective (hinj.list_map htail)).symm

/-- What follows the first segment of the path of a URL. -/
def rest (path : String) : List ℕ :=
  (if b.data then dataSegment ++ [47] else []) ++ (encodePath path).map Char.toNat

theorem first_ne_nil : ∃ c cs, b.first = c :: cs ∧ c ≠ 47 := by
  obtain ⟨c, cs, hc⟩ := List.exists_cons_of_ne_nil fun h : b.first = [] => b.named (by simp [h])
  exact ⟨c, cs, hc, (b.plain_first c (hc ▸ List.mem_cons_self)).2⟩

/-- The path of a URL is the first segment and the rest. -/
theorem path_below (path : String) :
    (47 :: (b.path ++ 47 :: (encodePath path).map Char.toNat)).dropWhile (· = 47) =
      b.first ++ 47 :: b.rest path := by
  obtain ⟨c, cs, hc, hne⟩ := b.first_ne_nil
  have hpath : b.path ++ 47 :: (encodePath path).map Char.toNat = b.first ++ 47 :: b.rest path := by
    unfold Base.path rest
    cases b.data <;> simp
  rw [List.dropWhile_cons_of_pos (by simp), hpath, hc, List.cons_append,
    List.dropWhile_cons_of_neg (by simpa using hne)]

theorem takeWhile_first (rest : List ℕ) :
    (b.first ++ 47 :: rest).takeWhile (· ≠ 47) = b.first := by
  rw [List.takeWhile_append_of_pos fun c hc => by simpa using (b.plain_first c hc).2]
  simp

theorem dropWhile_first (rest : List ℕ) :
    (b.first ++ 47 :: rest).dropWhile (· ≠ 47) = 47 :: rest := by
  rw [List.dropWhile_append_of_pos fun c hc => by simpa using (b.plain_first c hc).2]
  simp

/-- The check refuses a URL for the name it gives only. -/
theorem checkQueueUrl_sourceUrl (path : String) :
    checkQueueUrl (sourceUrl (ofCodes b.codes) path) = .ok () ↔
      ofCodes (b.rest path) ∉ ["", "ALL_FILES", "data/ALL_FILES"] := by
  have hplain := plain_encodePath path
  have hspace := b.word_sourceUrl path
  have hascii : (b.below ((encodePath path).map Char.toNat)).all (· < 128) = true :=
    List.all_eq_true.2 fun c hc => by simpa using (b.word_below hplain c hc).1
  unfold checkQueueUrl
  dsimp only
  rw [b.codes_sourceUrl, b.urlsplit_below hplain]
  dsimp only
  rw [b.path_below, b.dropWhile_first, b.urlScheme_below hplain, b.urlFragment_below hplain, hspace,
    hascii, b.http, b.user]
  simp [b.host]

theorem ofCodes_rest (path : String) : ofCodes (b.rest path) =
    String.ofList ((if b.data then "data/".toList else []) ++ encodePath path) := by
  have hback : ∀ l : List Char, (l.map Char.toNat).map Char.ofNat = l := fun l => by
    rw [List.map_map]
    exact (List.map_congr_left fun c _ => Char.ofNat_toNat c).trans (List.map_id l)
  have hdata : (dataSegment ++ [47]).map Char.ofNat = "data/".toList := by decide
  rw [ofCodes, rest, List.map_append, hback]
  cases b.data with
  | false => simp
  | true => rw [if_pos rfl, if_pos rfl, hdata]

/-- Of the names that are refused, a manifest gives one. -/
theorem refused_iff {path : String} (hne : path ≠ "") (hlisting : path ≠ "ALL_FILES") :
    ofCodes (b.rest path) ∈ ["", "ALL_FILES", "data/ALL_FILES"] ↔
      b.data = false ∧ path = "data/ALL_FILES" := by
  have hnil : encodePath "" = "".toList := by decide
  have hall : encodePath "ALL_FILES" = "ALL_FILES".toList := by decide
  have hdata : encodePath "data/ALL_FILES" = "data/ALL_FILES".toList := by decide
  have hof : ∀ (l : List Char) (s : String), String.ofList l = s ↔ l = s.toList := fun l s =>
    ⟨fun h => by rw [← h, String.toList_ofList], fun h => by rw [h, String.ofList_toList]⟩
  rw [b.ofCodes_rest]
  simp only [List.mem_cons, List.not_mem_nil, or_false, hof]
  cases hb : b.data with
  | false =>
    simp only [Bool.false_eq_true, if_false, List.nil_append, true_and]
    rw [← hnil, ← hall, ← hdata, encodePath_injective.eq_iff, encodePath_injective.eq_iff,
      encodePath_injective.eq_iff]
    tauto
  | true =>
    have hsplit : "data/ALL_FILES".toList = "data/".toList ++ "ALL_FILES".toList := by decide
    have hhead : ∀ l : List Char, "data/".toList ++ l ≠ "ALL_FILES".toList := by simp
    have hnonempty : ∀ l : List Char, "data/".toList ++ l ≠ "".toList := by simp
    rw [if_pos rfl, hsplit]
    simp only [List.append_cancel_left_eq, hhead, hnonempty, false_or]
    rw [← hall, encodePath_injective.eq_iff]
    simp [hlisting]

theorem slash_mem_collection : '/' ∈ (ofCodes b.path).toList ↔ b.data = true := by
  rw [ofCodes, String.toList_ofList, Base.path, List.map_append, List.mem_append]
  constructor
  · rintro (h | h)
    · obtain ⟨c, hc, hslash⟩ := List.mem_map.1 h
      exact absurd ((Controller.ofNat_eq_slash c).1 hslash) (b.plain_first c hc).2
    · by_contra hno
      simp [hno] at h
  · intro h
    rw [if_pos h]
    exact .inr (by decide)

end Base

/-! ## What is exported -/

/-- The items of a disposition. -/
def exported (choice : Choice) (items : List Item) : List Item :=
  items.filter (·.disposition = choice.disposition)

/-- The line of an item that is exported. -/
def itemLine (generation : Option String) (i : Item) : List Char :=
  queueLine generation (i.sourceUrl.getD "") i.sizeToken

section
variable {choice : Choice} {generation : Option String}

theorem exportItems_eq_ok {items : List Item} {seen : List String} {text : List Char}
    {out : List String × List Char} :
    items.foldlM (exportItem choice generation) (seen, text) = .ok out ↔
      (∀ i ∈ exported choice items, ∃ url, i.sourceUrl = some url ∧ checkQueueUrl url = .ok () ∧
        url ∉ seen) ∧
      ((exported choice items).filterMap (·.sourceUrl)).Nodup ∧
      out = (((exported choice items).filterMap (·.sourceUrl)).reverse ++ seen,
        text ++ (exported choice items).flatMap (itemLine generation)) := by
  induction items generalizing seen text with
  | nil =>
    simp only [List.foldlM_nil, pure, Except.pure, exported, List.filter_nil]
    simp [eq_comm]
  | cons i items ih =>
    rw [List.foldlM_cons]
    by_cases hi : i.disposition = choice.disposition
    · have hcons : exported choice (i :: items) = i :: exported choice items := by
        simp [exported, hi]
      rw [hcons, exportItem, if_neg (by simpa using hi)]
      cases hurl : i.sourceUrl with
      | none => simp [bind, Except.bind, hurl]
      | some url =>
        simp only [List.forall_mem_cons, List.filterMap_cons, hurl, List.nodup_cons,
          List.flatMap_cons, Option.some.injEq, exists_eq_left']
        cases hcheck : checkQueueUrl url with
        | error e => simp [bind, Except.bind]
        | ok u =>
          by_cases hseen : url ∈ seen
          · simp [bind, Except.bind, hseen]
          · have hout : ((exported choice items).filterMap (·.sourceUrl)).reverse ++ url :: seen =
                (url :: (exported choice items).filterMap (·.sourceUrl)).reverse ++ seen := by simp
            simp only [bind, Except.bind, if_neg hseen, ih, itemLine, hurl, Option.getD_some, hout,
              List.append_assoc, true_and]
            constructor
            · rintro ⟨hall, hnodup, hrest⟩
              refine ⟨⟨hseen, fun j hj => ?_⟩, ⟨fun hmem => ?_, hnodup⟩, hrest⟩
              · obtain ⟨v, hv, hok, hnot⟩ := hall j hj
                exact ⟨v, hv, hok, fun h => hnot (List.mem_cons_of_mem _ h)⟩
              · obtain ⟨j, hj, hv⟩ := List.mem_filterMap.1 hmem
                obtain ⟨v, hv', -, hnot⟩ := hall j hj
                obtain rfl := Option.some.inj (hv.symm.trans hv')
                exact hnot List.mem_cons_self
            · rintro ⟨⟨-, hall⟩, ⟨hfresh, hnodup⟩, hrest⟩
              refine ⟨fun j hj => ?_, hnodup, hrest⟩
              obtain ⟨v, hv, hok, hnot⟩ := hall j hj
              refine ⟨v, hv, hok, fun h => ?_⟩
              rcases List.mem_cons.1 h with rfl | h
              · exact hfresh (List.mem_filterMap.2 ⟨j, hj, hv⟩)
              · exact hnot h
    · have hcons : exported choice (i :: items) = exported choice items := by
        simp [exported, hi]
      rw [hcons, exportItem, if_pos (by simpa using hi)]
      exact ih

/-- The text of a queue that is written. -/
def queueText (manifestFile : List UInt8) (choice : Choice) (generation : Option String)
    (items : List Item) : List Char :=
  queueHead (Lib.Sha256.hexdigest manifestFile) choice
    ++ (exported choice items).flatMap (itemLine generation)

theorem commandQueue_eq_ok {manifestFile : List UInt8} {items : List Item} {text : List Char} :
    commandQueue manifestFile items choice generation = .ok text ↔
      generation.all isGeneration = true ∧
      (∀ i ∈ exported choice items, ∃ url, i.sourceUrl = some url ∧ checkQueueUrl url = .ok ()) ∧
      ((exported choice items).filterMap (·.sourceUrl)).Nodup ∧
      text = queueText manifestFile choice generation items := by
  unfold commandQueue
  split
  · next hgeneration =>
    simp only [hgeneration, true_and]
    constructor
    · intro h
      cases hout : items.foldlM (exportItem choice generation)
          ([], queueHead (Lib.Sha256.hexdigest manifestFile) choice) with
      | error e => simp [hout, bind, Except.bind] at h
      | ok out =>
        simp only [hout, bind, Except.bind, Except.ok.injEq] at h
        obtain ⟨hall, hnodup, rfl⟩ := exportItems_eq_ok.1 hout
        refine ⟨fun i hi => ?_, hnodup, h.symm⟩
        obtain ⟨url, hurl, hok, -⟩ := hall i hi
        exact ⟨url, hurl, hok⟩
    · rintro ⟨hall, hnodup, rfl⟩
      rw [exportItems_eq_ok.2 ⟨fun i hi => ?_, hnodup, rfl⟩]
      · rfl
      · obtain ⟨url, hurl, hok⟩ := hall i hi
        exact ⟨url, hurl, hok, List.not_mem_nil⟩
  · next hgeneration => simp [hgeneration]

end

/-- Every queue that the manifest allows is exported: the URLs pass the check, none
    comes twice, and a queue has the items of its disposition. -/
structure Exportable (items : List Item) : Prop where
  checked : ∀ i ∈ items, ∀ url, i.sourceUrl = some url → checkQueueUrl url = .ok ()
  nodup : (items.filterMap (·.sourceUrl)).Nodup
  complete : ∀ manifestFile choice generation, generation.all isGeneration →
    commandQueue manifestFile items choice generation =
      .ok (queueText manifestFile choice generation items)

section
variable (uni : Unicode) (policy : Policy) {base collection : String} {raw : List UInt8}

/-- An item with a URL is that of the first entry of its path. -/
theorem mem_items {i : Item} (hi : i ∈ (writeManifest uni policy base collection raw).items)
    (hurl : i.sourceUrl ≠ none) :
    ∃ e nfcLine, i = policyItem uni policy base collection e nfcLine ∧
      (parse raw).entries.find? (·.path = e.path) = some e ∧
      unsafePathReason e.path e.name = none ∧ e.path ≠ "ALL_FILES" :=
  first_of_url ((perm_items uni policy base collection raw).subset hi) hurl

theorem path_ne_empty {path name : String} (h : unsafePathReason path name = none) : path ≠ "" := by
  rintro rfl
  unfold unsafePathReason at h
  split at h
  · cases h
  · revert h
    decide

/-- **A manifest can be exported** unless the base URL has one segment and the listing
    names `data/ALL_FILES`. -/
theorem exportable_iff {baseUrl : String} (hbase : parseBaseUrl baseUrl = .ok (base, collection)) :
    Exportable (writeManifest uni policy base collection raw).items ↔
      ¬('/' ∉ collection.toList ∧ ∃ e,
        (parse raw).entries.find? (·.path = "data/ALL_FILES") = some e ∧
          unsafePathReason e.path e.name = none) := by
  obtain ⟨b, rfl, rfl⟩ := exists_base hbase
  have hsorted := pairwise_items uni policy (ofCodes b.codes) (ofCodes b.path) raw
  set items := (writeManifest uni policy (ofCodes b.codes) (ofCodes b.path) raw).items with hitems
  rw [b.slash_mem_collection]
  constructor
  · rintro ⟨hchecked, -, -⟩ ⟨hdata, e, hfirst, hsafe⟩
    have hpath : e.path = "data/ALL_FILES" := by simpa using List.find?_some hfirst
    obtain ⟨item, hitem, -, hpolicy, -⟩ := exists_firstItem uni policy (ofCodes b.codes)
      (ofCodes b.path) (by decide) hfirst
    rw [if_pos (hpath ▸ hsafe)] at hpolicy
    obtain ⟨nfcLine, rfl⟩ := hpolicy
    have hok := (b.checkQueueUrl_sourceUrl e.path).1 (hchecked _ hitem _ rfl)
    refine hok ((b.refused_iff ?_ ?_).2 ⟨by simpa using hdata, hpath⟩) <;> rw [hpath] <;> decide
  · intro hcond
    have hchecked : ∀ i ∈ items, ∀ url, i.sourceUrl = some url → checkQueueUrl url = .ok () := by
      intro i hi url hurl
      obtain ⟨e, nfcLine, rfl, hfirst, hsafe, hlisting⟩ := mem_items uni policy hi (by simp [hurl])
      obtain rfl := Option.some.inj hurl
      refine (b.checkQueueUrl_sourceUrl e.path).2 fun hrefused => hcond ?_
      obtain ⟨hdata, hpath⟩ := (b.refused_iff (path_ne_empty hsafe) hlisting).1 hrefused
      exact ⟨by simp [hdata], e, hpath ▸ hfirst, hsafe⟩
    have hnodup : (items.filterMap (·.sourceUrl)).Nodup := by
      refine List.pairwise_filterMap.2 (hsorted.imp_of_mem fun {i j} hi hj hlt => ?_)
      -- two items with one URL have one path, and then they are the same
      rintro url hiurl url' hjurl rfl
      obtain ⟨e, nfcLine, rfl, hfirst, hsafe, hlisting⟩ := mem_items uni policy hi (by simp [hiurl])
      obtain ⟨e', nfcLine', rfl, hfirst', -, -⟩ := mem_items uni policy hj (by simp [hjurl])
      have hpath : e.path = e'.path :=
        b.sourceUrl_injective ((Option.some.inj hiurl).trans (Option.some.inj hjurl).symm)
      rw [hpath] at hfirst
      obtain rfl := Option.some.inj (hfirst.symm.trans hfirst')
      rcases hlt with hlt | ⟨-, hlt⟩
      · exact absurd hlt (lt_irrefl _)
      · exact absurd hlt (lt_irrefl _)
    refine ⟨hchecked, hnodup, fun file choice generation hgeneration =>
      commandQueue_eq_ok.2 ⟨hgeneration, fun i hi => ?_, ?_, rfl⟩⟩
    · obtain ⟨hi, hdisposition⟩ := List.mem_filter.1 hi
      cases hurl : i.sourceUrl with
      | some url => exact ⟨url, rfl, hchecked i hi url hurl⟩
      | none =>
        have hrejected := rejected_of_url ((perm_items ..).subset hi) hurl
        rw [hrejected] at hdisposition
        cases choice <;> simp [Choice.disposition] at hdisposition
    · exact hnodup.sublist (List.filter_sublist.filterMap _)

/-- The listing of a collection with its own listing below `data`. -/
def dataListing : List UInt8 := Provenance.utf8 "data:\n\n- 1 ALL_FILES\n- 2 a\n".toList

/-- Below a base URL that ends in `/data` it is exported. -/
theorem exportable_below_data :
    parseBaseUrl "http://h/C/data" = .ok ("http://h/C/data", "C/data") ∧
      Exportable (writeManifest asciiTables deferAll "http://h/C/data" "C/data" dataListing).items := by
  have hbase : parseBaseUrl "http://h/C/data" = .ok ("http://h/C/data", "C/data") := by
    decide
  exact ⟨hbase, (exportable_iff asciiTables deferAll hbase).2 fun h => h.1 (by decide)⟩

/-- Below the collection its manifest is written, and no queue can be exported. -/
theorem listing_refused : ¬ ∀ (uni : Unicode) (policy : Policy) (baseUrl base collection : String)
    (raw : List UInt8), parseBaseUrl baseUrl = .ok (base, collection) →
      Exportable (writeManifest uni policy base collection raw).items := by
  intro h
  have hbase : parseBaseUrl "http://h/C" = .ok ("http://h/C", "C") := by decide
  have hitem : (writeManifest asciiTables deferAll "http://h/C" "C" dataListing).items.any (fun i =>
      i.sourceUrl = some "http://h/C/data/ALL_FILES") = true := by decide
  have hrefused : checkQueueUrl "http://h/C/data/ALL_FILES" ≠ .ok () := by decide
  obtain ⟨i, hi, hurl⟩ := List.any_eq_true.1 hitem
  exact hrefused ((h _ _ _ _ _ _ hbase).checked i hi _ (by simpa using hurl))

end

end TodDl.Inventory
