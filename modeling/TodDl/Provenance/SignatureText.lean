/-
  Provenance records — the text of a signature in `summary.json`.

  `close` writes the 64 bytes of a signature in the URL alphabet and strips the padding; the
  verifier adds two padding characters and decodes with `binascii`, which takes both alphabets
  (`a2bBase64_eq`).  The bytes come back (`signatureBytes_text`), and the text is in the format
  of the summary schema (`search_signatureText`).
-/
import TodDl.Lib.Base64
import TodDl.Provenance.Chain

namespace TodDl.Provenance

/-- `base64.urlsafe_b64encode(signature).decode("ascii").rstrip("=")` -/
def signatureText (signature : List UInt8) : String :=
  String.ofList (((Lib.Base64.encode signature).reverse.dropWhile (· = '=')).reverse)

theorem number_ascii : ∀ n < 128,
    Lib.Base64.number (Char.ofNat n) = base64Value (Char.ofNat n) := by decide +kernel

/-- The digits of `binascii` are the letters of both alphabets. -/
theorem number_eq_base64Value (c : Char) : Lib.Base64.number c = base64Value c := by
  by_cases hc : c.toNat < 128
  · rw [← Char.ofNat_toNat c]
    exact number_ascii _ hc
  · have hplus : c ≠ '+' := by rintro rfl; exact hc (by decide)
    have hslash : c ≠ '/' := by rintro rfl; exact hc (by decide)
    have hminus : c ≠ '-' := by rintro rfl; exact hc (by decide)
    have hunder : c ≠ '_' := by rintro rfl; exact hc (by decide)
    have hle : ∀ d : Char, d.toNat < 128 → ¬ c ≤ d := by
      intro d hd hle
      rw [Char.le_def, UInt32.le_iff_toNat_le] at hle
      exact hc (Nat.lt_of_le_of_lt hle hd)
    have hnone : Lib.Base64.alphabet.findIdx? (fun d => d = c) = none := by
      rw [List.findIdx?_eq_none_iff]
      intro d hd
      obtain ⟨n, hn, rfl⟩ := Lib.Base64.exists_letter hd
      have hvisible := (Lib.Base64.letter_visible n hn).2
      exact decide_eq_false fun heq => hc (by rw [← heq]; omega)
    rw [Lib.Base64.number, if_neg hplus, if_neg hslash, hnone, base64Value,
      if_neg fun h => hle 'Z' (by decide) h.2, if_neg fun h => hle 'z' (by decide) h.2,
      if_neg fun h => hle '9' (by decide) h.2, if_neg (by simp [hplus, hminus]),
      if_neg (by simp [hslash, hunder])]

/-- The verifier's decoder is the general one. -/
theorem a2bBase64_eq (cs : List Char) (quad left pads : ℕ) :
    a2bBase64 cs quad left pads =
      (Lib.Base64.decodeQuad quad left pads cs).elim (.error .valueError) .ok := by
  have hmap : ∀ (o : Option (List UInt8)) (f : List UInt8 → List UInt8),
      (o.elim (.error .valueError) .ok : Except Failure (List UInt8)).map f =
        (o.map f).elim (.error .valueError) .ok := fun o f => by cases o <;> rfl
  induction cs generalizing quad left pads with
  | nil =>
    rw [a2bBase64, Lib.Base64.decodeQuad]
    split <;> rfl
  | cons c cs ih =>
    rw [a2bBase64.eq_def, Lib.Base64.decodeQuad.eq_def]
    simp only [number_eq_base64Value]
    split
    · split
      · exact ih _ _ _
      · split
        · rfl
        · exact ih _ _ _
    · cases base64Value c with
      | none => exact ih _ _ _
      | some n =>
        rcases quad with _ | _ | _ | quad
        · exact ih _ _ _
        · simp only [ih, hmap]
        · simp only [ih, hmap]
        · simp only [ih, hmap]

section
variable {signature : List UInt8} (h : signature.length = 64)
include h

/-- The text without its padding. -/
theorem signatureText_padded : ∃ body, (signatureText signature).toList = body ∧
    Lib.Base64.encode signature = body ++ ['=', '='] ∧
      (∀ c ∈ body, ∃ n < 64, c = Lib.Base64.letter n) ∧ body.length = 86 := by
  have hrest : signature.length % 3 = 1 := by rw [h]
  obtain ⟨body, hbody, hletters, hlength⟩ := Lib.Base64.encode_padded hrest
  rw [h] at hlength
  refine ⟨body, ?_, hbody, hletters, hlength⟩
  have hpad : (body ++ ['=', '=']).reverse = '=' :: '=' :: body.reverse := by simp
  have hstrip : body.reverse.dropWhile (fun c => decide (c = '=')) = body.reverse := by
    cases hr : body.reverse with
    | nil => rfl
    | cons c rest =>
      obtain ⟨n, hn, rfl⟩ := hletters c (List.mem_reverse.1 (hr ▸ List.mem_cons_self))
      rw [List.dropWhile_cons_of_neg (by simpa using Lib.Base64.letter_ne n hn)]
  rw [signatureText, String.toList_ofList, hbody, hpad, List.dropWhile_cons_of_pos (by simp),
    List.dropWhile_cons_of_pos (by simp), hstrip, List.reverse_reverse]

/-- **The verifier reads the signature that was written.** -/
theorem signatureBytes_text : signatureBytes (.str (signatureText signature)) = .ok signature := by
  obtain ⟨body, htext, hbody, hletters, -⟩ := signatureText_padded h
  have hall : (signatureText signature).toList.all (fun c => decide (c.toNat < 128)) = true := by
    rw [htext, List.all_eq_true]
    intro c hc
    obtain ⟨n, hn, rfl⟩ := hletters c hc
    have hvisible := (Lib.Base64.letter_visible n hn).2
    exact decide_eq_true (by omega)
  have hdecode := Lib.Base64.decode_encode signature
  rw [Lib.Base64.decode, hbody] at hdecode
  rw [signatureBytes, if_pos hall, htext, a2bBase64_eq, hdecode]
  rfl

theorem search_signatureText : Pattern.signature.search (signatureText signature) = true := by
  obtain ⟨body, htext, -, hletters, hlength⟩ := signatureText_padded h
  have hclass : ∀ n < 64, isBase64Url (Lib.Base64.letter n) = true := by decide
  rw [Pattern.search, Bool.or_eq_true]
  left
  rw [Pattern.fullMatch, decide_eq_true_iff, htext]
  refine takeClass_all hlength fun c hc => ?_
  obtain ⟨n, hn, rfl⟩ := hletters c hc
  exact hclass n hn

end

end TodDl.Provenance
