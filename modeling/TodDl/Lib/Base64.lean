/-
  Base64 — bytes as letters, three bytes in four of them.

  The encoder has the alphabet for URLs.  The decoder takes both alphabets, passes over
  what is in neither, and stops at the padding of the last quad.

  `decode_encode`: what is encoded is decoded.
-/
import Mathlib.Data.List.Basic

namespace TodDl.Lib.Base64

/-- The letters for 0 to 63. -/
def alphabet : List Char :=
  ['A', 'B', 'C', 'D', 'E', 'F', 'G', 'H', 'I', 'J', 'K', 'L', 'M', 'N', 'O', 'P', 'Q', 'R', 'S',
   'T', 'U', 'V', 'W', 'X', 'Y', 'Z', 'a', 'b', 'c', 'd', 'e', 'f', 'g', 'h', 'i', 'j', 'k', 'l',
   'm', 'n', 'o', 'p', 'q', 'r', 's', 't', 'u', 'v', 'w', 'x', 'y', 'z', '0', '1', '2', '3', '4',
   '5', '6', '7', '8', '9', '-', '_']

def letter (n : ℕ) : Char := alphabet.getD n '='

/-- The number of a letter, in either alphabet. -/
def number (c : Char) : Option ℕ :=
  if c = '+' then some 62 else if c = '/' then some 63 else alphabet.findIdx? (· = c)

/-- `base64.urlsafe_b64encode(bytes)` -/
def encode : List UInt8 → List Char
  | [] => []
  | [a] => [letter (a.toNat / 4), letter (a.toNat % 4 * 16), '=', '=']
  | [a, b] =>
    [letter (a.toNat / 4), letter (a.toNat % 4 * 16 + b.toNat / 16), letter (b.toNat % 16 * 4), '=']
  | a :: b :: c :: bytes =>
    letter (a.toNat / 4) :: letter (a.toNat % 4 * 16 + b.toNat / 16) ::
      letter (b.toNat % 16 * 4 + c.toNat / 64) :: letter (c.toNat % 64) :: encode bytes

/-- The decoder at some letter of a quad, with the bits that are left of the one before it
    and the number of padding characters. -/
def decodeQuad (place left pads : ℕ) : List Char → Option (List UInt8)
  | [] => if place = 0 then some [] else none
  | c :: cs =>
    if c = '=' then
      if place < 2 then decodeQuad place left pads cs
      else if 4 ≤ place + (pads + 1) then some []
      else decodeQuad place left (pads + 1) cs
    else
      match number c with
      | none => decodeQuad place left pads cs
      | some n =>
        match place with
        | 0 => decodeQuad 1 n 0 cs
        | 1 => (decodeQuad 2 (n % 16) 0 cs).map (UInt8.ofNat (left * 4 + n / 16) :: ·)
        | 2 => (decodeQuad 3 (n % 4) 0 cs).map (UInt8.ofNat (left * 16 + n / 4) :: ·)
        | _ => (decodeQuad 0 0 0 cs).map (UInt8.ofNat (left * 64 + n) :: ·)

/-- `base64.urlsafe_b64decode(text)`; none when it raises. -/
def decode (text : List Char) : Option (List UInt8) := decodeQuad 0 0 0 text

/-! ## The alphabet -/

theorem number_letter : ∀ n < 64, number (letter n) = some n := by decide

theorem letter_ne : ∀ n < 64, letter n ≠ '=' := by decide

/-- The letters are between `!` and `~`. -/
theorem letter_visible : ∀ n < 64, 33 ≤ (letter n).toNat ∧ (letter n).toNat ≤ 126 := by decide

section
variable {n : ℕ} (hn : n < 64) (left pads : ℕ) (cs : List Char)
include hn

/-- The first letter of a quad gives no byte yet. -/
theorem decodeQuad_first : decodeQuad 0 left pads (letter n :: cs) = decodeQuad 1 n 0 cs := by
  rw [decodeQuad, if_neg (letter_ne n hn), number_letter n hn]
  rfl

theorem decodeQuad_second : decodeQuad 1 left pads (letter n :: cs) =
    (decodeQuad 2 (n % 16) 0 cs).map (UInt8.ofNat (left * 4 + n / 16) :: ·) := by
  rw [decodeQuad, if_neg (letter_ne n hn), number_letter n hn]
  rfl

theorem decodeQuad_third : decodeQuad 2 left pads (letter n :: cs) =
    (decodeQuad 3 (n % 4) 0 cs).map (UInt8.ofNat (left * 16 + n / 4) :: ·) := by
  rw [decodeQuad, if_neg (letter_ne n hn), number_letter n hn]
  rfl

theorem decodeQuad_fourth : decodeQuad 3 left pads (letter n :: cs) =
    (decodeQuad 0 0 0 cs).map (UInt8.ofNat (left * 64 + n) :: ·) := by
  rw [decodeQuad, if_neg (letter_ne n hn), number_letter n hn]
  rfl

end

/-! ## Encoding and decoding -/

theorem ofNat_eq {a : UInt8} {n : ℕ} (h : n = a.toNat) : UInt8.ofNat n = a := by
  rw [h, UInt8.ofNat_toNat]

/-- **What is encoded is decoded.** -/
theorem decode_encode (bytes : List UInt8) : decode (encode bytes) = some bytes := by
  unfold decode
  induction bytes using encode.induct with
  | case1 => rfl
  | case2 a =>
    have ha := a.toNat_lt
    rw [encode, decodeQuad_first (by omega), decodeQuad_second (by omega)]
    have hbyte : UInt8.ofNat (a.toNat / 4 * 4 + a.toNat % 4 * 16 / 16) = a :=
      ofNat_eq (by omega)
    rw [hbyte]
    rfl
  | case3 a b =>
    have ha := a.toNat_lt
    have hb := b.toNat_lt
    rw [encode, decodeQuad_first (by omega), decodeQuad_second (by omega),
      decodeQuad_third (by omega)]
    have hfirst : UInt8.ofNat (a.toNat / 4 * 4 + (a.toNat % 4 * 16 + b.toNat / 16) / 16) = a :=
      ofNat_eq (by omega)
    have hsecond : UInt8.ofNat ((a.toNat % 4 * 16 + b.toNat / 16) % 16 * 16 +
        b.toNat % 16 * 4 / 4) = b := ofNat_eq (by omega)
    rw [hfirst, hsecond]
    rfl
  | case4 a b c bytes ih =>
    have ha := a.toNat_lt
    have hb := b.toNat_lt
    have hc := c.toNat_lt
    rw [encode, decodeQuad_first (by omega), decodeQuad_second (by omega),
      decodeQuad_third (by omega), decodeQuad_fourth (by omega), ih]
    have hfirst : UInt8.ofNat (a.toNat / 4 * 4 + (a.toNat % 4 * 16 + b.toNat / 16) / 16) = a :=
      ofNat_eq (by omega)
    have hsecond : UInt8.ofNat ((a.toNat % 4 * 16 + b.toNat / 16) % 16 * 16 +
        (b.toNat % 16 * 4 + c.toNat / 64) / 4) = b := ofNat_eq (by omega)
    have hthird : UInt8.ofNat ((b.toNat % 16 * 4 + c.toNat / 64) % 4 * 64 + c.toNat % 64) = c :=
      ofNat_eq (by omega)
    rw [hfirst, hsecond, hthird]
    rfl

theorem length_encode (bytes : List UInt8) :
    (encode bytes).length = 4 * ((bytes.length + 2) / 3) := by
  induction bytes using encode.induct with
  | case1 => rfl
  | case2 a => simp [encode]
  | case3 a b => simp [encode]
  | case4 a b c bytes ih =>
    simp only [encode, List.length_cons, ih]
    omega

/-- An encoding has visible characters only. -/
theorem encode_visible (bytes : List UInt8) :
    ∀ c ∈ encode bytes, 33 ≤ c.toNat ∧ c.toNat ≤ 126 := by
  have hpad : 33 ≤ ('=' : Char).toNat ∧ ('=' : Char).toNat ≤ 126 := by decide
  induction bytes using encode.induct with
  | case1 => exact nofun
  | case2 a =>
    have ha := a.toNat_lt
    intro x hx
    simp only [encode, List.mem_cons, List.not_mem_nil, or_false] at hx
    rcases hx with rfl | rfl | rfl | rfl
    · exact letter_visible _ (by omega)
    · exact letter_visible _ (by omega)
    · exact hpad
    · exact hpad
  | case3 a b =>
    have ha := a.toNat_lt
    have hb := b.toNat_lt
    intro x hx
    simp only [encode, List.mem_cons, List.not_mem_nil, or_false] at hx
    rcases hx with rfl | rfl | rfl | rfl
    · exact letter_visible _ (by omega)
    · exact letter_visible _ (by omega)
    · exact letter_visible _ (by omega)
    · exact hpad
  | case4 a b c bytes ih =>
    have ha := a.toNat_lt
    have hb := b.toNat_lt
    have hc := c.toNat_lt
    intro x hx
    simp only [encode, List.mem_cons] at hx
    rcases hx with rfl | rfl | rfl | rfl | hx
    · exact letter_visible _ (by omega)
    · exact letter_visible _ (by omega)
    · exact letter_visible _ (by omega)
    · exact letter_visible _ (by omega)
    · exact ih x hx

theorem exists_letter {c : Char} (h : c ∈ alphabet) : ∃ n < 64, c = letter n := by
  obtain ⟨n, hn, rfl⟩ := List.mem_iff_getElem.1 h
  refine ⟨n, hn, ?_⟩
  rw [letter, List.getD_eq_getElem?_getD, List.getElem?_eq_getElem hn, Option.getD_some]

/-- One byte over whole groups of three: two characters of padding end the encoding. -/
theorem encode_padded {bytes : List UInt8} (h : bytes.length % 3 = 1) :
    ∃ body, encode bytes = body ++ ['=', '='] ∧ (∀ c ∈ body, ∃ n < 64, c = letter n) ∧
      body.length = 4 * (bytes.length / 3) + 2 := by
  have hletter : ∀ n < 64, ∃ m < 64, letter n = letter m := fun n hn => ⟨n, hn, rfl⟩
  induction bytes using encode.induct with
  | case1 => cases h
  | case2 a =>
    have ha := a.toNat_lt
    refine ⟨[letter (a.toNat / 4), letter (a.toNat % 4 * 16)], rfl, ?_, by simp⟩
    exact List.forall_mem_cons.2 ⟨hletter _ (by omega),
      List.forall_mem_cons.2 ⟨hletter _ (by omega), List.forall_mem_nil _⟩⟩
  | case3 a b => cases h
  | case4 a b c bytes ih =>
    have ha := a.toNat_lt
    have hb := b.toNat_lt
    have hc := c.toNat_lt
    simp only [List.length_cons] at h ⊢
    obtain ⟨body, hbody, hletters, hlength⟩ := ih (by omega)
    refine ⟨letter (a.toNat / 4) :: letter (a.toNat % 4 * 16 + b.toNat / 16) ::
      letter (b.toNat % 16 * 4 + c.toNat / 64) :: letter (c.toNat % 64) :: body,
      by rw [encode, hbody]; rfl, ?_, by simp only [List.length_cons]; omega⟩
    exact List.forall_mem_cons.2 ⟨hletter _ (by omega), List.forall_mem_cons.2 ⟨hletter _ (by omega),
      List.forall_mem_cons.2 ⟨hletter _ (by omega),
        List.forall_mem_cons.2 ⟨hletter _ (by omega), hletters⟩⟩⟩⟩

end TodDl.Lib.Base64
