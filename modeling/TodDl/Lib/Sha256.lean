/-
  SHA-256 on byte strings, with words as natural numbers below `2 ^ 32`.

  The digest is computed by structural recursion, so that a closed term can be
  evaluated by the kernel.  Nothing below uses more of it than that it is a
  function of the bytes.
-/
import Mathlib.Algebra.Group.Nat.Defs
import Mathlib.Data.List.Basic

namespace TodDl.Lib.Sha256

/-- Rotate a 32-bit word to the right. -/
def rotr (n x : ℕ) : ℕ := ((x >>> n) ||| (x <<< (32 - n))) % 2 ^ 32

def bigSigma0 (x : ℕ) : ℕ := rotr 2 x ^^^ rotr 13 x ^^^ rotr 22 x
def bigSigma1 (x : ℕ) : ℕ := rotr 6 x ^^^ rotr 11 x ^^^ rotr 25 x
def smallSigma0 (x : ℕ) : ℕ := rotr 7 x ^^^ rotr 18 x ^^^ (x >>> 3)
def smallSigma1 (x : ℕ) : ℕ := rotr 17 x ^^^ rotr 19 x ^^^ (x >>> 10)

/-- `Ch`; the complement of `x` is taken within 32 bits. -/
def choose (x y z : ℕ) : ℕ := (x &&& y) ^^^ ((2 ^ 32 - 1 - x) &&& z)

def majority (x y z : ℕ) : ℕ := (x &&& y) ^^^ (x &&& z) ^^^ (y &&& z)

/-- The round constants. -/
def roundConstants : List ℕ :=
  [0x428a2f98, 0x71374491, 0xb5c0fbcf, 0xe9b5dba5, 0x3956c25b, 0x59f111f1, 0x923f82a4, 0xab1c5ed5,
   0xd807aa98, 0x12835b01, 0x243185be, 0x550c7dc3, 0x72be5d74, 0x80deb1fe, 0x9bdc06a7, 0xc19bf174,
   0xe49b69c1, 0xefbe4786, 0x0fc19dc6, 0x240ca1cc, 0x2de92c6f, 0x4a7484aa, 0x5cb0a9dc, 0x76f988da,
   0x983e5152, 0xa831c66d, 0xb00327c8, 0xbf597fc7, 0xc6e00bf3, 0xd5a79147, 0x06ca6351, 0x14292967,
   0x27b70a85, 0x2e1b2138, 0x4d2c6dfc, 0x53380d13, 0x650a7354, 0x766a0abb, 0x81c2c92e, 0x92722c85,
   0xa2bfe8a1, 0xa81a664b, 0xc24b8b70, 0xc76c51a3, 0xd192e819, 0xd6990624, 0xf40e3585, 0x106aa070,
   0x19a4c116, 0x1e376c08, 0x2748774c, 0x34b0bcb5, 0x391c0cb3, 0x4ed8aa4a, 0x5b9cca4f, 0x682e6ff3,
   0x748f82ee, 0x78a5636f, 0x84c87814, 0x8cc70208, 0x90befffa, 0xa4506ceb, 0xbef9a3f7, 0xc67178f2]

/-- The eight words of the chaining state. -/
structure Words where
  a : ℕ
  b : ℕ
  c : ℕ
  d : ℕ
  e : ℕ
  f : ℕ
  g : ℕ
  h : ℕ

def initial : Words :=
  ⟨0x6a09e667, 0xbb67ae85, 0x3c6ef372, 0xa54ff53a, 0x510e527f, 0x9b05688c, 0x1f83d9ab, 0x5be0cd19⟩

/-- The message schedule: `n` more words after `ws` (latest word first). -/
def schedule : ℕ → List ℕ → List ℕ
  | 0, ws => ws.reverse
  | n + 1, ws =>
    schedule n ((smallSigma1 (ws.getD 1 0) + ws.getD 6 0 + smallSigma0 (ws.getD 14 0) +
      ws.getD 15 0) % 2 ^ 32 :: ws)

/-- One round with the constant `k` and the schedule word `w`. -/
def round (s : Words) (k w : ℕ) : Words :=
  let t₁ := s.h + bigSigma1 s.e + choose s.e s.f s.g + k + w
  let t₂ := bigSigma0 s.a + majority s.a s.b s.c
  ⟨(t₁ + t₂) % 2 ^ 32, s.a, s.b, s.c, (s.d + t₁) % 2 ^ 32, s.e, s.f, s.g⟩

def rounds : Words → List ℕ → List ℕ → Words
  | s, k :: ks, w :: ws => rounds (round s k w) ks ws
  | s, _, _ => s

def Words.add (s t : Words) : Words :=
  ⟨(s.a + t.a) % 2 ^ 32, (s.b + t.b) % 2 ^ 32, (s.c + t.c) % 2 ^ 32, (s.d + t.d) % 2 ^ 32,
   (s.e + t.e) % 2 ^ 32, (s.f + t.f) % 2 ^ 32, (s.g + t.g) % 2 ^ 32, (s.h + t.h) % 2 ^ 32⟩

/-- Big-endian words of a list of bytes. -/
def wordsOf : List ℕ → List ℕ
  | w :: x :: y :: z :: rest => (w * 2 ^ 24 + x * 2 ^ 16 + y * 2 ^ 8 + z) :: wordsOf rest
  | _ => []

/-- The padded message: a one bit, zeros, and the bit length in eight bytes. -/
def pad (bytes : List ℕ) : List ℕ :=
  let bits := 8 * bytes.length
  bytes ++ 0x80 :: List.replicate ((119 - bytes.length % 64) % 64) 0 ++
    (List.range 8).map fun i => bits / 2 ^ (8 * (7 - i)) % 256

def compress (s : Words) (block : List ℕ) : Words :=
  s.add (rounds s roundConstants (schedule 48 (wordsOf block).reverse))

/-- Fold the compression function over `n` blocks. -/
def blocks : ℕ → Words → List ℕ → Words
  | 0, s, _ => s
  | n + 1, s, bytes => blocks n (compress s (bytes.take 64)) (bytes.drop 64)

def hexDigit (n : ℕ) : Char := "0123456789abcdef".toList.getD n '0'

/-- The eight hexadecimal digits of a word. -/
def hexWord (w : ℕ) : List Char := (List.range 8).map fun i => hexDigit (w / 16 ^ (7 - i) % 16)

/-- `hashlib.sha256(data).hexdigest()`. -/
def hexdigest (data : List UInt8) : String :=
  let padded := pad (data.map UInt8.toNat)
  let s := blocks (padded.length / 64) initial padded
  String.ofList ([s.a, s.b, s.c, s.d, s.e, s.f, s.g, s.h].flatMap hexWord)

@[simp] theorem length_hexdigest (data : List UInt8) : (hexdigest data).length = 64 := by
  simp [hexdigest, hexWord]

/-- A digest is hexadecimal. -/
theorem mem_hexdigest {data : List UInt8} {c : Char} (h : c ∈ (hexdigest data).toList) :
    c ∈ "0123456789abcdef".toList := by
  rw [hexdigest, String.toList_ofList, List.mem_flatMap] at h
  obtain ⟨w, -, hc⟩ := h
  obtain ⟨i, -, rfl⟩ := List.mem_map.1 hc
  rw [hexDigit, List.getD_eq_getElem?_getD]
  cases hget : "0123456789abcdef".toList[w / 16 ^ (7 - i) % 16]? with
  | none => decide
  | some d => exact List.mem_of_getElem? hget

end TodDl.Lib.Sha256
