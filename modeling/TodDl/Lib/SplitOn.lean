/-
  The pieces of `String.splitOn`.

  `String.splitOn` is defined by well-founded recursion; `steps` takes as many steps as it
  is given, so that the pieces of a closed text can be computed.
-/
import Mathlib.Data.Nat.Notation

namespace TodDl.Lib.SplitOn

open String.Pos (Raw)

/-- The loop of `splitOn`, as far as the steps suffice. -/
def steps (s sep : String) : ℕ → Raw → Raw → Raw → List String → Option (List String)
  | 0, _, _, _, _ => none
  | n + 1, b, i, j, r =>
    if i.atEnd s then some (b.extract s i :: r).reverse
    else if i.get s == j.get sep then
      if (j.next sep).atEnd sep then
        steps s sep n (i.next s) (i.next s) 0
          (b.extract s ((i.next s).unoffsetBy (j.next sep)) :: r)
      else steps s sep n b (i.next s) (j.next sep) r
    else steps s sep n b ((i.unoffsetBy j).next s) 0 r

variable {s sep : String} {n : ℕ} {pieces : List String}

theorem splitOnAux_eq {b i j : Raw} {r : List String}
    (h : steps s sep n b i j r = some pieces) : s.splitOnAux sep b i j r = pieces := by
  induction n generalizing b i j r with
  | zero => cases h
  | succ n ih =>
    unfold String.splitOnAux
    unfold steps at h
    split
    · next hend =>
      rw [if_pos hend] at h
      exact Option.some.inj h
    · next hend =>
      rw [if_neg hend] at h
      split
      · next heq =>
        rw [if_pos heq] at h
        dsimp only
        split
        · next hlast =>
          rw [if_pos hlast] at h
          exact ih h
        · next hlast =>
          rw [if_neg hlast] at h
          exact ih h
      · next heq =>
        rw [if_neg heq] at h
        exact ih h

/-- The pieces that enough steps come to. -/
theorem splitOn_eq (n : ℕ) (hsep : (sep == "") = false)
    (h : steps s sep n 0 0 0 [] = some pieces) : s.splitOn sep = pieces := by
  rw [String.splitOn, hsep]
  exact splitOnAux_eq h

end TodDl.Lib.SplitOn
