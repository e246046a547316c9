/-
  Relative POSIX paths as lists of components, and their text.

  `components` reads a text the way `PurePosixPath` does (empty and `.`
  components are dropped), `asPosix` writes components back.  `SafePath` are the
  component lists that name something below a directory, whatever it is.
-/
import Mathlib.Data.List.Basic

namespace TodDl.Lib.Posix

/-- The components of a path text. -/
def components (text : String) : List String :=
  ((text.toList.splitOn '/').map String.ofList).filter fun c => c ≠ "" && c ≠ "."

/-- The text starts at the root. -/
def isAbsolute (text : String) : Bool := text.toList.head? = some '/'

/-- The text of a relative path. -/
def asPosix : List String → String
  | [] => "."
  | c :: rest => String.ofList (['/'].intercalate ((c :: rest).map String.toList))

/-- A component that stays where it is: no separator, no NUL, not `.` or `..`. -/
def SafeName (c : String) : Prop :=
  c ≠ "" ∧ c ≠ "." ∧ c ≠ ".." ∧ '/' ∉ c.toList ∧ '\x00' ∉ c.toList

instance (c : String) : Decidable (SafeName c) := by unfold SafeName; infer_instance

/-- Component lists without a component that leaves the directory. -/
def SafePath := Subtype fun parts : List String => ∀ c ∈ parts, SafeName c

instance : DecidableEq SafePath := inferInstanceAs (DecidableEq (Subtype _))

theorem asPosix_of_ne_nil {parts : List String} (h : parts ≠ []) :
    asPosix parts = String.ofList (['/'].intercalate (parts.map String.toList)) := by
  cases parts with
  | nil => exact absurd rfl h
  | cons c rest => rfl

theorem splitOn_asPosix {parts : List String} (hne : parts ≠ [])
    (h : ∀ c ∈ parts, SafeName c) :
    (asPosix parts).toList.splitOn '/' = parts.map String.toList := by
  rw [asPosix_of_ne_nil hne, String.toList_ofList]
  refine List.splitOn_intercalate _ (fun l hl => ?_) (by simpa using hne)
  obtain ⟨c, hc, rfl⟩ := List.mem_map.1 hl
  exact (h c hc).2.2.2.1

theorem notMem_of_mem_splitOn {α : Type*} [DecidableEq α] {a : α} {l piece : List α}
    (h : piece ∈ l.splitOn a) : a ∉ piece := by
  induction l generalizing piece with
  | nil =>
    rw [List.splitOn_nil, List.mem_singleton] at h
    simp [h]
  | cons x l ih =>
    rw [List.splitOn_cons_eq_if_modifyHead] at h
    split at h
    · rcases List.mem_cons.1 h with rfl | h
      · simp
      · exact ih h
    · next hx =>
      have hx : a ≠ x := fun hax => hx (by simp [hax])
      cases hs : l.splitOn a with
      | nil => exact absurd hs (List.splitOn_ne_nil _ _)
      | cons first rest =>
        rw [hs, List.modifyHead_cons] at h
        rcases List.mem_cons.1 h with rfl | h
        · simpa [hx] using ih (hs ▸ List.mem_cons_self)
        · exact ih (hs ▸ List.mem_cons_of_mem _ h)

/-- What a component that was read cannot be. -/
theorem mem_components {text c : String} (h : c ∈ components text) :
    c ≠ "" ∧ c ≠ "." ∧ '/' ∉ c.toList := by
  obtain ⟨hmem, hkeep⟩ := List.mem_filter.1 h
  obtain ⟨cs, hcs, rfl⟩ := List.mem_map.1 hmem
  have hne : String.ofList cs ≠ "" ∧ String.ofList cs ≠ "." := by simpa using hkeep
  exact ⟨hne.1, hne.2, by rw [String.toList_ofList]; exact notMem_of_mem_splitOn hcs⟩

/-- **Reading back** the text of a safe path gives its components. -/
theorem components_asPosix {parts : List String} (hne : parts ≠ [])
    (h : ∀ c ∈ parts, SafeName c) : components (asPosix parts) = parts := by
  rw [components, splitOn_asPosix hne h, List.map_map]
  rw [show (String.ofList ∘ String.toList) = id from funext fun s => String.ofList_toList]
  rw [List.map_id, List.filter_eq_self]
  intro c hc
  have hs := h c hc
  simp [hs.1, hs.2.1]

end TodDl.Lib.Posix
