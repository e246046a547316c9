/-
  Agendas — items that wait for a time, and ranks that order them.

  `due` are the items whose time has come, `waitFrom` is how long the first of them is
  still to come, `byRank` is the order in which they are taken.

  `due_eq_nil_iff`: nothing is due before the first time, and something is from then on.
  `waitFrom_eq_some`: who waits `waitFrom` long has missed nothing and finds something.
-/
import Mathlib.Algebra.Order.Group.Defs
import Mathlib.Data.List.MinMax
import Mathlib.Data.List.Sort
import Mathlib.Order.Lattice

namespace TodDl.Lib.Agenda

section
variable {α τ : Type*} [LinearOrder τ] (time : α → τ)

/-- The items whose time has come at `t`. -/
def due (l : List α) (t : τ) : List α := l.filter fun a => time a ≤ t

/-- The first time of an item. -/
def first (l : List α) : Option τ := (l.map time).min?

variable {time} {l : List α} {t m : τ}

theorem first_eq_some : first time l = some m ↔ (∃ a ∈ l, time a = m) ∧ ∀ a ∈ l, m ≤ time a := by
  simp [first, List.min?_eq_some_iff]

theorem first_eq_none : first time l = none ↔ l = [] := by simp [first]

/-- Nothing is due before the first time, and something is from then on. -/
theorem due_eq_nil_iff (h : first time l = some m) : due time l t = [] ↔ t < m := by
  obtain ⟨⟨a, ha, rfl⟩, hle⟩ := first_eq_some.1 h
  rw [due, List.filter_eq_nil_iff]
  constructor
  · intro hnone
    simpa using hnone a ha
  · intro hlt b hb
    simpa using hlt.trans_le (hle b hb)

end

section
variable {α τ : Type*} [LinearOrder τ] [AddCommGroup τ] (time : α → τ)

/-- How long the first item is still to come, seen from `t`. -/
def waitFrom (l : List α) (t : τ) : Option τ := (first time l).map fun m => max 0 (m - t)

variable {time} {l : List α} {t wait : τ}

theorem waitFrom_eq_none : waitFrom time l t = none ↔ ∀ t', t ≤ t' → due time l t' = [] := by
  rw [waitFrom, Option.map_eq_none_iff]
  constructor
  · intro hnone t' _
    rw [first_eq_none.1 hnone]
    rfl
  · intro hnever
    cases hfirst : first time l with
    | none => rfl
    | some m =>
      -- the later of `t` and the first time
      have hlt := (due_eq_nil_iff hfirst).1 (hnever (max t m) (le_max_left t m))
      exact absurd hlt (not_lt_of_ge (le_max_right t m))

/-- **Who waits has missed nothing and finds something.** -/
theorem waitFrom_eq_some [IsOrderedAddMonoid τ] (h : waitFrom time l t = some wait) : 0 ≤ wait ∧
    (∀ t', t ≤ t' → t' < t + wait → due time l t' = []) ∧ due time l (t + wait) ≠ [] := by
  rw [waitFrom, Option.map_eq_some_iff] at h
  obtain ⟨m, hfirst, rfl⟩ := h
  refine ⟨le_max_left _ _, fun t' hle hlt => ?_, fun hnil => ?_⟩
  · rw [due_eq_nil_iff hfirst]
    rcases le_total (m - t) 0 with hpast | hahead
    · rw [max_eq_left hpast, add_zero] at hlt
      exact absurd hlt (not_lt_of_ge hle)
    · rwa [max_eq_right hahead, add_sub_cancel] at hlt
  · have hlt := (due_eq_nil_iff hfirst).1 hnil
    refine absurd hlt (not_lt_of_ge ?_)
    calc m = t + (m - t) := (add_sub_cancel t m).symm
      _ ≤ t + max 0 (m - t) := by gcongr; exact le_max_right _ _

end

section
variable {α ρ : Type*} [LinearOrder ρ] (rank : α → ρ)

/-- The items by rank. -/
def byRank (l : List α) : List α := l.insertionSort fun a b => rank a ≤ rank b

variable {l : List α} {a : α}

theorem mem_byRank {rank : α → ρ} : a ∈ byRank rank l ↔ a ∈ l := List.mem_insertionSort _

/-- The first of the items with a property has the least rank among them. -/
theorem rank_le_of_head? {p : α → Bool} (h : ((byRank rank l).filter p).head? = some a) :
    a ∈ l ∧ p a = true ∧ ∀ b ∈ l, p b = true → rank a ≤ rank b := by
  have hsorted : ((byRank rank l).filter p).Pairwise fun a b => rank a ≤ rank b := by
    have htotal : Std.Total fun a b : α => rank a ≤ rank b := ⟨fun a b => le_total _ _⟩
    have htrans : IsTrans α fun a b => rank a ≤ rank b := ⟨fun a b c => le_trans⟩
    exact (List.pairwise_insertionSort _ l).filter p
  obtain ⟨rest, hrest⟩ := List.head?_eq_some_iff.1 h
  have hmem : a ∈ (byRank rank l).filter p := List.mem_of_head? h
  obtain ⟨hl, hp⟩ := List.mem_filter.1 hmem
  refine ⟨mem_byRank.1 hl, hp, fun b hb hpb => ?_⟩
  have hb' : b ∈ (byRank rank l).filter p := List.mem_filter.2 ⟨mem_byRank.2 hb, hpb⟩
  rw [hrest, List.pairwise_cons] at hsorted
  rw [hrest, List.mem_cons] at hb'
  rcases hb' with rfl | hb'
  · exact le_rfl
  · exact hsorted.1 b hb'

end

end TodDl.Lib.Agenda
