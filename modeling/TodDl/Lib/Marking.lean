/-
  Marking pairs of a list in place.

  A loop goes over the positions of a list that it changes as it goes: an entry of one
  kind is marked together with all entries of another kind that have its key, wherever
  they stand.  A marked entry starts nothing.

  `markPairs_eq_map`: the loop has marked exactly the entries with a partner in the list
  it began with, so neither the order of the list nor that of the loop shows.
-/
import Mathlib.Data.List.Basic

namespace TodDl.Lib

variable {α κ : Type*}

/-- The positions of the entries a condition selects. -/
def positions (c : α → Bool) (xs : List α) : List ℕ :=
  (xs.zipIdx.filter fun x => c x.1).map Prod.snd

theorem mem_positions {c : α → Bool} {xs : List α} {i : ℕ} :
    i ∈ positions c xs ↔ ∃ a, xs[i]? = some a ∧ c a := by
  simp only [positions, List.mem_map, List.mem_filter, List.mem_zipIdx_iff_getElem?, Prod.exists]
  constructor
  · rintro ⟨a, j, ⟨hj, hc⟩, rfl⟩
    exact ⟨a, hj, hc⟩
  · rintro ⟨a, hi, hc⟩
    exact ⟨a, i, ⟨hi, hc⟩, rfl⟩

section
variable (mark : α → α)

/-- Marks the entries at some positions, one after the other. -/
def markAt (is : List ℕ) (xs : List α) : List α := is.foldl (fun xs i => xs.modify i mark) xs

variable {mark}

theorem getElem?_markAt (hmark : ∀ a, mark (mark a) = mark a) (is : List ℕ) (xs : List α) (j : ℕ) :
    (markAt mark is xs)[j]? = xs[j]?.map fun a => if j ∈ is then mark a else a := by
  induction is generalizing xs with
  | nil => simp [markAt]
  | cons i is ih =>
    have hstep : markAt mark (i :: is) xs = markAt mark is (xs.modify i mark) := rfl
    rw [hstep, ih, List.getElem?_modify]
    cases xs[j]? with
    | none => simp
    | some a =>
      by_cases hij : i = j
      · subst hij
        by_cases hi : i ∈ is <;> simp [hi, hmark]
      · have hji : j ≠ i := fun h => hij h.symm
        simp [hij, hji]

end

section
variable [DecidableEq κ] (p q : α → Bool) (key : α → κ) (mark : α → α)

/-- One turn of the loop: the entry at `i`, when it is of the first kind and has partners,
    is marked with them. -/
def pairStep (partners : κ → List ℕ) (xs : List α) (i : ℕ) : List α :=
  match xs[i]? with
  | none => xs
  | some a =>
    let twins := if p a then partners (key a) else []
    if twins = [] then xs else markAt mark (i :: twins) xs

/-- The positions of the second kind with a key. -/
def partnersOf (xs : List α) (k : κ) : List ℕ := positions (fun a => q a && key a = k) xs

/-- The loop; the partners are those of the list it begins with. -/
def markPairs (xs : List α) : List α :=
  (List.range xs.length).foldl (pairStep p key mark (partnersOf q key xs)) xs

/-- The list has both kinds under the key of the entry, which is of one of them. -/
def paired (xs : List α) (a : α) : Bool :=
  (p a && xs.any fun b => q b && key b = key a) || (q a && xs.any fun b => p b && key b = key a)

/-- What is marked at `j` after `k` turns. -/
def PairedBy (xs : List α) (k j : ℕ) (a : α) : Prop :=
  (p a ∧ j < k ∧ ∃ b ∈ xs, q b ∧ key b = key a) ∨ (q a ∧ ∃ b ∈ xs.take k, p b ∧ key b = key a)

variable {p q key mark}

theorem partnersOf_eq_nil {xs : List α} {k : κ} :
    partnersOf q key xs k = [] ↔ ¬ ∃ b ∈ xs, q b ∧ key b = k := by
  rw [List.eq_nil_iff_forall_not_mem, not_exists]
  simp only [partnersOf, mem_positions, Bool.and_eq_true, decide_eq_true_eq]
  constructor
  · rintro h b ⟨hb, hkey⟩
    obtain ⟨i, hi⟩ := List.mem_iff_getElem?.1 hb
    exact h i ⟨b, hi, hkey⟩
  · rintro h i ⟨b, hi, hkey⟩
    exact h b ⟨List.mem_of_getElem? hi, hkey⟩

/-- What a turn adds: the entry at `k` and its partners, if it has any. -/
theorem pairedBy_succ {xs : List α} {k j : ℕ} {a b : α} (hk : xs[k]? = some a)
    (hj : xs[j]? = some b) : PairedBy p q key xs (k + 1) j b ↔ PairedBy p q key xs k j b ∨
      (p a ∧ partnersOf q key xs (key a) ≠ [] ∧ (j = k ∨ q b ∧ key b = key a)) := by
  have htake : xs.take (k + 1) = xs.take k ++ [a] := by
    rw [List.take_add_one, hk, Option.toList_some]
  have hpartner : partnersOf q key xs (key a) ≠ [] ↔ ∃ c ∈ xs, q c ∧ key c = key a := by
    rw [Ne, partnersOf_eq_nil, not_not]
  rw [hpartner]
  unfold PairedBy
  rw [htake]
  constructor
  · rintro (⟨hpb, hlt, h⟩ | ⟨hqb, c, hc, hpc, hkey⟩)
    · rcases Nat.lt_succ_iff_lt_or_eq.1 hlt with hlt | rfl
      · exact .inl (.inl ⟨hpb, hlt, h⟩)
      · obtain rfl := Option.some.inj (hk.symm.trans hj)
        exact .inr ⟨hpb, h, .inl rfl⟩
    · rcases List.mem_append.1 hc with hc | hc
      · exact .inl (.inr ⟨hqb, c, hc, hpc, hkey⟩)
      · obtain rfl := List.mem_singleton.1 hc
        exact .inr ⟨hpc, ⟨b, List.mem_of_getElem? hj, hqb, hkey.symm⟩, .inr ⟨hqb, hkey.symm⟩⟩
  · rintro ((⟨hpb, hlt, h⟩ | ⟨hqb, c, hc, h⟩) | ⟨hpa, h, rfl | ⟨hqb, hkey⟩⟩)
    · exact .inl ⟨hpb, by omega, h⟩
    · exact .inr ⟨hqb, c, List.mem_append_left _ hc, h⟩
    · obtain rfl := Option.some.inj (hk.symm.trans hj)
      exact .inl ⟨hpa, by omega, h⟩
    · exact .inr ⟨hqb, a, by simp, hpa, hkey.symm⟩

open Classical in
/-- One turn, as long as the entries are marked as they should be. -/
theorem getElem?_pairStep (hmark : ∀ a, mark (mark a) = mark a) (hp : ∀ a, p (mark a) = false)
    (hpq : ∀ a, p a → q a = false) {xs ys : List α} {k : ℕ} {a : α} (hk : xs[k]? = some a)
    (hys : ∀ j, ys[j]? = xs[j]?.map fun b => if PairedBy p q key xs k j b then mark b else b)
    (j : ℕ) : (pairStep p key mark (partnersOf q key xs) ys k)[j]? =
      xs[j]?.map fun b => if PairedBy p q key xs (k + 1) j b then mark b else b := by
  have hyk := hys k
  rw [hk, Option.map_some] at hyk
  by_cases hturn : p a ∧ partnersOf q key xs (key a) ≠ []
  · -- the entry itself is not marked before its turn
    have hbefore : ¬ PairedBy p q key xs k k a := by
      rintro (⟨-, hlt, -⟩ | ⟨hqa, -⟩)
      · exact absurd hlt (Nat.lt_irrefl k)
      · exact absurd hqa (by simp [hpq a hturn.1])
    have hstep : pairStep p key mark (partnersOf q key xs) ys k =
        markAt mark (k :: partnersOf q key xs (key a)) ys := by
      simp [pairStep, hyk, hbefore, hturn.1, hturn.2]
    rw [hstep, getElem?_markAt hmark, hys, Option.map_map]
    refine Option.map_congr fun b hb => ?_
    have hmem : j ∈ k :: partnersOf q key xs (key a) ↔ j = k ∨ q b ∧ key b = key a := by
      rw [List.mem_cons, partnersOf, mem_positions]
      simp [hb]
    have hiff := (pairedBy_succ hk hb : PairedBy p q key xs (k + 1) j b ↔ _)
    by_cases hbk : PairedBy p q key xs k j b <;>
      by_cases hj : j = k ∨ q b ∧ key b = key a <;> simp [hmem, hiff, hturn, hbk, hj, hmark]
  · have hstep : pairStep p key mark (partnersOf q key xs) ys k = ys := by
      unfold pairStep
      rw [hyk]
      dsimp only
      split
      · simp [hp]
      · by_cases hpa : p a
        · simp [hpa, not_not.1 fun h => hturn ⟨hpa, h⟩]
        · simp [hpa]
    rw [hstep, hys]
    refine Option.map_congr fun b hb => ?_
    have hiff : PairedBy p q key xs k j b ↔ PairedBy p q key xs (k + 1) j b := by
      rw [pairedBy_succ hk hb, ← and_assoc]
      exact ⟨.inl, fun h => h.resolve_right fun h' => hturn h'.1⟩
    simp only [hiff]

open Classical in
theorem getElem?_markLoop (hmark : ∀ a, mark (mark a) = mark a) (hp : ∀ a, p (mark a) = false)
    (hpq : ∀ a, p a → q a = false) (xs : List α) {k : ℕ} (hk : k ≤ xs.length) (j : ℕ) :
    ((List.range k).foldl (pairStep p key mark (partnersOf q key xs)) xs)[j]? =
      xs[j]?.map fun b => if PairedBy p q key xs k j b then mark b else b := by
  induction k generalizing j with
  | zero =>
    simp [PairedBy]
  | succ k ih =>
    rw [List.range_succ, List.foldl_append, List.foldl_cons, List.foldl_nil]
    exact getElem?_pairStep hmark hp hpq (List.getElem?_eq_getElem (by omega))
      (ih (by omega)) j

/-- **Order does not matter**: the loop marks the entries that have a partner. -/
theorem markPairs_eq_map (hmark : ∀ a, mark (mark a) = mark a) (hp : ∀ a, p (mark a) = false)
    (hpq : ∀ a, p a → q a = false) (xs : List α) :
    markPairs p q key mark xs = xs.map fun a => if paired p q key xs a then mark a else a := by
  classical
  refine List.ext_getElem? fun j => ?_
  rw [markPairs, getElem?_markLoop hmark hp hpq xs (Nat.le_refl _), List.getElem?_map]
  refine Option.map_congr fun a ha => ?_
  have hiff : PairedBy p q key xs xs.length j a ↔ paired p q key xs a := by
    have hlt := (List.getElem?_eq_some_iff.1 ha).1
    simp [PairedBy, paired, hlt]
  simp only [hiff]

end

end TodDl.Lib
