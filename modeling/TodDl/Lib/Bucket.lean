/-
  Bucket sort.

  Elements are put one by one at the end of the bucket of their key, and the
  buckets are read in the order of their keys.  What comes out is what went in,
  sorted by key, and within a key in the order in which it came.
-/
import Mathlib.Data.List.Sort
import Mathlib.Data.List.Lex
import Mathlib.Data.Prod.Lex

namespace TodDl.Lib

variable {α κ : Type*}

section
variable [DecidableEq κ]

/-- Puts an element into the bucket of its key. -/
def put (k : κ) (a : α) : List (κ × List α) → List (κ × List α)
  | [] => [(k, [a])]
  | b :: bs => if b.1 = k then (k, b.2 ++ [a]) :: bs else b :: put k a bs

theorem keys_put (k : κ) (a : α) (bs : List (κ × List α)) :
    (put k a bs).map (·.1) = if k ∈ bs.map (·.1) then bs.map (·.1) else bs.map (·.1) ++ [k] := by
  induction bs with
  | nil => rfl
  | cons b bs ih =>
    rw [put]
    by_cases hk : b.1 = k
    · simp [hk]
    · rw [if_neg hk, List.map_cons, ih, List.map_cons]
      have hk' : k ≠ b.1 := fun h => hk h.symm
      split <;> simp_all

theorem nodup_put (k : κ) (a : α) {bs : List (κ × List α)} (h : (bs.map (·.1)).Nodup) :
    ((put k a bs).map (·.1)).Nodup := by
  rw [keys_put]
  split
  · exact h
  · next hk => exact List.nodup_append.2 ⟨h, List.nodup_singleton k, by
      rintro x hx _ hy rfl
      exact hk (List.mem_singleton.1 hy ▸ hx)⟩

theorem perm_put (k : κ) (a : α) (bs : List (κ × List α)) :
    ((put k a bs).flatMap (·.2)).Perm (bs.flatMap (·.2) ++ [a]) := by
  induction bs with
  | nil => exact .refl _
  | cons b bs ih =>
    rw [put]
    split
    · rw [List.flatMap_cons, List.flatMap_cons, List.append_assoc, List.append_assoc]
      exact .append_left _ (List.perm_append_comm)
    · rw [List.flatMap_cons, List.flatMap_cons, List.append_assoc]
      exact ih.append_left _

/-- What a bucket holds after one more element. -/
theorem mem_put {k : κ} {a : α} {bs : List (κ × List α)} {b : κ × List α} (hb : b ∈ put k a bs) :
    b ∈ bs ∨ b.1 = k ∧ ∃ l, b.2 = l ++ [a] ∧ ((k, l) ∈ bs ∨ l = []) := by
  induction bs with
  | nil =>
    obtain rfl := List.mem_singleton.1 hb
    exact .inr ⟨rfl, [], rfl, .inr rfl⟩
  | cons b' bs ih =>
    rw [put] at hb
    split at hb
    · next hk =>
      rcases List.mem_cons.1 hb with rfl | hb
      · exact .inr ⟨rfl, b'.2, rfl, .inl (by rw [← hk]; exact List.mem_cons_self)⟩
      · exact .inl (List.mem_cons_of_mem _ hb)
    · rcases List.mem_cons.1 hb with rfl | hb
      · exact .inl List.mem_cons_self
      · rcases ih hb with hb | ⟨hk, l, hl, hmem⟩
        · exact .inl (List.mem_cons_of_mem _ hb)
        · exact .inr ⟨hk, l, hl, hmem.imp_left (List.mem_cons_of_mem _)⟩

/-- The elements of a bucket have its key and are in the order they were put. -/
structure Bucketed (key : α → κ) (R : α → α → Prop) (bs : List (κ × List α)) : Prop where
  nodup : (bs.map (·.1)).Nodup
  key : ∀ b ∈ bs, ∀ a ∈ b.2, key a = b.1
  sorted : ∀ b ∈ bs, b.2.Pairwise R

theorem Bucketed.put {key : α → κ} {R : α → α → Prop} {bs : List (κ × List α)}
    (h : Bucketed key R bs) {a : α} (ha : ∀ b ∈ bs, ∀ x ∈ b.2, R x a) :
    Bucketed key R (put (key a) a bs) := by
  refine ⟨nodup_put _ _ h.nodup, fun b hb => ?_, fun b hb => ?_⟩
  · rcases mem_put hb with hb | ⟨hk, l, hl, hmem⟩
    · exact h.key b hb
    · rw [hl, hk]
      intro x hx
      rcases List.mem_append.1 hx with hx | hx
      · rcases hmem with hmem | rfl
        · exact h.key _ hmem x hx
        · cases hx
      · rw [List.mem_singleton.1 hx]
  · rcases mem_put hb with hb | ⟨hk, l, hl, hmem⟩
    · exact h.sorted b hb
    · rw [hl]
      refine List.pairwise_append.2 ⟨?_, List.pairwise_singleton R a, fun x hx y hy => ?_⟩
      · rcases hmem with hmem | rfl
        · exact h.sorted _ hmem
        · exact .nil
      · rw [List.mem_singleton.1 hy]
        rcases hmem with hmem | rfl
        · exact ha _ hmem x hx
        · cases hx

/-- Puts elements one after another. -/
def puts (key : α → κ) (bs : List (κ × List α)) (as : List α) : List (κ × List α) :=
  as.foldl (fun bs a => put (key a) a bs) bs

theorem perm_puts (key : α → κ) (bs : List (κ × List α)) (as : List α) :
    ((puts key bs as).flatMap (·.2)).Perm (bs.flatMap (·.2) ++ as) := by
  induction as generalizing bs with
  | nil => simp [puts]
  | cons a as ih =>
    refine (ih (put (key a) a bs)).trans ?_
    rw [← List.singleton_append, ← List.append_assoc]
    exact (perm_put _ _ _).append_right _

theorem Bucketed.puts {key : α → κ} {R : α → α → Prop} {bs : List (κ × List α)} {as : List α}
    (h : Bucketed key R bs) (hbs : ∀ b ∈ bs, ∀ x ∈ b.2, ∀ a ∈ as, R x a) (has : as.Pairwise R) :
    Bucketed key R (puts key bs as) := by
  induction as generalizing bs with
  | nil => exact h
  | cons a as ih =>
    obtain ⟨ha, has⟩ := List.pairwise_cons.1 has
    refine ih (h.put fun b hb x hx => hbs b hb x hx a List.mem_cons_self) ?_ has
    intro b hb x hx y hy
    rcases mem_put hb with hb | ⟨-, l, hl, hmem⟩
    · exact hbs b hb x hx y (List.mem_cons_of_mem _ hy)
    · rw [hl] at hx
      rcases List.mem_append.1 hx with hx | hx
      · rcases hmem with hmem | rfl
        · exact hbs _ hmem x hx y (List.mem_cons_of_mem _ hy)
        · cases hx
      · rw [List.mem_singleton.1 hx]
        exact ha y hy

theorem bucketed_puts (key : α → κ) {R : α → α → Prop} {as : List α} (h : as.Pairwise R) :
    Bucketed key R (puts key [] as) :=
  Bucketed.puts ⟨List.nodup_nil, by simp, by simp⟩ (by simp) h

end

section
variable [LinearOrder κ]

/-- The elements of the buckets, bucket by bucket in the order of the keys. -/
def collect (bs : List (κ × List α)) : List α :=
  (bs.insertionSort fun b c => b.1 ≤ c.1).flatMap (·.2)

theorem perm_collect (bs : List (κ × List α)) : (collect bs).Perm (bs.flatMap (·.2)) :=
  (List.perm_insertionSort _ bs).flatMap_right _

/-- **Collecting sorts** by key first, then by the order within a bucket. -/
theorem pairwise_collect {key : α → κ} {R : α → α → Prop} {bs : List (κ × List α)}
    (h : Bucketed key R bs) :
    (collect bs).Pairwise fun a b => key a < key b ∨ key a = key b ∧ R a b := by
  have hperm := List.perm_insertionSort (fun b c : κ × List α => b.1 ≤ c.1) bs
  have hmem : ∀ b ∈ bs.insertionSort fun b c => b.1 ≤ c.1, b ∈ bs := fun _ hb => hperm.subset hb
  have hnodup := (hperm.map (·.1)).nodup_iff.2 h.nodup
  have hsorted := List.pairwise_insertionSort (r := fun b c : κ × List α => b.1 ≤ c.1) bs
  rw [collect, List.pairwise_flatMap]
  refine ⟨fun b hb => ?_, ?_⟩
  · -- within a bucket
    refine (h.sorted b (hmem b hb)).imp_of_mem fun ha hc hr => .inr ⟨?_, hr⟩
    rw [h.key b (hmem b hb) _ ha, h.key b (hmem b hb) _ hc]
  · -- across buckets, whose keys differ
    have hlt := (List.pairwise_map.1 hnodup).and hsorted
    refine hlt.imp_of_mem fun hb hc hle x hx y hy => .inl ?_
    rw [h.key _ (hmem _ hb) x hx, h.key _ (hmem _ hc) y hy]
    exact lt_of_le_of_ne hle.2 hle.1

end

end TodDl.Lib
