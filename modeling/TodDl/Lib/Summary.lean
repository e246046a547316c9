/-
  Summaries of keyed lists.

  `total f l` adds up a contribution of every entry.  Replacing the entry of one
  key changes the total by the difference of the two contributions, so a summary
  can follow the list entry by entry without reading it again.
-/
import Mathlib.Algebra.BigOperators.Group.List.Basic
import Mathlib.Tactic.Abel
import TodDl.Lib.Table

namespace TodDl.Lib

variable {α κ M : Type*} [DecidableEq κ]

/-- Replace the entry of a key. -/
def replaceKey (key : α → κ) (a : α) (l : List α) : List α :=
  l.map fun x => if key x = key a then a else x

theorem map_key_replaceKey (key : α → κ) (a : α) (l : List α) :
    (replaceKey key a l).map key = l.map key := by
  simp only [replaceKey, List.map_map]
  refine List.map_congr_left fun x _ => ?_
  simp only [Function.comp]
  split
  · next h => exact h.symm
  · rfl

/-- A key that is not there is not replaced. -/
theorem replaceKey_of_notMem {key : α → κ} {a : α} {l : List α} (h : key a ∉ l.map key) :
    replaceKey key a l = l := by
  refine (List.map_congr_left fun x hx => if_neg fun hk => h ?_).trans (List.map_id l)
  exact List.mem_map.2 ⟨x, hx, hk⟩

/-- The sum of the contributions of all entries. -/
def total [AddCommMonoid M] (f : α → M) (l : List α) : M := (l.map f).sum

/-- Replacing entries by one with the same contribution keeps the total. -/
theorem total_replaceKey_of_eq [AddCommMonoid M] {key : α → κ} (f : α → M) {l : List α} {b : α}
    (h : ∀ x ∈ l, key x = key b → f x = f b) : total f (replaceKey key b l) = total f l := by
  simp only [total, replaceKey, List.map_map]
  refine congrArg List.sum (List.map_congr_left fun x hx => ?_)
  simp only [Function.comp]
  split
  · next hk => exact (h x hx hk).symm
  · rfl

/-- **Incremental totals.**  Replacing the entry `a` by `b` of the same key adds
    the difference of their contributions. -/
theorem total_replaceKey [AddCommGroup M] {key : α → κ} (f : α → M) {l : List α} {a b : α}
    (h : (l.map key).Nodup) (ha : a ∈ l) (hk : key b = key a) :
    total f (replaceKey key b l) = total f l - f a + f b := by
  induction l with
  | nil => cases ha
  | cons x l ih =>
    rw [List.map_cons, List.nodup_cons] at h
    rcases List.mem_cons.1 ha with rfl | ha
    · have hrest : replaceKey key b l = l := replaceKey_of_notMem (hk ▸ h.1)
      simp only [replaceKey] at hrest
      simp only [total, replaceKey, List.map_cons, hk, if_true, List.sum_cons, hk ▸ hrest]
      abel
    · have hx : key x ≠ key b := fun hx =>
        h.1 (List.mem_map.2 ⟨a, ha, by rw [hx, hk]⟩)
      have := ih h.2 ha
      simp only [total, replaceKey, List.map_cons, if_neg hx, List.sum_cons] at this ⊢
      rw [this]
      abel

/-- With distinct keys the order of the list does not matter to a lookup. -/
theorem keyed?_perm {key : α → κ} {l l' : List α} (h : l.Perm l') (hn : (l.map key).Nodup) (k : κ) :
    keyed? key l k = keyed? key l' k := by
  refine Option.ext fun a => ?_
  rw [keyed?_eq_some hn, keyed?_eq_some ((h.map key).nodup_iff.1 hn), h.mem_iff]

/-- Looking up distinct keys, among them those of all entries, finds every entry once. -/
theorem filterMap_keyed?_perm {key : α → κ} {l : List α} {ks : List κ} (h : (l.map key).Nodup)
    (hks : ks.Nodup) (hsub : ∀ a ∈ l, key a ∈ ks) : (ks.filterMap (keyed? key l)).Perm l := by
  have hfound : (ks.filterMap (keyed? key l)).Nodup := by
    refine hks.filterMap fun k k' a ha ha' => ?_
    rw [← keyed?_key ha, ← keyed?_key ha']
  refine (List.perm_ext_iff_of_nodup hfound (List.Nodup.of_map key h)).2 fun a => ?_
  rw [List.mem_filterMap]
  constructor
  · rintro ⟨k, -, hk⟩
    exact keyed?_mem hk
  · exact fun ha => ⟨key a, hsub a ha, (keyed?_eq_some h).2 ⟨ha, rfl⟩⟩

/-- Lookup in what a function has made of a list of keys. -/
theorem keyed?_filterMap {key : α → κ} {f : κ → Option α} (hf : ∀ k a, f k = some a → key a = k)
    (ks : List κ) (k : κ) : keyed? key (ks.filterMap f) k = if k ∈ ks then f k else none := by
  induction ks with
  | nil => rfl
  | cons x ks ih =>
    rw [List.filterMap_cons]
    cases hx : f x with
    | none =>
      rw [ih]
      by_cases hk : k = x
      · subst hk
        simp [hx]
      · simp [hk]
    | some a =>
      simp only [keyed?, List.find?_cons, hf x a hx] at ih ⊢
      by_cases hk : x = k
      · subst hk
        simp [hx]
      · simp [hk, ih, Ne.symm hk]

/-- Lookup after a replacement. -/
theorem keyed?_replaceKey {key : α → κ} {a b : α} {l : List α} (ha : a ∈ l) (hk : key b = key a)
    (k : κ) : keyed? key (replaceKey key b l) k = if key b = k then some b else keyed? key l k := by
  have hcomp : ((fun x => decide (key x = k)) ∘ fun x => if key x = key b then b else x) =
      fun x => decide (key x = k) := by
    funext x
    simp only [Function.comp]
    split
    · next h => rw [h]
    · rfl
  have hmap : keyed? key (replaceKey key b l) k =
      (keyed? key l k).map fun x => if key x = key b then b else x := by
    simp only [keyed?, replaceKey, List.find?_map, hcomp]
  rw [hmap]
  split
  · next h =>
    obtain ⟨c, hc⟩ : ∃ c, keyed? key l k = some c := by
      rw [← h, hk]; exact keyed?_exists key ha
    simp [hc, (keyed?_key hc).trans h.symm]
  · next h =>
    cases hf : keyed? key l k with
    | none => rfl
    | some c => simp [show key c ≠ key b from fun e => h (e.symm.trans (keyed?_key hf))]

end TodDl.Lib
