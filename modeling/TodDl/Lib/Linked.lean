/-
  Linked lists of records: each record leads from a source to a target, and the
  source of a record is the target of the record before it.

  `Linked src dst b l b'` says that the records `l` lead from `b` to `b'`.  A
  digest chain (source: the previous digest, target: the own digest) and a
  status history (source: the old status, target: the new one) are instances.
-/
import Mathlib.Data.List.Forall2
import Mathlib.Data.List.Induction

namespace TodDl.Lib

variable {α β : Type*} {src dst : α → β}

/-- The records of the list lead from the first argument to the last one. -/
def Linked (src dst : α → β) : β → List α → β → Prop
  | b, [], b' => b = b'
  | b, a :: l, b' => src a = b ∧ Linked src dst (dst a) l b'

instance [DecidableEq β] : ∀ (b : β) (l : List α) (b' : β), Decidable (Linked src dst b l b')
  | b, [], b' => inferInstanceAs (Decidable (b = b'))
  | b, a :: l, b' =>
    have := instDecidableLinkedOfDecidableEq (dst a) l b'
    inferInstanceAs (Decidable (src a = b ∧ Linked src dst (dst a) l b'))

@[simp] theorem linked_nil {b b' : β} : Linked src dst b [] b' ↔ b = b' := Iff.rfl

@[simp] theorem linked_cons {b b' : β} {a : α} {l : List α} :
    Linked src dst b (a :: l) b' ↔ src a = b ∧ Linked src dst (dst a) l b' := Iff.rfl

theorem linked_append {l₁ l₂ : List α} {b b' : β} :
    Linked src dst b (l₁ ++ l₂) b' ↔
      ∃ c, Linked src dst b l₁ c ∧ Linked src dst c l₂ b' := by
  induction l₁ generalizing b with
  | nil => simp
  | cons a l ih => simp only [List.cons_append, linked_cons, ih]; grind

/-- A map that keeps both ends of each record keeps the chain. -/
theorem linked_map {f : α → α} {l : List α} (hsrc : ∀ a ∈ l, src (f a) = src a)
    (hdst : ∀ a ∈ l, dst (f a) = dst a) {b b' : β} :
    Linked src dst b (l.map f) b' ↔ Linked src dst b l b' := by
  induction l generalizing b with
  | nil => exact Iff.rfl
  | cons a l ih =>
    rw [List.forall_mem_cons] at hsrc hdst
    rw [List.map_cons, linked_cons, linked_cons, hsrc.1, hdst.1, ih hsrc.2 hdst.2]

/-- Appending one record to a linked list. -/
theorem linked_concat {l : List α} {a : α} {b c : β} (h : Linked src dst b l c) :
    Linked src dst b (l ++ [a]) (dst a) ↔ src a = c := by
  induction l generalizing b with
  | nil => rw [linked_nil] at h; subst h; simp
  | cons a' l ih => simp only [List.cons_append, linked_cons] at h ⊢; simp [h.1, ih h.2]

/-- The end of a linked list is the target of its last record. -/
theorem Linked.end_eq {l : List α} {b c : β} (h : Linked src dst b l c) :
    c = (l.getLast?.map dst).getD b := by
  induction l generalizing b with
  | nil => exact h.symm
  | cons a l ih =>
    rw [ih h.2, List.getLast?_cons]
    cases l.getLast? <;> rfl

/-- **A chain from its end.**  Where the target of a record determines the record up
    to `R`, and with it its source, two chains from one start to one end agree. -/
theorem Linked.forall₂ {R : α → α → Prop} {l l' : List α} {start b : β}
    (hR : ∀ a ∈ l, ∀ a' ∈ l', dst a = dst a' → R a a') (hsrc : ∀ a a', R a a' → src a = src a')
    (hl : ∀ a ∈ l, dst a ≠ start) (hl' : ∀ a ∈ l', dst a ≠ start)
    (h : Linked src dst start l b) (h' : Linked src dst start l' b) : List.Forall₂ R l l' := by
  induction l using List.reverseRecOn generalizing l' b with
  | nil =>
    rcases List.eq_nil_or_concat l' with rfl | ⟨l', a', rfl⟩
    · exact .nil
    · rw [List.concat_eq_append, linked_append] at h'
      obtain ⟨c, -, -, hb⟩ := h'
      exact absurd (hb.trans h.symm) (hl' a' (by simp))
  | append_singleton l a ih =>
    obtain ⟨c, hc, hac, hb⟩ := linked_append.1 h
    rcases List.eq_nil_or_concat l' with rfl | ⟨l', a', rfl⟩
    · exact absurd (hb.trans h'.symm) (hl a (by simp))
    · rw [List.concat_eq_append, linked_append] at h'
      rw [List.concat_eq_append] at hR hl' ⊢
      obtain ⟨c', hc', hac', hb'⟩ := h'
      have haa' : R a a' := hR a (by simp) a' (by simp) (hb.trans hb'.symm)
      obtain rfl : c = c' := hac.symm.trans ((hsrc a a' haa').trans hac')
      have hrest := ih (fun x hx y hy => hR x (by simp [hx]) y (by simp [hy]))
        (fun x hx => hl x (by simp [hx])) (fun y hy => hl' y (by simp [hy])) hc hc'
      exact List.rel_append hrest (.cons haa' .nil)

end TodDl.Lib
