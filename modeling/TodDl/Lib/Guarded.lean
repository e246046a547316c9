/-
  Guarded runs of a transition system.

  A system is a partial step function on states and labels.  `GRun step C` are
  the runs all of whose steps meet the guard `C` (a condition on the state
  before the step and on the label).  `GRun.invariant` is the induction every
  safety result uses; `GRun.of_exec` turns a computed execution into a run.
-/
import Mathlib.Logic.Relation

namespace TodDl.Lib

variable {σ lab : Type*} {step : σ → lab → Option σ} {C : σ → lab → Prop}

/-- One step that meets the guard. -/
def GStep (step : σ → lab → Option σ) (C : σ → lab → Prop) (s s' : σ) : Prop :=
  ∃ l, C s l ∧ step s l = some s'

/-- Runs whose steps all meet the guard. -/
def GRun (step : σ → lab → Option σ) (C : σ → lab → Prop) : σ → σ → Prop :=
  Relation.ReflTransGen (GStep step C)

namespace GRun

theorem refl (s : σ) : GRun step C s s := Relation.ReflTransGen.refl

theorem trans {s s' s'' : σ} (h : GRun step C s s') (h' : GRun step C s' s'') :
    GRun step C s s'' := Relation.ReflTransGen.trans h h'

theorem tail {s s' s'' : σ} {l : lab} (h : GRun step C s s') (hC : C s' l)
    (hs : step s' l = some s'') : GRun step C s s'' :=
  Relation.ReflTransGen.tail h ⟨l, hC, hs⟩

/-- **Invariant rule.**  What holds at the start and is kept by every guarded
    step holds at the end of every guarded run. -/
theorem invariant {s s' : σ} (h : GRun step C s s') (Inv : σ → Prop) (h0 : Inv s)
    (hstep : ∀ t l t', Inv t → C t l → step t l = some t' → Inv t') : Inv s' := by
  induction h with
  | refl => exact h0
  | tail _ ht ih =>
    obtain ⟨l, hC, hs⟩ := ht
    exact hstep _ l _ ih hC hs

/-- The runs of a stronger guard are runs of a weaker one. -/
theorem mono {D : σ → lab → Prop} {s s' : σ} (h : GRun step C s s') (hCD : ∀ t l, C t l → D t l) :
    GRun step D s s' := by
  refine Relation.ReflTransGen.mono (fun t t' hstep => ?_) s s' h
  obtain ⟨l, hC, hs⟩ := hstep
  exact ⟨l, hCD t l hC, hs⟩

/-- A relation between the ends that every step respects, on states that keep
    an invariant. -/
theorem monotone {s s' : σ} (h : GRun step C s s') (Inv : σ → Prop) (R : σ → σ → Prop)
    (h0 : Inv s) (hrefl : ∀ t, R t t) (htrans : ∀ a b c, R a b → R b c → R a c)
    (hstep : ∀ t l t', Inv t → C t l → step t l = some t' → Inv t' ∧ R t t') :
    Inv s' ∧ R s s' := by
  induction h with
  | refl => exact ⟨h0, hrefl _⟩
  | tail _ ht ih =>
    obtain ⟨l, hC, hs⟩ := ht
    obtain ⟨hi, hr⟩ := hstep _ l _ ih.1 hC hs
    exact ⟨hi, htrans _ _ _ ih.2 hr⟩

end GRun

/-- The state after executing the labels, if every one is enabled and meets
    the guard. -/
def exec (step : σ → lab → Option σ) (C : σ → lab → Prop) [∀ s l, Decidable (C s l)] :
    σ → List lab → Option σ
  | s, [] => some s
  | s, l :: ls => if C s l then (step s l).bind fun s' => exec step C s' ls else none

theorem GRun.of_exec [∀ s l, Decidable (C s l)] {ls : List lab} {s s' : σ}
    (h : exec step C s ls = some s') : GRun step C s s' := by
  induction ls generalizing s with
  | nil => cases h; exact .refl _
  | cons l ls ih =>
    simp only [exec] at h
    split at h
    · next hC =>
      obtain ⟨t, ht, h⟩ := Option.bind_eq_some_iff.1 h
      exact (GRun.refl s |>.tail hC ht).trans (ih h)
    · cases h

end TodDl.Lib
