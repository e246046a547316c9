/-
  Programs with phases.

  Between two of its steps a party may hold something that the others must respect, and
  what is left of its program says whether it does.  `Phases` gives the phases: what is
  true of the world in each of them, and which steps may lead from one to another.
  `p.Phased P Fin m`: what is left is `p`, in the phase `m`, and it ends in a phase that
  `Fin` allows.  Others may act between its steps, as long as `P.now m` stays true.

  `Phased.bind`, `Phased.handle`: a part of a program ends in the phase in which the next
  part starts.  `phased_of_uses`: a program that stays in its phase.
-/
import TodDl.Lib.Prog

namespace TodDl.Lib

/-- Phases of programs on a world. -/
structure Phases (W E M : Type) where
  /-- what is true in a phase -/
  now : M → W → Prop
  /-- the steps that lead from one phase to another -/
  go : M → W → E → W → M → Prop

/-- A step that leads to a phase, and what is true there. -/
def Phases.Leads {W E M : Type} (P : Phases W E M) (m : M) (w : W) (e : E) (w' : W) (m' : M) : Prop :=
  P.go m w e w' m' ∧ P.now m' w'

namespace Prog

variable {W E ε α β M : Type} {P : Phases W E M}

/-- The program is in a phase. -/
def Phased (P : Phases W E M) (Fin : M → Except ε α → Prop) : Prog W E ε α → M → Prop
  | .ret a, m => Fin m (.ok a)
  | .raise x, m => Fin m (.error x)
  | .act f k, m => ∀ w e, P.now m w →
      ∃ m', P.Leads m w e (f w e).2 m' ∧ (k (f w e).1).Phased P Fin m'

section
variable {Fin Gin : M → Except ε α → Prop} {Hin : M → Except ε β → Prop} {p : Prog W E ε α}
  {q : α → Prog W E ε β} {m : M}

theorem Phased.mono (hp : p.Phased P Fin m) (h : ∀ m x, Fin m x → Gin m x) : p.Phased P Gin m := by
  induction p generalizing m with
  | ret a => exact h _ _ hp
  | raise x => exact h _ _ hp
  | act f k ih =>
    intro w e hw
    obtain ⟨m', hleads, hk⟩ := hp w e hw
    exact ⟨m', hleads, ih _ hk⟩

/-- **A sequence**: the second program starts in the phase in which the first one ends. -/
theorem Phased.bind (hp : p.Phased P Fin m) (hq : ∀ m a, Fin m (.ok a) → (q a).Phased P Hin m)
    (hx : ∀ m x, Fin m (.error x) → Hin m (.error x)) : (p.bind q).Phased P Hin m := by
  induction p generalizing m with
  | ret a => exact hq m a hp
  | raise x => exact hx m x hp
  | act f k ih =>
    intro w e hw
    obtain ⟨m', hleads, hk⟩ := hp w e hw
    exact ⟨m', hleads, ih _ hk⟩

/-- **A handler** starts in the phase in which the exception was raised. -/
theorem Phased.handle {h : ε → Prog W E ε α} (hp : p.Phased P Fin m)
    (hok : ∀ m a, Fin m (.ok a) → Gin m (.ok a))
    (hh : ∀ m x, Fin m (.error x) → (h x).Phased P Gin m) : (p.handle h).Phased P Gin m := by
  induction p generalizing m with
  | ret a => exact hok m a hp
  | raise x => exact hh m x hp
  | act f k ih =>
    intro w e hw
    obtain ⟨m', hleads, hk⟩ := hp w e hw
    exact ⟨m', hleads, ih _ hk⟩

/-- A program that stays in its phase. -/
theorem phased_of_uses {R : W → E → W → Prop} (hp : p.Uses R)
    (h : ∀ w e w', P.now m w → R w e w' → P.Leads m w e w' m) (hfin : ∀ x, Fin m x) :
    p.Phased P Fin m := by
  induction p with
  | ret a => exact hfin _
  | raise x => exact hfin _
  | act f k ih => exact fun w e hw => ⟨m, h w e _ hw (hp.1 w e), ih _ (hp.2 _)⟩

theorem phased_call {f : W → E → Except ε α × W}
    (h : ∀ w e, P.now m w → ∃ m', P.Leads m w e (f w e).2 m' ∧ Fin m' (f w e).1) :
    (call f).Phased P Fin m := by
  intro w e hw
  obtain ⟨m', hleads, hfin⟩ := h w e hw
  refine ⟨m', hleads, ?_⟩
  generalize (f w e).1 = x at hfin ⊢
  cases x with
  | ok a => exact hfin
  | error x => exact hfin

end

end Prog

end TodDl.Lib
