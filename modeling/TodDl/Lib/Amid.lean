/-
  Programs amid others.

  Before each step of a program, and after its last one, other parties take any number of
  steps that respect a relation `S`.  `p.Amid S w x w'`: started in `w`, the program has
  come to `w'`; it has ended with `x`, or it has not ended when `x` is `none`.

  `amid_bind` and `amid_handle` take a run apart.  `Amid.absorb`: a program all of whose
  steps respect `S` is one of the others.
-/
import Mathlib.Logic.Relation
import TodDl.Lib.Prog

namespace TodDl.Lib.Prog

open Relation (ReflTransGen)

variable {W E ε α β : Type}

/-- A run amid others, as far as it has come. -/
def Amid (S : W → W → Prop) : Prog W E ε α → W → Option (Except ε α) → W → Prop
  | .ret a, w, x, w' => (x = none ∨ x = some (.ok a)) ∧ ReflTransGen S w w'
  | .raise y, w, x, w' => (x = none ∨ x = some (.error y)) ∧ ReflTransGen S w w'
  | .act f k, w, x, w' => x = none ∧ ReflTransGen S w w' ∨
      ∃ w₁ e, ReflTransGen S w w₁ ∧ (k (f w₁ e).1).Amid S (f w₁ e).2 x w'

section
variable {S : W → W → Prop} {p : Prog W E ε α} {q : α → Prog W E ε β} {w w₁ w' : W}

/-- The others may have acted before. -/
theorem Amid.after {x : Option (Except ε α)} (hS : ReflTransGen S w w₁) (h : p.Amid S w₁ x w') :
    p.Amid S w x w' := by
  cases p with
  | ret a => exact ⟨h.1, hS.trans h.2⟩
  | raise y => exact ⟨h.1, hS.trans h.2⟩
  | act f k =>
    rcases h with ⟨hx, h⟩ | ⟨w₂, e, h, hk⟩
    · exact .inl ⟨hx, hS.trans h⟩
    · exact .inr ⟨w₂, e, hS.trans h, hk⟩

/-- And they may act on. -/
theorem Amid.before {x : Option (Except ε α)} (h : p.Amid S w x w₁) (hS : ReflTransGen S w₁ w') :
    p.Amid S w x w' := by
  induction p generalizing w with
  | ret a => exact ⟨h.1, h.2.trans hS⟩
  | raise y => exact ⟨h.1, h.2.trans hS⟩
  | act f k ih =>
    rcases h with ⟨hx, h⟩ | ⟨w₂, e, h, hk⟩
    · exact .inl ⟨hx, h.trans hS⟩
    · exact .inr ⟨w₂, e, h, ih _ hk⟩

/-- **A sequence**: the second program runs after the first one has ended; else the first one
    has not ended, or it has raised. -/
theorem amid_bind {x : Option (Except ε β)} (h : (p.bind q).Amid S w x w') :
    (∃ a w₁, p.Amid S w (some (.ok a)) w₁ ∧ (q a).Amid S w₁ x w') ∨
      (x = none ∧ p.Amid S w none w') ∨
      ∃ y, x = some (.error y) ∧ p.Amid S w (some (.error y)) w' := by
  induction p generalizing w with
  | ret a => exact .inl ⟨a, w, ⟨.inr rfl, .refl⟩, h⟩
  | raise y =>
    obtain ⟨rfl | rfl, hS⟩ := h
    · exact .inr (.inl ⟨rfl, .inl rfl, hS⟩)
    · exact .inr (.inr ⟨y, rfl, .inr rfl, hS⟩)
  | act f k ih =>
    rcases h with ⟨rfl, hS⟩ | ⟨w₁, e, hS, hk⟩
    · exact .inr (.inl ⟨rfl, .inl ⟨rfl, hS⟩⟩)
    · rcases ih _ hk with ⟨a, w₂, hp, hq⟩ | ⟨rfl, hp⟩ | ⟨y, rfl, hp⟩
      · exact .inl ⟨a, w₂, .inr ⟨w₁, e, hS, hp⟩, hq⟩
      · exact .inr (.inl ⟨rfl, .inr ⟨w₁, e, hS, hp⟩⟩)
      · exact .inr (.inr ⟨y, rfl, .inr ⟨w₁, e, hS, hp⟩⟩)

/-- A sequence that has ended well. -/
theorem amid_bind_ok {b : β} (h : (p.bind q).Amid S w (some (.ok b)) w') :
    ∃ a w₁, p.Amid S w (some (.ok a)) w₁ ∧ (q a).Amid S w₁ (some (.ok b)) w' := by
  rcases amid_bind h with h | ⟨h, -⟩ | ⟨y, h, -⟩
  · exact h
  · cases h
  · cases h

/-- A `try`: the program has ended well or not at all, or its exception is handled. -/
theorem amid_handle {handler : ε → Prog W E ε α} {x : Option (Except ε α)}
    (h : (p.handle handler).Amid S w x w') :
    p.Amid S w x w' ∨
      ∃ y w₁, p.Amid S w (some (.error y)) w₁ ∧ (handler y).Amid S w₁ x w' := by
  induction p generalizing w with
  | ret a => exact .inl h
  | raise y => exact .inr ⟨y, w, ⟨.inr rfl, .refl⟩, h⟩
  | act f k ih =>
    rcases h with h | ⟨w₁, e, hS, hk⟩
    · exact .inl (.inl h)
    · rcases ih _ hk with hp | ⟨y, w₂, hp, hh⟩
      · exact .inl (.inr ⟨w₁, e, hS, hp⟩)
      · exact .inr ⟨y, w₂, .inr ⟨w₁, e, hS, hp⟩, hh⟩

/-- A step that may raise. -/
theorem amid_call {f : W → E → Except ε β × W} {x : Option (Except ε β)}
    (h : (call f).Amid S w x w') : x = none ∧ ReflTransGen S w w' ∨
      ∃ w₁ e, ReflTransGen S w w₁ ∧ ReflTransGen S (f w₁ e).2 w' ∧
        (x = none ∨ x = some (f w₁ e).1) := by
  rcases h with h | ⟨w₁, e, hS, hk⟩
  · exact .inl h
  · refine .inr ⟨w₁, e, hS, ?_⟩
    dsimp only at hk
    split at hk
    · next b heq => exact ⟨hk.2, by rw [heq]; exact hk.1⟩
    · next y heq => exact ⟨hk.2, by rw [heq]; exact hk.1⟩

/-- **A program whose steps the others might take as well**. -/
theorem Amid.absorb {x : Option (Except ε α)} (h : p.Amid S w x w')
    (hp : p.Uses fun w _ w' => S w w') : ReflTransGen S w w' := by
  induction p generalizing w with
  | ret a => exact h.2
  | raise y => exact h.2
  | act f k ih =>
    rcases h with ⟨-, hS⟩ | ⟨w₁, e, hS, hk⟩
    · exact hS
    · exact (hS.tail (hp.1 w₁ e)).trans (ih _ hk (hp.2 _))

/-- Nobody else need act. -/
theorem Ends.amid {A : E → Prop} {x : Except ε α} (h : p.Ends A w x w') :
    p.Amid S w (some x) w' := by
  induction p generalizing w with
  | ret a =>
    obtain ⟨rfl, rfl⟩ := h
    exact ⟨.inr rfl, .refl⟩
  | raise y =>
    obtain ⟨rfl, rfl⟩ := h
    exact ⟨.inr rfl, .refl⟩
  | act f k ih =>
    obtain ⟨e, -, h⟩ := h
    exact .inr ⟨w, e, .refl, ih _ h⟩

end

end TodDl.Lib.Prog
