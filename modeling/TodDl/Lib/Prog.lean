/-
  Programs of atomic steps.

  A `Prog W E ε α` takes atomic steps on a world `W`, each given an answer `E` of
  the environment, and ends with a value or an exception.  Between two steps
  other parties may act, and a crash may end the program for good.

  `Uses R`: every step the program can ever take, in whatever world, respects the
  relation `R`.  `Along A P p w`: run alone from `w` on answers in `A`, the program
  takes only steps that satisfy `P`.  `Ends A p w x w'`: run alone it can end with
  `x` in `w'`; `Passes A p w w'`: run alone it can be in `w'` when it is killed.
  `Becomes A p w q w'`: run alone it comes to the program `q` in `w'`.  `focus`: the
  program on a part of a larger world.
-/
import Mathlib.Logic.Basic

namespace TodDl.Lib

/-- A program of atomic steps. -/
inductive Prog (W E ε α : Type) : Type 1 where
  | ret (a : α)
  | raise (x : ε)
  | act {β : Type} (f : W → E → β × W) (k : β → Prog W E ε α)

namespace Prog
variable {W E ε α β γ : Type}

/-- Sequencing; an exception ends the sequence. -/
def bind (p : Prog W E ε α) (q : α → Prog W E ε β) : Prog W E ε β :=
  match p with
  | .ret a => q a
  | .raise x => .raise x
  | .act f k => .act f fun b => (k b).bind q

/-- `try p except h` -/
def handle (p : Prog W E ε α) (h : ε → Prog W E ε α) : Prog W E ε α :=
  match p with
  | .ret a => .ret a
  | .raise x => h x
  | .act f k => .act f fun b => (k b).handle h

instance : Monad (Prog W E ε) where
  pure := ret
  bind := bind

instance : MonadExceptOf ε (Prog W E ε) where
  throw := raise
  tryCatch := handle

/-- A step that may raise. -/
def call (f : W → E → Except ε β × W) : Prog W E ε β :=
  .act f fun
    | .ok b => .ret b
    | .error x => .raise x

/-- A step that only looks. -/
def look (f : W → E → β) : Prog W E ε β := .act (fun w e => (f w e, w)) .ret

/-- A step that only changes the world. -/
def change (f : W → E → W) : Prog W E ε Unit := .act (fun w e => ((), f w e)) .ret

/-- Runs the program and hands over the exceptions that are caught. -/
def attempt (catches : ε → Bool) (p : Prog W E ε α) : Prog W E ε (Except ε α) :=
  (p.bind fun a => .ret (.ok a)).handle fun x => if catches x then .ret (.error x) else .raise x

/-- `for a in as: body(a)` -/
def forEach (as : List α) (body : α → Prog W E ε Unit) : Prog W E ε Unit :=
  match as with
  | [] => .ret ()
  | a :: as => (body a).bind fun _ => forEach as body

@[simp] theorem bind_eq (p : Prog W E ε α) (q : α → Prog W E ε β) : p >>= q = p.bind q := rfl
@[simp] theorem pure_eq (a : α) : (pure a : Prog W E ε α) = .ret a := rfl
@[simp] theorem throw_eq (x : ε) : (throw x : Prog W E ε α) = .raise x := rfl
@[simp] theorem tryCatch_eq (p : Prog W E ε α) (h : ε → Prog W E ε α) :
    tryCatch p h = p.handle h := rfl
@[simp] theorem ret_bind (a : α) (q : α → Prog W E ε β) : (ret a).bind q = q a := rfl
@[simp] theorem raise_bind (x : ε) (q : α → Prog W E ε β) : (raise x).bind q = .raise x := rfl

theorem bind_assoc (p : Prog W E ε α) (q : α → Prog W E ε β) (r : β → Prog W E ε γ) :
    (p.bind q).bind r = p.bind fun a => (q a).bind r := by
  induction p with
  | ret a => rfl
  | raise x => rfl
  | act f k ih => exact congrArg (Prog.act f) (funext ih)

@[simp] theorem ret_handle (a : α) (h : ε → Prog W E ε α) : (ret a).handle h = .ret a := rfl
@[simp] theorem raise_handle (x : ε) (h : ε → Prog W E ε α) : (raise x).handle h = h x := rfl

/-- The run of the program alone on the given answers; none when they do not
    suffice. -/
def execute : Prog W E ε α → W → List E → Option (Except ε α × W)
  | .ret a, w, _ => some (.ok a, w)
  | .raise x, w, _ => some (.error x, w)
  | .act _ _, _, [] => none
  | .act f k, w, e :: es => (k (f w e).1).execute (f w e).2 es

/-! ## Steps in any world -/

/-- Every step of the program, in whatever world, respects `R`. -/
def Uses (R : W → E → W → Prop) : Prog W E ε α → Prop
  | .ret _ => True
  | .raise _ => True
  | .act f k => (∀ w e, R w e (f w e).2) ∧ ∀ b, (k b).Uses R

section
variable {R S : W → E → W → Prop} {p : Prog W E ε α} {q : α → Prog W E ε β}

@[simp] theorem uses_ret (a : α) : (ret a : Prog W E ε α).Uses R := trivial
@[simp] theorem uses_raise (x : ε) : (raise x : Prog W E ε α).Uses R := trivial

theorem Uses.bind (hp : p.Uses R) (hq : ∀ a, (q a).Uses R) : (p.bind q).Uses R := by
  induction p with
  | ret a => exact hq a
  | raise x => trivial
  | act f k ih => exact ⟨hp.1, fun b => ih b (hp.2 b)⟩

theorem Uses.handle {h : ε → Prog W E ε α} (hp : p.Uses R) (hh : ∀ x, (h x).Uses R) :
    (p.handle h).Uses R := by
  induction p with
  | ret a => trivial
  | raise x => exact hh x
  | act f k ih => exact ⟨hp.1, fun b => ih b (hp.2 b)⟩

theorem Uses.mono (hp : p.Uses R) (h : ∀ w e w', R w e w' → S w e w') : p.Uses S := by
  induction p with
  | ret a => trivial
  | raise x => trivial
  | act f k ih => exact ⟨fun w e => h _ _ _ (hp.1 w e), fun b => ih b (hp.2 b)⟩

theorem Uses.attempt {catches : ε → Bool} (hp : p.Uses R) : (p.attempt catches).Uses R := by
  refine Uses.handle (hp.bind fun a => uses_ret _) fun x => ?_
  split <;> trivial

theorem uses_call {f : W → E → Except ε β × W} (h : ∀ w e, R w e (f w e).2) : (call f).Uses R :=
  ⟨h, fun b => by cases b <;> trivial⟩

theorem uses_look (f : W → E → β) (h : ∀ w e, R w e w) : (look f : Prog W E ε β).Uses R :=
  ⟨fun w e => h w e, fun _ => trivial⟩

theorem uses_change {f : W → E → W} (h : ∀ w e, R w e (f w e)) :
    (change f : Prog W E ε Unit).Uses R := ⟨h, fun _ => trivial⟩

theorem uses_forEach {as : List α} {body : α → Prog W E ε Unit} (h : ∀ a ∈ as, (body a).Uses R) :
    (forEach as body).Uses R := by
  induction as with
  | nil => trivial
  | cons a as ih =>
    exact (h a List.mem_cons_self).bind fun _ => ih fun b hb => h b (List.mem_cons_of_mem _ hb)

end

/-! ## Runs of one program alone -/

section
variable (A : E → Prop)

/-- The program can end with a value or an exception in a world. -/
def Ends : Prog W E ε α → W → Except ε α → W → Prop
  | .ret a, w, x, w' => x = .ok a ∧ w' = w
  | .raise e, w, x, w' => x = .error e ∧ w' = w
  | .act f k, w, x, w' => ∃ e, A e ∧ Ends (k (f w e).1) (f w e).2 x w'

/-- The program can be in a world when it is killed. -/
def Passes : Prog W E ε α → W → W → Prop
  | .ret _, w, w' => w' = w
  | .raise _, w, w' => w' = w
  | .act f k, w, w' => w' = w ∨ ∃ e, A e ∧ Passes (k (f w e).1) (f w e).2 w'

/-- Every step of every run satisfies `P`. -/
def Along (P : W → E → W → Prop) : Prog W E ε α → W → Prop
  | .ret _, _ => True
  | .raise _, _ => True
  | .act f k, w => ∀ e, A e → P w e (f w e).2 ∧ Along P (k (f w e).1) (f w e).2

variable {A} {P : W → E → W → Prop} {p : Prog W E ε α} {q : α → Prog W E ε β} {w w' : W}

@[simp] theorem ends_ret {a : α} {x : Except ε α} :
    (ret a : Prog W E ε α).Ends A w x w' ↔ x = .ok a ∧ w' = w := Iff.rfl

@[simp] theorem ends_raise {e : ε} {x : Except ε α} :
    (raise e : Prog W E ε α).Ends A w x w' ↔ x = .error e ∧ w' = w := Iff.rfl

theorem Ends.mono {B : E → Prop} {x : Except ε α} (h : p.Ends A w x w') (hAB : ∀ e, A e → B e) :
    p.Ends B w x w' := by
  induction p generalizing w with
  | ret a => exact h
  | raise e => exact h
  | act f k ih =>
    obtain ⟨e, he, h⟩ := h
    exact ⟨e, hAB e he, ih _ h⟩

theorem ends_bind {x : Except ε β} : (p.bind q).Ends A w x w' ↔
    (∃ a w₁, p.Ends A w (.ok a) w₁ ∧ (q a).Ends A w₁ x w') ∨
      ∃ e, x = .error e ∧ p.Ends A w (.error e) w' := by
  induction p generalizing w with
  | ret a => simp [Ends, and_assoc]
  | raise e => simp [Ends, and_left_comm]
  | act f k ih =>
    simp only [bind, Ends, ih]
    constructor
    · rintro ⟨e, he, ⟨a, w₁, h, h'⟩ | ⟨y, rfl, h⟩⟩
      · exact .inl ⟨a, w₁, ⟨e, he, h⟩, h'⟩
      · exact .inr ⟨y, rfl, e, he, h⟩
    · rintro (⟨a, w₁, ⟨e, he, h⟩, h'⟩ | ⟨y, rfl, e, he, h⟩)
      · exact ⟨e, he, .inl ⟨a, w₁, h, h'⟩⟩
      · exact ⟨e, he, .inr ⟨y, rfl, h⟩⟩

theorem ends_handle {h : ε → Prog W E ε α} {x : Except ε α} : (p.handle h).Ends A w x w' ↔
    (∃ a, x = .ok a ∧ p.Ends A w (.ok a) w') ∨
      ∃ e w₁, p.Ends A w (.error e) w₁ ∧ (h e).Ends A w₁ x w' := by
  induction p generalizing w with
  | ret a => simp [Ends, and_left_comm]
  | raise e => simp [Ends, and_assoc]
  | act f k ih =>
    simp only [handle, Ends, ih]
    constructor
    · rintro ⟨e, he, ⟨a, rfl, h⟩ | ⟨y, w₁, h, h'⟩⟩
      · exact .inl ⟨a, rfl, e, he, h⟩
      · exact .inr ⟨y, w₁, ⟨e, he, h⟩, h'⟩
    · rintro (⟨a, rfl, e, he, h⟩ | ⟨y, w₁, ⟨e, he, h⟩, h'⟩)
      · exact ⟨e, he, .inl ⟨a, rfl, h⟩⟩
      · exact ⟨e, he, .inr ⟨y, w₁, h, h'⟩⟩

theorem ends_call {f : W → E → Except ε β × W} {x : Except ε β} :
    (call f).Ends A w x w' ↔ ∃ e, A e ∧ f w e = (x, w') := by
  constructor
  · rintro ⟨e, he, h⟩
    refine ⟨e, he, ?_⟩
    generalize f w e = y at h ⊢
    obtain ⟨b | b, w₁⟩ := y <;> simp only [ends_ret, ends_raise] at h <;> rw [h.1, h.2]
  · rintro ⟨e, he, h⟩
    refine ⟨e, he, ?_⟩
    rw [h]
    cases x <;> simp

theorem along_call {f : W → E → Except ε β × W} :
    (call f).Along A P w ↔ ∀ e, A e → P w e (f w e).2 := by
  refine forall_congr' fun e => imp_congr_right fun _ => and_iff_left ?_
  dsimp only
  split <;> trivial

theorem along_bind : (p.bind q).Along A P w ↔
    p.Along A P w ∧ ∀ a w', p.Ends A w (.ok a) w' → (q a).Along A P w' := by
  induction p generalizing w with
  | ret a => simp [Along, Ends]
  | raise e => simp [Along, Ends]
  | act f k ih =>
    simp only [bind, Along, Ends, ih]
    constructor
    · intro h
      exact ⟨fun e he => ⟨(h e he).1, (h e he).2.1⟩,
        fun a w' ⟨e, he, hend⟩ => (h e he).2.2 a w' hend⟩
    · rintro ⟨h, h'⟩ e he
      exact ⟨(h e he).1, (h e he).2, fun a w' hend => h' a w' ⟨e, he, hend⟩⟩

theorem along_handle {h : ε → Prog W E ε α} : (p.handle h).Along A P w ↔
    p.Along A P w ∧ ∀ e w', p.Ends A w (.error e) w' → (h e).Along A P w' := by
  induction p generalizing w with
  | ret a => simp [Along, Ends]
  | raise e => simp [Along, Ends]
  | act f k ih =>
    simp only [handle, Along, Ends, ih]
    constructor
    · intro h
      exact ⟨fun e he => ⟨(h e he).1, (h e he).2.1⟩,
        fun a w' ⟨e, he, hend⟩ => (h e he).2.2 a w' hend⟩
    · rintro ⟨h, h'⟩ e he
      exact ⟨(h e he).1, (h e he).2, fun a w' hend => h' a w' ⟨e, he, hend⟩⟩

theorem Uses.along (h : p.Uses P) (w : W) : p.Along A P w := by
  induction p generalizing w with
  | ret a => trivial
  | raise x => trivial
  | act f k ih => exact fun e _ => ⟨h.1 w e, ih _ (h.2 _) _⟩

theorem Along.mono {Q : W → E → W → Prop} (h : p.Along A P w)
    (hPQ : ∀ w e w', P w e w' → Q w e w') :
    p.Along A Q w := by
  induction p generalizing w with
  | ret a => trivial
  | raise x => trivial
  | act f k ih => exact fun e he => ⟨hPQ _ _ _ (h e he).1, ih _ (h e he).2⟩

/-- An execution is a run. -/
theorem ends_of_execute {es : List E} {x : Except ε α} (hA : ∀ e ∈ es, A e)
    (h : p.execute w es = some (x, w')) : p.Ends A w x w' := by
  induction p generalizing w es with
  | ret a => cases h; exact ⟨rfl, rfl⟩
  | raise y => cases h; exact ⟨rfl, rfl⟩
  | act f k ih =>
    cases es with
    | nil => cases h
    | cons e es =>
      exact ⟨e, hA e List.mem_cons_self, ih _ (fun e' he' => hA e' (List.mem_cons_of_mem _ he')) h⟩

/-- A run is the execution on some answers. -/
theorem execute_of_ends {x : Except ε α} (h : p.Ends A w x w') :
    ∃ es, (∀ e ∈ es, A e) ∧ p.execute w es = some (x, w') := by
  induction p generalizing w with
  | ret a =>
    obtain ⟨rfl, rfl⟩ := h
    exact ⟨[], List.forall_mem_nil A, rfl⟩
  | raise y =>
    obtain ⟨rfl, rfl⟩ := h
    exact ⟨[], List.forall_mem_nil A, rfl⟩
  | act f k ih =>
    obtain ⟨e, he, h⟩ := h
    obtain ⟨es, hes, hexec⟩ := ih _ h
    exact ⟨e :: es, List.forall_mem_cons.2 ⟨he, hes⟩, hexec⟩

/-- What every step of a run preserves holds at the end of the run. -/
theorem Along.ends {I : W → Prop} (h : p.Along A (fun w _ w' => I w → I w') w) (hw : I w)
    {x : Except ε α} (hend : p.Ends A w x w') : I w' := by
  induction p generalizing w with
  | ret a => obtain ⟨-, rfl⟩ := hend; exact hw
  | raise e => obtain ⟨-, rfl⟩ := hend; exact hw
  | act f k ih =>
    obtain ⟨e, he, hend⟩ := hend
    exact ih _ (h e he).2 ((h e he).1 hw) hend

theorem passes_self : p.Passes A w w := by
  cases p with
  | ret a => rfl
  | raise x => rfl
  | act f k => exact .inl rfl

theorem Ends.passes {x : Except ε α} (h : p.Ends A w x w') : p.Passes A w w' := by
  induction p generalizing w with
  | ret a => exact h.2
  | raise y => exact h.2
  | act f k ih =>
    obtain ⟨e, he, h⟩ := h
    exact .inr ⟨e, he, ih _ h⟩

theorem passes_bind : (p.bind q).Passes A w w' ↔
    p.Passes A w w' ∨ ∃ a w₁, p.Ends A w (.ok a) w₁ ∧ (q a).Passes A w₁ w' := by
  induction p generalizing w with
  | ret a =>
    constructor
    · exact fun h => .inr ⟨a, w, ⟨rfl, rfl⟩, h⟩
    · rintro (h | ⟨b, w₁, ⟨hb, rfl⟩, h⟩)
      · obtain rfl : w' = w := h
        exact passes_self
      · obtain rfl := Except.ok.inj hb
        exact h
  | raise x =>
    refine ⟨.inl, ?_⟩
    rintro (h | ⟨b, w₁, ⟨hb, -⟩, -⟩)
    · exact h
    · cases hb
  | act f k ih =>
    simp only [bind, Passes, Ends, ih]
    constructor
    · rintro (h | ⟨e, he, h | ⟨a, w₁, hend, h⟩⟩)
      · exact .inl (.inl h)
      · exact .inl (.inr ⟨e, he, h⟩)
      · exact .inr ⟨a, w₁, ⟨e, he, hend⟩, h⟩
    · rintro ((h | ⟨e, he, h⟩) | ⟨a, w₁, ⟨e, he, hend⟩, h⟩)
      · exact .inl h
      · exact .inr ⟨e, he, .inl h⟩
      · exact .inr ⟨e, he, .inr ⟨a, w₁, hend, h⟩⟩

theorem passes_call {f : W → E → Except ε β × W} :
    (call f).Passes A w w' ↔ w' = w ∨ ∃ e, A e ∧ w' = (f w e).2 := by
  refine or_congr_right (exists_congr fun e => and_congr_right fun _ => ?_)
  dsimp only
  split <;> exact Iff.rfl

theorem passes_handle {h : ε → Prog W E ε α} : (p.handle h).Passes A w w' ↔
    p.Passes A w w' ∨ ∃ x w₁, p.Ends A w (.error x) w₁ ∧ (h x).Passes A w₁ w' := by
  induction p generalizing w with
  | ret a =>
    refine ⟨.inl, ?_⟩
    rintro (h | ⟨x, w₁, ⟨hx, -⟩, -⟩)
    · exact h
    · cases hx
  | raise x =>
    constructor
    · exact fun h => .inr ⟨x, w, ⟨rfl, rfl⟩, h⟩
    · rintro (h | ⟨y, w₁, ⟨hy, rfl⟩, h⟩)
      · obtain rfl : w' = w := h
        exact passes_self
      · obtain rfl := Except.error.inj hy
        exact h
  | act f k ih =>
    simp only [handle, Passes, Ends, ih]
    constructor
    · rintro (h | ⟨e, he, h | ⟨x, w₁, hend, h⟩⟩)
      · exact .inl (.inl h)
      · exact .inl (.inr ⟨e, he, h⟩)
      · exact .inr ⟨x, w₁, ⟨e, he, hend⟩, h⟩
    · rintro ((h | ⟨e, he, h⟩) | ⟨x, w₁, ⟨e, he, hend⟩, h⟩)
      · exact .inl h
      · exact .inr ⟨e, he, .inl h⟩
      · exact .inr ⟨e, he, .inr ⟨x, w₁, hend, h⟩⟩

theorem ends_attempt {catches : ε → Bool} {x : Except ε (Except ε α)} :
    (p.attempt catches).Ends A w x w' ↔
      (∃ a, x = .ok (.ok a) ∧ p.Ends A w (.ok a) w') ∨
      (∃ e, x = (if catches e then .ok (.error e) else .error e) ∧ p.Ends A w (.error e) w') := by
  rw [attempt, ends_handle]
  constructor
  · rintro (⟨r, rfl, hb⟩ | ⟨e, w₁, hb, hh⟩)
    · obtain ⟨a, w₁, h, hr, rfl⟩ | ⟨e, hr, -⟩ := ends_bind.1 hb
      · obtain rfl := Except.ok.inj hr
        exact .inl ⟨a, rfl, h⟩
      · cases hr
    · obtain ⟨a, w₂, -, hr, -⟩ | ⟨e', hr, h⟩ := ends_bind.1 hb
      · cases hr
      · obtain rfl := Except.error.inj hr
        refine .inr ⟨e, ?_⟩
        split at hh <;> obtain ⟨rfl, rfl⟩ := hh
        · exact ⟨(if_pos ‹_›).symm, h⟩
        · exact ⟨(if_neg ‹_›).symm, h⟩
  · rintro (⟨a, rfl, h⟩ | ⟨e, rfl, h⟩)
    · exact .inl ⟨.ok a, rfl, ends_bind.2 (.inl ⟨a, w', h, rfl, rfl⟩)⟩
    · refine .inr ⟨e, w', ends_bind.2 (.inr ⟨e, rfl, h⟩), ?_⟩
      split <;> exact ⟨rfl, rfl⟩

/-- With some answers a program can always end. -/
theorem exists_ends (hA : ∃ e, A e) (p : Prog W E ε α) (w : W) : ∃ x w', p.Ends A w x w' := by
  induction p generalizing w with
  | ret a => exact ⟨_, _, rfl, rfl⟩
  | raise x => exact ⟨_, _, rfl, rfl⟩
  | act f k ih =>
    obtain ⟨e, he⟩ := hA
    obtain ⟨x, w', h⟩ := ih (f w e).1 (f w e).2
    exact ⟨x, w', e, he, h⟩

/-- What every step of a run preserves holds when it is killed. -/
theorem Along.passes {I : W → Prop} (h : p.Along A (fun w _ w' => I w → I w') w) (hw : I w)
    (hpass : p.Passes A w w') : I w' := by
  induction p generalizing w with
  | ret a => exact (show w' = w from hpass) ▸ hw
  | raise e => exact (show w' = w from hpass) ▸ hw
  | act f k ih =>
    rcases hpass with rfl | ⟨e, he, hpass⟩
    · exact hw
    · exact ih _ (h e he).2 ((h e he).1 hw) hpass

theorem Uses.along_of {R : W → W → Prop} (h : p.Uses fun w e w' => A e → R w w') (w : W) :
    p.Along A (fun w _ w' => R w w') w := by
  induction p generalizing w with
  | ret a => trivial
  | raise x => trivial
  | act f k ih => exact fun e he => ⟨h.1 w e he, ih _ (h.2 _) _⟩

/-- A run that was killed could have gone on to an end. -/
theorem Passes.ends_after {R : W → W → Prop} (hA : ∃ e, A e) (hrefl : ∀ w, R w w)
    (htrans : ∀ a b c, R a b → R b c → R a c) (h : p.Along A (fun w _ w' => R w w') w)
    (hpass : p.Passes A w w') : ∃ x w'', p.Ends A w x w'' ∧ R w' w'' := by
  induction p generalizing w with
  | ret a => exact ⟨_, _, ⟨rfl, rfl⟩, (show w' = w from hpass) ▸ hrefl _⟩
  | raise e => exact ⟨_, _, ⟨rfl, rfl⟩, (show w' = w from hpass) ▸ hrefl _⟩
  | act f k ih =>
    rcases hpass with rfl | ⟨e, he, hpass⟩
    · obtain ⟨x, w'', hend⟩ := exists_ends hA (.act f k) w'
      have halong : (act f k).Along A (fun a _ b => R w' a → R w' b) w' :=
        h.mono fun a _ b hab ha => htrans _ _ _ ha hab
      exact ⟨x, w'', hend, halong.ends (hrefl w') hend⟩
    · obtain ⟨x, w'', hend, hR⟩ := ih _ (h e he).2 hpass
      exact ⟨x, w'', ⟨e, he, hend⟩, hR⟩

/-- What the program preserves in whatever world holds at the end of a run. -/
theorem Uses.ends {I : W → Prop} (h : p.Uses fun w _ w' => I w → I w') (hw : I w)
    {x : Except ε α} (hend : p.Ends A w x w') : I w' := (h.along w).ends hw hend

end

/-! ## What a program becomes -/

/-- Run alone from `w`, on any answers in `A`, the program comes to `q` in `w'`. -/
inductive Becomes (A : E → Prop) : Prog W E ε α → W → Prog W E ε α → W → Prop
  | refl (p w) : Becomes A p w p w
  | act {β : Type} {f : W → E → β × W} {k : β → Prog W E ε α} {w b w₁ q w'}
      (hf : ∀ e, A e → f w e = (b, w₁)) (h : Becomes A (k b) w₁ q w') :
      Becomes A (.act f k) w q w'

section
variable {A : E → Prop} {p q r : Prog W E ε α} {w w₁ w₂ : W}

theorem Becomes.trans (h : p.Becomes A w q w₁) (h' : q.Becomes A w₁ r w₂) :
    p.Becomes A w r w₂ := by
  induction h with
  | refl p w => exact h'
  | act hf _ ih => exact .act hf (ih h')

theorem Becomes.bind (h : p.Becomes A w q w₁) (s : α → Prog W E ε β) :
    (p.bind s).Becomes A w (q.bind s) w₁ := by
  induction h with
  | refl p w => exact .refl _ _
  | act hf _ ih => exact .act hf ih

theorem becomes_look {f : W → E → γ} {c : γ} (h : ∀ e, A e → f w e = c)
    (s : γ → Prog W E ε β) : ((look f).bind s).Becomes A w (s c) w := by
  refine .act (b := c) (fun e he => ?_) (.refl _ _)
  rw [h e he]

theorem becomes_change {f : W → E → W} (h : ∀ e, A e → f w e = w₁)
    (s : Unit → Prog W E ε β) : ((change f).bind s).Becomes A w (s ()) w₁ := by
  refine .act (b := ()) (fun e he => ?_) (.refl _ _)
  rw [h e he]

theorem becomes_call {f : W → E → Except ε γ × W} {c : γ} (h : ∀ e, A e → f w e = (.ok c, w₁))
    (s : γ → Prog W E ε β) : ((call f).bind s).Becomes A w (s c) w₁ :=
  .act h (.refl _ _)

/-- The ends of the program are those of what it becomes. -/
theorem Becomes.ends (hA : ∃ e, A e) (h : p.Becomes A w q w₁) {x : Except ε α} :
    p.Ends A w x w₂ ↔ q.Ends A w₁ x w₂ := by
  induction h with
  | refl p w => exact Iff.rfl
  | act hf _ ih =>
    rw [← ih]
    constructor
    · rintro ⟨e, he, hend⟩
      rwa [hf e he] at hend
    · intro hend
      obtain ⟨e, he⟩ := hA
      refine ⟨e, he, ?_⟩
      rwa [hf e he]

end

/-! ## Programs on a part of the world -/

/-- The program on the part `get` of a larger world, which `set` replaces. -/
def focus {V : Type} (get : V → W) (set : V → W → V) : Prog W E ε α → Prog V E ε α
  | .ret a => .ret a
  | .raise x => .raise x
  | .act f k => .act (fun v e => ((f (get v) e).1, set v (f (get v) e).2)) fun b =>
      (k b).focus get set

section
variable {V : Type} {get : V → W} {set : V → W → V} {A : E → Prop} {p : Prog W E ε α}

/-- The program runs on its part and leaves the rest alone. -/
theorem ends_focus (hget : ∀ v w, get (set v w) = w) (hself : ∀ v, set v (get v) = v)
    (hset : ∀ v w w', set (set v w) w' = set v w') {v v' : V} {x : Except ε α} :
    (p.focus get set).Ends A v x v' ↔ ∃ w', p.Ends A (get v) x w' ∧ v' = set v w' := by
  induction p generalizing v with
  | ret a =>
    constructor
    · rintro ⟨rfl, rfl⟩
      exact ⟨_, ⟨rfl, rfl⟩, (hself _).symm⟩
    · rintro ⟨w', ⟨rfl, rfl⟩, rfl⟩
      exact ⟨rfl, hself v⟩
  | raise y =>
    constructor
    · rintro ⟨rfl, rfl⟩
      exact ⟨_, ⟨rfl, rfl⟩, (hself _).symm⟩
    · rintro ⟨w', ⟨rfl, rfl⟩, rfl⟩
      exact ⟨rfl, hself v⟩
  | act f k ih =>
    simp only [focus, Ends, ih, hget, hset]
    constructor
    · rintro ⟨e, he, w', hend, rfl⟩
      exact ⟨w', ⟨e, he, hend⟩, rfl⟩
    · rintro ⟨w', ⟨e, he, hend⟩, rfl⟩
      exact ⟨e, he, w', hend, rfl⟩

theorem Uses.focus {R : W → E → W → Prop} {S : V → E → V → Prop} (hp : p.Uses R)
    (h : ∀ v e w', R (get v) e w' → S v e (set v w')) : (p.focus get set).Uses S := by
  induction p with
  | ret a => trivial
  | raise x => trivial
  | act f k ih => exact ⟨fun v e => h v e _ (hp.1 (get v) e), fun b => ih b (hp.2 b)⟩

end

end Prog

end TodDl.Lib
