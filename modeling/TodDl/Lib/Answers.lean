/-
  Runs of a program on a stream of answers.

  `feed p w es`: the program alone, from `w` on, given the answers one after another; it
  always ends, and some answers are left.  The pattern of the answers is an input like the
  world, so two runs can be told apart by the place where an answer differs.

  `feed_bind_ok`, `feed_handle_ok`, `feed_attempt_ok` and the like: a run of a composed program is
  composed.  `ends_of_feed`: it is one of the runs of `Ends`.  `Raises P`: whatever the
  answers are, the program raises only what satisfies `P`.
-/
import Mathlib.Data.Stream.Defs
import TodDl.Lib.Prog

namespace TodDl.Lib.Prog

variable {W E ε α β : Type}

/-- How the program ends on the answers, and the answers that are left. -/
def feed : Prog W E ε α → W → Stream' E → Except ε α × W × Stream' E
  | .ret a, w, es => (.ok a, w, es)
  | .raise x, w, es => (.error x, w, es)
  | .act f k, w, es => (k (f w es.head).1).feed (f w es.head).2 es.tail

variable {p : Prog W E ε α} {q : α → Prog W E ε β} {w w' : W} {es es' : Stream' E}

@[simp] theorem feed_ret (a : α) (w : W) (es : Stream' E) :
    (ret a : Prog W E ε α).feed w es = (.ok a, w, es) := rfl

@[simp] theorem feed_raise (x : ε) (w : W) (es : Stream' E) :
    (raise x : Prog W E ε α).feed w es = (.error x, w, es) := rfl

theorem feed_act (f : W → E → β × W) (k : β → Prog W E ε α) (w : W) (es : Stream' E) :
    (act f k).feed w es = (k (f w es.head).1).feed (f w es.head).2 es.tail := rfl

theorem feed_bind_ok {a : α} (h : p.feed w es = (.ok a, w', es')) :
    (p.bind q).feed w es = (q a).feed w' es' := by
  induction p generalizing w es with
  | ret b =>
    obtain ⟨rfl, rfl, rfl⟩ : b = a ∧ w = w' ∧ es = es' := by simpa using h
    rfl
  | raise x => simp at h
  | act f k ih => exact ih _ h

theorem feed_bind_error {x : ε} (h : p.feed w es = (.error x, w', es')) :
    (p.bind q).feed w es = (.error x, w', es') := by
  induction p generalizing w es with
  | ret b => simp at h
  | raise y =>
    obtain ⟨rfl, rfl, rfl⟩ : y = x ∧ w = w' ∧ es = es' := by simpa using h
    rfl
  | act f k ih => exact ih _ h

/-- Runs that end alike go on alike. -/
theorem feed_bind_congr {p' : Prog W E ε α} (h : p.feed w es = p'.feed w' es') :
    (p.bind q).feed w es = (p'.bind q).feed w' es' := by
  rcases hp : p.feed w es with ⟨x | a, w₁, es₁⟩
  · rw [feed_bind_error hp, feed_bind_error (h.symm.trans hp)]
  · rw [feed_bind_ok hp, feed_bind_ok (h.symm.trans hp)]

theorem feed_handle_ok {h : ε → Prog W E ε α} {a : α} (hp : p.feed w es = (.ok a, w', es')) :
    (p.handle h).feed w es = (.ok a, w', es') := by
  induction p generalizing w es with
  | ret b => exact hp
  | raise x => simp at hp
  | act f k ih => exact ih _ hp

theorem feed_handle_error {h : ε → Prog W E ε α} {x : ε}
    (hp : p.feed w es = (.error x, w', es')) : (p.handle h).feed w es = (h x).feed w' es' := by
  induction p generalizing w es with
  | ret b => simp at hp
  | raise y =>
    obtain ⟨rfl, rfl, rfl⟩ : y = x ∧ w = w' ∧ es = es' := by simpa using hp
    rfl
  | act f k ih => exact ih _ hp

theorem feed_attempt_ok {catches : ε → Bool} {a : α} (h : p.feed w es = (.ok a, w', es')) :
    (p.attempt catches).feed w es = (.ok (.ok a), w', es') :=
  feed_handle_ok ((feed_bind_ok h).trans (feed_ret _ _ _))

theorem feed_attempt_caught {catches : ε → Bool} {x : ε} (hx : catches x = true)
    (h : p.feed w es = (.error x, w', es')) :
    (p.attempt catches).feed w es = (.ok (.error x), w', es') := by
  refine (feed_handle_error (feed_bind_error h)).trans ?_
  rw [if_pos hx]
  rfl

theorem feed_attempt_bind {catches : ε → Bool} {a : α} (h : p.feed w es = (.ok a, w', es')) :
    ((p.bind q).attempt catches).feed w es = ((q a).attempt catches).feed w' es' := by
  induction p generalizing w es with
  | ret b =>
    obtain ⟨rfl, rfl, rfl⟩ : b = a ∧ w = w' ∧ es = es' := by simpa using h
    rfl
  | raise x => simp at h
  | act f k ih => exact ih _ h

theorem feed_call (f : W → E → Except ε α × W) (w : W) (es : Stream' E) :
    (call f).feed w es = ((f w es.head).1, (f w es.head).2, es.tail) := by
  rw [call, feed_act]
  cases (f w es.head).1 <;> rfl

/-- A run on answers is a run. -/
theorem ends_of_feed {A : E → Prop} (hA : ∀ n, A (es n)) {x : Except ε α}
    (h : p.feed w es = (x, w', es')) : p.Ends A w x w' ∧ ∀ n, A (es' n) := by
  induction p generalizing w es with
  | ret b =>
    obtain ⟨rfl, rfl, rfl⟩ : Except.ok b = x ∧ w = w' ∧ es = es' := by simpa using h
    exact ⟨⟨rfl, rfl⟩, hA⟩
  | raise y =>
    obtain ⟨rfl, rfl, rfl⟩ : Except.error y = x ∧ w = w' ∧ es = es' := by simpa using h
    exact ⟨⟨rfl, rfl⟩, hA⟩
  | act f k ih =>
    obtain ⟨hend, hrest⟩ := ih _ (fun n => hA (n + 1)) h
    exact ⟨⟨es.head, hA 0, hend⟩, hrest⟩

/-- What every step keeps holds at the end of a run. -/
theorem Uses.feed {I : W → Prop} (hp : p.Uses fun w _ w' => I w → I w') (hw : I w)
    {x : Except ε α} (h : p.feed w es = (x, w', es')) : I w' :=
  hp.ends hw (ends_of_feed (A := fun _ => True) (fun _ => trivial) h).1

/-! ## Exceptions -/

/-- The program raises only exceptions with a property. -/
def Raises (P : ε → Prop) (p : Prog W E ε α) : Prop :=
  ∀ w es x w' es', p.feed w es = (.error x, w', es') → P x

section
variable {P : ε → Prop}

theorem raises_ret (a : α) : (ret a : Prog W E ε α).Raises P := by
  intro w es x w' es' h
  simp at h

theorem raises_raise {x : ε} (hx : P x) : (raise x : Prog W E ε α).Raises P := by
  intro w es y w' es' h
  obtain ⟨rfl, -⟩ : x = y ∧ _ := by simpa using h
  exact hx

theorem Raises.bind (hp : p.Raises P) (hq : ∀ a, (q a).Raises P) : (p.bind q).Raises P := by
  intro w es x w' es' h
  rcases hfeed : p.feed w es with ⟨y, w₁, es₁⟩
  cases y with
  | ok a => exact hq a w₁ es₁ x w' es' ((feed_bind_ok hfeed).symm.trans h)
  | error y =>
    obtain ⟨rfl, -⟩ : y = x ∧ _ := by simpa using (feed_bind_error hfeed).symm.trans h
    exact hp w es y w₁ es₁ hfeed

theorem raises_call {f : W → E → Except ε α × W}
    (hf : ∀ w e x, (f w e).1 = .error x → P x) : (call f).Raises P := by
  intro w es x w' es' h
  rw [feed_call] at h
  exact hf w es.head x (Prod.mk.inj h).1

theorem raises_look (f : W → E → α) : (look f : Prog W E ε α).Raises P := by
  intro w es x w' es' h
  simp [look, feed_act] at h

/-- An exception that is caught is not raised. -/
theorem Raises.attempt {catches : ε → Bool} (hp : p.Raises P) : (p.attempt catches).Raises P := by
  intro w es x w' es' h
  rcases hfeed : p.feed w es with ⟨y, w₁, es₁⟩
  cases y with
  | ok a => simp [feed_attempt_ok hfeed] at h
  | error y =>
    have hhandled := (feed_handle_error (feed_bind_error hfeed)).symm.trans h
    split at hhandled
    · simp at hhandled
    · obtain ⟨rfl, -⟩ : y = x ∧ _ := by simpa using hhandled
      exact hp w es y w₁ es₁ hfeed

theorem raises_forEach {as : List α} {body : α → Prog W E ε Unit}
    (h : ∀ a ∈ as, (body a).Raises P) : (forEach as body).Raises P := by
  induction as with
  | nil => exact raises_ret ()
  | cons a as ih =>
    exact (h a List.mem_cons_self).bind fun _ => ih fun b hb => h b (List.mem_cons_of_mem _ hb)

end

end TodDl.Lib.Prog
