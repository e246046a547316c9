/-
  A batch of inserts that something else commits early.

  A batch is a list of steps on one transaction: an insert stays uncommitted until
  a commit; a failure ends the batch and loses what is uncommitted; a batch that
  does not fail commits at its end.  `persisted` counts the inserts that a full
  batch leaves, `tally` what a crash after some steps would leave.

  `torn_iff`: some crash leaves a proper non-empty part of what the full batch
  leaves exactly when the batch has a commit between two inserts that it keeps.
-/
import Mathlib.Data.List.Count
import Mathlib.Data.List.Infix
import Mathlib.Data.List.TakeWhile

namespace TodDl.Lib

/-- A step of a batch. -/
inductive BatchStep where
  | insert
  | commit
  | skip
  | fail
  deriving DecidableEq

namespace BatchStep

/-- The numbers of inserts so far and of committed inserts after the step. -/
def after : ℕ × ℕ → BatchStep → ℕ × ℕ
  | (i, c), .insert => (i + 1, c)
  | (i, _), .commit => (i, i)
  | t, _ => t

/-- What the steps make of the numbers of inserts and of committed inserts. -/
def tally (t : ℕ × ℕ) (l : List BatchStep) : ℕ × ℕ := l.foldl after t

/-- The steps before a failure. -/
def before (l : List BatchStep) : List BatchStep := l.takeWhile (· ≠ .fail)

/-- How many inserts the full batch leaves. -/
def persisted (t : ℕ × ℕ) (l : List BatchStep) : ℕ :=
  if .fail ∈ l then (tally t (before l)).2 else (tally t l).1

/-- A commit stands between two inserts that the batch keeps. -/
def Torn (l : List BatchStep) : Prop :=
  if .fail ∈ l then [.insert, .commit, .insert, .commit].Sublist (before l)
  else [.insert, .commit, .insert].Sublist l

instance (l : List BatchStep) : Decidable (Torn l) := by unfold Torn; infer_instance

/-- A step that was done before: what it committed need not be committed again. -/
def redone : BatchStep → BatchStep
  | .commit => .skip
  | s => s

variable {t : ℕ × ℕ} {l l' p : List BatchStep} {a : BatchStep}

@[simp] theorem tally_nil : tally t [] = t := rfl
@[simp] theorem tally_cons : tally t (a :: l) = tally (after t a) l := rfl
@[simp] theorem tally_append : tally t (l ++ l') = tally (tally t l) l' := List.foldl_append

theorem before_cons (h : a ≠ .fail) : before (a :: l) = a :: before l := by simp [before, h]

theorem before_eq_self (h : .fail ∉ l) : before l = l := by
  refine List.takeWhile_eq_self_iff.2 fun a ha => ?_
  simpa using fun hf : a = .fail => h (hf ▸ ha)

theorem before_append (h : .fail ∉ p) : before (p ++ l) = p ++ before l := by
  unfold before
  rw [List.takeWhile_append_of_pos]
  intro a ha
  simpa using fun hf : a = .fail => h (hf ▸ ha)

theorem fail_notMem_before (l : List BatchStep) : .fail ∉ before l := fun h => by
  simpa using List.mem_takeWhile_imp h

/-- No more is committed than was inserted. -/
theorem snd_tally_le (h : t.2 ≤ t.1) : (tally t l).2 ≤ (tally t l).1 := by
  induction l generalizing t with
  | nil => exact h
  | cons a l ih =>
    refine ih ?_
    cases a <;> simp only [after] <;> omega

theorem le_tally (h : t.2 ≤ t.1) : t.1 ≤ (tally t l).1 ∧ t.2 ≤ (tally t l).2 := by
  induction l generalizing t with
  | nil => exact ⟨le_rfl, le_rfl⟩
  | cons a l ih =>
    have hstep : (after t a).2 ≤ (after t a).1 ∧ t.1 ≤ (after t a).1 ∧ t.2 ≤ (after t a).2 := by
      cases a <;> simp only [after] <;> omega
    obtain ⟨h₁, h₂⟩ := ih hstep.1
    exact ⟨hstep.2.1.trans h₁, hstep.2.2.trans h₂⟩

theorem tally_prefix_le (h : p <+: l) : (tally (0, 0) p).2 ≤ (tally (0, 0) l).2 := by
  obtain ⟨q, rfl⟩ := h
  rw [tally_append]
  exact (le_tally (snd_tally_le le_rfl)).2

theorem persisted_cons (h : a ≠ .fail) : persisted t (a :: l) = persisted (after t a) l := by
  unfold persisted
  simp only [List.mem_cons, h.symm, false_or, before_cons h, tally_cons]

theorem persisted_fail : persisted t (.fail :: l) = t.2 := by
  simp [persisted, before]

/-! ## Torn batches -/

theorem sublist_concat_iff {xs l : List BatchStep} {x b : BatchStep} :
    (xs ++ [x]).Sublist (l ++ [b]) ↔ (xs ++ [x]).Sublist l ∨ x = b ∧ xs.Sublist l := by
  rw [← List.reverse_sublist]
  simp only [List.reverse_append, List.reverse_cons, List.reverse_nil, List.nil_append,
    List.singleton_append]
  rw [List.sublist_cons_iff]
  constructor
  · rintro (h | ⟨r, hr, h⟩)
    · exact .inl (by simpa using List.reverse_sublist.2 h)
    · obtain ⟨rfl, rfl⟩ := List.cons.inj hr
      exact .inr ⟨rfl, List.reverse_sublist.1 h⟩
  · rintro (h | ⟨rfl, h⟩)
    · exact .inl (by simpa using List.reverse_sublist.2 h)
    · exact .inr ⟨xs.reverse, rfl, List.reverse_sublist.2 h⟩

theorem pos_fst_tally : 0 < (tally (0, 0) l).1 ↔ [BatchStep.insert].Sublist l := by
  induction l using List.reverseRecOn with
  | nil => simp
  | append_singleton l b ih =>
    rw [tally_append, show [BatchStep.insert] = [] ++ [.insert] from rfl, sublist_concat_iff,
      List.nil_append, ← ih]
    cases b <;> simp [after]

theorem pos_snd_tally : 0 < (tally (0, 0) l).2 ↔ [BatchStep.insert, .commit].Sublist l := by
  induction l using List.reverseRecOn with
  | nil => simp
  | append_singleton l b ih =>
    rw [tally_append, show [BatchStep.insert, .commit] = [.insert] ++ [.commit] from rfl,
      sublist_concat_iff, List.singleton_append, ← ih, ← pos_fst_tally]
    have hle := snd_tally_le (l := l) (t := (0, 0)) le_rfl
    cases b <;> simp [after]
    omega

/-- A crash leaves a part of the inserts so far. -/
theorem part_of_inserted_iff :
    (∃ p, p <+: l ∧ 0 < (tally (0, 0) p).2 ∧ (tally (0, 0) p).2 < (tally (0, 0) l).1) ↔
      [BatchStep.insert, .commit, .insert].Sublist l := by
  induction l using List.reverseRecOn with
  | nil => simp
  | append_singleton l b ih =>
    rw [show [BatchStep.insert, .commit, .insert] = [.insert, .commit] ++ [.insert] from rfl,
      sublist_concat_iff, List.cons_append, List.singleton_append, ← ih, ← pos_snd_tally]
    have hle := snd_tally_le (l := l) (t := (0, 0)) le_rfl
    constructor
    · rintro ⟨p, hp, hpos, hlt⟩
      rcases List.prefix_concat_iff.1 hp with rfl | hp
      · rw [tally_append] at hpos hlt
        cases b <;> simp [after] at hpos hlt
        · exact .inr ⟨rfl, hpos⟩
        · exact .inl ⟨l, List.prefix_rfl, hpos, hlt⟩
        · exact .inl ⟨l, List.prefix_rfl, hpos, hlt⟩
      · by_cases hb : b = .insert
        · exact .inr ⟨hb.symm, hpos.trans_le (tally_prefix_le hp)⟩
        · refine .inl ⟨p, hp, hpos, ?_⟩
          rw [tally_append] at hlt
          cases b <;> simp_all [after]
    · rintro (⟨p, hp, hpos, hlt⟩ | ⟨rfl, hpos⟩)
      · refine ⟨p, hp.trans (List.prefix_append _ _), hpos, hlt.trans_le ?_⟩
        rw [tally_append]
        exact (le_tally (snd_tally_le le_rfl)).1
      · refine ⟨l, List.prefix_append _ _, hpos, ?_⟩
        rw [tally_append]
        simp only [tally_cons, tally_nil, after]
        omega

/-- A crash leaves a part of what is committed in the end. -/
theorem part_of_committed_iff :
    (∃ p, p <+: l ∧ 0 < (tally (0, 0) p).2 ∧ (tally (0, 0) p).2 < (tally (0, 0) l).2) ↔
      [BatchStep.insert, .commit, .insert, .commit].Sublist l := by
  induction l using List.reverseRecOn with
  | nil => simp
  | append_singleton l b ih =>
    rw [show [BatchStep.insert, .commit, .insert, .commit] = [.insert, .commit, .insert] ++ [.commit]
      from rfl, sublist_concat_iff, List.cons_append, List.cons_append, List.singleton_append, ← ih,
      ← part_of_inserted_iff]
    have hle := snd_tally_le (l := l) (t := (0, 0)) le_rfl
    have hsnd : b ≠ .commit → (tally (0, 0) (l ++ [b])).2 = (tally (0, 0) l).2 := by
      cases b <;> simp [after]
    constructor
    · rintro ⟨p, hp, hpos, hlt⟩
      rcases List.prefix_concat_iff.1 hp with rfl | hpl
      · exact absurd hlt (lt_irrefl _)
      · by_cases hb : b = .commit
        · subst hb
          refine .inr ⟨rfl, p, hpl, hpos, ?_⟩
          simpa [after] using hlt
        · exact .inl ⟨p, hpl, hpos, hsnd hb ▸ hlt⟩
    · rintro (⟨p, hp, hpos, hlt⟩ | ⟨rfl, p, hp, hpos, hlt⟩)
      · exact ⟨p, hp.trans (List.prefix_append _ _), hpos,
          hlt.trans_le (tally_prefix_le (List.prefix_append _ _))⟩
      · refine ⟨p, hp.trans (List.prefix_append _ _), hpos, ?_⟩
        simpa [after] using hlt

/-- A crash leaves at most what the full batch leaves. -/
theorem tally_le_persisted (hp : p <+: before l) : (tally (0, 0) p).2 ≤ persisted (0, 0) l := by
  unfold persisted
  split
  · exact tally_prefix_le hp
  · next hf =>
    rw [before_eq_self hf] at hp
    exact (tally_prefix_le hp).trans (snd_tally_le le_rfl)

/-- **Torn batches**: some crash leaves something, but not all. -/
theorem torn_iff : Torn l ↔
    ∃ p, p <+: before l ∧ (tally (0, 0) p).2 ≠ 0 ∧ (tally (0, 0) p).2 ≠ persisted (0, 0) l := by
  have hlt : ∀ p, p <+: before l → ((tally (0, 0) p).2 ≠ persisted (0, 0) l ↔
      (tally (0, 0) p).2 < persisted (0, 0) l) := fun p hp =>
    ⟨lt_of_le_of_ne (tally_le_persisted hp), ne_of_lt⟩
  have hiff : (∃ p, p <+: before l ∧ (tally (0, 0) p).2 ≠ 0 ∧
      (tally (0, 0) p).2 ≠ persisted (0, 0) l) ↔ ∃ p, p <+: before l ∧ 0 < (tally (0, 0) p).2 ∧
      (tally (0, 0) p).2 < persisted (0, 0) l := by
    refine exists_congr fun p => and_congr_right fun hp => ?_
    rw [hlt p hp, Nat.pos_iff_ne_zero]
  rw [hiff]
  unfold Torn persisted
  split
  · exact part_of_committed_iff.symm
  · next hf =>
    rw [before_eq_self hf]
    exact part_of_inserted_iff.symm

/-! ## Doing a batch again -/

/-- A crash that left nothing: the second time the batch ends as the first time. -/
theorem persisted_redone (hp : p <+: before l) (h : (tally (0, 0) p).2 = 0) :
    persisted (0, 0) (p.map redone ++ l.drop p.length) = persisted (0, 0) l := by
  obtain ⟨q, hq⟩ := hp
  have hfail : .fail ∉ p := fun hf => fail_notMem_before l (hq ▸ List.mem_append_left q hf)
  have hl : p ++ l.drop p.length = l := by
    have hpre : p <+: l := (List.prefix_append p q).trans (hq ▸ List.takeWhile_prefix _)
    obtain ⟨r, rfl⟩ := hpre
    rw [List.drop_left]
  have htally : tally (0, 0) (p.map redone) = tally (0, 0) p := by
    clear hq hl hfail
    induction p using List.reverseRecOn with
    | nil => rfl
    | append_singleton p a ih =>
      have hzero : (tally (0, 0) p).2 = 0 :=
        Nat.le_zero.1 ((tally_prefix_le (List.prefix_append p [a])).trans_eq h)
      rw [List.map_append, tally_append, tally_append, ih hzero]
      cases a <;> try rfl
      rw [tally_append] at h
      simp only [tally_cons, tally_nil, after] at h
      simp only [List.map_cons, List.map_nil, redone, tally_cons, tally_nil, after]
      exact Prod.ext rfl (hzero.trans h.symm)
  have hfail' : .fail ∉ p.map redone := by
    intro hf
    obtain ⟨a, ha, hr⟩ := List.mem_map.1 hf
    cases a <;> cases hr
    exact hfail ha
  conv_rhs => rw [← hl]
  simp only [persisted, List.mem_append, hfail, hfail', false_or, before_append hfail,
    before_append hfail', tally_append, htally]

end BatchStep

end TodDl.Lib
