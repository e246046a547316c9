/-
  A connection with an implicit transaction.

  The first write opens a transaction and only a commit ends it.  A statement
  that fails is undone alone: what was written before it stays open, and the next
  commit keeps it, whoever makes it.
-/
import Mathlib.Data.List.Basic

namespace TodDl.Lib

variable {σ : Type*}

/-- A statement on a store. -/
inductive Statement (σ : Type*) where
  | read
  | write (f : σ → σ)
  | commit

/-- A connection: what is committed, and what the connection itself sees. -/
structure Connection (σ : Type*) where
  committed : σ
  working : σ
  inTransaction : Bool

namespace Statement

def isCommit : Statement σ → Bool
  | .commit => true
  | _ => false

/-- What the statement makes of what the connection sees. -/
def effect (s : σ) : Statement σ → σ
  | .write f => f s
  | .read | .commit => s

/-- What a list of statements makes of it. -/
def effects (ss : List (Statement σ)) (s : σ) : σ := ss.foldl effect s

theorem effects_append (ss ts : List (Statement σ)) (s : σ) :
    effects (ss ++ ts) s = effects ts (effects ss s) := List.foldl_append

end Statement

open Statement

namespace Connection

/-- A connection without a transaction. -/
def idle (s : σ) : Connection σ := ⟨s, s, false⟩

def perform (c : Connection σ) : Statement σ → Connection σ
  | .read => c
  | .write f => ⟨c.committed, f c.working, true⟩
  | .commit => idle c.working

def performAll (c : Connection σ) (ss : List (Statement σ)) : Connection σ := ss.foldl perform c

variable {c : Connection σ} {ss ts : List (Statement σ)}

theorem performAll_append : c.performAll (ss ++ ts) = (c.performAll ss).performAll ts :=
  List.foldl_append

theorem working_performAll : (c.performAll ss).working = effects ss c.working := by
  induction ss generalizing c with
  | nil => rfl
  | cons s ss ih => cases s <;> exact ih

/-- Outside a transaction the connection sees what is committed. -/
def Settled (c : Connection σ) : Prop := c.inTransaction = false → c.working = c.committed

theorem settled_idle (s : σ) : (idle s).Settled := fun _ => rfl

theorem Settled.performAll (h : c.Settled) : (c.performAll ss).Settled := by
  induction ss generalizing c with
  | nil => exact h
  | cons s ss ih =>
    refine @ih (c.perform s) ?_
    cases s with
    | read => exact h
    | write f => exact fun hf => by cases hf
    | commit => exact settled_idle _

theorem effects_read {s : σ} (h : ∀ t ∈ ss, t = .read) : effects ss s = s := by
  induction ss with
  | nil => rfl
  | cons t ss ih =>
    obtain ⟨rfl, hss⟩ := List.forall_mem_cons.1 h
    exact ih hss

/-- Without a commit nothing is committed. -/
theorem committed_performAll (h : ∀ s ∈ ss, s.isCommit = false) :
    (c.performAll ss).committed = c.committed := by
  induction ss generalizing c with
  | nil => rfl
  | cons s ss ih =>
    obtain ⟨hs, hss⟩ := List.forall_mem_cons.1 h
    refine (@ih (c.perform s) hss).trans ?_
    cases s with
    | commit => cases hs
    | _ => rfl

theorem performAll_read (h : ∀ s ∈ ss, s = .read) : c.performAll ss = c := by
  induction ss with
  | nil => rfl
  | cons s ss ih =>
    obtain ⟨rfl, hss⟩ := List.forall_mem_cons.1 h
    exact ih hss

theorem performAll_commit : c.performAll (ss ++ [.commit]) = idle (effects ss c.working) := by
  rw [performAll_append, ← working_performAll]
  rfl

/-- Statements that come to a commit at the end and nowhere before. -/
structure OneCommit (ss : List (Statement σ)) : Prop where
  split : ∃ body, ss = body ++ [.commit] ∧ ∀ s ∈ body, s.isCommit = false

theorem oneCommit_commit : OneCommit ([.commit] : List (Statement σ)) := ⟨[], rfl, nofun⟩

theorem OneCommit.append (hts : OneCommit ts) (hss : ∀ s ∈ ss, s.isCommit = false) :
    OneCommit (ss ++ ts) := by
  obtain ⟨body, rfl, hbody⟩ := hts.split
  refine ⟨ss ++ body, (List.append_assoc ..).symm, fun s hs => ?_⟩
  exact (List.mem_append.1 hs).elim (hss s) (hbody s)

theorem OneCommit.cons {s : Statement σ} (hs : s.isCommit = false) (h : OneCommit ss) :
    OneCommit (s :: ss) := h.append fun _ ht => List.mem_singleton.1 ht ▸ hs

/-- **A part of them** commits nothing. -/
theorem OneCommit.take (h : OneCommit ss) {k : ℕ} (hk : k < ss.length) :
    ∀ s ∈ ss.take k, s.isCommit = false := by
  obtain ⟨body, rfl, hbody⟩ := h.split
  have hle : k ≤ body.length := by
    simp only [List.length_append, List.length_singleton] at hk
    omega
  rw [List.take_append_of_le_length hle]
  exact fun s hs => hbody s (List.mem_of_mem_take hs)

theorem OneCommit.commits (h : OneCommit ss) : ∃ s ∈ ss, s.isCommit = true := by
  obtain ⟨body, rfl, -⟩ := h.split
  exact ⟨.commit, by simp, rfl⟩

/-- **All of them** commit what they write. -/
theorem OneCommit.performAll (h : OneCommit ss) : c.performAll ss = idle (effects ss c.working) := by
  obtain ⟨body, rfl, -⟩ := h.split
  rw [performAll_commit, effects_append]
  rfl

end Connection

end TodDl.Lib
