/-
  Batches of entries that write values under keys — the latest entry of a key, and the
  latest value that an entry of the key gave.

  A store that copies every entry whole has the value of the latest entry, also where that
  entry gives none.  `current_iff`: after every batch this is the latest value given exactly
  if no entry leaves out what an earlier batch gave for its key.
-/
import Mathlib.Data.List.Induction
import Mathlib.Data.List.Nodup

namespace TodDl.Lib.Latest

variable {α κ β : Type*} [DecidableEq κ] (key : α → κ) (f : α → Option β)

/-- The last entry of a key. -/
def latest (l : List α) (k : κ) : Option α := (l.filter fun a => key a = k).getLast?

/-- The last value that an entry of a key gives. -/
def latestGiven (l : List α) (k : κ) : Option β :=
  ((l.filter fun a => key a = k).filterMap f).getLast?

variable {key} {f} {l m : List α} {a : α} {k : κ}

theorem latest_append : latest key (l ++ m) k = (latest key m k).or (latest key l k) := by
  rw [latest, List.filter_append, List.getLast?_append]
  rfl

theorem latestGiven_append :
    latestGiven key f (l ++ m) k = (latestGiven key f m k).or (latestGiven key f l k) := by
  rw [latestGiven, List.filter_append, List.filterMap_append, List.getLast?_append]
  rfl

theorem latest_eq_none : latest key l k = none ↔ ∀ a ∈ l, key a ≠ k := by
  rw [latest, List.getLast?_eq_none_iff, List.filter_eq_nil_iff]
  simp

theorem latestGiven_eq_none :
    latestGiven key f l k = none ↔ ∀ a ∈ l, key a = k → f a = none := by
  rw [latestGiven, List.getLast?_eq_none_iff, List.filterMap_eq_nil_iff]
  simp

/-- The entries of a key, where keys are distinct. -/
theorem filter_key (hn : (l.map key).Nodup) (ha : a ∈ l) :
    (l.filter fun b => key b = key a) = [a] := by
  induction l with
  | nil => cases ha
  | cons b l ih =>
    obtain ⟨hb, hn⟩ := List.nodup_cons.1 hn
    rcases List.mem_cons.1 ha with rfl | ha
    · have hrest : (l.filter fun b => key b = key a) = [] := by
        refine List.filter_eq_nil_iff.2 fun b hmem heq => hb ?_
        exact of_decide_eq_true heq ▸ List.mem_map_of_mem hmem
      rw [List.filter_cons_of_pos (by simp), hrest]
    · have hne : key b ≠ key a := fun heq => hb (heq ▸ List.mem_map_of_mem ha)
      rw [List.filter_cons_of_neg (by simpa using hne), ih hn ha]

theorem latest_of_mem (hn : (l.map key).Nodup) (ha : a ∈ l) : latest key l (key a) = some a := by
  rw [latest, filter_key hn ha]
  rfl

theorem latestGiven_of_mem (hn : (l.map key).Nodup) (ha : a ∈ l) :
    latestGiven key f l (key a) = f a := by
  rw [latestGiven, filter_key hn ha]
  cases h : f a <;> simp [h]

/-! ## Batches -/

variable {γ : Type*} (batch : γ → List α)

variable (key) (f) in
/-- No entry leaves out a value that an earlier batch gave for its key. -/
def Keeps (calls : List γ) : Prop :=
  ∀ pre c post, calls = pre ++ c :: post → ∀ a ∈ batch c, ∀ earlier ∈ pre,
    ∀ b ∈ batch earlier, key b = key a → (f b).isSome → (f a).isSome

variable (key) (f) in
/-- After every batch the latest entry of a key has the latest value given. -/
def Current (calls : List γ) : Prop :=
  ∀ pre c post, calls = pre ++ c :: post → ∀ k,
    (latest key ((pre ++ [c]).flatMap batch) k).bind f =
      latestGiven key f ((pre ++ [c]).flatMap batch) k

variable {batch} {calls more : List γ} {c : γ}

omit [DecidableEq κ] in
theorem Keeps.left (h : Keeps key f batch (calls ++ more)) : Keeps key f batch calls := by
  rintro pre c post rfl
  exact h pre c (post ++ more) (by simp)

/-- What one more batch does. -/
theorem bind_latest_concat (hn : ((batch c).map key).Nodup)
    (h : Keeps key f batch (calls ++ [c]))
    (ih : (latest key (calls.flatMap batch) k).bind f =
      latestGiven key f (calls.flatMap batch) k) :
    (latest key ((calls ++ [c]).flatMap batch) k).bind f =
      latestGiven key f ((calls ++ [c]).flatMap batch) k := by
  rw [List.flatMap_append, List.flatMap_singleton, latest_append, latestGiven_append]
  by_cases hmem : ∃ a ∈ batch c, key a = k
  · obtain ⟨a, ha, rfl⟩ := hmem
    rw [latest_of_mem hn ha, latestGiven_of_mem hn ha, Option.some_or, Option.bind_some]
    cases hf : f a with
    | some b => rfl
    | none =>
      -- the batches before gave nothing either
      have hnone : latestGiven key f (calls.flatMap batch) (key a) = none := by
        refine latestGiven_eq_none.2 fun b hb hkey => ?_
        obtain ⟨earlier, hearlier, hb⟩ := List.mem_flatMap.1 hb
        by_contra hsome
        have hgiven := h calls c [] rfl a ha earlier hearlier b hb hkey
          (Option.isSome_iff_ne_none.2 hsome)
        rw [hf] at hgiven
        cases hgiven
      rw [hnone]
      rfl
  · have hother : ∀ a ∈ batch c, key a ≠ k := fun a ha hkey => hmem ⟨a, ha, hkey⟩
    rw [latest_eq_none.2 hother, latestGiven_eq_none.2 fun a ha hkey => absurd hkey (hother a ha),
      Option.none_or, Option.none_or, ih]

theorem Keeps.bind_latest (hn : ∀ c ∈ calls, ((batch c).map key).Nodup)
    (h : Keeps key f batch calls) (k : κ) :
    (latest key (calls.flatMap batch) k).bind f = latestGiven key f (calls.flatMap batch) k := by
  induction calls using List.reverseRecOn with
  | nil => rfl
  | append_singleton calls c ih =>
    refine bind_latest_concat (hn c (by simp)) h (ih ?_ h.left)
    intro earlier hearlier
    exact hn earlier (List.mem_append_left _ hearlier)

/-- **Copied entries stay current** exactly if no entry leaves a value out. -/
theorem current_iff (hn : ∀ c ∈ calls, ((batch c).map key).Nodup) :
    Current key f batch calls ↔ Keeps key f batch calls := by
  constructor
  · rintro h pre c post rfl a ha earlier hearlier b hb hkey hsome
    have hnow := h pre c post rfl (key a)
    rw [List.flatMap_append, List.flatMap_singleton, latest_append,
      latest_of_mem (hn c (by simp)) ha, Option.some_or, Option.bind_some] at hnow
    by_contra hnone
    rw [Option.not_isSome_iff_eq_none] at hnone
    have hb' := latestGiven_eq_none.1 (hnow.symm.trans hnone) b
      (List.mem_append_left _ (List.mem_flatMap.2 ⟨earlier, hearlier, hb⟩)) hkey
    rw [hb'] at hsome
    cases hsome
  · rintro h pre c post rfl k
    have hcalls : pre ++ c :: post = (pre ++ [c]) ++ post := by simp
    rw [hcalls] at h hn
    exact h.left.bind_latest (fun c hc => hn c (List.mem_append_left _ hc)) k

end TodDl.Lib.Latest
