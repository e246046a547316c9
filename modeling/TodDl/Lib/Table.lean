/-
  Tables with a primary key.

  A `Table key` is a list of rows with distinct keys, in insertion order.  The
  operations are those of SQL statements: look a row up, update the rows a
  condition selects (`modify`), insert a row unless its key is there.  `join`
  lists the rows of a list of keys.
-/
import Mathlib.Data.List.Nodup

namespace TodDl.Lib

variable {α κ : Type*} [DecidableEq κ]

/-- The first entry of a key. -/
def keyed? (key : α → κ) (l : List α) (k : κ) : Option α := l.find? fun x => key x = k

theorem keyed?_key {key : α → κ} {l : List α} {k : κ} {a : α} (h : keyed? key l k = some a) :
    key a = k := by simpa using List.find?_some h

theorem keyed?_mem {key : α → κ} {l : List α} {k : κ} {a : α} (h : keyed? key l k = some a) :
    a ∈ l := List.mem_of_find?_eq_some h

theorem keyed?_exists (key : α → κ) {l : List α} {a : α} (h : a ∈ l) :
    ∃ b, keyed? key l (key a) = some b :=
  Option.isSome_iff_exists.1 (List.find?_isSome.2 ⟨a, h, by simp⟩)

/-- With distinct keys the entry of a key is the one that has it. -/
theorem keyed?_eq_some {key : α → κ} {l : List α} (hn : (l.map key).Nodup) {k : κ} {a : α} :
    keyed? key l k = some a ↔ a ∈ l ∧ key a = k := by
  constructor
  · exact fun h => ⟨keyed?_mem h, keyed?_key h⟩
  · rintro ⟨ha, rfl⟩
    obtain ⟨b, hb⟩ := keyed?_exists key ha
    rw [hb, List.inj_on_of_nodup_map hn (keyed?_mem hb) ha (keyed?_key hb)]

theorem keyed?_eq_none {key : α → κ} {l : List α} {k : κ} :
    keyed? key l k = none ↔ k ∉ l.map key := by simp [keyed?]

/-- Rows with distinct keys. -/
structure Table {α κ : Type*} (key : α → κ) where
  rows : List α
  nodup : (rows.map key).Nodup

namespace Table
variable {key : α → κ}

def empty : Table key := ⟨[], List.nodup_nil⟩

/-- The row with a key. -/
def find? (t : Table key) (k : κ) : Option α := keyed? key t.rows k

/-- Update every row by a function that keeps the key. -/
def modify (t : Table key) (f : α → α) (hf : ∀ a, key (f a) = key a) : Table key :=
  ⟨t.rows.map f, by
    rw [List.map_map, show key ∘ f = key from funext hf]; exact t.nodup⟩

/-- `INSERT OR IGNORE` -/
def insertNew (t : Table key) (a : α) : Table key :=
  if h : key a ∈ t.rows.map key then t
  else ⟨t.rows ++ [a], by
    rw [List.map_append, List.map_singleton, List.nodup_append_comm]
    exact List.nodup_cons.2 ⟨h, t.nodup⟩⟩

theorem find?_eq_some {t : Table key} {k : κ} {a : α} :
    t.find? k = some a ↔ a ∈ t.rows ∧ key a = k := keyed?_eq_some t.nodup

theorem find?_key {t : Table key} {k : κ} {a : α} (h : t.find? k = some a) : key a = k :=
  keyed?_key h

theorem find?_eq_none {t : Table key} {k : κ} : t.find? k = none ↔ k ∉ t.rows.map key :=
  keyed?_eq_none

omit [DecidableEq κ] in
@[simp] theorem rows_modify (t : Table key) (f : α → α) (hf : ∀ a, key (f a) = key a) :
    (t.modify f hf).rows = t.rows.map f := rfl

omit [DecidableEq κ] in
theorem modify_self {t : Table key} {f : α → α} (hf : ∀ a, key (f a) = key a)
    (h : ∀ a ∈ t.rows, f a = a) : t.modify f hf = t := by
  have hrows : t.rows.map f = t.rows := (List.map_congr_left h).trans (List.map_id _)
  obtain ⟨rows, nodup⟩ := t
  simp only [modify, mk.injEq]
  exact hrows

@[simp] theorem find?_modify (t : Table key) (f : α → α) (hf : ∀ a, key (f a) = key a) (k : κ) :
    (t.modify f hf).find? k = (t.find? k).map f := by
  simp only [find?, keyed?, modify, List.find?_map]
  congr 2
  funext a
  simp [hf]

theorem find?_insertNew (t : Table key) (a : α) (k : κ) :
    (t.insertNew a).find? k = (t.find? k).or (if key a = k then some a else none) := by
  unfold insertNew
  split
  · next h =>
    by_cases hk : key a = k
    · subst hk
      obtain ⟨b, hb⟩ := Option.isSome_iff_exists.1
        (Option.isSome_iff_ne_none.2 (mt find?_eq_none.1 (not_not.2 h)))
      simp [hb]
    · simp [hk]
  · simp only [find?, keyed?, List.find?_append, List.find?_singleton, decide_eq_true_eq]

theorem insertNew_of_mem {t : Table key} {a : α} (h : key a ∈ t.rows.map key) :
    t.insertNew a = t := dif_pos h

/-- An insert keeps the rows that are there. -/
theorem find?_insertNew_of_some {t : Table key} {a b : α} {k : κ} (h : t.find? k = some b) :
    (t.insertNew a).find? k = some b := by
  rw [find?_insertNew, h, Option.some_or]

/-! ## Joins -/

/-- The rows with the given keys, in the order of the keys. -/
def join (t : Table key) (ks : List κ) : List α := ks.filterMap t.find?

theorem join_modify (t : Table key) (f : α → α) (hf : ∀ a, key (f a) = key a) (ks : List κ) :
    (t.modify f hf).join ks = (t.join ks).map f := by
  simp [join, List.map_filterMap]

theorem mem_join {t : Table key} {ks : List κ} {a : α} :
    a ∈ t.join ks ↔ key a ∈ ks ∧ a ∈ t.rows := by
  simp only [join, List.mem_filterMap, find?_eq_some]
  constructor
  · rintro ⟨k, hk, ha, rfl⟩; exact ⟨hk, ha⟩
  · rintro ⟨hk, ha⟩; exact ⟨_, hk, ha, rfl⟩

/-- The keys of a join are some of the given keys, in their order. -/
theorem sublist_join (t : Table key) (ks : List κ) : ((t.join ks).map key).Sublist ks := by
  induction ks with
  | nil => exact List.Sublist.refl _
  | cons k ks ih =>
    simp only [join, List.filterMap_cons]
    cases hk : t.find? k with
    | none => exact ih.cons k
    | some a =>
      simp only [List.map_cons, find?_key hk]
      exact ih.cons_cons k

/-- A join over distinct keys has rows with distinct keys. -/
theorem nodup_join {t : Table key} {ks : List κ} (h : ks.Nodup) :
    ((t.join ks).map key).Nodup := h.sublist (t.sublist_join ks)

end Table

end TodDl.Lib
