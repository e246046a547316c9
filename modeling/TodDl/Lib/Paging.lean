/-
  Pages — a list that is read page by page.

  The rows have increasing keys.  A page is read in batches of the rows after a key: the
  view shows some of them, and the page is full when it has shown `size` rows.  A reader
  goes on after the last row of a full page.

  * `follows_pages`: a reader who follows the pages to their end has seen the view of
    every row, once and in order;
  * `Keyset.follows_iff`: where a page is read with one row more, to know if it is the last,
    the pages can be followed exactly if every cursor is read back.
-/
import Mathlib.Data.List.Basic
import Mathlib.Order.Basic
import Mathlib.Order.Lattice

namespace TodDl.Lib

/-- A page being read: what it shows, and the key it has come to. -/
structure Scan (β κ : Type*) where
  shown : List β := []
  after : κ
  filled : Bool := false

section
variable {α β κ : Type*} (key : α → κ) (view : α → Option β) (size : ℕ)

/-- The rows of one batch, until the page is full. -/
def Scan.fill : List α → Scan β κ → Scan β κ
  | [], s => s
  | a :: rows, s =>
    match view a with
    | none => fill rows { s with after := key a }
    | some b =>
      let s := { s with shown := s.shown ++ [b], after := key a }
      if s.shown.length = size then { s with filled := true } else fill rows s

/-- Batch after batch, until the page is full or a batch is short. -/
def Scan.run (batch : κ → List α) (limit : ℕ) : ℕ → Scan β κ → Scan β κ
  | 0, s => s
  | n + 1, s =>
    if s.shown.length < size then
      let rows := batch s.after
      if rows.isEmpty then s
      else
        let s := s.fill key view size rows
        if s.filled || rows.length < limit then s else run batch limit n s
    else s

variable {key view size}

/-- A batch shows the rows up to some row, the last one if the page is not full; a full page
    ends with a row that it shows. -/
theorem Scan.fill_eq {rows : List α} {s : Scan β κ} (hs : s.filled = false)
    (hsize : s.shown.length < size) : ∃ init tail, rows = init ++ tail ∧
      (s.fill key view size rows).shown = s.shown ++ init.filterMap view ∧
      (s.fill key view size rows).after = (init.getLast?.map key).getD s.after ∧
      ((s.fill key view size rows).filled = true ∧ (s.fill key view size rows).shown.length = size ∧
          (∃ a, init.getLast? = some a ∧ (view a).isSome) ∨
        (s.fill key view size rows).filled = false ∧ tail = [] ∧
          (s.fill key view size rows).shown.length < size) := by
  induction rows generalizing s with
  | nil => exact ⟨[], [], rfl, by simp [fill], rfl, .inr ⟨hs, rfl, hsize⟩⟩
  | cons a rows ih =>
    have hlast : ∀ (init : List α) (k : κ), (init.getLast?.map key).getD (key a) =
        (((a :: init).getLast?).map key).getD k := by
      intro init k
      rw [List.getLast?_cons]
      cases init.getLast? <;> rfl
    have hshows : ∀ init : List α, (∃ x, init.getLast? = some x ∧ (view x).isSome) →
        ∃ x, (a :: init).getLast? = some x ∧ (view x).isSome := by
      rintro init ⟨x, hx, hview⟩
      exact ⟨x, by rw [List.getLast?_cons, hx]; rfl, hview⟩
    cases hview : view a with
    | none =>
      obtain ⟨init, tail, rfl, hshown, hafter, hend⟩ :=
        ih (s := { s with after := key a }) hs hsize
      have hfill : s.fill key view size (a :: (init ++ tail)) =
          Scan.fill key view size (init ++ tail) { s with after := key a } := by
        rw [fill, hview]
      rw [hfill]
      refine ⟨a :: init, tail, rfl, ?_, ?_, ?_⟩
      · rw [hshown, List.filterMap_cons_none hview]
      · rw [hafter, hlast]
      · exact hend.imp_left fun h => ⟨h.1, h.2.1, hshows _ h.2.2⟩
    | some b =>
      by_cases hfull : s.shown.length + 1 = size
      · have hfill : s.fill key view size (a :: rows) =
            { shown := s.shown ++ [b], after := key a, filled := true } := by
          rw [fill, hview]
          simp [hfull]
        rw [hfill]
        exact ⟨[a], rows, rfl, by simp [hview], rfl,
          .inl ⟨rfl, by simp [hfull], a, rfl, by simp [hview]⟩⟩
      · obtain ⟨init, tail, rfl, hshown, hafter, hend⟩ :=
          ih (s := { s with shown := s.shown ++ [b], after := key a }) hs (by simp; omega)
        have hfill : s.fill key view size (a :: (init ++ tail)) = Scan.fill key view size
            (init ++ tail) { s with shown := s.shown ++ [b], after := key a } := by
          rw [fill, hview]
          simp [hfull]
        rw [hfill]
        refine ⟨a :: init, tail, rfl, ?_, ?_, ?_⟩
        · rw [hshown, List.filterMap_cons_some hview, List.append_assoc, List.singleton_append]
        · rw [hafter, hlast]
        · exact hend.imp_left fun h => ⟨h.1, h.2.1, hshows _ h.2.2⟩

/-- A change of the rows that the key and the view do not show. -/
theorem Scan.fill_map {g : α → α} (hkey : ∀ a, key (g a) = key a) (hview : ∀ a, view (g a) = view a)
    (rows : List α) (s : Scan β κ) :
    s.fill key view size (rows.map g) = s.fill key view size rows := by
  induction rows generalizing s with
  | nil => rfl
  | cons a rows ih =>
    rw [List.map_cons, fill, fill, hview, hkey]
    cases view a with
    | none => exact ih _
    | some b => simp only [ih]

end

section
variable {α β κ : Type*} [LinearOrder κ] (key : α → κ)

/-- The rows after a key. -/
def rowsAfter (rows : List α) (k : κ) : List α := rows.filter fun a => k < key a

variable {key}

/-- After the last of the first rows come the others. -/
theorem rowsAfter_append {init tail : List α} (hs : (init ++ tail).Pairwise (key · < key ·)) {a : α}
    (hlast : init.getLast? = some a) : rowsAfter key (init ++ tail) (key a) = tail := by
  obtain ⟨hinit, -, hcross⟩ := List.pairwise_append.1 hs
  have hle : ∀ x ∈ init, ¬ key a < key x := by
    intro x hx
    obtain ⟨front, rfl⟩ := List.getLast?_eq_some_iff.1 hlast
    rcases List.mem_append.1 hx with hx | hx
    · exact ((List.pairwise_append.1 hinit).2.2 x hx a (by simp)).not_gt
    · rw [List.mem_singleton.1 hx]
      exact lt_irrefl _
  rw [rowsAfter, List.filter_append, List.filter_eq_nil_iff.2 (by simpa using hle),
    List.nil_append, List.filter_eq_self]
  exact fun x hx => by simpa using hcross a (List.mem_of_getLast? hlast) x hx

/-- The same among the rows after a key. -/
theorem rowsAfter_last {rows init tail : List α} {k : κ} (hs : rows.Pairwise (key · < key ·))
    (hrest : rowsAfter key rows k = init ++ tail) {a : α} (hlast : init.getLast? = some a) :
    rowsAfter key rows (key a) = tail := by
  have hk : k < key a := by
    have ha : a ∈ rowsAfter key rows k :=
      hrest ▸ List.mem_append_left _ (List.mem_of_getLast? hlast)
    simpa using (List.mem_filter.1 ha).2
  calc rowsAfter key rows (key a)
      = rowsAfter key (rowsAfter key rows k) (key a) := by
        rw [rowsAfter, rowsAfter, rowsAfter, List.filter_filter]
        refine List.filter_congr fun x _ => ?_
        by_cases hx : key a < key x
        · simp [hx, hk.trans hx]
        · simp [hx]
    _ = tail := by
        rw [hrest]
        exact rowsAfter_append (hrest ▸ hs.filter _) hlast

variable {view : α → Option β} {size : ℕ}

/-- A page shows the rows up to some row: it is full and shows that row, or these are all. -/
theorem Scan.run_eq {rows : List α} (hs : rows.Pairwise (key · < key ·)) {limit : ℕ}
    (hlimit : 0 < limit) {n : ℕ} {s : Scan β κ} (hfilled : s.filled = false)
    (hsize : s.shown.length < size) (hn : (rowsAfter key rows s.after).length < n) :
    let t := s.run key view size (fun k => (rowsAfter key rows k).take limit) limit n
    ∃ init tail, rowsAfter key rows s.after = init ++ tail ∧
      t.shown = s.shown ++ init.filterMap view ∧
      (t.filled = true ∧ t.shown.length = size ∧
          (∃ a, init.getLast? = some a ∧ (view a).isSome ∧ t.after = key a) ∧
          rowsAfter key rows t.after = tail ∨
        t.filled = false ∧ t.shown.length < size ∧ tail = []) := by
  induction n generalizing s with
  | zero => omega
  | succ n ih =>
    intro t
    set rest := rowsAfter key rows s.after with hrest
    by_cases hempty : rest = []
    · have ht : t = s := by
        simp only [t, Scan.run, ← hrest, hempty, List.take_nil, List.isEmpty_nil, if_true, hsize]
      exact ⟨[], [], hempty, by simp [ht], .inr ⟨by rw [ht, hfilled], by rw [ht]; exact hsize, rfl⟩⟩
    · set u := s.fill key view size (rest.take limit) with hu
      obtain ⟨init, tail, hbatch, hshown, hafter, hend⟩ : ∃ init tail,
          rest.take limit = init ++ tail ∧ u.shown = s.shown ++ init.filterMap view ∧
          u.after = (init.getLast?.map key).getD s.after ∧
          (u.filled = true ∧ u.shown.length = size ∧
              (∃ a, init.getLast? = some a ∧ (view a).isSome) ∨
            u.filled = false ∧ tail = [] ∧ u.shown.length < size) :=
        Scan.fill_eq hfilled hsize
      have ht : t = if u.filled || decide ((rest.take limit).length < limit) then u
          else u.run key view size (fun k => (rowsAfter key rows k).take limit) limit n := by
        have htake : (rest.take limit).isEmpty = false := by
          simp only [List.isEmpty_eq_false_iff, ne_eq, List.take_eq_nil_iff, hempty, or_false]
          omega
        simp only [t, Scan.run, ← hrest, htake, hsize, if_true, ← hu, Bool.false_eq_true, if_false]
      have hsplit : rest = init ++ (tail ++ rest.drop limit) := by
        rw [← List.append_assoc, ← hbatch, List.take_append_drop]
      -- after a row has been read, the rest of the rows is what follows it
      have hnext : init ≠ [] → rowsAfter key rows u.after = tail ++ rest.drop limit := by
        intro hne
        have ha := List.getLast?_eq_some_getLast hne
        rw [hafter, ha]
        exact rowsAfter_last hs (hrest.symm.trans hsplit) ha
      rcases hend with ⟨hfull, hlength, a, ha, hview⟩ | ⟨hopen, rfl, hroom⟩
      · rw [hfull, Bool.true_or, if_pos rfl] at ht
        have hne : init ≠ [] := by
          rintro rfl
          cases ha
        have hlast : u.after = key a := by
          rw [hafter, ha]
          rfl
        exact ⟨init, _, hsplit, ht ▸ hshown,
          .inl ⟨ht ▸ hfull, ht ▸ hlength, ⟨a, ha, hview, ht ▸ hlast⟩, ht ▸ hnext hne⟩⟩
      · rw [List.append_nil] at hbatch
        rw [hopen, Bool.false_or] at ht
        by_cases hshort : (rest.take limit).length < limit
        · have hall : rest.drop limit = [] := by
            rw [List.length_take] at hshort
            exact List.drop_eq_nil_of_le (by omega)
          rw [if_pos (by simpa using hshort)] at ht
          refine ⟨init, [], ?_, ht ▸ hshown, .inr ⟨ht ▸ hopen, ht ▸ hroom, rfl⟩⟩
          rw [hsplit, hall]
          simp
        · have hne : init ≠ [] := by
            simp only [← hbatch, ne_eq, List.take_eq_nil_iff, hempty, or_false]
            omega
          have hlater := hnext hne
          rw [List.nil_append] at hlater hsplit
          have hshorter : (rowsAfter key rows u.after).length < n := by
            have := congrArg List.length hsplit
            have := List.length_pos_of_ne_nil hne
            rw [List.length_append] at *
            rw [hlater]
            omega
          rw [if_neg (by simpa using hshort)] at ht
          obtain ⟨init', tail', heq, hshown', hend'⟩ := ih (s := u) hopen hroom hshorter
          rw [hlater] at heq
          refine ⟨init ++ init', tail', by rw [hsplit, heq, List.append_assoc], ?_, ?_⟩
          · rw [ht, hshown', hshown, List.filterMap_append, List.append_assoc]
          · rw [ht]
            rcases hend' with ⟨hfull', hlength', ⟨a, ha, hview, hkey⟩, htail⟩ | hopen'
            · refine .inl ⟨hfull', hlength', ⟨a, ?_, hview, hkey⟩, htail⟩
              rw [List.getLast?_append, ha]
              rfl
            · exact .inr hopen'

theorem rowsAfter_map {g : α → α} (hkey : ∀ a, key (g a) = key a) (rows : List α) (k : κ) :
    rowsAfter key (rows.map g) k = (rowsAfter key rows k).map g := by
  rw [rowsAfter, rowsAfter, List.filter_map]
  congr 1
  exact List.filter_congr fun a _ => by simp [hkey]

theorem Scan.run_map {g : α → α} (hkey : ∀ a, key (g a) = key a) (hview : ∀ a, view (g a) = view a)
    (rows : List α) (limit n : ℕ) (s : Scan β κ) :
    s.run key view size (fun k => (rowsAfter key (rows.map g) k).take limit) limit n =
      s.run key view size (fun k => (rowsAfter key rows k).take limit) limit n := by
  induction n generalizing s with
  | zero => rfl
  | succ n ih =>
    simp only [run, rowsAfter_map hkey, ← List.map_take, Scan.fill_map hkey hview,
      List.isEmpty_map, List.length_map]
    simp only [rowsAfter_map hkey, ← List.map_take] at ih
    rw [ih]

end

/-! ## Following the pages -/

section
variable {α β C ε : Type*}

/-- A reader asks for the first page, or for the one after a full page, until a page is
    the last; `rows` is what it has then seen. -/
inductive Follows (ask : Option C → Except ε (List β × Option C)) : Option C → List β → Prop
  | last {c rows} (h : ask c = .ok (rows, none)) : Follows ask c rows
  | more {c next rows later} (h : ask c = .ok (rows, some next))
      (rest : Follows ask (some next) later) : Follows ask c (rows ++ later)

variable {ask : Option C → Except ε (List β × Option C)}

theorem Follows.unique {c : Option C} {rows rows' : List β} (h : Follows ask c rows)
    (h' : Follows ask c rows') : rows = rows' := by
  induction h generalizing rows' with
  | last hask =>
    cases h' with
    | last hask' => exact (Prod.mk.inj (Except.ok.inj (hask.symm.trans hask'))).1
    | more hask' _ => simp [hask] at hask'
  | more hask _ ih =>
    cases h' with
    | last hask' => simp [hask] at hask'
    | more hask' hrest' =>
      obtain ⟨rfl, hnext⟩ := Prod.mk.inj (Except.ok.inj (hask.symm.trans hask'))
      obtain rfl := Option.some.inj hnext
      rw [ih hrest']

/-- **The pages are the view of the rows.**  `Rest c rows`: a page asked for with `c`
    begins at `rows`. -/
theorem follows_pages {view : α → Option β} (Rest : Option C → List α → Prop)
    (hpage : ∀ c rows, Rest c rows → ∃ init tail next, rows = init ++ tail ∧
      ask c = .ok (init.filterMap view, next) ∧
      (next = none → tail = []) ∧ ∀ c', next = some c' → init ≠ [] ∧ Rest (some c') tail)
    {c : Option C} {rows : List α} (h : Rest c rows) : Follows ask c (rows.filterMap view) := by
  induction hn : rows.length using Nat.strongRecOn generalizing c rows with
  | _ n ih =>
    obtain ⟨init, tail, next, rfl, hask, hlast, hmore⟩ := hpage c rows h
    cases next with
    | none =>
      rw [hlast rfl, List.append_nil]
      exact .last hask
    | some next =>
      obtain ⟨hne, hrest⟩ := hmore next rfl
      have hpos := List.length_pos_of_ne_nil hne
      rw [List.length_append] at hn
      rw [List.filterMap_append]
      exact .more hask (ih tail.length (by omega) hrest rfl)

end

/-! ## Pages with one row more -/

section
variable {α C ε κ : Type*} [LinearOrder κ] (key : α → κ) (encode : α → C) (size : ℕ)

/-- A page of these rows, read with one row more: with that row there is a cursor. -/
def keysetPage (rest : List α) : List α × Option C :=
  let rows := rest.take (size + 1)
  let shown := rows.take size
  (shown, if size < rows.length then shown.getLast?.map encode else none)

/-- A server of such pages; `Reads`: the cursor of a row is read back. -/
structure Keyset (ask : Option C → Except ε (List α × Option C)) (rows : List α)
    (Reads : α → Prop) : Prop where
  sorted : rows.Pairwise (key · < key ·)
  size_pos : 0 < size
  first : ask none = .ok (keysetPage encode size rows)
  next : ∀ a, Reads a →
    ask (some (encode a)) = .ok (keysetPage encode size (rowsAfter key rows (key a)))
  fails : ∀ a, ¬ Reads a → ∀ page, ask (some (encode a)) ≠ .ok page

/-- A reader who keeps the pages apart. -/
def byPage (ask : Option C → Except ε (List α × Option C)) (cursor : Option C) :
    Except ε (List (List α) × Option C) :=
  (ask cursor).map fun page => ([page.1], page.2)

/-- A cursor begins after `m` full pages. -/
structure AfterPages (rows : List α) (m : ℕ) (cursor : Option C) (done rest : List α) : Prop where
  split : rows = done ++ rest
  length : done.length = m * size
  start : cursor = done.getLast?.map encode
  more : done ≠ [] → rest ≠ []

variable {key encode size} {ask : Option C → Except ε (List α × Option C)} {rows : List α}
  {Reads : α → Prop} {m : ℕ} {cursor : Option C} {done rest : List α}

theorem keysetPage_eq (rest : List α) : keysetPage encode size rest =
    (rest.take size,
      if size < rest.length then (rest.take size).getLast?.map encode else none) := by
  have hmore : size < min (size + 1) rest.length ↔ size < rest.length := by omega
  simp only [keysetPage, List.take_take, List.length_take, hmore]
  rw [Nat.min_eq_left (Nat.le_succ size)]

theorem AfterPages.first : AfterPages encode size rows 0 none [] rows where
  split := rfl
  length := by simp
  start := rfl
  more := fun hne => absurd rfl hne

/-- The row before a page ends the pages before it. -/
theorem AfterPages.getElem?_eq (h : AfterPages encode size rows m cursor done rest) {a : α}
    (hlast : done.getLast? = some a) : rows[m * size - 1]? = some a := by
  obtain ⟨front, rfl⟩ := List.getLast?_eq_some_iff.1 hlast
  have hlength := h.length
  rw [List.length_append, List.length_singleton] at hlength
  rw [h.split, ← hlength, Nat.add_sub_cancel, List.append_assoc,
    List.getElem?_append_right (Nat.le_refl _), Nat.sub_self]
  rfl

/-- The page after some pages, if its cursor is read back. -/
theorem Keyset.ask_eq (h : Keyset key encode size ask rows Reads)
    (hc : AfterPages encode size rows m cursor done rest)
    (hreads : ∀ a, done.getLast? = some a → Reads a) :
    ask cursor = .ok (keysetPage encode size rest) := by
  rw [hc.start]
  cases hlast : done.getLast? with
  | none =>
    obtain rfl := List.getLast?_eq_none_iff.1 hlast
    have hrows : rows = rest := hc.split
    rw [← hrows]
    exact h.first
  | some a =>
    have hrest := rowsAfter_append (hc.split ▸ h.sorted) hlast
    rw [← hc.split] at hrest
    rw [Option.map_some, h.next a (hreads a hlast), hrest]

/-- A page that is given: its cursor is read back. -/
theorem Keyset.reads (h : Keyset key encode size ask rows Reads)
    (hc : AfterPages encode size rows m cursor done rest) {page : List α × Option C}
    (hpage : ask cursor = .ok page) {a : α} (hlast : done.getLast? = some a) : Reads a := by
  by_contra hno
  rw [hc.start, hlast] at hpage
  exact h.fails a hno page hpage

/-- The last page. -/
theorem keysetPage_last (hlast : rest.length ≤ size) :
    keysetPage encode size rest = (rest, none) := by
  rw [keysetPage_eq, List.take_of_length_le hlast, if_neg (by omega)]

/-- A page before the last one, and what is left. -/
theorem AfterPages.next (hc : AfterPages encode size rows m cursor done rest) (hpos : 0 < size)
    (hmore : size < rest.length) : ∃ c, keysetPage encode size rest = (rest.take size, some c) ∧
      AfterPages encode size rows (m + 1) (some c) (done ++ rest.take size) (rest.drop size) := by
  have hne : rest.take size ≠ [] := by
    rw [← List.length_pos_iff, List.length_take]
    omega
  obtain ⟨a, ha⟩ : ∃ a, (rest.take size).getLast? = some a := ⟨_, List.getLast?_eq_some_getLast hne⟩
  refine ⟨encode a, ?_, ?_, ?_, ?_, fun _ => ?_⟩
  · rw [keysetPage_eq, if_pos hmore, ha]
    rfl
  · rw [hc.split, List.append_assoc, List.take_append_drop]
  · rw [List.length_append, hc.length, List.length_take, Nat.succ_mul]
    omega
  · rw [List.getLast?_append, ha]
    rfl
  · rw [← List.length_pos_iff, List.length_drop]
    omega

/-- The pages of these rows: every page but the last is full, and the last is empty only if
    there are no rows. -/
structure Pages (size : ℕ) (rows : List α) (pages : List (List α)) : Prop where
  flatten : pages.flatten = rows
  full : ∀ page ∈ pages.dropLast, page.length = size
  short : ∀ page ∈ pages, page.length ≤ size
  nonempty : rows ≠ [] → [] ∉ pages

theorem byPage_eq_ok {pages : List (List α)} {next : Option C} :
    byPage ask cursor = .ok (pages, next) ↔
      ∃ page, pages = [page] ∧ ask cursor = .ok (page, next) := by
  unfold byPage
  cases hask : ask cursor with
  | error e => simp [Except.map]
  | ok page => simp [Except.map, Prod.ext_iff, eq_comm]

/-- **One page** that is given: the last one, or a full one with a cursor. -/
theorem Keyset.step (h : Keyset key encode size ask rows Reads)
    (hc : AfterPages encode size rows m cursor done rest) {pages : List (List α)}
    {next : Option C} (hask : byPage ask cursor = .ok (pages, next)) :
    (∀ a, done.getLast? = some a → Reads a) ∧
      (next = none ∧ pages = [rest] ∧ rest.length ≤ size ∨
        ∃ c, next = some c ∧ pages = [rest.take size] ∧ size < rest.length ∧
          AfterPages encode size rows (m + 1) (some c) (done ++ rest.take size)
            (rest.drop size)) := by
  obtain ⟨page, rfl, hpage⟩ := byPage_eq_ok.1 hask
  have hreads : ∀ a, done.getLast? = some a → Reads a := fun a ha => h.reads hc hpage ha
  have hpage := Except.ok.inj (hpage.symm.trans (h.ask_eq hc hreads))
  refine ⟨hreads, ?_⟩
  rcases Nat.lt_or_ge size rest.length with hmore | hlast
  · obtain ⟨c, hkeyset, hnext⟩ := hc.next h.size_pos hmore
    rw [hkeyset] at hpage
    obtain ⟨rfl, rfl⟩ := Prod.mk.inj hpage
    exact .inr ⟨c, rfl, rfl, hmore, hnext⟩
  · rw [keysetPage_last hlast] at hpage
    obtain ⟨rfl, rfl⟩ := Prod.mk.inj hpage
    exact .inl ⟨rfl, rfl, hlast⟩

theorem Follows.ne_nil {pages : List (List α)} (h : Follows (byPage ask) cursor pages) :
    pages ≠ [] := by
  cases h with
  | last hask =>
    obtain ⟨page, rfl, -⟩ := byPage_eq_ok.1 hask
    simp
  | more hask _ =>
    obtain ⟨page, rfl, -⟩ := byPage_eq_ok.1 hask
    simp

/-- **A reader who comes to the end has seen the rows**, in their pages. -/
theorem Keyset.pages_of_follows (h : Keyset key encode size ask rows Reads)
    (hc : AfterPages encode size rows m cursor done rest) {pages : List (List α)}
    (hfollows : Follows (byPage ask) cursor pages) : Pages size rest pages := by
  induction hfollows generalizing m done rest with
  | last hask =>
    obtain ⟨-, ⟨-, rfl, hshort⟩ | ⟨c, hc, -⟩⟩ := h.step hc hask
    · exact
        { flatten := by simp
          full := by simp
          short := by simpa using hshort
          nonempty := by simp [eq_comm] }
    · cases hc
  | more hask hlater ih =>
    obtain ⟨-, ⟨hnone, -⟩ | ⟨c, hsome, rfl, hmore, hnext⟩⟩ := h.step hc hask
    · cases hnone
    · obtain rfl := Option.some.inj hsome
      have hpage : (rest.take size).length = size := by
        rw [List.length_take]
        omega
      have hpages := ih hnext
      have hrest : rest.drop size ≠ [] := by
        rw [← List.length_pos_iff, List.length_drop]
        omega
      rw [List.singleton_append]
      exact
        { flatten := by rw [List.flatten_cons, hpages.flatten, List.take_append_drop]
          full := fun page hmem => by
            rw [List.dropLast_cons_of_ne_nil hlater.ne_nil] at hmem
            rcases List.mem_cons.1 hmem with rfl | hmem
            · exact hpage
            · exact hpages.full page hmem
          short := fun page hmem => by
            rcases List.mem_cons.1 hmem with rfl | hmem
            · exact Nat.le_of_eq hpage
            · exact hpages.short page hmem
          nonempty := fun _ hmem => by
            rcases List.mem_cons.1 hmem with hnil | hmem
            · have := h.size_pos
              rw [← hnil] at hpage
              simp at hpage
              omega
            · exact hpages.nonempty hrest hmem }

/-- **A reader whose cursors are read back comes to the end.** -/
theorem Keyset.follows_of_reads (h : Keyset key encode size ask rows Reads)
    (hreads : ∀ n a, 0 < n → n * size < rows.length → rows[n * size - 1]? = some a → Reads a)
    (hc : AfterPages encode size rows m cursor done rest) :
    ∃ pages, Follows (byPage ask) cursor pages := by
  induction hn : rest.length using Nat.strongRecOn generalizing m cursor done rest with
  | _ n ih =>
    have hask := h.ask_eq hc fun a ha => by
      have hne : done ≠ [] := by
        rintro rfl
        cases ha
      have hlength := hc.length
      have hdone := List.length_pos_of_ne_nil hne
      have hrest := List.length_pos_of_ne_nil (hc.more hne)
      refine hreads m a (Nat.pos_of_ne_zero ?_) ?_ (hc.getElem?_eq ha)
      · rintro rfl
        omega
      · rw [hc.split, List.length_append]
        omega
    rcases Nat.lt_or_ge size rest.length with hmore | hlast
    · obtain ⟨c, hkeyset, hnext⟩ := hc.next h.size_pos hmore
      have hshorter : (rest.drop size).length < n := by
        have := h.size_pos
        rw [List.length_drop]
        omega
      obtain ⟨pages, hpages⟩ := ih _ hshorter hnext rfl
      rw [hkeyset] at hask
      exact ⟨_, .more (byPage_eq_ok.2 ⟨_, rfl, hask⟩) hpages⟩
    · rw [keysetPage_last hlast] at hask
      exact ⟨_, .last (byPage_eq_ok.2 ⟨_, rfl, hask⟩)⟩

/-- **A reader who comes to the end** has been given cursors that are read back. -/
theorem Keyset.reads_of_follows (h : Keyset key encode size ask rows Reads)
    (hc : AfterPages encode size rows m cursor done rest) {pages : List (List α)}
    (hfollows : Follows (byPage ask) cursor pages) :
    ∀ n a, m ≤ n → 0 < n → n * size < rows.length → rows[n * size - 1]? = some a → Reads a := by
  -- the row that ends the pages before this one
  have hhere : ∀ {m cursor done rest} {pages next} {a : α},
      AfterPages encode size rows m cursor done rest →
      byPage ask cursor = .ok (pages, next) → 0 < m → rows[m * size - 1]? = some a → Reads a := by
    intro m cursor done rest pages next a hc hask hm ha
    have hne : done ≠ [] := by
      have hlength := hc.length
      have := Nat.mul_pos hm h.size_pos
      rw [← List.length_pos_iff]
      omega
    have hlast := List.getLast?_eq_some_getLast hne
    obtain rfl := Option.some.inj (ha.symm.trans (hc.getElem?_eq hlast))
    exact (h.step hc hask).1 _ hlast
  induction hfollows generalizing m done rest with
  | last hask =>
    intro n a hmn hn hin ha
    rcases Nat.eq_or_lt_of_le hmn with rfl | hlt
    · exact hhere hc hask hn ha
    · -- there is no row after the last page
      obtain ⟨-, ⟨-, -, hshort⟩ | ⟨c, hc, -⟩⟩ := h.step hc hask
      · have hmul : (m + 1) * size ≤ n * size := Nat.mul_le_mul_right _ hlt
        have hlength := hc.length
        rw [hc.split, List.length_append] at hin
        rw [Nat.succ_mul] at hmul
        omega
      · cases hc
  | more hask _ ih =>
    intro n a hmn hn hin ha
    rcases Nat.eq_or_lt_of_le hmn with rfl | hlt
    · exact hhere hc hask hn ha
    · obtain ⟨-, ⟨hnone, -⟩ | ⟨c, hsome, -, -, hnext⟩⟩ := h.step hc hask
      · cases hnone
      · exact ih (Option.some.inj hsome ▸ hnext) n a hlt hn hin ha

/-- **The pages of a keyset** can be followed exactly if the cursor after every full page but
    the last one is read back. -/
theorem Keyset.follows_iff (h : Keyset key encode size ask rows Reads) :
    (∃ pages, Follows (byPage ask) none pages ∧ Pages size rows pages) ↔
      ∀ n a, 0 < n → n * size < rows.length → rows[n * size - 1]? = some a → Reads a := by
  constructor
  · rintro ⟨pages, hfollows, -⟩ n a
    exact h.reads_of_follows .first hfollows n a (Nat.zero_le n)
  · intro hreads
    obtain ⟨pages, hfollows⟩ := h.follows_of_reads hreads .first
    exact ⟨pages, hfollows, h.pages_of_follows .first hfollows⟩

end

end TodDl.Lib
