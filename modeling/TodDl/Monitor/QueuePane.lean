/-
  The monitor — paging through the queue (monitor.py, `QueuePane`).

  The pane keeps the cursors of the visited pages and an index into them; a paging
  action moves the index and asks for a page, and the answer comes later, if the request
  is sent at all.  A `Viewed` pane also keeps which pages were displayed.

  `inStep_run`: what is displayed stays in step with the cursors in every run in which
  no paging action comes while a request is active, and every request is answered by a
  page.
-/
import Mathlib.Data.List.Chain
import TodDl.Store.Db

namespace TodDl.Monitor

open Store (truthy)

variable {ρ : Type}

/-! ## The pane -/

/-- The position that a Python index means; a negative one counts from the end. -/
def pyIndex (length : ℕ) (i : ℤ) : Option ℕ :=
  if 0 ≤ i ∧ i < length then some i.toNat
  else if i < 0 ∧ 0 ≤ i + length then some (i + length).toNat
  else none

/-- `l[i]`; none for an `IndexError`. -/
def pyGet (l : List (Option String)) (i : ℤ) : Option (Option String) :=
  (pyIndex l.length i).bind fun k => l[k]?

/-- `l[i] = v` -/
def pySet (l : List (Option String)) (i : ℤ) (v : Option String) :
    Option (List (Option String)) :=
  (pyIndex l.length i).map fun k => l.set k v

/-- The bucket and the search text. -/
abbrev Filters := String × String

/-- A request that was sent. -/
structure Sent where
  cursor : Option String
  filters : Filters

structure QueuePane (ρ : Type) where
  filters : Filters := ("all", "")
  cursorStack : List (Option String) := [none]
  pageIndex : ℤ := 0
  nextCursor : Option String := none
  rows : List ρ := []
  /-- `request_active`, with what the callback of the request knows -/
  inFlight : Option Sent := none
  /-- `inspection_request_active` of the application -/
  inspectionActive : Bool := false
  /-- whether there is an endpoint -/
  hasState : Bool := true
  /-- an action raised, which ends the application -/
  ended : Bool := false

/-- What the callback of a request is given. -/
inductive Answer (ρ : Type) where
  /-- an error, no response, or rows that are not a list -/
  | failed
  | page (rows : List ρ) (nextCursor : Option String)

namespace QueuePane
variable (s : QueuePane ρ)

/-- `apply_page(cursor, response, error)`; an `IndexError` in it is logged. -/
def applyPage (cursor : Option String) : Answer ρ → QueuePane ρ
  | .failed => { s with inFlight := none }
  | .page [] _ =>
    if cursor = none then { s with inFlight := none, rows := [] }
    else { s with inFlight := none, nextCursor := none }
  | .page (row :: rows) nextCursor =>
    let s := { s with inFlight := none, rows := row :: rows, nextCursor }
    let stack :=
      if (s.cursorStack.length : ℤ) ≤ s.pageIndex + 1 then some (s.cursorStack ++ [nextCursor])
      else pySet s.cursorStack (s.pageIndex + 1) nextCursor
    match stack with
    | none => s
    | some stack =>
      let excess := stack.length - 100
      if 100 < stack.length then
        { s with cursorStack := stack.drop excess, pageIndex := s.pageIndex - excess }
      else { s with cursorStack := stack }

/-- `request_page(cursor)`; a request that is refused fails at once. -/
def requestPage (cursor : Option String) : QueuePane ρ :=
  if s.inFlight.isSome then s
  else if s.inspectionActive || !s.hasState then s.applyPage cursor .failed
  else { s with inFlight := some ⟨cursor, s.filters⟩, inspectionActive := true }

/-- `request_page(self.cursor_stack[self.page_index])` -/
def requestIndex : QueuePane ρ :=
  match pyGet s.cursorStack s.pageIndex with
  | none => { s with ended := true }
  | some cursor => s.requestPage cursor

/-- `reload(reset=True)`, with the number of selected items. -/
def reload (selectedCount : ℕ) : QueuePane ρ :=
  let s := { s with cursorStack := [none], pageIndex := 0, nextCursor := none }
  if selectedCount = 0 then { s with rows := [] } else s.requestIndex

/-- `action_next_page` -/
def nextPage : QueuePane ρ :=
  if !truthy s.nextCursor then s
  else
    let s := { s with pageIndex := s.pageIndex + 1 }
    let stack :=
      if (s.cursorStack.length : ℤ) ≤ s.pageIndex then s.cursorStack ++ [s.nextCursor]
      else s.cursorStack
    { s with cursorStack := stack }.requestIndex

/-- `action_previous_page` -/
def previousPage : QueuePane ρ :=
  if s.pageIndex = 0 then s else { s with pageIndex := s.pageIndex - 1 }.requestIndex

/-- `action_first_page`, where it is not disabled. -/
def firstPage : QueuePane ρ :=
  if s.pageIndex = 0 ∧ s.cursorStack.head? = some none then s
  else { s with pageIndex := 0, cursorStack := [none], nextCursor := none }.requestPage none

end QueuePane

/-! ## Runs -/

/-- What happens to the pane. -/
inductive Event (ρ : Type) where
  | nextPage
  | previousPage
  | firstPage
  /-- the pane is mounted, the filters change, or the results are refreshed -/
  | reload (filters : Filters) (selectedCount : ℕ)
  /-- the request of the pane is answered -/
  | answered (answer : Answer ρ)
  /-- another inspection request starts or ends -/
  | inspection (active : Bool)

/-- A page that was displayed: how it was asked for, and the cursor it gave. -/
structure Page where
  cursor : Option String
  filters : Filters
  next : Option String

/-- A pane with the page that it displays and those that it did display. -/
structure Viewed (ρ : Type) where
  pane : QueuePane ρ
  shown : Option Page := none
  visited : List Page := []

namespace Viewed
variable (v : Viewed ρ)

/-- A page is displayed. -/
def display (page : Page) : Viewed ρ :=
  { v with shown := some page, visited := v.visited ++ [page] }

/-- What an answer displays. -/
def displayAnswer (sent : Sent) : Answer ρ → Viewed ρ
  | .failed => v
  | .page [] _ => if sent.cursor = none then v.display ⟨none, sent.filters, none⟩ else v
  | .page (_ :: _) nextCursor => v.display ⟨sent.cursor, sent.filters, nextCursor⟩

def step (v : Viewed ρ) (e : Event ρ) : Viewed ρ :=
  if v.pane.ended then v
  else match e with
    | .nextPage => { v with pane := v.pane.nextPage }
    | .previousPage => { v with pane := v.pane.previousPage }
    | .firstPage => { v with pane := v.pane.firstPage }
    | .reload filters selectedCount =>
      let v := { v with pane := { v.pane with filters }.reload selectedCount }
      if selectedCount = 0 then v.display ⟨none, filters, none⟩ else v
    | .answered answer => match v.pane.inFlight with
      | none => v
      | some sent => { v with
          pane := { v.pane with inspectionActive := false }.applyPage sent.cursor answer
          }.displayAnswer sent answer
    | .inspection active => { v with pane := { v.pane with inspectionActive := active } }

def run (v : Viewed ρ) (events : List (Event ρ)) : Viewed ρ := events.foldl step v

end Viewed

/-- The page that **PageDown** goes to. -/
def QueuePane.downTarget (s : QueuePane ρ) : Option (Option String) :=
  if !truthy s.nextCursor then none
  else if (s.cursorStack.length : ℤ) ≤ s.pageIndex + 1 then some s.nextCursor
  else pyGet s.cursorStack (s.pageIndex + 1)

/-- The page that **PageUp** goes to. -/
def QueuePane.upTarget (s : QueuePane ρ) : Option (Option String) :=
  if s.pageIndex = 0 then none else pyGet s.cursorStack (s.pageIndex - 1)

/-- The displayed page is that of the index, and the keys go to its neighbours. -/
structure Viewed.Displays (v : Viewed ρ) (page : Page) : Prop where
  cursor : pyGet v.pane.cursorStack v.pane.pageIndex = some page.cursor
  filters : v.pane.filters = page.filters
  down : v.pane.downTarget = if truthy page.next then some page.next else none
  up : ∀ cursor, v.pane.upTarget = some cursor → ∃ before ∈ v.visited,
    before.cursor = cursor ∧ before.filters = page.filters ∧ before.next = page.cursor

/-- Paging is in step with what is displayed. -/
structure Viewed.InStep (v : Viewed ρ) : Prop where
  running : v.pane.ended = false
  index : 0 ≤ v.pane.pageIndex ∧ v.pane.pageIndex < v.pane.cursorStack.length
  bounded : v.pane.cursorStack.length ≤ 100
  displays : v.pane.inFlight = none → ∀ page, v.shown = some page → v.Displays page

/-- No request is active and there is an endpoint: a request is sent. -/
def QueuePane.Free (s : QueuePane ρ) : Prop :=
  s.inFlight = none ∧ s.inspectionActive = false ∧ s.hasState = true

/-- A step on which the pane keeps up: an action that asks for a page comes when its request
    is sent, and an answer is a page with rows, or the empty first page.  Before anything is
    displayed, requests may fail. -/
def Viewed.Keeps (v : Viewed ρ) : Event ρ → Prop
  | .nextPage => truthy v.pane.nextCursor = true → v.pane.Free
  | .previousPage => v.pane.pageIndex ≠ 0 → v.pane.Free
  | .firstPage => (v.pane.pageIndex = 0 ∧ v.pane.cursorStack.head? = some none) ∨ v.pane.Free
  | .reload _ selectedCount =>
    v.pane.inFlight = none ∧ (selectedCount = 0 ∨ v.shown = none ∨ v.pane.Free)
  | .answered .failed => v.shown = none
  | .answered (.page rows _) => rows ≠ [] ∨
      (v.pane.nextCursor = none ∧ ∀ sent, v.pane.inFlight = some sent → sent.cursor = none)
  | .inspection _ => True

/-- A run of such steps. -/
def Viewed.KeepsAll : Viewed ρ → List (Event ρ) → Prop
  | _, [] => True
  | v, e :: events => v.Keeps e ∧ KeepsAll (v.step e) events

/-! ## The invariant -/

section
variable {l : List (Option String)} {k : ℕ} {c : Option String}

theorem pyGet_natCast : pyGet l k = l[k]? := by
  unfold pyGet pyIndex
  by_cases hk : k < l.length
  · rw [if_pos ⟨by omega, by omega⟩]
    simp
  · rw [if_neg (by omega), if_neg (by omega), List.getElem?_eq_none (by omega)]
    rfl

theorem pySet_natCast (h : k < l.length) : pySet l k c = some (l.set k c) := by
  unfold pySet pyIndex
  rw [if_pos ⟨by omega, by omega⟩]
  simp

end

/-- A displayed page gave the second cursor and was asked for with the first. -/
def Linked (visited : List Page) (filters : Filters) (a b : Option String) : Prop :=
  ∃ page ∈ visited, page.cursor = a ∧ page.filters = filters ∧ page.next = b

/-- The index is `k`: what holds whether a request is in flight or not. -/
structure Viewed.Inv (v : Viewed ρ) (k : ℕ) : Prop where
  running : v.pane.ended = false
  index : v.pane.pageIndex = k
  valid : k < v.pane.cursorStack.length
  bounded : v.pane.cursorStack.length ≤ 100
  links : (v.pane.cursorStack.take (k + 1)).IsChain (Linked v.visited v.pane.filters)
  unseen : v.shown = none → v.pane.cursorStack = [none] ∧ v.pane.nextCursor = none
  idle : v.pane.inFlight = none → ∀ page, v.shown = some page → page ∈ v.visited ∧
    v.pane.cursorStack[k]? = some page.cursor ∧ v.pane.filters = page.filters ∧
      page.next = v.pane.nextCursor ∧
        (truthy v.pane.nextCursor = true → v.pane.cursorStack[k + 1]? = some v.pane.nextCursor)
  sent : ∀ sent, v.pane.inFlight = some sent →
    v.pane.cursorStack[k]? = some sent.cursor ∧ v.pane.filters = sent.filters

section
variable {v : Viewed ρ} {k : ℕ}

/-- **The invariant says that paging is in step.** -/
theorem Viewed.Inv.inStep (h : v.Inv k) : v.InStep where
  running := h.running
  index := by
    have hvalid := h.valid
    rw [h.index]
    omega
  bounded := h.bounded
  displays hidle page hshown := by
    obtain ⟨hmem, hcursor, hfilters, hnext, hstacked⟩ := h.idle hidle page hshown
    refine ⟨by rw [h.index, pyGet_natCast, hcursor], hfilters, ?_, fun cursor hup => ?_⟩
    · rw [QueuePane.downTarget, hnext, h.index]
      by_cases htruthy : truthy v.pane.nextCursor = true
      · have hlater := hstacked htruthy
        have hlength := (List.getElem?_eq_some_iff.1 hlater).1
        rw [if_neg (by simp [htruthy]), if_neg (by omega), if_pos htruthy]
        exact (pyGet_natCast (k := k + 1)).trans hlater
      · rw [if_pos (by simpa using htruthy), if_neg htruthy]
    · rw [QueuePane.upTarget, h.index] at hup
      cases k with
      | zero => simp at hup
      | succ k =>
        rw [if_neg (by omega), show ((k + 1 : ℕ) : ℤ) - 1 = (k : ℤ) by omega,
          pyGet_natCast] at hup
        -- the displayed page is linked to the one before it
        have hlinks := List.isChain_iff_getElem.1 h.links k (by
          have hvalid := h.valid
          rw [List.length_take]
          omega)
        rw [List.getElem_take, List.getElem_take] at hlinks
        obtain ⟨before, hbefore, hc, hf, hn⟩ := hlinks
        refine ⟨before, hbefore, hc.trans ?_, hf.trans hfilters, hn.trans ?_⟩
        · exact Option.some.inj ((List.getElem?_eq_getElem _).symm.trans hup)
        · exact Option.some.inj ((List.getElem?_eq_getElem _).symm.trans hcursor)

/-- A request that is sent. -/
theorem QueuePane.requestPage_free {s : QueuePane ρ} (h : s.Free) (cursor : Option String) :
    s.requestPage cursor =
      { s with inFlight := some ⟨cursor, s.filters⟩, inspectionActive := true } := by
  obtain ⟨hidle, hinactive, hstate⟩ := h
  rw [QueuePane.requestPage, hidle, hinactive, hstate]
  rfl

theorem QueuePane.requestIndex_eq {s : QueuePane ρ} {cursor : Option String}
    (hindex : s.pageIndex = k) (hcursor : s.cursorStack[k]? = some cursor) :
    s.requestIndex = s.requestPage cursor := by
  rw [QueuePane.requestIndex, hindex, pyGet_natCast, hcursor]

theorem Linked.mono {visited visited' : List Page} {filters : Filters} {a b : Option String}
    (h : Linked visited filters a b) (hsub : visited ⊆ visited') : Linked visited' filters a b :=
  h.imp fun _ hpage => ⟨hsub hpage.1, hpage.2⟩

/-- **PageDown** goes one page on. -/
theorem Viewed.Inv.nextPage (h : v.Inv k) (hkeeps : v.Keeps .nextPage) :
    ∃ k, Viewed.Inv { v with pane := v.pane.nextPage } k := by
  by_cases htruthy : truthy v.pane.nextCursor = true
  · have hfree := hkeeps htruthy
    obtain ⟨page, hshown⟩ : ∃ page, v.shown = some page := by
      refine Option.ne_none_iff_exists'.1 fun hunseen => ?_
      rw [(h.unseen hunseen).2] at htruthy
      cases htruthy
    obtain ⟨hmem, hcursor, hfilters, hnext, hstacked⟩ := h.idle hfree.1 page hshown
    have hlater := hstacked htruthy
    have hlength := (List.getElem?_eq_some_iff.1 hlater).1
    have hpane : v.pane.nextPage = { v.pane with
        pageIndex := v.pane.pageIndex + 1
        inFlight := some ⟨v.pane.nextCursor, v.pane.filters⟩
        inspectionActive := true } := by
      rw [QueuePane.nextPage, if_neg (by simp [htruthy])]
      dsimp only
      rw [h.index, if_neg (by omega)]
      refine (QueuePane.requestIndex_eq (k := k + 1) ?_ ?_).trans
        (QueuePane.requestPage_free ?_ v.pane.nextCursor)
      · simp
      · exact hlater
      · exact ⟨hfree.1, hfree.2.1, hfree.2.2⟩
    rw [hpane]
    refine ⟨k + 1, h.running, ?_, hlength, h.bounded, ?_, ?_, ?_, ?_⟩
    · simp [h.index]
    · -- the displayed page gave the cursor of the page that is asked for
      have htake : v.pane.cursorStack.take (k + 2) =
          v.pane.cursorStack.take (k + 1) ++ [v.pane.nextCursor] := by
        rw [List.take_add_one, hlater]
        rfl
      dsimp only
      rw [htake, List.isChain_append]
      refine ⟨h.links, List.isChain_singleton _, fun a ha b hb => ?_⟩
      obtain rfl : v.pane.nextCursor = b := by simpa using hb
      have hlast : a = page.cursor := by
        rw [List.take_add_one, hcursor] at ha
        simpa using ha.symm
      exact ⟨page, hmem, hlast.symm, hfilters.symm, hnext⟩
    · intro hunseen
      rw [hshown] at hunseen
      cases hunseen
    · exact nofun
    · rintro sent hsent
      obtain rfl := Option.some.inj hsent
      exact ⟨hlater, rfl⟩
  · have hpane : v.pane.nextPage = v.pane := by
      rw [QueuePane.nextPage, if_pos (by simpa using htruthy)]
    rw [hpane]
    exact ⟨k, h⟩

/-- **PageUp** goes one page back. -/
theorem Viewed.Inv.previousPage (h : v.Inv k) (hkeeps : v.Keeps .previousPage) :
    ∃ k, Viewed.Inv { v with pane := v.pane.previousPage } k := by
  cases k with
  | zero =>
    have hpane : v.pane.previousPage = v.pane := by
      rw [QueuePane.previousPage, if_pos (by simpa using h.index)]
    rw [hpane]
    exact ⟨0, h⟩
  | succ k =>
    have hindex : v.pane.pageIndex ≠ 0 := by
      rw [h.index]
      omega
    have hfree := hkeeps hindex
    have hvalid : k < v.pane.cursorStack.length := by
      have hvalid := h.valid
      omega
    have hcursor := List.getElem?_eq_getElem hvalid
    have hpane : v.pane.previousPage = { v.pane with
        pageIndex := v.pane.pageIndex - 1
        inFlight := some ⟨v.pane.cursorStack[k], v.pane.filters⟩
        inspectionActive := true } := by
      rw [QueuePane.previousPage, if_neg hindex]
      refine (QueuePane.requestIndex_eq (k := k) ?_ ?_).trans
        (QueuePane.requestPage_free ?_ v.pane.cursorStack[k])
      · simp [h.index]
      · exact hcursor
      · exact ⟨hfree.1, hfree.2.1, hfree.2.2⟩
    rw [hpane]
    refine ⟨k, h.running, ?_, hvalid, h.bounded, ?_, ?_, ?_, ?_⟩
    · simp [h.index]
    · have htake : v.pane.cursorStack.take (k + 1) =
          (v.pane.cursorStack.take (k + 2)).take (k + 1) := by
        rw [List.take_take, Nat.min_eq_left (by omega)]
      dsimp only
      rw [htake]
      exact h.links.take _
    · intro hunseen
      exact h.unseen hunseen
    · exact nofun
    · rintro sent hsent
      obtain rfl := Option.some.inj hsent
      exact ⟨hcursor, rfl⟩

/-- The pane with no page but the first. -/
theorem Viewed.inv_first {pane : QueuePane ρ} (hrunning : pane.ended = false)
    (hstack : pane.cursorStack = [none]) (hindex : pane.pageIndex = 0)
    (hnext : pane.nextCursor = none)
    (hidle : pane.inFlight = none → ∀ page, v.shown = some page → page ∈ v.visited ∧
      page.cursor = none ∧ pane.filters = page.filters ∧ page.next = none)
    (hsent : ∀ sent, pane.inFlight = some sent →
      sent.cursor = none ∧ pane.filters = sent.filters) :
    Viewed.Inv { v with pane } 0 where
  running := hrunning
  index := hindex
  valid := by simp [hstack]
  bounded := by simp [hstack]
  links := by simp [hstack]
  unseen _ := ⟨hstack, hnext⟩
  idle hno page hshown := by
    obtain ⟨hmem, hcursor, hfilters, hn⟩ := hidle hno page hshown
    exact ⟨hmem, by simp [hstack, hcursor], hfilters, by rw [hn, hnext],
      by simp [hnext, truthy]⟩
  sent sent hs := by
    obtain ⟨hcursor, hfilters⟩ := hsent sent hs
    exact ⟨by simp [hstack, hcursor], hfilters⟩

/-- **First page** asks for it. -/
theorem Viewed.Inv.firstPage (h : v.Inv k) (hkeeps : v.Keeps .firstPage) :
    ∃ k, Viewed.Inv { v with pane := v.pane.firstPage } k := by
  by_cases hfirst : v.pane.pageIndex = 0 ∧ v.pane.cursorStack.head? = some none
  · rw [QueuePane.firstPage, if_pos hfirst]
    exact ⟨k, h⟩
  · have hfree := hkeeps.resolve_left hfirst
    rw [QueuePane.firstPage, if_neg hfirst, QueuePane.requestPage_free]
    swap
    · exact ⟨hfree.1, hfree.2.1, hfree.2.2⟩
    refine ⟨0, inv_first h.running rfl rfl rfl nofun ?_⟩
    rintro sent hsent
    obtain rfl := Option.some.inj hsent
    exact ⟨rfl, rfl⟩

/-- A reload asks for the first page under the filters. -/
theorem Viewed.Inv.reload (h : v.Inv k) {filters : Filters} {selectedCount : ℕ}
    (hkeeps : v.Keeps (.reload filters selectedCount)) :
    ∃ k, (v.step (.reload filters selectedCount)).Inv k := by
  obtain ⟨hidle, hsends⟩ := hkeeps
  rw [Viewed.step, if_neg (by simp [h.running])]
  dsimp only
  by_cases hzero : selectedCount = 0
  · -- no request: the empty first page is displayed
    rw [if_pos hzero, QueuePane.reload, if_pos hzero]
    refine ⟨0, inv_first (v := v.display ⟨none, filters, none⟩) h.running rfl rfl rfl ?_ ?_⟩
    · rintro - page hpage
      obtain rfl := Option.some.inj hpage
      exact ⟨List.mem_append_right _ (List.mem_singleton_self _), rfl, rfl, rfl⟩
    · rintro sent hsent
      exact absurd (hidle.symm.trans hsent) nofun
  · rw [if_neg hzero, QueuePane.reload, if_neg hzero]
    rw [QueuePane.requestIndex_eq (k := 0) rfl rfl]
    by_cases hfree : v.pane.Free
    · rw [QueuePane.requestPage_free]
      swap
      · exact ⟨hfree.1, hfree.2.1, hfree.2.2⟩
      refine ⟨0, inv_first h.running rfl rfl rfl nofun ?_⟩
      rintro sent hsent
      obtain rfl := Option.some.inj hsent
      exact ⟨rfl, rfl⟩
    · -- a refused request leaves nothing displayed
      have hunseen := (hsends.resolve_left hzero).resolve_right hfree
      have hrefused : (v.pane.inspectionActive || !v.pane.hasState) = true := by
        by_contra hno
        rw [Bool.not_eq_true, Bool.or_eq_false_iff] at hno
        exact hfree ⟨hidle, hno.1, by simpa using hno.2⟩
      rw [QueuePane.requestPage, if_neg (by simp [hidle]), if_pos hrefused]
      refine ⟨0, inv_first h.running rfl rfl rfl ?_ nofun⟩
      intro _ page hpage
      exact absurd (hunseen.symm.trans hpage) nofun

/-- The stack after a page with rows: the next cursor stands behind the index, and the oldest
    entry goes if there are too many. -/
theorem QueuePane.applyPage_cons {s : QueuePane ρ} (hindex : s.pageIndex = k)
    (hvalid : k < s.cursorStack.length) (hbounded : s.cursorStack.length ≤ 100)
    (cursor : Option String) (row : ρ) (rows : List ρ) (next : Option String) :
    ∃ (stack : List (Option String)) (e : ℕ), s.applyPage cursor (.page (row :: rows) next) =
        { s with inFlight := none, rows := row :: rows, nextCursor := next
                 cursorStack := stack.drop e, pageIndex := (k - e : ℕ) } ∧
      e ≤ k ∧ stack.length ≤ e + 100 ∧ stack.take (k + 1) = s.cursorStack.take (k + 1) ∧
        stack[k + 1]? = some next := by
  unfold QueuePane.applyPage
  dsimp only
  by_cases hlast : s.cursorStack.length ≤ k + 1
  · have hlength : s.cursorStack.length = k + 1 := by omega
    rw [hindex, if_pos (by omega)]
    dsimp only
    have htake : (s.cursorStack ++ [next]).take (k + 1) = s.cursorStack.take (k + 1) := by
      rw [List.take_append_of_le_length (by omega)]
    have hnext : (s.cursorStack ++ [next])[k + 1]? = some next := by
      rw [← hlength]
      exact List.getElem?_concat_length
    rw [List.length_append, List.length_singleton]
    by_cases hmany : 100 < s.cursorStack.length + 1
    · rw [if_pos hmany]
      refine ⟨s.cursorStack ++ [next], s.cursorStack.length + 1 - 100, ?_, by omega, ?_,
        htake, hnext⟩
      · have hk : s.cursorStack.length + 1 - 100 ≤ k := by omega
        rw [Int.natCast_sub hk]
      · rw [List.length_append, List.length_singleton]
        omega
    · rw [if_neg hmany]
      refine ⟨s.cursorStack ++ [next], 0, by simp, by omega, ?_, htake, hnext⟩
      rw [List.length_append, List.length_singleton]
      omega
  · rw [hindex, if_neg (by omega), show ((k : ℤ) + 1) = ((k + 1 : ℕ) : ℤ) by omega,
      pySet_natCast (by omega)]
    dsimp only
    rw [List.length_set, if_neg (by omega)]
    refine ⟨s.cursorStack.set (k + 1) next, 0, by simp, by omega, ?_, ?_, ?_⟩
    · rw [List.length_set]
      omega
    · rw [List.take_set_of_le le_rfl]
    · rw [List.getElem?_set_self (by omega)]

theorem Viewed.step_answered (hrunning : v.pane.ended = false) {sent : Sent}
    (hsent : v.pane.inFlight = some sent) (answer : Answer ρ) : v.step (.answered answer) =
      Viewed.displayAnswer { v with
        pane := QueuePane.applyPage { v.pane with inspectionActive := false } sent.cursor answer }
          sent answer := by
  rw [Viewed.step, if_neg (by simp [hrunning])]
  dsimp only
  split
  · next hnone =>
    rw [hsent] at hnone
    cases hnone
  · next sent' hsent' =>
    obtain rfl := Option.some.inj (hsent.symm.trans hsent')
    rfl

/-- **A page with rows** is displayed at the index. -/
theorem Viewed.Inv.page (h : v.Inv k) {sent : Sent} (hsent : v.pane.inFlight = some sent)
    (row : ρ) (rows : List ρ) (next : Option String) :
    ∃ k, (v.step (.answered (.page (row :: rows) next))).Inv k := by
  obtain ⟨hcursor, hfilters⟩ := h.sent sent hsent
  rw [Viewed.step_answered h.running hsent]
  obtain ⟨stack, e, hpane, he, hbounded, htake, hnext⟩ := QueuePane.applyPage_cons
    (s := { v.pane with inspectionActive := false }) h.index h.valid h.bounded
    sent.cursor row rows next
  rw [hpane, Viewed.displayAnswer]
  dsimp only at htake
  have hlength := (List.getElem?_eq_some_iff.1 hnext).1
  have hsub : v.visited ⊆ v.visited ++ [⟨sent.cursor, sent.filters, next⟩] :=
    List.subset_append_left _ _
  refine ⟨k - e, h.running, rfl, ?_, ?_, ?_, nofun, ?_, nofun⟩
  · simp only [Viewed.display, List.length_drop]
    omega
  · simp only [Viewed.display, List.length_drop]
    omega
  · have hfront : (stack.drop e).take (k - e + 1) = (v.pane.cursorStack.take (k + 1)).drop e := by
      rw [← htake, List.drop_take]
      congr 1
      omega
    simp only [Viewed.display]
    rw [hfront]
    exact (h.links.imp fun _ _ hlinked => hlinked.mono hsub).drop e
  · rintro - page hpage
    obtain rfl := Option.some.inj hpage
    refine ⟨List.mem_append_right _ (List.mem_singleton_self _), ?_, hfilters, rfl, fun _ => ?_⟩
    · have hk : stack[k]? = some sent.cursor := by
        rw [← List.getElem?_take_of_lt (Nat.lt_succ_self k), htake,
          List.getElem?_take_of_lt (Nat.lt_succ_self k), hcursor]
      simp only [Viewed.display, List.getElem?_drop]
      rw [show e + (k - e) = k by omega, hk]
    · simp only [Viewed.display, List.getElem?_drop]
      rw [show e + (k - e + 1) = k + 1 by omega, hnext]

/-- **An answer** displays what was asked for. -/
theorem Viewed.Inv.answered (h : v.Inv k) {answer : Answer ρ}
    (hkeeps : v.Keeps (.answered answer)) :
    ∃ k, (v.step (.answered answer)).Inv k := by
  cases hsent : v.pane.inFlight with
  | none =>
    refine ⟨k, ?_⟩
    rw [Viewed.step, if_neg (by simp [h.running])]
    dsimp only
    rw [hsent]
    exact h
  | some sent =>
    obtain ⟨hcursor, hfilters⟩ := h.sent sent hsent
    cases answer with
    | failed =>
      -- nothing is displayed yet
      have hunseen : v.shown = none := hkeeps
      rw [Viewed.step_answered h.running hsent]
      exact ⟨k, h.running, h.index, h.valid, h.bounded, h.links, h.unseen,
        fun _ page hpage => absurd (hunseen.symm.trans hpage) nofun, nofun⟩
    | page rows next =>
      cases rows with
      | cons row rows => exact h.page hsent row rows next
      | nil =>
        obtain ⟨hnext, hfirst⟩ := hkeeps.resolve_left fun hne => hne rfl
        have hnone := hfirst sent hsent
        rw [Viewed.step_answered h.running hsent, Viewed.displayAnswer, if_pos hnone,
          QueuePane.applyPage, if_pos hnone]
        refine ⟨k, h.running, h.index, h.valid, h.bounded, ?_, nofun, ?_, nofun⟩
        · exact h.links.imp fun _ _ hlinked => hlinked.mono (List.subset_append_left _ _)
        · rintro - page hpage
          obtain rfl := Option.some.inj hpage
          refine ⟨List.mem_append_right _ (List.mem_singleton_self _), hnone ▸ hcursor,
            hfilters, hnext.symm, fun htruthy => ?_⟩
          rw [show ({ v with pane := _ } : Viewed ρ).display _ = _ from rfl] at htruthy
          simp [Viewed.display, hnext, truthy] at htruthy

/-- **One step** keeps the invariant. -/
theorem Viewed.inv_step (h : v.Inv k) {e : Event ρ} (hkeeps : v.Keeps e) :
    ∃ k, (v.step e).Inv k := by
  have hrunning : ¬ v.pane.ended = true := by simp [h.running]
  cases e with
  | nextPage =>
    rw [Viewed.step, if_neg hrunning]
    exact h.nextPage hkeeps
  | previousPage =>
    rw [Viewed.step, if_neg hrunning]
    exact h.previousPage hkeeps
  | firstPage =>
    rw [Viewed.step, if_neg hrunning]
    exact h.firstPage hkeeps
  | reload filters selectedCount => exact h.reload hkeeps
  | answered answer => exact h.answered hkeeps
  | inspection active =>
    rw [Viewed.step, if_neg hrunning]
    exact ⟨k, { h with }⟩

theorem Viewed.inv_run {events : List (Event ρ)} (h : v.Inv k) (hkeeps : v.KeepsAll events) :
    ∃ k, (v.run events).Inv k := by
  induction events generalizing v k with
  | nil => exact ⟨k, h⟩
  | cons e events ih =>
    obtain ⟨hstep, hrest⟩ := hkeeps
    obtain ⟨k', h'⟩ := Viewed.inv_step h hstep
    exact ih h' hrest

end

/-! ## Every run -/

/-- The pane before it is mounted, with or without an endpoint. -/
def Viewed.start (hasState : Bool) : Viewed ρ where
  pane := { hasState }

theorem Viewed.inv_start (hasState : Bool) : (Viewed.start hasState : Viewed ρ).Inv 0 :=
  inv_first (v := Viewed.start hasState) rfl rfl rfl rfl nofun nofun

/-- **What is displayed stays in step with the cursors** in every run whose steps are such
    that the pane keeps up. -/
theorem inStep_run (hasState : Bool) (events : List (Event ρ))
    (hkeeps : (Viewed.start hasState : Viewed ρ).KeepsAll events) :
    ((Viewed.start hasState : Viewed ρ).run events).InStep := by
  obtain ⟨k, hinv⟩ := Viewed.inv_run (Viewed.inv_start hasState) hkeeps
  exact hinv.inStep

/-- Two pages, down and up again. -/
theorem inStep_run_twoPages : ((Viewed.start true : Viewed String).run
    [.reload ("all", "") 3, .answered (.page ["a", "b"] (some "c1")), .nextPage,
      .answered (.page ["c"] none), .previousPage,
      .answered (.page ["a", "b"] (some "c1"))]).InStep := by
  refine inStep_run true _ ⟨⟨rfl, .inr (.inl rfl)⟩, .inl (by simp), fun _ => ⟨rfl, rfl, rfl⟩,
    .inl (by simp), fun _ => ⟨rfl, rfl, rfl⟩, .inl (by simp), trivial⟩

/-- The pane after an empty exhaustion page: the index is on a page that is not displayed. -/
theorem exhaustion_out_of_step : ¬ ∀ events : List (Event String),
    ((Viewed.start true : Viewed String).run events).InStep := by
  intro hall
  have hinStep := hall [.reload ("all", "") 3, .answered (.page ["a", "b"] (some "c1")), .nextPage,
    .answered (.page [] none)]
  have hcursor := (hinStep.displays rfl ⟨none, ("all", ""), some "c1"⟩ rfl).cursor
  revert hcursor
  decide

end TodDl.Monitor
