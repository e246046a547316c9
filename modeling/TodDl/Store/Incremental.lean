/-
  The live projection — incremental updates agree with recomputation.

  `Synced db runId p`: the projection `p` says of the selected rows of `db` what
  they are.  `hydrate` establishes it (`hydrate_synced`); a mutation that runs to
  completion keeps it, as long as no handler passes a changed row to the
  projection twice (`Synced.run`).  Two projections in sync with one database
  agree (`Synced.agree`), so `run_agrees` follows.
-/
import Mathlib.Algebra.Order.BigOperators.Group.List
import Mathlib.Tactic.Ring
import TodDl.Lib.Guarded
import TodDl.Store.Mutation

namespace TodDl.Store

open Lib (total replaceKey keyed? total_replaceKey total_replaceKey_of_eq keyed?_replaceKey
  keyed?_perm map_key_replaceKey)
open Db (Image)

/-- The entry an image has in the retry index, if any. -/
def Db.Image.retryEntry (maxAttempts : ℤ) (i : Image) : Option (ℚ × String) :=
  if i.bucket maxAttempts = .retry then some i.retry else none

/-- Counts one image in its bucket. -/
def Db.Image.countIn (maxAttempts : ℤ) (b : Bucket) (i : Image) : ℤ :=
  if i.bucket maxAttempts = b then 1 else 0

/-- The counters of the projection are those of the images. -/
structure CountsReflect (l : List Image) (p : Projection) : Prop where
  counts : ∀ b, p.counts b = total (Image.countIn p.maxAttempts b) l
  bytes : p.completeBytes = total (Image.countedBytes p.maxAttempts) l

/-- The retry index of the projection is that of the images. -/
def RetriesReflect (l : List Image) (p : Projection) : Prop :=
  ∀ k, p.retries.lookup k = (keyed? Image.id l k).bind (Image.retryEntry p.maxAttempts)

section
variable {l : List Image} {p : Projection} {old new : Image} {revision : ℕ}
  {completionAt : Option String}

@[simp] theorem maxAttempts_apply :
    (p.apply old new revision completionAt).maxAttempts = p.maxAttempts := rfl

@[simp] theorem revision_apply :
    (p.apply old new revision completionAt).revision = revision := rfl

@[simp] theorem selectedCount_apply :
    (p.apply old new revision completionAt).selectedCount = p.selectedCount := rfl

theorem counts_count (b c : Bucket) (d : ℤ) :
    (p.count b d).counts c = p.counts c + if c = b then d else 0 := by
  simp only [Projection.count, Function.update_apply]
  split
  · next h => rw [h]
  · rw [add_zero]

/-- One change moves the counters from the preimage to the postimage. -/
theorem CountsReflect.apply (h : CountsReflect l p) (hn : (l.map Image.id).Nodup) (hold : old ∈ l)
    (hid : new.id = old.id) :
    CountsReflect (replaceKey Image.id new l) (p.apply old new revision completionAt) := by
  constructor
  · intro b
    rw [maxAttempts_apply, total_replaceKey _ hn hold hid, ← h.counts b]
    show ((p.count _ (-1)).count _ 1).counts b = _
    rw [counts_count, counts_count]
    simp only [Image.countIn, eq_comm (a := b)]
    split <;> split <;> ring
  · rw [maxAttempts_apply, total_replaceKey _ hn hold hid, ← h.bytes]
    rfl

/-- One change puts the postimage in the index; the preimage does not matter. -/
theorem RetriesReflect.apply (h : RetriesReflect l p) (hold : old ∈ l) (hid : new.id = old.id)
    (pre : Image) :
    RetriesReflect (replaceKey Image.id new l) (p.apply pre new revision completionAt) := by
  intro k
  rw [keyed?_replaceKey hold hid, maxAttempts_apply]
  have hlook : (p.apply pre new revision completionAt).retries.lookup k =
      if new.id = k then new.retryEntry p.maxAttempts else p.retries.lookup k := by
    simp only [Projection.apply, Projection.count, Image.retryEntry, Image.id]
    by_cases hk : itemId new.url = k
    · subst hk
      by_cases hb : new.bucket p.maxAttempts = .retry
      · simp [hb]
      · simp [hb]
    · have hk' : k ≠ itemId new.url := fun e => hk e.symm
      by_cases hb : new.bucket p.maxAttempts = .retry
      · simp [hb, hk, Finmap.lookup_insert_of_ne _ hk', Finmap.lookup_erase_ne hk']
      · simp [hb, hk, Finmap.lookup_erase_ne hk']
  rw [hlook]
  split
  · rfl
  · exact h k

end

/-! ## The calls of a job -/

section
variable {l : List Image} {p : Projection}

@[simp] theorem maxAttempts_perform (r : ℕ) (a : Apply) :
    (p.perform r a).maxAttempts = p.maxAttempts := by cases a <;> rfl

@[simp] theorem selectedCount_perform (r : ℕ) (a : Apply) :
    (p.perform r a).selectedCount = p.selectedCount := by cases a <;> rfl

@[simp] theorem revision_perform (r : ℕ) (a : Apply) : (p.perform r a).revision = r := by
  cases a <;> rfl

theorem performAll_cons (r : ℕ) (a : Apply) (as : List Apply) :
    p.performAll ⟨r, a :: as⟩ = (p.perform r a).performAll ⟨r, as⟩ := rfl

@[simp] theorem maxAttempts_performAll (j : Job) :
    (p.performAll j).maxAttempts = p.maxAttempts := by
  obtain ⟨r, as⟩ := j
  induction as generalizing p with
  | nil => rfl
  | cons a as ih => rw [performAll_cons, ih, maxAttempts_perform]

@[simp] theorem selectedCount_performAll (j : Job) :
    (p.performAll j).selectedCount = p.selectedCount := by
  obtain ⟨r, as⟩ := j
  induction as generalizing p with
  | nil => rfl
  | cons a as ih => rw [performAll_cons, ih, selectedCount_perform]

theorem revision_performAll {j : Job} (h : j.applies ≠ []) :
    (p.performAll j).revision = j.revision := by
  obtain ⟨r, as⟩ := j
  obtain rfl | ⟨init, last, rfl⟩ := List.eq_nil_or_concat as
  · exact absurd rfl h
  · simp [Projection.performAll, List.foldl_append]

theorem changes_change (r : ℕ) (c : Change) (as : List Apply) :
    Job.changes ⟨r, .change c :: as⟩ = c :: Job.changes ⟨r, as⟩ := rfl

/-- The index follows the calls of a job, repeated or not. -/
theorem RetriesReflect.performAll (h : RetriesReflect l p) {j : Job}
    (hk : ∀ c ∈ j.changes, c.new.id ∈ l.map Image.id) :
    RetriesReflect (replaceAll l j.changes) (p.performAll j) := by
  obtain ⟨r, as⟩ := j
  induction as generalizing l p with
  | nil => exact h
  | cons a as ih =>
    cases a with
    | setRevision => exact ih (p := p.setRevision r) h hk
    | change c =>
      rw [changes_change] at hk ⊢
      obtain ⟨a, ha, hid⟩ := List.mem_map.1 (hk c List.mem_cons_self)
      refine ih (h.apply ha hid.symm c.old) fun d hd => ?_
      rw [map_key_replaceKey]
      exact hk d (List.mem_cons_of_mem _ hd)

/-- The counters follow the calls of a job that changes no item twice. -/
theorem CountsReflect.performAll (h : CountsReflect l p) (hn : (l.map Image.id).Nodup) {j : Job}
    (hpre : ∀ c ∈ j.changes, c.old ∈ l) (hid : ∀ c ∈ j.changes, c.new.id = c.old.id)
    (honce : (j.changes.map fun c => c.old.id).Nodup) :
    CountsReflect (replaceAll l j.changes) (p.performAll j) := by
  obtain ⟨r, as⟩ := j
  induction as generalizing l p with
  | nil => exact h
  | cons a as ih =>
    cases a with
    | setRevision => exact ih (p := p.setRevision r) ⟨h.counts, h.bytes⟩ hn hpre hid honce
    | change c =>
      rw [changes_change] at hpre hid honce ⊢
      have hsame := hid c List.mem_cons_self
      rw [List.map_cons, List.nodup_cons] at honce
      refine ih (h.apply hn (hpre c List.mem_cons_self) hsame) (by rwa [map_key_replaceKey])
        (fun d hd => ?_) (fun d hd => hid d (List.mem_cons_of_mem _ hd)) honce.2
      -- the image of another change is not the replaced one
      refine List.mem_map.2 ⟨d.old, hpre d (List.mem_cons_of_mem _ hd), if_neg fun e => ?_⟩
      exact honce.1 (List.mem_map.2 ⟨d, hd, e.trans hsame⟩)

/-- A change that the counters cannot see. -/
def Change.Neutral (maxAttempts : ℤ) (c : Change) : Prop :=
  c.new.bucket maxAttempts = c.old.bucket maxAttempts ∧
    c.new.countedBytes maxAttempts = c.old.countedBytes maxAttempts

theorem total_replaceAll {M : Type*} [AddCommMonoid M] (f : Image → M) {changes : List Change}
    (h : ∀ c ∈ changes, ∀ x ∈ l, x.id = c.new.id → f x = f c.new)
    (hmem : ∀ c ∈ changes, c.new.id ∈ l.map Image.id) :
    total f (replaceAll l changes) = total f l := by
  induction changes generalizing l with
  | nil => rfl
  | cons c cs ih =>
    have hc := h c List.mem_cons_self
    rw [replaceAll, List.foldl_cons, ← replaceAll, ih, total_replaceKey_of_eq f hc]
    · intro d hd x hx hxd
      obtain ⟨y, hy, rfl⟩ := List.mem_map.1 hx
      by_cases hyc : y.id = c.new.id
      · rw [if_pos hyc] at hxd ⊢
        have hd' := h d (List.mem_cons_of_mem _ hd) y hy (hyc.trans hxd)
        rw [← hd', hc y hy hyc]
      · rw [if_neg hyc] at hxd ⊢
        exact h d (List.mem_cons_of_mem _ hd) y hy hxd
    · intro d hd
      rw [map_key_replaceKey]
      exact hmem d (List.mem_cons_of_mem _ hd)

/-- The counters follow neutral calls, repeated or not. -/
theorem CountsReflect.performAll_neutral (h : CountsReflect l p) (hn : (l.map Image.id).Nodup)
    {j : Job} (hpre : ∀ c ∈ j.changes, c.old ∈ l) (hid : ∀ c ∈ j.changes, c.new.id = c.old.id)
    (hneutral : ∀ c ∈ j.changes, c.Neutral p.maxAttempts) :
    CountsReflect (replaceAll l j.changes) (p.performAll j) := by
  have hkeep : ∀ b, (p.performAll j).counts b = p.counts b ∧
      (p.performAll j).completeBytes = p.completeBytes := by
    intro b
    clear h hn hpre hid
    obtain ⟨r, as⟩ := j
    induction as generalizing p with
    | nil => exact ⟨rfl, rfl⟩
    | cons a as ih =>
      cases a with
      | setRevision => exact ih (p := p.setRevision r) hneutral
      | change c =>
        rw [changes_change] at hneutral
        obtain ⟨hb, hbytes⟩ := hneutral c List.mem_cons_self
        obtain ⟨h₁, h₂⟩ := ih (p := p.apply c.old c.new r c.completionAt)
          fun d hd => hneutral d (List.mem_cons_of_mem _ hd)
        refine ⟨h₁.trans ?_, h₂.trans ?_⟩
        · show ((p.count _ (-1)).count _ 1).counts b = _
          rw [counts_count, counts_count, hb]
          split <;> ring
        · show p.completeBytes - _ + _ = _
          rw [hbytes]; ring
  have hx : ∀ c ∈ j.changes, ∀ x ∈ l, x.id = c.new.id → x = c.old := fun c hc x hx e =>
    List.inj_on_of_nodup_map hn hx (hpre c hc) (e.trans (hid c hc))
  have hmem : ∀ c ∈ j.changes, c.new.id ∈ l.map Image.id := fun c hc => by
    rw [hid c hc]; exact List.mem_map_of_mem (hpre c hc)
  constructor
  · intro b
    rw [(hkeep b).1, maxAttempts_performAll, h.counts, total_replaceAll _ (fun c hc x hxl e => ?_) hmem]
    rw [hx c hc x hxl e]
    simp only [Image.countIn, (hneutral c hc).1]
  · rw [(hkeep .queued).2, maxAttempts_performAll, h.bytes,
      total_replaceAll _ (fun c hc x hxl e => ?_) hmem]
    rw [hx c hc x hxl e]
    exact (hneutral c hc).2.symm

end

/-! ## The database and the projection -/

/-- The projection says of the run what the database says. -/
structure Synced (db : Db) (runId : String) (p : Projection) : Prop where
  counts : CountsReflect (db.images runId) p
  retries : RetriesReflect (db.images runId) p
  revision : p.revision = db.revision runId
  selected : p.selectedCount = (db.runUrls runId).length

section
variable {db : Db} {runId : String} {p q : Projection}

/-- Two projections in sync with one database agree in every field but the time of
    the last completion and the finals skipped at the start. -/
theorem Synced.agree (hp : Synced db runId p) (hq : Synced db runId q)
    (hm : p.maxAttempts = q.maxAttempts) :
    p.counts = q.counts ∧ p.completeBytes = q.completeBytes ∧ p.retries = q.retries ∧
      p.revision = q.revision ∧ p.selectedCount = q.selectedCount := by
  refine ⟨funext fun b => ?_, ?_, Finmap.ext_lookup fun k => ?_, ?_, ?_⟩
  · rw [hp.counts.counts, hq.counts.counts, hm]
  · rw [hp.counts.bytes, hq.counts.bytes, hm]
  · rw [hp.retries, hq.retries, hm]
  · rw [hp.revision, hq.revision]
  · rw [hp.selected, hq.selected]

/-- A count in sync is not negative. -/
theorem Synced.counts_nonneg (hp : Synced db runId p) (b : Bucket) : 0 ≤ p.counts b := by
  rw [hp.counts.counts]
  refine List.sum_nonneg fun x hx => ?_
  obtain ⟨i, -, rfl⟩ := List.mem_map.1 hx
  simp only [Image.countIn]
  split <;> decide

/-- Every selected URL has a row. -/
def AllImported (db : Db) (runId : String) : Prop :=
  ∀ url ∈ db.runUrls runId, (db.downloads.find? url).isSome = true

instance (db : Db) (runId : String) : Decidable (AllImported db runId) :=
  inferInstanceAs (Decidable (∀ url ∈ db.runUrls runId, _))

theorem AllImported.length (h : AllImported db runId) :
    (db.images runId).length = (db.runUrls runId).length := by
  simp only [Db.images, List.length_map, Db.selected, Lib.Table.join]
  exact List.filterMap_length_eq_length.2 h

/-- The counts in sync add up to the selected items. -/
theorem Synced.counts_sum (hp : Synced db runId p) (h : AllImported db runId) :
    (displayBuckets.map p.counts).sum = p.selectedCount := by
  rw [hp.selected, ← h.length, show p.counts = fun b => _ from funext hp.counts.counts]
  generalize db.images runId = l
  induction l with
  | nil => simp [total, displayBuckets]
  | cons i l ih =>
    simp only [total, displayBuckets, List.map_cons, List.map_nil, List.sum_cons, List.sum_nil,
      List.length_cons, Nat.cast_succ] at ih ⊢
    rw [← ih]
    simp only [Image.countIn]
    cases i.bucket p.maxAttempts <;> simp <;> ring

end

/-! ## `hydrate` -/

section
variable {db : Db} {runId : String} {p : Projection} {l : List Image} {r : Row}

/-- Adding one row of a new ID. -/
theorem CountsReflect.addRow (h : CountsReflect l p) :
    CountsReflect (l ++ [r.image]) (p.addRow r) := by
  have hm : (p.addRow r).maxAttempts = p.maxAttempts := rfl
  constructor
  · intro b
    have hc : (p.addRow r).counts b = (p.count (r.image.bucket p.maxAttempts) 1).counts b := rfl
    rw [hm, hc, counts_count, h.counts]
    simp only [total, List.map_append, List.sum_append, List.map_singleton, List.sum_singleton,
      Image.countIn, eq_comm (a := b)]
  · have hb : (p.addRow r).completeBytes =
        p.completeBytes + r.image.countedBytes p.maxAttempts := rfl
    rw [hm, hb, h.bytes]
    simp only [total, List.map_append, List.sum_append, List.map_singleton, List.sum_singleton]

theorem RetriesReflect.addRow (h : RetriesReflect l p) (hnew : r.image.id ∉ l.map Image.id) :
    RetriesReflect (l ++ [r.image]) (p.addRow r) := by
  intro k
  have hm : (p.addRow r).maxAttempts = p.maxAttempts := rfl
  have hid : r.image.id = itemId r.url := rfl
  have hr : (p.addRow r).retries = if r.image.bucket p.maxAttempts = .retry then
      p.retries.insert (itemId r.url) r.image.retry else p.retries := rfl
  rw [hm, hr, keyed?, List.find?_append, List.find?_singleton]
  by_cases hk : r.image.id = k
  · subst hk
    have hnone : l.find? (fun x => decide (x.id = r.image.id)) = none :=
      List.find?_eq_none.2 fun x hx => by
        simpa using fun e => hnew (List.mem_map.2 ⟨x, hx, e⟩)
    have hold : p.retries.lookup r.image.id = none := by
      rw [h, keyed?, hnone]; rfl
    rw [hnone]
    by_cases hb : r.image.bucket p.maxAttempts = .retry
    · simp [hb, ← hid, Image.retryEntry]
    · simp [hb, hold, Image.retryEntry]
  · have hk' : k ≠ itemId r.url := fun e => hk (hid.trans e.symm)
    have hlook : (if r.image.bucket p.maxAttempts = .retry then
        p.retries.insert (itemId r.url) r.image.retry else p.retries).lookup k =
        p.retries.lookup k := by
      split
      · exact Finmap.lookup_insert_of_ne _ hk'
      · rfl
    rw [hlook, h, keyed?]
    simp [hk]

/-- Adding rows of new, distinct IDs. -/
theorem addRows_reflect (rows : List Row) (hc : CountsReflect l p) (hr : RetriesReflect l p)
    (hn : ((l ++ rows.map Row.image).map Image.id).Nodup) :
    CountsReflect (l ++ rows.map Row.image) (rows.foldl Projection.addRow p) ∧
      RetriesReflect (l ++ rows.map Row.image) (rows.foldl Projection.addRow p) := by
  induction rows generalizing l p with
  | nil => simpa using ⟨hc, hr⟩
  | cons r rows ih =>
    have hnew : r.image.id ∉ l.map Image.id := by
      rw [List.map_append, List.nodup_append] at hn
      intro hmem
      exact hn.2.2 _ hmem _ (by simp) rfl
    have := ih (l := l ++ [r.image]) hc.addRow (hr.addRow hnew) (by simpa using hn)
    simpa using this

/-- What the selection looks like after `scope_run`: ranks from 0 on, all distinct,
    and a row for every URL. -/
structure WellRanked (db : Db) (runId : String) : Prop where
  nonneg : ∀ i ∈ db.runItems.rows, i.runId = runId → 0 ≤ i.queueRank
  distinct : ((db.runItems.rows.filter fun i => i.runId = runId).map (·.queueRank)).Nodup
  imported : AllImported db runId

/-- The batches of a list of rows with increasing ranks are the list. -/
theorem addBatches_eq {rows : List (ℤ × Row)} (hs : rows.Pairwise fun a b => a.1 < b.1) :
    ∀ (n : ℕ) (done rest : List (ℤ × Row)) (rank : ℤ) (p : Projection), rows = done ++ rest →
      (∀ x ∈ done, x.1 ≤ rank) → (∀ x ∈ rest, rank < x.1) → rest.length < n →
      Projection.addBatches rows n rank p = (rest.map (·.2)).foldl Projection.addRow p := by
  intro n
  induction n with
  | zero => intro _ _ _ _ _ _ _ h; omega
  | succ n ih =>
    intro done rest rank p hrows hdone hrest hn
    have hbatch : Projection.batch rows rank = rest.take 1000 := by
      have h₁ : done.filter (fun x => rank < x.1) = [] :=
        List.filter_eq_nil_iff.2 fun x hx => by simpa using hdone x hx
      have h₂ : rest.filter (fun x => rank < x.1) = rest :=
        List.filter_eq_self.2 fun x hx => by simpa using hrest x hx
      rw [Projection.batch, hrows, List.filter_append, h₁, h₂, List.nil_append]
    rw [Projection.addBatches, hbatch]
    cases hl : (rest.take 1000).getLast? with
    | none =>
      have : rest = [] := by
        rw [List.getLast?_eq_none_iff] at hl
        simpa using hl
      subst this; rfl
    | some last =>
      have hlast := List.mem_of_getLast? hl
      have hsplit := List.take_append_drop 1000 rest
      have hpair : (rest.take 1000 ++ rest.drop 1000).Pairwise fun a b => a.1 < b.1 := by
        rw [hsplit]; exact (List.pairwise_append.1 (hrows ▸ hs)).2.1
      have hle : ∀ x ∈ rest.take 1000, x.1 ≤ last.1 := by
        intro x hx
        obtain ⟨init, hinit⟩ := List.getLast?_eq_some_iff.1 hl
        have hp := (List.pairwise_append.1 hpair).1
        rw [hinit] at hx hp
        rcases List.mem_append.1 hx with hx | hx
        · exact ((List.pairwise_append.1 hp).2.2 x hx last (by simp)).le
        · rw [List.mem_singleton.1 hx]
      have hgt : ∀ x ∈ rest.drop 1000, last.1 < x.1 := fun x hx =>
        (List.pairwise_append.1 hpair).2.2 last hlast x hx
      have hrank : rank < last.1 := hrest last (List.mem_of_mem_take hlast)
      have hlen : 0 < (rest.take 1000).length := List.length_pos_of_mem hlast
      simp only
      rw [ih (done ++ rest.take 1000) (rest.drop 1000) last.1 _
        (by rw [List.append_assoc, hsplit, hrows]) ?_ hgt ?_]
      · conv_rhs => rw [← hsplit, List.map_append, List.foldl_append]
        simp only [List.foldl_map]
      · intro x hx
        rcases List.mem_append.1 hx with hx | hx
        · exact (hdone x hx).trans hrank.le
        · exact hle x hx
      · have := List.length_take_le 1000 rest
        simp only [List.length_take, List.length_drop] at hlen ⊢
        omega

/-- The join of the ranked query, before it is sorted. -/
theorem filterMap_ranked (items : List RunItem) :
    ((items.filterMap fun i => (db.downloads.find? i.url).map fun r => (i.queueRank, r)).map (·.2)) =
      db.downloads.join (items.map (·.url)) := by
  simp only [Lib.Table.join, List.map_filterMap, List.filterMap_map]
  refine List.filterMap_congr fun i _ => ?_
  simp only [Function.comp]
  cases db.downloads.find? i.url <;> rfl

theorem ranked_perm : ((db.ranked runId).map (·.2)).Perm (db.selected runId) := by
  refine (List.Perm.map _ (List.perm_insertionSort _ _)).trans ?_
  rw [filterMap_ranked]
  exact List.Perm.refl _

theorem WellRanked.pairwise (h : WellRanked db runId) :
    (db.ranked runId).Pairwise fun a b => a.1 < b.1 := by
  have hsorted : (db.ranked runId).Pairwise fun a b => a.1 ≤ b.1 :=
    List.pairwise_insertionSort (fun a b : ℤ × Row => a.1 ≤ b.1) _
  have hranks : ((db.ranked runId).map (·.1)).Nodup := by
    refine ((List.Perm.map _ (List.perm_insertionSort _ _)).nodup_iff).2 ?_
    refine List.Nodup.sublist ?_ h.distinct
    rw [List.map_filterMap]
    induction db.runItems.rows.filter fun i => i.runId = runId with
    | nil => exact List.Sublist.refl _
    | cons i items ih =>
      rw [List.filterMap_cons]
      cases db.downloads.find? i.url with
      | none => exact ih.cons _
      | some r => exact ih.cons_cons _
  have hne : (db.ranked runId).Pairwise fun a b => a.1 ≠ b.1 := List.pairwise_map.1 hranks
  exact (hsorted.and hne).imp fun h => lt_of_le_of_ne h.1 h.2

theorem WellRanked.rank_nonneg (h : WellRanked db runId) :
    ∀ x ∈ db.ranked runId, (-1 : ℤ) < x.1 := by
  intro x hx
  have hx := (List.perm_insertionSort _ _).mem_iff.1 hx
  obtain ⟨i, hi, hix⟩ := List.mem_filterMap.1 hx
  obtain ⟨r, -, rfl⟩ := Option.map_eq_some_iff.1 hix
  simp only [List.mem_filter, decide_eq_true_eq] at hi
  have := h.nonneg i hi.1 hi.2
  simp only
  omega

theorem CountsReflect.perm {l l' : List Image} (h : CountsReflect l p) (hl : l.Perm l') :
    CountsReflect l' p :=
  ⟨fun b => (h.counts b).trans (hl.map _).sum_eq, h.bytes.trans (hl.map _).sum_eq⟩

theorem RetriesReflect.perm {l l' : List Image} (h : RetriesReflect l p) (hl : l.Perm l')
    (hn : (l.map Image.id).Nodup) : RetriesReflect l' p := by
  intro k
  rw [h, keyed?_perm hl hn]

/-- The counters of a fresh projection are those of the ranked items. -/
theorem WellRanked.countsReflect (h : WellRanked db runId) (maxAttempts : ℤ) :
    CountsReflect ((db.ranked runId).map fun x => x.2.image)
      (Projection.hydrate db runId maxAttempts) := by
  have hadd : ∀ (rows : List Row) (l : List Image) (p : Projection), CountsReflect l p →
      CountsReflect (l ++ rows.map Row.image) (rows.foldl Projection.addRow p) := by
    intro rows
    induction rows with
    | nil => simp
    | cons r rows ih => exact fun l p hc => by simpa using ih _ _ hc.addRow
  set start : Projection := ⟨(db.runUrls runId).length, Projection.skippedCount db runId,
    db.revision runId, maxAttempts, fun _ => 0, 0, none, ∅⟩ with hstart
  have hbatches := addBatches_eq h.pairwise ((db.ranked runId).length + 1) [] (db.ranked runId) (-1)
    start rfl (by simp) h.rank_nonneg (Nat.lt_succ_self _)
  have hzero : CountsReflect [] start := ⟨fun _ => rfl, rfl⟩
  have hcounts := hadd ((db.ranked runId).map (·.2)) [] start hzero
  rw [← hbatches, List.nil_append, List.map_map] at hcounts
  exact ⟨hcounts.counts, hcounts.bytes⟩

/-- **A fresh projection is in sync.** -/
theorem hydrate_synced (h : WellRanked db runId) (hd : DistinctIds db runId) (maxAttempts : ℤ) :
    Synced db runId (Projection.hydrate db runId maxAttempts) := by
  set start : Projection := ⟨(db.runUrls runId).length, Projection.skippedCount db runId,
    db.revision runId, maxAttempts, fun _ => 0, 0, none, ∅⟩ with hstart
  set rows := (db.ranked runId).map (·.2) with hrows
  have hall : Projection.hydrate db runId maxAttempts =
      { rows.foldl Projection.addRow start with
        lastCompletionAt := Projection.lastCompletion db runId } := by
    simp only [Projection.hydrate]
    rw [addBatches_eq h.pairwise _ [] (db.ranked runId) (-1) _ rfl (by simp) h.rank_nonneg
      (Nat.lt_succ_self _)]
  have hperm : (rows.map Row.image).Perm (db.images runId) := ranked_perm.map _
  have hn : ((rows.map Row.image).map Image.id).Nodup := (hperm.map _).nodup_iff.2 hd.images
  have hzero : CountsReflect [] start := ⟨fun _ => rfl, rfl⟩
  have hempty : RetriesReflect [] start := fun k => Finmap.lookup_empty k
  obtain ⟨hc, hr⟩ := addRows_reflect rows hzero hempty (by simpa using hn)
  have hkeep : ∀ (rs : List Row) (p : Projection),
      (rs.foldl Projection.addRow p).revision = p.revision ∧
        (rs.foldl Projection.addRow p).selectedCount = p.selectedCount := by
    intro rs
    induction rs with
    | nil => exact fun p => ⟨rfl, rfl⟩
    | cons r rs ih => exact fun p => ih (p.addRow r)
  rw [hall]
  rw [List.nil_append] at hc hr
  have hc' := hc.perm hperm
  have hr' := hr.perm hperm hn
  exact ⟨⟨hc'.counts, hc'.bytes⟩, hr', (hkeep rows start).1, (hkeep rows start).2⟩

end

/-! ## Mutations executed one after another -/

section
variable {db db' : Db} {runId : String} {p : Projection}

theorem SameItems.wellRanked (h : SameItems db db') (hw : WellRanked db runId) :
    WellRanked db' runId := by
  refine ⟨h.runItems ▸ hw.nonneg, h.runItems ▸ hw.distinct, fun url hurl => ?_⟩
  rw [h.rows]
  exact hw.imported url (Db.runUrls_congr h.runItems runId ▸ hurl)

theorem SameItems.distinctIds (h : SameItems db db') (hd : DistinctIds db runId) :
    DistinctIds db' runId := by
  rw [DistinctIds, Db.runUrls_congr h.runItems]; exact hd

/-- The retry index and the revision after a job that was told. -/
theorem Told.retries {j : Job} (h : Told db db' runId j)
    (hr : RetriesReflect (db.images runId) p) :
    RetriesReflect (db'.images runId) (p.performAll j) := by
  rw [h.images]
  refine hr.performAll fun c hc => ?_
  rw [h.id c hc]
  exact List.mem_map_of_mem (h.pre c hc)

theorem Told.revision_eq {j : Job} (h : Told db db' runId j) (hr : p.revision = db.revision runId) :
    (p.performAll j).revision = db'.revision runId := by
  rcases h.revision with ⟨hnil, hrev⟩ | ⟨hne, hrev, -⟩
  · rw [Projection.performAll, hnil, hrev]; exact hr
  · rw [revision_performAll hne, hrev]

/-- **A job keeps the projection in sync** when it changes no item twice, or the
    counters cannot see its changes. -/
theorem Synced.told {j : Job} (hs : Synced db runId p) (hd : DistinctIds db runId)
    (h : Told db db' runId j)
    (honce : (j.changes.map fun c => c.old.id).Nodup ∨ ∀ c ∈ j.changes, c.Neutral p.maxAttempts) :
    Synced db' runId (p.performAll j) := by
  refine ⟨?_, h.retries hs.retries, h.revision_eq hs.revision, ?_⟩
  · rw [h.images]
    rcases honce with honce | hneutral
    · exact hs.counts.performAll hd.images h.pre h.id honce
    · exact hs.counts.performAll_neutral hd.images h.pre h.id hneutral
  · rw [selectedCount_performAll, hs.selected, Db.runUrls_congr h.same.runItems]

/-- No item ID of a request that is carried out is the repetition of one whose item the
    action changes. -/
def ItemAction.NoRepeat (a : ItemAction) (db : Db) (runId : String) (q : Request) : Prop :=
  match itemIds (q.parameters.get "item_ids") with
  | some ids => q.Fresh db → ((a.changedRows (db.selected runId) ids).map (·.url)).Nodup
  | none => True

instance (a : ItemAction) (db : Db) (runId : String) (q : Request) :
    Decidable (a.NoRepeat db runId q) :=
  decidable_of_iff (∀ ids ∈ itemIds (q.parameters.get "item_ids"), q.Fresh db →
    ((a.changedRows (db.selected runId) ids).map (·.url)).Nodup) (by
      unfold ItemAction.NoRepeat
      split <;> simp [*])

/-- The mutation is one the agreement covers: a transition is of a selected item;
    a handler that moves items to another status is not asked to move one of them
    twice. -/
def Mutation.Once (runId : String) (db : Db) : Mutation → Prop
  | .transition url _ _ _ _ => url ∈ db.runUrls runId
  | .excludeItem q _ => TodDl.Store.excludeItem.NoRepeat db runId q
  | .resumeNewGeneration q _ => TodDl.Store.resumeNewGeneration.NoRepeat db runId q
  | .retryAccessDenied q _ => TodDl.Store.retryAccessDenied.NoRepeat db runId q
  | .retryNow _ _ | .setItemPriority _ _ | .setRetryCooldown _ _ => True

instance (runId : String) (db : Db) (m : Mutation) : Decidable (m.Once runId db) :=
  match m with
  | .transition url _ _ _ _ => inferInstanceAs (Decidable (url ∈ db.runUrls runId))
  | .excludeItem q _ => inferInstanceAs (Decidable (Store.excludeItem.NoRepeat db runId q))
  | .resumeNewGeneration q _ =>
    inferInstanceAs (Decidable (Store.resumeNewGeneration.NoRepeat db runId q))
  | .retryAccessDenied q _ =>
    inferInstanceAs (Decidable (Store.retryAccessDenied.NoRepeat db runId q))
  | .retryNow _ _ | .setItemPriority _ _ | .setRetryCooldown _ _ =>
    inferInstanceAs (Decidable True)

theorem Mutation.Once.ofSelected {m : Mutation} (h : m.Once runId db) : m.OfSelected runId db := by
  cases m <;> first | exact h | trivial

/-- The item IDs of the changes of a commit are those of the changed rows. -/
theorem Outcome.Commits.changes_once {o : Outcome} {changed : List Row} {u : Update}
    {post : Image → Image} (h : o.Commits db runId changed u) (hd : DistinctIds db runId)
    (hchanges : o.changes = changed.map fun r => (r.image, post r.image))
    (hn : (changed.map (·.url)).Nodup) : (o.job.changes.map fun c => c.old.id).Nodup := by
  rw [changes_job h.revision hchanges, List.map_map, List.map_map]
  exact (List.nodup_map_iff_inj_on (List.Nodup.of_map _ hn)).2 fun x hx y hy hxy =>
    List.inj_on_of_nodup_map hn hx hy (hd.row_eq (h.selected x hx) (h.selected y hy) hxy)

theorem Outcome.Idle.changes_nil {o : Outcome} (h : o.Idle db) : o.job.changes = [] := by
  rw [Outcome.job, h.2.2]; rfl

theorem ItemAction.NoRepeat.changes_once {a : ItemAction} {q : Request} {clock : Clock}
    (h : a.NoRepeat db runId q) (hd : DistinctIds db runId) (hproj : a.projected = true) :
    ((a.handle db runId q clock).job.changes.map fun c => c.old.id).Nodup := by
  by_cases hfresh : q.Fresh db
  · rcases a.handle_cases db runId q clock with hi | ⟨ids, hids, hc, hchanges⟩
    · rw [hi.changes_nil]; exact List.nodup_nil
    · rw [hproj, if_pos rfl] at hchanges
      exact hc.changes_once hd hchanges (by simpa [ItemAction.NoRepeat, hids, hfresh] using h)
  · rw [(a.handle_stale runId clock hfresh).changes_nil]
    exact List.nodup_nil

theorem retryNow_changes_once (q : Request) (clock : Clock) (hd : DistinctIds db runId) :
    ((controlRetryNow db runId q clock).job.changes.map fun c => c.old.id).Nodup := by
  rcases retryNow_cases db runId q clock with hi | ⟨changed, hn, -, hc, hchanges⟩
  · rw [hi.changes_nil]; exact List.nodup_nil
  · exact hc.changes_once hd hchanges hn

theorem setRetryCooldown_neutral (cooldown : Provenance.PyVal) (q : Request) (clock : Clock)
    (maxAttempts : ℤ) :
    ∀ c ∈ ((setRetryCooldown cooldown clock).handle db runId q clock).job.changes,
      c.Neutral maxAttempts := by
  intro c hc
  rcases (setRetryCooldown cooldown clock).handle_cases db runId q clock with
    hi | ⟨ids, -, hcom, hchanges⟩
  · rw [hi.changes_nil] at hc; cases hc
  · rw [changes_job hcom.revision hchanges] at hc
    obtain ⟨x, hx, rfl⟩ := List.mem_map.1 hc
    obtain ⟨r, -, rfl⟩ := List.mem_map.1 hx
    exact ⟨rfl, rfl⟩

theorem setItemPriority_changes (db : Db) (runId : String) (priority : Provenance.PyVal)
    (q : Request) (clock : Clock) :
    ((setItemPriority priority).handle db runId q clock).job.changes = [] := by
  rcases (setItemPriority priority).handle_cases db runId q clock with hi | ⟨ids, -, hcom, hchanges⟩
  · exact hi.changes_nil
  · exact changes_job hcom.revision hchanges

theorem transition_changes_once {url : String} {toStatus : Status} {detail : Option String}
    {fields : Update} {recordedAt : String} :
    ((commitTransition runId url toStatus detail fields recordedAt db).2.changes.map
      fun c => c.old.id).Nodup := by
  cases hold : db.downloads.find? url with
  | none =>
    rw [commitTransition_missing runId toStatus detail fields recordedAt hold]
    exact List.nodup_nil
  | some old =>
    obtain ⟨_, heq⟩ := commitTransition_eq runId toStatus detail fields recordedAt hold
    rw [heq]
    exact List.nodup_singleton _

/-- **One mutation keeps the projection in sync.** -/
theorem Synced.run (hs : Synced db runId p) (hd : DistinctIds db runId) {m : Mutation}
    (hm : m.Once runId db) : Synced (m.run runId (db, p)).1 runId (m.run runId (db, p)).2 := by
  refine hs.told hd (commit_told hd hm.ofSelected) ?_
  cases m with
  | transition url toStatus detail fields clock => exact .inl transition_changes_once
  | retryNow q clock => exact .inl (retryNow_changes_once q clock hd)
  | excludeItem q clock => exact .inl (ItemAction.NoRepeat.changes_once hm hd rfl)
  | resumeNewGeneration q clock => exact .inl (ItemAction.NoRepeat.changes_once hm hd rfl)
  | retryAccessDenied q clock => exact .inl (ItemAction.NoRepeat.changes_once hm hd rfl)
  | setItemPriority q clock =>
    refine .inl ?_
    have hnil := setItemPriority_changes db runId (q.parameters.get "priority") q clock
    simp only [Mutation.commit, controlSetItemPriority, hnil]
    exact List.nodup_nil
  | setRetryCooldown q clock => exact .inr (setRetryCooldown_neutral _ q clock _)

@[simp] theorem maxAttempts_hydrate (db : Db) (runId : String) (maxAttempts : ℤ) :
    (Projection.hydrate db runId maxAttempts).maxAttempts = maxAttempts := by
  have hkeep : ∀ (xs : List (ℤ × Row)) (p : Projection),
      (xs.foldl (fun p x => p.addRow x.2) p).maxAttempts = p.maxAttempts := by
    intro xs
    induction xs with
    | nil => exact fun _ => rfl
    | cons x xs ih => exact fun p => ih (p.addRow x.2)
  have hbatches : ∀ (rows : List (ℤ × Row)) (n : ℕ) (rank : ℤ) (p : Projection),
      (Projection.addBatches rows n rank p).maxAttempts = p.maxAttempts := by
    intro rows n
    induction n with
    | zero => exact fun _ _ => rfl
    | succ n ih =>
      intro rank p
      rw [Projection.addBatches]
      split
      · rfl
      · rw [ih, hkeep]
  exact hbatches _ _ _ _

end

/-- One mutation as a step of the pair of database and projection. -/
def mutate (runId : String) (s : Db × Projection) (m : Mutation) : Option (Db × Projection) :=
  some (m.run runId s)

theorem mutate_tail {runId : String} {s t : Db × Projection} {m : Mutation}
    (h : Lib.GRun (mutate runId) (fun s m => m.Once runId s.1) s t) (hm : m.Once runId t.1) :
    Lib.GRun (mutate runId) (fun s m => m.Once runId s.1) s (m.run runId t) := h.tail hm rfl

/-- What the projection and a fresh one say alike, with the consequences for the
    counts. -/
structure Agrees (p q : Projection) : Prop where
  counts : p.counts = q.counts
  completeBytes : p.completeBytes = q.completeBytes
  retryCount : p.copy.retryCount = q.copy.retryCount
  retryAt : p.copy.retryAt = q.copy.retryAt
  retryError : p.copy.retryError = q.copy.retryError
  revision : p.revision = q.revision
  nonneg : ∀ b, 0 ≤ p.counts b
  sum : (displayBuckets.map p.counts).sum = p.selectedCount

/-- After any run of mutations none of which moves one item twice in one request,
    the projection equals a fresh one. -/
theorem run_agrees {db : Db} {runId : String} {maxAttempts : ℤ} {s : Db × Projection}
    (hw : WellRanked db runId) (hd : DistinctIds db runId)
    (hrun : Lib.GRun (mutate runId) (fun s m => m.Once runId s.1)
      (db, Projection.hydrate db runId maxAttempts) s) :
    Agrees s.2 (Projection.hydrate s.1 runId maxAttempts) := by
  have hinv : WellRanked s.1 runId ∧ DistinctIds s.1 runId ∧ Synced s.1 runId s.2 ∧
      s.2.maxAttempts = maxAttempts := by
    refine hrun.invariant (fun s => WellRanked s.1 runId ∧ DistinctIds s.1 runId ∧
      Synced s.1 runId s.2 ∧ s.2.maxAttempts = maxAttempts)
      ⟨hw, hd, hydrate_synced hw hd maxAttempts, maxAttempts_hydrate ..⟩ ?_
    rintro ⟨d, q⟩ m t ⟨hw, hd, hs, hm⟩ honce ht
    obtain rfl : m.run runId (d, q) = t := Option.some.inj ht
    have hsame := (commit_told hd honce.ofSelected).same
    exact ⟨hsame.wellRanked hw, hsame.distinctIds hd, hs.run hd honce,
      (maxAttempts_performAll _).trans hm⟩
  obtain ⟨hw', hd', hs', hm'⟩ := hinv
  obtain ⟨hc, hb, hr, hrev, -⟩ := hs'.agree (hydrate_synced hw' hd' maxAttempts) (by simp [hm'])
  exact ⟨hc, hb, by simp only [Projection.copy, hr],
    by simp only [Projection.copy, Projection.firstRetry, Projection.retryTuples, hr],
    by simp only [Projection.copy, Projection.firstRetry, Projection.retryTuples, hr],
    hrev, hs'.counts_nonneg, hs'.counts_sum hw'.imported⟩

/-! ## One item twice in one request -/

theorem nodup_oneRow : (List.map Row.url
    [{ url := "https://host/set/a.bin", relativePath := "set/a.bin", updatedAt := "" }]).Nodup :=
  List.nodup_singleton _

theorem nodup_oneRunItem : (List.map RunItem.key [⟨"run", "https://host/set/a.bin", 0⟩]).Nodup :=
  List.nodup_singleton _

/-- A run of one queued item. -/
def oneItemDb : Db where
  downloads := ⟨[{ url := "https://host/set/a.bin", relativePath := "set/a.bin", updatedAt := "" }],
    nodup_oneRow⟩
  runItems := ⟨[⟨"run", "https://host/set/a.bin", 0⟩], nodup_oneRunItem⟩

/-- A request for the item, naming its ID as often as the argument says. -/
def askFor (n : ℕ) : Request where
  requestId := some "request-1"
  sessionId := some "session-1"
  parameters := .dict [(.str "item_ids",
    .list (List.replicate n (.str (itemId "https://host/set/a.bin"))))]

theorem wellRanked_oneItemDb : WellRanked oneItemDb "run" :=
  ⟨by decide, by decide, by decide⟩

/-- Naming the item twice in `exclude_item` leaves the count of queued items at -1. -/
theorem exclude_twice_disagrees : ¬ ∀ (db : Db) (runId : String) (maxAttempts : ℤ) (m : Mutation),
    WellRanked db runId → DistinctIds db runId →
    Agrees (m.run runId (db, Projection.hydrate db runId maxAttempts)).2
      (Projection.hydrate (m.run runId (db, Projection.hydrate db runId maxAttempts)).1 runId
        maxAttempts) := by
  intro h
  have hagrees := h oneItemDb "run" 6 (.excludeItem (askFor 2) ⟨0, ""⟩) wellRanked_oneItemDb
    (by decide)
  have hneg := hagrees.nonneg .queued
  revert hneg
  decide

/-- The item excluded under one ID, then moved on. -/
def excludedOnce : Db × Projection :=
  Mutation.run "run" (Mutation.run "run" (oneItemDb, Projection.hydrate oneItemDb "run" 6)
      (.excludeItem (askFor 1) ⟨0, ""⟩))
    (.transition "https://host/set/a.bin" .retryWait none [.nextRetryAt 5] ⟨1, ""⟩)

theorem run_agrees_excluded :
    Agrees excludedOnce.2 (Projection.hydrate excludedOnce.1 "run" 6) := by
  have hrun : Lib.GRun (mutate "run") (fun s m => m.Once "run" s.1)
      (oneItemDb, Projection.hydrate oneItemDb "run" 6) excludedOnce := by
    refine mutate_tail (mutate_tail (.refl _) ?_) ?_ <;> decide
  exact run_agrees wellRanked_oneItemDb (by decide) hrun

end TodDl.Store
