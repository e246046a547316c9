/-
  File trees with hard links and symbolic links.

  A path is the list of its components from the root.  A tree says which node a
  path without links names, and what the inodes hold.  `walk` follows the links
  on the way, at most as many as its budget; the system calls are defined on it.

  `Extends`: entries were added, none was changed; what a path led to before it
  still leads to (`walk_extends`).
-/
import Mathlib.Data.Nat.Notation
import Mathlib.Logic.Function.Basic

namespace TodDl.Lib

abbrev Path := List String

/-- The errors of the system calls. -/
inductive Errno where
  | enoent
  | eexist
  | enotdir
  | eisdir
  | eloop
  | eperm
  | enametoolong
  | other (code : ℕ)
  deriving DecidableEq

/-- An entry of a directory. -/
inductive Node where
  | dir
  | file (inode : ℕ)
  | symlink (absolute : Bool) (target : List String)
  | special
  deriving DecidableEq

/-- A file tree; the root is always a directory. -/
structure FileTree where
  node : Path → Option Node
  data : ℕ → List UInt8
  /-- `st_size` of what is not a regular file -/
  otherSize : ℕ := 4096

namespace FileTree

/-- `MAXSYMLINKS` -/
def maxLinks : ℕ := 40

/-- The node at a path without links. -/
def nodeAt (t : FileTree) (p : Path) : Option Node := if p = [] then some .dir else t.node p

/-- One walk up to the first link, which `follow` takes. -/
def walkFrom (t : FileTree) (follow : Path → List String → Except Errno Path) :
    Path → List String → Except Errno Path
  | p, [] => .ok p
  | p, c :: cs =>
    if c = ".." then walkFrom t follow p.dropLast cs
    else match t.node (p ++ [c]) with
      | none => .error .enoent
      | some .dir => walkFrom t follow (p ++ [c]) cs
      | some (.symlink absolute target) => follow (if absolute then [] else p) (target ++ cs)
      | some _ => if cs = [] then .ok (p ++ [c]) else .error .enotdir

/-- The path without links that a path leads to. -/
def walk (t : FileTree) : ℕ → Path → List String → Except Errno Path
  | 0 => t.walkFrom fun _ _ => .error .eloop
  | n + 1 => t.walkFrom (t.walk n)

/-- Follows every link. -/
def resolve (t : FileTree) (p : Path) : Except Errno Path := t.walk maxLinks [] p

/-- Follows the links of the parent, not the last component. -/
def locate (t : FileTree) (p : Path) : Except Errno Path :=
  match p.getLast? with
  | none => .ok []
  | some name =>
    if name = ".." then t.resolve p
    else match t.resolve p.dropLast with
      | .error e => .error e
      | .ok parent => if t.nodeAt parent = some .dir then .ok (parent ++ [name]) else .error .enotdir

/-! ## System calls -/

/-- `lstat` -/
def lstat (t : FileTree) (p : Path) : Except Errno Node :=
  match t.locate p with
  | .error e => .error e
  | .ok q => match t.nodeAt q with
    | none => .error .enoent
    | some n => .ok n

/-- `stat` -/
def stat (t : FileTree) (p : Path) : Except Errno Node :=
  match t.resolve p with
  | .error e => .error e
  | .ok q => match t.nodeAt q with
    | none => .error .enoent
    | some n => .ok n

/-- `st_size` -/
def nodeSize (t : FileTree) : Node → ℕ
  | .file inode => (t.data inode).length
  | _ => t.otherSize

/-- `stat(...).st_size` -/
def size (t : FileTree) (p : Path) : Except Errno ℕ :=
  match t.stat p with
  | .error e => .error e
  | .ok n => .ok (t.nodeSize n)

/-- The bytes of a file, from `open` to the end. -/
def read (t : FileTree) (p : Path) : Except Errno (List UInt8) :=
  match t.stat p with
  | .error e => .error e
  | .ok (.file inode) => .ok (t.data inode)
  | .ok .dir => .error .eisdir
  | .ok _ => .error (.other 6)

/-- The path leads to something. -/
def pathExists (t : FileTree) (p : Path) : Bool := (t.stat p).isOk

/-- `lstat` finds a regular file. -/
def isRegular (t : FileTree) (p : Path) : Bool :=
  match t.lstat p with
  | .ok (.file _) => true
  | _ => false

/-- `os.path.islink` -/
def isLink (t : FileTree) (p : Path) : Bool :=
  match t.lstat p with
  | .ok (.symlink _ _) => true
  | _ => false

/-- `Path.is_dir` -/
def isDir (t : FileTree) (p : Path) : Bool :=
  match t.stat p with
  | .ok .dir => true
  | _ => false

/-- `Path.is_file` -/
def isFile (t : FileTree) (p : Path) : Bool :=
  match t.stat p with
  | .ok (.file _) => true
  | _ => false

/-- The tree with another entry at a path without links. -/
def put (t : FileTree) (p : Path) (n : Option Node) : FileTree :=
  { t with node := Function.update t.node p n }

/-- A new entry where there is none. -/
def create (t : FileTree) (p : Path) (n : Node) : Except Errno FileTree :=
  if p.getLast? = some ".." then .error .eexist
  else match t.locate p with
  | .error e => .error e
  | .ok q => match t.nodeAt q with
    | some _ => .error .eexist
    | none => .ok (t.put q (some n))

/-- `link(2)`: a second entry of the file; a link as the source is not followed. -/
def link (t : FileTree) (src dst : Path) : Except Errno FileTree :=
  match t.lstat src with
  | .error e => .error e
  | .ok .dir => .error .eperm
  | .ok n => t.create dst n

/-- `mkdir(2)` -/
def mkdir (t : FileTree) (p : Path) : Except Errno FileTree := t.create p .dir

/-- `unlink(2)` -/
def unlink (t : FileTree) (p : Path) : Except Errno FileTree :=
  match t.locate p with
  | .error e => .error e
  | .ok q => match t.nodeAt q with
    | none => .error .enoent
    | some .dir => .error .eisdir
    | some _ => .ok (t.put q none)

/-- `rename(2)` of what is not a directory. -/
def rename (t : FileTree) (src dst : Path) : Except Errno FileTree :=
  match t.locate src, t.locate dst with
  | .error e, _ => .error e
  | _, .error e => .error e
  | .ok a, .ok b => match t.nodeAt a with
    | none => .error .enoent
    | some .dir => .error .eisdir
    | some n => .ok ((t.put b (some n)).put a (if a = b then some n else none))

/-! ## What the walks find -/

section
variable {t t' : FileTree} {p q : Path}

/-- Entries were added, none was changed. -/
structure Extends (t t' : FileTree) : Prop where
  node : ∀ p n, t.node p = some n → t'.node p = some n
  data : t'.data = t.data

theorem Extends.refl (t : FileTree) : Extends t t := ⟨fun _ _ h => h, rfl⟩

theorem Extends.trans {t'' : FileTree} (h : Extends t t') (h' : Extends t' t'') : Extends t t'' :=
  ⟨fun p n hn => h'.node p n (h.node p n hn), h'.data.trans h.data⟩

theorem Extends.nodeAt (h : Extends t t') {n : Node} (hn : t.nodeAt p = some n) :
    t'.nodeAt p = some n := by
  unfold FileTree.nodeAt at hn ⊢
  split at hn
  · next hp => rw [if_pos hp]; exact hn
  · next hp => rw [if_neg hp]; exact h.node p n hn

theorem walkFrom_extends {follow follow' : Path → List String → Except Errno Path}
    (h : Extends t t') (hf : ∀ p cs q, follow p cs = .ok q → follow' p cs = .ok q) {cs : List String}
    (hw : t.walkFrom follow p cs = .ok q) : t'.walkFrom follow' p cs = .ok q := by
  induction cs generalizing p with
  | nil => exact hw
  | cons c cs ih =>
    rw [walkFrom] at hw ⊢
    split
    · next hc => rw [if_pos hc] at hw; exact ih hw
    · next hc =>
      rw [if_neg hc] at hw
      cases hn : t.node (p ++ [c]) with
      | none => rw [hn] at hw; cases hw
      | some n =>
        rw [h.node _ _ hn]
        rw [hn] at hw
        cases n with
        | dir => exact ih hw
        | symlink absolute target => exact hf _ _ _ hw
        | file inode => exact hw
        | special => exact hw

/-- **What a path led to before, it leads to after** entries were added. -/
theorem walk_extends (h : Extends t t') {n : ℕ} {cs : List String}
    (hw : t.walk n p cs = .ok q) : t'.walk n p cs = .ok q := by
  induction n generalizing p q cs with
  | zero => exact walkFrom_extends h (fun _ _ _ e => by cases e) hw
  | succ n ih => exact walkFrom_extends h (fun _ _ _ e => ih e) hw

theorem resolve_extends (h : Extends t t') (hr : t.resolve p = .ok q) : t'.resolve p = .ok q :=
  walk_extends h hr

/-- All that is on the way to the path is a directory, and so is the path. -/
def Real (t : FileTree) (p : Path) : Prop := ∀ q, q <+: p → q ≠ [] → t.node q = some .dir

theorem real_nil (t : FileTree) : t.Real [] := fun _ hq hne => absurd (List.prefix_nil.1 hq) hne

theorem Real.concat {c : String} (h : t.Real p) (hn : t.node (p ++ [c]) = some .dir) :
    t.Real (p ++ [c]) := by
  intro q hq hne
  rcases List.prefix_concat_iff.1 hq with rfl | hq
  · exact hn
  · exact h q hq hne

theorem Real.dropLast (h : t.Real p) : t.Real p.dropLast :=
  fun q hq hne => h q (hq.trans (List.dropLast_prefix p)) hne

theorem Real.nodeAt (h : t.Real p) : t.nodeAt p = some .dir := by
  unfold FileTree.nodeAt
  split
  · rfl
  · next hne => exact h p List.prefix_rfl hne

/-- A walk goes through what stands before the last components first. -/
theorem walkFrom_append {follow : Path → List String → Except Errno Path} {cs ds : List String}
    (hf : ∀ p cs q, t.Real p → follow p (cs ++ ds) = .ok q →
      ∃ r, follow p cs = .ok r ∧ (t.nodeAt r).isSome)
    (hp : t.Real p) (hw : t.walkFrom follow p (cs ++ ds) = .ok q) :
    ∃ r, t.walkFrom follow p cs = .ok r ∧ (t.nodeAt r).isSome := by
  induction cs generalizing p with
  | nil => exact ⟨p, rfl, by rw [hp.nodeAt]; rfl⟩
  | cons c cs ih =>
    rw [List.cons_append, walkFrom] at hw
    rw [walkFrom]
    split
    · next hc => rw [if_pos hc] at hw; exact ih hp.dropLast hw
    · next hc =>
      rw [if_neg hc] at hw
      cases hn : t.node (p ++ [c]) with
      | none => rw [hn] at hw; cases hw
      | some n =>
        rw [hn] at hw
        cases n with
        | dir => exact ih (hp.concat hn) hw
        | symlink absolute target =>
          simp only at hw ⊢
          rw [← List.append_assoc] at hw
          refine hf _ _ _ ?_ hw
          cases absolute
          · exact hp
          · exact real_nil t
        | file inode | special =>
          simp only at hw ⊢
          split at hw
          · next hnil =>
            rw [if_pos (List.append_eq_nil_iff.1 hnil).1]
            exact ⟨_, rfl, by rw [nodeAt, if_neg (by simp), hn]; rfl⟩
          · cases hw

theorem walk_append {n : ℕ} {cs ds : List String} (hp : t.Real p)
    (hw : t.walk n p (cs ++ ds) = .ok q) : ∃ r, t.walk n p cs = .ok r ∧ (t.nodeAt r).isSome := by
  induction n generalizing p q cs with
  | zero => exact walkFrom_append (fun _ _ _ _ e => by cases e) hp hw
  | succ n ih => exact walkFrom_append (fun _ _ _ hq e => ih hq e) hp hw

/-- What stands above something that exists, exists. -/
theorem pathExists_of_append {p q : Path} (h : t.pathExists (p ++ q) = true) :
    t.pathExists p = true := by
  unfold pathExists stat at h ⊢
  cases hr : t.resolve (p ++ q) with
  | error e => rw [hr] at h; cases h
  | ok r =>
    obtain ⟨s, hs, hnode⟩ := walk_append (real_nil t) hr
    obtain ⟨n, hn⟩ := Option.isSome_iff_exists.1 hnode
    rw [show t.resolve p = .ok s from hs]
    simp [hn, Except.isOk, Except.toBool]

/-- The step of a walk through its last component, when that is no link. -/
theorem walkFrom_concat {follow : Path → List String → Except Errno Path} {name : String} {n : Node}
    (hname : name ≠ "..") (hlink : ∀ absolute target, n ≠ .symlink absolute target)
    (hf : ∀ p cs, follow p cs = .ok q → follow p (cs ++ [name]) = .ok (q ++ [name]))
    {cs : List String}
    (hw : t.walkFrom follow p cs = .ok q) (hn : t.node (q ++ [name]) = some n)
    (hdir : t.nodeAt q = some .dir) : t.walkFrom follow p (cs ++ [name]) = .ok (q ++ [name]) := by
  induction cs generalizing p with
  | nil =>
    obtain rfl : p = q := Except.ok.inj hw
    rw [List.nil_append, walkFrom, if_neg hname, hn]
    cases n with
    | symlink absolute target => exact absurd rfl (hlink absolute target)
    | dir | file | special => rfl
  | cons c cs ih =>
    rw [List.cons_append, walkFrom]
    rw [walkFrom] at hw
    split
    · next hc => rw [if_pos hc] at hw; exact ih hw
    · next hc =>
      rw [if_neg hc] at hw
      cases hnode : t.node (p ++ [c]) with
      | none => rw [hnode] at hw; cases hw
      | some m =>
        rw [hnode] at hw
        cases m with
        | dir => exact ih hw
        | symlink absolute target =>
          simp only at hw ⊢
          rw [← List.append_assoc]
          exact hf _ _ hw
        | file inode | special =>
          -- a directory ends the walk, so this is not the end
          simp only at hw
          split at hw
          · obtain rfl : p ++ [c] = q := Except.ok.inj hw
            rw [nodeAt, if_neg (by simp), hnode] at hdir
            cases hdir
          · cases hw

theorem walk_concat {name : String} {n : Node} (hname : name ≠ "..")
    (hlink : ∀ absolute target, n ≠ .symlink absolute target) {m : ℕ} {cs : List String}
    (hw : t.walk m p cs = .ok q) (hn : t.node (q ++ [name]) = some n)
    (hdir : t.nodeAt q = some .dir) : t.walk m p (cs ++ [name]) = .ok (q ++ [name]) := by
  induction m generalizing p cs with
  | zero => exact walkFrom_concat hname hlink (fun _ _ e => by cases e) hw hn hdir
  | succ m ih => exact walkFrom_concat hname hlink (fun _ _ e => ih e) hw hn hdir

theorem resolve_of_locate {n : Node} (hl : t.locate p = .ok q) (hn : t.nodeAt q = some n)
    (hlink : ∀ absolute target, n ≠ .symlink absolute target) : t.resolve p = .ok q := by
  rw [locate] at hl
  cases hp : p.getLast? with
  | none =>
    rw [hp] at hl
    obtain rfl : [] = q := Except.ok.inj hl
    obtain rfl : p = [] := List.getLast?_eq_none_iff.1 hp
    rfl
  | some name =>
    simp only [hp] at hl
    split at hl
    · exact hl
    · next hname =>
      split at hl
      · cases hl
      · next parent hparent =>
        split at hl
        · next hdir =>
          obtain rfl : parent ++ [name] = q := Except.ok.inj hl
          rw [nodeAt, if_neg (by simp)] at hn
          obtain ⟨init, rfl⟩ := List.getLast?_eq_some_iff.1 hp
          rw [List.dropLast_concat] at hparent
          exact walk_concat hname hlink hparent hn hdir
        · cases hl

/-- A regular file can be read through the path that `lstat` saw it at. -/
theorem isRegular_iff : t.isRegular p = true ↔
    ∃ q inode, t.locate p = .ok q ∧ t.nodeAt q = some (.file inode) := by
  unfold isRegular lstat
  cases hl : t.locate p with
  | error e => simp
  | ok q => cases hn : t.nodeAt q with
    | none => simp [hn]
    | some n => cases n <;> simp [hn]

theorem read_of_locate {inode : ℕ} (hl : t.locate p = .ok q) (hn : t.nodeAt q = some (.file inode)) :
    t.read p = .ok (t.data inode) := by
  rw [read, stat, resolve_of_locate hl hn (by simp)]
  simp only [hn]

theorem read_isRegular (h : t.isRegular p = true) : ∃ d, t.read p = .ok d := by
  obtain ⟨q, inode, hl, hn⟩ := isRegular_iff.1 h
  exact ⟨_, read_of_locate hl hn⟩

theorem stat_extends (h : Extends t t') {n : Node} (hs : t.stat p = .ok n) : t'.stat p = .ok n := by
  rw [stat] at hs ⊢
  cases hr : t.resolve p with
  | error e => rw [hr] at hs; cases hs
  | ok q =>
    rw [hr] at hs
    rw [resolve_extends h hr]
    simp only at hs ⊢
    cases hn : t.nodeAt q with
    | none => rw [hn] at hs; cases hs
    | some m => rw [hn] at hs; rw [h.nodeAt hn]; exact hs

theorem size_of_pathExists (h : t.pathExists p = true) : ∃ n, t.size p = .ok n := by
  unfold pathExists at h
  unfold size
  cases hs : t.stat p with
  | error e => rw [hs] at h; cases h
  | ok n => exact ⟨_, rfl⟩

theorem size_of_read {d : List UInt8} (h : t.read p = .ok d) : t.size p = .ok d.length := by
  rw [read] at h
  rw [size]
  cases hs : t.stat p with
  | error e => rw [hs] at h; cases h
  | ok n =>
    rw [hs] at h
    cases n with
    | file inode => obtain rfl := Except.ok.inj h; rfl
    | dir | symlink _ _ | special => cases h

/-- A created entry is where its path says. -/
theorem create_eq_ok {n : Node} (h : t.create p n = .ok t') :
    ∃ q, t.locate p = .ok q ∧ t.nodeAt q = none ∧ t' = t.put q (some n) := by
  rw [create] at h
  split at h
  · cases h
  · split at h
    · cases h
    · next q hq =>
      split at h
      · cases h
      · next hnone => exact ⟨q, hq, hnone, (Except.ok.inj h).symm⟩

theorem put_extends {n : Node} (h : t.nodeAt q = none) : Extends t (t.put q (some n)) := by
  refine ⟨fun p m hm => ?_, rfl⟩
  have hne : p ≠ q := by
    rintro rfl
    unfold nodeAt at h
    split at h
    · cases h
    · rw [hm] at h; cases h
  simp only [put, Function.update_of_ne hne, hm]

theorem create_extends {n : Node} (h : t.create p n = .ok t') : Extends t t' := by
  obtain ⟨q, -, hnone, rfl⟩ := create_eq_ok h
  exact put_extends hnone

theorem mkdir_extends (h : t.mkdir p = .ok t') : Extends t t' := create_extends h

theorem link_extends {src : Path} (h : t.link src p = .ok t') : Extends t t' := by
  rw [link] at h
  split at h
  · cases h
  · cases h
  · exact create_extends h

/-- A created entry can be located. -/
theorem locate_create {n : Node} (h : t.create p n = .ok t') :
    ∃ q, t'.locate p = .ok q ∧ t'.nodeAt q = some n := by
  have hext := create_extends h
  have hlast : p.getLast? ≠ some ".." := by
    rw [create] at h
    split at h
    · cases h
    · assumption
  obtain ⟨q, hl, hnone, rfl⟩ := create_eq_ok h
  have hq : q ≠ [] := by
    rintro rfl
    simp [nodeAt] at hnone
  refine ⟨q, ?_, by rw [nodeAt, if_neg hq, put]; simp⟩
  rw [locate] at hl ⊢
  cases hp : p.getLast? with
  | none => rw [hp] at hl; exact hl
  | some name =>
    have hname : name ≠ ".." := by rintro rfl; exact hlast hp
    simp only [hp, if_neg hname] at hl ⊢
    cases hr : t.resolve p.dropLast with
    | error e => rw [hr] at hl; cases hl
    | ok parent =>
      rw [hr] at hl
      rw [resolve_extends hext hr]
      simp only at hl ⊢
      split at hl
      · next hdir => rw [hext.nodeAt hdir, if_pos rfl]; exact hl
      · cases hl

/-- **The second entry of a file reads as the first one.** -/
theorem read_link {src dst : Path} (h : t.link src dst = .ok t') (hs : t.isRegular src = true) :
    t'.read dst = t.read src := by
  obtain ⟨q, inode, hl, hn⟩ := isRegular_iff.1 hs
  have hc : t.create dst (.file inode) = .ok t' := by
    rw [link, lstat, hl] at h
    simpa only [hn] using h
  obtain ⟨r, hr, hrn⟩ := locate_create hc
  rw [read_of_locate hl hn, read_of_locate hr hrn, (link_extends h).data]

end

end FileTree

end TodDl.Lib
