/-
  The controller — settings and paths (tod-dl.py).

  A `Config` is what the command line fixes for a session.  The path functions
  compute where an item's staging file and its final are; `Lib.Path` is a path
  from the root.
-/
import TodDl.Lib.FileTree
import TodDl.Lib.Posix
import TodDl.Provenance.Writer
import TodDl.Store.Projection

namespace TodDl.Controller

open Lib (Path FileTree)
open Store (utf8 truthy itemId)

/-- What `read_queues` yields for a line. -/
structure QueueEntry where
  url : String
  /-- `relative_path(url)` has split the path of the URL -/
  hasSlash : '/' ∈ url.toList := by decide
  /-- the parts of `relative_path(url)` -/
  rel : List String
  inventorySize : Option String := none
  expectedSha256 : Option String := none
  generation : Option String := none
  deriving DecidableEq

/-- The settings of a session, and what the file system of its destination fixes. -/
structure Config where
  runId : String
  destination : Path
  state : Path
  maxFiles : ℤ := 0
  maxAttempts : ℤ := 0
  workers : ℕ := 4
  retryNow : Bool := false
  timeLimit : ℚ := 0
  reserveBytes : ℤ := 0
  queue : Lib.Table QueueEntry.url := .empty
  /-- `queue_inputs`: the paths and digests of the queue files -/
  queueInputs : Provenance.PyVal := .list []
  /-- `os.pathconf(destination, "PC_NAME_MAX")`, if the file system tells -/
  nameMax : Option ℕ := some 255

/-- `str(path)` of a path from the root. -/
def pathText (p : Path) : String := "/" ++ (if p = [] then "" else Lib.Posix.asPosix p)

/-- `base / Path(text)` -/
def joinText (base : Path) (text : String) : Path :=
  if Lib.Posix.isAbsolute text then Lib.Posix.components text else base ++ Lib.Posix.components text

/-- `Path(text)` of an absolute text. -/
def pathOf (text : String) : Path := joinText [] text

/-- `p.relative_to(base).as_posix()`, if `p` is below `base`. -/
def relativeTo (p base : Path) : Option (List String) :=
  if base.isPrefixOf p then some (p.drop base.length) else none

namespace Config
variable (cfg : Config)

def incoming : Path := cfg.state ++ ["incoming"]
def candidates : Path := cfg.state ++ ["redownload-candidates"]

/-- `staging_path(url)` -/
def stagingPath (url : String) : Path :=
  let digest := (itemId url).toList
  cfg.incoming ++ [String.ofList (digest.take 2), String.ofList (digest.drop 2)]

/-- `safe_component_bytes` of `storage_relative` -/
def safeComponentBytes : ℕ := min 240 (max 1 (cfg.nameMax.getD 240 - 1))

/-- One component of `storage_relative`. -/
def storageComponent (c : String) : String :=
  if cfg.safeComponentBytes < (utf8 c).length then "__longname__" ++ itemId c else c

/-- `storage_relative(path, destination)` -/
def storageRelative (rel : List String) : List String :=
  let stored := rel.map cfg.storageComponent
  if 3800 < (utf8 (pathText (cfg.destination ++ stored))).length then
    ["__longpath__" ++ itemId (Lib.Posix.asPosix rel)]
  else stored

end Config

/-! ## `legacy_relative_path` -/

/-- The text of code points. -/
def ofCodes (codes : List ℕ) : String := String.ofList (codes.map Char.ofNat)

/-- The parts of a URL that `urlsplit` separates; fragments are dropped. -/
structure SplitUrl where
  netloc : List ℕ
  path : List ℕ
  query : List ℕ

/-- `urlsplit(url)`, without its checks of bracketed hosts and of hosts outside
    ASCII. -/
def urlsplit (url : List ℕ) : Except Provenance.Failure SplitUrl := do
  let netloc ← Provenance.netloc url
  let stripped := (url.dropWhile (· ≤ 32)).filter fun c => c ≠ 9 && c ≠ 10 && c ≠ 13
  let rest := match Provenance.afterScheme stripped with
    | 47 :: 47 :: rest => rest.drop netloc.length
    | rest => rest
  let plain := rest.takeWhile (· ≠ 35)
  return ⟨netloc, plain.takeWhile (· ≠ 63), (plain.dropWhile (· ≠ 63)).drop 1⟩

/-- `parsed.username or parsed.password`: what stands before the last `@` is more
    than a colon. -/
def hasUserInfo (netloc : List ℕ) : Bool :=
  ((netloc.reverse.dropWhile (· ≠ 64)).drop 1).reverse ∉ [[], [58]]

/-- `is_unsafe_relative(path)` for the path of a text. -/
def isUnsafeRelative (parts : List String) : Bool :=
  parts.any fun c => c = ".." || '\x00' ∈ c.toList

/-- `legacy_relative_path(url)` -/
def legacyRelativePath (url : String) : Option (List String) :=
  match urlsplit (url.toList.map Char.toNat) with
  | .error _ => none
  | .ok parsed =>
    if hasUserInfo parsed.netloc || !parsed.query.isEmpty then none
    else
      let path := parsed.path.dropWhile (· = 47)
      let first := path.takeWhile (· ≠ 47)
      match path.drop first.length with
      | [] => none
      | _ :: rest =>
        if ofCodes rest ∈ ["", "ALL_FILES", "data/ALL_FILES"] then none
        else if Lib.Posix.isAbsolute (ofCodes rest) then none
        else
          let parts := Lib.Posix.components (ofCodes first) ++ Lib.Posix.components (ofCodes rest)
          if isUnsafeRelative parts then none else some parts

/-- `resolved_storage_target(rel, url)`: the storage path and the target. -/
def Config.resolvedStorageTarget (cfg : Config) (fs : FileTree) (rel : List String) (url : String) :
    List String × Path :=
  let stored := cfg.storageRelative rel
  let target := cfg.destination ++ stored
  if fs.pathExists target then (stored, target)
  else match legacyRelativePath url with
    | none => (stored, target)
    | some legacy =>
      let legacyStored := cfg.storageRelative legacy
      let legacyTarget := cfg.destination ++ legacyStored
      if legacy ≠ rel ∧ fs.pathExists legacyTarget then (legacyStored, legacyTarget)
      else (stored, target)

/-! ## Checks of paths against the file tree -/

/-- The proper ancestors of a path below a base, from the outside in. -/
def ancestors (base : Path) (parts : List String) : List Path :=
  (List.range (parts.length - 1)).map fun i => base ++ parts.take (i + 1)

/-- `base` is no link and the directories below it on the way are real ones. -/
def realParents (fs : FileTree) (base : Path) (parts : List String) : Bool :=
  !fs.isLink base && (ancestors base parts).all fun p => !fs.isLink p && fs.isDir p

/-- `is_promotable_final_path(target)` -/
def Config.isPromotableFinalPath (cfg : Config) (fs : FileTree) (target : Path) : Bool :=
  match relativeTo target cfg.destination with
  | none | some [] => false
  | some parts => realParents fs cfg.destination parts &&
      match fs.lstat target with
      | .error .enoent => true
      | _ => false

/-- `is_safe_final_path(target)` -/
def Config.isSafeFinalPath (cfg : Config) (fs : FileTree) (target : Path) : Bool :=
  match relativeTo target cfg.destination with
  | none | some [] => false
  | some parts => realParents fs cfg.destination parts && fs.isRegular target

/-- `is_safe_staging_path(staging)` -/
def Config.isSafeStagingPath (cfg : Config) (fs : FileTree) (staging : Path) : Bool :=
  match relativeTo staging cfg.incoming with
  | none | some [] => false
  | some parts => realParents fs cfg.incoming parts

end TodDl.Controller
