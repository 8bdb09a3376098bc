/-
  Vfs/Mount.lean --- the mount table and path resolution.

  Embeds `MountTable` with `mount`, `find_mount_root`, `resolve_parent` and
  `resolve_inode`, and the relative walk with its symbolic links
  (kernel/src/fs/mount.rs).

  `Place` is what resolving an absolute path depends on: the mount the path falls
  under, and the components that are really looked up.  `..` is passed over by
  the walk, unless it is the last component.
-/
import Bazzulto.Vfs.Inode
import Mathlib.Data.List.Sort

set_option autoImplicit false

namespace Bazzulto.Vfs

open List

/-- `MountEntry`; `path` is its `prefix`. -/
structure MountEntry where
  path : Text
  root : InodeId
  source : Text
  fstype : Text
  deriving DecidableEq, Repr

abbrev MountTable := List MountEntry

namespace MountTable

/-- `MountTable::mount`: longer paths come first. -/
def mount (table : MountTable) (entry : MountEntry) : MountTable :=
  ((table.filter fun other => other.path ≠ entry.path) ++ [entry]).insertionSort
    fun first second => utf8Length second.path ≤ utf8Length first.path

/-- The test `find_mount_root` makes for one entry: the rest of the path. -/
def remaining (entry : MountEntry) (path : Text) : Option Text :=
  if path = entry.path then some []
  else if entry.path.isPrefixOf path then
    let rest := path.drop entry.path.length
    if ['/'].isPrefixOf rest || entry.path = ['/'] then
      some (if entry.path = ['/'] then path else rest)
    else none
  else none

def findMountRoot : MountTable → Text → Option (MountEntry × Text)
  | [], _ => none
  | entry :: rest, path =>
    match remaining entry path with
    | some text => some (entry, text)
    | none => findMountRoot rest path

end MountTable

/-! ## Resolution -/

/-- One step of the walk of `resolve_parent`. -/
def walkStep (inodes : Inodes) (current : InodeId) (component : Text) : Except FsError InodeId :=
  if component = ['.', '.'] then .ok current
  else if (inodes.node current).kind ≠ .directory then .error .notDirectory
  else
    match (inodes.node current).lookup component with
    | some inode => .ok inode
    | none => .error .notFound

def resolveParent (inodes : Inodes) (table : MountTable) (path : Text) :
    Except FsError (InodeId × Text) :=
  match table.findMountRoot path with
  | none => .error .notFound
  | some (entry, rest) =>
    match (components rest).getLast? with
    | none => .ok (entry.root, ['.'])
    | some last => do
        let parent ← (components rest).dropLast.foldlM (walkStep inodes) entry.root
        return (parent, last)

/-- The absolute branch of `resolve_inode`. -/
def resolveAbsolute (inodes : Inodes) (table : MountTable) (path : Text) :
    Except FsError InodeId := do
  let (parent, name) ← resolveParent inodes table path
  if name = ['.'] then return parent
  else
    match (inodes.node parent).lookup name with
    | some inode => return inode
    | none => .error .notFound

/-- `follow_symlinks`, with the number of hops that are left. -/
def followSymlinks (inodes : Inodes) (table : MountTable) :
    Nat → InodeId → Except FsError InodeId
  | hops, inode =>
    match inodes.node inode with
    | .foreign inner =>
      if inner.kind ≠ .symlink then .ok inode
      else
        match hops with
        | 0 => .error .tooManyLinks
        | hops + 1 => do
            let bytes ← inner.readAt 0 512
            match fromUtf8 bytes with
            | none => .error .invalidArgument
            | some target =>
              if ['/'].isPrefixOf target then
                let next ← resolveAbsolute inodes table target
                followSymlinks inodes table hops next
              else .error .notFound
    | _ => .ok inode

section

variable (inodes : Inodes)

def resolveRelative (table : MountTable) (start : InodeId) (path : Text) : Except FsError InodeId :=
  (components path).foldlM (fun current component =>
    if component = ['.', '.'] then .ok current
    else if (inodes.node current).kind ≠ .directory then .error .notDirectory
    else
      match (inodes.node current).lookup component with
      | some inode => followSymlinks inodes table 8 inode
      | none => .error .notFound) start

section

variable (table : MountTable) (path : Text)

def resolveInode (cwd : Option InodeId) : Except FsError InodeId :=
  if ['/'].isPrefixOf path then resolveAbsolute inodes table path
  else
    match cwd with
    | none => .error .notFound
    | some start => resolveRelative inodes table start path

/-! ## Places -/

/-- The components a walk looks up. -/
def walked (items : List Text) : List Text :=
  (items.dropLast.filter fun item => item ≠ ['.', '.']) ++ items.getLast?.toList

/-- Where an absolute path leads: its mount, and the components looked up. -/
structure Place where
  entry : MountEntry
  names : List Text
  deriving DecidableEq, Repr

/-- The place of an absolute path. -/
def placeOf : Option Place :=
  (table.findMountRoot path).map fun (entry, rest) => ⟨entry, walked (components rest)⟩

theorem foldlM_walkStep (items : List Text) (start : InodeId) :
    items.foldlM (walkStep inodes) start =
      (items.filter fun item => item ≠ ['.', '.']).foldlM (walkStep inodes) start := by
  induction items generalizing start with
  | nil => rfl
  | cons item rest ih =>
    by_cases hdots : item = ['.', '.']
    · rw [foldlM_cons, filter_cons_of_neg (by simp [hdots]), ← ih, walkStep, if_pos hdots]
      rfl
    · rw [foldlM_cons, filter_cons_of_pos (by simp [hdots])]
      exact congrArg _ (funext ih)

theorem walked_concat (items : List Text) (last : Text) :
    walked (items ++ [last]) = (items.filter fun item => item ≠ ['.', '.']) ++ [last] := by
  rw [walked, dropLast_concat, List.getLast?_concat]
  rfl

/-- The inode a place leads to. -/
def resolvePlace (place : Place) : Except FsError InodeId :=
  match place.names.getLast? with
  | none => .ok place.entry.root
  | some last => do
      let parent ← place.names.dropLast.foldlM (walkStep inodes) place.entry.root
      if last = ['.'] then return parent
      else
        match (inodes.node parent).lookup last with
        | some inode => return inode
        | none => .error .notFound

/-- Resolving an absolute path looks at nothing but its place. -/
theorem resolveAbsolute_eq :
    resolveAbsolute inodes table path =
      match placeOf table path with
      | none => .error .notFound
      | some place => resolvePlace inodes place := by
  unfold resolveAbsolute resolveParent placeOf
  cases table.findMountRoot path with
  | none => rfl
  | some found =>
    obtain ⟨entry, rest⟩ := found
    rcases eq_nil_or_concat' (components rest) with hnil | ⟨items, _, hitems⟩
    · simp only [Option.map_some, hnil]
      rfl
    · simp only [Option.map_some, hitems, List.getLast?_concat, dropLast_concat,
        walked_concat, resolvePlace, ← foldlM_walkStep]
      cases items.foldlM (walkStep inodes) entry.root <;> rfl

end

end

end Bazzulto.Vfs
