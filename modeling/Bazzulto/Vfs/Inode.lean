/-
  Vfs/Inode.lean --- inodes, the tmpfs, and the access check.

  Embeds `InodeType`, `InodeStat`, `FsError` and `vfs_check_access`
  (kernel/src/fs/inode.rs) and the tmpfs implementation of the `Inode` trait
  (kernel/src/fs/tmpfs.rs).  An `Arc<dyn Inode>` is a number, and the inodes are
  a function from numbers to nodes.  An inode of another driver is known only by
  the answers it gives.
-/
import Bazzulto.Foundation.Checked
import Bazzulto.Vfs.Path
import Mathlib.Logic.Function.Basic

set_option autoImplicit false

namespace Bazzulto.Vfs

open Foundation Checked

abbrev InodeId := Nat

inductive InodeType where
  | regularFile
  | directory
  | charDevice
  | fifo
  | symlink
  deriving DecidableEq, Repr

/-- `InodeStat`, as far as the access check and `seek` read it. -/
structure InodeStat where
  size : Nat
  mode : Nat
  uid : Nat
  gid : Nat
  deriving DecidableEq, Repr

inductive FsError where
  | notSupported
  | notFound
  | notDirectory
  | alreadyExists
  | directoryNotEmpty
  | outOfMemory
  | ioError
  | permissionDenied
  | brokenPipe
  | wouldBlock
  | tooManyLinks
  | invalidArgument
  deriving DecidableEq, Repr

def FsError.toErrno : FsError → Int
  | notSupported => -38
  | notFound => -2
  | notDirectory => -20
  | alreadyExists => -17
  | directoryNotEmpty => -39
  | outOfMemory => -12
  | ioError => -5
  | permissionDenied => -1
  | brokenPipe => -32
  | wouldBlock => -11
  | tooManyLinks => -40
  | invalidArgument => -22

/-! ## Access -/

def accessRead : Nat := 4
def accessWrite : Nat := 2
def accessExecute : Nat := 1

/-- The effective identity of a process; `groups` is its supplementary list up to
`ngroups`. -/
structure Credentials where
  euid : Nat
  egid : Nat
  groups : List Nat
  deriving DecidableEq, Repr

/-- `vfs_check_access`: `false` is `PermissionDenied`. -/
def vfsCheckAccess (stat : InodeStat) (who : Credentials) (access : Nat) : Bool :=
  if who.euid = 0 then !(access &&& accessExecute != 0 && stat.mode &&& 0o111 == 0)
  else
    let modeBits :=
      if who.euid = stat.uid then (stat.mode >>> 6) &&& 0o7
      else if who.egid = stat.gid || who.groups.contains stat.gid then
        (stat.mode >>> 3) &&& 0o7
      else stat.mode &&& 0o7
    access &&& modeBits = access

/-! ## Nodes -/

structure TmpfsFile where
  data : List UInt8 := []
  mode : Nat := 0o100644
  uid : Nat := 0
  gid : Nat := 0
  deriving DecidableEq, Repr

structure TmpfsDir where
  entries : List (Text × InodeId) := []
  mode : Nat := 0o040755
  uid : Nat := 0
  gid : Nat := 0
  deriving DecidableEq, Repr

/-- An inode of another driver: the answers it gives.  `create` answers with the
number of the new inode among those its driver makes. -/
structure Foreign where
  kind : InodeType
  stat : InodeStat
  lookup : Text → Option InodeId
  readAt : Nat → Nat → Except FsError (List UInt8)
  writeAt : Nat → List UInt8 → Except FsError Nat
  truncate : Nat → Except FsError Unit
  create : Text → Except FsError Nat

inductive Node where
  | file (inner : TmpfsFile)
  | dir (inner : TmpfsDir)
  | foreign (inner : Foreign)

def Node.isForeign : Node → Bool
  | .foreign _ => true
  | _ => false

namespace Node

/-- `inode_type`. -/
def kind : Node → InodeType
  | .file _ => .regularFile
  | .dir _ => .directory
  | .foreign inner => inner.kind

def stat : Node → InodeStat
  | .file inner => ⟨inner.data.length, inner.mode, inner.uid, inner.gid⟩
  | .dir inner => ⟨0, inner.mode, inner.uid, inner.gid⟩
  | .foreign inner => inner.stat

def setMode (mode : Nat) : Node → Node
  | .file inner => .file { inner with mode := mode }
  | .dir inner => .dir { inner with mode := mode }
  | .foreign inner => .foreign inner

def lookup (name : Text) : Node → Option InodeId
  | .file _ => none
  | .dir inner => inner.entries.lookup name
  | .foreign inner => inner.lookup name

/-- `read_at` into a buffer of `length` bytes: the bytes it fills. -/
def readAt (offset length : Nat) : Node → Checked (Except FsError (List UInt8))
  | .file inner =>
    if inner.data.length ≤ offset then .ok (.ok [])
    else do
      let toRead := min length (inner.data.length - offset)
      let stop ← add offset toRead
      let bytes ← range inner.data offset stop
      return .ok bytes
  | .dir _ => .ok (.error .notSupported)
  | .foreign inner => .ok (inner.readAt offset length)

/-- Extend the data of a file if it ends before `stop`. -/
def extendTo (limit stop : Nat) (data : List UInt8) : Checked (List UInt8) :=
  if stop > data.length then resize limit data stop 0 else .ok data

/-- `TmpfsFile::write_at`; `limit` is the largest vector there is. -/
def writeFile (limit offset : Nat) (buffer : List UInt8) (inner : TmpfsFile) :
    Checked TmpfsFile := do
  let stop ← add offset buffer.length
  let data ← extendTo limit stop inner.data
  let data ← copyRange data offset stop buffer
  return { inner with data := data }

/-- `write_at`: the count, and the node after it. -/
def writeAt (limit offset : Nat) (buffer : List UInt8) :
    Node → Checked (Except FsError Nat × Node)
  | .file inner => do
      let inner ← writeFile limit offset buffer inner
      return (.ok buffer.length, .file inner)
  | .dir inner => .ok (.error .notSupported, .dir inner)
  | .foreign inner => .ok (inner.writeAt offset buffer, .foreign inner)

def truncate (limit size : Nat) : Node → Checked (Except FsError Unit × Node)
  | .file inner => do
      let data ← resize limit inner.data size 0
      return (.ok (), .file { inner with data := data })
  | .dir inner => .ok (.error .notSupported, .dir inner)
  | .foreign inner => .ok (inner.truncate size, .foreign inner)

end Node

/-! ## The inodes of the kernel -/

/-- The inodes; those from `next` on are not yet in use. -/
structure Inodes where
  node : InodeId → Node
  next : InodeId

namespace Inodes

/-- Change the node of an inode. -/
def set (inodes : Inodes) (inode : InodeId) (node : Node) : Inodes :=
  { inodes with node := Function.update inodes.node inode node }

/-- A new inode. -/
def push (inodes : Inodes) (node : Node) : InodeId × Inodes :=
  (inodes.next, { node := Function.update inodes.node inodes.next node, next := inodes.next + 1 })

/-- A new child of a tmpfs directory, as `create` and `mkdir` make it. -/
def addChild (inodes : Inodes) (parent : InodeId) (inner : TmpfsDir) (name : Text)
    (child : Node) : Except FsError (InodeId × Inodes) :=
  if (inner.entries.lookup name).isSome then .error .alreadyExists
  else
    let entries := inner.entries ++ [(name, inodes.next)]
    .ok ((inodes.set parent (.dir { inner with entries := entries })).push child)

/-- `create`; `made` are the inodes that other drivers make. -/
def create (made : Nat → Foreign) (inodes : Inodes) (parent : InodeId) (name : Text) :
    Except FsError (InodeId × Inodes) :=
  match inodes.node parent with
  | .file _ => .error .notDirectory
  | .dir inner => inodes.addChild parent inner name (.file {})
  | .foreign inner => do
      let number ← inner.create name
      return inodes.push (.foreign (made number))

/-- `mkdir`, of which only the effect on the tmpfs is used. -/
def mkdir (inodes : Inodes) (parent : InodeId) (name : Text) : Inodes :=
  match inodes.node parent with
  | .dir inner =>
    match inodes.addChild parent inner name (.dir {}) with
    | .ok (_, inodes) => inodes
    | .error _ => inodes
  | _ => inodes

end Inodes
end Bazzulto.Vfs
