/-
  Vfs/Syscall.lean --- the descriptor and file calls.

  Embeds `sys_open`, `sys_creat`, `sys_read`, `sys_write`, `sys_seek`,
  `sys_close`, `sys_pipe`, `sys_dup`, `sys_dup2` (kernel/src/systemcalls/io.rs),
  `sys_dup3`, `sys_fcntl`, `sys_pread64`, `sys_pwrite64`
  (kernel/src/systemcalls/posix_abi.rs), `sys_truncate_fd` and `sys_mount`
  (kernel/src/systemcalls/vfs.rs).

  The buffer of a write is given by its address and its bytes, that of a read by
  its address and length; the pages behind a valid pointer are taken to be
  mapped.  Arithmetic is that of the default build, which stops on overflow.
  The crate that mounts a BAFS volume is not part of the sources: its answer is
  that of a driver.
-/
import Bazzulto.Fat32.Probe
import Bazzulto.Vfs.Descriptor
import Bazzulto.Vfs.Mount

set_option autoImplicit false

namespace Bazzulto.Vfs

open Foundation Permission FileDescriptorTable Checked

/-! ## State -/

/-- The answers of the drivers that the calls ask. -/
structure Drivers where
  procfsOpen : Text → Option (List UInt8)
  ptyAllocate : Option Nat
  ptyMasterInode : Nat → Foreign
  ptySlaveInode : Nat → Foreign
  madeInode : Nat → Foreign
  devInode : Nat → Foreign
  procfsRoot : Foreign
  ttyRead : Nat → List UInt8
  getDisk : Nat → Option Fat32.BlockDevice
  fat32RootInode : Fat32.BlockDevice → Nat → Foreign
  bafsMountPartition : Fat32.BlockDevice → Nat → Option Foreign

/-- The part of the kernel that all processes share; `limit` is the size of the
largest vector the allocator grants. -/
structure System where
  inodes : Inodes
  mounts : MountTable
  ramfs : List (Text × List UInt8)
  pipes : Pipes
  drivers : Drivers
  limit : Nat

/-- A read or a write that waits for its pipe. -/
inductive Waiting where
  | read (pipe : PipeId) (length : Nat)
  | write (pipe : PipeId) (remaining : List UInt8) (total : Nat)
  deriving DecidableEq, Repr

/-- The part of a process that the file calls use. -/
structure Caller where
  credentials : Credentials
  umask : Nat
  cwd : Option InodeId
  cwdPath : Text
  grantedPermissions : List PathPattern
  grantedActions : List ActionPermission
  table : FileDescriptorTable
  waiting : Option Waiting

/-- What a call answers: a value, the bytes of a read, or that it waits. -/
inductive Reply where
  | value (result : Int)
  | data (bytes : List UInt8)
  | waits
  deriving DecidableEq, Repr

/-- A call changes the shared part and its own process. -/
abbrev Outcome := Checked (Reply × System × Caller)

/-- A call that only answers. -/
def answer (result : Int) (system : System) (caller : Caller) : Outcome :=
  .ok (.value result, system, caller)

def System.setNode (system : System) (inode : InodeId) (node : Node) : System :=
  { system with inodes := system.inodes.set inode node }

def System.setPipe (system : System) (pipe : PipeId) (buffer : PipeBuffer) : System :=
  { system with pipes := system.pipes.set pipe buffer }

/-- Install a descriptor for the caller: the number, or -1. -/
def install (system : System) (caller : Caller) (descriptor : FileDescriptor) :
    Int × System × Caller :=
  let (fd, table, pipes) := caller.table.install system.pipes descriptor
  (fd, { system with pipes := pipes }, { caller with table := table })

/-! ## open and creat -/

def O_CREAT : BitVec 32 := 0x40
def O_EXCL : BitVec 32 := 0x80
def O_TRUNC : BitVec 32 := 0x200
def O_NONBLOCK : BitVec 32 := 0x800
def O_CLOEXEC : BitVec 32 := 0x80000

/-- `flags & flag != 0`. -/
def hasFlag (flags flag : BitVec 32) : Bool := flags &&& flag != 0

/-- The name that `sys_open` works with: a path that begins with `//` is left
unchanged. -/
def openName (caller : Caller) (raw : Text) : Text :=
  if ['/', '/'].isPrefixOf raw then raw else resolveToAbsolute caller.cwdPath raw

/-- The Binary Permission Model check of `sys_open`: the error, if it refuses. -/
def bpmRefusal (caller : Caller) (name : Text) : Option Int :=
  if ['/', '/'].isPrefixOf name then
    if isImpossibleNamespace name then some EPERM
    else if permissionAllows caller.grantedPermissions name then none
    else some EACCES
  else none

def accessNeeded (flags : BitVec 32) : Nat :=
  let accessMode := flags &&& 3
  (if accessMode = 0 ∨ accessMode = 2 then accessRead else 0) |||
    (if accessMode = 1 ∨ accessMode = 2 then accessWrite else 0)

/-- `text.parse::<usize>()`. -/
def parseUsize (text : Text) : Option Nat :=
  let digits := if ['+'].isPrefixOf text then text.drop 1 else text
  if digits.isEmpty || !digits.all Char.isDigit then none
  else
    let value := digits.foldl (fun value digit => value * 10 + (digit.toNat - 48)) 0
    if value < 2 ^ 64 then some value else none

/-- A call's way to a descriptor: an error, or the descriptor and the system. -/
abbrev Opening := Checked (Except Int (FileDescriptor × System))

section

variable (system : System) (caller : Caller)

/-- `sys_open` on an inode that exists. -/
def openExisting (inode : InodeId) (flags : BitVec 32) : Opening :=
  if !vfsCheckAccess (system.inodes.node inode).stat caller.credentials (accessNeeded flags) then
    .ok (.error EACCES)
  else if hasFlag flags O_EXCL && hasFlag flags O_CREAT then .ok (.error EEXIST)
  else if hasFlag flags O_TRUNC then do
    let (_, node) ← (system.inodes.node inode).truncate system.limit 0
    return .ok (.inoFile inode 0, system.setNode inode node)
  else .ok (.ok (.inoFile inode 0, system))

def effectiveMode (mode umask : Nat) : Nat :=
  0o100000 ||| ((mode &&& 0o777) &&& (0o777 ^^^ (umask &&& 0o777)))

/-- The `O_CREAT` branch of `sys_open`. -/
def openCreated (name : Text) (mode : Nat) : Opening :=
  match resolveParent system.inodes system.mounts name with
  | .error _ => .ok (.error ENOENT)
  | .ok (parent, fileName) =>
    match system.inodes.create system.drivers.madeInode parent fileName with
    | .error error => .ok (.error error.toErrno)
    | .ok (inode, inodes) =>
      let node := (inodes.node inode).setMode (effectiveMode mode caller.umask)
      .ok (.ok (.inoFile inode 0, { system with inodes := inodes.set inode node }))

/-- The dispatch of `sys_open`; the branches for absolute and for bare names do
the same. -/
def openDescriptor (name : Text) (flags : BitVec 32) (mode : Nat) : Opening :=
  if "//proc:".toList.isPrefixOf name then
    match system.drivers.procfsOpen name with
    | some snapshot => .ok (.ok (.procFile snapshot 0, system))
    | none => .ok (.error ENOENT)
  else if name = "/dev/ptmx".toList then
    match system.drivers.ptyAllocate with
    | none => .ok (.error EINVAL)
    | some index =>
      let (inode, inodes) := system.inodes.push (.foreign (system.drivers.ptyMasterInode index))
      .ok (.ok (.inoFile inode 0, { system with inodes := inodes }))
  else if "/dev/pts/".toList.isPrefixOf name then
    match parseUsize (name.drop "/dev/pts/".length) with
    | none => .ok (.error ENOENT)
    | some index =>
      if 16 ≤ index then .ok (.error ENOENT)
      else
        let (inode, inodes) :=
          system.inodes.push (.foreign (system.drivers.ptySlaveInode index))
        .ok (.ok (.inoFile inode 0, { system with inodes := inodes }))
  else
    match system.ramfs.lookup name with
    | some data => .ok (.ok (.ramFsFile data 0, system))
    | none =>
      match resolveInode system.inodes system.mounts name caller.cwd with
      | .ok inode => openExisting system caller inode flags
      | .error _ =>
        if hasFlag flags O_CREAT then openCreated system caller name mode
        else .ok (.error ENOENT)

/-- Set a flag if it is asked for. -/
def maskIf (asked : Bool) (mask : FdMask) (fd : Nat) : Checked FdMask :=
  if asked then maskSet mask fd else .ok mask

/-- The tail of `sys_open`. -/
def installOpened (descriptor : FileDescriptor) (flags : BitVec 32) : Outcome := do
  let (fd, system, caller) := install system caller descriptor
  if fd < 0 then answer EMFILE system caller
  else
    let table := caller.table
    let cloexec ← maskIf (hasFlag flags O_CLOEXEC) table.cloexecMask fd.toNat
    let nonblock ← maskIf (hasFlag flags O_NONBLOCK) table.nonblockMask fd.toNat
    answer fd system
      { caller with table := { table with cloexecMask := cloexec, nonblockMask := nonblock } }

def sysOpen (path : UserString) (flags : BitVec 32) (mode : Nat) : Outcome :=
  match pathArgument path with
  | none => answer EINVAL system caller
  | some raw =>
    let name := openName caller raw
    match bpmRefusal caller name with
    | some error => answer error system caller
    | none =>
      match openDescriptor system caller name flags mode with
      | .error fault => .error fault
      | .ok (.error error) => answer error system caller
      | .ok (.ok (descriptor, system)) => installOpened system caller descriptor flags

def sysCreat (path : UserString) : Outcome :=
  match pathArgument path with
  | none => answer EINVAL system caller
  | some raw =>
    let name := resolveToAbsolute caller.cwdPath raw
    let finish (system : System) (inode : InodeId) : Outcome :=
      let (fd, system, caller) := install system caller (.inoFile inode 0)
      answer (if fd < 0 then EMFILE else fd) system caller
    match resolveInode system.inodes system.mounts name none with
    | .ok inode => do
        let (_, node) ← (system.inodes.node inode).truncate system.limit 0
        finish (system.setNode inode node) inode
    | .error _ =>
      match resolveParent system.inodes system.mounts name with
      | .error error => answer error.toErrno system caller
      | .ok (parent, fileName) =>
        match system.inodes.create system.drivers.madeInode parent fileName with
        | .error error => answer error.toErrno system caller
        | .ok (inode, inodes) => finish { system with inodes := inodes } inode

end

/-! ## read and write -/

/-- Put a descriptor back after a call has moved its position. -/
def Caller.setDescriptor (caller : Caller) (fd : Nat) (descriptor : FileDescriptor) : Caller :=
  { caller with table := caller.table.put fd (some descriptor) }

section

variable (system : System) (caller : Caller)

/-- `pipe_read_blocking` for a caller, or a round of it after a wait. -/
def readPipe (pipe : PipeId) (length : Nat) : Outcome := do
  let (round, buffer) ← (PipeCall.read length).round (system.pipes.buffer pipe)
  let system := system.setPipe pipe buffer
  match round with
  | .waits => .ok (.waits, system, { caller with waiting := some (.read pipe length) })
  | .moves bytes _ => .ok (.data bytes, system, { caller with waiting := none })
  | .returns | .broken => .ok (.data [], system, { caller with waiting := none })

/-- `pipe_write_blocking` for a caller, or its rest after a wait. -/
def writePipe (pipe : PipeId) (remaining : List UInt8) (total : Nat) : Outcome := do
  let (round, rest, buffer) ← (system.pipes.buffer pipe).writeBlocking remaining
  let system := system.setPipe pipe buffer
  match round with
  | .waits =>
    .ok (.waits, system,
      { caller with
        waiting := some (.write pipe rest (total + (remaining.length - rest.length))) })
  | .broken => answer EPIPE system { caller with waiting := none }
  | .returns | .moves .. =>
    answer (total + remaining.length : Nat) system { caller with waiting := none }

/-- The read of a file whose bytes are a snapshot: the bytes, and the position
behind them. -/
def readSnapshot (data : List UInt8) (position length : Nat) : Checked (List UInt8 × Nat) := do
  let toRead := min length (data.length - position)
  let bytes ← range data position (position + toRead)
  return (bytes, position + toRead)

/-- `FileDescriptor::read`. -/
def readDescriptor (fd : Nat) (length : Nat) :
    FileDescriptor → Outcome
  | .ramFsFile data position => do
      let (bytes, position) ← readSnapshot data position length
      .ok (.data bytes, system, caller.setDescriptor fd (.ramFsFile data position))
  | .pipe pipe side =>
    if side ≠ .readEnd then answer EBADF system caller
    else readPipe system caller pipe length
  | .tty => .ok (.data (system.drivers.ttyRead length), system, caller)
  | .procFile data position => do
      let (bytes, position) ← readSnapshot data position length
      .ok (.data bytes, system, caller.setDescriptor fd (.procFile data position))
  | .inoFile inode position => do
      match ← (system.inodes.node inode).readAt position length with
      | .error error => answer error.toErrno system caller
      | .ok bytes =>
        let position ← add position bytes.length
        .ok (.data bytes, system, caller.setDescriptor fd (.inoFile inode position))

/-- The read of a pipe with `O_NONBLOCK`. -/
def readNonblock (pipe : PipeId) (side : PipeEnd) (length : Nat) : Outcome := do
  let (result, buffer) ← (system.pipes.buffer pipe).readNonblock side length
  match result with
  | .error error => answer error system caller
  | .ok bytes => .ok (.data bytes, system.setPipe pipe buffer, caller)

def sysRead (fd : Int) (pointer length : Nat) : Outcome :=
  if fd < 0 then answer EBADF system caller
  else if !validateUserPointer pointer length then answer EFAULT system caller
  else do
    let isNonblock ← maskTest caller.table.nonblockMask fd.toNat
    match caller.table.get fd.toNat with
    | none => answer EBADF system caller
    | some (.pipe pipe side) =>
      if isNonblock then readNonblock system caller pipe side length
      else readDescriptor system caller fd.toNat length (.pipe pipe side)
    | some descriptor => readDescriptor system caller fd.toNat length descriptor

/-- `FileDescriptor::write`; a broken pipe is the `EPIPE` of `sys_write`. -/
def writeDescriptor (fd : Nat) (source : List UInt8) :
    FileDescriptor → Outcome
  | .ramFsFile _ _ => answer EBADF system caller
  | .pipe pipe side =>
    if side ≠ .writeEnd then answer EBADF system caller
    else writePipe system caller pipe source 0
  | .tty => answer source.length system caller
  | .procFile _ _ => answer EBADF system caller
  | .inoFile inode position => do
      let (result, node) ← (system.inodes.node inode).writeAt system.limit position source
      let system := system.setNode inode node
      match result with
      | .error error => answer error.toErrno system caller
      | .ok count =>
        let position ← add position count
        answer count system (caller.setDescriptor fd (.inoFile inode position))

section

variable (fd : Int)

def sysWrite (pointer : Nat) (source : List UInt8) : Outcome :=
  if fd < 0 then answer EBADF system caller
  else if !validateUserPointer pointer source.length then answer EFAULT system caller
  else
    match caller.table.get fd.toNat with
    | none => answer EBADF system caller
    | some descriptor => writeDescriptor system caller fd.toNat source descriptor

def sysPread64 (pointer count offset : Nat) : Outcome :=
  if fd < 0 then answer EBADF system caller
  else if !validateUserPointer pointer count then answer EFAULT system caller
  else
    match caller.table.get fd.toNat with
    | some (.inoFile inode _) => do
        match ← (system.inodes.node inode).readAt offset count with
        | .error _ => answer EINVAL system caller
        | .ok bytes => .ok (.data bytes, system, caller)
    | some (.ramFsFile data _) =>
      if data.length ≤ offset then answer 0 system caller
      else .ok (.data ((data.drop offset).take count), system, caller)
    | some _ => answer ESPIPE system caller
    | none => answer EBADF system caller

def sysPwrite64 (pointer : Nat) (source : List UInt8) (offset : Nat) : Outcome :=
  if fd < 0 then answer EBADF system caller
  else if !validateUserPointer pointer source.length then answer EFAULT system caller
  else
    match caller.table.get fd.toNat with
    | some (.inoFile inode _) => do
        let (result, node) ← (system.inodes.node inode).writeAt system.limit offset source
        let system := system.setNode inode node
        match result with
        | .error _ => answer EINVAL system caller
        | .ok count => answer count system caller
    | some _ => answer ESPIPE system caller
    | none => answer EBADF system caller

def sysTruncateFd (newSize : Nat) : Outcome :=
  if fd < 0 then answer EBADF system caller
  else
    match caller.table.get fd.toNat with
    | some (.inoFile inode _) => do
        let (result, node) ← (system.inodes.node inode).truncate system.limit newSize
        let system := system.setNode inode node
        match result with
        | .error error => answer error.toErrno system caller
        | .ok _ => answer 0 system caller
    | _ => answer EBADF system caller

/-! ## Positions and descriptors -/

/-- `value as i64`. -/
def asI64 (value : Nat) : Int := (BitVec.ofNat 64 value).toInt

/-- The new position that `seek` computes: `none` for an unknown `whence`. -/
def seekTarget (position size : Nat) (offset : BitVec 64) (whence : Int) : Checked (Option Int) :=
  if whence = 0 then .ok (some offset.toInt)
  else if whence = 1 then (addSigned (asI64 position) offset.toInt).map some
  else if whence = 2 then (addSigned (asI64 size) offset.toInt).map some
  else .ok none

def sysSeek (offset : BitVec 64) (whence : Int) : Outcome :=
  if fd < 0 then answer EBADF system caller
  else
    match caller.table.get fd.toNat with
    | none => answer EBADF system caller
    | some (.ramFsFile data position) => do
        match ← seekTarget position data.length offset whence with
        | none => answer EINVAL system caller
        | some target =>
          if target < 0 ∨ asI64 data.length < target then answer EINVAL system caller
          else
            answer target system
              (caller.setDescriptor fd.toNat (.ramFsFile data target.toNat))
    | some (.inoFile inode position) => do
        match ← seekTarget position (system.inodes.node inode).stat.size offset whence with
        | none => answer EINVAL system caller
        | some target =>
          if target < 0 then answer EINVAL system caller
          else answer target system (caller.setDescriptor fd.toNat (.inoFile inode target.toNat))
    | some _ => answer ESPIPE system caller

/-- Give the caller a new table and the system the pipes that go with it. -/
def withTable (table : FileDescriptorTable) (pipes : Pipes) : System × Caller :=
  ({ system with pipes := pipes }, { caller with table := table })

def sysClose : Outcome :=
  if fd < 0 then answer EBADF system caller
  else do
    match ← caller.table.closeFlagged system.pipes fd.toNat with
    | none => answer EBADF system caller
    | some (table, pipes) =>
      let (system, caller) := withTable system caller table pipes
      answer 0 system caller

end

/-- `sys_pipe` with a valid pointer: the two descriptors are written behind it. -/
def sysPipe (pointer : Nat) : Outcome :=
  if pointer = 0 then answer EINVAL system caller
  else if !validateUserPointer pointer 8 then answer EFAULT system caller
  else
    let (result, table, pipes) := caller.table.pipe system.pipes
    let (system, caller) := withTable system caller table pipes
    answer result system caller

def sysDup (sourceFd : Int) : Outcome :=
  if sourceFd < 0 then answer EBADF system caller
  else
    let (newFd, table, pipes) := caller.table.dup system.pipes sourceFd.toNat
    let (system, caller) := withTable system caller table pipes
    answer (if newFd < 0 then EBADF else newFd) system caller

def sysDup2 (sourceFd destinationFd : Int) : Outcome :=
  if sourceFd < 0 ∨ destinationFd < 0 then answer EBADF system caller
  else do
    let (result, table, pipes) ←
      caller.table.dup2 system.pipes sourceFd.toNat destinationFd.toNat
    let (system, caller) := withTable system caller table pipes
    answer (if result < 0 then EBADF else result) system caller

end

/-- Set the `FD_CLOEXEC` flag of a descriptor. -/
def setCloexec (caller : Caller) (fd : Nat) : Checked Caller := do
  let mask ← maskSet caller.table.cloexecMask fd
  return { caller with table := { caller.table with cloexecMask := mask } }

section

variable (system : System) (caller : Caller)

def sysDup3 (oldFd newFd : Int) (flags : BitVec 32) :
    Outcome := do
  match ← sysDup2 system caller oldFd newFd with
  | (.value result, system, caller) =>
    if result < 0 then answer result system caller
    else if hasFlag flags O_CLOEXEC then
      let caller ← setCloexec caller newFd.toNat
      answer result system caller
    else answer result system caller
  | other => .ok other

/-- The commands of `sys_fcntl`: the descriptor is used as a mask index without
being looked up, except to duplicate it. -/
def sysFcntl (fd : Int) (cmd : Int) (arg : BitVec 64) : Outcome :=
  let table := caller.table
  let bit := arg.setWidth 32
  if fd < 0 then answer EBADF system caller
  else if cmd = 1 then do
    let cloexec ← maskTest table.cloexecMask fd.toNat
    answer (if cloexec then 1 else 0) system caller
  else if cmd = 2 then do
    let mask ← maskPut (hasFlag bit 1) table.cloexecMask fd.toNat
    answer 0 system { caller with table := { table with cloexecMask := mask } }
  else if cmd = 3 then do
    let nonblock ← maskTest table.nonblockMask fd.toNat
    answer (if nonblock then O_NONBLOCK.toInt else 0) system caller
  else if cmd = 4 then do
    let mask ← maskPut (hasFlag bit O_NONBLOCK) table.nonblockMask fd.toNat
    answer 0 system { caller with table := { table with nonblockMask := mask } }
  else if cmd = 0 ∨ cmd = 1030 then do
    let (newFd, table, pipes) := table.dupAtOrAbove system.pipes fd.toNat arg.toNat
    let (system, caller) := withTable system caller table pipes
    if newFd < 0 then answer EBADF system caller
    else if cmd = 1030 then
      let caller ← setCloexec caller newFd.toNat
      answer newFd system caller
    else answer newFd system caller
  else answer EINVAL system caller

/-! ## mount -/

/-- Copy a user string into a buffer of `size` bytes and use the part copied. -/
def copyToBuffer (size : Nat) (bytes : List UInt8) : Checked (List UInt8) := do
  let buffer ← copyRange (List.replicate size 0) 0 bytes.length bytes
  range buffer 0 bytes.length

/-- `text.strip_prefix(start)`. -/
def stripStart (start text : Text) : Option Text :=
  if start.isPrefixOf text then some (text.drop start.length) else none

/-- The partition number after the disk letter, from 1. -/
def partitionNumber (afterLetter : Text) : Option Nat :=
  match stripStart [':'] afterLetter with
  | none => some 1
  | some digits =>
    match parseUsize (trimEndSlashes digits) with
    | some number => if 1 ≤ number then some number else none
    | none => none

/-- The source `//dev:disk{x}:{y}/`: the disk and the partition, from 0. -/
def parseMountSource (source : Text) : Option (Nat × Nat) :=
  match stripStart "//dev:disk".toList source with
  | some (letter :: afterLetter) =>
    if letter.isLower then
      (partitionNumber afterLetter).map fun number => (letter.toNat - 'a'.toNat, number - 1)
    else none
  | _ => none

/-- `posix_target`: `none` if the converted path does not fit its buffer. -/
def posixTarget (target : Text) : Option Text :=
  if ['/', '/'].isPrefixOf target then
    let inner := target.drop 1
    if 256 < utf8Length inner then none
    else
      let converted := inner.map fun character => if character = ':' then '/' else character
      let trimmed := trimEndSlashes converted
      some (if trimmed.isEmpty then converted.take 1 else trimmed)
  else some target

def eqIgnoreAsciiCase (first second : Text) : Bool :=
  first.map Char.toLower = second.map Char.toLower

/-- The probe of the requested file system: the error, or the root and the type. -/
def probePartition (device : Fat32.BlockDevice) (partition : Fat32.Partition) (fstype : Text) :
    Checked (Except Int (Foreign × Text)) :=
  if eqIgnoreAsciiCase fstype "fat32".toList then
    if !partition.isFat32Candidate then .ok (.error EINVAL)
    else do
      -- the volume is ready, so that it has a root
      if ← device.fat32InitPartition partition.startLba then
        .ok (.ok (system.drivers.fat32RootInode device partition.startLba, "fat32".toList))
      else .ok (.error ENODEV)
  else if eqIgnoreAsciiCase fstype "bafs".toList then
    if !device.bafsProbe partition.startLba then .ok (.error ENODEV)
    else
      match system.drivers.bafsMountPartition device partition.startLba with
      | none => .ok (.error ENODEV)
      | some root => .ok (.ok (root, "bafs".toList))
  else .ok (.error EINVAL)

/-- `sys_mount` from the partition on. -/
def mountPartition (source target fstype : Text) (device : Fat32.BlockDevice)
    (partition : Fat32.Partition) : Outcome :=
  match posixTarget target with
  | none => answer EINVAL system caller
  | some path => do
    -- the mount point is made if it is missing, whatever follows
    let inodes := match resolveParent system.inodes system.mounts path with
      | .ok (parent, name) => system.inodes.mkdir parent name
      | .error _ => system.inodes
    let system := { system with inodes := inodes }
    match ← probePartition system device partition fstype with
    | .error error => answer error system caller
    | .ok (root, kind) =>
      let (inode, inodes) := system.inodes.push (.foreign root)
      let entry : MountEntry := ⟨path, inode, source, kind⟩
      answer 0 { system with inodes := inodes, mounts := system.mounts.mount entry } caller

/-- `sys_mount` after its strings have been copied and decoded. -/
def mountDecoded (source target fstype : Text) : Outcome :=
  match parseMountSource source with
  | none => answer EINVAL system caller
  | some (index, part) =>
    match system.drivers.getDisk index with
    | none => answer ENODEV system caller
    | some device => do
      let partitions ← device.partitions
      match partitions[part]? with
      | none => answer ENODEV system caller
      | some partition => mountPartition system caller source target fstype device partition

def sysMount (source target fstype : UserString) : Outcome :=
  if !caller.grantedActions.contains .mountFilesystem then answer EPERM system caller
  else
    match copyUserCstr source with
    | none => answer EINVAL system caller
    | some sourceBytes => do
        let sourceBuf ← copyToBuffer 257 sourceBytes
        match copyUserCstr target with
        | none => answer EINVAL system caller
        | some targetBytes =>
          let targetBuf ← copyToBuffer 257 targetBytes
          match copyUserCstr fstype with
          | none => answer EINVAL system caller
          | some fstypeBytes =>
            let fstypeBuf ← copyToBuffer 17 (fstypeBytes.take 16)
            if sourceBuf.length = 0 ∨ 256 < sourceBuf.length then answer EINVAL system caller
            else if targetBuf.length = 0 ∨ 256 < targetBuf.length then
              answer EINVAL system caller
            else if fstypeBuf.length = 0 then answer EINVAL system caller
            else
              match fromUtf8 sourceBuf, fromUtf8 targetBuf, fromUtf8 fstypeBuf with
              | some source, some target, some fstype =>
                mountDecoded system caller source target fstype
              | _, _, _ => answer EINVAL system caller

/-! ## Calls -/

/-- The modelled calls with their arguments. -/
inductive Call where
  | open (path : UserString) (flags : BitVec 32) (mode : Nat)
  | creat (path : UserString)
  | read (fd : Int) (pointer length : Nat)
  | write (fd : Int) (pointer : Nat) (source : List UInt8)
  | pread64 (fd : Int) (pointer count : Nat) (offset : BitVec 64)
  | pwrite64 (fd : Int) (pointer : Nat) (source : List UInt8) (offset : BitVec 64)
  | ftruncate (fd : Int) (size : BitVec 64)
  | seek (fd : Int) (offset : BitVec 64) (whence : Int)
  | close (fd : Int)
  | pipe (pointer : Nat)
  | dup (fd : Int)
  | dup2 (sourceFd destinationFd : Int)
  | dup3 (oldFd newFd : Int) (flags : BitVec 32)
  | fcntl (fd cmd : Int) (arg : BitVec 64)
  | mount (source target fstype : UserString)
  deriving DecidableEq, Repr

/-- The part of `dispatch` that serves these calls. -/
def dispatch : Call → Outcome
  | .open path flags mode => sysOpen system caller path flags mode
  | .creat path => sysCreat system caller path
  | .read fd pointer length => sysRead system caller fd pointer length
  | .write fd pointer source => sysWrite system caller fd pointer source
  | .pread64 fd pointer count offset => sysPread64 system caller fd pointer count offset.toNat
  | .pwrite64 fd pointer source offset =>
    sysPwrite64 system caller fd pointer source offset.toNat
  | .ftruncate fd size => sysTruncateFd system caller fd size.toNat
  | .seek fd offset whence => sysSeek system caller fd offset whence
  | .close fd => sysClose system caller fd
  | .pipe pointer => sysPipe system caller pointer
  | .dup fd => sysDup system caller fd
  | .dup2 sourceFd destinationFd => sysDup2 system caller sourceFd destinationFd
  | .dup3 oldFd newFd flags => sysDup3 system caller oldFd newFd flags
  | .fcntl fd cmd arg => sysFcntl system caller fd cmd arg
  | .mount source target fstype => sysMount system caller source target fstype

/-! ## Steps -/

/-- What may happen next to a process and the drivers it talks to. -/
inductive Event where
  | call (call : Call)
  | resume
  | drivers (drivers : Drivers)
  | device (inode : InodeId) (inner : Foreign)

/-- The rest of a call that waits. -/
def resumeWaiting : Waiting → Outcome
  | .read pipe length => readPipe system caller pipe length
  | .write pipe remaining total => writePipe system caller pipe remaining total

end

/-- What an outcome leaves behind; a fault stops the kernel. -/
def settle : Outcome → Option (System × Caller)
  | .ok (_, system, caller) => some (system, caller)
  | .error _ => none

/-- A process makes a call or goes on with one that waits, or a driver changes its
answers. -/
def step (state : System × Caller) : Event → Option (System × Caller)
  | .call call =>
    match state.2.waiting with
    | none => settle (dispatch state.1 state.2 call)
    | some _ => none
  | .resume => state.2.waiting.bind fun waiting =>
    settle (resumeWaiting state.1 state.2 waiting)
  | .drivers drivers => some ({ state.1 with drivers := drivers }, state.2)
  | .device inode inner =>
    match state.1.inodes.node inode with
    | .foreign _ => some (state.1.setNode inode (.foreign inner), state.2)
    | _ => none

/-! ## Boot -/

/-- The inodes that `vfs_init` makes: the root and its directories, `/dev` with
`null`, `zero`, `urandom` and `tty`, and the root of `/proc`. -/
def bootNodes (drivers : Drivers) : List Node :=
  [.dir { entries := [("tmp".toList, 1), ("mnt".toList, 2), ("bin".toList, 3),
      ("etc".toList, 4), ("dev".toList, 5)] },
   .dir {}, .dir {}, .dir {}, .dir {},
   .dir { entries := [("null".toList, 6), ("zero".toList, 7), ("urandom".toList, 8),
      ("tty".toList, 9)] },
   .foreign (drivers.devInode 0), .foreign (drivers.devInode 1),
   .foreign (drivers.devInode 2), .foreign (drivers.devInode 3),
   .foreign drivers.procfsRoot]

def vfsInit (drivers : Drivers) (ramfs : List (Text × List UInt8)) (limit : Nat) : System where
  inodes :=
    { node := fun inode => (bootNodes drivers).getD inode (.dir {})
      next := (bootNodes drivers).length }
  mounts := (MountTable.mount [] ⟨['/'], 0, [], "tmpfs".toList⟩).mount
    ⟨"/proc".toList, 10, [], "procfs".toList⟩
  ramfs := ramfs
  pipes := ⟨fun _ => {}, 0⟩
  drivers := drivers
  limit := limit

/-- The file part of `Process::new`. -/
def newCaller (permissions : List PathPattern) (actions : List ActionPermission) : Caller where
  credentials := ⟨1000, 1000, []⟩
  umask := 0o022
  cwd := none
  cwdPath := ['/']
  grantedPermissions := permissions
  grantedActions := actions
  table := .newWithTty
  waiting := none

/-- An inode that supports nothing. -/
def Foreign.inert (kind : InodeType) : Foreign where
  kind := kind
  stat := ⟨0, 0, 0, 0⟩
  lookup _ := none
  readAt _ _ := .error .notSupported
  writeAt _ _ := .error .notSupported
  truncate _ := .error .notSupported
  create _ := .error .notSupported

/-- The drivers of a machine without terminals and disks. -/
def bareDrivers : Drivers where
  procfsOpen _ := none
  ptyAllocate := none
  ptyMasterInode _ := .inert .charDevice
  ptySlaveInode _ := .inert .charDevice
  madeInode _ := .inert .regularFile
  devInode _ := .inert .charDevice
  procfsRoot := .inert .directory
  ttyRead _ := []
  getDisk _ := none
  fat32RootInode _ _ := .inert .directory
  bafsMountPartition _ _ := none

end Bazzulto.Vfs
