/-
  Vfs/Descriptor.lean --- pipes, descriptors and the descriptor table.

  Embeds `PipeBuffer` with the rounds of the two blocking loops (kernel/src/fs/pipe.rs) and
  `FileDescriptor` and `FileDescriptorTable` (kernel/src/fs/vfs.rs).  Dropping a
  pipe handle lowers the count of its end.  The waiting processes that a pipe
  wakes belong to the scheduler and are left out: a loop that has to wait says so.
-/
import Bazzulto.Foundation.Run
import Bazzulto.Vfs.Inode

set_option autoImplicit false

namespace Bazzulto.Vfs

open Foundation

/-! ## Pipes -/

def pipeBufferCapacity : Nat := 64 * 1024

structure PipeBuffer where
  data : List UInt8 := List.replicate pipeBufferCapacity 0
  readHead : Nat := 0
  length : Nat := 0
  writeEndCount : Nat := 1
  readEndCount : Nat := 1

inductive PipeEnd where
  | readEnd
  | writeEnd
  deriving DecidableEq, Repr

namespace PipeBuffer

/-- `write_bytes`: the count. -/
def writeBytes (buffer : PipeBuffer) (source : List UInt8) : Checked (Nat × PipeBuffer) := do
  let space ← Checked.sub pipeBufferCapacity buffer.length
  let toWrite := min source.length space
  if toWrite = 0 then return (0, buffer)
  else
    let writeHead := (buffer.readHead + buffer.length) % pipeBufferCapacity
    let room ← Checked.sub pipeBufferCapacity writeHead
    let firstChunk := min toWrite room
    let chunk ← Checked.range source 0 firstChunk
    let data ← Checked.copyRange buffer.data writeHead (writeHead + firstChunk) chunk
    if firstChunk < toWrite then
      let chunk ← Checked.range source firstChunk toWrite
      let data ← Checked.copyRange data 0 (toWrite - firstChunk) chunk
      return (toWrite, { buffer with data := data, length := buffer.length + toWrite })
    else return (toWrite, { buffer with data := data, length := buffer.length + toWrite })

/-- `read_bytes` into a buffer of `length` bytes: the bytes it fills. -/
def readBytes (buffer : PipeBuffer) (length : Nat) : Checked (List UInt8 × PipeBuffer) := do
  let toRead := min length buffer.length
  if toRead = 0 then return ([], buffer)
  else
    let room ← Checked.sub pipeBufferCapacity buffer.readHead
    let firstChunk := min toRead room
    let first ← Checked.range buffer.data buffer.readHead (buffer.readHead + firstChunk)
    -- the second chunk is empty unless the data wraps around
    let second ← Checked.range buffer.data 0 (toRead - firstChunk)
    return (first ++ second,
      { buffer with
        readHead := (buffer.readHead + toRead) % pipeBufferCapacity
        length := buffer.length - toRead })

end PipeBuffer

/-- The read of a pipe by `sys_read` under `O_NONBLOCK`: the error, or the bytes. -/
def PipeBuffer.readNonblock (buffer : PipeBuffer) (side : PipeEnd) (length : Nat) :
    Checked (Except Int (List UInt8) × PipeBuffer) :=
  if side ≠ .readEnd then return (.error EAGAIN, buffer)
  else if buffer.length = 0 then
    return (if buffer.writeEndCount = 0 then .ok [] else .error EAGAIN, buffer)
  else do
    let (bytes, buffer) ← buffer.readBytes length
    return (.ok bytes, buffer)

/-- A call inside a loop: `pipe_read_blocking` with the length of its destination, or
`pipe_write_blocking` with the bytes that are left. -/
inductive PipeCall where
  | read (length : Nat)
  | write (remaining : List UInt8)

def PipeCall.side : PipeCall → PipeEnd
  | .read _ => .readEnd
  | .write _ => .writeEnd

/-- What a round of a loop comes to: the call returns, or finds the other end closed to a
write, or it moves bytes and returns or goes on, or it has to wait. -/
inductive PipeRound where
  | returns
  | broken
  | moves (bytes : List UInt8) (rest : Option PipeCall)
  | waits

/-- One round of `pipe_read_blocking` or `pipe_write_blocking`.  The second test of
`is_write_closed` sees what the first one saw. -/
def PipeCall.round (buffer : PipeBuffer) : PipeCall → Checked (PipeRound × PipeBuffer)
  | .read length =>
    if 0 < buffer.length then do
      let (bytes, buffer) ← buffer.readBytes length
      return (.moves bytes none, buffer)
    else return (if buffer.writeEndCount = 0 then .returns else .waits, buffer)
  | .write remaining =>
    if remaining = [] then return (.returns, buffer)
    else if buffer.readEndCount = 0 then return (.broken, buffer)
    else do
      let (written, buffer) ← buffer.writeBytes remaining
      return (if 0 < written then
        .moves (remaining.take written) (some (.write (remaining.drop written))) else .waits, buffer)

/-- A writer that goes on has fewer bytes left. -/
theorem PipeCall.length_rest {buffer next : PipeBuffer} {remaining bytes rest : List UInt8}
    (h : (write remaining).round buffer = .ok (.moves bytes (some (.write rest)), next)) :
    rest.length < remaining.length := by
  dsimp only [round] at h
  split at h
  · cases h
  next hremaining =>
    split at h
    · cases h
    obtain ⟨_, -, h⟩ := exists_of_bind_eq_ok h
    dsimp only [pure, Except.pure] at h
    split at h
    · cases h
      have hpos := List.length_pos_iff.mpr hremaining
      rw [List.length_drop]
      omega
    · cases h

/-- `pipe_write_blocking` up to its end or its next wait, with the bytes that are left. -/
def PipeBuffer.writeBlocking (buffer : PipeBuffer) (remaining : List UInt8) :
    Checked (PipeRound × List UInt8 × PipeBuffer) :=
  match _h : (PipeCall.write remaining).round buffer with
  | .error fault => .error fault
  | .ok (.moves _ (some (.write rest)), next) => writeBlocking next rest
  | .ok (round, next) => .ok (round, remaining, next)
termination_by remaining.length
decreasing_by exact PipeCall.length_rest _h

abbrev PipeId := Nat

/-- The pipes; those from `next` on are not yet in use. -/
structure Pipes where
  buffer : PipeId → PipeBuffer
  next : PipeId

def Pipes.set (pipes : Pipes) (pipe : PipeId) (buffer : PipeBuffer) : Pipes :=
  { pipes with buffer := Function.update pipes.buffer pipe buffer }

/-- `pipe_create`. -/
def Pipes.push (pipes : Pipes) : PipeId × Pipes :=
  (pipes.next, { buffer := Function.update pipes.buffer pipes.next {}, next := pipes.next + 1 })

/-! ## Descriptors -/

inductive FileDescriptor where
  | ramFsFile (data : List UInt8) (position : Nat)
  | pipe (pipe : PipeId) (side : PipeEnd)
  | tty
  | procFile (data : List UInt8) (position : Nat)
  | inoFile (inode : InodeId) (position : Nat)
  deriving DecidableEq, Repr

/-- `clone_read_end` and `clone_write_end`. -/
def PipeBuffer.retain (buffer : PipeBuffer) : PipeEnd → PipeBuffer
  | .readEnd => { buffer with readEndCount := buffer.readEndCount + 1 }
  | .writeEnd => { buffer with writeEndCount := buffer.writeEndCount + 1 }

/-- `Drop for PipeHandle`. -/
def PipeBuffer.release (buffer : PipeBuffer) : PipeEnd → PipeBuffer
  | .readEnd => { buffer with readEndCount := buffer.readEndCount - 1 }
  | .writeEnd => { buffer with writeEndCount := buffer.writeEndCount - 1 }

/-- `FileDescriptor::dup`: the copy is equal, and a pipe counts one more end. -/
def Pipes.retain (pipes : Pipes) : FileDescriptor → Pipes
  | .pipe pipe side => pipes.set pipe ((pipes.buffer pipe).retain side)
  | _ => pipes

/-- Drop a descriptor. -/
def Pipes.release (pipes : Pipes) : FileDescriptor → Pipes
  | .pipe pipe side => pipes.set pipe ((pipes.buffer pipe).release side)
  | _ => pipes

/-! ## The table -/

def maxOpenFileDescriptors : Nat := 1024

/-- The 1024 flags of `cloexec_mask` or `nonblock_mask`. -/
abbrev FdMask := Vector (BitVec 64) 16

structure FileDescriptorTable where
  slots : List (Option FileDescriptor)
  cloexecMask : FdMask
  nonblockMask : FdMask
  bounded : slots.length ≤ maxOpenFileDescriptors

namespace FileDescriptorTable

def newWithTty : FileDescriptorTable where
  slots := [some .tty, some .tty, some .tty]
  cloexecMask := Vector.replicate 16 0
  nonblockMask := Vector.replicate 16 0
  bounded := by decide

def maskTest (mask : FdMask) (fd : Nat) : Checked Bool :=
  if h : fd / 64 < 16 then .ok (mask[fd / 64] &&& (1#64 <<< (fd % 64)) != 0)
  else .error .index

def maskSet (mask : FdMask) (fd : Nat) : Checked FdMask :=
  if h : fd / 64 < 16 then
    .ok (mask.set (fd / 64) (mask[fd / 64] ||| (1#64 <<< (fd % 64))))
  else .error .index

def maskClear (mask : FdMask) (fd : Nat) : Checked FdMask :=
  if h : fd / 64 < 16 then
    .ok (mask.set (fd / 64) (mask[fd / 64] &&& ~~~(1#64 <<< (fd % 64))))
  else .error .index

/-- Set or clear a flag. -/
def maskPut (on : Bool) (mask : FdMask) (fd : Nat) : Checked FdMask :=
  if on then maskSet mask fd else maskClear mask fd

section

variable (table : FileDescriptorTable)

def get (fd : Nat) : Option FileDescriptor :=
  (table.slots[fd]?).join

/-- Put a descriptor, or nothing, in a slot the table has. -/
def put (fd : Nat) (slot : Option FileDescriptor) : FileDescriptorTable :=
  { table with slots := table.slots.set fd slot, bounded := by simpa using table.bounded }

/-- Append slots until there are `count`. -/
def growTo (count : Nat) (h : count ≤ maxOpenFileDescriptors) : FileDescriptorTable :=
  { table with
    slots := table.slots ++ List.replicate (count - table.slots.length) none
    bounded := by
      have := table.bounded
      rw [List.length_append, List.length_replicate]
      omega }

section

variable (pipes : Pipes)

/-- `install`: the descriptor number, or -1 and the descriptor is dropped. -/
def install (descriptor : FileDescriptor) : Int × FileDescriptorTable × Pipes :=
  match table.slots.findIdx? Option.isNone with
  | some fd => (fd, table.put fd (some descriptor), pipes)
  | none =>
    if h : table.slots.length < maxOpenFileDescriptors then
      (table.slots.length,
        (table.growTo (table.slots.length + 1) h).put table.slots.length (some descriptor),
        pipes)
    else (-1, table, pipes.release descriptor)

/-- `install_at`: what was in the slot is dropped. -/
def installAt (fd : Nat) (descriptor : FileDescriptor) : Int × FileDescriptorTable × Pipes :=
  if h : fd < maxOpenFileDescriptors then
    (fd, (table.growTo (fd + 1) h).put fd (some descriptor),
      ((table.get fd).map pipes.release).getD pipes)
  else (-1, table, pipes.release descriptor)

/-- `close`: `none` if the descriptor is not open. -/
def close (fd : Nat) : Option (FileDescriptorTable × Pipes) :=
  (table.get fd).map fun descriptor => (table.put fd none, pipes.release descriptor)

/-- `sys_close` on the table: the flags are cleared too. -/
def closeFlagged (fd : Nat) : Checked (Option (FileDescriptorTable × Pipes)) :=
  match table.close pipes fd with
  | none => .ok none
  | some (table, pipes) => do
    let cloexec ← maskClear table.cloexecMask fd
    let nonblock ← maskClear table.nonblockMask fd
    return some ({ table with cloexecMask := cloexec, nonblockMask := nonblock }, pipes)

/-- `sys_pipe` on the table: the result of the call. -/
def pipe : Int × FileDescriptorTable × Pipes :=
  let (pipe, pipes) := pipes.push
  let (readFd, table, pipes) := table.install pipes (.pipe pipe .readEnd)
  if readFd < 0 then (EMFILE, table, pipes.release (.pipe pipe .writeEnd))
  else
    let (writeFd, table, pipes) := table.install pipes (.pipe pipe .writeEnd)
    if writeFd < 0 then (EMFILE, (table.close pipes readFd.toNat).getD (table, pipes))
    else (0, table, pipes)

def dup (sourceFd : Nat) : Int × FileDescriptorTable × Pipes :=
  match table.get sourceFd with
  | none => (-9, table, pipes)
  | some descriptor => table.install (pipes.retain descriptor) descriptor

def dup2 (sourceFd destinationFd : Nat) : Checked (Int × FileDescriptorTable × Pipes) :=
  match table.get sourceFd with
  | none => .ok (-9, table, pipes)
  | some descriptor =>
    if sourceFd = destinationFd then .ok (destinationFd, table, pipes)
    else do
      let (result, table, pipes) :=
        table.installAt (pipes.retain descriptor) destinationFd descriptor
      if 0 ≤ result then
        let mask ← maskClear table.cloexecMask destinationFd
        return (result, { table with cloexecMask := mask }, pipes)
      else return (result, table, pipes)

/-- `dup_at_or_above`: a free slot from `minFd` on, or the first one after the
table. -/
def dupAtOrAbove (sourceFd minFd : Nat) : Int × FileDescriptorTable × Pipes :=
  match table.get sourceFd with
  | none => (-9, table, pipes)
  | some descriptor =>
    let slot := match (table.slots.drop minFd).findIdx? Option.isNone with
      | some index => minFd + index
      | none => table.slots.length
    table.installAt (pipes.retain descriptor) slot descriptor

/-- `clone_for_fork`: the slots and masks are copied, and every descriptor is
duplicated. -/
def cloneForFork : FileDescriptorTable × Pipes :=
  (table, table.slots.foldl (fun pipes slot => (slot.map pipes.retain).getD pipes) pipes)

end

/-! ## What is in a table -/

theorem get_put (fd other : Nat) (slot : Option FileDescriptor) :
    (table.put fd slot).get other =
      if fd = other ∧ fd < table.slots.length then slot else table.get other := by
  unfold get put
  obtain rfl | heq := eq_or_ne fd other
  · by_cases hlt : fd < table.slots.length <;> simp [hlt]
  · simp [heq]

theorem get_growTo {count : Nat} (hcount : count ≤ maxOpenFileDescriptors) (fd : Nat) :
    (table.growTo count hcount).get fd = table.get fd := by
  unfold get growTo
  by_cases hlt : fd < table.slots.length
  · rw [List.getElem?_append_left hlt]
  · rw [List.getElem?_append_right (Nat.le_of_not_lt hlt), List.getElem?_replicate,
      List.getElem?_eq_none (Nat.le_of_not_lt hlt)]
    split <;> rfl

end

theorem get_close {table : FileDescriptorTable} {pipes : Pipes} {fd : Nat}
    {after : FileDescriptorTable × Pipes} (h : table.close pipes fd = some after) (other : Nat) :
    after.1.get other = if fd = other then none else table.get other := by
  obtain ⟨_, hget, rfl⟩ := Option.map_eq_some_iff.mp h
  rw [get_put]
  by_cases heq : fd = other
  · have hlt : fd < table.slots.length := by
      by_contra hle
      rw [get, List.getElem?_eq_none (Nat.le_of_not_lt hle)] at hget
      cases hget
    rw [if_pos ⟨heq, hlt⟩, if_pos heq]
  · rw [if_neg fun hboth => heq hboth.1, if_neg heq]

/-- Every open descriptor satisfies `P`. -/
def Within (P : FileDescriptor → Prop) (table : FileDescriptorTable) : Prop :=
  ∀ fd descriptor, table.get fd = some descriptor → P descriptor

section Within

variable {P : FileDescriptor → Prop} {table : FileDescriptorTable} {pipes : Pipes}

section

variable (htable : table.Within P)
include htable

theorem Within.put {slot : Option FileDescriptor}
    (hslot : ∀ descriptor, slot = some descriptor → P descriptor) (fd : Nat) :
    (table.put fd slot).Within P := by
  intro other descriptor hget
  rw [get_put] at hget
  split at hget
  · exact hslot descriptor hget
  · exact htable other descriptor hget

theorem Within.growTo {count : Nat} (hcount : count ≤ maxOpenFileDescriptors) :
    (table.growTo count hcount).Within P := by
  intro fd descriptor hget
  rw [get_growTo] at hget
  exact htable fd descriptor hget

end

end Within

/-! ### Tables with pipes -/

/-- What holds of pipes whatever ends are counted. -/
class Lasting (Q : Pipes → Prop) : Prop where
  retain : ∀ {pipes} descriptor, Q pipes → Q (pipes.retain descriptor)
  release : ∀ {pipes} descriptor, Q pipes → Q (pipes.release descriptor)

instance : Lasting fun _ => True := ⟨fun _ h => h, fun _ h => h⟩

/-- Every open descriptor satisfies `P`, and the pipes satisfy `Q`. -/
def Good (P : FileDescriptor → Prop) (Q : Pipes → Prop) (table : FileDescriptorTable)
    (pipes : Pipes) : Prop :=
  table.Within P ∧ Q pipes

theorem Within.good {P : FileDescriptor → Prop} {table : FileDescriptorTable} (h : table.Within P)
    (pipes : Pipes) : table.Good P (fun _ => True) pipes := ⟨h, trivial⟩

section Good

variable {P : FileDescriptor → Prop} {Q : Pipes → Prop} {table : FileDescriptorTable}
  {pipes : Pipes} {descriptor : FileDescriptor} {fd : Nat} (hgood : Good P Q table pipes)
include hgood

theorem Good.put (hdescriptor : P descriptor) (fd : Nat) :
    Good P Q (table.put fd (some descriptor)) pipes :=
  ⟨hgood.1.put (fun _ heq => Option.some.inj heq ▸ hdescriptor) fd, hgood.2⟩

theorem Good.growTo {count : Nat} (hcount : count ≤ maxOpenFileDescriptors) :
    Good P Q (table.growTo count hcount) pipes :=
  ⟨hgood.1.growTo hcount, hgood.2⟩

variable [Lasting Q]

theorem Good.retain (descriptor : FileDescriptor) : Good P Q table (pipes.retain descriptor) :=
  ⟨hgood.1, Lasting.retain descriptor hgood.2⟩

theorem Good.release (descriptor : FileDescriptor) : Good P Q table (pipes.release descriptor) :=
  ⟨hgood.1, Lasting.release descriptor hgood.2⟩

theorem Good.install (hdescriptor : P descriptor) :
    Good P Q (table.install pipes descriptor).2.1 (table.install pipes descriptor).2.2 := by
  unfold FileDescriptorTable.install
  split
  · exact hgood.put hdescriptor _
  · split
    next hlt => exact (hgood.growTo hlt).put hdescriptor _
    · exact hgood.release descriptor

theorem Good.installAt (hdescriptor : P descriptor) (fd : Nat) :
    Good P Q (table.installAt pipes fd descriptor).2.1
      (table.installAt pipes fd descriptor).2.2 := by
  unfold FileDescriptorTable.installAt
  split
  next hlt =>
    have hput := (hgood.growTo hlt).put hdescriptor fd
    cases table.get fd with
    | none => exact hput
    | some old => exact hput.release old
  · exact hgood.release descriptor

theorem Good.close {after : FileDescriptorTable × Pipes}
    (hclose : table.close pipes fd = some after) : Good P Q after.1 after.2 := by
  obtain ⟨descriptor, _, rfl⟩ := Option.map_eq_some_iff.mp hclose
  exact ⟨hgood.1.put (by simp) fd, Lasting.release descriptor hgood.2⟩

theorem Good.dup (fd : Nat) : Good P Q (table.dup pipes fd).2.1 (table.dup pipes fd).2.2 := by
  unfold FileDescriptorTable.dup
  split
  · exact hgood
  next descriptor hget => exact (hgood.retain descriptor).install (hgood.1 fd descriptor hget)

theorem Good.dupAtOrAbove (fd minFd : Nat) :
    Good P Q (table.dupAtOrAbove pipes fd minFd).2.1 (table.dupAtOrAbove pipes fd minFd).2.2 := by
  unfold FileDescriptorTable.dupAtOrAbove
  split
  · exact hgood
  next descriptor hget =>
    exact (hgood.retain descriptor).installAt (hgood.1 fd descriptor hget) _

theorem Good.dup2 {destination : Nat} {after : Int × FileDescriptorTable × Pipes}
    (h : table.dup2 pipes fd destination = .ok after) : Good P Q after.2.1 after.2.2 := by
  unfold FileDescriptorTable.dup2 at h
  split at h
  · cases h
    exact hgood
  next descriptor hget =>
    have hplaced := (hgood.retain descriptor).installAt (hgood.1 fd descriptor hget) destination
    split at h
    · cases h
      exact hgood
    dsimp only at h
    split at h
    · cases hmask : maskClear
        (table.installAt (pipes.retain descriptor) destination descriptor).2.1.cloexecMask
        destination with
      | error fault => rw [hmask] at h; cases h
      | ok mask =>
        rw [hmask] at h
        cases h
        exact hplaced
    · cases h
      exact hplaced

end Good

end FileDescriptorTable
end Bazzulto.Vfs
