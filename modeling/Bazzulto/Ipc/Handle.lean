/-
  Ipc/Handle.lean --- descriptors of IPC objects.

  Semaphores, sockets and message queues live in tables of their own.  A descriptor
  reaches one through an inode (`SemaphoreInode`, `SocketInode`) that holds its index in
  the table; `dup` and `fork` copy the reference to the inode.  `Handles` is the part all
  of them share: the descriptor tables of the processes and what the inodes stand for.

  Tables are known by number; threads share one.  Other calls may open descriptors of
  inodes that stand for nothing here.
-/
import Bazzulto.Vfs.Descriptor

set_option autoImplicit false

namespace Bazzulto.Ipc

open Vfs Function

/-- The inode of a descriptor was made before `next`. -/
def FileDescriptor.Before (next : InodeId) : FileDescriptor → Prop
  | .inoFile inode _ => inode < next
  | _ => True

/-- The descriptor tables and the IPC inodes, with the next number of
`alloc_inode_number`. -/
structure Handles (α : Type) where
  tables : Nat → FileDescriptorTable
  pipes : Pipes
  object : InodeId → Option α
  nextInode : InodeId
  made : ∀ owner, (tables owner).Within (FileDescriptor.Before nextInode)

namespace Handles

variable {α : Type} {owner fd : Nat}

section

variable (handles : Handles α)

/-- What a descriptor of a table stands for. -/
def lookup (owner fd : Nat) : Option α :=
  match (handles.tables owner).get fd with
  | some (.inoFile inode _) => handles.object inode
  | _ => none

/-- Every process starts with a terminal. -/
def init : Handles α where
  tables := fun _ => .newWithTty
  pipes := ⟨fun _ => {}, 0⟩
  object := fun _ => none
  nextInode := 0
  made := by
    intro owner fd descriptor hget
    match fd with
    | 0 | 1 | 2 => cases hget; trivial
    | fd + 3 => cases hget

/-- Replace a table. -/
def setTable (owner : Nat) (table : FileDescriptorTable) (pipes : Pipes)
    (hmade : table.Within (FileDescriptor.Before handles.nextInode)) : Handles α :=
  { handles with
    tables := update handles.tables owner table
    pipes := pipes
    made := by
      intro other
      by_cases heq : other = owner
      · subst heq
        rwa [update_self]
      · rw [update_of_ne heq]
        exact handles.made other }

/-- `SemaphoreInode::new` and the like. -/
def newInode (object : Option α) : Handles α :=
  { handles with
    object := update handles.object handles.nextInode object
    nextInode := handles.nextInode + 1
    made := by
      intro owner fd descriptor hget
      have hbefore := handles.made owner fd descriptor hget
      cases descriptor with
      | inoFile inode position => exact Nat.lt_succ_of_lt hbefore
      | _ => trivial }

/-- Make an inode and install a descriptor of it: the number, or -1. -/
def openNew (owner : Nat) (object : Option α) : Int × Handles α :=
  let created := handles.newInode object
  let installed := (created.tables owner).install created.pipes (.inoFile handles.nextInode 0)
  (installed.1, created.setTable owner installed.2.1 installed.2.2
    (((created.made owner).good _).install (Nat.lt_succ_self _)).1)

end

/-- `close`; `none` if the descriptor is not open. -/
def close (handles : Handles α) (owner fd : Nat) : Option (Handles α) :=
  match h : (handles.tables owner).close handles.pipes fd with
  | none => none
  | some (table, pipes) =>
    some (handles.setTable owner table pipes (((handles.made owner).good _).close h).1)

/-- `dup`, `dup2` and F_DUPFD. -/
inductive Duplicate where
  | anywhere
  | exactly (destination : Nat)
  | atOrAbove (minimum : Nat)
  deriving DecidableEq, Repr

/-- Duplicate a descriptor of a table; `none` where the kernel panics. -/
def duplicate (handles : Handles α) (owner fd : Nat) : Duplicate → Option (Handles α)
  | .anywhere =>
    let duplicated := (handles.tables owner).dup handles.pipes fd
    some (handles.setTable owner duplicated.2.1 duplicated.2.2
      (((handles.made owner).good _).dup fd).1)
  | .exactly destination =>
    match h : (handles.tables owner).dup2 handles.pipes fd destination with
    | .error _ => none
    | .ok duplicated =>
      some (handles.setTable owner duplicated.2.1 duplicated.2.2
        (((handles.made owner).good _).dup2 h).1)
  | .atOrAbove minimum =>
    let duplicated := (handles.tables owner).dupAtOrAbove handles.pipes fd minimum
    some (handles.setTable owner duplicated.2.1 duplicated.2.2
      (((handles.made owner).good _).dupAtOrAbove fd minimum).1)

/-- `fork`: the child gets a copy of the table of its parent. -/
def fork (handles : Handles α) (owner child : Nat) : Handles α :=
  let cloned := (handles.tables owner).cloneForFork handles.pipes
  handles.setTable child cloned.1 cloned.2 (handles.made owner)

/-! ## What is open -/

/-- Some descriptor stands for the object. -/
def Holds (handles : Handles α) (value : α) : Prop :=
  ∃ owner fd, handles.lookup owner fd = some value

/-- A descriptor stands for the object in a table. -/
theorem lookup_eq_some_iff {handles : Handles α} {value : α} :
    handles.lookup owner fd = some value ↔ ∃ inode position,
      (handles.tables owner).get fd = some (.inoFile inode position) ∧
        handles.object inode = some value := by
  unfold lookup
  constructor
  · intro h
    split at h
    next inode position hget =>
      exact ⟨inode, position, hget, h⟩
    · cases h
  · rintro ⟨_, _, hget, hobject⟩
    rw [hget]
    exact hobject

/-- What is open after one table is replaced by a table with descriptors of the same
process or of another. -/
theorem Holds.of_setTable {handles : Handles α} {source : Nat} {table : FileDescriptorTable}
    {pipes : Pipes} {hmade : table.Within (FileDescriptor.Before handles.nextInode)} {value : α}
    (h : (handles.setTable owner table pipes hmade).Holds value)
    (htable : table.Within fun descriptor =>
      ∃ fd, (handles.tables source).get fd = some descriptor) : handles.Holds value := by
  obtain ⟨other, fd, hlookup⟩ := h
  obtain ⟨inode, position, hget, hobject⟩ := lookup_eq_some_iff.mp hlookup
  dsimp only [setTable] at hget hobject
  rw [update_apply] at hget
  split at hget
  · obtain ⟨fd', hget'⟩ := htable fd _ hget
    exact ⟨source, fd', lookup_eq_some_iff.mpr ⟨inode, position, hget', hobject⟩⟩
  · exact ⟨other, fd, lookup_eq_some_iff.mpr ⟨inode, position, hget, hobject⟩⟩

theorem within_self (table : FileDescriptorTable) :
    table.Within fun descriptor => ∃ fd, table.get fd = some descriptor :=
  fun fd _ hget => ⟨fd, hget⟩

theorem Holds.of_duplicate {handles after : Handles α} {how : Duplicate} {value : α}
    (hduplicate : handles.duplicate owner fd how = some after) (h : after.Holds value) :
    handles.Holds value := by
  cases how with
  | anywhere =>
    cases hduplicate
    exact h.of_setTable (((within_self _).good _).dup fd).1
  | exactly destination =>
    dsimp only [duplicate] at hduplicate
    split at hduplicate
    · cases hduplicate
    next hok =>
      cases hduplicate
      exact h.of_setTable (((within_self _).good _).dup2 hok).1
  | atOrAbove minimum =>
    cases hduplicate
    exact h.of_setTable (((within_self _).good _).dupAtOrAbove fd minimum).1

theorem Holds.of_fork {handles : Handles α} {child : Nat} {value : α}
    (h : (handles.fork owner child).Holds value) : handles.Holds value := by
  unfold fork at h
  exact h.of_setTable (within_self (handles.tables owner))

/-- After `close` every other descriptor stands for what it did. -/
theorem lookup_close {handles after : Handles α} (hclose : handles.close owner fd = some after)
    (other fd' : Nat) :
    after.lookup other fd' =
      if other = owner ∧ fd' = fd then none else handles.lookup other fd' := by
  unfold close at hclose
  split at hclose
  · cases hclose
  next hclosed =>
    cases hclose
    unfold lookup setTable
    dsimp only
    rw [update_apply]
    obtain rfl | howner := eq_or_ne other owner
    · rw [if_pos rfl, FileDescriptorTable.get_close hclosed]
      by_cases hfd : fd = fd'
      · simp [hfd]
      · simp [hfd, Ne.symm hfd]
    · rw [if_neg howner, if_neg fun hboth => howner hboth.1]

theorem Holds.of_close {handles after : Handles α} {value : α}
    (hclose : handles.close owner fd = some after) (h : after.Holds value) :
    handles.Holds value := by
  obtain ⟨other, fd', hlookup⟩ := h
  rw [lookup_close hclose] at hlookup
  split at hlookup
  · cases hlookup
  · exact ⟨other, fd', hlookup⟩

theorem close_isSome {handles : Handles α} {value : α} (h : handles.lookup owner fd = some value) :
    (handles.close owner fd).isSome = true := by
  obtain ⟨_, _, hget, -⟩ := lookup_eq_some_iff.mp h
  unfold close
  split
  next hclosed =>
    rw [FileDescriptorTable.close, hget] at hclosed
    cases hclosed
  · rfl

/-- What is open after a new descriptor. -/
theorem Holds.of_openNew {handles : Handles α} {object : Option α} {value : α}
    (h : (handles.openNew owner object).2.Holds value) :
    object = some value ∨ handles.Holds value := by
  obtain ⟨other, fd, hlookup⟩ := h
  obtain ⟨inode, position, hget, hobject⟩ := lookup_eq_some_iff.mp hlookup
  have hwithin : ((handles.openNew owner object).2.tables other).Within fun descriptor =>
      descriptor = .inoFile handles.nextInode 0 ∨
        ∃ owner fd, (handles.tables owner).get fd = some descriptor := by
    unfold openNew setTable newInode
    dsimp only
    rw [update_apply]
    split
    · refine And.left (FileDescriptorTable.Good.install (Q := fun _ => True) ⟨?_, trivial⟩
        (.inl rfl))
      exact fun fd' _ hget' => .inr ⟨owner, fd', hget'⟩
    · exact fun fd' _ hget' => .inr ⟨other, fd', hget'⟩
  have hobjects : (handles.openNew owner object).2.object =
      update handles.object handles.nextInode object := rfl
  rw [hobjects] at hobject
  rcases hwithin fd _ hget with hnew | ⟨owner', fd', hold⟩
  · cases hnew
    rw [update_self] at hobject
    exact .inl hobject
  · rw [update_of_ne (Nat.ne_of_lt (handles.made owner' fd' _ hold))] at hobject
    exact .inr ⟨owner', fd', lookup_eq_some_iff.mpr ⟨inode, position, hold, hobject⟩⟩

end Handles
end Bazzulto.Ipc
