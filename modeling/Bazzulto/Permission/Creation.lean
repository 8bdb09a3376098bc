/-
  Permission/Creation.lean --- how processes get their permissions.

  Embeds `Scheduler::clone_thread` (kernel/src/scheduler/mod.rs), `sys_spawn` and
  `sys_exec` (kernel/src/systemcalls/process.rs) as far as they write process
  records, and the two scans of an ELF file that the permission model makes
  (kernel/src/permission/mod.rs, kernel/src/loader/mod.rs).  `fork` is the one of
  Memory/Kernel.lean.

  A system call that names a program takes what the name resolves to as an
  argument: no file if it does not exist or may not be executed.  So it takes the
  answer of permissiond; that the caller is blocked meanwhile is left out.
-/
import Bazzulto.Loader.Elf
import Bazzulto.Memory.Kernel

set_option autoImplicit false

namespace Bazzulto

open Loader Memory Permission

/-! ## Scans of an ELF file -/

namespace Permission

/-- The name of the section that declares permissions. -/
def permissionsSectionName : List UInt8 :=
  ".bazzulto_permissions".toList.map fun c => c.toNat.toUInt8

/-- `elf_has_bazzulto_permissions_section`; `none` is an overflow. -/
def elfHasBazzultoPermissionsSection (file : List UInt8) : Option Bool :=
  if file.length < 64 then some false
  else
    let eShoff := field file 40 8
    let eShentsize := field file 58 2
    let eShnum := field file 60 2
    if eShoff = 0 ∨ eShnum = 0 ∨ eShentsize < 64 then some false
    else
      let shstrtabHdr := eShoff + field file 62 2 * eShentsize
      if 2 ^ 64 ≤ shstrtabHdr + 64 then none
      else if file.length < shstrtabHdr + 64 then some false
      else
        let shstrtabOffset := field file (shstrtabHdr + 24) 8
        let shstrtabSize := field file (shstrtabHdr + 32) 8
        if shstrtabOffset = 0 then some false
        else if 2 ^ 64 ≤ shstrtabOffset + shstrtabSize then none
        else if file.length < shstrtabOffset + shstrtabSize ∨ shstrtabSize = 0 then some false
        else
          let shstrtab := (file.drop shstrtabOffset).take shstrtabSize
          some ((List.range eShnum).any fun index =>
            let hdr := eShoff + index * eShentsize
            let shName := field file hdr 4
            hdr + 4 ≤ file.length && shName < shstrtabSize &&
              (shstrtab.drop shName).takeWhile (· ≠ 0) = permissionsSectionName)

/-! ## The decision at exec -/

/-- What becomes of the request to permissiond: there is no permissiond, the queue
is full, it does not answer, or a `PermDecision`. -/
inductive Answer where
  | unavailable
  | queueFull
  | noResponse
  | granted (patterns : List PathPattern)
  | grantedInherited
  | denied
  deriving DecidableEq, Repr

/-- The sets of a process. -/
abbrev Sets := List PathPattern × List ActionPermission

/-- The tier dispatch of `sys_exec`.  The error is EPERM; `ok none` leaves the sets
as they are. -/
def execPermissions (name : Text) (hasSection hashable : Bool) (current : Sets)
    (answer : Answer) : Except Unit (Option Sets) :=
  if isSystemBinaryPath name then
    .ok (some ((resolveExecPermissions name hasSection current.1 current.2).getD current))
  else
    match answer with
    | .unavailable => .ok (resolveExecPermissions name hasSection current.1 current.2)
    | .queueFull | .noResponse | .grantedInherited => .ok (some current)
    | .granted patterns =>
      if hashable then .ok (some (patterns, current.2)) else .ok (some current)
    | .denied => if hashable then .error () else .ok (some current)

end Permission

namespace Process

/-- The sets of a process. -/
def sets (process : Process) : Sets := (process.grantedPermissions, process.grantedActions)

/-- Install the sets that a tier dispatch returns. -/
def applySets (decision : Option Sets) (process : Process) : Process :=
  match decision with
  | none => process
  | some sets =>
    { process with grantedPermissions := sets.1, grantedActions := sets.2 }

section

variable (image : LoadedImage) (regions : List (Word × MmapRegion))

/-- The address space of a loaded image, with its demand-paged stack. -/
def installImage (process : Process) : Process :=
  let base : Word := BitVec.ofNat 64 image.stackDemandBase
  { process with
    pageTable := some image.pageTable
    mmapRegions := (base, ⟨base, BitVec.ofNat 64 image.stackDemandTop - base, true,
      .anonymous⟩) :: regions }

/-- What `clone_thread` writes in the record of the thread. -/
def inheritThread (parent child : Process) : Process :=
  { child with
    isThread := true
    nice := parent.nice
    signalHandlers := parent.signalHandlers
    mmapRegions := parent.mmapRegions }

theorem installImage_applySets_pid (decision : Option Sets) (process : Process) :
    ((process.installImage image regions).applySets decision).pid = process.pid := by
  cases decision <;> rfl

end

theorem inheritThread_pid (parent child : Process) :
    (parent.inheritThread child).pid = child.pid := rfl

end Process

namespace Kernel

/-! ## Threads -/

def cloneThread (kernel : Kernel) (cpu : Cpu) : Except ForkError Pid × Kernel :=
  let parentPid := kernel.scheduler.currentPids cpu
  match kernel.scheduler.pool.get parentPid with
  | none => (.error .internalError, kernel)
  | some parent =>
    match kernel.scheduler.createProcess (some parentPid) with
    | none => (.error .outOfPids, kernel)
    | some (childPid, created) =>
      let thread := created.updateProcess childPid parent.inheritThread
        parent.inheritThread_pid
      (.ok childPid, { kernel with scheduler := thread.makeReady cpu childPid })

/-! ## Programs -/

/-- A program to run: the name it is given by, what the name resolves to, and what
it is started with. -/
structure Program where
  name : Text
  file : Option (List UInt8)
  argv : List (List UInt8)
  envp : List (List UInt8)
  random : Nat
  stackRandom : Nat

section

variable (mmfr0 : Word) (vdso : Vdso)

/-- Load the file of a program. -/
def load (memory : PhysicalMemory) (program : Program) (file : List UInt8) :
    Except (Stop × PhysicalMemory) (LoadedImage × PhysicalMemory) :=
  loadElf mmfr0 vdso file program.argv program.envp program.random program.stackRandom memory

/-- `sys_spawn`, after which the child's pid is known.  `capable` says that the
caller may give away the capabilities it asks for.  The result is `none` where the
kernel panics. -/
def spawn (kernel : Kernel) (cpu : Cpu) (program : Program) (capable : Bool) :
    Option (Option Pid × Kernel) :=
  let parentPid := kernel.scheduler.currentPids cpu
  match program.file with
  | none => some (none, kernel)
  | some file =>
    match load mmfr0 vdso kernel.memory program file with
    | .error (.panic, _) => none
    | .error (_, memory) => some (none, { kernel with memory })
    | .ok (image, memory) =>
      if !capable then some (none, { kernel with memory })
      else
        let parentSets := ((kernel.scheduler.currentProcess cpu).map Process.sets).getD
          ([], [])
        match kernel.scheduler.createProcess (some parentPid) with
        | none => some (none, { kernel with memory })
        | some (childPid, created) =>
          match elfHasBazzultoPermissionsSection file with
          | none => none
          | some hasSection =>
            let decision := resolveExecPermissions program.name hasSection
              parentSets.1 parentSets.2
            let child := created.updateProcess childPid
              (fun process => (process.installImage image process.mmapRegions).applySets decision)
              (fun process => process.installImage_applySets_pid image _ decision)
            some (some childPid, ⟨child.makeReady cpu childPid, memory⟩)

/-- `sys_exec`.  The flag says that the program now runs; the result is `none`
where the kernel panics. -/
def exec (kernel : Kernel) (cpu : Cpu) (program : Program) (answer : Answer) :
    Option (Bool × Kernel) :=
  let pid := kernel.scheduler.currentPids cpu
  match program.file with
  | none => some (false, kernel)
  | some file =>
    match computeBinaryHash id file, elfHasBazzultoPermissionsSection file with
    | some digest, some hasSection =>
      let current := ((kernel.scheduler.currentProcess cpu).map Process.sets).getD ([], [])
      match execPermissions program.name hasSection digest.isSome current answer with
      | .error () => some (false, kernel)
      | .ok decision =>
        match load mmfr0 vdso kernel.memory program file with
        | .error (.panic, _) => none
        | .error (_, memory) => some (false, { kernel with memory })
        | .ok (image, memory) =>
          some (true, ⟨kernel.scheduler.updateProcess pid
            (fun process => (process.installImage image []).applySets decision)
            (fun process => process.installImage_applySets_pid image _ decision),
            memory⟩)
    | _, _ => none

variable (kernel : Kernel) (cpu : Cpu) (program : Program) (capable : Bool) (answer : Answer)

/-- What `sys_spawn` can do: nothing, load in vain, or create a process. -/
inductive Spawned : Option Pid × Kernel → Prop
  | unread : Spawned (none, kernel)
  | stopped {file stop} (hload : load mmfr0 vdso kernel.memory program file = .error stop) :
      Spawned (none, { kernel with memory := stop.2 })
  | dropped {file loaded} (hload : load mmfr0 vdso kernel.memory program file = .ok loaded) :
      Spawned (none, { kernel with memory := loaded.2 })
  | created {file image memory childPid created hasSection sets decision}
      (hfile : program.file = some file)
      (hload : load mmfr0 vdso kernel.memory program file = .ok (image, memory))
      (hcapable : capable = true)
      (hcreate : kernel.scheduler.createProcess (some (kernel.scheduler.currentPids cpu)) =
        some (childPid, created))
      (hsection : elfHasBazzultoPermissionsSection file = some hasSection)
      (hsets : ((kernel.scheduler.currentProcess cpu).map Process.sets).getD ([], []) = sets)
      (hdecision : resolveExecPermissions program.name hasSection sets.1 sets.2 = decision) :
      Spawned (some childPid, ⟨(created.updateProcess childPid
        (fun process => (process.installImage image process.mmapRegions).applySets decision)
        (fun process => process.installImage_applySets_pid image _ decision)).makeReady cpu
          childPid, memory⟩)

/-- What `sys_exec` can do: nothing, load in vain, or install the image. -/
inductive Executed : Bool × Kernel → Prop
  | refused : Executed (false, kernel)
  | stopped {file stop} (hload : load mmfr0 vdso kernel.memory program file = .error stop) :
      Executed (false, { kernel with memory := stop.2 })
  | installed {file image memory hasSection hashable sets decision}
      (hfile : program.file = some file)
      (hload : load mmfr0 vdso kernel.memory program file = .ok (image, memory))
      (hsets : ((kernel.scheduler.currentProcess cpu).map Process.sets).getD ([], []) = sets)
      (hdecision : execPermissions program.name hasSection hashable sets answer = .ok decision) :
      Executed (true, ⟨kernel.scheduler.updateProcess (kernel.scheduler.currentPids cpu)
        (fun process => (process.installImage image []).applySets decision)
        (fun process => process.installImage_applySets_pid image _ decision), memory⟩)

variable {mmfr0 vdso kernel cpu program capable answer}

theorem spawned_of_spawn {result : Option Pid × Kernel}
    (h : spawn mmfr0 vdso kernel cpu program capable = some result) :
    Spawned mmfr0 vdso kernel cpu program capable result := by
  unfold spawn at h
  dsimp only at h
  split at h
  · cases h
    exact .unread
  rename_i hfile
  split at h
  · cases h
  · cases h
    exact .stopped ‹_›
  rename_i hload
  split at h
  · cases h
    exact .dropped hload
  rename_i hcapable
  split at h
  · cases h
    exact .dropped hload
  rename_i hcreate
  split at h
  · cases h
  rename_i hsection
  cases h
  exact .created hfile hload (by simpa using hcapable) hcreate hsection rfl rfl

theorem executed_of_exec {result : Bool × Kernel}
    (h : exec mmfr0 vdso kernel cpu program answer = some result) :
    Executed mmfr0 vdso kernel cpu program answer result := by
  unfold exec at h
  dsimp only at h
  split at h
  · cases h
    exact .refused
  rename_i hfile
  split at h
  · split at h
    · cases h
      exact .refused
    rename_i hdecision
    split at h
    · cases h
    · cases h
      exact .stopped ‹_›
    · cases h
      exact .installed hfile ‹_› rfl hdecision
  · cases h

end

end Kernel
end Bazzulto
