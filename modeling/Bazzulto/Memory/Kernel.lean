/-
  Memory/Kernel.lean --- processes and the memory they share.

  Embeds `Scheduler::fork` and `Scheduler::munmap_for_current`
  (kernel/src/scheduler/mod.rs) and `handle_page_fault`
  (kernel/src/memory/mod.rs).  The address spaces of all processes and the free
  list are one state, since fork shares pages between tables.

  What a file holds is a parameter, `files`: the page that `read_at` leaves in a
  zeroed buffer.  Kernel stacks come from the heap and are left out.
-/
import Bazzulto.Memory.Copy
import Bazzulto.Scheduler.Core

set_option autoImplicit false

namespace Bazzulto

open Memory

/-- The process table and the physical memory. -/
structure Kernel where
  scheduler : Scheduler
  memory : PhysicalMemory

namespace Scheduler

/-- The page table of a process. -/
def tableOf (scheduler : Scheduler) (pid : Pid) : Option Word :=
  (scheduler.pool.get pid).bind Process.pageTable

end Scheduler

namespace Process

/-- `cow_pages.insert`. -/
def insertCowPage (cowPages : List (Word × Word)) (entry : Word × Word) : List (Word × Word) :=
  entry :: cowPages.filter fun other => other.1 ≠ entry.1

/-- Insert the pages that `collect_cow_pages` reports. -/
def recordCowPages (pages : List (Word × Word)) (process : Process) : Process :=
  { process with cowPages := pages.foldl insertCowPage process.cowPages }

/-- `cow_pages.remove`. -/
def forgetCowPage (pageVa : Word) (process : Process) : Process :=
  { process with cowPages := process.cowPages.filter fun entry => entry.1 ≠ pageVa }

/-- `mmap_regions.remove`. -/
def forgetRegion (addr : Word) (process : Process) : Process :=
  { process with mmapRegions := process.mmapRegions.filter fun entry => entry.1 ≠ addr }

theorem recordCowPages_pid (pages : List (Word × Word)) (process : Process) :
    (process.recordCowPages pages).pid = process.pid := rfl

theorem forgetCowPage_pid (pageVa : Word) (process : Process) :
    (process.forgetCowPage pageVa).pid = process.pid := rfl

theorem forgetRegion_pid (addr : Word) (process : Process) :
    (process.forgetRegion addr).pid = process.pid := rfl

/-- The first demand-paged region that holds an address. -/
def demandRegion (process : Process) (pageVa : Word) : Option MmapRegion :=
  (process.mmapRegions.map Prod.snd).find? fun region =>
    region.demand && region.base ≤ pageVa && pageVa < region.base + region.length

section

variable (parent : Process) (pageTable : Option Word) (pages : List (Word × Word)) (child : Process)

/-- What `fork` writes in the record of the child. -/
def inherit : Process :=
  { child.recordCowPages pages with
    pageTable
    mmapRegions := parent.mmapRegions
    signalHandlers := parent.signalHandlers
    signalStack := parent.signalStack
    onSignalStack := false
    grantedPermissions := parent.grantedPermissions
    grantedActions := parent.grantedActions
    alarmDeadlineTick := 0 }

theorem inherit_pid :
    (parent.inherit pageTable pages child).pid = child.pid := rfl

end

end Process

namespace Kernel

inductive ForkError where
  | outOfPids
  | outOfMemory
  | internalError
  deriving DecidableEq, Repr

section

variable (mmfr0 : Word)

/-! ## Fork -/

/-- The address space of the child; a kernel process has none. -/
def copyAddressSpace (copyUser : PhysicalMemory → Word →
      Except PhysicalMemory (Word × PhysicalMemory)) (memory : PhysicalMemory) :
    Option Word → Except PhysicalMemory (Option Word × PhysicalMemory)
  | none => .ok (none, memory)
  | some root => (copyUser memory root).map fun (copy, memory) => (some copy, memory)

/-- The marked pages of an address space. -/
def cowPagesOf (memory : PhysicalMemory) : Option Word → List (Word × Word)
  | none => []
  | some root => collectCowPages mmfr0 memory root

/-- `fork` once the address space is copied: the records of both processes, and
the child in a run queue. -/
def finishFork (scheduler : Scheduler) (memory : PhysicalMemory) (cpu : Cpu)
    (parent : Process) (childPid : Pid) (pageTable : Option Word) : Scheduler :=
  let recorded := scheduler.updateProcess parent.pid
    (Process.recordCowPages (cowPagesOf mmfr0 memory parent.pageTable))
    (Process.recordCowPages_pid _)
  let forked := recorded.updateProcess childPid
    (parent.inherit pageTable (cowPagesOf mmfr0 memory pageTable))
    (parent.inherit_pid pageTable _)
  forked.makeReady cpu childPid

/-- `fork` with a way to copy the address space.  The slot of the child stays taken when the
copy fails. -/
def forkWith (copyUser : PhysicalMemory → Word → Except PhysicalMemory (Word × PhysicalMemory))
    (kernel : Kernel) (cpu : Cpu) : Except ForkError Pid × Kernel :=
  let parentPid := kernel.scheduler.currentPids cpu
  match kernel.scheduler.createProcess (some parentPid) with
  | none => (.error .outOfPids, kernel)
  | some (childPid, created) =>
    match created.pool.get parentPid with
    | none => (.error .internalError, { kernel with scheduler := created })
    | some parent =>
      match copyAddressSpace copyUser kernel.memory parent.pageTable with
      | .error memory => (.error .outOfMemory, ⟨created, memory⟩)
      | .ok (pageTable, memory) =>
        (.ok childPid, ⟨finishFork mmfr0 created memory cpu parent childPid pageTable, memory⟩)

def fork (kernel : Kernel) (cpu : Cpu) : Except ForkError Pid × Kernel :=
  forkWith mmfr0 (cowCopyUser mmfr0) kernel cpu

/-- `fork` with the eager copy that `cow_copy_user` has taken the place of. -/
def deepFork (kernel : Kernel) (cpu : Cpu) : Except ForkError Pid × Kernel :=
  forkWith mmfr0 (deepCopyUser mmfr0) kernel cpu

/-! ## Page faults -/

/-- A fresh page with the given content, mapped at an address.  The result of
`map` is ignored. -/
def installPage (memory : PhysicalMemory) (pageTable : Option Word) (pageVa : Word)
    (content : Page) : Option PhysicalMemory :=
  match memory.alloc with
  | none => none
  | some (page, memory) =>
    let memory := memory.fill page content
    match pageTable with
    | none => some memory
    | some root =>
      match map mmfr0 memory root pageVa page pageFlagsUserData with
      | .ok memory => some memory
      | .error memory => some memory

/-- The page of a faulting address. -/
def pageOf (faultAddress : Word) : Word := faultAddress &&& ~~~0xFFF#64

/-- The class of a fault, from the status code in the syndrome. -/
def faultClass (iss : BitVec 32) : BitVec 32 := iss &&& 0x3F#32 &&& 0b111100#32

section

variable (files : Nat → Word → Page)

/-- A demand page: zero, or read from the backing file. -/
def demandPage (region : MmapRegion) (pageVa : Word) : Page :=
  match region.backing with
  | .anonymous => zeroPage
  | .file inode fileOffset => files inode (fileOffset + (pageVa - region.base))

/-- The content a fault asks for, if it is one that can be handled: a translation
fault in a demand-paged region, or a write to a page shared by fork. -/
def faultContent (memory : PhysicalMemory) (process : Process) (faultAddress : Word)
    (iss : BitVec 32) (isDataAbort : Bool) : Option Page :=
  let pageVa := pageOf faultAddress
  if faultClass iss = 0b000100#32 then
    (process.demandRegion pageVa).map fun region => demandPage files region pageVa
  else if faultClass iss = 0x0C#32 ∧ isDataAbort ∧ iss &&& (1#32 <<< 6) ≠ 0#32 then
    (process.cowPages.lookup pageVa).map memory.pages
  else none

def handlePageFault (kernel : Kernel) (cpu : Cpu) (faultAddress : Word) (iss : BitVec 32)
    (isDataAbort : Bool) : Bool × Kernel :=
  match kernel.scheduler.currentProcess cpu with
  | none => (false, kernel)
  | some process =>
    match faultContent files kernel.memory process faultAddress iss isDataAbort with
    | none => (false, kernel)
    | some content =>
      match installPage mmfr0 kernel.memory process.pageTable (pageOf faultAddress)
          content with
      | none => (false, kernel)
      | some memory =>
        if faultClass iss = 0b000100#32 then (true, { kernel with memory })
        else
          -- The write was to a shared page, which is private now.
          (true, ⟨kernel.scheduler.updateProcess process.pid
            (Process.forgetCowPage (pageOf faultAddress))
            (Process.forgetCowPage_pid _), memory⟩)

/-! ## Unmapping -/

/-- `munmap_for_current`.  The map of shared pages is left alone. -/
def munmapForCurrent (kernel : Kernel) (cpu : Cpu) (addr : Word) (pages : Nat)
    (pageSize : Word) : Bool × Kernel :=
  match kernel.scheduler.currentProcess cpu with
  | none => (false, kernel)
  | some process =>
    if (process.mmapRegions.lookup addr).isNone then (false, kernel)
    else
      let scheduler := kernel.scheduler.updateProcess process.pid
        (Process.forgetRegion addr) (Process.forgetRegion_pid addr)
      match process.pageTable with
      | none => (true, { kernel with scheduler })
      | some root =>
        (true, ⟨scheduler, unmapRange mmfr0 kernel.memory root addr pages pageSize⟩)

/-! ## Steps -/

/-- One step of the processes or of the kernel on their behalf. -/
inductive Action where
  /-- A context switch, whatever the reason. -/
  | dispatch (cpu : Cpu) (pid : Pid)
  | fork (cpu : Cpu)
  | pageFault (cpu : Cpu) (faultAddress : Word) (iss : BitVec 32) (isDataAbort : Bool)
  | munmap (cpu : Cpu) (addr : Word) (pages : Nat) (pageSize : Word)
  /-- The running process stores a word in a page that is mapped. -/
  | store (cpu : Cpu) (address : Word) (index : Index) (word : Word)
  /-- The kernel takes a page for itself, as the heap does to grow. -/
  | take (content : Page)

/-- The transitions of the kernel. -/
def step (kernel : Kernel) : Action → Option Kernel
  | .dispatch cpu pid =>
    (kernel.scheduler.switchTo cpu (kernel.scheduler.currentPids cpu) pid).map
      fun scheduler => { kernel with scheduler }
  | .fork cpu => some (fork mmfr0 kernel cpu).2
  | .pageFault cpu faultAddress iss isDataAbort =>
    some (handlePageFault mmfr0 files kernel cpu faultAddress iss isDataAbort).2
  | .munmap cpu addr pages pageSize =>
    some (munmapForCurrent mmfr0 kernel cpu addr pages pageSize).2
  | .store cpu address index word =>
    match kernel.scheduler.tableOf (kernel.scheduler.currentPids cpu) with
    | none => none
    | some root =>
      (translate mmfr0 kernel.memory root address).map fun page =>
        { kernel with memory := kernel.memory.write page index word }
  | .take content =>
    kernel.memory.alloc.map fun (page, memory) =>
      { kernel with memory := memory.fill page content }

end

end

end Kernel
end Bazzulto
