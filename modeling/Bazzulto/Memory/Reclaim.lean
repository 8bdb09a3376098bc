/-
  Memory/Reclaim.lean --- what a process that has ended gives back.

  `Scheduler::exit` drops the page table of the process and its list of regions, and
  `Scheduler::reap` (kernel/src/scheduler/mod.rs) its slot; `sys_exec` drops the table of
  the old image.  `PageTable` has no destructor, so no frame goes back to the allocator
  there, and a frame of an ended process is free only if it was unmapped before.  A page
  table never is.

  The life of one process is a list of the events of Memory/Protection.lean that it causes
  itself, with context switches and the growth of the kernel heap in between, and then
  steps of the scheduler, exit and reaping among them.
-/
import Bazzulto.Memory.Ledger
import Bazzulto.Memory.Renewal

set_option autoImplicit false

namespace Bazzulto

open Foundation Loader Memory List Option Set Scheduler

namespace Memory

/-- The frame is on the free list. -/
def PhysicalMemory.Listed (memory : PhysicalMemory) (frame : Word) : Prop :=
  ∃ n, memory.freeAt n = some frame

theorem Owned.listed_iff {mmfr0 : Word} {memory : PhysicalMemory} {roots : Set Word}
    {free : List Word} (h : Owned mmfr0 memory roots free) (frame : Word) :
    memory.Listed frame ↔ frame ∈ free := by
  simp [PhysicalMemory.Listed, h.listed.getElem?, mem_iff_getElem?]

/-- Every frame that was free is free again, and as many are, the frames of the kernel heap
apart. -/
structure Returned (before after : PhysicalMemory) (heap : List Word) : Prop where
  frames : ∀ frame, before.Listed frame → frame ∉ heap → after.Listed frame
  count : after.freePageCount + heap.length = before.freePageCount

end Memory

namespace Scheduler

variable {change : Process → Process} {scheduler : Scheduler} {root : Word}

theorem tableOf_updateProcess_self {pid : Pid} {table : Word}
    (hpid : ∀ process, (change process).pid = process.pid)
    (hchange : ∀ process, (change process).pageTable = some root)
    (h : (scheduler.updateProcess pid change hpid).tableOf pid = some table) : table = root := by
  rw [tableOf_eq_view, view_updateProcess, if_pos rfl] at h
  obtain ⟨process, -, htable⟩ := map_eq_some_iff.mp (join_eq_some_iff.mp h)
  exact some.inj (htable.symm.trans (hchange process))

theorem tableOf_current {cpu : Cpu} {process : Process}
    (hproc : scheduler.currentProcess cpu = some process) (hroot : process.pageTable = some root) :
    scheduler.tableOf (scheduler.currentPids cpu) = some root := by
  rw [tableOf, ← currentProcess, hproc, bind_some, hroot]

end Scheduler

namespace Kernel

variable {roots : Set Word} {memory : PhysicalMemory} {content : Page} {cpu : Cpu}
  {program : Program} {event : Event} {created : Kernel} {capable : Bool}

section

variable (mmfr0 : Word) (vdso : Vdso) (files : Nat → Word → Page)

/-- A step of the scheduler: exit and reaping among others. -/
def schedule (kernel : Kernel) (action : Scheduler.Action) : Option Kernel :=
  (kernel.scheduler.step action).map fun scheduler => { kernel with scheduler }

/-- The event is a step of one process, and no fork; or a context switch, or the heap
grows. -/
def ActsAlone (pid : Pid) (kernel : Kernel) : Event → Prop
  | .act (.dispatch ..) | .act (.take _) => True
  | .act (.pageFault cpu ..) | .act (.munmap cpu ..) | .act (.store cpu ..) | .exec cpu ..
  | .mmap cpu .. => kernel.scheduler.currentPids cpu = pid
  | .act (.fork _) | .deepFork _ | .cloneThread _ | .spawn .. => False

/-- What an event has to meet for the frames to be accounted for: a handled fault does not
run out of frames half way, and no page of the vDSO is unmapped. -/
def Provident (kernel : Kernel) : Event → Prop
  | .act action =>
    match action with
    | .pageFault .. => Careful mmfr0 files kernel action
    | _ => Spares mmfr0 vdso.pages kernel action
  | _ => True

/-- The frame that the heap takes, if it grows. -/
def heapFrame (kernel : Kernel) : Event → List Word
  | .act (.take _) => kernel.memory.freeListHead.toList
  | _ => []

/-- The frames that the heap takes in a run. -/
def heapFrames : Kernel → List Event → List Word
  | _, [] => []
  | kernel, event :: events =>
    match handle mmfr0 vdso files kernel event with
    | none => []
    | some next => kernel.heapFrame event ++ heapFrames next events

end

/-- The books of a process.  Of the frames that were free before it was created, its first
page table is gone, the heap has some, and the rest is the stock of its trees. -/
def Accounts (mmfr0 : Word) (vdso : Vdso) (pid : Pid) (before : List Word) (root : Word)
    (heap : List Word) (kernel : Kernel) : Prop :=
  ∃ roots stock, root ∈ roots ∧ Booked mmfr0 vdso.pages stock roots kernel.memory ∧
    (∀ table, kernel.scheduler.tableOf pid = some table → table ∈ roots) ∧
    before.Perm (root :: heap ++ stock)

variable {mmfr0 : Word} {vdso : Vdso} {files : Nat → Word → Page} {kernel kernel' : Kernel}
  {pid : Pid} {before heap : List Word} {root : Word}

/-! ## Steps that keep the stock -/

section

variable (h : Accounts mmfr0 vdso pid before root heap kernel)
include h

theorem Accounts.keep (htable : kernel'.scheduler.tableOf pid = kernel.scheduler.tableOf pid)
    (hmemory : ∀ roots stock, (∀ table, kernel.scheduler.tableOf pid = some table → table ∈ roots) →
      Booked mmfr0 vdso.pages stock roots kernel.memory →
      Booked mmfr0 vdso.pages stock roots kernel'.memory) :
    Accounts mmfr0 vdso pid before root heap kernel' := by
  obtain ⟨roots, stock, hroot, hbooked, hroots, hperm⟩ := h
  exact ⟨roots, stock, hroot, hmemory roots stock hroots hbooked, fun table hpid =>
    hroots table (htable ▸ hpid), hperm⟩

theorem Accounts.pageFault (hpid : kernel.scheduler.currentPids cpu = pid) {faultAddress : Word}
    {iss : BitVec 32} {isDataAbort : Bool}
    (hcareful : Careful mmfr0 files kernel (.pageFault cpu faultAddress iss isDataAbort)) :
    Accounts mmfr0 vdso pid before root heap
      (handlePageFault mmfr0 files kernel cpu faultAddress iss isDataAbort).2 := by
  subst hpid
  obtain hsame | ⟨process, _, hproc, hcontent, hinstall, htable⟩ :=
    handlePageFault_cases mmfr0 files kernel cpu faultAddress iss isDataAbort rfl
  · rw [hsame]
    exact h
  refine h.keep (htable _) fun roots stock hroots hbooked => ?_
  obtain ⟨_, hledger⟩ := hbooked
  refine installPage_held Ledger.upkeep (and_paMask mmfr0 (by decide)) hledger
    (fun root hroot => ⟨?_, ?_⟩) hinstall
  · exact hroots root (tableOf_current hproc hroot)
  · exact hcareful process root hproc hroot (by simp [hcontent])

theorem Accounts.munmap (hpid : kernel.scheduler.currentPids cpu = pid) {addr : Word}
    {pages : Nat} {pageSize : Word}
    (hspares : Spares mmfr0 vdso.pages kernel (.munmap cpu addr pages pageSize)) :
    Accounts mmfr0 vdso pid before root heap
      (munmapForCurrent mmfr0 kernel cpu addr pages pageSize).2 := by
  subst hpid
  obtain ⟨hsame | ⟨process, table, hproc, hroot, hregion, hunmapped⟩, htable⟩ :=
    munmapForCurrent_cases mmfr0 kernel cpu addr pages pageSize rfl
  · exact h.keep (htable _) fun _ _ _ hbooked => hsame ▸ hbooked
  refine h.keep (htable _) fun roots stock hroots hbooked => ?_
  obtain ⟨_, hledger⟩ := hbooked
  exact hunmapped ▸ hledger.unmapRange (hroots table (tableOf_current hproc hroot))
    (hspares process table hproc hroot hregion)

theorem Accounts.mmap (cpu : Cpu) (mmapNextVa : Word) (pages : Nat) (backing : MmapBacking) :
    Accounts mmfr0 vdso pid before root heap
      (kernel.mmapForCurrent cpu mmapNextVa pages backing) := by
  unfold mmapForCurrent
  split
  · exact h
  split
  · exact h
  exact h.keep (kernel.scheduler.tableOf_updateProcess _ _ _ fun _ => rfl)
    fun _ _ _ hbooked => hbooked

/-- A store reaches mapped pages only. -/
theorem Accounts.store (hpid : kernel.scheduler.currentPids cpu = pid) {address word : Word}
    {index : Index}
    (hstep : step mmfr0 files kernel (.store cpu address index word) = some kernel') :
    Accounts mmfr0 vdso pid before root heap kernel' := by
  subst hpid
  dsimp only [step] at hstep
  split at hstep
  · cases hstep
  next table htable =>
    obtain ⟨page, hpage, rfl⟩ := map_eq_some_iff.mp hstep
    refine h.keep rfl fun roots stock hroots hbooked => ?_
    obtain ⟨free, hledger⟩ := hbooked
    obtain ⟨hfree, hnotTable⟩ := hledger.shielded.owned.leaves page
      ⟨table, hroots table htable, pagePath address, pagePath_length address, hpage⟩
    exact ⟨free, hledger.fill hfree hnotTable _⟩

/-! ## Steps that draw on the stock -/

/-- A frame of the heap is struck off. -/
theorem Accounts.take (hstep : step mmfr0 files kernel (.take content) = some kernel') :
    Accounts mmfr0 vdso pid before root (heap ++ kernel.memory.freeListHead.toList) kernel' := by
  obtain ⟨⟨page, _⟩, halloc, rfl⟩ := map_eq_some_iff.mp hstep
  have hhead : kernel.memory.freeListHead = some page := by
    unfold PhysicalMemory.alloc at halloc
    split at halloc
    · cases halloc
    next hhead =>
      cases halloc
      exact hhead
  obtain ⟨roots, stock, hroot, ⟨_, hledger⟩, hroots, hperm⟩ := h
  obtain ⟨rest, rfl, htaken, hloose, hstock⟩ := hledger.alloc halloc
  refine ⟨roots, stock.erase page, hroot, ⟨rest,
    (htaken.strike hloose.notFree hloose.notMapped).fill hloose.notFree hloose.notTable content⟩,
    hroots, ?_⟩
  have hstruck : (heap ++ stock).Perm ((heap ++ [page]) ++ stock.erase page) := by
    rw [append_assoc]
    exact (perm_cons_erase hstock).append_left heap
  rw [hhead]
  exact hperm.trans (hstruck.cons root)

end

section

variable (hvdso : VdsoReserved mmfr0 vdso.pages vdso)
  (h : Accounts mmfr0 vdso pid before root heap kernel)
include hvdso h

/-- The table of the old image stays where it is. -/
theorem Accounts.exec (hpid : kernel.scheduler.currentPids cpu = pid) {answer : Permission.Answer}
    {result : Bool × Kernel} (hexec : exec mmfr0 vdso kernel cpu program answer = some result) :
    Accounts mmfr0 vdso pid before root heap result.2 := by
  subst hpid
  obtain ⟨roots, stock, hroot, hbooked, hroots, hperm⟩ := h
  have hloads := fun file => loadElf_booked hvdso hbooked file program.argv program.envp
    program.random program.stackRandom
  cases executed_of_exec hexec with
  | refused => exact ⟨roots, stock, hroot, hbooked, hroots, hperm⟩
  | stopped hload => exact ⟨roots, stock, hroot, (hloads _).of_error hload, hroots, hperm⟩
  | @installed _ image _ _ _ _ _ _ hload =>
    refine ⟨insert image.pageTable roots, stock, mem_insert_of_mem _ hroot,
      ((hloads _).of_ok hload).2, fun table htable => ?_, hperm⟩
    rw [tableOf_updateProcess_self _
      (installImage_applySets_pageTable image [] _) htable]
    exact mem_insert _ _

/-! ## The life of a process -/

theorem Accounts.handle (halone : ActsAlone pid kernel event)
    (hprovident : Provident mmfr0 vdso files kernel event)
    (hhandle : handle mmfr0 vdso files kernel event = some kernel') :
    Accounts mmfr0 vdso pid before root (heap ++ kernel.heapFrame event) kernel' := by
  cases event with
  | act action =>
    change step mmfr0 files kernel action = some kernel' at hhandle
    cases action with
    | take content => exact h.take hhandle
    | fork cpu => exact halone.elim
    | dispatch cpu target =>
      obtain ⟨_, hswitch, rfl⟩ := map_eq_some_iff.mp hhandle
      simp only [heapFrame, append_nil]
      refine h.keep ?_ fun _ _ _ hbooked => hbooked
      rw [tableOf_eq_view, view_switchTo (fun _ _ => rfl) hswitch,
        tableOf_eq_view]
    | pageFault cpu faultAddress iss isDataAbort =>
      cases hhandle
      simp only [heapFrame, append_nil]
      exact h.pageFault halone hprovident
    | munmap cpu addr pages pageSize =>
      cases hhandle
      simp only [heapFrame, append_nil]
      exact h.munmap halone hprovident
    | store cpu address index word =>
      simp only [heapFrame, append_nil]
      exact h.store halone hhandle
  | deepFork | cloneThread | spawn => exact halone.elim
  | exec cpu program answer =>
    obtain ⟨_, hexec, rfl⟩ := map_eq_some_iff.mp hhandle
    simp only [heapFrame, append_nil]
    exact h.exec hvdso halone hexec
  | mmap cpu mmapNextVa pages backing =>
    cases hhandle
    simp only [heapFrame, append_nil]
    exact h.mmap cpu mmapNextVa pages backing

end

theorem Accounts.run (hvdso : VdsoReserved mmfr0 vdso.pages vdso) (events : List Event) :
    ∀ {kernel : Kernel} {heap : List Word}, Accounts mmfr0 vdso pid before root heap kernel →
      Along (Kernel.handle mmfr0 vdso files) (ActsAlone pid) kernel events →
      Along (Kernel.handle mmfr0 vdso files) (Provident mmfr0 vdso files) kernel events →
      run (Kernel.handle mmfr0 vdso files) kernel events = some kernel' →
      Accounts mmfr0 vdso pid before root (heap ++ heapFrames mmfr0 vdso files kernel events)
        kernel' := by
  induction events with
  | nil =>
    intro kernel heap h _ _ hrun
    cases hrun
    rw [heapFrames, append_nil]
    exact h
  | cons event events ih =>
    intro _ _ h halone hprovident hrun
    obtain ⟨_, hhandle, hrest⟩ := run_cons_eq_some hrun
    rw [heapFrames, hhandle, ← append_assoc]
    exact ih (h.handle hvdso halone.head hprovident.head hhandle) (halone.tail hhandle)
      (hprovident.tail hhandle) hrest

/-! ## From creation to the end -/

theorem load_of_spawn
    (hspawn : spawn mmfr0 vdso kernel cpu program capable = some (some pid, created)) :
    ∃ file image, load mmfr0 vdso kernel.memory program file = .ok (image, created.memory) ∧
      ∀ table, created.scheduler.tableOf pid = some table → table = image.pageTable := by
  obtain _ | _ | _ | ⟨_, hload⟩ := spawned_of_spawn hspawn
  refine ⟨_, _, hload, fun table htable => ?_⟩
  rw [tableOf_eq_view, view_makeReady (fun _ _ => rfl),
    ← tableOf_eq_view] at htable
  exact tableOf_updateProcess_self _
    (fun process => installImage_applySets_pageTable _ _ _ process) htable

/-- The books of a process that has just been created. -/
theorem accounts_of_spawn (hvdso : VdsoReserved mmfr0 vdso.pages vdso)
    (hshield : Shielded mmfr0 (fun _ => True) vdso.pages kernel.memory ∅ before)
    (hspawn : spawn mmfr0 vdso kernel cpu program capable = some (some pid, created)) :
    ∃ root, Accounts mmfr0 vdso pid before root [] created := by
  obtain ⟨file, image, hload, htable⟩ := load_of_spawn hspawn
  have hloaded := loadElf_booked hvdso ⟨before, Ledger.ofFreeList hshield⟩ file program.argv
    program.envp program.random program.stackRandom
  obtain ⟨hstock, free, hledger⟩ := hloaded.of_ok hload
  have hroot : image.pageTable ∈ insert image.pageTable (∅ : Set Word) := mem_insert _ _
  have htree : IsTable mmfr0 created.memory (insert image.pageTable ∅) image.pageTable :=
    ⟨image.pageTable, hroot, [], by simp, rfl⟩
  refine ⟨image.pageTable, _, before.erase image.pageTable, hroot, ⟨free, hledger.strike ?_ ?_⟩,
    fun table hpid => htable table hpid ▸ hroot, ?_⟩
  · exact hledger.shielded.owned.tables _ htree
  · exact fun hmapped => (hledger.shielded.owned.leaves _ hmapped).2 htree
  · exact perm_cons_erase hstock

/-- The first page table is not free, and neither are as many frames as before. -/
theorem Accounts.not_returned (hbefore : Owned mmfr0 memory roots before)
    (h : Accounts mmfr0 vdso pid before root heap kernel) :
    (memory.Listed root ∧ root ∉ heap ∧ ¬ kernel.memory.Listed root) ∧
      kernel.memory.freePageCount + heap.length < memory.freePageCount := by
  obtain ⟨_, stock, hroot, ⟨_, hledger⟩, -, hperm⟩ := h
  have howned := hledger.shielded.owned
  have hnodup : (root :: heap ++ stock).Nodup := hperm.nodup_iff.mp hbefore.nodup
  rw [cons_append, nodup_cons] at hnodup
  refine ⟨⟨?_, fun hmem => hnodup.1 (mem_append_left _ hmem), ?_⟩, ?_⟩
  · rw [hbefore.listed_iff, hperm.mem_iff]
    exact mem_cons_self
  · rw [howned.listed_iff]
    exact howned.tables root ⟨root, hroot, [], by simp, rfl⟩
  have hlen := hperm.length_eq
  have hcount := hledger.count_le
  rw [hbefore.count, hlen]
  simp only [length_cons, length_append]
  omega

theorem run_schedule_memory (actions : List Scheduler.Action) :
    ∀ {kernel : Kernel}, run schedule kernel actions = some kernel' →
      kernel'.memory = kernel.memory := by
  induction actions with
  | nil =>
    intro kernel h
    cases h
    rfl
  | cons action actions ih =>
    intro _ h
    obtain ⟨_, hnext, hrest⟩ := run_cons_eq_some h
    obtain ⟨_, -, rfl⟩ := map_eq_some_iff.mp hnext
    exact (ih hrest :)

/-- The frames of a process are back after it has exited and been reaped exactly if they
were back before: whatever the scheduler does gives none back.  And they were not: where
the free list was sound and the steps of the process were provident, its first page table
is not free and the free count is lower than before it was created. -/
theorem frames_returned_iff (mmfr0 : Word) (vdso : Vdso) (files : Nat → Word → Page)
    (kernel created left final : Kernel) (cpu : Cpu) (program : Program) (capable : Bool)
    (pid : Pid) (events : List Event) (actions : List Scheduler.Action)
    (hvdso : VdsoReserved mmfr0 vdso.pages vdso)
    (hspawn : spawn mmfr0 vdso kernel cpu program capable = some (some pid, created))
    (halone : Along (handle mmfr0 vdso files) (ActsAlone pid) created events)
    (hlife : run (handle mmfr0 vdso files) created events = some left)
    (hend : run schedule left actions = some final) :
    (Returned kernel.memory final.memory (heapFrames mmfr0 vdso files created events) ↔
        Returned kernel.memory left.memory (heapFrames mmfr0 vdso files created events)) ∧
      (SoundFreeList mmfr0 vdso kernel.memory →
        Along (handle mmfr0 vdso files) (Provident mmfr0 vdso files) created events →
        ¬ Returned kernel.memory final.memory (heapFrames mmfr0 vdso files created events) ∧
          final.memory.freePageCount + (heapFrames mmfr0 vdso files created events).length <
            kernel.memory.freePageCount) := by
  rw [run_schedule_memory actions hend]
  refine ⟨Iff.rfl, fun hsound hprovident => ?_⟩
  obtain ⟨_, howned, hvdsoFree⟩ := hsound
  obtain ⟨root, hcreated⟩ := accounts_of_spawn hvdso
    ⟨howned, fun _ _ _ => trivial, hvdsoFree, fun _ _ => not_isTable_empty⟩ hspawn
  have hleft := hcreated.run hvdso events halone hprovident hlife
  obtain ⟨⟨hlisted, hheap, hgone⟩, hcount⟩ := hleft.not_returned howned
  exact ⟨fun hreturned => hgone (hreturned.frames root hlisted hheap), hcount⟩

/-! ## From boot -/

/-- A check of what a process does. -/
def providentCheck (mmfr0 : Word) (vdso : Vdso) (kernel : Kernel) : Event → Bool
  | .act (.munmap cpu addr pages pageSize) =>
    (kernel.scheduler.tableOf (kernel.scheduler.currentPids cpu)).all fun root =>
      (rangeAddresses addr pages pageSize).all fun va =>
        (translate mmfr0 kernel.memory root va).all fun page =>
          page ≠ vdso.code && page ≠ vdso.data
  | .act action => quiet mmfr0 kernel action
  | _ => true

theorem provident_of_check (h : providentCheck mmfr0 vdso kernel event = true) :
    Provident mmfr0 vdso files kernel event := by
  cases event with
  | act action =>
    cases action with
    | pageFault cpu faultAddress iss isDataAbort =>
      have hquiet : quiet mmfr0 kernel (.pageFault cpu faultAddress iss isDataAbort) = true := h
      exact careful_of_quiet hquiet
    | munmap cpu addr pages pageSize =>
      intro _ _ hproc hroot _ va hva _ hpage hmem
      have hleaf := all_eq_true.mp (all_of_current hproc hroot h) va hva
      rw [hpage, all_some, Bool.and_eq_true, decide_eq_true_eq, decide_eq_true_eq] at hleaf
      rcases hmem with rfl | rfl
      · exact hleaf.1 rfl
      · exact hleaf.2 rfl
    | fork | dispatch | store | take => trivial
  | deepFork | cloneThread | spawn | exec | mmap => trivial

instance (pid : Pid) (kernel : Kernel) : (event : Event) → Decidable (ActsAlone pid kernel event)
  | .act (.dispatch ..) | .act (.take _) => inferInstanceAs (Decidable True)
  | .act (.pageFault cpu ..) | .act (.munmap cpu ..) | .act (.store cpu ..) | .exec cpu ..
  | .mmap cpu .. => inferInstanceAs (Decidable (kernel.scheduler.currentPids cpu = pid))
  | .act (.fork _) | .deepFork _ | .cloneThread _ | .spawn .. => inferInstanceAs (Decidable False)

/-- The process maps a page, touches it, unmaps it and runs another program. -/
def lifeRun : List Event :=
  [.act (.dispatch bootCpu ⟨1, 1⟩), .mmap bootCpu 0x200000000#64 1 .anonymous,
   .act (.pageFault bootCpu 0x200000000#64 0x07#32 true),
   .act (.munmap bootCpu 0x200000000#64 1 0x1000#64), .exec bootCpu bootProgram .unavailable]

/-- It exits and is reaped. -/
def endRun : List Scheduler.Action := [.exit bootCpu 0, .reap Pid.idle (some ⟨1, 1⟩)]

theorem bootKernel_sound : SoundFreeList Loader.sampleMmfr0 sampleVdso bootKernel.memory := by
  obtain ⟨free, hshield⟩ := bootKernel_guards.2
  exact ⟨free, hshield.owned.mono (empty_subset _), hshield.notFree⟩

set_option maxRecDepth 100000 in
/-- It leaves fewer free frames than there were at boot. -/
theorem frames_returned_boot :
    ∃ created left final, spawn Loader.sampleMmfr0 sampleVdso bootKernel bootCpu bootProgram true =
        some (some ⟨1, 1⟩, created) ∧
      run (handle Loader.sampleMmfr0 sampleVdso forgedFile) created lifeRun = some left ∧
      run schedule left endRun = some final ∧
      final.memory.freePageCount < bootKernel.memory.freePageCount := by
  have hview : (spawn Loader.sampleMmfr0 sampleVdso bootKernel bootCpu bootProgram
      true).bind (fun result =>
        (run (handle Loader.sampleMmfr0 sampleVdso forgedFile) result.2 lifeRun).bind
          fun left => (run schedule left endRun).map fun _ =>
            (result.1, decide (Along (handle Loader.sampleMmfr0 sampleVdso forgedFile)
                (ActsAlone ⟨1, 1⟩) result.2 lifeRun),
              decide (Along (handle Loader.sampleMmfr0 sampleVdso forgedFile)
                (fun kernel event => providentCheck Loader.sampleMmfr0 sampleVdso kernel
                  event = true) result.2 lifeRun))) =
      some (some ⟨1, 1⟩, true, true) := by
    decide +kernel
  obtain ⟨⟨_, created⟩, hspawn, hcreated⟩ := bind_eq_some_iff.mp hview
  obtain ⟨left, hlife, hleft⟩ := bind_eq_some_iff.mp hcreated
  obtain ⟨final, hend, hfinal⟩ := map_eq_some_iff.mp hleft
  simp only [Prod.mk.injEq, decide_eq_true_eq] at hfinal
  obtain ⟨rfl, halone, hcheck⟩ := hfinal
  have hcount := ((frames_returned_iff _ _ _ bootKernel created left final bootCpu bootProgram true
    ⟨1, 1⟩ lifeRun endRun bootKernel_guards.1 hspawn halone hlife hend).2 bootKernel_sound
    (hcheck.imp fun _ _ => provident_of_check)).2
  exact ⟨created, left, final, hspawn, hlife, hend,
    Nat.lt_of_le_of_lt (Nat.le_add_right _ _) hcount⟩

set_option maxRecDepth 100000 in
/-- A process is created, exits and is reaped.  Of the forty frames that were free, eleven
are not free again. -/
theorem reaped_process_keeps_frames :
    ∃ created left final, spawn Loader.sampleMmfr0 sampleVdso bootKernel bootCpu bootProgram true =
        some (some ⟨1, 1⟩, created) ∧
      run (handle Loader.sampleMmfr0 sampleVdso forgedFile) created
        [.act (.dispatch bootCpu ⟨1, 1⟩)] = some left ∧
      run schedule left endRun = some final ∧ final.scheduler.pool.get ⟨1, 1⟩ = none ∧
      bootKernel.memory.freePageCount = 40 ∧ final.memory.freePageCount = 29 ∧
      ¬ Returned bootKernel.memory final.memory [] := by
  have hview : (spawn Loader.sampleMmfr0 sampleVdso bootKernel bootCpu bootProgram
      true).bind (fun result =>
        (run (handle Loader.sampleMmfr0 sampleVdso forgedFile) result.2
          [.act (.dispatch bootCpu ⟨1, 1⟩)]).bind fun left =>
            (run schedule left endRun).map fun final =>
              (result.1, (final.scheduler.pool.get ⟨1, 1⟩).isNone, final.memory.freePageCount)) =
      some (some ⟨1, 1⟩, true, 29) := by
    decide +kernel
  have hboot : bootKernel.memory.freePageCount = 40 := by decide +kernel
  obtain ⟨⟨_, created⟩, hspawn, hcreated⟩ := bind_eq_some_iff.mp hview
  obtain ⟨left, hlife, hleft⟩ := bind_eq_some_iff.mp hcreated
  obtain ⟨final, hend, hfinal⟩ := map_eq_some_iff.mp hleft
  simp only [Prod.mk.injEq, isNone_iff_eq_none] at hfinal
  obtain ⟨rfl, hgone, hcount⟩ := hfinal
  refine ⟨created, left, final, hspawn, hlife, hend, hgone, hboot, hcount, fun hreturned => ?_⟩
  have hequal := hreturned.count
  rw [length_nil] at hequal
  omega

end Kernel
end Bazzulto
