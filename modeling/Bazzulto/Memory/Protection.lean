/-
  Memory/Protection.lean --- no page of a process is both written and executed.

  A system of Memory/Kernel.lean's steps, `deep_copy_user`, threads, programs loaded
  by `sys_spawn` and `sys_exec` (Permission/Creation.lean) and `sys_mmap`.  Every
  descriptor that the kernel writes is read-only or not executable, for EL0, so the
  property holds as long as nothing else reaches a page table.  That takes what
  Memory/Isolation.lean asks of fork, page faults and munmap.

  Without it a page that fork has shared is freed twice, and is a page table and a page
  of a file at once.
-/
import Bazzulto.Loader.Shield
import Bazzulto.Memory.Isolation
import Bazzulto.Memory.Layout
import Bazzulto.Permission.Creation

set_option autoImplicit false

namespace Bazzulto

open Foundation Foundation.Radix Loader Memory List Option Scheduler Process PhysicalMemory Permission

namespace Memory

/-! ## Descriptors -/

/-- EL0 may write: AP is 01. -/
def Writable (entry : Word) : Prop := entry &&& pageAccessBits = pageUserReadWrite

/-- EL0 may execute: UXN is clear. -/
def Executable (entry : Word) : Prop := entry &&& pageUxn = 0#64

/-- A descriptor that is valid, writable and executable is what must not be. -/
def Secure (entry : Word) : Prop := ¬ (Valid entry ∧ Writable entry ∧ Executable entry)

variable (mmfr0 : Word)

theorem protection_and_paMask : pageAccessBits &&& paMask mmfr0 = 0#64 ∧
    pageUxn &&& paMask mmfr0 = 0#64 ∧ pageValid &&& paMask mmfr0 = 0#64 :=
  ⟨and_paMask mmfr0 (by decide), and_paMask mmfr0 (by decide), and_paMask mmfr0 (by decide)⟩

theorem leafGood_of_readOnly {flags : Word} (h : ¬ Writable flags) :
    LeafGood mmfr0 Secure flags := by
  rintro _ hpage ⟨-, hwritable, -⟩
  refine h ?_
  rwa [Writable, flags_or mmfr0 hpage (protection_and_paMask mmfr0).1] at hwritable

theorem leafGood_of_noExecute {flags : Word} (h : ¬ Executable flags) :
    LeafGood mmfr0 Secure flags := by
  rintro _ hpage ⟨-, -, hexecutable⟩
  refine h ?_
  rwa [Executable, flags_or mmfr0 hpage (protection_and_paMask mmfr0).2.1] at hexecutable

theorem imageGood_secure : ImageGood mmfr0 Secure where
  code := leafGood_of_readOnly mmfr0 (by unfold Writable; decide)
  data := leafGood_of_noExecute mmfr0 (by unfold Executable; decide)
  readOnly := leafGood_of_readOnly mmfr0 (by unfold Writable; decide)

theorem cowEntry_not_writable (entry : Word) : ¬ Writable (cowEntry entry) := by
  unfold cowEntry
  split
  · intro h
    have hbit := congrArg (fun word => word[7]) h
    simp [pageAccessBits, pageUserReadOnly, pageUserReadWrite] at hbit
  · assumption

theorem moved_and {page bits : Word} (hpage : page &&& paMask mmfr0 = page)
    (hbits : bits &&& paMask mmfr0 = 0#64) (entry : Word) :
    (page ||| (entry &&& ~~~paMask mmfr0)) &&& bits = entry &&& bits := by
  have hout : ~~~paMask mmfr0 &&& bits = bits := by
    ext i hi
    have hbit := congrArg (fun word => word[i]) hbits
    simp only [BitVec.getElem_and, BitVec.getElem_not]
    cases hmask : (paMask mmfr0)[i]
    · simp
    · simpa [hmask] using hbit
  rw [flags_or mmfr0 hpage hbits, BitVec.and_assoc, hout]

/-- The code for page tables keeps descriptors secure. -/
theorem durable_secure : Durable mmfr0 Secure where
  blank := fun h => h.1 (by decide)
  table := by
    rintro _ htable ⟨-, hwritable, -⟩
    rw [Writable, tableEntry, BitVec.or_assoc,
      flags_or mmfr0 htable (protection_and_paMask mmfr0).1] at hwritable
    cases hwritable
  shared := fun _ h => cowEntry_not_writable _ h.2.1
  moved := by
    intro _ _ hpage hentry hmoved
    obtain ⟨haccess, huxn, hvalid⟩ := protection_and_paMask mmfr0
    rw [Valid, Writable, Executable, moved_and mmfr0 hpage hvalid,
      moved_and mmfr0 hpage haccess, moved_and mmfr0 hpage huxn] at hmoved
    exact hentry hmoved

/-- The descriptor of a user page: the word of the last table on the path of the
address, if the path is there. -/
def leafEntry (memory : PhysicalMemory) (root address : Word) : Option Word :=
  (follow (child mmfr0 memory) root (tablePath address)).map fun table =>
    memory.pages table (level3Index address)

end Memory

/-! ## Regions -/

namespace Process

/-- `mmap_regions.insert`, a map in the order of its keys. -/
def insertRegion (region : MmapRegion) (process : Process) : Process :=
  { process with
    mmapRegions := (process.mmapRegions.filter fun entry => entry.1 ≠ region.base).orderedInsert
      (fun first second => first.1 ≤ second.1) (region.base, region) }

theorem insertRegion_pid (region : MmapRegion) (process : Process) :
    (process.insertRegion region).pid = process.pid := rfl

end Process

namespace Kernel

/-- The end of `sys_mmap`.  The bump pointer is kept in the record of
Memory/Layout.lean, so its value is an argument here. -/
def mmapForCurrent (kernel : Kernel) (cpu : Cpu) (mmapNextVa : Word) (pages : Nat)
    (backing : MmapBacking) : Kernel :=
  match kernel.scheduler.currentProcess cpu with
  | none => kernel
  | some process =>
    if Layout.mmapMaxRegions ≤ process.mmapRegions.length then kernel
    else
      { kernel with
        scheduler := kernel.scheduler.updateProcess process.pid
          (insertRegion ⟨mmapNextVa, Layout.pagesLength pages, true, backing⟩)
          (insertRegion_pid _) }

/-! ## Programs -/

/-- `read_user_string_array_into` reads at most 64 arguments and 128 variables;
`sys_spawn` passes no arguments, and the environment of a process, which comes from
there. -/
def Program.bounded (program : Program) : Program :=
  { program with argv := program.argv.take 64, envp := program.envp.take 128 }

/-! ## Events -/

/-- What may happen to address spaces. -/
inductive Event where
  | act (action : Action)
  | deepFork (cpu : Cpu)
  | cloneThread (cpu : Cpu)
  | spawn (cpu : Cpu) (program : Program) (capable : Bool)
  | exec (cpu : Cpu) (program : Program) (answer : Answer)
  | mmap (cpu : Cpu) (mmapNextVa : Word) (pages : Nat) (backing : MmapBacking)

section

variable (mmfr0 : Word) (vdso : Vdso) (files : Nat → Word → Page)

/-- One event; `none` where it cannot happen or the kernel panics. -/
def handle (kernel : Kernel) : Event → Option Kernel
  | .act action => step mmfr0 files kernel action
  | .deepFork cpu => some (deepFork mmfr0 kernel cpu).2
  | .cloneThread cpu => some (kernel.cloneThread cpu).2
  | .spawn cpu program capable =>
    (spawn mmfr0 vdso kernel cpu program.bounded capable).map Prod.snd
  | .exec cpu program answer =>
    (exec mmfr0 vdso kernel cpu program.bounded answer).map Prod.snd
  | .mmap cpu mmapNextVa pages backing =>
    some (kernel.mmapForCurrent cpu mmapNextVa pages backing)

/-- What an event has to meet.  Only fork, page faults and munmap are conditional;
munmap must also leave the pages of the vDSO, which are not the allocator's. -/
def Prudent (kernel : Kernel) : Event → Prop
  | .act action => Careful mmfr0 files kernel action ∧ Spares mmfr0 vdso.pages kernel action
  | _ => True

/-- No user page of a process is both writable and executable. -/
def WriteXorExecute (kernel : Kernel) : Prop :=
  ∀ pid root address entry, kernel.scheduler.tableOf pid = some root →
    leafEntry mmfr0 kernel.memory root address = some entry →
    ¬ (Valid entry ∧ Writable entry ∧ Executable entry)

end

variable {mmfr0 : Word} {Good : Word → Prop} {reserved : Set Word} {vdso : Vdso}
  {files : Nat → Word → Page} {kernel kernel' : Kernel}

theorem Guards.writeXorExecute (h : Guards mmfr0 Secure reserved kernel) :
    WriteXorExecute mmfr0 kernel := by
  intro pid root address _ htable hentry
  obtain ⟨_, hshield⟩ := h
  obtain ⟨table, hfollow, rfl⟩ := map_eq_some_iff.mp hentry
  exact hshield.words table ⟨root, ⟨pid, htable⟩, tablePath address, by simp [tablePath], hfollow⟩
    (level3Index address)

/-! ## Programs keep the address spaces apart -/

theorem tables_updateProcess_subset {scheduler : Scheduler} {pid : Pid} {root : Word}
    {change : Process → Process} (hpid : ∀ process, (change process).pid = process.pid)
    (hchange : ∀ process, (change process).pageTable = some root) :
    (scheduler.updateProcess pid change hpid).tables ⊆ insert root scheduler.tables := by
  rintro _ ⟨owner, howner⟩
  rw [tableOf_eq_view, view_updateProcess] at howner
  split at howner
  · left
    obtain ⟨process, -, hroot⟩ :=
      map_eq_some_iff.mp (join_eq_some_iff.mp howner)
    exact some.inj (hroot.symm.trans (hchange process))
  · exact .inr ⟨owner, by rwa [tableOf_eq_view]⟩

theorem installImage_applySets_pageTable (image : LoadedImage)
    (regions : List (Word × MmapRegion)) (decision : Option Sets) (process : Process) :
    ((process.installImage image regions).applySets decision).pageTable = some image.pageTable := by
  cases decision <;> rfl

section

variable (hgood : Linkable mmfr0 Good) (himage : ImageGood mmfr0 Good)
  (hvdso : VdsoReserved mmfr0 reserved vdso)
include hgood himage hvdso

theorem Guards.spawn (h : Guards mmfr0 Good reserved kernel) {cpu : Cpu} {program : Program}
    {capable : Bool} {result : Option Pid × Kernel}
    (hspawn : spawn mmfr0 vdso kernel cpu program capable = some result) :
    Guards mmfr0 Good reserved result.2 := by
  have hloads := fun file => loadElf_shielded hgood himage hvdso h file program.argv program.envp
    program.random program.stackRandom
  cases spawned_of_spawn hspawn with
  | unread => exact h
  | stopped hload => exact (hloads _).of_error hload
  | dropped hload =>
    obtain ⟨free, hshield⟩ := (hloads _).of_ok hload
    exact ⟨free, hshield.mono (Set.subset_insert _ _)⟩
  | created _ hload _ hcreate =>
    -- The child has the new tree, the others have what they had.
    obtain ⟨free, hshield⟩ := (hloads _).of_ok hload
    refine ⟨free, hshield.mono ?_⟩
    rw [tables_makeReady, ← tables_createProcess hcreate]
    exact tables_updateProcess_subset _ fun process =>
      installImage_applySets_pageTable _ _ _ process

theorem Guards.exec (h : Guards mmfr0 Good reserved kernel) {cpu : Cpu} {program : Program}
    {answer : Answer} {result : Bool × Kernel}
    (hexec : exec mmfr0 vdso kernel cpu program answer = some result) :
    Guards mmfr0 Good reserved result.2 := by
  have hloads := fun file => loadElf_shielded hgood himage hvdso h file program.argv program.envp
    program.random program.stackRandom
  cases executed_of_exec hexec with
  | refused => exact h
  | stopped hload => exact (hloads _).of_error hload
  | installed _ hload =>
    -- The old tree of the process is dropped, its pages leak.
    obtain ⟨free, hshield⟩ := (hloads _).of_ok hload
    exact ⟨free, hshield.mono
      (tables_updateProcess_subset _ (installImage_applySets_pageTable _ _ _))⟩

end

/-- A thread has no page table of its own. -/
theorem Guards.cloneThread (h : Guards mmfr0 Good reserved kernel) (cpu : Cpu) :
    Guards mmfr0 Good reserved (kernel.cloneThread cpu).2 := by
  unfold Kernel.cloneThread
  dsimp only
  split
  · exact h
  split
  · exact h
  rename_i parent _ _ childPid created hcreate
  obtain ⟨free, _⟩ := h
  refine ⟨free, ?_⟩
  rwa [tables_makeReady,
    tables_updateProcess _ _ parent.inheritThread_pid (fun _ => rfl),
    tables_createProcess hcreate]

/-! ## Runs -/

/-- A prudent event keeps every table secure. -/
theorem Guards.handle (hvdso : VdsoReserved mmfr0 vdso.pages vdso) {event : Event}
    (h : Guards mmfr0 Secure vdso.pages kernel) (hprudent : Prudent mmfr0 vdso files kernel event)
    (hhandle : handle mmfr0 vdso files kernel event = some kernel') :
    Guards mmfr0 Secure vdso.pages kernel' := by
  have hgood := durable_secure mmfr0
  have himage := imageGood_secure mmfr0
  cases event with
  | act action => exact h.step hgood himage.data hprudent.1 hprudent.2 hhandle
  | deepFork cpu =>
    cases hhandle
    exact h.deepFork hgood cpu
  | cloneThread cpu =>
    cases hhandle
    exact h.cloneThread cpu
  | spawn cpu program capable =>
    obtain ⟨result, hspawn, rfl⟩ := map_eq_some_iff.mp hhandle
    exact h.spawn hgood.toLinkable himage hvdso hspawn
  | exec cpu program answer =>
    obtain ⟨_, hexec, rfl⟩ := map_eq_some_iff.mp hhandle
    exact h.exec hgood.toLinkable himage hvdso hexec
  | mmap cpu mmapNextVa pages backing =>
    cases hhandle
    unfold Kernel.mmapForCurrent
    split
    · exact h
    split
    · exact h
    obtain ⟨free, _⟩ := h
    refine ⟨free, ?_⟩
    rwa [tables_updateProcess _ _ (insertRegion_pid _) (fun _ => rfl)]

theorem tables_init : init.tables = ∅ := by
  refine Set.eq_empty_of_forall_notMem ?_
  rintro _ ⟨_, hpid⟩
  obtain ⟨_, hget, hroot⟩ := bind_eq_some_iff.mp hpid
  have hmem := mem_of_getElem? (Pool.getElem?_of_get hget)
  have hslots : init.pool.slots =
      [some { new Pid.idle none with state := .running }] := rfl
  rw [hslots, mem_singleton, some.injEq] at hmem
  rw [hmem] at hroot
  cases hroot

/-- At boot there is no page table. -/
theorem Guards.init {usable : List Word} (hnodup : usable.Nodup)
    (hframed : ∀ page ∈ usable, page &&& paMask mmfr0 = page)
    (hreserved : ∀ page ∈ reserved, page ∉ usable) (content : Word → Page) :
    Guards mmfr0 Good reserved ⟨init, init content usable⟩ := by
  refine ⟨usable.reverse, ?_⟩
  rw [tables_init]
  refine ⟨Owned.init mmfr0 content hnodup hframed, ?_, ?_, ?_⟩
  · rintro _ ⟨root, hroot, -⟩
    exact hroot.elim
  · intro page hmem hin
    exact hreserved page hmem (mem_reverse.mp hin)
  · rintro _ - ⟨_, hroot, -⟩
    exact hroot.elim

/-- In every run of prudent events no page of a process is both writable and
executable. -/
theorem write_xor_execute_of_prudent_run (mmfr0 : Word) (vdso : Vdso)
    (files : Nat → Word → Page) (start final : Kernel) (events : List Event)
    (hvdso : VdsoReserved mmfr0 vdso.pages vdso) (hstart : Guards mmfr0 Secure vdso.pages start)
    (hprudent : Along (handle mmfr0 vdso files) (Prudent mmfr0 vdso files) start events)
    (hrun : run (handle mmfr0 vdso files) start events = some final) :
    WriteXorExecute mmfr0 final :=
  (run_invariant (fun _ _ _ hguards hprudent hhandle => hguards.handle hvdso hprudent hhandle)
    events start final hstart hprudent hrun).writeXorExecute

/-! ## From boot -/

/-- Forty usable pages, the lowest freed last. -/
def bootPages : List Word := (List.range 40).map fun i => BitVec.ofNat 64 (40 - i) <<< 12

/-- The kernel at boot. -/
def bootKernel : Kernel := ⟨init, init (fun _ => zeroPage) bootPages⟩

/-- A program of one segment. -/
def bootProgram : Program :=
  ⟨"/system/bin/bzinit".toList, some (sampleFile 0x400000), [], [], 0, 0⟩

theorem bootKernel_guards :
    VdsoReserved Loader.sampleMmfr0 sampleVdso.pages sampleVdso ∧
      Guards Loader.sampleMmfr0 Secure sampleVdso.pages bootKernel := by
  have hframed : bootPages.all (fun page => page &&& paMask Loader.sampleMmfr0 = page) = true := by
    decide +kernel
  refine ⟨⟨.inl rfl, by decide +kernel, .inr rfl, by decide +kernel⟩, ?_⟩
  refine Guards.init (by decide +kernel)
    (fun page hmem => of_decide_eq_true (all_eq_true.mp hframed page hmem)) ?_ _
  rintro _ (rfl | rfl)
  · decide +kernel
  · decide +kernel

/-- The first word of every mapped file is a descriptor: it points to the page at
0xc000 and is valid, writable and executable. -/
def forgedFile : Nat → Word → Page := fun _ _ index =>
  if index.val = 0 then 0xc043#64 else 0#64

/-- A process forks while it has a page mapped, and parent and child unmap the page,
so it is freed twice.  In between it becomes the page table of a new process.  Then it
is filled with a page of a file. -/
def forgingRun : List Event :=
  [.spawn bootCpu bootProgram true, .act (.dispatch bootCpu ⟨1, 1⟩),
   .mmap bootCpu 0x200000000#64 1 .anonymous, .mmap bootCpu 0x200001000#64 1 (.file 0 0),
   .act (.pageFault bootCpu 0x200000000#64 0x07#32 true), .act (.fork bootCpu),
   .act (.munmap bootCpu 0x200000000#64 1 0x1000#64), .spawn bootCpu bootProgram true,
   .act (.dispatch bootCpu ⟨2, 1⟩), .act (.munmap bootCpu 0x200000000#64 1 0x1000#64),
   .act (.pageFault bootCpu 0x200001000#64 0x07#32 true)]

set_option maxRecDepth 100000 in
/-- The new process has a page that it can write and execute. -/
theorem forged_page_table :
    VdsoReserved Loader.sampleMmfr0 sampleVdso.pages sampleVdso ∧
      Guards Loader.sampleMmfr0 Secure sampleVdso.pages bootKernel ∧
      ∃ final, run (handle Loader.sampleMmfr0 sampleVdso forgedFile) bootKernel
          forgingRun = some final ∧
        ¬ WriteXorExecute Loader.sampleMmfr0 final := by
  refine ⟨bootKernel_guards.1, bootKernel_guards.2, ?_⟩
  have hview : (run (handle Loader.sampleMmfr0 sampleVdso forgedFile) bootKernel
      forgingRun).map (fun final => (final.scheduler.tableOf ⟨3, 1⟩,
        leafEntry Loader.sampleMmfr0 final.memory 0xc000#64 0#64)) =
      some (some 0xc000#64, some 0xc043#64) := by
    decide +kernel
  obtain ⟨final, hrun, hfinal⟩ := map_eq_some_iff.mp hview
  simp only [Prod.mk.injEq] at hfinal
  obtain ⟨htable, hleaf⟩ := hfinal
  refine ⟨final, hrun, fun hsecure => hsecure _ _ _ _ htable hleaf ⟨?_, ?_, ?_⟩⟩
  · decide
  · exact (by decide : 0xc043#64 &&& pageAccessBits = pageUserReadWrite)
  · exact (by decide : 0xc043#64 &&& pageUxn = 0#64)

/-- The check of a whole event. -/
def quietEvent (mmfr0 : Word) (kernel : Kernel) : Event → Bool
  | .act action => quiet mmfr0 kernel action
  | _ => true

theorem prudent_of_quietEvent {event : Event} (h : quietEvent mmfr0 kernel event = true) :
    Prudent mmfr0 vdso files kernel event := by
  cases event with
  | act action => exact ⟨careful_of_quiet h, spares_of_quiet h⟩
  | deepFork | cloneThread | spawn | exec | mmap => trivial

/-- A process maps memory and a file, touches the first, forks, writes to the shared page
and unmaps the second, which it has not touched. -/
def quietRun : List Event :=
  [.spawn bootCpu bootProgram true, .act (.dispatch bootCpu ⟨1, 1⟩),
   .mmap bootCpu 0x200000000#64 1 .anonymous, .mmap bootCpu 0x200001000#64 1 (.file 0 0),
   .act (.pageFault bootCpu 0x200000000#64 0x07#32 true), .act (.fork bootCpu),
   .act (.pageFault bootCpu 0x200000000#64 0x4F#32 true),
   .act (.munmap bootCpu 0x200001000#64 1 0x1000#64)]

set_option maxRecDepth 100000 in
theorem quietRun_prudent :
    Along (handle Loader.sampleMmfr0 sampleVdso forgedFile)
      (Prudent Loader.sampleMmfr0 sampleVdso forgedFile) bootKernel quietRun := by
  have hquiet : Along (handle Loader.sampleMmfr0 sampleVdso forgedFile)
      (fun kernel event => quietEvent Loader.sampleMmfr0 kernel event = true) bootKernel
      quietRun := by
    decide +kernel
  exact hquiet.imp fun _ _ => prudent_of_quietEvent

set_option maxRecDepth 100000 in
theorem write_xor_execute_quietRun :
    ∃ final, run (handle Loader.sampleMmfr0 sampleVdso forgedFile) bootKernel
        quietRun = some final ∧ WriteXorExecute Loader.sampleMmfr0 final := by
  have hruns : (run (handle Loader.sampleMmfr0 sampleVdso forgedFile) bootKernel
      quietRun).isSome = true := by
    decide +kernel
  obtain ⟨final, hrun⟩ := isSome_iff_exists.mp hruns
  exact ⟨final, hrun, write_xor_execute_of_prudent_run _ _ _ _ _ quietRun bootKernel_guards.1
    bootKernel_guards.2 quietRun_prudent hrun⟩

end Kernel
end Bazzulto
