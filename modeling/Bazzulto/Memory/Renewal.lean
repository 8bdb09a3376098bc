/-
  Memory/Renewal.lean --- what exec leaves of the image before.

  `sys_exec` (kernel/src/systemcalls/process.rs) gives the process a new page table and a
  list of regions with the new stack only.  It does not touch `cow_pages`, the signal
  dispositions, the alternate signal stack and the head of the robust futex list.  So
  nothing describes the old image exactly if there was nothing in these fields.  No leaf
  of a loaded image is copy-on-write, so an entry of `cow_pages` always is of the old one.
-/
import Bazzulto.Memory.Protection

set_option autoImplicit false

namespace Bazzulto

open Foundation Loader Memory List Option Scheduler Permission

namespace Memory

variable (mmfr0 : Word)

/-- The address has a leaf with `PAGE_COW` that maps the frame. -/
def CowLeaf (memory : PhysicalMemory) (root address frame : Word) : Prop :=
  ∃ entry, leafEntry mmfr0 memory root address = some entry ∧ Valid entry ∧
    entry &&& pageCow ≠ 0#64 ∧ entry &&& paMask mmfr0 = frame

/-- `PAGE_COW` is clear. -/
def CowClear (entry : Word) : Prop := entry &&& pageCow = 0#64

theorem pageCow_and_paMask : pageCow &&& paMask mmfr0 = 0#64 := and_paMask mmfr0 (by decide)

theorem linkable_cowClear : Linkable mmfr0 CowClear where
  blank := by unfold CowClear; decide
  table := by
    intro _ htable
    rw [CowClear, tableEntry, BitVec.or_assoc, flags_or mmfr0 htable (pageCow_and_paMask mmfr0)]
    decide

theorem leafGood_cowClear {flags : Word} (h : CowClear flags) : LeafGood mmfr0 CowClear flags := by
  intro _ hpage
  rw [CowClear, flags_or mmfr0 hpage (pageCow_and_paMask mmfr0)]
  exact h

theorem imageGood_cowClear : ImageGood mmfr0 CowClear where
  code := leafGood_cowClear mmfr0 (by unfold CowClear; decide)
  data := leafGood_cowClear mmfr0 (by unfold CowClear; decide)
  readOnly := leafGood_cowClear mmfr0 (by unfold CowClear; decide)

/-- The free list is one of pages, without the pages of the vDSO. -/
def SoundFreeList (vdso : Vdso) (memory : PhysicalMemory) : Prop :=
  ∃ free, Owned mmfr0 memory ∅ free ∧ ∀ page ∈ vdso.pages, page ∉ free

variable {mmfr0}

theorem not_isTable_empty {memory : PhysicalMemory} {table : Word} :
    ¬ IsTable mmfr0 memory ∅ table := by
  rintro ⟨_, hroot, -⟩
  exact hroot

end Memory

namespace Process

/-- Nothing in the record describes an address space other than that of the image. -/
structure Renewed (mmfr0 : Word) (memory : PhysicalMemory) (image : LoadedImage)
    (process : Process) : Prop where
  cowPages : ∀ entry ∈ process.cowPages, CowLeaf mmfr0 memory image.pageTable entry.1 entry.2
  regions : ∀ entry ∈ process.mmapRegions, image.stackDemandBase ≤ entry.2.base.toNat ∧
    entry.2.base.toNat + entry.2.length.toNat ≤ image.stackDemandTop
  handlers : ∀ signum va onStack, process.signalHandlers signum ≠ .handler va onStack
  stack : process.signalStack = none
  robust : process.robustListHead = 0#64

/-- The fields that exec leaves alone are empty: no shared pages, no handler, no
alternate stack and no robust list. -/
structure Bare (process : Process) : Prop where
  cowPages : process.cowPages = []
  handlers : ∀ signum va onStack, process.signalHandlers signum ≠ .handler va onStack
  stack : process.signalStack = none
  robust : process.robustListHead = 0#64

end Process

namespace Kernel

variable {mmfr0 : Word} {vdso : Vdso} {kernel kernel' : Kernel} {cpu : Cpu}
  {program : Program} {answer : Answer} {file : List UInt8} {image : LoadedImage}
  {memory : PhysicalMemory}

section

variable (hload : load mmfr0 vdso kernel.memory program file = .ok (image, memory))
include hload

theorem exec_eq_true (hfile : program.file = some file)
    (hexec : exec mmfr0 vdso kernel cpu program answer = some (true, kernel')) :
    ∃ decision, kernel' = ⟨kernel.scheduler.updateProcess (kernel.scheduler.currentPids cpu)
      (fun process => (process.installImage image []).applySets decision)
      (fun process => process.installImage_applySets_pid image _ decision), memory⟩ := by
  cases executed_of_exec hexec with
  | @installed _ _ _ _ _ _ decision hfile' hload' =>
    cases hfile.symm.trans hfile'
    cases hload.symm.trans hload'
    exact ⟨decision, rfl⟩

theorem stackDemand_bounds :
    image.stackDemandBase ≤ image.stackDemandTop ∧ image.stackDemandTop < 2 ^ 64 := by
  obtain ⟨_, hbase, htop⟩ := Layout.exists_loaded_of_loadElf hload
  rw [hbase, htop]
  constructor
  · exact Nat.sub_le _ _
  · unfold Layout.Loaded.stackDemandTop userStackTopBase
    omega

/-- No address of a loaded image has a leaf with `PAGE_COW`. -/
theorem not_cowLeaf_of_load (hvdso : VdsoReserved mmfr0 vdso.pages vdso)
    (hsound : SoundFreeList mmfr0 vdso kernel.memory) (address frame : Word) :
    ¬ CowLeaf mmfr0 memory image.pageTable address frame := by
  rintro ⟨_, hentry, -, hcow, -⟩
  obtain ⟨free, howned, hpages⟩ := hsound
  have hloaded := loadElf_shielded (linkable_cowClear mmfr0) (imageGood_cowClear mmfr0) hvdso
    ⟨free, howned, fun _ htable => absurd htable not_isTable_empty, hpages,
      fun _ _ => not_isTable_empty⟩
    file program.argv program.envp program.random program.stackRandom
  obtain ⟨_, hshield⟩ := hloaded.of_ok hload
  obtain ⟨table, hfollow, rfl⟩ := map_eq_some_iff.mp hentry
  exact hcow (hshield.words table ⟨image.pageTable, Set.mem_insert _ _, tablePath address,
    by simp [tablePath], hfollow⟩ (level3Index address))

variable (decision : Option Sets) (process : Process)
include decision process

/-- The one region of the new record is that of the stack. -/
theorem installImage_regions :
    ∀ entry ∈ ((process.installImage image []).applySets decision).mmapRegions,
      image.stackDemandBase ≤ entry.2.base.toNat ∧
        entry.2.base.toNat + entry.2.length.toNat ≤ image.stackDemandTop := by
  obtain ⟨_, _⟩ := stackDemand_bounds hload
  have hregions : ((process.installImage image []).applySets decision).mmapRegions =
      (process.installImage image []).mmapRegions := by
    cases decision <;> rfl
  intro _ hentry
  rw [hregions] at hentry
  rw [mem_singleton.mp hentry]
  rw [BitVec.toNat_sub, BitVec.toNat_ofNat, BitVec.toNat_ofNat]
  omega

/-- The record after exec describes no other address space, in terms of the one before. -/
theorem renewed_installImage_iff :
    ((process.installImage image []).applySets decision).Renewed mmfr0 memory image ↔
      (∀ entry ∈ process.cowPages, CowLeaf mmfr0 memory image.pageTable entry.1 entry.2) ∧
        (∀ signum va onStack, process.signalHandlers signum ≠ .handler va onStack) ∧
        process.signalStack = none ∧ process.robustListHead = 0#64 := by
  have hregions := installImage_regions hload decision process
  constructor
  · rintro ⟨hcow, -, hhandlers, hstack, hrobust⟩
    cases decision with
    | none | some => exact ⟨hcow, hhandlers, hstack, hrobust⟩
  · rintro ⟨hcow, hhandlers, hstack, hrobust⟩
    cases decision with
    | none | some => exact ⟨hcow, hregions, hhandlers, hstack, hrobust⟩

end

/-- A process that execs keeps nothing of its old image if it was bare.  Where the free
list is sound, it keeps something otherwise. -/
theorem exec_renews_iff_bare (mmfr0 : Word) (vdso : Vdso) (kernel kernel' : Kernel) (cpu : Cpu)
    (program : Program) (answer : Answer) (file : List UInt8) (image : LoadedImage)
    (memory : PhysicalMemory) (process : Process) (hvdso : VdsoReserved mmfr0 vdso.pages vdso)
    (hcurrent : kernel.scheduler.currentProcess cpu = some process)
    (hfile : program.file = some file)
    (hload : load mmfr0 vdso kernel.memory program file = .ok (image, memory))
    (hexec : exec mmfr0 vdso kernel cpu program answer = some (true, kernel')) :
    ∃ process', kernel'.scheduler.currentProcess cpu = some process' ∧
      process'.pageTable = some image.pageTable ∧
      (process.Bare → process'.Renewed mmfr0 kernel'.memory image) ∧
      (SoundFreeList mmfr0 vdso kernel.memory →
        (process'.Renewed mmfr0 kernel'.memory image ↔ process.Bare)) := by
  obtain ⟨decision, rfl⟩ := exec_eq_true hload hfile hexec
  have hif : process.Bare →
      ((process.installImage image []).applySets decision).Renewed mmfr0 memory image := by
    rintro ⟨hcow, hhandlers, hstack, hrobust⟩
    rw [renewed_installImage_iff hload]
    exact ⟨fun entry hentry => absurd (hcow ▸ hentry) not_mem_nil, hhandlers, hstack, hrobust⟩
  refine ⟨(process.installImage image []).applySets decision, ?_,
    installImage_applySets_pageTable image [] decision process, hif,
    fun hsound => ⟨fun hrenewed => ?_, hif⟩⟩
  · unfold currentProcess at hcurrent ⊢
    unfold updateProcess
    rw [Pool.get_modify, if_pos rfl, hcurrent, map_some]
  · obtain ⟨hcow, hhandlers, hstack, hrobust⟩ := (renewed_installImage_iff hload _ _).mp hrenewed
    refine ⟨eq_nil_iff_forall_not_mem.mpr fun entry hentry => ?_, hhandlers, hstack, hrobust⟩
    exact not_cowLeaf_of_load hload hvdso hsound entry.1 entry.2 (hcow entry hentry)

/-! ## From boot -/

/-- The first process runs. -/
def startRun : List Event :=
  [.spawn bootCpu bootProgram true, .act (.dispatch bootCpu ⟨1, 1⟩)]

/-- The check that a process is bare. -/
def bareCheck (process : Process) : Bool :=
  process.cowPages.isEmpty &&
    (List.finRange 64).all (fun signum => process.signalHandlers signum = .default) &&
    process.signalStack.isNone && process.robustListHead = 0#64

theorem bare_of_check {process : Process} (h : bareCheck process = true) : process.Bare := by
  simp only [bareCheck, Bool.and_eq_true, List.isEmpty_iff, List.all_eq_true,
    decide_eq_true_eq, Option.isNone_iff_eq_none] at h
  obtain ⟨⟨⟨hcow, hhandlers⟩, hstack⟩, hrobust⟩ := h
  refine ⟨hcow, fun signum va onStack => ?_, hstack, hrobust⟩
  rw [hhandlers signum (List.mem_finRange signum)]
  exact SignalAction.noConfusion

set_option maxRecDepth 100000 in
/-- It execs and keeps nothing. -/
theorem exec_renews_first_process :
    ∃ kernel kernel' process' image,
      run (handle Loader.sampleMmfr0 sampleVdso forgedFile) bootKernel startRun = some kernel ∧
      exec Loader.sampleMmfr0 sampleVdso kernel bootCpu bootProgram .unavailable =
        some (true, kernel') ∧
      kernel'.scheduler.currentProcess bootCpu = some process' ∧
      process'.Renewed Loader.sampleMmfr0 kernel'.memory image := by
  have hview : (run (handle Loader.sampleMmfr0 sampleVdso forgedFile) bootKernel
      startRun).map (fun kernel => ((kernel.scheduler.currentProcess bootCpu).map bareCheck,
        (load Loader.sampleMmfr0 sampleVdso kernel.memory bootProgram
          (sampleFile 0x400000)).toOption.isSome,
        (exec Loader.sampleMmfr0 sampleVdso kernel bootCpu bootProgram
          .unavailable).map Prod.fst)) = some (some true, true, some true) := by
    decide +kernel
  obtain ⟨kernel, hrun, hkernel⟩ := map_eq_some_iff.mp hview
  simp only [Prod.mk.injEq] at hkernel
  obtain ⟨hbare, hload, hexec⟩ := hkernel
  obtain ⟨process, hcurrent, hbare⟩ := map_eq_some_iff.mp hbare
  obtain ⟨⟨_, kernel'⟩, hexec, rfl⟩ := map_eq_some_iff.mp hexec
  obtain ⟨⟨image, memory⟩, hloaded⟩ := isSome_iff_exists.mp hload
  have hload : load Loader.sampleMmfr0 sampleVdso kernel.memory bootProgram
      (sampleFile 0x400000) = .ok (image, memory) := by
    cases hresult : load Loader.sampleMmfr0 sampleVdso kernel.memory bootProgram
        (sampleFile 0x400000) with
    | error stop => rw [hresult] at hloaded; cases hloaded
    | ok loaded => rw [hresult] at hloaded; cases hloaded; rfl
  obtain ⟨process', hcurrent', -, hrenewed, -⟩ := exec_renews_iff_bare _ _ kernel kernel' bootCpu
    bootProgram .unavailable _ image memory process bootKernel_guards.1 hcurrent rfl hload hexec
  exact ⟨kernel, kernel', process', image, hrun, hexec, hcurrent', hrenewed (bare_of_check hbare)⟩

set_option maxRecDepth 100000 in
/-- It forks before.  After exec the frame of its old stack page is still recorded as
shared, at an address where the new image has a page of its own. -/
theorem stale_cow_page :
    ∃ kernel kernel' process', run (handle Loader.sampleMmfr0 sampleVdso forgedFile) bootKernel
        (startRun ++ [.act (.fork bootCpu)]) = some kernel ∧
      exec Loader.sampleMmfr0 sampleVdso kernel bootCpu bootProgram .unavailable =
        some (true, kernel') ∧
      kernel'.scheduler.currentProcess bootCpu = some process' ∧
      ∀ image, process'.pageTable = some image.pageTable →
        ¬ process'.Renewed Loader.sampleMmfr0 kernel'.memory image := by
  have hview : (run (handle Loader.sampleMmfr0 sampleVdso forgedFile) bootKernel
      (startRun ++ [.act (.fork bootCpu)])).bind (fun kernel =>
        (exec Loader.sampleMmfr0 sampleVdso kernel bootCpu bootProgram
          .unavailable).bind fun result =>
            (result.2.scheduler.currentProcess bootCpu).map fun process =>
              (result.1, process.pageTable, process.cowPages,
                leafEntry Loader.sampleMmfr0 result.2.memory 0x14000#64 0x7fffffffe000#64)) =
      some (true, some 0x14000#64, [(0x7fffffffe000#64, 0x8000#64)], some 0x6000000001b743#64) := by
    decide +kernel
  obtain ⟨kernel, hrun, hkernel⟩ := bind_eq_some_iff.mp hview
  obtain ⟨⟨_, kernel'⟩, hexec, hresult⟩ := bind_eq_some_iff.mp hkernel
  obtain ⟨process', hcurrent, hprocess⟩ := map_eq_some_iff.mp hresult
  simp only [Prod.mk.injEq] at hprocess
  obtain ⟨rfl, htable, hcow, hleaf⟩ := hprocess
  refine ⟨kernel, kernel', process', hrun, hexec, hcurrent, fun image himage hrenewed => ?_⟩
  obtain ⟨_, hentry, -, hshared, -⟩ := hrenewed.cowPages
    (0x7fffffffe000#64, 0x8000#64) (hcow ▸ mem_singleton_self _)
  rw [← some.inj (htable.symm.trans himage), hleaf] at hentry
  cases hentry
  exact hshared (by decide)

end Kernel
end Bazzulto
