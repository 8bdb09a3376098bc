/-
  Memory/Isolation.lean --- what the operations on address spaces keep.

  The trees in question are the page tables of all processes.  Every operation of
  Memory/Kernel.lean keeps them apart, and whatever their words are known for, where
  it meets its condition (`Careful`): fork shares pages without counting who holds
  them and `unmap_range` frees whatever it finds, so an unmapped page must be mapped
  nowhere else, and no operation may fail half way for want of a page.
-/
import Bazzulto.Memory.Kernel
import Bazzulto.Memory.Upkeep

set_option autoImplicit false

namespace Bazzulto

open Foundation Memory Option Scheduler Process

namespace Scheduler

variable {scheduler created : Scheduler} {pid : Pid} {parentPid : Option Pid}

/-- The page tables of the processes. -/
def tables (scheduler : Scheduler) : Set Word :=
  {root | ∃ pid, scheduler.tableOf pid = some root}

theorem tableOf_eq_view (scheduler : Scheduler) (pid : Pid) :
    scheduler.tableOf pid = (scheduler.view pageTable pid).join := by
  rw [tableOf, view]
  cases scheduler.pool.get pid <;> rfl

theorem tables_congr {scheduler' : Scheduler}
    (h : ∀ pid, scheduler'.view pageTable pid = scheduler.view pageTable pid) :
    scheduler'.tables = scheduler.tables := by
  unfold tables
  simp [tableOf_eq_view, h]

section

variable (scheduler : Scheduler) (pid other : Pid) {change : Process → Process}
  (hpid : ∀ process, (change process).pid = process.pid)
  (hkeep : ∀ process, (change process).pageTable = process.pageTable)
include hkeep

theorem tableOf_updateProcess :
    (scheduler.updateProcess pid change hpid).tableOf other = scheduler.tableOf other := by
  rw [tableOf_eq_view, tableOf_eq_view,
    scheduler.view_updateProcess_of_keeps pid other change hpid hkeep]

theorem tables_updateProcess :
    (scheduler.updateProcess pid change hpid).tables = scheduler.tables :=
  tables_congr fun other => scheduler.view_updateProcess_of_keeps pid other change hpid hkeep

end

theorem tables_makeReady (scheduler : Scheduler) (cpu : Cpu) (pid : Pid) :
    (scheduler.makeReady cpu pid).tables = scheduler.tables :=
  tables_congr (scheduler.view_makeReady (fun _ _ => rfl) cpu pid)

theorem tableOf_createProcess (h : scheduler.createProcess parentPid = some (pid, created))
    (other : Pid) : created.tableOf other = scheduler.tableOf other := by
  rw [tableOf_eq_view, tableOf_eq_view, view_createProcess h]
  split
  next heq =>
    rw [heq, view, (get_createProcess h).2.1]
    rfl
  · rfl

theorem tables_createProcess (h : scheduler.createProcess parentPid = some (pid, created)) :
    created.tables = scheduler.tables := by
  unfold tables
  simp [tableOf_createProcess h]

theorem mem_tables {process : Process} {root : Word}
    (hget : scheduler.pool.get pid = some process) (hroot : process.pageTable = some root) :
    root ∈ scheduler.tables :=
  ⟨pid, by rw [tableOf, hget, bind_some, hroot]⟩

end Scheduler

namespace Kernel

variable {mmfr0 : Word} {Good : Word → Prop} {reserved : Set Word} {files : Nat → Word → Page}
  {kernel kernel' : Kernel} {cpu : Cpu} {process : Process} {root addr pageSize : Word}
  {pages : Nat} {action : Action} {memory : PhysicalMemory} {roots : Set Word} {free : List Word}
  {table : Option Word}

/-- The trees of all processes are shielded. -/
def Guards (mmfr0 : Word) (Good : Word → Prop) (reserved : Set Word) (kernel : Kernel) : Prop :=
  ∃ free, Shielded mmfr0 Good reserved kernel.memory kernel.scheduler.tables free

/-! ## The condition -/

/-- What a step has to meet, in the state it is taken in.  A fork needs a page
for every table of the copy, unless it fails before it reaches a mapped page; a
handled fault needs a page for every table on its path, or for none of them; an
unmapped page must be mapped nowhere else. -/
def Careful (mmfr0 : Word) (files : Nat → Word → Page) (kernel : Kernel) : Action → Prop
  | .fork cpu =>
    ∀ process root, kernel.scheduler.currentProcess cpu = some process →
      process.pageTable = some root →
      CopyFits mmfr0 kernel.memory root kernel.memory.freePageCount
  | .pageFault cpu faultAddress iss isDataAbort =>
    ∀ process root, kernel.scheduler.currentProcess cpu = some process →
      process.pageTable = some root →
      faultContent files kernel.memory process faultAddress iss isDataAbort ≠ none →
      MapFits mmfr0 kernel.memory root (pageOf faultAddress)
        (kernel.memory.freePageCount - 1)
  | .munmap cpu addr pages pageSize =>
    ∀ process root, kernel.scheduler.currentProcess cpu = some process →
      process.pageTable = some root → process.mmapRegions.lookup addr ≠ none →
      ∀ va ∈ rangeAddresses addr pages pageSize,
        Unshared mmfr0 kernel.memory kernel.scheduler.tables root va
  | .dispatch .. | .store .. | .take .. => True

/-- No reserved page is unmapped. -/
def Spares (mmfr0 : Word) (reserved : Set Word) (kernel : Kernel) : Action → Prop
  | .munmap cpu addr pages pageSize =>
    ∀ process root, kernel.scheduler.currentProcess cpu = some process →
      process.pageTable = some root → process.mmapRegions.lookup addr ≠ none →
      ∀ va ∈ rangeAddresses addr pages pageSize, ∀ page,
        translate mmfr0 kernel.memory root va = some page → page ∉ reserved
  | _ => True

/-- A check that can be run: a fork or fault has its pages, and nothing mapped is
unmapped. -/
def quiet (mmfr0 : Word) (kernel : Kernel) : Action → Bool
  | .fork cpu =>
    (kernel.scheduler.tableOf (kernel.scheduler.currentPids cpu)).all fun root =>
      CopyFits mmfr0 kernel.memory root kernel.memory.freePageCount
  | .pageFault cpu faultAddress .. =>
    (kernel.scheduler.tableOf (kernel.scheduler.currentPids cpu)).all fun root =>
      MapFits mmfr0 kernel.memory root (pageOf faultAddress) (kernel.memory.freePageCount - 1)
  | .munmap cpu addr pages pageSize =>
    (kernel.scheduler.tableOf (kernel.scheduler.currentPids cpu)).all fun root =>
      (rangeAddresses addr pages pageSize).all fun va =>
        (translate mmfr0 kernel.memory root va).isNone
  | .dispatch .. | .store .. | .take .. => true

section

variable (hproc : kernel.scheduler.currentProcess cpu = some process)
  (hroot : process.pageTable = some root)
include hproc hroot

theorem all_of_current {check : Word → Bool}
    (h : (kernel.scheduler.tableOf (kernel.scheduler.currentPids cpu)).all check = true) :
    check root = true := by
  have htable : kernel.scheduler.tableOf (kernel.scheduler.currentPids cpu) = some root := by
    rw [tableOf, ← currentProcess, hproc, bind_some, hroot]
  rwa [htable] at h

theorem translate_of_quiet (h : quiet mmfr0 kernel (.munmap cpu addr pages pageSize) = true)
    {va : Word} (hva : va ∈ rangeAddresses addr pages pageSize) :
    translate mmfr0 kernel.memory root va = none :=
  isNone_iff_eq_none.mp (List.all_eq_true.mp (all_of_current hproc hroot h) va hva)

end

theorem careful_of_quiet (h : quiet mmfr0 kernel action = true) :
    Careful mmfr0 files kernel action := by
  cases action with
  | fork cpu =>
    intro process root hproc hroot
    exact of_decide_eq_true (all_of_current hproc hroot h)
  | pageFault cpu faultAddress iss isDataAbort =>
    intro process root hproc hroot _
    exact of_decide_eq_true (all_of_current hproc hroot h)
  | munmap cpu addr pages pageSize =>
    intro _ _ hproc hroot _ _ hva _ hpage
    rw [translate_of_quiet hproc hroot h hva] at hpage
    cases hpage
  | dispatch | store | take => trivial

theorem spares_of_quiet (h : quiet mmfr0 kernel action = true) :
    Spares mmfr0 reserved kernel action := by
  cases action with
  | munmap cpu addr pages pageSize =>
    intro _ _ hproc hroot _ _ hva _ hpage
    rw [translate_of_quiet hproc hroot h hva] at hpage
    cases hpage
  | fork | pageFault | dispatch | store | take => trivial

/-! ## Fork -/

/-- The address space that a fork comes to: one more tree, or none. -/
abbrev SpaceOutcome (mmfr0 : Word) (Good : Word → Prop) (reserved roots : Set Word) :
    Except PhysicalMemory (Option Word × PhysicalMemory) → Prop :=
  Outcome
    (fun copied => ∃ free, Shielded mmfr0 Good reserved copied.2
      (roots ∪ {root | copied.1 = some root}) free)
    (fun left => ∃ free, Shielded mmfr0 Good reserved left roots free)

theorem spaceOutcome_none (h : Shielded mmfr0 Good reserved memory roots free) :
    SpaceOutcome mmfr0 Good reserved roots (.ok (none, memory)) :=
  .ok ⟨free, h.mono (by simp)⟩

theorem spaceOutcome_copy {result : Except PhysicalMemory (Word × PhysicalMemory)}
    (h : Outcome
      (fun copied => ∃ free, Shielded mmfr0 Good reserved copied.2 (insert copied.1 roots) free)
      (fun left => ∃ free, Shielded mmfr0 Good reserved left roots free) result) :
    SpaceOutcome mmfr0 Good reserved roots
      (result.map fun (copy, memory) => (some copy, memory)) := by
  refine Outcome.map (h.imp (fun copied hcopied => ?_) fun _ hleft => hleft)
  obtain ⟨free, hshield⟩ := hcopied
  refine ⟨free, hshield.mono ?_⟩
  rintro _ (hold | hnew)
  · exact .inr hold
  · exact .inl (some.inj hnew).symm

/-- After a fork the only new page table is the child's. -/
theorem tableOf_finishFork {scheduler : Scheduler} {parent : Process} {childPid : Pid} {pid : Pid}
    (h : (finishFork mmfr0 scheduler memory cpu parent childPid table).tableOf pid = some root) :
    scheduler.tableOf pid = some root ∨ table = some root := by
  simp only [finishFork] at h
  rw [tableOf_eq_view, view_makeReady (fun _ _ => rfl),
    view_updateProcess] at h
  split at h
  · right
    obtain ⟨_, -, hroot⟩ := map_eq_some_iff.mp (join_eq_some_iff.mp h)
    exact hroot
  left
  rw [view_updateProcess_of_keeps] at h
  · rwa [tableOf_eq_view]
  · exact fun _ => rfl

/-- A fork keeps what the copy of the address space keeps.  The space that is copied
is the one of the current process, if any. -/
theorem Guards.forkWith
    {copyUser : PhysicalMemory → Word → Except PhysicalMemory (Word × PhysicalMemory)}
    (h : Guards mmfr0 Good reserved kernel)
    (hcopy : ∀ free process root,
      Shielded mmfr0 Good reserved kernel.memory kernel.scheduler.tables free →
      kernel.scheduler.currentProcess cpu = some process → process.pageTable = some root →
      Outcome
        (fun copied => ∃ free', Shielded mmfr0 Good reserved copied.2
          (insert copied.1 kernel.scheduler.tables) free')
        (fun left => ∃ free', Shielded mmfr0 Good reserved left kernel.scheduler.tables free')
        (copyUser kernel.memory root)) :
    Guards mmfr0 Good reserved (forkWith mmfr0 copyUser kernel cpu).2 := by
  obtain ⟨free, hshield⟩ := h
  unfold Kernel.forkWith
  dsimp only
  cases hcreate : kernel.scheduler.createProcess
      (some (kernel.scheduler.currentPids cpu)) with
  | none => exact ⟨free, hshield⟩
  | some created =>
    obtain ⟨_, created⟩ := created
    have hold := tableOf_createProcess hcreate
    have htables := tables_createProcess hcreate
    obtain ⟨-, -, -, hget⟩ := get_createProcess hcreate
    dsimp only
    cases hparent : created.pool.get (kernel.scheduler.currentPids cpu) with
    | none => exact ⟨free, htables ▸ hshield⟩
    | some parent =>
      have hcopied : SpaceOutcome mmfr0 Good reserved kernel.scheduler.tables
          (copyAddressSpace copyUser kernel.memory parent.pageTable) := by
        cases hroot : parent.pageTable with
        | none => exact spaceOutcome_none hshield
        | some root =>
          refine spaceOutcome_copy (hcopy free parent root hshield ?_ hroot)
          -- The parent is not the new process, which has no page table.
          rw [hget] at hparent
          split at hparent
          · cases hparent
            exact absurd hroot (by simp [new])
          · exact hparent
      dsimp only
      cases hresult : copyAddressSpace copyUser kernel.memory parent.pageTable with
      | error left =>
        obtain ⟨free', hleft⟩ := hcopied.of_error hresult
        exact ⟨free', htables ▸ hleft⟩
      | ok result =>
        obtain ⟨free', hmore⟩ := hcopied.of_ok hresult
        refine ⟨free', hmore.mono ?_⟩
        rintro _ ⟨pid, hpid⟩
        rcases tableOf_finishFork hpid with hbefore | hchild
        · exact .inl ⟨pid, (hold pid).symm.trans hbefore⟩
        · exact .inr hchild

theorem Guards.fork (hgood : Durable mmfr0 Good) (h : Guards mmfr0 Good reserved kernel)
    (hcareful : Careful mmfr0 files kernel (.fork cpu)) :
    Guards mmfr0 Good reserved (fork mmfr0 kernel cpu).2 := by
  refine h.forkWith fun free process root hshield hproc hroot => ?_
  exact hshield.cowCopyUser hgood (mem_tables hproc hroot)
    (hshield.owned.count ▸ hcareful process root hproc hroot)

theorem Guards.deepFork (hgood : Durable mmfr0 Good) (h : Guards mmfr0 Good reserved kernel)
    (cpu : Cpu) : Guards mmfr0 Good reserved (deepFork mmfr0 kernel cpu).2 :=
  h.forkWith fun _ _ _ hshield hproc hroot => hshield.deepCopyUser hgood (mem_tables hproc hroot)

/-! ## Page faults -/

/-- A fresh page is mapped, or leaks. -/
theorem installPage_held {Flags Stock : Word → Prop} {memory' : PhysicalMemory}
    {Held : PhysicalMemory → Set Word → List Word → Prop}
    (u : Upkeep mmfr0 reserved Flags Stock Held) (hdata : Flags pageFlagsUserData)
    (h : Held memory roots free) {pageVa : Word} {content : Page}
    (hroot : ∀ root, table = some root →
      root ∈ roots ∧ MapFits mmfr0 memory root pageVa (memory.freePageCount - 1))
    (hinstall : installPage mmfr0 memory table pageVa content = some memory') :
    ∃ free', Held memory' roots free' := by
  have howned := (u.shielded h).owned
  unfold installPage at hinstall
  cases halloc : memory.alloc with
  | none => rw [halloc] at hinstall; cases hinstall
  | some taken =>
    obtain ⟨rest, rfl, hfilled, hloose, hstock, -⟩ := u.fresh h halloc content
    rw [halloc] at hinstall
    cases table with
    | none =>
      cases hinstall
      exact ⟨rest, hfilled⟩
    | some root =>
      obtain ⟨hmem, hfits⟩ := hroot root rfl
      rw [howned.count] at hfits
      dsimp only at hinstall
      split at hinstall
      next hmap =>
        cases hinstall
        obtain ⟨free', hmapped, -⟩ := u.mapFresh hfilled hloose hstock hdata hmem hmap
        exact ⟨free', hmapped⟩
      next hmap =>
        cases hinstall
        have hfits' := hfits.fill howned halloc hmem content
        exact ⟨rest, hfits'.error (u.shielded hfilled).owned hmem hmap ▸ hfilled⟩

/-- A handled fault installs a page and leaves the page tables with their processes. -/
theorem handlePageFault_cases (mmfr0 : Word) (files : Nat → Word → Page) (kernel : Kernel)
    (cpu : Cpu) (faultAddress : Word) (iss : BitVec 32) (isDataAbort : Bool) {result : Kernel}
    (hresult : (handlePageFault mmfr0 files kernel cpu faultAddress iss isDataAbort).2 = result) :
    result = kernel ∨ ∃ process content, kernel.scheduler.currentProcess cpu = some process ∧
      faultContent files kernel.memory process faultAddress iss isDataAbort = some content ∧
      installPage mmfr0 kernel.memory process.pageTable (pageOf faultAddress) content =
        some result.memory ∧
      ∀ pid, result.scheduler.tableOf pid = kernel.scheduler.tableOf pid := by
  unfold handlePageFault at hresult
  split at hresult
  · exact .inl hresult.symm
  rename_i process hproc
  split at hresult
  · exact .inl hresult.symm
  rename_i content hcontent
  split at hresult
  · exact .inl hresult.symm
  rename_i memory hinstall
  refine .inr ⟨process, content, hproc, hcontent, ?_⟩
  split at hresult <;> subst hresult
  · exact ⟨hinstall, fun _ => rfl⟩
  · exact ⟨hinstall, fun pid => kernel.scheduler.tableOf_updateProcess _ pid _ fun _ => rfl⟩

theorem Guards.keep (htable : ∀ pid, kernel'.scheduler.tableOf pid = kernel.scheduler.tableOf pid)
    (h : ∃ free, Shielded mmfr0 Good reserved kernel'.memory kernel.scheduler.tables free) :
    Guards mmfr0 Good reserved kernel' := by
  unfold Guards tables
  simp only [htable]
  exact h

theorem Guards.pageFault (hgood : Linkable mmfr0 Good)
    (hdata : LeafGood mmfr0 Good pageFlagsUserData) (h : Guards mmfr0 Good reserved kernel)
    {faultAddress : Word} {iss : BitVec 32} {isDataAbort : Bool}
    (hcareful : Careful mmfr0 files kernel (.pageFault cpu faultAddress iss isDataAbort)) :
    Guards mmfr0 Good reserved
      (handlePageFault mmfr0 files kernel cpu faultAddress iss isDataAbort).2 := by
  obtain hsame | ⟨process, _, hproc, hcontent, hinstall, htable⟩ :=
    handlePageFault_cases mmfr0 files kernel cpu faultAddress iss isDataAbort rfl
  · rw [hsame]
    exact h
  obtain ⟨_, hshield⟩ := h
  exact Guards.keep htable (installPage_held (Shielded.upkeep hgood)
    ⟨and_paMask mmfr0 (by decide), hdata⟩ hshield
    (fun root hroot => ⟨mem_tables hproc hroot,
      hcareful process root hproc hroot (by simp [hcontent])⟩) hinstall)

/-! ## Unmapping -/

/-- `munmap_for_current` unmaps the range of a region, if there is a page table. -/
theorem munmapForCurrent_cases (mmfr0 : Word) (kernel : Kernel) (cpu : Cpu) (addr : Word)
    (pages : Nat) (pageSize : Word) {result : Kernel}
    (hresult : (munmapForCurrent mmfr0 kernel cpu addr pages pageSize).2 = result) :
    (result.memory = kernel.memory ∨ ∃ process root,
      kernel.scheduler.currentProcess cpu = some process ∧ process.pageTable = some root ∧
      process.mmapRegions.lookup addr ≠ none ∧
      result.memory = unmapRange mmfr0 kernel.memory root addr pages pageSize) ∧
      ∀ pid, result.scheduler.tableOf pid = kernel.scheduler.tableOf pid := by
  unfold munmapForCurrent at hresult
  split at hresult
  · exact hresult ▸ ⟨.inl rfl, fun _ => rfl⟩
  rename_i process hproc
  split at hresult
  · exact hresult ▸ ⟨.inl rfl, fun _ => rfl⟩
  rename_i hregion
  have htable := fun pid => kernel.scheduler.tableOf_updateProcess process.pid pid
    (forgetRegion_pid addr) fun _ => rfl
  split at hresult <;> subst hresult
  · exact ⟨.inl rfl, htable⟩
  next root hroot =>
    exact ⟨.inr ⟨process, root, hproc, hroot, by simpa using hregion, rfl⟩, htable⟩

theorem Guards.munmap (hgood : Linkable mmfr0 Good) (h : Guards mmfr0 Good reserved kernel)
    (hcareful : Careful mmfr0 files kernel (.munmap cpu addr pages pageSize))
    (hspares : Spares mmfr0 reserved kernel (.munmap cpu addr pages pageSize)) :
    Guards mmfr0 Good reserved (munmapForCurrent mmfr0 kernel cpu addr pages pageSize).2 := by
  obtain ⟨free, hshield⟩ := h
  obtain ⟨hsame | ⟨process, root, hproc, hroot, hregion, hunmapped⟩, htable⟩ :=
    munmapForCurrent_cases mmfr0 kernel cpu addr pages pageSize rfl
  · exact Guards.keep htable ⟨free, hsame ▸ hshield⟩
  · exact Guards.keep htable (hunmapped ▸ hshield.unmapRange hgood
      (mem_tables hproc hroot) (hcareful process root hproc hroot hregion)
      (hspares process root hproc hroot hregion))

/-! ## One step -/

/-- A careful step that spares the reserved pages keeps the trees shielded. -/
theorem Guards.step (hgood : Durable mmfr0 Good) (hdata : LeafGood mmfr0 Good pageFlagsUserData)
    (h : Guards mmfr0 Good reserved kernel) (hcareful : Careful mmfr0 files kernel action)
    (hspares : Spares mmfr0 reserved kernel action)
    (hstep : step mmfr0 files kernel action = some kernel') :
    Guards mmfr0 Good reserved kernel' := by
  cases action with
  | dispatch cpu pid =>
    obtain ⟨_, hswitch, rfl⟩ := map_eq_some_iff.mp hstep
    obtain ⟨free, hshield⟩ := h
    have htables := tables_congr
      (view_switchTo (fun _ _ => rfl) hswitch)
    exact ⟨free, htables ▸ hshield⟩
  | fork cpu =>
    cases hstep
    exact h.fork hgood hcareful
  | pageFault cpu faultAddress iss isDataAbort =>
    cases hstep
    exact h.pageFault hgood.toLinkable hdata hcareful
  | munmap cpu addr pages pageSize =>
    cases hstep
    exact h.munmap hgood.toLinkable hcareful hspares
  | store cpu address index word =>
    simp only [Kernel.step] at hstep
    split at hstep
    · cases hstep
    next root hroot =>
      obtain ⟨page, hpage, rfl⟩ := map_eq_some_iff.mp hstep
      obtain ⟨free, hshield⟩ := h
      have hleaf := hshield.owned.leaves page
        ⟨root, ⟨_, hroot⟩, pagePath address, pagePath_length address, hpage⟩
      exact ⟨free, hshield.fill hleaf.1 hleaf.2 _⟩
  | take content =>
    obtain ⟨⟨_, _⟩, halloc, rfl⟩ := map_eq_some_iff.mp hstep
    obtain ⟨_, hshield⟩ := h
    obtain ⟨rest, -, -, htaken, hloose, -⟩ := hshield.alloc halloc
    exact ⟨rest, htaken.fill hloose.notFree hloose.notTable content⟩

end Kernel
end Bazzulto
