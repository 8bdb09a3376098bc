/-
  Memory/Sharing.lean --- free pages and the pages of processes.

  Fork shares pages without counting who holds them, and `unmap_range` frees
  whatever it finds.  A run in which that never meets a page mapped elsewhere,
  and in which no operation fails half-way for want of a page, keeps the pages
  of all processes off the free list.
-/
import Bazzulto.Memory.Isolation

set_option autoImplicit false

namespace Bazzulto

open Foundation Memory List Option Scheduler

namespace Kernel

variable {mmfr0 : Word} {files : Nat → Word → Page} {kernel kernel' : Kernel}

/-- No page that a valid leaf of some process points at is free, and no page
is free twice. -/
structure Apart (mmfr0 : Word) (kernel : Kernel) : Prop where
  mapped : ∀ pid root address page, kernel.scheduler.tableOf pid = some root →
    translate mmfr0 kernel.memory root address = some page →
    ∀ n, kernel.memory.freeAt n ≠ some page
  once : ∀ i j page, kernel.memory.freeAt i = some page → kernel.memory.freeAt j = some page → i = j

/-- The free list, the tables and the mapped pages of the processes are kept
apart, and no table is in two places. -/
def Sound (mmfr0 : Word) (kernel : Kernel) : Prop :=
  ∃ free, Owned mmfr0 kernel.memory kernel.scheduler.tables free

theorem Sound.apart (h : Sound mmfr0 kernel) : Apart mmfr0 kernel := by
  obtain ⟨_, howned⟩ := h
  have hat := fun n => howned.listed.getElem? n
  constructor
  · intro pid root address page hroot hpage _ hfree
    rw [hat] at hfree
    refine (howned.leaves page ?_).1 (mem_of_getElem? hfree)
    exact ⟨root, ⟨pid, hroot⟩, pagePath address, pagePath_length address, hpage⟩
  · intro _ _ _ hi hj
    rw [hat] at hi hj
    obtain ⟨hlt, -⟩ := List.getElem?_eq_some_iff.mp hi
    exact (List.getElem?_inj hlt howned.nodup).mp (hi.trans hj.symm)

theorem Sound.step {action : Action} (h : Sound mmfr0 kernel)
    (hcareful : Careful mmfr0 files kernel action)
    (hstep : step mmfr0 files kernel action = some kernel') : Sound mmfr0 kernel' := by
  obtain ⟨free, howned⟩ := h
  have hspares : Spares mmfr0 ∅ kernel action := by
    cases action with
    | munmap => exact fun _ _ _ _ _ _ _ _ _ => id
    | _ => trivial
  obtain ⟨free', hshield⟩ := Guards.step (durable_true mmfr0) (fun _ _ => trivial)
    ⟨free, howned.shielded⟩ hcareful hspares hstep
  exact ⟨free', hshield.owned⟩

/-- In every run of careful steps no mapped page is ever free and no page is free
twice. -/
theorem pages_stay_apart (mmfr0 : Word) (files : Nat → Word → Page) (start final : Kernel)
    (actions : List Action) (hstart : Sound mmfr0 start)
    (hcareful : Along (step mmfr0 files) (Careful mmfr0 files) start actions)
    (hrun : run (step mmfr0 files) start actions = some final) : Apart mmfr0 final :=
  (run_invariant (fun _ _ _ hsound hcare hstep => hsound.step hcare hstep) actions start
    final hstart hcareful hrun).apart

/-! ## A process that forks -/

/-- A machine with 48-bit physical addresses. -/
def sampleMmfr0 : Word := 5#64

/-- Sixteen usable pages, the lowest freed last. -/
def samplePages : List Word :=
  (List.range 16).map fun i => BitVec.ofNat 64 (16 - i) <<< 12

/-- The page table of the sample process: the first page to be allocated. -/
def sampleRoot : Word := 0x1000#64

/-- The page mapped in it. -/
def samplePage : Word := 0x2000#64

/-- The region of the mapped page. -/
def sampleAddress : Word := 0x10000000#64

/-- A region that has not been touched. -/
def sampleSecond : Word := 0x20000000#64

/-- No file is mapped. -/
def noFiles : Nat → Word → Page := fun _ _ => zeroPage

/-- The sample memory: one address space with one page. -/
def sampleMemory : PhysicalMemory :=
  match createTable (PhysicalMemory.init (fun _ => zeroPage) samplePages) with
  | none => PhysicalMemory.init (fun _ => zeroPage) samplePages
  | some (root, memory) =>
    (installPage sampleMmfr0 memory (some root) sampleAddress zeroPage).getD memory

/-- The sample process. -/
def sampleProcess : Process :=
  { Process.new ⟨1, 1⟩ none with
    state := .running
    pageTable := some sampleRoot
    mmapRegions :=
      [(sampleAddress, ⟨sampleAddress, 0x2000#64, true, .anonymous⟩),
       (sampleSecond, ⟨sampleSecond, 0x1000#64, true, .anonymous⟩)] }

/-- The sample process runs on every core. -/
def sampleKernel : Kernel where
  scheduler :=
    { init with
      pool := Pool.initIdle.insert sampleProcess
      currentPids := fun _ => ⟨1, 1⟩ }
  memory := sampleMemory

theorem sampleKernel_tables : sampleKernel.scheduler.tables ⊆ {sampleRoot} := by
  rintro _ ⟨_, hpid⟩
  obtain ⟨_, hget, hroot⟩ := bind_eq_some_iff.mp hpid
  have hmem := mem_of_getElem? (Pool.getElem?_of_get hget)
  have hslots : sampleKernel.scheduler.pool.slots =
      [some { Process.new Pid.idle none with state := .running }, some sampleProcess] := rfl
  rw [hslots] at hmem
  simp only [mem_cons, some.injEq, not_mem_nil, or_false] at hmem
  rcases hmem with rfl | rfl
  · cases hroot
  · exact (some.inj hroot).symm

theorem sampleKernel_sound : Sound sampleMmfr0 sampleKernel := by
  have hframed : samplePages.all (fun page => page &&& paMask sampleMmfr0 = page) = true := by
    decide +kernel
  have hboot := Owned.init sampleMmfr0 (fun _ => zeroPage)
    (show samplePages.Nodup by decide +kernel)
    (fun page hmem => of_decide_eq_true (all_eq_true.mp hframed page hmem))
  have hhead : samplePages.reverse.head? = some sampleRoot := by decide +kernel
  have hlen : samplePages.reverse.length = 16 := rfl
  suffices h : ∃ free, Owned sampleMmfr0 sampleMemory (insert sampleRoot ∅) free by
    obtain ⟨free, howned⟩ := h
    exact ⟨free, howned.mono fun root hmem => .inl (sampleKernel_tables hmem)⟩
  unfold sampleMemory
  cases hcreate : createTable (PhysicalMemory.init (fun _ => zeroPage) samplePages) with
  | none =>
    rw [hboot.createTable_eq_none.mp hcreate] at hlen
    cases hlen
  | some created =>
    obtain ⟨root, memory⟩ := created
    obtain ⟨rest, hfree, howned, hloose, hblank, -⟩ := hboot.createTable hcreate
    rw [hfree, List.head?_cons, some.injEq] at hhead
    rw [hfree, length_cons] at hlen
    subst hhead
    have hrooted := howned.insertRoot hloose hblank
    dsimp only
    cases hinstall : installPage sampleMmfr0 memory (some sampleRoot) sampleAddress
        zeroPage with
    | none => exact ⟨rest, hrooted⟩
    | some memory' =>
      have hroom : missingTables sampleMmfr0 memory sampleRoot (tablePath sampleAddress) ≤
          rest.length - 1 := by
        have hle := missingTables_le sampleMmfr0 memory sampleRoot (tablePath sampleAddress)
        have hpath : (tablePath sampleAddress).length = 3 := rfl
        omega
      obtain ⟨free', hshield⟩ := installPage_held
        (Shielded.upkeep (durable_true sampleMmfr0).toLinkable)
        ⟨and_paMask sampleMmfr0 (by decide), fun _ _ => trivial⟩ hrooted.shielded
        (fun root hroot => some.inj hroot ▸
          ⟨Set.mem_insert _ _, .inl (hrooted.count ▸ hroom)⟩) hinstall
      exact ⟨free', hshield.owned⟩

set_option maxRecDepth 100000 in
/-- A process forks and unmaps a region: the child still has its page mapped, and
the page is free. -/
theorem munmap_after_fork_frees_mapped_page :
    Sound sampleMmfr0 sampleKernel ∧
      ∃ final, run (step sampleMmfr0 noFiles) sampleKernel
          [.fork bootCpu, .munmap bootCpu sampleAddress 1 0x1000#64] = some final ∧
        ¬ Apart sampleMmfr0 final := by
  refine ⟨sampleKernel_sound, ?_⟩
  have hview : (run (step sampleMmfr0 noFiles) sampleKernel
      [.fork bootCpu, .munmap bootCpu sampleAddress 1 0x1000#64]).map (fun final =>
        (final.memory.freeAt 0, final.scheduler.tableOf ⟨2, 1⟩,
          (final.scheduler.tableOf ⟨2, 1⟩).bind fun root =>
            translate sampleMmfr0 final.memory root sampleAddress)) =
      some (some samplePage, some 0x6000#64, some samplePage) := by
    decide +kernel
  obtain ⟨final, hrun, hfinal⟩ := map_eq_some_iff.mp hview
  simp only [Prod.mk.injEq] at hfinal
  obtain ⟨hfree, htable, hleaf⟩ := hfinal
  rw [htable] at hleaf
  exact ⟨final, hrun, fun hapart => hapart.mapped _ _ _ _ htable hleaf 0 hfree⟩

/-- A demand fault, a fork, a write to a shared page and the end of a region that
was never touched. -/
def sampleRun : List Action :=
  [.pageFault bootCpu (sampleAddress + 0x1000#64) 0x07#32 true, .fork bootCpu,
   .pageFault bootCpu sampleAddress 0x4F#32 true, .munmap bootCpu sampleSecond 1 0x1000#64]

set_option maxRecDepth 100000 in
theorem sampleRun_careful :
    Along (step sampleMmfr0 noFiles) (Careful sampleMmfr0 noFiles) sampleKernel sampleRun := by
  have hquiet : Along (step sampleMmfr0 noFiles)
      (fun kernel action => quiet sampleMmfr0 kernel action = true) sampleKernel sampleRun := by
    decide +kernel
  exact hquiet.imp fun _ _ => careful_of_quiet

theorem pages_stay_apart_sampleRun :
    ∃ final, run (step sampleMmfr0 noFiles) sampleKernel sampleRun = some final ∧
      Apart sampleMmfr0 final :=
  ⟨_, rfl, pages_stay_apart sampleMmfr0 noFiles sampleKernel _ sampleRun sampleKernel_sound
    sampleRun_careful rfl⟩

end Kernel
end Bazzulto
