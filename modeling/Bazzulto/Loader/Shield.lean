/-
  Loader/Shield.lean --- what `load_elf` leaves of the address spaces that are there.

  The new address space is one more tree beside those of the processes.  Where
  loading succeeds the trees are shielded, the new one included.  Where it fails the
  new tree is dropped: its pages leak, apart from the tables that a failed `map` has
  freed, and the other trees are as they were.

  That the results of mapping the vDSO pages are ignored does no harm: the tables on
  their path are those of the signal trampoline.
-/
import Bazzulto.Loader.Placement
import Bazzulto.Memory.Upkeep

set_option autoImplicit false

namespace Bazzulto.Loader

open Foundation Memory Set

/-- The leaves of a loaded image are `Good`. -/
structure ImageGood (mmfr0 : Word) (Good : Word → Prop) : Prop where
  code : LeafGood mmfr0 Good pageFlagsUserCode
  data : LeafGood mmfr0 Good pageFlagsUserData
  readOnly : LeafGood mmfr0 Good pageFlagsUserDataReadOnly

/-- The trees of `roots` are shielded. -/
def Intact (mmfr0 : Word) (Good : Word → Prop) (reserved roots : Set Word)
    (memory : PhysicalMemory) : Prop :=
  ∃ free, Shielded mmfr0 Good reserved memory roots free

variable {mmfr0 : Word} {Good : Word → Prop} {reserved roots : Set Word}
  {memory memory' : PhysicalMemory} {root : Word}

/-! ## Pages -/

section

variable {Flags Stock : Word → Prop} {Held : PhysicalMemory → Set Word → List Word → Prop}
  {flags : Word} (u : Upkeep mmfr0 reserved Flags Stock Held)
include u

/-- A page is placed in the tree of `root`, or the tree is dropped. -/
theorem placePage_outcome (hnew : root ∉ roots) (h : ∃ free, Held memory (insert root roots) free)
    (pageVa : Word) (content : Option Page) (hflags : Flags flags) :
    Outcome
      (fun memory' => (∃ free, Held memory' (insert root roots) free) ∧
        KeepsTables mmfr0 memory memory' root ∧
        missingTables mmfr0 memory' root (tablePath pageVa) = 0)
      (fun stopped => ∃ free, Held stopped.2 roots free)
      (placePage mmfr0 root memory pageVa content flags) := by
  obtain ⟨free, hheld⟩ := h
  have hsub : roots ⊆ insert root roots := subset_insert root roots
  have hroot : root ∈ insert root roots := mem_insert root roots
  unfold placePage
  cases halloc : memory.alloc with
  | none => exact .error ⟨free, u.mono hheld hsub⟩
  | some taken =>
    obtain ⟨page, taken⟩ := taken
    cases content with
    | none =>
      obtain ⟨rest, -, htaken, -⟩ := u.alloc hheld halloc
      exact .error ⟨rest, u.mono htaken hsub⟩
    | some content =>
      obtain ⟨_, -, hfilled, hloose, hstock, hsame⟩ := u.fresh hheld halloc content
      dsimp only
      cases hmap : map mmfr0 (taken.fill page content) root pageVa page flags with
      | ok mapped =>
        obtain ⟨free', hmapped, hkeeps, hpath⟩ :=
          u.mapFresh hfilled hloose hstock hflags hroot hmap
        refine .ok ⟨⟨free', hmapped⟩, fun path table hlen hat => ?_, hpath⟩
        refine hkeeps path table hlen ?_
        rw [hsame root hroot path (by omega), hat]
      | error left => exact .error (u.map_dropped hfilled hnew hmap)

/-- A reserved page is mapped next to a page that is there. -/
theorem mapShared_held (h : ∃ free, Held memory (insert root roots) free) (pageVa : Word)
    {page : Word} (hflags : Flags flags) (hframed : page &&& paMask mmfr0 = page)
    (hpage : page ∈ reserved) (hpath : missingTables mmfr0 memory root (tablePath pageVa) = 0) :
    (∃ free, Held (mapShared mmfr0 root memory pageVa page flags) (insert root roots) free) ∧
      KeepsTables mmfr0 memory (mapShared mmfr0 root memory pageVa page flags) root := by
  obtain ⟨_, hheld⟩ := h
  have hshield := u.shielded hheld
  have hroot : root ∈ insert root roots := mem_insert root roots
  obtain ⟨_, hmap⟩ := map_succeeds hshield.owned hroot (hpath.trans_le (Nat.zero_le _)) page
    flags
  obtain ⟨free', hmapped, hkeeps, -⟩ := u.map hheld hroot hframed (hshield.notFree page hpage)
    (hshield.notTable page hpage) (.inl hpage) hflags hmap
  rw [mapShared, hmap]
  exact ⟨⟨free', hmapped⟩, hkeeps⟩

end

/-! ## The loops of `load_elf` -/

/-- `Building` holds of the memory while the image is put together in the tree of `root`,
and `Left` of the memory that is left when that fails. -/
structure Builds (mmfr0 : Word) (vdso : Vdso) (root : Word)
    (Building Left : PhysicalMemory → Prop) : Prop where
  dropped : ∀ {memory : PhysicalMemory}, Building memory → Left memory
  place : ∀ {memory : PhysicalMemory} (pageVa : Word) (content : Option Page) {flags : Word},
    flags = pageFlagsUserCode ∨ flags = pageFlagsUserData → Building memory →
    Outcome
      (fun memory' => Building memory' ∧ KeepsTables mmfr0 memory memory' root ∧
        missingTables mmfr0 memory' root (tablePath pageVa) = 0)
      (fun stopped => Left stopped.2) (placePage mmfr0 root memory pageVa content flags)
  share : ∀ {memory : PhysicalMemory} (pageVa : Word) {page flags : Word},
    (page = vdso.code ∧ flags = pageFlagsUserCode) ∨
      (page = vdso.data ∧ flags = pageFlagsUserDataReadOnly) →
    missingTables mmfr0 memory root (tablePath pageVa) = 0 → Building memory →
    Building (mapShared mmfr0 root memory pageVa page flags) ∧
      KeepsTables mmfr0 memory (mapShared mmfr0 root memory pageVa page flags) root

section

variable {vdso : Vdso} {Left : PhysicalMemory → Prop}

section

variable {Building : PhysicalMemory → Prop} (h : Builds mmfr0 vdso root Building Left)
  (file : List UInt8) (base : Nat)
include h

theorem Builds.loadSegment (ph : ProgramHeader) (hbuilding : Building memory) :
    Outcome Building (fun stopped => Left stopped.2)
      (loadSegment mmfr0 file base root ph memory) := by
  unfold Loader.loadSegment
  split
  · exact .error (h.dropped hbuilding)
  split
  · exact .error (h.dropped hbuilding)
  · refine foldlM_outcome (fun memory pageIndex hmemory => ?_) _ memory hbuilding
    exact (h.place _ _ (ite_eq_or_eq ..) hmemory).imp (fun _ hplaced => hplaced.1)
      fun _ hstopped => hstopped

theorem Builds.loadHeader (state : PhysicalMemory × Nat) (index : Nat) (hbuilding : Building state.1) :
    Outcome (fun next => Building next.1) (fun stopped => Left stopped.2)
      (loadHeader mmfr0 file base root state index) := by
  unfold Loader.loadHeader
  cases programHeader file index with
  | error stop => exact .error (h.dropped hbuilding)
  | ok ph =>
    dsimp only
    split
    · exact .ok hbuilding
    have hsegment := h.loadSegment file base ph hbuilding
    generalize Loader.loadSegment mmfr0 file base root ph state.1 = segment at hsegment ⊢
    cases hsegment with
    | error hstopped => exact .error hstopped
    | ok hloaded => exact .ok hloaded

end

/-- `load_elf` puts an image together in a tree of its own, whose root it has created. -/
theorem loadElf_outcome (Building : Word → PhysicalMemory → Prop) (hleft : Left memory)
    (hbuilds : ∀ root start, createTable memory = some (root, start) →
      Building root start ∧ Builds mmfr0 vdso root (Building root) Left)
    (file : List UInt8) (argv envp : List (List UInt8)) (random stackRandom : Nat) :
    Outcome
      (fun loaded => (∃ start, createTable memory = some (loaded.1.pageTable, start)) ∧
        Building loaded.1.pageTable loaded.2)
      (fun stopped => Left stopped.2)
      (loadElf mmfr0 vdso file argv envp random stackRandom memory) := by
  unfold loadElf
  cases checkHeader file with
  | some reason => exact .error hleft
  | none =>
  cases hcreate : createTable memory with
  | none => exact .error hleft
  | some created =>
  obtain ⟨root, start⟩ := created
  obtain ⟨hstart, h⟩ := hbuilds root start hcreate
  dsimp only
  -- The segments.
  have hsegments := foldlM_outcome (I := fun state => Building root state.1)
    (h.loadHeader file (loadBase file random))
    (List.range (programHeaderCount file)) (start, 0) hstart
  generalize (List.range (programHeaderCount file)).foldlM
    (loadHeader mmfr0 file (loadBase file random) root) (start, 0) = segments at hsegments ⊢
  cases hsegments with
  | error hstopped => exact .error hstopped
  | @ok segments hsegments =>
  obtain ⟨loaded, _⟩ := segments
  -- The signal trampoline.
  have htrampoline := h.place signalTrampolineVa (some trampolinePage) (.inl rfl) hsegments
  dsimp only at htrampoline ⊢
  generalize placePage mmfr0 root loaded signalTrampolineVa (some trampolinePage)
    pageFlagsUserCode = trampoline at htrampoline ⊢
  cases htrampoline with
  | error hstopped => exact .error hstopped
  | @ok trampoline htrampoline =>
  obtain ⟨htrampoline, -, hpath⟩ := htrampoline
  -- The stack page.
  have hstack := h.place (BitVec.ofNat 64 (topPageVa stackRandom))
    (some (stackPage argv envp (topPageVa stackRandom))) (.inr rfl) htrampoline
  dsimp only at hstack ⊢
  generalize placePage mmfr0 root trampoline (BitVec.ofNat 64 (topPageVa stackRandom))
    (some (stackPage argv envp (topPageVa stackRandom))) pageFlagsUserData = stack at hstack ⊢
  cases hstack with
  | error hstopped => exact .error hstopped
  | @ok stack hstack =>
  obtain ⟨hstack, hkeeps, -⟩ := hstack
  dsimp only
  split
  · exact .error (h.dropped hstack)
  split
  · exact .error (h.dropped hstack)
  -- The vDSO pages share their tables with the trampoline.
  have hpath' := hkeeps.missingTables (le_refl 3) hpath
  obtain ⟨hcode, hkeeps'⟩ := h.share vdsoBaseVa (.inl ⟨rfl, rfl⟩) hpath' hstack
  obtain ⟨hdata, -⟩ := h.share vdsoDataVa (.inr ⟨rfl, rfl⟩)
    (hkeeps'.missingTables (le_refl 3) hpath') hcode
  exact .ok ⟨⟨start, rfl⟩, hdata⟩

end

/-! ## The image -/

/-- The vDSO pages are reserved pages of the kernel. -/
structure VdsoReserved (mmfr0 : Word) (reserved : Set Word) (vdso : Vdso) : Prop where
  code : vdso.code ∈ reserved
  codeFramed : vdso.code &&& paMask mmfr0 = vdso.code
  data : vdso.data ∈ reserved
  dataFramed : vdso.data &&& paMask mmfr0 = vdso.data

/-- The pages of the vDSO. -/
def Vdso.pages (vdso : Vdso) : Set Word := {vdso.code, vdso.data}

/-- The image is put together from fresh pages and those of the vDSO. -/
theorem builds_held {Flags Stock : Word → Prop}
    {Held : PhysicalMemory → Set Word → List Word → Prop}
    (u : Upkeep mmfr0 reserved Flags Stock Held) (hcode : Flags pageFlagsUserCode)
    (hdata : Flags pageFlagsUserData) (hreadOnly : Flags pageFlagsUserDataReadOnly)
    {vdso : Vdso} (hvdso : VdsoReserved mmfr0 reserved vdso) (hnew : root ∉ roots) :
    Builds mmfr0 vdso root (fun memory => ∃ free, Held memory (insert root roots) free)
      (fun memory => ∃ free, Held memory roots free) where
  dropped := fun ⟨free, hheld⟩ => ⟨free, u.mono hheld (subset_insert root roots)⟩
  place := by
    rintro memory pageVa content flags (rfl | rfl) hbuilding
    · exact placePage_outcome u hnew hbuilding pageVa content hcode
    · exact placePage_outcome u hnew hbuilding pageVa content hdata
  share := by
    rintro _ pageVa _ _ (⟨rfl, rfl⟩ | ⟨rfl, rfl⟩) hpath hbuilding
    · exact mapShared_held u hbuilding pageVa hcode hvdso.codeFramed hvdso.code hpath
    · exact mapShared_held u hbuilding pageVa hreadOnly hvdso.dataFramed hvdso.data hpath

/-- `load_elf` adds one tree, or leaves the trees that are there. -/
theorem loadElf_shielded (hgood : Linkable mmfr0 Good) (himage : ImageGood mmfr0 Good)
    {vdso : Vdso} (hvdso : VdsoReserved mmfr0 reserved vdso)
    (h : Intact mmfr0 Good reserved roots memory) (file : List UInt8)
    (argv envp : List (List UInt8)) (random stackRandom : Nat) :
    Outcome
      (fun loaded => Intact mmfr0 Good reserved (insert loaded.1.pageTable roots) loaded.2)
      (fun stopped => Intact mmfr0 Good reserved roots stopped.2)
      (loadElf mmfr0 vdso file argv envp random stackRandom memory) := by
  refine (loadElf_outcome (fun root => Intact mmfr0 Good reserved (insert root roots)) h
    (fun root start hcreate => ?_) file argv envp random stackRandom).imp
    (fun _ hloaded => hloaded.2) fun _ hleft => hleft
  obtain ⟨_, hshield⟩ := h
  obtain ⟨rest, -, hrooted, hnew, -, -⟩ := hshield.newRoot hgood hcreate
  exact ⟨⟨rest, hrooted⟩, builds_held (Shielded.upkeep hgood)
    ⟨(pageFlagsUserCode_pageFlags mmfr0).1, himage.code⟩
    ⟨(pageFlagsUserData_pageFlags mmfr0).1, himage.data⟩
    ⟨(pageFlagsUserDataReadOnly_pageFlags mmfr0).1, himage.readOnly⟩ hvdso hnew⟩

end Bazzulto.Loader
