/-
  Memory/Layout.lean --- the address ranges that a process hands out to itself.

  Embeds the bookkeeping of `sys_mmap` and `sys_munmap` (systemcalls/memory.rs),
  `sys_brk` (systemcalls/posix_abi.rs), `mmap_anonymous_for_current`,
  `map_physical_pages_for_current` and `munmap_for_current` (scheduler/mod.rs), and
  what creation, fork and exec do to it.  The pages behind a range are the subject
  of Memory/Kernel.lean.

  Three mechanisms hand out addresses: a bump pointer, `brk`, and the loader, which
  places the stack.  None of them looks at what the others have handed out, and the
  arithmetic wraps, as in the release build.  Pages are 4 KiB, as the boot loader
  sets them up.
-/
import Bazzulto.Loader.Elf
import Mathlib.Order.CompletePartialOrder
import Mathlib.Order.Interval.Set.Disjoint

set_option autoImplicit false

namespace Bazzulto

open Foundation Loader Option Function Set MmapRegion
open BitVec (ofNat toNat_add toNat_ofNat)

/-! ## Ranges -/

/-- The addresses of a region. -/
def MmapRegion.span (region : MmapRegion) : Set Nat :=
  Ico region.base.toNat (region.base.toNat + region.length.toNat)

/-- The record of a process's address ranges: `mmap_regions`, a map from the base of a
region to the region, the bump pointer and the program break. -/
structure Layout where
  mmapRegions : List MmapRegion
  mmapNextVa : BitVec 64
  brkBase : BitVec 64
  brkCurrent : BitVec 64
  keyed : (mmapRegions.map base).Nodup

namespace Layout

variable {region : MmapRegion} {newBrk : BitVec 64}

def mmapUserBase : BitVec 64 := 0x200000000#64

def mmapMaxRegions : Nat := 4096

section

variable (layout : Layout)

/-- The brk range. -/
def heap : Set Nat :=
  Ico layout.brkBase.toNat layout.brkCurrent.toNat

/-- `mmap_regions.remove`. -/
def remove (base : BitVec 64) : Layout :=
  { layout with
    mmapRegions := layout.mmapRegions.filter fun region => region.base ≠ base
    keyed := layout.keyed.sublist (List.Sublist.map _ List.filter_sublist) }

/-- `mmap_regions.insert`. -/
def insert (region : MmapRegion) : Layout :=
  { layout.remove region.base with
    mmapRegions := region :: (layout.remove region.base).mmapRegions
    keyed := by
      rw [List.map_cons, List.nodup_cons]
      refine ⟨fun hmem => ?_, (layout.remove region.base).keyed⟩
      obtain ⟨other, hother, hbase⟩ := List.mem_map.mp hmem
      exact absurd hbase (by simpa [remove] using (List.mem_filter.mp hother).2) }

/-! ## System calls -/

/-- The arguments of `mmap`; the address and the protection are not looked at. -/
structure MmapArgs where
  addr : BitVec 64
  length : BitVec 64
  prot : BitVec 32
  flags : BitVec 32
  fd : Int
  offset : BitVec 64

/-- `MAP_ANONYMOUS`, or no descriptor. -/
def MmapArgs.isAnonymous (args : MmapArgs) : Bool :=
  args.flags &&& 0x20#32 ≠ 0#32 || args.fd < 0

/-- The length in bytes of that many pages. -/
def pagesLength (pages : Nat) : BitVec 64 := ofNat 64 (pages * 4096)

/-- The pages that a length takes, rounded up. -/
def pageCount (length : BitVec 64) : Nat := (length + 4095#64).toNat / 4096

/-- Take a range from the bump pointer. -/
def bump (length : BitVec 64) (demand : Bool) (backing : MmapBacking) : Layout :=
  { layout with mmapNextVa := layout.mmapNextVa + length }.insert
    { base := layout.mmapNextVa, length, demand, backing }

/-- The backing of a new region: anonymous, or the inode that the descriptor is open on. -/
def MmapArgs.backing (args : MmapArgs) (inode : Option Nat) : Except Int MmapBacking :=
  if args.isAnonymous then .ok .anonymous
  else if args.offset % 4096#64 ≠ 0#64 then .error EINVAL
  else
    match inode with
    | none => .error EBADF
    | some inode => .ok (.file inode args.offset)

/-- `sys_mmap`, where `inode` is what the descriptor table holds under `fd`. -/
def sysMmap (args : MmapArgs) (inode : Option Nat) : Int × Layout :=
  if args.length = 0#64 then (EINVAL, layout)
  else
    match args.backing inode with
    | .error code => (code, layout)
    | .ok backing =>
      if mmapMaxRegions ≤ layout.mmapRegions.length then (ENOMEM, layout)
      else
        (layout.mmapNextVa.toInt, layout.bump (pagesLength (pageCount args.length)) true backing)

/-- `mmap_anonymous_for_current` and `map_physical_pages_for_current`: the pages are
mapped before the region is recorded, and a page that cannot be mapped ends the call. -/
def mapPagesForCurrent (pages : Nat) (mapped : Bool) : Option (BitVec 64) × Layout :=
  if mmapMaxRegions ≤ layout.mmapRegions.length then (none, layout)
  else if !mapped then (none, layout)
  else (some layout.mmapNextVa, layout.bump (pagesLength pages) false .anonymous)

/-- `sys_munmap`: the region that starts at the address goes, whatever the length. -/
def sysMunmap (addr length : BitVec 64) : Int × Layout :=
  if addr = 0#64 ∨ length = 0#64 then (EINVAL, layout)
  else if addr % 4096#64 ≠ 0#64 then (EINVAL, layout)
  else if layout.mmapRegions.any (fun region => region.base = addr) then
    (0, layout.remove addr)
  else (EINVAL, layout)

/-- The region of the heap, which `sys_brk` keeps under `brk_base`. -/
def heapRegion (newBrk : BitVec 64) : MmapRegion :=
  match layout.mmapRegions.find? (fun region => region.base = layout.brkBase) with
  | some region => { region with base := layout.brkBase, length := newBrk - layout.brkBase }
  | none =>
    { base := layout.brkBase, length := newBrk - layout.brkBase, demand := true
      backing := .anonymous }

def sysBrk (newBrk : BitVec 64) : Int × Layout :=
  if newBrk = 0#64 then (layout.brkCurrent.toInt, layout)
  else if newBrk < layout.brkBase then (layout.brkCurrent.toInt, layout)
  else
    (newBrk.toInt,
      { layout with brkCurrent := newBrk }.insert (layout.heapRegion newBrk))

end

/-! ## Creation, exec and fork -/

/-- `Process::new`, with the random bits of the bump pointer. -/
def new (mixed : BitVec 64) : Layout where
  mmapRegions := []
  mmapNextVa := mmapUserBase + ((mixed &&& 0xFFFF#64) <<< 12)
  brkBase := 0#64
  brkCurrent := 0#64
  keyed := List.nodup_nil

/-- What `load_elf` decides of the layout: the end of the last segment and the random
number of the stack. -/
structure Loaded where
  segmentsEnd : Nat
  stackRandom : Nat

def Loaded.stackDemandTop (loaded : Loaded) : Nat :=
  userStackTopBase - aslrPageOffset loaded.stackRandom

def Loaded.stackDemandBase (loaded : Loaded) : Nat :=
  loaded.stackDemandTop - userStackPages * 4096

def Loaded.brkStart (loaded : Loaded) : Nat := alignUp loaded.segmentsEnd

/-- The demand-paged region of the stack. -/
def Loaded.stackRegion (loaded : Loaded) : MmapRegion where
  base := ofNat 64 loaded.stackDemandBase
  length := ofNat 64 (loaded.stackDemandTop - loaded.stackDemandBase)
  demand := true
  backing := .anonymous

/-- `spawn_from_ramfs`, which leaves the program break at zero. -/
def spawnFromRamfs (mixed : BitVec 64) (loaded : Loaded) : Layout :=
  (new mixed).insert loaded.stackRegion

/-- `sys_spawn`. -/
def spawn (mixed : BitVec 64) (loaded : Loaded) : Layout :=
  { spawnFromRamfs mixed loaded with
    brkBase := ofNat 64 loaded.brkStart
    brkCurrent := ofNat 64 loaded.brkStart }

/-- `sys_exec`: the regions of the old image are forgotten. -/
def exec (loaded : Loaded) : Layout :=
  { spawn 0#64 loaded with mmapNextVa := mmapUserBase }

/-- `fork` copies the regions and the bump pointer; the program break of the child is
that of a new process. -/
def fork (parent : Layout) (mixed : BitVec 64) : Layout :=
  { new mixed with
    mmapRegions := parent.mmapRegions
    mmapNextVa := parent.mmapNextVa
    keyed := parent.keyed }

/-- Whatever `load_elf` returns is such a decision. -/
theorem exists_loaded_of_loadElf {mmfr0 : BitVec 64} {vdso : Vdso}
    {file : List UInt8} {argv envp : List (List UInt8)} {random stackRandom : Nat}
    {memory memory' : Memory.PhysicalMemory} {image : LoadedImage}
    (h : loadElf mmfr0 vdso file argv envp random stackRandom memory =
      .ok (image, memory')) :
    ∃ loaded : Loaded, image.stackDemandBase = loaded.stackDemandBase ∧
      image.stackDemandTop = loaded.stackDemandTop := by
  unfold loadElf at h
  split at h
  · cases h
  split at h
  · cases h
  dsimp only at h
  split at h
  · cases h
  next segmentsEnd _ =>
    split at h
    · cases h
    split at h
    · cases h
    split at h
    · cases h
    split at h
    · cases h
    · cases h
      exact ⟨⟨segmentsEnd, stackRandom⟩, rfl, rfl⟩

/-! ## The processes -/

/-- The layout of every live process. -/
abbrev Layouts := Pid → Option Layout

/-- One event. -/
inductive Action where
  | spawnFromRamfs (child : Pid) (mixed : BitVec 64) (loaded : Loaded)
  | spawn (child : Pid) (mixed : BitVec 64) (loaded : Loaded)
  | exec (pid : Pid) (loaded : Loaded)
  | fork (parent child : Pid) (mixed : BitVec 64)
  | exit (pid : Pid)
  | mmap (pid : Pid) (args : MmapArgs) (inode : Option Nat)
  | mapPages (pid : Pid) (pages : Nat) (mapped : Bool)
  | munmap (pid : Pid) (addr length : BitVec 64)
  | brk (pid : Pid) (newBrk : BitVec 64)

section

variable (layouts : Layouts)

/-- A process that is not alive yet. -/
def create (child : Pid) (layout : Layout) : Option Layouts :=
  if layouts child = none then some (update layouts child (some layout)) else none

/-- A live process changes its layout. -/
def change (pid : Pid) (next : Layout → Layout) : Option Layouts :=
  (layouts pid).map fun layout => update layouts pid (some (next layout))

/-- The transitions of the processes. -/
def step : Action → Option Layouts
  | .spawnFromRamfs child mixed loaded => create layouts child (spawnFromRamfs mixed loaded)
  | .spawn child mixed loaded => create layouts child (spawn mixed loaded)
  | .exec pid loaded => change layouts pid fun _ => exec loaded
  | .fork parent child mixed =>
    (layouts parent).bind fun layout => create layouts child (layout.fork mixed)
  | .exit pid => some (update layouts pid none)
  | .mmap pid args inode => change layouts pid fun layout => (layout.sysMmap args inode).2
  | .mapPages pid pages mapped =>
    change layouts pid fun layout => (layout.mapPagesForCurrent pages mapped).2
  | .munmap pid addr length => change layouts pid fun layout => (layout.sysMunmap addr length).2
  | .brk pid newBrk => change layouts pid fun layout => (layout.sysBrk newBrk).2

/-! ## Tidy layouts -/

/-- The entry that `sys_brk` keeps for the brk range. -/
def IsHeap (layout : Layout) (region : MmapRegion) : Prop :=
  region.base = layout.brkBase ∧ region.length = layout.brkCurrent - layout.brkBase

/-- The region is non-empty, page aligned and in user space. -/
structure Placed (region : MmapRegion) : Prop where
  nonempty : region.span.Nonempty
  base_aligned : 4096 ∣ region.base.toNat
  length_aligned : 4096 ∣ region.length.toNat
  inUser : region.span ⊆ Iio userAddrLimit.toNat

/-- Every region is placed in user space, the regions and the brk range are pairwise
disjoint, and the brk range is in user space. -/
structure Tidy (layout : Layout) : Prop where
  placed : ∀ region ∈ layout.mmapRegions, Placed region
  disjoint : ∀ region ∈ layout.mmapRegions, ∀ other ∈ layout.mmapRegions,
    region.base ≠ other.base → Disjoint region.span other.span
  heap_disjoint : ∀ region ∈ layout.mmapRegions, ¬ layout.IsHeap region →
    Disjoint region.span layout.heap
  heap_inUser : layout.heap ⊆ Iio userAddrLimit.toNat

/-- A range of that length at the bump pointer is non-empty, in user space, and free. -/
def HasRoom (layout : Layout) (length : BitVec 64) : Prop :=
  0 < length.toNat ∧ layout.mmapNextVa.toNat + length.toNat ≤ userAddrLimit.toNat ∧
    (∀ region ∈ layout.mmapRegions, Disjoint region.span
      (Ico layout.mmapNextVa.toNat (layout.mmapNextVa.toNat + length.toNat))) ∧
    Disjoint (Ico layout.mmapNextVa.toNat (layout.mmapNextVa.toNat + length.toNat))
      layout.heap

/-- The break is page aligned, above its base and in user space, and no other region is in
the way. -/
def MayBreakAt (layout : Layout) (newBrk : BitVec 64) : Prop :=
  newBrk.toNat % 4096 = 0 ∧ layout.brkBase < newBrk ∧ newBrk ≤ userAddrLimit ∧
    ∀ region ∈ layout.mmapRegions, region.base ≠ layout.brkBase →
      Disjoint region.span (Ico layout.brkBase.toNat newBrk.toNat)

/-- What none of the calls checks. -/
def Careful : Action → Prop
  | .mmap pid args _ =>
    ∀ layout ∈ layouts pid, args.length ≠ 0#64 →
      layout.HasRoom (pagesLength (pageCount args.length))
  | .mapPages pid pages _ => ∀ layout ∈ layouts pid, layout.HasRoom (pagesLength pages)
  | .brk pid newBrk =>
    ∀ layout ∈ layouts pid, newBrk ≠ 0#64 → layout.brkBase ≤ newBrk → layout.MayBreakAt newBrk
  | _ => True

end

instance (first last first' last' : Nat) :
    Decidable (Disjoint (Ico first last) (Ico first' last')) :=
  decidable_of_iff _ Ico_disjoint_Ico.symm

instance (region : MmapRegion) (first last : Nat) :
    Decidable (Disjoint region.span (Ico first last)) :=
  inferInstanceAs (Decidable (Disjoint (Ico _ _) (Ico _ _)))

instance (layout : Layout) (first last : Nat) :
    Decidable (Disjoint (Ico first last) layout.heap) :=
  inferInstanceAs (Decidable (Disjoint (Ico _ _) (Ico _ _)))

deriving instance Decidable for Layout.HasRoom, Layout.MayBreakAt

instance (layouts : Layouts) : (action : Action) → Decidable (Careful layouts action)
  | .mmap .. | .mapPages .. | .brk .. => inferInstanceAs (Decidable (∀ layout ∈ layouts _, _))
  | .spawnFromRamfs .. | .spawn .. | .exec .. | .fork .. | .exit _ | .munmap .. => isTrue trivial

/-! ## Steps keep layouts tidy -/

/-- The invariant: the layout is tidy, and the bump pointer and the base of the heap are
page aligned. -/
structure Orderly (layout : Layout) : Prop where
  tidy : layout.Tidy
  next_aligned : 4096 ∣ layout.mmapNextVa.toNat
  brk_aligned : 4096 ∣ layout.brkBase.toNat

variable {layout : Layout}

theorem mem_remove {base : BitVec 64} :
    region ∈ (layout.remove base).mmapRegions ↔
      region ∈ layout.mmapRegions ∧ region.base ≠ base := by
  simp [remove]

theorem mem_insert {other : MmapRegion} :
    other ∈ (layout.insert region).mmapRegions ↔
      other = region ∨ other ∈ layout.mmapRegions ∧ other.base ≠ region.base := by
  rw [← mem_remove]
  exact List.mem_cons

theorem Tidy.remove (h : layout.Tidy) (base : BitVec 64) :
    (layout.remove base).Tidy where
  placed := fun region hregion => h.placed region (mem_remove.mp hregion).1
  disjoint := fun region hregion other hother =>
    h.disjoint region (mem_remove.mp hregion).1 other (mem_remove.mp hother).1
  heap_disjoint := fun region hregion => h.heap_disjoint region (mem_remove.mp hregion).1
  heap_inUser := h.heap_inUser

theorem Tidy.withNext (h : layout.Tidy) (mmapNextVa : BitVec 64) :
    { layout with mmapNextVa }.Tidy :=
  ⟨h.placed, h.disjoint, h.heap_disjoint, h.heap_inUser⟩

theorem Tidy.withBreak (h : layout.Tidy) (brk : BitVec 64) :
    { layout with brkBase := brk, brkCurrent := brk }.Tidy := by
  have hempty : ({ layout with brkBase := brk, brkCurrent := brk } : Layout).heap = ∅ :=
    Ico_self _
  refine ⟨h.placed, h.disjoint, fun region _ _ => ?_, ?_⟩
  · rw [hempty]
    exact disjoint_empty _
  · rw [hempty]
    exact empty_subset _

/-- A region may replace the one at its base, if it is disjoint from the others and from
the brk range. -/
theorem tidy_insert (hplaced : Placed region) (hrest : (layout.remove region.base).Tidy)
    (hdisjoint : ∀ other ∈ layout.mmapRegions, other.base ≠ region.base →
      Disjoint other.span region.span)
    (hheap : ¬ layout.IsHeap region → Disjoint region.span layout.heap) :
    (layout.insert region).Tidy where
  placed := by
    intro other hother
    rcases mem_insert.mp hother with rfl | hold
    · exact hplaced
    · exact hrest.placed other (mem_remove.mpr hold)
  disjoint := by
    intro first hfirst second hsecond hne
    rcases mem_insert.mp hfirst with rfl | hfirst
    · rcases mem_insert.mp hsecond with rfl | hsecond
      · exact absurd rfl hne
      · exact (hdisjoint second hsecond.1 hsecond.2).symm
    · rcases mem_insert.mp hsecond with rfl | hsecond
      · exact hdisjoint first hfirst.1 hfirst.2
      · exact hrest.disjoint first (mem_remove.mpr hfirst) second (mem_remove.mpr hsecond) hne
  heap_disjoint := by
    intro other hother hnot
    rcases mem_insert.mp hother with rfl | hold
    · exact hheap hnot
    · exact hrest.heap_disjoint other (mem_remove.mpr hold) hnot
  heap_inUser := hrest.heap_inUser

/-- A range with room for it is taken from the bump pointer. -/
theorem Orderly.bump (h : layout.Orderly) {length : BitVec 64} (hlen : 4096 ∣ length.toNat)
    (hroom : layout.HasRoom length) (demand : Bool) (backing : MmapBacking) :
    (layout.bump length demand backing).Orderly := by
  obtain ⟨_, hlimit, hregions, hheap⟩ := hroom
  have hnext := h.next_aligned
  refine ⟨tidy_insert ⟨?_, hnext, hlen, ?_⟩ ((h.tidy.withNext _).remove _) ?_
    fun _ => hheap, ?_, h.brk_aligned⟩
  · exact nonempty_Ico.mpr (by dsimp only; omega)
  · exact fun address haddress => lt_of_lt_of_le haddress.2 hlimit
  · exact fun other hother _ => hregions other hother
  · show 4096 ∣ (layout.mmapNextVa + length).toNat
    rw [toNat_add, Nat.mod_eq_of_lt (by omega)]
    exact Nat.dvd_add hnext hlen

theorem dvd_pagesLength (pages : Nat) : 4096 ∣ (pagesLength pages).toNat := by
  rw [pagesLength, toNat_ofNat]
  omega

theorem Orderly.sysMmap (h : layout.Orderly) {args : MmapArgs} {inode : Option Nat}
    (hroom : args.length ≠ 0#64 → layout.HasRoom (pagesLength (pageCount args.length))) :
    (layout.sysMmap args inode).2.Orderly := by
  unfold Layout.sysMmap
  split
  · exact h
  next hlen =>
    split
    · exact h
    · split
      · exact h
      · exact h.bump (dvd_pagesLength _) (hroom hlen) _ _

theorem Orderly.mapPagesForCurrent (h : layout.Orderly) {pages : Nat}
    (hroom : layout.HasRoom (pagesLength pages)) (mapped : Bool) :
    (layout.mapPagesForCurrent pages mapped).2.Orderly := by
  unfold Layout.mapPagesForCurrent
  split
  · exact h
  · split
    · exact h
    · exact h.bump (dvd_pagesLength _) hroom _ _

theorem Orderly.sysMunmap (h : layout.Orderly) (addr length : BitVec 64) :
    (layout.sysMunmap addr length).2.Orderly := by
  unfold Layout.sysMunmap
  split
  · exact h
  split
  · exact h
  · split
    · exact ⟨h.tidy.remove addr, h.next_aligned, h.brk_aligned⟩
    · exact h

theorem heapRegion_base (layout : Layout) (newBrk : BitVec 64) :
    (layout.heapRegion newBrk).base = layout.brkBase := by
  unfold heapRegion
  split <;> rfl

theorem heapRegion_length (layout : Layout) (newBrk : BitVec 64) :
    (layout.heapRegion newBrk).length = newBrk - layout.brkBase := by
  unfold heapRegion
  split <;> rfl

theorem Orderly.sysBrk (h : layout.Orderly)
    (hbreak : newBrk ≠ 0#64 → layout.brkBase ≤ newBrk → layout.MayBreakAt newBrk) :
    (layout.sysBrk newBrk).2.Orderly := by
  unfold Layout.sysBrk
  split
  · exact h
  next hzero =>
    split
    · exact h
    have hle : layout.brkBase ≤ newBrk := by bv_omega
    obtain ⟨_, hlt, hlimit, hothers⟩ := hbreak hzero hle
    have hspan : (layout.heapRegion newBrk).span =
        Ico layout.brkBase.toNat newBrk.toNat := by
      rw [span, heapRegion_base, heapRegion_length]
      congr 1
      bv_omega
    have hbase := h.brk_aligned
    have hheap : ({ layout with brkCurrent := newBrk } : Layout).heap ⊆
        Iio userAddrLimit.toNat := fun address haddress => by
      have hstop : address < newBrk.toNat := haddress.2
      exact lt_of_lt_of_le hstop hlimit
    refine ⟨tidy_insert ⟨?_, ?_, ?_, ?_⟩ ⟨?_, ?_, ?_, hheap⟩ ?_ ?_, h.next_aligned, h.brk_aligned⟩
    · rw [hspan]
      exact nonempty_Ico.mpr hlt
    · rw [heapRegion_base]
      exact hbase
    · rw [heapRegion_length]
      bv_omega
    · rw [hspan]
      exact hheap
    · exact (h.tidy.remove _).placed
    · exact (h.tidy.remove _).disjoint
    · intro region hregion _
      obtain ⟨hmem, hne⟩ := mem_remove.mp hregion
      rw [heapRegion_base] at hne
      exact hothers region hmem hne
    · intro region hregion hne
      rw [heapRegion_base] at hne
      rw [hspan]
      exact hothers region hregion hne
    · intro hnot
      exact absurd ⟨heapRegion_base layout newBrk, heapRegion_length layout newBrk⟩ hnot

/-- The stack that `load_elf` places. -/
theorem placed_stackRegion (loaded : Loaded) : Placed loaded.stackRegion := by
  have htop : 4096 ∣ loaded.stackDemandTop ∧ 2048 * 4096 ≤ loaded.stackDemandTop ∧
      loaded.stackDemandTop < 2 ^ 47 := by
    unfold Loaded.stackDemandTop userStackTopBase aslrPageOffset
    omega
  have hbase : loaded.stackRegion.base.toNat = loaded.stackDemandTop - 2048 * 4096 := by
    unfold Loaded.stackRegion Loaded.stackDemandBase userStackPages
    rw [toNat_ofNat]
    omega
  have hlen : loaded.stackRegion.length.toNat = 2048 * 4096 := by
    unfold Loaded.stackRegion Loaded.stackDemandBase userStackPages
    rw [toNat_ofNat]
    omega
  have hlimit : userAddrLimit.toNat = 2 ^ 48 := rfl
  refine ⟨?_, ?_, ?_, ?_⟩
  · exact nonempty_Ico.mpr (by omega)
  · omega
  · rw [hlen]
    exact Nat.dvd_mul_left _ _
  · intro _ haddress
    refine lt_of_lt_of_le haddress.2 ?_
    omega

theorem orderly_new (mixed : BitVec 64) : (new mixed).Orderly := by
  refine ⟨⟨by simp [new], by simp [new], by simp [new], ?_⟩, ?_, by simp [new]⟩
  · exact fun address haddress => absurd haddress.2 (Nat.not_lt_zero _)
  have hand : (mixed &&& 0xFFFF#64).toNat ≤ 0xFFFF := by
    exact Nat.and_le_right
  simp only [new, mmapUserBase, toNat_add, BitVec.toNat_shiftLeft, toNat_ofNat]
  omega

theorem orderly_spawnFromRamfs (mixed : BitVec 64) (loaded : Loaded) :
    (spawnFromRamfs mixed loaded).Orderly := by
  have hnew := orderly_new mixed
  refine ⟨tidy_insert (placed_stackRegion loaded) (hnew.tidy.remove _) (by simp [new])
    fun _ => ?_, hnew.next_aligned, hnew.brk_aligned⟩
  have hempty : (new mixed).heap = ∅ := Ico_self _
  rw [hempty]
  exact disjoint_empty _

theorem orderly_spawn (mixed : BitVec 64) (loaded : Loaded) : (spawn mixed loaded).Orderly := by
  have hramfs := orderly_spawnFromRamfs mixed loaded
  refine ⟨hramfs.tidy.withBreak _, hramfs.next_aligned, ?_⟩
  simp only [spawn, Loaded.brkStart, alignUp, toNat_ofNat]
  omega

theorem orderly_exec (loaded : Loaded) : (exec loaded).Orderly := by
  have hspawn := orderly_spawn 0#64 loaded
  have hnext : 4096 ∣ mmapUserBase.toNat := by decide
  exact ⟨hspawn.tidy.withNext _, hnext, hspawn.brk_aligned⟩

theorem Orderly.fork (h : layout.Orderly) (mixed : BitVec 64) : (layout.fork mixed).Orderly :=
  ⟨h.tidy.withBreak 0#64, h.next_aligned, Nat.dvd_zero _⟩

/-- The layout of every live process is in order. -/
def AllOrderly (layouts : Layouts) : Prop :=
  ∀ pid layout, layouts pid = some layout → layout.Orderly

variable {layouts : Layouts}

theorem AllOrderly.update (h : AllOrderly layouts) (pid : Pid) (hlayout : layout.Orderly) :
    AllOrderly (update layouts pid (some layout)) := by
  intro other found hfound
  rw [update_apply] at hfound
  split at hfound
  · cases hfound
    exact hlayout
  · exact h other found hfound

variable {next : Layouts}

theorem AllOrderly.create (h : AllOrderly layouts) {child : Pid} (hlayout : layout.Orderly)
    (hcreate : create layouts child layout = some next) : AllOrderly next := by
  replace hcreate := (ite_none_right_eq_some.mp hcreate).2
  cases hcreate
  exact h.update child hlayout

theorem AllOrderly.change (h : AllOrderly layouts) {pid : Pid} {effect : Layout → Layout}
    (heffect : ∀ layout, layouts pid = some layout → layout.Orderly → (effect layout).Orderly)
    (hchange : change layouts pid effect = some next) : AllOrderly next := by
  obtain ⟨layout, hlayout, rfl⟩ := map_eq_some_iff.mp hchange
  exact h.update pid (heffect layout hlayout (h pid layout hlayout))

/-- One careful step keeps every layout in order. -/
theorem AllOrderly.step {action : Action} (h : AllOrderly layouts)
    (hcareful : Careful layouts action) (hstep : step layouts action = some next) :
    AllOrderly next := by
  cases action with
  | spawnFromRamfs child mixed loaded => exact h.create (orderly_spawnFromRamfs _ _) hstep
  | spawn child mixed loaded => exact h.create (orderly_spawn _ _) hstep
  | exec pid loaded => exact h.change (fun _ _ _ => orderly_exec loaded) hstep
  | fork parent child mixed =>
    obtain ⟨layout, hparent, hcreate⟩ := bind_eq_some_iff.mp hstep
    exact h.create ((h parent layout hparent).fork mixed) hcreate
  | exit pid =>
    cases hstep
    intro other found hfound
    rw [update_apply] at hfound
    split at hfound
    · cases hfound
    · exact h other found hfound
  | mmap pid args inode =>
    exact h.change (fun layout hlayout horderly => horderly.sysMmap (hcareful layout hlayout))
      hstep
  | mapPages pid pages mapped =>
    exact h.change (fun layout hlayout horderly =>
      horderly.mapPagesForCurrent (hcareful layout hlayout) mapped) hstep
  | munmap pid addr length =>
    exact h.change (fun layout _ horderly => horderly.sysMunmap addr length) hstep
  | brk pid newBrk =>
    exact h.change (fun layout hlayout horderly => horderly.sysBrk (hcareful layout hlayout))
      hstep

/-- In every state that a careful run reaches from boot, the layout of every live process
is tidy. -/
theorem layouts_tidy_of_careful_run {actions : List Action} {layouts : Layouts}
    (hcareful : Along step Careful (fun _ => none) actions)
    (hrun : run step (fun _ => none) actions = some layouts) :
    ∀ pid layout, layouts pid = some layout → layout.Tidy := by
  have horderly : AllOrderly layouts :=
    run_invariant (I := AllOrderly) (fun _ _ _ hstate hguard hstep => hstate.step hguard hstep)
      actions _ layouts (fun _ _ hnone => absurd hnone (by simp)) hcareful hrun
  exact fun pid layout hlayout => (horderly pid layout hlayout).tidy

/-- A process maps a page and then moves its break past it. -/
def brkPastMapping : List Action :=
  [.spawn ⟨1, 1⟩ 0#64 ⟨0x500000, 0⟩, .mmap ⟨1, 1⟩ ⟨0#64, 4096#64, 3#32, 0x22#32, -1, 0#64⟩ none,
    .brk ⟨1, 1⟩ 0x200001000#64]

/-- Up to the break the layout is tidy. -/
theorem layouts_tidy_before_brk :
    Along step Careful (fun _ => none) (brkPastMapping.take 2) ∧
      ∃ layouts, run step (fun _ => none) (brkPastMapping.take 2) = some layouts ∧
        ∀ pid layout, layouts pid = some layout → layout.Tidy := by
  have hcareful : Along step Careful (fun _ => none) (brkPastMapping.take 2) := by
    decide +kernel
  have hsome : (run step (fun _ => none) (brkPastMapping.take 2)).isSome = true := by
    decide +kernel
  obtain ⟨layouts, hrun⟩ := isSome_iff_exists.mp hsome
  exact ⟨hcareful, layouts, hrun, layouts_tidy_of_careful_run hcareful hrun⟩

/-- The brk range then covers the mapped page. -/
theorem brk_covers_mapping :
    ∃ layouts layout, run step (fun _ => none) brkPastMapping = some layouts ∧
      layouts ⟨1, 1⟩ = some layout ∧ 0x200000000 ∈ layout.heap ∧ ¬ layout.Tidy := by
  have hview : ((run step (fun _ => none) brkPastMapping).bind fun layouts =>
      (layouts ⟨1, 1⟩).map fun layout =>
        (layout.brkBase, layout.brkCurrent, layout.mmapRegions.map MmapRegion.base)) =
      some (0x500000#64, 0x200001000#64, [0x500000#64, 0x200000000#64, 0x7fffff7ff000#64]) := by
    decide +kernel
  obtain ⟨layouts, hrun, hview⟩ := bind_eq_some_iff.mp hview
  obtain ⟨layout, hlayout, hview⟩ := map_eq_some_iff.mp hview
  simp only [Prod.mk.injEq] at hview
  obtain ⟨hbase, hcurrent, hbases⟩ := hview
  have hmem : 0x200000000 ∈ layout.heap := by
    rw [heap, hbase, hcurrent]
    decide
  refine ⟨layouts, layout, hrun, hlayout, hmem, fun htidy => ?_⟩
  have hregion : ∃ region ∈ layout.mmapRegions, region.base = 0x200000000#64 := by
    have hin : 0x200000000#64 ∈ layout.mmapRegions.map MmapRegion.base := by
      rw [hbases]
      decide
    exact List.mem_map.mp hin
  obtain ⟨region, hregion, hstart⟩ := hregion
  have hnot : ¬ layout.IsHeap region := by
    rintro ⟨hheap, _⟩
    rw [hstart, hbase] at hheap
    cases hheap
  have hfirst : 0x200000000 ∈ region.span := by
    obtain ⟨_, haddress⟩ := (htidy.placed region hregion).nonempty
    rw [MmapRegion.span, hstart] at haddress ⊢
    exact ⟨le_rfl, lt_of_le_of_lt haddress.1 haddress.2⟩
  exact disjoint_left.mp (htidy.heap_disjoint region hregion hnot) hfirst hmem

end Layout
end Bazzulto
