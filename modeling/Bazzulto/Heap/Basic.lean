/-
  Heap/Basic.lean --- the kernel heap.

  Embeds `KernelHeap` (kernel/src/memory/heap.rs): the first-fit list of blocks
  threaded through the heap's own memory, and the slab freelists threaded through
  the payloads of blocks.  All accesses are to aligned words, so memory gives a word
  at each address, and a header is three words.

  A loop over the list is given a bound on its rounds that is read off the size of
  the heap; `none` is a loop that has not ended by then.  Whether pages can be
  mapped is decided outside, and comes with each call that may map some.
-/
import Bazzulto.Foundation.Blocks
import Mathlib.Data.List.FinRange
import Mathlib.Data.BitVec

set_option autoImplicit false

namespace Bazzulto.Heap

open Foundation

/-! ## Constants -/

def heapMinAlign : Nat := 16
def minBlockSize : Nat := 64
def heapGrowthPages : Nat := 8
def heapInitialPages : Nat := 4
def maxAllocSize : Nat := 32 * 1024 * 1024
def headerSize : Nat := 32
def blockMagicFree : Nat := 0xDEADBEEFFEEDF4EE
def blockMagicUsed : Nat := 0xCAFEBABEABCD1234

/-- The word that `write_bytes(_, 0xCC, _)` leaves. -/
def poison : Nat := 0xCCCCCCCCCCCCCCCC

def slabClassCount : Nat := 9

abbrev SlabClass := Fin slabClassCount

/-- `SLAB_CLASS_SIZES`: 16 to 4096. -/
def slabClassSize (slab : SlabClass) : Nat := 16 * 2 ^ slab.val

def slabClassForSize (size : Nat) : Option SlabClass :=
  (List.finRange slabClassCount).find? fun slab => size ≤ slabClassSize slab

example : (List.finRange slabClassCount).map slabClassSize =
    [16, 32, 64, 128, 256, 512, 1024, 2048, 4096] := by decide

/-- `align_up`; the alignment is a power of two. -/
def alignUp (value alignment : Nat) : Nat := (value + (alignment - 1)) / alignment * alignment

def readPageSize (tcr : BitVec 64) : Nat :=
  if tcr >>> 30 &&& 3 = 1 then 16 * 1024
  else if tcr >>> 30 &&& 3 = 3 then 64 * 1024
  else 4 * 1024

/-! ## Headers -/

structure BlockHeader where
  magic : Nat
  size : Nat
  next : Nat
  deriving DecidableEq, Repr

def readHeader (mem : Words) (address : Nat) : BlockHeader :=
  ⟨mem address, mem (address + 8), mem (address + 16)⟩

def writeHeader (mem : Words) (address : Nat) (header : BlockHeader) : Words :=
  ((mem.store address header.magic).store (address + 8) header.size).store (address + 16)
    header.next

/-! ## The heap -/

inductive AllocContext where
  | kernel
  | atomic
  deriving DecidableEq, Repr

structure KernelHeap where
  head : Nat
  currentEnd : Nat
  base : Nat
  pageSize : Nat
  slabFreeHeads : SlabClass → Nat
  slabAllocCount : Nat
  slabFreeCount : Nat
  totalAllocatedBytes : Nat
  peakAllocatedBytes : Nat
  allocCount : Nat
  freeCount : Nat

/-- The heap and the memory it lies in. -/
structure Arena where
  heap : KernelHeap
  mem : Words

/-- Which of the two mappings that `grow_for_size` may ask for succeed. -/
structure Mapping where
  batch : Bool
  minimum : Bool
  deriving DecidableEq, Repr

inductive FreeError where
  | outOfRange
  | doubleFree
  | corrupt
  deriving DecidableEq, Repr

/-- `KernelHeap::new`: the heap begins one page behind the kernel image. -/
def KernelHeap.new (kernelEnd pageSize : Nat) : KernelHeap where
  head := 0
  currentEnd := alignUp kernelEnd pageSize + pageSize
  base := alignUp kernelEnd pageSize + pageSize
  pageSize := pageSize
  slabFreeHeads _ := 0
  slabAllocCount := 0
  slabFreeCount := 0
  totalAllocatedBytes := 0
  peakAllocatedBytes := 0
  allocCount := 0
  freeCount := 0

/-- More rounds than there are blocks in the heap. -/
def KernelHeap.rounds (heap : KernelHeap) : Nat :=
  (heap.currentEnd - heap.base) / headerSize + 1

/-- Count allocated bytes. -/
def KernelHeap.addAllocated (heap : KernelHeap) (size : Nat) : KernelHeap :=
  { heap with
    totalAllocatedBytes := heap.totalAllocatedBytes + size
    peakAllocatedBytes := max heap.peakAllocatedBytes (heap.totalAllocatedBytes + size) }

def KernelHeap.recordAlloc (heap : KernelHeap) (size : Nat) : KernelHeap :=
  { heap.addAllocated size with allocCount := heap.allocCount + 1 }

/-! ## The first-fit list -/

/-- Mark a free block as used, and split it if the remainder would be useful. -/
def takeBlock (mem : Words) (current needed : Nat) : Words :=
  let block := readHeader mem current
  if needed + headerSize + minBlockSize ≤ block.size then
    let remainder := current + headerSize + needed
    writeHeader
      (writeHeader mem remainder ⟨blockMagicFree, block.size - needed - headerSize, block.next⟩)
      current ⟨blockMagicUsed, needed, remainder⟩
  else writeHeader mem current { block with magic := blockMagicUsed }

/-- The loop of `find_free_block`: the payload, if a block was found. -/
def findFreeFrom (needed : Nat) : Nat → Words → Nat → Option (Option Nat × Words)
  | 0, _, _ => none
  | rounds + 1, mem, current =>
    if current = 0 then some (none, mem)
    else
      let block := readHeader mem current
      if block.magic = blockMagicFree ∧ needed ≤ block.size then
        some (some (current + headerSize), takeBlock mem current needed)
      else findFreeFrom needed rounds mem block.next

/-- The loop of `coalesce`. -/
def coalesceFrom : Nat → Words → Nat → Option Words
  | 0, _, _ => none
  | rounds + 1, mem, current =>
    if current = 0 then some mem
    else
      let block := readHeader mem current
      let next := readHeader mem block.next
      if (block.magic = blockMagicFree ∧ block.next ≠ 0) ∧ next.magic = blockMagicFree then
        -- not advanced: the new neighbour may be free as well
        coalesceFrom rounds
          (writeHeader mem current
            { block with size := block.size + (headerSize + next.size), next := next.next })
          current
      else coalesceFrom rounds mem block.next

/-- The search for the last block in `register_grown_pages`. -/
def tailFrom : Nat → Words → Nat → Option Nat
  | 0, _, _ => none
  | rounds + 1, mem, tail =>
    if (readHeader mem tail).next = 0 then some tail
    else tailFrom rounds mem (readHeader mem tail).next

/-- The new block becomes part of a free last block that it is contiguous with, and
the last block otherwise. -/
def linkTail (mem : Words) (tail newBlock size : Nat) : Words :=
  let block := readHeader mem tail
  if block.magic = blockMagicFree ∧ tail + headerSize + block.size = newBlock then
    writeHeader mem tail { block with size := block.size + (headerSize + size) }
  else writeHeader mem tail { block with next := newBlock }

namespace Arena

variable (arena : Arena)

def findFreeBlock (needed : Nat) : Option (Option Nat × Arena) :=
  (findFreeFrom needed arena.heap.rounds arena.mem arena.heap.head).map
    fun (found, mem) => (found, { arena with mem := mem })

def coalesce : Option Arena :=
  (coalesceFrom arena.heap.rounds arena.mem arena.heap.head).map
    fun mem => { arena with mem := mem }

def registerGrownPages (pageCount : Nat) : Option Arena :=
  let heap := arena.heap
  let actualBytes := pageCount * heap.pageSize
  let newBlock := heap.currentEnd
  let size := actualBytes - headerSize
  let mem := writeHeader arena.mem newBlock ⟨blockMagicFree, size, 0⟩
  let grown := { heap with currentEnd := heap.currentEnd + actualBytes }
  if heap.head = 0 then some ⟨{ grown with head := newBlock }, mem⟩
  else
    (tailFrom heap.rounds mem heap.head).map fun tail => ⟨grown, linkTail mem tail newBlock size⟩

/-- `grow_for_size`: whether the heap has grown. -/
def growForSize (neededBytes : Nat) (mapping : Mapping) : Option (Bool × Arena) :=
  let pageSize := arena.heap.pageSize
  let pagesNeeded := max ((neededBytes + (pageSize - 1)) / pageSize) 1
  let batch := max pagesNeeded heapGrowthPages
  if mapping.batch then (arena.registerGrownPages batch).map (true, ·)
  else if pagesNeeded < batch ∧ mapping.minimum then
    (arena.registerGrownPages pagesNeeded).map (true, ·)
  else some (false, arena)

def init (mapped : Bool) : Option Arena :=
  if mapped then arena.registerGrownPages heapInitialPages else some arena

/-- The attempts that `alloc_bytes` and `alloc_from_firstfit` share: the list as it
is, the list after `coalesce`, and, if the heap may grow, the grown list. -/
def firstFit (needed : Nat) (mayGrow : Bool) (mapping : Mapping) :
    Option (Option Nat × Arena) := do
  match ← arena.findFreeBlock needed with
  | (some payload, arena) => return (some payload, arena)
  | (none, arena) =>
    let arena ← arena.coalesce
    match ← arena.findFreeBlock needed with
    | (some payload, arena) => return (some payload, arena)
    | (none, arena) =>
      if mayGrow then
        match ← arena.growForSize needed mapping with
        | (true, arena) => arena.findFreeBlock needed
        | (false, arena) => return (none, arena)
      else return (none, arena)

def allocFromFirstfit (size : Nat) (mapping : Mapping) : Option (Option Nat × Arena) :=
  arena.firstFit (alignUp size heapMinAlign) true mapping

/-- `alloc_bytes`.  The alignment is left out: only debug assertions read it, and
every payload is aligned to 16 bytes. -/
def allocBytes (size : Nat) (context : AllocContext) (mapping : Mapping) :
    Option (Option Nat × Arena) :=
  if size = 0 ∨ maxAllocSize < size then some (none, arena)
  else do
    let alignedSize := alignUp size heapMinAlign
    match ← arena.firstFit alignedSize (context = .kernel) mapping with
    | (some payload, arena) =>
      return (some payload, { arena with heap := arena.heap.recordAlloc alignedSize })
    | (none, arena) => return (none, arena)

def freeBytes (payload : Nat) : Except FreeError Arena :=
  let heap := arena.heap
  if payload < heap.base + headerSize ∨ heap.currentEnd ≤ payload then .error .outOfRange
  else
    let address := payload - headerSize
    let block := readHeader arena.mem address
    if block.magic = blockMagicFree then .error .doubleFree
    else if block.magic ≠ blockMagicUsed then .error .corrupt
    else
      let mem := arena.mem.fill payload block.size poison
      .ok
        { heap :=
            { heap with
              totalAllocatedBytes := heap.totalAllocatedBytes - block.size
              freeCount := heap.freeCount + 1 }
          mem := writeHeader mem address { block with magic := blockMagicFree } }

/-! ## The slab layer -/

/-- Count a slab allocation. -/
def recordSlab (heap : KernelHeap) (size : Nat) : KernelHeap :=
  { heap.addAllocated size with slabAllocCount := heap.slabAllocCount + 1 }

def slabAlloc (size : Nat) (mapping : Mapping) : Option (Option Nat × Arena) :=
  match slabClassForSize size with
  | none => some (none, arena)
  | some slab =>
    let head := arena.heap.slabFreeHeads slab
    if head ≠ 0 then
      let heap := { arena.heap with
        slabFreeHeads := Function.update arena.heap.slabFreeHeads slab (arena.mem head) }
      some (some head, ⟨recordSlab heap (slabClassSize slab), arena.mem.store head 0⟩)
    else
      (arena.allocFromFirstfit (slabClassSize slab) mapping).map fun
        | (some payload, arena) =>
          (some payload,
            { arena with heap := recordSlab arena.heap (slabClassSize slab) })
        | (none, arena) => (none, arena)

/-- `slab_free`.  A size without a class stops a kernel with debug assertions, and is
ignored otherwise. -/
def slabFree (payload size : Nat) : Arena :=
  match slabClassForSize size with
  | none => arena
  | some slab =>
    let heap := arena.heap
    { heap :=
        { heap with
          slabFreeHeads := Function.update heap.slabFreeHeads slab payload
          slabFreeCount := heap.slabFreeCount + 1
          totalAllocatedBytes := heap.totalAllocatedBytes - slabClassSize slab }
      mem := (arena.mem.fill payload (slabClassSize slab) poison).store payload
        (heap.slabFreeHeads slab) }

end Arena

/-! ## Callers -/

/-- The heap with what its callers hold: the start and the length of each block that
was handed out and not freed. -/
structure State where
  arena : Arena
  live : List (Nat × Nat)

/-- What may happen to the heap. -/
inductive Op where
  | init (mapped : Bool)
  | alloc (size : Nat) (context : AllocContext) (mapping : Mapping)
  | free (payload : Nat)
  | slabAlloc (size : Nat) (mapping : Mapping)
  | slabFree (payload size : Nat)
  | grow (neededBytes : Nat) (mapping : Mapping)
  | coalesce
  -- a caller writes a word of a block it holds
  | write (address value : Nat)
  deriving DecidableEq, Repr

/-- Hand a block out, if there is one. -/
def State.hand (live : List (Nat × Nat)) (length : Nat) : Option Nat × Arena → State
  | (some payload, arena) => ⟨arena, (payload, length) :: live⟩
  | (none, arena) => ⟨arena, live⟩

/-- One operation; `none` is one that does not end. -/
def step (state : State) : Op → Option State
  | .init mapped => (state.arena.init mapped).map fun arena => { state with arena := arena }
  | .alloc size context mapping =>
    (state.arena.allocBytes size context mapping).map
      (State.hand state.live (alignUp size heapMinAlign))
  | .free payload =>
    match state.arena.freeBytes payload with
    | .ok arena => some ⟨arena, state.live.filter fun range => range.1 ≠ payload⟩
    | .error _ => some state
  | .slabAlloc size mapping =>
    (state.arena.slabAlloc size mapping).map
      (State.hand state.live (((slabClassForSize size).map slabClassSize).getD 0))
  | .slabFree payload size =>
    some ⟨state.arena.slabFree payload size, state.live.filter fun range => range.1 ≠ payload⟩
  | .grow neededBytes mapping =>
    (state.arena.growForSize neededBytes mapping).map fun (_, arena) =>
      { state with arena := arena }
  | .coalesce => state.arena.coalesce.map fun arena => { state with arena := arena }
  | .write address value =>
    some { state with
      arena := { state.arena with mem := state.arena.mem.store address value } }

/-- The heap at boot. -/
def State.new (kernelEnd : Nat) (tcr : BitVec 64) (mem : Words) : State where
  arena := ⟨.new kernelEnd (readPageSize tcr), mem⟩
  live := []

/-- Callers free live blocks only, give `slab_free` a size whose class the block was
made for, and write to their own blocks. -/
def Proper (state : State) : Op → Prop
  | .free payload => payload ∈ state.live.map Prod.fst
  | .slabFree payload size =>
    ∃ slab, slabClassForSize size = some slab ∧
      ∃ range ∈ state.live, range.1 = payload ∧ slabClassSize slab ≤ range.2
  | .write address _ =>
    8 ∣ address ∧ ∃ range ∈ state.live, range.1 ≤ address ∧ address < range.1 + range.2
  | _ => True

instance Proper.decidable (state : State) : (op : Op) → Decidable (Proper state op)
  | .free _ => inferInstanceAs (Decidable (_ ∈ _))
  | .slabFree _ _ => inferInstanceAs (Decidable (∃ _ : SlabClass, _ ∧ ∃ range ∈ _, _))
  | .write _ _ => inferInstanceAs (Decidable (_ ∧ ∃ range ∈ _, _))
  | .init _ | .alloc _ _ _ | .slabAlloc _ _ | .grow _ _ | .coalesce => isTrue trivial

end Bazzulto.Heap
