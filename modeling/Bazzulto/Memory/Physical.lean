/-
  Memory/Physical.lean --- physical memory and the page allocator.

  Embeds `PhysicalAllocator` (kernel/src/memory/physical.rs).  The free list is
  threaded through the free pages themselves, so the allocator and the memory it
  manages are one state.  Memory is addressed by page and word: every address
  the kernel forms here is a page-aligned physical address plus a word index.
  The HHDM window, through which the kernel reaches physical memory, is the
  identity and left out, as are the byte totals of `init`.
-/
import Mathlib.Data.BitVec
import Mathlib.Data.List.Basic

set_option autoImplicit false

namespace Bazzulto.Memory

open List

/-- A machine word, a physical or a virtual address. -/
abbrev Word := BitVec 64

/-- The position of a word in a page, and of an entry in a page table. -/
abbrev Index := Fin 512

/-- The words of a 4 KiB page. -/
abbrev Page := Index → Word

/-- The page that `write_bytes(ptr, 0, 4096)` leaves. -/
def zeroPage : Page := fun _ => 0#64

/-- The word of a free page that says whether a next one follows. -/
def nodeTag : Index := 0

/-- The word of a free page that holds the address of the next one. -/
def nodeLink : Index := 1

/-- Physical memory with the fields of `PhysicalAllocator`. -/
structure PhysicalMemory where
  pages : Word → Page
  freeListHead : Option Word
  freePageCount : Nat

namespace PhysicalMemory

variable {page other : Word} {memory memory' : PhysicalMemory} {free : List Word}

/-! ## Words and pages -/

section

variable (memory : PhysicalMemory)

/-- Replace a page. -/
def fill (page : Word) (content : Page) : PhysicalMemory :=
  { memory with
    pages := fun other => if other = page then content else memory.pages other }

/-- Store one word. -/
def write (page : Word) (index : Index) (word : Word) : PhysicalMemory :=
  memory.fill page fun other => if other = index then word else memory.pages page other

@[simp] theorem write_freeListHead (page : Word) (index : Index) (word : Word) :
    (memory.write page index word).freeListHead = memory.freeListHead := rfl

theorem fill_pages (page other : Word) (content : Page) :
    (memory.fill page content).pages other =
      if other = page then content else memory.pages other := rfl

theorem fill_pages_of_ne (content : Page) (h : other ≠ page) :
    (memory.fill page content).pages other = memory.pages other :=
  if_neg h

theorem write_pages_of_ne (index : Index) (word : Word) (h : other ≠ page) :
    (memory.write page index word).pages other = memory.pages other :=
  if_neg h

theorem write_pages (page other : Word) (index j : Index) (word : Word) :
    (memory.write page index word).pages other j =
      if other = page ∧ j = index then word else memory.pages other j := by
  unfold write
  rw [fill_pages]
  obtain rfl | hpage := eq_or_ne other page
  · by_cases hidx : j = index <;> simp
  · simp [hpage]

/-! ## The free list -/

/-- `FreePage::next`, read from the start of a free page.  A node is the tag of
the option and the address. -/
def next (page : Word) : Option Word :=
  if memory.pages page nodeTag = 0#64 then none else some (memory.pages page nodeLink)

/-- Store a node.  The address word of `None` keeps what was there. -/
def setNext (page : Word) : Option Word → PhysicalMemory
  | none => memory.write page nodeTag 0#64
  | some link => (memory.write page nodeTag 1#64).write page nodeLink link

/-- `alloc`: the head of the free list. -/
def alloc : Option (Word × PhysicalMemory) :=
  match memory.freeListHead with
  | none => none
  | some head =>
    some (head, { memory with
      freeListHead := memory.next head
      freePageCount := memory.freePageCount - 1 })

/-- `free_page`: the page becomes the head of the free list. -/
def freePage (page : Word) : PhysicalMemory :=
  { memory.setNext page memory.freeListHead with
    freeListHead := some page
    freePageCount := memory.freePageCount + 1 }

end

/-- `new` and the second pass of `init`: the usable pages are freed one by one. -/
def init (content : Word → Page) (usable : List Word) : PhysicalMemory :=
  usable.foldl freePage ⟨content, none, 0⟩

/-- The page at a position of the free list. -/
def freeAt (memory : PhysicalMemory) : Nat → Option Word
  | 0 => memory.freeListHead
  | n + 1 => (memory.freeAt n).bind memory.next

/-- The nodes from `head` on are those of `free`, and the list ends there. -/
def FreeList (memory : PhysicalMemory) : Option Word → List Word → Prop
  | none, [] => True
  | some head, page :: free => head = page ∧ memory.FreeList (memory.next head) free
  | _, _ => False

theorem setNext_pages_of_ne (memory : PhysicalMemory) (link : Option Word) (h : other ≠ page) :
    (memory.setNext page link).pages other = memory.pages other := by
  cases link with
  | none => exact memory.write_pages_of_ne nodeTag 0#64 h
  | some address =>
    exact (write_pages_of_ne _ nodeLink address h).trans
      (memory.write_pages_of_ne nodeTag 1#64 h)

theorem freePage_pages_of_ne (memory : PhysicalMemory) (h : other ≠ page) :
    (memory.freePage page).pages other = memory.pages other :=
  memory.setNext_pages_of_ne memory.freeListHead h

theorem next_setNext (memory : PhysicalMemory) (page : Word) (link : Option Word) :
    (memory.setNext page link).next page = link := by
  cases link <;> simp [setNext, next, write_pages, nodeTag, nodeLink]

/-- A list depends on its pages only. -/
theorem FreeList.congr {head : Option Word} (h : memory.FreeList head free)
    (hpages : ∀ page ∈ free, memory'.pages page = memory.pages page) :
    memory'.FreeList head free := by
  induction free generalizing head with
  | nil =>
    cases head with
    | none => trivial
    | some head => exact h
  | cons page free ih =>
    cases head with
    | none => exact h
    | some head =>
      obtain ⟨rfl, hrest⟩ := h
      refine ⟨rfl, ?_⟩
      rw [next, hpages head mem_cons_self]
      exact ih hrest fun page hmem => hpages page (mem_cons_of_mem _ hmem)

theorem FreeList.head {head : Option Word} (h : memory.FreeList head free) :
    head = free.head? ∧ memory.FreeList (head.bind memory.next) free.tail := by
  cases head <;> cases free
  · exact ⟨rfl, trivial⟩
  · exact h.elim
  · exact h.elim
  · exact ⟨congrArg some h.1, h.2⟩

theorem FreeList.getElem? (h : memory.FreeList memory.freeListHead free) (n : Nat) :
    memory.freeAt n = free[n]? := by
  -- The list from position `n` on is what is left of `free`.
  have hdrop : memory.FreeList (memory.freeAt n) (free.drop n) := by
    induction n with
    | zero => exact h
    | succ n ih =>
      rw [← tail_drop]
      exact ih.head.2
  rw [← head?_drop]
  exact hdrop.head.1

/-- `alloc` takes the first page of the list. -/
theorem alloc_of_freeList (h : memory.FreeList memory.freeListHead (page :: free)) :
    memory.alloc = some (page, { memory with
      freeListHead := memory.next page
      freePageCount := memory.freePageCount - 1 }) := by
  rw [alloc, h.head.1]
  rfl

theorem alloc_of_freeList_nil (h : memory.FreeList memory.freeListHead []) :
    memory.alloc = none := by
  rw [alloc, h.head.1]
  rfl

end PhysicalMemory

end Bazzulto.Memory
