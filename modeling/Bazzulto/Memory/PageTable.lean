/-
  Memory/PageTable.lean --- the four-level user page tables.

  Embeds `PageTable` (kernel/src/memory/virtual_memory.rs): descriptors, `map`,
  `unmap_range`, `cow_copy_user` and `deep_copy_user` with their rollback,
  `collect_cow_pages`.  A page table is the address of its level-0 table.  TLB
  maintenance is left out.

  The mask that takes the address out of a descriptor depends on the register
  ID_AA64MMFR0_EL1, which is a parameter, `mmfr0`, throughout.

  Where a function fails with `OutOfPhysicalMemory` it has changed memory
  already, so the error carries the memory it leaves.
-/
import Bazzulto.Memory.Physical
import Bazzulto.Foundation.Radix
import Mathlib.Data.List.FinRange

set_option autoImplicit false

namespace Bazzulto.Memory

open Foundation.Radix PhysicalMemory BitVec

/-! ## Descriptors -/

def pageValid : Word := 1#64 <<< 0

def pageTable : Word := 1#64 <<< 1

def pageAccessFlag : Word := 1#64 <<< 10

def pagePxn : Word := 1#64 <<< 53

def pageUxn : Word := 1#64 <<< 54

def pageAttrNormal : Word := 0#64 <<< 2

/-- The access permission bits AP[2:1]. -/
def pageAccessBits : Word := 3#64 <<< 6

def pageUserReadWrite : Word := 1#64 <<< 6

def pageUserReadOnly : Word := 3#64 <<< 6

def pageCow : Word := 1#64 <<< 55

def pageShInner : Word := 3#64 <<< 8

def pageFlagsUserCode : Word :=
  pageValid ||| pageTable ||| pageAccessFlag ||| pageUserReadOnly |||
    pageAttrNormal ||| pageShInner ||| pagePxn

def pageFlagsUserDataReadOnly : Word :=
  pageValid ||| pageTable ||| pageAccessFlag ||| pageUserReadOnly |||
    pageAttrNormal ||| pageShInner ||| pagePxn ||| pageUxn

def pageFlagsUserData : Word :=
  pageValid ||| pageTable ||| pageAccessFlag ||| pageUserReadWrite |||
    pageAttrNormal ||| pageShInner ||| pagePxn ||| pageUxn

/-- `read_pa_bits`: the physical address size in PARange. -/
def readPaBits (mmfr0 : Word) : Nat :=
  match (mmfr0 &&& 0xF#64).toNat with
  | 0 => 32
  | 1 => 36
  | 2 => 40
  | 3 => 42
  | 4 => 44
  | 5 => 48
  | 6 => 52
  | _ => 48

def paMask (mmfr0 : Word) : Word :=
  ((1#64 <<< readPaBits mmfr0) - 1#64) &&& ~~~0xFFF#64

/-- The test `entry & PAGE_VALID != 0`. -/
def Valid (entry : Word) : Prop := entry &&& pageValid ≠ 0#64
  deriving Decidable

/-- The descriptor of a table, as `map` and `cow_copy_user` write it. -/
def tableEntry (table : Word) : Word := table ||| pageValid ||| pageTable

/-- The descriptor that `cow_copy_user` gives a page in both tables: read-only
and marked when it was writable, unchanged otherwise. -/
def cowEntry (entry : Word) : Word :=
  if entry &&& pageAccessBits = pageUserReadWrite then
    (entry &&& ~~~(pageAccessBits ||| pageCow)) ||| pageUserReadOnly ||| pageCow
  else entry

/-! ## Indices -/

/-- Nine address bits, from `shift` on. -/
def levelIndex (shift : Nat) (address : Word) : Index :=
  ⟨((address >>> shift) &&& 0x1FF#64).toNat, by
    rw [toNat_and]
    exact Nat.lt_of_le_of_lt Nat.and_le_right (by decide)⟩

section

variable (address : Word)

def level0Index : Index := levelIndex 39 address

def level1Index : Index := levelIndex 30 address

def level2Index : Index := levelIndex 21 address

def level3Index : Index := levelIndex 12 address

/-- The entries that lead to the last-level table of an address. -/
def tablePath : List Index :=
  [level0Index address, level1Index address, level2Index address]

/-- The entries that a walk for an address goes through. -/
def pagePath : List Index :=
  tablePath address ++ [level3Index address]

end

/-- `0..TABLE_ENTRY_COUNT`. -/
def tableEntries : List Index := List.finRange 512

/-- `0..256`, the level-0 entries of the user half. -/
def userEntries : List Index := tableEntries.filter fun index => index.val < 256

section

variable (mmfr0 : Word) {flags page bits table : Word} {memory memory' : PhysicalMemory}

/-! ## Walking -/

section

variable (memory : PhysicalMemory)

/-- What a valid entry points at: the next table, or the page of a leaf. -/
def child (table : Word) (index : Index) : Option Word :=
  let entry := memory.pages table index
  if Valid entry then some (entry &&& paMask mmfr0) else none

/-- The page mapped at an address. -/
def translate (root address : Word) : Option Word :=
  follow (child mmfr0 memory) root (pagePath address)

/-! ## Mapping -/

/-- `create_table`: a zeroed page. -/
def createTable : Option (Word × PhysicalMemory) :=
  match memory.alloc with
  | none => none
  | some (table, memory) => some (table, memory.fill table zeroPage)

/-- The loop that frees the tables of a failed `map`.  The entries that point at
them stay. -/
def freeTables (fresh : List Word) : PhysicalMemory :=
  fresh.foldl freePage memory

end

/-- `get_or_create!`, once for each entry of a path: follow the entry or create
the table it is missing.  `fresh` is `newly_allocated`. -/
def getOrCreate (memory : PhysicalMemory) (table : Word) (path : List Index)
    (fresh : List Word) : Except PhysicalMemory (Word × PhysicalMemory) :=
  match path with
  | [] => .ok (table, memory)
  | index :: path =>
    match child mmfr0 memory table index with
    | some next => getOrCreate memory next path fresh
    | none =>
      match createTable memory with
      | none => .error (freeTables memory fresh)
      | some (created, memory) =>
        getOrCreate (memory.write table index (tableEntry created)) created path
          (fresh ++ [created])

def map (memory : PhysicalMemory) (root address page flags : Word) :
    Except PhysicalMemory PhysicalMemory :=
  match getOrCreate mmfr0 memory root (tablePath address) [] with
  | .error memory => .error memory
  | .ok (table, memory) =>
    .ok (memory.write table (level3Index address) (page ||| flags))

/-- One turn of `unmap_range`: free the page mapped at an address and clear its
entry. -/
def unmapPage (root : Word) (memory : PhysicalMemory) (address : Word) : PhysicalMemory :=
  match follow (child mmfr0 memory) root (tablePath address) with
  | none => memory
  | some table =>
    match child mmfr0 memory table (level3Index address) with
    | none => memory
    | some page => (memory.freePage page).write table (level3Index address) 0#64

/-- The addresses of `unmap_range`. -/
def rangeAddresses (address : Word) (pageCount : Nat) (pageSize : Word) : List Word :=
  (List.range pageCount).map fun i => address + BitVec.ofNat 64 i * pageSize

def unmapRange (memory : PhysicalMemory) (root address : Word) (pageCount : Nat)
    (pageSize : Word) : PhysicalMemory :=
  (rangeAddresses address pageCount pageSize).foldl (unmapPage mmfr0 root) memory

/-! ## Copying for fork -/

/-- The innermost loop of `cow_copy_user`: both tables get the same descriptor
for the page. -/
def shareLeaf (source copy : Word) (memory : PhysicalMemory) (index : Index) : PhysicalMemory :=
  let entry := memory.pages source index
  if Valid entry then
    (memory.write source index (cowEntry entry)).write copy index (cowEntry entry)
  else memory

/-- The loops of both copies over the entries of a table, which has `height` levels of tables
below it, with `leaf` as the innermost body.  Running out of pages ends all of them. -/
def copyTree (leaf : Word → Word → PhysicalMemory → Index → Except PhysicalMemory PhysicalMemory) :
    (height : Nat) → List Index → (source copy : Word) →
    PhysicalMemory → Except PhysicalMemory PhysicalMemory
  | 0, indices, source, copy, memory => indices.foldlM (leaf source copy) memory
  | height + 1, indices, source, copy, memory =>
    indices.foldlM (fun memory index =>
      match child mmfr0 memory source index with
      | none => .ok memory
      | some next =>
        match createTable memory with
        | none => .error memory
        | some (table, memory) =>
          copyTree leaf height tableEntries next table
            (memory.write copy index (tableEntry table))) memory

/-- The loops of `cow_copy_user`. -/
def copyEntries : (height : Nat) → List Index → (source copy : Word) →
    PhysicalMemory → Except PhysicalMemory PhysicalMemory :=
  copyTree mmfr0 fun source copy memory index => .ok (shareLeaf source copy memory index)

/-- The loops of `free_partial_copy` over the entries of a table: what is below
an entry is freed first, then what the entry points at. -/
def freeEntries : (height : Nat) → List Index → (table : Word) → PhysicalMemory → PhysicalMemory
  | 0, indices, table, memory =>
    indices.foldl (fun memory index =>
      match child mmfr0 memory table index with
      | none => memory
      | some page => memory.freePage page) memory
  | height + 1, indices, table, memory =>
    indices.foldl (fun memory index =>
      match child mmfr0 memory table index with
      | none => memory
      | some next => (freeEntries height tableEntries next memory).freePage next) memory

def freePartialCopy (memory : PhysicalMemory) (root : Word) : PhysicalMemory :=
  freeEntries mmfr0 3 userEntries root memory

/-- `cow_copy_user`: the root of the copy. -/
def cowCopyUser (memory : PhysicalMemory) (source : Word) :
    Except PhysicalMemory (Word × PhysicalMemory) :=
  match createTable memory with
  | none => .error memory
  | some (copy, memory) =>
    match copyEntries mmfr0 3 userEntries source copy memory with
    | .ok memory => .ok (copy, memory)
    | .error memory => .error ((freePartialCopy mmfr0 memory copy).freePage copy)

/-- The innermost loop of `deep_copy_user`: the copy gets a page of its own with the
content of the old one, under the same flags. -/
def copyLeaf (source copy : Word) (memory : PhysicalMemory) (index : Index) :
    Except PhysicalMemory PhysicalMemory :=
  let entry := memory.pages source index
  if Valid entry then
    match memory.alloc with
    | none => .error memory
    | some (page, memory) =>
      .ok ((memory.fill page (memory.pages (entry &&& paMask mmfr0))).write copy index
        (page ||| (entry &&& ~~~paMask mmfr0)))
  else .ok memory

/-- `deep_copy_user`: the root of the copy. -/
def deepCopyUser (memory : PhysicalMemory) (source : Word) :
    Except PhysicalMemory (Word × PhysicalMemory) :=
  match createTable memory with
  | none => .error memory
  | some (copy, memory) =>
    match copyTree mmfr0 (copyLeaf mmfr0) 3 userEntries source copy memory with
    | .ok memory => .ok (copy, memory)
    | .error memory => .error ((freePartialCopy mmfr0 memory copy).freePage copy)

/-- The loops of `collect_cow_pages` over the entries of a table; `base` is the
address the entries before have given. -/
def collectEntries (memory : PhysicalMemory) : (height : Nat) → List Index →
    (table base : Word) → List (Word × Word)
  | 0, indices, table, base =>
    indices.filterMap fun index =>
      let entry := memory.pages table index
      if Valid entry ∧ entry &&& pageCow ≠ 0#64 then
        some (base ||| (BitVec.ofNat 64 index.val <<< 12), entry &&& paMask mmfr0)
      else none
  | height + 1, indices, table, base =>
    indices.flatMap fun index =>
      match child mmfr0 memory table index with
      | none => []
      | some next =>
        collectEntries memory height tableEntries next
          (base ||| (BitVec.ofNat 64 index.val <<< (12 + 9 * (height + 1))))

/-- `collect_cow_pages`: the address and the page of every marked leaf. -/
def collectCowPages (memory : PhysicalMemory) (root : Word) : List (Word × Word) :=
  collectEntries mmfr0 memory 3 userEntries root 0#64

/-! ## Facts about descriptors -/

/-- The masks that PARange can give. -/
def addressMasks : List Word :=
  [32, 36, 40, 42, 44, 48, 52].map fun bits => ((1#64 <<< bits) - 1#64) &&& ~~~0xFFF#64

theorem paMask_mem : paMask mmfr0 ∈ addressMasks := by
  unfold paMask readPaBits addressMasks
  split <;> simp

theorem and_paMask (h : addressMasks.all (fun mask => flags &&& mask = 0#64) = true) :
    flags &&& paMask mmfr0 = 0#64 := by
  rw [List.all_eq_true] at h
  exact of_decide_eq_true (h _ (paMask_mem mmfr0))

theorem target_or (hpage : page &&& paMask mmfr0 = page) (hflags : flags &&& paMask mmfr0 = 0#64) :
    (page ||| flags) &&& paMask mmfr0 = page := by
  rw [and_or_distrib_right, hpage, hflags, or_zero]

theorem flags_or (hpage : page &&& paMask mmfr0 = page) (hbits : bits &&& paMask mmfr0 = 0#64) :
    (page ||| flags) &&& bits = flags &&& bits := by
  have hzero : page &&& bits = 0#64 := by
    rw [← hpage, BitVec.and_assoc, BitVec.and_comm (paMask mmfr0), hbits, BitVec.and_zero]
  rw [and_or_distrib_right, hzero, zero_or]

theorem and_not_and (entry : Word) : entry &&& ~~~paMask mmfr0 &&& paMask mmfr0 = 0#64 := by
  ext i
  simp

theorem tableEntry_target (h : table &&& paMask mmfr0 = table) :
    tableEntry table &&& paMask mmfr0 = table := by
  rw [tableEntry, BitVec.or_assoc]
  exact target_or mmfr0 h (and_paMask mmfr0 (by decide))

theorem valid_or (hflags : flags &&& pageValid = pageValid) (page : Word) :
    Valid (page ||| flags) := by
  have hbit : (page ||| flags) &&& pageValid = pageValid := by
    rw [and_or_distrib_right, hflags]
    ext i
    simp
  rw [Valid, hbit]
  decide

theorem tableEntry_valid (table : Word) : Valid (tableEntry table) := by
  rw [tableEntry, BitVec.or_assoc]
  exact valid_or (by decide) table

/-- Bits outside the access and copy-on-write bits survive `cow_copy_user`. -/
theorem cowEntry_and (h : bits &&& (pageAccessBits ||| pageCow) = 0#64) (entry : Word) :
    cowEntry entry &&& bits = entry &&& bits := by
  unfold cowEntry
  split
  · ext i hi
    have hbit := congrArg (fun word => word[i]) h
    revert hbit
    simp only [pageUserReadOnly, pageAccessBits, getElem_and, getElem_or]
    cases entry[i] <;> cases bits[i] <;> simp
    all_goals
      intro hread _
      simp [hread]
  · rfl

theorem cowEntry_target (entry : Word) :
    cowEntry entry &&& paMask mmfr0 = entry &&& paMask mmfr0 := by
  refine cowEntry_and ?_ entry
  rw [BitVec.and_comm]
  exact and_paMask mmfr0 (by decide)

theorem cowEntry_valid (entry : Word) : Valid (cowEntry entry) ↔ Valid entry := by
  unfold Valid
  rw [cowEntry_and (by decide)]

/-! ## Entries after a write -/

theorem child_write (memory : PhysicalMemory) (table other : Word) (index j : Index)
    (entry : Word) :
    child mmfr0 (memory.write table index entry) other j =
      if other = table ∧ j = index then
        (if Valid entry then some (entry &&& paMask mmfr0) else none)
      else child mmfr0 memory other j := by
  unfold child
  rw [write_pages]
  split <;> rfl

theorem child_congr (h : memory'.pages table = memory.pages table) (index : Index) :
    child mmfr0 memory' table index = child mmfr0 memory table index := by
  unfold child
  rw [h]

theorem child_zeroPage (h : memory.pages table = zeroPage) (index : Index) :
    child mmfr0 memory table index = none := by
  unfold child
  rw [h]
  exact if_neg (fun hvalid => hvalid (by simp [zeroPage]))

/-- `create_table` zeroes the page it takes. -/
theorem createTable_pages (h : createTable memory = some (table, memory')) :
    memory'.pages table = zeroPage := by
  unfold createTable at h
  cases halloc : memory.alloc with
  | none => rw [halloc] at h; cases h
  | some taken =>
    rw [halloc] at h
    cases h
    exact if_pos rfl

/-- Rewriting a descriptor as `cow_copy_user` does changes no pointer. -/
theorem child_write_cowEntry (memory : PhysicalMemory) (table other : Word) (index j : Index) :
    child mmfr0 (memory.write table index (cowEntry (memory.pages table index))) other j =
      child mmfr0 memory other j := by
  rw [child_write]
  split
  next h =>
    obtain ⟨rfl, rfl⟩ := h
    rw [cowEntry_target]
    simp only [cowEntry_valid]
    rfl
  · rfl

end

end Bazzulto.Memory
