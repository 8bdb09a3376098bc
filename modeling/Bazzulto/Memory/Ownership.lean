/-
  Memory/Ownership.lean --- who owns which physical page.

  `Owned` is the invariant that the memory code lives by: the free list has no
  repeats, no table of a live tree is on it, no mapped page is on it, no mapped
  page is a table, and no table is used twice.  It speaks of a set of roots, so
  that a tree under construction counts like a finished one.  A page that is
  nowhere (`Loose`) has been taken from the list and not yet put to use.

  Each elementary step of the code has one lemma here that says what it does to
  the invariant; the loops are put together from these in the modules above.
-/
import Bazzulto.Memory.PageTable

set_option autoImplicit false

namespace Bazzulto.Memory

open Foundation.Radix List PhysicalMemory

section

variable (mmfr0 : Word) (memory : PhysicalMemory) (roots : Set Word) (page : Word)

/-- A table of one of the trees. -/
abbrev IsTable : Prop :=
  Inner (child mmfr0 memory) roots 3 page

/-- The target of a valid leaf of one of the trees. -/
abbrev IsMapped : Prop :=
  Outer (child mmfr0 memory) roots 3 page

end

/-- Free pages, tables and mapped pages are kept apart. -/
structure Owned (mmfr0 : Word) (memory : PhysicalMemory) (roots : Set Word)
    (free : List Word) : Prop where
  listed : memory.FreeList memory.freeListHead free
  count : memory.freePageCount = free.length
  nodup : free.Nodup
  framed : ∀ page ∈ free, page &&& paMask mmfr0 = page
  separated : Separated (child mmfr0 memory) roots 3
  tables : ∀ page, IsTable mmfr0 memory roots page → page ∉ free
  leaves : ∀ page, IsMapped mmfr0 memory roots page →
    page ∉ free ∧ ¬ IsTable mmfr0 memory roots page

/-- A page in nobody's hands: not free, not a table, not mapped. -/
structure Loose (mmfr0 : Word) (memory : PhysicalMemory) (roots : Set Word)
    (free : List Word) (page : Word) : Prop where
  framed : page &&& paMask mmfr0 = page
  notFree : page ∉ free
  notTable : ¬ IsTable mmfr0 memory roots page
  notMapped : ¬ IsMapped mmfr0 memory roots page

variable {mmfr0 : Word} {memory memory' : PhysicalMemory} {roots : Set Word}
  {free rest : List Word} {page table root : Word}

/-! ## Frames -/

/-- The entries of the tables are the same. -/
def SameEntries (mmfr0 : Word) (memory memory' : PhysicalMemory) (roots : Set Word) : Prop :=
  ∀ table, IsTable mmfr0 memory roots table →
    ∀ index, child mmfr0 memory' table index = child mmfr0 memory table index

theorem sameTrees_of_tables (htables : SameEntries mmfr0 memory memory' roots) :
    SameTrees (child mmfr0 memory) (child mmfr0 memory') roots 3 :=
  fun _ hroot path hlen => follow_eq_of_agree htables hroot path hlen

/-- What leaves the trees and the free pages alone keeps them apart. -/
theorem Owned.frame (h : Owned mmfr0 memory roots free)
    (hsame : SameTrees (child mmfr0 memory) (child mmfr0 memory') roots 3)
    (hpages : ∀ page ∈ free, memory'.pages page = memory.pages page)
    (hhead : memory'.freeListHead = memory.freeListHead)
    (hcount : memory'.freePageCount = memory.freePageCount) :
    Owned mmfr0 memory' roots free :=
  { h with
    listed := by
      rw [hhead]
      exact h.listed.congr hpages
    count := hcount.trans h.count
    separated := hsame.separated h.separated
    tables := fun page htable => h.tables page ((hsame.inner_iff page).mp htable)
    leaves := fun page hmapped => by
      have hold := h.leaves page ((hsame.outer_iff page).mp hmapped)
      exact ⟨hold.1, fun htable => hold.2 ((hsame.inner_iff page).mp htable)⟩ }

theorem Owned.sameEntries (h : Owned mmfr0 memory roots (page :: rest))
    (hpages : ∀ other, other ≠ page → memory'.pages other = memory.pages other) :
    SameEntries mmfr0 memory memory' roots := by
  refine fun table htable index => child_congr mmfr0 (hpages table ?_) index
  rintro rfl
  exact h.tables table htable mem_cons_self

theorem Loose.frame (h : Loose mmfr0 memory roots free page)
    (hsame : SameTrees (child mmfr0 memory) (child mmfr0 memory') roots 3) :
    Loose mmfr0 memory' roots free page where
  framed := h.framed
  notFree := h.notFree
  notTable := fun htable => h.notTable ((hsame.inner_iff page).mp htable)
  notMapped := fun hmapped => h.notMapped ((hsame.outer_iff page).mp hmapped)

section

variable (h : Owned mmfr0 memory roots free)
include h

theorem Owned.mono {smaller : Set Word} (hsub : smaller ⊆ roots) :
    Owned mmfr0 memory smaller free :=
  { h with
    separated := h.separated.mono hsub
    tables := fun page htable => h.tables page (htable.mono hsub)
    leaves := fun page hmapped =>
      ⟨(h.leaves page (hmapped.mono hsub)).1,
        fun htable => (h.leaves page (hmapped.mono hsub)).2 (htable.mono hsub)⟩ }

/-! ## Taking and returning pages -/

theorem Owned.alloc_eq_none : memory.alloc = none ↔ free = [] := by
  cases free with
  | nil => simp [alloc_of_freeList_nil h.listed]
  | cons page rest => simp [alloc_of_freeList h.listed]

/-- `alloc` takes the first free page out of the list and leaves the rest as it
is. -/
theorem Owned.alloc (halloc : memory.alloc = some (page, memory')) :
    ∃ rest, free = page :: rest ∧ memory'.pages = memory.pages ∧
      Owned mmfr0 memory' roots rest ∧ Loose mmfr0 memory' roots rest page := by
  cases free with
  | nil =>
    rw [alloc_of_freeList_nil h.listed] at halloc
    cases halloc
  | cons head rest =>
    rw [alloc_of_freeList h.listed, Option.some.injEq, Prod.mk.injEq] at halloc
    obtain ⟨rfl, rfl⟩ := halloc
    have hnodup := nodup_cons.mp h.nodup
    have hlisted : memory.FreeList (memory.next head) rest := by
      have hrest := h.listed.head
      rw [hrest.1] at hrest
      exact hrest.2
    refine ⟨rest, rfl, rfl, ?_, ?_⟩
    · exact
        { listed := hlisted.congr fun _ _ => rfl
          count := by
            have hcount := h.count
            rw [length_cons] at hcount
            show memory.freePageCount - 1 = rest.length
            omega
          nodup := hnodup.2
          framed := fun page hmem => h.framed page (mem_cons_of_mem _ hmem)
          separated := h.separated
          tables := fun page htable hmem =>
            h.tables page htable (mem_cons_of_mem _ hmem)
          leaves := fun page hmapped =>
            ⟨fun hmem => (h.leaves page hmapped).1 (mem_cons_of_mem _ hmem),
              (h.leaves page hmapped).2⟩ }
    · exact
        { framed := h.framed head mem_cons_self
          notFree := hnodup.1
          notTable := fun htable => h.tables head htable mem_cons_self
          notMapped := fun hmapped => (h.leaves head hmapped).1 mem_cons_self }

/-- The content of a page that is neither free nor a table is nobody's
business. -/
theorem Owned.fill (hfree : page ∉ free)
    (htable : ¬ IsTable mmfr0 memory roots page) (content : Page) :
    Owned mmfr0 (memory.fill page content) roots free ∧
      SameTrees (child mmfr0 memory) (child mmfr0 (memory.fill page content)) roots 3 := by
  have hsame : SameTrees (child mmfr0 memory) (child mmfr0 (memory.fill page content))
      roots 3 := by
    refine sameTrees_of_tables fun table hinner index => ?_
    refine child_congr mmfr0 (memory.fill_pages_of_ne content ?_) index
    rintro rfl
    exact htable hinner
  refine ⟨h.frame hsame (fun other hmem => ?_) rfl rfl, hsame⟩
  refine memory.fill_pages_of_ne content ?_
  rintro rfl
  exact hfree hmem

theorem Owned.fresh (halloc : memory.alloc = some (page, memory')) (content : Page) :
    ∃ rest, free = page :: rest ∧ Owned mmfr0 (memory'.fill page content) roots rest ∧
      Loose mmfr0 (memory'.fill page content) roots rest page ∧
      ∀ other, other ≠ page → (memory'.fill page content).pages other = memory.pages other := by
  obtain ⟨rest, hfree, hpages, howned, hloose⟩ := h.alloc halloc
  obtain ⟨hfilled, hsame⟩ := howned.fill hloose.notFree hloose.notTable content
  refine ⟨rest, hfree, hfilled, hloose.frame hsame, fun other hne => ?_⟩
  rw [memory'.fill_pages_of_ne content hne, hpages]

/-- `free_page` of a page in nobody's hands. -/
theorem Owned.freePage (hloose : Loose mmfr0 memory roots free page) :
    Owned mmfr0 (memory.freePage page) roots (page :: free) ∧
      SameTrees (child mmfr0 memory) (child mmfr0 (memory.freePage page)) roots 3 := by
  have hsame : SameTrees (child mmfr0 memory) (child mmfr0 (memory.freePage page))
      roots 3 := by
    refine sameTrees_of_tables fun table hinner index => ?_
    refine child_congr mmfr0 (memory.freePage_pages_of_ne ?_) index
    rintro rfl
    exact hloose.notTable hinner
  refine ⟨?_, hsame⟩
  have hnext : (memory.freePage page).next page = memory.freeListHead :=
    memory.next_setNext page memory.freeListHead
  exact
    { listed := by
        refine ⟨rfl, ?_⟩
        rw [hnext]
        refine h.listed.congr fun other hmem => memory.freePage_pages_of_ne ?_
        rintro rfl
        exact hloose.notFree hmem
      count := by
        rw [length_cons, ← h.count]
        rfl
      nodup := nodup_cons.mpr ⟨hloose.notFree, h.nodup⟩
      framed := by
        intro other hmem
        rcases mem_cons.mp hmem with rfl | hrest
        · exact hloose.framed
        · exact h.framed other hrest
      separated := hsame.separated h.separated
      tables := by
        intro other htable hmem
        have hold := (hsame.inner_iff other).mp htable
        rcases mem_cons.mp hmem with rfl | hrest
        · exact hloose.notTable hold
        · exact h.tables other hold hrest
      leaves := by
        intro other hmapped
        have hold := (hsame.outer_iff other).mp hmapped
        refine ⟨fun hmem => ?_, fun htable =>
          (h.leaves other hold).2 ((hsame.inner_iff other).mp htable)⟩
        rcases mem_cons.mp hmem with rfl | hrest
        · exact hloose.notMapped hold
        · exact (h.leaves other hold).1 hrest }

end

/-! ## Tables -/

/-- At boot the usable pages are free and nothing is mapped. -/
theorem Owned.init (mmfr0 : Word) (content : Word → Page) {usable : List Word}
    (hnodup : usable.Nodup) (hframed : ∀ page ∈ usable, page &&& paMask mmfr0 = page) :
    Owned mmfr0 (PhysicalMemory.init content usable) ∅ usable.reverse := by
  induction usable using List.reverseRecOn with
  | nil =>
    refine ⟨trivial, rfl, nodup_nil, by simp, ?_, ?_, ?_⟩
    · rintro _ ⟨⟩
    · rintro page ⟨_, ⟨⟩, _⟩
    · rintro page ⟨_, ⟨⟩, _⟩
  | append_singleton usable page ih =>
    rw [nodup_append_comm, singleton_append, nodup_cons] at hnodup
    have howned := ih hnodup.2 fun other hmem => hframed other (mem_append_left _ hmem)
    rw [reverse_concat, PhysicalMemory.init, foldl_concat]
    refine (howned.freePage ⟨hframed page (by simp), by simpa using hnodup.1, ?_, ?_⟩).1
    · rintro ⟨_, ⟨⟩, _⟩
    · rintro ⟨_, ⟨⟩, _⟩

section

variable (h : Owned mmfr0 memory roots free)
include h

/-- `create_table` gives a blank page in nobody's hands. -/
theorem Owned.createTable (hcreate : createTable memory = some (table, memory')) :
    ∃ rest, free = table :: rest ∧ Owned mmfr0 memory' roots rest ∧
      Loose mmfr0 memory' roots rest table ∧
      (∀ index, child mmfr0 memory' table index = none) ∧
      ∀ other, other ≠ table → memory'.pages other = memory.pages other := by
  unfold Memory.createTable at hcreate
  cases halloc : memory.alloc with
  | none => rw [halloc] at hcreate; cases hcreate
  | some taken =>
    obtain ⟨_, taken⟩ := taken
    rw [halloc] at hcreate
    obtain ⟨rfl, rfl⟩ := hcreate
    obtain ⟨rest, hfree, hfilled, hloose, hpages⟩ := h.fresh halloc zeroPage
    exact ⟨rest, hfree, hfilled, hloose, child_zeroPage mmfr0 (if_pos rfl), hpages⟩

theorem Owned.createTable_child
    (hcreate : Memory.createTable memory = some (table, memory')) :
    SameEntries mmfr0 memory memory' roots := by
  obtain ⟨_, rfl, -, -, -, hpages⟩ := h.createTable hcreate
  exact h.sameEntries hpages

theorem Owned.createTable_eq_none : Memory.createTable memory = none ↔ free = [] := by
  rw [← h.alloc_eq_none]
  unfold Memory.createTable
  cases memory.alloc <;> simp

/-- A blank page becomes a root. -/
theorem Owned.insertRoot (hloose : Loose mmfr0 memory roots free root)
    (hblank : ∀ index, child mmfr0 memory root index = none) :
    Owned mmfr0 memory (insert root roots) free :=
  { h with
    separated := separated_insert hblank h.separated hloose.notTable
    tables := by
      intro page htable
      rcases inner_insert hblank htable with rfl | hold
      · exact hloose.notFree
      · exact h.tables page hold
    leaves := by
      intro page hmapped
      have hold := outer_insert hblank hmapped
      refine ⟨(h.leaves page hold).1, fun htable => ?_⟩
      rcases inner_insert hblank htable with rfl | hinner
      · exact hloose.notMapped hold
      · exact (h.leaves page hold).2 hinner }

end

theorem sets_write (mmfr0 : Word) (memory : PhysicalMemory) (table : Word) (index : Index)
    (entry : Word) :
    Sets (child mmfr0 memory) (child mmfr0 (memory.write table index entry)) table index
      (if Valid entry then some (entry &&& paMask mmfr0) else none) := by
  constructor
  · rw [child_write, if_pos ⟨rfl, rfl⟩]
  · intro _ _ _
    rw [child_write, if_neg (by tauto)]

section

variable {path : List Index}
  (h : Owned mmfr0 memory roots free) (hroot : root ∈ roots)
  (hat : follow (child mmfr0 memory) root path = some table)
include h hroot hat

theorem Owned.table_write_pages (hpath : path.length ≤ 3) (index : Index) (entry : Word) :
    ∀ page ∈ free, (memory.write table index entry).pages page = memory.pages page := by
  intro page hmem
  refine memory.write_pages_of_ne index entry ?_
  rintro rfl
  exact h.tables page ⟨root, hroot, path, hpath, hat⟩ hmem

/-- An entry of an upper table is made to point at a blank page in nobody's
hands. -/
theorem Owned.link (index : Index) (hpath : path.length < 3) {created : Word}
    (hloose : Loose mmfr0 memory roots free created)
    (hblank : ∀ j, child mmfr0 memory created j = none) :
    Owned mmfr0 (memory.write table index (tableEntry created)) roots free ∧
      LinksAt (child mmfr0 memory) (child mmfr0 (memory.write table index (tableEntry created)))
        roots 3 root path table index created := by
  have hsets := sets_write mmfr0 memory table index (tableEntry created)
  rw [if_pos (tableEntry_valid created), tableEntry_target mmfr0 hloose.framed] at hsets
  have hlinks : LinksAt _ _ roots 3 root path table index created :=
    ⟨⟨hsets, h.separated, hroot, hpath.le, hat⟩, hblank, hloose.notTable⟩
  refine ⟨?_, hlinks⟩
  exact
    { h with
      listed := h.listed.congr (h.table_write_pages hroot hat (by omega) index _)
      separated := hlinks.separated_link
      tables := by
        intro page htable
        rcases hlinks.inner_link htable with rfl | hold
        · exact hloose.notFree
        · exact h.tables page hold
      leaves := by
        intro page hmapped
        have hold := hlinks.outer_link hpath hmapped
        refine ⟨(h.leaves page hold).1, fun htable => ?_⟩
        rcases hlinks.inner_link htable with rfl | hinner
        · exact hloose.notMapped hold
        · exact (h.leaves page hold).2 hinner }

/-- An entry of a lowest table is cleared, or made to point at a page that is
neither free nor a table. -/
theorem Owned.setLeaf (index : Index) (entry : Word) (hpath : path.length = 3)
    (htarget : Valid entry → entry &&& paMask mmfr0 ∉ free ∧
      ¬ IsTable mmfr0 memory roots (entry &&& paMask mmfr0)) :
    Owned mmfr0 (memory.write table index entry) roots free ∧
      SetsAt (child mmfr0 memory) (child mmfr0 (memory.write table index entry)) roots 3 root path
        table index (if Valid entry then some (entry &&& paMask mmfr0) else none) := by
  have hsets : SetsAt _ _ roots 3 root path table index _ :=
    ⟨sets_write mmfr0 memory table index entry, h.separated, hroot, hpath.le, hat⟩
  have hinner := hsets.inner_leaf hpath
  refine ⟨?_, hsets⟩
  exact
    { h with
      listed := h.listed.congr (h.table_write_pages hroot hat (by omega) index _)
      separated := hsets.separated_leaf hpath
      tables := fun page htable => h.tables page ((hinner page).mp htable)
      leaves := by
        intro page hmapped
        suffices hold : page ∉ free ∧ ¬ IsTable mmfr0 memory roots page from
          ⟨hold.1, fun htable => hold.2 ((hinner page).mp htable)⟩
        rcases hsets.outer_leaf hpath hmapped with
          hnew | ⟨other, hother, path', hlen, -, hfollow⟩
        · split at hnew
          next hvalid =>
            cases hnew
            exact htarget hvalid
          · cases hnew
        · exact h.leaves page ⟨other, hother, path', hlen, hfollow⟩ }

end

end Bazzulto.Memory
