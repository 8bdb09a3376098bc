/-
  Memory/Shield.lean --- what page tables hold.

  Where pages are kept apart (`Owned`), only the kernel's own code for page tables
  reaches a table.  So a property of descriptors that this code keeps holds of every
  word of every table.  `Shielded` adds such a property, `Good`, to `Owned`, and a set
  of pages outside the allocator that never become free or tables.

  The lemmas follow those of Memory/Ownership.lean, one for each elementary step.
-/
import Bazzulto.Memory.Ownership

set_option autoImplicit false

namespace Bazzulto.Memory

open Foundation.Radix List PhysicalMemory

/-- A property of descriptors that holds of a cleared entry and of a link to a table. -/
structure Linkable (mmfr0 : Word) (Good : Word → Prop) : Prop where
  blank : Good 0#64
  table : ∀ {table : Word}, table &&& paMask mmfr0 = table → Good (tableEntry table)

/-- A property of descriptors that the code for page tables keeps: it also holds of a
leaf that is shared or moved to another page if it held before. -/
structure Durable (mmfr0 : Word) (Good : Word → Prop) : Prop extends Linkable mmfr0 Good where
  shared : ∀ {entry : Word}, Good entry → Good (cowEntry entry)
  moved : ∀ {page entry : Word}, page &&& paMask mmfr0 = page → Good entry →
    Good (page ||| (entry &&& ~~~paMask mmfr0))

/-- The leaves that `map` writes with some flags are `Good`. -/
def LeafGood (mmfr0 : Word) (Good : Word → Prop) (flags : Word) : Prop :=
  ∀ page : Word, page &&& paMask mmfr0 = page → Good (page ||| flags)

theorem durable_true (mmfr0 : Word) : Durable mmfr0 fun _ => True :=
  ⟨⟨trivial, fun _ => trivial⟩, fun _ => trivial, fun _ _ => trivial⟩

/-- Pages are kept apart, every word of a table is `Good`, and no page in `reserved`
is free or a table. -/
structure Shielded (mmfr0 : Word) (Good : Word → Prop) (reserved : Set Word)
    (memory : PhysicalMemory) (roots : Set Word) (free : List Word) : Prop where
  owned : Owned mmfr0 memory roots free
  words : ∀ table, IsTable mmfr0 memory roots table → ∀ index, Good (memory.pages table index)
  notFree : ∀ page ∈ reserved, page ∉ free
  notTable : ∀ page ∈ reserved, ¬ IsTable mmfr0 memory roots page

variable {mmfr0 : Word} {Good : Word → Prop} {reserved : Set Word}
  {memory memory' : PhysicalMemory} {roots : Set Word} {free free' : List Word}

theorem Owned.shielded (h : Owned mmfr0 memory roots free) :
    Shielded mmfr0 (fun _ => True) ∅ memory roots free :=
  ⟨h, fun _ _ _ => trivial, fun _ hmem => hmem.elim, fun _ hmem => hmem.elim⟩

namespace Shielded

/-! ## Frames -/

section

variable (h : Shielded mmfr0 Good reserved memory roots free)
include h

/-- What leaves the tables alone keeps what they hold. -/
theorem of_content (howned : Owned mmfr0 memory' roots free')
    (hfree : ∀ page ∈ reserved, page ∉ free')
    (hpages : ∀ table, IsTable mmfr0 memory roots table →
      memory'.pages table = memory.pages table) :
    Shielded mmfr0 Good reserved memory' roots free' := by
  have hsame : SameTrees (child mmfr0 memory) (child mmfr0 memory') roots 3 :=
    sameTrees_of_tables fun table htable index =>
      child_congr mmfr0 (hpages table htable) index
  refine ⟨howned, fun table htable index => ?_, hfree, fun page hmem htable => ?_⟩
  · have hold := (hsame.inner_iff table).mp htable
    rw [hpages table hold]
    exact h.words table hold index
  · exact h.notTable page hmem ((hsame.inner_iff page).mp htable)

theorem mono {smaller : Set Word} (hsub : smaller ⊆ roots) :
    Shielded mmfr0 Good reserved memory smaller free where
  owned := h.owned.mono hsub
  words := fun table htable => h.words table (htable.mono hsub)
  notFree := h.notFree
  notTable := fun page hmem htable => h.notTable page hmem (htable.mono hsub)

/-! ## Taking and returning pages -/

/-- `alloc` takes a page that is not reserved. -/
theorem alloc {page : Word} (halloc : memory.alloc = some (page, memory')) :
    ∃ rest, free = page :: rest ∧ memory'.pages = memory.pages ∧
      Shielded mmfr0 Good reserved memory' roots rest ∧
      Loose mmfr0 memory' roots rest page ∧ page ∉ reserved := by
  obtain ⟨rest, rfl, hpages, howned, hloose⟩ := h.owned.alloc halloc
  refine ⟨rest, rfl, hpages, ?_, hloose, fun hmem => h.notFree page hmem mem_cons_self⟩
  exact h.of_content howned
    (fun other hmem hin => h.notFree other hmem (mem_cons_of_mem _ hin))
    (fun table _ => by rw [hpages])

theorem fill {page : Word} (hfree : page ∉ free) (htable : ¬ IsTable mmfr0 memory roots page)
    (content : Page) : Shielded mmfr0 Good reserved (memory.fill page content) roots free := by
  refine h.of_content (h.owned.fill hfree htable content).1 h.notFree fun table hinner => ?_
  refine memory.fill_pages_of_ne content ?_
  rintro rfl
  exact htable hinner

theorem freePage {page : Word} (hloose : Loose mmfr0 memory roots free page)
    (hpage : page ∉ reserved) :
    Shielded mmfr0 Good reserved (memory.freePage page) roots (page :: free) := by
  refine h.of_content (h.owned.freePage hloose).1 (fun other hmem hin => ?_)
    fun table hinner => memory.freePage_pages_of_ne ?_
  · rcases mem_cons.mp hin with rfl | hrest
    · exact hpage hmem
    · exact h.notFree other hmem hrest
  · rintro rfl
    exact hloose.notTable hinner

/-! ## Tables -/

/-- `create_table` gives a zeroed page in nobody's hands. -/
theorem createTable {table : Word} (hcreate : Memory.createTable memory = some (table, memory')) :
    ∃ rest, free = table :: rest ∧ Shielded mmfr0 Good reserved memory' roots rest ∧
      Loose mmfr0 memory' roots rest table ∧ table ∉ reserved ∧
      memory'.pages table = zeroPage := by
  obtain ⟨rest, rfl, howned, hloose, -, hpages⟩ := h.owned.createTable hcreate
  refine ⟨rest, rfl, ?_, hloose, fun hmem => h.notFree table hmem mem_cons_self,
    createTable_pages hcreate⟩
  refine h.of_content howned
    (fun other hmem hin => h.notFree other hmem (mem_cons_of_mem _ hin))
    fun other hother => hpages other ?_
  rintro rfl
  exact h.owned.tables other hother mem_cons_self

end

/-- A zeroed page becomes a root. -/
theorem insertRoot (hgood : Linkable mmfr0 Good)
    (h : Shielded mmfr0 Good reserved memory roots free) {root : Word}
    (hloose : Loose mmfr0 memory roots free root) (hroot : root ∉ reserved)
    (hzero : memory.pages root = zeroPage) :
    Shielded mmfr0 Good reserved memory (insert root roots) free := by
  have hblank := child_zeroPage mmfr0 hzero
  refine ⟨h.owned.insertRoot hloose hblank, fun table htable index => ?_, h.notFree,
    fun page hmem htable => ?_⟩
  · rcases inner_insert hblank htable with rfl | hold
    · rw [hzero]
      exact hgood.blank
    · exact h.words table hold index
  · rcases inner_insert hblank htable with rfl | hold
    · exact hroot hmem
    · exact h.notTable page hmem hold

section

variable {table root : Word} {path : List Index}
  (h : Shielded mmfr0 Good reserved memory roots free) (hroot : root ∈ roots)
  (hat : follow (child mmfr0 memory) root path = some table) (index : Index)
include h hroot hat index

/-- An entry of an upper table is made to point at a zeroed page in nobody's
hands. -/
theorem link (hgood : Linkable mmfr0 Good) (hpath : path.length < 3) {created : Word}
    (hloose : Loose mmfr0 memory roots free created) (hcreated : created ∉ reserved)
    (hzero : memory.pages created = zeroPage) :
    Shielded mmfr0 Good reserved (memory.write table index (tableEntry created)) roots
      free := by
  have hblank := child_zeroPage mmfr0 hzero
  obtain ⟨howned, hlinks⟩ := h.owned.link hroot hat index hpath hloose hblank
  refine ⟨howned, fun found htable j => ?_, h.notFree, fun page hmem htable => ?_⟩
  · rw [write_pages]
    split
    · exact hgood.table hloose.framed
    rcases hlinks.inner_link htable with rfl | hold
    · rw [hzero]
      exact hgood.blank
    · exact h.words found hold j
  · rcases hlinks.inner_link htable with rfl | hold
    · exact hcreated hmem
    · exact h.notTable page hmem hold

/-- An entry of a lowest table is cleared, or made to point at a page that is neither
free nor a table. -/
theorem setLeaf {entry : Word} (hpath : path.length = 3) (hentry : Good entry)
    (htarget : Valid entry → entry &&& paMask mmfr0 ∉ free ∧
      ¬ IsTable mmfr0 memory roots (entry &&& paMask mmfr0)) :
    Shielded mmfr0 Good reserved (memory.write table index entry) roots free := by
  obtain ⟨howned, hsets⟩ := h.owned.setLeaf hroot hat index entry hpath htarget
  have hinner := hsets.inner_leaf hpath
  refine ⟨howned, fun found htable j => ?_, h.notFree, fun page hmem htable => ?_⟩
  · rw [write_pages]
    split
    · exact hentry
    · exact h.words found ((hinner found).mp htable) j
  · exact h.notTable page hmem ((hinner page).mp htable)

end

end Shielded

end Bazzulto.Memory
