/-
  Memory/Ledger.lean --- where the frames of an address space come from.

  Nothing records which frames a process has taken.  What can be said is said here for a
  set of trees: their pages, the reserved ones apart, come from a stock of frames that the
  free list was part of, each is mapped once, and the free list holds nothing but frames of
  the stock.  A frame that leaves both for good can be struck off the stock, and the free
  list never is longer than what is left.

  The lemmas follow those of Memory/Shield.lean and Loader/Shield.lean.
-/
import Bazzulto.Loader.Shield

set_option autoImplicit false

namespace Bazzulto

open Foundation Foundation.Radix List Loader

namespace Memory

/-- Free frames and mapped pages come from the stock, and a page is mapped once unless it
is reserved. -/
structure Ledger (mmfr0 : Word) (reserved : Set Word) (stock : List Word)
    (memory : PhysicalMemory) (roots : Set Word) (free : List Word) : Prop where
  shielded : Shielded mmfr0 (fun _ => True) reserved memory roots free
  stocked : ∀ page ∈ free, page ∈ stock
  drawn : ∀ page, IsMapped mmfr0 memory roots page → page ∈ stock ∨ page ∈ reserved
  single : ∀ page ∉ reserved, ∀ root ∈ roots, ∀ other ∈ roots, ∀ path path' : List Index,
    path.length = 4 → path'.length = 4 → follow (child mmfr0 memory) root path = some page →
    follow (child mmfr0 memory) other path' = some page → other = root ∧ path' = path

variable {mmfr0 : Word} {reserved : Set Word} {stock : List Word}
  {memory memory' : PhysicalMemory} {roots : Set Word} {free free' : List Word}

namespace Ledger

variable {page root address flags : Word}

/-! ## Frames -/

theorem ofFreeList (h : Shielded mmfr0 (fun _ => True) reserved memory ∅ free) :
    Ledger mmfr0 reserved free memory ∅ free where
  shielded := h
  stocked := fun _ hmem => hmem
  drawn := by
    rintro _ ⟨_, hroot, -⟩
    exact hroot.elim
  single := fun _ _ _ hroot => hroot.elim

section

variable (h : Ledger mmfr0 reserved stock memory roots free)
include h

/-- Leaves may go, and frames may leave the free list or come back to it from the
stock. -/
theorem ofLeaves {roots' : Set Word}
    (hshield : Shielded mmfr0 (fun _ => True) reserved memory' roots' free')
    (hold : ∀ root ∈ roots', ∀ (path : List Index) (page : Word), path.length = 4 →
      follow (child mmfr0 memory') root path = some page →
      root ∈ roots ∧ follow (child mmfr0 memory) root path = some page)
    (hstock : ∀ page ∈ free', page ∈ stock) :
    Ledger mmfr0 reserved stock memory' roots' free' where
  shielded := hshield
  stocked := hstock
  drawn := by
    rintro page ⟨root, hroot, path, hlen, hfollow⟩
    obtain ⟨hroot, hfollow⟩ := hold root hroot path page hlen hfollow
    exact h.drawn page ⟨root, hroot, path, hlen, hfollow⟩
  single := by
    intro page hpage root hroot other hother path path' hlen hlen' hfollow hfollow'
    obtain ⟨hroot, hfollow⟩ := hold root hroot path page hlen hfollow
    obtain ⟨hother, hfollow'⟩ := hold other hother path' page hlen' hfollow'
    exact h.single page hpage root hroot other hother path path' hlen hlen' hfollow hfollow'

theorem fewer (hshield : Shielded mmfr0 (fun _ => True) reserved memory' roots free')
    (hfewer : FewerLeaves mmfr0 memory memory' roots) :
    (∀ page ∈ free', page ∈ stock) → Ledger mmfr0 reserved stock memory' roots free' :=
  h.ofLeaves hshield fun root hroot path page hlen hfollow =>
    ⟨hroot, hfewer root hroot path page hlen hfollow⟩

theorem mono {smaller : Set Word} (hsub : smaller ⊆ roots) :
    Ledger mmfr0 reserved stock memory smaller free :=
  h.ofLeaves (h.shielded.mono hsub) (fun _ hroot _ _ _ hfollow => ⟨hsub hroot, hfollow⟩) h.stocked

/-- A frame that is neither free nor mapped is struck off the stock. -/
theorem strike {frame : Word} (hfree : frame ∉ free)
    (hmapped : ¬ IsMapped mmfr0 memory roots frame) :
    Ledger mmfr0 reserved (stock.erase frame) memory roots free where
  shielded := h.shielded
  stocked := by
    intro page hmem
    refine (mem_erase_of_ne ?_).mpr (h.stocked page hmem)
    rintro rfl
    exact hfree hmem
  drawn := by
    intro page hpage
    refine (h.drawn page hpage).imp_left (mem_erase_of_ne ?_).mpr
    rintro rfl
    exact hmapped hpage
  single := h.single

theorem count_le : memory.freePageCount ≤ stock.length := by
  rw [h.shielded.owned.count]
  exact (subperm_of_subset h.shielded.owned.nodup h.stocked).length_le

end

/-! ## Taking frames -/

theorem fewerLeaves_of_sameTrees
    (hsame : SameTrees (child mmfr0 memory) (child mmfr0 memory') roots 3) :
    FewerLeaves mmfr0 memory memory' roots := fun root hroot path _ hlen hfollow => by
  rwa [← hsame root hroot path (by omega)]

section

variable (h : Ledger mmfr0 reserved stock memory roots free)
include h

theorem alloc (halloc : memory.alloc = some (page, memory')) :
    ∃ rest, free = page :: rest ∧ Ledger mmfr0 reserved stock memory' roots rest ∧
      Loose mmfr0 memory' roots rest page ∧ page ∈ stock := by
  obtain ⟨rest, rfl, hpages, hshield, hloose, -⟩ := h.shielded.alloc halloc
  have hsame : SameTrees (child mmfr0 memory) (child mmfr0 memory') roots 3 :=
    sameTrees_of_tables fun table _ index => child_congr mmfr0 (by rw [hpages]) index
  exact ⟨rest, rfl, h.fewer hshield (fewerLeaves_of_sameTrees hsame) fun other hmem =>
    h.stocked other (mem_cons_of_mem _ hmem), hloose, h.stocked page mem_cons_self⟩

theorem fill (hfree : page ∉ free) (htable : ¬ IsTable mmfr0 memory roots page) (content : Page) :
    Ledger mmfr0 reserved stock (memory.fill page content) roots free :=
  h.fewer (h.shielded.fill hfree htable content)
    (fewerLeaves_of_sameTrees (h.shielded.owned.fill hfree htable content).2) h.stocked

/-- A new tree has no pages yet. -/
theorem newRoot (hcreate : createTable memory = some (root, memory')) :
    ∃ rest, Ledger mmfr0 reserved stock memory' (insert root roots) rest ∧ root ∉ roots ∧
      root ∈ stock := by
  obtain ⟨rest, rfl, hshield, hnew, -, hempty⟩ :=
    h.shielded.newRoot (durable_true mmfr0).toLinkable hcreate
  have hsame := sameTrees_of_tables (h.shielded.owned.createTable_child hcreate)
  -- So every leaf belongs to a tree that was there, and was there before.
  refine ⟨rest, h.ofLeaves hshield ?_ fun page hmem => h.stocked page (mem_cons_of_mem _ hmem),
    hnew, h.stocked root mem_cons_self⟩
  rintro other (rfl | hother) path page hlen hfollow
  · rw [hempty path hlen] at hfollow
    cases hfollow
  · exact ⟨hother, by rwa [← hsame other hother path (by omega)]⟩

/-! ## Mapping -/

/-- `map` of a reserved page, or of a frame of the stock that is mapped nowhere. -/
theorem map (hroot : root ∈ roots) (hframed : page &&& paMask mmfr0 = page) (hfree : page ∉ free)
    (htable : ¬ IsTable mmfr0 memory roots page)
    (hpage : page ∈ reserved ∨ page ∈ stock ∧ ¬ IsMapped mmfr0 memory roots page)
    (hflags : flags &&& paMask mmfr0 = 0#64)
    (hmap : Memory.map mmfr0 memory root address page flags = .ok memory') :
    ∃ free', Ledger mmfr0 reserved stock memory' roots free' ∧
      KeepsTables mmfr0 memory memory' root ∧
      missingTables mmfr0 memory' root (tablePath address) = 0 := by
  obtain ⟨free', hshield, hsub, hadds, hkeeps, hpath⟩ := h.shielded.map_adds hroot hframed hfree
    htable hflags hmap (durable_true mmfr0).toLinkable trivial
  refine ⟨free', ⟨hshield, fun other hmem => h.stocked other (hsub other hmem), ?_, ?_⟩, hkeeps,
    hpath⟩
  · rintro found ⟨other, hother, path, hlen, hfollow⟩
    rcases hadds other hother path found hlen hfollow with hold | ⟨-, -, rfl⟩
    · exact h.drawn found ⟨other, hother, path, hlen, hold⟩
    · exact hpage.symm.imp_left And.left
  · intro found hfound first hfirst second hsecond path path' hlen hlen' hfollow hfollow'
    -- The new page was mapped nowhere, so two leaves of one page are both new or both old.
    have hnowhere : ∀ other ∈ roots, ∀ path : List Index, path.length = 4 →
        follow (child mmfr0 memory) other path = some found → found ≠ page := by
      rintro other hother path hlen hold rfl
      exact (hpage.resolve_left hfound).2 ⟨other, hother, path, hlen, hold⟩
    rcases hadds first hfirst path found hlen hfollow with hold | ⟨hroot₁, hpath₁, hpage₁⟩ <;>
      rcases hadds second hsecond path' found hlen' hfollow' with
        hold' | ⟨hroot₂, hpath₂, hpage₂⟩
    · exact h.single found hfound first hfirst second hsecond path path' hlen hlen' hold hold'
    · exact absurd hpage₂ (hnowhere first hfirst path hlen hold)
    · exact absurd hpage₁ (hnowhere second hsecond path' hlen' hold')
    · exact ⟨hroot₂.trans hroot₁.symm, hpath₂.trans hpath₁.symm⟩

end

/-- A `map` in a tree that is dropped when it fails: the tables it has added go back. -/
theorem map_dropped (h : Ledger mmfr0 reserved stock memory (insert root roots) free)
    (hnew : root ∉ roots)
    (hmap : Memory.map mmfr0 memory root address page flags = .error memory') :
    ∃ free', Ledger mmfr0 reserved stock memory' roots free' := by
  obtain ⟨-, _, _, _, hleft, hext, hbranches, hadded, rfl⟩ :=
    (map_outcome (durable_true mmfr0).toLinkable h.shielded (Set.mem_insert root roots)).of_error
      hmap
  obtain ⟨free'', hfreed, hsame, hlisted⟩ := hleft.freeTables hnew hbranches
  refine ⟨free'', (h.mono (Set.subset_insert root roots)).fewer hfreed ?_ fun other hmem => ?_⟩
  · intro other hother path _ hlen hfollow
    rw [hsame other hother path (by omega),
      hext.leaves other (Set.mem_insert_of_mem root hother) path hlen] at hfollow
    exact hfollow
  · rcases hlisted other hmem with hin | hin
    · exact h.stocked other (hadded other hin)
    · exact h.stocked other (hext.subset _ hin)

theorem upkeep : Upkeep mmfr0 reserved (fun flags => flags &&& paMask mmfr0 = 0#64) (· ∈ stock)
    (Ledger mmfr0 reserved stock) where
  shielded := Ledger.shielded
  mono h := h.mono
  alloc h halloc := by
    obtain ⟨rest, hfree, htaken, -, hstock⟩ := h.alloc halloc
    exact ⟨rest, hfree, htaken, hstock⟩
  fill h := h.fill
  map h := h.map
  map_dropped h := h.map_dropped

/-! ## Unmapping -/

section

variable (h : Ledger mmfr0 reserved stock memory roots free) (hroot : root ∈ roots)
  (hreserved : ∀ page, translate mmfr0 memory root address = some page → page ∉ reserved)
include h hroot hreserved

theorem unshared : Unshared mmfr0 memory roots root address :=
  fun page hpage other hother path hlen hfollow =>
    h.single page (hreserved page hpage) root hroot other hother _ path (pagePath_length address)
      hlen hpage hfollow

theorem unmapPage :
    ∃ free', Ledger mmfr0 reserved stock (unmapPage mmfr0 root memory address) roots free' ∧
      FewerLeaves mmfr0 memory (Memory.unmapPage mmfr0 root memory address) roots := by
  obtain ⟨free', hshield, hfewer, hlisted⟩ := h.shielded.unmapPage
    (durable_true mmfr0).toLinkable hroot (h.unshared hroot hreserved) hreserved
  refine ⟨free', h.fewer hshield hfewer fun page hmem => ?_, hfewer⟩
  rcases hlisted page hmem with hin | hpage
  · exact h.stocked page hin
  · exact (h.drawn page ⟨root, hroot, _, pagePath_length address, hpage⟩).resolve_right
      (hreserved page hpage)

end

/-- `unmap_range` of pages that are not reserved gives them back to the stock. -/
theorem unmapRange (h : Ledger mmfr0 reserved stock memory roots free) {pageCount : Nat}
    {pageSize : Word} (hroot : root ∈ roots)
    (hreserved : ∀ va ∈ rangeAddresses address pageCount pageSize,
      ∀ page, translate mmfr0 memory root va = some page → page ∉ reserved) :
    ∃ free', Ledger mmfr0 reserved stock
      (unmapRange mmfr0 memory root address pageCount pageSize) roots free' := by
  unfold Memory.unmapRange
  generalize rangeAddresses address pageCount pageSize = addresses at hreserved
  induction addresses generalizing memory free with
  | nil => exact ⟨free, h⟩
  | cons va addresses ih =>
    obtain ⟨_, hledger, hfewer⟩ := h.unmapPage hroot (hreserved va mem_cons_self)
    refine ih hledger fun other hmem page hpage => ?_
    exact hreserved other (mem_cons_of_mem _ hmem) page
      (hfewer root hroot _ page (pagePath_length other) hpage)

end Ledger
end Memory

/-! ## Loading -/

namespace Loader

open Memory

variable {mmfr0 : Word} {reserved : Set Word} {stock : List Word} {memory : PhysicalMemory}
  {roots : Set Word} {root : Word} {vdso : Vdso} {flags : Word}

/-- The trees of `roots` have a ledger. -/
def Booked (mmfr0 : Word) (reserved : Set Word) (stock : List Word) (roots : Set Word)
    (memory : PhysicalMemory) : Prop :=
  ∃ free, Ledger mmfr0 reserved stock memory roots free

/-- The root and the pages of an image come from the stock, apart from the pages of the
vDSO. -/
theorem loadElf_booked (hvdso : VdsoReserved mmfr0 reserved vdso)
    (h : Booked mmfr0 reserved stock roots memory) (file : List UInt8)
    (argv envp : List (List UInt8)) (random stackRandom : Nat) :
    Outcome
      (fun loaded => loaded.1.pageTable ∈ stock ∧
        Booked mmfr0 reserved stock (insert loaded.1.pageTable roots) loaded.2)
      (fun stopped => Booked mmfr0 reserved stock roots stopped.2)
      (loadElf mmfr0 vdso file argv envp random stackRandom memory) := by
  have hloaded := loadElf_outcome (fun root => Booked mmfr0 reserved stock (insert root roots)) h
    (fun root start hcreate => by
      obtain ⟨free, hledger⟩ := h
      obtain ⟨rest, hrooted, hnew, -⟩ := hledger.newRoot hcreate
      exact ⟨⟨rest, hrooted⟩, builds_held Ledger.upkeep (pageFlagsUserCode_pageFlags mmfr0).1
        (pageFlagsUserData_pageFlags mmfr0).1 (pageFlagsUserDataReadOnly_pageFlags mmfr0).1
        hvdso hnew⟩)
    file argv envp random stackRandom
  obtain ⟨_, hledger⟩ := h
  refine hloaded.imp (fun loaded hloaded => ?_) fun _ hleft => hleft
  obtain ⟨⟨_, hcreate⟩, hbooked⟩ := hloaded
  obtain ⟨-, -, -, hstock⟩ := hledger.newRoot hcreate
  exact ⟨hstock, hbooked⟩

end Loader
end Bazzulto
