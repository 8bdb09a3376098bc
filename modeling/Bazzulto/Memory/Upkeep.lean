/-
  Memory/Upkeep.lean --- fresh pages, for any way to keep track of the trees.

  The loader and the page fault handler take a page, fill it and map it.  What that
  keeps is proved once, from the rules that shielded trees (Memory/Shield.lean) and
  trees with a ledger (Memory/Ledger.lean) have in common.
-/
import Bazzulto.Memory.Rollback

set_option autoImplicit false

namespace Bazzulto.Memory

open Foundation.Radix

/-- Rules for a fact `Held` about memory, trees and free pages.  Pages may be mapped with
`Flags`, if they are reserved or come from the `Stock` and are mapped nowhere. -/
structure Upkeep (mmfr0 : Word) (reserved : Set Word) (Flags Stock : Word → Prop)
    (Held : PhysicalMemory → Set Word → List Word → Prop) : Prop where
  shielded : ∀ {memory roots free}, Held memory roots free →
    Shielded mmfr0 (fun _ => True) reserved memory roots free
  mono : ∀ {memory} {roots smaller : Set Word} {free}, Held memory roots free →
    smaller ⊆ roots → Held memory smaller free
  alloc : ∀ {memory taken roots free page}, Held memory roots free →
    memory.alloc = some (page, taken) →
    ∃ rest, free = page :: rest ∧ Held taken roots rest ∧ Stock page
  fill : ∀ {memory roots free page}, Held memory roots free → page ∉ free →
    ¬ IsTable mmfr0 memory roots page → ∀ content, Held (memory.fill page content) roots free
  map : ∀ {memory memory' roots free root address page flags}, Held memory roots free →
    root ∈ roots → page &&& paMask mmfr0 = page → page ∉ free →
    ¬ IsTable mmfr0 memory roots page →
    page ∈ reserved ∨ Stock page ∧ ¬ IsMapped mmfr0 memory roots page → Flags flags →
    map mmfr0 memory root address page flags = .ok memory' →
    ∃ free', Held memory' roots free' ∧ KeepsTables mmfr0 memory memory' root ∧
      missingTables mmfr0 memory' root (tablePath address) = 0
  map_dropped : ∀ {memory memory' roots free root address page flags},
    Held memory (insert root roots) free → root ∉ roots →
    Memory.map mmfr0 memory root address page flags = .error memory' →
    ∃ free', Held memory' roots free'

variable {mmfr0 : Word} {Good : Word → Prop} {reserved roots : Set Word} {Flags Stock : Word → Prop}
  {Held : PhysicalMemory → Set Word → List Word → Prop} {memory memory' : PhysicalMemory}
  {free : List Word} {page root flags : Word}

/-- Shielded trees are kept by `map` with flags that make good leaves. -/
theorem Shielded.upkeep (hgood : Linkable mmfr0 Good) :
    Upkeep mmfr0 reserved
      (fun flags => flags &&& paMask mmfr0 = 0#64 ∧ LeafGood mmfr0 Good flags) (fun _ => True)
      (Shielded mmfr0 Good reserved) where
  shielded h := ⟨h.owned, fun _ _ _ => trivial, h.notFree, h.notTable⟩
  mono h := h.mono
  alloc h halloc := by
    obtain ⟨rest, hfree, -, htaken, -⟩ := h.alloc halloc
    exact ⟨rest, hfree, htaken, trivial⟩
  fill h := h.fill
  map h hroot hframed hfree htable _ hflags hmap :=
    h.map hroot hframed hfree htable hflags.1 hmap hgood (hflags.2 _ hframed)
  map_dropped h hnew hmap := by
    obtain ⟨-, _, _, _, hleft, -, hbranches, -, rfl⟩ :=
      (map_outcome hgood h (Set.mem_insert _ _)).of_error hmap
    obtain ⟨free'', hfreed, -⟩ := hleft.freeTables hnew hbranches
    exact ⟨free'', hfreed⟩

namespace Upkeep

variable (u : Upkeep mmfr0 reserved Flags Stock Held)
include u

/-- A page is taken and filled. -/
theorem fresh (h : Held memory roots free) (halloc : memory.alloc = some (page, memory'))
    (content : Page) :
    ∃ rest, free = page :: rest ∧ Held (memory'.fill page content) roots rest ∧
      Loose mmfr0 (memory'.fill page content) roots rest page ∧ Stock page ∧
      SameTrees (child mmfr0 memory) (child mmfr0 (memory'.fill page content)) roots 3 := by
  obtain ⟨rest, rfl, htaken, hstock⟩ := u.alloc h halloc
  obtain ⟨_, hfree, hpages, -, hloose, -⟩ := (u.shielded h).alloc halloc
  obtain ⟨-, rfl⟩ := List.cons.inj hfree
  obtain ⟨-, hsame⟩ := (u.shielded htaken).owned.fill hloose.notFree hloose.notTable content
  have hchild : child mmfr0 memory' = child mmfr0 memory := by
    unfold child
    rw [hpages]
  exact ⟨rest, rfl, u.fill htaken hloose.notFree hloose.notTable content,
    hloose.frame hsame, hstock, hchild ▸ hsame⟩

theorem mapFresh (h : Held memory roots free) (hloose : Loose mmfr0 memory roots free page)
    (hstock : Stock page) (hflags : Flags flags) (hroot : root ∈ roots) {address : Word}
    (hmap : Memory.map mmfr0 memory root address page flags = .ok memory') :
    ∃ free', Held memory' roots free' ∧ KeepsTables mmfr0 memory memory' root ∧
      missingTables mmfr0 memory' root (tablePath address) = 0 :=
  u.map h hroot hloose.framed hloose.notFree hloose.notTable
    (.inr ⟨hstock, hloose.notMapped⟩) hflags hmap

end Upkeep
end Bazzulto.Memory
