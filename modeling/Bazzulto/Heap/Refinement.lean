/-
  Heap/Refinement.lean --- the first-fit list is a list of blocks.

  `Holds` says that a memory contains the headers of a list of blocks laid out one
  behind the other, each linked to the next.  The loops of the heap then compute the
  operations on lists of blocks, and touch no payload of a used block.
-/
import Bazzulto.Foundation.Blocks
import Bazzulto.Heap.Basic

set_option autoImplicit false

namespace Bazzulto.Heap

open List Option Foundation Block Words

variable {mem mem' : Words} {address a needed size : Nat} {blocks after rest : List Block}
  {block : Block}

/-! ## Headers -/

theorem readHeader_congr (hsame : ∀ a, address ≤ a → a < address + headerSize → mem' a = mem a) :
    readHeader mem' address = readHeader mem address := by
  unfold headerSize at hsame
  rw [readHeader, hsame _ (by omega) (by omega), hsame _ (by omega) (by omega),
    hsame _ (by omega) (by omega), readHeader]

@[simp] theorem readHeader_writeHeader (mem : Words) (address : Nat) (header : BlockHeader) :
    readHeader (writeHeader mem address header) address = header := by
  rw [readHeader, writeHeader]
  rw [store_of_ne (by omega), store_of_ne (by omega), store_self,
    store_of_ne (by omega), store_self, store_self]

theorem writeHeader_outside {header : BlockHeader} (hout : a < address ∨ address + headerSize ≤ a) :
    writeHeader mem address header a = mem a := by
  unfold headerSize at hout
  rw [writeHeader, store_of_ne (by omega), store_of_ne (by omega),
    store_of_ne (by omega)]

/-! ## Blocks in memory -/

def magicOf (used : Bool) : Nat := if used then blockMagicUsed else blockMagicFree

theorem magicOf_eq_free {used : Bool} : magicOf used = blockMagicFree ↔ used = false := by
  cases used <;> decide

/-- The address of the first block, or the null pointer. -/
def firstOf (address : Nat) : List Block → Nat
  | [] => 0
  | _ :: _ => address

/-- The header of a block that others follow. -/
def headerOf (address : Nat) (block : Block) (rest : List Block) : BlockHeader :=
  ⟨magicOf block.used, block.size, firstOf (address + headerSize + block.size) rest⟩

/-- The memory contains the headers of the blocks. -/
def Holds (mem : Words) : Nat → List Block → Prop
  | _, [] => True
  | address, block :: rest =>
    readHeader mem address = headerOf address block rest ∧
      Holds mem (address + headerSize + block.size) rest

/-- The payloads of the used blocks. -/
abbrev payloads (address : Nat) (blocks : List Block) : List (Nat × Nat) :=
  Block.payloads headerSize address blocks

def InRange (range : Nat × Nat) (address : Nat) : Prop :=
  range.1 ≤ address ∧ address < range.1 + range.2

/-- Only what lies outside the payloads of used blocks matters. -/
theorem Holds.congr :
    ∀ {address : Nat}, (∀ a, address ≤ a → a < address + extent headerSize blocks →
        (∀ range ∈ payloads address blocks, ¬ InRange range a) → mem' a = mem a) →
      Holds mem address blocks → Holds mem' address blocks := by
  induction blocks with
  | nil => exact fun _ _ => trivial
  | cons block rest ih =>
    rintro _ hsame ⟨hheader, hrest⟩
    rw [extent] at hsame
    refine ⟨?_, ih (fun a ha hlt hout => hsame a (by omega) (by omega) ?_) hrest⟩
    · rw [← hheader]
      refine readHeader_congr fun a hle hlt =>
        hsame a hle (by omega) fun range hrange hin => ?_
      have := (Block.payloads_bounds hrange).1
      have := hin.1
      omega
    · intro range hrange
      rcases Block.mem_payloads_cons.mp hrange with ⟨_, rfl⟩ | hrange
      · exact fun hin => absurd hin.2 (by dsimp only; omega)
      · exact hout range hrange

theorem Holds.congr_above (hsame : ∀ a, address ≤ a → mem' a = mem a)
    (hholds : Holds mem address blocks) : Holds mem' address blocks :=
  hholds.congr fun a ha _ _ => hsame a ha

theorem Holds.cons (block : Block)
    (hrest : Holds mem (address + headerSize + block.size) rest) :
    Holds (writeHeader mem address (headerOf address block rest)) address (block :: rest) :=
  ⟨readHeader_writeHeader .., hrest.congr_above fun _ _ => writeHeader_outside (by omega)⟩

/-- The memory changes from one list of blocks to another: nothing below the list is
touched, and no payload of a used block. -/
structure Rewrites (mem mem' : Words) (address : Nat) (blocks after : List Block) : Prop where
  holds : Holds mem' address after
  below : ∀ a, a < address → mem' a = mem a
  kept : ∀ range ∈ payloads address blocks, ∀ a, InRange range a → mem' a = mem a

theorem Rewrites.trans {first second third : Words} {middle : List Block}
    (hfirst : Rewrites first second address blocks middle)
    (hsecond : Rewrites second third address middle after)
    (hused : ∀ range ∈ payloads address blocks, range ∈ payloads address middle) :
    Rewrites first third address blocks after where
  holds := hsecond.holds
  below a ha := (hsecond.below a ha).trans (hfirst.below a ha)
  kept range hrange a ha :=
    (hsecond.kept range (hused range hrange) a ha).trans (hfirst.kept range hrange a ha)

/-- A change of the blocks behind a block. -/
theorem Rewrites.cons (hheader : readHeader mem address = headerOf address block rest)
    (hfirst : ∀ next, firstOf next after = firstOf next rest)
    (hrest : Rewrites mem mem' (address + headerSize + block.size) rest after) :
    Rewrites mem mem' address (block :: rest) (block :: after) where
  holds := by
    refine ⟨?_, hrest.holds⟩
    rw [readHeader_congr fun a _ ha => hrest.below a (by omega), hheader, headerOf, headerOf,
      hfirst]
  below a ha := hrest.below a (by omega)
  kept range hrange a ha := by
    rcases Block.mem_payloads_cons.mp hrange with ⟨_, rfl⟩ | hrange
    · have := ha.2
      exact hrest.below a (by dsimp only at this; omega)
    · exact hrest.kept range hrange a ha

theorem Rewrites.free (hfree : block.used = false) (hholds : Holds mem' address after)
    (hsame : ∀ a, a < address ∨ address + headerSize + block.size ≤ a → mem' a = mem a) :
    Rewrites mem mem' address (block :: rest) after where
  holds := hholds
  below a ha := hsame a (.inl ha)
  kept range hrange a ha := by
    rcases Block.mem_payloads_cons.mp hrange with ⟨hused, _⟩ | hrange
    · exact absurd (hfree.symm.trans hused) (by simp)
    · have := (Block.payloads_bounds hrange).1
      have := ha.1
      exact hsame a (.inr (by omega))

theorem firstOf_carve {least offset : Nat}
    (hcarve : carve headerSize least needed blocks = some (offset, after)) (next : Nat) :
    firstOf next after = firstOf next blocks := by
  refine carve_induction ?_ ?_ ?_ hcarve <;> intros <;> rfl

/-! ## The loops -/

/-- The first block is taken, whole or split. -/
theorem rewrites_takeBlock (hholds : Holds mem address (block :: rest))
    (hfree : block.used = false) :
    Rewrites mem (takeBlock mem address needed) address (block :: rest)
      (if needed + headerSize + minBlockSize ≤ block.size then
        ⟨needed, true⟩ :: ⟨block.size - needed - headerSize, false⟩ :: rest
      else ⟨block.size, true⟩ :: rest) := by
  obtain ⟨hheader, hrest⟩ := hholds
  unfold takeBlock
  rw [hheader]
  dsimp only [headerOf]
  split
  · have hend : address + headerSize + block.size =
        address + headerSize + needed + headerSize + (block.size - needed - headerSize) := by omega
    rw [hend] at hrest ⊢
    refine .free hfree (.cons ⟨needed, true⟩ (hrest.cons ⟨_, false⟩)) fun a ha => ?_
    rw [writeHeader_outside (by omega), writeHeader_outside (by omega)]
  · exact .free hfree (hrest.cons ⟨_, true⟩) fun a ha => writeHeader_outside (by omega)

/-- `find_free_block` takes a block off the list as `carve` does. -/
theorem findFreeFrom_eq :
    ∀ {rounds address : Nat} {mem : Words}, 0 < address → blocks.length < rounds →
      Holds mem address blocks →
      (carve headerSize minBlockSize needed blocks = none →
        findFreeFrom needed rounds mem (firstOf address blocks) = some (none, mem)) ∧
      ∀ offset after, carve headerSize minBlockSize needed blocks = some (offset, after) →
        ∃ mem', findFreeFrom needed rounds mem (firstOf address blocks) =
            some (some (address + offset), mem') ∧
          Rewrites mem mem' address blocks after := by
  induction blocks with
  | nil =>
    intro rounds address mem _ hrounds _
    obtain ⟨rounds, rfl⟩ := Nat.exists_eq_add_one.mpr hrounds
    exact ⟨fun _ => rfl, fun _ _ hcarve => absurd hcarve (by simp [carve])⟩
  | cons block rest ih =>
    intro rounds address mem _ hrounds hholds
    obtain ⟨rounds, rfl⟩ : ∃ more, rounds = more + 1 :=
      ⟨rounds - 1, by rw [length_cons] at hrounds; omega⟩
    have hrest := @ih rounds (address + headerSize + block.size) mem (by omega)
      (Nat.lt_of_succ_lt_succ hrounds) hholds.2
    have hround : findFreeFrom needed (rounds + 1) mem (firstOf address (block :: rest)) =
        if block.used = false ∧ needed ≤ block.size then
          some (some (address + headerSize), takeBlock mem address needed)
        else
          findFreeFrom needed rounds mem
            (firstOf (address + headerSize + block.size) rest) := by
      rw [firstOf, findFreeFrom, if_neg (by omega), hholds.1]
      simp [headerOf, magicOf_eq_free]
    rw [carve, hround]
    split
    next hfit =>
      refine ⟨fun hnone => absurd hnone (by simp), fun offset after hcarve => ?_⟩
      obtain ⟨rfl, rfl⟩ := Prod.mk.injEq .. ▸ some.inj hcarve
      exact ⟨_, rfl, rewrites_takeBlock hholds hfit.1⟩
    · refine ⟨fun hnone => hrest.1 (map_eq_none_iff.mp hnone), fun offset after hcarve => ?_⟩
      obtain ⟨⟨offset', after'⟩, hcarve', heq⟩ := map_eq_some_iff.mp hcarve
      obtain ⟨rfl, rfl⟩ := Prod.mk.injEq .. ▸ heq
      obtain ⟨mem', hfound, hrewrites⟩ := hrest.2 offset' after' hcarve'
      refine ⟨mem', ?_, hrewrites.cons hholds.1 (firstOf_carve hcarve')⟩
      rw [hfound, Nat.add_assoc address, Nat.add_assoc address]

theorem firstOf_mergeFrom (block : Block) (rest : List Block) (next : Nat) :
    firstOf next (mergeFrom headerSize block rest) = next := by
  fun_induction mergeFrom headerSize block rest with
  | case1 => rfl
  | case2 block other rest hfree ih => exact ih
  | case3 => rfl

/-- `coalesce` merges free neighbours. -/
theorem coalesceFrom_eq :
    ∀ {rounds address : Nat} {mem : Words} {block : Block}, 0 < address →
      rest.length + 1 < rounds → Holds mem address (block :: rest) →
      ∃ mem', coalesceFrom rounds mem address = some mem' ∧
        Rewrites mem mem' address (block :: rest) (mergeFrom headerSize block rest) := by
  induction rest with
  | nil =>
    intro rounds address mem block hpos hrounds hholds
    obtain ⟨rounds, rfl⟩ : ∃ more, rounds = more + 2 :=
      ⟨rounds - 2, by rw [length_nil] at hrounds; omega⟩
    refine ⟨mem, ?_, hholds, fun _ _ => rfl, fun _ _ _ _ => rfl⟩
    rw [coalesceFrom, hholds.1]
    simp [headerOf, firstOf, coalesceFrom]
  | cons next rest ih =>
    intro rounds address mem block hpos hrounds hholds
    obtain ⟨rounds, rfl⟩ : ∃ more, rounds = more + 1 :=
      ⟨rounds - 1, by rw [length_cons] at hrounds; omega⟩
    rw [length_cons] at hrounds
    obtain ⟨hheader, hnext, hrest⟩ := hholds
    rw [coalesceFrom, if_neg (by omega), hheader]
    dsimp only [headerOf, firstOf]
    rw [hnext]
    simp only [headerOf, magicOf_eq_free]
    rw [mergeFrom]
    have hne : address + headerSize + block.size ≠ 0 := by omega
    simp only [hne, ne_eq, not_false_eq_true, and_true]
    split
    next hfree =>
      have hend : address + headerSize + (block.size + (headerSize + next.size)) =
          address + headerSize + block.size + headerSize + next.size := by omega
      rw [← hend] at hrest ⊢
      have hholds := hrest.cons ⟨block.size + (headerSize + next.size), block.used⟩
      obtain ⟨mem', hmerged, hrewrites⟩ := @ih rounds _ _ _ hpos (by omega) hholds
      rw [hfree.1] at hrewrites hholds
      refine ⟨mem', hmerged, .trans (.free hfree.1 hholds fun a ha => writeHeader_outside (by omega))
        hrewrites fun range hrange => ?_⟩
      simpa [Block.payloads, hfree, hend] using hrange
    · obtain ⟨mem', hmerged, hrewrites⟩ := @ih rounds _ mem next (by omega) (by omega)
        ⟨hnext, hrest⟩
      exact ⟨mem', hmerged, hrewrites.cons hheader fun _ => firstOf_mergeFrom ..⟩

theorem firstOf_grow (size : Nat) (block : Block) (rest : List Block) (next : Nat) :
    firstOf next (grow headerSize size (block :: rest)) = next := by
  cases rest with
  | nil =>
    rw [grow]
    split <;> rfl
  | cons => rfl

/-- The pages that were mapped become part of the list. -/
theorem linkTail_eq :
    ∀ {rounds address : Nat} {mem : Words} {block : Block}, 0 < address → rest.length < rounds →
      Holds mem address (block :: rest) →
      readHeader mem (address + extent headerSize (block :: rest)) =
        ⟨blockMagicFree, size, 0⟩ →
      ∃ tail, tailFrom rounds mem address = some tail ∧
        Rewrites mem
          (linkTail mem tail (address + extent headerSize (block :: rest)) size) address
          (block :: rest) (grow headerSize size (block :: rest)) := by
  induction rest with
  | nil =>
    intro rounds address mem block hpos hrounds hholds hnew
    obtain ⟨rounds, rfl⟩ := Nat.exists_eq_add_one.mpr hrounds
    refine ⟨address, ?_, ?_⟩
    · rw [tailFrom, hholds.1]
      exact if_pos rfl
    have hstop : address + extent headerSize [block] = address + headerSize + block.size := by
      simp only [extent]
      omega
    rw [hstop] at hnew ⊢
    rw [linkTail, hholds.1, grow]
    simp only [headerOf, magicOf_eq_free, and_true]
    have hkept : ∀ header : BlockHeader, ∀ range ∈ payloads address [block], ∀ a,
        InRange range a → writeHeader mem address header a = mem a := by
      intro _ _ hrange a ha
      have := (Block.payloads_bounds hrange).1
      have := ha.1
      exact writeHeader_outside (by omega)
    split
    next hfree =>
      refine ⟨⟨?_, trivial⟩, fun a ha => writeHeader_outside (by omega), hkept _⟩
      rw [readHeader_writeHeader, hfree]
      rfl
    · refine ⟨⟨readHeader_writeHeader .., ?_, trivial⟩,
        fun a ha => writeHeader_outside (by omega), hkept _⟩
      rw [readHeader_congr fun a ha _ => writeHeader_outside (by omega), hnew]
      rfl
  | cons next rest ih =>
    intro rounds address mem block _ hrounds hholds hnew
    obtain ⟨rounds, rfl⟩ : ∃ more, rounds = more + 1 :=
      ⟨rounds - 1, by omega⟩
    rw [length_cons] at hrounds
    have hstop : address + extent headerSize (block :: next :: rest) =
        address + headerSize + block.size + extent headerSize (next :: rest) := by
      rw [extent]
      omega
    rw [hstop] at hnew ⊢
    obtain ⟨tail, htail, hrewrites⟩ := @ih rounds _ mem next (by omega) (by omega) hholds.2 hnew
    refine ⟨tail, ?_, hrewrites.cons hholds.1 fun _ => firstOf_grow ..⟩
    rw [tailFrom, hholds.1]
    exact (if_neg (by simp only [headerOf, firstOf]; omega)).trans htail

/-! ## Freeing a block -/

/-- The memory after `free_bytes`. -/
def freed (mem : Words) (payload size next : Nat) : Words :=
  writeHeader (mem.fill payload size poison) (payload - headerSize) ⟨blockMagicFree, size, next⟩

theorem freed_outside {payload next : Nat} (hpayload : headerSize ≤ payload)
    (hout : a + headerSize < payload ∨ payload + size ≤ a) :
    freed mem payload size next a = mem a := by
  rw [freed, writeHeader_outside (by omega), fill_of_outside (by omega)]

/-- `free_bytes` finds the header of a used block, and frees it. -/
theorem freed_eq :
    ∀ {address payload size : Nat} {mem : Words}, Holds mem address blocks →
      (payload, size) ∈ payloads address blocks →
      ∃ next, readHeader mem (payload - headerSize) = ⟨blockMagicUsed, size, next⟩ ∧
        Holds (freed mem payload size next) address
          (release headerSize payload address blocks) := by
  induction blocks with
  | nil => exact fun _ hmem => absurd hmem not_mem_nil
  | cons block rest ih =>
    intro address _ _ _ hholds hmem
    rcases Block.mem_payloads_cons.mp hmem with ⟨hused, heq⟩ | hmem
    · obtain ⟨rfl, rfl⟩ := Prod.mk.injEq .. ▸ heq
      refine ⟨firstOf (address + headerSize + block.size) rest, ?_, ?_⟩
      · rw [Nat.add_sub_cancel, hholds.1, headerOf, hused]
        rfl
      rw [release, if_pos rfl]
      refine ⟨?_, hholds.2.congr_above fun a ha => freed_outside (by omega) (.inr ha)⟩
      rw [freed, Nat.add_sub_cancel, readHeader_writeHeader]
      rfl
    · have hbounds := (Block.payloads_bounds hmem).1
      obtain ⟨next, hheader, hrest⟩ := ih hholds.2 hmem
      refine ⟨next, hheader, ?_⟩
      rw [release, if_neg (by unfold headerSize at hbounds ⊢; omega)]
      refine ⟨?_, hrest⟩
      rw [readHeader_congr fun a _ ha => freed_outside (by omega) (.inl (by omega)), hholds.1,
        headerOf, headerOf]
      cases rest with
      | nil => rfl
      | cons other rest =>
        rw [release]
        split <;> rfl

end Bazzulto.Heap
