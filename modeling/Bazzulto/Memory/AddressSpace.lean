/-
  Memory/AddressSpace.lean --- an address space as the pages it shows.

  A table is seen through `leafAt`, the protection and the content of the page mapped at
  an address.
  `map` of a fresh page updates that view at one page number and nowhere else;
  what it costs is taken from the free pages, so whatever else memory holds stays
  as it is.
-/
import Bazzulto.Foundation.Bytes
import Bazzulto.Memory.Mapping

set_option autoImplicit false

namespace Bazzulto.Memory

open Foundation Foundation.Radix List Option PhysicalMemory Nat

/-! ## Bytes of a page -/

/-- The page with the bytes of a buffer. -/
def pageOfBuffer (buf : Buffer) : Page := fun index =>
  BitVec.ofNat 64 (leValue (slice buf (8 * index.val) 8))

/-- A byte of a page. -/
def pageByte (page : Page) (offset : Fin 4096) : UInt8 :=
  (leBytes 8 (page ⟨offset.val / 8, by omega⟩).toNat).getD (offset.val % 8) 0

theorem pageByte_pageOfBuffer (buf : Buffer) (offset : Fin 4096) :
    pageByte (pageOfBuffer buf) offset = buf offset.val := by
  have hlt := leValue_lt (slice buf (8 * (offset.val / 8)) 8)
  have hbytes := leBytes_leValue (slice buf (8 * (offset.val / 8)) 8)
  rw [slice_length] at hbytes
  simp only [pageByte, pageOfBuffer, BitVec.toNat_ofNat]
  rw [mod_eq_of_lt (lt_of_lt_of_eq hlt (by norm_num)), hbytes,
    getD_slice (by omega), div_add_mod]

/-! ## The pages of an address space -/

section

variable (mmfr0 : Word) (memory : PhysicalMemory) (root address : Word)

/-- The content of the page mapped at an address. -/
def pageAt : Option Page :=
  (translate mmfr0 memory root address).map memory.pages

/-- The bits of a descriptor that say what EL0 may do with the page. -/
def protection (entry : Word) : Word := entry &&& (pageAccessBits ||| pageUxn)

/-- The descriptor of the page mapped at an address. -/
def leafWord : Option Word :=
  (follow (child mmfr0 memory) root (tablePath address)).bind fun table =>
    if Valid (memory.pages table (level3Index address)) then
      some (memory.pages table (level3Index address))
    else none

/-- The page mapped at an address, with its protection. -/
def leafAt : Option (Word × Page) :=
  (leafWord mmfr0 memory root address).map fun entry =>
    (protection entry, memory.pages (entry &&& paMask mmfr0))

theorem translate_eq_map :
    translate mmfr0 memory root address =
      (leafWord mmfr0 memory root address).map (· &&& paMask mmfr0) := by
  rw [translate, pagePath, follow_concat, leafWord]
  cases follow (child mmfr0 memory) root (tablePath address) with
  | none => rfl
  | some table =>
    simp only [bind_some, child]
    split <;> rfl

theorem pageAt_eq_map :
    pageAt mmfr0 memory root address = (leafAt mmfr0 memory root address).map Prod.snd := by
  rw [pageAt, translate_eq_map, leafAt, Option.map_map, Option.map_map]
  rfl

end

/-- The position of an address in its page. -/
def pageOffset (address : Word) : Fin 4096 :=
  ⟨address.toNat % 4096, mod_lt _ (by decide)⟩

/-- The byte at an address.  With T0SZ = 16 the user table translates the addresses below
2^48 only. -/
def byteAt (mmfr0 : Word) (memory : PhysicalMemory) (root : Word) (address : Nat) :
    Option UInt8 :=
  if address < 2 ^ 48 then
    (pageAt mmfr0 memory root (BitVec.ofNat 64 address)).map fun page =>
      pageByte page (pageOffset (BitVec.ofNat 64 address))
  else none

/-- The page number of an address as the tables see it: the top 16 bits are not
looked at. -/
def pageNumber (address : Word) : Nat := address.toNat / 4096 % 2 ^ 36

theorem levelIndex_val (shift : Nat) (address : Word) :
    (levelIndex shift address).val = address.toNat / 2 ^ shift % 512 := by
  simp only [levelIndex, BitVec.toNat_and, BitVec.toNat_ushiftRight, shiftRight_eq_div_pow]
  exact and_two_pow_sub_one_eq_mod _ 9

theorem pagePath_eq_iff (address other : Word) :
    pagePath address = pagePath other ↔ pageNumber address = pageNumber other := by
  simp only [pagePath, tablePath, cons_append, nil_append, List.cons.injEq, and_true,
    level0Index, level1Index, level2Index, level3Index, Fin.ext_iff, levelIndex_val, pageNumber]
  omega

section

variable {mmfr0 : Word} {memory memory' : PhysicalMemory} {roots : Set Word}
  {free free' : List Word} {root address page flags : Word}

/-! ## Growth -/

/-- New tables change no leaf. -/
theorem Extends.leafWord_eq (h : Extends mmfr0 roots memory free memory' free')
    (hroot : root ∈ roots) (address : Word) :
    leafWord mmfr0 memory' root address = leafWord mmfr0 memory root address := by
  have hleaf : translate mmfr0 memory' root address = translate mmfr0 memory root address :=
    h.leaves root hroot (pagePath address) (pagePath_length address)
  rw [translate_eq_map, translate_eq_map] at hleaf
  cases hfollow : follow (child mmfr0 memory) root (tablePath address) with
  | none =>
    have hnone : leafWord mmfr0 memory root address = none := by rw [leafWord, hfollow]; rfl
    rw [hnone, map_none, map_eq_none_iff] at hleaf
    rw [hleaf, hnone]
  | some table =>
    rw [leafWord, leafWord, hfollow, h.kept root hroot _ table (le_of_eq rfl) hfollow,
      bind_some, bind_some, h.lowest root hroot _ table rfl hfollow]

/-- What keeps a leaf and the contents of mapped pages keeps what the address
shows. -/
theorem Grows.leafAt_eq (h : Owned mmfr0 memory roots free)
    (hgrows : Grows mmfr0 roots memory free memory' free') (hroot : root ∈ roots)
    (hleaf : leafWord mmfr0 memory' root address = leafWord mmfr0 memory root address) :
    leafAt mmfr0 memory' root address = leafAt mmfr0 memory root address := by
  rw [leafAt, leafAt, hleaf]
  cases hentry : leafWord mmfr0 memory root address with
  | none => rfl
  | some entry =>
    have hpage : translate mmfr0 memory root address = some (entry &&& paMask mmfr0) := by
      rw [translate_eq_map, hentry, map_some]
    obtain ⟨hfree, htable⟩ :=
      h.leaves _ ⟨root, hroot, pagePath address, pagePath_length address, hpage⟩
    rw [map_some, map_some, hgrows.content _ hfree htable]

/-- A page is taken and filled. -/
theorem Owned.grows_fill (h : Owned mmfr0 memory roots free) (content : Page)
    (halloc : memory.alloc = some (page, memory')) :
    ∃ rest, Grows mmfr0 roots memory free (memory'.fill page content) rest ∧
      Loose mmfr0 (memory'.fill page content) roots rest page ∧
      ∀ root ∈ roots, ∀ address, leafAt mmfr0 (memory'.fill page content) root address =
        leafAt mmfr0 memory root address := by
  obtain ⟨rest, rfl, hfilled, hloose, hcontent⟩ := h.fresh halloc content
  have hsame := sameTrees_of_tables (h.sameEntries hcontent)
  have hgrows : Grows mmfr0 roots memory (page :: rest) (memory'.fill page content) rest :=
    { owned := hfilled
      subset := fun other => mem_cons_of_mem page
      tables := fun other htable => .inl ((hsame.inner_iff other).mp htable)
      content := fun other hfree _ =>
        hcontent other fun heq => hfree (heq ▸ mem_cons_self) }
  refine ⟨rest, hgrows, hloose, fun root hroot address => ?_⟩
  refine hgrows.leafAt_eq h hroot ?_
  rw [leafWord, leafWord, hsame root hroot (tablePath address) (by simp [tablePath])]
  cases hfollow : follow (child mmfr0 memory) root (tablePath address) with
  | none => rfl
  | some table =>
    rw [bind_some, bind_some, hcontent table]
    rintro rfl
    exact h.tables table ⟨root, hroot, tablePath address, by simp [tablePath], hfollow⟩
      mem_cons_self

section

variable (h : Owned mmfr0 memory roots free) (hroot : root ∈ roots)
  (hframed : page &&& paMask mmfr0 = page) (hfree : page ∉ free)
  (htable : ¬ IsTable mmfr0 memory roots page) (hflags : flags &&& paMask mmfr0 = 0#64)
  (hvalid : flags &&& pageValid = pageValid)
  (hmap : map mmfr0 memory root address page flags = .ok memory')
include h hroot hframed hfree htable hflags hvalid hmap

/-- `map` changes the leaf of one page number. -/
theorem leafWord_map :
    ∃ free', Grows mmfr0 roots memory free memory' free' ∧
      ∀ other, leafWord mmfr0 memory' root other =
        if pageNumber other = pageNumber address then some (page ||| flags)
        else leafWord mmfr0 memory root other := by
  obtain ⟨table, extended, free', -, hext, hlast, rfl⟩ :=
    (map_outcome (durable_true mmfr0).toLinkable h.shielded hroot).of_ok hmap
  have htarget := target_or mmfr0 hframed hflags
  obtain ⟨howned, hsets⟩ := hext.owned.setLeaf hroot hlast (level3Index address)
    (page ||| flags) rfl fun _ => by
      rw [htarget]
      exact ⟨fun hmem => hfree (hext.subset _ hmem), hext.not_table hfree htable⟩
  have hlowest : (tablePath address).length = 3 := rfl
  refine ⟨free', ⟨howned, hext.subset, ?_, ?_⟩, fun other => ?_⟩
  · intro other hother
    exact hext.tables other ((hsets.inner_leaf hlowest other).mp hother)
  · intro other hfree' htable'
    rw [write_pages_of_ne, hext.content other hfree' htable']
    rintro rfl
    exact hext.not_table hfree' htable' ⟨root, hroot, tablePath address, le_of_eq hlowest, hlast⟩
  · rw [← hext.leafWord_eq hroot, leafWord, leafWord,
      hsets.follow_leaf hlowest hroot (tablePath other) (le_of_eq rfl)]
    split
    next heq =>
      obtain ⟨hpath, hidx⟩ :=
        append_inj' ((pagePath_eq_iff other address).mpr heq) rfl
      simp [hpath, hlast, singleton_inj.mp hidx, write_pages, valid_or hvalid page]
    next hne =>
      cases hfollow : follow (child mmfr0 extended) root (tablePath other) with
      | none => rfl
      | some found =>
        have hother : ¬ (found = table ∧ level3Index other = level3Index address) := by
          rintro ⟨rfl, hidx⟩
          have hpath := (hext.owned.separated root hroot root hroot _ _ _ (le_of_eq rfl)
            (le_of_eq rfl) hfollow hlast).2
          exact hne ((pagePath_eq_iff other address).mp (by rw [pagePath, pagePath, hpath, hidx]))
        simp only [bind_some, write_pages, if_neg hother]

/-- `map` of a page that is neither free nor a table shows its content at one
page number. -/
theorem leafAt_map :
    ∃ free', Grows mmfr0 roots memory free memory' free' ∧
      ∀ other, leafAt mmfr0 memory' root other =
        if pageNumber other = pageNumber address then some (protection flags, memory.pages page)
        else leafAt mmfr0 memory root other := by
  obtain ⟨free', hgrows, hleaf⟩ :=
    leafWord_map h hroot hframed hfree htable hflags hvalid hmap
  refine ⟨free', hgrows, fun other => ?_⟩
  split
  next heq =>
    rw [leafAt, hleaf, if_pos heq, map_some, target_or mmfr0 hframed hflags,
      hgrows.content page hfree htable, protection,
      flags_or mmfr0 hframed (and_paMask mmfr0 (by decide)), ← protection]
  next hne =>
    exact hgrows.leafAt_eq h hroot (by rw [hleaf, if_neg hne])

end

end

end Bazzulto.Memory
