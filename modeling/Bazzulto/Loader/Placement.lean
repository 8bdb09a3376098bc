/-
  Loader/Placement.lean --- what a loaded image shows.

  `load_elf` maps pages in a fixed order: the pages of the segments, the
  trampoline, the stack page, the two vDSO pages.  A page mapped later hides one
  mapped before at the same page number.  So the address space shows at every
  address the last page placed there.  The file bytes of a segment are copied to the
  start of its first page, wherever in that page the segment starts.
-/
import Bazzulto.Loader.Elf

set_option autoImplicit false

namespace Bazzulto.Loader

open Foundation Memory List Option PhysicalMemory

variable {address pageVa flags page : Word} {ph : ProgramHeader} {n : Nat}

/-! ## Placements -/

/-- What the last of some placements puts at an address. -/
def shown {α : Type} (placed : List (Word × α)) (address : Word) : Option α :=
  (placed.reverse.find? fun entry => pageNumber entry.1 = pageNumber address).map Prod.snd

section

variable {α : Type} {placed : List (Word × α)}

theorem shown_concat (placed : List (Word × α)) (entry : Word × α) (address : Word) :
    shown (placed ++ [entry]) address =
      if pageNumber address = pageNumber entry.1 then some entry.2
      else shown placed address := by
  unfold shown
  by_cases h : pageNumber entry.1 = pageNumber address
  · simp [h]
  · simp [h, Ne.symm h]

theorem shown_ne_none (entry : Word × α) (hmem : entry ∈ placed)
    (hnumber : pageNumber entry.1 = pageNumber address) : shown placed address ≠ none := by
  unfold shown
  rw [ne_eq, map_eq_none_iff, List.find?_eq_none]
  intro hnone
  exact hnone entry (mem_reverse.mpr hmem) (by simpa using hnumber)

theorem shown_of_last {before after : List (Word × α)} {entry : Word × α}
    (hnumber : pageNumber entry.1 = pageNumber address)
    (hafter : ∀ later ∈ after, pageNumber later.1 ≠ pageNumber address) :
    shown (before ++ entry :: after) address = some entry.2 := by
  induction after using List.reverseRecOn with
  | nil => rw [shown_concat, if_pos hnumber.symm]
  | append_singleton after later ih =>
    rw [← cons_append, ← append_assoc, shown_concat, if_neg (Ne.symm (hafter later (by simp)))]
    exact ih fun other hmem => hafter other (by simp [hmem])

end

/-- The pages of a segment with their protection, in the order they are placed. -/
def segmentLeaves (file : List UInt8) (base : Nat) (ph : ProgramHeader) :
    List (Word × Word × Page) :=
  (List.range (segmentPageCount base ph)).map fun pageIndex =>
    (BitVec.ofNat 64 (pageVaddr base ph pageIndex), protection (segmentFlags ph),
      pageOfBuffer (segmentBytes file base ph pageIndex))

/-- The segments that a program header table asks for. -/
def loadSegments (file : List UInt8) : List ProgramHeader :=
  (List.range (programHeaderCount file)).filterMap fun index =>
    match programHeader file index with
    | .ok ph => if ph.pType = ptLoad then some ph else none
    | .error _ => none

section

variable (vdsoCode vdsoData : Page) (file : List UInt8) (argv envp : List (List UInt8))
  (random stackRandom : Nat)

/-- The pages placed after the segments. -/
def laterLeaves : List (Word × Word × Page) :=
  [(signalTrampolineVa, protection pageFlagsUserCode, trampolinePage),
   (BitVec.ofNat 64 (topPageVa stackRandom), protection pageFlagsUserData,
     stackPage argv envp (topPageVa stackRandom)),
   (vdsoBaseVa, protection pageFlagsUserCode, vdsoCode),
   (vdsoDataVa, protection pageFlagsUserDataReadOnly, vdsoData)]

/-- All pages of an image with their protection. -/
def leaves : List (Word × Word × Page) :=
  (loadSegments file).flatMap (segmentLeaves file (loadBase file random)) ++
    laterLeaves vdsoCode vdsoData argv envp stackRandom

end

/-! ## Loading page by page -/

variable {mmfr0 : Word} {roots : Set Word} {root : Word} {start memory memory' : PhysicalMemory}
  {free : List Word} {placed : List (Word × Word × Page)} {file : List UInt8} {base : Nat}

/-- The address space under construction shows the pages placed so far, and the
rest of memory is as it was. -/
def Shows (mmfr0 : Word) (roots : Set Word) (root : Word) (start : PhysicalMemory)
    (free : List Word) (placed : List (Word × Word × Page)) (memory : PhysicalMemory) : Prop :=
  ∃ free', Grows mmfr0 roots start free memory free' ∧
    ∀ address, leafAt mmfr0 memory root address = shown placed address

/-- The flags that leave the address of a page alone and make its leaf valid. -/
def PageFlags (mmfr0 flags : Word) : Prop :=
  flags &&& paMask mmfr0 = 0#64 ∧ flags &&& pageValid = pageValid

theorem pageFlagsUserCode_pageFlags (mmfr0 : Word) : PageFlags mmfr0 pageFlagsUserCode :=
  ⟨and_paMask mmfr0 (by decide), by decide⟩

theorem pageFlagsUserData_pageFlags (mmfr0 : Word) : PageFlags mmfr0 pageFlagsUserData :=
  ⟨and_paMask mmfr0 (by decide), by decide⟩

theorem pageFlagsUserDataReadOnly_pageFlags (mmfr0 : Word) :
    PageFlags mmfr0 pageFlagsUserDataReadOnly :=
  ⟨and_paMask mmfr0 (by decide), by decide⟩

theorem segmentFlags_pageFlags (mmfr0 : Word) (ph : ProgramHeader) :
    PageFlags mmfr0 (segmentFlags ph) := by
  unfold segmentFlags
  split
  · exact pageFlagsUserCode_pageFlags mmfr0
  · exact pageFlagsUserData_pageFlags mmfr0

theorem Shows.placePage (h : Shows mmfr0 roots root start free placed memory)
    (hroot : root ∈ roots) {content : Option Page} (hflags : PageFlags mmfr0 flags)
    (hplace : placePage mmfr0 root memory pageVa content flags = .ok memory') :
    ∃ page, content = some page ∧
      Shows mmfr0 roots root start free (placed ++ [(pageVa, protection flags, page)]) memory' := by
  obtain ⟨_, hgrows, hshown⟩ := h
  unfold Loader.placePage at hplace
  cases halloc : memory.alloc with
  | none => rw [halloc] at hplace; cases hplace
  | some taken =>
    rw [halloc] at hplace
    cases content with
    | none => cases hplace
    | some page =>
      dsimp only at hplace
      split at hplace
      · cases hplace
      next hmap =>
        cases hplace
        obtain ⟨_, hfill, hloose, hsame⟩ :=
          hgrows.owned.grows_fill page halloc
        obtain ⟨free'', hmapped, hpages⟩ := leafAt_map hfill.owned hroot hloose.framed
          hloose.notFree hloose.notTable hflags.1 hflags.2 hmap
        refine ⟨page, rfl, free'', hgrows.trans (hfill.trans hmapped), fun address => ?_⟩
        rw [hpages, shown_concat, hsame root hroot, hshown, fill_pages, if_pos rfl]

theorem eq_of_segmentPage {pageIndex : Nat} {page : Page}
    (h : segmentPage file base ph pageIndex = some page) :
    pageOfBuffer (segmentBytes file base ph pageIndex) = page := by
  unfold segmentPage at h
  split at h
  · cases h
  · exact some.inj h

/-- The pages of a segment, one after the other. -/
theorem Shows.loadSegment (h : Shows mmfr0 roots root start free placed memory)
    (hroot : root ∈ roots) (hload : loadSegment mmfr0 file base root ph memory = .ok memory') :
    Shows mmfr0 roots root start free (placed ++ segmentLeaves file base ph) memory' := by
  unfold Loader.loadSegment at hload
  split at hload
  · cases hload
  split at hload
  · cases hload
  rw [segmentLeaves]
  refine foldlM_invariant (fun done memory => Shows mmfr0 roots root start free
    (placed ++ done.map fun pageIndex => (BitVec.ofNat 64 (pageVaddr base ph pageIndex),
      protection (segmentFlags ph), pageOfBuffer (segmentBytes file base ph pageIndex)))
    memory) ?_ _ [] memory memory' (by simpa using h) hload
  intro _ _ _ _ hstate hplace
  obtain ⟨_, hpage, hnext⟩ :=
    hstate.placePage hroot (segmentFlags_pageFlags mmfr0 ph) hplace
  rw [← eq_of_segmentPage hpage] at hnext
  simpa using hnext

/-- The segments, in the order of their headers. -/
theorem Shows.loadHeaders (h : Shows mmfr0 roots root start free [] memory)
    (hroot : root ∈ roots) {segmentsEnd : Nat}
    (hload : (List.range (programHeaderCount file)).foldlM (loadHeader mmfr0 file base root)
      (memory, 0) = .ok (memory', segmentsEnd)) :
    Shows mmfr0 roots root start free
      ((loadSegments file).flatMap (segmentLeaves file base)) memory' := by
  refine foldlM_invariant (fun done (state : PhysicalMemory × Nat) => Shows mmfr0 roots root
    start free ((done.filterMap fun index =>
      match programHeader file index with
      | .ok ph => if ph.pType = ptLoad then some ph else none
      | .error _ => none).flatMap (segmentLeaves file base)) state.1) ?_ _ []
    (memory, 0) (memory', segmentsEnd) h hload
  intro _ index _ next hstate hbody
  unfold loadHeader at hbody
  cases hheader : programHeader file index with
  | error stop => rw [hheader] at hbody; cases hbody
  | ok ph =>
    rw [hheader] at hbody
    dsimp only at hbody
    by_cases htype : ph.pType = ptLoad
    · rw [if_neg (not_not.mpr htype)] at hbody
      split at hbody
      · cases hbody
      next hsegment =>
        cases hbody
        simpa [hheader, htype] using hstate.loadSegment hroot hsegment
    · rw [if_pos htype] at hbody
      cases hbody
      simpa [hheader, htype] using hstate

/-- A page outside the free pages and the tables. -/
structure Resident (mmfr0 : Word) (roots : Set Word) (start : PhysicalMemory)
    (free : List Word) (page : Word) : Prop where
  framed : page &&& paMask mmfr0 = page
  notFree : page ∉ free
  notTable : ¬ IsTable mmfr0 start roots page

/-- A resident page is mapped next to a page that is there. -/
theorem Shows.mapShared (h : Shows mmfr0 roots root start free placed memory)
    (hroot : root ∈ roots) {neighbour : Word} (hflags : PageFlags mmfr0 flags)
    (hpage : Resident mmfr0 roots start free page)
    (hpath : tablePath neighbour = tablePath pageVa) (hthere : shown placed neighbour ≠ none) :
    Shows mmfr0 roots root start free (placed ++ [(pageVa, protection flags, start.pages page)])
      (mapShared mmfr0 root memory pageVa page flags) := by
  obtain ⟨free', hgrows, hshown⟩ := h
  -- The tables on the path are those of the neighbour, so `map` creates none.
  have htables : missingTables mmfr0 memory root (tablePath pageVa) ≤ free'.length := by
    rw [← hshown] at hthere
    obtain ⟨_, hcontent⟩ := ne_none_iff_exists'.mp hthere
    obtain ⟨_, hentry, -⟩ := map_eq_some_iff.mp hcontent
    obtain ⟨_, hlast, -⟩ := bind_eq_some_iff.mp hentry
    rw [← hpath, missingTables_eq_zero hlast]
    exact Nat.zero_le _
  have hfree : page ∉ free' := fun hmem => hpage.notFree (hgrows.subset page hmem)
  have hnotTable := hgrows.not_table hpage.notFree hpage.notTable
  unfold Loader.mapShared
  cases hmap : map mmfr0 memory root pageVa page flags with
  | error left =>
    obtain ⟨mapped, hmapped⟩ := map_succeeds hgrows.owned hroot htables page flags
    rw [hmapped] at hmap
    cases hmap
  | ok mapped =>
    obtain ⟨free'', hmapped, hpages⟩ := leafAt_map hgrows.owned hroot hpage.framed hfree
      hnotTable hflags.1 hflags.2 hmap
    refine ⟨free'', hgrows.trans hmapped, fun address => ?_⟩
    rw [hpages, shown_concat, hshown, hgrows.content page hpage.notFree hpage.notTable]

/-- A new table shows nothing. -/
theorem shows_createTable (h : Owned mmfr0 memory roots free)
    (hcreate : createTable memory = some (root, start)) :
    ∃ rest, Shows mmfr0 (insert root roots) root start rest [] start ∧
      ∀ page, Resident mmfr0 roots memory free page →
        Resident mmfr0 (insert root roots) start rest page ∧
          start.pages page = memory.pages page := by
  obtain ⟨rest, rfl, howned, hloose, hblank, hpages⟩ := h.createTable hcreate
  refine ⟨rest, ⟨rest, ⟨howned.insertRoot hloose hblank, fun _ hmem => hmem,
    fun _ htable => .inl htable, fun _ _ _ => rfl⟩, fun address => ?_⟩, fun page hpage => ?_⟩
  · have hnone : leafWord mmfr0 start root address = none := by
      rw [leafWord, tablePath, Radix.follow_cons, hblank]
      rfl
    rw [leafAt, hnone]
    rfl
  · have hne : page ≠ root := fun heq => hpage.notFree (heq ▸ mem_cons_self)
    refine ⟨⟨hpage.framed, fun hmem => hpage.notFree (mem_cons_of_mem _ hmem), ?_⟩, hpages page hne⟩
    intro htable
    rcases Radix.inner_insert hblank htable with heq | hold
    · exact hne heq
    have hsame := sameTrees_of_tables (h.sameEntries hpages)
    exact hpage.notTable ((hsame.inner_iff page).mp hold)

/-- A loaded image starts where the header says, and has the last page placed at every
address. -/
theorem loadElf_leafAt {vdso : Vdso} {argv envp : List (List UInt8)} {random stackRandom : Nat}
    {image : LoadedImage} (h : Owned mmfr0 memory roots free)
    (hcode : Resident mmfr0 roots memory free vdso.code)
    (hdata : Resident mmfr0 roots memory free vdso.data)
    (hload : loadElf mmfr0 vdso file argv envp random stackRandom memory = .ok (image, memory')) :
    image.entryPoint = field file 24 8 + loadBase file random ∧
      ∀ address, leafAt mmfr0 memory' image.pageTable address =
        shown (leaves (memory.pages vdso.code) (memory.pages vdso.data) file argv envp random
          stackRandom) address := by
  unfold loadElf at hload
  split at hload
  · cases hload
  split at hload
  · cases hload
  rename_i root start hcreate
  dsimp only at hload
  split at hload
  · cases hload
  rename_i segments segmentsEnd hsegments
  split at hload
  · cases hload
  rename_i withTrampoline htrampoline
  split at hload
  · cases hload
  rename_i withStack hstack
  split at hload
  · cases hload
  split at hload
  · cases hload
  cases hload
  obtain ⟨_, hshows, hresident⟩ := shows_createTable h hcreate
  obtain ⟨hcode', hcodePage⟩ := hresident vdso.code hcode
  obtain ⟨hdata', hdataPage⟩ := hresident vdso.data hdata
  have hroot : root ∈ insert root roots := Set.mem_insert root roots
  have hloaded := hshows.loadHeaders hroot hsegments
  obtain ⟨page, hpage, hafter⟩ :=
    hloaded.placePage hroot (pageFlagsUserCode_pageFlags mmfr0) htrampoline
  obtain rfl := some.inj hpage
  obtain ⟨_, hpage, hafter⟩ :=
    hafter.placePage hroot (pageFlagsUserData_pageFlags mmfr0) hstack
  obtain rfl := some.inj hpage
  -- The vDSO pages share their tables with the trampoline.
  have hfirst := hafter.mapShared hroot (pageFlagsUserCode_pageFlags mmfr0) hcode'
    (show tablePath signalTrampolineVa = tablePath vdsoBaseVa by decide)
    (shown_ne_none (signalTrampolineVa, protection pageFlagsUserCode, trampolinePage) (by simp) rfl)
  have hsecond := hfirst.mapShared hroot (pageFlagsUserDataReadOnly_pageFlags mmfr0) hdata'
    (show tablePath signalTrampolineVa = tablePath vdsoDataVa by decide)
    (shown_ne_none (signalTrampolineVa, protection pageFlagsUserCode, trampolinePage) (by simp) rfl)
  obtain ⟨_, -, hshown⟩ := hsecond
  refine ⟨rfl, fun address => ?_⟩
  rw [hshown, hcodePage, hdataPage, leaves, laterLeaves]
  simp

/-! ## One segment -/

/-- The byte that a segment asks for at a position: from the file first, then
zero. -/
def elfByte (file : List UInt8) (ph : ProgramHeader) (i : Nat) : UInt8 :=
  if i < ph.pFilesz then file.getD (ph.pOffset + i) 0 else 0

/-- Every address of the segment shows the byte the segment asks for. -/
def LoadedRight (mmfr0 : Word) (memory : PhysicalMemory) (root : Word) (file : List UInt8)
    (base : Nat) (ph : ProgramHeader) : Prop :=
  ∀ i < ph.pMemsz,
    byteAt mmfr0 memory root (segmentVaddr base ph + i) = some (elfByte file ph i)

/-- No page placed after the segment has the number of one of its pages: none of the segments
behind it, and neither the trampoline, the stack page nor a page of the vDSO. -/
def Uncovered (base stackRandom : Nat) (after : List ProgramHeader) (ph : ProgramHeader) : Prop :=
  ∀ i < ph.pMemsz, (segmentVaddr base ph + i) / 4096 ∉
    (after.flatMap fun later => (List.range (segmentPageCount base later)).map fun pageIndex =>
        pageNumber (BitVec.ofNat 64 (pageVaddr base later pageIndex))) ++
      [signalTrampolineVa, BitVec.ofNat 64 (topPageVa stackRandom), vdsoBaseVa, vdsoDataVa].map
        pageNumber

theorem toNat_ofNat_of_lt (h : n < 2 ^ 48) : (BitVec.ofNat 64 n).toNat = n := by
  rw [BitVec.toNat_ofNat]
  omega

theorem pageNumber_ofNat (h : n < 2 ^ 48) : pageNumber (BitVec.ofNat 64 n) = n / 4096 := by
  rw [pageNumber, toNat_ofNat_of_lt h]
  omega

/-- The page of a segment that a position is in. -/
def pageIndexOf (base : Nat) (ph : ProgramHeader) (i : Nat) : Nat :=
  (segmentVaddr base ph + i) / 4096 - segmentVaddr base ph / 4096

/-- The position whose byte is shown in the place of another: in the first page the bytes of
the file start at the start of the page. -/
def shifted (ph : ProgramHeader) (i : Nat) : Nat :=
  if ph.pVaddr % 4096 + i < 4096 then ph.pVaddr % 4096 + i else i

theorem segmentBytes_eq_elfByte (hbase : base % 4096 = 0)
    (hfile : ph.pOffset + ph.pFilesz ≤ file.length) (i : Nat) :
    segmentBytes file base ph (pageIndexOf base ph i) ((segmentVaddr base ph + i) % 4096) =
      elfByte file ph (shifted ph i) := by
  have hvaddr : segmentVaddr base ph % 4096 = ph.pVaddr % 4096 := by
    rw [segmentVaddr]
    omega
  -- The page starts at this position of the segment, or at its start.
  have hstart : segmentPageStart base ph (pageIndexOf base ph i) +
      (segmentVaddr base ph + i) % 4096 = shifted ph i := by
    rw [segmentPageStart, pageVaddr, alignDown, pageIndexOf, shifted]
    split <;> omega
  rw [segmentBytes, elfByte, copyLength, fileOffset]
  by_cases hin : shifted ph i < ph.pFilesz
  · rw [if_pos (by omega), if_pos hin]
    congr 1
    omega
  · rw [if_neg (by omega), if_neg hin]

/-- The pages of a segment up to one, that one, and the rest. -/
theorem segmentLeaves_split (file : List UInt8) {k : Nat} (hk : k < segmentPageCount base ph) :
    ∃ before after, segmentLeaves file base ph =
        before ++ (BitVec.ofNat 64 (pageVaddr base ph k), protection (segmentFlags ph),
          pageOfBuffer (segmentBytes file base ph k)) :: after ∧
      ∀ later ∈ after, ∃ j, k < j ∧ j < segmentPageCount base ph ∧
        later.1 = BitVec.ofNat 64 (pageVaddr base ph j) := by
  have hrange : List.range (segmentPageCount base ph) =
      List.range k ++ k :: (List.range (segmentPageCount base ph - k - 1)).map (k + 1 + ·) := by
    obtain ⟨rest, hrest⟩ : ∃ rest, segmentPageCount base ph = k + 1 + rest :=
      ⟨segmentPageCount base ph - k - 1, by omega⟩
    rw [hrest, range_add, range_succ, append_assoc, singleton_append]
    congr 4
    omega
  rw [segmentLeaves, hrange, List.map_append, map_cons]
  refine ⟨_, _, rfl, fun later hlater => ?_⟩
  simp only [List.map_map, List.mem_map, List.mem_range] at hlater
  obtain ⟨j, _, rfl⟩ := hlater
  exact ⟨k + 1 + j, by omega, by omega, rfl⟩

/-- Of a segment in the user half that no later page covers, each address shows its own page. -/
theorem shown_segment {earlier later : List (Word × Word × Page)}
    (hlow : segmentEnd base ph ≤ 2 ^ 48) {i : Nat} (hi : i < ph.pMemsz)
    (huncovered : ∀ entry ∈ later, pageNumber entry.1 ≠ (segmentVaddr base ph + i) / 4096) :
    shown (earlier ++ segmentLeaves file base ph ++ later)
        (BitVec.ofNat 64 (segmentVaddr base ph + i)) =
      some (protection (segmentFlags ph),
        pageOfBuffer (segmentBytes file base ph (pageIndexOf base ph i))) := by
  have haddress : pageNumber (BitVec.ofNat 64 (segmentVaddr base ph + i)) =
      (segmentVaddr base ph + i) / 4096 := by
    rw [segmentEnd] at hlow
    exact pageNumber_ofNat (by omega)
  have hk : pageIndexOf base ph i < segmentPageCount base ph := by
    rw [pageIndexOf, segmentPageCount, alignUp, alignDown, segmentEnd]
    omega
  have hpage : ∀ j, j < segmentPageCount base ph →
      pageNumber (BitVec.ofNat 64 (pageVaddr base ph j)) = segmentVaddr base ph / 4096 + j := by
    intro j hj
    rw [pageNumber_ofNat]
    · rw [pageVaddr, alignDown]
      omega
    · rw [segmentPageCount, alignUp, alignDown] at hj
      rw [pageVaddr, alignDown]
      omega
  obtain ⟨_, _, hsplit, hafter⟩ := segmentLeaves_split file hk
  rw [hsplit, append_assoc, append_assoc, ← append_assoc earlier]
  refine shown_of_last ?_ fun entry hentry => ?_
  · rw [hpage _ hk, haddress, pageIndexOf]
    omega
  rw [haddress]
  rcases mem_append.mp hentry with hown | hlater
  · obtain ⟨j, hkj, hj, hentry⟩ := hafter entry hown
    rw [hentry, hpage j hj]
    rw [pageIndexOf] at hkj
    omega
  · exact huncovered entry hlater

theorem Uncovered.pageNumber_ne {stackRandom : Nat} {after : List ProgramHeader} {code data : Page}
    {argv envp : List (List UInt8)} (h : Uncovered base stackRandom after ph) {i : Nat}
    (hi : i < ph.pMemsz) :
    ∀ entry ∈ after.flatMap (segmentLeaves file base) ++
        laterLeaves code data argv envp stackRandom,
      pageNumber entry.1 ≠ (segmentVaddr base ph + i) / 4096 := by
  intro entry hentry heq
  refine h i hi ?_
  rw [← heq]
  rcases mem_append.mp hentry with hsegment | hlater
  · obtain ⟨later, hlater, hleaf⟩ := mem_flatMap.mp hsegment
    obtain ⟨pageIndex, hindex, rfl⟩ := mem_map.mp hleaf
    exact mem_append_left _ (mem_flatMap.mpr ⟨later, hlater, mem_map_of_mem hindex⟩)
  · refine mem_append_right _ (mem_map_of_mem ?_)
    have hfirst := mem_map_of_mem (f := Prod.fst) hlater
    exact hfirst

/-- A segment that no later page covers is right exactly if it ends in the user half and each
byte of its first page is the one that stands `p_vaddr % 4096` further on.  The second is so if
`p_vaddr` is a multiple of the page size, or if there are no bytes in the file. -/
theorem segment_loaded_iff (mmfr0 : Word) (vdso : Vdso) (file : List UInt8)
    (argv envp : List (List UInt8)) (random stackRandom : Nat) (memory memory' : PhysicalMemory)
    (roots : Set Word) (free : List Word) (image : LoadedImage) (ph : ProgramHeader)
    (before after : List ProgramHeader)
    (howned : Owned mmfr0 memory roots free) (hcode : Resident mmfr0 roots memory free vdso.code)
    (hdata : Resident mmfr0 roots memory free vdso.data)
    (hload : loadElf mmfr0 vdso file argv envp random stackRandom memory = .ok (image, memory'))
    (hsegments : loadSegments file = before ++ ph :: after)
    (hfile : ph.pOffset + ph.pFilesz ≤ file.length)
    (huncovered : Uncovered (loadBase file random) stackRandom after ph) :
    LoadedRight mmfr0 memory' image.pageTable file (loadBase file random) ph ↔
      (ph.pMemsz = 0 ∨ segmentEnd (loadBase file random) ph ≤ 2 ^ 48) ∧
        ∀ i < ph.pMemsz, ph.pVaddr % 4096 + i < 4096 →
          elfByte file ph (ph.pVaddr % 4096 + i) = elfByte file ph i := by
  have hbase : loadBase file random % 4096 = 0 := by
    unfold loadBase userImageBase aslrPageOffset
    split <;> omega
  have hplaced : leaves (memory.pages vdso.code) (memory.pages vdso.data) file argv envp
        random stackRandom =
      before.flatMap (segmentLeaves file (loadBase file random)) ++
          segmentLeaves file (loadBase file random) ph ++
        (after.flatMap (segmentLeaves file (loadBase file random)) ++
          laterLeaves (memory.pages vdso.code) (memory.pages vdso.data) argv envp
            stackRandom) := by
    rw [leaves, hsegments]
    simp
  have hbyte : segmentEnd (loadBase file random) ph ≤ 2 ^ 48 → ∀ i < ph.pMemsz,
      byteAt mmfr0 memory' image.pageTable (segmentVaddr (loadBase file random) ph + i) =
        some (elfByte file ph (shifted ph i)) := by
    intro hlow i hi
    have hlt : segmentVaddr (loadBase file random) ph + i < 2 ^ 48 := by
      rw [segmentEnd] at hlow
      omega
    rw [byteAt, if_pos hlt, pageAt_eq_map, (loadElf_leafAt howned hcode hdata hload).2, hplaced,
      shown_segment hlow hi (huncovered.pageNumber_ne hi)]
    have hoffset : (pageOffset (BitVec.ofNat 64 (segmentVaddr (loadBase file random) ph + i))).val
        = (segmentVaddr (loadBase file random) ph + i) % 4096 :=
      congrArg (· % 4096) (toNat_ofNat_of_lt hlt)
    rw [map_some, map_some, pageByte_pageOfBuffer, hoffset, segmentBytes_eq_elfByte hbase hfile]
  constructor
  · intro hright
    have hlow : ph.pMemsz = 0 ∨ segmentEnd (loadBase file random) ph ≤ 2 ^ 48 := by
      rcases Nat.eq_zero_or_pos ph.pMemsz with hnone | hsome
      · exact .inl hnone
      have hlast := hright (ph.pMemsz - 1) (by omega)
      unfold byteAt at hlast
      split at hlast
      · exact .inr (by rw [segmentEnd]; omega)
      · cases hlast
    refine ⟨hlow, fun i hi hfirst => ?_⟩
    have hshown := (hbyte (hlow.resolve_left (by omega)) i hi).symm.trans (hright i hi)
    rw [shifted, if_pos hfirst] at hshown
    exact some.inj hshown
  · rintro ⟨hlow, hfirst⟩ i hi
    rw [hbyte (hlow.resolve_left (by omega)) i hi, shifted]
    split
    next hpage => rw [hfirst i hi hpage]
    · rfl

/-! ## A file with one segment -/

/-- An ELF file with one program header and one byte of data behind it, which is to
be loaded at `vaddr` with one zero byte after it. -/
def sampleFile (vaddr : Nat) : List UInt8 :=
  [0x7F, 0x45, 0x4C, 0x46, 2, 1, 1, 0, 0, 0, 0, 0, 0, 0, 0, 0] ++
    leBytes 2 2 ++ leBytes 2 183 ++ leBytes 4 1 ++ leBytes 8 vaddr ++ leBytes 8 64 ++
    leBytes 8 0 ++ leBytes 4 0 ++ leBytes 2 64 ++ leBytes 2 56 ++ leBytes 2 1 ++
    leBytes 2 0 ++ leBytes 2 0 ++ leBytes 2 0 ++
    leBytes 4 1 ++ leBytes 4 5 ++ leBytes 8 120 ++ leBytes 8 vaddr ++ leBytes 8 vaddr ++
    leBytes 8 1 ++ leBytes 8 2 ++ leBytes 8 4096 ++ [7]

/-- Its segment. -/
def sampleHeader (vaddr : Nat) : ProgramHeader := ⟨1, 5, 120, vaddr, 1, 2⟩

/-- A machine with 48-bit physical addresses. -/
def sampleMmfr0 : Word := 5#64

/-- Sixteen usable pages. -/
def samplePages : List Word :=
  (List.range 16).map fun i => BitVec.ofNat 64 (i + 1) <<< 12

/-- The memory at boot. -/
def sampleMemory : PhysicalMemory := init (fun _ => zeroPage) samplePages

/-- Two pages of the kernel image. -/
def sampleVdso : Vdso := ⟨0x100000#64, 0x101000#64⟩

/-- A segment at 0x400010 is loaded at the start of its page: the data byte is not
where it belongs. -/
theorem unaligned_segment_is_shifted :
    loadSegments (sampleFile 0x400010) = [sampleHeader 0x400010] ∧
      ∃ image memory', loadElf sampleMmfr0 sampleVdso (sampleFile 0x400010) [] [] 0 0
          sampleMemory = .ok (image, memory') ∧
        ¬ LoadedRight sampleMmfr0 memory' image.pageTable (sampleFile 0x400010)
          (loadBase (sampleFile 0x400010) 0) (sampleHeader 0x400010) := by
  refine ⟨by decide +kernel, ?_⟩
  have hview : (loadElf sampleMmfr0 sampleVdso (sampleFile 0x400010) [] [] 0 0
      sampleMemory).toOption.map (fun (image, memory') =>
        byteAt sampleMmfr0 memory' image.pageTable
          (segmentVaddr (loadBase (sampleFile 0x400010) 0) (sampleHeader 0x400010) + 0)) =
      some (some 0) := by
    decide +kernel
  obtain ⟨⟨image, memory'⟩, hload, hzero⟩ := map_eq_some_iff.mp hview
  refine ⟨image, memory', eq_ok_of_toOption hload, fun hright => ?_⟩
  have hbyte := hzero.symm.trans (hright 0 (by decide))
  exact absurd (some.inj hbyte) (by decide +kernel)

theorem sampleMemory_owned : Owned sampleMmfr0 sampleMemory ∅ samplePages.reverse := by
  have hframed : samplePages.all (fun page => page &&& paMask sampleMmfr0 = page) = true := by
    decide +kernel
  exact Owned.init sampleMmfr0 _ (by decide +kernel)
    fun page hmem => of_decide_eq_true (all_eq_true.mp hframed page hmem)

theorem resident_of_not_mem (hframed : page &&& paMask sampleMmfr0 = page)
    (hfree : page ∉ samplePages.reverse) :
    Resident sampleMmfr0 ∅ sampleMemory samplePages.reverse page :=
  ⟨hframed, hfree, fun ⟨_, hroot, _⟩ => hroot⟩

/-- A segment at 0x400000 is loaded right. -/
theorem aligned_segment_is_loaded :
    ∃ image memory', loadElf sampleMmfr0 sampleVdso (sampleFile 0x400000) [] [] 0 0
        sampleMemory = .ok (image, memory') ∧
      LoadedRight sampleMmfr0 memory' image.pageTable (sampleFile 0x400000)
        (loadBase (sampleFile 0x400000) 0) (sampleHeader 0x400000) := by
  have hloads : (loadElf sampleMmfr0 sampleVdso (sampleFile 0x400000) [] [] 0 0
      sampleMemory).toOption.isSome = true := by
    decide +kernel
  obtain ⟨⟨image, memory'⟩, hload⟩ := isSome_iff_exists.mp hloads
  have hload := eq_ok_of_toOption hload
  have huncovered : ∀ i < 2, (segmentVaddr (loadBase (sampleFile 0x400000) 0)
      (sampleHeader 0x400000) + i) / 4096 ∉ [signalTrampolineVa,
        BitVec.ofNat 64 (topPageVa 0), vdsoBaseVa, vdsoDataVa].map pageNumber := by
    decide +kernel
  refine ⟨image, memory', hload, (segment_loaded_iff sampleMmfr0 sampleVdso
    (sampleFile 0x400000) [] [] 0 0 sampleMemory memory' ∅ samplePages.reverse image
    (sampleHeader 0x400000) [] [] sampleMemory_owned
    (resident_of_not_mem (by decide +kernel) (by decide +kernel))
    (resident_of_not_mem (by decide +kernel) (by decide +kernel)) hload (by decide +kernel)
    (by decide +kernel) huncovered).mpr ⟨.inr (by decide +kernel), ?_⟩⟩
  decide +kernel

end Bazzulto.Loader
