/-
  Heap/Ownership.lean --- who holds the blocks of the heap.

  `Represents` ties the fields of the heap and its memory to a list of blocks.  Every
  used block is held by a caller or waits in one slab freelist, and never both.  An
  operation of the first-fit list keeps the used blocks and their contents, and a
  block that it hands out was not used before.
-/
import Bazzulto.Foundation.Counting
import Bazzulto.Heap.Refinement

set_option autoImplicit false

namespace Bazzulto.Heap

open List Option Function Foundation Block

/-! ## The heap as a list of blocks -/

/-- The heap consists of the blocks. -/
structure Represents (arena : Arena) (blocks : List Block) : Prop where
  base_pos : 0 < arena.heap.base
  base_aligned : heapMinAlign ∣ arena.heap.base
  page_aligned : heapMinAlign ∣ arena.heap.pageSize
  page_large : headerSize ≤ arena.heap.pageSize
  head_eq : arena.heap.head = firstOf arena.heap.base blocks
  end_eq : arena.heap.currentEnd = arena.heap.base + extent headerSize blocks
  aligned : Block.Aligned heapMinAlign blocks
  holds : Holds arena.mem arena.heap.base blocks

theorem Represents.rounds {arena : Arena} {blocks : List Block}
    (hrepr : Represents arena blocks) : blocks.length < arena.heap.rounds := by
  have hextent : blocks.length * headerSize ≤ extent headerSize blocks :=
    length_mul_le_extent blocks
  rw [KernelHeap.rounds, hrepr.end_eq, Nat.add_sub_cancel_left]
  exact Nat.lt_succ_of_le ((Nat.le_div_iff_mul_le (by decide)).mpr hextent)

/-- The used blocks stay used, with their contents, and the freelists stay as they
are. -/
structure Keeps (arena : Arena) (blocks : List Block) (arena' : Arena) (after : List Block) :
    Prop where
  represents : Represents arena' after
  base_eq : arena'.heap.base = arena.heap.base
  slabs_eq : arena'.heap.slabFreeHeads = arena.heap.slabFreeHeads
  used : ∀ range ∈ payloads arena.heap.base blocks, range ∈ payloads arena.heap.base after
  kept : ∀ range ∈ payloads arena.heap.base blocks, ∀ a, InRange range a →
    arena'.mem a = arena.mem a

/-- The heap has handed out a block that was not used, if it has found one. -/
structure Serves (needed : Nat) (arena : Arena) (blocks : List Block) (found : Option Nat)
    (arena' : Arena) (after : List Block) : Prop extends Keeps arena blocks arena' after where
  served : ∀ payload, found = some payload →
    (∃ size, needed ≤ size ∧ (payload, size) ∈ payloads arena.heap.base after) ∧
      ∀ range ∈ payloads arena.heap.base blocks, range.1 ≠ payload

section Keeps

variable {arena arena' : Arena} {blocks after : List Block} {needed : Nat} {third : Arena}
  {last : List Block} {found : Option Nat}

theorem Keeps.refl (hrepr : Represents arena blocks) : Keeps arena blocks arena blocks :=
  ⟨hrepr, rfl, rfl, fun _ h => h, fun _ _ _ _ => rfl⟩

theorem Keeps.trans (hfirst : Keeps arena blocks arena' after)
    (hsecond : Keeps arena' after third last) : Keeps arena blocks third last where
  represents := hsecond.represents
  base_eq := hsecond.base_eq.trans hfirst.base_eq
  slabs_eq := hsecond.slabs_eq.trans hfirst.slabs_eq
  used range hrange := hfirst.base_eq ▸ hsecond.used range (hfirst.base_eq ▸ hfirst.used range hrange)
  kept range hrange a ha :=
    (hsecond.kept range (hfirst.base_eq ▸ hfirst.used range hrange) a ha).trans
      (hfirst.kept range hrange a ha)

theorem Keeps.serves (hfirst : Keeps arena blocks arena' after)
    (hsecond : Serves needed arena' after found third last) :
    Serves needed arena blocks found third last where
  toKeeps := hfirst.trans hsecond.toKeeps
  served payload hfound := by
    obtain ⟨hsize, hfresh⟩ := hsecond.served payload hfound
    rw [hfirst.base_eq] at hsize hfresh
    exact ⟨hsize, fun range hrange => hfresh range (hfirst.used range hrange)⟩

theorem Keeps.none (hkeeps : Keeps arena blocks arena' after) :
    Serves needed arena blocks none arena' after :=
  ⟨hkeeps, fun _ hfound => absurd hfound (by simp)⟩

theorem Serves.counters (hserves : Serves needed arena blocks found arena' after)
    (slabAllocs slabFrees total peak allocs frees : Nat) :
    Serves needed arena blocks found
      ⟨⟨arena'.heap.head, arena'.heap.currentEnd, arena'.heap.base, arena'.heap.pageSize,
        arena'.heap.slabFreeHeads, slabAllocs, slabFrees, total, peak, allocs, frees⟩,
        arena'.mem⟩ after :=
  { hserves with represents := { hserves.represents with } }

/-! ## The first-fit list -/

section

variable (hrepr : Represents arena blocks)
include hrepr

theorem findFreeBlock_serves (hneeded : heapMinAlign ∣ needed) :
    ∃ found arena' after, arena.findFreeBlock needed = some (found, arena') ∧
      Serves needed arena blocks found arena' after := by
  obtain ⟨hnone, hsome⟩ := @findFreeFrom_eq needed _ _ _ _ hrepr.base_pos hrepr.rounds hrepr.holds
  rw [← hrepr.head_eq] at hnone hsome
  unfold Arena.findFreeBlock
  cases hcarve : carve headerSize minBlockSize needed blocks with
  | none =>
    rw [hnone hcarve]
    exact ⟨none, arena, blocks, rfl, (Keeps.refl hrepr).none⟩
  | some carved =>
    obtain ⟨offset, after⟩ := carved
    obtain ⟨mem, hfound, hrewrites⟩ := hsome offset after hcarve
    obtain ⟨size, hsize, hpayloads⟩ := payloads_carve hcarve _
    rw [hfound]
    refine ⟨some (arena.heap.base + offset), { arena with mem := mem }, after, rfl, ?_⟩
    refine ⟨⟨?_, rfl, rfl, fun range hrange => (hpayloads range).mpr (.inr hrange),
      hrewrites.kept⟩, ?_⟩
    · exact { hrepr with
        head_eq := hrepr.head_eq.trans (firstOf_carve hcarve _).symm
        end_eq := hrepr.end_eq.trans (by rw [extent_carve hcarve])
        aligned := aligned_carve hcarve (by decide) hneeded hrepr.aligned
        holds := hrewrites.holds }
    · rintro _ ⟨⟩
      exact ⟨⟨size, hsize, (hpayloads _).mpr (.inl rfl)⟩, carve_fresh hcarve (by decide) _⟩

theorem coalesce_keeps :
    ∃ arena' after, arena.coalesce = some arena' ∧ Keeps arena blocks arena' after := by
  unfold Arena.coalesce
  cases blocks with
  | nil =>
    refine ⟨arena, [], ?_, .refl hrepr⟩
    rw [hrepr.head_eq]
    rfl
  | cons block rest =>
    obtain ⟨mem, hmerged, hrewrites⟩ :=
      coalesceFrom_eq hrepr.base_pos hrepr.rounds hrepr.holds
    have hpayloads : payloads arena.heap.base (mergeFrom headerSize block rest) =
        payloads arena.heap.base (block :: rest) :=
      payloads_mergeFrom arena.heap.base block rest
    have hhead : arena.heap.head = arena.heap.base := hrepr.head_eq
    rw [hhead, hmerged]
    refine ⟨{ arena with mem := mem }, mergeFrom headerSize block rest, rfl, ?_⟩
    refine ⟨?_, rfl, rfl, fun range hrange => hpayloads.symm ▸ hrange, hrewrites.kept⟩
    exact { hrepr with
      head_eq := hhead.trans (firstOf_mergeFrom ..).symm
      end_eq := hrepr.end_eq.trans (by rw [extent_mergeFrom])
      aligned := aligned_mergeFrom (by decide) block rest hrepr.aligned
      holds := hrewrites.holds }

theorem registerGrownPages_keeps {pageCount : Nat} (hcount : 0 < pageCount) :
    ∃ arena' after, arena.registerGrownPages pageCount = some arena' ∧
      Keeps arena blocks arena' after := by
  -- the new block takes all mapped bytes
  have hbytes : headerSize ≤ pageCount * arena.heap.pageSize :=
    Nat.le_trans hrepr.page_large (Nat.le_mul_of_pos_left _ hcount)
  generalize hsize : pageCount * arena.heap.pageSize - headerSize = size
  have haligned : heapMinAlign ∣ size :=
    hsize ▸ Nat.dvd_sub (hrepr.page_aligned.mul_left _) (by decide)
  have hgrown : arena.heap.currentEnd + pageCount * arena.heap.pageSize =
      arena.heap.base + extent headerSize (grow headerSize size blocks) := by
    rw [extent_grow, hrepr.end_eq]
    omega
  have hpayloads : payloads arena.heap.base (grow headerSize size blocks) =
      payloads arena.heap.base blocks := payloads_grow size blocks _
  have hused : ∀ range ∈ payloads arena.heap.base blocks,
      range ∈ payloads arena.heap.base (grow headerSize size blocks) :=
    fun range hrange => hpayloads.symm ▸ hrange
  -- its header lies behind all payloads
  have hbehind : ∀ header, ∀ range ∈ payloads arena.heap.base blocks, ∀ a, InRange range a →
      writeHeader arena.mem arena.heap.currentEnd header a = arena.mem a := by
    intro _ range hrange a ha
    have hbound := (payloads_bounds hrange).2
    have := ha.2
    rw [← hrepr.end_eq] at hbound
    exact writeHeader_outside (by omega)
  unfold Arena.registerGrownPages
  dsimp only
  rw [hsize]
  cases blocks with
  | nil =>
    have hhead : arena.heap.head = 0 := hrepr.head_eq
    have hend : arena.heap.currentEnd = arena.heap.base := hrepr.end_eq
    rw [if_pos hhead]
    refine ⟨_, [⟨size, false⟩], rfl, ?_, rfl, rfl, hused, hbehind _⟩
    exact { hrepr with
      head_eq := hend
      end_eq := hgrown
      aligned := aligned_cons.mpr ⟨haligned, hrepr.aligned⟩
      holds := ⟨by rw [← hend]; exact readHeader_writeHeader .., trivial⟩ }
  | cons block rest =>
    have hhead : arena.heap.head = arena.heap.base := hrepr.head_eq
    have hpos := hrepr.base_pos
    rw [if_neg (by omega), hhead]
    have hholds : Holds (writeHeader arena.mem arena.heap.currentEnd ⟨blockMagicFree, size, 0⟩)
        arena.heap.base (block :: rest) :=
      hrepr.holds.congr fun a _ ha _ => writeHeader_outside (.inl (hrepr.end_eq ▸ ha))
    obtain ⟨_, htail, hrewrites⟩ := @linkTail_eq size rest arena.heap.rounds _ _ block hpos
      (Nat.lt_of_succ_lt hrepr.rounds) hholds
      (by rw [← hrepr.end_eq]; exact readHeader_writeHeader ..)
    rw [← hrepr.end_eq] at hrewrites
    rw [htail]
    refine ⟨_, grow headerSize size (block :: rest), rfl, ?_, rfl, rfl, hused,
      fun range hrange a ha => ?_⟩
    · exact { hrepr with
        head_eq := (firstOf_grow ..).symm
        end_eq := hgrown
        aligned := aligned_grow (by decide) haligned _ hrepr.aligned
        holds := hrewrites.holds }
    · exact (hrewrites.kept range hrange a ha).trans (hbehind _ range hrange a ha)

theorem growForSize_keeps (neededBytes : Nat) (mapping : Mapping) :
    ∃ grown arena' after, arena.growForSize neededBytes mapping = some (grown, arena') ∧
      Keeps arena blocks arena' after := by
  unfold Arena.growForSize
  dsimp only
  split
  · obtain ⟨arena', after, hgrown, hkeeps⟩ := registerGrownPages_keeps hrepr
      (Nat.lt_of_lt_of_le (by decide : 0 < heapGrowthPages) (Nat.le_max_right ..))
    exact ⟨true, arena', after, by rw [hgrown]; rfl, hkeeps⟩
  split
  · obtain ⟨arena', after, hgrown, hkeeps⟩ := registerGrownPages_keeps hrepr
      (Nat.lt_of_lt_of_le Nat.one_pos (Nat.le_max_right ..))
    exact ⟨true, arena', after, by rw [hgrown]; rfl, hkeeps⟩
  · exact ⟨false, arena, blocks, rfl, .refl hrepr⟩

theorem init_keeps (mapped : Bool) :
    ∃ arena' after, arena.init mapped = some arena' ∧ Keeps arena blocks arena' after := by
  unfold Arena.init
  split
  · exact registerGrownPages_keeps hrepr (by decide)
  · exact ⟨arena, blocks, rfl, .refl hrepr⟩

theorem firstFit_serves (hneeded : heapMinAlign ∣ needed) (mayGrow : Bool) (mapping : Mapping) :
    ∃ found arena' after, arena.firstFit needed mayGrow mapping = some (found, arena') ∧
      Serves needed arena blocks found arena' after := by
  unfold Arena.firstFit
  obtain ⟨found, first, after, hfirst, hserves⟩ := findFreeBlock_serves hrepr hneeded
  rw [hfirst]
  cases found with
  | some payload => exact ⟨some payload, first, after, rfl, hserves⟩
  | none =>
    obtain ⟨_, after, hmerged, hkeeps⟩ := coalesce_keeps hserves.represents
    replace hkeeps := hserves.toKeeps.trans hkeeps
    obtain ⟨found, second, after, hsecond, hserves⟩ :=
      findFreeBlock_serves hkeeps.represents hneeded
    replace hserves := hkeeps.serves hserves
    simp only [bind_eq_bind, bind_some, hmerged, hsecond]
    cases found with
    | some payload => exact ⟨some payload, second, after, rfl, hserves⟩
    | none =>
      cases mayGrow with
      | false => exact ⟨none, second, after, rfl, hserves⟩
      | true =>
        obtain ⟨grown, third, after, hthird, hkeeps⟩ :=
          growForSize_keeps hserves.represents needed mapping
        replace hkeeps := hserves.toKeeps.trans hkeeps
        simp only [hthird]
        cases grown with
        | false => exact ⟨none, third, after, rfl, hkeeps.none⟩
        | true =>
          obtain ⟨found, last, after, hlast, hserves⟩ :=
            findFreeBlock_serves hkeeps.represents hneeded
          exact ⟨found, last, after, hlast, hkeeps.serves hserves⟩

end

theorem dvd_alignUp (size alignment : Nat) : alignment ∣ alignUp size alignment :=
  Nat.dvd_mul_left ..

theorem allocBytes_serves (hrepr : Represents arena blocks) (size : Nat)
    (context : AllocContext) (mapping : Mapping) :
    ∃ found arena' after, arena.allocBytes size context mapping = some (found, arena') ∧
      Serves (alignUp size heapMinAlign) arena blocks found arena' after := by
  unfold Arena.allocBytes
  split
  · exact ⟨none, arena, blocks, rfl, (Keeps.refl hrepr).none⟩
  obtain ⟨found, arena', after, hfirst, hserves⟩ :=
    firstFit_serves hrepr (dvd_alignUp size heapMinAlign) (context = .kernel) mapping
  dsimp only
  rw [hfirst]
  cases found with
  | none => exact ⟨none, arena', after, rfl, hserves⟩
  | some payload =>
    exact ⟨some payload, _, after, rfl, hserves.counters ..⟩

end Keeps

/-! ## Holders -/

/-- Every block that a caller holds or that waits in a freelist is used and large
enough, and there is one holder. -/
structure Ownership (arena : Arena) (blocks : List Block) (live : List (Nat × Nat))
    (slots : SlabClass → List Nat) : Prop where
  chained : ∀ slab, Chained arena.mem (arena.heap.slabFreeHeads slab) (slots slab)
  once : ∀ payload, (live.map Prod.fst).count payload + ∑ slab, (slots slab).count payload ≤ 1
  live_inside : ∀ range ∈ live, ∃ size, (range.1, size) ∈ payloads arena.heap.base blocks ∧
    range.2 ≤ size
  slots_inside : ∀ slab, ∀ payload ∈ slots slab,
    ∃ size, (payload, size) ∈ payloads arena.heap.base blocks ∧ slabClassSize slab ≤ size

theorem slabClassSize_pos (slab : SlabClass) : 0 < slabClassSize slab :=
  Nat.mul_pos (by decide) (Nat.two_pow_pos _)

theorem dvd_slabClassSize (slab : SlabClass) : heapMinAlign ∣ slabClassSize slab :=
  Nat.dvd_mul_right ..

theorem alignUp_slabClassSize (slab : SlabClass) :
    alignUp (slabClassSize slab) heapMinAlign = slabClassSize slab := by
  obtain ⟨_, hcount⟩ := dvd_slabClassSize slab
  rw [alignUp, hcount]
  unfold heapMinAlign
  omega

namespace Ownership

variable {arena : Arena} {blocks : List Block} {live : List (Nat × Nat)}
  {slots : SlabClass → List Nat} {slab : SlabClass} {payload size : Nat} {arena' : Arena}
  {after : List Block}

/-- Nobody holds the block. -/
def Unheld (live : List (Nat × Nat)) (slots : SlabClass → List Nat) (payload : Nat) : Prop :=
  payload ∉ live.map Prod.fst ∧ ∀ slab, payload ∉ slots slab

theorem unheld_iff : Unheld live slots payload ↔
    (live.map Prod.fst).count payload + ∑ slab, (slots slab).count payload = 0 := by
  simp [Unheld, List.count_eq_zero]

theorem slot_sum (slots : SlabClass → List Nat) (hslot : payload ∈ slots slab) :
    1 ≤ ∑ slab, (slots slab).count payload := by
  have hcount := count_pos_iff.mpr hslot
  have hsum := sum_update_add slots (List.count payload) slab []
  rw [count_nil] at hsum
  omega

section

variable (howned : Ownership arena blocks live slots)
include howned

theorem not_slot {range : Nat × Nat} (hlive : range ∈ live) (slab : SlabClass) :
    range.1 ∉ slots slab := by
  intro hslot
  have hcount : 1 ≤ (live.map Prod.fst).count range.1 :=
    count_pos_iff.mpr (mem_map_of_mem hlive)
  have hsum := slot_sum slots hslot
  have := howned.once range.1
  omega

/-- What keeps the used blocks keeps their holders. -/
theorem keeps (hkeeps : Keeps arena blocks arena' after) : Ownership arena' after live slots where
  chained slab := by
    rw [hkeeps.slabs_eq]
    refine (howned.chained slab).congr fun payload hslot => ?_
    obtain ⟨size, hmem, hsize⟩ := howned.slots_inside slab payload hslot
    have := slabClassSize_pos slab
    exact hkeeps.kept _ hmem payload ⟨le_rfl, by dsimp only; omega⟩
  once := howned.once
  live_inside range hrange := by
    obtain ⟨size, hmem, hsize⟩ := howned.live_inside range hrange
    exact ⟨size, hkeeps.base_eq ▸ hkeeps.used _ hmem, hsize⟩
  slots_inside slab payload hslot := by
    obtain ⟨size, hmem, hsize⟩ := howned.slots_inside slab payload hslot
    exact ⟨size, hkeeps.base_eq ▸ hkeeps.used _ hmem, hsize⟩

theorem unheld_of_fresh
    (hfresh : ∀ range ∈ payloads arena.heap.base blocks, range.1 ≠ payload) :
    Unheld live slots payload := by
  constructor
  · intro hmem
    obtain ⟨range, hrange, rfl⟩ := List.mem_map.mp hmem
    obtain ⟨size, hmem, _⟩ := howned.live_inside range hrange
    exact hfresh _ hmem rfl
  · intro slab hslot
    obtain ⟨_, hmem, _⟩ := howned.slots_inside slab payload hslot
    exact hfresh _ hmem rfl

/-- A block that nobody holds is handed out. -/
theorem hand {length : Nat} (hmem : (payload, size) ∈ payloads arena.heap.base blocks)
    (hlen : length ≤ size) (hnone : Unheld live slots payload) :
    Ownership arena blocks ((payload, length) :: live) slots where
  chained := howned.chained
  once other := by
    have := howned.once other
    rw [map_cons, count_cons]
    split
    next heq =>
      obtain rfl : payload = other := by simpa using heq
      have := unheld_iff.mp hnone
      omega
    · omega
  live_inside range hrange := by
    rcases mem_cons.mp hrange with rfl | hrange
    · exact ⟨size, hmem, hlen⟩
    · exact howned.live_inside range hrange
  slots_inside := howned.slots_inside

theorem serves {needed : Nat} {found : Option Nat}
    (hserves : Serves needed arena blocks found arena' after) :
    Ownership arena' after (State.hand live needed (found, arena')).live slots := by
  have hkept := howned.keeps hserves.toKeeps
  cases found with
  | none => exact hkept
  | some payload =>
    obtain ⟨⟨_, hsize, hmem⟩, hfresh⟩ := hserves.served payload rfl
    exact hkept.hand (hserves.base_eq ▸ hmem) hsize (howned.unheld_of_fresh hfresh)

/-! ### Writing to a block -/

theorem slot_outside {other : Nat} (hmem : (payload, size) ∈ payloads arena.heap.base blocks)
    (hslot : other ∈ slots slab) (hne : other ≠ payload) : ¬ InRange (payload, size) other := by
  obtain ⟨_, hother, _⟩ := howned.slots_inside slab other hslot
  rintro ⟨_, _⟩
  rcases payloads_disjoint hmem hother with heq | _ | _
  · exact hne (congrArg Prod.fst heq).symm
  · omega
  · omega

/-- What is written to a block that waits in no freelist leaves the freelists as they
are. -/
theorem write {mem : Words} (hmem : (payload, size) ∈ payloads arena.heap.base blocks)
    (hslots : ∀ slab, payload ∉ slots slab)
    (hsame : ∀ a, ¬ InRange (payload, size) a → mem a = arena.mem a) :
    Ownership { arena with mem := mem } blocks live slots :=
  { howned with
    chained := fun slab => (howned.chained slab).congr fun other hslot =>
      hsame other (howned.slot_outside hmem hslot fun heq => hslots slab (heq ▸ hslot)) }

/-! ### Freeing and taking slots -/

theorem drop {range : Nat × Nat} (hrange : range ∈ live) :
    Ownership arena blocks (live.filter fun other => other.1 ≠ range.1) slots ∧
      Unheld (live.filter fun other => other.1 ≠ range.1) slots range.1 := by
  refine ⟨⟨howned.chained, fun other => ?_, fun other hother => ?_, howned.slots_inside⟩, ?_,
    howned.not_slot hrange⟩
  · refine Nat.le_trans (Nat.add_le_add_right ?_ _) (howned.once other)
    exact (filter_sublist.map _).count_le other
  · exact howned.live_inside other (mem_of_mem_filter hother)
  · intro hmem
    obtain ⟨_, hother, heq⟩ := List.mem_map.mp hmem
    exact absurd heq (by simpa using of_mem_filter hother)

/-- A block that nobody holds becomes the head of a freelist. -/
theorem push (hmem : (payload, size) ∈ payloads arena.heap.base blocks)
    (hsize : slabClassSize slab ≤ size) (hnone : Unheld live slots payload)
    (hbase : arena'.heap.base = arena.heap.base)
    (hheads : arena'.heap.slabFreeHeads = update arena.heap.slabFreeHeads slab payload)
    (hlink : arena'.mem payload = arena.heap.slabFreeHeads slab)
    (hsame : ∀ a, ¬ InRange (payload, size) a → arena'.mem a = arena.mem a) :
    Ownership arena' blocks live (update slots slab (payload :: slots slab)) := by
  have hchained := (howned.write hmem hnone.2 hsame).chained
  refine ⟨fun other => ?_, fun other => ?_, hbase ▸ howned.live_inside, fun other => ?_⟩
  · rw [hheads]
    obtain rfl | heq := eq_or_ne other slab
    · rw [update_self, update_self]
      have hpos := (payloads_bounds hmem).1
      have := (by decide : 0 < headerSize)
      refine ⟨rfl, by dsimp only at hpos; omega, ?_⟩
      rw [hlink]
      exact hchained other
    · rw [update_of_ne heq, update_of_ne heq]
      exact hchained other
  · have hsum := sum_update_add slots (List.count other) slab (payload :: slots slab)
    have := howned.once other
    rw [count_cons] at hsum
    split at hsum
    next heq =>
      obtain rfl : payload = other := by simpa using heq
      have := unheld_iff.mp hnone
      omega
    · omega
  · rw [hbase]
    obtain rfl | heq := eq_or_ne other slab
    · rw [update_self]
      intro slot hslot
      rcases mem_cons.mp hslot with rfl | hslot
      · exact ⟨size, hmem, hsize⟩
      · exact howned.slots_inside other slot hslot
    · rw [update_of_ne heq]
      exact howned.slots_inside other

/-- The head of a freelist is taken off, and nobody holds it. -/
theorem pop (hhead : arena.heap.slabFreeHeads slab ≠ 0)
    (hbase : arena'.heap.base = arena.heap.base)
    (hheads : arena'.heap.slabFreeHeads = update arena.heap.slabFreeHeads slab
      (arena.mem (arena.heap.slabFreeHeads slab)))
    (hsame : ∀ a, a ≠ arena.heap.slabFreeHeads slab → arena'.mem a = arena.mem a) :
    ∃ slots', Ownership arena' blocks live slots' ∧
      Unheld live slots' (arena.heap.slabFreeHeads slab) ∧
      ∃ size, (arena.heap.slabFreeHeads slab, size) ∈ payloads arena.heap.base blocks ∧
        slabClassSize slab ≤ size := by
  have hchain := howned.chained slab
  generalize arena.heap.slabFreeHeads slab = head at hhead hheads hsame hchain ⊢
  cases hslots : slots slab with
  | nil =>
    rw [hslots] at hchain
    exact absurd hchain hhead
  | cons first rest =>
    rw [hslots] at hchain
    obtain ⟨rfl, _, _⟩ := hchain
    have hsum := fun other =>
      sum_update_add slots (List.count other) slab rest
    simp only [hslots, count_cons] at hsum
    have hnone : Unheld live (update slots slab rest) head := by
      have := hsum head
      have := howned.once head
      rw [unheld_iff]
      simp only [BEq.rfl, if_true] at *
      omega
    refine ⟨update slots slab rest, ⟨fun other => ?_, fun other => ?_,
      hbase ▸ howned.live_inside, fun other => ?_⟩, hnone, ?_⟩
    · have hlist : Chained arena.mem (arena'.heap.slabFreeHeads other)
          (update slots slab rest other) := by
        rw [hheads]
        obtain rfl | heq := eq_or_ne other slab
        · rwa [update_self, update_self]
        · rw [update_of_ne heq, update_of_ne heq]
          exact howned.chained other
      exact hlist.congr fun slot hslot =>
        hsame slot fun heq => hnone.2 other (heq ▸ hslot)
    · have := hsum other
      have := howned.once other
      omega
    · rw [hbase]
      obtain rfl | heq := eq_or_ne other slab
      · rw [update_self]
        exact fun slot hslot =>
          howned.slots_inside other slot (hslots ▸ mem_cons_of_mem _ hslot)
      · rw [update_of_ne heq]
        exact howned.slots_inside other
    · exact howned.slots_inside slab head (hslots ▸ mem_cons_self)

/-- A used block that nobody holds is freed. -/
theorem release {next : Nat} (hmem : (payload, size) ∈ payloads arena.heap.base blocks)
    (hnone : Unheld live slots payload) (hbase : arena'.heap.base = arena.heap.base)
    (hheads : arena'.heap.slabFreeHeads = arena.heap.slabFreeHeads)
    (hfreed : arena'.mem = freed arena.mem payload size next) :
    Ownership arena' (Block.release headerSize payload arena.heap.base blocks) live slots := by
  have hstill : ∀ {other length : Nat}, (other, length) ∈ payloads arena.heap.base blocks →
      other ≠ payload → (other, length) ∈ payloads arena'.heap.base
        (Block.release headerSize payload arena.heap.base blocks) := by
    intro _ length hother hne
    rw [hbase]
    exact mem_payloads_release hne hother
  have hslot : ∀ {slab : SlabClass} {slot : Nat}, slot ∈ slots slab → slot ≠ payload := by
    rintro slab _ hslot rfl
    exact hnone.2 slab hslot
  refine ⟨fun slab => ?_, howned.once, fun range hrange => ?_, fun slab slot hmemSlot => ?_⟩
  · rw [hheads]
    refine (howned.chained slab).congr fun slot hmemSlot => ?_
    obtain ⟨length, hother, hlen⟩ := howned.slots_inside slab slot hmemSlot
    have hpos := slabClassSize_pos slab
    have hpayload := (payloads_bounds hmem).1
    rw [hfreed]
    refine freed_outside (by dsimp only at hpayload; omega) ?_
    rcases payloads_disjoint hmem hother with heq | _ | _
    · exact absurd (congrArg Prod.fst heq).symm (hslot hmemSlot)
    · omega
    · omega
  · obtain ⟨length, hother, hlen⟩ := howned.live_inside range hrange
    refine ⟨length, hstill hother ?_, hlen⟩
    rintro rfl
    exact hnone.1 (mem_map_of_mem hrange)
  · obtain ⟨length, hother, hlen⟩ := howned.slots_inside slab slot hmemSlot
    exact ⟨length, hstill hother (hslot hmemSlot), hlen⟩

end

end Ownership

end Bazzulto.Heap
