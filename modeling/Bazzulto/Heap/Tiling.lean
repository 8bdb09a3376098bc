/-
  Heap/Tiling.lean --- the kernel heap over whole runs.

  After any sequence of operations by callers that free what they hold, once, the
  list that starts at the head of the heap tiles the heap, and every block that is
  held lies in a used block of its own.
-/
import Mathlib.Algebra.BigOperators.Fin
import Bazzulto.Foundation.Run
import Bazzulto.Heap.Ownership

set_option autoImplicit false

namespace Bazzulto.Heap

open List Foundation Block

variable {blocks : List Block}

/-! ## One operation -/

/-- The heap consists of blocks, and each block that is held has one holder. -/
def Consistent (state : State) : Prop :=
  ∃ blocks slots, Represents state.arena blocks ∧
    Ownership state.arena blocks state.live slots

section Step

variable {arena : Arena} {live : List (Nat × Nat)} {slots : SlabClass → List Nat} {arena' : Arena}
  {after : List Block} {range : Nat × Nat} {payload : Nat}

theorem consistent_of_keeps (howned : Ownership arena blocks live slots)
    (hkeeps : Keeps arena blocks arena' after) : Consistent ⟨arena', live⟩ :=
  ⟨after, slots, hkeeps.represents, howned.keeps hkeeps⟩

theorem consistent_of_serves {needed : Nat} {found : Option Nat}
    (howned : Ownership arena blocks live slots)
    (hserves : Serves needed arena blocks found arena' after) :
    Consistent (State.hand live needed (found, arena')) := by
  have hafter := howned.serves hserves
  cases found with
  | none | some => exact ⟨after, slots, hserves.represents, hafter⟩

/-- What is written to a used block leaves the list as it is; so do the freelists and
the counters. -/
theorem Represents.write (hrepr : Represents arena blocks)
    (hmem : range ∈ payloads arena.heap.base blocks) {mem : Words}
    (hsame : ∀ a, ¬ InRange range a → mem a = arena.mem a) (heads : SlabClass → Nat)
    (slabAllocs slabFrees total peak allocs frees : Nat) :
    Represents
      ⟨⟨arena.heap.head, arena.heap.currentEnd, arena.heap.base, arena.heap.pageSize, heads,
        slabAllocs, slabFrees, total, peak, allocs, frees⟩, mem⟩ blocks :=
  { hrepr with holds := hrepr.holds.congr fun a _ _ hout => hsame a (hout range hmem) }

section

variable (hrepr : Represents arena blocks) (howned : Ownership arena blocks live slots)
include hrepr howned

theorem consistent_free (hlive : payload ∈ live.map Prod.fst) :
    ∃ after, step ⟨arena, live⟩ (.free payload) = some after ∧ Consistent after := by
  obtain ⟨range, hrange, rfl⟩ := mem_map.mp hlive
  obtain ⟨_, hmem, _⟩ := howned.live_inside range hrange
  obtain ⟨next, hheader, hholds⟩ := freed_eq hrepr.holds hmem
  obtain ⟨howned', hnone⟩ := howned.drop hrange
  unfold step Arena.freeBytes
  dsimp only
  rw [hheader]
  split
  next harena =>
    split at harena
    · cases harena
    obtain rfl := Except.ok.inj harena
    refine ⟨_, rfl, release headerSize range.1 arena.heap.base blocks, slots, ?_,
      howned'.release hmem hnone rfl rfl rfl⟩
    have hfirst : ∀ start, firstOf start (release headerSize range.1 start blocks) =
        firstOf start blocks := by
      intro _
      cases blocks with
      | nil => rfl
      | cons block rest =>
        rw [release]
        split <;> rfl
    exact { hrepr with
      head_eq := hrepr.head_eq.trans (hfirst _).symm
      end_eq := hrepr.end_eq.trans (by rw [extent_release])
      aligned := aligned_release _ _ blocks hrepr.aligned
      holds := hholds }
  · exact ⟨_, rfl, blocks, slots, hrepr, howned⟩

theorem consistent_slabAlloc (size : Nat) (mapping : Mapping) :
    ∃ after, step ⟨arena, live⟩ (.slabAlloc size mapping) = some after ∧ Consistent after := by
  unfold step Arena.slabAlloc
  dsimp only
  cases slabClassForSize size with
  | none => exact ⟨_, rfl, blocks, slots, hrepr, howned⟩
  | some slab =>
    dsimp only
    split
    next hhead =>
      obtain ⟨slots', howned', hnone, _, hmem, hlen⟩ :=
        @Ownership.pop _ _ _ _ slab
          ⟨Arena.recordSlab { arena.heap with
              slabFreeHeads := Function.update arena.heap.slabFreeHeads slab
                (arena.mem (arena.heap.slabFreeHeads slab)) } (slabClassSize slab),
            arena.mem.store (arena.heap.slabFreeHeads slab) 0⟩
          howned hhead rfl rfl fun a ha => Words.store_of_ne ha
      refine ⟨_, rfl, blocks, slots', hrepr.write hmem (fun a ha => ?_) .., ?_⟩
      · have := slabClassSize_pos slab
        refine Words.store_of_ne fun heq => ha ?_
        rw [heq]
        exact ⟨le_rfl, by dsimp only; omega⟩
      · exact howned'.hand hmem hlen hnone
    · unfold Arena.allocFromFirstfit
      rw [alignUp_slabClassSize]
      obtain ⟨found, _, _, hfirst, hserves⟩ :=
        firstFit_serves hrepr (dvd_slabClassSize slab) true mapping
      rw [hfirst]
      cases found with
      | none => exact ⟨_, rfl, consistent_of_serves howned hserves⟩
      | some payload =>
        exact ⟨_, rfl, consistent_of_serves howned (hserves.counters ..)⟩

theorem consistent_slabFree {size : Nat} {slab : SlabClass}
    (hslab : slabClassForSize size = some slab) (hrange : range ∈ live)
    (hpayload : range.1 = payload) (hsize : slabClassSize slab ≤ range.2) :
    Consistent ⟨arena.slabFree payload size, live.filter fun range => range.1 ≠ payload⟩ := by
  subst hpayload
  obtain ⟨length, hmem, hlen⟩ := howned.live_inside range hrange
  obtain ⟨howned, hnone⟩ := howned.drop hrange
  have hsame : ∀ a, ¬ InRange (range.1, length) a →
      ((arena.mem.fill range.1 (slabClassSize slab) poison).store range.1
        (arena.heap.slabFreeHeads slab)) a = arena.mem a := by
    intro _ ha
    have hpos := slabClassSize_pos slab
    simp only [InRange] at ha
    rw [Words.store_of_ne (by omega), Words.fill_of_outside (by omega)]
  rw [Arena.slabFree, hslab]
  exact ⟨blocks, _, hrepr.write hmem hsame .., howned.push hmem (Nat.le_trans hsize hlen)
    hnone rfl rfl (Words.store_self ..) hsame⟩

theorem consistent_write (hrange : range ∈ live) {address : Nat}
    (haddress : InRange range address) (value : Nat) :
    Consistent ⟨{ arena with mem := arena.mem.store address value }, live⟩ := by
  obtain ⟨length, hmem, hlen⟩ := howned.live_inside range hrange
  have hsame : ∀ a, ¬ InRange (range.1, length) a → arena.mem.store address value a = arena.mem a := by
    intro _ ha
    refine Words.store_of_ne ?_
    rintro rfl
    exact ha ⟨haddress.1, Nat.lt_of_lt_of_le haddress.2 (Nat.add_le_add_left hlen _)⟩
  exact ⟨blocks, slots, hrepr.write hmem hsame .., howned.write hmem (howned.not_slot hrange) hsame⟩

end

end Step

/-- A proper operation ends, and keeps the heap consistent. -/
theorem step_consistent (state : State) (op : Op) (hstate : Consistent state)
    (hproper : Proper state op) : ∃ after, step state op = some after ∧ Consistent after := by
  obtain ⟨_, _, hrepr, howned⟩ := hstate
  cases op with
  | init mapped =>
    obtain ⟨arena', after, hinit, hkeeps⟩ := init_keeps hrepr mapped
    exact ⟨_, by rw [step, hinit]; rfl, consistent_of_keeps howned hkeeps⟩
  | alloc size context mapping =>
    obtain ⟨_, arena', after, halloc, hserves⟩ :=
      allocBytes_serves hrepr size context mapping
    exact ⟨_, by rw [step, halloc]; rfl, consistent_of_serves howned hserves⟩
  | free payload => exact consistent_free hrepr howned hproper
  | slabAlloc size mapping => exact consistent_slabAlloc hrepr howned size mapping
  | slabFree payload size =>
    obtain ⟨_, hslab, range, hrange, hpayload, hsize⟩ := hproper
    exact ⟨_, rfl, consistent_slabFree hrepr howned hslab hrange hpayload hsize⟩
  | grow neededBytes mapping =>
    obtain ⟨_, arena', after, hgrow, hkeeps⟩ := growForSize_keeps hrepr neededBytes mapping
    exact ⟨_, by rw [step, hgrow]; rfl, consistent_of_keeps howned hkeeps⟩
  | coalesce =>
    obtain ⟨_, _, hmerged, hkeeps⟩ := coalesce_keeps hrepr
    exact ⟨_, by rw [step, hmerged]; rfl, consistent_of_keeps howned hkeeps⟩
  | write address value =>
    obtain ⟨_, _, hrange, haddress⟩ := hproper
    exact ⟨_, rfl, consistent_write hrepr howned hrange haddress value⟩

theorem consistent_new (kernelEnd : Nat) (tcr : BitVec 64) (mem : Words) :
    Consistent (State.new kernelEnd tcr mem) := by
  have hpage : heapMinAlign ∣ readPageSize tcr ∧ headerSize ≤ readPageSize tcr := by
    unfold readPageSize
    split
    · decide
    · split <;> decide
  have hbase : heapMinAlign ∣ alignUp kernelEnd (readPageSize tcr) + readPageSize tcr :=
    Nat.dvd_add (hpage.1.trans (dvd_alignUp ..)) hpage.1
  have hpos := (by decide : 0 < headerSize)
  refine ⟨[], fun _ => [], ?_, fun _ => rfl, fun _ => ?_, fun _ h => absurd h not_mem_nil,
    fun _ _ h => absurd h not_mem_nil⟩
  · exact ⟨Nat.lt_of_lt_of_le (Nat.lt_of_lt_of_le hpos hpage.2) (Nat.le_add_left ..), hbase,
      hpage.1, hpage.2, rfl, rfl, fun _ h => absurd h not_mem_nil, trivial⟩
  · simp [State.new]

/-! ## Whole runs -/

/-- The blocks that are found by following the links from an address, with their
headers. -/
inductive Listed (mem : Words) : Nat → List (Nat × BlockHeader) → Prop where
  | nil : Listed mem 0 []
  | cons {address : Nat} {rest : List (Nat × BlockHeader)} (hne : address ≠ 0)
      (hrest : Listed mem (readHeader mem address).next rest) :
      Listed mem address ((address, readHeader mem address) :: rest)

/-- The blocks fill the range in address order, each with an aligned payload and one
of the two magic numbers. -/
def Tiles : Nat → Nat → List (Nat × BlockHeader) → Prop
  | start, stop, [] => start = stop
  | start, stop, (address, header) :: rest =>
    (address = start ∧ heapMinAlign ∣ header.size ∧
      (header.magic = blockMagicFree ∨ header.magic = blockMagicUsed)) ∧
      Tiles (address + headerSize + header.size) stop rest

/-- Two ranges do not overlap. -/
def Apart (first second : Nat × Nat) : Prop :=
  first.1 + first.2 ≤ second.1 ∨ second.1 + second.2 ≤ first.1

/-- A used block with its payload. -/
def IsPayload (list : List (Nat × BlockHeader)) (payload : Nat × Nat) : Prop :=
  ∃ block ∈ list, block.2.magic = blockMagicUsed ∧
    payload = (block.1 + headerSize, block.2.size)

/-- The list of the heap tiles it, what callers hold lies apart and inside used
blocks, and the slots of the freelists are used blocks of their own. -/
structure Orderly (state : State) (list : List (Nat × BlockHeader))
    (slots : SlabClass → List Nat) : Prop where
  listed : Listed state.arena.mem state.arena.heap.head list
  tiles : Tiles state.arena.heap.base state.arena.heap.currentEnd list
  live_apart : state.live.Pairwise Apart
  live_inside : ∀ range ∈ state.live, ∃ size, IsPayload list (range.1, size) ∧ range.2 ≤ size
  slots_chained : ∀ slab, Chained state.arena.mem (state.arena.heap.slabFreeHeads slab) (slots slab)
  slots_distinct : ((List.finRange slabClassCount).flatMap slots).Nodup
  slots_inside : ∀ slab, ∀ slot ∈ slots slab, ∃ size, IsPayload list (slot, size) ∧
    slabClassSize slab ≤ size ∧ ∀ range ∈ state.live, Apart range (slot, size)

/-- The blocks with their addresses and headers. -/
def listOf : Nat → List Block → List (Nat × BlockHeader)
  | _, [] => []
  | address, block :: rest =>
    (address, headerOf address block rest) :: listOf (address + headerSize + block.size) rest

theorem listed_of_holds {mem : Words} :
    ∀ {address : Nat}, 0 < address → Holds mem address blocks →
      Listed mem (firstOf address blocks) (listOf address blocks) := by
  induction blocks with
  | nil => exact fun _ _ => .nil
  | cons block rest ih =>
    intro address _ hholds
    have hrest := @ih (address + headerSize + block.size) (by omega) hholds.2
    rw [firstOf, listOf, ← hholds.1]
    exact .cons (by omega) (by rw [hholds.1]; exact hrest)

theorem tiles_listOf (haligned : Block.Aligned heapMinAlign blocks) :
    ∀ address, Tiles address (address + extent headerSize blocks)
      (listOf address blocks) := by
  induction blocks with
  | nil => exact fun _ => rfl
  | cons block rest ih =>
    intro address
    obtain ⟨hblock, hrest⟩ := aligned_cons.mp haligned
    refine ⟨⟨rfl, hblock, ?_⟩, ?_⟩
    · rw [headerOf]
      cases block.used
      · exact .inl rfl
      · exact .inr rfl
    · have hend : address + extent headerSize (block :: rest) =
          address + headerSize + block.size + extent headerSize rest := by
        rw [extent]
        omega
      rw [hend]
      exact ih hrest _

theorem isPayload_of_mem :
    ∀ {address : Nat} {range : Nat × Nat}, range ∈ payloads address blocks →
      IsPayload (listOf address blocks) range := by
  induction blocks with
  | nil => exact fun hmem => absurd hmem not_mem_nil
  | cons block rest ih =>
    intro _ _ hmem
    rcases mem_payloads_cons.mp hmem with ⟨hused, rfl⟩ | hmem
    · refine ⟨_, mem_cons_self, ?_, rfl⟩
      rw [headerOf, hused]
      rfl
    · obtain ⟨other, hother, hpayload⟩ := ih hmem
      exact ⟨other, mem_cons_of_mem _ hother, hpayload⟩

theorem apart_of_payloads {address firstSize secondSize : Nat} {first second : Nat × Nat}
    (hfirst : (first.1, firstSize) ∈ payloads address blocks)
    (hsecond : (second.1, secondSize) ∈ payloads address blocks) (hne : first.1 ≠ second.1)
    (hfirstLe : first.2 ≤ firstSize) (hsecondLe : second.2 ≤ secondSize) : Apart first second := by
  unfold Apart
  rcases payloads_disjoint hfirst hsecond with heq | _ | _
  · exact absurd (congrArg Prod.fst heq) hne
  · omega
  · omega

theorem orderly_of_consistent {state : State} (hstate : Consistent state) :
    ∃ list slots, Orderly state list slots := by
  obtain ⟨blocks, slots, hrepr, howned⟩ := hstate
  have hnodup : (state.live.map Prod.fst).Nodup :=
    nodup_iff_count_le_one.mpr fun payload => by
      have := howned.once payload
      omega
  refine ⟨listOf state.arena.heap.base blocks, slots, ?_, ?_, ?_, ?_, howned.chained, ?_, ?_⟩
  · rw [hrepr.head_eq]
    exact listed_of_holds hrepr.base_pos hrepr.holds
  · rw [hrepr.end_eq]
    exact tiles_listOf hrepr.aligned _
  · refine (pairwise_map.mp hnodup).imp_of_mem fun hfirst hsecond hne => ?_
    obtain ⟨_, hmemFirst, hfirstLe⟩ := howned.live_inside _ hfirst
    obtain ⟨_, hmemSecond, hsecondLe⟩ := howned.live_inside _ hsecond
    exact apart_of_payloads hmemFirst hmemSecond hne hfirstLe hsecondLe
  · intro range hrange
    obtain ⟨size, hmem, hle⟩ := howned.live_inside range hrange
    exact ⟨size, isPayload_of_mem hmem, hle⟩
  · rw [nodup_iff_count_le_one]
    intro payload
    rw [count_flatMap]
    have := howned.once payload
    exact Nat.le_trans (Nat.le_add_left ..) this
  · intro slab slot hslot
    obtain ⟨size, hmem, hle⟩ := howned.slots_inside slab slot hslot
    refine ⟨size, isPayload_of_mem hmem, hle, fun range hrange => ?_⟩
    obtain ⟨_, hmemRange, hrangeLe⟩ := howned.live_inside range hrange
    refine apart_of_payloads hmemRange hmem (fun heq => ?_) hrangeLe le_rfl
    exact howned.not_slot hrange slab (heq ▸ hslot)

/-- After every sequence of operations by callers that free what they hold, once, all
operations have ended and the heap is orderly. -/
theorem heap_orderly (kernelEnd : Nat) (tcr : BitVec 64) (mem : Words) (ops : List Op)
    (hproper : Along step Proper (State.new kernelEnd tcr mem) ops) :
    ∃ final, run step (State.new kernelEnd tcr mem) ops = some final ∧
      ∃ list slots, Orderly final list slots := by
  obtain ⟨final, hrun, hfinal⟩ :=
    run_total step_consistent ops _ (consistent_new kernelEnd tcr mem) hproper
  exact ⟨final, hrun, orderly_of_consistent hfinal⟩

/-- A run with both allocators: a slot goes back to its freelist and is handed out
again. -/
theorem mixed_run_orderly :
    ∃ final, run step (State.new 0x80000 0 fun _ => 0)
        [.init true, .alloc 100 .kernel ⟨true, true⟩, .slabAlloc 40 ⟨true, true⟩,
          .write 528560 7, .slabFree 528560 40, .slabAlloc 33 ⟨true, true⟩, .free 528416] =
          some final ∧
      ∃ list slots, Orderly final list slots :=
  heap_orderly 0x80000 0 (fun _ => 0) _ (by decide +kernel)

/-! ## Contents -/

/-- The operation frees the block or writes to it. -/
def touches (range : Nat × Nat) : Op → Bool
  | .free payload | .slabFree payload _ => payload = range.1
  | .write address _ => range.1 ≤ address ∧ address < range.1 + range.2
  | _ => false

/-- The block is still held, with the same words. -/
def Retained (range : Nat × Nat) (state after : State) : Prop :=
  range ∈ after.live ∧ ∀ a, InRange range a → after.arena.mem a = state.arena.mem a

theorem step_retained {state after : State} {op : Op} {range : Nat × Nat}
    (hstate : Consistent state) (hrange : range ∈ state.live) (hproper : Proper state op)
    (huntouched : touches range op = false) (hstep : step state op = some after) :
    Retained range state after := by
  obtain ⟨blocks, slots, hrepr, howned⟩ := hstate
  obtain ⟨size, hmem, hsize⟩ := howned.live_inside range hrange
  have hin : ∀ {a}, InRange range a → InRange (range.1, size) a := fun ha =>
    ⟨ha.1, ha.2.trans_le (Nat.add_le_add_left hsize _)⟩
  have hkept : ∀ length found {arena' rest}, Keeps state.arena blocks arena' rest →
      some (State.hand state.live length (found, arena')) = some after →
      Retained range state after := by
    rintro _ found _ _ hkeeps ⟨⟩
    have hsame := fun a ha => hkeeps.kept _ hmem a (hin ha)
    cases found with
    | none => exact ⟨hrange, hsame⟩
    | some => exact ⟨mem_cons_of_mem _ hrange, hsame⟩
  have hapart : ∀ {payload length a}, (payload, length) ∈ payloads state.arena.heap.base blocks →
      payload ≠ range.1 → InRange range a → a + headerSize < payload ∨ payload + length ≤ a := by
    rintro _ _ _ hother hne ⟨_, _⟩
    have hdisjoint := payloads_disjoint hmem hother
    grind
  cases op with
  | init mapped =>
    obtain ⟨_, _, hinit, hkeeps⟩ := init_keeps hrepr mapped
    rw [step, hinit] at hstep
    exact hkept 0 none hkeeps hstep
  | alloc size context mapping =>
    obtain ⟨_, _, _, halloc, hserves⟩ := allocBytes_serves hrepr size context mapping
    rw [step, halloc] at hstep
    exact hkept _ _ hserves.toKeeps hstep
  | free payload =>
    obtain ⟨other, hother, rfl⟩ := mem_map.mp hproper
    obtain ⟨_, hmem', _⟩ := howned.live_inside other hother
    obtain ⟨_, hheader, _⟩ := freed_eq hrepr.holds hmem'
    have hne := of_decide_eq_false huntouched
    unfold step Arena.freeBytes at hstep
    dsimp only at hstep
    rw [hheader] at hstep
    split at hstep
    next harena =>
      split at harena
      · cases harena
      cases harena
      cases hstep
      exact ⟨mem_filter.mpr ⟨hrange, decide_eq_true (Ne.symm hne)⟩, fun _ ha => freed_outside
        (Nat.le_of_add_left_le (payloads_bounds hmem').1) (hapart hmem' hne ha)⟩
    · cases hstep
      exact ⟨hrange, fun _ _ => rfl⟩
  | slabAlloc size mapping =>
    rw [step, Arena.slabAlloc] at hstep
    cases hclass : slabClassForSize size with
    | none =>
      rw [hclass] at hstep
      cases hstep
      exact ⟨hrange, fun _ _ => rfl⟩
    | some slab =>
      rw [hclass] at hstep
      dsimp only at hstep
      split at hstep
      next hhead =>
        cases hstep
        refine ⟨mem_cons_of_mem _ hrange, fun a ha => Words.store_of_ne ?_⟩
        rintro rfl
        have hslot : state.arena.heap.slabFreeHeads slab ∈ slots slab := by
          have hchain := howned.chained slab
          cases hslots : slots slab <;> simp_all [Chained]
        have hne := ne_of_mem_of_not_mem hslot (howned.not_slot hrange slab)
        exact howned.slot_outside hmem hslot hne (hin ha)
      · rw [Arena.allocFromFirstfit, alignUp_slabClassSize] at hstep
        obtain ⟨found, _, _, hfirst, hserves⟩ :=
          firstFit_serves hrepr (dvd_slabClassSize slab) true mapping
        rw [hfirst] at hstep
        cases found with
        | none => exact hkept _ _ hserves.toKeeps hstep
        | some => exact hkept _ _ (hserves.counters ..).toKeeps hstep
  | slabFree payload size =>
    obtain ⟨slab, hslab, other, hother, rfl, _⟩ := hproper
    obtain ⟨_, hmem', _⟩ := howned.live_inside other hother
    have hne := of_decide_eq_false huntouched
    cases hstep
    refine ⟨mem_filter.mpr ⟨hrange, decide_eq_true (Ne.symm hne)⟩, fun _ ha => ?_⟩
    have hout := hapart hmem' hne ha
    have hpos := slabClassSize_pos slab
    simp only [Arena.slabFree, hslab]
    rw [Words.store_of_ne (by omega), Words.fill_of_outside (by omega)]
  | grow neededBytes mapping =>
    obtain ⟨_, _, _, hgrow, hkeeps⟩ := growForSize_keeps hrepr neededBytes mapping
    rw [step, hgrow] at hstep
    exact hkept 0 none hkeeps hstep
  | coalesce =>
    obtain ⟨_, _, hmerged, hkeeps⟩ := coalesce_keeps hrepr
    rw [step, hmerged] at hstep
    exact hkept 0 none hkeeps hstep
  | write address value =>
    cases hstep
    exact ⟨hrange, fun a ha => Words.store_of_ne fun heq => of_decide_eq_false huntouched (heq ▸ ha)⟩

/-- Whatever the callers do, a block that is neither freed nor written to keeps its words. -/
theorem contents_kept (kernelEnd : Nat) (tcr : BitVec 64) (mem : Words) (earlier later : List Op)
    (held : State) (range : Nat × Nat)
    (hearlier : Along step Proper (State.new kernelEnd tcr mem) earlier)
    (hheld : run step (State.new kernelEnd tcr mem) earlier = some held) (hrange : range ∈ held.live)
    (hlater : Along step (fun state op => Proper state op ∧ touches range op = false) held later) :
    ∃ final, run step held later = some final ∧ Retained range held final := by
  obtain ⟨_, hrun, hstate⟩ :=
    run_total step_consistent earlier _ (consistent_new kernelEnd tcr mem) hearlier
  obtain rfl := Option.some.inj (hheld.symm.trans hrun)
  obtain ⟨final, hfinal, _, hretained⟩ := run_total
    (I := fun state => Consistent state ∧ Retained range held state) (fun state op hinv hop => by
      obtain ⟨next, hstep, hnext⟩ := step_consistent state op hinv.1 hop.1
      have hone := step_retained hinv.1 hinv.2.1 hop.1 hop.2 hstep
      exact ⟨next, hstep, hnext, hone.1, fun a ha => (hone.2 a ha).trans (hinv.2.2 a ha)⟩)
    later held ⟨hstate, hrange, fun _ _ => rfl⟩ hlater
  exact ⟨final, hfinal, hretained⟩

/-- A slot outlives one that comes and goes. -/
theorem contents_kept_slot :
    ∃ held, run step (State.new 0x80000 0 fun _ => 0)
        [.init true, .slabAlloc 9 ⟨true, true⟩] = some held ∧
      ∃ final, run step held [.slabAlloc 9 ⟨true, true⟩, .slabFree 528464 9] = some final ∧
        Retained (528416, 16) held final :=
  ⟨_, rfl, contents_kept 0x80000 0 (fun _ => 0) [.init true, .slabAlloc 9 ⟨true, true⟩] _ _ _
    (by decide +kernel) rfl (by decide +kernel) (by decide +kernel)⟩

end Bazzulto.Heap
