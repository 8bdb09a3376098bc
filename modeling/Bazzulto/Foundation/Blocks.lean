/-
  Foundation/Blocks.lean --- lists of blocks laid out one behind the other.

  Every block is a header followed by its payload, and the next block begins where
  the payload ends, so that a list of blocks tiles a range by construction.  The
  operations are those of a first-fit allocator: take a free block and split it,
  merge neighbours that are free, grow the list at its end, and free a block.  Each
  of them is described by what it does to the payloads of the used blocks.

  The blocks lie in a memory that gives the word at every aligned address.  `Chained` is
  the list of nodes that is found there by following the first word of each node.

  Nothing in this file mentions the kernel.
-/
import Mathlib.Data.List.Pairwise
import Mathlib.Logic.Function.Basic

set_option autoImplicit false

namespace Bazzulto.Foundation

open List Function

/-! ## Words -/

/-- The word at each address. -/
abbrev Words := Nat → Nat

namespace Words

/-- Write a word. -/
def store (mem : Words) (address value : Nat) : Words := update mem address value

/-- Write the words of a range. -/
def fill (mem : Words) (start length value : Nat) : Words := fun address =>
  if start ≤ address ∧ address < start + length then value else mem address

@[simp] theorem store_self (mem : Words) (address value : Nat) :
    mem.store address value address = value := update_self ..

theorem store_of_ne {mem : Words} {address other value : Nat} (hne : other ≠ address) :
    mem.store address value other = mem other := update_of_ne hne ..

theorem fill_of_outside {mem : Words} {start length value address : Nat}
    (hout : address < start ∨ start + length ≤ address) :
    mem.fill start length value address = mem address := if_neg (by omega)

end Words

/-- The nodes from `head` on, each linked to the next by its first word; the last
word is zero. -/
def Chained (mem : Words) : Nat → List Nat → Prop
  | head, [] => head = 0
  | head, node :: rest => head = node ∧ node ≠ 0 ∧ Chained mem (mem node) rest

/-- Only the words of the nodes matter. -/
theorem Chained.congr {mem mem' : Words} {nodes : List Nat}
    (hsame : ∀ node ∈ nodes, mem' node = mem node) :
    ∀ {head : Nat}, Chained mem head nodes → Chained mem' head nodes := by
  induction nodes with
  | nil => exact fun hchain => hchain
  | cons node rest ih =>
    rintro _ ⟨hhead, hne, _⟩
    refine ⟨hhead, hne, ih (fun other hother => hsame other (.tail _ hother)) ?_⟩
    rwa [hsame node (.head _)]

/-! ## Blocks -/

/-- The payload of a block, and whether it is used. -/
structure Block where
  size : Nat
  used : Bool
  deriving DecidableEq, Repr

namespace Block

variable (header : Nat) {unit address least needed offset : Nat} {block : Block}
  {rest blocks after : List Block}

/-- The bytes that the blocks take. -/
def extent : List Block → Nat
  | [] => 0
  | block :: rest => header + block.size + extent rest

/-- The payloads of the used blocks, as start and length. -/
def payloads : Nat → List Block → List (Nat × Nat)
  | _, [] => []
  | address, block :: rest =>
    if block.used then
      (address + header, block.size) :: payloads (address + header + block.size) rest
    else payloads (address + header + block.size) rest

/-- Take the first free block of at least `needed` bytes, and split it if at least
`least` bytes remain: the offset of its payload, and the blocks then. -/
def carve (least needed : Nat) : List Block → Option (Nat × List Block)
  | [] => none
  | block :: rest =>
    if block.used = false ∧ needed ≤ block.size then
      some (header,
        if needed + header + least ≤ block.size then
          ⟨needed, true⟩ :: ⟨block.size - needed - header, false⟩ :: rest
        else ⟨block.size, true⟩ :: rest)
    else
      (carve least needed rest).map fun (offset, after) =>
        (header + block.size + offset, block :: after)

/-- Merge free neighbours, from a first block on. -/
def mergeFrom (block : Block) : List Block → List Block
  | [] => [block]
  | next :: rest =>
    if block.used = false ∧ next.used = false then
      mergeFrom ⟨block.size + (header + next.size), false⟩ rest
    else block :: mergeFrom next rest

/-- Add a free block of `size` bytes at the end, as part of the last block if that
is free. -/
def grow (size : Nat) : List Block → List Block
  | [] => [⟨size, false⟩]
  | [last] =>
    if last.used = false then [⟨last.size + (header + size), false⟩]
    else [last, ⟨size, false⟩]
  | block :: next :: rest => block :: grow size (next :: rest)

/-- Free the block whose payload starts at `payload`. -/
def release (payload : Nat) : Nat → List Block → List Block
  | _, [] => []
  | address, block :: rest =>
    if address + header = payload then ⟨block.size, false⟩ :: rest
    else block :: release payload (address + header + block.size) rest

/-- All payloads are multiples of `unit`. -/
def Aligned (unit : Nat) (blocks : List Block) : Prop := ∀ block ∈ blocks, unit ∣ block.size

variable {header}

theorem aligned_cons : Aligned unit (block :: rest) ↔ unit ∣ block.size ∧ Aligned unit rest :=
  forall_mem_cons

/-! ## Payloads -/

theorem length_mul_le_extent (blocks : List Block) :
    blocks.length * header ≤ extent header blocks := by
  induction blocks with
  | nil => exact Nat.le_of_eq (Nat.zero_mul _)
  | cons block rest ih =>
    rw [length_cons, Nat.succ_mul, extent]
    omega

theorem mem_payloads_cons {range : Nat × Nat} :
    range ∈ payloads header address (block :: rest) ↔
      (block.used = true ∧ range = (address + header, block.size)) ∨
        range ∈ payloads header (address + header + block.size) rest := by
  rw [payloads]
  split
  next hused => simp [hused]
  next hfree => simp [hfree]

/-- A payload lies inside the blocks, behind a header. -/
theorem payloads_bounds :
    ∀ {address : Nat} {range : Nat × Nat}, range ∈ payloads header address blocks →
      address + header ≤ range.1 ∧ range.1 + range.2 ≤ address + extent header blocks := by
  induction blocks with
  | nil => exact fun hrange => absurd hrange not_mem_nil
  | cons block rest ih =>
    intro address range hrange
    rw [extent]
    rcases mem_payloads_cons.mp hrange with ⟨_, rfl⟩ | hrange
    · omega
    · have := ih hrange
      omega

/-- The payloads stand in order, with a header between any two. -/
theorem payloads_pairwise (blocks : List Block) :
    ∀ address, (payloads header address blocks).Pairwise fun first second =>
      first.1 + first.2 + header ≤ second.1 := by
  induction blocks with
  | nil => exact fun _ => Pairwise.nil
  | cons block rest ih =>
    intro _
    rw [payloads]
    split
    · refine pairwise_cons.mpr ⟨fun range hrange => ?_, ih _⟩
      exact (payloads_bounds hrange).1
    · exact ih _

/-- Two payloads are the same or do not overlap. -/
theorem payloads_disjoint {first second : Nat × Nat}
    (hfirst : first ∈ payloads header address blocks)
    (hsecond : second ∈ payloads header address blocks) :
    first = second ∨ first.1 + first.2 + header ≤ second.1 ∨
      second.1 + second.2 + header ≤ first.1 := by
  have : Std.Symm fun first second : Nat × Nat =>
      first = second ∨ first.1 + first.2 + header ≤ second.1 ∨
        second.1 + second.2 + header ≤ first.1 :=
    ⟨fun _ _ h => h.imp Eq.symm Or.symm⟩
  have hpairwise : (payloads header address blocks).Pairwise fun first second =>
      first = second ∨ first.1 + first.2 + header ≤ second.1 ∨
        second.1 + second.2 + header ≤ first.1 :=
    (payloads_pairwise blocks address).imp fun h => .inr (.inl h)
  exact hpairwise.forall_of_forall (fun _ _ => .inl rfl) hfirst hsecond

/-! ## Taking a block -/

/-- The induction rule of `carve`: the first block is taken, split or whole, or one
of the rest. -/
@[elab_as_elim]
theorem carve_induction {motive : List Block → Nat → List Block → Prop}
    (split : ∀ block rest, block.used = false → needed + header + least ≤ block.size →
      motive (block :: rest) header
        (⟨needed, true⟩ :: ⟨block.size - needed - header, false⟩ :: rest))
    (whole : ∀ block rest, block.used = false → needed ≤ block.size →
      motive (block :: rest) header (⟨block.size, true⟩ :: rest))
    (skip : ∀ block rest offset after,
      carve header least needed rest = some (offset, after) → motive rest offset after →
      motive (block :: rest) (header + block.size + offset) (block :: after))
    (hcarve : carve header least needed blocks = some (offset, after)) :
    motive blocks offset after := by
  induction blocks generalizing offset after with
  | nil => exact absurd hcarve (by simp [carve])
  | cons block rest ih =>
    rw [carve] at hcarve
    split at hcarve
    next hfit =>
      obtain ⟨rfl, rfl⟩ := Prod.mk.injEq .. ▸ Option.some.inj hcarve
      split
      next hsplit => exact split block rest hfit.1 hsplit
      · exact whole block rest hfit.1 hfit.2
    · obtain ⟨⟨offset', after'⟩, hrest, heq⟩ := Option.map_eq_some_iff.mp hcarve
      obtain ⟨rfl, rfl⟩ := Prod.mk.injEq .. ▸ heq
      exact skip block rest offset' after' hrest (ih hrest)

section

variable (hcarve : carve header least needed blocks = some (offset, after))
include hcarve

theorem carve_offset : header ≤ offset := by
  refine carve_induction ?_ ?_ ?_ hcarve
  · exact fun _ _ _ _ => Nat.le_refl _
  · exact fun _ _ _ _ => Nat.le_refl _
  · omega

theorem extent_carve : extent header after = extent header blocks := by
  refine carve_induction ?_ ?_ ?_ hcarve
  · simp only [extent]
    omega
  · exact fun _ _ _ _ => rfl
  · intro _ _ _ _ _ ih
    rw [extent, extent, ih]

theorem aligned_carve (hheader : unit ∣ header) (hneeded : unit ∣ needed) :
    Aligned unit blocks → Aligned unit after := by
  refine carve_induction ?_ ?_ ?_ hcarve
  · intro block rest _ _ haligned
    obtain ⟨hblock, hrest⟩ := aligned_cons.mp haligned
    exact aligned_cons.mpr ⟨hneeded, aligned_cons.mpr
      ⟨Nat.dvd_sub (Nat.dvd_sub hblock hneeded) hheader, hrest⟩⟩
  · intro _ _ _ _ haligned
    rwa [aligned_cons] at haligned ⊢
  · intro _ _ _ _ _ ih haligned
    exact aligned_cons.mpr ((aligned_cons.mp haligned).imp_right ih)

/-- The block that is taken becomes used, and no other block changes. -/
theorem payloads_carve :
    ∀ address, ∃ size, needed ≤ size ∧ ∀ range, range ∈ payloads header address after ↔
      range = (address + offset, size) ∨ range ∈ payloads header address blocks := by
  refine carve_induction ?_ ?_ ?_ hcarve
  · intro block rest hfree _ address
    have hend : address + header + needed + header + (block.size - needed - header) =
        address + header + block.size := by omega
    refine ⟨needed, Nat.le_refl _, fun range => ?_⟩
    simp [mem_payloads_cons, hfree, hend]
  · intro block rest hfree hfit address
    refine ⟨block.size, hfit, fun range => ?_⟩
    simp [mem_payloads_cons, hfree]
  · intro block _ offset _ _ ih address
    obtain ⟨size, hsize, hiff⟩ := ih (address + header + block.size)
    refine ⟨size, hsize, fun range => ?_⟩
    have hoffset : address + header + block.size + offset =
        address + (header + block.size + offset) := by omega
    rw [mem_payloads_cons, mem_payloads_cons, hiff, hoffset]
    exact or_left_comm

/-- The payload that is taken was not one before. -/
theorem carve_fresh (hheader : 0 < header) :
    ∀ address, ∀ range ∈ payloads header address blocks, range.1 ≠ address + offset := by
  have htaken : ∀ (block : Block) rest, block.used = false → ∀ address,
      ∀ range ∈ payloads header address (block :: rest), range.1 ≠ address + header := by
    intro block rest hfree address range hrange
    rcases mem_payloads_cons.mp hrange with ⟨hused, _⟩ | hrange
    · exact absurd (hfree.symm.trans hused) (by simp)
    · have := (payloads_bounds hrange).1
      omega
  refine carve_induction ?_ ?_ ?_ hcarve
  · exact fun block rest hfree _ => htaken block rest hfree
  · exact fun block rest hfree _ => htaken block rest hfree
  intro block _ _ _ hrest ih address range hrange
  rcases mem_payloads_cons.mp hrange with ⟨_, rfl⟩ | hrange
  · have := carve_offset hrest
    omega
  · have := ih (address + header + block.size) range hrange
    omega

end

/-! ## Merging -/

theorem extent_mergeFrom (block : Block) (rest : List Block) :
    extent header (mergeFrom header block rest) = extent header (block :: rest) := by
  fun_induction mergeFrom header block rest with
  | case1 => rfl
  | case2 block next rest hfree ih =>
    rw [ih]
    simp only [extent]
    omega
  | case3 block next rest hused ih => simp [extent, ih]

theorem payloads_mergeFrom (address : Nat) (block : Block) (rest : List Block) :
    payloads header address (mergeFrom header block rest) =
      payloads header address (block :: rest) := by
  fun_induction mergeFrom header block rest generalizing address with
  | case1 => rfl
  | case2 block next rest hfree ih =>
    have hend : address + header + (block.size + (header + next.size)) =
        address + header + block.size + header + next.size := by omega
    simp [ih, payloads, hfree, hend]
  | case3 block next rest hused ih => rw [payloads, ih, ← payloads]

theorem aligned_mergeFrom (hheader : unit ∣ header) (block : Block) (rest : List Block) :
    Aligned unit (block :: rest) → Aligned unit (mergeFrom header block rest) := by
  fun_induction mergeFrom header block rest with
  | case1 => exact id
  | case2 block next rest hfree ih =>
    intro haligned
    obtain ⟨hblock, hnext, hrest⟩ := aligned_cons.mp haligned |>.imp_right aligned_cons.mp
    exact ih (aligned_cons.mpr ⟨Nat.dvd_add hblock (Nat.dvd_add hheader hnext), hrest⟩)
  | case3 block next rest hused ih =>
    intro haligned
    exact aligned_cons.mpr ((aligned_cons.mp haligned).imp_right ih)

/-! ## Growing -/

theorem extent_grow (size : Nat) (blocks : List Block) :
    extent header (grow header size blocks) = extent header blocks + (header + size) := by
  fun_induction grow header size blocks with
  | case1 => simp [extent]
  | case2 | case3 =>
    simp only [extent]
    omega
  | case4 block next rest ih =>
    rw [extent, ih]
    simp only [extent]
    omega

theorem payloads_grow (size : Nat) (blocks : List Block) :
    ∀ address, payloads header address (grow header size blocks) =
      payloads header address blocks := by
  fun_induction grow header size blocks with
  | case1 => simp [payloads]
  | case2 last hfree => simp [payloads, hfree]
  | case3 last hused => simp [payloads]
  | case4 block next rest ih =>
    intro _
    rw [payloads, ih, ← payloads]

theorem aligned_grow {size : Nat} (hheader : unit ∣ header) (hsize : unit ∣ size)
    (blocks : List Block) : Aligned unit blocks → Aligned unit (grow header size blocks) := by
  fun_induction grow header size blocks with
  | case1 => exact fun _ => aligned_cons.mpr ⟨hsize, by simp [Aligned]⟩
  | case2 last hfree =>
    intro haligned
    obtain ⟨hlast, hnil⟩ := aligned_cons.mp haligned
    exact aligned_cons.mpr ⟨Nat.dvd_add hlast (Nat.dvd_add hheader hsize), hnil⟩
  | case3 last hused =>
    intro haligned
    obtain ⟨hlast, hnil⟩ := aligned_cons.mp haligned
    exact aligned_cons.mpr ⟨hlast, aligned_cons.mpr ⟨hsize, hnil⟩⟩
  | case4 block next rest ih =>
    intro haligned
    exact aligned_cons.mpr ((aligned_cons.mp haligned).imp_right ih)

/-! ## Freeing -/

theorem extent_release (payload address : Nat) (blocks : List Block) :
    extent header (release header payload address blocks) = extent header blocks := by
  fun_induction release header payload address blocks with
  | case1 | case2 => rfl
  | case3 address block rest hother ih => simp [extent, ih]

theorem aligned_release (payload address : Nat) (blocks : List Block) :
    Aligned unit blocks → Aligned unit (release header payload address blocks) := by
  fun_induction release header payload address blocks with
  | case1 => exact id
  | case2 =>
    intro haligned
    rwa [aligned_cons] at haligned ⊢
  | case3 address block rest hother ih =>
    intro haligned
    exact aligned_cons.mpr ((aligned_cons.mp haligned).imp_right ih)

/-- No block but the one that is freed changes. -/
theorem mem_payloads_release {payload address : Nat} {blocks : List Block} {range : Nat × Nat}
    (hne : range.1 ≠ payload) (h : range ∈ payloads header address blocks) :
    range ∈ payloads header address (release header payload address blocks) := by
  fun_induction release header payload address blocks with
  | case1 => exact h
  | case2 address block rest heq =>
    rw [mem_payloads_cons] at h ⊢
    obtain ⟨_, rfl⟩ | hrange := h
    · exact absurd heq hne
    · exact .inr hrange
  | case3 address block rest hother ih =>
    rw [mem_payloads_cons] at h ⊢
    exact h.imp_right ih

end Block

end Bazzulto.Foundation
