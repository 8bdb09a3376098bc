/-
  Fat32/Partition.lean --- the partition table of a disk.

  Embeds `enumerate_partitions`, `parse_mbr` and `parse_gpt` (kernel/src/fs/partition.rs).  The
  number of a partition is its place in the list; the disk and its index, which are those of the
  call, are left out.  What was read from sectors is looked up on the disk.  `parse_gpt` takes
  slices of the entries without a look at their size; a slice that ends behind the sectors it
  has read is a panic, `none`.
-/
import Bazzulto.Fat32.Volume

set_option autoImplicit false

namespace Bazzulto.Fat32

open Bazzulto.Foundation List Nat

structure Partition where
  startLba : Nat
  sectorCount : Nat
  partitionType : UInt8
  deriving DecidableEq, Repr

def gptSignature : List UInt8 := [0x45, 0x46, 0x49, 0x20, 0x50, 0x41, 0x52, 0x54]

def gptBasicDataGuid : List UInt8 :=
  [0xA2, 0xA0, 0xD0, 0xEB, 0xE5, 0xB9, 0x33, 0x44, 0x87, 0xC0, 0x68, 0xB6, 0xB7, 0x26, 0x99, 0xC7]

namespace Disk

section

variable (disk : Disk)

/-- `read_sectors` succeeds. -/
def Readable (lba count : Nat) : Prop := count ≠ 0 ∧ ∀ k < count, disk.responds (lba + k) = true

instance (lba count : Nat) : Decidable (disk.Readable lba count) :=
  inferInstanceAs (Decidable (_ ∧ _))

/-- The bytes from a sector on. -/
def sectors (lba : Nat) : Buffer := fun i => disk.bytes (512 * lba + i)

/-! ## The GPT header -/

def entriesStartLba : Nat := leValue (slice (disk.sectors 1) 72 8)

def numEntries : Nat := word (disk.sectors 1) 80

def entrySize : Nat := word (disk.sectors 1) 84

/-- `sectors_needed`.  They are no more than the entries, so the cast to 32 bits keeps them. -/
def sectorsNeeded : Nat := (disk.numEntries + 512 / disk.entrySize - 1) / (512 / disk.entrySize)

/-- The length of the buffer for the entries. -/
def bufLen : Nat := disk.sectorsNeeded * 512

/-- `base` of each entry. -/
def bases : List Nat := (range disk.numEntries).map (· * disk.entrySize)

/-! ## An entry -/

section

variable (base : Nat)

def entries : Buffer := disk.sectors disk.entriesStartLba

/-- `type_guid` is not zero. -/
def IsUsed : Prop := ¬ ∀ byte ∈ slice disk.entries base 16, byte = 0

instance : Decidable (disk.IsUsed base) := @instDecidableNot _ (decidableBAll _ _)

def firstLba : Nat := leValue (slice disk.entries (base + 32) 8)

def lastLba : Nat := leValue (slice disk.entries (base + 40) 8)

def HasRange : Prop := ¬ (disk.firstLba base = 0 ∨ disk.lastLba base < disk.firstLba base)
  deriving Decidable

/-- First LBA and length. -/
def extent : Nat × Nat := (disk.firstLba base, disk.lastLba base - disk.firstLba base + 1)

def entryPartition : Partition where
  startLba := (disk.extent base).1
  sectorCount := (disk.extent base).2
  partitionType := if slice disk.entries base 16 = gptBasicDataGuid then 0x0C else 0x01

/-- The slices of the entry end inside the buffer. -/
def SlicesFit : Prop := base + 16 ≤ disk.bufLen ∧ (disk.IsUsed base → base + 48 ≤ disk.bufLen)
  deriving Decidable

end

/-! ## The parsers -/

/-- The loop of `parse_gpt`. -/
def gptLoop : (bases : List Nat) → Option (List Partition)
  | [] => some []
  | base :: rest =>
    if disk.bufLen < base + disk.entrySize then some []
    else if disk.bufLen < base + 16 then none
    else if ¬ disk.IsUsed base then gptLoop rest
    else if disk.bufLen < base + 48 then none
    else if ¬ disk.HasRange base then gptLoop rest
    else (gptLoop rest).map (disk.entryPartition base :: ·)

def parseGpt : Option (List Partition) :=
  if ¬ disk.Readable 1 1 then some []
  else if slice (disk.sectors 1) 0 8 ≠ gptSignature then some []
  else if disk.entrySize = 0 ∨ 512 < disk.entrySize then some []
  else if ¬ disk.Readable disk.entriesStartLba disk.sectorsNeeded then some []
  else disk.gptLoop disk.bases

variable (diskSectors : Nat)

def parseMbr : List Partition :=
  let partitions := ([446, 462, 478, 494].map fun base => (⟨word (disk.sectors 0) (base + 8),
      word (disk.sectors 0) (base + 12), disk.sectors 0 (base + 4)⟩ : Partition)).filter
    fun found => found.partitionType ≠ 0 ∧ found.startLba ≠ 0 ∧ found.sectorCount ≠ 0
  if partitions = [] then [⟨0, diskSectors, 0xFF⟩] else partitions

/-- `is_bpb_not_mbr`: the first byte is that of a jump. -/
def IsBpbNotMbr : Prop := disk.sectors 0 0 = 0xEB ∨ disk.sectors 0 0 = 0xE9
  deriving Decidable

/-- `enumerate_partitions`, for a disk of a given size. -/
def enumeratePartitions : Option (List Partition) :=
  if ¬ disk.Readable 0 1 then some []
  else if slice (disk.sectors 0) 510 2 ≠ [0x55, 0xAA] then some [⟨0, diskSectors, 0xFF⟩]
  else if disk.IsBpbNotMbr then some [⟨0, diskSectors, 0x0C⟩]
  else if disk.sectors 0 450 = 0xEE then disk.parseGpt
  else some (disk.parseMbr diskSectors)

/-! ## The specification -/

/-- A protective MBR and a GPT header. -/
structure HasGpt : Prop where
  readable : disk.Readable 0 1 ∧ disk.Readable 1 1
  boot : slice (disk.sectors 0) 510 2 = [0x55, 0xAA]
  protective : disk.sectors 0 450 = 0xEE
  signature : slice (disk.sectors 1) 0 8 = gptSignature

/-- A GPT as the specification allows it, with its array of entries on the disk. -/
structure ValidGpt : Prop extends HasGpt disk where
  size : 128 ≤ disk.entrySize ∧ 8 ∣ disk.entrySize
  array : ∀ i < disk.numEntries * disk.entrySize,
    disk.responds (disk.entriesStartLba + i / 512) = true

/-- The loop of `parse_gpt` is reached from a GPT. -/
structure Scanned : Prop where
  boot : ¬ disk.IsBpbNotMbr
  size : ¬ (disk.entrySize = 0 ∨ 512 < disk.entrySize)
  readable : disk.Readable disk.entriesStartLba disk.sectorsNeeded

/-- First LBA and length of the entries that are not empty. -/
def usedExtents : List (Nat × Nat) := (disk.bases.filter (disk.IsUsed ·)).map disk.extent

/-- No panic; and of a valid GPT, exactly the entries that are not empty. -/
def Enumerated : Prop :=
  ∃ partitions, disk.enumeratePartitions diskSectors = some partitions ∧
    (disk.ValidGpt →
      partitions.map (fun found => (found.startLba, found.sectorCount)) = disk.usedExtents)

end

variable {disk : Disk}

/-- There is room for all entries in the sectors that are read. -/
theorem bases_fit (h : disk.Scanned) :
    ∀ base ∈ disk.bases, base + disk.entrySize ≤ disk.bufLen := by
  intro base hbase
  obtain ⟨index, hindex, rfl⟩ := mem_map.mp hbase
  have hlt := mem_range.mp hindex
  have hsize := h.size
  have hsome : 0 < 512 / disk.entrySize := div_pos (by omega) (by omega)
  have hmod := div_add_mod (disk.numEntries + 512 / disk.entrySize - 1) (512 / disk.entrySize)
  have hrest := mod_lt (disk.numEntries + 512 / disk.entrySize - 1) hsome
  calc index * disk.entrySize + disk.entrySize = (index + 1) * disk.entrySize := by ring
    _ ≤ 512 / disk.entrySize * disk.sectorsNeeded * disk.entrySize := by
      refine mul_le_mul_right _ ?_
      unfold sectorsNeeded
      omega
    _ = disk.sectorsNeeded * (512 / disk.entrySize * disk.entrySize) := by ring
    _ ≤ disk.bufLen := mul_le_mul_left _ (div_mul_le_self 512 _)

/-- The loop reports all entries that are used and have a range, unless it panics. -/
theorem gptLoop_eq {bases : List Nat}
    (hroom : ∀ base ∈ bases, base + disk.entrySize ≤ disk.bufLen) :
    disk.gptLoop bases =
      if ∀ base ∈ bases, disk.SlicesFit base then
        some (((bases.filter (disk.IsUsed ·)).filter (disk.HasRange ·)).map disk.entryPartition)
      else none := by
  induction bases with
  | nil => simp [gptLoop]
  | cons base rest ih =>
    rw [forall_mem_cons] at hroom
    rw [gptLoop, if_neg (by omega), ih hroom.2]
    by_cases hguid : disk.bufLen < base + 16
    · rw [if_pos hguid, if_neg fun h => absurd (h base mem_cons_self).1 (by omega)]
    rw [if_neg hguid]
    by_cases hused : disk.IsUsed base
    · rw [if_neg (not_not.mpr hused)]
      by_cases hall : disk.bufLen < base + 48
      · rw [if_pos hall, if_neg fun h => absurd ((h base mem_cons_self).2 hused) (by omega)]
      have hfit : disk.SlicesFit base := ⟨by omega, fun _ => by omega⟩
      rw [if_neg hall]
      by_cases hrange : disk.HasRange base
      · simp [hused, hrange, hfit, apply_ite]
      · simp [hused, hrange, hfit]
    · have hfit : disk.SlicesFit base := ⟨by omega, fun h => absurd h hused⟩
      simp [hused, hfit]

/-- Without a GPT there is no panic; with one, the loop runs, or the disk is reported whole, or
nothing is. -/
theorem enumeratePartitions_cases (disk : Disk) (diskSectors : Nat) :
    (¬ disk.HasGpt ∧ ∃ partitions, disk.enumeratePartitions diskSectors = some partitions) ∨
      disk.HasGpt ∧ (disk.Scanned ∧ disk.enumeratePartitions diskSectors = disk.gptLoop disk.bases ∨
        ¬ disk.Scanned ∧ disk.enumeratePartitions diskSectors =
          some (if disk.IsBpbNotMbr then [⟨0, diskSectors, 0x0C⟩] else [])) := by
  by_cases hgpt : disk.HasGpt
  · refine .inr ⟨hgpt, ?_⟩
    rw [enumeratePartitions, if_neg (not_not.mpr hgpt.readable.1), if_neg (not_not.mpr hgpt.boot)]
    by_cases hjump : disk.IsBpbNotMbr
    · exact .inr ⟨fun h => h.boot hjump, by rw [if_pos hjump, if_pos hjump]⟩
    rw [if_neg hjump, if_neg hjump, if_pos hgpt.protective, parseGpt,
      if_neg (not_not.mpr hgpt.readable.2), if_neg (not_not.mpr hgpt.signature)]
    by_cases hscanned : disk.Scanned
    · rw [if_neg hscanned.size, if_neg (not_not.mpr hscanned.readable)]
      exact .inl ⟨hscanned, rfl⟩
    · refine .inr ⟨hscanned, ?_⟩
      split
      · rfl
      next hsize => exact if_pos fun hreadable => hscanned ⟨hjump, hsize, hreadable⟩
  · refine .inl ⟨hgpt, ?_⟩
    unfold enumeratePartitions parseGpt
    split_ifs with hread hboot hjump hprotective hheader hsignature
    any_goals exact ⟨_, rfl⟩
    all_goals exact absurd ⟨⟨hread, hheader⟩, not_not.mp hboot, hprotective,
      not_not.mp hsignature⟩ hgpt

theorem enumeratePartitions_isSome_iff (disk : Disk) (diskSectors : Nat) :
    (disk.enumeratePartitions diskSectors).isSome ↔
      (disk.HasGpt → disk.Scanned → ∀ base ∈ disk.bases, disk.SlicesFit base) := by
  obtain ⟨hgpt, _, heq⟩ | ⟨hgpt, ⟨hscanned, heq⟩ | ⟨hscanned, heq⟩⟩ :=
    enumeratePartitions_cases disk diskSectors
  · simp [heq, hgpt]
  · rw [heq, gptLoop_eq (bases_fit hscanned)]
    split <;> simp_all
  · simp [heq, hscanned]

/-- No panic and exactly the used entries of a valid GPT: this takes that no slice of an entry
ends behind the sectors that are read, and, in a valid GPT, that the entries are at most 512
bytes long, can be read in whole sectors, and have a range unless they are empty; or that one
entry is the whole disk, if the first byte is that of a jump. -/
theorem enumerated_iff (disk : Disk) (diskSectors : Nat) :
    disk.Enumerated diskSectors ↔
      (disk.HasGpt → disk.Scanned → ∀ base ∈ disk.bases, disk.SlicesFit base) ∧
      (disk.ValidGpt → if disk.IsBpbNotMbr then disk.usedExtents = [(0, diskSectors)]
        else ∀ base ∈ disk.bases, disk.IsUsed base → disk.Scanned ∧ disk.HasRange base) := by
  unfold Enumerated
  obtain ⟨hgpt, partitions, heq⟩ | ⟨hgpt, ⟨hscanned, heq⟩ | ⟨hscanned, heq⟩⟩ :=
    enumeratePartitions_cases disk diskSectors
  · have hvalid : ¬ disk.ValidGpt := fun h => hgpt h.toHasGpt
    exact iff_of_true ⟨partitions, heq, fun h => absurd h hvalid⟩
      ⟨fun h => absurd h hgpt, fun h => absurd h hvalid⟩
  · rw [heq, gptLoop_eq (bases_fit hscanned), if_neg hscanned.boot]
    by_cases hfit : ∀ base ∈ disk.bases, disk.SlicesFit base
    · simp only [if_pos hfit, Option.some.injEq, exists_eq_left', map_map, hscanned, true_and,
        usedExtents]
      refine (imp_congr_right fun _ => ⟨fun h => ?_, fun h => ?_⟩).trans
        (and_iff_right fun _ _ => hfit).symm
      · have hlength := congrArg List.length h
        rw [length_map, length_map, length_filter_eq_length_iff] at hlength
        exact fun base hbase hused => by
          simpa using hlength base (mem_filter.mpr ⟨hbase, by simpa using hused⟩)
      · rw [filter_eq_self.mpr]
        · rfl
        · intro base hbase
          obtain ⟨hbase, hused⟩ := mem_filter.mp hbase
          simpa using h base hbase (by simpa using hused)
    · simp [hgpt, hscanned, hfit]
  · by_cases hjump : disk.IsBpbNotMbr
    · simp [heq, hscanned, hjump, eq_comm]
    · simp [heq, hscanned, hjump, usedExtents]

/-- Three sectors: a protective MBR, a header for 64 entries of 8 bytes, and zeros. -/
def smallEntriesDisk : Disk where
  bytes := splice (splice (fun _ => 0) 450
    (0xEE :: replicate 59 0 ++ [0x55, 0xAA] ++ gptSignature)) 584
    [2, 0, 0, 0, 0, 0, 0, 0, 64, 0, 0, 0, 8, 0, 0, 0]
  responds := fun lba => lba < 3

/-- The type GUID of the last entry ends behind the sector. -/
theorem small_entries_panic :
    smallEntriesDisk.enumeratePartitions 3 = none ∧ ¬ smallEntriesDisk.Enumerated 3 := by
  have hpanic : smallEntriesDisk.enumeratePartitions 3 = none := by decide +kernel
  exact ⟨hpanic, fun ⟨_, hsome, _⟩ => nomatch hpanic.symm.trans hsome⟩

end Disk

end Bazzulto.Fat32
