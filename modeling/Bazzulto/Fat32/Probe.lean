/-
  Fat32/Probe.lean --- what `sys_mount` finds on a disk.

  Embeds `BlockDevice` (kernel/src/hal/disk.rs), `is_fat32_candidate`
  (kernel/src/fs/partition.rs), `fat32_init_partition` and `build_fat_bitmap`
  (kernel/src/fs/fat32.rs) and `bafs_probe` (kernel/src/fs/bafs_driver.rs).  Of a FAT32 volume
  only its existence is kept: what else is taken from the boot sector, the bits of the bitmap
  and the FSInfo sector do not decide it.
-/
import Bazzulto.Fat32.Partition
import Bazzulto.Foundation.Checked

set_option autoImplicit false

namespace Bazzulto.Fat32

open Foundation Checked

/-- A disk of the registry.  Its size in bytes is a 64-bit number. -/
structure BlockDevice extends Disk where
  sectorCount : Nat
  responds_lt : ∀ lba, responds lba = true → lba < sectorCount
  sectorCount_le : sectorCount ≤ 2 ^ 55

def Partition.isFat32Candidate (partition : Partition) : Bool :=
  partition.partitionType ∈ [0x0B, 0x0C, 0xFF]

/-! ## The boot sector -/

/-- `Fat32Bpb`: the fields that give the number of clusters. -/
structure Fat32Bpb where
  secPerClus : Nat
  rsvdSecCnt : Nat
  numFats : Nat
  totSec16 : Nat
  totSec32 : Nat
  fatSz32 : Nat

namespace Fat32Bpb

def ofSector (sector : Buffer) : Fat32Bpb where
  secPerClus := (sector 13).toNat
  rsvdSecCnt := leValue (slice sector 14 2)
  numFats := (sector 16).toNat
  totSec16 := leValue (slice sector 19 2)
  totSec32 := word sector 32
  fatSz32 := word sector 36

variable (bpb : Fat32Bpb)

def totalSectors : Nat := if bpb.totSec16 ≠ 0 then bpb.totSec16 else bpb.totSec32

def dataSectors : Nat := bpb.totalSectors - (bpb.rsvdSecCnt + bpb.numFats * bpb.fatSz32)

/-- `total_clusters`, fewer than 2^32 as the sectors are. -/
def totalClusters : Nat := bpb.dataSectors / bpb.secPerClus

/-- The clusters can be counted, and the bytes of their bitmap in 32 bits. -/
def Counted : Prop := bpb.secPerClus ≠ 0 ∧ bpb.totalClusters + 7 < 2 ^ 32
  deriving Decidable

end Fat32Bpb

namespace BlockDevice

section

variable (device : BlockDevice) (startLba : Nat)

/-- `enumerate_partitions`. -/
def partitions : Checked (List Partition) :=
  match device.enumeratePartitions device.sectorCount with
  | none => .error .slice
  | some partitions => .ok partitions

def bpb : Fat32Bpb := .ofSector (device.sectors startLba)

/-- The checks of `fat32_init_inner` on the boot sector. -/
def IsFat32 : Prop :=
  device.Readable startLba 1 ∧ slice (device.sectors startLba) 510 2 = [0x55, 0xAA] ∧
    slice (device.sectors startLba) 82 5 = [0x46, 0x41, 0x54, 0x33, 0x32]

instance : Decidable (device.IsFat32 startLba) := inferInstanceAs (Decidable (_ ∧ _ ∧ _))

/-- The loop of `build_fat_bitmap`, which reads the entry of each cluster.  The cached sector
is one that responds. -/
def buildFatBitmap : (clusters : List Nat) → Checked Bool
  | [] => .ok true
  | cluster :: rest => do
    let lba ← Checked.add startLba ((device.bpb startLba).rsvdSecCnt + cluster * 4 / 512)
    if device.responds lba then buildFatBitmap rest else .ok false

/-- `fat32_init_partition`: whether there is a volume. -/
def fat32InitPartition : Checked Bool :=
  let bpb := device.bpb startLba
  if ¬ device.IsFat32 startLba then .ok false
  else if bpb.secPerClus = 0 then .error .division
  else if 2 ^ 32 ≤ bpb.totalClusters + 7 then .error .overflow
  else device.buildFatBitmap startLba (List.range (bpb.totalClusters + 2))

def bafsProbe : Bool :=
  device.Readable startLba 1 ∧
    slice (device.sectors startLba) 0 8 = [0x42, 0x41, 0x46, 0x53, 0x1B, 0, 0, 0]

/-- The slices that `parse_gpt` takes of the entries lie in the sectors it has read. -/
def TableFits : Prop :=
  device.HasGpt → device.Scanned → ∀ base ∈ device.bases, device.SlicesFit base

end

variable {device : BlockDevice} {startLba : Nat}

theorem partitions_ok (hfits : device.TableFits) : ∃ found, device.partitions = .ok found := by
  obtain ⟨found, hfound⟩ :=
    Option.isSome_iff_exists.mp ((device.enumeratePartitions_isSome_iff _).mpr hfits)
  exact ⟨found, by rw [partitions, hfound]⟩

theorem partitions_fault (hfits : ¬ device.TableFits) : device.partitions = .error .slice := by
  have hnone : device.enumeratePartitions device.sectorCount = none :=
    Option.not_isSome_iff_eq_none.mp (mt (device.enumeratePartitions_isSome_iff _).mp hfits)
  rw [partitions, hnone]

/-- No sector of the FAT has a number of more than 64 bits, as the boot sector lies on the
disk. -/
theorem buildFatBitmap_ok (hstart : startLba < 2 ^ 55) {clusters : List Nat}
    (hclusters : ∀ cluster ∈ clusters, cluster < 2 ^ 32) :
    ∃ found, device.buildFatBitmap startLba clusters = .ok found := by
  induction clusters with
  | nil => exact ⟨true, rfl⟩
  | cons cluster rest ih =>
    obtain ⟨hcluster, hrest⟩ := List.forall_mem_cons.mp hclusters
    have hreserved : (device.bpb startLba).rsvdSecCnt < 256 ^ 2 := by
      have h := leValue_lt (slice (device.sectors startLba) 14 2)
      rwa [slice_length] at h
    rw [buildFatBitmap, add_ok (by omega)]
    dsimp only [bind, Except.bind]
    split
    · exact ih hrest
    · exact ⟨false, rfl⟩

theorem fat32InitPartition_ok (hcounted : device.IsFat32 startLba → (device.bpb startLba).Counted) :
    ∃ found, device.fat32InitPartition startLba = .ok found := by
  unfold fat32InitPartition
  dsimp only
  split
  · exact ⟨false, rfl⟩
  next hvolume =>
    have hvolume := not_not.mp hvolume
    obtain ⟨hdivisor, hcount⟩ := hcounted hvolume
    have hstart := device.responds_lt _ (hvolume.1.2 0 (by decide))
    have hsize := device.sectorCount_le
    rw [if_neg hdivisor, if_neg (by omega)]
    refine buildFatBitmap_ok (by omega) fun cluster hcluster => ?_
    have hlt := List.mem_range.mp hcluster
    omega

theorem fat32InitPartition_fault (hvolume : device.IsFat32 startLba)
    (hcounted : ¬ (device.bpb startLba).Counted) :
    ∃ fault, device.fat32InitPartition startLba = .error fault ∧ fault ≠ .allocation := by
  unfold fat32InitPartition
  dsimp only
  rw [if_neg (not_not.mpr hvolume)]
  split
  · exact ⟨_, rfl, by simp⟩
  next hdivisor =>
    rw [if_pos (by_contra fun hcount => hcounted ⟨hdivisor, by omega⟩)]
    exact ⟨_, rfl, by simp⟩

end BlockDevice

end Bazzulto.Fat32
