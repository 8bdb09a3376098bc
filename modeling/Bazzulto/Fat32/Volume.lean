/-
  Fat32/Volume.lean --- a FAT32 volume on a block device, `kernel/src/fs/fat32.rs`.

  The block device is `hal/disk.rs` over `virtio_blk.rs`: a request for several
  sectors is carried out one sector at a time, so that a failing request may
  already have transferred the sectors before the one that failed.

  The parameters a volume reads once from its boot sector are a `Geometry`,
  which carries what makes it a FAT32 layout: the FAT has an entry for every
  cluster, and cluster numbers stay below the values reserved for markers.
  Everything that operations change is in `Volume`.

  This file holds the functions that touch one sector, one cluster or one bit;
  chains of clusters are in Fat32/Chain.lean.
-/
import Bazzulto.Foundation.Bytes

set_option autoImplicit false

namespace Bazzulto.Fat32

open Bazzulto.Foundation

/-! ## The block device -/

/-- A block device: its contents by byte position (`512 * lba + offset`), and
which sectors answer requests. -/
structure Disk where
  bytes : Buffer
  responds : Nat → Bool

namespace Disk

variable {disk : Disk} {lba count : Nat}

/-- How many of `count` sectors are transferred before the first failing one. -/
def transferred (disk : Disk) (lba : Nat) : (count : Nat) → Nat
  | 0 => 0
  | count + 1 =>
    let done := disk.transferred lba count
    if done = count ∧ disk.responds (lba + count) then count + 1 else done

/-- `disk_read_sectors` into a buffer of `len` bytes. -/
def readSectors (disk : Disk) (lba count len : Nat) (buf : Buffer) : Bool × Buffer :=
  if count = 0 ∨ len < count * 512 then (false, buf)
  else
    let done := disk.transferred lba count
    (done == count, fun i => if i < 512 * done then disk.bytes (512 * lba + i) else buf i)

/-- `disk_write_sectors` from a buffer of `len` bytes. -/
def writeSectors (disk : Disk) (lba count len : Nat) (buf : Buffer) : Bool × Disk :=
  if count = 0 ∨ len < count * 512 then (false, disk)
  else
    let done := disk.transferred lba count
    (done == count,
      { disk with
        bytes := fun i =>
          if 512 * lba ≤ i ∧ i < 512 * (lba + done) then buf (i - 512 * lba)
          else disk.bytes i })

theorem transferred_le (disk : Disk) (lba count : Nat) : disk.transferred lba count ≤ count := by
  induction count with
  | zero => exact Nat.le_refl 0
  | succ count ih =>
    simp only [transferred]
    split <;> omega

theorem transferred_of_responds (h : ∀ i < count, disk.responds (lba + i) = true) :
    disk.transferred lba count = count := by
  induction count with
  | zero => rfl
  | succ count ih =>
    have hdone := ih fun i hi => h i (by omega)
    simp [transferred, hdone, h count (by omega)]

theorem responds_of_transferred (h : disk.transferred lba count = count) :
    ∀ i < count, disk.responds (lba + i) = true := by
  induction count with
  | zero => omega
  | succ count ih =>
    have hle := disk.transferred_le lba count
    simp only [transferred] at h
    split at h
    next hlast =>
      intro i hi
      rcases Nat.eq_or_lt_of_le (Nat.le_of_lt_succ hi) with rfl | hlt
      · exact hlast.2
      · exact ih hlast.1 i hlt
    · omega

@[simp] theorem writeSectors_responds (disk : Disk) (lba count len : Nat) (buf : Buffer) :
    (disk.writeSectors lba count len buf).2.responds = disk.responds := by
  unfold writeSectors
  split <;> rfl

theorem writeSectors_outside {len : Nat} {buf : Buffer} {i : Nat}
    (hi : i < 512 * lba ∨ 512 * (lba + count) ≤ i) :
    (disk.writeSectors lba count len buf).2.bytes i = disk.bytes i := by
  have hdone := disk.transferred_le lba count
  unfold writeSectors
  split
  · rfl
  · exact if_neg (by omega)

end Disk

/-! ## Geometry -/

def clusterFree : Nat := 0

def clusterEofMin : Nat := 0x0FFFFFF8

/-- The end-of-chain marker the driver writes. -/
def clusterEof : Nat := 0x0FFFFFFF

def firstDataCluster : Nat := 2

def isEof (cluster : Nat) : Bool := clusterEofMin ≤ cluster

def isBad (cluster : Nat) : Bool := cluster == 0x0FFFFFF7

/-- What `fat32_init_inner` takes from the boot sector.  Sectors have 512
bytes, as every offset computation of the driver assumes. -/
structure Geometry where
  partitionStartLba : Nat
  sectorsPerCluster : Nat
  fatStartLba : Nat
  fatSectors : Nat
  numFats : Nat
  rootCluster : Nat
  totalClusters : Nat
  sectorsPerCluster_pos : 0 < sectorsPerCluster
  numFats_pos : 0 < numFats
  fat_covers : totalClusters + 2 ≤ 128 * fatSectors
  clusters_lt_markers : totalClusters + 2 ≤ 0x0FFFFFF7

namespace Geometry

variable {geo : Geometry} {cluster c c' copy : Nat}

section

variable (geo : Geometry)

def bytesPerCluster : Nat := 512 * geo.sectorsPerCluster

def dataStartLba : Nat := geo.fatStartLba + geo.numFats * geo.fatSectors

/-- `cluster_lba`, relative to the partition. -/
def clusterLba (cluster : Nat) : Nat :=
  geo.dataStartLba + (cluster - firstDataCluster) * geo.sectorsPerCluster

/-- Position on the disk of the first byte of a cluster. -/
def clusterAddress (cluster : Nat) : Nat :=
  512 * (geo.partitionStartLba + geo.clusterLba cluster)

/-- Position on the disk of a cluster's entry in one copy of the FAT. -/
def fatAddress (copy cluster : Nat) : Nat :=
  512 * (geo.partitionStartLba + geo.fatStartLba + copy * geo.fatSectors) + 4 * cluster

/-- The clusters a volume has. -/
def Valid (cluster : Nat) : Prop :=
  2 ≤ cluster ∧ cluster < geo.totalClusters + 2
  deriving Decidable

end

/-- The clusters whose entry lies inside the FAT. -/
def InFat (geo : Geometry) (cluster : Nat) : Prop := cluster < 128 * geo.fatSectors
  deriving Decidable

theorem Valid.inFat (h : geo.Valid cluster) : geo.InFat cluster := by
  have hcovers := geo.fat_covers
  unfold Valid at h
  unfold InFat
  omega

theorem bytesPerCluster_pos (geo : Geometry) : 0 < geo.bytesPerCluster := by
  have h := geo.sectorsPerCluster_pos
  unfold bytesPerCluster
  omega

theorem Valid.not_isEof (h : geo.Valid cluster) : isEof cluster = false := by
  have hmarkers := geo.clusters_lt_markers
  unfold Valid at h
  exact decide_eq_false (by unfold clusterEofMin; omega)

theorem Valid.not_isBad (h : geo.Valid cluster) : isBad cluster = false := by
  have hmarkers := geo.clusters_lt_markers
  unfold Valid at h
  simp only [isBad, beq_eq_false_iff_ne]
  omega

theorem clusterAddress_disjoint (geo : Geometry) (hc : 2 ≤ c) (hlt : c < c') :
    geo.clusterAddress c + geo.bytesPerCluster ≤ geo.clusterAddress c' := by
  have hstep : (c - 2 + 1) * geo.sectorsPerCluster ≤ (c' - 2) * geo.sectorsPerCluster :=
    Nat.mul_le_mul_right _ (by omega)
  rw [Nat.add_mul] at hstep
  unfold clusterAddress clusterLba bytesPerCluster firstDataCluster
  omega

theorem clusterAddress_apart (geo : Geometry) (hc : 2 ≤ c) (hc' : 2 ≤ c') (hne : c ≠ c') :
    geo.clusterAddress c + geo.bytesPerCluster ≤ geo.clusterAddress c' ∨
      geo.clusterAddress c' + geo.bytesPerCluster ≤ geo.clusterAddress c :=
  (Nat.lt_or_gt_of_ne hne).imp (geo.clusterAddress_disjoint hc) (geo.clusterAddress_disjoint hc')

theorem fatAddress_lt_clusterAddress (geo : Geometry) (hcopy : copy < geo.numFats)
    (hc : geo.InFat c) : geo.fatAddress copy c + 4 ≤ geo.clusterAddress c' := by
  unfold fatAddress clusterAddress clusterLba dataStartLba
  unfold InFat at hc
  have hcopies : (copy + 1) * geo.fatSectors ≤ geo.numFats * geo.fatSectors :=
    Nat.mul_le_mul_right _ hcopy
  rw [Nat.add_mul] at hcopies
  omega

/-- The copy of the FAT that reads use meets no word of any other entry,
whichever number that entry has. -/
theorem fatAddress_ne (geo : Geometry) (hc : geo.InFat c) (hne : c ≠ cluster) :
    geo.fatAddress 0 c + 4 ≤ geo.fatAddress copy cluster ∨
      geo.fatAddress copy cluster + 4 ≤ geo.fatAddress 0 c := by
  unfold InFat at hc
  unfold fatAddress
  rcases Nat.eq_zero_or_pos copy with rfl | hpos
  · omega
  · have hcopies : 1 * geo.fatSectors ≤ copy * geo.fatSectors := Nat.mul_le_mul_right _ hpos
    omega

end Geometry

/-! ## The volume -/

/-- `Fat32Volume`.  The bitmap has one bit per cluster, by cluster number minus
two; `fat_cache_sector == u64::MAX` is the empty cache. -/
structure Volume where
  geometry : Geometry
  disk : Disk
  freeClusters : Nat
  fatBitmap : Nat → Bool
  clusterBuf : Buffer
  fatCacheSector : Option Nat
  fatCacheBuf : Buffer
  ready : Bool

namespace Volume

/-! ### Clusters -/

section

variable (vol : Volume)

/-- `read_cluster`, into the cluster buffer. -/
def readCluster (cluster : Nat) : Bool × Volume :=
  if cluster < firstDataCluster then (false, vol)
  else
    let geo := vol.geometry
    let (ok, buf) := vol.disk.readSectors (geo.partitionStartLba + geo.clusterLba cluster)
      geo.sectorsPerCluster geo.bytesPerCluster vol.clusterBuf
    (ok, { vol with clusterBuf := buf })

/-- `write_cluster`, from the cluster buffer. -/
def writeCluster (cluster : Nat) : Bool × Volume :=
  if cluster < firstDataCluster then (false, vol)
  else
    let geo := vol.geometry
    let (ok, disk) := vol.disk.writeSectors (geo.partitionStartLba + geo.clusterLba cluster)
      geo.sectorsPerCluster geo.bytesPerCluster vol.clusterBuf
    (ok, { vol with disk := disk })

/-! ### The file allocation table -/

/-- `read_fat_entry`: the cache is keyed by the sector's LBA relative to the
partition. -/
def readFatEntry (cluster : Nat) : Option Nat × Volume :=
  let geo := vol.geometry
  let fatOffset := cluster * 4
  let absSector := geo.fatStartLba + fatOffset / 512
  let entryOffset := fatOffset % 512
  if vol.fatCacheSector = some absSector then
    (some (word vol.fatCacheBuf entryOffset % 2 ^ 28), vol)
  else
    match vol.disk.readSectors (geo.partitionStartLba + absSector) 1 512 vol.fatCacheBuf with
    | (false, buf) => (none, { vol with fatCacheBuf := buf })
    | (true, buf) =>
      (some (word buf entryOffset % 2 ^ 28),
        { vol with fatCacheBuf := buf, fatCacheSector := some absSector })

/-- `(value & 0x0FFFFFFF) | (existing & 0xF0000000)`: the top four bits of an
entry are reserved and kept. -/
def mergeEntry (value existing : Nat) : Nat :=
  value % 2 ^ 28 + existing / 2 ^ 28 * 2 ^ 28

/-- One round of the loop of `write_fat_entry`: the entry in the FAT copy whose
sector is `absSector`. -/
def writeFatCopy (disk : Disk) (absSector entryOffset value : Nat) : Bool × Disk :=
  match disk.readSectors absSector 1 512 (fun _ => 0) with
  | (false, _) => (false, disk)
  | (true, buf) =>
    let newValue := mergeEntry value (word buf entryOffset)
    disk.writeSectors absSector 1 512 (splice buf entryOffset (leBytes 4 newValue))

/-- The loop of `write_fat_entry`, from copy `fat` on. -/
def writeFatCopies (geo : Geometry) (cluster value : Nat) :
    (remaining fat : Nat) → Disk → Bool × Disk
  | 0, _, disk => (true, disk)
  | remaining + 1, fat, disk =>
    let absSector := geo.partitionStartLba + geo.fatStartLba + cluster * 4 / 512 +
      fat * geo.fatSectors
    match writeFatCopy disk absSector (cluster * 4 % 512) value with
    | (false, disk) => (false, disk)
    | (true, disk) => writeFatCopies geo cluster value remaining (fat + 1) disk

/-- `write_fat_entry`: the cache is invalidated by the sector's LBA on the
disk, and only when every copy was written. -/
def writeFatEntry (cluster value : Nat) : Bool × Volume :=
  let geo := vol.geometry
  match writeFatCopies geo cluster value geo.numFats 0 vol.disk with
  | (false, disk) => (false, { vol with disk := disk })
  | (true, disk) =>
    (true,
      { vol with
        disk := disk
        fatCacheSector :=
          if vol.fatCacheSector =
              some (geo.partitionStartLba + geo.fatStartLba + cluster * 4 / 512) then none
          else vol.fatCacheSector })

/-! ### The bitmap of used clusters -/

/-- `bitmap_set`.  The bitmap has a byte for every eight clusters, so the
second bounds test of the source never fails. -/
def bitmapSet (cluster : Nat) : Volume :=
  if vol.geometry.Valid cluster then
    { vol with fatBitmap := Function.update vol.fatBitmap (cluster - firstDataCluster) true }
  else vol

def bitmapClear (cluster : Nat) : Volume :=
  if vol.geometry.Valid cluster then
    { vol with fatBitmap := Function.update vol.fatBitmap (cluster - firstDataCluster) false }
  else vol

def bitmapFindFree : Option Nat :=
  ((List.range vol.geometry.totalClusters).find? fun i => !vol.fatBitmap i).map
    (firstDataCluster + ·)

/-- Is the cluster marked used in the bitmap? -/
def Used (cluster : Nat) : Prop :=
  vol.fatBitmap (cluster - firstDataCluster) = true
  deriving Decidable

end

end Volume

/-! ## A small volume -/

/-- Sixteen clusters of one sector each and one FAT sector, for concrete runs. -/
def smallGeometry (partitionStartLba : Nat) : Geometry where
  partitionStartLba := partitionStartLba
  sectorsPerCluster := 1
  fatStartLba := 1
  fatSectors := 1
  numFats := 1
  rootCluster := 2
  totalClusters := 16
  sectorsPerCluster_pos := by decide
  numFats_pos := by decide
  fat_covers := by decide
  clusters_lt_markers := by decide

/-- The small volume as mounted from an empty disk of 64 sectors. -/
def blankVolume (partitionStartLba : Nat) : Volume where
  geometry := smallGeometry partitionStartLba
  disk := ⟨fun _ => 0, fun lba => decide (lba < 64)⟩
  freeClusters := 16
  fatBitmap := fun _ => false
  clusterBuf := fun _ => 0
  fatCacheSector := none
  fatCacheBuf := fun _ => 0
  ready := true

end Bazzulto.Fat32
