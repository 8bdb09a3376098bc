/-
  Fat32/Fat.lean --- what reading and writing FAT entries does, and when the
  one-sector FAT cache is never observed stale.

  `EntryIs vol cluster value` is the fact every chain operation rests on: the
  entry has that value on the disk and, if its sector is cached, in the cache
  too.  Reads return it and keep it for every cluster; a write to one cluster
  keeps it for all others, wherever the partition starts and even when some
  copy of the FAT cannot be written.  What a write does to the entry's own
  `EntryIs` depends on the partition: `read_fat_entry` keys the cache by the
  LBA relative to the partition and `write_fat_entry` invalidates by the LBA on
  the disk, so the two meet only for a partition that starts at LBA 0.
-/
import Bazzulto.Fat32.Volume
import Bazzulto.Foundation.Run

set_option autoImplicit false

namespace Bazzulto.Fat32

open Bazzulto.Foundation Option Function Volume

/-! ## Single sectors -/

namespace Disk

variable {disk : Disk} {lba : Nat} {buf : Buffer}

theorem readSectors_one (h : disk.responds lba = true) :
    disk.readSectors lba 1 512 buf =
      (true, fun i => if i < 512 then disk.bytes (512 * lba + i) else buf i) := by
  simp [readSectors, transferred, h]

theorem readSectors_one_failed (h : disk.responds lba = false) :
    disk.readSectors lba 1 512 buf = (false, buf) := by
  simp [readSectors, transferred, h]

theorem writeSectors_one (h : disk.responds lba = true) :
    disk.writeSectors lba 1 512 buf = (true,
        { disk with
          bytes := fun i =>
            if 512 * lba ≤ i ∧ i < 512 * (lba + 1) then buf (i - 512 * lba)
            else disk.bytes i }) := by
  simp [writeSectors, transferred, h]

/-- The disk after the entry at `address` was overwritten. -/
def setEntry (disk : Disk) (address value : Nat) : Disk :=
  { disk with
    bytes := splice disk.bytes address
      (leBytes 4 (mergeEntry value (word disk.bytes address))) }

end Disk

namespace Volume

variable {value absSector entryOffset copy cluster remaining fat c v : Nat} {disk : Disk}
  {geo : Geometry} {vol : Volume}

/-- One copy of the FAT whose sector responds has the one word overwritten. -/
theorem writeFatCopy_of_responds (h : disk.responds absSector = true)
    (hoffset : entryOffset + 4 ≤ 512) :
    writeFatCopy disk absSector entryOffset value =
      (true, disk.setEntry (512 * absSector + entryOffset) value) := by
  have hword : word (fun i => if i < 512 then disk.bytes (512 * absSector + i) else 0)
      entryOffset = word disk.bytes (512 * absSector + entryOffset) := by
    refine congrArg leValue (slice_congr fun i hi => ?_)
    rw [if_pos (by omega), Nat.add_assoc]
  simp only [writeFatCopy, Disk.readSectors_one h, hword, Disk.writeSectors_one h,
    Disk.setEntry, Prod.mk.injEq, Disk.mk.injEq, and_true, true_and]
  funext i
  by_cases hin : 512 * absSector ≤ i ∧ i < 512 * (absSector + 1)
  · obtain ⟨j, rfl⟩ : ∃ j, i = 512 * absSector + j := ⟨i - 512 * absSector, by omega⟩
    rw [if_pos hin, Nat.add_sub_cancel_left]
    by_cases hj : entryOffset ≤ j ∧ j < entryOffset + 4
    · obtain ⟨k, rfl⟩ : ∃ k, j = entryOffset + k := ⟨j - entryOffset, by omega⟩
      have hk : k < 4 := by omega
      rw [splice_inside (by simpa using hk), ← Nat.add_assoc, splice_inside (by simpa using hk)]
    · rw [splice_outside (by rw [leBytes_length]; omega),
        splice_outside (by rw [leBytes_length]; omega), if_pos (by omega)]
  · rw [if_neg hin, splice_outside (by rw [leBytes_length]; omega)]

/-- The sector of the disk that holds a cluster's entry in one copy of the FAT. -/
def fatSector (geo : Geometry) (copy cluster : Nat) : Nat :=
  geo.partitionStartLba + geo.fatStartLba + cluster * 4 / 512 + copy * geo.fatSectors

theorem fatSector_address (geo : Geometry) (copy cluster : Nat) :
    512 * fatSector geo copy cluster + cluster * 4 % 512 = geo.fatAddress copy cluster := by
  unfold fatSector Geometry.fatAddress
  omega

/-- One round of the loop of `write_fat_entry`, by whether the sector responds. -/
theorem writeFatCopies_succ (geo : Geometry) (cluster value remaining fat : Nat) (disk : Disk) :
    writeFatCopies geo cluster value (remaining + 1) fat disk =
      if disk.responds (fatSector geo fat cluster) then
        writeFatCopies geo cluster value remaining (fat + 1)
          (disk.setEntry (geo.fatAddress fat cluster) value)
      else (false, disk) := by
  have hoffset : cluster * 4 % 512 + 4 ≤ 512 := by omega
  rw [writeFatCopies, ← fatSector_address]
  cases h : disk.responds (fatSector geo fat cluster) with
  | true =>
    simp only [fatSector] at h ⊢
    rw [writeFatCopy_of_responds h hoffset]
    rfl
  | false =>
    simp only [fatSector] at h ⊢
    simp [writeFatCopy, Disk.readSectors_one_failed h]

/-! ## All copies -/

theorem fatAddress_copies (geo : Geometry) {copy' : Nat} (cluster : Nat) (hlt : copy < copy') :
    geo.fatAddress copy cluster + 4 ≤ geo.fatAddress copy' cluster := by
  have hcovers := geo.fat_covers
  have hcopies : (copy + 1) * geo.fatSectors ≤ copy' * geo.fatSectors :=
    Nat.mul_le_mul_right _ hlt
  rw [Nat.add_mul] at hcopies
  unfold Geometry.fatAddress
  omega

/-- The loop gets as far as copy `copy` of the entry: it and the copies before
it respond. -/
def CopyReached (disk : Disk) (geo : Geometry) (first copy cluster : Nat) : Prop :=
  ∀ j, first ≤ j → j ≤ copy → disk.responds (fatSector geo j cluster) = true

theorem CopyReached.of_succ {first : Nat} (h : disk.responds (fatSector geo first cluster) = true)
    (hreach : CopyReached disk geo (first + 1) copy cluster) :
    CopyReached disk geo first copy cluster := by
  intro j hfirst hcopy
  rcases Nat.eq_or_lt_of_le hfirst with heq | hlt
  · exact heq ▸ h
  · exact hreach j hlt hcopy

@[simp] theorem writeFatCopies_responds (geo : Geometry) (cluster value remaining fat : Nat)
    (disk : Disk) :
    (writeFatCopies geo cluster value remaining fat disk).2.responds = disk.responds := by
  induction remaining generalizing fat disk with
  | zero => rfl
  | succ remaining ih =>
    rw [writeFatCopies_succ]
    split
    · rw [ih]
      rfl
    · rfl

/-- Bytes outside the words of the reached copies stay as they are. -/
theorem writeFatCopies_outside {i : Nat}
    (hi : ∀ copy, fat ≤ copy → copy < fat + remaining → CopyReached disk geo fat copy cluster →
      i < geo.fatAddress copy cluster ∨ geo.fatAddress copy cluster + 4 ≤ i) :
    (writeFatCopies geo cluster value remaining fat disk).2.bytes i = disk.bytes i := by
  induction remaining generalizing fat disk with
  | zero => rfl
  | succ remaining ih =>
    rw [writeFatCopies_succ]
    split
    next hresp =>
      rw [ih]
      · refine splice_outside ?_
        refine hi fat (Nat.le_refl fat) (by omega) fun j hfirst hcopy => ?_
        exact (Nat.le_antisymm hfirst hcopy) ▸ hresp
      · intro copy _ _ hreach
        exact hi copy (by omega) (by omega) (hreach.of_succ hresp)
    · rfl

/-- The word of a reached copy takes the new value in its low 28 bits. -/
theorem writeFatCopies_inside (hfirst : fat ≤ copy) (hcopy : copy < fat + remaining)
    (hreach : CopyReached disk geo fat copy cluster) :
    slice (writeFatCopies geo cluster value remaining fat disk).2.bytes
        (geo.fatAddress copy cluster) 4 =
      leBytes 4 (mergeEntry value (word disk.bytes (geo.fatAddress copy cluster))) := by
  induction remaining generalizing fat disk with
  | zero => omega
  | succ remaining ih =>
    rw [writeFatCopies_succ, if_pos (hreach fat (Nat.le_refl fat) hfirst)]
    rcases Nat.eq_or_lt_of_le hfirst with heq | hlt
    · subst heq
      -- The remaining rounds write later copies only.
      rw [slice_congr (fun i hi => writeFatCopies_outside fun copy hfrom _ _ =>
        .inl (by have := fatAddress_copies geo cluster hfrom; omega))]
      have h := slice_splice disk.bytes (geo.fatAddress fat cluster)
        (leBytes 4 (mergeEntry value (word disk.bytes (geo.fatAddress fat cluster))))
      rwa [leBytes_length] at h
    · have hrest : CopyReached (disk.setEntry (geo.fatAddress fat cluster) value) geo
          (fat + 1) copy cluster := fun j hfrom hto => hreach j (by omega) hto
      have hword : word (disk.setEntry (geo.fatAddress fat cluster) value).bytes
          (geo.fatAddress copy cluster) = word disk.bytes (geo.fatAddress copy cluster) :=
        word_splice_of_disjoint (.inr (fatAddress_copies geo cluster hlt))
      have hlater : fat + 1 ≤ copy := hlt
      rw [ih hlater (by omega) hrest, hword]

theorem writeFatCopies_ok
    (h : ∀ copy, fat ≤ copy → copy < fat + remaining →
      disk.responds (fatSector geo copy cluster) = true) :
    (writeFatCopies geo cluster value remaining fat disk).1 = true := by
  induction remaining generalizing fat disk with
  | zero => rfl
  | succ remaining ih =>
    rw [writeFatCopies_succ, if_pos (h fat (Nat.le_refl fat) (by omega))]
    exact ih fun copy hfirst hcopy => h copy (by omega) (by omega)

/-! ## What an operation on the FAT leaves alone -/

section Frame

variable (vol : Volume) (cluster value : Nat)

/-- The entry's sector as `read_fat_entry` keys its cache. -/
def fatKey (geo : Geometry) (cluster : Nat) : Nat := geo.fatStartLba + cluster * 4 / 512

theorem readFatEntry_eq : (vol.readFatEntry cluster).2 =
    { vol with
      fatCacheSector := (vol.readFatEntry cluster).2.fatCacheSector
      fatCacheBuf := (vol.readFatEntry cluster).2.fatCacheBuf } := by
  unfold readFatEntry
  dsimp only
  split
  · rfl
  · split <;> rfl

@[simp] theorem readFatEntry_geometry : (vol.readFatEntry cluster).2.geometry = vol.geometry := by
  rw [readFatEntry_eq]

@[simp] theorem readFatEntry_disk : (vol.readFatEntry cluster).2.disk = vol.disk := by
  rw [readFatEntry_eq]

@[simp] theorem readFatEntry_freeClusters :
    (vol.readFatEntry cluster).2.freeClusters = vol.freeClusters := by
  rw [readFatEntry_eq]

@[simp] theorem readFatEntry_fatBitmap :
    (vol.readFatEntry cluster).2.fatBitmap = vol.fatBitmap := by
  rw [readFatEntry_eq]

@[simp] theorem readFatEntry_ready : (vol.readFatEntry cluster).2.ready = vol.ready := by
  rw [readFatEntry_eq]

theorem writeFatEntry_eq : (vol.writeFatEntry cluster value).2 =
    { vol with
      disk := (writeFatCopies vol.geometry cluster value vol.geometry.numFats 0 vol.disk).2
      fatCacheSector := (vol.writeFatEntry cluster value).2.fatCacheSector } := by
  unfold writeFatEntry
  dsimp only
  split
  next h => simp [h]
  next h => simp [h]

@[simp] theorem writeFatEntry_geometry :
    (vol.writeFatEntry cluster value).2.geometry = vol.geometry := by
  rw [writeFatEntry_eq]

theorem writeFatEntry_disk : (vol.writeFatEntry cluster value).2.disk =
    (writeFatCopies vol.geometry cluster value vol.geometry.numFats 0 vol.disk).2 := by
  rw [writeFatEntry_eq]

@[simp] theorem writeFatEntry_responds :
    (vol.writeFatEntry cluster value).2.disk.responds = vol.disk.responds := by
  rw [writeFatEntry_disk, writeFatCopies_responds]

@[simp] theorem writeFatEntry_freeClusters :
    (vol.writeFatEntry cluster value).2.freeClusters = vol.freeClusters := by
  rw [writeFatEntry_eq]

@[simp] theorem writeFatEntry_fatBitmap :
    (vol.writeFatEntry cluster value).2.fatBitmap = vol.fatBitmap := by
  rw [writeFatEntry_eq]

@[simp] theorem writeFatEntry_ready : (vol.writeFatEntry cluster value).2.ready = vol.ready := by
  rw [writeFatEntry_eq]

@[simp] theorem writeFatEntry_fatCacheBuf :
    (vol.writeFatEntry cluster value).2.fatCacheBuf = vol.fatCacheBuf := by
  rw [writeFatEntry_eq]

theorem writeFatEntry_fatCacheSector {key : Nat}
    (h : (vol.writeFatEntry cluster value).2.fatCacheSector = some key) :
    vol.fatCacheSector = some key := by
  unfold writeFatEntry at h
  dsimp only at h
  split at h
  · exact h
  · split at h
    · cases h
    · exact h

end Frame

/-! ## The value of an entry -/

/-- The entry of a cluster on the disk, in the copy that reads use. -/
def fatValue (vol : Volume) (cluster : Nat) : Nat :=
  word vol.disk.bytes (vol.geometry.fatAddress 0 cluster) % 2 ^ 28

/-- The entry of a cluster can be read and has the given value, on the disk and
in the cache if its sector is there. -/
structure EntryIs (vol : Volume) (cluster value : Nat) : Prop where
  responds : vol.disk.responds (fatSector vol.geometry 0 cluster) = true
  onDisk : vol.fatValue cluster = value
  cached : vol.fatCacheSector = some (fatKey vol.geometry cluster) →
    word vol.fatCacheBuf (cluster * 4 % 512) % 2 ^ 28 = value

instance (vol : Volume) (cluster value : Nat) : Decidable (vol.EntryIs cluster value) :=
  decidable_of_iff (vol.disk.responds (fatSector vol.geometry 0 cluster) = true ∧
      vol.fatValue cluster = value ∧ (vol.fatCacheSector = some (fatKey vol.geometry cluster) →
        word vol.fatCacheBuf (cluster * 4 % 512) % 2 ^ 28 = value))
    ⟨fun ⟨hresponds, hdisk, hcached⟩ => ⟨hresponds, hdisk, hcached⟩,
      fun h => ⟨h.responds, h.onDisk, h.cached⟩⟩

theorem fatSector_eq_fatKey (geo : Geometry) (cluster : Nat) :
    fatSector geo 0 cluster = geo.partitionStartLba + fatKey geo cluster := by
  unfold fatSector fatKey
  omega

/-- The buffer holds a sector of the FAT as it is on the disk. -/
def Loaded (vol : Volume) (key : Nat) (buf : Buffer) : Prop :=
  ∀ i < 512, buf i = vol.disk.bytes (512 * (vol.geometry.partitionStartLba + key) + i)

theorem Loaded.word {buf : Buffer} (h : vol.Loaded (fatKey vol.geometry cluster) buf) :
    word buf (cluster * 4 % 512) % 2 ^ 28 = vol.fatValue cluster := by
  refine congrArg (fun bytes => leValue bytes % 2 ^ 28) (slice_congr fun i hi => ?_)
  rw [h _ (by omega), ← fatSector_address, fatSector_eq_fatKey, Nat.add_assoc]

/-- An entry is read from the cache, not at all, or from a sector that is loaded into the
cache. -/
inductive ReadsEntry (vol : Volume) (cluster : Nat) : Option Nat × Volume → Prop where
  | cached (hcached : vol.fatCacheSector = some (fatKey vol.geometry cluster)) :
      ReadsEntry vol cluster (some (word vol.fatCacheBuf (cluster * 4 % 512) % 2 ^ 28), vol)
  | failed (hsilent : vol.disk.responds (fatSector vol.geometry 0 cluster) = false) :
      ReadsEntry vol cluster (none, vol)
  | loaded {buf : Buffer} (hresponds : vol.disk.responds (fatSector vol.geometry 0 cluster) = true)
      (hbuf : vol.Loaded (fatKey vol.geometry cluster) buf) :
      ReadsEntry vol cluster (some (vol.fatValue cluster),
        { vol with fatCacheBuf := buf, fatCacheSector := some (fatKey vol.geometry cluster) })

theorem readsEntry (vol : Volume) (cluster : Nat) :
    ReadsEntry vol cluster (vol.readFatEntry cluster) := by
  have hlba := fatSector_eq_fatKey vol.geometry cluster
  unfold readFatEntry
  dsimp only
  split
  next hcached => exact .cached hcached
  rw [← fatKey, ← hlba]
  cases hresp : vol.disk.responds (fatSector vol.geometry 0 cluster) with
  | false =>
    rw [Disk.readSectors_one_failed hresp]
    exact .failed hresp
  | true =>
    have hbuf : vol.Loaded (fatKey vol.geometry cluster) fun i =>
        if i < 512 then vol.disk.bytes (512 * fatSector vol.geometry 0 cluster + i)
        else vol.fatCacheBuf i := by
      intro i hi
      rw [← hlba]
      exact if_pos hi
    rw [Disk.readSectors_one hresp]
    dsimp only
    rw [hbuf.word]
    exact .loaded hresp hbuf

theorem EntryIs.read (h : vol.EntryIs cluster value) :
    (vol.readFatEntry cluster).1 = some value := by
  have hread := vol.readsEntry cluster
  generalize vol.readFatEntry cluster = result at hread ⊢
  cases hread with
  | cached hcached => rw [h.cached hcached]
  | failed hsilent => simp [h.responds] at hsilent
  | loaded => rw [h.onDisk]

theorem EntryIs.readFatEntry (h : vol.EntryIs c v) (cluster : Nat) :
    (vol.readFatEntry cluster).2.EntryIs c v := by
  refine ⟨by simpa using h.responds, by simpa [fatValue] using h.onDisk, fun hcached => ?_⟩
  have hread := vol.readsEntry cluster
  generalize vol.readFatEntry cluster = result at hread hcached ⊢
  cases hread with
  | cached | failed => exact h.cached hcached
  | loaded _ hbuf =>
    -- The loaded sector is the one of `c`, so its words are those of the disk.
    rw [some.inj hcached] at hbuf
    exact hbuf.word.trans h.onDisk

theorem EntryIs.fatCacheSector_of_read (h : vol.EntryIs c v) :
    (vol.readFatEntry c).2.fatCacheSector = some (fatKey vol.geometry c) := by
  have hread := vol.readsEntry c
  generalize vol.readFatEntry c = result at hread ⊢
  cases hread with
  | cached hcached => exact hcached
  | failed hsilent => simp [h.responds] at hsilent
  | loaded => rfl

/-- Away from LBA 0 a write leaves its own sector in the cache. -/
theorem writeFatEntry_keeps_cache (value : Nat) (hmoved : vol.geometry.partitionStartLba ≠ 0)
    (h : vol.fatCacheSector = some (fatKey vol.geometry c)) :
    (vol.writeFatEntry c value).2.fatCacheSector = some (fatKey vol.geometry c) := by
  unfold writeFatEntry
  dsimp only
  split
  · exact h
  refine (if_neg ?_).trans h
  rw [h]
  intro heq
  have hkeys := some.inj heq
  unfold fatKey at hkeys
  omega

/-- Away from LBA 0, an entry that has been read keeps being read with its old
value after a write. -/
theorem EntryIs.read_after_write (h : vol.EntryIs c v)
    (hmoved : vol.geometry.partitionStartLba ≠ 0) (value : Nat) :
    (((vol.readFatEntry c).2.writeFatEntry c value).2.readFatEntry c).1 = some v := by
  have hloaded : (vol.readFatEntry c).2.fatCacheSector =
      some (fatKey (vol.readFatEntry c).2.geometry c) := by
    rw [h.fatCacheSector_of_read, readFatEntry_geometry]
  have hkept := writeFatEntry_keeps_cache value
    (by rw [readFatEntry_geometry]; exact hmoved) hloaded
  rw [Volume.readFatEntry, if_pos (by rw [hkept, writeFatEntry_geometry]; rfl),
    writeFatEntry_fatCacheBuf, (h.readFatEntry c).cached hloaded]

theorem fatValue_writeFatEntry_of_ne (value : Nat) (hc : vol.geometry.InFat c) (hne : c ≠ cluster) :
    (vol.writeFatEntry cluster value).2.fatValue c = vol.fatValue c := by
  rw [fatValue, writeFatEntry_disk, writeFatEntry_geometry]
  refine congrArg (fun bytes => leValue bytes % 2 ^ 28) (slice_congr fun i hi => ?_)
  refine writeFatCopies_outside fun copy _ _ _ => ?_
  have hwords : vol.geometry.fatAddress 0 c + 4 ≤ vol.geometry.fatAddress copy cluster ∨
      vol.geometry.fatAddress copy cluster + 4 ≤ vol.geometry.fatAddress 0 c :=
    vol.geometry.fatAddress_ne hc hne
  omega

theorem EntryIs.writeFatEntry (h : vol.EntryIs c v) (value : Nat) (hc : vol.geometry.InFat c)
    (hne : c ≠ cluster) : (vol.writeFatEntry cluster value).2.EntryIs c v := by
  refine ⟨by simpa using h.responds, ?_, fun hcached => ?_⟩
  · rw [fatValue_writeFatEntry_of_ne value hc hne, h.onDisk]
  · rw [writeFatEntry_geometry] at hcached
    rw [writeFatEntry_fatCacheBuf]
    exact h.cached (vol.writeFatEntry_fatCacheSector cluster value hcached)

/-- What the cache must satisfy for reads to see the disk: every entry of the
FAT can be read, with the value it has on the disk. -/
def Coherent (vol : Volume) : Prop :=
  ∀ cluster, vol.geometry.InFat cluster → vol.EntryIs cluster (vol.fatValue cluster)

/-- Every sector of every copy of the FAT responds. -/
def FatResponds (vol : Volume) : Prop :=
  ∀ copy cluster, copy < vol.geometry.numFats → vol.geometry.InFat cluster →
    vol.disk.responds (fatSector vol.geometry copy cluster) = true

theorem FatResponds.coherent (h : vol.FatResponds) (hempty : vol.fatCacheSector = none) :
    vol.Coherent :=
  fun cluster hcluster =>
    ⟨h 0 cluster vol.geometry.numFats_pos hcluster, rfl, fun hcached => by simp [hempty] at hcached⟩

theorem writeFatEntry_ok (hfat : vol.FatResponds) (value : Nat)
    (hcluster : vol.geometry.InFat cluster) : (vol.writeFatEntry cluster value).1 = true := by
  have hok : (writeFatCopies vol.geometry cluster value vol.geometry.numFats 0 vol.disk).1 =
      true :=
    writeFatCopies_ok fun copy _ hcopy => hfat copy cluster (by omega) hcluster
  unfold writeFatEntry
  dsimp only
  split
  next h => simp [h] at hok
  · rfl

theorem FatResponds.readFatEntry (h : vol.FatResponds) (cluster : Nat) :
    (vol.readFatEntry cluster).2.FatResponds := by
  simpa [FatResponds] using h

theorem FatResponds.writeFatEntry (h : vol.FatResponds) (cluster value : Nat) :
    (vol.writeFatEntry cluster value).2.FatResponds := by
  simpa [FatResponds] using h

theorem Coherent.readFatEntry (h : vol.Coherent) (cluster : Nat) :
    (vol.readFatEntry cluster).2.Coherent := by
  intro c hc
  rw [readFatEntry_geometry] at hc
  have hvalue : (vol.readFatEntry cluster).2.fatValue c = vol.fatValue c := by
    simp [fatValue]
  rw [hvalue]
  exact (h c hc).readFatEntry cluster

theorem fatValue_writeFatEntry_self (value : Nat)
    (hresp : vol.disk.responds (fatSector vol.geometry 0 cluster) = true) :
    (vol.writeFatEntry cluster value).2.fatValue cluster = value % 2 ^ 28 := by
  have hreach : CopyReached vol.disk vol.geometry 0 0 cluster := by
    intro _ _ hj
    rwa [Nat.le_zero.mp hj]
  have hpos := vol.geometry.numFats_pos
  have hword := word_lt vol.disk.bytes (vol.geometry.fatAddress 0 cluster)
  rw [fatValue, writeFatEntry_geometry, word, writeFatEntry_disk,
    writeFatCopies_inside (Nat.le_refl 0) (by omega) hreach, leValue_leBytes, mergeEntry]
  omega

theorem fatValue_writeFatEntry_failed (value : Nat)
    (hresp : vol.disk.responds (fatSector vol.geometry 0 cluster) = false) :
    (vol.writeFatEntry cluster value).2.fatValue cluster = vol.fatValue cluster := by
  rw [fatValue, writeFatEntry_disk, writeFatEntry_geometry]
  refine congrArg (fun bytes => leValue bytes % 2 ^ 28) (slice_congr fun i _ => ?_)
  refine writeFatCopies_outside fun copy _ _ hreach => ?_
  have hfirst := hreach 0 (Nat.le_refl 0) (Nat.zero_le copy)
  rw [hresp] at hfirst
  cases hfirst

/-- On a partition that starts at LBA 0, a write drops its sector from the
cache. -/
theorem Coherent.writeFatEntry (h : vol.Coherent) (hfat : vol.FatResponds)
    (hstart : vol.geometry.partitionStartLba = 0) (cluster value : Nat) :
    (vol.writeFatEntry cluster value).2.Coherent := by
  intro c hc
  rw [writeFatEntry_geometry] at hc
  obtain rfl | heq := eq_or_ne c cluster
  · refine ⟨by simpa using (h c hc).responds, rfl, fun hcached => ?_⟩
    -- Every copy responds, so the invalidation is reached; with the partition
    -- at LBA 0 it compares the same number the cache is keyed by.
    have hok := writeFatEntry_ok hfat value hc
    unfold Volume.writeFatEntry at hok hcached
    dsimp only at hok hcached
    split at hcached
    next hfailed => simp [hfailed] at hok
    · rw [hstart, Nat.zero_add] at hcached
      split at hcached
      · cases hcached
      · contradiction
  · rw [fatValue_writeFatEntry_of_ne value hc heq]
    exact (h c hc).writeFatEntry value hc heq

end Volume

/-! ## Sequences of reads and writes -/

/-- A call on the FAT. -/
inductive FatCall where
  | read (cluster : Nat)
  | write (cluster value : Nat)
  deriving Repr, DecidableEq

/-- A volume together with what each entry was last set to. -/
structure FatHistory where
  vol : Volume
  lastWritten : Nat → Nat

namespace FatHistory

variable {history : FatHistory}

/-- No entry has been written yet: each has its value on the disk. -/
def start (vol : Volume) : FatHistory := ⟨vol, vol.fatValue⟩

/-- The calls considered are those on clusters whose sector lies inside the
FAT. -/
def step (history : FatHistory) : FatCall → Option FatHistory
  | .read cluster =>
    if history.vol.geometry.InFat cluster then
      some { history with vol := (history.vol.readFatEntry cluster).2 }
    else none
  | .write cluster value =>
    if history.vol.geometry.InFat cluster then
      some
        { vol := (history.vol.writeFatEntry cluster value).2
          lastWritten := update history.lastWritten cluster (value % 2 ^ 28) }
    else none

/-- A read inside the FAT returns what was last written. -/
def ReadsCurrent (history : FatHistory) : FatCall → Prop
  | .read cluster => history.vol.geometry.InFat cluster →
      (history.vol.readFatEntry cluster).1 = some (history.lastWritten cluster)
  | .write _ _ => True

/-- Every entry reads as what was last written to it. -/
structure Current (history : FatHistory) : Prop where
  atZero : history.vol.geometry.partitionStartLba = 0
  responds : history.vol.FatResponds
  coherent : history.vol.Coherent
  onDisk : ∀ cluster, history.vol.geometry.InFat cluster →
    history.vol.fatValue cluster = history.lastWritten cluster

theorem Current.step {next : FatHistory} {call : FatCall} (h : history.Current)
    (hstep : history.step call = some next) : next.Current := by
  cases call with
  | read cluster =>
    simp only [FatHistory.step, ite_none_right_eq_some, some.injEq] at hstep
    obtain ⟨_, rfl⟩ := hstep
    exact ⟨by simpa using h.atZero, h.responds.readFatEntry cluster,
      h.coherent.readFatEntry cluster, by simpa [fatValue] using h.onDisk⟩
  | write cluster value =>
    simp only [FatHistory.step, ite_none_right_eq_some, some.injEq] at hstep
    obtain ⟨_, rfl⟩ := hstep
    refine ⟨by simpa using h.atZero, h.responds.writeFatEntry cluster value,
      h.coherent.writeFatEntry h.responds h.atZero cluster value, ?_⟩
    intro c hc
    rw [Volume.writeFatEntry_geometry] at hc
    obtain rfl | heq := eq_or_ne c cluster
    · dsimp only
      rw [update_self]
      exact fatValue_writeFatEntry_self value (h.coherent c hc).responds
    · dsimp only
      rw [update_of_ne heq, ← h.onDisk c hc]
      exact fatValue_writeFatEntry_of_ne value hc heq

theorem Current.readsCurrent (h : history.Current) (call : FatCall) :
    history.ReadsCurrent call := by
  cases call with
  | read cluster =>
    intro hcluster
    rw [(h.coherent cluster hcluster).read, h.onDisk cluster hcluster]
  | write _ _ => trivial

/-- A read, a write of another value and a read of the same entry observe the
stale cache on every partition that does not start at LBA 0. -/
theorem stale_of_partition_moved {vol : Volume} (hcoherent : vol.Coherent)
    (hmoved : vol.geometry.partitionStartLba ≠ 0) :
    ¬ Along step ReadsCurrent (start vol)
      [.read 0, .write 0 (vol.fatValue 0 + 1), .read 0] := by
  intro h
  have hin : vol.geometry.InFat 0 := by
    have hcovers := vol.geometry.fat_covers
    unfold Geometry.InFat
    omega
  have hafterRead := h.tail (show step (start vol) (.read 0) =
      some ⟨(vol.readFatEntry 0).2, vol.fatValue⟩ from if_pos hin)
  have hafterWrite := hafterRead.tail (if_pos (by rw [readFatEntry_geometry]; exact hin))
  have hread := hafterWrite.head (by simpa using hin)
  dsimp only at hread
  rw [(hcoherent 0 hin).read_after_write hmoved, update_self] at hread
  have hsame := some.inj hread
  omega

/-- **When the FAT cache is never observed stale.**  On a volume whose FAT
responds and whose cache is coherent at the start, every sequence of reads and
writes of entries inside the FAT reads the value last written, exactly when the
partition starts at LBA 0. -/
theorem reads_current_iff_partition_at_zero (vol : Volume) (hfat : vol.FatResponds)
    (hcoherent : vol.Coherent) :
    (∀ calls : List FatCall, Along step ReadsCurrent (start vol) calls) ↔
      vol.geometry.partitionStartLba = 0 := by
  constructor
  · intro h
    by_contra hmoved
    exact stale_of_partition_moved hcoherent hmoved (h _)
  intro hzero calls
  have hstart : (start vol).Current := ⟨hzero, hfat, hcoherent, fun _ _ => rfl⟩
  exact along_of_preserved (fun _ _ _ h hstep => h.step hstep)
    (fun _ call h => h.readsCurrent call) calls (start vol) hstart

theorem blankVolume_fatResponds {partitionStartLba : Nat} (h : partitionStartLba < 62) :
    (blankVolume partitionStartLba).FatResponds := by
  intro copy cluster hcopy hcluster
  have hcopy' : copy < 1 := hcopy
  have hcluster' : cluster < 128 := hcluster
  refine decide_eq_true ?_
  simp only [fatSector, blankVolume, smallGeometry]
  omega

/-- On the small volume at LBA 0, no sequence of calls observes a stale entry. -/
theorem reads_current_on_blank :
    (blankVolume 0).FatResponds ∧ (blankVolume 0).Coherent ∧
      ∀ calls : List FatCall, Along step ReadsCurrent (start (blankVolume 0)) calls := by
  have hfat : (blankVolume 0).FatResponds := blankVolume_fatResponds (by decide)
  have hcoherent : (blankVolume 0).Coherent := hfat.coherent rfl
  exact ⟨hfat, hcoherent,
    (reads_current_iff_partition_at_zero (blankVolume 0) hfat hcoherent).mpr rfl⟩

/-- The same volume one sector further on: entry 2 is read, set to 5 and read
again, and the second read still returns 0. -/
theorem moved_partition_reads_stale :
    (blankVolume 1).FatResponds ∧ (blankVolume 1).Coherent ∧
      ¬ Along step ReadsCurrent (start (blankVolume 1)) [.read 2, .write 2 5, .read 2] := by
  refine ⟨blankVolume_fatResponds (by decide),
    (blankVolume_fatResponds (by decide)).coherent rfl, ?_⟩
  rintro ⟨_, _, hread, _⟩
  have hstale : ((((blankVolume 1).readFatEntry 2).2.writeFatEntry 2 5).2.readFatEntry 2).1 =
      some 0 := by decide +kernel
  have hexpected := (hread (by decide)).symm.trans hstale
  cases hexpected

end FatHistory

end Bazzulto.Fat32
