/-
  Fat32/Cluster.lean --- what reading and writing clusters changes.

  The clusters lie behind every copy of the FAT, so an operation that writes
  clusters only leaves the FAT, the bitmap and every other cluster alone.
  `DataOnly touched vol vol'` says this of an operation that wrote no cluster
  outside `touched`; with no cluster touched it is what an operation that only
  reads does.  `FatOnly written vol vol'` is the counterpart for operations on
  the FAT and the bitmap: they change the words, the bits and the readable
  entries of the clusters in `written` only.  Both compose, which is how they
  are established for loops.
-/
import Bazzulto.Fat32.File

set_option autoImplicit false

namespace Bazzulto.Fat32

open Bazzulto.Foundation List Disk Nat

namespace Volume

variable {vol vol' : Volume} {clusters : List Nat} {marker cluster i c : Nat}

/-- From `vol` to `vol'` only the bytes of the touched clusters, the cluster
buffer and the cache have changed, and the cache still tells the truth about
every entry it told the truth about. -/
structure DataOnly (touched : Nat → Prop) (vol vol' : Volume) : Prop where
  geometry : vol'.geometry = vol.geometry
  responds : vol'.disk.responds = vol.disk.responds
  fatBitmap : vol'.fatBitmap = vol.fatBitmap
  freeClusters : vol'.freeClusters = vol.freeClusters
  ready : vol'.ready = vol.ready
  entries : ∀ c v, vol.geometry.InFat c → vol.EntryIs c v → vol'.EntryIs c v
  bytes : ∀ i, (∀ c, touched c → i < vol.geometry.clusterAddress c ∨
    vol.geometry.clusterAddress c + vol.geometry.bytesPerCluster ≤ i) →
    vol'.disk.bytes i = vol.disk.bytes i

namespace DataOnly

variable {touched : Nat → Prop} {vol'' : Volume}

theorem refl (touched : Nat → Prop) (vol : Volume) : DataOnly touched vol vol :=
  ⟨rfl, rfl, rfl, rfl, rfl, fun _ _ _ h => h, fun _ _ => rfl⟩

theorem trans (h : DataOnly touched vol vol') (h' : DataOnly touched vol' vol'') :
    DataOnly touched vol vol'' where
  geometry := h'.geometry.trans h.geometry
  responds := h'.responds.trans h.responds
  fatBitmap := h'.fatBitmap.trans h.fatBitmap
  freeClusters := h'.freeClusters.trans h.freeClusters
  ready := h'.ready.trans h.ready
  entries := fun c v hc hentry =>
    h'.entries c v (by rw [h.geometry]; exact hc) (h.entries c v hc hentry)
  bytes := fun i hi =>
    (h'.bytes i (by rw [h.geometry]; exact hi)).trans (h.bytes i hi)

theorem mono {touched' : Nat → Prop} (h : DataOnly touched vol vol')
    (hsub : ∀ c, touched c → touched' c) : DataOnly touched' vol vol' :=
  { h with bytes := fun i hi => h.bytes i fun c hc => hi c (hsub c hc) }

theorem weaken (h : DataOnly (fun _ => False) vol vol') : DataOnly touched vol vol' :=
  h.mono fun _ hc => hc.elim

theorem disk_eq (h : DataOnly (fun _ => False) vol vol') : vol'.disk = vol.disk := by
  have hbytes : vol'.disk.bytes = vol.disk.bytes :=
    funext fun i => h.bytes i fun _ hc => hc.elim
  have hresp := h.responds
  cases hd' : vol'.disk
  cases hd : vol.disk
  rw [hd', hd] at hbytes hresp
  subst hbytes hresp
  rfl

section

variable (h : DataOnly touched vol vol')
include h

theorem clusterByte {r : Nat} (hdata : 2 ≤ cluster)
    (hr : r < vol.geometry.bytesPerCluster) (htouched : ∀ t, touched t → 2 ≤ t ∧ t ≠ cluster) :
    vol'.disk.bytes (vol.geometry.clusterAddress cluster + r) =
      vol.disk.bytes (vol.geometry.clusterAddress cluster + r) := by
  refine h.bytes _ fun t ht => ?_
  obtain ⟨ht', hne⟩ := htouched t ht
  have hapart := vol.geometry.clusterAddress_apart ht' hdata hne
  omega

theorem chain (hchain : vol.Chain clusters marker) : vol'.Chain clusters marker :=
  hchain.of_entries h.geometry fun c hc v hentry =>
    h.entries c v (hchain.valid c hc).inFat hentry

theorem fatResponds (hfat : vol.FatResponds) : vol'.FatResponds := by
  simpa [FatResponds, h.geometry, h.responds] using hfat

theorem coherent (hcoherent : vol.Coherent) : vol'.Coherent := by
  intro c hc
  rw [h.geometry] at hc
  have hentry := h.entries c _ hc (hcoherent c hc)
  rwa [hentry.onDisk]

end

end DataOnly

/-! ## Operations that only read -/

theorem readFatEntry_dataOnly (vol : Volume) (cluster : Nat) :
    DataOnly (fun _ => False) vol (vol.readFatEntry cluster).2 where
  geometry := by simp
  responds := by simp
  fatBitmap := by simp
  freeClusters := by simp
  ready := by simp
  entries := fun _ _ _ h => h.readFatEntry cluster
  bytes := fun _ _ => by simp

theorem clusterAtIndex_dataOnly (index : Nat) (vol : Volume) (cluster : Nat) :
    DataOnly (fun _ => False) vol (clusterAtIndex index vol cluster).2 := by
  induction index generalizing vol cluster with
  | zero => exact DataOnly.refl _ vol
  | succ index ih =>
    unfold clusterAtIndex
    have hread := readFatEntry_dataOnly vol cluster
    split
    · exact DataOnly.refl _ vol
    split
    next hnone =>
      rw [hnone] at hread
      exact hread
    next next vol' hsome =>
      rw [hsome] at hread
      exact hread.trans (ih vol' next)

/-- Walking a chain reaches its clusters in order, and then the marker. -/
theorem clusterAtIndex_of_chain {index : Nat} (h : vol.Chain clusters marker)
    (hidx : index ≤ clusters.length) :
    (clusterAtIndex index vol (clusters.headD marker)).1 =
      some ((clusters.drop index).headD marker) := by
  induction index generalizing vol clusters with
  | zero => rfl
  | succ index ih =>
    cases clusters with
    | nil => simp at hidx
    | cons cluster rest =>
      have hvalid := h.valid cluster mem_cons_self
      have hrest := ((readFatEntry_dataOnly vol cluster).chain h).tail
      rw [headD_cons, clusterAtIndex, if_neg (by simp [hvalid.not_isEof, hvalid.not_isBad]),
        h.readFatEntry_head]
      dsimp only
      rw [ih hrest (by simpa using hidx), drop_succ_cons]

/-! ## Operations on one cluster -/

theorem readCluster_eq (vol : Volume) (cluster : Nat) : (vol.readCluster cluster).2 =
    { vol with clusterBuf := (vol.readCluster cluster).2.clusterBuf } := by
  unfold readCluster
  split <;> rfl

theorem dataOnly_clusterBuf (vol : Volume) (buf : Buffer) :
    DataOnly (fun _ => False) vol { vol with clusterBuf := buf } :=
  ⟨rfl, rfl, rfl, rfl, rfl, fun _ _ _ h => h.congr rfl rfl rfl rfl, fun _ _ => rfl⟩

section

variable (vol : Volume) (cluster : Nat)

theorem readCluster_dataOnly : DataOnly (fun _ => False) vol (vol.readCluster cluster).2 := by
  rw [readCluster_eq]
  exact dataOnly_clusterBuf vol _

theorem writeCluster_eq : (vol.writeCluster cluster).2 =
    { vol with disk := (vol.writeCluster cluster).2.disk } := by
  unfold writeCluster
  split <;> rfl

theorem writeCluster_responds : (vol.writeCluster cluster).2.disk.responds = vol.disk.responds := by
  unfold writeCluster
  split
  · rfl
  · exact writeSectors_responds _ _ _ _ _

end

theorem writeCluster_outside
    (hi : i < vol.geometry.clusterAddress cluster ∨
      vol.geometry.clusterAddress cluster + vol.geometry.bytesPerCluster ≤ i) :
    (vol.writeCluster cluster).2.disk.bytes i = vol.disk.bytes i := by
  unfold writeCluster
  split
  · rfl
  · refine writeSectors_outside ?_
    unfold Geometry.clusterAddress Geometry.bytesPerCluster at hi
    omega

theorem fatAddress_add_lt (geo : Geometry) (hc : geo.InFat c) (hi : i < 4) :
    geo.fatAddress 0 c + i < geo.clusterAddress cluster := by
  have h : geo.fatAddress 0 c + 4 ≤ geo.clusterAddress cluster :=
    geo.fatAddress_lt_clusterAddress geo.numFats_pos hc
  omega

theorem writeCluster_dataOnly (vol : Volume) (cluster : Nat) :
    DataOnly (· = cluster) vol (vol.writeCluster cluster).2 where
  geometry := by rw [writeCluster_eq]
  responds := writeCluster_responds vol cluster
  fatBitmap := by rw [writeCluster_eq]
  freeClusters := by rw [writeCluster_eq]
  ready := by rw [writeCluster_eq]
  entries := by
    intro _ _ hc h
    have hgeo : (vol.writeCluster cluster).2.geometry = vol.geometry := by
      rw [writeCluster_eq]
    refine ⟨?_, ?_, ?_⟩
    · rw [writeCluster_responds, hgeo]
      exact h.responds
    · rw [← h.onDisk, fatValue, hgeo]
      refine congrArg (fun bytes => leValue bytes % 2 ^ 28) (slice_congr fun i hi => ?_)
      exact writeCluster_outside (.inl (fatAddress_add_lt _ hc hi))
    · rw [writeCluster_eq]
      exact h.cached
  bytes := fun _ hi => writeCluster_outside (hi cluster rfl)

theorem writeChunk_dataOnly (vol : Volume) (cluster offset : Nat) (chunk : List UInt8) :
    DataOnly (· = cluster) vol (vol.writeChunk cluster offset chunk).2 := by
  have hread := (readCluster_dataOnly vol cluster).trans (dataOnly_clusterBuf _
    (splice (vol.readCluster cluster).2.clusterBuf offset chunk))
  exact hread.weaken.trans (writeCluster_dataOnly _ cluster)

theorem updateDirEntrySize_dataOnly (vol : Volume) (file : FileInode) :
    DataOnly (· = file.dirCluster) vol (vol.updateDirEntrySize file) := by
  have hread : DataOnly (· = file.dirCluster) vol (vol.readCluster file.dirCluster).2 :=
    (readCluster_dataOnly vol file.dirCluster).weaken
  unfold updateDirEntrySize
  split
  next hfailed =>
    rw [hfailed] at hread
    exact hread
  next vol' hok =>
    rw [hok] at hread
    dsimp only
    split
    · exact hread
    have hpatched := dataOnly_clusterBuf vol' (patchEntry vol'.clusterBuf
      (file.dirEntryIndex * 32) file.firstCluster file.fileSize)
    exact (hread.trans hpatched.weaken).trans
      (writeCluster_dataOnly _ file.dirCluster)

/-! ## Clusters that respond -/

/-- All sectors of the cluster respond. -/
def ClusterResponds (vol : Volume) (cluster : Nat) : Prop :=
  ∀ i < vol.geometry.sectorsPerCluster,
    vol.disk.responds (vol.geometry.partitionStartLba + vol.geometry.clusterLba cluster + i) = true

theorem DataOnly.clusterResponds {touched : Nat → Prop} (h : DataOnly touched vol vol')
    (hcluster : vol.ClusterResponds cluster) : vol'.ClusterResponds cluster := by
  simpa [ClusterResponds, h.geometry, h.responds] using hcluster

theorem sectors_fit (vol : Volume) : ¬ (vol.geometry.sectorsPerCluster = 0 ∨
    512 * vol.geometry.sectorsPerCluster < vol.geometry.sectorsPerCluster * 512) := by
  have hpos := vol.geometry.sectorsPerCluster_pos
  omega

theorem readCluster_of_responds (hdata : 2 ≤ cluster) (h : vol.ClusterResponds cluster) :
    vol.readCluster cluster = (true,
        { vol with
          clusterBuf := fun i =>
            if i < vol.geometry.bytesPerCluster then
              vol.disk.bytes (vol.geometry.clusterAddress cluster + i)
            else vol.clusterBuf i }) := by
  have hlow : ¬ cluster < firstDataCluster := not_lt.mpr hdata
  simp only [readCluster, readSectors, Geometry.bytesPerCluster, if_neg hlow,
    if_neg vol.sectors_fit, transferred_of_responds h, beq_self_eq_true]
  rfl

theorem clusterResponds_of_readCluster (h : (vol.readCluster cluster).1 = true) :
    vol.ClusterResponds cluster := by
  unfold readCluster readSectors at h
  split at h
  · cases h
  dsimp only at h
  split at h
  · cases h
  · exact responds_of_transferred (by simpa using h)

theorem writeCluster_of_responds (hdata : 2 ≤ cluster) (h : vol.ClusterResponds cluster) :
    vol.writeCluster cluster = (true,
        { vol with
          disk :=
            { vol.disk with
              bytes := overlay vol.disk.bytes (vol.geometry.clusterAddress cluster)
                vol.geometry.bytesPerCluster vol.clusterBuf } }) := by
  have hlow : ¬ cluster < firstDataCluster := not_lt.mpr hdata
  simp only [writeCluster, writeSectors, Geometry.bytesPerCluster, if_neg hlow,
    if_neg vol.sectors_fit, transferred_of_responds h, beq_self_eq_true,
    Geometry.clusterAddress, mul_add]
  rfl

theorem writeCluster_edited (hdata : 2 ≤ cluster) (h : vol.ClusterResponds cluster) (buf : Buffer) :
    { vol with clusterBuf := buf }.writeCluster cluster = (true,
        { vol with
          clusterBuf := buf
          disk :=
            { vol.disk with
              bytes := overlay vol.disk.bytes (vol.geometry.clusterAddress cluster)
                vol.geometry.bytesPerCluster buf } }) := by
  have h' : { vol with clusterBuf := buf }.ClusterResponds cluster := h
  rw [writeCluster_of_responds hdata h']

theorem overlay_cluster (vol : Volume) (cluster : Nat) :
    overlay vol.disk.bytes (vol.geometry.clusterAddress cluster) vol.geometry.bytesPerCluster
      (fun i => if i < vol.geometry.bytesPerCluster then
        vol.disk.bytes (vol.geometry.clusterAddress cluster + i) else vol.clusterBuf i) =
      vol.disk.bytes :=
  overlay_self fun _ hi => if_pos hi

theorem writeChunk_of_responds {offset : Nat} {chunk : List UInt8} (hdata : 2 ≤ cluster)
    (h : vol.ClusterResponds cluster)
    (hfits : offset + chunk.length ≤ vol.geometry.bytesPerCluster) :
    (vol.writeChunk cluster offset chunk).1 = true ∧
      (vol.writeChunk cluster offset chunk).2.disk.bytes =
        splice vol.disk.bytes (vol.geometry.clusterAddress cluster + offset) chunk := by
  unfold writeChunk
  rw [readCluster_of_responds hdata h]
  rw [writeCluster_edited hdata h]
  exact ⟨rfl, by rw [overlay_splice hfits, overlay_cluster]⟩

theorem overlay_patchEntry {buf window : Buffer} {start len entryOffset : Nat}
    (firstCluster fileSize : Nat) (h : entryOffset + 32 ≤ len) :
    overlay buf start len (patchEntry window entryOffset firstCluster fileSize) =
      patchEntry (overlay buf start len window) (start + entryOffset) firstCluster fileSize := by
  unfold patchEntry
  rw [overlay_splice (by rw [leBytes_length]; omega),
    overlay_splice (by rw [leBytes_length]; omega),
    overlay_splice (by rw [leBytes_length]; omega)]
  simp [add_assoc]

theorem updateDirEntrySize_of_responds {file : FileInode} (hdata : 2 ≤ file.dirCluster)
    (h : vol.ClusterResponds file.dirCluster)
    (hfits : file.dirEntryIndex * 32 + 32 ≤ vol.geometry.bytesPerCluster) :
    (vol.updateDirEntrySize file).disk.bytes = patchEntry vol.disk.bytes
        (vol.geometry.clusterAddress file.dirCluster + file.dirEntryIndex * 32)
        file.firstCluster file.fileSize := by
  unfold updateDirEntrySize
  rw [readCluster_of_responds hdata h]
  dsimp only
  rw [if_neg (by omega), writeCluster_edited hdata h]
  exact (overlay_patchEntry _ _ hfits).trans (by rw [overlay_cluster])

/-! ## Operations on the FAT and the bitmap -/

/-- From `vol` to `vol'` only the entries of the written clusters, on the disk
and in the bitmap, have changed.  A number that is no cluster of the volume
counts as written where its entry would be. -/
structure FatOnly (written : List Nat) (vol vol' : Volume) : Prop where
  geometry : vol'.geometry = vol.geometry
  responds : vol'.disk.responds = vol.disk.responds
  ready : vol'.ready = vol.ready
  entries : ∀ c v, vol.geometry.InFat c → c ∉ written → vol.EntryIs c v → vol'.EntryIs c v
  used : ∀ c, 2 ≤ c → c ∉ written → (vol'.Used c ↔ vol.Used c)
  bytes : ∀ i, (∀ copy < vol.geometry.numFats, ∀ c ∈ written,
    i < vol.geometry.fatAddress copy c ∨ vol.geometry.fatAddress copy c + 4 ≤ i) →
    vol'.disk.bytes i = vol.disk.bytes i
  coherent : vol.geometry.partitionStartLba = 0 → vol.FatResponds → vol.Coherent → vol'.Coherent

namespace FatOnly

variable {written written' : List Nat} {vol'' : Volume}

section

variable (h : FatOnly written vol vol')
include h

theorem fatResponds (hfat : vol.FatResponds) : vol'.FatResponds := by
  simpa [FatResponds, h.geometry, h.responds] using hfat

theorem clusterResponds (hcluster : vol.ClusterResponds cluster) :
    vol'.ClusterResponds cluster := by
  simpa [ClusterResponds, h.geometry, h.responds] using hcluster

theorem mono (hsub : ∀ c ∈ written, c ∈ written') : FatOnly written' vol vol' :=
  { h with
    entries := fun c v hc hmem => h.entries c v hc fun hin => hmem (hsub c hin)
    used := fun c hc hmem => h.used c hc fun hin => hmem (hsub c hin)
    bytes := fun i hi => h.bytes i fun copy hcopy c hc => hi copy hcopy c (hsub c hc) }

theorem trans (h' : FatOnly written' vol' vol'') :
    FatOnly (written ++ written') vol vol'' where
  geometry := h'.geometry.trans h.geometry
  responds := h'.responds.trans h.responds
  ready := h'.ready.trans h.ready
  entries := by
    intro c v hc hmem hentry
    rw [mem_append, not_or] at hmem
    exact h'.entries c v (by rw [h.geometry]; exact hc) hmem.2 (h.entries c v hc hmem.1 hentry)
  used := by
    intro c hc hmem
    rw [mem_append, not_or] at hmem
    exact (h'.used c hc hmem.2).trans (h.used c hc hmem.1)
  bytes := by
    intro i hi
    rw [h'.bytes i, h.bytes i]
    · exact fun copy hcopy c hc => hi copy hcopy c (mem_append_left _ hc)
    · rw [h.geometry]
      exact fun copy hcopy c hc => hi copy hcopy c (mem_append_right _ hc)
  coherent := fun hzero hfat hcoherent =>
    h'.coherent (by rw [h.geometry]; exact hzero) (h.fatResponds hfat)
      (h.coherent hzero hfat hcoherent)

theorem clusterByte {r : Nat}
    (hwritten : ∀ c ∈ written, vol.geometry.InFat c ∨ ∀ copy < vol.geometry.numFats,
      vol.geometry.clusterAddress cluster + r < vol.geometry.fatAddress copy c ∨
        vol.geometry.fatAddress copy c + 4 ≤ vol.geometry.clusterAddress cluster + r) :
    vol'.disk.bytes (vol.geometry.clusterAddress cluster + r) =
      vol.disk.bytes (vol.geometry.clusterAddress cluster + r) := by
  refine h.bytes _ fun copy hcopy c hc => ?_
  rcases hwritten c hc with hin | hout
  · have hfat : vol.geometry.fatAddress copy c + 4 ≤ vol.geometry.clusterAddress cluster :=
      vol.geometry.fatAddress_lt_clusterAddress hcopy hin
    omega
  · exact hout copy hcopy

theorem chain (hchain : vol.Chain clusters marker)
    (hkeep : ∀ c ∈ clusters, c ∉ written) : vol'.Chain clusters marker :=
  hchain.of_entries h.geometry fun c hc v hentry =>
    h.entries c v (hchain.valid c hc).inFat (hkeep c hc) hentry

end

end FatOnly

theorem DataOnly.fatOnly (h : DataOnly (fun _ => False) vol vol') :
    FatOnly [] vol vol' where
  geometry := h.geometry
  responds := h.responds
  ready := h.ready
  entries := fun c v hc _ hentry => h.entries c v hc hentry
  used := fun c _ _ => by rw [Used, Used, h.fatBitmap]
  bytes := fun _ _ => by rw [h.disk_eq]
  coherent := fun _ _ hcoherent => h.coherent hcoherent

theorem writeFatEntry_fatOnly (vol : Volume) (cluster value : Nat) :
    FatOnly [cluster] vol (vol.writeFatEntry cluster value).2 where
  geometry := by simp
  responds := by simp
  ready := by simp
  entries := fun c v hc hne hentry =>
    hentry.writeFatEntry value hc fun heq => hne (by simp [heq])
  used := fun c _ _ => by simp [Used]
  bytes := fun i hi => by
    rw [writeFatEntry_disk]
    exact writeFatCopies_outside fun copy _ hcopy _ => hi copy (by omega) cluster (by simp)
  coherent := fun hzero hfat hcoherent =>
    hcoherent.writeFatEntry hfat hzero cluster value

/-- Changing the bit of one cluster. -/
theorem fatOnly_bit {bitmap : Nat → Bool}
    (h : ∀ c, 2 ≤ c → c ≠ cluster → bitmap (c - firstDataCluster) =
      vol.fatBitmap (c - firstDataCluster)) :
    FatOnly [cluster] vol { vol with fatBitmap := bitmap } where
  geometry := rfl
  responds := rfl
  ready := rfl
  entries := fun _ _ _ _ hentry => hentry.congr rfl rfl rfl rfl
  used := fun c hc hne => by
    unfold Used
    dsimp only
    rw [h c hc fun heq => hne (by simp [heq])]
  bytes := fun _ _ => rfl
  coherent := fun _ _ hcoherent c hc => (hcoherent c hc).congr rfl rfl rfl rfl

theorem update_bit_of_ne (bitmap : Nat → Bool) (value : Bool) (hc : 2 ≤ c)
    (hcluster : 2 ≤ cluster) (hne : c ≠ cluster) :
    Function.update bitmap (cluster - firstDataCluster) value (c - firstDataCluster) =
      bitmap (c - firstDataCluster) :=
  Function.update_of_ne (by unfold firstDataCluster; omega) _ _

section

variable (vol : Volume)

theorem bitmapSet_fatOnly (cluster : Nat) : FatOnly [cluster] vol (vol.bitmapSet cluster) := by
  unfold bitmapSet
  split
  next hvalid => exact fatOnly_bit fun c hc hne => update_bit_of_ne _ _ hc hvalid.1 hne
  · exact (DataOnly.refl _ vol).fatOnly.mono (by simp)

theorem bitmapClear_fatOnly (cluster : Nat) : FatOnly [cluster] vol (vol.bitmapClear cluster) := by
  unfold bitmapClear
  split
  next hvalid => exact fatOnly_bit fun c hc hne => update_bit_of_ne _ _ hc hvalid.1 hne
  · exact (DataOnly.refl _ vol).fatOnly.mono (by simp)

theorem fatOnly_count (count : Nat) : FatOnly [] vol { vol with freeClusters := count } :=
  ⟨rfl, rfl, rfl, fun _ _ _ _ h => h.congr rfl rfl rfl rfl, fun _ _ _ => Iff.rfl,
    fun _ _ => rfl, fun _ _ h c hc => (h c hc).congr rfl rfl rfl rfl⟩

theorem freeCluster_fatOnly (cluster : Nat) : FatOnly [cluster] vol (vol.freeCluster cluster) := by
  have hbits := bitmapClear_fatOnly vol cluster
  have hentry := writeFatEntry_fatOnly (vol.bitmapClear cluster) cluster clusterFree
  exact ((hbits.trans hentry).trans (fatOnly_count _ _)).mono (by simp)

theorem freeEach_fatOnly (clusters : List Nat) : FatOnly clusters vol (vol.freeEach clusters) := by
  induction clusters generalizing vol with
  | nil => exact (DataOnly.refl _ vol).fatOnly
  | cons cluster rest ih =>
    exact ((readFatEntry_dataOnly vol cluster).fatOnly.trans
      (freeCluster_fatOnly _ cluster)).trans (ih _)

end

theorem bitmapFindFree_some (h : vol.bitmapFindFree = some cluster) :
    vol.geometry.Valid cluster ∧ ¬ vol.Used cluster := by
  obtain ⟨_, hfind, rfl⟩ := Option.map_eq_some_iff.mp h
  have hfree := List.find?_some hfind
  have hrange := mem_range.mp (mem_of_find?_eq_some hfind)
  unfold Geometry.Valid Used firstDataCluster
  refine ⟨by omega, ?_⟩
  simpa using hfree

end Volume

end Bazzulto.Fat32
