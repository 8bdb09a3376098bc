/-
  Fat32/FileRun.lean --- runs of `write_at` and `truncate` against a reference
  array of bytes.

  `Represents st clusters marker` relates a volume, an inode and a reference
  array: the inode's chain is `clusters`, and the array is what its bytes are.
  Each call that meets `Allowed` ends, returns success and re-establishes it.
-/
import Bazzulto.Fat32.Contents
import Mathlib.Data.Finset.Card
import Mathlib.Order.Interval.Finset.Nat

set_option autoImplicit false

namespace Bazzulto.Fat32

open Bazzulto.Foundation List Volume

/-! ## The reference array -/

namespace Reference

variable {contents data : List UInt8} {offset : Nat}

/-- Writing replaces or extends; bytes never written inside the file are zero. -/
def write (contents : List UInt8) (offset : Nat) (data : List UInt8) : List UInt8 :=
  if data = [] then contents
  else
    (contents ++ replicate (offset - contents.length) 0).take offset ++ data ++
      contents.drop (offset + data.length)

theorem length_write (hdata : data ≠ []) :
    (write contents offset data).length = max contents.length (offset + data.length) := by
  rw [write, if_neg hdata]
  simp only [length_append, length_take, length_replicate, length_drop]
  omega

theorem getD_write (hdata : data ≠ []) (i : Nat) :
    (write contents offset data).getD i 0 =
      if offset ≤ i ∧ i < offset + data.length then data.getD (i - offset) 0
      else contents.getD i 0 := by
  have hhead : ((contents ++ replicate (offset - contents.length) 0).take offset).length =
      offset := by
    simp only [length_take, length_append, length_replicate]
    omega
  rw [write, if_neg hdata]
  by_cases hbefore : i < offset
  · rw [if_neg (by omega), append_assoc, getD_append _ _ _ _ (by omega)]
    simp only [getD_eq_getElem?_getD, getElem?_take_of_lt hbefore]
    by_cases hold : i < contents.length
    · rw [getElem?_append_left hold]
    · rw [getElem?_append_right (by omega), getElem?_eq_none (Nat.le_of_not_lt hold),
        getElem?_replicate]
      split <;> rfl
  · by_cases hin : i < offset + data.length
    · rw [if_pos ⟨by omega, hin⟩, getD_append _ _ _ _ (by rw [length_append]; omega),
        getD_append_right _ _ _ _ (by omega), hhead]
    rw [if_neg (by omega), getD_append_right _ _ _ _ (by rw [length_append]; omega)]
    simp only [length_append, getD_eq_getElem?_getD, getElem?_drop]
    congr 2
    omega

end Reference

namespace Volume

variable {marker : Nat} {vol vol' : Volume} {touched : Nat → Prop}

/-! ## The chain of a file, computed -/

/-- The clusters met when the FAT is followed from `cluster`. -/
def chainFrom (vol : Volume) : (fuel cluster : Nat) → List Nat
  | 0, _ => []
  | fuel + 1, cluster =>
    if vol.geometry.Valid cluster then cluster :: vol.chainFrom fuel (vol.fatValue cluster)
    else []

theorem not_valid_of_isEof {geo : Geometry} (h : isEof marker = true) : ¬ geo.Valid marker :=
  fun hvalid => by simp [hvalid.not_isEof] at h

theorem chainFrom_eq {clusters : List Nat} {fuel : Nat} (h : vol.Chain clusters marker)
    (hfuel : clusters.length ≤ fuel) : vol.chainFrom fuel (clusters.headD marker) = clusters := by
  induction clusters generalizing fuel with
  | nil =>
    cases fuel with
    | zero => rfl
    | succ fuel => exact if_neg (not_valid_of_isEof h.isEof_marker)
  | cons cluster rest ih =>
    obtain ⟨fuel, rfl⟩ : ∃ n, fuel = n + 1 := ⟨fuel - 1, by simp at hfuel; omega⟩
    rw [headD_cons, chainFrom, if_pos (h.valid cluster mem_cons_self),
      h.links.1.onDisk, ih h.tail (by simpa using hfuel)]

theorem Chain.length_le {clusters : List Nat} (h : vol.Chain clusters marker) :
    clusters.length ≤ vol.geometry.totalClusters := by
  have hsub : clusters.toFinset ⊆ Finset.Ico 2 (vol.geometry.totalClusters + 2) := by
    intro c hc
    rw [mem_toFinset] at hc
    exact Finset.mem_Ico.mpr (h.valid c hc)
  have hcard := Finset.card_le_card hsub
  rw [toFinset_card_of_nodup h.nodup, Nat.card_Ico] at hcard
  omega

/-! ## A volume in working order -/

/-- A mounted volume on a partition at LBA 0 whose FAT and clusters respond and
whose FAT is read as it is on the disk. -/
structure Healthy (vol : Volume) : Prop where
  atZero : vol.geometry.partitionStartLba = 0
  ready : vol.ready = true
  fatResponds : vol.FatResponds
  coherent : vol.Coherent
  dataResponds : ∀ cluster, vol.geometry.Valid cluster → vol.ClusterResponds cluster

theorem Healthy.of_dataOnly (h : vol.Healthy) (hdata : DataOnly touched vol vol') :
    vol'.Healthy where
  atZero := hdata.geometry ▸ h.atZero
  ready := hdata.ready.trans h.ready
  fatResponds := hdata.fatResponds h.fatResponds
  coherent := hdata.coherent h.coherent
  dataResponds := fun cluster hcluster =>
    hdata.clusterResponds (h.dataResponds cluster (hdata.geometry ▸ hcluster))

theorem Healthy.of_fatOnly {written : List Nat} (h : vol.Healthy)
    (hfat : FatOnly written vol vol') : vol'.Healthy where
  atZero := hfat.geometry ▸ h.atZero
  ready := hfat.ready.trans h.ready
  fatResponds := hfat.fatResponds h.fatResponds
  coherent := hfat.coherent h.atZero h.fatResponds h.coherent
  dataResponds := fun cluster hcluster =>
    hfat.clusterResponds (h.dataResponds cluster (hfat.geometry ▸ hcluster))

section

variable {cluster : Nat} (h : vol.Healthy)
include h

theorem Healthy.writeFatEntry_entryIs (value : Nat) (hcluster : vol.geometry.InFat cluster) :
    (vol.writeFatEntry cluster value).2.EntryIs cluster (value % 2 ^ 28) := by
  have hwrite := writeFatEntry_fatOnly vol cluster value
  have hread := (h.of_fatOnly hwrite).coherent cluster (by rw [hwrite.geometry]; exact hcluster)
  rwa [fatValue_writeFatEntry_self value (h.coherent cluster hcluster).responds] at hread

/-- The first step of an allocation: the new cluster is marked used, and its
entry ends a chain. -/
theorem Healthy.markNew (hvalid : vol.geometry.Valid cluster) :
    ((vol.bitmapSet cluster).writeFatEntry cluster clusterEof).1 = true ∧
      FatOnly [cluster] vol ((vol.bitmapSet cluster).writeFatEntry cluster clusterEof).2 ∧
      ((vol.bitmapSet cluster).writeFatEntry cluster clusterEof).2.Used cluster ∧
      ((vol.bitmapSet cluster).writeFatEntry cluster clusterEof).2.EntryIs cluster clusterEof := by
  have hset := bitmapSet_fatOnly vol cluster
  have hhealthy := h.of_fatOnly hset
  have hinFat : (vol.bitmapSet cluster).geometry.InFat cluster := by
    rw [hset.geometry]
    exact hvalid.inFat
  refine ⟨writeFatEntry_ok hhealthy.fatResponds clusterEof hinFat,
    (hset.trans (writeFatEntry_fatOnly _ cluster clusterEof)).mono (by simp), ?_,
    hhealthy.writeFatEntry_entryIs clusterEof hinFat⟩
  unfold Used
  rw [writeFatEntry_fatBitmap, bitmapSet, if_pos hvalid]
  exact Function.update_self _ _ _

/-- Allocating the first cluster of a file: it is marked used and ends a chain. -/
theorem Healthy.allocCluster_first (fuel : Nat) (hfree : vol.bitmapFindFree = some cluster) :
    ∃ vol', allocCluster fuel vol 0 = some (some (cluster, cluster), vol') ∧
      FatOnly [cluster] vol vol' ∧ vol'.Used cluster ∧ vol'.Chain [cluster] clusterEof := by
  obtain ⟨hvalid, _⟩ := bitmapFindFree_some hfree
  obtain ⟨hok, hwrite, hused, hentry⟩ := h.markNew hvalid
  refine ⟨((vol.bitmapSet cluster).writeFatEntry cluster clusterEof).2.countAllocated, ?_,
    (hwrite.trans (fatOnly_count _ _)).mono (by simp), hused, ?_⟩
  · unfold allocCluster
    rw [hfree]
    dsimp only
    split
    next hfailed => simp [hfailed] at hok
    next hdone => simp [hdone]
  · refine ⟨⟨hentry.congr rfl rfl rfl rfl, trivial⟩, by simp, ?_, by decide⟩
    intro _ hc
    rw [mem_singleton] at hc
    rw [hc]
    have hgeo : ((vol.bitmapSet cluster).writeFatEntry cluster
        clusterEof).2.countAllocated.geometry = vol.geometry := hwrite.geometry
    rw [hgeo]
    exact hvalid

end

theorem DataOnly.fileByte_of_disjoint (h : DataOnly touched vol vol') {clusters : List Nat}
    (hvalid : ∀ c ∈ clusters, vol.geometry.Valid c)
    (hdisjoint : ∀ t, touched t → 2 ≤ t ∧ t ∉ clusters) {i : Nat}
    (hi : i < clusters.length * vol.geometry.bytesPerCluster) :
    vol'.fileByte clusters i = vol.fileByte clusters i := by
  obtain ⟨_, _, hj, hr, rfl⟩ := exists_cluster_position vol.geometry hi
  have hmem := getD_mem hj
  rw [fileByte_at vol clusters hr, ← h.geometry, fileByte_at vol' clusters (h.geometry ▸ hr),
    h.geometry]
  exact h.clusterByte (hvalid _ hmem).1 hr fun t ht =>
    ⟨(hdisjoint t ht).1, fun heq => (hdisjoint t ht).2 (heq ▸ hmem)⟩

end Volume

/-! ## Files and their reference arrays -/

/-- A volume, the inode of one file on it, and the reference array. -/
structure FileState where
  vol : Volume
  file : FileInode
  contents : List UInt8

namespace FileState

variable {marker offset : Nat} {data : List UInt8}

/-- The clusters of the file. -/
def clusters (st : FileState) : List Nat :=
  st.vol.chainFrom st.vol.geometry.totalClusters st.file.firstCluster

/-- The inode describes the chain `clusters`, the directory entry lies in a
cluster outside of it, and the reference array holds the bytes of the chain up
to the size of the file. -/
structure Represents (st : FileState) (clusters : List Nat) (marker : Nat) : Prop where
  healthy : st.vol.Healthy
  chain : st.vol.Chain clusters marker
  first : st.file.firstCluster = clusters.headD 0
  used : ∀ c ∈ clusters, st.vol.Used c
  dirValid : st.vol.geometry.Valid st.file.dirCluster
  dirUsed : st.vol.Used st.file.dirCluster
  dirApart : st.file.dirCluster ∉ clusters
  size_le : st.file.fileSize ≤ clusters.length * st.vol.geometry.bytesPerCluster
  size_lt : st.file.fileSize < 2 ^ 32
  length : st.contents.length = st.file.fileSize
  bytes : ∀ i < st.file.fileSize, st.contents.getD i 0 = st.vol.fileByte clusters i

/-- A file in working order, whose reference array is what it contains. -/
def WellFormed (st : FileState) : Prop := ∃ marker, st.Represents st.clusters marker

variable {st : FileState}

theorem Represents.clusters_eq {clusters : List Nat} (h : st.Represents clusters marker) :
    st.clusters = clusters := by
  have hfrom := chainFrom_eq h.chain h.chain.length_le
  unfold FileState.clusters
  rw [h.first]
  cases clusters with
  | nil =>
    cases st.vol.geometry.totalClusters with
    | zero => rfl
    | succ total => exact if_neg fun hvalid => absurd hvalid.1 (by decide)
  | cons cluster rest => exact hfrom

theorem Represents.wellFormed {clusters : List Nat} (h : st.Represents clusters marker) :
    st.WellFormed :=
  ⟨marker, h.clusters_eq.symm ▸ h⟩

/-- `read_at` agrees with the reference array at every offset, and the size is
its length. -/
def ReadsBack (st : FileState) : Prop :=
  (∀ offset len, (st.vol.readAt st.file offset len).1 = .ok ((st.contents.drop offset).take len)) ∧
  st.file.fileSize = st.contents.length

theorem Represents.readsBack {clusters : List Nat} (h : st.Represents clusters marker) :
    st.ReadsBack := by
  refine ⟨fun offset len => ?_, h.length.symm⟩
  unfold readAt
  rw [h.healthy.ready, if_neg (by simp)]
  split
  next hend => rw [drop_eq_nil_of_le (by rw [h.length]; exact hend), take_nil]
  · have hsize := h.size_le
    have hlt := h.size_lt
    have hread := readLoop_of_chain (min len (st.file.fileSize - offset)) st.vol offset
      (min len (st.file.fileSize - offset)) [] h.chain
      (fun c hc => h.healthy.dataResponds c (h.chain.valid c hc)) le_rfl (by omega)
      (by omega)
    rw [h.first]
    dsimp only
    rw [hread, nil_append]
    congr 1
    apply ext_getElem
    · simp [h.length]
    intro i hi _
    rw [slice_length] at hi
    have hbyte := h.bytes (offset + i) (by omega)
    simp only [getElem_take, getElem_drop]
    rw [getD_eq_getElem _ _ (by rw [h.length]; omega)] at hbyte
    rw [hbyte]
    simp [slice]

/-! ## Calls -/

/-- A call on the inode. -/
inductive Call where
  | writeAt (offset : Nat) (data : List UInt8)
  | truncate (newSize : Nat)
  deriving Repr, DecidableEq

/-- A call that returns success, on the file and on the reference array. -/
def step (fuel : Nat) (st : FileState) : Call → Option FileState
  | .writeAt offset data =>
    match st.vol.writeAt fuel st.file offset data with
    | some (.ok _, vol, file) => some ⟨vol, file, Reference.write st.contents offset data⟩
    | _ => none
  | .truncate newSize =>
    match st.vol.truncate fuel st.file newSize with
    | some (.ok (), vol, file) => some ⟨vol, file, st.contents.take newSize⟩
    | _ => none

/-- The write stays inside the clusters of the file, and the bytes it skips
behind the old end of the file happen to be zero. -/
def InsideChain (st : FileState) (offset : Nat) (data : List UInt8) : Prop :=
  offset + data.length ≤ st.clusters.length * st.vol.geometry.bytesPerCluster ∧
    ∀ i < offset, st.file.fileSize ≤ i → st.vol.fileByte st.clusters i = 0

/-- The file has no cluster yet, the write stays inside the first one, and the
bytes it skips there happen to be zero. -/
def InFirstCluster (st : FileState) (offset : Nat) (data : List UInt8) : Prop :=
  st.clusters = [] ∧ offset + data.length ≤ st.vol.geometry.bytesPerCluster ∧
    ∃ cluster ∈ st.vol.bitmapFindFree,
      ∀ i < offset, st.vol.disk.bytes (st.vol.geometry.clusterAddress cluster + i) = 0

/-- The clusters a truncation to a size above zero keeps. -/
def kept (st : FileState) (newSize : Nat) : List Nat :=
  st.clusters.take ((newSize - 1) / st.vol.geometry.bytesPerCluster + 1)

/-- The sectors where the entry of an end-of-chain marker would be lie outside
the cluster. -/
def MarkerOutside (geo : Geometry) (cluster : Nat) : Prop :=
  ∀ copy < geo.numFats,
    fatSector geo copy clusterEofMin < geo.partitionStartLba + geo.clusterLba cluster ∨
      geo.partitionStartLba + geo.clusterLba cluster + geo.sectorsPerCluster ≤
        fatSector geo copy clusterEofMin

instance (st : FileState) (offset : Nat) (data : List UInt8) :
    Decidable (st.InsideChain offset data) :=
  inferInstanceAs (Decidable (_ ∧ _))

instance (st : FileState) (offset : Nat) (data : List UInt8) :
    Decidable (st.InFirstCluster offset data) :=
  inferInstanceAs (Decidable (_ ∧ _))

instance (geo : Geometry) (cluster : Nat) : Decidable (MarkerOutside geo cluster) :=
  inferInstanceAs (Decidable (∀ copy < geo.numFats, _))

/-- When a call agrees with the reference array. -/
def Allowed (st : FileState) : Call → Prop
  | .writeAt offset data =>
    data = [] ∨ (offset + data.length < 2 ^ 32 ∧
      (st.InsideChain offset data ∨ st.InFirstCluster offset data))
  | .truncate newSize =>
    newSize ≤ st.file.fileSize ∧
      (newSize = st.file.fileSize ∨ newSize = 0 ∨ st.kept newSize = st.clusters ∨
        ∀ cluster ∈ st.kept newSize, MarkerOutside st.vol.geometry cluster)

instance (st : FileState) : (call : Call) → Decidable (st.Allowed call)
  | .writeAt _ _ => inferInstanceAs (Decidable (_ ∨ _))
  | .truncate _ => inferInstanceAs (Decidable (_ ∧ _))

/-! ### Writing -/

/-- A change of data leaves all but the size and the bytes of the file as it was. -/
theorem Represents.of_dataOnly {clusters : List Nat} (h : st.Represents clusters marker)
    {touched : Nat → Prop} {vol' : Volume} (hdata : DataOnly touched st.vol vol')
    {size : Nat} {contents : List UInt8} (hlt : size < 2 ^ 32)
    (hle : size ≤ clusters.length * st.vol.geometry.bytesPerCluster)
    (hlen : contents.length = size)
    (hbytes : ∀ i < size, contents.getD i 0 = vol'.fileByte clusters i) :
    Represents ⟨vol', { st.file with fileSize := size }, contents⟩ clusters marker where
  healthy := h.healthy.of_dataOnly hdata
  chain := hdata.chain h.chain
  first := h.first
  used c hc := (congrFun hdata.fatBitmap _).trans (h.used c hc)
  dirValid := hdata.geometry.symm ▸ h.dirValid
  dirUsed := (congrFun hdata.fatBitmap _).trans h.dirUsed
  dirApart := h.dirApart
  size_le := hdata.geometry.symm ▸ hle
  size_lt := hlt
  length := hlen
  bytes := hbytes

/-- A call succeeds and keeps the file in working order. -/
def Succeeds (fuel : Nat) (st : FileState) (call : Call) : Prop :=
  ∃ next, st.step fuel call = some next ∧ next.vol.geometry = st.vol.geometry ∧ next.WellFormed

/-- The update of the directory entry at the end of a call changes neither the chain nor the
bytes of the file. -/
theorem Represents.succeeds {fuel : Nat} {call : Call} {clusters : List Nat} {vol : Volume}
    {file : FileInode} {contents : List UInt8}
    (h : Represents ⟨vol, file, contents⟩ clusters marker) (hgeo : vol.geometry = st.vol.geometry)
    (hstep : st.step fuel call = some ⟨vol.updateDirEntrySize file, file, contents⟩) :
    st.Succeeds fuel call := by
  have hdata := vol.updateDirEntrySize_dataOnly file
  have hrep := h.of_dataOnly hdata h.size_lt h.size_le h.length fun i hi => ?_
  · exact ⟨_, hstep, hdata.geometry.trans hgeo, hrep.wellFormed⟩
  rw [h.bytes i hi, hdata.fileByte_of_disjoint h.chain.valid (fun t ht => ?_)
    (Nat.lt_of_lt_of_le hi h.size_le)]
  exact ⟨ht ▸ h.dirValid.1, ht ▸ h.dirApart⟩

section

variable {clusters : List Nat} (h : st.Represents clusters marker) (hne : data ≠ [])
  (hlt : offset + data.length < 2 ^ 32)
  (hinside : offset + data.length ≤ clusters.length * st.vol.geometry.bytesPerCluster)
  (hgap : ∀ i < offset, st.file.fileSize ≤ i → st.vol.fileByte clusters i = 0)
include h hne hlt hinside hgap

/-- Data written at its place in the chain is data written to the array. -/
theorem Represents.of_written {vol' : Volume} (hdata : DataOnly (· ∈ clusters) st.vol vol')
    (hfile : ∀ i < clusters.length * st.vol.geometry.bytesPerCluster,
      vol'.fileByte clusters i = splice (st.vol.fileByte clusters) offset data i) :
    Represents
      ⟨vol',
        { st.file with
          fileSize :=
            if st.file.fileSize < offset + data.length then (offset + data.length) % 2 ^ 32
            else st.file.fileSize },
        Reference.write st.contents offset data⟩ clusters marker := by
  have hsize : (if st.file.fileSize < offset + data.length then
      (offset + data.length) % 2 ^ 32 else st.file.fileSize) =
        max st.file.fileSize (offset + data.length) := by
    split <;> omega
  have hle := h.size_le
  have hsizeLt := h.size_lt
  rw [hsize]
  refine h.of_dataOnly hdata (by omega) (by omega)
    (by rw [Reference.length_write hne, h.length]) fun i hi => ?_
  rw [hfile i (by omega), Reference.getD_write hne]
  by_cases hin : offset ≤ i ∧ i < offset + data.length
  · rw [if_pos hin, splice, if_pos hin]
  rw [if_neg hin, splice_outside (by omega)]
  by_cases hold : i < st.file.fileSize
  · exact h.bytes i hold
  · rw [hgap i (by omega) (by omega), getD_eq_default _ _ (by rw [h.length]; omega)]

theorem Represents.writeAt_inside (fuel : Nat) : st.Succeeds fuel (.writeAt offset data) := by
  obtain ⟨_, hloop, hdata, hfile⟩ := writeLoop_of_chain fuel data.length
    st.vol offset data h.chain (fun c hc => h.healthy.dataResponds c (h.chain.valid c hc))
    le_rfl (Nat.le_of_lt hlt) hinside
  rw [← h.first] at hloop
  have hwritten := h.of_written hne hlt hinside hgap hdata hfile
  exact hwritten.succeeds hdata.geometry (by simp [step, writeAt, hne, h.healthy.ready, hloop])

end

/-- The first write to a file without clusters. -/
theorem Represents.writeAt_first (h : st.Represents [] marker) (fuel : Nat) (hne : data ≠ [])
    (hlt : offset + data.length < 2 ^ 32)
    (hinside : offset + data.length ≤ st.vol.geometry.bytesPerCluster) {cluster : Nat}
    (hfree : st.vol.bitmapFindFree = some cluster)
    (hgap : ∀ i < offset, st.vol.disk.bytes (st.vol.geometry.clusterAddress cluster + i) = 0) :
    st.Succeeds fuel (.writeAt offset data) := by
  obtain ⟨hvalid, hunused⟩ := bitmapFindFree_some hfree
  obtain ⟨vol₁, halloc, hfat, _, hchain⟩ := h.healthy.allocCluster_first fuel hfree
  have hempty : st.file.fileSize = 0 := by simpa using h.size_le
  have hfirst : st.file.firstCluster = 0 := h.first
  have hdirNe : st.file.dirCluster ≠ cluster := fun heq => hunused (heq ▸ h.dirUsed)
  have hstart : Represents ⟨vol₁, { st.file with firstCluster := cluster }, st.contents⟩
      [cluster] clusterEof :=
    { healthy := h.healthy.of_fatOnly hfat
      chain := hchain
      first := rfl
      used := fun c hc => by rwa [mem_singleton.mp hc]
      dirValid := by dsimp only; rw [hfat.geometry]; exact h.dirValid
      dirUsed := (hfat.used _ h.dirValid.1 (by simpa using hdirNe)).mpr h.dirUsed
      dirApart := by simpa using hdirNe
      size_le := by dsimp only; omega
      size_lt := h.size_lt
      length := h.length
      bytes := fun i hi => by dsimp only at hi; omega }
  have hlen : 0 < data.length := length_pos_iff.mpr hne
  have hmod : offset % st.vol.geometry.bytesPerCluster = offset :=
    Nat.mod_eq_of_lt (by omega)
  have hchunk : min data.length (st.vol.geometry.bytesPerCluster - offset) = data.length := by
    omega
  have htarget : writeTarget fuel st.vol st.file.firstCluster
      (offset / st.vol.geometry.bytesPerCluster % 2 ^ 32) =
        some (some (cluster, cluster), vol₁) := by
    rw [writeTarget, if_pos (by rw [hfirst]; decide), halloc]
  obtain ⟨vol₂, hloop, hdata, hbytes⟩ := writeLoop_succ (data.length - 1) hne htarget
    hfat.geometry hvalid.1 (hfat.clusterResponds (h.healthy.dataResponds cluster hvalid))
  rw [hmod] at hloop hbytes
  rw [hchunk, Nat.sub_add_cancel hlen] at hloop
  rw [hchunk, take_length] at hbytes
  have hdone : writeLoop fuel data.length st.vol st.file.firstCluster offset data =
      some (cluster, offset + data.length, vol₂) := by
    rw [hloop]
    cases data.length - 1 <;> simp [writeLoop]
  have hwritten := hstart.of_written hne hlt
    (by dsimp only; rw [hfat.geometry]; simpa using hinside) (fun i hi _ => ?_)
    (hdata.mono fun c hc => by simpa using hc) (fun i hi => ?_)
  · exact hwritten.succeeds (hdata.geometry.trans hfat.geometry)
      (by simp [step, writeAt, hne, h.healthy.ready, hdone])
  · have hbyte := fileByte_at vol₁ [cluster]
      (show i < vol₁.geometry.bytesPerCluster by rw [hfat.geometry]; omega) (j := 0)
    rw [Nat.zero_mul, Nat.zero_add] at hbyte
    rw [hbyte, hfat.geometry]
    exact (hfat.clusterByte fun c hc => .inl (mem_singleton.mp hc ▸ hvalid.inFat)).trans
      (hgap i hi)
  · rw [← hfat.geometry] at hbytes hinside
    have hplace := fileByte_of_splice hdata.geometry hchain.nodup hchain.valid
      (show 0 < [cluster].length by simp) hinside hbytes hi
    rwa [Nat.zero_mul, Nat.zero_add] at hplace

end FileState

/-! ### Truncating -/

namespace Volume

variable {freed : List Nat} {marker : Nat}

theorem not_mem_freedEntries {geo : Geometry} {c : Nat} (hmarker : isEof marker = true)
    (hvalid : geo.Valid c) (hc : c ∉ freed) : c ∉ freedEntries freed marker := by
  have hne : c ≠ marker := fun heq => not_valid_of_isEof hmarker (heq ▸ hvalid)
  unfold freedEntries
  split <;> simp [hne, hc]

/-- Cutting a chain behind one of its clusters frees the rest and ends the
chain there. -/
theorem cutChain_of_chain {vol : Volume} {front : List Nat} {last fuel newSize : Nat}
    (h : vol.Chain (front ++ last :: freed) marker) (hhealthy : vol.Healthy)
    (hidx : (newSize - 1) / vol.geometry.bytesPerCluster = front.length)
    (hfuel : freed.length < fuel) :
    ∃ vol', cutChain fuel vol ((front ++ last :: freed).headD 0) newSize = some vol' ∧
      FatOnly (freedEntries freed marker ++ [last]) vol vol' ∧
      (∀ c, 2 ≤ c → c ∉ freedEntries freed marker → (vol'.Used c ↔ vol.Used c)) ∧
      vol'.Chain (front ++ [last]) clusterEof := by
  have hlast : vol.geometry.Valid last := h.valid last (by simp)
  obtain ⟨vol₂, hdata, hcut⟩ := cutChain_eq fuel h hidx
  rw [if_pos (.inr hfuel)] at hcut
  have hfat₃ := hdata.fatOnly.trans (freeBehind_fatOnly vol₂ freed marker)
  have hhealthy₃ := hhealthy.of_fatOnly hfat₃
  have hfat₄ := writeFatEntry_fatOnly (vol₂.freeBehind freed marker) last clusterEof
  have hfat := hfat₃.trans hfat₄
  have hlast₃ : (vol₂.freeBehind freed marker).geometry.InFat last := by
    rw [hfat₃.geometry]
    exact hlast.inFat
  refine ⟨_, hcut, hfat, ?_, ?_, ?_, ?_, by decide⟩
  · intro c hc hmem
    rw [Used, writeFatEntry_fatBitmap]
    exact hfat₃.used c hc hmem
  · refine links_append.mpr ⟨?_, ?_, trivial⟩
    · refine (links_append.mp h.links).1.of_entries fun c hc v hentry => ?_
      have hvalid := h.valid c (mem_append_left _ hc)
      have hapart := (nodup_append.mp h.nodup).2.2 c hc
      refine hfat.entries c v hvalid.inFat ?_ hentry
      rw [mem_append, mem_singleton, not_or]
      exact ⟨not_mem_freedEntries h.isEof_marker hvalid
          fun hmem => hapart c (mem_cons_of_mem _ hmem) rfl,
        hapart last mem_cons_self⟩
    · exact hhealthy₃.writeFatEntry_entryIs clusterEof hlast₃
  · exact h.nodup.sublist (by simp)
  · intro c hc
    rw [hfat.geometry]
    refine h.valid c ?_
    rw [mem_append, mem_singleton] at hc
    rcases hc with hfront | rfl
    · exact mem_append_left _ hfront
    · simp

end Volume

namespace FileState

variable {cluster marker r fuel : Nat}

/-- The word where the entry of a marker would be misses a cluster that the
marker sectors miss. -/
theorem MarkerOutside.word {geo : Geometry} {copy : Nat} (h : MarkerOutside geo cluster)
    (heof : isEof marker = true) (hlt : marker < 2 ^ 28) (hr : r < geo.bytesPerCluster)
    (hcopy : copy < geo.numFats) :
    geo.clusterAddress cluster + r < geo.fatAddress copy marker ∨
      geo.fatAddress copy marker + 4 ≤ geo.clusterAddress cluster + r := by
  have hmin : clusterEofMin ≤ marker := of_decide_eq_true heof
  have hsector : fatSector geo copy marker = fatSector geo copy clusterEofMin := by
    unfold fatSector
    unfold clusterEofMin at hmin ⊢
    omega
  have haddress := fatSector_address geo copy marker
  have hcase := h copy hcopy
  unfold Geometry.clusterAddress
  unfold Geometry.bytesPerCluster at hr
  omega

/-- The entries a cut writes miss a cluster unless a marker sector lies in it. -/
theorem cut_misses {vol : Volume} {front freed : List Nat} {last : Nat}
    (h : vol.Chain (front ++ last :: freed) marker) (hr : r < vol.geometry.bytesPerCluster)
    (houtside : freed = [] ∨ MarkerOutside vol.geometry cluster) :
    ∀ c ∈ freedEntries freed marker ++ [last], vol.geometry.InFat c ∨
      ∀ copy < vol.geometry.numFats,
        vol.geometry.clusterAddress cluster + r < vol.geometry.fatAddress copy c ∨
          vol.geometry.fatAddress copy c + 4 ≤ vol.geometry.clusterAddress cluster + r := by
  intro c hc
  by_cases hmem : c ∈ front ++ last :: freed
  · exact .inl (h.valid c hmem).inFat
  have hfreed : freed ≠ [] ∧ c = marker := by
    rw [mem_append, mem_singleton] at hc
    rcases hc with hc | rfl
    · unfold freedEntries at hc
      split at hc
      · cases hc
      rw [mem_append, mem_singleton] at hc
      rcases hc with hc | hc
      · exact absurd (by simp [hc]) hmem
      · exact ⟨by assumption, hc⟩
    · exact absurd (by simp) hmem
  rw [hfreed.2]
  exact .inr fun copy hcopy => (houtside.resolve_left hfreed.1).word h.isEof_marker
    (h.marker_lt (by simp)) hr hcopy

variable {st : FileState}

/-- Truncating to nothing frees the whole chain. -/
theorem Represents.truncate_zero {clusters : List Nat} (h : st.Represents clusters marker)
    (hsize : 0 < st.file.fileSize) (hfuel : st.vol.geometry.totalClusters < fuel) :
    st.Succeeds fuel (.truncate 0) := by
  have hne : clusters ≠ [] := by
    rintro rfl
    have := h.size_le
    simp at this
    omega
  obtain ⟨cluster, rest, rfl⟩ := exists_cons_of_ne_nil hne
  have hlen := h.chain.length_le
  have hfreed := (freeChain_eq fuel h.chain).trans
    (if_pos (Nat.lt_of_le_of_lt hlen hfuel))
  have hfat := (freeEach_fatOnly st.vol (cluster :: rest)).trans
    (freeCluster_fatOnly _ marker)
  generalize (st.vol.freeEach (cluster :: rest)).freeCluster marker = vol' at hfreed hfat
  have hfirst : st.file.firstCluster = cluster := h.first
  have hdata : firstDataCluster ≤ cluster := (h.chain.valid cluster mem_cons_self).1
  have hdir : st.file.dirCluster ∉ (cluster :: rest) ++ [marker] := by
    rw [mem_append, mem_singleton, not_or]
    exact ⟨h.dirApart, fun heq =>
      not_valid_of_isEof h.chain.isEof_marker (heq ▸ h.dirValid)⟩
  have hcut : Represents ⟨vol', { st.file with firstCluster := 0, fileSize := 0 }, []⟩ []
      clusterEof :=
    { healthy := h.healthy.of_fatOnly hfat
      chain := ⟨trivial, nodup_nil, by simp, by decide⟩
      first := rfl
      used := by simp
      dirValid := by dsimp only; rw [hfat.geometry]; exact h.dirValid
      dirUsed := (hfat.used _ h.dirValid.1 hdir).mpr h.dirUsed
      dirApart := by simp
      size_le := Nat.zero_le _
      size_lt := Nat.two_pow_pos 32
      length := rfl
      bytes := fun i hi => absurd hi (Nat.not_lt_zero i) }
  refine hcut.succeeds hfat.geometry ?_
  rw [headD_cons] at hfreed
  have hsizeNe : ¬ 0 = st.file.fileSize := by omega
  simp [step, truncate, hsizeNe, h.healthy.ready, hfirst, hdata, hfreed]

theorem exists_split_at {clusters : List Nat} {index : Nat} (h : index < clusters.length) :
    ∃ front last back, clusters = front ++ last :: back ∧ front.length = index :=
  ⟨clusters.take index, clusters.get ⟨index, h⟩, clusters.drop (index + 1),
    by rw [get_eq_getElem, ← drop_eq_getElem_cons h, take_append_drop],
    by rw [length_take]; omega⟩

/-- Truncating to a smaller size above zero cuts the chain. -/
theorem Represents.truncate_cut {clusters : List Nat} {newSize : Nat}
    (h : st.Represents clusters marker) (hpos : 0 < newSize) (hsize : newSize < st.file.fileSize)
    (hfuel : st.vol.geometry.totalClusters < fuel)
    (hkept : clusters.take ((newSize - 1) / st.vol.geometry.bytesPerCluster + 1) = clusters ∨
      ∀ cluster ∈ clusters.take ((newSize - 1) / st.vol.geometry.bytesPerCluster + 1),
        MarkerOutside st.vol.geometry cluster) :
    st.Succeeds fuel (.truncate newSize) := by
  have hsizeLe := h.size_le
  have hB := st.vol.geometry.bytesPerCluster_pos
  have hlen := h.chain.length_le
  generalize hidx : (newSize - 1) / st.vol.geometry.bytesPerCluster = index at hkept
  have hbelow : index < clusters.length := by
    rw [← hidx]
    exact (Nat.div_lt_iff_lt_mul hB).mpr (by omega)
  obtain ⟨front, last, freed, rfl, hfront⟩ := exists_split_at hbelow
  have htake : (front ++ last :: freed).take (index + 1) = front ++ [last] := by
    rw [← hfront, take_length_add_append]
    rfl
  rw [htake] at hkept
  have hlist : front ++ last :: freed = (front ++ [last]) ++ freed := by simp
  obtain ⟨vol', hcutEq, hfat, hused, hchain⟩ := cutChain_of_chain h.chain h.healthy
    (hidx.trans hfront.symm)
    (show freed.length < fuel by simp at hlen; omega)
  have hmemOf : ∀ c ∈ front ++ [last], c ∈ front ++ last :: freed := by
    intro c hc
    rw [hlist]
    exact mem_append_left freed hc
  have hfreedOf : ∀ c ∈ front ++ [last], c ∉ freed := by
    intro c hc hmem
    have hnodup := h.chain.nodup
    rw [hlist] at hnodup
    exact (nodup_append.mp hnodup).2.2 c hc c hmem rfl
  have hend : newSize ≤ (index + 1) * st.vol.geometry.bytesPerCluster := by
    have := Nat.lt_mul_div_succ (newSize - 1) hB
    rw [hidx, Nat.mul_comm] at this
    omega
  have hcut : Represents ⟨vol', { st.file with fileSize := newSize }, st.contents.take newSize⟩
      (front ++ [last]) clusterEof :=
    { healthy := h.healthy.of_fatOnly hfat
      chain := hchain
      first := by
        rw [h.first]
        cases front <;> rfl
      used := fun c hc => by
        have hvalid := h.chain.valid c (hmemOf c hc)
        exact (hused c hvalid.1 (not_mem_freedEntries h.chain.isEof_marker hvalid
          (hfreedOf c hc))).mpr (h.used c (hmemOf c hc))
      dirValid := by dsimp only; rw [hfat.geometry]; exact h.dirValid
      dirUsed := (hused _ h.dirValid.1 (not_mem_freedEntries h.chain.isEof_marker
        h.dirValid fun hmem => h.dirApart (by simp [hmem]))).mpr h.dirUsed
      dirApart := fun hmem => h.dirApart (hmemOf _ hmem)
      size_le := by
        rw [hfat.geometry, length_append, hfront]
        exact hend
      size_lt := Nat.lt_trans hsize h.size_lt
      length := by dsimp only; rw [length_take, h.length]; omega
      bytes := fun i hi => by
        dsimp only at hi ⊢
        obtain ⟨j, r, hj, hr, rfl⟩ :=
          exists_cluster_position st.vol.geometry (Nat.lt_of_lt_of_le hi hend)
        have hsame : (front ++ last :: freed).getD j 0 = (front ++ [last]).getD j 0 := by
          rw [hlist, getD_append _ _ _ _ (by simp; omega)]
        have hmem : (front ++ [last]).getD j 0 ∈ front ++ [last] :=
          getD_mem (by simp; omega)
        have hplace := fileByte_at vol' (front ++ [last])
          (show r < vol'.geometry.bytesPerCluster by rw [hfat.geometry]; exact hr) (j := j)
        rw [hfat.geometry] at hplace
        rw [getD_eq_getElem?_getD, getElem?_take_of_lt hi,
          ← getD_eq_getElem?_getD, h.bytes _ (by omega), hplace,
          fileByte_at st.vol _ hr, hsame]
        refine (hfat.clusterByte (cut_misses h.chain hr ?_)).symm
        rcases hkept with hall | houtside
        · exact .inl (by simpa using hall)
        · exact .inr (houtside _ hmem) }
  refine hcut.succeeds hfat.geometry ?_
  rw [← h.first] at hcutEq
  have hnotZero : ¬ newSize = 0 := by omega
  have hnotSame : ¬ newSize = st.file.fileSize := by omega
  have hnotGrow : ¬ st.file.fileSize < newSize := by omega
  simp [step, truncate, hnotZero, hnotSame, hnotGrow, h.healthy.ready, hcutEq]

/-! ## Runs -/

/-- An allowed call ends, succeeds and keeps the file in working order. -/
theorem WellFormed.step (h : st.WellFormed) (hfuel : st.vol.geometry.totalClusters < fuel)
    {call : Call} (hallowed : st.Allowed call) : st.Succeeds fuel call := by
  obtain ⟨marker, hrep⟩ := h
  cases call with
  | writeAt offset data =>
    obtain rfl | hne := eq_or_ne data []
    · exact ⟨st, by simp [FileState.step, writeAt, Reference.write], rfl, marker, hrep⟩
    obtain ⟨hlt, hinside | hfirst⟩ := hallowed.resolve_left hne
    · exact hrep.writeAt_inside hne hlt hinside.1 hinside.2 fuel
    obtain ⟨hempty, hinside, _, hfree, hgap⟩ := hfirst
    rw [hempty] at hrep
    exact hrep.writeAt_first fuel hne hlt hinside hfree hgap
  | truncate newSize =>
    obtain ⟨_, hcase⟩ := hallowed
    obtain rfl | hsame := eq_or_ne newSize st.file.fileSize
    · have hall : st.contents.take st.file.fileSize = st.contents := by
        rw [← hrep.length, take_length]
      exact ⟨st, by simp [FileState.step, truncate, hall], rfl, marker, hrep⟩
    obtain rfl | hzero := eq_or_ne newSize 0
    · exact hrep.truncate_zero (by omega) hfuel
    · exact hrep.truncate_cut (by omega) (by omega) hfuel
        ((hcase.resolve_left hsame).resolve_left hzero)

/-- **When a file behaves like an array of bytes.**  From every file in working
order, a sequence of calls that are each allowed in the state they are made in
runs to its end with every call succeeding, and then `read_at` agrees with the
reference array at every offset and the size is the length of the array.
Fuel above the number of clusters of the volume is enough. -/
theorem reads_back_of_allowed_run (fuel : Nat) (calls : List Call) (st : FileState)
    (hst : st.WellFormed) (hfuel : st.vol.geometry.totalClusters < fuel)
    (hallowed : Along (step fuel) Allowed st calls) :
    ∃ final, run (step fuel) st calls = some final ∧ final.ReadsBack := by
  induction calls generalizing st with
  | nil =>
    obtain ⟨_, hrep⟩ := hst
    exact ⟨st, rfl, hrep.readsBack⟩
  | cons call rest ih =>
    obtain ⟨next, hstep, hgeo, hnext⟩ := hst.step hfuel hallowed.head
    rw [run_cons hstep]
    exact ih next hnext (by rw [hgeo]; exact hfuel) (hallowed.tail hstep)

/-- An empty file on the small volume, with its entry in the first slot of
cluster 2. -/
def emptyFile : FileState where
  vol := (blankVolume 0).bitmapSet 2
  file := ⟨2, 0, 0, 0⟩
  contents := []

theorem blankVolume_healthy : (blankVolume 0).Healthy := by
  have hfat : (blankVolume 0).FatResponds := FatHistory.blankVolume_fatResponds (by decide)
  exact
    { atZero := rfl
      ready := rfl
      fatResponds := hfat
      coherent := hfat.coherent rfl
      dataResponds := fun cluster hcluster i hi => by
        have hlt : cluster < 18 := hcluster.2
        have hi' : i < 1 := hi
        refine decide_eq_true ?_
        simp only [blankVolume, smallGeometry, Geometry.clusterLba, Geometry.dataStartLba]
        omega }

theorem emptyFile_wellFormed : emptyFile.WellFormed := by
  have hrep : emptyFile.Represents [] clusterEof :=
    { healthy := blankVolume_healthy.of_fatOnly (bitmapSet_fatOnly _ 2)
      chain := ⟨trivial, nodup_nil, by simp, by decide⟩
      first := rfl
      used := by simp
      dirValid := by decide
      dirUsed := by decide
      dirApart := by simp
      size_le := Nat.zero_le _
      size_lt := by decide
      length := rfl
      bytes := fun i hi => absurd hi (Nat.not_lt_zero i) }
  exact hrep.wellFormed

/-- Three calls that stay inside one cluster. -/
theorem reads_back_inside_one_cluster :
    ∃ final, run (step 20) emptyFile
        [.writeAt 0 [1, 2, 3], .writeAt 2 [9, 9], .truncate 3] = some final ∧ final.ReadsBack :=
  reads_back_of_allowed_run 20 _ emptyFile emptyFile_wellFormed (by decide) (by decide +kernel)

/-- One byte at offset 0 and one at offset 512, the first byte behind the only
cluster: the second byte is not written, and the size becomes 512 instead of
513. -/
theorem write_behind_chain_is_lost :
    emptyFile.WellFormed ∧
      ∃ final, run (step 20) emptyFile [.writeAt 0 [1], .writeAt 512 [2]] = some final ∧
        ¬ final.ReadsBack := by
  refine ⟨emptyFile_wellFormed, ?_⟩
  have hview : (run (step 20) emptyFile [.writeAt 0 [1], .writeAt 512 [2]]).map
      (fun st => (st.file.fileSize, st.contents.length)) = some (512, 513) := by
    decide +kernel
  obtain ⟨final, hrun, hsizes⟩ := Option.map_eq_some_iff.mp hview
  refine ⟨final, hrun, fun hback => ?_⟩
  have hsame := hback.2
  rw [(Prod.mk.inj hsizes).1, (Prod.mk.inj hsizes).2] at hsame
  cases hsame

end FileState

end Bazzulto.Fat32
