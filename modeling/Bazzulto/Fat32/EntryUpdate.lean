/-
  Fat32/EntryUpdate.lean --- which directory entries a write or a truncation of
  a file changes.

  A file inode remembers where its directory entry is as a cluster and a slot in
  that cluster.  `Fat32DirInode::lookup` fills in the first cluster of the
  directory and the slot at which it found the entry in whatever cluster of the
  directory that was; so the update hits the right entry only if the entry is in
  the first cluster.

  A truncation that frees clusters also writes through the number of the
  end-of-chain marker (see Fat32/Chain.lean).  On a disk that is large enough the
  place it hits may be a cluster of the directory.
-/
import Bazzulto.Fat32.FileRun
import Bazzulto.Fat32.Guard
import Bazzulto.Fat32.Lookup

set_option autoImplicit false

namespace Bazzulto.Fat32

open Bazzulto.Foundation List Option

namespace Volume

variable {dir clusters : List Nat} {found : DirEntry} {vol vol₁ vol' : Volume} {buf : Buffer}
  {start firstCluster fileSize i cluster marker fuel newSize index : Nat} {file file' : FileInode}

/-! ## The entry of a file -/

/-- The bytes of a directory entry that hold the first cluster and the size. -/
def entryFields : List Nat := [20, 21, 26, 27, 28, 29, 30, 31]

/-- Is the byte `r` of `cluster` one of the two fields of the entry found? -/
def FieldByte (found : DirEntry) (cluster r : Nat) : Prop :=
  cluster = found.cluster ∧ ∃ k ∈ entryFields, r = found.entryIndex * 32 + k
  deriving Decidable

/-- Every byte of the directory outside the two fields of the entry found is
the same. -/
def AgreesOutside (dir : List Nat) (found : DirEntry) (vol vol' : Volume) : Prop :=
  ∀ d ∈ dir, ∀ r < vol.geometry.bytesPerCluster, ¬ FieldByte found d r →
    vol'.disk.bytes (vol.geometry.clusterAddress d + r) =
      vol.disk.bytes (vol.geometry.clusterAddress d + r)

/-- What a call on a file does to the directory: the two fields of the entry
that was found hold what the inode holds, and nothing else changes. -/
structure UpdatesOnly (dir : List Nat) (found : DirEntry) (vol vol' : Volume)
    (file' : FileInode) : Prop where
  cluster : RawEntry.cluster (vol'.entryAt found.cluster found.entryIndex) = file'.firstCluster
  size : RawEntry.fileSize (vol'.entryAt found.cluster found.entryIndex) = file'.fileSize
  others : AgreesOutside dir found vol vol'

theorem AgreesOutside.trans {vol₂ : Volume} (h : AgreesOutside dir found vol vol₁)
    (hgeometry : vol₁.geometry = vol.geometry) (h' : AgreesOutside dir found vol₁ vol₂) :
    AgreesOutside dir found vol vol₂ := by
  intro d hd r hr hfield
  have hlater := h' d hd r (by rw [hgeometry]; exact hr) hfield
  rw [hgeometry] at hlater
  rw [hlater, h d hd r hr hfield]

/-! ### Patching the two fields -/

theorem patchEntry_outside (hi : ∀ k ∈ entryFields, i ≠ start + k) :
    patchEntry buf start firstCluster fileSize i = buf i := by
  simp only [entryFields, mem_cons, forall_eq_or_imp] at hi
  unfold patchEntry
  rw [splice_outside (by rw [leBytes_length]; omega),
    splice_outside (by rw [leBytes_length]; omega),
    splice_outside (by rw [leBytes_length]; omega)]

theorem getD_leBytes_two (value : Nat) :
    ((leBytes 2 value).getD 0 0).toNat + 256 * ((leBytes 2 value).getD 1 0).toNat =
      value % 2 ^ 16 := by
  simp only [leBytes, getD_cons_zero, getD_cons_succ, UInt8.toNat_ofNat']
  omega

/-- The patched entry names the cluster. -/
theorem cluster_patchEntry (hfirst : firstCluster < 2 ^ 32) :
    RawEntry.cluster (slice (patchEntry buf start firstCluster fileSize) start 32) =
      firstCluster := by
  have hhigh : ∀ k < 2, patchEntry buf start firstCluster fileSize (start + (20 + k)) =
      (leBytes 2 (firstCluster / 2 ^ 16)).getD k 0 := by
    intro k hk
    rw [patchEntry, ← Nat.add_assoc, splice_inside (by rw [leBytes_length]; exact hk)]
  have hlow : ∀ k < 2, patchEntry buf start firstCluster fileSize (start + (26 + k)) =
      (leBytes 2 (firstCluster % 2 ^ 16)).getD k 0 := by
    intro _ hk
    rw [patchEntry, splice_outside (by rw [leBytes_length]; omega), ← Nat.add_assoc,
      splice_inside (by rw [leBytes_length]; exact hk)]
  unfold RawEntry.cluster RawEntry.halfWord
  rw [getD_slice (by omega), getD_slice (by omega), getD_slice (by omega), getD_slice (by omega),
    hhigh 0 (by omega), hhigh 1 (by omega), hlow 0 (by omega), hlow 1 (by omega),
    getD_leBytes_two, getD_leBytes_two]
  omega

theorem fileSize_slice (buf : Buffer) (start : Nat) :
    RawEntry.fileSize (slice buf start 32) = word buf (start + 28) := by
  have hsplit : slice buf start 32 = slice buf start 28 ++ slice buf (start + 28) 4 :=
    slice_add buf start 28 4
  unfold RawEntry.fileSize word
  rw [hsplit, drop_left' (slice_length buf start 28), take_of_length_le (by rw [slice_length])]

theorem fileSize_patchEntry (hsize : fileSize < 2 ^ 32) :
    RawEntry.fileSize (slice (patchEntry buf start firstCluster fileSize) start 32) =
      fileSize := by
  have hword : word (patchEntry buf start firstCluster fileSize) (start + 28) =
      word (splice buf (start + 28) (leBytes 4 fileSize)) (start + 28) := by
    refine congrArg leValue (slice_congr fun i _ => ?_)
    rw [patchEntry, splice_outside (by rw [leBytes_length]; omega),
      splice_outside (by rw [leBytes_length]; omega)]
  rw [fileSize_slice, hword, word_splice, Nat.mod_eq_of_lt hsize]

/-! ### Updating the entry -/

section

variable (hvalid : ∀ d ∈ dir, vol.geometry.Valid d) (hcluster : found.cluster = file.dirCluster)
  (hindex : found.entryIndex = file.dirEntryIndex) (hdir : vol.geometry.Valid file.dirCluster)
  (hfits : file.dirEntryIndex * 32 + 32 ≤ vol.geometry.bytesPerCluster)
include hvalid hcluster hindex hdir hfits

/-- An update at the place of the entry found changes its two fields only. -/
theorem updateDirEntrySize_agreesOutside (hresponds : vol.ClusterResponds file.dirCluster) :
    AgreesOutside dir found vol (vol.updateDirEntrySize file) := by
  intro d hd _ hr hfield
  rw [updateDirEntrySize_of_responds hdir.1 hresponds hfits]
  refine patchEntry_outside fun k hk => ?_
  have hk' : k < 32 := by
    revert k
    decide
  rw [Nat.add_assoc]
  obtain rfl | hsame := eq_or_ne d file.dirCluster
  · intro _
    exact hfield ⟨hcluster.symm, k, hk, by omega⟩
  · exact clusterAddress_ne vol.geometry (hvalid d hd).1 hdir.1 hsame hr (by omega)

theorem updateDirEntrySize_updatesOnly (hgeometry : vol₁.geometry = vol.geometry)
    (hagree : AgreesOutside dir found vol vol₁) (hresponds : vol₁.ClusterResponds file.dirCluster)
    (hfirst : file.firstCluster < 2 ^ 32) (hsize : file.fileSize < 2 ^ 32) :
    UpdatesOnly dir found vol (vol₁.updateDirEntrySize file) file := by
  rw [← hgeometry] at hvalid hdir hfits
  have hbytes := updateDirEntrySize_of_responds hdir.1 hresponds hfits
  have hkeep := (vol₁.updateDirEntrySize_dataOnly file).geometry
  constructor
  · unfold entryAt
    rw [hkeep, hbytes, hcluster, hindex]
    exact cluster_patchEntry hfirst
  · unfold entryAt
    rw [hkeep, hbytes, hcluster, hindex]
    exact fileSize_patchEntry hsize
  · exact hagree.trans hgeometry
      (updateDirEntrySize_agreesOutside hvalid hcluster hindex hdir hfits hresponds)

end

/-- An update at another cluster, or at one that does not respond, leaves the
entry found as it is. -/
theorem entryAt_updateDirEntrySize (file : FileInode) (hvalid : vol.geometry.Valid found.cluster)
    (hindex : found.entryIndex * 32 + 32 ≤ vol.geometry.bytesPerCluster)
    (hdir : vol.geometry.Valid file.dirCluster)
    (hmiss : found.cluster ≠ file.dirCluster ∨ ¬ vol.ClusterResponds file.dirCluster) :
    (vol.updateDirEntrySize file).entryAt found.cluster found.entryIndex =
      vol.entryAt found.cluster found.entryIndex := by
  have hdata := vol.updateDirEntrySize_dataOnly file
  unfold entryAt
  rw [hdata.geometry]
  refine slice_congr fun k hk => ?_
  rcases hmiss with hne | hsilent
  · rw [Nat.add_assoc]
    exact hdata.clusterByte hvalid.1 (by omega) fun t ht =>
      ⟨ht ▸ hdir.1, fun heq => hne (heq ▸ ht)⟩
  have hread := readCluster_dataOnly vol file.dirCluster
  unfold updateDirEntrySize
  split
  next hfailed =>
    rw [hfailed] at hread
    rw [hread.disk_eq]
  next hok =>
    exact absurd (clusterResponds_of_readCluster (by rw [hok])) hsilent

/-! ### Writing through the marker -/

section

variable (vol : Volume) (dir : List Nat) (found : DirEntry) (marker : Nat)

/-- Were the entry of the end-of-chain marker set to free, in every copy that
the loop over the copies reaches, no byte of the directory outside the two
fields of the entry found would change. -/
def MarkerHarmless : Prop :=
  ∀ copy < vol.geometry.numFats, CopyReached vol.disk vol.geometry 0 copy marker →
    ∀ k < 4, ∀ d ∈ dir, ∀ r < vol.geometry.bytesPerCluster,
      vol.geometry.fatAddress copy marker + k = vol.geometry.clusterAddress d + r →
      ¬ FieldByte found d r →
      (leBytes 4 (mergeEntry clusterFree
          (word vol.disk.bytes (vol.geometry.fatAddress copy marker)))).getD k 0 =
        vol.disk.bytes (vol.geometry.clusterAddress d + r)

theorem agreesOutside_writeFatEntry_iff :
    AgreesOutside dir found vol (vol.writeFatEntry marker clusterFree).2 ↔
      vol.MarkerHarmless dir found marker := by
  have hword : ∀ copy < vol.geometry.numFats, CopyReached vol.disk vol.geometry 0 copy marker →
      ∀ k < 4, (vol.writeFatEntry marker clusterFree).2.disk.bytes
          (vol.geometry.fatAddress copy marker + k) =
        (leBytes 4 (mergeEntry clusterFree
          (word vol.disk.bytes (vol.geometry.fatAddress copy marker)))).getD k 0 := by
    intro copy hcopy hreach k hk
    have hrange : copy < 0 + vol.geometry.numFats := by omega
    rw [writeFatEntry_disk, ← writeFatCopies_inside (Nat.zero_le copy) hrange hreach, getD_slice hk]
  constructor
  · intro h copy hcopy hreach k hk d hd r hr haddress hfield
    rw [← hword copy hcopy hreach k hk, haddress]
    exact h d hd r hr hfield
  intro h d hd r hr hfield
  by_cases hhit : ∃ copy < vol.geometry.numFats, CopyReached vol.disk vol.geometry 0 copy marker ∧
      ∃ k < 4, vol.geometry.fatAddress copy marker + k = vol.geometry.clusterAddress d + r
  · obtain ⟨copy, hcopy, hreach, k, hk, haddress⟩ := hhit
    rw [← h copy hcopy hreach k hk d hd r hr haddress hfield, ← haddress]
    exact hword copy hcopy hreach k hk
  rw [writeFatEntry_disk]
  refine writeFatCopies_outside fun copy _ hcopy hreach => ?_
  by_contra hin
  exact hhit ⟨copy, by omega, hreach,
    vol.geometry.clusterAddress d + r - vol.geometry.fatAddress copy marker, by omega,
    by omega⟩

end

theorem dataStart_le (geo : Geometry) (h : 2 ≤ cluster) :
    geo.clusterAddress 2 ≤ geo.clusterAddress cluster := by
  rcases Nat.eq_or_lt_of_le h with rfl | hlt
  · exact le_rfl
  · have := geo.clusterAddress_disjoint (Nat.le_refl 2) hlt
    omega

section SameData

variable (hgeometry : vol'.geometry = vol.geometry)
  (hbytes : ∀ i, vol.geometry.clusterAddress 2 ≤ i → vol'.disk.bytes i = vol.disk.bytes i)
  (hvalid : ∀ d ∈ dir, vol.geometry.Valid d)

include hgeometry hbytes hvalid

/-- What is said about the data region only, is said of any volume with the
same bytes there. -/
theorem MarkerHarmless.congr (hresponds : vol'.disk.responds = vol.disk.responds)
    (h : vol.MarkerHarmless dir found marker) : vol'.MarkerHarmless dir found marker := by
  intro copy hcopy hreach k hk d hd r hr haddress hfield
  rw [hgeometry] at hcopy hr haddress ⊢
  have hstart := dataStart_le vol.geometry (hvalid d hd).1
  -- a word of the FAT that reaches into the data region begins there
  have hfat : vol.geometry.clusterAddress 2 ≤ vol.geometry.fatAddress copy marker := by
    unfold Geometry.clusterAddress Geometry.fatAddress at *
    omega
  have hword : word vol'.disk.bytes (vol.geometry.fatAddress copy marker) =
      word vol.disk.bytes (vol.geometry.fatAddress copy marker) :=
    congrArg leValue (slice_congr fun i _ => hbytes _ (by omega))
  rw [hword, hbytes _ (by omega)]
  refine h copy hcopy (fun j hfirst hlast => ?_) k hk d hd r hr haddress hfield
  have := hreach j hfirst hlast
  rwa [hgeometry, hresponds] at this

theorem agreesOutside_congr {vol'' : Volume} :
    AgreesOutside dir found vol vol'' ↔ AgreesOutside dir found vol' vol'' := by
  unfold AgreesOutside
  rw [hgeometry]
  refine forall_congr' fun d => forall_congr' fun hd => forall_congr' fun r => ?_
  have hstart := dataStart_le vol.geometry (hvalid d hd).1
  rw [hbytes (vol.geometry.clusterAddress d + r) (by omega)]

end SameData

theorem FatOnly.dataBytes {written : List Nat} (h : FatOnly written vol vol')
    (hwritten : ∀ c ∈ written, vol.geometry.InFat c) (hi : vol.geometry.clusterAddress 2 ≤ i) :
    vol'.disk.bytes i = vol.disk.bytes i := by
  refine h.bytes i fun copy hcopy c hc => .inr ?_
  have hfat : vol.geometry.fatAddress copy c + 4 ≤ vol.geometry.clusterAddress 2 :=
    vol.geometry.fatAddress_lt_clusterAddress hcopy (hwritten c hc)
  omega

/-- Freeing a chain spares the directory exactly if the write through its
marker does. -/
theorem agreesOutside_freeBehind_iff (found : DirEntry) (hvalid : ∀ d ∈ dir, vol.geometry.Valid d)
    (hclusters : ∀ c ∈ clusters, vol.geometry.Valid c) (hne : clusters ≠ []) :
    AgreesOutside dir found vol (vol.freeBehind clusters marker) ↔
      vol.MarkerHarmless dir found marker := by
  have hfat := freeEach_fatOnly vol clusters
  have hgeometry := hfat.geometry
  have hbytes : ∀ i, vol.geometry.clusterAddress 2 ≤ i →
      (vol.freeEach clusters).disk.bytes i = vol.disk.bytes i :=
    fun i => hfat.dataBytes fun c hc => (hclusters c hc).inFat
  have hback : ∀ i, (vol.freeEach clusters).geometry.clusterAddress 2 ≤ i →
      vol.disk.bytes i = (vol.freeEach clusters).disk.bytes i :=
    fun i hi => (hbytes i (by rwa [hgeometry] at hi)).symm
  have hvalid' : ∀ d ∈ dir, (vol.freeEach clusters).geometry.Valid d := by rwa [hgeometry]
  have hmarker : AgreesOutside dir found (vol.freeEach clusters)
        ((vol.freeEach clusters).freeCluster marker) ↔
      AgreesOutside dir found (vol.freeEach clusters)
        ((vol.freeEach clusters).writeFatEntry marker clusterFree).2 := by
    unfold AgreesOutside
    simp [freeCluster, writeFatEntry_disk]
  rw [freeBehind, if_neg hne, agreesOutside_congr hgeometry hbytes hvalid, hmarker,
    agreesOutside_writeFatEntry_iff]
  exact ⟨MarkerHarmless.congr hgeometry.symm hback hvalid' hfat.responds.symm,
    MarkerHarmless.congr hgeometry hbytes hvalid hfat.responds⟩

/-! ## Calls -/

/-- A call on the inode of a file that returns success. -/
def call (fuel : Nat) (vol : Volume) (file : FileInode) :
    FileState.Call → Option (Volume × FileInode)
  | .writeAt offset data =>
    match vol.writeAt fuel file offset data with
    | some (.ok _, vol, file) => some (vol, file)
    | _ => none
  | .truncate newSize =>
    match vol.truncate fuel file newSize with
    | some (.ok (), vol, file) => some (vol, file)
    | _ => none

/-- A file of a directory, described by its inode as a lookup describes it: the
inode names the first cluster of the directory and the slot of the entry found,
and it holds the first cluster and the size that the entry holds.  The chain of
the file is long enough for its size, and it shares no cluster with the
directory. -/
structure Opened (vol : Volume) (dir : List Nat) (found : DirEntry) (file : FileInode)
    (clusters : List Nat) (marker : Nat) : Prop where
  ready : vol.ready = true
  guarded : vol.Guarded dir
  chain : vol.Chain clusters marker
  apart : ∀ c ∈ clusters, c ∉ dir
  first : file.firstCluster = clusters.headD 0
  size_le : file.fileSize ≤ clusters.length * vol.geometry.bytesPerCluster
  cluster_agrees :
    RawEntry.cluster (vol.entryAt found.cluster found.entryIndex) = file.firstCluster
  size_agrees : RawEntry.fileSize (vol.entryAt found.cluster found.entryIndex) = file.fileSize

namespace Opened

variable (h : vol.Opened dir found file clusters marker)
include h

theorem updatesOnly_refl : UpdatesOnly dir found vol vol file :=
  ⟨h.cluster_agrees, h.size_agrees, fun _ _ _ _ _ => rfl⟩

theorem size_lt : file.fileSize < 2 ^ 32 := by
  rw [← h.size_agrees]
  exact word_lt _ _

theorem ne_nil (hpos : 0 < file.fileSize) : clusters ≠ [] := by
  have hsize := h.size_le
  rintro rfl
  simp at hsize
  omega

theorem firstOutside : FirstOutside vol.geometry dir file.firstCluster := by
  rw [h.first]
  cases clusters with
  | nil => exact .inl (by simp)
  | cons cluster rest =>
    exact .inr ⟨h.chain.valid cluster mem_cons_self, h.apart cluster mem_cons_self⟩

end Opened

/-- A write that succeeds ends with an update of the entry, unless it writes
nothing at all. -/
theorem call_writeAt {offset : Nat} {data : List UInt8}
    (h : vol.call fuel file (.writeAt offset data) = some (vol', file')) :
    (vol' = vol ∧ file' = file) ∨
      ∃ first' pos' vol₁, writeLoop fuel data.length vol file.firstCluster offset data =
          some (first', pos', vol₁) ∧
        file' = { file with
          firstCluster := first'
          fileSize := if file.fileSize < pos' then pos' % 2 ^ 32 else file.fileSize } ∧
        vol' = vol₁.updateDirEntrySize file' := by
  rw [call] at h
  split at h
  next hok =>
    rw [writeAt] at hok
    split at hok
    · simp only [some.injEq, Prod.mk.injEq] at hok h
      exact .inl ⟨by rw [← h.1, hok.2.1], by rw [← h.2, hok.2.2]⟩
    split at hok
    · cases hok
    split at hok
    · cases hok
    next first' pos' vol₁ hloop =>
      obtain ⟨-, rfl, rfl⟩ := hok
      obtain ⟨rfl, rfl⟩ := h
      exact .inr ⟨first', pos', vol₁, hloop, rfl, rfl⟩
  · simp at h

/-- The part of `truncate` before the update of the entry. -/
def cut (fuel : Nat) (vol : Volume) (file : FileInode) (newSize : Nat) : Option Volume :=
  if newSize = 0 then
    if firstDataCluster ≤ file.firstCluster then freeChain fuel vol file.firstCluster
    else some vol
  else cutChain fuel vol file.firstCluster newSize

theorem call_truncate (hready : vol.ready = true)
    (h : vol.call fuel file (.truncate newSize) = some (vol', file')) :
    (vol' = vol ∧ file' = file) ∨
      newSize < file.fileSize ∧ ∃ vol₁, vol.cut fuel file newSize = some vol₁ ∧
        file' = { file with
          firstCluster := if newSize = 0 then 0 else file.firstCluster
          fileSize := newSize } ∧
        vol' = vol₁.updateDirEntrySize file' := by
  rw [call] at h
  split at h
  next hok =>
    rw [truncate, hready] at hok
    split at hok
    · cases hok
    split at hok
    · simp only [some.injEq, Prod.mk.injEq] at hok h
      exact .inl ⟨by rw [← h.1, hok.2.1], by rw [← h.2, hok.2.2]⟩
    obtain ⟨vol₁, hcut, heq⟩ := map_eq_some_iff.mp hok
    obtain ⟨-, rfl, rfl⟩ := heq
    obtain ⟨rfl, rfl⟩ := h
    exact .inr ⟨by omega, vol₁, hcut, rfl, rfl⟩
  · simp at h

/-! ### What a truncation frees -/

section

variable (h : vol.Opened dir found file clusters marker)
include h

theorem Opened.cut_zero (fuel : Nat) (hne : clusters ≠ []) :
    vol.cut fuel file 0 =
      if clusters.length < fuel then some (vol.freeBehind clusters marker) else none := by
  rw [freeBehind, if_neg hne, ← freeChain_eq fuel h.chain, cut, h.first]
  cases clusters with
  | nil => exact absurd rfl hne
  | cons cluster rest => exact if_pos (h.chain.valid cluster mem_cons_self).1

theorem Opened.call_truncate_zero (hne : clusters ≠ []) (hpos : 0 < file.fileSize) :
    vol.call (clusters.length + 1) file (.truncate 0) =
      some ((vol.freeBehind clusters marker).updateDirEntrySize
          { file with firstCluster := 0, fileSize := 0 },
        { file with firstCluster := 0, fileSize := 0 }) := by
  have hcut := h.cut_zero (clusters.length + 1) hne
  rw [cut, if_pos rfl] at hcut
  rw [call, truncate, if_neg (by omega), if_neg (by omega), h.ready]
  simp [hcut]

/-- Cutting off a part of a file: clusters of its chain are freed, and an entry
inside the FAT may be set. -/
theorem cut_agreesOutside (hless : newSize < file.fileSize) (hharmless : vol.MarkerHarmless dir found marker)
    (hcut : vol.cut fuel file newSize = some vol₁) :
    vol₁.geometry = vol.geometry ∧ vol₁.disk.responds = vol.disk.responds ∧
      AgreesOutside dir found vol vol₁ := by
  have hsize := h.size_le
  -- A part of the chain, freed in a volume that differs in its cache only.
  have hfreed : ∀ (vol₂ : Volume) (freed : List Nat), DataOnly (fun _ => False) vol vol₂ →
      (∀ c ∈ freed, vol.geometry.Valid c) →
      AgreesOutside dir found vol (vol₂.freeBehind freed marker) := by
    intro vol₂ freed hdata hvalid
    have hsame : ∀ i, vol.geometry.clusterAddress 2 ≤ i → vol₂.disk.bytes i = vol.disk.bytes i :=
      fun i _ => by rw [hdata.disk_eq]
    rw [agreesOutside_congr hdata.geometry hsame h.guarded.valid]
    by_cases hnil : freed = []
    · rw [freeBehind, if_pos hnil]
      exact fun _ _ _ _ _ => rfl
    · refine (agreesOutside_freeBehind_iff found (by rw [hdata.geometry]; exact h.guarded.valid)
        (by rw [hdata.geometry]; exact hvalid) hnil).mpr ?_
      exact hharmless.congr hdata.geometry hsame h.guarded.valid hdata.responds
  by_cases hzero : newSize = 0
  · have hfat := freeBehind_fatOnly vol clusters marker
    rw [hzero, h.cut_zero fuel (h.ne_nil (by omega))] at hcut
    split at hcut
    · rw [← some.inj hcut]
      exact ⟨hfat.geometry, hfat.responds, hfreed vol _ (DataOnly.refl _ vol) h.chain.valid⟩
    · cases hcut
  · have hindex : (newSize - 1) / vol.geometry.bytesPerCluster < clusters.length := by
      rw [Nat.div_lt_iff_lt_mul vol.geometry.bytesPerCluster_pos]
      omega
    obtain ⟨_, last, freed, rfl, hfront⟩ := FileState.exists_split_at hindex
    obtain ⟨vol₂, hdata, heq⟩ := cutChain_eq fuel h.chain hfront.symm
    rw [cut, if_neg hzero, h.first, heq] at hcut
    split at hcut
    · have hfat := hdata.fatOnly.trans (freeBehind_fatOnly vol₂ freed marker)
      have hwrite := writeFatEntry_fatOnly (vol₂.freeBehind freed marker) last clusterEof
      have hlast : (vol₂.freeBehind freed marker).geometry.InFat last := by
        rw [hfat.geometry]
        exact (h.chain.valid last (by simp)).inFat
      have hagree := hfreed vol₂ freed hdata fun c hc => h.chain.valid c (by simp [hc])
      rw [← some.inj hcut]
      refine ⟨hwrite.geometry.trans hfat.geometry, hwrite.responds.trans hfat.responds,
        hagree.trans hfat.geometry fun d hd r hr _ => ?_⟩
      have hstart := dataStart_le (vol₂.freeBehind freed marker).geometry
        (show 2 ≤ d from (h.guarded.valid d hd).1)
      exact hwrite.dataBytes (by simpa using hlast) (by omega)
    · cases hcut

/-! ### Calls that keep to the entry -/

section Sufficient

variable (hcluster : found.cluster = file.dirCluster) (hindex : found.entryIndex = file.dirEntryIndex)
  (hmem : file.dirCluster ∈ dir)
  (hfits : file.dirEntryIndex * 32 + 32 ≤ vol.geometry.bytesPerCluster)
  (hresponds : vol.ClusterResponds file.dirCluster)
include hcluster hindex hmem hfits hresponds

theorem writeAt_updatesOnly {offset : Nat} {data : List UInt8}
    (hcall : vol.call fuel file (.writeAt offset data) = some (vol', file')) :
    UpdatesOnly dir found vol vol' file' := by
  rcases call_writeAt hcall with ⟨rfl, rfl⟩ | ⟨first', pos', vol₁, hloop, rfl, rfl⟩
  · exact h.updatesOnly_refl
  obtain ⟨hkeep, hfirst⟩ := writeLoop_keepsDir fuel data.length vol file.firstCluster offset
    data first' pos' vol₁ h.guarded h.firstOutside hloop
  have hsize := h.size_lt
  refine updateDirEntrySize_updatesOnly h.guarded.valid hcluster hindex (h.guarded.valid _ hmem)
    hfits hkeep.geometry (fun d hd r hr _ => hkeep.bytes d hd (h.guarded.valid d hd) r hr) ?_
    hfirst.lt ?_
  · simpa [ClusterResponds, hkeep.geometry, hkeep.responds] using hresponds
  · dsimp only
    split <;> omega

theorem truncate_updatesOnly (hharmless : 0 < file.fileSize → vol.MarkerHarmless dir found marker)
    (hcall : vol.call fuel file (.truncate newSize) = some (vol', file')) :
    UpdatesOnly dir found vol vol' file' := by
  rcases call_truncate h.ready hcall with ⟨rfl, rfl⟩ | ⟨hless, _, hcut, rfl, rfl⟩
  · exact h.updatesOnly_refl
  obtain ⟨hgeometry, hsame, hagree⟩ := cut_agreesOutside h hless (hharmless (by omega)) hcut
  have hsize := h.size_lt
  have hfirst := h.firstOutside.lt
  refine updateDirEntrySize_updatesOnly h.guarded.valid hcluster hindex (h.guarded.valid _ hmem)
    hfits hgeometry hagree ?_ ?_ ?_
  · simpa [ClusterResponds, hgeometry, hsame] using hresponds
  · dsimp only
    split <;> omega
  · dsimp only
    omega

end Sufficient

end

/-! ### A write that always changes the size -/

theorem allocCluster_zero (fuel : Nat) (vol : Volume) :
    ∃ result, allocCluster fuel vol 0 = some result := by
  unfold allocCluster
  split
  · exact ⟨_, rfl⟩
  · split
    · exact ⟨_, rfl⟩
    · exact ⟨_, if_pos rfl⟩

/-- Up to the position right behind its chain, a file is written to without a
walk to the end of the chain. -/
theorem writeTarget_some (fuel : Nat) (h : vol.Chain clusters marker)
    (hindex : index ≤ clusters.length) :
    ∃ result, writeTarget fuel vol (clusters.headD 0) index = some result := by
  cases clusters with
  | nil => exact allocCluster_zero fuel vol
  | cons cluster rest =>
    have hwalk := clusterAtIndex_of_chain h hindex
    have hreached : firstDataCluster ≤ ((cluster :: rest).drop index).headD marker := by
      cases hdrop : (cluster :: rest).drop index with
      | nil =>
        have hmarker := of_decide_eq_true h.isEof_marker
        unfold clusterEofMin at hmarker
        unfold firstDataCluster
        simp
        omega
      | cons c _ =>
        have hmem : c ∈ cluster :: rest := mem_of_mem_drop (i := index) (by simp [hdrop])
        exact (h.valid c hmem).1
    have hfirst : firstDataCluster ≤ cluster := (h.valid cluster mem_cons_self).1
    rw [headD_cons] at hwalk ⊢
    rw [writeTarget, if_neg (Nat.not_lt.mpr hfirst)]
    split
    next hnone => simp [hnone] at hwalk
    next hsome =>
      rw [hsome] at hwalk
      rw [some.inj hwalk, if_neg (Nat.not_lt.mpr hreached)]
      exact ⟨_, rfl⟩

/-- Writing one byte moves the position by at most one. -/
theorem writeLoop_one {pos : Nat} (byte : UInt8)
    (h : ∃ result, writeTarget fuel vol firstCluster
      (pos / vol.geometry.bytesPerCluster % 2 ^ 32) = some result) :
    ∃ first' pos' vol', writeLoop fuel 1 vol firstCluster pos [byte] =
      some (first', pos', vol') ∧ (pos' = pos ∨ pos' = pos + 1) := by
  obtain ⟨⟨target, _⟩, htarget⟩ := h
  have hroom := Nat.mod_lt pos vol.geometry.bytesPerCluster_pos
  rw [writeLoop, if_neg (by simp)]
  dsimp only
  rw [htarget]
  cases target with
  | none => exact ⟨_, _, _, rfl, .inl rfl⟩
  | some target =>
    dsimp only
    split
    · exact ⟨_, _, _, rfl, .inl rfl⟩
    · refine ⟨_, _, _, rfl, .inr ?_⟩
      rw [length_singleton, Nat.min_eq_left (by omega)]

/-- Writing one byte behind the end of the file succeeds and changes the size,
even if the byte is not written. -/
theorem Opened.growing_write (fuel : Nat) (h : vol.Opened dir found file clusters marker) :
    ∃ vol₁ file', KeepsDir dir vol vol₁ ∧
      vol.call fuel file (.writeAt (file.fileSize + 1) [0]) =
        some (vol₁.updateDirEntrySize file', file') ∧
      file'.dirCluster = file.dirCluster ∧ file'.fileSize ≠ file.fileSize := by
  have hsize := h.size_le
  have hB : 2 ≤ vol.geometry.bytesPerCluster := by
    have := vol.geometry.sectorsPerCluster_pos
    unfold Geometry.bytesPerCluster
    omega
  have hindex : (file.fileSize + 1) / vol.geometry.bytesPerCluster % 2 ^ 32 ≤ clusters.length := by
    refine (Nat.mod_le _ _).trans (Nat.lt_succ_iff.mp ?_)
    rw [Nat.div_lt_iff_lt_mul (by omega), Nat.succ_mul]
    omega
  obtain ⟨first', pos', vol₁, hloop, _⟩ :=
    writeLoop_one 0 (writeTarget_some fuel h.chain hindex)
  rw [← h.first] at hloop
  have hkeep := (writeLoop_keepsDir fuel 1 vol file.firstCluster _ [0] first' pos' vol₁
    h.guarded h.firstOutside hloop).1
  refine ⟨vol₁, { file with firstCluster := first', fileSize := pos' % 2 ^ 32 }, hkeep, ?_, rfl, ?_⟩
  · rw [call, writeAt, if_neg (by simp), h.ready, if_neg (by simp), length_singleton, hloop]
    dsimp only
    rw [if_pos (by omega)]
  · dsimp only
    omega

theorem KeepsDir.entryAt (h : KeepsDir dir vol vol') (hmem : cluster ∈ dir)
    (hvalid : vol.geometry.Valid cluster) (hfits : index * 32 + 32 ≤ vol.geometry.bytesPerCluster) :
    vol'.entryAt cluster index = vol.entryAt cluster index := by
  unfold Volume.entryAt
  rw [h.geometry]
  refine slice_congr fun k hk => ?_
  rw [Nat.add_assoc]
  exact h.bytes cluster hmem hvalid _ (by omega)

/-- If every call keeps to the entry found, the entry is in the cluster that the
inode names, and that cluster responds. -/
theorem Opened.located (h : vol.Opened dir found file clusters marker)
    (hmem : found.cluster ∈ dir) (hdir : vol.geometry.Valid file.dirCluster)
    (hfits : found.entryIndex * 32 + 32 ≤ vol.geometry.bytesPerCluster)
    (hcalls : ∀ fuel call vol' file', vol.call fuel file call = some (vol', file') →
      UpdatesOnly dir found vol vol' file') :
    found.cluster = file.dirCluster ∧ vol.ClusterResponds file.dirCluster := by
  obtain ⟨vol₁, file', hkeep, hcall, hcluster, hsize⟩ := h.growing_write 0
  have hvalid := h.guarded.valid _ hmem
  by_contra hmiss
  have hmiss' : found.cluster ≠ file'.dirCluster ∨ ¬ vol₁.ClusterResponds file'.dirCluster := by
    rw [not_and_or] at hmiss
    rw [hcluster]
    simpa [ClusterResponds, hkeep.geometry, hkeep.responds] using hmiss
  have hentry := entryAt_updateDirEntrySize file' (by rw [hkeep.geometry]; exact hvalid)
    (by rw [hkeep.geometry]; exact hfits) (by rw [hkeep.geometry, hcluster]; exact hdir) hmiss'
  have hupdated := (hcalls 0 _ _ _ hcall).size
  rw [hentry, hkeep.entryAt hmem hvalid hfits, h.size_agrees] at hupdated
  exact hsize hupdated.symm

end Volume

open Volume in
/-- A call on the inode of a file that was looked up updates the entry that the
lookup matched, and nothing else in the directory, exactly if that entry is in
the first cluster of the directory, this cluster responds, and the write through
the marker of the file's chain, if there is something to truncate, changes
nothing in the directory. -/
theorem updates_matched_entry_iff {vol₀ vol₁ vol : Volume} {head dirMarker marker fuel₀ : Nat}
    {rest clusters : List Nat} {name : Name} {found : DirEntry} {file₀ file : FileInode}
    (hdir : vol₀.Chain (head :: rest) dirMarker) (hgeometry : vol.geometry = vol₀.geometry)
    (hlookup : lookupInDir name fuel₀ vol₀ head LfnState.clear = some (some found, vol₁))
    (hregular : Inode.ofEntry head found = .regular file₀)
    (hcluster : file.dirCluster = file₀.dirCluster)
    (hindex : file.dirEntryIndex = file₀.dirEntryIndex)
    (hopened : vol.Opened (head :: rest) found file clusters marker) :
    (∀ fuel call vol' file', vol.call fuel file call = some (vol', file') →
        UpdatesOnly (head :: rest) found vol vol' file') ↔
      found.cluster = head ∧ vol.ClusterResponds head ∧
        (0 < file.fileSize → vol.MarkerHarmless (head :: rest) found marker) := by
  obtain ⟨_, hslotMem, hslotCluster, _, -⟩ :=
    scanSlots_found (lookupInDir_found hdir hlookup)
  obtain ⟨hmem, hslot⟩ := mem_dirSlots hslotMem
  rw [← hslotCluster] at hmem
  have hplace : file₀.dirCluster = head ∧ file₀.dirEntryIndex = found.entryIndex := by
    unfold Inode.ofEntry at hregular
    split at hregular
    · cases hregular
    · rw [← Inode.regular.inj hregular]
      exact ⟨rfl, rfl⟩
  rw [hplace.1] at hcluster
  rw [hplace.2] at hindex
  have hfits : found.entryIndex * 32 + 32 ≤ vol.geometry.bytesPerCluster := by
    rw [← hgeometry] at hslot
    unfold Geometry.entriesPerCluster at hslot
    omega
  have hfits' : file.dirEntryIndex * 32 + 32 ≤ vol.geometry.bytesPerCluster := by
    rw [hindex]
    exact hfits
  have hhead : vol.geometry.Valid file.dirCluster := by
    rw [hcluster]
    exact hopened.guarded.valid head mem_cons_self
  constructor
  · intro hcalls
    obtain ⟨heq, hresponds⟩ := hopened.located hmem hhead hfits hcalls
    rw [hcluster] at heq
    refine ⟨heq, hcluster ▸ hresponds, fun hpos => ?_⟩
    have hne := hopened.ne_nil hpos
    have hfat := freeBehind_fatOnly vol clusters marker
    have hothers := (hcalls _ _ _ _ (hopened.call_truncate_zero hne hpos)).others
    refine (agreesOutside_freeBehind_iff found hopened.guarded.valid hopened.chain.valid hne).mp
      fun d hd r hr hfield => ?_
    have hupdate : AgreesOutside (head :: rest) found (vol.freeBehind clusters marker)
        ((vol.freeBehind clusters marker).updateDirEntrySize
          { file with firstCluster := 0, fileSize := 0 }) :=
      updateDirEntrySize_agreesOutside (by rw [hfat.geometry]; exact hopened.guarded.valid)
        (by rw [heq, hcluster]) hindex.symm (by rw [hfat.geometry]; exact hhead)
        (by rw [hfat.geometry]; exact hfits') (hfat.clusterResponds hresponds)
    have hbyte := hupdate d hd r (by rw [hfat.geometry]; exact hr) hfield
    rw [hfat.geometry] at hbyte
    rw [← hbyte]
    exact hothers d hd r hr hfield
  · rintro ⟨heq, hresponds, hharmless⟩ _ call _ _ hcall
    rw [← hcluster] at hresponds
    have hmem' : file.dirCluster ∈ head :: rest := by simp [hcluster]
    cases call with
    | writeAt offset data =>
      exact writeAt_updatesOnly hopened (by rw [heq, hcluster]) hindex.symm hmem' hfits'
        hresponds hcall
    | truncate newSize =>
      exact truncate_updatesOnly hopened (by rw [heq, hcluster]) hindex.symm hmem' hfits'
        hresponds hharmless hcall

/-! ## A directory of one cluster, and one of two -/

namespace Volume

/-- The name `a.txt`. -/
def sampleName : Name := [0x61, 0x2E, 0x74, 0x78, 0x74]

/-- The entry of `a.txt`: 700 bytes from cluster 3 on. -/
def sampleEntry : RawEntry := shortEntry (nameToShort sampleName).1 attrArchive 0x18 3 700

/-- The small volume with `a.txt` in the clusters 3 and 4, and its entry in the
first slot of the directory cluster 2. -/
def shortDirectory : Volume :=
  let linked := ((twoClusterVolume.bitmapSet 2).writeFatEntry 2 clusterEof).2
  (linked.writeEntries 2 0 [sampleEntry]).2

/-- The same file in a directory of the clusters 2 and 5: sixteen other entries
fill the first cluster, and the entry of `a.txt` is the first in the second. -/
def longDirectory : Volume :=
  let marked := (twoClusterVolume.bitmapSet 2).bitmapSet 5
  let linked := ((marked.writeFatEntry 2 5).2.writeFatEntry 5 clusterEof).2
  let others := (List.range 16).map fun i =>
    shortEntry (padTo 11 [UInt8.ofNat (65 + i)]) attrArchive 0 0 0
  ((linked.writeEntries 2 0 others).2.writeEntries 5 0 [sampleEntry]).2

theorem shortDirectory_fat :
    shortDirectory.Chain [2] clusterEof ∧ shortDirectory.Chain [3, 4] clusterEof ∧
      shortDirectory.fatCacheSector = none ∧
      ∀ c < shortDirectory.geometry.totalClusters + 2, c ∉ [2] →
        Outside shortDirectory.geometry [2] (shortDirectory.fatValue c) := by
  decide +kernel

theorem shortDirectory_guarded : shortDirectory.Guarded [2] where
  valid := by decide
  used := by decide
  onDisk := shortDirectory_fat.2.2.2
  cached := fun c _ _ hcached => absurd hcached (by rw [shortDirectory_fat.2.2.1]; simp)

end Volume

open Volume in
/-- With its entry in the first cluster, every call on `a.txt` updates it. -/
theorem updates_matched_entry_in_shortDirectory :
    ∃ found vol₁, lookupInDir sampleName 2 shortDirectory 2 LfnState.clear =
        some (some found, vol₁) ∧
      ∀ fuel call vol' file', shortDirectory.call fuel ⟨2, 0, 3, 700⟩ call = some (vol', file') →
        UpdatesOnly [2] found shortDirectory vol' file' := by
  have hview : (lookupInDir sampleName 2 shortDirectory 2 LfnState.clear).map
      (fun result => result.1.map fun found =>
        (found.cluster, found.entryIndex, Inode.ofEntry 2 found)) =
      some (some (2, 0, .regular ⟨2, 0, 3, 700⟩)) := by
    decide +kernel
  obtain ⟨⟨found?, vol₁⟩, hlookup, hfound⟩ := map_eq_some_iff.mp hview
  obtain ⟨found, rfl, hplace⟩ := map_eq_some_iff.mp hfound
  simp only [Prod.mk.injEq] at hplace
  obtain ⟨hcluster, hindex, hregular⟩ := hplace
  refine ⟨found, vol₁, hlookup, ?_⟩
  have hopened : shortDirectory.Opened [2] found ⟨2, 0, 3, 700⟩ [3, 4] clusterEof :=
    { ready := by decide +kernel
      guarded := shortDirectory_guarded
      chain := shortDirectory_fat.2.1
      apart := by decide
      first := rfl
      size_le := by decide
      cluster_agrees := by rw [hcluster, hindex]; decide +kernel
      size_agrees := by rw [hcluster, hindex]; decide +kernel }
  refine (updates_matched_entry_iff shortDirectory_fat.1 rfl hlookup hregular rfl rfl
    hopened).mpr ⟨hcluster, ?_, fun _ => ?_⟩
  · unfold ClusterResponds
    decide +kernel
  · intro copy _ hreach
    exact absurd (hreach 0 (Nat.le_refl 0) (Nat.zero_le copy)) (by decide +kernel)

open Volume in
/-- The entry of `a.txt` is found in cluster 5.  Writing one byte at the end of
the file sets the size of another file's entry, the first one in cluster 2, and
leaves that of `a.txt` at 700. -/
theorem entry_in_second_cluster_not_updated :
    longDirectory.Chain [2, 5] clusterEof ∧
      ∃ found vol file vol' file',
        lookupInDir sampleName 3 longDirectory 2 LfnState.clear = some (some found, vol) ∧
        Inode.ofEntry 2 found = .regular file ∧
        vol.call 20 file (.writeAt 700 [0]) = some (vol', file') ∧
        file'.fileSize = 701 ∧
        RawEntry.fileSize (vol'.entryAt 2 0) = 701 ∧
        ¬ UpdatesOnly [2, 5] found vol vol' file' := by
  refine ⟨by decide +kernel, ?_⟩
  have hview : ((lookupInDir sampleName 3 longDirectory 2 LfnState.clear).bind fun result =>
      (result.2.call 20 ⟨2, 0, 3, 700⟩ (.writeAt 700 [0])).map fun (vol', file') =>
        (result.1.map fun found => (found.cluster, found.entryIndex, Inode.ofEntry 2 found),
          file'.fileSize, RawEntry.fileSize (vol'.entryAt 2 0),
          RawEntry.fileSize (vol'.entryAt 5 0))) =
      some (some (5, 0, .regular ⟨2, 0, 3, 700⟩), 701, 701, 700) := by
    decide +kernel
  obtain ⟨⟨found?, vol⟩, hlookup, hrest⟩ := bind_eq_some_iff.mp hview
  obtain ⟨⟨vol', file'⟩, hcall, hresult⟩ := map_eq_some_iff.mp hrest
  simp only [Prod.mk.injEq] at hresult
  obtain ⟨hfound, hsize, hother, hmatched⟩ := hresult
  obtain ⟨found, rfl, hplace⟩ := map_eq_some_iff.mp hfound
  simp only [Prod.mk.injEq] at hplace
  obtain ⟨hcluster, hindex, hregular⟩ := hplace
  refine ⟨found, vol, ⟨2, 0, 3, 700⟩, vol', file', hlookup, hregular, hcall, hsize, hother,
    fun hupdates => ?_⟩
  have hentry := hupdates.size
  rw [hcluster, hindex, hmatched, hsize] at hentry
  cases hentry

end Bazzulto.Fat32
