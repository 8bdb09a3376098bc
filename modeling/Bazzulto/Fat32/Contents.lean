/-
  Fat32/Contents.lean --- a file as an array of bytes.

  The contents of a file are the bytes of its clusters in chain order, cut at
  its size.  This file relates runs of `write_at` and `truncate` to a reference
  array and says under which condition on each call the two agree.

  `write_at` finds the cluster for a position with `cluster_at_index`, which
  returns the end-of-chain marker for the index just behind the chain; the
  marker is then used as a cluster number, and a write that reaches this index
  is lost or misplaced.  A write further behind the chain appends one cluster
  and writes there whatever its index.  So a write is safe exactly inside the
  clusters the file already has, or inside the first cluster of a file that has
  none.  Bytes between the old end of the file and a later offset are whatever
  the clusters held before: they are never zeroed.
-/
import Bazzulto.Fat32.Cluster
import Mathlib.Data.List.Nodup

set_option autoImplicit false

namespace Bazzulto.Fat32

open Bazzulto.Foundation List

namespace Volume

variable {clusters freed : List Nat} {index r marker fuel : Nat} {vol vol' : Volume}

/-! ## The bytes of a chain -/

/-- The bytes of a chain of clusters, by position in the file. -/
def fileByte (vol : Volume) (clusters : List Nat) : Buffer := fun i =>
  let size := vol.geometry.bytesPerCluster
  vol.disk.bytes (vol.geometry.clusterAddress (clusters.getD (i / size) 0) + i % size)

theorem getD_mem (h : index < clusters.length) : clusters.getD index 0 ∈ clusters := by
  simp [h]

theorem fileByte_at (vol : Volume) (clusters : List Nat) {j : Nat}
    (hr : r < vol.geometry.bytesPerCluster) :
    vol.fileByte clusters (j * vol.geometry.bytesPerCluster + r) =
      vol.disk.bytes (vol.geometry.clusterAddress (clusters.getD j 0) + r) := by
  have hpos := vol.geometry.bytesPerCluster_pos
  have hdiv : (j * vol.geometry.bytesPerCluster + r) / vol.geometry.bytesPerCluster = j := by
    rw [Nat.mul_comm, Nat.mul_add_div hpos, Nat.div_eq_of_lt hr, Nat.add_zero]
  have hmod : (j * vol.geometry.bytesPerCluster + r) % vol.geometry.bytesPerCluster = r := by
    rw [Nat.mul_comm, Nat.mul_add_mod, Nat.mod_eq_of_lt hr]
  unfold fileByte
  dsimp only
  rw [hdiv, hmod]

theorem exists_cluster_position (geo : Geometry) {i count : Nat}
    (hi : i < count * geo.bytesPerCluster) :
    ∃ j r, j < count ∧ r < geo.bytesPerCluster ∧ i = j * geo.bytesPerCluster + r :=
  ⟨i / geo.bytesPerCluster, i % geo.bytesPerCluster,
    (Nat.div_lt_iff_lt_mul geo.bytesPerCluster_pos).mpr hi, Nat.mod_lt _ geo.bytesPerCluster_pos,
    (Nat.div_add_mod' _ _).symm⟩

theorem clusterAddress_ne (geo : Geometry) {c c' r' : Nat} (hc : 2 ≤ c) (hc' : 2 ≤ c')
    (hne : c ≠ c') (hr : r < geo.bytesPerCluster) (hr' : r' < geo.bytesPerCluster) :
    geo.clusterAddress c + r ≠ geo.clusterAddress c' + r' := by
  have hapart := geo.clusterAddress_apart hc hc' hne
  omega

/-- Overwriting a chunk of one cluster overwrites that part of the file. -/
theorem fileByte_of_splice {offset : Nat} {chunk : List UInt8}
    (hgeo : vol'.geometry = vol.geometry) (hnodup : clusters.Nodup)
    (hvalid : ∀ c ∈ clusters, vol.geometry.Valid c) (hidx : index < clusters.length)
    (hfits : offset + chunk.length ≤ vol.geometry.bytesPerCluster)
    (hbytes : vol'.disk.bytes =
      splice vol.disk.bytes (vol.geometry.clusterAddress (clusters.getD index 0) + offset) chunk)
    {i : Nat} (hi : i < clusters.length * vol.geometry.bytesPerCluster) :
    vol'.fileByte clusters i =
      splice (vol.fileByte clusters) (index * vol.geometry.bytesPerCluster + offset) chunk i := by
  obtain ⟨j, r, hj, hr, rfl⟩ := exists_cluster_position vol.geometry hi
  have hlocal : vol'.fileByte clusters (j * vol.geometry.bytesPerCluster + r) =
      vol'.disk.bytes (vol.geometry.clusterAddress (clusters.getD j 0) + r) := by
    rw [← hgeo] at hr ⊢
    exact fileByte_at vol' clusters hr
  rw [hlocal, hbytes]
  obtain rfl | heq := eq_or_ne j index
  · by_cases hin : offset ≤ r ∧ r < offset + chunk.length
    · obtain ⟨k, rfl⟩ : ∃ k, r = offset + k := ⟨r - offset, by omega⟩
      rw [← Nat.add_assoc, splice_inside (by omega), ← Nat.add_assoc, splice_inside (by omega)]
    · rw [splice_outside (by omega), splice_outside (by omega), fileByte_at vol clusters hr]
  · have hclusters : clusters.getD j 0 ≠ clusters.getD index 0 := by
      simp only [getD_eq_getElem, hj, hidx]
      exact fun hsame => heq ((List.Nodup.getElem_inj_iff hnodup).mp hsame)
    have hapart := vol.geometry.clusterAddress_apart (hvalid _ (getD_mem hj)).1
      (hvalid _ (getD_mem hidx)).1 hclusters
    have hfile := (Nat.lt_or_gt_of_ne heq).imp
      (Nat.mul_le_mul_right vol.geometry.bytesPerCluster)
      (Nat.mul_le_mul_right vol.geometry.bytesPerCluster)
    rw [Nat.succ_mul, Nat.succ_mul] at hfile
    rw [splice_outside (by omega), splice_outside (by omega), fileByte_at vol clusters hr]

/-! ## Writing inside the chain -/

theorem index_inside (geo : Geometry) (clusters : List Nat) (pos : Nat)
    (hpos : pos < clusters.length * geo.bytesPerCluster) (hlt : pos < 2 ^ 32) :
    pos / geo.bytesPerCluster < clusters.length ∧
      pos / geo.bytesPerCluster % 2 ^ 32 = pos / geo.bytesPerCluster :=
  ⟨(Nat.div_lt_iff_lt_mul geo.bytesPerCluster_pos).mpr hpos,
    Nat.mod_eq_of_lt (Nat.lt_of_le_of_lt (Nat.div_le_self _ _) hlt)⟩

theorem clusterAtIndex_inside (h : vol.Chain clusters marker) (hidx : index < clusters.length) :
    ∃ vol', clusterAtIndex index vol (clusters.headD 0) = (some (clusters.getD index 0), vol') ∧
      DataOnly (fun _ => False) vol vol' := by
  have hhead : clusters.headD marker = clusters.headD 0 := by
    cases clusters with
    | nil => simp at hidx
    | cons cluster rest => rfl
  have hdrop : (clusters.drop index).headD marker = clusters.getD index 0 := by
    rw [drop_eq_getElem_cons hidx, headD_cons, getD_eq_getElem _ _ hidx]
  have hwalk := clusterAtIndex_of_chain h (Nat.le_of_lt hidx)
  rw [hhead, hdrop] at hwalk
  exact ⟨_, Prod.ext hwalk rfl, clusterAtIndex_dataOnly index vol (clusters.headD 0)⟩

/-- Inside the chain, the cluster to write to is the one with the index. -/
theorem writeTarget_of_chain (fuel : Nat) (h : vol.Chain clusters marker)
    (hidx : index < clusters.length) :
    ∃ vol', writeTarget fuel vol (clusters.headD 0) index =
        some (some (clusters.getD index 0, clusters.headD 0), vol') ∧
      DataOnly (fun _ => False) vol vol' := by
  have hfirst : ¬ clusters.headD 0 < firstDataCluster := by
    cases clusters with
    | nil => simp at hidx
    | cons cluster rest => exact Nat.not_lt.mpr (h.valid cluster mem_cons_self).1
  have htarget : ¬ clusters.getD index 0 < firstDataCluster :=
    Nat.not_lt.mpr (h.valid _ (getD_mem hidx)).1
  obtain ⟨vol', hwalk, hdata⟩ := clusterAtIndex_inside h hidx
  refine ⟨vol', ?_, hdata⟩
  rw [writeTarget, if_neg hfirst, hwalk]
  exact if_neg htarget

/-- One round of the write loop once its cluster is known to respond. -/
theorem writeLoop_succ (rounds : Nat) {firstCluster pos cluster firstCluster' : Nat}
    {data : List UInt8} (hdata : data ≠ [])
    (htarget : writeTarget fuel vol firstCluster (pos / vol.geometry.bytesPerCluster % 2 ^ 32) =
      some (some (cluster, firstCluster'), vol')) (hgeo : vol'.geometry = vol.geometry)
    (hcluster : 2 ≤ cluster) (hresp : vol'.ClusterResponds cluster) :
    let size := vol.geometry.bytesPerCluster
    let chunk := min data.length (size - pos % size)
    ∃ vol'', writeLoop fuel (rounds + 1) vol firstCluster pos data =
        writeLoop fuel rounds vol'' firstCluster' (pos + chunk) (data.drop chunk) ∧
      DataOnly (· = cluster) vol' vol'' ∧
      vol''.disk.bytes = splice vol'.disk.bytes
        (vol.geometry.clusterAddress cluster + pos % size) (data.take chunk) := by
  intro size chunk
  have hoffset : pos % size < size := Nat.mod_lt _ vol.geometry.bytesPerCluster_pos
  have hfits : pos % size + (data.take chunk).length ≤ vol'.geometry.bytesPerCluster := by
    rw [hgeo, length_take]
    omega
  obtain ⟨hok, hbytes⟩ := writeChunk_of_responds hcluster hresp hfits
  refine ⟨(vol'.writeChunk cluster (pos % size) (data.take chunk)).2, ?_,
    writeChunk_dataOnly vol' cluster (pos % size) (data.take chunk), ?_⟩
  · rw [writeLoop, if_neg hdata]
    simp only [htarget]
    split
    next hfailed => simp [size, chunk, hfailed] at hok
    next hwritten => rw [hwritten]
  · rw [hbytes, hgeo]

/-- A write that stays inside the clusters of the file writes all of its data
at its place. -/
theorem writeLoop_of_chain (fuel : Nat) :
    ∀ (rounds : Nat) (vol : Volume) (pos : Nat) (data : List UInt8),
      vol.Chain clusters marker → (∀ c ∈ clusters, vol.ClusterResponds c) →
      data.length ≤ rounds → pos + data.length ≤ 2 ^ 32 →
      pos + data.length ≤ clusters.length * vol.geometry.bytesPerCluster →
      ∃ vol', writeLoop fuel rounds vol (clusters.headD 0) pos data =
          some (clusters.headD 0, pos + data.length, vol') ∧
        DataOnly (· ∈ clusters) vol vol' ∧
        ∀ i < clusters.length * vol.geometry.bytesPerCluster,
          vol'.fileByte clusters i = splice (vol.fileByte clusters) pos data i := by
  intro rounds
  induction rounds with
  | zero =>
    intro vol pos data _ _ hrounds _ _
    have hempty : data = [] := length_eq_zero_iff.mp (Nat.le_zero.mp hrounds)
    subst hempty
    exact ⟨vol, rfl, DataOnly.refl _ vol, fun i _ => (splice_outside (by simp; omega)).symm⟩
  | succ rounds ih =>
    intro vol pos data hchain hresp _ _ _
    obtain rfl | hempty := eq_or_ne data []
    · exact ⟨vol, by simp [writeLoop], DataOnly.refl _ vol,
        fun i _ => (splice_outside (by simp; omega)).symm⟩
    have hlen : 0 < data.length := length_pos_iff.mpr hempty
    have hsize := vol.geometry.bytesPerCluster_pos
    obtain ⟨hidx, hcut⟩ := index_inside vol.geometry clusters pos (by omega) (by omega)
    have hmem := getD_mem hidx
    obtain ⟨_, htarget, hwalk⟩ := writeTarget_of_chain fuel hchain hidx
    obtain ⟨vol₂, hloop, hchunk, hbytes⟩ := writeLoop_succ rounds hempty
      (by rw [hcut]; exact htarget) hwalk.geometry (hchain.valid _ hmem).1
      (hwalk.clusterResponds (hresp _ hmem))
    have hkeep : DataOnly (· ∈ clusters) vol vol₂ :=
      hwalk.weaken.trans (hchunk.mono fun c hc => hc ▸ hmem)
    rw [hwalk.disk_eq] at hbytes
    generalize hchunkLen : min data.length (vol.geometry.bytesPerCluster -
      pos % vol.geometry.bytesPerCluster) = chunk at hloop hbytes
    have hoffset : pos % vol.geometry.bytesPerCluster < vol.geometry.bytesPerCluster :=
      Nat.mod_lt _ hsize
    have htake : (data.take chunk).length = chunk := by rw [length_take]; omega
    have hdrop : (data.drop chunk).length = data.length - chunk := length_drop
    obtain ⟨vol', hrest, hdata, hfile⟩ := ih vol₂ (pos + chunk) (data.drop chunk)
      (hkeep.chain hchain) (fun c hc => hkeep.clusterResponds (hresp c hc)) (by omega)
      (by omega) (by rw [hkeep.geometry]; omega)
    refine ⟨vol', ?_, hkeep.trans hdata, fun i hi => ?_⟩
    · rw [hloop, hrest]
      congr 3
      omega
    have hplace := Nat.div_add_mod' pos vol.geometry.bytesPerCluster
    have hfirst := fileByte_of_splice hkeep.geometry hchain.nodup hchain.valid hidx
      (by omega) hbytes hi
    rw [hplace] at hfirst
    rw [hfile i (by rw [hkeep.geometry]; exact hi), splice_congr hfirst]
    have happend := splice_append (vol.fileByte clusters) pos (data.take chunk)
      (data.drop chunk)
    rw [htake, take_append_drop] at happend
    rw [happend]

/-! ## Reading -/

theorem DataOnly.fileByte_eq (h : DataOnly (fun _ => False) vol vol') (clusters : List Nat) :
    vol'.fileByte clusters = vol.fileByte clusters := by
  unfold fileByte
  rw [h.disk_eq, h.geometry]

/-- Reading inside the clusters of the file returns its bytes. -/
theorem readLoop_of_chain :
    ∀ (rounds : Nat) (vol : Volume) (pos remaining : Nat) (done : List UInt8),
      vol.Chain clusters marker → (∀ c ∈ clusters, vol.ClusterResponds c) →
      remaining ≤ rounds → pos + remaining < 2 ^ 32 →
      pos + remaining ≤ clusters.length * vol.geometry.bytesPerCluster →
      (readLoop (clusters.headD 0) rounds vol pos remaining done).1 =
        done ++ slice (vol.fileByte clusters) pos remaining := by
  intro rounds
  induction rounds with
  | zero =>
    intro vol pos remaining done _ _ hrounds _ _
    rw [Nat.le_zero.mp hrounds]
    simp [readLoop, slice]
  | succ rounds ih =>
    intro vol pos remaining done hchain hresp _ _ _
    obtain rfl | hzero := eq_or_ne remaining 0
    · simp [readLoop, slice]
    have hsize := vol.geometry.bytesPerCluster_pos
    have hoffset : pos % vol.geometry.bytesPerCluster < vol.geometry.bytesPerCluster :=
      Nat.mod_lt _ hsize
    obtain ⟨hidx, hcut⟩ := index_inside vol.geometry clusters pos (by omega) (by omega)
    obtain ⟨vol₁, hwalk, hdata₁⟩ := clusterAtIndex_inside hchain hidx
    have hcluster := (hchain.valid _ (getD_mem hidx)).1
    have hresponds₁ := hdata₁.clusterResponds (hresp _ (getD_mem hidx))
    have hdata₂ := readCluster_dataOnly vol₁ (clusters.getD (pos / vol.geometry.bytesPerCluster) 0)
    have hkeep := hdata₁.trans hdata₂
    have hlow : ¬ clusters.getD (pos / vol.geometry.bytesPerCluster) 0 < firstDataCluster :=
      Nat.not_lt.mpr hcluster
    rw [readLoop, if_neg hzero]
    simp only [hcut, hwalk, if_neg hlow]
    have hread := readCluster_of_responds hcluster hresponds₁
    rw [hread] at hkeep ⊢
    dsimp only at hkeep ⊢
    rw [ih _ _ _ _ (hkeep.chain hchain)
      (fun c hc => hkeep.clusterResponds (hresp c hc)) (by omega) (by omega)
      (by rw [hkeep.geometry]; omega), hkeep.fileByte_eq, append_assoc]
    generalize hchunkLen : min remaining (vol.geometry.bytesPerCluster -
      pos % vol.geometry.bytesPerCluster) = chunk
    have hplace := Nat.div_add_mod' pos vol.geometry.bytesPerCluster
    have hsplit : remaining = chunk + (remaining - chunk) := by omega
    conv => rhs; rw [hsplit, slice_add]
    refine congrArg (fun bytes => done ++ (bytes ++ _)) (slice_congr fun i hi => ?_)
    rw [if_pos (by rw [hdata₁.geometry]; omega), hdata₁.geometry, hdata₁.disk_eq,
      ← fileByte_at vol clusters (by omega), ← Nat.add_assoc, hplace]

/-! ## Cutting a chain -/

/-- The volume after what follows a cut was freed. -/
def freeBehind (vol : Volume) (freed : List Nat) (marker : Nat) : Volume :=
  if freed = [] then vol else (vol.freeEach freed).freeCluster marker

/-- The entries freeing writes: those of the freed clusters and of the marker
behind them. -/
def freedEntries (freed : List Nat) (marker : Nat) : List Nat :=
  if freed = [] then [] else freed ++ [marker]

theorem freeBehind_fatOnly (vol : Volume) (freed : List Nat) (marker : Nat) :
    FatOnly (freedEntries freed marker) vol (vol.freeBehind freed marker) := by
  unfold freeBehind freedEntries
  split
  · exact (DataOnly.refl _ vol).fatOnly
  · exact (freeEach_fatOnly vol freed).trans (freeCluster_fatOnly _ marker)

theorem freeRest (fuel : Nat) (h : vol.Chain freed marker) :
    (if firstDataCluster ≤ freed.headD marker ∧ isEof (freed.headD marker) = false then
        freeChain fuel vol (freed.headD marker) else some vol) =
      if freed = [] ∨ freed.length < fuel then some (vol.freeBehind freed marker) else none := by
  cases freed with
  | nil => simp [h.isEof_marker, freeBehind]
  | cons cluster rest =>
    have hvalid := h.valid cluster mem_cons_self
    have hcond : firstDataCluster ≤ (cluster :: rest).headD marker ∧
        isEof ((cluster :: rest).headD marker) = false := ⟨hvalid.1, hvalid.not_isEof⟩
    rw [if_pos hcond, freeChain_eq fuel h]
    simp [freeBehind]

/-- Cutting a chain behind one of its clusters: after some reads, the rest is
freed and the last kept cluster ends the chain. -/
theorem cutChain_eq {front : List Nat} {last newSize : Nat} (fuel : Nat)
    (h : vol.Chain (front ++ last :: freed) marker)
    (hidx : (newSize - 1) / vol.geometry.bytesPerCluster = front.length) :
    ∃ vol₂, DataOnly (fun _ => False) vol vol₂ ∧
      cutChain fuel vol ((front ++ last :: freed).headD 0) newSize =
        if freed = [] ∨ freed.length < fuel then
          some ((vol₂.freeBehind freed marker).writeFatEntry last clusterEof).2
        else none := by
  have hget : (front ++ last :: freed).getD front.length 0 = last := by simp
  obtain ⟨vol₁, hwalk, hdata₁⟩ := clusterAtIndex_inside h
    (show front.length < (front ++ last :: freed).length by simp)
  have hread := (hdata₁.chain h).suffix.readFatEntry_head
  have hdata₂ := hdata₁.trans (readFatEntry_dataOnly vol₁ last)
  have hrest := freeRest fuel (hdata₂.chain h).suffix.tail
  refine ⟨_, hdata₂, ?_⟩
  unfold cutChain
  rw [hidx, hwalk, hget]
  dsimp only
  rw [hread]
  dsimp only
  rw [hrest]
  split <;> rfl

end Volume

end Bazzulto.Fat32
