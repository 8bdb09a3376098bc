/-
  Fat32/Guard.lean --- why writing a file does not write into a directory.

  `Guarded vol dir` is what keeps the data writes of `write_at` away from the
  clusters of a directory: they are marked used, so that no allocation returns
  one, and no entry of the FAT outside the directory's own chain leads into
  them, on the disk or in the cache, so that no walk along a file's chain
  arrives at one.  It does not ask the cache to be coherent, and so it is kept
  wherever the partition starts, through the stale reads that follow.
-/
import Bazzulto.Fat32.Cluster

set_option autoImplicit false

namespace Bazzulto.Fat32

open Bazzulto.Foundation Option Disk

namespace Volume

variable {geo : Geometry} {dir : List Nat} {value cluster index firstCluster fuel : Nat}
  {vol vol' : Volume} {last : Option Nat} {result : Option (Nat × Nat)}

/-- A number that an entry outside the directory may hold: no cluster of the
directory, and a number of a cluster or a marker. -/
def Outside (geo : Geometry) (dir : List Nat) (value : Nat) : Prop :=
  value ∉ dir ∧ (value < geo.totalClusters + 2 ∨ 0x0FFFFFF7 ≤ value)
  deriving Decidable

structure Guarded (vol : Volume) (dir : List Nat) : Prop where
  valid : ∀ d ∈ dir, vol.geometry.Valid d
  used : ∀ d ∈ dir, vol.Used d
  onDisk : ∀ c < vol.geometry.totalClusters + 2, c ∉ dir → Outside vol.geometry dir (vol.fatValue c)
  cached : ∀ c < vol.geometry.totalClusters + 2, c ∉ dir →
    vol.fatCacheSector = some (fatKey vol.geometry c) →
    Outside vol.geometry dir (word vol.fatCacheBuf (c * 4 % 512) % 2 ^ 28)

/-- From `vol` to `vol'` the directory stays guarded and keeps its bytes. -/
structure KeepsDir (dir : List Nat) (vol vol' : Volume) : Prop where
  geometry : vol'.geometry = vol.geometry
  responds : vol'.disk.responds = vol.disk.responds
  guarded : vol.Guarded dir → vol'.Guarded dir
  bytes : ∀ d ∈ dir, vol.geometry.Valid d → ∀ r < vol.geometry.bytesPerCluster,
    vol'.disk.bytes (vol.geometry.clusterAddress d + r) =
      vol.disk.bytes (vol.geometry.clusterAddress d + r)

open KeepsDir

namespace KeepsDir

variable {vol'' : Volume}

theorem refl (dir : List Nat) (vol : Volume) : KeepsDir dir vol vol :=
  ⟨rfl, rfl, id, fun _ _ _ _ _ => rfl⟩

theorem trans (h : KeepsDir dir vol vol') (h' : KeepsDir dir vol' vol'') :
    KeepsDir dir vol vol'' where
  geometry := h'.geometry.trans h.geometry
  responds := h'.responds.trans h.responds
  guarded := fun hguard => h'.guarded (h.guarded hguard)
  bytes := fun d hd hvalid r hr => by
    have hlater := h'.bytes d hd (by rw [h.geometry]; exact hvalid) r
      (by rw [h.geometry]; exact hr)
    rw [h.geometry] at hlater
    rw [hlater, h.bytes d hd hvalid r hr]

end KeepsDir

theorem lt_fat {c : Nat} (h : c < geo.totalClusters + 2) : geo.InFat c := by
  have hcovers := geo.fat_covers
  unfold Geometry.InFat
  omega

theorem Outside.lt (h : Outside geo dir value) (heof : isEof value = false)
    (hbad : isBad value = false) : value < geo.totalClusters + 2 := by
  have heof' := of_decide_eq_false heof
  have hbad' : value ≠ 0x0FFFFFF7 := by simpa [isBad] using hbad
  unfold clusterEofMin at heof'
  rcases h.2 with hlt | _
  · exact hlt
  · omega

theorem outside_clusterEof (geo : Geometry) (hvalid : ∀ d ∈ dir, geo.Valid d) :
    Outside geo dir (clusterEof % 2 ^ 28) := by
  refine ⟨fun hmem => ?_, .inr (by decide)⟩
  have := (hvalid _ hmem).not_isEof
  revert this
  decide

/-! ## Operations that leave the FAT alone -/

/-- Operations that change neither the bitmap nor the FAT, on the disk or in the
cache, keep the guard. -/
theorem Guarded.congr (h : vol.Guarded dir) (hgeo : vol'.geometry = vol.geometry)
    (hbitmap : vol'.fatBitmap = vol.fatBitmap)
    (hsector : vol'.fatCacheSector = vol.fatCacheSector)
    (hbuf : vol'.fatCacheBuf = vol.fatCacheBuf)
    (hvalue : ∀ c, vol.geometry.InFat c → vol'.fatValue c = vol.fatValue c) :
    vol'.Guarded dir where
  valid := by rw [hgeo]; exact h.valid
  used := by unfold Used; rw [hbitmap]; exact h.used
  onDisk := fun c hc hmem => by
    rw [hgeo] at hc ⊢
    rw [hvalue c (lt_fat hc)]
    exact h.onDisk c hc hmem
  cached := by rw [hgeo, hsector, hbuf]; exact h.cached

theorem keepsDir_clusterBuf (dir : List Nat) (vol : Volume) (buf : Buffer) :
    KeepsDir dir vol { vol with clusterBuf := buf } :=
  ⟨rfl, rfl, fun h => h.congr rfl rfl rfl rfl fun _ _ => rfl, fun _ _ _ _ _ => rfl⟩

/-- Writing a cluster outside the directory. -/
theorem writeCluster_keepsDir (vol : Volume) (hdata : 2 ≤ cluster) (hcluster : cluster ∉ dir) :
    KeepsDir dir vol (vol.writeCluster cluster).2 where
  geometry := by rw [writeCluster_eq]
  responds := writeCluster_responds vol cluster
  guarded := fun h => by
    refine h.congr (by rw [writeCluster_eq]) (by rw [writeCluster_eq]) (by rw [writeCluster_eq])
      (by rw [writeCluster_eq]) fun c hc => ?_
    rw [fatValue, fatValue, show (vol.writeCluster cluster).2.geometry = vol.geometry by
      rw [writeCluster_eq]]
    refine congrArg (fun bytes => leValue bytes % 2 ^ 28) (slice_congr fun i hi => ?_)
    exact writeCluster_outside (.inl (fatAddress_add_lt _ hc hi))
  bytes := fun d hd hvalid r hr => by
    refine writeCluster_outside ?_
    have hne : d ≠ cluster := fun heq => hcluster (heq ▸ hd)
    have hapart := vol.geometry.clusterAddress_apart hvalid.1 hdata hne
    omega

theorem writeChunk_keepsDir (vol : Volume) (offset : Nat) (chunk : List UInt8)
    (hdata : 2 ≤ cluster) (hcluster : cluster ∉ dir) :
    KeepsDir dir vol (vol.writeChunk cluster offset chunk).2 :=
  ((readCluster_eq vol cluster ▸ keepsDir_clusterBuf dir vol _).trans (keepsDir_clusterBuf dir _ _)).trans
    (writeCluster_keepsDir _ hdata hcluster)

/-! ## Operations on the FAT -/

theorem readFatEntry_keepsDir (dir : List Nat) (vol : Volume) (cluster : Nat) :
    KeepsDir dir vol (vol.readFatEntry cluster).2 where
  geometry := by simp
  responds := by simp
  guarded := fun h =>
    { valid := by simpa using h.valid
      used := by simpa [Used] using h.used
      onDisk := by simpa [fatValue] using h.onDisk
      cached := fun c hc hmem hcached => by
        rw [readFatEntry_geometry] at hc hcached ⊢
        have hread := vol.readsEntry cluster
        generalize vol.readFatEntry cluster = result at hread hcached ⊢
        cases hread with
        | cached | failed => exact h.cached c hc hmem hcached
        | loaded _ hbuf =>
          rw [some.inj hcached] at hbuf
          rw [hbuf.word]
          exact h.onDisk c hc hmem }
  bytes := fun _ _ _ _ _ => by simp

/-- Reading an entry outside the directory does not lead into it. -/
theorem Guarded.read (h : vol.Guarded dir) (hlt : cluster < vol.geometry.totalClusters + 2)
    (hmem : cluster ∉ dir) (hread : (vol.readFatEntry cluster).1 = some value) :
    Outside vol.geometry dir value := by
  have hentry := vol.readsEntry cluster
  generalize vol.readFatEntry cluster = result at hentry hread
  cases hentry with
  | cached hcached =>
    rw [← some.inj hread]
    exact h.cached cluster hlt hmem hcached
  | failed => cases hread
  | loaded =>
    rw [← some.inj hread]
    exact h.onDisk cluster hlt hmem

/-- Writing an entry of the FAT with a value that does not lead into the
directory. -/
theorem writeFatEntry_keepsDir (vol : Volume) (hcluster : vol.geometry.InFat cluster)
    (hvalue : Outside vol.geometry dir (value % 2 ^ 28)) :
    KeepsDir dir vol (vol.writeFatEntry cluster value).2 where
  geometry := by simp
  responds := by simp
  guarded := fun h =>
    { valid := by simpa using h.valid
      used := by simpa [Used] using h.used
      onDisk := fun c hc hmem => by
        rw [writeFatEntry_geometry] at hc ⊢
        obtain rfl | heq := eq_or_ne c cluster
        · cases hresp : vol.disk.responds (fatSector vol.geometry 0 c) with
          | false =>
            rw [fatValue_writeFatEntry_failed value hresp]
            exact h.onDisk c hc hmem
          | true =>
            rw [fatValue_writeFatEntry_self value hresp]
            exact hvalue
        · rw [fatValue_writeFatEntry_of_ne value (lt_fat hc) heq]
          exact h.onDisk c hc hmem
      cached := fun c hc hmem hcached => by
        rw [writeFatEntry_geometry] at hc hcached ⊢
        rw [writeFatEntry_fatCacheBuf]
        exact h.cached c hc hmem (vol.writeFatEntry_fatCacheSector cluster value hcached) }
  bytes := fun d _ _ r _ => by
    rw [writeFatEntry_disk]
    refine writeFatCopies_outside fun copy _ hcopy _ => .inr ?_
    have hfat : vol.geometry.fatAddress copy cluster + 4 ≤ vol.geometry.clusterAddress d :=
      vol.geometry.fatAddress_lt_clusterAddress (by omega) hcluster
    omega

theorem keepsDir_bitmap (vol : Volume) (bitmap : Nat → Bool)
    (h : ∀ d ∈ dir, vol.geometry.Valid d → vol.Used d → bitmap (d - firstDataCluster) = true) :
    KeepsDir dir vol { vol with fatBitmap := bitmap } where
  geometry := rfl
  responds := rfl
  guarded := fun hguard =>
    ⟨hguard.valid, fun d hd => h d hd (hguard.valid d hd) (hguard.used d hd), hguard.onDisk,
      hguard.cached⟩
  bytes := fun _ _ _ _ _ => rfl

theorem bitmapSet_keepsDir (dir : List Nat) (vol : Volume) (cluster : Nat) :
    KeepsDir dir vol (vol.bitmapSet cluster) := by
  unfold bitmapSet
  split
  · refine keepsDir_bitmap vol _ fun d _ _ hused => ?_
    by_cases heq : d - firstDataCluster = cluster - firstDataCluster
    · rw [heq, Function.update_self]
    · rw [Function.update_of_ne heq]
      exact hused
  · exact refl dir vol

theorem bitmapClear_keepsDir (vol : Volume) (hcluster : cluster ∉ dir) :
    KeepsDir dir vol (vol.bitmapClear cluster) := by
  unfold bitmapClear
  split
  next hvalid =>
    refine keepsDir_bitmap vol _ fun d hd hdValid hused => ?_
    rw [update_bit_of_ne _ _ hdValid.1 hvalid.1 fun heq => hcluster (heq ▸ hd)]
    exact hused
  · exact refl dir vol

theorem countAllocated_keepsDir (dir : List Nat) (vol : Volume) :
    KeepsDir dir vol vol.countAllocated :=
  ⟨rfl, rfl, fun h => h.congr rfl rfl rfl rfl fun _ _ => rfl, fun _ _ _ _ _ => rfl⟩

/-! ## Walks, allocation and the write loop -/

theorem clusterAtIndex_keepsDir (dir : List Nat) (index : Nat) (vol : Volume) (cluster : Nat) :
    KeepsDir dir vol (clusterAtIndex index vol cluster).2 := by
  induction index generalizing vol cluster with
  | zero => exact refl dir vol
  | succ index ih =>
    rw [clusterAtIndex]
    split
    · exact refl dir vol
    have hread := readFatEntry_keepsDir dir vol cluster
    split
    next hnone => rwa [hnone] at hread
    next next vol₁ hsome =>
      rw [hsome] at hread
      exact hread.trans (ih vol₁ next)

/-- A walk that starts outside the directory stays outside. -/
theorem Guarded.clusterAtIndex {reached : Nat} (h : vol.Guarded dir)
    (hstart : Outside vol.geometry dir cluster)
    (hwalk : (clusterAtIndex index vol cluster).1 = some reached) :
    Outside vol.geometry dir reached := by
  induction index generalizing vol cluster with
  | zero => exact some.inj hwalk ▸ hstart
  | succ index ih =>
    rw [Volume.clusterAtIndex] at hwalk
    split at hwalk
    · cases hwalk
    next hmarker =>
      simp only [Bool.or_eq_true, not_or, Bool.not_eq_true] at hmarker
      have hkeep := readFatEntry_keepsDir dir vol cluster
      have hnext : ∀ value, (vol.readFatEntry cluster).1 = some value →
          Outside vol.geometry dir value :=
        fun _ => h.read (hstart.lt hmarker.1 hmarker.2) hstart.1
      split at hwalk
      · cases hwalk
      next next _ hsome =>
        rw [hsome] at hkeep hnext
        rw [← hkeep.geometry] at hnext ⊢
        exact ih (hkeep.guarded h) (hnext next rfl) hwalk

/-- A first cluster as an inode may hold it: none, or one of a chain outside
the directory. -/
def FirstOutside (geo : Geometry) (dir : List Nat) (firstCluster : Nat) : Prop :=
  firstCluster < 2 ∨ geo.Valid firstCluster ∧ firstCluster ∉ dir

theorem FirstOutside.lt (h : FirstOutside geo dir firstCluster) : firstCluster < 2 ^ 32 := by
  have hmarkers := geo.clusters_lt_markers
  rcases h with _ | ⟨hvalid, _⟩
  · omega
  · have := hvalid.2
    omega

theorem lastClusterFrom_guarded (h : vol.Guarded dir)
    (hstart : vol.geometry.Valid cluster ∧ cluster ∉ dir)
    (hwalk : lastClusterFrom fuel vol cluster = some (last, vol')) :
    KeepsDir dir vol vol' ∧ ∀ c, last = some c → vol.geometry.Valid c ∧ c ∉ dir := by
  induction fuel generalizing vol cluster with
  | zero => simp [lastClusterFrom] at hwalk
  | succ fuel ih =>
    rw [lastClusterFrom] at hwalk
    have hkeep := readFatEntry_keepsDir dir vol cluster
    have hnext : ∀ value, (vol.readFatEntry cluster).1 = some value →
        Outside vol.geometry dir value :=
      fun _ => h.read hstart.1.2 hstart.2
    split at hwalk
    next hnone =>
      rw [hnone] at hkeep
      obtain ⟨rfl, rfl⟩ := hwalk
      exact ⟨hkeep, by simp⟩
    next next _ hsome =>
      rw [hsome] at hkeep hnext
      split at hwalk
      · obtain ⟨rfl, rfl⟩ := hwalk
        exact ⟨hkeep, fun c hc => some.inj hc ▸ hstart⟩
      next hmarker =>
        simp only [Bool.or_eq_true, not_or, Bool.not_eq_true, decide_eq_true_eq] at hmarker
        have hout := hnext next rfl
        have hvalid : vol.geometry.Valid next :=
          ⟨Nat.le_of_not_lt hmarker.2, hout.lt hmarker.1.1 hmarker.1.2⟩
        obtain ⟨hkeep', hlast⟩ := ih (hkeep.guarded h)
          (by rw [hkeep.geometry]; exact ⟨hvalid, hout.1⟩) hwalk
        rw [hkeep.geometry] at hlast
        exact ⟨hkeep.trans hkeep', hlast⟩

theorem getLastCluster_guarded (h : vol.Guarded dir)
    (hfirst : FirstOutside vol.geometry dir firstCluster)
    (hwalk : getLastCluster fuel vol firstCluster = some (last, vol')) :
    KeepsDir dir vol vol' ∧ ∀ c, last = some c → vol.geometry.Valid c ∧ c ∉ dir := by
  rw [getLastCluster] at hwalk
  split at hwalk
  · obtain ⟨rfl, rfl⟩ := hwalk
    exact ⟨refl dir vol, by simp⟩
  next hdata => exact lastClusterFrom_guarded h (hfirst.resolve_left hdata) hwalk

theorem outside_mod (hvalid : geo.Valid cluster) (hmem : cluster ∉ dir) :
    Outside geo dir (cluster % 2 ^ 28) := by
  have hmarkers := geo.clusters_lt_markers
  have hlt := hvalid.2
  rw [Nat.mod_eq_of_lt (by omega)]
  exact ⟨hmem, .inl hlt⟩

/-- A new cluster is outside the directory, because the directory's clusters
are marked used, and linking it behind a file writes no entry of the
directory. -/
theorem allocCluster_guarded (h : vol.Guarded dir)
    (hfirst : FirstOutside vol.geometry dir firstCluster)
    (halloc : allocCluster fuel vol firstCluster = some (result, vol')) :
    KeepsDir dir vol vol' ∧ ∀ cluster first', result = some (cluster, first') →
      (2 ≤ cluster ∧ cluster ∉ dir) ∧ FirstOutside vol.geometry dir first' := by
  unfold allocCluster at halloc
  split at halloc
  · obtain ⟨rfl, rfl⟩ := halloc
    exact ⟨refl dir vol, by simp⟩
  next new hfree =>
    obtain ⟨hvalid, hunused⟩ := bitmapFindFree_some hfree
    have hnew : new ∉ dir := fun hmem => hunused (h.used new hmem)
    have hset := bitmapSet_keepsDir dir vol new
    have hwrite := hset.trans (writeFatEntry_keepsDir (vol.bitmapSet new)
      (by rw [hset.geometry]; exact hvalid.inFat)
      (outside_clusterEof _ (hset.guarded h).valid))
    split at halloc
    next vol₁ hfailed =>
      rw [hfailed] at hwrite
      obtain ⟨rfl, rfl⟩ := halloc
      exact ⟨hwrite.trans (bitmapClear_keepsDir vol₁ hnew), by simp⟩
    next vol₁ hwritten =>
      rw [hwritten] at hwrite
      split at halloc
      · obtain ⟨rfl, rfl⟩ := halloc
        refine ⟨hwrite.trans (countAllocated_keepsDir dir vol₁), fun cluster first' heq => ?_⟩
        cases heq
        exact ⟨⟨hvalid.1, hnew⟩, .inr ⟨hvalid, hnew⟩⟩
      · split at halloc
        · cases halloc
        next hlast =>
          obtain ⟨rfl, rfl⟩ := halloc
          have hwalk := getLastCluster_guarded (hwrite.guarded h)
            (by rw [hwrite.geometry]; exact hfirst) hlast
          exact ⟨hwrite.trans hwalk.1, by simp⟩
        next last vol₂ hlast =>
          obtain ⟨hwalk, hreached⟩ := getLastCluster_guarded (hwrite.guarded h)
            (by rw [hwrite.geometry]; exact hfirst) hlast
          have hkeep := hwrite.trans hwalk
          rw [hwrite.geometry] at hreached
          have hlink := hkeep.trans (writeFatEntry_keepsDir vol₂
            (by rw [hkeep.geometry]; exact (hreached last rfl).1.inFat)
            (by rw [hkeep.geometry]; exact outside_mod hvalid hnew))
          split at halloc
          next vol₃ hfailed =>
            rw [hfailed] at hlink
            obtain ⟨rfl, rfl⟩ := halloc
            exact ⟨hlink.trans (bitmapClear_keepsDir vol₃ hnew), by simp⟩
          next vol₃ hlinked =>
            rw [hlinked] at hlink
            obtain ⟨rfl, rfl⟩ := halloc
            refine ⟨hlink.trans (countAllocated_keepsDir dir vol₃), fun cluster first' heq => ?_⟩
            cases heq
            exact ⟨⟨hvalid.1, hnew⟩, hfirst⟩

theorem writeTarget_guarded (h : vol.Guarded dir)
    (hfirst : FirstOutside vol.geometry dir firstCluster)
    (htarget : writeTarget fuel vol firstCluster index = some (result, vol')) :
    KeepsDir dir vol vol' ∧ ∀ cluster first', result = some (cluster, first') →
      (2 ≤ cluster ∧ cluster ∉ dir) ∧ FirstOutside vol.geometry dir first' := by
  unfold writeTarget at htarget
  split at htarget
  · exact allocCluster_guarded h (.inl (by decide)) htarget
  next hdata =>
    obtain ⟨hvalid, hmem⟩ := hfirst.resolve_left hdata
    have hwalk := clusterAtIndex_keepsDir dir index vol firstCluster
    have hreached : ∀ c, (clusterAtIndex index vol firstCluster).1 = some c →
        Outside vol.geometry dir c :=
      fun _ => h.clusterAtIndex ⟨hmem, .inl hvalid.2⟩
    -- Both exits that allocate start from a guarded volume again.
    have halloc : ∀ vol₁, KeepsDir dir vol vol₁ →
        allocCluster fuel vol₁ firstCluster = some (result, vol') →
        KeepsDir dir vol vol' ∧ ∀ cluster first', result = some (cluster, first') →
          (2 ≤ cluster ∧ cluster ∉ dir) ∧ FirstOutside vol.geometry dir first' := by
      intro vol₁ hkeep heq
      have hresult := allocCluster_guarded (hkeep.guarded h)
        (by rw [hkeep.geometry]; exact .inr ⟨hvalid, hmem⟩) heq
      rw [hkeep.geometry] at hresult
      exact ⟨hkeep.trans hresult.1, hresult.2⟩
    split at htarget
    next vol₁ hnone =>
      rw [hnone] at hwalk
      exact halloc vol₁ hwalk htarget
    next cluster vol₁ hsome =>
      rw [hsome] at hwalk hreached
      split at htarget
      · exact halloc vol₁ hwalk htarget
      next hcluster =>
        obtain ⟨rfl, rfl⟩ := htarget
        refine ⟨hwalk, fun cluster' first' heq => ?_⟩
        cases heq
        exact ⟨⟨Nat.le_of_not_lt hcluster, (hreached cluster rfl).1⟩, .inr ⟨hvalid, hmem⟩⟩

/-- Writing to a file outside a guarded directory writes no byte of the
directory. -/
theorem writeLoop_keepsDir (fuel : Nat) :
    ∀ (rounds : Nat) (vol : Volume) (firstCluster pos : Nat) (data : List UInt8)
      (first' pos' : Nat) (vol' : Volume),
      vol.Guarded dir → FirstOutside vol.geometry dir firstCluster →
      writeLoop fuel rounds vol firstCluster pos data = some (first', pos', vol') →
      KeepsDir dir vol vol' ∧ FirstOutside vol.geometry dir first' := by
  intro rounds
  induction rounds with
  | zero =>
    rintro vol firstCluster pos data first' pos' vol' _ hfirst ⟨rfl, _, rfl⟩
    exact ⟨refl dir vol, hfirst⟩
  | succ rounds ih =>
    intro vol _ pos data first' pos' vol' h hfirst hloop
    rw [writeLoop] at hloop
    split at hloop
    · cases hloop
      exact ⟨refl dir vol, hfirst⟩
    dsimp only at hloop
    split at hloop
    · cases hloop
    next htarget =>
      have hkeep := (writeTarget_guarded h hfirst htarget).1
      cases hloop
      exact ⟨hkeep, hfirst⟩
    next cluster first₁ vol₁ htarget =>
      obtain ⟨hkeep, hresult⟩ := writeTarget_guarded h hfirst htarget
      obtain ⟨⟨hdata, hmem⟩, hfirst₁⟩ := hresult cluster first₁ rfl
      have hchunk := hkeep.trans (writeChunk_keepsDir vol₁
        (pos % vol.geometry.bytesPerCluster) (data.take (min data.length
          (vol.geometry.bytesPerCluster - pos % vol.geometry.bytesPerCluster))) hdata hmem)
      split at hloop
      next hfailed =>
        rw [hfailed] at hchunk
        cases hloop
        exact ⟨hchunk, hfirst₁⟩
      next vol₂ hwritten =>
        rw [hwritten] at hchunk
        have hrest := ih vol₂ first₁ _ _ first' pos' vol' (hchunk.guarded h)
          (by rw [hchunk.geometry]; exact hfirst₁) hloop
        rw [hchunk.geometry] at hrest
        exact ⟨hchunk.trans hrest.1, hrest.2⟩

end Volume

end Bazzulto.Fat32
