/-
  Fat32/Rename.lean --- `sys_rename` on a FAT32 volume.

  `sys_rename` links the file under its new name and then unlinks the old name.
  `unlink` frees the chain of clusters of the entry it removes, as is right for
  a file that goes away; but the new entry names the same chain.  So whenever
  the call succeeds, the first cluster of the file is free afterwards
  (`sysRename_frees_first`), and the property one expects of a rename fails for
  every file that has a cluster.
-/
import Bazzulto.Fat32.EntryUpdate
import Bazzulto.Fat32.Link

set_option autoImplicit false

namespace Bazzulto.Fat32

open Bazzulto.Foundation Option Inode

namespace Volume

variable {vol vol' : Volume} {c cluster fuel : Nat}

/-! ## Freeing only clears bits -/

theorem freeCluster_unused (h : ¬ vol.Used c) (cluster : Nat) :
    ¬ (vol.freeCluster cluster).Used c := by
  unfold Used at *
  rw [freeCluster_fatBitmap, bitmapClear]
  split
  · by_cases heq : c - firstDataCluster = cluster - firstDataCluster
    · rw [heq]
      simp
    · dsimp only
      rwa [Function.update_of_ne heq]
  · exact h

theorem freeCluster_clears (h : vol.geometry.Valid cluster) :
    ¬ (vol.freeCluster cluster).Used cluster := by
  unfold Used
  rw [freeCluster_fatBitmap, bitmapClear, if_pos h]
  simp

theorem freeChain_unused (h : ¬ vol.Used c) (hfree : freeChain fuel vol cluster = some vol') :
    ¬ vol'.Used c := by
  induction fuel generalizing vol cluster with
  | zero => simp [freeChain] at hfree
  | succ fuel ih =>
    have hread : ¬ (vol.readFatEntry cluster).2.Used c := by
      rwa [Used, readFatEntry_fatBitmap]
    rw [freeChain] at hfree
    split at hfree
    · split at hfree
      next hnone =>
        rw [hnone] at hread
        rw [← some.inj hfree]
        split
        · exact freeCluster_unused hread cluster
        · exact hread
      next hsome =>
        rw [hsome] at hread
        exact ih (freeCluster_unused hread cluster) hfree
    · rw [← some.inj hfree]
      split
      · exact freeCluster_unused h cluster
      · exact h

/-- Freeing a chain frees its first cluster. -/
theorem freeChain_clears (h : vol.geometry.Valid cluster)
    (hfree : freeChain fuel vol cluster = some vol') : ¬ vol'.Used cluster := by
  cases fuel with
  | zero => simp [freeChain] at hfree
  | succ fuel =>
    have hdata : firstDataCluster ≤ cluster := h.1
    have hgeo := (readFatEntry_dataOnly vol cluster).geometry
    rw [freeChain] at hfree
    dsimp only at hfree
    rw [if_pos (by simp [hdata, h.not_isEof, h.not_isBad])] at hfree
    split at hfree
    next hnone =>
      rw [hnone] at hgeo
      rw [← some.inj hfree, if_pos hdata]
      exact freeCluster_clears (by rw [hgeo]; exact h)
    next hsome =>
      rw [hsome] at hgeo
      exact freeChain_unused (freeCluster_clears (by rw [hgeo]; exact h)) hfree

theorem markEntriesDeleted_fatBitmap {index remaining : Nat}
    (h : markEntriesDeleted fuel vol cluster index remaining = some vol') :
    vol'.fatBitmap = vol.fatBitmap := by
  induction fuel generalizing vol cluster index remaining with
  | zero => simp [markEntriesDeleted] at h
  | succ fuel ih =>
    have hread := (readCluster_dataOnly vol cluster).fatBitmap
    rw [markEntriesDeleted] at h
    split at h
    · rw [← some.inj h]
    split at h
    next hfailed =>
      rw [hfailed] at hread
      rw [← some.inj h, hread]
    next vol₁ hok =>
      rw [hok] at hread
      dsimp only at h hread
      generalize hmarked : (if min remaining (vol₁.geometry.entriesPerCluster - index) = 0 then
        vol₁ else _) = vol₂ at h
      have hbits : vol₂.fatBitmap = vol.fatBitmap := by
        rw [← hmarked]
        split
        · exact hread
        · rw [writeCluster_eq]
          exact hread
      split at h
      · rw [← some.inj h, hbits]
      have hentry := (readFatEntry_dataOnly vol₂ cluster).fatBitmap
      split at h
      next hnone =>
        rw [hnone] at hentry
        rw [← some.inj h]
        exact hentry.trans hbits
      next hsome =>
        rw [hsome] at hentry
        split at h
        · rw [← some.inj h]
          exact hentry.trans hbits
        · exact (ih h).trans (hentry.trans hbits)

theorem deleteEntry_fatBitmap (vol : Volume) (found : DirEntry) :
    (deleteEntry vol found).2.fatBitmap = vol.fatBitmap := by
  have hread := (readCluster_dataOnly vol found.cluster).fatBitmap
  unfold deleteEntry
  split
  next hfailed => rwa [hfailed] at hread
  next vol₁ hok =>
    rw [hok] at hread
    dsimp only at hread ⊢
    generalize (if found.entryIndex * 32 < vol₁.geometry.bytesPerCluster then
      splice vol₁.clusterBuf (found.entryIndex * 32) [dirEntryDeleted] else vol₁.clusterBuf) = buf
    have hwrite : ({ vol₁ with clusterBuf := buf }.writeCluster found.cluster).2.fatBitmap =
        vol₁.fatBitmap := by
      rw [writeCluster_eq]
    split
    next hfailed => rw [hfailed] at hwrite; exact hwrite.trans hread
    next hok => rw [hok] at hwrite; exact hwrite.trans hread

end Volume

open Volume

/-! ## Unlinking -/

/-- A successful `unlink` frees the first cluster of the entry it finds. -/
theorem Inode.unlink_frees {fuel : Nat} {vol vol' : Volume} {dirCluster : Nat} {name : Name}
    (h : unlink fuel vol (.directory dirCluster) name = some (.ok (), vol')) :
    ∃ found vol₁, lookupInDir name fuel vol dirCluster LfnState.clear = some (some found, vol₁) ∧
      (vol.geometry.Valid (RawEntry.cluster found.entry) →
        ¬ vol'.Used (RawEntry.cluster found.entry)) := by
  rw [unlink] at h
  split at h
  · cases h
  split at h
  · cases h
  · cases h
  next found vol₁ hlookup =>
    refine ⟨found, vol₁, hlookup, fun hvalid => ?_⟩
    have hdata : firstDataCluster ≤ RawEntry.cluster found.entry := hvalid.1
    dsimp only at h
    rw [if_pos hdata] at h
    split at h
    · cases h
    next hfreed =>
      rw [← (lookupInDir_dataOnly hlookup).geometry] at hvalid
      have hclear := freeChain_clears hvalid hfreed
      split at h
      · cases h
      next vol₃ hmarked =>
        have hvol' : vol' = (deleteEntry vol₃ found).2 := by
          rw [some.inj h]
        unfold Used at hclear ⊢
        rw [hvol', deleteEntry_fatBitmap, markEntriesDeleted_fatBitmap hmarked]
        exact hclear

/-! ## Renaming -/

/-- What one expects of renaming a file with the given clusters: the new name
leads to a file with the same chain, whose clusters are still in use, in the FAT
and in the bitmap, and the same contents. -/
structure RenameKeeps (vol vol' : Volume) (mountPoint newPath : Name) (file : FileInode)
    (clusters : List Nat) : Prop where
  renamed : ∃ fuel file' vol'',
    Path.resolveInode fuel vol' mountPoint newPath = some (.ok (.regular file'), vol'') ∧
      vol'.chainFrom vol'.geometry.totalClusters file'.firstCluster = clusters ∧
      ∀ offset len, (vol'.readAt file' offset len).1 = (vol.readAt file offset len).1
  used : ∀ c ∈ clusters, vol'.Used c ∧ vol'.fatValue c ≠ clusterFree

namespace Path

variable {fuel dirCluster : Nat} {vol vol₁ vol₂ vol' : Volume} {mountPoint name : Name}
  {file : FileInode}

/-- A path that leads to a file: the file's entry is found in its parent. -/
theorem resolveInode_regular {path : Name}
    (h : resolveInode fuel vol mountPoint path = some (.ok (.regular file), vol₁))
    (hparent : resolveParent fuel vol mountPoint path =
      some (.ok (.directory dirCluster, name), vol₂)) :
    lookup fuel vol₂ (.directory dirCluster) name = some (some (.regular file), vol₁) := by
  unfold resolveInode at h
  split at h
  · cases h
  rw [hparent] at h
  dsimp only at h
  split at h
  · cases h
  split at h
  · cases h
  · cases h
  next hlookup =>
    simp only [some.injEq, Prod.mk.injEq, Except.ok.injEq] at h
    rw [hlookup, h.1, h.2]

theorem lookup_regular
    (h : lookup fuel vol (.directory dirCluster) name = some (some (.regular file), vol')) :
    ∃ found, lookupInDir name fuel vol dirCluster LfnState.clear = some (some found, vol') ∧
      RawEntry.cluster found.entry = file.firstCluster := by
  rw [lookup] at h
  split at h
  · cases h
  obtain ⟨⟨found?, _⟩, hlookup, heq⟩ := map_eq_some_iff.mp h
  simp only [Prod.mk.injEq] at heq
  obtain ⟨found, rfl, hinode⟩ := map_eq_some_iff.mp heq.1
  refine ⟨found, by rw [hlookup, heq.2], ?_⟩
  unfold ofEntry at hinode
  split at hinode
  · cases hinode
  · rw [← regular.inj hinode]

/-- The two halves of a successful rename, with everything resolved on the
volume before the call. -/
theorem sysRename_steps {vol₃ : Volume} {oldPath newPath oldName newName : Name} {source : Inode}
    {oldParent newParent : Inode}
    (hsource : resolveInode fuel vol mountPoint oldPath = some (.ok source, vol₁))
    (hread : ReadAlike vol vol₁) (hexact : vol.CacheExact)
    (hold : resolveParent fuel vol mountPoint oldPath = some (.ok (oldParent, oldName), vol₂))
    (hnew : resolveParent fuel vol mountPoint newPath = some (.ok (newParent, newName), vol₃))
    (h : sysRename fuel vol mountPoint oldPath newPath = some (0, vol')) :
    ∃ vol₄ vol₅, DataOnly (fun _ => False) vol₁ vol₄ ∧
      linkChild fuel vol₄ newParent newName source = some (.ok (), vol₅) ∧
      unlink fuel vol₅ oldParent oldName = some (.ok (), vol') := by
  have herr : ∀ err : FsError, err.toErrno ≠ 0 := by intro err; cases err <;> decide
  obtain ⟨⟨_, hold'⟩, -⟩ := (resolveParent_alike fuel hread mountPoint oldPath).of_some hold
  have hreads₆ := resolveParent_reads hold'
  have hread₆ := hread.trans (hreads₆.readAlike (hread.exact_right hexact))
  obtain ⟨⟨vol₇, hnew'⟩, -⟩ :=
    (resolveParent_alike fuel hread₆ mountPoint newPath).of_some hnew
  unfold sysRename at h
  split at h
  · cases h
  rw [hsource] at h
  dsimp only at h
  rw [hold'] at h
  dsimp only at h
  rw [hnew'] at h
  dsimp only at h
  split at h
  · cases h
  next err _ _ =>
    simp only [some.injEq, Prod.mk.injEq] at h
    exact absurd h.1 (herr err)
  next vol₅ hlink =>
    split at h
    · cases h
    next err _ _ =>
      simp only [some.injEq, Prod.mk.injEq] at h
      exact absurd h.1 (herr err)
    next hunlink =>
      simp only [some.injEq, Prod.mk.injEq] at h
      refine ⟨vol₇, vol₅, (hreads₆.trans (resolveParent_reads hnew')).data, hlink, ?_⟩
      rw [hunlink, h.2]

/-- The two parents of a rename: directories that are the same or have no
cluster in common. -/
structure Parents (vol : Volume) (oldDir newDir : List Nat) : Prop where
  old : vol.IsDirectory oldDir
  new : vol.IsDirectory newDir
  apart : oldDir = newDir ∨ ∀ d ∈ oldDir, d ∉ newDir

section Rename

variable {vol₃ : Volume} {oldPath newPath oldName newName : Name} {oldDir newDir : List Nat}
  {first marker : Nat} {rest : List Nat} (hhealthy : vol.Healthy) (hexact : vol.CacheExact)
  (hfile : resolveInode fuel vol mountPoint oldPath = some (.ok (.regular file), vol₁))
  (hold : resolveParent fuel vol mountPoint oldPath =
    some (.ok (.directory (oldDir.headD 0), oldName), vol₂))
  (hnew : resolveParent fuel vol mountPoint newPath =
    some (.ok (.directory (newDir.headD 0), newName), vol₃))
  (hparents : Parents vol oldDir newDir)
include hhealthy hexact hfile hold hnew hparents

/-- After a successful rename the first cluster of the file is free. -/
theorem sysRename_frees_first (hvalid : vol.geometry.Valid file.firstCluster)
    (h : sysRename fuel vol mountPoint oldPath newPath = some (0, vol')) :
    ¬ vol'.Used file.firstCluster := by
  have hlookup := resolveInode_regular hfile hold
  have hreads₂ := resolveParent_reads hold
  have hreads₁ := hreads₂.trans ((lookup_alike fuel (.refl vol₂) _ _).of_some hlookup).2
  obtain ⟨_, _, hdata₄, hlink, hunlink⟩ :=
    sysRename_steps hfile (hreads₁.readAlike hexact) hexact hold hnew h
  have hdata := hreads₁.data.trans hdata₄
  -- What the old name led to before the call.
  obtain ⟨found, hfound, hcluster⟩ := lookup_regular hlookup
  obtain ⟨marker, hchain⟩ := hparents.old.chain
  rw [← headD_eq hparents.old.ne_nil marker 0] at hfound
  have hscan := lookupInDir_found (hreads₂.data.chain hchain) hfound
  rw [hreads₂.data.dirSlots_eq oldDir, ← hdata.dirSlots_eq oldDir] at hscan
  -- What it leads to once the new name exists.
  have hmarkers := vol.geometry.clusters_lt_markers
  have hlt : file.firstCluster < 2 ^ 32 := by
    have := hvalid.2
    omega
  obtain ⟨_, halike⟩ :=
    linkChild_scan (hparents.old.of_dataOnly hdata) hparents.apart (hhealthy.of_dataOnly hdata)
      (hparents.new.of_dataOnly hdata) hlt hlink
  obtain ⟨found', _, hfound', hfrees⟩ := unlink_frees hunlink
  obtain ⟨marker', hchain'⟩ := halike.chain
  rw [← halike.head, ← headD_eq halike.ne_nil marker' 0] at hfound'
  have hscan' := lookupInDir_found hchain' hfound'
  have hcluster' : RawEntry.cluster found'.entry = file.firstCluster := by
    rcases halike.scans oldName found found' hscan hscan' with rfl | hsame
    · exact hcluster
    · exact hsame
  rw [hcluster'] at hfrees
  refine hfrees ?_
  rw [halike.geometry, hdata.geometry]
  exact hvalid

/-- No rename of a file with a chain of clusters keeps the file. -/
theorem rename_never_keeps_file (hchain : vol.Chain (first :: rest) marker)
    (hfirst : file.firstCluster = first)
    (h : sysRename fuel vol mountPoint oldPath newPath = some (0, vol')) :
    ¬ RenameKeeps vol vol' mountPoint newPath file (first :: rest) := by
  intro hkeeps
  have hvalid : vol.geometry.Valid file.firstCluster := by
    rw [hfirst]
    exact hchain.valid first List.mem_cons_self
  have hfree := sysRename_frees_first hhealthy hexact hfile hold hnew hparents hvalid h
  rw [hfirst] at hfree
  exact hfree (hkeeps.used first List.mem_cons_self).1

end Rename

/-! ## Renaming `/a.txt` to `/b.txt` -/

theorem exists_of_toOption {α : Type} {result : Option (Except FsError α × Volume)} {value : α}
    (h : result.map (·.1.toOption) = some (some value)) :
    ∃ vol, result = some (.ok value, vol) := by
  obtain ⟨⟨outcome, vol⟩, hresult, hvalue⟩ := map_eq_some_iff.mp h
  obtain rfl : outcome = .ok value := eq_ok_of_toOption hvalue
  exact ⟨vol, hresult⟩

def sampleOldPath : Name := slash :: sampleName

def sampleNewPath : Name := [slash, 0x62, 0x2E, 0x74, 0x78, 0x74]

theorem shortDirectory_healthy : shortDirectory.Healthy := by
  have htwo : twoClusterVolume.Healthy :=
    ((((FileState.blankVolume_healthy.of_fatOnly (writeFatEntry_fatOnly _ 3 4)).of_fatOnly
      (writeFatEntry_fatOnly _ 4 clusterEof)).of_fatOnly (bitmapSet_fatOnly _ 3)).of_fatOnly
      (bitmapSet_fatOnly _ 4)).of_fatOnly (fatOnly_count _ 5)
  have hlinked := (htwo.of_fatOnly (bitmapSet_fatOnly _ 2)).of_fatOnly
    (writeFatEntry_fatOnly _ 2 clusterEof)
  have hchain : ((twoClusterVolume.bitmapSet 2).writeFatEntry 2 clusterEof).2.Chain [2]
      clusterEof := by decide +kernel
  exact hlinked.of_dataOnly (writeEntries_dataOnly hchain 0 [sampleEntry])

theorem shortDirectory_exact : shortDirectory.CacheExact := by
  intro _ hkey
  rw [shortDirectory_fat.2.2.1] at hkey
  cases hkey

theorem shortDirectory_parents : Parents shortDirectory [2] [2] := by
  have hdir : shortDirectory.IsDirectory [2] :=
    ⟨⟨clusterEof, shortDirectory_fat.1⟩, by simp, by decide⟩
  exact ⟨hdir, hdir, .inl rfl⟩

/-- The general theorem at this rename. -/
theorem rename_loses_sample_file :
    ∃ vol', sysRename 20 shortDirectory [slash] sampleOldPath sampleNewPath = some (0, vol') ∧
      ¬ RenameKeeps shortDirectory vol' [slash] sampleNewPath ⟨2, 0, 3, 700⟩ [3, 4] := by
  have hreturns : (sysRename 20 shortDirectory [slash] sampleOldPath sampleNewPath).map (·.1) =
      some 0 := by
    decide +kernel
  obtain ⟨⟨_, vol'⟩, hrename, rfl⟩ := map_eq_some_iff.mp hreturns
  obtain ⟨vol₁, hfile⟩ : ∃ vol, resolveInode 20 shortDirectory [slash] sampleOldPath =
      some (.ok (.regular ⟨2, 0, 3, 700⟩), vol) :=
    exists_of_toOption (by decide +kernel)
  obtain ⟨vol₂, hold⟩ : ∃ vol, resolveParent 20 shortDirectory [slash] sampleOldPath =
      some (.ok (.directory ([2].headD 0), sampleName), vol) :=
    exists_of_toOption (by decide +kernel)
  obtain ⟨vol₃, hnew⟩ : ∃ vol, resolveParent 20 shortDirectory [slash] sampleNewPath =
      some (.ok (.directory ([2].headD 0), sampleNewPath.drop 1), vol) :=
    exists_of_toOption (by decide +kernel)
  exact ⟨vol', hrename, rename_never_keeps_file shortDirectory_healthy shortDirectory_exact hfile
    hold hnew shortDirectory_parents shortDirectory_fat.2.1 rfl hrename⟩

/-- The rename returns 0 and leaves the first cluster of the file free, in the
bitmap and in the FAT, while the new entry names it. -/
theorem rename_frees_sample_clusters :
    shortDirectory.Healthy ∧ shortDirectory.Chain [3, 4] clusterEof ∧
      ∃ vol', sysRename 20 shortDirectory [slash] sampleOldPath sampleNewPath = some (0, vol') ∧
        ((resolveInode 20 vol' [slash] sampleNewPath).map fun result =>
          result.1.toOption.map Inode.firstCluster) = some (some 3) ∧
        vol'.fatValue 3 = clusterFree ∧ ¬ vol'.Used 3 ∧
        ¬ RenameKeeps shortDirectory vol' [slash] sampleNewPath ⟨2, 0, 3, 700⟩ [3, 4] := by
  refine ⟨shortDirectory_healthy, shortDirectory_fat.2.1, ?_⟩
  have hview : (sysRename 20 shortDirectory [slash] sampleOldPath sampleNewPath).map
      (fun result => (result.1, (resolveInode 20 result.2 [slash] sampleNewPath).map fun result =>
        result.1.toOption.map Inode.firstCluster, result.2.fatValue 3,
        result.2.fatBitmap (3 - firstDataCluster))) =
      some (0, some (some 3), 0, false) := by
    decide +kernel
  obtain ⟨⟨_, vol'⟩, hrename, hresult⟩ := map_eq_some_iff.mp hview
  simp only [Prod.mk.injEq] at hresult
  obtain ⟨rfl, hname, hvalue, hbit⟩ := hresult
  refine ⟨vol', hrename, hname, hvalue, by simp [Used, hbit], fun hkeeps => ?_⟩
  exact (hkeeps.used 3 (by decide)).2 hvalue

end Path

end Bazzulto.Fat32
