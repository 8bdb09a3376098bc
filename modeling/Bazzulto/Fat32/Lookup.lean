/-
  Fat32/Lookup.lean --- lookups as scans of the slots of a directory.

  A lookup reads one cluster after the other.  On a directory whose clusters
  form a chain it is one scan over all slots of the directory, in order
  (`lookupInDir_found`); this is the form in which later files reason about
  slots that are replaced.

  Lookups write nothing.  As long as the FAT cache holds what is on the disk,
  they return the same whatever is cached, and so does the resolution of paths
  (`resolveParent_alike`).
-/
import Bazzulto.Fat32.Directory
import Bazzulto.Fat32.Cluster

set_option autoImplicit false

namespace Bazzulto.Fat32

open Bazzulto.Foundation List Option

variable {component : Name} {lfn : LfnState} {entry : DirEntry}

/-! ## Scans -/

theorem scanSlot_found {slot : Slot} (h : scanSlot component slot lfn = .found entry) :
    entry.cluster = slot.cluster ∧ entry.entryIndex = slot.index ∧ entry.entry = slot.raw := by
  unfold scanSlot at h
  split at h
  · cases h
  split at h
  · cases h
  split at h
  · cases h
  split at h
  · simp only [Scan.found.injEq] at h
    subst h
    exact ⟨rfl, rfl, rfl⟩
  · cases h

theorem scanSlots_found {slots : List Slot} (h : scanSlots component slots lfn = .found entry) :
    ∃ slot ∈ slots, entry.cluster = slot.cluster ∧ entry.entryIndex = slot.index ∧
      entry.entry = slot.raw := by
  induction slots generalizing lfn with
  | nil => simp [scanSlots] at h
  | cons slot rest ih =>
    rw [scanSlots] at h
    split at h
    · obtain ⟨found, hmem, hfound⟩ := ih h
      exact ⟨found, mem_cons_of_mem _ hmem, hfound⟩
    · exact ⟨slot, mem_cons_self, scanSlot_found h⟩

theorem scanSlots_append (component : Name) (slots slots' : List Slot) (lfn : LfnState) :
    scanSlots component (slots ++ slots') lfn =
      match scanSlots component slots lfn with
      | .next lfn => scanSlots component slots' lfn
      | done => done := by
  induction slots generalizing lfn with
  | nil => rfl
  | cons slot rest ih =>
    rw [cons_append, scanSlots, scanSlots]
    cases scanSlot component slot lfn with
    | next lfn' => exact ih lfn'
    | ended | found => rfl

namespace Volume

variable {fuel cluster : Nat} {vol vol' : Volume} {dir : List Nat} {α : Type} {start : Volume}

/-! ## Directories as lists of slots -/

/-- The directory entry in a slot of a cluster, on the disk. -/
def entryAt (vol : Volume) (cluster index : Nat) : RawEntry :=
  slice vol.disk.bytes (vol.geometry.clusterAddress cluster + index * 32) 32

/-- The slots of a cluster as they are on the disk. -/
def diskSlots (vol : Volume) (cluster : Nat) : List Slot :=
  clusterSlots vol.geometry cluster fun i =>
    vol.disk.bytes (vol.geometry.clusterAddress cluster + i)

/-- The slots of a directory. -/
def dirSlots (vol : Volume) (dir : List Nat) : List Slot := dir.flatMap vol.diskSlots

theorem slot_inside (geo : Geometry) {i k : Nat} (hi : i < geo.entriesPerCluster) (hk : k < 32) :
    i * 32 + k < geo.bytesPerCluster := by
  unfold Geometry.entriesPerCluster at hi
  omega

theorem clusterSlots_congr {geo : Geometry} {buf buf' : Buffer}
    (h : ∀ i < geo.bytesPerCluster, buf i = buf' i) :
    clusterSlots geo cluster buf = clusterSlots geo cluster buf' := by
  refine map_congr_left fun i hi => ?_
  rw [slice_congr fun k hk => h _ (slot_inside geo (mem_range.mp hi) hk)]

theorem clusterSlots_of_read (hdata : 2 ≤ cluster) (h : vol.readCluster cluster = (true, vol')) :
    clusterSlots vol'.geometry cluster vol'.clusterBuf = vol.diskSlots cluster := by
  have hresp := clusterResponds_of_readCluster (show (vol.readCluster cluster).1 = true by
    rw [h])
  rw [readCluster_of_responds hdata hresp, Prod.mk.injEq] at h
  rw [← h.2]
  exact clusterSlots_congr fun i hi => if_pos hi

theorem dirSlots_congr (hgeo : vol'.geometry = vol.geometry)
    (h : ∀ d ∈ dir, ∀ r < vol.geometry.bytesPerCluster,
      vol'.disk.bytes (vol.geometry.clusterAddress d + r) =
        vol.disk.bytes (vol.geometry.clusterAddress d + r)) :
    vol'.dirSlots dir = vol.dirSlots dir := by
  refine flatMap_congr fun d hd => ?_
  unfold diskSlots
  rw [hgeo]
  exact clusterSlots_congr (h d hd)

theorem DataOnly.dirSlots_eq (h : DataOnly (fun _ => False) vol vol') (dir : List Nat) :
    vol'.dirSlots dir = vol.dirSlots dir :=
  dirSlots_congr h.geometry fun _ _ _ _ => by rw [h.disk_eq]

theorem mem_dirSlots {slot : Slot} (h : slot ∈ vol.dirSlots dir) :
    slot.cluster ∈ dir ∧ slot.index < vol.geometry.entriesPerCluster := by
  obtain ⟨_, hd, hslot⟩ := mem_flatMap.mp h
  obtain ⟨_, hi, rfl⟩ := mem_map.mp hslot
  exact ⟨hd, mem_range.mp hi⟩

/-- The entry a lookup finds in a directory is the one a scan of its slots
finds. -/
theorem lookupInDir_found {marker : Nat} {found : DirEntry} (hchain : vol.Chain dir marker)
    (h : lookupInDir component fuel vol (dir.headD marker) lfn = some (some found, vol')) :
    scanSlots component (vol.dirSlots dir) lfn = .found found := by
  induction fuel generalizing vol dir lfn with
  | zero => simp [lookupInDir] at h
  | succ fuel ih =>
    cases dir with
    | nil => simp [lookupInDir, hchain.isEof_marker] at h
    | cons cluster rest =>
      have hvalid := hchain.valid cluster mem_cons_self
      have hread := readCluster_dataOnly vol cluster
      rw [show vol.dirSlots (cluster :: rest) =
        vol.diskSlots cluster ++ vol.dirSlots rest from rfl, scanSlots_append]
      rw [headD_cons, lookupInDir, if_neg (by simp [hvalid.not_isEof, hvalid.not_isBad])] at h
      split at h
      · cases h
      next vol₁ hok =>
        rw [hok] at hread
        rw [clusterSlots_of_read hvalid.1 hok] at h
        split at h
        · cases h
        next hscan =>
          simp only [some.injEq, Prod.mk.injEq] at h
          rw [hscan, h.1]
        next hscan =>
          rw [hscan]
          have hkeep := hread.trans (readFatEntry_dataOnly vol₁ cluster)
          rw [(hread.chain hchain).readFatEntry_head] at h
          rw [← hkeep.dirSlots_eq rest]
          exact ih (hkeep.chain hchain).tail h

/-! ## Lookups do not depend on what is cached -/

/-- The cache, unless it is empty, holds a sector that the disk can be asked
for, as it is on the disk. -/
def CacheExact (vol : Volume) : Prop :=
  ∀ key, vol.fatCacheSector = some key →
    vol.disk.responds (vol.geometry.partitionStartLba + key) = true ∧
      ∀ i < 512, vol.fatCacheBuf i =
        vol.disk.bytes (512 * (vol.geometry.partitionStartLba + key) + i)

/-- Two volumes on the same disk, which may differ in their buffers if the caches hold what
is on it. -/
structure ReadAlike (vol vol' : Volume) : Prop where
  geometry : vol'.geometry = vol.geometry
  disk : vol'.disk = vol.disk
  ready : vol'.ready = vol.ready
  cache : vol' = vol ∨ vol.CacheExact ∧ vol'.CacheExact

theorem ReadAlike.refl (vol : Volume) : ReadAlike vol vol := ⟨rfl, rfl, rfl, .inl rfl⟩

theorem ReadAlike.exact_right (h : ReadAlike vol vol') (hexact : vol.CacheExact) :
    vol'.CacheExact :=
  h.cache.elim (fun heq => heq ▸ hexact) And.right

theorem ReadAlike.trans {vol'' : Volume} (h : ReadAlike vol vol') (h' : ReadAlike vol' vol'') :
    ReadAlike vol vol'' := by
  refine ⟨h'.geometry.trans h.geometry, h'.disk.trans h.disk, h'.ready.trans h.ready, ?_⟩
  obtain rfl | ⟨hleft, hmiddle⟩ := h.cache
  · exact h'.cache
  · exact .inr ⟨hleft, h'.exact_right hmiddle⟩

/-- Nothing was written, and the cache holds what is on the disk if it did before. -/
structure Reads (vol vol' : Volume) : Prop where
  data : DataOnly (fun _ => False) vol vol'
  exact_of : vol.CacheExact → vol'.CacheExact

theorem Reads.refl (vol : Volume) : Reads vol vol := ⟨DataOnly.refl _ vol, id⟩

theorem Reads.trans {vol'' : Volume} (h : Reads vol vol') (h' : Reads vol' vol'') :
    Reads vol vol'' :=
  ⟨h.data.trans h'.data, h'.exact_of ∘ h.exact_of⟩

theorem Reads.readAlike (h : Reads vol vol') (hexact : vol.CacheExact) : ReadAlike vol vol' :=
  ⟨h.data.geometry, h.data.disk_eq, h.data.ready, .inr ⟨hexact, h.exact_of hexact⟩⟩

/-- Two computations that return the same and leave alike volumes, the first of which only
reads. -/
def Alike {α : Type} (start : Volume) (result result' : Option (α × Volume)) : Prop :=
  (result = none ∧ result' = none) ∨
    ∃ value vol vol', result = some (value, vol) ∧ result' = some (value, vol') ∧
      ReadAlike vol vol' ∧ Reads start vol

theorem Alike.of_some {result result' : Option (α × Volume)} {value : α}
    (h : Alike start result result') (hresult : result = some (value, vol)) :
    (∃ vol', result' = some (value, vol')) ∧ Reads start vol := by
  obtain ⟨hnone, _⟩ | ⟨_, _, vol', heq, hsome, -, hreads⟩ := h
  · cases hnone.symm.trans hresult
  · cases heq.symm.trans hresult
    exact ⟨⟨vol', hsome⟩, hreads⟩

theorem Alike.intro {value : α} (h : ReadAlike vol vol') (hreads : Reads start vol) :
    Alike start (some (value, vol)) (some (value, vol')) :=
  .inr ⟨value, vol, vol', rfl, rfl, h, hreads⟩

theorem Alike.after {result result' : Option (α × Volume)} (h : Alike vol result result')
    (hreads : Reads start vol) : Alike start result result' :=
  h.imp_right fun ⟨value, vol₁, vol', heq, hsome, halike, hreads'⟩ =>
    ⟨value, vol₁, vol', heq, hsome, halike, hreads.trans hreads'⟩

/-- An entry as it is read whatever is cached. -/
theorem readFatEntry_of_exact (h : vol.CacheExact) (cluster : Nat) :
    (vol.readFatEntry cluster).1 =
        (if vol.disk.responds (vol.geometry.partitionStartLba + fatKey vol.geometry cluster) then
          some (vol.fatValue cluster) else none) ∧
      (vol.readFatEntry cluster).2.CacheExact := by
  have hread := vol.readsEntry cluster
  generalize vol.readFatEntry cluster = result at hread ⊢
  rw [← fatSector_eq_fatKey]
  cases hread with
  | cached hcached =>
    obtain ⟨hresp, hbytes⟩ := h _ hcached
    rw [← fatSector_eq_fatKey] at hresp
    rw [if_pos hresp, Loaded.word hbytes]
    exact ⟨rfl, h⟩
  | failed hsilent => exact ⟨by simp [hsilent], h⟩
  | loaded hresponds hbuf =>
    refine ⟨by rw [if_pos hresponds], fun _ hkey => ?_⟩
    rw [← some.inj hkey]
    exact ⟨fatSector_eq_fatKey vol.geometry cluster ▸ hresponds, hbuf⟩

theorem ReadAlike.readFatEntry (h : ReadAlike vol vol') (cluster : Nat) :
    (vol'.readFatEntry cluster).1 = (vol.readFatEntry cluster).1 ∧
      ReadAlike (vol.readFatEntry cluster).2 (vol'.readFatEntry cluster).2 := by
  obtain rfl | ⟨hleft, hright⟩ := h.cache
  · exact ⟨rfl, .refl _⟩
  obtain ⟨hread, hexact⟩ := readFatEntry_of_exact hleft cluster
  obtain ⟨hread', hexact'⟩ := readFatEntry_of_exact hright cluster
  refine ⟨?_, by simp [h.geometry], by simp [h.disk], by simp [h.ready], .inr ⟨hexact, hexact'⟩⟩
  rw [hread, hread']
  unfold fatValue
  rw [h.geometry, h.disk]

theorem ReadAlike.readCluster (h : ReadAlike vol vol') (cluster : Nat) :
    (vol'.readCluster cluster).1 = (vol.readCluster cluster).1 ∧
      ReadAlike (vol.readCluster cluster).2 (vol'.readCluster cluster).2 := by
  obtain rfl | hexact := h.cache
  · exact ⟨rfl, .refl _⟩
  constructor
  · unfold Volume.readCluster Disk.readSectors
    rw [h.geometry, h.disk]
    split
    · rfl
    · dsimp only
      split <;> rfl
  · rw [readCluster_eq vol, readCluster_eq vol']
    exact ⟨h.geometry, h.disk, h.ready, .inr hexact⟩

theorem reads_readCluster (vol : Volume) (cluster : Nat) :
    Reads vol (vol.readCluster cluster).2 := by
  refine ⟨readCluster_dataOnly vol cluster, fun hexact => ?_⟩
  rw [readCluster_eq vol]
  exact hexact

theorem lookupInDir_alike (component : Name) (fuel : Nat) (h : ReadAlike vol vol') (cluster : Nat)
    (lfn : LfnState) :
    Alike vol (lookupInDir component fuel vol cluster lfn)
      (lookupInDir component fuel vol' cluster lfn) := by
  induction fuel generalizing vol vol' cluster lfn with
  | zero => exact .inl ⟨rfl, rfl⟩
  | succ fuel ih =>
    rw [lookupInDir, lookupInDir]
    by_cases hmarker : (isEof cluster || isBad cluster) = true
    · rw [if_pos hmarker, if_pos hmarker]
      exact Alike.intro h (.refl vol)
    rw [if_neg hmarker, if_neg hmarker]
    obtain ⟨hflag, hvols⟩ := h.readCluster cluster
    have hreads := reads_readCluster vol cluster
    have hdata : (vol.readCluster cluster).1 = true → 2 ≤ cluster := by
      intro hok
      by_contra hlow
      simp [readCluster, firstDataCluster, show cluster < 2 by omega] at hok
    rcases hread : vol.readCluster cluster with ⟨_, vol₁⟩
    rcases hread' : vol'.readCluster cluster with ⟨ok', vol₁'⟩
    rw [hread, hread'] at hflag hvols
    rw [hread] at hdata hreads
    subst hflag
    cases ok' with
    | false => exact Alike.intro hvols hreads
    | true =>
      dsimp only
      have hslots : vol'.diskSlots cluster = vol.diskSlots cluster := by
        unfold diskSlots
        rw [h.geometry, h.disk]
      rw [clusterSlots_of_read (hdata rfl) hread, clusterSlots_of_read (hdata rfl) hread', hslots]
      cases scanSlots component (vol.diskSlots cluster) lfn with
      | ended | found => exact Alike.intro hvols hreads
      | next lfn' =>
        obtain ⟨hnext, hvols₂⟩ := hvols.readFatEntry cluster
        have hreads₂ := hreads.trans ⟨readFatEntry_dataOnly vol₁ cluster,
          fun hexact => (readFatEntry_of_exact hexact cluster).2⟩
        rcases hentry : vol₁.readFatEntry cluster with ⟨next, _⟩
        rcases hentry' : vol₁'.readFatEntry cluster with ⟨next', _⟩
        rw [hentry, hentry'] at hnext hvols₂
        rw [hentry] at hreads₂
        subst hnext
        cases next' with
        | none => exact Alike.intro hvols₂ hreads₂
        | some next => exact (ih hvols₂ next lfn').after hreads₂

theorem lookupInDir_dataOnly {found : Option DirEntry}
    (h : lookupInDir component fuel vol cluster lfn = some (found, vol')) :
    DataOnly (fun _ => False) vol vol' :=
  ((lookupInDir_alike component fuel (.refl vol) cluster lfn).of_some h).2.data

end Volume

/-! ## Resolving paths -/

open Volume

namespace Inode

variable {fuel : Nat} {vol vol' : Volume} {inode : Inode} {name : Name} {found : Option Inode}

theorem lookup_alike (fuel : Nat) (h : ReadAlike vol vol') (inode : Inode) (name : Name) :
    Alike vol (inode.lookup fuel vol name) (inode.lookup fuel vol' name) := by
  cases inode with
  | regular file => exact Alike.intro h (.refl vol)
  | directory dirCluster =>
    rw [lookup, lookup, h.ready]
    split
    · exact Alike.intro h (.refl vol)
    obtain ⟨hnone, hnone'⟩ | ⟨found, vol₁, vol₁', hsome, hsome', hvols, hreads⟩ :=
      lookupInDir_alike name fuel h dirCluster LfnState.clear
    · rw [hnone, hnone']
      exact .inl ⟨rfl, rfl⟩
    · rw [hsome, hsome']
      exact Alike.intro hvols hreads

end Inode

namespace Path

variable {fuel : Nat} {vol vol' : Volume} {mountPoint path : Name}
  {result : Except FsError (Inode × Name)}

theorem walk_alike (fuel : Nat) (parents : List Name) (h : ReadAlike vol vol') (current : Inode) :
    Alike vol (walk fuel parents vol current) (walk fuel parents vol' current) := by
  induction parents generalizing vol vol' current with
  | nil => exact Alike.intro h (.refl vol)
  | cons component rest ih =>
    unfold walk
    split
    · exact ih h current
    cases current with
    | regular file => exact Alike.intro h (.refl _)
    | directory dirCluster =>
      obtain ⟨hnone, hnone'⟩ | ⟨found, _, _, hsome, hsome', hvols, hreads⟩ :=
        Inode.lookup_alike fuel h (.directory dirCluster) component
      · rw [hnone, hnone']
        exact .inl ⟨rfl, rfl⟩
      rw [hsome, hsome']
      cases found with
      | none => exact Alike.intro hvols hreads
      | some next => exact (ih hvols next).after hreads

theorem resolveParent_alike (fuel : Nat) (h : ReadAlike vol vol') (mountPoint path : Name) :
    Alike vol (resolveParent fuel vol mountPoint path)
      (resolveParent fuel vol' mountPoint path) := by
  unfold resolveParent
  rw [h.geometry]
  cases belowMount mountPoint path with
  | none => exact Alike.intro h (.refl vol)
  | some remaining =>
    dsimp only
    cases (components remaining).getLast? with
    | none => exact Alike.intro h (.refl vol)
    | some name =>
      obtain ⟨hnone, hnone'⟩ | ⟨result, vol₁, vol₁', hsome, hsome', hvols, hreads⟩ :=
        walk_alike fuel (components remaining).dropLast h (.directory vol.geometry.rootCluster)
      · rw [hnone, hnone']
        exact .inl ⟨rfl, rfl⟩
      rw [hsome, hsome']
      cases result with
      | error | ok => exact Alike.intro hvols hreads

theorem resolveParent_reads (h : resolveParent fuel vol mountPoint path = some (result, vol')) :
    Reads vol vol' :=
  ((resolveParent_alike fuel (.refl vol) mountPoint path).of_some h).2

end Path

end Bazzulto.Fat32
