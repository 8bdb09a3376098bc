/-
  Fat32/Chain.lean --- chains of clusters, and what `free_chain` does to one.

  The loops that follow a chain end when they meet a marker; on a FAT whose
  entries form a cycle they do not end at all.  Their models therefore take
  fuel and return `none` when it runs out; on a chain of `n` clusters any fuel
  above `n` is enough.

  `free_chain` leaves its loop on the end-of-chain marker and then releases
  "the current cluster" once more.  The marker passes the test that guards this
  step, so every call on a proper chain counts one cluster too many and writes
  to the place where the entry of the marker would be, far behind the FAT.
-/
import Bazzulto.Fat32.Fat

set_option autoImplicit false

namespace Bazzulto.Fat32

open Bazzulto.Foundation List

namespace Volume

variable {vol vol' : Volume} {cluster marker c v : Nat} {rest clusters front back : List Nat}

/-! ## Walking, extending and freeing a chain -/

/-- `cluster_at_index`.  The last cluster reached is returned as it is, also
when it is a marker. -/
def clusterAtIndex : (index : Nat) → (vol : Volume) → (cluster : Nat) → Option Nat × Volume
  | 0, vol, cluster => (some cluster, vol)
  | index + 1, vol, cluster =>
    if isEof cluster || isBad cluster then (none, vol)
    else
      match vol.readFatEntry cluster with
      | (none, vol) => (none, vol)
      | (some next, vol) => clusterAtIndex index vol next

/-- The loop of `get_last_cluster`. -/
def lastClusterFrom : (fuel : Nat) → (vol : Volume) → (cluster : Nat) → Option (Option Nat × Volume)
  | 0, _, _ => none
  | fuel + 1, vol, cluster =>
    match vol.readFatEntry cluster with
    | (none, vol) => some (none, vol)
    | (some next, vol) =>
      if isEof next || isBad next || decide (next < firstDataCluster) then
        some (some cluster, vol)
      else lastClusterFrom fuel vol next

def getLastCluster (fuel : Nat) (vol : Volume) (firstCluster : Nat) :
    Option (Option Nat × Volume) :=
  if firstCluster < firstDataCluster then some (none, vol)
  else lastClusterFrom fuel vol firstCluster

/-- `if state.free_clusters > 0 { state.free_clusters -= 1 }`. -/
def countAllocated (vol : Volume) : Volume := { vol with freeClusters := vol.freeClusters - 1 }

/-- `alloc_cluster`: the new cluster and the first cluster of the chain.  When
`get_last_cluster` fails the new cluster stays marked used. -/
def allocCluster (fuel : Nat) (vol : Volume) (firstCluster : Nat) :
    Option (Option (Nat × Nat) × Volume) :=
  match vol.bitmapFindFree with
  | none => some (none, vol)
  | some newCluster =>
    match (vol.bitmapSet newCluster).writeFatEntry newCluster clusterEof with
    | (false, vol) => some (none, vol.bitmapClear newCluster)
    | (true, vol) =>
      if firstCluster = 0 then some (some (newCluster, newCluster), vol.countAllocated)
      else
        match getLastCluster fuel vol firstCluster with
        | none => none
        | some (none, vol) => some (none, vol)
        | some (some last, vol) =>
          match vol.writeFatEntry last newCluster with
          | (false, vol) => some (none, vol.bitmapClear newCluster)
          | (true, vol) => some (some (newCluster, firstCluster), vol.countAllocated)

/-- Release one cluster: its bit, its entry and the count. -/
def freeCluster (vol : Volume) (cluster : Nat) : Volume :=
  let vol := ((vol.bitmapClear cluster).writeFatEntry cluster clusterFree).2
  { vol with
    freeClusters :=
      if vol.freeClusters < 0xFFFFFFFF then vol.freeClusters + 1 else vol.freeClusters }

/-- `free_chain`.  Leaving the loop, normally or because a read failed, is
followed by the release of the cluster the loop stopped at. -/
def freeChain : (fuel : Nat) → (vol : Volume) → (cluster : Nat) → Option Volume
  | 0, _, _ => none
  | fuel + 1, vol, cluster =>
    let leave (vol : Volume) :=
      if firstDataCluster ≤ cluster then vol.freeCluster cluster else vol
    if decide (firstDataCluster ≤ cluster) && !isEof cluster && !isBad cluster then
      match vol.readFatEntry cluster with
      | (none, vol) => some (leave vol)
      | (some next, vol) => freeChain fuel (vol.freeCluster cluster) next
    else some (leave vol)

/-! ## Chains -/

/-- The entry of each cluster names the next one, and the entry of the last one
is the marker. -/
def Links (vol : Volume) : (clusters : List Nat) → (marker : Nat) → Prop
  | [], _ => True
  | cluster :: rest, marker =>
    vol.EntryIs cluster (rest.headD marker) ∧ Links vol rest marker

/-- A finite, acyclic chain of clusters of the volume.  Its first cluster, as a
directory entry or an inode has it, is `clusters.headD marker`. -/
structure Chain (vol : Volume) (clusters : List Nat) (marker : Nat) : Prop where
  links : vol.Links clusters marker
  nodup : clusters.Nodup
  valid : ∀ cluster ∈ clusters, vol.geometry.Valid cluster
  isEof_marker : isEof marker = true

instance decidableLinks : (clusters : List Nat) → Decidable (vol.Links clusters marker)
  | [] => .isTrue trivial
  | _ :: rest =>
    have := decidableLinks rest
    inferInstanceAs (Decidable (_ ∧ _))

/-- A chain of a concrete volume can be checked. -/
instance : Decidable (vol.Chain clusters marker) :=
  decidable_of_iff (vol.Links clusters marker ∧ clusters.Nodup ∧
      (∀ cluster ∈ clusters, vol.geometry.Valid cluster) ∧ isEof marker = true)
    ⟨fun ⟨hlinks, hnodup, hvalid, heof⟩ => ⟨hlinks, hnodup, hvalid, heof⟩,
      fun h => ⟨h.links, h.nodup, h.valid, h.isEof_marker⟩⟩

theorem Chain.tail (h : vol.Chain (cluster :: rest) marker) : vol.Chain rest marker :=
  ⟨h.links.2, h.nodup.of_cons, fun c hc => h.valid c (mem_cons_of_mem _ hc), h.isEof_marker⟩

theorem Chain.readFatEntry_head (h : vol.Chain (cluster :: rest) marker) :
    vol.readFatEntry cluster = (some (rest.headD marker), (vol.readFatEntry cluster).2) :=
  Prod.ext h.links.1.read rfl

theorem Links.of_entries
    (hkeep : ∀ cluster ∈ clusters, ∀ value, vol.EntryIs cluster value →
      vol'.EntryIs cluster value) (h : vol.Links clusters marker) : vol'.Links clusters marker := by
  induction clusters with
  | nil => trivial
  | cons cluster rest ih =>
    exact ⟨hkeep cluster mem_cons_self _ h.1, ih (fun c hc => hkeep c (mem_cons_of_mem _ hc)) h.2⟩

theorem Chain.of_entries (h : vol.Chain clusters marker) (hgeo : vol'.geometry = vol.geometry)
    (hkeep : ∀ cluster ∈ clusters, ∀ value, vol.EntryIs cluster value →
      vol'.EntryIs cluster value) : vol'.Chain clusters marker :=
  ⟨h.links.of_entries hkeep, h.nodup, fun c hc => hgeo ▸ h.valid c hc, h.isEof_marker⟩

theorem links_append :
    vol.Links (front ++ back) marker ↔
      vol.Links front (back.headD marker) ∧ vol.Links back marker := by
  induction front with
  | nil => simp [Links]
  | cons cluster rest ih =>
    have hhead : (rest ++ back).headD marker = rest.headD (back.headD marker) := by
      cases rest <;> rfl
    rw [cons_append, Links, Links, ih, hhead, and_assoc]

theorem Chain.suffix (h : vol.Chain (front ++ back) marker) : vol.Chain back marker :=
  ⟨(links_append.mp h.links).2, (nodup_append.mp h.nodup).2.1,
    fun c hc => h.valid c (mem_append_right _ hc), h.isEof_marker⟩

theorem headD_eq (h : clusters ≠ []) (a b : Nat) : clusters.headD a = clusters.headD b := by
  cases clusters with
  | nil => exact absurd rfl h
  | cons cluster rest => rfl

theorem Chain.marker_lt (h : vol.Chain clusters marker) (hne : clusters ≠ []) :
    marker < 2 ^ 28 := by
  induction clusters with
  | nil => exact absurd rfl hne
  | cons cluster rest ih =>
    cases rest with
    | nil =>
      rw [← show vol.fatValue cluster = marker from h.links.1.onDisk]
      exact Nat.mod_lt _ (by decide)
    | cons next rest => exact ih h.tail (by simp)

/-! ## Releasing one cluster -/

section FreeCluster

variable (vol : Volume) (cluster : Nat)

theorem bitmapClear_eq : vol.bitmapClear cluster =
    { vol with fatBitmap := (vol.bitmapClear cluster).fatBitmap } := by
  unfold bitmapClear
  split <;> rfl

@[simp] theorem bitmapClear_geometry : (vol.bitmapClear cluster).geometry = vol.geometry := by
  rw [bitmapClear_eq]

@[simp] theorem bitmapClear_disk : (vol.bitmapClear cluster).disk = vol.disk := by
  rw [bitmapClear_eq]

@[simp] theorem bitmapClear_freeClusters :
    (vol.bitmapClear cluster).freeClusters = vol.freeClusters := by
  rw [bitmapClear_eq]

@[simp] theorem freeCluster_geometry : (vol.freeCluster cluster).geometry = vol.geometry := by
  simp [freeCluster]

@[simp] theorem freeCluster_fatBitmap :
    (vol.freeCluster cluster).fatBitmap = (vol.bitmapClear cluster).fatBitmap := by
  simp [freeCluster]

theorem freeCluster_freeClusters (h : vol.freeClusters < 0xFFFFFFFF) :
    (vol.freeCluster cluster).freeClusters = vol.freeClusters + 1 := by
  simp [freeCluster, h]

end FreeCluster

theorem EntryIs.congr (h : vol.EntryIs c v) (hgeo : vol'.geometry = vol.geometry)
    (hdisk : vol'.disk = vol.disk) (hsector : vol'.fatCacheSector = vol.fatCacheSector)
    (hbuf : vol'.fatCacheBuf = vol.fatCacheBuf) : vol'.EntryIs c v := by
  obtain ⟨_, _⟩ := h
  refine ⟨?_, ?_, ?_⟩
  · rwa [hgeo, hdisk]
  · rwa [fatValue, hgeo, hdisk]
  · rwa [hgeo, hsector, hbuf]

theorem EntryIs.freeCluster (h : vol.EntryIs c v) (hc : vol.geometry.InFat c) (hne : c ≠ cluster) :
    (vol.freeCluster cluster).EntryIs c v := by
  have hcleared : (vol.bitmapClear cluster).EntryIs c v :=
    h.congr (by simp) (by simp) (by rw [bitmapClear_eq]) (by rw [bitmapClear_eq])
  have hwritten := hcleared.writeFatEntry clusterFree
    (by rw [bitmapClear_geometry]; exact hc) hne
  exact hwritten.congr rfl rfl rfl rfl

/-! ## Releasing a chain -/

/-- The loop of `free_chain` on the clusters of a chain, one after the other. -/
def freeEach (vol : Volume) (clusters : List Nat) : Volume :=
  clusters.foldl (fun vol cluster => (vol.readFatEntry cluster).2.freeCluster cluster) vol

theorem freeEach_cons (vol : Volume) (cluster : Nat) (rest : List Nat) :
    vol.freeEach (cluster :: rest) =
      ((vol.readFatEntry cluster).2.freeCluster cluster).freeEach rest := rfl

theorem Chain.freeHead (h : vol.Chain (cluster :: rest) marker) :
    ((vol.readFatEntry cluster).2.freeCluster cluster).Chain rest marker := by
  refine h.tail.of_entries (by simp) fun c hc value hentry => ?_
  have hinFat := (h.valid c (mem_cons_of_mem _ hc)).inFat
  refine (hentry.readFatEntry cluster).freeCluster (by simpa using hinFat) ?_
  rintro rfl
  exact (nodup_cons.mp h.nodup).1 hc

/-- On a chain, with fuel for one round per cluster and one more for the
marker, `free_chain` releases every cluster and then the marker. -/
theorem freeChain_eq (fuel : Nat) (h : vol.Chain clusters marker) :
    freeChain fuel vol (clusters.headD marker) =
      if clusters.length < fuel then some ((vol.freeEach clusters).freeCluster marker)
      else none := by
  induction clusters generalizing vol fuel with
  | nil =>
    cases fuel with
    | zero => rfl
    | succ fuel =>
      have hmarker := h.isEof_marker
      have hdata : firstDataCluster ≤ marker := by
        have := of_decide_eq_true hmarker
        unfold clusterEofMin at this
        unfold firstDataCluster
        omega
      simp [freeChain, freeEach, hmarker, hdata]
  | cons cluster rest ih =>
    cases fuel with
    | zero => rfl
    | succ fuel =>
      have hvalid := h.valid cluster mem_cons_self
      have hdata : firstDataCluster ≤ cluster := hvalid.1
      rw [headD_cons, freeChain, if_pos (by simp [hdata, hvalid.not_isEof, hvalid.not_isBad]),
        h.readFatEntry_head]
      dsimp only
      rw [ih _ h.freeHead, freeEach_cons]
      simp

theorem freeEach_freeClusters (h : vol.freeClusters + clusters.length ≤ 0xFFFFFFFF) :
    (vol.freeEach clusters).freeClusters = vol.freeClusters + clusters.length := by
  induction clusters generalizing vol with
  | nil => rfl
  | cons cluster rest ih =>
    rw [length_cons] at h ⊢
    have hone : ((vol.readFatEntry cluster).2.freeCluster cluster).freeClusters =
        vol.freeClusters + 1 := by
      rw [freeCluster_freeClusters _ _ (by rw [readFatEntry_freeClusters]; omega),
        readFatEntry_freeClusters]
    rw [freeEach_cons, ih (by omega)]
    omega

/-- What freeing a chain is meant to do: the entries of its clusters become
free in every copy of the FAT, their bits are cleared, the count grows by their
number, and no other byte of the disk and no other bit changes. -/
structure FreedExactly (vol vol' : Volume) (clusters : List Nat) : Prop where
  entries : ∀ copy < vol.geometry.numFats, ∀ cluster ∈ clusters,
    word vol'.disk.bytes (vol.geometry.fatAddress copy cluster) % 2 ^ 28 = clusterFree
  disk : ∀ i, (∀ copy < vol.geometry.numFats, ∀ cluster ∈ clusters,
    i < vol.geometry.fatAddress copy cluster ∨ vol.geometry.fatAddress copy cluster + 4 ≤ i) →
    vol'.disk.bytes i = vol.disk.bytes i
  bits : ∀ bit, vol'.fatBitmap bit =
    if bit + firstDataCluster ∈ clusters then false else vol.fatBitmap bit
  count : vol'.freeClusters = vol.freeClusters + clusters.length

/-- **Freeing a chain counts one cluster too many.**  On every proper chain of
at least one cluster and with every count of free clusters that leaves room for
it, `free_chain` ends and has released the end-of-chain marker as well: the
count has grown by one more than the length of the chain. -/
theorem freeChain_never_exact (vol : Volume) (cluster : Nat) (rest : List Nat) (marker : Nat)
    (hchain : vol.Chain (cluster :: rest) marker)
    (hcount : vol.freeClusters < vol.geometry.totalClusters - (cluster :: rest).length)
    (fuel : Nat) (hfuel : (cluster :: rest).length < fuel) :
    ∃ vol', freeChain fuel vol cluster = some vol' ∧
      vol'.freeClusters = vol.freeClusters + (cluster :: rest).length + 1 ∧
      ¬ FreedExactly vol vol' (cluster :: rest) := by
  have hmarkers := vol.geometry.clusters_lt_markers
  have hloop : (vol.freeEach (cluster :: rest)).freeClusters =
      vol.freeClusters + (cluster :: rest).length := freeEach_freeClusters (by omega)
  have hfinal := freeCluster_freeClusters (vol.freeEach (cluster :: rest)) marker (by omega)
  refine ⟨_, (freeChain_eq fuel hchain).trans (if_pos hfuel), by rw [hfinal, hloop], fun hexact => ?_⟩
  have hexpected := hexact.count
  omega

/-- The small volume with a chain of the two clusters 3 and 4, and five of its
clusters counted as free. -/
def twoClusterVolume : Volume :=
  let linked := (((blankVolume 0).writeFatEntry 3 4).2.writeFatEntry 4 clusterEof).2
  { (linked.bitmapSet 3).bitmapSet 4 with freeClusters := 5 }

theorem twoClusterVolume_chain : twoClusterVolume.Chain [3, 4] clusterEof := by decide +kernel

theorem freeChain_never_exact_on_twoClusterVolume :
    ∃ vol', freeChain 3 twoClusterVolume 3 = some vol' ∧
      vol'.freeClusters = twoClusterVolume.freeClusters + [3, 4].length + 1 ∧
      ¬ FreedExactly twoClusterVolume vol' [3, 4] :=
  freeChain_never_exact twoClusterVolume 3 [4] clusterEof twoClusterVolume_chain (by decide) 3
    (by decide)

/-- Freeing the two clusters raises the count from 5 to 8. -/
theorem freeing_two_clusters_counts_three :
    twoClusterVolume.Chain [3, 4] clusterEof ∧
      twoClusterVolume.freeClusters < twoClusterVolume.geometry.totalClusters - 2 ∧
      ∃ vol', freeChain 3 twoClusterVolume 3 = some vol' ∧
        vol'.freeClusters = 8 ∧ ¬ FreedExactly twoClusterVolume vol' [3, 4] := by
  refine ⟨twoClusterVolume_chain, by decide, ?_⟩
  have hview : (freeChain 3 twoClusterVolume 3).map (·.freeClusters) = some 8 := by
    decide +kernel
  obtain ⟨vol', hfreed, hcount⟩ := Option.map_eq_some_iff.mp hview
  refine ⟨vol', hfreed, hcount, fun hexact => ?_⟩
  have hexpected := hexact.count
  rw [hcount] at hexpected
  cases hexpected

end Volume

end Bazzulto.Fat32
