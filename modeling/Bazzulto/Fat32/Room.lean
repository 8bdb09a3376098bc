/-
  Fat32/Room.lean --- finding room for directory entries.

  New entries go to the first run of free slots that is long enough and lies in
  one cluster of the directory; if there is none, zeroed clusters are appended.
  A slot never used ends the directory for every scan, and the search takes it
  that all slots behind it are free as well.  So a run may hold anything behind
  such a slot; `FreeRun` says what is known about it.

  `Extended` is what appending clusters leaves alone: whatever lies in clusters
  that were in use, and the entries of the FAT outside the directory's chain.
-/
import Bazzulto.Fat32.FileRun
import Bazzulto.Fat32.Lookup

set_option autoImplicit false

namespace Bazzulto.Fat32

open Bazzulto.Foundation List Option Function

namespace Volume

variable {fuel cluster marker last new first' count : Nat} {vol vol' vol₁ : Volume}
  {front dir news : List Nat} {place : Option (Nat × Nat)}

/-! ## Appending a cluster to a chain -/

/-- The walk to the end of a chain ends at its last cluster. -/
theorem lastClusterFrom_of_chain {rest : List Nat} {last : Option Nat}
    (h : vol.Chain (cluster :: rest) marker)
    (hwalk : lastClusterFrom fuel vol cluster = some (last, vol')) :
    last = some ((cluster :: rest).getLast (cons_ne_nil _ _)) ∧
      DataOnly (fun _ => False) vol vol' := by
  induction fuel generalizing vol cluster rest with
  | zero => simp [lastClusterFrom] at hwalk
  | succ fuel ih =>
    have hdata := readFatEntry_dataOnly vol cluster
    rw [lastClusterFrom, h.readFatEntry_head] at hwalk
    dsimp only at hwalk
    cases rest with
    | nil =>
      rw [if_pos (by simp [h.isEof_marker])] at hwalk
      simp only [some.injEq, Prod.mk.injEq] at hwalk
      exact ⟨hwalk.1 ▸ rfl, hwalk.2 ▸ hdata⟩
    | cons second rest =>
      have hvalid := h.valid second (by simp)
      have hlow : ¬ second < firstDataCluster := Nat.not_lt.mpr hvalid.1
      rw [if_neg (by simp [hvalid.not_isEof, hvalid.not_isBad, hlow])] at hwalk
      obtain ⟨hlast, hdata'⟩ := ih (hdata.chain h).tail hwalk
      exact ⟨by rw [hlast, getLast_cons (cons_ne_nil _ _)], hdata.trans hdata'⟩

/-- Writing the number of a cluster that ends a chain into the entry of the last
cluster of another chain joins the two. -/
theorem Chain.link (hhealthy : vol.Healthy) (h : vol.Chain (front ++ [last]) marker)
    (hvalid : vol.geometry.Valid new) (hfresh : new ∉ front ++ [last])
    (hentry : vol.EntryIs new clusterEof) :
    (vol.writeFatEntry last new).2.Chain (front ++ [last] ++ [new]) clusterEof := by
  have hlast := h.valid last (by simp)
  have hne : new ≠ last := fun heq => hfresh (by simp [heq])
  have hlink := writeFatEntry_fatOnly vol last new
  refine ⟨?_, ?_, ?_, by decide⟩
  · rw [append_assoc, links_append]
    refine ⟨?_, ?_, ?_, trivial⟩
    · refine Links.of_entries (fun c hc v hv => ?_) (links_append.mp h.links).1
      have hapart := (nodup_append.mp h.nodup).2.2 c hc last (by simp)
      exact hlink.entries c v (h.valid c (by simp [hc])).inFat (by simpa using hapart) hv
    · have hback := hhealthy.writeFatEntry_entryIs new hlast.inFat
      have hmarkers := vol.geometry.clusters_lt_markers
      have hlt := hvalid.2
      rwa [Nat.mod_eq_of_lt (by omega)] at hback
    · exact hlink.entries new clusterEof hvalid.inFat (by simpa using hne) hentry
  · rw [nodup_append]
    refine ⟨h.nodup, by simp, fun a ha b hb heq => ?_⟩
    rw [mem_singleton] at hb
    exact hfresh (hb ▸ heq ▸ ha)
  · intro c hc
    rw [hlink.geometry]
    rw [mem_append, mem_singleton] at hc
    rcases hc with hin | rfl
    · exact h.valid c hin
    · exact hvalid

/-- The steps of a successful allocation behind a first cluster. -/
theorem allocCluster_steps {firstCluster : Nat} (hfirst : firstCluster ≠ 0)
    (h : allocCluster fuel vol firstCluster = some (some (new, first'), vol')) :
    ∃ vol₁ last vol₂, vol.bitmapFindFree = some new ∧
      (vol.bitmapSet new).writeFatEntry new clusterEof = (true, vol₁) ∧
      getLastCluster fuel vol₁ firstCluster = some (some last, vol₂) ∧
      vol' = (vol₂.writeFatEntry last new).2.countAllocated := by
  unfold allocCluster at h
  split at h
  · cases h
  next hfree =>
    split at h
    · cases h
    next vol₁ hwritten =>
      rw [if_neg hfirst] at h
      split at h
      · cases h
      · cases h
      next last vol₂ hlast =>
        split at h
        · cases h
        next hlinked =>
          cases h
          exact ⟨vol₁, last, vol₂, hfree, hwritten, hlast, by rw [hlinked]⟩

theorem bitmapSet_used {c : Nat} (cluster : Nat) (h : vol.Used c) :
    (vol.bitmapSet cluster).Used c := by
  unfold Used bitmapSet at *
  split
  · by_cases heq : c - firstDataCluster = cluster - firstDataCluster
    · rw [heq]
      exact update_self _ _ _
    · rw [← h]
      exact update_of_ne heq _ _
  · exact h

/-- A cluster appended to a chain: it was free, is used and is the new end. -/
theorem allocCluster_append (hhealthy : vol.Healthy) (hchain : vol.Chain (front ++ [last]) marker)
    (hused : ∀ d ∈ front ++ [last], vol.Used d)
    (h : allocCluster fuel vol ((front ++ [last]).headD 0) = some (some (new, first'), vol')) :
    (vol.geometry.Valid new ∧ ¬ vol.Used new) ∧ FatOnly [new, last] vol vol' ∧
      vol'.Chain (front ++ [last] ++ [new]) clusterEof ∧
      ∀ c, vol.Used c ∨ c = new → vol'.Used c := by
  obtain ⟨cluster, rest, hdir⟩ : ∃ cluster rest, front ++ [last] = cluster :: rest := by
    cases front with
    | nil => exact ⟨last, [], rfl⟩
    | cons cluster rest => exact ⟨cluster, rest ++ [last], rfl⟩
  have hhead := (hchain.valid cluster (by simp [hdir])).1
  rw [hdir, headD_cons] at h
  obtain ⟨vol₁, reached, vol₂, hfree, hwritten, hlast, rfl⟩ :=
    allocCluster_steps (by omega) h
  obtain ⟨hvalid, hunused⟩ := bitmapFindFree_some hfree
  have hfresh : new ∉ front ++ [last] := fun hmem => hunused (hused new hmem)
  obtain ⟨-, hmark, hnewUsed, hentry⟩ := hhealthy.markNew hvalid
  rw [hwritten] at hmark hnewUsed hentry
  have hchain₁ := hmark.chain hchain fun c hc hmem => by
    rw [mem_singleton] at hmem
    exact hfresh (hmem ▸ hc)
  rw [getLastCluster, if_neg (by unfold firstDataCluster; omega)] at hlast
  obtain ⟨hreached, hdata⟩ := lastClusterFrom_of_chain (hdir ▸ hchain₁) hlast
  have hreached' : reached = last := by
    rw [some.inj hreached]
    simp [← hdir]
  subst hreached'
  have hhealthy₂ := (hhealthy.of_fatOnly hmark).of_dataOnly hdata
  have hfat : FatOnly [new, reached] vol (vol₂.writeFatEntry reached new).2 :=
    ((hmark.trans hdata.fatOnly).trans (writeFatEntry_fatOnly vol₂ reached new)).mono (by simp)
  have hgeometry₂ : vol₂.geometry = vol.geometry := hdata.geometry.trans hmark.geometry
  refine ⟨⟨hvalid, hunused⟩, (hfat.trans (fatOnly_count _ _)).mono (by simp), ?_, ?_⟩
  · have hjoined := (hdata.chain hchain₁).link hhealthy₂ (by rw [hgeometry₂]; exact hvalid) hfresh
      (hdata.entries new clusterEof (by rw [hmark.geometry]; exact hvalid.inFat) hentry)
    exact hjoined.of_entries rfl fun c _ v hv => hv.congr rfl rfl rfl rfl
  intro c hc
  have hbitmap : (vol₂.writeFatEntry reached new).2.fatBitmap = vol₁.fatBitmap := by
    rw [writeFatEntry_fatBitmap, hdata.fatBitmap]
  have hmarked : vol₁.Used c := by
    rcases hc with hold | rfl
    · have hset := bitmapSet_used new hold
      unfold Used at hset ⊢
      rw [show vol₁ = ((vol.bitmapSet new).writeFatEntry new clusterEof).2 by rw [hwritten],
        writeFatEntry_fatBitmap]
      exact hset
    · exact hnewUsed
  exact (congrFun hbitmap _).trans hmarked

/-! ## Appending zeroed clusters to a directory -/

/-- The clusters of a directory: a chain of clusters in use. -/
structure IsDirectory (vol : Volume) (dir : List Nat) : Prop where
  chain : ∃ marker, vol.Chain dir marker
  ne_nil : dir ≠ []
  used : ∀ d ∈ dir, vol.Used d

theorem DataOnly.used_iff {touched : Nat → Prop} (h : DataOnly touched vol vol') (c : Nat) :
    vol'.Used c ↔ vol.Used c := by
  unfold Used
  rw [h.fatBitmap]

theorem IsDirectory.of_dataOnly (h : vol.IsDirectory dir)
    (hdata : DataOnly (fun _ => False) vol vol') : vol'.IsDirectory dir where
  chain := h.chain.imp fun _ hchain => hdata.chain hchain
  ne_nil := h.ne_nil
  used := fun d hd => (hdata.used_iff d).mpr (h.used d hd)

/-- The clusters `news`, free before, were appended to the chain `dir`. -/
structure Extended (dir news : List Nat) (vol vol' : Volume) : Prop where
  geometry : vol'.geometry = vol.geometry
  healthy : vol'.Healthy
  chain : ∃ marker, vol'.Chain (dir ++ news) marker
  fresh : ∀ c ∈ news, vol.geometry.Valid c ∧ ¬ vol.Used c
  used : ∀ c, vol.Used c ∨ c ∈ news → vol'.Used c
  entries : ∀ c v, vol.geometry.Valid c → vol.Used c → c ∉ dir → vol.EntryIs c v → vol'.EntryIs c v
  bytes : ∀ c, vol.geometry.Valid c → vol.Used c → ∀ r < vol.geometry.bytesPerCluster,
    vol'.disk.bytes (vol.geometry.clusterAddress c + r) =
      vol.disk.bytes (vol.geometry.clusterAddress c + r)

theorem Extended.cons (h : Extended dir [new] vol vol₁)
    (h' : Extended (dir ++ [new]) news vol₁ vol') :
    Extended dir (new :: news) vol vol' where
  geometry := h'.geometry.trans h.geometry
  healthy := h'.healthy
  chain := by
    obtain ⟨marker, hchain⟩ := h'.chain
    exact ⟨marker, by rwa [append_assoc] at hchain⟩
  fresh := fun c hc => by
    rcases mem_cons.mp hc with rfl | hrest
    · exact h.fresh c (by simp)
    · obtain ⟨hvalid, hunused⟩ := h'.fresh c hrest
      rw [h.geometry] at hvalid
      exact ⟨hvalid, fun hused => hunused (h.used c (.inl hused))⟩
  used := fun c hc => by
    rcases hc with hold | hnew
    · exact h'.used c (.inl (h.used c (.inl hold)))
    · rcases mem_cons.mp hnew with rfl | hrest
      · exact h'.used c (.inl (h.used c (.inr (by simp))))
      · exact h'.used c (.inr hrest)
  entries := fun c v hvalid hused hdir hentry => by
    refine h'.entries c v (by rw [h.geometry]; exact hvalid) (h.used c (.inl hused)) ?_
      (h.entries c v hvalid hused hdir hentry)
    rw [mem_append, mem_singleton, not_or]
    refine ⟨hdir, fun heq => (h.fresh new (by simp)).2 (heq ▸ hused)⟩
  bytes := fun c hvalid hused r hr => by
    have hlater := h'.bytes c (by rw [h.geometry]; exact hvalid) (h.used c (.inl hused)) r
      (by rw [h.geometry]; exact hr)
    rw [h.geometry] at hlater
    rw [hlater, h.bytes c hvalid hused r hr]

/-- One more cluster. -/
theorem extended_one (hhealthy : vol.Healthy) (hdir : vol.IsDirectory dir)
    (h : allocCluster fuel vol (dir.headD 0) = some (some (new, first'), vol₁)) :
    Extended dir [new] vol ({ vol₁ with clusterBuf := fun _ => 0 }.writeCluster new).2 := by
  obtain ⟨front, last, rfl⟩ : ∃ front last, dir = front ++ [last] :=
    ⟨dir.dropLast, dir.getLast hdir.ne_nil, (dropLast_append_getLast hdir.ne_nil).symm⟩
  obtain ⟨_, hchain⟩ := hdir.chain
  obtain ⟨⟨hvalid, hunused⟩, hfat, hchain', hbits⟩ :=
    allocCluster_append hhealthy hchain hdir.used h
  have hbuf := dataOnly_clusterBuf vol₁ (fun _ => 0)
  have hdata := hbuf.weaken.trans
    (writeCluster_dataOnly { vol₁ with clusterBuf := fun _ => 0 } new)
  generalize ({ vol₁ with clusterBuf := fun _ => 0 }.writeCluster new).2 = vol₂ at hdata ⊢
  have hlast := hchain.valid last (by simp)
  have hapart : ∀ c, vol.Used c → c ∉ front ++ [last] → c ∉ [new, last] := by
    intro c hcUsed hcDir
    rw [mem_cons, not_or]
    exact ⟨fun heq => hunused (heq ▸ hcUsed), fun heq => hcDir (by simp [heq])⟩
  exact
    { geometry := hdata.geometry.trans hfat.geometry
      healthy := (hhealthy.of_fatOnly hfat).of_dataOnly hdata
      chain := ⟨clusterEof, hdata.chain hchain'⟩
      fresh := fun c hc => by
        rw [mem_singleton] at hc
        exact hc ▸ ⟨hvalid, hunused⟩
      used := fun c hc => (hdata.used_iff c).mpr (hbits c (hc.imp id mem_singleton.mp))
      entries := fun c v hcValid hcUsed hcDir hentry =>
        hdata.entries c v (by rw [hfat.geometry]; exact hcValid.inFat)
          (hfat.entries c v hcValid.inFat (hapart c hcUsed hcDir) hentry)
      bytes := fun c hcValid hcUsed r hr => by
        have hlater := hdata.clusterByte hcValid.1 (by rw [hfat.geometry]; exact hr)
          fun t ht => ⟨ht ▸ hvalid.1, fun heq => hunused (by
            have htNew : t = new := ht
            exact htNew ▸ heq ▸ hcUsed)⟩
        rw [hfat.geometry] at hlater
        rw [hlater]
        refine hfat.clusterByte fun w hw => .inl ?_
        rw [mem_cons, mem_singleton] at hw
        rcases hw with rfl | rfl
        · exact hvalid.inFat
        · exact hlast.inFat }

theorem Extended.nil (hhealthy : vol.Healthy) (hdir : vol.IsDirectory dir) :
    Extended dir [] vol vol where
  geometry := rfl
  healthy := hhealthy
  chain := by
    rw [append_nil]
    exact hdir.chain
  fresh := by simp
  used := fun c hc => hc.resolve_right (by simp)
  entries := fun _ _ _ _ _ h => h
  bytes := fun _ _ _ _ _ => rfl

theorem extendDirectory_extended (count : Nat) :
    ∀ {vol vol' : Volume} {dir news : List Nat}, vol.Healthy → vol.IsDirectory dir →
      extendDirectory fuel (dir.headD 0) count vol = some (some news, vol') →
      news.length = count ∧ Extended dir news vol vol' := by
  induction count with
  | zero =>
    rintro vol vol' dir news hhealthy hdir ⟨rfl, rfl⟩
    exact ⟨rfl, Extended.nil hhealthy hdir⟩
  | succ count ih =>
    intro _ _ dir _ hhealthy hdir h
    rw [extendDirectory] at h
    split at h
    · cases h
    · cases h
    next new _ _ halloc =>
      have hone := extended_one hhealthy hdir halloc
      have hhead : (dir ++ [new]).headD 0 = dir.headD 0 := by
        cases dir with
        | nil => exact absurd rfl hdir.ne_nil
        | cons d rest => rfl
      dsimp only at h
      split at h
      · cases h
      · cases h
      next hrest =>
        cases h
        rw [← hhead] at hrest
        have hlonger : IsDirectory _ (dir ++ [new]) := ⟨hone.chain, by simp, fun d hd =>
          hone.used d ((mem_append.mp hd).imp (hdir.used d) id)⟩
        obtain ⟨hlen, hextended⟩ := ih hone.healthy hlonger hrest
        exact ⟨by rw [length_cons, hlen], hone.cons hextended⟩

/-! ## Runs of free slots -/

/-- The first byte of a slot, on the disk. -/
def slotByte (vol : Volume) (cluster index : Nat) : UInt8 :=
  vol.disk.bytes (vol.geometry.clusterAddress cluster + index * 32)

/-- A run of `count` slots in one cluster that are free as far as the first one
that was never used. -/
def FreeRun (vol : Volume) (cluster index count : Nat) : Prop :=
  index + count ≤ vol.geometry.entriesPerCluster ∧
    ∀ i < count, (∀ j < i, vol.slotByte cluster (index + j) ≠ dirEntryFree) →
      isFreeByte (vol.slotByte cluster (index + i)) = true

theorem slotBytes_of_read (hdata : 2 ≤ cluster) (h : vol.readCluster cluster = (true, vol')) :
    slotBytes vol'.geometry vol'.clusterBuf =
      (List.range vol.geometry.entriesPerCluster).map (vol.slotByte cluster) := by
  have hresp := clusterResponds_of_readCluster (show (vol.readCluster cluster).1 = true by
    rw [h])
  rw [readCluster_of_responds hdata hresp, Prod.mk.injEq] at h
  rw [← h.2]
  refine map_congr_left fun i hi => ?_
  have hinside := slot_inside vol.geometry (mem_range.mp hi) (show 0 < 32 by omega)
  exact if_pos (by omega)

/-- What the search in one cluster returns.  Before slot `index` there are
`runLen` slots that are free and were used before. -/
theorem findRun_spec {byte : Nat → UInt8} {size start : Nat} :
    ∀ (remaining index runLen : Nat), index + remaining = size → runLen ≤ index →
      (∀ j, index - runLen ≤ j → j < index → isFreeByte (byte j) = true) →
      findRun size count ((List.range remaining).map fun i => byte (index + i)) index runLen =
        some start →
      start + count ≤ size ∧ ∀ i < count, (∀ j < i, byte (start + j) ≠ dirEntryFree) →
        isFreeByte (byte (start + i)) = true := by
  intro remaining
  induction remaining with
  | zero => intro index runLen _ _ _ h; simp [findRun] at h
  | succ remaining ih =>
    intro index runLen _ hrun hfree h
    rw [List.range_succ_eq_map, List.map_cons, List.map_map] at h
    have htail : (List.range remaining).map ((fun i => byte (index + i)) ∘ Nat.succ) =
        (List.range remaining).map fun i => byte (index + 1 + i) :=
      map_congr_left fun i _ => congrArg byte (by simp; omega)
    rw [htail, findRun] at h
    dsimp only at h
    split at h
    next hbyte =>
      have hfree' : ∀ j, index - runLen ≤ j → j < index + 1 → isFreeByte (byte j) = true := by
        intro j hlow hhigh
        rcases Nat.eq_or_lt_of_le (Nat.le_of_lt_succ hhigh) with rfl | hlt
        · exact hbyte
        · exact hfree j hlow hlt
      split at h
      · rw [← some.inj h]
        exact ⟨by omega, fun i hi _ => hfree' _ (by omega) (by omega)⟩
      split at h
      next hnever =>
        split at h
        · rw [← some.inj h]
          refine ⟨by omega, fun i hi hbefore => ?_⟩
          by_cases hpast : index < index - runLen + i
          · have hend := hbefore runLen (by omega)
            rw [Nat.sub_add_cancel hrun] at hend
            exact absurd hnever hend
          · exact hfree' _ (by omega) (by omega)
        · simp at h
      · exact ih (index + 1) (runLen + 1) (by omega) (by omega)
          (fun j hlow hhigh => hfree' j (by omega) hhigh) h
    · exact ih (index + 1) 0 (by omega) (Nat.zero_le _) (fun j _ _ => by omega) h

/-- Room was found for `count` entries: in a cluster of the directory, or at the
start of the clusters appended to it. -/
def RoomAt (dir : List Nat) (count : Nat) (vol vol' : Volume) (cluster index : Nat) : Prop :=
  (DataOnly (fun _ => False) vol vol' ∧ cluster ∈ dir ∧ vol.FreeRun cluster index count) ∨
    index = 0 ∧ ∃ news, news ≠ [] ∧ cluster = news.headD 0 ∧ Extended dir news vol vol'

theorem FreeRun.of_disk {index : Nat} (hgeo : vol'.geometry = vol.geometry)
    (hdisk : vol'.disk = vol.disk) (h : vol'.FreeRun cluster index count) :
    vol.FreeRun cluster index count := by
  unfold FreeRun slotByte at *
  rwa [hgeo, hdisk] at h

theorem Extended.of_dataOnly (hdata : DataOnly (fun _ => False) vol vol₁)
    (h : Extended dir news vol₁ vol') : Extended dir news vol vol' := by
  have hused := hdata.used_iff
  exact
    { geometry := h.geometry.trans hdata.geometry
      healthy := h.healthy
      chain := h.chain
      fresh := fun c hc => by
        have hfresh := h.fresh c hc
        rwa [hused, hdata.geometry] at hfresh
      used := fun c hc => h.used c (hc.imp (hused c).mpr id)
      entries := fun c v hvalid hc hdir hentry =>
        h.entries c v (by rw [hdata.geometry]; exact hvalid) ((hused c).mpr hc) hdir
          (hdata.entries c v hvalid.inFat hentry)
      bytes := fun c hvalid hc r hr => by
        have hbytes := h.bytes c (by rw [hdata.geometry]; exact hvalid) ((hused c).mpr hc) r
          (by rw [hdata.geometry]; exact hr)
        rwa [hdata.geometry, hdata.disk_eq] at hbytes }

/-! ## The searches -/

/-- What a search comes to: the disk is as before, and a place that it has found is a run
of free slots in the directory. -/
def Finds (dir : List Nat) (count : Nat) (vol vol' : Volume) (place : Option (Nat × Nat)) :
    Prop :=
  DataOnly (fun _ => False) vol vol' ∧ ∀ cluster index, place = some (cluster, index) →
    cluster ∈ dir ∧ vol.FreeRun cluster index count

theorem Finds.behind (hkeep : DataOnly (fun _ => False) vol vol₁)
    (h : Finds dir count vol₁ vol' place) : Finds (cluster :: dir) count vol vol' place :=
  ⟨hkeep.trans h.1, fun cluster' index heq => (h.2 cluster' index heq).imp (mem_cons_of_mem _)
    (·.of_disk hkeep.geometry hkeep.disk_eq)⟩

theorem findFreeSlot_some (hchain : vol.Chain dir marker)
    (h : findFreeSlot fuel vol (dir.headD marker) = some (some place, vol')) :
    Finds dir 1 vol vol' place := by
  induction fuel generalizing vol dir with
  | zero => simp [findFreeSlot] at h
  | succ fuel ih =>
    cases dir with
    | nil =>
      simp only [findFreeSlot, headD_nil, hchain.isEof_marker, Bool.true_or, if_true,
        some.injEq, Prod.mk.injEq] at h
      exact ⟨h.2 ▸ DataOnly.refl _ vol, by simp [← h.1]⟩
    | cons cluster rest =>
      have hvalid := hchain.valid cluster mem_cons_self
      have hread := readCluster_dataOnly vol cluster
      rw [headD_cons, findFreeSlot, if_neg (by simp [hvalid.not_isEof, hvalid.not_isBad])] at h
      split at h
      · cases h
      next vol₁ hok =>
        rw [hok] at hread
        rw [slotBytes_of_read hvalid.1 hok] at h
        split at h
        next hidx =>
          cases h
          refine ⟨hread, ?_⟩
          rintro _ _ ⟨⟩
          obtain ⟨hlt, hfree, _⟩ := List.findIdx?_eq_some_iff_getElem.mp hidx
          rw [length_map, length_range] at hlt
          refine ⟨mem_cons_self, by omega, fun i hi _ => ?_⟩
          obtain rfl : i = 0 := by omega
          simpa using hfree
        · have hkeep := hread.trans (readFatEntry_dataOnly vol₁ cluster)
          rw [(hread.chain hchain).readFatEntry_head] at h
          exact .behind hkeep (ih (hkeep.chain hchain).tail h)

theorem findRunOfSlots_some (hchain : vol.Chain dir marker)
    (h : findRunOfSlots count fuel vol (dir.headD marker) = some (some place, vol')) :
    Finds dir count vol vol' place := by
  induction fuel generalizing vol dir with
  | zero => simp [findRunOfSlots] at h
  | succ fuel ih =>
    cases dir with
    | nil =>
      simp only [findRunOfSlots, headD_nil, hchain.isEof_marker, Bool.true_or, if_true,
        some.injEq, Prod.mk.injEq] at h
      exact ⟨h.2 ▸ DataOnly.refl _ vol, by simp [← h.1]⟩
    | cons cluster rest =>
      have hvalid := hchain.valid cluster mem_cons_self
      have hread := readCluster_dataOnly vol cluster
      rw [headD_cons, findRunOfSlots, if_neg (by simp [hvalid.not_isEof, hvalid.not_isBad])] at h
      split at h
      · cases h
      next vol₁ hok =>
        rw [hok] at hread
        dsimp only at h
        rw [slotBytes_of_read hvalid.1 hok, hread.geometry] at h
        split at h
        next hidx =>
          cases h
          refine ⟨hread, ?_⟩
          rintro _ _ ⟨⟩
          refine ⟨mem_cons_self, ?_⟩
          exact findRun_spec vol.geometry.entriesPerCluster 0 0 (by omega) (Nat.le_refl 0)
            (fun j _ hj => absurd hj (Nat.not_lt_zero j)) (by simpa using hidx)
        · have hkeep := hread.trans (readFatEntry_dataOnly vol₁ cluster)
          rw [(hread.chain hchain).readFatEntry_head] at h
          dsimp only at h
          split at h
          · simp only [some.injEq, Prod.mk.injEq] at h
            exact ⟨h.2 ▸ hkeep, by simp [← h.1]⟩
          exact .behind hkeep (ih (hkeep.chain hchain).tail h)

section Room

variable {index : Nat} (hhealthy : vol.Healthy) (hdir : vol.IsDirectory dir)

include hhealthy hdir

/-- After a search without success, the directory is extended. -/
theorem firstOfNew_room {clusters : Nat} (hpos : 0 < clusters) (count : Nat)
    (hdata : DataOnly (fun _ => False) vol vol₁)
    (h : firstOfNew (extendDirectory fuel (dir.headD 0) clusters vol₁) =
      some (some (cluster, index), vol')) : RoomAt dir count vol vol' cluster index := by
  cases hextend : extendDirectory fuel (dir.headD 0) clusters vol₁ with
  | none =>
    rw [hextend] at h
    simp [firstOfNew] at h
  | some result =>
    obtain ⟨news?, _⟩ := result
    cases news? with
    | none =>
      rw [hextend] at h
      simp [firstOfNew] at h
    | some news =>
      simp only [hextend] at h
      obtain ⟨⟨rfl, rfl⟩, rfl⟩ := h
      obtain ⟨hlen, hextended⟩ := extendDirectory_extended clusters
        (hhealthy.of_dataOnly hdata) (hdir.of_dataOnly hdata) hextend
      refine .inr ⟨rfl, news, ?_, rfl, hextended.of_dataOnly hdata⟩
      rintro rfl
      simp at hlen
      omega

theorem findFreeDirSlot_room
    (h : findFreeDirSlot fuel vol (dir.headD 0) = some (some (cluster, index), vol')) :
    RoomAt dir 1 vol vol' cluster index := by
  obtain ⟨marker, hchain⟩ := hdir.chain
  have hhead : dir.headD marker = dir.headD 0 := headD_eq hdir.ne_nil marker 0
  unfold findFreeDirSlot at h
  rw [← hhead] at h
  split at h
  · cases h
  · cases h
  next hfound =>
    cases h
    obtain ⟨hdata, hplace⟩ := findFreeSlot_some hchain hfound
    exact .inl ⟨hdata, hplace cluster index rfl⟩
  next hnone =>
    rw [hhead] at h
    exact firstOfNew_room hhealthy hdir (by omega) 1 (findFreeSlot_some hchain hnone).1 h

theorem findNFreeDirSlots_room (hcount : 1 ≤ count)
    (h : findNFreeDirSlots fuel vol (dir.headD 0) count = some (some (cluster, index), vol')) :
    RoomAt dir count vol vol' cluster index := by
  obtain ⟨marker, hchain⟩ := hdir.chain
  have hhead : dir.headD marker = dir.headD 0 := headD_eq hdir.ne_nil marker 0
  unfold findNFreeDirSlots at h
  split at h
  · obtain rfl : count = 1 := by omega
    exact findFreeDirSlot_room hhealthy hdir h
  rw [← hhead] at h
  split at h
  · cases h
  · cases h
  next hfound =>
    cases h
    obtain ⟨hdata, hplace⟩ := findRunOfSlots_some hchain hfound
    exact .inl ⟨hdata, hplace cluster index rfl⟩
  next vol₁ hnone =>
    rw [hhead] at h
    refine firstOfNew_room hhealthy hdir ?_ count (findRunOfSlots_some hchain hnone).1 h
    refine Nat.div_pos ?_ ?_
    · omega
    · have := vol₁.geometry.sectorsPerCluster_pos
      unfold Geometry.entriesPerCluster Geometry.bytesPerCluster
      omega

end Room

end Volume

end Bazzulto.Fat32
