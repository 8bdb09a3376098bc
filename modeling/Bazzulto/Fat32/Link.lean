/-
  Fat32/Link.lean --- what `link_child` does to the lookups in a directory.

  A new file gets long-name entries, which a scan passes, and one 8.3 entry.
  They replace a run of free slots, or lie in clusters appended to the
  directory.  A scan for another name that found its entry before finds it
  again, unless it meets the new 8.3 entry first and that entry matches
  (`linkChild_scan`).
-/
import Bazzulto.Fat32.Room

set_option autoImplicit false

namespace Bazzulto.Fat32

open Bazzulto.Foundation List Option LfnState

variable {short : RawEntry}

/-! ## The entries that are written -/

theorem padTo_length (width : Nat) (bytes : List UInt8) : (padTo width bytes).length = width := by
  unfold padTo
  simp
  omega

theorem nameToShort_length (name : Name) : (nameToShort name).1.length = 11 := by
  unfold nameToShort
  simp [padTo_length]

theorem shortAlias_length (name : Name) (n : Nat) : (shortAlias name n).length = 11 := by
  unfold shortAlias
  simp [padTo_length]

section ShortEntry

variable {short : List UInt8} (attr ntRes : UInt8) (first size : Nat)
  (hshort : short.length = 11)

include hshort

theorem shortEntry_getD (i : Nat) :
    (shortEntry short attr ntRes first size).getD (11 + i) 0 =
      ([attr, ntRes] ++ replicate 7 0 ++ leBytes 2 (first / 2 ^ 16) ++
        replicate 4 0 ++ leBytes 2 (first % 2 ^ 16) ++ leBytes 4 size).getD i 0 := by
  have hname : short.take 11 = short := take_of_length_le (by omega)
  unfold shortEntry
  rw [hname]
  simp only [append_assoc]
  rw [getD_append_right _ _ _ _ (by omega), hshort, Nat.add_sub_cancel_left]

theorem shortEntry_isLfn (hattr : (attr &&& attrLongNameMask == attrLongName) = false) :
    RawEntry.isLfn (shortEntry short attr ntRes first size) = false := by
  have hbyte := shortEntry_getD attr ntRes first size hshort 0
  unfold RawEntry.isLfn RawEntry.attr
  rw [hbyte]
  exact hattr

theorem shortEntry_cluster (hfirst : first < 2 ^ 32) :
    RawEntry.cluster (shortEntry short attr ntRes first size) = first := by
  have hbyte := shortEntry_getD attr ntRes first size hshort
  unfold RawEntry.cluster RawEntry.halfWord
  rw [hbyte 9, hbyte 10, hbyte 15, hbyte 16]
  simp [leBytes]
  omega

end ShortEntry

theorem lfnSegment_length (chars : List Nat) (num : Nat) : (lfnSegment chars num).length = 13 := by
  simp [lfnSegment]

section

variable (chars : List Nat) (checksum : UInt8) (count num : Nat)

/-- Thirteen characters of two bytes each, and six other bytes. -/
theorem lfnEntry_length : (lfnEntry chars checksum count num).length = 32 := by
  have hunits : ∀ n m, (((((lfnSegment chars num).map (leBytes 2)).drop n).take m).flatten).length =
      2 * min m (13 - n) := by
    intro n m
    rw [List.length_flatten, ← List.map_drop, ← List.map_take, List.map_map]
    have hall : ((((lfnSegment chars num).drop n).take m).map (length ∘ leBytes 2)) =
        replicate (min m (13 - n)) 2 := by
      rw [eq_replicate_iff]
      refine ⟨by simp [lfnSegment_length], fun b hb => ?_⟩
      obtain ⟨unit, _, rfl⟩ := mem_map.mp hb
      exact leBytes_length 2 unit
    rw [hall, sum_replicate_nat, Nat.mul_comm]
  have hfirst := hunits 0 5
  have hsecond := hunits 5 6
  have hthird := hunits 11 13
  rw [drop_zero] at hfirst
  rw [take_of_length_le (by simp [lfnSegment_length])] at hthird
  unfold lfnEntry
  simp only [length_append, length_cons, length_nil]
  omega

theorem lfnEntry_isLfn : RawEntry.isLfn (lfnEntry chars checksum count num) = true := by
  have hattr : RawEntry.attr (lfnEntry chars checksum count num) = attrLongName := by
    unfold RawEntry.attr lfnEntry lfnSegment
    simp [range_succ]
  unfold RawEntry.isLfn
  rw [hattr]
  decide

end

/-- The entries of one file: long-name entries, then the 8.3 entry, which names
the first cluster. -/
structure EntriesFor (firstCluster : Nat) (entries : List RawEntry) (short : RawEntry) : Prop where
  split : ∃ lfns, entries = lfns ++ [short] ∧ ∀ entry ∈ lfns, RawEntry.isLfn entry = true
  length : ∀ entry ∈ entries, entry.length = 32
  isLfn : RawEntry.isLfn short = false
  cluster : RawEntry.cluster short = firstCluster

/-! ## Scanning free slots and new entries -/

/-- The given entries in consecutive slots of a cluster. -/
def placed (cluster : Nat) : (index : Nat) → List RawEntry → List Slot
  | _, [] => []
  | index, entry :: rest => ⟨cluster, index, entry⟩ :: placed cluster (index + 1) rest

theorem scanSlot_lfn (component : Name) (slot : Slot) (lfn : LfnState)
    (h : RawEntry.isLfn slot.raw = true) :
    scanSlot component slot lfn = .ended ∨ ∃ lfn', scanSlot component slot lfn = .next lfn' := by
  unfold scanSlot
  split
  · exact .inl rfl
  split
  · exact .inr ⟨_, rfl⟩
  exact .inr ⟨_, rfl⟩

theorem scanSlot_short (component : Name) (slot : Slot) (lfn : LfnState)
    (h : RawEntry.isLfn slot.raw = false) :
    scanSlot component slot lfn = .ended ∨ scanSlot component slot lfn = .next clear ∨
      ∃ entry, scanSlot component slot lfn = .found entry ∧ entry.entry = slot.raw := by
  unfold scanSlot
  split
  · exact .inl rfl
  split
  · exact .inr (.inl rfl)
  rw [if_neg (by simp [h])]
  split
  · exact .inr (.inr ⟨_, rfl, rfl⟩)
  · exact .inr (.inl rfl)

/-- A scan that meets the entries of a file ends, goes on as behind any entry
that does not match, or finds the 8.3 entry. -/
theorem scanSlots_placed {firstCluster : Nat} {entries : List RawEntry}
    (h : EntriesFor firstCluster entries short) (component : Name) (cluster index : Nat)
    (lfn : LfnState) :
    scanSlots component (placed cluster index entries) lfn = .ended ∨
      scanSlots component (placed cluster index entries) lfn = .next clear ∨
      ∃ entry, scanSlots component (placed cluster index entries) lfn = .found entry ∧
        entry.entry = short := by
  obtain ⟨lfns, rfl, hlfns⟩ := h.split
  have hshort := h.isLfn
  clear h
  induction lfns generalizing index lfn with
  | nil =>
    rw [nil_append, placed, scanSlots]
    rcases scanSlot_short component ⟨cluster, index, short⟩ lfn hshort with
      hended | hnext | ⟨entry, hfound, hraw⟩
    · rw [hended]
      exact .inl rfl
    · rw [hnext]
      exact .inr (.inl rfl)
    · rw [hfound]
      exact .inr (.inr ⟨entry, rfl, hraw⟩)
  | cons first rest ih =>
    rw [cons_append, placed, scanSlots]
    rcases scanSlot_lfn component ⟨cluster, index, first⟩ lfn
      (hlfns first mem_cons_self) with hended | ⟨lfn', hnext⟩
    · rw [hended]
      exact .inl rfl
    · rw [hnext]
      exact ih (index + 1) lfn' fun entry hentry => hlfns entry (mem_cons_of_mem _ hentry)

/-- Replacing slots that a scan passes without effect. -/
theorem scanSlots_replace {component : Name} {before old new after : List Slot} {lfn : LfnState}
    {found found' : DirEntry}
    (hold : ∀ lfn, scanSlots component old lfn = .ended ∨
      scanSlots component old lfn = .next clear)
    (hnew : ∀ lfn, scanSlots component new lfn = .ended ∨
      scanSlots component new lfn = .next clear ∨
      ∃ entry, scanSlots component new lfn = .found entry ∧ entry.entry = short)
    (h : scanSlots component (before ++ (old ++ after)) lfn = .found found)
    (h' : scanSlots component (before ++ (new ++ after)) lfn = .found found') :
    found' = found ∨ found'.entry = short := by
  rw [scanSlots_append] at h h'
  cases hbefore : scanSlots component before lfn with
  | ended => rw [hbefore] at h; simp at h
  | found entry =>
    rw [hbefore] at h h'
    simp only [Scan.found.injEq] at h h'
    exact .inl (h' ▸ h ▸ rfl)
  | next lfn₁ =>
    rw [hbefore] at h h'
    dsimp only at h h'
    rw [scanSlots_append] at h h'
    rcases hold lfn₁ with hended | hclear
    · rw [hended] at h
      cases h
    rw [hclear] at h
    rcases hnew lfn₁ with hended' | hclear' | ⟨_, hfound, hraw⟩
    · rw [hended'] at h'
      cases h'
    · rw [hclear'] at h'
      rw [h] at h'
      exact .inl (Scan.found.inj h').symm
    · rw [hfound] at h'
      exact .inr (Scan.found.inj h' ▸ hraw)

namespace Volume

variable {vol vol' vol₁ : Volume} {cluster index count marker firstCluster fuel : Nat}
  {entries : List RawEntry} {rest dir old : List Nat} {name : Name} {file : FileInode}

/-! ## Slots of a cluster -/

/-- Consecutive slots of a cluster, on the disk. -/
def slotRange (vol : Volume) (cluster start len : Nat) : List Slot :=
  (range' start len).map fun i => ⟨cluster, i, vol.entryAt cluster i⟩

theorem diskSlots_eq (vol : Volume) (cluster : Nat) :
    vol.diskSlots cluster = vol.slotRange cluster 0 vol.geometry.entriesPerCluster := by
  unfold diskSlots clusterSlots slotRange
  rw [range_eq_range']
  refine map_congr_left fun i _ => ?_
  unfold entryAt
  rw [slice_congr fun k _ => by rw [Nat.add_assoc]]

theorem diskSlots_split (h : index + count ≤ vol.geometry.entriesPerCluster) :
    vol.diskSlots cluster = vol.slotRange cluster 0 index ++ (vol.slotRange cluster index count ++
        vol.slotRange cluster (index + count) (vol.geometry.entriesPerCluster - (index + count))) := by
  obtain ⟨rest, hrest⟩ := Nat.le.dest h
  rw [diskSlots_eq, ← hrest, Nat.add_sub_cancel_left]
  unfold slotRange
  rw [← map_append, ← map_append, range'_append_1, Nat.add_assoc]
  rw [show range' 0 (index + (count + rest)) =
    range' 0 index ++ range' (0 + index) (count + rest) from
    (range'_append_1).symm, Nat.zero_add]

theorem FreeRun.tail (h : vol.FreeRun cluster index (count + 1))
    (hused : vol.slotByte cluster index ≠ dirEntryFree) :
    vol.FreeRun cluster (index + 1) count := by
  refine ⟨by have := h.1; omega, fun i hi hbefore => ?_⟩
  have hslot := h.2 (i + 1) (by omega) fun j hj => ?_
  · rwa [show index + (i + 1) = index + 1 + i by omega] at hslot
  cases j with
  | zero => exact hused
  | succ j =>
    rw [show index + (j + 1) = index + 1 + j by omega]
    exact hbefore j (by omega)

/-- The first slot of a run: the scan ends, or the slot was used before. -/
theorem scanSlot_free (component : Name) (cluster index : Nat) (lfn : LfnState)
    (h : vol.FreeRun cluster index (count + 1)) :
    scanSlot component ⟨cluster, index, vol.entryAt cluster index⟩ lfn = .ended ∨
      scanSlot component ⟨cluster, index, vol.entryAt cluster index⟩ lfn = .next clear ∧
        vol.slotByte cluster index ≠ dirEntryFree := by
  have hfree := h.2 0 (by omega) fun j hj => absurd hj (Nat.not_lt_zero j)
  rw [Nat.add_zero, isFreeByte, Bool.or_eq_true, beq_iff_eq, beq_iff_eq] at hfree
  unfold scanSlot
  rw [show RawEntry.firstByte (vol.entryAt cluster index) = vol.slotByte cluster index from
    getD_slice (by omega)]
  by_cases hnever : vol.slotByte cluster index = dirEntryFree
  · exact .inl (if_pos hnever)
  · rw [if_neg hnever, if_pos (hfree.resolve_left hnever)]
    exact .inr ⟨rfl, hnever⟩

/-- A scan passes a run of free slots, or ends in it. -/
theorem scanSlots_freeRun (component : Name) (count : Nat) :
    ∀ (index : Nat) (lfn : LfnState), vol.FreeRun cluster index (count + 1) →
      scanSlots component (vol.slotRange cluster index (count + 1)) lfn = .ended ∨
        scanSlots component (vol.slotRange cluster index (count + 1)) lfn =
          .next clear := by
  induction count with
  | zero =>
    intro index lfn h
    rcases scanSlot_free component cluster index lfn h with hended | ⟨hclear, _⟩
    · exact .inl (by simp [slotRange, scanSlots, hended])
    · exact .inr (by simp [slotRange, scanSlots, hclear])
  | succ count ih =>
    intro index lfn h
    have hcons : vol.slotRange cluster index (count + 1 + 1) =
        ⟨cluster, index, vol.entryAt cluster index⟩ ::
          vol.slotRange cluster (index + 1) (count + 1) := by
      unfold slotRange
      rw [range'_succ, map_cons]
    rw [hcons, scanSlots]
    rcases scanSlot_free component cluster index lfn h with hended | ⟨hclear, hused⟩
    · rw [hended]
      exact .inl rfl
    · rw [hclear]
      exact ih (index + 1) clear (h.tail hused)

/-! ## Writing the entries -/

/-- Entries that fit behind `index` in a cluster end up there. -/
theorem putEntries_within (hdata : 2 ≤ cluster) :
    ∀ (entries : List RawEntry) (vol : Volume) (index : Nat), entries ≠ [] →
      (∀ entry ∈ entries, entry.length = 32) → vol.ClusterResponds cluster →
      index + entries.length ≤ vol.geometry.entriesPerCluster →
      DataOnly (· = cluster) vol (putEntries entries vol cluster index).2 ∧
        (putEntries entries vol cluster index).2.disk.bytes =
          overlay vol.disk.bytes (vol.geometry.clusterAddress cluster)
            vol.geometry.bytesPerCluster (splice vol.clusterBuf (index * 32) entries.flatten) := by
  intro entries
  induction entries with
  | nil => intro vol index hne; exact absurd rfl hne
  | cons entry rest ih =>
    intro vol index _ hlength hresp hfits
    have hentry := hlength entry mem_cons_self
    rw [length_cons] at hfits
    have hbuf := dataOnly_clusterBuf vol (splice vol.clusterBuf (index * 32) entry)
    rw [putEntries, advanceSlot, if_pos (by omega)]
    dsimp only
    split
    next hrest =>
      subst hrest
      have hwrite := hbuf.weaken.trans (writeCluster_dataOnly
        { vol with clusterBuf := splice vol.clusterBuf (index * 32) entry } cluster)
      rw [writeCluster_edited hdata hresp] at hwrite ⊢
      refine ⟨hwrite, ?_⟩
      simp
    next hrest =>
      obtain ⟨hdata', hbytes⟩ := ih
        { vol with clusterBuf := splice vol.clusterBuf (index * 32) entry } (index + 1) hrest
        (fun e he => hlength e (mem_cons_of_mem _ he)) hresp
        (show index + 1 + rest.length ≤ vol.geometry.entriesPerCluster by omega)
      refine ⟨hbuf.weaken.trans hdata', ?_⟩
      have hplace : (index + 1) * 32 = index * 32 + entry.length := by omega
      rw [hbytes, flatten_cons, ← splice_append, hplace]

theorem flatten_length (h : ∀ entry ∈ entries, entry.length = 32) :
    entries.flatten.length = entries.length * 32 := by
  have hall : entries.map length = replicate entries.length 32 := by
    rw [eq_replicate_iff]
    refine ⟨length_map _, fun b hb => ?_⟩
    obtain ⟨entry, hentry, rfl⟩ := mem_map.mp hb
    exact h entry hentry
  rw [List.length_flatten, hall, sum_replicate_nat]

/-- Writing entries into a run of one cluster. -/
theorem writeEntries_within (hdata : 2 ≤ cluster) (hresp : vol.ClusterResponds cluster)
    (hne : entries ≠ []) (hlength : ∀ entry ∈ entries, entry.length = 32)
    (hfits : index + entries.length ≤ vol.geometry.entriesPerCluster) :
    DataOnly (· = cluster) vol (vol.writeEntries cluster index entries).2 ∧
      (vol.writeEntries cluster index entries).2.disk.bytes =
        splice vol.disk.bytes (vol.geometry.clusterAddress cluster + index * 32)
          entries.flatten := by
  have hread := readCluster_dataOnly vol cluster
  unfold writeEntries
  rw [readCluster_of_responds hdata hresp] at hread ⊢
  obtain ⟨hput, hbytes⟩ := putEntries_within hdata entries _ index hne hlength
    (hread.clusterResponds hresp) hfits
  refine ⟨hread.weaken.trans hput, ?_⟩
  have hflat := flatten_length hlength
  have hroom : index * 32 + entries.flatten.length ≤ vol.geometry.bytesPerCluster := by
    unfold Geometry.entriesPerCluster at hfits
    omega
  rw [hbytes]
  dsimp only
  rw [overlay_splice hroom, overlay_cluster]

theorem advanceSlot_dataOnly (h : vol.Chain (cluster :: rest) marker) (index : Nat) :
    DataOnly (· ∈ cluster :: rest) vol (advanceSlot vol cluster index).2 ∧
      ∀ place, (advanceSlot vol cluster index).1 = some place →
        place.1 = cluster ∨ ∃ tail, rest = place.1 :: tail := by
  unfold advanceSlot
  split
  · exact ⟨DataOnly.refl _ vol, fun place hplace => .inl (some.inj hplace ▸ rfl)⟩
  have hwrite := writeCluster_dataOnly vol cluster
  have hmono : ∀ c, c = cluster → c ∈ cluster :: rest := fun c hc => by simp [hc]
  split
  next hfailed =>
    rw [hfailed] at hwrite
    exact ⟨hwrite.mono hmono, by simp⟩
  next vol₁ hok =>
    rw [hok] at hwrite
    have hkeep := (hwrite.mono hmono).trans (readFatEntry_dataOnly vol₁ cluster).weaken
    rw [(hwrite.chain h).readFatEntry_head]
    dsimp only
    split
    · exact ⟨hkeep, by simp⟩
    next hmarker =>
      have hload := hkeep.trans (readCluster_dataOnly _ (rest.headD marker)).weaken
      split
      next hfailed =>
        rw [hfailed] at hload
        exact ⟨hload, by simp⟩
      next hloaded =>
        rw [hloaded] at hload
        refine ⟨hload, fun place hplace => .inr ?_⟩
        rw [← some.inj hplace]
        cases rest with
        | nil =>
          rw [headD_nil, h.isEof_marker] at hmarker
          simp at hmarker
        | cons second tail => exact ⟨tail, rfl⟩

/-- Writing entries from a cluster of a chain on touches no cluster before it. -/
theorem putEntries_dataOnly :
    ∀ (entries : List RawEntry) (vol : Volume) (cluster index : Nat) (rest : List Nat),
      vol.Chain (cluster :: rest) marker →
      DataOnly (· ∈ cluster :: rest) vol (putEntries entries vol cluster index).2 := by
  intro entries
  induction entries with
  | nil => intro vol cluster index rest _; exact DataOnly.refl _ vol
  | cons entry tail ih =>
    intro _ cluster index rest h
    rw [putEntries]
    obtain ⟨hadvance, hplace⟩ := advanceSlot_dataOnly h index
    split
    next hnone =>
      rw [hnone] at hadvance
      exact hadvance
    next cluster₁ index₁ vol₁ hsome =>
      rw [hsome] at hadvance hplace
      -- The slots go on in this cluster or in the next one of the chain.
      obtain ⟨rest₁, hchain₁, hsub⟩ : ∃ rest₁, vol₁.Chain (cluster₁ :: rest₁) marker ∧
          ∀ c, c ∈ cluster₁ :: rest₁ → c ∈ cluster :: rest := by
        rcases hplace (cluster₁, index₁) rfl with hsame | ⟨tail₁, htail⟩
        · obtain rfl : cluster₁ = cluster := hsame
          exact ⟨rest, hadvance.chain h, fun c hc => hc⟩
        · have hrest : rest = cluster₁ :: tail₁ := htail
          subst hrest
          exact ⟨tail₁, (hadvance.chain h).tail, fun c hc => mem_cons_of_mem _ hc⟩
      have hbuf := hadvance.trans ((dataOnly_clusterBuf vol₁
        (splice vol₁.clusterBuf (index₁ * 32) entry)).weaken)
      have hchain₂ := (dataOnly_clusterBuf vol₁
        (splice vol₁.clusterBuf (index₁ * 32) entry)).chain hchain₁
      dsimp only
      split
      · have hwrite := hbuf.trans ((writeCluster_dataOnly
          { vol₁ with clusterBuf := splice vol₁.clusterBuf (index₁ * 32) entry }
          cluster₁).mono fun c hc => hsub c (by simp [hc]))
        split
        next hfailed => rwa [hfailed] at hwrite
        next hok => rwa [hok] at hwrite
      · exact hbuf.trans ((ih _ cluster₁ (index₁ + 1) rest₁ hchain₂).mono hsub)

/-! ## Slots after entries were written -/

theorem placed_eq (cluster : Nat) (entries : List RawEntry) (index : Nat) :
    placed cluster index entries = (range' index entries.length).map fun i =>
      ⟨cluster, i, entries.getD (i - index) []⟩ := by
  induction entries generalizing index with
  | nil => rfl
  | cons entry rest ih =>
    rw [placed, ih]
    refine congrArg₂ cons (by simp) (map_congr_left fun i hi => ?_)
    have hlow := (mem_range'_1.mp hi).1
    rw [show i - index = i - (index + 1) + 1 by omega, getD_cons_succ]

section Written

variable (hgeometry : vol'.geometry = vol.geometry)
  (hbytes : vol'.disk.bytes = splice vol.disk.bytes
    (vol.geometry.clusterAddress cluster + index * 32) entries.flatten)
  (hlength : ∀ entry ∈ entries, entry.length = 32)

include hgeometry hbytes hlength

theorem slotRange_written :
    vol'.slotRange cluster index entries.length = placed cluster index entries := by
  rw [placed_eq]
  refine map_congr_left fun i hi => ?_
  obtain ⟨hlow, _⟩ := mem_range'_1.mp hi
  obtain ⟨_, rfl⟩ := Nat.le.dest hlow
  rw [Nat.add_sub_cancel_left, ← slice_splice_flatten vol.disk.bytes
    (vol.geometry.clusterAddress cluster + index * 32) hlength (by omega), entryAt, hgeometry,
    hbytes]
  congr 2
  ring

theorem slotRange_unwritten {start len : Nat}
    (h : start + len ≤ index ∨ index + entries.length ≤ start) :
    vol'.slotRange cluster start len = vol.slotRange cluster start len := by
  have hflat : entries.flatten.length = entries.length * 32 := flatten_length hlength
  refine map_congr_left fun i hi => ?_
  obtain ⟨_, _⟩ := mem_range'_1.mp hi
  unfold entryAt
  rw [hgeometry, hbytes, slice_splice_of_disjoint (by omega)]

end Written

theorem dirSlots_split (vol : Volume) (before : List Nat) (cluster : Nat) (after : List Nat) :
    vol.dirSlots (before ++ cluster :: after) =
      vol.dirSlots before ++ (vol.diskSlots cluster ++ vol.dirSlots after) := by
  simp [dirSlots]

/-! ## Placing the entries of a file -/

theorem aliasFrom_some {dirCluster : Nat} {short : List UInt8} :
    ∀ (remaining n : Nat) (vol : Volume),
      aliasFrom fuel dirCluster name remaining n vol = some (some short, vol') →
      short.length = 11 ∧ DataOnly (fun _ => False) vol vol' := by
  intro remaining
  induction remaining with
  | zero => intro n vol h; simp [aliasFrom] at h
  | succ remaining ih =>
    intro n _ h
    rw [aliasFrom] at h
    split at h
    · cases h
    next hlookup =>
      cases h
      exact ⟨shortAlias_length name n, lookupInDir_dataOnly hlookup⟩
    next vol₁ hlookup =>
      obtain ⟨hlength, hdata⟩ := ih (n + 1) vol₁ h
      exact ⟨hlength, (lookupInDir_dataOnly hlookup).trans hdata⟩

theorem RoomAt.of_dataOnly (hdata : DataOnly (fun _ => False) vol vol₁)
    (h : RoomAt dir count vol₁ vol' cluster index) : RoomAt dir count vol vol' cluster index := by
  rcases h with ⟨hdata', hmem, hrun⟩ | ⟨hzero, news, hne, hcluster, hextended⟩
  · exact .inl ⟨hdata.trans hdata', hmem, hrun.of_disk hdata.geometry hdata.disk_eq⟩
  · exact .inr ⟨hzero, news, hne, hcluster, hextended.of_dataOnly hdata⟩

/-- The 8.3 entry of a regular file, behind long-name entries. -/
theorem entriesFor_regular {short : List UInt8} (lfns : List RawEntry) (file : FileInode)
    (ntRes : UInt8) (hshort : short.length = 11) (hfirst : file.firstCluster < 2 ^ 32)
    (hlfns : ∀ entry ∈ lfns, entry.length = 32 ∧ RawEntry.isLfn entry = true) :
    EntriesFor file.firstCluster
      (lfns ++ [shortEntry short attrArchive ntRes file.firstCluster file.fileSize])
      (shortEntry short attrArchive ntRes file.firstCluster file.fileSize) where
  split := ⟨lfns, rfl, fun entry hentry => (hlfns entry hentry).2⟩
  length := fun entry hentry => by
    rw [mem_append, mem_singleton] at hentry
    rcases hentry with hmem | rfl
    · exact (hlfns entry hmem).1
    · simp [shortEntry, hshort]
  isLfn := shortEntry_isLfn _ _ _ _ hshort (by decide)
  cluster := shortEntry_cluster _ _ _ _ hshort hfirst

theorem placeEntries_ok (hhealthy : vol.Healthy) (hdir : vol.IsDirectory dir)
    (hfirst : file.firstCluster < 2 ^ 32)
    (h : Inode.placeEntries fuel vol (dir.headD 0) name (.regular file) =
      some (.ok (entries, cluster, index), vol')) :
    ∃ short count, EntriesFor file.firstCluster entries short ∧ entries.length ≤ count ∧
      RoomAt dir count vol vol' cluster index := by
  unfold Inode.placeEntries at h
  split at h
  · split at h
    · cases h
    · cases h
    next vol₁ halias =>
      obtain ⟨hlength, hdata⟩ := aliasFrom_some 9999 1 vol halias
      split at h
      · cases h
      · cases h
      next hslots =>
        cases h
        have hroom := findNFreeDirSlots_room (hhealthy.of_dataOnly hdata) (hdir.of_dataOnly hdata)
          (by omega) hslots
        refine ⟨_, _, entriesFor_regular _ file 0 hlength hfirst fun entry hentry => ?_, ?_,
          hroom.of_dataOnly hdata⟩
        · obtain ⟨_, _, rfl⟩ := mem_map.mp hentry
          exact ⟨lfnEntry_length _ _ _ _, lfnEntry_isLfn _ _ _ _⟩
        have hmod := Nat.mod_le (lfnEntryCount name) 256
        simp [lfnEntries, hmod]
  · split at h
    next ntRes hshort =>
      have hlength := nameToShort_length name
      rw [hshort] at hlength
      split at h
      · cases h
      · cases h
      next hslot =>
        cases h
        have hroom := findFreeDirSlot_room hhealthy hdir hslot
        exact ⟨_, 1, entriesFor_regular [] file ntRes hlength hfirst (by simp), Nat.le_refl 1,
          hroom⟩

theorem writeEntries_dataOnly (h : vol.Chain (cluster :: rest) marker) (index : Nat)
    (entries : List RawEntry) :
    DataOnly (· ∈ cluster :: rest) vol (vol.writeEntries cluster index entries).2 := by
  have hread := readCluster_dataOnly vol cluster
  have hmono : DataOnly (· ∈ cluster :: rest) vol (vol.readCluster cluster).2 :=
    hread.weaken
  unfold writeEntries
  split
  next hfailed => rwa [hfailed] at hmono
  next vol₁ hok =>
    rw [hok] at hread hmono
    exact hmono.trans (putEntries_dataOnly entries vol₁ cluster index rest (hread.chain h))

/-! ## Lookups after `link_child` -/

/-- From `vol` to `vol'`, the directory `old` has become `old'`: a scan finds
what it found before, or an entry that names the cluster. -/
structure ScansAlike (firstCluster : Nat) (vol vol' : Volume) (old old' : List Nat) : Prop where
  geometry : vol'.geometry = vol.geometry
  chain : ∃ marker, vol'.Chain old' marker
  ne_nil : old' ≠ []
  head : old'.headD 0 = old.headD 0
  scans : ∀ component found found',
    scanSlots component (vol.dirSlots old) clear = .found found →
    scanSlots component (vol'.dirSlots old') clear = .found found' →
    found' = found ∨ RawEntry.cluster found'.entry = firstCluster

theorem scansAlike_of_kept (hgeometry : vol'.geometry = vol.geometry)
    (hchain : vol'.Chain old marker) (hne : old ≠ [])
    (hslots : vol'.dirSlots old = vol.dirSlots old) : ScansAlike firstCluster vol vol' old old := by
  refine ⟨hgeometry, ⟨marker, hchain⟩, hne, rfl, fun component found found' h h' => .inl ?_⟩
  rw [hslots, h] at h'
  exact (Scan.found.inj h').symm

section

variable (hcluster : cluster ∈ dir) (hrun : vol.FreeRun cluster index count)
  (hentries : EntriesFor firstCluster entries short) (hcount : entries.length ≤ count)
  (hdata : DataOnly (· = cluster) vol vol')
  (hbytes : vol'.disk.bytes = splice vol.disk.bytes
    (vol.geometry.clusterAddress cluster + index * 32) entries.flatten)
include hcluster hrun hentries hcount hdata hbytes

/-- A directory in which entries replaced a run of free slots: what a scan finds
afterwards it found before, or it is the new 8.3 entry. -/
theorem scan_after_write {component : Name} {lfn : LfnState} {found found' : DirEntry}
    (hchain : vol.Chain dir marker)
    (h : scanSlots component (vol.dirSlots dir) lfn = .found found)
    (h' : scanSlots component (vol'.dirSlots dir) lfn = .found found') :
    found' = found ∨ found'.entry = short := by
  obtain ⟨before, after, rfl⟩ := append_of_mem hcluster
  obtain ⟨_, hsplit, -⟩ := hentries.split
  have hne : 0 < entries.length := by simp [hsplit]
  have hfits : index + entries.length ≤ vol.geometry.entriesPerCluster := by
    have := hrun.1
    omega
  have hrun' : vol.FreeRun cluster index (entries.length - 1 + 1) := by
    rw [Nat.sub_add_cancel hne]
    exact ⟨hfits, fun i hi => hrun.2 i (by omega)⟩
  have hothers : ∀ others : List Nat, (∀ d ∈ others, vol.geometry.Valid d ∧ d ≠ cluster) →
      vol'.dirSlots others = vol.dirSlots others := by
    intro _ hapart
    refine dirSlots_congr hdata.geometry fun d hd r hr => ?_
    exact hdata.clusterByte (hapart d hd).1.1 hr fun t ht => by
      have hvalid := hchain.valid cluster hcluster
      exact ⟨ht ▸ hvalid.1, fun heq => (hapart d hd).2 (heq ▸ ht)⟩
  have hnodup := nodup_append.mp hchain.nodup
  have hbefore := hothers before fun d hd =>
    ⟨hchain.valid d (by simp [hd]), hnodup.2.2 d hd cluster (by simp)⟩
  have hafter := hothers after fun d hd =>
    ⟨hchain.valid d (by simp [hd]), fun heq =>
      (nodup_cons.mp hnodup.2.1).1 (heq ▸ hd)⟩
  have hdisk : vol'.diskSlots cluster = vol.slotRange cluster 0 index ++
      (placed cluster index entries ++ vol.slotRange cluster (index + entries.length)
        (vol.geometry.entriesPerCluster - (index + entries.length))) := by
    rw [diskSlots_split (by rw [hdata.geometry]; exact hfits),
      slotRange_written hdata.geometry hbytes hentries.length,
      slotRange_unwritten hdata.geometry hbytes hentries.length (by omega),
      slotRange_unwritten hdata.geometry hbytes hentries.length (by omega), hdata.geometry]
  rw [dirSlots_split, diskSlots_split hfits] at h
  rw [dirSlots_split, hbefore, hafter, hdisk] at h'
  simp only [append_assoc] at h h'
  rw [← append_assoc] at h h'
  refine scanSlots_replace (fun lfn => ?_)
    (fun lfn => scanSlots_placed hentries component cluster index lfn) h h'
  have hfree := scanSlots_freeRun component (entries.length - 1) index lfn hrun'
  rwa [Nat.sub_add_cancel hne] at hfree

/-- The entries went into a run of free slots. -/
theorem scansAlike_of_run (hold : vol.IsDirectory old) (hapart : old = dir ∨ ∀ d ∈ old, d ∉ dir)
    (hdir : vol.IsDirectory dir) : ScansAlike firstCluster vol vol' old old := by
  obtain ⟨marker, hchain⟩ := hold.chain
  obtain ⟨_, hchain'⟩ := hdir.chain
  rcases hapart with rfl | hapart
  · refine ⟨hdata.geometry, ⟨marker, hdata.chain hchain⟩, hold.ne_nil, rfl,
      fun component found found' h h' => ?_⟩
    refine (scan_after_write hcluster hrun hentries hcount hdata hbytes hchain h h').imp id ?_
    intro hraw
    rw [hraw]
    exact hentries.cluster
  · refine scansAlike_of_kept hdata.geometry (hdata.chain hchain) hold.ne_nil
      (dirSlots_congr hdata.geometry fun d hd r hr => ?_)
    exact hdata.clusterByte (hchain.valid d hd).1 hr fun t ht =>
      ⟨ht ▸ (hchain'.valid cluster hcluster).1, fun heq =>
        hapart d hd (by rw [← heq, show t = cluster from ht]; exact hcluster)⟩

end

section

variable (hold : vol.IsDirectory old) (hapart : old = dir ∨ ∀ d ∈ old, d ∉ dir)
include hold hapart

/-- The entries went into clusters that were appended. -/
theorem scansAlike_of_extended {news : List Nat} (hextended : Extended dir news vol vol₁)
    (hdata : DataOnly (· ∈ news) vol₁ vol') :
    ∃ old', ScansAlike firstCluster vol vol' old old' := by
  obtain ⟨marker, hchain⟩ := hold.chain
  have hgeometry := hdata.geometry.trans hextended.geometry
  have hslots : vol'.dirSlots old = vol.dirSlots old := by
    refine dirSlots_congr hgeometry fun d hd r hr => ?_
    have hvalid := hchain.valid d hd
    have hlater := hdata.clusterByte hvalid.1 (by rw [hextended.geometry]; exact hr) fun t ht =>
      ⟨(hextended.fresh t ht).1.1, fun heq =>
        (hextended.fresh t ht).2 (heq ▸ hold.used d hd)⟩
    rw [hextended.geometry] at hlater
    rw [hlater, hextended.bytes d hvalid (hold.used d hd) r hr]
  rcases hapart with rfl | hapart
  · obtain ⟨marker', hchain'⟩ := hextended.chain
    refine ⟨old ++ news, hgeometry, ⟨marker', hdata.chain hchain'⟩, by simp [hold.ne_nil], ?_,
      fun component found found' h h' => .inl ?_⟩
    · cases old with
      | nil => exact absurd rfl hold.ne_nil
      | cons d rest => rfl
    · rw [show vol'.dirSlots (old ++ news) = vol'.dirSlots old ++ vol'.dirSlots news by
        simp [dirSlots], scanSlots_append, hslots, h] at h'
      exact (Scan.found.inj h').symm
  · have hchain₁ : vol₁.Chain old marker := hchain.of_entries hextended.geometry fun c hc v hentry =>
      hextended.entries c v (hchain.valid c hc) (hold.used c hc) (hapart c hc) hentry
    exact ⟨old, scansAlike_of_kept hgeometry (hdata.chain hchain₁) hold.ne_nil hslots⟩

/-- Linking a file into a directory.  A scan of this or of another directory
finds what it found before, or an entry with the file's first cluster. -/
theorem linkChild_scan (hhealthy : vol.Healthy) (hdir : vol.IsDirectory dir)
    (hfirst : file.firstCluster < 2 ^ 32)
    (h : Inode.linkChild fuel vol (.directory (dir.headD 0)) name (.regular file) =
      some (.ok (), vol')) : ∃ old', ScansAlike file.firstCluster vol vol' old old' := by
  rw [Inode.linkChild] at h
  split at h
  · cases h
  split at h
  · cases h
  · cases h
  next hlookup =>
    have hdata₁ := lookupInDir_dataOnly hlookup
    split at h
    · cases h
    · cases h
    next entries cluster index vol₂ hplace =>
      obtain ⟨_, count, hentries, hcount, hroom⟩ :=
        placeEntries_ok (hhealthy.of_dataOnly hdata₁) (hdir.of_dataOnly hdata₁) hfirst hplace
      have hroom' := hroom.of_dataOnly hdata₁
      have hvol' : vol' = (vol₂.writeEntries cluster index entries).2 := by
        split at h
        · cases h
        next hwritten =>
          simp only [some.injEq, Prod.mk.injEq] at h
          rw [hwritten, h.2]
      subst hvol'
      rcases hroom' with ⟨hdata₂, hcluster, hrun⟩ | ⟨rfl, news, hne, rfl, hextended⟩
      · have hdir₂ := hdir.of_dataOnly hdata₂
        obtain ⟨marker₂, hchain₂⟩ := hdir₂.chain
        have hvalid := hchain₂.valid cluster hcluster
        have hrun₂ : vol₂.FreeRun cluster index count :=
          hrun.of_disk hdata₂.geometry.symm hdata₂.disk_eq.symm
        have hentriesNe : entries ≠ [] := by
          obtain ⟨_, hsplit, -⟩ := hentries.split
          simp [hsplit]
        have hfits : index + entries.length ≤ vol₂.geometry.entriesPerCluster := by
          have := hrun₂.1
          omega
        obtain ⟨hwrite, hbytes⟩ := writeEntries_within hvalid.1
          ((hhealthy.of_dataOnly hdata₂).dataResponds cluster hvalid) hentriesNe hentries.length
          hfits
        have halike := scansAlike_of_run hcluster hrun₂ hentries hcount hwrite hbytes
          (hold.of_dataOnly hdata₂) hapart hdir₂
        have hscans := halike.scans
        rw [hdata₂.dirSlots_eq old] at hscans
        exact ⟨old, halike.geometry.trans hdata₂.geometry, halike.chain, halike.ne_nil, rfl, hscans⟩
      · obtain ⟨_, hchain₂⟩ := hextended.chain
        cases news with
        | nil => exact absurd rfl hne
        | cons first rest =>
          exact scansAlike_of_extended hold hapart hextended
            (writeEntries_dataOnly hchain₂.suffix 0 entries)

end

end Volume

end Bazzulto.Fat32
