/-
  Fat32/Listing.lean --- what `list_dir` reports and what `lookup_in_dir` finds.

  Both walk a directory in the same steps and put long names together in the same way.
  `list_dir` leaves out volume labels and the dot entries; `lookup_in_dir` compares their
  names like all others.
-/
import Bazzulto.Fat32.EntryUpdate

set_option autoImplicit false

namespace Bazzulto.Fat32

open List Option LfnState RawEntry

/-! ## Listing -/

/-- The name an 8.3 entry goes by. -/
def entryName (raw : RawEntry) (lfn : LfnState) : Name :=
  if lfn.buf = [] then shortNameToStr (raw.take 11) (ntRes raw) else lfn.buf

/-- The entry is neither a volume label nor `.` or `..`. -/
def shown (raw : RawEntry) : Bool :=
  !(attr raw == 0x08 ||
    (firstByte raw == dot && ((raw.drop 1).take 10).all fun b => b == space || b == dot))

/-- The slot loop of `list_dir`, for the entries that are kept: their names and slots, and the
long-name state behind the last slot unless the end of the directory was met. -/
def listSlots (kept : RawEntry → Bool) : List Slot → LfnState →
    List (Name × Slot) × Option LfnState
  | [], lfn => ([], some lfn)
  | slot :: rest, lfn =>
    if firstByte slot.raw = dirEntryFree then ([], none)
    else if firstByte slot.raw = dirEntryDeleted then listSlots kept rest clear
    else if isLfn slot.raw then listSlots kept rest (passLfn slot lfn)
    else
      let (entries, last) := listSlots kept rest clear
      (if kept slot.raw then (entryName slot.raw lfn, slot) :: entries else entries, last)

namespace Volume

/-- The loop of `list_dir` over the clusters. -/
def listClusters (kept : RawEntry → Bool) : (fuel : Nat) → (vol : Volume) → (cluster : Nat) →
    LfnState → Option (List (Name × Slot) × Volume)
  | 0, _, _, _ => none
  | fuel + 1, vol, cluster, lfn =>
    if isEof cluster || isBad cluster then some ([], vol)
    else
      match vol.readCluster cluster with
      | (false, vol) => some ([], vol)
      | (true, vol) =>
        match listSlots kept (clusterSlots vol.geometry cluster vol.clusterBuf) lfn with
        | (entries, none) => some (entries, vol)
        | (entries, some lfn) =>
          match vol.readFatEntry cluster with
          | (none, vol) => some (entries, vol)
          | (some next, vol) =>
            (listClusters kept fuel vol next lfn).map fun (more, vol) => (entries ++ more, vol)

/-- `list_dir`.  The directory flag, the size and the first cluster that it reports with a name
are those of the entry in the slot. -/
def listDir (fuel : Nat) (vol : Volume) (dirCluster : Nat) : Option (List (Name × Slot) × Volume) :=
  listClusters shown fuel vol dirCluster clear

/-- All 8.3 entries of a directory, with the names they go by. -/
def dirEntries (fuel : Nat) (vol : Volume) (dirCluster : Nat) :
    Option (List (Name × Slot) × Volume) :=
  listClusters (fun _ => true) fuel vol dirCluster clear

end Volume

/-- The entry goes by the name, ignoring case. -/
def goesBy (component : Name) (entry : Name × Slot) : Bool :=
  namesMatchCaseInsensitive entry.1 component

/-- The slot of an entry that was found. -/
def DirEntry.slot (found : DirEntry) : Slot := ⟨found.cluster, found.entryIndex, found.entry⟩

variable {lfn : LfnState} {kept : RawEntry → Bool}

/-! ## One cluster -/

theorem listSlots_filter (slots : List Slot) (lfn : LfnState) :
    listSlots kept slots lfn =
      ((listSlots (fun _ => true) slots lfn).1.filter (fun entry => kept entry.2.raw),
        (listSlots (fun _ => true) slots lfn).2) := by
  induction slots generalizing lfn with
  | nil => rfl
  | cons slot rest ih =>
    simp only [listSlots]
    split
    · rfl
    split
    · exact ih _
    split
    · exact ih _
    · rw [ih]
      simp [filter_cons]

/-- A lookup goes through the entries of a cluster in the order of the listing. -/
theorem scanSlots_listed (component : Name) (slots : List Slot) (lfn : LfnState) :
    (∀ entry, (listSlots (fun _ => true) slots lfn).1.find? (goesBy component) = some entry →
      ∃ found, scanSlots component slots lfn = .found found ∧ found.slot = entry.2) ∧
    ((listSlots (fun _ => true) slots lfn).1.find? (goesBy component) = none →
      scanSlots component slots lfn =
        (listSlots (fun _ => true) slots lfn).2.elim .ended .next) := by
  induction slots generalizing lfn with
  | nil => simp [listSlots, scanSlots]
  | cons slot rest ih =>
    have hmatch : slotMatches component slot.raw lfn =
        goesBy component (entryName slot.raw lfn, slot) := by
      unfold slotMatches goesBy entryName
      split <;> rfl
    simp only [listSlots, scanSlots, scanSlot, hmatch]
    split
    · simp
    split
    · exact ih _
    split
    · exact ih _
    · cases hgoes : goesBy component (entryName slot.raw lfn, slot) with
      | true => simp [hgoes, DirEntry.slot]
      | false => simpa [hgoes] using ih clear

namespace Volume

variable {fuel cluster dirCluster : Nat} {vol vol' : Volume} {entries : List (Name × Slot)}

/-! ## All clusters -/

theorem listClusters_filter (fuel : Nat) (vol : Volume) (cluster : Nat) (lfn : LfnState) :
    listClusters kept fuel vol cluster lfn =
      (listClusters (fun _ => true) fuel vol cluster lfn).map fun (entries, vol) =>
        (entries.filter (fun entry => kept entry.2.raw), vol) := by
  induction fuel generalizing vol cluster lfn with
  | zero => rfl
  | succ fuel ih =>
    simp only [listClusters]
    split
    · rfl
    split
    · rfl
    · rw [listSlots_filter]
      cases listSlots (fun _ => true) _ lfn with
      | mk entries last =>
        cases last with
        | none => rfl
        | some lfn =>
          dsimp only
          split
          · rfl
          · rw [ih]
            simp [Function.comp_def]

/-- A lookup finds the first entry that goes by the name. -/
theorem lookupInDir_listed (component : Name)
    (h : listClusters (fun _ => true) fuel vol cluster lfn = some (entries, vol')) :
    ∃ found vol₁, lookupInDir component fuel vol cluster lfn = some (found, vol₁) ∧
      found.map DirEntry.slot = (entries.find? (goesBy component)).map (·.2) := by
  induction fuel generalizing vol cluster lfn entries vol' with
  | zero => cases h
  | succ fuel ih =>
    rw [lookupInDir]
    rw [listClusters] at h
    split at h
    next hend =>
      cases h
      exact ⟨none, vol, if_pos hend, rfl⟩
    next hend =>
      rw [if_neg hend]
      rcases hread : vol.readCluster cluster with ⟨responds, vol₁⟩
      rw [hread] at h
      cases responds with
      | false =>
        cases h
        exact ⟨none, _, rfl, rfl⟩
      | true =>
        obtain ⟨hhit, hmiss⟩ := scanSlots_listed component
          (clusterSlots vol₁.geometry cluster vol₁.clusterBuf) lfn
        dsimp only at h ⊢
        generalize listSlots (fun _ => true) _ lfn = listed at h hhit hmiss
        obtain ⟨items, last⟩ := listed
        rcases hnext : vol₁.readFatEntry cluster with ⟨next, vol₂⟩
        rw [hnext] at h
        cases hfind : items.find? (goesBy component) with
        | some entry =>
          -- the walk of `list_dir` goes on, but only behind the entries of this cluster
          obtain ⟨more, rfl⟩ : ∃ more, entries = items ++ more := by
            rcases last with _ | lfn'
            · cases h
              exact ⟨[], (append_nil _).symm⟩
            rcases next with _ | next
            · cases h
              exact ⟨[], (append_nil _).symm⟩
            obtain ⟨⟨more, _⟩, _, heq⟩ := map_eq_some_iff.mp h
            cases heq
            exact ⟨more, rfl⟩
          obtain ⟨found, hscan, hslot⟩ := hhit entry hfind
          exact ⟨some found, vol₁, by rw [hscan], by simp [hfind, hslot]⟩
        | none =>
          rw [hmiss hfind]
          rcases last with _ | lfn'
          · cases h
            exact ⟨none, _, rfl, by rw [hfind]; rfl⟩
          rcases next with _ | next
          · cases h
            exact ⟨none, _, rfl, by rw [hfind]; rfl⟩
          obtain ⟨⟨more, _⟩, hmore, heq⟩ := map_eq_some_iff.mp h
          cases heq
          rw [find?_append, hfind]
          exact ih hmore

/-! ## Agreement -/

/-- A lookup returns the first entry that is listed under the name, if there is one. -/
def Agree (fuel : Nat) (vol : Volume) (dirCluster : Nat) (component : Name) : Prop :=
  ∃ found listing vol₁ vol₂,
    lookupInDir component fuel vol dirCluster clear = some (found, vol₁) ∧
      listDir fuel vol dirCluster = some (listing, vol₂) ∧
      found.map DirEntry.slot = (listing.find? (goesBy component)).map (·.2)

/-- The two agree unless the first entry of the name is a volume label or a dot entry. -/
theorem lookup_agrees_iff_first_shown
    (h : dirEntries fuel vol dirCluster = some (entries, vol')) (component : Name) :
    Agree fuel vol dirCluster component ↔
      ∀ entry, entries.find? (goesBy component) = some entry → shown entry.2.raw = true := by
  obtain ⟨found, vol₁, hlookup, hfound⟩ := lookupInDir_listed component h
  have hlisting : listDir fuel vol dirCluster =
      some (entries.filter (fun entry => shown entry.2.raw), vol') := by
    rw [listDir, listClusters_filter, ← dirEntries, h]
    rfl
  have hshown : ∀ entry, (entries.filter fun entry => shown entry.2.raw).find?
      (goesBy component) = some entry → shown entry.2.raw = true := fun entry hentry =>
    (mem_filter.mp (mem_of_find?_eq_some hentry)).2
  constructor
  · rintro ⟨found', listing, _, _, hlookup', hlisting', hagree⟩ entry hentry
    cases hlookup.symm.trans hlookup'
    cases hlisting.symm.trans hlisting'
    rw [hagree, hentry] at hfound
    obtain ⟨other, hother, hsame⟩ := map_eq_some_iff.mp hfound
    rw [← show other.2 = entry.2 from hsame]
    exact hshown other hother
  · intro hfirst
    refine ⟨found, _, vol₁, _, hlookup, hlisting, hfound.trans (congrArg _ ?_)⟩
    rw [find?_filter]
    cases hfind : entries.find? (goesBy component) with
    | none =>
      refine (find?_eq_none.mpr fun entry hmem => ?_).symm
      simp [find?_eq_none.mp hfind entry hmem]
    | some entry =>
      obtain ⟨hgoes, before, after, rfl, hbefore⟩ := find?_eq_some_iff_append.mp hfind
      refine (find?_eq_some_iff_append.mpr ⟨?_, before, after, rfl, fun other hother => ?_⟩).symm
      · simp [hgoes, hfirst entry hfind]
      · simp [hbefore other hother]

theorem lookup_agrees_in_shortDirectory : Agree 2 shortDirectory 2 sampleName := by
  have hview : (dirEntries 2 shortDirectory 2).map
      (fun result => result.1.all fun entry => shown entry.2.raw) = some true := by
    decide +kernel
  obtain ⟨⟨entries, vol'⟩, hentries, hall⟩ := map_eq_some_iff.mp hview
  exact (lookup_agrees_iff_first_shown hentries sampleName).mpr fun entry hentry =>
    all_eq_true.mp hall entry (mem_of_find?_eq_some hentry)

/-- The name `DISK`. -/
def labelName : Name := [0x44, 0x49, 0x53, 0x4B]

/-- The directory of `a.txt` with the volume label `DISK` behind it. -/
def labelledDirectory : Volume :=
  (shortDirectory.writeEntries 2 1 [shortEntry (padTo 11 labelName) 0x08 0 0 0]).2

/-- A lookup finds the volume label, which is not listed. -/
theorem volume_label_found : ¬ Agree 2 labelledDirectory 2 labelName := by
  rintro ⟨found, listing, _, _, hlookup, hlisting, hagree⟩
  have hfound : (lookupInDir labelName 2 labelledDirectory 2 LfnState.clear).map
      (·.1.isSome) = some true := by
    decide +kernel
  have hlisted : (listDir 2 labelledDirectory 2).map
      (fun result => (result.1.find? (goesBy labelName)).isSome) = some false := by
    decide +kernel
  rw [hlookup, map_some, some.injEq] at hfound
  rw [hlisting, map_some, some.injEq] at hlisted
  have hsome := congrArg Option.isSome hagree
  rw [isSome_map, isSome_map, hfound, hlisted] at hsome
  cases hsome

end Volume
end Bazzulto.Fat32
