/-
  Fat32/Directory.lean --- directories: looking up, linking and unlinking
  entries, and `sys_rename` on top of them.

  A lookup walks the directory's chain and, in each cluster, its slots.  What it
  does with one slot is `scanSlot`; the long-name state it carries from slot to
  slot survives the step to the next cluster.
-/
import Bazzulto.Fat32.File
import Bazzulto.Fat32.Name

set_option autoImplicit false

namespace Bazzulto.Fat32

open Bazzulto.Foundation Volume RawEntry

/-! ## Scanning slots -/

/-- One slot of a directory: the cluster it lies in, its index there and its
bytes. -/
structure Slot where
  cluster : Nat
  index : Nat
  raw : RawEntry
  deriving Repr, DecidableEq

/-- What a lookup remembers of the long-name entries it has passed. -/
structure LfnState where
  buf : Name
  expectedOrd : Int
  startCluster : Nat
  startIndex : Nat
  count : Nat
  deriving Repr, DecidableEq

open LfnState

/-- No long-name entries passed. -/
def LfnState.clear : LfnState := ⟨[], 0, 0, 0, 0⟩

/-- `DirEntry`, the result of a lookup. -/
structure DirEntry where
  entry : RawEntry
  lfnName : Name
  entryIndex : Nat
  cluster : Nat
  lfnCount : Nat
  lfnStartCluster : Nat
  lfnStartIndex : Nat
  deriving Repr, DecidableEq

/-- How a lookup goes on after some slots: the end of the directory was met,
the entry was found, or the scan continues. -/
inductive Scan where
  | ended
  | found (entry : DirEntry)
  | next (lfn : LfnState)
  deriving Repr, DecidableEq

/-- The text of a long-name entry, up to its terminator. -/
def lfnText (raw : RawEntry) : Name :=
  (((lfnChars raw).takeWhile fun unit => !(unit == 0 || unit == 0xFFFF)).map lfnCharToUtf8).flatten

/-- The long-name state behind a long-name entry. -/
def passLfn (slot : Slot) (lfn : LfnState) : LfnState :=
  let ordByte := firstByte slot.raw
  let ord : Int := (ordByte &&& 0x1F).toNat
  let lfn :=
    if ordByte &&& lfnLastEntry != 0 then
      { buf := [], expectedOrd := ord, startCluster := slot.cluster, startIndex := slot.index,
        count := ord.toNat : LfnState }
    else lfn
  if ord = lfn.expectedOrd then
    { lfn with buf := lfnText slot.raw ++ lfn.buf, expectedOrd := lfn.expectedOrd - 1 }
  else lfn

/-- Does an 8.3 entry match, under the long name before it if there is one? -/
def slotMatches (component : Name) (raw : RawEntry) (lfn : LfnState) : Bool :=
  if lfn.buf = [] then
    namesMatchCaseInsensitive (shortNameToStr (raw.take 11) (ntRes raw)) component
  else namesMatchCaseInsensitive lfn.buf component

/-- The body of the slot loop of `lookup_in_dir`. -/
def scanSlot (component : Name) (slot : Slot) (lfn : LfnState) : Scan :=
  if firstByte slot.raw = dirEntryFree then .ended
  else if firstByte slot.raw = dirEntryDeleted then .next clear
  else if isLfn slot.raw then .next (passLfn slot lfn)
  else if slotMatches component slot.raw lfn then
    .found
      { entry := slot.raw
        lfnName := lfn.buf
        entryIndex := slot.index
        cluster := slot.cluster
        lfnCount := lfn.count
        lfnStartCluster := lfn.startCluster
        lfnStartIndex := lfn.startIndex }
  else .next clear

/-- The slot loop of `lookup_in_dir`. -/
def scanSlots (component : Name) : (slots : List Slot) → LfnState → Scan
  | [], lfn => .next lfn
  | slot :: rest, lfn =>
    match scanSlot component slot lfn with
    | .next lfn => scanSlots component rest lfn
    | done => done

namespace Geometry

def entriesPerCluster (geo : Geometry) : Nat := geo.bytesPerCluster / 32

end Geometry

/-- The slots of a cluster whose bytes are in `buf`. -/
def clusterSlots (geo : Geometry) (cluster : Nat) (buf : Buffer) : List Slot :=
  (List.range geo.entriesPerCluster).map fun i => ⟨cluster, i, slice buf (i * 32) 32⟩

namespace Volume

def lookupInDir (component : Name) : (fuel : Nat) → (vol : Volume) → (cluster : Nat) →
    LfnState → Option (Option DirEntry × Volume)
  | 0, _, _, _ => none
  | fuel + 1, vol, cluster, lfn =>
    if isEof cluster || isBad cluster then some (none, vol)
    else
      match vol.readCluster cluster with
      | (false, vol) => some (none, vol)
      | (true, vol) =>
        match scanSlots component (clusterSlots vol.geometry cluster vol.clusterBuf) lfn with
        | .ended => some (none, vol)
        | .found entry => some (some entry, vol)
        | .next lfn =>
          match vol.readFatEntry cluster with
          | (none, vol) => some (none, vol)
          | (some next, vol) => lookupInDir component fuel vol next lfn

/-! ## Finding room for entries -/

/-- A slot that holds no entry. -/
def isFreeByte (byte : UInt8) : Bool := byte == dirEntryFree || byte == dirEntryDeleted

/-- The first bytes of the slots of a cluster. -/
def slotBytes (geo : Geometry) (buf : Buffer) : List UInt8 :=
  (List.range geo.entriesPerCluster).map fun i => buf (i * 32)

/-- The loop of `find_free_dir_slot`: the free slot found, if any. -/
def findFreeSlot : (fuel : Nat) → (vol : Volume) → (cluster : Nat) →
    Option (Option (Option (Nat × Nat)) × Volume)
  | 0, _, _ => none
  | fuel + 1, vol, cluster =>
    if isEof cluster || isBad cluster then some (some none, vol)
    else
      match vol.readCluster cluster with
      | (false, vol) => some (none, vol)
      | (true, vol) =>
        match (slotBytes vol.geometry vol.clusterBuf).findIdx? isFreeByte with
        | some index => some (some (some (cluster, index)), vol)
        | none =>
          match vol.readFatEntry cluster with
          | (none, vol) => some (none, vol)
          | (some next, vol) => findFreeSlot fuel vol next

/-- Appending `count` zeroed clusters to a directory: the first of them. -/
def extendDirectory (fuel : Nat) (dirCluster : Nat) : (count : Nat) → (vol : Volume) →
    Option (Option (List Nat) × Volume)
  | 0, vol => some (some [], vol)
  | count + 1, vol =>
    match allocCluster fuel vol dirCluster with
    | none => none
    | some (none, vol) => some (none, vol)
    | some (some (newCluster, _), vol) =>
      let vol := ({ vol with clusterBuf := fun _ => 0 }.writeCluster newCluster).2
      match extendDirectory fuel dirCluster count vol with
      | none => none
      | some (none, vol) => some (none, vol)
      | some (some rest, vol) => some (some (newCluster :: rest), vol)

/-- The first new cluster, slot 0. -/
def firstOfNew : Option (Option (List Nat) × Volume) → Option (Option (Nat × Nat) × Volume)
  | none => none
  | some (none, vol) => some (none, vol)
  | some (some clusters, vol) => some (some (clusters.headD 0, 0), vol)

def findFreeDirSlot (fuel : Nat) (vol : Volume) (dirCluster : Nat) :
    Option (Option (Nat × Nat) × Volume) :=
  match findFreeSlot fuel vol dirCluster with
  | none => none
  | some (none, vol) => some (none, vol)
  | some (some (some place), vol) => some (some place, vol)
  | some (some none, vol) => firstOfNew (extendDirectory fuel dirCluster 1 vol)

/-- The search for `count` free slots in one cluster: `runLen` free slots end
right before slot `index`.  A slot never used stands for all that follow it. -/
def findRun (entriesPerCluster count : Nat) : (bytes : List UInt8) → (index runLen : Nat) →
    Option Nat
  | [], _, _ => none
  | byte :: rest, index, runLen =>
    if isFreeByte byte then
      let runStart := index - runLen
      if count ≤ runLen + 1 then some runStart
      else if byte = dirEntryFree then
        if count ≤ entriesPerCluster - runStart then some runStart else none
      else findRun entriesPerCluster count rest (index + 1) (runLen + 1)
    else findRun entriesPerCluster count rest (index + 1) 0

/-- The loop of `find_n_free_dir_slots`. -/
def findRunOfSlots (count : Nat) : (fuel : Nat) → (vol : Volume) → (cluster : Nat) →
    Option (Option (Option (Nat × Nat)) × Volume)
  | 0, _, _ => none
  | fuel + 1, vol, cluster =>
    if isEof cluster || isBad cluster then some (some none, vol)
    else
      match vol.readCluster cluster with
      | (false, vol) => some (none, vol)
      | (true, vol) =>
        let geo := vol.geometry
        match findRun geo.entriesPerCluster count (slotBytes geo vol.clusterBuf) 0 0 with
        | some index => some (some (some (cluster, index)), vol)
        | none =>
          match vol.readFatEntry cluster with
          | (none, vol) => some (some none, vol)
          | (some next, vol) =>
            if isEof next || isBad next then some (some none, vol)
            else findRunOfSlots count fuel vol next

def findNFreeDirSlots (fuel : Nat) (vol : Volume) (dirCluster count : Nat) :
    Option (Option (Nat × Nat) × Volume) :=
  if count ≤ 1 then findFreeDirSlot fuel vol dirCluster
  else
    match findRunOfSlots count fuel vol dirCluster with
    | none => none
    | some (none, vol) => some (none, vol)
    | some (some (some place), vol) => some (some place, vol)
    | some (some none, vol) =>
      let perCluster := vol.geometry.entriesPerCluster
      firstOfNew (extendDirectory fuel dirCluster ((count + perCluster - 1) / perCluster) vol)

/-! ## Writing entries -/

/-- The step to the next cluster when the current one is full. -/
def advanceSlot (vol : Volume) (cluster index : Nat) : Option (Nat × Nat) × Volume :=
  if index < vol.geometry.entriesPerCluster then (some (cluster, index), vol)
  else
    match vol.writeCluster cluster with
    | (false, vol) => (none, vol)
    | (true, vol) =>
      match vol.readFatEntry cluster with
      | (none, vol) => (none, vol)
      | (some next, vol) =>
        if isEof next || isBad next then (none, vol)
        else
          match vol.readCluster next with
          | (false, vol) => (none, vol)
          | (true, vol) => (some (next, 0), vol)

/-- The loops of `write_lfn_and_83` that put entries into consecutive slots;
the cluster is written back when it is full and after the last entry.  The
cluster buffer holds the current cluster. -/
def putEntries : (entries : List RawEntry) → (vol : Volume) → (cluster index : Nat) →
    Option (Nat × Nat) × Volume
  | [], vol, cluster, index => (some (cluster, index), vol)
  | entry :: rest, vol, cluster, index =>
    match advanceSlot vol cluster index with
    | (none, vol) => (none, vol)
    | (some (cluster, index), vol) =>
      let vol := { vol with clusterBuf := splice vol.clusterBuf (index * 32) entry }
      if rest = [] then
        match vol.writeCluster cluster with
        | (false, vol) => (none, vol)
        | (true, vol) => (some (cluster, index), vol)
      else putEntries rest vol cluster (index + 1)

/-- `write_lfn_and_83`, and with no long-name entries the writing of a single
8.3 entry. -/
def writeEntries (vol : Volume) (cluster index : Nat) (entries : List RawEntry) :
    Option (Nat × Nat) × Volume :=
  match vol.readCluster cluster with
  | (false, vol) => (none, vol)
  | (true, vol) => putEntries entries vol cluster index

/-- The loop of `generate_short_alias`, from `n` on. -/
def aliasFrom (fuel : Nat) (dirCluster : Nat) (name : Name) :
    (remaining n : Nat) → (vol : Volume) → Option (Option (List UInt8) × Volume)
  | 0, _, vol => some (none, vol)
  | remaining + 1, n, vol =>
    let short := shortAlias name n
    match lookupInDir (shortNameToStr short 0) fuel vol dirCluster clear with
    | none => none
    | some (none, vol) => some (some short, vol)
    | some (some _, vol) => aliasFrom fuel dirCluster name remaining (n + 1) vol

def generateShortAlias (fuel : Nat) (vol : Volume) (dirCluster : Nat) (name : Name) :
    Option (Option (List UInt8) × Volume) :=
  aliasFrom fuel dirCluster name 9999 1 vol

/-- The loop of `mark_entries_deleted`. -/
def markEntriesDeleted : (fuel : Nat) → (vol : Volume) → (cluster index remaining : Nat) →
    Option Volume
  | 0, _, _, _, _ => none
  | fuel + 1, vol, cluster, index, remaining =>
    if remaining = 0 then some vol
    else
      match vol.readCluster cluster with
      | (false, vol) => some vol
      | (true, vol) =>
        let here := min remaining (vol.geometry.entriesPerCluster - index)
        let marked : Buffer := fun i =>
          if i % 32 = 0 ∧ index ≤ i / 32 ∧ i / 32 < index + here then dirEntryDeleted
          else vol.clusterBuf i
        let vol :=
          if here = 0 then vol
          else ({ vol with clusterBuf := marked }.writeCluster cluster).2
        if remaining = here then some vol
        else
          match vol.readFatEntry cluster with
          | (none, vol) => some vol
          | (some next, vol) =>
            if isEof next || isBad next then some vol
            else markEntriesDeleted fuel vol next 0 (remaining - here)

end Volume

/-! ## Directory inodes -/

/-- An inode of the volume: a `Fat32DirInode` is its first cluster. -/
inductive Inode where
  | directory (dirCluster : Nat)
  | regular (file : FileInode)
  deriving Repr, DecidableEq

namespace Inode

/-- `fat32_first_cluster`. -/
def firstCluster : Inode → Nat
  | .directory dirCluster => dirCluster
  | .regular file => file.firstCluster

/-- `stat().size`. -/
def size : Inode → Nat
  | .directory _ => 0
  | .regular file => file.fileSize

/-- The attributes `link_child` gives the new entry. -/
def attr : Inode → UInt8
  | .directory _ => attrDirectory
  | .regular _ => attrArchive

/-- The inode `Fat32DirInode::lookup` builds for an entry: a file remembers the
first cluster of the directory, whichever cluster of it the entry was found
in. -/
def ofEntry (dirCluster : Nat) (found : DirEntry) : Inode :=
  if isDirectory found.entry then .directory (cluster found.entry)
  else
    .regular
      { dirCluster := dirCluster
        dirEntryIndex := found.entryIndex
        firstCluster := cluster found.entry
        fileSize := fileSize found.entry }

section

variable (fuel : Nat) (vol : Volume)

def lookup (inode : Inode) (name : Name) : Option (Option Inode × Volume) :=
  match inode with
  | .regular _ => some (none, vol)
  | .directory dirCluster =>
    if !vol.ready then some (none, vol)
    else
      (lookupInDir name fuel vol dirCluster clear).map fun (found, vol) =>
        (found.map (ofEntry dirCluster), vol)

/-- The entries `link_child` writes and where: long-name entries with an alias
if the name needs them, and otherwise one 8.3 entry. -/
def placeEntries (dirCluster : Nat) (name : Name) (child : Inode) :
    Option (Except FsError (List RawEntry × Nat × Nat) × Volume) :=
  if needsLfn name then
    match generateShortAlias fuel vol dirCluster name with
    | none => none
    | some (none, vol) => some (.error .outOfMemory, vol)
    | some (some short, vol) =>
      match findNFreeDirSlots fuel vol dirCluster (lfnEntryCount name + 1) with
      | none => none
      | some (none, vol) => some (.error .outOfMemory, vol)
      | some (some (cluster, index), vol) =>
        let entry := shortEntry short child.attr 0 child.firstCluster child.size
        some (.ok (lfnEntries name short ++ [entry], cluster, index), vol)
  else
    let (short, ntRes) := nameToShort name
    match findFreeDirSlot fuel vol dirCluster with
    | none => none
    | some (none, vol) => some (.error .outOfMemory, vol)
    | some (some (cluster, index), vol) =>
      let entry := shortEntry short child.attr ntRes child.firstCluster child.size
      some (.ok ([entry], cluster, index), vol)

def linkChild (parent : Inode) (name : Name) (child : Inode) :
    Option (Except FsError Unit × Volume) :=
  match parent with
  | .regular _ => some (.error .notSupported, vol)
  | .directory dirCluster =>
    if !vol.ready then some (.error .ioError, vol)
    else
      match lookupInDir name fuel vol dirCluster clear with
      | none => none
      | some (some _, vol) => some (.error .alreadyExists, vol)
      | some (none, vol) =>
        match placeEntries fuel vol dirCluster name child with
        | none => none
        | some (.error err, vol) => some (.error err, vol)
        | some (.ok (entries, cluster, index), vol) =>
          match vol.writeEntries cluster index entries with
          | (none, vol) => some (.error .ioError, vol)
          | (some _, vol) => some (.ok (), vol)

end

/-- The end of `unlink`: the 8.3 entry is marked deleted. -/
def deleteEntry (vol : Volume) (found : DirEntry) : Except FsError Unit × Volume :=
  match vol.readCluster found.cluster with
  | (false, vol) => (.error .ioError, vol)
  | (true, vol) =>
    let offset := found.entryIndex * 32
    let buf :=
      if offset < vol.geometry.bytesPerCluster then splice vol.clusterBuf offset [dirEntryDeleted]
      else vol.clusterBuf
    match { vol with clusterBuf := buf }.writeCluster found.cluster with
    | (false, vol) => (.error .ioError, vol)
    | (true, vol) => (.ok (), vol)

def unlink (fuel : Nat) (vol : Volume) (parent : Inode) (name : Name) :
    Option (Except FsError Unit × Volume) :=
  match parent with
  | .regular _ => some (.error .notDirectory, vol)
  | .directory dirCluster =>
    if !vol.ready then some (.error .ioError, vol)
    else
      match lookupInDir name fuel vol dirCluster clear with
      | none => none
      | some (none, vol) => some (.error .notFound, vol)
      | some (some found, vol) =>
        let firstCluster := cluster found.entry
        let freed :=
          if firstDataCluster ≤ firstCluster then freeChain fuel vol firstCluster
          else some vol
        match freed with
        | none => none
        | some vol =>
          match markEntriesDeleted fuel vol found.lfnStartCluster
              found.lfnStartIndex found.lfnCount with
          | none => none
          | some vol => some (deleteEntry vol found)

end Inode

/-! ## Paths and `sys_rename` -/

def FsError.toErrno : FsError → Int
  | .notSupported => -38
  | .notFound => -2
  | .notDirectory => -20
  | .alreadyExists => -17
  | .outOfMemory => -12
  | .ioError => -5

namespace Path

def slash : UInt8 := 0x2F

/-- `find_mount_root` for the mount point of the volume: what remains of the
path. -/
def belowMount (mountPoint path : Name) : Option Name :=
  if path = mountPoint then some []
  else if mountPoint.isPrefixOf path then
    let rest := path.drop mountPoint.length
    if rest.headD 0 = slash ∨ mountPoint = [slash] then
      some (if mountPoint = [slash] then path else rest)
    else none
  else none

/-- The components of a path without the empty ones and the single dots. -/
def components (path : Name) : List Name :=
  (path.splitOn slash).filter fun component => component != [] && component != [dot]

/-- The walk of `resolve_parent` over all components but the last; two dots stay
where they are. -/
def walk (fuel : Nat) : (parents : List Name) → (vol : Volume) → Inode →
    Option (Except FsError Inode × Volume)
  | [], vol, current => some (.ok current, vol)
  | component :: rest, vol, current =>
    if component = [dot, dot] then walk fuel rest vol current
    else
      match current with
      | .regular _ => some (.error .notDirectory, vol)
      | .directory _ =>
        match Inode.lookup fuel vol current component with
        | none => none
        | some (none, vol) => some (.error .notFound, vol)
        | some (some next, vol) => walk fuel rest vol next

section

variable (fuel : Nat) (vol : Volume)

def resolveParent (mountPoint path : Name) : Option (Except FsError (Inode × Name) × Volume) :=
  let root := Inode.directory vol.geometry.rootCluster
  match belowMount mountPoint path with
  | none => some (.error .notFound, vol)
  | some remaining =>
    let parts := components remaining
    match parts.getLast? with
    | none => some (.ok (root, [dot]), vol)
    | some name =>
      match walk fuel parts.dropLast vol root with
      | none => none
      | some (.error err, vol) => some (.error err, vol)
      | some (.ok parent, vol) => some (.ok (parent, name), vol)

/-- `resolve_inode` without a working directory. -/
def resolveInode (mountPoint path : Name) : Option (Except FsError Inode × Volume) :=
  if path.headD 0 ≠ slash then some (.error .notFound, vol)
  else
    match resolveParent fuel vol mountPoint path with
    | none => none
    | some (.error err, vol) => some (.error err, vol)
    | some (.ok (parent, name), vol) =>
      if name = [dot] then some (.ok parent, vol)
      else
        match Inode.lookup fuel vol parent name with
        | none => none
        | some (none, vol) => some (.error .notFound, vol)
        | some (some inode, vol) => some (.ok inode, vol)

/-- `copy_user_cstr` gives up on longer strings. -/
def maxLength : Nat := 510

/-- `sys_rename`, both paths below the mount point of one volume. -/
def sysRename (mountPoint oldPath newPath : Name) : Option (Int × Volume) :=
  if maxLength < oldPath.length ∨ maxLength < newPath.length then some (-22, vol)
  else
    match resolveInode fuel vol mountPoint oldPath with
    | none => none
    | some (.error err, vol) => some (err.toErrno, vol)
    | some (.ok source, vol) =>
      match resolveParent fuel vol mountPoint oldPath with
      | none => none
      | some (.error err, vol) => some (err.toErrno, vol)
      | some (.ok (oldParent, oldName), vol) =>
        match resolveParent fuel vol mountPoint newPath with
        | none => none
        | some (.error err, vol) => some (err.toErrno, vol)
        | some (.ok (newParent, newName), vol) =>
          match Inode.linkChild fuel vol newParent newName source with
          | none => none
          | some (.error err, vol) => some (err.toErrno, vol)
          | some (.ok (), vol) =>
            match Inode.unlink fuel vol oldParent oldName with
            | none => none
            | some (.error err, vol) => some (err.toErrno, vol)
            | some (.ok (), vol) => some (0, vol)

end

end Path

end Bazzulto.Fat32
