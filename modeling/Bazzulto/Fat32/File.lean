/-
  Fat32/File.lean --- `Fat32FileInode`: reading, writing and truncating a file.

  Positions are 64-bit in the source, the cluster index and the size kept in
  the inode are cut to 32 bits; the cuts are the `% 2 ^ 32` below.
-/
import Bazzulto.Fat32.Chain

set_option autoImplicit false

namespace Bazzulto.Fat32

open Bazzulto.Foundation

/-- The `FsError`s the FAT32 inodes return. -/
inductive FsError where
  | ioError
  | notFound
  | notSupported
  | notDirectory
  | alreadyExists
  | outOfMemory
  deriving Repr, DecidableEq

/-- `Fat32FileInode` with its mutable part.  The pair of a directory cluster
and a slot in it is where the directory entry is updated. -/
structure FileInode where
  dirCluster : Nat
  dirEntryIndex : Nat
  firstCluster : Nat
  fileSize : Nat
  deriving Repr, DecidableEq

namespace Volume

/-- The directory entry's bytes with the size (offset 28) and the two halves of
the first cluster (offsets 26 and 20) replaced. -/
def patchEntry (buf : Buffer) (entryOffset firstCluster fileSize : Nat) : Buffer :=
  let buf := splice buf (entryOffset + 28) (leBytes 4 fileSize)
  let buf := splice buf (entryOffset + 26) (leBytes 2 (firstCluster % 2 ^ 16))
  splice buf (entryOffset + 20) (leBytes 2 (firstCluster / 2 ^ 16))

def updateDirEntrySize (vol : Volume) (file : FileInode) : Volume :=
  match vol.readCluster file.dirCluster with
  | (false, vol) => vol
  | (true, vol) =>
    let entryOffset := file.dirEntryIndex * 32
    if vol.geometry.bytesPerCluster < entryOffset + 32 then vol
    else
      ({ vol with
          clusterBuf := patchEntry vol.clusterBuf entryOffset file.firstCluster
            file.fileSize }.writeCluster file.dirCluster).2

/-- The loop of `read_at`: `remaining` bytes are still to be read at `pos`.
Every round reads at least one byte, so as many rounds as bytes are enough. -/
def readLoop (firstCluster : Nat) : (rounds : Nat) → (vol : Volume) → (pos remaining : Nat) →
    (done : List UInt8) → List UInt8 × Volume
  | 0, vol, _, _, done => (done, vol)
  | rounds + 1, vol, pos, remaining, done =>
    if remaining = 0 then (done, vol)
    else
      let size := vol.geometry.bytesPerCluster
      match clusterAtIndex (pos / size % 2 ^ 32) vol firstCluster with
      | (none, vol) => (done, vol)
      | (some cluster, vol) =>
        if cluster < firstDataCluster then (done, vol)
        else
          match vol.readCluster cluster with
          | (false, vol) => (done, vol)
          | (true, vol) =>
            let offsetInCluster := pos % size
            let chunk := min remaining (size - offsetInCluster)
            readLoop firstCluster rounds vol (pos + chunk) (remaining - chunk)
              (done ++ slice vol.clusterBuf offsetInCluster chunk)

/-- `read_at` into a buffer of `len` bytes: the bytes read. -/
def readAt (vol : Volume) (file : FileInode) (offset len : Nat) :
    Except FsError (List UInt8) × Volume :=
  if !vol.ready then (.error .ioError, vol)
  else if file.fileSize ≤ offset then (.ok [], vol)
  else
    let toRead := min len (file.fileSize - offset)
    let (bytes, vol) := readLoop file.firstCluster toRead vol offset toRead []
    (.ok bytes, vol)

/-- The cluster `write_at` writes the next chunk to and the file's first
cluster: a new cluster for a file without any, the cluster at the index if the
chain has one, and otherwise a new cluster at the end of the chain. -/
def writeTarget (fuel : Nat) (vol : Volume) (firstCluster clusterIndex : Nat) :
    Option (Option (Nat × Nat) × Volume) :=
  if firstCluster < firstDataCluster then allocCluster fuel vol 0
  else
    match clusterAtIndex clusterIndex vol firstCluster with
    | (none, vol) => allocCluster fuel vol firstCluster
    | (some cluster, vol) =>
      if cluster < firstDataCluster then allocCluster fuel vol firstCluster
      else some (some (cluster, firstCluster), vol)

/-- Read-modify-write of one chunk in one cluster.  The result of the read is
ignored. -/
def writeChunk (vol : Volume) (cluster offsetInCluster : Nat) (chunk : List UInt8) :
    Bool × Volume :=
  let vol := (vol.readCluster cluster).2
  { vol with clusterBuf := splice vol.clusterBuf offsetInCluster chunk }.writeCluster cluster

/-- The loop of `write_at`: `data` is still to be written at `pos`.  The result
is the first cluster and the position reached. -/
def writeLoop (fuel : Nat) : (rounds : Nat) → (vol : Volume) → (firstCluster pos : Nat) →
    (data : List UInt8) → Option (Nat × Nat × Volume)
  | 0, vol, firstCluster, pos, _ => some (firstCluster, pos, vol)
  | rounds + 1, vol, firstCluster, pos, data =>
    if data = [] then some (firstCluster, pos, vol)
    else
      let size := vol.geometry.bytesPerCluster
      match writeTarget fuel vol firstCluster (pos / size % 2 ^ 32) with
      | none => none
      | some (none, vol) => some (firstCluster, pos, vol)
      | some (some (cluster, firstCluster), vol) =>
        let offsetInCluster := pos % size
        let chunk := min data.length (size - offsetInCluster)
        match vol.writeChunk cluster offsetInCluster (data.take chunk) with
        | (false, vol) => some (firstCluster, pos, vol)
        | (true, vol) =>
          writeLoop fuel rounds vol firstCluster (pos + chunk) (data.drop chunk)

section

variable (fuel : Nat) (vol : Volume)

/-- `write_at`: the number of bytes written. -/
def writeAt (file : FileInode) (offset : Nat) (data : List UInt8) :
    Option (Except FsError Nat × Volume × FileInode) :=
  if data = [] then some (.ok 0, vol, file)
  else if !vol.ready then some (.error .ioError, vol, file)
  else
    match writeLoop fuel data.length vol file.firstCluster offset data with
    | none => none
    | some (firstCluster, pos, vol) =>
      let fileSize := if file.fileSize < pos then pos % 2 ^ 32 else file.fileSize
      let file := { file with firstCluster := firstCluster, fileSize := fileSize }
      some (.ok (pos - offset), vol.updateDirEntrySize file, file)

/-- The part of `truncate` that cuts the chain behind the last cluster kept. -/
def cutChain (firstCluster newSize : Nat) : Option Volume :=
  match clusterAtIndex ((newSize - 1) / vol.geometry.bytesPerCluster) vol firstCluster with
  | (none, vol) => some vol
  | (some last, vol) =>
    match vol.readFatEntry last with
    | (none, vol) => some vol
    | (some next, vol) =>
      let freed :=
        if firstDataCluster ≤ next ∧ isEof next = false then freeChain fuel vol next
        else some vol
      freed.map fun vol => (vol.writeFatEntry last clusterEof).2

def truncate (file : FileInode) (newSize : Nat) :
    Option (Except FsError Unit × Volume × FileInode) :=
  if file.fileSize < newSize then some (.error .notSupported, vol, file)
  else if newSize = file.fileSize then some (.ok (), vol, file)
  else if !vol.ready then some (.error .ioError, vol, file)
  else
    let cut :=
      if newSize = 0 then
        if firstDataCluster ≤ file.firstCluster then freeChain fuel vol file.firstCluster
        else some vol
      else cutChain fuel vol file.firstCluster newSize
    cut.map fun vol =>
      let file :=
        { file with
          firstCluster := if newSize = 0 then 0 else file.firstCluster
          fileSize := newSize }
      (.ok (), vol.updateDirEntrySize file, file)

end

end Volume

end Bazzulto.Fat32
