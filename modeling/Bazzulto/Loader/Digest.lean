/-
  Loader/Digest.lean --- what the digest of a binary says about its image.

  `compute_binary_hash` (kernel/src/loader/mod.rs) hashes the file bytes of the `PT_LOAD`
  segments, one after the other, and nothing of the headers.  So it says neither where
  `load_elf` puts these bytes, nor with which protection, nor where one segment ends and the
  next begins, nor where the program starts.  Where two files agree in that, one digest is one
  image.
-/
import Bazzulto.Loader.Placement
import Mathlib.Data.List.TakeWhile

set_option autoImplicit false

namespace Bazzulto.Loader

open Foundation Memory List

/-- Two files with one digest. -/
def SameDigest {Digest : Type} (sha256 : List UInt8 → Digest) (first second : List UInt8) : Prop :=
  ∃ digest, computeBinaryHash sha256 first = some (some digest) ∧
    computeBinaryHash sha256 second = some (some digest)

/-- The entry points are the same, and at every address so are the page that is mapped there
and its protection. -/
structure SameImage (mmfr0 : Word) (loaded loaded' : LoadedImage × PhysicalMemory) : Prop where
  entry : loaded.1.entryPoint = loaded'.1.entryPoint
  pages : ∀ address, leafAt mmfr0 loaded.2 loaded.1.pageTable address =
    leafAt mmfr0 loaded'.2 loaded'.1.pageTable address

/-- The bytes of a segment. -/
def segmentData (file : List UInt8) (ph : ProgramHeader) : List UInt8 :=
  (file.drop ph.pOffset).take ph.pFilesz

/-- What the digest does not say of a segment: its load address, its two sizes and whether it
is executable.  It is the header of the segment in a file that has its bytes only. -/
def shape (base : Nat) (ph : ProgramHeader) : ProgramHeader where
  pType := ptLoad
  pFlags := ph.pFlags % 2
  pOffset := 0
  pVaddr := segmentVaddr base ph
  pFilesz := ph.pFilesz
  pMemsz := ph.pMemsz

def shapes (random : Nat) (file : List UInt8) : List ProgramHeader :=
  (loadSegments file).map (shape (loadBase file random))

/-- The digest is one of all segments: their headers and their bytes lie inside the file. -/
structure Covered (file : List UInt8) : Prop where
  length : file.length < 2 ^ 64
  headers : field file 32 8 + programHeaderCount file * field file 54 2 ≤ file.length
  bytes : ∀ ph ∈ loadSegments file, ph.pOffset + ph.pFilesz ≤ file.length

/-! ## What is hashed -/

section

variable {file : List UInt8} {ph : ProgramHeader}

theorem flatten_filterMap {α β γ : Type} {items : List α} {f : α → Option (List β)}
    {g : α → Option γ} {data : γ → List β}
    (h : ∀ item ∈ items, (f item).getD [] = ((g item).map data).getD []) :
    (items.filterMap f).flatten = (items.filterMap g).flatMap data := by
  induction items with
  | nil => rfl
  | cons item items ih =>
    rw [forall_mem_cons] at h
    have hrest := ih h.2
    cases hf : f item <;> cases hg : g item <;> simp_all

/-- What is hashed for a header is the bytes of its segment, if it is one. -/
theorem Covered.hashedPiece_eq (h : Covered file) {index : Nat}
    (hindex : index < programHeaderCount file)
    (hin : field file 32 8 + index * field file 54 2 + 56 ≤ file.length) :
    (hashedPiece file (field file 32 8 + index * field file 54 2)).getD [] =
      ((match programHeader file index with
        | .ok ph => if ph.pType = ptLoad then some ph else none
        | .error _ => none).map (segmentData file)).getD [] := by
  have hlength := h.length
  have hbytes := h.bytes
  obtain ⟨ph, hph, htype, hoffset, hfilesz⟩ : ∃ ph, programHeader file index = .ok ph ∧
      ph.pType = field file (field file 32 8 + index * field file 54 2) 4 ∧
      ph.pOffset = field file (field file 32 8 + index * field file 54 2 + 8) 8 ∧
      ph.pFilesz = field file (field file 32 8 + index * field file 54 2 + 32) 8 := by
    have hph : programHeader file index = _ :=
      (if_neg (by omega)).trans ((if_neg (by omega)).trans (if_neg (by omega)))
    exact ⟨_, hph, rfl, rfl, rfl⟩
  rw [hashedPiece, hph, ← htype, ← hoffset, ← hfilesz]
  dsimp only
  by_cases hload : ph.pType = ptLoad
  · have hinside := hbytes ph
      (mem_filterMap.mpr ⟨index, mem_range.mpr hindex, by simp [hph, hload]⟩)
    rw [if_pos hload, Nat.min_eq_left hinside, Nat.add_sub_cancel_left]
    by_cases hempty : ph.pFilesz = 0
    · simp [segmentData, hempty]
    · rw [if_neg (by simp [hload]; omega)]
      rfl
  · simp [hload]

/-- The digest is that of the bytes of the segments. -/
theorem Covered.digest_eq (h : Covered file) {Digest : Type} {sha256 : List UInt8 → Digest}
    {digest : Digest} (hdigest : computeBinaryHash sha256 file = some (some digest)) :
    digest = sha256 ((loadSegments file).flatMap (segmentData file)) := by
  unfold computeBinaryHash at hdigest
  dsimp only at hdigest
  split at hdigest
  · cases hdigest
  next hheader =>
    have hinside : ∀ index < programHeaderCount file,
        field file 32 8 + index * field file 54 2 + field file 54 2 ≤ file.length := by
      intro index hindex
      refine le_trans ?_ h.headers
      rw [Nat.add_assoc, ← Nat.succ_mul]
      exact Nat.add_le_add_left (Nat.mul_le_mul_right _ hindex) _
    split at hdigest
    · cases hdigest
    rw [takeWhile_eq_self_iff.mpr, filterMap_map] at hdigest
    · split at hdigest
      · cases hdigest
      rw [← Option.some.inj (Option.some.inj hdigest)]
      refine congrArg sha256 (flatten_filterMap fun index hindex => ?_)
      have hin := hinside index (mem_range.mp hindex)
      exact h.hashedPiece_eq (mem_range.mp hindex) (by omega)
    · intro offset hoffset
      obtain ⟨index, hindex, rfl⟩ := mem_map.mp hoffset
      exact decide_eq_true (hinside index (mem_range.mp hindex))

theorem length_segmentData (hfile : ph.pOffset + ph.pFilesz ≤ file.length) :
    (segmentData file ph).length = ph.pFilesz := by
  rw [segmentData, length_take, length_drop]
  omega

/-- A segment is placed by its shape and its bytes. -/
theorem segmentLeaves_eq_shape (base : Nat) (hfile : ph.pOffset + ph.pFilesz ≤ file.length) :
    segmentLeaves file base ph = segmentLeaves (segmentData file ph) 0 (shape base ph) := by
  have hflags : segmentFlags (shape base ph) = segmentFlags ph := by
    rw [segmentFlags, segmentFlags, shape, Nat.mod_mod]
  have hlength := length_segmentData hfile
  have hbytes : ∀ pageIndex, segmentBytes (segmentData file ph) 0 (shape base ph) pageIndex =
      segmentBytes file base ph pageIndex := by
    intro pageIndex
    have hstart : segmentPageStart 0 (shape base ph) pageIndex =
        segmentPageStart base ph pageIndex := rfl
    have hcopy : copyLength 0 (shape base ph) pageIndex = copyLength base ph pageIndex := rfl
    funext offset
    rw [segmentBytes, segmentBytes, fileOffset, fileOffset, hstart, hcopy, hlength]
    by_cases hin : offset < copyLength base ph pageIndex
    · have hle : segmentPageStart base ph pageIndex + copyLength base ph pageIndex ≤
          ph.pFilesz := by
        rw [copyLength] at hin ⊢
        omega
      rw [if_pos ⟨hin, by simpa [shape] using hle⟩, if_pos ⟨hin, by omega⟩]
      rw [segmentData, getD_eq_getElem?_getD, getD_eq_getElem?_getD, getElem?_take_of_lt,
        getElem?_drop]
      · congr 2
        simp only [shape]
        omega
      · simp only [shape]
        omega
    · rw [if_neg fun h => hin h.1, if_neg fun h => hin h.1]
  rw [segmentLeaves, segmentLeaves, hflags]
  simp only [hbytes]
  rfl

theorem Covered.leaves_eq (h : Covered file) (random : Nat) :
    (loadSegments file).flatMap (segmentLeaves file (loadBase file random)) =
      ((shapes random file).zip ((loadSegments file).map (segmentData file))).flatMap
        fun (ph, data) => segmentLeaves data 0 ph := by
  rw [shapes, zip_map', flatMap_map]
  exact flatMap_congr fun ph hph => segmentLeaves_eq_shape _ (h.bytes ph hph)

theorem Covered.lengths (h : Covered file) (random : Nat) :
    ((loadSegments file).map (segmentData file)).map List.length =
      (shapes random file).map ProgramHeader.pFilesz := by
  rw [shapes, List.map_map, List.map_map]
  exact map_congr_left fun ph hph => length_segmentData (h.bytes ph hph)

end

/-- A file is loaded, in a memory whose trees and free list are sound. -/
structure Loads (mmfr0 : Word) (vdso : Vdso) (argv envp : List (List UInt8))
    (random stackRandom : Nat) (file : List UInt8) (start : PhysicalMemory)
    (loaded : LoadedImage × PhysicalMemory) : Prop where
  sound : ∃ roots free, Owned mmfr0 start roots free ∧
    Resident mmfr0 roots start free vdso.code ∧ Resident mmfr0 roots start free vdso.data
  load : loadElf mmfr0 vdso file argv envp random stackRandom start = .ok loaded

theorem Loads.image {mmfr0 : Word} {vdso : Vdso} {argv envp : List (List UInt8)}
    {random stackRandom : Nat} {file : List UInt8} {start : PhysicalMemory}
    {loaded : LoadedImage × PhysicalMemory}
    (h : Loads mmfr0 vdso argv envp random stackRandom file start loaded) :
    loaded.1.entryPoint = field file 24 8 + loadBase file random ∧
      ∀ address, leafAt mmfr0 loaded.2 loaded.1.pageTable address =
        shown (leaves (start.pages vdso.code) (start.pages vdso.data) file argv envp random
          stackRandom) address := by
  obtain ⟨_, _, howned, hcode, hdata⟩ := h.sound
  exact loadElf_leafAt howned hcode hdata h.load

theorem sampleFile_loads (vaddr : Nat) (tail : List UInt8) (h : (loadElf sampleMmfr0 sampleVdso
    (sampleFile vaddr ++ tail) [] [] 0 0 sampleMemory).toOption.isSome = true) :
    ∃ loaded, Loads sampleMmfr0 sampleVdso [] [] 0 0 (sampleFile vaddr ++ tail) sampleMemory
      loaded := by
  obtain ⟨loaded, hload⟩ := Option.isSome_iff_exists.mp h
  exact ⟨loaded, ⟨∅, _, sampleMemory_owned,
    resident_of_not_mem (by decide +kernel) (by decide +kernel),
    resident_of_not_mem (by decide +kernel) (by decide +kernel)⟩,
    eq_ok_of_toOption hload⟩

end Bazzulto.Loader
