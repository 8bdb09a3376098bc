/-
  Loader/Elf.lean --- `load_elf`.

  Embeds the ELF64 loader (kernel/src/loader/mod.rs): the header checks, the
  segment loop, the signal trampoline, the stack page with argv and envp, and the
  vDSO pages; and `compute_binary_hash`, for any hash function.  Machine integers are
  natural numbers with the overflow checks of the kernel's default build written out;
  pages are 4 KiB.

  The two random numbers of the loader and the physical addresses of the vDSO are
  arguments.  An attempt that fails has changed memory already, so it returns the
  memory it leaves.
-/
import Bazzulto.Memory.AddressSpace
import Bazzulto.Process.Basic

set_option autoImplicit false

namespace Bazzulto.Loader

open Foundation Memory

/-- `LoaderError`, as far as `load_elf` returns it. -/
inductive LoaderError where
  | notAnElf
  | unsupportedFormat
  | notExecutable
  | unalignedSegment
  | outOfPhysicalMemory
  | mappingFailed
  | truncated
  deriving DecidableEq, Repr

/-- Why there is no image: an error; an addition that overflows; or a pointer of
argv or envp that would be written behind the stack page. -/
inductive Stop where
  | error (reason : LoaderError)
  | panic
  | wild
  deriving DecidableEq, Repr

/-! ## The file -/

section

variable (file : List UInt8)

/-- A little-endian field of the file. -/
def field (offset width : Nat) : Nat :=
  leValue ((file.drop offset).take width)

/-- `Elf64ProgramHeader`, without the fields the loader does not read. -/
structure ProgramHeader where
  pType : Nat
  pFlags : Nat
  pOffset : Nat
  pVaddr : Nat
  pFilesz : Nat
  pMemsz : Nat
  deriving DecidableEq, Repr

/-- The checks on the ELF header. -/
def checkHeader : Option LoaderError :=
  if file.length < 64 then some .truncated
  else if file.take 4 ≠ [0x7F, 0x45, 0x4C, 0x46] then some .notAnElf
  else if field file 4 1 ≠ 2 ∨ field file 5 1 ≠ 1 ∨ field file 18 2 ≠ 183 then
    some .unsupportedFormat
  else if field file 16 2 ≠ 2 ∧ field file 16 2 ≠ 3 then some .notExecutable
  else none

/-- `e_type` says that the image is position-independent. -/
def isPie : Bool := field file 16 2 = 3

/-- `e_phnum`. -/
def programHeaderCount : Nat := field file 56 2

/-- The program header with a given index. -/
def programHeader (index : Nat) : Except Stop ProgramHeader :=
  let phOffset := field file 32 8 + index * field file 54 2
  if 2 ^ 64 ≤ phOffset then .error (.error .truncated)
  else if 2 ^ 64 ≤ phOffset + 56 then .error .panic
  else if file.length < phOffset + 56 then .error (.error .truncated)
  else .ok
    { pType := field file phOffset 4
      pFlags := field file (phOffset + 4) 4
      pOffset := field file (phOffset + 8) 8
      pVaddr := field file (phOffset + 16) 8
      pFilesz := field file (phOffset + 32) 8
      pMemsz := field file (phOffset + 40) 8 }

def ptLoad : Nat := 1

/-! ## The digest of a binary -/

/-- The bytes that are hashed for the program header at an offset. -/
def hashedPiece (file : List UInt8) (phOffset : Nat) : Option (List UInt8) :=
  let pOffset := field file (phOffset + 8) 8
  let pFilesz := field file (phOffset + 32) 8
  let last := min (pOffset + pFilesz) file.length
  if field file phOffset 4 ≠ ptLoad ∨ pFilesz = 0 ∨ last ≤ pOffset then none
  else some ((file.drop pOffset).take (last - pOffset))

/-- `compute_binary_hash`; `none` is an overflow. -/
def computeBinaryHash {Digest : Type} (sha256 : List UInt8 → Digest) (file : List UInt8) :
    Option (Option Digest) :=
  let ePhoff := field file 32 8
  let ePhentsize := field file 54 2
  if file.length < 64 ∨ ePhoff = 0 ∨ ePhentsize < 56 ∨ programHeaderCount file = 0 then some none
  else if 2 ^ 64 ≤ ePhoff + ePhentsize then none
  else
    let offsets := (List.range (programHeaderCount file)).map (ePhoff + · * ePhentsize)
    let pieces := (offsets.takeWhile (· + ePhentsize ≤ file.length)).filterMap (hashedPiece file)
    some (if pieces = [] then none else some (sha256 pieces.flatten))

/-! ## Addresses -/

def userImageBase : Nat := 0x400000

def userStackTopBase : Nat := 0x7FFFFFFFF000

def userStackPages : Nat := 2048

def vdsoBaseVa : Word := 0x1000#64

def vdsoDataVa : Word := 0x3000#64

/-- `aslr_page_offset` with `ASLR_MAX_OFFSET_PAGES`. -/
def aslrPageOffset (random : Nat) : Nat := random % 65536 * 4096

/-- The load base with the ASLR offset; a fixed image has neither. -/
def loadBase (random : Nat) : Nat :=
  if isPie file then userImageBase + aslrPageOffset random else 0

end

/-- `align_down` to a page. -/
def alignDown (value : Nat) : Nat := value / 4096 * 4096

/-- `align_up` to a page. -/
def alignUp (value : Nat) : Nat := (value + 4095) / 4096 * 4096

/-! ## Placing a page -/

section

variable (mmfr0 : Word)

/-- Take a page, fill it and map it.  Computing the content panics if there is
none. -/
def placePage (root : Word) (memory : PhysicalMemory) (pageVa : Word)
    (content : Option Page) (flags : Word) : Except (Stop × PhysicalMemory) PhysicalMemory :=
  match memory.alloc with
  | none => .error (.error .outOfPhysicalMemory, memory)
  | some (page, memory) =>
    match content with
    | none => .error (.panic, memory)
    | some content =>
      match map mmfr0 (memory.fill page content) root pageVa page flags with
      | .error memory => .error (.error .mappingFailed, memory)
      | .ok memory => .ok memory

end

/-! ## Segments -/

section

variable (file : List UInt8) (base : Nat) (ph : ProgramHeader)

def segmentVaddr : Nat := ph.pVaddr + base

def segmentEnd : Nat := segmentVaddr base ph + ph.pMemsz

def segmentPageCount : Nat :=
  (alignUp (segmentEnd base ph) - alignDown (segmentVaddr base ph)) / 4096

section

variable (pageIndex : Nat)

def pageVaddr : Nat :=
  alignDown (segmentVaddr base ph) + pageIndex * 4096

/-- `segment_page_start`, a saturating subtraction. -/
def segmentPageStart : Nat :=
  pageVaddr base ph pageIndex - segmentVaddr base ph

def fileOffset : Nat := ph.pOffset + segmentPageStart base ph pageIndex

def copyLength : Nat :=
  min (ph.pFilesz - segmentPageStart base ph pageIndex) 4096

/-- The bytes of a page: those of the file come first, whatever the offset of the
segment in its first page. -/
def segmentBytes : Buffer := fun offset =>
  if offset < copyLength base ph pageIndex ∧
      fileOffset base ph pageIndex + copyLength base ph pageIndex ≤ file.length then
    file.getD (fileOffset base ph pageIndex + offset) 0
  else 0

/-- The content of a page, unless its offsets overflow. -/
def segmentPage : Option Page :=
  if 2 ^ 64 ≤ fileOffset base ph pageIndex ∨
      (0 < copyLength base ph pageIndex ∧
        2 ^ 64 ≤ fileOffset base ph pageIndex + copyLength base ph pageIndex) then none
  else some (pageOfBuffer (segmentBytes file base ph pageIndex))

end

/-- The page flags of a segment, by `PF_X`. -/
def segmentFlags : Word :=
  if ph.pFlags % 2 = 1 then pageFlagsUserCode else pageFlagsUserData

end

section

variable (mmfr0 : Word) (file : List UInt8) (base : Nat) (root : Word)

/-- One `PT_LOAD` segment. -/
def loadSegment (ph : ProgramHeader) (memory : PhysicalMemory) :
    Except (Stop × PhysicalMemory) PhysicalMemory :=
  if 2 ^ 64 ≤ segmentEnd base ph + 4096 then .error (.panic, memory)
  else if segmentVaddr base ph % 4096 ≠ ph.pVaddr % 4096 ∧ ph.pVaddr % 4096 ≠ 0 then
    .error (.error .unalignedSegment, memory)
  else
    (List.range (segmentPageCount base ph)).foldlM (fun memory pageIndex =>
      placePage mmfr0 root memory (BitVec.ofNat 64 (pageVaddr base ph pageIndex))
        (segmentPage file base ph pageIndex) (segmentFlags ph)) memory

/-- One turn of the loop over the program headers.  The number is
`segments_end`. -/
def loadHeader (state : PhysicalMemory × Nat) (index : Nat) :
    Except (Stop × PhysicalMemory) (PhysicalMemory × Nat) :=
  match programHeader file index with
  | .error stop => .error (stop, state.1)
  | .ok ph =>
    if ph.pType ≠ ptLoad then .ok state
    else
      match loadSegment mmfr0 file base root ph state.1 with
      | .error stopped => .error stopped
      | .ok memory => .ok (memory, max state.2 (segmentEnd base ph))

end

/-! ## The first pages of a process -/

/-- The instruction `svc #23` in a page of its own. -/
def trampolinePage : Page :=
  pageOfBuffer (splice (fun _ => 0) 0 (leBytes 4 0xD40002E1))

/-- `write_string_array`: each string goes to the string area, its address to its
slot. -/
def writeStringArray (pageVa : Nat) (strings : List (List UInt8)) (slotBase : Nat)
    (state : Buffer × Nat) : Buffer × Nat :=
  strings.zipIdx.foldl (fun (buf, cursor) (string, index) =>
    let remaining := 4096 - cursor
    let slot := slotBase + index * 8
    if remaining = 0 then (splice buf slot (leBytes 8 0), cursor)
    else
      let copied := string.take (remaining - 1)
      (splice (splice buf cursor (copied ++ [0])) slot (leBytes 8 (pageVa + cursor)),
        cursor + copied.length + 1)) state

/-- The positions of the arrays in the stack page. -/
structure ArgvLayout where
  argc : Nat
  argvNullOffset : Nat
  envpSlotBase : Nat
  envpNullOffset : Nat

section

variable (argv envp : List (List UInt8))

/-- The layout of `build_argv_on_stack`, which counts at most 64 entries of each
array. -/
def argvLayout : ArgvLayout :=
  let argc := min argv.length 64
  let argvNullOffset := 8 + argc * 8
  let envpSlotBase := argvNullOffset + 8
  ⟨argc, argvNullOffset, envpSlotBase, envpSlotBase + min envp.length 64 * 8⟩

/-- The page that `build_argv_on_stack` leaves. -/
def stackPage (pageVa : Nat) : Page :=
  let layout := argvLayout argv envp
  let withArgc := splice (fun _ => 0) 0 (leBytes 8 layout.argc)
  let (withArgv, cursor) :=
    writeStringArray pageVa argv 8 (withArgc, layout.envpNullOffset + 8)
  let ended := splice withArgv layout.argvNullOffset (leBytes 8 0)
  let (withEnvp, _) := writeStringArray pageVa envp layout.envpSlotBase (ended, cursor)
  pageOfBuffer (splice withEnvp layout.envpNullOffset (leBytes 8 0))

/-- Every slot that `write_string_array` writes is in the page.  It writes one for
each string, also for those past the 64 that are counted. -/
def slotsFit : Bool :=
  8 + argv.length * 8 ≤ 4096 && (argvLayout argv envp).envpSlotBase + envp.length * 8 ≤ 4096

end

/-- The physical pages of the vDSO. -/
structure Vdso where
  code : Word
  data : Word

structure LoadedImage where
  entryPoint : Nat
  initialStackPointer : Nat
  argc : Nat
  argvVa : Nat
  envpVa : Nat
  pageTable : Word
  stackDemandBase : Nat
  stackDemandTop : Nat
  brkStart : Nat
  deriving DecidableEq, Repr

/-- The page below the stack top. -/
def topPageVa (stackRandom : Nat) : Nat :=
  userStackTopBase - aslrPageOffset stackRandom - 4096

section

variable (mmfr0 : Word)

/-- Map a page that exists already; the result is ignored. -/
def mapShared (root : Word) (memory : PhysicalMemory) (pageVa page flags : Word) : PhysicalMemory :=
  match map mmfr0 memory root pageVa page flags with
  | .ok memory => memory
  | .error memory => memory

/-- `load_elf`.  The stack page is written after it is mapped, which makes no
difference to the result. -/
def loadElf (vdso : Vdso) (file : List UInt8) (argv envp : List (List UInt8))
    (random stackRandom : Nat) (memory : PhysicalMemory) :
    Except (Stop × PhysicalMemory) (LoadedImage × PhysicalMemory) :=
  match checkHeader file with
  | some reason => .error (.error reason, memory)
  | none =>
  match createTable memory with
  | none => .error (.error .outOfPhysicalMemory, memory)
  | some (root, memory) =>
  let base := loadBase file random
  match (List.range (programHeaderCount file)).foldlM (loadHeader mmfr0 file base root)
      (memory, 0) with
  | .error stopped => .error stopped
  | .ok (memory, segmentsEnd) =>
  match placePage mmfr0 root memory signalTrampolineVa (some trampolinePage)
      pageFlagsUserCode with
  | .error stopped => .error stopped
  | .ok memory =>
  let pageVa := topPageVa stackRandom
  match placePage mmfr0 root memory (BitVec.ofNat 64 pageVa)
      (some (stackPage argv envp pageVa)) pageFlagsUserData with
  | .error stopped => .error stopped
  | .ok memory =>
  if !slotsFit argv envp then .error (.wild, memory)
  else if 2 ^ 64 ≤ field file 24 8 + base then .error (.panic, memory)
  else
    let layout := argvLayout argv envp
    let stackTop := userStackTopBase - aslrPageOffset stackRandom
    let memory := mapShared mmfr0 root memory vdsoBaseVa vdso.code pageFlagsUserCode
    let memory := mapShared mmfr0 root memory vdsoDataVa vdso.data pageFlagsUserDataReadOnly
    .ok ({ entryPoint := field file 24 8 + base
           initialStackPointer := pageVa
           argc := layout.argc
           argvVa := pageVa + 8
           envpVa := pageVa + layout.envpSlotBase
           pageTable := root
           stackDemandBase := stackTop - userStackPages * 4096
           stackDemandTop := stackTop
           brkStart := alignUp segmentsEnd }, memory)

end

end Bazzulto.Loader
