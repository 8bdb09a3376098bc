/-
  Vfs/Dirents.lean --- listing a directory with `sys_getdents64`.

  A call fills the user's buffer with records until the next one does not fit,
  and stores in the descriptor how far it came.  The loop counts an entry before
  it asks whether its record fits, so the entry at which a call stops is the one
  the next call skips.

  A record is what a reader of the buffer makes of it: its length field leads to
  the next record, and the name ends at the first NUL inside the record.  The
  length field has sixteen bits and the record's size is cut down to them.
  `d_off` is written but means nothing to a reader that only goes forward.
-/
import Bazzulto.Foundation.Bytes
import Bazzulto.Vfs.Syscall

set_option autoImplicit false

namespace Bazzulto.Vfs

open Foundation List

/-- `DirEntry`, what `readdir` answers at an index.  Names come from paths that end
at their first NUL. -/
structure DirEntry where
  name : List UInt8
  inodeType : InodeType
  inodeNumber : UInt64
  name_nul : 0 ∉ name

/-- What the call reads of an `InoFile` descriptor, the directory's contents
included. -/
structure OpenDir where
  inodeType : InodeType
  entries : List DirEntry
  position : Nat

def dtype : InodeType → UInt8
  | .directory => 4
  | .regularFile => 8
  | .charDevice => 2
  | .fifo => 1
  | .symlink => 10

section

variable (entry : DirEntry)

def recordSize : Nat := (19 + entry.name.length + 1 + 7) / 8 * 8

/-- The stores of one round, each behind the one before.  The bytes up to the
record's size keep what the buffer held. -/
def record (index : Nat) : List UInt8 :=
  leBytes 8 entry.inodeNumber.toNat ++ (leBytes 8 index ++ (leBytes 2 (recordSize entry) ++
    ([dtype entry.inodeType] ++ (entry.name ++ [0]))))

/-- What a reader learns of an entry: `d_ino`, `d_type` and `d_name`. -/
def DirEntry.seen : Nat × UInt8 × List UInt8 :=
  (entry.inodeNumber.toNat, dtype entry.inodeType, entry.name)

end

section

variable (bufPtr bufLen : Nat)

/-- The loop over the entries from `index` on; nothing if not even one fits. -/
def fill : List DirEntry → (index written : Nat) → Buffer → Option (Nat × Nat × Buffer)
  | [], index, written, memory => some (written, index, memory)
  | entry :: rest, index, written, memory =>
    if written + recordSize entry > bufLen then
      if written = 0 then none else some (written, index + 1, memory)
    else
      fill rest (index + 1) (written + recordSize entry)
        (splice memory (bufPtr + written) (record entry (index + 1)))

/-- `sys_getdents64`: the answer, the descriptor and the user's memory. -/
def sysGetdents64 (fd : Int) (file : Option OpenDir) (memory : Buffer) :
    Int × Option OpenDir × Buffer :=
  if fd < 0 then (EBADF, file, memory)
  else if !validateUserPointer bufPtr bufLen then (EINVAL, file, memory)
  else match file with
    | none => (EBADF, file, memory)
    | some dir =>
      if dir.inodeType ≠ .directory then (-20, file, memory)
      else match fill bufPtr bufLen (dir.entries.drop dir.position) dir.position 0 memory with
        | none => (EINVAL, file, memory)
        | some (written, index, memory) =>
          (written, some { dir with position := index }, memory)

end

/-- A reader of the records between `start` and `stop`; nothing if one of them has
no name inside its length or leaves the range. -/
def readRecords (memory : Buffer) (stop : Nat) : (fuel start : Nat) →
    Option (List (Nat × UInt8 × List UInt8))
  | 0, start => if start = stop then some [] else none
  | fuel + 1, start =>
    if start = stop then some []
    else
      let size := leValue (slice memory (start + 16) 2)
      let text := slice memory (start + 19) (size - 19)
      if 0 ∈ text ∧ start + size ≤ stop then
        (readRecords memory stop fuel (start + size)).map
          ((leValue (slice memory start 8), memory (start + 18), text.takeWhile (· ≠ 0)) :: ·)
      else none

/-- A buffer handed to one call, with all of the user's memory at that time. -/
structure UserBuffer where
  memory : Buffer
  ptr : Nat
  len : Nat
  valid : validateUserPointer ptr len = true

/-- What `calls` calls, from the `turn`-th buffer on and up to the first answer 0,
list. -/
def listing (fd : Nat) (buffers : Nat → UserBuffer) : (calls turn : Nat) → Option OpenDir →
    Option (List (Nat × UInt8 × List UInt8))
  | 0, _, _ => none
  | calls + 1, turn, file =>
    let buffer := buffers turn
    let (result, file, memory) := sysGetdents64 buffer.ptr buffer.len fd file buffer.memory
    if result < 0 then none
    else if result = 0 then some []
    else
      (readRecords memory (buffer.ptr + result.toNat) result.toNat buffer.ptr).bind fun seen =>
        (listing fd buffers calls (turn + 1) file).map (seen ++ ·)

variable {entry : DirEntry} {entries : List DirEntry} {memory memory' : Buffer}
  {bufPtr bufLen index index' written written' start stop fuel calls turn position fd : Nat}
  {buffers : Nat → UserBuffer} {found : List (Nat × UInt8 × List UInt8)}

theorem record_length : (record entry index).length = 20 + entry.name.length := by
  simp [record]
  omega

/-- The loop leaves alone what lies before its next record and behind the
buffer. -/
theorem fill_outside {i : Nat}
    (h : fill bufPtr bufLen entries index written memory = some (written', index', memory'))
    (hi : i < bufPtr + written ∨ bufPtr + bufLen ≤ i) : memory' i = memory i := by
  fun_induction fill bufPtr bufLen entries index written memory with
  | case1 => cases h; rfl
  | case2 => cases h
  | case3 => cases h; rfl
  | case4 entry rest index written memory hfits ih =>
    have hsize : 20 + entry.name.length ≤ recordSize entry := by unfold recordSize; omega
    rw [ih h (by omega), splice_outside (by rw [record_length]; omega)]

/-- A reader at a record sees the entry, provided the size fits its field. -/
theorem readRecords_record
    (hrecord : slice memory start (20 + entry.name.length) = record entry index)
    (hstop : start + recordSize entry ≤ stop) :
    readRecords memory stop (fuel + 1) start =
      if recordSize entry < 2 ^ 16 then
        (readRecords memory stop fuel (start + recordSize entry)).map (entry.seen :: ·)
      else none := by
  have hsize : recordSize entry = (19 + entry.name.length + 1 + 7) / 8 * 8 := rfl
  -- the fields are consecutive runs of the record
  rw [show 20 + entry.name.length = 8 + (8 + (2 + (1 + (entry.name.length + 1)))) by omega,
    slice_add, slice_add, slice_add, slice_add] at hrecord
  obtain ⟨hino, hrecord⟩ := append_inj hrecord (by simp)
  obtain ⟨-, hrecord⟩ := append_inj hrecord (by simp)
  obtain ⟨hlen, hrecord⟩ := append_inj hrecord (by simp)
  obtain ⟨htype, hname⟩ := append_inj hrecord (by simp)
  have htype : memory (start + 18) = dtype entry.inodeType := by simpa [slice] using htype
  have hino : leValue (slice memory start 8) = entry.inodeNumber.toNat := by
    rw [hino, leValue_leBytes]
    exact Nat.mod_eq_of_lt entry.inodeNumber.toNat_lt
  have hlen : leValue (slice memory (start + 16) 2) = recordSize entry % 2 ^ 16 := by
    rw [hlen, leValue_leBytes]
    rfl
  have hne : start ≠ stop := by omega
  rw [readRecords, if_neg hne]
  simp only [hlen, hino, htype]
  by_cases hsmall : recordSize entry < 2 ^ 16
  · obtain ⟨pad, hpad⟩ : ∃ pad, recordSize entry - 19 = entry.name.length + 1 + pad :=
      ⟨recordSize entry - 20 - entry.name.length, by omega⟩
    have htext : slice memory (start + 19) (recordSize entry - 19) =
        entry.name ++ 0 :: slice memory (start + 19 + (entry.name.length + 1)) pad := by
      rw [hpad, slice_add, hname, append_assoc]
      rfl
    rw [if_pos hsmall, Nat.mod_eq_of_lt hsmall, htext, if_pos ⟨by simp, hstop⟩,
      takeWhile_append_of_pos fun byte hbyte =>
        decide_eq_true (ne_of_mem_of_not_mem hbyte entry.name_nul)]
    simp [DirEntry.seen]
  · have hcut : recordSize entry % 2 ^ 16 - 19 ≤ entry.name.length := by omega
    obtain ⟨_, hrest⟩ := Nat.exists_eq_add_of_le hcut
    rw [slice_add] at hname
    have hfirst := (append_inj hname (by simp)).1
    rw [hrest, slice_add] at hfirst
    rw [if_neg hsmall, if_neg]
    rintro ⟨hmem, -⟩
    exact entry.name_nul (hfirst ▸ mem_append_left _ hmem)

/-- A call counts the entry at which it stops.  Its buffer reads as the entries that
fit, if each size fits its field. -/
theorem fill_read (bufPtr index : Nat) (memory : Buffer) (hroom : written ≤ bufLen)
    (hlongest : ∀ entry ∈ entries, recordSize entry ≤ bufLen) :
    ∃ fitting rest written' memory', entries = fitting ++ rest ∧
      fill bufPtr bufLen entries index written memory =
        some (written', index + fitting.length + min 1 rest.length, memory') ∧
      written + fitting.length ≤ written' ∧
      (rest = [] ↔ written + (entries.map recordSize).sum ≤ bufLen) ∧
      ∀ fuel, fitting.length ≤ fuel →
        readRecords memory' (bufPtr + written') fuel (bufPtr + written) =
          if ∀ entry ∈ fitting, recordSize entry < 2 ^ 16 then some (fitting.map DirEntry.seen)
          else none := by
  fun_induction fill bufPtr bufLen entries index written memory with
  | case1 index written memory =>
    refine ⟨[], [], written, memory, rfl, rfl, le_rfl, by simpa using hroom, fun fuel _ => ?_⟩
    cases fuel <;> simp [readRecords]
  | case2 entry rest index memory hfull =>
    have hfits := hlongest entry mem_cons_self
    omega
  | case3 entry rest index written memory hfull =>
    refine ⟨[], entry :: rest, written, memory, rfl, rfl, le_rfl, by simp; omega, fun fuel _ => ?_⟩
    cases fuel <;> simp [readRecords]
  | case4 entry rest index written memory hfits ih =>
    obtain ⟨fitting, later, written', memory', rfl, hfill, _, hall, hread⟩ :=
      ih (by omega) fun other hother => hlongest other (mem_cons_of_mem _ hother)
    have hsize : 20 + entry.name.length ≤ recordSize entry := by unfold recordSize; omega
    have hrecord : slice memory' (bufPtr + written) (20 + entry.name.length) =
        record entry (index + 1) := by
      have hwrite := slice_splice memory (bufPtr + written) (record entry (index + 1))
      rw [record_length] at hwrite
      rw [← hwrite]
      exact slice_congr fun i hi => fill_outside hfill (by omega)
    refine ⟨entry :: fitting, later, written', memory', rfl, ?_, ?_, ?_, ?_⟩
    · rw [hfill, length_cons, Nat.add_right_comm index, Nat.add_assoc index]
    · rw [length_cons]
      omega
    · rw [hall, map_cons, sum_cons, Nat.add_assoc]
    rintro (_ | fuel) hfuel
    · cases hfuel
    · rw [readRecords_record hrecord (by omega), Nat.add_assoc bufPtr,
        hread fuel (Nat.le_of_succ_le_succ hfuel)]
      simp [ite_and]

section

variable (hlongest : ∀ turn, ∀ entry ∈ entries, recordSize entry ≤ (buffers turn).len)
include hlongest

/-- What a listing begins with, and from where it goes on. -/
theorem listing_turn (fd calls turn position : Nat) :
    ∃ fitting rest tail, entries.drop position = fitting ++ rest ∧
      (rest = [] ↔ ((entries.drop position).map recordSize).sum ≤ (buffers turn).len) ∧
      (tail = some [] ∨ tail = listing fd buffers calls (turn + 1)
        (some ⟨.directory, entries, position + fitting.length + min 1 rest.length⟩)) ∧
      listing fd buffers (calls + 1) turn (some ⟨.directory, entries, position⟩) =
        if ∀ entry ∈ fitting, recordSize entry < 2 ^ 16 then
          tail.map (fitting.map DirEntry.seen ++ ·)
        else none := by
  obtain ⟨fitting, rest, written, memory, hentries, hfill, _, hall, hread⟩ :=
    fill_read (buffers turn).ptr position (buffers turn).memory (Nat.zero_le _)
      fun entry (hentry : entry ∈ entries.drop position) =>
        hlongest turn entry (mem_of_mem_drop hentry)
  have hcall : sysGetdents64 (buffers turn).ptr (buffers turn).len fd
      (some ⟨.directory, entries, position⟩) (buffers turn).memory = ((written : Int),
        some ⟨.directory, entries, position + fitting.length + min 1 rest.length⟩, memory) := by
    simp [sysGetdents64, (buffers turn).valid, hfill]
  rw [listing]
  simp only [hcall]
  rw [if_neg (by omega)]
  by_cases hzero : written = 0
  · obtain rfl : fitting = [] := length_eq_zero_iff.mp (by omega)
    exact ⟨[], rest, some [], hentries, by simpa using hall, .inl rfl, by simp [hzero]⟩
  refine ⟨fitting, rest, _, hentries, by simpa using hall, .inr rfl, ?_⟩
  have hread := hread written (by omega)
  rw [Nat.add_zero] at hread
  rw [if_neg (by omega), Int.toNat_natCast, hread]
  split <;> rfl

/-- A listing has no more records than there are entries. -/
theorem listing_length
    (h : listing fd buffers calls turn (some ⟨.directory, entries, position⟩) = some found) :
    found.length ≤ entries.length - position := by
  induction calls generalizing turn position found with
  | zero => cases h
  | succ calls ih =>
    obtain ⟨_, _, _, hentries, -, htail, hlisting⟩ :=
      listing_turn hlongest fd calls turn position
    have hlen := congrArg List.length hentries
    rw [length_drop, length_append] at hlen
    rw [hlisting] at h
    split at h
    · obtain ⟨_, rfl, rfl⟩ := Option.map_eq_some_iff.mp h
      rw [length_append, length_map]
      obtain htail | htail := htail
      · cases htail
        simp
        omega
      · have hle := ih htail.symm
        omega
    · cases h

/-- Repeated calls list a directory completely, as records a reader can follow and
without a store outside the buffers, exactly if the first buffer takes all records
and every size fits the sixteen bits of `d_reclen`. -/
theorem sysGetdents64_lists_iff :
    ((∃ calls, listing fd buffers calls 0 (some ⟨.directory, entries, 0⟩) =
        some (entries.map DirEntry.seen)) ∧
      ∀ bufPtr bufLen file memory i, i < bufPtr ∨ bufPtr + bufLen ≤ i →
        (sysGetdents64 bufPtr bufLen fd file memory).2.2 i = memory i) ↔
      (entries.map recordSize).sum ≤ (buffers 0).len ∧
        ∀ entry ∈ entries, recordSize entry < 2 ^ 16 := by
  constructor
  · rintro ⟨⟨_ | calls, hfound⟩, -⟩
    · cases hfound
    obtain ⟨fitting, rest, tail, hentries, hall, htail, hlisting⟩ :=
      listing_turn hlongest fd calls 0 0
    rw [drop_zero] at hentries hall
    rw [hlisting] at hfound
    split at hfound
    · obtain ⟨_, rfl, hlater⟩ := Option.map_eq_some_iff.mp hfound
      have hlength := congrArg List.length hlater
      simp only [hentries, length_append, length_map] at hlength
      -- a call that stopped early makes the next one skip an entry
      have hrest : rest = [] := by
        rw [← length_eq_zero_iff]
        obtain htail | htail := htail
        · cases htail
          rw [length_nil] at hlength
          omega
        · have hle := listing_length hlongest htail.symm
          rw [hentries, length_append] at hle
          omega
      refine ⟨hall.mp hrest, ?_⟩
      rwa [hentries, hrest, append_nil]
    · cases hfound
  · rintro ⟨hsum, hsmall⟩
    refine ⟨⟨2, ?_⟩, fun bufPtr bufLen file memory i hi => ?_⟩
    · obtain ⟨_, _, tail, hentries, hall, htail, hlisting⟩ :=
        listing_turn hlongest fd 1 0 0
      obtain rfl := hall.mpr hsum
      rw [drop_zero, append_nil] at hentries
      subst hentries
      have htail : tail = some [] := by
        obtain htail | htail := htail
        · exact htail
        · have hfd : ¬ (fd : Int) < 0 := by omega
          simpa [listing, sysGetdents64, hfd, (buffers 1).valid, fill] using htail
      rw [hlisting, if_pos hsmall, htail]
      simp
    · unfold sysGetdents64
      repeat' split
      all_goals first | rfl | exact fill_outside (by assumption) hi

end

def sampleEntries : List DirEntry :=
  [⟨[97], .regularFile, 7, by decide⟩, ⟨[98], .regularFile, 9, by decide⟩]

def sampleBuffer : UserBuffer := ⟨fun _ => 0xff, 4096, 24, by decide⟩

theorem sysGetdents64_lists_both :
    ∃ calls, listing 3 (fun _ => ⟨fun _ => 0xff, 4096, 48, by decide⟩) calls 0
      (some ⟨.directory, sampleEntries, 0⟩) = some [(7, 8, [97]), (9, 8, [98])] :=
  ((sysGetdents64_lists_iff fun _ => by decide).mpr (by decide)).1

/-- Two entries and buffers for one record: the second entry is never listed. -/
theorem sysGetdents64_skips_second :
    (∀ entry ∈ sampleEntries, recordSize entry ≤ sampleBuffer.len) ∧
      listing 3 (fun _ => sampleBuffer) 2 0 (some ⟨.directory, sampleEntries, 0⟩) =
        some [(7, 8, [97])] := by
  decide +kernel

end Bazzulto.Vfs
