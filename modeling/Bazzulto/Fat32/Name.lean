/-
  Fat32/Name.lean --- file names and the 32-byte directory entries that hold
  them.

  A name is its UTF-8 bytes, as the driver compares names.  A directory entry
  is the list of its 32 bytes: an 8.3 entry has eleven name bytes, the
  attributes at offset 11, the case flags at 12, the first cluster in two
  halves at 20 and 26 and the size at 28; a long-name entry holds thirteen
  16-bit characters.
-/
import Bazzulto.Foundation.Bytes

set_option autoImplicit false

namespace Bazzulto.Fat32

open Bazzulto.Foundation List UInt8

/-- A file name, as UTF-8. -/
abbrev Name := List UInt8

/-- The 32 bytes of a directory entry. -/
abbrev RawEntry := List UInt8

def dirEntryFree : UInt8 := 0x00
def dirEntryDeleted : UInt8 := 0xE5
def attrDirectory : UInt8 := 0x10
def attrArchive : UInt8 := 0x20
def attrLongName : UInt8 := 0x0F
def attrLongNameMask : UInt8 := 0x3F
def lfnLastEntry : UInt8 := 0x40

namespace RawEntry

variable (raw : RawEntry)

def firstByte : UInt8 := raw.getD 0 0
def attr : UInt8 := raw.getD 11 0
def ntRes : UInt8 := raw.getD 12 0

/-- The little-endian 16-bit field at an offset. -/
def halfWord (offset : Nat) : Nat :=
  (raw.getD offset 0).toNat + 256 * (raw.getD (offset + 1) 0).toNat

/-- `entry_cluster`. -/
def cluster : Nat := halfWord raw 20 * 2 ^ 16 + halfWord raw 26

/-- The `file_size` field. -/
def fileSize : Nat := leValue ((raw.drop 28).take 4)

def isLfn : Bool := attr raw &&& attrLongNameMask == attrLongName

def isDirectory : Bool := attr raw &&& attrDirectory != 0

end RawEntry

/-! ## Case and separators -/

def isUpper (byte : UInt8) : Bool := decide (65 ≤ byte) && decide (byte ≤ 90)
def isLower (byte : UInt8) : Bool := decide (97 ≤ byte) && decide (byte ≤ 122)
def toLower (byte : UInt8) : UInt8 := if isUpper byte then byte + 32 else byte
def toUpper (byte : UInt8) : UInt8 := if isLower byte then byte - 32 else byte

def namesMatchCaseInsensitive (a b : Name) : Bool := a.map toLower == b.map toLower

def dot : UInt8 := 0x2E
def space : UInt8 := 0x20

section

variable (name : Name)

/-- The parts before and after the first dot. -/
def splitFirstDot : Name × Name :=
  match name.span (· != dot) with
  | (base, []) => (base, [])
  | (base, _ :: ext) => (base, ext)

/-- The parts before and after the last dot. -/
def splitLastDot : Name × Name :=
  match name.reverse.span (· != dot) with
  | (_, []) => (name, [])
  | (ext, _ :: base) => (base.reverse, ext.reverse)

/-! ## UTF-8 -/

/-- `String::push` of a character below 2^16. -/
def pushChar (code : Nat) : Name :=
  if code < 0x80 then [ofNat code]
  else if code < 0x800 then [ofNat (0xC0 + code / 64), ofNat (0x80 + code % 64)]
  else
    [ofNat (0xE0 + code / 4096), ofNat (0x80 + code / 64 % 64),
      ofNat (0x80 + code % 64)]

/-- `lfn_char_to_utf8`: surrogates become U+FFFD. -/
def lfnCharToUtf8 (unit : Nat) : Name :=
  if 0xD800 ≤ unit ∧ unit < 0xE000 then pushChar 0xFFFD else pushChar unit

/-- The characters of a name in the encoding of long-name entries: ASCII as it
is, everything else as a question mark.  A UTF-8 character has exactly one byte
that is not a continuation byte. -/
def nameUcs2 : List Nat :=
  (name.filter fun byte => !(decide (0x80 ≤ byte) && decide (byte < 0xC0))).map fun byte =>
    if byte < 0x80 then byte.toNat else 0x3F

/-! ## Short names -/

section

variable (short : List UInt8)

def shortNameToStr (ntRes : UInt8) : Name :=
  let part (bytes : List UInt8) (lower : Bool) : Name :=
    ((bytes.takeWhile (· != space)).map fun byte =>
      pushChar (if lower then toLower byte else byte).toNat).flatten
  let base := part (short.take 8) (ntRes &&& 0x08 != 0)
  if short.getD 8 space == space then base
  else base ++ dot :: part ((short.drop 8).take 3) (ntRes &&& 0x10 != 0)

/-- Exactly `width` bytes, padded with spaces. -/
def padTo (width : Nat) (bytes : List UInt8) : List UInt8 :=
  bytes.take width ++ replicate (width - bytes.length) space

/-- `name_to_short`: the eleven bytes and the case flags. -/
def nameToShort : List UInt8 × UInt8 :=
  let (base, ext) := splitFirstDot name
  let lowerOnly (part : Name) : Bool := !part.any isUpper && part.any isLower
  let ntRes : UInt8 := (if lowerOnly base then 0x08 else 0) ||| (if lowerOnly ext then 0x10 else 0)
  (padTo 8 (base.map toUpper) ++ padTo 3 (ext.map toUpper), ntRes)

/-- The bytes of `" +,;=[]"`. -/
def illegalShort : List UInt8 := [0x20, 0x2B, 0x2C, 0x3B, 0x3D, 0x5B, 0x5D]

def needsLfn : Bool :=
  let (base, ext) := splitLastDot name
  let mixed (part : Name) : Bool := part.any isUpper && part.any isLower
  decide (8 < base.length) || decide (3 < ext.length) || name.any illegalShort.contains ||
    mixed base || mixed ext

def lfnEntryCount : Nat := (name.length + 12) / 13

def vfatChecksum : UInt8 :=
  short.foldl (fun sum byte => ((sum &&& 1) <<< 7) + (sum >>> 1) + byte) 0

/-- The decimal digits `format!("{}", n)` prints. -/
def decimalDigits (n : Nat) : Name := (Nat.toDigits 10 n).map fun c => ofNat c.toNat

/-- The `n`-th alias `generate_short_alias` tries. -/
def shortAlias (n : Nat) : List UInt8 :=
  let (base, ext) := splitLastDot name
  let baseChars := ((base.filter fun c => !(illegalShort.contains c || c == dot)).map toUpper).take 6
  let suffix : Name := 0x7E :: decimalDigits n
  padTo 8 (baseChars.take (8 - suffix.length) ++ suffix) ++ padTo 3 (ext.map toUpper)

/-! ## Entries -/

/-- The 8.3 entry that is written for a file or directory. -/
def shortEntry (attr ntRes : UInt8) (firstCluster fileSize : Nat) : RawEntry :=
  short.take 11 ++ [attr, ntRes] ++ replicate 7 0 ++ leBytes 2 (firstCluster / 2 ^ 16) ++
    replicate 4 0 ++ leBytes 2 (firstCluster % 2 ^ 16) ++ leBytes 4 fileSize

/-- The thirteen characters of the long-name entry with ordinal `num`: the
name, a null and padding. -/
def lfnSegment (chars : List Nat) (num : Nat) : List Nat :=
  (range 13).map fun j =>
    let index := (num - 1) * 13 + j
    if index < chars.length then chars.getD index 0 else if index = chars.length then 0 else 0xFFFF

/-- The long-name entry with ordinal `num` of `count`. -/
def lfnEntry (chars : List Nat) (checksum : UInt8) (count num : Nat) : RawEntry :=
  let ord := ofNat num
  let units := (lfnSegment chars num).map (leBytes 2)
  [if num = count then ord ||| lfnLastEntry else ord] ++ (units.take 5).flatten ++
    [attrLongName, 0, checksum] ++ ((units.drop 5).take 6).flatten ++ [0, 0] ++
    (units.drop 11).flatten

/-- The long-name entries of a name, highest ordinal first.  Their number is
kept in a byte. -/
def lfnEntries : List RawEntry :=
  let count := lfnEntryCount name % 256
  (range count).reverse.map fun i =>
    lfnEntry (nameUcs2 name) (vfatChecksum short) count (i + 1)

end

end

/-- The characters of a long-name entry. -/
def lfnChars (raw : RawEntry) : List Nat :=
  ((range 5).map fun j => RawEntry.halfWord raw (1 + 2 * j)) ++
    ((range 6).map fun j => RawEntry.halfWord raw (14 + 2 * j)) ++
    (range 2).map fun j => RawEntry.halfWord raw (28 + 2 * j)

end Bazzulto.Fat32
