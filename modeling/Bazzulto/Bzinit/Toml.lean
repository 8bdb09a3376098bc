/-
  Bzinit/Toml.lean --- the parser of service files.

  Embeds `parse` and its helpers (userspace/system/bzinit/src/toml_parser.rs).  A `str` is
  the list of its UTF-8 bytes, which is what the source works on: lines, spaces, the
  equals sign, quotes, brackets and commas are all found as single bytes.  A slice of a
  `str` that does not start and stop at the boundary of a character is a fault.

  The loops over positions are written as operations on the bytes that are left.
-/
import Bazzulto.Foundation.Checked
import Bazzulto.Vfs.Path
import Mathlib.Data.List.DropRight

set_option autoImplicit false

namespace Bazzulto.Bzinit

open Foundation

/-- A `str`: its bytes. -/
abbrev Str := List UInt8

namespace Str

/-- A literal of the source, all of it ASCII. -/
def ascii (text : String) : Str := text.toList.map Char.toUInt8

def fromUtf8 (bytes : List UInt8) : Option Str :=
  if (Vfs.fromUtf8 bytes).isSome then some bytes else none

def isCharBoundary (text : Str) (index : Nat) : Bool :=
  match text[index]? with
  | none => index == text.length
  | some byte => index == 0 || byte < 0x80 || 0xC0 ≤ byte

/-- `&text[start..stop]`. -/
def slice (text : Str) (start stop : Nat) : Checked Str :=
  if text.isCharBoundary start ∧ text.isCharBoundary stop then Checked.range text start stop
  else .error .slice

/-- `str::parse::<u32>`: digits, with a plus sign before them if one likes. -/
def parseU32 (text : Str) : Option UInt32 :=
  let digits := if text.head? = some '+'.toUInt8 then text.tail else text
  if digits = [] then none
  else
    (digits.foldlM (fun result byte =>
        if '0'.toUInt8 ≤ byte ∧ byte ≤ '9'.toUInt8 then
          let next := result * 10 + (byte - '0'.toUInt8).toNat
          if next < 2 ^ 32 then some next else none
        else none)
      0).map UInt32.ofNat

end Str

open Str

inductive TomlValue where
  | string (value : Str)
  | array (items : List Str)
  deriving DecidableEq, Repr

/-- `ParsedToml`: the triples of section, key and value in order. -/
structure ParsedToml where
  entries : List (Str × Str × TomlValue) := []
  deriving DecidableEq, Repr

namespace ParsedToml

/-- `get_string`: the first value of the key that is a string. -/
def getString (toml : ParsedToml) (sect key : Str) : Option Str :=
  toml.entries.findSome? fun entry =>
    if entry.1 = sect ∧ entry.2.1 = key then
      match entry.2.2 with
      | .string value => some value
      | .array _ => none
    else none

/-- `get_array`: the first value of the key that is an array, or none. -/
def getArray (toml : ParsedToml) (sect key : Str) : List Str :=
  (toml.entries.findSome? fun entry =>
    if entry.1 = sect ∧ entry.2.1 = key then
      match entry.2.2 with
      | .string _ => none
      | .array items => some items
    else none).getD []

end ParsedToml

def isWs (byte : UInt8) : Bool :=
  byte == ' '.toUInt8 || byte == '\t'.toUInt8 || byte == '\r'.toUInt8 || byte == '\n'.toUInt8

def trimAscii (text : Str) : Str := (text.dropWhile isWs).rdropWhile isWs

def parseQuotedString (input : Str) : Checked Str :=
  let stripped := trimAscii input
  if 2 ≤ stripped.length ∧ stripped.head? = some '\x22'.toUInt8 ∧
      stripped.getLast? = some '\x22'.toUInt8 then
    stripped.slice 1 (stripped.length - 1)
  else pure stripped

def parseStringArray (input : Str) : Checked (List Str) := do
  let trimmed := trimAscii input
  if 2 ≤ trimmed.length then
    -- what stands last is cut off, whether it is a bracket or not
    let inner ← trimmed.slice 1 (trimmed.length - 1)
    (inner.splitOn ','.toUInt8).foldlM
      (fun result piece =>
        match fromUtf8 piece with
        | none => pure result
        | some item => do
            let value ← parseQuotedString (trimAscii item)
            pure (if value = [] then result else result ++ [value]))
      []
  else pure []

/-- The value behind an equals sign, by its first byte. -/
def parseValue (value : Str) : Checked TomlValue :=
  if value.head? = some '['.toUInt8 then .array <$> parseStringArray value
  else if value.head? = some '\x22'.toUInt8 then .string <$> parseQuotedString value
  else pure (.string value)

/-- The loop body of `parse`: `current_section` and the entries after one line. -/
def parseLine (state : Str × ParsedToml) (rawBytes : List UInt8) : Checked (Str × ParsedToml) :=
  match fromUtf8 rawBytes with
  | none => pure state
  | some rawLine => do
      let line := trimAscii rawLine
      if line = [] ∨ line.head? = some '#'.toUInt8 then pure state
      else if line.head? = some '['.toUInt8 ∧ line.getLast? = some ']'.toUInt8 then
        pure (← line.slice 1 (line.length - 1), state.2)
      else
        let eqPos := line.idxOf '='.toUInt8
        if eqPos = line.length then pure state
        else
          let key := trimAscii (← line.slice 0 eqPos)
          let value := trimAscii (← line.slice (eqPos + 1) line.length)
          if key = [] ∨ value = [] then pure state
          else
            let parsed ← parseValue value
            pure (state.1, ⟨state.2.entries ++ [(state.1, key, parsed)]⟩)

/-- `parse`.  What comes behind the last line break ends the loop if it is empty; it would
be skipped as a blank line. -/
def parse (input : List UInt8) : Checked ParsedToml :=
  Prod.snd <$> (input.splitOn '\n'.toUInt8).foldlM parseLine ([], {})

end Bazzulto.Bzinit
