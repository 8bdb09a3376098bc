/-
  Shell/Vars.lean --- parameters and variables of the shell.

  Embeds `VarStore` with `get` and `set`, `expand_special`, `is_valid_name`,
  `parse_assignment` and the decimal formats (userspace/programs/sh/src/vars.rs), and
  the part of `ShellState` that the modelled functions read (sh/src/main.rs).  An
  `i32` is a word of 32 bits.
-/
import Mathlib.Data.BitVec
import Mathlib.Data.List.Basic
import Bazzulto.Permission.Pattern

set_option autoImplicit false

namespace Bazzulto.Shell

/-! ## The store -/

structure VarFlags where
  exported : Bool
  readonly : Bool
  deriving DecidableEq, Repr

structure VarEntry where
  name : Text
  value : Text
  flags : VarFlags
  deriving DecidableEq, Repr

structure VarStore where
  vars : List VarEntry
  deriving DecidableEq, Repr

namespace VarStore

/-- `iter().rposition`: the last entry with a name. -/
def rposition (name : Text) : List VarEntry → Option Nat
  | [] => none
  | entry :: entries =>
    match rposition name entries with
    | some index => some (index + 1)
    | none => if entry.name = name then some 0 else none

def get (store : VarStore) (name : Text) : Option Text :=
  (rposition name store.vars).bind fun index => (store.vars[index]?).map VarEntry.value

/-- `set`: the message for a read-only variable. -/
def set (store : VarStore) (name value : Text) : Except Text VarStore :=
  match (rposition name store.vars).bind fun index =>
      (store.vars[index]?).map fun entry => (index, entry) with
  | some (index, entry) =>
    if entry.flags.readonly then .error "read-only variable".toList
    else .ok ⟨store.vars.set index { entry with value }⟩
  | none => .ok ⟨store.vars ++ [⟨name, value, ⟨false, false⟩⟩]⟩

end VarStore

/-! ## The state of the shell -/

inductive LoopSignal where
  | none
  | break (levels : Nat)
  | continue (levels : Nat)
  deriving DecidableEq, Repr

structure ShellState where
  lastExitStatus : BitVec 32
  shellName : Text
  shellPid : Nat
  lastBackgroundPid : Option (BitVec 32)
  positionalParams : List Text
  vars : VarStore
  isInteractive : Bool
  loopSignal : LoopSignal
  returnSignal : Option (BitVec 32)
  optionErrexit : Bool
  optionNounset : Bool
  optionNoexec : Bool
  deriving DecidableEq, Repr

/-- A shell with the default `IFS` and `HOME`. -/
def sampleState : ShellState where
  lastExitStatus := 0#32
  shellName := "sh".toList
  shellPid := 2
  lastBackgroundPid := none
  positionalParams := []
  vars := ⟨[⟨"IFS".toList, [' ', '\t', '\n'], ⟨false, false⟩⟩,
    ⟨"HOME".toList, "/home/user".toList, ⟨true, false⟩⟩]⟩
  isInteractive := true
  loopSignal := .none
  returnSignal := none
  optionErrexit := false
  optionNounset := false
  optionNoexec := false

/-! ## Decimal formats -/

def formatU32 (n : Nat) : Text := Nat.toDigits 10 (n % 2 ^ 32)

def formatI32 (n : BitVec 32) : Text :=
  if 0 ≤ n.toInt then formatU32 n.toNat else '-' :: formatU32 (-n.toInt).toNat

/-- `format_i64`, whose absolute value is taken without sign. -/
def formatI64 (n : BitVec 64) : Text :=
  if n.toInt < 0 then '-' :: Nat.toDigits 10 (-n).toNat else Nat.toDigits 10 n.toNat

/-! ## Special parameters and names -/

def expandSpecial (char : Char) (state : ShellState) : Text :=
  match char with
  | '@' | '*' => [' '].intercalate state.positionalParams
  | '#' => formatU32 state.positionalParams.length
  | '?' => formatI32 state.lastExitStatus
  | '-' => []
  | '$' => formatU32 state.shellPid
  | '!' =>
    match state.lastBackgroundPid with
    | some pid => formatU32 pid.toNat
    | none => []
  | '0' => state.shellName
  | _ => []

/-- A character of a name. -/
def isNameChar (char : Char) : Bool := char = '_' || char.isAlphanum

def isValidName : Text → Bool
  | [] => false
  | char :: rest => (char = '_' || char.isAlpha) && rest.all isNameChar

/-- `parse_assignment`: split at the first `=`, if a name stands before it. -/
def parseAssignment (word : Text) : Option (Text × Text) :=
  match word.dropWhile (· ≠ '=') with
  | [] => none
  | _ :: value =>
    let name := word.takeWhile (· ≠ '=')
    if isValidName name then some (name, value) else none

end Bazzulto.Shell
