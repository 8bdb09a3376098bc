/-
  Shell/Parser.lean --- the command grammar.

  Embeds the syntax trees, `parse_compound_list` with every function below it and
  `serialize_list` (userspace/programs/sh/src/parser.rs).  A compound command is stored
  in the words of a `SimpleCommand` behind a tag, as the source does.  The position of
  the parser is the list of the tokens that are left.  Some loops of the source do not
  consume a token in every turn, so that the recursion is bounded by fuel.
-/
import Bazzulto.Shell.Lexer
import Bazzulto.Shell.Vars

set_option autoImplicit false

namespace Bazzulto.Shell

/-! ## Syntax trees -/

/-- `Redirect`: the descriptor and the word of each operator. -/
inductive Redirect where
  | stdinFrom (fd : Option Nat) (word : Text)
  | stdoutTo (fd : Option Nat) (word : Text)
  | stdoutAppend (fd : Option Nat) (word : Text)
  | stdoutNoclobber (fd : Option Nat) (word : Text)
  | dupOut (fd : Option Nat) (word : Text)
  | dupIn (fd : Option Nat) (word : Text)
  | readWrite (fd : Option Nat) (word : Text)
  | hereDoc (fd : Option Nat) (stripTabs : Bool) (word : Text)
  deriving DecidableEq, Repr

structure SimpleCommand where
  assignments : List Text
  words : List Text
  redirects : List Redirect
  deriving DecidableEq, Repr

structure Pipeline where
  negate : Bool
  commands : List SimpleCommand
  deriving DecidableEq, Repr

/-- `Separator`: the operator behind a pipeline. -/
inductive Separator where
  | semi
  | amp
  | and
  | or
  | end
  deriving DecidableEq, Repr

structure AndOrItem where
  pipeline : Pipeline
  separator : Separator
  deriving DecidableEq, Repr

abbrev CompoundList := List AndOrItem

/-! ## Serialisation -/

/-- A tag word: NUL and a name. -/
def tagWord (name : String) : Text := '\x00' :: name.toList

/-- A number among the words. -/
def countWord (count : Nat) : Text := Nat.toDigits 10 count

/-- `push_opt_fd`. -/
def optFdWord : Option Nat → Text
  | none => ['_']
  | some n => countWord n

def serializeRedirect : Redirect → List Text
  | .stdinFrom fd word => ["StdinFrom".toList, optFdWord fd, word]
  | .stdoutTo fd word => ["StdoutTo".toList, optFdWord fd, word]
  | .stdoutAppend fd word => ["StdoutAppend".toList, optFdWord fd, word]
  | .stdoutNoclobber fd word => ["StdoutNoclobber".toList, optFdWord fd, word]
  | .dupOut fd word => ["DupOut".toList, optFdWord fd, word]
  | .dupIn fd word => ["DupIn".toList, optFdWord fd, word]
  | .readWrite fd word => ["ReadWrite".toList, optFdWord fd, word]
  | .hereDoc fd stripTabs word =>
    ["HereDoc".toList, optFdWord fd, if stripTabs then ['1'] else ['0'], word]

/-- The tag of a separator. -/
def Separator.tag : Separator → Text
  | .and => tagWord "&&"
  | .or => tagWord "||"
  | .amp => tagWord "&"
  | .semi => tagWord ";"
  | .end => tagWord "end"

/-- One command of `serialize_list`. -/
def serializeCommand (command : SimpleCommand) : List Text :=
  countWord command.assignments.length :: command.assignments ++
    countWord command.words.length :: command.words ++
    countWord command.redirects.length :: command.redirects.flatMap serializeRedirect

def serializeList (list : CompoundList) : List Text :=
  list.flatMap fun item =>
    tagWord "cmd" :: (if item.pipeline.negate then tagWord "!" else []) ::
      countWord item.pipeline.commands.length ::
      item.pipeline.commands.flatMap serializeCommand ++ [item.separator.tag]

/-- A compound command as a simple one. -/
def compoundCommand (words : List Text) : SimpleCommand := ⟨[], words, []⟩

def makeCompoundSimple (tag : String) (body : CompoundList) : SimpleCommand :=
  compoundCommand (tagWord tag :: serializeList body)

def makeForSimple (variableName : Text) (wordList : Option (List Text)) (body : CompoundList) :
    SimpleCommand :=
  let words :=
    match wordList with
    | none => ["none".toList]
    | some words => ("some:".toList ++ countWord words.length) :: words
  compoundCommand
    (tagWord "for" :: variableName :: words ++ tagWord "body" :: serializeList body)

/-! ## The parser -/

inductive ParseError where
  | syntaxError (message : Text)
  | needMore
  deriving DecidableEq, Repr

/-- How a parse stops without a result. -/
inductive ParseStop where
  | error (error : ParseError)
  | outOfFuel
  deriving DecidableEq, Repr

/-- A parser consumes tokens. -/
abbrev Parser := StateT (List Token) (Except ParseStop)

namespace Parser

/-- `Err(ParseError::NeedMore)`. -/
def needMore {α : Type} : Parser α := throw (.error .needMore)

/-- `Err(ParseError::Syntax(..))`. -/
def malformed {α : Type} (message : String) : Parser α :=
  throw (.error (.syntaxError message.toList))

def peek : Parser (Option Token) := do return (← get).head?

def advance : Parser Unit := modify List.tail

def isAtEnd : Parser Bool := do return (← get).isEmpty

def skipNewlines : Parser Unit := modify (List.dropWhile (· = .newline))

def peekReserved (word : String) : Parser Bool := do return (← peek) = some (.word word.toList)

/-- Consume a reserved word, or fail as the compound commands do. -/
def expectReserved (word message : String) : Parser Unit := do
  if ← peekReserved word then advance
  else if ← isAtEnd then needMore
  else malformed message

theorem bind_of_ok {α β : Type} {parser : Parser α} {next : α → Parser β} {value : α}
    {tokens behind : List Token} (h : parser tokens = .ok (value, behind)) :
    (parser >>= next) tokens = next value behind := by
  simp [bind, StateT.bind, h, Except.bind]

variable (tokens : List Token)

theorem peek_apply : peek tokens = .ok (tokens.head?, tokens) := rfl

theorem isAtEnd_apply : isAtEnd tokens = .ok (tokens.isEmpty, tokens) := rfl

theorem skipNewlines_apply :
    skipNewlines tokens = .ok ((), tokens.dropWhile (· = .newline)) := rfl

theorem peekReserved_apply (word : String) :
    peekReserved word tokens = .ok (decide (tokens.head? = some (.word word.toList)), tokens) := rfl

theorem get_apply : (get : Parser (List Token)) tokens = .ok (tokens, tokens) :=
  rfl

end Parser

open Bazzulto.Shell.Parser

inductive ListContext where
  | topLevel
  | doDone
  | subshell
  | group
  | ifThen
  | ifBody
  | elseBody
  | caseBody
  deriving DecidableEq, Repr

/-- What ends a list in its context. -/
def ListContext.closes : ListContext → Option Token → Bool
  | .topLevel, token => token.isNone
  | .doDone, token => token = some (.word "done".toList)
  | .subshell, token => token = some .rParen
  | .group, token => token = some (.word "\x7d".toList)
  | .ifThen, token => token = some (.word "then".toList)
  | .ifBody, token =>
    token = some (.word "elif".toList) || token = some (.word "else".toList) ||
      token = some (.word "fi".toList)
  | .elseBody, token => token = some (.word "fi".toList)
  | .caseBody, token => token = some (.word "esac".toList)

/-! ## Simple commands -/

/-- The redirection that an operator makes of its word, and the message without one. -/
def redirectOf : Token → Option ((Text → Redirect) × String)
  | .redirIn fd => some (.stdinFrom fd, "expected filename after '<'")
  | .redirOut fd => some (.stdoutTo fd, "expected filename after '>'")
  | .redirAppend fd => some (.stdoutAppend fd, "expected filename after '>>'")
  | .redirOutNoclobber fd => some (.stdoutNoclobber fd, "expected filename after '>|'")
  | .redirDupOut fd => some (.dupOut fd, "expected fd or '-' after '>&'")
  | .redirDupIn fd => some (.dupIn fd, "expected fd or '-' after '<&'")
  | .redirReadWrite fd => some (.readWrite fd, "expected filename after '<>'")
  | .hereDoc fd stripTabs => some (.hereDoc fd stripTabs, "expected delimiter after '<<'")
  | _ => none

/-- The reserved words that end a simple command before its first word. -/
def closingWords : List Text :=
  ["\x7d".toList, "do".toList, "done".toList, "fi".toList, "then".toList, "elif".toList,
    "else".toList, "esac".toList, "in".toList]

/-- The loop of `parse_simple_command`: the command so far, and whether an assignment may
still come. -/
def simpleCommandLoop (command : SimpleCommand) (inAssignmentPosition : Bool) :
    List Token → Except ParseStop (SimpleCommand × List Token)
  | [] => .ok (command, [])
  | .word w :: rest =>
    if command.words.isEmpty && command.assignments.isEmpty && closingWords.contains w then
      .ok (command, .word w :: rest)
    else if inAssignmentPosition && (parseAssignment w).isSome then
      simpleCommandLoop { command with assignments := command.assignments ++ [w] } true rest
    else simpleCommandLoop { command with words := command.words ++ [w] } false rest
  | token :: rest =>
    match redirectOf token with
    | none => .ok (command, token :: rest)
    | some (redirect, message) =>
      match rest with
      | .word w :: behind =>
        simpleCommandLoop
          { command with redirects := command.redirects ++ [redirect w] } false behind
      | _ => .error (.error (.syntaxError message.toList))

def parseSimpleCommand : Parser SimpleCommand := fun tokens =>
  simpleCommandLoop ⟨[], [], []⟩ true tokens

/-- `is_funcdef`, on the tokens behind the name. -/
def isFuncdef (behind : List Token) : Bool :=
  behind.head? = some .lParen &&
    (behind.tail.dropWhile (· = .newline)).head? = some .rParen

/-- The word list of `parse_for`. -/
def forWords : List Token → List Text × List Token
  | .word w :: rest =>
    let (words, behind) := forWords rest
    (w :: words, behind)
  | .semi :: rest => ([], rest)
  | .newline :: rest => ([], rest)
  | tokens => ([], tokens)

/-- The patterns of a clause of `parse_case`. -/
def casePatterns : List Token → Except ParseStop (List Text × List Token)
  | .word w :: .pipe :: rest => do
      let (patterns, behind) ← casePatterns rest
      return (w :: patterns, behind)
  | .word w :: .rParen :: rest => .ok ([w], rest)
  | [.word _] => .error (.error .needMore)
  | .word _ :: _ =>
    .error (.error (.syntaxError "'case': expected ')' after pattern".toList))
  | _ => .error (.error (.syntaxError "'case': expected pattern".toList))

/-! ## The grammar -/

mutual

/-- `parse_list`.  At the top level the list ends with its first `;`, `&` or line end. -/
def parseList : Nat → ListContext → Parser CompoundList
  | 0, _ => throw .outOfFuel
  | fuel + 1, context => do
      skipNewlines
      if context.closes (← peek) then return []
      if ← isAtEnd then needMore
      let (pipeline, separator) ← parseAndOr fuel
      let item : AndOrItem := ⟨pipeline, separator⟩
      if separator = .and ∨ separator = .or ∨ context ≠ .topLevel then
        return item :: (← parseList fuel context)
      return [item]

def parseAndOr : Nat → Parser (Pipeline × Separator)
  | 0 => throw .outOfFuel
  | fuel + 1 => do
      let pipeline ← parsePipeline fuel
      match ← peek with
      | some .ampAmp => advance; return (pipeline, .and)
      | some .pipeOr => advance; return (pipeline, .or)
      | some .amp => advance; return (pipeline, .amp)
      | some .semi => advance; return (pipeline, .semi)
      | some .newline => advance; return (pipeline, .semi)
      | _ => return (pipeline, .end)

def parsePipeline : Nat → Parser Pipeline
  | 0 => throw .outOfFuel
  | fuel + 1 => do
      let negate ← peekReserved "!"
      if negate then advance
      let command ← parseSimpleOrCompound fuel
      return ⟨negate, command :: (← pipelineLoop fuel)⟩

/-- The further stages of `parse_pipeline`. -/
def pipelineLoop : Nat → Parser (List SimpleCommand)
  | 0 => throw .outOfFuel
  | fuel + 1 => do
      if (← peek) = some .pipe then
        advance
        skipNewlines
        let command ← parseSimpleOrCompound fuel
        return command :: (← pipelineLoop fuel)
      return []

def parseSimpleOrCompound : Nat → Parser SimpleCommand
  | 0 => throw .outOfFuel
  | fuel + 1 => do
      match ← get with
      | .lParen :: _ => parseSubshell fuel
      | .word w :: behind =>
        if w = "\x7b".toList then parseGroup fuel
        else if w = "for".toList then parseFor fuel
        else if w = "if".toList then parseIf fuel
        else if w = "while".toList then parseWhile fuel false
        else if w = "until".toList then parseWhile fuel true
        else if w = "case".toList then parseCase fuel
        else if isFuncdef behind then parseFuncdef fuel
        else parseSimpleCommand
      | _ => parseSimpleCommand

def parseSubshell : Nat → Parser SimpleCommand
  | 0 => throw .outOfFuel
  | fuel + 1 => do
      advance
      skipNewlines
      let body ← parseList fuel .subshell
      match ← peek with
      | some .rParen => advance
      | none => needMore
      | _ => malformed "expected ')' to close subshell"
      return makeCompoundSimple "subshell" body

def parseGroup : Nat → Parser SimpleCommand
  | 0 => throw .outOfFuel
  | fuel + 1 => do
      advance
      skipNewlines
      let body ← parseList fuel .group
      expectReserved "\x7d" "expected '\x7d' to close group"
      return makeCompoundSimple "group" body

def parseFor : Nat → Parser SimpleCommand
  | 0 => throw .outOfFuel
  | fuel + 1 => do
      advance
      let token ← peek
      advance
      let variableName ←
        match token with
        | some (.word name) =>
          if isReservedWord name then malformed "'for': reserved word as variable name"
          else pure name
        | none => needMore
        | _ => malformed "'for': expected variable name"
      skipNewlines
      let mut words : Option (List Text) := none
      if ← peekReserved "in" then
        advance
        let (wordList, behind) := forWords (← get)
        set behind
        words := some wordList
      else if (← peek) = some .semi ∨ (← peek) = some .newline then advance
      skipNewlines
      expectReserved "do" "'for': expected 'do'"
      skipNewlines
      let body ← parseList fuel .doDone
      expectReserved "done" "'for': expected 'done'"
      return makeForSimple variableName words body

def parseIf : Nat → Parser SimpleCommand
  | 0 => throw .outOfFuel
  | fuel + 1 => do
      advance
      let condition ← parseList fuel .ifThen
      expectReserved "then" "'if': expected 'then'"
      skipNewlines
      let thenBody ← parseList fuel .ifBody
      let elifWords ← elifLoop fuel
      let mut elseWords : List Text := []
      if ← peekReserved "else" then
        advance
        skipNewlines
        let elseBody ← parseList fuel .elseBody
        elseWords := tagWord "else" :: serializeList elseBody
      expectReserved "fi" "'if': expected 'fi'"
      return compoundCommand
        (tagWord "if" :: serializeList condition ++ tagWord "then" :: serializeList thenBody ++
          elifWords ++ elseWords ++ [tagWord "fi"])

/-- The `elif` clauses of `parse_if`. -/
def elifLoop : Nat → Parser (List Text)
  | 0 => throw .outOfFuel
  | fuel + 1 => do
      if ← peekReserved "elif" then
        advance
        skipNewlines
        let condition ← parseList fuel .ifThen
        expectReserved "then" "'elif': expected 'then'"
        skipNewlines
        let body ← parseList fuel .ifBody
        let words ← elifLoop fuel
        return tagWord "elif" :: serializeList condition ++
          tagWord "then" :: serializeList body ++ words
      return []

def parseWhile : Nat → Bool → Parser SimpleCommand
  | 0, _ => throw .outOfFuel
  | fuel + 1, isUntil => do
      advance
      let condition ← conditionLoop fuel
      expectReserved "do" "'while'/'until': expected 'do'"
      skipNewlines
      let body ← parseList fuel .doDone
      expectReserved "done" "'while'/'until': expected 'done'"
      return compoundCommand
        (tagWord (if isUntil then "until" else "while") :: serializeList condition ++
          tagWord "body" :: serializeList body)

/-- The condition of `parse_while`.  A pipeline need not consume a token, and the loop
then makes no progress. -/
def conditionLoop : Nat → Parser CompoundList
  | 0 => throw .outOfFuel
  | fuel + 1 => do
      skipNewlines
      if ← peekReserved "do" then return []
      if ← isAtEnd then needMore
      let (pipeline, separator) ← parseAndOr fuel
      return ⟨pipeline, separator⟩ :: (← conditionLoop fuel)

def parseCase : Nat → Parser SimpleCommand
  | 0 => throw .outOfFuel
  | fuel + 1 => do
      advance
      skipNewlines
      let subject ←
        match ← peek with
        | some (.word w) => advance; pure w
        | none => needMore
        | _ => malformed "'case': expected word"
      skipNewlines
      expectReserved "in" "'case': expected 'in'"
      skipNewlines
      let clauses ← clauseLoop fuel
      return compoundCommand (tagWord "case" :: subject :: clauses ++ [tagWord "esac"])

/-- The clauses of `parse_case`. -/
def clauseLoop : Nat → Parser (List Text)
  | 0 => throw .outOfFuel
  | fuel + 1 => do
      skipNewlines
      if ← peekReserved "esac" then
        advance
        return []
      if ← isAtEnd then needMore
      if (← peek) = some .lParen then advance
      let (patterns, behind) ← (casePatterns (← get) : Except ParseStop _)
      set behind
      skipNewlines
      let body ← parseCaseBody fuel
      let terminator ←
        match ← peek with
        | some .semiSemi => advance; pure ";;".toList
        | some (.word w) =>
          if w = ";&".toList ∨ w = ";;&".toList then
            advance
            pure w
          else if w = "esac".toList then pure ";;".toList
          else malformed "'case': expected ';;', ';&', ';;&', or 'esac'"
        | none => needMore
        | _ => malformed "'case': expected ';;', ';&', ';;&', or 'esac'"
      let words ← clauseLoop fuel
      return tagWord "case_item" :: countWord patterns.length :: patterns ++
        tagWord "body" :: serializeList body ++ terminator :: words

def parseCaseBody : Nat → Parser CompoundList
  | 0 => throw .outOfFuel
  | fuel + 1 => do
      skipNewlines
      match ← peek with
      | some .semiSemi => return []
      | none => needMore
      | some token =>
        if token = .word ";&".toList ∨ token = .word ";;&".toList ∨
            token = .word "esac".toList then
          return []
        let (pipeline, separator) ← parseAndOr fuel
        let item : AndOrItem := ⟨pipeline, separator⟩
        if separator = .end then return [item]
        return item :: (← parseCaseBody fuel)

def parseFuncdef : Nat → Parser SimpleCommand
  | 0 => throw .outOfFuel
  | fuel + 1 => do
      let name ←
        match ← peek with
        | some (.word w) => pure w
        | _ => malformed "expected function name"
      advance
      if (← peek) ≠ some .lParen then malformed "expected '(' in function definition"
      advance
      skipNewlines
      if (← peek) ≠ some .rParen then malformed "expected ')' in function definition"
      advance
      skipNewlines
      match ← peek with
      | some .lParen | some (.word _) => pure ()
      | none => needMore
      | _ => malformed "expected compound command as function body"
      let body ← parseSimpleOrCompound fuel
      return compoundCommand (tagWord "funcdef" :: name :: body.words)

end

def parseCompoundList (fuel : Nat) (tokens : List Token) : Except ParseStop CompoundList :=
  (parseList fuel .topLevel tokens).map Prod.fst

end Bazzulto.Shell
