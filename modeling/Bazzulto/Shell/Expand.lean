/-
  Shell/Expand.lean --- word expansion.

  Embeds `expand_word`, `expand_to_pieces`, `expand_tilde`, `expand_dollar`,
  `expand_braced` with its operators, `glob_match`, `field_split` and the arithmetic of
  `$((...))` (userspace/programs/sh/src/expand.rs).  The functions walk bytes, which are
  kept as characters; where the source keeps an index, the bytes behind it are passed.
  Command substitution is the parameter `commandSub`, as it is a function pointer of the
  shell state there.  At the end, fields are compared with those that POSIX prescribes.
-/
import Bazzulto.Shell.Lexer
import Bazzulto.Shell.Vars

set_option autoImplicit false

namespace Bazzulto.Shell

/-! ## Results -/

/-- How an expansion ends without a result: the shell exits (`exit_on_error`), it
panics, or the bound on the recursion of this model is reached. -/
inductive Halt where
  | exit (code : BitVec 32)
  | panic
  | outOfFuel
  deriving DecidableEq, Repr

/-- An expansion reads and writes the state of the shell. -/
abbrev Expansion := StateT ShellState (Except Halt)

structure Piece where
  text : Text
  quoted : Bool
  deriving DecidableEq, Repr

/-! ## Tilde expansion -/

/-- `str::trim_end_matches('/')`. -/
def trimEndSlashes (text : Text) : Text := (text.reverse.dropWhile (· = '/')).reverse

/-- `expand_tilde`, for a word that starts with a tilde. -/
def expandTilde (word : Text) (state : ShellState) : Text :=
  let loginName := word.tail.takeWhile (· ≠ '/')
  let suffix := word.tail.dropWhile (· ≠ '/')
  if loginName.isEmpty then
    let home := (state.vars.get "HOME".toList).getD []
    if home.isEmpty then word else trimEndSlashes home ++ suffix
  else word

/-! ## Patterns -/

/-- The loop over a bracket expression: single characters and ranges. -/
def inBracket (char : Char) : Text → Bool
  | low :: '-' :: high :: rest => (low ≤ char && char ≤ high) || inBracket char rest
  | member :: rest => char = member || inBracket char rest
  | [] => false

/-- The content of a bracket expression and the pattern behind it; a `]` in the first
place is a member. -/
def splitBracket (pattern : Text) : Option (Text × Text) :=
  let first := if pattern.head? = some ']' then 1 else 0
  let inner := pattern.take first ++ (pattern.drop first).takeWhile (· ≠ ']')
  match (pattern.drop first).dropWhile (· ≠ ']') with
  | [] => none
  | _ :: behind => some (inner, behind)

/-- `glob_match_inner`; its recursion is bounded by the length of the pattern. -/
def globMatchInner : Nat → Text → Text → Bool
  | 0, pattern, text => pattern.isEmpty && text.isEmpty
  | _ + 1, [], text => text.isEmpty
  | fuel + 1, char :: pattern, text =>
    match char, text with
    | '*', _ =>
      (List.range (text.length + 1)).any fun skip =>
        globMatchInner fuel pattern (text.drop skip)
    | _, [] => false
    | '?', _ :: text => globMatchInner fuel pattern text
    | '[', target :: text =>
      let negate := pattern.head? = some '!' || pattern.head? = some '^'
      match splitBracket (if negate then pattern.tail else pattern) with
      | none => false
      | some (inner, behind) =>
        (inBracket target inner ^^ negate) && globMatchInner fuel behind text
    | _, target :: text => char = target && globMatchInner fuel pattern text

def globMatch (pattern text : Text) : Bool := globMatchInner pattern.length pattern text

/-- `remove_suffix`: the splits are tried from the front for the largest suffix. -/
def removeSuffix (value pattern : Text) (largest : Bool) : Text :=
  let starts := List.range (value.length + 1)
  match (if largest then starts else starts.reverse).find? fun start =>
      globMatch pattern (value.drop start) with
  | some start => value.take start
  | none => value

/-- `remove_prefix`: the splits are tried from the back for the largest front part. -/
def removePrefix (value pattern : Text) (largest : Bool) : Text :=
  let ends := List.range (value.length + 1)
  match (if largest then ends.reverse else ends).find? fun stop =>
      globMatch pattern (value.take stop) with
  | some stop => value.drop stop
  | none => value

/-! ## Parameters -/

def isSpecialParamChar (char : Char) : Bool :=
  ['@', '*', '#', '?', '-', '$', '!'].contains char || char.isDigit

/-- `str::parse::<usize>` on digits: `None` for no digit and on overflow. -/
def parseUsize (text : Text) : Option Nat :=
  if text.isEmpty then none
  else
    text.foldlM
      (fun result char =>
        let next := result * 10 + (char.toNat - '0'.toNat)
        if next < 2 ^ 64 then some next else none)
      0

def getParamValueOpt (param : Text) (state : ShellState) : Option Text :=
  match param with
  | [char] =>
    if isSpecialParamChar char then some (expandSpecial char state)
    else state.vars.get param
  | _ =>
    match (if param.all Char.isDigit then parseUsize param else none) with
    | some 0 => some state.shellName
    | some (n + 1) => state.positionalParams[n]?
    | none => state.vars.get param

/-- `get_param_value`: with `-u` an unset parameter ends the shell. -/
def getParamValue (param : Text) : Expansion Text := do
  match getParamValueOpt param (← get) with
  | some value => pure value
  | none => if (← get).optionNounset then throw (.exit 1) else pure []

/-- The operators of `parse_param_op`. -/
inductive ParamOp where
  | useDefault (orNull : Bool)
  | assignDefault (orNull : Bool)
  | error (orNull : Bool)
  | alternative (orNull : Bool)
  | suffix (largest : Bool)
  | front (largest : Bool)
  deriving DecidableEq, Repr

/-- `parse_param_op`: the parameter, the operator and its word. -/
def parseParamOp (inner : Text) : Option (Text × ParamOp × Text) :=
  let length :=
    match inner with
    | char :: _ => if isSpecialParamChar char then 1 else (inner.takeWhile isNameChar).length
    | [] => 0
  let param := inner.take length
  match inner.drop length with
  | ':' :: '-' :: word => some (param, .useDefault true, word)
  | ':' :: '=' :: word => some (param, .assignDefault true, word)
  | ':' :: '?' :: word => some (param, .error true, word)
  | ':' :: '+' :: word => some (param, .alternative true, word)
  | '%' :: '%' :: word => some (param, .suffix true, word)
  | '#' :: '#' :: word => some (param, .front true, word)
  | '-' :: word => some (param, .useDefault false, word)
  | '=' :: word => some (param, .assignDefault false, word)
  | '?' :: word => some (param, .error false, word)
  | '+' :: word => some (param, .alternative false, word)
  | '%' :: word => some (param, .suffix false, word)
  | '#' :: word => some (param, .front false, word)
  | _ => none

/-- `expand_param_op`.  An assignment to a read-only variable is ignored. -/
def expandParamOp (param : Text) (op : ParamOp) (word : Text) : Expansion Text := do
  let state ← get
  let found := getParamValueOpt param state
  let value := found.getD []
  let missing (orNull : Bool) : Bool := found.isNone || (orNull && value.isEmpty)
  match op with
  | .useDefault orNull => pure (if missing orNull then word else value)
  | .assignDefault orNull =>
    if missing orNull then
      if isValidName param then
        match state.vars.set param word with
        | .ok vars => set { state with vars }
        | .error _ => pure ()
      pure word
    else pure value
  | .error orNull => if missing orNull then throw (.exit 1) else pure value
  | .alternative orNull => pure (if missing orNull then [] else word)
  | .suffix largest => pure (removeSuffix value word largest)
  | .front largest => pure (removePrefix value word largest)

/-! ## Arithmetic -/

/-- How the evaluation of an arithmetic expression stops: the `None` of the source, a
panic (division overflow), or the bound of this model. -/
inductive ArithStop where
  | invalid
  | panic
  | outOfFuel
  deriving DecidableEq, Repr

/-- An arithmetic function consumes bytes. -/
abbrev Arith := StateT Text (Except ArithStop)

def arithSkipWs : Arith Unit := modify fun bytes => bytes.dropWhile fun b => b = ' ' || b = '\t'

/-- The binary operators of one level and what they compute. -/
abbrev ArithOps := Char → Option (BitVec 64 → BitVec 64 → Except ArithStop (BitVec 64))

/-- `+` and `-`. -/
def additiveOps : ArithOps
  | '+' => some fun lhs rhs => .ok (lhs + rhs)
  | '-' => some fun lhs rhs => .ok (lhs - rhs)
  | _ => none

/-- Division panics on overflow, and a zero divisor makes the expression invalid. -/
def checkedDivision (divide : BitVec 64 → BitVec 64 → BitVec 64) (lhs rhs : BitVec 64) :
    Except ArithStop (BitVec 64) :=
  if rhs = 0 then .error .invalid
  else if lhs = BitVec.intMin 64 ∧ rhs = -1 then .error .panic
  else .ok (divide lhs rhs)

/-- `*`, `/` and `%`. -/
def multiplicativeOps : ArithOps
  | '*' => some fun lhs rhs => .ok (lhs * rhs)
  | '/' => some (checkedDivision BitVec.sdiv)
  | '%' => some (checkedDivision BitVec.srem)
  | _ => none

/-- `str::parse::<i64>` on digits. -/
def parseI64 (digits : Text) : Option (BitVec 64) :=
  (parseUsize digits).bind fun n => if n < 2 ^ 63 then some (BitVec.ofNat 64 n) else none

/-- The loop of `arith_additive` and `arith_multiplicative` behind the first operand.
Every turn consumes an operator. -/
def arithLoop (ops : ArithOps) (operand : Arith (BitVec 64)) :
    Nat → BitVec 64 → Arith (BitVec 64)
  | 0, _ => throw .outOfFuel
  | turns + 1, lhs => do
      arithSkipWs
      match (← get) with
      | [] => pure lhs
      | byte :: behind =>
        match ops byte with
        | none => pure lhs
        | some compute => do
            set behind
            let rhs ← operand
            arithLoop ops operand turns (← compute lhs rhs)

/-- One level of binary operators. -/
def arithLevel (ops : ArithOps) (operand : Arith (BitVec 64)) : Arith (BitVec 64) := do
  let lhs ← operand
  arithLoop ops operand ((← get).length + 1) lhs

section

variable (arithExpr : Arith (BitVec 64))

/-- `arith_primary`, over the evaluator of a parenthesised expression. -/
def arithPrimary : Arith (BitVec 64) := do
  arithSkipWs
  match (← get) with
  | '(' :: behind => do
      set behind
      let value ← arithExpr
      arithSkipWs
      modify fun bytes => if bytes.head? = some ')' then bytes.tail else bytes
      pure value
  | bytes =>
    if bytes.head?.any Char.isDigit then
      set (bytes.dropWhile Char.isDigit)
      match parseI64 (bytes.takeWhile Char.isDigit) with
      | some value => pure value
      | none => throw .invalid
    else pure 0

def arithUnary : Arith (BitVec 64) := do
  arithSkipWs
  match (← get) with
  | '-' :: behind => do
      set behind
      return -(← arithPrimary arithExpr)
  | '+' :: behind => do
      set behind
      arithPrimary arithExpr
  | _ => arithPrimary arithExpr

def arithMultiplicative : Arith (BitVec 64) :=
  arithLevel multiplicativeOps (arithUnary arithExpr)

def arithAdditive : Arith (BitVec 64) :=
  arithLevel additiveOps (arithMultiplicative arithExpr)

end

/-- `arith_expr`, to a nesting depth of `fuel`. -/
def arithExpr : Nat → Arith (BitVec 64)
  | 0 => throw .outOfFuel
  | fuel + 1 => do
      arithSkipWs
      arithAdditive (arithExpr fuel)

/-- The end of `arithmetic_expand`: an invalid expression counts as 0. -/
def arithmeticValue (expanded : Text) : Except Halt (BitVec 64) :=
  let bytes := asBytes expanded
  match arithExpr (bytes.length + 1) bytes with
  | .ok (value, _) => .ok value
  | .error .invalid => .ok 0
  | .error .panic => .error .panic
  | .error .outOfFuel => .error .outOfFuel

/-! ## Dollar expansions -/

/-- `find_close_brace`: the bytes before the closing brace and those behind it.
Escaped bytes and single quotes are passed over. -/
def findCloseBrace : Nat → Nat → Text → Option (Text × Text)
  | 0, _, _ => none
  | turns + 1, depth, bytes =>
    let skip (count : Nat) (depth : Nat) : Option (Text × Text) :=
      (findCloseBrace turns depth (bytes.drop count)).map fun (inner, behind) =>
        (bytes.take count ++ inner, behind)
    match bytes with
    | [] => none
    | '\x7b' :: _ => skip 1 (depth + 1)
    | '\x7d' :: behind => if depth = 1 then some ([], behind) else skip 1 (depth - 1)
    | '\\' :: _ => skip 2 depth
    | '\x27' :: rest => skip ((rest.takeWhile (· ≠ '\x27')).length + 2) depth
    | _ :: _ => skip 1 depth

/-- `skip_paren_group`, from the opening parenthesis on: the bytes before the
parenthesis that closes at depth 0, and those behind it. -/
def skipParenGroup : Nat → Text → Text × Text
  | _, [] => ([], [])
  | depth, '(' :: rest =>
    let (inner, behind) := skipParenGroup (depth + 1) rest
    ('(' :: inner, behind)
  | 0, ')' :: rest => ([], rest)
  | depth + 1, ')' :: rest =>
    let (inner, behind) := skipParenGroup depth rest
    (')' :: inner, behind)
  | depth, byte :: rest =>
    let (inner, behind) := skipParenGroup depth rest
    (byte :: inner, behind)

/-- `expand_braced`, on the bytes behind the opening brace. -/
def expandBraced (bytes : Text) : Expansion (Option Piece × Text) := do
  match findCloseBrace bytes.length 1 bytes with
  | none => pure (some ⟨"$\x7b".toList, false⟩, bytes)
  | some (innerBytes, behind) => do
      let inner := (fromBytes innerBytes).getD []
      let piece (text : Text) : Option Piece × Text := (some ⟨text, true⟩, behind)
      match inner with
      | ['#'] => pure (piece (formatU32 (← get).positionalParams.length))
      | '#' :: param => do
          let value ← getParamValue param
          pure (piece (formatU32 value.length))
      | _ =>
        match parseParamOp inner with
        | some (param, op, word) => do
            let value ← expandParamOp param op word
            pure (piece value)
        | none => do
            let value ← getParamValue inner
            pure (piece value)

section Substitution

-- `command_sub_fn`
variable (commandSub : Text → Expansion Text)

mutual

/-- `expand_dollar`, on the bytes behind the dollar. -/
def expandDollar : Nat → Text → Expansion (Option Piece × Text)
  | 0, _ => throw .outOfFuel
  | fuel + 1, bytes => do
      match bytes with
      | '\x7b' :: rest => expandBraced rest
      | '(' :: rest =>
        let (inner, behind) := skipParenGroup 0 bytes
        if rest.head? = some '(' then
          let expr := if 2 ≤ inner.length then (fromBytes inner.tail.dropLast).getD [] else []
          let expanded ← expandArithVars fuel (asBytes (trim expr))
          let value ← (arithmeticValue expanded : Except Halt (BitVec 64))
          pure (some ⟨formatI64 value, true⟩, behind)
        else
          let result ← commandSub ((fromBytes inner).getD [])
          pure (some ⟨result, false⟩, behind)
      | next :: rest =>
        if ['@', '*', '#', '?', '-', '$', '!', '0'].contains next then
          pure (some ⟨expandSpecial next (← get), false⟩, rest)
        else if next.isDigit then
          let value := (← get).positionalParams[next.toNat - '1'.toNat]?
          pure (some ⟨value.getD [], false⟩, rest)
        else if next = '_' || next.isAlpha then
          let name := bytes.takeWhile isNameChar
          let value := (← get).vars.get name
          pure (some ⟨value.getD [], false⟩, bytes.dropWhile isNameChar)
        else pure (some ⟨['$'], false⟩, bytes)
      | [] => pure (some ⟨['$'], false⟩, [])

def expandArithVars : Nat → Text → Expansion Text
  | 0, _ => throw .outOfFuel
  | _ + 1, [] => pure []
  | fuel + 1, byte :: rest => do
      if byte = '$' then
        let (piece, behind) ← expandDollar fuel rest
        let out ← expandArithVars fuel behind
        pure ((piece.elim [] Piece.text) ++ out)
      else
        let out ← expandArithVars fuel rest
        pure (byte :: out)

end

/-- The command between backquotes and the bytes behind it.  `none`: a backslash in the
last place, where the slice of the source runs past the end. -/
def backquoted : Text → Option (Text × Text)
  | [] => some ([], [])
  | '\x60' :: rest => some ([], rest)
  | '\\' :: [] => none
  | '\\' :: byte :: rest =>
    (backquoted rest).map fun (command, behind) => ('\\' :: byte :: command, behind)
  | byte :: rest => (backquoted rest).map fun (command, behind) => (byte :: command, behind)

/-- `flush_literal!`. -/
def flushLiteral (literalBuf : Text) : List Piece :=
  if literalBuf.isEmpty then [] else [⟨literalBuf, false⟩]

/-- The loop of `expand_to_pieces`.  Every turn consumes a byte. -/
def expandLoop : Nat → Text → Text → Expansion (List Piece)
  | 0, literalBuf, _ => pure (flushLiteral literalBuf)
  | _ + 1, literalBuf, [] => pure (flushLiteral literalBuf)
  | turns + 1, literalBuf, byte :: rest =>
    if byte = '$' then do
      let (piece, behind) ← expandDollar commandSub (rest.length + 1) rest
      let pieces ← expandLoop turns [] behind
      pure (flushLiteral literalBuf ++ piece.toList ++ pieces)
    else if byte = '\x60' then
      match backquoted rest with
      | none => throw .panic
      | some (command, behind) => do
          let result ← commandSub ((fromBytes command).getD [])
          let pieces ← expandLoop turns [] behind
          pure (flushLiteral literalBuf ++ ⟨result, false⟩ :: pieces)
    else expandLoop turns (literalBuf ++ [byte]) rest

/-- `expand_to_pieces`: an expanded tilde replaces the whole word. -/
def expandToPieces (word : Text) : Expansion (List Piece) := do
  let expanded := expandTilde word (← get)
  if word.head? = some '~' ∧ expanded ≠ word then pure [⟨expanded, true⟩]
  else expandLoop commandSub (asBytes word).length [] (asBytes word)

end Substitution

/-! ## Field splitting -/

/-- The value of `IFS`. -/
def ifsOf (state : ShellState) : Text := (state.vars.get "IFS".toList).getD [' ', '\t', '\n']

/-- IFS white space. -/
def isBlank (char : Char) : Bool := char = ' ' || char = '\t' || char = '\n'

/-- The local variables of `field_split`; `last_was_nonws_delim` is never read. -/
structure Splitter where
  fields : List Text
  currentField : Text
  inField : Bool
  deriving DecidableEq, Repr

namespace Splitter

/-- Push the current field. -/
def flush (splitter : Splitter) : Splitter :=
  ⟨splitter.fields ++ [splitter.currentField], [], false⟩

/-- One unquoted character. -/
def scanChar (ifs : Text) (splitter : Splitter) (char : Char) : Splitter :=
  if ifs.contains char then
    if isBlank char then
      if splitter.inField then splitter.flush else splitter
    else splitter.flush
  else { splitter with currentField := splitter.currentField ++ [char], inField := true }

/-- One piece. -/
def scanPiece (ifs : Text) (splitter : Splitter) (piece : Piece) : Splitter :=
  if piece.quoted then
    { splitter with currentField := splitter.currentField ++ piece.text, inField := true }
  else piece.text.foldl (scanChar ifs) splitter

/-- The fields at the end. -/
def finish (splitter : Splitter) : List Text :=
  if splitter.inField ∨ splitter.currentField ≠ [] then
    splitter.fields ++ [splitter.currentField]
  else splitter.fields

end Splitter

/-- `field_split`: with an empty `IFS` every piece is a field. -/
def fieldSplit (pieces : List Piece) (state : ShellState) : List Text :=
  if (ifsOf state).isEmpty then pieces.map Piece.text
  else (pieces.foldl (Splitter.scanPiece (ifsOf state)) ⟨[], [], false⟩).finish

def expandWord (commandSub : Text → Expansion Text) (word : Text) : Expansion (List Text) := do
  let pieces ← expandToPieces commandSub word
  return fieldSplit pieces (← get)

/-! ## Fields by POSIX -/

section Fields

open List Piece

/-- What a character or a quoted text is to field splitting: part of a field, `IFS` white
space, or another character of `IFS`. -/
inductive Segment where
  | text (text : Text)
  | blank
  | mark

/-- The segments of a piece. -/
def Piece.segments (ifs : Text) (piece : Piece) : List Segment :=
  if piece.quoted then [.text piece.text]
  else piece.text.map fun char =>
    if ifs.contains char then (if isBlank char then .blank else .mark) else .text [char]

/-- Where a splitter stands: between fields, in one, or in the white space behind one. -/
inductive Zone where
  | between
  | inside
  | behind
  deriving DecidableEq

/-- Field splitting as POSIX prescribes it, from a zone and the field so far on. -/
def posixFields : Zone → Text → List Segment → List Text
  | .inside, field, [] => [field]
  | _, _, [] => []
  | .inside, field, .text more :: rest => posixFields .inside (field ++ more) rest
  | _, _, .text first :: rest => posixFields .inside first rest
  | .inside, field, .blank :: rest => field :: posixFields .behind [] rest
  | zone, _, .blank :: rest => posixFields zone [] rest
  | .inside, field, .mark :: rest => field :: posixFields .between [] rest
  | .between, _, .mark :: rest => [] :: posixFields .between [] rest
  -- white space and a mark are one delimiter
  | .behind, _, .mark :: rest => posixFields .between [] rest

/-- The fields of a list of pieces by POSIX; with an empty `IFS` there is no splitting. -/
def posixSplit (ifs : Text) (pieces : List Piece) : List Text :=
  if ifs.isEmpty then (if pieces.isEmpty then [] else [pieces.flatMap Piece.text])
  else posixFields .between [] (pieces.flatMap (segments ifs))

/-- No white space stands between a field and a mark. -/
def Tight : Zone → List Segment → Prop
  | _, [] => True
  | _, .text _ :: rest => Tight .inside rest
  | .between, .blank :: rest => Tight .between rest
  | _, .blank :: rest => Tight .behind rest
  | zone, .mark :: rest => zone ≠ .behind ∧ Tight .between rest

namespace Splitter

/-- One segment. -/
def scan (splitter : Splitter) : Segment → Splitter
  | .text text =>
    { splitter with currentField := splitter.currentField ++ text, inField := true }
  | .blank => if splitter.inField then splitter.flush else splitter
  | .mark => splitter.flush

theorem scanPiece_eq (ifs : Text) (splitter : Splitter) (piece : Piece) :
    splitter.scanPiece ifs piece = (piece.segments ifs).foldl scan splitter := by
  unfold scanPiece segments
  split
  · rfl
  · rw [foldl_map]
    congr 1
    funext splitter char
    unfold scanChar
    split
    · split <;> rfl
    · rfl

/-- What is added to the fields is what POSIX prescribes if the segments are tight, and is
more otherwise. -/
theorem finish_scan (segments : List Segment) (fields : List Text) (field : Text) (zone : Zone)
    (hfield : zone ≠ .inside → field = []) :
    ∃ added, (segments.foldl scan ⟨fields, field, zone = .inside⟩).finish = fields ++ added ∧
      (Tight zone segments → added = posixFields zone field segments) ∧
      (¬ Tight zone segments → (posixFields zone field segments).length < added.length) := by
  induction segments generalizing fields field zone with
  | nil => cases zone <;> simp_all [finish, posixFields, Tight]
  | cons segment rest ih =>
    rw [foldl_cons]
    cases segment with
    | text text =>
      obtain ⟨added, hadded, h⟩ := ih fields (field ++ text) .inside nofun
      refine ⟨added, hadded, ?_⟩
      cases zone <;> simp_all [posixFields, Tight]
    | blank =>
      by_cases hzone : zone = .inside
      · obtain ⟨added, hadded, h⟩ := ih (fields ++ [field]) [] .behind fun _ => rfl
        refine ⟨field :: added, ?_, ?_⟩
        · simpa [hzone, scan, flush] using hadded
        · simpa [hzone, posixFields, Tight] using h
      · obtain ⟨added, hadded, h⟩ := ih fields [] zone fun _ => rfl
        refine ⟨added, ?_, ?_⟩
        · simpa [hzone, scan, flush, hfield] using hadded
        · cases zone <;> simp_all [posixFields, Tight]
    | mark =>
      obtain ⟨added, hadded, h⟩ := ih (fields ++ [field]) [] .between fun _ => rfl
      refine ⟨field :: added, ?_, ?_⟩
      · simpa [scan, flush] using hadded
      · have hle : (posixFields .between [] rest).length ≤ added.length := by
          by_cases htight : Tight .between rest
          · rw [h.1 htight]
          · exact (h.2 htight).le
        cases zone with
        | behind => exact ⟨fun htight => absurd rfl htight.1, fun _ => Nat.lt_succ_of_le hle⟩
        | between | inside => simp_all [posixFields, Tight]

end Splitter

/-- Fields are split as POSIX prescribes if and only if no white space of `IFS` stands
between a field and another character of `IFS`; with an empty `IFS`, if and only if there is
at most one piece. -/
theorem fieldSplit_iff_tight (pieces : List Piece) (state : ShellState) :
    fieldSplit pieces state = posixSplit (ifsOf state) pieces ↔
      if (ifsOf state).isEmpty then pieces.length ≤ 1
      else Tight .between (pieces.flatMap (Piece.segments (ifsOf state))) := by
  unfold fieldSplit posixSplit
  split
  · match pieces with
    | [] | [_] | _ :: _ :: _ => simp
  · have hscan : pieces.foldl (Splitter.scanPiece (ifsOf state)) ⟨[], [], false⟩ =
        (pieces.flatMap (Piece.segments (ifsOf state))).foldl Splitter.scan ⟨[], [], false⟩ := by
      rw [foldl_flatMap]
      congr 1
      funext splitter piece
      exact splitter.scanPiece_eq _ piece
    obtain ⟨added, hadded, htight, hloose⟩ := Splitter.finish_scan
      (pieces.flatMap (Piece.segments (ifsOf state))) [] [] .between fun _ => rfl
    have hfields : (pieces.foldl (Splitter.scanPiece (ifsOf state)) ⟨[], [], false⟩).finish =
        added := by
      rw [hscan]
      exact hadded
    rw [hfields]
    refine ⟨fun heq => ?_, htight⟩
    by_contra hnot
    exact absurd (congrArg length heq) (hloose hnot).ne'

/-- `a` and `b` with a comma behind a blank between them. -/
theorem blank_before_comma :
    fieldSplit [⟨"a ,b".toList, false⟩]
        { sampleState with vars := ⟨[⟨"IFS".toList, " ,".toList, ⟨false, false⟩⟩]⟩ } =
      ["a".toList, [], "b".toList] ∧
      posixSplit " ,".toList [⟨"a ,b".toList, false⟩] = ["a".toList, "b".toList] := by
  decide

end Fields

end Bazzulto.Shell
