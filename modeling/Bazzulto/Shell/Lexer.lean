/-
  Shell/Lexer.lean --- token recognition.

  Embeds `Token`, `is_reserved_word`, `tokenize`, `parse_redir_op`,
  `parse_dollar_single_escape` and `read_heredoc_body`
  (userspace/programs/sh/src/lexer.rs).  The lexer walks the UTF-8 bytes of its
  input and pushes every byte as a character of its own; a byte is therefore kept
  here as the character with its code (`asBytes`).  Unquoted, it knows no substitutions.
-/
import Mathlib.Data.List.Basic
import Bazzulto.Vfs.Path

set_option autoImplicit false

namespace Bazzulto.Shell

open List Option Vfs Nat

variable {char byte : Char} {text : Text}

/-! ## Bytes as characters -/

/-- `str::as_bytes`, every byte widened with `as char`. -/
def asBytes (text : Text) : Text := (toUtf8 text).map fun byte => Char.ofNat byte.toNat

def IsAscii (char : Char) : Prop := char.toNat < 128
  deriving Decidable

@[simp] theorem asBytes_nil : asBytes [] = [] := rfl

theorem asBytes_cons (char : Char) (text : Text) :
    asBytes (char :: text) = asBytes [char] ++ asBytes text := by
  simp [asBytes, toUtf8]

theorem asBytes_append (text text' : Text) :
    asBytes (text ++ text') = asBytes text ++ asBytes text' := by
  simp [asBytes, toUtf8]

theorem asBytes_singleton_of_isAscii (h : IsAscii char) : asBytes [char] = [char] := by
  have hsmall : char.val.toNat ≤ 0x7f := le_of_lt_succ h
  have hmod : char.val.toNat % 2 ^ 8 = char.toNat := mod_eq_of_lt (by omega)
  simp only [asBytes, toUtf8, flatMap_cons, flatMap_nil, append_nil,
    String.utf8EncodeChar, if_pos hsmall, map_cons, map_nil, UInt8.toNat_ofNat']
  rw [hmod, Char.ofNat_toNat]

/-- The bytes of any other character are two or more, and none of them is ASCII. -/
theorem asBytes_singleton_of_not_isAscii (h : ¬ IsAscii char) :
    2 ≤ (asBytes [char]).length ∧ ∀ byte ∈ asBytes [char], ¬ IsAscii byte := by
  have hlarge : ¬ char.val.toNat ≤ 0x7f := fun hle => h (lt_succ_of_le hle)
  have high : ∀ n, 128 ≤ n → n < 256 → ¬ IsAscii (Char.ofNat (UInt8.ofNat n).toNat) := by
    intro n hn _
    have hvalid : n.isValidChar := .inl (by omega)
    rw [UInt8.toNat_ofNat', mod_eq_of_lt (by omega), Char.ofNat, dif_pos hvalid]
    exact not_lt.mpr hn
  simp only [asBytes, toUtf8, flatMap_cons, flatMap_nil, append_nil,
    String.utf8EncodeChar, if_neg hlarge]
  split
  · simp only [map_cons, map_nil, mem_cons, not_mem_nil, or_false, forall_eq_or_imp, forall_eq,
      length_cons]
    exact ⟨by omega, high _ (by omega) (by omega), high _ (by omega) (by omega)⟩
  split
  · simp only [map_cons, map_nil, mem_cons, not_mem_nil, or_false, forall_eq_or_imp, forall_eq,
      length_cons]
    exact ⟨by omega, high _ (by omega) (by omega), high _ (by omega) (by omega),
      high _ (by omega) (by omega)⟩
  · simp only [map_cons, map_nil, mem_cons, not_mem_nil, or_false, forall_eq_or_imp, forall_eq,
      length_cons]
    exact ⟨by omega, high _ (by omega) (by omega), high _ (by omega) (by omega),
      high _ (by omega) (by omega), high _ (by omega) (by omega)⟩

theorem mem_of_mem_asBytes (h : byte ∈ asBytes text) (hascii : IsAscii byte) : byte ∈ text := by
  induction text with
  | nil => exact h
  | cons char text ih =>
    rw [asBytes_cons, mem_append] at h
    rcases h with h | h
    · by_cases hchar : IsAscii char
      · rw [asBytes_singleton_of_isAscii hchar, mem_singleton] at h
        exact h ▸ mem_cons_self
      · exact absurd hascii ((asBytes_singleton_of_not_isAscii hchar).2 byte h)
    · exact mem_cons_of_mem _ (ih h)

theorem head?_of_head?_asBytes (h : (asBytes text).head? = some byte) (hascii : IsAscii byte) :
    text.head? = some byte := by
  cases text with
  | nil => exact h
  | cons char text =>
    rw [asBytes_cons] at h
    by_cases hchar : IsAscii char
    · rwa [asBytes_singleton_of_isAscii hchar] at h
    obtain ⟨_, hbytes⟩ := asBytes_singleton_of_not_isAscii hchar
    have hne : asBytes [char] ≠ [] := ne_nil_of_length_pos (by omega)
    rw [List.head?_append_of_ne_nil _ hne] at h
    exact absurd hascii (hbytes byte (mem_of_mem_head? h))

theorem asBytes_ne_nil (h : text ≠ []) : asBytes text ≠ [] := by
  cases text with
  | nil => exact absurd rfl h
  | cons char text =>
    rw [asBytes_cons]
    refine append_ne_nil_of_left_ne_nil ?_ _
    by_cases hchar : IsAscii char
    · rw [asBytes_singleton_of_isAscii hchar]
      exact cons_ne_nil _ _
    · exact ne_nil_of_length_pos (by have := (asBytes_singleton_of_not_isAscii hchar).1; omega)

theorem asBytes_of_isAscii (h : ∀ char ∈ text, IsAscii char) : asBytes text = text := by
  induction text with
  | nil => rfl
  | cons char text ih =>
    rw [asBytes_cons, asBytes_singleton_of_isAscii (h char mem_cons_self),
      ih fun char' hmem => h char' (mem_cons_of_mem _ hmem)]
    rfl

/-- The number of characters that are not ASCII. -/
def foreign (text : Text) : Nat := text.countP fun char => ¬ IsAscii char

theorem foreign_append (text text' : Text) :
    foreign (text ++ text') = foreign text + foreign text' := countP_append

theorem foreign_eq_zero_iff : foreign text = 0 ↔ ∀ char ∈ text, IsAscii char := by
  simp [foreign]

/-- The bytes of a text double what is not ASCII in it, or more. -/
theorem two_mul_foreign_le (text : Text) : 2 * foreign text ≤ foreign (asBytes text) := by
  induction text with
  | nil => simp [foreign]
  | cons char text ih =>
    rw [asBytes_cons, foreign_append]
    by_cases hchar : IsAscii char
    · have hcons : foreign (char :: text) = foreign text := by simp [foreign, hchar]
      omega
    have hcons : foreign (char :: text) = foreign text + 1 := by simp [foreign, hchar]
    obtain ⟨_, hbytes⟩ := asBytes_singleton_of_not_isAscii hchar
    have hall : foreign (asBytes [char]) = (asBytes [char]).length := by
      rw [foreign]
      simpa using hbytes
    omega

theorem asBytes_eq_self_iff : asBytes text = text ↔ ∀ char ∈ text, IsAscii char := by
  refine ⟨fun h => ?_, asBytes_of_isAscii⟩
  have hdouble := two_mul_foreign_le text
  rw [h] at hdouble
  exact foreign_eq_zero_iff.mp (by omega)

/-- `core::str::from_utf8` on bytes that are kept as characters. -/
def fromBytes (bytes : Text) : Option Text :=
  fromUtf8 (bytes.map fun char => UInt8.ofNat char.toNat)

def isWhitespace (char : Char) : Bool :=
  let code := char.toNat
  (9 ≤ code && code ≤ 13) || (0x2000 ≤ code && code ≤ 0x200A) ||
    [0x20, 0x85, 0xA0, 0x1680, 0x2028, 0x2029, 0x202F, 0x205F, 0x3000].contains code

def trim (text : Text) : Text :=
  ((text.dropWhile isWhitespace).reverse.dropWhile isWhitespace).reverse

/-! ## Tokens -/

inductive Token where
  | word (text : Text)
  | pipe
  | pipeOr
  | amp
  | ampAmp
  | semi
  | semiSemi
  | redirIn (fd : Option Nat)
  | redirOut (fd : Option Nat)
  | redirAppend (fd : Option Nat)
  | redirOutNoclobber (fd : Option Nat)
  | redirDupOut (fd : Option Nat)
  | redirDupIn (fd : Option Nat)
  | redirReadWrite (fd : Option Nat)
  | hereDoc (fd : Option Nat) (stripTabs : Bool)
  | lParen
  | rParen
  | newline
  deriving DecidableEq, Repr

def reservedWords : List Text :=
  ["!".toList, "\x7b".toList, "\x7d".toList, "case".toList, "do".toList, "done".toList,
    "elif".toList, "else".toList, "esac".toList, "fi".toList, "for".toList, "if".toList,
    "in".toList, "then".toList, "until".toList, "while".toList]

def isReservedWord (word : Text) : Bool := reservedWords.contains word

/-! ## Numbers and escapes -/

/-- `parse_u32`: `None` for a character that is no digit, and on overflow. -/
def parseU32 (text : Text) : Option Nat :=
  text.foldlM
    (fun result char =>
      if char.isDigit then
        let next := result * 10 + (char.toNat - '0'.toNat)
        if next < 2 ^ 32 then some next else none
      else none)
    0

/-- `parse_redir_op`: the operator and the bytes behind it. -/
def parseRedirOp (fd : Option Nat) : Text → Token × Text
  | '<' :: '<' :: '-' :: rest => (.hereDoc fd true, rest)
  | '<' :: '<' :: rest => (.hereDoc fd false, rest)
  | '<' :: '&' :: rest => (.redirDupIn fd, rest)
  | '<' :: '>' :: rest => (.redirReadWrite fd, rest)
  | '<' :: rest => (.redirIn fd, rest)
  | '>' :: '|' :: rest => (.redirOutNoclobber fd, rest)
  | '>' :: '>' :: rest => (.redirAppend fd, rest)
  | '>' :: '&' :: rest => (.redirDupOut fd, rest)
  | _ :: rest => (.redirOut fd, rest)
  | [] => (.redirOut fd, [])

def hexDigit (byte : Char) : Option Nat :=
  if byte.isDigit then some (byte.toNat - '0'.toNat)
  else if 'a' ≤ byte ∧ byte ≤ 'f' then some (byte.toNat - 'a'.toNat + 10)
  else if 'A' ≤ byte ∧ byte ≤ 'F' then some (byte.toNat - 'A'.toNat + 10)
  else none

/-- The digits of an escape: at most `limit` of them, in base `base`. -/
def escapeDigits (digit : Char → Option Nat) (base : Nat) :
    Nat → Nat → Text → Nat × Text
  | 0, value, rest => (value, rest)
  | _ + 1, value, [] => (value, [])
  | limit + 1, value, byte :: rest =>
    match digit byte with
    | some v => escapeDigits digit base limit (value * base + v) rest
    | none => (value, byte :: rest)

/-- An octal digit of `parse_dollar_single_escape`. -/
def octalDigit (byte : Char) : Option Nat :=
  if '0' ≤ byte ∧ byte ≤ '7' then some (byte.toNat - '0'.toNat) else none

/-- `parse_dollar_single_escape`, on the bytes behind the backslash. -/
def parseDollarSingleEscape : Text → Option Char × Text
  | [] => (some '\\', [])
  | byte :: rest =>
    match byte with
    | '\x27' => (some '\x27', rest)
    | '\x22' => (some '\x22', rest)
    | '\\' => (some '\\', rest)
    | 'a' => (some '\x07', rest)
    | 'b' => (some '\x08', rest)
    | 'e' => (some '\x1b', rest)
    | 'f' => (some '\x0c', rest)
    | 'n' => (some '\n', rest)
    | 'r' => (some '\r', rest)
    | 't' => (some '\t', rest)
    | 'v' => (some '\x0b', rest)
    | 'x' =>
      let (value, behind) := escapeDigits hexDigit 16 2 0 rest
      if behind.length = rest.length then (some 'x', rest)
      else if value = 0 then (none, behind)
      else (some (Char.ofNat value), behind)
    | _ =>
      if (octalDigit byte).isSome then
        let (value, behind) := escapeDigits octalDigit 8 3 0 (byte :: rest)
        if value = 0 ∨ 0xFF < value then (none, behind)
        else (some (Char.ofNat value), behind)
      else (some '\\', byte :: rest)

/-! ## The state machine -/

inductive QuoteState where
  | unquoted
  | singleQuoted
  | doubleQuoted
  | dollarSingleQuoted
  deriving DecidableEq, Repr

/-- The local variables of `tokenize`. -/
structure Lexer where
  tokens : List Token
  currentWord : Option Text
  quoteState : QuoteState
  deriving DecidableEq, Repr

open Lexer

namespace Lexer

/-- The state `tokenize` starts in. -/
def start : Lexer := ⟨[], none, .unquoted⟩

section

variable (lexer : Lexer)

/-- `begin_word!`. -/
def beginWord : Lexer :=
  { lexer with currentWord := some (lexer.currentWord.getD []) }

/-- `push_byte_as_char`: nothing happens outside a word. -/
def pushByteAsChar (byte : Char) : Lexer :=
  { lexer with currentWord := lexer.currentWord.map (· ++ [byte]) }

/-- `push_char!`. -/
def pushChar (char : Char) : Lexer := lexer.beginWord.pushByteAsChar char

/-- `flush_word!`. -/
def flushWord : Lexer :=
  match lexer.currentWord with
  | some word => { lexer with tokens := lexer.tokens ++ [.word word], currentWord := none }
  | none => lexer

/-- End the word and push an operator. -/
def operator (token : Token) : Lexer :=
  { lexer.flushWord with tokens := lexer.flushWord.tokens ++ [token] }

/-- Enter or leave quotes. -/
def quote (quoteState : QuoteState) : Lexer := { lexer with quoteState }

end

section

variable (lexer : Lexer) (byte : Char) (rest : Text)

/-- A byte in the unquoted context.  `none` is the `break` at a comment. -/
def unquoted : Option (Lexer × Text) :=
  match byte with
  | ' ' | '\t' => some (lexer.flushWord, rest)
  | '#' => if lexer.currentWord.isNone then none else some (lexer.pushChar '#', rest)
  | '\\' =>
    match rest with
    | [] => some (lexer.pushChar '\\', [])
    | next :: behind =>
      -- a backslash before a newline is a line continuation
      if next = '\n' then some (lexer, behind) else some (lexer.pushChar next, behind)
  | '\x27' => some (lexer.beginWord.quote .singleQuoted, rest)
  | '$' =>
    if rest.head? = some '\x27' then
      some (lexer.beginWord.quote .dollarSingleQuoted, rest.tail)
    else some (lexer.pushChar '$', rest)
  | '\x22' => some (lexer.beginWord.quote .doubleQuoted, rest)
  | '<' | '>' =>
    let (token, behind) := parseRedirOp none (byte :: rest)
    some (lexer.operator token, behind)
  | '|' =>
    if rest.head? = some '|' then some (lexer.operator .pipeOr, rest.tail)
    else some (lexer.operator .pipe, rest)
  | '&' =>
    if rest.head? = some '&' then some (lexer.operator .ampAmp, rest.tail)
    else some (lexer.operator .amp, rest)
  | ';' =>
    if rest.head? = some ';' then some (lexer.operator .semiSemi, rest.tail)
    else some (lexer.operator .semi, rest)
  | '(' => some (lexer.operator .lParen, rest)
  | ')' => some (lexer.operator .rParen, rest)
  | '\n' => some (lexer.operator .newline, rest)
  | _ =>
    if byte.isDigit then
      -- digits right before a redirection are its descriptor, unless a word is open
      let digits := (byte :: rest).takeWhile Char.isDigit
      let behind := (byte :: rest).dropWhile Char.isDigit
      if (behind.head? = some '<' ∨ behind.head? = some '>') ∧ lexer.currentWord.isNone then
        let (token, behind) := parseRedirOp (some ((parseU32 digits).getD 0)) behind
        some (lexer.operator token, behind)
      else some (lexer.pushChar byte, rest)
    else some (lexer.pushChar byte, rest)

/-- A byte inside single quotes. -/
def singleQuoted : Lexer × Text :=
  if byte = '\x27' then (lexer.quote .unquoted, rest) else (lexer.pushByteAsChar byte, rest)

/-- A byte inside double quotes. -/
def doubleQuoted : Lexer × Text :=
  if byte = '\x22' then (lexer.quote .unquoted, rest)
  else if byte = '\\' then
    match rest with
    | [] => (lexer.pushChar '\\', [])
    | next :: behind =>
      if next = '\n' then (lexer, behind)
      else if next = '$' ∨ next = '\x60' ∨ next = '\\' ∨ next = '\x22' then
        (lexer.pushByteAsChar next, behind)
      else ((lexer.pushChar '\\').pushByteAsChar next, behind)
  else (lexer.pushByteAsChar byte, rest)

/-- A byte inside `$'…'`. -/
def dollarSingleQuoted : Lexer × Text :=
  if byte = '\x27' then (lexer.quote .unquoted, rest)
  else if byte = '\\' then
    match rest with
    | [] => (lexer.pushChar '\\', [])
    | _ :: _ =>
      let (char, behind) := parseDollarSingleEscape rest
      match char with
      | some c => (lexer.pushChar c, behind)
      | none => (lexer, behind)
  else (lexer.pushByteAsChar byte, rest)

/-- One turn of the loop of `tokenize`. -/
def step : Option (Lexer × Text) :=
  match lexer.quoteState with
  | .unquoted => lexer.unquoted byte rest
  | .singleQuoted => some (lexer.singleQuoted byte rest)
  | .doubleQuoted => some (lexer.doubleQuoted byte rest)
  | .dollarSingleQuoted => some (lexer.dollarSingleQuoted byte rest)

end

/-- The loop of `tokenize`.  Every turn consumes a byte, so that the length of the
input bounds the turns. -/
def scan : Nat → Lexer → Text → Lexer
  | 0, lexer, _ => lexer
  | _ + 1, lexer, [] => lexer
  | turns + 1, lexer, byte :: rest =>
    match lexer.step byte rest with
    | none => lexer
    | some (next, behind) => scan turns next behind

/-- The end of `tokenize`: the messages for an open quote. -/
def finish (lexer : Lexer) : Except Text (List Token) :=
  match lexer.quoteState with
  | .singleQuoted => .error "unterminated single-quote".toList
  | .doubleQuoted => .error "unterminated double-quote".toList
  | .dollarSingleQuoted => .error "unterminated $'...' quote".toList
  | .unquoted => .ok lexer.flushWord.tokens

end Lexer

def tokenize (input : Text) : Except Text (List Token) :=
  ((start).scan (asBytes input).length (asBytes input)).finish

/-- `read_heredoc_body`, on the lines that are left: the body up to the delimiter line,
or up to the end of the input. -/
def readHeredocBody (delimiter : Text) (stripTabs : Bool) : List Text → Text × List Text
  | [] => ([], [])
  | line :: lines =>
    let content := if stripTabs then line.dropWhile (· = '\t') else line
    if content = delimiter then ([], lines)
    else
      let (body, behind) := readHeredocBody delimiter stripTabs lines
      (content ++ '\n' :: body, behind)

/-! ## Runs of bytes -/

/-- The bytes that mean something to `tokenize` in the middle of an unquoted word. -/
def metacharacters : Text :=
  [' ', '\t', '\\', '\x27', '$', '\x22', '<', '>', '|', '&', ';', '(', ')', '\n']

namespace Lexer

variable {rest : Text}

section

variable (lexer : Lexer)

/-- The open word grows by `text`. -/
def extend (text : Text) : Lexer :=
  { lexer with currentWord := some (lexer.currentWord.getD [] ++ text) }

theorem extend_extend (text text' : Text) :
    (lexer.extend text).extend text' = lexer.extend (text ++ text') := by
  simp [extend]

@[simp] theorem quoteState_flushWord : lexer.flushWord.quoteState = lexer.quoteState := by
  unfold flushWord
  split <;> rfl

@[simp] theorem currentWord_flushWord : lexer.flushWord.currentWord = none := by
  unfold flushWord
  split
  · rfl
  · assumption

@[simp] theorem flushWord_flushWord : lexer.flushWord.flushWord = lexer.flushWord := by
  rw [flushWord.eq_def lexer.flushWord, currentWord_flushWord]

end

/-- A byte of a word is pushed.  Digits never name a descriptor here, because no
redirection follows. -/
theorem step_of_not_mem {lexer : Lexer} (hstate : lexer.quoteState = .unquoted)
    (hbyte : byte ∉ metacharacters) (hhash : byte = '#' → lexer.currentWord ≠ none)
    (hrest : ∀ byte ∈ rest, byte ≠ '<' ∧ byte ≠ '>') :
    lexer.step byte rest = some (lexer.extend [byte], rest) := by
  have hangle : ∀ char ∈ byte :: rest, char ≠ '<' ∧ char ≠ '>' := by
    refine forall_mem_cons.mpr ⟨⟨?_, ?_⟩, hrest⟩
    all_goals exact fun heq => absurd (heq ▸ by decide) hbyte
  have hbehind : ∀ char, ((byte :: rest).dropWhile Char.isDigit).head? = some char →
      char ≠ '<' ∧ char ≠ '>' := fun char hhead =>
    hangle char ((dropWhile_suffix _).subset (mem_of_mem_head? hhead))
  rw [step, hstate]
  dsimp only
  unfold unquoted
  split
  case h_3 =>
    rw [if_neg fun hnone => hhash rfl (isNone_iff_eq_none.mp hnone)]
    rfl
  case h_16 =>
    split
    · refine if_neg fun hredirect => ?_
      rcases hredirect.1 with h | h
      · exact (hbehind _ h).1 rfl
      · exact (hbehind _ h).2 rfl
    · rfl
  all_goals exact absurd (by decide) hbyte

/-- A whole word is read into the open word. -/
theorem scan_word (turns : Nat) (hbytes : ∀ byte ∈ text, byte ∉ metacharacters)
    (hrest : ∀ byte ∈ rest, byte ≠ '<' ∧ byte ≠ '>') :
    ∀ lexer : Lexer, lexer.quoteState = .unquoted → text ≠ [] →
      (text.head? = some '#' → lexer.currentWord ≠ none) →
      scan (text.length + turns) lexer (text ++ rest) = scan turns (lexer.extend text) rest := by
  induction text with
  | nil => exact fun _ _ hne => absurd rfl hne
  | cons byte text ih =>
    intro lexer hstate _ hhash
    have htail : ∀ byte ∈ text, byte ∉ metacharacters := fun byte hmem =>
      hbytes byte (mem_cons_of_mem _ hmem)
    have hinner : ∀ byte ∈ text ++ rest, byte ≠ '<' ∧ byte ≠ '>' := by
      intro byte hmem
      rcases mem_append.mp hmem with h | h
      · exact ⟨by rintro rfl; exact htail _ h (by decide),
          by rintro rfl; exact htail _ h (by decide)⟩
      · exact hrest byte h
    have hstep := step_of_not_mem hstate (hbytes byte mem_cons_self)
      (fun heq => hhash (congrArg some heq)) hinner
    have hturns : (byte :: text).length + turns = (text.length + turns) + 1 := by
      simp only [length_cons]
      omega
    rw [hturns, cons_append, scan, hstep]
    dsimp only
    cases text with
    | nil => simp
    | cons byte' text =>
      have hopen : (lexer.extend [byte]).currentWord ≠ none := by simp [extend]
      rw [ih htail (lexer.extend [byte]) hstate (cons_ne_nil _ _) fun _ => hopen, extend_extend]
      rfl

/-- Blanks end the open word. -/
theorem scan_blanks {blanks : Text} (turns : Nat)
    (hblanks : ∀ byte ∈ blanks, byte = ' ' ∨ byte = '\t') :
    ∀ lexer : Lexer, lexer.quoteState = .unquoted → blanks ≠ [] →
      scan (blanks.length + turns) lexer (blanks ++ rest) = scan turns lexer.flushWord rest := by
  induction blanks with
  | nil => exact fun _ _ hne => absurd rfl hne
  | cons byte blanks ih =>
    intro lexer hstate _
    have hstep : lexer.step byte (blanks ++ rest) = some (lexer.flushWord, blanks ++ rest) := by
      rw [step, hstate]
      rcases hblanks byte mem_cons_self with rfl | rfl <;> rfl
    have hturns : (byte :: blanks).length + turns = (blanks.length + turns) + 1 := by
      simp only [length_cons]
      omega
    rw [hturns, cons_append, scan, hstep]
    dsimp only
    cases blanks with
    | nil => simp
    | cons byte' blanks =>
      rw [ih (fun byte hmem => hblanks byte (mem_cons_of_mem _ hmem)) _
        (by rw [quoteState_flushWord, hstate]) (cons_ne_nil _ _), flushWord_flushWord]

/-- Everything up to the closing quote is read into the open word. -/
theorem scan_singleQuoted (turns : Nat) (htext : '\x27' ∉ text) :
    ∀ lexer : Lexer, lexer.quoteState = .singleQuoted → lexer.currentWord ≠ none →
      scan (text.length + turns) lexer (text ++ rest) = scan turns (lexer.extend text) rest := by
  induction text with
  | nil =>
    intro lexer _ hopen
    obtain ⟨word, hword⟩ := ne_none_iff_exists'.mp hopen
    have hextend : lexer.extend [] = lexer := by
      cases lexer
      simp_all [extend]
    rw [hextend, length_nil, zero_add]
    rfl
  | cons byte text ih =>
    intro lexer hstate hopen
    obtain ⟨_, hword⟩ := ne_none_iff_exists'.mp hopen
    rw [mem_cons, not_or] at htext
    have hstep : lexer.step byte (text ++ rest) = some (lexer.extend [byte], text ++ rest) := by
      rw [step, hstate]
      rw [singleQuoted, if_neg (Ne.symm htext.1), pushByteAsChar, extend, hword]
      rfl
    have hturns : (byte :: text).length + turns = (text.length + turns) + 1 := by
      simp only [length_cons]
      omega
    have hextended : (lexer.extend [byte]).currentWord ≠ none := by simp [extend]
    rw [hturns, cons_append, scan, hstep]
    dsimp only
    rw [ih htext.2 (lexer.extend [byte]) hstate hextended, extend_extend]
    rfl

end Lexer

/-- A text in single quotes is one word, whose characters are the bytes of the text. -/
theorem tokenize_singleQuoted (htext : '\x27' ∉ text) :
    tokenize ('\x27' :: text ++ ['\x27']) = .ok [.word (asBytes text)] := by
  have hquote : asBytes ['\x27'] = ['\x27'] := asBytes_singleton_of_isAscii (by decide)
  have hbytes : '\x27' ∉ asBytes text := fun hmem =>
    htext (mem_of_mem_asBytes hmem (by decide))
  have hline : asBytes ('\x27' :: text ++ ['\x27']) = '\x27' :: (asBytes text ++ ['\x27']) := by
    rw [cons_append, asBytes_cons, asBytes_append]
    rfl
  have hlen : ('\x27' :: (asBytes text ++ ['\x27'])).length = (asBytes text).length + 1 + 1 := by
    simp
  have hopen : (start).step '\x27' (asBytes text ++ ['\x27']) =
      some (⟨[], some [], .singleQuoted⟩, asBytes text ++ ['\x27']) := rfl
  rw [tokenize, hline, hlen, scan, hopen]
  dsimp only
  rw [scan_singleQuoted 1 hbytes _ rfl (some_ne_none _)]
  rfl

/-! ## Substitutions -/

namespace Lexer

theorem tokens_prefix_flushWord (lexer : Lexer) : lexer.tokens <+: lexer.flushWord.tokens := by
  unfold flushWord
  split
  · exact prefix_append _ _
  · exact prefix_rfl

theorem tokens_prefix_operator (lexer : Lexer) (token : Token) :
    lexer.tokens <+: (lexer.operator token).tokens :=
  lexer.tokens_prefix_flushWord.trans (prefix_append _ _)

theorem tokens_prefix_step {lexer next : Lexer} {rest behind : Text}
    (h : lexer.step byte rest = some (next, behind)) : lexer.tokens <+: next.tokens := by
  unfold step unquoted singleQuoted doubleQuoted dollarSingleQuoted at h
  dsimp only at h
  repeat' split at h
  all_goals cases h
  all_goals first
    | exact prefix_rfl
    | exact tokens_prefix_flushWord lexer
    | exact tokens_prefix_operator lexer _

theorem tokens_prefix_scan (turns : Nat) (lexer : Lexer) (bytes : Text) :
    lexer.tokens <+: (scan turns lexer bytes).tokens := by
  fun_induction scan turns lexer bytes with
  | case1 | case2 | case3 => exact prefix_rfl
  | case4 _ _ _ _ _ _ hstep ih => exact (tokens_prefix_step hstep).trans ih

end Lexer

/-- The parenthesis behind a dollar ends the word. -/
theorem tokenize_substitution (text word : Text) :
    tokenize ('$' :: '(' :: text) ≠ .ok [.word word] := by
  have hbytes : asBytes ('$' :: '(' :: text) = '$' :: '(' :: asBytes text := by
    rw [asBytes_cons, asBytes_cons]
    rfl
  have hgrown := tokens_prefix_scan (asBytes text).length
    ((start.pushChar '$').operator .lParen) (asBytes text)
  rw [tokenize, hbytes]
  change finish (scan (asBytes text).length _ _) ≠ _
  generalize scan _ _ _ = lexer at hgrown ⊢
  unfold finish
  split
  iterate 3 nofun
  intro h
  have hlength := (hgrown.trans lexer.tokens_prefix_flushWord).length_le
  rw [Except.ok.inj h, length_singleton] at hlength
  exact absurd hlength (by decide)

/-- No substitution, of a command or of an expression, is lexed as a part of one word. -/
theorem substitution_never_one_word (inner behind word : Text) :
    tokenize ('$' :: '(' :: inner ++ ')' :: behind) ≠ .ok [.word word] ∧
      tokenize ('$' :: '(' :: '(' :: inner ++ ')' :: ')' :: behind) ≠ .ok [.word word] :=
  ⟨tokenize_substitution _ word, tokenize_substitution _ word⟩

theorem substitution_in_pieces :
    tokenize "$(a)".toList = .ok [.word ['$'], .lParen, .word ['a'], .rParen] := by
  decide

end Bazzulto.Shell
