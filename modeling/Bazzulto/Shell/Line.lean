/-
  Shell/Line.lean --- the read loop of the shell.

  Embeds `shell_main` and `read_heredoc_bodies` (userspace/programs/sh/src/main.rs).
  One turn of the loop takes a line to the command list that is handed to
  `execute_compound_list`.  Of the commands of a line that `;` joins, only the first is
  handed over.
-/
import Mathlib.Data.List.DropRight
import Bazzulto.Shell.Parser

set_option autoImplicit false

namespace Bazzulto.Shell

open Bazzulto.Shell.Parser List Lexer

variable {char : Char} {stop : Token} {word : Text}

/-! ## One turn of the loop -/

/-- `read_heredoc_bodies`: the delimiter of every here-document is replaced by its body,
read from the lines that follow. -/
def readHeredocBodies (list : CompoundList) : StateM (List Text) CompoundList :=
  list.mapM fun item => do
    let commands ← item.pipeline.commands.mapM fun command => do
      let redirects ← command.redirects.mapM fun redirect =>
        match redirect with
        | .hereDoc fd stripTabs delimiter => do
            let (body, behind) := readHeredocBody delimiter stripTabs (← get)
            set behind
            return .hereDoc fd stripTabs body
        | other => pure other
      return { command with redirects }
    return { item with pipeline := { item.pipeline with commands } }

/-- The local variables of `shell_main`, and the lines that are not read yet. -/
structure Repl where
  pendingTokens : List Token
  inContinuation : Bool
  input : List Text
  state : ShellState
  deriving DecidableEq, Repr

/-- The loop at its prompt, with nothing pending. -/
def Repl.atPrompt (input : List Text) (state : ShellState) : Repl := ⟨[], false, input, state⟩

/-- How a turn of `shell_main` ends. -/
inductive Turn where
  /-- The loop reads its next line. -/
  | next (repl : Repl)
  /-- The loop ends: an error in a shell that is not interactive. -/
  | stop (repl : Repl)
  /-- The list is handed to `execute_compound_list`. -/
  | execute (list : CompoundList) (repl : Repl)
  /-- The parser has not come to an end. -/
  | diverge

/-- A line that cannot be read: status 2, and the pending tokens are dropped. -/
def Repl.reject (repl : Repl) : Turn :=
  let repl := ⟨[], false, repl.input, { repl.state with lastExitStatus := 2 }⟩
  if repl.state.isInteractive then .next repl else .stop repl

/-- One turn of the loop of `shell_main`, for a line. -/
def shellTurn (fuel : Nat) (repl : Repl) (line : Text) : Turn :=
  if ¬ repl.inContinuation ∧ ((trim line).isEmpty ∨ (trim line).head? = some '#') then .next repl
  else
    match tokenize line with
    | .error _ => repl.reject
    | .ok tokens =>
      if tokens.isEmpty ∧ ¬ repl.inContinuation then .next repl
      else
        let pending := repl.pendingTokens ++ tokens ++ [.newline]
        match parseCompoundList fuel pending with
        | .error .outOfFuel => .diverge
        | .error (.error .needMore) =>
          .next { repl with pendingTokens := pending, inContinuation := true }
        | .error (.error (.syntaxError _)) => repl.reject
        | .ok list =>
          let repl := { repl with pendingTokens := [], inContinuation := false }
          if list.isEmpty then .next repl
          else
            let (list, input) := readHeredocBodies list repl.input
            .execute list { repl with input }

/-- The pipelines that a turn hands to `execute_compound_list`. -/
def Turn.pipelines : Turn → List Pipeline
  | .execute list _ => list.map AndOrItem.pipeline
  | _ => []

/-! ## Plain words and how they are spelled -/

/-- A word without quotes, operators and white space, and which starts no comment. -/
structure PlainWord where
  text : Text
  nonempty : text ≠ []
  plain : ∀ char ∈ text, char ∉ metacharacters ∧ isWhitespace char = false
  not_comment : text.head? ≠ some '#'

/-- Blanks between words. -/
structure Blanks where
  text : Text
  blank : ∀ char ∈ text, char = ' ' ∨ char = '\t'

/-- A simple command of plain words as it stands on a line, with the blanks in front of
each word and at its end. -/
structure SpelledCommand where
  lead : Blanks
  first : PlainWord
  others : List (Blanks × PlainWord)
  trail : Blanks
  separated : ∀ other ∈ others, other.1.text ≠ []
  not_reserved : isReservedWord first.text = false

open SpelledCommand

namespace SpelledCommand

/-- The words of the command. -/
def words (command : SpelledCommand) : List Text :=
  command.first.text :: command.others.map fun other => other.2.text

/-- The words behind the first, as they are spelled. -/
def spellOthers (others : List (Blanks × PlainWord)) : Text :=
  others.flatMap fun other => other.1.text ++ other.2.text

/-- The text of the command. -/
def spell (command : SpelledCommand) : Text :=
  command.lead.text ++ command.first.text ++ spellOthers command.others ++ command.trail.text

end SpelledCommand

/-- The line that joins commands by `;`. -/
def spellLine (commands : List SpelledCommand) : Text :=
  [';'].intercalate (commands.map spell)

/-- The simple command that words make: the assignments in front, and the rest. -/
def simpleOf (words : List Text) : SimpleCommand :=
  ⟨words.takeWhile fun w => (parseAssignment w).isSome,
    words.dropWhile fun w => (parseAssignment w).isSome, []⟩

/-- The pipeline of one simple command. -/
def SpelledCommand.pipeline (command : SpelledCommand) : Pipeline :=
  ⟨false, [simpleOf command.words]⟩

/-! ## Tokens of a line -/

/-- No byte starts a redirection. -/
def NoRedirect (bytes : Text) : Prop := ∀ byte ∈ bytes, byte ≠ '<' ∧ byte ≠ '>'

theorem NoRedirect.append {bytes bytes' : Text} (h : NoRedirect bytes) (h' : NoRedirect bytes') :
    NoRedirect (bytes ++ bytes') := fun byte hmem =>
  (mem_append.mp hmem).elim (h byte) (h' byte)

theorem Blanks.asBytes_text (blanks : Blanks) : asBytes blanks.text = blanks.text :=
  asBytes_of_isAscii fun char hmem => by
    rcases blanks.blank char hmem with rfl | rfl <;> decide

theorem Blanks.noRedirect (blanks : Blanks) : NoRedirect blanks.text := fun byte hmem => by
  rcases blanks.blank byte hmem with rfl | rfl <;> decide

theorem PlainWord.not_mem_metacharacters (word : PlainWord) :
    ∀ byte ∈ asBytes word.text, byte ∉ metacharacters := by
  have hascii : ∀ char ∈ metacharacters, IsAscii char := by simp [metacharacters, IsAscii]
  exact fun byte hmem hmeta =>
    (word.plain byte (mem_of_mem_asBytes hmem (hascii byte hmeta))).1 hmeta

theorem PlainWord.noRedirect (word : PlainWord) : NoRedirect (asBytes word.text) :=
  fun byte hmem =>
    ⟨fun heq => word.not_mem_metacharacters byte hmem (heq ▸ by decide),
      fun heq => word.not_mem_metacharacters byte hmem (heq ▸ by decide)⟩

namespace Lexer

variable {lexer : Lexer} {tokens : List Token}

/-- The lexer between words. -/
def between (tokens : List Token) : Lexer := ⟨tokens, none, .unquoted⟩

/-- The lexer is unquoted, and has these tokens once its word ends. -/
def Reads (lexer : Lexer) (tokens : List Token) : Prop := lexer.flushWord = between tokens

theorem Reads.quoteState (h : lexer.Reads tokens) : lexer.quoteState = .unquoted := by
  rw [← quoteState_flushWord, h]
  rfl

/-- Reading `bytes` in front of any text without redirections takes one lexer to
another. -/
def Consumes (lexer : Lexer) (bytes : Text) (lexer' : Lexer) : Prop :=
  ∀ (turns : Nat) (rest : Text), NoRedirect rest →
    scan (bytes.length + turns) lexer (bytes ++ rest) = scan turns lexer' rest

theorem Consumes.nil (lexer : Lexer) : lexer.Consumes [] lexer := fun turns rest _ => by
  rw [length_nil, Nat.zero_add, nil_append]

theorem Consumes.trans {middle lexer' : Lexer} {bytes bytes' : Text}
    (h : lexer.Consumes bytes middle) (h' : middle.Consumes bytes' lexer')
    (hbytes : NoRedirect bytes') : lexer.Consumes (bytes ++ bytes') lexer' := by
  intro _ _ hrest
  rw [length_append, Nat.add_assoc, append_assoc, h _ _ (hbytes.append hrest), h' _ _ hrest]

theorem Reads.consumes_blanks (h : lexer.Reads tokens) {blanks : Blanks} (hne : blanks.text ≠ []) :
    lexer.Consumes blanks.text (between tokens) := by
  intro turns _ _
  rw [scan_blanks turns blanks.blank lexer h.quoteState hne, h]

theorem Reads.consumes_trail (h : lexer.Reads tokens) (blanks : Blanks) :
    ∃ lexer', lexer'.Reads tokens ∧ lexer.Consumes blanks.text lexer' := by
  by_cases hne : blanks.text = []
  · exact ⟨lexer, h, by rw [hne]; exact .nil lexer⟩
  · exact ⟨between tokens, rfl, h.consumes_blanks hne⟩

theorem consumes_plainWord (tokens : List Token) (word : PlainWord) :
    ∃ lexer', lexer'.Reads (tokens ++ [.word (asBytes word.text)]) ∧
      (between tokens).Consumes (asBytes word.text) lexer' := by
  have hhash : (asBytes word.text).head? = some '#' → (between tokens).currentWord ≠ none :=
    fun hhead => absurd (head?_of_head?_asBytes hhead (by decide)) word.not_comment
  exact ⟨(between tokens).extend (asBytes word.text), rfl, fun turns rest hrest =>
    scan_word turns word.not_mem_metacharacters hrest (between tokens) rfl
      (asBytes_ne_nil word.nonempty) hhash⟩

/-- The words behind the first one are read one by one. -/
theorem Reads.consumes_others {others : List (Blanks × PlainWord)}
    (hseparated : ∀ other ∈ others, other.1.text ≠ []) :
    ∀ {lexer : Lexer} {tokens : List Token}, lexer.Reads tokens →
      NoRedirect (asBytes (spellOthers others)) ∧
      ∃ lexer', lexer'.Reads (tokens ++ others.map fun other => .word (asBytes other.2.text)) ∧
        lexer.Consumes (asBytes (spellOthers others)) lexer' := by
  induction others with
  | nil =>
    intro lexer tokens hreads
    exact ⟨by simp [NoRedirect, spellOthers],
      lexer, by simpa using hreads, .nil lexer⟩
  | cons other others ih =>
    intro _ tokens hreads
    have hspell : asBytes (spellOthers (other :: others)) = other.1.text ++
          (asBytes other.2.text ++ asBytes (spellOthers others)) := by
      rw [spellOthers, flatMap_cons, asBytes_append, asBytes_append,
        Blanks.asBytes_text, append_assoc]
      rfl
    have hblanks := hreads.consumes_blanks (hseparated other mem_cons_self)
    obtain ⟨_, hreads₁, hword⟩ := consumes_plainWord tokens other.2
    obtain ⟨hplain, lexer₂, hreads₂, hothers⟩ :=
      ih (fun other hmem => hseparated other (mem_cons_of_mem _ hmem)) hreads₁
    have hbehind := other.2.noRedirect.append hplain
    rw [hspell]
    refine ⟨other.1.noRedirect.append hbehind, lexer₂, ?_,
      hblanks.trans (hword.trans hothers hplain) hbehind⟩
    simpa using hreads₂

/-- The tokens of a command. -/
def commandTokens (command : SpelledCommand) : List Token :=
  command.words.map fun word => .word (asBytes word)

/-- A command is read as its words. -/
theorem consumes_spell (tokens : List Token) (command : SpelledCommand) :
    NoRedirect (asBytes command.spell) ∧
      ∃ lexer', lexer'.Reads (tokens ++ commandTokens command) ∧
        (between tokens).Consumes (asBytes command.spell) lexer' := by
  have hspell : asBytes command.spell = command.lead.text ++ (asBytes command.first.text ++
        (asBytes (spellOthers command.others) ++ command.trail.text)) := by
    simp [spell, asBytes_append, Blanks.asBytes_text]
  have hlead : (between tokens).Consumes command.lead.text (between tokens) := by
    by_cases hne : command.lead.text = []
    · rw [hne]
      exact .nil _
    · have hreads : (between tokens).Reads tokens := rfl
      exact hreads.consumes_blanks hne
  obtain ⟨_, hreads₁, hfirst⟩ := consumes_plainWord tokens command.first
  obtain ⟨hplain, _, hreads₂, hothers⟩ := hreads₁.consumes_others command.separated
  obtain ⟨lexer₃, hreads₃, htrail⟩ := hreads₂.consumes_trail command.trail
  have hbehind := hplain.append command.trail.noRedirect
  have hwords := command.first.noRedirect.append hbehind
  rw [hspell]
  refine ⟨command.lead.noRedirect.append hwords, lexer₃, ?_,
    hlead.trans (hfirst.trans (hothers.trans htrail command.trail.noRedirect) hbehind) hwords⟩
  simpa [commandTokens, words, Function.comp_def] using hreads₃

/-- The tokens of a line. -/
def lineTokens (commands : List SpelledCommand) : List Token :=
  [.semi].intercalate (commands.map commandTokens)

end Lexer

theorem SpelledCommand.spell_ne_nil (command : SpelledCommand) : command.spell ≠ [] := by
  simp [spell, command.first.nonempty]

/-- What a command starts with: a blank, or the first character of its first word. -/
theorem SpelledCommand.head?_spell {command : SpelledCommand}
    (h : command.spell.head? = some char) :
    char = ' ' ∨ char = '\t' ∨ command.first.text.head? = some char := by
  unfold spell at h
  cases hlead : command.lead.text with
  | nil =>
    rw [hlead, nil_append, append_assoc, head?_append_of_ne_nil _ command.first.nonempty] at h
    exact .inr (.inr h)
  | cons first rest =>
    have hfirst := command.lead.blank first (by rw [hlead]; exact mem_cons_self)
    rw [hlead] at h
    have heq : first = char := Option.some.inj h
    rw [heq] at hfirst
    exact hfirst.imp_right .inl

theorem spellLine_cons_cons (command next : SpelledCommand) (commands : List SpelledCommand) :
    spellLine (command :: next :: commands) =
      command.spell ++ ';' :: spellLine (next :: commands) := by
  simp [spellLine]

theorem head?_spellLine_cons (command : SpelledCommand) (commands : List SpelledCommand) :
    (spellLine (command :: commands)).head? = command.spell.head? := by
  cases commands with
  | nil => simp [spellLine]
  | cons next commands =>
    rw [spellLine_cons_cons, head?_append_of_ne_nil _ command.spell_ne_nil]

namespace Lexer

theorem lineTokens_cons_cons (command next : SpelledCommand) (commands : List SpelledCommand) :
    lineTokens (command :: next :: commands) =
      commandTokens command ++ .semi :: lineTokens (next :: commands) := by
  simp [lineTokens]

/-- A `;` that no second one follows ends the command. -/
theorem Reads.consumes_semi {lexer lexer' : Lexer} {tokens : List Token} {bytes : Text}
    (h : lexer.Reads tokens) (hbytes : bytes ≠ []) (hsemi : bytes.head? ≠ some ';')
    (hconsumes : (between (tokens ++ [.semi])).Consumes bytes lexer') :
    lexer.Consumes (';' :: bytes) lexer' := by
  intro turns rest hrest
  have hoperator : lexer.operator .semi = between (tokens ++ [.semi]) := by
    rw [operator, h]
    rfl
  have hstep : lexer.step ';' (bytes ++ rest) =
      some (between (tokens ++ [.semi]), bytes ++ rest) := by
    rw [step, h.quoteState, ← hoperator]
    exact if_neg (by rwa [head?_append_of_ne_nil _ hbytes])
  have hturns : (';' :: bytes).length + turns = (bytes.length + turns) + 1 := by
    simp only [length_cons]
    omega
  rw [hturns, cons_append, scan, hstep]
  exact hconsumes turns rest hrest

/-- A line is read as the words of its commands, with `;` between them. -/
theorem consumes_spellLine (commands : List SpelledCommand) :
    ∀ (command : SpelledCommand) (tokens : List Token),
      NoRedirect (asBytes (spellLine (command :: commands))) ∧
        ∃ lexer', lexer'.Reads (tokens ++ lineTokens (command :: commands)) ∧
          (between tokens).Consumes (asBytes (spellLine (command :: commands))) lexer' := by
  induction commands with
  | nil =>
    intro command tokens
    simpa [spellLine, lineTokens] using consumes_spell tokens command
  | cons next commands ih =>
    intro command tokens
    obtain ⟨hplain, _, hreads₁, hcommand⟩ := consumes_spell tokens command
    obtain ⟨hline, lexer₂, hreads₂, hrest⟩ := ih next (tokens ++ commandTokens command ++ [.semi])
    have hne : spellLine (next :: commands) ≠ [] := by
      intro hnil
      have hhead := head?_spellLine_cons next commands
      rw [hnil] at hhead
      exact next.spell_ne_nil (head?_eq_none_iff.mp hhead.symm)
    have hsemi : (asBytes (spellLine (next :: commands))).head? ≠ some ';' := by
      intro hhead
      have hspell := head?_of_head?_asBytes hhead (by decide)
      rw [head?_spellLine_cons] at hspell
      rcases next.head?_spell hspell with h | h | h
      · cases h
      · cases h
      · exact (next.first.plain ';' (mem_of_mem_head? h)).1 (by decide)
    have hbytes : asBytes (spellLine (command :: next :: commands)) =
        asBytes command.spell ++ ';' :: asBytes (spellLine (next :: commands)) := by
      rw [spellLine_cons_cons, asBytes_append]
      rfl
    have hbehind : NoRedirect (';' :: asBytes (spellLine (next :: commands))) := by
      intro byte hmem
      rcases mem_cons.mp hmem with rfl | hmem
      · decide
      · exact hline byte hmem
    rw [hbytes]
    refine ⟨hplain.append hbehind, lexer₂, ?_, hcommand.trans
      (hreads₁.consumes_semi (asBytes_ne_nil hne) hsemi hrest) hbehind⟩
    rw [lineTokens_cons_cons]
    simpa using hreads₂

end Lexer

theorem tokenize_spellLine (command : SpelledCommand) (commands : List SpelledCommand) :
    tokenize (spellLine (command :: commands)) = .ok (lineTokens (command :: commands)) := by
  obtain ⟨-, lexer, hreads, hconsumes⟩ := consumes_spellLine commands command []
  have hscan := hconsumes 0 [] (by simp [NoRedirect])
  rw [Nat.add_zero, append_nil] at hscan
  show (scan _ (between []) _).finish = _
  rw [hscan, scan, finish, hreads.quoteState]
  exact congrArg (fun lexer => Except.ok lexer.tokens) hreads

/-! ## The commands of a line -/

/-- The loop of `parse_simple_command` on words. -/
theorem simpleCommandLoop_words (words : List Text) (rest : List Token)
    (hstop : stop = .semi ∨ stop = .newline) :
    ∀ (command : SimpleCommand) (inAssignmentPosition : Bool),
      (inAssignmentPosition = true → command.words = []) →
      (command.words = [] → command.assignments = [] → ∀ word ∈ words.head?, word ∉ closingWords) →
      simpleCommandLoop command inAssignmentPosition (words.map .word ++ stop :: rest) = .ok
          (⟨command.assignments ++ (if inAssignmentPosition then (simpleOf words).assignments else []),
            command.words ++ (if inAssignmentPosition then (simpleOf words).words else words),
            command.redirects⟩, stop :: rest) := by
  induction words with
  | nil =>
    intro command position _ _
    rcases hstop with rfl | rfl <;> cases position <;> simp [simpleCommandLoop, redirectOf, simpleOf]
  | cons word words ih =>
    intro command position hposition hclosing
    have hopen : (command.words.isEmpty && command.assignments.isEmpty &&
        closingWords.contains word) = false := by
      by_contra hall
      simp only [Bool.not_eq_false, Bool.and_eq_true, List.isEmpty_iff, List.contains_eq_mem,
        decide_eq_true_eq] at hall
      exact hclosing hall.1.1 hall.1.2 word rfl hall.2
    rw [map_cons, cons_append, simpleCommandLoop, hopen]
    by_cases hassignment : (position && (parseAssignment word).isSome) = true
    · obtain ⟨hpos, hsome⟩ := Bool.and_eq_true_iff.mp hassignment
      rw [if_pos hassignment, ih { command with assignments := command.assignments ++ [word] } true
        (fun _ => hposition hpos) (by simp)]
      simp [hpos, simpleOf, hsome]
    · rw [ih { command with words := command.words ++ [word] } false (by simp) (by simp)]
      cases hpos : position with
      | false => simp
      | true =>
        have hnone : (parseAssignment word).isSome = false := by simpa [hpos] using hassignment
        simp [simpleOf, hnone]

/-- The words of a command in front of a separator are parsed as that command alone, and
the parser stops behind the separator. -/
theorem parseCompoundList_words (fuel : Nat) (words : List Text) (rest : List Token)
    (hstop : stop = .semi ∨ stop = .newline) (hreserved : isReservedWord word = false) :
    parseCompoundList (fuel + 4) ((word :: words).map .word ++ stop :: rest) =
      .ok [⟨⟨false, [simpleOf (word :: words)]⟩, .semi⟩] := by
  have hne : ∀ reserved ∈ reservedWords, word ≠ reserved := by
    rintro _ hmem rfl
    exact absurd (contains_iff_mem.mpr hmem) (by rw [← isReservedWord, hreserved]; decide)
  have hclosing : word ∉ closingWords := by
    intro hmem
    exact hne word ((by decide : ∀ w ∈ closingWords, w ∈ reservedWords) word hmem) rfl
  have hloop := simpleCommandLoop_words (word :: words) rest hstop ⟨[], [], []⟩ true
    (fun _ => rfl) (by simpa using hclosing)
  have hfuncdef : isFuncdef (words.map .word ++ stop :: rest) = false := by
    cases words <;> rcases hstop with rfl | rfl <;> rfl
  have hsimple : parseSimpleOrCompound (fuel + 1) ((word :: words).map .word ++ stop :: rest) =
      .ok (simpleOf (word :: words), stop :: rest) := by
    rw [parseSimpleOrCompound, bind_of_ok (get_apply _)]
    simp only [map_cons, cons_append]
    rw [if_neg (hne _ (by decide)), if_neg (hne _ (by decide)), if_neg (hne _ (by decide)),
      if_neg (hne _ (by decide)), if_neg (hne _ (by decide)), if_neg (hne _ (by decide)), hfuncdef]
    exact hloop
  have hbang : ((word :: words).map Token.word ++ stop :: rest).head? ≠ some (.word "!".toList) := by
    simpa using hne "!".toList (by decide)
  have hpipe : (stop :: rest).head? ≠ some .pipe := by rcases hstop with rfl | rfl <;> simp
  have hstages : pipelineLoop (fuel + 1) (stop :: rest) = .ok ([], stop :: rest) := by
    rw [pipelineLoop, bind_of_ok (peek_apply _), if_neg hpipe]
    rfl
  have hpipeline : parsePipeline (fuel + 2) ((word :: words).map .word ++ stop :: rest) =
      .ok (⟨false, [simpleOf (word :: words)]⟩, stop :: rest) := by
    rw [parsePipeline, bind_of_ok (peekReserved_apply _ _), decide_eq_false hbang]
    simp only [Bool.false_eq_true, if_false]
    rw [bind_of_ok hsimple, bind_of_ok hstages]
    rfl
  have handor : parseAndOr (fuel + 3) ((word :: words).map .word ++ stop :: rest) =
      .ok ((⟨false, [simpleOf (word :: words)]⟩, .semi), rest) := by
    rw [parseAndOr, bind_of_ok hpipeline]
    rcases hstop with rfl | rfl <;> rfl
  have hlines : ((word :: words).map Token.word ++ stop :: rest).dropWhile (· = .newline) =
      (word :: words).map Token.word ++ stop :: rest := rfl
  have hlist : parseList (fuel + 4) .topLevel ((word :: words).map .word ++ stop :: rest) =
      .ok ([⟨⟨false, [simpleOf (word :: words)]⟩, .semi⟩], rest) := by
    rw [parseList, bind_of_ok (skipNewlines_apply _), bind_of_ok (peek_apply _),
      if_neg (by simp [ListContext.closes]), bind_of_ok (isAtEnd_apply _)]
    exact bind_of_ok handor
  rw [parseCompoundList, hlist]
  rfl

theorem isReservedWord_asBytes (h : isReservedWord word = false) :
    isReservedWord (asBytes word) = false := by
  by_contra hreserved
  have hmem : asBytes word ∈ reservedWords := by simpa [isReservedWord] using hreserved
  have hascii : ∀ reserved ∈ reservedWords, ∀ char ∈ reserved, IsAscii char := by
    simp [reservedWords, IsAscii]
  have hforeign := foreign_eq_zero_iff.mpr (hascii _ hmem)
  have hdouble := two_mul_foreign_le word
  have hbytes := asBytes_of_isAscii (foreign_eq_zero_iff.mp (by omega : foreign word = 0))
  rw [hbytes, h] at hreserved
  exact hreserved rfl

theorem head?_trim {text : Text} (h : (text.dropWhile isWhitespace).head? = some char)
    (hchar : isWhitespace char = false) : (trim text).head? = some char := by
  obtain ⟨rest, hrest⟩ := head?_eq_some_iff.mp h
  have htrim : trim text = (char :: rest).rdropWhile isWhitespace := by
    rw [trim, hrest, rdropWhile]
  have hne : (char :: rest).rdropWhile isWhitespace ≠ [] := by
    rw [Ne, rdropWhile_eq_nil_iff]
    exact fun hall => by simp [hall char mem_cons_self] at hchar
  obtain ⟨_, hsuffix⟩ := rdropWhile_prefix isWhitespace (char :: rest)
  rw [htrim, ← head?_append_of_ne_nil _ hne, hsuffix]
  rfl

/-- A line of commands starts with the first word, behind blanks. -/
theorem head?_trim_spellLine (command : SpelledCommand) (commands : List SpelledCommand) :
    (trim (spellLine (command :: commands))).head? = command.first.text.head? := by
  obtain ⟨char, word, hword⟩ := exists_cons_of_ne_nil command.first.nonempty
  obtain ⟨behind, hline⟩ : ∃ behind, spellLine (command :: commands) =
      command.lead.text ++ char :: behind := by
    cases commands with
    | nil => simp [spellLine, spell, hword]
    | cons next commands => simp [spellLine_cons_cons, spell, hword]
  have hchar : isWhitespace char = false := (command.first.plain char (by simp [hword])).2
  have hlead : ∀ blank ∈ command.lead.text, isWhitespace blank = true := fun blank hmem => by
    rcases command.lead.blank blank hmem with rfl | rfl <;> decide
  rw [hword]
  refine head?_trim ?_ hchar
  rw [hline, dropWhile_append_of_pos hlead, dropWhile_cons_of_neg (by simp [hchar])]
  rfl

/-- A turn at the prompt hands over the first command of a line, and nothing else. -/
theorem pipelines_shellTurn (fuel : Nat) (input : List Text) (state : ShellState)
    (command : SpelledCommand) (commands : List SpelledCommand) :
    (shellTurn (fuel + 4) (.atPrompt input state) (spellLine (command :: commands))).pipelines =
      [⟨false, [simpleOf (command.words.map asBytes)]⟩] := by
  have hread : ¬ ((trim (spellLine (command :: commands))).isEmpty ∨
      (trim (spellLine (command :: commands))).head? = some '#') := by
    have hhead := head?_trim_spellLine command commands
    rintro (hempty | hhash)
    · rw [isEmpty_iff.mp hempty] at hhead
      exact command.first.nonempty (head?_eq_none_iff.mp hhead.symm)
    · exact command.first.not_comment (hhead ▸ hhash)
  obtain ⟨stop, behind, hstop, htokens⟩ : ∃ stop behind, (stop = .semi ∨ stop = .newline) ∧
      lineTokens (command :: commands) ++ [.newline] =
        (command.words.map asBytes).map .word ++ stop :: behind := by
    cases commands with
    | nil =>
      exact ⟨.newline, [], .inr rfl, by
        simp [lineTokens, commandTokens]⟩
    | cons next commands =>
      exact ⟨.semi, lineTokens (next :: commands) ++ [.newline], .inl rfl, by
        simp [lineTokens_cons_cons, commandTokens]⟩
  have hparse := parseCompoundList_words fuel
    ((command.others.map fun other => other.2.text).map asBytes) behind hstop
    (isReservedWord_asBytes command.not_reserved)
  have hne : lineTokens (command :: commands) ≠ [] := by
    intro hnil
    rw [hnil] at htokens
    simp [words] at htokens
  have hpending : (Repl.atPrompt input state).pendingTokens ++
      lineTokens (command :: commands) ++ [.newline] =
        (command.words.map asBytes).map .word ++ stop :: behind := htokens
  unfold shellTurn
  rw [if_neg fun h => hread h.2, tokenize_spellLine]
  dsimp only
  rw [if_neg fun h => hne (isEmpty_iff.mp h.1), hpending]
  rw [show (command.words.map asBytes).map Token.word ++ stop :: behind =
    (asBytes command.first.text :: (command.others.map fun other => other.2.text).map asBytes).map
      Token.word ++ stop :: behind from rfl, hparse]
  rfl

theorem simpleOf_inj {words words' : List Text} :
    simpleOf words = simpleOf words' ↔ words = words' := by
  have hsplit : ∀ words, (simpleOf words).assignments ++ (simpleOf words).words = words :=
    fun words => takeWhile_append_dropWhile
  refine ⟨fun h => ?_, congrArg simpleOf⟩
  rw [← hsplit words, h, hsplit words']

/-- Exactly the commands of a line are handed to `execute_compound_list` if and only if
there is at most one of them, in ASCII. -/
theorem line_handed_over_iff (fuel : Nat) (input : List Text) (state : ShellState)
    (commands : List SpelledCommand) :
    (shellTurn (fuel + 4) (.atPrompt input state) (spellLine commands)).pipelines =
        commands.map SpelledCommand.pipeline ↔
      commands.length ≤ 1 ∧
        ∀ command ∈ commands, ∀ word ∈ command.words, ∀ char ∈ word, IsAscii char := by
  cases commands with
  | nil =>
    have hturn : shellTurn (fuel + 4) (.atPrompt input state) (spellLine []) =
        .next (.atPrompt input state) := rfl
    rw [hturn]
    simp [Turn.pipelines]
  | cons command commands =>
    have hwords : simpleOf (command.words.map asBytes) = simpleOf command.words ↔
        ∀ word ∈ command.words, ∀ char ∈ word, IsAscii char := by
      have hself : command.words.map asBytes = command.words.map id ↔
          ∀ word ∈ command.words, asBytes word = id word := map_inj_left
      rw [map_id] at hself
      rw [simpleOf_inj, hself]
      exact forall₂_congr fun word _ => asBytes_eq_self_iff
    rw [pipelines_shellTurn]
    cases commands with
    | nil => simp [SpelledCommand.pipeline, hwords]
    | cons next commands => simp

def lsTmp : SpelledCommand :=
  ⟨⟨[], by simp⟩, ⟨['l', 's'], by simp, by simp [metacharacters, isWhitespace], by simp⟩,
    [(⟨[' '], by simp⟩,
      ⟨['/', 't', 'm', 'p'], by simp, by simp [metacharacters, isWhitespace], by simp⟩)],
    ⟨[], by simp⟩, by simp, by decide +kernel⟩

theorem single_command_handed_over :
    spellLine [lsTmp] = "ls /tmp".toList ∧
      (shellTurn 4 (.atPrompt [] sampleState) (spellLine [lsTmp])).pipelines =
        [⟨false, [⟨[], ["ls".toList, "/tmp".toList], []⟩]⟩] := by
  refine ⟨rfl, ?_⟩
  exact ((line_handed_over_iff 0 [] sampleState _).mpr
    ⟨by decide, by simp [lsTmp, SpelledCommand.words, IsAscii]⟩).trans (by decide +kernel)

/-- Of the line `ls; pwd` the shell hands over `ls` alone. -/
theorem second_command_dropped :
    (shellTurn 4 (.atPrompt [] sampleState) "ls; pwd".toList).pipelines =
      [⟨false, [⟨[], ["ls".toList], []⟩]⟩] := by
  decide +kernel

end Bazzulto.Shell
