/-
  Shell/Quoting.lean --- what becomes of a single-quoted text.

  The lexer drops the quotes and keeps no mark of them, so that the expander meets the
  text as if it had been unquoted: it expands the tilde, the dollars and the backquotes
  in it and splits it at `IFS`.  The texts that come out as they went in are those of
  `Survives`.
-/
import Bazzulto.Shell.Expand

set_option autoImplicit false

namespace Bazzulto.Shell

open Splitter

variable {rest text : Text} {state : ShellState} {pieces : List Piece}

/-! ## Texts without expansions -/

/-- A byte that starts an expansion behind a dollar. -/
def startsExpansion (next : Char) : Bool :=
  next = '\x7b' || next = '(' || ['@', '*', '#', '?', '-', '$', '!', '0'].contains next ||
    next.isDigit || next = '_' || next.isAlpha

/-- No backquote, and no dollar that starts an expansion. -/
def Inert : Text → Prop
  | [] => True
  | char :: rest =>
    char ≠ '\x60' ∧ (char = '$' → ∀ next ∈ rest.head?, startsExpansion next = false) ∧ Inert rest

instance decidableInert : (text : Text) → Decidable (Inert text)
  | [] => isTrue trivial
  | _ :: rest =>
    have : Decidable (Inert rest) := decidableInert rest
    inferInstanceAs (Decidable (_ ∧ _ ∧ Inert rest))

theorem isAscii_of_startsExpansion {next : Char} (h : startsExpansion next) : IsAscii next := by
  have hupper : ∀ high : Char, IsAscii high → next.val ≤ high.val → IsAscii next :=
    fun high hhigh hle => Nat.lt_of_le_of_lt hle hhigh
  -- the three classes of characters are ranges, each with its last character
  have hrange : ∀ {low high : Bool}, (low && high) = true → high = true :=
    fun h => (Bool.and_eq_true_iff.mp h).2
  simp only [startsExpansion, Bool.or_eq_true, decide_eq_true_eq, List.contains_eq_mem,
    List.mem_cons, List.not_mem_nil, or_false] at h
  rcases h with ((((rfl | rfl) | h) | h) | rfl) | h
  · decide
  · decide
  · rcases h with rfl | rfl | rfl | rfl | rfl | rfl | rfl | rfl <;> decide
  · exact hupper '9' (by decide) (of_decide_eq_true (hrange h))
  · decide
  · rcases Bool.or_eq_true_iff.mp h with h | h
    · exact hupper 'Z' (by decide) (of_decide_eq_true h).2
    · exact hupper 'z' (by decide) (of_decide_eq_true (hrange h))

theorem inert_append_of_foreign {bytes : Text} (hbytes : ∀ byte ∈ bytes, ¬ IsAscii byte)
    (hrest : Inert rest) : Inert (bytes ++ rest) := by
  induction bytes with
  | nil => exact hrest
  | cons byte bytes ih =>
    have hbyte := hbytes byte List.mem_cons_self
    refine ⟨?_, ?_, ih fun byte hmem => hbytes byte (List.mem_cons_of_mem _ hmem)⟩
    · rintro rfl
      exact hbyte (by decide)
    · rintro rfl
      exact absurd (by decide) hbyte

theorem Inert.asBytes (h : Inert text) : Inert (asBytes text) := by
  induction text with
  | nil => exact trivial
  | cons char text ih =>
    obtain ⟨hquote, hdollar, hrest⟩ := h
    rw [asBytes_cons]
    by_cases hchar : IsAscii char
    · rw [asBytes_singleton_of_isAscii hchar]
      refine ⟨hquote, fun heq byte hbyte => ?_, ih hrest⟩
      by_contra hstarts
      have hascii := isAscii_of_startsExpansion (Bool.of_not_eq_false hstarts)
      exact hstarts (hdollar heq byte (head?_of_head?_asBytes hbyte hascii))
    · exact inert_append_of_foreign (asBytes_singleton_of_not_isAscii hchar).2 (ih hrest)

/-! ## Inert bytes are copied -/

section Pieces

variable (commandSub : Text → Expansion Text) {bytes : Text}

/-- A dollar that starts no expansion is a piece of its own. -/
theorem expandDollar_of_not_startsExpansion (fuel : Nat) (state : ShellState)
    (h : ∀ next ∈ bytes.head?, startsExpansion next = false) :
    expandDollar commandSub (fuel + 1) bytes state = .ok ((some ⟨['$'], false⟩, bytes), state) := by
  cases bytes with
  | nil => rfl
  | cons next rest =>
    have hnext := h next rfl
    simp only [startsExpansion, Bool.or_eq_false_iff, decide_eq_false_iff_not] at hnext
    obtain ⟨⟨⟨⟨⟨hbrace, hparen⟩, hspecial⟩, hdigit⟩, hunderscore⟩, halpha⟩ := hnext
    rw [expandDollar]
    · simp only [hspecial, hdigit, hunderscore, halpha]
      rfl
    · exact hbrace
    · exact hparen

/-- What the loop of `expand_to_pieces` gives for bytes without expansions. -/
theorem expandLoop_of_inert (state : ShellState) (h : Inert bytes) :
    ∀ literalBuf, ∃ pieces,
      expandLoop commandSub bytes.length literalBuf bytes state = .ok (pieces, state) ∧
        (∀ piece ∈ pieces, piece.quoted = false) ∧
        (pieces.map Piece.text).flatten = literalBuf ++ bytes ∧
        ('$' ∈ bytes → ⟨['$'], false⟩ ∈ pieces) ∧
        ('$' ∉ bytes → pieces = flushLiteral (literalBuf ++ bytes)) := by
  have hflush : ∀ literalBuf, (∀ piece ∈ flushLiteral literalBuf, piece.quoted = false) ∧
      ((flushLiteral literalBuf).map Piece.text).flatten = literalBuf := by
    intro literalBuf
    unfold flushLiteral
    split
    next hempty => simp [List.isEmpty_iff.mp hempty]
    · simp
  induction bytes with
  | nil =>
    intro literalBuf
    refine ⟨flushLiteral literalBuf, rfl, (hflush literalBuf).1, ?_, by simp, by simp⟩
    rw [(hflush literalBuf).2, List.append_nil]
  | cons byte bytes ih =>
    obtain ⟨hquote, hdollar, hrest⟩ := h
    intro literalBuf
    by_cases hbyte : byte = '$'
    · obtain ⟨pieces, hloop, hquoted, htext, -, -⟩ := ih hrest []
      have hstep := expandDollar_of_not_startsExpansion commandSub bytes.length state
        (hdollar hbyte)
      refine ⟨flushLiteral literalBuf ++ [⟨['$'], false⟩] ++ pieces, ?_, ?_, ?_, ?_, ?_⟩
      · rw [List.length_cons, expandLoop, if_pos hbyte]
        simp only [bind, StateT.bind, Except.bind, hstep, hloop]
        rfl
      · intro piece hpiece
        simp only [List.mem_append, List.mem_singleton] at hpiece
        rcases hpiece with (hpiece | rfl) | hpiece
        · exact (hflush literalBuf).1 piece hpiece
        · rfl
        · exact hquoted piece hpiece
      · simp only [List.map_append, List.flatten_append, (hflush literalBuf).2, htext, hbyte]
        simp
      · simp
      · simp [hbyte]
    · obtain ⟨pieces, hloop, hquoted, htext, hmem, hplain⟩ := ih hrest (literalBuf ++ [byte])
      refine ⟨pieces, ?_, hquoted, ?_, ?_, ?_⟩
      · rw [List.length_cons, expandLoop, if_neg hbyte, if_neg hquote]
        exact hloop
      · rw [htext, List.append_assoc]
        rfl
      · exact fun h => hmem ((List.mem_cons.mp h).resolve_left (Ne.symm hbyte))
      · intro h
        rw [hplain (fun hin => h (List.mem_cons_of_mem _ hin)), List.append_assoc]
        rfl

end Pieces

/-! ## Splitting unquoted text -/

namespace Splitter

variable {ifs : Text}

theorem foldl_scanPiece_of_unquoted (ifs : Text) (h : ∀ piece ∈ pieces, piece.quoted = false) :
    ∀ splitter : Splitter, pieces.foldl (scanPiece ifs) splitter =
      (pieces.map Piece.text).flatten.foldl (scanChar ifs) splitter := by
  induction pieces with
  | nil => exact fun _ => rfl
  | cons piece pieces ih =>
    intro splitter
    have hpiece : scanPiece ifs splitter piece = piece.text.foldl (scanChar ifs) splitter := by
      rw [scanPiece, h piece List.mem_cons_self]
      rfl
    rw [List.foldl_cons, hpiece, List.map_cons, List.flatten_cons, List.foldl_append,
      ih fun piece hmem => h piece (List.mem_cons_of_mem _ hmem)]

/-- What the fields hold after `text`: its characters that are not in `IFS`, in order.
Every delimiter that is no white space has ended a field. -/
structure Holds (ifs text : Text) (splitter : Splitter) : Prop where
  kept : splitter.fields.flatten ++ splitter.currentField = text.filter fun c => c ∉ ifs
  delimiters : (text.countP fun c => c ∈ ifs ∧ ¬ isBlank c) ≤ splitter.fields.length
  outside : splitter.inField = false → splitter.currentField = []

theorem Holds.scanChar {splitter : Splitter} (h : Holds ifs text splitter) (char : Char) :
    Holds ifs (text ++ [char]) (splitter.scanChar ifs char) := by
  obtain ⟨hkept, hdelimiters, houtside⟩ := h
  have hflush : ∀ (_ : char ∈ ifs), Holds ifs (text ++ [char]) splitter.flush := by
    intro hmem
    refine ⟨?_, ?_, fun _ => rfl⟩
    · rw [List.filter_append, ← hkept]
      simp [flush, hmem]
    · have hone : [char].countP (fun c => c ∈ ifs ∧ ¬ isBlank c) ≤ 1 := List.countP_le_length
      simp only [flush, List.countP_append, List.length_append, List.length_singleton]
      omega
  unfold Splitter.scanChar
  split
  next hin =>
    have hmem : char ∈ ifs := by simpa using hin
    split
    next hblank =>
      split
      · exact hflush hmem
      refine ⟨?_, ?_, houtside⟩
      · rw [List.filter_append, ← hkept]
        simp [hmem]
      · simpa [hblank] using hdelimiters
    · exact hflush hmem
  next hout =>
    have hmem : char ∉ ifs := by simpa using hout
    refine ⟨?_, ?_, fun hfalse => absurd hfalse (by simp)⟩
    · rw [List.filter_append, ← hkept]
      simp [hmem]
    · simpa [hmem] using hdelimiters

theorem holds_foldl (ifs text : Text) :
    Holds ifs text (text.foldl (Splitter.scanChar ifs) ⟨[], [], false⟩) := by
  induction text using List.reverseRecOn with
  | nil => exact ⟨rfl, le_rfl, fun _ => rfl⟩
  | append_singleton text char ih =>
    rw [List.foldl_append]
    exact ih.scanChar char

/-- Text without `IFS` characters stays in one field. -/
theorem finish_of_disjoint (hne : text ≠ []) (h : ∀ c ∈ text, c ∉ ifs) :
    (text.foldl (Splitter.scanChar ifs) ⟨[], [], false⟩).finish = [text] := by
  have hfold : ∀ (rest current : Text) (inField : Bool), (∀ c ∈ rest, c ∉ ifs) → rest ≠ [] →
      rest.foldl (Splitter.scanChar ifs) ⟨[], current, inField⟩ = ⟨[], current ++ rest, true⟩ := by
    intro rest
    induction rest with
    | nil => exact fun _ _ _ hnil => absurd rfl hnil
    | cons char rest ih =>
      intro current inField hrest _
      have hchar : Splitter.scanChar ifs ⟨[], current, inField⟩ char =
          ⟨[], current ++ [char], true⟩ := by
        simp [Splitter.scanChar, hrest char List.mem_cons_self]
      rw [List.foldl_cons, hchar]
      cases rest with
      | nil => rfl
      | cons next rest =>
        rw [ih _ _ (fun c hmem => hrest c (List.mem_cons_of_mem _ hmem))
          (List.cons_ne_nil _ _), List.append_assoc]
        rfl
  rw [hfold text [] false h hne]
  rfl

/-- One field that spells a text: the characters outside `IFS`, and at most one
delimiter that is no white space. -/
theorem of_finish_eq_singleton {field : Text}
    (h : (text.foldl (Splitter.scanChar ifs) ⟨[], [], false⟩).finish = [field]) :
    (field = text.filter fun c => c ∉ ifs) ∧ (text.countP fun c => c ∈ ifs ∧ ¬ isBlank c) ≤ 1 := by
  have hholds := holds_foldl ifs text
  obtain ⟨hkept, hdelimiters, _⟩ := hholds
  unfold finish at h
  split at h
  · have hfield := congrArg List.flatten h
    have hlen := congrArg List.length h
    simp only [List.flatten_append, List.flatten_singleton, List.length_append,
      List.length_singleton] at hfield hlen
    exact ⟨by rw [← hkept, hfield], by omega⟩
  next hout =>
    rw [not_or, not_not] at hout
    rw [h, hout.2] at hkept
    exact ⟨by simpa using hkept, by rw [h] at hdelimiters; simpa using hdelimiters⟩

end Splitter

/-! ## The condition -/

/-- The value of `HOME`, empty if unset. -/
def homeOf (state : ShellState) : Text := (state.vars.get "HOME".toList).getD []

/-- A tilde in front is not replaced: a login name follows it, `HOME` is empty, or it
spells a tilde itself. -/
def TildeKept (state : ShellState) : Text → Prop
  | '~' :: rest =>
    (rest = [] ∨ rest.head? = some '/') → homeOf state = [] ∨ trimEndSlashes (homeOf state) = ['~']
  | _ => True

instance decidableTildeKept (state : ShellState) (text : Text) :
    Decidable (TildeKept state text) := by
  unfold TildeKept
  split <;> infer_instance

/-- The texts that survive tokenisation and expansion. -/
structure Survives (state : ShellState) (text : Text) : Prop where
  nonempty : text ≠ []
  ascii : ∀ char ∈ text, IsAscii char
  inert : Inert text
  disjoint : ∀ char ∈ text, char ∉ ifsOf state
  single : ifsOf state = [] → '$' ∉ text ∨ text = ['$']
  tilde : TildeKept state text

/-- `expand_tilde` behind a tilde. -/
theorem expandTilde_cons (state : ShellState) (rest : Text) :
    expandTilde ('~' :: rest) state =
      if (rest = [] ∨ rest.head? = some '/') ∧ homeOf state ≠ [] then
        trimEndSlashes (homeOf state) ++ rest
      else '~' :: rest := by
  have hlogin : (rest.takeWhile (· ≠ '/')).isEmpty ↔ rest = [] ∨ rest.head? = some '/' := by
    cases rest with
    | nil => simp
    | cons char rest =>
      by_cases hchar : char = '/' <;> simp [hchar]
  have hsuffix : rest = [] ∨ rest.head? = some '/' → rest.dropWhile (· ≠ '/') = rest := by
    rintro (rfl | hhead)
    · rfl
    · obtain ⟨_, rfl⟩ := List.head?_eq_some_iff.mp hhead
      simp
  have hunfold : expandTilde ('~' :: rest) state =
      if (rest.takeWhile (· ≠ '/')).isEmpty then
        if (homeOf state).isEmpty then '~' :: rest
        else trimEndSlashes (homeOf state) ++ rest.dropWhile (· ≠ '/')
      else '~' :: rest := rfl
  rw [hunfold]
  by_cases hname : rest = [] ∨ rest.head? = some '/'
  · rw [if_pos (hlogin.mpr hname), hsuffix hname]
    by_cases hhome : homeOf state = [] <;> simp [hname]
  · rw [if_neg fun h => hname (hlogin.mp h), if_neg fun h => hname h.1]

theorem expandTilde_eq_self_iff :
    expandTilde ('~' :: rest) state = '~' :: rest ↔ TildeKept state ('~' :: rest) := by
  rw [expandTilde_cons]
  split
  next h =>
    rw [show '~' :: rest = ['~'] ++ rest from rfl, List.append_left_inj]
    exact ⟨fun heq _ => .inr heq, fun hkept => (hkept h.1).resolve_left h.2⟩
  next h =>
    rw [not_and, not_not] at h
    exact ⟨fun _ hname => .inl (h hname), fun _ => rfl⟩

/-! ## The way of a quoted text -/

/-- The fields of pieces that are unquoted depend on their text alone, unless `IFS` is
empty. -/
theorem fieldSplit_of_unquoted (hifs : ifsOf state ≠ [])
    (hquoted : ∀ piece ∈ pieces, piece.quoted = false)
    (htext : (pieces.map Piece.text).flatten = text) :
    fieldSplit pieces state =
      (text.foldl (Splitter.scanChar (ifsOf state)) ⟨[], [], false⟩).finish := by
  rw [fieldSplit, if_neg fun h => hifs (List.isEmpty_iff.mp h),
    foldl_scanPiece_of_unquoted _ hquoted, htext]

section Word

variable (commandSub : Text → Expansion Text) (state : ShellState) {word : Text}

/-- A tilde that is replaced makes the word one field. -/
theorem expandWord_of_tilde (hhead : word.head? = some '~')
    (hexpanded : expandTilde word state ≠ word) :
    expandWord commandSub word state = .ok ([expandTilde word state], state) := by
  have hsplit : fieldSplit [⟨expandTilde word state, true⟩] state = [expandTilde word state] := by
    unfold fieldSplit
    split <;> rfl
  have hpieces : expandToPieces commandSub word state =
      .ok ([⟨expandTilde word state, true⟩], state) := by
    simp only [expandToPieces, bind, StateT.bind, Except.bind, get, getThe, MonadStateOf.get,
      StateT.get, pure, Except.pure]
    rw [if_pos ⟨hhead, hexpanded⟩]
    rfl
  simp only [expandWord, bind, StateT.bind, hpieces]
  exact congrArg (fun fields => Except.ok (fields, state)) hsplit

/-- Without expansions the word is split as it stands. -/
theorem expandWord_of_inert (htilde : word.head? = some '~' → expandTilde word state = word)
    (hinert : Inert (asBytes word)) :
    ∃ pieces, expandWord commandSub word state = .ok (fieldSplit pieces state, state) ∧
      (∀ piece ∈ pieces, piece.quoted = false) ∧
      (pieces.map Piece.text).flatten = asBytes word ∧
      ('$' ∈ asBytes word → ⟨['$'], false⟩ ∈ pieces) ∧
      ('$' ∉ asBytes word → pieces = flushLiteral (asBytes word)) := by
  obtain ⟨pieces, hloop, hspec⟩ := expandLoop_of_inert commandSub state hinert []
  refine ⟨pieces, ?_, hspec⟩
  have hpieces : expandToPieces commandSub word state = .ok (pieces, state) := by
    simp only [expandToPieces, bind, StateT.bind, Except.bind, get, getThe, MonadStateOf.get,
      StateT.get, pure, Except.pure]
    rw [if_neg fun h => h.2 (htilde h.1)]
    exact hloop
  simp only [expandWord, bind, StateT.bind, hpieces]
  rfl

end Word

/-- Of the characters that are not ASCII, splitting drops delimiters alone. -/
theorem foreign_le_filter_add (ifs text : Text) :
    foreign text ≤ foreign (text.filter fun c => c ∉ ifs) +
      text.countP fun c => c ∈ ifs ∧ ¬ isBlank c := by
  induction text with
  | nil => simp
  | cons char text ih =>
    have hblank : isBlank char → IsAscii char := by
      intro h
      simp only [isBlank, Bool.or_eq_true, decide_eq_true_eq] at h
      rcases h with (rfl | rfl) | rfl <;> decide
    unfold foreign at ih ⊢
    by_cases hascii : IsAscii char <;> by_cases hmem : char ∈ ifs <;>
      by_cases hb : isBlank char <;> simp_all <;> omega

/-- A text that comes out of the splitter as it went into the lexer is ASCII. -/
theorem isAscii_of_fieldSplit (hquoted : ∀ piece ∈ pieces, piece.quoted = false)
    (htext : (pieces.map Piece.text).flatten = asBytes (asBytes text))
    (hfields : fieldSplit pieces state = [text]) : ∀ char ∈ text, IsAscii char := by
  have hdouble := two_mul_foreign_le text
  have hdouble' := two_mul_foreign_le (asBytes text)
  refine foreign_eq_zero_iff.mp ?_
  by_cases hifs : ifsOf state = []
  · rw [fieldSplit, if_pos (List.isEmpty_iff.mpr hifs)] at hfields
    rw [hfields, List.flatten_singleton] at htext
    have hsame := congrArg foreign htext
    omega
  · rw [fieldSplit_of_unquoted hifs hquoted htext] at hfields
    obtain ⟨hkept, _⟩ := of_finish_eq_singleton hfields
    have hdropped := foreign_le_filter_add (ifsOf state) (asBytes (asBytes text))
    rw [← hkept] at hdropped
    omega

/-- The value of `HOME` never hides that the bytes of a text were widened. -/
theorem expandTilde_asBytes_ne (h : expandTilde ('~' :: asBytes rest) state ≠ '~' :: asBytes rest) :
    expandTilde ('~' :: asBytes rest) state ≠ '~' :: rest := by
  intro heq
  have hascii : ∀ char ∈ rest, IsAscii char := by
    rw [expandTilde_cons] at heq h
    split at heq
    · have hforeign := congrArg foreign heq
      rw [foreign_append, show '~' :: rest = ['~'] ++ rest from rfl, foreign_append] at hforeign
      have htilde : foreign ['~'] = 0 := by decide
      have hdouble := two_mul_foreign_le rest
      exact foreign_eq_zero_iff.mp (by omega)
    next hkept => exact absurd (if_neg hkept) h
  rw [asBytes_of_isAscii hascii] at h heq
  exact h heq

/-- A surviving text is one field. -/
theorem Survives.expandWord (h : Survives state text) (commandSub : Text → Expansion Text) :
    expandWord commandSub (asBytes text) state = .ok ([text], state) := by
  have hbytes : asBytes text = text := asBytes_of_isAscii h.ascii
  have htilde : text.head? = some '~' → expandTilde text state = text := by
    intro hhead
    obtain ⟨_, rfl⟩ := List.head?_eq_some_iff.mp hhead
    exact expandTilde_eq_self_iff.mpr h.tilde
  obtain ⟨pieces, hexpand, hquoted, hflatten, -, hplain⟩ :=
    expandWord_of_inert commandSub state (by rwa [hbytes]) h.inert.asBytes.asBytes
  rw [hbytes, hbytes] at hflatten hplain
  by_cases hifs : ifsOf state = []
  · have hempty : ∀ pieces, fieldSplit pieces state = pieces.map Piece.text := fun pieces => by
      rw [fieldSplit, if_pos (List.isEmpty_iff.mpr hifs)]
    rcases h.single hifs with hdollar | rfl
    · rw [hexpand, hempty, hplain hdollar, flushLiteral,
        if_neg fun hnil => h.nonempty (List.isEmpty_iff.mp hnil)]
      rfl
    have hlone : Shell.expandWord commandSub ['$'] state =
        .ok (fieldSplit [⟨['$'], false⟩] state, state) := rfl
    rw [hbytes, hlone, hempty]
    rfl
  · rw [hexpand, fieldSplit_of_unquoted hifs hquoted hflatten,
      finish_of_disjoint h.nonempty h.disjoint]

/-- Of the texts without expansions, only a surviving one comes out as it went in. -/
theorem survives_of_expandWord {commandSub : Text → Expansion Text} (hinert : Inert text)
    (h : (expandWord commandSub (asBytes text) state).map Prod.fst = .ok [text]) :
    Survives state text := by
  -- a tilde that is replaced spoils the word
  have htilde : (asBytes text).head? = some '~' → expandTilde (asBytes text) state = asBytes text := by
    intro hhead
    by_contra hexpanded
    rw [expandWord_of_tilde commandSub state hhead hexpanded] at h
    obtain ⟨_, rfl⟩ := List.head?_eq_some_iff.mp
      (head?_of_head?_asBytes hhead (by decide))
    exact expandTilde_asBytes_ne hexpanded (List.singleton_inj.mp (Except.ok.inj h))
  obtain ⟨pieces, hexpand, hquoted, hflatten, hdollar, hplain⟩ :=
    expandWord_of_inert commandSub state htilde hinert.asBytes.asBytes
  rw [hexpand] at h
  have hfields : fieldSplit pieces state = [text] := Except.ok.inj h
  have hascii := isAscii_of_fieldSplit hquoted hflatten hfields
  rw [asBytes_of_isAscii hascii] at htilde hflatten hdollar hplain
  rw [asBytes_of_isAscii hascii] at hflatten hdollar hplain
  have hne : text ≠ [] := by
    rintro rfl
    rw [hplain (List.not_mem_nil)] at hfields
    unfold fieldSplit at hfields
    split at hfields <;> simp [flushLiteral, finish] at hfields
  refine ⟨hne, hascii, hinert, ?_, ?_, ?_⟩
  · by_cases hifs : ifsOf state = []
    · simp [hifs]
    · rw [fieldSplit_of_unquoted hifs hquoted hflatten] at hfields
      have hkept := (of_finish_eq_singleton hfields).1
      simpa using List.filter_eq_self.mp hkept.symm
  · intro hifs
    by_cases hmem : '$' ∈ text
    · rw [fieldSplit, if_pos (List.isEmpty_iff.mpr hifs)] at hfields
      have hpiece : ['$'] ∈ pieces.map Piece.text := List.mem_map_of_mem (hdollar hmem)
      rw [hfields, List.mem_singleton] at hpiece
      exact .inr hpiece.symm
    · exact .inl hmem
  · unfold TildeKept
    split
    · exact expandTilde_eq_self_iff.mp (htilde rfl)
    · trivial

/-- A command substitution without output. -/
def silentCommand : Text → Expansion Text := fun _ => pure []

end Bazzulto.Shell
