/-
  Drivers/Tty.lean --- the terminal in cooked mode.

  Embeds `cooked_mode_process_byte` and `tty_read_bytes` (kernel/src/drivers/tty.rs).  The
  line buffer is the list of its first `line_buffer_length` bytes.  A read waits until
  `line_ready` is set; the bytes that its loop polls from the UART are events like those
  of the keyboard interrupt.

  `Discipline` is what the driver is for: a queue of completed lines and the line being
  typed.  The driver keeps both in one buffer with one flag, so it does the same as long
  as no line is edited while another is waiting to be read.
-/
import Bazzulto.Foundation.Run

set_option autoImplicit false

namespace Bazzulto.Tty

open Foundation Option

/-! ## The driver -/

/-- `TTY_LINE_BUFFER_CAPACITY`. -/
def lineBufferCapacity : Nat := 4096

/-- `TtyState` in cooked mode. -/
structure TtyState where
  lineBuffer : List UInt8 := []
  lineReady : Bool := false

open TtyState

/-- What processing a byte sends elsewhere. -/
inductive Output where
  | signal (number : UInt8)
  | puts (text : String)
  | echo (bytes : List UInt8)

/-- BS or DEL. -/
def IsErase (byte : UInt8) : Prop := byte = 0x08 ∨ byte = 0x7F
  deriving Decidable

/-- CR or LF. -/
def IsNewline (byte : UInt8) : Prop := byte = 0x0D ∨ byte = 0x0A
  deriving Decidable

def IsPrintable (byte : UInt8) : Prop := 0x20 ≤ byte ∧ byte < 0x7F
  deriving Decidable

/-- The byte edits no line. -/
def IsIdle (byte : UInt8) : Prop := ¬ IsErase byte ∧ ¬ IsNewline byte ∧ ¬ IsPrintable byte
  deriving Decidable

/-- The control characters that signal the foreground process: the signal and what the
UART shows. -/
def control (byte : UInt8) : Option (UInt8 × String) :=
  if byte = 0x03 then some (2, "^C\r\n")
  else if byte = 0x1A then some (20, "^Z\r\n")
  else if byte = 0x1C then some (3, "^\\\r\n")
  else none

namespace TtyState

/-- Append a byte if the buffer has room. -/
def push (tty : TtyState) (byte : UInt8) : TtyState :=
  if tty.lineBuffer.length < lineBufferCapacity then
    { tty with lineBuffer := tty.lineBuffer ++ [byte] }
  else tty

/-- `cooked_mode_process_byte`. -/
def processByte (tty : TtyState) (byte : UInt8) : TtyState × List Output :=
  match control byte with
  | some (number, text) => (tty, [.signal number, .puts text])
  | none =>
    if IsErase byte then
      if tty.lineBuffer = [] then (tty, [])
      else ({ tty with lineBuffer := tty.lineBuffer.dropLast }, [.echo [0x08, 0x20, 0x08]])
    else if IsNewline byte then
      ({ tty.push 0x0A with lineReady := true }, [.echo [0x0D, 0x0A]])
    else if IsPrintable byte then
      (tty.push byte,
        if tty.lineBuffer.length < lineBufferCapacity then [.echo [byte]] else [])
    else (tty, [])

/-- `tty_read_bytes` into a buffer of `length` bytes: what it returns once it has not to
wait. -/
def readBytes (tty : TtyState) (length : Nat) : Option (List UInt8 × TtyState) :=
  if length = 0 then some ([], tty)
  else if tty.lineReady then
    let remaining := tty.lineBuffer.drop length
    some (tty.lineBuffer.take length,
      { lineBuffer := remaining, lineReady := !remaining.isEmpty })
  else none

end TtyState

/-! ## The line discipline -/

/-- The completed lines that have not been read, and the unfinished one. -/
structure Discipline where
  completed : List (List UInt8) := []
  current : List UInt8 := []

namespace Discipline

/-- Erasing acts on the unfinished line, a newline always completes it, and other bytes
are dropped while the buffer is full. -/
def processByte (lines : Discipline) (byte : UInt8) : Discipline :=
  if IsErase byte then { lines with current := lines.current.dropLast }
  else if IsNewline byte then { completed := lines.completed ++ [lines.current ++ [0x0A]] }
  else if IsPrintable byte ∧
      lines.completed.flatten.length + lines.current.length < lineBufferCapacity then
    { lines with current := lines.current ++ [byte] }
  else lines

/-- A read takes bytes of the oldest completed line, and waits if there is none. -/
def readBytes (lines : Discipline) (length : Nat) : Option (List UInt8 × Discipline) :=
  if length = 0 then some ([], lines)
  else
    match lines.completed with
    | [] => none
    | line :: rest =>
      some (line.take length,
        { lines with
          completed := if line.length ≤ length then rest else line.drop length :: rest })

end Discipline

/-! ## Sessions -/

/-- A byte arrives, or a read with a buffer of some size is made. -/
inductive Event where
  | byte (byte : UInt8)
  | read (length : Nat)

/-- The driver and the discipline with the same input, and what their reads returned;
`none` is a read that has to wait. -/
structure Session where
  tty : TtyState := {}
  lines : Discipline := {}
  returned : List (Option (List UInt8)) := []
  expected : List (Option (List UInt8)) := []

def step (session : Session) : Event → Option Session
  | .byte byte => some
    { session with
      tty := (session.tty.processByte byte).1
      lines := session.lines.processByte byte }
  | .read length =>
    let read := session.tty.readBytes length
    let wanted := session.lines.readBytes length
    some
      { tty := (read.map Prod.snd).getD session.tty
        lines := (wanted.map Prod.snd).getD session.lines
        returned := session.returned ++ [read.map Prod.fst]
        expected := session.expected ++ [wanted.map Prod.fst] }

/-- A byte that edits the line comes only while no completed line is waiting, and a
newline only while the buffer has room. -/
def Paced (session : Session) : Event → Prop
  | .byte byte =>
    (session.tty.lineReady = true → IsIdle byte) ∧
      (IsNewline byte → session.tty.lineBuffer.length < lineBufferCapacity)
  | .read _ => True

instance (session : Session) (event : Event) : Decidable (Paced session event) :=
  match event with
  | .byte _ => inferInstanceAs (Decidable (_ ∧ _))
  | .read _ => isTrue trivial

/-- The buffer is the one completed line or the unfinished one, as the flag says. -/
def TtyState.view (tty : TtyState) : Discipline :=
  if tty.lineReady then { completed := [tty.lineBuffer] } else { current := tty.lineBuffer }

/-- A line that is ready has its newline at least. -/
def TtyState.Filled (tty : TtyState) : Prop := tty.lineReady = true → tty.lineBuffer ≠ []

variable {tty : TtyState} {byte : UInt8}

theorem idle_of_control {effect : UInt8 × String} (h : control byte = some effect) :
    IsIdle byte := by
  unfold control at h
  repeat' split at h
  · subst byte
    decide
  · subst byte
    decide
  · subst byte
    decide
  · cases h

theorem processByte_idle (h : IsIdle byte) (tty : TtyState) (lines : Discipline) :
    (tty.processByte byte).1 = tty ∧ lines.processByte byte = lines := by
  obtain ⟨herase, hnewline, hprintable⟩ := h
  constructor
  · unfold processByte
    split
    · rfl
    · rw [if_neg herase, if_neg hnewline, if_neg hprintable]
  · rw [Discipline.processByte, if_neg herase, if_neg hnewline, if_neg fun h => hprintable h.1]

/-- On an unfinished line with room for a newline, driver and discipline do the same. -/
theorem view_processByte {buffer : List UInt8} (hcontrol : control byte = none)
    (hroom : IsNewline byte → buffer.length < lineBufferCapacity) :
    ((mk buffer false).processByte byte).1.view =
        (Discipline.mk [] buffer).processByte byte ∧
      ((mk buffer false).processByte byte).1.Filled := by
  unfold processByte Discipline.processByte push
  rw [hcontrol]
  dsimp only
  split
  · split
    next hempty => exact ⟨by rw [hempty]; rfl, by simp [TtyState.Filled]⟩
    · exact ⟨rfl, by simp [TtyState.Filled]⟩
  split
  next hnewline =>
    rw [if_pos (hroom hnewline)]
    exact ⟨rfl, by simp [TtyState.Filled]⟩
  · by_cases hprintable : IsPrintable byte
    · by_cases hfits : buffer.length < lineBufferCapacity
      · simp [hprintable, hfits, view, TtyState.Filled]
      · simp [hfits, view, TtyState.Filled]
    · simp [hprintable, view, TtyState.Filled]

theorem view_readBytes (hfilled : tty.Filled) (length : Nat) :
    tty.view.readBytes length = (tty.readBytes length).map (Prod.map id view) ∧
      (((tty.readBytes length).map Prod.snd).getD tty).Filled := by
  obtain ⟨buffer, ready⟩ := tty
  unfold Discipline.readBytes readBytes
  by_cases hzero : length = 0
  · rw [if_pos hzero, if_pos hzero]
    exact ⟨rfl, hfilled⟩
  rw [if_neg hzero, if_neg hzero]
  cases ready with
  | false => exact ⟨rfl, hfilled⟩
  | true =>
    by_cases hall : buffer.length ≤ length
    · simp [view, TtyState.Filled, hall]
    · simp [view, TtyState.Filled, hall]

/-- Driver and discipline are in the same state, and reads have returned the same. -/
structure Agrees (session : Session) : Prop where
  lines : session.lines = session.tty.view
  filled : session.tty.Filled
  reads : session.returned = session.expected

theorem Agrees.step {session next : Session} {event : Event} (h : Agrees session)
    (hpaced : Paced session event) (hstep : step session event = some next) : Agrees next := by
  obtain ⟨hlines, hfilled, hreads⟩ := h
  cases event with
  | byte byte =>
    obtain rfl := some.inj hstep
    by_cases hidle : IsIdle byte
    · obtain ⟨htty, hkept⟩ := processByte_idle hidle session.tty session.lines
      rw [htty, hkept]
      exact ⟨hlines, hfilled, hreads⟩
    have hcontrol : control byte = none :=
      eq_none_iff_forall_ne_some.mpr fun effect heq => hidle (idle_of_control heq)
    obtain ⟨⟨buffer, ready⟩, lines, _⟩ := session
    obtain rfl : ready = false :=
      Bool.eq_false_iff.mpr fun hready => hidle (hpaced.1 hready)
    obtain rfl : lines = ⟨[], buffer⟩ := hlines
    obtain ⟨hview, hfilled⟩ := view_processByte hcontrol hpaced.2
    exact ⟨hview.symm, hfilled, hreads⟩
  | read length =>
    obtain rfl := some.inj hstep
    obtain ⟨hview, hfilled⟩ := view_readBytes hfilled length
    rw [← hlines] at hview
    refine ⟨?_, hfilled, ?_⟩
    · rw [hview]
      cases session.tty.readBytes length with
      | none => exact hlines
      | some result => rfl
    · dsimp only
      rw [hview, hreads, map_map]
      rfl

/-- In a run whose bytes are paced, every read returns what the line discipline returns. -/
theorem paced_reads_agree (events : List Event) (final : Session)
    (hpaced : Along step Paced {} events) (hrun : run step {} events = some final) :
    final.returned = final.expected :=
  (run_invariant (I := Agrees) (fun _ _ _ h hpaced hstep => h.step hpaced hstep) events _ final
    ⟨rfl, by simp [TtyState.Filled], rfl⟩ hpaced hrun).reads

/-- A line, its erased typo and a read of it in two parts. -/
def pacedEvents : List Event :=
  [.byte 0x61, .byte 0x62, .byte 0x7F, .byte 0x0D, .read 1, .byte 0x03, .read 8, .read 8]

theorem paced_reads_agree_on_line :
    Along step Paced {} pacedEvents ∧
      ∃ final, run step {} pacedEvents = some final ∧ final.returned = final.expected ∧
        final.returned = [some [0x61], some [0x0A], none] :=
  ⟨by decide, _, rfl, paced_reads_agree pacedEvents _ (by decide) rfl, rfl⟩

/-- Typing ahead: the read returns the line together with the unfinished one. -/
theorem type_ahead_is_returned :
    ∃ final, run step {} [.byte 0x61, .byte 0x0A, .byte 0x62, .read 8] = some final ∧
      final.returned = [some [0x61, 0x0A, 0x62]] ∧ final.expected = [some [0x61, 0x0A]] :=
  ⟨_, rfl, rfl, rfl⟩

end Bazzulto.Tty
