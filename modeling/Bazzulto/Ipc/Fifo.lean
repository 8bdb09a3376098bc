/-
  Ipc/Fifo.lean --- the bytes that go through a pipe, and when its buffer is freed.

  Embeds the clones and the drop of a `PipeHandle` and a turn of `pipe_read_blocking` and
  `pipe_write_blocking` (kernel/src/fs/pipe.rs), the read of `sys_read` under O_NONBLOCK
  (kernel/src/systemcalls/io.rs) and `tty_echo_bytes` (kernel/src/drivers/tty.rs), the
  one write that does not wait: `sys_write` never looks at O_NONBLOCK.

  A call borrows the handle it was given, which is neither cloned nor dropped meanwhile.
  Any call may take its next turn at any time, so the runs here include those of every
  schedule; who is woken is the matter of Ipc/Pipe.lean.
-/
import Bazzulto.Ipc.Pipe
import Bazzulto.Vfs.Ring

set_option autoImplicit false

namespace Bazzulto.Ipc.Fifo

open List Foundation Foundation.Checked Pipe Vfs

/-- A `PipeHandle`, and the call that borrows it. -/
structure Handle where
  side : PipeEnd
  call : Option PipeCall := none

/-- A pipe with its handles, the bytes that writes have put into the ring and those that
reads have taken, in order, and how often the buffer was freed. -/
structure State where
  buffer : PipeBuffer
  handles : List Handle
  accepted : List UInt8
  taken : List UInt8
  freed : Nat

namespace State

/-- `pipe_create`. -/
def create : State where
  buffer := {}
  handles := [{ side := .readEnd }, { side := .writeEnd }]
  accepted := []
  taken := []
  freed := 0

/-- Bytes that a read has taken, or a write has put in. -/
def log (state : State) (bytes : List UInt8) : PipeEnd → State
  | .readEnd => { state with taken := state.taken ++ bytes }
  | .writeEnd => { state with accepted := state.accepted ++ bytes }

section

variable (state : State) (position : Nat) (handle : Handle)

/-- The call that borrows the handle at a position. -/
def setCall (call : Option PipeCall) : State :=
  { state with handles := state.handles.set position { handle with call := call } }

/-- One round of the call; one that has to wait will go through it again. -/
def round (call : PipeCall) : Checked State := do
  let (round, buffer) ← call.round state.buffer
  return match round with
  | .returns | .broken => state.setCall position handle none
  | .moves bytes rest => ({ state with buffer }.log bytes call.side).setCall position handle rest
  | .waits => state

end

/-- The read under O_NONBLOCK. -/
def readNonblock (state : State) (length : Nat) : Checked State := do
  let (result, buffer) ← state.buffer.readNonblock .readEnd length
  return match result with
  | .error _ => state
  | .ok bytes => { state with buffer }.log bytes .readEnd

/-- `tty_echo_bytes`. -/
def echo (state : State) (bytes : List UInt8) : Checked State := do
  let (written, buffer) ← state.buffer.writeBytes bytes
  return { state with buffer }.log (bytes.take written) .writeEnd

/-- `clone_read_end` and `clone_write_end`. -/
def clone (state : State) (side : PipeEnd) : State :=
  { state with
    buffer := state.buffer.retain side
    handles := { side } :: state.handles }

/-- `Drop for PipeHandle`. -/
def drop (state : State) (position : Nat) (side : PipeEnd) : State :=
  let buffer := state.buffer.release side
  { state with
    buffer := buffer
    handles := state.handles.eraseIdx position
    freed := if buffer.writeEndCount = 0 ∧ buffer.readEndCount = 0 then state.freed + 1
      else state.freed }

end State

/-- What is done with a handle. -/
inductive Action where
  | read (length : Nat)
  | readNonblocking (length : Nat)
  | write (source : List UInt8)
  | echo (bytes : List UInt8)
  | round
  | clone
  | close

/-- The transitions.  An action that does not fit the handle, or that finds none,
changes nothing. -/
def step (state : State) (action : Nat × Action) : Checked State :=
  match state.handles[action.1]?, action.2 with
  | some ⟨.readEnd, none⟩, .read length =>
    return state.setCall action.1 ⟨.readEnd, none⟩ (some (.read length))
  | some ⟨.readEnd, none⟩, .readNonblocking length => state.readNonblock length
  | some ⟨.writeEnd, none⟩, .write source =>
    return state.setCall action.1 ⟨.writeEnd, none⟩ (some (.write source))
  | some ⟨.writeEnd, none⟩, .echo bytes => state.echo bytes
  | some ⟨side, some call⟩, .round => state.round action.1 ⟨side, some call⟩ call
  | some ⟨side, none⟩, .clone => return state.clone side
  | some ⟨side, none⟩, .close => return state.drop action.1 side
  | _, _ => return state

/-! ## The law -/

/-- What was taken and what is in the ring is what was accepted; each end counts its
handles, and the buffer is freed with the last of them. -/
structure Lawful (state : State) : Prop where
  wellFormed : state.buffer.WellFormed
  logged : state.accepted = state.taken ++ state.buffer.contents
  counted : ∀ side, state.buffer.endCount side = (state.handles.map Handle.side).count side
  freed : state.freed = 1 - state.handles.length

variable {state : State} {position : Nat} {handle : Handle} {allowed : Fault → Prop}

theorem Lawful.exchange {buffer : PipeBuffer} {bytes accepted taken : List UInt8}
    (h : Lawful state) (hholds : state.buffer.Holds buffer bytes)
    (hlogged : accepted = taken ++ bytes) :
    Lawful { state with buffer := buffer, accepted := accepted, taken := taken } where
  wellFormed := hholds.wellFormed
  logged := hholds.contents_eq ▸ hlogged
  counted := fun side => by
    rw [← h.counted side]
    cases side with
    | readEnd => exact hholds.readEnds
    | writeEnd => exact hholds.writeEnds
  freed := h.freed

theorem Lawful.log {buffer : PipeBuffer} {bytes : List UInt8} {side : PipeEnd}
    (h : Lawful state) (hflows : state.buffer.Flows buffer bytes side) :
    Lawful ({ state with buffer }.log bytes side) := by
  cases side with
  | readEnd =>
    obtain ⟨rest, hcontents, hholds⟩ := hflows
    exact h.exchange hholds (by rw [h.logged, hcontents, append_assoc])
  | writeEnd => exact h.exchange hflows (by rw [h.logged, append_assoc])

theorem Lawful.readNonblock (h : Lawful state) (length : Nat) :
    Post allowed Lawful (state.readNonblock length) := by
  refine .bind (h.wellFormed.readNonblock .readEnd length) fun result hresult => ?_
  obtain ⟨result, buffer⟩ := result
  cases result with
  | error error => exact h
  | ok bytes => exact h.log (hresult.2 bytes rfl)

theorem Lawful.echo (h : Lawful state) (bytes : List UInt8) :
    Post allowed Lawful (state.echo bytes) :=
  .bind (h.wellFormed.writeBytes_appends bytes) fun _ hresult => h.log hresult.2

section

variable (h : Lawful state) (hhandle : state.handles[position]? = some handle)
include h hhandle

theorem Lawful.setCall (call : Option PipeCall) : Lawful (state.setCall position handle call) where
  wellFormed := h.wellFormed
  logged := h.logged
  counted := fun side => by
    obtain ⟨_, rfl⟩ := List.getElem?_eq_some_iff.mp hhandle
    have hside : position < (state.handles.map Handle.side).length := by rwa [length_map]
    have hself := set_getElem_self hside
    rw [getElem_map] at hself
    dsimp only [State.setCall]
    rw [map_set, hself]
    exact h.counted side
  freed := h.freed.trans (by rw [State.setCall, length_set])

theorem Lawful.round (call : PipeCall) :
    Post allowed Lawful (state.round position handle call) := by
  refine .bind (h.wellFormed.round call) fun result hresult => ?_
  obtain ⟨round, buffer⟩ := result
  cases round with
  | returns | broken => exact h.setCall hhandle none
  | waits => exact h
  | moves bytes rest =>
    refine (h.log (hresult.2 bytes rest rfl)).setCall ?_ rest
    cases call.side <;> exact hhandle

theorem Lawful.clone (side : PipeEnd) : Lawful (state.clone side) where
  wellFormed := h.wellFormed.retain side
  logged := h.logged.trans (by cases side <;> rfl)
  counted := fun other => by
    dsimp only [State.clone]
    rw [PipeBuffer.endCount_retain, h.counted, map_cons, count_cons]
    cases side <;> cases other <;> rfl
  freed := by
    obtain ⟨_, -⟩ := List.getElem?_eq_some_iff.mp hhandle
    dsimp only [State.clone]
    rw [h.freed, length_cons]
    omega

end

theorem length_sides (sides : List PipeEnd) :
    sides.length = sides.count .readEnd + sides.count .writeEnd := by
  induction sides with
  | nil => rfl
  | cons side sides ih => cases side <;> simp <;> omega

theorem length_handles {buffer : PipeBuffer} {handles : List Handle}
    (h : ∀ side, buffer.endCount side = (handles.map Handle.side).count side) :
    handles.length = buffer.readEndCount + buffer.writeEndCount := by
  rw [← length_map Handle.side, length_sides, ← h, ← h]
  rfl

theorem Lawful.drop (h : Lawful state) (hhandle : state.handles[position]? = some handle) :
    Lawful (state.drop position handle.side) := by
  obtain ⟨hlt, rfl⟩ := List.getElem?_eq_some_iff.mp hhandle
  have hcounted : ∀ side, (state.buffer.release state.handles[position].side).endCount side =
      ((state.handles.eraseIdx position).map Handle.side).count side := by
    intro side
    have hperm := ((getElem_cons_eraseIdx_perm hlt).map Handle.side).count_eq side
    rw [← h.counted] at hperm
    rw [PipeBuffer.endCount_release, ← hperm]
    split
    next heq => simp [heq]
    next hne => simp [Ne.symm hne]
  refine ⟨h.wellFormed.release _, h.logged.trans ?_, hcounted, ?_⟩
  · cases state.handles[position].side <;> rfl
  have hbefore := h.freed
  have hafter := length_handles hcounted
  dsimp only [State.drop]
  split <;> omega

theorem Lawful.step (h : Lawful state) (action : Nat × Action) :
    Post allowed Lawful (step state action) := by
  unfold Fifo.step
  split
  next hhandle _ => exact h.setCall hhandle _
  · exact h.readNonblock _
  next hhandle _ => exact h.setCall hhandle _
  · exact h.echo _
  next hhandle _ => exact h.round hhandle _
  next hhandle _ => exact h.clone hhandle _
  next hhandle _ => exact h.drop hhandle
  · exact h

theorem Lawful.create : Lawful State.create where
  wellFormed := .new
  logged := rfl
  counted := fun side => by cases side <;> rfl
  freed := rfl

/-- At all times the bytes that reads took are the first of those that writes put in, at
most the capacity fewer; each end counts its handles, which a clone adds to and a close takes
from; and the buffer is freed once if both ends are closed and else not at all. -/
theorem pipe_is_fifo_and_freed_once (actions : List (Nat × Action)) :
    ∃ final, actions.foldlM step State.create = .ok final ∧ final.taken <+: final.accepted ∧
      final.accepted.length ≤ final.taken.length + pipeBufferCapacity ∧
      (∀ side, final.buffer.endCount side = (final.handles.map Handle.side).count side) ∧
      (∀ position side, final.handles[position]? = some ⟨side, none⟩ →
        (step final (position, .clone)).map State.handles = .ok (⟨side, none⟩ :: final.handles) ∧
        (step final (position, .close)).map State.handles =
          .ok (final.handles.eraseIdx position)) ∧
      final.freed = if final.buffer.readEndCount = 0 ∧ final.buffer.writeEndCount = 0 then 1
        else 0 := by
  obtain ⟨final, hfinal, h⟩ := Post.exists_ok
    (.foldlM (fun _ action h => h.step action) actions State.create Lawful.create)
  have hlength := length_handles h.counted
  have hfreed := h.freed
  refine ⟨final, hfinal, ⟨_, h.logged.symm⟩, ?_, h.counted, fun position side hhandle => ?_, ?_⟩
  · rw [h.logged, length_append, h.wellFormed.length_contents]
    exact Nat.add_le_add_left h.wellFormed.length_le _
  · rw [step, step, hhandle]
    cases side <;> exact ⟨rfl, rfl⟩
  · split <;> omega

end Bazzulto.Ipc.Fifo
