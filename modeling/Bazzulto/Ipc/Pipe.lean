/-
  Ipc/Pipe.lean --- processes that block on a pipe.

  Embeds `pipe_read_blocking`, `pipe_write_blocking` and the drop of a
  `PipeHandle` (kernel/src/fs/pipe.rs) for one pipe, over the scheduler.  A round
  of either loop is one step: it ends the call, moves bytes, or registers the
  process and blocks it.  The loops run with interrupts disabled, so the core of a
  process inside one of them does nothing else before the next round.

  A pipe remembers one waiter for each end.  A process that starts to wait takes
  the place of the one that waits already, and only the remembered one is woken.
  That the buffer is freed once both ends are closed is left out.
-/
import Bazzulto.Scheduler.Balance
import Bazzulto.Scheduler.Writes
import Bazzulto.Vfs.Descriptor

set_option autoImplicit false

namespace Bazzulto.Vfs

open Foundation Foundation.Checked Checked

/-! ## What reading and writing change -/

def PipeEnd.other : PipeEnd → PipeEnd
  | .readEnd => .writeEnd
  | .writeEnd => .readEnd

@[simp] theorem PipeEnd.other_other (side : PipeEnd) : side.other.other = side := by
  cases side <;> rfl

namespace PipeBuffer

section

variable (buffer : PipeBuffer)

/-- The handles of an end. -/
def endCount : PipeEnd → Nat
  | .readEnd => buffer.readEndCount
  | .writeEnd => buffer.writeEndCount

theorem endCount_release (side side' : PipeEnd) :
    (buffer.release side).endCount side' =
      if side' = side then buffer.endCount side' - 1 else buffer.endCount side' := by
  cases side <;> cases side' <;> rfl

theorem endCount_retain (side side' : PipeEnd) :
    (buffer.retain side).endCount side' =
      if side' = side then buffer.endCount side' + 1 else buffer.endCount side' := by
  cases side <;> cases side' <;> rfl

@[simp] theorem length_release (side : PipeEnd) : (buffer.release side).length = buffer.length := by
  cases side <;> rfl

@[simp] theorem length_retain (side : PipeEnd) : (buffer.retain side).length = buffer.length := by
  cases side <;> rfl

/-- What a call on an end has to wait for has not come: a reader finds the ring empty
and a write end open, a writer finds the ring full and a read end open. -/
def MustWait : PipeEnd → Prop
  | .readEnd => buffer.length = 0 ∧ buffer.endCount .writeEnd ≠ 0
  | .writeEnd => pipeBufferCapacity ≤ buffer.length ∧ buffer.endCount .readEnd ≠ 0

end

/-- `write_bytes` writes something if it is given something and there is space. -/
theorem writeBytes_spec {buffer next : PipeBuffer} {source : List UInt8} {written : Nat}
    (h : buffer.writeBytes source = .ok (written, next)) :
    next.endCount = buffer.endCount ∧
      (0 < written → buffer.length < pipeBufferCapacity) ∧
      (written = 0 → next = buffer ∧ (source = [] ∨ pipeBufferCapacity ≤ buffer.length)) := by
  suffices hpost : Post (fun _ => True) (fun result => result.2.endCount = buffer.endCount ∧
      (0 < result.1 → buffer.length < pipeBufferCapacity) ∧
      (result.1 = 0 → result.2 = buffer ∧
        (source = [] ∨ pipeBufferCapacity ≤ buffer.length))) (buffer.writeBytes source) by
    rw [h] at hpost
    exact hpost
  refine .bind (post_self _) fun space hspace => ?_
  have hspace : space = pipeBufferCapacity - buffer.length := by
    unfold sub at hspace
    split at hspace
    · exact (Except.ok.inj hspace).symm
    · cases hspace
  dsimp only
  split
  · refine ⟨rfl, fun hpos => absurd hpos (Nat.lt_irrefl 0), fun _ => ⟨rfl, ?_⟩⟩
    rw [← List.length_eq_zero_iff]
    omega
  next hpos =>
    refine .bind (post_self _) fun room _ => ?_
    refine .bind (post_self _) fun chunk _ => ?_
    refine .bind (post_self _) fun data _ => ?_
    split
    · refine .bind (post_self _) fun chunk _ => ?_
      refine .bind (post_self _) fun data _ => ?_
      exact ⟨rfl, fun _ => by omega, fun hzero => absurd hzero hpos⟩
    · exact ⟨rfl, fun _ => by omega, fun hzero => absurd hzero hpos⟩

end PipeBuffer

/-- A call waits only if it has to, and moves bytes only if it has not. -/
theorem PipeCall.round_spec {call : PipeCall} {buffer next : PipeBuffer} {round : PipeRound}
    (h : call.round buffer = .ok (round, next)) :
    (round = .waits → buffer.MustWait call.side) ∧
      ∀ bytes rest, round = .moves bytes rest → ¬ buffer.MustWait call.side := by
  cases call with
  | read length =>
    dsimp only [PipeCall.round] at h
    split at h
    next hpos =>
      obtain ⟨_, _, ⟨⟩⟩ := exists_of_bind_eq_ok h
      exact ⟨nofun, fun _ _ _ hmust => absurd hmust.1 (Nat.ne_of_gt hpos)⟩
    next hempty =>
      cases h
      refine ⟨fun hwaits => ⟨Nat.eq_zero_of_not_pos hempty, ?_⟩, fun _ _ hmoves => ?_⟩
      · split at hwaits
        · cases hwaits
        · assumption
      · split at hmoves <;> cases hmoves
  | write remaining =>
    dsimp only [PipeCall.round] at h
    split at h
    · cases h
      exact ⟨nofun, nofun⟩
    next hremaining =>
      split at h
      · cases h
        exact ⟨nofun, nofun⟩
      next hopen =>
        obtain ⟨⟨written, _⟩, hwrite, ⟨⟩⟩ := exists_of_bind_eq_ok h
        obtain ⟨_, hspace, hfull⟩ := PipeBuffer.writeBytes_spec hwrite
        dsimp only
        split
        next hpos => exact ⟨nofun, fun _ _ _ hmust => absurd hmust.1 (Nat.not_le.mpr (hspace hpos))⟩
        next hzero =>
          obtain ⟨-, hreason⟩ := hfull (Nat.eq_zero_of_not_pos hzero)
          exact ⟨fun _ => ⟨hreason.resolve_left hremaining, hopen⟩, nofun⟩

end Bazzulto.Vfs

namespace Bazzulto.Scheduler

variable {scheduler : Scheduler} {pid : Pid}

/-- The process is blocked and off every core. -/
def Waits (scheduler : Scheduler) (pid : Pid) : Prop :=
  scheduler.stateOf pid = some .blocked ∧ ∀ cpu, scheduler.currentPids cpu ≠ pid
  deriving Decidable

/-- A process that waits after a step waited before, unless its core may have been
switched away from it. -/
theorem Waits.of_step {next : Scheduler} {action : Action}
    (hstep : scheduler.step action = some next)
    (hother : ∀ cpu, action.core = some cpu → scheduler.currentPids cpu ≠ pid)
    (h : next.Waits pid) : scheduler.Waits pid := by
  refine ⟨blocked_of_step hstep (fun cpu hblock => ?_) h.1, fun cpu => ?_⟩
  · exact (hother cpu (hblock ▸ rfl)).symm
  by_cases hcore : action.core = some cpu
  · exact hother cpu hcore
  · rw [← currentPids_of_step hstep hcore]
    exact h.2 cpu

/-- `unblock` leaves no process blocked under the pid it is given. -/
theorem stateOf_unblock_self (scheduler : Scheduler) (cpu : Cpu) (pid : Pid) :
    (scheduler.unblock cpu pid).stateOf pid ≠ some .blocked := by
  unfold unblock
  split
  next hnone =>
    simp [stateOf, hnone]
  next process hget =>
    have hready : (scheduler.readyAndEnqueue cpu process).stateOf pid = some .ready := by
      rw [readyAndEnqueue, stateOf_enqueue, stateOf_setState, if_pos (Pool.get_pid hget).symm,
        Pool.get_pid hget, stateOf_of_get hget, Option.map_some]
    split
    · rw [hready]
      simp
    · rw [hready]
      simp
    next hblocked _ =>
      rw [stateOf_of_get hget]
      exact fun heq => hblocked (Option.some.inj heq)

theorem Waits.of_unblock {cpu : Cpu} {woken : Pid} (h : (scheduler.unblock cpu woken).Waits pid) :
    scheduler.Waits pid ∧ pid ≠ woken := by
  have hstep : scheduler.step (.unblock cpu woken) = some (scheduler.unblock cpu woken) := rfl
  refine ⟨.of_step hstep (by simp [Action.core]) h, ?_⟩
  rintro rfl
  exact stateOf_unblock_self scheduler cpu pid h.1

end Bazzulto.Scheduler

namespace Bazzulto.Ipc.Pipe

open Foundation Option Vfs

variable {cpu : Cpu} {pid : Pid}

/-! ## The system -/

/-- The scheduler, one pipe with `blocked_reader` and `blocked_writer`, and the calls
that processes are inside of. -/
structure System where
  scheduler : Scheduler
  buffer : PipeBuffer
  blocked : PipeEnd → Option Pid
  calls : Pid → Option PipeCall

namespace System

/-- `pipe_create`, with a fresh scheduler. -/
def start : System where
  scheduler := Scheduler.init
  buffer := {}
  blocked := fun _ => none
  calls := fun _ => none

/-- The end that a process is inside a call on. -/
def side (system : System) (pid : Pid) : Option PipeEnd :=
  (system.calls pid).map PipeCall.side

section

variable (system : System) (cpu : Cpu) (side : PipeEnd)

/-- The scheduler after the remembered waiter of an end is unblocked. -/
def woken : Scheduler :=
  match system.blocked side with
  | none => system.scheduler
  | some pid => system.scheduler.unblock cpu pid

/-- Wake the remembered waiter of an end and forget it. -/
def wake : System :=
  { system with
    scheduler := system.woken cpu side
    blocked := Function.update system.blocked side none }

/-- Remember the current process as the waiter of an end and block it. -/
def block : Option System :=
  (system.scheduler.blockCurrent cpu).map fun scheduler =>
    { system with
      scheduler
      blocked := Function.update system.blocked side (some (system.scheduler.currentPids cpu)) }

end

/-- The state of a process's call. -/
def setCall (system : System) (pid : Pid) (call : Option PipeCall) : System :=
  { system with calls := Function.update system.calls pid call }

section

variable (system : System) (cpu : Cpu)

/-- One round of the call that the current process is inside of. -/
def round (call : PipeCall) : Option System :=
  let pid := system.scheduler.currentPids cpu
  match call.round system.buffer with
  | .error _ => none
  | .ok (.returns, _) | .ok (.broken, _) => some (system.setCall pid none)
  | .ok (.moves _ rest, buffer) =>
    some (({ system with buffer }.wake cpu call.side.other).setCall pid rest)
  | .ok (.waits, _) => system.block cpu call.side

/-- The drop of a handle: with the last one of an end the remembered waiter of the
other end is unblocked, and stays remembered. -/
def close (side : PipeEnd) : System :=
  { system with
    buffer := system.buffer.release side
    scheduler :=
      if system.buffer.endCount side = 1 then system.woken cpu side.other
      else system.scheduler }

end

end System

/-- One event. -/
inductive Action where
  /-- Anything else that the scheduler does. -/
  | act (action : Scheduler.Action)
  /-- The current process of the core calls `pipe_read_blocking`. -/
  | read (cpu : Cpu) (length : Nat)
  /-- The current process of the core calls `pipe_write_blocking`. -/
  | write (cpu : Cpu) (source : List UInt8)
  /-- The current process of the core goes through the loop of its call once. -/
  | round (cpu : Cpu)
  | clone (side : PipeEnd)
  | close (cpu : Cpu) (side : PipeEnd)

/-- The current process of a core may start a call on an end that has a handle. -/
def System.admits (system : System) (cpu : Cpu) (side : PipeEnd) : Prop :=
  system.scheduler.currentPids cpu ≠ Pid.idle ∧
    system.side (system.scheduler.currentPids cpu) = none ∧ system.buffer.endCount side ≠ 0
  deriving Decidable

/-- The transitions of the system.  No core is switched away from a process inside a
call but by the call itself. -/
def step (system : System) : Action → Option System
  | .act action =>
    if ∀ cpu, action.core = some cpu →
        system.side (system.scheduler.currentPids cpu) = none then
      (system.scheduler.step action).map fun scheduler => { system with scheduler }
    else none
  | .read cpu length =>
    if system.admits cpu .readEnd then
      some (system.setCall (system.scheduler.currentPids cpu) (some (.read length)))
    else none
  | .write cpu source =>
    if system.admits cpu .writeEnd then
      some (system.setCall (system.scheduler.currentPids cpu) (some (.write source)))
    else none
  | .round cpu =>
    (system.calls (system.scheduler.currentPids cpu)).bind (system.round cpu)
  | .clone side =>
    if system.buffer.endCount side ≠ 0 then
      some { system with buffer := system.buffer.retain side }
    else none
  | .close cpu side =>
    if system.buffer.endCount side ≠ 0 then some (system.close cpu side) else none

/-! ## Waiters -/

/-- No process waits for something that has come. -/
def NoLostWakeup (system : System) : Prop :=
  ∀ pid side, system.scheduler.Waits pid → system.side pid = some side → system.buffer.MustWait side

/-- The invariant: a process that waits on an end is the one the pipe remembers, and
what it waits for has not come. -/
def Registered (system : System) : Prop :=
  ∀ pid side, system.scheduler.Waits pid → system.side pid = some side →
    system.blocked side = some pid ∧ system.buffer.MustWait side

/-- A process goes through the loop of its call only while no other process is blocked
in a call on the same end. -/
def SoleWaiter (system : System) : Action → Prop
  | .round cpu =>
    ∀ process ∈ system.scheduler.pool.processes, process.state = .blocked →
      process.pid ≠ system.scheduler.currentPids cpu →
      system.side process.pid ≠ system.side (system.scheduler.currentPids cpu)
  | _ => True

instance (system : System) : (action : Action) → Decidable (SoleWaiter system action)
  | .round _ => inferInstanceAs (Decidable (∀ process ∈ _, _))
  | .act _ | .read .. | .write .. | .clone _ | .close .. => isTrue trivial

/-! ## Steps keep the waiters registered -/

variable {system : System}

theorem waits_of_woken {side : PipeEnd} (h : (system.woken cpu side).Waits pid) :
    system.scheduler.Waits pid := by
  unfold System.woken at h
  split at h
  · exact h
  · exact h.of_unblock.1

theorem blocked_of_woken {side : PipeEnd}
    (h : (system.woken cpu side).stateOf pid = some .blocked) :
    system.scheduler.stateOf pid = some .blocked := by
  unfold System.woken at h
  split at h
  · exact h
  next waiter _ =>
    have hstep : system.scheduler.step (.unblock cpu waiter) =
        some (system.scheduler.unblock cpu waiter) := rfl
    exact Scheduler.blocked_of_step hstep (by simp) h

/-- A round blocks nobody, unless the call has to wait. -/
theorem round_cases {call : PipeCall} {next : System} (h : system.round cpu call = some next) :
    (∃ buffer, call.round system.buffer = .ok (.waits, buffer) ∧
        system.block cpu call.side = some next) ∨
      ∀ pid, next.scheduler.stateOf pid = some .blocked →
        system.scheduler.stateOf pid = some .blocked := by
  unfold System.round at h
  dsimp only at h
  split at h
  · cases h
  · cases h
    exact .inr fun _ hblocked => hblocked
  · cases h
    exact .inr fun _ hblocked => hblocked
  · cases h
    exact .inr fun _ hblocked => blocked_of_woken hblocked
  next hwaits => exact .inl ⟨_, hwaits, h⟩

theorem Registered.not_waits_woken (h : Registered system) {side : PipeEnd}
    (hside : system.side pid = some side) : ¬ (system.woken cpu side).Waits pid := by
  intro hwaits
  have hregistered := (h pid side (waits_of_woken hwaits) hside).1
  unfold System.woken at hwaits
  rw [hregistered] at hwaits
  exact hwaits.of_unblock.2 rfl

/-- A call may start, go on or end where its process does not wait. -/
theorem Registered.setCall (h : Registered system) {call : Option PipeCall}
    (hcall : ¬ system.scheduler.Waits pid ∨ call = none) :
    Registered (system.setCall pid call) := by
  intro other side hwaits hside
  unfold System.side System.setCall at hside
  dsimp only at hside
  rw [Function.update_apply] at hside
  split at hside
  next heq =>
    rcases hcall with hnot | hnone
    · exact absurd (heq ▸ hwaits) hnot
    · rw [hnone] at hside
      cases hside
  · exact h other side hwaits hside

theorem not_waits_current (scheduler : Scheduler) (cpu : Cpu) :
    ¬ scheduler.Waits (scheduler.currentPids cpu) :=
  fun h => h.2 cpu rfl

/-- A change of the ring that wakes the waiters of one end, while a call on the other
end has nothing to wait for. -/
theorem Registered.wake (h : Registered system) (cpu : Cpu) (side : PipeEnd) {buffer : PipeBuffer}
    (hother : ¬ system.buffer.MustWait side.other) :
    Registered ({ system with buffer }.wake cpu side) := by
  intro pid side' hwaits hside
  have hbefore := h pid side' (waits_of_woken hwaits) hside
  by_cases heq : side' = side
  · exact absurd hwaits (h.not_waits_woken (heq ▸ hside))
  · have hside' : side' = side.other := by
      cases side <;> cases side' <;> simp_all [PipeEnd.other]
    exact absurd (hside' ▸ hbefore.2) hother

variable {next : System}

section

variable (h : Registered system)
include h

/-- A process that blocks on an end as its only waiter. -/
theorem Registered.block {side : PipeEnd}
    (hside : system.side (system.scheduler.currentPids cpu) = some side)
    (hsole : SoleWaiter system (.round cpu)) (hmust : system.buffer.MustWait side)
    (hblock : system.block cpu side = some next) : Registered next := by
  obtain ⟨scheduler, hscheduler, rfl⟩ := map_eq_some_iff.mp hblock
  intro pid side' hwaits hside'
  by_cases hself : pid = system.scheduler.currentPids cpu
  · obtain rfl : side' = side := by
      rw [hself] at hside'
      exact Option.some.inj (hside'.symm.trans hside)
    exact ⟨by rw [hself]; exact Function.update_self .., hmust⟩
  · have hstep : system.scheduler.step (.block cpu) = some scheduler := hscheduler
    have hbefore : system.scheduler.Waits pid := by
      refine .of_step hstep (fun core hcore => ?_) hwaits
      obtain rfl : cpu = core := Option.some.inj hcore
      exact fun heq => hself heq.symm
    have hne : side' ≠ side := by
      rintro rfl
      obtain ⟨process, hget, hblocked⟩ := map_eq_some_iff.mp hbefore.1
      refine hsole process (Scheduler.Pool.mem_processes_of_get hget) hblocked ?_ ?_
      · rw [Scheduler.Pool.get_pid hget]
        exact hself
      · rw [Scheduler.Pool.get_pid hget, hside]
        exact hside'
    obtain ⟨hregistered, hmust'⟩ := h pid side' hbefore hside'
    exact ⟨by simpa [Function.update_of_ne hne] using hregistered, hmust'⟩

theorem Registered.round {call : PipeCall}
    (hcall : system.calls (system.scheduler.currentPids cpu) = some call)
    (hsole : SoleWaiter system (.round cpu)) (hround : system.round cpu call = some next) :
    Registered next := by
  unfold System.round at hround
  dsimp only at hround
  split at hround
  · cases hround
  · cases hround
    exact h.setCall (.inr rfl)
  · cases hround
    exact h.setCall (.inr rfl)
  next hmoves =>
    cases hround
    refine (h.wake cpu call.side.other ?_).setCall (.inl fun hwaits => ?_)
    · rw [PipeEnd.other_other]
      exact (PipeCall.round_spec hmoves).2 _ _ rfl
    · exact not_waits_current _ cpu (waits_of_woken hwaits)
  next hwaits =>
    refine h.block ?_ hsole ((PipeCall.round_spec hwaits).1 rfl) hround
    rw [System.side, hcall]
    rfl

theorem Registered.close (cpu : Cpu) {side : PipeEnd} (hopen : system.buffer.endCount side ≠ 0) :
    Registered (system.close cpu side) := by
  intro pid side' hwaits hside
  by_cases hlast : system.buffer.endCount side = 1
  · have hwaits : (system.woken cpu side.other).Waits pid := by
      simpa [System.close, hlast] using hwaits
    by_cases heq : side' = side.other
    · exact absurd hwaits (h.not_waits_woken (heq ▸ hside))
    · obtain ⟨hregistered, hmust⟩ := h pid side' (waits_of_woken hwaits) hside
      cases side <;> cases side' <;> simp_all [PipeEnd.other, System.close, PipeBuffer.MustWait,
        PipeBuffer.endCount_release]
  · have hwaits : system.scheduler.Waits pid := by
      simpa [System.close, hlast] using hwaits
    obtain ⟨_, _⟩ := h pid side' hwaits hside
    cases side <;> cases side' <;> simp_all [System.close, PipeBuffer.MustWait,
      PipeBuffer.endCount_release] <;> omega

/-- One step with at most one waiter on each end keeps the waiters registered. -/
theorem Registered.step {action : Action} (hsole : SoleWaiter system action)
    (hstep : step system action = some next) : Registered next := by
  cases action with
  | act action =>
    simp only [Pipe.step, ite_none_right_eq_some, map_eq_some_iff] at hstep
    obtain ⟨hguard, _, hscheduler, rfl⟩ := hstep
    intro pid side hwaits hside
    refine h pid side (.of_step hscheduler (fun cpu hcore heq => ?_) hwaits) hside
    have hnone := hguard cpu hcore
    rw [heq] at hnone
    exact absurd (hnone.symm.trans hside) (by simp)
  | read cpu length | write cpu source =>
    simp only [Pipe.step, ite_none_right_eq_some, some.injEq] at hstep
    obtain ⟨_, rfl⟩ := hstep
    exact h.setCall (.inl (not_waits_current _ cpu))
  | round cpu =>
    obtain ⟨call, hcall, hround⟩ := bind_eq_some_iff.mp hstep
    exact h.round hcall hsole hround
  | clone side =>
    simp only [Pipe.step, ite_none_right_eq_some, some.injEq] at hstep
    obtain ⟨_, rfl⟩ := hstep
    intro pid side' hwaits hside
    obtain ⟨_, _⟩ := h pid side' hwaits hside
    cases side <;> cases side' <;> simp_all [PipeBuffer.MustWait, PipeBuffer.endCount_retain]
  | close cpu side =>
    simp only [Pipe.step, ite_none_right_eq_some, some.injEq] at hstep
    obtain ⟨hopen, rfl⟩ := hstep
    exact h.close cpu hopen

end

/-- In every state that a run with at most one waiter on each end reaches, no process
waits for something that has come. -/
theorem no_lost_wakeup_of_sole_waiters {actions : List Action} {system : System}
    (hsole : Along step SoleWaiter System.start actions)
    (hrun : run step System.start actions = some system) : NoLostWakeup system := by
  have hregistered : Registered system := by
    refine run_invariant (I := Registered)
      (fun _ _ _ hstate hguard hstep => hstate.step hguard hstep) actions System.start system
      ?_ hsole hrun
    intro pid side _ hside
    cases hside
  exact fun pid side hwaits hside => (hregistered pid side hwaits hside).2

/-- Two readers block on an empty pipe, one after the other, and a third process closes
the last write end. -/
def twoReadersRun : List Action :=
  [.act (.spawn bootCpu none), .act (.spawn bootCpu none), .act (.spawn bootCpu none),
    .act (.schedule bootCpu 0), .read bootCpu 1, .round bootCpu,
    .read bootCpu 1, .round bootCpu, .close bootCpu .writeEnd]

/-- The first reader alone, and the close that wakes it. -/
theorem no_lost_wakeup_of_one_reader :
    Along step SoleWaiter System.start (twoReadersRun.take 6 ++ [.close bootCpu .writeEnd]) ∧
      ∃ system, run step System.start (twoReadersRun.take 6 ++ [.close bootCpu .writeEnd]) =
        some system ∧ NoLostWakeup system := by
  have hsole : Along step SoleWaiter System.start
      (twoReadersRun.take 6 ++ [.close bootCpu .writeEnd]) := by
    decide +kernel
  have hsome : (run step System.start
      (twoReadersRun.take 6 ++ [.close bootCpu .writeEnd])).isSome = true := by
    decide +kernel
  obtain ⟨system, hrun⟩ := isSome_iff_exists.mp hsome
  exact ⟨hsole, system, hrun, no_lost_wakeup_of_sole_waiters hsole hrun⟩

/-- The close wakes the second reader only: the first one still waits for the end of the
file that has come. -/
theorem first_of_two_readers_never_woken :
    ∃ system, run step System.start twoReadersRun = some system ∧
      system.buffer.writeEndCount = 0 ∧ system.scheduler.Waits ⟨1, 1⟩ ∧
        system.side ⟨1, 1⟩ = some .readEnd ∧ ¬ NoLostWakeup system := by
  have hview : (run step System.start twoReadersRun).map
      (fun system => (system.buffer.writeEndCount, decide (system.scheduler.Waits ⟨1, 1⟩),
        system.side ⟨1, 1⟩)) = some (0, true, some .readEnd) := by
    decide +kernel
  obtain ⟨system, hrun, hview⟩ := map_eq_some_iff.mp hview
  simp only [Prod.mk.injEq, decide_eq_true_eq] at hview
  obtain ⟨hclosed, hwaits, hside⟩ := hview
  exact ⟨system, hrun, hclosed, hwaits, hside, fun hnone => (hnone _ _ hwaits hside).2 hclosed⟩

end Bazzulto.Ipc.Pipe
