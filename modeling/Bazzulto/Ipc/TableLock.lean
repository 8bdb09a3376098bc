/-
  Ipc/TableLock.lean --- the lock of a descriptor table while a pipe call waits.

  Embeds `sys_read`, `sys_write`, `sys_close`, `sys_dup` and `sys_pipe`
  (kernel/src/systemcalls/io.rs) on pipes, for any number of processes and threads over
  the scheduler; threads share a table.  `locks` says which process has the guard of the
  `SpinLock` around a table.  A call that finds the lock taken spins, which is no step.

  `sys_read` and `sys_write` keep the guard while they are inside `pipe_read_blocking` and
  `pipe_write_blocking`, whose rounds are those of Ipc/Pipe.lean; what a call does to the
  table and the ring is that of Vfs/Descriptor.lean.  Calls with a negative descriptor or a
  bad pointer, which return before they take the lock, are left out.
-/
import Bazzulto.Ipc.Pipe

set_option autoImplicit false

namespace Bazzulto

open Function Vfs.FileDescriptorTable

namespace Scheduler

/-- A process with a record is blocked by `block_current`. -/
theorem stateOf_blockCurrent {scheduler next : Scheduler} {cpu : Cpu} {process : Process}
    (hcurrent : scheduler.currentProcess cpu = some process)
    (hblock : scheduler.blockCurrent cpu = some next) :
    next.stateOf (scheduler.currentPids cpu) = some .blocked := by
  have hset : (scheduler.setState (scheduler.currentPids cpu) .blocked).stateOf
      (scheduler.currentPids cpu) = some .blocked := by
    rw [stateOf_setState, if_pos rfl, stateOf_of_get hcurrent, Option.map_some]
  unfold blockCurrent scheduleNoRequeue at hblock
  dsimp only at hblock
  split at hblock
  · cases hblock
    rw [stateOf_pickNext, hset]
  next hother =>
    obtain rfl := switchTo_eq_some hblock
    change (Scheduler.setState _ _ _).stateOf _ = _
    rw [stateOf_setState]
    split
    next heq =>
      exact absurd heq.symm hother
    · rw [stateOf_pickNext, hset]

end Scheduler

namespace Ipc.TableLock

open Foundation Option Pipe Vfs

variable {pid : Pid} {buffer : PipeBuffer} {source : List UInt8} {cpu : Cpu} {pipe : PipeId}
  {call : PipeCall} {fd : Nat}

/-- The scheduler, the descriptor tables with their locks, the pipes with
`blocked_reader` and `blocked_writer`, and the pipe calls that processes are inside
of. -/
structure System where
  scheduler : Scheduler
  tables : Nat → FileDescriptorTable
  tableOf : Pid → Nat
  locks : Nat → Option Pid
  pipes : Pipes
  blocked : PipeId → PipeEnd → Option Pid
  calls : Pid → Option (PipeId × PipeCall)

namespace System

section

variable (system : System) (cpu : Cpu)

/-- The process that a core runs. -/
def current : Pid := system.scheduler.currentPids cpu

/-- The table of the process that a core runs. -/
def table : FileDescriptorTable :=
  system.tables (system.tableOf (system.current cpu))

def setTable (table : FileDescriptorTable) (pipes : Pipes) : System :=
  { system with
    tables := update system.tables (system.tableOf (system.current cpu)) table
    pipes := pipes }

end

/-- A process is inside a call, with the guard of its table, or outside. -/
def setCall (system : System) (pid : Pid) (call : Option (PipeId × PipeCall)) : System :=
  { system with
    calls := update system.calls pid call
    locks := update system.locks (system.tableOf pid) (call.map fun _ => pid) }

/-- One pipe and the scheduler. -/
def view (system : System) (pipe : PipeId) : Pipe.System where
  scheduler := system.scheduler
  buffer := system.pipes.buffer pipe
  blocked := system.blocked pipe
  calls := fun pid => (system.calls pid).map Prod.snd

section

variable (system : System) (cpu : Cpu)

/-- A round of a call on a pipe.  The guard is dropped as the call returns. -/
def callRound (pipe : PipeId) (call : PipeCall) : Option System :=
  ((system.view pipe).round cpu call).map fun view =>
    { system.setCall (system.current cpu) ((view.calls (system.current cpu)).map (pipe, ·)) with
      scheduler := view.scheduler
      pipes := system.pipes.set pipe view.buffer
      blocked := update system.blocked pipe view.blocked }

/-- A round in the loop of a call. -/
def round : Option System :=
  (system.calls (system.current cpu)).bind fun (pipe, call) => system.callRound cpu pipe call

/-- `sys_read` up to the loop.  With O_NONBLOCK it never enters the loop. -/
def sysRead (fd length : Nat) : Option System :=
  match maskTest (system.table cpu).nonblockMask fd with
  | .error _ => none
  | .ok isNonblock =>
    match (system.table cpu).get fd with
    | none => some system
    | some (.pipe pipe side) =>
      if isNonblock then
        match (system.pipes.buffer pipe).readNonblock side length with
        | .error _ => none
        | .ok (_, buffer) => some { system with pipes := system.pipes.set pipe buffer }
      else if side ≠ .readEnd then some system
      else some (system.setCall (system.current cpu) (some (pipe, .read length)))
    -- no pipe
    | some _ => none

/-- `sys_write` up to the loop. -/
def sysWrite (fd : Nat) (source : List UInt8) : Option System :=
  match (system.table cpu).get fd with
  | none => some system
  | some (.pipe pipe side) =>
    if side ≠ .writeEnd then some system
    else some (system.setCall (system.current cpu) (some (pipe, .write source)))
  -- no pipe
  | some _ => none

/-- The scheduler after a descriptor is dropped: with the last handle of an end of a pipe
the remembered waiter of the other end is unblocked. -/
def afterDrop : Option FileDescriptor → Scheduler
  | some (.pipe pipe side) => ((system.view pipe).close cpu side).scheduler
  | _ => system.scheduler

def sysClose (fd : Nat) : Option System :=
  match (system.table cpu).closeFlagged system.pipes fd with
  | .error _ => none
  | .ok none => some system
  | .ok (some (table, pipes)) =>
    some { system.setTable cpu table pipes with
      scheduler := system.afterDrop cpu ((system.table cpu).get fd) }

def sysDup (fd : Nat) : System :=
  let duplicated := (system.table cpu).dup system.pipes fd
  system.setTable cpu duplicated.2.1 duplicated.2.2

def sysPipe : System :=
  let made := (system.table cpu).pipe system.pipes
  system.setTable cpu made.2.1 made.2.2

end

end System

/-- One event. -/
inductive Action where
  /-- Anything else that the scheduler does. -/
  | act (action : Scheduler.Action)
  | read (cpu : Cpu) (fd length : Nat)
  | write (cpu : Cpu) (fd : Nat) (source : List UInt8)
  /-- The current process of the core goes through the loop of its call once. -/
  | round (cpu : Cpu)
  | close (cpu : Cpu) (fd : Nat)
  | dup (cpu : Cpu) (fd : Nat)
  | pipe (cpu : Cpu)

/-- The current process of a core may call: it has a record, it is not inside a call, and
the lock of its table is free. -/
def System.admits (system : System) (cpu : Cpu) : Prop :=
  (system.scheduler.currentProcess cpu).isSome = true ∧
    (system.calls (system.current cpu)).isNone = true ∧
    system.locks (system.tableOf (system.current cpu)) = none
  deriving Decidable

/-- The transitions of the system.  No core is switched away from a process inside a
call but by the call itself. -/
def step (system : System) : Action → Option System
  | .act action =>
    if ∀ cpu, action.core = some cpu → (system.calls (system.current cpu)).isNone = true then
      (system.scheduler.step action).map fun scheduler => { system with scheduler }
    else none
  | .read cpu fd length => if system.admits cpu then system.sysRead cpu fd length else none
  | .write cpu fd source => if system.admits cpu then system.sysWrite cpu fd source else none
  | .round cpu =>
    if (system.scheduler.currentProcess cpu).isSome then system.round cpu else none
  | .close cpu fd => if system.admits cpu then system.sysClose cpu fd else none
  | .dup cpu fd => if system.admits cpu then some (system.sysDup cpu fd) else none
  | .pipe cpu => if system.admits cpu then some (system.sysPipe cpu) else none

/-! ## Holders of a lock -/

/-- No process is blocked while it holds the lock of a descriptor table. -/
def NoBlockedHolder (system : System) : Prop :=
  ∀ table pid, system.locks table = some pid → system.scheduler.stateOf pid ≠ some .blocked

/-- Nobody is inside a call, and every lock is free. -/
def Idle (system : System) : Prop :=
  (∀ pid, system.calls pid = none) ∧ ∀ table, system.locks table = none

/-- The call has to wait: the ring is empty and may still be filled, or full and may still
be read. -/
def Stuck (buffer : PipeBuffer) : PipeCall → Prop
  | .read _ => buffer.length = 0 ∧ buffer.writeEndCount ≠ 0
  | .write remaining =>
    remaining ≠ [] ∧ buffer.length = pipeBufferCapacity ∧ buffer.readEndCount ≠ 0

/-- A call that is inside its loop does not have to wait, unless the kernel panics as it
switches to another process.  The process that enters a loop is not marked as blocked
while it runs. -/
def Ready (system : System) : Action → Prop
  | .round cpu => ∀ pipe call, (system.scheduler.currentProcess cpu).isSome = true →
      system.calls (system.current cpu) = some (pipe, call) →
      (system.scheduler.blockCurrent cpu).isSome = true → ¬ Stuck (system.pipes.buffer pipe) call
  | .read cpu fd _ => ∀ pipe, system.admits cpu →
      (system.table cpu).get fd = some (.pipe pipe .readEnd) →
      maskTest (system.table cpu).nonblockMask fd = .ok false →
      system.scheduler.stateOf (system.current cpu) ≠ some .blocked
  | .write cpu fd _ => ∀ pipe, system.admits cpu →
      (system.table cpu).get fd = some (.pipe pipe .writeEnd) →
      system.scheduler.stateOf (system.current cpu) ≠ some .blocked
  | _ => True

/-- The processes inside a call are those that hold a lock. -/
structure Guarded (system : System) : Prop where
  held : ∀ {pid}, (system.calls pid).isSome = true → system.locks (system.tableOf pid) = some pid
  inside : ∀ {table pid}, system.locks table = some pid →
    (system.calls pid).isSome = true ∧ system.tableOf pid = table

theorem Idle.guarded {system : System} (h : Idle system) : Guarded system where
  held := fun hcall => by rw [h.1] at hcall; cases hcall
  inside := fun hlock => by rw [h.2] at hlock; cases hlock

variable {system next : System}

theorem Guarded.congr (h : Guarded system) (hcalls : next.calls = system.calls)
    (hlocks : next.locks = system.locks) (htables : next.tableOf = system.tableOf) :
    Guarded next := by
  constructor
  · rw [hcalls, hlocks, htables]
    exact h.held
  · rw [hcalls, hlocks, htables]
    exact h.inside

/-- The state of one process changes together with the lock of its table, which nobody
else holds. -/
theorem Guarded.setCall (h : Guarded system)
    (hmine : ∀ other, system.locks (system.tableOf pid) = some other → other = pid)
    (call : Option (PipeId × PipeCall)) : Guarded (system.setCall pid call) where
  held := by
    intro other hother
    dsimp only [System.setCall] at hother ⊢
    by_cases heq : other = pid
    · rw [heq, update_self] at hother ⊢
      obtain ⟨_, rfl⟩ := isSome_iff_exists.mp hother
      rfl
    rw [update_of_ne heq] at hother
    have hlock := h.held hother
    rw [update_of_ne ?_, hlock]
    exact fun htable => heq (hmine other (htable ▸ hlock))
  inside := by
    intro table _ hlock
    dsimp only [System.setCall] at hlock ⊢
    by_cases htable : table = system.tableOf pid
    · rw [htable, update_self] at hlock
      obtain ⟨_, rfl, rfl⟩ := map_eq_some_iff.mp hlock
      exact ⟨by rw [update_self]; rfl, htable.symm⟩
    rw [update_of_ne htable] at hlock
    obtain ⟨hother, hsame⟩ := h.inside hlock
    rw [update_of_ne ?_]
    · exact ⟨hother, hsame⟩
    · rintro rfl
      exact htable hsame.symm

theorem Guarded.mine (h : Guarded system) (hcall : (system.calls pid).isSome = true) (other : Pid)
    (hlock : system.locks (system.tableOf pid) = some other) : other = pid :=
  some.inj (hlock.symm.trans (h.held hcall))

/-! ## Rounds -/

theorem writeBytes_full (h : buffer.length = pipeBufferCapacity) (source : List UInt8) :
    buffer.writeBytes source = .ok (0, buffer) := by
  have hspace : Checked.sub pipeBufferCapacity buffer.length = .ok 0 := by
    rw [h]
    rfl
  unfold PipeBuffer.writeBytes
  rw [hspace]
  change (if min source.length 0 = 0 then _ else _) = _
  rw [if_pos (Nat.min_zero _)]
  rfl

theorem full_of_writeBytes {buffer' : PipeBuffer}
    (h : buffer.writeBytes source = .ok (0, buffer')) (hsource : source ≠ []) :
    buffer.length = pipeBufferCapacity := by
  have hle : buffer.length ≤ pipeBufferCapacity := by
    by_contra hlt
    unfold PipeBuffer.writeBytes Checked.sub at h
    rw [if_neg hlt] at h
    cases h
  obtain ⟨-, hfull⟩ := (PipeBuffer.writeBytes_spec h).2.2 rfl
  exact le_antisymm hle (hfull.resolve_left hsource)

theorem stuck_of_waits {buffer' : PipeBuffer} (h : call.round buffer = .ok (.waits, buffer')) :
    Stuck buffer call := by
  have hmust := (PipeCall.round_spec h).1 rfl
  cases call with
  | read length => exact hmust
  | write remaining =>
    dsimp only [PipeCall.round] at h
    split at h
    · cases h
    next hremaining =>
      split at h
      · cases h
      obtain ⟨⟨written, _⟩, hwrite, h⟩ := exists_of_bind_eq_ok h
      obtain rfl : written = 0 := by
        by_contra hne
        rw [if_pos (Nat.pos_of_ne_zero hne)] at h
        cases h
      exact ⟨hremaining, full_of_writeBytes hwrite hremaining, hmust.2⟩

theorem waits_of_stuck (h : Stuck buffer call) : call.round buffer = .ok (.waits, buffer) := by
  cases call with
  | read length =>
    obtain ⟨_, hopen⟩ := h
    rw [PipeCall.round, if_neg (by omega), if_neg hopen]
    rfl
  | write remaining =>
    obtain ⟨hremaining, hfull, hopen⟩ := h
    rw [PipeCall.round, if_neg hremaining, if_neg hopen, writeBytes_full hfull]
    rfl

/-- A round: the call ends or goes on and blocks nobody, or it has to wait. -/
theorem round_cases (h : Guarded system) (hround : system.round cpu = some next) :
    ∃ pipe call, system.calls (system.current cpu) = some (pipe, call) ∧ Guarded next ∧
      (∀ table pid, next.locks table = some pid → system.locks table = some pid) ∧
      (Stuck (system.pipes.buffer pipe) call ∧ (system.scheduler.blockCurrent cpu).isSome = true ∨
        ∀ pid, next.scheduler.stateOf pid = some .blocked →
          system.scheduler.stateOf pid = some .blocked) := by
  obtain ⟨⟨pipe, call⟩, hcall, hround⟩ := bind_eq_some_iff.mp hround
  obtain ⟨view, hview, rfl⟩ := map_eq_some_iff.mp hround
  have hinside : (system.calls (system.current cpu)).isSome = true := by rw [hcall]; rfl
  refine ⟨pipe, call, hcall, (h.setCall (h.mine hinside) _).congr rfl rfl rfl,
    fun table pid hlock => ?_, ?_⟩
  · dsimp only [System.setCall] at hlock
    rw [update_apply] at hlock
    split at hlock
    next htable =>
      obtain ⟨_, -, rfl⟩ := map_eq_some_iff.mp hlock
      exact htable ▸ h.held hinside
    · exact hlock
  · rcases Pipe.round_cases hview with ⟨_, hwaits, hblock⟩ | hblocked
    · obtain ⟨_, hscheduler, -⟩ := map_eq_some_iff.mp hblock
      exact .inl ⟨stuck_of_waits hwaits, isSome_iff_exists.mpr ⟨_, hscheduler⟩⟩
    · exact .inr hblocked

/-! ## Steps -/

/-- A step outside the loops: it leaves calls and locks alone, and it blocks nobody that is
inside a call. -/
structure Quiet (system next : System) : Prop where
  calls : next.calls = system.calls
  locks : next.locks = system.locks
  tableOf : next.tableOf = system.tableOf
  blocked : ∀ pid, next.scheduler.stateOf pid = some .blocked →
    system.scheduler.stateOf pid = some .blocked ∨ system.calls pid = none

theorem Quiet.of_scheduler (hcalls : next.calls = system.calls)
    (hlocks : next.locks = system.locks) (htables : next.tableOf = system.tableOf)
    (hscheduler : next.scheduler = system.scheduler) : Quiet system next where
  calls := hcalls
  locks := hlocks
  tableOf := htables
  blocked := fun _ hblocked => .inl (hscheduler ▸ hblocked)

theorem Quiet.noBlockedHolder (h : Quiet system next) (hguarded : Guarded system)
    (hawake : NoBlockedHolder system) : NoBlockedHolder next := by
  intro table pid hlock hblocked
  rw [h.locks] at hlock
  rcases h.blocked pid hblocked with hbefore | houtside
  · exact hawake table pid hlock hbefore
  · have hinside := (hguarded.inside hlock).1
    rw [houtside] at hinside
    cases hinside

theorem quiet_act {action : Scheduler.Action} (hstep : step system (.act action) = some next) :
    Quiet system next := by
  obtain ⟨houtside, hstep⟩ := ite_none_right_eq_some.mp hstep
  obtain ⟨_, hscheduler, rfl⟩ := map_eq_some_iff.mp hstep
  refine ⟨rfl, rfl, rfl, fun pid hblocked => ?_⟩
  by_cases hcore : ∃ cpu, action = .block cpu ∧ pid = system.scheduler.currentPids cpu
  · obtain ⟨cpu, rfl, rfl⟩ := hcore
    exact .inr (isNone_iff_eq_none.mp (houtside cpu rfl))
  · refine .inl (Scheduler.blocked_of_step hscheduler (fun cpu haction hpid => ?_) hblocked)
    exact hcore ⟨cpu, haction, hpid⟩

/-- `sys_close` wakes at most the remembered waiter of the other end. -/
theorem quiet_close (h : system.sysClose cpu fd = some next) : Quiet system next := by
  unfold System.sysClose at h
  split at h
  · cases h
  · cases h
    exact .of_scheduler rfl rfl rfl rfl
  · cases h
    refine ⟨rfl, rfl, rfl, fun pid hblocked => .inl ?_⟩
    dsimp only [System.afterDrop, Pipe.System.close] at hblocked
    split at hblocked
    · split at hblocked
      · exact Pipe.blocked_of_woken hblocked
      · exact hblocked
    · exact hblocked

/-- `sys_read` returns at once, or it enters the loop. -/
theorem sysRead_cases {length : Nat} (h : system.sysRead cpu fd length = some next) :
    Quiet system next ∨
      ∃ pipe, (system.table cpu).get fd = some (.pipe pipe .readEnd) ∧
        maskTest (system.table cpu).nonblockMask fd = .ok false ∧
        next = system.setCall (system.current cpu) (some (pipe, .read length)) := by
  unfold System.sysRead at h
  split at h
  · cases h
  rename_i isNonblock hmask
  split at h
  · cases h
    exact .inl (.of_scheduler rfl rfl rfl rfl)
  next pipe _ hget =>
    split at h
    · split at h
      · cases h
      · cases h
        exact .inl (.of_scheduler rfl rfl rfl rfl)
    next hblocking =>
      split at h
      · cases h
        exact .inl (.of_scheduler rfl rfl rfl rfl)
      next hside =>
        cases h
        rw [Bool.not_eq_true] at hblocking
        rw [not_not] at hside
        exact .inr ⟨pipe, hside ▸ hget, hblocking ▸ hmask, rfl⟩
  · cases h

theorem sysWrite_cases (h : system.sysWrite cpu fd source = some next) :
    Quiet system next ∨
      ∃ pipe, (system.table cpu).get fd = some (.pipe pipe .writeEnd) ∧
        next = system.setCall (system.current cpu) (some (pipe, .write source)) := by
  unfold System.sysWrite at h
  split at h
  · cases h
    exact .inl (.of_scheduler rfl rfl rfl rfl)
  next pipe _ hget =>
    split at h
    · cases h
      exact .inl (.of_scheduler rfl rfl rfl rfl)
    next hside =>
      cases h
      rw [not_not] at hside
      exact .inr ⟨pipe, hside ▸ hget, rfl⟩
  · cases h

variable {action : Action}

/-- A step is quiet, enters a loop where it is ready to, or is a turn in a loop. -/
theorem step_cases (hstep : step system action = some next) :
    Quiet system next ∨
      (∃ cpu pipe call, system.admits cpu ∧
        (Ready system action → system.scheduler.stateOf (system.current cpu) ≠ some .blocked) ∧
        next = system.setCall (system.current cpu) (some (pipe, call))) ∨
      ∃ cpu, action = .round cpu ∧ (system.scheduler.currentProcess cpu).isSome = true ∧
        system.round cpu = some next := by
  cases action with
  | act action => exact .inl (quiet_act hstep)
  | read cpu fd length =>
    obtain ⟨hadmits, hstep⟩ := ite_none_right_eq_some.mp hstep
    rcases sysRead_cases hstep with hquiet | ⟨pipe, hget, hmask, hnext⟩
    · exact .inl hquiet
    · exact .inr (.inl ⟨cpu, pipe, _, hadmits,
        fun hready => hready pipe hadmits hget hmask, hnext⟩)
  | write cpu fd source =>
    obtain ⟨hadmits, hstep⟩ := ite_none_right_eq_some.mp hstep
    rcases sysWrite_cases hstep with hquiet | ⟨pipe, hget, hnext⟩
    · exact .inl hquiet
    · exact .inr (.inl ⟨cpu, pipe, _, hadmits, fun hready => hready pipe hadmits hget, hnext⟩)
  | round cpu =>
    obtain ⟨hproc, hstep⟩ := ite_none_right_eq_some.mp hstep
    exact .inr (.inr ⟨cpu, rfl, hproc, hstep⟩)
  | close cpu fd =>
    exact .inl (quiet_close (ite_none_right_eq_some.mp hstep).2)
  | dup cpu fd =>
    obtain ⟨-, ⟨⟩⟩ := ite_none_right_eq_some.mp hstep
    exact .inl (.of_scheduler rfl rfl rfl rfl)
  | pipe cpu =>
    obtain ⟨-, ⟨⟩⟩ := ite_none_right_eq_some.mp hstep
    exact .inl (.of_scheduler rfl rfl rfl rfl)

theorem Guarded.step (h : Guarded system) (hstep : TableLock.step system action = some next) :
    Guarded next := by
  rcases step_cases hstep with hquiet | ⟨cpu, pipe, call, hadmits, -, rfl⟩ |
    ⟨cpu, -, -, hround⟩
  · exact h.congr hquiet.calls hquiet.locks hquiet.tableOf
  · exact h.setCall (fun _ hlock => by rw [hadmits.2.2] at hlock; cases hlock) _
  · obtain ⟨_, _, -, hguarded, -⟩ := round_cases h hround
    exact hguarded

/-! ## The property and its condition -/

theorem noBlockedHolder_of_ready (hguarded : Guarded system) (hawake : NoBlockedHolder system)
    (hready : Ready system action) (hstep : step system action = some next) :
    NoBlockedHolder next := by
  rcases step_cases hstep with hquiet | ⟨cpu, pipe, call, _, hrunning, rfl⟩ |
    ⟨cpu, rfl, hproc, hround⟩
  · exact hquiet.noBlockedHolder hguarded hawake
  · intro table pid hlock hblocked
    dsimp only [System.setCall] at hlock hblocked
    rw [update_apply] at hlock
    split at hlock
    · cases hlock
      exact hrunning hready hblocked
    · exact hawake table pid hlock hblocked
  · obtain ⟨pipe, call, hcall, -, hlocks, ⟨hstuck, hsome⟩ | hblocked⟩ :=
      round_cases hguarded hround
    · exact absurd hstuck (hready pipe call hproc hcall hsome)
    · exact fun table pid hlock hstate =>
        hawake table pid (hlocks table pid hlock) (hblocked pid hstate)

/-- Whoever waits in a loop is blocked with the lock of its table in hand. -/
theorem blocked_holder_of_stuck
    (hproc : (system.scheduler.currentProcess cpu).isSome = true)
    (hcall : system.calls (system.current cpu) = some (pipe, call))
    (hsome : (system.scheduler.blockCurrent cpu).isSome = true)
    (hstuck : Stuck (system.pipes.buffer pipe) call) :
    ∃ next, step system (.round cpu) = some next ∧ ¬ NoBlockedHolder next := by
  obtain ⟨_, hblock⟩ := isSome_iff_exists.mp hsome
  obtain ⟨_, hcurrent⟩ := isSome_iff_exists.mp hproc
  have hround : (system.view pipe).round cpu call = (system.view pipe).block cpu call.side := by
    dsimp only [Pipe.System.round, System.view]
    rw [waits_of_stuck hstuck]
  dsimp only [step, System.round]
  rw [if_pos hproc, hcall, bind_some]
  dsimp only [System.callRound]
  rw [hround, Pipe.System.block, System.view, hblock]
  refine ⟨_, rfl, fun hawake => ?_⟩
  refine hawake (system.tableOf (system.current cpu)) (system.current cpu) ?_
    (Scheduler.stateOf_blockCurrent hcurrent hblock)
  dsimp only [System.setCall]
  rw [update_self, hcall]
  rfl

theorem blocked_holder_of_enter (hblocked : system.scheduler.stateOf pid = some .blocked)
    (call : PipeId × PipeCall) : ¬ NoBlockedHolder (system.setCall pid (some call)) :=
  fun hawake => hawake (system.tableOf pid) pid (update_self ..) hblocked

theorem ready_of_noBlockedHolder
    (h : ∀ next, step system action = some next → NoBlockedHolder next) : Ready system action := by
  cases action with
  | round cpu =>
    intro pipe _ hproc hcall hsome hstuck
    obtain ⟨next, hstep, hblocked⟩ :=
      blocked_holder_of_stuck hproc hcall hsome hstuck
    exact hblocked (h next hstep)
  | read cpu fd length =>
    intro pipe hadmits hget hmask hblocked
    refine blocked_holder_of_enter hblocked (pipe, .read length) (h _ ?_)
    dsimp only [step]
    rw [if_pos hadmits, System.sysRead, hmask]
    rw [hget]
    rfl
  | write cpu fd source =>
    intro pipe hadmits hget hblocked
    refine blocked_holder_of_enter hblocked (pipe, .write source) (h _ ?_)
    dsimp only [step]
    rw [if_pos hadmits, System.sysWrite, hget]
    rfl
  | act _ | close _ _ | dup _ _ | pipe _ => trivial

/-- From any start with no process inside a call, no process is ever blocked while it holds
the lock of a descriptor table exactly if no pipe call in its loop has to wait, and no
process that is marked as blocked goes into such a loop. -/
theorem no_blocked_holder_iff (start : System) (hidle : Idle start) (actions : List Action) :
    Along step (fun system action => ∀ next, step system action = some next →
        NoBlockedHolder next) start actions ↔
      Along step Ready start actions := by
  refine along_congr_of_invariant (I := fun system => Guarded system ∧ NoBlockedHolder system)
    (fun system action next hgood hawake hstep => ?_) (fun system action hgood => ?_)
    actions start
    ⟨hidle.guarded, fun _ _ hlock => by rw [hidle.2] at hlock; cases hlock⟩
  · exact ⟨hgood.1.step hstep, hawake next hstep⟩
  · exact ⟨ready_of_noBlockedHolder, fun hready next hstep =>
      noBlockedHolder_of_ready hgood.1 hgood.2 hready hstep⟩

/-- Threads of one process, before anything runs. -/
def System.start : System where
  scheduler := .init
  tables := fun _ => .newWithTty
  tableOf := fun _ => 0
  locks := fun _ => none
  pipes := ⟨fun _ => {}, 0⟩
  blocked := fun _ _ => none
  calls := fun _ => none

/-- Of two threads the first makes a pipe and reads from it. -/
def emptyPipeRun : List Action :=
  [.act (.spawn bootCpu none), .act (.spawn bootCpu none), .act (.schedule bootCpu 0),
    .pipe bootCpu, .read bootCpu 3 1, .round bootCpu]

theorem no_blocked_holder_iff_empty_pipe :
    Idle System.start ∧
      (Along step (fun system action => ∀ next, step system action = some next →
          NoBlockedHolder next) System.start emptyPipeRun ↔
        Along step Ready System.start emptyPipeRun) :=
  have hidle : Idle System.start := ⟨fun _ => rfl, fun _ => rfl⟩
  ⟨hidle, no_blocked_holder_iff System.start hidle emptyPipeRun⟩

/-- The reader waits with the lock in hand that the other thread, which runs now, needs to
write. -/
theorem reader_blocked_with_lock :
    ∃ final, run step System.start emptyPipeRun = some final ∧
      final.locks 0 = some ⟨1, 1⟩ ∧ final.scheduler.stateOf ⟨1, 1⟩ = some .blocked ∧
      final.current bootCpu = ⟨2, 1⟩ ∧ ¬ NoBlockedHolder final := by
  have hview : (run step System.start emptyPipeRun).map (fun final =>
      (final.locks 0, final.scheduler.stateOf ⟨1, 1⟩, final.current bootCpu)) =
      some (some ⟨1, 1⟩, some .blocked, ⟨2, 1⟩) := by
    decide +kernel
  obtain ⟨final, hrun, hfinal⟩ := map_eq_some_iff.mp hview
  rw [Prod.mk.injEq, Prod.mk.injEq] at hfinal
  obtain ⟨hlock, hblocked, hcurrent⟩ := hfinal
  exact ⟨final, hrun, hlock, hblocked, hcurrent, fun hawake => hawake 0 ⟨1, 1⟩ hlock hblocked⟩

end Ipc.TableLock
end Bazzulto
