/-
  Scheduler/Core.lean --- the scheduler state and its operations.

  Embeds `Scheduler` (kernel/src/scheduler/mod.rs) with the futex table and the
  blocking halves of `sys_futex` (systemcalls/threads.rs) and `sys_wait`
  (systemcalls/process.rs).  Every operation runs under the scheduler lock and
  is one step here.  `none` as a result is a kernel panic.

  `enqueue_load_balanced_with_nice` pushes to the queue of the calling core, so
  each operation that wakes a process takes that core as an argument.  File
  descriptors, credentials and CPU contexts are left out.
-/
import Bazzulto.Foundation.Run
import Bazzulto.Scheduler.Pool
import Bazzulto.Scheduler.RunQueue

set_option autoImplicit false

namespace Bazzulto

open Scheduler Option Function Process

/-- A core number, below `MAX_CPUS`. -/
abbrev Cpu := Fin 4

/-- Core 0, which boots the system and serves the timer. -/
def bootCpu : Cpu := 0

/-- `Scheduler`, with the waiter queues of `FUTEX_TABLE`. -/
structure Scheduler where
  pool : Pool
  runQueues : Cpu → RunQueue
  currentPids : Cpu → Pid
  initPid : Option Pid
  futexTable : BitVec 64 → List Pid

namespace Scheduler

/-- `Scheduler::new` followed by `Scheduler::init`: every core runs the idle
process and all queues are empty. -/
def init : Scheduler where
  pool := Pool.initIdle
  runQueues := fun _ => RunQueue.empty
  currentPids := fun _ => Pid.idle
  initPid := none
  futexTable := fun _ => []

section

variable (scheduler : Scheduler)

/-- The state of a process, if it is in the pool. -/
def stateOf (pid : Pid) : Option ProcessState :=
  (scheduler.pool.get pid).map state

/-! ## Elementary updates -/

/-- Write the state of a process. -/
def setState (pid : Pid) (state : ProcessState) : Scheduler :=
  { scheduler with
    pool := scheduler.pool.modify pid (fun process => { process with state })
      (fun _ => rfl) }

section

variable (cpu : Cpu)

/-- `enqueue_load_balanced_with_nice`, and `push_with_nice` on a core's own
queue. -/
def enqueue (pid : Pid) (nice : Nice) : Scheduler :=
  { scheduler with
    runQueues := update scheduler.runQueues cpu
      ((scheduler.runQueues cpu).pushWithNice pid nice) }

/-- The step all wake-ups share: state `Ready`, and one entry in a run queue. -/
def readyAndEnqueue (process : Process) : Scheduler :=
  (scheduler.setState process.pid .ready).enqueue cpu process.pid process.nice

def createProcess (parentPid : Option Pid) : Option (Pid × Scheduler) :=
  match scheduler.pool.allocateSlot with
  | none => none
  | some (pid, pool) =>
    some (pid, { scheduler with pool := pool.insert (new pid parentPid) })

def makeReady (pid : Pid) : Scheduler :=
  match scheduler.pool.get pid with
  | none => scheduler
  | some process => scheduler.readyAndEnqueue cpu process

/-- `unblock`: only a blocked or waiting process is woken. -/
def unblock (pid : Pid) : Scheduler :=
  match scheduler.pool.get pid with
  | none => scheduler
  | some process =>
    match process.state with
    | .blocked | .waiting _ => scheduler.readyAndEnqueue cpu process
    | _ => scheduler

/-- `futex_make_ready`: every process that is neither running nor a zombie is
woken, one that is ready already included. -/
def futexMakeReady (pid : Pid) : Scheduler :=
  match scheduler.pool.get pid with
  | none => scheduler
  | some process =>
    match process.state with
    | .running | .zombie _ => scheduler
    | _ => scheduler.readyAndEnqueue cpu process

/-! ## Choosing the next process -/

/-- The scan of `steal_work`: the core with the longest queue other than the
thief, the first one if several are longest. -/
def busiestCpu (thief : Cpu) : Option Cpu × Nat :=
  (List.finRange 4).foldl (fun best other =>
    if other = thief then best
    else
      let queueLen := (scheduler.runQueues other).totalLen
      if best.2 < queueLen then (some other, queueLen) else best) (none, 0)

def stealWork (thief : Cpu) : Option (Pid × Scheduler) :=
  match scheduler.busiestCpu thief with
  | (some source, bestLen) =>
    if 0 < bestLen then
      match (scheduler.runQueues source).popLowestPriority with
      | some (pid, queue) =>
        some (pid, { scheduler with
          runQueues := update scheduler.runQueues source queue })
      | none => none
    else none
  | (none, _) => none

/-- Local queue, then stealing, then the idle process. -/
def pickNext : Pid × Scheduler :=
  match (scheduler.runQueues cpu).pop with
  | some (pid, queue) =>
    (pid, { scheduler with
      runQueues := update scheduler.runQueues cpu queue })
  | none =>
    match scheduler.stealWork cpu with
    | some stolen => stolen
    | none => (Pid.idle, scheduler)

/-- The context switch: the new process becomes running and current.  It panics
when either process is not in the pool. -/
def switchTo (fromPid toPid : Pid) : Option Scheduler :=
  let next := { scheduler.setState toPid .running with
    currentPids := update scheduler.currentPids cpu toPid }
  if (next.pool.get fromPid).isNone ∨ (next.pool.get toPid).isNone then none
  else some next

def scheduleNoRequeue : Option Scheduler :=
  let fromPid := scheduler.currentPids cpu
  let (toPid, picked) := scheduler.pickNext cpu
  if toPid = fromPid then some picked
  else picked.switchTo cpu fromPid toPid

/-! ## The timer -/

section

variable (nowTick : Nat)

/-- The processes whose sleep is over, in slot order. -/
def wakeupPids : List Pid :=
  scheduler.pool.processes.filterMap fun process =>
    match process.state with
    | .sleeping wakeAtTick => if wakeAtTick ≤ nowTick then some process.pid else none
    | _ => none

/-- The wake-up loop of `schedule_on_core`. -/
def wakeSleepers : Scheduler :=
  (scheduler.wakeupPids nowTick).foldl (fun s pid => s.makeReady cpu pid) scheduler

/-- The processes whose alarm has expired, in slot order. -/
def alarmPids : List Pid :=
  scheduler.pool.processes.filterMap fun process =>
    if process.alarmDeadlineTick ≠ 0 ∧ process.alarmDeadlineTick ≤ nowTick then
      some process.pid
    else none

/-- SIGALRM (14) for one process: no wake-up, only the pending bit. -/
def deliverAlarm (pid : Pid) : Scheduler :=
  { scheduler with
    pool := scheduler.pool.modify pid
      (fun process =>
        (({ process with alarmDeadlineTick := 0 } : Process).sendSignal 14).1)
      (fun process => by simp only [sendSignal]; split <;> rfl) }

/-- The alarm loop of `schedule_on_core`. -/
def deliverAlarms : Scheduler :=
  (scheduler.alarmPids nowTick).foldl deliverAlarm scheduler

/-- Put the current process back on its own queue if it is still running. -/
def requeueCurrent : Scheduler :=
  match scheduler.pool.get (scheduler.currentPids cpu) with
  | none => scheduler
  | some current =>
    if current.state = .running then
      if scheduler.currentPids cpu = Pid.idle then
        scheduler.setState current.pid .ready
      else scheduler.readyAndEnqueue cpu current
    else scheduler

/-- Waking sleepers and delivering alarms is the work of core 0 alone. -/
def timerWork : Scheduler :=
  if cpu = bootCpu then (scheduler.wakeSleepers cpu nowTick).deliverAlarms nowTick
  else scheduler

def scheduleOnCore : Option Scheduler :=
  let fromPid := scheduler.currentPids cpu
  let (toPid, picked) :=
    ((scheduler.timerWork cpu nowTick).requeueCurrent cpu).pickNext cpu
  if toPid = fromPid then some (picked.setState fromPid .running)
  else picked.switchTo cpu fromPid toPid

end

/-! ## Blocking, sleeping, futexes -/

def blockCurrent : Option Scheduler :=
  (scheduler.setState (scheduler.currentPids cpu) .blocked).scheduleNoRequeue cpu

/-- The sleeping system calls: the current process sleeps until a tick. -/
def sleepCurrent (wakeAtTick nowTick : Nat) : Option Scheduler :=
  (scheduler.setState (scheduler.currentPids cpu) (.sleeping wakeAtTick)).scheduleOnCore cpu nowTick

/-- `u64::MAX`, the deadline of a sleep without one. -/
def neverTick : Nat := 2 ^ 64 - 1

/-- `FUTEX_WAIT` after the value test: join the waiters and sleep. -/
def futexWait (uaddr : BitVec 64) (nowTick : Nat) : Option Scheduler :=
  let waiting := { scheduler with
    futexTable := update scheduler.futexTable uaddr
      (scheduler.futexTable uaddr ++ [scheduler.currentPids cpu]) }
  waiting.sleepCurrent cpu neverTick nowTick

/-- `FUTEX_WAKE`: drain up to `count` waiters and make each ready. -/
def futexWake (uaddr : BitVec 64) (count : Nat) : Scheduler :=
  let pidsToWake := (scheduler.futexTable uaddr).take count
  let drained := { scheduler with
    futexTable := update scheduler.futexTable uaddr
      ((scheduler.futexTable uaddr).drop count) }
  pidsToWake.foldl (fun s pid => s.futexMakeReady cpu pid) drained

end

/-! ## Signals -/

/-- Drop a process from every run queue. -/
def dequeueEverywhere (pid : Pid) : Scheduler :=
  { scheduler with runQueues := fun cpu => (scheduler.runQueues cpu).remove pid }

/-- Record a signal in a process, as `Process::send_signal` does. -/
def recordSignal (pid : Pid) (signum : Nat) : Scheduler :=
  { scheduler with
    pool := scheduler.pool.modify pid (fun process => (process.sendSignal signum).1)
      (fun process => by simp only [sendSignal]; split <;> rfl) }

/-- `send_signal_to`: SIGSTOP (19) stops the target, SIGCONT (18) resumes it,
any other signal makes a blocked or sleeping target ready. -/
def sendSignalTo (cpu : Cpu) (pid : Pid) (signum : Nat) : Scheduler × Bool :=
  match scheduler.pool.get pid with
  | none => (scheduler, false)
  | some process =>
    if signum = 0 ∨ 63 < signum then (scheduler, false)
    else if signum = 19 then
      match process.state with
      | .zombie _ | .stopped => (scheduler, true)
      | .ready => ((scheduler.setState pid .stopped).dequeueEverywhere pid, true)
      | _ => (scheduler.setState pid .stopped, true)
    else if signum = 18 then
      let recorded := scheduler.recordSignal pid 18
      if process.state = .stopped then
        (recorded.readyAndEnqueue cpu process, true)
      else (recorded, true)
    else
      let recorded := scheduler.recordSignal pid signum
      match process.state with
      | .blocked | .sleeping _ => (recorded.readyAndEnqueue cpu process, true)
      | _ => (recorded, true)

/-! ## Exit and wait -/

/-- `wake_waiting_parent`: unblock the parent if it waits for this child. -/
def wakeWaitingParent (cpu : Cpu) (childPid : Pid) : Scheduler :=
  match (scheduler.pool.get childPid).bind parentPid with
  | none => scheduler
  | some parentPid =>
    match scheduler.stateOf parentPid with
    | some (.waiting none) => scheduler.unblock cpu parentPid
    | some (.waiting (some forPid)) =>
      if forPid = childPid then scheduler.unblock cpu parentPid else scheduler
    | _ => scheduler

/-- Write the parent of a process. -/
def setParent (pid parentPid : Pid) : Scheduler :=
  { scheduler with
    pool := scheduler.pool.modify pid
      (fun process => { process with parentPid := some parentPid }) (fun _ => rfl) }

end

/-- One child of an exiting process goes to init, which is woken if the child is
a zombie. -/
def reparent (cpu : Cpu) (initPid : Pid) (scheduler : Scheduler) (childPid : Pid) : Scheduler :=
  let moved := scheduler.setParent childPid initPid
  match moved.stateOf childPid with
  | some (.zombie _) => moved.wakeWaitingParent cpu childPid
  | _ => moved

section

variable (scheduler : Scheduler)

/-- The children of a process, in slot order. -/
def children (pid : Pid) : List Pid :=
  (scheduler.pool.processes.filter (fun process => process.parentPid = some pid)).map
    Process.pid

/-- The reparenting loop of `exit`. -/
def reparentChildren (cpu : Cpu) (pid : Pid) : Scheduler :=
  match scheduler.initPid with
  | none => scheduler
  | some initPid => (scheduler.children pid).foldl (reparent cpu initPid) scheduler

/-- Turn a process into a zombie.  The address space goes too, except that of a
thread, which is its leader's. -/
def markZombie (pid : Pid) (exitCode : Int) : Scheduler :=
  { scheduler with
    pool := scheduler.pool.modify pid
      (fun process =>
        { process with
          state := .zombie exitCode
          exitCode
          pageTable := if process.isThread then process.pageTable else none
          mmapRegions := if process.isThread then process.mmapRegions else [] })
      (fun _ => rfl) }

/-- `exit` up to the switch: the zombie, its orphans, its parent. -/
def becomeZombie (cpu : Cpu) (exitCode : Int) : Scheduler :=
  let pid := scheduler.currentPids cpu
  ((scheduler.markZombie pid exitCode).reparentChildren cpu pid).wakeWaitingParent
    cpu pid

def exit (cpu : Cpu) (exitCode : Int) : Option Scheduler :=
  (scheduler.becomeZombie cpu exitCode).scheduleNoRequeue cpu

/-- A zombie child of `parentPid` that `reap` may take. -/
def reapable (parentPid : Pid) (forPid : Option Pid) (process : Process) : Bool :=
  process.parentPid = some parentPid &&
    (match process.state with | .zombie _ => true | _ => false) &&
    (match forPid with | none => true | some pid => process.pid = pid)

/-- Free the slot of a process. -/
def release (pid : Pid) : Scheduler :=
  { scheduler with pool := scheduler.pool.freeSlot pid }

/-- `reap`: free the slot of the first zombie child. -/
def reap (parentPid : Pid) (forPid : Option Pid) : Option ((Pid × Int) × Scheduler) :=
  match scheduler.pool.processes.find? (reapable parentPid forPid) with
  | none => none
  | some zombie =>
    some ((zombie.pid, zombie.exitCode), scheduler.release zombie.pid)

def hasChildren (parentPid : Pid) : Bool :=
  scheduler.pool.processes.any (fun process => process.parentPid = some parentPid)

/-- One turn of the loop in `sys_wait`: reap, or return at once under WNOHANG,
or wait for a child to exit. -/
def waitTurn (cpu : Cpu) (forPid : Option Pid) (nohang : Bool) : Option Scheduler :=
  let pid := scheduler.currentPids cpu
  match scheduler.reap pid forPid with
  | some (_, reaped) => some reaped
  | none =>
    if nohang then some scheduler
    else (scheduler.setState pid (.waiting forPid)).scheduleNoRequeue cpu

/-- `sys_wait` up to its first turn; without children it returns ECHILD. -/
def sysWait (cpu : Cpu) (forPid : Option Pid) (nohang : Bool) : Option Scheduler :=
  if scheduler.hasChildren (scheduler.currentPids cpu) then
    scheduler.waitTurn cpu forPid nohang
  else some scheduler

/-! ## Steps -/

/-- One scheduler operation, on behalf of a core. -/
inductive Action where
  /-- `create_process` and `make_ready` under one lock, as `sys_spawn` does. -/
  | spawn (cpu : Cpu) (parentPid : Option Pid)
  | makeReady (cpu : Cpu) (pid : Pid)
  | schedule (cpu : Cpu) (nowTick : Nat)
  | block (cpu : Cpu)
  | unblock (cpu : Cpu) (pid : Pid)
  | sleep (cpu : Cpu) (wakeAtTick nowTick : Nat)
  | futexWait (cpu : Cpu) (uaddr : BitVec 64) (nowTick : Nat)
  | futexWake (cpu : Cpu) (uaddr : BitVec 64) (count : Nat)
  | signal (cpu : Cpu) (pid : Pid) (signum : Nat)
  | wait (cpu : Cpu) (forPid : Option Pid) (nohang : Bool)
  /-- A later turn of the loop in `sys_wait`, after a wake-up. -/
  | waitAgain (cpu : Cpu) (forPid : Option Pid) (nohang : Bool)
  | exit (cpu : Cpu) (exitCode : Int)
  | reap (parentPid : Pid) (forPid : Option Pid)
  | setInitPid (pid : Pid)

/-- The transitions of the scheduler. -/
def step : Action → Option Scheduler
  | .spawn cpu parentPid =>
    (scheduler.createProcess parentPid).map fun (pid, created) =>
      created.makeReady cpu pid
  | .makeReady cpu pid => some (scheduler.makeReady cpu pid)
  | .schedule cpu nowTick => scheduler.scheduleOnCore cpu nowTick
  | .block cpu => scheduler.blockCurrent cpu
  | .unblock cpu pid => some (scheduler.unblock cpu pid)
  | .sleep cpu wakeAtTick nowTick => scheduler.sleepCurrent cpu wakeAtTick nowTick
  | .futexWait cpu uaddr nowTick => scheduler.futexWait cpu uaddr nowTick
  | .futexWake cpu uaddr count => some (scheduler.futexWake cpu uaddr count)
  | .signal cpu pid signum => some (scheduler.sendSignalTo cpu pid signum).1
  | .wait cpu forPid nohang => scheduler.sysWait cpu forPid nohang
  | .waitAgain cpu forPid nohang => scheduler.waitTurn cpu forPid nohang
  | .exit cpu exitCode => scheduler.exit cpu exitCode
  | .reap parentPid forPid => (scheduler.reap parentPid forPid).map Prod.snd
  | .setInitPid pid => some { scheduler with initPid := some pid }

end

theorem switchTo_eq_some {scheduler next : Scheduler} {cpu : Cpu} {fromPid toPid : Pid}
    (h : scheduler.switchTo cpu fromPid toPid = some next) :
    next = { scheduler.setState toPid .running with
      currentPids := update scheduler.currentPids cpu toPid } := by
  unfold switchTo at h
  dsimp only at h
  split at h
  · cases h
  · exact (some.inj h).symm

section

variable {scheduler created : Scheduler} {pid : Pid} {parentPid : Option Pid}
  (h : scheduler.createProcess parentPid = some (pid, created))
include h

theorem createProcess_eq_some :
    ∃ pool, scheduler.pool.allocateSlot = some (pid, pool) ∧
      created = { scheduler with pool := pool.insert (new pid parentPid) } := by
  unfold createProcess at h
  split at h
  · cases h
  next pool halloc =>
    cases h
    exact ⟨pool, halloc, rfl⟩

/-- `create_process` adds one process, under a pid that named none before. -/
theorem get_createProcess :
    pid ≠ Pid.idle ∧ scheduler.pool.get pid = none ∧
      created.runQueues = scheduler.runQueues ∧
      ∀ other, created.pool.get other =
        if other = pid then some (new pid parentPid)
        else scheduler.pool.get other := by
  obtain ⟨_, halloc, rfl⟩ := createProcess_eq_some h
  obtain ⟨hidle, hfree, hlookup⟩ := Pool.allocateSlot_spec halloc
  refine ⟨hidle, ?_, rfl, fun other => ?_⟩
  · rw [← hlookup, Pool.get]
    split
    next process hslot =>
      exact absurd hslot (hfree process)
    · rfl
  · rw [Pool.get_insert (new pid parentPid) hfree other, hlookup]
    rfl

end

/-! ## A signal as its target sees it -/

theorem get_setState (scheduler : Scheduler) (pid : Pid) (state : ProcessState) :
    (scheduler.setState pid state).pool.get pid =
      (scheduler.pool.get pid).map (fun process => { process with state }) := by
  rw [setState, Pool.get_modify, if_pos rfl]

theorem get_recordSignal (scheduler : Scheduler) (pid : Pid) (signum : Nat) :
    (scheduler.recordSignal pid signum).pool.get pid =
      (scheduler.pool.get pid).map (fun process => (process.sendSignal signum).1) := by
  rw [recordSignal, Pool.get_modify, if_pos rfl]

theorem get_readyAndEnqueue {scheduler : Scheduler} {cpu : Cpu} {pid : Pid}
    {process : Process} (hpid : process.pid = pid) :
    (scheduler.readyAndEnqueue cpu process).pool.get pid = (scheduler.pool.get pid).map
        (fun process => { process with state := .ready }) := by
  rw [← hpid]
  exact get_setState scheduler process.pid .ready

/-- In the pool, `send_signal_to` changes its target as `receiveSignal` says. -/
theorem get_sendSignalTo (scheduler : Scheduler) (cpu : Cpu) (pid : Pid) (signum : Nat) :
    (scheduler.sendSignalTo cpu pid signum).1.pool.get pid =
      (scheduler.pool.get pid).map (fun process => process.receiveSignal signum) := by
  unfold sendSignalTo
  split
  next hnone =>
    rw [hnone]
    rfl
  next process hget =>
    have hpid := Pool.get_pid hget
    have hstate : ∀ n, (process.sendSignal n).1.state = process.state := by
      intro _
      unfold sendSignal
      split <;> rfl
    unfold receiveSignal
    split
    · simp
    split
    · split <;> simp [dequeueEverywhere, get_setState, *]
    split
    · split <;>
        simp [get_readyAndEnqueue hpid, get_recordSignal, *]
    · split <;>
        simp [get_readyAndEnqueue hpid, get_recordSignal, *]

/-! ## One aspect of every process

`view` looks at the process table through a function of the record, so that "nothing else
changes" is one lemma an operation, whatever the field. -/

section View

/-- Write through `process_mut`. -/
def updateProcess (scheduler : Scheduler) (pid : Pid) (change : Process → Process)
    (hpid : ∀ process, (change process).pid = process.pid) : Scheduler :=
  { scheduler with pool := scheduler.pool.modify pid change hpid }

def currentProcess (scheduler : Scheduler) (cpu : Cpu) : Option Process :=
  scheduler.pool.get (scheduler.currentPids cpu)

variable {α : Type*} {f : Process → α}

/-- What `f` reads in the record of a process. -/
def view (scheduler : Scheduler) (f : Process → α) (pid : Pid) : Option α :=
  (scheduler.pool.get pid).map f

theorem view_of_get {scheduler : Scheduler} {pid : Pid} {process : Process} (f : Process → α)
    (h : scheduler.pool.get pid = some process) : scheduler.view f pid = some (f process) := by
  rw [view, h, map_some]

section

variable (scheduler : Scheduler) (pid other : Pid) (change : Process → Process)
  (hpid : ∀ process, (change process).pid = process.pid)

theorem view_updateProcess :
    (scheduler.updateProcess pid change hpid).view f other =
      if other = pid then scheduler.view (fun process => f (change process)) pid
      else scheduler.view f other := by
  rw [view, updateProcess, Pool.get_modify]
  split
  · rw [map_map]
    rfl
  · rfl

/-- A change that `f` does not see. -/
theorem view_updateProcess_of_keeps (hkeep : ∀ process, f (change process) = f process) :
    (scheduler.updateProcess pid change hpid).view f other = scheduler.view f other := by
  rw [view_updateProcess]
  split
  next heq =>
    simp [heq, hkeep]
  · rfl

end

section

variable (hstate : ∀ (process : Process) (state : ProcessState),
  f { process with state } = f process)
include hstate

theorem view_setState (scheduler : Scheduler) (pid other : Pid) (state : ProcessState) :
    (scheduler.setState pid state).view f other = scheduler.view f other :=
  scheduler.view_updateProcess_of_keeps pid other (fun process => { process with state })
    (fun _ => rfl) (fun process => hstate process state)

theorem view_makeReady (scheduler : Scheduler) (cpu : Cpu) (pid other : Pid) :
    (scheduler.makeReady cpu pid).view f other = scheduler.view f other := by
  unfold makeReady
  split
  · rfl
  · exact view_setState hstate scheduler _ other .ready

theorem view_switchTo {scheduler scheduler' : Scheduler} {cpu : Cpu} {fromPid toPid : Pid}
    (h : scheduler.switchTo cpu fromPid toPid = some scheduler') (other : Pid) :
    scheduler'.view f other = scheduler.view f other := by
  rw [switchTo_eq_some h]
  exact view_setState hstate scheduler toPid other .running

end

theorem view_createProcess {scheduler created : Scheduler} {pid : Pid} {parentPid : Option Pid}
    (h : scheduler.createProcess parentPid = some (pid, created)) (other : Pid) :
    created.view f other =
      if other = pid then some (f (new pid parentPid)) else scheduler.view f other := by
  obtain ⟨-, -, -, hget⟩ := get_createProcess h
  rw [view, hget]
  split <;> rfl

end View

end Scheduler
end Bazzulto
