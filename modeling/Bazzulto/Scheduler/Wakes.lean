/-
  Scheduler/Wakes.lean --- the operations of the scheduler, case by case.

  Wake-ups, signals and the search for the next process branch on what they find in the
  pool and in the queues.  Here the branches are gone through once.  Every invariant of
  the scheduler is then proved from the cases: `Wakes`, `Signalled` and the two lemmas
  about `pickNext` and `requeueCurrent`.
-/
import Bazzulto.Scheduler.Core

set_option autoImplicit false

namespace Bazzulto.Scheduler

variable {scheduler before after : Scheduler} {pid : Pid} {process : Process} {cpu : Cpu}

theorem stateOf_of_get (h : scheduler.pool.get pid = some process) :
    scheduler.stateOf pid = some process.state := view_of_get Process.state h

theorem stateOf_self (h : scheduler.pool.get pid = some process) :
    scheduler.stateOf process.pid = some process.state := by
  rw [Pool.get_pid h]
  exact stateOf_of_get h

/-! ## Wake-ups -/

/-- The states that a process is woken from. -/
def Dormant : ProcessState → Prop
  | .blocked | .waiting _ | .sleeping _ | .stopped => True
  | .ready | .running | .zombie _ => False

/-- `after` results from `before` by waking dormant processes and by writes to the records
of processes in `K`, which leave their states. -/
inductive Wakes (K : Pid → Prop) : Scheduler → Scheduler → Prop where
  | refl (scheduler : Scheduler) : Wakes K scheduler scheduler
  | wake {scheduler : Scheduler} (cpu : Cpu) {process : Process}
      (hget : scheduler.stateOf process.pid = some process.state)
      (hstate : Dormant process.state) :
      Wakes K scheduler (scheduler.readyAndEnqueue cpu process)
  | write {scheduler : Scheduler} {pid : Pid} (hmem : K pid) (change : Process → Process)
      (hpid : ∀ process, (change process).pid = process.pid)
      (hstate : ∀ process, (change process).state = process.state) :
      Wakes K scheduler (scheduler.updateProcess pid change hpid)
  | trans {first second third : Scheduler} (h : Wakes K first second)
      (h' : Wakes K second third) : Wakes K first third

variable {K : Pid → Prop}

theorem wakes_unblock (scheduler : Scheduler) (cpu : Cpu) (pid : Pid) :
    Wakes K scheduler (scheduler.unblock cpu pid) := by
  unfold unblock
  split
  · exact .refl _
  next hget =>
    split
    next hblocked =>
      exact .wake cpu (stateOf_self hget) (by rw [hblocked]; trivial)
    next hwaiting =>
      exact .wake cpu (stateOf_self hget) (by rw [hwaiting]; trivial)
    · exact .refl _

theorem wakes_wakeWaitingParent (scheduler : Scheduler) (cpu : Cpu) (childPid : Pid) :
    Wakes K scheduler (scheduler.wakeWaitingParent cpu childPid) := by
  unfold wakeWaitingParent
  split
  · exact .refl _
  split
  · exact wakes_unblock _ _ _
  · split
    · exact wakes_unblock _ _ _
    · exact .refl _
  · exact .refl _

theorem wakes_reparent (cpu : Cpu) (initPid : Pid) (hmem : K pid) (scheduler : Scheduler) :
    Wakes K scheduler (reparent cpu initPid scheduler pid) := by
  have hmoved : Wakes K scheduler (scheduler.setParent pid initPid) :=
    .write hmem (fun process => { process with parentPid := some initPid }) (fun _ => rfl)
      fun _ => rfl
  unfold reparent
  dsimp only
  split
  · exact hmoved.trans (wakes_wakeWaitingParent _ _ _)
  · exact hmoved

theorem wakes_foldl {act : Scheduler → Pid → Scheduler} (pids : List Pid)
    (h : ∀ pid ∈ pids, ∀ scheduler, Wakes K scheduler (act scheduler pid)) :
    ∀ scheduler : Scheduler, Wakes K scheduler (pids.foldl act scheduler) := by
  induction pids with
  | nil => exact .refl
  | cons pid rest ih =>
    exact fun scheduler => (h pid List.mem_cons_self scheduler).trans
      (ih (fun other hother => h other (List.mem_cons_of_mem _ hother)) _)

theorem wakes_reparentChildren (cpu : Cpu) (h : ∀ child ∈ scheduler.children pid, K child) :
    Wakes K scheduler (scheduler.reparentChildren cpu pid) := by
  unfold reparentChildren
  split
  · exact .refl _
  · exact wakes_foldl _ (fun child hchild => wakes_reparent cpu _ (h child hchild)) scheduler

/-- `exit` after marking the zombie: orphans move, and waiting parents are woken. -/
theorem wakes_becomeZombie (scheduler : Scheduler) (cpu : Cpu) (exitCode : Int)
    (h : ∀ child ∈ (scheduler.markZombie (scheduler.currentPids cpu) exitCode).children
      (scheduler.currentPids cpu), K child) :
    Wakes K (scheduler.markZombie (scheduler.currentPids cpu) exitCode)
      (scheduler.becomeZombie cpu exitCode) :=
  (wakes_reparentChildren cpu h).trans (wakes_wakeWaitingParent _ cpu _)

theorem sendSignal_state (process : Process) (signum : Nat) :
    (process.sendSignal signum).1.state = process.state := by
  unfold Process.sendSignal
  split <;> rfl

theorem wakes_recordSignal (scheduler : Scheduler) (hmem : K pid) (signum : Nat) :
    Wakes K scheduler (scheduler.recordSignal pid signum) :=
  .write hmem (fun process => (process.sendSignal signum).1) _ fun _ => sendSignal_state _ signum

theorem wakes_deliverAlarm (scheduler : Scheduler) (hmem : K pid) :
    Wakes K scheduler (scheduler.deliverAlarm pid) :=
  .write hmem
    (fun process => (({ process with alarmDeadlineTick := 0 } : Process).sendSignal 14).1) _
    fun _ => sendSignal_state _ 14

/-! ## Signals -/

/-- What `send_signal_to` can come to.  A process that was stopped is woken by SIGCONT
only. -/
inductive Signalled (scheduler : Scheduler) (cpu : Cpu) (pid : Pid) (signum : Nat) :
    Scheduler → Prop where
  | ignored : Signalled scheduler cpu pid signum scheduler
  | stopped {process : Process} (hget : scheduler.pool.get pid = some process)
      (hstate : process.state ≠ .ready) :
      Signalled scheduler cpu pid signum (scheduler.setState pid .stopped)
  | dequeued {process : Process} (hget : scheduler.pool.get pid = some process)
      (hstate : process.state = .ready) : Signalled scheduler cpu pid signum
        ((scheduler.setState pid .stopped).dequeueEverywhere pid)
  | recorded (n : Nat) : Signalled scheduler cpu pid signum (scheduler.recordSignal pid n)
  | woken (n : Nat) {process : Process} (hget : scheduler.pool.get pid = some process)
      (hstate : Dormant process.state) (hcont : process.state = .stopped → signum = 18) :
      Signalled scheduler cpu pid signum
        ((scheduler.recordSignal pid n).readyAndEnqueue cpu process)

section

variable (scheduler : Scheduler) (cpu : Cpu)

theorem signalled_sendSignalTo (pid : Pid) (signum : Nat) :
    Signalled scheduler cpu pid signum (scheduler.sendSignalTo cpu pid signum).1 := by
  unfold sendSignalTo
  split
  · exact .ignored
  rename_i process hget
  split
  · exact .ignored
  split
  · split
    · exact .ignored
    · exact .ignored
    · exact .dequeued hget ‹_›
    · exact .stopped hget ‹_›
  split
  next hcont =>
    split
    next hstopped =>
      exact .woken 18 hget (by rw [hstopped]; trivial) fun _ => hcont
    · exact .recorded 18
  · split
    next hblocked =>
      exact .woken signum hget (by rw [hblocked]; trivial) (by rw [hblocked]; simp)
    next hsleeping =>
      exact .woken signum hget (by rw [hsleeping]; trivial) (by rw [hsleeping]; simp)
    · exact .recorded signum

/-! ## Choosing a process -/

theorem pickNext_frame :
    (scheduler.pickNext cpu).2.pool = scheduler.pool ∧
      (scheduler.pickNext cpu).2.currentPids = scheduler.currentPids := by
  unfold pickNext
  split
  · exact ⟨rfl, rfl⟩
  split
  next hsteal =>
    unfold stealWork at hsteal
    split at hsteal
    · split at hsteal
      · split at hsteal <;> cases hsteal
        exact ⟨rfl, rfl⟩
      · cases hsteal
    · cases hsteal
  · exact ⟨rfl, rfl⟩

/-- In the pool, `requeueCurrent` makes the current process ready or does nothing. -/
theorem requeueCurrent_frame :
    (scheduler.requeueCurrent cpu).currentPids = scheduler.currentPids ∧
      ((scheduler.requeueCurrent cpu).pool = scheduler.pool ∨ (scheduler.requeueCurrent cpu).pool =
          (scheduler.setState (scheduler.currentPids cpu) .ready).pool) := by
  unfold requeueCurrent
  split
  · exact ⟨rfl, .inl rfl⟩
  rename_i current hget
  rw [← Pool.get_pid hget]
  split
  · split
    · exact ⟨rfl, .inr rfl⟩
    · exact ⟨rfl, .inr rfl⟩
  · exact ⟨rfl, .inl rfl⟩

end

end Bazzulto.Scheduler
