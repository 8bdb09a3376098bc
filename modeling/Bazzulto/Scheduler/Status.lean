/-
  Scheduler/Status.lean --- the exit code that a parent collects.

  Embeds the status word that `sys_wait` stores (kernel/src/systemcalls/process.rs).
  Between the exit of a child and its reaping nothing changes its exit code, so that the
  word is a function of the code the child gave to `sys_exit`.
-/
import Bazzulto.Scheduler.Wakes

set_option autoImplicit false

namespace Bazzulto.Scheduler

open List Option Pool

/-- The word that `sys_wait` stores for an exit code: its low byte in bits 15 to 8. -/
def encodeWaitStatus (exitCode : BitVec 32) : BitVec 32 := (exitCode &&& 0xFF#32) <<< 8

/-- The word that `sys_wait` stores when it finds the child it waits for.  The child is
looked up under generation 1. -/
def waitWord (scheduler : Scheduler) (parentPid : Pid) (childPid : Pid) : Option (BitVec 32) :=
  (scheduler.reap parentPid (some ⟨childPid.index, 1⟩)).map fun reaped =>
    encodeWaitStatus (BitVec.ofInt 32 reaped.1.2)

/-- A dead child that its parent has yet to reap. -/
def Unreaped (scheduler : Scheduler) (childPid parentPid : Pid) (exitCode : Int) : Prop :=
  ∃ process, scheduler.pool.get childPid = some process ∧ process.state = .zombie exitCode ∧
    process.exitCode = exitCode ∧ process.parentPid = some parentPid

section Unreaped

variable {scheduler : Scheduler} {childPid parentPid : Pid} {exitCode : Int}

theorem Unreaped.of_get {after : Scheduler} (h : scheduler.Unreaped childPid parentPid exitCode)
    (hget : after.pool.get childPid = scheduler.pool.get childPid) :
    after.Unreaped childPid parentPid exitCode := by
  obtain ⟨process, hproc, hrest⟩ := h
  exact ⟨process, hget.trans hproc, hrest⟩

/-- A process that is woken is no zombie, and the records that are written are those of
other processes. -/
theorem Unreaped.of_wakes {after : Scheduler} (hwakes : Wakes (· ≠ childPid) scheduler after)
    (h : scheduler.Unreaped childPid parentPid exitCode) :
    after.Unreaped childPid parentPid exitCode := by
  induction hwakes with
  | refl => exact h
  | @wake scheduler cpu process hget hstate =>
    have hne : childPid ≠ process.pid := by
      rintro rfl
      obtain ⟨_, hzombie, hdead, -⟩ := h
      rw [stateOf_of_get hzombie, hdead] at hget
      rw [← some.inj hget] at hstate
      exact hstate
    refine h.of_get ?_
    simp [readyAndEnqueue, enqueue, setState, get_modify, if_neg hne]
  | write hne change _ _ =>
    refine h.of_get ?_
    simp [updateProcess, get_modify, if_neg (Ne.symm hne)]
  | trans _ _ ih ih' => exact ih' (ih h)

/-- `exit` leaves the process for its parent, with the code it gave. -/
theorem unreaped_becomeZombie {cpu : Cpu} {process : Process} (exitCode : Int)
    (hget : scheduler.pool.get (scheduler.currentPids cpu) = some process)
    (hparent : process.parentPid = some parentPid) (hne : scheduler.currentPids cpu ≠ parentPid) :
    (scheduler.becomeZombie cpu exitCode).Unreaped (scheduler.currentPids cpu) parentPid
      exitCode := by
  have hmarked : (scheduler.markZombie (scheduler.currentPids cpu) exitCode).Unreaped
      (scheduler.currentPids cpu) parentPid exitCode := by
    simp only [Unreaped, markZombie, get_modify, hget]
    exact ⟨_, rfl, rfl, rfl, hparent⟩
  refine hmarked.of_wakes (wakes_becomeZombie scheduler cpu exitCode fun child hchild => ?_)
  rintro rfl
  -- The process would be its own parent.
  obtain ⟨_, horphan, hpid⟩ := mem_map.mp hchild
  obtain ⟨hproc, hparent⟩ := mem_filter.mp horphan
  obtain ⟨_, hget, -, -, hchild⟩ := hmarked
  have hself := mem_processes hproc
  rw [hpid, hget] at hself
  cases hself
  rw [decide_eq_true_eq, hchild] at hparent
  exact hne (some.inj hparent).symm

/-- The word that the parent of a dead child finds is made of the child's exit code. -/
theorem Unreaped.waitWord_eq (h : scheduler.Unreaped childPid parentPid exitCode)
    {word : BitVec 32} (hword : scheduler.waitWord parentPid childPid = some word) :
    word = encodeWaitStatus (BitVec.ofInt 32 exitCode) := by
  obtain ⟨_, hget, -, hcode, -⟩ := h
  obtain ⟨⟨⟨_, _⟩, _⟩, hreap, rfl⟩ := map_eq_some_iff.mp hword
  unfold reap at hreap
  split at hreap
  · cases hreap
  next hfind =>
    cases hreap
    have hreapable := List.find?_some hfind
    have hzombie := mem_processes (mem_of_find?_eq_some hfind)
    simp only [reapable, Bool.and_eq_true, decide_eq_true_eq] at hreapable
    rw [hreapable.2] at hzombie
    have hslot := getElem?_of_get hzombie
    rw [getElem?_of_get hget] at hslot
    rw [← some.inj (some.inj hslot), hcode]

end Unreaped

end Bazzulto.Scheduler
