/-
  Scheduler/Orderly.lean --- which process runs where, while nobody sleeps.

  `Orderly` adds to the balance of the run queues that the current process of a
  core is running or stopped, that no process but idle is current on two cores,
  and that no process is asleep.  It is what the blocking primitives build on: a
  blocked process stays blocked, off every core, until somebody wakes it.
-/
import Bazzulto.Scheduler.Balance

set_option autoImplicit false

namespace Bazzulto.Scheduler

open Foundation List Option Function Pool Scheduler Pid

variable {scheduler scheduler' before after : Scheduler} {pid toPid other : Pid} {cpu : Cpu}
  {nowTick signum : Nat}

/-- The invariant of runs in which nobody sleeps. -/
structure Orderly (scheduler : Scheduler) : Prop where
  balanced : scheduler.Balanced
  active : ∀ cpu, scheduler.currentPids cpu ≠ idle →
    scheduler.stateOf (scheduler.currentPids cpu) = some .running ∨
      scheduler.stateOf (scheduler.currentPids cpu) = some .stopped
  distinct : ∀ cpu cpu', scheduler.currentPids cpu = scheduler.currentPids cpu' →
    scheduler.currentPids cpu ≠ idle → cpu = cpu'
  awake : ∀ pid wakeAtTick, scheduler.stateOf pid ≠ some (.sleeping wakeAtTick)

theorem Orderly.currentNotReady (h : scheduler.Orderly) (cpu : Cpu) :
    scheduler.CurrentNotReady cpu := by
  intro hidle hready
  rcases h.active cpu hidle with hstate | hstate
  · exact absurd (hstate.symm.trans hready) (by simp)
  · exact absurd (hstate.symm.trans hready) (by simp)

theorem Orderly.not_current (h : scheduler.Orderly) (hidle : pid ≠ idle)
    (hrunning : scheduler.stateOf pid ≠ some .running)
    (hstopped : scheduler.stateOf pid ≠ some .stopped) (cpu : Cpu) :
    scheduler.currentPids cpu ≠ pid := by
  intro heq
  subst heq
  rcases h.active cpu hidle with hstate | hstate
  · exact hrunning hstate
  · exact hstopped hstate

/-! ## Picking and switching -/

@[simp] theorem currentPids_pickNext (scheduler : Scheduler) (cpu : Cpu) :
    (scheduler.pickNext cpu).2.currentPids = scheduler.currentPids :=
  (pickNext_frame scheduler cpu).2

/-- What a switch to `toPid` leaves: `toPid` running and current on the core,
every other state and core untouched. -/
structure SwitchedTo (before after : Scheduler) (cpu : Cpu) (toPid : Pid) : Prop where
  current : after.currentPids = update before.currentPids cpu toPid
  entered : after.stateOf toPid = (before.stateOf toPid).map (fun _ => .running)
  others : ∀ pid, pid ≠ toPid → after.stateOf pid = before.stateOf pid

theorem switchedTo_setState_running (scheduler : Scheduler) (cpu : Cpu) (toPid : Pid) :
    SwitchedTo scheduler
      { scheduler.setState toPid .running with
        currentPids := update scheduler.currentPids cpu toPid } cpu toPid := by
  refine ⟨rfl, ?_, fun pid hne => ?_⟩
  · show (scheduler.setState toPid .running).stateOf toPid = _
    rw [stateOf_setState, if_pos rfl]
  · show (scheduler.setState toPid .running).stateOf pid = _
    rw [stateOf_setState, if_neg hne]

theorem switchTo_spec {fromPid : Pid} (h : scheduler.switchTo cpu fromPid toPid = some scheduler') :
    SwitchedTo scheduler scheduler' cpu toPid := by
  obtain rfl := switchTo_eq_some h
  exact switchedTo_setState_running scheduler cpu toPid

theorem Orderly.congr (h : scheduler.Orderly) (hbalanced : scheduler'.Balanced)
    (hstate : ∀ pid, scheduler'.stateOf pid = scheduler.stateOf pid)
    (hcurrent : scheduler'.currentPids = scheduler.currentPids) : scheduler'.Orderly := by
  refine ⟨hbalanced, fun cpu hidle => ?_, fun cpu cpu' heq hidle => ?_, fun pid wakeAtTick => ?_⟩
  · rw [hstate, hcurrent] at *
    exact h.active cpu hidle
  · rw [hcurrent] at heq hidle
    exact h.distinct cpu cpu' heq hidle
  · rw [hstate]
    exact h.awake pid wakeAtTick

/-- Every blocked process is still blocked. -/
def KeepsBlocked (before after : Scheduler) : Prop :=
  ∀ pid, pid ≠ idle → before.stateOf pid = some .blocked → after.stateOf pid = some .blocked

/-- A switch to a process that was ready, after a change to the state of the process
that leaves the core. -/
theorem Orderly.switch (h : scheduler.Orderly) (hswitched : SwitchedTo before after cpu toPid)
    (hcurrent : before.currentPids = scheduler.currentPids)
    (hstate : ∀ pid, pid ≠ scheduler.currentPids cpu → before.stateOf pid = scheduler.stateOf pid)
    (hleft : ∀ wakeAtTick,
      before.stateOf (scheduler.currentPids cpu) ≠ some (.sleeping wakeAtTick))
    (hready : toPid ≠ idle → before.stateOf toPid = some .ready)
    (hbalanced : after.Balanced) : after.Orderly ∧ KeepsBlocked scheduler after := by
  have hcores := hswitched.current
  rw [hcurrent] at hcores
  have hactive : ∀ other, other ≠ cpu → scheduler.currentPids other ≠ idle →
      before.stateOf (scheduler.currentPids other) = some .running ∨
        before.stateOf (scheduler.currentPids other) = some .stopped := by
    intro other hother hidle
    rw [hstate _ fun heq => hother (h.distinct other cpu heq hidle)]
    exact h.active other hidle
  -- The process switched to is current on no other core, as it was ready.
  have hfresh : ∀ other, other ≠ cpu → toPid ≠ idle → scheduler.currentPids other ≠ toPid := by
    rintro other hother hidle rfl
    rcases hactive other hother hidle with hstate | hstate
    · exact absurd (hstate.symm.trans (hready hidle)) (by simp)
    · exact absurd (hstate.symm.trans (hready hidle)) (by simp)
  refine ⟨⟨hbalanced, fun other hidle => ?_, fun other other' heq hidle => ?_,
    fun pid wakeAtTick hsleeping => ?_⟩, fun pid hidle hblocked => ?_⟩
  · rw [hcores] at hidle ⊢
    obtain rfl | hother := eq_or_ne other cpu
    · rw [update_self] at hidle ⊢
      left
      rw [hswitched.entered, hready hidle, map_some]
    rw [update_of_ne hother] at hidle ⊢
    rw [hswitched.others _ fun hto => hfresh other hother (hto ▸ hidle) hto]
    exact hactive other hother hidle
  · rw [hcores] at heq hidle
    by_cases hother : other = cpu
    · by_cases hother' : other' = cpu
      · rw [hother, hother']
      subst hother
      rw [update_self, update_of_ne hother'] at heq
      rw [update_self] at hidle
      exact absurd heq.symm (hfresh other' hother' hidle)
    · rw [update_of_ne hother] at heq hidle
      obtain rfl | hother' := eq_or_ne other' cpu
      · rw [update_self] at heq
        exact absurd heq (hfresh other hother (heq ▸ hidle))
      · rw [update_of_ne hother'] at heq
        exact h.distinct other other' heq hidle
  · by_cases hto : pid = toPid
    · rw [hto, hswitched.entered] at hsleeping
      obtain ⟨_, _, hrunning⟩ := map_eq_some_iff.mp hsleeping
      cases hrunning
    · rw [hswitched.others pid hto] at hsleeping
      by_cases heq : pid = scheduler.currentPids cpu
      · exact hleft wakeAtTick (heq ▸ hsleeping)
      · exact h.awake pid wakeAtTick (hstate pid heq ▸ hsleeping)
  · -- A blocked process is on no core, and not the one switched to.
    have hoff := h.not_current hidle (by rw [hblocked]; simp) (by rw [hblocked]; simp) cpu
    rw [← hstate pid hoff.symm] at hblocked
    rw [hswitched.others pid, hblocked]
    rintro rfl
    exact absurd (hblocked.symm.trans (hready hidle)) (by simp)

/-! ## The timer without sleepers -/

theorem wakeSleepers_of_awake (h : scheduler.Orderly) (cpu : Cpu) (nowTick : Nat) :
    scheduler.wakeSleepers cpu nowTick = scheduler := by
  have hnone : scheduler.wakeupPids nowTick = [] := by
    refine eq_nil_iff_forall_not_mem.mpr fun pid hpid => ?_
    obtain ⟨wakeAtTick, hstate⟩ := stateOf_of_mem_wakeupPids hpid
    exact h.awake pid wakeAtTick hstate
  rw [wakeSleepers, hnone]
  rfl

theorem foldl_deliverAlarm_frame (pids : List Pid) (scheduler : Scheduler) :
    (∀ pid, (pids.foldl deliverAlarm scheduler).stateOf pid = scheduler.stateOf pid) ∧
      (pids.foldl deliverAlarm scheduler).currentPids = scheduler.currentPids := by
  induction pids generalizing scheduler with
  | nil => exact ⟨fun _ => rfl, rfl⟩
  | cons pid rest ih =>
    obtain ⟨hstate, hcurrent⟩ := ih (scheduler.deliverAlarm pid)
    exact ⟨fun other => (hstate other).trans (scheduler.view_updateProcess_of_keeps pid other _ _
      fun _ => sendSignal_state _ 14), hcurrent⟩

theorem Orderly.timerWork_frame (h : scheduler.Orderly) (cpu : Cpu) (nowTick : Nat) :
    (∀ pid, (scheduler.timerWork cpu nowTick).stateOf pid = scheduler.stateOf pid) ∧
      (scheduler.timerWork cpu nowTick).currentPids = scheduler.currentPids := by
  unfold timerWork
  split
  · rw [wakeSleepers_of_awake h]
    exact foldl_deliverAlarm_frame _ scheduler
  · exact ⟨fun _ => rfl, rfl⟩

/-! ## Scheduling -/

theorem stateOf_requeueCurrent_of_ne (h : pid ≠ scheduler.currentPids cpu) :
    (scheduler.requeueCurrent cpu).stateOf pid = scheduler.stateOf pid := by
  rcases (requeueCurrent_frame scheduler cpu).2 with hpool | hpool
  · rw [stateOf, hpool, stateOf]
  · rw [stateOf, hpool, ← stateOf, stateOf_setState, if_neg h]

theorem Orderly.requeueCurrent_awake (h : scheduler.Orderly) (cpu : Cpu) (wakeAtTick : Nat) :
    (scheduler.requeueCurrent cpu).stateOf (scheduler.currentPids cpu) ≠
      some (.sleeping wakeAtTick) := by
  rcases (requeueCurrent_frame scheduler cpu).2 with hpool | hpool
  · rw [stateOf, hpool]
    exact h.awake _ wakeAtTick
  · rw [stateOf, hpool, ← stateOf, stateOf_setState, if_pos rfl]
    simp

theorem KeepsBlocked.trans {first second third : Scheduler} (h : KeepsBlocked first second)
    (h' : KeepsBlocked second third) : KeepsBlocked first third :=
  fun pid hidle hblocked => h' pid hidle (h pid hidle hblocked)

theorem keepsBlocked_of_stateOf (h : ∀ pid, after.stateOf pid = before.stateOf pid) :
    KeepsBlocked before after := by
  intro _ _ hblocked
  rw [h]
  exact hblocked

/-- `schedule_on_core` is a switch from the requeued scheduler to the process
that was picked, also when that is the current one. -/
theorem scheduleOnCore_switchedTo
    (hcurrent : (scheduler.timerWork cpu nowTick).currentPids = scheduler.currentPids)
    (h : scheduler.scheduleOnCore cpu nowTick = some scheduler') :
    SwitchedTo
      (((scheduler.timerWork cpu nowTick).requeueCurrent cpu).pickNext cpu).2
      scheduler' cpu
      (((scheduler.timerWork cpu nowTick).requeueCurrent cpu).pickNext cpu).1 := by
  simp only [scheduleOnCore] at h
  split at h
  next hsame =>
    rw [some.injEq] at h
    have hswitched := switchedTo_setState_running
      (((scheduler.timerWork cpu nowTick).requeueCurrent cpu).pickNext cpu).2 cpu
      (((scheduler.timerWork cpu nowTick).requeueCurrent cpu).pickNext cpu).1
    rw [← h, ← hsame]
    refine ⟨?_, hswitched.entered, hswitched.others⟩
    have hself : (((scheduler.timerWork cpu nowTick).requeueCurrent cpu).pickNext
        cpu).1 = (((scheduler.timerWork cpu nowTick).requeueCurrent cpu).pickNext
        cpu).2.currentPids cpu := by
      rw [hsame, currentPids_pickNext, (requeueCurrent_frame _ cpu).1, hcurrent]
    exact (update_eq_self_iff.mpr hself).symm
  · exact switchTo_spec h

section

variable (h : scheduler.Orderly)
include h

theorem Orderly.scheduleOnCore
    (hschedule : scheduler.scheduleOnCore cpu nowTick = some scheduler') :
    scheduler'.Orderly ∧ KeepsBlocked scheduler scheduler' := by
  have hframe := h.timerWork_frame cpu nowTick
  have htimed := h.congr (h.balanced.timerWork cpu nowTick) hframe.1 hframe.2
  obtain ⟨hafter, hkeeps⟩ := htimed.switch (scheduleOnCore_switchedTo hframe.2 hschedule)
    (by rw [currentPids_pickNext, (requeueCurrent_frame _ cpu).1])
    (fun pid hne => by rw [stateOf_pickNext, stateOf_requeueCurrent_of_ne hne])
    (fun wakeAtTick => by
      rw [stateOf_pickNext]
      exact htimed.requeueCurrent_awake cpu wakeAtTick)
    ((htimed.balanced.requeueCurrent cpu).pickNext cpu).1 (h.balanced.scheduleOnCore hschedule)
  exact ⟨hafter, (keepsBlocked_of_stateOf hframe.1).trans hkeeps⟩

/-- Blocking the current process: it is blocked afterwards, and so is every
process that was. -/
theorem Orderly.blockCurrent (hidle : scheduler.currentPids cpu ≠ idle)
    (hblock : scheduler.blockCurrent cpu = some scheduler') :
    scheduler'.Orderly ∧ KeepsBlocked scheduler scheduler' ∧
      scheduler'.stateOf (scheduler.currentPids cpu) = some .blocked := by
  have hset : (scheduler.setState (scheduler.currentPids cpu) .blocked).Balanced :=
    h.balanced.setState (h.currentNotReady cpu) (by simp)
  have hself : (scheduler.setState (scheduler.currentPids cpu) .blocked).stateOf
      (scheduler.currentPids cpu) = some .blocked := by
    rw [stateOf_setState, if_pos rfl]
    rcases h.active cpu hidle with hactive | hactive
    · rw [hactive, map_some]
    · rw [hactive, map_some]
  have hpopped := hset.pickNext cpu
  -- The blocked process is not ready, so another one is switched to.
  have hother : ((scheduler.setState (scheduler.currentPids cpu) .blocked).pickNext
      cpu).1 ≠ scheduler.currentPids cpu := by
    intro heq
    have hready := hpopped.1 (fun hto => hidle (heq.symm.trans hto))
    rw [stateOf_pickNext, heq, hself] at hready
    cases hready
  have hswitched : SwitchedTo
      ((scheduler.setState (scheduler.currentPids cpu) .blocked).pickNext cpu).2
      scheduler' cpu
      ((scheduler.setState (scheduler.currentPids cpu) .blocked).pickNext cpu).1 := by
    simp only [Scheduler.blockCurrent, Scheduler.scheduleNoRequeue] at hblock
    split at hblock
    next hsame =>
      exact absurd hsame hother
    · exact switchTo_spec hblock
  obtain ⟨hafter, hkeeps⟩ := h.switch hswitched (currentPids_pickNext _ cpu)
    (fun pid hne => by rw [stateOf_pickNext, stateOf_setState, if_neg hne])
    (fun _ => by rw [stateOf_pickNext, hself]; simp) hpopped.1
    (h.balanced.blockCurrent (h.currentNotReady cpu) hblock)
  exact ⟨hafter, hkeeps, by rw [hswitched.others _ hother.symm, stateOf_pickNext, hself]⟩

/-! ## Wake-ups, signals, new processes -/

/-- Waking a process that is on no core. -/
theorem Orderly.readyAndEnqueue (cpu : Cpu) {process : Process}
    (hget : scheduler.stateOf process.pid = some process.state)
    (hold : process.pid ≠ idle → process.state ≠ .ready)
    (hoff : process.pid ≠ idle → ∀ other, scheduler.currentPids other ≠ process.pid) :
    (scheduler.readyAndEnqueue cpu process).Orderly := by
  refine ⟨h.balanced.readyAndEnqueue cpu hget hold, fun other hidle => ?_,
    h.distinct, fun pid wakeAtTick hsleeping => ?_⟩
  · have hne : scheduler.currentPids other ≠ process.pid := by
      by_cases hproc : process.pid = idle
      · rw [hproc]
        exact hidle
      · exact hoff hproc other
    have hstate : (scheduler.readyAndEnqueue cpu process).stateOf
        (scheduler.currentPids other) = scheduler.stateOf (scheduler.currentPids other) :=
      stateOf_readyAndEnqueue_of_ne hne
    have hactive := h.active other hidle
    rw [← hstate] at hactive
    exact hactive
  · by_cases heq : pid = process.pid
    · rw [Scheduler.readyAndEnqueue, stateOf_enqueue, stateOf_setState, if_pos heq] at hsleeping
      exact absurd hsleeping (by simp)
    · rw [stateOf_readyAndEnqueue_of_ne heq] at hsleeping
      exact h.awake pid wakeAtTick hsleeping

/-- `unblock` of a blocked process: it alone becomes ready. -/
theorem Orderly.unblock_blocked (cpu : Cpu) (hidle : pid ≠ idle)
    (hblocked : scheduler.stateOf pid = some .blocked) :
    (scheduler.unblock cpu pid).Orderly ∧
      ∀ other, other ≠ pid →
        (scheduler.unblock cpu pid).stateOf other = scheduler.stateOf other := by
  obtain ⟨process, hget, hstate⟩ := map_eq_some_iff.mp hblocked
  have hpid := get_pid hget
  have hunblock : scheduler.unblock cpu pid = scheduler.readyAndEnqueue cpu process := by
    simp [unblock, hget, hstate]
  rw [hunblock]
  refine ⟨h.readyAndEnqueue cpu ?_ (fun _ => by rw [hstate]; simp) fun _ => ?_, ?_⟩
  · rw [hpid, hblocked, hstate]
  · rw [hpid]
    exact h.not_current hidle (by rw [hblocked]; simp) (by rw [hblocked]; simp)
  · intro _ hne
    exact stateOf_readyAndEnqueue_of_ne (hpid ▸ hne)

/-- A process that is stopped may stay on its core. -/
theorem Orderly.setState_stopped (hbalanced : scheduler'.Balanced)
    (hcurrent : scheduler'.currentPids = scheduler.currentPids)
    (hafter : ∀ other, scheduler'.stateOf other = (scheduler.setState pid .stopped).stateOf other) :
    scheduler'.Orderly := by
  refine ⟨hbalanced, fun other hidle => ?_, hcurrent ▸ h.distinct, fun target wakeAtTick => ?_⟩
  · rw [hcurrent] at hidle ⊢
    have hactive := h.active other hidle
    rw [hafter, stateOf_setState]
    split
    next heq =>
      right
      rw [← heq]
      rcases hactive with hstate | hstate
      · rw [hstate, map_some]
      · rw [hstate, map_some]
    · exact hactive
  · rw [hafter, stateOf_setState]
    split
    · simp
    · exact h.awake target wakeAtTick

theorem Orderly.recordSignal (pid : Pid) (signum : Nat) :
    (scheduler.recordSignal pid signum).Orderly :=
  h.congr (h.balanced.recordSignal pid signum)
    (fun other => stateOf_recordSignal scheduler pid other signum) rfl

/-- A spawned process is on no core. -/
theorem Orderly.spawn {created : Scheduler} {parentPid : Option Pid}
    (hcreate : scheduler.createProcess parentPid = some (pid, created)) (cpu : Cpu) :
    (created.makeReady cpu pid).Orderly ∧
      KeepsBlocked scheduler (created.makeReady cpu pid) := by
  have hbalanced := h.balanced.spawn hcreate cpu
  have hcurrent : (created.makeReady cpu pid).currentPids = scheduler.currentPids := by
    obtain ⟨_, _, rfl⟩ := createProcess_eq_some hcreate
    unfold makeReady
    split <;> rfl
  obtain ⟨_, habsent, hget, hframe, _⟩ := createProcess_spec hcreate
  have hstate : ∀ other, other ≠ pid →
      (created.makeReady cpu pid).stateOf other = scheduler.stateOf other := by
    intro other hne
    rw [stateOf_makeReady_of_ne hne, hframe other hne]
  have hpresent : ∀ {other state}, scheduler.stateOf other = some state →
      (created.makeReady cpu pid).stateOf other = some state := by
    intro other _ hsome
    have hne : other ≠ pid := by
      rintro rfl
      exact absurd (habsent.symm.trans hsome) (by simp)
    rw [hstate other hne]
    exact hsome
  refine ⟨⟨hbalanced, fun other hidle => ?_, fun other other' heq hidle => ?_,
    fun target wakeAtTick hsleeping => ?_⟩, fun target _ hblocked => hpresent hblocked⟩
  · rw [hcurrent] at hidle ⊢
    exact (h.active other hidle).imp hpresent hpresent
  · rw [hcurrent] at heq hidle
    exact h.distinct other other' heq hidle
  by_cases heq : target = pid
  · have hready : (created.makeReady cpu pid).stateOf pid = some .ready := by
      simp only [makeReady, hget]
      rw [Scheduler.readyAndEnqueue, stateOf_enqueue, stateOf_setState,
        show (Process.new pid parentPid).pid = pid from rfl, if_pos rfl,
        stateOf_of_get hget, map_some]
    rw [heq, hready] at hsleeping
    cases hsleeping
  · rw [hstate target heq] at hsleeping
    exact h.awake target wakeAtTick hsleeping

end

theorem stateOf_sendSignalTo_of_ne (h : other ≠ pid) :
    (scheduler.sendSignalTo cpu pid signum).1.stateOf other = scheduler.stateOf other := by
  have hset : (scheduler.setState pid .stopped).stateOf other = scheduler.stateOf other := by
    rw [stateOf_setState, if_neg h]
  generalize hafter : (scheduler.sendSignalTo cpu pid signum).1 = after
  cases hafter ▸ signalled_sendSignalTo scheduler cpu pid signum with
  | ignored => rfl
  | stopped | dequeued => exact hset
  | recorded n => exact stateOf_recordSignal scheduler pid other n
  | woken n hget _ _ =>
    rw [stateOf_readyAndEnqueue_of_ne (get_pid hget ▸ h), stateOf_recordSignal]

/-- SIGCONT does not reach a process that was stopped while on a core. -/
def ContinuesOffCore (scheduler : Scheduler) (pid : Pid) (signum : Nat) : Prop :=
  signum = 18 → pid ≠ idle → scheduler.stateOf pid = some .stopped →
    ∀ cpu, scheduler.currentPids cpu ≠ pid
  deriving Decidable

theorem Orderly.sendSignalTo (h : scheduler.Orderly) (cpu : Cpu)
    (hcontinues : scheduler.ContinuesOffCore pid signum) :
    (scheduler.sendSignalTo cpu pid signum).1.Orderly := by
  have hbalanced := h.balanced.sendSignalTo cpu pid signum
  generalize hafter : (scheduler.sendSignalTo cpu pid signum).1 = after at hbalanced
  cases hafter ▸ signalled_sendSignalTo scheduler cpu pid signum with
  | ignored => exact h
  | stopped | dequeued => exact h.setState_stopped hbalanced rfl fun _ => rfl
  | recorded n => exact h.recordSignal pid n
  | @woken n process hget hstate hcont =>
    have hpid := get_pid hget
    have hold := stateOf_of_get hget
    refine (h.recordSignal pid n).readyAndEnqueue cpu ?_ (fun _ hready => ?_) fun hidle => ?_
    · rw [stateOf_recordSignal, stateOf_self hget]
    · rw [hready] at hstate
      exact hstate
    rw [hpid] at hidle ⊢
    by_cases hstopped : process.state = .stopped
    · exact hcontinues (hcont hstopped) hidle (by rw [hold, hstopped])
    refine h.not_current hidle ?_ (by rw [hold]; simpa using hstopped)
    rw [hold]
    rintro hrunning
    rw [some.inj hrunning] at hstate
    exact hstate

theorem stateOf_sigcont_blocked (h : scheduler.stateOf pid = some .blocked) :
    (scheduler.sendSignalTo cpu pid 18).1.stateOf pid = some .blocked := by
  obtain ⟨process, hget, hstate⟩ := map_eq_some_iff.mp h
  have hsend : (process.sendSignal 18).1.state = .blocked := by
    rw [sendSignal_state, hstate]
  rw [stateOf, get_sendSignalTo, hget]
  simp [Process.receiveSignal, hsend]

/-! ## Boot -/

theorem orderly_init : init.Orderly := by
  refine ⟨balanced_init, fun cpu hidle => absurd rfl hidle,
    fun cpu cpu' _ hidle => absurd rfl hidle, fun pid wakeAtTick hsleeping => ?_⟩
  obtain ⟨_, hget, hstate⟩ := map_eq_some_iff.mp hsleeping
  have hslot := getElem?_of_get hget
  simp only [init, initIdle] at hslot
  have hmem := mem_of_getElem? hslot
  simp only [mem_singleton, some.injEq] at hmem
  rw [hmem] at hstate
  cases hstate

end Bazzulto.Scheduler
