/-
  Scheduler/Balance.lean --- run-queue entries and process states agree.

  The scheduler is `Balanced` when each process other than idle has one entry in
  the run queues of all cores together if it is ready, and none otherwise.  Two
  things can break this.  `make_ready` and `futex_make_ready` enqueue a process
  that is ready already a second time; and a current process that was stopped
  and continued is ready and queued, so when it then blocks, sleeps, waits or
  exits, its entry stays behind.  Runs in which neither happens are balanced
  throughout.
-/
import Bazzulto.Scheduler.Wakes

set_option autoImplicit false

namespace Bazzulto.Scheduler

open Foundation List Option Function Process Pid Pool

variable {scheduler scheduler' created : Scheduler} {pid other : Pid} {process : Process}
  {state : ProcessState} {cpu : Cpu} {nowTick : Nat} {uaddr : BitVec 64}
  {forPid parentPid : Option Pid}

/-! ## The two views -/

section

variable (scheduler : Scheduler)

/-- Entries for a process in the run queues of all cores together. -/
def occurrences (pid : Pid) : Nat :=
  ∑ cpu, (scheduler.runQueues cpu).count pid

/-- Each process other than idle is queued exactly once if it is ready and not
at all otherwise. -/
def Balanced : Prop :=
  ∀ pid, pid ≠ idle → scheduler.occurrences pid =
      if scheduler.stateOf pid = some .ready then 1 else 0

theorem stateOf_setState (pid other : Pid) (state : ProcessState) :
    (scheduler.setState pid state).stateOf other =
      if other = pid then (scheduler.stateOf pid).map (fun _ => state)
      else scheduler.stateOf other := by
  unfold stateOf setState
  rw [get_modify]
  split
  · rw [Option.map_map, Option.map_map]
    rfl
  · rfl

theorem eq_of_stateOf_setState {new : ProcessState}
    (h : (scheduler.setState pid state).stateOf pid = some new) : state = new := by
  rw [stateOf_setState, if_pos rfl] at h
  obtain ⟨_, _, heq⟩ := map_eq_some_iff.mp h
  exact heq

@[simp] theorem occurrences_setState (pid other : Pid) (state : ProcessState) :
    (scheduler.setState pid state).occurrences other = scheduler.occurrences other := rfl

@[simp] theorem stateOf_enqueue (cpu : Cpu) (pid other : Pid) (nice : Nice) :
    (scheduler.enqueue cpu pid nice).stateOf other = scheduler.stateOf other := rfl

theorem occurrences_update (cpu : Cpu) (queue : RunQueue) (pid : Pid) :
    ({ scheduler with
        runQueues := update scheduler.runQueues cpu queue } :
      Scheduler).occurrences pid + (scheduler.runQueues cpu).count pid =
      scheduler.occurrences pid + queue.count pid :=
  sum_update_add scheduler.runQueues (fun queue => queue.count pid) cpu queue

theorem occurrences_enqueue (cpu : Cpu) (pid other : Pid) (nice : Nice) :
    (scheduler.enqueue cpu pid nice).occurrences other =
      scheduler.occurrences other + if other = pid then 1 else 0 := by
  have hmove := occurrences_update scheduler cpu
    ((scheduler.runQueues cpu).pushWithNice pid nice) other
  rw [RunQueue.count_pushWithNice] at hmove
  simp only [enqueue]
  omega

end

/-- Two schedulers with the same states and the same occurrences are balanced
together. -/
theorem Balanced.congr (h : scheduler.Balanced)
    (hstate : ∀ pid, scheduler'.stateOf pid = scheduler.stateOf pid)
    (hocc : ∀ pid, scheduler'.occurrences pid = scheduler.occurrences pid) :
    scheduler'.Balanced := by
  intro pid hpid
  rw [hocc, hstate]
  exact h pid hpid

/-! ## Elementary moves -/

theorem Balanced.setState (h : scheduler.Balanced)
    (hold : pid ≠ idle → scheduler.stateOf pid ≠ some .ready) (hnew : state ≠ .ready) :
    (scheduler.setState pid state).Balanced := by
  intro other hother
  rw [occurrences_setState, h other hother]
  obtain rfl | heq := eq_or_ne other pid
  · rw [if_neg (hold hother), if_neg fun hready => hnew (scheduler.eq_of_stateOf_setState hready)]
  · rw [stateOf_setState, if_neg heq]

theorem stateOf_readyAndEnqueue_of_ne (h : other ≠ process.pid) :
    (scheduler.readyAndEnqueue cpu process).stateOf other = scheduler.stateOf other := by
  rw [readyAndEnqueue, stateOf_enqueue, stateOf_setState, if_neg h]

/-- Waking a process that is not ready keeps the balance: it gets its one
entry. -/
theorem Balanced.readyAndEnqueue (h : scheduler.Balanced) (cpu : Cpu)
    (hget : scheduler.stateOf process.pid = some process.state)
    (hold : process.pid ≠ idle → process.state ≠ .ready) :
    (scheduler.readyAndEnqueue cpu process).Balanced := by
  intro other hother
  rw [Scheduler.readyAndEnqueue, occurrences_enqueue, stateOf_enqueue,
    occurrences_setState, stateOf_setState, h other hother]
  obtain rfl | heq := eq_or_ne other process.pid
  · have hnot : scheduler.stateOf process.pid ≠ some .ready := by
      rw [hget]
      exact fun hready => hold hother (some.inj hready)
    rw [if_neg hnot, if_pos rfl, if_pos rfl, hget, map_some, if_pos rfl]
  · simp [heq]

theorem Balanced.wakeProcess (h : scheduler.Balanced) (cpu : Cpu)
    (hget : scheduler.pool.get pid = some process)
    (hold : pid ≠ idle → scheduler.stateOf pid ≠ some .ready) :
    (scheduler.readyAndEnqueue cpu process).Balanced := by
  have hstate := stateOf_of_get hget
  obtain rfl := get_pid hget
  exact h.readyAndEnqueue cpu hstate fun hidle hready => hold hidle (by rw [hstate, hready])

theorem Balanced.of_wakes {K : Pid → Prop} (hwakes : Wakes K scheduler scheduler')
    (h : scheduler.Balanced) : scheduler'.Balanced := by
  induction hwakes with
  | refl => exact h
  | wake cpu hget hstate =>
    exact h.readyAndEnqueue cpu hget fun _ hready => by rw [hready] at hstate; exact hstate
  | write _ change hpid hstate =>
    exact h.congr (fun other => view_updateProcess_of_keeps _ _ other change hpid hstate)
      fun _ => rfl
  | trans _ _ ih ih' => exact ih' (ih h)

/-! ## Choosing and switching -/

/-- The scheduler after `pid` has been taken off a queue: balanced but for
`pid`, which is still marked ready. -/
def Popped (scheduler : Scheduler) (pid : Pid) : Prop :=
  (pid ≠ idle → scheduler.stateOf pid = some .ready) ∧
    ∀ other, other ≠ idle → scheduler.occurrences other =
        if scheduler.stateOf other = some .ready ∧ other ≠ pid then 1 else 0

/-- Taking one entry off some queue of a balanced scheduler. -/
theorem Balanced.popped (h : scheduler.Balanced) {queue : RunQueue}
    (hcount : ∀ other, (scheduler.runQueues cpu).count other =
      queue.count other + if other = pid then 1 else 0) :
    ({ scheduler with
        runQueues := update scheduler.runQueues cpu queue } :
      Scheduler).Popped pid := by
  have hmove : ∀ other, scheduler.occurrences other = ({ scheduler with
            runQueues := update scheduler.runQueues cpu queue } :
          Scheduler).occurrences other + if other = pid then 1 else 0 := by
    intro other
    have := occurrences_update scheduler cpu queue other
    rw [hcount other] at this
    omega
  refine ⟨fun hpid => ?_, fun other hother => ?_⟩
  · have hocc := hmove pid
    rw [h pid hpid, if_pos rfl] at hocc
    show scheduler.stateOf pid = some .ready
    by_contra hready
    rw [if_neg hready] at hocc
    omega
  · have hocc := hmove other
    rw [h other hother] at hocc
    by_cases hready : scheduler.stateOf other = some .ready
    · by_cases heq : other = pid
      · rw [if_pos hready, if_pos heq] at hocc
        rw [if_neg (fun hand => hand.2 heq)]
        omega
      · rw [if_pos hready, if_neg heq] at hocc
        rw [if_pos ⟨hready, heq⟩]
        omega
    · rw [if_neg hready] at hocc
      rw [if_neg (fun hand => hready hand.1)]
      omega

/-- Whatever `pickNext` returns has been taken off its queue. -/
theorem Balanced.pickNext (h : scheduler.Balanced) (cpu : Cpu) :
    (scheduler.pickNext cpu).2.Popped (scheduler.pickNext cpu).1 := by
  unfold Scheduler.pickNext
  split
  next hpop =>
    unfold RunQueue.pop at hpop
    split at hpop
    · cases hpop
    · exact h.popped (RunQueue.count_popFront hpop)
  · split
    next hsteal =>
      unfold stealWork at hsteal
      split at hsteal
      · split at hsteal
        · split at hsteal
          next hpop =>
            cases hsteal
            unfold RunQueue.popLowestPriority at hpop
            split at hpop
            · cases hpop
            · exact h.popped (RunQueue.count_popFront hpop)
          · cases hsteal
        · cases hsteal
      · cases hsteal
    · refine ⟨fun hidle => absurd rfl hidle, fun other hother => ?_⟩
      rw [h other hother]
      simp [hother]

theorem Popped.setState_running (h : scheduler.Popped pid) :
    (scheduler.setState pid .running).Balanced := by
  intro other hother
  rw [occurrences_setState, stateOf_setState, h.2 other hother]
  obtain rfl | heq := eq_or_ne other pid
  · simp
  · simp [heq]

theorem Popped.switchTo {fromPid toPid : Pid} (h : scheduler.Popped toPid)
    (hswitch : scheduler.switchTo cpu fromPid toPid = some scheduler') : scheduler'.Balanced := by
  obtain rfl := switchTo_eq_some hswitch
  exact h.setState_running.congr (fun _ => rfl) (fun _ => rfl)

@[simp] theorem stateOf_pickNext (scheduler : Scheduler) (cpu : Cpu) (pid : Pid) :
    (scheduler.pickNext cpu).2.stateOf pid = scheduler.stateOf pid := by
  rw [stateOf, (pickNext_frame scheduler cpu).1, stateOf]

/-- The current process of a core is not waiting in a run queue. -/
def CurrentNotReady (scheduler : Scheduler) (cpu : Cpu) : Prop :=
  scheduler.currentPids cpu ≠ idle → scheduler.stateOf (scheduler.currentPids cpu) ≠ some .ready
  deriving Decidable

theorem Balanced.scheduleNoRequeue (h : scheduler.Balanced)
    (hcurrent : scheduler.CurrentNotReady cpu)
    (hschedule : scheduler.scheduleNoRequeue cpu = some scheduler') : scheduler'.Balanced := by
  have hpopped := h.pickNext cpu
  simp only [Scheduler.scheduleNoRequeue] at hschedule
  split at hschedule
  next hsame =>
    cases hschedule
    have hidle : scheduler.currentPids cpu = idle := by
      by_contra hne
      refine hcurrent hne ?_
      rw [← hsame, ← stateOf_pickNext scheduler cpu]
      exact hpopped.1 (hsame ▸ hne)
    intro other hother
    rw [hpopped.2 other hother, hsame, hidle]
    simp [hother]
  · exact hpopped.switchTo hschedule

theorem currentNotReady_setState (scheduler : Scheduler) (cpu : Cpu) (h : state ≠ .ready) :
    (scheduler.setState (scheduler.currentPids cpu) state).CurrentNotReady cpu :=
  fun _ hready => h (scheduler.eq_of_stateOf_setState hready)

/-! ## Loops over pids -/

/-- A loop that wakes a list of processes keeps the balance if each iteration
does when its process is not ready, changes no other state, and meets no process
it acts on twice.  `acts` tells from its state whether a process is acted on. -/
theorem Balanced.foldl {wake : Scheduler → Pid → Scheduler} (acts : Option ProcessState → Bool)
    (hskip : ∀ scheduler pid, acts (scheduler.stateOf pid) = false → wake scheduler pid = scheduler)
    (hwake : ∀ scheduler pid, scheduler.Balanced →
      (pid ≠ idle → scheduler.stateOf pid ≠ some .ready) →
      (wake scheduler pid).Balanced)
    (hframe : ∀ scheduler pid other, other ≠ pid →
      (wake scheduler pid).stateOf other = scheduler.stateOf other) :
    ∀ (pids : List Pid) (scheduler : Scheduler), scheduler.Balanced →
      (pids.filter (fun pid => acts (scheduler.stateOf pid))).Nodup →
      (∀ pid ∈ pids, pid ≠ idle → scheduler.stateOf pid ≠ some .ready) →
      (pids.foldl wake scheduler).Balanced := by
  intro pids
  induction pids with
  | nil => intro scheduler h _ _; exact h
  | cons pid rest ih =>
    intro scheduler h hnodup hstates
    rw [foldl_cons]
    have hrest : ∀ other ∈ rest, other ≠ idle → scheduler.stateOf other ≠ some .ready :=
      fun other hother => hstates other (mem_cons_of_mem _ hother)
    by_cases hacts : acts (scheduler.stateOf pid) = true
    · rw [filter_cons, if_pos hacts] at hnodup
      obtain ⟨hnotmem, _⟩ := nodup_cons.mp hnodup
      have hframe' : ∀ other ∈ rest,
          (wake scheduler pid).stateOf other = scheduler.stateOf other := by
        intro other hother
        refine hframe scheduler pid other ?_
        rintro rfl
        exact hnotmem (mem_filter.mpr ⟨hother, hacts⟩)
      refine ih _ (hwake scheduler pid h (hstates pid mem_cons_self)) ?_ ?_
      · rwa [filter_congr fun other hother => by rw [hframe' other hother]]
      · intro other hother hidle
        rw [hframe' other hother]
        exact hrest other hother hidle
    · rw [Bool.not_eq_true] at hacts
      rw [hskip scheduler pid hacts]
      rw [filter_cons, if_neg (by simp [hacts])] at hnodup
      exact ih scheduler h hnodup hrest

theorem Balanced.makeReady (h : scheduler.Balanced) (cpu : Cpu)
    (hold : pid ≠ idle → scheduler.stateOf pid ≠ some .ready) :
    (scheduler.makeReady cpu pid).Balanced := by
  unfold Scheduler.makeReady
  split
  · exact h
  next hget => exact h.wakeProcess cpu hget hold

theorem stateOf_makeReady_of_ne (h : other ≠ pid) :
    (scheduler.makeReady cpu pid).stateOf other = scheduler.stateOf other := by
  unfold Scheduler.makeReady
  split
  · rfl
  next hget => exact stateOf_readyAndEnqueue_of_ne (get_pid hget ▸ h)

theorem stateOf_of_mem_wakeupPids (h : pid ∈ scheduler.wakeupPids nowTick) :
    ∃ wakeAtTick, scheduler.stateOf pid = some (.sleeping wakeAtTick) := by
  obtain ⟨_, hmem, hsome⟩ := mem_filterMap.mp h
  have hget := stateOf_of_get (mem_processes hmem)
  split at hsome
  next wakeAtTick hstate =>
    split at hsome
    · cases hsome
      exact ⟨wakeAtTick, by rw [hget, hstate]⟩
    · cases hsome
  · cases hsome

theorem wakeupPids_nodup (scheduler : Scheduler) (nowTick : Nat) :
    (scheduler.wakeupPids nowTick).Nodup := by
  refine List.Nodup.sublist ?_ scheduler.pool.processes_pid_nodup
  unfold wakeupPids
  induction scheduler.pool.processes with
  | nil => exact List.Sublist.refl _
  | cons process rest ih =>
    rw [filterMap_cons]
    split
    · exact ih.trans (sublist_cons_self _ _)
    next hsome =>
      split at hsome
      · split at hsome
        · cases hsome
          exact ih.cons_cons _
        · cases hsome
      · cases hsome

theorem Balanced.wakeSleepers (h : scheduler.Balanced) (cpu : Cpu) (nowTick : Nat) :
    (scheduler.wakeSleepers cpu nowTick).Balanced := by
  refine Balanced.foldl (fun _ => true)
    (fun s pid hacts => absurd hacts (by simp))
    (fun s pid hs hold => hs.makeReady cpu hold)
    (fun s pid other hne => stateOf_makeReady_of_ne hne) _ scheduler h ?_ ?_
  · rw [filter_true]
    exact wakeupPids_nodup scheduler nowTick
  intro _ hpid _
  obtain ⟨_, hstate⟩ := stateOf_of_mem_wakeupPids hpid
  rw [hstate]
  simp

section

variable (h : scheduler.Balanced)
include h

/-! ## Scheduling -/

theorem Balanced.requeueCurrent (cpu : Cpu) : (scheduler.requeueCurrent cpu).Balanced := by
  unfold Scheduler.requeueCurrent
  split
  · exact h
  next hget =>
    have hpid := get_pid hget
    split
    next hrunning =>
      split
      next hidle =>
        rw [hpid, hidle]
        intro other hother
        rw [stateOf_setState, if_neg hother]
        exact h other hother
      · refine h.wakeProcess cpu hget fun _ => ?_
        rw [stateOf_of_get hget, hrunning]
        simp
    · exact h

theorem Balanced.timerWork (cpu : Cpu) (nowTick : Nat) :
    (scheduler.timerWork cpu nowTick).Balanced := by
  unfold Scheduler.timerWork
  split
  · exact (h.wakeSleepers cpu nowTick).of_wakes
      (wakes_foldl _ (fun _ _ scheduler => wakes_deliverAlarm scheduler trivial) _)
  · exact h

theorem Balanced.scheduleOnCore
    (hschedule : scheduler.scheduleOnCore cpu nowTick = some scheduler') : scheduler'.Balanced := by
  have hpopped := ((h.timerWork cpu nowTick).requeueCurrent cpu).pickNext cpu
  simp only [Scheduler.scheduleOnCore] at hschedule
  split at hschedule
  next hsame =>
    rw [some.injEq] at hschedule
    rw [← hschedule, ← hsame]
    exact hpopped.setState_running
  · exact hpopped.switchTo hschedule

theorem Balanced.blockCurrent (hcurrent : scheduler.CurrentNotReady cpu)
    (hblock : scheduler.blockCurrent cpu = some scheduler') : scheduler'.Balanced :=
  (h.setState hcurrent (by simp)).scheduleNoRequeue
    (currentNotReady_setState scheduler cpu (by simp)) hblock

theorem Balanced.sleepCurrent {wakeAtTick : Nat} (hcurrent : scheduler.CurrentNotReady cpu)
    (hsleep : scheduler.sleepCurrent cpu wakeAtTick nowTick = some scheduler') :
    scheduler'.Balanced :=
  (h.setState hcurrent (by simp)).scheduleOnCore hsleep

theorem Balanced.futexWait (hcurrent : scheduler.CurrentNotReady cpu)
    (hwait : scheduler.futexWait cpu uaddr nowTick = some scheduler') : scheduler'.Balanced := by
  refine Balanced.sleepCurrent ?_ ?_ hwait
  · exact h.congr (fun _ => rfl) (fun _ => rfl)
  · exact hcurrent

/-! ## Wake-ups -/

theorem Balanced.futexMakeReady (cpu : Cpu)
    (hold : pid ≠ idle → scheduler.stateOf pid ≠ some .ready) :
    (scheduler.futexMakeReady cpu pid).Balanced := by
  unfold Scheduler.futexMakeReady
  split
  · exact h
  next hget =>
    split
    · exact h
    · exact h
    · exact h.wakeProcess cpu hget hold

end

theorem stateOf_futexMakeReady_of_ne (h : other ≠ pid) :
    (scheduler.futexMakeReady cpu pid).stateOf other = scheduler.stateOf other := by
  unfold Scheduler.futexMakeReady
  split
  · rfl
  next hget =>
    split
    · rfl
    · rfl
    · exact stateOf_readyAndEnqueue_of_ne (get_pid hget ▸ h)

/-- `futex_make_ready` acts on processes that are neither running nor zombies. -/
def futexWakes : Option ProcessState → Bool
  | none | some .running | some (.zombie _) => false
  | some _ => true

theorem futexMakeReady_of_skipped (h : futexWakes (scheduler.stateOf pid) = false) :
    scheduler.futexMakeReady cpu pid = scheduler := by
  unfold Scheduler.futexMakeReady
  split
  · rfl
  next process hget =>
    rw [stateOf_of_get hget] at h
    cases hstate : process.state <;> simp_all [futexWakes]

/-- The waiters that `FUTEX_WAKE` drains: those it acts on are distinct and none
of them is ready already. -/
def WakesNoReady (scheduler : Scheduler) (uaddr : BitVec 64) (count : Nat) : Prop :=
  (((scheduler.futexTable uaddr).take count).filter
      (fun pid => futexWakes (scheduler.stateOf pid))).Nodup ∧
    ∀ pid ∈ (scheduler.futexTable uaddr).take count, pid ≠ idle →
      scheduler.stateOf pid ≠ some .ready
  deriving Decidable

theorem Balanced.futexWake (h : scheduler.Balanced) (cpu : Cpu) {count : Nat}
    (hwake : scheduler.WakesNoReady uaddr count) :
    (scheduler.futexWake cpu uaddr count).Balanced := by
  refine Balanced.foldl futexWakes
    (fun s pid hskip => futexMakeReady_of_skipped hskip)
    (fun s pid hs hold => hs.futexMakeReady cpu hold)
    (fun s pid other hne => stateOf_futexMakeReady_of_ne hne) _ _ ?_ hwake.1 hwake.2
  exact h.congr (fun _ => rfl) (fun _ => rfl)

/-! ## Signals -/

theorem occurrences_dequeueEverywhere (scheduler : Scheduler) (pid other : Pid) :
    (scheduler.dequeueEverywhere pid).occurrences other =
      if other = pid then 0 else scheduler.occurrences other := by
  simp only [occurrences, dequeueEverywhere, RunQueue.count_remove]
  split <;> simp

theorem stateOf_recordSignal (scheduler : Scheduler) (pid other : Pid) (signum : Nat) :
    (scheduler.recordSignal pid signum).stateOf other = scheduler.stateOf other :=
  scheduler.view_updateProcess_of_keeps pid other _ _ fun _ => sendSignal_state _ signum

theorem Balanced.recordSignal (h : scheduler.Balanced) (pid : Pid) (signum : Nat) :
    (scheduler.recordSignal pid signum).Balanced :=
  h.congr (fun other => stateOf_recordSignal scheduler pid other signum)
    (fun _ => rfl)

theorem Balanced.stopReady (h : scheduler.Balanced) (pid : Pid) :
    ((scheduler.setState pid .stopped).dequeueEverywhere pid).Balanced := by
  intro other hother
  have hstate : ((scheduler.setState pid .stopped).dequeueEverywhere
      pid).stateOf other = (scheduler.setState pid .stopped).stateOf other := rfl
  rw [occurrences_dequeueEverywhere, hstate]
  obtain rfl | heq := eq_or_ne other pid
  · rw [if_pos rfl, if_neg]
    exact fun hready => nomatch scheduler.eq_of_stateOf_setState hready
  · rw [if_neg heq, stateOf_setState, if_neg heq]
    exact h other hother

theorem Balanced.sendSignalTo (h : scheduler.Balanced) (cpu : Cpu) (pid : Pid) (signum : Nat) :
    (scheduler.sendSignalTo cpu pid signum).1.Balanced := by
  generalize hafter : (scheduler.sendSignalTo cpu pid signum).1 = after
  cases hafter ▸ signalled_sendSignalTo scheduler cpu pid signum with
  | ignored => exact h
  | stopped hget hstate =>
    refine h.setState (fun _ => ?_) (by simp)
    rw [stateOf_of_get hget]
    exact fun hready => hstate (some.inj hready)
  | dequeued _ _ => exact h.stopReady pid
  | recorded n => exact h.recordSignal pid n
  | woken n hget hstate _ =>
    refine (h.recordSignal pid n).readyAndEnqueue cpu ?_ fun _ hready => ?_
    · rw [stateOf_recordSignal, stateOf_self hget]
    · rw [hready] at hstate
      exact hstate

/-! ## Exit, wait, reap, spawn -/

/-- To the states, `markZombie` is a `setState`. -/
theorem stateOf_markZombie (scheduler : Scheduler) (pid other : Pid) (exitCode : Int) :
    (scheduler.markZombie pid exitCode).stateOf other =
      (scheduler.setState pid (.zombie exitCode)).stateOf other := by
  simp only [stateOf, markZombie, Scheduler.setState, get_modify]
  split
  · rw [Option.map_map, Option.map_map]
    rfl
  · rfl

/-- No process, or a zombie: nothing wakes it any more. -/
def Gone (scheduler : Scheduler) (pid : Pid) : Prop :=
  ∀ state, scheduler.stateOf pid = some state → ∃ exitCode, state = .zombie exitCode

/-- The step leaves `pid` gone and every core with its current process. -/
def KeepsGone (pid : Pid) (before after : Scheduler) : Prop :=
  after.currentPids = before.currentPids ∧ (before.Gone pid → after.Gone pid)

/-- A zombie is not dormant, so nothing wakes it. -/
theorem KeepsGone.of_wakes {K : Pid → Prop} (h : Wakes K scheduler scheduler') (pid : Pid) :
    KeepsGone pid scheduler scheduler' := by
  induction h with
  | refl => exact ⟨rfl, id⟩
  | @wake scheduler cpu process hget hstate =>
    refine ⟨rfl, fun hgone state hafter => ?_⟩
    obtain rfl | heq := eq_or_ne pid process.pid
    · obtain ⟨_, hzombie⟩ := hgone _ hget
      rw [hzombie] at hstate
      exact hstate.elim
    · rw [stateOf_readyAndEnqueue_of_ne heq] at hafter
      exact hgone state hafter
  | write _ change hpid hstate =>
    refine ⟨rfl, fun hgone state hafter => hgone state ?_⟩
    exact (view_updateProcess_of_keeps _ _ pid change hpid hstate).symm.trans hafter
  | trans _ _ ih ih' => exact ⟨ih'.1.trans ih.1, fun hgone => ih'.2 (ih.2 hgone)⟩

theorem gone_markZombie (scheduler : Scheduler) (pid : Pid) (exitCode : Int) :
    (scheduler.markZombie pid exitCode).Gone pid := by
  intro _ hstate
  rw [stateOf_markZombie] at hstate
  exact ⟨exitCode, (scheduler.eq_of_stateOf_setState hstate).symm⟩

theorem Gone.not_ready (h : scheduler.Gone pid) : scheduler.stateOf pid ≠ some .ready := by
  intro hready
  obtain ⟨_, hzombie⟩ := h _ hready
  cases hzombie

theorem Balanced.becomeZombie (h : scheduler.Balanced) (hcurrent : scheduler.CurrentNotReady cpu)
    (exitCode : Int) : (scheduler.becomeZombie cpu exitCode).Balanced :=
  ((h.setState hcurrent (by simp)).congr (fun other => stateOf_markZombie scheduler _ other exitCode)
    fun _ => rfl).of_wakes
    (wakes_becomeZombie scheduler cpu exitCode fun _ _ => trivial)

/-- Nothing that `exit` does after marking the zombie wakes it again. -/
theorem currentNotReady_becomeZombie (scheduler : Scheduler) (cpu : Cpu) (exitCode : Int) :
    (scheduler.becomeZombie cpu exitCode).CurrentNotReady cpu := by
  have hkeeps := KeepsGone.of_wakes (wakes_becomeZombie (K := fun _ => True) scheduler cpu
    exitCode fun _ _ => trivial) (scheduler.currentPids cpu)
  intro _
  have hcurrent : (scheduler.becomeZombie cpu exitCode).currentPids =
      scheduler.currentPids := hkeeps.1
  rw [hcurrent]
  exact (hkeeps.2 (gone_markZombie scheduler _ exitCode)).not_ready

theorem Balanced.exit {exitCode : Int} (h : scheduler.Balanced)
    (hcurrent : scheduler.CurrentNotReady cpu)
    (hexit : scheduler.exit cpu exitCode = some scheduler') : scheduler'.Balanced :=
  (h.becomeZombie hcurrent exitCode).scheduleNoRequeue
    (currentNotReady_becomeZombie scheduler cpu exitCode) hexit

theorem stateOf_release (scheduler : Scheduler) (pid other : Pid) :
    (scheduler.release pid).stateOf other =
      if other = pid then none else scheduler.stateOf other := by
  simp only [stateOf, release, get_freeSlot]
  split <;> rfl

/-- A reaped process was a zombie, so it had no entry to leave behind. -/
theorem Balanced.reap {parentPid : Pid} {result : Pid × Int} (h : scheduler.Balanced)
    (hreap : scheduler.reap parentPid forPid = some (result, scheduler')) :
    scheduler'.Balanced := by
  unfold Scheduler.reap at hreap
  split at hreap
  · cases hreap
  next zombie hfind =>
    cases hreap
    have hget := mem_processes (mem_of_find?_eq_some hfind)
    have hnotready : scheduler.stateOf zombie.pid ≠ some .ready := by
      rw [stateOf_of_get hget]
      intro hready
      have hreapable := List.find?_some hfind
      simp [reapable, some.inj hready] at hreapable
    intro other hother
    rw [stateOf_release, show (scheduler.release zombie.pid).occurrences other =
      scheduler.occurrences other from rfl, h other hother]
    by_cases heq : other = zombie.pid
    · rw [heq, if_neg hnotready]
      simp
    · rw [if_neg heq]

theorem Balanced.waitTurn {nohang : Bool} (h : scheduler.Balanced)
    (hcurrent : scheduler.CurrentNotReady cpu)
    (hwait : scheduler.waitTurn cpu forPid nohang = some scheduler') : scheduler'.Balanced := by
  simp only [Scheduler.waitTurn] at hwait
  split at hwait
  next hreap =>
    cases hwait
    exact h.reap hreap
  · split at hwait
    · cases hwait
      exact h
    · exact (h.setState hcurrent (by simp)).scheduleNoRequeue
        (currentNotReady_setState scheduler cpu (by simp)) hwait

/-- `create_process` adds one process and queues nothing. -/
theorem createProcess_spec (h : scheduler.createProcess parentPid = some (pid, created)) :
    pid ≠ idle ∧ scheduler.stateOf pid = none ∧
      created.pool.get pid = some (new pid parentPid) ∧
      (∀ other, other ≠ pid → created.stateOf other = scheduler.stateOf other) ∧
      ∀ other, created.occurrences other = scheduler.occurrences other := by
  obtain ⟨hidle, hnone, hqueues, hget⟩ := get_createProcess h
  refine ⟨hidle, ?_, ?_, fun other hne => ?_, fun other => ?_⟩
  · rw [stateOf, hnone]
    rfl
  · rw [hget, if_pos rfl]
  · rw [stateOf, stateOf, hget, if_neg hne]
  · rw [occurrences, occurrences, hqueues]

/-- A spawned process gets its one entry. -/
theorem Balanced.spawn (h : scheduler.Balanced)
    (hcreate : scheduler.createProcess parentPid = some (pid, created)) (cpu : Cpu) :
    (created.makeReady cpu pid).Balanced := by
  obtain ⟨_, habsent, hget, hframe, hocc⟩ := createProcess_spec hcreate
  have hready : created.stateOf pid = some .ready := stateOf_of_get hget
  have hmake : created.makeReady cpu pid =
      created.readyAndEnqueue cpu (new pid parentPid) := by
    simp [Scheduler.makeReady, hget]
  rw [hmake]
  intro other hother
  have hpid : (new pid parentPid).pid = pid := rfl
  rw [Scheduler.readyAndEnqueue, occurrences_enqueue, stateOf_enqueue,
    occurrences_setState, stateOf_setState, hocc, h other hother, hpid]
  by_cases heq : other = pid
  · rw [heq, habsent, hready]
    simp
  · rw [if_neg heq, if_neg heq, hframe other heq, Nat.add_zero]

/-! ## Runs -/

theorem balanced_init : init.Balanced := by
  intro pid hpid
  have hstate : init.stateOf pid = none := by
    simp only [stateOf, init, Pool.get, Pool.initIdle]
    split
    next hslot =>
      have hidx := (List.getElem?_eq_some_iff.mp hslot).1
      split
      next heq =>
        have hzero : pid.index.toNat = 0 := by simpa using hidx
        simp only [hzero, List.getElem?_cons_zero, some.injEq] at hslot
        rw [← hslot] at heq
        exact absurd heq.symm hpid
      · rfl
    · rfl
  rw [hstate]
  simp [occurrences, init]

/-- What the callers of the scheduler have to see to: no process that is ready
already is made ready again, and a process gives up its core only while it is
not in a run queue itself. -/
def QueueDiscipline (scheduler : Scheduler) : Action → Prop
  | .makeReady _ pid => pid ≠ idle → scheduler.stateOf pid ≠ some .ready
  | .futexWake _ uaddr count => scheduler.WakesNoReady uaddr count
  | .block cpu | .sleep cpu _ _ | .futexWait cpu _ _ | .wait cpu _ _
  | .waitAgain cpu _ _ | .exit cpu _ => scheduler.CurrentNotReady cpu
  | _ => True

instance (scheduler : Scheduler) : (action : Action) → Decidable (scheduler.QueueDiscipline action)
  | .makeReady .. => inferInstanceAs (Decidable (_ → _))
  | .futexWake .. => inferInstanceAs (Decidable (WakesNoReady ..))
  | .block _ | .sleep .. | .futexWait .. | .wait .. | .waitAgain .. | .exit .. =>
    inferInstanceAs (Decidable (CurrentNotReady ..))
  | .spawn .. | .schedule .. | .unblock .. | .signal .. | .reap .. | .setInitPid _ => isTrue trivial

/-- One step that keeps the discipline keeps the balance. -/
theorem Balanced.step {action : Action} (h : scheduler.Balanced)
    (hdiscipline : scheduler.QueueDiscipline action)
    (hstep : scheduler.step action = some scheduler') : scheduler'.Balanced := by
  cases action with
  | spawn cpu parentPid =>
    simp only [Scheduler.step, map_eq_some_iff] at hstep
    obtain ⟨⟨pid, _⟩, hcreate, rfl⟩ := hstep
    exact h.spawn hcreate cpu
  | makeReady cpu pid =>
    cases hstep
    exact h.makeReady cpu hdiscipline
  | schedule cpu nowTick => exact h.scheduleOnCore hstep
  | block cpu => exact h.blockCurrent hdiscipline hstep
  | unblock cpu pid =>
    cases hstep
    exact h.of_wakes (wakes_unblock (K := fun _ => True) scheduler cpu pid)
  | sleep cpu wakeAtTick nowTick => exact h.sleepCurrent hdiscipline hstep
  | futexWait cpu uaddr nowTick => exact h.futexWait hdiscipline hstep
  | futexWake cpu uaddr count =>
    cases hstep
    exact h.futexWake cpu hdiscipline
  | signal cpu pid signum =>
    cases hstep
    exact h.sendSignalTo cpu pid signum
  | wait cpu forPid nohang =>
    simp only [Scheduler.step, sysWait] at hstep
    split at hstep
    · exact h.waitTurn hdiscipline hstep
    · cases hstep
      exact h
  | waitAgain cpu forPid nohang => exact h.waitTurn hdiscipline hstep
  | exit cpu exitCode => exact h.exit hdiscipline hstep
  | reap parentPid forPid =>
    simp only [Scheduler.step, map_eq_some_iff] at hstep
    obtain ⟨⟨_, _⟩, hreap, rfl⟩ := hstep
    exact h.reap hreap
  | setInitPid pid =>
    cases hstep
    exact h.congr (fun _ => rfl) (fun _ => rfl)

/-- Every state that a disciplined run reaches from boot is balanced. -/
theorem balanced_of_disciplined_run {actions : List Action} {scheduler : Scheduler}
    (hdiscipline : Along Scheduler.step QueueDiscipline init actions)
    (hrun : run Scheduler.step init actions = some scheduler) : scheduler.Balanced :=
  run_invariant (I := Balanced) (fun _ _ _ hbalanced hguard hstep =>
    hbalanced.step hguard hstep) actions init scheduler balanced_init hdiscipline hrun

/-- The run of a process that is spawned, waits on a futex, is woken by SIGUSR1
(10) and is then named by a `FUTEX_WAKE`. -/
def staleWaiterRun : List Action :=
  [.spawn bootCpu none, .schedule bootCpu 0, .futexWait bootCpu 0x5000#64 0,
    .signal bootCpu ⟨1, 1⟩ 10, .futexWake bootCpu 0x5000#64 1]

/-- Up to the wake-up the run is disciplined, and balanced. -/
theorem balanced_before_stale_wake :
    Along Scheduler.step QueueDiscipline init (staleWaiterRun.take 4) ∧
      ∃ scheduler, run Scheduler.step init (staleWaiterRun.take 4) = some scheduler ∧
        scheduler.Balanced := by
  have hdiscipline : Along Scheduler.step QueueDiscipline init
      (staleWaiterRun.take 4) := by
    decide +kernel
  have hsome : (run Scheduler.step init (staleWaiterRun.take 4)).isSome = true := by
    decide +kernel
  obtain ⟨scheduler, hrun⟩ := isSome_iff_exists.mp hsome
  exact ⟨hdiscipline, scheduler, hrun, balanced_of_disciplined_run hdiscipline hrun⟩

/-- The stale entry of the futex table makes the waiter ready a second time: it
ends up in the run queue twice. -/
theorem stale_waiter_queued_twice :
    ∃ scheduler, run Scheduler.step init staleWaiterRun = some scheduler ∧
      scheduler.stateOf ⟨1, 1⟩ = some .ready ∧ scheduler.occurrences ⟨1, 1⟩ = 2 ∧
      ¬ scheduler.Balanced := by
  have hview : (run Scheduler.step init staleWaiterRun).map
      (fun scheduler => (scheduler.stateOf ⟨1, 1⟩, scheduler.occurrences ⟨1, 1⟩)) =
        some (some .ready, 2) := by
    decide +kernel
  obtain ⟨scheduler, hrun, hpair⟩ := map_eq_some_iff.mp hview
  rw [Prod.mk.injEq] at hpair
  obtain ⟨hready, htwice⟩ := hpair
  refine ⟨scheduler, hrun, hready, htwice, fun hbalanced => ?_⟩
  have honce := hbalanced ⟨1, 1⟩ (by decide)
  rw [hready, htwice] at honce
  cases honce

end Bazzulto.Scheduler
