/-
  Scheduler/Writes.lean --- what the operations of the scheduler write.

  Apart from creation and reaping, every operation changes queues, writes to
  records it finds and may switch the process of a core.  `Writes P C` says so of
  two scheduler states: a record gets a new state only where `P` allows it, and a
  core another process only where `C` does.  Which slots are occupied, which
  processes can have become blocked and which can have left a core is read off from
  it, once for all operations.
-/
import Bazzulto.Scheduler.Wakes

set_option autoImplicit false

namespace Bazzulto.Scheduler

open Option Function ProcessState

variable {before after scheduler next : Scheduler} {cpu : Cpu} {pid : Pid} {state : ProcessState}
  {nowTick : Nat} {action : Action} {forPid : Option Pid}

namespace Pool

/-- The same slots are occupied, by processes with the same pids, and the search
index is where it was. -/
structure Same (before after : Pool) : Prop where
  next : after.nextSearchIndex = before.nextSearchIndex
  length : after.slots.length = before.slots.length
  occupied : ∀ pid, (after.get pid).isSome = (before.get pid).isSome

theorem Same.refl (pool : Pool) : pool.Same pool := ⟨rfl, rfl, fun _ => rfl⟩

theorem Same.trans {first second third : Pool} (h : first.Same second)
    (h' : second.Same third) : first.Same third :=
  ⟨h'.next.trans h.next, h'.length.trans h.length,
    fun pid => (h'.occupied pid).trans (h.occupied pid)⟩

theorem Same.get_eq_none {before after : Pool} (h : before.Same after) :
    after.get pid = none ↔ before.get pid = none := by
  rw [← not_isSome_iff_eq_none, ← not_isSome_iff_eq_none, h.occupied]

theorem same_modify (pool : Pool) (pid : Pid) (change : Process → Process)
    (hpid : ∀ process, (change process).pid = process.pid) :
    pool.Same (pool.modify pid change hpid) := by
  refine ⟨?_, ?_, fun other => ?_⟩
  · unfold modify
    split <;> rfl
  · unfold modify
    split
    · rfl
    · exact List.length_set
  · rw [get_modify]
    split
    next heq =>
      rw [heq, isSome_map]
    · rfl

end Pool

/-! ## Writes -/

/-- `after` results from `before` by changes outside the pool and by writes to
records.  A write to the record of `pid` leaves its state or puts one there that
`P pid` allows, and only the cores in `C` may get another process. -/
inductive Writes (P : Pid → ProcessState → Prop) (C : Cpu → Prop) :
    Scheduler → Scheduler → Prop where
  | outside {before after : Scheduler} (hpool : after.pool = before.pool)
      (hcores : ∀ cpu, after.currentPids cpu = before.currentPids cpu ∨ C cpu) :
      Writes P C before after
  | update {scheduler : Scheduler} (pid : Pid) (change : Process → Process)
      (hpid : ∀ process, (change process).pid = process.pid)
      (hstate : ∀ process, (change process).state = process.state ∨ P pid (change process).state) :
      Writes P C scheduler (scheduler.updateProcess pid change hpid)
  | trans {first second third : Scheduler} (h : Writes P C first second)
      (h' : Writes P C second third) : Writes P C first third

open Writes

variable {P : Pid → ProcessState → Prop} {C : Cpu → Prop}

theorem Writes.queues (hpool : after.pool = before.pool)
    (hcores : after.currentPids = before.currentPids) : Writes P C before after :=
  .outside hpool fun _ => .inl (by rw [hcores])

theorem Writes.refl (scheduler : Scheduler) : Writes P C scheduler scheduler :=
  .queues rfl rfl

section

variable (h : Writes P C before after)
include h

theorem Writes.mono {Q : Pid → ProcessState → Prop} {D : Cpu → Prop}
    (himp : ∀ pid state, P pid state → Q pid state) (hcores : ∀ cpu, C cpu → D cpu) :
    Writes Q D before after := by
  induction h with
  | outside hpool hsame =>
    exact .outside hpool fun cpu => (hsame cpu).imp_right (hcores cpu)
  | update pid change hpid hstate =>
    exact .update pid change hpid fun process => (hstate process).imp_right (himp pid _)
  | trans _ _ ih ih' => exact ih.trans ih'

theorem Writes.same : before.pool.Same after.pool := by
  induction h with
  | outside hpool _ => exact hpool ▸ Pool.Same.refl _
  | update pid change hpid _ => exact Pool.same_modify _ pid change hpid
  | trans _ _ ih ih' => exact ih.trans ih'

theorem Writes.currentPids (hcpu : ¬ C cpu) : after.currentPids cpu = before.currentPids cpu := by
  induction h with
  | outside _ hcores => exact (hcores cpu).resolve_right hcpu
  | update _ _ _ _ => rfl
  | trans _ _ ih ih' => exact ih'.trans ih

/-- A process has its old state or one that `P` allows. -/
theorem Writes.stateOf (pid : Pid) :
    after.stateOf pid = before.stateOf pid ∨
      ∃ state, after.stateOf pid = some state ∧ P pid state := by
  induction h with
  | outside hpool _ =>
    left
    rw [Scheduler.stateOf, hpool, Scheduler.stateOf]
  | @update scheduler target change hpid hstate =>
    show (scheduler.updateProcess target change hpid).view Process.state pid = _ ∨
      ∃ state, (scheduler.updateProcess target change hpid).view Process.state pid = _ ∧ _
    rw [view_updateProcess]
    split
    next htarget =>
      subst htarget
      cases hget : scheduler.pool.get pid with
      | none => exact .inl (by simp [view, Scheduler.stateOf, hget])
      | some process =>
        have hview : scheduler.view (fun process => (change process).state) pid =
            some (change process).state := view_of_get _ hget
        rw [hview]
        rcases hstate process with hsame | hallowed
        · left
          rw [hsame, Scheduler.stateOf, hget, map_some]
        · exact .inr ⟨_, rfl, hallowed⟩
    · exact .inl rfl
  | trans _ _ ih ih' =>
    rcases ih' with hsame | hallowed
    · rw [hsame]
      exact ih
    · exact .inr hallowed

theorem Writes.stateOf_of_not (hnot : ¬ P pid state) (hafter : after.stateOf pid = some state) :
    before.stateOf pid = some state := by
  rcases h.stateOf pid with hsame | ⟨_, hother, hallowed⟩
  · exact hsame.symm.trans hafter
  · cases hother.symm.trans hafter
    exact absurd hallowed hnot

end

/-- Any state but `Blocked`. -/
def NotBlocked (_ : Pid) (state : ProcessState) : Prop := state ≠ .blocked

/-! ## The operations -/

theorem writes_foldl {act : Scheduler → Pid → Scheduler}
    (h : ∀ (scheduler : Scheduler) (pid : Pid), Writes NotBlocked C scheduler (act scheduler pid))
    (pids : List Pid) :
    ∀ scheduler : Scheduler, Writes NotBlocked C scheduler (pids.foldl act scheduler) := by
  induction pids with
  | nil => exact refl
  | cons pid rest ih => exact fun scheduler => (h scheduler pid).trans (ih _)

section

variable (scheduler : Scheduler)

theorem writes_setState (h : P pid state) : Writes P C scheduler (scheduler.setState pid state) :=
  .update pid (fun process => { process with state }) (fun _ => rfl) fun _ => .inr h

theorem writes_readyAndEnqueue (cpu : Cpu) (process : Process) :
    Writes NotBlocked C scheduler (scheduler.readyAndEnqueue cpu process) :=
  (writes_setState scheduler (show ready ≠ .blocked by decide)).trans
    (.queues rfl rfl)

theorem Wakes.writes {K : Pid → Prop} (h : Wakes K before after) :
    Writes NotBlocked C before after := by
  induction h with
  | refl => exact .refl _
  | wake cpu _ _ => exact writes_readyAndEnqueue _ cpu _
  | write _ change hpid hstate => exact .update _ change hpid fun process => .inl (hstate process)
  | trans _ _ ih ih' => exact ih.trans ih'

theorem writes_makeReady (cpu : Cpu) (pid : Pid) :
    Writes NotBlocked C scheduler (scheduler.makeReady cpu pid) := by
  unfold makeReady
  split
  · exact refl _
  · exact writes_readyAndEnqueue _ _ _

theorem writes_futexMakeReady (cpu : Cpu) (pid : Pid) :
    Writes NotBlocked C scheduler (scheduler.futexMakeReady cpu pid) := by
  unfold futexMakeReady
  split
  · exact refl _
  split
  · exact refl _
  · exact refl _
  · exact writes_readyAndEnqueue _ _ _

theorem writes_pickNext (cpu : Cpu) : Writes NotBlocked C scheduler (scheduler.pickNext cpu).2 :=
  .queues (pickNext_frame scheduler cpu).1 (pickNext_frame scheduler cpu).2

end

theorem writes_switchTo {fromPid toPid : Pid}
    (h : scheduler.switchTo cpu fromPid toPid = some next) :
    Writes NotBlocked (· = cpu) scheduler next := by
  obtain rfl := switchTo_eq_some h
  refine (writes_setState scheduler (show running ≠ .blocked by decide)).trans
    (.outside rfl fun core => ?_)
  by_cases hcore : core = cpu
  · exact .inr hcore
  · exact .inl (update_of_ne hcore _ _)

theorem writes_scheduleNoRequeue (h : scheduler.scheduleNoRequeue cpu = some next) :
    Writes NotBlocked (· = cpu) scheduler next := by
  unfold scheduleNoRequeue at h
  have hpick : Writes NotBlocked (· = cpu) scheduler (scheduler.pickNext cpu).2 :=
    writes_pickNext scheduler cpu
  dsimp only at h
  split at h
  · cases h
    exact hpick
  · exact hpick.trans (writes_switchTo h)

theorem writes_timerWork (scheduler : Scheduler) (cpu : Cpu) (nowTick : Nat) :
    Writes NotBlocked C scheduler (scheduler.timerWork cpu nowTick) := by
  unfold timerWork
  split
  · exact (writes_foldl (fun s pid => writes_makeReady s cpu pid) _ _).trans
      (wakes_foldl (K := fun _ => True) _ (fun _ _ s => wakes_deliverAlarm s trivial) _).writes
  · exact refl _

theorem writes_requeueCurrent (scheduler : Scheduler) (cpu : Cpu) :
    Writes NotBlocked C scheduler (scheduler.requeueCurrent cpu) := by
  obtain ⟨hcores, hpool | hpool⟩ := requeueCurrent_frame scheduler cpu
  · exact .queues hpool hcores
  · exact (writes_setState scheduler (show ready ≠ .blocked by decide)).trans
      (.queues hpool hcores)

theorem writes_scheduleOnCore (h : scheduler.scheduleOnCore cpu nowTick = some next) :
    Writes NotBlocked (· = cpu) scheduler next := by
  unfold scheduleOnCore at h
  have hpick : Writes NotBlocked (· = cpu) scheduler
      (((scheduler.timerWork cpu nowTick).requeueCurrent cpu).pickNext cpu).2 :=
    ((writes_timerWork scheduler cpu nowTick).trans (writes_requeueCurrent _ cpu)).trans
      (writes_pickNext _ cpu)
  dsimp only at h
  split at h
  · cases h
    exact hpick.trans (writes_setState _ (show running ≠ .blocked by decide))
  · exact hpick.trans (writes_switchTo h)

theorem writes_futexWake (scheduler : Scheduler) (cpu : Cpu) (uaddr : BitVec 64)
    (count : Nat) : Writes NotBlocked C scheduler (scheduler.futexWake cpu uaddr count) := by
  have hdrained : Writes NotBlocked C scheduler
      { scheduler with
        futexTable := update scheduler.futexTable uaddr
          ((scheduler.futexTable uaddr).drop count) } := .queues rfl rfl
  exact hdrained.trans
    (writes_foldl (fun s pid => writes_futexMakeReady s cpu pid) _ _)

theorem writes_sleepCurrent {wakeAtTick : Nat}
    (h : scheduler.sleepCurrent cpu wakeAtTick nowTick = some next) :
    Writes NotBlocked (· = cpu) scheduler next := by
  exact (writes_setState _ (show sleeping wakeAtTick ≠ .blocked by simp)).trans
    (writes_scheduleOnCore h)

theorem writes_futexWait {uaddr : BitVec 64}
    (h : scheduler.futexWait cpu uaddr nowTick = some next) :
    Writes NotBlocked (· = cpu) scheduler next := by
  have hjoined : Writes NotBlocked (· = cpu) scheduler
      { scheduler with
        futexTable := update scheduler.futexTable uaddr
          (scheduler.futexTable uaddr ++ [scheduler.currentPids cpu]) } := .queues rfl rfl
  exact hjoined.trans (writes_sleepCurrent h)

theorem writes_blockCurrent (h : scheduler.blockCurrent cpu = some next) :
    Writes (fun pid state => state = .blocked → pid = scheduler.currentPids cpu) (· = cpu)
      scheduler next := by
  exact (writes_setState _ fun _ => rfl).trans
    ((writes_scheduleNoRequeue h).mono (fun _ _ hnot hblocked => absurd hblocked hnot)
      fun _ hcpu => hcpu)

theorem writes_sendSignalTo (scheduler : Scheduler) (cpu : Cpu) (pid : Pid)
    (signum : Nat) : Writes NotBlocked C scheduler (scheduler.sendSignalTo cpu pid signum).1 := by
  have hstopped : Writes NotBlocked C scheduler (scheduler.setState pid .stopped) :=
    writes_setState scheduler (by simp [NotBlocked])
  generalize hafter : (scheduler.sendSignalTo cpu pid signum).1 = after
  cases hafter ▸ signalled_sendSignalTo scheduler cpu pid signum with
  | ignored => exact .refl _
  | stopped _ _ => exact hstopped
  | dequeued _ _ => exact hstopped.trans (.queues rfl rfl)
  | recorded n => exact (wakes_recordSignal (K := fun _ => True) scheduler trivial n).writes
  | woken n _ _ _ =>
    exact (wakes_recordSignal (K := fun _ => True) scheduler trivial n).writes.trans
      (writes_readyAndEnqueue _ _ _)

theorem writes_becomeZombie (scheduler : Scheduler) (cpu : Cpu) (exitCode : Int) :
    Writes NotBlocked C scheduler (scheduler.becomeZombie cpu exitCode) := by
  have hmarked : Writes NotBlocked C scheduler
      (scheduler.markZombie (scheduler.currentPids cpu) exitCode) := by
    refine update _ _ _ ?_
    exact fun _ => .inr (show zombie exitCode ≠ .blocked by simp)
  exact hmarked.trans
    (wakes_becomeZombie (K := fun _ => True) scheduler cpu exitCode fun _ _ => trivial).writes

/-! ## Steps -/

/-- The action creates a process. -/
def Action.creates : Action → Bool
  | .spawn _ _ => true
  | _ => false

/-- The core whose process the action may switch: it is the process itself that waits,
ends or is preempted. -/
def Action.core : Action → Option Cpu
  | .schedule cpu _ | .block cpu | .sleep cpu _ _ | .futexWait cpu _ _ | .wait cpu _ _
  | .waitAgain cpu _ _ | .exit cpu _ => some cpu
  | _ => none

/-- Only `block_current` puts a process in the state `Blocked`, the current one of its
core. -/
def Action.mayWrite (scheduler : Scheduler) (action : Action) (pid : Pid)
    (state : ProcessState) : Prop :=
  state = .blocked → ∃ cpu, action = .block cpu ∧ pid = scheduler.currentPids cpu

theorem Action.mayWrite_of_notBlocked (pid : Pid) (state : ProcessState)
    (h : NotBlocked pid state) : action.mayWrite scheduler pid state :=
  fun hblocked => absurd hblocked h

/-- What a step can do: write to records, create one process, or release one. -/
inductive Change (scheduler : Scheduler) (action : Action) (next : Scheduler) : Prop where
  | writes (hcreates : action.creates = false)
      (h : Writes (action.mayWrite scheduler) (action.core = some ·) scheduler next)
  | creates (hcreates : action.creates = true) (child : Pid) (parentPid : Option Pid)
      (created : Scheduler)
      (hcreate : scheduler.createProcess parentPid = some (child, created))
      (h : Writes NotBlocked (action.core = some ·) created next)
  | releases (hcreates : action.creates = false) (pid : Pid)
      (h : next = scheduler.release pid)

section

variable (hcreates : action.creates = false)
include hcreates

theorem Change.of_writes (h : Writes NotBlocked (action.core = some ·) scheduler next) :
    Change scheduler action next :=
  .writes hcreates (h.mono Action.mayWrite_of_notBlocked fun _ hcpu => hcpu)

theorem Change.of_switch (hcore : action.core = some cpu)
    (h : Writes NotBlocked (· = cpu) scheduler next) : Change scheduler action next := by
  refine .writes hcreates (h.mono Action.mayWrite_of_notBlocked fun core heq => ?_)
  rw [heq, hcore]

theorem Change.of_reap {parentPid : Pid} {found : Pid × Int}
    (h : scheduler.reap parentPid forPid = some (found, next)) : Change scheduler action next := by
  unfold reap at h
  split at h
  · cases h
  · cases h
    exact .releases hcreates _ rfl

theorem Change.of_waitTurn {nohang : Bool} (hcore : action.core = some cpu)
    (h : scheduler.waitTurn cpu forPid nohang = some next) : Change scheduler action next := by
  unfold waitTurn at h
  dsimp only at h
  split at h
  next hreap =>
    cases h
    exact .of_reap hcreates hreap
  · split at h
    · cases h
      exact .of_writes hcreates (refl _)
    have hwaiting : Writes NotBlocked (· = cpu) scheduler
        (scheduler.setState (scheduler.currentPids cpu) (.waiting forPid)) :=
      writes_setState scheduler (by simp [NotBlocked])
    exact .of_switch hcreates hcore (hwaiting.trans (writes_scheduleNoRequeue h))

end

/-- Every step is such a change. -/
theorem step_change (h : scheduler.step action = some next) : Change scheduler action next := by
  cases action with
  | spawn cpu parentPid =>
    obtain ⟨⟨pid, created⟩, hcreate, rfl⟩ := map_eq_some_iff.mp h
    exact .creates rfl pid parentPid created hcreate (writes_makeReady _ _ _)
  | makeReady cpu pid =>
    cases h
    exact .of_writes rfl (writes_makeReady _ _ _)
  | schedule cpu nowTick => exact .of_switch rfl rfl (writes_scheduleOnCore h)
  | block cpu =>
    refine .writes rfl ((writes_blockCurrent h).mono (fun pid state hcurrent hblocked => ?_)
      fun core heq => ?_)
    · exact ⟨cpu, rfl, hcurrent hblocked⟩
    · rw [heq]
      rfl
  | unblock cpu pid =>
    cases h
    exact .of_writes rfl (wakes_unblock (K := fun _ => True) _ _ _).writes
  | sleep cpu wakeAtTick nowTick => exact .of_switch rfl rfl (writes_sleepCurrent h)
  | futexWait cpu uaddr nowTick => exact .of_switch rfl rfl (writes_futexWait h)
  | futexWake cpu uaddr count =>
    cases h
    exact .of_writes rfl (writes_futexWake _ _ _ _)
  | signal cpu pid signum =>
    cases h
    exact .of_writes rfl (writes_sendSignalTo _ _ _ _)
  | wait cpu forPid nohang =>
    simp only [step, sysWait] at h
    split at h
    · exact .of_waitTurn rfl rfl h
    · cases h
      exact .of_writes rfl (refl _)
  | waitAgain cpu forPid nohang => exact .of_waitTurn rfl rfl h
  | exit cpu exitCode =>
    exact .of_switch rfl rfl ((writes_becomeZombie _ _ _).trans (writes_scheduleNoRequeue h))
  | reap parentPid forPid =>
    obtain ⟨⟨_, _⟩, hreap, rfl⟩ := map_eq_some_iff.mp h
    exact .of_reap rfl hreap
  | setInitPid pid =>
    cases h
    exact .of_writes rfl (.queues rfl rfl)

/-- A process that is blocked after a step was blocked before, unless it is the one
that the step blocks. -/
theorem blocked_of_step (h : scheduler.step action = some next)
    (hother : ∀ cpu, action = .block cpu → pid ≠ scheduler.currentPids cpu)
    (hblocked : next.stateOf pid = some .blocked) : scheduler.stateOf pid = some .blocked := by
  cases step_change h with
  | writes _ hwrites =>
    refine hwrites.stateOf_of_not (fun hmay => ?_) hblocked
    obtain ⟨cpu, haction, hcurrent⟩ := hmay rfl
    exact hother cpu haction hcurrent
  | creates _ child parentPid created hcreate hwrites =>
    have hcreated := hwrites.stateOf_of_not (fun hnot => hnot rfl) hblocked
    have hview := view_createProcess (f := Process.state) hcreate pid
    rw [show created.view Process.state pid = some .blocked from hcreated] at hview
    split at hview
    · exact absurd (some.inj hview) (by simp [Process.new])
    · exact hview.symm
  | releases _ released hnext =>
    subst hnext
    rw [Scheduler.stateOf, release, Pool.get_freeSlot] at hblocked
    split at hblocked
    · cases hblocked
    · exact hblocked

theorem currentPids_of_step (h : scheduler.step action = some next)
    (hcpu : ¬ action.core = some cpu) : next.currentPids cpu = scheduler.currentPids cpu := by
  cases step_change h with
  | writes _ hwrites => exact hwrites.currentPids hcpu
  | creates _ child parentPid created hcreate hwrites =>
    obtain ⟨_, _, rfl⟩ := createProcess_eq_some hcreate
    exact hwrites.currentPids hcpu
  | releases _ released hnext => rw [hnext, release]

end Bazzulto.Scheduler
