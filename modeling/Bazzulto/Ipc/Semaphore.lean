/-
  Ipc/Semaphore.lean --- named semaphores over the scheduler.

  Embeds `sys_sem_wait`, `sys_sem_trywait` and `sys_sem_post`
  (kernel/src/ipc/sem.rs) for one open semaphore.  A system call runs with
  interrupts disabled up to the point where it blocks, so each call is one step;
  a caller that blocks in `sys_sem_wait` comes back, in a later step, when some
  core has switched to it again.

  `posts`, `returned` and `granted` are a ledger the code does not keep: the
  `sem_post` calls made, the wait calls that have returned 0, and the waiters
  that a post has made ready and that have not returned yet.
-/
import Bazzulto.Scheduler.Orderly

set_option autoImplicit false

namespace Bazzulto.Ipc

open Foundation List Option Function Scheduler

variable {initial : Nat} {cpu : Cpu} {pid : Pid}

/-- `NamedSemaphore`: the counter, a `u32`, and the queue of blocked waiters. -/
structure NamedSemaphore where
  value : Nat
  waiterQueue : List Pid

/-- The scheduler, one semaphore, which processes are inside the blocking part
of `sys_sem_wait`, and the ledger. -/
structure System where
  scheduler : Scheduler
  semaphore : NamedSemaphore
  inWait : Pid → Bool
  posts : Nat
  returned : Nat
  granted : List Pid

/-- A semaphore with a fresh scheduler. -/
def System.start (value : Nat) : System where
  scheduler := init
  semaphore := ⟨value, []⟩
  inWait := fun _ => false
  posts := 0
  returned := 0
  granted := []

section

variable (system : System)

/-- The process that a core runs in user space, if any: not idle, and not on its
way out of `sys_sem_wait`. -/
def System.caller (cpu : Cpu) : Option Pid :=
  let pid := system.scheduler.currentPids cpu
  if pid = Pid.idle ∨ system.inWait pid = true then none else some pid

/-- The decrement that `sys_sem_wait` and `sys_sem_trywait` share. -/
def System.take : System :=
  { system with
    semaphore := { system.semaphore with value := system.semaphore.value - 1 }
    returned := system.returned + 1 }

/-- `sys_sem_wait` with a zero counter: join the waiters and block. -/
def System.enterWait (cpu : Cpu) (pid : Pid) : Option System :=
  (system.scheduler.blockCurrent cpu).map fun scheduler =>
    { system with
      scheduler
      semaphore :=
        { system.semaphore with
          waiterQueue := system.semaphore.waiterQueue ++ [pid] }
      inWait := update system.inWait pid true }

def sysSemWait (cpu : Cpu) (pid : Pid) : Option System :=
  if 0 < system.semaphore.value then some system.take
  else system.enterWait cpu pid

/-- `sys_sem_wait` after `block_current`: it returns 0, whatever woke it. -/
def leaveWait (pid : Pid) : System :=
  { system with
    inWait := update system.inWait pid false
    returned := system.returned + 1
    granted := system.granted.erase pid }

/-- `sys_sem_trywait`; EAGAIN changes nothing. -/
def sysSemTrywait : System :=
  if 0 < system.semaphore.value then system.take else system

/-- Whether `unblock` acts on a process. -/
def unblocks : Option ProcessState → Bool
  | some .blocked | some (.waiting _) => true
  | _ => false

/-- `sys_sem_post`: the token goes to the head of the waiter queue, which is
unblocked, and otherwise to the counter, which wraps like a `u32`. -/
def sysSemPost (cpu : Cpu) : System :=
  match system.semaphore.waiterQueue with
  | pid :: rest =>
    { system with
      scheduler := system.scheduler.unblock cpu pid
      semaphore := { system.semaphore with waiterQueue := rest }
      posts := system.posts + 1
      granted :=
        if unblocks (system.scheduler.stateOf pid) then system.granted ++ [pid]
        else system.granted }
  | [] =>
    { system with
      semaphore :=
        { system.semaphore with value := (system.semaphore.value + 1) % 2 ^ 32 }
      posts := system.posts + 1 }

end

/-- One event. -/
inductive Action where
  | spawn (cpu : Cpu) (parentPid : Option Pid)
  | schedule (cpu : Cpu) (nowTick : Nat)
  | signal (cpu : Cpu) (pid : Pid) (signum : Nat)
  | semWait (cpu : Cpu)
  | semTrywait (cpu : Cpu)
  | semPost (cpu : Cpu)
  /-- The current process of the core returns from the blocking part of
  `sys_sem_wait`. -/
  | resume (cpu : Cpu)

/-- The transitions of the system.  The semaphore calls are made by the process
that the core runs. -/
def step (system : System) : Action → Option System
  | .spawn cpu parentPid =>
    (system.scheduler.step (.spawn cpu parentPid)).map fun scheduler =>
      { system with scheduler }
  | .schedule cpu nowTick =>
    (system.scheduler.step (.schedule cpu nowTick)).map fun scheduler =>
      { system with scheduler }
  | .signal cpu pid signum =>
    (system.scheduler.step (.signal cpu pid signum)).map fun scheduler =>
      { system with scheduler }
  | .semWait cpu => (system.caller cpu).bind fun pid => sysSemWait system cpu pid
  | .semTrywait cpu => (system.caller cpu).map fun _ => sysSemTrywait system
  | .semPost cpu => (system.caller cpu).map fun _ => sysSemPost system cpu
  | .resume cpu =>
    let pid := system.scheduler.currentPids cpu
    if pid ≠ Pid.idle ∧ system.inWait pid = true then some (leaveWait system pid)
    else none

/-! ## The ledger -/

/-- No token appears from nowhere and none is lost. -/
def Accounted (initial : Nat) (system : System) : Prop :=
  system.returned ≤ initial + system.posts ∧
    system.semaphore.value + system.returned + system.granted.length = initial + system.posts

/-- What keeps the ledger: no signal but SIGCONT reaches a process blocked in
`sys_sem_wait`, SIGCONT does not reach a process stopped while on a core, and the
counter does not overflow. -/
def LeavesWaitersAlone (system : System) : Action → Prop
  | .signal _ pid signum =>
    (pid ∈ system.semaphore.waiterQueue → signum = 18 ∨ signum = 0 ∨ 63 < signum) ∧
      system.scheduler.ContinuesOffCore pid signum
  | .semPost _ =>
    system.semaphore.waiterQueue = [] → system.semaphore.value + 1 < 2 ^ 32
  | _ => True

instance (system : System) : (action : Action) → Decidable (LeavesWaitersAlone system action)
  | .signal .. => inferInstanceAs (Decidable (_ ∧ _))
  | .semPost _ => inferInstanceAs (Decidable (_ → _))
  | .spawn .. | .schedule .. | .semWait _ | .semTrywait _ | .resume _ => isTrue trivial

/-- The invariant of runs that leave the waiters alone: everyone in the queue is
blocked inside `sys_sem_wait`, and everyone inside is in the queue or has been
granted a token. -/
structure Sound (initial : Nat) (system : System) : Prop where
  orderly : system.scheduler.Orderly
  queued : ∀ pid ∈ system.semaphore.waiterQueue, pid ≠ Pid.idle ∧
    system.scheduler.stateOf pid = some .blocked ∧ system.inWait pid = true
  inside : ∀ pid, system.inWait pid = true →
    pid ∈ system.semaphore.waiterQueue ∨ pid ∈ system.granted
  granted_inside : ∀ pid ∈ system.granted, system.inWait pid = true
  queue_nodup : system.semaphore.waiterQueue.Nodup
  granted_nodup : system.granted.Nodup
  apart : ∀ pid ∈ system.semaphore.waiterQueue, pid ∉ system.granted
  balance : system.semaphore.value + system.returned + system.granted.length =
    initial + system.posts

variable {system : System}

theorem Sound.accounted (h : Sound initial system) : Accounted initial system := by
  have hbalance := h.balance
  exact ⟨by omega, hbalance⟩

theorem sound_start (value : Nat) : Sound value (System.start value) := by
  constructor
  case orderly => exact orderly_init
  all_goals simp [System.start]

/-- A scheduler step that keeps order and keeps the queued waiters blocked keeps
the invariant. -/
theorem Sound.withScheduler (h : Sound initial system) {scheduler : Scheduler}
    (horderly : scheduler.Orderly)
    (hblocked : ∀ pid ∈ system.semaphore.waiterQueue, scheduler.stateOf pid = some .blocked) :
    Sound initial { system with scheduler } :=
  { h with
    orderly := horderly
    queued := fun pid hpid =>
      ⟨(h.queued pid hpid).1, hblocked pid hpid, (h.queued pid hpid).2.2⟩ }

theorem Sound.queued_off_core (h : Sound initial system) (cpu : Cpu) :
    system.scheduler.currentPids cpu ∉ system.semaphore.waiterQueue := by
  intro hmem
  obtain ⟨hidle, hblocked, _⟩ := h.queued _ hmem
  exact h.orderly.not_current hidle (by rw [hblocked]; simp)
    (by rw [hblocked]; simp) cpu rfl

/-! ## Steps keep the ledger -/

theorem Sound.take (h : Sound initial system) (hpos : 0 < system.semaphore.value) :
    Sound initial system.take :=
  { h with
    balance := by
      have hbalance := h.balance
      simp only [System.take]
      omega }

variable {system' : System}

section

variable (h : Sound initial system)
include h

/-- A caller that blocks joins the queue; it was neither queued nor granted
before. -/
theorem Sound.enterWait (hcaller : system.caller cpu = some pid)
    (henter : system.enterWait cpu pid = some system') : Sound initial system' := by
  simp only [System.caller, ite_none_left_eq_some, some.injEq, not_or] at hcaller
  obtain ⟨⟨hidle, hout⟩, hpid⟩ := hcaller
  rw [hpid] at hidle hout
  simp only [System.enterWait, map_eq_some_iff] at henter
  obtain ⟨_, hblock, rfl⟩ := henter
  obtain ⟨horderly, hkeeps, hself⟩ := h.orderly.blockCurrent (hpid.symm ▸ hidle) hblock
  have hnotqueued : pid ∉ system.semaphore.waiterQueue := by
    rw [← hpid]
    exact h.queued_off_core cpu
  have hnotgranted : pid ∉ system.granted := fun hmem => hout (h.granted_inside pid hmem)
  -- Marking `pid` as waiting leaves the mark of everyone else.
  have hmark : ∀ other, system.inWait other = true →
      update system.inWait pid true other = true := by
    intro other hother
    by_cases heq : other = pid
    · rw [heq, update_self]
    · rw [update_of_ne heq]
      exact hother
  refine ⟨horderly, ?_, ?_, ?_, ?_, h.granted_nodup, ?_, h.balance⟩
  · intro other hother
    rcases mem_append.mp hother with hold | hnew
    · obtain ⟨hotheridle, hblocked, hinside⟩ := h.queued other hold
      exact ⟨hotheridle, hkeeps other hotheridle hblocked, hmark other hinside⟩
    · rw [mem_singleton.mp hnew]
      exact ⟨hidle, hpid ▸ hself, update_self ..⟩
  · intro other hother
    by_cases heq : other = pid
    · exact .inl (mem_append_right _ (mem_singleton.mpr heq))
    · have hold : system.inWait other = true := by
        simpa [update_of_ne heq] using hother
      exact (h.inside other hold).imp (mem_append_left _) id
  · intro other hother
    exact hmark other (h.granted_inside other hother)
  · rw [nodup_append]
    refine ⟨h.queue_nodup, nodup_singleton pid, fun other hother new hnew => ?_⟩
    rw [mem_singleton.mp hnew]
    rintro rfl
    exact hnotqueued hother
  · intro other hother
    rcases mem_append.mp hother with hold | hnew
    · exact h.apart other hold
    · rw [mem_singleton.mp hnew]
      exact hnotgranted

/-- A post with waiters hands its token to the head of the queue, which is
blocked and therefore made ready. -/
theorem Sound.postToWaiter {rest : List Pid} (cpu : Cpu)
    (hqueue : system.semaphore.waiterQueue = pid :: rest) :
    Sound initial (sysSemPost system cpu) := by
  have hmem : pid ∈ system.semaphore.waiterQueue := by
    rw [hqueue]
    exact mem_cons_self
  obtain ⟨hidle, hblocked, hinside⟩ := h.queued pid hmem
  obtain ⟨horderly, hframe⟩ := h.orderly.unblock_blocked cpu hidle hblocked
  have hnodup := h.queue_nodup
  rw [hqueue, nodup_cons] at hnodup
  have hrest : ∀ other ∈ rest, other ∈ system.semaphore.waiterQueue ∧ other ≠ pid := by
    intro other hother
    refine ⟨hqueue ▸ mem_cons_of_mem _ hother, ?_⟩
    rintro rfl
    exact hnodup.1 hother
  have hunblocks : unblocks (system.scheduler.stateOf pid) = true := by
    rw [hblocked]
    rfl
  simp only [sysSemPost, hqueue, hunblocks, if_true]
  refine ⟨horderly, ?_, ?_, ?_, hnodup.2, ?_, ?_, ?_⟩
  · intro other hother
    obtain ⟨hold, hne⟩ := hrest other hother
    obtain ⟨hotheridle, hotherblocked, hotherinside⟩ := h.queued other hold
    exact ⟨hotheridle, by rw [hframe other hne]; exact hotherblocked, hotherinside⟩
  · intro other hother
    rcases h.inside other hother with hold | hgranted
    · rw [hqueue] at hold
      rcases mem_cons.mp hold with heq | hold
      · exact .inr (mem_append_right _ (mem_singleton.mpr heq))
      · exact .inl hold
    · exact .inr (mem_append_left _ hgranted)
  · intro other hother
    rcases mem_append.mp hother with hold | hnew
    · exact h.granted_inside other hold
    · rw [mem_singleton.mp hnew]
      exact hinside
  · rw [nodup_append]
    refine ⟨h.granted_nodup, nodup_singleton pid, fun other hother new hnew => ?_⟩
    rw [mem_singleton.mp hnew]
    rintro rfl
    exact h.apart other hmem hother
  · intro other hother hgranted
    obtain ⟨hold, hne⟩ := hrest other hother
    rcases mem_append.mp hgranted with hin | hnew
    · exact h.apart other hold hin
    · exact hne (mem_singleton.mp hnew)
  · have hbalance := h.balance
    simp only [length_append, length_singleton]
    omega

theorem Sound.postToCounter (cpu : Cpu) (hqueue : system.semaphore.waiterQueue = [])
    (hfits : system.semaphore.value + 1 < 2 ^ 32) : Sound initial (sysSemPost system cpu) := by
  simp only [sysSemPost, hqueue]
  refine ⟨h.orderly, ?_, ?_, h.granted_inside, ?_, h.granted_nodup, ?_, ?_⟩
  · simp
  · intro pid hpid
    exact .inr ((h.inside pid hpid).resolve_left (by simp [hqueue]))
  · simp
  · simp
  · have hbalance := h.balance
    dsimp only
    omega

/-- A waiter that returns uses up the token it was granted. -/
theorem Sound.leaveWait (hpid : pid = system.scheduler.currentPids cpu)
    (hinside : system.inWait pid = true) : Sound initial (leaveWait system pid) := by
  have hnotqueued : pid ∉ system.semaphore.waiterQueue := by
    rw [hpid]
    exact h.queued_off_core cpu
  have hgranted : pid ∈ system.granted := (h.inside pid hinside).resolve_left hnotqueued
  have hmark : ∀ other, other ≠ pid → update system.inWait pid false other = system.inWait other :=
    fun other hne => update_of_ne hne ..
  refine ⟨h.orderly, ?_, ?_, ?_, h.queue_nodup, h.granted_nodup.erase pid, ?_, ?_⟩
  · intro other hother
    obtain ⟨hidle, hblocked, hotherinside⟩ := h.queued other hother
    have hne : other ≠ pid := fun heq => hnotqueued (heq ▸ hother)
    exact ⟨hidle, hblocked, (hmark other hne).trans hotherinside⟩
  · intro other hother
    have hne : other ≠ pid := by
      rintro rfl
      exact absurd hother (by simp [Ipc.leaveWait])
    have hold := (hmark other hne).symm.trans hother
    exact (h.inside other hold).imp id (fun hin => (mem_erase_of_ne hne).mpr hin)
  · intro other hother
    obtain ⟨hne, hin⟩ := (h.granted_nodup.mem_erase_iff).mp hother
    exact (hmark other hne).trans (h.granted_inside other hin)
  · intro other hother hin
    exact h.apart other hother (mem_of_mem_erase hin)
  · have hbalance := h.balance
    have hlen := length_erase_of_mem hgranted
    have hpos := length_pos_of_mem hgranted
    simp only [Ipc.leaveWait]
    omega

/-- One step that leaves the waiters alone keeps the invariant. -/
theorem Sound.step {action : Action} (halone : LeavesWaitersAlone system action)
    (hstep : step system action = some system') : Sound initial system' := by
  cases action with
  | spawn cpu parentPid =>
    simp only [Ipc.step, Scheduler.step, map_eq_some_iff] at hstep
    obtain ⟨scheduler, ⟨⟨pid, _⟩, hcreate, rfl⟩, rfl⟩ := hstep
    obtain ⟨horderly, hkeeps⟩ := h.orderly.spawn hcreate cpu
    exact h.withScheduler horderly fun pid hpid =>
      hkeeps pid (h.queued pid hpid).1 (h.queued pid hpid).2.1
  | schedule cpu nowTick =>
    simp only [Ipc.step, map_eq_some_iff] at hstep
    obtain ⟨_, hschedule, rfl⟩ := hstep
    obtain ⟨horderly, hkeeps⟩ := h.orderly.scheduleOnCore hschedule
    exact h.withScheduler horderly fun pid hpid =>
      hkeeps pid (h.queued pid hpid).1 (h.queued pid hpid).2.1
  | signal cpu pid signum =>
    simp only [Ipc.step, Scheduler.step, map_some, some.injEq] at hstep
    subst hstep
    obtain ⟨hquiet, hcontinues⟩ := halone
    refine h.withScheduler (h.orderly.sendSignalTo cpu hcontinues) ?_
    intro other hother
    have hblocked := (h.queued other hother).2.1
    obtain rfl | heq := eq_or_ne other pid
    · rcases hquiet hother with rfl | hinvalid
      · exact stateOf_sigcont_blocked hblocked
      · unfold sendSignalTo
        split
        · exact hblocked
        · rwa [if_pos hinvalid]
    · rw [stateOf_sendSignalTo_of_ne heq]
      exact hblocked
  | semWait cpu =>
    simp only [Ipc.step, bind_eq_some_iff] at hstep
    obtain ⟨pid, hcaller, hwait⟩ := hstep
    unfold sysSemWait at hwait
    split at hwait
    next hpos =>
      cases hwait
      exact h.take hpos
    · exact h.enterWait hcaller hwait
  | semTrywait cpu =>
    simp only [Ipc.step, map_eq_some_iff] at hstep
    obtain ⟨_, _, rfl⟩ := hstep
    unfold sysSemTrywait
    split
    next hpos =>
      exact h.take hpos
    · exact h
  | semPost cpu =>
    simp only [Ipc.step, map_eq_some_iff] at hstep
    obtain ⟨_, _, rfl⟩ := hstep
    cases hqueue : system.semaphore.waiterQueue with
    | nil => exact h.postToCounter cpu hqueue (halone hqueue)
    | cons pid rest => exact h.postToWaiter cpu hqueue
  | resume cpu =>
    simp only [Ipc.step, ite_none_right_eq_some, some.injEq] at hstep
    obtain ⟨⟨_, hinside⟩, rfl⟩ := hstep
    exact h.leaveWait rfl hinside

end

/-- In every state that a run leaving the waiters alone reaches, the ledger is
in order: at most as many waits have returned as there were tokens, and no token
is lost. -/
theorem tokens_accounted_of_waiters_left_alone {initial : Nat} {actions : List Action}
    {system : System} (halone : Along step LeavesWaitersAlone (System.start initial) actions)
    (hrun : run step (System.start initial) actions = some system) : Accounted initial system :=
  (run_invariant (I := Sound initial) (fun _ _ _ hsound hguard hstep => hsound.step hguard hstep)
    actions (System.start initial) system (sound_start initial) halone hrun).accounted

/-- A process waits on a semaphore with no token, is woken by SIGUSR1 (10) and
runs again. -/
def signalledWaiterRun : List Action :=
  [.spawn bootCpu none, .schedule bootCpu 0, .semWait bootCpu,
    .signal bootCpu ⟨1, 1⟩ 10, .schedule bootCpu 0, .resume bootCpu]

/-- Before the signal the ledger is in order. -/
theorem tokens_accounted_before_signal :
    Along step LeavesWaitersAlone (System.start 0) (signalledWaiterRun.take 3) ∧
      ∃ system, run step (System.start 0) (signalledWaiterRun.take 3) = some system ∧
        Accounted 0 system := by
  have halone : Along step LeavesWaitersAlone (System.start 0)
      (signalledWaiterRun.take 3) := by
    decide +kernel
  have hsome : (run step (System.start 0) (signalledWaiterRun.take 3)).isSome = true := by
    decide +kernel
  obtain ⟨system, hrun⟩ := isSome_iff_exists.mp hsome
  exact ⟨halone, system, hrun, tokens_accounted_of_waiters_left_alone halone hrun⟩

/-- The woken waiter returns 0 although no token was ever posted. -/
theorem signalled_waiter_returns_without_token :
    ∃ system, run step (System.start 0) signalledWaiterRun = some system ∧
      system.returned = 1 ∧ system.posts = 0 ∧ ¬ Accounted 0 system := by
  have hview : (run step (System.start 0) signalledWaiterRun).map
      (fun system => (system.returned, system.posts)) = some (1, 0) := by
    decide +kernel
  obtain ⟨system, hrun, hpair⟩ := map_eq_some_iff.mp hview
  rw [Prod.mk.injEq] at hpair
  obtain ⟨hreturned, hposts⟩ := hpair
  refine ⟨system, hrun, hreturned, hposts, fun haccounted => ?_⟩
  have hle := haccounted.1
  rw [hreturned, hposts] at hle
  cases hle

end Bazzulto.Ipc
