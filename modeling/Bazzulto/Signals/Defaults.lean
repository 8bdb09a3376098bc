/-
  Signals/Defaults.lean --- SIGKILL, SIGSTOP and the signals that do not terminate by
  default.

  `set_signal_handler` takes an action for every signal number, SIGKILL and SIGSTOP
  included.  `deliver_pending_signals` terminates on every default disposition but those
  of SIGCHLD and SIGURG; SIGCONT resumes a stopped process and stays pending, so that the
  process ends on its way back to user space.
-/
import Bazzulto.Signals.Mask

set_option autoImplicit false

namespace Bazzulto.Signals

open Foundation Option Process

variable {machine next : Machine} {n : Fin 64} {action : Action}

/-- The null signal and those whose default action is to ignore, stop or continue:
SIGCHLD, SIGCONT, SIGSTOP, SIGTSTP, SIGTTIN, SIGTTOU, SIGURG and SIGWINCH. -/
def spared : List Nat := [0, 17, 18, 19, 20, 21, 22, 23, 28]

/-- SIGKILL and SIGSTOP are at their default and unblocked afterwards, the default of a
spared signal does not terminate, and SIGCONT resumes. -/
def KeepsDefaults (machine : Machine) (action : Action) : Prop :=
  ∀ next, step machine action = some next →
    (∀ n, Unblockable n → next.process.signalHandlers n = .default ∧ ¬ next.process.Masked n) ∧
    (action = .deliver → ∀ n : Fin 64, n.val ∈ spared →
      (deliverPendingSignals machine).outcome ≠ .terminated n) ∧
    (action = .signal 18 → machine.process.state = .stopped → next.process.state = .ready)

/-- No action is set for SIGKILL or SIGSTOP, and the signal about to be delivered is not
one of the spared ones that the code has no case for. -/
def Prudent (machine : Machine) (action : Action) : Prop :=
  (action = .svc → ∀ n, Unblockable n → ¬ SetsAction machine n) ∧
    (action = .deliver → ∀ n, machine.process.LowestPending n →
      machine.process.signalHandlers n = .default → n.val ∉ [18, 20, 21, 22, 28])

/-- SIGKILL and SIGSTOP at their defaults and unblocked, with neither SIGSTOP nor the
null signal recorded as pending. -/
def Guarded (process : Process) : Prop :=
  (∀ n, Unblockable n → process.signalHandlers n = .default ∧ ¬ process.Masked n) ∧
    ∀ n : Fin 64, n.val = 0 ∨ n.val = 19 → ¬ process.Pending n

/-- What holds between steps: the mask that `sys_sigsuspend` will restore counts too. -/
def GuardedMachine (machine : Machine) : Prop :=
  Guarded machine.process ∧ ∀ oldMask, machine.phase = .suspended oldMask →
    ∀ n, Unblockable n → oldMask.getLsbD n ≠ true

section

variable {process : Process} (h : Guarded process)
include h

theorem Guarded.mask (set : BitVec 64) :
    Guarded { process with signalMask := set &&& ~~~unblockableSignalsMask } := by
  refine ⟨fun n hn => ⟨(h.1 n hn).1, ?_⟩, h.2⟩
  rcases hn with rfl | rfl <;> simp [Masked, unblockableSignalsMask, sigkill, sigstop]

theorem Guarded.block (set : BitVec 64) :
    Guarded { process with
      signalMask := process.signalMask ||| set &&& ~~~unblockableSignalsMask } := by
  refine ⟨fun n hn => ⟨(h.1 n hn).1, ?_⟩, h.2⟩
  have hmask := ((h.mask set).1 n hn).2
  have hold := (h.1 n hn).2
  simp_all [Masked]

theorem Guarded.send {signum : Nat} (hstop : signum ≠ 19) :
    Guarded (process.sendSignal signum).1 := by
  unfold sendSignal
  split
  · exact h
  · refine ⟨h.1, fun n hn hpending => h.2 n hn ?_⟩
    have hne : n.val ≠ signum := by omega
    simpa [Pending, ← BitVec.twoPow_eq, hne] using hpending

theorem Guarded.receive (signum : Nat) : Guarded (process.receiveSignal signum) := by
  unfold receiveSignal
  split
  · exact h
  split
  · split <;> exact h
  next hstop =>
    split
    · have hsent : Guarded (process.sendSignal 18).1 := h.send (by decide)
      dsimp only
      split <;> exact hsent
    · have hsent := h.send hstop
      dsimp only
      split <;> exact hsent

omit h in
theorem Guarded.deliver (h : Guarded machine.process) :
    Guarded (deliverPendingSignals machine).machine.process := by
  unfold deliverPendingSignals
  cases htake : machine.process.takePendingSignal with
  | none => exact h
  | some taken =>
    obtain ⟨m, _⟩ := taken
    obtain ⟨-, rfl⟩ := takePendingSignal_spec htake
    have hcleared : Guarded { machine.process with
        pendingSignals := machine.process.pendingSignals &&& ~~~(1#64 <<< m.val) } := by
      refine ⟨h.1, fun n hn hpending => h.2 n hn ?_⟩
      rw [Pending, getLsbD_clear, Bool.and_eq_true] at hpending
      exact hpending.1
    dsimp only
    split
    · exact hcleared
    · split <;> exact hcleared
    · simp only [enterHandler]
      split <;> exact hcleared

end

theorem GuardedMachine.step (h : GuardedMachine machine) (hprudent : Prudent machine action)
    (hstep : step machine action = some next) : GuardedMachine next := by
  cases step_moves hstep with
  | quiet hproc hphase =>
    exact ⟨hproc ▸ h.1, fun mask hmask => absurd hmask (hphase mask)⟩
  | call heffect =>
    cases heffect with
    | action m action hsets hproc hphase =>
      refine ⟨hproc ▸ ⟨fun n hn => ?_, h.1.2⟩, by simp [hphase]⟩
      have hne : n ≠ m := fun heq => hprudent.1 rfl m (heq ▸ hn) hsets
      exact ⟨by simpa [hne] using (h.1.1 n hn).1, (h.1.1 n hn).2⟩
    | block set hproc hphase => exact ⟨hproc ▸ h.1.block set, by simp [hphase]⟩
    | suspend set hproc hphase =>
      refine ⟨hproc ▸ h.1.mask set, fun oldMask hold n hn => ?_⟩
      obtain rfl := Phase.suspended.inj (hphase.symm.trans hold)
      exact (h.1.1 n hn).2
    | stack stack onStack hproc hphase => exact ⟨hproc ▸ h.1, by simp [hphase]⟩
  | wake hphase =>
    exact ⟨⟨fun n hn => ⟨(h.1.1 n hn).1, h.2 _ hphase n hn⟩, h.1.2⟩, by simp [wakeUp]⟩
  | deliver hproc hphase =>
    exact ⟨hproc ▸ h.1.deliver, fun mask hmask => absurd hmask (hphase mask)⟩
  | signal signum => exact ⟨h.1.receive signum, h.2⟩

/-- A terminating delivery took the lowest pending signal at its default. -/
theorem lowestPending_of_terminated (h : (deliverPendingSignals machine).outcome = .terminated n) :
    machine.process.LowestPending n ∧ machine.process.signalHandlers n = .default ∧
      ¬ (n = sigchld ∨ n = sigurg) := by
  unfold deliverPendingSignals at h
  cases htake : machine.process.takePendingSignal with
  | none => simp [htake] at h
  | some taken =>
    obtain ⟨_, _⟩ := taken
    obtain ⟨hlowest, rfl⟩ := takePendingSignal_spec htake
    simp only [htake] at h
    split at h
    · cases h
    next hdefault =>
      split at h
      · cases h
      next hne =>
        cases h
        exact ⟨hlowest, hdefault, hne⟩
    · cases h

/-- In a run that sets no action for SIGKILL or SIGSTOP and delivers none of the signals
the code has no case for at its default, the two keep their defaults unblocked, no spared
signal terminates the process and SIGCONT resumes it. -/
theorem defaults_kept_of_prudent (machine : Machine) (actions : List Action)
    (hstart : GuardedMachine machine) (hprudent : Along step Prudent machine actions) :
    Along step KeepsDefaults machine actions := by
  refine along_of_invariant (I := GuardedMachine) (fun _ _ _ => GuardedMachine.step)
    (fun machine action h hprudent next hstep => ?_) actions machine hstart hprudent
  refine ⟨(h.step hprudent hstep).1.1, ?_, ?_⟩
  · rintro rfl n hspared hterminated
    obtain ⟨hlowest, hdefault, hne⟩ := lowestPending_of_terminated hterminated
    have hcase := hprudent.2 rfl n hlowest hdefault
    have hquiet : ¬ (n.val = 0 ∨ n.val = 19) := fun hn => h.1.2 n hn hlowest.1
    have hchld : n.val ≠ 17 := fun heq => hne (.inl (Fin.ext heq))
    have hurg : n.val ≠ 23 := fun heq => hne (.inr (Fin.ext heq))
    simp only [spared, List.mem_cons, List.not_mem_nil, or_false] at hspared hcase
    omega
  · rintro rfl hstopped
    cases hstep
    simp [receiveSignal, sendSignal, signalCount, hstopped]

/-- A process at the end of a system call, every disposition the default. -/
def returningDefault : Machine := { blockingUsr1 with phase := .returning }

theorem guardedMachine_returningDefault : GuardedMachine returningDefault := by
  refine ⟨⟨fun n _ => ⟨rfl, ?_⟩, fun n _ => ?_⟩, by simp [returningDefault]⟩ <;>
    simp [Masked, Pending, returningDefault, blockingUsr1, new]

theorem defaults_kept_after_stop :
    Along step KeepsDefaults returningDefault [.signal 19, .signal 18, .signal 17, .deliver] := by
  refine defaults_kept_of_prudent _ _ guardedMachine_returningDefault
    ⟨by simp [Prudent], by simp [Prudent], by simp [Prudent], ⟨by simp, fun _ => ?_⟩, trivial⟩
  decide +kernel

/-- SIGSTOP and then SIGCONT: the continued process is terminated by SIGCONT. -/
theorem sigcont_terminates :
    ¬ Along step KeepsDefaults returningDefault [.signal 19, .signal 18, .deliver] := by
  intro h
  have hdeliver := ((h.tail rfl).tail rfl).head _ rfl
  exact hdeliver.2.1 rfl 18 (by decide) (by decide +kernel)

end Bazzulto.Signals
