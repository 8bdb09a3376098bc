/-
  Signals/Mask.lean --- which signals `deliver_pending_signals` takes, and when
  that agrees with the signal mask.

  `take_pending_signal` removes the lowest pending signal whatever the mask
  says.  A run therefore respects the mask exactly when, at every delivery, the
  lowest pending signal happens to be unmasked (or is SIGKILL or SIGSTOP).
-/
import Bazzulto.Signals.Machine

set_option autoImplicit false

namespace Bazzulto.Signals

open Foundation Option Process

variable {machine next : Machine} {n : Fin 64} {process : Process} {action : Action}

/-! ## What a delivery does to the pending set -/

/-- The signal an outcome is about. -/
def Outcome.signal : Outcome → Option (Fin 64)
  | .nothing => none
  | .ignored signum | .terminated signum | .entered signum => some signum

/-- A delivery takes the lowest pending signal: its outcome is about that
signal and exactly that pending bit is cleared. -/
theorem deliverPendingSignals_of_lowestPending (h : machine.process.LowestPending n) :
    (deliverPendingSignals machine).outcome.signal = some n ∧
      (deliverPendingSignals machine).machine.process.pendingSignals =
        machine.process.pendingSignals &&& ~~~(1#64 <<< n.val) := by
  obtain ⟨process', htake⟩ := takePendingSignal_of_lowestPending h
  have hproc := (takePendingSignal_spec htake).2
  have hpending : process'.pendingSignals =
      machine.process.pendingSignals &&& ~~~(1#64 <<< n.val) := by
    rw [hproc]
  unfold deliverPendingSignals
  rw [htake]
  dsimp only
  cases haction : process'.signalHandlers n with
  | ignore => exact ⟨rfl, hpending⟩
  | default =>
    dsimp only
    split
    · exact ⟨rfl, hpending⟩
    · exact ⟨rfl, hpending⟩
  | handler va onStack =>
    refine ⟨rfl, ?_⟩
    simp only [enterHandler]
    split
    · exact hpending
    · exact hpending

/-! ## The other steps keep the pending set -/

/-- What a signal system call can do to the process: set a disposition, add to the mask,
replace it until a signal comes, or change the alternate stack. -/
inductive Effect (machine next : Machine) : Prop where
  | action (n : Fin 64) (action : SignalAction) (hcall : SetsAction machine n)
      (hprocess : next.process = { machine.process with
        signalHandlers := Function.update machine.process.signalHandlers n action })
      (hphase : next.phase = .returning)
  | block (set : BitVec 64)
      (hprocess : next.process = { machine.process with
        signalMask := machine.process.signalMask ||| set &&& ~~~unblockableSignalsMask })
      (hphase : next.phase = .returning)
  | suspend (set : BitVec 64)
      (hprocess : next.process = { machine.process with
        signalMask := set &&& ~~~unblockableSignalsMask })
      (hphase : next.phase = .suspended machine.process.signalMask)
  | stack (stack : Option SignalStack) (onStack : Bool)
      (hprocess : next.process = { machine.process with
        signalStack := stack, onSignalStack := onStack })
      (hphase : next.phase = .returning)

theorem setSignalHandler_eq {process' : Process} {action : SignalAction}
    (h : process.setSignalHandler n action = .ok process') :
    process' = { process with
      signalHandlers := Function.update process.signalHandlers n action } := by
  unfold setSignalHandler at h
  split at h
  · cases h
  cases action with
  | handler va onStack =>
    dsimp only at h
    split at h <;> cases h
    rfl
  | default | ignore => cases h; rfl

theorem dispatch_effect {call : SignalCall} (hcall : requestedCall machine = some call) :
    Effect machine (dispatch machine call) := by
  cases call with
  | sigaction =>
    simp only [dispatch, sysSigaction]
    split
    · exact .stack _ _ rfl rfl
    next hrange =>
      simp only [signalCount] at hrange
      split
      next hnew =>
        simp only [Bool.and_eq_true, bne_iff_ne] at hnew
        split
        next hset =>
          exact .action ⟨(argI32 (machine.frame.x 0)).toNat, by omega⟩ _
            ⟨hcall, (Int.toNat_of_nonneg (by omega)).symm, hnew⟩ (setSignalHandler_eq hset) rfl
        · exact .stack _ _ rfl rfl
      · exact .stack _ _ rfl rfl
  | sigreturn => exact .stack _ _ rfl rfl
  | sigprocmask =>
    simp only [dispatch, sysSigprocmask]
    split
    · exact .block _ rfl rfl
    · exact .stack _ _ rfl rfl
  | sigpending =>
    simp only [dispatch, sysSigpending]
    split <;> exact .stack _ _ rfl rfl
  | sigsuspend =>
    simp only [dispatch, sysSigsuspend]
    split_ifs
    · exact .suspend _ rfl rfl
    · exact .stack _ _ rfl rfl
  | sigaltstack =>
    simp only [dispatch, sysSigaltstack]
    split_ifs <;> exact .stack _ _ rfl rfl

/-- What a step can do to the process. -/
inductive Moves (machine : Machine) : Action → Machine → Prop where
  | quiet {action : Action} {next : Machine} (hprocess : next.process = machine.process)
      (hphase : ∀ mask, next.phase ≠ .suspended mask) : Moves machine action next
  | call {next : Machine} (heffect : Effect machine next) : Moves machine .svc next
  | wake {oldMask : BitVec 64} (hphase : machine.phase = .suspended oldMask) :
      Moves machine .wake (wakeUp machine oldMask)
  | deliver {next : Machine}
      (hprocess : next.process = (deliverPendingSignals machine).machine.process)
      (hphase : ∀ mask, next.phase ≠ .suspended mask) : Moves machine .deliver next
  | signal (signum : Nat) :
      Moves machine (.signal signum)
        { machine with process := machine.process.receiveSignal signum }

theorem step_moves (hstep : step machine action = some next) : Moves machine action next := by
  cases action with
  | execute frame memory =>
    simp only [step, ite_none_right_eq_some, some.injEq] at hstep
    obtain ⟨hphase, rfl⟩ := hstep
    exact .quiet rfl (by simp [executeUser, hphase])
  | svc =>
    simp only [step, ite_none_right_eq_some, map_eq_some_iff] at hstep
    obtain ⟨_, _, hcall, rfl⟩ := hstep
    exact .call (dispatch_effect hcall)
  | otherSyscall returnValue =>
    simp only [step, ite_none_right_eq_some, some.injEq] at hstep
    obtain ⟨_, rfl⟩ := hstep
    exact .quiet rfl (by simp [finish])
  | wake =>
    simp only [step] at hstep
    split at hstep
    next hphase =>
      simp only [ite_none_left_eq_some, some.injEq] at hstep
      obtain ⟨_, rfl⟩ := hstep
      exact .wake hphase
    · cases hstep
  | deliver =>
    simp only [step, afterDelivery] at hstep
    split at hstep
    · cases hstep
      split
      next hexited => exact .deliver rfl (by simp [hexited])
      · exact .deliver rfl (by simp)
    · cases hstep
      split
      next hexited => exact .deliver rfl (by simp [hexited])
      · exact .deliver rfl (by simp [finish])
    · cases hstep
  | signal signum =>
    cases hstep
    exact .signal signum

theorem sendSignal_pending (signum : Nat) (h : process.Pending n) :
    (process.sendSignal signum).1.Pending n := by
  unfold sendSignal
  split
  · exact h
  · simp only [Pending, BitVec.getLsbD_or] at h ⊢
    rw [h, Bool.true_or]

theorem receiveSignal_pending (signum : Nat) (h : process.Pending n) :
    (process.receiveSignal signum).Pending n := by
  unfold receiveSignal
  split
  · exact h
  split
  · split <;> exact h
  split
  · dsimp only
    split <;> exact sendSignal_pending 18 h
  · dsimp only
    split <;> exact sendSignal_pending signum h

theorem step_pending (hstep : step machine action = some next) (haction : action ≠ .deliver)
    (h : machine.process.Pending n) : next.process.Pending n := by
  cases step_moves hstep with
  | quiet hproc => rwa [hproc]
  | call heffect => cases heffect <;> simpa [Pending, *] using h
  | wake => exact h
  | deliver => exact absurd rfl haction
  | signal signum => exact receiveSignal_pending signum h

/-! ## Runs that respect the mask -/

/-- SIGKILL and SIGSTOP, which no mask blocks. -/
def Unblockable (n : Fin 64) : Prop := n = sigkill ∨ n = sigstop

/-- The step takes no blocked signal: a blocked signal that is pending is still
pending afterwards, no handler is entered for a blocked signal and none
terminates the process. -/
def RespectsMask (machine : Machine) (action : Action) : Prop :=
  ∀ next, step machine action = some next →
    ∀ n : Fin 64, ¬ Unblockable n → machine.process.Masked n →
      (machine.process.Pending n → next.process.Pending n) ∧
      (action = .deliver → (deliverPendingSignals machine).outcome ≠ .entered n ∧
        (deliverPendingSignals machine).outcome ≠ .terminated n)

/-- The lowest pending signal, if the step is about to deliver it, is not
blocked. -/
def LowestUnmasked (machine : Machine) (action : Action) : Prop :=
  action = .deliver → (step machine action).isSome = true →
    ∀ n : Fin 64, machine.process.LowestPending n → machine.process.Masked n → Unblockable n

/-- A delivery that finds the lowest pending signal unblocked takes no blocked
signal. -/
theorem respectsMask_of_lowestUnmasked (h : LowestUnmasked machine action) :
    RespectsMask machine action := by
  intro _ hstep n hblockable hmasked
  obtain rfl | haction := eq_or_ne action .deliver
  · have hlowest := h rfl (by rw [hstep]; rfl)
    cases htake : machine.process.takePendingSignal with
    | none =>
      refine ⟨fun hpending => ?_, fun _ => ?_⟩
      · exact absurd hpending (takePendingSignal_eq_none htake n)
      · simp [deliverPendingSignals, htake]
    | some taken =>
      obtain ⟨m, _⟩ := taken
      have hm := (takePendingSignal_spec htake).1
      -- The signal taken is not the blocked one.
      have hne : n ≠ m := by
        rintro rfl
        exact hblockable (hlowest n hm hmasked)
      obtain ⟨hsignal, hcleared⟩ := deliverPendingSignals_of_lowestPending hm
      refine ⟨fun hpending => ?_, fun _ => ⟨?_, ?_⟩⟩
      · rw [Pending, (step_deliver hstep).1, hcleared, getLsbD_clear]
        rw [decide_eq_true hne, Bool.and_true]
        exact hpending
      · intro hentered
        rw [hentered] at hsignal
        exact hne (some.inj hsignal)
      · intro hterminated
        rw [hterminated] at hsignal
        exact hne (some.inj hsignal)
  · exact ⟨step_pending hstep haction, fun heq => absurd heq haction⟩

theorem lowestUnmasked_of_respectsMask (h : RespectsMask machine action) :
    LowestUnmasked machine action := by
  rintro rfl henabled n hlowest hmasked
  by_contra hblockable
  obtain ⟨next, hstep⟩ := isSome_iff_exists.mp henabled
  have hkept := (h next hstep n hblockable hmasked).1 hlowest.1
  rw [Pending, (step_deliver hstep).1,
    (deliverPendingSignals_of_lowestPending hlowest).2] at hkept
  simp at hkept

/-- A run respects the signal mask at every step exactly when, at each of its
deliveries, the lowest pending signal is unmasked or cannot be masked. -/
theorem mask_respected_iff_lowest_unmasked (machine : Machine) (actions : List Action) :
    Along step RespectsMask machine actions ↔ Along step LowestUnmasked machine actions := by
  refine along_congr_of_invariant (I := fun _ => True) ?_ ?_ actions machine trivial
  · intro _ _ _ _ _ _
    trivial
  · intro _ _ _
    exact ⟨lowestUnmasked_of_respectsMask, respectsMask_of_lowestUnmasked⟩

/-- A process about to call `sigprocmask` with a set, at 0x5000, that holds only
SIGUSR1 (10); every disposition is the default. -/
def blockingUsr1 : Machine where
  process := { new ⟨2, 1⟩ none with state := .running }
  frame :=
    { x := fun i => if i.val = 1 then 0x5000#64 else 0#64
      sp := 0x10000#64, elr := 0x4000#64, spsr := 0#64, esr := 0x5600002B#64 }
  memory := fun address => if address = 0x5001#64 then 4 else 0
  phase := .user

/-- The process blocks SIGUSR1, the signal is sent, and the delivery on the way
back to user space takes it although it is blocked. -/
theorem blockingUsr1_takes_blocked_signal :
    ¬ Along step RespectsMask blockingUsr1 [.svc, .signal 10, .deliver] := by
  intro h
  have hdeliver := ((h.tail rfl).tail rfl).head
  have hunblockable := lowestUnmasked_of_respectsMask hdeliver rfl rfl 10
    (by decide +kernel) (by decide +kernel)
  rcases hunblockable with hkill | hstop
  · cases hkill
  · cases hstop

/-! ## No signal is lost -/

/-- A pending signal that a step clears is the one that the step delivers. -/
theorem delivers_of_cleared (hstep : step machine action = some next)
    (hpending : machine.process.Pending n) (hcleared : ¬ next.process.Pending n) :
    action = .deliver ∧ (deliverPendingSignals machine).outcome.signal = some n := by
  have haction : action = .deliver := by
    by_contra hne
    exact hcleared (step_pending hstep hne hpending)
  subst haction
  refine ⟨rfl, ?_⟩
  cases htake : machine.process.takePendingSignal with
  | none => exact absurd hpending (takePendingSignal_eq_none htake n)
  | some taken =>
    have htaken := deliverPendingSignals_of_lowestPending (takePendingSignal_spec htake).1
    obtain heq | hne := eq_or_ne n taken.1
    · rw [htaken.1, heq]
    · rw [Pending, (step_deliver hstep).1, htaken.2, getLsbD_clear, decide_eq_true hne,
        Bool.and_true] at hcleared
      exact absurd hpending hcleared

/-- In every run a signal stays pending until a delivery takes it. -/
theorem pending_until_delivered (machine final : Machine) (actions : List Action) (n : Fin 64)
    (hpending : machine.process.Pending n) (hrun : run step machine actions = some final) :
    final.process.Pending n ∨
      ∃ earlier later taking, actions = earlier ++ .deliver :: later ∧
        run step machine earlier = some taking ∧
        (deliverPendingSignals taking).outcome.signal = some n := by
  induction actions generalizing machine with
  | nil => exact .inl (some.inj hrun ▸ hpending)
  | cons action rest ih =>
    obtain ⟨next, hstep, hrest⟩ := run_cons_eq_some hrun
    by_cases hkept : next.process.Pending n
    · rcases ih next hkept hrest with hfinal | ⟨earlier, later, taking, rfl, hearlier, htaken⟩
      · exact .inl hfinal
      · exact .inr ⟨action :: earlier, later, taking, rfl, (run_cons hstep).trans hearlier, htaken⟩
    · obtain ⟨rfl, htaken⟩ := delivers_of_cleared hstep hpending hkept
      exact .inr ⟨[], rest, machine, rfl, rfl, htaken⟩

/-- SIGUSR1 has been sent, and SIGINT is ignored. -/
def sentUsr1 : Machine :=
  { blockingUsr1 with
    process := { blockingUsr1.process.receiveSignal 10 with
      signalHandlers := fun n => if n.val = 2 then .ignore else .default } }

/-- SIGUSR1 stays pending while SIGINT is delivered. -/
theorem pending_until_delivered_usr1 :
    ∃ final, run step sentUsr1 [.svc, .signal 2, .deliver] = some final ∧
      final.process.Pending 10 := by
  refine ⟨_, rfl, (pending_until_delivered sentUsr1 _ [.svc, .signal 2, .deliver] 10 ?_
    rfl).resolve_right ?_⟩
  · decide +kernel
  · rintro ⟨earlier, later, taking, hactions, hrun, htaken⟩
    obtain rfl : earlier = [.svc, .signal 2] := by
      simp [List.cons_eq_append_iff] at hactions
      exact hactions.1
    obtain rfl := Option.some.inj hrun
    exact absurd htaken (by decide +kernel)

end Bazzulto.Signals
