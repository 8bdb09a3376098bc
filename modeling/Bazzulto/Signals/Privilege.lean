/-
  Signals/Privilege.lean --- the exception level a process returns to, and the
  addresses the kernel touches through its stack pointer.

  `sys_sigreturn` takes PSTATE from the user stack unchecked, and neither it nor
  the handler branch of `deliver_pending_signals` checks the stack pointer.  A
  run keeps the process at EL0, and the kernel out of its own half of the
  address space, exactly when the user code never sets either up that way.
-/
import Bazzulto.Signals.Machine

set_option autoImplicit false

namespace Bazzulto.Signals

open Foundation Option Process BitVec

variable {machine next : Machine}

/-! ## The bytes of a signal frame -/

/-- The sixteen bytes of a saved PC and PSTATE lie below the limit exactly when
the frame ends there; a frame that wraps around starts above it. -/
theorem range_below_limit_iff (sp : BitVec 64) :
    (∀ address ∈ UserMemory.range sp 8 ++ UserMemory.range (sp + 8#64) 8,
      address < userAddrLimit) ↔ sp.toNat + 16 ≤ userAddrLimit.toNat := by
  simp only [UserMemory.range, List.mem_append, List.mem_map, List.mem_range, userAddrLimit]
  constructor
  · intro h
    have hfirst := h sp (.inl ⟨0, by decide, by simp⟩)
    have hlast := h (sp + 8#64 + 7#64) (.inr ⟨7, by decide, rfl⟩)
    bv_omega
  · intro h _ haddress
    rcases haddress with ⟨i, hi, rfl⟩ | ⟨_, _, rfl⟩
    · bv_omega
    · bv_omega

/-! ## Deliveries -/

section

variable (machine : Machine)

/-- Where the stack pointer of a handler would start, read off the state before
the delivery. -/
def SignalFrameFits : Prop :=
  ∀ (n : Fin 64) (va : BitVec 64) (onStack : Bool), machine.process.LowestPending n →
    machine.process.signalHandlers n = .handler va onStack →
      (baseSp machine onStack - 32#64).toNat + 16 ≤ userAddrLimit.toNat

/-- The bytes a delivery writes are below the limit exactly when the frame of
the handler it is about to enter fits there. -/
theorem deliver_accesses_iff :
    (∀ address ∈ (deliverPendingSignals machine).accesses,
      address < userAddrLimit) ↔ SignalFrameFits machine := by
  cases htake : machine.process.takePendingSignal with
  | none =>
    have hnone := takePendingSignal_eq_none htake
    simp only [deliverPendingSignals, htake]
    refine ⟨fun _ n _ _ hlowest _ => absurd hlowest.1 (hnone n), ?_⟩
    intro _ _ haddress
    cases haddress
  | some taken =>
    obtain ⟨n, process'⟩ := taken
    obtain ⟨hlowest, hproc⟩ := takePendingSignal_spec htake
    -- Taking the signal leaves the fields that `base_sp` is computed from.
    have hhandlers : process'.signalHandlers = machine.process.signalHandlers := by
      rw [hproc]
    have hbase : ∀ onStack, baseSp { machine with process := process' } onStack =
          baseSp machine onStack := by
      intro onStack
      rw [hproc]
      rfl
    -- Only the disposition of `n` matters.
    have hfits : SignalFrameFits machine ↔
        ∀ va onStack, machine.process.signalHandlers n = .handler va onStack →
          (baseSp machine onStack - 32#64).toNat + 16 ≤ userAddrLimit.toNat := by
      constructor
      · intro h va onStack haction
        exact h n va onStack hlowest haction
      · intro h _ va onStack hm haction
        rw [hm.unique hlowest] at haction
        exact h va onStack haction
    rw [hfits]
    simp only [deliverPendingSignals, htake, hhandlers]
    cases haction : machine.process.signalHandlers n with
    | ignore => simp
    | default =>
      simp only [reduceCtorEq]
      split <;> simp
    | handler va onStack =>
      simp only [enterHandler, hbase]
      rw [range_below_limit_iff]
      constructor
      · intro h _ _ heq
        cases heq
        exact h
      · intro h
        exact h va onStack rfl

/-! ## Steps -/

/-- The addresses `deliver_pending_signals` and `sys_sigreturn` touch through the
stack pointer in one step. -/
def stackAccesses : Action → List (BitVec 64)
  | .deliver => (deliverPendingSignals machine).accesses
  | .svc =>
    if requestedCall machine = some .sigreturn then
      (sysSigreturn machine).accesses
    else []
  | _ => []

/-- After the step the frame still selects EL0, and everything the two functions
touched through the stack pointer is below the limit. -/
def StaysInUserSpace (action : Action) : Prop :=
  ∀ next, step machine action = some next → modeBits next.frame.spsr = 0#64 ∧
      ∀ address ∈ stackAccesses machine action, address < userAddrLimit

/-- What the user code must have set up: a handler about to be entered has its
signal frame below the limit, and so has a frame about to be returned from,
which must also hold an EL0 PSTATE. -/
def StackWellFormed (action : Action) : Prop :=
  (step machine action).isSome = true →
    match action with
    | .deliver => SignalFrameFits machine
    | .svc =>
      requestedCall machine = some .sigreturn → machine.frame.sp.toNat + 16 ≤ userAddrLimit.toNat ∧
          modeBits (machine.memory.readU64 (machine.frame.sp + 8#64)) = 0#64
    | _ => True

/-- The frame selects EL0. -/
def SelectsUser : Prop :=
  modeBits machine.frame.spsr = 0#64
  deriving Decidable

end

theorem finish_spsr (result : Machine × Int) :
    (finish result).frame.spsr = result.1.frame.spsr := rfl

/-- `sys_sigreturn` is the only signal system call that changes PSTATE. -/
theorem dispatch_spsr {call : SignalCall} (h : call ≠ .sigreturn) :
    (dispatch machine call).frame.spsr = machine.frame.spsr := by
  cases call with
  | sigaction =>
    rw [dispatch, finish_spsr, sysSigaction]
    split
    · rfl
    dsimp only
    split
    · split <;> rfl
    · rfl
  | sigreturn => exact absurd rfl h
  | sigprocmask =>
    rw [dispatch, finish_spsr, sysSigprocmask]
    dsimp only
    split <;> rfl
  | sigpending =>
    rw [dispatch, finish_spsr, sysSigpending]
    split <;> rfl
  | sigsuspend =>
    simp only [dispatch, sysSigsuspend]
    split
    next hsuspend =>
      simp only [ite_none_right_eq_some, some.injEq] at hsuspend
      obtain ⟨_, rfl⟩ := hsuspend
      rfl
    · rfl
  | sigaltstack =>
    rw [dispatch, finish_spsr, sysSigaltstack]
    dsimp only
    split_ifs <;> rfl

/-- A delivery step keeps PSTATE: only registers and the phase change after
`deliver_pending_signals`. -/
theorem step_deliver_spsr (hstep : step machine .deliver = some next) :
    next.frame.spsr = machine.frame.spsr := by
  rw [(step_deliver hstep).2]
  unfold deliverPendingSignals
  split
  · rfl
  split
  · rfl
  · split <;> rfl
  · rfl

/-- The step is a `sys_sigreturn`. -/
def IsSigreturn (machine : Machine) (action : Action) : Prop :=
  action = .svc ∧ requestedCall machine = some .sigreturn

/-- Every step but `sys_sigreturn` keeps the exception level. -/
theorem step_modeBits {action : Action} (hstep : step machine action = some next)
    (haction : ¬ IsSigreturn machine action) :
    modeBits next.frame.spsr = modeBits machine.frame.spsr := by
  cases action with
  | execute frame memory =>
    simp only [step, ite_none_right_eq_some, some.injEq] at hstep
    obtain ⟨_, rfl⟩ := hstep
    -- the mode bits are not the user's to change
    simp only [executeUser, modeBits]
    ext i hi
    simp only [getElem_and, getElem_or, getElem_not]
    cases (0xF#64)[i] <;> simp
  | svc =>
    simp only [step, ite_none_right_eq_some, map_eq_some_iff] at hstep
    obtain ⟨_, call, hcall, rfl⟩ := hstep
    have hne : call ≠ .sigreturn := by
      rintro rfl
      exact haction ⟨rfl, hcall⟩
    rw [dispatch_spsr hne]
  | otherSyscall returnValue =>
    simp only [step, ite_none_right_eq_some, some.injEq] at hstep
    obtain ⟨_, rfl⟩ := hstep
    rfl
  | wake =>
    simp only [step] at hstep
    split at hstep
    · simp only [ite_none_left_eq_some, some.injEq] at hstep
      obtain ⟨_, rfl⟩ := hstep
      rfl
    · cases hstep
  | deliver => rw [step_deliver_spsr hstep]
  | signal signum =>
    simp only [step, some.injEq] at hstep
    subst hstep
    rfl

/-- A `sys_sigreturn` step ends in the PSTATE it finds on the stack. -/
theorem step_sigreturn_spsr (hstep : step machine .svc = some next)
    (hcall : requestedCall machine = some .sigreturn) :
    next.frame.spsr = machine.memory.readU64 (machine.frame.sp + 8#64) := by
  simp only [step, hcall, map_some, ite_none_right_eq_some, some.injEq] at hstep
  obtain ⟨_, rfl⟩ := hstep
  rfl

/-- A step from an EL0 frame stays in user space exactly when the user code set
its stack up for it. -/
theorem staysInUserSpace_iff (huser : SelectsUser machine) (action : Action) :
    StaysInUserSpace machine action ↔ StackWellFormed machine action := by
  cases hstep : step machine action with
  | none => simp [StaysInUserSpace, StackWellFormed, hstep]
  | some next =>
    have hstays : StaysInUserSpace machine action ↔ modeBits next.frame.spsr = 0#64 ∧
          ∀ address ∈ stackAccesses machine action, address < userAddrLimit := by
      simp [StaysInUserSpace, hstep]
    by_cases hsigreturn : IsSigreturn machine action
    · obtain ⟨rfl, hcall⟩ := hsigreturn
      rw [hstays, step_sigreturn_spsr hstep hcall]
      simp only [stackAccesses, hcall, sysSigreturn, if_true,
        range_below_limit_iff, StackWellFormed, hstep, isSome_some,
        true_implies]
      exact And.comm
    · rw [hstays, step_modeBits hstep hsigreturn,
        show modeBits machine.frame.spsr = 0#64 from huser]
      cases action with
      | deliver =>
        simp [stackAccesses, deliver_accesses_iff, StackWellFormed, hstep]
      | svc =>
        have hne : requestedCall machine ≠ some .sigreturn :=
          fun hcall => hsigreturn ⟨rfl, hcall⟩
        simp [stackAccesses, StackWellFormed, hne]
      | execute | otherSyscall | wake | signal => simp [stackAccesses, StackWellFormed]

/-- Starting at EL0, a run stays at EL0 with every access through the stack
pointer below the limit exactly when the stack is well formed at each delivery
to a handler and at each `sys_sigreturn`. -/
theorem user_space_kept_iff_stack_wellFormed (machine : Machine)
    (huser : SelectsUser machine) (actions : List Action) :
    Along step StaysInUserSpace machine actions ↔ Along step StackWellFormed machine actions := by
  refine along_congr_of_invariant (I := SelectsUser) ?_ ?_ actions machine huser
  · intro state action next _ hstays hstep
    exact (hstays next hstep).1
  · intro _ action hstate
    exact staysInUserSpace_iff hstate action

/-- A process about to call `sigreturn` with EL1h (5) as saved PSTATE. -/
def forgedFrame : Machine where
  process := { new ⟨2, 1⟩ none with state := .running }
  frame :=
    { x := fun _ => 0#64
      sp := 0x10000#64, elr := 0x4000#64, spsr := 0#64, esr := 0x56000017#64 }
  memory := fun address => if address = 0x10008#64 then 5 else 0
  phase := .user

/-- The theorem at a process that returns from a frame it never received. -/
theorem user_space_kept_iff_at_forgedFrame :
    SelectsUser forgedFrame ∧
      (Along step StaysInUserSpace forgedFrame [.svc] ↔
        Along step StackWellFormed forgedFrame [.svc]) :=
  ⟨by decide, user_space_kept_iff_stack_wellFormed forgedFrame (by decide) [.svc]⟩

/-- `sys_sigreturn` returns this process to EL1. -/
theorem forgedFrame_reaches_kernel_mode :
    SelectsUser forgedFrame ∧
      ¬ Along step StaysInUserSpace forgedFrame [.svc] := by
  refine ⟨by decide, fun h => ?_⟩
  have hmode := (h.head (dispatch forgedFrame .sigreturn) rfl).1
  exact absurd hmode (by decide +kernel)

end Bazzulto.Signals
