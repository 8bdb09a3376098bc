/-
  Signals/Context.lean --- what a handled signal leaves of the interrupted context.

  `deliver_pending_signals` saves the PC and PSTATE below the stack it chooses and
  overwrites x0, x30 and the stack pointer; the trampoline's `sys_sigreturn` takes
  the two words back and leaves the stack 32 bytes higher.  The general registers
  are saved nowhere, x0 becomes the return value of `sys_sigreturn`, and a stack
  that was exchanged is not exchanged back.
-/
import Bazzulto.Signals.Privilege

set_option autoImplicit false

namespace Bazzulto.Signals

open Foundation List Function Process UserMemory

variable {machine returned : Machine} {n : Fin 64} {va : BitVec 64} {onStack : Bool}

/-! ## Words in user memory -/

namespace UserMemory

variable {address first : BitVec 64} {memory : UserMemory} {bytes : List UInt8}

theorem range_succ (address : BitVec 64) (count : Nat) :
    range address (count + 1) = address :: range (address + 1#64) count := by
  simp only [range, range_succ_eq_map, map_cons, map_map]
  refine congrArg₂ _ (by simp) (map_congr_left fun i _ => ?_)
  rw [comp_apply, Nat.succ_eq_add_one, Nat.add_comm, BitVec.ofNat_add, BitVec.add_assoc]

theorem mem_range {count : Nat} :
    address ∈ range first count ↔ ∃ i < count, address = first + BitVec.ofNat 64 i := by
  simp [range, eq_comm]

theorem writeBytes_of_not_mem (h : address ∉ range first bytes.length) :
    memory.writeBytes first bytes address = memory address := by
  induction bytes generalizing memory first with
  | nil => rfl
  | cons byte rest ih =>
    rw [length_cons, range_succ, mem_cons, not_or] at h
    rw [writeBytes, ih h.2, update_of_ne h.1]

theorem map_range_writeBytes (memory : UserMemory) (first : BitVec 64) (h : bytes.length ≤ 2 ^ 64) :
    (range first bytes.length).map (memory.writeBytes first bytes) = bytes := by
  induction bytes generalizing memory first with
  | nil => rfl
  | cons byte rest ih =>
    rw [length_cons] at h
    rw [length_cons, range_succ, map_cons, writeBytes, ih _ _ (by omega)]
    have hnot : first ∉ range (first + 1#64) rest.length := by
      rw [mem_range]
      bv_omega
    rw [writeBytes_of_not_mem hnot, update_self]

theorem readU64_writeU64 (memory : UserMemory) (address value : BitVec 64) :
    (memory.writeU64 address value).readU64 address = value := by
  have hbytes := map_range_writeBytes memory address
    (show (leBytes 8 value.toNat).length ≤ 2 ^ 64 by simp)
  rw [leBytes_length] at hbytes
  rw [readU64, writeU64, hbytes, leValue_leBytes]
  rw [Nat.mod_eq_of_lt (by omega), BitVec.ofNat_toNat, BitVec.setWidth_eq]

theorem readU64_congr {memory' : UserMemory}
    (h : ∀ byte ∈ range address 8, memory byte = memory' byte) :
    memory.readU64 address = memory'.readU64 address := by
  rw [readU64, readU64, map_congr_left h]

end UserMemory

/-! ## A handled signal -/

/-- The interrupted context: the general registers, the stack pointer, the PC and
PSTATE. -/
def SameContext (frame frame' : ExceptionFrame) : Prop :=
  frame.x = frame'.x ∧ frame.sp = frame'.sp ∧ frame.elr = frame'.elr ∧ frame.spsr = frame'.spsr

/-- The state in which the handler of the delivered signal starts. -/
def handlerEntry (machine : Machine) : Machine :=
  { (deliverPendingSignals machine).machine with phase := .user }

/-- A step, of user code or of the kernel for it, that writes below an address only. -/
def WritesBelow (sp : BitVec 64) (machine : Machine) (action : Action) : Prop :=
  ∀ next, step machine action = some next →
    ∀ address, sp ≤ address → next.memory address = machine.memory address

/-- The handler has returned to the trampoline, whose only instruction is `svc #23`. -/
def atTrampoline (machine : Machine) : Machine :=
  { machine with
    frame :=
      { machine.frame with elr := signalTrampolineVa + 4#64, esr := 0x56000017#64 } }

section

variable (hlowest : machine.process.LowestPending n)
  (hhandler : machine.process.signalHandlers n = .handler va onStack)
include hlowest hhandler

/-- A caught signal redirects the frame to its handler. -/
theorem deliverPendingSignals_of_handler :
    (handlerEntry machine).frame.sp = baseSp machine onStack - 32#64 ∧
      (handlerEntry machine).memory =
        (machine.memory.writeU64 (baseSp machine onStack - 32#64) machine.frame.elr).writeU64
          (baseSp machine onStack - 32#64 + 8#64) machine.frame.spsr := by
  obtain ⟨process, htake⟩ := takePendingSignal_of_lowestPending hlowest
  have hproc := (takePendingSignal_spec htake).2
  have hcaught : process.signalHandlers n = .handler va onStack := by
    rw [hproc]
    exact hhandler
  have hbase : baseSp { machine with process } onStack = baseSp machine onStack := by
    rw [hproc]
    rfl
  simp [handlerEntry, deliverPendingSignals, htake, hcaught, enterHandler, hbase]

/-- What a delivery has saved is still there when the handler returns. -/
theorem saved_words_kept {actions : List Action} (hfits : SignalFrameFits machine)
    (hbelow : Along step (WritesBelow (handlerEntry machine).frame.sp) (handlerEntry machine)
      actions) (hrun : run step (handlerEntry machine) actions = some returned) :
    returned.memory.readU64 (baseSp machine onStack - 32#64) = machine.frame.elr ∧
      returned.memory.readU64 (baseSp machine onStack - 32#64 + 8#64) = machine.frame.spsr := by
  obtain ⟨hsp, hmemory⟩ := deliverPendingSignals_of_handler hlowest hhandler
  have hfits := hfits n va onStack hlowest hhandler
  rw [hsp] at hbelow
  generalize baseSp machine onStack - 32#64 = sp at hmemory hfits hbelow ⊢
  have hkept : ∀ address, sp ≤ address →
      returned.memory address = (handlerEntry machine).memory address := by
    refine run_invariant (I := fun state => ∀ address, sp ≤ address →
      state.memory address = (handlerEntry machine).memory address) ?_ actions _ returned
      (fun _ _ => rfl) hbelow hrun
    intro _ _ next hstate hwrites hstep address haddress
    rw [hwrites next hstep address haddress, hstate address haddress]
  -- the frame does not wrap around, so all of it is at or above the stack pointer
  have hword : ∀ offset, offset ≤ 8 → ∀ byte ∈ range (sp + BitVec.ofNat 64 offset) 8,
      sp ≤ byte := by
    intro _ _ byte hbyte
    obtain ⟨i, hi, rfl⟩ := mem_range.mp hbyte
    bv_omega
  constructor
  · rw [readU64_congr fun byte hbyte => hkept byte
      (hword 0 (by omega) byte (by simpa using hbyte)), hmemory]
    refine (readU64_congr fun byte hbyte => writeBytes_of_not_mem ?_).trans
      (readU64_writeU64 ..)
    intro hother
    rw [leBytes_length] at hother
    obtain ⟨_, _, rfl⟩ := mem_range.mp hbyte
    obtain ⟨_, _⟩ := mem_range.mp hother
    bv_omega
  · rw [readU64_congr fun byte hbyte => hkept byte (hword 8 (by omega) byte hbyte),
      hmemory, readU64_writeU64]

end

/-- What `sys_sigreturn` makes of the context, from where a handler returned to. -/
theorem step_atTrampoline (huser : returned.phase = .user) :
    step (atTrampoline returned) .svc = some (dispatch (atTrampoline returned) .sigreturn) := by
  have hcall : requestedCall (atTrampoline returned) = some .sigreturn := by
    simp only [requestedCall, atTrampoline]
    decide
  simp only [step, hcall]
  exact if_pos huser

/-- The context that a caught signal interrupts is restored exactly if x0 is 0, the
handler returns with the other general registers it was interrupted with, and the stack
was not exchanged. -/
theorem context_restored_iff {machine returned : Machine} {n : Fin 64} {va : BitVec 64}
    {onStack : Bool} {actions : List Action} (hlowest : machine.process.LowestPending n)
    (hhandler : machine.process.signalHandlers n = .handler va onStack)
    (hfits : SignalFrameFits machine)
    (hbelow : Along step (WritesBelow (handlerEntry machine).frame.sp) (handlerEntry machine)
      actions) (hrun : run step (handlerEntry machine) actions = some returned)
    (huser : returned.phase = .user) (hsp : returned.frame.sp = (handlerEntry machine).frame.sp) :
    ∃ resumed, step (atTrampoline returned) .svc = some resumed ∧
      (SameContext resumed.frame machine.frame ↔
        machine.frame.x 0 = 0#64 ∧ (∀ i, i ≠ 0 → returned.frame.x i = machine.frame.x i) ∧
          baseSp machine onStack = machine.frame.sp) := by
  refine ⟨_, step_atTrampoline huser, ?_⟩
  obtain ⟨helr, hspsr⟩ := saved_words_kept hlowest hhandler hfits hbelow hrun
  rw [(deliverPendingSignals_of_handler hlowest hhandler).1] at hsp
  have hstack : baseSp machine onStack - 32#64 + 32#64 = baseSp machine onStack := by
    bv_omega
  have hregisters : update returned.frame.x 0 0#64 = machine.frame.x ↔
      machine.frame.x 0 = 0#64 ∧ ∀ i, i ≠ 0 → returned.frame.x i = machine.frame.x i := by
    rw [update_eq_iff]
    exact and_congr_left' eq_comm
  have hzero : BitVec.ofInt 64 0 = 0#64 := by decide
  simp only [SameContext, dispatch, finish, setReturnValue, sysSigreturn, atTrampoline, hsp,
    helr, hspsr, hstack, and_true, hzero]
  rw [hregisters, and_assoc]

/-- A process whose system call has returned 7, with SIGUSR1 (10) pending and caught. -/
def interruptedCall : Machine where
  process :=
    { new ⟨2, 1⟩ none with
      state := .running
      pendingSignals := 0x400#64
      signalHandlers := fun n => if n.val = 10 then .handler 0x6000#64 false else .default }
  frame :=
    { x := fun i => if i.val = 0 then 7#64 else 0#64
      sp := 0x10000#64, elr := 0x4000#64, spsr := 0#64, esr := 0x56000001#64 }
  memory := fun _ => 0
  phase := .returning

theorem signalFrameFits_interruptedCall : SignalFrameFits interruptedCall := by
  intro _ _ onStack _ _
  have hbase : baseSp interruptedCall onStack = 0x10000#64 := by
    cases onStack <;> rfl
  rw [hbase]
  decide

/-- The theorem at this process, with a handler that returns at once. -/
theorem context_restored_iff_at_interruptedCall :
    interruptedCall.process.LowestPending 10 ∧ SignalFrameFits interruptedCall ∧
      ∃ resumed, step (atTrampoline (handlerEntry interruptedCall)) .svc = some resumed ∧
        (SameContext resumed.frame interruptedCall.frame ↔ interruptedCall.frame.x 0 = 0#64 ∧
            (∀ i, i ≠ 0 → (handlerEntry interruptedCall).frame.x i = interruptedCall.frame.x i) ∧
            baseSp interruptedCall false = interruptedCall.frame.sp) := by
  have hlowest : interruptedCall.process.LowestPending 10 := by decide +kernel
  have hhandler : interruptedCall.process.signalHandlers 10 = .handler 0x6000#64 false := rfl
  exact ⟨hlowest, signalFrameFits_interruptedCall,
    context_restored_iff hlowest hhandler signalFrameFits_interruptedCall (along_nil _ _)
      (run_nil _) rfl rfl⟩

/-- With that handler the result of the system call is lost. -/
theorem handled_signal_loses_result :
    ∃ resumed, step (atTrampoline (handlerEntry interruptedCall)) .svc = some resumed ∧
      interruptedCall.frame.x 0 = 7#64 ∧ resumed.frame.x 0 = 0#64 ∧
        ¬ SameContext resumed.frame interruptedCall.frame := by
  refine ⟨_, step_atTrampoline rfl, rfl, rfl, fun hsame => ?_⟩
  exact absurd (congrFun hsame.1 0) (by decide +kernel)

end Bazzulto.Signals
