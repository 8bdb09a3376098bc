/-
  Signals/Machine.lean --- one process between user space and the signal code.

  Embeds kernel/src/systemcalls/signals.rs (`deliver_pending_signals` and the
  signal system calls) and the part of `dispatch` (systemcalls/mod.rs) that
  selects a handler, stores its return value in x0 and then delivers a signal.

  The memory of the process is a total function of the address, so an access to
  an unmapped page is not modelled as a fault.  Address arithmetic wraps, as in
  the release build.  Every access that `deliver_pending_signals` and
  `sys_sigreturn` make through the stack pointer is reported, byte by byte.
-/
import Bazzulto.Foundation.Bytes
import Bazzulto.Foundation.Run
import Bazzulto.Process.Basic

set_option autoImplicit false

namespace Bazzulto.Signals

open Foundation Function

/-! ## Registers and memory -/

/-- `ExceptionFrame`: the user registers saved at exception entry, and the syndrome that
says what the exception was. -/
structure ExceptionFrame where
  x : Fin 31 → BitVec 64
  sp : BitVec 64
  elr : BitVec 64
  spsr : BitVec 64
  esr : BitVec 64

/-- The byte-addressed memory the kernel reaches through user pointers. -/
abbrev UserMemory := BitVec 64 → UInt8

namespace UserMemory

/-- The addresses of the `count` bytes from `address` on. -/
def range (address : BitVec 64) (count : Nat) : List (BitVec 64) :=
  (List.range count).map (fun i => address + BitVec.ofNat 64 i)

/-- Store a list of bytes from `address` on. -/
def writeBytes (memory : UserMemory) (address : BitVec 64) :
    List UInt8 → UserMemory
  | [] => memory
  | byte :: rest =>
    writeBytes (update memory address byte) (address + 1#64) rest

section

variable (memory : UserMemory)

/-- A `u64` load. -/
def readU64 (address : BitVec 64) : BitVec 64 :=
  BitVec.ofNat 64 (leValue ((range address 8).map memory))

/-- A `u64` store. -/
def writeU64 (address value : BitVec 64) : UserMemory :=
  memory.writeBytes address (leBytes 8 value.toNat)

/-- A `u32` load. -/
def readU32 (address : BitVec 64) : BitVec 32 :=
  BitVec.ofNat 32 (leValue ((range address 4).map memory))

/-- A `u32` store. -/
def writeU32 (address : BitVec 64) (value : BitVec 32) : UserMemory :=
  memory.writeBytes address (leBytes 4 value.toNat)

end

end UserMemory

/-! ## The machine -/

/-- Where the process is. -/
inductive Phase where
  /-- Executing user code. -/
  | user
  /-- A system call has stored its result; delivery comes next. -/
  | returning
  /-- In the wait loop of `sys_sigsuspend`, with the mask to restore. -/
  | suspended (oldMask : BitVec 64)
  /-- Past that loop, before the delivery that `sys_sigsuspend` makes itself. -/
  | interrupted
  /-- Terminated by a signal. -/
  | exited
  deriving DecidableEq, Repr

/-- The process, the frame its registers are saved in, its memory. -/
structure Machine where
  process : Process
  frame : ExceptionFrame
  memory : UserMemory
  phase : Phase

/-- The test that `sys_sigprocmask`, `sys_sigpending`, `sys_sigsuspend` and
`sys_sigaltstack` make on a user pointer: non-null, and below the limit. -/
def userPointer (ptr : BitVec 64) : Bool :=
  ptr != 0#64 && ptr < userAddrLimit

/-- `UNBLOCKABLE_SIGNALS_MASK`: SIGKILL and SIGSTOP. -/
def unblockableSignalsMask : BitVec 64 := (1#64 <<< 9) ||| (1#64 <<< 19)

/-! ## Delivery -/

/-- What `deliver_pending_signals` did with the signal it took. -/
inductive Outcome where
  | nothing
  | ignored (signum : Fin 64)
  | terminated (signum : Fin 64)
  | entered (signum : Fin 64)
  deriving DecidableEq, Repr

/-- The result of `deliver_pending_signals`: the machine, what became of the
signal, and the bytes written through the stack pointer. -/
structure Delivery where
  machine : Machine
  outcome : Outcome
  accesses : List (BitVec 64)

section

variable (machine : Machine)

/-- `base_sp`: the top of the alternate stack when the handler asks for it, one
is installed and it is not in use; the stack pointer of the frame otherwise. -/
def baseSp (onStack : Bool) : BitVec 64 :=
  match onStack, machine.process.signalStack with
  | true, some stack =>
    if machine.process.onSignalStack then machine.frame.sp
    else stack.base + stack.size
  | _, _ => machine.frame.sp

/-- Whether entering the handler moves the process to its alternate stack. -/
def useAlt (process : Process) (onStack : Bool) : Bool :=
  onStack && process.signalStack.isSome && !process.onSignalStack

/-- The handler branch of `deliver_pending_signals`: push the interrupted PC and
PSTATE below `base_sp` and redirect the frame to the handler. -/
def enterHandler (signum : Fin 64) (va : BitVec 64) (onStack : Bool) : Delivery :=
  let newSp := baseSp machine onStack - 32#64
  let memory := (machine.memory.writeU64 newSp machine.frame.elr).writeU64
    (newSp + 8#64) machine.frame.spsr
  let process :=
    if useAlt machine.process onStack then
      { machine.process with onSignalStack := true }
    else machine.process
  let frame : ExceptionFrame :=
    { machine.frame with
      sp := newSp
      x := update
        (update machine.frame.x 0 (BitVec.ofNat 64 signum.val))
        30 signalTrampolineVa
      elr := va }
  { machine := { machine with process, frame, memory }
    outcome := .entered signum
    accesses := UserMemory.range newSp 8 ++ UserMemory.range (newSp + 8#64) 8 }

/-- The part of `scheduler.exit` that this process can observe. -/
def exitWith (exitCode : Int) : Machine :=
  { machine with
    process := { machine.process with state := .zombie exitCode }
    phase := .exited }

def deliverPendingSignals : Delivery :=
  match machine.process.takePendingSignal with
  | none => ⟨machine, .nothing, []⟩
  | some (signum, process) =>
    let machine := { machine with process }
    match process.signalHandlers signum with
    | .ignore => ⟨machine, .ignored signum, []⟩
    | .default =>
      -- SIGCHLD and SIGURG are ignored by default, the rest terminate.
      if signum = sigchld ∨ signum = sigurg then ⟨machine, .ignored signum, []⟩
      else
        ⟨exitWith machine (-(signum.val : Int)), .terminated signum, []⟩
    | .handler va onStack => enterHandler machine signum va onStack

/-! ## System calls

Each returns the machine and the value that `dispatch` stores in x0. -/

/-- The old-action half of `sys_sigaction`: handler, flags and a zero restorer,
24 bytes at `oldActPtr`. -/
def writeOldAction (memory : UserMemory) (action : SignalAction)
    (oldActPtr : BitVec 64) : UserMemory :=
  let (handlerVa, saFlags) : BitVec 64 × BitVec 64 :=
    match action with
    | .handler va onStack => (va, if onStack then saOnstack else 0#64)
    | .ignore => (1#64, 0#64)
    | .default => (0#64, 0#64)
  ((memory.writeU64 oldActPtr handlerVa).writeU64
    (oldActPtr + 8#64) saFlags).writeU64 (oldActPtr + 16#64) 0#64

def sysSigaction (signalNumber : Int) (newActPtr oldActPtr : BitVec 64) : Machine × Int :=
  if h : signalNumber ≤ 0 ∨ (signalCount : Int) ≤ signalNumber then
    (machine, EINVAL)
  else
    let slot : Fin 64 :=
      ⟨signalNumber.toNat, by simp only [signalCount] at h; omega⟩
    let memory :=
      if oldActPtr != 0#64 && validateUserPointer oldActPtr.toNat 24 then
        writeOldAction machine.memory (machine.process.signalHandlers slot)
          oldActPtr
      else machine.memory
    let machine := { machine with memory }
    if newActPtr != 0#64 && validateUserPointer newActPtr.toNat 16 then
      let handlerVa := memory.readU64 newActPtr
      let saFlags := memory.readU64 (newActPtr + 8#64)
      let onStack := saFlags &&& saOnstack != 0#64
      let action : SignalAction :=
        if handlerVa = 0#64 then .default
        else if handlerVa = 1#64 then .ignore
        else .handler handlerVa onStack
      match machine.process.setSignalHandler slot action with
      | .ok process => ({ machine with process }, 0)
      | .error _ => (machine, EINVAL)
    else (machine, 0)

end

/-- The result of `sys_sigreturn`, with the bytes read through the stack
pointer. -/
structure Sigreturn where
  machine : Machine
  returnValue : Int
  accesses : List (BitVec 64)

section

variable (machine : Machine)

/-- `sys_sigreturn`: PC and PSTATE are taken from the user stack as they are. -/
def sysSigreturn : Sigreturn :=
  let sp := machine.frame.sp
  let frame : ExceptionFrame :=
    { machine.frame with
      elr := machine.memory.readU64 sp
      spsr := machine.memory.readU64 (sp + 8#64)
      sp := sp + 32#64 }
  { machine :=
      { machine with
        frame
        process := { machine.process with onSignalStack := false } }
    returnValue := 0
    accesses := UserMemory.range sp 8 ++ UserMemory.range (sp + 8#64) 8 }

/-- The query half of `sys_sigaltstack`: `ss_sp`, `ss_flags` and `ss_size` of a
`UserSignalStack` at `oldStackPtr`. -/
def writeOldStack (memory : UserMemory) (process : Process)
    (oldStackPtr : BitVec 64) : UserMemory :=
  let (ssSp, ssFlags, ssSize) : BitVec 64 × BitVec 32 × BitVec 64 :=
    match process.signalStack with
    | some stack =>
      (stack.base, if process.onSignalStack then ssOnstack else 0#32, stack.size)
    | none => (0#64, ssDisable, 0#64)
  ((memory.writeU64 oldStackPtr ssSp).writeU32
    (oldStackPtr + 8#64) ssFlags).writeU64 (oldStackPtr + 16#64) ssSize

def sysSigaltstack (newStackPtr oldStackPtr : BitVec 64) : Machine × Int :=
  if userPointer newStackPtr && machine.process.onSignalStack then
    (machine, -(ssOnstack.toNat : Int))
  else
    let memory :=
      if userPointer oldStackPtr then
        writeOldStack machine.memory machine.process oldStackPtr
      else machine.memory
    let machine := { machine with memory }
    if userPointer newStackPtr then
      let ssSp := memory.readU64 newStackPtr
      let ssFlags := memory.readU32 (newStackPtr + 8#64)
      let ssSize := memory.readU64 (newStackPtr + 16#64)
      if ssFlags &&& ssDisable != 0#32 then
        ({ machine with
            process := { machine.process with signalStack := none } }, 0)
      else if ssSize < 2048#64 then (machine, EINVAL)
      else
        ({ machine with
            process :=
              { machine.process with signalStack := some ⟨ssSp, ssSize, 0#32⟩ } },
          0)
    else (machine, 0)

/-- `sys_sigprocmask`.  `SIG_BLOCK` is not a constant of the crate, so the first
arm of the match on `how` is a binding: it is taken for every value of `how`, and
the new set is always added to the mask. -/
def sysSigprocmask (_how : Int) (setPtr oldSetPtr : BitVec 64) : Machine × Int :=
  let memory :=
    if userPointer oldSetPtr then
      machine.memory.writeU64 oldSetPtr machine.process.signalMask
    else machine.memory
  let machine := { machine with memory }
  if userPointer setPtr then
    let newSet := memory.readU64 setPtr &&& ~~~unblockableSignalsMask
    ({ machine with
        process :=
          { machine.process with
            signalMask := machine.process.signalMask ||| newSet } }, 0)
  else (machine, 0)

def sysSigpending (setPtr : BitVec 64) : Machine × Int :=
  if userPointer setPtr then
    ({ machine with
        memory := machine.memory.writeU64 setPtr
          (machine.process.pendingSignals &&& machine.process.signalMask) }, 0)
  else (machine, EINVAL)

/-- `sys_sigsuspend` up to its wait loop: the new mask is installed and the old
one remembered.  `none` for a bad pointer. -/
def sysSigsuspend (maskPtr : BitVec 64) : Option Machine :=
  if userPointer maskPtr then
    let appliedMask := machine.memory.readU64 maskPtr &&& ~~~unblockableSignalsMask
    some { machine with
      process := { machine.process with signalMask := appliedMask }
      phase := .suspended machine.process.signalMask }
  else none

/-! ## Dispatch -/

/-- Store a system call's result in x0. -/
def setReturnValue (value : Int) : Machine :=
  { machine with
    frame :=
      { machine.frame with
        x := update machine.frame.x 0 (BitVec.ofInt 64 value) } }

/-- The end of `dispatch` before delivery. -/
def finish (result : Machine × Int) : Machine :=
  { setReturnValue result.1 result.2 with phase := .returning }

/-- `arg0 as i32`. -/
def argI32 (word : BitVec 64) : Int := (word.setWidth 32).toInt

/-- The signal system calls. -/
inductive SignalCall where
  | sigaction
  | sigreturn
  | sigprocmask
  | sigpending
  | sigsuspend
  | sigaltstack
  deriving DecidableEq, Repr

/-- Their numbers in `systemcalls::numbers`. -/
def SignalCall.ofNumber (number : BitVec 64) : Option SignalCall :=
  if number = 21#64 then some .sigaction
  else if number = 23#64 then some .sigreturn
  else if number = 43#64 then some .sigprocmask
  else if number = 44#64 then some .sigpending
  else if number = 45#64 then some .sigsuspend
  else if number = 98#64 then some .sigaltstack
  else none

/-- The signal system call that the immediate of `svc`, the low half of the syndrome,
selects, if it is one. -/
def requestedCall : Option SignalCall :=
  SignalCall.ofNumber (machine.frame.esr &&& 0xFFFF#64)

/-- A `sigaction` call that names a new action for signal `n`. -/
def SetsAction (n : Fin 64) : Prop :=
  requestedCall machine = some .sigaction ∧ argI32 (machine.frame.x 0) = Int.ofNat n.val ∧
    machine.frame.x 1 ≠ 0#64 ∧ validateUserPointer (machine.frame.x 1).toNat 16 = true

/-- The signal system calls of `dispatch`, with their arguments from x0..x2. -/
def dispatch : SignalCall → Machine
  | .sigaction =>
    finish (sysSigaction machine (argI32 (machine.frame.x 0))
      (machine.frame.x 1) (machine.frame.x 2))
  | .sigreturn =>
    finish ((sysSigreturn machine).machine, (sysSigreturn machine).returnValue)
  | .sigprocmask =>
    finish (sysSigprocmask machine (argI32 (machine.frame.x 0))
      (machine.frame.x 1) (machine.frame.x 2))
  | .sigpending => finish (sysSigpending machine (machine.frame.x 0))
  | .sigsuspend =>
    match sysSigsuspend machine (machine.frame.x 0) with
    | some suspended => suspended
    | none => finish (machine, EINVAL)
  | .sigaltstack =>
    finish (sysSigaltstack machine (machine.frame.x 0) (machine.frame.x 1))

/-! ## Steps -/

/-- The exception level bits M[3:0] of a saved PSTATE. -/
def modeBits (spsr : BitVec 64) : BitVec 64 := spsr &&& 0xF#64

/-- One event in the life of the process. -/
inductive Action where
  /-- User code runs and is interrupted with these registers and this memory. -/
  | execute (frame : ExceptionFrame) (memory : UserMemory)
  /-- The `svc` that user code was interrupted by. -/
  | svc
  /-- A system call of another module returns this value. -/
  | otherSyscall (returnValue : Int)
  /-- The wait loop of `sys_sigsuspend` sees an unmasked pending signal. -/
  | wake
  /-- `deliver_pending_signals` runs. -/
  | deliver
  /-- Some process or device sends a signal. -/
  | signal (signum : Nat)

/-- What user code can do: any register, any syndrome and any byte below the limit, but
not the exception level it runs at. -/
def executeUser (frame : ExceptionFrame) (memory : UserMemory) : Machine :=
  { machine with
    frame :=
      { frame with
        spsr := (frame.spsr &&& ~~~0xF#64) ||| modeBits machine.frame.spsr }
    memory := fun address =>
      if address < userAddrLimit then memory address else machine.memory address }

/-- The end of the wait loop: the mask saved by `sys_sigsuspend` is restored
before anything is delivered. -/
def wakeUp (oldMask : BitVec 64) : Machine :=
  { machine with
    process := { machine.process with signalMask := oldMask }
    phase := .interrupted }

/-- Continue after a delivery, unless the signal ended the process. -/
def afterDelivery (resume : Machine → Machine) : Machine :=
  if machine.phase = .exited then machine else resume machine

/-- The transitions of one process. -/
def step : Action → Option Machine
  | .execute frame memory =>
    if machine.phase = .user then some (executeUser machine frame memory)
    else none
  | .svc =>
    if machine.phase = .user then
      (requestedCall machine).map (dispatch machine)
    else none
  | .otherSyscall returnValue =>
    if machine.phase = .user ∧ requestedCall machine = none then
      some (finish (machine, returnValue))
    else none
  | .wake =>
    match machine.phase with
    | .suspended oldMask =>
      if machine.process.pendingSignals &&& ~~~machine.process.signalMask =
          0#64 then none
      else some (wakeUp machine oldMask)
    | _ => none
  | .deliver =>
    match machine.phase with
    | .returning =>
      some (afterDelivery (deliverPendingSignals machine).machine
        (fun delivered => { delivered with phase := .user }))
    | .interrupted =>
      some (afterDelivery (deliverPendingSignals machine).machine
        (fun delivered => finish (delivered, EINTR)))
    | _ => none
  | .signal signum =>
    some { machine with process := machine.process.receiveSignal signum }

end

/-- A delivery step leaves the pending set and the PSTATE that
`deliver_pending_signals` computes: what follows it touches the other registers and
the phase only. -/
theorem step_deliver {machine next : Machine} (hstep : step machine .deliver = some next) :
    next.process.pendingSignals = (deliverPendingSignals machine).machine.process.pendingSignals ∧
      next.frame.spsr = (deliverPendingSignals machine).machine.frame.spsr := by
  simp only [step, afterDelivery] at hstep
  split at hstep
  · cases hstep
    split <;> exact ⟨rfl, rfl⟩
  · cases hstep
    split <;> exact ⟨rfl, rfl⟩
  · cases hstep

end Bazzulto.Signals
