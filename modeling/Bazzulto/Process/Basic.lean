/-
  Process/Basic.lean --- the process control block, as far as the signal code,
  the scheduler, the IPC primitives, the page fault handler and the permission
  model read it.

  Embeds `Pid`, `ProcessState`, `SignalAction`, `SignalStack`, `MmapRegion` and
  the signal helpers of `Process` (kernel/src/process/mod.rs).  Machine words are
  `BitVec 64`; a signal number is a `Nat` at the interfaces that range-check it
  and a `Fin 64` once it is known to index the disposition table.  A page table
  is the address of its level-0 table.
-/
import Bazzulto.Permission.Pattern
import Bazzulto.Process.Syscall
import Mathlib.Logic.Function.Basic

set_option autoImplicit false

namespace Bazzulto

/-- `Pid`: a pool slot with the generation that tells its occupants apart. -/
structure Pid where
  index : UInt16
  generation : UInt8
  deriving DecidableEq, Repr, Inhabited

/-- `Pid::IDLE`: the idle process of slot 0. -/
def Pid.idle : Pid := ⟨0, 0⟩

/-- `ProcessState`: the lifecycle state of a process. -/
inductive ProcessState where
  | ready
  | running
  | blocked
  | waiting (forPid : Option Pid)
  | sleeping (wakeAtTick : Nat)
  | stopped
  | zombie (exitCode : Int)
  deriving DecidableEq, Repr, Inhabited

/-- `SignalAction`: the disposition of one signal. -/
inductive SignalAction where
  | default
  | ignore
  | handler (va : BitVec 64) (onStack : Bool)
  deriving DecidableEq, Repr, Inhabited

/-- `SignalStack`: the alternate signal stack of a process. -/
structure SignalStack where
  base : BitVec 64
  size : BitVec 64
  flags : BitVec 32
  deriving DecidableEq, Repr, Inhabited

/-- `SignalError`: why `set_signal_handler` refuses a disposition. -/
inductive SignalError where
  | invalidSignalNumber
  | handlerInKernelSpace
  deriving DecidableEq, Repr

def signalCount : Nat := 64

/-- SIGKILL. -/
def sigkill : Fin 64 := 9

/-- SIGCHLD. -/
def sigchld : Fin 64 := 17

/-- SIGSTOP. -/
def sigstop : Fin 64 := 19

/-- SIGURG. -/
def sigurg : Fin 64 := 23

def signalTrampolineVa : BitVec 64 := 0x2000#64

def ssDisable : BitVec 32 := 4#32

def ssOnstack : BitVec 32 := 1#32

def saOnstack : BitVec 64 := 0x08000000#64

/-- A nice value, from -20 to 19: the run queue keeps one level for each. -/
abbrev Nice := { value : Int // -20 ≤ value ∧ value ≤ 19 }

/-- `MmapBacking`; a backing file is known by its number. -/
inductive MmapBacking where
  | anonymous
  | file (inode : Nat) (fileOffset : BitVec 64)
  deriving DecidableEq, Repr, Inhabited

/-- `MmapRegion`, without the flag that no fault handler reads. -/
structure MmapRegion where
  base : BitVec 64
  length : BitVec 64
  demand : Bool
  backing : MmapBacking
  deriving DecidableEq, Repr, Inhabited

/-- `Process`: the fields that scheduling, signals, semaphores, page faults, exec and
permissions use.  The maps `mmap_regions` and `cow_pages` are lists of their
entries, the regions in the order of their keys. -/
structure Process where
  pid : Pid
  parentPid : Option Pid
  state : ProcessState
  nice : Nice
  exitCode : Int
  alarmDeadlineTick : Nat
  pendingSignals : BitVec 64
  signalMask : BitVec 64
  signalHandlers : Fin 64 → SignalAction
  signalStack : Option SignalStack
  onSignalStack : Bool
  robustListHead : BitVec 64
  pageTable : Option (BitVec 64)
  mmapRegions : List (BitVec 64 × MmapRegion)
  cowPages : List (BitVec 64 × BitVec 64)
  isThread : Bool
  grantedPermissions : List Permission.PathPattern
  grantedActions : List Permission.ActionPermission

namespace Process

variable {process : Process} {n : Fin 64}

/-- `Process::new`: ready but not queued, nice 0, every disposition the
default, no address space, and no patterns except in slot 1. -/
def new (pid : Pid) (parentPid : Option Pid) : Process where
  pid := pid
  parentPid := parentPid
  state := .ready
  nice := ⟨0, by decide⟩
  exitCode := 0
  alarmDeadlineTick := 0
  pendingSignals := 0#64
  signalMask := 0#64
  signalHandlers := fun _ => .default
  signalStack := none
  onSignalStack := false
  robustListHead := 0#64
  pageTable := none
  mmapRegions := []
  cowPages := []
  isThread := false
  grantedPermissions := if pid.index = 1 then [.wildcard] else []
  grantedActions :=
    if pid.index = 1 then
      [.mountFilesystem, .loadKernelDriver, .modifyNetworkConfig, .installPackage,
        .modifyKernelParams]
    else []

/-! ## Signal helpers -/

section

variable (process : Process)

/-- `Process::send_signal`: record a signal as pending.  The `Bool` is `false`,
and nothing happens, when the number is out of range. -/
def sendSignal (signum : Nat) : Process × Bool :=
  if signum = 0 ∨ signalCount ≤ signum then
    (process, false)
  else
    ({ process with
        pendingSignals := process.pendingSignals ||| (1#64 <<< signum) }, true)

def trailingZeros (word : BitVec 64) : Nat := word.ctz.toNat

theorem trailingZeros_lt {word : BitVec 64} (h : word ≠ 0#64) : trailingZeros word < 64 := by
  have hlt := BitVec.ctz_lt_iff_ne_zero.mpr h
  simpa [trailingZeros, BitVec.lt_def] using hlt

/-- `Process::take_pending_signal`: remove the lowest pending signal.  The mask
of the process is not consulted here. -/
def takePendingSignal : Option (Fin 64 × Process) :=
  if h : process.pendingSignals = 0#64 then
    none
  else
    let signum : Fin 64 :=
      ⟨trailingZeros process.pendingSignals, trailingZeros_lt h⟩
    some (signum,
      { process with
        pendingSignals := process.pendingSignals &&& ~~~(1#64 <<< signum.val) })

def setSignalHandler (signum : Nat) (action : SignalAction) : Except SignalError Process :=
  if h : signum = 0 ∨ signalCount ≤ signum then
    .error .invalidSignalNumber
  else
    let slot : Fin 64 := ⟨signum, by simp only [signalCount] at h; omega⟩
    let install : Process :=
      { process with
        signalHandlers := Function.update process.signalHandlers slot action }
    match action with
    | .handler va _ =>
      if userAddrLimit ≤ va then .error .handlerInKernelSpace else .ok install
    | _ => .ok install

/-- What `Scheduler::send_signal_to` does to the record of its target.  SIGSTOP
(19) stops the process and leaves no pending bit; SIGCONT (18) is recorded and
resumes a stopped process; any other signal is recorded and makes a blocked or
sleeping process ready. -/
def receiveSignal (signum : Nat) : Process :=
  if signum = 0 ∨ 63 < signum then
    process
  else if signum = 19 then
    match process.state with
    | .zombie _ | .stopped => process
    | _ => { process with state := .stopped }
  else if signum = 18 then
    let process := (process.sendSignal 18).1
    if process.state = .stopped then { process with state := .ready } else process
  else
    let process := (process.sendSignal signum).1
    match process.state with
    | .blocked | .sleeping _ => { process with state := .ready }
    | _ => process

/-! ## The lowest pending signal -/

/-- Signal `n` is recorded as pending. -/
def Pending (n : Fin 64) : Prop :=
  process.pendingSignals.getLsbD n = true
  deriving Decidable

/-- Signal `n` is blocked by the mask of the process. -/
def Masked (n : Fin 64) : Prop :=
  process.signalMask.getLsbD n = true
  deriving Decidable

/-- Signal `n` is pending and no lower-numbered signal is. -/
def LowestPending (n : Fin 64) : Prop :=
  process.Pending n ∧ ∀ m : Fin 64, m < n → ¬ process.Pending m
  deriving Decidable

end

theorem LowestPending.unique {m : Fin 64} (hm : process.LowestPending m)
    (hn : process.LowestPending n) : m = n := by
  rcases lt_trichotomy m n with hlt | heq | hgt
  · exact absurd hm.1 (hn.2 m hlt)
  · exact heq
  · exact absurd hn.1 (hm.2 n hgt)

/-- Removing bit `n` from a word leaves the other bits. -/
theorem getLsbD_clear (word : BitVec 64) (m n : Fin 64) :
    (word &&& ~~~(1#64 <<< n.val)).getLsbD m = (word.getLsbD m && decide (m ≠ n)) := by
  obtain rfl | h := eq_or_ne m n
  · simp
  by_cases hlt : m.val < n.val
  · simp [h, hlt]
  · have hpos : m.val - n.val ≠ 0 := by omega
    simp [h, hpos]

/-- What `take_pending_signal` returns: the lowest pending signal, with that
bit, and only that bit, cleared. -/
theorem takePendingSignal_spec {process' : Process}
    (h : process.takePendingSignal = some (n, process')) :
    process.LowestPending n ∧
      process' = { process with
        pendingSignals := process.pendingSignals &&& ~~~(1#64 <<< n.val) } := by
  unfold takePendingSignal at h
  split at h
  · cases h
  next hne =>
    simp only [Option.some.injEq, Prod.mk.injEq] at h
    obtain ⟨hn, hproc⟩ := h
    subst hn
    refine ⟨⟨?_, ?_⟩, hproc.symm⟩
    · exact BitVec.getLsbD_true_ctz_of_ne_zero hne
    intro m hm hpending
    have hfalse := BitVec.getLsbD_false_of_lt_ctz
      (x := process.pendingSignals) (i := m.val) hm
    exact absurd (hfalse.symm.trans hpending) Bool.false_ne_true

theorem takePendingSignal_eq_none (h : process.takePendingSignal = none) (n : Fin 64) :
    ¬ process.Pending n := by
  unfold takePendingSignal at h
  split at h
  next hzero =>
    simp [Pending, hzero]
  · cases h

theorem takePendingSignal_of_lowestPending (h : process.LowestPending n) :
    ∃ process', process.takePendingSignal = some (n, process') := by
  cases htake : process.takePendingSignal with
  | none => exact absurd h.1 (takePendingSignal_eq_none htake n)
  | some taken =>
    obtain ⟨_, process'⟩ := taken
    have hm := (takePendingSignal_spec htake).1
    exact ⟨process', by rw [hm.unique h]⟩

end Process
end Bazzulto
