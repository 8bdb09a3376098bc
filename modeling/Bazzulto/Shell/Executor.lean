/-
  Shell/Executor.lean --- AND-OR lists and the status of a foreground command.

  Embeds `execute_compound_list`, `execute_pipeline_sync`, the cases of `run_pipeline`,
  what `fork_and_exec_expanded` does in the parent, and `decode_wait_status`
  (userspace/programs/sh/src/executor.rs).  What a command does up to the end of its
  child, and a pipeline of several stages, are parameters.

  The kernel stores an exit code in bits 15 to 8 of the status word, and the shell reads
  bits 7 to 0: every command that ran to its end counts as a success.  Given the statuses
  of its pipelines, a list runs those that the AND-OR lists of POSIX run.
-/
import Bazzulto.Scheduler.Status
import Bazzulto.Shell.Expand
import Bazzulto.Shell.Parser

set_option autoImplicit false

namespace Bazzulto.Shell

open Scheduler

/-! ## Lists -/

/-- What running something gives: its status and the state behind it. -/
abbrev Outcome := Except Halt (BitVec 32 × ShellState)

/-- Whether the item behind a separator is skipped, after a status. -/
def skipsNext : Separator → BitVec 32 → Bool
  | .and, status => status ≠ 0
  | .or, status => status = 0
  | _, _ => false

/-- The loop body of `execute_compound_list` behind a pipeline: signals and `-e` end the
list, and the separator decides on the next item. -/
def afterPipeline (separator : Separator) (status : BitVec 32) (state : ShellState)
    (loop : BitVec 32 → Bool → ShellState → Outcome) : Outcome :=
  let state := { state with lastExitStatus := status }
  if state.returnSignal.isSome ∨ state.loopSignal ≠ .none then .ok (status, state)
  else if state.optionErrexit ∧ status ≠ 0 ∧ separator ≠ .and ∧ separator ≠ .or then
    .error (.exit status)
  else loop status (skipsNext separator status) state

section Lists

variable (sync async : Pipeline → ShellState → Outcome)

/-- The loop of `execute_compound_list`. -/
def executeItems : CompoundList → BitVec 32 → Bool → ShellState → Outcome
  | [], lastStatus, _, state => .ok (lastStatus, state)
  | item :: rest, lastStatus, skipNext, state =>
    if skipNext then executeItems rest lastStatus (skipsNext item.separator lastStatus) state
    else if state.optionNoexec then executeItems rest lastStatus false state
    else
      match (if item.separator = .amp then async else sync) item.pipeline state with
      | .error halt => .error halt
      | .ok (status, state) => afterPipeline item.separator status state (executeItems rest)

def executeCompoundList (list : CompoundList) (state : ShellState) : Outcome :=
  executeItems sync async list 0 false state

end Lists

/-! ## AND-OR lists -/

/-- Nothing stops a list: no signal is pending, neither `-e` nor `-n` is set. -/
def ShellState.Quiet (state : ShellState) : Prop :=
  state.returnSignal = none ∧ state.loopSignal = .none ∧ state.optionErrexit = false ∧
    state.optionNoexec = false

/-- An assignment of exit statuses to the pipelines, with their effects.  A pipeline may
also end the shell, but it leaves no signal and does not set `-e` or `-n`. -/
structure Statuses where
  run : Pipeline → ShellState → Outcome
  quiet : ∀ pipeline state, state.Quiet → ∀ result ∈ (run pipeline state).toOption, result.2.Quiet

/-- A pipeline runs, and `$?` is its status. -/
def Statuses.perform (statuses : Statuses) (pipeline : Pipeline) (state : ShellState) :
    Outcome := do
  let (status, state) ← statuses.run pipeline state
  return (status, { state with lastExitStatus := status })

/-- `&&` and `||`. -/
inductive Junction where
  | and
  | or

def Junction.separator : Junction → Separator
  | .and => .and
  | .or => .or

/-- Whether the pipeline behind the operator runs, after a status. -/
def Junction.goesOn : Junction → BitVec 32 → Bool
  | .and, status => status = 0
  | .or, status => status ≠ 0

/-- The AND-OR lists of POSIX, whose operators associate to the left. -/
inductive AndOrList where
  | one (pipeline : Pipeline)
  | join (left : AndOrList) (junction : Junction) (right : Pipeline)

namespace AndOrList

/-- What POSIX makes of an AND-OR list. -/
def meaning (statuses : Statuses) : AndOrList → ShellState → Outcome
  | .one pipeline, state => statuses.perform pipeline state
  | .join left junction right, state => do
    let (status, state) ← left.meaning statuses state
    if junction.goesOn status then statuses.perform right state else return (status, state)

/-- The items of an AND-OR list, with the separator behind it. -/
def items : AndOrList → Separator → CompoundList
  | .one pipeline, separator => [⟨pipeline, separator⟩]
  | .join left junction right, separator => left.items junction.separator ++ [⟨right, separator⟩]

/-- AND-OR lists joined by `;`, which may stand behind the last one as well. -/
def joined (terminated : Bool) : List AndOrList → CompoundList
  | [] => []
  | list :: rest =>
    list.items (if terminated || !rest.isEmpty then .semi else .end) ++ joined terminated rest

/-- AND-OR lists one after the other, behind a status. -/
def sequence (statuses : Statuses) : List AndOrList → BitVec 32 → ShellState → Outcome
  | [], lastStatus, state => return (lastStatus, state)
  | list :: rest, _, state => do
    let (status, state) ← list.meaning statuses state
    sequence statuses rest status state

end AndOrList

section AndOr

variable {statuses : Statuses} {async : Pipeline → ShellState → Outcome} {state : ShellState}

/-- A pipeline that runs hands its status to the separator behind it. -/
theorem executeItems_cons_of_quiet (hquiet : state.Quiet) {separator : Separator}
    (hamp : separator ≠ .amp) (pipeline : Pipeline) (rest : CompoundList) (last : BitVec 32) :
    executeItems statuses.run async (⟨pipeline, separator⟩ :: rest) last false state =
      statuses.perform pipeline state >>= fun (status, state) =>
        executeItems statuses.run async rest status (skipsNext separator status) state := by
  rw [executeItems, Statuses.perform]
  simp only [hquiet.2.2.2, Bool.false_eq_true, if_false, if_neg hamp]
  cases hrun : statuses.run pipeline state with
  | error halt => rfl
  | ok result =>
    obtain ⟨hreturn, hloop, herrexit, _⟩ :=
      statuses.quiet pipeline state hquiet result (by rw [hrun]; rfl)
    simp [afterPipeline, hreturn, hloop, herrexit]
    rfl

theorem Statuses.quiet_perform (hquiet : state.Quiet) (pipeline : Pipeline) :
    ∀ result ∈ (statuses.perform pipeline state).toOption, result.2.Quiet := by
  have hrun := statuses.quiet pipeline state hquiet
  unfold perform
  cases hresult : statuses.run pipeline state with
  | error halt => simp [bind, Except.bind, Except.toOption]
  | ok result =>
    rw [hresult] at hrun
    rintro _ ⟨⟩
    exact hrun result rfl

/-- The flag says whether the next pipeline of the chain is passed over, and the status is
that of the last one that ran. -/
theorem executeItems_items (hquiet : state.Quiet) (list : AndOrList) :
    (∀ separator, separator ≠ .amp → ∀ rest last,
      executeItems statuses.run async (list.items separator ++ rest) last false state =
        list.meaning statuses state >>= fun (status, state) =>
          executeItems statuses.run async rest status (skipsNext separator status) state) ∧
      ∀ result ∈ (list.meaning statuses state).toOption, result.2.Quiet := by
  induction list with
  | one pipeline =>
    exact ⟨fun _ hamp rest last => executeItems_cons_of_quiet hquiet hamp pipeline rest last,
      Statuses.quiet_perform hquiet pipeline⟩
  | join left junction right ih =>
    obtain ⟨hleft, hmeaning⟩ := ih
    have hjunction : junction.separator ≠ .amp := by cases junction <;> decide
    have hskips : ∀ status, skipsNext junction.separator status = !junction.goesOn status := by
      intro status
      cases junction <;> simp [skipsNext, Junction.goesOn, Junction.separator]
    simp only [AndOrList.items, AndOrList.meaning, List.append_assoc, hleft _ hjunction, hskips]
    cases hresult : left.meaning statuses state with
    | error halt => exact ⟨fun _ _ _ _ => rfl, fun _ h => nomatch h⟩
    | ok result =>
      obtain ⟨status, after⟩ := result
      have hafter : after.Quiet := hmeaning _ (by rw [hresult]; rfl)
      dsimp only [bind, Except.bind]
      cases junction.goesOn status with
      | true =>
        exact ⟨fun _ hamp rest _ => executeItems_cons_of_quiet hafter hamp right rest status,
          Statuses.quiet_perform hafter right⟩
      | false => exact ⟨fun _ _ _ _ => rfl, by rintro _ ⟨⟩; exact hafter⟩

theorem executeItems_joined (hquiet : state.Quiet) (terminated : Bool) (lists : List AndOrList)
    (last : BitVec 32) :
    executeItems statuses.run async (AndOrList.joined terminated lists) last false state =
      AndOrList.sequence statuses lists last state := by
  induction lists generalizing state last with
  | nil => rfl
  | cons list rest ih =>
    obtain ⟨hlist, hmeaning⟩ := @executeItems_items statuses async state hquiet list
    unfold AndOrList.joined AndOrList.sequence
    rw [hlist _ (by split <;> decide)]
    cases hresult : list.meaning statuses state with
    | error halt => rfl
    | ok result =>
      have hskip : skipsNext (if terminated || !rest.isEmpty then .semi else .end) result.1 =
          false := by
        split <;> rfl
      dsimp only [bind, Except.bind]
      rw [hskip]
      exact ih (hmeaning _ (by rw [hresult]; rfl)) _

/-- AND-OR lists joined by `;` run the pipelines that POSIX runs, in its order, and give
its status and state, whatever the pipelines give: they may end the shell, so that one
more or one less would show. -/
theorem executeCompoundList_joined (statuses : Statuses) (async : Pipeline → ShellState → Outcome)
    (terminated : Bool) (lists : List AndOrList) (state : { state : ShellState // state.Quiet }) :
    executeCompoundList statuses.run async (AndOrList.joined terminated lists) state =
      AndOrList.sequence statuses lists 0 state :=
  executeItems_joined state.2 terminated lists 0

/-- Every pipeline adds its words to the positional parameters, and `!` makes it fail. -/
def logging : Statuses where
  run pipeline state := .ok (if pipeline.negate then 1 else 0,
    { state with
      positionalParams := state.positionalParams ++ pipeline.commands.flatMap SimpleCommand.words })
  quiet := by
    rintro pipeline state hquiet _ ⟨⟩
    exact hquiet

def oneWord (negate : Bool) (word : Char) : Pipeline := ⟨negate, [⟨[], [[word]], []⟩]⟩

/-- Of `! a && b || c; ! d` the shell runs `a`, `c` and `d`. -/
theorem executeCompoundList_logs :
    executeCompoundList logging.run (fun _ state => .ok (0, state)) (AndOrList.joined false
        [.join (.join (.one (oneWord true 'a')) .and (oneWord false 'b')) .or (oneWord false 'c'),
          .one (oneWord true 'd')]) sampleState =
      .ok (1, { sampleState with
        positionalParams := [['a'], ['c'], ['d']], lastExitStatus := 1 }) :=
  (executeCompoundList_joined logging _ false _ ⟨sampleState, rfl, rfl, rfl, rfl⟩).trans rfl

end AndOr

/-! ## Pipelines and commands -/

def decodeWaitStatus (rawStatus : BitVec 32) : BitVec 32 := rawStatus &&& 0xFF#32

/-- `fork_and_exec_expanded` in the parent.  `launch` gives the word that `raw_wait`
stores for the child. -/
def forkAndExecExpanded (launch : SimpleCommand → ShellState → Outcome)
    (command : SimpleCommand) (state : ShellState) : Outcome :=
  (launch command state).map fun (rawStatus, state) => (decodeWaitStatus rawStatus, state)

/-- `run_pipeline`: a single command takes the fast path. -/
def runPipeline (executeCommand : SimpleCommand → ShellState → Outcome)
    (runStages : List SimpleCommand → ShellState → Outcome) (pipeline : Pipeline)
    (state : ShellState) : Outcome :=
  match pipeline.commands with
  | [] => .ok (0, state)
  | [command] => executeCommand command state
  | commands => runStages commands state

/-- `execute_pipeline_sync`: `!` negates the status. -/
def executePipelineSync (run : Pipeline → ShellState → Outcome) (pipeline : Pipeline)
    (state : ShellState) : Outcome :=
  (run pipeline state).map fun (status, state) =>
    (if pipeline.negate then (if status = 0 then 1 else 0) else status, state)

/-! ## The status of a foreground command -/

/-- The exit status of a child by POSIX: its exit code modulo 256. -/
def posixStatus (exitCode : BitVec 32) : BitVec 32 := BitVec.ofInt 32 (exitCode.toInt % 256)

theorem decodeWaitStatus_encodeWaitStatus (exitCode : BitVec 32) :
    decodeWaitStatus (encodeWaitStatus exitCode) = 0 := by
  have hmask : ∀ word : BitVec 32, (word &&& 0xFF#32).toNat = word.toNat % 2 ^ 8 := fun word => by
    exact Nat.and_two_pow_sub_one_eq_mod word.toNat 8
  apply BitVec.eq_of_toNat_eq
  rw [decodeWaitStatus, encodeWaitStatus, hmask, BitVec.toNat_shiftLeft,
    show BitVec.toNat (0 : BitVec 32) = 0 from rfl]
  omega

section Foreground

variable (launch : SimpleCommand → ShellState → Outcome)
  (runStages : List SimpleCommand → ShellState → Outcome)
  (async : Pipeline → ShellState → Outcome)

/-- Pipelines in the foreground, where every command is an external one. -/
def foreground : Pipeline → ShellState → Outcome :=
  executePipelineSync (runPipeline (forkAndExecExpanded launch) runStages)

/-- The list goes on with the status that was decoded. -/
theorem executeCompoundList_cons_of_launch {command : SimpleCommand} {state state' : ShellState}
    {word : BitVec 32} (hlaunch : launch command state = .ok (word, state'))
    (hexec : state.optionNoexec = false) {separator : Separator} (hamp : separator ≠ .amp)
    (rest : CompoundList) :
    executeCompoundList (foreground launch runStages) async
        (⟨⟨false, [command]⟩, separator⟩ :: rest) state =
      afterPipeline separator (decodeWaitStatus word) state'
        (executeItems (foreground launch runStages) async rest) := by
  have hsync : foreground launch runStages ⟨false, [command]⟩ state =
      .ok (decodeWaitStatus word, state') := by
    simp only [foreground, executePipelineSync, runPipeline, forkAndExecExpanded, hlaunch]
    rfl
  rw [executeCompoundList, executeItems]
  simp [hexec, if_neg hamp, hsync]

/-- A child runs on a core and gives `exitCode` to `sys_exit`; its parent, the shell,
finds `word` through `sys_wait`.  The status of the command is the code modulo 256, and
every list goes on as this status prescribes, if and only if the code is a multiple of
256. -/
theorem foreground_status_iff {scheduler : Scheduler} {cpu : Cpu} {parentPid : Pid}
    {process : Process} (hget : scheduler.pool.get (scheduler.currentPids cpu) = some process)
    (hparent : process.parentPid = some parentPid) (hne : scheduler.currentPids cpu ≠ parentPid)
    (exitCode : BitVec 32) {word : BitVec 32}
    (hword : (scheduler.becomeZombie cpu exitCode.toInt).waitWord parentPid
      (scheduler.currentPids cpu) = some word) {command : SimpleCommand}
    {state state' : ShellState} (hlaunch : launch command state = .ok (word, state'))
    (hexec : state.optionNoexec = false) :
    ((decodeWaitStatus word).toInt = exitCode.toInt % 256 ∧ ∀ separator, separator ≠ .amp → ∀ rest,
          executeCompoundList (foreground launch runStages) async
              (⟨⟨false, [command]⟩, separator⟩ :: rest) state =
            afterPipeline separator (posixStatus exitCode) state'
              (executeItems (foreground launch runStages) async rest)) ↔
      exitCode.toInt % 256 = 0 := by
  have hzero : decodeWaitStatus word = 0 := by
    rw [(unreaped_becomeZombie exitCode.toInt hget hparent hne).waitWord_eq hword,
      decodeWaitStatus_encodeWaitStatus]
  refine ⟨fun h => ?_, fun h => ⟨?_, fun separator hamp rest => ?_⟩⟩
  · rw [← h.1, hzero]
    rfl
  · rw [h, hzero]
    rfl
  have hposix : posixStatus exitCode = decodeWaitStatus word := by
    rw [hzero, posixStatus, h]
    rfl
  rw [hposix]
  exact executeCompoundList_cons_of_launch launch runStages async hlaunch hexec hamp rest

end Foreground

/-- The command that the samples run as a child. -/
def sampleCommand : SimpleCommand := ⟨[], ["child".toList], []⟩

/-- The child exits with a code; any other command ends the shell with status 7. -/
def sampleLaunch (exitCode : BitVec 32) (command : SimpleCommand) (state : ShellState) : Outcome :=
  if command = sampleCommand then .ok (encodeWaitStatus exitCode, state)
  else .error (.exit 7)

/-- Pipelines that do nothing. -/
def idlePipeline {α : Type} (_ : α) (state : ShellState) : Outcome := .ok (0, state)

/-- Two processes, of which the second is the child of the first and runs. -/
def runningChild : List Action :=
  [.spawn bootCpu none, .spawn bootCpu (some ⟨1, 1⟩), .schedule bootCpu 0, .schedule bootCpu 0]

theorem status_of_code_256 :
    ∃ (scheduler : Scheduler) (word : BitVec 32),
      (scheduler.becomeZombie bootCpu (256#32).toInt).waitWord ⟨1, 1⟩
          (scheduler.currentPids bootCpu) = some word ∧
        (decodeWaitStatus word).toInt = (256#32).toInt % 256 := by
  have hrun : ((Foundation.run step init runningChild).map fun s =>
      (s.currentPids bootCpu, (s.pool.get (s.currentPids bootCpu)).map Process.parentPid,
        (s.becomeZombie bootCpu (256#32).toInt).waitWord ⟨1, 1⟩ (s.currentPids bootCpu))) =
      some (⟨2, 1⟩, some (some ⟨1, 1⟩), some (encodeWaitStatus 256#32)) := by
    decide +kernel
  obtain ⟨scheduler, -, hfacts⟩ := Option.map_eq_some_iff.mp hrun
  simp only [Prod.mk.injEq] at hfacts
  obtain ⟨hcurrent, hparent, hword⟩ := hfacts
  obtain ⟨_, hget, hparent⟩ := Option.map_eq_some_iff.mp hparent
  have hstatus := foreground_status_iff (sampleLaunch 256#32) idlePipeline idlePipeline hget hparent
    (by rw [hcurrent]; decide) 256#32 hword
    (rfl : sampleLaunch 256#32 sampleCommand sampleState = .ok (_, sampleState)) rfl
  exact ⟨scheduler, _, hword, (hstatus.mpr (by decide)).1⟩

/-- A child that exits with code 1 leaves status 0, and what `&&` joins to it runs. -/
theorem failing_child_succeeds :
    executeCompoundList (foreground (sampleLaunch 1) idlePipeline) idlePipeline
          [⟨⟨false, [sampleCommand]⟩, .end⟩] sampleState = .ok (0, sampleState) ∧
      executeCompoundList (foreground (sampleLaunch 1) idlePipeline) idlePipeline
          [⟨⟨false, [sampleCommand]⟩, .and⟩, ⟨⟨false, [⟨[], ["next".toList], []⟩]⟩, .end⟩]
          sampleState = .error (.exit 7) ∧
      (1#32).toInt % 256 = 1 := by
  decide +kernel

end Bazzulto.Shell
