/-
  Permission/Confinement.lean --- permissions along process creation.

  A descendant of a process is confined as long as neither it nor a process
  between the two has become a system binary.  Fork and exec keep what a confined
  process may access within what the first process could; a thread gets no
  patterns at all, and so does a spawned program that declares permissions, and a
  process without patterns may access everything.
-/
import Bazzulto.Loader.Placement
import Bazzulto.Permission.Creation

set_option autoImplicit false

namespace Bazzulto.Permission

open Option Foundation Loader Memory Process Scheduler Function

variable {kernel : Kernel}

/-! ## Steps -/

/-- The kernel with the confined descendants of a process. -/
structure Lineage where
  kernel : Kernel
  confined : Pid → Bool

/-- The process that a core runs. -/
def Lineage.current (lineage : Lineage) (cpu : Cpu) : Pid :=
  lineage.kernel.scheduler.currentPids cpu

/-- One system call that creates or replaces a process, or a context switch. -/
inductive Action where
  | dispatch (cpu : Cpu) (pid : Pid)
  | fork (cpu : Cpu)
  | cloneThread (cpu : Cpu)
  | spawn (cpu : Cpu) (program : Kernel.Program) (capable : Bool)
  | exec (cpu : Cpu) (program : Kernel.Program) (answer : Answer)

/-- A new process, which is confined if its parent is and `untrusted` holds. -/
def Lineage.adopt (lineage : Lineage) (kernel : Kernel) (parent child : Pid)
    (untrusted : Bool) : Lineage where
  kernel := kernel
  confined := update lineage.confined child (lineage.confined parent && untrusted)

/-- The transitions. -/
def step (mmfr0 : Word) (vdso : Vdso) (lineage : Lineage) : Action → Option Lineage
  | .dispatch cpu pid =>
    (lineage.kernel.scheduler.switchTo cpu (lineage.current cpu) pid).map fun scheduler =>
      { lineage with kernel := { lineage.kernel with scheduler } }
  | .fork cpu =>
    match lineage.kernel.fork mmfr0 cpu with
    | (.ok child, kernel) => some (lineage.adopt kernel (lineage.current cpu) child true)
    | (.error _, kernel) => some { lineage with kernel }
  | .cloneThread cpu =>
    match lineage.kernel.cloneThread cpu with
    | (.ok child, kernel) => some (lineage.adopt kernel (lineage.current cpu) child true)
    | (.error _, kernel) => some { lineage with kernel }
  | .spawn cpu program capable =>
    match lineage.kernel.spawn mmfr0 vdso cpu program capable with
    | none => none
    | some (some child, kernel) =>
      some (lineage.adopt kernel (lineage.current cpu) child (!isSystemBinaryPath program.name))
    | some (none, kernel) => some { lineage with kernel }
  | .exec cpu program answer =>
    match lineage.kernel.exec mmfr0 vdso cpu program answer with
    | none => none
    | some (true, kernel) =>
      some (lineage.adopt kernel (lineage.current cpu) (lineage.current cpu)
        (!isSystemBinaryPath program.name))
    | some (false, kernel) => some { lineage with kernel }

/-! ## The condition -/

/-- The patterns allow every path. -/
def Unrestricted (granted : List PathPattern) : Prop :=
  ∀ path, permissionAllows granted path = true

/-- Every path that `granted` allows is allowed by `bound`. -/
def Within (granted bound : List PathPattern) : Prop :=
  ∀ path, permissionAllows granted path = true → permissionAllows bound path = true

/-- What a step by a confined process has to meet: no thread and no spawned
program that declares permissions, unless everything is allowed anyway, and no
grant by permissiond of more than `bound`. -/
def Careful (bound : List PathPattern) (lineage : Lineage) : Action → Prop
  | .dispatch .. | .fork .. => True
  | .cloneThread cpu => lineage.confined (lineage.current cpu) = true → Unrestricted bound
  | .spawn cpu program _ =>
    lineage.confined (lineage.current cpu) = true → isSystemBinaryPath program.name = true ∨
        (∀ file, program.file = some file → elfHasBazzultoPermissionsSection file ≠ some true) ∨
        Unrestricted bound
  | .exec cpu program answer =>
    lineage.confined (lineage.current cpu) = true → isSystemBinaryPath program.name = true ∨
        ∀ patterns, answer = .granted patterns → Within patterns bound

/-! ## The invariant -/

/-- Every confined process is there, and may access no more than `bound`
allows. -/
def Bounded (bound : List PathPattern) (lineage : Lineage) : Prop :=
  ∀ pid, lineage.confined pid = true →
    ∃ granted, lineage.kernel.scheduler.view grantedPermissions pid = some granted ∧
      Within granted bound

variable {mmfr0 : Word} {vdso : Vdso} {bound : List PathPattern} {lineage next : Lineage}

/-- What an operation that creates a process leaves alone. -/
def KeepsGranted (before after : Scheduler) : Prop :=
  ∀ pid, before.view grantedPermissions pid ≠ none →
    after.view grantedPermissions pid = before.view grantedPermissions pid

theorem Bounded.of_view (h : Bounded bound lineage)
    (hview : KeepsGranted lineage.kernel.scheduler kernel.scheduler) :
    Bounded bound { lineage with kernel } := by
  intro pid hconfined
  obtain ⟨granted, hgranted, hwithin⟩ := h pid hconfined
  exact ⟨granted, (hview pid (by simp [hgranted])).trans hgranted, hwithin⟩

/-- A process is created or replaced, and all others keep their permissions. -/
theorem Bounded.adopt (h : Bounded bound lineage) {parent child : Pid} {untrusted : Bool}
    (hothers : ∀ pid, pid ≠ child → kernel.scheduler.view grantedPermissions pid =
      lineage.kernel.scheduler.view grantedPermissions pid)
    (hchild : lineage.confined parent = true → untrusted = true →
      ∃ granted, kernel.scheduler.view grantedPermissions child = some granted ∧
        Within granted bound) : Bounded bound (lineage.adopt kernel parent child untrusted) := by
  intro pid hconfined
  obtain rfl | hpid := eq_or_ne pid child
  · simp only [Lineage.adopt, update_self, Bool.and_eq_true] at hconfined
    exact hchild hconfined.1 hconfined.2
  · simp only [Lineage.adopt, update_of_ne hpid] at hconfined
    obtain ⟨granted, hgranted, hwithin⟩ := h pid hconfined
    exact ⟨granted, (hothers pid hpid).trans hgranted, hwithin⟩

/-! ## What each call does to the permissions -/

section

variable {cpu : Cpu} {scheduler created : Scheduler} {parentPid : Option Pid} {child : Pid}
  {granted : List PathPattern} {program : Kernel.Program} {capable : Bool} {after : Kernel}
  {answer : Answer}

theorem keepsGranted_created
    (h : scheduler.createProcess parentPid = some (child, created)) :
    KeepsGranted scheduler created := by
  intro pid hpid
  rw [view_createProcess h, if_neg]
  rintro rfl
  rw [view, (get_createProcess h).2.1] at hpid
  exact hpid rfl

/-- A process is there that was not, and the others keep their permissions. -/
structure Creates (before after : Scheduler) (child : Pid) : Prop where
  fresh : before.pool.get child = none
  there : after.view grantedPermissions child ≠ none
  others : ∀ pid, pid ≠ child →
    after.view grantedPermissions pid = before.view grantedPermissions pid

theorem creates_of_create {after : Scheduler} {written : Process → List PathPattern}
    (h : scheduler.createProcess parentPid = some (child, created))
    (hafter : ∀ pid, after.view grantedPermissions pid =
      if pid = child then created.view written child else created.view grantedPermissions pid) :
    Creates scheduler after child where
  fresh := (get_createProcess h).2.1
  there := by simp [hafter, view_createProcess h]
  others pid hne := by rw [hafter, if_neg hne, view_createProcess h, if_neg hne]

theorem view_finishFork (mmfr0 : Word) (scheduler : Scheduler) (memory : PhysicalMemory)
    (cpu : Cpu) (parent : Process) (child : Pid) (table : Option Word) (pid : Pid) :
    (Kernel.finishFork mmfr0 scheduler memory cpu parent child table).view
        grantedPermissions pid =
      if pid = child then scheduler.view (fun _ => parent.grantedPermissions) child
      else scheduler.view grantedPermissions pid := by
  simp only [Kernel.finishFork]
  rw [view_makeReady (fun _ _ => rfl), view_updateProcess]
  split
  · exact view_updateProcess_of_keeps _ _ _ _ _ fun _ => rfl
  · exact view_updateProcess_of_keeps _ _ _ _ _ fun _ => rfl

/-- `fork` gives the child the permissions of its parent. -/
theorem fork_spec (mmfr0 : Word) (kernel : Kernel) (cpu : Cpu) :
    match kernel.fork mmfr0 cpu with
    | (.ok child, after) => Creates kernel.scheduler after.scheduler child ∧
        ∀ granted, kernel.scheduler.view grantedPermissions
          (kernel.scheduler.currentPids cpu) = some granted →
          after.scheduler.view grantedPermissions child = some granted
    | (.error _, after) => KeepsGranted kernel.scheduler after.scheduler := by
  unfold Kernel.fork Kernel.forkWith
  dsimp only
  cases hcreate : kernel.scheduler.createProcess
      (some (kernel.scheduler.currentPids cpu)) with
  | none => exact fun _ _ => rfl
  | some created =>
    obtain ⟨_, created⟩ := created
    have hkeeps := keepsGranted_created hcreate
    dsimp only
    cases hget : created.pool.get (kernel.scheduler.currentPids cpu) with
    | none => exact hkeeps
    | some parent =>
      dsimp only
      cases Kernel.copyAddressSpace _ kernel.memory parent.pageTable with
      | error => exact hkeeps
      | ok =>
        refine ⟨creates_of_create hcreate fun _ => view_finishFork .., fun granted hparent => ?_⟩
        rw [← hkeeps _ (by simp [hparent]), view_of_get _ hget] at hparent
        rw [view_finishFork, if_pos rfl, view_createProcess hcreate, if_pos rfl, hparent]

/-- A thread is there, with some permissions. -/
theorem cloneThread_spec (kernel : Kernel) (cpu : Cpu) :
    match kernel.cloneThread cpu with
    | (.ok child, after) => Creates kernel.scheduler after.scheduler child
    | (.error _, after) => KeepsGranted kernel.scheduler after.scheduler := by
  unfold Kernel.cloneThread
  dsimp only
  cases kernel.scheduler.pool.get (kernel.scheduler.currentPids cpu) with
  | none => exact fun _ _ => rfl
  | some parent =>
    dsimp only
    cases hcreate : kernel.scheduler.createProcess
        (some (kernel.scheduler.currentPids cpu)) with
    | none => exact fun _ _ => rfl
    | some created =>
      exact creates_of_create hcreate fun _ =>
        (view_makeReady (fun _ _ => rfl) ..).trans (view_updateProcess ..)

theorem spawn_creates
    (hspawn : kernel.spawn mmfr0 vdso cpu program capable = some (some child, after)) :
    Creates kernel.scheduler after.scheduler child ∧ capable = true := by
  obtain _ | _ | _ | ⟨_, _, hcapable, hcreate⟩ := Kernel.spawned_of_spawn hspawn
  exact ⟨creates_of_create hcreate fun _ =>
    (view_makeReady (fun _ _ => rfl) ..).trans (view_updateProcess ..), hcapable⟩

theorem spawn_refused
    (hspawn : kernel.spawn mmfr0 vdso cpu program capable = some (none, after)) :
    after.scheduler = kernel.scheduler := by
  obtain _ | _ | _ := Kernel.spawned_of_spawn hspawn <;> rfl

/-- A spawned program that is not a system binary has the permissions of its
parent, or declares permissions. -/
theorem spawn_granted
    (hparent : kernel.scheduler.view grantedPermissions
      (kernel.scheduler.currentPids cpu) = some granted)
    (huntrusted : isSystemBinaryPath program.name = false)
    (hspawn : kernel.spawn mmfr0 vdso cpu program capable = some (some child, after)) :
    ∃ found, after.scheduler.view grantedPermissions child = some found ∧
      (found = granted ∨ ∃ file, program.file = some file ∧
        elfHasBazzultoPermissionsSection file = some true) := by
  obtain _ | _ | _ | @⟨_, _, _, _, _, hasSection, _, _, hfile, _, _, hcreate, hsection, rfl, rfl⟩ :=
    Kernel.spawned_of_spawn hspawn
  obtain ⟨parent, hget, rfl⟩ := map_eq_some_iff.mp hparent
  have hcurrent : kernel.scheduler.currentProcess cpu = some parent := hget
  rw [view_makeReady (fun _ _ => rfl), view_updateProcess, if_pos rfl,
    resolveExecPermissions, if_neg (by simp [huntrusted]), hcurrent]
  cases hasSection with
  | true =>
    refine ⟨(new child (some (kernel.scheduler.currentPids cpu))).grantedPermissions,
      ?_, .inr ⟨_, hfile, hsection⟩⟩
    rw [if_pos rfl, view_createProcess hcreate, if_pos rfl]
    rfl
  | false =>
    refine ⟨_, ?_, .inl rfl⟩
    exact (view_createProcess hcreate child).trans (if_pos rfl)

/-- Without Tier 1 the patterns are the current ones or those of permissiond. -/
theorem execPermissions_untrusted {name : Text} {hasSection hashable : Bool} {current : Sets}
    {decision : Option Sets} (huntrusted : isSystemBinaryPath name = false)
    (h : execPermissions name hasSection hashable current answer = .ok decision) :
    ∀ sets, decision = some sets → sets.1 = current.1 ∨ answer = .granted sets.1 := by
  rintro _ rfl
  unfold execPermissions resolveExecPermissions at h
  rw [if_neg (by simp [huntrusted])] at h
  split at h
  · cases hasSection <;> simp [huntrusted] at h
    exact .inl (by rw [← h])
  all_goals first
    | (cases h; exact .inl rfl)
    | (split at h <;> cases h <;> first | exact .inr rfl | exact .inl rfl)

theorem exec_keeps {done : Bool}
    (hexec : kernel.exec mmfr0 vdso cpu program answer = some (done, after)) :
    (∀ pid, pid ≠ kernel.scheduler.currentPids cpu → after.scheduler.view grantedPermissions pid =
        kernel.scheduler.view grantedPermissions pid) ∧
    (done = false → after.scheduler = kernel.scheduler) := by
  cases Kernel.executed_of_exec hexec with
  | refused | stopped => exact ⟨fun _ _ => rfl, fun _ => rfl⟩
  | installed =>
    refine ⟨fun pid hne => ?_, fun hdone => nomatch hdone⟩
    rw [view_updateProcess, if_neg hne]

/-- `exec` of a program that is not a system binary keeps the permissions of the
process or installs those that permissiond grants. -/
theorem exec_granted
    (hcurrent : kernel.scheduler.view grantedPermissions
      (kernel.scheduler.currentPids cpu) = some granted)
    (huntrusted : isSystemBinaryPath program.name = false)
    (hexec : kernel.exec mmfr0 vdso cpu program answer = some (true, after)) :
    ∃ found, after.scheduler.view grantedPermissions
        (kernel.scheduler.currentPids cpu) = some found ∧
      (found = granted ∨ answer = .granted found) := by
  obtain ⟨process, hget, rfl⟩ := map_eq_some_iff.mp hcurrent
  have hproc : kernel.scheduler.currentProcess cpu = some process := hget
  cases Kernel.executed_of_exec hexec with
  | @installed _ _ _ _ _ _ decision _ _ hsets hdecision =>
    rw [hproc] at hsets
    have hgranted := execPermissions_untrusted huntrusted hdecision
    rw [← hsets] at hgranted
    rw [view_updateProcess, if_pos rfl]
    cases decision with
    | none => exact ⟨_, hcurrent, .inl rfl⟩
    | some sets =>
      refine ⟨sets.1, ?_, hgranted sets rfl⟩
      exact view_of_get (fun _ => sets.1) hget

end

/-! ## One step, and runs -/

/-- A careful step keeps confined processes within the bound. -/
theorem Bounded.step {action : Action} (h : Bounded bound lineage)
    (hcareful : Careful bound lineage action)
    (hstep : step mmfr0 vdso lineage action = some next) : Bounded bound next := by
  cases action with
  | dispatch cpu pid =>
    obtain ⟨_, hswitch, rfl⟩ := map_eq_some_iff.mp hstep
    exact h.of_view fun pid _ => view_switchTo (fun _ _ => rfl) hswitch pid
  | fork cpu =>
    have hspec := fork_spec mmfr0 lineage.kernel cpu
    simp only [Permission.step] at hstep
    split at hstep
    next hfork =>
      cases hstep
      rw [hfork] at hspec
      refine h.adopt hspec.1.others fun hconfined _ => ?_
      obtain ⟨granted, hgranted, hwithin⟩ := h _ hconfined
      exact ⟨granted, hspec.2 granted hgranted, hwithin⟩
    next hfork =>
      cases hstep
      rw [hfork] at hspec
      exact h.of_view hspec
  | cloneThread cpu =>
    have hspec := cloneThread_spec lineage.kernel cpu
    simp only [Permission.step] at hstep
    split at hstep
    next hclone =>
      cases hstep
      rw [hclone] at hspec
      refine h.adopt hspec.others fun hconfined _ => ?_
      obtain ⟨granted, hgranted⟩ := ne_none_iff_exists'.mp hspec.there
      exact ⟨granted, hgranted, fun path _ => hcareful hconfined path⟩
    next hclone =>
      cases hstep
      rw [hclone] at hspec
      exact h.of_view hspec
  | spawn cpu program capable =>
    simp only [Permission.step] at hstep
    split at hstep
    · cases hstep
    next hspawn =>
      cases hstep
      refine h.adopt (spawn_creates hspawn).1.others fun hconfined huntrusted => ?_
      obtain ⟨granted, hgranted, hwithin⟩ := h _ hconfined
      rw [Bool.not_eq_true'] at huntrusted
      obtain ⟨found, hfound, hsame | ⟨file, hfile, hsection⟩⟩ :=
        spawn_granted hgranted huntrusted hspawn
      · exact ⟨found, hfound, hsame ▸ hwithin⟩
      rcases hcareful hconfined with htrusted | hplain | hfull
      · rw [huntrusted] at htrusted
        cases htrusted
      · exact absurd hsection (hplain file hfile)
      · exact ⟨found, hfound, fun path _ => hfull path⟩
    next hspawn =>
      cases hstep
      refine h.of_view fun pid _ => ?_
      rw [spawn_refused hspawn]
  | exec cpu program answer =>
    simp only [Permission.step] at hstep
    split at hstep
    · cases hstep
    next hexec =>
      cases hstep
      refine h.adopt (exec_keeps hexec).1 fun hconfined huntrusted => ?_
      obtain ⟨_, hgranted, hwithin⟩ := h _ hconfined
      rw [Bool.not_eq_true'] at huntrusted
      obtain ⟨found, hfound, hsame | hanswer⟩ := exec_granted hgranted huntrusted hexec
      · exact ⟨found, hfound, hsame ▸ hwithin⟩
      rcases hcareful hconfined with htrusted | hgrants
      · rw [huntrusted] at htrusted
        cases htrusted
      · exact ⟨found, hfound, hgrants found hanswer⟩
    next hexec =>
      cases hstep
      refine h.of_view fun pid _ => ?_
      rw [(exec_keeps hexec).2 rfl]

/-- In every run of careful steps that starts from a process, no confined
descendant may access what the process could not. -/
theorem permissions_never_grow (mmfr0 : Word) (vdso : Vdso) (start : Kernel) (pid : Pid)
    (process : Process) (actions : List Action) (final : Lineage)
    (hprocess : start.scheduler.pool.get pid = some process)
    (hcareful : Along (step mmfr0 vdso) (Careful process.grantedPermissions)
      ⟨start, fun other => other = pid⟩ actions)
    (hrun : run (step mmfr0 vdso) ⟨start, fun other => other = pid⟩ actions = some final)
    (descendant : Pid) (record : Process) (hconfined : final.confined descendant = true)
    (hrecord : final.kernel.scheduler.pool.get descendant = some record) :
    Within record.grantedPermissions process.grantedPermissions := by
  have hstart : Bounded process.grantedPermissions ⟨start, fun other => other = pid⟩ := by
    intro _ hother
    obtain rfl := of_decide_eq_true hother
    exact ⟨_, view_of_get _ hprocess, fun _ hallows => hallows⟩
  obtain ⟨_, hgranted, _⟩ :=
    run_invariant (fun _ _ _ hbounded hcare hstep => hbounded.step hcare hstep) actions _ final
      hstart hcareful hrun descendant hconfined
  rw [view_of_get _ hrecord] at hgranted
  rwa [some.inj hgranted]

/-! ## A restricted process -/

/-- A process that may access one directory. -/
def sampleProcess : Process :=
  { new ⟨1, 1⟩ none with
    state := .running
    grantedPermissions := [⟨"//ram:/tmp/**".toList⟩] }

/-- The sample process runs on every core. -/
def sampleKernel : Kernel where
  scheduler :=
    { init with
      pool := Pool.initIdle.insert sampleProcess
      currentPids := fun _ => ⟨1, 1⟩ }
  memory := sampleMemory

/-- The sample process, confined. -/
def sampleLineage : Lineage := ⟨sampleKernel, fun other => other = ⟨1, 1⟩⟩

/-- A thread of a process with one pattern has none, and may access everything. -/
theorem thread_escapes_permissions :
    sampleProcess.grantedPermissions ≠ [] ∧
      ∃ final record, run (step sampleMmfr0 sampleVdso) sampleLineage
          [.cloneThread bootCpu] = some final ∧
        final.confined ⟨2, 1⟩ = true ∧
        final.kernel.scheduler.pool.get ⟨2, 1⟩ = some record ∧
        ¬ Within record.grantedPermissions sampleProcess.grantedPermissions := by
  refine ⟨by decide, ?_⟩
  have hview : (run (step sampleMmfr0 sampleVdso) sampleLineage
      [.cloneThread bootCpu]).map (fun final => (final.confined ⟨2, 1⟩,
        final.kernel.scheduler.view grantedPermissions ⟨2, 1⟩)) =
      some (true, some []) := by
    decide +kernel
  obtain ⟨final, hrun, hfinal⟩ := map_eq_some_iff.mp hview
  obtain ⟨hconfined, hgranted⟩ := Prod.mk.inj hfinal
  obtain ⟨record, hrecord, hempty⟩ := map_eq_some_iff.mp hgranted
  refine ⟨final, record, hrun, hconfined, hrecord, fun hwithin => ?_⟩
  have hallows := hwithin "//user:/home".toList (by rw [hempty]; decide)
  cases hallows

/-- A program without declared permissions. -/
def sampleProgram : Kernel.Program :=
  ⟨"/data/app".toList, some (sampleFile 0x400000), [], [], 0, 0⟩

/-- The process forks, and the child spawns a program. -/
def sampleRun : List Action :=
  [.fork bootCpu, .dispatch bootCpu ⟨2, 1⟩, .spawn bootCpu sampleProgram true]

theorem spawned_program_stays_confined :
    ∃ final record, run (step sampleMmfr0 sampleVdso) sampleLineage sampleRun = some final ∧
      final.kernel.scheduler.pool.get ⟨3, 1⟩ = some record ∧
      Within record.grantedPermissions sampleProcess.grantedPermissions := by
  have hview : (run (step sampleMmfr0 sampleVdso) sampleLineage sampleRun).map
      (fun final => (final.confined ⟨3, 1⟩,
        (final.kernel.scheduler.view isThread ⟨3, 1⟩))) = some (true, some false) := by
    decide +kernel
  have hplain : elfHasBazzultoPermissionsSection (sampleFile 0x400000) = some false := by
    decide +kernel
  obtain ⟨final, hrun, hfinal⟩ := map_eq_some_iff.mp hview
  obtain ⟨hconfined, hthere⟩ := Prod.mk.inj hfinal
  obtain ⟨record, hrecord, -⟩ := map_eq_some_iff.mp hthere
  refine ⟨final, record, hrun, hrecord, permissions_never_grow sampleMmfr0
    sampleVdso sampleKernel ⟨1, 1⟩ sampleProcess sampleRun final rfl ?_ hrun ⟨3, 1⟩ record
    hconfined hrecord⟩
  refine along_cons trivial fun _ _ => along_cons trivial fun _ _ =>
    along_cons (fun _ => .inr (.inl fun file hfile => ?_)) fun _ _ => along_nil _ _
  rw [← some.inj hfile, hplain]
  simp

end Bazzulto.Permission
