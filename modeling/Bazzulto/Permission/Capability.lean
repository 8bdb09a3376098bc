/-
  Permission/Capability.lean --- the capability set of a process and its origin.

  `capabilities` is a field of the process record that only process creation and
  the boot code write: `Process::new` clears it, `fork` copies it, `sys_spawn`
  installs the mask it is given once it has compared it with the caller's set, and
  `clone_thread` and `sys_exec` leave it (kernel/src/scheduler/mod.rs,
  kernel/src/systemcalls/process.rs).  The field is kept beside the kernel here,
  with the sets that the creators of a process held when they created it.
-/
import Bazzulto.Permission.Confinement

set_option autoImplicit false

namespace Bazzulto.Permission

open Option Foundation Loader Memory Function

/-! ## Capability sets -/

def capDisplay : Word := 1#64 <<< 0

def capSetcap : Word := 1#64 <<< 1

def capAll : Word := capDisplay ||| capSetcap

/-- Every bit of `set` is in `bound`. -/
def CapsWithin (set bound : Word) : Prop := set &&& ~~~bound = 0#64
  deriving Decidable

theorem capsWithin_iff {set bound : Word} :
    CapsWithin set bound ↔ ∀ bit, set.getLsbD bit = true → bound.getLsbD bit = true := by
  constructor
  · intro h bit hbit
    have hlt := BitVec.lt_of_getLsbD hbit
    have hzero := congrArg (fun word => word.getLsbD bit) h
    simpa [hbit, hlt] using hzero
  · intro h
    refine BitVec.eq_of_getLsbD_eq fun bit hlt => ?_
    cases hbit : set.getLsbD bit with
    | false => simp [hbit]
    | true => simp [h bit hbit]

theorem CapsWithin.refl (set : Word) : CapsWithin set set :=
  capsWithin_iff.mpr fun _ h => h

theorem capsWithin_zero (bound : Word) : CapsWithin 0#64 bound :=
  capsWithin_iff.mpr fun _ h => absurd h (by simp)

/-- The test of `sys_spawn`: a mask that is not empty needs `CAP_SETCAP` and may
hold nothing that the caller does not. -/
def mayGrant (parentCaps mask : Word) : Bool :=
  mask == 0#64 || (parentCaps &&& capSetcap != 0#64 && mask &&& ~~~parentCaps == 0#64)

theorem mayGrant_spec {parentCaps mask : Word} (h : mayGrant parentCaps mask = true) :
    CapsWithin mask parentCaps ∧ (mask ≠ 0#64 → parentCaps &&& capSetcap ≠ 0#64) := by
  simp only [mayGrant, Bool.or_eq_true, beq_iff_eq, Bool.and_eq_true, bne_iff_ne] at h
  rcases h with hzero | ⟨hsetcap, hwithin⟩
  · exact ⟨hzero ▸ capsWithin_zero parentCaps, fun hne => absurd hzero hne⟩
  · exact ⟨hwithin, fun _ => hsetcap⟩

/-! ## Steps -/

/-- The kernel, the `capabilities` field of each process, and the sets that the
creator of the process, the creator of that one and so on held when they created
it. -/
structure Authority where
  kernel : Kernel
  capabilities : Pid → Word
  creators : Pid → List Word

namespace Authority

section

variable (authority : Authority)

/-- The process that a core runs. -/
def current (cpu : Cpu) : Pid :=
  authority.kernel.scheduler.currentPids cpu

/-- The set of the calling process, empty if it is not in the pool. -/
def held (cpu : Cpu) : Word :=
  if (authority.kernel.scheduler.currentProcess cpu).isSome then
    authority.capabilities (authority.current cpu)
  else 0#64

/-- A process that `kernel` has and the state does not. -/
def added (kernel : Kernel) (pid : Pid) : Bool :=
  (authority.kernel.scheduler.pool.get pid).isNone &&
    (kernel.scheduler.pool.get pid).isSome

/-- After a step of the kernel by `creator`: the records it has added come from
`Process::new`. -/
def settle (creator : Pid) (kernel : Kernel) : Authority where
  kernel := kernel
  capabilities := fun pid =>
    if authority.added kernel pid then 0#64 else authority.capabilities pid
  creators := fun pid =>
    if authority.added kernel pid then
      authority.capabilities creator :: authority.creators creator
    else authority.creators pid

/-- Write the set of a process. -/
def grant (pid : Pid) (set : Word) : Authority :=
  { authority with capabilities := update authority.capabilities pid set }

end

/-- One operation. -/
inductive Action where
  /-- Scheduling, signals, waiting and exit. -/
  | act (action : Scheduler.Action)
  | fork (cpu : Cpu)
  | cloneThread (cpu : Cpu)
  | spawn (cpu : Cpu) (program : Kernel.Program) (mask : Word)
  | exec (cpu : Cpu) (program : Kernel.Program) (answer : Answer)

/-- A scheduler operation that creates no process. -/
def schedules : Scheduler.Action → Bool
  | .spawn .. => false
  | _ => true

/-- The transitions. -/
def step (mmfr0 : Word) (vdso : Vdso) (authority : Authority) : Action → Option Authority
  | .act action =>
    if schedules action then
      (authority.kernel.scheduler.step action).map fun scheduler =>
        { authority with kernel := { authority.kernel with scheduler } }
    else none
  | .fork cpu =>
    match authority.kernel.fork mmfr0 cpu with
    | (.ok child, kernel) =>
      some ((authority.settle (authority.current cpu) kernel).grant child
        (authority.capabilities (authority.current cpu)))
    | (.error _, kernel) => some (authority.settle (authority.current cpu) kernel)
  | .cloneThread cpu =>
    some (authority.settle (authority.current cpu) (authority.kernel.cloneThread cpu).2)
  | .spawn cpu program mask =>
    match authority.kernel.spawn mmfr0 vdso cpu program
        (mayGrant (authority.held cpu) mask) with
    | none => none
    | some (some child, kernel) =>
      some ((authority.settle (authority.current cpu) kernel).grant child mask)
    | some (none, kernel) => some (authority.settle (authority.current cpu) kernel)
  | .exec cpu program answer =>
    (authority.kernel.exec mmfr0 vdso cpu program answer).map fun (_, kernel) =>
      authority.settle (authority.current cpu) kernel

/-- Boot: the first process holds every capability and the others none. -/
def boot (kernel : Kernel) (first : Pid) : Authority where
  kernel := kernel
  capabilities := fun pid => if pid = first then capAll else 0#64
  creators := fun _ => []

/-! ## The children of each call -/

theorem added_of_creates {authority : Authority} {after : Kernel} {child : Pid}
    (h : Creates authority.kernel.scheduler after.scheduler child) :
    authority.added after child = true := by
  have hsome : (after.scheduler.pool.get child).isSome := by
    simpa [Scheduler.view, isSome_iff_ne_none] using h.there
  simp [added, h.fresh, hsome]

/-! ## The line of creators -/

/-- The set of a process lies within that of its creator, that one within the one of
the creator's creator, and so on. -/
def Descends : Word → List Word → Prop
  | _, [] => True
  | set, creator :: rest => CapsWithin set creator ∧ Descends creator rest

theorem Descends.held {bit : Nat} {creators : List Word} :
    ∀ {set : Word}, Descends set creators → set.getLsbD bit = true →
      ∀ creator ∈ creators, creator.getLsbD bit = true := by
  induction creators with
  | nil => exact fun _ _ creator hcreator => nomatch hcreator
  | cons creator rest ih =>
    intro _ h hbit
    have hheld := capsWithin_iff.mp h.1 bit hbit
    exact List.forall_mem_cons.mpr ⟨hheld, ih h.2 hheld⟩

/-- A process without a creator has the set it had at boot, and every other one
descends from its creators. -/
structure Descended (first : Pid) (authority : Authority) : Prop where
  original : ∀ pid, authority.creators pid = [] →
    authority.capabilities pid = if pid = first then capAll else 0#64
  descends : ∀ pid, Descends (authority.capabilities pid) (authority.creators pid)

variable {first creator : Pid} {authority next : Authority} {mmfr0 : Word} {vdso : Vdso}

theorem Descended.settle (h : authority.Descended first) (kernel : Kernel) :
    (authority.settle creator kernel).Descended first := by
  refine ⟨fun pid hnone => ?_, fun pid => ?_⟩
  · simp only [Authority.settle] at hnone ⊢
    split at hnone
    · cases hnone
    next hold =>
      rw [if_neg hold]
      exact h.original pid hnone
  · simp only [Authority.settle]
    split
    · exact ⟨capsWithin_zero _, h.descends creator⟩
    · exact h.descends pid

/-- A new process is given no more than its creator holds. -/
theorem Descended.grant (h : authority.Descended first) {kernel : Kernel} {child : Pid}
    {set : Word} (hadded : authority.added kernel child = true)
    (hset : CapsWithin set (authority.capabilities creator)) :
    ((authority.settle creator kernel).grant child set).Descended first := by
  have hsettled : (authority.settle creator kernel).Descended first := h.settle kernel
  have hcreators : (authority.settle creator kernel).creators child =
      authority.capabilities creator :: authority.creators creator := if_pos hadded
  refine ⟨fun pid hnone => ?_, fun pid => ?_⟩
  · have hpid : pid ≠ child := by
      rintro rfl
      exact absurd (hcreators.symm.trans hnone) (by simp)
    simp only [Authority.grant, update_of_ne hpid]
    exact hsettled.original pid hnone
  · obtain rfl | hpid := eq_or_ne pid child
    · simp only [Authority.grant, update_self, hcreators]
      exact ⟨hset, h.descends creator⟩
    · simp only [Authority.grant, update_of_ne hpid]
      exact hsettled.descends pid

theorem held_within (authority : Authority) (cpu : Cpu) :
    CapsWithin (authority.held cpu) (authority.capabilities (authority.current cpu)) := by
  unfold Authority.held
  split
  · exact CapsWithin.refl _
  · exact capsWithin_zero _

theorem Descended.step {action : Action} (h : authority.Descended first)
    (hstep : step mmfr0 vdso authority action = some next) : next.Descended first := by
  cases action with
  | act action =>
    simp only [Authority.step] at hstep
    split at hstep
    · obtain ⟨_, -, rfl⟩ := map_eq_some_iff.mp hstep
      exact ⟨h.original, h.descends⟩
    · cases hstep
  | fork cpu =>
    have hspec := fork_spec mmfr0 authority.kernel cpu
    simp only [Authority.step] at hstep
    split at hstep
    next hfork =>
      cases hstep
      rw [hfork] at hspec
      exact h.grant (added_of_creates hspec.1) (CapsWithin.refl _)
    · cases hstep
      exact h.settle _
  | cloneThread cpu =>
    cases hstep
    exact h.settle _
  | spawn cpu program mask =>
    simp only [Authority.step] at hstep
    split at hstep
    · cases hstep
    next hspawn =>
      cases hstep
      obtain ⟨hcreates, hmay⟩ := spawn_creates hspawn
      have hheld := capsWithin_iff.mp (held_within authority cpu)
      have hmask := capsWithin_iff.mp (mayGrant_spec hmay).1
      exact h.grant (added_of_creates hcreates) (capsWithin_iff.mpr fun bit hbit => hheld bit (hmask bit hbit))
    · cases hstep
      exact h.settle _
  | exec cpu program answer =>
    obtain ⟨_, -, rfl⟩ := map_eq_some_iff.mp hstep
    exact h.settle _

/-! ## The steps that could enlarge a set -/

section

variable (mmfr0 : Word) (vdso : Vdso) (authority : Authority) (action : Action)

/-- A spawned process with a set that is not empty has a caller with `CAP_SETCAP`, and
`exec` adds to no set. -/
def Guarded : Prop :=
  ∀ next, step mmfr0 vdso authority action = some next →
    match action with
    | .spawn cpu _ _ => ∀ pid, authority.added next.kernel pid = true →
        next.capabilities pid ≠ 0#64 → authority.held cpu &&& capSetcap ≠ 0#64
    | .exec _ _ _ => ∀ pid, CapsWithin (next.capabilities pid) (authority.capabilities pid)
    | _ => True

theorem guarded : Guarded mmfr0 vdso authority action := by
  intro next hstep
  cases action with
  | act | fork | cloneThread => trivial
  | spawn cpu program mask =>
    intro pid hadded hset
    simp only [Authority.step] at hstep
    split at hstep
    · cases hstep
    next child _ hspawn =>
      cases hstep
      by_cases hpid : pid = child
      · rw [hpid] at hset
        simp only [grant, update_self] at hset
        exact (mayGrant_spec (spawn_creates hspawn).2).2 hset
      simp only [grant, update_of_ne hpid] at hset hadded
      simp only [settle] at hset hadded
      rw [if_pos hadded] at hset
      exact absurd rfl hset
    · cases hstep
      simp only [settle] at hset hadded
      rw [if_pos hadded] at hset
      exact absurd rfl hset
  | exec cpu program answer =>
    intro _
    obtain ⟨_, -, rfl⟩ := map_eq_some_iff.mp hstep
    simp only [settle]
    split
    · exact capsWithin_zero _
    · exact CapsWithin.refl _

end

/-- In every run from boot the set of each process lies within the one its creator
held when it created it, and so on up to boot, where only the first process has a set
that is not empty; so a bit of a process was held by all of its creators.  Spawning
with a set that is not empty takes `CAP_SETCAP`, and exec enlarges no set. -/
theorem capabilities_descend (mmfr0 : Word) (vdso : Vdso) (kernel : Kernel) (first : Pid)
    (actions : List Action) (final : Authority)
    (hrun : run (step mmfr0 vdso) (boot kernel first) actions = some final) :
    final.Descended first ∧
      (∀ pid bit, (final.capabilities pid).getLsbD bit = true →
        ∀ creator ∈ final.creators pid, creator.getLsbD bit = true) ∧
      Along (step mmfr0 vdso) (Guarded mmfr0 vdso) (boot kernel first) actions := by
  have hboot : (boot kernel first).Descended first := ⟨fun _ _ => rfl, fun _ => trivial⟩
  have hfinal : final.Descended first :=
    run_invariant (fun _ _ _ h _ hstep => Descended.step h hstep) actions _ final hboot
      (along_of_preserved (fun _ _ _ _ _ => trivial) (fun _ _ _ => trivial) actions _ trivial)
      hrun
  refine ⟨hfinal, fun pid bit hbit => ?_, ?_⟩
  · exact (hfinal.descends pid).held hbit
  · exact along_of_preserved (fun _ _ _ _ _ => trivial)
      (fun authority action _ => guarded mmfr0 vdso authority action) actions _ trivial

/-- The first process forks, and spawns a program that may use the display. -/
theorem spawned_display_descends :
    ∃ final, run (step sampleMmfr0 sampleVdso) (boot sampleKernel ⟨1, 1⟩)
        [.fork bootCpu, .spawn bootCpu sampleProgram capDisplay] = some final ∧
      final.capabilities ⟨3, 1⟩ = capDisplay ∧ final.creators ⟨3, 1⟩ = [capAll] ∧
      final.Descended ⟨1, 1⟩ := by
  have hview : (run (step sampleMmfr0 sampleVdso) (boot sampleKernel ⟨1, 1⟩)
      [.fork bootCpu, .spawn bootCpu sampleProgram capDisplay]).map
        (fun final => (final.capabilities ⟨3, 1⟩, final.creators ⟨3, 1⟩)) =
      some (capDisplay, [capAll]) := by
    decide +kernel
  obtain ⟨final, hrun, hfinal⟩ := map_eq_some_iff.mp hview
  obtain ⟨hset, hcreators⟩ := Prod.mk.inj hfinal
  exact ⟨final, hrun, hset, hcreators, (capabilities_descend sampleMmfr0
    sampleVdso sampleKernel ⟨1, 1⟩ _ final hrun).1⟩

end Authority
end Bazzulto.Permission
