/-
  Vfs/Panic.lean --- the file calls that stop the kernel.

  The calls check their arguments in one layer and use them as indices, offsets and
  lengths in another.  On pipes and files of the tmpfs, in every state that the
  processes of a machine can bring about, a call stops the kernel in exactly these
  situations: the flag masks are indexed with a descriptor that is not looked up,
  a write ends behind the largest offset, a seek leaves the signed integers, and
  `sys_mount` is given a string longer than the buffer it is copied to, a disk with a
  GPT whose entries end behind the sectors read, or a FAT32 volume with no sectors
  per cluster or too many clusters.
-/
import Bazzulto.Vfs.Soundness

set_option autoImplicit false

namespace Bazzulto.Vfs

open Foundation List FileDescriptorTable

/-! ## Calls -/

/-- A panic is a fault other than a failed allocation. -/
def Panics (outcome : Outcome) : Prop := ∃ fault, outcome = .error fault ∧ fault ≠ .allocation

section Calls

variable {ok : Prop} {system : System} {caller : Caller} {mask : FdMask} {fd : Int}
  {pointer : Nat} {inode : InodeId} {call : Call}

theorem not_panics {outcome : Outcome} (hsound : Sound system caller)
    (hyields : Yields ok (fun _ => True) system caller outcome) (hok : ok) : ¬ Panics outcome := by
  rintro ⟨_, rfl, hne⟩
  exact hne (hyields hsound hok)

/-! ### The faults -/

theorem maskTest_of_le {fd : Nat} (hfd : 1024 ≤ fd) : maskTest mask fd = .error .index := by
  rw [maskTest, dif_neg (by omega)]

theorem maskPut_of_le {on : Bool} {fd : Nat} (hfd : 1024 ≤ fd) :
    maskPut on mask fd = .error .index := by
  unfold maskPut
  split
  · rw [maskSet, dif_neg (by omega)]
  · rw [maskClear, dif_neg (by omega)]

theorem sysPwrite64_fault {offset : Nat} {source : List UInt8} {inner : TmpfsFile}
    (hinode : descriptorInode caller fd = some inode)
    (hnode : system.inodes.node inode = .file inner)
    (hvalid : validateUserPointer pointer source.length = true)
    (hlong : 2 ^ 64 ≤ offset + source.length) :
    sysPwrite64 system caller fd pointer source offset = .error .overflow := by
  have hwrite : (Node.file inner).writeAt system.limit offset source = .error .overflow := by
    rw [Node.writeAt, Node.writeFile, Checked.add, if_neg (by omega)]
    rfl
  obtain ⟨_, _, hget⟩ := descriptorInode_eq_some hinode
  rw [sysPwrite64, if_neg (by omega), if_neg (by simp [hvalid]), hget]
  dsimp only
  rw [hnode, hwrite]
  rfl

theorem panics_mountPartition {source target fstype : Text} {device : Fat32.BlockDevice}
    {partition : Fat32.Partition} (hfits : ¬ VolumeFits target fstype device partition) :
    Panics (mountPartition system caller source target fstype device partition) := by
  simp only [VolumeFits, Classical.not_imp] at hfits
  obtain ⟨htarget, hkind, hcandidate, hvolume, hcounted⟩ := hfits
  obtain ⟨path, hpath⟩ := Option.isSome_iff_exists.mp htarget
  obtain ⟨fault, hfault, hne⟩ := Fat32.BlockDevice.fat32InitPartition_fault hvolume hcounted
  have hprobe : ∀ system : System,
      probePartition system device partition fstype = .error fault := by
    intro system
    rw [probePartition, if_pos hkind, if_neg (by simp [hcandidate]), hfault]
    rfl
  refine ⟨fault, ?_, hne⟩
  rw [mountPartition, hpath]
  dsimp only
  rw [hprobe]
  rfl

theorem panics_mountDecoded {source target fstype : Text}
    (hfits : ¬ DiskFits system.drivers source target fstype) :
    Panics (mountDecoded system caller source target fstype) := by
  simp only [DiskFits, not_forall] at hfits
  obtain ⟨index, part, hsource, device, hdevice, hfits⟩ := hfits
  rw [mountDecoded, hsource]
  dsimp only
  rw [hdevice]
  dsimp only
  by_cases htable : device.TableFits
  · simp only [htable, true_and, not_forall] at hfits
    obtain ⟨partitions, partition, hpartitions, hpartition, hvolume⟩ := hfits
    rw [hpartitions]
    dsimp only [bind, Except.bind]
    rw [hpartition]
    exact panics_mountPartition hvolume
  · rw [Fat32.BlockDevice.partitions_fault htable]
    exact ⟨.slice, rfl, by simp⟩

theorem panics_sysMount {source target fstype : UserString}
    (hharm : ¬ Harmless system caller (.mount source target fstype)) :
    Panics (sysMount system caller source target fstype) := by
  simp only [Harmless, Classical.not_imp] at hharm
  obtain ⟨hgranted, hsource, hharm⟩ := hharm
  by_cases hfits : MountFits source target
  · simp only [hfits, true_and, not_forall] at hharm
    obtain ⟨device, place, kind, hdevice, hplace, hkind, hdisk⟩ := hharm
    rw [sysMount_of_fits hgranted hsource hfits, hdevice, hplace, hkind]
    exact panics_mountDecoded hdisk
  · rw [sysMount_of_not_fits hgranted hsource hfits]
    exact ⟨.slice, rfl, by simp⟩

theorem panics_of_not_harmless (hsound : Sound system caller)
    (hcovered : Covered system caller call) (hharm : ¬ Harmless system caller call) :
    Panics (dispatch system caller call) := by
  cases call with
  | read fd pointer length =>
    simp only [Harmless, Classical.not_imp, Int.not_lt] at hharm
    refine ⟨.index, ?_, by simp⟩
    rw [dispatch, sysRead, if_neg (by omega), if_neg (by simp [hharm.2.1]),
      maskTest_of_le (by omega)]
    rfl
  | fcntl fd cmd arg =>
    simp only [Harmless, Classical.not_imp, Int.not_lt] at hharm
    refine ⟨.index, ?_, by simp⟩
    rw [dispatch]
    unfold sysFcntl
    rw [if_neg (by omega), maskTest_of_le (by omega), maskTest_of_le (by omega),
      maskPut_of_le (by omega), maskPut_of_le (by omega)]
    obtain ⟨-, rfl | rfl | rfl | rfl, -⟩ := hharm <;> rfl
  | pwrite64 fd pointer source offset =>
    simp only [Harmless, not_forall, Nat.not_lt] at hharm
    obtain ⟨inode, hinode, hvalid, hlong⟩ := hharm
    obtain ⟨hfd, position, hget⟩ := descriptorInode_eq_some hinode
    obtain ⟨inner, hnode⟩ := hcovered hfd _ hget
    exact ⟨_, sysPwrite64_fault hinode hnode hvalid hlong, by simp⟩
  | seek fd offset whence =>
    simp only [Harmless, not_forall] at hharm
    obtain ⟨hfd, inode, _, hget, hsum⟩ := hharm
    obtain ⟨inner, hnode⟩ := hcovered hfd _ hget
    have hposition := hsound.position_lt hget hnode
    have hsize : (system.inodes.node inode).stat.size < 2 ^ 63 := by
      rw [hnode]
      exact Nat.lt_of_le_of_lt (hsound.inodes.files inode inner hnode) hsound.limit_lt
    refine ⟨.overflow, ?_, by simp⟩
    rw [dispatch, sysSeek, if_neg (by omega), hget]
    dsimp only
    refine congrArg (· >>= _) (?_ : seekTarget _ _ _ _ = .error .overflow)
    rcases not_and_or.mp hsum with hcurrent | hend
    · obtain ⟨rfl, hsigned⟩ := Classical.not_imp.mp hcurrent
      rw [← asI64_of_lt hposition] at hsigned
      rw [seekTarget, Checked.addSigned, if_neg hsigned]
      rfl
    · obtain ⟨rfl, hsigned⟩ := Classical.not_imp.mp hend
      rw [← asI64_of_lt hsize] at hsigned
      rw [seekTarget, if_neg (by decide), if_neg (by decide), Checked.addSigned, if_neg hsigned]
      rfl
  | mount source target fstype => exact panics_sysMount hharm
  | «open» | creat | write | pread64 | ftruncate | close | pipe | dup | dup2 | dup3 =>
    exact absurd trivial hharm

end Calls

/-! ## Machines -/

/-- The shared part of the system, and the processes and threads that use it. -/
structure Machine where
  system : System
  callers : List Caller

/-- What may happen next on a machine. -/
inductive Moves (machine : Machine) : Machine → Prop where
  -- a call, the rest of a call that waited, or another answer of a driver
  | step {index : Nat} {caller : Caller} {event : Event} {after : System × Caller}
      (hcaller : machine.callers[index]? = some caller)
      (hstep : step (machine.system, caller) event = some after) :
      Moves machine ⟨after.1, machine.callers.set index after.2⟩
  -- `fork` and `spawn`
  | fork {index : Nat} {caller : Caller} (hcaller : machine.callers[index]? = some caller)
      (child : Caller)
      (htable : child.table = (caller.table.cloneForFork machine.system.pipes).1) :
      Moves machine
        ⟨{ machine.system with pipes := (caller.table.cloneForFork machine.system.pipes).2 },
          machine.callers ++ [child]⟩
  -- `clone_thread`: the thread starts with the table of the process
  | thread {index : Nat} {caller : Caller} (hcaller : machine.callers[index]? = some caller)
      (child : Caller) (hslots : child.table.slots = caller.table.slots) :
      Moves machine ⟨machine.system, machine.callers ++ [child]⟩
  -- a thread sees what another did to the table they share, and other calls change
  -- the flags of descriptors and the other fields of the process
  | share {index : Nat} {caller : Caller} (hcaller : machine.callers[index]? = some caller)
      (other : Nat) (after : Caller) (hslots : after.table.slots = caller.table.slots) :
      Moves machine ⟨machine.system, machine.callers.set other after⟩
  -- other calls install descriptors of their own inodes
  | install {index : Nat} {caller : Caller} (hcaller : machine.callers[index]? = some caller)
      (inode : InodeId) :
      Moves machine
        ⟨(install machine.system caller (.inoFile inode 0)).2.1,
          machine.callers.set index (install machine.system caller (.inoFile inode 0)).2.2⟩
  -- `exec` closes some descriptors, and `exit` all
  | close {index fd : Nat} {caller : Caller} (hcaller : machine.callers[index]? = some caller)
      {table : FileDescriptorTable} {pipes : Pipes}
      (hclose : caller.table.close machine.system.pipes fd = some (table, pipes)) :
      Moves machine
        ⟨{ machine.system with pipes := pipes },
          machine.callers.set index { caller with table := table }⟩
  -- other calls make, name and change files, and mount file systems
  | files {inodes : Inodes} (mounts : MountTable)
      (hchange : Change machine.system.limit (fun _ => True) machine.system.inodes inodes) :
      Moves machine ⟨{ machine.system with inodes := inodes, mounts := mounts }, machine.callers⟩

/-- Every process of the machine is in a sound state. -/
structure Machine.Sound (machine : Machine) : Prop where
  limit_lt : machine.system.limit < 2 ^ 63
  inodes : machine.system.inodes.Sound machine.system.limit
  pipes : machine.system.pipes.Sound
  tables : ∀ caller ∈ machine.callers,
    caller.table.Within (FileDescriptor.Fits machine.system.inodes)

theorem FileDescriptor.Fits.mono {before after : Inodes}
    (hforeign : ∀ inode, (before.node inode).isForeign = true →
      (after.node inode).isForeign = true) {descriptor : FileDescriptor}
    (hfits : descriptor.Fits before) : descriptor.Fits after := by
  cases descriptor with
  | inoFile inode position => exact Or.imp_right (hforeign inode) hfits
  | _ => trivial

namespace Machine.Sound

variable {machine : Machine}

theorem caller (hsound : machine.Sound) {caller : Caller} (hcaller : caller ∈ machine.callers) :
    Vfs.Sound machine.system caller :=
  ⟨hsound.limit_lt, hsound.inodes, hsound.pipes, hsound.tables caller hcaller⟩

/-- The machine stays sound if its inodes change as described by `Change` and every
process afterwards has a table that was good for the inodes before. -/
theorem of_change (hsound : machine.Sound) {system : System} {callers : List Caller}
    (hchange : Change machine.system.limit (fun _ => True) machine.system.inodes system.inodes)
    (hlimit : system.limit = machine.system.limit) (hpipes : system.pipes.Sound)
    (htables : ∀ caller ∈ callers,
      caller.table.Within (FileDescriptor.Fits machine.system.inodes)) :
    (⟨system, callers⟩ : Machine).Sound where
  limit_lt := hlimit ▸ hsound.limit_lt
  inodes := hlimit ▸ (hchange.sound hsound.inodes).1
  pipes := hpipes
  tables caller hcaller fd descriptor hget :=
    (htables caller hcaller fd descriptor hget).mono (hchange.sound hsound.inodes).2

theorem tables_set (hsound : machine.Sound) (index : Nat) {after : Caller}
    (hafter : after.table.Within (FileDescriptor.Fits machine.system.inodes)) :
    ∀ caller ∈ machine.callers.set index after,
      caller.table.Within (FileDescriptor.Fits machine.system.inodes) := by
  intro caller hcaller
  rcases mem_or_eq_of_mem_set hcaller with hold | rfl
  · exact hsound.tables caller hold
  · exact hafter

theorem tables_append (hsound : machine.Sound) {child : Caller}
    (hchild : child.table.Within (FileDescriptor.Fits machine.system.inodes)) :
    ∀ caller ∈ machine.callers ++ [child],
      caller.table.Within (FileDescriptor.Fits machine.system.inodes) := by
  intro caller hcaller
  rcases mem_append.mp hcaller with hold | hnew
  · exact hsound.tables caller hold
  · exact mem_singleton.mp hnew ▸ hchild

end Machine.Sound

variable {machine : Machine}

theorem Moves.sound {after : Machine} (hmove : Moves machine after) (hsound : machine.Sound) :
    after.Sound := by
  -- only the slots of a table matter
  have hslots : ∀ {table other : FileDescriptorTable}, other.slots = table.slots →
      table.Within (FileDescriptor.Fits machine.system.inodes) →
      other.Within (FileDescriptor.Fits machine.system.inodes) := by
    intro _ other hslots hwithin fd descriptor _
    exact hwithin fd descriptor (by rwa [FileDescriptorTable.get, ← hslots])
  cases hmove with
  | step hcaller hstep =>
    have hkeeps : Keeps (fun _ => True) _ _ _ :=
      step_keeps (fun _ _ => trivial) (fun _ _ _ _ => trivial) hstep
    have hgood := hkeeps.good (hsound.caller (mem_of_getElem? hcaller))
    exact hsound.of_change hkeeps.change hkeeps.limit hgood.2 (hsound.tables_set _ hgood.1)
  | fork hcaller child htable =>
    refine hsound.of_change (.refl _) rfl ?_ (hsound.tables_append ?_)
    · refine List.foldlRecOn _ _ hsound.pipes fun pipes hpipes slot _ => ?_
      cases slot with
      | none => exact hpipes
      | some descriptor => exact hpipes.retain descriptor
    · exact htable ▸ hsound.tables _ (mem_of_getElem? hcaller)
  | thread hcaller child heq =>
    exact hsound.of_change (.refl _) rfl hsound.pipes (hsound.tables_append
      (hslots heq (hsound.tables _ (mem_of_getElem? hcaller))))
  | share hcaller other after heq =>
    exact hsound.of_change (.refl _) rfl hsound.pipes (hsound.tables_set other
      (hslots heq (hsound.tables _ (mem_of_getElem? hcaller))))
  | install hcaller inode =>
    have hgood := (hsound.caller (mem_of_getElem? hcaller)).good.install
      (show FileDescriptor.Fits _ (.inoFile inode 0) from .inl (by decide))
    exact hsound.of_change (.refl _) rfl hgood.2 (hsound.tables_set _ hgood.1)
  | close hcaller hclose =>
    have hgood := (hsound.caller (mem_of_getElem? hcaller)).good.close hclose
    exact hsound.of_change (.refl _) rfl hgood.2 (hsound.tables_set _ hgood.1)
  | files mounts hchange => exact hsound.of_change hchange rfl hsound.pipes hsound.tables

/-- The states of a machine since its boot.  No vector is longer than the largest
signed integer. -/
inductive Reachable : Machine → Prop where
  | boot (drivers : Drivers) (ramfs : List (Text × List UInt8)) {limit : Nat}
      (hlimit : limit < 2 ^ 63) (permissions : List Permission.PathPattern)
      (actions : List Permission.ActionPermission) :
      Reachable ⟨vfsInit drivers ramfs limit, [newCaller permissions actions]⟩
  | move {machine after : Machine} (hmachine : Reachable machine) (hmove : Moves machine after) :
      Reachable after

theorem vfsInit_inodes_sound (drivers : Drivers) (ramfs : List (Text × List UInt8))
    (limit : Nat) : (vfsInit drivers ramfs limit).inodes.Sound limit := by
  have hnode : ∀ inode, (vfsInit drivers ramfs limit).inodes.node inode =
      (bootNodes drivers)[inode]?.getD (.dir {}) :=
    fun inode => getD_eq_getElem?_getD
  constructor
  · intro inode inner heq
    have hboot : ∀ node ∈ bootNodes drivers, ∀ inner, node ≠ .file inner := by
      simp [bootNodes]
    rw [hnode] at heq
    cases hget : (bootNodes drivers)[inode]? with
    | none => exact absurd (hget ▸ heq) (by simp)
    | some node =>
      exact absurd (hget ▸ heq : (some node).getD (.dir {}) = .file inner)
        (hboot node (mem_of_getElem? hget) inner)
  · intro _ hinode
    rw [hnode, List.getElem?_eq_none hinode]
    rfl

theorem Reachable.sound (hmachine : Reachable machine) : machine.Sound := by
  induction hmachine with
  | boot drivers ramfs hlimit permissions actions =>
    refine ⟨hlimit, vfsInit_inodes_sound drivers ramfs _, fun _ => .new, ?_⟩
    intro _ hcaller fd descriptor hget
    obtain rfl := mem_singleton.mp hcaller
    -- the three descriptors of a new process are those of the terminal
    have htty : descriptor = .tty := by
      match fd with
      | 0 | 1 | 2 => exact (Option.some.inj hget).symm
      | fd + 3 => exact absurd hget (by simp [newCaller, FileDescriptorTable.newWithTty,
          FileDescriptorTable.get])
    exact htty ▸ trivial
  | move _ hmove hsound => exact hmove.sound hsound

/-- The state of the first process after its call of `pipe`. -/
def pipeState : System × Caller :=
  let boot := (vfsInit bareDrivers [] 4096, newCaller [] [])
  (step boot (.call (.pipe 0x400000))).getD boot

/-- The machine with that process. -/
def pipeMachine : Machine := ⟨pipeState.1, [pipeState.2]⟩

theorem reachable_pipeMachine : Reachable pipeMachine := by
  let boot : Machine := ⟨vfsInit bareDrivers [] 4096, [newCaller [] []]⟩
  have hboot : Reachable boot := .boot bareDrivers [] (by decide) [] []
  have hcaller : boot.callers[0]? = some (newCaller [] []) := rfl
  have hstep : step (boot.system, newCaller [] []) (.call (.pipe 0x400000)) = some pipeState := rfl
  exact .move hboot (Moves.step hcaller hstep)

end Bazzulto.Vfs
