/-
  Vfs/Access.lean --- files that a process may not write.

  `vfs_check_access` denies a process write access to a file.  `sys_open` asks it
  about the access mode in the flags, and about nothing else: not about `O_TRUNC`,
  and not again when the descriptor is used; `sys_creat` does not ask it at all.
  What remains is that the file is safe from a process that uses none of these
  ways around the check.
-/
import Bazzulto.Vfs.Soundness

set_option autoImplicit false

namespace Bazzulto.Vfs

open Foundation

variable {file : InodeId} {state : System × Caller}

/-- The process may not write the file. -/
def Denied (file : InodeId) (state : System × Caller) : Prop :=
  vfsCheckAccess (state.1.inodes.node file).stat state.2.credentials accessWrite = false
  deriving Decidable

/-- The next step uses none of the ways around the check: it does not create the
file anew, does not truncate it with an open that asks for no write access, and
does not write through a descriptor of the file. -/
def Careful (file : InodeId) (state : System × Caller) : Event → Prop
  | .call (.open path flags _) =>
    openedInode state.1 state.2 path = some file → hasFlag flags O_TRUNC = true →
      flags &&& 3 = 1 ∨ flags &&& 3 = 2
  | .call (.creat path) => creatInode state.1 state.2 path ≠ some file
  | .call (.write fd _ _) => descriptorInode state.2 fd ≠ some file
  | .call (.pwrite64 fd _ _ _) => descriptorInode state.2 fd ≠ some file
  | .call (.ftruncate fd _) => descriptorInode state.2 fd ≠ some file
  | _ => True

instance Careful.decidable (file : InodeId) (state : System × Caller) :
    (event : Event) → Decidable (Careful file state event)
  | .call (.open ..) => inferInstanceAs (Decidable (_ → _ → _ ∨ _))
  | .call (.creat _) | .call (.write ..) | .call (.pwrite64 ..) | .call (.ftruncate ..) =>
    inferInstanceAs (Decidable (_ ≠ _))
  | .call (.read ..) | .call (.pread64 ..) | .call (.seek ..) | .call (.close _)
  | .call (.pipe _) | .call (.dup _) | .call (.dup2 ..) | .call (.dup3 ..)
  | .call (.fcntl ..) | .call (.mount ..) | .resume | .drivers _ | .device .. => isTrue trivial

/-- Who may not write may not open for writing. -/
theorem Denied.open {flags : BitVec 32} (hdenied : Denied file state)
    (hmode : flags &&& 3 = 1 ∨ flags &&& 3 = 2) :
    vfsCheckAccess (state.1.inodes.node file).stat state.2.credentials (accessNeeded flags) =
      false := by
  have hneeded : accessWrite &&& accessNeeded flags = accessWrite := by
    rcases hmode with hmode | hmode <;> simp only [accessNeeded, hmode] <;> decide
  unfold Denied vfsCheckAccess at hdenied
  unfold vfsCheckAccess
  split at hdenied
  · exact absurd hdenied (by simp [accessWrite, accessExecute])
  next heuid =>
    rw [if_neg heuid]
    simp only [decide_eq_false_iff_not] at hdenied ⊢
    intro hall
    apply hdenied
    rw [← hneeded, Nat.and_assoc, hall]

theorem not_writes_of_careful {call : Call} (hdenied : Denied file state)
    (hcareful : Careful file state (.call call)) : ¬ Writes state.1 state.2 call file := by
  intro hwrites
  cases call with
  | «open» path flags mode =>
    obtain ⟨hopened, htrunc, haccess⟩ := hwrites
    rw [hdenied.open (hcareful hopened htrunc)] at haccess
    cases haccess
  | creat | write | pwrite64 | ftruncate => exact hcareful hwrites
  | read | pread64 | seek | close | pipe | dup | dup2 | dup3 | fcntl | mount => exact hwrites

theorem step_keeps_file {inner : TmpfsFile} {after : System × Caller} {event : Event}
    (hfile : state.1.inodes.node file = .file inner) (huse : file < state.1.inodes.next)
    (hdenied : Denied file state) (hcareful : Careful file state event)
    (hstep : step state event = some after) :
    after.1.inodes.node file = .file inner ∧ file < after.1.inodes.next := by
  have hchange : Change state.1.limit (· ≠ file) state.1.inodes after.1.inodes := by
    refine (step_keeps (fun inode hinode => ?_) (fun call heq inode hwrites => ?_) hstep).change
    · exact Nat.ne_of_gt (Nat.lt_of_lt_of_le huse hinode)
    · rintro rfl
      exact not_writes_of_careful hdenied (heq ▸ hcareful) hwrites
  exact ⟨hchange.keeps_file hfile huse (by simp), Nat.lt_of_lt_of_le huse hchange.next_le⟩

/-- In every run in which the process may not write the file and takes careful steps
only, the file keeps its content, its size and its mode. -/
theorem denied_file_unchanged {file : InodeId} {inner : TmpfsFile} (start : System × Caller)
    (events : List Event) (final : System × Caller)
    (hfile : start.1.inodes.node file = .file inner) (huse : file < start.1.inodes.next)
    (hguard : Along step (fun state event => Denied file state ∧ Careful file state event)
      start events) (hrun : run step start events = some final) :
    final.1.inodes.node file = .file inner := by
  have hkeep := run_invariant
    (fun state event after hinv hguard hstep =>
      step_keeps_file hinv.1 hinv.2 hguard.1 hguard.2 hstep)
    events start final ⟨hfile, huse⟩ hguard hrun
  exact hkeep.1

/-! ## A file of the superuser -/

/-- The system after boot with a file `/etc/motd` that only the superuser may write. -/
def motdSystem : System :=
  let boot := vfsInit bareDrivers [] 4096
  { boot with
    inodes :=
      { node := fun inode =>
          if inode = 4 then .dir { entries := [("motd".toList, 11)] }
          else if inode = 11 then .file { data := [72, 105] }
          else boot.inodes.node inode
        next := 12 } }

/-- A user's process on that system. -/
def motdStart : System × Caller := (motdSystem, newCaller [] [])

/-- The argument `/etc/motd`. -/
def motdPath : UserString := ⟨0x400000, [47, 101, 116, 99, 47, 109, 111, 116, 100], by decide⟩

/-- The content of a file. -/
def contentOf (system : System) (inode : InodeId) : Option (List UInt8) :=
  match system.inodes.node inode with
  | .file inner => some inner.data
  | _ => none

/-- A process that may not write `/etc/motd` opens it for reading with `O_TRUNC`, and
the file is empty. -/
theorem read_only_open_truncates :
    motdStart.2.credentials.euid ≠ 0 ∧ Denied 11 motdStart ∧
      ∃ final, run step motdStart [.call (.open motdPath O_TRUNC 0)] = some final ∧
        contentOf motdStart.1 11 = some [72, 105] ∧ contentOf final.1 11 = some [] := by
  have hrun : (run step motdStart [.call (.open motdPath O_TRUNC 0)]).map
      (fun final => contentOf final.1 11) = some (some []) := by decide +kernel
  obtain ⟨final, hfinal, hcontent⟩ := Option.map_eq_some_iff.mp hrun
  exact ⟨by decide, by decide, final, hfinal, by decide, hcontent⟩

/-- The process opens the file for writing, then for reading, and reads it. -/
def motdEvents : List Event :=
  [.call (.open motdPath 1 0), .call (.open motdPath 0 0), .call (.read 3 0x500000 2)]

theorem motd_read_unchanged :
    ∃ final, run step motdStart motdEvents = some final ∧
      final.1.inodes.node 11 = .file { data := [72, 105] } := by
  have hsome : (run step motdStart motdEvents).isSome = true := by decide +kernel
  obtain ⟨final, hfinal⟩ := Option.isSome_iff_exists.mp hsome
  refine ⟨final, hfinal, denied_file_unchanged motdStart motdEvents final rfl (by decide) ?_ hfinal⟩
  decide +kernel

end Bazzulto.Vfs
