/-
  Vfs/Names.lean --- the calls on names: mkdir, rmdir, unlink, creat and rename.

  Embeds `sys_mkdir`, `sys_rmdir`, `sys_rename` (kernel/src/systemcalls/vfs.rs) and
  `sys_unlink` (kernel/src/systemcalls/io.rs), with `unlink`, `link_child` and the rest of
  `mkdir` of the tmpfs (kernel/src/fs/tmpfs.rs); `sys_creat` is that of Vfs/Syscall.lean.
  A directory of another driver answers as it likes, and it changes in steps of its own.

  Every call says which directories accepted a change of an entry.  mkdir, rmdir and
  unlink ask `vfs_check_access` about the directory first; creat and rename do not.
-/
import Bazzulto.Vfs.Access

set_option autoImplicit false

namespace Bazzulto.Vfs

/-! ## Directories -/

/-- What another driver answers to the calls on one of its directories. -/
structure Answers where
  mkdir : Except FsError Foreign
  unlink : Except FsError Unit
  linkChild : Except FsError Unit
  /-- Whether `readdir(2)` finds an entry. -/
  readdir : Bool

namespace Inodes

/-- `mkdir`, and `set_mode` on the new directory. -/
def mkdirIn (answers : Answers) (inodes : Inodes) (parent : InodeId) (name : Text) (mode : Nat) :
    Except FsError Inodes :=
  match inodes.node parent with
  | .file _ => .error .notDirectory
  | .dir inner => (inodes.addChild parent inner name (.dir { mode := mode })).map Prod.snd
  | .foreign _ => answers.mkdir.map fun made => (inodes.push (.foreign made)).2

/-- `target.readdir(2).is_some()` of a directory. -/
def hasEntries (answers : Answers) (inodes : Inodes) (target : InodeId) : Bool :=
  match inodes.node target with
  | .file _ => false
  | .dir inner => !inner.entries.isEmpty
  | .foreign _ => answers.readdir

def unlink (answers : Answers) (inodes : Inodes) (parent : InodeId) (name : Text) :
    Except FsError Inodes :=
  match inodes.node parent with
  | .file _ => .error .notDirectory
  | .dir inner =>
    match inner.entries.lookup name with
    | none => .error .notFound
    | some target =>
      if (inodes.node target).kind = .directory ∧ inodes.hasEntries answers target = true then
        .error .directoryNotEmpty
      else
        .ok (inodes.set parent
          (.dir { inner with entries := inner.entries.filter fun entry => entry.1 ≠ name }))
  | .foreign _ => answers.unlink.map fun _ => inodes

def linkChild (answers : Answers) (inodes : Inodes) (parent : InodeId) (name : Text)
    (child : InodeId) : Except FsError Inodes :=
  match inodes.node parent with
  | .file _ => .error .notSupported
  | .dir inner =>
    let others := inner.entries.filter fun entry => entry.1 ≠ name
    .ok (inodes.set parent (.dir { inner with entries := others ++ [(name, child)] }))
  | .foreign inner =>
    -- the default of the trait, which no driver changes for anything but a directory
    if inner.kind ≠ .directory then .error .notSupported
    else answers.linkChild.map fun _ => inodes

end Inodes

/-! ## The calls -/

namespace Names

open List Option Foundation Inodes

/-- What a call leaves behind: its answer, the system, and the directories that accepted a
change of an entry. -/
structure Result where
  reply : Int
  system : System
  touched : List InodeId

/-- A call that fails before it changes anything. -/
def refuse (system : System) (reply : Int) : Result := ⟨reply, system, []⟩

/-- The end of a call that asks one directory for a change. -/
def settle (system : System) (parent : InodeId) : Except FsError Inodes → Result
  | .error error => refuse system error.toErrno
  | .ok inodes => ⟨0, { system with inodes }, [parent]⟩

/-- The check that mkdir, rmdir and unlink make. -/
def mayChange (system : System) (caller : Caller) (parent : InodeId) : Bool :=
  vfsCheckAccess (system.inodes.node parent).stat caller.credentials (accessWrite ||| accessExecute)

/-- The mode of a new directory. -/
def directoryMode (mode umask : Nat) : Nat :=
  0o040000 ||| ((mode &&& 0o777) &&& (0o777 ^^^ (umask &&& 0o777)))

section

variable (answers : Answers) (system : System) (caller : Caller) (path : UserString)

def sysMkdir (mode : Nat) : Result :=
  match pathArgument path with
  | none => refuse system EINVAL
  | some raw =>
    match resolveParent system.inodes system.mounts (resolveToAbsolute caller.cwdPath raw) with
    | .error error => refuse system error.toErrno
    | .ok (parent, dirName) =>
      if !mayChange system caller parent then refuse system EACCES
      else
        settle system parent
          (system.inodes.mkdirIn answers parent dirName (directoryMode mode caller.umask))

/-- `sys_rmdir`.  The path is taken as it is. -/
def sysRmdir : Result :=
  match pathArgument path with
  | none => refuse system EINVAL
  | some raw =>
    match resolveParent system.inodes system.mounts raw with
    | .error error => refuse system error.toErrno
    | .ok (parent, dirName) =>
      if !mayChange system caller parent then refuse system EACCES
      else
        match (system.inodes.node parent).lookup dirName with
        | none => refuse system ENOENT
        | some target =>
          if (system.inodes.node target).kind ≠ .directory then refuse system ENOTDIR
          else settle system parent (system.inodes.unlink answers parent dirName)

def sysUnlink : Result :=
  match pathArgument path with
  | none => refuse system EINVAL
  | some raw =>
    match resolveParent system.inodes system.mounts (resolveToAbsolute caller.cwdPath raw) with
    | .error error => refuse system error.toErrno
    | .ok (parent, fileName) =>
      if !mayChange system caller parent then refuse system EACCES
      else settle system parent (system.inodes.unlink answers parent fileName)

end

/-- What `sys_rename` resolves before it changes anything. -/
structure RenamePlan where
  source : InodeId
  oldParent : InodeId
  oldName : Text
  newParent : InodeId
  newName : Text
  deriving DecidableEq, Repr

/-- The first half of `sys_rename`.  Neither path is made absolute. -/
def renamePlan (system : System) (old new : UserString) : Except Int RenamePlan :=
  match pathArgument old, pathArgument new with
  | some oldPath, some newPath =>
    match resolveInode system.inodes system.mounts oldPath none,
        resolveParent system.inodes system.mounts oldPath,
        resolveParent system.inodes system.mounts newPath with
    | .error error, _, _ => .error error.toErrno
    | .ok _, .error error, _ => .error error.toErrno
    | .ok _, .ok _, .error error => .error error.toErrno
    | .ok source, .ok (oldParent, oldName), .ok (newParent, newName) =>
      .ok ⟨source, oldParent, oldName, newParent, newName⟩
  | _, _ => .error EINVAL

/-- The second half: the source is linked under its new name, and then its old name is
unlinked. -/
def executePlan (answers : Answers) (system : System) (plan : RenamePlan) : Result :=
  match system.inodes.linkChild answers plan.newParent plan.newName plan.source with
  | .error error => refuse system error.toErrno
  | .ok linked =>
    match linked.unlink answers plan.oldParent plan.oldName with
    | .error error => ⟨error.toErrno, { system with inodes := linked }, [plan.newParent]⟩
    | .ok inodes => ⟨0, { system with inodes }, [plan.newParent, plan.oldParent]⟩

def sysRename (answers : Answers) (system : System) (old new : UserString) : Result :=
  match renamePlan system old new with
  | .error errno => refuse system errno
  | .ok plan => executePlan answers system plan

/-- The directory in which `sys_creat` makes a new file. -/
def createdIn (system : System) (caller : Caller) (path : UserString) : Option InodeId :=
  (pathArgument path).bind fun raw =>
    let name := resolveToAbsolute caller.cwdPath raw
    match resolveInode system.inodes system.mounts name none with
    | .ok _ => none
    | .error _ =>
      match resolveParent system.inodes system.mounts name with
      | .error _ => none
      | .ok (parent, fileName) =>
        match system.inodes.create system.drivers.madeInode parent fileName with
        | .error _ => none
        | .ok _ => some parent

/-! ## Runs -/

/-- A call on names with its arguments. -/
inductive Call where
  | mkdir (path : UserString) (mode : Nat)
  | rmdir (path : UserString)
  | unlink (path : UserString)
  | creat (path : UserString)
  | rename (old new : UserString)

/-- The process and the system, and the directories that accepted a change in the last
call. -/
structure State where
  system : System
  caller : Caller
  touched : List InodeId

/-- What may happen next: the process makes a call, or anything else happens to it and to
the system. -/
inductive Event where
  | call (call : Call) (answers : Answers)
  | other (system : System) (caller : Caller)

/-- The state after a call of the process. -/
def State.after (state : State) (result : Result) : State :=
  { state with system := result.system, touched := result.touched }

def step (state : State) : Event → Option State
  | .other system caller => some ⟨system, caller, []⟩
  | .call (.mkdir path mode) answers =>
    some (state.after (sysMkdir answers state.system state.caller path mode))
  | .call (.rmdir path) answers =>
    some (state.after (sysRmdir answers state.system state.caller path))
  | .call (.unlink path) answers =>
    some (state.after (sysUnlink answers state.system state.caller path))
  | .call (.creat path) _ =>
    (Vfs.settle (sysCreat state.system state.caller path)).map fun (system, caller) =>
      ⟨system, caller, (createdIn state.system state.caller path).toList⟩
  | .call (.rename old new) answers =>
    some (state.after (sysRename answers state.system old new))

/-! ## A directory that the process may not write -/

/-- The process is not the superuser, and it may not write the directory. -/
structure Barred (directory : InodeId) (state : State) : Prop where
  user : state.caller.credentials.euid ≠ 0
  used : directory < state.system.inodes.next
  kind : (state.system.inodes.node directory).kind = .directory
  denied : vfsCheckAccess (state.system.inodes.node directory).stat state.caller.credentials
    accessWrite = false

/-- A call of the process adds, removes and replaces no entry of the directory.  The driver
of a directory that is not of the tmpfs accepts no change of one. -/
def Keeps (directory : InodeId) (state : State) : Event → Prop
  | .other _ _ => True
  | .call call answers => ∀ next, step state (.call call answers) = some next →
      (next.system.inodes.node directory).lookup = (state.system.inodes.node directory).lookup ∧
        ((state.system.inodes.node directory).isForeign = true → directory ∉ next.touched)

/-- The path is that of an entry of the directory, whether there is one or not. -/
def EntryOf (directory : InodeId) (system : System) (path : Text) : Prop :=
  ∃ name, resolveParent system.inodes system.mounts path = .ok (directory, name)

/-- A creat in the directory finds its file there, and no path of a rename is that of an
entry of the directory. -/
def Fair (directory : InodeId) (state : State) : Event → Prop
  | .call (.creat path) _ => ∀ raw, pathArgument path = some raw →
      EntryOf directory state.system (resolveToAbsolute state.caller.cwdPath raw) →
      ∃ inode, resolveInode state.system.inodes state.system.mounts
        (resolveToAbsolute state.caller.cwdPath raw) none = .ok inode
  | .call (.rename old new) _ => ∀ raw, pathArgument old = some raw ∨ pathArgument new = some raw →
      ¬ EntryOf directory state.system raw
  | _ => True

/-! ## Changes of one directory -/

/-- No inode in use changes but one. -/
def OnlyAt (parent : InodeId) (before after : Inodes) : Prop :=
  before.next ≤ after.next ∧
    ∀ inode, inode ≠ parent → inode < before.next → after.node inode = before.node inode

theorem OnlyAt.refl (parent : InodeId) (inodes : Inodes) : OnlyAt parent inodes inodes :=
  ⟨le_refl _, fun _ _ _ => rfl⟩

theorem onlyAt_set (inodes : Inodes) (parent : InodeId) (node : Node) :
    OnlyAt parent inodes (inodes.set parent node) :=
  ⟨le_refl _, fun _ hne _ => set_node_of_ne hne⟩

theorem onlyAt_push (inodes : Inodes) (parent : InodeId) (node : Node) :
    OnlyAt parent inodes (inodes.push node).2 :=
  ⟨Nat.le_succ _, fun _ _ hused => push_node_of_ne (Nat.ne_of_lt hused)⟩

variable {inodes after : Inodes} {parent inode : InodeId} {name : Text} {answers : Answers}

theorem onlyAt_addChild {inner : TmpfsDir} {child : Node}
    (h : inodes.addChild parent inner name child = .ok (inode, after)) :
    OnlyAt parent inodes after := by
  unfold addChild at h
  split at h
  · cases h
  cases h
  refine ⟨Nat.le_succ _, fun other hne hused => ?_⟩
  have hnext : other ≠ (inodes.set parent
      (.dir { inner with entries := inner.entries ++ [(name, inodes.next)] })).next :=
    Nat.ne_of_lt hused
  exact (push_node_of_ne hnext).trans (set_node_of_ne hne)

theorem onlyAt_mkdirIn {mode : Nat} (h : inodes.mkdirIn answers parent name mode = .ok after) :
    OnlyAt parent inodes after := by
  unfold mkdirIn at h
  split at h
  · cases h
  · obtain ⟨_, hadd, rfl⟩ := exists_of_map_eq_ok h
    exact onlyAt_addChild hadd
  · obtain ⟨_, -, rfl⟩ := exists_of_map_eq_ok h
    exact onlyAt_push inodes parent _

theorem onlyAt_unlink (h : inodes.unlink answers parent name = .ok after) :
    OnlyAt parent inodes after := by
  unfold unlink at h
  split at h
  · cases h
  · split at h
    · cases h
    split at h
    · cases h
    · cases h
      exact onlyAt_set inodes parent _
  · obtain ⟨_, -, rfl⟩ := exists_of_map_eq_ok h
    exact .refl parent inodes

theorem onlyAt_linkChild {child : InodeId}
    (h : inodes.linkChild answers parent name child = .ok after) : OnlyAt parent inodes after := by
  unfold linkChild at h
  split at h
  · cases h
  · cases h
    exact onlyAt_set inodes parent _
  · split at h
    · cases h
    · obtain ⟨_, -, rfl⟩ := exists_of_map_eq_ok h
      exact .refl parent inodes

theorem onlyAt_create {made : Nat → Foreign}
    (h : inodes.create made parent name = .ok (inode, after)) : OnlyAt parent inodes after := by
  unfold create at h
  split at h
  · cases h
  · exact onlyAt_addChild h
  · obtain ⟨_, -, h⟩ := exists_of_bind_eq_ok h
    cases h
    exact onlyAt_push inodes parent _

/-! ## Calls that ask -/

variable {directory : InodeId} {state : State}

theorem Barred.not_mayChange (h : Barred directory state) :
    mayChange state.system state.caller directory = false := by
  have hdenied := h.denied
  unfold mayChange
  unfold vfsCheckAccess at hdenied ⊢
  rw [if_neg h.user] at hdenied ⊢
  rw [decide_eq_false_iff_not] at hdenied ⊢
  intro hboth
  apply hdenied
  have hwrite : accessWrite &&& (accessWrite ||| accessExecute) = accessWrite := by decide
  rw [← hwrite, Nat.and_assoc, hboth]

/-- A result that keeps the directory. -/
def Spared (directory : InodeId) (state : State) (result : Result) : Prop :=
  directory ∉ result.touched ∧
    result.system.inodes.node directory = state.system.inodes.node directory

theorem spared_refuse (reply : Int) : Spared directory state (refuse state.system reply) :=
  ⟨not_mem_nil, rfl⟩

theorem spared_settle {result : Except FsError Inodes}
    (hbarred : Barred directory state) (hother : parent ≠ directory)
    (honly : ∀ inodes, result = .ok inodes → OnlyAt parent state.system.inodes inodes) :
    Spared directory state (settle state.system parent result) := by
  cases result with
  | error error => exact spared_refuse _
  | ok inodes =>
    refine ⟨fun hmem => hother (mem_singleton.mp hmem).symm, ?_⟩
    exact (honly inodes rfl).2 directory hother.symm hbarred.used

/-- A call that asks goes on in another directory. -/
theorem Barred.spared_asking (h : Barred directory state) {rest : Result}
    (hrest : parent ≠ directory → Spared directory state rest) :
    Spared directory state (if !mayChange state.system state.caller parent then
      refuse state.system EACCES else rest) := by
  split
  · exact spared_refuse _
  next hmay =>
    refine hrest ?_
    rintro rfl
    exact hmay (by rw [h.not_mayChange]; rfl)

section

variable (h : Barred directory state) (answers : Answers) (path : UserString)
include h

theorem spared_sysMkdir (mode : Nat) :
    Spared directory state (sysMkdir answers state.system state.caller path mode) := by
  unfold sysMkdir
  split
  · exact spared_refuse _
  split
  · exact spared_refuse _
  · exact h.spared_asking fun hother => spared_settle h hother fun _ => onlyAt_mkdirIn

theorem spared_sysUnlink :
    Spared directory state (sysUnlink answers state.system state.caller path) := by
  unfold sysUnlink
  split
  · exact spared_refuse _
  split
  · exact spared_refuse _
  · exact h.spared_asking fun hother => spared_settle h hother fun _ => onlyAt_unlink

theorem spared_sysRmdir :
    Spared directory state (sysRmdir answers state.system state.caller path) := by
  unfold sysRmdir
  split
  · exact spared_refuse _
  split
  · exact spared_refuse _
  · refine h.spared_asking fun hother => ?_
    split
    · exact spared_refuse _
    · split
      · exact spared_refuse _
      · exact spared_settle h hother fun _ => onlyAt_unlink

end

/-! ## Calls that do not -/

/-- What a plan is made of. -/
theorem renamePlan_eq_ok {system : System} {old new : UserString} {plan : RenamePlan}
    (h : renamePlan system old new = .ok plan) :
    ∃ oldPath newPath, pathArgument old = some oldPath ∧ pathArgument new = some newPath ∧
      resolveInode system.inodes system.mounts oldPath none = .ok plan.source ∧
      resolveParent system.inodes system.mounts oldPath = .ok (plan.oldParent, plan.oldName) ∧
      resolveParent system.inodes system.mounts newPath = .ok (plan.newParent, plan.newName) := by
  unfold renamePlan at h
  split at h
  next oldPath newPath hold hnew =>
    split at h
    · cases h
    · cases h
    · cases h
    next hsource holdParent hnewParent =>
      cases h
      exact ⟨oldPath, newPath, hold, hnew, hsource, holdParent, hnewParent⟩
  · cases h

theorem spared_sysRename (h : Barred directory state) {old new : UserString}
    (hfair : Fair directory state (.call (.rename old new) answers)) :
    Spared directory state (sysRename answers state.system old new) := by
  unfold sysRename
  split
  · exact spared_refuse _
  rename_i plan hplan
  obtain ⟨oldPath, newPath, hold, hnew, -, holdParent, hnewParent⟩ := renamePlan_eq_ok hplan
  have hneOld : directory ≠ plan.oldParent :=
    fun heq => hfair oldPath (.inl hold) ⟨_, heq ▸ holdParent⟩
  have hneNew : directory ≠ plan.newParent :=
    fun heq => hfair newPath (.inr hnew) ⟨_, heq ▸ hnewParent⟩
  unfold executePlan
  split
  · exact spared_refuse _
  rename_i linked hlink
  have hlinked := onlyAt_linkChild hlink
  have hsame := hlinked.2 directory hneNew h.used
  split
  · exact ⟨by simpa using hneNew, hsame⟩
  next hunlink =>
    have hused := Nat.lt_of_lt_of_le h.used hlinked.1
    exact ⟨by simp [hneNew, hneOld], ((onlyAt_unlink hunlink).2 directory hneOld hused).trans hsame⟩

theorem truncate_directory {node after : Node} {limit : Nat} {reply : Except FsError Unit}
    (hkind : node.kind = .directory) (h : node.truncate limit 0 = .ok (reply, after)) :
    after = node := by
  cases node with
  | file inner => cases hkind
  | dir | foreign =>
    cases h
    rfl

/-- creat changes the directory in which it makes a file, and no other. -/
theorem spared_sysCreat (h : Barred directory state) {path : UserString} {system : System}
    {caller : Caller} (hcreated : createdIn state.system state.caller path ≠ some directory)
    (hcreat : Vfs.settle (sysCreat state.system state.caller path) = some (system, caller)) :
    system.inodes.node directory = state.system.inodes.node directory := by
  unfold sysCreat at hcreat
  unfold createdIn at hcreated
  cases hraw : pathArgument path with
  | none =>
    rw [hraw] at hcreat
    cases hcreat
    rfl
  | some raw =>
    rw [hraw] at hcreat hcreated
    dsimp only [bind_some] at hcreat hcreated
    cases hresolve : resolveInode state.system.inodes state.system.mounts
        (resolveToAbsolute state.caller.cwdPath raw) none with
    | ok inode =>
      rw [hresolve] at hcreat
      dsimp only at hcreat
      cases htruncate : (state.system.inodes.node inode).truncate state.system.limit 0 with
      | error fault =>
        rw [htruncate] at hcreat
        cases hcreat
      | ok result =>
        rw [htruncate] at hcreat
        cases hcreat
        change (state.system.inodes.set inode result.2).node directory = _
        obtain rfl | heq := eq_or_ne directory inode
        · rw [set_node_self]
          exact truncate_directory h.kind htruncate
        · exact set_node_of_ne heq
    | error error =>
      rw [hresolve] at hcreat hcreated
      cases hparent : resolveParent state.system.inodes state.system.mounts
          (resolveToAbsolute state.caller.cwdPath raw) with
      | error error =>
        rw [hparent] at hcreat
        cases hcreat
        rfl
      | ok found =>
        rw [hparent] at hcreat hcreated
        dsimp only at hcreat hcreated
        cases hcreate : state.system.inodes.create state.system.drivers.madeInode found.1
            found.2 with
        | error error =>
          rw [hcreate] at hcreat
          cases hcreat
          rfl
        | ok made =>
          rw [hcreate] at hcreat hcreated
          cases hcreat
          have hne : directory ≠ found.1 := fun heq => hcreated (congrArg some heq.symm)
          exact (onlyAt_create hcreate).2 directory hne h.used

theorem createdIn_ne_of_fair {path : UserString}
    (h : Fair directory state (.call (.creat path) answers)) :
    createdIn state.system state.caller path ≠ some directory := by
  intro hcreated
  unfold createdIn at hcreated
  obtain ⟨raw, hraw, hcreated⟩ := bind_eq_some_iff.mp hcreated
  dsimp only at hcreated
  split at hcreated
  · cases hcreated
  next hresolve =>
    split at hcreated
    · cases hcreated
    next hparent =>
      split at hcreated
      · cases hcreated
      cases hcreated
      obtain ⟨_, hinode⟩ := h raw hraw ⟨_, hparent⟩
      rw [hresolve] at hinode
      cases hinode

/-! ## The property and its condition -/

theorem Spared.keeps {result : Result} (h : Spared directory state result) {next : State}
    (hnext : some (state.after result) = some next) :
    (next.system.inodes.node directory).lookup = (state.system.inodes.node directory).lookup ∧
      ((state.system.inodes.node directory).isForeign = true → directory ∉ next.touched) := by
  cases hnext
  exact ⟨congrArg (fun node name => Node.lookup name node) h.2, fun _ => h.1⟩

theorem keeps_of_fair (h : Barred directory state) (event : Event)
    (hfair : Fair directory state event) : Keeps directory state event := by
  cases event with
  | other system caller => exact trivial
  | call call answers =>
    intro next hstep
    cases call with
    | mkdir path mode => exact (spared_sysMkdir h answers path mode).keeps hstep
    | rmdir path => exact (spared_sysRmdir h answers path).keeps hstep
    | unlink path => exact (spared_sysUnlink h answers path).keeps hstep
    | rename old new => exact (spared_sysRename h hfair).keeps hstep
    | creat path =>
      have hcreated := createdIn_ne_of_fair hfair
      obtain ⟨_, hcreat, rfl⟩ := map_eq_some_iff.mp hstep
      refine ⟨?_, fun _ hmem => hcreated (mem_toList.mp hmem)⟩
      exact congrArg (fun node name => Node.lookup name node) (spared_sysCreat h hcreated hcreat)

/-- A user's process after boot. -/
def userStart : State := ⟨vfsInit bareDrivers [] 4096, newCaller [] [], []⟩

/-- The answers of a driver that supports nothing. -/
def refusals : Answers where
  mkdir := .error .notSupported
  unlink := .error .notSupported
  linkChild := .error .notSupported
  readdir := false

theorem no_nul_tmp : (0 : UInt8) ∉ [47, 116, 109, 112] := by decide

/-- The arguments `/etc/x`, `/tmp` and `/x`. -/
def etcPath : UserString := ⟨0x400000, [47, 101, 116, 99, 47, 120], by decide⟩
def tmpPath : UserString := ⟨0x400000, [47, 116, 109, 112], no_nul_tmp⟩
def rootPath : UserString := ⟨0x400000, [47, 120], by decide⟩

theorem not_entryOf {system : System} {path : Text} (other : InodeId × Text)
    (hparent : (resolveParent system.inodes system.mounts path).toOption = some other)
    (hne : other.1 ≠ directory) : ¬ EntryOf directory system path := by
  rintro ⟨_, hentry⟩
  rw [hentry] at hparent
  cases hparent
  exact hne rfl

/-- The user renames `/tmp` to `/x`, and fails to make `/etc/x`. -/
def outsideEtc : List Event :=
  [.call (.rename tmpPath rootPath) refusals, .call (.mkdir etcPath 0) refusals]

/-- The user creates `/etc/x`. -/
def creatInEtc : Event := .call (.creat etcPath) refusals

end Names
end Bazzulto.Vfs
