/-
  Vfs/Effect.lean --- what a call can do to the inodes.

  `Change` lists the ways in which the inodes change: a file that may be written
  gets other contents, a directory gets other entries, a driver's inode gives
  other answers, or a new inode comes into use.  `Writes` says which inode a call
  writes to.
-/
import Bazzulto.Foundation.Run
import Bazzulto.Vfs.Syscall

set_option autoImplicit false

namespace Bazzulto.Vfs

open List Foundation Foundation.Checked Function Inodes Node Checked

/-! ## Changes of the inodes -/

/-- The inodes change, and only files that satisfy `writes` get other contents.
No file outgrows `limit`, unless it was longer before. -/
inductive Change (limit : Nat) (writes : InodeId → Prop) : Inodes → Inodes → Prop where
  | refl (inodes : Inodes) : Change limit writes inodes inodes
  | write {inodes : Inodes} {inode : InodeId} {before after : TmpfsFile}
      (hnode : inodes.node inode = .file before) (hwrites : writes inode)
      (hlength : after.data.length ≤ max limit before.data.length) :
      Change limit writes inodes (inodes.set inode (.file after))
  | entries {inodes : Inodes} {inode : InodeId} {before after : TmpfsDir}
      (hnode : inodes.node inode = .dir before) :
      Change limit writes inodes (inodes.set inode (.dir after))
  | answers {inodes : Inodes} {inode : InodeId} {before after : Foreign}
      (hnode : inodes.node inode = .foreign before) :
      Change limit writes inodes (inodes.set inode (.foreign after))
  | push {inodes : Inodes} {node : Node} (hnode : ∀ inner, node = .file inner → inner.data = []) :
      Change limit writes inodes (inodes.push node).2
  | trans {first second third : Inodes} (hfirst : Change limit writes first second)
      (hsecond : Change limit writes second third) : Change limit writes first third

section Change

variable {limit : Nat} {writes : InodeId → Prop} {before after inodes : Inodes}
  {inode other parent : InodeId} {node : Node} {name : Text} {made : Nat → Foreign}

theorem Change.next_le (hchange : Change limit writes before after) : before.next ≤ after.next := by
  induction hchange with
  | refl | write | entries | answers => exact le_rfl
  | push => exact Nat.le_succ _
  | trans _ _ hfirst hsecond => exact Nat.le_trans hfirst hsecond

@[simp] theorem Inodes.set_node_self (inodes : Inodes) (inode : InodeId) (node : Node) :
    (inodes.set inode node).node inode = node := update_self ..

theorem Inodes.set_node_of_ne (hne : other ≠ inode) :
    (inodes.set inode node).node other = inodes.node other :=
  update_of_ne hne ..

@[simp] theorem Inodes.push_node_self (inodes : Inodes) (node : Node) :
    (inodes.push node).2.node inodes.next = node := update_self ..

theorem Inodes.push_node_of_ne (hne : other ≠ inodes.next) :
    (inodes.push node).2.node other = inodes.node other :=
  update_of_ne hne ..

/-- A file in use that may not be written keeps its node. -/
theorem Change.keeps_file (hchange : Change limit writes before after) {file : InodeId}
    {inner : TmpfsFile} (hfile : before.node file = .file inner) (huse : file < before.next)
    (hsafe : ¬ writes file) : after.node file = .file inner := by
  induction hchange with
  | refl => exact hfile
  | write hnode hwrites _ =>
    rw [set_node_of_ne, hfile]
    rintro rfl
    exact hsafe hwrites
  | entries hnode | answers hnode =>
    rw [set_node_of_ne, hfile]
    rintro rfl
    exact absurd (hnode.symm.trans hfile) (by simp)
  | push => rw [push_node_of_ne (Nat.ne_of_lt huse), hfile]
  | trans hfirst _ ih ih' => exact ih' (ih hfile huse) (Nat.lt_of_lt_of_le huse hfirst.next_le)

/-! ## Nodes -/

/-- Writing a file stops for lack of memory, or because the end overflows. -/
theorem writeFile_post (offset : Nat) (buffer : List UInt8) (before : TmpfsFile) :
    Post (fun fault => offset + buffer.length < 2 ^ 64 → fault = .allocation)
      (fun after => offset + buffer.length ≤ after.data.length ∧
        after.data.length ≤ max limit before.data.length)
      (writeFile limit offset buffer before) := by
  unfold writeFile
  by_cases hadd : offset + buffer.length < 2 ^ 64
  · refine .bind (post_of_eq (add_ok hadd)) ?_
    rintro _ rfl
    have hextended : Post (fun fault => offset + buffer.length < 2 ^ 64 → fault = .allocation)
        (fun data => offset + buffer.length ≤ data.length ∧
          data.length ≤ max limit before.data.length)
        (extendTo limit (offset + buffer.length) before.data) := by
      unfold extendTo resize
      split
      · split
        · simp only [Post, length_append, length_take, length_replicate]
          omega
        · exact fun _ => rfl
      next hle => exact ⟨Nat.le_of_not_lt hle, Nat.le_max_right _ _⟩
    refine .bind hextended fun data hdata => ?_
    have hcopied : copyRange data offset (offset + buffer.length) buffer = _ :=
      copyRange_ok (by omega) hdata.1 (by omega)
    have hlen := length_of_copyRange hcopied
    refine .bind (post_of_eq hcopied) ?_
    rintro _ rfl
    exact (hlen ▸ hdata : _)
  · have hfault : add offset buffer.length = .error .overflow := if_neg hadd
    rw [hfault]
    exact fun h => absurd h hadd

/-- Putting back the node that `write_at` returns is a change.  A file takes all the
bytes. -/
theorem writeAt_post (offset : Nat) (buffer : List UInt8) (hwrites : writes inode) :
    Post (fun fault => offset + buffer.length < 2 ^ 64 → fault = .allocation)
      (fun result => Change limit writes inodes (inodes.set inode result.2) ∧
        ∀ count, result.1 = .ok count → (inodes.node inode).isForeign = true ∨
          count = buffer.length ∧ ∃ before, inodes.node inode = .file before ∧
            offset + count ≤ max limit before.data.length)
      ((inodes.node inode).writeAt limit offset buffer) := by
  cases hnode : inodes.node inode with
  | dir inner => exact ⟨.entries hnode, fun _ heq => nomatch heq⟩
  | foreign inner => exact ⟨.answers hnode, fun _ _ => .inl rfl⟩
  | file inner =>
    refine .bind (writeFile_post offset buffer inner) fun after hafter =>
      ⟨.write hnode hwrites hafter.2, fun count hcount => .inr ?_⟩
    obtain rfl := Except.ok.inj hcount
    exact ⟨rfl, inner, rfl, hafter.1.trans hafter.2⟩

/-- Putting back the node that `truncate` returns is a change.  It stops for lack of
memory only. -/
theorem truncate_post (size : Nat) (hwrites : writes inode) :
    Post (fun fault => fault = .allocation)
      (fun result => Change limit writes inodes (inodes.set inode result.2))
      ((inodes.node inode).truncate limit size) := by
  cases hnode : inodes.node inode with
  | dir inner => exact .entries hnode
  | foreign inner => exact .answers hnode
  | file inner =>
    refine .bind (P := fun data => data.length ≤ limit) ?_ fun data hdata =>
      .write hnode hwrites (Nat.le_trans hdata (Nat.le_max_left _ _))
    unfold resize
    split
    · simp only [Post, length_append, length_take, length_replicate]
      omega
    · rfl

/-! ## Directories -/

theorem change_addChild {inner : TmpfsDir} {child : Node}
    (hparent : inodes.node parent = .dir inner)
    (hchild : ∀ inner, child = .file inner → inner.data = [])
    (hadd : inodes.addChild parent inner name child = .ok (inode, after)) :
    inode = inodes.next ∧ Change limit writes inodes after := by
  unfold addChild at hadd
  split at hadd
  · cases hadd
  · obtain ⟨rfl, rfl⟩ := Prod.mk.injEq .. ▸ Except.ok.inj hadd
    exact ⟨rfl, .trans (.entries hparent) (.push hchild)⟩

theorem change_create (hcreate : inodes.create made parent name = .ok (inode, after)) :
    inode = inodes.next ∧ Change limit writes inodes after := by
  unfold create at hcreate
  split at hcreate
  · cases hcreate
  next hparent =>
    refine change_addChild hparent (fun inner hinner => ?_) hcreate
    rw [← file.inj hinner]
  · obtain ⟨_, -, hcreate⟩ := exists_of_bind_eq_ok hcreate
    obtain ⟨rfl, rfl⟩ := Prod.mk.injEq .. ▸ Except.ok.inj hcreate
    exact ⟨rfl, .push (by simp)⟩

theorem change_mkdir (inodes : Inodes) (parent : InodeId) (name : Text) :
    Change limit writes inodes (inodes.mkdir parent name) := by
  unfold mkdir
  split
  next hparent =>
    split
    next hadd => exact (change_addChild hparent (by simp) hadd).2
    · exact .refl _
  · exact .refl _

theorem change_setMode (mode : Nat) (hwrites : writes inode) :
    Change limit writes inodes (inodes.set inode ((inodes.node inode).setMode mode)) := by
  cases hnode : inodes.node inode with
  | file inner => exact .write hnode hwrites (Nat.le_max_right _ _)
  | dir inner => exact .entries hnode
  | foreign inner => exact .answers hnode

end Change

/-! ## What a call writes -/

/-- The inode behind a descriptor. -/
def descriptorInode (caller : Caller) (fd : Int) : Option InodeId :=
  if fd < 0 then none
  else
    match caller.table.get fd.toNat with
    | some (.inoFile inode _) => some inode
    | _ => none

theorem descriptorInode_eq_some {caller : Caller} {fd : Int} {inode : InodeId}
    (h : descriptorInode caller fd = some inode) :
    0 ≤ fd ∧ ∃ position, caller.table.get fd.toNat = some (.inoFile inode position) := by
  unfold descriptorInode at h
  split at h
  · cases h
  split at h
  next position hget => exact ⟨by omega, position, Option.some.inj h ▸ hget⟩
  · cases h

section

variable (system : System) (caller : Caller)

/-- The inode that `sys_open` finds in a mounted file system. -/
def openedInode (path : UserString) : Option InodeId :=
  (pathArgument path).bind fun raw =>
    (resolveInode system.inodes system.mounts (openName caller raw) caller.cwd).toOption

/-- The inode that `sys_creat` finds. -/
def creatInode (path : UserString) : Option InodeId :=
  (pathArgument path).bind fun raw =>
    (resolveInode system.inodes system.mounts (resolveToAbsolute caller.cwdPath raw) none).toOption

/-- The call may write to the inode. -/
def Writes : Call → InodeId → Prop
  | .open path flags _, inode =>
    openedInode system caller path = some inode ∧ hasFlag flags O_TRUNC ∧
      vfsCheckAccess (system.inodes.node inode).stat caller.credentials (accessNeeded flags)
  | .creat path, inode => creatInode system caller path = some inode
  | .write fd _ _, inode => descriptorInode caller fd = some inode
  | .pwrite64 fd _ _ _, inode => descriptorInode caller fd = some inode
  | .ftruncate fd _, inode => descriptorInode caller fd = some inode
  | _, _ => False

end

end Bazzulto.Vfs
