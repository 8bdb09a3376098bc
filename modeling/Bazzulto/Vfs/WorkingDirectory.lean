/-
  Vfs/WorkingDirectory.lean --- the working directory as an inode and as a path.

  Embeds `sys_chdir` (kernel/src/systemcalls/vfs.rs) and `sys_fchdir`
  (kernel/src/systemcalls/posix_abi.rs) on a fixed tree of inodes; a forked child takes
  both the inode and the path of its parent.  The inode is found by a walk that passes
  over `..`, does not leave the mount it is in and follows symbolic links; the path is
  normalised as text.  `Agreeable` says of a call that the two lead to the same place.
-/
import Bazzulto.Foundation.Run
import Bazzulto.Vfs.Spelling

set_option autoImplicit false

namespace Bazzulto.Vfs.WorkingDirectory

open List Option Foundation

/-- `cwd` and `cwd_path` of a process. -/
structure Cwd where
  inode : Option InodeId
  path : Text

/-- The inodes, the mounts, and the inode number of an inode, which other file systems
use as well. -/
structure Tree where
  inodes : Inodes
  mounts : MountTable
  number : InodeId → Nat

section

variable (tree : Tree)

/-- Only directories have entries. -/
def Tree.Proper : Prop :=
  ∀ inode name, (tree.inodes.node inode).kind ≠ .directory →
    (tree.inodes.node inode).lookup name = none

/-- `sys_chdir`, once its argument is read. -/
def sysChdir (cwd : Cwd) (path : Text) : Int × Cwd :=
  match resolveInode tree.inodes tree.mounts path cwd.inode with
  | .error error => (error.toErrno, cwd)
  | .ok inode =>
    if (tree.inodes.node inode).kind ≠ .directory then (-20, cwd)
    else (0, ⟨some inode, resolveToAbsolute cwd.path path⟩)

/-- The first mount whose root has the inode number. -/
def mountOf (inode : InodeId) : Option MountEntry :=
  tree.mounts.find? fun entry => tree.number entry.root = tree.number inode

/-- `sys_fchdir`, once it has the inode of its descriptor. -/
def sysFchdir (cwd : Cwd) (inode : InodeId) : Int × Cwd :=
  if (tree.inodes.node inode).kind ≠ .directory then (-20, cwd)
  else
    (0, ⟨some inode, ((mountOf tree inode).map MountEntry.path).getD
      ("/.inode/" ++ toString (tree.number inode)).toList⟩)

inductive Call where
  | chdir (path : Text)
  | fchdir (inode : InodeId)
  /-- The run goes on in the child. -/
  | fork

def step (cwd : Cwd) : Call → Option Cwd
  | .chdir path => some (sysChdir tree cwd path).2
  | .fchdir inode => some (sysFchdir tree cwd inode).2
  | .fork => some cwd

end

/-- `Process::new`. -/
def newCwd : Cwd := ⟨none, ['/']⟩

/-! ## Walks -/

/-- A walk meets no symbolic link. -/
def Straight (inodes : Inodes) : InodeId → List Text → Prop
  | _, [] => True
  | current, item :: rest =>
    if item = ['.', '.'] then Straight inodes current rest
    else ∀ next, (inodes.node current).lookup item = some next →
      (inodes.node next).kind ≠ .symlink ∧ Straight inodes next rest

variable {tree : Tree} {inodes : Inodes} {mounts : MountTable} {inode : InodeId}

theorem followSymlinks_of_kind {hops : Nat} (h : (inodes.node inode).kind ≠ .symlink) :
    followSymlinks inodes mounts hops inode = .ok inode := by
  unfold followSymlinks
  split
  next hnode =>
    rw [hnode] at h
    exact if_pos h
  · rfl

/-- Without symbolic links the relative walk is the absolute one. -/
theorem walk_of_resolveRelative {start : InodeId} {path : Text}
    (hstraight : Straight inodes start (components path))
    (h : resolveRelative inodes mounts start path = .ok inode) :
    (components path).foldlM (walkStep inodes) start = .ok inode := by
  unfold resolveRelative at h
  generalize components path = items at hstraight h
  induction items generalizing start with
  | nil => exact h
  | cons item rest ih =>
    rw [foldlM_cons] at h ⊢
    unfold walkStep
    unfold Straight at hstraight
    split at hstraight
    next hdots =>
      rw [if_pos hdots] at h ⊢
      exact ih hstraight h
    next hdots =>
      rw [if_neg hdots] at h ⊢
      split at h
      · cases h
      next hkind =>
        rw [if_neg hkind]
        cases hlookup : (inodes.node start).lookup item with
        | none => rw [hlookup] at h; cases h
        | some next =>
          obtain ⟨hlink, hrest⟩ := hstraight next hlookup
          rw [hlookup] at h
          dsimp only at h
          rw [followSymlinks_of_kind hlink] at h
          exact ih hrest h

theorem names_ne_dot {path : Text} {place : Place} (h : placeOf mounts path = some place) :
    ['.'] ∉ place.names := by
  obtain ⟨⟨_, _⟩, -, rfl⟩ := map_eq_some_iff.mp h
  intro hmem
  have hkeep := (mem_filter.mp ((walked_sublist _).subset hmem)).2
  cases hkeep

/-- Resolving an absolute path without `..` is walking along its names. -/
theorem resolveAbsolute_eq_ok_iff (hproper : tree.Proper) {path : Text} {place : Place}
    (hplace : placeOf tree.mounts path = some place) (hdots : ['.', '.'] ∉ place.names) :
    resolveAbsolute tree.inodes tree.mounts path = .ok inode ↔
      place.names.foldlM (walkStep tree.inodes) place.entry.root = .ok inode := by
  have hdot := names_ne_dot hplace
  rw [resolveAbsolute_eq, hplace]
  dsimp only [resolvePlace]
  rcases eq_nil_or_concat' place.names with hnil | ⟨init, last, hlast⟩
  · rw [hnil]
    rfl
  rw [hlast] at hdot hdots ⊢
  rw [List.getLast?_concat, dropLast_concat, foldlM_append]
  cases init.foldlM (walkStep tree.inodes) place.entry.root with
  | error stop => exact Iff.rfl
  | ok parent =>
    have hname : last ≠ ['.'] := fun heq => hdot (by simp [heq])
    have hname' : last ≠ ['.', '.'] := fun heq => hdots (by simp [heq])
    change (if last = ['.'] then _ else _) = _ ↔ (walkStep tree.inodes parent last >>= pure) = _
    rw [if_neg hname, walkStep, if_neg hname']
    split
    next hfound =>
      rw [if_neg fun hkind => by rw [hproper parent last hkind] at hfound; cases hfound]
      rfl
    · split
      · simp
      · rfl

/-! ## Calls that agree -/

/-- The inode and the path lead to the same place. -/
def Agreeable (tree : Tree) (cwd : Cwd) : Call → Prop
  | .chdir path =>
    if ['/'].isPrefixOf path then
      -- the path and its normal form are under one mount and look up the same names
      ∃ place, placeOf tree.mounts path = some place ∧
        placeOf tree.mounts (normalizeCwdPath path) = some place ∧ ['.', '.'] ∉ place.names
    else
      -- the path goes on from the one of the working directory, under the same mount
      ['.', '.'] ∉ components path ∧
        (∀ start, cwd.inode = some start → Straight tree.inodes start (components path)) ∧
        ∃ place, placeOf tree.mounts cwd.path = some place ∧
          placeOf tree.mounts (resolveToAbsolute cwd.path path) =
            some ⟨place.entry, place.names ++ components path⟩
  | .fchdir inode =>
    -- the inode is the root of the mount that its number finds
    ∃ entry, mountOf tree inode = some entry ∧ entry.root = inode ∧
      placeOf tree.mounts entry.path = some ⟨entry, []⟩
  | .fork => True

/-- The path of the working directory leads to its inode. -/
def Located (tree : Tree) (cwd : Cwd) : Prop :=
  ∀ inode, cwd.inode = some inode →
    ∃ place, placeOf tree.mounts cwd.path = some place ∧ ['.', '.'] ∉ place.names ∧
      place.names.foldlM (walkStep tree.inodes) place.entry.root = .ok inode

variable {cwd next : Cwd}

theorem Located.chdir (hproper : tree.Proper) (h : Located tree cwd) {path : Text}
    (hcall : Agreeable tree cwd (.chdir path)) : Located tree (sysChdir tree cwd path).2 := by
  unfold sysChdir
  split
  · exact h
  next inode hresolve =>
    split
    · exact h
    intro reached hreached
    obtain rfl : inode = reached := some.inj hreached
    dsimp only [Agreeable] at hcall
    unfold resolveInode at hresolve
    split at hcall
    next hslash =>
      obtain ⟨place, hplace, hnormal, hdots⟩ := hcall
      rw [if_pos hslash, resolveAbsolute_eq_ok_iff hproper hplace hdots] at hresolve
      rw [resolveToAbsolute, if_pos hslash]
      exact ⟨place, hnormal, hdots, hresolve⟩
    next hslash =>
      obtain ⟨hdots, hstraight, _, hplace, hextended⟩ := hcall
      rw [if_neg hslash] at hresolve
      cases hstart : cwd.inode with
      | none => rw [hstart] at hresolve; cases hresolve
      | some start =>
        rw [hstart] at hresolve
        obtain ⟨_, hplace', hdots', hwalk⟩ := h start hstart
        obtain rfl := some.inj (hplace.symm.trans hplace')
        refine ⟨_, hextended, fun hmem => ?_, ?_⟩
        · exact (mem_append.mp hmem).elim hdots' hdots
        · rw [foldlM_append, hwalk]
          exact walk_of_resolveRelative (hstraight start hstart) hresolve

theorem Located.step (hproper : tree.Proper) {call : Call} (h : Located tree cwd)
    (hcall : Agreeable tree cwd call) (hstep : step tree cwd call = some next) :
    Located tree next := by
  cases call with
  | fork => exact some.inj hstep ▸ h
  | chdir path => exact some.inj hstep ▸ h.chdir hproper hcall
  | fchdir inode =>
    obtain rfl := some.inj hstep
    obtain ⟨_, hmount, hroot, hplace⟩ := hcall
    unfold sysFchdir
    split
    · exact h
    intro reached hreached
    obtain rfl : inode = reached := some.inj hreached
    rw [hmount]
    exact ⟨_, hplace, not_mem_nil, congrArg _ hroot⟩

/-- In a run of calls that agree, the inode of the working directory is always what its
path resolves to. -/
theorem cwd_is_resolved_path (tree : Tree) (hproper : tree.Proper) (calls : List Call)
    (final : Cwd) (hcalls : Along (step tree) (Agreeable tree) newCwd calls)
    (hrun : run (step tree) newCwd calls = some final) :
    ∀ inode, final.inode = some inode →
      resolveAbsolute tree.inodes tree.mounts final.path = .ok inode := by
  have hlocated : Located tree final :=
    run_invariant (fun _ _ _ h hcall hstep => h.step hproper hcall hstep) calls newCwd final
      (fun _ hnone => by cases hnone) hcalls hrun
  intro inode hinode
  obtain ⟨_, hplace, hdots, hwalk⟩ := hlocated inode hinode
  exact (resolveAbsolute_eq_ok_iff hproper hplace hdots).mpr hwalk

/-- A root directory with one directory `a`. -/
def sampleTree : Tree where
  inodes :=
    { node := fun inode => .dir { entries := if inode = 0 then [(['a'], 1)] else [] }
      next := 2 }
  mounts := [⟨['/'], 0, [], []⟩]
  number := id

def sampleCalls : List Call := [.chdir "/a".toList, .fchdir 0, .chdir "./a".toList, .fork]

theorem cwd_is_resolved_path_in_sampleTree :
    sampleTree.Proper ∧ Along (step sampleTree) (Agreeable sampleTree) newCwd sampleCalls ∧
      ∃ final, run (step sampleTree) newCwd sampleCalls = some final ∧ final.inode = some 1 ∧
        resolveAbsolute sampleTree.inodes sampleTree.mounts final.path = .ok 1 := by
  have hproper : sampleTree.Proper := fun _ _ hkind => absurd rfl hkind
  have hcalls : Along (step sampleTree) (Agreeable sampleTree) newCwd sampleCalls := by
    refine ⟨⟨⟨⟨['/'], 0, [], []⟩, [['a']]⟩, rfl, rfl, by decide⟩, ⟨_, rfl, rfl, rfl⟩,
      ⟨by decide, ?_, ⟨⟨['/'], 0, [], []⟩, []⟩, rfl, rfl⟩, trivial, trivial⟩
    exact fun _ _ _ _ => ⟨by simp [sampleTree, Node.kind], trivial⟩
  exact ⟨hproper, hcalls, _, rfl, rfl,
    cwd_is_resolved_path sampleTree hproper sampleCalls _ hcalls rfl 1 rfl⟩

/-- `chdir("/a")` and `chdir("..")` leave the inode of `/a` with the path `/`. -/
theorem dotdot_keeps_inode :
    ∃ final, run (step sampleTree) newCwd [.chdir "/a".toList, .chdir "..".toList] = some final ∧
      final.inode = some 1 ∧ final.path = ['/'] ∧
      resolveAbsolute sampleTree.inodes sampleTree.mounts final.path = .ok 0 :=
  ⟨_, rfl, rfl, rfl, rfl⟩

end Bazzulto.Vfs.WorkingDirectory
