/-
  Vfs/Spelling.lean --- the permission check and the spellings of a path.

  `sys_open` checks the granted patterns only against a path that begins with two
  slashes, and resolves such a path without normalising it.  This file compares
  what the check says about two spellings of the same inode: paths that fall
  under the same mount and look up the same components.

  A path with single slashes is never checked.  So the paths with two slashes to an
  inode must all be granted, unless the mount table leads the plain path elsewhere.
-/
import Bazzulto.Vfs.Syscall

set_option autoImplicit false

namespace Bazzulto.Vfs

open List Option MountTable
open Permission (PathPattern Denotes Canonical permissionAllows isImpossibleNamespace
  denotes_of_matchesPath matchesPath_of_denotes)

variable {system : System} {caller : Caller} {path : UserString} {raw rest : Text}
  {items : List Text} {table : MountTable} {entry : MountEntry} {place : Place}

/-! ## What a path opens -/

/-- What `sys_open` finds: an inode of a mounted file system, or the slave side of
a terminal. -/
inductive Target where
  | mounted (place : Place)
  | ptySlave (index : Nat)
  deriving DecidableEq, Repr

section

variable (system : System) (caller : Caller)

/-- The inode that `sys_open` resolves a name to; every open of `/dev/ptmx` makes
another one. -/
def openTarget (name : Text) : Option Target :=
  if "//proc:".toList.isPrefixOf name || name = "/dev/ptmx".toList then none
  else if "/dev/pts/".toList.isPrefixOf name then
    (parseUsize (name.drop "/dev/pts/".length)).bind fun index =>
      if index < 16 then some (.ptySlave index) else none
  else if (system.ramfs.lookup name).isSome then none
  else
    match resolveInode system.inodes system.mounts name caller.cwd with
    | .ok _ => (placeOf system.mounts name).map .mounted
    | .error _ => none

/-- The inode that `sys_open` resolves a path argument to. -/
def spelledTarget (path : UserString) : Option Target :=
  (pathArgument path).bind fun raw => openTarget system caller (openName caller raw)

/-- `sys_open` resolves both paths, and to the same inode. -/
def SameInode (first second : UserString) : Prop :=
  ∃ target, spelledTarget system caller first = some target ∧
    spelledTarget system caller second = some target

end

/-- The Binary Permission Model refuses to open the path. -/
def Refused (caller : Caller) (path : UserString) : Prop :=
  ((pathArgument path).bind fun raw => bpmRefusal caller (openName caller raw)).isSome

/-! ## Grants and mounts -/

/-- The path is in no impossible namespace, and a granted pattern stands for it. -/
def Granted (caller : Caller) (raw : Text) : Prop :=
  isImpossibleNamespace raw = false ∧ (caller.grantedPermissions = [] ∨
    ∃ pattern ∈ caller.grantedPermissions, Denotes pattern.raw raw)

/-- No device and no other file takes the place of what is mounted under the name. -/
def Served (system : System) (name : Text) : Prop :=
  "//proc:".toList.isPrefixOf name = false ∧ name ≠ "/dev/ptmx".toList ∧
    "/dev/pts/".toList.isPrefixOf name = false ∧ system.ramfs.lookup name = none

/-- An argument of `sys_open` with two slashes that the mount table leads to the place. -/
structure Spells (system : System) (place : Place) (raw : Text) : Prop where
  slashes : ['/', '/'].isPrefixOf raw = true
  length : utf8Length raw < 511
  no_nul : 0 ∉ toUtf8 raw
  served : Served system raw
  leads : placeOf system.mounts raw = some place

/-- The mount table leads the components, joined by single slashes, to the place. -/
structure ReachedPlainly (system : System) (place : Place) : Prop where
  ordinary : ∀ name ∈ place.names, Ordinary name
  served : Served system (absolutePath place.names)
  leads : placeOf system.mounts (absolutePath place.names) = some place

/-! ## Names -/

theorem doubleSlash_cons (hraw : ['/', '/'].isPrefixOf raw) : ∃ rest, raw = '/' :: '/' :: rest := by
  obtain ⟨rest, hrest⟩ := isPrefixOf_iff_prefix.mp hraw
  exact ⟨rest, hrest.symm⟩

theorem openName_of_plain (caller : Caller) (hraw : ['/', '/'].isPrefixOf raw = false) :
    ∃ items, (∀ item ∈ items, Ordinary item) ∧ openName caller raw = absolutePath items := by
  unfold openName
  rw [if_neg (by simp [hraw]), resolveToAbsolute]
  split <;> exact normalizeCwdPath_eq_absolutePath _

theorem openName_absolutePath (caller : Caller) (hitems : ∀ item ∈ items, Ordinary item) :
    openName caller (absolutePath items) = absolutePath items := by
  have hplain := absolutePath_not_doubleSlash (Ordinary.shaped hitems)
  have hslash : ['/'].isPrefixOf (absolutePath items) := rfl
  rw [openName, if_neg (by simp [hplain])]
  exact normalizeCwdPath_absolutePath hitems

/-- What is refused: a path with two slashes that is not granted. -/
theorem refused_iff (hraw : pathArgument path = some raw) :
    Refused caller path ↔ ['/', '/'].isPrefixOf raw = true ∧ ¬ Granted caller raw := by
  unfold Refused
  rw [hraw, bind_some]
  by_cases hslashes : ['/', '/'].isPrefixOf raw
  · have hcanonical : Canonical raw := isPrefixOf_iff_prefix.mp hslashes
    have hallows : permissionAllows caller.grantedPermissions raw = true ↔
        caller.grantedPermissions = [] ∨
          ∃ pattern ∈ caller.grantedPermissions, Denotes pattern.raw raw := by
      have hmeaning : ∀ pattern : PathPattern, pattern.matchesPath raw = true ↔
          Denotes pattern.raw raw :=
        fun _ => ⟨denotes_of_matchesPath hcanonical, matchesPath_of_denotes⟩
      rcases caller.grantedPermissions with _ | ⟨pattern, rest⟩
      · simp [permissionAllows]
      · simp [permissionAllows, hmeaning]
    rw [openName, if_pos hslashes, bpmRefusal, if_pos hslashes, Granted, ← hallows]
    cases isImpossibleNamespace raw <;>
      cases permissionAllows caller.grantedPermissions raw <;> simp [hslashes]
  · obtain ⟨_, hitems, hname⟩ := openName_of_plain caller (Bool.not_eq_true _ ▸ hslashes)
    have hsingle := absolutePath_not_doubleSlash (Ordinary.shaped hitems)
    simp [hname, bpmRefusal, hsingle, hslashes]

/-! ## The plain path -/

theorem walked_sublist (items : List Text) : (walked items).Sublist items := by
  rcases eq_nil_or_concat' items with rfl | ⟨_, _, rfl⟩
  · exact Sublist.refl _
  · rw [walked_concat]
    exact filter_sublist.append (Sublist.refl _)

/-- The components of a path, joined again, have no other characters. -/
theorem no_nul_absolutePath (hsub : items.Sublist (components raw)) (hraw : 0 ∉ toUtf8 raw) :
    0 ∉ toUtf8 (absolutePath items) := by
  intro hzero
  obtain ⟨character, hcharacter, hin⟩ := mem_flatMap.mp hzero
  have hslash : character ≠ '/' := by
    rintro rfl
    exact absurd hin (by decide)
  replace hcharacter := (mem_cons.mp hcharacter).resolve_left hslash
  obtain rfl | hne := eq_or_ne items []
  · cases hcharacter
  obtain ⟨hslash', -⟩ | ⟨_, hitem, hmem⟩ := (mem_intercalate_iff hne).mp hcharacter
  · exact hslash hslash'
  · exact hraw (mem_flatMap.mpr ⟨character,
      mem_of_mem_splitPath (mem_filter.mp (hsub.subset hitem)).1 hmem, hin⟩)

theorem walked_of_ordinary (hitems : ∀ item ∈ items, Ordinary item) : walked items = items := by
  rcases eq_nil_or_concat' items with rfl | ⟨_, _, rfl⟩
  · rfl
  · rw [walked_concat, filter_eq_self.mpr]
    intro item hitem
    simpa using (hitems item (mem_append_left _ hitem)).ne_dotdot

/-! ## Mounts -/

theorem remaining_of_findMountRoot {path : Text}
    (hfind : table.findMountRoot path = some (entry, rest)) : remaining entry path = some rest := by
  induction table with
  | nil => exact absurd hfind (by simp [findMountRoot])
  | cons first others ih =>
    unfold findMountRoot at hfind
    split at hfind
    next htext =>
      obtain ⟨rfl, rfl⟩ := Prod.mk.injEq .. ▸ some.inj hfind
      exact htext
    · exact ih hfind

theorem remaining_append {path : Text} (hrest : remaining entry path = some rest) :
    entry.path <+: path := by
  unfold remaining at hrest
  split at hrest
  next heq => exact heq ▸ prefix_rfl
  · split at hrest
    next hprefix => exact isPrefixOf_iff_prefix.mp hprefix
    · cases hrest

/-- Under the root, or a mount without a path, the whole path is walked. -/
theorem components_of_remaining {path : Text} (hrest : remaining entry path = some rest)
    (hroot : entry.path = [] ∨ entry.path = ['/']) : components rest = components path := by
  unfold remaining at hrest
  split at hrest
  next heq =>
    obtain rfl := some.inj hrest
    rw [heq]
    rcases hroot with hroot | hroot <;> rw [hroot]
    rfl
  · split at hrest
    · dsimp only at hrest
      replace hrest := (ite_none_right_eq_some.mp hrest).2
      rcases hroot with hroot | hroot <;>
        · obtain rfl := some.inj hrest
          simp [hroot]
    · cases hrest

/-- Only the root covers both a path that begins with two slashes and one that does
not. -/
theorem path_of_common_mount (hitems : ∀ item ∈ items, Ordinary item)
    (hdouble : entry.path <+: '/' :: '/' :: rest) (hplain : entry.path <+: absolutePath items) :
    entry.path = [] ∨ entry.path = ['/'] := by
  match hpath : entry.path with
  | [] => exact .inl rfl
  | [character] =>
    rw [hpath, cons_prefix_cons] at hdouble
    exact .inr (by rw [hdouble.1])
  | first :: second :: others =>
    rw [hpath, cons_prefix_cons, cons_prefix_cons] at hdouble
    obtain ⟨rfl, rfl, _⟩ := hdouble
    have hsingle := absolutePath_not_doubleSlash (Ordinary.shaped hitems)
    have hslashes : ['/', '/'] <+: absolutePath items := by
      refine IsPrefix.trans ?_ (hpath ▸ hplain)
      exact ⟨others, rfl⟩
    rw [ isPrefixOf_iff_prefix.mpr hslashes] at hsingle
    cases hsingle

theorem names_of_common_mount {name : Text} (hplace : placeOf table name = some place)
    (hroot : place.entry.path = [] ∨ place.entry.path = ['/']) :
    place.names = walked (components name) := by
  obtain ⟨⟨_, _⟩, hfind, rfl⟩ := map_eq_some_iff.mp hplace
  dsimp only
  rw [components_of_remaining (remaining_of_findMountRoot hfind) hroot]

theorem path_of_place {name : Text} (hplace : placeOf table name = some place) :
    place.entry.path <+: name := by
  obtain ⟨⟨_, _⟩, hfind, rfl⟩ := map_eq_some_iff.mp hplace
  exact remaining_append (remaining_of_findMountRoot hfind)

/-! ## Spellings agree -/

/-- A name is opened at a place if the mount table leads it to an inode there. -/
theorem openTarget_eq_mounted_iff {name : Text} (habsolute : ['/'].isPrefixOf name = true) :
    openTarget system caller name = some (.mounted place) ↔
      Served system name ∧ placeOf system.mounts name = some place ∧
        ∃ inode, resolvePlace system.inodes place = .ok inode := by
  unfold openTarget Served resolveInode
  rw [if_pos habsolute, resolveAbsolute_eq]
  simp only [Bool.or_eq_true, decide_eq_true_iff]
  generalize "//proc:".toList.isPrefixOf name = proc
  generalize "/dev/pts/".toList.isPrefixOf name = pts
  generalize "/dev/ptmx".toList = ptmx
  by_cases hproc : proc = true ∨ name = ptmx
  · rw [if_pos hproc]
    refine iff_of_false (by simp) fun h => ?_
    obtain rfl | hname := hproc
    · cases h.1.1
    · exact h.1.2.1 hname
  rw [if_neg hproc]
  obtain ⟨hproc, hname⟩ := not_or.mp hproc
  cases pts with
  | true =>
    refine iff_of_false (fun htarget => ?_) fun h => by cases h.1.2.2.1
    obtain ⟨_, -, hindex⟩ := bind_eq_some_iff.mp htarget
    split at hindex <;> cases hindex
  | false =>
    cases system.ramfs.lookup name with
    | some data => simp
    | none =>
      cases placeOf system.mounts name with
      | none => simp
      | some found =>
        obtain rfl | hne := eq_or_ne found place
        · cases hinode : resolvePlace system.inodes found <;> simp [hproc, hname, hinode]
        · cases hinode : resolvePlace system.inodes found <;> simp [hne, hinode]

def argument (raw : Text) (hraw : 0 ∉ toUtf8 raw) : UserString := ⟨0x400000, toUtf8 raw, hraw⟩

theorem pathArgument_argument (hraw : 0 ∉ toUtf8 raw) (hlength : utf8Length raw < 511) :
    pathArgument (argument raw hraw) = some raw :=
  pathArgument_eq_some_iff.mpr
    ⟨show 4096 ≤ 0x400000 ∧ 0x400000 < userAddrLimit.toNat by decide, hlength, rfl⟩

theorem spelledTarget_iff_spells (hraw : pathArgument path = some raw)
    (hslashes : ['/', '/'].isPrefixOf raw = true) :
    spelledTarget system caller path = some (.mounted place) ↔
      Spells system place raw ∧ ∃ inode, resolvePlace system.inodes place = .ok inode := by
  obtain ⟨_, rfl⟩ := doubleSlash_cons hslashes
  obtain ⟨-, hlength, hbytes⟩ := pathArgument_eq_some_iff.mp hraw
  rw [spelledTarget, hraw, bind_some, openName, if_pos hslashes,
    openTarget_eq_mounted_iff (by rfl)]
  constructor
  · rintro ⟨hserved, hleads, hinode⟩
    exact ⟨⟨hslashes, hlength, hbytes ▸ path.no_nul, hserved, hleads⟩, hinode⟩
  · rintro ⟨hspells, hinode⟩
    exact ⟨hspells.served, hspells.leads, hinode⟩

/-- A terminal is only found under `/dev/pts/`. -/
theorem spelledTarget_ne_ptySlave (hraw : pathArgument path = some raw)
    (hslashes : ['/', '/'].isPrefixOf raw = true) (index : Nat) :
    spelledTarget system caller path ≠ some (.ptySlave index) := by
  obtain ⟨_, rfl⟩ := doubleSlash_cons hslashes
  rw [spelledTarget, hraw, bind_some, openName, if_pos hslashes]
  unfold openTarget
  split <;> simp_all [isPrefixOf]
  split <;> simp_all

section

variable (hspells : Spells system place raw)
include hspells

theorem Spells.reads : pathArgument (argument raw hspells.no_nul) = some raw :=
  pathArgument_argument hspells.no_nul hspells.length

theorem Spells.target {inode : InodeId} (hinode : resolvePlace system.inodes place = .ok inode) :
    spelledTarget system caller (argument raw hspells.no_nul) = some (.mounted place) :=
  (spelledTarget_iff_spells hspells.reads hspells.slashes).mpr ⟨hspells, inode, hinode⟩

theorem Spells.plain_argument (hplain : ReachedPlainly system place) :
    ∃ other : UserString, pathArgument other = some (absolutePath place.names) := by
  obtain ⟨rest, hrest⟩ := doubleSlash_cons hspells.slashes
  have hroot := path_of_common_mount hplain.ordinary (hrest ▸ path_of_place hspells.leads)
    (path_of_place hplain.leads)
  have hnames : place.names.Sublist (components raw) := by
    rw [names_of_common_mount hspells.leads hroot]
    exact walked_sublist _
  refine ⟨_, pathArgument_argument (no_nul_absolutePath hnames hspells.no_nul) ?_⟩
  rw [hrest] at hnames
  exact Nat.lt_of_le_of_lt (utf8Length_absolutePath_le hnames) (hrest ▸ hspells.length)

theorem Spells.plain_of_ordinary (hitems : ∀ item ∈ items, Ordinary item)
    (hserved : Served system (absolutePath items))
    (hleads : placeOf system.mounts (absolutePath items) = some place) :
    ReachedPlainly system place := by
  obtain ⟨_, hrest⟩ := doubleSlash_cons hspells.slashes
  have hroot := path_of_common_mount hitems (hrest ▸ path_of_place hspells.leads)
    (path_of_place hleads)
  have hnames : place.names = items := by
    rw [names_of_common_mount hleads hroot, components_absolutePath hitems,
      walked_of_ordinary hitems]
  rw [← hnames] at hitems hserved hleads
  exact ⟨hitems, hserved, hleads⟩

end

/-- All spellings of every inode are refused alike exactly if for each of them the paths
with two slashes are all granted, or none is and the plain path does not lead to it. -/
theorem spellings_agree_iff (system : System) (caller : Caller) :
    (∀ first second, SameInode system caller first second →
      (Refused caller first ↔ Refused caller second)) ↔
    ∀ place inode, resolvePlace system.inodes place = .ok inode →
      (∀ raw, Spells system place raw → Granted caller raw) ∨
        ¬ ReachedPlainly system place ∧ ∀ raw, Spells system place raw → ¬ Granted caller raw := by
  constructor
  · intro hagree place inode hinode
    by_cases hall : ∀ raw, Spells system place raw → Granted caller raw
    · exact .inl hall
    push Not at hall
    obtain ⟨raw, hspells, hrefused⟩ := hall
    have hfirst : Refused caller (argument raw hspells.no_nul) :=
      (refused_iff hspells.reads).mpr ⟨hspells.slashes, hrefused⟩
    refine .inr ⟨fun hplain => ?_, fun other hother => ?_⟩
    · obtain ⟨plain, harg⟩ := hspells.plain_argument hplain
      have hsecond : spelledTarget system caller plain = some (.mounted place) := by
        rw [spelledTarget, harg, bind_some, openName_absolutePath caller hplain.ordinary,
          openTarget_eq_mounted_iff rfl]
        exact ⟨hplain.served, hplain.leads, inode, hinode⟩
      have hboth := (refused_iff harg).mp ((hagree _ _ ⟨_, hspells.target hinode, hsecond⟩).mp hfirst)
      rw [absolutePath_not_doubleSlash (Ordinary.shaped hplain.ordinary)] at hboth
      cases hboth.1
    · have hsecond := hagree _ _ ⟨_, hspells.target hinode, hother.target hinode⟩
      exact ((refused_iff hother.reads).mp (hsecond.mp hfirst)).2
  · intro hcondition
    have himp : ∀ first second, SameInode system caller first second →
        Refused caller first → Refused caller second := by
      rintro first second ⟨target, hfirst, hsecond⟩ hrefused
      obtain ⟨raw, hraw, -⟩ := bind_eq_some_iff.mp hfirst
      obtain ⟨other, hother, htarget⟩ := bind_eq_some_iff.mp hsecond
      obtain ⟨hslashes, hungranted⟩ := (refused_iff hraw).mp hrefused
      cases target with
      | ptySlave index => exact absurd hfirst (spelledTarget_ne_ptySlave hraw hslashes index)
      | mounted place =>
        obtain ⟨hspells, inode, hinode⟩ := (spelledTarget_iff_spells hraw hslashes).mp hfirst
        obtain hall | ⟨hunreached, hnone⟩ := hcondition place inode hinode
        · exact absurd (hall raw hspells) hungranted
        rw [refused_iff hother]
        by_cases hslashes' : ['/', '/'].isPrefixOf other
        · exact ⟨hslashes', hnone other ((spelledTarget_iff_spells hother hslashes').mp hsecond).1⟩
        · obtain ⟨_, hitems, hname⟩ := openName_of_plain caller (Bool.not_eq_true _ ▸ hslashes')
          rw [hname, openTarget_eq_mounted_iff rfl] at htarget
          exact absurd (hspells.plain_of_ordinary hitems htarget.1 htarget.2.1) hunreached
    rintro first second ⟨target, hfirst, hsecond⟩
    exact ⟨himp first second ⟨target, hfirst, hsecond⟩, himp second first ⟨target, hsecond, hfirst⟩⟩

/-! ## A spelling that escapes -/

/-- A process that may only use the temporary files of the RAM disk. -/
def confinedCaller : Caller := newCaller [⟨"//ram:/tmp/**".toList⟩] []

/-- The argument `//tmp`. -/
def doubleSlashTmp : UserString := ⟨0x400000, [47, 47, 116, 109, 112], by decide⟩

/-- The argument `/tmp`. -/
def singleSlashTmp : UserString := ⟨0x400000, [47, 116, 109, 112], by decide⟩

/-- After boot `//tmp` and `/tmp` are one directory; the process is refused the
first and not the second. -/
theorem single_slash_escapes_permissions :
    confinedCaller.grantedPermissions ≠ [] ∧
      SameInode (vfsInit bareDrivers [] 0) confinedCaller doubleSlashTmp singleSlashTmp ∧
      Refused confinedCaller doubleSlashTmp ∧ ¬ Refused confinedCaller singleSlashTmp := by
  refine ⟨by decide, ⟨.mounted ⟨⟨['/'], 0, [], "tmpfs".toList⟩, ["tmp".toList]⟩, ?_, ?_⟩, ?_, ?_⟩
  · decide +kernel
  · decide +kernel
  · unfold Refused
    decide +kernel
  · unfold Refused
    decide +kernel

end Bazzulto.Vfs
