/-
  Vfs/Rename.lean --- what sys_rename does to the tree of names.

  The tmpfs below a directory is seen as a tree whose edges have names
  (Foundation/NameTree.lean), and its namespace as the function from paths to inodes.
  `RenamesWell` says what a rename should do to it.  `sys_rename` links the source under
  its new name and then unlinks the old name, and checks nothing in between; the main
  result says exactly when that is right.

  A path stands for the names that its resolution looks up.
-/
import Bazzulto.Foundation.NameTree
import Bazzulto.Vfs.Names
import Mathlib.Tactic.IntervalCases

set_option autoImplicit false

namespace Bazzulto.Vfs.Names

open List Option Foundation Inodes

variable {inodes : Inodes} {root parent child : InodeId} {path : List Text} {name : Text}
  {system : System} {old new : UserString}

/-! ## The tree -/

instance (component : Text) : Decidable (Ordinary component) :=
  decidable_of_iff
    (component ≠ [] ∧ component ≠ ['.'] ∧ component ≠ ['.', '.'] ∧ '/' ∉ component)
    ⟨fun h => ⟨h.1, h.2.1, h.2.2.1, h.2.2.2⟩, fun h => ⟨h.ne_nil, h.ne_dot, h.ne_dotdot, h.no_slash⟩⟩

/-- The child of an inode under an ordinary name. -/
def childOf (inodes : Inodes) (inode : InodeId) (name : Text) : Option InodeId :=
  if Ordinary name then (inodes.node inode).lookup name else none

/-- The inode that a path leads to. -/
def namespaceOf (inodes : Inodes) (root : InodeId) (path : List Text) : Option InodeId :=
  walk (childOf inodes) root path

/-- The inode is a directory. -/
def IsDirectory (inodes : Inodes) (inode : InodeId) : Prop :=
  (inodes.node inode).kind = .directory

/-- The inode is a directory that has entries. -/
def Full (inodes : Inodes) (inode : InodeId) : Prop :=
  ∃ inner, inodes.node inode = .dir inner ∧ inner.entries ≠ []

/-- A node of a tmpfs: a directory or a file of its own, or an inode of another driver that
is no directory, such as a device. -/
def InTmpfs : Node → Prop
  | .foreign inner => inner.kind ≠ .directory ∧ ∀ name, inner.lookup name = none
  | _ => True

/-- A tmpfs: a tree of directories, files and devices, with ordinary names. -/
structure IsTmpfs (inodes : Inodes) (root : InodeId) : Prop where
  top : IsDirectory inodes root
  tree : NameTree (childOf inodes) root (IsDirectory inodes)
  own : ∀ {path inode}, namespaceOf inodes root path = some inode → InTmpfs (inodes.node inode)
  names : ∀ {inode inner}, inodes.node inode = .dir inner →
    ∀ entry ∈ inner.entries, Ordinary entry.1

/-! ## What a rename should do -/

/-- The namespace with what is under one name moved to another. -/
def moved (names : List Text → Option InodeId) (old new path : List Text) : Option InodeId :=
  if old = new then names path
  else if new <+: path then names (old ++ path.drop new.length)
  else if old <+: path then none
  else names path

/-- What a rename from one path to another should do.  On success the subtree is moved, an
error changes nothing, and either way the directories form a tree in which none is lost. -/
structure RenamesWell (root : InodeId) (before : Inodes) (old new : List Text) (result : Result) :
    Prop where
  success : result.reply = 0 → ∀ path,
    namespaceOf result.system.inodes root path = moved (namespaceOf before root) old new path
  failure : result.reply ≠ 0 → ∀ path,
    namespaceOf result.system.inodes root path = namespaceOf before root path
  tmpfs : IsTmpfs result.system.inodes root
  kept : ∀ path inode, namespaceOf before root path = some inode → IsDirectory before inode →
    ∃ path', namespaceOf result.system.inodes root path' = some inode

/-- The names that the resolution of a path looks up. -/
def namesOf (table : MountTable) (path : UserString) : List Text :=
  (((pathArgument path).bind (placeOf table)).map Place.names).getD []

/-- The path leads into the file system with this root. -/
def LeadsInto (table : MountTable) (root : InodeId) (path : UserString) : Prop :=
  ∀ raw place, pathArgument path = some raw → placeOf table raw = some place →
    place.entry.root = root

/-- When the two steps of a rename do what they should.  Under its own name a directory with
entries stays, because it cannot be unlinked; everything else must be no directory with
entries, must not be moved into itself, and must not take the place of a directory.  Neither
path may be the root, and the new name may not be `..`. -/
def Harmless (inodes : Inodes) (plan : RenamePlan) : Prop :=
  IsDirectory inodes plan.newParent → Ordinary plan.oldName ∧ Ordinary plan.newName ∧
      if plan.newParent = plan.oldParent ∧ plan.newName = plan.oldName then
        Full inodes plan.source
      else
        ¬ Full inodes plan.source ∧ plan.newParent ≠ plan.source ∧
          ∀ target, (inodes.node plan.newParent).lookup plan.newName = some target →
            ¬ IsDirectory inodes target

/-! ## Entries -/

section

variable (entries : List (Text × InodeId)) (name other : Text)

theorem lookup_filter_ne :
    (entries.filter fun entry => entry.1 ≠ name).lookup other =
      if other = name then none else entries.lookup other := by
  induction entries with
  | nil => simp
  | cons entry rest ih =>
    by_cases hentry : entry.1 = name
    · rw [filter_cons_of_neg (by simpa using hentry), ih]
      split
      · rfl
      next hother =>
        have hne : (other == entry.1) = false := by
          rw [hentry]
          simpa using hother
        rw [lookup_cons, hne]
    · rw [filter_cons_of_pos (by simpa using hentry), lookup_cons, lookup_cons, ih]
      by_cases hother : other = entry.1
      · simp [hother, hentry]
      · have hbeq : (other == entry.1) = false := by simpa using hother
        rw [hbeq]

theorem lookup_insert (child : InodeId) :
    ((entries.filter fun entry => entry.1 ≠ name) ++ [(name, child)]).lookup other =
      if other = name then some child else entries.lookup other := by
  rw [lookup_append, lookup_filter_ne]
  obtain rfl | hother := eq_or_ne other name
  · simp
  · have hbeq : (other == name) = false := by simpa using hother
    rw [if_neg hother, if_neg hother, lookup_cons, hbeq]
    simp

end

theorem isDirectory_of_dir {inner : TmpfsDir} (h : inodes.node parent = .dir inner) :
    IsDirectory inodes parent := by
  rw [IsDirectory, h]
  rfl

/-- In a tmpfs only directories have entries, and all of them have ordinary names. -/
theorem IsTmpfs.of_lookup (h : IsTmpfs inodes root)
    (hpath : namespaceOf inodes root path = some parent)
    (hlookup : (inodes.node parent).lookup name = some child) :
    Ordinary name ∧ ∃ inner, inodes.node parent = .dir inner := by
  cases hnode : inodes.node parent with
  | file inner =>
    rw [hnode] at hlookup
    cases hlookup
  | foreign inner =>
    have hown := h.own hpath
    rw [hnode] at hown hlookup
    cases (hown.2 name).symm.trans hlookup
  | dir inner =>
    rw [hnode] at hlookup
    obtain ⟨_, _, hentries, -⟩ := lookup_eq_some_iff.mp hlookup
    refine ⟨h.names hnode (name, child) ?_, inner, rfl⟩
    rw [hentries]
    exact mem_append_right _ mem_cons_self

/-! ## One changed directory -/

/-- The inodes with other entries in a directory. -/
def withEntries (inodes : Inodes) (parent : InodeId) (inner : TmpfsDir)
    (entries : List (Text × InodeId)) : Inodes :=
  inodes.set parent (.dir { inner with entries })

section WithEntries

variable {inner : TmpfsDir} {entries : List (Text × InodeId)}

theorem node_withEntries_self :
    (withEntries inodes parent inner entries).node parent = .dir { inner with entries } :=
  set_node_self ..

theorem node_withEntries_of_ne {inode : InodeId} (hne : inode ≠ parent) :
    (withEntries inodes parent inner entries).node inode = inodes.node inode :=
  set_node_of_ne hne

section

variable (hnode : inodes.node parent = .dir inner)
include hnode

theorem kind_withEntries (inode : InodeId) :
    ((withEntries inodes parent inner entries).node inode).kind = (inodes.node inode).kind ∧
      InTmpfs ((withEntries inodes parent inner entries).node inode) =
        InTmpfs (inodes.node inode) := by
  obtain rfl | hinode := eq_or_ne inode parent
  · rw [node_withEntries_self, hnode]
    exact ⟨rfl, rfl⟩
  · rw [node_withEntries_of_ne hinode]
    exact ⟨rfl, rfl⟩

theorem isDirectory_withEntries :
    IsDirectory (withEntries inodes parent inner entries) = IsDirectory inodes := by
  funext inode
  unfold IsDirectory
  rw [(kind_withEntries hnode inode).1]

/-- Other entries that differ under one name. -/
theorem childOf_withEntries {value : Option InodeId} (hname : Ordinary name)
    (hlookup : ∀ other, entries.lookup other =
      if other = name then value else inner.entries.lookup other) :
    childOf (withEntries inodes parent inner entries) =
      relink (childOf inodes) parent name value := by
  funext inode other
  by_cases hhere : inode = parent ∧ other = name
  · obtain ⟨rfl, rfl⟩ := hhere
    rw [relink_self, childOf, if_pos hname, node_withEntries_self]
    exact (hlookup other).trans (if_pos rfl)
  rw [relink_of_ne hhere]
  unfold childOf
  obtain rfl | hinode := eq_or_ne inode parent
  · have hother : other ≠ name := fun heq => hhere ⟨rfl, heq⟩
    rw [node_withEntries_self, hnode]
    dsimp only [Node.lookup]
    rw [hlookup other, if_neg hother]
  · rw [node_withEntries_of_ne hinode]

end

end WithEntries

/-! ## Resolution -/

theorem namespaceOf_of_foldlM {items : List Text} (hitems : ∀ item ∈ items, Ordinary item)
    {start : InodeId} (h : items.foldlM (walkStep inodes) start = .ok parent) :
    namespaceOf inodes start items = some parent := by
  induction items generalizing start with
  | nil =>
    cases h
    rfl
  | cons item rest ih =>
    have hitem := hitems item mem_cons_self
    rw [foldlM_cons] at h
    unfold namespaceOf
    rw [walk_cons, childOf, if_pos hitem]
    unfold walkStep at h
    rw [if_neg hitem.ne_dotdot] at h
    split at h
    · cases h
    split at h
    next hnext =>
      rw [hnext]
      exact ih (fun other hother => hitems other (mem_cons_of_mem _ hother)) h
    · cases h

theorem ordinary_of_mem_components {path item : Text} (hitem : item ∈ components path)
    (hdots : item ≠ ['.', '.']) : Ordinary item := by
  refine ⟨(mem_components hitem).1, ?_, hdots, (mem_components hitem).2⟩
  rintro rfl
  have hkeep := (mem_filter.mp hitem).2
  cases hkeep

/-- The parent that a path resolves to is the root, or lies on the path. -/
theorem resolveParent_cases {table : MountTable} {raw : Text}
    (hroot : ∀ place, placeOf table raw = some place → place.entry.root = root)
    (h : resolveParent inodes table raw = .ok (parent, name)) :
    ∃ place, placeOf table raw = some place ∧
      ((name = ['.'] ∧ parent = root) ∨
        ∃ home, (Ordinary name ∨ name = ['.', '.']) ∧ place.names = home ++ [name] ∧
          namespaceOf inodes root home = some parent) := by
  unfold resolveParent at h
  cases hfound : table.findMountRoot raw with
  | none =>
    rw [hfound] at h
    cases h
  | some found =>
    obtain ⟨entry, rest⟩ := found
    rw [hfound] at h
    dsimp only at h
    have hplace : placeOf table raw = some ⟨entry, walked (components rest)⟩ := by
      rw [placeOf, hfound]
      rfl
    have hentry : entry.root = root := hroot _ hplace
    refine ⟨_, hplace, ?_⟩
    rcases eq_nil_or_concat' (components rest) with hnil | ⟨items, _, hitems⟩
    · rw [hnil] at h
      cases h
      exact .inl ⟨rfl, hentry⟩
    rw [hitems, getLast?_concat, dropLast_concat, foldlM_walkStep, hentry] at h
    cases hwalk : (items.filter fun item => item ≠ ['.', '.']).foldlM (walkStep inodes) root with
    | error error =>
      rw [hwalk] at h
      cases h
    | ok found =>
      rw [hwalk] at h
      cases h
      refine .inr ⟨items.filter fun item => item ≠ ['.', '.'], ?_, ?_, ?_⟩
      · by_cases hdots : name = ['.', '.']
        · exact .inr hdots
        · have hmem : name ∈ components rest := hitems ▸ mem_append_right _ mem_cons_self
          exact .inl (ordinary_of_mem_components hmem hdots)
      · rw [hitems, walked_concat]
      · refine namespaceOf_of_foldlM (fun item hitem => ?_) hwalk
        obtain ⟨hwalked, hdots⟩ := mem_filter.mp hitem
        have hmem : item ∈ components rest := hitems ▸ mem_append_left _ hwalked
        exact ordinary_of_mem_components hmem (by simpa using hdots)

/-- Where the new name of a plan is. -/
structure NewAt (inodes : Inodes) (root : InodeId) (names : List Text) (plan : RenamePlan)
    (place : List Text) : Prop where
  parent : namespaceOf inodes root place = some plan.newParent
  names : Ordinary plan.newName → names = place ++ [plan.newName]

/-- Where the old name of a plan is. -/
structure OldAt (inodes : Inodes) (root : InodeId) (names : List Text) (plan : RenamePlan)
    (home : List Text) : Prop where
  parent : namespaceOf inodes root home = some plan.oldParent
  name : Ordinary plan.oldName
  names : names = home ++ [plan.oldName]
  source : childOf inodes plan.oldParent plan.oldName = some plan.source

/-- The plan is to rename the root. -/
structure OfRoot (root : InodeId) (plan : RenamePlan) : Prop where
  parent : plan.oldParent = root
  name : plan.oldName = ['.']
  source : plan.source = root

section Plan

variable {plan : RenamePlan}

theorem newAt_of_plan (hnew : LeadsInto system.mounts root new)
    (hplan : renamePlan system old new = .ok plan) :
    ∃ place, NewAt system.inodes root (namesOf system.mounts new) plan place := by
  obtain ⟨-, newPath, -, hpath, -, -, hparent⟩ := renamePlan_eq_ok hplan
  obtain ⟨place, hplace, hcases⟩ := resolveParent_cases (fun place => hnew newPath place hpath) hparent
  rcases hcases with ⟨hname, hroot⟩ | ⟨home, -, hnames, hhome⟩
  · refine ⟨[], ?_, fun hordinary => absurd hname hordinary.ne_dot⟩
    rw [hroot]
    rfl
  · refine ⟨home, hhome, fun _ => ?_⟩
    rw [namesOf, hpath, bind_some, hplace]
    exact hnames

theorem oldAt_of_plan (h : IsTmpfs system.inodes root) (hold : LeadsInto system.mounts root old)
    (hplan : renamePlan system old new = .ok plan) :
    OfRoot root plan ∨
      ∃ home, OldAt system.inodes root (namesOf system.mounts old) plan home := by
  obtain ⟨oldPath, -, hpath, -, hsource, hparent, -⟩ := renamePlan_eq_ok hplan
  -- the source is the root itself, or it was looked up in the parent
  have hlookup : plan.source = plan.oldParent ∧ plan.oldName = ['.'] ∨
      (system.inodes.node plan.oldParent).lookup plan.oldName = some plan.source := by
    unfold resolveInode at hsource
    split at hsource
    · unfold resolveAbsolute at hsource
      rw [hparent] at hsource
      change (if plan.oldName = ['.'] then _ else _) = _ at hsource
      split at hsource
      next hdot =>
        exact .inl ⟨(Except.ok.inj hsource).symm, hdot⟩
      · split at hsource
        next inode hfound =>
          have hinode : inode = plan.source := Except.ok.inj hsource
          exact .inr (hinode ▸ hfound)
        · cases hsource
    · cases hsource
  obtain ⟨place, hplace, hcases⟩ := resolveParent_cases (fun place => hold oldPath place hpath) hparent
  rcases hcases with ⟨hname, hroot⟩ | ⟨home, hordinary, hnames, hhome⟩
  · rcases hlookup with ⟨hsame, -⟩ | hfound
    · exact .inl ⟨hroot, hname, hsame.trans hroot⟩
    have hreach : namespaceOf system.inodes root [] = some plan.oldParent := by
      rw [hroot]
      rfl
    exact absurd hname (h.of_lookup hreach hfound).1.ne_dot
  · rcases hlookup with ⟨-, hdot⟩ | hfound
    · rcases hordinary with hordinary | hdots
      · exact absurd hdot hordinary.ne_dot
      · rw [hdots] at hdot
        cases hdot
    · have hname := (h.of_lookup hhome hfound).1
      refine .inr ⟨home, hhome, hname, ?_, ?_⟩
      · rw [namesOf, hpath, bind_some, hplace]
        exact hnames
      · rw [childOf, if_pos hname, hfound]

end Plan

/-! ## The first step: link -/

/-- The entries of the new parent after `link_child`. -/
def linkedEntries (plan : RenamePlan) (inner : TmpfsDir) : List (Text × InodeId) :=
  (inner.entries.filter fun entry => entry.1 ≠ plan.newName) ++ [(plan.newName, plan.source)]

/-- The inodes after `link_child`. -/
def linkedInodes (inodes : Inodes) (plan : RenamePlan) (inner : TmpfsDir) : Inodes :=
  withEntries inodes plan.newParent inner (linkedEntries plan inner)

/-- The source keeps its old name: it has entries, or is moved into itself. -/
def KeepsName (inodes : Inodes) (plan : RenamePlan) : Prop :=
  Full inodes plan.source ∨ plan.newParent = plan.source

section Linked

variable {plan : RenamePlan} {inner : TmpfsDir}

section

variable (hparent : inodes.node plan.newParent = .dir inner)
include hparent

theorem linkChild_eq (answers : Answers) :
    inodes.linkChild answers plan.newParent plan.newName plan.source =
      .ok (linkedInodes inodes plan inner) := by
  unfold linkChild
  rw [hparent]
  rfl

theorem childOf_linked (hname : Ordinary plan.newName) :
    childOf (linkedInodes inodes plan inner) =
      relink (childOf inodes) plan.newParent plan.newName (some plan.source) :=
  childOf_withEntries hparent hname fun other => lookup_insert inner.entries plan.newName other _

theorem names_linked (h : IsTmpfs inodes root) (hname : Ordinary plan.newName) {inode : InodeId}
    {inner' : TmpfsDir} (hnode : (linkedInodes inodes plan inner).node inode = .dir inner')
    {entry : Text × InodeId} (hentry : entry ∈ inner'.entries) : Ordinary entry.1 := by
  obtain rfl | hinode := eq_or_ne inode plan.newParent
  · rw [linkedInodes, node_withEntries_self] at hnode
    cases hnode
    rcases mem_append.mp hentry with hold | hnew
    · exact h.names hparent entry (mem_filter.mp hold).1
    · rw [mem_singleton.mp hnew]
      exact hname
  · rw [linkedInodes, node_withEntries_of_ne hinode] at hnode
    exact h.names hnode entry hentry

end

/-- After the step the source is a directory with entries if it was one, or if it has got
itself as an entry. -/
theorem full_linked (answers : Answers) (hown : InTmpfs (inodes.node plan.source)) :
    (((linkedInodes inodes plan inner).node plan.source).kind = .directory ∧
        (linkedInodes inodes plan inner).hasEntries answers plan.source = true) ↔
      KeepsName inodes plan := by
  unfold hasEntries
  by_cases hself : plan.source = plan.newParent
  · refine iff_of_true ?_ (.inr hself.symm)
    rw [hself, linkedInodes, node_withEntries_self]
    refine ⟨rfl, ?_⟩
    simp [linkedEntries]
  · rw [linkedInodes, node_withEntries_of_ne hself]
    have hne : plan.newParent ≠ plan.source := fun heq => hself heq.symm
    unfold KeepsName Full
    cases hnode : inodes.node plan.source with
    | file inner => simp [hne]
    | dir inner => simp [Node.kind, hne]
    | foreign inner =>
      rw [hnode] at hown
      simp [Node.kind, hne, hown.1]

end Linked

/-! ## The second step: unlink -/

theorem toErrno_ne_zero (error : FsError) : error.toErrno ≠ 0 := by
  cases error <;> decide

section Execute

variable {plan : RenamePlan} {inner : TmpfsDir} {home place oldNames newNames : List Text}
  (answers : Answers) {target : InodeId} {inner' : TmpfsDir}

theorem unlink_eq
    (hnode : inodes.node parent = .dir inner) (hlookup : inner.entries.lookup name = some target) :
    inodes.unlink answers parent name =
      if (inodes.node target).kind = .directory ∧ inodes.hasEntries answers target = true then
        .error .directoryNotEmpty
      else
        .ok (withEntries inodes parent inner
          (inner.entries.filter fun entry => entry.1 ≠ name)) := by
  unfold unlink
  rw [hnode]
  dsimp only
  rw [hlookup]
  rfl

theorem exists_dir {inode : InodeId} (hkind : IsDirectory inodes inode)
    (hown : InTmpfs (inodes.node inode)) : ∃ inner, inodes.node inode = .dir inner := by
  unfold IsDirectory at hkind
  cases hnode : inodes.node inode with
  | file inner =>
    rw [hnode] at hkind
    cases hkind
  | dir inner => exact ⟨inner, rfl⟩
  | foreign inner =>
    rw [hnode] at hkind hown
    exact absurd hkind hown.1

/-- The inodes after both steps. -/
def movedInodes (inodes : Inodes) (plan : RenamePlan) (inner inner' : TmpfsDir) : Inodes :=
  withEntries (linkedInodes inodes plan inner) plan.oldParent inner'
    (inner'.entries.filter fun entry => entry.1 ≠ plan.oldName)

theorem renamesWell_refuse (h : IsTmpfs system.inodes root) {reply : Int} (hreply : reply ≠ 0)
    (old new : List Text) : RenamesWell root system.inodes old new (refuse system reply) where
  success := fun hzero => absurd hzero hreply
  failure := fun _ _ => rfl
  tmpfs := h
  kept := fun path _ hpath _ => ⟨path, hpath⟩

theorem executePlan_of_file (h : IsTmpfs system.inodes root)
    (hplace : namespaceOf system.inodes root place = some plan.newParent)
    (hfile : ¬ IsDirectory system.inodes plan.newParent) :
    executePlan answers system plan = refuse system FsError.notSupported.toErrno := by
  unfold executePlan linkChild
  cases hnode : system.inodes.node plan.newParent with
  | file inner => rfl
  | dir inner => exact absurd (isDirectory_of_dir hnode) hfile
  | foreign inner =>
    have hown := h.own hplace
    rw [hnode] at hown
    simp [hown.1]

/-- The root has no entry that could be unlinked. -/
theorem executePlan_of_root (h : IsTmpfs system.inodes root) (hroot : OfRoot root plan)
    (hparent : system.inodes.node plan.newParent = .dir inner) :
    ∃ errno, errno ≠ 0 ∧ executePlan answers system plan =
      ⟨errno, { system with inodes := linkedInodes system.inodes plan inner },
        [plan.newParent]⟩ := by
  have hunlink : ∃ error,
      (linkedInodes system.inodes plan inner).unlink answers plan.oldParent plan.oldName =
        .error error := by
    rw [hroot.parent, hroot.name]
    have hreach : namespaceOf system.inodes root [] = some root := rfl
    have hnodot : ∀ target, (system.inodes.node root).lookup ['.'] ≠ some target :=
      fun target hlookup => (h.of_lookup hreach hlookup).1.ne_dot rfl
    obtain ⟨after, hafter⟩ :
        ∃ after, (linkedInodes system.inodes plan inner).node root = .dir after := by
      obtain ⟨hkind, hforeign⟩ := kind_withEntries hparent root
      exact exists_dir (hkind.trans h.top) (hforeign.mpr (h.own hreach))
    cases hlookup : after.entries.lookup ['.'] with
    | none =>
      refine ⟨.notFound, ?_⟩
      unfold unlink
      rw [hafter]
      dsimp only
      rw [hlookup]
    | some target =>
      -- such an entry is the new one, of the root in itself
      refine ⟨.directoryNotEmpty, (unlink_eq answers hafter hlookup).trans (if_pos ?_)⟩
      have hself : plan.newParent = root := by
        by_contra hne
        rw [linkedInodes, node_withEntries_of_ne (Ne.symm hne)] at hafter
        exact hnodot target (by rw [hafter]; exact hlookup)
      rw [← hself, linkedInodes, node_withEntries_self] at hafter
      cases hafter
      rw [linkedEntries, lookup_insert] at hlookup
      split at hlookup
      · cases hlookup
        have hown : InTmpfs (system.inodes.node plan.source) := hroot.source ▸ h.own hreach
        exact (full_linked answers hown).mpr (.inr (hself.trans hroot.source.symm))
      · refine absurd ?_ (hnodot target)
        rw [← hself, hparent]
        exact hlookup
  obtain ⟨error, hunlink⟩ := hunlink
  refine ⟨error.toErrno, toErrno_ne_zero error, ?_⟩
  unfold executePlan
  rw [linkChild_eq hparent answers]
  dsimp only
  rw [hunlink]

theorem childOf_unlinked (hname : Ordinary plan.oldName)
    (hnode : (linkedInodes system.inodes plan inner).node plan.oldParent = .dir inner') :
    childOf (movedInodes system.inodes plan inner inner') =
      relink (childOf (linkedInodes system.inodes plan inner)) plan.oldParent plan.oldName none :=
  childOf_withEntries hnode hname fun other => lookup_filter_ne inner'.entries plan.oldName other

/-- A source without entries has no children. -/
theorem childOf_leaf (hown : InTmpfs (system.inodes.node plan.source))
    (hleaf : ¬ Full system.inodes plan.source) (name : Text) :
    childOf system.inodes plan.source name = none := by
  unfold childOf
  split
  · cases hnode : system.inodes.node plan.source with
    | file inner => rfl
    | dir inner =>
      have hempty : inner.entries = [] := by
        by_contra hne
        exact hleaf ⟨inner, hnode, hne⟩
      dsimp only [Node.lookup]
      rw [hempty]
      rfl
    | foreign inner =>
      rw [hnode] at hown
      exact hown.2 name
  · rfl

section

variable (hparent : system.inodes.node plan.newParent = .dir inner)
include hparent

theorem namespaceOf_linked (h : IsTmpfs system.inodes root)
    (hplace : namespaceOf system.inodes root place = some plan.newParent)
    (hname : Ordinary plan.newName) :
    namespaceOf (linkedInodes system.inodes plan inner) root (place ++ [plan.newName]) =
      some plan.source := by
  unfold namespaceOf
  rw [childOf_linked hparent hname]
  exact h.tree.walk_relink_self (isDirectory_of_dir hparent) hplace

variable (hnode : (linkedInodes system.inodes plan inner).node plan.oldParent = .dir inner')
include hnode

theorem kind_unlinked (inode : InodeId) :
    ((movedInodes system.inodes plan inner inner').node inode).kind =
        (system.inodes.node inode).kind ∧
      InTmpfs ((movedInodes system.inodes plan inner inner').node inode) =
        InTmpfs (system.inodes.node inode) := by
  obtain ⟨hkind, hforeign⟩ := kind_withEntries hnode inode
  obtain ⟨hkind', hforeign'⟩ := kind_withEntries hparent inode
  exact ⟨hkind.trans hkind', hforeign.trans hforeign'⟩

theorem childOf_moved (hold : Ordinary plan.oldName) (hname : Ordinary plan.newName) :
    childOf (movedInodes system.inodes plan inner inner') =
      NameTree.move (childOf system.inodes) plan.source plan.oldParent plan.oldName plan.newParent
        plan.newName := by
  rw [childOf_unlinked hold hnode, childOf_linked hparent hname]
  rfl

end

/-- Following paths after a move is following them in the moved namespace. -/
theorem walk_move_eq_moved (tree : NameTree (childOf inodes) root (IsDirectory inodes))
    (hmove : Move (childOf inodes) root (IsDirectory inodes) plan.source home
      plan.oldParent plan.oldName place plan.newParent plan.newName) (path : List Text) :
    walk (NameTree.move (childOf inodes) plan.source plan.oldParent plan.oldName plan.newParent
        plan.newName) root path =
      moved (namespaceOf inodes root) (home ++ [plan.oldName]) (place ++ [plan.newName]) path := by
  rw [tree.walk_move hmove, moved, if_neg hmove.paths_ne]
  by_cases hbelow : (place ++ [plan.newName]) <+: path
  · obtain ⟨below, rfl⟩ := hbelow
    rw [if_pos (prefix_append _ below), drop_left']
    · by_cases hnil : below = []
      · rw [hnil, append_nil, append_nil, if_pos rfl]
        exact hmove.old_path.symm
      · rw [if_neg (by simpa using hnil), if_pos (.inl (prefix_append _ below))]
        exact (walk_below_leaf hmove.old_path hmove.leaf hnil).symm
    · rfl
  · have hne : path ≠ place ++ [plan.newName] := fun heq => hbelow (heq ▸ prefix_refl _)
    rw [if_neg hne, if_neg hbelow]
    by_cases hold : (home ++ [plan.oldName]) <+: path
    · rw [if_pos (.inr hold), if_pos hold]
    · rw [if_neg (not_or.mpr ⟨hbelow, hold⟩), if_neg hold]
      rfl

theorem OldAt.leads (hold : OldAt inodes root oldNames plan home) :
    namespaceOf inodes root (home ++ [plan.oldName]) = some plan.source :=
  walk_concat_eq_some.mpr ⟨plan.oldParent, hold.parent, hold.source⟩

section

variable (h : IsTmpfs system.inodes root) (hold : OldAt system.inodes root oldNames plan home)
include h hold

theorem OldAt.own : InTmpfs (system.inodes.node plan.source) := h.own hold.leads

theorem move_of_leaf (hplace : namespaceOf system.inodes root place = some plan.newParent)
    (hdir : IsDirectory system.inodes plan.newParent) (hleaf : ¬ KeepsName system.inodes plan)
    (hother : ¬ (plan.newParent = plan.oldParent ∧ plan.newName = plan.oldName)) :
    Move (childOf system.inodes) root (IsDirectory system.inodes) plan.source home
      plan.oldParent plan.oldName place plan.newParent plan.newName where
  home_path := hold.parent
  source_child := hold.source
  leaf := childOf_leaf (hold.own h) fun hfull => hleaf (.inl hfull)
  place_path := hplace
  inner_parent := hdir
  parent_ne := fun heq => hleaf (.inr heq)
  names_ne := hother

end

/-! ## Renames below the root -/

section

variable (h : IsTmpfs system.inodes root) (hold : OldAt system.inodes root oldNames plan home)
  (hparent : system.inodes.node plan.newParent = .dir inner)
include h hold hparent

/-- The source is found under its old name after the first step. -/
theorem oldEntry_linked :
    ∃ inner', (linkedInodes system.inodes plan inner).node plan.oldParent = .dir inner' ∧
      inner'.entries.lookup plan.oldName = some plan.source := by
  have hsource := hold.source
  rw [childOf, if_pos hold.name] at hsource
  obtain ⟨-, before, hbefore⟩ := h.of_lookup hold.parent hsource
  rw [hbefore] at hsource
  by_cases hsame : plan.oldParent = plan.newParent
  · rw [hsame, hparent] at hbefore
    cases hbefore
    refine ⟨{ inner with entries := linkedEntries plan inner }, ?_, ?_⟩
    · rw [hsame]
      exact node_withEntries_self
    rw [linkedEntries, lookup_insert]
    split
    · rfl
    · exact hsource
  · exact ⟨before, (node_withEntries_of_ne hsame).trans hbefore, hsource⟩

theorem executePlan_of_full (hfull : KeepsName system.inodes plan) :
    executePlan answers system plan = ⟨FsError.directoryNotEmpty.toErrno,
        { system with inodes := linkedInodes system.inodes plan inner }, [plan.newParent]⟩ := by
  obtain ⟨_, hnode, hlookup⟩ := oldEntry_linked h hold hparent
  unfold executePlan
  rw [linkChild_eq hparent answers]
  dsimp only
  rw [unlink_eq answers hnode hlookup, if_pos ((full_linked answers (hold.own h)).mpr hfull)]

/-- Anything else loses it. -/
theorem executePlan_of_leaf (hleaf : ¬ KeepsName system.inodes plan) :
    ∃ inner', (linkedInodes system.inodes plan inner).node plan.oldParent = .dir inner' ∧
      executePlan answers system plan =
        ⟨0, { system with inodes := movedInodes system.inodes plan inner inner' },
          [plan.newParent, plan.oldParent]⟩ := by
  obtain ⟨inner', hnode, hlookup⟩ := oldEntry_linked h hold hparent
  refine ⟨inner', hnode, ?_⟩
  unfold executePlan
  rw [linkChild_eq hparent answers]
  dsimp only
  rw [unlink_eq answers hnode hlookup, if_neg fun hfull =>
    hleaf ((full_linked answers (hold.own h)).mp hfull)]
  rfl

variable (hname : Ordinary plan.newName)
include hname

/-- A directory with entries gets a second name, and so does one that is moved into
itself. -/
theorem not_renamesWell_of_full
    (hplace : namespaceOf system.inodes root place = some plan.newParent)
    (hfull : KeepsName system.inodes plan)
    (hother : ¬ (plan.newParent = plan.oldParent ∧ plan.newName = plan.oldName)) :
    ¬ RenamesWell root system.inodes oldNames newNames (executePlan answers system plan) := by
  intro hwell
  rw [executePlan_of_full answers h hold hparent hfull] at hwell
  have hsame := (hwell.failure (toErrno_ne_zero .directoryNotEmpty)
    (place ++ [plan.newName])).symm.trans (namespaceOf_linked hparent h hplace hname)
  have hdir : IsDirectory system.inodes plan.source := by
    rcases hfull with ⟨_, hnode, -⟩ | heq
    · exact isDirectory_of_dir hnode
    · exact heq ▸ isDirectory_of_dir hparent
  obtain ⟨hhome, hnames⟩ := append_inj' (h.tree.unique hdir hsame hold.leads) rfl
  rw [hhome, hold.parent] at hplace
  exact hother ⟨(some.inj hplace).symm, (cons.inj hnames).1⟩

/-- A file, or a directory without entries, that is renamed to itself is lost. -/
theorem not_renamesWell_of_same (hleaf : ¬ KeepsName system.inodes plan)
    (hsame : plan.newParent = plan.oldParent ∧ plan.newName = plan.oldName) :
    ¬ RenamesWell root system.inodes oldNames oldNames (executePlan answers system plan) := by
  intro hwell
  obtain ⟨inner', hnode, hresult⟩ := executePlan_of_leaf answers h hold hparent hleaf
  rw [hresult] at hwell
  have hpath := hwell.success rfl (home ++ [plan.oldName])
  have hdir : IsDirectory system.inodes plan.oldParent :=
    h.tree.parent hold.parent hold.source
  have hchild : childOf (movedInodes system.inodes plan inner inner') =
      relink (childOf system.inodes) plan.oldParent plan.oldName none := by
    rw [childOf_unlinked hold.name hnode, childOf_linked hparent hname, hsame.1, hsame.2,
      relink_relink]
  have hnone : namespaceOf (movedInodes system.inodes plan inner inner') root
      (home ++ [plan.oldName]) = none := by
    unfold namespaceOf
    rw [hchild]
    exact h.tree.walk_relink_self hdir hold.parent
  rw [hnone, moved, if_pos rfl, hold.leads] at hpath
  cases hpath

/-- Under its own name a directory with entries stays where it is. -/
theorem renamesWell_of_same (hfull : Full system.inodes plan.source)
    (hsame : plan.newParent = plan.oldParent ∧ plan.newName = plan.oldName) :
    RenamesWell root system.inodes oldNames newNames (executePlan answers system plan) := by
  rw [executePlan_of_full answers h hold hparent (.inl hfull)]
  have hchild : childOf (linkedInodes system.inodes plan inner) = childOf system.inodes := by
    rw [childOf_linked hparent hname, hsame.1, hsame.2]
    exact relink_same hold.source
  have hnames : namespaceOf (linkedInodes system.inodes plan inner) root =
      namespaceOf system.inodes root := by
    unfold namespaceOf
    rw [hchild]
  have hdir : IsDirectory (linkedInodes system.inodes plan inner) = IsDirectory system.inodes :=
    isDirectory_withEntries hparent
  constructor
  · exact fun hreply => absurd hreply (toErrno_ne_zero .directoryNotEmpty)
  · exact fun _ path => congrFun hnames path
  · constructor
    · exact (kind_withEntries hparent root).1.trans h.top
    · rw [hchild, hdir]
      exact h.tree
    · intro path inode hpath
      rw [hnames] at hpath
      exact (kind_withEntries hparent inode).2.mpr (h.own hpath)
    exact fun hnode _ hentry => names_linked hparent h hname hnode hentry
  · intro path _ hpath _
    rw [hnames]
    exact ⟨path, hpath⟩

section

variable
  (hmove : Move (childOf system.inodes) root (IsDirectory system.inodes) plan.source
    home plan.oldParent plan.oldName place plan.newParent plan.newName)
  (hleaf : ¬ KeepsName system.inodes plan)
include hmove hleaf

/-- A source without entries is moved to a name that no directory has. -/
theorem renamesWell_of_leaf (hnew : NewAt system.inodes root newNames plan place)
    (htarget : ∀ target, (system.inodes.node plan.newParent).lookup plan.newName = some target →
      ¬ IsDirectory system.inodes target) :
    RenamesWell root system.inodes oldNames newNames (executePlan answers system plan) := by
  obtain ⟨inner', hnode, hresult⟩ := executePlan_of_leaf answers h hold hparent hleaf
  rw [hresult]
  have hchild := childOf_moved hparent hnode hold.name hname
  have hdir : IsDirectory (movedInodes system.inodes plan inner inner') =
      IsDirectory system.inodes := by
    rw [movedInodes, isDirectory_withEntries hnode, linkedInodes,
      isDirectory_withEntries hparent]
  constructor
  · intro _ path
    rw [hold.names, hnew.names hname, ← walk_move_eq_moved h.tree hmove, ← hchild]
    rfl
  · exact fun hreply => absurd rfl hreply
  · constructor
    · exact (kind_unlinked hparent hnode root).1.trans h.top
    · rw [hchild, hdir]
      exact h.tree.move_tree hmove
    · intro path inode hpath
      refine (kind_unlinked hparent hnode inode).2.mpr ?_
      unfold namespaceOf at hpath
      rw [hchild] at hpath
      rcases (h.tree.walk_move_eq_some hmove).mp hpath with ⟨-, rfl⟩ | ⟨-, -, hbefore⟩
      · exact hold.own h
      · exact h.own hbefore
    · intro inode _ hafter entry hentry
      obtain rfl | hinode := eq_or_ne inode plan.oldParent
      · rw [movedInodes, node_withEntries_self] at hafter
        cases hafter
        exact names_linked hparent h hname hnode (mem_filter.mp hentry).1
      · rw [movedInodes, node_withEntries_of_ne hinode] at hafter
        exact names_linked hparent h hname hafter hentry
  · intro _ _ hpath hinode
    unfold namespaceOf
    rw [hchild]
    refine h.tree.reachable_of_move hmove hpath fun hbelow => ?_
    -- whatever has a directory below it, or is one, is a directory
    obtain ⟨_, rfl⟩ := hbelow
    obtain ⟨target, hat, htargetDir⟩ := h.tree.inner_above hpath hinode
    obtain ⟨_, hat, hlookup⟩ := walk_concat_eq_some.mp hat
    rw [hmove.place_path] at hat
    cases hat
    rw [childOf, if_pos hname] at hlookup
    exact htarget target hlookup htargetDir

/-- A directory that had the new name is lost. -/
theorem not_renamesWell_of_target
    (htarget : (system.inodes.node plan.newParent).lookup plan.newName = some target)
    (hdir : IsDirectory system.inodes target) :
    ¬ RenamesWell root system.inodes oldNames newNames (executePlan answers system plan) := by
  intro hwell
  obtain ⟨_, hnode, hresult⟩ := executePlan_of_leaf answers h hold hparent hleaf
  rw [hresult] at hwell
  have hchild : childOf system.inodes plan.newParent plan.newName = some target := by
    rw [childOf, if_pos hname, htarget]
  have hat : namespaceOf system.inodes root (place ++ [plan.newName]) = some target :=
    walk_concat_eq_some.mpr ⟨plan.newParent, hmove.place_path, hchild⟩
  obtain ⟨path, hpath⟩ := hwell.kept _ target hat hdir
  unfold namespaceOf at hpath
  rw [childOf_moved hparent hnode hold.name hname] at hpath
  exact h.tree.not_reachable_of_move hmove hchild hdir path hpath

end

/-- A plan with ordinary names. -/
theorem renamesWell_iff_of_ordinary (hnew : NewAt system.inodes root newNames plan place)
    (hdir : IsDirectory system.inodes plan.newParent) :
    RenamesWell root system.inodes oldNames newNames (executePlan answers system plan) ↔
      Harmless system.inodes plan := by
  unfold Harmless
  rw [forall_prop_of_true hdir]
  by_cases hsame : plan.newParent = plan.oldParent ∧ plan.newName = plan.oldName
  · rw [if_pos hsame]
    by_cases hfull : Full system.inodes plan.source
    · exact iff_of_true (renamesWell_of_same answers h hold hparent hname hfull hsame)
        ⟨hold.name, hname, hfull⟩
    have hleaf : ¬ KeepsName system.inodes plan := by
      rintro (hfull' | hself)
      · exact hfull hfull'
      refine hfull ⟨inner, hself ▸ hparent, fun hempty => ?_⟩
      have hsource := hold.source
      rw [childOf, if_pos hold.name, ← hsame.1, hparent] at hsource
      dsimp only [Node.lookup] at hsource
      rw [hempty] at hsource
      cases hsource
    have hhome : place = home :=
      h.tree.unique hdir hnew.parent (hsame.1 ▸ hold.parent)
    have hnames : newNames = oldNames := by
      rw [hnew.names hname, hold.names, hhome, hsame.2]
    rw [hnames]
    exact iff_of_false (not_renamesWell_of_same answers h hold hparent hname hleaf hsame)
      fun hharmless => hfull hharmless.2.2
  · rw [if_neg hsame]
    by_cases hfull : KeepsName system.inodes plan
    · refine iff_of_false (not_renamesWell_of_full answers h hold hparent hname hnew.parent hfull
        hsame) fun hharmless => ?_
      obtain ⟨-, -, hleaf, hself, -⟩ := hharmless
      exact hfull.elim hleaf hself
    · have hmove := move_of_leaf h hold hnew.parent hdir hfull hsame
      by_cases htarget : ∃ target,
          (system.inodes.node plan.newParent).lookup plan.newName = some target ∧
            IsDirectory system.inodes target
      · obtain ⟨target, hlookup, htargetDir⟩ := htarget
        refine iff_of_false (not_renamesWell_of_target answers h hold hparent hname hmove hfull
          hlookup htargetDir) fun hharmless => ?_
        exact hharmless.2.2.2.2 target hlookup htargetDir
      · have hnone : ∀ target,
            (system.inodes.node plan.newParent).lookup plan.newName = some target →
              ¬ IsDirectory system.inodes target :=
          fun target hlookup htargetDir => htarget ⟨target, hlookup, htargetDir⟩
        exact iff_of_true
          (renamesWell_of_leaf answers h hold hparent hname hmove hfull hnew hnone)
          ⟨hold.name, hname, fun hfull' => hfull (.inl hfull'),
            fun hself => hfull (.inr hself), hnone⟩

end

/-! ## All renames -/

/-- A new name that is not an ordinary one stays in the new parent. -/
theorem ordinary_of_renamesWell (h : IsTmpfs system.inodes root)
    (hold : OfRoot root plan ∨ ∃ home, OldAt system.inodes root oldNames plan home)
    (hparent : system.inodes.node plan.newParent = .dir inner)
    (hwell : RenamesWell root system.inodes oldNames newNames (executePlan answers system plan)) :
    Ordinary plan.newName := by
  have hlinked : (plan.newName, plan.source) ∈ linkedEntries plan inner :=
    mem_append_right _ mem_cons_self
  rcases hold with hroot | ⟨_, hold⟩
  · obtain ⟨_, -, hresult⟩ := executePlan_of_root answers h hroot hparent
    rw [hresult] at hwell
    exact hwell.tmpfs.names node_withEntries_self _ hlinked
  by_cases hfull : KeepsName system.inodes plan
  · rw [executePlan_of_full answers h hold hparent hfull] at hwell
    exact hwell.tmpfs.names node_withEntries_self _ hlinked
  obtain ⟨inner', hnode, hresult⟩ := executePlan_of_leaf answers h hold hparent hfull
  rw [hresult] at hwell
  by_contra hname
  by_cases hsame : plan.newParent = plan.oldParent
  · have hinner : inner'.entries = linkedEntries plan inner := by
      rw [← hsame, linkedInodes, node_withEntries_self] at hnode
      cases hnode
      rfl
    refine hname (hwell.tmpfs.names node_withEntries_self (plan.newName, plan.source) ?_)
    rw [mem_filter, hinner]
    refine ⟨hlinked, decide_eq_true fun heq => hname ?_⟩
    rw [show plan.newName = plan.oldName from heq]
    exact hold.name
  · have hkept : (movedInodes system.inodes plan inner inner').node plan.newParent =
        .dir { inner with entries := linkedEntries plan inner } :=
      (node_withEntries_of_ne hsame).trans node_withEntries_self
    exact hname (hwell.tmpfs.names hkept _ hlinked)

theorem not_renamesWell_of_root (h : IsTmpfs system.inodes root) (hroot : OfRoot root plan)
    (hplace : namespaceOf system.inodes root place = some plan.newParent)
    (hparent : system.inodes.node plan.newParent = .dir inner) (hname : Ordinary plan.newName) :
    ¬ RenamesWell root system.inodes oldNames newNames (executePlan answers system plan) := by
  intro hwell
  obtain ⟨_, herrno, hresult⟩ := executePlan_of_root answers h hroot hparent
  rw [hresult] at hwell
  have hsame := (hwell.failure herrno (place ++ [plan.newName])).symm.trans
    (namespaceOf_linked hparent h hplace hname)
  rw [hroot.source] at hsame
  have hnil := h.tree.unique h.top hsame walk_nil
  exact absurd hnil (by simp)

/-- A plan that was resolved does what it should exactly if it is harmless. -/
theorem renamesWell_iff_harmless (h : IsTmpfs system.inodes root)
    (hold : OfRoot root plan ∨ ∃ home, OldAt system.inodes root oldNames plan home)
    (hnew : NewAt system.inodes root newNames plan place) :
    RenamesWell root system.inodes oldNames newNames (executePlan answers system plan) ↔
      Harmless system.inodes plan := by
  by_cases hdir : IsDirectory system.inodes plan.newParent
  · obtain ⟨_, hparent⟩ := exists_dir hdir (h.own hnew.parent)
    by_cases hname : Ordinary plan.newName
    · rcases hold with hroot | ⟨_, hold⟩
      · refine iff_of_false
          (not_renamesWell_of_root answers h hroot hnew.parent hparent hname) fun hharmless => ?_
        exact (hharmless hdir).1.ne_dot hroot.name
      · exact renamesWell_iff_of_ordinary answers h hold hparent hname hnew hdir
    · refine iff_of_false (fun hwell => ?_) fun hharmless => hname (hharmless hdir).2.1
      exact hname (ordinary_of_renamesWell answers h hold hparent hwell)
  · refine iff_of_true ?_ fun hdir' => absurd hdir' hdir
    rw [executePlan_of_file answers h hnew.parent hdir]
    exact renamesWell_refuse h (toErrno_ne_zero _) oldNames newNames

end Execute

theorem renamePlan_error {errno : Int} (h : renamePlan system old new = .error errno) :
    errno ≠ 0 := by
  unfold renamePlan at h
  split at h
  · split at h
    · cases h
      exact toErrno_ne_zero _
    · cases h
      exact toErrno_ne_zero _
    · cases h
      exact toErrno_ne_zero _
    · cases h
  · cases h
    decide

/-- For every tmpfs and every two paths into it, `sys_rename` does to the tree of names what a
rename should exactly if its plan, if there is one, is harmless. -/
theorem rename_well_iff (answers : Answers) (system : System) (root : InodeId)
    (old new : UserString) (h : IsTmpfs system.inodes root)
    (hold : LeadsInto system.mounts root old) (hnew : LeadsInto system.mounts root new) :
    RenamesWell root system.inodes (namesOf system.mounts old) (namesOf system.mounts new)
        (sysRename answers system old new) ↔
      ∀ plan, renamePlan system old new = .ok plan → Harmless system.inodes plan := by
  unfold sysRename
  cases hplan : renamePlan system old new with
  | error errno =>
    refine iff_of_true (renamesWell_refuse h (renamePlan_error hplan) _ _) fun plan heq => ?_
    cases heq
  | ok plan =>
    obtain ⟨_, hplace⟩ := newAt_of_plan hnew hplan
    have hiff := renamesWell_iff_harmless answers h (oldAt_of_plan h hold hplan) hplace
    refine hiff.trans ⟨fun hharmless other heq => ?_, fun hall => hall plan rfl⟩
    cases heq
    exact hharmless

/-! ## After boot -/

/-- The system after boot. -/
def booted : System := vfsInit bareDrivers [] 4096

/-- Where the directories of the booted system are. -/
def bootAddress (inode : InodeId) : List Text :=
  [[], ["tmp".toList], ["mnt".toList], ["bin".toList], ["etc".toList], ["dev".toList]].getD inode []

theorem node_booted {inode : InodeId} (h : 11 ≤ inode) : booted.inodes.node inode = .dir {} := by
  change (bootNodes bareDrivers).getD inode (.dir {}) = .dir {}
  rw [getD_eq_getElem?_getD, getElem?_eq_none h]
  rfl

theorem foreign_booted {inode : InodeId} {inner : Foreign}
    (h : booted.inodes.node inode = .foreign inner) :
    (∀ name, inner.lookup name = none) ∧ (inode ≠ 10 → inner.kind ≠ .directory) := by
  by_cases hinode : inode < 11
  · interval_cases inode <;> cases h <;> exact ⟨fun _ => rfl, by decide⟩
  · rw [node_booted (Nat.le_of_not_lt hinode)] at h
    cases h

theorem entries_booted {inode : InodeId} {inner : TmpfsDir}
    (h : booted.inodes.node inode = .dir inner) :
    ∀ entry ∈ inner.entries, Ordinary entry.1 ∧ entry.2 < 10 ∧
      ((booted.inodes.node entry.2).kind = .directory →
        bootAddress entry.2 = bootAddress inode ++ [entry.1]) := by
  by_cases hinode : inode < 11
  · interval_cases inode <;> cases h <;> decide +kernel
  · rw [node_booted (Nat.le_of_not_lt hinode)] at h
    cases h
    exact fun _ hentry => nomatch hentry

theorem childOf_booted {inode : InodeId} (h : childOf booted.inodes inode name = some child) :
    child < 10 ∧ IsDirectory booted.inodes inode ∧ (IsDirectory booted.inodes child →
      bootAddress child = bootAddress inode ++ [name]) := by
  replace h := (ite_none_right_eq_some.mp h).2
  cases hnode : booted.inodes.node inode with
  | file inner =>
    rw [hnode] at h
    cases h
  | foreign inner =>
    rw [hnode] at h
    cases ((foreign_booted hnode).1 name).symm.trans h
  | dir inner =>
    rw [hnode] at h
    obtain ⟨_, _, hentries, -⟩ := lookup_eq_some_iff.mp h
    have hentry := entries_booted hnode (name, child) (by simp [hentries])
    exact ⟨hentry.2.1, isDirectory_of_dir hnode, hentry.2.2⟩

theorem isTmpfs_booted : IsTmpfs booted.inodes 0 where
  top := rfl
  tree := .of_address bootAddress rfl fun h => (childOf_booted h).2
  own := by
    intro path inode hpath
    have hreached : inode ≠ 10 := by
      obtain rfl | ⟨_, _, rfl⟩ := eq_nil_or_concat' path
      · cases hpath
        decide
      · obtain ⟨_, -, hchild⟩ := walk_concat_eq_some.mp hpath
        exact Nat.ne_of_lt (childOf_booted hchild).1
    unfold InTmpfs
    split
    next hnode =>
      exact ⟨(foreign_booted hnode).2 hreached, (foreign_booted hnode).1⟩
    · trivial
  names := fun hnode entry hentry => (entries_booted hnode entry hentry).1

theorem leadsInto_of_place {table : MountTable} {path : UserString}
    (h : ((pathArgument path).bind (placeOf table)).map (fun place => place.entry.root) =
      some root) : LeadsInto table root path := by
  intro raw place hraw hplace
  rw [hraw, bind_some, hplace] at h
  exact some.inj h

theorem leadsInto_tmp : LeadsInto booted.mounts 0 tmpPath :=
  leadsInto_of_place (by decide +kernel)

/-- `/tmp` is renamed to `/x`. -/
theorem rename_well_to_other_name :
    RenamesWell 0 booted.inodes (namesOf booted.mounts tmpPath) (namesOf booted.mounts rootPath)
      (sysRename refusals booted tmpPath rootPath) := by
  refine (rename_well_iff refusals booted 0 tmpPath rootPath isTmpfs_booted leadsInto_tmp
    (leadsInto_of_place (by decide +kernel))).mpr fun plan hplan => ?_
  have hview : (renamePlan booted tmpPath rootPath).toOption =
      some ⟨1, 0, "tmp".toList, 0, ['x']⟩ := by decide +kernel
  rw [hplan] at hview
  cases hview
  refine fun _ => ⟨by decide, by decide, ?_⟩
  refine ⟨?_, by decide, fun target hlookup => by cases hlookup⟩
  rintro ⟨_, hnode, hentries⟩
  cases hnode
  exact hentries rfl

/-- `/tmp` is renamed to itself: the call returns 0, and the directory is gone. -/
theorem rename_to_itself_deletes :
    IsTmpfs booted.inodes 0 ∧
      namespaceOf booted.inodes 0 ["tmp".toList] = some 1 ∧
      (sysRename refusals booted tmpPath tmpPath).reply = 0 ∧
      namespaceOf (sysRename refusals booted tmpPath tmpPath).system.inodes 0 ["tmp".toList] =
        none ∧
      ¬ RenamesWell 0 booted.inodes (namesOf booted.mounts tmpPath)
        (namesOf booted.mounts tmpPath) (sysRename refusals booted tmpPath tmpPath) := by
  have hbefore : namespaceOf booted.inodes 0 ["tmp".toList] = some 1 := by decide +kernel
  have hreply : (sysRename refusals booted tmpPath tmpPath).reply = 0 := by decide +kernel
  have hafter : namespaceOf (sysRename refusals booted tmpPath tmpPath).system.inodes 0
      ["tmp".toList] = none := by decide +kernel
  have hnames : namesOf booted.mounts tmpPath = ["tmp".toList] := by decide +kernel
  refine ⟨isTmpfs_booted, hbefore, hreply, hafter, fun hwell => ?_⟩
  have hsame := hwell.success hreply ["tmp".toList]
  rw [hafter, moved, if_pos rfl, hbefore] at hsame
  cases hsame

end Bazzulto.Vfs.Names
