/-
  Memory/Mapping.lean --- what `map` and `unmap_range` do to the page tables.

  `map` keeps pages apart as long as it does not run out of pages half way: the
  tables it has linked by then are freed while their entries stay.
  `unmap_range` keeps pages apart as long as no page it frees is mapped anywhere
  else: nothing counts how often a page is mapped.
-/
import Bazzulto.Foundation.Run
import Bazzulto.Memory.Shield

set_option autoImplicit false

namespace Bazzulto.Memory

open Foundation Foundation.Radix List Option
open PhysicalMemory (freePage freePage_pages_of_ne setNext write_pages write_pages_of_ne)

variable {mmfr0 : Word} {Good : Word → Prop} {reserved : Set Word}
  {memory memory' memory'' : PhysicalMemory} {roots : Set Word} {free free' free'' : List Word}
  {root table created last address page flags : Word} {path done : List Index} {index : Index}
  {fresh : List Word}

/-! ## Adding tables -/

/-- What memory held apart from free pages and tables is still there; new tables
come from the free pages. -/
structure Grows (mmfr0 : Word) (roots : Set Word) (memory : PhysicalMemory)
    (free : List Word) (memory' : PhysicalMemory) (free' : List Word) : Prop where
  owned : Owned mmfr0 memory' roots free'
  subset : ∀ page ∈ free', page ∈ free
  tables : ∀ page, IsTable mmfr0 memory' roots page → IsTable mmfr0 memory roots page ∨ page ∈ free
  content : ∀ page, page ∉ free → ¬ IsTable mmfr0 memory roots page →
    memory'.pages page = memory.pages page

namespace Grows

variable (h : Grows mmfr0 roots memory free memory' free')
include h

/-- A page outside the old tables and the old free pages is outside the new
tables. -/
theorem not_table (hfree : page ∉ free) (htable : ¬ IsTable mmfr0 memory roots page) :
    ¬ IsTable mmfr0 memory' roots page := by
  intro hnew
  rcases h.tables page hnew with hold | hmem
  · exact htable hold
  · exact hfree hmem

theorem trans (h' : Grows mmfr0 roots memory' free' memory'' free'') :
    Grows mmfr0 roots memory free memory'' free'' where
  owned := h'.owned
  subset := fun page hmem => h.subset page (h'.subset page hmem)
  tables := by
    intro page htable
    rcases h'.tables page htable with hmiddle | hmem
    · exact h.tables page hmiddle
    · exact .inr (h.subset page hmem)
  content := by
    intro page hfree htable
    rw [h'.content page (fun hmem => hfree (h.subset page hmem)) (h.not_table hfree htable),
      h.content page hfree htable]

end Grows

/-- `memory'` has the trees of `memory` with tables added that were free: every
leaf is as before, and so is the content of every page that is not a table. -/
structure Extends (mmfr0 : Word) (roots : Set Word) (memory : PhysicalMemory)
    (free : List Word) (memory' : PhysicalMemory) (free' : List Word) : Prop
    extends Grows mmfr0 roots memory free memory' free' where
  kept : ∀ root ∈ roots, ∀ (path : List Index) (table : Word), path.length ≤ 3 →
    follow (child mmfr0 memory) root path = some table →
    follow (child mmfr0 memory') root path = some table
  leaves : ∀ root ∈ roots, ∀ path : List Index, path.length = 4 →
    follow (child mmfr0 memory') root path = follow (child mmfr0 memory) root path
  lowest : ∀ root ∈ roots, ∀ (path : List Index) (table : Word), path.length = 3 →
    follow (child mmfr0 memory) root path = some table →
    memory'.pages table = memory.pages table

namespace Extends

theorem refl (h : Owned mmfr0 memory roots free) :
    Extends mmfr0 roots memory free memory free where
  owned := h
  subset := fun _ hmem => hmem
  tables := fun _ htable => .inl htable
  content := fun _ _ _ => rfl
  kept := fun _ _ _ _ _ hfollow => hfollow
  leaves := fun _ _ _ _ => rfl
  lowest := fun _ _ _ _ _ _ => rfl

theorem trans (h : Extends mmfr0 roots memory free memory' free')
    (h' : Extends mmfr0 roots memory' free' memory'' free'') :
    Extends mmfr0 roots memory free memory'' free'' where
  toGrows := h.toGrows.trans h'.toGrows
  kept := fun root hroot path table hlen hfollow =>
    h'.kept root hroot path table hlen (h.kept root hroot path table hlen hfollow)
  leaves := fun root hroot path hlen =>
    (h'.leaves root hroot path hlen).trans (h.leaves root hroot path hlen)
  lowest := fun root hroot path table hlen hfollow =>
    (h'.lowest root hroot path table hlen (h.kept root hroot path table hlen.le hfollow)).trans
      (h.lowest root hroot path table hlen hfollow)

end Extends

section

variable (hroot : root ∈ roots) (hpath : path.length < 3)
  (hat : follow (child mmfr0 memory) root path = some table)
  (hmissing : child mmfr0 memory table index = none)
  (hcreate : Memory.createTable memory = some (created, memory'))
include hroot hpath hat hmissing hcreate

/-- A missing table is created and linked. -/
theorem Owned.extend (h : Owned mmfr0 memory roots free) :
    ∃ rest, free = created :: rest ∧
      Extends mmfr0 roots memory free
        (memory'.write table index (tableEntry created)) rest ∧
      follow (child mmfr0 (memory'.write table index (tableEntry created))) root
        (path ++ [index]) = some created := by
  obtain ⟨rest, hfree, howned, hloose, hblank, hpages⟩ := h.createTable hcreate
  have hcreated : created ∈ free := by rw [hfree]; exact mem_cons_self
  have hentries := h.createTable_child hcreate
  have hsame := sameTrees_of_tables hentries
  have hat' : follow (child mmfr0 memory') root path = some table := by
    rw [hsame root hroot path (by omega), hat]
  have hmissing' : child mmfr0 memory' table index = none := by
    rw [hentries table ⟨root, hroot, path, by omega, hat⟩ index, hmissing]
  obtain ⟨hlinked, hlinks⟩ := howned.link hroot hat' index hpath hloose hblank
  -- A path through the new link led nowhere before.
  have hthrough : ∀ rest, follow (child mmfr0 memory') root (path ++ index :: rest) =
      none := by
    intro rest
    rw [follow_append, hat', bind_some, follow_cons, hmissing']
    rfl
  refine ⟨rest, hfree, ?_, ?_⟩
  · refine
      { owned := hlinked
        subset := fun _ hmem => hfree ▸ mem_cons_of_mem created hmem
        tables := ?_
        content := ?_
        kept := ?_
        leaves := ?_
        lowest := ?_ }
    · intro page htable
      rcases hlinks.inner_link htable with rfl | hold
      · exact .inr hcreated
      · exact .inl ((hsame.inner_iff page).mp hold)
    · intro page hnot hntable
      rw [write_pages_of_ne _ _ _ ?_, hpages page ?_]
      · rintro rfl
        exact hnot hcreated
      · rintro rfl
        exact hntable ⟨root, hroot, path, by omega, hat⟩
    · intro other hother path' found hlen hfollow
      rw [← hsame other hother path' (by omega)] at hfollow
      rw [hlinks.follow_outside hother path' (by omega), hfollow]
      rintro rfl more rfl
      rw [hthrough more] at hfollow
      cases hfollow
    · intro other hother path' hlen
      rw [← hsame other hother path' (by omega)]
      by_cases hin : other = root ∧ ∃ more, path' = path ++ index :: more
      · obtain ⟨rfl, more, rfl⟩ := hin
        rw [hthrough more]
        cases hnew : follow (child mmfr0 (memory'.write table index (tableEntry created)))
          other (path ++ index :: more) with
        | none => rfl
        | some found =>
          obtain ⟨rfl, -⟩ := hlinks.follow_through hnew
          simp at hlen
          omega
      · exact hlinks.follow_outside hother path' (by omega) fun heq more hpath' =>
          hin ⟨heq, more, hpath'⟩
    · intro other hother path' found _ hfollow
      rw [write_pages_of_ne _ _ _ ?_, hpages found ?_]
      · rintro rfl
        exact h.tables found ⟨other, hother, path', by omega, hfollow⟩ hcreated
      rintro rfl
      obtain ⟨-, rfl⟩ := h.separated other hother root hroot path' path found (by omega)
        (by omega) hfollow hat
      omega
  · rw [hlinks.follow_inside [], bind_some, follow_nil]

/-- The new table is zeroed and its link says nothing but where it is. -/
theorem Shielded.extend (hgood : Linkable mmfr0 Good)
    (h : Shielded mmfr0 Good reserved memory roots free) :
    ∃ rest, free = created :: rest ∧
      Shielded mmfr0 Good reserved (memory'.write table index (tableEntry created)) roots
        rest ∧
      Extends mmfr0 roots memory free
        (memory'.write table index (tableEntry created)) rest ∧
      follow (child mmfr0 (memory'.write table index (tableEntry created))) root
        (path ++ [index]) = some created := by
  obtain ⟨rest, hfree, hext, hnext⟩ := h.owned.extend hroot hpath hat hmissing hcreate
  obtain ⟨rest', hfree', hcleared, hloose, hcreated, hzero⟩ := h.createTable hcreate
  obtain rfl : rest' = rest := (List.cons.inj (hfree'.symm.trans hfree)).2
  have hsame := sameTrees_of_tables (h.owned.createTable_child hcreate)
  refine ⟨rest', hfree, ?_, hext, hnext⟩
  exact hcleared.link hroot ((hsame root hroot path (by omega)).trans hat) index hgood hpath
    hloose hcreated hzero

end

/-! ## `map` -/

/-- The tables that are missing on a path. -/
def missingTables (mmfr0 : Word) (memory : PhysicalMemory) : Word → List Index → Nat
  | _, [] => 0
  | table, index :: path =>
    match child mmfr0 memory table index with
    | some next => missingTables mmfr0 memory next path
    | none => path.length + 1

theorem missingTables_le (mmfr0 : Word) (memory : PhysicalMemory) (table : Word)
    (path : List Index) : missingTables mmfr0 memory table path ≤ path.length := by
  induction path generalizing table with
  | nil => exact Nat.le_refl 0
  | cons index path ih =>
    rw [missingTables]
    split
    · exact Nat.le_succ_of_le (ih _)
    · exact le_rfl

theorem missingTables_eq_zero (h : follow (child mmfr0 memory) table path = some last) :
    missingTables mmfr0 memory table path = 0 := by
  induction path generalizing table with
  | nil => rfl
  | cons index path ih =>
    obtain ⟨_, hchild, hrest⟩ := bind_eq_some_iff.mp h
    rw [missingTables, hchild]
    exact ih hrest

theorem exists_follow (h : missingTables mmfr0 memory table path = 0) :
    ∃ last, follow (child mmfr0 memory) table path = some last := by
  induction path generalizing table with
  | nil => exact ⟨table, rfl⟩
  | cons index path ih =>
    rw [missingTables] at h
    rw [follow_cons]
    cases hchild : child mmfr0 memory table index with
    | none => rw [hchild] at h; cases h
    | some next =>
      rw [hchild] at h
      exact ih h

/-- Which tables are missing depends on the table entries only. -/
theorem missingTables_congr (htables : SameEntries mmfr0 memory memory' roots)
    (path : List Index) (hroot : root ∈ roots)
    (hat : follow (child mmfr0 memory) root done = some table)
    (hlen : done.length + path.length ≤ 3) :
    missingTables mmfr0 memory' table path = missingTables mmfr0 memory table path := by
  induction path generalizing table done with
  | nil => rfl
  | cons index path ih =>
    rw [length_cons] at hlen
    rw [missingTables, missingTables, htables table ⟨root, hroot, done, by omega, hat⟩ index]
    cases hchild : child mmfr0 memory table index with
    | none => rfl
    | some next =>
      have hnext : follow (child mmfr0 memory) root (done ++ [index]) = some next := by
        rw [follow_concat, hat, bind_some, hchild]
      exact ih hnext (by rw [length_append, length_singleton]; omega)

/-- Tables of the tree of `root`, the root itself apart, all different. -/
def Branches (mmfr0 : Word) (memory : PhysicalMemory) (root : Word) (tables : List Word) : Prop :=
  tables.Nodup ∧ ∀ table ∈ tables, ∃ path : List Index, path ≠ [] ∧ path.length ≤ 3 ∧
    follow (child mmfr0 memory) root path = some table

theorem Branches.extend (h : Branches mmfr0 memory root fresh)
    (howned : Owned mmfr0 memory roots free) (hroot : root ∈ roots)
    (hext : Extends mmfr0 roots memory free memory' free') (hcreated : created ∈ free)
    (hpath : path ≠ []) (hlen : path.length ≤ 3)
    (hat : follow (child mmfr0 memory') root path = some created) :
    Branches mmfr0 memory' root (fresh ++ [created]) := by
  obtain ⟨hnodup, htables⟩ := h
  refine ⟨?_, fun table hmem => ?_⟩
  · rw [nodup_append_comm, singleton_append, nodup_cons]
    refine ⟨fun hmem => ?_, hnodup⟩
    obtain ⟨done, -, hdone, hfollow⟩ := htables created hmem
    exact howned.tables created ⟨root, hroot, done, hdone, hfollow⟩ hcreated
  · rcases mem_append.mp hmem with hold | hnew
    · obtain ⟨done, hne, hdone, hfollow⟩ := htables table hold
      exact ⟨done, hne, hdone, hext.kept root hroot done table hdone hfollow⟩
    · rw [mem_singleton.mp hnew]
      exact ⟨path, hpath, hlen, hat⟩

/-- A walk that succeeds ends at the last table of its path, and the tables on it were
added from the free pages.  One that stops had fewer pages than it needs, and frees the
tables it has added. -/
theorem getOrCreate_outcome (hgood : Linkable mmfr0 Good) (path : List Index)
    (h : Shielded mmfr0 Good reserved memory roots free) (hroot : root ∈ roots)
    (hat : follow (child mmfr0 memory) root done = some table)
    (hlen : done.length + path.length ≤ 3) (hfresh : Branches mmfr0 memory root fresh) :
    Outcome
      (fun walked => ∃ free', Shielded mmfr0 Good reserved walked.2 roots free' ∧
        Extends mmfr0 roots memory free walked.2 free' ∧
        follow (child mmfr0 walked.2) root (done ++ path) = some walked.1)
      (fun memory' => free.length < missingTables mmfr0 memory table path ∧
        ∃ left free' added, Shielded mmfr0 Good reserved left roots free' ∧
          Extends mmfr0 roots memory free left free' ∧ Branches mmfr0 left root added ∧
          (∀ table ∈ added, table ∈ fresh ∨ table ∈ free) ∧ memory' = freeTables left added)
      (getOrCreate mmfr0 memory table path fresh) := by
  induction path generalizing memory free table done fresh with
  | nil => exact .ok ⟨free, h, Extends.refl h.owned, by rw [append_nil, hat]⟩
  | cons index path ih =>
    rw [length_cons] at hlen
    rw [getOrCreate, missingTables]
    have hlen' : (done ++ [index]).length + path.length ≤ 3 := by
      rw [length_append, length_singleton]
      omega
    rw [← singleton_append, ← append_assoc]
    cases hchild : child mmfr0 memory table index with
    | some next =>
      exact ih h (by rw [follow_concat, hat, bind_some, hchild]) hlen' hfresh
    | none =>
      cases hcreate : createTable memory with
      | none =>
        refine .error ⟨?_, memory, free, fresh, h, Extends.refl h.owned, hfresh, fun _ => .inl,
          rfl⟩
        rw [h.owned.createTable_eq_none.mp hcreate]
        exact Nat.succ_pos _
      | some result =>
        obtain ⟨_, rfl, hlinked, hext, hnext⟩ :=
          h.extend hroot (by omega) hat hchild hcreate hgood
        have hwalk := ih hlinked hnext hlen' (hfresh.extend h.owned hroot hext
          mem_cons_self (by simp) (by omega) hnext)
        refine hwalk.imp (fun walked hdone => ?_) fun memory' hstopped => ?_
        · obtain ⟨free', hfinal, hext', hlast⟩ := hdone
          exact ⟨free', hfinal, hext.trans hext', hlast⟩
        obtain ⟨hfew, left, free', added, hleft, hext', hbranches, hadded, hmemory⟩ := hstopped
        refine ⟨Nat.succ_lt_succ (hfew.trans_le (missingTables_le _ _ _ _)), left, free', added,
          hleft, hext.trans hext', hbranches, fun table hmem => ?_, hmemory⟩
        rcases hadded table hmem with hin | hrest
        · rcases mem_append.mp hin with hold | hnew
          · exact .inl hold
          · exact .inr (mem_singleton.mp hnew ▸ mem_cons_self)
        · exact .inr (hext.subset _ hrest)

/-- Without a free page the walk ends at the first missing table and nothing has
changed. -/
theorem getOrCreate_error (path : List Index) (table : Word) (h : Owned mmfr0 memory roots [])
    (hmissing : missingTables mmfr0 memory table path ≠ 0) :
    getOrCreate mmfr0 memory table path [] = .error memory := by
  induction path generalizing table with
  | nil => exact absurd rfl hmissing
  | cons index path ih =>
    rw [missingTables] at hmissing
    rw [getOrCreate]
    cases hchild : child mmfr0 memory table index with
    | some next =>
      rw [hchild] at hmissing
      exact ih next hmissing
    | none =>
      rw [h.createTable_eq_none.mpr rfl]
      rfl

/-- `map` has a page for every table it needs, or fails before it takes one. -/
def MapFits (mmfr0 : Word) (memory : PhysicalMemory) (root address : Word)
    (freePages : Nat) : Prop :=
  missingTables mmfr0 memory root (tablePath address) ≤ freePages ∨ freePages = 0
  deriving Decidable

/-- `map` writes its entry in the last table of the path.  If it fails it has added tables
and freed them again. -/
theorem map_outcome (hgood : Linkable mmfr0 Good)
    (h : Shielded mmfr0 Good reserved memory roots free) (hroot : root ∈ roots) :
    Outcome
      (fun memory' => ∃ table extended free', Shielded mmfr0 Good reserved extended roots free' ∧
        Extends mmfr0 roots memory free extended free' ∧
        follow (child mmfr0 extended) root (tablePath address) = some table ∧
        memory' = extended.write table (level3Index address) (page ||| flags))
      (fun memory' => free.length < missingTables mmfr0 memory root (tablePath address) ∧
        ∃ left free' added, Shielded mmfr0 Good reserved left roots free' ∧
          Extends mmfr0 roots memory free left free' ∧ Branches mmfr0 left root added ∧
          (∀ table ∈ added, table ∈ free) ∧ memory' = freeTables left added)
      (map mmfr0 memory root address page flags) := by
  have hwalk := getOrCreate_outcome hgood (tablePath address) h hroot (follow_nil root)
    (by simp [tablePath]) ⟨nodup_nil, by simp⟩
  unfold map
  generalize getOrCreate mmfr0 memory root (tablePath address) [] = walk at hwalk ⊢
  cases hwalk with
  | ok hdone =>
    obtain ⟨free', hshield, hext, hlast⟩ := hdone
    exact .ok ⟨_, _, free', hshield, hext, hlast, rfl⟩
  | error hstopped =>
    simp only [not_mem_nil, false_or] at hstopped
    exact .error hstopped

/-- With a free page for every missing table `map` succeeds. -/
theorem map_succeeds (h : Owned mmfr0 memory roots free) (hroot : root ∈ roots)
    (hfits : missingTables mmfr0 memory root (tablePath address) ≤ free.length)
    (page flags : Word) : ∃ mapped, map mmfr0 memory root address page flags = .ok mapped := by
  cases hmap : map mmfr0 memory root address page flags with
  | ok mapped => exact ⟨mapped, rfl⟩
  | error _ =>
    have hstopped := (map_outcome (durable_true mmfr0).toLinkable h.shielded hroot).of_error hmap
    exact absurd hfits (Nat.not_le.mpr hstopped.1)

/-- The tables of `root` are where they were. -/
def KeepsTables (mmfr0 : Word) (memory memory' : PhysicalMemory) (root : Word) : Prop :=
  ∀ (path : List Index) (table : Word), path.length ≤ 3 →
    follow (child mmfr0 memory) root path = some table →
    follow (child mmfr0 memory') root path = some table

theorem KeepsTables.missingTables (h : KeepsTables mmfr0 memory memory' root)
    (hlen : path.length ≤ 3) (hpath : missingTables mmfr0 memory root path = 0) :
    Memory.missingTables mmfr0 memory' root path = 0 := by
  obtain ⟨last, hlast⟩ := exists_follow hpath
  exact missingTables_eq_zero (h path last hlen hlast)

/-- The leaves afterwards are those before and the one of `address`. -/
def AddsLeaf (mmfr0 : Word) (memory memory' : PhysicalMemory) (roots : Set Word)
    (root address page : Word) : Prop :=
  ∀ other ∈ roots, ∀ (path : List Index) (found : Word), path.length = 4 →
    follow (child mmfr0 memory') other path = some found →
    follow (child mmfr0 memory) other path = some found ∨
      other = root ∧ path = pagePath address ∧ found = page

section

variable (h : Shielded mmfr0 Good reserved memory roots free) (hroot : root ∈ roots)
  (hframed : page &&& paMask mmfr0 = page) (hfree : page ∉ free)
  (htable : ¬ IsTable mmfr0 memory roots page) (hflags : flags &&& paMask mmfr0 = 0#64)
  (hmap : Memory.map mmfr0 memory root address page flags = .ok memory')
include h hroot hframed hfree htable hflags hmap

/-- What `map` of a page that is neither free nor a table leaves: pages are kept apart,
the tables it adds were free, and the path of the address is there. -/
theorem Shielded.map_adds (hgood : Linkable mmfr0 Good) (hentry : Good (page ||| flags)) :
    ∃ free', Shielded mmfr0 Good reserved memory' roots free' ∧ (∀ other ∈ free', other ∈ free) ∧
      AddsLeaf mmfr0 memory memory' roots root address page ∧
      KeepsTables mmfr0 memory memory' root ∧
      missingTables mmfr0 memory' root (tablePath address) = 0 := by
  obtain ⟨_, extended, free', hshield, hext, hlast, rfl⟩ :=
    (map_outcome hgood h hroot).of_ok hmap
  have htarget : (page ||| flags) &&& paMask mmfr0 = page := target_or mmfr0 hframed hflags
  have hneither : Valid (page ||| flags) → (page ||| flags) &&& paMask mmfr0 ∉ free' ∧
      ¬ IsTable mmfr0 extended roots ((page ||| flags) &&& paMask mmfr0) := fun _ => by
    rw [htarget]
    exact ⟨fun hmem => hfree (hext.subset _ hmem), hext.not_table hfree htable⟩
  obtain ⟨-, hsets⟩ := hshield.owned.setLeaf hroot hlast (level3Index address) (page ||| flags)
    rfl hneither
  have hinner := hsets.follow_leaf rfl hroot
  refine ⟨free', hshield.setLeaf hroot hlast _ rfl hentry hneither, hext.subset,
    fun other hother path found hlen hfound => ?_, fun path found hlen hat => ?_,
    missingTables_eq_zero ((hinner (tablePath address) (le_refl 3)).trans hlast)⟩
  · rcases hsets.follow_lowest rfl hother hlen hfound with ⟨hother, hpath, hvalue⟩ | ⟨-, hold⟩
    · right
      refine ⟨hother, hpath, ?_⟩
      split at hvalue
      · exact (some.inj hvalue).symm.trans htarget
      · cases hvalue
    · exact .inl ((hext.leaves other hother path hlen) ▸ hold)
  · rw [hinner path hlen]
    exact hext.kept root hroot path found hlen hat

theorem Shielded.map (hgood : Linkable mmfr0 Good) (hentry : Good (page ||| flags)) :
    ∃ free', Shielded mmfr0 Good reserved memory' roots free' ∧
      KeepsTables mmfr0 memory memory' root ∧
      missingTables mmfr0 memory' root (tablePath address) = 0 := by
  obtain ⟨free', hmapped, -, -, hkeeps, hpath⟩ :=
    h.map_adds hroot hframed hfree htable hflags hmap hgood hentry
  exact ⟨free', hmapped, hkeeps, hpath⟩

end

/-- A `map` that does not stop half way and fails has changed nothing. -/
theorem MapFits.error (h : Owned mmfr0 memory roots free) (hroot : root ∈ roots)
    (hfits : MapFits mmfr0 memory root address free.length)
    (hmap : Memory.map mmfr0 memory root address page flags = .error memory') :
    memory' = memory := by
  by_cases hroom : missingTables mmfr0 memory root (tablePath address) ≤ free.length
  · obtain ⟨_, hmapped⟩ := map_succeeds h hroot hroom page flags
    rw [hmapped] at hmap
    cases hmap
  have hempty : free = [] :=
    length_eq_zero_iff.mp (hfits.resolve_left hroom)
  subst hempty
  have herror := getOrCreate_error (tablePath address) root h (by simp at hroom; omega)
  rw [Memory.map, herror] at hmap
  exact (Except.error.inj hmap).symm

theorem MapFits.fill {freePages : Nat} (hfits : MapFits mmfr0 memory root address freePages)
    (h : Owned mmfr0 memory roots free) (halloc : memory.alloc = some (page, memory'))
    (hroot : root ∈ roots) (content : Page) :
    MapFits mmfr0 (memory'.fill page content) root address freePages := by
  obtain ⟨_, rfl, -, -, hpages⟩ := h.fresh halloc content
  rw [MapFits, missingTables_congr (h.sameEntries hpages) (tablePath address) hroot
    (follow_nil root) (by simp [tablePath])]
  exact hfits

/-! ## `unmap_range` -/

/-- Freeing a page and clearing an entry of another one can be done in either
order. -/
theorem write_freePage_comm (memory : PhysicalMemory) (index : Index) (word : Word)
    (hne : page ≠ table) :
    (memory.freePage page).write table index word =
      (memory.write table index word).freePage page := by
  have hpages : ((memory.freePage page).write table index word).pages =
      ((memory.write table index word).freePage page).pages := by
    funext other j
    unfold freePage
    rw [PhysicalMemory.write_freeListHead]
    obtain rfl | htable := eq_or_ne other table
    · cases memory.freeListHead <;> simp [setNext, write_pages, Ne.symm hne]
    · cases memory.freeListHead <;> simp [setNext, write_pages, htable]
  exact congrArg (PhysicalMemory.mk · (some page) (memory.freePageCount + 1)) hpages

/-- The leaf of an address is the only one with its target. -/
def Unshared (mmfr0 : Word) (memory : PhysicalMemory) (roots : Set Word)
    (root address : Word) : Prop :=
  ∀ page, translate mmfr0 memory root address = some page →
    ∀ other ∈ roots, ∀ path : List Index, path.length = 4 →
      follow (child mmfr0 memory) other path = some page →
      other = root ∧ path = pagePath address

/-- `memory'` has at most the leaves of `memory`. -/
def FewerLeaves (mmfr0 : Word) (memory memory' : PhysicalMemory) (roots : Set Word) : Prop :=
  ∀ root ∈ roots, ∀ (path : List Index) (page : Word), path.length = 4 →
    follow (child mmfr0 memory') root path = some page →
    follow (child mmfr0 memory) root path = some page

theorem pagePath_length (address : Word) : (pagePath address).length = 4 := rfl

theorem unmapPage_of_unmapped (h : translate mmfr0 memory root address = none) :
    unmapPage mmfr0 root memory address = memory := by
  rw [translate, pagePath, follow_concat] at h
  unfold unmapPage
  cases htable : follow (child mmfr0 memory) root (tablePath address) with
  | none => rfl
  | some table =>
    rw [htable, bind_some] at h
    simp [h]

theorem child_framed (h : child mmfr0 memory table index = some page) :
    page &&& paMask mmfr0 = page := by
  unfold child at h
  dsimp only at h
  split at h
  · cases h
    rw [BitVec.and_assoc, BitVec.and_self]
  · cases h

/-- Clearing the entry of an address removes its leaf and no other. -/
theorem Owned.clearLeaf (h : Owned mmfr0 memory roots free) (hroot : root ∈ roots)
    (htable : follow (child mmfr0 memory) root (tablePath address) = some table) :
    FewerLeaves mmfr0 memory (memory.write table (level3Index address) 0#64) roots ∧
      (∀ page, IsTable mmfr0 (memory.write table (level3Index address) 0#64) roots page ↔
        IsTable mmfr0 memory roots page) ∧
      translate mmfr0 (memory.write table (level3Index address) 0#64) root address =
        none := by
  have hzero : ¬ Valid 0#64 := by simp [Valid]
  obtain ⟨-, hsets⟩ := h.setLeaf hroot htable (level3Index address) 0#64 rfl
    (fun hvalid => absurd hvalid hzero)
  have hgone : translate mmfr0 (memory.write table (level3Index address) 0#64) root address =
      none := by
    rw [translate, pagePath, hsets.follow_inside []]
    rfl
  refine ⟨?_, hsets.inner_leaf rfl, hgone⟩
  intro _ hother path _ hlen hfollow
  rcases hsets.follow_lowest rfl hother hlen hfollow with ⟨-, -, hvalue⟩ | ⟨-, hold⟩
  · rw [if_neg hzero] at hvalue
    cases hvalue
  · exact hold

section

variable (hgood : Linkable mmfr0 Good) (h : Shielded mmfr0 Good reserved memory roots free)
  (hroot : root ∈ roots)
include hgood h hroot

theorem Shielded.unmapPage (hunshared : Unshared mmfr0 memory roots root address)
    (hreserved : ∀ page, translate mmfr0 memory root address = some page → page ∉ reserved) :
    ∃ free', Shielded mmfr0 Good reserved (unmapPage mmfr0 root memory address) roots free' ∧
      FewerLeaves mmfr0 memory (Memory.unmapPage mmfr0 root memory address) roots ∧
      ∀ page ∈ free', page ∈ free ∨ translate mmfr0 memory root address = some page := by
  cases hleaf : translate mmfr0 memory root address with
  | none =>
    rw [unmapPage_of_unmapped hleaf]
    exact ⟨free, h, fun _ _ _ _ _ hfollow => hfollow, fun _ => .inl⟩
  | some page =>
    have hparts := hleaf
    rw [translate, pagePath, follow_concat] at hparts
    obtain ⟨table, htable, hpage⟩ := bind_eq_some_iff.mp hparts
    have hmapped : IsMapped mmfr0 memory roots page :=
      ⟨root, hroot, _, pagePath_length address, hleaf⟩
    obtain ⟨hnotFree, hnotTable⟩ := h.owned.leaves page hmapped
    have hne : page ≠ table := by
      rintro rfl
      exact hnotTable ⟨root, hroot, tablePath address, le_refl 3, htable⟩
    have hunmap : Memory.unmapPage mmfr0 root memory address =
        (memory.freePage page).write table (level3Index address) 0#64 := by
      simp [Memory.unmapPage, htable, hpage]
    rw [hunmap, write_freePage_comm memory _ _ hne]
    obtain ⟨hfewer, hinner, hgone⟩ := h.owned.clearLeaf hroot htable
    have hcleared : Shielded mmfr0 Good reserved
        (memory.write table (level3Index address) 0#64) roots free :=
      h.setLeaf hroot htable _ rfl hgood.blank fun hvalid => absurd hvalid (by simp [Valid])
    have hloose : Loose mmfr0 (memory.write table (level3Index address) 0#64) roots free
        page := by
      refine
        { framed := child_framed hpage
          notFree := hnotFree
          notTable := fun ht => hnotTable ((hinner page).mp ht)
          notMapped := ?_ }
      rintro ⟨other, hother, path, hlen, hfollow⟩
      obtain ⟨rfl, rfl⟩ := hunshared page hleaf other hother path hlen
        (hfewer other hother path page hlen hfollow)
      exact absurd (hgone.symm.trans hfollow) (by simp)
    obtain ⟨-, hsame⟩ := hcleared.owned.freePage hloose
    refine ⟨page :: free, hcleared.freePage hloose (hreserved page hleaf), ?_, fun other hmem => ?_⟩
    · intro other hother path found hlen hfollow
      rw [hsame other hother path (by omega)] at hfollow
      exact hfewer other hother path found hlen hfollow
    · rcases mem_cons.mp hmem with rfl | hold
      · exact .inr rfl
      · exact .inl hold

/-- `unmap_range` of pages that are mapped nowhere else and not reserved keeps pages
apart. -/
theorem Shielded.unmapRange {pageCount : Nat} {pageSize : Word}
    (hunshared : ∀ va ∈ rangeAddresses address pageCount pageSize,
      Unshared mmfr0 memory roots root va)
    (hreserved : ∀ va ∈ rangeAddresses address pageCount pageSize,
      ∀ page, translate mmfr0 memory root va = some page → page ∉ reserved) :
    ∃ free', Shielded mmfr0 Good reserved
      (unmapRange mmfr0 memory root address pageCount pageSize) roots free' := by
  unfold Memory.unmapRange
  generalize rangeAddresses address pageCount pageSize = addresses at hunshared hreserved
  induction addresses generalizing memory free with
  | nil => exact ⟨free, h⟩
  | cons va addresses ih =>
    obtain ⟨_, hshield, hfewer, -⟩ := h.unmapPage hgood hroot
      (hunshared va mem_cons_self) (hreserved va mem_cons_self)
    refine ih hshield (fun other hmem => ?_) fun other hmem page hpage => ?_
    · intro page hpage tree htree path hlen hfollow
      exact hunshared other (mem_cons_of_mem _ hmem) page
        (hfewer root hroot _ page (pagePath_length other) hpage) tree htree path hlen
        (hfewer tree htree path page hlen hfollow)
    · exact hreserved other (mem_cons_of_mem _ hmem) page
        (hfewer root hroot _ page (pagePath_length other) hpage)

end

end Bazzulto.Memory
