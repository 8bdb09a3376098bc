/-
  Memory/Copy.lean --- what the loops of `cow_copy_user` and `deep_copy_user` do to
  the page tables.

  The copy is a new tree beside those of the processes.  While it is built every
  table it links was free, every page it maps is mapped by the parent or was free,
  and the parent's entries keep their targets, so pages are kept apart all along.
-/
import Bazzulto.Memory.Mapping

set_option autoImplicit false

namespace Bazzulto.Memory

open Foundation.Radix List Option Set

variable {mmfr0 : Word} {Good : Word → Prop} {reserved : Set Word}
  {memory memory' memory'' : PhysicalMemory} {roots : Set Word} {free free' free'' : List Word}
  {top : Word} {path : List Index} {copy source root next : Word} {other indices : List Index}
  {height budget : Nat} {index : Index}

/-! ## The copy under construction -/

/-- What building the tree of `top` below `path` may do: the trees of `roots`
keep their entries, and so does the tree of `top` outside of `path`. -/
structure Copied (mmfr0 : Word) (roots : Set Word) (top : Word) (path : List Index)
    (memory memory' : PhysicalMemory) (free' : List Word) : Prop where
  owned : Owned mmfr0 memory' (insert top roots) free'
  source : ∀ page, IsTable mmfr0 memory roots page →
    ∀ index, child mmfr0 memory' page index = child mmfr0 memory page index
  outside : ∀ other : List Index, other.length ≤ 4 → (∀ index rest, other ≠ path ++ index :: rest) →
    follow (child mmfr0 memory') top other = follow (child mmfr0 memory) top other

namespace Copied

variable {table : Word}

theorem refl (h : Owned mmfr0 memory (insert top roots) free) :
    Copied mmfr0 roots top path memory memory free :=
  ⟨h, fun _ _ _ => rfl, fun _ _ _ => rfl⟩

theorem sameTrees (h : Copied mmfr0 roots top path memory memory' free') :
    SameTrees (child mmfr0 memory) (child mmfr0 memory') roots 3 :=
  sameTrees_of_tables h.source

theorem trans (h : Copied mmfr0 roots top path memory memory' free')
    (h' : Copied mmfr0 roots top path memory' memory'' free'') :
    Copied mmfr0 roots top path memory memory'' free'' where
  owned := h'.owned
  source := fun page htable index =>
    (h'.source page ((h.sameTrees.inner_iff page).mpr htable) index).trans
      (h.source page htable index)
  outside := fun other hlen hout =>
    (h'.outside other hlen hout).trans (h.outside other hlen hout)

theorem shorten (h : Copied mmfr0 roots top (path ++ [index]) memory memory' free') :
    Copied mmfr0 roots top path memory memory' free' where
  owned := h.owned
  source := h.source
  outside := by
    intro other hlen hout
    refine h.outside other hlen fun j rest heq => hout index (j :: rest) ?_
    rw [heq, append_assoc, singleton_append]

theorem at_path (h : Copied mmfr0 roots top path memory memory' free') (hlen : path.length ≤ 3)
    (hat : follow (child mmfr0 memory) top path = some table) :
    follow (child mmfr0 memory') top path = some table := by
  rw [h.outside path (by omega) fun index rest heq => ?_, hat]
  have hlength := congrArg List.length heq
  rw [length_append, length_cons] at hlength
  omega

theorem at_source (h : Copied mmfr0 roots top path memory memory' free') (hroot : root ∈ roots)
    (hlen : other.length ≤ 3) (hat : follow (child mmfr0 memory) root other = some table) :
    follow (child mmfr0 memory') root other = some table := by
  rw [h.sameTrees root hroot other (by omega), hat]

end Copied

/-- No leaf in the tree of `top`. -/
def LeafFree (mmfr0 : Word) (memory : PhysicalMemory) (top : Word) : Prop :=
  ∀ path : List Index, path.length = 4 → follow (child mmfr0 memory) top path = none

theorem LeafFree.fewer (h : LeafFree mmfr0 memory top)
    (hfewer : FewerLeaves mmfr0 memory memory' {top}) : LeafFree mmfr0 memory' top := by
  intro path hlen
  rw [eq_none_iff_forall_ne_some]
  intro found hfound
  have hold := hfewer top rfl path found hlen hfound
  rw [h path hlen] at hold
  cases hold

/-- A descriptor is replaced by the one that `cow_copy_user` gives it: no pointer changes, and
its page still is neither free nor a table. -/
theorem Owned.sealLeaf (h : Owned mmfr0 memory roots free) (hroot : root ∈ roots)
    (hpath : path.length = 3) (hsource : follow (child mmfr0 memory) root path = some source)
    (hvalid : Valid (memory.pages source index)) :
    SameTrees (child mmfr0 memory)
        (child mmfr0 (memory.write source index (cowEntry (memory.pages source index)))) roots 3 ∧
      Owned mmfr0 (memory.write source index (cowEntry (memory.pages source index))) roots free ∧
      cowEntry (memory.pages source index) &&& paMask mmfr0 ∉ free ∧
        ¬ IsTable mmfr0 memory roots (cowEntry (memory.pages source index) &&& paMask mmfr0) := by
  have hsame := sameTrees_of_tables fun page (_ : IsTable mmfr0 memory roots page) j =>
    child_write_cowEntry mmfr0 memory source page index j
  have hkept := h.leaves (cowEntry (memory.pages source index) &&& paMask mmfr0) (by
    refine ⟨root, hroot, path ++ [index], by simp [hpath], ?_⟩
    rw [follow_concat, hsource, cowEntry_target]
    exact if_pos hvalid)
  exact ⟨hsame, h.frame hsame (h.table_write_pages hroot hsource (by omega) index _) rfl rfl, hkept⟩

section

variable (h : Owned mmfr0 memory (insert top roots) free) (hnew : top ∉ roots)
  (hcopy : follow (child mmfr0 memory) top path = some copy)
include h hnew hcopy

theorem copy_not_table (hpath : path.length ≤ 3) : ¬ IsTable mmfr0 memory roots copy := by
  rintro ⟨root, hroot, other, hlen, hfollow⟩
  have hsame := h.separated root (mem_insert_of_mem _ hroot) top (mem_insert _ _)
    other path copy hlen hpath hfollow hcopy
  exact hnew (hsame.1 ▸ hroot)

/-- A table is added to the copy. -/
theorem Owned.extendCopy (hpath : path.length < 3) {created : Word} (index : Index)
    (hcreate : Memory.createTable memory = some (created, memory')) :
    ∃ rest, free = created :: rest ∧
      Copied mmfr0 roots top path memory
        (memory'.write copy index (tableEntry created)) rest ∧
      follow (child mmfr0 (memory'.write copy index (tableEntry created))) top
        (path ++ [index]) = some created ∧
      FewerLeaves mmfr0 memory (memory'.write copy index (tableEntry created)) {top} := by
  obtain ⟨rest, hfree, howned, hloose, hblank, -⟩ := h.createTable hcreate
  have hentries := h.createTable_child hcreate
  have hsame := sameTrees_of_tables hentries
  have htop : top ∈ insert top roots := mem_insert _ _
  have hcopy' : follow (child mmfr0 memory') top path = some copy := by
    rw [hsame top htop path (by omega), hcopy]
  obtain ⟨hlinked, hlinks⟩ := howned.link htop hcopy' index hpath hloose hblank
  refine ⟨rest, hfree, ⟨hlinked, ?_, ?_⟩, ?_, ?_⟩
  · intro page htable j
    rw [hlinks.elsewhere page j (.inl ?_), hentries page (htable.mono (subset_insert _ _)) j]
    rintro rfl
    exact copy_not_table h hnew hcopy (by omega) htable
  · intro other hlen hout
    rw [hlinks.follow_outside htop other hlen (fun _ rest => hout index rest),
      hsame top htop other hlen]
  · rw [hlinks.follow_inside [], bind_some, follow_nil]
  · rintro root rfl other _ hlen hfound
    rcases hlinks.follow_link htop (by omega) hfound with ⟨-, hother, -⟩ | hold
    · rw [hother, length_append, length_singleton] at hlen
      omega
    · rwa [hsame root htop other (by omega)] at hold

/-- A leaf of the parent is shared with the copy. -/
theorem Owned.shareLeaf (hpath : path.length = 3) (hroot : root ∈ roots)
    (hother : other.length = 3)
    (hsource : follow (child mmfr0 memory) root other = some source) (index : Index) :
    Copied mmfr0 roots top path memory (shareLeaf source copy memory index) free := by
  unfold Memory.shareLeaf
  dsimp only
  split
  case isFalse => exact Copied.refl h
  case isTrue hvalid =>
    have htop : top ∈ insert top roots := mem_insert _ _
    obtain ⟨hsame, howned, hfree, htable⟩ :=
      h.sealLeaf (mem_insert_of_mem _ hroot) hother hsource hvalid
    have hcopy' := (hsame top htop path (by omega)).trans hcopy
    obtain ⟨hshared, hsets⟩ := howned.setLeaf htop hcopy' index
      (cowEntry (memory.pages source index)) hpath
      fun _ => ⟨hfree, fun hin => htable ((hsame.inner_iff _).mp hin)⟩
    refine ⟨hshared, ?_, ?_⟩
    · intro page htable j
      rw [hsets.elsewhere page j (.inl ?_), child_write_cowEntry]
      rintro rfl
      exact copy_not_table h hnew hcopy (by omega) htable
    · intro other' hlen hout
      rw [hsets.follow_outside htop other' hlen (fun _ rest => hout index rest),
        hsame top htop other' hlen]

end

section

variable (h : Shielded mmfr0 Good reserved memory (insert top roots) free)
  (hcopy : follow (child mmfr0 memory) top path = some copy) (index)
include h hcopy

theorem Shielded.linkCopy (hgood : Linkable mmfr0 Good) {created : Word} (hpath : path.length < 3)
    (hcreate : Memory.createTable memory = some (created, memory')) :
    ∃ rest, Shielded mmfr0 Good reserved
      (memory'.write copy index (tableEntry created)) (insert top roots) rest := by
  obtain ⟨rest, -, hcleared, hloose, hcreated, hzero⟩ := h.createTable hcreate
  have hsame := sameTrees_of_tables (h.owned.createTable_child hcreate)
  have htop : top ∈ insert top roots := mem_insert _ _
  exact ⟨rest, hcleared.link htop
    ((hsame top htop path (by omega)).trans hcopy) index hgood hpath hloose hcreated hzero⟩

/-- Both tables get a descriptor made from one that was there. -/
theorem Shielded.shareLeaf (hgood : Durable mmfr0 Good) (hpath : path.length = 3)
    (hroot : root ∈ roots) (hother : other.length = 3)
    (hsource : follow (child mmfr0 memory) root other = some source) :
    Shielded mmfr0 Good reserved (shareLeaf source copy memory index) (insert top roots)
      free := by
  unfold Memory.shareLeaf
  dsimp only
  split
  case isFalse => exact h
  case isTrue hvalid =>
    have htop : top ∈ insert top roots := mem_insert _ _
    have hroot' : root ∈ insert top roots := mem_insert_of_mem _ hroot
    have hentry : Good (cowEntry (memory.pages source index)) :=
      hgood.shared (h.words source ⟨root, hroot', other, le_of_eq hother, hsource⟩ index)
    obtain ⟨hsame, -, hkept⟩ := h.owned.sealLeaf hroot' hother hsource hvalid
    refine (h.setLeaf hroot' hsource index hother hentry fun _ => hkept).setLeaf htop
      ((hsame top htop path (by omega)).trans hcopy) index hpath hentry fun _ => ?_
    exact ⟨hkept.1, fun htable => hkept.2 ((hsame.inner_iff _).mp htable)⟩

end

/-! ## The loops -/

/-- One turn of the loop over the entries of an upper table. -/
theorem copyTree_cons (leaf : Word → Word → PhysicalMemory → Index →
      Except PhysicalMemory PhysicalMemory) (height : Nat) (index : Index)
    (indices : List Index) (source copy : Word) (memory : PhysicalMemory) :
    copyTree mmfr0 leaf (height + 1) (index :: indices) source copy memory =
      match child mmfr0 memory source index with
      | none => copyTree mmfr0 leaf (height + 1) indices source copy memory
      | some next =>
        match createTable memory with
        | none => .error memory
        | some (table, memory) =>
          match copyTree mmfr0 leaf height tableEntries next table
            (memory.write copy index (tableEntry table)) with
          | .error memory => .error memory
          | .ok memory => copyTree mmfr0 leaf (height + 1) indices source copy memory := by
  rw [copyTree, foldlM_cons]
  cases child mmfr0 memory source index with
  | none => rfl
  | some next =>
    cases createTable memory with
    | none => rfl
    | some created =>
      dsimp only
      cases copyTree mmfr0 leaf height tableEntries next created.1
        (created.2.write copy index (tableEntry created.1)) <;> rfl

theorem copyEntries_zero (indices : List Index) (source copy : Word) (memory : PhysicalMemory) :
    copyEntries mmfr0 0 indices source copy memory =
      .ok (indices.foldl (shareLeaf source copy) memory) :=
  foldlM_pure (m := Except PhysicalMemory)

/-- The memory that the loops leave, whether they finish or not. -/
def leftMemory : Except PhysicalMemory PhysicalMemory → PhysicalMemory
  | .ok memory => memory
  | .error memory => memory

/-- No leaf is met among the tables that `budget` pages allow to copy. -/
def Quiet (mmfr0 : Word) (memory : PhysicalMemory) (height : Nat) (indices : List Index)
    (source : Word) (budget : Nat) : Prop :=
  (height = 0 → ∀ index ∈ indices, child mmfr0 memory source index = none) ∧
    ∀ table, (0, table) ∈ (below (child mmfr0 memory) tableEntries height indices
        source).take budget → ∀ index, child mmfr0 memory table index = none

/-- What the loops over the entries of a table come to: they finish exactly when
there is a free page for every table below, and use that many. -/
structure CopyOutcome (mmfr0 : Word) (roots : Set Word) (top : Word) (path : List Index)
    (memory : PhysicalMemory) (free : List Word) (tables : Nat) (quiet : Prop)
    (result : Except PhysicalMemory PhysicalMemory) : Prop where
  copied : ∃ free', Copied mmfr0 roots top path memory (leftMemory result) free' ∧
    (∀ final, result = .ok final → free.length = free'.length + tables) ∧
    (∀ left, result = .error left → free' = [] ∧ free.length < tables)
  leafFree : quiet → LeafFree mmfr0 memory top → LeafFree mmfr0 (leftMemory result) top

theorem isTable_of_mem_below {level : Nat} {found : Word} (hroot : root ∈ roots)
    (hlen : other.length + height ≤ 3)
    (hsource : follow (child mmfr0 memory) root other = some source)
    (hmem : (level, found) ∈ below (child mmfr0 memory) tableEntries height indices source) :
    IsTable mmfr0 memory roots found := by
  obtain ⟨j, -, rest, _, hfollow⟩ := mem_below hmem
  refine ⟨root, hroot, other ++ j :: rest, ?_, ?_⟩
  · rw [length_append, length_cons]
    omega
  · rw [follow_append, hsource, bind_some, hfollow]

section Agree

variable (hagree : SameEntries mmfr0 memory memory' roots) (hroot : root ∈ roots) (hlen : other.length + height ≤ 3)
  (hsource : follow (child mmfr0 memory) root other = some source)
include hagree hroot hlen hsource

/-- The tables below a table are the same in memories with the same table
entries. -/
theorem below_eq_of_tables (indices : List Index) :
    below (child mmfr0 memory') tableEntries height indices source =
      below (child mmfr0 memory) tableEntries height indices source :=
  below_congr (hagree source ⟨root, hroot, other, by omega, hsource⟩) fun _ found hmem =>
    hagree found (isTable_of_mem_below hroot hlen hsource hmem)

theorem Quiet.of_tables (hquiet : Quiet mmfr0 memory height indices source budget) :
    Quiet mmfr0 memory' height indices source budget := by
  refine ⟨fun hzero index hmem => ?_, fun table hmem index => ?_⟩
  · rw [hagree source ⟨root, hroot, other, by omega, hsource⟩ index]
    exact hquiet.1 hzero index hmem
  rw [below_eq_of_tables hagree hroot hlen hsource indices] at hmem
  rw [hagree table (isTable_of_mem_below hroot hlen hsource (mem_of_mem_take hmem)) index]
  exact hquiet.2 table hmem index

end Agree

theorem copyEntries_leaves (indices : List Index) (h : Owned mmfr0 memory (insert top roots) free)
    (hnew : top ∉ roots) (hcopy : follow (child mmfr0 memory) top path = some copy)
    (hpath : path.length = 3) (hroot : root ∈ roots) (hother : other.length = 3)
    (hsource : follow (child mmfr0 memory) root other = some source) :
    Copied mmfr0 roots top path memory (indices.foldl (shareLeaf source copy) memory) free := by
  induction indices generalizing memory with
  | nil => exact Copied.refl h
  | cons index indices ih =>
    have hstep := h.shareLeaf hnew hcopy hpath hroot hother hsource index
    exact hstep.trans (ih hstep.owned (hstep.at_path (by omega) hcopy)
      (hstep.at_source hroot (by omega) hsource))

/-- Where no entry is valid nothing is shared. -/
theorem foldl_shareLeaf_of_blank (indices : List Index)
    (h : ∀ index ∈ indices, child mmfr0 memory source index = none) :
    indices.foldl (shareLeaf source copy) memory = memory := by
  induction indices with
  | nil => rfl
  | cons index indices ih =>
    have hinvalid : ¬ Valid (memory.pages source index) := by
      intro hvalid
      have hnone := h index mem_cons_self
      unfold child at hnone
      rw [if_pos hvalid] at hnone
      cases hnone
    rw [foldl_cons]
    unfold shareLeaf
    rw [if_neg hinvalid]
    exact ih fun j hmem => h j (mem_cons_of_mem _ hmem)

theorem below_cons_some (hchild : child mmfr0 memory source index = some next)
    (indices : List Index) :
    below (child mmfr0 memory) tableEntries (height + 1) (index :: indices) source =
      (height, next) ::
        (below (child mmfr0 memory) tableEntries height tableEntries next ++
          below (child mmfr0 memory) tableEntries (height + 1) indices source) := by
  rw [below_cons, hchild, cons_append]

theorem below_cons_none (hchild : child mmfr0 memory source index = none) (indices : List Index) :
    below (child mmfr0 memory) tableEntries (height + 1) (index :: indices) source =
      below (child mmfr0 memory) tableEntries (height + 1) indices source := by
  rw [below_cons, hchild, nil_append]

theorem Quiet.head (hchild : child mmfr0 memory source index = some next)
    (h : Quiet mmfr0 memory (height + 1) (index :: indices) source (budget + 1)) :
    Quiet mmfr0 memory height tableEntries next budget := by
  have htables := h.2
  rw [below_cons_some hchild] at htables
  refine ⟨fun hzero j _ => ?_, fun found hmem => ?_⟩
  · exact htables next (hzero ▸ mem_cons_self) j
  · refine htables found (mem_cons_of_mem _ ?_)
    rw [take_append]
    exact mem_append_left _ hmem

theorem Quiet.tail (hchild : child mmfr0 memory source index = some next)
    (h : Quiet mmfr0 memory (height + 1) (index :: indices) source
      (budget + (below (child mmfr0 memory) tableEntries height tableEntries next).length + 1)) :
    Quiet mmfr0 memory (height + 1) indices source budget := by
  have htables := h.2
  rw [below_cons_some hchild] at htables
  refine ⟨fun hzero => absurd hzero (Nat.succ_ne_zero _), fun found hmem => ?_⟩
  refine htables found (mem_cons_of_mem _ ?_)
  rw [take_append, Nat.add_sub_cancel]
  exact mem_append_right _ hmem

theorem copyEntries_outcome (hnew : top ∉ roots) (height : Nat) (indices : List Index)
    (h : Owned mmfr0 memory (insert top roots) free)
    (hcopy : follow (child mmfr0 memory) top path = some copy) (hpath : path.length + height = 3)
    (hroot : root ∈ roots) (hother : other.length + height = 3)
    (hsource : follow (child mmfr0 memory) root other = some source) :
    CopyOutcome mmfr0 roots top path memory free
      (below (child mmfr0 memory) tableEntries height indices source).length
      (Quiet mmfr0 memory height indices source free.length)
      (copyEntries mmfr0 height indices source copy memory) := by
  induction height generalizing indices memory free path copy source other with
  | zero =>
    rw [copyEntries_zero]
    refine ⟨⟨free, copyEntries_leaves indices h hnew hcopy hpath hroot hother hsource,
      fun _ _ => rfl, fun _ heq => nomatch heq⟩, fun hquiet hnone => ?_⟩
    rw [leftMemory, foldl_shareLeaf_of_blank indices (hquiet.1 rfl)]
    exact hnone
  | succ height ih =>
    induction indices generalizing memory free with
    | nil =>
      exact ⟨⟨free, Copied.refl h, fun _ _ => rfl,
        fun _ heq => nomatch heq⟩, fun _ hnone => hnone⟩
    | cons index indices ihs =>
      rw [copyEntries, copyTree_cons, ← copyEntries]
      cases hchild : child mmfr0 memory source index with
      | none =>
        have hrest := ihs h hcopy hsource
        rw [below_cons_none hchild]
        refine ⟨hrest.copied, fun hquiet => hrest.leafFree ⟨by simp, ?_⟩⟩
        rw [← below_cons_none hchild]
        exact hquiet.2
      | some next =>
        have hnext : follow (child mmfr0 memory) root (other ++ [index]) = some next := by
          rw [follow_concat, hsource, bind_some, hchild]
        have hnextLen : (other ++ [index]).length + height = 3 := by
          rw [length_append, length_singleton]
          omega
        rw [below_cons_some hchild]
        cases hcreate : createTable memory with
        | none =>
          have hempty := h.createTable_eq_none.mp hcreate
          subst hempty
          exact ⟨⟨[], Copied.refl h, (fun _ heq => absurd heq (by simp)),
            fun _ _ => ⟨rfl, by simp⟩⟩, fun _ hnone => hnone⟩
        | some created =>
          obtain ⟨table, cleared⟩ := created
          obtain ⟨rest, rfl, hlink, htable, hfewer⟩ :=
            h.extendCopy hnew hcopy (by omega) index hcreate
          -- The subtree of this entry.
          have hsub := ih tableEntries hlink.owned htable
            (by rw [length_append, length_singleton]; omega) hnextLen
            (hlink.at_source hroot (by omega) hnext)
          rw [below_eq_of_tables hlink.source hroot (by omega) hnext] at hsub
          have hsubFree := fun
            (hquiet : Quiet mmfr0 memory (height + 1) (index :: indices) source
              (table :: rest).length) hleaf =>
            hsub.leafFree (Quiet.of_tables hlink.source hroot (by omega) hnext
              (Quiet.head hchild hquiet)) (LeafFree.fewer hleaf hfewer)
          obtain ⟨free', hcopied, hfinished, hstopped⟩ := hsub.copied
          dsimp only
          cases hresult : copyEntries mmfr0 height tableEntries next table
            (cleared.write copy index (tableEntry table)) with
          | error left =>
            rw [hresult] at hcopied hsubFree
            obtain ⟨hnone, hshort⟩ := hstopped left hresult
            refine ⟨⟨free', hlink.trans hcopied.shorten, (fun _ heq => absurd heq (by simp)),
              fun _ _ => ⟨hnone, ?_⟩⟩, hsubFree⟩
            simp only [length_cons, length_append]
            omega
          | ok left =>
            rw [hresult] at hcopied hsubFree
            have hcount := hfinished left hresult
            have hboth : Copied mmfr0 roots top path memory left free' :=
              hlink.trans hcopied.shorten
            -- The entries after it.
            have hrest := ihs hboth.owned (hboth.at_path (by omega) hcopy)
              (hboth.at_source hroot (by omega) hsource)
            rw [below_eq_of_tables hboth.source hroot (by omega) hsource] at hrest
            obtain ⟨free'', hfinal, hfinished', hstopped'⟩ := hrest.copied
            refine ⟨⟨free'', hboth.trans hfinal, fun final heq => ?_,
              fun last heq => ?_⟩, fun hquiet hleaf => ?_⟩
            · have hrestCount := hfinished' final heq
              simp only [length_cons, length_append]
              omega
            · obtain ⟨hnone, _⟩ := hstopped' last heq
              refine ⟨hnone, ?_⟩
              simp only [length_cons, length_append]
              omega
            · refine hrest.leafFree ?_ (hsubFree hquiet hleaf)
              rw [length_cons, hcount] at hquiet
              exact Quiet.of_tables hboth.source hroot (by omega) hsource
                (Quiet.tail hchild hquiet)

/-! ## What the loops keep -/

/-- What the innermost body of a copy has to do, where the tables of the copy and of
its source have been found: the memory it leaves, whether it stops or not, has one leaf
more in the copy, and `R` still holds. -/
def CopiesLeaf (mmfr0 : Word) (Good : Word → Prop) (reserved roots : Set Word) (top : Word)
    (leaf : Word → Word → PhysicalMemory → Index → Except PhysicalMemory PhysicalMemory)
    (R : PhysicalMemory → Prop) : Prop :=
  ∀ (memory : PhysicalMemory) (free : List Word) (path other : List Index)
    (copy source root : Word) (index : Index),
    Shielded mmfr0 Good reserved memory (insert top roots) free → R memory →
    path.length = 3 → follow (child mmfr0 memory) top path = some copy →
    root ∈ roots → other.length = 3 → follow (child mmfr0 memory) root other = some source →
    ∃ free', Shielded mmfr0 Good reserved (leftMemory (leaf source copy memory index))
        (insert top roots) free' ∧
      Copied mmfr0 roots top path memory (leftMemory (leaf source copy memory index)) free' ∧
      R (leftMemory (leaf source copy memory index))

/-- The loops of a copy keep what their innermost body keeps. -/
theorem copyTree_shielded
    {leaf : Word → Word → PhysicalMemory → Index → Except PhysicalMemory PhysicalMemory}
    {R : PhysicalMemory → Prop} (hgood : Linkable mmfr0 Good) (hnew : top ∉ roots)
    (hleaf : CopiesLeaf mmfr0 Good reserved roots top leaf R)
    (hlink : ∀ memory memory' : PhysicalMemory,
      SameTrees (child mmfr0 memory) (child mmfr0 memory') roots 3 →
      FewerLeaves mmfr0 memory memory' {top} → R memory → R memory') (height : Nat)
    (indices : List Index) (h : Shielded mmfr0 Good reserved memory (insert top roots) free)
    (hkept : R memory) (hcopy : follow (child mmfr0 memory) top path = some copy)
    (hpath : path.length + height = 3) (hroot : root ∈ roots) (hother : other.length + height = 3)
    (hsource : follow (child mmfr0 memory) root other = some source) :
    ∃ free', Shielded mmfr0 Good reserved
        (leftMemory (copyTree mmfr0 leaf height indices source copy memory))
        (insert top roots) free' ∧
      Copied mmfr0 roots top path memory
        (leftMemory (copyTree mmfr0 leaf height indices source copy memory)) free' ∧
      R (leftMemory (copyTree mmfr0 leaf height indices source copy memory)) := by
  induction height generalizing indices memory free path copy source other with
  | zero =>
    induction indices generalizing memory free with
    | nil => exact ⟨free, h, Copied.refl h.owned, hkept⟩
    | cons index indices ih =>
      obtain ⟨free', hshield, hcopied, hkept'⟩ := hleaf memory free path other copy source
        root index h hkept hpath hcopy hroot hother hsource
      rw [copyTree, foldlM_cons]
      cases hresult : leaf source copy memory index with
      | error left =>
        rw [hresult] at hshield hcopied hkept'
        exact ⟨free', hshield, hcopied, hkept'⟩
      | ok left =>
        rw [hresult] at hshield hcopied hkept'
        obtain ⟨free'', hfinal, hrest, hkept''⟩ := ih hshield hkept'
          (hcopied.at_path (by omega) hcopy) (hcopied.at_source hroot (by omega) hsource)
        exact ⟨free'', hfinal, hcopied.trans hrest, hkept''⟩
  | succ height ih =>
    induction indices generalizing memory free with
    | nil => exact ⟨free, h, Copied.refl h.owned, hkept⟩
    | cons index indices ihs =>
      rw [copyTree_cons]
      cases hchild : child mmfr0 memory source index with
      | none => exact ihs h hkept hcopy hsource
      | some next =>
        have hnext : follow (child mmfr0 memory) root (other ++ [index]) = some next := by
          rw [follow_concat, hsource, bind_some, hchild]
        cases hcreate : createTable memory with
        | none => exact ⟨free, h, Copied.refl h.owned, hkept⟩
        | some created =>
          obtain ⟨table, cleared⟩ := created
          obtain ⟨_, -, hlinked, htable, hfewer⟩ :=
            h.owned.extendCopy hnew hcopy (by omega) index hcreate
          obtain ⟨_, hshield⟩ := h.linkCopy index hcopy hgood (by omega) hcreate
          -- The subtree of this entry.
          obtain ⟨free', hsub, hcopied, hkept'⟩ := ih tableEntries hshield
            (hlink _ _ hlinked.sameTrees hfewer hkept) htable
            (by rw [length_append, length_singleton]; omega)
            (by rw [length_append, length_singleton]; omega)
            (hlinked.at_source hroot (by rw [length_append, length_singleton]; omega) hnext)
          have hboth := hlinked.trans hcopied.shorten
          dsimp only
          cases hresult : copyTree mmfr0 leaf height tableEntries next table
            (cleared.write copy index (tableEntry table)) with
          | error left =>
            rw [hresult] at hsub hboth hkept'
            exact ⟨free', hsub, hboth, hkept'⟩
          | ok left =>
            rw [hresult] at hsub hboth hkept'
            -- The entries after it.
            obtain ⟨free'', hfinal, hrest, hkept''⟩ := ihs hsub hkept'
              (hboth.at_path (by omega) hcopy)
              (hboth.at_source hroot (by omega) hsource)
            exact ⟨free'', hfinal, hboth.trans hrest, hkept''⟩

end Bazzulto.Memory
