/-
  Memory/Rollback.lean --- what a copy that runs out of pages gives back.

  `free_partial_copy` frees the tables of the copy and the pages its leaves map.
  That is right where nobody else has these pages: always for `deep_copy_user`, for
  `cow_copy_user` only as long as no leaf has been shared, since the pages it maps
  are the parent's.
-/
import Bazzulto.Memory.Copy

set_option autoImplicit false

namespace Bazzulto.Memory

open Foundation Foundation.Radix Nat Set List

variable {mmfr0 : Word} {Good : Word → Prop} {reserved : Set Word}
  {memory memory' memory'' : PhysicalMemory} {roots : Set Word} {free free' free'' : List Word}
  {top : Word} {path : List Index} {index : Index} {table root page source copy : Word}

/-! ## The rollback -/

/-- The pages of the tables below a table. -/
def tablesBelow (mmfr0 : Word) (memory : PhysicalMemory) (height : Nat)
    (indices : List Index) (table : Word) : List Word :=
  (below (child mmfr0 memory) tableEntries height indices table).map Prod.snd

theorem tablesBelow_cons_some {height : Nat} {next : Word}
    (hchild : child mmfr0 memory table index = some next) (indices : List Index) :
    tablesBelow mmfr0 memory (height + 1) (index :: indices) table =
      next :: (tablesBelow mmfr0 memory height tableEntries next ++
        tablesBelow mmfr0 memory (height + 1) indices table) := by
  rw [tablesBelow, below_cons_some hchild, map_cons, map_append]
  rfl

/-- Freeing the tables below a table in `free_partial_copy` order: exactly they
are added to the free list, and only their content changes. -/
structure Released (mmfr0 : Word) (roots : Set Word) (memory : PhysicalMemory)
    (free : List Word) (released : List Word) (memory' : PhysicalMemory)
    (free' : List Word) : Prop where
  owned : Owned mmfr0 memory' roots free'
  listed : ∀ page, page ∈ free' ↔ page ∈ released ∨ page ∈ free
  sameTrees : SameTrees (child mmfr0 memory) (child mmfr0 memory') roots 3
  content : ∀ page, page ∉ released → memory'.pages page = memory.pages page

namespace Released

variable {released : List Word}

theorem refl (h : Owned mmfr0 memory roots free) :
    Released mmfr0 roots memory free [] memory free :=
  ⟨h, fun page => by simp, fun _ _ _ _ => rfl, fun _ _ => rfl⟩

section

variable (h : Released mmfr0 roots memory free released memory' free')
include h

theorem trans {released' : List Word}
    (h' : Released mmfr0 roots memory' free' released' memory'' free'') :
    Released mmfr0 roots memory free (released ++ released') memory'' free'' where
  owned := h'.owned
  listed := fun page => by
    rw [h'.listed page, h.listed page, mem_append]
    tauto
  sameTrees := fun root hroot path hlen =>
    (h'.sameTrees root hroot path hlen).trans (h.sameTrees root hroot path hlen)
  content := fun page hnot => by
    rw [mem_append, not_or] at hnot
    rw [h'.content page hnot.2, h.content page hnot.1]

theorem loose (hloose : Loose mmfr0 memory roots free page) (hnot : page ∉ released) :
    Loose mmfr0 memory' roots free' page := by
  refine { hloose.frame h.sameTrees with notFree := ?_ }
  rw [h.listed page]
  rintro (hin | hin)
  · exact hnot hin
  · exact hloose.notFree hin

theorem freePage (hloose : Loose mmfr0 memory roots free page) (hnot : page ∉ released) :
    Released mmfr0 roots memory free (page :: released) (memory'.freePage page)
      (page :: free') := by
  obtain ⟨howned, hsame⟩ := h.owned.freePage (h.loose hloose hnot)
  refine ⟨howned, fun other => ?_, ?_, fun other hother => ?_⟩
  · rw [mem_cons, mem_cons, h.listed other, or_assoc]
  · exact fun root hroot path hlen =>
      (hsame root hroot path hlen).trans (h.sameTrees root hroot path hlen)
  · rw [mem_cons, not_or] at hother
    rw [memory'.freePage_pages_of_ne hother.1, h.content other hother.2]

end

end Released

section

variable {height : Nat} (indices : List Index) (h : Owned mmfr0 memory roots free)
  (hnodup : (table :: tablesBelow mmfr0 memory (height + 1) indices table).Nodup)
  (hloose : ∀ page ∈ tablesBelow mmfr0 memory (height + 1) indices table,
    Loose mmfr0 memory roots free page)
include h hnodup hloose

/-- The loop of `free_partial_copy` over the entries of a table, where `deeper` is what
it does below an entry. -/
theorem foldl_freePage_released (deeper : Word → PhysicalMemory → PhysicalMemory)
    (hdeeper : ∀ {memory : PhysicalMemory} {free : List Word} {next : Word},
      Owned mmfr0 memory roots free →
      (next :: tablesBelow mmfr0 memory height tableEntries next).Nodup →
      (∀ page ∈ tablesBelow mmfr0 memory height tableEntries next,
        Loose mmfr0 memory roots free page) →
      ∃ free', Released mmfr0 roots memory free
        (tablesBelow mmfr0 memory height tableEntries next) (deeper next memory) free') :
    ∃ free', Released mmfr0 roots memory free
      (tablesBelow mmfr0 memory (height + 1) indices table)
      (indices.foldl (fun memory index =>
        match child mmfr0 memory table index with
        | none => memory
        | some next => (deeper next memory).freePage next) memory) free' := by
  induction indices generalizing memory free with
  | nil => exact ⟨free, Released.refl h⟩
  | cons index indices ih =>
    rw [foldl_cons]
    cases hchild : child mmfr0 memory table index with
    | none =>
      rw [tablesBelow, below_cons_none hchild] at hnodup hloose ⊢
      exact ih h hnodup hloose
    | some next =>
      rw [tablesBelow_cons_some hchild] at hnodup hloose ⊢
      obtain ⟨hfirst, hnext⟩ := nodup_cons.mp hnodup
      obtain ⟨hnextNot, hparts⟩ := nodup_cons.mp hnext
      rw [mem_cons, mem_append, not_or, not_or] at hfirst
      rw [mem_append, not_or] at hnextNot
      obtain ⟨hdeepNodup, hrestNodup, hdisjoint⟩ := nodup_append.mp hparts
      obtain ⟨_, hdeep⟩ := hdeeper h (nodup_cons.mpr ⟨hnextNot.1, hdeepNodup⟩)
        (fun page hmem => hloose page (by simp [hmem]))
      have hfreed := hdeep.freePage (hloose next mem_cons_self) hnextNot.1
      have houtside : ∀ page ∈ tablesBelow mmfr0 memory (height + 1) indices table,
          page ∉ next :: tablesBelow mmfr0 memory height tableEntries next := by
        intro page hmem hin
        rcases mem_cons.mp hin with rfl | hbelow
        · exact hnextNot.2 hmem
        · exact hdisjoint page hbelow page hmem rfl
      -- The table and the rest of its tree are untouched so far.
      have hlater : tablesBelow mmfr0 ((deeper next memory).freePage next) (height + 1)
          indices table = tablesBelow mmfr0 memory (height + 1) indices table := by
        refine congrArg (List.map Prod.snd)
          (below_congr (fun j => ?_) fun level found hmem j => ?_)
        · exact child_congr mmfr0 (hfreed.content table (by simp [hfirst])) j
        · exact child_congr mmfr0 (hfreed.content found
            (houtside found (mem_map_of_mem hmem))) j
      obtain ⟨free₂, hrest⟩ := ih hfreed.owned
        (by rw [hlater]; exact nodup_cons.mpr ⟨hfirst.2.2, hrestNodup⟩)
        (fun page hmem => by
          rw [hlater] at hmem
          exact hfreed.loose (hloose page (by simp [hmem])) (houtside page hmem))
      rw [hlater] at hrest
      exact ⟨free₂, hfreed.trans hrest⟩

/-- `free_partial_copy` frees the tables below a table and the pages they map. -/
theorem freeEntries_released :
    ∃ free', Released mmfr0 roots memory free
      (tablesBelow mmfr0 memory (height + 1) indices table)
      (freeEntries mmfr0 height indices table memory) free' := by
  induction height generalizing indices memory free table with
  | zero =>
    exact foldl_freePage_released indices h hnodup hloose (fun _ memory => memory)
      fun howned _ _ => ⟨_, Released.refl howned⟩
  | succ height ih =>
    exact foldl_freePage_released indices h hnodup hloose (freeEntries mmfr0 height tableEntries)
      fun howned => ih tableEntries howned

end

theorem follow_framed (hpath : path ≠ []) (h : follow (child mmfr0 memory) root path = some page) :
    page &&& paMask mmfr0 = page := by
  rcases eq_nil_or_concat path with rfl | ⟨_, _, rfl⟩
  · exact absurd rfl hpath
  · rw [concat_eq_append, follow_concat] at h
    obtain ⟨_, -, hchild⟩ := Option.bind_eq_some_iff.mp h
    exact child_framed hchild

/-- The pages mapped in the tree of `top` are mapped once, in no tree of `roots`, and
not reserved. -/
def Private (mmfr0 : Word) (reserved : Set Word) (memory : PhysicalMemory)
    (roots : Set Word) (top : Word) : Prop :=
  ∀ (path : List Index) (page : Word), path.length = 4 →
    follow (child mmfr0 memory) top path = some page →
    page ∉ reserved ∧ ¬ IsMapped mmfr0 memory roots page ∧
      ∀ other : List Index, other.length = 4 →
        follow (child mmfr0 memory) top other = some page → other = path

theorem LeafFree.private (h : LeafFree mmfr0 memory top) :
    Private mmfr0 reserved memory roots top := by
  intro path _ hlen hfollow
  rw [h path hlen] at hfollow
  cases hfollow

/-- A table of the copy is in the hands of no other tree. -/
theorem Shielded.loose_of_copy (h : Shielded mmfr0 Good reserved memory (insert top roots) free)
    (hfollow : follow (child mmfr0 memory) top path = some page) (hnew : top ∉ roots)
    (hlen : path.length ≤ 3) (hframed : page &&& paMask mmfr0 = page) :
    Loose mmfr0 memory roots free page ∧ page ∉ reserved := by
  have htable : IsTable mmfr0 memory (insert top roots) page :=
    ⟨top, mem_insert _ _, path, hlen, hfollow⟩
  refine ⟨?_, fun hres => h.notTable page hres htable⟩
  exact
    { framed := hframed
      notFree := h.owned.tables page htable
      notTable := copy_not_table h.owned hnew hfollow hlen
      notMapped := fun hmapped =>
        (h.owned.leaves page (hmapped.mono (subset_insert _ _))).2 htable }

section

variable (h : Owned mmfr0 memory (insert top roots) free)
  (hfollow : follow (child mmfr0 memory) top path = some page)
include h hfollow

theorem Owned.loose_of_private (hprivate : Private mmfr0 reserved memory roots top)
    (hlen : path.length = 4) : Loose mmfr0 memory roots free page := by
  have hleaf := h.leaves page ⟨top, mem_insert _ _, path, hlen, hfollow⟩
  exact
    { framed := follow_framed (by rintro rfl; cases hlen) hfollow
      notFree := hleaf.1
      notTable := fun htable => hleaf.2 (htable.mono (subset_insert _ _))
      notMapped := (hprivate path page hlen hfollow).2.1 }

/-- Nothing is in two places of the copy. -/
theorem Owned.unique_of_private (hprivate : Private mmfr0 reserved memory roots top)
    {other : List Index} (hpath : path.length ≤ 4) (hother : other.length ≤ 4)
    (hfollow' : follow (child mmfr0 memory) top other = some page) : path = other := by
  have htop : top ∈ insert top roots := mem_insert _ _
  have hapart : ∀ {first second : List Index}, first.length = 4 → second.length ≤ 3 →
      follow (child mmfr0 memory) top first = some page →
      follow (child mmfr0 memory) top second ≠ some page := fun hfour hthree hleaf htable =>
    (h.leaves page ⟨top, htop, _, hfour, hleaf⟩).2 ⟨top, htop, _, hthree, htable⟩
  rcases lt_or_ge 3 path.length with _ | htable <;>
    rcases lt_or_ge 3 other.length with _ | htable'
  · exact (hprivate other page (by omega) hfollow').2.2 path (by omega) hfollow
  · exact absurd hfollow' (hapart (by omega) htable' hfollow)
  · exact absurd hfollow (hapart (by omega) htable hfollow')
  · exact (h.separated top htop top htop path other page htable htable' hfollow hfollow').2

end

theorem Shielded.release {released : List Word}
    (h : Shielded mmfr0 Good reserved memory roots free)
    (hreleased : Released mmfr0 roots memory free released memory' free')
    (hloose : ∀ page ∈ released, Loose mmfr0 memory roots free page ∧ page ∉ reserved) :
    Shielded mmfr0 Good reserved memory' roots free' := by
  refine h.of_content hreleased.owned (fun page hmem hin => ?_) fun table htable => ?_
  · rcases (hreleased.listed page).mp hin with hgone | hold
    · exact (hloose page hgone).2 hmem
    · exact h.notFree page hmem hold
  · exact hreleased.content table fun hgone => (hloose table hgone).1.notTable htable

/-- Where nobody else has the pages of a copy, the rollback gives back its tables and
pages and nothing else. -/
theorem Shielded.rollback (h : Shielded mmfr0 Good reserved memory (insert top roots) free)
    (hnew : top ∉ roots) (hprivate : Private mmfr0 reserved memory roots top)
    (hframed : top &&& paMask mmfr0 = top) :
    ∃ free', Shielded mmfr0 Good reserved ((freePartialCopy mmfr0 memory top).freePage top)
      roots free' := by
  have hroots := h.mono (subset_insert top roots)
  have hmem : ∀ page ∈ tablesBelow mmfr0 memory 4 userEntries top, ∃ index rest,
      (index :: rest).length ≤ 4 ∧
        follow (child mmfr0 memory) top (index :: rest) = some page := by
    intro page hin
    obtain ⟨⟨_, _⟩, hbelow, rfl⟩ := mem_map.mp hin
    obtain ⟨index, -, rest, hlen, hfollow⟩ := mem_below hbelow
    exact ⟨index, rest, by rw [length_cons]; omega, hfollow⟩
  have hloose : ∀ page ∈ top :: tablesBelow mmfr0 memory 4 userEntries top,
      Loose mmfr0 memory roots free page ∧ page ∉ reserved := by
    intro page hin
    rcases mem_cons.mp hin with rfl | hbelow
    · exact h.loose_of_copy (follow_nil page) hnew (zero_le 3) hframed
    obtain ⟨index, rest, hlen, hfollow⟩ := hmem page hbelow
    rcases lt_or_ge 3 (index :: rest).length with _ | htable
    · exact ⟨h.owned.loose_of_private hfollow hprivate (by omega),
        (hprivate _ page (by omega) hfollow).1⟩
    · exact h.loose_of_copy hfollow hnew htable (follow_framed (by simp) hfollow)
  have htop : top ∉ tablesBelow mmfr0 memory 4 userEntries top := by
    intro hin
    obtain ⟨_, _, hlen, hfollow⟩ := hmem top hin
    have hsame := h.owned.unique_of_private (follow_nil top) hprivate (by simp) hlen hfollow
    cases hsame
  have hnodup : (tablesBelow mmfr0 memory 4 userEntries top).Nodup :=
    nodup_below (nodup_finRange 512) ((nodup_finRange 512).filter _)
      fun path other page hpath hother hfollow =>
        h.owned.unique_of_private hfollow hprivate hpath hother
  obtain ⟨_, hreleased⟩ := freeEntries_released userEntries hroots.owned
    (nodup_cons.mpr ⟨htop, hnodup⟩)
    fun page hin => (hloose page (List.mem_cons_of_mem _ hin)).1
  have hfinal := hreleased.freePage (hloose top mem_cons_self).1 htop
  exact ⟨_, hroots.release hfinal hloose⟩

/-! ## A new root -/

/-- `create_table` for a root: one more tree, without leaves. -/
theorem Shielded.newRoot (hgood : Linkable mmfr0 Good)
    (h : Shielded mmfr0 Good reserved memory roots free)
    (hcreate : Memory.createTable memory = some (root, memory')) :
    ∃ rest, free = root :: rest ∧
      Shielded mmfr0 Good reserved memory' (insert root roots) rest ∧ root ∉ roots ∧
      root &&& paMask mmfr0 = root ∧ LeafFree mmfr0 memory' root := by
  obtain ⟨rest, hfree, hcleared, hloose, hroot, hzero⟩ := h.createTable hcreate
  refine ⟨rest, hfree, hcleared.insertRoot hgood hloose hroot hzero, fun hmem => ?_,
    hloose.framed, fun path hlen => ?_⟩
  · exact hloose.notTable ⟨root, hmem, [], by simp, rfl⟩
  rw [Option.eq_none_iff_forall_ne_some]
  intro _ hfound
  rw [(follow_of_blank (child_zeroPage mmfr0 hzero) hfound).1] at hlen
  cases hlen

/-- Tables are freed one after the other. -/
theorem freeTables_released (tables : List Word) (h : Owned mmfr0 memory roots free)
    (hnodup : tables.Nodup) (hloose : ∀ page ∈ tables, Loose mmfr0 memory roots free page) :
    ∃ free', Released mmfr0 roots memory free tables (freeTables memory tables) free' := by
  induction tables generalizing memory free with
  | nil => exact ⟨free, Released.refl h⟩
  | cons page tables ih =>
    obtain ⟨hnot, hrest⟩ := nodup_cons.mp hnodup
    have hfirst := (Released.refl h).freePage (hloose page mem_cons_self)
      not_mem_nil
    obtain ⟨free', hlater⟩ := ih hfirst.owned hrest fun other hmem =>
      hfirst.loose (hloose other (List.mem_cons_of_mem _ hmem)) (by
        rw [List.mem_singleton]
        rintro rfl
        exact hnot hmem)
    exact ⟨free', hfirst.trans hlater⟩

/-- The tables that a failed `map` has added to a tree nobody keeps are given back. -/
theorem Shielded.freeTables {tables : List Word}
    (h : Shielded mmfr0 Good reserved memory (insert top roots) free) (hnew : top ∉ roots)
    (hbranches : Branches mmfr0 memory top tables) :
    ∃ free', Shielded mmfr0 Good reserved (freeTables memory tables) roots free' ∧
      SameTrees (child mmfr0 memory) (child mmfr0 (Memory.freeTables memory tables)) roots 3 ∧
      ∀ page ∈ free', page ∈ tables ∨ page ∈ free := by
  have hroots := h.mono (subset_insert top roots)
  have hloose : ∀ page ∈ tables, Loose mmfr0 memory roots free page ∧ page ∉ reserved := by
    intro page hmem
    obtain ⟨_, hne, hlen, hfollow⟩ := hbranches.2 page hmem
    exact h.loose_of_copy hfollow hnew hlen (follow_framed hne hfollow)
  obtain ⟨free', hreleased⟩ := freeTables_released tables hroots.owned hbranches.1
    fun page hmem => (hloose page hmem).1
  exact ⟨free', hroots.release hreleased hloose, hreleased.sameTrees, fun page hmem =>
    (hreleased.listed page).mp hmem⟩

/-! ## `cow_copy_user` -/

/-- `cow_copy_user` has a page for every table of the copy, or runs out before it
reaches a table with a valid leaf. -/
def CopyFits (mmfr0 : Word) (memory : PhysicalMemory) (source : Word) (freePages : Nat) : Prop :=
  (below (child mmfr0 memory) tableEntries 3 userEntries source).length + 1 ≤ freePages ∨
    ∀ entry ∈ (below (child mmfr0 memory) tableEntries 3 userEntries source).take
        (freePages - 1),
      entry.1 = 0 → ∀ index : Index, child mmfr0 memory entry.2 index = none
  deriving Decidable

/-- Loops that run out of pages have shared no leaf by then. -/
theorem CopyFits.leafFree {cleared left : PhysicalMemory} (h : Owned mmfr0 memory roots free)
    (hsource : source ∈ roots) (hfits : CopyFits mmfr0 memory source free.length)
    (hcreate : Memory.createTable memory = some (copy, cleared))
    (hloops : copyEntries mmfr0 3 userEntries source copy cleared = .error left) :
    LeafFree mmfr0 left copy := by
  obtain ⟨rest, hfree, hrooted, hnew, -, hstart⟩ :=
    h.shielded.newRoot (durable_true mmfr0).toLinkable hcreate
  have hagree := h.createTable_child hcreate
  have hout := copyEntries_outcome hnew 3 userEntries hrooted.owned (follow_nil copy) rfl hsource
    (show ([] : List Index).length + 3 = 3 from rfl) (follow_nil source)
  rw [below_eq_of_tables hagree hsource (le_refl 3) (follow_nil source)] at hout
  obtain ⟨_, -, -, hstopped⟩ := hout.copied
  have hquiet : Quiet mmfr0 memory 3 userEntries source rest.length := by
    rw [hfree, length_cons] at hfits
    rcases hfits with _ | hquiet
    · have hshort := (hstopped left hloops).2
      omega
    · exact ⟨by simp, fun table hmem => hquiet (0, table) hmem rfl⟩
  have hleafFree := hout.leafFree
    (Quiet.of_tables hagree hsource (le_refl 3) (follow_nil source) hquiet) hstart
  rwa [hloops] at hleafFree

theorem copiesLeaf_shareLeaf (hgood : Durable mmfr0 Good) (hnew : top ∉ roots) :
    CopiesLeaf mmfr0 Good reserved roots top
      (fun source copy memory index => .ok (shareLeaf source copy memory index))
      fun _ => True :=
  fun _ free _ _ _ _ _ index h _ hpath hcopy hroot hother hsource =>
    ⟨free, h.shareLeaf index hcopy hgood hpath hroot hother hsource,
      h.owned.shareLeaf hnew hcopy hpath hroot hother hsource index, trivial⟩

/-- `cow_copy_user` keeps pages apart, with the copy as one more tree when it
succeeds. -/
theorem Shielded.cowCopyUser (hgood : Durable mmfr0 Good)
    (h : Shielded mmfr0 Good reserved memory roots free) (hsource : source ∈ roots)
    (hfits : CopyFits mmfr0 memory source free.length) :
    Outcome
      (fun copied => ∃ free', Shielded mmfr0 Good reserved copied.2 (insert copied.1 roots) free')
      (fun left => ∃ free', Shielded mmfr0 Good reserved left roots free')
      (cowCopyUser mmfr0 memory source) := by
  cases hcreate : Memory.createTable memory with
  | none =>
    rw [Memory.cowCopyUser, hcreate]
    exact .error ⟨free, h⟩
  | some created =>
    obtain ⟨copy, cleared⟩ := created
    obtain ⟨_, -, hrooted, hnew, hframed, -⟩ := h.newRoot hgood.toLinkable hcreate
    obtain ⟨free', hloops, -, -⟩ := copyTree_shielded hgood.toLinkable hnew
      (copiesLeaf_shareLeaf hgood hnew) (fun _ _ _ _ _ => trivial) 3 userEntries hrooted
      trivial (follow_nil copy) rfl hsource
      (show ([] : List Index).length + 3 = 3 from rfl) (follow_nil source)
    rw [← copyEntries] at hloops
    rw [Memory.cowCopyUser, hcreate]
    dsimp only
    cases hresult : copyEntries mmfr0 3 userEntries source copy cleared with
    | ok final =>
      rw [hresult] at hloops
      exact .ok ⟨free', hloops⟩
    | error left =>
      rw [hresult] at hloops
      exact .error (hloops.rollback hnew
        (CopyFits.leafFree h.owned hsource hfits hcreate hresult).private hframed)

/-! ## `deep_copy_user` -/

section

variable (h : Private mmfr0 reserved memory roots top)
  (hsame : SameTrees (child mmfr0 memory) (child mmfr0 memory') roots 3)
include h hsame

theorem Private.fewer (hfewer : FewerLeaves mmfr0 memory memory' {top}) :
    Private mmfr0 reserved memory' roots top := by
  intro path page hlen hfollow
  obtain ⟨hres, hmapped, honce⟩ := h path page hlen (hfewer top rfl path page hlen hfollow)
  refine ⟨hres, fun hnow => hmapped ((hsame.outer_iff page).mp hnow), fun other hother hfound => ?_⟩
  exact honce other hother (hfewer top rfl other page hother hfound)

/-- A leaf of the copy is set to a page in nobody's hands. -/
theorem Private.setLeaf {value : Option Word}
    (hloose : Loose mmfr0 memory (insert top roots) free page) (hpage : page ∉ reserved)
    (hsets : SetsAt (child mmfr0 memory) (child mmfr0 memory') (insert top roots) 3 top path copy
      index value) (hpath : path.length = 3) (hvalue : ∀ found, value = some found → found = page) :
    Private mmfr0 reserved memory' roots top := by
  -- A leaf of the copy is the new one or was there before.
  have hcases : ∀ (other : List Index) (found : Word), other.length = 4 →
      follow (child mmfr0 memory') top other = some found →
      (other = path ++ [index] ∧ found = page) ∨
        (found ≠ page ∧ follow (child mmfr0 memory) top other = some found) := by
    intro other found hlen hfound
    rcases hsets.follow_lowest hpath hsets.rooted hlen hfound with ⟨-, hother, hnew⟩ | ⟨-, hold⟩
    · exact .inl ⟨hother, hvalue found hnew⟩
    · refine .inr ⟨?_, hold⟩
      rintro rfl
      exact hloose.notMapped ⟨top, hsets.rooted, other, hlen, hold⟩
  intro other found hlen hfound
  rcases hcases other found hlen hfound with ⟨rfl, rfl⟩ | ⟨hne, hold⟩
  · refine ⟨hpage, fun hmapped => ?_, fun third hthird hagain => ?_⟩
    · exact hloose.notMapped
        (((hsame.outer_iff found).mp hmapped).mono (subset_insert _ _))
    · rcases hcases third found hthird hagain with ⟨hpath', -⟩ | ⟨hne, -⟩
      · exact hpath'
      · exact absurd rfl hne
  · obtain ⟨hres, hmapped, honce⟩ := h other found hlen hold
    refine ⟨hres, fun hnow => hmapped ((hsame.outer_iff found).mp hnow),
      fun third hthird hagain => ?_⟩
    rcases hcases third found hthird hagain with ⟨-, heq⟩ | ⟨-, hold'⟩
    · exact absurd heq hne
    · exact honce third hthird hold'

end

/-- A page is taken, filled and mapped in the copy. -/
theorem Shielded.placeLeaf {taken : PhysicalMemory} {word : Word}
    (h : Shielded mmfr0 Good reserved memory (insert top roots) free) (hnew : top ∉ roots)
    (hprivate : Private mmfr0 reserved memory roots top)
    (hcopy : follow (child mmfr0 memory) top path = some copy) (hpath : path.length = 3)
    (halloc : memory.alloc = some (page, taken)) (content : Page) (index : Index)
    (hentry : Good word) (htarget : word &&& paMask mmfr0 = page) :
    ∃ rest, Shielded mmfr0 Good reserved ((taken.fill page content).write copy index word)
        (insert top roots) rest ∧
      Copied mmfr0 roots top path memory ((taken.fill page content).write copy index word)
        rest ∧
      Private mmfr0 reserved ((taken.fill page content).write copy index word) roots top := by
  obtain ⟨rest, rfl, -, htaken, hloose, hpage⟩ := h.alloc halloc
  obtain ⟨_, hrest, -, hloose', hpages⟩ := h.owned.fresh halloc content
  obtain rfl := (cons.inj hrest).2
  have htop : top ∈ insert top roots := mem_insert _ _
  have hfilled := htaken.fill hloose.notFree hloose.notTable content
  have hkept := h.owned.sameEntries hpages
  have hsame := sameTrees_of_tables hkept
  have hcopy' := (hsame top htop path (by omega)).trans hcopy
  have hneither : Valid word → word &&& paMask mmfr0 ∉ rest ∧
      ¬ IsTable mmfr0 (taken.fill page content) (insert top roots) (word &&& paMask mmfr0) := by
    rw [htarget]
    exact fun _ => ⟨hloose'.notFree, hloose'.notTable⟩
  obtain ⟨howned, hsets⟩ := hfilled.owned.setLeaf htop hcopy' index word hpath hneither
  have hcopied : Copied mmfr0 roots top path memory
      ((taken.fill page content).write copy index word) rest := by
    refine ⟨howned, fun table htable j => ?_, fun other hlen hout => ?_⟩
    · rw [hsets.elsewhere table j (.inl ?_)]
      · exact hkept table (htable.mono (subset_insert _ _)) j
      · rintro rfl
        exact copy_not_table h.owned hnew hcopy (by omega) htable
    · rw [hsets.follow_outside htop other hlen (fun _ rest => hout index rest),
        hsame top htop other hlen]
  refine ⟨rest, hfilled.setLeaf htop hcopy' index hpath hentry hneither, hcopied, ?_⟩
  have hsource : SameTrees (child mmfr0 memory) (child mmfr0 (taken.fill page content)) roots 3 :=
    fun root hroot => hsame root (mem_insert_of_mem _ hroot)
  refine (hprivate.fewer hsource ?_).setLeaf ?_ hloose' hpage hsets hpath ?_
  · rintro root rfl other found hlen hfollow
    rwa [hsame root htop other (by omega)] at hfollow
  · intro root hroot other hlen
    rw [hcopied.sameTrees root hroot other hlen, hsource root hroot other hlen]
  · intro _ hfound
    split at hfound
    · exact (Option.some.inj hfound).symm.trans htarget
    · cases hfound

/-- The innermost body of `deep_copy_user` maps a page that nobody else has. -/
theorem copiesLeaf_copyLeaf (hgood : Durable mmfr0 Good) (hnew : top ∉ roots) :
    CopiesLeaf mmfr0 Good reserved roots top (copyLeaf mmfr0)
      fun memory => Private mmfr0 reserved memory roots top := by
  intro memory free path other _ source root index h hprivate hpath hcopy hroot hother hsource
  have hstay : ∃ free', Shielded mmfr0 Good reserved memory (insert top roots) free' ∧
      Copied mmfr0 roots top path memory memory free' ∧
      Private mmfr0 reserved memory roots top := ⟨free, h, Copied.refl h.owned, hprivate⟩
  unfold copyLeaf
  dsimp only
  split
  case isFalse => exact hstay
  case isTrue =>
      cases halloc : memory.alloc with
      | none => exact hstay
      | some taken =>
        obtain ⟨_, -, -, -, hloose, -⟩ := h.alloc halloc
        have hentry := hgood.moved hloose.framed (h.words source
          ⟨root, mem_insert_of_mem _ hroot, other, le_of_eq hother, hsource⟩ index)
        exact h.placeLeaf hnew hprivate hcopy hpath halloc _ index hentry
          (target_or mmfr0 hloose.framed (and_not_and mmfr0 _))

/-- `deep_copy_user` keeps pages apart: what it gives back when it fails is its own. -/
theorem Shielded.deepCopyUser (hgood : Durable mmfr0 Good)
    (h : Shielded mmfr0 Good reserved memory roots free) (hsource : source ∈ roots) :
    Outcome
      (fun copied => ∃ free', Shielded mmfr0 Good reserved copied.2 (insert copied.1 roots) free')
      (fun left => ∃ free', Shielded mmfr0 Good reserved left roots free')
      (deepCopyUser mmfr0 memory source) := by
  cases hcreate : Memory.createTable memory with
  | none =>
    rw [Memory.deepCopyUser, hcreate]
    exact .error ⟨free, h⟩
  | some created =>
    obtain ⟨copy, cleared⟩ := created
    obtain ⟨_, -, hrooted, hnew, hframed, hempty⟩ := h.newRoot hgood.toLinkable hcreate
    obtain ⟨free', hloops, -, hprivate⟩ := copyTree_shielded hgood.toLinkable hnew
      (copiesLeaf_copyLeaf hgood hnew)
      (fun _ _ hsame hfewer hprivate => hprivate.fewer hsame hfewer) 3 userEntries hrooted
      hempty.private (follow_nil copy) rfl hsource
      (show ([] : List Index).length + 3 = 3 from rfl) (follow_nil source)
    rw [Memory.deepCopyUser, hcreate]
    dsimp only
    cases hresult : copyTree mmfr0 (copyLeaf mmfr0) 3 userEntries source copy cleared with
    | ok final =>
      rw [hresult] at hloops
      exact .ok ⟨free', hloops⟩
    | error left =>
      rw [hresult] at hloops hprivate
      exact .error (hloops.rollback hnew hprivate hframed)

end Bazzulto.Memory
