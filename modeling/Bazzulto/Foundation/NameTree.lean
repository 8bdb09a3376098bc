/-
  Foundation/NameTree.lean --- trees whose edges have names.

  `child` gives the child of a node under a name, and a path is a list of names from the
  root.  In a `NameTree` every inner node lies on one path only; leaves may have several.
  `relink` changes what one node has under one name.  The results say where paths lead
  after one change, and after a leaf was moved by two.

  Nothing in this file mentions the kernel.
-/
import Mathlib.Data.List.Infix
import Mathlib.Data.Option.Basic

set_option autoImplicit false

namespace Bazzulto.Foundation

open List Option

variable {Node Label : Type*}

/-- Follow a path. -/
def walk (child : Node → Label → Option Node) (root : Node) (path : List Label) : Option Node :=
  path.foldlM child root

section Walk

variable {child : Node → Label → Option Node} {root : Node} {path : List Label}

@[simp] theorem walk_nil : walk child root [] = some root := rfl

theorem walk_cons (label : Label) (path : List Label) :
    walk child root (label :: path) = (child root label).bind fun node => walk child node path :=
  foldlM_cons

theorem walk_concat (path : List Label) (label : Label) :
    walk child root (path ++ [label]) = (walk child root path).bind fun node => child node label := by
  unfold walk
  rw [foldlM_append]
  cases path.foldlM child root with
  | none => rfl
  | some node =>
    change [label].foldlM child node = child node label
    rw [foldlM_cons]
    cases child node label with
    | none | some => rfl

theorem walk_concat_eq_some {label : Label} {node : Node} :
    walk child root (path ++ [label]) = some node ↔
      ∃ parent, walk child root path = some parent ∧ child parent label = some node := by
  rw [walk_concat, bind_eq_some_iff]

/-- Nothing lies below a leaf. -/
theorem walk_below_leaf {below : List Label} {leaf : Node}
    (hpath : walk child root path = some leaf) (hleaf : ∀ label, child leaf label = none)
    (hbelow : below ≠ []) : walk child root (path ++ below) = none := by
  obtain ⟨label, rest, rfl⟩ := exists_cons_of_ne_nil hbelow
  unfold walk at hpath ⊢
  rw [foldlM_append, hpath]
  change (label :: rest).foldlM child leaf = none
  rw [foldlM_cons, hleaf]
  rfl

end Walk

theorem not_prefix_of_concat (path : List Label) (label : Label) :
    ¬ (path ++ [label]) <+: path := by
  intro hbefore
  have hlen := hbefore.length_le
  rw [length_append, length_singleton] at hlen
  omega

/-! ## Trees -/

/-- Every inner node lies on one path, and only inner nodes have children. -/
structure NameTree (child : Node → Label → Option Node) (root : Node) (inner : Node → Prop) :
    Prop where
  unique : ∀ {path path' node}, inner node → walk child root path = some node →
    walk child root path' = some node → path = path'
  parent : ∀ {path node label next}, walk child root path = some node →
    child node label = some next → inner node

/-- Nodes with an address: that of an inner node is the one path to it. -/
theorem NameTree.of_address {child : Node → Label → Option Node} {root : Node}
    {inner : Node → Prop} (address : Node → List Label) (hroot : address root = [])
    (hchild : ∀ {node label next}, child node label = some next →
      inner node ∧ (inner next → address next = address node ++ [label])) :
    NameTree child root inner := by
  have hpath : ∀ path {node}, walk child root path = some node → inner node →
      path = address node := by
    intro path
    induction path using reverseRecOn with
    | nil =>
      rintro _ ⟨⟩ -
      exact hroot.symm
    | append_singleton path label ih =>
      intro node hwalk hinner
      obtain ⟨parent, hparent, hlabel⟩ := walk_concat_eq_some.mp hwalk
      obtain ⟨hinner', haddress⟩ := hchild hlabel
      rw [haddress hinner, ← ih hparent hinner']
  exact ⟨fun hinner h h' => (hpath _ h hinner).trans (hpath _ h' hinner).symm,
    fun _ h => (hchild h).1⟩

/-- Above an inner node there are only inner nodes. -/
theorem NameTree.inner_above {child : Node → Label → Option Node} {root : Node}
    {inner : Node → Prop} (tree : NameTree child root inner) {path below : List Label}
    {node : Node} (hnode : walk child root (path ++ below) = some node) (hinner : inner node) :
    ∃ middle, walk child root path = some middle ∧ inner middle := by
  unfold walk at hnode
  rw [foldlM_append] at hnode
  obtain ⟨middle, hmiddle, hbelow⟩ := bind_eq_some_iff.mp hnode
  refine ⟨middle, hmiddle, ?_⟩
  cases below with
  | nil =>
    cases hbelow
    exact hinner
  | cons label rest =>
    obtain ⟨_, hnext, -⟩ := bind_eq_some_iff.mp hbelow
    exact tree.parent hmiddle hnext

/-- A leaf under its old name, and the inner node that gets it under its new name. -/
structure Move (child : Node → Label → Option Node) (root : Node) (inner : Node → Prop)
    (source : Node) (home : List Label) (oldParent : Node) (oldName : Label)
    (place : List Label) (newParent : Node) (newName : Label) : Prop where
  home_path : walk child root home = some oldParent
  source_child : child oldParent oldName = some source
  leaf : ∀ label, child source label = none
  place_path : walk child root place = some newParent
  inner_parent : inner newParent
  parent_ne : newParent ≠ source
  names_ne : ¬ (newParent = oldParent ∧ newName = oldName)

namespace Move

variable {child : Node → Label → Option Node} {root : Node} {inner : Node → Prop}
  {source oldParent newParent : Node} {home place : List Label} {oldName newName : Label}
  (h : Move child root inner source home oldParent oldName place newParent newName)

include h

theorem old_path : walk child root (home ++ [oldName]) = some source :=
  walk_concat_eq_some.mpr ⟨oldParent, h.home_path, h.source_child⟩

theorem paths_ne : home ++ [oldName] ≠ place ++ [newName] := by
  intro heq
  obtain ⟨rfl, hname⟩ := append_inj' heq rfl
  have hsame := h.home_path.symm.trans h.place_path
  exact h.names_ne ⟨(some.inj hsame).symm, (cons.inj hname).1.symm⟩

/-- The new parent does not lie below the leaf. -/
theorem not_old_prefix_place : ¬ (home ++ [oldName]) <+: place := by
  rintro ⟨below, hbelow⟩
  have hplace := h.place_path
  rw [← hbelow] at hplace
  by_cases hnil : below = []
  · rw [hnil, append_nil, h.old_path] at hplace
    exact h.parent_ne (some.inj hplace).symm
  · rw [walk_below_leaf h.old_path h.leaf hnil] at hplace
    cases hplace

end Move

variable [DecidableEq Node] [DecidableEq Label]

/-- Change what a node has under a name. -/
def relink (child : Node → Label → Option Node) (node : Node) (label : Label)
    (value : Option Node) : Node → Label → Option Node :=
  fun other name => if other = node ∧ name = label then value else child other name

section Relink

variable {child : Node → Label → Option Node} {root node : Node} {label : Label}
  {value : Option Node}

theorem relink_self : relink child node label value node label = value := if_pos ⟨rfl, rfl⟩

theorem relink_of_ne {other : Node} {name : Label} (h : ¬ (other = node ∧ name = label)) :
    relink child node label value other name = child other name := if_neg h

/-- To put back what is there changes nothing. -/
theorem relink_same (h : child node label = value) : relink child node label value = child := by
  funext other name
  unfold relink
  split
  next hhere =>
    rw [hhere.1, hhere.2, h]
  · rfl

theorem relink_relink {value' : Option Node} :
    relink (relink child node label value) node label value' = relink child node label value' := by
  funext other name
  unfold relink
  split
  · rfl
  · rfl

end Relink

namespace NameTree

variable {child : Node → Label → Option Node} {root : Node} {inner : Node → Prop} {node : Node}
  {label : Label} {value : Option Node} {path : List Label}

section

variable (tree : NameTree child root inner) {place : List Label} (hinner : inner node)
  (hplace : walk child root place = some node)
include tree hinner hplace

/-- Paths that do not go through the changed place lead where they led. -/
theorem walk_relink (path : List Label) (hpath : ¬ (place ++ [label]) <+: path) :
    walk (relink child node label value) root path = walk child root path := by
  induction path using reverseRecOn with
  | nil => rfl
  | append_singleton path name ih =>
    have hnotbefore : ¬ (place ++ [label]) <+: path :=
      fun hbefore => hpath (hbefore.trans (prefix_append path [name]))
    rw [walk_concat, walk_concat, ih hnotbefore]
    cases hnode : walk child root path with
    | none => rfl
    | some other =>
      refine relink_of_ne fun hhere => hpath ?_
      obtain ⟨rfl, rfl⟩ := hhere
      rw [tree.unique hinner hnode hplace]

theorem walk_relink_self :
    walk (relink child node label value) root (place ++ [label]) = value := by
  rw [walk_concat, tree.walk_relink hinner hplace place (not_prefix_of_concat place label), hplace]
  exact relink_self

end

/-! ## Moving a leaf -/

/-- The children after the leaf was linked under its new name and unlinked from its old
one. -/
def move (child : Node → Label → Option Node) (source oldParent : Node) (oldName : Label)
    (newParent : Node) (newName : Label) : Node → Label → Option Node :=
  relink (relink child newParent newName (some source)) oldParent oldName none

variable {source oldParent newParent : Node} {home place : List Label} {oldName newName : Label}

theorem move_leaf (h : Move child root inner source home oldParent oldName place newParent newName)
    (label : Label) : move child source oldParent oldName newParent newName source label = none := by
  unfold move relink
  split
  · rfl
  split
  next hhere =>
    exact absurd hhere.1.symm h.parent_ne
  · exact h.leaf label

section

variable (tree : NameTree child root inner)
  (h : Move child root inner source home oldParent oldName place newParent newName)
include tree h

/-- Where paths lead after the move. -/
theorem walk_move (path : List Label) :
    walk (move child source oldParent oldName newParent newName) root path =
      if path = place ++ [newName] then some source
      else if (place ++ [newName]) <+: path ∨ (home ++ [oldName]) <+: path then none
      else walk child root path := by
  induction path using reverseRecOn with
  | nil => simp
  | append_singleton path name ih =>
    rw [walk_concat, ih]
    by_cases hnew : path ++ [name] = place ++ [newName]
    · obtain ⟨rfl, hname⟩ := append_inj' hnew rfl
      obtain rfl := (cons.inj hname).1
      have hself : path ≠ path ++ [name] := fun heq => by
        have hlen := congrArg length heq
        rw [length_append, length_singleton] at hlen
        omega
      rw [if_pos rfl, if_neg hself,
        if_neg (not_or.mpr ⟨not_prefix_of_concat path name, h.not_old_prefix_place⟩), h.place_path]
      change relink _ _ _ _ _ _ = _
      rw [relink_of_ne h.names_ne, relink_self]
    rw [if_neg hnew]
    by_cases hbelow : (place ++ [newName]) <+: path ++ [name]
    · rw [if_pos (Or.inl hbelow)]
      have hbefore := (prefix_concat_iff.mp hbelow).resolve_left fun heq => hnew heq.symm
      by_cases heq : path = place ++ [newName]
      · rw [if_pos heq]
        exact move_leaf h name
      · rw [if_neg heq, if_pos (Or.inl hbefore)]
        rfl
    have hnotbelow : ¬ (place ++ [newName]) <+: path :=
      fun hbefore => hbelow (hbefore.trans (prefix_append path [name]))
    have hnotnew : path ≠ place ++ [newName] := fun heq => hnotbelow (heq ▸ prefix_refl _)
    rw [if_neg hnotnew]
    by_cases hold : (home ++ [oldName]) <+: path ++ [name]
    · rw [if_pos (Or.inr hold)]
      rcases prefix_concat_iff.mp hold with heq | hbefore
      · obtain ⟨rfl, hname⟩ := append_inj' heq rfl
        obtain rfl := (cons.inj hname).1
        rw [if_neg (not_or.mpr ⟨hnotbelow, not_prefix_of_concat home oldName⟩), h.home_path]
        exact relink_self
      · rw [if_pos (Or.inr hbefore)]
        rfl
    · have hnotold : ¬ (home ++ [oldName]) <+: path :=
        fun hbefore => hold (hbefore.trans (prefix_append path [name]))
      rw [if_neg (not_or.mpr ⟨hnotbelow, hnotold⟩), if_neg (not_or.mpr ⟨hbelow, hold⟩), walk_concat]
      cases hnode : walk child root path with
      | none => rfl
      | some node =>
        change relink (relink _ _ _ _) _ _ _ node name = child node name
        rw [relink_of_ne, relink_of_ne]
        · rintro ⟨rfl, rfl⟩
          rw [tree.unique h.inner_parent hnode h.place_path] at hbelow
          exact hbelow (prefix_refl _)
        rintro ⟨rfl, rfl⟩
        have hinner := tree.parent h.home_path h.source_child
        rw [tree.unique hinner hnode h.home_path] at hold
        exact hold (prefix_refl _)

/-- What can be reached after the move. -/
theorem walk_move_eq_some :
    walk (move child source oldParent oldName newParent newName) root path = some node ↔
      (path = place ++ [newName] ∧ node = source) ∨
        (¬ (place ++ [newName]) <+: path ∧ ¬ (home ++ [oldName]) <+: path ∧
          walk child root path = some node) := by
  rw [tree.walk_move h]
  split
  next hnew =>
    constructor
    · exact fun heq => .inl ⟨hnew, (some.inj heq).symm⟩
    · rintro (⟨-, rfl⟩ | ⟨hnot, -⟩)
      · rfl
      · exact absurd (hnew ▸ prefix_refl _) hnot
  next hnew =>
    split
    next hcut =>
      constructor
      · intro hnone
        cases hnone
      · rintro (⟨heq, -⟩ | ⟨hnot, hnot', -⟩)
        · exact absurd heq hnew
        · exact absurd hcut (not_or.mpr ⟨hnot, hnot'⟩)
    next hcut =>
      rw [not_or] at hcut
      constructor
      · exact fun hnode => .inr ⟨hcut.1, hcut.2, hnode⟩
      · rintro (⟨heq, -⟩ | ⟨-, -, hnode⟩)
        · exact absurd heq hnew
        · exact hnode

/-- The tree stays a tree. -/
theorem move_tree :
    NameTree (move child source oldParent oldName newParent newName) root inner where
  unique := by
    intro path _ node hinner hpath hpath'
    rcases (tree.walk_move_eq_some h).mp hpath with ⟨rfl, rfl⟩ | ⟨_, hold, hnode⟩
    · rcases (tree.walk_move_eq_some h).mp hpath' with ⟨rfl, -⟩ | ⟨-, hold', hnode'⟩
      · rfl
      · rw [tree.unique hinner hnode' h.old_path] at hold'
        exact absurd (prefix_refl _) hold'
    · rcases (tree.walk_move_eq_some h).mp hpath' with ⟨rfl, rfl⟩ | ⟨-, -, hnode'⟩
      · rw [tree.unique hinner hnode h.old_path] at hold
        exact absurd (prefix_refl _) hold
      · exact tree.unique hinner hnode hnode'
  parent := by
    intro _ _ _ next hpath hchild
    rcases (tree.walk_move_eq_some h).mp hpath with ⟨-, rfl⟩ | ⟨-, -, hnode⟩
    · rw [move_leaf h] at hchild
      cases hchild
    unfold move relink at hchild
    split at hchild
    · cases hchild
    split at hchild
    next hhere =>
      exact hhere.1 ▸ h.inner_parent
    · exact tree.parent hnode hchild

/-- Everything that is not under the new name before can be reached afterwards. -/
theorem reachable_of_move (hnode : walk child root path = some node)
    (hpath : ¬ (place ++ [newName]) <+: path) :
    ∃ path', walk (move child source oldParent oldName newParent newName) root path' =
      some node := by
  by_cases hold : (home ++ [oldName]) <+: path
  · obtain ⟨below, rfl⟩ := hold
    by_cases hnil : below = []
    · rw [hnil, append_nil, h.old_path] at hnode
      exact ⟨_, (tree.walk_move_eq_some h).mpr (.inl ⟨rfl, (some.inj hnode).symm⟩)⟩
    · rw [walk_below_leaf h.old_path h.leaf hnil] at hnode
      cases hnode
  · exact ⟨path, (tree.walk_move_eq_some h).mpr (.inr ⟨hpath, hold, hnode⟩)⟩

/-- An inner node that had the new name cannot be reached any more. -/
theorem not_reachable_of_move {target : Node} (htarget : child newParent newName = some target)
    (hinner : inner target) (path : List Label) :
    walk (move child source oldParent oldName newParent newName) root path ≠ some target := by
  have hat : walk child root (place ++ [newName]) = some target :=
    walk_concat_eq_some.mpr ⟨newParent, h.place_path, htarget⟩
  intro hpath
  rcases (tree.walk_move_eq_some h).mp hpath with ⟨-, rfl⟩ | ⟨hnew, -, hnode⟩
  · exact h.paths_ne (tree.unique hinner h.old_path hat)
  · rw [tree.unique hinner hnode hat] at hnew
    exact hnew (prefix_refl _)

end

end NameTree
end Bazzulto.Foundation
