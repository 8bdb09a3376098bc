/-
  Foundation/Radix.lean --- forests of radix trees stored in a memory.

  A memory gives, for a node and an index, the node stored there:
  `child : Node → Index → Option Node`.  A path is a list of indices.  The trees
  of a set of roots have a fixed height: a node at most `height` steps from a
  root is an inner node, one at `height + 1` steps is an outer node.

  The question every user of such trees has is what one write does to all of
  them.  It has a short answer when no inner node is reached in two ways
  (`Separated`): the write changes the paths through the written entry and no
  others (`SetsAt.follow_outside`, `SetsAt.follow_inside`).

  Nothing in this file mentions the kernel.
-/
import Mathlib.Data.List.Induction
import Mathlib.Data.Set.Insert

set_option autoImplicit false

namespace Bazzulto.Foundation.Radix

open List Option

variable {Node Index : Type*} {node found : Node} {smaller : Set Node} {indices : List Index}

/-! ## Following a path -/

/-- The node at the end of a path. -/
def follow (child : Node → Index → Option Node) : Node → List Index → Option Node
  | node, [] => some node
  | node, index :: path => (child node index).bind fun next => follow child next path

variable {child child' : Node → Index → Option Node}

@[simp] theorem follow_nil (node : Node) : follow child node [] = some node := rfl

theorem follow_cons (node : Node) (index : Index) (path : List Index) :
    follow child node (index :: path) =
      (child node index).bind fun next => follow child next path := rfl

theorem follow_append (node : Node) (path rest : List Index) :
    follow child node (path ++ rest) =
      (follow child node path).bind fun next => follow child next rest := by
  induction path generalizing node with
  | nil => rfl
  | cons index path ih =>
    rw [cons_append, follow_cons, follow_cons]
    cases child node index with
    | none => rfl
    | some next => exact ih next

theorem follow_concat (node : Node) (path : List Index) (index : Index) :
    follow child node (path ++ [index]) =
      (follow child node path).bind fun next => child next index := by
  rw [follow_append]
  congr 1
  funext next
  rw [follow_cons]
  cases child next index <;> rfl

/-- From a node without entries only the empty path leads anywhere. -/
theorem follow_of_blank {path : List Index} (hblank : ∀ index, child node index = none)
    (h : follow child node path = some found) : path = [] ∧ node = found := by
  cases path with
  | nil => exact ⟨rfl, some.inj h⟩
  | cons index path =>
    rw [follow_cons, hblank index] at h
    cases h

/-! ## Inner and outer nodes -/

section

variable (child) (roots : Set Node) (height : Nat)

/-- At most `height` steps below one of the roots. -/
def Inner (node : Node) : Prop :=
  ∃ root ∈ roots, ∃ path : List Index, path.length ≤ height ∧ follow child root path = some node

/-- Just below the inner nodes. -/
def Outer (node : Node) : Prop :=
  ∃ root ∈ roots, ∃ path : List Index, path.length = height + 1 ∧ follow child root path = some node

/-- No inner node is reached in two ways. -/
def Separated : Prop :=
  ∀ root ∈ roots, ∀ other ∈ roots, ∀ (path path' : List Index) (node : Node),
    path.length ≤ height → path'.length ≤ height →
    follow child root path = some node → follow child other path' = some node →
    root = other ∧ path = path'

end

variable {roots : Set Node} {height : Nat}

theorem Inner.mono (hsub : smaller ⊆ roots) (h : Inner child smaller height node) :
    Inner child roots height node := by
  obtain ⟨root, hroot, rest⟩ := h
  exact ⟨root, hsub hroot, rest⟩

theorem Outer.mono (hsub : smaller ⊆ roots) (h : Outer child smaller height node) :
    Outer child roots height node := by
  obtain ⟨root, hroot, rest⟩ := h
  exact ⟨root, hsub hroot, rest⟩

theorem Separated.mono (hsub : smaller ⊆ roots) (h : Separated child roots height) :
    Separated child smaller height := by
  intro root hroot other hother
  exact h root (hsub hroot) other (hsub hother)

/-! ## Memories that agree on the inner nodes -/

/-- Two memories with the same entries in every inner node have the same
paths. -/
theorem follow_eq_of_agree
    (hagree : ∀ node, Inner child roots height node → ∀ index, child' node index = child node index)
    {root : Node} (hroot : root ∈ roots) (path : List Index) (hlen : path.length ≤ height + 1) :
    follow child' root path = follow child root path := by
  induction path using reverseRecOn with
  | nil => rfl
  | append_singleton path index ih =>
    rw [length_append, length_singleton] at hlen
    have hprev := ih (by omega)
    rw [follow_concat, follow_concat, hprev]
    cases hnode : follow child root path with
    | none => rfl
    | some node =>
      exact hagree node ⟨root, hroot, path, by omega, hnode⟩ index

/-- The trees of `roots` are the same in two memories. -/
def SameTrees (child child' : Node → Index → Option Node) (roots : Set Node)
    (height : Nat) : Prop :=
  ∀ root ∈ roots, ∀ path : List Index, path.length ≤ height + 1 →
    follow child' root path = follow child root path

namespace SameTrees

variable (h : SameTrees child child' roots height)
include h

theorem inner_iff (node : Node) :
    Inner child' roots height node ↔ Inner child roots height node := by
  refine exists_congr fun root => and_congr_right fun hroot => exists_congr fun path => ?_
  exact and_congr_right fun hlen => by rw [h root hroot path (by omega)]

theorem outer_iff (node : Node) :
    Outer child' roots height node ↔ Outer child roots height node := by
  refine exists_congr fun root => and_congr_right fun hroot => exists_congr fun path => ?_
  exact and_congr_right fun hlen => by rw [h root hroot path (by omega)]

theorem separated (hsep : Separated child roots height) : Separated child' roots height := by
  intro root hroot other hother path path' node hlen hlen' hfollow hfollow'
  rw [h root hroot path (by omega)] at hfollow
  rw [h other hother path' (by omega)] at hfollow'
  exact hsep root hroot other hother path path' node hlen hlen' hfollow hfollow'

end SameTrees

/-! ## Writing one entry -/

/-- `child'` is `child` with the entry `index` of `node` set to `value`. -/
structure Sets (child child' : Node → Index → Option Node) (node : Node)
    (index : Index) (value : Option Node) : Prop where
  here : child' node index = value
  elsewhere : ∀ other j, other ≠ node ∨ j ≠ index → child' other j = child other j

/-- The written entry is one of an inner node, at the end of `path₀` in the tree of
`root₀`. -/
structure SetsAt (child child' : Node → Index → Option Node) (roots : Set Node) (height : Nat)
    (root₀ : Node) (path₀ : List Index) (node : Node) (index : Index) (value : Option Node) : Prop
    extends Sets child child' node index value where
  separated : Separated child roots height
  rooted : root₀ ∈ roots
  inner : path₀.length ≤ height
  reached : follow child root₀ path₀ = some node

variable {root₀ root fresh : Node} {path₀ : List Index} {index : Index}

namespace SetsAt

variable {value : Option Node}
  (h : SetsAt child child' roots height root₀ path₀ node index value)
include h

/-- A path that does not go through the written entry is unchanged. -/
theorem follow_outside (hroot : root ∈ roots) (path : List Index)
    (hlen : path.length ≤ height + 1)
    (hout : root = root₀ → ∀ rest, path ≠ path₀ ++ index :: rest) :
    follow child' root path = follow child root path := by
  induction path using reverseRecOn with
  | nil => rfl
  | append_singleton path last ih =>
    rw [length_append, length_singleton] at hlen
    have hprev : follow child' root path = follow child root path := by
      refine ih (by omega) fun heq rest hpath => ?_
      refine hout heq (rest ++ [last]) ?_
      rw [hpath, append_assoc, cons_append]
    rw [follow_concat, follow_concat, hprev]
    cases hfound : follow child root path with
    | none => rfl
    | some found =>
      -- Only the written entry could differ, and it is reached in one way.
      refine h.elsewhere found last ?_
      by_contra hsame
      rw [not_or, not_not, not_not] at hsame
      obtain ⟨rfl, rfl⟩ := hsame
      obtain ⟨heq, hpath⟩ := h.separated root hroot root₀ h.rooted path path₀ found
        (by omega) h.inner hfound h.reached
      exact hout heq [] (by rw [hpath])

/-- A path through the written entry goes on from the written value. -/
theorem follow_inside (rest : List Index) :
    follow child' root₀ (path₀ ++ index :: rest) =
      value.bind fun next => follow child' next rest := by
  have hprefix : follow child' root₀ path₀ = some node := by
    rw [h.follow_outside h.rooted path₀ (Nat.le_succ_of_le h.inner) (fun _ rest heq => ?_),
      h.reached]
    have hlen := congrArg length heq
    rw [length_append, length_cons] at hlen
    omega
  rw [follow_append, hprefix, bind_some, follow_cons, h.here]

/-! ### Writing an entry of a lowest inner node -/

section

variable (hlowest : path₀.length = height)
include hlowest

/-- The inner nodes stay where they are. -/
theorem follow_leaf (hroot : root ∈ roots) (path : List Index) (hlen : path.length ≤ height) :
    follow child' root path = follow child root path := by
  refine h.follow_outside hroot path (by omega) ?_
  intro _ _ hpath
  have hlength := congrArg length hpath
  rw [length_append, length_cons] at hlength
  omega

theorem inner_leaf (found : Node) :
    Inner child' roots height found ↔ Inner child roots height found := by
  refine exists_congr fun root => and_congr_right fun hroot => exists_congr fun path => ?_
  exact and_congr_right fun hlen => by rw [h.follow_leaf hlowest hroot path hlen]

theorem separated_leaf : Separated child' roots height := by
  intro root hroot other hother path path' found hlen hlen' hfollow hfollow'
  rw [h.follow_leaf hlowest hroot path hlen] at hfollow
  rw [h.follow_leaf hlowest hother path' hlen'] at hfollow'
  exact h.separated root hroot other hother path path' found hlen hlen' hfollow hfollow'

/-- What a path to just below the inner nodes reaches: the written value, or what it
reached before. -/
theorem follow_lowest (hroot : root ∈ roots) {path : List Index}
    (hlen : path.length = height + 1) (hfound : follow child' root path = some found) :
    (root = root₀ ∧ path = path₀ ++ [index] ∧ value = some found) ∨
      (root, path) ≠ (root₀, path₀ ++ [index]) ∧ follow child root path = some found := by
  by_cases hhere : (root, path) = (root₀, path₀ ++ [index])
  · left
    rw [Prod.mk.injEq] at hhere
    rw [hhere.1, hhere.2, h.follow_inside []] at hfound
    refine ⟨hhere.1, hhere.2, ?_⟩
    cases value with
    | none => cases hfound
    | some next => exact hfound
  · right
    refine ⟨hhere, ?_⟩
    rw [← h.follow_outside hroot path (by omega), hfound]
    intro heq rest hpath
    have hlength := congrArg length hpath
    rw [length_append, length_cons] at hlength
    have hrest : rest = [] := length_eq_zero_iff.mp (by omega)
    subst hrest
    exact hhere (by rw [heq, hpath])

/-- A node just below the inner ones was there before, or is the written
value. -/
theorem outer_leaf (hfound : Outer child' roots height found) :
    value = some found ∨ ∃ root ∈ roots, ∃ path : List Index,
      path.length = height + 1 ∧ (root, path) ≠ (root₀, path₀ ++ [index]) ∧
        follow child root path = some found := by
  obtain ⟨root, hroot, path, hlen, hfollow⟩ := hfound
  rcases h.follow_lowest hlowest hroot hlen hfollow with ⟨-, -, hvalue⟩ | ⟨hother, hold⟩
  · exact .inl hvalue
  · exact .inr ⟨root, hroot, path, hlen, hother, hold⟩

end

end SetsAt

/-! ### Linking a blank node -/

/-- The entry is made to point at a node without entries that was no inner node. -/
structure LinksAt (child child' : Node → Index → Option Node) (roots : Set Node) (height : Nat)
    (root₀ : Node) (path₀ : List Index) (node : Node) (index : Index) (fresh : Node) : Prop
    extends SetsAt child child' roots height root₀ path₀ node index (some fresh) where
  blank : ∀ j, child fresh j = none
  notInner : ¬ Inner child roots height fresh

namespace LinksAt

variable (h : LinksAt child child' roots height root₀ path₀ node index fresh)
include h

/-- The paths through the new link end at the fresh node. -/
theorem follow_through {rest : List Index}
    (hfound : follow child' root₀ (path₀ ++ index :: rest) = some found) :
    rest = [] ∧ fresh = found := by
  rw [h.follow_inside rest] at hfound
  refine follow_of_blank (fun j => ?_) hfound
  rw [h.elsewhere fresh j (.inl ?_), h.blank j]
  rintro rfl
  exact h.notInner ⟨root₀, h.rooted, path₀, h.inner, h.reached⟩

/-- What a path of the linked trees reaches: the fresh node, through the link,
or what it reached before. -/
theorem follow_link (hroot : root ∈ roots) {path : List Index}
    (hlen : path.length ≤ height + 1) (hfound : follow child' root path = some found) :
    (root = root₀ ∧ path = path₀ ++ [index] ∧ fresh = found) ∨
      follow child root path = some found := by
  by_cases hthrough : root = root₀ ∧ ∃ rest, path = path₀ ++ index :: rest
  · obtain ⟨rfl, rest, rfl⟩ := hthrough
    obtain ⟨rfl, hfresh⟩ := h.follow_through hfound
    exact .inl ⟨rfl, rfl, hfresh⟩
  · right
    rw [← h.follow_outside hroot path hlen, hfound]
    intro heq rest hpath
    exact hthrough ⟨heq, rest, hpath⟩

theorem inner_link (hfound : Inner child' roots height found) :
    found = fresh ∨ Inner child roots height found := by
  obtain ⟨root, hroot, path, hlen, hfollow⟩ := hfound
  rcases h.follow_link hroot (by omega) hfollow with ⟨-, -, hfound⟩ | hfound
  · exact .inl hfound.symm
  · exact .inr ⟨root, hroot, path, hlen, hfound⟩

theorem outer_link (hinside : path₀.length < height) (hfound : Outer child' roots height found) :
    Outer child roots height found := by
  obtain ⟨root, hroot, path, hlen, hfollow⟩ := hfound
  rcases h.follow_link hroot (by omega) hfollow with ⟨-, hpath, -⟩ | hfound
  · have hlength := congrArg length hpath
    rw [length_append, length_singleton] at hlength
    omega
  · exact ⟨root, hroot, path, hlen, hfound⟩

theorem separated_link : Separated child' roots height := by
  intro root hroot other hother path path' found hlen hlen' hfollow hfollow'
  have hfirst := h.follow_link hroot (by omega) hfollow
  have hsecond := h.follow_link hother (by omega) hfollow'
  rcases hfirst with ⟨hr, hp, hf⟩ | hold <;> rcases hsecond with ⟨hr', hp', hf'⟩ | hold'
  · exact ⟨hr.trans hr'.symm, hp.trans hp'.symm⟩
  · exact absurd ⟨other, hother, path', hlen', hf ▸ hold'⟩ h.notInner
  · exact absurd ⟨root, hroot, path, hlen, hf' ▸ hold⟩ h.notInner
  · exact h.separated root hroot other hother path path' found hlen hlen' hold hold'

end LinksAt

/-! ## Adding a blank root -/

section

variable (hblank : ∀ index, child fresh index = none)

include hblank

theorem follow_insert (hroot : root ∈ insert fresh roots) {path : List Index}
    (h : follow child root path = some found) :
    (path = [] ∧ root = fresh ∧ found = fresh) ∨ root ∈ roots := by
  rcases Set.mem_insert_iff.mp hroot with rfl | hold
  · obtain ⟨hpath, hfound⟩ := follow_of_blank hblank h
    exact .inl ⟨hpath, rfl, hfound.symm⟩
  · exact .inr hold

theorem inner_insert (h : Inner child (insert fresh roots) height found) :
    found = fresh ∨ Inner child roots height found := by
  obtain ⟨root, hroot, path, hlen, hfollow⟩ := h
  rcases follow_insert hblank hroot hfollow with ⟨-, -, hfound⟩ | hold
  · exact .inl hfound
  · exact .inr ⟨root, hold, path, hlen, hfollow⟩

theorem outer_insert (h : Outer child (insert fresh roots) height found) :
    Outer child roots height found := by
  obtain ⟨root, hroot, path, hlen, hfollow⟩ := h
  rcases follow_insert hblank hroot hfollow with ⟨hpath, -, -⟩ | hold
  · rw [hpath] at hlen
    cases hlen
  · exact ⟨root, hold, path, hlen, hfollow⟩

theorem separated_insert (hsep : Separated child roots height)
    (hfresh : ¬ Inner child roots height fresh) : Separated child (insert fresh roots) height := by
  intro root hroot other hother path path' found hlen hlen' hfollow hfollow'
  rcases follow_insert hblank hroot hfollow with ⟨hp, hr, hf⟩ | hold <;>
    rcases follow_insert hblank hother hfollow' with ⟨hp', hr', hf'⟩ | hold'
  · exact ⟨hr.trans hr'.symm, hp.trans hp'.symm⟩
  · exact absurd ⟨other, hold', path', hlen', hf ▸ hfollow'⟩ hfresh
  · exact absurd ⟨root, hold, path, hlen, hf' ▸ hfollow⟩ hfresh
  · exact hsep root hold other hold' path path' found hlen hlen' hfollow hfollow'

end

/-! ## The nodes of a tree in the order a depth-first walk meets them -/

section

variable (child) (all : List Index)

/-- The nodes at most `height` steps below `node`, itself excluded, in
depth-first order, each with the number of levels below it.  `indices` are the
entries of `node` that are walked, `all` those of every other node. -/
def below : Nat → List Index → Node → List (Nat × Node)
  | 0, _, _ => []
  | height + 1, indices, node =>
    indices.flatMap fun index =>
      match child node index with
      | none => []
      | some next => (height, next) :: below height all next

theorem below_cons (height : Nat) (index : Index) (indices : List Index) (node : Node) :
    below child all (height + 1) (index :: indices) node = (match child node index with
        | none => []
        | some next => (height, next) :: below child all height all next) ++
        below child all (height + 1) indices node := by
  rw [below, below, flatMap_cons]

end

variable {all : List Index}

/-- A node of the walk lies on a path through one of the walked entries. -/
theorem mem_below {level : Nat} (h : (level, found) ∈ below child all height indices node) :
    ∃ index ∈ indices, ∃ rest : List Index, rest.length + level + 1 = height ∧
      follow child node (index :: rest) = some found := by
  induction height generalizing indices node with
  | zero => simp [below] at h
  | succ height ih =>
    rw [below, mem_flatMap] at h
    obtain ⟨index, hidx, hmem⟩ := h
    cases hchild : child node index with
    | none => simp [hchild] at hmem
    | some next =>
      rw [hchild, mem_cons] at hmem
      rcases hmem with heq | hdeep
      · rw [Prod.mk.injEq] at heq
        refine ⟨index, hidx, [], by simp [heq.1], ?_⟩
        rw [follow_cons, hchild, bind_some, heq.2, follow_nil]
      · obtain ⟨j, -, rest, _, hfollow⟩ := ih hdeep
        refine ⟨index, hidx, j :: rest, by rw [length_cons]; omega, ?_⟩
        rw [follow_cons, hchild, bind_some, hfollow]

/-- The walk depends on the entries of the nodes it visits only. -/
theorem below_congr (hnode : ∀ index, child' node index = child node index)
    (hbelow : ∀ level found, (level, found) ∈ below child all height indices node →
      ∀ index, child' found index = child found index) :
    below child' all height indices node = below child all height indices node := by
  induction height generalizing indices node with
  | zero => rfl
  | succ height ih =>
    induction indices with
    | nil => rfl
    | cons index indices ihs =>
      rw [below_cons] at hbelow
      rw [below_cons, below_cons, hnode index]
      rw [ihs fun level found hmem =>
        hbelow level found (mem_append.mpr (.inr hmem))]
      cases hchild : child node index with
      | none => rfl
      | some next =>
        rw [hchild] at hbelow
        have hnext := hbelow height next (by simp)
        have hrec : below child' all height all next = below child all height all next :=
          ih hnext fun level found hmem => hbelow level found (by simp [hmem])
        simp [hrec]

/-- Where paths are unique the walk meets every node once. -/
theorem nodup_below (hall : all.Nodup) (hindices : indices.Nodup)
    (hunique : ∀ (path path' : List Index) (found : Node), path.length ≤ height →
      path'.length ≤ height → follow child node path = some found →
      follow child node path' = some found → path = path') :
    ((below child all height indices node).map Prod.snd).Nodup := by
  induction height generalizing indices node with
  | zero => exact nodup_nil
  | succ height ih =>
    induction indices with
    | nil => exact nodup_nil
    | cons index indices ihs =>
      rw [nodup_cons] at hindices
      rw [below_cons, map_append]
      have hrest := ihs hindices.2
      cases hchild : child node index with
      | none => exact hrest
      | some next =>
        have hstep : ∀ path : List Index, follow child node (index :: path) =
            follow child next path := by
          intro path
          rw [follow_cons, hchild, bind_some]
        have hsub : ((below child all height all next).map Prod.snd).Nodup := by
          refine ih hall fun path path' found hlen hlen' hfollow hfollow' => ?_
          have heq := hunique (index :: path) (index :: path') found
            (by rw [length_cons]; omega) (by rw [length_cons]; omega)
            ((hstep path).trans hfollow) ((hstep path').trans hfollow')
          exact (cons.inj heq).2
        -- The head of a path to a node tells the entry it was met through.
        have hpath : ∀ found, found ∈ next :: (below child all height all next).map
            Prod.snd → ∃ rest, (index :: rest).length ≤ height + 1 ∧
              follow child node (index :: rest) = some found := by
          intro found hmem
          rcases mem_cons.mp hmem with rfl | hdeep
          · exact ⟨[], by simp, by rw [hstep, follow_nil]⟩
          obtain ⟨⟨level, found'⟩, hin, rfl⟩ := mem_map.mp hdeep
          obtain ⟨j, -, rest, hlen, hfollow⟩ := mem_below hin
          refine ⟨j :: rest, by simp only [length_cons]; omega, ?_⟩
          rw [hstep, hfollow]
        rw [nodup_append]
        refine ⟨?_, hrest, ?_⟩
        · rw [map_cons, nodup_cons]
          refine ⟨fun hmem => ?_, hsub⟩
          obtain ⟨⟨level, found⟩, hin, heq⟩ := mem_map.mp hmem
          obtain ⟨j, -, rest, hlen, hfollow⟩ := mem_below hin
          have hsame := hunique [index] (index :: j :: rest) next
            (by rw [length_singleton]; omega)
            (by simp only [length_cons]; omega)
            (by rw [hstep, follow_nil])
            (by rw [hstep, hfollow]; exact congrArg some heq)
          cases hsame
        · rintro found hmem _ hother rfl
          obtain ⟨rest, hlen, hfollow⟩ := hpath found hmem
          obtain ⟨⟨_, _⟩, hin, heq⟩ := mem_map.mp hother
          obtain ⟨j, hj, rest', _, hfollow'⟩ := mem_below hin
          have hsame := hunique (index :: rest) (j :: rest') found hlen
            (by rw [length_cons]; omega) hfollow
            (by rw [hfollow']; exact congrArg some heq)
          exact hindices.1 ((cons.inj hsame).1 ▸ hj)

end Bazzulto.Foundation.Radix
