/-
  Foundation/PriorityQueue.lean --- priority queues that are first in, first out
  within a rank.

  The reference queue is the list of what is pending in the order of arrival.  Its
  leader is the oldest element among those of the highest rank.  `arrange` is the
  other way to keep such a queue: a list in descending order of rank in which a new
  element goes behind its equals.  The head of that list is the leader, and taking
  the head off takes the leader out.

  Nothing in this file mentions the kernel.
-/
import Mathlib.Data.List.Find
import Mathlib.Data.List.Induction
import Mathlib.Order.Basic

set_option autoImplicit false

namespace Bazzulto.Foundation.PriorityQueue

open List Option

variable {α κ : Type*} [LinearOrder κ] (rank : α → κ)

/-! ## The reference queue -/

/-- No pending element has a higher rank. -/
def Leads (pending : List α) (x : α) : Prop := ∀ other ∈ pending, rank other ≤ rank x
  deriving Decidable

section

variable (pending : List α)

/-- The oldest element of the highest rank. -/
def leader : Option α := pending.find? fun x => Leads rank pending x

/-- The queue without its leader. -/
def dropLeader : List α := pending.eraseP fun x => Leads rank pending x

/-! ## The arranged queue -/

/-- Insert an element behind all that do not have a lower rank. -/
def insertBehind (x : α) : List α → List α
  | [] => [x]
  | y :: rest => if rank y < rank x then x :: y :: rest else y :: insertBehind x rest

/-- The arranged form of a queue. -/
def arrange : List α :=
  pending.foldl (fun arranged x => insertBehind rank x arranged) []

@[simp] theorem arrange_concat (x : α) :
    arrange rank (pending ++ [x]) = insertBehind rank x (arrange rank pending) := by
  simp [arrange]

@[simp] theorem mem_insertBehind {x y : α} {arranged : List α} :
    y ∈ insertBehind rank x arranged ↔ y = x ∨ y ∈ arranged := by
  induction arranged with
  | nil => simp [insertBehind]
  | cons z rest ih =>
    unfold insertBehind
    split
    · simp
    · rw [mem_cons, mem_cons]
      tauto

@[simp] theorem length_insertBehind (x : α) (arranged : List α) :
    (insertBehind rank x arranged).length = arranged.length + 1 := by
  induction arranged with
  | nil => rfl
  | cons z rest ih =>
    unfold insertBehind
    split
    · rfl
    · rw [length_cons, ih, length_cons]

@[simp] theorem length_arrange : (arrange rank pending).length = pending.length := by
  induction pending using reverseRecOn with
  | nil => rfl
  | append_singleton pending y ih => simp [ih]

end

/-! ## The head is the leader -/

theorem eraseP_congr {p q : α → Bool} {list : List α} (h : ∀ x ∈ list, p x = q x) :
    list.eraseP p = list.eraseP q := by
  induction list with
  | nil => rfl
  | cons x rest ih =>
    rw [eraseP_cons, eraseP_cons, h x mem_cons_self, ih fun y hmem => h y (mem_cons_of_mem x hmem)]

variable {pending : List α} {x y : α}

theorem leader_eq_some (h : leader rank pending = some x) :
    x ∈ pending ∧ Leads rank pending x :=
  ⟨mem_of_find?_eq_some h, by simpa using find?_some h⟩

/-- An old element leads the longer queue if it led before and the new one does not
rank higher. -/
theorem leads_concat :
    Leads rank (pending ++ [y]) x ↔ Leads rank pending x ∧ rank y ≤ rank x := by
  simp only [Leads, mem_append, mem_singleton]
  constructor
  · intro h
    exact ⟨fun other hmem => h other (.inl hmem), h y (.inr rfl)⟩
  · rintro ⟨hold, hnew⟩ other (hmem | rfl)
    · exact hold other hmem
    · exact hnew

/-- A new element that ranks higher than the leader is the new leader. -/
theorem leader_concat_of_lt (h : leader rank pending = some x)
    (hlt : rank x < rank y) :
    leader rank (pending ++ [y]) = some y ∧ dropLeader rank (pending ++ [y]) = pending := by
  have htop := (leader_eq_some rank h).2
  have hold : ∀ z ∈ pending, ¬ Leads rank (pending ++ [y]) z := fun z hmem hleads =>
    absurd ((leads_concat rank).mp hleads).2 (not_le.mpr ((htop z hmem).trans_lt hlt))
  have hnew : Leads rank (pending ++ [y]) y :=
    (leads_concat rank).mpr ⟨fun z hmem => (htop z hmem).trans hlt.le, le_refl _⟩
  constructor
  · rw [leader, find?_append, find?_eq_none.mpr (by simpa using hold)]
    simp [hnew]
  · rw [dropLeader, eraseP_append_right _ (by simpa using hold)]
    simp [hnew]

/-- Any other new element leaves the leader. -/
theorem leader_concat_of_le (h : leader rank pending = some x)
    (hle : rank y ≤ rank x) :
    leader rank (pending ++ [y]) = some x ∧
      dropLeader rank (pending ++ [y]) = dropLeader rank pending ++ [y] := by
  obtain ⟨hmem, htop⟩ := leader_eq_some rank h
  have hsame : ∀ z ∈ pending, Leads rank (pending ++ [y]) z ↔ Leads rank pending z := by
    intro z _
    rw [leads_concat]
    exact and_iff_left_of_imp fun hz => hle.trans (hz x hmem)
  have hfind : pending.find? (fun z => Leads rank (pending ++ [y]) z) = some x := by
    rw [← h]
    exact find?_congr fun z hz => decide_eq_decide.mpr (hsame z hz)
  constructor
  · rw [leader, find?_append, hfind, some_or]
  have hleads : decide (Leads rank (pending ++ [y]) x) = true :=
    decide_eq_true ((hsame x hmem).mpr htop)
  rw [dropLeader, dropLeader, eraseP_append_left
    (p := fun z => decide (Leads rank (pending ++ [y]) z)) hleads _ hmem]
  exact congrArg (· ++ [y]) (eraseP_congr fun z hz => decide_eq_decide.mpr (hsame z hz))

theorem leader_singleton (y : α) : leader rank [y] = some y ∧ dropLeader rank [y] = [] := by
  simp [leader, dropLeader, Leads]

/-- Only the empty queue has no leader. -/
theorem leader_eq_none (h : leader rank pending = none) : pending = [] := by
  induction pending using reverseRecOn with
  | nil => rfl
  | append_singleton pending y ih =>
    cases hold : leader rank pending with
    | none =>
      rw [ih hold, nil_append, (leader_singleton rank y).1] at h
      cases h
    | some x =>
      rcases lt_or_ge (rank x) (rank y) with hlt | hle
      · rw [(leader_concat_of_lt rank hold hlt).1] at h
        cases h
      · rw [(leader_concat_of_le rank hold hle).1] at h
        cases h

/-- The arranged queue begins with the leader, and goes on as the arranged form of the
rest. -/
theorem arrange_eq_cons (h : leader rank pending = some x) :
    arrange rank pending = x :: arrange rank (dropLeader rank pending) := by
  induction pending using reverseRecOn generalizing x with
  | nil => cases h
  | append_singleton pending y ih =>
    cases hold : leader rank pending with
    | none =>
      obtain rfl := leader_eq_none rank hold
      obtain ⟨hleader, hrest⟩ := leader_singleton rank y
      rw [nil_append, hleader, some.injEq] at h
      rw [nil_append, hrest, ← h]
      rfl
    | some z =>
      rw [arrange_concat, ih hold, insertBehind]
      rcases lt_or_ge (rank z) (rank y) with hlt | hle
      · obtain ⟨hleader, hrest⟩ := leader_concat_of_lt rank hold hlt
        rw [hleader, some.injEq] at h
        rw [if_pos hlt, hrest, ih hold, h]
      · obtain ⟨hleader, hrest⟩ := leader_concat_of_le rank hold hle
        rw [hleader, some.injEq] at h
        rw [if_neg (not_lt.mpr hle), hrest, arrange_concat, h]

/-! ## Putting the head back -/

/-- In descending order of rank. -/
def Descending (arranged : List α) : Prop :=
  arranged.Pairwise fun x y => rank y ≤ rank x

theorem descending_insertBehind {x : α} {arranged : List α} (h : Descending rank arranged) :
    Descending rank (insertBehind rank x arranged) := by
  induction arranged with
  | nil => exact pairwise_singleton _ x
  | cons y rest ih =>
    obtain ⟨hhead, hrest⟩ := pairwise_cons.mp h
    unfold insertBehind
    split
    next hlt =>
      refine pairwise_cons.mpr ⟨fun z hmem => ?_, h⟩
      rcases mem_cons.mp hmem with rfl | hmem
      · exact hlt.le
      · exact (hhead z hmem).trans hlt.le
    next hge =>
      refine pairwise_cons.mpr ⟨fun z hmem => ?_, ih hrest⟩
      rcases (mem_insertBehind rank).mp hmem with rfl | hmem
      · exact not_lt.mp hge
      · exact hhead z hmem

theorem descending_arrange (pending : List α) : Descending rank (arrange rank pending) := by
  induction pending using reverseRecOn with
  | nil => exact Pairwise.nil
  | append_singleton pending y ih =>
    rw [arrange_concat]
    exact descending_insertBehind rank ih

/-- The head of an arranged queue, inserted again, is the head exactly if every element
of its rank is equal to it. -/
theorem insertBehind_eq_cons_iff {x : α} {rest : List α} (h : Descending rank (x :: rest)) :
    insertBehind rank x rest = x :: rest ↔ ∀ y ∈ rest, rank y = rank x → y = x := by
  induction rest with
  | nil => simp [insertBehind]
  | cons y rest ih =>
    obtain ⟨hhead, hrest⟩ := pairwise_cons.mp h
    obtain ⟨hlower, -⟩ := pairwise_cons.mp hrest
    unfold insertBehind
    split
    next hlt =>
      refine iff_of_true rfl fun z hmem heq => ?_
      rcases mem_cons.mp hmem with rfl | hmem
      · exact absurd heq hlt.ne
      · exact absurd heq ((hlower z hmem).trans_lt hlt).ne
    next hge =>
      have hsame : rank y = rank x :=
        le_antisymm (hhead y mem_cons_self) (not_lt.mp hge)
      have hdescending : Descending rank (x :: rest) :=
        pairwise_cons.mpr ⟨fun z hmem => hhead z (mem_cons_of_mem y hmem),
          (pairwise_cons.mp hrest).2⟩
      rw [cons.injEq, forall_mem_cons]
      constructor
      · rintro ⟨rfl, hinsert⟩
        exact ⟨fun _ => rfl, (ih hdescending).mp hinsert⟩
      · rintro ⟨hy, hall⟩
        obtain rfl := hy hsame
        exact ⟨rfl, (ih hdescending).mpr hall⟩

end Bazzulto.Foundation.PriorityQueue
