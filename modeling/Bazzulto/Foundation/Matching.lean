/-
  Foundation/Matching.lean --- pairs that point at each other.

  `R a b` says that `a` points at `b`.  Everything points at one thing at most by the
  shape of the data; `Matched` says that nothing is pointed at twice and that pointing is
  mutual, except at things that are excused.

  Nothing in this file mentions the kernel.
-/
import Mathlib.Data.Set.Basic

set_option autoImplicit false

namespace Bazzulto.Foundation

variable {V : Type*} {R : V → V → Prop} {excused : Set V}

/-- Pointing is mutual, except at the excused, and nothing is pointed at twice. -/
structure Matched (R : V → V → Prop) (excused : Set V) : Prop where
  back : ∀ {a b}, R a b → (R b a ∧ a ≠ b) ∨ b ∈ excused
  unique : ∀ {a a' b}, R a b → R a' b → a = a'

/-- `a` no longer points anywhere. -/
def Detached (R : V → V → Prop) (a : V) : V → V → Prop := fun x y => x ≠ a ∧ R x y

/-- `a` and `b` point at each other, and no longer elsewhere. -/
def Rewired (R : V → V → Prop) (a b : V) : V → V → Prop := fun x y =>
  (x = a ∧ y = b) ∨ (x = b ∧ y = a) ∨ (x ≠ a ∧ x ≠ b ∧ R x y)

namespace Matched

theorem mono {more : Set V} (h : Matched R excused) (hsub : excused ⊆ more) : Matched R more where
  back hab := (h.back hab).imp_right fun hb => hsub hb
  unique := h.unique

/-- What others point at may let go only if it is excused. -/
theorem detach (h : Matched R excused) {a : V} (ha : ∀ x, x ≠ a → R x a → a ∈ excused) :
    Matched (Detached R a) excused where
  back := by
    rintro x y ⟨hx, hxy⟩
    obtain rfl | hy := eq_or_ne y a
    · exact .inr (ha x hx hxy)
    · exact (h.back hxy).imp_left fun hback => ⟨⟨hy, hback.1⟩, hback.2⟩
  unique hx hx' := h.unique hx.2 hx'.2

/-- Two things that nothing else points at may be joined. -/
theorem rewire (h : Matched R excused) {a b : V} (hne : a ≠ b)
    (ha : ∀ x, x ≠ a → x ≠ b → ¬ R x a) (hb : ∀ x, x ≠ a → x ≠ b → ¬ R x b) :
    Matched (Rewired R a b) excused where
  back := by
    rintro x y (⟨rfl, rfl⟩ | ⟨rfl, rfl⟩ | ⟨hxa, hxb, hxy⟩)
    · exact .inl ⟨.inr (.inl ⟨rfl, rfl⟩), hne⟩
    · exact .inl ⟨.inl ⟨rfl, rfl⟩, hne.symm⟩
    have hya : y ≠ a := fun heq => ha x hxa hxb (heq ▸ hxy)
    have hyb : y ≠ b := fun heq => hb x hxa hxb (heq ▸ hxy)
    exact (h.back hxy).imp_left fun hback =>
      ⟨.inr (.inr ⟨hya, hyb, hback.1⟩), hback.2⟩
  unique := by
    rintro x x' _ (⟨rfl, rfl⟩ | ⟨rfl, rfl⟩ | ⟨hxa, hxb, hxy⟩)
      (⟨rfl, hy⟩ | ⟨rfl, hy⟩ | ⟨hxa', hxb', hxy'⟩)
    · rfl
    · exact absurd hy.symm hne
    · exact absurd hxy' (hb x' hxa' hxb')
    · exact absurd hy hne
    · rfl
    · exact absurd hxy' (ha x' hxa' hxb')
    · exact absurd (hy ▸ hxy) (hb x hxa hxb)
    · exact absurd (hy ▸ hxy) (ha x hxa hxb)
    · exact h.unique hxy hxy'

end Matched

end Bazzulto.Foundation
