/-
  Foundation/Checked.lean --- slices, vectors and machine integers whose
  operations stop the program when they are used out of range.

  `Checked` is the result of a computation that may stop; a `Fault` says why.
  Each operation has one lemma that gives the range in which it succeeds and
  its value there.

  Nothing in this file mentions the kernel.
-/
import Mathlib.Data.BitVec
import Mathlib.Data.List.Basic

set_option autoImplicit false

namespace Bazzulto.Foundation

open List

universe u

variable {α : Type u}

/-- Why a checked computation stops. -/
inductive Fault where
  | index
  | slice
  | overflow
  | division
  | allocation
  deriving DecidableEq, Repr

abbrev Checked (α : Type u) := Except Fault α

namespace Checked

/-- `&items[start..stop]`. -/
def range (items : List α) (start stop : Nat) : Checked (List α) :=
  if start ≤ stop ∧ stop ≤ items.length then .ok ((items.take stop).drop start)
  else .error .slice

/-- `items[start..stop].copy_from_slice(source)`. -/
def copyRange (items : List α) (start stop : Nat) (source : List α) : Checked (List α) :=
  if start ≤ stop ∧ stop ≤ items.length ∧ source.length = stop - start then
    .ok (items.take start ++ source ++ items.drop stop)
  else .error .slice

/-- `items.resize(length, fill)`: a vector holds at most `limit` elements. -/
def resize (limit : Nat) (items : List α) (length : Nat) (fill : α) : Checked (List α) :=
  if length ≤ limit then
    .ok (items.take length ++ replicate (length - items.length) fill)
  else .error .allocation

/-- Addition of 64-bit unsigned integers. -/
def add (a b : Nat) : Checked Nat :=
  if a + b < 2 ^ 64 then .ok (a + b) else .error .overflow

/-- Subtraction of unsigned integers. -/
def sub (a b : Nat) : Checked Nat :=
  if b ≤ a then .ok (a - b) else .error .overflow

/-- Multiplication of 64-bit unsigned integers. -/
def mul (a b : Nat) : Checked Nat :=
  if a * b < 2 ^ 64 then .ok (a * b) else .error .overflow

/-- The range of a 64-bit signed integer. -/
def Signed (value : Int) : Prop := -(2 ^ 63) ≤ value ∧ value < 2 ^ 63
  deriving Decidable

/-- Addition of 64-bit signed integers. -/
def addSigned (a b : Int) : Checked Int :=
  if Signed (a + b) then .ok (a + b) else .error .overflow

theorem range_ok {items : List α} {start stop : Nat} (hle : start ≤ stop)
    (hstop : stop ≤ items.length) : range items start stop = .ok ((items.take stop).drop start) :=
  if_pos ⟨hle, hstop⟩

theorem copyRange_ok {items source : List α} {start stop : Nat} (hle : start ≤ stop)
    (hstop : stop ≤ items.length) (hlen : source.length = stop - start) :
    copyRange items start stop source = .ok (items.take start ++ source ++ items.drop stop) :=
  if_pos ⟨hle, hstop, hlen⟩

theorem add_ok {a b : Nat} (h : a + b < 2 ^ 64) : add a b = .ok (a + b) := if_pos h

theorem sub_ok {a b : Nat} (h : b ≤ a) : sub a b = .ok (a - b) := if_pos h

theorem ite_bind {β : Type u} {condition : Prop} [Decidable condition] {value : α} {fault : Fault}
    {next : α → Checked β} : ((if condition then .ok value else .error fault) >>= next) =
      if condition then next value else .error fault := by
  split <;> rfl

/-! ## Postconditions -/

/-- A value satisfies `P`, and a fault is one of those allowed. -/
def Post (allowed : Fault → Prop) (P : α → Prop) : Checked α → Prop
  | .ok value => P value
  | .error fault => allowed fault

section Post

variable {β : Type u} {allowed : Fault → Prop} {P : α → Prop}

theorem Post.bind {Q : β → Prop} {first : Checked α} {next : α → Checked β}
    (hfirst : Post allowed P first) (hnext : ∀ value, P value → Post allowed Q (next value)) :
    Post allowed Q (first >>= next) := by
  cases first with
  | error fault => exact hfirst
  | ok value => exact hnext value hfirst

section

variable {Q : α → Prop} {result : Checked α} (hresult : Post allowed P result)
  (himp : ∀ value, P value → Q value)
include hresult himp

theorem Post.imp {allowed' : Fault → Prop} (hallowed : ∀ fault, allowed fault → allowed' fault) :
    Post allowed' Q result := by
  cases result with
  | error fault => exact hallowed fault hresult
  | ok value => exact himp value hresult

theorem Post.mono : Post allowed Q result := hresult.imp himp fun _ hfault => hfault

end

theorem Post.when {condition : Prop} {result : Checked α}
    (hresult : condition → Post allowed P result) :
    Post (fun fault => condition → allowed fault) (fun value => condition → P value) result := by
  cases result with
  | error | ok => exact hresult

theorem Post.and {Q : α → Prop} {result : Checked α} (hresult : Post allowed P result)
    (hother : Post (fun _ => True) Q result) :
    Post allowed (fun value => P value ∧ Q value) result := by
  cases result with
  | error fault => exact hresult
  | ok value => exact ⟨hresult, hother⟩

theorem post_of_allowed (hallowed : ∀ fault, allowed fault) (result : Checked α) :
    Post allowed (fun _ => True) result := by
  cases result with
  | error fault => exact hallowed fault
  | ok value => trivial

theorem post_of_eq {result : Checked α} {value : α} (hresult : result = .ok value) :
    Post allowed (fun actual => actual = value) result :=
  hresult ▸ rfl

theorem post_self (result : Checked α) :
    Post (fun _ => True) (fun value => result = .ok value) result := by
  cases result with
  | error fault => trivial
  | ok value => rfl

theorem Post.exists_ok {result : Checked α} (h : Post (fun _ => False) P result) :
    ∃ value, result = .ok value ∧ P value := by
  cases result with
  | error fault => exact h.elim
  | ok value => exact ⟨value, rfl, h⟩

/-- The invariant rule for a loop. -/
theorem Post.foldlM {body : α → β → Checked α}
    (hbody : ∀ state item, P state → Post allowed P (body state item)) (items : List β) :
    ∀ state, P state → Post allowed P (items.foldlM body state) := by
  induction items with
  | nil => exact fun state hstate => hstate
  | cons item items ih =>
    intro state hstate
    exact .bind (hbody state item hstate) ih

theorem length_of_copyRange {items source result : List α} {start stop : Nat}
    (hresult : copyRange items start stop source = .ok result) : result.length = items.length := by
  unfold copyRange at hresult
  split at hresult
  · obtain rfl := Except.ok.inj hresult
    rw [length_append, length_append, length_take, length_drop]
    omega
  · cases hresult

end Post

end Checked
end Bazzulto.Foundation
