/-
  Process/Identity.lean --- the calls that change the user and group ids.

  Embeds `sys_setuid`, `sys_setgid`, `sys_seteuid`, `sys_setegid`, `sys_setreuid`
  and `sys_setregid` (kernel/src/systemcalls/identity.rs) on the six id fields of
  a process, and what `sys_exec` (kernel/src/systemcalls/process.rs) does with them.
  The calls on the group ids have the text of those on the user ids, with one
  difference: privilege is always `euid == 0`, never `egid == 0`.
-/
import Mathlib.Data.List.Basic

set_option autoImplicit false

namespace Bazzulto

open List

/-- `uid`, `euid` and `suid` of a process, or `gid`, `egid` and `sgid`. -/
structure Ids where
  real : UInt32
  effective : UInt32
  saved : UInt32
  deriving DecidableEq, Repr

/-- The id fields of a process. -/
structure Identity where
  user : Ids
  group : Ids
  deriving DecidableEq, Repr

/-- `u32::MAX`, by which `setreuid` and `setregid` leave a field as it is. -/
def noChange : UInt32 := 0xFFFFFFFF

/-- The return value of a refused call, `EPERM`. -/
def eperm : Int := -1

namespace Ids

variable {ids next : Ids}

/-- The ids that occur in the three fields. -/
def held (ids : Ids) : List UInt32 := [ids.real, ids.effective, ids.saved]

theorem mem_held {id : UInt32} :
    id ∈ ids.held ↔ id = ids.real ∨ id = ids.effective ∨ id = ids.saved := by
  simp [held]

/-! ## One triple -/

section

variable (ids : Ids) (privileged : Bool)

/-- The body of `sys_setuid` and `sys_setgid`. -/
def set (new : UInt32) : Option Ids :=
  if privileged then some ⟨new, new, new⟩
  else if new = ids.real ∨ new = ids.saved then some { ids with effective := new }
  else none

/-- The body of `sys_seteuid` and `sys_setegid`. -/
def setEffective (new : UInt32) : Option Ids :=
  if privileged ∨ new = ids.real ∨ new = ids.saved then
    some { ids with effective := new }
  else none

/-- The body of `sys_setreuid` and `sys_setregid`. -/
def setBoth (real effective : UInt32) : Option Ids :=
  if real ≠ noChange ∧ !privileged ∧ real ≠ ids.real ∧ real ≠ ids.effective then none
  else if effective ≠ noChange ∧ !privileged ∧ effective ≠ ids.real ∧
      effective ≠ ids.effective ∧ effective ≠ ids.saved then none
  else
    let newEffective := if effective ≠ noChange then effective else ids.effective
    some
      { real := if real ≠ noChange then real else ids.real
        effective := newEffective
        -- The saved id follows the new effective one, unless only that was given
        -- and it is the old real id.
        saved :=
          if real ≠ noChange ∨ (effective ≠ noChange ∧ effective ≠ ids.real) then
            newEffective
          else ids.saved }

end

/-- What `sys_exec` does with one triple; `new` is the owner of a file with the set-id bit,
or `u32::MAX`. -/
def exec (ids : Ids) (new : UInt32) : Ids :=
  if new ≠ noChange then { ids with effective := new, saved := new }
  else { ids with saved := ids.effective }

@[simp] theorem exec_real (ids : Ids) (new : UInt32) : (ids.exec new).real = ids.real := by
  unfold exec
  split
  · rfl
  · rfl

/-- Without privilege `set` brings in no id. -/
theorem set_held {new : UInt32} (h : ids.set false new = some next) : next.held ⊆ ids.held := by
  obtain ⟨hnew, h⟩ := Option.ite_none_right_eq_some.mp h
  cases h
  intro _ hid
  simp only [mem_held] at hid ⊢
  rcases hid with hid | hid | hid
  · exact .inl hid
  · rw [hid]
    exact hnew.imp_right .inr
  · exact .inr (.inr hid)

theorem setEffective_eq_set (ids : Ids) (new : UInt32) :
    ids.setEffective false new = ids.set false new := by
  simp [setEffective, set]

/-- Without privilege `setBoth` brings in no id. -/
theorem setBoth_held {real effective : UInt32} (h : ids.setBoth false real effective = some next) :
    next.held ⊆ ids.held := by
  unfold setBoth at h
  split at h
  · cases h
  rename_i hreal
  split at h
  · cases h
  rename_i heffective
  cases h
  simp only [Bool.not_false, true_and, not_and, Decidable.not_not] at hreal heffective
  have hnew : (if effective ≠ noChange then effective else ids.effective) ∈ ids.held := by
    split
    next hgiven =>
      simp only [mem_held]
      by_contra hnot
      simp only [not_or] at hnot
      exact hnot.2.2 (heffective hgiven hnot.1 hnot.2.1)
    · simp [mem_held]
  intro _ hid
  rcases mem_held.mp hid with hid | hid | hid
  · split at hid
    next hgiven =>
      rw [hid, mem_held]
      by_cases hold : real = ids.real
      · exact .inl hold
      · exact .inr (.inl (hreal hgiven hold))
    · exact mem_held.mpr (.inl hid)
  · rw [hid]
    exact hnew
  · dsimp only at hid
    split at hid
    · rw [hid]
      exact hnew
    · exact mem_held.mpr (.inr (.inr hid))

end Ids

namespace Identity

variable {identity : Identity} {result : Option Ids}

/-! ## The calls -/

section

variable (identity : Identity)

/-- `p.euid == 0`. -/
def privileged : Bool := identity.user.effective == 0

/-- End of a call on the user ids: the new ids and 0, or `EPERM`. -/
def withUser : Option Ids → Identity × Int
  | some user => ({ identity with user }, 0)
  | none => (identity, eperm)

/-- End of a call on the group ids. -/
def withGroup : Option Ids → Identity × Int
  | some group => ({ identity with group }, 0)
  | none => (identity, eperm)

def sysSetuid (newUid : UInt32) : Identity × Int :=
  identity.withUser (identity.user.set identity.privileged newUid)

def sysSetgid (newGid : UInt32) : Identity × Int :=
  identity.withGroup (identity.group.set identity.privileged newGid)

def sysSeteuid (newEuid : UInt32) : Identity × Int :=
  identity.withUser (identity.user.setEffective identity.privileged newEuid)

def sysSetegid (newEgid : UInt32) : Identity × Int :=
  identity.withGroup (identity.group.setEffective identity.privileged newEgid)

def sysSetreuid (ruid euid : UInt32) : Identity × Int :=
  identity.withUser (identity.user.setBoth identity.privileged ruid euid)

def sysSetregid (rgid egid : UInt32) : Identity × Int :=
  identity.withGroup (identity.group.setBoth identity.privileged rgid egid)

end

/-- The identity after `sys_exec` of a file with this mode, owner and group. -/
def exec (identity : Identity) (mode : Nat) (owner group : UInt32) : Identity where
  user := identity.user.exec (if mode &&& 0o4000 ≠ 0 then owner else noChange)
  group := identity.group.exec (if mode &&& 0o2000 ≠ 0 then group else noChange)

/-- A call with its arguments. -/
inductive Call
  | setuid (newUid : UInt32)
  | setgid (newGid : UInt32)
  | seteuid (newEuid : UInt32)
  | setegid (newEgid : UInt32)
  | setreuid (ruid euid : UInt32)
  | setregid (rgid egid : UInt32)
  deriving DecidableEq, Repr

/-- One call of a process: its new identity and the return value. -/
def call (identity : Identity) : Call → Identity × Int
  | .setuid newUid => identity.sysSetuid newUid
  | .setgid newGid => identity.sysSetgid newGid
  | .seteuid newEuid => identity.sysSeteuid newEuid
  | .setegid newEgid => identity.sysSetegid newEgid
  | .setreuid ruid euid => identity.sysSetreuid ruid euid
  | .setregid rgid egid => identity.sysSetregid rgid egid

/-- The identity after a sequence of calls. -/
def after (identity : Identity) (calls : List Call) : Identity :=
  calls.foldl (fun now next => (now.call next).1) identity

/-- A refused call changes nothing. -/
theorem call_refused {request : Call} (h : (identity.call request).2 ≠ 0) :
    (identity.call request).1 = identity := by
  have huser : ∀ result, (identity.withUser result).2 ≠ 0 →
      (identity.withUser result).1 = identity := by
    rintro (_ | _) h
    · rfl
    · exact absurd rfl h
  have hgroup : ∀ result, (identity.withGroup result).2 ≠ 0 →
      (identity.withGroup result).1 = identity := by
    rintro (_ | _) h
    · rfl
    · exact absurd rfl h
  cases request with
  | setuid newUid => exact huser _ h
  | setgid newGid => exact hgroup _ h
  | seteuid newEuid => exact huser _ h
  | setegid newEgid => exact hgroup _ h
  | setreuid ruid euid => exact huser _ h
  | setregid rgid egid => exact hgroup _ h

/-! ## What an unprivileged process can reach -/

/-- Every id of `now` is one of `before`, on the user and on the group side. -/
def Within (now before : Identity) : Prop :=
  now.user.held ⊆ before.user.held ∧ now.group.held ⊆ before.group.held

theorem Within.refl (identity : Identity) : identity.Within identity :=
  ⟨Subset.refl _, Subset.refl _⟩

theorem Within.trans {a b c : Identity} (hab : a.Within b) (hbc : b.Within c) : a.Within c :=
  ⟨Subset.trans hab.1 hbc.1, Subset.trans hab.2 hbc.2⟩

theorem withUser_within (identity : Identity)
    (h : ∀ user, result = some user → user.held ⊆ identity.user.held) :
    (identity.withUser result).1.Within identity := by
  cases result with
  | none => exact Within.refl identity
  | some user => exact ⟨h user rfl, Subset.refl _⟩

theorem withGroup_within (identity : Identity)
    (h : ∀ group, result = some group → group.held ⊆ identity.group.held) :
    (identity.withGroup result).1.Within identity := by
  cases result with
  | none => exact Within.refl identity
  | some group => exact ⟨Subset.refl _, h group rfl⟩

/-- One call of an unprivileged process brings in no id. -/
theorem call_within (h : identity.privileged = false) (request : Call) :
    (identity.call request).1.Within identity := by
  cases request with
  | setuid newUid =>
    exact withUser_within identity fun user hset => Ids.set_held (h ▸ hset)
  | setgid newGid =>
    exact withGroup_within identity fun group hset => Ids.set_held (h ▸ hset)
  | seteuid newEuid =>
    refine withUser_within identity fun user hset => ?_
    rw [h, Ids.setEffective_eq_set] at hset
    exact Ids.set_held hset
  | setegid newEgid =>
    refine withGroup_within identity fun group hset => ?_
    rw [h, Ids.setEffective_eq_set] at hset
    exact Ids.set_held hset
  | setreuid ruid euid =>
    exact withUser_within identity fun user hset => Ids.setBoth_held (h ▸ hset)
  | setregid rgid egid =>
    exact withGroup_within identity fun group hset => Ids.setBoth_held (h ▸ hset)

theorem privileged_eq_false (h : 0 ∉ identity.user.held) : identity.privileged = false := by
  simp only [privileged, beq_eq_false_iff_ne]
  intro hzero
  exact h (Ids.mem_held.mpr (.inr (.inl hzero.symm)))

theorem after_within (calls : List Call) :
    ∀ {identity : Identity}, 0 ∉ identity.user.held → (identity.after calls).Within identity := by
  induction calls with
  | nil => exact fun _ => Within.refl _
  | cons request rest ih =>
    intro _ hroot
    have hstep := call_within (privileged_eq_false hroot) request
    exact (ih fun hzero => hroot (hstep.1 hzero)).trans hstep

/-- A process with 0 in none of its user ids never gains an id by any sequence of
calls, and an id that has left its triple stays away in every later state. -/
theorem ids_never_gained (identity : Identity) (hroot : 0 ∉ identity.user.held)
    (first rest : List Call) :
    (identity.after first).Within identity ∧
      (∀ id, id ∉ (identity.after first).user.held →
        id ∉ (identity.after (first ++ rest)).user.held) ∧
      (∀ id, id ∉ (identity.after first).group.held →
        id ∉ (identity.after (first ++ rest)).group.held) := by
  have hfirst := after_within first hroot
  have hrest : (identity.after (first ++ rest)).Within (identity.after first) := by
    rw [after, foldl_append]
    exact after_within rest fun hzero => hroot (hfirst.1 hzero)
  exact ⟨hfirst, fun id hleft hid => hleft (hrest.1 hid), fun id hleft hid => hleft (hrest.2 hid)⟩

/-- A process that swaps its ids through all six calls, one of them refused. -/
theorem swapping_ids_never_gained :
    (Identity.after ⟨⟨1000, 1001, 1002⟩, ⟨100, 101, 102⟩⟩
      [.setreuid 1001 1002, .setuid 0, .seteuid 1001]).Within
        ⟨⟨1000, 1001, 1002⟩, ⟨100, 101, 102⟩⟩ ∧
      1000 ∉ (Identity.after ⟨⟨1000, 1001, 1002⟩, ⟨100, 101, 102⟩⟩
        ([.setreuid 1001 1002, .setuid 0, .seteuid 1001] ++
          [.setuid 1000, .setgid 102, .setegid 100, .setregid 100 101])).user.held := by
  have h := ids_never_gained ⟨⟨1000, 1001, 1002⟩, ⟨100, 101, 102⟩⟩ (by decide)
    [.setreuid 1001 1002, .setuid 0, .seteuid 1001]
    [.setuid 1000, .setgid 102, .setegid 100, .setregid 100 101]
  exact ⟨h.1, h.2.1 1000 (by decide)⟩

/-- A root process that gives up its user ids by `setuid` cannot take them back. -/
theorem setuid_drop_permanent (identity : Identity) (h : identity.privileged = true)
    {newUid : UInt32} (hnew : newUid ≠ 0) (calls : List Call) :
    ∀ id ∈ (identity.after (.setuid newUid :: calls)).user.held, id = newUid := by
  have hdropped : (identity.call (.setuid newUid)).1.user = ⟨newUid, newUid, newUid⟩ := by
    simp [call, sysSetuid, Ids.set, h, withUser]
  have hroot : 0 ∉ (identity.call (.setuid newUid)).1.user.held := by
    rw [hdropped]
    simpa [Ids.held] using Ne.symm hnew
  have hwithin := after_within calls hroot
  intro _ hid
  have hheld := hwithin.1 hid
  rw [hdropped] at hheld
  simpa [Ids.held] using hheld

/-! ## Calls and programs -/

/-- A call, or `sys_exec` of a file with this mode, owner and group. -/
inductive Act
  | call (request : Call)
  | exec (mode : Nat) (owner group : UInt32)

/-- The identity after an act. -/
def act (identity : Identity) : Act → Identity
  | .call request => (identity.call request).1
  | .exec mode owner group => identity.exec mode owner group

/-- The user id, and the group id, that a set-id file brings. -/
def Act.user : Act → Option UInt32
  | .exec mode owner _ => if mode &&& 0o4000 ≠ 0 then some owner else none
  | .call _ => none

def Act.group : Act → Option UInt32
  | .exec mode _ group => if mode &&& 0o2000 ≠ 0 then some group else none
  | .call _ => none

/-- Whatever a process calls and executes, without 0 in its user ids and without a
set-user-id file of root its ids are those it had and those of set-id files. -/
theorem ids_from_files (acts : List Act) : ∀ identity : Identity, 0 ∉ identity.user.held →
    some 0 ∉ acts.map Act.user →
    (∀ id ∈ (acts.foldl act identity).user.held,
      id ∈ identity.user.held ∨ some id ∈ acts.map Act.user) ∧
    ∀ id ∈ (acts.foldl act identity).group.held,
      id ∈ identity.group.held ∨ some id ∈ acts.map Act.group := by
  induction acts with
  | nil => exact fun _ _ _ => ⟨fun _ => .inl, fun _ => .inl⟩
  | cons first rest ih =>
    intro identity hroot hfiles
    have hfirst : (∀ id ∈ (identity.act first).user.held,
        id ∈ identity.user.held ∨ some id = first.user) ∧
        ∀ id ∈ (identity.act first).group.held,
          id ∈ identity.group.held ∨ some id = first.group := by
      cases first with
      | call request =>
        have hwithin := call_within (privileged_eq_false hroot) request
        exact ⟨fun _ hid => .inl (hwithin.1 hid), fun _ hid => .inl (hwithin.2 hid)⟩
      | exec mode owner group =>
        constructor <;> simp only [act, exec, Ids.exec, Ids.held, Act.user, Act.group] <;> grind
    have hrest := ih (identity.act first)
    grind

/-- A user starts a set-group-id game that asks for root. -/
theorem ids_from_files_game :
    ([.exec 0o2755 7 60, .call (.setuid 0)].foldl act
      ⟨⟨1000, 1000, 1000⟩, ⟨100, 100, 100⟩⟩).user.held ⊆ [1000] := by
  intro id hid
  have hfrom := (ids_from_files _ _ (by decide) (by decide)).1 id hid
  simpa [Act.user, Ids.held] using hfrom

end Identity
end Bazzulto
