/-
  Ipc/SemaphoreTable.lean --- the table of named semaphores and its descriptors.

  Embeds `SemaphoreTable`, `sys_sem_open`, `sys_sem_close`, `sys_sem_unlink` and the parts
  of `sys_sem_wait`, `sys_sem_trywait` and `sys_sem_post` that reach the table
  (kernel/src/ipc/sem.rs), with `close`, `dup`, `dup2` and `fork` of any process.

  A slot is freed when the semaphore is unlinked and `reference_count`, which counts calls
  of `sem_open` and `sem_close`, is zero; copies of a descriptor are not counted.  `serial`
  and `created` are a ledger the code does not keep: semaphores are numbered as they are
  made, and an inode remembers which one it was opened on.
-/
import Bazzulto.Ipc.Handle
import Bazzulto.Ipc.Semaphore

set_option autoImplicit false

namespace Bazzulto.Ipc

open Option Foundation List Function Handles.Holds

abbrev semaphoreTableSize : Nat := 32

def semaphoreNameMaxLength : Nat := 64

/-- A semaphore in the table: `NamedSemaphore` with its name and counts. -/
structure TableEntry extends NamedSemaphore where
  name : List UInt8
  referenceCount : Nat
  isUnlinked : Bool
  serial : Nat

/-- What an inode was opened on: the slot, and the semaphore that was there. -/
structure Opened where
  slot : Fin semaphoreTableSize
  serial : Nat
  deriving DecidableEq, Repr

/-- The table and the descriptors of all processes. -/
structure SemaphoreSystem where
  entries : Fin semaphoreTableSize → Option TableEntry
  handles : Handles Opened
  created : Nat

namespace SemaphoreSystem

/-- No semaphore, and every process has its terminal. -/
def init : SemaphoreSystem := ⟨fun _ => none, .init, 0⟩

section

variable (system : SemaphoreSystem)

/-- `find_by_name`, with what is in the slot. -/
def findByName (name : List UInt8) : Option (Fin semaphoreTableSize × TableEntry) :=
  (finRange semaphoreTableSize).findSome? fun index =>
    ((system.entries index).filter fun entry => !entry.isUnlinked && entry.name == name).map
      fun entry => (index, entry)

def findFreeSlot : Option (Fin semaphoreTableSize) :=
  (finRange semaphoreTableSize).find? fun index => (system.entries index).isNone

def setEntry (slot : Fin semaphoreTableSize) (entry : Option TableEntry) : SemaphoreSystem :=
  { system with entries := update system.entries slot entry }

section

variable (owner : Nat)

def getSemaphoreTableIndex (fd : Int) : Option (Fin semaphoreTableSize) :=
  if fd < 0 then none
  else
    match system.handles.lookup owner fd.toNat with
    | none => none
    | some opened => if (system.entries opened.slot).isSome then some opened.slot else none

/-- O_CREAT. -/
def oCreat : BitVec 32 := 64#32

/-- O_EXCL. -/
def oExcl : BitVec 32 := 128#32

/-- The checks of a name; `valid` says that the kernel accepts the pointer. -/
def nameAccepted (valid : Bool) (name : List UInt8) : Bool :=
  valid && name.length != 0 && name.length ≤ semaphoreNameMaxLength

/-- The descriptor of `sys_sem_open`. -/
def install (opened : Opened) : Int × SemaphoreSystem :=
  let installed := system.handles.openNew owner (some opened)
  (if installed.1 < 0 then EMFILE else installed.1, { system with handles := installed.2 })

def sysSemOpen (valid : Bool) (name : List UInt8) (flags : BitVec 32) (initialValue : Nat) :
    Int × SemaphoreSystem :=
  if !nameAccepted valid name then (EINVAL, system)
  else
    match system.findByName name with
    | some (index, entry) =>
      if flags &&& oCreat ≠ 0#32 ∧ flags &&& oExcl ≠ 0#32 then (EEXIST, system)
      else
        -- `+= 1` on a `u32`
        let counted := { entry with referenceCount := (entry.referenceCount + 1) % 2 ^ 32 }
        (system.setEntry index (some counted)).install owner ⟨index, entry.serial⟩
    | none =>
      if flags &&& oCreat = 0#32 then (ENOENT, system)
      else
        match system.findFreeSlot with
        | none => (ENOMEM, system)
        | some index =>
          let entry : TableEntry :=
            { value := initialValue, waiterQueue := [], name := name, referenceCount := 1,
              isUnlinked := false, serial := system.created }
          ({ system.setEntry index (some entry) with created := system.created + 1 }).install
            owner ⟨index, system.created⟩

/-- The entry after `sys_sem_close`. -/
def released (entry : TableEntry) : Option TableEntry :=
  let entry := { entry with referenceCount := entry.referenceCount - 1 }
  if entry.isUnlinked ∧ entry.referenceCount = 0 then none else some entry

def sysSemClose (fd : Int) : Int × SemaphoreSystem :=
  match system.getSemaphoreTableIndex owner fd with
  | none => (EBADF, system)
  | some index =>
    match system.handles.close owner fd.toNat with
    | none => (EBADF, system)
    | some handles =>
      (0, { system.setEntry index ((system.entries index).bind released) with handles })

def sysSemUnlink (valid : Bool) (name : List UInt8) : Int × SemaphoreSystem :=
  if !nameAccepted valid name then (EINVAL, system)
  else
    match system.findByName name with
    | none => (ENOENT, system)
    | some (index, entry) =>
      (0, system.setEntry index
        (if entry.referenceCount = 0 then none else some { entry with isUnlinked := true }))

/-! ## Waiting and posting -/

/-- Change the semaphore of a descriptor. -/
def modify (fd : Int) (change : NamedSemaphore → NamedSemaphore) : SemaphoreSystem :=
  match system.getSemaphoreTableIndex owner fd with
  | none => system
  | some index =>
    system.setEntry index ((system.entries index).map fun entry =>
      { entry with toNamedSemaphore := change entry.toNamedSemaphore })

end

/-- What `sys_sem_wait` does to the semaphore: it takes one or joins the queue. -/
def waitOn (pid : Pid) (semaphore : NamedSemaphore) : NamedSemaphore :=
  if 0 < semaphore.value then { semaphore with value := semaphore.value - 1 }
  else { semaphore with waiterQueue := semaphore.waiterQueue ++ [pid] }

/-- What `sys_sem_trywait` does. -/
def tryOn (semaphore : NamedSemaphore) : NamedSemaphore :=
  { semaphore with value := semaphore.value - 1 }

/-- What `sys_sem_post` does: it wakes the first in the queue or adds one. -/
def postOn (semaphore : NamedSemaphore) : NamedSemaphore :=
  match semaphore.waiterQueue with
  | [] => { semaphore with value := (semaphore.value + 1) % 2 ^ 32 }
  | _ :: rest => { semaphore with waiterQueue := rest }

/-! ## Steps -/

/-- A call of a process; the table of the caller is known by number. -/
inductive SemaphoreCall where
  | semOpen (owner : Nat) (valid : Bool) (name : List UInt8) (flags : BitVec 32)
      (initialValue : Nat)
  | semClose (owner : Nat) (fd : Int)
  | semUnlink (valid : Bool) (name : List UInt8)
  | semWait (owner : Nat) (fd : Int) (pid : Pid)
  | semTrywait (owner : Nat) (fd : Int)
  | semPost (owner : Nat) (fd : Int)
  -- other calls open descriptors of their own inodes
  | openOther (owner : Nat)
  | close (owner fd : Nat)
  | duplicate (owner fd : Nat) (how : Handles.Duplicate)
  | fork (owner child : Nat)

/-- One call; `none` where the kernel panics. -/
def step : SemaphoreCall → Option SemaphoreSystem
  | .semOpen owner valid name flags initialValue =>
    some (system.sysSemOpen owner valid name flags initialValue).2
  | .semClose owner fd => some (system.sysSemClose owner fd).2
  | .semUnlink valid name => some (system.sysSemUnlink valid name).2
  | .semWait owner fd pid => some (system.modify owner fd (waitOn pid))
  | .semTrywait owner fd => some (system.modify owner fd tryOn)
  | .semPost owner fd => some (system.modify owner fd postOn)
  | .openOther owner => some { system with handles := (system.handles.openNew owner none).2 }
  | .close owner fd =>
    some { system with handles := (system.handles.close owner fd).getD system.handles }
  | .duplicate owner fd how =>
    (system.handles.duplicate owner fd how).map fun handles => { system with handles }
  | .fork owner child => some { system with handles := system.handles.fork owner child }

/-- Every open descriptor reaches the semaphore it was opened on. -/
def Faithful : Prop :=
  ∀ opened, system.handles.Holds opened →
    ∃ entry, system.entries opened.slot = some entry ∧ entry.serial = opened.serial

/-- A slot that the call frees has no other open descriptor. -/
def Careful : SemaphoreCall → Prop
  | .semClose owner fd => ∀ index entry, system.getSemaphoreTableIndex owner fd = some index →
      system.entries index = some entry → entry.isUnlinked = true → entry.referenceCount ≤ 1 →
      ∀ other fd' opened, system.handles.lookup other fd' = some opened →
        opened.slot = index → other = owner ∧ fd' = fd.toNat
  | .semUnlink valid name => nameAccepted valid name = true →
      ∀ index entry, system.findByName name = some (index, entry) → entry.referenceCount = 0 →
        ∀ opened, system.handles.Holds opened → opened.slot ≠ index
  | _ => True

end

/-! ## One call -/

variable {system : SemaphoreSystem} {index : Fin semaphoreTableSize}

theorem findByName_eq_some {name : List UInt8} {entry : TableEntry}
    (h : system.findByName name = some (index, entry)) : system.entries index = some entry := by
  obtain ⟨_, -, hfound⟩ := exists_of_findSome?_eq_some h
  obtain ⟨_, hfilter, hpair⟩ := map_eq_some_iff.mp hfound
  cases hpair
  exact (filter_eq_some_iff.mp hfilter).1

/-- What is in the slot of a descriptor that the kernel accepts. -/
theorem getSemaphoreTableIndex_eq_some {owner : Nat} {fd : Int}
    (h : system.getSemaphoreTableIndex owner fd = some index) :
    ∃ opened entry, system.handles.lookup owner fd.toNat = some opened ∧ opened.slot = index ∧
      system.entries index = some entry := by
  unfold getSemaphoreTableIndex at h
  split at h
  · cases h
  split at h
  · cases h
  rename_i opened hlookup
  split at h
  next hsome =>
    cases h
    obtain ⟨entry, hentry⟩ := isSome_iff_exists.mp hsome
    exact ⟨opened, entry, hlookup, rfl, hentry⟩
  · cases h

theorem entries_setEntry (system : SemaphoreSystem) (slot other : Fin semaphoreTableSize)
    (entry : Option TableEntry) :
    (system.setEntry slot entry).entries other =
      if other = slot then entry else system.entries other :=
  update_apply ..

theorem Faithful.of_handles (h : system.Faithful) {handles : Handles Opened}
    (hholds : ∀ opened, handles.Holds opened → system.handles.Holds opened) :
    Faithful { system with handles } :=
  fun opened hopened => h opened (hholds opened hopened)

theorem Faithful.setEntry_same (h : system.Faithful) {index : Fin semaphoreTableSize}
    {entry entry' : TableEntry} (hentry : system.entries index = some entry)
    (hserial : entry'.serial = entry.serial) : (system.setEntry index (some entry')).Faithful := by
  intro opened hopened
  obtain ⟨found, hfound, hsame⟩ := h opened hopened
  rw [entries_setEntry]
  split
  next hslot =>
    rw [hslot, hentry] at hfound
    cases hfound
    exact ⟨entry', rfl, hserial.trans hsame⟩
  · exact ⟨found, hfound, hsame⟩

theorem Faithful.setEntry_unheld (h : system.Faithful) {index : Fin semaphoreTableSize}
    (hunheld : ∀ opened, system.handles.Holds opened → opened.slot ≠ index)
    (entry : Option TableEntry) : (system.setEntry index entry).Faithful := by
  intro opened hopened
  rw [entries_setEntry, if_neg (hunheld opened hopened)]
  exact h opened hopened

theorem not_faithful_of_freed (opened : Opened) (hheld : system.handles.Holds opened)
    (hfree : system.entries opened.slot = none) : ¬ system.Faithful := by
  intro h
  obtain ⟨_, hentry, -⟩ := h opened hheld
  rw [hfree] at hentry
  cases hentry

theorem Faithful.install (h : system.Faithful) {opened : Opened}
    (hopened : ∃ entry, system.entries opened.slot = some entry ∧ entry.serial = opened.serial)
    (owner : Nat) : (system.install owner opened).2.Faithful := by
  intro other hother
  rcases of_openNew hother with hnew | hold
  · cases hnew
    exact hopened
  · exact h other hold

theorem Faithful.sysSemOpen (h : system.Faithful) (owner : Nat) (valid : Bool)
    (name : List UInt8) (flags : BitVec 32) (initialValue : Nat) :
    (system.sysSemOpen owner valid name flags initialValue).2.Faithful := by
  unfold SemaphoreSystem.sysSemOpen
  split
  · exact h
  split
  next hfound =>
    split
    · exact h
    · have hentry := findByName_eq_some hfound
      refine Faithful.install ?_ ⟨_, update_self .., rfl⟩ owner
      exact h.setEntry_same hentry rfl
  · split
    · exact h
    split
    · exact h
    next index hfree =>
      -- Every open descriptor is on a slot in use.
      have hunheld : ∀ opened, system.handles.Holds opened → opened.slot ≠ index := by
        rintro opened hopened rfl
        exact not_faithful_of_freed opened hopened
          (by simpa using find?_some hfree) h
      refine Faithful.install (h.setEntry_unheld hunheld _) ?_ owner
      exact ⟨_, update_self .., rfl⟩

theorem Faithful.modify (h : system.Faithful) (owner : Nat) (fd : Int)
    (change : NamedSemaphore → NamedSemaphore) : (system.modify owner fd change).Faithful := by
  unfold SemaphoreSystem.modify
  split
  · exact h
  next hidx =>
    obtain ⟨_, _, -, -, hentry⟩ := getSemaphoreTableIndex_eq_some hidx
    rw [hentry]
    exact h.setEntry_same hentry rfl

/-- When `sem_close` frees the slot. -/
theorem released_eq_none_iff (entry : TableEntry) :
    released entry = none ↔ entry.isUnlinked = true ∧ entry.referenceCount ≤ 1 := by
  unfold released
  dsimp only
  split
  next hfree =>
    exact iff_of_true rfl ⟨hfree.1, by omega⟩
  next hkept =>
    refine iff_of_false (by simp) fun hfree => hkept ⟨hfree.1, ?_⟩
    omega

theorem released_serial {entry entry' : TableEntry} (h : released entry = some entry') :
    entry'.serial = entry.serial := by
  unfold released at h
  dsimp only at h
  split at h
  · cases h
  · cases h
    rfl

theorem faithful_sysSemClose_iff (h : system.Faithful) (owner : Nat) (fd : Int) :
    (system.sysSemClose owner fd).2.Faithful ↔ system.Careful (.semClose owner fd) := by
  unfold sysSemClose Careful
  cases hidx : system.getSemaphoreTableIndex owner fd with
  | none =>
    refine iff_of_true h fun index entry hsome => ?_
    rw [hidx] at hsome
    cases hsome
  | some index =>
    obtain ⟨opened, entry, hlookup, rfl, hentry⟩ := getSemaphoreTableIndex_eq_some hidx
    obtain ⟨handles, hclose⟩ := isSome_iff_exists.mp (Handles.close_isSome hlookup)
    have hfewer : ∀ other, handles.Holds other → system.handles.Holds other :=
      fun _ hother => of_close hclose hother
    dsimp only
    rw [hclose, hentry, bind_some]
    cases hreleased : released entry with
    | some entry' =>
      refine iff_of_true ?_ fun index' found hsome hfound hunlinked hcount => ?_
      · exact (h.setEntry_same hentry (released_serial hreleased)).of_handles hfewer
      rw [hidx] at hsome
      cases hsome
      rw [hentry] at hfound
      cases hfound
      rw [(released_eq_none_iff entry).mpr ⟨hunlinked, hcount⟩] at hreleased
      cases hreleased
    | none =>
      obtain ⟨hunlinked, hcount⟩ := (released_eq_none_iff entry).mp hreleased
      constructor
      · intro hfaithful _ _ hsome _ _ _ other fd' opened' hlookup' hslot
        rw [hidx] at hsome
        cases hsome
        by_contra hother
        -- The other descriptor is still open, on a slot that is now free.
        refine not_faithful_of_freed opened' ⟨other, fd', ?_⟩ ?_ hfaithful
        · exact (Handles.lookup_close hclose other fd').trans (by rw [if_neg hother, hlookup'])
        · exact (entries_setEntry ..).trans (if_pos hslot)
      · intro hcareful
        have hsole := hcareful opened.slot entry hidx hentry hunlinked hcount
        rintro opened' ⟨other, fd', hlookup'⟩
        rw [Handles.lookup_close hclose] at hlookup'
        split at hlookup'
        · cases hlookup'
        next hother =>
          have hslot : opened'.slot ≠ opened.slot := fun hslot =>
            hother (hsole other fd' opened' hlookup' hslot)
          rw [entries_setEntry, if_neg hslot]
          exact h opened' ⟨other, fd', hlookup'⟩

theorem faithful_sysSemUnlink_iff (h : system.Faithful) (valid : Bool) (name : List UInt8) :
    (system.sysSemUnlink valid name).2.Faithful ↔ system.Careful (.semUnlink valid name) := by
  unfold sysSemUnlink Careful
  cases hname : nameAccepted valid name with
  | false =>
    refine iff_of_true h fun htrue => ?_
    rw [hname] at htrue
    cases htrue
  | true =>
    rw [if_neg (by simp)]
    cases hfound : system.findByName name with
    | none =>
      refine iff_of_true h fun _ index entry hsome => ?_
      rw [hfound] at hsome
      cases hsome
    | some found =>
      obtain ⟨index, entry⟩ := found
      have hentry := findByName_eq_some hfound
      dsimp only
      split
      next hcount =>
        constructor
        · rintro hfaithful - index' entry' hsome - opened hopened hslot
          rw [hfound] at hsome
          cases hsome
          have hfree : (system.setEntry index none).entries opened.slot = none := by
            rw [entries_setEntry, if_pos hslot]
          exact absurd hfaithful (not_faithful_of_freed opened hopened hfree)
        · intro hcareful
          exact h.setEntry_unheld (hcareful hname index entry hfound hcount) none
      next hcount =>
        refine iff_of_true (h.setEntry_same hentry rfl) fun _ index' entry' hsome hzero => ?_
        rw [hfound] at hsome
        cases hsome
        exact absurd hzero hcount

/-- From a state in which every descriptor reaches its semaphore, a call leads to one
exactly if it is careful. -/
theorem faithful_step_iff (h : system.Faithful) (request : SemaphoreCall) :
    (∀ next, system.step request = some next → next.Faithful) ↔ system.Careful request := by
  -- A call that may always be made and never panics.
  have htotal : ∀ {after : SemaphoreSystem}, after.Faithful →
      ((∀ next, some after = some next → next.Faithful) ↔ True) :=
    fun hafter => iff_of_true (fun _ hnext => some.inj hnext ▸ hafter) trivial
  cases request with
  | semClose owner fd =>
    rw [← faithful_sysSemClose_iff h]
    exact ⟨fun hstep => hstep _ rfl, fun hclose next hnext => some.inj hnext ▸ hclose⟩
  | semUnlink valid name =>
    rw [← faithful_sysSemUnlink_iff h]
    exact ⟨fun hstep => hstep _ rfl, fun hunlink next hnext => some.inj hnext ▸ hunlink⟩
  | semOpen owner valid name flags initialValue =>
    exact htotal (h.sysSemOpen owner valid name flags initialValue)
  | semWait owner fd pid | semTrywait owner fd | semPost owner fd =>
    exact htotal (h.modify owner fd _)
  | openOther owner =>
    refine htotal (h.of_handles fun opened hopened => ?_)
    rcases of_openNew hopened with hnew | hold
    · cases hnew
    · exact hold
  | close owner fd =>
    refine htotal (h.of_handles fun opened hopened => ?_)
    cases hclose : system.handles.close owner fd with
    | none => rwa [hclose] at hopened
    | some handles =>
      rw [hclose] at hopened
      exact of_close hclose hopened
  | duplicate owner fd how =>
    refine iff_of_true (fun next hnext => ?_) trivial
    obtain ⟨_, hduplicate, rfl⟩ := map_eq_some_iff.mp hnext
    exact h.of_handles fun opened hopened => of_duplicate hduplicate hopened
  | fork owner child =>
    exact htotal (h.of_handles fun opened hopened => of_fork hopened)

/-! ## Runs -/

theorem faithful_init : init.Faithful := by
  rintro _ ⟨_, _, hlookup⟩
  obtain ⟨_, _, -, hobject⟩ := Handles.lookup_eq_some_iff.mp hlookup
  cases hobject

/-- In a run of calls every descriptor always reaches the semaphore it was opened on,
exactly if every slot that is freed has no other open descriptor. -/
theorem descriptors_faithful_iff (requests : List SemaphoreCall) :
    Along step (fun system request => ∀ next, system.step request = some next → next.Faithful)
        init requests ↔
      Along step Careful init requests :=
  along_congr_of_invariant (I := Faithful)
    (fun _ _ next _ hafter hstep => hafter next hstep)
    (fun _ request hfaithful => faithful_step_iff hfaithful request) requests init faithful_init

/-- A process opens a semaphore, duplicates the descriptor, unlinks the semaphore, closes
the first descriptor and makes another semaphore. -/
def reusedSlotRun : List SemaphoreCall :=
  [.semOpen 0 true [47, 97] oCreat 0, .duplicate 0 3 .anywhere, .semUnlink true [47, 97],
   .semClose 0 3, .semOpen 0 true [47, 98] oCreat 0]

/-- The duplicate now reaches the other semaphore. -/
theorem slot_reused_under_descriptor :
    ∃ final, run step init reusedSlotRun = some final ∧ ¬ final.Faithful := by
  have hview : (run step init reusedSlotRun).bind (fun final =>
      (final.handles.lookup 0 4).bind fun opened =>
        (final.entries opened.slot).map fun entry => (opened.serial, entry.serial)) =
      some (0, 1) := by
    decide +kernel
  obtain ⟨final, hrun, hfinal⟩ := bind_eq_some_iff.mp hview
  obtain ⟨opened, hlookup, hslot⟩ := bind_eq_some_iff.mp hfinal
  obtain ⟨_, hentry, hserials⟩ := map_eq_some_iff.mp hslot
  rw [Prod.mk.injEq] at hserials
  refine ⟨final, hrun, fun hfaithful => ?_⟩
  obtain ⟨_, hentry', hsame⟩ := hfaithful opened ⟨0, 4, hlookup⟩
  rw [hentry] at hentry'
  cases hentry'
  rw [hserials.1, hserials.2] at hsame
  cases hsame

end SemaphoreSystem
end Bazzulto.Ipc
