/-
  Scheduler/Reuse.lean --- how long a pid means the process it was given to.

  A history is a run of the scheduler from boot, with `create_process` also taken
  on its own: `fork` and `clone` may fail after it, and `create_process` itself
  may fail for want of memory after `allocate_slot` has moved its search index on.
  `allocate_slot` hands out generation 1 in every slot, so a pid is as good as its
  slot, and the question is when a slot is handed out again.
-/
import Bazzulto.Scheduler.Writes

set_option autoImplicit false

namespace Bazzulto.Scheduler

open Foundation List Option Process Pool

variable {scheduler next : Scheduler} {pid : Pid} {taken : Nat} {used : List Pid}

/-! ## Histories -/

/-- One event of a history. -/
inductive Event where
  | act (action : Action)
  /-- `create_process`; `memory` says that the heap had room for the process. -/
  | create (parentPid : Option Pid) (memory : Bool)

namespace Event

/-- The event takes a slot by `allocate_slot`. -/
def allocates : Event → Bool
  | .act action => action.creates
  | .create _ _ => true

/-- The event takes a slot and finds no memory for the process. -/
def fails : Event → Bool
  | .act _ => false
  | .create _ memory => !memory

end Event

/-- The effect of an event. -/
def advance (scheduler : Scheduler) : Event → Option Scheduler
  | .act action => scheduler.step action
  | .create parentPid true => (scheduler.createProcess parentPid).map Prod.snd
  | .create _ false =>
    scheduler.pool.allocateSlot.map fun (_, pool) => { scheduler with pool }

/-- What an event can do to the pool. -/
inductive PoolEffect (before : Pool) (event : Event) (after : Pool) : Prop where
  | keeps (hevent : event.allocates = false) (hsame : before.Same after)
  | frees (hevent : event.allocates = false) (pid : Pid)
      (hsame : (before.freeSlot pid).Same after)
  | fills (hevent : event.allocates = true) (pid : Pid) (parentPid : Option Pid)
      (allocated : Pool) (halloc : before.allocateSlot = some (pid, allocated))
      (hsame : (allocated.insert (new pid parentPid)).Same after)
  | skips (hevent : event.allocates = true) (hfails : event.fails = true) (pid : Pid)
      (halloc : before.allocateSlot = some (pid, after))

variable {event : Event}

theorem createProcess_fills {created : Scheduler} {parentPid : Option Pid}
    (hevent : event.allocates = true)
    (h : scheduler.createProcess parentPid = some (pid, created))
    (hsame : created.pool.Same next.pool) : PoolEffect scheduler.pool event next.pool := by
  obtain ⟨pool, halloc, rfl⟩ := createProcess_eq_some h
  exact .fills hevent pid parentPid pool halloc hsame

/-- Every event keeps the slots, frees one, or takes the one that `allocate_slot`
finds. -/
theorem advance_effect (h : scheduler.advance event = some next) :
    PoolEffect scheduler.pool event next.pool := by
  cases event with
  | create parentPid memory =>
    cases memory with
    | true =>
      obtain ⟨⟨pid, created⟩, hcreate, rfl⟩ := map_eq_some_iff.mp h
      exact createProcess_fills rfl hcreate (Pool.Same.refl _)
    | false =>
      obtain ⟨⟨pid, _⟩, halloc, rfl⟩ := map_eq_some_iff.mp h
      exact .skips rfl rfl pid halloc
  | act action =>
    cases step_change h with
    | writes hcreates hwrites => exact .keeps hcreates hwrites.same
    | creates hcreates child parentPid created hcreate hwrites =>
      exact createProcess_fills hcreates hcreate hwrites.same
    | releases hcreates pid hnext => exact .frees hcreates pid (hnext ▸ Pool.Same.refl _)

/-! ## The first round through the slots -/

namespace Pool

variable {pool : Pool}

theorem grow_length (pool : Pool) (index : Nat) :
    (pool.grow index).slots.length = max pool.slots.length (index + 1) := by
  simp only [grow, length_append, length_replicate]
  omega

theorem insert_length (pool : Pool) (process : Process) :
    (pool.insert process).slots.length = max pool.slots.length (process.pid.index.toNat + 1) := by
  simp [insert, setSlot, grow_length]

theorem freeSlot_frame (pool : Pool) (pid : Pid) :
    (pool.freeSlot pid).nextSearchIndex = pool.nextSearchIndex ∧
      (pool.freeSlot pid).slots.length = pool.slots.length := by
  unfold freeSlot
  split
  · exact ⟨rfl, rfl⟩
  · exact ⟨rfl, length_set⟩

/-- After `taken` allocations since boot, none of them past the last slot: the
search goes on behind the last slot taken. -/
structure FirstRound (taken : Nat) (pool : Pool) : Prop where
  next : pool.nextSearchIndex = (taken + 1) % pidMax
  length : pool.slots.length ≤ taken + 1

theorem FirstRound.of_same {before after : Pool} (h : before.FirstRound taken)
    (hsame : before.Same after) : after.FirstRound taken :=
  ⟨hsame.next.trans h.next, hsame.length ▸ h.length⟩

/-- During the first round `allocate_slot` takes the slots in order. -/
theorem FirstRound.allocateSlot (h : pool.FirstRound taken) (htaken : taken + 1 < pidMax) :
    pool.allocateSlot = some (⟨UInt16.ofNat (taken + 1), 1⟩,
      { pool.grow (taken + 1) with nextSearchIndex := (taken + 2) % pidMax }) := by
  have hidx : (pool.nextSearchIndex + 0) % pidMax = taken + 1 := by
    rw [h.next, Nat.add_zero, Nat.mod_mod, Nat.mod_eq_of_lt htaken]
  have hfree : pool.slots[taken + 1]? = none :=
    List.getElem?_eq_none h.length
  have hsearch : ∀ fuel, pool.searchSlot (fuel + 1) 0 = some (taken + 1) := by
    intro _
    simp only [searchSlot, hidx, hfree, Nat.succ_ne_zero, if_false]
  rw [Pool.allocateSlot, show pool.searchSlot pidMax 0 = some (taken + 1) from hsearch 32767]

theorem toNat_ofNat_of_lt {index : Nat} (h : index < pidMax) :
    (UInt16.ofNat index).toNat = index := by
  simp only [pidMax] at h
  simp only [UInt16.toNat_ofNat']
  omega

end Pool

section

variable (h : scheduler.pool.FirstRound taken)
  (htaken : event.allocates = true → taken + 1 < pidMax)
include h htaken

/-- An event of the first round, and the allocations it leaves behind. -/
theorem firstRound_advance (hstep : scheduler.advance event = some next) :
    next.pool.FirstRound (taken + if event.allocates then 1 else 0) := by
  cases advance_effect hstep with
  | keeps hevent hsame =>
    rw [hevent]
    exact h.of_same hsame
  | frees hevent pid hsame =>
    rw [hevent]
    obtain ⟨hnext, hlen⟩ := scheduler.pool.freeSlot_frame pid
    exact Pool.FirstRound.of_same ⟨hnext.trans h.next, hlen ▸ h.length⟩ hsame
  | fills hevent pid parentPid allocated halloc hsame =>
    have hlt := htaken hevent
    rw [h.allocateSlot hlt] at halloc
    cases halloc
    rw [hevent]
    refine Pool.FirstRound.of_same ⟨rfl, ?_⟩ hsame
    rw [insert_length]
    show max (scheduler.pool.grow (taken + 1)).slots.length
      ((UInt16.ofNat (taken + 1)).toNat + 1) ≤ taken + 1 + 1
    rw [grow_length, toNat_ofNat_of_lt hlt]
    have := h.length
    omega
  | skips hevent hfails pid halloc =>
    have hlt := htaken hevent
    rw [h.allocateSlot hlt] at halloc
    have hpool := congrArg Prod.snd (some.inj halloc)
    dsimp only at hpool
    rw [hevent, ← hpool]
    refine ⟨rfl, ?_⟩
    show (scheduler.pool.grow (taken + 1)).slots.length ≤ taken + 1 + 1
    rw [grow_length]
    have := h.length
    omega

/-- During the first round no event brings back a pid whose slot has been taken. -/
theorem absent_advance (hold : pid.index.toNat ≤ taken) (habsent : scheduler.pool.get pid = none)
    (hstep : scheduler.advance event = some next) : next.pool.get pid = none := by
  cases advance_effect hstep with
  | keeps hevent hsame => exact hsame.get_eq_none.mpr habsent
  | frees hevent freed hsame =>
    rw [hsame.get_eq_none, get_freeSlot]
    split
    · rfl
    · exact habsent
  | fills hevent created parentPid allocated halloc hsame =>
    obtain ⟨-, hfree, hget⟩ := allocateSlot_spec halloc
    rw [hsame.get_eq_none, get_insert _ hfree, hget, habsent]
    have hlt := htaken hevent
    rw [h.allocateSlot hlt] at halloc
    cases halloc
    rw [if_neg]
    rintro rfl
    have hidx : (UInt16.ofNat (taken + 1)).toNat ≤ taken := hold
    rw [toNat_ofNat_of_lt hlt] at hidx
    omega
  | skips hevent hfails created halloc =>
    rw [(allocateSlot_spec halloc).2.2, habsent]

end

/-- The slots taken by a list of events. -/
def allocations (events : List Event) : Nat := events.countP Event.allocates

theorem allocations_cons (event : Event) (events : List Event) :
    allocations (event :: events) = allocations events + if event.allocates then 1 else 0 :=
  countP_cons

theorem allocations_append (first rest : List Event) :
    allocations (first ++ rest) = allocations first + allocations rest :=
  countP_append

variable {rest : List Event}

theorem room_of_cons (h : taken + allocations (event :: rest) < pidMax) :
    (event.allocates = true → taken + 1 < pidMax) ∧
      (taken + if event.allocates then 1 else 0) + allocations rest < pidMax := by
  rw [allocations_cons] at h
  refine ⟨fun hevent => ?_, by omega⟩
  rw [if_pos hevent] at h
  omega

theorem firstRound_run (events : List Event) :
    ∀ {scheduler final : Scheduler} {taken : Nat}, scheduler.pool.FirstRound taken →
      taken + allocations events < pidMax → run advance scheduler events = some final →
      final.pool.FirstRound (taken + allocations events) := by
  induction events with
  | nil =>
    intro scheduler final taken h _ hrun
    cases hrun
    exact h
  | cons event rest ih =>
    intro _ _ _ h hroom hrun
    obtain ⟨_, hstep, hrest⟩ := run_cons_eq_some hrun
    obtain ⟨hevent, hroom⟩ := room_of_cons hroom
    have hfinal := ih (firstRound_advance h hevent hstep) hroom hrest
    rwa [allocations_cons, Nat.add_comm (allocations rest), ← Nat.add_assoc]

theorem absent_run (events : List Event) :
    ∀ {scheduler final : Scheduler} {taken : Nat} {pid : Pid},
      scheduler.pool.FirstRound taken → taken + allocations events < pidMax →
      pid.index.toNat ≤ taken → scheduler.pool.get pid = none →
      run advance scheduler events = some final → final.pool.get pid = none := by
  induction events with
  | nil =>
    intro scheduler final taken pid _ _ _ habsent hrun
    cases hrun
    exact habsent
  | cons event rest ih =>
    intro _ _ _ _ h hroom hold habsent hrun
    obtain ⟨_, hstep, hrest⟩ := run_cons_eq_some hrun
    obtain ⟨hevent, hroom⟩ := room_of_cons hroom
    exact ih (firstRound_advance h hevent hstep) hroom (by omega)
      (absent_advance h hevent hold habsent hstep) hrest

/-! ## Stale pids -/

/-- A pid that has named a process and names none any more, names none in any later
state of the history. -/
def PidsNeverReused (history : List Event) : Prop :=
  ∀ (first middle last rest : List Event) (early freed late : Scheduler) (pid : Pid),
    history = first ++ middle ++ last ++ rest →
    run advance init first = some early → run advance early middle = some freed →
    run advance freed last = some late →
    (early.pool.get pid).isSome → freed.pool.get pid = none → late.pool.get pid = none

theorem firstRound_init : init.pool.FirstRound 0 := ⟨rfl, by decide⟩

variable {history : List Event}

theorem pidsNeverReused_of_few (hfew : allocations history < pidMax) : PidsNeverReused history := by
  rintro first middle last _ _ _ _ pid rfl hearly hfreed hlate hpresent habsent
  rw [allocations_append, allocations_append, allocations_append] at hfew
  have hfirst := firstRound_run first firstRound_init (by omega) hearly
  have hmiddle := firstRound_run middle hfirst (by omega) hfreed
  obtain ⟨_, hget⟩ := isSome_iff_exists.mp hpresent
  have hidx := (List.getElem?_eq_some_iff.mp (getElem?_of_get hget)).1
  have hlen := hfirst.length
  exact absent_run last hmiddle (by omega) (by omega) habsent hlate

/-! ## The second round -/

/-- The index of a slot that `allocate_slot` can hand out. -/
theorem Pool.allocateSlot_index {pool allocated : Pool}
    (h : pool.allocateSlot = some (pid, allocated)) :
    pid.index.toNat ∈ range' 1 (pidMax - 1) ∧ pid.generation = 1 := by
  unfold Pool.allocateSlot at h
  split at h
  · cases h
  next hsearch =>
    obtain ⟨_, hlt, -⟩ := searchSlot_spec pool _ _ _ hsearch
    cases h
    refine ⟨?_, rfl⟩
    rw [toNat_ofNat_of_lt hlt, mem_range'_1]
    omega

/-- Pids of generation 1, each of which has named a process after some part of the
events. -/
structure Spent (events : List Event) (used : List Pid) : Prop where
  nodup : used.Nodup
  generation : ∀ pid ∈ used, pid.generation = 1
  index : ∀ pid ∈ used, pid.index.toNat ∈ range' 1 (pidMax - 1)
  named : ∀ pid ∈ used, ∃ earlier later early, events = earlier ++ later ∧
    run advance init earlier = some early ∧ (early.pool.get pid).isSome

variable {events : List Event}

/-- There are fewer than `PID_MAX` such pids. -/
theorem Spent.length_lt (h : Spent events used) : used.length < pidMax := by
  have hinj : ∀ pid ∈ used, ∀ other ∈ used, pid.index.toNat = other.index.toNat → pid = other := by
    rintro ⟨index, generation⟩ hpid ⟨index', generation'⟩ hother heq
    have hgen : generation = generation' :=
      (h.generation _ hpid).trans (h.generation _ hother).symm
    have hidx : index = index' := UInt16.toNat_inj.mp heq
    rw [hidx, hgen]
  have hnodup : (used.map fun pid => pid.index.toNat).Nodup :=
    h.nodup.map_on hinj
  have hsubset : (used.map fun pid => pid.index.toNat) ⊆ range' 1 (pidMax - 1) := by
    intro _ hidx
    obtain ⟨pid, hpid, rfl⟩ := mem_map.mp hidx
    exact h.index pid hpid
  have hlen := (hnodup.subperm hsubset).length_le
  rw [length_map, length_range'] at hlen
  exact Nat.lt_of_le_of_lt hlen (by decide)

theorem Spent.append (h : Spent events used) (event : Event) : Spent (events ++ [event]) used := by
  refine { h with named := fun pid hpid => ?_ }
  obtain ⟨earlier, later, early, rfl, hrun, hnamed⟩ := h.named pid hpid
  exact ⟨earlier, later ++ [event], early, append_assoc _ _ _, hrun, hnamed⟩

/-- Where no stale pid comes back, an event that creates a process uses up one more
pid. -/
theorem Spent.advance {first : List Event} (hnever : PidsNeverReused history)
    (hhistory : history = first ++ event :: rest) (hrun : run advance init first = some scheduler)
    (hstep : scheduler.advance event = some next) (hfails : event.fails = false)
    (h : Spent first used) :
    ∃ used', Spent (first ++ [event]) used' ∧
      used'.length = used.length + if event.allocates then 1 else 0 := by
  cases advance_effect hstep with
  | keeps hevent _ | frees hevent _ _ => exact ⟨used, h.append event, by rw [hevent]; rfl⟩
  | skips _ hfailed _ _ => exact absurd (hfails.symm.trans hfailed) (by decide)
  | fills hevent pid parentPid allocated halloc hsame =>
    obtain ⟨-, hfree, hget⟩ := allocateSlot_spec halloc
    have habsent : scheduler.pool.get pid = none := by
      rw [← hget, Pool.get]
      split
      next process hslot =>
        exact absurd hslot (hfree process)
      · rfl
    have hpresent : (next.pool.get pid).isSome := by
      rw [hsame.occupied, get_insert _ hfree]
      simp [new]
    have hstepRun : run Scheduler.advance scheduler [event] = some next :=
      run_cons hstep
    have hfresh : pid ∉ used := by
      intro hused
      obtain ⟨earlier, later, early, hsplit, hearly, hnamed⟩ := h.named pid hused
      have hlater : run Scheduler.advance early later = some scheduler := by
        rw [hsplit, run_append later hearly] at hrun
        exact hrun
      have hgone := hnever earlier later [event] rest early scheduler next pid
        (by rw [hhistory, hsplit]; simp) hearly hlater hstepRun hnamed habsent
      rw [hgone] at hpresent
      cases hpresent
    obtain ⟨hidx, hgen⟩ := allocateSlot_index halloc
    have hold := h.append event
    refine ⟨pid :: used, ⟨nodup_cons.mpr ⟨hfresh, h.nodup⟩, ?_, ?_, ?_⟩, ?_⟩
    · exact forall_mem_cons.mpr ⟨hgen, h.generation⟩
    · exact forall_mem_cons.mpr ⟨hidx, h.index⟩
    · refine forall_mem_cons.mpr ⟨?_, hold.named⟩
      exact ⟨first ++ [event], [], next, (append_nil _).symm,
        by rw [run_append _ hrun, hstepRun], hpresent⟩
    · rw [hevent]
      rfl

theorem Spent.run (hnever : PidsNeverReused history)
    (hfails : ∀ event ∈ history, event.fails = false) (rest : List Event) :
    ∀ {first : List Event} {used : List Pid} {scheduler final : Scheduler},
      history = first ++ rest → run Scheduler.advance init first = some scheduler →
      run Scheduler.advance scheduler rest = some final → Spent first used →
      ∃ used', Spent history used' ∧ used'.length = used.length + allocations rest := by
  induction rest with
  | nil =>
    intro first used scheduler final hhistory _ _ h
    rw [append_nil] at hhistory
    exact ⟨used, hhistory ▸ h, rfl⟩
  | cons event rest ih =>
    intro _ _ _ _ hhistory hrun hrest h
    obtain ⟨_, hstep, hnext⟩ := run_cons_eq_some hrest
    obtain ⟨_, hspent, _⟩ := Spent.advance hnever hhistory hrun hstep
      (hfails event (by rw [hhistory]; simp)) h
    obtain ⟨used'', hspent', _⟩ := ih (by rw [hhistory]; simp)
      (by rw [run_append _ hrun, run_cons hstep, run_nil]) hnext hspent
    refine ⟨used'', hspent', ?_⟩
    rw [allocations_cons]
    omega

/-- The process of slot 1, which the others are children of. -/
def firstPid : Pid := ⟨1, 1⟩

/-- The process whose pid is used again. -/
def stalePid : Pid := ⟨2, 1⟩

/-- Two processes are created. -/
def createdPair : List Event := [.create none true, .create (some firstPid) true]

/-- The second one runs, exits and is reaped by the first. -/
def reapedSecond : List Event :=
  [.act (.makeReady bootCpu stalePid), .act (.schedule bootCpu 0), .act (.exit bootCpu 0),
    .act (.reap firstPid (some stalePid))]

/-- A stale pid never comes back in a history that takes fewer than `PID_MAX` slots.
Where every creation finds its memory it does come back in all others. -/
theorem stale_pid_iff (history : List Event) :
    (allocations history < pidMax → PidsNeverReused history) ∧
      ∀ final, run advance init history = some final → (∀ event ∈ history, event.fails = false) →
        (PidsNeverReused history ↔ allocations history < pidMax) := by
  refine ⟨pidsNeverReused_of_few, fun final hrun hfails => ⟨fun hnever => ?_,
    pidsNeverReused_of_few⟩⟩
  have hempty : Spent [] [] :=
    ⟨nodup_nil, by simp, by simp, by simp⟩
  obtain ⟨_, hspent, _⟩ := Spent.run hnever hfails history
    (nil_append _).symm rfl hrun hempty
  have hlt := hspent.length_lt
  omega

/-- Each of the two pids is used once. -/
theorem reaped_second_never_reused : PidsNeverReused (createdPair ++ reapedSecond) :=
  (stale_pid_iff (createdPair ++ reapedSecond)).1 (by decide)

theorem Pool.occupied_grow (pool : Pool) (size index : Nat) (process : Process) :
    (pool.grow size).slots[index]? = some (some process) ↔
      pool.slots[index]? = some (some process) := by
  simp only [grow, List.getElem?_append, List.getElem?_replicate]
  split_ifs with hlt
  · rfl
  · rw [List.getElem?_eq_none (Nat.le_of_not_lt hlt)]
    simp
  · rw [List.getElem?_eq_none (Nat.le_of_not_lt hlt)]
    simp

/-- The search has passed slot `taken`, the first process is there and the slot of
the second is free. -/
structure Passed (taken : Nat) (pool : Pool) : Prop where
  firstRound : pool.FirstRound taken
  parent : ∃ process, pool.slots[1]? = some (some process)
  stale : ∀ process, pool.slots[2]? ≠ some (some process)

/-- Another creation during the first round. -/
theorem Passed.create (h : Passed taken scheduler.pool) (hstale : 2 ≤ taken)
    (hroom : taken + 1 < pidMax) :
    ∃ next, scheduler.advance (.create (some firstPid) true) = some next ∧
      Passed (taken + 1) next.pool := by
  have halloc := h.firstRound.allocateSlot hroom
  have hidx := toNat_ofNat_of_lt hroom
  have hstep : ∃ next, scheduler.advance (.create (some firstPid) true) = some next ∧
      ∀ index process, index ≠ taken + 1 → (next.pool.slots[index]? = some (some process) ↔
          scheduler.pool.slots[index]? = some (some process)) := by
    refine ⟨_, by rw [advance, createProcess, halloc]; rfl, fun index process hne => ?_⟩
    simp only [Pool.insert, Pool.setSlot, new, hidx]
    rw [List.getElem?_set_ne (Ne.symm hne), Pool.occupied_grow]
    exact Pool.occupied_grow _ _ _ _
  obtain ⟨next, hstep, hslots⟩ := hstep
  refine ⟨next, hstep, firstRound_advance h.firstRound (fun _ => hroom) hstep, ?_, ?_⟩
  · obtain ⟨process, hparent⟩ := h.parent
    exact ⟨process, (hslots 1 process (by omega)).mpr hparent⟩
  · exact fun process hslot => h.stale process ((hslots 2 process (by omega)).mp hslot)

/-- Creations up to the last slot. -/
theorem Passed.run {count : Nat} :
    ∀ {scheduler : Scheduler}, Passed taken scheduler.pool → 2 ≤ taken → taken + count < pidMax →
      ∃ next, run Scheduler.advance scheduler
          (replicate count (.create (some firstPid) true)) = some next ∧
        Passed (taken + count) next.pool := by
  induction count generalizing taken with
  | zero => exact fun h _ _ => ⟨_, rfl, h⟩
  | succ count ih =>
    intro _ h hstale _
    obtain ⟨_, hstep, hmiddle⟩ := h.create hstale (by omega)
    obtain ⟨next, hrun, _⟩ := ih hmiddle (by omega) (by omega)
    refine ⟨next, (run_cons hstep).trans hrun, ?_⟩
    rwa [show taken + (count + 1) = taken + 1 + count by omega]

/-- Behind the last slot the search starts over and finds the free slot 2. -/
theorem Passed.wraps (h : Passed (pidMax - 1) scheduler.pool) :
    ∃ next, scheduler.advance (.create (some firstPid) true) = some next ∧
      (next.pool.get stalePid).isSome := by
  have hnext : scheduler.pool.nextSearchIndex = 0 := h.firstRound.next
  obtain ⟨_, hparent⟩ := h.parent
  have hsearch : ∀ fuel, scheduler.pool.searchSlot (fuel + 3) 0 = some 2 := by
    intro _
    have hzero : (0 + 0) % pidMax = 0 := rfl
    have hone : (0 + (0 + 1)) % pidMax = 1 := rfl
    have htwo : (0 + (0 + 1 + 1)) % pidMax = 2 := rfl
    simp only [searchSlot, hnext, hzero, hone, htwo, if_true, hparent, one_ne_zero,
      two_ne_zero, if_false]
    split
    next other hslot =>
      exact absurd hslot (h.stale other)
    · rfl
  have halloc : ∃ pool, scheduler.pool.allocateSlot = some (stalePid, pool) := by
    rw [Pool.allocateSlot, show scheduler.pool.searchSlot pidMax 0 = some 2 from hsearch 32765]
    exact ⟨_, rfl⟩
  obtain ⟨_, halloc⟩ := halloc
  obtain ⟨-, hfree, -⟩ := allocateSlot_spec halloc
  refine ⟨_, by rw [advance, createProcess, halloc]; rfl, ?_⟩
  rw [get_insert (new stalePid (some firstPid)) hfree]
  rfl

/-- After the second process has been reaped and every later slot taken once, the
next process is given its pid. -/
theorem wrapped_pid_reused :
    ¬ PidsNeverReused (createdPair ++ reapedSecond ++
      (List.replicate 32765 (.create (some firstPid) true) ++
        [.create (some firstPid) true]) ++ []) := by
  intro hnever
  -- The small part is computed: which slots are occupied, and where the search is.
  have hpair : ((run advance init createdPair).map fun s => (s.pool.get stalePid).isSome) =
      some true := by
    decide +kernel
  obtain ⟨early, hearly, hnamed⟩ := map_eq_some_iff.mp hpair
  have hreaped : ((run advance early reapedSecond).map fun s =>
      (s.pool.nextSearchIndex, s.pool.slots.map isSome)) =
      some (3, [true, true, false]) := by
    have hall : ((run advance init (createdPair ++ reapedSecond)).map fun s =>
        (s.pool.nextSearchIndex, s.pool.slots.map isSome)) =
        some (3, [true, true, false]) := by
      decide +kernel
    rwa [run_append _ hearly] at hall
  obtain ⟨freed, hfreed, hstate⟩ := map_eq_some_iff.mp hreaped
  simp only [Prod.mk.injEq] at hstate
  obtain ⟨hnext, hslots⟩ := hstate
  have hslot : ∀ i : Nat, freed.pool.slots[i]?.map isSome = [true, true, false][i]? := by
    intro _
    rw [← List.getElem?_map, hslots]
  have hparent : ∃ process, freed.pool.slots[1]? = some (some process) := by
    obtain ⟨_, hget, hsome⟩ := map_eq_some_iff.mp (hslot 1)
    obtain ⟨process, rfl⟩ := isSome_iff_exists.mp hsome
    exact ⟨process, hget⟩
  have hstale : ∀ process, freed.pool.slots[2]? ≠ some (some process) := by
    intro process hget
    have hfree := hslot 2
    rw [hget] at hfree
    cases hfree
  have hlength : freed.pool.slots.length ≤ 2 + 1 := by
    rw [← length_map (f := isSome), hslots]
    exact le_refl 3
  have hpassed : Passed 2 freed.pool := ⟨⟨hnext, hlength⟩, hparent, hstale⟩
  obtain ⟨_, hfull, hpassed⟩ :=
    (hpassed.run (le_refl 2) (by decide) : ∃ next, run Scheduler.advance freed
      (List.replicate 32765 (.create (some firstPid) true)) = some next ∧
        Passed (2 + 32765) next.pool)
  obtain ⟨late, hlate, hpresent⟩ := hpassed.wraps
  have habsent : freed.pool.get stalePid = none := by
    rw [Pool.get]
    split
    next process hget =>
      exact absurd hget (hstale process)
    · rfl
  have hgone := hnever createdPair reapedSecond _ [] early freed late stalePid rfl hearly hfreed
    (by rw [run_append _ hfull]; exact run_cons hlate) hnamed habsent
  rw [hgone] at hpresent
  cases hpresent

end Bazzulto.Scheduler
