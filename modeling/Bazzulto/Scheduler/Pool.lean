/-
  Scheduler/Pool.lean --- the process table.

  Embeds `ProcessPool` (kernel/src/scheduler/mod.rs): a vector of slots that
  grows on demand, indexed by the `index` half of a `Pid`.  That a slot only
  holds a process with its own index is a field of the structure.
-/
import Bazzulto.Process.Basic
import Mathlib.Data.List.Basic

set_option autoImplicit false

namespace Bazzulto.Scheduler

open List Option

def pidMax : Nat := 32768

/-- `ProcessPool`: `none` is an empty slot. -/
structure Pool where
  slots : List (Option Process)
  nextSearchIndex : Nat
  indexed : ∀ (i : Nat) (process : Process),
    slots[i]? = some (some process) → process.pid.index.toNat = i

namespace Pool

variable {pool : Pool} {pid : Pid} {process : Process}

/-! ## Access by pid -/

def get (pool : Pool) (pid : Pid) : Option Process :=
  match pool.slots[pid.index.toNat]? with
  | some (some process) => if process.pid = pid then some process else none
  | _ => none

theorem get_pid (h : pool.get pid = some process) : process.pid = pid := by
  unfold get at h
  split at h
  · split at h
    next hpid =>
      cases h
      exact hpid
    · cases h
  · cases h

theorem getElem?_of_get (h : pool.get pid = some process) :
    pool.slots[pid.index.toNat]? = some (some process) := by
  unfold get at h
  split at h
  next hslot =>
    split at h
    · cases h
      exact hslot
    · cases h
  · cases h

/-- Replace the content of a slot. -/
def setSlot (pool : Pool) (index : Nat) (slot : Option Process)
    (h : ∀ process, slot = some process → process.pid.index.toNat = index) :
    Pool where
  slots := pool.slots.set index slot
  nextSearchIndex := pool.nextSearchIndex
  indexed := by
    intro i process hslot
    rw [getElem?_set] at hslot
    split at hslot
    · rename_i heq
      split at hslot
      · simp only [some.injEq] at hslot
        exact (h process hslot).trans heq
      · exact absurd hslot (by simp)
    · exact pool.indexed i process hslot

/-- Write through `ProcessPool::get_mut`: change the process with this pid, if
there is one.  `change` must not touch the pid. -/
def modify (pool : Pool) (pid : Pid) (change : Process → Process)
    (hpid : ∀ process, (change process).pid = process.pid) : Pool :=
  match h : pool.get pid with
  | none => pool
  | some process =>
    pool.setSlot pid.index.toNat (some (change process)) (by
      intro process' heq
      cases heq
      rw [hpid, get_pid h])

theorem get_modify (pool : Pool) (pid other : Pid) (change : Process → Process)
    (hpid : ∀ process, (change process).pid = process.pid) :
    (pool.modify pid change hpid).get other =
      if other = pid then (pool.get pid).map change else pool.get other := by
  unfold modify
  split
  next hnone =>
    split
    next heq =>
      rw [heq, hnone]
      rfl
    · rfl
  next process hsome =>
    have hslot := getElem?_of_get hsome
    have hlt : pid.index.toNat < pool.slots.length := by
      rw [getElem?_eq_some_iff] at hslot
      exact hslot.1
    have hchanged : (change process).pid = pid := (hpid process).trans (get_pid hsome)
    split
    next heq =>
      subst heq
      have hmap : (pool.get other).map change = some (change process) := by
        rw [hsome, map_some]
      rw [hmap]
      simp [get, setSlot, getElem?_set_self hlt, hchanged]
    next hne =>
      by_cases hidx : pid.index.toNat = other.index.toNat
      · have hother : pool.get other = none := by
          simp only [get, ← hidx, hslot, get_pid hsome]
          rw [if_neg (fun h => hne h.symm)]
        rw [hother]
        simp only [get, setSlot, ← hidx, getElem?_set_self hlt, hchanged]
        rw [if_neg (fun h => hne h.symm)]
      · simp [get, setSlot, getElem?_set_ne hidx]

/-! ## Allocation -/

/-- `ProcessPool::init_idle`: at boot the pool holds the idle process, which is
running. -/
def initIdle : Pool where
  slots := [some { Process.new Pid.idle none with state := .running }]
  nextSearchIndex := 1
  indexed := by
    intro i process hslot
    match i with
    | 0 =>
      simp only [getElem?_cons_zero, some.injEq] at hslot
      rw [← hslot]
      rfl
    | i + 1 => simp at hslot

/-- Grow the slot vector with empty slots until `index` is in range. -/
def grow (pool : Pool) (index : Nat) : Pool where
  slots := pool.slots ++ replicate (index + 1 - pool.slots.length) none
  nextSearchIndex := pool.nextSearchIndex
  indexed := by
    intro i process hslot
    rw [getElem?_append] at hslot
    split at hslot
    · exact pool.indexed i process hslot
    simp only [getElem?_replicate] at hslot
    split at hslot
    · exact absurd hslot (by simp)
    · exact absurd hslot (by simp)

/-- The search loop of `ProcessPool::allocate_slot`, from `offset` on: the first
index that is not 0 and whose slot is empty or past the end of the vector. -/
def searchSlot (pool : Pool) : (fuel offset : Nat) → Option Nat
  | 0, _ => none
  | fuel + 1, offset =>
    let index := (pool.nextSearchIndex + offset) % pidMax
    if index = 0 then searchSlot pool fuel (offset + 1)
    else
      match pool.slots[index]? with
      | some (some _) => searchSlot pool fuel (offset + 1)
      | _ => some index

/-- `ProcessPool::allocate_slot`: the pid has generation 1 in every slot. -/
def allocateSlot (pool : Pool) : Option (Pid × Pool) :=
  match pool.searchSlot pidMax 0 with
  | none => none
  | some index =>
    some (⟨UInt16.ofNat index, 1⟩,
      { pool.grow index with nextSearchIndex := (index + 1) % pidMax })

def insert (pool : Pool) (process : Process) : Pool :=
  (pool.grow process.pid.index.toNat).setSlot process.pid.index.toNat
    (some process) (by intro process' h; cases h; rfl)

def freeSlot (pool : Pool) (pid : Pid) : Pool :=
  match pool.get pid with
  | none => pool
  | some _ => pool.setSlot pid.index.toNat none (by intro process h; cases h)

/-- The occupied slots, in slot order. -/
def processes (pool : Pool) : List Process :=
  pool.slots.filterMap id

theorem mem_processes (h : process ∈ pool.processes) : pool.get process.pid = some process := by
  simp only [processes, mem_filterMap, id_eq, exists_eq_right] at h
  obtain ⟨i, hi⟩ := mem_iff_getElem?.mp h
  simp [get, pool.indexed i process hi, hi]

theorem mem_processes_of_get (h : pool.get pid = some process) : process ∈ pool.processes := by
  simp only [processes, mem_filterMap, id_eq, exists_eq_right]
  exact mem_of_getElem? (getElem?_of_get h)

theorem processes_pid_nodup (pool : Pool) : (pool.processes.map Process.pid).Nodup := by
  have hpairwise : pool.slots.Pairwise (fun slot slot' =>
      ∀ process ∈ slot, ∀ process' ∈ slot', process.pid ≠ process'.pid) := by
    rw [pairwise_iff_getElem]
    intro i j hi hj _ process hproc process' hprocess' heq
    have hi' := pool.indexed i process (by rw [getElem?_eq_getElem hi, hproc])
    have hj' := pool.indexed j process' (by rw [getElem?_eq_getElem hj, hprocess'])
    rw [heq] at hi'
    omega
  rw [Nodup, pairwise_map, processes, pairwise_filterMap]
  exact hpairwise

theorem get_grow (pool : Pool) (index : Nat) (pid : Pid) :
    (pool.grow index).get pid = pool.get pid := by
  unfold get grow
  simp only [getElem?_append, getElem?_replicate]
  split_ifs with hlt hpad
  · rfl
  · rw [getElem?_eq_none (Nat.le_of_not_lt hlt)]
  · rw [getElem?_eq_none (Nat.le_of_not_lt hlt)]

/-- The search returns an index whose slot is free. -/
theorem searchSlot_spec (pool : Pool) :
    ∀ (fuel offset index : Nat), pool.searchSlot fuel offset = some index →
      index ≠ 0 ∧ index < pidMax ∧
        ∀ process, pool.slots[index]? ≠ some (some process) := by
  intro fuel
  induction fuel with
  | zero => intro offset index h; simp [searchSlot] at h
  | succ fuel ih =>
    intro offset index h
    simp only [searchSlot] at h
    split at h
    · exact ih (offset + 1) index h
    next hzero =>
      split at h
      · exact ih (offset + 1) index h
      next hfree =>
        cases h
        exact ⟨hzero, Nat.mod_lt _ (by decide), fun process hp =>
          hfree process hp⟩

/-- An allocated pid is not the idle one, names no process yet, and allocating
it changes no lookup. -/
theorem allocateSlot_spec {pool' : Pool} (h : pool.allocateSlot = some (pid, pool')) :
    pid ≠ Pid.idle ∧
      (∀ process, pool'.slots[pid.index.toNat]? ≠ some (some process)) ∧
      ∀ other, pool'.get other = pool.get other := by
  unfold allocateSlot at h
  split at h
  · cases h
  next index hsearch =>
    obtain ⟨_, hlt, hfree⟩ := searchSlot_spec pool _ _ _ hsearch
    cases h
    have hidx : (UInt16.ofNat index).toNat = index := by
      simp only [UInt16.toNat_ofNat']
      simp only [pidMax] at hlt
      omega
    refine ⟨fun hidle => ?_, ?_, fun other => ?_⟩
    · exact absurd (congrArg Pid.generation hidle) (show (1 : UInt8) ≠ 0 by decide)
    · intro process
      rw [hidx]
      simp only [grow, getElem?_append, getElem?_replicate]
      split_ifs
      · exact hfree process
      · simp
      · simp
    · exact get_grow ..

/-- A process inserted into a free slot is found under its pid, and the lookups
of all other pids are unchanged. -/
theorem get_insert (process : Process)
    (hfree : ∀ other, pool.slots[process.pid.index.toNat]? ≠ some (some other)) (pid : Pid) :
    (pool.insert process).get pid =
      if pid = process.pid then some process else pool.get pid := by
  have hlt : process.pid.index.toNat < (pool.grow process.pid.index.toNat).slots.length := by
    simp only [grow, length_append, length_replicate]
    omega
  by_cases hidx : process.pid.index.toNat = pid.index.toNat
  · have hnone : pool.get pid = none := by
      unfold get
      split
      next other hother =>
        rw [← hidx] at hother
        exact absurd hother (hfree other)
      · rfl
    simp [insert, setSlot, get, ← hidx, getElem?_set_self hlt, eq_comm]
  · have hne : pid ≠ process.pid := fun heq => hidx (by rw [heq])
    rw [if_neg hne, ← get_grow pool process.pid.index.toNat pid]
    simp [insert, setSlot, get, getElem?_set_ne hidx]

/-- Freeing a slot removes exactly the process with that pid. -/
theorem get_freeSlot (pool : Pool) (pid other : Pid) :
    (pool.freeSlot pid).get other = if other = pid then none else pool.get other := by
  unfold freeSlot
  split
  next hnone =>
    split
    next heq =>
      rw [heq, hnone]
    · rfl
  next process hsome =>
    have hslot := getElem?_of_get hsome
    have hlt : pid.index.toNat < pool.slots.length := by
      rw [getElem?_eq_some_iff] at hslot
      exact hslot.1
    by_cases hidx : pid.index.toNat = other.index.toNat
    · have hfreed : ((pool.setSlot pid.index.toNat none
          (by intro process h; cases h)).get other) = none := by
        simp [get, setSlot, ← hidx, getElem?_set_self hlt]
      rw [hfreed]
      split
      · rfl
      next hne =>
        simp only [get, ← hidx, hslot, get_pid hsome]
        rw [if_neg (fun h => hne h.symm)]
    · have hne : other ≠ pid := fun heq => hidx (by rw [heq])
      rw [if_neg hne]
      simp [get, setSlot, getElem?_set_ne hidx]

end Pool
end Bazzulto.Scheduler
