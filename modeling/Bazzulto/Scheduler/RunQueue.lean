/-
  Scheduler/RunQueue.lean --- the multilevel run queue of one core.

  Embeds `RunQueue` (kernel/src/scheduler/mod.rs): forty FIFO levels, one for
  each nice value, and a bitmap of the levels that are not empty.  That the
  bitmap tells the truth is a field of the structure, so `pop` may index the
  level it names.
-/
import Bazzulto.Foundation.Counting
import Bazzulto.Process.Basic
import Mathlib.Data.List.FinRange

set_option autoImplicit false

namespace Bazzulto.Scheduler

open Foundation Function

structure RunQueue where
  levels : Fin 40 → List Pid
  nonEmptyMask : BitVec 64
  mask_iff : ∀ bit : Nat, nonEmptyMask.getLsbD bit = true ↔ ∃ h : bit < 40, levels ⟨bit, h⟩ ≠ []

namespace RunQueue

variable {entries : List Pid} {queue queue' : RunQueue} {level : Fin 40} {pid : Pid}

/-! ## The bitmap -/

/-- `1u64 << level`. -/
def levelBit (level : Fin 40) : BitVec 64 := 1#64 <<< level.val

theorem getLsbD_levelBit (level : Fin 40) (bit : Nat) :
    (levelBit level).getLsbD bit = decide (bit = level.val) := by
  rcases lt_trichotomy bit level.val with hlt | heq | hgt
  · simp [levelBit, hlt, Nat.ne_of_lt hlt]
  · subst heq
    have : level.val < 64 := by omega
    simp [levelBit, this]
  · have hsub : bit - level.val ≠ 0 := by omega
    simp [levelBit, hsub, Nat.ne_of_gt hgt]

theorem ne_level {bit : Nat} (hbit : bit ≠ level.val) (h : bit < 40) :
    (⟨bit, h⟩ : Fin 40) ≠ level :=
  fun heq => hbit (congrArg Fin.val heq)

section

variable (queue : RunQueue)

theorem mask_iff_set (level : Fin 40) (hne : entries ≠ []) (bit : Nat) :
    (queue.nonEmptyMask ||| levelBit level).getLsbD bit = true ↔
      ∃ h : bit < 40, update queue.levels level entries ⟨bit, h⟩ ≠ [] := by
  rw [BitVec.getLsbD_or, getLsbD_levelBit, Bool.or_eq_true, queue.mask_iff]
  obtain rfl | hbit := eq_or_ne bit level.val
  · simp [hne]
  · have hlevel := ne_level hbit
    simp [hbit, hlevel]

/-- Clearing a level's bit is right when the level has become empty. -/
theorem mask_iff_clear (level : Fin 40) (bit : Nat) :
    (queue.nonEmptyMask &&& ~~~levelBit level).getLsbD bit = true ↔
      ∃ h : bit < 40, update queue.levels level [] ⟨bit, h⟩ ≠ [] := by
  rw [BitVec.getLsbD_and, BitVec.getLsbD_not, getLsbD_levelBit, Bool.and_eq_true, queue.mask_iff]
  obtain rfl | hbit := eq_or_ne bit level.val
  · simp
  have hlevel := ne_level hbit
  constructor
  · rintro ⟨⟨h, hne⟩, _⟩
    exact ⟨h, by simpa [hlevel h] using hne⟩
  rintro ⟨h, hne⟩
  refine ⟨⟨h, by simpa [hlevel h] using hne⟩, ?_⟩
  have : bit < 64 := by omega
  simp [hbit, this]

theorem mask_iff_keep (level : Fin 40) (hold : queue.levels level ≠ []) (hne : entries ≠ [])
    (bit : Nat) :
    queue.nonEmptyMask.getLsbD bit = true ↔
      ∃ h : bit < 40, update queue.levels level entries ⟨bit, h⟩ ≠ [] := by
  rw [queue.mask_iff]
  obtain rfl | hbit := eq_or_ne bit level.val
  · simp [hne, hold]
  · have hlevel := ne_level hbit
    simp [hlevel]

theorem trailingZeros_mask_lt (h : queue.nonEmptyMask ≠ 0#64) :
    Process.trailingZeros queue.nonEmptyMask < 40 :=
  ((queue.mask_iff _).mp (BitVec.getLsbD_true_ctz_of_ne_zero h)).1

/-! ## Operations -/

def empty : RunQueue where
  levels := fun _ => []
  nonEmptyMask := 0#64
  mask_iff := by simp

/-- `nice_to_priority_level`: nice -20 is level 0, nice 19 is level 39. -/
def niceToPriorityLevel (nice : Nice) : Fin 40 :=
  ⟨(nice.val + 20).toNat, by have := nice.property; omega⟩

def pushWithNice (pid : Pid) (nice : Nice) : RunQueue :=
  let level := niceToPriorityLevel nice
  { levels := update queue.levels level (queue.levels level ++ [pid])
    nonEmptyMask := queue.nonEmptyMask ||| levelBit level
    mask_iff := queue.mask_iff_set level (by simp) }

/-- Take the front of a non-empty level, clearing its bit if that was the last
entry. -/
def popFront (level : Fin 40) : Option (Pid × RunQueue) :=
  match h : queue.levels level with
  | [] => none
  | pid :: [] =>
    some (pid,
      { levels := update queue.levels level []
        nonEmptyMask := queue.nonEmptyMask &&& ~~~levelBit level
        mask_iff := queue.mask_iff_clear level })
  | pid :: next :: rest =>
    some (pid,
      { levels := update queue.levels level (next :: rest)
        nonEmptyMask := queue.nonEmptyMask
        mask_iff := queue.mask_iff_keep level (by simp [h]) (by simp) })

/-- `RunQueue::pop`: the front of the highest-priority non-empty level. -/
def pop : Option (Pid × RunQueue) :=
  if h : queue.nonEmptyMask = 0#64 then none
  else
    queue.popFront
      ⟨Process.trailingZeros queue.nonEmptyMask, queue.trailingZeros_mask_lt h⟩

/-- `RunQueue::pop_lowest_priority`: the front of the lowest-priority non-empty
level, which work stealing takes. -/
def popLowestPriority : Option (Pid × RunQueue) :=
  match (List.finRange 40).reverse.find?
      (fun level => !(queue.levels level).isEmpty) with
  | none => none
  | some level => queue.popFront level

def totalLen : Nat :=
  ∑ level, (queue.levels level).length

/-- The bitmap `remove` leaves: it clears the bit of each level that lost its
last entry. -/
def removeMask (pid : Pid) : BitVec 64 :=
  (List.finRange 40).foldl (fun mask level =>
    let before := (queue.levels level).length
    let after := (queue.levels level).filter (· ≠ pid)
    if after.length < before ∧ after = [] then mask &&& ~~~levelBit level
    else mask) queue.nonEmptyMask

/-- Clearing the bits of selected levels one after the other. -/
theorem getLsbD_foldl_clear (selected : Fin 40 → Prop) [DecidablePred selected] (bit : Nat) :
    ∀ (levels : List (Fin 40)) (mask : BitVec 64), (levels.foldl (fun mask level =>
        if selected level then mask &&& ~~~levelBit level else mask)
        mask).getLsbD bit = true ↔
      mask.getLsbD bit = true ∧ ∀ level ∈ levels, level.val = bit → ¬ selected level := by
  intro levels
  induction levels with
  | nil => intro mask; simp
  | cons level rest ih =>
    intro _
    rw [List.foldl_cons, ih]
    by_cases hsel : selected level
    · simp only [if_pos hsel, BitVec.getLsbD_and, BitVec.getLsbD_not,
        getLsbD_levelBit, List.forall_mem_cons]
      by_cases hbit : bit = level.val
      · simp [hbit, hsel]
      have hbit' : level.val ≠ bit := fun h => hbit h.symm
      simp only [hbit, decide_false, Bool.not_false, Bool.and_true,
        Bool.and_eq_true, decide_eq_true_eq, hbit', false_implies, true_and]
      constructor
      · rintro ⟨⟨hmask, _⟩, hrest⟩
        exact ⟨hmask, hrest⟩
      · rintro ⟨hmask, hrest⟩
        exact ⟨⟨hmask, BitVec.lt_of_getLsbD hmask⟩, hrest⟩
    · simp [hsel]

/-- `RunQueue::remove`: drop every entry for `pid`, on every level. -/
def remove (pid : Pid) : RunQueue where
  levels := fun level => (queue.levels level).filter (· ≠ pid)
  nonEmptyMask := queue.removeMask pid
  mask_iff := by
    intro bit
    unfold removeMask
    rw [getLsbD_foldl_clear (fun level =>
      ((queue.levels level).filter (· ≠ pid)).length < (queue.levels level).length ∧
      (queue.levels level).filter (· ≠ pid) = []), queue.mask_iff]
    constructor
    · rintro ⟨⟨h, hne⟩, hkept⟩
      refine ⟨h, fun hempty => ?_⟩
      refine hkept ⟨bit, h⟩ (List.mem_finRange _) rfl ⟨?_, hempty⟩
      rw [hempty]
      exact List.length_pos_iff.mpr hne
    · rintro ⟨h, hne⟩
      refine ⟨⟨h, fun hempty => hne (by simp [hempty])⟩, ?_⟩
      rintro level _ rfl ⟨_, hempty⟩
      exact hne hempty

end

/-! ## Counting entries -/

/-- How often `pid` occurs in the queue, all levels together. -/
def count (queue : RunQueue) (pid : Pid) : Nat :=
  ∑ level, (queue.levels level).count pid

@[simp] theorem count_empty (pid : Pid) : empty.count pid = 0 := by
  simp [count, empty]

theorem count_of_levels_update (h : queue'.levels = update queue.levels level entries) (pid : Pid) :
    queue'.count pid + (queue.levels level).count pid = queue.count pid + entries.count pid := by
  unfold count
  rw [h]
  exact sum_update_add queue.levels (fun entries => entries.count pid) level entries

theorem count_pushWithNice (queue : RunQueue) (pid other : Pid) (nice : Nice) :
    (queue.pushWithNice pid nice).count other =
      queue.count other + if other = pid then 1 else 0 := by
  have hlevels : (queue.pushWithNice pid nice).levels =
      update queue.levels (niceToPriorityLevel nice)
        (queue.levels (niceToPriorityLevel nice) ++ [pid]) := rfl
  have hmove := count_of_levels_update hlevels other
  rw [List.count_append, List.count_singleton] at hmove
  have hbeq : (pid == other) = decide (other = pid) := by
    simp [eq_comm, beq_eq_decide]
  simp only [hbeq, decide_eq_true_eq] at hmove
  omega

/-- Taking the front of a level removes one occurrence of what it returns. -/
theorem count_popFront (h : queue.popFront level = some (pid, queue')) (other : Pid) :
    queue.count other = queue'.count other + if other = pid then 1 else 0 := by
  have hlevels : ∃ rest, queue.levels level = pid :: rest ∧
      queue'.levels = update queue.levels level rest := by
    unfold popFront at h
    split at h
    · cases h
    next heq =>
      cases h
      exact ⟨[], heq, rfl⟩
    next heq =>
      cases h
      exact ⟨_, heq, rfl⟩
  obtain ⟨_, hfront, hupdate⟩ := hlevels
  have hmove := count_of_levels_update hupdate other
  rw [hfront, List.count_cons] at hmove
  have hbeq : (pid == other) = decide (other = pid) := by
    simp [eq_comm, beq_eq_decide]
  simp only [hbeq, decide_eq_true_eq] at hmove
  omega

theorem count_remove (queue : RunQueue) (pid other : Pid) :
    (queue.remove pid).count other = if other = pid then 0 else queue.count other := by
  unfold count remove
  obtain rfl | h := eq_or_ne other pid
  · rw [if_pos rfl]
    exact Finset.sum_eq_zero fun level _ =>
      List.count_eq_zero.mpr (by simp)
  · simp [h]

end RunQueue
end Bazzulto.Scheduler
