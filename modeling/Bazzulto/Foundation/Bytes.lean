/-
  Foundation/Bytes.lean --- little-endian words, and buffers of bytes.

  Both the user memory the signal code writes to and the sectors of a FAT32
  volume hold machine words byte by byte, lowest byte first.  A buffer is a
  function from positions to bytes: `slice` reads a run of it and `splice`
  overwrites one, and the two lemmas relating them (same run, disjoint runs)
  are all that proofs about disk contents need.

  Nothing in this file mentions the kernel.
-/
import Mathlib.Data.List.GetD
import Mathlib.Data.Nat.ModEq
import Mathlib.Tactic.Ring

set_option autoImplicit false

namespace Bazzulto.Foundation

open List

variable {start start' len i value : Nat} {data : List UInt8}

/-- The number a list of bytes stands for, lowest byte first. -/
def leValue : List UInt8 → Nat
  | [] => 0
  | byte :: rest => byte.toNat + 256 * leValue rest

/-- The `count` lowest bytes of a number, lowest byte first. -/
def leBytes : (count : Nat) → Nat → List UInt8
  | 0, _ => []
  | count + 1, value => UInt8.ofNat value :: leBytes count (value / 256)

@[simp] theorem leBytes_length (count value : Nat) : (leBytes count value).length = count := by
  induction count generalizing value with
  | zero => rfl
  | succ count ih => simp [leBytes, ih]

/-- Reading back the bytes of a number gives the number modulo the word size. -/
theorem leValue_leBytes (count value : Nat) :
    leValue (leBytes count value) = value % 256 ^ count := by
  induction count generalizing value with
  | zero => simp [leBytes, leValue, Nat.mod_one]
  | succ count ih =>
    have hbyte : (UInt8.ofNat value).toNat = value % 256 := by simp
    rw [leBytes, leValue, ih, hbyte, pow_succ, Nat.mul_comm (256 ^ count) 256, Nat.mod_mul]

theorem leValue_lt (bytes : List UInt8) : leValue bytes < 256 ^ bytes.length := by
  induction bytes with
  | nil => simp [leValue]
  | cons byte rest ih =>
    have hbyte : byte.toNat < 256 := byte.toNat_lt
    rw [leValue, length_cons]
    omega

/-- Bytes are determined by the number they stand for. -/
theorem leBytes_leValue (bytes : List UInt8) : leBytes bytes.length (leValue bytes) = bytes := by
  induction bytes with
  | nil => rfl
  | cons byte rest ih =>
    have hbyte : byte.toNat < 256 := byte.toNat_lt
    have hlow : UInt8.ofNat (byte.toNat + 256 * leValue rest) = byte := by
      apply UInt8.toNat_inj.mp
      simp only [UInt8.toNat_ofNat']
      omega
    have hhigh : (byte.toNat + 256 * leValue rest) / 256 = leValue rest := by omega
    rw [leValue, length_cons, leBytes, hlow, hhigh, ih]

/-! ## Buffers -/

/-- Bytes by position. -/
abbrev Buffer := Nat → UInt8

/-- The `len` bytes of a buffer from `start` on. -/
def slice (buf : Buffer) (start len : Nat) : List UInt8 :=
  (List.range len).map fun i => buf (start + i)

/-- A buffer with the bytes from `start` on overwritten. -/
def splice (buf : Buffer) (start : Nat) (data : List UInt8) : Buffer :=
  fun i => if start ≤ i ∧ i < start + data.length then data.getD (i - start) 0 else buf i

/-- The little-endian 32-bit word at `start`. -/
def word (buf : Buffer) (start : Nat) : Nat := leValue (slice buf start 4)

@[simp] theorem slice_length (buf : Buffer) (start len : Nat) :
    (slice buf start len).length = len := by
  simp [slice]

variable {buf buf' : Buffer}

theorem slice_congr (h : ∀ i < len, buf (start + i) = buf' (start' + i)) :
    slice buf start len = slice buf' start' len :=
  map_congr_left fun i hi => h i (mem_range.mp hi)

theorem getD_slice (hi : i < len) : (slice buf start len).getD i 0 = buf (start + i) := by
  simp [slice, hi]

theorem splice_outside (hi : i < start ∨ start + data.length ≤ i) :
    splice buf start data i = buf i :=
  if_neg (by omega)

theorem splice_inside (hi : i < data.length) :
    splice buf start data (start + i) = data.getD i 0 := by
  rw [splice, if_pos ⟨by omega, by omega⟩, Nat.add_sub_cancel_left]

theorem splice_congr (h : buf i = buf' i) : splice buf start data i = splice buf' start data i := by
  unfold splice
  rw [h]

/-- What was written is what is read. -/
theorem slice_splice (buf : Buffer) (start : Nat) (data : List UInt8) :
    slice (splice buf start data) start data.length = data := by
  apply ext_getElem
  · simp
  · intro _ _ hi
    simp [slice, splice_inside hi, hi]

theorem slice_splice_of_disjoint (h : start' + len ≤ start ∨ start + data.length ≤ start') :
    slice (splice buf start data) start' len = slice buf start' len :=
  slice_congr fun i _ => splice_outside (by omega)

/-- Two adjacent overwritten runs are one. -/
theorem splice_append (buf : Buffer) (start : Nat) (data data' : List UInt8) :
    splice (splice buf start data) (start + data.length) data' =
      splice buf start (data ++ data') := by
  funext i
  by_cases hfirst : start ≤ i ∧ i < start + data.length
  · obtain ⟨j, rfl⟩ : ∃ j, i = start + j := ⟨i - start, by omega⟩
    have hj : j < data.length := by omega
    rw [splice_outside (by omega), splice_inside hj, splice_inside (by simp; omega)]
    exact (getD_append data data' 0 j hj).symm
  · by_cases hsecond : start + data.length ≤ i ∧ i < start + data.length + data'.length
    · obtain ⟨j, rfl⟩ : ∃ j, i = start + data.length + j := ⟨i - start - data.length, by omega⟩
      have hj : j < data'.length := by omega
      rw [splice_inside hj, Nat.add_assoc, splice_inside (by simp; omega),
        getD_append_right data data' 0 _ (by omega), Nat.add_sub_cancel_left]
    · rw [splice_outside (by omega), splice_outside (by omega),
        splice_outside (by rw [length_append]; omega)]

theorem slice_add (buf : Buffer) (start len len' : Nat) :
    slice buf start (len + len') = slice buf start len ++ slice buf (start + len) len' := by
  unfold slice
  rw [range_add]
  simp [Nat.add_assoc]

/-- Blocks of one size, written one behind the other, are read back one by
one. -/
theorem slice_splice_flatten {size : Nat} {blocks : List (List UInt8)} {j : Nat} (buf : Buffer)
    (start : Nat) (hsize : ∀ block ∈ blocks, block.length = size) (hj : j < blocks.length) :
    slice (splice buf start blocks.flatten) (start + j * size) size = blocks.getD j [] := by
  induction blocks generalizing buf start j with
  | nil => simp at hj
  | cons block rest ih =>
    have hblock := hsize block mem_cons_self
    rw [flatten_cons, ← splice_append, hblock]
    cases j with
    | zero =>
      rw [Nat.zero_mul, Nat.add_zero, slice_splice_of_disjoint (.inl le_rfl)]
      have hread := slice_splice buf start block
      rwa [hblock] at hread
    | succ j =>
      have hnext : start + (j + 1) * size = start + size + j * size := by ring
      rw [hnext, ih _ _ (fun b hb => hsize b (mem_cons_of_mem _ hb)) (by simpa using hj)]
      simp

/-- A buffer with `len` bytes from `start` on taken from another buffer. -/
def overlay (buf : Buffer) (start len : Nat) (window : Buffer) : Buffer :=
  fun i => if start ≤ i ∧ i < start + len then window (i - start) else buf i

variable {window : Buffer}

/-- A window is edited in place. -/
theorem overlay_splice {offset : Nat} (h : offset + data.length ≤ len) :
    overlay buf start len (splice window offset data) =
      splice (overlay buf start len window) (start + offset) data := by
  funext i
  by_cases hin : start ≤ i ∧ i < start + len
  · obtain ⟨j, rfl⟩ : ∃ j, i = start + j := ⟨i - start, by omega⟩
    rw [overlay, if_pos hin, Nat.add_sub_cancel_left]
    by_cases hj : offset ≤ j ∧ j < offset + data.length
    · obtain ⟨k, rfl⟩ : ∃ k, j = offset + k := ⟨j - offset, by omega⟩
      rw [splice_inside (by omega), ← Nat.add_assoc, splice_inside (by omega)]
    · rw [splice_outside (by omega), splice_outside (by omega), overlay, if_pos hin,
        Nat.add_sub_cancel_left]
  · rw [overlay, if_neg hin, splice_outside (by omega), overlay, if_neg hin]

/-- Putting back what is there changes nothing. -/
theorem overlay_self (h : ∀ i < len, window i = buf (start + i)) :
    overlay buf start len window = buf := by
  funext i
  unfold overlay
  split
  · rw [h _ (by omega)]
    congr 1
    omega
  · rfl

theorem word_splice : word (splice buf start (leBytes 4 value)) start = value % 2 ^ 32 := by
  have h := slice_splice buf start (leBytes 4 value)
  rw [leBytes_length] at h
  rw [word, h, leValue_leBytes]
  norm_num

theorem word_splice_of_disjoint (h : start' + 4 ≤ start ∨ start + 4 ≤ start') :
    word (splice buf start (leBytes 4 value)) start' = word buf start' := by
  rw [word, slice_splice_of_disjoint (by simpa using h), word]

theorem word_lt (buf : Buffer) (start : Nat) : word buf start < 2 ^ 32 := by
  have h := leValue_lt (slice buf start 4)
  rwa [slice_length] at h

end Bazzulto.Foundation
