/-
  Vfs/Ring.lean --- a pipe's buffer as a ring.

  The bytes of a well-formed buffer are the front of its array, rotated by the head.
  `write_bytes` appends to them what fits and `read_bytes` takes from their front;
  neither stops.
-/
import Bazzulto.Vfs.Descriptor
import Mathlib.Data.List.Rotate

set_option autoImplicit false

namespace Bazzulto.Vfs

open List Foundation Foundation.Checked

/-- A ring buffer of the capacity of a pipe. -/
structure PipeBuffer.WellFormed (buffer : PipeBuffer) : Prop where
  data_length : buffer.data.length = pipeBufferCapacity
  readHead_lt : buffer.readHead < pipeBufferCapacity
  length_le : buffer.length ≤ pipeBufferCapacity

namespace PipeBuffer

variable {buffer : PipeBuffer} {allowed : Fault → Prop} {data : List UInt8} {head count : Nat}

/-- The bytes in the ring, the oldest first. -/
def contents (buffer : PipeBuffer) : List UInt8 :=
  (buffer.data.rotate buffer.readHead).take buffer.length

theorem WellFormed.new : WellFormed {} where
  data_length := length_replicate
  readHead_lt := by decide
  length_le := by decide

theorem WellFormed.retain (hbuffer : buffer.WellFormed) (side : PipeEnd) :
    (buffer.retain side).WellFormed := by
  cases side <;> exact ⟨hbuffer.data_length, hbuffer.readHead_lt, hbuffer.length_le⟩

theorem WellFormed.release (hbuffer : buffer.WellFormed) (side : PipeEnd) :
    (buffer.release side).WellFormed := by
  cases side <;> exact ⟨hbuffer.data_length, hbuffer.readHead_lt, hbuffer.length_le⟩

theorem WellFormed.length_contents (h : buffer.WellFormed) :
    buffer.contents.length = buffer.length := by
  rw [contents, length_take, length_rotate, h.data_length, Nat.min_eq_left h.length_le]

/-- A buffer with other bytes, that the same handles belong to. -/
structure Holds (buffer next : PipeBuffer) (bytes : List UInt8) : Prop where
  wellFormed : next.WellFormed
  contents_eq : next.contents = bytes
  writeEnds : next.writeEndCount = buffer.writeEndCount
  readEnds : next.readEndCount = buffer.readEndCount

theorem WellFormed.holds (h : buffer.WellFormed) : buffer.Holds buffer buffer.contents :=
  ⟨h, rfl, rfl, rfl⟩

/-! ## Reading -/

/-- The two parts that `read_bytes` copies are the front of the rotated array. -/
theorem take_rotate (hhead : head ≤ data.length) (hcount : count ≤ data.length) :
    (data.take (head + min count (data.length - head))).drop head ++
        (data.take (count - min count (data.length - head))).drop 0 =
      (data.rotate head).take count := by
  rw [rotate_eq_drop_append_take hhead, take_append, drop_take, drop_zero, Nat.add_sub_cancel_left,
    take_take, ← length_drop, ← take_eq_take_min, length_drop]
  congr 2
  omega

/-- Reading takes bytes from the front. -/
theorem WellFormed.readBytes_takes (h : buffer.WellFormed) (length : Nat) :
    Post allowed (fun result => result.1 = buffer.contents.take length ∧
      buffer.Holds result.2 (buffer.contents.drop length)) (buffer.readBytes length) := by
  have hcontents := h.length_contents
  obtain ⟨hdata, hhead, hfull⟩ := h
  unfold readBytes
  dsimp only
  split
  · obtain hlen | hempty := (by omega : length = 0 ∨ buffer.contents.length = 0)
    · rw [hlen]
      exact ⟨rfl, WellFormed.holds ⟨hdata, hhead, hfull⟩⟩
    · have hempty := length_eq_zero_iff.mp hempty
      rw [hempty, take_nil, drop_nil]
      exact ⟨rfl, ⟨hdata, hhead, hfull⟩, hempty, rfl, rfl⟩
  · have hbytes := take_rotate (hhead.le.trans hdata.ge)
      ((Nat.min_le_right length buffer.length).trans (hfull.trans hdata.ge))
    rw [hdata, ← take_take] at hbytes
    refine .bind (post_of_eq (sub_ok hhead.le)) ?_
    rintro _ rfl
    refine .bind (post_of_eq (range_ok (by omega) (by omega))) ?_
    rintro _ rfl
    refine .bind (post_of_eq (range_ok (by omega) (by omega))) ?_
    rintro _ rfl
    refine ⟨hbytes, ⟨hdata, Nat.mod_lt _ (by decide), by dsimp only; omega⟩, ?_, rfl, rfl⟩
    dsimp only [contents]
    rw [← hdata, rotate_mod, ← rotate_rotate,
      rotate_eq_drop_append_take (by rw [length_rotate]; omega),
      take_append_of_le_length (by rw [length_drop, length_rotate]; omega),
      ← drop_take, ← contents]
    obtain hle | hle := Nat.le_total length buffer.length
    · rw [Nat.min_eq_left hle]
    · rw [Nat.min_eq_right hle, drop_eq_nil_of_le hcontents.le,
        drop_eq_nil_of_le (hcontents.le.trans hle)]

/-! ## Writing -/

theorem rotate_append_of_length {front back : List UInt8} (h : front.length = head) :
    (front ++ back).rotate head = back ++ front := by
  subst h
  exact rotate_append_length_eq front back

/-- Bytes written behind those in the ring come after them. -/
theorem take_rotate_of_written {written bytes : List UInt8} {length : Nat}
    (hfits : length + bytes.length ≤ data.length)
    (h : written.rotate (head + length) =
      bytes ++ (data.rotate (head + length)).drop bytes.length) :
    (written.rotate head).take (length + bytes.length) =
      (data.rotate head).take length ++ bytes := by
  rw [← rotate_rotate, ← rotate_rotate] at h
  generalize hring : data.rotate head = ring at h
  have hlen : ring.length = data.length := by rw [← hring, length_rotate]
  have hfront : (ring.take length).length = length := by
    rw [length_take]
    omega
  have hall : written.rotate head =
      ring.take length ++ (bytes ++ ring.drop (length + bytes.length)) := by
    apply rotate_injective length
    dsimp only
    rw [h, rotate_append_of_length hfront, rotate_eq_drop_append_take (by omega),
      drop_append_of_le_length (by rw [length_drop]; omega), drop_drop,
      append_assoc]
  rw [hall, ← append_assoc]
  exact take_left' (by rw [length_append, hfront])

theorem rotate_splice {bytes : List UInt8} (hfits : head + bytes.length ≤ data.length) :
    (data.take head ++ bytes ++ data.drop (head + bytes.length)).rotate head =
      bytes ++ (data.rotate head).drop bytes.length := by
  rw [append_assoc, rotate_append_of_length (by rw [length_take]; omega),
    rotate_eq_drop_append_take (by omega : head ≤ data.length),
    drop_append_of_le_length (by rw [length_drop]; omega), drop_drop,
    append_assoc]

/-- Bytes that go on at the start of the array. -/
theorem rotate_splice_wrapped {first second : List UInt8}
    (hfirst : head + first.length = data.length) (hsecond : second.length ≤ head) :
    (second ++ (data.take head ++ first ++
        data.drop (head + first.length)).drop second.length).rotate head =
      first ++ second ++ (data.rotate head).drop (first ++ second).length := by
  have hfront : (data.take head).length = head := by
    rw [length_take]
    omega
  rw [hfirst, drop_length, append_nil, drop_append_of_le_length (by omega),
    ← append_assoc, rotate_append_of_length (by
      rw [length_append, length_drop]
      omega),
    rotate_eq_drop_append_take (by omega : head ≤ data.length), length_append,
    ← drop_drop, drop_left' (by rw [length_drop]; omega), append_assoc]

/-- Writing appends what fits. -/
theorem WellFormed.writeBytes_appends (h : buffer.WellFormed) (source : List UInt8) :
    Post allowed (fun result => result.1 = min source.length (pipeBufferCapacity - buffer.length) ∧
      buffer.Holds result.2 (buffer.contents ++ source.take result.1))
      (buffer.writeBytes source) := by
  obtain ⟨hdata, hhead, hfull⟩ := h
  refine .bind (post_of_eq (sub_ok hfull)) ?_
  rintro _ rfl
  dsimp only
  split
  next hzero =>
    refine ⟨hzero.symm, ?_⟩
    rw [take_zero, append_nil]
    exact WellFormed.holds ⟨hdata, hhead, hfull⟩
  · generalize htoWrite : min source.length (pipeBufferCapacity - buffer.length) = toWrite
    have hbytes : (source.take toWrite).length = toWrite := by
      rw [length_take]
      omega
    have hwriteHead : (buffer.readHead + buffer.length) % pipeBufferCapacity < pipeBufferCapacity :=
      Nat.mod_lt _ (by decide)
    -- whatever is written at the head of the free part
    have hholds : ∀ data : List UInt8, data.length = pipeBufferCapacity →
        data.rotate ((buffer.readHead + buffer.length) % pipeBufferCapacity) =
          source.take toWrite ++ (buffer.data.rotate
            ((buffer.readHead + buffer.length) % pipeBufferCapacity)).drop
              (source.take toWrite).length →
        buffer.Holds { buffer with data := data, length := buffer.length + toWrite }
          (buffer.contents ++ source.take toWrite) := by
      intro _ hsize hwritten
      rw [← hsize, rotate_mod, hsize, ← hdata, rotate_mod] at hwritten
      have happended := take_rotate_of_written (by omega) hwritten
      rw [hbytes] at happended
      exact ⟨⟨hsize, hhead, by dsimp only; omega⟩, happended, rfl, rfl⟩
    generalize (buffer.readHead + buffer.length) % pipeBufferCapacity = writeHead
      at hwriteHead hholds ⊢
    refine .bind (post_of_eq (sub_ok hwriteHead.le)) ?_
    rintro _ rfl
    generalize hchunk : min toWrite (pipeBufferCapacity - writeHead) = firstChunk
    have hfirst : (source.take firstChunk).length = firstChunk := by
      rw [length_take]
      omega
    refine .bind (post_of_eq (range_ok (Nat.zero_le _) (by omega))) ?_
    rintro _ rfl
    rw [drop_zero]
    refine .bind (post_of_eq (copyRange_ok (by omega) (by omega) (by omega))) ?_
    rintro _ rfl
    split
    next hwraps =>
      generalize hrest : (source.take toWrite).drop firstChunk = rest
      have hlen : rest.length = toWrite - firstChunk := by
        rw [← hrest, length_drop, hbytes]
      have hboth : source.take firstChunk ++ rest = source.take toWrite := by
        have hparts := take_append_drop firstChunk (source.take toWrite)
        rwa [take_take, Nat.min_eq_left hwraps.le, hrest] at hparts
      refine .bind (post_of_eq (range_ok hwraps.le (by omega))) ?_
      rintro _ rfl
      rw [hrest]
      refine .bind (post_of_eq (copyRange_ok (Nat.zero_le _) ?_ hlen)) ?_
      · simp only [length_append, length_take]
        omega
      rintro _ rfl
      rw [take_zero, nil_append, ← hlen]
      refine ⟨rfl, hholds _ ?_ ?_⟩
      · simp only [length_append, length_take, length_drop]
        omega
      · rw [← hboth, ← rotate_splice_wrapped (by omega) (by omega), hfirst]
    · have heq : firstChunk = toWrite := by omega
      subst heq
      refine ⟨rfl, hholds _ ?_ ?_⟩
      · simp only [length_append, length_take, length_drop]
        omega
      · rw [← rotate_splice (by omega), hbytes]

/-! ## Rounds -/

/-- Bytes go out at the read end, or come in at the write end. -/
def Flows (buffer next : PipeBuffer) (bytes : List UInt8) : PipeEnd → Prop
  | .readEnd => ∃ rest, buffer.contents = bytes ++ rest ∧ buffer.Holds next rest
  | .writeEnd => buffer.Holds next (buffer.contents ++ bytes)

theorem Flows.wellFormed {next : PipeBuffer} {bytes : List UInt8} {side : PipeEnd}
    (h : buffer.Flows next bytes side) : next.WellFormed := by
  cases side with
  | readEnd => exact h.choose_spec.2.wellFormed
  | writeEnd => exact Holds.wellFormed h

theorem WellFormed.readBytes_flows (h : buffer.WellFormed) (length : Nat) :
    Post allowed (fun result => buffer.Flows result.2 result.1 .readEnd)
      (buffer.readBytes length) := by
  refine (h.readBytes_takes length).mono fun result hresult => ⟨_, ?_, hresult.2⟩
  rw [hresult.1, take_append_drop]

theorem WellFormed.readNonblock (h : buffer.WellFormed) (side : PipeEnd) (length : Nat) :
    Post allowed (fun result => result.2.WellFormed ∧
      ∀ bytes, result.1 = .ok bytes → buffer.Flows result.2 bytes .readEnd)
      (buffer.readNonblock side length) := by
  unfold PipeBuffer.readNonblock
  split
  · exact ⟨h, nofun⟩
  split
  · refine ⟨h, fun _ hok => ?_⟩
    split at hok
    · cases hok
      exact ⟨_, rfl, h.holds⟩
    · cases hok
  · refine .bind (h.readBytes_flows length) fun _ hflows => ⟨hflows.wellFormed, ?_⟩
    rintro _ ⟨⟩
    exact hflows

/-- A round of a loop does not stop, and moves the bytes that it says. -/
theorem WellFormed.round (h : buffer.WellFormed) (call : PipeCall) :
    Post allowed (fun result => result.2.WellFormed ∧
      ∀ bytes rest, result.1 = .moves bytes rest → buffer.Flows result.2 bytes call.side)
      (call.round buffer) := by
  cases call with
  | read length =>
    dsimp only [PipeCall.round]
    split
    · refine .bind (h.readBytes_flows length) fun result hflows => ⟨hflows.wellFormed, ?_⟩
      rintro _ _ ⟨⟩
      exact hflows
    · refine ⟨h, fun _ _ hmoves => ?_⟩
      split at hmoves <;> cases hmoves
  | write remaining =>
    dsimp only [PipeCall.round]
    split
    · exact ⟨h, nofun⟩
    split
    · exact ⟨h, nofun⟩
    refine .bind (h.writeBytes_appends remaining) fun result hresult =>
      ⟨hresult.2.wellFormed, fun _ _ hmoves => ?_⟩
    dsimp only at hmoves
    split at hmoves
    · cases hmoves
      exact hresult.2
    · cases hmoves

end PipeBuffer
end Bazzulto.Vfs
