/-
  Vfs/Soundness.lean --- the states that the calls lead to.

  A state is sound if every pipe is a ring buffer of its capacity, no file is
  larger than a vector can be, and every position in a file of the tmpfs fits in
  a signed integer.  `Yields` says what a call does to the inodes and that it leads
  from sound states to sound ones; `step_keeps` puts this together for all calls, and
  every fact about the inodes of a run is derived from it.
-/
import Bazzulto.Vfs.Effect
import Bazzulto.Vfs.Ring

set_option autoImplicit false

namespace Bazzulto.Vfs

open List Option Foundation Foundation.Checked Inodes FileDescriptorTable

variable {pipes : Pipes} {limit : Nat} {inodes : Inodes}

/-! ## Pipes -/

theorem PipeBuffer.WellFormed.writeBlocking {buffer : PipeBuffer} {allowed : Fault → Prop}
    (hbuffer : buffer.WellFormed) (remaining : List UInt8) :
    Post allowed (fun result => result.2.2.WellFormed) (buffer.writeBlocking remaining) := by
  induction hlen : remaining.length using Nat.strongRecOn generalizing buffer remaining with
  | ind count ih =>
    have hround : Post allowed _ _ := (hbuffer.round (.write remaining)).mono
      fun _ hresult => hresult.1
    unfold PipeBuffer.writeBlocking
    split
    next heq => rw [heq] at hround; exact hround
    next heq =>
      rw [heq] at hround
      exact ih _ (hlen ▸ PipeCall.length_rest heq) hround _ rfl
    next heq => rw [heq] at hround; exact hround

/-- All pipes are ring buffers. -/
def Pipes.Sound (pipes : Pipes) : Prop := ∀ pipe, (pipes.buffer pipe).WellFormed

theorem Pipes.Sound.set (hpipes : pipes.Sound) {buffer : PipeBuffer} (hbuffer : buffer.WellFormed)
    (pipe : PipeId) : (pipes.set pipe buffer).Sound := by
  intro other
  dsimp only [Pipes.set]
  by_cases heq : other = pipe
  · rw [heq, Function.update_self]
    exact hbuffer
  · rw [Function.update_of_ne heq]
    exact hpipes other

theorem Pipes.Sound.push (hpipes : pipes.Sound) : pipes.push.2.Sound :=
  hpipes.set .new pipes.next

theorem Pipes.Sound.retain (hpipes : pipes.Sound) (descriptor : FileDescriptor) :
    (pipes.retain descriptor).Sound := by
  cases descriptor with
  | pipe pipe side => exact hpipes.set ((hpipes pipe).retain side) pipe
  | ramFsFile | tty | procFile | inoFile => exact hpipes

theorem Pipes.Sound.release (hpipes : pipes.Sound) (descriptor : FileDescriptor) :
    (pipes.release descriptor).Sound := by
  cases descriptor with
  | pipe pipe side => exact hpipes.set ((hpipes pipe).release side) pipe
  | ramFsFile | tty | procFile | inoFile => exact hpipes

/-! ## Inodes -/

/-- No file is larger than a vector, and no inode of a driver is out of use. -/
structure Inodes.Sound (limit : Nat) (inodes : Inodes) : Prop where
  files : ∀ inode inner, inodes.node inode = .file inner → inner.data.length ≤ limit
  unused : ∀ inode, inodes.next ≤ inode → (inodes.node inode).isForeign = false

/-- Another node of the same kind keeps the inodes sound, and those of drivers. -/
theorem Inodes.Sound.set (hsound : inodes.Sound limit) {inode : InodeId} {node : Node}
    (hlen : ∀ inner, node = .file inner → inner.data.length ≤ limit)
    (hkind : node.isForeign = (inodes.node inode).isForeign) :
    (inodes.set inode node).Sound limit ∧
      ∀ other, (inodes.node other).isForeign = true →
        ((inodes.set inode node).node other).isForeign = true := by
  have hsame : ∀ other, ((inodes.set inode node).node other).isForeign =
      (inodes.node other).isForeign := by
    intro other
    by_cases heq : other = inode
    · rw [heq, set_node_self, hkind]
    · rw [set_node_of_ne heq]
  refine ⟨⟨fun other inner hinner => ?_, fun other hother => ?_⟩, fun other hother =>
    (hsame other).trans hother⟩
  · by_cases heq : other = inode
    · rw [heq, set_node_self] at hinner
      exact hlen inner hinner
    · exact hsound.files other inner (set_node_of_ne heq ▸ hinner)
  · rw [hsame]
    exact hsound.unused other hother

theorem Inodes.Sound.push (hsound : inodes.Sound limit) {node : Node}
    (hnode : ∀ inner, node = .file inner → inner.data = []) :
    (inodes.push node).2.Sound limit ∧
      ∀ other, (inodes.node other).isForeign = true →
        ((inodes.push node).2.node other).isForeign = true := by
  refine ⟨⟨fun other inner hinner => ?_, fun other hother => ?_⟩, fun other hother => ?_⟩
  · by_cases heq : other = inodes.next
    · rw [heq, push_node_self] at hinner
      rw [hnode inner hinner]
      exact Nat.zero_le _
    · exact hsound.files other inner (push_node_of_ne heq ▸ hinner)
  · have hnext : inodes.next + 1 ≤ other := hother
    rw [push_node_of_ne (Nat.ne_of_gt hnext)]
    exact hsound.unused other (Nat.le_of_succ_le hnext)
  · rw [push_node_of_ne, hother]
    rintro rfl
    rw [hsound.unused _ le_rfl] at hother
    cases hother

/-- A change keeps the inodes sound, and an inode of a driver one of a driver. -/
theorem Change.sound {writes : InodeId → Prop} {before after : Inodes}
    (hchange : Change limit writes before after) (hsound : before.Sound limit) :
    after.Sound limit ∧
      ∀ inode, (before.node inode).isForeign = true → (after.node inode).isForeign = true := by
  induction hchange with
  | refl => exact ⟨hsound, fun _ h => h⟩
  | @write inodes inode old new hnode _ hlen =>
    have hold := hsound.files inode old hnode
    refine hsound.set (fun inner hinner => ?_) (by rw [hnode]; rfl)
    obtain rfl := Node.file.inj hinner
    omega
  | entries hnode | answers hnode => exact hsound.set (by simp) (by rw [hnode]; rfl)
  | push hnode => exact hsound.push hnode
  | trans _ _ ih ih' =>
    obtain ⟨hmiddle, hfirst⟩ := ih hsound
    obtain ⟨hlast, hsecond⟩ := ih' hmiddle
    exact ⟨hlast, fun inode hinode => hsecond inode (hfirst inode hinode)⟩

/-! ## Tables -/

namespace FileDescriptorTable

instance : Lasting Pipes.Sound :=
  ⟨fun descriptor h => h.retain descriptor, fun descriptor h => h.release descriptor⟩

variable {P : FileDescriptor → Prop} {table : FileDescriptorTable} {descriptor : FileDescriptor}
  {fd : Nat}

theorem Good.pipe (hgood : Good P Pipes.Sound table pipes)
    (hpipe : ∀ pipe side, P (.pipe pipe side)) :
    Good P Pipes.Sound (table.pipe pipes).2.1 (table.pipe pipes).2.2 := by
  have hpushed : table.Good P Pipes.Sound pipes.push.2 := ⟨hgood.1, hgood.2.push⟩
  unfold FileDescriptorTable.pipe
  dsimp only
  have hread := hpushed.install (hpipe pipes.push.1 .readEnd)
  split
  · exact hread.release (.pipe pipes.push.1 .writeEnd)
  have hwrite := hread.install (hpipe pipes.push.1 .writeEnd)
  split
  · dsimp only
    cases hclose : FileDescriptorTable.close _ _ _ with
    | none => exact hwrite
    | some after => exact hwrite.close hclose
  · exact hwrite

section

variable (table : FileDescriptorTable) (pipes : Pipes)

/-- The number that `install` returns is one of the table. -/
theorem install_lt (descriptor : FileDescriptor) :
    (table.install pipes descriptor).1 < maxOpenFileDescriptors := by
  have hbounded := table.bounded
  unfold FileDescriptorTable.install
  split
  next fd hfd =>
    have hlt : fd < table.slots.length := (List.findIdx?_eq_some_iff_getElem.mp hfd).1
    omega
  · split
    next hlt => exact Int.ofNat_lt.mpr hlt
    · exact (by decide : (-1 : Int) < maxOpenFileDescriptors)

theorem installAt_lt (fd : Nat) (descriptor : FileDescriptor) :
    (table.installAt pipes fd descriptor).1 < maxOpenFileDescriptors := by
  unfold FileDescriptorTable.installAt
  split
  next hlt => exact Int.ofNat_lt.mpr hlt
  · exact (by decide : (-1 : Int) < maxOpenFileDescriptors)

theorem dupAtOrAbove_lt (fd minFd : Nat) :
    (table.dupAtOrAbove pipes fd minFd).1 < maxOpenFileDescriptors := by
  unfold FileDescriptorTable.dupAtOrAbove
  split
  · exact (by decide : (-9 : Int) < maxOpenFileDescriptors)
  · exact installAt_lt ..

end

theorem lt_of_get (hget : table.get fd = some descriptor) : fd < maxOpenFileDescriptors := by
  refine Nat.lt_of_lt_of_le ?_ table.bounded
  by_contra hle
  rw [get, List.getElem?_eq_none (Nat.le_of_not_lt hle)] at hget
  cases hget

end FileDescriptorTable

/-! ## Sound states -/

/-- A position in a file of the tmpfs fits in a signed integer. -/
def FileDescriptor.Fits (inodes : Inodes) : FileDescriptor → Prop
  | .inoFile inode position => position < 2 ^ 63 ∨ (inodes.node inode).isForeign = true
  | _ => True

/-- A sound state of the system and a process. -/
structure Sound (system : System) (caller : Caller) : Prop where
  limit_lt : system.limit < 2 ^ 63
  inodes : system.inodes.Sound system.limit
  pipes : system.pipes.Sound
  table : caller.table.Within (FileDescriptor.Fits system.inodes)

open Sound

/-- The inodes have changed as described by `Change`, and after a sound state the table
and the pipes are good. -/
structure Keeps (writes : InodeId → Prop) (system : System) (caller : Caller)
    (after : System × Caller) : Prop where
  change : Change system.limit writes system.inodes after.1.inodes
  limit : after.1.limit = system.limit
  good : Sound system caller →
    after.2.table.Good (FileDescriptor.Fits system.inodes) Pipes.Sound after.1.pipes

/-- What an outcome keeps; if `ok`, it is no fault but one of memory. -/
def Yields (ok : Prop) (writes : InodeId → Prop) (system : System) (caller : Caller)
    (outcome : Outcome) : Prop :=
  Post (fun fault => Sound system caller → ok → fault = .allocation)
    (fun result => Keeps writes system caller result.2) outcome

/-- The descriptor is that of a pipe or of a file of the tmpfs. -/
def Plain (system : System) : FileDescriptor → Prop
  | .pipe _ _ => True
  | .inoFile inode _ => ∃ inner, system.inodes.node inode = .file inner
  | _ => False

/-- A call that goes through a descriptor finds that of a pipe or of a file of the
tmpfs, or none. -/
def Covered (system : System) (caller : Caller) : Call → Prop
  | .read fd _ _ | .write fd _ _ | .pread64 fd _ _ _ | .pwrite64 fd _ _ _ | .ftruncate fd _
  | .seek fd _ _ =>
    0 ≤ fd → ∀ descriptor, caller.table.get fd.toNat = some descriptor → Plain system descriptor
  | _ => True

/-- The strings of `sys_mount` fit in their buffers. -/
def MountFits (source target : UserString) : Prop :=
  source.bytes.length ≤ 257 ∧ (target.Readable → target.bytes.length ≤ 257)

/-- A path of `sys_mount`, decoded. -/
def mountPath (string : UserString) : Option Text :=
  (copyUserCstr string).bind fun bytes =>
    if bytes.length = 0 ∨ 256 < bytes.length then none else fromUtf8 bytes

/-- The type of a file system, decoded. -/
def mountType (string : UserString) : Option Text :=
  (copyUserCstr string).bind fun bytes =>
    if (bytes.take 16).length = 0 then none else fromUtf8 (bytes.take 16)

/-- A partition that is mounted as FAT32 and begins with the boot sector of such a volume has
clusters that can be counted. -/
def VolumeFits (target fstype : Text) (device : Fat32.BlockDevice) (partition : Fat32.Partition) :
    Prop :=
  (posixTarget target).isSome → eqIgnoreAsciiCase fstype "fat32".toList = true →
    partition.isFat32Candidate = true → device.IsFat32 partition.startLba →
      (device.bpb partition.startLba).Counted

/-- What `sys_mount` reads from a disk does not stop the kernel: its partition table, and the
boot sector of the partition. -/
def DiskFits (drivers : Drivers) (source target fstype : Text) : Prop :=
  ∀ index part, parseMountSource source = some (index, part) →
    ∀ device, drivers.getDisk index = some device →
      device.TableFits ∧ ∀ partitions partition, device.partitions = .ok partitions →
        partitions[part]? = some partition → VolumeFits target fstype device partition

/-- The arguments of the call do not stop the kernel. -/
def Harmless (system : System) (caller : Caller) : Call → Prop
  | .read fd pointer length => 0 ≤ fd → validateUserPointer pointer length = true → fd < 1024
  | .pwrite64 fd pointer source offset =>
    ∀ inode, descriptorInode caller fd = some inode →
      validateUserPointer pointer source.length = true →
      offset.toNat + source.length < 2 ^ 64
  | .seek fd offset whence =>
    0 ≤ fd → ∀ inode position, caller.table.get fd.toNat = some (.inoFile inode position) →
      (whence = 1 → Checked.Signed (position + offset.toInt)) ∧
        (whence = 2 → Checked.Signed ((system.inodes.node inode).stat.size + offset.toInt))
  | .fcntl fd cmd _ => 0 ≤ fd → (cmd = 1 ∨ cmd = 2 ∨ cmd = 3 ∨ cmd = 4) → fd < 1024
  | .mount source target fstype =>
    caller.grantedActions.contains .mountFilesystem = true → source.Readable →
      MountFits source target ∧ ∀ device place kind, mountPath source = some device →
        mountPath target = some place → mountType fstype = some kind →
          DiskFits system.drivers device place kind
  | _ => True

section Yields

variable {ok : Prop} {writes : InodeId → Prop} {system : System} {caller : Caller} {inode : InodeId}
  {position length pointer size mode : Nat} {descriptor : FileDescriptor} {allowed : Fault → Prop}
  {mask : FdMask} {fd whence : Int} {source bytes : List UInt8} {offset : BitVec 64}
  {P : FileDescriptor → Prop} {flags : BitVec 32} {after : System} {name : Text} {path : UserString}

theorem Sound.good (hsound : Sound system caller) :
    caller.table.Good (FileDescriptor.Fits system.inodes) Pipes.Sound system.pipes :=
  ⟨hsound.table, hsound.pipes⟩

theorem Plain.not_foreign (hplain : Plain system (.inoFile inode position)) :
    (system.inodes.node inode).isForeign ≠ true := by
  obtain ⟨_, hnode⟩ := hplain
  simp [hnode, Node.isForeign]

theorem yields_answer (result : Int) :
    Yields ok writes system caller (answer result system caller) :=
  ⟨.refl _, rfl, good⟩

theorem Yields.unless {condition : Prop} [Decidable condition] {result : Int} {rest : Outcome}
    (hrest : ¬ condition → Yields ok writes system caller rest) :
    Yields ok writes system caller (if condition then answer result system caller else rest) := by
  split
  · exact yields_answer _
  next hnot => exact hrest hnot

theorem yields_setDescriptor {reply : Reply} {fd : Nat}
    (hfits : Sound system caller → descriptor.Fits system.inodes) :
    Yields ok writes system caller (.ok (reply, system, caller.setDescriptor fd descriptor)) :=
  ⟨.refl _, rfl, fun hsound => hsound.good.put (hfits hsound) fd⟩

/-! ## Reading and writing -/

theorem yields_readPipe (pipe : PipeId) (length : Nat) :
    Yields ok writes system caller (readPipe system caller pipe length) := by
  refine .bind (.when fun hsound => (hsound.pipes pipe).round (.read length))
    fun result hresult => ?_
  obtain ⟨round, _⟩ := result
  cases round <;> exact ⟨.refl _, rfl, fun hsound =>
    ⟨hsound.table, hsound.pipes.set (hresult hsound).1 pipe⟩⟩

theorem yields_writePipe (pipe : PipeId) (remaining : List UInt8) (total : Nat) :
    Yields ok writes system caller (writePipe system caller pipe remaining total) := by
  refine .bind (.when fun hsound => (hsound.pipes pipe).writeBlocking remaining)
    fun result hresult => ?_
  obtain ⟨round, _, _⟩ := result
  cases round <;> exact ⟨.refl _, rfl, fun hsound =>
    ⟨hsound.table, hsound.pipes.set (hresult hsound) pipe⟩⟩

theorem yields_readNonblock (pipe : PipeId) (side : PipeEnd) (length : Nat) :
    Yields ok writes system caller (readNonblock system caller pipe side length) := by
  refine .bind (.when fun hsound => (hsound.pipes pipe).readNonblock side length)
    fun result hresult => ?_
  obtain ⟨answer, _⟩ := result
  cases answer with
  | error error => exact yields_answer _
  | ok bytes =>
    exact ⟨.refl _, rfl, fun hsound => ⟨hsound.table, hsound.pipes.set (hresult hsound).1 pipe⟩⟩

/-- Reading a node stops nowhere, and reading a file stays within it. -/
theorem readAt_post (hlimit : limit < 2 ^ 63) (hinodes : inodes.Sound limit) (inode : InodeId)
    (offset length : Nat) :
    Post allowed (fun result => ∀ bytes, result = .ok bytes →
        (inodes.node inode).isForeign = true ∨ bytes = [] ∨ offset + bytes.length < 2 ^ 63)
      ((inodes.node inode).readAt offset length) := by
  cases hnode : inodes.node inode with
  | dir inner => exact fun _ heq => nomatch heq
  | foreign inner => exact fun _ _ => .inl rfl
  | file inner =>
    have hlen := hinodes.files inode inner hnode
    rw [Node.readAt]
    split
    · exact fun _ heq => .inr (.inl (Except.ok.inj heq).symm)
    refine .bind (post_of_eq (add_ok (by omega))) ?_
    rintro _ rfl
    refine .bind (post_of_eq (range_ok (by omega) (by omega))) ?_
    rintro _ rfl
    rintro _ heq
    obtain rfl := Except.ok.inj heq
    rw [length_drop, length_take]
    exact .inr (.inr (by omega))

/-- Moving a position stops nowhere, if it ends small or at an inode of a driver. -/
theorem yields_moved {reply : Reply} {fd count : Nat}
    (hplain : ok → Plain system (.inoFile inode position))
    (hmoved : Sound system caller →
      position + count < 2 ^ 63 ∨ (system.inodes.node inode).isForeign = true)
    (hchange : Change system.limit writes system.inodes after.inodes)
    (hafter : after.limit = system.limit ∧ after.pipes = system.pipes) :
    Yields ok writes system caller (do
      let position ← Checked.add position count
      .ok (reply, after, caller.setDescriptor fd (.inoFile inode position))) := by
  unfold Checked.add
  split
  · refine ⟨hchange, hafter.1, fun hsound => ?_⟩
    rw [hafter.2]
    exact hsound.good.put (show FileDescriptor.Fits _ (.inoFile inode _) from hmoved hsound) fd
  intro hsound hok
  rcases hmoved hsound with _ | hforeign
  · omega
  · exact absurd hforeign (hplain hok).not_foreign

theorem yields_readDescriptor {fd : Nat} (hget : caller.table.get fd = some descriptor)
    (hplain : ok → Plain system descriptor) :
    Yields ok writes system caller (readDescriptor system caller fd length descriptor) := by
  cases descriptor with
  | ramFsFile | procFile =>
    exact .bind (post_of_allowed (fun _ _ hok => (hplain hok).elim) _) fun _ _ =>
      yields_setDescriptor fun _ => trivial
  | tty => exact ⟨.refl _, rfl, good⟩
  | pipe pipe side => exact .unless fun _ => yields_readPipe pipe length
  | inoFile inode position =>
    refine .bind (.when fun hsound => readAt_post hsound.limit_lt hsound.inodes inode position
      length) fun result hresult => ?_
    cases result with
    | error error => exact yields_answer _
    | ok bytes =>
      refine yields_moved hplain (fun hsound => ?_) (.refl _) ⟨rfl, rfl⟩
      rcases hresult hsound bytes rfl with hforeign | rfl | hlt
      · exact .inr hforeign
      · exact hsound.table fd _ hget
      · exact .inl hlt

section

variable {fd : Nat} (hfd : fd < maxOpenFileDescriptors)
include hfd

theorem maskTest_of_lt : Post allowed (fun _ => True) (maskTest mask fd) := by
  unfold maxOpenFileDescriptors at hfd
  rw [maskTest, dif_pos (by omega)]
  trivial

theorem maskSet_of_lt : Post allowed (fun _ => True) (maskSet mask fd) := by
  unfold maxOpenFileDescriptors at hfd
  rw [maskSet, dif_pos (by omega)]
  trivial

theorem maskClear_of_lt : Post allowed (fun _ => True) (maskClear mask fd) := by
  unfold maxOpenFileDescriptors at hfd
  rw [maskClear, dif_pos (by omega)]
  trivial

end

theorem guarded {α : Type} {sound : Prop} {result : Checked α}
    (hresult : sound → ok → Post (· = .allocation) (fun _ => True) result) :
    Post (fun fault => sound → ok → fault = .allocation) (fun _ => True) result := by
  cases result with
  | error fault => exact hresult
  | ok value => trivial

theorem yields_sysRead (hplain : ok → Covered system caller (.read fd pointer length))
    (hfd : ok → Harmless system caller (.read fd pointer length)) :
    Yields ok writes system caller (sysRead system caller fd pointer length) := by
  refine .unless fun hnonneg => .unless fun hvalid => ?_
  refine .bind (guarded fun _ hok => maskTest_of_lt ?_) fun isNonblock _ => ?_
  · have := hfd hok (by omega) (by simpa using hvalid)
    unfold maxOpenFileDescriptors
    omega
  split
  · exact yields_answer _
  next hget =>
    split
    · exact yields_readNonblock ..
    · exact yields_readDescriptor hget fun hok => hplain hok (by omega) _ hget
  next hget => exact yields_readDescriptor hget fun hok => hplain hok (by omega) _ hget

theorem length_of_valid (hvalid : validateUserPointer pointer length = true) :
    length ≤ userAddrLimit.toNat := by
  simp only [validateUserPointer, Bool.and_eq_true, decide_eq_true_eq] at hvalid
  omega

theorem yields_writeDescriptor {fd : Nat} (hget : caller.table.get fd = some descriptor)
    (hlen : source.length ≤ userAddrLimit.toNat) (hplain : ok → Plain system descriptor)
    (hwrites : ∀ inode position, descriptor = .inoFile inode position → writes inode) :
    Yields ok writes system caller (writeDescriptor system caller fd source descriptor) := by
  cases descriptor with
  | ramFsFile | procFile | tty => exact yields_answer _
  | pipe pipe side => exact .unless fun _ => yields_writePipe ..
  | inoFile inode position =>
    refine .bind ((writeAt_post position source (hwrites inode position rfl)).imp (fun _ h => h)
      fun _ hfault hsound hok => hfault ?_) fun result hresult => ?_
    · rcases hsound.table fd _ hget with _ | hforeign
      · have hlimit : userAddrLimit.toNat = 2 ^ 48 := rfl
        omega
      · exact absurd hforeign (hplain hok).not_foreign
    · obtain ⟨result, _⟩ := result
      obtain ⟨hchange, hcount⟩ := hresult
      cases result with
      | error error => exact ⟨hchange, rfl, good⟩
      | ok count =>
        refine yields_moved hplain (fun hsound => ?_) hchange ⟨rfl, rfl⟩
        rcases hcount count rfl with hforeign | ⟨-, before, hnode, _⟩
        · exact .inr hforeign
        · have hbefore := hsound.inodes.files inode before hnode
          have hlimit := hsound.limit_lt
          exact .inl (by omega)

section Descriptor

variable (hwrites : ∀ inode, descriptorInode caller fd = some inode → writes inode)
include hwrites

theorem yields_sysWrite (hplain : ok → Covered system caller (.write fd pointer source)) :
    Yields ok writes system caller (sysWrite system caller fd pointer source) := by
  refine .unless fun hnonneg => .unless fun hvalid => ?_
  split
  · exact yields_answer _
  next hget =>
    have hvalid : validateUserPointer pointer source.length = true := by simpa using hvalid
    refine yields_writeDescriptor hget (length_of_valid hvalid)
      (fun hok => hplain hok (by omega) _ hget) fun inode position heq => hwrites inode ?_
    rw [descriptorInode, if_neg hnonneg, hget, heq]

theorem yields_sysPwrite64
    (hfits : ok → Harmless system caller (.pwrite64 fd pointer source offset)) :
    Yields ok writes system caller
      (sysPwrite64 system caller fd pointer source offset.toNat) := by
  refine .unless fun hfd => .unless fun hvalid => ?_
  split
  next inode _ hget =>
    have hinode : descriptorInode caller fd = some inode := by
      rw [descriptorInode, if_neg hfd, hget]
    refine .bind ((writeAt_post offset.toNat source (hwrites inode hinode)).imp (fun _ h => h)
      fun _ hfault _ hok => hfault (hfits hok inode hinode (by simpa using hvalid)))
      fun result hresult => ?_
    obtain ⟨result, _⟩ := result
    cases result <;> exact ⟨hresult.1, rfl, good⟩
  · exact yields_answer _
  · exact yields_answer _

theorem yields_sysTruncateFd :
    Yields ok writes system caller (sysTruncateFd system caller fd size) := by
  refine .unless fun hfd => ?_
  split
  next inode _ hget =>
    have hinode := hwrites inode (by rw [descriptorInode, if_neg hfd, hget])
    refine .bind ((truncate_post size hinode).imp (fun _ h => h) fun _ hfault _ _ => hfault)
      fun result hresult => ?_
    obtain ⟨result, _⟩ := result
    cases result <;> exact ⟨hresult, rfl, good⟩
  · exact yields_answer _

end Descriptor

theorem yields_sysPread64 {count offset : Nat} :
    Yields ok writes system caller (sysPread64 system caller fd pointer count offset) := by
  refine .unless fun _ => .unless fun _ => ?_
  split
  next inode _ _ =>
    refine .bind (.when fun hsound => readAt_post hsound.limit_lt hsound.inodes inode offset
      count) fun result _ => ?_
    cases result <;> exact ⟨.refl _, rfl, good⟩
  · split <;> exact ⟨.refl _, rfl, good⟩
  · exact yields_answer _
  · exact yields_answer _

/-! ## Positions -/

/-- A position that `seek` computes is a signed integer. -/
theorem seekTarget_signed {target : Int}
    (htarget : seekTarget position size offset whence = .ok (some target)) :
    Checked.Signed target := by
  have hoffset : Checked.Signed offset.toInt :=
    ⟨by have := BitVec.le_toInt offset; omega, by have := @BitVec.toInt_lt 64 offset; omega⟩
  have hadd : ∀ value, (addSigned value offset.toInt).map some = .ok (some target) →
      Checked.Signed target := by
    intro _ hvalue
    unfold addSigned at hvalue
    split at hvalue
    next hsigned => exact some.inj (Except.ok.inj hvalue) ▸ hsigned
    · exact absurd hvalue (by nofun)
  unfold seekTarget at htarget
  split at htarget
  · exact some.inj (Except.ok.inj htarget) ▸ hoffset
  split at htarget
  · exact hadd _ htarget
  split at htarget
  · exact hadd _ htarget
  · cases htarget

theorem asI64_of_lt {value : Nat} (hvalue : value < 2 ^ 63) : asI64 value = value := by
  have hnat : (BitVec.ofNat 64 value).toNat = value :=
    BitVec.toNat_ofNat value 64 ▸ Nat.mod_eq_of_lt (by omega)
  rw [asI64, BitVec.toInt_eq_toNat_of_lt (by omega), hnat]

/-- `seek` computes a position, unless the sum it needs overflows. -/
theorem seekTarget_post (hcurrent : whence = 1 → Checked.Signed (asI64 position + offset.toInt))
    (hend : whence = 2 → Checked.Signed (asI64 size + offset.toInt)) :
    Post allowed (fun _ => True) (seekTarget position size offset whence) := by
  unfold seekTarget
  split
  · trivial
  split
  next hwhence =>
    rw [addSigned, if_pos (hcurrent hwhence)]
    trivial
  split
  next hwhence =>
    rw [addSigned, if_pos (hend hwhence)]
    trivial
  · trivial

theorem Sound.position_lt (hsound : Sound system caller) {fd : Nat} {inner : TmpfsFile}
    (hget : caller.table.get fd = some (.inoFile inode position))
    (hnode : system.inodes.node inode = .file inner) : position < 2 ^ 63 :=
  (hsound.table fd _ hget).resolve_right
    (show Plain system (.inoFile inode position) from ⟨inner, hnode⟩).not_foreign

theorem yields_sysSeek (hplain : ok → Covered system caller (.seek fd offset whence))
    (hsum : ok → Harmless system caller (.seek fd offset whence)) :
    Yields ok writes system caller (sysSeek system caller fd offset whence) := by
  refine .unless fun hfd => ?_
  split
  · exact yields_answer _
  next hget =>
    refine .bind (post_of_allowed (fun _ _ hok => (hplain hok (by omega) _ hget).elim) _)
      fun target _ => ?_
    cases target with
    | none => exact yields_answer _
    | some target => exact Yields.unless fun _ => yields_setDescriptor fun _ => trivial
  next inode position hget =>
    refine .bind (Post.and (guarded fun hsound hok => ?_) (Checked.post_self _))
      fun target hsome => ?_
    · obtain ⟨_, _⟩ := hsum hok (by omega) inode position hget
      obtain ⟨inner, hnode⟩ := hplain hok (by omega) _ hget
      have hlen := hsound.inodes.files inode inner hnode
      have hlimit := hsound.limit_lt
      have hsize : (system.inodes.node inode).stat.size = inner.data.length := by
        rw [hnode]
        rfl
      refine seekTarget_post ?_ ?_
      · rwa [asI64_of_lt (hsound.position_lt hget hnode)]
      · rwa [asI64_of_lt (by omega)]
    · cases target with
      | none => exact yields_answer _
      | some target =>
        refine Yields.unless fun _ => yields_setDescriptor fun _ => .inl ?_
        have := (seekTarget_signed hsome.2).2
        omega
  · exact yields_answer _

/-! ## Descriptors -/

theorem closeFlagged_post (P : FileDescriptor → Prop) {table : FileDescriptorTable} (fd : Nat) :
    Post allowed (fun result => ∀ after, result = some after → table.Good P Pipes.Sound pipes →
      after.1.Good P Pipes.Sound after.2) (table.closeFlagged pipes fd) := by
  unfold closeFlagged
  split
  · exact nofun
  next hclose =>
    obtain ⟨_, hget, _⟩ := map_eq_some_iff.mp hclose
    have hfd := lt_of_get hget
    refine .bind (maskClear_of_lt hfd) fun _ _ => .bind (maskClear_of_lt hfd) fun _ _ => ?_
    rintro _ ⟨⟩ hgood
    have hclosed := hgood.close hclose
    exact hclosed

theorem yields_sysClose : Yields ok writes system caller (sysClose system caller fd) := by
  refine .unless fun _ => .bind (closeFlagged_post (FileDescriptor.Fits system.inodes) fd.toNat)
    fun after hafter => ?_
  cases after with
  | none => exact yields_answer _
  | some after => exact ⟨.refl _, rfl, fun hsound =>
    hafter after rfl hsound.good⟩

theorem yields_sysPipe : Yields ok writes system caller (sysPipe system caller pointer) := by
  refine .unless fun _ => .unless fun _ => ⟨.refl _, rfl, fun hsound => ?_⟩
  exact hsound.good.pipe fun _ _ => trivial

/-- `dup2` stops nowhere, and a number it returns is one of the table. -/
theorem dup2_post {table : FileDescriptorTable} (sourceFd destinationFd : Nat) :
    Post allowed (fun result => 0 ≤ result.1 → destinationFd < maxOpenFileDescriptors)
      (table.dup2 pipes sourceFd destinationFd) := by
  unfold dup2
  split
  · exact fun h => absurd h (by simp)
  next descriptor hget =>
    split
    next heq => exact fun _ => heq ▸ lt_of_get hget
    · have hlt : 0 ≤ (table.installAt (pipes.retain descriptor) destinationFd descriptor).1 →
          destinationFd < maxOpenFileDescriptors := by
        unfold FileDescriptorTable.installAt
        split
        next hlt => exact fun _ => hlt
        · exact fun h => absurd h (by simp)
      dsimp only at hlt ⊢
      split
      next hnonneg => exact .bind (maskClear_of_lt (hlt hnonneg)) fun _ _ => hlt
      · exact hlt

theorem sysDup2_post (writes : InodeId → Prop) (sourceFd destinationFd : Int) :
    Post allowed (fun result => Keeps writes system caller result.2 ∧
        ∀ value, result.1 = .value value → 0 ≤ value → destinationFd.toNat < maxOpenFileDescriptors)
      (sysDup2 system caller sourceFd destinationFd) := by
  unfold sysDup2
  split
  · refine ⟨⟨.refl _, rfl, good⟩, fun value hvalue hnonneg => ?_⟩
    rw [← Reply.value.inj hvalue] at hnonneg
    cases hnonneg
  refine .bind ((dup2_post sourceFd.toNat destinationFd.toNat).and (post_self _))
    fun result hresult => ⟨⟨.refl _, rfl, fun hsound => hsound.good.dup2 hresult.2⟩,
      fun value hvalue hnonneg => hresult.1 ?_⟩
  rw [← Reply.value.inj hvalue] at hnonneg
  by_contra hneg
  rw [if_pos (by omega)] at hnonneg
  cases hnonneg

theorem yields_setCloexec {reply : Reply} {caller' : Caller} {fd : Nat}
    (hfd : fd < maxOpenFileDescriptors) (hkeeps : Keeps writes system caller (after, caller')) :
    Yields ok writes system caller (do
      let caller' ← setCloexec caller' fd
      .ok (reply, after, caller')) :=
  .bind (.bind (Q := fun caller' => Keeps writes system caller (after, caller'))
    (maskSet_of_lt hfd) fun _ _ => ⟨hkeeps.change, hkeeps.limit, hkeeps.good⟩) fun _ h => h

theorem yields_sysDup3 {oldFd newFd : Int} :
    Yields ok writes system caller (sysDup3 system caller oldFd newFd flags) := by
  refine .bind (sysDup2_post writes oldFd newFd) fun result hresult => ?_
  obtain ⟨reply, _⟩ := result
  obtain ⟨hkeeps, hlt⟩ := hresult
  cases reply with
  | data | waits => exact hkeeps
  | value result =>
    dsimp only
    split
    · exact hkeeps
    · split
      · exact yields_setCloexec (hlt result rfl (by omega)) hkeeps
      · exact hkeeps

theorem yields_sysFcntl {cmd : Int} {arg : BitVec 64}
    (hfd : ok → Harmless system caller (.fcntl fd cmd arg)) :
    Yields ok writes system caller (sysFcntl system caller fd cmd arg) := by
  refine .unless fun hnonneg => ?_
  have hlt : ok → (cmd = 1 ∨ cmd = 2 ∨ cmd = 3 ∨ cmd = 4) → fd.toNat < maxOpenFileDescriptors := by
    intro hok hcmd
    have := hfd hok (by omega) hcmd
    unfold maxOpenFileDescriptors
    omega
  have hput : ∀ {mask : FdMask} (on : Bool), fd.toNat < maxOpenFileDescriptors →
      Post (· = .allocation) (fun _ => True)
        (maskPut on mask fd.toNat) := by
    intro _ _ hfd
    unfold maskPut
    split
    · exact maskSet_of_lt hfd
    · exact maskClear_of_lt hfd
  have hsame : ∀ {reply : Reply} {table : FileDescriptorTable}, table.slots = caller.table.slots →
      Yields ok writes system caller (.ok (reply, system, { caller with table := table })) := by
    intro _ _ hslots
    refine ⟨.refl _, rfl, fun hsound => ⟨fun fd descriptor hget => ?_, hsound.pipes⟩⟩
    exact hsound.table fd descriptor (by rwa [FileDescriptorTable.get, ← hslots])
  split
  · exact .bind (guarded fun _ hok => maskTest_of_lt (hlt hok (by omega))) fun _ _ =>
    yields_answer _
  split
  · exact .bind (guarded fun _ hok => hput _ (hlt hok (by omega))) fun _ _ => hsame rfl
  split
  · exact .bind (guarded fun _ hok => maskTest_of_lt (hlt hok (by omega))) fun _ _ =>
    yields_answer _
  split
  · exact .bind (guarded fun _ hok => hput _ (hlt hok (by omega))) fun _ _ => hsame rfl
  split
  · have hgood := fun hsound : Sound system caller =>
      hsound.good.dupAtOrAbove fd.toNat arg.toNat
    have hnew := dupAtOrAbove_lt caller.table system.pipes fd.toNat arg.toNat
    dsimp only at hgood hnew ⊢
    split
    · exact ⟨.refl _, rfl, hgood⟩
    · split
      · exact yields_setCloexec (by omega) ⟨.refl _, rfl, hgood⟩
      · exact ⟨.refl _, rfl, hgood⟩
  · exact yields_answer _

/-! ## Opening -/

/-- The way to a descriptor stops for lack of memory only, changes the inodes as
described by `Change`, and leads to the beginning of a file. -/
def Opens (writes : InodeId → Prop) (system : System) (opening : Opening) : Prop :=
  Post (fun fault => fault = .allocation)
    (fun result => ∀ descriptor after, result = .ok (descriptor, after) →
      Change system.limit writes system.inodes after.inodes ∧
        (after.limit = system.limit ∧ after.pipes = system.pipes) ∧
        ∀ inode position, descriptor = .inoFile inode position → position = 0) opening

theorem opens_error (error : Int) : Opens writes system (.ok (.error error)) :=
  fun _ _ heq => absurd heq (by simp)

section

variable (hchange : Change system.limit writes system.inodes after.inodes)
  (hafter : after.limit = system.limit ∧ after.pipes = system.pipes)
include hchange hafter

theorem opens_ok (hbegins : ∀ inode position, descriptor = .inoFile inode position → position = 0) :
    Opens writes system (.ok (.ok (descriptor, after))) := by
  intro _ _ heq
  obtain ⟨rfl, rfl⟩ := Prod.mk.injEq .. ▸ Except.ok.inj heq
  exact ⟨hchange, hafter, hbegins⟩

theorem opens_inoFile : Opens writes system (.ok (.ok (.inoFile inode 0, after))) :=
  opens_ok hchange hafter fun _ _ h => (FileDescriptor.inoFile.inj h).2.symm

theorem yields_installOpened
    (hbegins : ∀ inode position, descriptor = .inoFile inode position → position = 0) :
    Yields ok writes system caller (installOpened after caller descriptor flags) := by
  have hfits : descriptor.Fits system.inodes := by
    cases descriptor with
    | inoFile inode position =>
      obtain rfl := hbegins inode position rfl
      exact .inl (by decide)
    | _ => trivial
  have hif : ∀ {asked : Bool} {mask : FdMask} {fd : Nat}, fd < maxOpenFileDescriptors →
      Post (fun fault => Sound system caller → ok → fault = .allocation) (fun _ => True)
        (maskIf asked mask fd) := by
    intro _ _ fd hfd
    unfold maskIf
    split
    · exact maskSet_of_lt hfd
    · trivial
  have hgood := fun hsound : Sound system caller => hsound.good.install hfits
  have hlt := install_lt caller.table system.pipes descriptor
  unfold installOpened install
  rw [hafter.2]
  generalize caller.table.install system.pipes descriptor = installed at hgood hlt ⊢
  obtain ⟨fd, _⟩ := installed
  dsimp only at hgood hlt ⊢
  split
  · exact ⟨hchange, hafter.1, hgood⟩
  · have hfd : fd.toNat < maxOpenFileDescriptors := by omega
    exact .bind (hif hfd) fun _ _ => .bind (hif hfd) fun _ _ => ⟨hchange, hafter.1, hgood⟩

end

theorem opens_push {inner : Foreign} :
    Opens writes system (.ok (.ok (.inoFile inode 0,
      { system with inodes := (system.inodes.push (.foreign inner)).2 }))) :=
  opens_inoFile (.push (by simp)) ⟨rfl, rfl⟩

theorem opens_openExisting
    (hwrites : hasFlag flags O_TRUNC →
      vfsCheckAccess (system.inodes.node inode).stat caller.credentials (accessNeeded flags) →
      writes inode) : Opens writes system (openExisting system caller inode flags) := by
  unfold openExisting
  split
  · exact opens_error _
  next haccess =>
    split
    · exact opens_error _
    split
    next htrunc =>
      have hinode := hwrites htrunc (by simpa using haccess)
      exact .bind (truncate_post 0 hinode) fun _ hresult => opens_inoFile hresult ⟨rfl, rfl⟩
    · exact opens_inoFile (.refl _) ⟨rfl, rfl⟩

theorem opens_openCreated (hfresh : ∀ inode, system.inodes.next ≤ inode → writes inode) :
    Opens writes system (openCreated system caller name mode) := by
  unfold openCreated
  split
  · exact opens_error _
  split
  · exact opens_error _
  next hcreate =>
    obtain ⟨rfl, hchange⟩ := change_create hcreate
    exact opens_inoFile (.trans hchange (change_setMode _ (hfresh _ le_rfl))) ⟨rfl, rfl⟩

theorem opens_openDescriptor (hfresh : ∀ inode, system.inodes.next ≤ inode → writes inode)
    (hwrites : ∀ inode, resolveInode system.inodes system.mounts name caller.cwd = .ok inode →
      hasFlag flags O_TRUNC →
      vfsCheckAccess (system.inodes.node inode).stat caller.credentials (accessNeeded flags) →
      writes inode) : Opens writes system (openDescriptor system caller name flags mode) := by
  unfold openDescriptor
  split
  · split
    · exact opens_ok (.refl _) ⟨rfl, rfl⟩ (by simp)
    · exact opens_error _
  split
  · split <;> first | exact opens_error _ | exact opens_push
  split
  · split
    · exact opens_error _
    · split <;> first | exact opens_error _ | exact opens_push
  split
  · exact opens_ok (.refl _) ⟨rfl, rfl⟩ (by simp)
  split
  next inode hresolve => exact opens_openExisting (hwrites inode hresolve)
  split
  · exact opens_openCreated hfresh
  · exact opens_error _

theorem yields_sysOpen (hfresh : ∀ inode, system.inodes.next ≤ inode → writes inode)
    (hwrites : ∀ inode, Writes system caller (.open path flags mode) inode → writes inode) :
    Yields ok writes system caller (sysOpen system caller path flags mode) := by
  unfold sysOpen
  split
  · exact yields_answer _
  next raw hraw =>
    dsimp only
    split
    · exact yields_answer _
    have hopening : Opens writes system
        (openDescriptor system caller (openName caller raw) flags mode) := by
      refine opens_openDescriptor hfresh fun inode hresolve htrunc haccess => ?_
      refine hwrites inode ⟨?_, htrunc, haccess⟩
      rw [openedInode, hraw, bind_some, hresolve]
      rfl
    generalize openDescriptor system caller (openName caller raw) flags mode = opening
      at hopening ⊢
    match opening with
    | .error fault => exact fun _ _ => hopening
    | .ok (.error error) => exact yields_answer _
    | .ok (.ok (descriptor, after)) =>
      obtain ⟨hchange, hafter, hbegins⟩ := hopening descriptor after rfl
      exact yields_installOpened hchange hafter hbegins

theorem yields_sysCreat
    (hwrites : ∀ inode, creatInode system caller path = some inode → writes inode) :
    Yields ok writes system caller (sysCreat system caller path) := by
  have hfinish : ∀ inode, Sound system caller →
      FileDescriptorTable.Good (FileDescriptor.Fits system.inodes) Pipes.Sound
        (caller.table.install system.pipes (.inoFile inode 0)).2.1
        (caller.table.install system.pipes (.inoFile inode 0)).2.2 :=
    fun inode hsound => hsound.good.install
      (show FileDescriptor.Fits system.inodes (.inoFile inode 0) from .inl (by decide))
  unfold sysCreat
  split
  · exact yields_answer _
  next hraw =>
    dsimp only
    split
    next inode hresolve =>
      have hinode : writes inode := by
        refine hwrites inode ?_
        rw [creatInode, hraw, bind_some, hresolve]
        rfl
      exact .bind ((truncate_post 0 hinode).imp (fun _ h => h) fun _ hfault _ _ => hfault)
        fun _ hresult => ⟨hresult, rfl, hfinish inode⟩
    · split
      · exact yields_answer _
      · split
        · exact yields_answer _
        next inode _ hcreate => exact ⟨(change_create hcreate).2, rfl, hfinish inode⟩

/-! ## mount -/

theorem copyToBuffer_of_le (hle : bytes.length ≤ size) : copyToBuffer size bytes = .ok bytes := by
  rw [copyToBuffer, Checked.copyRange_ok (Nat.zero_le _) (by simpa using hle) rfl]
  exact (range_ok (Nat.zero_le _) (by simp)).trans (by simp)

theorem copyToBuffer_of_lt (hlt : size < bytes.length) :
    copyToBuffer size bytes = .error .slice := by
  rw [copyToBuffer, Checked.copyRange, if_neg]
  · rfl
  · simp [hlt]

theorem probePartition_ok {target fstype : Text} {device : Fat32.BlockDevice}
    {partition : Fat32.Partition} (htarget : (posixTarget target).isSome)
    (hfits : VolumeFits target fstype device partition) :
    ∃ found, probePartition system device partition fstype = .ok found := by
  unfold probePartition
  split
  next hkind =>
    split
    · exact ⟨_, rfl⟩
    next hcandidate =>
      obtain ⟨found, heq⟩ :=
        Fat32.BlockDevice.fat32InitPartition_ok (hfits htarget hkind (by simpa using hcandidate))
      rw [heq]
      cases found <;> exact ⟨_, rfl⟩
  · split
    · split
      · exact ⟨_, rfl⟩
      · split <;> exact ⟨_, rfl⟩
    · exact ⟨_, rfl⟩

theorem yields_mountPartition {source target fstype : Text} {device : Fat32.BlockDevice}
    {partition : Fat32.Partition} (hfits : ok → VolumeFits target fstype device partition) :
    Yields ok writes system caller
      (mountPartition system caller source target fstype device partition) := by
  unfold mountPartition
  split
  · exact yields_answer _
  next path hpath =>
    refine .bind (guarded fun _ hok => ?_) fun found _ => ?_
    · obtain ⟨_, heq⟩ := probePartition_ok (by simp [hpath]) (hfits hok)
      exact (post_of_eq heq).mono fun _ _ => trivial
    · cases resolveParent system.inodes system.mounts path with
      | error error =>
        cases found with
        | error => exact ⟨.refl _, rfl, good⟩
        | ok => exact ⟨.push (by simp), rfl, good⟩
      | ok place =>
        cases found with
        | error => exact ⟨change_mkdir .., rfl, good⟩
        | ok => exact ⟨.trans (change_mkdir ..) (.push (by simp)), rfl, good⟩

theorem yields_mountDecoded {source target fstype : Text}
    (hfits : ok → DiskFits system.drivers source target fstype) :
    Yields ok writes system caller (mountDecoded system caller source target fstype) := by
  unfold mountDecoded
  split
  · exact yields_answer _
  next index part hsource =>
    split
    · exact yields_answer _
    next device hdevice =>
      have hdisk := fun hok => hfits hok index part hsource device hdevice
      refine .bind (Post.and (guarded fun _ hok => ?_) (Checked.post_self _))
        fun partitions hpartitions => ?_
      · obtain ⟨_, heq⟩ := Fat32.BlockDevice.partitions_ok (hdisk hok).1
        exact (post_of_eq heq).mono fun _ _ => trivial
      · split
        · exact yields_answer _
        next partition hpartition =>
          exact yields_mountPartition fun hok =>
            (hdisk hok).2 partitions partition hpartitions.2 hpartition

/-- Strings that fit are decoded. -/
theorem sysMount_of_fits {source target fstype : UserString}
    (hgranted : caller.grantedActions.contains .mountFilesystem = true)
    (hsource : source.Readable) (hfits : MountFits source target) :
    sysMount system caller source target fstype =
      match mountPath source, mountPath target, mountType fstype with
      | some source, some target, some fstype => mountDecoded system caller source target fstype
      | _, _, _ => answer EINVAL system caller := by
  have hcopied := copyUserCstr_eq_some_iff.mpr ⟨hsource, rfl⟩
  rw [sysMount, if_neg (by simp only [hgranted]; decide)]
  unfold mountPath mountType
  rw [hcopied]
  dsimp only [Option.bind_some]
  rw [copyToBuffer_of_le hfits.1]
  dsimp only [bind, Except.bind]
  cases htarget : copyUserCstr target with
  | none => cases fromUtf8 source.bytes <;> split_ifs <;> rfl
  | some targetBytes =>
    obtain ⟨hreadable, rfl⟩ := copyUserCstr_eq_some_iff.mp htarget
    dsimp only [Option.bind_some]
    rw [copyToBuffer_of_le (hfits.2 hreadable)]
    dsimp only
    cases copyUserCstr fstype with
    | none =>
      cases fromUtf8 source.bytes <;> cases fromUtf8 target.bytes <;> split_ifs <;> rfl
    | some fstypeBytes =>
      dsimp only [Option.bind_some]
      rw [copyToBuffer_of_le (show (fstypeBytes.take 16).length ≤ 17 by simp)]
      dsimp only
      cases fromUtf8 source.bytes <;> cases fromUtf8 target.bytes <;>
        cases fromUtf8 (fstypeBytes.take 16) <;> split_ifs <;> rfl

/-- A string that does not fit stops the kernel. -/
theorem sysMount_of_not_fits {source target fstype : UserString}
    (hgranted : caller.grantedActions.contains .mountFilesystem = true)
    (hsource : source.Readable) (hlong : ¬ MountFits source target) :
    sysMount system caller source target fstype = .error .slice := by
  rw [sysMount, if_neg (by simp only [hgranted]; decide),
    copyUserCstr_eq_some_iff.mpr ⟨hsource, rfl⟩]
  dsimp only
  by_cases hshort : source.bytes.length ≤ 257
  · obtain ⟨htarget, hlong⟩ : target.Readable ∧ 257 < target.bytes.length := by
      simpa [MountFits, hshort] using hlong
    rw [copyToBuffer_of_le hshort, copyUserCstr_eq_some_iff.mpr ⟨htarget, rfl⟩]
    dsimp only
    rw [copyToBuffer_of_lt hlong]
    rfl
  · rw [copyToBuffer_of_lt (by omega)]
    rfl

theorem yields_sysMount {source target fstype : UserString}
    (hharmless : ok → Harmless system caller (.mount source target fstype)) :
    Yields ok writes system caller (sysMount system caller source target fstype) := by
  by_cases hgranted : caller.grantedActions.contains .mountFilesystem = true
  swap
  · rw [sysMount, if_pos (by simpa using hgranted)]
    exact yields_answer _
  by_cases hsource : source.Readable
  swap
  · have hcopied : copyUserCstr source = none :=
      Option.eq_none_iff_forall_ne_some.mpr fun _ h => hsource (copyUserCstr_eq_some_iff.mp h).1
    rw [sysMount, if_neg (by simp only [hgranted]; decide), hcopied]
    exact yields_answer _
  by_cases hfits : MountFits source target
  · rw [sysMount_of_fits hgranted hsource hfits]
    split
    next device place kind hdevice hplace hkind =>
      exact yields_mountDecoded fun hok =>
        (hharmless hok hgranted hsource).2 device place kind hdevice hplace hkind
    · exact yields_answer _
  · rw [sysMount_of_not_fits hgranted hsource hfits]
    exact fun _ hok => absurd (hharmless hok hgranted hsource).1 hfits

/-! ## All calls -/

/-- Every call changes the inodes as described by `Change`: it gives no other file new
contents than those it writes to and those it makes.  It stops only for lack of memory
if it is covered and harmless. -/
theorem yields_dispatch (call : Call)
    (hfresh : ∀ inode, system.inodes.next ≤ inode → writes inode)
    (hwrites : ∀ inode, Writes system caller call inode → writes inode) :
    Yields (Covered system caller call ∧ Harmless system caller call) writes system caller
      (dispatch system caller call) := by
  cases call with
  | «open» => exact yields_sysOpen hfresh hwrites
  | creat => exact yields_sysCreat hwrites
  | read => exact yields_sysRead (fun hok => hok.1) fun hok => hok.2
  | write => exact yields_sysWrite hwrites fun hok => hok.1
  | pread64 => exact yields_sysPread64
  | pwrite64 => exact yields_sysPwrite64 hwrites fun hok => hok.2
  | ftruncate => exact yields_sysTruncateFd hwrites
  | seek => exact yields_sysSeek (fun hok => hok.1) fun hok => hok.2
  | close => exact yields_sysClose
  | pipe => exact yields_sysPipe
  | dup => exact .unless fun _ => ⟨.refl _, rfl, fun hsound => hsound.good.dup _⟩
  | dup2 => exact (sysDup2_post writes _ _).mono fun _ hresult => hresult.1
  | dup3 => exact yields_sysDup3
  | fcntl => exact yields_sysFcntl fun hok => hok.2
  | mount => exact yields_sysMount fun hok => hok.2

theorem yields_resumeWaiting (waiting : Waiting) :
    Yields ok writes system caller (resumeWaiting system caller waiting) := by
  cases waiting with
  | read => exact yields_readPipe ..
  | write => exact yields_writePipe ..

theorem Yields.keeps {outcome : Outcome} {after : System × Caller}
    (h : Yields ok writes system caller outcome) (hsettle : settle outcome = some after) :
    Keeps writes system caller after := by
  match outcome with
  | .error fault => exact absurd hsettle (by simp [settle])
  | .ok (reply, system, caller) =>
    obtain rfl := some.inj hsettle
    exact h

/-- Every step changes the inodes as described by `Change`, and leaves the table and the
pipes good. -/
theorem step_keeps {state after : System × Caller} {event : Event}
    (hfresh : ∀ inode, state.1.inodes.next ≤ inode → writes inode)
    (hwrites : ∀ call, event = .call call → ∀ inode, Writes state.1 state.2 call inode →
      writes inode)
    (hstep : step state event = some after) : Keeps writes state.1 state.2 after := by
  cases event with
  | call call =>
    unfold step at hstep
    dsimp only at hstep
    split at hstep
    · exact (yields_dispatch call hfresh (hwrites call rfl)).keeps hstep
    · cases hstep
  | resume =>
    obtain ⟨waiting, _, heq⟩ := bind_eq_some_iff.mp hstep
    have hyields : Yields True writes state.1 state.2 (resumeWaiting state.1 state.2 waiting) :=
      yields_resumeWaiting waiting
    exact hyields.keeps heq
  | drivers drivers =>
    obtain rfl := some.inj hstep
    exact ⟨.refl _, rfl, good⟩
  | device inode inner =>
    unfold step at hstep
    dsimp only at hstep
    split at hstep
    next hnode =>
      obtain rfl := some.inj hstep
      exact ⟨.answers hnode, rfl, good⟩
    · cases hstep

end Yields

end Bazzulto.Vfs
