/-
  Ipc/Socket.lean --- the table of Unix domain sockets.

  Embeds `SocketTable`, `sys_socket`, `sys_bind`, `sys_listen`, `sys_accept`,
  `sys_connect`, `sys_shutdown` and `sys_socketpair` (kernel/src/ipc/socket.rs), with
  `close`, `dup` and `fork` of any process.  Receive buffers and waiting processes are
  left out: a call that has to wait is no step.  What the file system answers is an
  argument: whether `bind` may link its inode, and which socket, if any, the path of
  `connect` leads to.

  No call frees a slot, and none looks at the state of the socket it is given, except
  `listen` and `accept`.  So a socket can be connected again, or bound, while another
  still has it as its peer.
-/
import Bazzulto.Foundation.Matching
import Bazzulto.Foundation.Run
import Bazzulto.Ipc.Handle

set_option autoImplicit false

namespace Bazzulto.Ipc

open Option Foundation Function

abbrev socketTableSize : Nat := 64

def socketBacklogMax : Nat := 8

/-- An index of the table. -/
abbrev SocketIndex := Fin socketTableSize

inductive SocketType where
  | stream
  | datagram
  deriving DecidableEq, Repr

/-- `SocketState`; nothing sets `Closed`. -/
inductive SocketState where
  | unbound
  | bound
  | listening
  | connected
  | closed
  deriving DecidableEq, Repr

structure UnixSocket where
  socketType : SocketType
  state : SocketState := .unbound
  peerIndex : Option SocketIndex := none
  acceptQueue : List SocketIndex := []
  shutdownRead : Bool := false
  shutdownWrite : Bool := false
  deriving DecidableEq, Repr

open UnixSocket

/-- The table, the descriptors of all processes, and the sockets that had one: the
last is a ledger the code does not keep. -/
structure SocketSystem where
  entries : SocketIndex → Option UnixSocket
  handles : Handles SocketIndex
  opened : List SocketIndex

namespace SocketSystem

variable {owner : Nat} {fd : Int}

/-- No socket, and every process has its terminal. -/
def init : SocketSystem := ⟨fun _ => none, .init, []⟩

section

variable (system : SocketSystem)

def findFreeSlot : Option SocketIndex :=
  (List.finRange socketTableSize).find? fun index => (system.entries index).isNone

def setEntry (index : SocketIndex) (socket : UnixSocket) : SocketSystem :=
  { system with entries := update system.entries index (some socket) }

/-- Change a socket, if it is there. -/
def modify (index : SocketIndex) (change : UnixSocket → UnixSocket) : SocketSystem :=
  { system with
    entries := update system.entries index ((system.entries index).map change) }

section

variable (owner : Nat)

section

variable (fd : Int)

def getSocketTableIndex : Option SocketIndex :=
  if fd < 0 then none
  else (system.handles.lookup owner fd.toNat).filter fun index => (system.entries index).isSome

/-- The descriptor of a socket. -/
def install (index : SocketIndex) : Int × SocketSystem :=
  let installed := system.handles.openNew owner (some index)
  (if installed.1 < 0 then EMFILE else installed.1,
    { system with
      handles := installed.2
      opened := if installed.1 < 0 then system.opened else index :: system.opened })

/-- The type without SOCK_NONBLOCK and SOCK_CLOEXEC. -/
def socketTypeOf (flags : BitVec 32) : Option SocketType :=
  match (flags &&& ~~~(0x800#32 ||| 0x80000#32)).toNat with
  | 1 => some .stream
  | 2 => some .datagram
  | _ => none

def sysSocket (domain : Int) (flags : BitVec 32) : Int × SocketSystem :=
  if domain ≠ 1 then (EAFNOSUPPORT, system)
  else
    match socketTypeOf flags with
    | none => (ESOCKTNOSUPPORT, system)
    | some socketType =>
      match system.findFreeSlot with
      | none => (ENOMEM, system)
      | some index => (system.setEntry index { socketType }).install owner index

/-- The end of `sys_bind`, with what became of the link for its path: an error, or it is
there. -/
def sysBind (refused : Option Int) : Int × SocketSystem :=
  match system.getSocketTableIndex owner fd with
  | none => (EBADF, system)
  | some index =>
    match refused with
    | some errno => (errno, system)
    | none =>
      (0, system.modify index fun socket =>
        { socket with state := .bound })

def sysListen : Int × SocketSystem :=
  match system.getSocketTableIndex owner fd with
  | none => (EBADF, system)
  | some index =>
    if (system.entries index).map state ≠ some .bound then (EINVAL, system)
    else (0, system.modify index fun socket => { socket with state := .listening })

/-- `sys_accept`; `none` where it has to wait. -/
def sysAccept : Option (Int × SocketSystem) :=
  match system.getSocketTableIndex owner fd with
  | none => some (EBADF, system)
  | some index =>
    if (system.entries index).map state ≠ some .listening then some (EINVAL, system)
    else
      match ((system.entries index).map acceptQueue).getD [] with
      | [] => none
      | serverSide :: rest =>
        some ((system.modify index fun socket => { socket with acceptQueue := rest }).install
          owner serverSide)

/-- Two sockets become connected to each other. -/
def wire (first second : SocketIndex) : SocketSystem :=
  (system.modify first fun socket =>
    { socket with state := .connected, peerIndex := some second }).modify second fun socket =>
      { socket with state := .connected, peerIndex := some first }

/-- A connection joins the queue of a listening socket, unless it is full. -/
def pushAccept (serverSide : SocketIndex) (socket : UnixSocket) : UnixSocket :=
  if socketBacklogMax ≤ socket.acceptQueue.length then socket
  else { socket with acceptQueue := socket.acceptQueue ++ [serverSide] }

/-- The end of `sys_connect`, with the socket that the path leads to.  The connection is
made even if the queue of the listening socket is full. -/
def sysConnect (found : Option SocketIndex) : Int × SocketSystem :=
  match system.getSocketTableIndex owner fd with
  | none => (EBADF, system)
  | some client =>
    match found with
    | none => (ECONNREFUSED, system)
    | some listening =>
      if (system.entries listening).map state ≠ some .listening then
        (ECONNREFUSED, system)
      else
        match system.findFreeSlot with
        | none => (ENOMEM, system)
        | some serverSide =>
          let wired := (system.setEntry serverSide { socketType := .stream }).wire
            serverSide client
          (0, wired.modify listening (pushAccept serverSide))

def sysShutdown (how : Int) : Int × SocketSystem :=
  match system.getSocketTableIndex owner fd with
  | none => (EBADF, system)
  | some index =>
    (0, system.modify index fun socket =>
      { socket with
        shutdownRead := socket.shutdownRead || how == 0 || how == 2
        shutdownWrite := socket.shutdownWrite || how == 1 || how == 2 })

end

/-- `sys_socketpair`.  Where the second slot is missing the first one stays taken. -/
def sysSocketpair (domain : Int) (flags : BitVec 32) : Int × SocketSystem :=
  if domain ≠ 1 then (EAFNOSUPPORT, system)
  else
    match socketTypeOf flags with
    | none => (ESOCKTNOSUPPORT, system)
    | some socketType =>
      match system.findFreeSlot with
      | none => (ENOMEM, system)
      | some first =>
        let taken := system.setEntry first { socketType }
        match taken.findFreeSlot with
        | none => (ENOMEM, taken)
        | some second =>
          let wired := (taken.setEntry second { socketType }).wire first second
          let installedFirst := wired.install owner first
          let installed := installedFirst.2.install owner second
          (if installedFirst.1 < 0 ∨ installed.1 < 0 then EMFILE else 0, installed.2)

end

/-! ## Steps -/

/-- A call of a process; the table of the caller is known by number. -/
inductive SocketCall where
  | socket (owner : Nat) (domain : Int) (flags : BitVec 32)
  | bind (owner : Nat) (fd : Int) (refused : Option Int)
  | listen (owner : Nat) (fd : Int)
  | accept (owner : Nat) (fd : Int)
  | connect (owner : Nat) (fd : Int) (found : Option SocketIndex)
  | shutdown (owner : Nat) (fd how : Int)
  | socketpair (owner : Nat) (domain : Int) (flags : BitVec 32)
  | openOther (owner : Nat)
  | close (owner fd : Nat)
  | duplicate (owner fd : Nat) (how : Handles.Duplicate)
  | fork (owner child : Nat)

/-- One call; `none` where it has to wait or the kernel panics. -/
def step : SocketCall → Option SocketSystem
  | .socket owner domain flags => some (system.sysSocket owner domain flags).2
  | .bind owner fd refused => some (system.sysBind owner fd refused).2
  | .listen owner fd => some (system.sysListen owner fd).2
  | .accept owner fd => (system.sysAccept owner fd).map Prod.snd
  | .connect owner fd found => some (system.sysConnect owner fd found).2
  | .shutdown owner fd how => some (system.sysShutdown owner fd how).2
  | .socketpair owner domain flags => some (system.sysSocketpair owner domain flags).2
  | .openOther owner => some { system with handles := (system.handles.openNew owner none).2 }
  | .close owner fd =>
    some { system with handles := (system.handles.close owner fd).getD system.handles }
  | .duplicate owner fd how =>
    (system.handles.duplicate owner fd how).map fun handles => { system with handles }
  | .fork owner child => some { system with handles := system.handles.fork owner child }

/-! ## Peers -/

/-- The first socket is connected, and the second is its peer. -/
def Peer (a b : SocketIndex) : Prop :=
  ∃ socket, system.entries a = some socket ∧ socket.state = .connected ∧
    socket.peerIndex = some b

/-- The sockets that were shut down, in one direction at least. -/
def shutDown : Set SocketIndex :=
  { index | ∃ socket, system.entries index = some socket ∧
    (socket.shutdownRead = true ∨ socket.shutdownWrite = true) }

/-- The sockets whose descriptors have all been closed. -/
def closed : Set SocketIndex :=
  { index | index ∈ system.opened ∧ ¬ system.handles.Holds index }

/-- The peer relation is a partial matching. -/
def Paired : Prop :=
  Matched system.Peer (system.closed ∪ system.shutDown)

/-- A socket that is connected, or bound, is not the peer of another; a socket that is
shut down may be bound. -/
def Careful : SocketCall → Prop
  | .connect owner fd found => ∀ client listening,
      system.getSocketTableIndex owner fd = some client → found = some listening →
      (system.entries listening).map state = some .listening →
      system.findFreeSlot ≠ none → ∀ other, other ≠ client → ¬ system.Peer other client
  | .bind owner fd refused => ∀ index, system.getSocketTableIndex owner fd = some index →
      refused = none → ∀ other, other ≠ index → system.Peer other index → index ∈ system.shutDown
  | _ => True

/-! ## Changes of the table -/

/-- The matching that a run of careful calls keeps, in which nobody counts on `close`. -/
def Joined : Prop := Matched system.Peer system.shutDown

end

variable {system : SocketSystem} {index : SocketIndex}

theorem entries_modify (system : SocketSystem) (index other : SocketIndex)
    (change : UnixSocket → UnixSocket) :
    (system.modify index change).entries other =
      if other = index then (system.entries index).map change else system.entries other :=
  update_apply ..

theorem entries_setEntry (system : SocketSystem) (index other : SocketIndex) (socket : UnixSocket) :
    (system.setEntry index socket).entries other =
      if other = index then some socket else system.entries other :=
  update_apply ..

theorem findFreeSlot_eq_some (h : system.findFreeSlot = some index) :
    system.entries index = none := by
  simpa using List.find?_some h

theorem getSocketTableIndex_eq_some (h : system.getSocketTableIndex owner fd = some index) :
    system.handles.Holds index ∧ ∃ socket, system.entries index = some socket := by
  unfold getSocketTableIndex at h
  split at h
  · cases h
  · obtain ⟨hlookup, hsome⟩ := filter_eq_some_iff.mp h
    exact ⟨⟨owner, fd.toNat, hlookup⟩, isSome_iff_exists.mp hsome⟩

theorem not_peer_of_free (h : system.entries index = none) (other : SocketIndex) :
    ¬ system.Peer index other := by
  rintro ⟨_, hentry, -⟩
  rw [h] at hentry
  cases hentry

theorem Joined.not_peer_free (h : system.Joined) (hfree : system.entries index = none)
    (other : SocketIndex) : ¬ system.Peer other index := by
  intro hpeer
  rcases h.back hpeer with hback | ⟨_, hentry, -⟩
  · exact not_peer_of_free hfree other hback.1
  · rw [hfree] at hentry
    cases hentry

section

variable {change : UnixSocket → UnixSocket}
  (hpeer : ∀ socket, system.entries index = some socket → ∀ other,
    (change socket).state = .connected ∧ (change socket).peerIndex = some other ↔
      socket.state = .connected ∧ socket.peerIndex = some other)
  (hshut : ∀ socket, socket.shutdownRead = true ∨ socket.shutdownWrite = true →
    (change socket).shutdownRead = true ∨ (change socket).shutdownWrite = true)

include hpeer in
theorem peer_modify : (system.modify index change).Peer = system.Peer := by
  funext a b
  unfold Peer
  rw [entries_modify]
  split
  next ha =>
    rw [ha]
    cases hentry : system.entries index with
    | none => simp
    | some socket => simpa using hpeer socket hentry b
  · rfl

include hshut in
theorem shutDown_modify :
    system.shutDown ⊆ (system.modify index change).shutDown := by
  rintro a ⟨socket, hentry, hflags⟩
  by_cases ha : a = index
  · refine ⟨change socket, ?_, hshut socket hflags⟩
    rw [entries_modify, if_pos ha, ← ha, hentry, map_some]
  · exact ⟨socket, by rw [entries_modify, if_neg ha]; exact hentry, hflags⟩

include hpeer hshut in
theorem Joined.modify (h : system.Joined) : (system.modify index change).Joined := by
  unfold Joined
  rw [peer_modify hpeer]
  exact h.mono (shutDown_modify hshut)

end

theorem peer_setEntry (hfree : system.entries index = none) (socketType : SocketType) :
    (system.setEntry index { socketType }).Peer = system.Peer := by
  funext a b
  unfold Peer
  rw [entries_setEntry]
  split
  next ha =>
    rw [ha, hfree]
    simp
  · rfl

theorem shutDown_setEntry (hfree : system.entries index = none) (socket : UnixSocket) :
    system.shutDown ⊆ (system.setEntry index socket).shutDown := by
  rintro a ⟨found, hentry, hflags⟩
  have ha : a ≠ index := by
    rintro rfl
    rw [hfree] at hentry
    cases hentry
  exact ⟨found, by rw [entries_setEntry, if_neg ha]; exact hentry, hflags⟩

theorem Joined.setEntry (h : system.Joined) (hfree : system.entries index = none)
    (socketType : SocketType) : (system.setEntry index { socketType }).Joined := by
  unfold Joined
  rw [peer_setEntry hfree]
  exact h.mono (shutDown_setEntry hfree _)

/-- The peers after two sockets are wired. -/
theorem peer_wire {first second : SocketIndex} (hne : first ≠ second)
    (hfirst : ∃ socket, system.entries first = some socket)
    (hsecond : ∃ socket, system.entries second = some socket) :
    (system.wire first second).Peer = Rewired system.Peer first second := by
  obtain ⟨_, hsocket⟩ := hfirst
  obtain ⟨_, hsocket'⟩ := hsecond
  funext a b
  unfold Peer wire Rewired
  rw [entries_modify, entries_modify, entries_modify, hsocket, hsocket']
  obtain rfl | ha := eq_or_ne a first
  · simp [hne, eq_comm]
  · obtain rfl | ha' := eq_or_ne a second
    · simp [ha, eq_comm]
    · simp [ha, ha']

theorem shutDown_wire (first second : SocketIndex) :
    system.shutDown ⊆ (system.wire first second).shutDown := by
  refine Set.Subset.trans ?_ (shutDown_modify ?_)
  · refine shutDown_modify ?_
    exact fun _ hflags => hflags
  · exact fun _ hflags => hflags

/-! ## One call -/

theorem pushAccept_keeps (serverSide : SocketIndex) (socket : UnixSocket) :
    (pushAccept serverSide socket).state = socket.state ∧
      (pushAccept serverSide socket).peerIndex = socket.peerIndex ∧
      (pushAccept serverSide socket).shutdownRead = socket.shutdownRead ∧
      (pushAccept serverSide socket).shutdownWrite = socket.shutdownWrite := by
  unfold pushAccept
  split <;> exact ⟨rfl, rfl, rfl, rfl⟩

/-- The peers after a `connect` that succeeds. -/
theorem sysConnect_spec {client listening serverSide : SocketIndex}
    (hclient : system.getSocketTableIndex owner fd = some client)
    (hlistening : (system.entries listening).map state = some .listening)
    (hfree : system.findFreeSlot = some serverSide) :
    serverSide ≠ client ∧
      (system.sysConnect owner fd (some listening)).2.Peer = Rewired system.Peer serverSide client ∧
      system.shutDown ⊆ (system.sysConnect owner fd (some listening)).2.shutDown := by
  have hempty := findFreeSlot_eq_some hfree
  obtain ⟨-, socket, hsocket⟩ := getSocketTableIndex_eq_some hclient
  have hne : serverSide ≠ client := by
    rintro rfl
    rw [hempty] at hsocket
    cases hsocket
  unfold sysConnect
  rw [hclient]
  dsimp only
  rw [if_neg (not_not.mpr hlistening), hfree]
  refine ⟨hne, ?_, ?_⟩
  · rw [peer_modify, peer_wire hne, peer_setEntry hempty]
    · exact ⟨_, by rw [entries_setEntry, if_pos rfl]⟩
    · exact ⟨socket, by rw [entries_setEntry, if_neg hne.symm]; exact hsocket⟩
    · intro found _ _
      obtain ⟨hstate, hpeer, -⟩ := pushAccept_keeps serverSide found
      rw [hstate, hpeer]
  · refine (shutDown_setEntry hempty _).trans ((shutDown_wire _ _).trans
      (shutDown_modify fun found hflags => ?_))
    obtain ⟨-, -, hread, hwrite⟩ := pushAccept_keeps serverSide found
    rwa [hread, hwrite]

/-- The peers after a `bind` that succeeds. -/
theorem sysBind_spec (hidx : system.getSocketTableIndex owner fd = some index) :
    (system.sysBind owner fd none).2.Peer = Detached system.Peer index ∧
      (system.sysBind owner fd none).2.shutDown = system.shutDown := by
  unfold sysBind
  rw [hidx]
  constructor
  · funext a b
    unfold Peer Detached
    rw [entries_modify]
    by_cases ha : a = index
    · simp [ha]
    · simp [ha]
  · refine Set.Subset.antisymm ?_ (shutDown_modify ?_)
    · rintro _ ⟨socket, hentry, hflags⟩
      rw [entries_modify] at hentry
      split at hentry
      next ha =>
        obtain ⟨found, hfound, rfl⟩ := map_eq_some_iff.mp hentry
        exact ⟨found, ha ▸ hfound, hflags⟩
      · exact ⟨socket, hentry, hflags⟩
    · exact fun _ hflags => hflags

section

variable (h : system.Joined)
include h

theorem Joined.sysSocket (owner : Nat) (domain : Int) (flags : BitVec 32) :
    (system.sysSocket owner domain flags).2.Joined := by
  unfold SocketSystem.sysSocket
  split
  · exact h
  split
  · exact h
  rename_i socketType _
  split
  · exact h
  next hfree =>
    exact h.setEntry (findFreeSlot_eq_some hfree) socketType

theorem Joined.sysListen (owner : Nat) (fd : Int) : (system.sysListen owner fd).2.Joined := by
  unfold SocketSystem.sysListen
  split
  · exact h
  split
  · exact h
  next hbound =>
    refine h.modify (fun socket hsocket other => ?_) fun socket hflags => hflags
    have hstate : socket.state = .bound := by
      simpa [hsocket] using hbound
    simp [hstate]

theorem Joined.sysAccept {result : Int × SocketSystem}
    (haccept : system.sysAccept owner fd = some result) : result.2.Joined := by
  unfold SocketSystem.sysAccept at haccept
  split at haccept
  · cases haccept
    exact h
  split at haccept
  · cases haccept
    exact h
  split at haccept
  · cases haccept
  · cases haccept
    exact h.modify (fun socket _ other => Iff.rfl) fun socket hflags => hflags

theorem Joined.sysShutdown (owner : Nat) (fd how : Int) :
    (system.sysShutdown owner fd how).2.Joined := by
  unfold SocketSystem.sysShutdown
  split
  · exact h
  refine h.modify (fun socket _ other => Iff.rfl) fun socket hflags => ?_
  rcases hflags with hread | hwrite
  · exact .inl (by simp [hread])
  · exact .inr (by simp [hwrite])

theorem Joined.sysSocketpair (owner : Nat) (domain : Int) (flags : BitVec 32) :
    (system.sysSocketpair owner domain flags).2.Joined := by
  unfold SocketSystem.sysSocketpair
  split
  · exact h
  split
  · exact h
  rename_i socketType _
  split
  · exact h
  rename_i first hfirst
  have hempty := findFreeSlot_eq_some hfirst
  dsimp only
  split
  · exact h.setEntry hempty socketType
  rename_i second hsecond
  have hempty' := findFreeSlot_eq_some hsecond
  have hne : first ≠ second := by
    rintro rfl
    rw [entries_setEntry, if_pos rfl] at hempty'
    cases hempty'
  have hfree : system.entries second = none := by
    rwa [entries_setEntry, if_neg hne.symm] at hempty'
  have hjoined := (h.setEntry hempty socketType).setEntry hempty' socketType
  have hpeers : ((system.setEntry first { socketType }).setEntry second { socketType }).Peer =
      system.Peer := by
    rw [peer_setEntry hempty', peer_setEntry hempty]
  have hwired : (((system.setEntry first { socketType }).setEntry second
      { socketType }).wire first second).Joined := by
    unfold Joined
    rw [peer_wire hne]
    · refine (Matched.rewire hjoined hne ?_ ?_).mono (shutDown_wire first second)
      · intro other _ _
        rw [hpeers]
        exact h.not_peer_free hempty other
      · intro other _ _
        rw [hpeers]
        exact h.not_peer_free hfree other
    · exact ⟨_, by rw [entries_setEntry, if_neg hne, entries_setEntry, if_pos rfl]⟩
    · exact ⟨_, by rw [entries_setEntry, if_pos rfl]⟩
  exact hwired

theorem paired_of_joined : system.Paired :=
  h.mono Set.subset_union_right

/-- What may follow a call: the matching is kept if the call is careful, and lost if it
is not. -/
theorem sysConnect_iff (owner : Nat) (fd : Int) (found : Option SocketIndex) :
    (system.Careful (.connect owner fd found) → (system.sysConnect owner fd found).2.Joined) ∧
      ((system.sysConnect owner fd found).2.Paired → system.Careful (.connect owner fd found)) := by
  by_cases hreached : ∃ client listening serverSide,
      system.getSocketTableIndex owner fd = some client ∧ found = some listening ∧
      (system.entries listening).map state = some .listening ∧
      system.findFreeSlot = some serverSide
  · obtain ⟨client, listening, serverSide, hclient, rfl, hlistening, hfree⟩ := hreached
    obtain ⟨hne, hpeers, hshut⟩ := sysConnect_spec hclient hlistening hfree
    have hempty := findFreeSlot_eq_some hfree
    constructor
    · intro hcareful
      unfold Joined
      rw [hpeers]
      refine (Matched.rewire h hne ?_ ?_).mono hshut
      · exact fun other _ _ => h.not_peer_free hempty other
      · intro other _ hother
        exact hcareful client listening hclient rfl hlistening (by simp [hfree]) other hother
    · intro hpaired _ _ hclient' _ _ _ other hother hpeer
      rw [hclient] at hclient'
      cases hclient'
      -- The old peer and the new one.
      unfold Paired at hpaired
      rw [hpeers] at hpaired
      have hserver : other ≠ serverSide := by
        rintro rfl
        exact not_peer_of_free hempty client hpeer
      exact hserver (hpaired.unique (.inr (.inr ⟨hserver, hother, hpeer⟩)) (.inl ⟨rfl, rfl⟩))
  · have hsame : (system.sysConnect owner fd found).2 = system := by
      unfold sysConnect
      cases hclient : system.getSocketTableIndex owner fd with
      | none => rfl
      | some client =>
        cases found with
        | none => rfl
        | some listening =>
          dsimp only
          split
          · rfl
          next hlistening =>
            cases hfree : system.findFreeSlot with
            | none => rfl
            | some serverSide =>
              exact absurd ⟨client, listening, serverSide, hclient, rfl,
                not_not.mp hlistening, hfree⟩ hreached
    refine ⟨fun _ => by rwa [hsame], ?_⟩
    intro _ client listening hclient hfound hlistening hfree
    obtain ⟨serverSide, hserver⟩ := ne_none_iff_exists'.mp hfree
    exact absurd ⟨client, listening, serverSide, hclient, hfound, hlistening, hserver⟩ hreached

theorem sysBind_iff (owner : Nat) (fd : Int) (refused : Option Int) :
    (system.Careful (.bind owner fd refused) →
        (system.sysBind owner fd refused).2.Joined) ∧
      ((system.sysBind owner fd refused).2.Paired →
        system.Careful (.bind owner fd refused)) := by
  cases hidx : system.getSocketTableIndex owner fd with
  | none =>
    have hsame : (system.sysBind owner fd refused).2 = system := by
      rw [sysBind, hidx]
    refine ⟨fun _ => by rwa [hsame], fun _ index hsome => ?_⟩
    rw [hidx] at hsome
    cases hsome
  | some index =>
    cases refused with
    | some errno =>
      have hsame : (system.sysBind owner fd (some errno)).2 = system := by
        rw [sysBind, hidx]
      exact ⟨fun _ => by rwa [hsame], fun _ index' _ hnone => by cases hnone⟩
    | none =>
      obtain ⟨hpeers, hshut⟩ := sysBind_spec hidx
      constructor
      · intro hcareful
        unfold Joined
        rw [hpeers, hshut]
        exact Matched.detach h fun other hother hpeer =>
          hcareful index hidx rfl other hother hpeer
      · intro hpaired _ hindex' _ _ hother hpeer
        rw [hidx] at hindex'
        cases hindex'
        unfold Paired at hpaired
        rw [hpeers, hshut] at hpaired
        rcases hpaired.back ⟨hother, hpeer⟩ with hback | hclosed | hshutDown
        · exact absurd rfl hback.1.1
        · have hheld := (getSocketTableIndex_eq_some hidx).1
          rw [sysBind, hidx] at hclosed
          exact absurd hheld hclosed.2
        · exact hshutDown

end

variable {request : SocketCall}

/-- A careful call keeps the matching. -/
theorem Joined.step {next : SocketSystem} (h : system.Joined) (hcareful : system.Careful request)
    (hstep : system.step request = some next) : next.Joined := by
  cases request with
  | socket owner domain flags =>
    cases hstep
    exact h.sysSocket owner domain flags
  | bind owner fd refused =>
    cases hstep
    exact (sysBind_iff h owner fd refused).1 hcareful
  | listen owner fd =>
    cases hstep
    exact h.sysListen owner fd
  | accept owner fd =>
    obtain ⟨_, haccept, rfl⟩ := map_eq_some_iff.mp hstep
    exact h.sysAccept haccept
  | connect owner fd found =>
    cases hstep
    exact (sysConnect_iff h owner fd found).1 hcareful
  | shutdown owner fd how =>
    cases hstep
    exact h.sysShutdown owner fd how
  | socketpair owner domain flags =>
    cases hstep
    exact h.sysSocketpair owner domain flags
  | duplicate owner fd how =>
    obtain ⟨_, -, rfl⟩ := map_eq_some_iff.mp hstep
    exact h
  | openOther | close | fork => cases hstep; exact h

theorem careful_of_paired (h : system.Joined)
    (hpaired : ∀ next, system.step request = some next → next.Paired) : system.Careful request := by
  cases request with
  | connect owner fd found => exact (sysConnect_iff h owner fd found).2 (hpaired _ rfl)
  | bind owner fd refused => exact (sysBind_iff h owner fd refused).2 (hpaired _ rfl)
  | _ => trivial

/-! ## Runs -/

theorem joined_init : init.Joined where
  back := fun ⟨socket, hsocket, _⟩ => by cases hsocket
  unique := fun ⟨socket, hsocket, _⟩ => by cases hsocket

/-- In a run of calls the peers are always paired exactly if no call connects a socket
that is the peer of another, or binds one that is and has not been shut down. -/
theorem peers_paired_iff (requests : List SocketCall) :
    Along step (fun system request => ∀ next, system.step request = some next → next.Paired)
        init requests ↔
      Along step Careful init requests :=
  along_congr_of_invariant (I := Joined)
    (fun _ _ _ hjoined hpaired hstep => hjoined.step (careful_of_paired hjoined hpaired) hstep)
    (fun _ _ hjoined => ⟨careful_of_paired hjoined, fun hcareful _ hstep =>
      paired_of_joined (hjoined.step hcareful hstep)⟩)
    requests init joined_init

/-- A client connects twice to a listening socket. -/
def reconnectRun : List SocketCall :=
  [.socket 0 1 1#32, .bind 0 3 none, .listen 0 3, .socket 0 1 1#32,
   .connect 0 4 (some ⟨0, by decide⟩), .connect 0 4 (some ⟨0, by decide⟩)]

/-- Both sockets made for it have the client as their peer. -/
theorem client_peer_of_two : ∃ final, run step init reconnectRun = some final ∧ ¬ final.Paired := by
  have hview : (run step init reconnectRun).map (fun final =>
      ((final.entries ⟨2, by decide⟩).map fun socket => (socket.state, socket.peerIndex),
        (final.entries ⟨3, by decide⟩).map fun socket => (socket.state, socket.peerIndex))) =
      some (some (.connected, some ⟨1, by decide⟩), some (.connected, some ⟨1, by decide⟩)) := by
    decide +kernel
  obtain ⟨final, hrun, hfinal⟩ := map_eq_some_iff.mp hview
  rw [Prod.mk.injEq] at hfinal
  obtain ⟨⟨first, hfirst, hfirst'⟩, ⟨second, hsecond, hsecond'⟩⟩ :=
    hfinal.imp map_eq_some_iff.mp map_eq_some_iff.mp
  rw [Prod.mk.injEq] at hfirst' hsecond'
  refine ⟨final, hrun, fun hpaired => ?_⟩
  have hsame := hpaired.unique ⟨first, hfirst, hfirst'⟩ ⟨second, hsecond, hsecond'⟩
  cases hsame

end SocketSystem
end Bazzulto.Ipc
