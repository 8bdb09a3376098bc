/-
  Ipc/MessageQueue.lean --- POSIX message queues.

  Embeds `MessageQueue`, the limits that `sys_mq_open` gives a new queue,
  `sys_mq_send` and `sys_mq_receive` (kernel/src/ipc/mqueue.rs) for one open queue.
  A call that would block has no result here.  Whether the kernel accepts the user's
  buffer is an argument; the process that a call makes ready is part of its result.

  `Reference` is the queue a client may expect: pending messages in the order of
  arrival, from which the oldest of the highest priority is received.  `mq_receive`
  takes a message out before it looks at the size of the buffer and puts it back
  behind the others of its priority, so the two part where there are others.
-/
import Bazzulto.Foundation.PriorityQueue
import Bazzulto.Foundation.Run
import Bazzulto.Process.Basic

set_option autoImplicit false

namespace Bazzulto.Ipc

open Foundation Foundation.PriorityQueue List Option

def messageQueueDefaultMaxMessages : Nat := 16

def messageQueueDefaultMaxMessageSize : Nat := 1024

/-- `Message`: the valid bytes of its buffer, and its priority. -/
structure Message where
  data : List UInt8
  priority : Nat
  deriving DecidableEq, Repr

open Message

/-- `MessageQueue`, as far as the two calls read it.  A message fits the buffer of `Message` because the limit does. -/
structure MessageQueue where
  messages : List Message
  maxMessages : Nat
  maxMessageSize : Nat
  receiveWaiters : List Pid
  sendWaiters : List Pid
  bufferFits : maxMessageSize ≤ messageQueueDefaultMaxMessageSize

/-- `MqAttr`, as far as `sys_mq_open` reads it. -/
structure MqAttr where
  mqMaxmsg : Int
  mqMsgsize : Int

namespace MessageQueue

/-- A limit that the user asks for, if it is positive and not above the default. -/
def customLimit (asked : Int) (default : Nat) : Nat :=
  if 0 < asked ∧ asked ≤ default then asked.toNat else default

/-- `MessageQueue::new` with the limits of `sys_mq_open`. -/
def new (attr : Option MqAttr) : MessageQueue where
  messages := []
  maxMessages := (attr.map fun attr =>
    customLimit attr.mqMaxmsg messageQueueDefaultMaxMessages).getD messageQueueDefaultMaxMessages
  maxMessageSize := (attr.map fun attr =>
    customLimit attr.mqMsgsize messageQueueDefaultMaxMessageSize).getD
      messageQueueDefaultMaxMessageSize
  receiveWaiters := []
  sendWaiters := []
  bufferFits := by
    cases attr with
    | none => exact le_refl _
    | some attr =>
      dsimp only [customLimit, Option.map, Option.getD]
      split <;> omega

/-- `enqueue`: in front of the first message of a lower priority. -/
def enqueue (queue : MessageQueue) (message : Message) : MessageQueue :=
  let insertPosition := (queue.messages.findIdx? fun existing =>
    existing.priority < message.priority).getD queue.messages.length
  { queue with messages := queue.messages.insertIdx insertPosition message }

def dequeue (queue : MessageQueue) : Option (Message × MessageQueue) :=
  match queue.messages with
  | [] => none
  | message :: rest => some (message, { queue with messages := rest })

def isFull (queue : MessageQueue) : Bool := queue.maxMessages ≤ queue.messages.length

end MessageQueue

/-! ## Calls -/

/-- What a call returns: an error, 0, or a message and its length. -/
inductive Reply where
  | error (errno : Int)
  | sent
  | received (message : Message)
  deriving DecidableEq, Repr

/-- A call on the queue; `valid` says that `validate_user_pointer` accepts the buffer. -/
inductive MqCall where
  | send (valid : Bool) (data : List UInt8) (priority : Nat)
  | receive (valid : Bool) (bufLength : Nat)
  deriving DecidableEq, Repr

namespace MessageQueue

variable (queue : MessageQueue)

/-- `sys_mq_send`, with the receiver it wakes; `none` where it has to wait. -/
def sysMqSend (valid : Bool) (data : List UInt8) (priority : Nat) :
    Option (Reply × Option Pid × MessageQueue) :=
  if !valid then some (.error EFAULT, none, queue)
  else if queue.maxMessageSize < data.length then some (.error EMSGSIZE, none, queue)
  else if queue.isFull then none
  else
    let queue := queue.enqueue ⟨data, priority⟩
    some (.sent, queue.receiveWaiters.head?,
      { queue with receiveWaiters := queue.receiveWaiters.tail })

/-- `sys_mq_receive`, with the sender it wakes; `none` where it has to wait. -/
def sysMqReceive (valid : Bool) (bufLength : Nat) : Option (Reply × Option Pid × MessageQueue) :=
  if !valid then some (.error EFAULT, none, queue)
  else
    match queue.dequeue with
    | none => none
    | some (message, queue) =>
      if bufLength < message.data.length then
        some (.error EMSGSIZE, none, queue.enqueue message)
      else
        some (.received message, queue.sendWaiters.head?,
          { queue with sendWaiters := queue.sendWaiters.tail })

/-- One call: what it returns and the queue after it. -/
def call : MqCall → Option (Reply × MessageQueue)
  | .send valid data priority =>
    (queue.sysMqSend valid data priority).map fun (reply, _, queue) => (reply, queue)
  | .receive valid bufLength =>
    (queue.sysMqReceive valid bufLength).map fun (reply, _, queue) => (reply, queue)

/-- The queue after a call. -/
def step (request : MqCall) : Option MessageQueue :=
  (queue.call request).map Prod.snd

/-- `enqueue` puts a message behind those of its priority. -/
theorem messages_enqueue (message : Message) :
    (queue.enqueue message).messages = insertBehind priority message queue.messages := by
  dsimp only [enqueue]
  induction queue.messages with
  | nil => rfl
  | cons first rest ih =>
    rw [insertBehind, findIdx?_cons]
    by_cases hlower : first.priority < message.priority
    · simp [hlower]
    rw [← ih]
    cases hfind : rest.findIdx? fun existing => existing.priority < message.priority with
    | none | some => simp [hlower]

end MessageQueue

/-! ## The reference queue -/

/-- Pending messages in the order of arrival, and the limits. -/
structure Reference where
  pending : List Message
  maxMessages : Nat
  maxMessageSize : Nat
  deriving DecidableEq, Repr

namespace Reference

/-- One call on the reference queue; `none` where it has to wait. -/
def call (reference : Reference) : MqCall → Option (Reply × Reference)
  | .send valid data priority =>
    if !valid then some (.error EFAULT, reference)
    else if reference.maxMessageSize < data.length then
      some (.error EMSGSIZE, reference)
    else if reference.maxMessages ≤ reference.pending.length then none
    else some (.sent, { reference with pending := reference.pending ++ [⟨data, priority⟩] })
  | .receive valid bufLength =>
    if !valid then some (.error EFAULT, reference)
    else
      match leader priority reference.pending with
      | none => none
      | some message =>
        if bufLength < message.data.length then
          some (.error EMSGSIZE, reference)
        else
          some (.received message,
            { reference with pending := dropLeader priority reference.pending })

end Reference

namespace MessageQueue

/-- The reference queue of a new queue. -/
def reference (queue : MessageQueue) : Reference :=
  ⟨[], queue.maxMessages, queue.maxMessageSize⟩

/-- At most `max_messages` messages of at most `max_message_size` bytes. -/
def Bounded (queue : MessageQueue) : Prop :=
  queue.messages.length ≤ queue.maxMessages ∧
    ∀ message ∈ queue.messages, message.data.length ≤ queue.maxMessageSize

/-- The queue holds the messages of the reference queue in the order in which they are
to be received, within the limits. -/
structure Represents (queue : MessageQueue) (reference : Reference) : Prop where
  messages : queue.messages = arrange priority reference.pending
  maxMessages : queue.maxMessages = reference.maxMessages
  maxMessageSize : queue.maxMessageSize = reference.maxMessageSize
  bounded : queue.Bounded

/-- The queue and the reference queue go together through a sequence of calls: every call
returns the same, or has to wait, and the queue represents the reference queue before
and after it.  Nothing is asked after a call that has to wait. -/
def Behaves (queue : MessageQueue) (reference : Reference) : List MqCall → Prop
  | [] => queue.Represents reference
  | request :: rest =>
    queue.Represents reference ∧
      match queue.call request, reference.call request with
      | none, none => True
      | some (reply, queue), some (reply', reference) =>
        reply = reply' ∧ queue.Behaves reference rest
      | _, _ => False

/-- A receive with a buffer that is too small finds no other message of the same
priority, except copies of the one it takes. -/
def Gentle (queue : MessageQueue) : MqCall → Prop
  | .send .. => True
  | .receive valid bufLength =>
    valid = true → ∀ message rest, queue.messages = message :: rest →
      bufLength < message.data.length →
      ∀ other ∈ rest, other.priority = message.priority → other = message

/-! ## One call -/

variable {queue : MessageQueue} {message : Message} {reference : Reference}

theorem Bounded.enqueue (h : queue.Bounded) (hroom : queue.messages.length < queue.maxMessages)
    (hsize : message.data.length ≤ queue.maxMessageSize) : (queue.enqueue message).Bounded := by
  refine ⟨?_, fun other hmem => ?_⟩
  · rw [messages_enqueue, length_insertBehind]
    exact hroom
  rw [messages_enqueue, mem_insertBehind] at hmem
  rcases hmem with rfl | hmem
  · exact hsize
  · exact h.2 other hmem

theorem Represents.leader_eq_head (h : queue.Represents reference) :
    leader priority reference.pending = queue.messages.head? := by
  rw [h.messages]
  cases hleader : leader priority reference.pending with
  | none =>
    rw [leader_eq_none _ hleader]
    rfl
  | some message =>
    rw [arrange_eq_cons _ hleader]
    rfl

/-- The results of a call on both queues go together; the queues after it do unless the
call is a receive that changes the order. -/
def Lockstep (queue : MessageQueue) (reference : Reference) (request : MqCall) : Prop :=
  match queue.call request, reference.call request with
  | none, none => queue.Gentle request
  | some (reply, queue'), some (reply', reference') =>
    reply = reply' ∧ (queue'.Represents reference' ↔ queue.Gentle request)
  | _, _ => False

theorem lockstep_send (h : queue.Represents reference) (valid : Bool)
    (data : List UInt8) (priority : Nat) :
    queue.Lockstep reference (.send valid data priority) := by
  have hlen : queue.messages.length = reference.pending.length := by
    rw [h.messages, length_arrange]
  unfold Lockstep call Reference.call sysMqSend isFull
  rw [← h.maxMessageSize, ← h.maxMessages, ← hlen]
  by_cases hvalid : valid = true
  · by_cases hsize : queue.maxMessageSize < data.length
    · simp [hvalid, hsize, Gentle, h]
    by_cases hfull : queue.maxMessages ≤ queue.messages.length
    · simp [hvalid, hsize, hfull, Gentle]
    have hbounded : (queue.enqueue ⟨data, priority⟩).Bounded :=
      h.bounded.enqueue (not_le.mp hfull) (not_lt.mp hsize)
    simp only [hvalid, Bool.not_true, Bool.false_eq_true, ↓reduceIte, hsize, hfull,
      decide_false, map_some, Gentle, iff_true, true_and]
    refine ⟨?_, rfl, rfl, hbounded⟩
    rw [arrange_concat, ← h.messages]
    exact messages_enqueue queue _
  · simp [hvalid, Gentle, h]

theorem gentle_receive_iff {rest : List Message} {bufLength : Nat}
    (hmessages : queue.messages = message :: rest) (hsmall : bufLength < message.data.length) :
    queue.Gentle (.receive true bufLength) ↔
      ∀ other ∈ rest, other.priority = message.priority → other = message := by
  constructor
  · intro h
    exact h rfl message rest hmessages hsmall
  rintro h - _ _ hcons -
  rw [hmessages] at hcons
  obtain ⟨rfl, rfl⟩ := hcons
  exact h

theorem lockstep_receive (h : queue.Represents reference) (valid : Bool)
    (bufLength : Nat) : queue.Lockstep reference (.receive valid bufLength) := by
  have hleader := h.leader_eq_head
  unfold Lockstep call Reference.call sysMqReceive dequeue
  cases valid with
  | false => simp [Gentle, h]
  | true =>
    cases hmessages : queue.messages with
    | nil =>
      simp [hleader, Gentle, hmessages]
    | cons message rest =>
      rw [hmessages, head?_cons] at hleader
      have harranged := h.messages
      rw [hmessages, arrange_eq_cons _ hleader, cons.injEq] at harranged
      have hrest : Bounded { queue with messages := rest } := by
        refine ⟨?_, fun other hmem => ?_⟩
        · have := h.bounded.1
          rw [hmessages] at this
          exact (Nat.le_succ _).trans this
        · exact h.bounded.2 other (hmessages ▸ mem_cons_of_mem message hmem)
      by_cases hsmall : bufLength < message.data.length
      · have hdescending : Descending priority (message :: rest) := by
          rw [← hmessages, h.messages]
          exact descending_arrange _ _
        have hback := insertBehind_eq_cons_iff _ hdescending
        have hbounded : (enqueue { queue with messages := rest } message).Bounded := by
          refine hrest.enqueue ?_ ?_
          · have := h.bounded.1
            rwa [hmessages] at this
          · exact h.bounded.2 message (hmessages ▸ mem_cons_self)
        simp only [hleader, hsmall, Bool.not_true, Bool.false_eq_true, ↓reduceIte,
          map_some, true_and]
        rw [gentle_receive_iff hmessages hsmall, ← hback, ← hmessages, h.messages]
        constructor
        · intro hrepresents
          exact (messages_enqueue { queue with messages := rest } message).symm.trans
            hrepresents.messages
        · intro hinsert
          exact ⟨(messages_enqueue { queue with messages := rest } message).trans hinsert,
            h.maxMessages, h.maxMessageSize, hbounded⟩
      · simp only [hleader, hsmall, Bool.not_true, Bool.false_eq_true, ↓reduceIte,
          map_some, true_and]
        refine iff_of_true ⟨harranged.2, h.maxMessages, h.maxMessageSize, hrest⟩ ?_
        rintro - _ _ hcons hsmall'
        rw [hmessages, cons.injEq] at hcons
        exact absurd (hcons.1 ▸ hsmall') hsmall

theorem lockstep (h : queue.Represents reference) (request : MqCall) :
    queue.Lockstep reference request := by
  cases request with
  | send valid data priority => exact lockstep_send h valid data priority
  | receive valid bufLength => exact lockstep_receive h valid bufLength

/-! ## Sequences of calls -/

theorem Behaves.represents {requests : List MqCall}
    (h : queue.Behaves reference requests) : queue.Represents reference := by
  cases requests with
  | nil => exact h
  | cons request rest => exact h.1

theorem behaves_iff_gentle (requests : List MqCall)
    (h : queue.Represents reference) :
    queue.Behaves reference requests ↔ Along step Gentle queue requests := by
  induction requests generalizing queue reference with
  | nil => exact iff_of_true h trivial
  | cons request rest ih =>
    have hstep := lockstep h request
    unfold Lockstep at hstep
    unfold Behaves Along step
    cases hcall : queue.call request with
    | none =>
      cases hreference : reference.call request with
      | none =>
        rw [hcall, hreference] at hstep
        exact iff_of_true ⟨h, trivial⟩ ⟨hstep, trivial⟩
      | some result => rw [hcall, hreference] at hstep; exact hstep.elim
    | some result =>
      cases hreference : reference.call request with
      | none => rw [hcall, hreference] at hstep; exact hstep.elim
      | some expected =>
        rw [hcall, hreference] at hstep
        obtain ⟨hreply, hnext⟩ := hstep
        constructor
        · rintro ⟨-, -, hrest⟩
          exact ⟨hnext.mp hrest.represents, (ih hrest.represents).mp hrest⟩
        · rintro ⟨hgentle, hrest⟩
          exact ⟨h, hreply, (ih (hnext.mpr hgentle)).mpr hrest⟩

/-- A new queue behaves as the reference queue through a sequence of calls exactly if no
receive with too small a buffer finds another message of the priority of the one it
takes. -/
theorem queue_behaves_iff (attr : Option MqAttr) (requests : List MqCall) :
    (new attr).Behaves (new attr).reference requests ↔
      Along step Gentle (new attr) requests := by
  refine behaves_iff_gentle requests ⟨rfl, rfl, rfl, ?_⟩
  exact ⟨Nat.zero_le _, fun message hmem => absurd hmem not_mem_nil⟩

/-- Two messages of one priority, of two bytes and of one.  A receive into a buffer of one
byte fails, and the next receive returns the younger message. -/
theorem younger_message_first :
    ¬ (new none).Behaves (new none).reference
      [.send true [1, 2] 0, .send true [3] 0, .receive true 1, .receive true 2] := by
  rintro ⟨-, -, -, -, -, -, -, hreply, -⟩
  cases hreply

end MessageQueue
end Bazzulto.Ipc
