import LearnInternet.Lib.Pipe
import LearnInternet.Tcp.Segments

/-!
A `TCPSender` and a `TCPReceiver` over a network that may lose, repeat, reorder and hold back what
they send each other. Whatever it does, the two programs at the ends see a pipe.
-/

namespace LearnInternet.Tcp

/-- What a receiver put on the network, and the number its `ackno` is wrapped from. -/
structure Answer where
  absolute : Nat
  message : TCPReceiverMessage
  deriving DecidableEq

structure Connection where
  sending : TCPSender.Trace
  receiver : TCPReceiver
  popped : Bytes
  answers : List Answer

namespace Connection

inductive Failure where
  | undefined (cause : Undefined)
  | fault (cause : Fault)

/-- `deliver` and `acknowledge` bring some message that was sent at some time; what is never brought
is lost. -/
inductive Event where
  | write (data : Bytes)
  | close
  | push
  | tick (msSinceLastTick : UInt64)
  | deliver (index : Nat)
  | pop (len : Nat)
  | answer
  | acknowledge (index : Nat) (leftover : Wrap32)

def start (capacity receiverCapacity : Nat) (isn : Wrap32) (initialRto : UInt64) : Connection where
  sending := TCPSender.Trace.start capacity isn initialRto
  receiver := TCPReceiver.ofReassembler (Reassembler.ofStream (ByteStream.ofCapacity receiverCapacity))
  popped := []
  answers := []

abbrev sender (connection : Connection) : TCPSender := connection.sending.sender

abbrev output (connection : Connection) : ByteStream := connection.receiver.reassembler.output

/-- The number that the `ackno` of the receiver is wrapped from. -/
def accepted (connection : Connection) : Nat :=
  connection.receiver.checkpoint + connection.receiver.syn.toNat + connection.receiver.fin.toNat

def send (connection : Connection) (event : TCPSender.Event) : Except Failure Connection :=
  match connection.sending.step event with
  | .error cause => .error (.undefined cause)
  | .ok sending => .ok { connection with sending }

def step (connection : Connection) : Event → Except Failure Connection
  | .write data => connection.send (.write data)
  | .close => connection.send .close
  | .push => connection.send .push
  | .tick msSinceLastTick => connection.send (.tick msSinceLastTick)
  | .deliver index =>
      match connection.sender.transmitted[index]? with
      | none => .ok connection
      | some sent =>
          match connection.receiver.receive sent.message with
          | .error cause => .error (.fault cause)
          | .ok receiver => .ok { connection with receiver }
  | .pop len =>
      let reassembler :=
        { connection.receiver.reassembler with output := connection.output.pop len }
      .ok { connection with
        receiver := { connection.receiver with reassembler }
        popped := connection.popped ++ connection.output.buffer.take len }
  | .answer =>
      .ok { connection with
        answers := connection.answers ++ [⟨connection.accepted, connection.receiver.send⟩] }
  | .acknowledge index leftover =>
      match connection.answers[index]? with
      | none => .ok connection
      | some answer => connection.send (.receive answer.message leftover)

/-- Every message is cut from the stream and arrives near the checkpoint of its time. -/
def Meets (connection : Connection) : Event → Prop
  | .push => connection.sending.Whole .push
  | .deliver index =>
      ∀ sent ∈ connection.sender.transmitted[index]?,
        connection.receiver.checkpoint ≤ sent.absolute + 2 ^ 31 ∧
          sent.absolute < connection.receiver.checkpoint + 2 ^ 31
  | .acknowledge index leftover =>
      ∀ answer ∈ connection.answers[index]?,
        connection.sending.Whole (.receive answer.message leftover)
  | _ => True

instance (connection : Connection) (event : Event) : Decidable (connection.Meets event) :=
  match event with
  | .write _ => .isTrue trivial
  | .close => .isTrue trivial
  | .push => inferInstanceAs (Decidable (connection.sending.Whole .push))
  | .tick _ => .isTrue trivial
  | .deliver _ => inferInstanceAs (Decidable (∀ sent ∈ (_ : Option Numbered), _))
  | .pop _ => .isTrue trivial
  | .answer => .isTrue trivial
  | .acknowledge _ _ => inferInstanceAs (Decidable (∀ answer ∈ (_ : Option Answer), _))

def observe (connection : Connection) : Event → List (Pipe.Event UInt8)
  | .write data => [.write (data.take connection.sender.input.availableCapacity)]
  | .pop len => [.read (connection.output.buffer.take len)]
  | _ => []

def taken (connection : Connection) : Bytes :=
  connection.sending.written.take connection.sender.input.bytesPopped

/-- The receiver knows a part of what was taken, and where the stream ends only if the sender is
done. -/
structure Joined (isn : Wrap32) (receiverCapacity : Nat) (connection : Connection) : Prop where
  sent : connection.sender.Sent isn connection.sending.written
  heard : ∃ heard, TCPReceiver.Trace.Follows connection.taken isn receiverCapacity
    ⟨connection.receiver, connection.popped, heard⟩
  ended : connection.receiver.reassembler.isInit = true → connection.sender.isFined = true

variable {connection next : Connection} {isn : Wrap32} {receiverCapacity : Nat}

theorem start_joined (capacity receiverCapacity : Nat) (isn : Wrap32) (initialRto : UInt64) :
    (start capacity receiverCapacity isn initialRto).Joined isn receiverCapacity where
  sent := TCPSender.Trace.start_sent capacity isn initialRto
  heard := ⟨_, TCPReceiver.Trace.start_follows [] isn receiverCapacity⟩
  ended := by
    intro known
    cases known

theorem Joined.send (joined : connection.Joined isn receiverCapacity)
    (event : TCPSender.Event) (whole : connection.sending.Whole event) :
    ∃ sending, connection.sending.step event = .ok sending ∧
      Joined isn receiverCapacity { connection with sending } := by
  obtain ⟨sending, stepped, sent, ⟨offered, written⟩, grows⟩ :=
    connection.sending.step_sent event joined.sent whole
  refine ⟨sending, stepped, sent, ?_, fun known => (grows.fined (joined.ended known)).1⟩
  obtain ⟨heard, follows⟩ := joined.heard
  have bound := joined.sent.bound
  have more : connection.sender.input.bytesPopped ≤ sending.sender.input.bytesPopped := grows.taken
  have before : connection.taken = sending.written.take connection.sender.input.bytesPopped := by
    rw [taken, ← written, List.take_append_of_le_length bound]
  have split : taken { connection with sending } =
      connection.taken ++ (sending.written.drop connection.sender.input.bytesPopped).take
        (sending.sender.input.bytesPopped - connection.sender.input.bytesPopped) := by
    rw [before, ← List.take_add, Nat.add_sub_cancel' more]
    rfl
  refine ⟨heard, ?_⟩
  rw [split]
  apply follows.extend
  intro known
  have same := (grows.fined (joined.ended known)).2
  rw [sender, same, Nat.sub_self, List.take_zero]

structure Arrives (isn : Wrap32) (receiverCapacity : Nat) (connection : Connection)
    (sent : Numbered) (receiver : TCPReceiver) where
  segment : Segment connection.taken
  heard : TCPReceiver.Heard
  absolute : sent.absolute = segment.absolute
  message : sent.message = { segment.message isn with rst := sent.message.rst }
  before : TCPReceiver.Trace.Follows connection.taken isn receiverCapacity
    ⟨connection.receiver, connection.popped, heard⟩
  after : TCPReceiver.Trace.Follows connection.taken isn receiverCapacity
    ⟨receiver, connection.popped,
      heard.hear segment (connection.output.windowEnd segment.piece.first)⟩

theorem Joined.deliver (joined : connection.Joined isn receiverCapacity) {sent : Numbered}
    (member : sent ∈ connection.sender.transmitted)
    (near : connection.receiver.checkpoint ≤ sent.absolute + 2 ^ 31 ∧
      sent.absolute < connection.receiver.checkpoint + 2 ^ 31) :
    ∃ receiver, connection.receiver.receive sent.message = .ok receiver ∧
      Nonempty (Arrives isn receiverCapacity connection sent receiver) ∧
      Joined isn receiverCapacity { connection with receiver } := by
  have inMessages : sent ∈ connection.sender.messages := by
    simp [TCPSender.messages, member]
  obtain ⟨heard, follows⟩ := joined.heard
  obtain ⟨segment, absolute, message⟩ := joined.sent.cut sent inMessages
  rw [absolute] at near
  have marked : segment.piece.isLast = true → connection.sender.isFined = true := by
    intro last
    apply joined.sent.marked sent inMessages
    rw [message]
    exact last
  obtain ⟨next, stepped, nextFollows⟩ :=
    TCPReceiver.Trace.step_follows _ (.receive segment) follows near
  simp only [TCPReceiver.Trace.step] at stepped
  cases received : connection.receiver.receive (segment.message isn) with
  | error fault =>
      rw [received] at stepped
      cases stepped
  | ok receiver =>
      rw [received] at stepped
      cases stepped
      refine ⟨receiver, ?_, ⟨segment, heard, absolute, message, follows, nextFollows⟩,
        joined.sent, ⟨_, nextFollows⟩, ?_⟩
      · rw [message, TCPReceiver.receive_rst]
        exact received
      · intro known
        rcases TCPReceiver.receive_isInit follows segment near received known with before | last
        · exact joined.ended before
        · exact marked last

theorem Joined.read (joined : connection.Joined isn receiverCapacity) :
    connection.popped ++ connection.output.buffer <+: connection.sending.written := by
  obtain ⟨heard, follows⟩ := joined.heard
  have pushed := follows.bytes.pushed_eq.1
  rw [Reassembler.Trace.pushed] at pushed
  rw [output, pushed]
  exact (List.take_prefix _ _).trans (List.take_prefix _ _)

def reordered : List Event :=
  [.write [1, 2, 3], .push, .deliver 0, .deliver 0, .answer, .acknowledge 0 ⟨0⟩, .write [4, 5], .push,
    .write [6], .push, .deliver 2, .pop 9, .deliver 1, .pop 9, .close, .push, .deliver 3]

end Connection

end LearnInternet.Tcp
