import LearnInternet.Tcp.Connection
import LearnInternet.Tcp.Ending
import LearnInternet.Tcp.Flowing

/-!
No byte is lost: each byte that was written is in the buffer of the sender, in a message that is held
for another transmission, or at the other end; and the other end closes its output only when it has
all of them.
-/

namespace LearnInternet.Tcp

open Spans

namespace Connection

/-- What comes before the message is there, and so is room for the rest of the stream. -/
def Admits (connection : Connection) (sent : Numbered) : Prop :=
  sent.span.first ≤ connection.accepted ∧
    sent.span.stop ≤ 2 + connection.output.bytesPopped + connection.output.capacity

instance (connection : Connection) (sent : Numbered) : Decidable (connection.Admits sent) :=
  inferInstanceAs (Decidable (_ ∧ _))

/-- What is written leaves the end of the receiver's window below `2 ^ 63`, and nothing is written after
the end; nothing is popped unseen; nothing that arrives is `2 ^ 31` old, a `FIN` arrives when it is the
next, and an acknowledgment has a number and is one that the sender takes. -/
def Calm (connection : Connection) : Event → Prop
  | .write data =>
      connection.sender.input.close = false ∧
        connection.sending.written.length + data.length + connection.output.capacity < 2 ^ 63
  | .push =>
      connection.sender.zeroWindowProbe = false →
        connection.sender.isSyned = false ∨ connection.sender.hasToPush = true →
          connection.sender.Lossless
  | .deliver index =>
      ∀ sent ∈ connection.sender.transmitted[index]?,
        connection.receiver.checkpoint ≤ sent.absolute + 2 ^ 31 ∧
          (sent.message.fin = true → connection.Admits sent)
  | .acknowledge index _ =>
      ∀ answer ∈ connection.answers[index]?,
        answer.message.ackno.isSome = true ∧
          connection.sender.lastAckno ≤ answer.absolute + 2 ^ 31 ∧
          connection.sender.Takes answer.message answer.absolute
  | _ => True

instance (connection : Connection) (event : Event) : Decidable (connection.Calm event) :=
  match event with
  | .write _ => inferInstanceAs (Decidable (_ ∧ _))
  | .close => .isTrue trivial
  | .push => inferInstanceAs (Decidable (_ → _))
  | .tick _ => .isTrue trivial
  | .deliver _ => inferInstanceAs (Decidable (∀ sent ∈ (_ : Option Numbered), _))
  | .pop _ => .isTrue trivial
  | .answer => .isTrue trivial
  | .acknowledge _ _ => inferInstanceAs (Decidable (∀ answer ∈ (_ : Option Answer), _))

/-- Where a written byte is: at the other end, in a message that is held, or not yet taken. -/
inductive Keeps (connection : Connection) (index : Nat) (byte : UInt8) : Prop where
  | arrived (there : (connection.popped ++ connection.output.buffer)[index]? = some byte)
  | held (sent : Numbered) (waits : sent ∈ connection.sender.held) (position : Nat)
      (places : sent.Places connection.sending.written position index)
  | buffered (position : Nat) (index_eq : index = connection.sender.input.bytesPopped + position)
      (there : connection.sender.input.buffer[position]? = some byte)

def LosesNothing (connection : Connection) : Prop :=
  ∀ index byte, connection.sending.written[index]? = some byte → connection.Keeps index byte

def EndsWhole (connection : Connection) : Prop :=
  connection.output.isClosed = true →
    connection.sender.input.close = true ∧
      connection.popped ++ connection.output.buffer = connection.sending.written

/-- What the receiver knows lies before a `FIN` that it has not taken. -/
def Ahead (connection : Connection) : Prop :=
  ∀ last ∈ connection.sender.messages, last.message.fin = true →
    connection.receiver.fin = 1 ∨
      connection.accepted ≤ last.span.first ∧
        ∀ position ∈ connection.receiver.reassembler.known, 1 + position < last.span.first

structure Reliable (isn : Wrap32) (receiverCapacity : Nat) (connection : Connection) : Prop
    extends Joined isn receiverCapacity connection where
  flowing : connection.sender.Flowing isn connection.sending.written
  small : connection.sending.written.length + receiverCapacity < 2 ^ 63
  ending : connection.receiver.Ending connection.taken
  synced : connection.receiver.syn = 0 ∧ connection.receiver.checkpoint = 0 ∨
    connection.receiver.syn = 1 ∧ connection.sender.isSyned = true
  ahead : connection.Ahead
  honest : ∀ answer ∈ connection.answers, answer.absolute ≤ connection.accepted ∧
    (answer.message.ackno.isSome = true →
      answer.message.ackno = some (Wrap32.wrap answer.absolute isn))
  acked : connection.sender.lastAckno ≤ connection.accepted

variable {connection next : Connection} {isn : Wrap32} {receiverCapacity : Nat}

theorem start_reliable (capacity : Nat) {receiverCapacity : Nat} (bounded : receiverCapacity < 2 ^ 63)
    (isn : Wrap32) (initialRto : UInt64) :
    (start capacity receiverCapacity isn initialRto).Reliable isn receiverCapacity where
  toJoined := start_joined capacity receiverCapacity isn initialRto
  flowing := by
    have zero : isn.unwrap isn 0 = 0 := (TCPSender.Trace.start_sound capacity isn initialRto).next
    refine ⟨TCPSender.Trace.start_sent capacity isn initialRto,
      TCPSender.Trace.start_counted capacity isn initialRto,
      TCPSender.waiting_of_nothing rfl zero.symm, .simple rfl rfl rfl, ?_⟩
    intro fined
    cases fined
  small := by
    simpa [start, TCPSender.Trace.start] using bounded
  ending := .going rfl rfl rfl rfl
  synced := .inl ⟨rfl, rfl⟩
  ahead := by
    intro last member
    cases member
  honest := by
    intro answer member
    cases member
  acked := Nat.zero_le _

theorem Reliable.syn_le (reliable : connection.Reliable isn receiverCapacity) :
    connection.receiver.syn.toNat ≤ connection.sender.isSyned.toNat := by
  rcases reliable.synced with ⟨none, -⟩ | ⟨one, syned⟩
  · rw [none]
    exact Nat.zero_le _
  · rw [one, syned]
    decide

theorem Reliable.capacity_eq (reliable : connection.Reliable isn receiverCapacity) :
    connection.output.capacity = receiverCapacity := by
  obtain ⟨heard, follows⟩ := reliable.heard
  exact follows.bytes.capacity_eq

theorem Reliable.taken_length (reliable : connection.Reliable isn receiverCapacity) :
    connection.taken.length = connection.sender.input.bytesPopped := by
  rw [taken, List.length_take, Nat.min_eq_left reliable.sent.bound]

theorem Reliable.pushed_le (reliable : connection.Reliable isn receiverCapacity) :
    connection.receiver.checkpoint = connection.output.bytesPushed ∧
      connection.output.bytesPushed ≤ connection.sender.input.bytesPopped := by
  obtain ⟨heard, follows⟩ := reliable.heard
  have pushed := follows.bytes.pushed_eq.2
  rw [reliable.taken_length] at pushed
  exact ⟨follows.checkpoint_eq, pushed⟩

theorem Reliable.fin_cases (reliable : connection.Reliable isn receiverCapacity) :
    connection.receiver.fin.toNat = 0 ∨
      connection.receiver.fin.toNat = 1 ∧ connection.sender.isFined = true ∧
        connection.output.bytesPushed = connection.sender.input.bytesPopped := by
  cases reliable.ending with
  | going fin =>
      left
      rw [fin]
      rfl
  | done fin known closed all =>
      right
      refine ⟨?_, reliable.ended known, all.trans reliable.taken_length⟩
      rw [fin]
      rfl

theorem Reliable.accepted_le (reliable : connection.Reliable isn receiverCapacity) :
    connection.accepted ≤ connection.sender.nextSeq := by
  obtain ⟨checkpoint, pushed⟩ := reliable.pushed_le
  have syn := reliable.syn_le
  have nextSeq := reliable.sent.next
  rw [accepted, checkpoint]
  rcases reliable.fin_cases with none | ⟨one, fined, -⟩
  · omega
  · rw [fined, Bool.toNat_true] at nextSeq
    omega

theorem Reliable.small_next (reliable : connection.Reliable isn receiverCapacity) :
    connection.sender.nextSeq < 2 ^ 64 := by
  have bound := reliable.sent.bound
  have nextSeq := reliable.sent.next
  have small := reliable.small
  have syned := Bool.toNat_le connection.sender.isSyned
  have fined := Bool.toNat_le connection.sender.isFined
  omega

theorem Reliable.near (reliable : connection.Reliable isn receiverCapacity) {sent : Numbered}
    (member : sent ∈ connection.sender.transmitted) :
    sent.absolute < connection.receiver.checkpoint + 2 ^ 31 := by
  have inMessages : sent ∈ connection.sender.messages := by
    simp [TCPSender.messages, member]
  have stop := reliable.sent.stop_le inMessages
  have near := reliable.flowing.acked_near
  have acked := reliable.acked
  have syn := reliable.syn_le
  have syned := Bool.toNat_le connection.sender.isSyned
  have fin : connection.receiver.fin.toNat ≤ 1 := by
    rcases reliable.fin_cases with none | ⟨one, -⟩
    · omega
    · omega
  rw [accepted] at acked
  simp only [Numbered.span] at stop
  omega

theorem Reliable.known_lt (reliable : connection.Reliable isn receiverCapacity) {position : Nat}
    (known : position ∈ connection.receiver.reassembler.known) :
    position < connection.sender.input.bytesPopped := by
  obtain ⟨heard, follows⟩ := reliable.heard
  have holds := follows.bytes.holds
  have waiting := holds.waiting_le
  rw [← reliable.taken_length]
  rw [Reassembler.known, Finset.mem_union, Finset.mem_range] at known
  rcases known with pushed | stored
  · simp only at waiting
    omega
  · obtain ⟨span, member, bounds⟩ := mem_covered.mp stored
    obtain ⟨entry, cached, rfl⟩ := List.mem_map.mp member
    have inside := (holds.stored.slices entry cached).inside
    simp only [Entry.span] at bounds
    omega

theorem Reliable.windowEnd_eq (reliable : connection.Reliable isn receiverCapacity)
    (firstIndex : Nat) :
    connection.output.windowEnd firstIndex =
      connection.output.bytesPopped + connection.output.capacity := by
  obtain ⟨heard, follows⟩ := reliable.heard
  have taken := reliable.taken_length
  have bound := reliable.sent.bound
  have small := reliable.small
  have popped := Nat.add_le_add_right follows.bytes.bytesPopped_le receiverCapacity
  rw [reliable.capacity_eq]
  exact follows.bytes.windowEnd_eq (Nat.lt_of_le_of_lt popped (by omega)) firstIndex

/-! The sender's steps. -/

theorem Reliable.sending (reliable : connection.Reliable isn receiverCapacity)
    {sending : TCPSender.Trace}
    (joined : Joined isn receiverCapacity { connection with sending })
    (flowing : sending.sender.Flowing isn sending.written)
    (small : sending.written.length + receiverCapacity < 2 ^ 63)
    (grows : connection.sender.Grows sending.sender)
    (acked : sending.sender.lastAckno ≤ connection.accepted) :
    Reliable isn receiverCapacity { connection with sending } where
  toJoined := joined
  flowing := flowing
  small := small
  ending := by
    cases reliable.ending with
    | going fin needFin unknown unclosed => exact .going fin needFin unknown unclosed
    | done fin known closed all =>
        have same := (grows.fined (reliable.ended known)).2
        refine .done fin known closed (all.trans ?_)
        rw [reliable.taken_length, taken, List.length_take, Nat.min_eq_left flowing.bound]
        exact same.symm
  synced := reliable.synced.imp id fun synced => ⟨synced.1, grows.syned synced.2⟩
  ahead := by
    intro last member fin
    rcases grows.fresh last member with old | new
    · exact reliable.ahead last old fin
    · -- a new message begins behind all that was sent, and so behind all that is known
      refine .inr ⟨Nat.le_trans reliable.accepted_le new, fun position known => ?_⟩
      have below := reliable.known_lt known
      have nextSeq := reliable.sent.next
      have unsent := reliable.sent.unsent
      cases syned : connection.sender.isSyned with
      | false =>
          rw [unsent syned] at below
          exact absurd below (Nat.not_lt_zero _)
      | true =>
          rw [syned, Bool.toNat_true] at nextSeq
          omega
  honest := reliable.honest
  acked := acked

theorem Reliable.write (reliable : connection.Reliable isn receiverCapacity) (data : Bytes)
    (unclosed : connection.sender.input.close = false)
    (small : connection.sending.written.length + data.length + connection.output.capacity < 2 ^ 63) :
    ∃ next, connection.step (.write data) = .ok next ∧ next.Reliable isn receiverCapacity := by
  obtain ⟨sending, stepped, joined⟩ := reliable.toJoined.send (.write data) trivial
  obtain ⟨other, otherStepped, -, -, grows⟩ :=
    connection.sending.step_sent (.write data) reliable.sent trivial
  refine ⟨{ connection with sending }, by rw [step, send, stepped], ?_⟩
  cases stepped
  cases otherStepped
  apply reliable.sending joined (reliable.flowing.write data unclosed) _ grows reliable.acked
  have offered := List.length_take_le' connection.sender.input.availableCapacity data
  have size := reliable.capacity_eq
  simp only [List.length_append]
  simp only [sender] at offered
  omega

theorem Reliable.close (reliable : connection.Reliable isn receiverCapacity) :
    ∃ next, connection.step .close = .ok next ∧ next.Reliable isn receiverCapacity := by
  obtain ⟨sending, stepped, joined⟩ := reliable.toJoined.send .close trivial
  obtain ⟨other, otherStepped, -, -, grows⟩ :=
    connection.sending.step_sent .close reliable.sent trivial
  refine ⟨{ connection with sending }, by rw [step, send, stepped], ?_⟩
  cases stepped
  cases otherStepped
  exact reliable.sending joined reliable.flowing.close reliable.small grows reliable.acked

theorem Reliable.whole (reliable : connection.Reliable isn receiverCapacity)
    (calm : connection.Calm .push) : connection.sending.Whole .push := by
  refine ⟨calm, fun probes => ⟨?_, fun fined => ?_⟩⟩
  · cases reliable.flowing.mode with
    | simple simple =>
        have shut := probes.1
        simp only [sender] at simple
        rw [simple] at shut
        cases shut
    | shut _ _ none => exact (List.append_eq_nil_iff.mp none).1
    | probing _ _ window => exact window
  · have ended := reliable.flowing.ended fined
    simp only [sender] at ended
    rw [ByteStream.bytesBuffered, ended.2, List.length_nil]

theorem Reliable.push (reliable : connection.Reliable isn receiverCapacity)
    (calm : connection.Calm .push) :
    ∃ next, connection.step .push = .ok next ∧ next.Reliable isn receiverCapacity := by
  obtain ⟨sending, stepped, joined⟩ := reliable.toJoined.send .push (reliable.whole calm)
  refine ⟨{ connection with sending }, by rw [step, send, stepped], ?_⟩
  cases stepped
  have pushes := reliable.flowing.push calm
  apply reliable.sending joined pushes.toFlowing reliable.small pushes.grows
  exact Nat.le_trans (Nat.le_of_eq pushes.lastAckno) reliable.acked

theorem Reliable.tick (reliable : connection.Reliable isn receiverCapacity)
    (msSinceLastTick : UInt64) :
    ∃ next, connection.step (.tick msSinceLastTick) = .ok next ∧
      next.Reliable isn receiverCapacity := by
  obtain ⟨sending, stepped, joined⟩ := reliable.toJoined.send (.tick msSinceLastTick) trivial
  refine ⟨{ connection with sending }, by rw [step, send, stepped], ?_⟩
  cases stepped
  obtain ⟨crt, timer, transmitted, ticked⟩ := connection.sender.tick_eq msSinceLastTick
  apply reliable.sending joined (reliable.flowing.tick msSinceLastTick) reliable.small
    (connection.sender.tick_moves msSinceLastTick).grows
  have acked := reliable.acked
  simp only [sender] at ticked acked
  rw [ticked]
  exact acked

theorem Reliable.acknowledge (reliable : connection.Reliable isn receiverCapacity)
    {answer : Answer} (member : answer ∈ connection.answers) (leftover : Wrap32)
    (numbered : answer.message.ackno.isSome = true)
    (recent : connection.sender.lastAckno ≤ answer.absolute + 2 ^ 31)
    (takes : connection.sender.Takes answer.message answer.absolute) :
    ∃ next, connection.send (.receive answer.message leftover) = .ok next ∧
      next.Reliable isn receiverCapacity ∧
      connection.sender.Heeds isn connection.sending.written answer.message answer.absolute
        next.sender ∧
      next.receiver = connection.receiver ∧ next.popped = connection.popped ∧
      next.sending.written = connection.sending.written := by
  obtain ⟨early, ackno⟩ := reliable.honest answer member
  obtain ⟨heard, received, heeds⟩ :=
    reliable.flowing.receive reliable.small_next leftover (ackno numbered) recent
      (Nat.le_trans early reliable.accepted_le) takes
  obtain ⟨sending, stepped, joined⟩ := reliable.toJoined.send (.receive answer.message leftover) (by
    intro shut
    cases reliable.flowing.mode with
    | simple simple =>
        simp only [sender] at simple
        rw [simple] at shut
        cases shut
    | shut _ idle =>
        have probing := takes.1 shut
        rw [idle] at probing
        cases probing
    | probing _ _ _ probe =>
        obtain ⟨message, probes⟩ := probe
        simp only [sender] at probes
        rw [probes]
        exact List.cons_ne_nil _ _)
  simp only [TCPSender.Trace.step] at stepped
  simp only [sender] at received
  rw [received] at stepped
  cases stepped
  refine ⟨{ connection with sending := ⟨heard, connection.sending.written⟩ },
    by simp only [send, TCPSender.Trace.step, received], ?_, heeds, rfl, rfl, rfl⟩
  apply reliable.sending joined heeds.toFlowing reliable.small heeds.toMoves.grows
  rw [heeds.lastAckno]
  exact Nat.max_le.mpr ⟨reliable.acked, early⟩

/-! The receiver's steps. -/

theorem Arrives.connected {sent : Numbered} {receiver : TCPReceiver}
    (arrives : connection.Arrives isn receiverCapacity sent receiver)
    (one : connection.receiver.syn = 1) : arrives.heard.connected = true := by
  have syn := arrives.before.syn_eq
  simp only [one] at syn
  by_contra unheard
  rw [if_neg unheard] at syn
  exact absurd syn (by decide)

theorem Reliable.completing (reliable : connection.Reliable isn receiverCapacity)
    {sent : Numbered} {receiver : TCPReceiver}
    (arrives : connection.Arrives isn receiverCapacity sent receiver)
    (member : sent ∈ connection.sender.messages)
    (admits : sent.message.fin = true → connection.Admits sent)
    (last : arrives.segment.piece.isLast = true) (fin : connection.receiver.fin = 0) :
    connection.receiver.Completing arrives.heard arrives.segment := by
  have marked : sent.message.fin = true := by
    rw [arrives.message]
    exact last
  obtain ⟨next, room⟩ := admits marked
  have unset : (0 : UInt32) ≠ 1 := by decide
  have before : connection.accepted ≤ sent.span.first := by
    rcases reliable.ahead sent member marked with taken | ⟨before, -⟩
    · rw [fin] at taken
      exact absurd taken unset
    · exact before
  have ends := arrives.segment.piece.closing last
  have order := arrives.segment.piece.order
  obtain ⟨first, stop⟩ := Numbered.span_of_segment arrives.absolute arrives.message
  have checkpoint := reliable.pushed_le.1
  have number : connection.accepted = connection.output.bytesPushed +
      connection.receiver.syn.toNat := by
    rw [accepted, checkpoint, fin]
    rfl
  have first_eq : arrives.segment.piece.first = connection.output.bytesPushed ∧
      (connection.receiver.syn = 1 ∨ arrives.segment.syn = true) := by
    rcases reliable.synced with ⟨none, zero⟩ | ⟨one, -⟩
    · rw [none, UInt32.toNat_zero] at number
      cases begun : arrives.segment.syn with
      | true =>
          have origin := arrives.segment.synFirst begun
          exact ⟨by omega, .inr rfl⟩
      | false =>
          rw [begun, Bool.toNat_false] at first
          omega
    · have single : connection.receiver.syn.toNat = 1 := by
        rw [one]
        rfl
      cases begun : arrives.segment.syn with
      | true =>
          have origin := arrives.segment.synFirst begun
          rw [begun, Bool.toNat_true] at first
          omega
      | false =>
          rw [begun, Bool.toNat_false] at first
          exact ⟨by omega, .inl one⟩
  refine ⟨?_, first_eq.1, ?_⟩
  · rw [Bool.or_eq_true]
    exact first_eq.2.imp_left arrives.connected
  · have limit := reliable.windowEnd_eq arrives.segment.piece.first
    rw [last, Bool.toNat_true] at stop
    simp only [output] at room limit
    rw [limit]
    omega

theorem Reliable.synced_after (reliable : connection.Reliable isn receiverCapacity)
    {sent : Numbered} {receiver : TCPReceiver}
    (arrives : connection.Arrives isn receiverCapacity sent receiver) :
    (receiver.syn = 0 ∧ receiver.checkpoint = 0 ∨ receiver.syn = 1) ∧
      connection.receiver.syn.toNat ≤ receiver.syn.toNat := by
  have before := arrives.before.syn_eq
  have after := arrives.after.syn_eq
  simp only at before after
  cases connected : arrives.heard.connected || arrives.segment.syn with
  | true =>
      have one : receiver.syn = 1 := by
        rw [after]
        simp [TCPReceiver.Heard.hear, connected]
      refine ⟨.inr one, ?_⟩
      rw [one, before]
      split
      · exact Nat.le_refl _
      · exact Nat.zero_le _
  | false =>
      obtain ⟨unheard, unstarted⟩ := Bool.or_eq_false_iff.mp connected
      simp only [unheard, Bool.false_eq_true, if_false] at before
      have still := arrives.before.bytes.bytesPushed_of_given_eq arrives.after.bytes (by
        simp [TCPReceiver.Heard.hear, connected])
      have checkpoint := arrives.after.checkpoint_eq
      have earlier := arrives.before.checkpoint_eq
      simp only [TCPReceiver.Trace.output] at checkpoint earlier still
      refine ⟨.inl ⟨?_, ?_⟩, ?_⟩
      · rw [after]
        simp [TCPReceiver.Heard.hear, unheard, unstarted]
      · rcases reliable.synced with ⟨-, none⟩ | ⟨one, -⟩
        · rw [checkpoint, still, ← earlier, none]
        · rw [one] at before
          exact absurd before (by decide)
      · rw [before]
        exact Nat.zero_le _

theorem Reliable.ahead_after (reliable : connection.Reliable isn receiverCapacity)
    {sent : Numbered} {receiver : TCPReceiver}
    (arrives : connection.Arrives isn receiverCapacity sent receiver)
    (member : sent ∈ connection.sender.messages)
    (ending : receiver.Ending connection.taken)
    (taken : connection.receiver.fin = 1 ∨ arrives.segment.piece.isLast = true → receiver.fin = 1) :
    Ahead { connection with receiver } := by
  intro last lastMember fin
  rcases ending.fin_cases with none | one
  · right
    have unset : (0 : UInt32) ≠ 1 := by decide
    have unmarked : sent.message.fin = false := by
      rw [Bool.eq_false_iff]
      intro marked
      have counted := taken (.inr (by rw [arrives.message] at marked; exact marked))
      rw [none] at counted
      exact absurd counted unset
    have apart := reliable.sent.apart last lastMember fin sent member unmarked
    have unended : arrives.segment.piece.isLast = false := by
      rw [arrives.message] at unmarked
      exact unmarked
    have stop := (Numbered.span_of_segment arrives.absolute arrives.message).2
    rw [unended, Bool.toNat_false] at stop
    have known : ∀ position ∈ receiver.reassembler.known, 1 + position < last.span.first := by
      intro position inside
      have given := arrives.after.bytes.known_eq
      have old := arrives.before.bytes.known_eq
      simp only at given old
      have earlier : position ∈ connection.receiver.reassembler.known ∨
          position < arrives.segment.piece.stop := by
        rw [given] at inside
        rw [old]
        simp only [TCPReceiver.Heard.hear] at inside
        split at inside
        · rw [Finset.mem_union, Finset.mem_inter, mem_positions] at inside
          exact inside.imp id fun new => new.1.2
        · exact .inl inside
      rcases earlier with before | new
      · rcases reliable.ahead last lastMember fin with counted | ⟨-, ahead⟩
        · have counted := taken (.inl counted)
          rw [none] at counted
          exact absurd counted unset
        · exact ahead position before
      · omega
    refine ⟨?_, known⟩
    have checkpoint := arrives.after.checkpoint_eq
    have pushed := (arrives.after.bytes.range_subset_iff _).mpr (Nat.le_refl _)
    have given := arrives.after.bytes.known_eq
    simp only [TCPReceiver.Trace.output] at checkpoint pushed given
    have single : receiver.syn.toNat ≤ 1 := by
      rcases (reliable.synced_after arrives).1 with ⟨zero, -⟩ | one
      · rw [zero]
        exact Nat.zero_le 1
      · rw [one]
        exact Nat.le_refl 1
    have number : accepted { connection with receiver } =
        receiver.reassembler.output.bytesPushed + receiver.syn.toNat := by
      rw [accepted, checkpoint, none]
      rfl
    rw [number]
    by_cases empty : receiver.reassembler.output.bytesPushed = 0
    · omega
    · have inside : receiver.reassembler.output.bytesPushed - 1 ∈ receiver.reassembler.known := by
        rw [given]
        apply pushed
        rw [Finset.mem_range]
        omega
      have before := known _ inside
      omega
  · exact .inl one

theorem Reliable.deliver (reliable : connection.Reliable isn receiverCapacity) {sent : Numbered}
    (member : sent ∈ connection.sender.transmitted)
    (recent : connection.receiver.checkpoint ≤ sent.absolute + 2 ^ 31)
    (admits : sent.message.fin = true → connection.Admits sent) :
    ∃ receiver, connection.receiver.receive sent.message = .ok receiver ∧
      Nonempty (Arrives isn receiverCapacity connection sent receiver) ∧
      Reliable isn receiverCapacity { connection with receiver } ∧
      (sent.message.fin = true → receiver.fin = 1) ∧
      connection.accepted ≤ accepted { connection with receiver } := by
  have inMessages : sent ∈ connection.sender.messages := by
    simp [TCPSender.messages, member]
  have near := reliable.near member
  obtain ⟨receiver, received, ⟨arrives⟩, joined⟩ := reliable.toJoined.deliver member ⟨recent, near⟩
  have segmentNear : TCPReceiver.Trace.Near
      ⟨connection.receiver, connection.popped, arrives.heard⟩ (.receive arrives.segment) := by
    rw [arrives.absolute] at recent near
    exact ⟨recent, near⟩
  have segmentReceived : connection.receiver.receive (arrives.segment.message isn) =
      .ok receiver := by
    rw [arrives.message, TCPReceiver.receive_rst] at received
    exact received
  obtain ⟨ending, taken⟩ := reliable.ending.receive arrives.before segmentNear
    (reliable.completing arrives inMessages admits) segmentReceived
  obtain ⟨synced, syn⟩ := reliable.synced_after arrives
  have kept := arrives.before.bytes.pushed_le arrives.after.bytes
    (arrives.heard.given_subset_hear arrives.segment _)
  have checkpoint := arrives.before.checkpoint_eq
  have later := arrives.after.checkpoint_eq
  simp only [TCPReceiver.Trace.output] at checkpoint later kept
  have more : connection.accepted ≤ accepted { connection with receiver } := by
    have fin : connection.receiver.fin.toNat ≤ receiver.fin.toNat := by
      rcases reliable.ending.fin_cases with none | one
      · rw [none]
        exact Nat.zero_le _
      · rw [one, taken (.inl one)]
    simp only [accepted, checkpoint, later]
    omega
  refine ⟨receiver, received, ⟨arrives⟩, ?_, ?_, more⟩
  · refine ⟨joined, reliable.flowing, reliable.small, ending, ?_,
      reliable.ahead_after arrives inMessages ending taken, ?_, Nat.le_trans reliable.acked more⟩
    · rcases synced with none | one
      · exact .inl none
      · exact .inr ⟨one, reliable.sent.begun sent inMessages⟩
    · intro answer answered
      obtain ⟨early, ackno⟩ := reliable.honest answer answered
      exact ⟨Nat.le_trans early more, ackno⟩
  · intro marked
    rw [arrives.message] at marked
    exact taken (.inr marked)

theorem Reliable.pop (reliable : connection.Reliable isn receiverCapacity) (len : Nat) :
    ∃ next, connection.step (.pop len) = .ok next ∧ next.Reliable isn receiverCapacity ∧
      next.accepted = connection.accepted ∧ next.sending = connection.sending := by
  obtain ⟨heard, follows⟩ := reliable.heard
  obtain ⟨next, stepped, nextFollows, -⟩ := follows.pop len
  cases stepped
  refine ⟨_, rfl, ?_, rfl, rfl⟩
  exact ⟨⟨reliable.sent, ⟨_, nextFollows⟩, reliable.ended⟩, reliable.flowing, reliable.small,
    reliable.ending.pop len, reliable.synced, reliable.ahead, reliable.honest, reliable.acked⟩

theorem Reliable.ackno_eq (reliable : connection.Reliable isn receiverCapacity)
    (numbered : connection.receiver.send.ackno.isSome = true) :
    connection.receiver.send.ackno = some (Wrap32.wrap connection.accepted isn) := by
  obtain ⟨heard, follows⟩ := reliable.heard
  cases connected : heard.connected with
  | false =>
      have synBefore := follows.synBefore_eq
      simp only [connected, Bool.false_eq_true, if_false] at synBefore
      simp [TCPReceiver.send, synBefore] at numbered
  | true =>
      have syn := follows.syn_eq
      have checkpoint := follows.checkpoint_eq
      simp only [connected, if_true] at syn
      simp only at checkpoint
      have ackno := follows.ackno_eq connected
      simp only at ackno
      rw [ackno, accepted, checkpoint, syn, Nat.add_comm 1]
      rfl

theorem Reliable.answer (reliable : connection.Reliable isn receiverCapacity) :
    ∃ next, connection.step .answer = .ok next ∧ next.Reliable isn receiverCapacity := by
  refine ⟨_, rfl, ⟨reliable.sent, reliable.heard, reliable.ended⟩, reliable.flowing, reliable.small,
    reliable.ending, reliable.synced, reliable.ahead, ?_, reliable.acked⟩
  intro answer member
  rcases List.mem_append.mp member with old | new
  · exact reliable.honest answer old
  · obtain rfl := List.mem_singleton.mp new
    exact ⟨Nat.le_refl _, reliable.ackno_eq⟩

theorem step_reliable (connection : Connection) (event : Event)
    (reliable : connection.Reliable isn receiverCapacity) (calm : connection.Calm event) :
    ∃ next, connection.step event = .ok next ∧ next.Reliable isn receiverCapacity := by
  cases event with
  | write data => exact reliable.write data calm.1 calm.2
  | close => exact reliable.close
  | push => exact reliable.push calm
  | tick msSinceLastTick => exact reliable.tick msSinceLastTick
  | deliver index =>
      cases arrives : connection.sender.transmitted[index]? with
      | none => exact ⟨connection, by simp only [step, arrives], reliable⟩
      | some sent =>
          obtain ⟨recent, admits⟩ := calm sent arrives
          obtain ⟨receiver, received, -, nextReliable, -⟩ :=
            reliable.deliver (List.mem_of_getElem? arrives) recent admits
          exact ⟨_, by simp only [step, arrives, received], nextReliable⟩
  | pop len =>
      obtain ⟨next, stepped, nextReliable, -⟩ := reliable.pop len
      exact ⟨next, stepped, nextReliable⟩
  | answer => exact reliable.answer
  | acknowledge index leftover =>
      cases arrives : connection.answers[index]? with
      | none => exact ⟨connection, by simp only [step, arrives], reliable⟩
      | some answer =>
          obtain ⟨numbered, recent, takes⟩ := calm answer arrives
          obtain ⟨next, stepped, nextReliable, -⟩ :=
            reliable.acknowledge (List.mem_of_getElem? arrives) leftover numbered recent takes
          exact ⟨next, by simp only [step, arrives, stepped], nextReliable⟩

/-! What no state of a calm run loses. -/

theorem segment_covers {stream : Bytes} {segment : Segment stream} {sent : Numbered}
    (absolute : sent.absolute = segment.absolute)
    (message : sent.message = { segment.message isn with rst := sent.message.rst })
    {index : Nat} (inside : index < stream.length) (begins : sent.span.first ≤ 1 + index)
    (ends : 1 + index < sent.span.stop) :
    segment.piece.first ≤ index ∧ index < segment.piece.stop ∧
      index - segment.piece.first + sent.absolute = index + if sent.message.syn then 0 else 1 := by
  have order := segment.piece.order
  obtain ⟨first, stop⟩ := Numbered.span_of_segment absolute message
  have number : sent.span.first = sent.absolute := rfl
  have syn : sent.message.syn = segment.syn := by
    rw [message]
    rfl
  have within : index < segment.piece.stop := by
    cases last : segment.piece.isLast with
    | true =>
        rw [segment.piece.closing last]
        exact inside
    | false =>
        rw [last, Bool.toNat_false] at stop
        omega
  rw [syn]
  cases marked : segment.syn with
  | true =>
      have zero := segment.synFirst marked
      rw [marked, Bool.toNat_true] at first
      rw [if_pos rfl]
      omega
  | false =>
      rw [marked, Bool.toNat_false] at first
      rw [if_neg (by decide)]
      omega

theorem Reliable.places (reliable : connection.Reliable isn receiverCapacity) {sent : Numbered}
    (member : sent ∈ connection.sender.messages) {index : Nat}
    (taken : index < connection.sender.input.bytesPopped) (begins : sent.span.first ≤ 1 + index)
    (ends : 1 + index < sent.span.stop) :
    ∃ position, sent.Places connection.sending.written position index := by
  obtain ⟨segment, absolute, message⟩ := reliable.sent.cut sent member
  have bound := reliable.sent.bound
  have length : (connection.sending.written.take connection.sender.input.bytesPopped).length =
      connection.sender.input.bytesPopped := reliable.taken_length
  obtain ⟨first, stop, position_eq⟩ :=
    segment_covers absolute message (by omega) begins ends
  have payload : sent.message.payload = segment.piece.data := by
    rw [message]
    rfl
  refine ⟨index - segment.piece.first, by omega, ?_⟩
  have inside : index < connection.sending.written.length := by omega
  refine ⟨connection.sending.written[index], ?_, List.getElem?_eq_getElem inside⟩
  rw [payload, Piece.data, slice, List.getElem?_drop, Nat.add_sub_cancel' first,
    List.getElem?_take_of_lt stop, List.getElem?_take_of_lt taken]
  exact List.getElem?_eq_getElem inside

theorem Reliable.arrived_eq (reliable : connection.Reliable isn receiverCapacity) :
    connection.popped ++ connection.output.buffer =
      connection.taken.take connection.output.bytesPushed := by
  obtain ⟨heard, follows⟩ := reliable.heard
  exact follows.bytes.pushed_eq.1

theorem Reliable.losesNothing (reliable : connection.Reliable isn receiverCapacity) :
    connection.LosesNothing := by
  intro index byte there
  obtain ⟨checkpoint, pushedLe⟩ := reliable.pushed_le
  have stream := reliable.sent.stream
  have nextSeq := reliable.sent.next
  have acked := reliable.acked
  have syn := reliable.syn_le
  have syned := Bool.toNat_le connection.sender.isSyned
  rw [accepted] at acked
  by_cases arrived : index < connection.output.bytesPushed
  · apply Keeps.arrived
    rw [reliable.arrived_eq, taken, List.getElem?_take_of_lt arrived,
      List.getElem?_take_of_lt (by omega)]
    exact there
  · by_cases taken : index < connection.sender.input.bytesPopped
    · have begun : connection.sender.isSyned = true := by
        by_contra unsyned
        have none := reliable.sent.unsent (by simpa using unsyned)
        omega
      have fin : connection.receiver.fin.toNat = 0 := by
        rcases reliable.fin_cases with none | ⟨-, -, all⟩
        · exact none
        · omega
      rw [begun, Bool.toNat_true] at nextSeq
      obtain ⟨sent, waits, begins, ends⟩ :=
        reliable.flowing.toWaiting.holds (1 + index) (by omega) (by omega)
      obtain ⟨position, places⟩ :=
        reliable.places (TCPSender.held_messages waits) taken begins ends
      exact .held sent waits position places
    · refine .buffered (index - connection.sender.input.bytesPopped) (by omega) ?_
      rw [← stream, List.getElem?_drop, Nat.add_sub_cancel' (by omega)]
      exact there

theorem Reliable.endsWhole (reliable : connection.Reliable isn receiverCapacity) :
    connection.EndsWhole := by
  intro closed
  cases reliable.ending with
  | going _ _ _ unclosed =>
      rw [ByteStream.isClosed, output, unclosed] at closed
      cases closed
  | done fin known _ all =>
      obtain ⟨close, empty⟩ := reliable.flowing.ended (reliable.ended known)
      have stream := reliable.sent.stream
      rw [empty, List.drop_eq_nil_iff] at stream
      refine ⟨close, ?_⟩
      rw [reliable.arrived_eq, output, all, List.take_length, taken, List.take_of_length_le stream]

/-- In every calm run nothing fails, and no byte is lost on the way. -/
theorem run_loses_nothing (capacity receiverCapacity : Nat) (bounded : receiverCapacity < 2 ^ 63)
    (isn : Wrap32) (initialRto : UInt64) (events : List Event)
    (calm : Runs.Permits step Calm (start capacity receiverCapacity isn initialRto) events) :
    (∃ last, Runs.run step (start capacity receiverCapacity isn initialRto) events = .ok last) ∧
      Runs.Always step LosesNothing (start capacity receiverCapacity isn initialRto) events := by
  have begins := start_reliable capacity bounded isn initialRto
  obtain ⟨last, ran, -⟩ := Runs.run_of_permits step_reliable events begins calm
  exact ⟨⟨last, ran⟩,
    Runs.always_of_permits step_reliable (fun _ reliable => reliable.losesNothing) events begins calm⟩

/-- In every calm run the reader sees the end of the stream only when it has everything. -/
theorem run_ends_whole (capacity receiverCapacity : Nat) (bounded : receiverCapacity < 2 ^ 63)
    (isn : Wrap32) (initialRto : UInt64) (events : List Event)
    (calm : Runs.Permits step Calm (start capacity receiverCapacity isn initialRto) events) :
    Runs.Always step EndsWhole (start capacity receiverCapacity isn initialRto) events :=
  Runs.always_of_permits step_reliable (fun _ reliable => reliable.endsWhole) events
    (start_reliable capacity bounded isn initialRto) calm

/-- The second message is lost and waits for the timeout while the third one arrives; the receiver has
room for six bytes, so that its window closes, and the seventh byte is sent as a probe. -/
def lossy : List Event :=
  [.write [1, 2, 3], .push, .deliver 0, .answer, .acknowledge 0 ⟨0⟩, .write [4, 5], .push, .write [6],
    .push, .deliver 2, .tick 50, .deliver 3, .answer, .acknowledge 1 ⟨0⟩, .write [7, 8], .push, .pop 4,
    .deliver 4, .answer, .acknowledge 2 ⟨0⟩, .push, .close, .push, .deliver 5, .deliver 6]

theorem run_loses_nothing_lossy :
    (∃ last, Runs.run step (start 100 6 ⟨0xFFFFFFFE⟩ 50) lossy = .ok last) ∧
      Runs.Always step LosesNothing (start 100 6 ⟨0xFFFFFFFE⟩ 50) lossy :=
  run_loses_nothing 100 6 (by decide) ⟨0xFFFFFFFE⟩ 50 lossy (by decide +kernel)

theorem run_ends_whole_lossy :
    Runs.Always step EndsWhole (start 100 6 ⟨0xFFFFFFFE⟩ 50) lossy :=
  run_ends_whole 100 6 (by decide) ⟨0xFFFFFFFE⟩ 50 lossy (by decide +kernel)

end Connection

end LearnInternet.Tcp
