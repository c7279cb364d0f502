import LearnInternet.Tcp.Reliability

/-!
A connection never gets stuck: from every state of a calm run some continuation brings all that was
written to the other end, and its acknowledgment back. If the writer has closed the stream, the
reader sees its end.
-/

namespace LearnInternet.Tcp

open Spans

namespace TCPSender

variable {sender : TCPSender} {isn : Wrap32} {written : Bytes}

theorem pushSimpleMode_takes (sender : TCPSender) :
    sender.input.bytesPopped ≤ sender.pushSimpleMode.input.bytesPopped := by
  rw [pushSimpleMode_input, ByteStream.pop_bytesPopped]
  exact Nat.le_add_right _ _

theorem pushSyned_takes (syned : sender.isSyned = true) (pushes : sender.hasToPush = true) :
    sender.input.bytesPopped < sender.pushSyned.input.bytesPopped := by
  obtain ⟨room, -, buffered⟩ := sender.hasToPush_iff.mp pushes
  have asked := requested_pos syned room
  have first : sender.input.bytesPopped < sender.pushSimpleMode.input.bytesPopped := by
    simp only [ByteStream.bytesBuffered] at buffered
    rw [pushSimpleMode_input, ByteStream.pop_bytesPopped, List.length_take]
    omega
  have loop : sender.pushSimpleMode.input.bytesPopped ≤
      (pushLoop sender.input.bytesBuffered sender).input.bytesPopped := by
    obtain ⟨rounds, count⟩ := Nat.exists_eq_succ_of_ne_zero (Nat.pos_iff_ne_zero.mp buffered)
    rw [count, pushLoop, if_pos pushes]
    apply pushLoop_induction (motive := fun next =>
      sender.pushSimpleMode.input.bytesPopped ≤ next.input.bytesPopped) _ rounds (Nat.le_refl _)
    intro next more _
    exact Nat.le_trans more next.pushSimpleMode_takes
  simp only [pushSyned]
  split
  · exact Nat.lt_of_lt_of_le first (Nat.le_trans loop (pushSimpleMode_takes _))
  · exact Nat.lt_of_lt_of_le first loop

theorem pushSimple_isSyned (sender : TCPSender) : sender.pushSimple.isSyned = true := by
  simp only [pushSimple]
  split
  · rename_i syned
    exact pushSyned_isSyned syned
  · exact pushSyned_isSyned sender.pushSimpleMode_isSyned

inductive Left (sender : TCPSender) : Prop where
  | syn (unsyned : sender.isSyned = false)
  | bytes (syned : sender.isSyned = true) (buffered : 0 < sender.input.bytesBuffered)
  | fin (syned : sender.isSyned = true) (empty : sender.input.bytesBuffered = 0)
      (closed : sender.input.close = true) (unfinned : sender.isFined = false)

theorem Flowing.left (flowing : sender.Flowing isn written)
    (rest : sender.nextSeq < 1 + written.length + sender.input.close.toNat) : sender.Left := by
  have nextSeq := flowing.next
  have stream := congrArg List.length flowing.stream
  rw [List.length_drop] at stream
  cases syned : sender.isSyned with
  | false => exact .syn syned
  | true =>
      by_cases buffered : 0 < sender.input.bytesBuffered
      · exact .bytes syned buffered
      · have empty := Nat.eq_zero_of_not_pos buffered
        have length : sender.input.buffer.length = 0 := empty
        rw [syned, Bool.toNat_true] at nextSeq
        have ended := flowing.ended
        cases fined : sender.isFined with
        | true =>
            rw [(ended fined).1] at rest
            rw [fined] at nextSeq
            simp only [Bool.toNat_true] at rest nextSeq
            omega
        | false =>
            refine .fin syned empty ?_ fined
            by_contra unclosed
            rw [Bool.eq_false_of_not_eq_true unclosed] at rest
            simp only [Bool.toNat_false] at rest
            omega

theorem Left.pushZwpMode (left : sender.Left) (window : sender.window = []) :
    sender.pushZwpMode.nextSeq = sender.nextSeq + 1 := by
  cases left with
  | syn unsyned =>
      simp [TCPSender.pushZwpMode, window, cutStream, unsyned, makeEmptyMessage,
        TCPSenderMessage.sequenceLength, probe, transmit]
  | bytes syned buffered =>
      have one : (sender.input.peek.take 1).length = 1 := by
        rw [ByteStream.peek_take (.inr (by decide)), List.length_take]
        exact Nat.min_eq_left buffered
      simp [TCPSender.pushZwpMode, window, cutStream, syned, Nat.ne_of_gt buffered, makeEmptyMessage,
        TCPSenderMessage.sequenceLength, one, probe, transmit]
  | fin syned empty closed unfinned =>
      simp [TCPSender.pushZwpMode, window, cutStream, syned, empty, ByteStream.isFinished, closed,
        unfinned, makeEmptyMessage, TCPSenderMessage.sequenceLength, probe, transmit]

theorem launch_isFined (sender : TCPSender) (message : TCPSenderMessage) :
    (sender.launch message).isFined = sender.isFined := by
  rw [launch]
  split
  · rfl
  · rfl

theorem pushSimple_isFined (syned : sender.isSyned = true) (empty : sender.input.bytesBuffered = 0)
    (closed : sender.input.close = true) (unfinned : sender.isFined = false)
    (room : 0 < sender.space) : sender.pushSimple.isFined = true := by
  have nothing : sender.input.buffer = [] := List.eq_nil_of_length_eq_zero empty
  have finished : sender.input.isFinished = true := by
    simp [ByteStream.isFinished, closed, empty]
  have once : sender.pushSimple = sender.pushSimpleMode := by
    simp only [pushSimple, syned, if_true, pushSyned, empty, pushLoop]
    exact if_pos ⟨unfinned, room, finished, trivial⟩
  have unmarked : sender.fillSyn sender.makeEmptyMessage = (sender, sender.makeEmptyMessage) :=
    if_pos syned
  have filled := sender.fillPayload_eq sender.makeEmptyMessage rfl rfl
  rw [once, pushSimpleMode]
  simp only [unmarked, filled, launch_isFined]
  rw [fillFin, if_pos]
  refine ⟨unfinned, ?_, ?_, ?_⟩
  · have length : TCPSenderMessage.sequenceLength
        { sender.makeEmptyMessage with
          payload := sender.input.peek.take (request sender.space sender.makeEmptyMessage.syn) } =
        0 := by
      simp [TCPSenderMessage.sequenceLength, makeEmptyMessage, ByteStream.peek_eq_take, nothing]
    rw [length]
    simpa [space] using room
  · simp [ByteStream.isFinished, ByteStream.bytesBuffered, ByteStream.pop, nothing, closed]
  · simp [ByteStream.bytesBuffered, ByteStream.pop, nothing]

theorem Flowing.space_eq (flowing : sender.Flowing isn written) (idle : sender.held = []) :
    sender.space = sender.rwSize := by
  have acked := flowing.toWaiting.nil_iff.mp idle
  have inFlight := flowing.seqFNum_eq
  have none : sender.seqFNum = 0 := by
    rw [← UInt64.toNat_inj, inFlight, acked, Nat.sub_self]
    rfl
  rw [space, none, UInt64.sub_zero]

theorem Flowing.unfinned (flowing : sender.Flowing isn written) (left : sender.Left) :
    sender.isFined = false := by
  rw [Bool.eq_false_iff]
  intro fined
  cases left with
  | syn unsyned =>
      rw [flowing.order fined] at unsyned
      cases unsyned
  | bytes syned buffered =>
      rw [ByteStream.bytesBuffered, (flowing.ended fined).2] at buffered
      exact absurd buffered (Nat.lt_irrefl _)
  | fin syned empty closed unfinned =>
      rw [fined] at unfinned
      cases unfinned

theorem Flowing.pushSimple_sends (flowing : sender.Flowing isn written)
    (simple : sender.zeroWindowProbe = false) (idle : sender.held = []) (left : sender.Left)
    (wide : sender.isSyned = true → sender.rwSize ≠ 0) (lossless : sender.Lossless) :
    sender.nextSeq < sender.push.nextSeq := by
  obtain ⟨pushed, pushes⟩ := flowing.pushSimple simple fun _ => lossless
  have nextSeq := flowing.next
  have later := pushes.next
  have grown := pushes.grows.taken
  have begun := sender.pushSimple_isSyned
  rw [← pushed] at begun
  rw [begun, Bool.toNat_true] at later
  rw [flowing.unfinned left, Bool.toNat_false] at nextSeq
  cases left with
  | syn unsyned =>
      rw [unsyned, Bool.toNat_false] at nextSeq
      omega
  | bytes syned buffered =>
      have window := wide syned
      have bound := flowing.rwSize_le
      have some : sender.rwSize.toNat ≠ 0 := fun zero => window (UInt64.toNat_inj.mp zero)
      have something : sender.hasToPush = true := by
        rw [hasToPush_iff]
        refine ⟨?_, flowing.unfinned (.bytes syned buffered), buffered⟩
        simp only [positiveInt64, flowing.space_eq idle, decide_eq_true_eq,
          UInt64.lt_iff_toNat_lt, UInt64.reduceToNat]
        omega
      have taken := pushSyned_takes syned something
      have once : sender.push = sender.pushSyned := by
        rw [pushed, TCPSender.pushSimple, if_pos syned]
      rw [← once] at taken
      rw [syned, Bool.toNat_true] at nextSeq
      omega
  | fin syned empty closed unfinned =>
      have room : 0 < sender.space := by
        rw [flowing.space_eq idle, UInt64.pos_iff_ne_zero]
        exact wide syned
      have fined := pushSimple_isFined syned empty closed unfinned room
      rw [← pushed] at fined
      rw [fined, Bool.toNat_true] at later
      rw [syned, Bool.toNat_true] at nextSeq
      omega

theorem Flowing.push_sends (flowing : sender.Flowing isn written) (idle : sender.held = [])
    (left : sender.Left)
    (wide : sender.zeroWindowProbe = false → sender.isSyned = true → sender.rwSize ≠ 0)
    (lossless : sender.Lossless) : sender.nextSeq < sender.push.nextSeq := by
  cases flowing.mode with
  | simple simple => exact flowing.pushSimple_sends simple idle left (wide simple) lossless
  | shut shut still =>
      rw [(flowing.pushShut shut still idle).1,
        left.pushZwpMode (List.append_eq_nil_iff.mp idle).1]
      exact Nat.lt_succ_self _
  | probing _ _ _ probe =>
      obtain ⟨sent, probes⟩ := probe
      have none := (List.append_eq_nil_iff.mp idle).2
      rw [probes] at none
      cases none

theorem Flowing.tick_retransmits (flowing : sender.Flowing isn written) {first : Numbered}
    {rest : List Numbered} (waits : sender.held = first :: rest) :
    (sender.tick (sender.timer.rto - sender.timer.msTime)).transmitted =
      sender.transmitted ++ [first] := by
  have due : sender.timer.msTime + (sender.timer.rto - sender.timer.msTime) =
      sender.timer.rto := by grind
  cases flowing.mode with
  | simple simple idle none =>
      have window : sender.window = first :: rest := by
        rw [← held_of_none none]
        exact waits
      simp only [TCPSender.tick, simple, Bool.false_eq_true, if_false, tickSimpleMode, window,
        RetransmissionTimer.isTimeout, RetransmissionTimer.timePlus, due]
      simp [retransmitSimpleMode]
  | shut shut idle none =>
      rw [none] at waits
      cases waits
  | probing shut busy window probe =>
      have probes : sender.zeroWindowProbeMsg = first :: rest := by
        rw [held, window] at waits
        exact waits
      simp only [TCPSender.tick, shut, if_true, tickZwpMode, probes,
        RetransmissionTimer.isTimeout, RetransmissionTimer.timePlus, due]
      simp [retransmitZwpMode]

end TCPSender

namespace Connection

variable {connection next : Connection} {isn : Wrap32} {receiverCapacity : Nat}

theorem step_input {event : Event} (reliable : connection.Reliable isn receiverCapacity)
    (calm : connection.Calm event) (stepped : connection.step event = .ok next) :
    next.sender.input.capacity = connection.sender.input.capacity ∧
      (event = .close ∨ next.sender.input.close = connection.sender.input.close) := by
  cases event with
  | write data =>
      cases stepped
      obtain ⟨capacity, -, close⟩ := connection.sender.input.push_frame data
      exact ⟨capacity, .inr close⟩
  | close =>
      cases stepped
      exact ⟨rfl, .inl rfl⟩
  | push =>
      cases stepped
      have kept := connection.sender.push_keeps
      exact ⟨kept.capacity, .inr kept.close⟩
  | tick msSinceLastTick =>
      cases stepped
      obtain ⟨crt, timer, transmitted, ticked⟩ := connection.sender.tick_eq msSinceLastTick
      simp only [sender] at ticked ⊢
      rw [ticked]
      exact ⟨rfl, .inr rfl⟩
  | deliver index =>
      simp only [step] at stepped
      split at stepped
      · cases stepped
        exact ⟨rfl, .inr rfl⟩
      · split at stepped
        · cases stepped
        · cases stepped
          exact ⟨rfl, .inr rfl⟩
  | pop len =>
      cases stepped
      exact ⟨rfl, .inr rfl⟩
  | answer =>
      cases stepped
      exact ⟨rfl, .inr rfl⟩
  | acknowledge index leftover =>
      cases arrives : connection.answers[index]? with
      | none =>
          simp only [step, arrives] at stepped
          cases stepped
          exact ⟨rfl, .inr rfl⟩
      | some answer =>
          obtain ⟨numbered, recent, takes⟩ := calm answer arrives
          obtain ⟨made, sent, -, heeds, -⟩ :=
            reliable.acknowledge (List.mem_of_getElem? arrives) leftover numbered recent takes
          simp only [step, arrives, sent] at stepped
          cases stepped
          exact ⟨heeds.capacity, .inr heeds.close⟩

/-- A reliable connection between a writer that is never ahead of what `peek` shows and a reader with
some room; for a stream that is closed, with room for what comes with the `FIN`. -/
structure Live (isn : Wrap32) (receiverCapacity : Nat) (connection : Connection) : Prop
    extends Reliable isn receiverCapacity connection where
  narrow : connection.sender.input.capacity ≤ ByteStream.readBytesSize
  roomy : 0 < receiverCapacity
  fits : connection.sender.input.close = true →
    connection.sender.input.capacity ≤ receiverCapacity

theorem Live.lossless (live : connection.Live isn receiverCapacity) :
    connection.sender.Lossless :=
  .inl (Nat.le_trans connection.sender.input.fits live.narrow)

theorem Live.keeps (live : connection.Live isn receiverCapacity) (event : Event)
    (calm : connection.Calm event) (unclosing : event ≠ .close) :
    ∃ next, connection.step event = .ok next ∧ next.Live isn receiverCapacity ∧
      next.sender.input.close = connection.sender.input.close := by
  obtain ⟨next, stepped, reliable⟩ := step_reliable connection event live.toReliable calm
  obtain ⟨capacity, closes⟩ := step_input live.toReliable calm stepped
  have close := closes.resolve_left unclosing
  refine ⟨next, stepped, ⟨reliable, ?_, live.roomy, ?_⟩, close⟩
  · rw [capacity]
    exact live.narrow
  · rw [capacity, close]
    exact live.fits

def expected (connection : Connection) : Nat :=
  1 + connection.sending.written.length + connection.sender.input.close.toNat

theorem Reliable.nextSeq_le (reliable : connection.Reliable isn receiverCapacity) :
    connection.sender.nextSeq ≤ connection.expected := by
  have bound := reliable.sent.bound
  have nextSeq := reliable.sent.next
  have syned := Bool.toNat_le connection.sender.isSyned
  have fined : connection.sender.isFined.toNat ≤ connection.sender.input.close.toNat := by
    cases fined : connection.sender.isFined with
    | false => exact Nat.zero_le _
    | true => rw [(reliable.flowing.ended fined).1]
  rw [expected]
  omega

/-- What a continuation keeps: the same stream, and what was accepted. -/
structure Later (isn : Wrap32) (receiverCapacity : Nat) (connection : Connection) (count : Nat)
    (next : Connection) : Prop extends Live isn receiverCapacity next where
  written : next.sending.written = connection.sending.written
  close : next.sender.input.close = connection.sender.input.close
  more : count ≤ next.accepted

theorem Later.expected_eq {count : Nat}
    (later : connection.Later isn receiverCapacity count next) :
    next.expected = connection.expected := by
  rw [expected, later.written, later.close, expected]

theorem Later.trans {last : Connection} {count more : Nat}
    (first : connection.Later isn receiverCapacity count next)
    (second : next.Later isn receiverCapacity more last) :
    connection.Later isn receiverCapacity more last :=
  ⟨second.toLive, second.written.trans first.written, second.close.trans first.close, second.more⟩

structure Drained (connection : Connection) : Prop where
  read : connection.output.buffer = []
  acked : connection.sender.lastAckno = connection.accepted
  wide : connection.sender.zeroWindowProbe = false → connection.receiver.syn = 1 →
    connection.sender.rwSize ≠ 0

theorem Reliable.syn_cases (reliable : connection.Reliable isn receiverCapacity) :
    connection.receiver.syn = 0 ∧ connection.accepted = 0 ∨
      connection.receiver.syn = 1 ∧
        connection.accepted =
          1 + connection.output.bytesPushed + connection.receiver.fin.toNat := by
  obtain ⟨heard, follows⟩ := reliable.heard
  have checkpoint : connection.receiver.checkpoint = connection.output.bytesPushed :=
    follows.checkpoint_eq
  rcases reliable.synced with ⟨none, zero⟩ | ⟨one, -⟩
  · have syn := follows.syn_eq
    simp only [none] at syn
    have unheard : heard.connected = false := by
      rw [Bool.eq_false_iff]
      intro connected
      rw [if_pos connected] at syn
      exact absurd syn (by decide)
    have fin : connection.receiver.fin = 0 := follows.silent unheard
    refine .inl ⟨none, ?_⟩
    rw [accepted, none, fin, zero]
    rfl
  · refine .inr ⟨one, ?_⟩
    rw [accepted, one, checkpoint, Nat.add_comm _ (UInt32.toNat 1)]
    rfl

theorem Live.room (live : connection.Live isn receiverCapacity)
    (read : connection.output.buffer = []) :
    connection.output.bytesPopped = connection.output.bytesPushed ∧
      0 < connection.output.availableCapacity ∧
      connection.output.capacity = receiverCapacity := by
  obtain ⟨heard, follows⟩ := live.heard
  have holds := follows.bytes.holds
  have waiting := holds.waiting_eq
  have popped := holds.bytesPopped_eq
  have pushed := holds.bytesPushed_eq
  have capacity := follows.bytes.capacity_eq
  simp only [output] at read
  simp only [read, List.length_nil] at waiting
  simp only at popped pushed capacity
  refine ⟨?_, ?_, capacity⟩
  · rw [popped, pushed, waiting, Nat.add_zero]
  · rw [ByteStream.availableCapacity, read, capacity]
    exact live.roomy

theorem Live.answers (live : connection.Live isn receiverCapacity)
    (read : connection.output.buffer = []) (connected : connection.receiver.syn = 1) :
    connection.receiver.send.ackno.isSome = true ∧ connection.receiver.send.windowSize ≠ 0 := by
  obtain ⟨heard, follows⟩ := live.heard
  have syn := follows.syn_eq
  have synBefore := follows.synBefore_eq
  simp only at syn synBefore
  have before : connection.receiver.synBefore = 1 := by
    rw [synBefore, ← syn, connected]
  have room : 0 < connection.receiver.reassembler.output.availableCapacity := (live.room read).2.1
  refine ⟨?_, ?_⟩
  · rw [TCPReceiver.send, before]
    rfl
  · intro none
    have number := congrArg UInt16.toNat none
    simp only [TCPReceiver.send, UInt16.toNat_ofNat', UInt16.toNat_zero] at number
    split at number
    · cases number
    · rename_i narrow
      simp only [TCPReceiver.uint16Max] at narrow
      omega

/-- An answer that arrives acknowledges what was accepted; while the window is closed, the sender
takes one only for the answer to its probe. -/
theorem Live.exchange (live : connection.Live isn receiverCapacity)
    (read : connection.output.buffer = []) (connected : connection.receiver.syn = 1)
    (probed : connection.sender.zeroWindowProbe = true →
      connection.sender.isZeroWindowProbing = true ∧
        connection.accepted = connection.sender.nextSeq) :
    Runs.CanReach step Calm (fun next =>
      connection.Later isn receiverCapacity connection.accepted next ∧ next.Drained)
      connection := by
  let answer : Answer := ⟨connection.accepted, connection.receiver.send⟩
  let answered : Connection := { connection with answers := connection.answers ++ [answer] }
  obtain ⟨made, asked, answeredLive, -⟩ := live.keeps .answer trivial (by simp)
  obtain rfl : answered = made := Except.ok.inj asked
  have there : answered.answers[connection.answers.length]? = some answer := by
    simp [answered]
  obtain ⟨numbered, wide⟩ := live.answers read connected
  have recent : answered.sender.lastAckno ≤ answer.absolute + 2 ^ 31 :=
    Nat.le_add_right_of_le live.acked
  have takes : answered.sender.Takes answer.message answer.absolute := by
    refine ⟨fun shut => (probed shut).1, ?_⟩
    rintro (shut | narrow)
    · exact (probed shut).2
    · exact absurd narrow wide
  have calm : answered.Calm (.acknowledge connection.answers.length ⟨0⟩) := by
    intro arrived arrives
    rw [there] at arrives
    cases arrives
    exact ⟨numbered, recent, takes⟩
  obtain ⟨next, heard, -, heeds, receiver, popped, written⟩ :=
    answeredLive.toReliable.acknowledge (List.mem_of_getElem? there) ⟨0⟩ numbered recent takes
  have stepped : answered.step (.acknowledge connection.answers.length ⟨0⟩) = .ok next := by
    simp only [step, there, heard]
  obtain ⟨other, again, nextLive, close⟩ := answeredLive.keeps _ calm (by simp)
  rw [stepped] at again
  cases again
  have accepted_eq : next.accepted = connection.accepted := by
    simp only [accepted, receiver]
    rfl
  apply Runs.CanReach.after trivial asked
  apply Runs.CanReach.after calm stepped
  apply Runs.CanReach.here
  refine ⟨⟨nextLive, written, close, Nat.le_of_eq accepted_eq.symm⟩, ?_, ?_, ?_⟩
  · simp only [output, receiver]
    exact read
  · rw [heeds.lastAckno, accepted_eq]
    exact Nat.max_eq_right live.acked
  · intro _ _ shut
    rw [heeds.rwSize wide, ← UInt64.toNat_inj, UInt16.toNat_toUInt64] at shut
    apply wide
    rw [← UInt16.toNat_inj]
    exact shut

theorem Live.here (live : connection.Live isn receiverCapacity) :
    connection.Later isn receiverCapacity connection.accepted connection :=
  ⟨live, rfl, rfl, Nat.le_refl _⟩

theorem Live.settle (live : connection.Live isn receiverCapacity)
    (read : connection.output.buffer = []) :
    Runs.CanReach step Calm (fun next =>
      connection.Later isn receiverCapacity connection.accepted next ∧ next.Drained)
      connection := by
  have early := live.acked
  have below := live.accepted_le
  have silent := live.toReliable.syn_cases
  -- a sender that has shut its window without a probe cannot take an answer, and needs none
  cases live.flowing.mode with
  | simple simple =>
      rcases silent with ⟨none, zero⟩ | ⟨connected, -⟩
      · refine .here ⟨live.here, read, by omega, ?_⟩
        intro _ one
        rw [none] at one
        exact absurd one (by decide)
      · apply live.exchange read connected
        intro shut
        rw [simple] at shut
        cases shut
  | shut shut idle none =>
      have all := live.flowing.toWaiting.nil_iff.mp none
      refine .here ⟨live.here, read, by omega, ?_⟩
      intro simple
      rw [shut] at simple
      cases simple
  | probing shut busy window probe one =>
      by_cases taken : connection.accepted = connection.sender.nextSeq
      · rcases silent with ⟨-, zero⟩ | ⟨connected, -⟩
        · omega
        · exact live.exchange read connected fun _ => ⟨busy, taken⟩
      · refine .here ⟨live.here, read, by omega, ?_⟩
        intro simple
        rw [shut] at simple
        cases simple

theorem Live.catchUp (live : connection.Live isn receiverCapacity) :
    Runs.CanReach step Calm (fun next =>
      connection.Later isn receiverCapacity connection.accepted next ∧ next.Drained)
      connection := by
  obtain ⟨popped, stepped, poppedLive, close⟩ :=
    live.keeps (.pop connection.output.buffer.length) trivial (by simp)
  apply Runs.CanReach.after trivial stepped
  cases stepped
  apply (poppedLive.settle (by simp [output, ByteStream.pop])).mono
  rintro next ⟨later, drained⟩
  exact ⟨⟨later.toLive, later.written, later.close.trans close, later.more⟩, drained⟩

theorem Live.refill (live : connection.Live isn receiverCapacity) (drained : connection.Drained)
    (idle : connection.sender.held = []) (rest : connection.accepted < connection.expected) :
    Runs.CanReach step Calm (fun next =>
      (connection.Later isn receiverCapacity connection.accepted next ∧
        next.accepted = connection.accepted ∧ next.Drained) ∧ next.sender.held ≠ [])
      connection := by
  have lossless := live.lossless
  have acked := live.flowing.toWaiting.nil_iff.mp idle
  have number := drained.acked
  have left := live.flowing.left (by rw [expected] at rest; omega)
  have wide : connection.sender.zeroWindowProbe = false → connection.sender.isSyned = true →
      connection.sender.rwSize ≠ 0 := by
    intro simple syned
    apply drained.wide simple
    rcases live.toReliable.syn_cases with ⟨-, zero⟩ | ⟨connected, -⟩
    · have nextSeq := live.sent.next
      rw [syned, Bool.toNat_true] at nextSeq
      omega
    · exact connected
  have more := live.flowing.push_sends idle left wide lossless
  have pushes := live.flowing.push fun _ _ => lossless
  obtain ⟨next, stepped, nextLive, close⟩ := live.keeps .push (fun _ _ => lossless) (by simp)
  apply Runs.CanReach.after (fun _ _ => lossless) stepped
  apply Runs.CanReach.here
  cases stepped
  refine ⟨⟨⟨nextLive, rfl, close, Nat.le_refl _⟩, rfl, drained.read, ?_, ?_⟩, ?_⟩
  · exact pushes.lastAckno.trans drained.acked
  · intro simple connected
    rw [pushes.rwSize]
    exact drained.wide (pushes.zeroWindowProbe ▸ simple) connected
  · intro empty
    have same := pushes.toWaiting.nil_iff.mp empty
    rw [pushes.lastAckno, acked] at same
    exact absurd same (Nat.ne_of_lt more)

theorem Reliable.accepted_of_fin (reliable : connection.Reliable isn receiverCapacity)
    (fin : connection.receiver.fin.toNat = 1) :
    connection.sender.nextSeq ≤ connection.accepted := by
  have nextSeq := reliable.sent.next
  have syned := Bool.toNat_le connection.sender.isSyned
  have fined := Bool.toNat_le connection.sender.isFined
  rcases reliable.fin_cases with none | ⟨-, -, all⟩
  · omega
  · rcases reliable.syn_cases with ⟨-, zero⟩ | ⟨-, number⟩
    · rw [accepted] at zero
      omega
    · omega

theorem Arrives.pushes {sent : Numbered} {receiver : TCPReceiver}
    (arrives : connection.Arrives isn receiverCapacity sent receiver)
    (connected : arrives.heard.connected = true)
    (first : arrives.segment.piece.first ≤ connection.output.bytesPushed)
    (stop : connection.output.bytesPushed < arrives.segment.piece.stop)
    (room : connection.output.bytesPushed <
      connection.output.windowEnd arrives.segment.piece.first) :
    connection.output.bytesPushed < receiver.reassembler.output.bytesPushed := by
  apply (arrives.after.bytes.range_subset_iff _).mp
  have known :=
    (arrives.before.bytes.range_subset_iff connection.output.bytesPushed).mpr (Nat.le_refl _)
  intro position inside
  simp only [TCPReceiver.Heard.hear, connected, Bool.true_or, if_true, Finset.mem_union,
    Finset.mem_inter, mem_positions, Finset.mem_range, Piece.span] at inside ⊢
  by_cases old : position < connection.output.bytesPushed
  · exact .inl (known (Finset.mem_range.mpr old))
  · exact .inr (by omega)

theorem Live.accepts (live : connection.Live isn receiverCapacity)
    (read : connection.output.buffer = []) {sent : Numbered}
    (member : sent ∈ connection.sender.transmitted) (begins : sent.span.first ≤ connection.accepted)
    (ends : connection.accepted < sent.span.stop)
    (admits : sent.message.fin = true → connection.Admits sent)
    (recent : connection.receiver.checkpoint ≤ sent.absolute + 2 ^ 31) :
    ∃ receiver, connection.receiver.receive sent.message = .ok receiver ∧
      connection.accepted < accepted { connection with receiver } := by
  have inMessages : sent ∈ connection.sender.messages := by
    simp [TCPSender.messages, member]
  obtain ⟨receiver, received, ⟨arrives⟩, reliable, counted, -⟩ :=
    live.toReliable.deliver member recent admits
  refine ⟨receiver, received, ?_⟩
  have stop := live.sent.stop_le inMessages
  have later : accepted { connection with receiver } =
      receiver.checkpoint + receiver.syn.toNat + receiver.fin.toNat := rfl
  have checkpoint : receiver.checkpoint = receiver.reassembler.output.bytesPushed :=
    arrives.after.checkpoint_eq
  have one (joined : (arrives.heard.connected || arrives.segment.syn) = true) :
      receiver.syn.toNat = 1 := by
    have syn : receiver.syn = _ := arrives.after.syn_eq
    rw [syn]
    simp [TCPReceiver.Heard.hear, joined]
  cases marked : sent.message.fin with
  | true =>
      -- the `FIN` is the last number, and it is taken
      have all := reliable.accepted_of_fin (by simp only [counted marked]; rfl)
      exact Nat.lt_of_lt_of_le ends (Nat.le_trans stop all)
  | false =>
      rcases live.toReliable.syn_cases with ⟨-, zero⟩ | ⟨connected, number⟩
      · have first := (Numbered.span_of_segment arrives.absolute arrives.message).1
        have begun : arrives.segment.syn = true := by
          by_contra unsyned
          rw [Bool.eq_false_of_not_eq_true unsyned, Bool.toNat_false] at first
          omega
        have syn := one (by rw [begun, Bool.or_true])
        omega
      · have none : connection.receiver.fin.toNat = 0 := by
          rcases live.toReliable.fin_cases with none | ⟨some, -⟩
          · exact none
          · have all := live.toReliable.accepted_of_fin some
            omega
        have heard := arrives.connected connected
        obtain ⟨popped, -, capacity⟩ := live.room read
        have roomy := live.roomy
        rw [none, Nat.add_zero] at number
        rw [number] at begins ends
        have cut : sent.span.stop ≤ 1 + connection.taken.length + sent.message.fin.toNat :=
          (live.sent.cut sent inMessages).stop_le
        rw [marked, Bool.toNat_false] at cut
        obtain ⟨first, inside, -⟩ :=
          segment_covers arrives.absolute arrives.message (by omega) begins ends
        have limit := live.toReliable.windowEnd_eq arrives.segment.piece.first
        have pushed := arrives.pushes heard first inside (by rw [limit]; omega)
        have syn := one (by rw [heard, Bool.true_or])
        omega

theorem Live.admits (live : connection.Live isn receiverCapacity) (drained : connection.Drained)
    {sent : Numbered} (member : sent ∈ connection.sender.held)
    (begins : sent.span.first ≤ connection.sender.lastAckno) (marked : sent.message.fin = true) :
    connection.Admits sent := by
  have inMessages := TCPSender.held_messages member
  have behind := live.flowing.behind sent member
  have stop := live.sent.stop_le inMessages
  have acked := drained.acked
  have none : connection.receiver.fin.toNat = 0 := by
    rcases live.toReliable.fin_cases with none | ⟨one, -⟩
    · exact none
    · have all := live.toReliable.accepted_of_fin one
      omega
  have before : connection.accepted ≤ sent.span.first := by
    rcases live.ahead sent inMessages marked with one | ⟨before, -⟩
    · rw [one] at none
      exact absurd none (by decide)
    · exact before
  have closed := (live.flowing.ended (live.sent.marked sent inMessages marked)).1
  have fits := live.fits closed
  have short := live.flowing.short sent member
  obtain ⟨popped, -, capacity⟩ := live.room drained.read
  have syn := Bool.toNat_le sent.message.syn
  have first := (live.sent.cut sent inMessages).syn_first
  refine ⟨acked ▸ begins, ?_⟩
  simp only [Numbered.span, TCPSenderMessage.sequenceLength, marked, Bool.toNat_true] at before begins ⊢
  rcases live.toReliable.syn_cases with ⟨-, zero⟩ | ⟨-, number⟩
  · omega
  · cases started : sent.message.syn with
    | true =>
        have zero := first started
        omega
    | false =>
        rw [Bool.toNat_false]
        omega

theorem Live.retransmit (live : connection.Live isn receiverCapacity) (drained : connection.Drained)
    (waits : connection.sender.held ≠ []) :
    Runs.CanReach step Calm
      (connection.Later isn receiverCapacity (connection.accepted + 1)) connection := by
  obtain ⟨first, others, held⟩ := List.exists_cons_of_ne_nil waits
  have member : first ∈ connection.sender.held := by simp [held]
  have acked := drained.acked
  obtain ⟨begins, early, tiles⟩ := live.flowing.tiles
  have behind := live.flowing.behind first member
  have length := live.flowing.toWaiting.length_le member
  rw [held] at tiles
  have front : first.span.first = begins := tiles.1
  have admits := live.admits drained member (front ▸ early)
  let ms := connection.sender.timer.rto - connection.sender.timer.msTime
  let sending := TCPSender.Trace.mk (connection.sender.tick ms) connection.sending.written
  let ticked : Connection := { connection with sending }
  obtain ⟨made, stepped, tickedLive, close⟩ := live.keeps (.tick ms) trivial (by simp)
  obtain rfl : ticked = made := Except.ok.inj stepped
  have again := live.flowing.tick_retransmits held
  have there : ticked.sender.transmitted[connection.sender.transmitted.length]? = some first := by
    simp only [ticked, sending, ms]
    rw [again]
    simp
  have recent : connection.receiver.checkpoint ≤ first.absolute + 2 ^ 31 := by
    have number : connection.receiver.checkpoint ≤ connection.accepted := by
      rw [accepted]
      omega
    simp only [Numbered.span] at behind
    omega
  obtain ⟨receiver, received, more⟩ := tickedLive.accepts drained.read
    (List.mem_of_getElem? there) (by rw [front]; exact acked ▸ early) (acked ▸ behind) admits recent
  have delivers : ticked.step (.deliver connection.sender.transmitted.length) =
      .ok { ticked with receiver } := by
    simp only [step, there, received]
  have calm : ticked.Calm (.deliver connection.sender.transmitted.length) := by
    intro sent arrives
    rw [there] at arrives
    cases arrives
    exact ⟨recent, admits⟩
  obtain ⟨other, same, nextLive, -⟩ := tickedLive.keeps _ calm (by simp)
  rw [delivers] at same
  cases same
  apply Runs.CanReach.after trivial stepped
  apply Runs.CanReach.after calm delivers
  exact .here ⟨nextLive, rfl, close, more⟩

/-- Everything written was read, and nothing waits to be sent or acknowledged. -/
structure Finished (connection : Connection) : Prop where
  read : connection.popped = connection.sending.written
  empty : connection.sender.input.buffer = []
  held : connection.sender.held = []
  ended : connection.sender.input.close = true →
    connection.sender.isFined = true ∧ connection.output.isFinished = true

theorem Live.finished (live : connection.Live isn receiverCapacity) (drained : connection.Drained)
    (all : connection.expected ≤ connection.accepted) : connection.Finished := by
  obtain ⟨heard, follows⟩ := live.heard
  have popped : connection.output.bytesPopped = connection.popped.length :=
    follows.bytes.holds.bytesPopped_eq
  have whole := live.toJoined.read
  rw [drained.read, List.append_nil] at whole
  have bound := live.sent.bound
  have nextSeq := live.sent.next
  have stream := live.sent.stream
  have acked := drained.acked
  have below := live.accepted_le
  have above := live.toReliable.nextSeq_le
  have pushed := live.toReliable.pushed_le.2
  have same := (live.room drained.read).1
  have syned := Bool.toNat_le connection.sender.isSyned
  have fined := Bool.toNat_le connection.sender.isFined
  have closed := Bool.toNat_le connection.sender.input.close
  have number : connection.accepted =
      1 + connection.output.bytesPushed + connection.receiver.fin.toNat := by
    rcases live.toReliable.syn_cases with ⟨-, zero⟩ | ⟨-, number⟩
    · rw [expected] at all
      omega
    · exact number
  have fin : connection.receiver.fin.toNat ≤ connection.sender.isFined.toNat := by
    rcases live.toReliable.fin_cases with none | ⟨one, done, -⟩
    · rw [none]
      exact Nat.zero_le _
    · rw [one, done, Bool.toNat_true]
  have ends : connection.sender.isFined.toNat ≤ connection.sender.input.close.toNat := by
    cases done : connection.sender.isFined with
    | false => exact Nat.zero_le _
    | true => rw [(live.flowing.ended done).1]
  rw [expected] at all above
  refine ⟨?_, ?_, ?_, ?_⟩
  · apply whole.eq_of_length
    omega
  · rw [← stream, List.drop_eq_nil_iff]
    omega
  · rw [live.flowing.toWaiting.nil_iff]
    omega
  · intro close
    rw [close, Bool.toNat_true] at all
    have done : connection.sender.isFined = true := by
      by_contra undone
      rw [Bool.eq_false_of_not_eq_true undone, Bool.toNat_false] at nextSeq
      omega
    refine ⟨done, ?_⟩
    cases live.ending with
    | going none =>
        rw [none] at number
        simp only [UInt32.toNat_zero] at number
        omega
    | done _ _ closes =>
        have nothing := drained.read
        simp only [output] at nothing ⊢
        simp [ByteStream.isFinished, ByteStream.bytesBuffered, closes, nothing]

theorem Live.round (live : connection.Live isn receiverCapacity) :
    Runs.CanReach step Calm (fun next =>
      connection.Later isn receiverCapacity connection.accepted next ∧ next.Finished ∨
        connection.Later isn receiverCapacity (connection.accepted + 1) next)
      connection := by
  apply live.catchUp.trans
  rintro middle ⟨later, drained⟩
  have closer (next : Connection)
      (further : middle.Later isn receiverCapacity (middle.accepted + 1) next) :
      connection.Later isn receiverCapacity (connection.accepted + 1) next :=
    ⟨further.toLive, further.written.trans later.written, further.close.trans later.close,
      Nat.le_trans (Nat.succ_le_succ later.more) further.more⟩
  by_cases rest : middle.accepted < middle.expected
  · by_cases idle : middle.sender.held = []
    · apply (later.toLive.refill drained idle rest).trans
      rintro pushed ⟨⟨pushedLater, number, pushedDrained⟩, waits⟩
      apply (pushedLater.toLive.retransmit pushedDrained waits).mono
      intro next further
      rw [number] at further
      exact .inr (closer next (pushedLater.trans further))
    · apply (later.toLive.retransmit drained idle).mono
      intro next further
      exact .inr (closer next further)
  · apply Runs.CanReach.here
    exact .inl ⟨later, later.toLive.finished drained (Nat.le_of_not_lt rest)⟩

theorem step_steady (connection : Connection) (capacity : Nat) (event : Event)
    (steady : connection.Reliable isn receiverCapacity ∧ connection.sender.input.capacity = capacity)
    (calm : connection.Calm event) :
    ∃ next, connection.step event = .ok next ∧
      next.Reliable isn receiverCapacity ∧ next.sender.input.capacity = capacity := by
  obtain ⟨next, stepped, reliable⟩ := step_reliable connection event steady.1 calm
  exact ⟨next, stepped, reliable, (step_input steady.1 calm stepped).1.trans steady.2⟩

/-- From every state of a calm run whose writer is never ahead of what `peek` shows and whose reader
has some room, a calm continuation without another write brings everything that was written to the
reader, with the end of a stream that is closed, and every acknowledgment back. -/
theorem run_can_finish (capacity receiverCapacity : Nat) (isn : Wrap32) (initialRto : UInt64)
    (narrow : capacity ≤ ByteStream.readBytesSize) (roomy : 0 < receiverCapacity)
    (bounded : receiverCapacity < 2 ^ 63) (events : List Event)
    (calm : Runs.Permits step Calm (start capacity receiverCapacity isn initialRto) events) :
    ∃ last, Runs.run step (start capacity receiverCapacity isn initialRto) events = .ok last ∧
      ((last.sender.input.close = true → capacity ≤ receiverCapacity) →
        Runs.CanReach step Calm (fun next => next.Finished ∧
          next.sending.written = last.sending.written ∧
          next.sender.input.close = last.sender.input.close) last) := by
  have begins := start_reliable capacity bounded isn initialRto
  obtain ⟨last, ran, reliable, size⟩ :=
    Runs.run_of_permits (fun connection => step_steady connection capacity) events
      ⟨begins, rfl⟩ calm
  refine ⟨last, ran, fun fits => ?_⟩
  rw [← size] at narrow fits
  have live : last.Live isn receiverCapacity := ⟨reliable, narrow, roomy, fits⟩
  -- what is accepted grows to all that is expected
  apply Runs.CanReach.of_variant
    (fun connection => last.Later isn receiverCapacity 0 connection)
    (fun connection => last.expected - connection.accepted) _ ⟨live, rfl, rfl, Nat.zero_le _⟩
  intro connection later
  apply later.toLive.round.mono
  rintro next (⟨further, finished⟩ | further)
  · exact .inl ⟨finished, (later.trans further).written, (later.trans further).close⟩
  · have bound := Nat.le_trans further.accepted_le further.toReliable.nextSeq_le
    have more := further.more
    rw [(later.trans further).expected_eq] at bound
    refine .inr ⟨⟨further.toLive, (later.trans further).written, (later.trans further).close,
      Nat.zero_le _⟩, by omega⟩

theorem run_can_finish_lossy :
    ∃ last, Runs.run step (start 6 6 ⟨0xFFFFFFFE⟩ 50) lossy = .ok last ∧
      ((last.sender.input.close = true → 6 ≤ 6) →
        Runs.CanReach step Calm (fun next => next.Finished ∧
          next.sending.written = last.sending.written ∧
          next.sender.input.close = last.sender.input.close) last) :=
  run_can_finish 6 6 ⟨0xFFFFFFFE⟩ 50 (by decide) (by decide) (by decide) lossy (by decide +kernel)

end Connection

end LearnInternet.Tcp
