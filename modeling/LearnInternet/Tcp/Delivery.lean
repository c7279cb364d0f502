import LearnInternet.Lib.Runs
import LearnInternet.Tcp.Push

/-!
Acknowledgments and ticks, and what the sender delivers over whole runs.
-/

namespace LearnInternet.Tcp

namespace TCPSender

theorem dropAcknowledged_subset (sender : TCPSender) (ackno : Nat) :
    sender.dropAcknowledged ackno ⊆ sender.window := by
  apply List.Sublist.subset
  exact List.dropWhile_sublist _

theorem moves_of_forgets {sender next : TCPSender}
    (same : next.input = sender.input ∧ next.isn = sender.isn ∧ next.nextSeq = sender.nextSeq ∧
      next.isSyned = sender.isSyned ∧ next.isFined = sender.isFined ∧
      next.transmitted = sender.transmitted)
    (window : next.window ⊆ sender.window)
    (probes : next.zeroWindowProbeMsg ⊆ sender.zeroWindowProbeMsg) : sender.Moves next := by
  obtain ⟨input, isn, nextSeq, isSyned, isFined, transmitted⟩ := same
  constructor
  · constructor
    · exact isn
    · rw [input]
    · rw [input]
    · exact nextSeq
    · exact isSyned
    · exact isFined
    · intro sent member
      rw [transmitted]
      exact member
  · intro sent member
    simp only [messages, transmitted, List.mem_append] at member ⊢
    rcases member with (old | held) | probe
    · exact .inl (.inl old)
    · exact .inl (.inr (window held))
    · exact .inr (probes probe)

theorem takeAckno_moves (sender : TCPSender) (ackno : Nat) :
    sender.Moves (sender.takeAckno ackno) := by
  simp only [takeAckno]
  split
  · exact Moves.refl sender
  · split
    · apply moves_of_forgets
      · exact ⟨rfl, rfl, rfl, rfl, rfl, rfl⟩
      · exact sender.dropAcknowledged_subset ackno
      · exact List.Subset.refl _
    · exact Moves.refl sender

/-! What one message from the receiver does. -/

theorem checkRst_eq (sender : TCPSender) (msg : TCPReceiverMessage) :
    sender.checkRst msg = { sender with input := (sender.checkRst msg).input } := by
  rw [checkRst]
  split
  · rfl
  · rfl

theorem takeAckno_mode (sender : TCPSender) (ackno : Nat) (mode : Bool) :
    TCPSender.takeAckno { sender with zeroWindowProbe := mode } ackno =
      { sender.takeAckno ackno with zeroWindowProbe := mode } := by
  simp only [takeAckno]
  split
  · rfl
  · split
    · rfl
    · rfl

def hear (sender : TCPSender) (msg : TCPReceiverMessage) : TCPSender :=
  { sender with
    input := (sender.checkRst msg).input
    rwSize := msg.windowSize.toUInt64
    zeroWindowProbe := decide (msg.windowSize = 0) }

def answered (sender : TCPSender) (msg : TCPReceiverMessage) (ackno : Nat) : TCPSender :=
  { sender with
    input := (sender.checkRst msg).input
    rwSize := if msg.windowSize = 0 then sender.rwSize else msg.windowSize.toUInt64
    zeroWindowProbe := decide (msg.windowSize = 0)
    seqFNum := sender.seqFNum - 1
    isZeroWindowProbing := false
    timer := sender.timer.timeReset
    zeroWindowProbeMsg := sender.zeroWindowProbeMsg.dropLast
    lastAckno := ackno }

theorem receive_quiet {sender : TCPSender} (msg : TCPReceiverMessage) (leftover : Wrap32)
    (quiet : sender.zeroWindowProbe = false) :
    sender.receive msg leftover =
      .ok ((sender.hear msg).takeAckno (sender.acknowledged msg leftover)) := by
  have checked := sender.checkRst_eq msg
  generalize (sender.checkRst msg).input = input at checked
  rw [hear]
  by_cases shut : msg.windowSize = 0
  · simp only [receive, receiveZwpMode, checked, quiet, shut, if_true, decide_true,
      Bool.false_eq_true, if_false]
    rfl
  · simp only [receive, receiveSimpleMode, checked, quiet, if_neg shut, decide_eq_false shut,
      Bool.false_eq_true, if_false]
    exact congrArg Except.ok (takeAckno_mode _ _ false).symm

theorem receive_answered {sender : TCPSender} (msg : TCPReceiverMessage) (leftover : Wrap32)
    (probing : sender.zeroWindowProbe = true) (probes : sender.zeroWindowProbeMsg ≠ []) :
    sender.receive msg leftover =
      .ok (sender.answered msg (sender.acknowledged msg leftover)) := by
  have checked := sender.checkRst_eq msg
  generalize (sender.checkRst msg).input = input at checked
  rw [answered]
  by_cases shut : msg.windowSize = 0
  · simp only [receive, receiveZwpMode, checked, probing, shut, if_true, decide_true, takeProbe,
      if_neg probes]
    rfl
  · simp only [receive, receiveSimpleMode, checked, probing, if_neg shut, decide_eq_false shut,
      takeProbe, if_true, if_neg probes]
    rfl

theorem receive_undefined {sender : TCPSender} (msg : TCPReceiverMessage) (leftover : Wrap32)
    (probing : sender.zeroWindowProbe = true) (none : sender.zeroWindowProbeMsg = []) :
    sender.receive msg leftover = .error .popBack := by
  have checked := sender.checkRst_eq msg
  generalize (sender.checkRst msg).input = input at checked
  simp only [receive, receiveZwpMode, receiveSimpleMode, checked, probing, if_true, takeProbe,
    if_pos none]
  split
  · rfl
  · rfl

theorem eq_answered {sender next : TCPSender} {msg : TCPReceiverMessage} {leftover : Wrap32}
    (probing : sender.zeroWindowProbe = true)
    (received : sender.receive msg leftover = .ok next) :
    sender.zeroWindowProbeMsg ≠ [] ∧
      next = sender.answered msg (sender.acknowledged msg leftover) := by
  by_cases none : sender.zeroWindowProbeMsg = []
  · rw [receive_undefined msg leftover probing none] at received
    cases received
  · rw [receive_answered msg leftover probing none] at received
    cases received
    exact ⟨none, rfl⟩

theorem checkRst_moves (sender : TCPSender) (msg : TCPReceiverMessage) :
    sender.Moves (sender.checkRst msg) := by
  simp only [checkRst]
  split
  · exact ⟨⟨rfl, rfl, rfl, rfl, rfl, rfl, fun _ member => member⟩, fun _ member => member⟩
  · exact Moves.refl sender

theorem receive_moves {sender : TCPSender} (msg : TCPReceiverMessage) (leftover : Wrap32)
    (probing : sender.zeroWindowProbe = true → sender.zeroWindowProbeMsg ≠ []) :
    ∃ next, sender.receive msg leftover = .ok next ∧ sender.Moves next := by
  have checked := sender.checkRst_moves msg
  rw [checkRst_eq] at checked
  cases mode : sender.zeroWindowProbe with
  | true =>
      refine ⟨_, receive_answered msg leftover mode (probing mode), checked.trans ?_⟩
      apply moves_of_forgets
      · exact ⟨rfl, rfl, rfl, rfl, rfl, rfl⟩
      · exact List.Subset.refl _
      · exact List.dropLast_subset _
  | false =>
      have heard : sender.Moves (sender.hear msg) := by
        apply checked.trans
        exact moves_of_forgets ⟨rfl, rfl, rfl, rfl, rfl, rfl⟩ (List.Subset.refl _)
          (List.Subset.refl _)
      exact ⟨_, receive_quiet msg leftover mode, heard.trans (takeAckno_moves _ _)⟩

theorem moves_of_again {sender next : TCPSender} {first : Numbered}
    (held : first ∈ sender.messages)
    (same : next.input = sender.input ∧ next.isn = sender.isn ∧ next.nextSeq = sender.nextSeq ∧
      next.isSyned = sender.isSyned ∧ next.isFined = sender.isFined ∧
      next.window = sender.window ∧ next.zeroWindowProbeMsg = sender.zeroWindowProbeMsg)
    (again : next.transmitted = sender.transmitted ++ [first]) : sender.Moves next := by
  obtain ⟨input, isn, nextSeq, isSyned, isFined, window, probes⟩ := same
  constructor
  · constructor
    · exact isn
    · rw [input]
    · rw [input]
    · exact nextSeq
    · exact isSyned
    · exact isFined
    · intro sent member
      rw [again]
      exact List.mem_append_left _ member
  · intro sent member
    simp only [messages, again, window, probes, List.mem_append, List.mem_singleton] at member
    rcases member with ((old | rfl) | held) | probe
    · simp [messages, old]
    · exact held
    · simp [messages, held]
    · simp [messages, probe]

theorem moves_of_timer (sender : TCPSender) (timer : RetransmissionTimer) :
    sender.Moves { sender with timer } := by
  exact moves_of_forgets ⟨rfl, rfl, rfl, rfl, rfl, rfl⟩ (List.Subset.refl _) (List.Subset.refl _)

theorem tick_moves (sender : TCPSender) (msSinceLastTick : UInt64) :
    sender.Moves (sender.tick msSinceLastTick) := by
  simp only [tick]
  split
  · simp only [tickZwpMode]
    split
    · exact Moves.refl sender
    · rename_i first rest probes
      have held : first ∈ sender.messages := by simp [messages, probes]
      split
      · exact moves_of_again held ⟨rfl, rfl, rfl, rfl, rfl, rfl, rfl⟩ rfl
      · exact sender.moves_of_timer _
  · simp only [tickSimpleMode]
    split
    · exact Moves.refl sender
    · rename_i first rest window
      have held : first ∈ sender.messages := by simp [messages, window]
      split
      · exact moves_of_again held ⟨rfl, rfl, rfl, rfl, rfl, rfl, rfl⟩ rfl
      · exact sender.moves_of_timer _

/-! Whole runs. -/

theorem Streamed.write {sender : TCPSender} {isn : Wrap32} {written : Bytes}
    (streamed : sender.Streamed isn written) (data : Bytes) :
    { sender with input := sender.input.push data }.Streamed isn
      (written ++ data.take sender.input.availableCapacity) where
  isn_eq := streamed.isn_eq
  bound := by
    rw [ByteStream.push_bytesPopped, List.length_append]
    exact Nat.le_add_right_of_le streamed.bound
  stream := by
    rw [ByteStream.push_bytesPopped, ByteStream.push_buffer,
      List.drop_append_of_le_length streamed.bound, streamed.stream]
  next := by
    rw [ByteStream.push_bytesPopped]
    exact streamed.next
  order := streamed.order
  unsent := by
    rw [ByteStream.push_bytesPopped]
    exact streamed.unsent

theorem Sound.write {sender : TCPSender} {isn : Wrap32} {written : Bytes}
    (sound : sender.Sound isn written) (data : Bytes) :
    { sender with input := sender.input.push data }.Sound isn
      (written ++ data.take sender.input.availableCapacity) := by
  apply (sound.streamed.write data).sound
  · intro sent member
    exact (sound.fits sent member).write _
  · intro index below
    rw [ByteStream.push_bytesPopped] at below
    obtain ⟨sent, member, position, places⟩ := sound.kept index below
    exact ⟨sent, member, position, places.write _⟩

inductive Event where
  | write (data : Bytes)
  | close
  | push
  | receive (msg : TCPReceiverMessage) (leftover : Wrap32)
  | tick (msSinceLastTick : UInt64)

structure Trace where
  sender : TCPSender
  written : Bytes

namespace Trace

def start (capacity : Nat) (isn : Wrap32) (initialRto : UInt64) : Trace :=
  ⟨ofStream (ByteStream.ofCapacity capacity) isn initialRto, []⟩

def step (trace : Trace) : Event → Except Undefined Trace
  | .write data =>
      .ok ⟨{ trace.sender with input := trace.sender.input.push data },
        trace.written ++ data.take trace.sender.input.availableCapacity⟩
  | .close =>
      .ok { trace with
        sender := { trace.sender with input := trace.sender.input.closeWriter } }
  | .push => .ok { trace with sender := trace.sender.push }
  | .receive msg leftover =>
      match trace.sender.receive msg leftover with
      | .error undefined => .error undefined
      | .ok sender => .ok { trace with sender }
  | .tick msSinceLastTick => .ok { trace with sender := trace.sender.tick msSinceLastTick }

/-- Every transmitted byte has its own sequence number, and every popped byte is transmitted. -/
structure Delivered (isn : Wrap32) (trace : Trace) : Prop where
  right : ∀ sent ∈ trace.sender.transmitted, sent.Fits isn trace.written
  kept : ∀ index < trace.sender.input.bytesPopped,
    ∃ sent ∈ trace.sender.transmitted, ∃ position, sent.Places trace.written position index

def Meets (trace : Trace) : Event → Prop
  | .push =>
      (trace.sender.zeroWindowProbe = false →
        trace.sender.isSyned = false ∨ trace.sender.hasToPush = true → trace.sender.Lossless) ∧
      (trace.sender.zeroWindowProbe = true ∧ trace.sender.isZeroWindowProbing = false →
        (∀ first ∈ trace.sender.window.head?, first.message.payload = []) ∧
          (trace.sender.window = [] → trace.sender.isFined = true →
            trace.sender.input.bytesBuffered = 0))
  | .receive _ _ =>
      trace.sender.zeroWindowProbe = true → trace.sender.zeroWindowProbeMsg ≠ []
  | _ => True

instance (trace : Trace) (event : Event) : Decidable (trace.Meets event) :=
  match event with
  | .write _ => .isTrue trivial
  | .close => .isTrue trivial
  | .push => inferInstanceAs (Decidable (_ ∧ _))
  | .receive _ _ => inferInstanceAs (Decidable (_ → _))
  | .tick _ => .isTrue trivial

def Sound (isn : Wrap32) (trace : Trace) : Prop := trace.sender.Sound isn trace.written

theorem start_sound (capacity : Nat) (isn : Wrap32) (initialRto : UInt64) :
    Sound isn (start capacity isn initialRto) := by
  have zero : isn.unwrap isn 0 = 0 := by
    have wrapped := Wrap32.unwrap_wrap (n := 0) isn (Nat.zero_le (0 + 2 ^ 31)) (by decide)
    simpa [Wrap32.wrap, Wrap32.add] using wrapped
  constructor
  · rfl
  · exact Nat.zero_le _
  · rfl
  · simp [start, ofStream, zero, ByteStream.ofCapacity]
  · intro fined
    cases fined
  · intro _
    rfl
  · intro sent member
    cases member
  · intro index below
    exact absurd below (Nat.not_lt_zero index)

theorem step_sound {isn : Wrap32} (trace : Trace) (event : Event) (sound : Sound isn trace)
    (meets : trace.Meets event) :
    ∃ next, trace.step event = .ok next ∧ Sound isn next := by
  cases event with
  | write data => exact ⟨_, rfl, TCPSender.Sound.write sound data⟩
  | close =>
      refine ⟨_, rfl, TCPSender.Sound.moves sound ?_⟩
      exact ⟨⟨rfl, rfl, rfl, rfl, rfl, rfl, fun _ member => member⟩, fun _ member => member⟩
  | push => exact ⟨_, rfl, TCPSender.Sound.push sound meets.1 meets.2⟩
  | receive msg leftover =>
      obtain ⟨next, received, moves⟩ := receive_moves msg leftover meets
      refine ⟨{ trace with sender := next }, ?_, TCPSender.Sound.moves sound moves⟩
      rw [step, received]
  | tick msSinceLastTick =>
      exact ⟨_, rfl, TCPSender.Sound.moves sound (trace.sender.tick_moves msSinceLastTick)⟩

theorem Sound.delivered {isn : Wrap32} (trace : Trace) (sound : Sound isn trace) :
    Delivered isn trace := by
  constructor
  · intro sent member
    apply TCPSender.Sound.fits sound
    simp [messages, member]
  · exact TCPSender.Sound.kept sound

theorem run_delivered (capacity : Nat) (isn : Wrap32) (initialRto : UInt64) (events : List Event)
    (meets : Runs.Permits step Meets (start capacity isn initialRto) events) :
    (∃ last, Runs.run step (start capacity isn initialRto) events = .ok last) ∧
      Runs.Always step (Delivered isn) (start capacity isn initialRto) events := by
  have begins := start_sound capacity isn initialRto
  obtain ⟨last, ran, -⟩ := Runs.run_of_permits step_sound events begins meets
  exact ⟨⟨last, ran⟩, Runs.always_of_permits step_sound Sound.delivered events begins meets⟩

theorem run_delivered_probed :
    Runs.Always step (Delivered ⟨7⟩) (start 100 ⟨7⟩ 50)
      [.write [1, 2, 3], .push, .tick 50, .receive ⟨some ⟨11⟩, 0, false⟩ ⟨0⟩, .write [4, 5], .push,
        .tick 100, .receive ⟨some ⟨12⟩, 20, false⟩ ⟨0⟩, .push, .close, .push] := by
  apply (run_delivered 100 ⟨7⟩ 50 _ _).2
  decide +kernel

theorem push_drops_byte :
    ¬∀ (capacity : Nat) (isn : Wrap32) (initialRto : UInt64) (events : List Event),
      Runs.Always step (Delivered isn) (start capacity isn initialRto) events := by
  intro right
  have always := right 1000 ⟨7⟩ 50 [.write (List.replicate 129 97), .push]
  rw [Runs.always_cons rfl, Runs.always_cons rfl] at always
  obtain ⟨sent, member, position, place, byte, payload_eq, -⟩ :=
    always.2.2.kept 128 (by decide +kernel)
  have only := List.all_eq_true (p := fun sent : Numbered => decide
    (sent.absolute = 0 ∧ sent.message.syn = true ∧ sent.message.payload.length = 128)).mp
    (by decide +kernel) sent member
  obtain ⟨absolute, syn, length⟩ := of_decide_eq_true only
  have inside : position < sent.message.payload.length :=
    (List.getElem?_eq_some_iff.mp payload_eq).1
  rw [absolute, syn, if_pos rfl] at place
  omega

end Trace

end TCPSender

end LearnInternet.Tcp
