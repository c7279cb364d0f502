import LearnInternet.Tcp.Acknowledgment
import LearnInternet.Tcp.Closing
import LearnInternet.Tcp.Delivery

/-!
The messages of a `TCPSender` as segments of the stream it has taken so far. The stream grows with
every push; what a `TCPReceiver` knows of it stays right, and after the last segment it grows no
more.
-/

namespace LearnInternet.Tcp

open Spans

/-! A stream that grows. -/

theorem slice_append {stream : Bytes} (more : Bytes) {first stop : Nat}
    (inside : stop ≤ stream.length) : slice (stream ++ more) first stop = slice stream first stop := by
  rw [slice, slice, List.take_append_of_le_length inside]

def Piece.extend {stream : Bytes} (piece : Piece stream) (more : Bytes)
    (ends : piece.isLast = true → more = []) : Piece (stream ++ more) where
  first := piece.first
  stop := piece.stop
  isLast := piece.isLast
  order := piece.order
  inside := by
    rw [List.length_append]
    exact Nat.le_add_right_of_le piece.inside
  closing := by
    intro last
    rw [ends last, List.append_nil]
    exact piece.closing last

def Segment.extend {stream : Bytes} (segment : Segment stream) (more : Bytes)
    (ends : segment.piece.isLast = true → more = []) : Segment (stream ++ more) where
  piece := segment.piece.extend more ends
  syn := segment.syn
  synFirst := segment.synFirst

theorem Segment.extend_message {stream : Bytes} (segment : Segment stream) (more : Bytes)
    (ends : segment.piece.isLast = true → more = []) (isn : Wrap32) :
    (segment.extend more ends).message isn = segment.message isn := by
  have payload : slice (stream ++ more) segment.piece.first segment.piece.stop =
      slice stream segment.piece.first segment.piece.stop := slice_append more segment.piece.inside
  simp only [Segment.message, Segment.extend, Segment.absolute, Piece.extend, Piece.data, payload]
  rfl

theorem Entry.SliceOf.extend {stream : Bytes} {entry : Entry} (slices : entry.SliceOf stream)
    (more : Bytes) : entry.SliceOf (stream ++ more) where
  order := slices.order
  inside := by
    rw [List.length_append]
    exact Nat.le_add_right_of_le slices.inside
  data_eq := by rw [slice_append more slices.inside, slices.data_eq]

theorem Reassembler.Trace.Follows.extend {stream : Bytes} {capacity : Nat}
    {trace : Reassembler.Trace} (follows : trace.Follows stream capacity) (more : Bytes)
    (ends : trace.re.isInit = true → more = []) : trace.Follows (stream ++ more) capacity := by
  have holds := follows.holds
  refine ⟨⟨?_, ?_, holds.bytesPushed_eq, holds.bytesPopped_eq, ?_, holds.size_eq, ?_⟩,
    follows.idle, follows.known_eq, follows.capacity_eq⟩
  · rw [List.length_append]
    exact Nat.le_add_right_of_le holds.waiting_le
  · rw [holds.pushed, List.take_append_of_le_length holds.waiting_le]
  · have stored := holds.stored
    refine ⟨?_, stored.ordered, stored.ahead, stored.within⟩
    intro entry member
    exact (stored.slices entry member).extend more
  · intro known
    rw [ends known, List.append_nil]
    exact holds.end_eq known

theorem TCPReceiver.Trace.Follows.extend {stream : Bytes} {isn : Wrap32} {capacity : Nat}
    {trace : TCPReceiver.Trace} (follows : trace.Follows stream isn capacity) (more : Bytes)
    (ends : trace.receiver.reassembler.isInit = true → more = []) :
    trace.Follows (stream ++ more) isn capacity :=
  ⟨follows.bytes.extend more ends, follows.checkpoint_eq, follows.syn_eq, follows.synBefore_eq,
    follows.zeroPoint_eq, follows.counts, follows.silent, follows.finSeen_of_fins⟩

namespace Numbered

def span (sent : Numbered) : Span :=
  ⟨sent.absolute, sent.absolute + sent.message.sequenceLength⟩

/-- The message is a segment of the stream, whatever its `RST` says. -/
def CutFrom (isn : Wrap32) (stream : Bytes) (sent : Numbered) : Prop :=
  ∃ segment : Segment stream, sent.absolute = segment.absolute ∧
    sent.message = { segment.message isn with rst := sent.message.rst }

theorem CutFrom.extend {isn : Wrap32} {stream : Bytes} {sent : Numbered}
    (cut : sent.CutFrom isn stream) (more : Bytes) (ends : sent.message.fin = true → more = []) :
    sent.CutFrom isn (stream ++ more) := by
  obtain ⟨segment, absolute, message⟩ := cut
  have last : sent.message.fin = segment.piece.isLast := by
    rw [message]
    rfl
  refine ⟨segment.extend more (last ▸ ends), absolute, ?_⟩
  rw [Segment.extend_message]
  exact message

theorem CutFrom.syn_first {isn : Wrap32} {stream : Bytes} {sent : Numbered}
    (cut : sent.CutFrom isn stream) (marked : sent.message.syn = true) : sent.absolute = 0 := by
  obtain ⟨segment, absolute, message⟩ := cut
  have syn : segment.syn = true := by
    rw [message] at marked
    exact marked
  rw [absolute, Segment.absolute, segment.synFirst syn, if_pos syn]

theorem span_of_segment {isn : Wrap32} {stream : Bytes} {sent : Numbered} {segment : Segment stream}
    (absolute : sent.absolute = segment.absolute)
    (message : sent.message = { segment.message isn with rst := sent.message.rst }) :
    sent.span.first + segment.syn.toNat = 1 + segment.piece.first ∧
      sent.span.stop = 1 + segment.piece.stop + segment.piece.isLast.toNat := by
  have order := segment.piece.order
  have length : sent.message.sequenceLength = segment.syn.toNat +
      (segment.piece.stop - segment.piece.first) + segment.piece.isLast.toNat := by
    rw [message, ← segment.piece.length_data]
    rfl
  simp only [span, absolute, Segment.absolute, length]
  cases marked : segment.syn with
  | true =>
      have zero := segment.synFirst marked
      simp only [if_true, Bool.toNat_true]
      omega
  | false =>
      simp only [Bool.false_eq_true, if_false, Bool.toNat_false]
      omega

theorem CutFrom.stop_le {isn : Wrap32} {stream : Bytes} {sent : Numbered}
    (cut : sent.CutFrom isn stream) :
    sent.span.stop ≤ 1 + stream.length + sent.message.fin.toNat := by
  obtain ⟨segment, absolute, message⟩ := cut
  have inside := segment.piece.inside
  have stop := (span_of_segment absolute message).2
  have last : sent.message.fin = segment.piece.isLast := by
    rw [message]
    rfl
  rw [last]
  omega

end Numbered

namespace TCPReceiver

theorem receive_rst (receiver : TCPReceiver) (message : TCPSenderMessage) (rst : Bool) :
    receiver.receive { message with rst } = receiver.receive message := rfl

variable {receiver next : TCPReceiver} {stream popped : Bytes} {isn : Wrap32} {capacity : Nat}
  {heard : Heard}

theorem receive_refused (follows : Trace.Follows stream isn capacity ⟨receiver, popped, heard⟩)
    (segment : Segment stream) (unconnected : (heard.connected || segment.syn) = false)
    (received : receiver.receive (segment.message isn) = .ok next) :
    next = { receiver with
      reassembler := { receiver.reassembler with output := receiver.reassembler.output.setError } } := by
  obtain ⟨heardNone, noSyn⟩ := Bool.or_eq_false_iff.mp unconnected
  have syn := follows.syn_eq
  simp only [heardNone, Bool.false_eq_true, if_false] at syn
  have refused : receiver.receive (segment.message isn) = .ok { receiver with
      reassembler :=
        { receiver.reassembler with output := receiver.reassembler.output.setError } } := by
    simp [receive, checkConnected, initSyn, initSynBefore, Segment.message, noSyn, syn]
  rw [refused] at received
  exact (Except.ok.inj received).symm

theorem receive_closes (follows : Trace.Follows stream isn capacity ⟨receiver, popped, heard⟩)
    (segment : Segment stream) (near : Trace.Near ⟨receiver, popped, heard⟩ (.receive segment))
    (connected : (heard.connected || segment.syn) = true)
    (received : receiver.receive (segment.message isn) = .ok next) :
    next.reassembler.isInit = (receiver.reassembler.isInit || segment.piece.isLast) ∧
      (next.reassembler.output.close = true ↔ receiver.reassembler.output.close = true ∨
        (receiver.reassembler.isInit || segment.piece.isLast) = true ∧
          (segment.piece.data = [] ∧ receiver.reassembler.size = 0 ∨
            Reassembler.Completes stream receiver.reassembler next.reassembler)) := by
  have set : (1 : UInt32) ≠ 0 := by decide
  have index : firstIndex { receiver with zeroPoint := isn, syn := 1, synBefore := 1 }
      (segment.message isn) = segment.piece.first := Trace.firstIndex_eq segment near
  obtain ⟨inserted, result, -⟩ :=
    Reassembler.insert_holds segment.piece follows.bytes.holds follows.bytes.idle
  simp only [receive, follows.connect_eq segment connected, ne_eq, set, not_false_eq_true,
    if_true, deliver, index] at received
  simp only [Segment.message, result] at received
  obtain rfl := Except.ok.inj received
  rw [(Trace.settleFin_same _).reassembler, (Trace.markFin_same _ _).reassembler]
  exact Reassembler.insert_closes segment.piece follows.bytes.holds result

theorem receive_isInit (follows : Trace.Follows stream isn capacity ⟨receiver, popped, heard⟩)
    (segment : Segment stream) (near : Trace.Near ⟨receiver, popped, heard⟩ (.receive segment))
    (received : receiver.receive (segment.message isn) = .ok next)
    (known : next.reassembler.isInit = true) :
    receiver.reassembler.isInit = true ∨ segment.piece.isLast = true := by
  cases connected : heard.connected || segment.syn with
  | false =>
      rw [receive_refused follows segment connected received] at known
      exact .inl known
  | true =>
      rw [(receive_closes follows segment near connected received).1, Bool.or_eq_true] at known
      exact known

end TCPReceiver

namespace TCPSender

/-- Between two calls: what was sent so far is cut from what was taken so far, only a sender that is
done has sent a `FIN`, and what has no `FIN` lies before it. -/
structure Sent (sender : TCPSender) (isn : Wrap32) (written : Bytes) : Prop
    extends Streamed sender isn written where
  cut : ∀ sent ∈ sender.messages,
    sent.CutFrom isn (written.take sender.input.bytesPopped)
  marked : ∀ sent ∈ sender.messages, sent.message.fin = true → sender.isFined = true
  begun : ∀ sent ∈ sender.messages, sender.isSyned = true
  apart : ∀ last ∈ sender.messages, last.message.fin = true →
    ∀ sent ∈ sender.messages, sent.message.fin = false → sent.span.stop ≤ last.span.first

variable {sender next : TCPSender} {sent : Numbered} {isn : Wrap32} {written : Bytes}

theorem Sent.moves (sends : sender.Sent isn written) (moves : sender.Moves next) :
    next.Sent isn written where
  toStreamed := sends.toStreamed.stays moves.toStays
  cut := by
    intro sent member
    rw [moves.bytesPopped]
    exact sends.cut sent (moves.moved sent member)
  marked := by
    intro sent member fin
    rw [moves.isFined]
    exact sends.marked sent (moves.moved sent member) fin
  begun := by
    intro sent member
    rw [moves.isSyned]
    exact sends.begun sent (moves.moved sent member)
  apart := by
    intro last member fin sent sentMember unmarked
    exact sends.apart last (moves.moved last member) fin sent (moves.moved sent sentMember) unmarked

theorem Sent.stop_le (streamed : sender.Sent isn written) (member : sent ∈ sender.messages) :
    sent.span.stop ≤ sender.nextSeq := by
  have stop := (streamed.cut sent member).stop_le
  have nextSeq := streamed.next
  have begun := streamed.begun sent member
  have marked : sent.message.fin.toNat ≤ sender.isFined.toNat := by
    cases fin : sent.message.fin with
    | false => exact Nat.zero_le _
    | true =>
        rw [streamed.marked sent member fin]
  rw [List.length_take, Nat.min_eq_left streamed.bound] at stop
  rw [begun, Bool.toNat_true] at nextSeq
  omega

theorem Sends.taken_eq (sends : sender.Sends sent next) (streamed : sender.Streamed isn written) :
    written.take next.input.bytesPopped =
      written.take sender.input.bytesPopped ++ sent.message.payload := by
  rw [sends.bytesPopped, List.take_add, streamed.stream, sends.buffer, List.take_left]

theorem Sends.begun (sends : sender.Sends sent next) (some : sent.message.sequenceLength ≠ 0) :
    next.isSyned = true := by
  by_contra unsyned
  have unmarked : sent.message.syn = false := by
    rw [Bool.not_eq_true, sends.isSyned, Bool.or_eq_false_iff] at unsyned
    exact unsyned.2
  have empty : sent.message.payload = [] := by
    by_contra filled
    exact unsyned (sends.unclosed filled).2
  have unended : sent.message.fin = false := by
    rw [Bool.eq_false_iff]
    intro fin
    exact unsyned (sends.finOnce fin).2
  simp [TCPSenderMessage.sequenceLength, unmarked, empty, unended] at some

theorem Sends.unfinned (sends : sender.Sends sent next) (streamed : sender.Streamed isn written)
    (some : sent.message.sequenceLength ≠ 0) : sender.isFined = false := by
  by_cases filled : sent.message.payload = []
  · cases fin : sent.message.fin with
    | true => exact (sends.finOnce fin).1
    | false =>
        have marked : sent.message.syn = true := by
          simpa [TCPSenderMessage.sequenceLength, filled, fin] using some
        rw [Bool.eq_false_iff]
        intro fined
        have syned := streamed.order fined
        rw [sends.synOnce marked] at syned
        cases syned
  · exact (sends.unclosed filled).1

theorem Sends.cutFrom (sends : sender.Sends sent next) (streamed : sender.Streamed isn written)
    (some : sent.message.sequenceLength ≠ 0) :
    sent.CutFrom isn (written.take next.input.bytesPopped) := by
  have after := (streamed.sends sends).bound
  have nextSeq := streamed.next
  have popped := sends.bytesPopped
  have length : (written.take next.input.bytesPopped).length = next.input.bytesPopped := by
    rw [List.length_take, Nat.min_eq_left after]
  have unfinned := sends.unfinned streamed some
  have started : sent.message.syn = true → sender.input.bytesPopped = 0 := fun marked =>
    streamed.unsent (sends.synOnce marked)
  let segment : Segment (written.take next.input.bytesPopped) :=
    { piece :=
        { first := sender.input.bytesPopped
          stop := next.input.bytesPopped
          isLast := sent.message.fin
          order := by omega
          inside := by omega
          closing := fun _ => length.symm }
      syn := sent.message.syn
      synFirst := started }
  have absolute : sent.absolute = segment.absolute := by
    rw [sends.absolute, nextSeq, Segment.absolute]
    cases marked : sent.message.syn with
    | true =>
        have before := sends.synOnce marked
        simp [segment, marked, before, unfinned, started marked]
    | false =>
        have syned : sender.isSyned = true := by
          simpa [sends.isSyned, marked] using sends.begun some
        simp [segment, marked, unfinned, syned]
  refine ⟨segment, absolute, ?_⟩
  have payload : sent.message.payload = segment.piece.data := by
    have grown := sends.taken_eq streamed
    have before : (written.take sender.input.bytesPopped).length = sender.input.bytesPopped := by
      rw [List.length_take, Nat.min_eq_left streamed.bound]
    simp only [Piece.data, slice, segment]
    rw [List.take_of_length_le (Nat.le_of_eq length), grown]
    exact (List.drop_left' before).symm
  have seqno : sent.message.seqno = Wrap32.wrap segment.absolute isn := by
    rw [← absolute, sends.absolute, sends.seqno, streamed.isn_eq]
  calc sent.message
      _ = ⟨sent.message.seqno, sent.message.syn, sent.message.payload, sent.message.fin,
          sent.message.rst⟩ := rfl
      _ = { segment.message isn with rst := sent.message.rst } := by
        rw [seqno, payload]
        rfl

theorem Sent.sends (streamed : sender.Sent isn written) (sends : sender.Sends sent next)
    (some : sent.message.sequenceLength ≠ 0) : next.Sent isn written where
  toStreamed := streamed.toStreamed.sends sends
  cut := by
    intro other member
    rcases sends.messages other member with old | rfl
    · rw [sends.taken_eq streamed.toStreamed]
      apply (streamed.cut other old).extend
      intro fin
      by_contra filled
      have unfinned := (sends.unclosed filled).1
      rw [streamed.marked other old fin] at unfinned
      cases unfinned
    · exact sends.cutFrom streamed.toStreamed some
  marked := by
    intro other member fin
    rw [sends.isFined, Bool.or_eq_true]
    rcases sends.messages other member with old | rfl
    · exact .inl (streamed.marked other old fin)
    · exact .inr fin
  begun := fun _ _ => sends.begun some
  apart := by
    have unfinned := sends.unfinned streamed.toStreamed some
    intro last lastMember fin other member unmarked
    rcases sends.messages last lastMember with old | rfl
    · rw [streamed.marked last old fin] at unfinned
      cases unfinned
    · rcases sends.messages other member with earlier | rfl
      · exact Nat.le_trans (streamed.stop_le earlier) (Nat.le_of_eq sends.absolute.symm)
      · rw [unmarked] at fin
        cases fin

structure Grows (sender next : TCPSender) : Prop where
  taken : sender.input.bytesPopped ≤ next.input.bytesPopped
  fined : sender.isFined = true →
    next.isFined = true ∧ next.input.bytesPopped = sender.input.bytesPopped
  syned : sender.isSyned = true → next.isSyned = true
  nextSeq : sender.nextSeq ≤ next.nextSeq
  fresh : ∀ sent ∈ next.messages, sent ∈ sender.messages ∨ sender.nextSeq ≤ sent.span.first

theorem Grows.trans {last : TCPSender} (first : sender.Grows next) (second : next.Grows last) :
    sender.Grows last where
  taken := Nat.le_trans first.taken second.taken
  fined := by
    intro fined
    obtain ⟨stillFined, same⟩ := first.fined fined
    obtain ⟨lastFined, lastSame⟩ := second.fined stillFined
    exact ⟨lastFined, lastSame.trans same⟩
  syned := fun syned => second.syned (first.syned syned)
  nextSeq := Nat.le_trans first.nextSeq second.nextSeq
  fresh := by
    intro sent member
    rcases second.fresh sent member with earlier | later
    · exact first.fresh sent earlier
    · exact .inr (Nat.le_trans first.nextSeq later)

theorem Moves.grows (moves : sender.Moves next) : sender.Grows next where
  taken := Nat.le_of_eq moves.bytesPopped.symm
  fined := fun fined => ⟨moves.isFined.trans fined, moves.bytesPopped⟩
  syned := fun syned => moves.isSyned.trans syned
  nextSeq := Nat.le_of_eq moves.nextSeq.symm
  fresh := fun sent member => .inl (moves.moved sent member)

theorem Sends.grows (sends : sender.Sends sent next) : sender.Grows next where
  taken := by
    rw [sends.bytesPopped]
    exact Nat.le_add_right _ _
  fined := by
    intro fined
    have empty : sent.message.payload = [] := by
      by_contra filled
      have unfinned := (sends.unclosed filled).1
      rw [fined] at unfinned
      cases unfinned
    refine ⟨?_, ?_⟩
    · rw [sends.isFined, fined, Bool.true_or]
    · rw [sends.bytesPopped, empty, List.length_nil, Nat.add_zero]
  syned := by
    intro syned
    rw [sends.isSyned, syned, Bool.true_or]
  nextSeq := by
    rw [sends.nextSeq]
    exact Nat.le_add_right _ _
  fresh := by
    intro other member
    rcases sends.messages other member with old | rfl
    · exact .inl old
    · exact .inr (Nat.le_of_eq sends.absolute.symm)

structure Continues (sender : TCPSender) (isn : Wrap32) (written : Bytes) (later : TCPSender) : Prop
    extends Sent later isn written where
  grows : sender.Grows later

theorem Continues.moves (streamed : sender.Sent isn written) (moves : sender.Moves next) :
    sender.Continues isn written next :=
  ⟨streamed.moves moves, moves.grows⟩

theorem Continues.sends (streamed : sender.Sent isn written) (sends : sender.Sends sent next)
    (some : sent.message.sequenceLength ≠ 0) : sender.Continues isn written next :=
  ⟨streamed.sends sends some, sends.grows⟩

theorem Sent.pushSimpleMode (streamed : sender.Sent isn written) (lossless : sender.Lossless)
    (unfinned : sender.isFined = false) :
    sender.Continues isn written sender.pushSimpleMode := by
  obtain ⟨fin, ends, pushed⟩ := sender.pushSimpleMode_eq
  rw [pushed]
  by_cases none : (sender.segment fin).sequenceLength = 0
  · simp only [launch, if_pos none]
    exact .moves streamed ⟨filled_stays none lossless, fun _ member => member⟩
  · exact .sends streamed (launch_sends ends none lossless unfinned) none

theorem Sent.pushSimple (streamed : sender.Sent isn written)
    (lossless : sender.isSyned = false ∨ sender.hasToPush = true → sender.Lossless) :
    sender.Continues isn written sender.pushSimple := by
  apply pushSimple_keeps (motive := sender.Continues isn written) _ _ streamed.order lossless
  · intro between continues whole unfinned
    have pushed := continues.toSent.pushSimpleMode whole unfinned
    exact ⟨pushed.toSent, continues.grows.trans pushed.grows⟩
  · exact .moves streamed (Moves.refl sender)

theorem Sent.pushZwpMode (streamed : sender.Sent isn written) (window : sender.window = [])
    (unclosed : sender.isFined = true → sender.input.bytesBuffered = 0) :
    sender.Continues isn written sender.pushZwpMode := by
  rcases pushZwpMode_of_nil window with stays | ⟨syn, count, fin, cuts, probed⟩
  · rw [stays]
    exact .moves streamed (Moves.refl sender)
  · rw [probed]
    apply Continues.sends streamed (probe_sends cuts unclosed)
    rw [cuts.one]
    decide

theorem Sent.push (streamed : sender.Sent isn written)
    (simple : sender.zeroWindowProbe = false →
      sender.isSyned = false ∨ sender.hasToPush = true → sender.Lossless)
    (probing : sender.zeroWindowProbe = true ∧ sender.isZeroWindowProbing = false →
      sender.window = [] ∧ (sender.isFined = true → sender.input.bytesBuffered = 0)) :
    sender.Continues isn written sender.push := by
  simp only [TCPSender.push]
  split
  · rename_i probes
    exact streamed.pushZwpMode (probing probes).1 (probing probes).2
  · split
    · rename_i usual
      exact streamed.pushSimple (simple usual)
    · exact .moves streamed (Moves.refl sender)

theorem Sent.write (streamed : sender.Sent isn written) (data : Bytes) :
    { sender with input := sender.input.push data }.Sent isn
      (written ++ data.take sender.input.availableCapacity) where
  toStreamed := streamed.toStreamed.write data
  cut := by
    rw [ByteStream.push_bytesPopped, List.take_append_of_le_length streamed.bound]
    exact streamed.cut
  marked := streamed.marked
  begun := streamed.begun
  apart := streamed.apart

namespace Trace

/-- The steps that cut every message from the stream: nothing is popped unseen, and a probe is taken
from the stream and not from a message that waits in the window. -/
def Whole (trace : Trace) : Event → Prop
  | .push =>
      (trace.sender.zeroWindowProbe = false →
        trace.sender.isSyned = false ∨ trace.sender.hasToPush = true → trace.sender.Lossless) ∧
      (trace.sender.zeroWindowProbe = true ∧ trace.sender.isZeroWindowProbing = false →
        trace.sender.window = [] ∧
          (trace.sender.isFined = true → trace.sender.input.bytesBuffered = 0))
  | .receive _ _ =>
      trace.sender.zeroWindowProbe = true → trace.sender.zeroWindowProbeMsg ≠ []
  | _ => True

instance (trace : Trace) (event : Event) : Decidable (trace.Whole event) :=
  match event with
  | .write _ => .isTrue trivial
  | .close => .isTrue trivial
  | .push => inferInstanceAs (Decidable (_ ∧ _))
  | .receive _ _ => inferInstanceAs (Decidable (_ → _))
  | .tick _ => .isTrue trivial

theorem start_sent (capacity : Nat) (isn : Wrap32) (initialRto : UInt64) :
    (start capacity isn initialRto).sender.Sent isn [] where
  toStreamed := (start_sound capacity isn initialRto).streamed
  cut := by
    intro sent member
    cases member
  marked := by
    intro sent member
    cases member
  begun := by
    intro sent member
    cases member
  apart := by
    intro last member
    cases member

theorem step_sent (trace : Trace) (event : Event) (streamed : trace.sender.Sent isn trace.written)
    (whole : trace.Whole event) :
    ∃ next, trace.step event = .ok next ∧ next.sender.Sent isn next.written ∧
      trace.written <+: next.written ∧ trace.sender.Grows next.sender := by
  have quiet (next : TCPSender) (moves : trace.sender.Moves next) :
      next.Sent isn trace.written ∧ trace.written <+: trace.written ∧ trace.sender.Grows next :=
    ⟨streamed.moves moves, List.prefix_refl _, moves.grows⟩
  cases event with
  | write data =>
      have same := ByteStream.push_bytesPopped trace.sender.input data
      exact ⟨_, rfl, streamed.write data, List.prefix_append _ _, Nat.le_of_eq same.symm,
        fun fined => ⟨fined, same⟩, id, Nat.le_refl _, fun _ member => .inl member⟩
  | close =>
      refine ⟨_, rfl, quiet _ ?_⟩
      exact ⟨⟨rfl, rfl, rfl, rfl, rfl, rfl, fun _ member => member⟩, fun _ member => member⟩
  | push =>
      have pushed := streamed.push whole.1 whole.2
      exact ⟨_, rfl, pushed.toSent, List.prefix_refl _, pushed.grows⟩
  | receive msg leftover =>
      obtain ⟨next, received, moves⟩ := receive_moves msg leftover whole
      refine ⟨{ trace with sender := next }, ?_, quiet next moves⟩
      rw [step, received]
  | tick msSinceLastTick =>
      exact ⟨_, rfl, quiet _ (trace.sender.tick_moves msSinceLastTick)⟩

end Trace

end TCPSender

end LearnInternet.Tcp
