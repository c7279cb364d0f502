import LearnInternet.Lib.Tiles
import LearnInternet.Tcp.FlowControl
import LearnInternet.Tcp.Segments

/-!
What a sender holds for another transmission: the messages from the last acknowledgment to the next
sequence number, without a gap. They wait in `window_`, or, while the window of the receiver is
closed, as the probe.
-/

namespace LearnInternet.Tcp

open Spans

namespace TCPSender

structure Waiting (sender : TCPSender) : Prop where
  tiles : ∃ first ≤ sender.lastAckno,
    Tiles first (sender.held.map Numbered.span) sender.nextSeq
  behind : ∀ sent ∈ sender.held, sender.lastAckno < sent.span.stop
  short : ∀ sent ∈ sender.held,
    sent.message.payload.length ≤ min ByteStream.readBytesSize sender.input.capacity
  below : sender.lastAckno ≤ sender.nextSeq

variable {sender next : TCPSender} {isn : Wrap32} {written : Bytes}

theorem held_of_none (none : sender.zeroWindowProbeMsg = []) : sender.held = sender.window := by
  rw [held, none, List.append_nil]

theorem held_messages {sent : Numbered} (member : sent ∈ sender.held) : sent ∈ sender.messages := by
  simp only [held, messages, List.mem_append] at member ⊢
  tauto

theorem Waiting.same (waiting : sender.Waiting)
    (same : next.held = sender.held ∧ next.lastAckno = sender.lastAckno ∧
      next.nextSeq = sender.nextSeq ∧ next.input.capacity = sender.input.capacity) :
    next.Waiting := by
  obtain ⟨held, lastAckno, nextSeq, capacity⟩ := same
  constructor
  · rw [held, lastAckno, nextSeq]
    exact waiting.tiles
  · rw [held, lastAckno]
    exact waiting.behind
  · rw [held, capacity]
    exact waiting.short
  · rw [lastAckno, nextSeq]
    exact waiting.below

theorem Waiting.concat (waiting : sender.Waiting) (sent : Numbered)
    (held : next.held = sender.held ++ [sent]) (lastAckno : next.lastAckno = sender.lastAckno)
    (absolute : sent.absolute = sender.nextSeq) (nextSeq : next.nextSeq = sent.span.stop)
    (capacity : next.input.capacity = sender.input.capacity)
    (some : sent.message.sequenceLength ≠ 0)
    (short : sent.message.payload.length ≤ min ByteStream.readBytesSize sender.input.capacity) :
    next.Waiting := by
  obtain ⟨first, early, tiles⟩ := waiting.tiles
  have below := waiting.below
  have grown := tiles.concat sent.span absolute (Nat.le_add_right _ _)
  have stop : sent.span.stop = sender.nextSeq + sent.message.sequenceLength := by
    rw [← absolute]
    rfl
  constructor
  · refine ⟨first, lastAckno ▸ early, ?_⟩
    rw [held, nextSeq, List.map_append]
    exact grown
  · rw [held, lastAckno]
    intro other member
    rcases List.mem_append.mp member with old | new
    · exact waiting.behind other old
    · obtain rfl := List.mem_singleton.mp new
      omega
  · rw [held, capacity]
    intro other member
    rcases List.mem_append.mp member with old | new
    · exact waiting.short other old
    · obtain rfl := List.mem_singleton.mp new
      exact short
  · rw [lastAckno, nextSeq]
    omega

theorem Waiting.pushSimpleMode (waiting : sender.Waiting) (none : sender.zeroWindowProbeMsg = []) :
    sender.pushSimpleMode.Waiting ∧ sender.pushSimpleMode.zeroWindowProbeMsg = [] := by
  obtain ⟨fin, -, pushed⟩ := sender.pushSimpleMode_eq
  rw [pushed]
  by_cases empty : (sender.segment fin).sequenceLength = 0
  · simp only [launch, if_pos empty]
    exact ⟨waiting.same ⟨rfl, rfl, rfl, rfl⟩, none⟩
  · simp only [launch, if_neg empty]
    have payload : (sender.segment fin).payload.length ≤
        min ByteStream.readBytesSize sender.input.capacity := by
      have fits := sender.input.fits
      simp only [segment, ByteStream.peek_eq_take, List.length_take]
      omega
    refine ⟨waiting.concat ⟨sender.nextSeq, sender.segment fin⟩ ?_ rfl rfl rfl rfl empty payload,
      none⟩
    simp only [held, transmit, filled, none, List.append_nil]

theorem Waiting.pushSimple (waiting : sender.Waiting) (none : sender.zeroWindowProbeMsg = [])
    (order : sender.isFined = true → sender.isSyned = true)
    (lossless : sender.isSyned = false ∨ sender.hasToPush = true → sender.Lossless) :
    sender.pushSimple.Waiting ∧ sender.pushSimple.zeroWindowProbeMsg = [] := by
  apply pushSimple_keeps (motive := fun next => next.Waiting ∧ next.zeroWindowProbeMsg = []) _
    ⟨waiting, none⟩ order lossless
  intro sender waiting _ _
  exact waiting.1.pushSimpleMode waiting.2

theorem Waiting.tick (waiting : sender.Waiting) (msSinceLastTick : UInt64) :
    (sender.tick msSinceLastTick).Waiting := by
  obtain ⟨crt, timer, transmitted, ticked⟩ := sender.tick_eq msSinceLastTick
  rw [ticked]
  exact waiting.same ⟨rfl, rfl, rfl, rfl⟩

theorem Waiting.length_le (waiting : sender.Waiting) {sent : Numbered}
    (member : sent ∈ sender.held) : sent.message.sequenceLength ≤ 130 := by
  have short := waiting.short sent member
  have syn := Bool.toNat_le sent.message.syn
  have fin := Bool.toNat_le sent.message.fin
  rw [ByteStream.readBytesSize] at short
  rw [TCPSenderMessage.sequenceLength]
  omega

theorem Waiting.unwrap_eq (waiting : sender.Waiting) (counted : sender.Counted)
    (sent : sender.Sent isn written) {waits : Numbered} (member : waits ∈ sender.held) :
    waits.message.seqno.unwrap sender.isn sender.lastAckno = waits.absolute := by
  have behind := waiting.behind waits member
  have short := waiting.length_le member
  obtain ⟨first, -, tiles⟩ := waiting.tiles
  have between := tiles.between (List.mem_map_of_mem member)
  have inFlight := counted.seqFNum_eq
  have bound := counted.seqFNum_le
  have below := counted.lastAckno_le
  have fined := Bool.toNat_le sender.isFined
  have syned := Bool.toNat_le sender.isSyned
  have probing := Bool.toNat_le sender.isZeroWindowProbing
  rw [inFlightBound] at bound
  obtain ⟨segment, absolute, message⟩ := sent.cut waits (held_messages member)
  have seqno : waits.message.seqno = Wrap32.wrap waits.absolute isn := by
    rw [message, absolute]
    rfl
  simp only [Numbered.span] at behind between
  rw [seqno, sent.isn_eq]
  apply Wrap32.unwrap_wrap
  · omega
  · omega

theorem Waiting.dropAcknowledged_eq (waiting : sender.Waiting) (counted : sender.Counted)
    (sent : sender.Sent isn written) (ackno : Nat) :
    (sender.dropAcknowledged ackno).map Numbered.span =
      (sender.window.map Numbered.span).dropWhile fun span => decide (span.stop ≤ ackno) := by
  have numbers : ∀ waits ∈ sender.window,
      waits.message.seqno.unwrap sender.isn sender.lastAckno = waits.absolute :=
    fun waits member => waiting.unwrap_eq counted sent (List.mem_append_left _ member)
  rw [dropAcknowledged]
  generalize sender.window = window at numbers
  induction window with
  | nil => rfl
  | cons head rest ih =>
      have here := numbers head (by simp)
      have later := ih fun waits member => numbers waits (by simp [member])
      simp only [List.map_cons, List.dropWhile_cons, here]
      by_cases gone : head.absolute + head.message.sequenceLength ≤ ackno
      · have stops : head.span.stop ≤ ackno := gone
        simp only [gone, stops, decide_true, if_true]
        exact later
      · have stays : ¬head.span.stop ≤ ackno := gone
        simp [gone, stays]

theorem Waiting.takeAckno (waiting : sender.Waiting) (counted : sender.Counted)
    (sent : sender.Sent isn written) (none : sender.zeroWindowProbeMsg = []) {ackno : Nat}
    (larger : sender.Covers ackno → sender.lastAckno < ackno) :
    (sender.takeAckno ackno).Waiting := by
  by_cases covers : sender.Covers ackno
  · rw [takeAckno_of_covers covers]
    have above := larger covers
    obtain ⟨first, early, tiles⟩ := waiting.tiles
    rw [held_of_none none] at tiles
    have dropped := tiles.dropBefore ackno (by omega)
    rw [← waiting.dropAcknowledged_eq counted sent ackno] at dropped
    have left : ∀ waits ∈ sender.dropAcknowledged ackno ++ sender.zeroWindowProbeMsg,
        waits ∈ sender.dropAcknowledged ackno := by
      rw [none, List.append_nil]
      exact fun _ member => member
    refine ⟨?_, ?_, ?_, covers.1⟩
    · simp only [held, none, List.append_nil]
      exact dropped.1
    · intro waits member
      exact dropped.2 waits.span (List.mem_map_of_mem (left waits member))
    · intro waits member
      apply waiting.short waits
      exact List.mem_append_left _ (sender.dropAcknowledged_subset ackno (left waits member))
  · rw [takeAckno_of_stale covers]
    exact waiting

/-- Every number that was used and is not acknowledged is in a message that is held. -/
theorem Waiting.holds (waiting : sender.Waiting) (number : Nat)
    (unacknowledged : sender.lastAckno ≤ number) (used : number < sender.nextSeq) :
    ∃ waits ∈ sender.held, waits.span.first ≤ number ∧ number < waits.span.stop := by
  obtain ⟨first, early, tiles⟩ := waiting.tiles
  have inside : number ∈ covered (sender.held.map Numbered.span) := by
    rw [tiles.covered_eq, Finset.mem_Ico]
    omega
  obtain ⟨span, member, bounds⟩ := mem_covered.mp inside
  obtain ⟨waits, there, rfl⟩ := List.mem_map.mp member
  exact ⟨waits, there, bounds⟩

theorem Waiting.nil_iff (waiting : sender.Waiting) :
    sender.held = [] ↔ sender.lastAckno = sender.nextSeq := by
  obtain ⟨first, early, tiles⟩ := waiting.tiles
  have below := waiting.below
  constructor
  · intro empty
    rw [empty] at tiles
    have same : first = sender.nextSeq := tiles
    omega
  · intro same
    rw [List.eq_nil_iff_forall_not_mem]
    intro waits member
    have behind := waiting.behind waits member
    have between := tiles.between (List.mem_map_of_mem member)
    omega

theorem waiting_of_nothing (none : sender.held = []) (acked : sender.lastAckno = sender.nextSeq) :
    sender.Waiting := by
  refine ⟨⟨sender.lastAckno, Nat.le_refl _, ?_⟩, ?_, ?_, Nat.le_of_eq acked⟩
  · rw [none]
    exact acked
  · simp [none]
  · simp [none]

end TCPSender

end LearnInternet.Tcp
