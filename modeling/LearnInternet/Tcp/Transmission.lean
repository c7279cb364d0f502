import LearnInternet.Tcp.Sender

/-!
Which byte of the stream a `TCPSender` puts at which sequence number, over any interleaving of
writes, pushes, ticks and segments from the receiver.
-/

namespace LearnInternet.Tcp

namespace Numbered

/-- Byte `position` of the payload is byte `index` of the stream and has its sequence number. -/
def Places (sent : Numbered) (written : Bytes) (position index : Nat) : Prop :=
  index + (if sent.message.syn then 0 else 1) = sent.absolute + position ∧
    ∃ byte, sent.message.payload[position]? = some byte ∧ written[index]? = some byte

structure Fits (sent : Numbered) (isn : Wrap32) (written : Bytes) : Prop where
  seqno : sent.message.seqno = Wrap32.wrap sent.absolute isn
  placed : ∀ position < sent.message.payload.length, ∃ index, sent.Places written position index

theorem Places.write {sent : Numbered} {written : Bytes} {position index : Nat}
    (places : sent.Places written position index) (data : Bytes) :
    sent.Places (written ++ data) position index := by
  obtain ⟨position_eq, byte, payload_eq, written_eq⟩ := places
  have bound : index < written.length := (List.getElem?_eq_some_iff.mp written_eq).1
  refine ⟨position_eq, byte, payload_eq, ?_⟩
  rw [List.getElem?_append_left bound]
  exact written_eq

theorem Fits.write {sent : Numbered} {isn : Wrap32} {written : Bytes}
    (fits : sent.Fits isn written) (data : Bytes) : sent.Fits isn (written ++ data) := by
  refine ⟨fits.seqno, ?_⟩
  intro position bound
  obtain ⟨index, places⟩ := fits.placed position bound
  exact ⟨index, places.write data⟩

theorem fits_of_payload_eq_nil {sent : Numbered} {isn : Wrap32} (written : Bytes)
    (seqno : sent.message.seqno = Wrap32.wrap sent.absolute isn)
    (empty : sent.message.payload = []) : sent.Fits isn written := by
  refine ⟨seqno, ?_⟩
  intro position bound
  simp [empty] at bound

end Numbered

namespace TCPSender

def messages (sender : TCPSender) : List Numbered :=
  sender.transmitted ++ sender.window ++ sender.zeroWindowProbeMsg

structure Sound (sender : TCPSender) (isn : Wrap32) (written : Bytes) : Prop where
  isn_eq : sender.isn = isn
  bound : sender.input.bytesPopped ≤ written.length
  stream : written.drop sender.input.bytesPopped = sender.input.buffer
  next : sender.nextSeq = sender.isSyned.toNat + sender.input.bytesPopped + sender.isFined.toNat
  order : sender.isFined = true → sender.isSyned = true
  unsent : sender.isSyned = false → sender.input.bytesPopped = 0
  fits : ∀ sent ∈ sender.messages, sent.Fits isn written
  kept : ∀ index < sender.input.bytesPopped,
    ∃ sent ∈ sender.transmitted, ∃ position, sent.Places written position index

/-- The part of it that is about the stream alone, whatever the messages hold. -/
structure Streamed (sender : TCPSender) (isn : Wrap32) (written : Bytes) : Prop where
  isn_eq : sender.isn = isn
  bound : sender.input.bytesPopped ≤ written.length
  stream : written.drop sender.input.bytesPopped = sender.input.buffer
  next : sender.nextSeq = sender.isSyned.toNat + sender.input.bytesPopped + sender.isFined.toNat
  order : sender.isFined = true → sender.isSyned = true
  unsent : sender.isSyned = false → sender.input.bytesPopped = 0

theorem Sound.streamed {sender : TCPSender} {isn : Wrap32} {written : Bytes}
    (sound : sender.Sound isn written) : sender.Streamed isn written :=
  ⟨sound.isn_eq, sound.bound, sound.stream, sound.next, sound.order, sound.unsent⟩

structure Stays (sender next : TCPSender) : Prop where
  isn : next.isn = sender.isn
  buffer : next.input.buffer = sender.input.buffer
  bytesPopped : next.input.bytesPopped = sender.input.bytesPopped
  nextSeq : next.nextSeq = sender.nextSeq
  isSyned : next.isSyned = sender.isSyned
  isFined : next.isFined = sender.isFined
  transmitted : ∀ sent ∈ sender.transmitted, sent ∈ next.transmitted

structure Moves (sender next : TCPSender) : Prop extends Stays sender next where
  moved : ∀ sent ∈ next.messages, sent ∈ sender.messages

structure Sends (sender : TCPSender) (sent : Numbered) (next : TCPSender) : Prop where
  isn : next.isn = sender.isn
  absolute : sent.absolute = sender.nextSeq
  seqno : sent.message.seqno = Wrap32.wrap sender.nextSeq sender.isn
  buffer : sender.input.buffer = sent.message.payload ++ next.input.buffer
  bytesPopped : next.input.bytesPopped = sender.input.bytesPopped + sent.message.payload.length
  nextSeq : next.nextSeq = sender.nextSeq + sent.message.sequenceLength
  isSyned : next.isSyned = (sender.isSyned || sent.message.syn)
  isFined : next.isFined = (sender.isFined || sent.message.fin)
  synOnce : sent.message.syn = true → sender.isSyned = false
  finOnce : sent.message.fin = true → sender.isFined = false ∧ next.isSyned = true
  unclosed : sent.message.payload ≠ [] → sender.isFined = false ∧ next.isSyned = true
  transmitted : next.transmitted = sender.transmitted ++ [sent]
  messages : ∀ other ∈ next.messages, other ∈ sender.messages ∨ other = sent

theorem Streamed.stays {sender next : TCPSender} {isn : Wrap32} {written : Bytes}
    (streamed : sender.Streamed isn written) (stays : sender.Stays next) :
    next.Streamed isn written where
  isn_eq := by rw [stays.isn, streamed.isn_eq]
  bound := by rw [stays.bytesPopped]; exact streamed.bound
  stream := by rw [stays.bytesPopped, stays.buffer]; exact streamed.stream
  next := by
    rw [stays.nextSeq, stays.isSyned, stays.bytesPopped, stays.isFined]
    exact streamed.next
  order := by rw [stays.isFined, stays.isSyned]; exact streamed.order
  unsent := by rw [stays.isSyned, stays.bytesPopped]; exact streamed.unsent

theorem Streamed.sound {sender : TCPSender} {isn : Wrap32} {written : Bytes}
    (streamed : sender.Streamed isn written)
    (fits : ∀ sent ∈ sender.messages, sent.Fits isn written)
    (kept : ∀ index < sender.input.bytesPopped,
      ∃ sent ∈ sender.transmitted, ∃ position, sent.Places written position index) :
    sender.Sound isn written :=
  ⟨streamed.isn_eq, streamed.bound, streamed.stream, streamed.next, streamed.order,
    streamed.unsent, fits, kept⟩

theorem Sound.stays {sender next : TCPSender} {isn : Wrap32} {written : Bytes}
    (sound : sender.Sound isn written) (stays : sender.Stays next)
    (fits : ∀ sent ∈ next.messages, sent.Fits isn written) : next.Sound isn written := by
  apply (sound.streamed.stays stays).sound fits
  intro index bound
  rw [stays.bytesPopped] at bound
  obtain ⟨sent, member, places⟩ := sound.kept index bound
  exact ⟨sent, stays.transmitted sent member, places⟩

theorem Sound.moves {sender next : TCPSender} {isn : Wrap32} {written : Bytes}
    (sound : sender.Sound isn written) (moves : sender.Moves next) : next.Sound isn written := by
  apply sound.stays moves.toStays
  intro sent member
  exact sound.fits sent (moves.moved sent member)

theorem Moves.refl (sender : TCPSender) : sender.Moves sender :=
  ⟨⟨rfl, rfl, rfl, rfl, rfl, rfl, fun _ member => member⟩, fun _ member => member⟩

theorem Moves.trans {sender next last : TCPSender} (first : sender.Moves next)
    (second : next.Moves last) : sender.Moves last := by
  constructor
  · constructor
    · rw [second.isn, first.isn]
    · rw [second.buffer, first.buffer]
    · rw [second.bytesPopped, first.bytesPopped]
    · rw [second.nextSeq, first.nextSeq]
    · rw [second.isSyned, first.isSyned]
    · rw [second.isFined, first.isFined]
    · intro sent member
      exact second.transmitted sent (first.transmitted sent member)
  · intro sent member
    exact first.moved sent (second.moved sent member)

section Sends

variable {sender next : TCPSender} {sent : Numbered} {isn : Wrap32} {written : Bytes}

theorem Sends.places (sends : sender.Sends sent next) (streamed : sender.Streamed isn written)
    {position : Nat} (bound : position < sent.message.payload.length) :
    sent.Places written position (sender.input.bytesPopped + position) := by
  have filled : sent.message.payload ≠ [] := by
    intro empty
    simp [empty] at bound
  obtain ⟨unfinned, syned⟩ := sends.unclosed filled
  have nextSeq := streamed.next
  constructor
  · rw [sends.absolute]
    cases marked : sent.message.syn with
    | false =>
        have before : sender.isSyned = true := by simpa [sends.isSyned, marked] using syned
        simp only [before, unfinned, Bool.toNat_true, Bool.toNat_false] at nextSeq
        simp only [Bool.false_eq_true, if_false]
        omega
    | true =>
        have before := sends.synOnce marked
        simp only [before, unfinned, Bool.toNat_false] at nextSeq
        simp only [if_true]
        omega
  · refine ⟨sent.message.payload[position], List.getElem?_eq_getElem bound, ?_⟩
    rw [← List.getElem?_drop, streamed.stream, sends.buffer, List.getElem?_append_left bound]
    exact List.getElem?_eq_getElem bound

theorem Sends.fits (sends : sender.Sends sent next) (sound : sender.Sound isn written) :
    sent.Fits isn written := by
  constructor
  · rw [sends.seqno, sends.absolute, sound.isn_eq]
  · intro position bound
    exact ⟨_, sends.places sound.streamed bound⟩

theorem Streamed.sends (streamed : sender.Streamed isn written)
    (sends : sender.Sends sent next) : next.Streamed isn written := by
  have length : written.length - sender.input.bytesPopped =
      sent.message.payload.length + next.input.buffer.length := by
    rw [← List.length_drop, streamed.stream, sends.buffer, List.length_append]
  have bound := streamed.bound
  constructor
  · rw [sends.isn, streamed.isn_eq]
  · rw [sends.bytesPopped]
    omega
  · rw [sends.bytesPopped, ← List.drop_drop, streamed.stream, sends.buffer, List.drop_left]
  · rw [sends.nextSeq, streamed.next, sends.isSyned, sends.isFined, sends.bytesPopped,
      TCPSenderMessage.sequenceLength]
    have synOnce := sends.synOnce
    have finOnce := sends.finOnce
    cases marked : sent.message.syn <;> cases closed : sent.message.fin <;>
      simp_all <;> omega
  · intro fined
    rw [sends.isFined, Bool.or_eq_true] at fined
    cases fined with
    | inl before => rw [sends.isSyned, streamed.order before, Bool.true_or]
    | inr now => exact (sends.finOnce now).2
  · intro unsyned
    have empty : sent.message.payload = [] := by
      by_contra filled
      simp [(sends.unclosed filled).2] at unsyned
    have before : sender.isSyned = false := by
      rw [sends.isSyned, Bool.or_eq_false_iff] at unsyned
      exact unsyned.1
    rw [sends.bytesPopped, streamed.unsent before, empty, List.length_nil]

theorem Sound.sends (sound : sender.Sound isn written) (sends : sender.Sends sent next) :
    next.Sound isn written := by
  apply (sound.streamed.sends sends).sound
  · intro other member
    cases sends.messages other member with
    | inl old => exact sound.fits other old
    | inr new => exact new ▸ sends.fits sound
  · intro index below
    rw [sends.transmitted]
    by_cases old : index < sender.input.bytesPopped
    · obtain ⟨earlier, member, places⟩ := sound.kept index old
      exact ⟨earlier, List.mem_append_left _ member, places⟩
    · rw [sends.bytesPopped] at below
      refine ⟨sent, by simp, index - sender.input.bytesPopped, ?_⟩
      have inside : index - sender.input.bytesPopped < sent.message.payload.length := by omega
      have places := sends.places sound.streamed inside
      rwa [Nat.add_sub_cancel' (Nat.le_of_not_lt old)] at places

end Sends

end TCPSender

end LearnInternet.Tcp
