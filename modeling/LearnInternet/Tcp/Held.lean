import LearnInternet.Tcp.Accounting
import LearnInternet.Tcp.Flow

/-!
What is not acknowledged is still held: each sequence number up to `next_seq_` is carried by a
message of `window_` or `zero_window_probe_msg_`, so that a timeout can send it again.
-/

namespace LearnInternet.Tcp

/-- The message has the stream's byte of sequence number `n` there, or the `SYN` or the `FIN`. -/
structure Numbered.Carries (sent : Numbered) (sender : TCPSender) (written : Bytes) (n : Nat) :
    Prop where
  seqno : sent.message.seqno = Wrap32.wrap sent.absolute sender.isn
  content :
    (sent.message.syn = true ∧ sent.absolute = 0 ∧ n = 0) ∨
      (∃ position index, n = index + 1 ∧ sent.Places written position index) ∨
      (sent.message.fin = true ∧ sender.isFined = true ∧ n = sender.input.bytesPopped + 1 ∧
        n = sent.absolute + sent.message.syn.toNat + sent.message.payload.length)

namespace TCPSender

def held (sender : TCPSender) : List Numbered := sender.window ++ sender.zeroWindowProbeMsg

def Remembers (sender : TCPSender) (written : Bytes) (acked : Nat) : Prop :=
  ∀ n, acked ≤ n → n < sender.nextSeq → ∃ sent ∈ sender.held, sent.Carries sender written n

structure Retains (sender : TCPSender) (isn : Wrap32) (written : Bytes) (acked : Nat) : Prop
    extends Streamed sender isn written where
  remembers : sender.Remembers written acked

variable {sender next : TCPSender} {sent : Numbered} {isn : Wrap32} {written : Bytes}
  {acked later n : Nat}

theorem carries_range (carries : sent.Carries sender written n) :
    sent.absolute ≤ n ∧ n < sent.absolute + sent.message.sequenceLength := by
  rw [TCPSenderMessage.sequenceLength]
  rcases carries.content with ⟨syn, absolute, rfl⟩ | ⟨position, index, rfl, places⟩ | fin
  · rw [syn, absolute, Bool.toNat_true]
    omega
  · obtain ⟨place, byte, payload, -⟩ := places
    have inside : position < sent.message.payload.length :=
      (List.getElem?_eq_some_iff.mp payload).1
    cases syn : sent.message.syn with
    | false =>
        simp only [syn, Bool.false_eq_true, if_false] at place
        omega
    | true =>
        simp only [syn, if_true] at place
        rw [Bool.toNat_true]
        omega
  · obtain ⟨marked, -, -, last⟩ := fin
    rw [marked, Bool.toNat_true]
    omega

theorem carries_stays (carries : sent.Carries sender written n) (stays : sender.Stays next) :
    sent.Carries next written n := by
  refine ⟨by rw [stays.isn]; exact carries.seqno, ?_⟩
  rw [stays.isFined, stays.bytesPopped]
  exact carries.content

theorem Retains.stays (retains : sender.Retains isn written acked) (stays : sender.Stays next)
    (higher : acked ≤ later)
    (drops : ∀ sent ∈ sender.held, sent ∉ next.held →
      sent.message.seqno = Wrap32.wrap sent.absolute sender.isn →
      sent.absolute + sent.message.sequenceLength ≤ later ∨ sender.nextSeq ≤ sent.absolute) :
    next.Retains isn written later := by
  refine ⟨retains.toStreamed.stays stays, ?_⟩
  intro n above below
  rw [stays.nextSeq] at below
  obtain ⟨sent, member, carries⟩ := retains.remembers n (Nat.le_trans higher above) below
  obtain ⟨first, last⟩ := carries_range carries
  by_cases still : sent ∈ next.held
  · exact ⟨sent, still, carries_stays carries stays⟩
  · rcases drops sent member still carries.seqno with old | unsent
    · omega
    · omega

/-! A fresh message carries all of its sequence numbers. -/

structure Stores (sender : TCPSender) (sent : Numbered) (next : TCPSender) : Prop
    extends Sends sender sent next where
  keeps : ∀ other ∈ sender.held, other ∈ next.held
  stored : sent ∈ next.held

theorem Streamed.fresh (streamed : sender.Streamed isn written) (unsyned : sender.isSyned = false) :
    sender.nextSeq = 0 := by
  have unfinned : sender.isFined = false := by
    rw [Bool.eq_false_iff]
    intro fined
    rw [streamed.order fined] at unsyned
    cases unsyned
  rw [streamed.next, streamed.unsent unsyned, unsyned, unfinned]
  rfl

theorem Stores.carries (stores : sender.Stores sent next) (streamed : sender.Streamed isn written)
    (above : sender.nextSeq ≤ n) (below : n < next.nextSeq) : sent.Carries next written n := by
  have absolute := stores.absolute
  have length := stores.nextSeq
  rw [TCPSenderMessage.sequenceLength] at length
  refine ⟨by rw [stores.isn, stores.absolute]; exact stores.seqno, ?_⟩
  by_cases first : n < sender.nextSeq + sent.message.syn.toNat
  · left
    have marked : sent.message.syn = true := by
      rw [← Bool.toNat_eq_one]
      have bit := Bool.toNat_le sent.message.syn
      omega
    have zero := streamed.fresh (stores.synOnce marked)
    rw [marked, Bool.toNat_true] at first
    exact ⟨marked, by omega, by omega⟩
  · right
    by_cases inside : n < sender.nextSeq + sent.message.syn.toNat + sent.message.payload.length
    · left
      have position : n - sender.nextSeq - sent.message.syn.toNat <
          sent.message.payload.length := by omega
      have places := stores.toSends.places streamed position
      refine ⟨_, _, ?_, places⟩
      have place := places.1
      cases marked : sent.message.syn with
      | false =>
          simp only [marked, Bool.false_eq_true, if_false, Bool.toNat_false] at place first ⊢
          omega
      | true =>
          simp only [marked, if_true, Bool.toNat_true] at place first ⊢
          omega
    · right
      have marked : sent.message.fin = true := by
        rw [← Bool.toNat_eq_one]
        have bit := Bool.toNat_le sent.message.fin
        omega
      have fined : next.isFined = true := by rw [stores.isFined, marked, Bool.or_true]
      have last := (streamed.sends stores.toSends).next
      rw [(stores.finOnce marked).2, fined, Bool.toNat_true] at last
      rw [marked, Bool.toNat_true] at length
      exact ⟨marked, fined, by omega, by omega⟩

theorem carries_sends (carries : sent.Carries sender written n) {fresh : Numbered}
    (sends : sender.Sends fresh next) : sent.Carries next written n := by
  refine ⟨by rw [sends.isn]; exact carries.seqno, ?_⟩
  rcases carries.content with syn | placed | ⟨marked, fined, last, place⟩
  · exact .inl syn
  · exact .inr (.inl placed)
  · right
    right
    have empty : fresh.message.payload = [] := by
      by_contra filled
      rw [(sends.unclosed filled).1] at fined
      cases fined
    rw [sends.isFined, fined, sends.bytesPopped, empty]
    exact ⟨marked, rfl, last, place⟩

theorem Retains.stores (retains : sender.Retains isn written acked)
    (stores : sender.Stores sent next) : next.Retains isn written acked := by
  refine ⟨retains.toStreamed.sends stores.toSends, ?_⟩
  intro n above below
  by_cases old : n < sender.nextSeq
  · obtain ⟨earlier, member, carries⟩ := retains.remembers n above old
    exact ⟨earlier, stores.keeps earlier member, carries_sends carries stores.toSends⟩
  · exact ⟨sent, stores.stored, stores.carries retains.toStreamed (Nat.le_of_not_lt old) below⟩

/-! What `push` sends is stored. -/

theorem launch_stores {fin : Bool} (ends : fin = true → sender.Ends)
    (some : (sender.segment fin).sequenceLength ≠ 0) (lossless : sender.Lossless)
    (unfinned : sender.isFined = false) :
    sender.Stores ⟨sender.nextSeq, sender.segment fin⟩
      ((sender.filled fin).launch (sender.segment fin)) := by
  have sends := launch_sends ends some lossless unfinned
  simp only [launch, if_neg some] at sends ⊢
  refine ⟨sends, ?_, ?_⟩
  · intro other member
    simp only [held, transmit, filled, List.mem_append, List.mem_singleton] at member ⊢
    tauto
  · simp [held, transmit, filled]

theorem Retains.pushSimpleMode (retains : sender.Retains isn written acked)
    (lossless : sender.Lossless) (unfinned : sender.isFined = false) :
    sender.pushSimpleMode.Retains isn written acked := by
  obtain ⟨fin, ends, pushed⟩ := sender.pushSimpleMode_eq
  rw [pushed]
  by_cases none : (sender.segment fin).sequenceLength = 0
  · simp only [launch, if_pos none]
    apply retains.stays (filled_stays none lossless) (Nat.le_refl _)
    intro sent member gone
    exact absurd member gone
  · exact retains.stores (launch_stores ends none lossless unfinned)

theorem Retains.pushSimple (retains : sender.Retains isn written acked)
    (lossless : sender.isSyned = false ∨ sender.hasToPush = true → sender.Lossless) :
    sender.pushSimple.Retains isn written acked := by
  apply pushSimple_keeps (motive := fun sender => sender.Retains isn written acked) _ retains
    retains.order lossless
  intro sender retains whole unfinned
  exact retains.pushSimpleMode whole unfinned

theorem probe_stores {syn fin : Bool} {count : Nat} (cuts : sender.Cuts syn count fin)
    (unclosed : sender.isFined = true → sender.input.bytesBuffered = 0) :
    sender.Stores ⟨sender.nextSeq, sender.cutMessage syn count fin⟩
      ({ sender.cutSender syn count fin with
          nextSeq := sender.nextSeq + 1, seqFNum := sender.seqFNum + 1 }.probe
        ⟨sender.nextSeq, sender.cutMessage syn count fin⟩) := by
  refine ⟨probe_sends cuts unclosed, ?_, ?_⟩
  · intro other member
    simp only [held, probe, transmit, cutSender, List.mem_append, List.mem_singleton] at member ⊢
    tauto
  · simp [held, probe]

def KeepsFirst (sender : TCPSender) (acked : Nat) : Prop :=
  ∀ first ∈ sender.window.head?,
    (first.message.syn = false ∧ first.message.payload.length = 1) ∨
      first.absolute + first.message.sequenceLength ≤ acked

instance (sender : TCPSender) (acked : Nat) : Decidable (sender.KeepsFirst acked) :=
  inferInstanceAs (Decidable (∀ first ∈ sender.window.head?, _))

theorem cutFirst_whole {message first : TCPSenderMessage} (unsyned : first.syn = false)
    (one : first.payload.length = 1) : (cutFirst message first).2 = first := by
  have all : first.payload.take 1 = first.payload :=
    List.take_of_length_le (Nat.le_of_eq one)
  have some : first.payload.length ≠ 0 := by omega
  rw [cutFirst, if_neg (by simp [unsyned]), if_pos some, all]

theorem gone_of_windowCut {message : TCPSenderMessage} {window : List Numbered}
    (first : ∀ first ∈ window.head?,
      (first.message.syn = false ∧ first.message.payload.length = 1) ∨
        first.absolute + first.message.sequenceLength ≤ acked)
    (member : sent ∈ window) (gone : sent ∉ windowCut message window) :
    sent.absolute + sent.message.sequenceLength ≤ acked := by
  cases window with
  | nil => cases member
  | cons head rest =>
      simp only [windowCut] at gone
      have later : sent ∉ rest := by
        intro stays
        apply gone
        split
        · exact stays
        · exact List.mem_cons_of_mem _ stays
      have same : sent = head := by
        cases List.mem_cons.mp member with
        | inl same => exact same
        | inr stays => exact absurd stays later
      subst same
      rcases first sent rfl with ⟨unsyned, one⟩ | old
      · have some : sent.message.sequenceLength ≠ 0 := by
          rw [TCPSenderMessage.sequenceLength, one]
          omega
        rw [cutFirst_whole unsyned one, if_neg some] at gone
        exact absurd List.mem_cons_self gone
      · exact old

theorem Retains.pushZwpMode (retains : sender.Retains isn written acked)
    (first : sender.KeepsFirst acked)
    (unclosed : sender.window = [] → sender.isFined = true → sender.input.bytesBuffered = 0) :
    sender.pushZwpMode.Retains isn written acked := by
  cases window : sender.window with
  | cons head rest =>
      rw [pushZwpMode_of_cons window]
      apply retains.stays
      · exact ⟨rfl, rfl, rfl, rfl, rfl, rfl, fun _ member => List.mem_append_left _ member⟩
      · exact Nat.le_refl _
      · intro sent member gone _
        left
        have wasWindow : sent ∈ sender.window := by
          cases List.mem_append.mp member with
          | inl inWindow => exact inWindow
          | inr probing =>
              exact absurd (List.mem_append_right _ (List.mem_append_left _ probing)) gone
        apply gone_of_windowCut first wasWindow
        intro stays
        exact gone (List.mem_append_left _ stays)
  | nil =>
      rcases pushZwpMode_of_nil window with stays | ⟨syn, count, fin, cuts, probed⟩
      · rw [stays]
        exact retains
      · rw [probed]
        exact retains.stores (probe_stores cuts (unclosed window))

/-! What a segment from the receiver lets go. -/

def Near (sender : TCPSender) : Prop :=
  ∀ sent ∈ sender.window,
    sent.absolute < sender.lastAckno + 2 ^ 31 ∧ sender.lastAckno ≤ sent.absolute + 2 ^ 31

instance (sender : TCPSender) : Decidable sender.Near :=
  inferInstanceAs (Decidable (∀ sent ∈ sender.window, _))

theorem takeAckno_held (sender : TCPSender) (ackno : Nat) :
    (sender.takeAckno ackno).held = sender.held ∨
      ackno ≤ sender.nextSeq ∧
        (sender.takeAckno ackno).held =
          sender.dropAcknowledged ackno ++ sender.zeroWindowProbeMsg := by
  simp only [takeAckno]
  split
  · exact .inl rfl
  · rename_i sent
    split
    · exact .inr ⟨Nat.not_lt.mp sent, rfl⟩
    · exact .inl rfl

theorem hear_held (sender : TCPSender) (msg : TCPReceiverMessage) (ackno : Nat) :
    ((sender.hear msg).takeAckno ackno).held = sender.held ∨
      ackno ≤ sender.nextSeq ∧
        ((sender.hear msg).takeAckno ackno).held =
          sender.dropAcknowledged ackno ++ sender.zeroWindowProbeMsg :=
  takeAckno_held (sender.hear msg) ackno

theorem acknowledged_of_dropped (near : sender.Near) {ackno : Nat} (member : sent ∈ sender.window)
    (gone : sent ∉ sender.dropAcknowledged ackno)
    (seqno : sent.message.seqno = Wrap32.wrap sent.absolute sender.isn) :
    sent.absolute + sent.message.sequenceLength ≤ ackno := by
  obtain ⟨ahead, behind⟩ := near sent member
  rw [← List.takeWhile_append_dropWhile (p := fun sent : Numbered => decide
    (sent.message.seqno.unwrap sender.isn sender.lastAckno + sent.message.sequenceLength ≤ ackno))
      (l := sender.window), List.mem_append] at member
  cases member with
  | inl taken =>
      have below := List.mem_takeWhile_imp taken
      rw [seqno, Wrap32.unwrap_wrap _ behind ahead] at below
      exact of_decide_eq_true below
  | inr left => exact absurd left gone

theorem getLast_of_dropped {α : Type} {values : List α} {value : α} (member : value ∈ values)
    (gone : value ∉ values.dropLast) : value ∈ values.getLast? := by
  have some : values ≠ [] := List.ne_nil_of_mem member
  rw [← List.dropLast_append_getLast some, List.mem_append, List.mem_singleton] at member
  rw [List.getLast?_eq_getLast_of_ne_nil some]
  cases member with
  | inl stays => exact absurd stays gone
  | inr last => exact congrArg Option.some last.symm

/-- The answer to a probe acknowledges it, or the probe has no number below `next_seq_`. -/
def AnswersProbe (sender : TCPSender) (ackno : Nat) : Prop :=
  sender.zeroWindowProbeMsg ≠ [] ∧
    ∀ probe ∈ sender.zeroWindowProbeMsg.getLast?,
      probe.absolute + probe.message.sequenceLength ≤ ackno ∧ ackno ≤ sender.nextSeq ∨
        sender.nextSeq ≤ probe.absolute

instance (sender : TCPSender) (ackno : Nat) : Decidable (sender.AnswersProbe ackno) :=
  inferInstanceAs (Decidable (_ ∧ _))

theorem Retains.receive (retains : sender.Retains isn written acked) {msg : TCPReceiverMessage}
    {leftover : Wrap32}
    (probing : sender.zeroWindowProbe = true →
      sender.AnswersProbe (sender.acknowledged msg leftover))
    (quiet : sender.zeroWindowProbe = false → sender.Near) (higher : acked ≤ later)
    (heard : sender.acknowledged msg leftover ≤ sender.nextSeq →
      sender.acknowledged msg leftover ≤ later) :
    ∃ next, sender.receive msg leftover = .ok next ∧ next.Retains isn written later := by
  obtain ⟨next, received, moves⟩ := receive_moves msg leftover fun probes => (probing probes).1
  refine ⟨next, received, retains.stays moves.toStays higher ?_⟩
  intro sent member gone seqno
  cases mode : sender.zeroWindowProbe with
  | true =>
      obtain ⟨probes, answers⟩ := probing mode
      rw [receive_answered msg leftover mode probes] at received
      cases received
      rw [held, List.mem_append, not_or] at gone
      cases List.mem_append.mp member with
      | inl inWindow => exact absurd inWindow gone.1
      | inr probe =>
          rcases answers sent (getLast_of_dropped probe gone.2) with ⟨covered, ackSent⟩ | unsent
          · exact .inl (Nat.le_trans covered (heard ackSent))
          · exact .inr unsent
  | false =>
      left
      rw [receive_quiet msg leftover mode] at received
      cases received
      rcases sender.hear_held msg (sender.acknowledged msg leftover) with same | ⟨ackSent, left⟩
      · rw [same] at gone
        exact absurd member gone
      · rw [left, List.mem_append, not_or] at gone
        cases List.mem_append.mp member with
        | inl inWindow =>
            have covered := acknowledged_of_dropped (quiet mode) inWindow gone.1 seqno
            exact Nat.le_trans covered (heard ackSent)
        | inr probe => exact absurd probe gone.2

theorem Retains.push (retains : sender.Retains isn written acked)
    (simple : sender.zeroWindowProbe = false →
      sender.isSyned = false ∨ sender.hasToPush = true → sender.Lossless)
    (probing : sender.zeroWindowProbe = true ∧ sender.isZeroWindowProbing = false →
      sender.KeepsFirst acked ∧
        (sender.window = [] → sender.isFined = true → sender.input.bytesBuffered = 0)) :
    sender.push.Retains isn written acked := by
  simp only [TCPSender.push]
  split
  · rename_i probes
    exact retains.pushZwpMode (probing probes).1 (probing probes).2
  · split
    · rename_i usual
      exact retains.pushSimple (simple usual)
    · exact retains

theorem tick_held (sender : TCPSender) (msSinceLastTick : UInt64) :
    (sender.tick msSinceLastTick).held = sender.held := by
  obtain ⟨crt, timer, transmitted, ticked⟩ := sender.tick_eq msSinceLastTick
  rw [ticked]
  rfl

theorem Retains.write (retains : sender.Retains isn written acked) (data : Bytes) :
    { sender with input := sender.input.push data }.Retains isn
      (written ++ data.take sender.input.availableCapacity) acked := by
  refine ⟨retains.toStreamed.write data, ?_⟩
  intro n above below
  obtain ⟨sent, member, carries⟩ := retains.remembers n above below
  refine ⟨sent, member, carries.seqno, ?_⟩
  rcases carries.content with syn | ⟨position, index, number, places⟩ | fin
  · exact .inl syn
  · exact .inr (.inl ⟨position, index, number, places.write _⟩)
  · right
    right
    rw [ByteStream.push_bytesPopped]
    exact fin

namespace Flow

def Remembers (flow : Flow) : Prop :=
  flow.trace.sender.Remembers flow.trace.written flow.acked

/-- What is popped has been seen by `peek`, a probe leaves its message whole and the answer to it
acknowledges it, and messages leave the window by their own numbers. -/
def Keeps (flow : Flow) : Event → Prop
  | .push =>
      (flow.trace.sender.zeroWindowProbe = false →
        flow.trace.sender.isSyned = false ∨ flow.trace.sender.hasToPush = true →
          flow.trace.sender.Lossless) ∧
      (flow.trace.sender.zeroWindowProbe = true ∧
          flow.trace.sender.isZeroWindowProbing = false →
        flow.trace.sender.KeepsFirst flow.acked ∧
          (flow.trace.sender.window = [] → flow.trace.sender.isFined = true →
            flow.trace.sender.input.bytesBuffered = 0))
  | .receive msg leftover =>
      msg.ackno.isSome = true ∧
        (flow.trace.sender.zeroWindowProbe = true →
          flow.trace.sender.AnswersProbe (flow.trace.sender.acknowledged msg leftover)) ∧
        (flow.trace.sender.zeroWindowProbe = false → flow.trace.sender.Near)
  | _ => True

instance (flow : Flow) (event : Event) : Decidable (flow.Keeps event) :=
  match event with
  | .write _ => .isTrue trivial
  | .close => .isTrue trivial
  | .push => inferInstanceAs (Decidable (_ ∧ _))
  | .receive _ _ => inferInstanceAs (Decidable (_ ∧ _))
  | .tick _ => .isTrue trivial

def Retains (isn : Wrap32) (flow : Flow) : Prop :=
  flow.trace.sender.Retains isn flow.trace.written flow.acked

theorem start_retains (capacity : Nat) (isn : Wrap32) (initialRto : UInt64) :
    Retains isn (start capacity isn initialRto) := by
  have streamed := (Trace.start_sound capacity isn initialRto).streamed
  refine ⟨streamed, ?_⟩
  intro n _ below
  have zero : (start capacity isn initialRto).trace.sender.nextSeq = 0 := streamed.fresh rfl
  rw [zero] at below
  exact absurd below (Nat.not_lt_zero n)

theorem step_retains {isn : Wrap32} (flow : Flow) (event : Event) (retains : Retains isn flow)
    (keeps : flow.Keeps event) : ∃ next, flow.step event = .ok next ∧ Retains isn next := by
  cases event with
  | write data => exact ⟨_, rfl, TCPSender.Retains.write retains data⟩
  | close =>
      refine ⟨_, rfl, TCPSender.Retains.stays retains ?_ (Nat.le_refl _) ?_⟩
      · exact ⟨rfl, rfl, rfl, rfl, rfl, rfl, fun _ member => member⟩
      · intro sent member gone
        exact absurd member gone
  | push => exact ⟨_, rfl, TCPSender.Retains.push retains keeps.1 keeps.2⟩
  | receive msg leftover =>
      obtain ⟨present, probing, quiet⟩ := keeps
      obtain ⟨next, received, nextRetains⟩ := TCPSender.Retains.receive retains probing quiet
        (flow.acked_le_after (.receive msg leftover)) (flow.ackno_le_after leftover present)
      have stepped : flow.trace.step (.receive msg leftover) =
          .ok { flow.trace with sender := next } := by
        rw [Trace.step, received]
      exact ⟨_, step_ok stepped, nextRetains⟩
  | tick msSinceLastTick =>
      refine ⟨_, rfl, TCPSender.Retains.stays retains
        (flow.trace.sender.tick_moves msSinceLastTick).toStays (Nat.le_refl _) ?_⟩
      intro sent member gone
      rw [tick_held] at gone
      exact absurd member gone

theorem run_remembers (capacity : Nat) (isn : Wrap32) (initialRto : UInt64)
    (events : List Event)
    (keeps : Runs.Permits step Keeps (start capacity isn initialRto) events) :
    (∃ last, Runs.run step (start capacity isn initialRto) events = .ok last) ∧
      Runs.Always step Remembers (start capacity isn initialRto) events := by
  have begins := start_retains capacity isn initialRto
  obtain ⟨last, ran, -⟩ := Runs.run_of_permits step_retains events begins keeps
  exact ⟨⟨last, ran⟩, Runs.always_of_permits step_retains
    (fun _ retains => TCPSender.Retains.remembers retains) events begins keeps⟩

theorem run_remembers_probes :
    Runs.Always step Remembers (start 100 ⟨7⟩ 50)
      [.push, .receive ⟨some ⟨8⟩, 0, false⟩ ⟨0⟩, .write [5, 6], .push, .tick 50,
        .receive ⟨some ⟨9⟩, 0, false⟩ ⟨0⟩, .push, .receive ⟨some ⟨10⟩, 20, false⟩ ⟨0⟩,
        .write [7, 8], .push, .close, .push, .tick 100, .receive ⟨some ⟨12⟩, 20, false⟩ ⟨0⟩] := by
  apply (run_remembers 100 ⟨7⟩ 50 _ _).2
  decide +kernel

/-- The probe keeps one byte of the first message of the window, and that one under a number behind
the others: the bytes of numbers 2 and 3 are in no message any more. -/
theorem probe_forgets_bytes :
    ¬ Runs.Always step Remembers (start 100 ⟨7⟩ 50)
      [.push, .receive ⟨some ⟨8⟩, 10, false⟩ ⟨0⟩, .write [1, 2, 3], .push,
        .receive ⟨some ⟨8⟩, 0, false⟩ ⟨0⟩, .push] := by
  intro always
  rw [Runs.always_cons rfl, Runs.always_cons rfl, Runs.always_cons rfl, Runs.always_cons rfl,
    Runs.always_cons rfl, Runs.always_cons rfl] at always
  obtain ⟨-, -, -, -, -, -, last⟩ := always
  obtain ⟨sent, member, carries⟩ := last 3 (by decide +kernel) (by decide +kernel)
  have misses := List.all_eq_true (p := fun sent : Numbered => decide
    (¬ (sent.absolute ≤ 3 ∧ 3 < sent.absolute + sent.message.sequenceLength))).mp
      (by decide +kernel) sent member
  exact of_decide_eq_true misses (carries_range carries)

end Flow

end TCPSender

end LearnInternet.Tcp
