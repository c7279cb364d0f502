import LearnInternet.Tcp.Window

/-!
What a sender knows of its own messages. The window of the receiver is open, or it was closed by an
acknowledgment of everything, and then nothing but the probe is under way.
-/

namespace LearnInternet.Tcp

namespace TCPSender

variable {sender next : TCPSender} {isn : Wrap32} {written : Bytes}

inductive Mode (sender : TCPSender) : Prop where
  | simple (simple : sender.zeroWindowProbe = false) (idle : sender.isZeroWindowProbing = false)
      (none : sender.zeroWindowProbeMsg = [])
  | shut (shut : sender.zeroWindowProbe = true) (idle : sender.isZeroWindowProbing = false)
      (none : sender.held = [])
  | probing (shut : sender.zeroWindowProbe = true) (busy : sender.isZeroWindowProbing = true)
      (window : sender.window = []) (probe : ∃ sent, sender.zeroWindowProbeMsg = [sent])
      (next : sender.nextSeq = sender.lastAckno + 1)

/-- A sender that has sent its `FIN` has taken everything, and its stream is closed. -/
def Ended (sender : TCPSender) : Prop :=
  sender.isFined = true → sender.input.close = true ∧ sender.input.buffer = []

structure Flowing (sender : TCPSender) (isn : Wrap32) (written : Bytes) : Prop
    extends Sent sender isn written, Counted sender, Waiting sender where
  mode : sender.Mode
  ended : sender.Ended

theorem Flowing.acked_near (flowing : sender.Flowing isn written) :
    sender.nextSeq ≤ sender.lastAckno + 2 ^ 17 := by
  have inFlight := flowing.seqFNum_eq
  have bound := flowing.seqFNum_le
  have below := flowing.lastAckno_le
  have fined := Bool.toNat_le sender.isFined
  have syned := Bool.toNat_le sender.isSyned
  have probing := Bool.toNat_le sender.isZeroWindowProbing
  rw [inFlightBound] at bound
  omega

/-! What `push` leaves alone. -/

structure Keeps (sender next : TCPSender) : Prop where
  lastAckno : next.lastAckno = sender.lastAckno
  zeroWindowProbe : next.zeroWindowProbe = sender.zeroWindowProbe
  rwSize : next.rwSize = sender.rwSize
  close : next.input.close = sender.input.close
  capacity : next.input.capacity = sender.input.capacity

theorem Keeps.refl (sender : TCPSender) : sender.Keeps sender := ⟨rfl, rfl, rfl, rfl, rfl⟩

theorem Keeps.trans {last : TCPSender} (first : sender.Keeps next) (second : next.Keeps last) :
    sender.Keeps last :=
  ⟨second.lastAckno.trans first.lastAckno, second.zeroWindowProbe.trans first.zeroWindowProbe,
    second.rwSize.trans first.rwSize, second.close.trans first.close,
    second.capacity.trans first.capacity⟩

theorem pushSimpleMode_keeps (sender : TCPSender) : sender.Keeps sender.pushSimpleMode := by
  obtain ⟨fin, -, pushed⟩ := sender.pushSimpleMode_eq
  rw [pushed, launch]
  split
  · exact ⟨rfl, rfl, rfl, rfl, rfl⟩
  · exact ⟨rfl, rfl, rfl, rfl, rfl⟩

theorem pushSyned_keepsAll (sender : TCPSender) : sender.Keeps sender.pushSyned := by
  have loop : sender.Keeps (pushLoop sender.input.bytesBuffered sender) := by
    apply pushLoop_induction (motive := sender.Keeps) _ _ (Keeps.refl sender)
    intro later kept _
    exact kept.trans later.pushSimpleMode_keeps
  simp only [pushSyned]
  split
  · exact loop.trans (pushSimpleMode_keeps _)
  · exact loop

theorem pushZwpMode_keeps (sender : TCPSender) : sender.Keeps sender.pushZwpMode := by
  cases window : sender.window with
  | cons first rest =>
      rw [pushZwpMode_of_cons window]
      exact ⟨rfl, rfl, rfl, rfl, rfl⟩
  | nil =>
      rcases pushZwpMode_of_nil window with stays | ⟨syn, count, fin, -, probed⟩
      · rw [stays]
        exact Keeps.refl sender
      · rw [probed]
        exact ⟨rfl, rfl, rfl, rfl, rfl⟩

theorem push_keeps (sender : TCPSender) : sender.Keeps sender.push := by
  simp only [push, pushSimple]
  split
  · exact sender.pushZwpMode_keeps
  · split
    · split
      · exact sender.pushSyned_keepsAll
      · exact sender.pushSimpleMode_keeps.trans (pushSyned_keepsAll _)
    · exact Keeps.refl sender

/-! The calls. -/

theorem Ended.pushSimpleMode (unfinned : sender.isFined = false) : sender.pushSimpleMode.Ended := by
  obtain ⟨fin, ends, pushed⟩ := sender.pushSimpleMode_eq
  have fined : sender.pushSimpleMode.isFined = fin := by
    rw [pushed, launch]
    split
    · simp [filled, unfinned]
    · simp [filled, transmit, unfinned]
  intro done
  rw [fined] at done
  rw [pushSimpleMode_input]
  exact ⟨(ends done).closed, (ends done).empty⟩

theorem Ended.pushSimple (ended : sender.Ended)
    (order : sender.isFined = true → sender.isSyned = true)
    (lossless : sender.isSyned = false ∨ sender.hasToPush = true → sender.Lossless) :
    sender.pushSimple.Ended := by
  apply pushSimple_keeps (motive := Ended) _ ended order lossless
  intro sender _ _ unfinned
  exact Ended.pushSimpleMode unfinned

theorem Ended.cutStream (ended : sender.Ended) (message : TCPSenderMessage) :
    (sender.cutStream message).1.Ended := by
  simp only [TCPSender.cutStream]
  split
  · exact ended
  · split
    · intro fined
      have before := ended fined
      simp [ByteStream.pop, before]
    · split
      · rename_i ends
        intro _
        have finished := ends.1
        simp only [ByteStream.isFinished, Bool.and_eq_true, decide_eq_true_eq] at finished
        exact ⟨finished.1, List.eq_nil_of_length_eq_zero finished.2⟩
      · exact ended

theorem Ended.pushZwpMode (ended : sender.Ended) (window : sender.window = []) :
    sender.pushZwpMode.Ended := by
  have cut := ended.cutStream sender.makeEmptyMessage
  simp only [TCPSender.pushZwpMode]
  split
  · rename_i some
    rw [window] at some
    cases some
  · split
    · exact cut
    · exact cut

structure Pushes (sender : TCPSender) (isn : Wrap32) (written : Bytes) (later : TCPSender) : Prop
    extends Flowing later isn written, Keeps sender later where
  grows : sender.Grows later

theorem pushSimple_idle (sender : TCPSender)
    (order : sender.isFined = true → sender.isSyned = true)
    (lossless : sender.isSyned = false ∨ sender.hasToPush = true → sender.Lossless) :
    sender.pushSimple.isZeroWindowProbing = sender.isZeroWindowProbing := by
  apply pushSimple_keeps (motive := fun next =>
    next.isZeroWindowProbing = sender.isZeroWindowProbing) _ rfl order lossless
  intro between same _ _
  obtain ⟨fin, -, pushed⟩ := between.pushSimpleMode_eq
  rw [pushed, launch]
  split
  · exact same
  · exact same

theorem Flowing.pushSimple (flowing : sender.Flowing isn written)
    (simple : sender.zeroWindowProbe = false)
    (lossless : sender.isSyned = false ∨ sender.hasToPush = true → sender.Lossless) :
    sender.push = sender.pushSimple ∧ sender.Pushes isn written sender.push := by
  have pushed : sender.push = sender.pushSimple := by
    simp [TCPSender.push, simple]
  have sent := flowing.toSent.push (fun _ => lossless) (by simp [simple])
  have kept := sender.push_keeps
  have counted := flowing.toCounted.push
  have idle : sender.isZeroWindowProbing = false ∧ sender.zeroWindowProbeMsg = [] := by
    cases flowing.mode with
    | simple _ idle none => exact ⟨idle, none⟩
    | shut shut =>
        rw [simple] at shut
        cases shut
    | probing shut =>
        rw [simple] at shut
        cases shut
  obtain ⟨waiting, none⟩ := flowing.toWaiting.pushSimple idle.2 flowing.order lossless
  have still := sender.pushSimple_idle flowing.order lossless
  have ended := flowing.ended.pushSimple flowing.order lossless
  have mode := kept.zeroWindowProbe
  rw [pushed] at sent kept counted mode
  rw [pushed]
  exact ⟨rfl, ⟨⟨sent.toSent, counted, waiting,
    .simple (mode.trans simple) (still.trans idle.1) none, ended⟩, kept, sent.grows⟩⟩

theorem Flowing.pushShut (flowing : sender.Flowing isn written)
    (shut : sender.zeroWindowProbe = true) (idle : sender.isZeroWindowProbing = false)
    (none : sender.held = []) :
    sender.push = sender.pushZwpMode ∧ sender.Pushes isn written sender.push := by
  have pushed : sender.push = sender.pushZwpMode := by
    simp [TCPSender.push, shut, idle]
  obtain ⟨window, probes⟩ := List.append_eq_nil_iff.mp none
  have unclosed : sender.isFined = true → sender.input.bytesBuffered = 0 := by
    intro fined
    rw [ByteStream.bytesBuffered, (flowing.ended fined).2, List.length_nil]
  have sent := flowing.toSent.pushZwpMode window unclosed
  have counted := flowing.toCounted.pushZwpMode idle
  have kept := sender.pushZwpMode_keeps
  have ended := flowing.ended.pushZwpMode window
  have acked := flowing.toWaiting.nil_iff.mp none
  rw [pushed]
  refine ⟨rfl, ⟨⟨sent.toSent, counted, ?_, ?_, ended⟩, kept, sent.grows⟩⟩
  · rcases pushZwpMode_of_nil window with stays | ⟨syn, count, fin, cuts, probed⟩
    · rw [stays]
      exact flowing.toWaiting
    · rw [probed]
      have one := cuts.one
      have single := cuts.single
      apply flowing.toWaiting.concat ⟨sender.nextSeq, sender.cutMessage syn count fin⟩
      · simp [held, probe, transmit, cutSender, window, probes]
      · rfl
      · rfl
      · simp only [Numbered.span, one]
        rfl
      · rfl
      · rw [one]
        decide
      · have fits := sender.input.fits
        simp only [cutMessage, ByteStream.peek_eq_take, List.length_take]
        omega
  · rcases pushZwpMode_of_nil window with stays | ⟨syn, count, fin, cuts, probed⟩
    · rw [stays]
      exact .shut shut idle none
    · rw [probed]
      refine .probing ?_ ?_ ?_ ⟨⟨sender.nextSeq, sender.cutMessage syn count fin⟩, ?_⟩ ?_
      · exact shut
      · rfl
      · exact window
      · simp [probe, transmit, cutSender, probes]
      · simp only [probe, transmit, cutSender]
        omega

theorem Flowing.push (flowing : sender.Flowing isn written)
    (lossless : sender.zeroWindowProbe = false →
      sender.isSyned = false ∨ sender.hasToPush = true → sender.Lossless) :
    sender.Pushes isn written sender.push := by
  cases flowing.mode with
  | simple simple => exact (flowing.pushSimple simple (lossless simple)).2
  | shut shut idle none => exact (flowing.pushShut shut idle none).2
  | probing shut busy =>
      have pushed : sender.push = sender := by simp [TCPSender.push, shut, busy]
      rw [pushed]
      exact ⟨flowing, Keeps.refl sender, (Moves.refl sender).grows⟩

theorem Flowing.tick (flowing : sender.Flowing isn written) (msSinceLastTick : UInt64) :
    (sender.tick msSinceLastTick).Flowing isn written := by
  refine ⟨flowing.toSent.moves (sender.tick_moves msSinceLastTick),
    flowing.toCounted.tick msSinceLastTick, flowing.toWaiting.tick msSinceLastTick, ?_, ?_⟩
  · obtain ⟨crt, timer, transmitted, ticked⟩ := sender.tick_eq msSinceLastTick
    rw [ticked]
    cases flowing.mode with
    | simple simple idle none => exact .simple simple idle none
    | shut shut idle none => exact .shut shut idle none
    | probing shut busy window probe next => exact .probing shut busy window probe next
  · obtain ⟨crt, timer, transmitted, ticked⟩ := sender.tick_eq msSinceLastTick
    rw [ticked]
    exact flowing.ended

theorem Mode.withInput (mode : sender.Mode) (input : ByteStream) :
    Mode { sender with input } := by
  cases mode with
  | simple simple idle none => exact .simple simple idle none
  | shut shut idle none => exact .shut shut idle none
  | probing shut busy window probe next => exact .probing shut busy window probe next

theorem Flowing.write (flowing : sender.Flowing isn written) (data : Bytes)
    (unclosed : sender.input.close = false) :
    { sender with input := sender.input.push data }.Flowing isn
      (written ++ data.take sender.input.availableCapacity) := by
  have capacity := sender.input.push_capacity data
  refine ⟨flowing.toSent.write data, flowing.toCounted.uncounted _ _ _ _,
    flowing.toWaiting.same ⟨rfl, rfl, rfl, capacity⟩, flowing.mode.withInput _, ?_⟩
  intro fined
  have closed := (flowing.ended fined).1
  rw [unclosed] at closed
  cases closed

theorem Flowing.close (flowing : sender.Flowing isn written) :
    { sender with input := sender.input.closeWriter }.Flowing isn written := by
  refine ⟨flowing.toSent.moves ?_, flowing.toCounted.uncounted _ _ _ _,
    flowing.toWaiting.same ⟨rfl, rfl, rfl, rfl⟩, flowing.mode.withInput _, ?_⟩
  · exact ⟨⟨rfl, rfl, rfl, rfl, rfl, rfl, fun _ member => member⟩, fun _ member => member⟩
  · intro fined
    exact ⟨rfl, (flowing.ended fined).2⟩

/-! What the sender makes of an answer that is at most `2 ^ 31` old. -/

structure Heeds (sender : TCPSender) (isn : Wrap32) (written : Bytes) (msg : TCPReceiverMessage)
    (absolute : Nat) (later : TCPSender) : Prop
    extends Flowing later isn written, Moves sender later where
  lastAckno : later.lastAckno = max sender.lastAckno absolute
  zeroWindowProbe : later.zeroWindowProbe = decide (msg.windowSize = 0)
  rwSize : msg.windowSize ≠ 0 → later.rwSize = msg.windowSize.toUInt64
  close : later.input.close = sender.input.close
  capacity : later.input.capacity = sender.input.capacity

theorem checkRst_input (sender : TCPSender) (msg : TCPReceiverMessage) :
    (sender.checkRst msg).input.close = sender.input.close ∧
      (sender.checkRst msg).input.capacity = sender.input.capacity := by
  rw [checkRst]
  split
  · exact ⟨rfl, rfl⟩
  · exact ⟨rfl, rfl⟩

theorem takeAckno_input (sender : TCPSender) (ackno : Nat) :
    (sender.takeAckno ackno).input = sender.input ∧
      (sender.takeAckno ackno).isZeroWindowProbing = sender.isZeroWindowProbing ∧
      (sender.takeAckno ackno).zeroWindowProbeMsg = sender.zeroWindowProbeMsg := by
  simp only [takeAckno]
  split
  · exact ⟨rfl, rfl, rfl⟩
  · split
    · exact ⟨rfl, rfl, rfl⟩
    · exact ⟨rfl, rfl, rfl⟩

theorem Flowing.acknowledged_eq (flowing : sender.Flowing isn written) {msg : TCPReceiverMessage}
    {absolute : Nat} (leftover : Wrap32) (ackno : msg.ackno = some (Wrap32.wrap absolute isn))
    (recent : sender.lastAckno ≤ absolute + 2 ^ 31) (sent : absolute ≤ sender.nextSeq) :
    sender.acknowledged msg leftover = absolute := by
  have near := flowing.acked_near
  rw [acknowledged, ackno, Option.getD_some, flowing.isn_eq]
  exact Wrap32.unwrap_wrap isn recent (by omega)

theorem Flowing.ended_moves (flowing : sender.Flowing isn written) (moves : sender.Moves next)
    (close : next.input.close = sender.input.close) : next.Ended := by
  intro fined
  rw [moves.isFined] at fined
  rw [close, moves.buffer]
  exact flowing.ended fined

theorem Flowing.receive_simple (flowing : sender.Flowing isn written)
    (small : sender.nextSeq < 2 ^ 64) (simple : sender.zeroWindowProbe = false)
    (idle : sender.isZeroWindowProbing = false) (none : sender.zeroWindowProbeMsg = [])
    {msg : TCPReceiverMessage} {absolute : Nat} (leftover : Wrap32)
    (number : sender.acknowledged msg leftover = absolute) (sent : absolute ≤ sender.nextSeq)
    (closing : msg.windowSize = 0 → absolute = sender.nextSeq) :
    ∃ next, sender.receive msg leftover = .ok next ∧
      sender.Heeds isn written msg absolute next := by
  have received := sender.receive_quiet msg leftover simple
  obtain ⟨other, otherReceived, moves⟩ := sender.receive_moves msg leftover (by simp [simple])
  rw [received] at otherReceived
  obtain rfl := Except.ok.inj otherReceived
  rw [number] at received moves
  have larger : sender.Covers absolute → sender.lastAckno < absolute :=
    flowing.toCounted.toAccounted.lastAckno_lt small
  obtain ⟨counted, countedReceived, stillCounted⟩ :=
    flowing.toCounted.receive_open msg leftover simple (number ▸ larger)
  rw [received] at countedReceived
  obtain rfl := Except.ok.inj countedReceived
  have heardSent : (sender.hear msg).Sent isn written := by
    apply flowing.toSent.moves
    have checked := sender.checkRst_moves msg
    rw [checkRst_eq] at checked
    exact checked.trans (moves_of_forgets ⟨rfl, rfl, rfl, rfl, rfl, rfl⟩ (List.Subset.refl _)
      (List.Subset.refl _))
  have heardCounted : (sender.hear msg).Counted :=
    ⟨⟨flowing.lastAckno_le, flowing.seqFNum_eq⟩, windowSize_le msg, flowing.seqFNum_le⟩
  have heardWaiting : (sender.hear msg).Waiting :=
    flowing.toWaiting.same ⟨rfl, rfl, rfl, (sender.checkRst_input msg).2⟩
  have waiting := heardWaiting.takeAckno heardCounted heardSent none larger
  obtain ⟨input, probing, probes⟩ := (sender.hear msg).takeAckno_input absolute
  obtain ⟨close, capacity⟩ := sender.checkRst_input msg
  have closed := (congrArg ByteStream.close input).trans close
  have lastAckno : ((sender.hear msg).takeAckno absolute).lastAckno =
      max sender.lastAckno absolute := by
    by_cases covers : (sender.hear msg).Covers absolute
    · rw [takeAckno_of_covers covers]
      exact (Nat.max_eq_right (Nat.le_of_lt (larger covers))).symm
    · have below := flowing.lastAckno_le
      have stale : absolute ≤ sender.lastAckno := by
        by_contra above
        apply covers
        rw [heardCounted.toAccounted.covers_iff]
        refine ⟨sent, ?_⟩
        simp only [hear]
        omega
      rw [takeAckno_of_stale covers]
      exact (Nat.max_eq_left stale).symm
  have window := receive_window received
  refine ⟨_, received, ⟨⟨flowing.toSent.moves moves, stillCounted, waiting, ?_,
    flowing.ended_moves moves closed⟩, moves, lastAckno, window.1, window.2, closed,
    (congrArg ByteStream.capacity input).trans capacity⟩⟩
  by_cases shut : msg.windowSize = 0
  · refine .shut (window.1.trans (decide_eq_true shut)) (probing.trans idle) ?_
    have all := closing shut
    have below := flowing.lastAckno_le
    rw [waiting.nil_iff, lastAckno, moves.nextSeq]
    omega
  · exact .simple (window.1.trans (decide_eq_false shut)) (probing.trans idle) (probes.trans none)

theorem Flowing.receive_probing (flowing : sender.Flowing isn written)
    (shut : sender.zeroWindowProbe = true) (window : sender.window = []) {probe : Numbered}
    (probes : sender.zeroWindowProbeMsg = [probe]) (next : sender.nextSeq = sender.lastAckno + 1)
    {msg : TCPReceiverMessage} {absolute : Nat} (leftover : Wrap32)
    (number : sender.acknowledged msg leftover = absolute) (all : absolute = sender.nextSeq) :
    ∃ next, sender.receive msg leftover = .ok next ∧
      sender.Heeds isn written msg absolute next := by
  have some : sender.zeroWindowProbeMsg ≠ [] := by simp [probes]
  have received := receive_answered msg leftover shut some
  obtain ⟨other, otherReceived, moves⟩ := receive_moves msg leftover fun _ => some
  rw [received] at otherReceived
  obtain rfl := Except.ok.inj otherReceived
  rw [number] at received moves
  obtain ⟨counted, countedReceived, stillCounted⟩ :=
    flowing.toCounted.receive_probing msg leftover shut some (by omega) (by omega)
  rw [received] at countedReceived
  obtain rfl := Except.ok.inj countedReceived
  obtain ⟨close, capacity⟩ := sender.checkRst_input msg
  have none : (sender.answered msg absolute).held = [] := by
    simp [held, answered, window, probes]
  have heard := receive_window received
  refine ⟨_, received, ⟨⟨flowing.toSent.moves moves, stillCounted,
    waiting_of_nothing none all, ?_, flowing.ended_moves moves close⟩, moves, ?_, heard.1,
    heard.2, close, capacity⟩⟩
  · by_cases wide : msg.windowSize = 0
    · exact .shut (heard.1.trans (decide_eq_true wide)) rfl none
    · exact .simple (heard.1.trans (decide_eq_false wide)) rfl (List.append_eq_nil_iff.mp none).2
  · have after : (sender.answered msg absolute).lastAckno = absolute := rfl
    omega

/-- An answer that closes the window acknowledges everything, and so does one that arrives while it
is closed; that one finds a probe. -/
def Takes (sender : TCPSender) (msg : TCPReceiverMessage) (absolute : Nat) : Prop :=
  (sender.zeroWindowProbe = true → sender.isZeroWindowProbing = true) ∧
    (sender.zeroWindowProbe = true ∨ msg.windowSize = 0 → absolute = sender.nextSeq)

instance (sender : TCPSender) (msg : TCPReceiverMessage) (absolute : Nat) :
    Decidable (sender.Takes msg absolute) :=
  inferInstanceAs (Decidable (_ ∧ _))

theorem Flowing.receive (flowing : sender.Flowing isn written) (small : sender.nextSeq < 2 ^ 64)
    {msg : TCPReceiverMessage} {absolute : Nat} (leftover : Wrap32)
    (ackno : msg.ackno = some (Wrap32.wrap absolute isn))
    (recent : sender.lastAckno ≤ absolute + 2 ^ 31) (sent : absolute ≤ sender.nextSeq)
    (takes : sender.Takes msg absolute) :
    ∃ next, sender.receive msg leftover = .ok next ∧
      sender.Heeds isn written msg absolute next := by
  have number := flowing.acknowledged_eq leftover ackno recent sent
  cases flowing.mode with
  | simple simple idle none =>
      exact flowing.receive_simple small simple idle none leftover number sent
        fun shut => takes.2 (.inr shut)
  | shut shut idle =>
      have probing := takes.1 shut
      rw [idle] at probing
      cases probing
  | probing shut busy window probe next =>
      obtain ⟨message, probes⟩ := probe
      exact flowing.receive_probing shut window probes next leftover number (takes.2 (.inl shut))

end TCPSender

end LearnInternet.Tcp
