import LearnInternet.Tcp.Delivery

/-!
`SeqFNum_` counts the sequence numbers between `last_ackno_` and `next_seq_`, as long as every
acknowledgment in the mode of the zero window answers a probe and covers its one sequence number.
-/

namespace LearnInternet.Tcp

namespace TCPSender

structure Accounted (sender : TCPSender) : Prop where
  lastAckno_le : sender.lastAckno ≤ sender.nextSeq
  seqFNum_eq : sender.seqFNum.toNat = sender.nextSeq - sender.lastAckno

/-- More can be in flight than the largest window holds: the first message is sent without a window,
the last one before the window is full can be longer than what is left of it, and a `FIN` and a
probe need no room. -/
def inFlightBound (sender : TCPSender) : Nat :=
  65535 + 130 + 130 * sender.isSyned.toNat + sender.isFined.toNat +
    sender.isZeroWindowProbing.toNat

structure Counted (sender : TCPSender) : Prop extends Accounted sender where
  rwSize_le : sender.rwSize.toNat ≤ 65535
  seqFNum_le : sender.seqFNum.toNat ≤ sender.inFlightBound

variable {sender next : TCPSender}

theorem inFlightBound_lt (sender : TCPSender) : sender.inFlightBound < 2 ^ 63 := by
  have syned := Bool.toNat_le sender.isSyned
  have fined := Bool.toNat_le sender.isFined
  have probing := Bool.toNat_le sender.isZeroWindowProbing
  rw [inFlightBound]
  omega

/-! The calls that send. -/

structure Advances (sender : TCPSender) (count : Nat) (next : TCPSender) : Prop where
  nextSeq : next.nextSeq = sender.nextSeq + count
  seqFNum : next.seqFNum = sender.seqFNum + UInt64.ofNat count
  lastAckno : next.lastAckno = sender.lastAckno
  rwSize : next.rwSize = sender.rwSize

theorem Counted.advances {count : Nat} (counted : sender.Counted)
    (advances : sender.Advances count next)
    (fits : sender.seqFNum.toNat + count ≤ next.inFlightBound) : next.Counted := by
  have small := next.inFlightBound_lt
  have below := counted.lastAckno_le
  have inFlight := counted.seqFNum_eq
  have sum : next.seqFNum.toNat = sender.seqFNum.toNat + count := by
    rw [advances.seqFNum, UInt64.toNat_add, UInt64.toNat_ofNat']
    omega
  constructor
  · constructor
    · rw [advances.lastAckno, advances.nextSeq]
      omega
    · rw [sum, advances.lastAckno, advances.nextSeq]
      omega
  · rw [advances.rwSize]
    exact counted.rwSize_le
  · rw [sum]
    exact fits

theorem segment_length_le (sender : TCPSender) (fin : Bool) :
    (sender.segment fin).sequenceLength ≤ 130 := by
  have syn := Bool.toNat_le (!sender.isSyned)
  have last := Bool.toNat_le fin
  simp only [TCPSenderMessage.sequenceLength, segment, ByteStream.peek_eq_take, List.length_take,
    ByteStream.readBytesSize]
  omega

theorem launch_advances (sender : TCPSender) (fin : Bool) :
    sender.Advances (sender.segment fin).sequenceLength
      ((sender.filled fin).launch (sender.segment fin)) := by
  simp only [launch]
  split
  · rename_i none
    rw [none]
    exact ⟨rfl, (UInt64.add_zero _).symm, rfl, rfl⟩
  · exact ⟨rfl, rfl, rfl, rfl⟩

theorem launch_inFlightBound (sender : TCPSender) (fin : Bool) :
    ((sender.filled fin).launch (sender.segment fin)).inFlightBound =
      65535 + 130 + 130 + (sender.isFined || fin).toNat + sender.isZeroWindowProbing.toNat := by
  simp only [launch, inFlightBound]
  split <;> rfl

theorem Counted.pushSimpleMode (counted : sender.Counted)
    (room : sender.isSyned = false ∨ sender.seqFNum.toNat ≤ 65535) :
    sender.pushSimpleMode.Counted := by
  obtain ⟨fin, -, pushed⟩ := sender.pushSimpleMode_eq
  rw [pushed]
  apply counted.advances (sender.launch_advances fin)
  have length := sender.segment_length_le fin
  have before := counted.seqFNum_le
  have ends : sender.isFined.toNat ≤ (sender.isFined || fin).toNat := by
    cases sender.isFined <;> cases fin <;> decide
  rw [launch_inFlightBound]
  rw [inFlightBound] at before
  rcases room with unsyned | free
  · rw [unsyned, Bool.toNat_false] at before
    omega
  · omega

theorem Counted.pushFin (counted : sender.Counted) (syned : sender.isSyned = true)
    (unfinned : sender.isFined = false) (empty : sender.input.bytesBuffered = 0) :
    sender.pushSimpleMode.Counted := by
  obtain ⟨fin, -, pushed⟩ := sender.pushSimpleMode_eq
  rw [pushed]
  apply counted.advances (sender.launch_advances fin)
  have nothing : sender.input.buffer = [] := List.eq_nil_of_length_eq_zero empty
  have length : (sender.segment fin).sequenceLength = fin.toNat := by
    simp [TCPSenderMessage.sequenceLength, segment, ByteStream.peek_eq_take, nothing, syned]
  have before := counted.seqFNum_le
  rw [launch_inFlightBound, length, unfinned, Bool.false_or]
  rw [inFlightBound, syned, unfinned, Bool.toNat_true, Bool.toNat_false] at before
  omega

theorem Counted.lt_of_hasToPush (counted : sender.Counted) (pushes : sender.hasToPush = true) :
    sender.seqFNum.toNat < sender.rwSize.toNat := by
  have room := (sender.hasToPush_iff.mp pushes).1
  have small := sender.inFlightBound_lt
  have inFlight := counted.seqFNum_le
  have window := counted.rwSize_le
  simp only [positiveInt64, space, decide_eq_true_eq, UInt64.lt_iff_toNat_lt, UInt64.toNat_sub]
    at room
  simp only [UInt64.reduceToNat] at room
  omega

theorem Counted.pushLoop (counted : sender.Counted) (rounds : Nat) :
    (pushLoop rounds sender).Counted := by
  apply pushLoop_induction _ rounds counted
  intro sender counted pushes
  have room := counted.lt_of_hasToPush pushes
  have window := counted.rwSize_le
  exact counted.pushSimpleMode (.inr (by omega))

theorem pushLoop_isSyned (syned : sender.isSyned = true) (rounds : Nat) :
    (pushLoop rounds sender).isSyned = true := by
  apply pushLoop_induction (motive := fun sender => sender.isSyned = true) _ rounds syned
  intro sender _ _
  exact sender.pushSimpleMode_isSyned

theorem Counted.pushSyned (counted : sender.Counted) (syned : sender.isSyned = true) :
    sender.pushSyned.Counted := by
  have pushed := counted.pushLoop sender.input.bytesBuffered
  simp only [TCPSender.pushSyned]
  split
  · rename_i ends
    exact pushed.pushFin (pushLoop_isSyned syned _) ends.1 ends.2.2.2
  · exact pushed

theorem Counted.pushSimple (counted : sender.Counted) : sender.pushSimple.Counted := by
  simp only [TCPSender.pushSimple]
  split
  · rename_i syned
    exact counted.pushSyned syned
  · rename_i unsyned
    exact (counted.pushSimpleMode (.inl (by simpa using unsyned))).pushSyned
      sender.pushSimpleMode_isSyned

theorem Counted.pushZwpMode (counted : sender.Counted)
    (waits : sender.isZeroWindowProbing = false) : sender.pushZwpMode.Counted := by
  have before := counted.seqFNum_le
  rw [inFlightBound, waits, Bool.toNat_false] at before
  cases window : sender.window with
  | cons first rest =>
      have advances (probed left) :
          sender.Advances 0 ({ sender with window := left }.probe probed) :=
        ⟨rfl, (UInt64.add_zero _).symm, rfl, rfl⟩
      rw [pushZwpMode_of_cons window]
      apply counted.advances (advances _ _)
      simp only [inFlightBound, probe, transmit, Bool.toNat_true]
      omega
  | nil =>
      rcases pushZwpMode_of_nil window with stays | ⟨syn, count, fin, cuts, probed⟩
      · rw [stays]
        exact counted
      · have syned : sender.isSyned.toNat ≤ (sender.isSyned || syn).toNat := by
          cases sender.isSyned <;> cases syn <;> decide
        have fined : sender.isFined.toNat ≤ (sender.isFined || fin).toNat := by
          cases sender.isFined <;> cases fin <;> decide
        have advances : sender.Advances 1 ({ sender.cutSender syn count fin with
            nextSeq := sender.nextSeq + 1, seqFNum := sender.seqFNum + 1 }.probe
              ⟨sender.nextSeq, sender.cutMessage syn count fin⟩) := ⟨rfl, rfl, rfl, rfl⟩
        rw [probed]
        apply counted.advances advances
        simp only [inFlightBound, probe, transmit, cutSender, Bool.toNat_true]
        omega

theorem Counted.push (counted : sender.Counted) : sender.push.Counted := by
  simp only [TCPSender.push]
  split
  · rename_i probes
    exact counted.pushZwpMode probes.2
  · split
    · exact counted.pushSimple
    · exact counted

/-! The calls that receive. -/

/-- The guard before `SeqFNum_ -= ackno_u64 - last_ackno_`. -/
def Covers (sender : TCPSender) (ackno : Nat) : Prop :=
  ackno ≤ sender.nextSeq ∧ UInt64.ofNat sender.nextSeq - sender.seqFNum < UInt64.ofNat ackno

theorem takeAckno_of_covers {ackno : Nat} (covers : sender.Covers ackno) :
    sender.takeAckno ackno =
      { sender with
        window := sender.dropAcknowledged ackno
        crt := 0
        timer := (sender.timer.rtoReset sender.initialRto).timeReset
        seqFNum := sender.seqFNum - (UInt64.ofNat ackno - UInt64.ofNat sender.lastAckno)
        lastAckno := ackno } := by
  rw [takeAckno, if_neg (Nat.not_lt.mpr covers.1), if_pos covers.2]

theorem takeAckno_of_stale {ackno : Nat} (stale : ¬ sender.Covers ackno) :
    sender.takeAckno ackno = sender := by
  rw [takeAckno]
  split
  · rfl
  · rename_i below
    exact if_neg fun above => stale ⟨Nat.not_lt.mp below, above⟩

structure Hears (sender next : TCPSender) : Prop where
  nextSeq : next.nextSeq = sender.nextSeq
  isSyned : next.isSyned = sender.isSyned
  isFined : next.isFined = sender.isFined
  rwSize_le : sender.rwSize.toNat ≤ 65535 → next.rwSize.toNat ≤ 65535

theorem windowSize_le (msg : TCPReceiverMessage) : msg.windowSize.toUInt64.toNat ≤ 65535 := by
  have bound := msg.windowSize.toNat_lt
  rw [UInt16.toNat_toUInt64]
  omega

structure Acknowledges (sender : TCPSender) (ackno : Nat) (next : TCPSender) : Prop
    extends Hears sender next where
  isZeroWindowProbing : next.isZeroWindowProbing = sender.isZeroWindowProbing
  covered : sender.Covers ackno → next.lastAckno = ackno ∧
    next.seqFNum = sender.seqFNum - (UInt64.ofNat ackno - UInt64.ofNat sender.lastAckno)
  ignored : ¬ sender.Covers ackno → next.lastAckno = sender.lastAckno ∧
    next.seqFNum = sender.seqFNum

theorem takeAckno_acknowledges (sender : TCPSender) (ackno : Nat) :
    sender.Acknowledges ackno (sender.takeAckno ackno) := by
  by_cases covers : sender.Covers ackno
  · rw [takeAckno_of_covers covers]
    exact ⟨⟨rfl, rfl, rfl, id⟩, rfl, fun _ => ⟨rfl, rfl⟩, fun stale => absurd covers stale⟩
  · rw [takeAckno_of_stale covers]
    exact ⟨⟨rfl, rfl, rfl, id⟩, rfl, fun taken => absurd taken covers, fun _ => ⟨rfl, rfl⟩⟩

theorem receive_probing (msg : TCPReceiverMessage) (leftover : Wrap32)
    (probing : sender.zeroWindowProbe = true) (probes : sender.zeroWindowProbeMsg ≠ []) :
    ∃ next, sender.receive msg leftover = .ok next ∧ sender.Hears next ∧
      next.seqFNum = sender.seqFNum - 1 ∧
      next.lastAckno = sender.acknowledged msg leftover ∧ next.isZeroWindowProbing = false := by
  refine ⟨_, receive_answered msg leftover probing probes, ⟨rfl, rfl, rfl, ?_⟩, rfl, rfl, rfl⟩
  intro bound
  simp only [answered]
  split
  · exact bound
  · exact windowSize_le msg

theorem Acknowledges.of_checked {ackno : Nat} {input : ByteStream} {rwSize : UInt64} {mode : Bool}
    (taken : Acknowledges { sender with input, rwSize, zeroWindowProbe := mode } ackno next)
    (bound : rwSize.toNat ≤ 65535) : sender.Acknowledges ackno next :=
  ⟨⟨taken.nextSeq, taken.isSyned, taken.isFined, fun _ => taken.rwSize_le bound⟩,
    taken.isZeroWindowProbing, taken.covered, taken.ignored⟩

theorem receive_open (msg : TCPReceiverMessage) (leftover : Wrap32)
    (quiet : sender.zeroWindowProbe = false) :
    ∃ next, sender.receive msg leftover = .ok next ∧
      sender.Acknowledges (sender.acknowledged msg leftover) next := by
  refine ⟨_, receive_quiet msg leftover quiet, ?_⟩
  rw [hear]
  exact (takeAckno_acknowledges _ _).of_checked (windowSize_le msg)

theorem Counted.hears (counted : sender.Counted) (hears : sender.Hears next)
    (accounted : next.Accounted)
    (probing : next.seqFNum.toNat + sender.isZeroWindowProbing.toNat ≤
      sender.seqFNum.toNat + next.isZeroWindowProbing.toNat) : next.Counted := by
  refine ⟨accounted, hears.rwSize_le counted.rwSize_le, ?_⟩
  have before := counted.seqFNum_le
  rw [inFlightBound] at before ⊢
  rw [hears.isSyned, hears.isFined]
  omega

theorem Accounted.unacknowledged_eq (accounted : sender.Accounted) :
    UInt64.ofNat sender.nextSeq - sender.seqFNum = UInt64.ofNat sender.lastAckno := by
  have below := accounted.lastAckno_le
  have inFlight := accounted.seqFNum_eq
  have small := sender.seqFNum.toNat_lt
  rw [← UInt64.toNat_inj, UInt64.toNat_sub, UInt64.toNat_ofNat', UInt64.toNat_ofNat']
  omega

theorem Accounted.covers_iff (accounted : sender.Accounted) (ackno : Nat) :
    sender.Covers ackno ↔ ackno ≤ sender.nextSeq ∧
      sender.lastAckno % 2 ^ 64 < ackno % 2 ^ 64 := by
  rw [Covers, accounted.unacknowledged_eq, UInt64.lt_iff_toNat_lt, UInt64.toNat_ofNat',
    UInt64.toNat_ofNat']

theorem Accounted.lastAckno_lt (accounted : sender.Accounted) (small : sender.nextSeq < 2 ^ 64)
    {ackno : Nat} (covers : sender.Covers ackno) : sender.lastAckno < ackno := by
  have below := accounted.lastAckno_le
  obtain ⟨sent, above⟩ := (accounted.covers_iff ackno).mp covers
  omega

theorem Accounted.counted_down {ackno : Nat} (accounted : sender.Accounted)
    (sent : ackno ≤ sender.nextSeq) (above : sender.lastAckno < ackno) :
    (UInt64.ofNat ackno - UInt64.ofNat sender.lastAckno).toNat = ackno - sender.lastAckno ∧
      (sender.seqFNum - (UInt64.ofNat ackno - UInt64.ofNat sender.lastAckno)).toNat =
        sender.nextSeq - ackno := by
  have inFlight := accounted.seqFNum_eq
  have small := sender.seqFNum.toNat_lt
  have down : (UInt64.ofNat ackno - UInt64.ofNat sender.lastAckno).toNat =
      ackno - sender.lastAckno := by
    rw [UInt64.toNat_sub, UInt64.toNat_ofNat', UInt64.toNat_ofNat']
    omega
  refine ⟨down, ?_⟩
  rw [UInt64.toNat_sub, down]
  omega

theorem Accounted.hears (accounted : sender.Accounted) (hears : sender.Hears next)
    (same : next.lastAckno = sender.lastAckno ∧ next.seqFNum = sender.seqFNum) :
    next.Accounted := by
  constructor
  · rw [same.1, hears.nextSeq]
    exact accounted.lastAckno_le
  · rw [same.1, same.2, hears.nextSeq]
    exact accounted.seqFNum_eq

theorem Counted.receive_open (counted : sender.Counted) (msg : TCPReceiverMessage)
    (leftover : Wrap32) (quiet : sender.zeroWindowProbe = false)
    (above : sender.Covers (sender.acknowledged msg leftover) →
      sender.lastAckno < sender.acknowledged msg leftover) :
    ∃ next, sender.receive msg leftover = .ok next ∧ next.Counted := by
  obtain ⟨next, received, taken⟩ := TCPSender.receive_open msg leftover quiet
  refine ⟨next, received, ?_⟩
  have flag := taken.isZeroWindowProbing
  by_cases covers : sender.Covers (sender.acknowledged msg leftover)
  · obtain ⟨lastAckno, seqFNum⟩ := taken.covered covers
    have left := (counted.counted_down covers.1 (above covers)).2
    rw [← seqFNum] at left
    have larger := above covers
    have inFlight := counted.seqFNum_eq
    apply counted.hears taken.toHears
    · constructor
      · rw [lastAckno, taken.nextSeq]
        exact covers.1
      · rw [left, lastAckno, taken.nextSeq]
    · rw [flag]
      omega
  · have same := taken.ignored covers
    apply counted.hears taken.toHears (counted.toAccounted.hears taken.toHears same)
    rw [flag, same.2]

theorem Counted.receive_probing (counted : sender.Counted) (msg : TCPReceiverMessage)
    (leftover : Wrap32) (probing : sender.zeroWindowProbe = true)
    (probes : sender.zeroWindowProbeMsg ≠ [])
    (answers : sender.acknowledged msg leftover = sender.lastAckno + 1)
    (sent : sender.acknowledged msg leftover ≤ sender.nextSeq) :
    ∃ next, sender.receive msg leftover = .ok next ∧ next.Counted := by
  obtain ⟨next, received, hears, seqFNum, lastAckno, flag⟩ :=
    TCPSender.receive_probing msg leftover probing probes
  refine ⟨next, received, ?_⟩
  have inFlight := counted.seqFNum_eq
  have some : 1 ≤ sender.seqFNum.toNat := by omega
  have down : next.seqFNum.toNat = sender.seqFNum.toNat - 1 := by
    rw [seqFNum]
    exact UInt64.toNat_sub_of_le _ _ (UInt64.le_iff_toNat_le.mpr some)
  have flagged := Bool.toNat_le sender.isZeroWindowProbing
  apply counted.hears hears
  · constructor
    · rw [lastAckno, hears.nextSeq]
      exact sent
    · rw [down, lastAckno, hears.nextSeq]
      omega
  · rw [flag, down, Bool.toNat_false]
    omega

/-! The other calls. -/

theorem Counted.uncounted (counted : sender.Counted) (input : ByteStream) (crt : UInt64)
    (timer : RetransmissionTimer) (transmitted : List Numbered) :
    { sender with input, crt, timer, transmitted }.Counted :=
  ⟨⟨counted.lastAckno_le, counted.seqFNum_eq⟩, counted.rwSize_le, counted.seqFNum_le⟩

theorem tick_eq (sender : TCPSender) (msSinceLastTick : UInt64) :
    ∃ crt timer transmitted,
      sender.tick msSinceLastTick = { sender with crt, timer, transmitted } := by
  simp only [tick, tickZwpMode, tickSimpleMode]
  split
  · split
    · exact ⟨_, _, _, rfl⟩
    · split
      · exact ⟨_, _, _, rfl⟩
      · exact ⟨_, _, _, rfl⟩
  · split
    · exact ⟨_, _, _, rfl⟩
    · split
      · exact ⟨_, _, _, rfl⟩
      · exact ⟨_, _, _, rfl⟩

theorem Counted.tick (counted : sender.Counted) (msSinceLastTick : UInt64) :
    (sender.tick msSinceLastTick).Counted := by
  obtain ⟨crt, timer, transmitted, ticked⟩ := sender.tick_eq msSinceLastTick
  rw [ticked]
  exact counted.uncounted sender.input crt timer transmitted

namespace Trace

/-- No undefined operation, and nothing is subtracted from `SeqFNum_` that it does not have:
`*msg.ackno` is there, `pop_back` has a probe to take. -/
def Sane (trace : Trace) : Event → Prop
  | .receive msg leftover =>
      let ackno := trace.sender.acknowledged msg leftover
      msg.ackno.isSome = true ∧
        (trace.sender.zeroWindowProbe = true →
          trace.sender.zeroWindowProbeMsg ≠ [] ∧ 1 ≤ trace.sender.seqFNum.toNat) ∧
        (trace.sender.zeroWindowProbe = false → trace.sender.Covers ackno →
          (UInt64.ofNat ackno - UInt64.ofNat trace.sender.lastAckno).toNat ≤
            trace.sender.seqFNum.toNat)
  | _ => True

/-- Every message carries an acknowledgment; in the mode of the zero window it answers a probe and
acknowledges exactly one more sequence number than the last. Outside of it what passes for new is
larger than the last, which is always so below `2 ^ 64`. -/
def KeepsCount (trace : Trace) : Event → Prop
  | .receive msg leftover =>
      let ackno := trace.sender.acknowledged msg leftover
      msg.ackno.isSome = true ∧
        (trace.sender.zeroWindowProbe = true →
          trace.sender.zeroWindowProbeMsg ≠ [] ∧ ackno = trace.sender.lastAckno + 1 ∧
            ackno ≤ trace.sender.nextSeq) ∧
        (trace.sender.zeroWindowProbe = false → trace.sender.Covers ackno →
          trace.sender.lastAckno < ackno)
  | _ => True

theorem start_counted (capacity : Nat) (isn : Wrap32) (initialRto : UInt64) :
    (start capacity isn initialRto).sender.Counted := by
  have zero : isn.unwrap isn 0 = 0 := (start_sound capacity isn initialRto).next
  refine ⟨⟨Nat.zero_le _, ?_⟩, ?_, Nat.zero_le _⟩
  · simp [start, ofStream, zero]
  · simp [start, ofStream]

theorem step_counted (trace : Trace) (event : Event) (counted : trace.sender.Counted)
    (keeps : trace.KeepsCount event) :
    ∃ next, trace.step event = .ok next ∧ next.sender.Counted := by
  cases event with
  | write data => exact ⟨_, rfl, counted.uncounted _ _ _ _⟩
  | close => exact ⟨_, rfl, counted.uncounted _ _ _ _⟩
  | push => exact ⟨_, rfl, counted.push⟩
  | tick msSinceLastTick => exact ⟨_, rfl, counted.tick msSinceLastTick⟩
  | receive msg leftover =>
      obtain ⟨-, answers, above⟩ := keeps
      cases probing : trace.sender.zeroWindowProbe with
      | true =>
          obtain ⟨probes, one, sent⟩ := answers probing
          obtain ⟨next, received, nextCounted⟩ :=
            counted.receive_probing msg leftover probing probes one sent
          exact ⟨⟨next, trace.written⟩, by simp only [step, received], nextCounted⟩
      | false =>
          obtain ⟨next, received, nextCounted⟩ :=
            counted.receive_open msg leftover probing (above probing)
          exact ⟨⟨next, trace.written⟩, by simp only [step, received], nextCounted⟩

theorem sane_of_keepsCount (trace : Trace) (event : Event) (counted : trace.sender.Counted)
    (keeps : trace.KeepsCount event) : trace.Sane event := by
  cases event with
  | receive msg leftover =>
      obtain ⟨present, answers, above⟩ := keeps
      have inFlight := counted.seqFNum_eq
      refine ⟨present, ?_, ?_⟩
      · intro probing
        obtain ⟨probes, one, sent⟩ := answers probing
        exact ⟨probes, by omega⟩
      · intro quiet covers
        have larger := above quiet covers
        have sent := covers.1
        rw [(counted.counted_down sent larger).1]
        omega
  | write data => trivial
  | close => trivial
  | push => trivial
  | tick msSinceLastTick => trivial

theorem keepsCount_of_accounted (trace : Trace) (event : Event) (counted : trace.sender.Counted)
    (sane : trace.Sane event)
    (right : ∀ next, trace.step event = .ok next → next.sender.Accounted) :
    trace.KeepsCount event := by
  cases event with
  | receive msg leftover =>
      obtain ⟨present, answers, enough⟩ := sane
      have inFlight := counted.seqFNum_eq
      have below := counted.lastAckno_le
      refine ⟨present, ?_, ?_⟩
      · intro probing
        obtain ⟨probes, some⟩ := answers probing
        obtain ⟨next, received, hears, seqFNum, lastAckno, -⟩ :=
          TCPSender.receive_probing msg leftover probing probes
        have accounted := right ⟨next, trace.written⟩ (by simp only [step, received])
        have sent := accounted.lastAckno_le
        have left := accounted.seqFNum_eq
        have enough : (1 : UInt64) ≤ trace.sender.seqFNum := UInt64.le_iff_toNat_le.mpr some
        have one : (1 : UInt64).toNat = 1 := rfl
        simp only [seqFNum, lastAckno, hears.nextSeq] at sent left
        rw [UInt64.toNat_sub_of_le _ _ enough, one] at left
        exact ⟨probes, by omega, sent⟩
      · intro quiet covers
        obtain ⟨next, received, taken⟩ := TCPSender.receive_open msg leftover quiet
        obtain ⟨lastAckno, seqFNum⟩ := taken.covered covers
        have accounted := right ⟨next, trace.written⟩ (by simp only [step, received])
        have left := accounted.seqFNum_eq
        have down := enough quiet covers
        have above := ((counted.covers_iff _).mp covers).2
        simp only [seqFNum, lastAckno, taken.nextSeq] at left
        rw [UInt64.toNat_sub_of_le _ _ (UInt64.le_iff_toNat_le.mpr down), UInt64.toNat_sub,
          UInt64.toNat_ofNat', UInt64.toNat_ofNat'] at left
        omega
  | write data => trivial
  | close => trivial
  | push => trivial
  | tick msSinceLastTick => trivial

/-- `SeqFNum_` is right in every state and nothing undefined happens on the way, exactly when every
message of the run keeps the count. -/
theorem run_accounted_iff (capacity : Nat) (isn : Wrap32) (initialRto : UInt64)
    (events : List Event) :
    Runs.Permits step Sane (start capacity isn initialRto) events ∧
        Runs.Always step (fun trace => trace.sender.Accounted) (start capacity isn initialRto)
          events ↔
      Runs.Permits step KeepsCount (start capacity isn initialRto) events :=
  Runs.permits_and_always_iff step_counted (fun _ counted => counted.toAccounted) sane_of_keepsCount
    keepsCount_of_accounted events (start_counted capacity isn initialRto)

theorem closed_window_miscounts :
    ∃ last, Runs.run step (start 100 ⟨7⟩ 50)
        [.write [1, 2], .push, .receive ⟨some ⟨8⟩, 0, false⟩ ⟨0⟩, .push,
          .receive ⟨some ⟨8⟩, 0, false⟩ ⟨0⟩] = .ok last ∧
      last.sender.nextSeq = 3 ∧ last.sender.lastAckno = 1 ∧ last.sender.seqFNum = 1 ∧
      ¬ last.sender.Accounted := by
  have runs : ((Runs.run step (start 100 ⟨7⟩ 50)
      [.write [1, 2], .push, .receive ⟨some ⟨8⟩, 0, false⟩ ⟨0⟩, .push,
        .receive ⟨some ⟨8⟩, 0, false⟩ ⟨0⟩]).toOption.map fun last =>
          (last.sender.nextSeq, last.sender.lastAckno, last.sender.seqFNum)) = some (3, 1, 1) := by
    decide +kernel
  cases ran : Runs.run step (start 100 ⟨7⟩ 50)
      [.write [1, 2], .push, .receive ⟨some ⟨8⟩, 0, false⟩ ⟨0⟩, .push,
        .receive ⟨some ⟨8⟩, 0, false⟩ ⟨0⟩] with
  | error undefined =>
      rw [ran] at runs
      cases runs
  | ok last =>
      rw [ran] at runs
      simp only [Except.toOption, Option.map_some, Option.some.injEq, Prod.mk.injEq] at runs
      obtain ⟨nextSeq, lastAckno, seqFNum⟩ := runs
      refine ⟨last, rfl, nextSeq, lastAckno, seqFNum, ?_⟩
      intro accounted
      have wrong := accounted.seqFNum_eq
      rw [nextSeq, lastAckno, seqFNum] at wrong
      revert wrong
      decide

end Trace

end TCPSender

end LearnInternet.Tcp
