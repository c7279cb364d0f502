import LearnInternet.Tcp.Held

/-!
Flow control: how many sequence numbers are in flight after `push`, against the window of the latest
message from the receiver.
-/

namespace LearnInternet.Tcp

namespace TCPSender

variable {sender next : TCPSender} {acked window : Nat}

/-! What a message takes of the window. -/

structure Room (sender : TCPSender) (acked window : Nat) : Prop where
  rwSize_eq : sender.rwSize.toNat = window
  counted : sender.nextSeq - acked ≤ sender.seqFNum.toNat
  fits : sender.seqFNum.toNat ≤ window

theorem space_toNat (fits : sender.seqFNum.toNat ≤ sender.rwSize.toNat) :
    sender.space.toNat = sender.rwSize.toNat - sender.seqFNum.toNat :=
  UInt64.toNat_sub_of_le _ _ (UInt64.le_iff_toNat_le.mpr fits)

theorem segment_le_of_bare {fin : Bool} (ends : fin = true → sender.Ends)
    (bare : (sender.segment false).sequenceLength ≤ sender.space.toNat) :
    (sender.segment fin).sequenceLength ≤ sender.space.toNat := by
  cases fin with
  | false => exact bare
  | true =>
      have room := (ends rfl).room
      have small := sender.space.toNat_lt
      have one : (sender.segment true).sequenceLength =
          (sender.segment false).sequenceLength + 1 := rfl
      rw [UInt64.lt_iff_toNat_lt, UInt64.toNat_sub, UInt64.toNat_ofNat'] at room
      simp only [UInt64.reduceToNat] at room
      omega

theorem segment_bare_le (syned : sender.isSyned = true) :
    (sender.segment false).sequenceLength ≤ sender.space.toNat := by
  have taken : sender.requested ≤ sender.space.toNat := by
    have free : sender.space - UInt64.ofNat 0 = sender.space := by simp
    simp only [requested, request, syned, Bool.not_true, Bool.toNat_false, free]
    split
    · exact Nat.le_refl _
    · split
      · rename_i long
        exact Nat.le_of_lt (UInt64.lt_iff_toNat_lt.mp long)
      · exact Nat.zero_le _
  simp only [TCPSenderMessage.sequenceLength, segment, syned, List.length_take, Bool.not_true,
    Bool.toNat_false]
  omega

theorem segment_syn_le (unsyned : sender.isSyned = false) (fresh : sender.seqFNum = 0)
    (some : 0 < sender.rwSize.toNat)
    (short : 2 ≤ sender.rwSize.toNat → sender.rwSize.toNat ≤ ByteStream.readBytesSize →
      sender.input.bytesBuffered < sender.rwSize.toNat) :
    (sender.segment false).sequenceLength ≤ sender.space.toNat := by
  have all : sender.space.toNat = sender.rwSize.toNat := by
    rw [space_toNat (by simp [fresh]), fresh]
    rfl
  have free : (sender.space - UInt64.ofNat 1).toNat = sender.rwSize.toNat - 1 := by
    rw [← all]
    exact UInt64.toNat_sub_of_le _ _ (UInt64.le_iff_toNat_le.mpr (by rw [all]; exact some))
  have taken : sender.requested = 0 ∨ 2 ≤ sender.rwSize.toNat := by
    simp only [requested, request, unsyned, Bool.not_false, Bool.toNat_true,
      UInt64.lt_iff_toNat_lt, UInt64.le_iff_toNat_le, free, UInt64.reduceToNat]
    split
    · omega
    · split
      · omega
      · exact .inl rfl
  have length : (sender.segment false).sequenceLength =
      1 + (sender.input.peek.take sender.requested).length := by
    simp [TCPSenderMessage.sequenceLength, segment, unsyned]
  rw [length, all, ByteStream.peek_eq_take, List.length_take, List.length_take]
  rcases taken with none | long
  · omega
  · have buffered := short long
    simp only [ByteStream.bytesBuffered, ByteStream.readBytesSize] at buffered ⊢
    omega

theorem Room.pushSimpleMode (room : sender.Room acked window)
    (bare : (sender.segment false).sequenceLength ≤ sender.space.toNat) :
    sender.pushSimpleMode.Room acked window := by
  obtain ⟨fin, ends, pushed⟩ := sender.pushSimpleMode_eq
  have advances := sender.launch_advances fin
  rw [← pushed] at advances
  have length := segment_le_of_bare ends bare
  have fits := room.fits
  have counted := room.counted
  have rwSize := room.rwSize_eq
  have small := sender.rwSize.toNat_lt
  rw [space_toNat (by omega)] at length
  have sum : sender.pushSimpleMode.seqFNum.toNat =
      sender.seqFNum.toNat + (sender.segment fin).sequenceLength := by
    rw [advances.seqFNum, UInt64.toNat_add, UInt64.toNat_ofNat']
    omega
  constructor
  · rw [advances.rwSize, rwSize]
  · rw [sum, advances.nextSeq]
    omega
  · omega

theorem Room.pushSyned (room : sender.Room acked window) (syned : sender.isSyned = true) :
    sender.pushSyned.Room acked window := by
  have pushed : (pushLoop sender.input.bytesBuffered sender).Room acked window ∧
      (pushLoop sender.input.bytesBuffered sender).isSyned = true := by
    apply pushLoop_induction (motive := fun sender =>
      sender.Room acked window ∧ sender.isSyned = true) _ _ ⟨room, syned⟩
    rintro sender ⟨room, syned⟩ -
    exact ⟨room.pushSimpleMode (segment_bare_le syned), sender.pushSimpleMode_isSyned⟩
  simp only [TCPSender.pushSyned]
  split
  · exact pushed.1.pushSimpleMode (segment_bare_le pushed.2)
  · exact pushed.1

/-! Nothing is sent. -/

theorem pushLoop_stops (stops : sender.hasToPush = false) (rounds : Nat) :
    pushLoop rounds sender = sender := by
  cases rounds with
  | zero => rfl
  | succ rounds => simp [pushLoop, stops]

theorem pushSyned_stops (stops : sender.hasToPush = false)
    (unended : sender.isFined = true ∨ sender.input.isFinished = false) :
    sender.pushSyned = sender := by
  simp only [pushSyned, pushLoop_stops stops]
  apply if_neg
  rintro ⟨unfinned, -, finished, -⟩
  cases unended with
  | inl fined =>
      rw [fined] at unfinned
      cases unfinned
  | inr more =>
      rw [more] at finished
      cases finished

def Spent (sender : TCPSender) : Prop :=
  sender.isFined = true ∨ sender.input.bytesBuffered = 0 ∧ sender.input.close = false

instance (sender : TCPSender) : Decidable sender.Spent := inferInstanceAs (Decidable (_ ∨ _))

theorem Spent.pushSyned (spent : sender.Spent) : sender.pushSyned = sender := by
  apply pushSyned_stops
  · rw [Bool.eq_false_iff]
    intro pushes
    obtain ⟨-, unfinned, buffered⟩ := sender.hasToPush_iff.mp pushes
    rcases spent with fined | ⟨empty, -⟩
    · rw [fined] at unfinned
      cases unfinned
    · omega
  · rcases spent with fined | ⟨-, unclosed⟩
    · exact .inl fined
    · right
      simp [ByteStream.isFinished, unclosed]

theorem hasToPush_of_over (small : sender.seqFNum.toNat < 2 ^ 63)
    (exceeds : sender.rwSize.toNat < sender.seqFNum.toNat) : sender.hasToPush = false := by
  have negative : positiveInt64 sender.space = false := by
    simp only [positiveInt64, space, decide_eq_false_iff_not, UInt64.lt_iff_toNat_lt,
      UInt64.toNat_sub]
    simp only [UInt64.reduceToNat]
    omega
  simp [hasToPush, negative]

/-! What `push` sends. -/

/-- Outside of the probe: the count is not too low, as an `int64_t`, and where it is above the window
no `FIN` is left to be sent. A `SYN` without a window goes alone; beside one of at most 128 it has
less to send than the window. -/
def SimpleFits (sender : TCPSender) (acked : Nat) : Prop :=
  (sender.isSyned = true →
    sender.Spent ∨
      sender.nextSeq - acked ≤ sender.seqFNum.toNat ∧ sender.seqFNum.toNat < 2 ^ 63 ∧
        (sender.rwSize.toNat < sender.seqFNum.toNat →
          sender.isFined = true ∨ sender.input.isFinished = false)) ∧
  (sender.isSyned = false →
    (sender.rwSize.toNat = 0 → sender.input.bytesBuffered = 0 ∧ sender.input.close = false) ∧
      (2 ≤ sender.rwSize.toNat → sender.rwSize.toNat ≤ ByteStream.readBytesSize →
        sender.input.bytesBuffered < sender.rwSize.toNat))

/-- A probe with a new number needs everything acknowledged before, one out of the window all but
one. -/
def ProbeFits (sender : TCPSender) (acked : Nat) : Prop :=
  (sender.window = [] → sender.nextSeq ≤ acked ∨
      sender.isSyned = true ∧ sender.input.bytesBuffered = 0 ∧
        (sender.isFined = true ∨ sender.input.close = false)) ∧
    (sender.window ≠ [] → sender.nextSeq ≤ acked + 1)

def Fits (sender : TCPSender) (acked : Nat) : Prop :=
  (sender.zeroWindowProbe = false → sender.SimpleFits acked) ∧
    (sender.zeroWindowProbe = true ∧ sender.isZeroWindowProbing = false →
      sender.ProbeFits acked)

instance (sender : TCPSender) (acked : Nat) : Decidable (sender.SimpleFits acked) :=
  inferInstanceAs (Decidable (_ ∧ _))

instance (sender : TCPSender) (acked : Nat) : Decidable (sender.ProbeFits acked) :=
  inferInstanceAs (Decidable (_ ∧ _))

instance (sender : TCPSender) (acked : Nat) : Decidable (sender.Fits acked) :=
  inferInstanceAs (Decidable (_ ∧ _))

theorem pushSimpleMode_syn (unsyned : sender.isSyned = false)
    (empty : sender.input.bytesBuffered = 0) (unclosed : sender.input.close = false) :
    sender.pushSimpleMode.nextSeq = sender.nextSeq + 1 ∧ sender.pushSimpleMode.Spent := by
  have nothing : sender.input.buffer = [] := List.eq_nil_of_length_eq_zero empty
  constructor
  · obtain ⟨fin, ends, pushed⟩ := sender.pushSimpleMode_eq
    have unmarked : fin = false := by
      rw [Bool.eq_false_iff]
      intro marked
      have closed := (ends marked).closed
      rw [unclosed] at closed
      cases closed
    have one : (sender.segment fin).sequenceLength = 1 := by
      simp [TCPSenderMessage.sequenceLength, segment, ByteStream.peek_eq_take, nothing, unsyned,
        unmarked]
    rw [pushed, (sender.launch_advances fin).nextSeq, one]
  · right
    rw [pushSimpleMode_input]
    refine ⟨?_, unclosed⟩
    simp [ByteStream.bytesBuffered, ByteStream.pop, nothing]

theorem Room.le (room : sender.Room acked window) : sender.nextSeq - acked ≤ max 1 window :=
  Nat.le_trans (Nat.le_trans room.counted room.fits) (Nat.le_max_right 1 window)

theorem pushSimple_fits
    (fresh : sender.isSyned = false → sender.nextSeq = 0 ∧ sender.seqFNum = 0)
    (fits : sender.SimpleFits acked) :
    sender.pushSimple = sender ∨
      sender.pushSimple.nextSeq - acked ≤ max 1 sender.rwSize.toNat := by
  simp only [pushSimple]
  split
  · rename_i syned
    rcases fits.1 syned with spent | ⟨counted, small, unended⟩
    · exact .inl spent.pushSyned
    · by_cases exceeds : sender.rwSize.toNat < sender.seqFNum.toNat
      · exact .inl (pushSyned_stops (hasToPush_of_over small exceeds) (unended exceeds))
      · have room : sender.Room acked sender.rwSize.toNat :=
          ⟨rfl, counted, Nat.le_of_not_lt exceeds⟩
        exact .inr (room.pushSyned syned).le
  · rename_i unsyned
    rw [Bool.not_eq_true] at unsyned
    obtain ⟨alone, short⟩ := fits.2 unsyned
    obtain ⟨zero, none⟩ := fresh unsyned
    right
    by_cases shut : sender.rwSize.toNat = 0
    · obtain ⟨empty, unclosed⟩ := alone shut
      obtain ⟨nextSeq, spent⟩ := pushSimpleMode_syn unsyned empty unclosed
      rw [spent.pushSyned, nextSeq, zero]
      omega
    · have room : sender.Room acked sender.rwSize.toNat := by
        refine ⟨rfl, by rw [zero]; omega, ?_⟩
        rw [none]
        exact Nat.zero_le _
      have bare := segment_syn_le unsyned none (Nat.pos_of_ne_zero shut) short
      exact ((room.pushSimpleMode bare).pushSyned sender.pushSimpleMode_isSyned).le

theorem pushZwpMode_fits (fits : sender.ProbeFits acked) :
    sender.pushZwpMode = sender ∨ sender.pushZwpMode.nextSeq - acked ≤ 1 := by
  cases window : sender.window with
  | cons first rest =>
      have few := fits.2 (by simp [window])
      right
      rw [pushZwpMode_of_cons window]
      simp only [probe, transmit]
      omega
  | nil =>
      rcases fits.1 window with all | ⟨syned, empty, last⟩
      · rcases pushZwpMode_of_nil window with stays | ⟨syn, count, fin, -, probed⟩
        · exact .inl stays
        · right
          rw [probed]
          simp only [probe, transmit]
          omega
      · left
        apply pushZwpMode_of_nothing window
        rcases last with fined | unclosed
        · simp [cutStream, syned, empty, fined]
        · simp [cutStream, syned, empty, ByteStream.isFinished, unclosed]

theorem push_fits (fresh : sender.isSyned = false → sender.nextSeq = 0 ∧ sender.seqFNum = 0)
    (fits : sender.Fits acked) :
    sender.push = sender ∨ sender.push.nextSeq - acked ≤
      max 1 (if sender.zeroWindowProbe then 0 else sender.rwSize.toNat) := by
  simp only [push]
  split
  · rename_i probes
    rw [if_pos probes.1]
    exact pushZwpMode_fits (fits.2 probes)
  · split
    · rename_i usual
      rw [if_neg (by simp [usual])]
      exact pushSimple_fits fresh (fits.1 usual)
    · exact .inl rfl

/-! The window the sender works with is the one of the latest message. -/

theorem pushSimpleMode_window (sender : TCPSender) :
    sender.pushSimpleMode.rwSize = sender.rwSize ∧
      sender.pushSimpleMode.zeroWindowProbe = sender.zeroWindowProbe := by
  obtain ⟨fin, -, pushed⟩ := sender.pushSimpleMode_eq
  rw [pushed, launch]
  split
  · exact ⟨rfl, rfl⟩
  · exact ⟨rfl, rfl⟩

theorem pushSyned_window (sender : TCPSender) :
    sender.pushSyned.rwSize = sender.rwSize ∧
      sender.pushSyned.zeroWindowProbe = sender.zeroWindowProbe := by
  have pushed := pushLoop_induction (motive := fun next =>
    next.rwSize = sender.rwSize ∧ next.zeroWindowProbe = sender.zeroWindowProbe)
      (fun next same _ => ⟨next.pushSimpleMode_window.1.trans same.1,
        next.pushSimpleMode_window.2.trans same.2⟩) sender.input.bytesBuffered ⟨rfl, rfl⟩
  simp only [pushSyned]
  split
  · have last := (pushLoop sender.input.bytesBuffered sender).pushSimpleMode_window
    exact ⟨last.1.trans pushed.1, last.2.trans pushed.2⟩
  · exact pushed

theorem pushSyned_isSyned (syned : sender.isSyned = true) : sender.pushSyned.isSyned = true := by
  simp only [pushSyned]
  split
  · exact pushSimpleMode_isSyned _
  · exact pushLoop_isSyned syned _

theorem pushSimple_window (sender : TCPSender) :
    sender.pushSimple.rwSize = sender.rwSize ∧
      sender.pushSimple.zeroWindowProbe = sender.zeroWindowProbe ∧
      sender.pushSimple.isSyned = true := by
  simp only [pushSimple]
  split
  · rename_i syned
    have pushed := sender.pushSyned_window
    exact ⟨pushed.1, pushed.2, pushSyned_isSyned syned⟩
  · have pushed := sender.pushSimpleMode.pushSyned_window
    have first := sender.pushSimpleMode_window
    exact ⟨pushed.1.trans first.1, pushed.2.trans first.2,
      pushSyned_isSyned sender.pushSimpleMode_isSyned⟩

theorem Cuts.syned {syn fin : Bool} {count : Nat} (cuts : sender.Cuts syn count fin) :
    (sender.isSyned || syn) = true := by
  by_contra unsyned
  rw [Bool.not_eq_true, Bool.or_eq_false_iff] at unsyned
  obtain ⟨before, unmarked⟩ := unsyned
  have none : count = 0 := by
    by_contra some
    have syned := (cuts.taken some).1
    rw [before] at syned
    cases syned
  have unended : fin = false := by
    rw [Bool.eq_false_iff]
    intro marked
    have syned := (cuts.finOnce marked).2
    rw [before] at syned
    cases syned
  have one := cuts.one
  rw [unmarked, none, unended] at one
  simp [cutMessage, TCPSenderMessage.sequenceLength] at one

theorem pushZwpMode_window (sender : TCPSender) :
    sender.pushZwpMode = sender ∨
      sender.pushZwpMode.rwSize = sender.rwSize ∧
        sender.pushZwpMode.zeroWindowProbe = sender.zeroWindowProbe ∧
        (sender.pushZwpMode.isSyned = false →
          sender.isSyned = false ∧ sender.window ≠ []) := by
  cases window : sender.window with
  | cons first rest =>
      right
      rw [pushZwpMode_of_cons window]
      exact ⟨rfl, rfl, fun unsyned => ⟨unsyned, List.cons_ne_nil first rest⟩⟩
  | nil =>
      rcases pushZwpMode_of_nil window with stays | ⟨syn, count, fin, cuts, probed⟩
      · exact .inl stays
      · right
        rw [probed]
        refine ⟨rfl, rfl, ?_⟩
        intro unsyned
        have syned := cuts.syned
        simp only [probe, transmit, cutSender] at unsyned
        rw [unsyned] at syned
        cases syned

theorem push_window (fresh : sender.isSyned = false → sender.window = []) :
    sender.push = sender ∨
      sender.push.rwSize = sender.rwSize ∧
        sender.push.zeroWindowProbe = sender.zeroWindowProbe ∧ sender.push.isSyned = true := by
  simp only [push]
  split
  · rcases sender.pushZwpMode_window with stays | ⟨rwSize, mode, syned⟩
    · exact .inl stays
    · refine .inr ⟨rwSize, mode, ?_⟩
      by_contra unsyned
      obtain ⟨before, some⟩ := syned (by simpa using unsyned)
      exact some (fresh before)
  · split
    · exact .inr sender.pushSimple_window
    · exact .inl rfl

theorem takeAckno_window (sender : TCPSender) (ackno : Nat) :
    (sender.takeAckno ackno).rwSize = sender.rwSize ∧
      (sender.takeAckno ackno).zeroWindowProbe = sender.zeroWindowProbe := by
  simp only [takeAckno]
  split
  · exact ⟨rfl, rfl⟩
  · split
    · exact ⟨rfl, rfl⟩
    · exact ⟨rfl, rfl⟩

theorem receive_window {msg : TCPReceiverMessage} {leftover : Wrap32}
    (received : sender.receive msg leftover = .ok next) :
    next.zeroWindowProbe = decide (msg.windowSize = 0) ∧
      (msg.windowSize ≠ 0 → next.rwSize = msg.windowSize.toUInt64) := by
  cases mode : sender.zeroWindowProbe with
  | true =>
      obtain ⟨-, rfl⟩ := eq_answered mode received
      exact ⟨rfl, fun wide => if_neg wide⟩
  | false =>
      rw [receive_quiet msg leftover mode] at received
      cases received
      have window := (sender.hear msg).takeAckno_window (sender.acknowledged msg leftover)
      exact ⟨window.2, fun _ => window.1⟩

def Fresh (sender : TCPSender) : Prop :=
  sender.isSyned = false → sender.nextSeq = 0 ∧ sender.seqFNum = 0 ∧ sender.held = []

theorem Fresh.receive (fresh : sender.Fresh) {msg : TCPReceiverMessage} {leftover : Wrap32}
    (received : sender.receive msg leftover = .ok next) : next.Fresh := by
  intro unsyned
  cases mode : sender.zeroWindowProbe with
  | true =>
      obtain ⟨probes, rfl⟩ := eq_answered mode received
      obtain ⟨-, -, empty⟩ := fresh unsyned
      exact absurd (List.append_eq_nil_iff.mp empty).2 probes
  | false =>
      obtain ⟨made, madeReceived, taken⟩ := receive_open msg leftover mode
      rw [received] at madeReceived
      cases madeReceived
      obtain ⟨zero, none, empty⟩ := fresh (taken.isSyned ▸ unsyned)
      have stale : ¬ sender.Covers (sender.acknowledged msg leftover) := by
        rintro ⟨sent, above⟩
        rw [zero] at sent above
        rw [Nat.le_zero.mp sent, none] at above
        revert above
        decide
      refine ⟨taken.nextSeq.trans zero, (taken.ignored stale).2.trans none, ?_⟩
      rw [receive_quiet msg leftover mode] at received
      cases received
      rcases sender.hear_held msg (sender.acknowledged msg leftover) with same | ⟨-, left⟩
      · exact same.trans empty
      · obtain ⟨window, probes⟩ := List.append_eq_nil_iff.mp empty
        rw [left, probes, List.append_nil, dropAcknowledged, window]
        rfl

theorem Fresh.push (fresh : sender.Fresh) : sender.push.Fresh := by
  have empty : sender.isSyned = false → sender.window = [] := fun unsyned =>
    (List.append_eq_nil_iff.mp (fresh unsyned).2.2).1
  rcases push_window empty with stays | ⟨-, -, syned⟩
  · rw [stays]
    exact fresh
  · intro unsyned
    rw [syned] at unsyned
    cases unsyned

namespace Flow

structure Informed (flow : Flow) : Prop where
  closed : flow.trace.sender.zeroWindowProbe = true → flow.latest = some 0
  opened : flow.trace.sender.zeroWindowProbe = false →
    flow.trace.sender.rwSize.toNat = (flow.latest.getD 0).toNat
  fresh : flow.trace.sender.Fresh

/-- As many sequence numbers as may be in flight: one before any message from the receiver. -/
def allowance (flow : Flow) : Nat := max 1 (flow.latest.elim 1 UInt16.toNat)

def Respects (flow : Flow) : Event → Flow → Prop
  | .push, next =>
      next.trace.sender.transmitted ≠ flow.trace.sender.transmitted →
        next.trace.sender.nextSeq - next.acked ≤ next.allowance
  | _, _ => True

def FitsWindow (flow : Flow) : Event → Prop
  | .push => flow.trace.sender.Fits flow.acked
  | _ => True

instance (flow : Flow) (event : Event) : Decidable (flow.FitsWindow event) :=
  match event with
  | .write _ => .isTrue trivial
  | .close => .isTrue trivial
  | .push => inferInstanceAs (Decidable (flow.trace.sender.Fits flow.acked))
  | .receive _ _ => .isTrue trivial
  | .tick _ => .isTrue trivial

theorem start_informed (capacity : Nat) (isn : Wrap32) (initialRto : UInt64) :
    Informed (start capacity isn initialRto) := by
  constructor
  · intro probing
    cases probing
  · intro _
    rfl
  · intro unsyned
    exact ⟨(Trace.start_sound capacity isn initialRto).streamed.fresh unsyned, rfl, rfl⟩

theorem Informed.window_le {flow : Flow} (informed : flow.Informed) :
    max 1 (if flow.trace.sender.zeroWindowProbe then 0 else flow.trace.sender.rwSize.toNat) ≤
      flow.allowance := by
  rw [allowance]
  split
  · exact Nat.max_le.mpr ⟨Nat.le_max_left 1 _, Nat.zero_le _⟩
  · rename_i quiet
    rw [informed.opened (by simpa using quiet)]
    cases flow.latest with
    | none => decide
    | some window => exact Nat.le_refl _

theorem push_informed {flow : Flow} (informed : flow.Informed) :
    Informed ⟨{ flow.trace with sender := flow.trace.sender.push }, flow.acked, flow.latest⟩ := by
  have empty : flow.trace.sender.isSyned = false → flow.trace.sender.window = [] :=
    fun unsyned => (List.append_eq_nil_iff.mp (informed.fresh unsyned).2.2).1
  have window : flow.trace.sender.push.rwSize = flow.trace.sender.rwSize ∧
      flow.trace.sender.push.zeroWindowProbe = flow.trace.sender.zeroWindowProbe := by
    rcases push_window empty with stays | ⟨rwSize, mode, -⟩
    · rw [stays]
      exact ⟨rfl, rfl⟩
    · exact ⟨rwSize, mode⟩
  constructor
  · intro probing
    exact informed.closed (window.2 ▸ probing)
  · intro quiet
    rw [window.1]
    exact informed.opened (window.2 ▸ quiet)
  · exact informed.fresh.push

theorem push_respects {flow : Flow} (informed : flow.Informed)
    (fits : flow.trace.sender.Fits flow.acked) :
    flow.Respects .push
      ⟨{ flow.trace with sender := flow.trace.sender.push }, flow.acked, flow.latest⟩ := by
  intro sends
  have fresh : flow.trace.sender.isSyned = false →
      flow.trace.sender.nextSeq = 0 ∧ flow.trace.sender.seqFNum = 0 := fun unsyned =>
    ⟨(informed.fresh unsyned).1, (informed.fresh unsyned).2.1⟩
  rcases push_fits fresh fits with stays | bound
  · exact absurd (congrArg TCPSender.transmitted stays) sends
  · exact Nat.le_trans bound informed.window_le

theorem step_respects (flow : Flow) (event : Event) (next : Flow) (informed : flow.Informed)
    (fits : flow.FitsWindow event) (stepped : flow.step event = .ok next) :
    next.Informed ∧ flow.Respects event next := by
  cases event with
  | write data =>
      cases stepped
      exact ⟨⟨informed.closed, informed.opened, informed.fresh⟩, trivial⟩
  | close =>
      cases stepped
      exact ⟨⟨informed.closed, informed.opened, informed.fresh⟩, trivial⟩
  | push =>
      cases stepped
      exact ⟨push_informed informed, push_respects informed fits⟩
  | receive msg leftover =>
      cases received : flow.trace.sender.receive msg leftover with
      | error undefined =>
          simp only [step, Trace.step, received] at stepped
          cases stepped
      | ok sender =>
          simp only [step, Trace.step, received] at stepped
          cases stepped
          obtain ⟨mode, rwSize⟩ := receive_window received
          refine ⟨⟨?_, ?_, informed.fresh.receive received⟩, trivial⟩
          · intro probing
            rw [mode, decide_eq_true_eq] at probing
            exact congrArg some probing
          · intro quiet
            rw [mode, decide_eq_false_iff_not] at quiet
            rw [rwSize quiet, UInt16.toNat_toUInt64]
            rfl
  | tick msSinceLastTick =>
      cases stepped
      obtain ⟨crt, timer, transmitted, ticked⟩ := flow.trace.sender.tick_eq msSinceLastTick
      refine ⟨?_, trivial⟩
      rw [ticked]
      exact ⟨informed.closed, informed.opened, informed.fresh⟩

/-- No acknowledgment arrives in the probe mode while no probe is out. -/
def AwaitsProbe (flow : Flow) : Event → Prop
  | .receive _ _ =>
      flow.trace.sender.zeroWindowProbe = true → flow.trace.sender.zeroWindowProbeMsg ≠ []
  | _ => True

instance (flow : Flow) (event : Event) : Decidable (flow.AwaitsProbe event) :=
  match event with
  | .write _ => .isTrue trivial
  | .close => .isTrue trivial
  | .push => .isTrue trivial
  | .receive _ _ => inferInstanceAs (Decidable (_ → _))
  | .tick _ => .isTrue trivial

/-- Nothing but `pop_back` on an empty deque is undefined. -/
theorem step_defined_iff (flow : Flow) (event : Event) :
    (∃ next, flow.step event = .ok next) ↔ flow.AwaitsProbe event := by
  cases event with
  | receive msg leftover =>
      constructor
      · rintro ⟨next, stepped⟩ probing none
        have undefined := receive_undefined msg leftover probing none
        simp only [step, Trace.step, undefined] at stepped
        cases stepped
      · intro probes
        obtain ⟨next, received, -⟩ := receive_moves msg leftover probes
        simp only [step, Trace.step, received]
        exact ⟨_, rfl⟩
  | _ => exact iff_of_true ⟨_, rfl⟩ trivial

theorem run_respects (capacity : Nat) (isn : Wrap32) (initialRto : UInt64) (events : List Event)
    (fits : Runs.Permits step FitsWindow (start capacity isn initialRto) events) :
    Runs.EachStep step Respects (start capacity isn initialRto) events ∧
      ((∃ last, Runs.run step (start capacity isn initialRto) events = .ok last) ↔
        Runs.Permits step AwaitsProbe (start capacity isn initialRto) events) :=
  ⟨Runs.eachStep_of_keeps step_respects events (start_informed capacity isn initialRto) fits,
    Runs.run_ok_iff_permits step_defined_iff events⟩

def closing : List Event :=
  [.push, .write [1, 2, 3], .receive ⟨some ⟨8⟩, 2, false⟩ ⟨0⟩, .push,
    .receive ⟨some ⟨10⟩, 0, false⟩ ⟨0⟩, .push, .receive ⟨some ⟨11⟩, 1, false⟩ ⟨0⟩, .close, .push,
    .tick 50, .receive ⟨some ⟨12⟩, 4, false⟩ ⟨0⟩, .push]

theorem run_respects_closing :
    Runs.EachStep step Respects (start 100 ⟨7⟩ 50) closing ∧
      ∃ last, Runs.run step (start 100 ⟨7⟩ 50) closing = .ok last := by
  obtain ⟨respects, defined⟩ := run_respects 100 ⟨7⟩ 50 closing (by decide +kernel)
  exact ⟨respects, defined.mpr (by decide +kernel)⟩

theorem syn_exceeds_window :
    ¬ Runs.EachStep step Respects (start 100 ⟨7⟩ 50) [.write [1, 2, 3], .push] := by
  intro respects
  rw [Runs.eachStep_cons rfl, Runs.eachStep_cons rfl] at respects
  have bound := respects.2.1 (by decide +kernel)
  revert bound
  decide +kernel

end Flow

end TCPSender

end LearnInternet.Tcp
