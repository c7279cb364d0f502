import LearnInternet.Tcp.Reassembly
import LearnInternet.Tcp.Receiver

/-!
Runs of the `TCPReceiver` over the segments of one stream. The receiver counts every `FIN` and
decides that the stream has ended when exactly one is counted while nothing is cached; `Orderly`
says when this is right.
-/

namespace LearnInternet.Tcp

open Spans

/-- A segment cut from the stream; `piece.isLast` is its `FIN`. -/
structure Segment (stream : Bytes) where
  piece : Piece stream
  syn : Bool
  synFirst : syn = true → piece.first = 0

namespace Segment

variable {stream : Bytes}

def absolute (segment : Segment stream) : Nat := if segment.syn then 0 else 1 + segment.piece.first

def message (isn : Wrap32) (segment : Segment stream) : TCPSenderMessage where
  seqno := Wrap32.wrap segment.absolute isn
  syn := segment.syn
  payload := segment.piece.data
  fin := segment.piece.isLast
  rst := false

end Segment

namespace TCPReceiver

variable {stream : Bytes}

/-- What a receiver has been sent: whether a `SYN` was among it, the positions inside the window of
their time and the number of `FIN`s since that `SYN`, and whether there was any `FIN`. -/
structure Heard where
  connected : Bool
  given : Finset Nat
  fins : Nat
  finSeen : Bool

namespace Heard

def start : Heard := ⟨false, ∅, 0, false⟩

def hear (heard : Heard) (segment : Segment stream) (limit : Nat) : Heard :=
  let finSeen := heard.finSeen || segment.piece.isLast
  if heard.connected || segment.syn then
    { connected := true
      given := heard.given ∪ segment.piece.span.positions ∩ Finset.range limit
      fins := if segment.piece.isLast then heard.fins + 1 else heard.fins
      finSeen }
  else { heard with finSeen }

def Whole (stream : Bytes) (heard : Heard) : Prop := Finset.range stream.length ⊆ heard.given

def Gapless (heard : Heard) : Prop := heard.given = Finset.range heard.given.card

def Done (stream : Bytes) (heard : Heard) : Prop :=
  heard.connected = true ∧ heard.Whole stream ∧ heard.finSeen = true

/-- As long as one `FIN` is counted and bytes are missing, there are bytes behind a missing one; and
the segment that completes the stream and its `FIN` leaves one `FIN` counted. -/
def Orderly (stream : Bytes) (before after : Heard) : Prop :=
  (after.connected = true → after.fins % 2 ^ 32 = 1 → after.Gapless → after.Whole stream) ∧
    (after.Done stream → ¬before.Done stream → after.fins % 2 ^ 32 = 1)

instance (stream : Bytes) (heard : Heard) : Decidable (heard.Whole stream) :=
  inferInstanceAs (Decidable (Finset.range stream.length ⊆ heard.given))

instance (heard : Heard) : Decidable heard.Gapless :=
  inferInstanceAs (Decidable (heard.given = Finset.range heard.given.card))

instance (stream : Bytes) (heard : Heard) : Decidable (heard.Done stream) :=
  inferInstanceAs (Decidable (_ ∧ _ ∧ _))

instance (stream : Bytes) (before after : Heard) : Decidable (before.Orderly stream after) :=
  inferInstanceAs (Decidable ((_ → _ → _ → _) ∧ (_ → _ → _)))

end Heard

def Counts (receiver : TCPReceiver) (fins : Nat) : Prop :=
  receiver.fin = 0 ∧ receiver.needFin = UInt32.ofNat fins ∨ receiver.fin = 1

inductive Event (stream : Bytes) where
  | receive (segment : Segment stream)
  | pop (len : Nat)

structure Trace where
  receiver : TCPReceiver
  popped : Bytes
  heard : Heard

namespace Trace

def start (capacity : Nat) : Trace :=
  ⟨ofReassembler (Reassembler.ofStream (ByteStream.ofCapacity capacity)), [], Heard.start⟩

def output (trace : Trace) : ByteStream := trace.receiver.reassembler.output

def step (isn : Wrap32) (trace : Trace) : Event stream → Except Fault Trace
  | .receive segment =>
      match trace.receiver.receive (segment.message isn) with
      | .error fault => .error fault
      | .ok receiver =>
          .ok ⟨receiver, trace.popped,
            trace.heard.hear segment (trace.output.windowEnd segment.piece.first)⟩
  | .pop len =>
      let reassembler := { trace.receiver.reassembler with output := trace.output.pop len }
      .ok ⟨{ trace.receiver with reassembler }, trace.popped ++ trace.output.buffer.take len,
        trace.heard⟩

def Near (trace : Trace) : Event stream → Prop
  | .receive segment =>
      trace.receiver.checkpoint ≤ segment.absolute + 2 ^ 31 ∧
        segment.absolute < trace.receiver.checkpoint + 2 ^ 31
  | .pop _ => True

/-- The acknowledged number covers the `SYN`, the bytes pushed and, when nothing is missing, the
`FIN`. -/
def AckCorrect (stream : Bytes) (isn : Wrap32) (trace : Trace) : Prop :=
  ∀ ackno, trace.receiver.send.ackno = some ackno →
    ackno = Wrap32.wrap (1 + trace.output.bytesPushed +
      if trace.output.bytesPushed = stream.length ∧ trace.heard.finSeen = true then 1 else 0) isn

def OrderlyStep (stream : Bytes) (trace : Trace) (event : Event stream) (next : Trace) : Prop :=
  match event with
  | .receive _ => trace.heard.Orderly stream next.heard
  | .pop _ => True

structure Follows (stream : Bytes) (isn : Wrap32) (capacity : Nat) (trace : Trace) : Prop where
  bytes : Reassembler.Trace.Follows stream capacity
    ⟨trace.receiver.reassembler, trace.popped, trace.heard.given⟩
  checkpoint_eq : trace.receiver.checkpoint = trace.output.bytesPushed
  syn_eq : trace.receiver.syn = if trace.heard.connected then 1 else 0
  synBefore_eq : trace.receiver.synBefore = if trace.heard.connected then 1 else 0
  zeroPoint_eq : trace.heard.connected = true → trace.receiver.zeroPoint = isn
  counts : Counts trace.receiver trace.heard.fins
  silent : trace.heard.connected = false → trace.receiver.fin = 0
  finSeen_of_fins : 0 < trace.heard.fins → trace.heard.finSeen = true

variable {isn : Wrap32} {capacity : Nat} {trace : Trace}

theorem start_follows (stream : Bytes) (isn : Wrap32) (capacity : Nat) :
    (start capacity).Follows stream isn capacity where
  bytes := Reassembler.Trace.start_follows stream capacity
  checkpoint_eq := rfl
  syn_eq := rfl
  synBefore_eq := rfl
  zeroPoint_eq := by simp [start, Heard.start]
  counts := Or.inl ⟨rfl, rfl⟩
  silent := fun _ => rfl
  finSeen_of_fins := by simp [start, Heard.start]

theorem Follows.whole_iff (follows : trace.Follows stream isn capacity) :
    trace.heard.Whole stream ↔ trace.output.bytesPushed = stream.length := by
  have prefixed := follows.bytes.range_subset_iff stream.length
  have bound := follows.bytes.pushed_eq.2
  simp only [output, Heard.Whole] at prefixed bound ⊢
  rw [prefixed]
  omega

theorem Follows.gapless_iff (follows : trace.Follows stream isn capacity) :
    trace.heard.Gapless ↔ trace.receiver.reassembler.bytesPending = 0 := by
  have prefixed := follows.bytes.range_subset_iff
  have pending := follows.bytes.bytesPending_eq
  simp only at prefixed pending
  have begins : Finset.range trace.output.bytesPushed ⊆ trace.heard.given :=
    (prefixed _).mpr (Nat.le_refl _)
  have count : trace.output.bytesPushed ≤ trace.heard.given.card := by
    simpa using Finset.card_le_card begins
  rw [pending]
  constructor
  · intro gapless
    have all : trace.heard.given.card ≤ trace.output.bytesPushed :=
      (prefixed _).mp (Finset.Subset.antisymm_iff.mp gapless).2
    simp only [output] at all count
    omega
  · intro none
    have same : trace.heard.given.card = trace.output.bytesPushed := by
      simp only [output] at count ⊢
      omega
    rw [Heard.Gapless, same]
    exact (Finset.eq_of_subset_of_card_le begins (by simp [same])).symm

theorem Follows.done_iff (follows : trace.Follows stream isn capacity)
    (connected : trace.heard.connected = true) :
    trace.heard.Done stream ↔
      trace.output.bytesPushed = stream.length ∧ trace.heard.finSeen = true := by
  rw [Heard.Done, follows.whole_iff]
  simp [connected]

theorem Follows.ackno_eq (follows : trace.Follows stream isn capacity)
    (connected : trace.heard.connected = true) :
    trace.receiver.send.ackno =
      some (Wrap32.wrap (1 + trace.output.bytesPushed + trace.receiver.fin.toNat) isn) := by
  have synBefore := follows.synBefore_eq
  have syn := follows.syn_eq
  simp only [connected, if_true] at synBefore syn
  have present : (1 : UInt32) ≠ 0 := by decide
  have zeroPoint := follows.zeroPoint_eq connected
  simp only [send, synBefore, present, not_false_eq_true, ne_eq, if_true, syn, zeroPoint,
    follows.checkpoint_eq, UInt32.reduceToNat]
  rw [Nat.add_comm 1]

theorem Follows.gapless_of_whole (follows : trace.Follows stream isn capacity)
    (whole : trace.heard.Whole stream) : trace.heard.Gapless := by
  have stored := follows.bytes.holds.stored
  have pushed := follows.bytes.holds.bytesPushed_eq
  rw [follows.whole_iff] at whole
  rw [follows.gapless_iff, Reassembler.bytesPending, follows.bytes.holds.size_eq]
  have none : total (trace.receiver.reassembler.cache.map Entry.span) = 0 := by
    apply total_eq_zero
    intro span member
    obtain ⟨entry, cached, rfl⟩ := List.mem_map.mp member
    have ahead := stored.ahead entry cached
    have inside := (stored.slices entry cached).inside
    simp only [output, Entry.span] at *
    omega
  simp [none]

theorem Follows.ackCorrect_iff (follows : trace.Follows stream isn capacity) :
    trace.AckCorrect stream isn ↔
      (trace.heard.connected = true → (trace.receiver.fin = 1 ↔ trace.heard.Done stream)) := by
  cases connected : trace.heard.connected with
  | false =>
      have synBefore := follows.synBefore_eq
      simp only [connected, Bool.false_eq_true, if_false] at synBefore
      simp [AckCorrect, send, synBefore]
  | true =>
      have unset : (0 : UInt32) ≠ 1 := by decide
      simp only [AckCorrect, follows.ackno_eq connected, Option.some.injEq, forall_eq',
        Wrap32.wrap_eq_wrap_iff, follows.done_iff connected, forall_const]
      rcases follows.counts with ⟨zeroFin, -⟩ | oneFin
      · by_cases done : trace.output.bytesPushed = stream.length ∧ trace.heard.finSeen = true
        · simp only [zeroFin, done, unset, UInt32.reduceToNat]
          simp
          omega
        · simp only [zeroFin, done, unset, UInt32.reduceToNat]
          simp
      · by_cases done : trace.output.bytesPushed = stream.length ∧ trace.heard.finSeen = true
        · simp [oneFin, done]
        · simp only [oneFin, done, UInt32.reduceToNat]
          simp
          omega

theorem Follows.connect_eq (follows : trace.Follows stream isn capacity) (segment : Segment stream)
    (connected : (trace.heard.connected || segment.syn) = true) :
    ((trace.receiver.checkConnected (segment.message isn)).initSyn (segment.message isn)).initSynBefore
        (segment.message isn) =
      { trace.receiver with zeroPoint := isn, syn := 1, synBefore := 1 } := by
  have synBefore := follows.synBefore_eq
  have syn := follows.syn_eq
  have zeroPoint := follows.zeroPoint_eq
  have silent := follows.silent
  obtain ⟨⟨reassembler, point, checkpoint, synCount, synBeforeCount, fin, needFin⟩, popped,
    heard⟩ := trace
  have set : (1 : UInt32) ≠ 0 := by decide
  cases before : heard.connected with
  | true =>
      simp only [before, if_true, forall_const] at synBefore syn zeroPoint
      subst synBefore syn zeroPoint
      simp [checkConnected, initSyn, initSynBefore, set]
  | false =>
      simp only [before, Bool.false_or, Bool.false_eq_true, if_false, forall_const] at *
      subst synBefore syn silent
      have seqno : (segment.message isn).seqno = isn := by
        simp [Segment.message, Segment.absolute, connected, Wrap32.wrap, Wrap32.add]
      have marked : (segment.message isn).syn = true := connected
      simp [checkConnected, initSyn, initSynBefore, seqno, marked]

theorem ofNat_eq_one_iff (count : Nat) : UInt32.ofNat count = 1 ↔ count % 2 ^ 32 = 1 := by
  rw [← UInt32.toNat_inj]
  simp

theorem markFin_counts {receiver : TCPReceiver} {fins : Nat} (counts : Counts receiver fins)
    (message : TCPSenderMessage) :
    Counts (receiver.markFin message) (if message.fin = true then fins + 1 else fins) ∧
      (receiver.markFin message).fin = receiver.fin := by
  simp only [markFin]
  cases message.fin with
  | false => exact ⟨counts, rfl⟩
  | true =>
      rcases counts with ⟨zeroFin, counted⟩ | oneFin
      · refine ⟨Or.inl ⟨zeroFin, ?_⟩, rfl⟩
        simp [counted, UInt32.ofNat_add]
      · exact ⟨Or.inr oneFin, rfl⟩

theorem settleFin_counts {receiver : TCPReceiver} {fins : Nat} (counts : Counts receiver fins) :
    Counts receiver.settleFin fins ∧
      (receiver.settleFin.fin = 1 ↔
        receiver.fin = 1 ∨ receiver.reassembler.bytesPending = 0 ∧ fins % 2 ^ 32 = 1) := by
  have unset : (0 : UInt32) ≠ 1 := by decide
  have set : (1 : UInt32) ≠ 0 := by decide
  rw [← ofNat_eq_one_iff]
  simp only [settleFin]
  rcases counts with ⟨zeroFin, counted⟩ | oneFin
  · simp only [zeroFin, ← counted, unset, false_or, true_and]
    split
    · rename_i settled
      exact ⟨Or.inr rfl, by simp [settled]⟩
    · rename_i unsettled
      exact ⟨Or.inl ⟨zeroFin, counted⟩, by simp [unsettled, zeroFin, unset]⟩
  · rw [if_neg (by simp [oneFin, set])]
    exact ⟨Or.inr oneFin, by simp [oneFin]⟩

structure SameButFin (receiver other : TCPReceiver) : Prop where
  reassembler : other.reassembler = receiver.reassembler
  zeroPoint : other.zeroPoint = receiver.zeroPoint
  checkpoint : other.checkpoint = receiver.checkpoint
  syn : other.syn = receiver.syn
  synBefore : other.synBefore = receiver.synBefore

theorem markFin_same (receiver : TCPReceiver) (message : TCPSenderMessage) :
    SameButFin receiver (receiver.markFin message) := by
  simp only [markFin]
  split <;> exact ⟨rfl, rfl, rfl, rfl, rfl⟩

theorem settleFin_same (receiver : TCPReceiver) : SameButFin receiver receiver.settleFin := by
  simp only [settleFin]
  split <;> exact ⟨rfl, rfl, rfl, rfl, rfl⟩

theorem firstIndex_eq (segment : Segment stream) (near : trace.Near (.receive segment)) :
    firstIndex { trace.receiver with zeroPoint := isn, syn := 1, synBefore := 1 }
      (segment.message isn) = segment.piece.first := by
  have absolute := Wrap32.unwrap_wrap isn near.1 near.2
  simp only [firstIndex, Segment.message, absolute]
  by_cases marked : segment.syn = true
  · simp [Segment.absolute, marked, segment.synFirst marked]
  · simp only [Segment.absolute, marked, if_false, Bool.false_eq_true, UInt32.reduceToNat]
    rw [if_pos (by omega)]
    omega

/-- A segment that reaches a connected receiver is inserted where it was cut, and `FIN` is set if
it was, or if nothing is known behind a gap and one `FIN` is counted. -/
theorem Follows.receive_connected (follows : trace.Follows stream isn capacity)
    (segment : Segment stream) (near : trace.Near (.receive segment))
    (connected : (trace.heard.connected || segment.syn) = true) :
    ∃ receiver next, trace.receiver.receive (segment.message isn) = .ok receiver ∧
      next = Trace.mk receiver trace.popped
        (trace.heard.hear segment (trace.output.windowEnd segment.piece.first)) ∧
      next.Follows stream isn capacity ∧
      (receiver.fin = 1 ↔
        trace.receiver.fin = 1 ∨ next.heard.Gapless ∧ next.heard.fins % 2 ^ 32 = 1) := by
  obtain ⟨⟨re, popped, given⟩, inserts, bytes, -⟩ :=
    Reassembler.Trace.step_follows follows.bytes (.insert segment.piece)
  simp only [Reassembler.Trace.step] at inserts
  split at inserts
  · contradiction
  · rename_i inserted result
    obtain ⟨rfl, rfl, rfl⟩ := Reassembler.Trace.mk.inj (Except.ok.inj inserts)
    have more : trace.output.bytesPushed ≤ inserted.output.bytesPushed := by
      apply (bytes.range_subset_iff _).mp
      apply Finset.Subset.trans _ Finset.subset_union_left
      exact (follows.bytes.range_subset_iff _).mpr (Nat.le_refl _)
    let delivered : TCPReceiver :=
      { trace.receiver with
        reassembler := inserted
        zeroPoint := isn
        checkpoint := trace.receiver.checkpoint +
          (inserted.output.bytesPushed - trace.output.bytesPushed)
        syn := 1
        synBefore := 1 }
    have received : trace.receiver.receive (segment.message isn) =
        .ok (delivered.markFin (segment.message isn)).settleFin := by
      have set : (1 : UInt32) ≠ 0 := by decide
      simp only [receive, follows.connect_eq segment connected, ne_eq, set, not_false_eq_true,
        if_true, deliver, firstIndex_eq segment near]
      simp only [Segment.message, result]
      rfl
    have same := settleFin_same (delivered.markFin (segment.message isn))
    have sameMarked := markFin_same delivered (segment.message isn)
    have reassembler := same.reassembler.trans sameMarked.reassembler
    have counts : Counts delivered trace.heard.fins := follows.counts
    obtain ⟨marked, markedFin⟩ := markFin_counts counts (segment.message isn)
    obtain ⟨settled, settledFin⟩ := settleFin_counts marked
    have heard : trace.heard.hear segment (trace.output.windowEnd segment.piece.first) =
        { connected := true
          given := trace.heard.given ∪ segment.piece.span.positions ∩
            Finset.range (trace.output.windowEnd segment.piece.first)
          fins := if segment.piece.isLast = true then trace.heard.fins + 1 else trace.heard.fins
          finSeen := trace.heard.finSeen || segment.piece.isLast } := by
      simp only [Heard.hear, connected, if_true]
    have nextFollows : (Trace.mk (delivered.markFin (segment.message isn)).settleFin trace.popped
        (trace.heard.hear segment (trace.output.windowEnd segment.piece.first))).Follows
          stream isn capacity := by
      rw [heard]
      refine ⟨?_, ?_, ?_, ?_, ?_, settled, ?_, ?_⟩
      · simp only [reassembler]
        exact bytes
      · have before := follows.checkpoint_eq
        simp only [output, reassembler]
        rw [same.checkpoint, sameMarked.checkpoint]
        simp only [delivered]
        omega
      · exact same.syn.trans sameMarked.syn
      · exact same.synBefore.trans sameMarked.synBefore
      · intro _
        exact same.zeroPoint.trans sameMarked.zeroPoint
      · intro unconnected
        simp at unconnected
      · intro some
        cases last : segment.piece.isLast with
        | true => simp
        | false =>
            simp only [last, Bool.false_eq_true, if_false] at some
            simp [follows.finSeen_of_fins some]
    refine ⟨_, _, received, rfl, nextFollows, ?_⟩
    rw [settledFin, markedFin, nextFollows.gapless_iff, sameMarked.reassembler]
    simp only [reassembler, heard]
    rfl

theorem Follows.receive_unconnected (follows : trace.Follows stream isn capacity)
    (segment : Segment stream) (unconnected : (trace.heard.connected || segment.syn) = false) :
    ∃ receiver next, trace.receiver.receive (segment.message isn) = .ok receiver ∧
      next = Trace.mk receiver trace.popped
        (trace.heard.hear segment (trace.output.windowEnd segment.piece.first)) ∧
      next.Follows stream isn capacity ∧ next.heard.connected = false := by
  obtain ⟨heardNone, noSyn⟩ := Bool.or_eq_false_iff.mp unconnected
  have syn := follows.syn_eq
  simp only [heardNone, Bool.false_eq_true, if_false] at syn
  have heard : trace.heard.hear segment (trace.output.windowEnd segment.piece.first) =
      { trace.heard with finSeen := trace.heard.finSeen || segment.piece.isLast } := by
    simp only [Heard.hear, unconnected, Bool.false_eq_true, if_false]
  let refused : TCPReceiver :=
    { trace.receiver with
      reassembler := { trace.receiver.reassembler with output := trace.output.setError } }
  have received : trace.receiver.receive (segment.message isn) = .ok refused := by
    simp [receive, checkConnected, initSyn, initSynBefore, Segment.message, noSyn, syn, refused,
      output]
  refine ⟨refused, _, received, rfl, ?_, ?_⟩
  · rw [heard]
    refine ⟨?_, follows.checkpoint_eq, follows.syn_eq, follows.synBefore_eq, follows.zeroPoint_eq,
      follows.counts, follows.silent, ?_⟩
    · have same : Reassembler.SameBytes trace.receiver.reassembler refused.reassembler :=
        ⟨rfl, rfl, rfl, rfl, rfl, rfl, rfl, rfl⟩
      exact ⟨same.holds follows.bytes.holds follows.bytes.holds.end_eq, same.idle follows.bytes.idle,
        same.known.trans follows.bytes.known_eq, follows.bytes.capacity_eq⟩
    · intro some
      simp [follows.finSeen_of_fins some]
  · rw [heard]
    exact heardNone

theorem Follows.pop (follows : trace.Follows stream isn capacity) (len : Nat) :
    ∃ next, trace.step isn (.pop len : Event stream) = .ok next ∧
      next.Follows stream isn capacity ∧ next.heard = trace.heard ∧
      next.receiver.fin = trace.receiver.fin := by
  refine ⟨_, rfl, ?_, rfl, rfl⟩
  exact ⟨⟨Reassembler.pop_holds follows.bytes.holds len, follows.bytes.idle, follows.bytes.known_eq,
    follows.bytes.capacity_eq⟩, follows.checkpoint_eq, follows.syn_eq, follows.synBefore_eq,
    follows.zeroPoint_eq, follows.counts, follows.silent, follows.finSeen_of_fins⟩

theorem step_follows (trace : Trace) (event : Event stream)
    (follows : trace.Follows stream isn capacity) (near : trace.Near event) :
    ∃ next, trace.step isn event = .ok next ∧ next.Follows stream isn capacity := by
  cases event with
  | pop len =>
      obtain ⟨next, stepped, nextFollows, -⟩ := follows.pop len
      exact ⟨next, stepped, nextFollows⟩
  | receive segment =>
      cases connected : trace.heard.connected || segment.syn with
      | true =>
          obtain ⟨receiver, next, received, rfl, nextFollows, -⟩ :=
            follows.receive_connected segment near connected
          exact ⟨_, by simp only [step, received], nextFollows⟩
      | false =>
          obtain ⟨receiver, next, received, rfl, nextFollows, -⟩ :=
            follows.receive_unconnected segment connected
          exact ⟨_, by simp only [step, received], nextFollows⟩

theorem Follows.fin_iff_of_correct (follows : trace.Follows stream isn capacity)
    (correct : trace.AckCorrect stream isn) :
    trace.receiver.fin = 1 ↔ trace.heard.Done stream := by
  cases connected : trace.heard.connected with
  | true => exact follows.ackCorrect_iff.mp correct connected
  | false =>
      have unset : (0 : UInt32) ≠ 1 := by decide
      simp [follows.silent connected, Heard.Done, connected, unset]

theorem done_hear {heard : Heard} (done : heard.Done stream) (segment : Segment stream)
    (limit : Nat) : (heard.hear segment limit).Done stream := by
  obtain ⟨connected, whole, finSeen⟩ := done
  simp only [Heard.hear, connected, Bool.true_or, if_true]
  exact ⟨rfl, whole.trans Finset.subset_union_left, by simp [finSeen]⟩

theorem Follows.correct_iff_orderly {next : Trace} (follows : next.Follows stream isn capacity)
    (connected : next.heard.connected = true) {before : Heard}
    (kept : before.Done stream → next.heard.Done stream)
    (flag : next.receiver.fin = 1 ↔
      before.Done stream ∨ next.heard.Gapless ∧ next.heard.fins % 2 ^ 32 = 1) :
    next.AckCorrect stream isn ↔ before.Orderly stream next.heard := by
  have seen : next.heard.fins % 2 ^ 32 = 1 → next.heard.finSeen = true := by
    intro one
    apply follows.finSeen_of_fins
    omega
  have gapless := follows.gapless_of_whole
  have done : next.heard.Done stream ↔ next.heard.Whole stream ∧ next.heard.finSeen = true := by
    simp [Heard.Done, connected]
  rw [follows.ackCorrect_iff, flag, Heard.Orderly]
  simp only [connected, forall_const]
  constructor
  · intro correct
    refine ⟨fun one settled => ?_, fun finished unfinished => ?_⟩
    · exact (done.mp (correct.mp (Or.inr ⟨settled, one⟩))).1
    · rcases correct.mpr finished with earlier | ⟨-, one⟩
      · exact absurd earlier unfinished
      · exact one
  · rintro ⟨early, late⟩
    constructor
    · rintro (earlier | ⟨settled, one⟩)
      · exact kept earlier
      · exact done.mpr ⟨early one settled, seen one⟩
    · intro finished
      by_cases earlier : before.Done stream
      · exact Or.inl earlier
      · exact Or.inr ⟨gapless (done.mp finished).1, late finished earlier⟩

theorem step_correct_iff (trace : Trace) (event : Event stream) (next : Trace)
    (follows : trace.Follows stream isn capacity) (near : trace.Near event)
    (stepped : trace.step isn event = .ok next) (correct : trace.AckCorrect stream isn) :
    next.AckCorrect stream isn ↔ trace.OrderlyStep stream event next := by
  have flag := follows.fin_iff_of_correct correct
  cases event with
  | pop len =>
      obtain ⟨popped, poppedStep, nextFollows, sameHeard, sameFin⟩ := follows.pop len
      obtain rfl : popped = next := Except.ok.inj (poppedStep.symm.trans stepped)
      rw [nextFollows.ackCorrect_iff, sameHeard, sameFin]
      simp [OrderlyStep, flag]
  | receive segment =>
      cases connected : trace.heard.connected || segment.syn with
      | false =>
          obtain ⟨receiver, other, received, same, nextFollows, still⟩ :=
            follows.receive_unconnected segment connected
          simp only [step, received] at stepped
          obtain rfl : other = next := same.trans (Except.ok.inj stepped)
          rw [nextFollows.ackCorrect_iff]
          simp [OrderlyStep, Heard.Orderly, Heard.Done, still]
      | true =>
          obtain ⟨receiver, other, received, same, nextFollows, nextFlag⟩ :=
            follows.receive_connected segment near connected
          simp only [step, received] at stepped
          obtain rfl : other = next := same.trans (Except.ok.inj stepped)
          have sameReceiver : other.receiver = receiver := by rw [same]
          have sameHeard : other.heard = trace.heard.hear segment
              (trace.output.windowEnd segment.piece.first) := by rw [same]
          have nextConnected : other.heard.connected = true := by
            rw [sameHeard]
            simp only [Heard.hear, connected, if_true]
          rw [flag, ← sameReceiver] at nextFlag
          refine nextFollows.correct_iff_orderly nextConnected ?_ nextFlag
          intro done
          rw [sameHeard]
          exact done_hear done segment _

/-- In a run of segments near the checkpoint, pops in between, the receiver never fails, and its
acknowledgment is right after every step exactly when every segment arrives orderly. -/
theorem run_ackCorrect_iff (stream : Bytes) (isn : Wrap32) (capacity : Nat)
    (events : List (Event stream))
    (near : Runs.Permits (step isn) Near (start capacity) events) :
    (∃ last, Runs.run (step isn) (start capacity) events = .ok last) ∧
      (Runs.Always (step isn) (AckCorrect stream isn) (start capacity) events ↔
        Runs.EachStep (step isn) (OrderlyStep stream) (start capacity) events) := by
  have begins := start_follows stream isn capacity
  apply Runs.run_and_always_iff_eachStep step_follows step_correct_iff events begins _ near
  rw [begins.ackCorrect_iff]
  intro connected
  simp [start, Heard.start] at connected

def twoBytes : Bytes := [97, 98]

def synSegment : Segment twoBytes where
  piece := ⟨0, 0, false, by decide, by decide, by decide⟩
  syn := true
  synFirst := by decide

def dataFinSegment : Segment twoBytes where
  piece := ⟨0, 2, true, Nat.zero_le twoBytes.length, by decide, by decide⟩
  syn := false
  synFirst := by decide

def earlyFinSegment : Segment twoBytes where
  piece := ⟨2, 2, true, by decide, by decide, by decide⟩
  syn := false
  synFirst := by decide

theorem run_ackCorrect_synDataFin :
    Runs.Always (step ⟨7⟩) (AckCorrect twoBytes ⟨7⟩) (start 10)
      [.receive synSegment, .receive dataFinSegment] := by
  refine (run_ackCorrect_iff twoBytes ⟨7⟩ 10 _ ?_).2.mpr ?_
  · rw [Runs.permits_cons rfl, Runs.permits_cons rfl]
    refine ⟨⟨by decide, by decide⟩, ⟨by decide, by decide⟩, trivial⟩
  · rw [Runs.eachStep_cons rfl, Runs.eachStep_cons rfl]
    simp only [OrderlyStep]
    refine ⟨by decide, by decide, trivial⟩

theorem earlyFin_acknowledged :
    ¬∀ (stream : Bytes) (isn : Wrap32) (capacity : Nat) (events : List (Event stream)),
      Runs.Permits (step isn) Near (start capacity) events →
        Runs.Always (step isn) (AckCorrect stream isn) (start capacity) events := by
  intro right
  have always := right twoBytes ⟨7⟩ 10 [.receive synSegment, .receive earlyFinSegment] (by
    rw [Runs.permits_cons rfl, Runs.permits_cons rfl]
    refine ⟨⟨by decide, by decide⟩, ⟨by decide, by decide⟩, trivial⟩)
  rw [Runs.always_cons rfl, Runs.always_cons rfl] at always
  have wrong := always.2.2 _ rfl
  revert wrong
  decide

section Reassembles

structure Reassembles (stream : Bytes) (trace : Trace) : Prop where
  pushed : trace.popped ++ trace.output.buffer = stream.take trace.output.bytesPushed
  bytesPushed_le : trace.output.bytesPushed ≤ stream.length
  checkpoint_eq : trace.receiver.checkpoint = trace.output.bytesPushed

theorem Follows.reassembles (follows : trace.Follows stream isn capacity) :
    trace.Reassembles stream :=
  ⟨follows.bytes.pushed_eq.1, follows.bytes.pushed_eq.2, follows.checkpoint_eq⟩

theorem run_reassembles (stream : Bytes) (isn : Wrap32) (capacity : Nat)
    (events : List (Event stream))
    (near : Runs.Permits (step isn) Near (start capacity) events) :
    (∃ last, Runs.run (step isn) (start capacity) events = .ok last) ∧
      Runs.Always (step isn) (Reassembles stream) (start capacity) events := by
  have begins := start_follows stream isn capacity
  obtain ⟨last, ran, -⟩ := Runs.run_of_permits step_follows events begins near
  refine ⟨⟨last, ran⟩, ?_⟩
  exact Runs.always_of_permits step_follows (fun _ follows => follows.reassembles) events begins near

def firstByte : Segment twoBytes where
  piece := ⟨0, 1, false, by decide, by decide, by decide⟩
  syn := false
  synFirst := by decide

def secondByte : Segment twoBytes where
  piece := ⟨1, 2, true, by decide, by decide, by decide⟩
  syn := false
  synFirst := by decide

theorem run_reassembles_reordered :
    Runs.Always (step ⟨0xFFFFFFFF⟩) (Reassembles twoBytes) (start 10)
      [.receive synSegment, .receive secondByte, .receive firstByte, .receive secondByte] := by
  refine (run_reassembles twoBytes ⟨0xFFFFFFFF⟩ 10 _ ?_).2
  rw [Runs.permits_cons rfl, Runs.permits_cons rfl, Runs.permits_cons rfl, Runs.permits_cons rfl]
  exact ⟨⟨by decide, by decide⟩, ⟨by decide, by decide⟩, ⟨by decide, by decide⟩,
    ⟨by decide, by decide⟩, trivial⟩

end Reassembles

end Trace

end TCPReceiver

end LearnInternet.Tcp
