import LearnInternet.Tcp.Segments

/-!
How a receiver comes to the end of the stream, where the `FIN` comes last: everything before it has
been pushed, and there is room for what comes with it.
-/

namespace LearnInternet.Tcp

open Spans

theorem Reassembler.Trace.Follows.pushed_le {stream : Bytes} {capacity : Nat}
    {trace other : Reassembler.Trace} (follows : trace.Follows stream capacity)
    (otherFollows : other.Follows stream capacity) (more : trace.given ⊆ other.given) :
    trace.re.output.bytesPushed ≤ other.re.output.bytesPushed := by
  apply (otherFollows.range_subset_iff _).mp
  exact ((follows.range_subset_iff _).mpr (Nat.le_refl _)).trans more

namespace TCPReceiver

theorem Heard.given_subset_hear {stream : Bytes} (heard : Heard) (segment : Segment stream)
    (limit : Nat) : heard.given ⊆ (heard.hear segment limit).given := by
  simp only [Heard.hear]
  split
  · exact Finset.subset_union_left
  · exact Finset.Subset.refl _

/-- The end is still to come, or everything has been pushed and the output is closed. -/
inductive Ending (stream : Bytes) (receiver : TCPReceiver) : Prop where
  | going (fin : receiver.fin = 0) (needFin : receiver.needFin = 0)
      (unknown : receiver.reassembler.isInit = false)
      (unclosed : receiver.reassembler.output.close = false)
  | done (fin : receiver.fin = 1) (known : receiver.reassembler.isInit = true)
      (closed : receiver.reassembler.output.close = true)
      (all : receiver.reassembler.output.bytesPushed = stream.length)

variable {receiver next : TCPReceiver} {stream popped : Bytes} {isn : Wrap32} {capacity : Nat}
  {heard : Heard}

structure Completing (receiver : TCPReceiver) (heard : Heard) (segment : Segment stream) : Prop where
  connected : (heard.connected || segment.syn) = true
  first_eq : segment.piece.first = receiver.reassembler.output.bytesPushed
  fits : stream.length ≤ receiver.reassembler.output.windowEnd segment.piece.first

theorem Completing.all {segment : Segment stream} (completing : receiver.Completing heard segment)
    (last : segment.piece.isLast = true)
    (before : Trace.Follows stream isn capacity ⟨receiver, popped, heard⟩)
    (after : Trace.Follows stream isn capacity ⟨next, popped, heard.hear segment
      (receiver.reassembler.output.windowEnd segment.piece.first)⟩) :
    next.reassembler.output.bytesPushed = stream.length := by
  have ends := segment.piece.closing last
  have begins := completing.first_eq
  have fits := completing.fits
  have pushed := (before.bytes.range_subset_iff _).mpr (Nat.le_refl _)
  apply Nat.le_antisymm after.bytes.pushed_eq.2
  apply (after.bytes.range_subset_iff _).mp
  intro position inside
  rw [Finset.mem_range] at inside
  simp only [Heard.hear, completing.connected, if_true, Finset.mem_union, Finset.mem_inter,
    mem_positions, Finset.mem_range, Piece.span]
  by_cases old : position < receiver.reassembler.output.bytesPushed
  · exact .inl (pushed (Finset.mem_range.mpr old))
  · exact .inr (by omega)

theorem Completing.receive {segment : Segment stream} (completing : receiver.Completing heard segment)
    (last : segment.piece.isLast = true)
    (follows : Trace.Follows stream isn capacity ⟨receiver, popped, heard⟩)
    (near : Trace.Near ⟨receiver, popped, heard⟩ (.receive segment))
    (none : heard.fins % 2 ^ 32 = 0)
    (received : receiver.receive (segment.message isn) = .ok next) :
    next.fin = 1 ∧ next.Ending stream := by
  obtain ⟨made, trace, result, rfl, after, flag⟩ :=
    follows.receive_connected segment near completing.connected
  obtain rfl : made = next := Except.ok.inj (result.symm.trans received)
  obtain ⟨isInit, closes⟩ := receive_closes follows segment near completing.connected received
  have all := completing.all last follows after
  have whole := after.whole_iff.mpr all
  have counted : (heard.hear segment
      (receiver.reassembler.output.windowEnd segment.piece.first)).fins =
      heard.fins + 1 := by
    simp [Heard.hear, completing.connected, last]
  have one : made.fin = 1 := by
    refine flag.mpr (.inr ⟨after.gapless_of_whole whole, ?_⟩)
    simp only [Trace.output, counted]
    omega
  refine ⟨one, .done one ?_ ?_ all⟩
  · rw [isInit, last, Bool.or_true]
  · refine closes.mpr (.inr ⟨by rw [last, Bool.or_true], ?_⟩)
    have begins := completing.first_eq
    have ends := segment.piece.closing last
    have order := segment.piece.order
    have before := follows.bytes.holds.bytesPushed_eq
    have later := after.bytes.holds.bytesPushed_eq
    simp only at before later
    by_cases empty : segment.piece.data = []
    · have length := segment.piece.length_data
      rw [empty, List.length_nil] at length
      exact .inl ⟨empty, follows.bytes.holds.size_eq_zero (by simp only; omega)⟩
    · have length := List.length_pos_iff.mpr empty
      rw [segment.piece.length_data] at length
      exact .inr ⟨by omega, by omega⟩

theorem Ending.receive_connected {segment : Segment stream} (ending : receiver.Ending stream)
    (follows : Trace.Follows stream isn capacity ⟨receiver, popped, heard⟩)
    (near : Trace.Near ⟨receiver, popped, heard⟩ (.receive segment))
    (connected : (heard.connected || segment.syn) = true)
    (completing : segment.piece.isLast = true → receiver.fin = 0 →
      receiver.Completing heard segment)
    (received : receiver.receive (segment.message isn) = .ok next) :
    next.Ending stream ∧ (receiver.fin = 1 ∨ segment.piece.isLast = true → next.fin = 1) := by
  obtain ⟨made, trace, result, rfl, after, flag⟩ :=
    follows.receive_connected segment near connected
  obtain rfl : made = next := Except.ok.inj (result.symm.trans received)
  obtain ⟨isInit, closes⟩ := receive_closes follows segment near connected received
  cases ending with
  | done fin known closed all =>
      refine ⟨.done (flag.mpr (.inl fin)) ?_ (closes.mpr (.inl closed)) ?_,
        fun _ => flag.mpr (.inl fin)⟩
      · rw [isInit, known, Bool.true_or]
      · have more := follows.bytes.pushed_le after.bytes (heard.given_subset_hear segment _)
        exact Nat.le_antisymm after.bytes.pushed_eq.2 (all ▸ more)
  | going fin needFin unknown unclosed =>
      have unset : (0 : UInt32) ≠ 1 := by decide
      have none : heard.fins % 2 ^ 32 = 0 := by
        rcases follows.counts with ⟨-, counted⟩ | one
        · simp only [needFin] at counted
          simpa using (congrArg UInt32.toNat counted).symm
        · rw [fin] at one
          exact absurd one unset
      cases last : segment.piece.isLast with
      | true =>
          obtain ⟨one, done⟩ := (completing last fin).receive last follows near none received
          exact ⟨done, fun _ => one⟩
      | false =>
          have still : (heard.hear segment
              (receiver.reassembler.output.windowEnd segment.piece.first)).fins =
              heard.fins := by
            simp [Heard.hear, connected, last]
          rcases after.counts with ⟨zero, counted⟩ | one
          · refine ⟨.going zero ?_ ?_ ?_, ?_⟩
            · simp only [Trace.output, still] at counted
              rw [counted, ← UInt32.toNat_inj, UInt32.toNat_ofNat', none]
              rfl
            · rw [isInit, unknown, last, Bool.or_self]
            · rw [Bool.eq_false_iff, Ne, closes, unclosed, unknown, last]
              simp
            · rintro (one | marked)
              · rw [fin] at one
                exact absurd one unset
              · cases marked
          · rcases flag.mp one with before | ⟨-, counted⟩
            · rw [fin] at before
              exact absurd before unset
            · simp only [Trace.output, still] at counted
              omega

theorem Ending.receive {segment : Segment stream} (ending : receiver.Ending stream)
    (follows : Trace.Follows stream isn capacity ⟨receiver, popped, heard⟩)
    (near : Trace.Near ⟨receiver, popped, heard⟩ (.receive segment))
    (completing : segment.piece.isLast = true → receiver.fin = 0 →
      receiver.Completing heard segment)
    (received : receiver.receive (segment.message isn) = .ok next) :
    next.Ending stream ∧ (receiver.fin = 1 ∨ segment.piece.isLast = true → next.fin = 1) := by
  cases connected : heard.connected || segment.syn with
  | true => exact ending.receive_connected follows near connected completing received
  | false =>
      rw [receive_refused follows segment connected received]
      cases ending with
      | done fin known closed all => exact ⟨.done fin known closed all, fun _ => fin⟩
      | going fin needFin unknown unclosed =>
          refine ⟨.going fin needFin unknown unclosed, ?_⟩
          rintro (one | last)
          · exact one
          · have joined := (completing last fin).connected
            rw [connected] at joined
            cases joined

theorem Ending.pop (ending : receiver.Ending stream) (len : Nat) :
    Ending stream { receiver with
      reassembler :=
        { receiver.reassembler with output := receiver.reassembler.output.pop len } } := by
  cases ending with
  | going fin needFin unknown unclosed => exact .going fin needFin unknown unclosed
  | done fin known closed all => exact .done fin known closed all

theorem Ending.fin_cases (ending : receiver.Ending stream) :
    receiver.fin = 0 ∨ receiver.fin = 1 := by
  cases ending with
  | going fin => exact .inl fin
  | done fin => exact .inr fin

end TCPReceiver

end LearnInternet.Tcp
