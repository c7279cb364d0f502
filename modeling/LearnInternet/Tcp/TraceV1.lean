import LearnInternet.Tcp.Closing
import LearnInternet.Tcp.ReassemblyV1

/-!
Runs of the first `Reassembler`: what holds of the output, the map and `size_` after every call, and
how far the output gets. A string the tests of the end discard is given, but not accepted.
-/

namespace LearnInternet.Tcp.ReassemblerV1

open Reassembler (Event)
open Reassembler.MarkedTrace (earlyMark)

/-- A reassembler and, of the run so far, the bytes popped, whether some insert was marked as the
last, and the positions given and accepted inside the window of their time. -/
structure Trace where
  re : ReassemblerV1
  popped : Bytes
  marked : Bool
  given : Finset Nat
  accepted : Finset Nat

instance {stream : Bytes} {ends : Prop} [Decidable ends] (piece : Piece stream) :
    Decidable (Discards ends piece) :=
  inferInstanceAs (Decidable (_ ∧ _ ∧ _))

namespace Trace

variable {stream : Bytes} {capacity : Nat} {trace : Trace}

def start (capacity : Nat) : Trace := ⟨ofStream (ByteStream.ofCapacity capacity), [], false, ∅, ∅⟩

def pushed (trace : Trace) : Bytes := trace.popped ++ trace.re.output.buffer

def gives (trace : Trace) (piece : Piece stream) : Finset Nat :=
  piece.span.positions ∩ Finset.range (trace.re.output.bytesPopped + trace.re.output.capacity)

/-- What lies before the end of the window as a `uint64_t`, of a string that is not discarded. -/
def accepts (trace : Trace) (piece : Piece stream) : Finset Nat :=
  if Discards (trace.marked = true) piece then ∅
  else piece.span.positions ∩ Finset.range (trace.re.output.windowEndV1 piece.first)

def step (trace : Trace) : Event stream → Except Fault Trace
  | .insert piece =>
      match trace.re.insert piece.first piece.data piece.isLast with
      | .error fault => .error fault
      | .ok re =>
          .ok
            { re
              popped := trace.popped
              marked := trace.marked || piece.isLast
              given := trace.given ∪ trace.gives piece
              accepted := trace.accepted ∪ trace.accepts piece }
  | .pop len =>
      .ok
        { trace with
          re := { trace.re with output := trace.re.output.pop len }
          popped := trace.popped ++ trace.re.output.buffer.take len }

structure Follows (stream : Bytes) (capacity : Nat) (trace : Trace) : Prop where
  holds : trace.re.Holds stream trace.popped
  known_eq : trace.re.view.known = trace.accepted
  capacity_eq : trace.re.output.capacity = capacity
  ends_iff : trace.re.Ends ↔ trace.marked = true
  accepted_subset : trace.accepted ⊆ trace.given

theorem start_follows (stream : Bytes) (capacity : Nat) :
    (start capacity).Follows stream capacity := by
  have empty := Reassembler.Trace.start_follows stream capacity
  exact
    { holds :=
        { bytes := empty.holds
          complete := by simp [start, ofStream, ByteStream.ofCapacity]
          idle := fun _ => empty.idle }
      known_eq := empty.known_eq
      capacity_eq := rfl
      ends_iff := by simp [Ends, start, ofStream]
      accepted_subset := Finset.Subset.refl ∅ }

theorem not_discards (unmarked : trace.marked = false) (piece : Piece stream) :
    ¬ Discards (trace.marked = true) piece := by
  rintro ⟨marked, -⟩
  rw [unmarked] at marked
  cases marked

theorem Follows.accepts_subset (follows : trace.Follows stream capacity) (piece : Piece stream) :
    trace.accepts piece ⊆ trace.gives piece := by
  have window := follows.holds.bytes.window_eq
  have popped := follows.holds.bytes.bytesPopped_eq
  simp only [view] at window popped
  have limit : trace.re.output.windowEndV1 piece.first ≤
      trace.re.output.bytesPopped + trace.re.output.capacity := by
    rw [windowEndV1_eq follows.holds.bytes, popped]
    exact cutEnd_le (wraps_uint64 _) (by omega) piece.first
  rw [accepts]
  split
  · exact Finset.empty_subset _
  · exact Finset.inter_subset_inter_left (Finset.range_mono limit)

/-- The output can only be closed by an insert that is not discarded: the first marked string, when it
is empty and finds the stream complete, or one that completes the stream with its end known. -/
def Closes (stream : Bytes) (trace : Trace) (piece : Piece stream) (next : Trace) : Prop :=
  ¬ Discards (trace.marked = true) piece ∧
    (trace.marked = false ∧ piece.isLast = true ∧ piece.data = [] ∧
        trace.re.output.bytesPushed = stream.length ∨
      next.marked = true ∧ trace.re.output.bytesPushed < stream.length ∧
        next.re.output.bytesPushed = stream.length)

theorem step_insert (follows : trace.Follows stream capacity) (piece : Piece stream) :
    ∃ next, trace.step (.insert piece) = .ok next ∧ next.Follows stream capacity ∧
      next.popped = trace.popped ∧ next.marked = (trace.marked || piece.isLast) ∧
      next.given = trace.given ∪ trace.gives piece ∧
      next.accepted = trace.accepted ∪ trace.accepts piece ∧
      (next.re.output.close = true ↔
        trace.re.output.close = true ∨ Closes stream trace piece next) := by
  by_cases discards : Discards (trace.marked = true) piece
  · have ignored := insert_discards piece
      (show Discards trace.re.Ends piece from ⟨follows.ends_iff.mpr discards.1, discards.2⟩)
      follows.holds
    have nothing : trace.accepts piece = ∅ := if_pos discards
    have marked : (trace.marked || piece.isLast) = trace.marked := by
      rw [discards.2.2, Bool.or_false]
    simp only [step, ignored]
    refine ⟨_, rfl, ⟨follows.holds, ?_, follows.capacity_eq, ?_, ?_⟩, rfl, rfl, rfl, rfl, Or.inl, ?_⟩
    · rw [nothing, Finset.union_empty, follows.known_eq]
    · rw [marked]
      exact follows.ends_iff
    · exact Finset.union_subset_union follows.accepted_subset (follows.accepts_subset piece)
    · rintro (closed | ⟨kept, -⟩)
      · exact closed
      · exact absurd discards kept
  · have kept : ¬ Discards trace.re.Ends piece := by
      rintro ⟨ends, late⟩
      exact discards ⟨follows.ends_iff.mp ends, late⟩
    obtain ⟨inserted, result, within, ends, closes⟩ := insert_inserted piece follows.holds kept
    have known : inserted.view.known = trace.accepted ∪ trace.accepts piece := by
      rw [within.known_eq, follows.known_eq, accepts, if_neg discards]
    have pushed := follows.holds.bytes.bytesPushed_eq
    have insertedPushed := within.holds.bytes.bytesPushed_eq
    simp only [view] at pushed insertedPushed
    have unmarked : ¬ trace.re.Ends ↔ trace.marked = false := by
      rw [follows.ends_iff, Bool.not_eq_true]
    have end_iff : (trace.re.Ends ∨ piece.isLast = true) ↔
        (trace.marked || piece.isLast) = true := by
      rw [follows.ends_iff, Bool.or_eq_true]
    simp only [step, result]
    refine ⟨_, rfl, ⟨within.holds, ?_, within.capacity_eq.trans follows.capacity_eq, ?_, ?_⟩, rfl,
      rfl, rfl, rfl, ?_⟩
    · exact known
    · rw [ends, end_iff]
    · exact Finset.union_subset_union follows.accepted_subset (follows.accepts_subset piece)
    · rw [closes, Closes, pushed, insertedPushed, unmarked, end_iff]
      simp only [discards, not_false_eq_true, true_and]

theorem pop_follows (follows : trace.Follows stream capacity) (len : Nat) :
    ∃ next, trace.step (.pop len : Event stream) = .ok next ∧ next.Follows stream capacity ∧
      next.given = trace.given ∧ next.marked = trace.marked ∧
      next.re.output.bytesPushed = trace.re.output.bytesPushed ∧
      next.re.output.close = trace.re.output.close := by
  have bytes := Reassembler.pop_holds follows.holds.bytes len
  exact ⟨_, rfl, ⟨⟨bytes, follows.holds.complete, follows.holds.idle⟩, follows.known_eq,
    follows.capacity_eq, follows.ends_iff, follows.accepted_subset⟩, rfl, rfl, rfl, rfl⟩

theorem step_follows (follows : trace.Follows stream capacity) (event : Event stream) :
    ∃ next, trace.step event = .ok next ∧ next.Follows stream capacity := by
  cases event with
  | insert piece =>
      obtain ⟨next, stepped, nextFollows, -⟩ := step_insert follows piece
      exact ⟨next, stepped, nextFollows⟩
  | pop len =>
      obtain ⟨next, stepped, nextFollows, -⟩ := pop_follows follows len
      exact ⟨next, stepped, nextFollows⟩

theorem run_follows (stream : Bytes) (capacity : Nat) (events : List (Event stream)) :
    ∃ last, Runs.run step (start capacity) events = .ok last ∧ last.Follows stream capacity :=
  Runs.run_invariant (motive := fun _ (last : Trace) => last.Follows stream capacity)
    (start_follows stream capacity) (fun _ _ event follows => step_follows follows event) events

theorem Follows.pushed_eq (follows : trace.Follows stream capacity) :
    trace.pushed = stream.take trace.re.waitingIndex ∧ trace.re.waitingIndex ≤ stream.length :=
  ⟨follows.holds.bytes.pushed, follows.holds.bytes.waiting_le⟩

section Safe

/-- Entry by entry of the map, what is cached between the output and the end of the window. -/
structure Safe (stream : Bytes) (capacity : Nat) (trace : Trace) : Prop where
  pushed_eq : trace.pushed = stream.take trace.re.waitingIndex
  pushed_length : trace.pushed.length = trace.re.waitingIndex
  bytesPushed_eq : trace.re.output.bytesPushed = trace.re.waitingIndex
  slices : ∀ it ∈ trace.re.cach, it.second ≠ [] →
    it.first + it.second.length ≤ stream.length ∧
      it.second = Spans.slice stream it.first (it.first + it.second.length)
  disjoint : trace.re.cach.Pairwise fun left right =>
    left.second ≠ [] → right.second ≠ [] → left.first + left.second.length ≤ right.first
  window : ∀ it ∈ trace.re.cach, it.second ≠ [] →
    trace.re.waitingIndex ≤ it.first ∧
      it.first + it.second.length ≤ trace.re.output.bytesPopped + capacity
  apart : trace.re.output.isClosed = false → ∀ it ∈ trace.re.cach, it.second ≠ [] →
    it.first ≠ trace.re.waitingIndex
  bytesPending_eq : trace.re.bytesPending = (trace.re.cach.map fun it => it.second.length).sum
  complete : trace.re.output.isClosed = true → trace.pushed = stream

theorem total_spans (cach : List MapEntry) :
    Spans.total (spans cach) = (cach.map fun it => it.second.length).sum := by
  induction cach with
  | nil => rfl
  | cons it rest ih =>
      have here : it.entry.span.stop - it.entry.span.first = it.second.length :=
        Nat.add_sub_cancel_left _ _
      rw [spans, entries_cons, List.map_cons, Spans.total_cons, here, List.map_cons, List.sum_cons,
        ← ih, spans]

theorem Follows.safe (follows : trace.Follows stream capacity) : trace.Safe stream capacity := by
  have stored := follows.holds.bytes.stored
  have pushed := follows.pushed_eq
  have cached : ∀ it ∈ trace.re.cach, it.entry ∈ trace.re.view.cache := by
    intro it member
    exact mem_entries.mpr ⟨it, member, rfl⟩
  refine
    { pushed_eq := pushed.1
      pushed_length := ?_
      bytesPushed_eq := follows.holds.bytes.bytesPushed_eq
      slices := ?_
      disjoint := ?_
      window := ?_
      apart := ?_
      bytesPending_eq := ?_
      complete := ?_ }
  · rw [pushed.1, List.length_take, min_eq_left pushed.2]
  · intro it member _
    have slices := stored.slices it.entry (cached it member)
    exact ⟨slices.inside, slices.data_eq⟩
  · have ordered := stored.ordered
    simp only [view, entries, Spans.Ordered, List.pairwise_map] at ordered
    exact ordered.imp fun before _ _ => before.2
  · intro it member _
    have within := stored.within it.entry (cached it member)
    rw [← follows.holds.bytes.bytesPopped_eq] at within
    refine ⟨stored.ahead it.entry (cached it member), ?_⟩
    rw [← follows.capacity_eq]
    exact within
  · intro going it member _
    exact follows.holds.idle going it.entry (cached it member)
  · have sizes := follows.holds.bytes.size_eq
    simp only [view] at sizes
    rw [bytesPending, ← total_spans, spans]
    exact_mod_cast sizes
  · intro closed
    rw [pushed.1, (follows.holds.complete closed).2, List.take_length]

theorem run_safe (stream : Bytes) (capacity : Nat) (events : List (Event stream)) :
    ∃ last, Runs.run step (start capacity) events = .ok last ∧ last.Safe stream capacity := by
  obtain ⟨last, ran, follows⟩ := run_follows stream capacity events
  exact ⟨last, ran, follows.safe⟩

end Safe

theorem Follows.range_subset_iff (follows : trace.Follows stream capacity) (count : Nat) :
    Finset.range count ⊆ trace.accepted ↔ count ≤ trace.re.output.bytesPushed := by
  have pushed := follows.holds.bytes.bytesPushed_eq
  simp only [view] at pushed
  rw [← follows.known_eq, pushed]
  exact Spans.range_subset_iff follows.holds.uncovered count

theorem Follows.bytesPushed_eq_of_accepted {next : Trace} (follows : trace.Follows stream capacity)
    (nextFollows : next.Follows stream capacity) (same : next.accepted = trace.accepted) :
    next.re.output.bytesPushed = trace.re.output.bytesPushed := by
  exact Spans.eq_of_range_subset_iff nextFollows.range_subset_iff (same ▸ follows.range_subset_iff)

theorem Follows.bytesPushed_le (follows : trace.Follows stream capacity) :
    trace.re.output.bytesPushed ≤ stream.length := by
  rw [follows.safe.bytesPushed_eq]
  exact follows.pushed_eq.2

theorem Follows.bytesPending_eq (follows : trace.Follows stream capacity) :
    (trace.re.bytesPending : Int) = trace.accepted.card - trace.re.output.bytesPushed := by
  have counted : trace.accepted.card = trace.re.waitingIndex + Spans.total (spans trace.re.cach) := by
    rw [← follows.known_eq]
    exact follows.holds.bytes.card_known
  rw [counted, follows.safe.bytesPending_eq, follows.safe.bytesPushed_eq, total_spans]
  omega

theorem Follows.marked_of_closed (follows : trace.Follows stream capacity)
    (closed : trace.re.output.close = true) :
    trace.marked = true ∧ trace.re.output.bytesPushed = stream.length := by
  obtain ⟨ends, complete⟩ := follows.holds.complete closed
  exact ⟨follows.ends_iff.mp ends, follows.safe.bytesPushed_eq.trans complete⟩

section Complete

/-- The output has got as far as the bytes given reach, and is closed at the end of the stream once
some insert was marked. -/
def Complete (stream : Bytes) (trace : Trace) : Prop :=
  (∀ count, Finset.range count ⊆ trace.given ↔ count ≤ trace.re.output.bytesPushed) ∧
    (trace.marked = true → trace.re.output.bytesPushed = stream.length →
      trace.re.output.isClosed = true)

/-- No beginning of the stream is given that is not accepted; and the first marked string, if it finds
the stream complete, has no bytes. -/
def KeepsUp (trace : Trace) : Event stream → Trace → Prop
  | .insert piece, _ =>
      (∀ count, Finset.range count ⊆ trace.given ∪ trace.gives piece →
        Finset.range count ⊆ trace.accepted ∪ trace.accepts piece) ∧
      (piece.isLast = true → trace.marked = false →
        trace.re.output.bytesPushed = stream.length → piece.data = [])
  | .pop _, _ => True

theorem Follows.reaches_iff (follows : trace.Follows stream capacity) :
    (∀ count, Finset.range count ⊆ trace.given ↔ count ≤ trace.re.output.bytesPushed) ↔
      ∀ count, Finset.range count ⊆ trace.given → Finset.range count ⊆ trace.accepted := by
  constructor
  · intro reaches count given
    exact (follows.range_subset_iff count).mpr ((reaches count).mp given)
  · intro accepted count
    constructor
    · intro given
      exact (follows.range_subset_iff count).mp (accepted count given)
    · intro pushed
      exact ((follows.range_subset_iff count).mpr pushed).trans follows.accepted_subset

theorem insert_closed_iff (follows : trace.Follows stream capacity)
    (closed : trace.marked = true → trace.re.output.bytesPushed = stream.length →
      trace.re.output.close = true)
    (piece : Piece stream) {next : Trace} (stepped : trace.step (.insert piece) = .ok next) :
    (next.marked = true → next.re.output.bytesPushed = stream.length →
        next.re.output.close = true) ↔
      (piece.isLast = true → trace.marked = false →
        trace.re.output.bytesPushed = stream.length → piece.data = []) := by
  obtain ⟨made, madeStepped, madeFollows, -, marked, -, accepted, closes⟩ :=
    step_insert follows piece
  rw [stepped] at madeStepped
  cases madeStepped
  have bound := madeFollows.bytesPushed_le
  have grows : trace.re.output.bytesPushed ≤ next.re.output.bytesPushed := by
    rw [← madeFollows.range_subset_iff, accepted]
    exact (follows.range_subset_iff _).mpr le_rfl |>.trans Finset.subset_union_left
  constructor
  · intro nextClosed last unmarked complete
    have ends : next.marked = true := by rw [marked, last, Bool.or_true]
    rcases closes.mp (nextClosed ends (by omega)) with before | ⟨-, first | ⟨-, below, -⟩⟩
    · rw [(follows.marked_of_closed before).1] at unmarked
      cases unmarked
    · exact first.2.2.1
    · omega
  · intro empty ends complete
    rw [closes, Closes]
    by_cases already : trace.re.output.bytesPushed = stream.length
    · cases before : trace.marked with
      | true => exact .inl (closed before already)
      | false =>
          rw [marked, before, Bool.false_or] at ends
          have kept := not_discards before piece
          rw [before] at kept
          exact .inr ⟨kept, .inl ⟨rfl, ends, empty ends before already, already⟩⟩
    · refine .inr ⟨?_, .inr ⟨ends, by omega, complete⟩⟩
      intro discards
      -- a discarded string leaves what is accepted, and so what is pushed, as it is
      rw [accepts, if_pos discards, Finset.union_empty] at accepted
      have still := follows.bytesPushed_eq_of_accepted madeFollows accepted
      omega

theorem step_complete_iff (trace : Trace) (event : Event stream) (next : Trace)
    (follows : trace.Follows stream capacity) (stepped : trace.step event = .ok next)
    (complete : trace.Complete stream) : next.Complete stream ↔ trace.KeepsUp event next := by
  cases event with
  | insert piece =>
      obtain ⟨made, madeStepped, madeFollows, -, -, given, accepted, -⟩ := step_insert follows piece
      have closed := insert_closed_iff follows complete.2 piece stepped
      rw [stepped] at madeStepped
      cases madeStepped
      rw [Complete, madeFollows.reaches_iff, given, accepted]
      exact and_congr_right fun _ => closed
  | pop len =>
      cases stepped
      exact iff_of_true complete trivial

/-- After every insert the output has got as far as the strings given reach and is closed at the
marked end, throughout a run exactly when every insert keeps up. -/
theorem always_complete_iff (stream : Bytes) (capacity : Nat) (events : List (Event stream)) :
    (∃ last, Runs.run step (start capacity) events = .ok last) ∧
      (Runs.Always step (Complete stream) (start capacity) events ↔
        Runs.EachStep step KeepsUp (start capacity) events) := by
  have permits : Runs.Permits step (fun _ _ => True) (start capacity) events :=
    Runs.permits_of_forall (fun _ _ => trivial)
  apply Runs.run_and_always_iff_eachStep
    (fun trace event (follows : trace.Follows stream capacity) _ => step_follows follows event) _
    events (start_follows stream capacity) _ permits
  · intro trace event next follows _ stepped complete
    exact step_complete_iff trace event next follows stepped complete
  · refine ⟨fun count => ?_, ?_⟩
    · simp [start, ofStream, ByteStream.ofCapacity, Finset.subset_empty, Finset.range_eq_empty_iff]
    · simp [start]

def endMark : Piece [97] :=
  ⟨1, 1, true, earlyMark.order, earlyMark.inside, earlyMark.closing⟩

def onlyByte : Piece [97] :=
  ⟨0, 1, false, Nat.zero_le endMark.first, endMark.inside, by decide⟩

theorem byte_dropped_after_mark :
    ∃ last, Runs.run step (start 4) [.insert endMark, .insert onlyByte] = .ok last ∧
      0 ∈ last.given ∧ last.re.output.bytesPushed = 0 ∧ ¬ last.Complete [97] := by
  refine ⟨_, rfl, by decide, rfl, ?_⟩
  rintro ⟨reaches, -⟩
  exact absurd ((reaches 1).mp (by decide)) (by decide)

end Complete

end Trace

end LearnInternet.Tcp.ReassemblerV1
