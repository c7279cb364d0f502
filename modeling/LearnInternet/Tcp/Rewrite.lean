import LearnInternet.Tcp.Closing
import LearnInternet.Tcp.TraceV1

/-!
Both reassemblers side by side on the same calls. They agree as long as neither takes bytes that the
other passes over, and no string without bytes reaches the places where they close their outputs
differently.
-/

namespace LearnInternet.Tcp.Rewrite

open Reassembler (Event)
open ReassemblerV1.Trace (endMark onlyByte)

structure Pair where
  first : ReassemblerV1.Trace
  second : Reassembler.MarkedTrace

inductive Fault where
  | first (fault : ReassemblerV1.Fault)
  | second (fault : Tcp.Fault)

namespace Pair

variable {stream : Bytes} {capacity : Nat} {pair : Pair}

def start (capacity : Nat) : Pair :=
  ⟨ReassemblerV1.Trace.start capacity, Reassembler.MarkedTrace.start capacity⟩

def step (pair : Pair) (event : Event stream) : Except Fault Pair :=
  match pair.first.step event with
  | .error fault => .error (.first fault)
  | .ok first =>
      match pair.second.step event with
      | .error fault => .error (.second fault)
      | .ok second => .ok ⟨first, second⟩

structure Agrees (pair : Pair) : Prop where
  pushed : pair.first.pushed = pair.second.trace.pushed
  bytesPending : (pair.first.re.bytesPending : Int) = pair.second.trace.re.bytesPending
  isClosed : pair.first.re.output.isClosed = pair.second.trace.re.output.isClosed

/-- The part of a string that the second reassembler lets in. -/
def lets (pair : Pair) (piece : Piece stream) : Finset Nat :=
  piece.span.positions ∩ Finset.range (pair.second.trace.re.output.windowEnd piece.first)

def Negative (pair : Pair) : Prop :=
  (Int64.ofNat (pair.second.trace.re.output.bytesPopped +
    pair.second.trace.re.output.capacity)).toInt < 0

/-- A string that the first reassembler discards brings the second no new byte, and one that comes when
the end of the window is negative brings the first none; and a string without bytes that finds the
output open and nothing pending, with the end known, is the first marked one and finds the stream
complete. -/
def Matches (pair : Pair) : Event stream → Pair → Prop
  | .insert piece, _ =>
      (ReassemblerV1.Discards (pair.first.marked = true) piece →
        pair.lets piece ⊆ pair.second.trace.given) ∧
      (pair.Negative → pair.first.accepts piece ⊆ pair.first.accepted) ∧
      (piece.data = [] → (pair.first.marked || piece.isLast) = true →
        pair.first.re.bytesPending = 0 → pair.first.re.output.isClosed = false →
          pair.first.marked = false ∧ pair.first.re.output.bytesPushed = stream.length)
  | .pop _, _ => True

structure Follows (stream : Bytes) (capacity : Nat) (pair : Pair) : Prop where
  first : pair.first.Follows stream capacity
  second : pair.second.Follows stream capacity
  popped_eq : pair.first.popped = pair.second.trace.popped
  marked_eq : pair.first.marked = pair.second.marked
  nested : pair.first.accepted ⊆ pair.second.trace.given ∨
    pair.second.trace.given ⊆ pair.first.accepted

theorem start_follows (stream : Bytes) (capacity : Nat) :
    (start capacity).Follows stream capacity :=
  ⟨ReassemblerV1.Trace.start_follows stream capacity,
    Reassembler.MarkedTrace.start_follows stream capacity, rfl, rfl, .inl (Finset.Subset.refl ∅)⟩

theorem Follows.bytesPushed_eq (follows : pair.Follows stream capacity)
    (same : pair.first.accepted = pair.second.trace.given) :
    pair.first.re.output.bytesPushed = pair.second.trace.re.output.bytesPushed :=
  Spans.eq_of_range_subset_iff (same ▸ follows.first.range_subset_iff)
    follows.second.trace.range_subset_iff

theorem Follows.agrees_iff (follows : pair.Follows stream capacity) :
    pair.Agrees ↔ pair.first.accepted = pair.second.trace.given ∧
      (pair.first.re.output.close = true ↔ pair.second.trace.re.output.close = true) := by
  have firstPushed := follows.first.pushed_eq
  have secondPushed := follows.second.trace.pushed_eq
  have firstPending := follows.first.bytesPending_eq
  have secondPending := follows.second.trace.bytesPending_eq
  rw [← follows.first.safe.bytesPushed_eq] at firstPushed
  constructor
  · intro agrees
    have pushed := agrees.pushed
    have lengths := congrArg List.length pushed
    rw [firstPushed.1, secondPushed.1, List.length_take, List.length_take,
      min_eq_left firstPushed.2, min_eq_left secondPushed.2] at lengths
    have pending := agrees.bytesPending
    rw [firstPending, secondPending, lengths] at pending
    refine ⟨?_, Bool.eq_iff_iff.mp agrees.isClosed⟩
    rcases follows.nested with fewer | more
    · exact Finset.eq_of_subset_of_card_le fewer (by omega)
    · exact (Finset.eq_of_subset_of_card_le more (by omega)).symm
  · rintro ⟨same, closed⟩
    have pushed := follows.bytesPushed_eq same
    refine ⟨?_, ?_, Bool.eq_iff_iff.mpr closed⟩
    · rw [firstPushed.1, secondPushed.1, pushed]
    · rw [firstPending, secondPending, same, pushed]

theorem lets_of_negative (negative : pair.Negative) (piece : Piece stream) : pair.lets piece = ∅ := by
  rw [lets, ByteStream.windowEnd, cutEnd_of_neg negative, Finset.range_zero, Finset.inter_empty]

theorem Follows.accepts_eq (follows : pair.Follows stream capacity)
    (same : pair.first.accepted = pair.second.trace.given) {piece : Piece stream}
    (kept : ¬ReassemblerV1.Discards (pair.first.marked = true) piece)
    (positive : ¬pair.Negative) : pair.first.accepts piece = pair.lets piece := by
  have pushed := follows.bytesPushed_eq same
  have firstPopped := follows.first.holds.bytes.bytesPopped_eq
  simp only [ReassemblerV1.view] at firstPopped
  have popped : pair.first.re.output.bytesPopped = pair.second.trace.re.output.bytesPopped := by
    rw [firstPopped, follows.popped_eq, follows.second.trace.holds.bytesPopped_eq]
  have size : pair.first.re.output.capacity = pair.second.trace.re.output.capacity := by
    rw [follows.first.capacity_eq, follows.second.trace.capacity_eq]
  rw [Negative, not_lt] at positive
  rw [ReassemblerV1.Trace.accepts, if_neg kept, lets, ByteStream.windowEnd, ByteStream.windowEndV1,
    popped, size, pushed, toInt_int64_eq positive]

theorem Follows.accepts_nested (follows : pair.Follows stream capacity)
    (same : pair.first.accepted = pair.second.trace.given) (piece : Piece stream) :
    pair.first.accepts piece ⊆ pair.lets piece ∨ pair.lets piece ⊆ pair.first.accepts piece := by
  by_cases discards : ReassemblerV1.Discards (pair.first.marked = true) piece
  · rw [ReassemblerV1.Trace.accepts, if_pos discards]
    exact .inl (Finset.empty_subset _)
  · by_cases negative : pair.Negative
    · rw [lets_of_negative negative]
      exact .inr (Finset.empty_subset _)
    · rw [follows.accepts_eq same discards negative]
      exact .inl (Finset.Subset.refl _)

/-- What one insertion gives to both versions, and when each of the two closes its output. -/
theorem step_insert (follows : pair.Follows stream capacity)
    (same : pair.first.accepted = pair.second.trace.given) (piece : Piece stream) :
    ∃ next, pair.step (.insert piece) = .ok next ∧ next.Follows stream capacity ∧
      next.second.trace.given = pair.second.trace.given ∪ pair.lets piece ∧
      next.first.accepted = pair.first.accepted ∪ pair.first.accepts piece ∧
      next.first.marked = (pair.first.marked || piece.isLast) ∧
      (next.first.re.output.close = true ↔ pair.first.re.output.close = true ∨
        ReassemblerV1.Trace.Closes stream pair.first piece next.first) ∧
      (next.second.trace.re.output.close = true ↔ pair.second.trace.re.output.close = true ∨
        next.first.marked = true ∧
          (piece.data = [] ∧ pair.second.trace.re.bytesPending = 0 ∨
            Reassembler.Completes stream pair.second.trace.re next.second.trace.re)) := by
  obtain ⟨first, firstStepped, firstFollows, firstPopped, firstMarked, -, accepted, firstCloses⟩ :=
    ReassemblerV1.Trace.step_insert follows.first piece
  obtain ⟨second, secondStepped, secondFollows, secondMarked, secondCloses, given,
    secondPopped⟩ := Reassembler.MarkedTrace.step_insert follows.second piece
  have marked : first.marked = second.marked := by
    rw [firstMarked, secondMarked, follows.marked_eq]
  refine ⟨⟨first, second⟩, ?_, ⟨firstFollows, secondFollows, ?_, marked, ?_⟩, given, accepted,
    firstMarked, firstCloses, ?_⟩
  · simp only [step, firstStepped, secondStepped]
  · rw [firstPopped, secondPopped, follows.popped_eq]
  · simp only [accepted, given, same]
    exact (follows.accepts_nested same piece).imp
      (Finset.union_subset_union (Finset.Subset.refl _))
      (Finset.union_subset_union (Finset.Subset.refl _))
  · rw [secondCloses, marked]

theorem step_keeps (pair : Pair) (event : Event stream) (next : Pair)
    (follows : pair.Follows stream capacity) (stepped : pair.step event = .ok next)
    (agrees : pair.Agrees) : next.Follows stream capacity := by
  cases event with
  | insert piece =>
      obtain ⟨made, madeStepped, madeFollows, -⟩ :=
        step_insert follows (follows.agrees_iff.mp agrees).1 piece
      rw [stepped] at madeStepped
      cases madeStepped
      exact madeFollows
  | pop len =>
      have buffers : pair.first.re.output.buffer = pair.second.trace.re.output.buffer := by
        have pushed := agrees.pushed
        rw [ReassemblerV1.Trace.pushed, Reassembler.Trace.pushed, follows.popped_eq] at pushed
        exact List.append_cancel_left pushed
      obtain ⟨first, firstStepped, firstFollows, -⟩ :=
        ReassemblerV1.Trace.pop_follows follows.first len
      obtain ⟨second, secondStepped, secondFollows⟩ :=
        Reassembler.MarkedTrace.step_follows follows.second (.pop len)
      simp only [step, firstStepped, secondStepped] at stepped
      cases stepped
      cases firstStepped
      cases secondStepped
      refine ⟨firstFollows, secondFollows, ?_, ?_, follows.nested⟩
      · simp only [follows.popped_eq, buffers]
      · simp only [Reassembler.Event.isLast, Bool.or_false]
        exact follows.marked_eq

theorem Follows.accepted_iff (follows : pair.Follows stream capacity)
    (same : pair.first.accepted = pair.second.trace.given) (piece : Piece stream) :
    pair.first.accepted ∪ pair.first.accepts piece = pair.second.trace.given ∪ pair.lets piece ↔
      (ReassemblerV1.Discards (pair.first.marked = true) piece →
        pair.lets piece ⊆ pair.second.trace.given) ∧
      (pair.Negative → pair.first.accepts piece ⊆ pair.first.accepted) := by
  by_cases discards : ReassemblerV1.Discards (pair.first.marked = true) piece
  · have nothing : pair.first.accepts piece = ∅ := if_pos discards
    simp only [discards, forall_const, nothing, Finset.union_empty, Finset.empty_subset,
      implies_true, and_true]
    rw [same, eq_comm, Finset.union_eq_left]
  · by_cases negative : pair.Negative
    · simp only [discards, false_imp_iff, negative, forall_const, true_and,
        lets_of_negative negative, Finset.union_empty]
      rw [← same, Finset.union_eq_left]
    · simp only [discards, negative, false_imp_iff, and_self, iff_true]
      rw [follows.accepts_eq same discards negative, same]

theorem insert_closed_iff (follows : pair.Follows stream capacity) (agrees : pair.Agrees)
    (piece : Piece stream) {next : Pair} (stepped : pair.step (.insert piece) = .ok next)
    (nextSame : next.first.accepted = next.second.trace.given) :
    (next.first.re.output.close = true ↔ next.second.trace.re.output.close = true) ↔
      (piece.data = [] → (pair.first.marked || piece.isLast) = true →
        pair.first.re.bytesPending = 0 → pair.first.re.output.isClosed = false →
          pair.first.marked = false ∧ pair.first.re.output.bytesPushed = stream.length) := by
  obtain ⟨same, closed⟩ := follows.agrees_iff.mp agrees
  obtain ⟨made, madeStepped, madeFollows, -, accepted, marked, firstCloses, secondCloses⟩ :=
    step_insert follows same piece
  rw [stepped] at madeStepped
  cases madeStepped
  have pushed := follows.bytesPushed_eq same
  have nextPushed := madeFollows.bytesPushed_eq nextSame
  have stays : pair.first.accepts piece = ∅ →
      next.first.re.output.bytesPushed = pair.first.re.output.bytesPushed := by
    intro nothing
    apply follows.first.bytesPushed_eq_of_accepted madeFollows.first
    rw [accepted, nothing, Finset.union_empty]
  have pending : pair.second.trace.re.bytesPending = 0 ↔ pair.first.re.bytesPending = 0 := by
    rw [← agrees.bytesPending, Int.natCast_eq_zero]
  simp only [Reassembler.Completes, ← follows.second.trace.holds.bytesPushed_eq,
    ← madeFollows.second.trace.holds.bytesPushed_eq, ← pushed, ← nextPushed, pending, ← closed]
    at secondCloses
  rw [firstCloses, secondCloses, ReassemblerV1.Trace.Closes, marked, ByteStream.isClosed]
  by_cases empty : piece.data = []
  · -- nothing is pushed, so the outputs are closed by the empty string itself or not at all
    have still := stays (by
      rw [ReassemblerV1.Trace.accepts, Piece.positions_eq_empty empty, Finset.empty_inter, ite_self])
    have settled : pair.first.re.output.bytesPushed = stream.length →
        pair.first.re.bytesPending = 0 := by
      intro complete
      rw [← pending]
      apply follows.second.trace.holds.size_eq_zero
      rw [← follows.second.trace.holds.bytesPushed_eq, ← pushed, complete]
    have short : ¬ (pair.first.re.output.bytesPushed < stream.length ∧
        pair.first.re.output.bytesPushed = stream.length) := by omega
    rw [still]
    simp only [empty, short, and_false, or_false, true_and, forall_const, Bool.or_eq_true]
    constructor
    · intro same ends finished going
      rcases same.mpr (.inr ⟨ends, finished⟩) with before | ⟨-, unmarked, -, complete⟩
      · rw [going] at before
        cases before
      · exact ⟨unmarked, complete⟩
    · intro late
      constructor
      · rintro (before | ⟨-, -, last, complete⟩)
        · exact .inl before
        · exact .inr ⟨.inr last, settled complete⟩
      · rintro (before | ⟨ends, finished⟩)
        · exact .inl before
        · by_cases before : pair.first.re.output.close = true
          · exact .inl before
          · have going : pair.first.re.output.close = false := by simpa using before
            obtain ⟨unmarked, complete⟩ := late ends finished going
            have last : piece.isLast = true := by
              rcases ends with marked | last
              · rw [unmarked] at marked
                cases marked
              · exact last
            exact .inr ⟨ReassemblerV1.Trace.not_discards unmarked piece, unmarked, last, complete⟩
  · -- both close the output when the bytes of the string complete the stream
    simp only [empty, false_and, and_false, false_or, false_imp_iff, iff_true]
    constructor
    · rintro (before | ⟨-, ends⟩)
      · exact .inl before
      · exact .inr ends
    · rintro (before | ends)
      · exact .inl before
      · refine .inr ⟨?_, ends⟩
        intro discards
        have still := stays (if_pos discards)
        omega

theorem insert_agrees_iff (follows : pair.Follows stream capacity) (agrees : pair.Agrees)
    (piece : Piece stream) {next : Pair} (stepped : pair.step (.insert piece) = .ok next) :
    next.Agrees ↔ pair.Matches (.insert piece) next := by
  have same := (follows.agrees_iff.mp agrees).1
  obtain ⟨made, madeStepped, madeFollows, given, accepted, -⟩ := step_insert follows same piece
  have closed := insert_closed_iff follows agrees piece stepped
  rw [stepped] at madeStepped
  cases madeStepped
  rw [madeFollows.agrees_iff, and_congr_right closed, given, accepted,
    follows.accepted_iff same piece, and_assoc]
  rfl

theorem step_agrees_iff (pair : Pair) (event : Event stream) (next : Pair)
    (follows : pair.Follows stream capacity) (stepped : pair.step event = .ok next)
    (agrees : pair.Agrees) : next.Agrees ↔ pair.Matches event next := by
  cases event with
  | insert piece => exact insert_agrees_iff follows agrees piece stepped
  | pop len =>
      have nextFollows := step_keeps pair (.pop len) next follows stepped agrees
      refine iff_of_true ?_ trivial
      rw [nextFollows.agrees_iff]
      obtain ⟨first, firstStepped, -⟩ := ReassemblerV1.Trace.pop_follows follows.first len
      cases firstStepped
      cases stepped
      exact follows.agrees_iff.mp agrees

theorem run_total (stream : Bytes) (capacity : Nat) (events : List (Event stream)) :
    ∃ last, Runs.run step (start capacity) events = .ok last := by
  have begins := start_follows stream capacity
  have follows : ∃ last, Runs.run step (start capacity) events = .ok last ∧
      last.first.Follows stream capacity ∧ last.second.Follows stream capacity := by
    refine Runs.run_invariant (motive := fun _ (last : Pair) =>
      last.first.Follows stream capacity ∧ last.second.Follows stream capacity)
      ⟨begins.first, begins.second⟩ ?_ events
    intro _ pair event follows
    obtain ⟨first, firstStepped, firstFollows⟩ :=
      ReassemblerV1.Trace.step_follows follows.1 event
    obtain ⟨second, secondStepped, secondFollows⟩ :=
      Reassembler.MarkedTrace.step_follows follows.2 event
    refine ⟨⟨first, second⟩, ?_, firstFollows, secondFollows⟩
    simp only [step, firstStepped, secondStepped]
  obtain ⟨last, ran, -⟩ := follows
  exact ⟨last, ran⟩

/-- The two reassemblers push the same bytes, report the same `bytes_pending` and close together after
every call of a run exactly when every call of it suits both. -/
theorem always_agrees_iff (stream : Bytes) (capacity : Nat) (events : List (Event stream)) :
    (∃ last, Runs.run step (start capacity) events = .ok last) ∧
      (Runs.Always step Agrees (start capacity) events ↔
        Runs.EachStep step Matches (start capacity) events) := by
  refine ⟨run_total stream capacity events, ?_⟩
  have permits : Runs.Permits step (fun _ _ => True) (start capacity) events :=
    Runs.permits_of_forall (fun _ _ => trivial)
  apply Runs.always_iff_eachStep_of_holding
    (fun pair event next (follows : pair.Follows stream capacity) _ stepped agrees =>
      step_keeps pair event next follows stepped agrees) _ events
    (start_follows stream capacity) ⟨rfl, rfl, rfl⟩ permits
  intro pair event next follows _ stepped agrees
  exact step_agrees_iff pair event next follows stepped agrees

def endOnly : Piece [97] :=
  ⟨1, 1, true, endMark.order, onlyByte.inside, endMark.closing⟩

theorem end_closes_second_only :
    ∃ last, Runs.run step (start 4) [.insert endOnly] = .ok last ∧
      last.first.re.output.isClosed = false ∧ last.second.trace.re.output.isClosed = true ∧
      ¬ last.Agrees := by
  refine ⟨_, rfl, rfl, rfl, ?_⟩
  intro agrees
  cases agrees.isClosed

end Pair

end LearnInternet.Tcp.Rewrite
