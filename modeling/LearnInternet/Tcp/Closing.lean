import LearnInternet.Tcp.Reassembly

/-!
When the second `Reassembler` closes its output: a string without bytes closes it whenever nothing is
pending and the end is known, and a marked string that brings no new byte does not close it.
-/

namespace LearnInternet.Tcp.Reassembler

open Spans

variable {stream popped : Bytes} {re : Reassembler}

theorem Holds.size_eq_zero (holds : re.Holds stream popped)
    (complete : re.waitingIndex = stream.length) : re.size = 0 := by
  rw [holds.size_eq, total_eq_zero]
  · rfl
  · intro span member
    obtain ⟨entry, cached, rfl⟩ := List.mem_map.mp member
    have ahead := holds.stored.ahead entry cached
    have inside := (holds.stored.slices entry cached).inside
    simp only [Entry.span]
    omega

theorem writeEntry_frame (re : Reassembler) (it : Entry) (rest : List Entry) :
    (re.writeEntry it rest).output.close = re.output.close ∧
      (re.writeEntry it rest).isInit = re.isInit ∧
      (re.writeEntry it rest).eofEndIndex = re.eofEndIndex := by
  simp only [writeEntry]
  generalize (if re.output.availableCapacity > it.data.length then it.data.length
    else re.output.availableCapacity) = count
  have close := (ByteStream.push_frame re.output (it.data.take count)).2.2
  split
  · exact ⟨close, rfl, rfl⟩
  · exact ⟨close, rfl, rfl⟩

theorem writeFrom_frame {rounds : Nat} {written : Reassembler}
    (writes : writeFrom rounds re = .ok written) :
    written.output.close = re.output.close ∧ written.isInit = re.isInit ∧
      written.eofEndIndex = re.eofEndIndex := by
  induction rounds generalizing re with
  | zero => cases writes
  | succ rounds ih =>
      simp only [writeFrom] at writes
      split at writes
      · cases writes
        exact ⟨rfl, rfl, rfl⟩
      · rename_i it rest cached
        split at writes
        · cases writes
          exact ⟨rfl, rfl, rfl⟩
        · obtain ⟨close, isInit, eofEndIndex⟩ := ih writes
          have kept := re.writeEntry_frame it rest
          exact ⟨close.trans kept.1, isInit.trans kept.2.1, eofEndIndex.trans kept.2.2⟩

theorem cacheIn_frame {firstIndex : Nat} {data : Bytes} {result : Bool} {cached : Reassembler}
    (caches : re.cacheIn firstIndex data = .ok (result, cached)) :
    cached = { re with cache := cached.cache, size := cached.size } := by
  simp only [cacheIn] at caches
  split at caches
  · cases caches
  · cases caches
    rfl

def Completes (stream : Bytes) (re inserted : Reassembler) : Prop :=
  re.waitingIndex < stream.length ∧ inserted.waitingIndex = stream.length

theorem insertFiltered_closes (piece : Piece stream) (holds : re.Holds stream popped)
    (tail_eq : re.tailIndex = Int64.ofNat (popped.length + re.output.capacity))
    (regular : re.isInit = true → ¬ (piece.data = [] ∧ re.size = 0)) {inserted : Reassembler}
    (inserts : re.insertFiltered piece.first piece.data = .ok inserted) :
    inserted.isInit = re.isInit ∧
      (inserted.output.close = true ↔
        re.output.close = true ∨ re.isInit = true ∧ Completes stream re inserted) := by
  rcases holds.filter_spec piece tail_eq with
    ⟨dropped, -⟩ | ⟨entry, passed, slices, ahead, within, -⟩
  · simp only [insertFiltered, dropped] at inserts
    cases inserts
    refine ⟨rfl, ?_⟩
    simp only [Completes]
    constructor
    · exact Or.inl
    · rintro (closed | ⟨-, below, complete⟩)
      · exact closed
      · omega
  · obtain ⟨result, cached, caches, cachedHolds, -, -, -⟩ :=
      cacheIn_holds holds slices ahead within
    have frame := cacheIn_frame caches
    have same : cached.output.close = re.output.close ∧ cached.isInit = re.isInit ∧
        cached.waitingIndex = re.waitingIndex := by
      rw [frame]
      exact ⟨rfl, rfl, rfl⟩
    simp only [insertFiltered, passed, caches] at inserts
    cases result with
    | false =>
        cases inserts
        rw [same.1]
        refine ⟨same.2.1, Or.inl, ?_⟩
        rintro (closed | ⟨-, below, complete⟩)
        · exact closed
        · rw [same.2.2] at complete
          omega
    | true =>
        obtain ⟨written, writes, writtenHolds, -, -, -⟩ :=
          writeFrom_holds (cached.cache.length + 1) cachedHolds (by omega)
        obtain ⟨close, isInit, -⟩ := writeFrom_frame writes
        have open_of_bytes : re.isInit = true → re.waitingIndex < stream.length := by
          intro known
          by_contra complete
          have waiting := holds.waiting_le
          apply regular known
          refine ⟨?_, holds.size_eq_zero (by omega)⟩
          by_contra bytes
          have inside := piece.inside
          have order := piece.order
          have length := piece.length_data
          have dropped : re.windowFilter piece.first piece.data = .ok none :=
            if_pos ⟨bytes, Or.inr (by omega)⟩
          rw [dropped] at passed
          cases passed
        simp only [write, writes] at inserts
        have waiting := writtenHolds.waiting_le
        split at inserts
        · rename_i ended
          cases inserts
          have known : re.isInit = true := by rw [← same.2.1, ← isInit, ended.1]
          have complete : written.waitingIndex = stream.length := by
            have reached := ended.2
            rw [writtenHolds.end_eq ended.1] at reached
            omega
          exact ⟨isInit.trans same.2.1,
            iff_of_true rfl (Or.inr ⟨known, open_of_bytes known, complete⟩)⟩
        · rename_i going
          cases inserts
          rw [close, same.1]
          refine ⟨isInit.trans same.2.1, Or.inl, ?_⟩
          rintro (closed | ⟨known, -, complete⟩)
          · exact closed
          · have started : inserted.isInit = true := by rw [isInit, same.2.1, known]
            have ends := writtenHolds.end_eq started
            exact absurd ⟨started, by omega⟩ going

theorem eofCut_cases (piece : Piece stream) (end_eq : re.eofEndIndex = stream.length) :
    (piece.data = [] ∧ re.size = 0) ∧
        re.eofCut piece.first piece.data =
          ({ re with output := re.output.closeWriter }, none) ∨
      ¬ (piece.data = [] ∧ re.size = 0) ∧
        (re.eofCut piece.first piece.data = (re, none) ∨
          re.eofCut piece.first piece.data = (re, some (piece.first, piece.data))) := by
  have order := piece.order
  have inside := piece.inside
  have length := piece.length_data
  by_cases special : piece.data = [] ∧ re.size = 0
  · left
    refine ⟨special, if_pos ?_⟩
    rw [special.1]
    exact ⟨rfl, special.2⟩
  · right
    refine ⟨special, ?_⟩
    have bytes : ¬ (piece.data.length = 0 ∧ re.size = 0) := by
      rw [List.length_eq_zero_iff]
      exact special
    rw [eofCut, if_neg bytes]
    split
    · left
      rfl
    · right
      rw [if_neg]
      omega

theorem known_end_closes (piece : Piece stream) (holds : re.Holds stream popped)
    (tail_eq : re.tailIndex = Int64.ofNat (popped.length + re.output.capacity)) (isInit : re.isInit = true)
    {inserted : Reassembler}
    (inserts : (match re.eofCut piece.first piece.data with
      | (re, none) => Except.ok re
      | (re, some (firstIndex, data)) => re.insertFiltered firstIndex data) = .ok inserted) :
    inserted.isInit = true ∧
      (inserted.output.close = true ↔ re.output.close = true ∨
        (piece.data = [] ∧ re.size = 0) ∨ Completes stream re inserted) := by
  rcases eofCut_cases piece (holds.end_eq isInit) with ⟨special, cut⟩ | ⟨regular, cut | cut⟩
  · simp only [cut] at inserts
    cases inserts
    exact ⟨isInit, iff_of_true rfl (Or.inr (Or.inl special))⟩
  · simp only [cut] at inserts
    cases inserts
    refine ⟨isInit, ?_⟩
    simp only [regular, false_or, Completes]
    constructor
    · exact Or.inl
    · rintro (closed | ⟨below, complete⟩)
      · exact closed
      · omega
  · simp only [cut] at inserts
    obtain ⟨stays, closes⟩ :=
      insertFiltered_closes piece holds tail_eq (fun _ => regular) inserts
    refine ⟨stays.trans isInit, ?_⟩
    simp only [closes, isInit, true_and, regular, false_or]

theorem managed_closes (piece : Piece stream) (holds : re.Holds stream popped)
    (tail_eq : re.tailIndex = Int64.ofNat (popped.length + re.output.capacity)) {inserted : Reassembler}
    (inserts : (match re.eofManager piece.first piece.data piece.isLast with
      | (re, none) => Except.ok re
      | (re, some (firstIndex, data)) => re.insertFiltered firstIndex data) = .ok inserted) :
    inserted.isInit = (re.isInit || piece.isLast) ∧
      (inserted.output.close = true ↔ re.output.close = true ∨
        (re.isInit || piece.isLast) = true ∧
          (piece.data = [] ∧ re.size = 0 ∨ Completes stream re inserted)) := by
  simp only [eofManager] at inserts
  cases known : re.isInit with
  | true =>
      simp only [known, Bool.not_true, Bool.false_and, Bool.false_eq_true, if_false] at inserts
      simp only [Bool.true_or, true_and]
      exact known_end_closes piece holds tail_eq known inserts
  | false =>
      cases last : piece.isLast with
      | false =>
          simp only [known, last, Bool.not_false, Bool.and_true, if_true] at inserts
          obtain ⟨stays, closes⟩ := insertFiltered_closes piece holds tail_eq (by simp [known]) inserts
          simp only [known, Bool.false_eq_true, false_and, or_false] at closes
          simp only [Bool.or_self, Bool.false_eq_true, false_and, or_false]
          exact ⟨stays.trans known, closes⟩
      | true =>
          have order := piece.order
          have ends := piece.closing last
          simp only [known, last, Bool.not_false, Bool.not_true, Bool.and_false,
            Bool.and_true, Bool.false_eq_true, if_false, if_true] at inserts
          have marked : (re.init (piece.first + piece.data.length)).Holds stream popped := by
            apply holds.withEnd true
            rw [piece.length_data]
            omega
          simp only [Bool.false_or, true_and]
          exact known_end_closes piece marked tail_eq rfl inserts

theorem insert_closes (piece : Piece stream) (holds : re.Holds stream popped)
    {inserted : Reassembler}
    (inserts : re.insert piece.first piece.data piece.isLast = .ok inserted) :
    inserted.isInit = (re.isInit || piece.isLast) ∧
      (inserted.output.close = true ↔ re.output.close = true ∨
        (re.isInit || piece.isLast) = true ∧
          (piece.data = [] ∧ re.size = 0 ∨ Completes stream re inserted)) := by
  have opened := holds.withWindow (Int64.ofNat (re.waitingIndex + re.output.availableCapacity))
  exact managed_closes piece opened (congrArg Int64.ofNat holds.window_eq) inserts

def Event.isLast : Event stream → Bool
  | .insert piece => piece.isLast
  | .pop _ => false

/-- A run, and whether some insert so far was marked as the last. -/
structure MarkedTrace where
  trace : Trace
  marked : Bool

namespace MarkedTrace

def start (capacity : Nat) : MarkedTrace := ⟨Trace.start capacity, false⟩

def step (run : MarkedTrace) (event : Event stream) : Except Fault MarkedTrace :=
  match run.trace.step event with
  | .error fault => .error fault
  | .ok trace => .ok ⟨trace, run.marked || event.isLast⟩

def ClosedAtEnd (stream : Bytes) (run : MarkedTrace) : Prop :=
  run.trace.re.output.isClosed = true ↔
    run.marked = true ∧ run.trace.re.output.bytesPushed = stream.length

/-- With the end known, a string without bytes that finds nothing pending finds the stream complete;
and the first marked string, if it finds the stream complete, has no bytes. -/
def EndsInOrder (run : MarkedTrace) : Event stream → MarkedTrace → Prop
  | .insert piece, _ =>
      (piece.data = [] → (run.marked || piece.isLast) = true → run.trace.re.bytesPending = 0 →
        run.trace.re.output.bytesPushed = stream.length) ∧
      (piece.isLast = true → run.marked = false →
        run.trace.re.output.bytesPushed = stream.length → piece.data = [])
  | .pop _, _ => True

structure Follows (stream : Bytes) (capacity : Nat) (run : MarkedTrace) : Prop where
  trace : run.trace.Follows stream capacity
  isInit_eq : run.trace.re.isInit = run.marked

variable {run : MarkedTrace} {capacity : Nat}

theorem start_follows (stream : Bytes) (capacity : Nat) :
    (start capacity).Follows stream capacity :=
  ⟨Trace.start_follows stream capacity, rfl⟩

theorem step_insert (follows : run.Follows stream capacity) (piece : Piece stream) :
    ∃ next, run.step (.insert piece) = .ok next ∧ next.Follows stream capacity ∧
      next.marked = (run.marked || piece.isLast) ∧
      (next.trace.re.output.close = true ↔ run.trace.re.output.close = true ∨
        next.marked = true ∧ (piece.data = [] ∧ run.trace.re.bytesPending = 0 ∨
          Completes stream run.trace.re next.trace.re)) ∧
      next.trace.given = run.trace.given ∪ piece.span.positions ∩
        Finset.range (run.trace.re.output.windowEnd piece.first) ∧
      next.trace.popped = run.trace.popped := by
  obtain ⟨next, stepped, nextFollows, -⟩ := Trace.step_follows follows.trace (.insert piece)
  cases inserts : run.trace.re.insert piece.first piece.data piece.isLast with
  | error fault => simp [Trace.step, inserts] at stepped
  | ok inserted =>
      simp only [Trace.step, inserts] at stepped
      cases stepped
      obtain ⟨isInit, closes⟩ := insert_closes piece follows.trace.holds inserts
      rw [follows.isInit_eq] at isInit closes
      refine ⟨⟨_, run.marked || piece.isLast⟩, ?_, ⟨nextFollows, isInit⟩, rfl, closes, rfl, rfl⟩
      simp only [step, Trace.step, inserts, Event.isLast]

theorem step_follows (follows : run.Follows stream capacity) (event : Event stream) :
    ∃ next, run.step event = .ok next ∧ next.Follows stream capacity := by
  cases event with
  | insert piece =>
      obtain ⟨next, stepped, nextFollows, -⟩ := step_insert follows piece
      exact ⟨next, stepped, nextFollows⟩
  | pop len =>
      obtain ⟨next, stepped, nextFollows, -⟩ := Trace.step_follows follows.trace (.pop len)
      cases stepped
      refine ⟨_, rfl, nextFollows, ?_⟩
      simp only [Event.isLast, Bool.or_false]
      exact follows.isInit_eq

theorem insert_closedAtEnd_iff (follows : run.Follows stream capacity)
    (closedAtEnd : run.ClosedAtEnd stream) (piece : Piece stream) {next : MarkedTrace}
    (stepped : run.step (.insert piece) = .ok next) :
    next.ClosedAtEnd stream ↔ run.EndsInOrder (.insert piece) next := by
  obtain ⟨made, madeStepped, madeFollows, marked, closes, given, -⟩ := step_insert follows piece
  rw [stepped] at madeStepped
  cases madeStepped
  have bound := madeFollows.trace.pushed_eq.2
  have grows : run.trace.re.output.bytesPushed ≤ next.trace.re.output.bytesPushed := by
    rw [← madeFollows.trace.range_subset_iff, given]
    exact (follows.trace.range_subset_iff _).mpr le_rfl |>.trans Finset.subset_union_left
  have stays : piece.data = [] →
      next.trace.re.output.bytesPushed ≤ run.trace.re.output.bytesPushed := by
    intro empty
    rw [Piece.positions_eq_empty empty, Finset.empty_inter, Finset.union_empty] at given
    rw [← follows.trace.range_subset_iff, ← given]
    exact (madeFollows.trace.range_subset_iff _).mpr le_rfl
  have nothing := follows.trace.holds.size_eq_zero
  simp only [Completes, ← follows.trace.holds.bytesPushed_eq,
    ← madeFollows.trace.holds.bytesPushed_eq] at closes nothing
  simp only [ClosedAtEnd, ByteStream.isClosed] at closedAtEnd ⊢
  rw [closes]
  constructor
  · intro closed
    constructor
    · intro empty ends pending
      have complete := (closed.mp (.inr ⟨marked.trans ends, .inl ⟨empty, pending⟩⟩)).2
      have same := stays empty
      omega
    · intro last unmarked complete
      have ends : next.marked = true := by rw [marked, last, Bool.or_true]
      rcases closed.mpr ⟨ends, by omega⟩ with before | ⟨-, ⟨empty, -⟩ | ⟨below, -⟩⟩
      · rw [(closedAtEnd.mp before).1] at unmarked
        cases unmarked
      · exact empty
      · omega
  · rintro ⟨emptyLate, markedEarly⟩
    constructor
    · rintro (before | ⟨ends, ⟨empty, pending⟩ | ⟨-, complete⟩⟩)
      · obtain ⟨already, complete⟩ := closedAtEnd.mp before
        exact ⟨by rw [marked, already, Bool.true_or], by omega⟩
      · have complete := emptyLate empty (marked.symm.trans ends) pending
        exact ⟨ends, by omega⟩
      · exact ⟨ends, complete⟩
    · rintro ⟨ends, complete⟩
      by_cases below : run.trace.re.output.bytesPushed < stream.length
      · exact .inr ⟨ends, .inr ⟨below, complete⟩⟩
      · have already : run.trace.re.output.bytesPushed = stream.length := by omega
        cases unmarked : run.marked with
        | true => exact .inl (closedAtEnd.mpr ⟨unmarked, already⟩)
        | false =>
            rw [marked, unmarked, Bool.false_or] at ends
            have empty := markedEarly ends unmarked already
            refine .inr ⟨?_, .inl ⟨empty, nothing already⟩⟩
            rw [marked, unmarked, ends]
            rfl

theorem step_closedAtEnd_iff (run : MarkedTrace) (event : Event stream) (next : MarkedTrace)
    (follows : run.Follows stream capacity) (stepped : run.step event = .ok next)
    (closedAtEnd : run.ClosedAtEnd stream) :
    next.ClosedAtEnd stream ↔ run.EndsInOrder event next := by
  cases event with
  | insert piece => exact insert_closedAtEnd_iff follows closedAtEnd piece stepped
  | pop len =>
      cases stepped
      refine iff_of_true ?_ trivial
      simp only [ClosedAtEnd, Event.isLast, Bool.or_false]
      exact closedAtEnd

/-- After every insert the output is closed exactly when the stream is complete and its end marked,
throughout a run exactly when every insert of the run is in order. -/
theorem always_closedAtEnd_iff (stream : Bytes) (capacity : Nat) (events : List (Event stream)) :
    (∃ last, Runs.run step (start capacity) events = .ok last) ∧
      (Runs.Always step (ClosedAtEnd stream) (start capacity) events ↔
        Runs.EachStep step EndsInOrder (start capacity) events) := by
  have permits : Runs.Permits step (fun _ _ => True) (start capacity) events :=
    Runs.permits_of_forall (fun _ _ => trivial)
  apply Runs.run_and_always_iff_eachStep
    (fun run event (follows : run.Follows stream capacity) _ => step_follows follows event) _ events
    (start_follows stream capacity) _ permits
  · intro run event next follows _ stepped closedAtEnd
    exact step_closedAtEnd_iff run event next follows stepped closedAtEnd
  · simp [ClosedAtEnd, start, Trace.start, ofStream, ByteStream.ofCapacity, ByteStream.isClosed]

def earlyMark : Piece [97] := ⟨1, 1, true, by decide, by decide, by decide⟩

theorem early_mark_closes :
    ∃ last, Runs.run step (start 4) [.insert earlyMark] = .ok last ∧
      last.trace.re.output.isClosed = true ∧ last.trace.re.output.bytesPushed = 0 ∧
      ¬ last.ClosedAtEnd [97] := by
  refine ⟨⟨⟨_, _, _⟩, _⟩, rfl, rfl, rfl, ?_⟩
  intro closedAtEnd
  exact absurd (closedAtEnd.mp rfl).2 (by decide)

end MarkedTrace

end LearnInternet.Tcp.Reassembler
