import LearnInternet.Tcp.Closing

/-!
A second `Reassembler` copied or moved from the first. The constructors hand on the output and the
counters, but the cache and the knowledge of the end belong to the managers, which are made anew.
-/

namespace LearnInternet.Tcp.Reassembler

open Spans

/-- `CM_` with an empty `cache_` and `EOFM_` with `is_init_` false; `size_` and the indices are
those of the other. -/
def rebuilt (other : Reassembler) : Reassembler := { other with isInit := false, cache := [] }

def copyConstruct (other : Reassembler) : Reassembler := other.rebuilt

def moveConstruct (other : Reassembler) : Reassembler := other.rebuilt

variable {stream : Bytes} {re : Reassembler} {capacity : Nat} {trace : Trace}

def handle (re : Reassembler) : Event stream → Except Fault Reassembler
  | .insert piece => re.insert piece.first piece.data piece.isLast
  | .pop len => .ok { re with output := re.output.pop len }

structure Alike (re other : Reassembler) : Prop where
  buffer : other.output.buffer = re.output.buffer
  bytesPushed : other.output.bytesPushed = re.output.bytesPushed
  bytesPending : other.bytesPending = re.bytesPending
  isClosed : other.output.isClosed = re.output.isClosed

/-- Whatever is inserted and popped from here on, the two look alike. -/
def SameFuture (stream : Bytes) (re other : Reassembler) : Prop :=
  ∀ further : List (Event stream), ∃ one another,
    Runs.run handle re further = .ok one ∧ Runs.run handle other further = .ok another ∧
      Alike one another

/-! Where the end of the window is negative neither takes anything, as long as something is pending. -/

structure Shut (re : Reassembler) : Prop where
  pending : re.size ≠ 0
  beyond : 2 ^ 63 ≤ re.waitingIndex + re.output.availableCapacity
  below : re.waitingIndex + re.output.capacity < 2 ^ 64

theorem eofCut_of_pending (pending : re.size ≠ 0) (firstIndex : Nat) (data : Bytes) :
    (re.eofCut firstIndex data).1 = re := by
  rw [eofCut, if_neg (fun special => pending special.2)]
  split
  · rfl
  · split
    · rfl
    · rfl

theorem eofManager_of_pending (pending : re.size ≠ 0) (firstIndex : Nat) (data : Bytes)
    (isLastSubstring : Bool) :
    ∃ isInit eofEndIndex, (re.eofManager firstIndex data isLastSubstring).1 =
      { re with isInit, eofEndIndex } := by
  rw [eofManager]
  split
  · exact ⟨_, _, rfl⟩
  · split
    · refine ⟨true, _, eofCut_of_pending ?_ firstIndex data⟩
      exact pending
    · exact ⟨_, _, eofCut_of_pending pending firstIndex data⟩

theorem Shut.insert (shut : re.Shut) (firstIndex : Nat) (data : Bytes) (isLastSubstring : Bool) :
    ∃ inserted, re.insert firstIndex data isLastSubstring = .ok inserted ∧
      inserted.output = re.output ∧ inserted.waitingIndex = re.waitingIndex ∧
      inserted.size = re.size := by
  have window : re.output.availableCapacity ≤ re.output.capacity := Nat.sub_le _ _
  have below := shut.below
  have pending : Reassembler.size { re with
      tailIndex := Int64.ofNat (re.waitingIndex + re.output.availableCapacity) } ≠ 0 := shut.pending
  obtain ⟨isInit, eofEndIndex, managed⟩ :=
    eofManager_of_pending pending firstIndex data isLastSubstring
  have negative : (Reassembler.tailIndex { re with
      tailIndex := Int64.ofNat (re.waitingIndex + re.output.availableCapacity)
      isInit
      eofEndIndex }).toInt < 0 :=
    toInt_int64_neg shut.beyond (by omega)
  simp only [Reassembler.insert]
  generalize eofManager _ firstIndex data isLastSubstring = filtered at managed ⊢
  obtain ⟨filtered, passed⟩ := filtered
  simp only at managed
  subst managed
  cases passed with
  | none => exact ⟨_, rfl, rfl, rfl, rfl⟩
  | some passed =>
      simp only [insertFiltered, windowFilter_missed passed.1 passed.2
        (.inl (negative.le.trans (Int.natCast_nonneg _)))]
      exact ⟨_, rfl, rfl, rfl, rfl⟩

structure Stuck (re other : Reassembler) : Prop where
  shut : re.Shut
  output : other.output = re.output
  waitingIndex : other.waitingIndex = re.waitingIndex
  size : other.size = re.size

theorem Stuck.other_shut {other : Reassembler} (stuck : Stuck re other) : other.Shut := by
  obtain ⟨⟨pending, beyond, below⟩, output, waitingIndex, size⟩ := stuck
  exact ⟨size ▸ pending, by rw [waitingIndex, output]; exact beyond,
    by rw [waitingIndex, output]; exact below⟩

theorem Stuck.handle {other : Reassembler} (stuck : Stuck re other) (event : Event stream) :
    ∃ one another, re.handle event = .ok one ∧ other.handle event = .ok another ∧
      Stuck one another := by
  have shut := stuck.shut
  cases event with
  | insert piece =>
      obtain ⟨one, oneInserts, oneOutput, oneWaits, oneSize⟩ :=
        shut.insert piece.first piece.data piece.isLast
      obtain ⟨another, anotherInserts, anotherOutput, anotherWaits, anotherSize⟩ :=
        stuck.other_shut.insert piece.first piece.data piece.isLast
      refine ⟨one, another, oneInserts, anotherInserts, ⟨⟨?_, ?_, ?_⟩, ?_, ?_, ?_⟩⟩
      · rw [oneSize]
        exact shut.pending
      · rw [oneWaits, oneOutput]
        exact shut.beyond
      · rw [oneWaits, oneOutput]
        exact shut.below
      · rw [anotherOutput, oneOutput, stuck.output]
      · rw [anotherWaits, oneWaits, stuck.waitingIndex]
      · rw [anotherSize, oneSize, stuck.size]
  | pop len =>
      refine ⟨_, _, rfl, rfl, ⟨⟨shut.pending, ?_, shut.below⟩, ?_, stuck.waitingIndex, stuck.size⟩⟩
      · have more : re.output.availableCapacity ≤ (re.output.pop len).availableCapacity := by
          simp only [ByteStream.availableCapacity, ByteStream.pop, List.length_drop]
          omega
        have beyond := shut.beyond
        simp only
        omega
      · simp only [stuck.output]

theorem Stuck.sameFuture {other : Reassembler} (stuck : Stuck re other) :
    SameFuture stream re other := by
  intro further
  induction further generalizing re other with
  | nil =>
      refine ⟨_, _, rfl, rfl, ?_, ?_, stuck.size, ?_⟩
      · rw [stuck.output]
      · rw [stuck.output]
      · rw [stuck.output]
  | cons event further ih =>
      obtain ⟨one, another, oneHandled, anotherHandled, next⟩ := stuck.handle event
      rw [Runs.run_cons oneHandled, Runs.run_cons anotherHandled]
      exact ih next

/-! Where nothing is pending the two know the same bytes. -/

theorem Holds.known_of_nothing_pending {popped : Bytes} (holds : re.Holds stream popped)
    (nothing : re.size = 0) : re.known = Finset.range re.waitingIndex := by
  have few : re.known.card ≤ (Finset.range re.waitingIndex).card := by
    have sizes := holds.size_eq
    rw [Finset.card_range, holds.card_known]
    omega
  exact (Finset.eq_of_subset_of_card_le Finset.subset_union_left few).symm

theorem rebuilt_follows (follows : trace.Follows stream capacity) (nothing : trace.re.size = 0) :
    Trace.Follows stream capacity ⟨trace.re.rebuilt, trace.popped, trace.given⟩ := by
  have holds := follows.holds
  refine ⟨⟨holds.waiting_le, holds.pushed, holds.bytesPushed_eq, holds.bytesPopped_eq,
    ⟨nofun, List.Pairwise.nil, nofun, nofun⟩, nothing, nofun⟩, nofun, ?_, follows.capacity_eq⟩
  rw [← follows.known_eq, holds.known_of_nothing_pending nothing]
  simp [known, rebuilt]

theorem waitingIndex_of_given_eq {other : Trace} (follows : trace.Follows stream capacity)
    (otherFollows : other.Follows stream capacity) (same : other.given = trace.given) :
    other.re.waitingIndex = trace.re.waitingIndex := by
  rw [← follows.holds.bytesPushed_eq, ← otherFollows.holds.bytesPushed_eq]
  exact follows.bytesPushed_of_given_eq otherFollows same

namespace MarkedTrace

variable {run other next : MarkedTrace}

structure Twins (stream : Bytes) (capacity : Nat) (run other : MarkedTrace) : Prop where
  one : run.Follows stream capacity
  another : other.Follows stream capacity
  given : other.trace.given = run.trace.given
  popped : other.trace.popped = run.trace.popped
  close : other.trace.re.output.close = run.trace.re.output.close
  marked : other.marked = run.marked ∨ run.trace.re.output.close = true

theorem handle_of_step {event : Event stream} (stepped : run.step event = .ok next) :
    run.trace.re.handle event = .ok next.trace.re := by
  cases event with
  | insert piece =>
      cases inserts : run.trace.re.insert piece.first piece.data piece.isLast with
      | error fault =>
          simp only [step, Trace.step, inserts] at stepped
          cases stepped
      | ok inserted =>
          simp only [step, Trace.step, inserts] at stepped
          cases stepped
          exact inserts
  | pop len =>
      cases stepped
      rfl

theorem Twins.alike (twins : Twins stream capacity run other) :
    Alike run.trace.re other.trace.re := by
  obtain ⟨pushed, pending⟩ := twins.one.trace.same_of_given_eq twins.another.trace twins.given
  refine ⟨?_, ?_, pending, twins.close⟩
  · rw [Trace.pushed, Trace.pushed, twins.popped] at pushed
    exact List.append_cancel_left pushed
  · exact twins.one.trace.bytesPushed_of_given_eq twins.another.trace twins.given

theorem Twins.step (twins : Twins stream capacity run other) (event : Event stream) :
    ∃ one another, run.step event = .ok one ∧ other.step event = .ok another ∧
      Twins stream capacity one another := by
  cases event with
  | insert piece =>
      obtain ⟨one, oneStepped, oneFollows, oneMarked, oneCloses, oneGiven, onePopped⟩ :=
        step_insert twins.one piece
      obtain ⟨another, anotherStepped, anotherFollows, anotherMarked, anotherCloses, anotherGiven,
        anotherPopped⟩ := step_insert twins.another piece
      have given : another.trace.given = one.trace.given := by
        rw [anotherGiven, oneGiven, twins.given, ByteStream.windowEnd, ByteStream.windowEnd,
          twins.alike.bytesPushed, twins.one.trace.holds.bytesPopped_eq,
          twins.another.trace.holds.bytesPopped_eq, twins.popped, twins.one.trace.capacity_eq,
          twins.another.trace.capacity_eq]
      have waits := waitingIndex_of_given_eq twins.one.trace twins.another.trace twins.given
      have waitsNext := waitingIndex_of_given_eq oneFollows.trace anotherFollows.trace given
      rw [twins.alike.bytesPending, twins.close, Completes, waits, waitsNext, ← Completes]
        at anotherCloses
      have popped : another.trace.popped = one.trace.popped := by
        rw [anotherPopped, onePopped, twins.popped]
      refine ⟨one, another, oneStepped, anotherStepped, oneFollows, anotherFollows, given, popped,
        ?_, ?_⟩
      · rw [Bool.eq_iff_iff, oneCloses, anotherCloses]
        rcases twins.marked with same | closed
        · rw [anotherMarked, oneMarked, same]
        · exact iff_of_true (.inl closed) (.inl closed)
      · rcases twins.marked with same | closed
        · rw [anotherMarked, oneMarked, same]
          exact .inl rfl
        · exact .inr (oneCloses.mpr (.inl closed))
  | pop len =>
      obtain ⟨one, oneStepped, oneFollows⟩ := step_follows twins.one (.pop len)
      obtain ⟨another, anotherStepped, anotherFollows⟩ := step_follows twins.another (.pop len)
      cases oneStepped
      cases anotherStepped
      refine ⟨_, _, rfl, rfl, oneFollows, anotherFollows, twins.given, ?_, twins.close, ?_⟩
      · simp only [twins.popped, twins.alike.buffer]
      · simp only [Event.isLast, Bool.or_false]
        exact twins.marked

theorem Twins.sameFuture (twins : Twins stream capacity run other) :
    SameFuture stream run.trace.re other.trace.re := by
  intro further
  induction further generalizing run other with
  | nil => exact ⟨_, _, rfl, rfl, twins.alike⟩
  | cons event further ih =>
      obtain ⟨one, another, oneStepped, anotherStepped, next⟩ := twins.step event
      rw [Runs.run_cons (handle_of_step oneStepped), Runs.run_cons (handle_of_step anotherStepped)]
      exact ih next

end MarkedTrace

/-! Where the two part. -/

theorem write_single (re : Reassembler) {it : Entry} (cached : re.cache = [it])
    (atFront : it.first = re.waitingIndex)
    (fits : it.data.length ≤ re.output.availableCapacity) :
    re.write = .ok { re with
      output := re.output.push it.data
      size := re.size - it.data.length
      waitingIndex := re.waitingIndex + it.data.length
      cache := [] } := by
  simp [write, writeFrom, cached, atFront, writeEntry_of_fits re [] fits]

theorem insertFiltered_next_of_empty (re : Reassembler) (cached : re.cache = [])
    (unknown : re.isInit = false)
    (opened : re.tailIndex.toInt = re.waitingIndex + re.output.availableCapacity) {data : Bytes}
    (some : data ≠ []) (fits : data.length ≤ re.output.availableCapacity) :
    ∃ inserted, re.insertFiltered re.waitingIndex data = .ok inserted ∧
      inserted.output = re.output.push data := by
  have length : data.length ≠ 0 := mt List.eq_nil_of_length_eq_zero some
  have inside : re.windowFilter re.waitingIndex data =
      .ok (Option.some (re.waitingIndex, data)) := by
    rw [windowFilter, if_neg, if_neg, if_pos]
    · exact ⟨Nat.le_refl _, by omega⟩
    · exact fun empty => some empty.1
    · omega
  have caches : re.cacheIn re.waitingIndex data = .ok (true, { re with
      cache := [⟨re.waitingIndex, re.waitingIndex + data.length, data⟩]
      size := re.size + data.length }) := by
    simp [cacheIn, cached, cacheInFrom, settle, insertEntry]
  have writes := write_single { re with
    cache := [⟨re.waitingIndex, re.waitingIndex + data.length, data⟩]
    size := re.size + data.length } rfl rfl fits
  simp only [insertFiltered, inside, caches, writes]
  rw [if_neg (by simp [unknown])]
  exact ⟨_, rfl, rfl⟩

theorem insert_next_of_empty (re : Reassembler) (cached : re.cache = [])
    (unknown : re.isInit = false)
    (below : re.waitingIndex + re.output.availableCapacity < 2 ^ 63) {data : Bytes}
    (some : data ≠ []) (fits : data.length ≤ re.output.availableCapacity) :
    ∃ inserted, re.insert re.waitingIndex data false = .ok inserted ∧
      inserted.output = re.output.push data := by
  have managed : eofManager
      { re with tailIndex := Int64.ofNat (re.waitingIndex + re.output.availableCapacity) }
        re.waitingIndex data false =
      ({ re with tailIndex := Int64.ofNat (re.waitingIndex + re.output.availableCapacity) },
        Option.some (re.waitingIndex, data)) := by
    simp [eofManager, unknown]
  simp only [insert, managed]
  exact insertFiltered_next_of_empty
    { re with tailIndex := Int64.ofNat (re.waitingIndex + re.output.availableCapacity) }
    cached unknown (Int64.toInt_ofNat_of_lt below) some fits

theorem exists_gap (follows : trace.Follows stream capacity)
    (pending : trace.re.bytesPending ≠ 0) :
    ∃ entry ∈ trace.re.cache, trace.re.waitingIndex < entry.first ∧ entry.first < entry.stop := by
  by_contra nowhere
  apply pending
  rw [bytesPending, follows.holds.size_eq, total_eq_zero]
  · rfl
  · intro span member
    obtain ⟨entry, cached, rfl⟩ := List.mem_map.mp member
    by_contra bytes
    have ahead := follows.holds.stored.ahead entry cached
    have apart := follows.idle entry cached
    exact nowhere ⟨entry, cached, by omega, Nat.lt_of_not_le bytes⟩

theorem alike_of_insert {run next : MarkedTrace} {piece : Piece stream}
    (stepped : run.step (.insert piece) = .ok next) (same : SameFuture stream run.trace.re re)
    {inserted : Reassembler} (inserts : re.handle (.insert piece) = .ok inserted) :
    Alike next.trace.re inserted := by
  obtain ⟨one, another, oneRan, anotherRan, alike⟩ := same [.insert piece]
  rw [Runs.run_cons (MarkedTrace.handle_of_step stepped)] at oneRan
  rw [Runs.run_cons inserts] at anotherRan
  cases oneRan
  cases anotherRan
  exact alike

theorem nothing_pending_of_sameFuture (follows : trace.Follows stream capacity)
    (below : trace.re.output.bytesPopped + capacity < 2 ^ 63)
    (same : SameFuture stream trace.re trace.re.rebuilt) : trace.re.bytesPending = 0 := by
  by_contra pending
  obtain ⟨entry, cached, ahead, bytes⟩ := exists_gap follows pending
  have inside := (follows.holds.stored.slices entry cached).inside
  have within := follows.holds.stored.within entry cached
  have window := follows.holds.window_eq
  let gap : Piece stream :=
    ⟨trace.re.waitingIndex, entry.first, false, Nat.le_of_lt ahead, by omega, nofun⟩
  have length : gap.data.length = entry.first - trace.re.waitingIndex := gap.length_data
  have some : gap.data ≠ [] := by
    rw [← List.length_pos_iff, length]
    omega
  have run : MarkedTrace.Follows stream capacity ⟨trace, trace.re.isInit⟩ := ⟨follows, rfl⟩
  obtain ⟨next, stepped, nextFollows, -, -, given, -⟩ := MarkedTrace.step_insert run gap
  have popped := follows.holds.bytesPopped_eq
  have size := follows.capacity_eq
  have limit : trace.re.output.windowEnd gap.first = trace.popped.length + capacity := by
    rw [follows.holds.windowEnd_eq, cutEnd_of_lt (by omega) (by omega), size]
  obtain ⟨inserted, inserts, output⟩ := insert_next_of_empty trace.re.rebuilt rfl rfl
    (show trace.re.waitingIndex + trace.re.output.availableCapacity < 2 ^ 63 by omega) some
    (show gap.data.length ≤ trace.re.output.availableCapacity by omega)
  have alike := alike_of_insert stepped same inserts
  have copied : inserted.output.bytesPushed = entry.first := by
    have pushed := follows.holds.bytesPushed_eq
    have taken : gap.data.take trace.re.output.availableCapacity = gap.data :=
      List.take_of_length_le (by omega)
    rw [output, ByteStream.push_bytesPushed]
    simp only [rebuilt, taken, length, pushed]
    omega
  have original : entry.stop ≤ next.trace.re.output.bytesPushed := by
    rw [← nextFollows.trace.range_subset_iff, given, ← follows.known_eq]
    intro position below
    rw [Finset.mem_range] at below
    by_cases before : position < entry.first
    · by_cases waited : position < trace.re.waitingIndex
      · exact Finset.mem_union_left _ (Finset.mem_union_left _ (Finset.mem_range.mpr waited))
      · have windowed : position < trace.popped.length + capacity := by omega
        apply Finset.mem_union_right
        rw [Finset.mem_inter, mem_positions, Finset.mem_range, limit]
        exact ⟨⟨Nat.le_of_not_lt waited, before⟩, windowed⟩
    · apply Finset.mem_union_left
      apply Finset.mem_union_right
      rw [mem_covered]
      exact ⟨entry.span, List.mem_map_of_mem cached, Nat.le_of_not_lt before, below⟩
  rw [← alike.bytesPushed, copied] at original
  omega

theorem end_of_sameFuture (follows : trace.Follows stream capacity)
    (nothing : trace.re.bytesPending = 0)
    (same : SameFuture stream trace.re trace.re.rebuilt) :
    trace.re.isInit = false ∨ trace.re.output.isClosed = true := by
  by_contra neither
  rw [not_or, Bool.not_eq_false, Bool.not_eq_true] at neither
  obtain ⟨known, unclosed⟩ := neither
  let nothingMore : Piece stream := ⟨0, 0, false, Nat.le_refl _, Nat.zero_le _, nofun⟩
  have empty : nothingMore.data = [] := List.eq_nil_of_length_eq_zero nothingMore.length_data
  have run : MarkedTrace.Follows stream capacity ⟨trace, trace.re.isInit⟩ := ⟨follows, rfl⟩
  have copy : MarkedTrace.Follows stream capacity
      ⟨⟨trace.re.rebuilt, trace.popped, trace.given⟩, false⟩ :=
    ⟨rebuilt_follows follows nothing, rfl⟩
  obtain ⟨next, stepped, -, marked, closes, -⟩ := MarkedTrace.step_insert run nothingMore
  obtain ⟨made, madeStepped, -, unmarked, madeCloses, -⟩ := MarkedTrace.step_insert copy nothingMore
  have alike := alike_of_insert stepped same (MarkedTrace.handle_of_step madeStepped)
  have closed : next.trace.re.output.close = true := by
    apply closes.mpr
    rw [marked, known]
    exact .inr ⟨rfl, .inl ⟨empty, nothing⟩⟩
  have stays : made.trace.re.output.close = true := alike.isClosed.trans closed
  rcases madeCloses.mp stays with before | ⟨ends, -⟩
  · rw [← Bool.not_eq_true] at unclosed
    exact unclosed before
  · rw [unmarked] at ends
    cases ends

/-- Nothing is pending, and the end is not known or has come; or something is pending for good, since
the end of the window is negative as an `int64_t`. -/
def Copyable (re : Reassembler) : Prop :=
  re.bytesPending = 0 ∧ (re.isInit = false ∨ re.output.isClosed = true) ∨
    re.bytesPending ≠ 0 ∧ 2 ^ 63 ≤ re.output.bytesPopped + re.output.capacity

theorem rebuilt_sameFuture_iff (follows : trace.Follows stream capacity)
    (below : trace.re.bytesPending ≠ 0 → trace.re.waitingIndex + capacity < 2 ^ 64) :
    SameFuture stream trace.re trace.re.rebuilt ↔ trace.re.Copyable := by
  have window := follows.holds.window_eq
  have popped := follows.holds.bytesPopped_eq
  have size := follows.capacity_eq
  constructor
  · intro same
    by_cases nothing : trace.re.bytesPending = 0
    · exact .inl ⟨nothing, end_of_sameFuture follows nothing same⟩
    · refine .inr ⟨nothing, ?_⟩
      by_contra early
      exact nothing (nothing_pending_of_sameFuture follows (by omega) same)
  · rintro (⟨nothing, ends⟩ | ⟨pending, beyond⟩)
    · have twins : MarkedTrace.Twins stream capacity ⟨trace, trace.re.isInit⟩
          ⟨⟨trace.re.rebuilt, trace.popped, trace.given⟩, false⟩ := by
        refine ⟨⟨follows, rfl⟩, ⟨rebuilt_follows follows nothing, rfl⟩, rfl, rfl, rfl, ?_⟩
        rcases ends with unknown | closed
        · exact .inl unknown.symm
        · exact .inr closed
      exact twins.sameFuture
    · have small := below pending
      apply Stuck.sameFuture
      exact ⟨⟨pending, by omega, by omega⟩, rfl, rfl, rfl⟩

namespace Trace

theorem step_given_empty (follows : trace.Follows stream capacity) (large : 2 ^ 63 ≤ capacity)
    (word : capacity < 2 ^ 64) (none : trace.given = ∅) (event : Event stream) :
    ∃ next, trace.step event = .ok next ∧ next.Follows stream capacity ∧ next.given = ∅ := by
  obtain ⟨next, stepped, nextFollows, -⟩ := step_follows follows event
  refine ⟨next, stepped, nextFollows, ?_⟩
  cases event with
  | insert piece =>
      have pushed : trace.re.output.bytesPushed = 0 := by
        have known := (follows.range_subset_iff _).mpr (Nat.le_refl _)
        rw [none, Finset.subset_empty, Finset.range_eq_empty_iff] at known
        exact known
      have waits := follows.holds.waiting_eq
      have shut : trace.re.output.windowEnd piece.first = 0 := by
        rw [← follows.holds.bytesPushed_eq] at waits
        rw [follows.holds.windowEnd_eq, follows.capacity_eq]
        exact cutEnd_of_neg (toInt_int64_neg (by omega) (by omega))
      simp only [step] at stepped
      split at stepped
      · cases stepped
      · cases stepped
        simp only [none, shut, Finset.range_zero, Finset.inter_empty, Finset.union_empty]
  | pop len =>
      cases stepped
      exact none

theorem run_below (stream : Bytes) (capacity : Nat) (short : stream.length < 2 ^ 63)
    (word : capacity < 2 ^ 64) (events : List (Event stream)) :
    ∃ trace, Runs.run step (start capacity) events = .ok trace ∧ trace.Follows stream capacity ∧
      (trace.re.bytesPending ≠ 0 → trace.re.waitingIndex + capacity < 2 ^ 64) := by
  by_cases large : 2 ^ 63 ≤ capacity
  · obtain ⟨trace, ran, follows, none⟩ :=
      Runs.run_invariant
        (motive := fun _ (last : Trace) => last.Follows stream capacity ∧ last.given = ∅)
        ⟨start_follows stream capacity, rfl⟩
        (fun _ _ event kept => step_given_empty kept.1 large word kept.2 event) events
    refine ⟨trace, ran, follows, fun pending => ?_⟩
    have counted := follows.bytesPending_eq
    rw [none, Finset.card_empty] at counted
    have few := follows.range_subset_iff trace.re.output.bytesPushed
    rw [none, Finset.subset_empty, Finset.range_eq_empty_iff] at few
    have zero := few.mpr (Nat.le_refl _)
    omega
  · obtain ⟨trace, ran, follows, -⟩ := run_follows stream capacity events
    refine ⟨trace, ran, follows, fun _ => ?_⟩
    have waiting := follows.holds.waiting_le
    omega

/-- A copy or a move of a reassembler whose stream and capacity fit the words of the source goes on
like it exactly when it loses nothing that is still to be seen. -/
theorem run_copied_iff (stream : Bytes) (capacity : Nat) (short : stream.length < 2 ^ 63)
    (word : capacity < 2 ^ 64) (events : List (Event stream)) :
    ∃ trace, Runs.run step (start capacity) events = .ok trace ∧
      (SameFuture stream trace.re trace.re.copyConstruct ↔ trace.re.Copyable) ∧
      (SameFuture stream trace.re trace.re.moveConstruct ↔ trace.re.Copyable) := by
  obtain ⟨trace, ran, follows, below⟩ := run_below stream capacity short word events
  exact ⟨trace, ran, rebuilt_sameFuture_iff follows below, rebuilt_sameFuture_iff follows below⟩

theorem run_copied_iff_tail :
    ∃ trace, Runs.run step (start 4) [.insert tailPiece] = .ok trace ∧
      (SameFuture sampleStream trace.re trace.re.copyConstruct ↔ trace.re.Copyable) ∧
      (SameFuture sampleStream trace.re trace.re.moveConstruct ↔ trace.re.Copyable) :=
  run_copied_iff sampleStream 4 (by decide) (by decide) [.insert tailPiece]

theorem copy_forgets_cache :
    ∃ trace, Runs.run step (start 4) [.insert tailPiece] = .ok trace ∧
      ∃ one another, Runs.run handle trace.re [.insert headPiece] = .ok one ∧
        Runs.run handle trace.re.copyConstruct [.insert headPiece] = .ok another ∧
          ¬Alike one another := by
  refine ⟨_, rfl, _, _, rfl, rfl, ?_⟩
  intro alike
  exact absurd alike.buffer (by decide)

end Trace

end LearnInternet.Tcp.Reassembler
