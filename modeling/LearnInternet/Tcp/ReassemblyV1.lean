import LearnInternet.Tcp.CutCache
import LearnInternet.Tcp.Reassembly

/-!
Runs of the first `Reassembler` over the pieces of one stream: seen as a state of the second one, it
keeps the same invariant. What its tests of the end of the stream discard is not among the bytes it
knows.
-/

namespace LearnInternet.Tcp.ReassemblerV1

open Spans

def view (re : ReassemblerV1) : Reassembler where
  output := re.output
  waitingIndex := re.waitingIndex
  tailIndex := re.endWindowIndex.toInt64
  eofEndIndex := re.isClosed.2
  isInit := decide (re.isClosed.1 ≠ -1)
  size := re.size
  cache := entries re.cach

def Ends (re : ReassemblerV1) : Prop := re.isClosed.1 ≠ -1

instance (re : ReassemblerV1) : Decidable re.Ends := inferInstanceAs (Decidable (_ ≠ _))

structure Holds (stream popped : Bytes) (re : ReassemblerV1) : Prop where
  bytes : re.view.Holds stream popped
  complete : re.output.close = true → re.Ends ∧ re.waitingIndex = stream.length
  idle : re.output.close = false → re.view.Idle

variable {stream popped : Bytes} {re : ReassemblerV1}

theorem Holds.uncovered (holds : re.Holds stream popped) :
    re.waitingIndex ∉ covered (spans re.cach) := by
  intro inside
  obtain ⟨span, member, starts, stops⟩ := mem_covered.mp inside
  obtain ⟨entry, cached, rfl⟩ := List.mem_map.mp member
  have ahead := holds.bytes.stored.ahead entry cached
  have within := (holds.bytes.stored.slices entry cached).inside
  simp only [view, Entry.span] at ahead starts stops
  cases closed : re.output.close with
  | true =>
      have complete := (holds.complete closed).2
      omega
  | false =>
      have apart := holds.idle closed entry cached
      simp only [view] at apart
      omega

theorem Holds.end_eq (holds : re.Holds stream popped) (ends : re.Ends) :
    re.isClosed.2 = stream.length :=
  holds.bytes.end_eq (decide_eq_true ends)

section Write

structure Written (stream popped : Bytes) (re written : ReassemblerV1) : Prop where
  bytes : written.view.Holds stream popped
  idle : written.output.close = false → written.view.Idle
  known_eq : written.view.known = re.view.known
  capacity_eq : written.output.capacity = re.output.capacity
  isClosed_eq : written.isClosed = re.isClosed
  closes : written.output.close = true ↔
    re.output.close = true ∨ re.Ends ∧ written.waitingIndex = stream.length

theorem writeFrom_written (cach : List MapEntry) (bytes : re.view.Holds stream popped)
    (cached : re.cach = cach) (going : re.Ends → re.waitingIndex < stream.length) :
    ∃ written, re.writeFrom cach = .ok written ∧ Written stream popped re written := by
  induction cach generalizing re with
  | nil =>
      have same : ({ re with cach := [] } : ReassemblerV1) = re := by rw [← cached]
      rw [writeFrom, same]
      refine ⟨re, rfl, bytes, ?_, rfl, rfl, rfl, Or.inl, ?_⟩
      · intro _ entry member
        simp [view, cached, entries] at member
      · rintro (closed | ⟨ends, complete⟩)
        · exact closed
        · have below := going ends
          omega
  | cons it rest ih =>
      have viewed : re.view.cache = it.entry :: entries rest := by simp [view, cached]
      rw [writeFrom]
      by_cases atFront : it.first = re.waitingIndex
      · rw [if_neg (not_not.mpr atFront)]
        have size := bytes.size_eq
        rw [viewed, List.map_cons, total_cons] at size
        simp only [view, MapEntry.entry, Entry.span] at size
        have enough : it.second.length ≤ re.size := by omega
        rw [countDown, if_pos enough]
        obtain ⟨nextHolds, nextKnown, -, nextCapacity⟩ :=
          Reassembler.writeEntry_holds bytes viewed atFront
        have viewedNext : view
            { re with
              output := re.output.push it.second
              waitingIndex := it.first + it.second.length
              size := re.size - it.second.length
              cach := rest } = re.view.writeEntry it.entry (entries rest) := by
          rw [Reassembler.writeEntry_eq bytes viewed atFront]
          simp only [view, MapEntry.entry, Int.ofNat_sub enough]
        rw [← viewedNext] at nextHolds nextKnown nextCapacity
        have close := (ByteStream.push_frame re.output it.second).2.2
        have waiting := nextHolds.waiting_le
        simp only [view] at waiting
        simp only
        split
        · rename_i ended
          have ends : re.Ends := ended.1
          have complete : it.first + it.second.length = stream.length := by
            have stop : re.isClosed.2 = stream.length := bytes.end_eq (decide_eq_true ends)
            have reached := ended.2
            omega
          refine ⟨_, rfl, (Reassembler.SameBytes.close _).holds nextHolds nextHolds.end_eq, ?_,
            ?_, ?_, rfl, ?_⟩
          · intro going
            cases going
          · exact (Reassembler.SameBytes.close _).known.trans nextKnown
          · exact nextCapacity
          · exact iff_of_true rfl (Or.inr ⟨ends, complete⟩)
        · rename_i goes
          obtain ⟨written, result, after⟩ := ih nextHolds rfl (by
            intro ends
            by_contra reached
            apply goes
            have stop : re.isClosed.2 = stream.length := bytes.end_eq (decide_eq_true ends)
            refine ⟨ends, ?_⟩
            simp only at reached
            omega)
          refine ⟨written, result, after.bytes, after.idle, after.known_eq.trans nextKnown,
            after.capacity_eq.trans nextCapacity, after.isClosed_eq, ?_⟩
          rw [after.closes]
          simp only [Ends, close]
      · rw [if_pos atFront]
        have same : ({ re with cach := it :: rest } : ReassemblerV1) = re := by rw [← cached]
        rw [same]
        refine ⟨re, rfl, bytes, fun _ => bytes.idle_of_gap viewed atFront, rfl, rfl, rfl, Or.inl, ?_⟩
        rintro (closed | ⟨ends, complete⟩)
        · exact closed
        · have below := going ends
          omega

end Write

section Insert

theorem cut_spec (piece : Piece stream) {stop : Nat} (end_eq : re.endWindowIndex = UInt64.ofNat stop)
    (window : re.waitingIndex ≤ stop) (meets : piece.first < (UInt64.ofNat stop).toNat)
    (reaches : re.waitingIndex < piece.stop) :
    let limit := cutEnd stop (UInt64.ofNat stop).toNat re.waitingIndex piece.first
    ∃ firstIndex data cut, re.cutHead piece.first piece.data = .ok (firstIndex, data) ∧
      re.cutTail firstIndex data = cut ∧ (MapEntry.mk firstIndex cut).entry.SliceOf stream ∧
      re.waitingIndex ≤ firstIndex ∧ firstIndex + cut.length ≤ limit ∧
      Finset.range re.waitingIndex ∪ piece.span.positions ∩ Finset.range limit =
        Finset.range re.waitingIndex ∪ (MapEntry.mk firstIndex cut).entry.span.positions := by
  intro limit
  have order := piece.order
  have inside := piece.inside
  have length := piece.length_data
  have wraps := wraps_uint64 stop
  have le := wraps.le
  have reached : limit = _ := cutEnd_eq wraps window (by omega)
  have held : re.waitingIndex ≤ (UInt64.ofNat stop).toNat → limit = (UInt64.ofNat stop).toNat := by
    intro ahead
    have same : limit = _ := cutEnd_of_le (Int.ofNat_le.mpr ahead)
    omega
  have head : re.cutHead piece.first piece.data =
      .ok (max re.waitingIndex piece.first,
        slice stream (max re.waitingIndex piece.first) piece.stop) := by
    rw [cutHead]
    by_cases early : piece.first < re.waitingIndex
    · rw [if_pos early, substr, if_pos (by omega), Piece.data, drop_slice,
        Nat.add_sub_cancel' early.le, max_eq_left early.le]
    · rw [if_neg early, max_eq_right (by omega)]
      rfl
  have rest : (slice stream (max re.waitingIndex piece.first) piece.stop).length =
      piece.stop - max re.waitingIndex piece.first := length_slice inside
  have tail : re.cutTail (max re.waitingIndex piece.first)
      (slice stream (max re.waitingIndex piece.first) piece.stop) =
        slice stream (max re.waitingIndex piece.first) (min piece.stop limit) := by
    rw [cutTail, rest, end_eq]
    by_cases late : (UInt64.ofNat stop).toNat <
        max re.waitingIndex piece.first + (piece.stop - max re.waitingIndex piece.first)
    · rw [if_pos late, ← UInt64.ofNat_sub (by omega), UInt64.toNat_ofNat', take_slice_count,
        ← reached]
    · rw [if_neg late, min_eq_left (by omega)]
  have kept : (slice stream (max re.waitingIndex piece.first) (min piece.stop limit)).length =
      min piece.stop limit - max re.waitingIndex piece.first :=
    length_slice (by omega)
  have ends : max re.waitingIndex piece.first +
      (slice stream (max re.waitingIndex piece.first) (min piece.stop limit)).length =
        min piece.stop limit := by
    omega
  refine ⟨_, _, _, head, tail, ⟨?_, ?_, ?_⟩, le_max_left _ _, ?_, ?_⟩
  · simp only [MapEntry.entry]
    omega
  · simp only [MapEntry.entry]
    omega
  · simp only [MapEntry.entry]
    rw [ends]
  · omega
  · ext position
    simp only [MapEntry.entry, Entry.span, ends, Finset.mem_union, Finset.mem_inter,
      mem_positions, Finset.mem_range, Piece.span]
    omega

theorem windowEndV1_eq (bytes : re.view.Holds stream popped) (firstIndex : Nat) :
    re.output.windowEndV1 firstIndex =
      cutEnd (popped.length + re.output.capacity)
        (UInt64.ofNat (popped.length + re.output.capacity)).toNat re.waitingIndex firstIndex := by
  have popped := bytes.bytesPopped_eq
  have pushed := bytes.bytesPushed_eq
  simp only [view] at popped pushed
  rw [ByteStream.windowEndV1, popped, pushed]

theorem cutCacheIn_holds (piece : Piece stream) (bytes : re.view.Holds stream popped)
    (end_eq : re.endWindowIndex = UInt64.ofNat (popped.length + re.output.capacity))
    (meets : piece.first < re.endWindowIndex.toNat) (reaches : re.waitingIndex < piece.stop) :
    ∃ cut, re.cutCacheIn piece.first piece.data = .ok cut ∧ cut.view.Holds stream popped ∧
      cut.view.known =
        re.view.known ∪ piece.span.positions ∩ Finset.range (re.output.windowEndV1 piece.first) ∧
      cut = { re with cach := cut.cach, size := cut.size } := by
  have window : re.waitingIndex ≤ popped.length + re.output.capacity := by
    have stop := bytes.window_eq
    simp only [view] at stop
    omega
  rw [end_eq] at meets
  obtain ⟨firstIndex, data, kept, head, tail, slices, ahead, within, same⟩ :=
    cut_spec piece end_eq window meets reaches
  rw [← windowEndV1_eq bytes] at same within
  have le : re.output.windowEndV1 piece.first ≤ popped.length + re.output.capacity := by
    rw [windowEndV1_eq bytes]
    exact cutEnd_le (wraps_uint64 _) window piece.first
  have stored : Stored stream re.waitingIndex (popped.length + re.output.capacity)
      (entries ([] ++ [] ++ re.cach)) := bytes.stored
  obtain ⟨cut, result, takes⟩ := cutCacheInFrom_takes re.cach [] [] firstIndex kept slices ahead
    (Nat.le_trans within le) stored (by simp) (.inl rfl)
  have size : re.size = total (spans re.cach) := by
    have sizes := bytes.size_eq
    simp only [view] at sizes
    exact_mod_cast sizes
  simp only [List.nil_append, ← size] at result takes
  refine ⟨{ re with cach := cut.cach, size := cut.size }, ?_, ?_, ?_, rfl⟩
  · simp only [cutCacheIn, head, tail, result]
  · refine ⟨bytes.waiting_le, bytes.pushed, bytes.bytesPushed_eq, bytes.bytesPopped_eq, ?_, ?_,
      bytes.end_eq⟩
    · exact takes.stored
    · simp only [view]
      exact_mod_cast takes.size_eq
  · have covers := takes.covers
    simp only [spans] at covers
    simp only [Reassembler.known, view, covers]
    rw [← Finset.union_assoc, Finset.union_right_comm, ← same, Finset.union_right_comm]

structure Inserted (stream popped : Bytes) (re : ReassemblerV1) (piece : Piece stream)
    (inserted : ReassemblerV1) : Prop where
  holds : inserted.Holds stream popped
  known_eq : inserted.view.known =
    re.view.known ∪ piece.span.positions ∩ Finset.range (re.output.windowEndV1 piece.first)
  capacity_eq : inserted.output.capacity = re.output.capacity

theorem cutCacheIn_inserted (piece : Piece stream) (holds : re.Holds stream popped)
    (end_eq : re.endWindowIndex = UInt64.ofNat (popped.length + re.output.capacity))
    (meets : piece.first < re.endWindowIndex.toNat) (reaches : re.waitingIndex < piece.stop) :
    ∃ cut inserted, re.cutCacheIn piece.first piece.data = .ok cut ∧
      cut.writeFrom cut.cach = .ok inserted ∧ Inserted stream popped re piece inserted ∧
      inserted.isClosed = re.isClosed ∧
      (inserted.output.close = true ↔
        re.output.close = true ∨ re.Ends ∧ inserted.waitingIndex = stream.length) := by
  have inside := piece.inside
  obtain ⟨cut, cuts, cutHolds, cutKnown, frame⟩ :=
    cutCacheIn_holds piece holds.bytes end_eq meets reaches
  have same : cut.output = re.output ∧ cut.waitingIndex = re.waitingIndex ∧
      cut.isClosed = re.isClosed := by
    rw [frame]
    exact ⟨rfl, rfl, rfl⟩
  obtain ⟨output, waiting, isClosed⟩ := same
  have ends : cut.Ends ↔ re.Ends := by rw [Ends, isClosed, Ends]
  obtain ⟨written, writes, after⟩ := writeFrom_written cut.cach cutHolds rfl (by
    intro _
    omega)
  have closes := after.closes
  rw [output, ends] at closes
  refine ⟨cut, written, cuts, writes, ⟨⟨after.bytes, ?_, after.idle⟩, ?_, ?_⟩, ?_, closes⟩
  · intro closed
    rcases closes.mp closed with before | ⟨known, complete⟩
    · have done := (holds.complete before).2
      omega
    · refine ⟨?_, complete⟩
      rw [Ends, after.isClosed_eq]
      exact ends.mpr known
  · rw [after.known_eq, cutKnown]
  · rw [after.capacity_eq, output]
  · rw [after.isClosed_eq, isClosed]

theorem inserted_of_misses {piece : Piece stream} (holds : re.Holds stream popped)
    (misses : (UInt64.ofNat (popped.length + re.output.capacity)).toNat ≤ piece.first ∨
      piece.stop ≤ re.waitingIndex) :
    Inserted stream popped re piece re := by
  have limit : (UInt64.ofNat (popped.length + re.output.capacity)).toNat ≤ piece.first →
      re.output.windowEndV1 piece.first ≤ piece.first := by
    intro beyond
    rw [windowEndV1_eq holds.bytes, cutEnd, if_neg (by omega)]
    exact beyond
  refine ⟨holds, ?_, rfl⟩
  symm
  apply Finset.union_eq_left.mpr
  intro position member
  simp only [Finset.mem_inter, mem_positions, Finset.mem_range, Piece.span] at member
  apply Finset.mem_union_left
  rw [Finset.mem_range]
  simp only [view]
  omega

theorem insertWithin_inserted (piece : Piece stream) (holds : re.Holds stream popped) :
    ∃ inserted, re.insertWithin piece.first piece.data = .ok inserted ∧
      Inserted stream popped re piece inserted ∧ inserted.isClosed = re.isClosed ∧
      (inserted.output.close = true ↔ re.output.close = true ∨
        re.Ends ∧ re.waitingIndex < stream.length ∧ inserted.waitingIndex = stream.length) := by
  have order := piece.order
  have inside := piece.inside
  have window : re.waitingIndex + re.output.availableCapacity =
      popped.length + re.output.capacity := holds.bytes.window_eq
  have openedHolds : Holds stream popped
      { re with endWindowIndex := UInt64.ofNat (popped.length + re.output.capacity) } :=
    ⟨holds.bytes.withWindow _, holds.complete, holds.idle⟩
  have stays : re.output.close = true ↔ re.output.close = true ∨
      re.Ends ∧ re.waitingIndex < stream.length ∧ re.waitingIndex = stream.length := by
    constructor
    · exact Or.inl
    · rintro (closed | ⟨-, below, complete⟩)
      · exact closed
      · omega
  have missed : (UInt64.ofNat (popped.length + re.output.capacity)).toNat ≤ piece.first ∨
      piece.stop ≤ re.waitingIndex →
      Inserted stream popped
        { re with endWindowIndex := UInt64.ofNat (popped.length + re.output.capacity) } piece
        { re with endWindowIndex := UInt64.ofNat (popped.length + re.output.capacity) } :=
    inserted_of_misses openedHolds
  simp only [insertWithin, piece.length_data, window]
  split
  · rename_i beyond
    exact ⟨_, rfl, ⟨openedHolds, (missed (.inl (by omega))).known_eq, rfl⟩, rfl, stays⟩
  · rename_i meets
    split
    · rename_i behind
      exact ⟨_, rfl, ⟨openedHolds, (missed (.inr (by omega))).known_eq, rfl⟩, rfl, stays⟩
    · rename_i reaches
      have ahead : re.waitingIndex < piece.stop := by omega
      have below : re.waitingIndex < stream.length := by omega
      obtain ⟨cut, inserted, cuts, writes, within, isClosed, closes⟩ :=
        cutCacheIn_inserted piece openedHolds rfl (Nat.lt_of_not_le meets) ahead
      refine ⟨inserted, by simp only [cuts, writes], ?_, isClosed, ?_⟩
      · exact ⟨within.holds, within.known_eq, within.capacity_eq⟩
      · rw [closes]
        simp only [below, true_and]
        rfl

/-- What the tests at the top of `insert` discard: once the end is known, an unmarked string that
reaches it. -/
def Discards (ends : Prop) (piece : Piece stream) : Prop :=
  ends ∧ piece.stop = stream.length ∧ piece.isLast = false

theorem Holds.cach_eq_nil (holds : re.Holds stream popped) (going : re.output.close = false)
    (complete : re.waitingIndex = stream.length) : re.cach = [] := by
  by_contra some
  obtain ⟨it, rest, cached⟩ := List.exists_cons_of_ne_nil some
  have member : it.entry ∈ entries re.cach := mem_entries.mpr ⟨it, by simp [cached], rfl⟩
  have ahead := holds.bytes.stored.ahead it.entry member
  have inside := (holds.bytes.stored.slices it.entry member).inside
  have apart := holds.idle going it.entry member
  simp only [view, MapEntry.entry] at ahead inside apart
  omega

structure Marked (stream popped : Bytes) (re : ReassemblerV1) (piece : Piece stream)
    (marked : ReassemblerV1) : Prop where
  holds : marked.Holds stream popped
  known_eq : marked.view.known = re.view.known
  capacity_eq : marked.output.capacity = re.output.capacity
  waitingIndex_eq : marked.waitingIndex = re.waitingIndex
  ends_iff : marked.Ends ↔ re.Ends ∨ piece.isLast = true
  closes : marked.output.close = true ↔ re.output.close = true ∨
    ¬ re.Ends ∧ piece.isLast = true ∧ piece.data = [] ∧ re.waitingIndex = stream.length

theorem mark_marked (piece : Piece stream) (holds : re.Holds stream popped) :
    Marked stream popped re piece (re.mark piece.first piece.data piece.isLast) := by
  have order := piece.order
  have length := piece.length_data
  by_cases first : re.isClosed.1 = -1 ∧ piece.isLast = true
  · have ends := piece.closing first.2
    have unknown : ¬ re.Ends := not_not.mpr first.1
    have going : re.output.close = false := by
      rw [← Bool.not_eq_true]
      intro closed
      exact unknown (holds.complete closed).1
    have stop : ((piece.first : Int) + piece.data.length) = stream.length := by omega
    have starts : (piece.first : Int) ≠ -1 := by omega
    have here : (re.cach = [] ∧ piece.first = re.waitingIndex ∧ piece.data.length = 0) ↔
        piece.data = [] ∧ re.waitingIndex = stream.length := by
      have empty_iff : piece.data = [] ↔ piece.data.length = 0 := List.length_eq_zero_iff.symm
      rw [empty_iff]
      constructor
      · rintro ⟨-, atFront, empty⟩
        omega
      · rintro ⟨empty, complete⟩
        exact ⟨holds.cach_eq_nil going complete, by omega, empty⟩
    simp only [mark, if_pos first, here, stop]
    split
    · rename_i special
      refine ⟨⟨(Reassembler.SameBytes.close _).holds (holds.bytes.withEnd _ rfl) fun _ => rfl, ?_,
        ?_⟩, rfl, rfl, rfl, ?_, ?_⟩
      · intro _
        exact ⟨starts, special.2⟩
      · intro closed
        cases closed
      · exact iff_of_true starts (.inr first.2)
      · exact iff_of_true rfl (.inr ⟨unknown, first.2, special⟩)
    · rename_i regular
      refine ⟨⟨holds.bytes.withEnd _ rfl, ?_, holds.idle⟩, rfl, rfl, rfl, ?_, Or.inl, ?_⟩
      · intro closed
        simp only [going] at closed
        cases closed
      · exact iff_of_true starts (.inr first.2)
      · rintro (closed | ⟨-, -, special⟩)
        · exact closed
        · exact absurd special regular
  · rw [mark, if_neg first]
    refine ⟨holds, rfl, rfl, rfl, ⟨Or.inl, ?_⟩, Or.inl, ?_⟩
    · rintro (ends | last)
      · exact ends
      · intro unknown
        exact first ⟨unknown, last⟩
    · rintro (closed | ⟨unknown, last, -⟩)
      · exact closed
      · exact absurd ⟨not_not.mp unknown, last⟩ first

theorem insert_discards (piece : Piece stream)
    (discards : Discards re.Ends piece) (holds : re.Holds stream popped) :
    re.insert piece.first piece.data piece.isLast = .ok re := by
  obtain ⟨ends, stop, unmarked⟩ := discards
  have order := piece.order
  have length := piece.length_data
  have end_eq := holds.end_eq ends
  rw [insert, if_neg (by omega), if_pos ⟨ends, by omega, unmarked⟩]

theorem insert_inserted (piece : Piece stream) (holds : re.Holds stream popped)
    (kept : ¬ Discards re.Ends piece) :
    ∃ inserted, re.insert piece.first piece.data piece.isLast = .ok inserted ∧
      Inserted stream popped re piece inserted ∧
      (inserted.Ends ↔ re.Ends ∨ piece.isLast = true) ∧
      (inserted.output.close = true ↔ re.output.close = true ∨
        ¬ re.Ends ∧ piece.isLast = true ∧ piece.data = [] ∧ re.waitingIndex = stream.length ∨
        (re.Ends ∨ piece.isLast = true) ∧ re.waitingIndex < stream.length ∧
          inserted.waitingIndex = stream.length) := by
  have order := piece.order
  have inside := piece.inside
  have length := piece.length_data
  have marked := mark_marked piece holds
  obtain ⟨inserted, result, within, isClosed, closes⟩ := insertWithin_inserted piece marked.holds
  have reaches : ¬ (re.isClosed.1 ≠ -1 ∧ re.isClosed.2 < piece.first + piece.data.length) := by
    rintro ⟨ends, beyond⟩
    have end_eq := holds.end_eq ends
    omega
  have passes : ¬ (re.isClosed.1 ≠ -1 ∧
      (piece.first + piece.data.length : Int) = re.isClosed.2 ∧ piece.isLast = false) := by
    rintro ⟨ends, stop, unmarked⟩
    have end_eq := holds.end_eq ends
    exact kept ⟨ends, by omega, unmarked⟩
  refine ⟨inserted, ?_, ⟨within.holds, ?_, ?_⟩, ?_, ?_⟩
  · rw [insert, if_neg reaches, if_neg passes]
    exact result
  · rw [within.known_eq, marked.known_eq, windowEndV1_eq marked.holds.bytes,
      windowEndV1_eq holds.bytes, marked.capacity_eq, marked.waitingIndex_eq]
  · rw [within.capacity_eq, marked.capacity_eq]
  · rw [Ends, isClosed]
    exact marked.ends_iff
  · rw [closes, marked.closes, marked.ends_iff, marked.waitingIndex_eq, or_assoc]

end Insert

end LearnInternet.Tcp.ReassemblerV1
