import LearnInternet.Lib.Runs
import LearnInternet.Tcp.Cache
import LearnInternet.Tcp.WindowEnd

/-!
Runs of the `Reassembler` over the pieces of one stream. `Holds` is the invariant between the
calls, `Idle` says that nothing in the cache can be written yet; together they make `known` the
bytes the reassembler has been given inside its window.
-/

namespace LearnInternet.Tcp

open Spans

/-- A string cut from the stream; only one that reaches the end may be marked as the last. -/
structure Piece (stream : Bytes) where
  first : Nat
  stop : Nat
  isLast : Bool
  order : first ≤ stop
  inside : stop ≤ stream.length
  closing : isLast = true → stop = stream.length

namespace Piece

variable {stream : Bytes}

def data (piece : Piece stream) : Bytes := slice stream piece.first piece.stop

def span (piece : Piece stream) : Span := ⟨piece.first, piece.stop⟩

@[simp] theorem length_data (piece : Piece stream) :
    piece.data.length = piece.stop - piece.first := length_slice piece.inside

theorem positions_eq_empty {piece : Piece stream} (empty : piece.data = []) :
    piece.span.positions = ∅ := by
  have length := piece.length_data
  rw [empty, List.length_nil] at length
  apply Finset.Ico_eq_empty_iff.mpr
  simp only [span]
  omega

end Piece

namespace Reassembler

def known (re : Reassembler) : Finset Nat :=
  Finset.range re.waitingIndex ∪ covered (re.cache.map Entry.span)

structure Holds (stream popped : Bytes) (re : Reassembler) : Prop where
  waiting_le : re.waitingIndex ≤ stream.length
  pushed : popped ++ re.output.buffer = stream.take re.waitingIndex
  bytesPushed_eq : re.output.bytesPushed = re.waitingIndex
  bytesPopped_eq : re.output.bytesPopped = popped.length
  stored : Stored stream re.waitingIndex (popped.length + re.output.capacity) re.cache
  size_eq : re.size = total (re.cache.map Entry.span)
  end_eq : re.isInit = true → re.eofEndIndex = stream.length

def Idle (re : Reassembler) : Prop := ∀ entry ∈ re.cache, entry.first ≠ re.waitingIndex

variable {stream popped : Bytes} {re : Reassembler}

theorem Holds.waiting_eq (holds : re.Holds stream popped) :
    re.waitingIndex = popped.length + re.output.buffer.length := by
  have sizes := congrArg List.length holds.pushed
  rw [List.length_append, List.length_take, min_eq_left holds.waiting_le] at sizes
  exact sizes.symm

theorem Holds.window_eq (holds : re.Holds stream popped) :
    re.waitingIndex + re.output.availableCapacity = popped.length + re.output.capacity := by
  have sizes := holds.waiting_eq
  have fits := re.output.fits
  rw [ByteStream.availableCapacity]
  omega

theorem Holds.windowEnd_eq (holds : re.Holds stream popped) (firstIndex : Nat) :
    re.output.windowEnd firstIndex =
      cutEnd (popped.length + re.output.capacity)
        (Int64.ofNat (popped.length + re.output.capacity)).toInt re.waitingIndex firstIndex := by
  rw [ByteStream.windowEnd, holds.bytesPopped_eq, holds.bytesPushed_eq]

theorem Holds.withWindow (holds : re.Holds stream popped) (tailIndex : Int64) :
    Holds stream popped { re with tailIndex } :=
  ⟨holds.waiting_le, holds.pushed, holds.bytesPushed_eq, holds.bytesPopped_eq, holds.stored,
    holds.size_eq, holds.end_eq⟩

theorem Holds.withEnd (holds : re.Holds stream popped) (isInit : Bool) {eofEndIndex : Int}
    (ends : eofEndIndex = stream.length) : Holds stream popped { re with isInit, eofEndIndex } :=
  ⟨holds.waiting_le, holds.pushed, holds.bytesPushed_eq, holds.bytesPopped_eq, holds.stored,
    holds.size_eq, fun _ => ends⟩

theorem Holds.front_fits {it : Entry} {rest : List Entry} (holds : re.Holds stream popped)
    (cached : re.cache = it :: rest) (atFront : it.first = re.waitingIndex) :
    it.data.length ≤ re.output.availableCapacity ∧
      re.waitingIndex + it.data.length = it.stop := by
  have stored := holds.stored
  rw [cached] at stored
  have slices := stored.slices it (by simp)
  have order := slices.order
  have length := slices.length_eq
  have window := holds.window_eq
  have within := stored.within it (by simp)
  omega

theorem Holds.card_known (holds : re.Holds stream popped) :
    re.known.card = re.waitingIndex + total (re.cache.map Entry.span) := by
  refine card_range_union holds.stored.ordered fun span member => ?_
  obtain ⟨entry, cached, rfl⟩ := List.mem_map.mp member
  exact holds.stored.ahead entry cached

theorem writeEntry_of_fits (re : Reassembler) {it : Entry} (rest : List Entry)
    (fits : it.data.length ≤ re.output.availableCapacity) :
    re.writeEntry it rest =
      { re with
        output := re.output.push it.data
        size := re.size - it.data.length
        waitingIndex := re.waitingIndex + it.data.length
        cache := rest } := by
  have whole : (if re.output.availableCapacity > it.data.length then it.data.length
      else re.output.availableCapacity) = it.data.length := by
    split <;> omega
  simp only [writeEntry, whole, List.drop_length, List.take_length, if_true]

theorem writeEntry_eq {it : Entry} {rest : List Entry} (holds : re.Holds stream popped)
    (cached : re.cache = it :: rest) (atFront : it.first = re.waitingIndex) :
    re.writeEntry it rest =
      { re with
        output := re.output.push it.data
        size := re.size - it.data.length
        waitingIndex := it.stop
        cache := rest } := by
  obtain ⟨fits, stop⟩ := holds.front_fits cached atFront
  rw [writeEntry_of_fits re rest fits, stop]

theorem writeEntry_holds {it : Entry} {rest : List Entry} (holds : re.Holds stream popped)
    (cached : re.cache = it :: rest) (atFront : it.first = re.waitingIndex) :
    (re.writeEntry it rest).Holds stream popped ∧ (re.writeEntry it rest).known = re.known ∧
      (re.writeEntry it rest).cache = rest ∧
      (re.writeEntry it rest).output.capacity = re.output.capacity := by
  obtain ⟨fits, -⟩ := holds.front_fits cached atFront
  have stored := holds.stored
  rw [cached] at stored
  have slices := stored.slices it (by simp)
  have order := slices.order
  have length := slices.length_eq
  obtain ⟨restOrdered, -, behind⟩ := (ordered_between [] rest it).mp stored.ordered
  have kept : it.data.take re.output.availableCapacity = it.data :=
    List.take_of_length_le fits
  rw [writeEntry_eq holds cached atFront]
  refine ⟨⟨slices.inside, ?_, ?_, ?_, ?_, ?_, holds.end_eq⟩, ?_, rfl,
    ByteStream.push_capacity _ _⟩
  · simp only [ByteStream.push_buffer, kept]
    rw [← List.append_assoc, holds.pushed, slices.data_eq, atFront,
      take_append_slice stream (by omega)]
  · simp only [ByteStream.push_bytesPushed, kept, holds.bytesPushed_eq]
    omega
  · simp only [ByteStream.push_bytesPopped, holds.bytesPopped_eq]
  · simp only [ByteStream.push_capacity]
    exact ⟨fun other member => stored.slices other (by simp [member]), restOrdered,
      fun other member => (behind other member).2,
      fun other member => stored.within other (by simp [member])⟩
  · simp only [holds.size_eq, cached, List.map_cons, total_cons, length, Entry.span]
    omega
  · simp only [known, cached, List.map_cons]
    rw [show it.span = ⟨re.waitingIndex, it.stop⟩ by rw [← atFront]; rfl,
      range_union_covered_cons (by omega)]

theorem Holds.idle_of_gap {it : Entry} {rest : List Entry} (holds : re.Holds stream popped)
    (cached : re.cache = it :: rest) (gap : it.first ≠ re.waitingIndex) : re.Idle := by
  have stored := holds.stored
  rw [cached] at stored
  have ahead := stored.ahead it (by simp)
  obtain ⟨-, -, behind⟩ := (ordered_between [] rest it).mp stored.ordered
  intro entry member
  rw [cached] at member
  rcases List.mem_cons.mp member with rfl | later
  · exact gap
  · have after := (behind entry later).1
    simp only [Entry.span] at after
    omega

theorem writeFrom_holds (rounds : Nat) (holds : re.Holds stream popped)
    (enough : re.cache.length < rounds) :
    ∃ written, writeFrom rounds re = .ok written ∧ written.Holds stream popped ∧ written.Idle ∧
      written.known = re.known ∧ written.output.capacity = re.output.capacity := by
  induction rounds generalizing re with
  | zero => omega
  | succ rounds ih =>
      cases cached : re.cache with
      | nil =>
          simp only [writeFrom, cached]
          exact ⟨re, rfl, holds, by simp [Idle, cached], rfl, rfl⟩
      | cons it rest =>
          simp only [writeFrom, cached]
          by_cases atFront : it.first = re.waitingIndex
          · rw [if_neg (not_not.mpr atFront)]
            obtain ⟨stepHolds, stepKnown, stepCache, stepCapacity⟩ :=
              writeEntry_holds holds cached atFront
            rw [cached, List.length_cons] at enough
            obtain ⟨written, result, after, idle, same, capacity⟩ :=
              ih stepHolds (by rw [stepCache]; omega)
            exact ⟨written, result, after, idle, same.trans stepKnown,
              capacity.trans stepCapacity⟩
          · rw [if_pos atFront]
            exact ⟨re, rfl, holds, holds.idle_of_gap cached atFront, rfl, rfl⟩

section Filters

theorem windowFilter_missed (firstIndex : Nat) (data : Bytes)
    (missed : re.tailIndex.toInt ≤ firstIndex ∨ firstIndex + data.length < re.waitingIndex ∨
      data ≠ [] ∧ firstIndex + data.length ≤ re.waitingIndex) :
    re.windowFilter firstIndex data = .ok none := by
  rw [windowFilter]
  by_cases empty : data = []
  · rw [if_neg (fun outside => outside.1 empty), if_pos ⟨empty, by tauto⟩]
  · rw [if_pos ⟨empty, by omega⟩]

theorem windowFilter_kept (piece : Piece stream) {stop : Nat}
    (tail_eq : re.tailIndex = Int64.ofNat stop) (window : re.waitingIndex ≤ stop)
    (meets : piece.first < (Int64.ofNat stop).toInt) (reaches : re.waitingIndex ≤ piece.stop)
    (new : piece.first < piece.stop → re.waitingIndex < piece.stop) :
    let first := max re.waitingIndex piece.first
    let limit := cutEnd stop (Int64.ofNat stop).toInt re.waitingIndex piece.first
    re.windowFilter piece.first piece.data =
      .ok (some (first, slice stream first (min piece.stop limit))) := by
  intro first limit
  have order := piece.order
  have inside := piece.inside
  have length := piece.length_data
  have cut : limit = first + (stop - first) % 2 ^ 64 := cutEnd_eq (wraps_int64 stop) window meets
  have le := (wraps_int64 stop).le
  have empty : piece.data = [] ↔ piece.stop ≤ piece.first := by
    rw [← List.length_eq_zero_iff, length]
    omega
  have difference {firstIndex : Nat} (before : firstIndex ≤ stop) :
      (re.tailIndex.toUInt64 - UInt64.ofNat firstIndex).toNat = (stop - firstIndex) % 2 ^ 64 := by
    rw [tail_eq, Int64.toUInt64_ofNat', ← UInt64.ofNat_sub before, UInt64.toNat_ofNat']
  have held : (re.waitingIndex : Int) ≤ (Int64.ofNat stop).toInt →
      (limit : Int) = (Int64.ofNat stop).toInt := by
    intro ahead
    have same : limit = _ := cutEnd_of_le ahead
    omega
  have stop_eq : (piece.first : Int) + ((piece.stop - piece.first : Nat) : Int) = piece.stop := by
    omega
  simp only [windowFilter, length, ne_eq, empty, Nat.add_sub_cancel' order, tail_eq, stop_eq]
  rw [if_neg (by omega), if_neg (by omega)]
  by_cases whole : re.waitingIndex ≤ piece.first ∧ (piece.stop : Int) ≤ (Int64.ofNat stop).toInt
  · have first_eq : first = piece.first := max_eq_right whole.1
    rw [if_pos whole, first_eq, min_eq_left (by omega)]
    rfl
  rw [if_neg whole]
  by_cases early : piece.first < re.waitingIndex
  · have first_eq : first = re.waitingIndex := max_eq_left early.le
    have drop : substr piece.data (re.waitingIndex - piece.first) =
        .ok (slice stream re.waitingIndex piece.stop) := by
      rw [substr, if_pos (by omega), Piece.data, drop_slice, Nat.add_sub_cancel' early.le]
    have rest : (slice stream re.waitingIndex piece.stop).length =
        piece.stop - re.waitingIndex := length_slice inside
    rw [first_eq] at cut ⊢
    simp only [if_pos early, drop, cutRight, rest, tail_eq]
    by_cases late : (Int64.ofNat stop).toInt <
        re.waitingIndex + ((piece.stop - re.waitingIndex : Nat) : Int)
    · rw [if_pos late, ← tail_eq, difference window, take_slice_count, ← cut]
    · rw [if_neg late, min_eq_left (by omega)]
  · have first_eq : first = piece.first := max_eq_right (by omega)
    rw [first_eq] at cut ⊢
    rw [if_neg early, cutRight, length, tail_eq, if_pos (by omega), ← tail_eq,
      difference (by omega), Piece.data, take_slice_count, ← cut]

theorem windowFilter_spec (piece : Piece stream) {stop : Nat}
    (tail_eq : re.tailIndex = Int64.ofNat stop) (window : re.waitingIndex ≤ stop) :
    let limit := cutEnd stop (Int64.ofNat stop).toInt re.waitingIndex piece.first
    (re.windowFilter piece.first piece.data = .ok none ∧
        piece.span.positions ∩ Finset.range limit ⊆ Finset.range re.waitingIndex) ∨
      ∃ entry : Entry, re.windowFilter piece.first piece.data =
          .ok (some (entry.first, entry.data)) ∧
        entry.SliceOf stream ∧ re.waitingIndex ≤ entry.first ∧ entry.stop ≤ limit ∧
        Finset.range re.waitingIndex ∪ (piece.span.positions ∩ Finset.range limit) =
          Finset.range re.waitingIndex ∪ entry.span.positions := by
  intro limit
  have order := piece.order
  have inside := piece.inside
  have some : piece.data ≠ [] ↔ piece.first < piece.stop := by
    rw [← List.length_pos_iff, piece.length_data, Nat.sub_pos_iff_lt]
  by_cases missed : (Int64.ofNat stop).toInt ≤ piece.first ∨ piece.stop < re.waitingIndex ∨
      piece.first < piece.stop ∧ piece.stop ≤ re.waitingIndex
  · refine Or.inl ⟨windowFilter_missed piece.first piece.data ?_, ?_⟩
    · rwa [tail_eq, some, piece.length_data, Nat.add_sub_cancel' order]
    · have beyond : (Int64.ofNat stop).toInt ≤ piece.first → limit ≤ piece.first := by
        intro late
        have cut : limit = (Int64.ofNat stop).toInt.toNat := if_neg (by omega)
        omega
      intro position
      simp only [Finset.mem_inter, mem_positions, Finset.mem_range, Piece.span]
      omega
  have meets : piece.first < (Int64.ofNat stop).toInt := by omega
  have le := (wraps_int64 stop).le
  have cut : limit = _ := cutEnd_eq (wraps_int64 stop) window meets
  have ahead : max re.waitingIndex piece.first ≤ limit := by omega
  refine Or.inr ⟨⟨max re.waitingIndex piece.first, min piece.stop limit, _⟩,
    windowFilter_kept piece tail_eq window meets (by omega) (by omega), ⟨?_, ?_, rfl⟩,
    le_max_left _ _, min_le_right _ _, ?_⟩
  · simp only
    omega
  · simp only
    omega
  · ext position
    simp only [Finset.mem_union, Finset.mem_inter, mem_positions, Finset.mem_range, Piece.span,
      Entry.span]
    omega

structure SameBytes (re other : Reassembler) : Prop where
  buffer : other.output.buffer = re.output.buffer
  capacity : other.output.capacity = re.output.capacity
  bytesPushed : other.output.bytesPushed = re.output.bytesPushed
  bytesPopped : other.output.bytesPopped = re.output.bytesPopped
  waitingIndex : other.waitingIndex = re.waitingIndex
  tailIndex : other.tailIndex = re.tailIndex
  size : other.size = re.size
  cache : other.cache = re.cache

theorem SameBytes.refl (re : Reassembler) : SameBytes re re :=
  ⟨rfl, rfl, rfl, rfl, rfl, rfl, rfl, rfl⟩

theorem SameBytes.close (re : Reassembler) :
    SameBytes re { re with output := re.output.closeWriter } :=
  ⟨rfl, rfl, rfl, rfl, rfl, rfl, rfl, rfl⟩

theorem SameBytes.holds {other : Reassembler} (same : SameBytes re other)
    (holds : re.Holds stream popped)
    (end_eq : other.isInit = true → other.eofEndIndex = stream.length) :
    other.Holds stream popped := by
  obtain ⟨buffer, capacity, bytesPushed, bytesPopped, waitingIndex, -, size, cache⟩ := same
  refine ⟨?_, ?_, ?_, ?_, ?_, ?_, end_eq⟩
  · rw [waitingIndex]
    exact holds.waiting_le
  · rw [buffer, waitingIndex]
    exact holds.pushed
  · rw [bytesPushed, waitingIndex]
    exact holds.bytesPushed_eq
  · rw [bytesPopped]
    exact holds.bytesPopped_eq
  · rw [waitingIndex, capacity, cache]
    exact holds.stored
  · rw [size, cache]
    exact holds.size_eq

theorem SameBytes.known {other : Reassembler} (same : SameBytes re other) :
    other.known = re.known := by
  rw [Reassembler.known, Reassembler.known, same.waitingIndex, same.cache]

theorem SameBytes.windowEnd {other : Reassembler} (same : SameBytes re other) (firstIndex : Nat) :
    other.output.windowEnd firstIndex = re.output.windowEnd firstIndex := by
  rw [ByteStream.windowEnd, ByteStream.windowEnd, same.bytesPopped, same.bytesPushed, same.capacity]

theorem SameBytes.idle {other : Reassembler} (same : SameBytes re other) (idle : re.Idle) :
    other.Idle := by
  rw [Idle, same.cache, same.waitingIndex]
  exact idle

theorem eofCut_spec (piece : Piece stream) (end_eq : re.eofEndIndex = stream.length) :
    let filtered := re.eofCut piece.first piece.data
    SameBytes re filtered.1 ∧ filtered.1.eofEndIndex = stream.length ∧
      (filtered.2 = some (piece.first, piece.data) ∨
        filtered.2 = none ∧ piece.stop ≤ piece.first) := by
  have order := piece.order
  have inside := piece.inside
  simp only [eofCut, piece.length_data, end_eq]
  split
  · exact ⟨⟨rfl, rfl, rfl, rfl, rfl, rfl, rfl, rfl⟩, rfl, Or.inr ⟨rfl, by omega⟩⟩
  · split
    · exact ⟨SameBytes.refl re, end_eq, Or.inr ⟨rfl, by omega⟩⟩
    · rw [if_neg (by omega)]
      exact ⟨SameBytes.refl re, end_eq, Or.inl rfl⟩

theorem eofManager_spec (piece : Piece stream)
    (end_eq : re.isInit = true → re.eofEndIndex = stream.length) :
    let filtered := re.eofManager piece.first piece.data piece.isLast
    SameBytes re filtered.1 ∧ (filtered.1.isInit = true → filtered.1.eofEndIndex = stream.length) ∧
      (filtered.2 = some (piece.first, piece.data) ∨
        filtered.2 = none ∧ piece.stop ≤ piece.first) := by
  have order := piece.order
  simp only [eofManager]
  cases known : re.isInit with
  | true =>
      obtain ⟨same, stillEnd, outcome⟩ := eofCut_spec piece (end_eq known)
      simp only [Bool.not_true, Bool.false_and, Bool.false_eq_true, if_false]
      exact ⟨same, fun _ => stillEnd, outcome⟩
  | false =>
      cases last : piece.isLast with
      | false =>
          simp only [Bool.not_false, Bool.and_true, if_true]
          refine ⟨SameBytes.refl re, fun started => ?_, Or.inl trivial⟩
          rw [known] at started
          contradiction
      | true =>
          have ends := piece.closing last
          have marked : (re.init (piece.first + piece.data.length)).eofEndIndex =
              stream.length := by
            simp only [Reassembler.init, piece.length_data]
            omega
          obtain ⟨same, stillEnd, outcome⟩ := eofCut_spec piece marked
          simp only [Bool.not_false, Bool.not_true, Bool.true_and, Bool.and_self, if_true,
            Bool.false_eq_true, if_false]
          exact ⟨⟨same.buffer, same.capacity, same.bytesPushed, same.bytesPopped,
            same.waitingIndex, same.tailIndex, same.size, same.cache⟩, fun _ => stillEnd, outcome⟩

end Filters

theorem cacheIn_holds {entry : Entry} (holds : re.Holds stream popped)
    (slices : entry.SliceOf stream) (ahead : re.waitingIndex ≤ entry.first)
    (within : entry.stop ≤ popped.length + re.output.capacity) :
    ∃ result cached, re.cacheIn entry.first entry.data = .ok (result, cached) ∧
      cached.Holds stream popped ∧ cached.known = re.known ∪ entry.span.positions ∧
      cached.output = re.output ∧ (result = false → re.Idle → cached.Idle) := by
  have stop_eq : entry.first + entry.data.length = entry.stop := by
    have order := slices.order
    rw [slices.length_eq]
    omega
  obtain ⟨cached, result, absorbs⟩ := cacheInFrom_absorbs re.cache [] entry re.size slices ahead
    within holds.stored (by simp)
  refine ⟨cached.result, { re with cache := cached.cache, size := cached.size }, ?_, ?_, ?_, rfl,
    ?_⟩
  · simp only [cacheIn, stop_eq, result]
  · refine ⟨holds.waiting_le, holds.pushed, holds.bytesPushed_eq, holds.bytesPopped_eq,
      absorbs.stored, ?_, holds.end_eq⟩
    have sizes := absorbs.size_eq
    rw [List.nil_append, holds.size_eq] at sizes
    simp only
    omega
  · simp only [known, absorbs.covers, List.nil_append, Finset.union_assoc]
  · intro refused idle other member
    exact idle other (absorbs.kept refused other member)

theorem known_union_congr (re : Reassembler) {left right : Finset Nat}
    (same : Finset.range re.waitingIndex ∪ left = Finset.range re.waitingIndex ∪ right) :
    re.known ∪ left = re.known ∪ right := by
  rw [known, Finset.union_right_comm, same, Finset.union_right_comm]

theorem Holds.filter_spec (piece : Piece stream) (holds : re.Holds stream popped)
    (tail_eq : re.tailIndex = Int64.ofNat (popped.length + re.output.capacity)) :
    (re.windowFilter piece.first piece.data = .ok none ∧
        piece.span.positions ∩ Finset.range (re.output.windowEnd piece.first) ⊆
          Finset.range re.waitingIndex) ∨
      ∃ entry : Entry, re.windowFilter piece.first piece.data =
          .ok (some (entry.first, entry.data)) ∧
        entry.SliceOf stream ∧ re.waitingIndex ≤ entry.first ∧
        entry.stop ≤ popped.length + re.output.capacity ∧
        Finset.range re.waitingIndex ∪
            (piece.span.positions ∩ Finset.range (re.output.windowEnd piece.first)) =
          Finset.range re.waitingIndex ∪ entry.span.positions := by
  have window : re.waitingIndex ≤ popped.length + re.output.capacity := by
    rw [← holds.window_eq]
    exact Nat.le_add_right _ _
  rw [holds.windowEnd_eq]
  rcases windowFilter_spec piece tail_eq window with
    dropped | ⟨entry, passed, slices, ahead, within, same⟩
  · exact .inl dropped
  · have le := cutEnd_le (wraps_int64 _) window piece.first
    exact .inr ⟨entry, passed, slices, ahead, Nat.le_trans within le, same⟩

theorem insertFiltered_holds (piece : Piece stream) (holds : re.Holds stream popped)
    (idle : re.Idle) (tail_eq : re.tailIndex = Int64.ofNat (popped.length + re.output.capacity)) :
    ∃ inserted, re.insertFiltered piece.first piece.data = .ok inserted ∧
      inserted.Holds stream popped ∧ inserted.Idle ∧
      inserted.known =
        re.known ∪ piece.span.positions ∩ Finset.range (re.output.windowEnd piece.first) ∧
      inserted.output.capacity = re.output.capacity := by
  rcases holds.filter_spec piece tail_eq with
    ⟨dropped, nothing⟩ | ⟨entry, passed, slices, ahead, within, same⟩
  · simp only [insertFiltered, dropped]
    refine ⟨re, rfl, holds, idle, ?_, rfl⟩
    exact (Finset.union_eq_left.mpr (nothing.trans Finset.subset_union_left)).symm
  · obtain ⟨result, cached, caches, cachedHolds, cachedKnown, sameOutput, stillIdle⟩ :=
      cacheIn_holds holds slices ahead within
    have added : cached.known = re.known ∪
        piece.span.positions ∩ Finset.range (re.output.windowEnd piece.first) := by
      rw [cachedKnown, known_union_congr re same.symm]
    simp only [insertFiltered, passed, caches]
    cases result with
    | false => exact ⟨cached, rfl, cachedHolds, stillIdle rfl idle, added, by rw [sameOutput]⟩
    | true =>
        obtain ⟨written, writes, writtenHolds, writtenIdle, writtenKnown, sameCapacity⟩ :=
          writeFrom_holds (cached.cache.length + 1) cachedHolds (by omega)
        have capacity : written.output.capacity = re.output.capacity := by
          rw [sameCapacity, sameOutput]
        simp only [write, writes]
        by_cases ended : written.isInit = true ∧ written.eofEndIndex ≤ written.waitingIndex
        · rw [if_pos ended]
          have closing := SameBytes.close written
          exact ⟨_, rfl, closing.holds writtenHolds writtenHolds.end_eq, closing.idle writtenIdle,
            closing.known.trans (writtenKnown.trans added), capacity⟩
        · rw [if_neg ended]
          exact ⟨written, rfl, writtenHolds, writtenIdle, writtenKnown.trans added, capacity⟩

theorem insert_holds (piece : Piece stream) (holds : re.Holds stream popped) (idle : re.Idle) :
    ∃ inserted, re.insert piece.first piece.data piece.isLast = .ok inserted ∧
      inserted.Holds stream popped ∧ inserted.Idle ∧
      inserted.known =
        re.known ∪ piece.span.positions ∩ Finset.range (re.output.windowEnd piece.first) ∧
      inserted.output.capacity = re.output.capacity := by
  have opened := holds.withWindow (Int64.ofNat (re.waitingIndex + re.output.availableCapacity))
  obtain ⟨same, end_eq, outcome⟩ := eofManager_spec piece opened.end_eq
  have filteredHolds := same.holds opened end_eq
  have filteredIdle := same.idle idle
  have filteredKnown := same.known
  have tail_eq := same.tailIndex.trans (congrArg Int64.ofNat holds.window_eq)
  have capacity := same.capacity
  have limit := same.windowEnd piece.first
  simp only [insert]
  generalize eofManager _ piece.first piece.data piece.isLast = filtered at *
  obtain ⟨filtered, outcome'⟩ := filtered
  rcases outcome with rfl | ⟨rfl, noBytes⟩
  · obtain ⟨inserted, result, insertedHolds, insertedIdle, added, sameCapacity⟩ :=
      insertFiltered_holds piece filteredHolds filteredIdle (by rw [tail_eq, capacity])
    refine ⟨inserted, result, insertedHolds, insertedIdle, ?_, sameCapacity.trans capacity⟩
    rw [added, filteredKnown, limit]
    rfl
  · refine ⟨filtered, rfl, filteredHolds, filteredIdle, ?_, capacity⟩
    have empty : piece.span.positions = ∅ := Finset.Ico_eq_empty_iff.mpr (by
      simp only [Piece.span]
      omega)
    rw [filteredKnown, empty, Finset.empty_inter, Finset.union_empty]
    rfl

theorem pop_holds (holds : re.Holds stream popped) (len : Nat) :
    ({ re with output := re.output.pop len } : Reassembler).Holds stream
      (popped ++ re.output.buffer.take len) := by
  refine ⟨holds.waiting_le, ?_, holds.bytesPushed_eq, ?_, ?_, holds.size_eq, holds.end_eq⟩
  · simp only [ByteStream.pop, List.append_assoc, List.take_append_drop, holds.pushed]
  · rw [ByteStream.pop_bytesPopped, holds.bytesPopped_eq, List.length_append]
  · have stored := holds.stored
    refine ⟨stored.slices, stored.ordered, stored.ahead, fun entry member => ?_⟩
    have within := stored.within entry member
    simp only [ByteStream.pop, List.length_append]
    omega

inductive Event (stream : Bytes) where
  | insert (piece : Piece stream)
  | pop (len : Nat)

def pieces (events : List (Event stream)) : List (Piece stream) :=
  events.filterMap fun event =>
    match event with
    | .insert piece => some piece
    | .pop _ => none

/-- A reassembler, the bytes popped so far and the positions inserted inside the window of their
time. -/
structure Trace where
  re : Reassembler
  popped : Bytes
  given : Finset Nat

namespace Trace

def start (capacity : Nat) : Trace := ⟨ofStream (ByteStream.ofCapacity capacity), [], ∅⟩

def pushed (trace : Trace) : Bytes := trace.popped ++ trace.re.output.buffer

def step (trace : Trace) : Event stream → Except Fault Trace
  | .insert piece =>
      match trace.re.insert piece.first piece.data piece.isLast with
      | .error fault => .error fault
      | .ok re =>
          .ok ⟨re, trace.popped, trace.given ∪ piece.span.positions ∩
            Finset.range (trace.re.output.windowEnd piece.first)⟩
  | .pop len =>
      .ok ⟨{ trace.re with output := trace.re.output.pop len },
        trace.popped ++ trace.re.output.buffer.take len, trace.given⟩

structure Follows (stream : Bytes) (capacity : Nat) (trace : Trace) : Prop where
  holds : trace.re.Holds stream trace.popped
  idle : trace.re.Idle
  known_eq : trace.re.known = trace.given
  capacity_eq : trace.re.output.capacity = capacity

variable {trace : Trace} {capacity : Nat}

theorem start_follows (stream : Bytes) (capacity : Nat) : (start capacity).Follows stream capacity where
  holds :=
    { waiting_le := Nat.zero_le _
      pushed := rfl
      bytesPushed_eq := rfl
      bytesPopped_eq := rfl
      stored := ⟨by simp [start, ofStream], by simp [start, ofStream, Ordered],
        by simp [start, ofStream], by simp [start, ofStream]⟩
      size_eq := rfl
      end_eq := by simp [start, ofStream] }
  idle := by simp [Idle, start, ofStream]
  known_eq := by simp [known, start, ofStream]
  capacity_eq := rfl

theorem Follows.bytesPopped_le (follows : trace.Follows stream capacity) :
    trace.re.output.bytesPopped ≤ stream.length := by
  have waiting := follows.holds.waiting_le
  have popped := follows.holds.waiting_eq
  rw [follows.holds.bytesPopped_eq]
  omega

theorem Follows.windowEnd_eq (follows : trace.Follows stream capacity)
    (below : trace.re.output.bytesPopped + capacity < 2 ^ 63) (firstIndex : Nat) :
    trace.re.output.windowEnd firstIndex = trace.re.output.bytesPopped + capacity := by
  have holds := follows.holds
  have window := holds.window_eq
  have size := follows.capacity_eq
  rw [holds.bytesPopped_eq] at below
  rw [holds.windowEnd_eq, holds.bytesPopped_eq, cutEnd_of_lt (by omega) (by omega), size]

theorem step_follows (follows : trace.Follows stream capacity) (event : Event stream) :
    ∃ next, trace.step event = .ok next ∧ next.Follows stream capacity ∧
      trace.re.output.bytesPopped ≤ next.re.output.bytesPopped ∧
      (stream.length ≤ capacity → trace.re.output.bytesPopped + capacity < 2 ^ 63 →
        next.given = trace.given ∪ covered ((pieces [event]).map Piece.span)) := by
  cases event with
  | insert piece =>
      obtain ⟨inserted, result, holds, idle, added, sameCapacity⟩ :=
        insert_holds piece follows.holds follows.idle
      simp only [step, result]
      refine ⟨_, rfl, ⟨holds, idle, ?_, sameCapacity.trans follows.capacity_eq⟩, ?_,
        fun large below => ?_⟩
      · rw [added, follows.known_eq]
      · rw [holds.bytesPopped_eq, follows.holds.bytesPopped_eq]
      · have whole : piece.span.positions ∩
            Finset.range (trace.re.output.windowEnd piece.first) = piece.span.positions := by
          refine Finset.inter_eq_left.mpr fun position member => ?_
          have inside := piece.inside
          rw [follows.windowEnd_eq below]
          rw [mem_positions] at member
          simp only [Piece.span] at member
          rw [Finset.mem_range]
          omega
        simp [whole, pieces, covered]
  | pop len =>
      have holds := pop_holds follows.holds len
      refine ⟨_, rfl, ⟨holds, follows.idle, follows.known_eq, follows.capacity_eq⟩, ?_,
        fun _ _ => ?_⟩
      · rw [follows.holds.bytesPopped_eq]
        refine Nat.le_trans ?_ holds.bytesPopped_eq.ge
        simp
      · simp [pieces]

theorem run_follows (stream : Bytes) (capacity : Nat) (events : List (Event stream)) :
    ∃ last, Runs.run step (start capacity) events = .ok last ∧ last.Follows stream capacity ∧
      (stream.length ≤ capacity → last.re.output.bytesPopped + capacity < 2 ^ 63 →
        last.given = covered ((pieces events).map Piece.span)) := by
  refine Runs.run_invariant (motive := fun events (last : Trace) => last.Follows stream capacity ∧
      (stream.length ≤ capacity → last.re.output.bytesPopped + capacity < 2 ^ 63 →
        last.given = covered ((pieces events).map Piece.span)))
    ⟨start_follows stream capacity, fun _ _ => rfl⟩ ?_ events
  rintro events trace event ⟨follows, given⟩
  obtain ⟨next, stepped, nextFollows, popped, nextGiven⟩ := step_follows follows event
  refine ⟨next, stepped, nextFollows, fun large below => ?_⟩
  have before : trace.re.output.bytesPopped + capacity < 2 ^ 63 := by omega
  rw [nextGiven large before, given large before, ← covered_append, ← List.map_append, pieces,
    pieces, pieces, ← List.filterMap_append]

theorem Follows.range_subset_iff (follows : trace.Follows stream capacity) (count : Nat) :
    Finset.range count ⊆ trace.given ↔ count ≤ trace.re.output.bytesPushed := by
  rw [← follows.known_eq, follows.holds.bytesPushed_eq]
  refine Spans.range_subset_iff ?_ count
  intro inside
  obtain ⟨span, member, bounds⟩ := mem_covered.mp inside
  obtain ⟨entry, cached, rfl⟩ := List.mem_map.mp member
  have ahead := follows.holds.stored.ahead entry cached
  exact follows.idle entry cached (Nat.le_antisymm bounds.1 ahead)

theorem Follows.bytesPending_eq (follows : trace.Follows stream capacity) :
    trace.re.bytesPending = trace.given.card - trace.re.output.bytesPushed := by
  rw [← follows.known_eq, follows.holds.card_known, bytesPending, follows.holds.size_eq,
    follows.holds.bytesPushed_eq]
  omega

theorem Follows.pushed_eq (follows : trace.Follows stream capacity) :
    trace.pushed = stream.take trace.re.output.bytesPushed ∧
      trace.re.output.bytesPushed ≤ stream.length := by
  rw [pushed, follows.holds.pushed, follows.holds.bytesPushed_eq]
  exact ⟨rfl, follows.holds.waiting_le⟩

theorem Follows.bytesPushed_of_given_eq {other : Trace} (follows : trace.Follows stream capacity)
    (otherFollows : other.Follows stream capacity) (same : other.given = trace.given) :
    other.re.output.bytesPushed = trace.re.output.bytesPushed :=
  eq_of_range_subset_iff otherFollows.range_subset_iff (same ▸ follows.range_subset_iff)

theorem Follows.same_of_given_eq {other : Trace} (follows : trace.Follows stream capacity)
    (otherFollows : other.Follows stream capacity) (same : other.given = trace.given) :
    other.pushed = trace.pushed ∧ other.re.bytesPending = trace.re.bytesPending := by
  have counts := follows.bytesPushed_of_given_eq otherFollows same
  rw [follows.pushed_eq.1, otherFollows.pushed_eq.1, follows.bytesPending_eq,
    otherFollows.bytesPending_eq, counts, same]
  exact ⟨rfl, rfl⟩

structure Inside (stream : Bytes) (re : Reassembler) : Prop where
  waitingIndex : re.waitingIndex ≤ stream.length
  cache : ∀ entry ∈ re.cache, entry.first ≤ entry.stop ∧ entry.stop ≤ stream.length
  size : 0 ≤ re.size ∧ re.size ≤ stream.length
  eofEndIndex : re.isInit = true → re.eofEndIndex = stream.length

theorem Follows.inside (follows : trace.Follows stream capacity) : Inside stream trace.re := by
  have holds := follows.holds
  have waiting := holds.waiting_le
  have bounded : trace.re.known ⊆ Finset.range stream.length := by
    apply Finset.union_subset (Finset.range_mono waiting)
    intro position inside
    obtain ⟨span, member, -, stops⟩ := mem_covered.mp inside
    obtain ⟨entry, cached, rfl⟩ := List.mem_map.mp member
    have slices := (holds.stored.slices entry cached).inside
    rw [Finset.mem_range]
    exact Nat.lt_of_lt_of_le stops slices
  have few := Finset.card_le_card bounded
  rw [Finset.card_range, holds.card_known] at few
  have size := holds.size_eq
  refine ⟨waiting, fun entry cached => ?_, by omega, holds.end_eq⟩
  have slices := holds.stored.slices entry cached
  exact ⟨slices.order, slices.inside⟩

/-- The words of the source hold every index of a run over a stream shorter than `2 ^ 63`, and the end
of its window as long as that is below `2 ^ 63`. -/
theorem run_inside (stream : Bytes) (capacity : Nat) (events : List (Event stream)) :
    ∃ trace, Runs.run step (start capacity) events = .ok trace ∧ Inside stream trace.re ∧
      (trace.re.output.bytesPopped + capacity < 2 ^ 63 → ∀ firstIndex,
        trace.re.output.windowEnd firstIndex = trace.re.output.bytesPopped + capacity) := by
  obtain ⟨trace, ran, follows, -⟩ := run_follows stream capacity events
  exact ⟨trace, ran, follows.inside, follows.windowEnd_eq⟩

/-- After any inserts and pops the reassembler has pushed exactly the longest beginning of the
stream it was given and keeps the rest; with a capacity for the whole stream the order of the
inserts does not matter. -/
theorem run_delivers_given (stream : Bytes) (capacity : Nat) (events : List (Event stream)) :
    ∃ trace, Runs.run step (start capacity) events = .ok trace ∧
      (∀ count, Finset.range count ⊆ trace.given ↔ count ≤ trace.re.output.bytesPushed) ∧
      (trace.pushed = stream.take trace.re.output.bytesPushed ∧
        trace.re.output.bytesPushed ≤ stream.length) ∧
      trace.re.bytesPending = trace.given.card - trace.re.output.bytesPushed ∧
      (trace.re.output.bytesPopped + capacity < 2 ^ 63 → ∀ firstIndex,
        trace.re.output.windowEnd firstIndex = trace.re.output.bytesPopped + capacity) ∧
      ∀ others : List (Event stream), stream.length ≤ capacity →
        (pieces others).Perm (pieces events) →
          ∃ other, Runs.run step (start capacity) others = .ok other ∧
            (trace.re.output.bytesPopped + capacity < 2 ^ 63 →
              other.re.output.bytesPopped + capacity < 2 ^ 63 →
                other.pushed = trace.pushed ∧
                  other.re.bytesPending = trace.re.bytesPending) := by
  obtain ⟨trace, ran, follows, given⟩ := run_follows stream capacity events
  refine ⟨trace, ran, follows.range_subset_iff, follows.pushed_eq, follows.bytesPending_eq,
    follows.windowEnd_eq, fun others large rearranged => ?_⟩
  obtain ⟨other, otherRan, otherFollows, otherGiven⟩ :=
    run_follows stream capacity others
  refine ⟨other, otherRan, fun below otherBelow => ?_⟩
  have same : other.given = trace.given := by
    rw [otherGiven large otherBelow, given large below, covered_perm (rearranged.map Piece.span)]
  exact follows.same_of_given_eq otherFollows same

def sampleStream : Bytes := [97, 98, 99, 100]

def headPiece : Piece sampleStream := ⟨0, 2, false, by decide, by decide, by decide⟩

def tailPiece : Piece sampleStream := ⟨2, 4, true, by decide, by decide, by decide⟩

theorem run_delivers_given_reordered :
    ∃ trace other, Runs.run step (start 4) [.insert headPiece, .insert tailPiece] = .ok trace ∧
      Runs.run step (start 4) [.insert tailPiece, .pop 1, .insert headPiece] = .ok other ∧
      other.pushed = trace.pushed := by
  obtain ⟨trace, ran, -, -, -, -, reordered⟩ :=
    run_delivers_given sampleStream 4 [.insert headPiece, .insert tailPiece]
  obtain ⟨other, otherRan, same⟩ :=
    reordered [.insert tailPiece, .pop 1, .insert headPiece] (by decide)
      (List.Perm.swap headPiece tailPiece [])
  refine ⟨trace, other, ran, otherRan, (same ?_ ?_).1⟩
  · cases ran
    decide
  · cases otherRan
    decide

end Trace

end Reassembler

end LearnInternet.Tcp
