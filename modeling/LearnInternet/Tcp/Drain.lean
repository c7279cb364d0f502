import LearnInternet.Tcp.Reassembly

/-!
The loop of `writer_::write`, round by round. What it starts to write always fits the output, so no
round puts a left-over piece back and each one shortens the cache.
-/

namespace LearnInternet.Tcp.Reassembler

open Spans

def writeRound (re : Reassembler) : Option Reassembler :=
  match re.cache with
  | [] => none
  | it :: rest => if it.first ≠ re.waitingIndex then none else some (re.writeEntry it rest)

def afterRounds : Nat → Reassembler → Option Reassembler
  | 0, re => some re
  | count + 1, re =>
      match re.writeRound with
      | none => none
      | some next => afterRounds count next

/-- `insert` up to its call of `write`: whether it comes to the call, and the state it has made. -/
def beforeWrite (re : Reassembler) (firstIndex : Nat) (data : Bytes) (isLastSubstring : Bool) :
    Except Fault (Bool × Reassembler) :=
  let opened := { re with tailIndex := Int64.ofNat (re.waitingIndex + re.output.availableCapacity) }
  match opened.eofManager firstIndex data isLastSubstring with
  | (re, none) => .ok (false, re)
  | (re, some (firstIndex, data)) =>
      match re.windowFilter firstIndex data with
      | .error fault => .error fault
      | .ok none => .ok (false, re)
      | .ok (some (firstIndex, data)) => re.cacheIn firstIndex data

theorem insert_eq_beforeWrite (re : Reassembler) (firstIndex : Nat) (data : Bytes)
    (isLastSubstring : Bool) :
    re.insert firstIndex data isLastSubstring =
      match re.beforeWrite firstIndex data isLastSubstring with
      | .error fault => .error fault
      | .ok (false, re) => .ok re
      | .ok (true, re) =>
          match re.write with
          | .error fault => .error fault
          | .ok re =>
              if re.isInit = true ∧ re.eofEndIndex ≤ re.waitingIndex then
                .ok { re with output := re.output.closeWriter }
              else .ok re := by
  simp only [insert, beforeWrite]
  generalize eofManager _ firstIndex data isLastSubstring = filtered
  obtain ⟨managed, passed⟩ := filtered
  cases passed with
  | none => rfl
  | some passed =>
      simp only [insertFiltered]
      cases managed.windowFilter passed.1 passed.2 with
      | error fault => rfl
      | ok inside =>
          cases inside with
          | none => rfl
          | some inside => rfl

/-- The loop ends, and with no string left that could be written; and every string it starts to
write fits the output and is not put back. -/
structure Drains (re : Reassembler) : Prop where
  ends : ∃ count written, re.write = .ok written ∧ re.afterRounds count = some written ∧
    written.writeRound = none ∧
      ∀ entry ∈ written.cache, entry.data ≠ [] → entry.first ≠ written.waitingIndex
  whole : ∀ count middle it rest, re.afterRounds count = some middle →
    middle.cache = it :: rest → it.first = middle.waitingIndex →
      it.data.length ≤ middle.output.availableCapacity ∧ (middle.writeEntry it rest).cache = rest

variable {stream popped : Bytes} {re : Reassembler}

theorem writeRound_cases {next : Reassembler} (writes : re.writeRound = some next) :
    ∃ it rest, re.cache = it :: rest ∧ it.first = re.waitingIndex ∧
      next = re.writeEntry it rest := by
  simp only [writeRound] at writes
  split at writes
  · cases writes
  · rename_i it rest cached
    split at writes
    · cases writes
    · rename_i atFront
      exact ⟨it, rest, cached, not_not.mp atFront, (Option.some.inj writes).symm⟩

theorem writeFrom_ok_iff (rounds : Nat) (re written : Reassembler) :
    writeFrom rounds re = .ok written ↔
      ∃ count < rounds, re.afterRounds count = some written ∧ written.writeRound = none := by
  induction rounds generalizing re with
  | zero => simp [writeFrom]
  | succ rounds ih =>
      have unfolded : writeFrom (rounds + 1) re =
          match re.writeRound with
          | none => .ok re
          | some next => writeFrom rounds next := by
        simp only [writeFrom, writeRound]
        cases re.cache with
        | nil => rfl
        | cons it rest =>
            by_cases atFront : it.first = re.waitingIndex
            · simp [atFront]
            · simp [atFront]
      rw [unfolded]
      cases round : re.writeRound with
      | none =>
          constructor
          · intro done
            cases done
            exact ⟨0, Nat.zero_lt_succ rounds, rfl, round⟩
          · rintro ⟨count, -, reached, -⟩
            cases count with
            | zero =>
                cases reached
                rfl
            | succ count => simp [afterRounds, round] at reached
      | some next =>
          rw [ih]
          constructor
          · rintro ⟨count, bound, reached, stops⟩
            refine ⟨count + 1, Nat.succ_lt_succ bound, ?_, stops⟩
            simpa only [afterRounds, round] using reached
          · rintro ⟨count, bound, reached, stops⟩
            cases count with
            | zero =>
                cases reached
                rw [round] at stops
                cases stops
            | succ count =>
                simp only [afterRounds, round] at reached
                exact ⟨count, Nat.lt_of_succ_lt_succ bound, reached, stops⟩

theorem Holds.afterRounds {count : Nat} {middle : Reassembler} (holds : re.Holds stream popped)
    (reached : re.afterRounds count = some middle) : middle.Holds stream popped := by
  induction count generalizing re with
  | zero =>
      cases reached
      exact holds
  | succ count ih =>
      simp only [Reassembler.afterRounds] at reached
      cases round : re.writeRound with
      | none =>
          rw [round] at reached
          cases reached
      | some next =>
          rw [round] at reached
          obtain ⟨it, rest, cached, atFront, rfl⟩ := writeRound_cases round
          exact ih (writeEntry_holds holds cached atFront).1 reached

theorem Holds.drains (holds : re.Holds stream popped) : re.Drains := by
  constructor
  · obtain ⟨written, writes, -, idle, -, -⟩ :=
      writeFrom_holds (re.cache.length + 1) holds (Nat.lt_succ_self _)
    obtain ⟨count, -, reached, stops⟩ := (writeFrom_ok_iff _ re written).mp writes
    refine ⟨count, written, writes, reached, stops, ?_⟩
    intro entry cached _
    exact idle entry cached
  · intro count middle it rest reached cached atFront
    have middleHolds := holds.afterRounds reached
    obtain ⟨fits, -⟩ := middleHolds.front_fits cached atFront
    obtain ⟨-, -, left, -⟩ := writeEntry_holds middleHolds cached atFront
    exact ⟨fits, left⟩

theorem beforeWrite_holds (piece : Piece stream) (holds : re.Holds stream popped) :
    ∃ called made, re.beforeWrite piece.first piece.data piece.isLast = .ok (called, made) ∧
      made.Holds stream popped := by
  have opened := holds.withWindow (Int64.ofNat (re.waitingIndex + re.output.availableCapacity))
  obtain ⟨same, end_eq, outcome⟩ := eofManager_spec piece opened.end_eq
  have managedHolds := same.holds opened end_eq
  have tail_eq := same.tailIndex.trans (congrArg Int64.ofNat holds.window_eq)
  have capacity := same.capacity
  simp only [beforeWrite]
  generalize eofManager _ piece.first piece.data piece.isLast = filtered at *
  obtain ⟨managed, passed⟩ := filtered
  rcases outcome with rfl | ⟨rfl, -⟩
  · simp only at tail_eq capacity managedHolds
    rw [← capacity] at tail_eq
    rcases managedHolds.filter_spec piece tail_eq with
      ⟨dropped, -⟩ | ⟨entry, inside, slices, ahead, within, -⟩
    · simp only [dropped]
      exact ⟨false, managed, rfl, managedHolds⟩
    · obtain ⟨result, cached, caches, cachedHolds, -⟩ :=
        cacheIn_holds managedHolds slices ahead within
      simp only [inside, caches]
      exact ⟨result, cached, rfl, cachedHolds⟩
  · exact ⟨false, managed, rfl, managedHolds⟩

namespace Trace

/-- In every state of a run, and in every state in which a next insert calls it, `write` ends, takes
whole entries only and leaves none at its front. -/
theorem run_drains (stream : Bytes) (capacity : Nat) (events : List (Event stream)) :
    ∃ trace, Runs.run step (start capacity) events = .ok trace ∧ trace.re.Drains ∧
      ∀ piece : Piece stream, ∃ called made,
        trace.re.beforeWrite piece.first piece.data piece.isLast = .ok (called, made) ∧
          made.Drains := by
  obtain ⟨trace, ran, follows, -⟩ := run_follows stream capacity events
  refine ⟨trace, ran, follows.holds.drains, ?_⟩
  intro piece
  obtain ⟨called, made, comes, madeHolds⟩ := beforeWrite_holds piece follows.holds
  exact ⟨called, made, comes, madeHolds.drains⟩

end Trace

end LearnInternet.Tcp.Reassembler
