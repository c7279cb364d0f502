import LearnInternet.Tcp.ByteStream
import Mathlib.Data.UInt

/-!
A `ByteStream` over a whole run of `push`, `pop` and `close`: what was accepted comes out in order.
What a call accepted or removed is read off the stream's own counters.
-/

namespace LearnInternet.Tcp

namespace ByteStream

inductive Operation where
  | push (data : Bytes)
  | pop (len : Nat)
  | close
  deriving DecidableEq, Repr

def Operation.offered : Operation → Option Bytes
  | .push data => some data
  | .pop _ => none
  | .close => none

/-- One call of `push`, with the `available_capacity()` it found and the bytes it counted. -/
structure Pushed where
  data : Bytes
  room : Nat
  accepted : Bytes
  deriving DecidableEq, Repr

structure History where
  stream : ByteStream
  pushes : List Pushed
  popped : Bytes
  deriving DecidableEq

namespace History

def start (capacity : Nat) : History := ⟨ofCapacity capacity, [], []⟩

def step (history : History) : Operation → History
  | .push data =>
      let pushed := history.stream.push data
      { history with
        stream := pushed
        pushes := history.pushes ++
          [⟨data, history.stream.availableCapacity,
            data.take (pushed.bytesPushed - history.stream.bytesPushed)⟩] }
  | .pop len =>
      let popped := history.stream.pop len
      { history with
        stream := popped
        popped := history.popped ++
          history.stream.buffer.take (popped.bytesPopped - history.stream.bytesPopped) }
  | .close => { history with stream := history.stream.closeWriter }

def run (capacity : Nat) (operations : List Operation) : History :=
  operations.foldl step (start capacity)

def accepted (history : History) : Bytes := (history.pushes.map Pushed.accepted).flatten

structure Fifo (capacity : Nat) (history : History) : Prop where
  bound : history.stream.capacity = capacity
  order : history.popped ++ history.stream.buffer = history.accepted
  pushedCount : history.stream.bytesPushed = history.accepted.length
  poppedCount : history.stream.bytesPopped = history.popped.length
  each : ∀ push ∈ history.pushes, push.accepted = push.data.take push.room

theorem start_fifo (capacity : Nat) : (start capacity).Fifo capacity where
  bound := rfl
  order := rfl
  pushedCount := rfl
  poppedCount := rfl
  each := by simp [start]

theorem counted_push (stream : ByteStream) (data : Bytes) :
    data.take ((stream.push data).bytesPushed - stream.bytesPushed) =
      data.take stream.availableCapacity := by
  rw [push_bytesPushed, Nat.add_sub_cancel_left, List.length_take, List.take_eq_take_iff]
  omega

theorem counted_pop (stream : ByteStream) (len : Nat) :
    stream.buffer.take ((stream.pop len).bytesPopped - stream.bytesPopped) =
      stream.buffer.take len := by
  rw [pop_bytesPopped, Nat.add_sub_cancel_left, List.length_take, List.take_eq_take_iff]
  omega

theorem accepted_push (history : History) (data : Bytes) :
    (history.step (.push data)).accepted =
      history.accepted ++ data.take history.stream.availableCapacity := by
  rw [← counted_push]
  simp [accepted, step]

theorem Fifo.step {capacity : Nat} {history : History} (fifo : history.Fifo capacity)
    (operation : Operation) : (history.step operation).Fifo capacity := by
  cases operation with
  | push data =>
      refine ⟨?_, ?_, ?_, ?_, ?_⟩
      · exact (push_capacity history.stream data).trans fifo.bound
      · rw [accepted_push, ← fifo.order]
        simp [History.step]
      · rw [accepted_push, List.length_append, ← fifo.pushedCount]
        exact push_bytesPushed history.stream data
      · exact (push_bytesPopped history.stream data).trans fifo.poppedCount
      · intro push member
        simp only [History.step, List.mem_append, List.mem_singleton] at member
        cases member with
        | inl earlier => exact fifo.each push earlier
        | inr last =>
            subst last
            exact counted_push history.stream data
  | pop len =>
      refine ⟨fifo.bound, ?_, fifo.pushedCount, ?_, fifo.each⟩
      · have removed := counted_pop history.stream len
        calc (history.step (.pop len)).popped ++ (history.step (.pop len)).stream.buffer
            = history.popped ++ history.stream.buffer.take len ++ history.stream.buffer.drop len := by
              rw [← removed]
              rfl
          _ = history.accepted := by
              rw [List.append_assoc, List.take_append_drop]
              exact fifo.order
      · simp only [History.step, List.length_append]
        rw [counted_pop, pop_bytesPopped, fifo.poppedCount]
  | close => exact ⟨fifo.bound, fifo.order, fifo.pushedCount, fifo.poppedCount, fifo.each⟩

theorem run_concat (capacity : Nat) (operations : List Operation) (operation : Operation) :
    run capacity (operations ++ [operation]) = (run capacity operations).step operation := by
  rw [run, List.foldl_append]
  rfl

theorem run_keeps_fifo (capacity : Nat) (operations : List Operation) :
    (run capacity operations).Fifo capacity := by
  induction operations using List.reverseRecOn with
  | nil => exact start_fifo capacity
  | append_singleton operations operation ih =>
      rw [run_concat]
      exact ih.step operation

theorem run_offered (capacity : Nat) (operations : List Operation) :
    (run capacity operations).pushes.map Pushed.data =
      operations.filterMap Operation.offered := by
  induction operations using List.reverseRecOn with
  | nil => rfl
  | append_singleton operations operation ih =>
      rw [run_concat, List.filterMap_append, ← ih]
      cases operation <;> simp [step, Operation.offered]

theorem Fifo.buffered {capacity : Nat} {history : History} (fifo : history.Fifo capacity) :
    history.stream.bytesPushed =
      history.stream.bytesPopped + history.stream.buffer.length := by
  rw [fifo.pushedCount, fifo.poppedCount, ← fifo.order, List.length_append]

/-- A `ByteStream` is a bounded queue: what came out followed by the buffer is what the pushes
accepted, each as much as it found room for. The counters are given as the source's words, too. -/
theorem run_fifo (capacity : Nat) (operations : List Operation) :
    let last := run capacity operations
    let stream := last.stream
    last.popped ++ stream.buffer = (last.pushes.map Pushed.accepted).flatten ∧
      last.pushes.map Pushed.data = operations.filterMap Operation.offered ∧
      (∀ push ∈ last.pushes, push.accepted <+: push.data ∧
        push.accepted.length = min push.data.length push.room) ∧
      stream.bytesPushed - stream.bytesPopped = stream.buffer.length ∧
      UInt64.ofNat stream.bytesPushed - UInt64.ofNat stream.bytesPopped =
        UInt64.ofNat stream.buffer.length ∧
      stream.buffer.length ≤ capacity ∧
      stream.availableCapacity + stream.buffer.length = capacity ∧
      stream.peek <+: stream.buffer ∧ (stream.buffer ≠ [] → stream.peek ≠ []) := by
  intro last stream
  have fifo : last.Fifo capacity := run_keeps_fifo capacity operations
  have buffered : stream.bytesPushed = stream.bytesPopped + stream.buffer.length := fifo.buffered
  have fits : stream.buffer.length ≤ capacity := fifo.bound ▸ stream.fits
  refine ⟨fifo.order, run_offered capacity operations, ?_, by omega, ?_, fits, ?_, ?_, ?_⟩
  · intro push member
    rw [fifo.each push member, List.length_take]
    exact ⟨List.take_prefix _ _, Nat.min_comm _ _⟩
  · rw [buffered, UInt64.ofNat_add]
    exact add_sub_cancel_left _ _
  · rw [availableCapacity, fifo.bound]
    omega
  · rw [peek_eq_take]
    exact List.take_prefix _ _
  · rw [peek_eq_take]
    intro held
    simpa [readBytesSize] using held

end History

end ByteStream

end LearnInternet.Tcp
