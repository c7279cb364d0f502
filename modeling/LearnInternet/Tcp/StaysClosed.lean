import LearnInternet.Tcp.Fifo

/-!
What `close` means for a `ByteStream`. `push` does not look at `close_`, so a closed stream stays as
it is only while nothing that still fits is pushed.
-/

namespace LearnInternet.Tcp.ByteStream

theorem take_availableCapacity_eq_nil {stream : ByteStream} {data : Bytes} :
    data.take stream.availableCapacity = [] ↔ data = [] ∨ stream.availableCapacity = 0 := by
  rw [List.take_eq_nil_iff, or_comm]

theorem push_silent_iff (stream : ByteStream) (data : Bytes) :
    (stream.push data).bytesPushed = stream.bytesPushed ∧
        (stream.push data).buffer = stream.buffer ↔
      data = [] ∨ stream.availableCapacity = 0 := by
  rw [push_bytesPushed, push_buffer, Nat.add_eq_left, List.length_eq_zero_iff,
    List.append_right_eq_self, and_self, take_availableCapacity_eq_nil]

theorem isFinished_iff {stream : ByteStream} :
    stream.isFinished = true ↔ stream.close = true ∧ stream.buffer = [] := by
  simp [isFinished, bytesBuffered]

namespace History

theorem close_run (capacity : Nat) (operations : List Operation) :
    (run capacity operations).stream.close = true ↔ .close ∈ operations := by
  induction operations using List.reverseRecOn with
  | nil => simp [run, start, ofCapacity]
  | append_singleton operations operation ih =>
      rw [run_concat, List.mem_append, List.mem_singleton, ← ih]
      cases operation with
      | push data => simp [step, (push_frame _ data).2.2]
      | pop len => simp [step, ByteStream.pop]
      | close => simp [step, closeWriter]

theorem step_finished {history : History} (finished : history.stream.isFinished = true)
    {operation : Operation}
    (fits : ∀ data, operation = .push data →
      data = [] ∨ history.stream.availableCapacity = 0) :
    (history.step operation).stream.isFinished = true := by
  obtain ⟨closed, empty⟩ := isFinished_iff.mp finished
  rw [isFinished_iff]
  cases operation with
  | push data =>
      have silent := (push_silent_iff history.stream data).mpr (fits data rfl)
      exact ⟨(push_frame history.stream data).2.2.trans closed, silent.2.trans empty⟩
  | pop len => exact ⟨closed, by simp [step, ByteStream.pop, empty]⟩
  | close => exact ⟨rfl, empty⟩

structure StaysClosed (capacity : Nat) (operations : List Operation) : Prop where
  silent : ∀ before data later, operations = before ++ .push data :: later → .close ∈ before →
    ((run capacity before).stream.push data).bytesPushed =
        (run capacity before).stream.bytesPushed ∧
      ((run capacity before).stream.push data).buffer = (run capacity before).stream.buffer
  finished : ∀ before middle later, operations = before ++ middle ++ later →
    (run capacity before).stream.isFinished = true →
      (run capacity (before ++ middle)).stream.isFinished = true

/-- A push after a `close` brings nothing or finds no room. -/
def PushesNothing (capacity : Nat) (operations : List Operation) : Prop :=
  ∀ before data later, operations = before ++ .push data :: later → .close ∈ before →
    data = [] ∨ (run capacity before).stream.availableCapacity = 0

theorem PushesNothing.finished {capacity : Nat} {operations : List Operation}
    (nothing : PushesNothing capacity operations) {before middle later : List Operation}
    (split : operations = before ++ middle ++ later)
    (finished : (run capacity before).stream.isFinished = true) :
    (run capacity (before ++ middle)).stream.isFinished = true := by
  induction middle using List.reverseRecOn generalizing later with
  | nil =>
      rw [List.append_nil]
      exact finished
  | append_singleton middle operation ih =>
      have longer : operations = before ++ middle ++ operation :: later := by simp [split]
      have earlier := ih longer
      rw [← List.append_assoc, run_concat]
      apply step_finished earlier
      rintro data rfl
      apply nothing (before ++ middle) data later (by simp [split])
      exact (close_run capacity _).mp (isFinished_iff.mp earlier).1

theorem staysClosed_iff (capacity : Nat) (operations : List Operation) :
    StaysClosed capacity operations ↔ PushesNothing capacity operations := by
  constructor
  · intro stays before data later split closed
    exact (push_silent_iff _ data).mp (stays.silent before data later split closed)
  · intro nothing
    constructor
    · intro before data later split closed
      exact (push_silent_iff _ data).mpr (nothing before data later split closed)
    · intro before middle later split finished
      exact nothing.finished split finished

theorem push_reopens : ¬∀ (capacity : Nat) (operations : List Operation),
    StaysClosed capacity operations := by
  intro stays
  have still := (stays 1 [.close, .push [97]]).finished [.close] [.push [97]] [] rfl rfl
  revert still
  decide

end History

end LearnInternet.Tcp.ByteStream
