import LearnInternet.Lib.Decimal

/-!
The `ByteStream` of the first lab: a bounded queue of bytes between a `Writer` and a `Reader`.
Counters and capacities are natural numbers, so nothing wraps around.
-/

namespace LearnInternet.Tcp

structure ByteStream where
  capacity : Nat
  buffer : Bytes
  bytesPushed : Nat
  bytesPopped : Nat
  error : Bool
  close : Bool
  fits : buffer.length ≤ capacity
  deriving DecidableEq

namespace ByteStream

def ofCapacity (capacity : Nat) : ByteStream where
  capacity
  buffer := []
  bytesPushed := 0
  bytesPopped := 0
  error := false
  close := false
  fits := Nat.zero_le capacity

def availableCapacity (output : ByteStream) : Nat := output.capacity - output.buffer.length

def setError (output : ByteStream) : ByteStream := { output with error := true }

def hasError (output : ByteStream) : Bool := output.error

theorem room (output : ByteStream) {data : Bytes} (short : data.length ≤ output.availableCapacity) :
    (output.buffer ++ data).length ≤ output.capacity := by
  have fits := output.fits
  simp only [availableCapacity, List.length_append] at short ⊢
  omega

/-- `Writer::push`; it does not look at `close_`. -/
def push (output : ByteStream) (data : Bytes) : ByteStream :=
  if long : output.availableCapacity < data.length then
    if output.availableCapacity ≠ 0 then
      { output with
        bytesPushed := output.bytesPushed + (data.take output.availableCapacity).length
        buffer := output.buffer ++ data.take output.availableCapacity
        fits := output.room (List.length_take_le _ _) }
    else output
  else if output.buffer.length = 0 then
    { output with
      bytesPushed := output.bytesPushed + data.length
      buffer := data
      fits := by
        have room := output.room (Nat.le_of_not_lt long)
        rw [List.length_append] at room
        omega }
  else
    { output with
      bytesPushed := output.bytesPushed + data.length
      buffer := output.buffer ++ data
      fits := output.room (Nat.le_of_not_lt long) }

def closeWriter (output : ByteStream) : ByteStream := { output with close := true }

def isClosed (output : ByteStream) : Bool := output.close

def readBytesSize : Nat := 128

def peek (output : ByteStream) : Bytes :=
  output.buffer.take
    (if output.buffer.length < readBytesSize then output.buffer.length else readBytesSize)

def pop (output : ByteStream) (len : Nat) : ByteStream :=
  { output with
    bytesPopped :=
      if output.buffer.length < len then output.bytesPopped + output.buffer.length
      else output.bytesPopped + len
    buffer := output.buffer.drop len
    fits := by
      have fits := output.fits
      rw [List.length_drop]
      omega }

def bytesBuffered (output : ByteStream) : Nat := output.buffer.length

def isFinished (output : ByteStream) : Bool := output.close && decide (output.bytesBuffered = 0)

@[simp] theorem push_buffer (output : ByteStream) (data : Bytes) :
    (output.push data).buffer = output.buffer ++ data.take output.availableCapacity := by
  simp only [push]
  split
  · split
    · rfl
    · rename_i full
      simp [not_not.mp full]
  · rename_i short
    rw [List.take_of_length_le (Nat.le_of_not_lt short)]
    split
    · rename_i empty
      simp [List.eq_nil_of_length_eq_zero empty]
    · rfl

@[simp] theorem push_bytesPushed (output : ByteStream) (data : Bytes) :
    (output.push data).bytesPushed =
      output.bytesPushed + (data.take output.availableCapacity).length := by
  simp only [push]
  split
  · split
    · rfl
    · rename_i full
      simp [not_not.mp full]
  · rename_i short
    rw [List.take_of_length_le (Nat.le_of_not_lt short)]
    split <;> rfl

theorem push_frame (output : ByteStream) (data : Bytes) :
    (output.push data).capacity = output.capacity ∧
      (output.push data).bytesPopped = output.bytesPopped ∧
      (output.push data).close = output.close := by
  simp only [push]
  split
  · split <;> exact ⟨rfl, rfl, rfl⟩
  · split <;> exact ⟨rfl, rfl, rfl⟩

@[simp] theorem push_capacity (output : ByteStream) (data : Bytes) :
    (output.push data).capacity = output.capacity := (push_frame output data).1

@[simp] theorem push_bytesPopped (output : ByteStream) (data : Bytes) :
    (output.push data).bytesPopped = output.bytesPopped := (push_frame output data).2.1

theorem pop_bytesPopped (output : ByteStream) (len : Nat) :
    (output.pop len).bytesPopped = output.bytesPopped + (output.buffer.take len).length := by
  simp only [pop, List.length_take]
  split <;> omega

theorem peek_eq_take (output : ByteStream) : output.peek = output.buffer.take readBytesSize := by
  simp only [peek]
  split
  · rename_i short
    rw [List.take_of_length_le (Nat.le_refl _), List.take_of_length_le (Nat.le_of_lt short)]
  · rfl

theorem peek_take {output : ByteStream} {len : Nat}
    (short : output.bytesBuffered ≤ readBytesSize ∨ len ≤ readBytesSize) :
    output.peek.take len = output.buffer.take len := by
  rw [peek_eq_take, List.take_take]
  cases short with
  | inl few =>
      have all : output.buffer.length ≤ readBytesSize := few
      rw [List.take_eq_take_iff]
      omega
  | inr small => rw [Nat.min_eq_left small]

theorem pop_zero (output : ByteStream) : output.pop 0 = output := by
  simp [pop]

end ByteStream

end LearnInternet.Tcp
