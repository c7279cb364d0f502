import LearnInternet.Tcp.Reassembler

/-!
The first `Reassembler`, over a map from first indices to strings. The end of the window is the word of
the source. `size_` is unsigned: to count it down below zero is a fault.
-/

namespace LearnInternet.Tcp

structure MapEntry where
  first : Nat
  second : Bytes
  deriving DecidableEq, Repr

def assign (first : Nat) (second : Bytes) : List MapEntry → List MapEntry
  | [] => [⟨first, second⟩]
  | it :: rest =>
      if first < it.first then ⟨first, second⟩ :: it :: rest
      else if it.first < first then it :: assign first second rest
      else ⟨first, second⟩ :: rest

structure ReassemblerV1 where
  output : ByteStream
  cach : List MapEntry
  waitingIndex : Nat
  endWindowIndex : UInt64
  size : Nat
  isClosed : Int × Int
  deriving DecidableEq

namespace ReassemblerV1

inductive Fault where
  | outOfRange
  | underflow
  deriving DecidableEq, Repr

def ofStream (output : ByteStream) : ReassemblerV1 where
  output
  cach := []
  waitingIndex := 0
  endWindowIndex := UInt64.ofNat output.availableCapacity
  size := 0
  isClosed := (-1, -1)

def bytesPending (re : ReassemblerV1) : Nat := re.size

def countDown (size length : Nat) : Except Fault Nat :=
  if length ≤ size then .ok (size - length) else .error .underflow

structure CutIn where
  cach : List MapEntry
  size : Nat
  deriving DecidableEq

def settle (cach : List MapEntry) (firstIndex : Nat) (data : Bytes) (size : Nat) : CutIn :=
  ⟨assign firstIndex data cach, size + data.length⟩

/-- The loop of `cut_cache_in`: `passed` is the part of the map before the iterator. -/
def cutCacheInFrom (passed : List MapEntry) (firstIndex : Nat) (data : Bytes) (size : Nat) :
    List MapEntry → Except Fault CutIn
  | [] => .ok (settle passed firstIndex data size)
  | it :: rest =>
      let curEndIndex := it.first + it.second.length
      let endIndex := firstIndex + data.length
      if it.first ≤ firstIndex ∧ endIndex ≤ curEndIndex then .ok ⟨passed ++ it :: rest, size⟩
      -- merge with it as head
      else if it.first ≤ firstIndex ∧ firstIndex < curEndIndex ∧ curEndIndex ≤ endIndex then
        match countDown size it.second.length with
        | .error fault => .error fault
        | .ok size =>
            cutCacheInFrom passed it.first (it.second.take (firstIndex - it.first) ++ data) size
              rest
      -- merge with it as tail
      else if firstIndex ≤ it.first ∧ it.first < endIndex ∧ endIndex ≤ curEndIndex then
        match substr it.second (it.second.length - (curEndIndex - endIndex)) with
        | .error _ => .error .outOfRange
        | .ok tail =>
            match countDown size it.second.length with
            | .error fault => .error fault
            | .ok size => cutCacheInFrom passed firstIndex (data ++ tail) size rest
      -- erase
      else if firstIndex < it.first ∧ curEndIndex < endIndex then
        match countDown size it.second.length with
        | .error fault => .error fault
        | .ok size => cutCacheInFrom passed firstIndex data size rest
      else if firstIndex = curEndIndex then
        cutCacheInFrom (passed ++ [it]) firstIndex data size rest
      else if endIndex = it.first then .ok (settle (passed ++ it :: rest) firstIndex data size)
      else cutCacheInFrom (passed ++ [it]) firstIndex data size rest

def cutHead (re : ReassemblerV1) (firstIndex : Nat) (data : Bytes) :
    Except Fault (Nat × Bytes) :=
  if firstIndex < re.waitingIndex then
    match substr data (re.waitingIndex - firstIndex) with
    | .error _ => .error .outOfRange
    | .ok data => .ok (re.waitingIndex, data)
  else .ok (firstIndex, data)

def cutTail (re : ReassemblerV1) (firstIndex : Nat) (data : Bytes) : Bytes :=
  if re.endWindowIndex.toNat < firstIndex + data.length then
    data.take (re.endWindowIndex - UInt64.ofNat firstIndex).toNat
  else data

def cutCacheIn (re : ReassemblerV1) (firstIndex : Nat) (data : Bytes) :
    Except Fault ReassemblerV1 :=
  match re.cutHead firstIndex data with
  | .error fault => .error fault
  | .ok (firstIndex, data) =>
      match cutCacheInFrom [] firstIndex (re.cutTail firstIndex data) re.size re.cach with
      | .error fault => .error fault
      | .ok cut => .ok { re with cach := cut.cach, size := cut.size }

def writeFrom (re : ReassemblerV1) : List MapEntry → Except Fault ReassemblerV1
  | [] => .ok { re with cach := [] }
  | it :: rest =>
      if it.first ≠ re.waitingIndex then .ok { re with cach := it :: rest }
      else
        match countDown re.size it.second.length with
        | .error fault => .error fault
        | .ok size =>
            let written :=
              { re with
                output := re.output.push it.second
                waitingIndex := it.first + it.second.length
                size
                cach := rest }
            if written.isClosed.1 ≠ -1 ∧ written.isClosed.2 ≤ written.waitingIndex then
              .ok { written with output := written.output.closeWriter }
            else writeFrom written rest

def mark (re : ReassemblerV1) (firstIndex : Nat) (data : Bytes) (isLastSubstring : Bool) :
    ReassemblerV1 :=
  if re.isClosed.1 = -1 ∧ isLastSubstring = true then
    let marked := { re with isClosed := ((firstIndex : Int), (firstIndex + data.length : Int)) }
    if re.cach = [] ∧ firstIndex = re.waitingIndex ∧ data.length = 0 then
      { marked with output := re.output.closeWriter }
    else marked
  else re

def insertWithin (re : ReassemblerV1) (firstIndex : Nat) (data : Bytes) :
    Except Fault ReassemblerV1 :=
  let opened :=
    { re with endWindowIndex := UInt64.ofNat (re.waitingIndex + re.output.availableCapacity) }
  if opened.endWindowIndex.toNat ≤ firstIndex then .ok opened
  else if firstIndex + data.length ≤ opened.waitingIndex then .ok opened
  else
    match opened.cutCacheIn firstIndex data with
    | .error fault => .error fault
    | .ok cut => cut.writeFrom cut.cach

def insert (re : ReassemblerV1) (firstIndex : Nat) (data : Bytes) (isLastSubstring : Bool) :
    Except Fault ReassemblerV1 :=
  if re.isClosed.1 ≠ -1 ∧ re.isClosed.2 < firstIndex + data.length then .ok re
  else if re.isClosed.1 ≠ -1 ∧ firstIndex + data.length = re.isClosed.2 ∧
      isLastSubstring = false then .ok re
  else (re.mark firstIndex data isLastSubstring).insertWithin firstIndex data

end ReassemblerV1

end LearnInternet.Tcp
