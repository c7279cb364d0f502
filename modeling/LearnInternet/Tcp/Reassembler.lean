import LearnInternet.Lib.Spans
import LearnInternet.Tcp.ByteStream

/-!
The second `Reassembler`. Indices of the stream are natural numbers: no run takes one past the length
of its stream (`Reassembler.Trace.run_inside`), so below `2 ^ 63` the `uint64_t` and `int64_t` of the
source agree with them. The end of the window can lie far behind the stream, and is the word it is in
the source. `size_` is an integer, since it is counted down.
-/

namespace LearnInternet.Tcp

open Spans

/-- Ways `insert` fails to return. -/
inductive Fault where
  | outOfRange
  | endless
  deriving DecidableEq, Repr

def substr (text : Bytes) (position : Nat) : Except Fault Bytes :=
  if position ≤ text.length then .ok (text.drop position) else .error .outOfRange

structure Entry where
  first : Nat
  stop : Nat
  data : Bytes
  deriving DecidableEq, Repr

def Entry.span (entry : Entry) : Span := ⟨entry.first, entry.stop⟩

/-- `std::set::insert` with `less`: one element for each first index, in order. -/
def insertEntry (entry : Entry) : List Entry → List Entry
  | [] => [entry]
  | it :: rest =>
      if entry.first < it.first then entry :: it :: rest
      else if it.first < entry.first then it :: insertEntry entry rest
      else it :: rest

structure Reassembler where
  output : ByteStream
  waitingIndex : Nat
  tailIndex : Int64
  eofEndIndex : Int
  isInit : Bool
  size : Int
  cache : List Entry
  deriving DecidableEq

namespace Reassembler

def ofStream (output : ByteStream) : Reassembler where
  output
  waitingIndex := 0
  tailIndex := Int64.ofNat output.availableCapacity
  eofEndIndex := -1
  isInit := false
  size := 0
  cache := []

def bytesPending (re : Reassembler) : Int := re.size

def init (re : Reassembler) (eofEndIndex : Nat) : Reassembler :=
  { re with isInit := true, eofEndIndex }

def eofCut (re : Reassembler) (firstIndex : Nat) (data : Bytes) :
    Reassembler × Option (Nat × Bytes) :=
  if data.length = 0 ∧ re.size = 0 then ({ re with output := re.output.closeWriter }, none)
  else if re.eofEndIndex ≤ firstIndex then (re, none)
  else if re.eofEndIndex < firstIndex + data.length then
    (re, some (firstIndex, data.take (re.eofEndIndex - firstIndex).toNat))
  else (re, some (firstIndex, data))

def eofManager (re : Reassembler) (firstIndex : Nat) (data : Bytes) (isLastSubstring : Bool) :
    Reassembler × Option (Nat × Bytes) :=
  if !re.isInit && !isLastSubstring then (re, some (firstIndex, data))
  else if !re.isInit && isLastSubstring then
    (re.init (firstIndex + data.length)).eofCut firstIndex data
  else re.eofCut firstIndex data

def cutRight (re : Reassembler) (firstIndex : Nat) (data : Bytes) : Nat × Bytes :=
  if re.tailIndex.toInt < firstIndex + data.length then
    -- a difference of `uint64_t`
    (firstIndex, data.take (re.tailIndex.toUInt64 - UInt64.ofNat firstIndex).toNat)
  else (firstIndex, data)

def windowFilter (re : Reassembler) (firstIndex : Nat) (data : Bytes) :
    Except Fault (Option (Nat × Bytes)) :=
  if data ≠ [] ∧
      (re.tailIndex.toInt ≤ firstIndex ∨ firstIndex + data.length ≤ re.waitingIndex) then .ok none
  else if data = [] ∧
      (re.tailIndex.toInt ≤ firstIndex ∨ firstIndex + data.length < re.waitingIndex) then .ok none
  else if re.waitingIndex ≤ firstIndex ∧ firstIndex + data.length ≤ re.tailIndex.toInt then
    .ok (some (firstIndex, data))
  else if firstIndex < re.waitingIndex then
    match substr data (re.waitingIndex - firstIndex) with
    | .error fault => .error fault
    | .ok data => .ok (some (re.cutRight re.waitingIndex data))
  else .ok (some (re.cutRight firstIndex data))

structure CachedIn where
  result : Bool
  cache : List Entry
  size : Int
  deriving DecidableEq

def settle (cache : List Entry) (firstIndex endIndex : Nat) (data : Bytes) (size : Int) :
    CachedIn :=
  ⟨true, insertEntry ⟨firstIndex, endIndex, data⟩ cache, size + data.length⟩

/-- The loop of `cache_in`: `passed` is the part of the cache before the iterator. -/
def cacheInFrom (passed : List Entry) (firstIndex endIndex : Nat) (data : Bytes) (size : Int) :
    List Entry → Except Fault CachedIn
  | [] => .ok (settle passed firstIndex endIndex data size)
  | it :: rest =>
      -- the new string is contained
      if it.first ≤ firstIndex ∧ endIndex ≤ it.stop then .ok ⟨false, passed ++ it :: rest, size⟩
      -- the new string contains the old one
      else if firstIndex ≤ it.first ∧ it.stop ≤ endIndex then
        cacheInFrom passed firstIndex endIndex data (size - it.data.length) rest
      -- overlap on the right of the new string
      else if firstIndex < it.first ∧ it.first < endIndex ∧ endIndex < it.stop then
        match substr it.data (endIndex - it.first) with
        | .error fault => .error fault
        | .ok tail =>
            .ok (settle (passed ++ rest) firstIndex (firstIndex + (data ++ tail).length)
              (data ++ tail) (size - it.data.length))
      -- overlap on its left
      else if it.first < firstIndex ∧ firstIndex < it.stop ∧ it.stop < endIndex then
        match substr data (it.stop - firstIndex) with
        | .error fault => .error fault
        | .ok tail =>
            cacheInFrom passed it.first endIndex (it.data ++ tail) (size - it.data.length) rest
      else if endIndex ≤ it.first then
        .ok (settle (passed ++ it :: rest) firstIndex endIndex data size)
      else cacheInFrom (passed ++ [it]) firstIndex endIndex data size rest

def cacheIn (re : Reassembler) (firstIndex : Nat) (data : Bytes) :
    Except Fault (Bool × Reassembler) :=
  match cacheInFrom [] firstIndex (firstIndex + data.length) data re.size re.cache with
  | .error fault => .error fault
  | .ok cached => .ok (cached.result, { re with cache := cached.cache, size := cached.size })

def writeEntry (re : Reassembler) (it : Entry) (rest : List Entry) : Reassembler :=
  let curDataLen := it.data.length
  let count :=
    if re.output.availableCapacity > curDataLen then curDataLen else re.output.availableCapacity
  let pushStr := it.data.take count
  let leaveStr := it.data.drop count
  let written :=
    { re with
      output := re.output.push pushStr
      size := re.size - it.data.length
      waitingIndex := re.waitingIndex + pushStr.length
      cache := rest }
  if leaveStr = [] then written
  else
    { written with
      size := written.size + leaveStr.length
      cache := insertEntry
        ⟨written.waitingIndex, written.waitingIndex + leaveStr.length, leaveStr⟩ rest }

def writeFrom : Nat → Reassembler → Except Fault Reassembler
  | 0, _ => .error .endless
  | rounds + 1, re =>
      match re.cache with
      | [] => .ok re
      | it :: rest =>
          if it.first ≠ re.waitingIndex then .ok re else writeFrom rounds (re.writeEntry it rest)

/-- `writer_::write`. A round that leaves part of an entry has filled the output, so the loop
either is done after one round for each entry or never is. -/
def write (re : Reassembler) : Except Fault Reassembler := writeFrom (re.cache.length + 1) re

def insertFiltered (re : Reassembler) (firstIndex : Nat) (data : Bytes) :
    Except Fault Reassembler :=
  match re.windowFilter firstIndex data with
  | .error fault => .error fault
  | .ok none => .ok re
  | .ok (some (firstIndex, data)) =>
      match re.cacheIn firstIndex data with
      | .error fault => .error fault
      | .ok (false, re) => .ok re
      | .ok (true, re) =>
          match re.write with
          | .error fault => .error fault
          | .ok re =>
              if re.isInit = true ∧ re.eofEndIndex ≤ re.waitingIndex then
                .ok { re with output := re.output.closeWriter }
              else .ok re

def insert (re : Reassembler) (firstIndex : Nat) (data : Bytes) (isLastSubstring : Bool) :
    Except Fault Reassembler :=
  let opened := { re with tailIndex := Int64.ofNat (re.waitingIndex + re.output.availableCapacity) }
  match opened.eofManager firstIndex data isLastSubstring with
  | (re, none) => .ok re
  | (re, some (firstIndex, data)) => re.insertFiltered firstIndex data

end Reassembler

end LearnInternet.Tcp
