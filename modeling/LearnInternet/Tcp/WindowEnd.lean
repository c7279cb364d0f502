import LearnInternet.Tcp.ByteStream

/-!
Where the window of a reassembler ends. The end is `bytes_popped` and the capacity together, held in
64 bits: from `2 ^ 63` on it is negative as an `int64_t`, and from `2 ^ 64` on it wraps as a `uint64_t`.
-/

namespace LearnInternet.Tcp

/-- A word of 64 bits, signed or not, made from `stop`. -/
structure Wraps (stop : Nat) (word : Int) : Prop where
  word_lt : word < 2 ^ 64
  rounds : ∃ rounds : Nat, (stop : Int) = word + 2 ^ 64 * rounds

theorem wraps_int64 (stop : Nat) : Wraps stop (Int64.ofNat stop).toInt := by
  rw [Int64.toInt_ofNat', Int.bmod_def]
  simp only [Int64.size]
  split
  · exact ⟨by omega, stop / 2 ^ 64, by omega⟩
  · exact ⟨by omega, stop / 2 ^ 64 + 1, by omega⟩

theorem wraps_uint64 (stop : Nat) : Wraps stop (UInt64.ofNat stop).toNat := by
  rw [UInt64.toNat_ofNat']
  exact ⟨by omega, stop / 2 ^ 64, by omega⟩

theorem Wraps.le {stop : Nat} {word : Int} (wraps : Wraps stop word) : word ≤ stop := by
  obtain ⟨rounds, wrapped⟩ := wraps.rounds
  omega

theorem toInt_int64_neg {stop : Nat} (beyond : 2 ^ 63 ≤ stop) (below : stop < 2 ^ 64) :
    (Int64.ofNat stop).toInt < 0 := by
  rw [Int64.toInt_ofNat', Int.bmod_def]
  simp only [Int64.size]
  omega

theorem toInt_int64_eq {stop : Nat} (positive : 0 ≤ (Int64.ofNat stop).toInt) :
    (Int64.ofNat stop).toInt = (UInt64.ofNat stop).toNat := by
  obtain ⟨below, rounds, wrapped⟩ := wraps_int64 stop
  rw [UInt64.toNat_ofNat']
  omega

/-- Where a window that ends at `stop`, held as `word`, cuts a string from `firstIndex`. A word behind
the index that is waited for makes the length of what is kept wrap. -/
def cutEnd (stop : Nat) (word : Int) (waitingIndex firstIndex : Nat) : Nat :=
  if firstIndex < word ∧ word < waitingIndex then waitingIndex + (stop - waitingIndex) % 2 ^ 64
  else word.toNat

theorem cutEnd_le {stop waitingIndex : Nat} {word : Int} (wraps : Wraps stop word)
    (window : waitingIndex ≤ stop) (firstIndex : Nat) :
    cutEnd stop word waitingIndex firstIndex ≤ stop := by
  have le := wraps.le
  rw [cutEnd]
  split
  · have less := Nat.mod_le (stop - waitingIndex) (2 ^ 64)
    omega
  · omega

theorem cutEnd_of_le {stop waitingIndex firstIndex : Nat} {word : Int} (window : waitingIndex ≤ word) :
    cutEnd stop word waitingIndex firstIndex = word.toNat :=
  if_neg (by omega)

theorem cutEnd_eq {stop waitingIndex firstIndex : Nat} {word : Int} (wraps : Wraps stop word)
    (window : waitingIndex ≤ stop) (meets : firstIndex < word) :
    cutEnd stop word waitingIndex firstIndex =
      max waitingIndex firstIndex + (stop - max waitingIndex firstIndex) % 2 ^ 64 := by
  have below := wraps.word_lt
  obtain ⟨rounds, wrapped⟩ := wraps.rounds
  rw [cutEnd]
  split
  · rw [max_eq_left (by omega)]
  · have less : (stop - max waitingIndex firstIndex) % 2 ^ 64 =
        word.toNat - max waitingIndex firstIndex := by omega
    omega

theorem cutEnd_of_neg {stop waitingIndex firstIndex : Nat} {word : Int} (negative : word < 0) :
    cutEnd stop word waitingIndex firstIndex = 0 := by
  rw [cutEnd, if_neg (by omega)]
  omega

theorem cutEnd_of_lt {stop waitingIndex firstIndex : Nat} (below : stop < 2 ^ 63)
    (window : waitingIndex ≤ stop) :
    cutEnd stop (Int64.ofNat stop).toInt waitingIndex firstIndex = stop := by
  have word := Int64.toInt_ofNat_of_lt below
  rw [cutEnd_of_le (by omega), word, Int.toNat_natCast]

namespace ByteStream

/-- Where the second reassembler cuts a string from `firstIndex`. -/
def windowEnd (output : ByteStream) (firstIndex : Nat) : Nat :=
  cutEnd (output.bytesPopped + output.capacity)
    (Int64.ofNat (output.bytesPopped + output.capacity)).toInt output.bytesPushed firstIndex

def windowEndV1 (output : ByteStream) (firstIndex : Nat) : Nat :=
  cutEnd (output.bytesPopped + output.capacity)
    (UInt64.ofNat (output.bytesPopped + output.capacity)).toNat output.bytesPushed firstIndex

end ByteStream

end LearnInternet.Tcp
