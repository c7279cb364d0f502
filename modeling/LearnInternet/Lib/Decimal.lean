import Mathlib.Algebra.Group.Int.Defs
import Mathlib.Algebra.Group.Nat.Defs
import Mathlib.Data.List.Basic
import Mathlib.Data.List.TakeWhile
import Mathlib.Tactic.Common

/-!
Decimal numbers in byte strings: the rendering `std::to_string` makes, and the reading of
`std::stoi` and `std::stoul` (white space, one sign, the longest run of digits, a range check).
-/

abbrev Bytes := List UInt8

def ascii (literal : String) : Bytes :=
  literal.toList.map fun letter => UInt8.ofNat letter.toNat

theorem forall_mem_bytes {p : UInt8 → Prop} [DecidablePred p] {text : Bytes}
    (checked : (text.all fun byte => decide (p byte)) = true) : ∀ byte ∈ text, p byte := by
  intro byte member
  exact of_decide_eq_true (List.all_eq_true.mp checked byte member)

namespace Decimal

inductive ConversionError where
  | invalidArgument
  | outOfRange
  deriving DecidableEq, Repr

def toBytes (number : Nat) : Bytes :=
  (Nat.toDigits 10 number).map fun letter => UInt8.ofNat letter.toNat

def intToBytes : Int → Bytes
  | Int.ofNat number => toBytes number
  | Int.negSucc number => 45 :: toBytes (number + 1)

def isDigit (byte : UInt8) : Bool := decide (48 ≤ byte.toNat ∧ byte.toNat ≤ 57)

def isSpace (byte : UInt8) : Bool :=
  decide (byte.toNat = 32 ∨ 9 ≤ byte.toNat ∧ byte.toNat ≤ 13)

def value (digits : Bytes) : Nat :=
  digits.foldl (fun sofar byte => 10 * sofar + (byte.toNat - 48)) 0

structure Scanned where
  negative : Bool
  digits : Bytes
  deriving DecidableEq, Repr

def scan (text : Bytes) : Scanned :=
  match text.dropWhile isSpace with
  | [] => ⟨false, []⟩
  | first :: rest =>
      if first = 45 then ⟨true, rest.takeWhile isDigit⟩
      else if first = 43 then ⟨false, rest.takeWhile isDigit⟩
      else ⟨false, (first :: rest).takeWhile isDigit⟩

def Scanned.toInt (scanned : Scanned) : Int :=
  if scanned.negative then -(value scanned.digits : Int) else value scanned.digits

def stoi (text : Bytes) : Except ConversionError Int :=
  let scanned := scan text
  if scanned.digits = [] then .error .invalidArgument
  else if -2 ^ 31 ≤ scanned.toInt ∧ scanned.toInt < 2 ^ 31 then .ok scanned.toInt
  else .error .outOfRange

/-- `std::stoul`: a 64-bit unsigned result; a minus sign negates modulo `2 ^ 64`. -/
def stoul (text : Bytes) : Except ConversionError Nat :=
  let scanned := scan text
  if scanned.digits = [] then .error .invalidArgument
  else if 2 ^ 64 ≤ value scanned.digits then .error .outOfRange
  else if scanned.negative then .ok ((2 ^ 64 - value scanned.digits) % 2 ^ 64)
  else .ok (value scanned.digits)

theorem letter_toByte {letter : Char} (digit : letter.isDigit = true) :
    (UInt8.ofNat letter.toNat).toNat = letter.toNat ∧ 48 ≤ letter.toNat ∧ letter.toNat ≤ 57 := by
  have bounds : 48 ≤ letter.toNat ∧ letter.toNat ≤ 57 := by
    simp only [Char.isDigit, Bool.and_eq_true, decide_eq_true_eq, ge_iff_le,
      UInt32.le_iff_toNat_le] at digit
    exact digit
  refine ⟨?_, bounds⟩
  rw [UInt8.toNat_ofNat']
  omega

theorem isDigit_of_mem_toBytes {number : Nat} {byte : UInt8} (member : byte ∈ toBytes number) :
    isDigit byte = true := by
  obtain ⟨letter, inside, rfl⟩ := List.mem_map.mp member
  have bounds := letter_toByte (Nat.isDigit_of_mem_toDigits (by omega) (by omega) inside)
  simp only [isDigit, decide_eq_true_eq]
  omega

theorem not_mem_toBytes {byte : UInt8} (other : isDigit byte = false) (number : Nat) :
    byte ∉ toBytes number := by
  intro member
  rw [isDigit_of_mem_toBytes member] at other
  cases other

theorem not_mem_intToBytes {byte : UInt8} (other : isDigit byte = false) (noSign : byte ≠ 45)
    (number : Int) : byte ∉ intToBytes number := by
  cases number with
  | ofNat value => exact not_mem_toBytes other value
  | negSucc value =>
      intro member
      rcases List.mem_cons.mp member with sign | digit
      · exact noSign sign
      · exact not_mem_toBytes other (value + 1) digit

theorem toBytes_ne_nil (number : Nat) : toBytes number ≠ [] := by
  simp [toBytes]

theorem length_toBytes_le_iff {number width : Nat} (positive : 0 < width) :
    (toBytes number).length ≤ width ↔ number < 10 ^ width := by
  rw [toBytes, List.length_map, Nat.length_toDigits_le_iff (by omega) positive]

theorem foldl_map_toByte (letters : List Char) (start : Nat)
    (digits : ∀ letter ∈ letters, letter.isDigit = true) :
    (letters.map fun letter => UInt8.ofNat letter.toNat).foldl
        (fun sofar byte => 10 * sofar + (byte.toNat - 48)) start =
      Nat.ofDigitChars 10 letters start := by
  induction letters generalizing start with
  | nil => simp
  | cons letter letters ih =>
      have byteValue := (letter_toByte (digits letter (by simp))).1
      rw [List.map_cons, List.foldl_cons, Nat.ofDigitChars_cons, byteValue]
      exact ih _ (fun other inside => digits other (by simp [inside]))

@[simp] theorem value_toBytes (number : Nat) : value (toBytes number) = number := by
  rw [value, toBytes, foldl_map_toByte]
  · exact Nat.ofDigitChars_ten_toDigits
  · exact fun letter inside => Nat.isDigit_of_mem_toDigits (by omega) (by omega) inside

theorem toBytes_injective : Function.Injective toBytes := by
  intro left right same
  rw [← value_toBytes left, same, value_toBytes]

theorem isSpace_eq_false_of_isDigit {byte : UInt8} (digit : isDigit byte = true) :
    isSpace byte = false := by
  simp only [isDigit, decide_eq_true_eq] at digit
  simp only [isSpace, decide_eq_false_iff_not]
  omega

theorem scan_digits {digits : Bytes} (nonempty : digits ≠ [])
    (all : ∀ byte ∈ digits, isDigit byte = true) : scan digits = ⟨false, digits⟩ := by
  cases digits with
  | nil => exact absurd rfl nonempty
  | cons first rest =>
      have firstDigit := all first (by simp)
      have bounds : 48 ≤ first.toNat ∧ first.toNat ≤ 57 := by simpa [isDigit] using firstDigit
      have notMinus : first ≠ 45 := by rintro rfl; simp at bounds
      have notPlus : first ≠ 43 := by rintro rfl; simp at bounds
      have kept : (first :: rest).takeWhile isDigit = first :: rest :=
        List.takeWhile_eq_self_iff.mpr all
      have noSpace : (first :: rest).dropWhile isSpace = first :: rest := by
        rw [List.dropWhile_cons_of_neg]
        simp [isSpace_eq_false_of_isDigit firstDigit]
      simp [scan, noSpace, notMinus, notPlus, kept]

theorem scan_toBytes (number : Nat) : scan (toBytes number) = ⟨false, toBytes number⟩ :=
  scan_digits (toBytes_ne_nil number) (fun _ member => isDigit_of_mem_toBytes member)

theorem stoi_toBytes {number : Nat} (bound : number < 2 ^ 31) :
    stoi (toBytes number) = .ok (number : Int) := by
  simp only [stoi, scan_toBytes, toBytes_ne_nil, if_false, Scanned.toInt, value_toBytes,
    Bool.false_eq_true]
  rw [if_pos (by omega)]

theorem stoi_toBytes_large {number : Nat} (large : 2 ^ 31 ≤ number) :
    stoi (toBytes number) = .error .outOfRange := by
  simp only [stoi, scan_toBytes, toBytes_ne_nil, if_false, Scanned.toInt, value_toBytes,
    Bool.false_eq_true]
  rw [if_neg (by omega)]

theorem stoul_toBytes {number : Nat} (bound : number < 2 ^ 64) :
    stoul (toBytes number) = .ok number := by
  simp only [stoul, scan_toBytes, toBytes_ne_nil, if_false, value_toBytes, Bool.false_eq_true]
  rw [if_neg (by omega)]

theorem stoul_of_stoi {text : Bytes} {number : Int} (accepted : stoi text = .ok number) :
    stoul text = .ok (number % 2 ^ 64).toNat := by
  simp only [stoi] at accepted
  split at accepted
  · contradiction
  · rename_i nonempty
    split at accepted
    · rename_i range
      obtain rfl := Except.ok.inj accepted
      simp only [stoul, nonempty, if_false]
      cases sign : (scan text).negative with
      | false =>
          simp only [Scanned.toInt, sign, Bool.false_eq_true, if_false] at range ⊢
          rw [if_neg (by omega)]
          congr 1
          omega
      | true =>
          simp only [Scanned.toInt, sign, if_true] at range ⊢
          rw [if_neg (by omega)]
          congr 1
          omega
    · contradiction

theorem stoul_ok_iff (text : Bytes) :
    (∃ number, stoul text = .ok number) ↔
      (scan text).digits ≠ [] ∧ value (scan text).digits < 2 ^ 64 := by
  simp only [stoul]
  by_cases empty : (scan text).digits = []
  · simp [empty]
  · simp only [empty, if_false, ne_eq, not_false_eq_true, true_and]
    by_cases large : 2 ^ 64 ≤ value (scan text).digits
    · simp only [large, if_true, reduceCtorEq, exists_false, false_iff]
      omega
    · have small : value (scan text).digits < 2 ^ 64 := by omega
      simp only [large, if_false, small, iff_true]
      cases (scan text).negative with
      | false => exact ⟨_, rfl⟩
      | true => exact ⟨_, rfl⟩

theorem stoi_ok_iff (text : Bytes) (number : Int) :
    stoi text = .ok number ↔
      (scan text).digits ≠ [] ∧ -2 ^ 31 ≤ number ∧ number < 2 ^ 31 ∧
        number = (scan text).toInt := by
  simp only [stoi]
  by_cases empty : (scan text).digits = []
  · simp [empty]
  · simp only [empty, if_false, ne_eq, not_false_eq_true, true_and]
    split
    · rename_i range
      constructor
      · intro same
        rw [← Except.ok.inj same]
        exact ⟨range.1, range.2, rfl⟩
      · rintro ⟨-, -, rfl⟩
        rfl
    · rename_i range
      constructor
      · intro same
        cases same
      · rintro ⟨low, high, rfl⟩
        exact absurd ⟨low, high⟩ range

def Literal (text : Bytes) (number : Int) : Prop :=
  ∃ digits, digits ≠ [] ∧ (∀ byte ∈ digits, isDigit byte = true) ∧
    ((text = digits ∧ number = value digits) ∨ (text = 43 :: digits ∧ number = value digits) ∨
      (text = 45 :: digits ∧ number = -(value digits : Int)))

theorem Literal.scan {text : Bytes} {number : Int} (literal : Literal text number) :
    (scan text).digits ≠ [] ∧ (scan text).toInt = number := by
  obtain ⟨digits, nonempty, all, ⟨rfl, rfl⟩ | ⟨rfl, rfl⟩ | ⟨rfl, rfl⟩⟩ := literal
  · rw [scan_digits nonempty all]
    exact ⟨nonempty, rfl⟩
  · have kept : digits.takeWhile isDigit = digits := List.takeWhile_eq_self_iff.mpr all
    have read : Decimal.scan (43 :: digits) = ⟨false, digits⟩ := by
      simp [Decimal.scan, isSpace, kept]
    rw [read]
    exact ⟨nonempty, rfl⟩
  · have kept : digits.takeWhile isDigit = digits := List.takeWhile_eq_self_iff.mpr all
    have read : Decimal.scan (45 :: digits) = ⟨true, digits⟩ := by
      simp [Decimal.scan, isSpace, kept]
    rw [read]
    exact ⟨nonempty, rfl⟩

theorem Literal.stoi {text : Bytes} {number : Int} (literal : Literal text number)
    (low : -2 ^ 31 ≤ number) (high : number < 2 ^ 31) : stoi text = .ok number :=
  (stoi_ok_iff text number).mpr ⟨literal.scan.1, low, high, literal.scan.2.symm⟩

theorem Literal.not_mem_of_isSpace {text : Bytes} {number : Int} (literal : Literal text number)
    {byte : UInt8} (space : isSpace byte = true) : byte ∉ text := by
  obtain ⟨digits, -, all, split⟩ := literal
  have notDigit : byte ∉ digits := by
    intro member
    rw [isSpace_eq_false_of_isDigit (all byte member)] at space
    cases space
  have notPlus : byte ≠ 43 := by
    rintro rfl
    simp [isSpace] at space
  have notMinus : byte ≠ 45 := by
    rintro rfl
    simp [isSpace] at space
  rcases split with ⟨rfl, -⟩ | ⟨rfl, -⟩ | ⟨rfl, -⟩
  · exact notDigit
  · simp [notDigit, notPlus]
  · simp [notDigit, notMinus]

theorem stoi_invalid {first : UInt8} (rest : Bytes) (noSpace : isSpace first = false)
    (noDigit : isDigit first = false) (notMinus : first ≠ 45) (notPlus : first ≠ 43) :
    stoi (first :: rest) = .error .invalidArgument := by
  have kept : (first :: rest).dropWhile isSpace = first :: rest := by
    rw [List.dropWhile_cons_of_neg (by simp [noSpace])]
  simp [stoi, scan, kept, notMinus, notPlus, noDigit]

end Decimal
