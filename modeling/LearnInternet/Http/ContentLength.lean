import LearnInternet.Http.Server

/-!
Two classes read one `Content-Length`: the codec takes as many bytes as `std::stoi` says, and the
connection compares their number with what `std::stoul` says.
-/

namespace LearnInternet.Http

open LearnInternet

/-- The digits that are read, with their sign, are a number of 32 bits. -/
def FitsInt (text : Bytes) : Prop :=
  if (Decimal.scan text).negative then Decimal.value (Decimal.scan text).digits ≤ 2 ^ 31
  else Decimal.value (Decimal.scan text).digits < 2 ^ 31

theorem fitsInt_iff (text : Bytes) :
    FitsInt text ↔ -2 ^ 31 ≤ (Decimal.scan text).toInt ∧ (Decimal.scan text).toInt < 2 ^ 31 := by
  simp only [FitsInt, Decimal.Scanned.toInt]
  split <;> omega

theorem stoul_eq_ok_iff (text : Bytes) (number : Nat) :
    stoul text = .ok number ↔ Decimal.stoul text = .ok number := by
  simp only [stoul]
  cases Decimal.stoul text with
  | ok other => simp
  | error failure => simp

theorem stoi_same_iff {text : Bytes} {number : Nat} (unsigned : Decimal.stoul text = .ok number) :
    (∃ signed, Decimal.stoi text = .ok signed ∧ (signed % 2 ^ 64).toNat = number) ↔
      FitsInt text := by
  rw [fitsInt_iff]
  constructor
  · rintro ⟨signed, accepted, -⟩
    obtain ⟨-, low, high, rfl⟩ := (Decimal.stoi_ok_iff text signed).mp accepted
    exact ⟨low, high⟩
  · rintro ⟨low, high⟩
    have digits := ((Decimal.stoul_ok_iff text).mp ⟨number, unsigned⟩).1
    have accepted := (Decimal.stoi_ok_iff text _).mpr ⟨digits, low, high, rfl⟩
    have same := Decimal.stoul_of_stoi accepted
    rw [unsigned] at same
    exact ⟨_, accepted, (Except.ok.inj same).symm⟩

theorem dataLen_same_iff {obj : HTTPReqObj} {value : Bytes} {number : Nat}
    (found : obj.header.find contentLength = some value)
    (unsigned : Decimal.stoul value = .ok number) :
    (∃ taken, dataLen obj = .ok taken ∧ taken.getD 0 = number) ↔ FitsInt value := by
  rw [← stoi_same_iff unsigned]
  simp only [dataLen, found]
  by_cases zero : value = ascii "0"
  · -- the codec skips the conversion here, and both make 0 of it
    subst zero
    have none : Decimal.stoul (ascii "0") = .ok 0 := by decide
    rw [none] at unsigned
    cases unsigned
    simp only [if_true, Except.ok.injEq, exists_eq_left', Option.getD_none, true_iff]
    exact ⟨0, by decide, rfl⟩
  · simp only [zero, if_false]
    cases Decimal.stoi value with
    | error failure => simp
    | ok signed => simp

/-- Whenever `std::stoul` makes a number of the field, the codec makes the same of it, and takes as
many bytes as the connection then asks for, exactly when it is a number of 32 bits with a sign. -/
theorem contentLength_agrees_iff (obj : HTTPReqObj) (value : Bytes) (number : Nat)
    (found : obj.header.find contentLength = some value) (read : stoul value = .ok number) :
    ((∃ signed, Decimal.stoi value = .ok signed ∧ (signed % 2 ^ 64).toNat = number) ↔
        FitsInt value) ∧
      ((∃ taken, dataLen obj = .ok taken ∧ taken.getD 0 = number) ↔ FitsInt value) := by
  have unsigned := (stoul_eq_ok_iff value number).mp read
  exact ⟨stoi_same_iff unsigned, dataLen_same_iff found unsigned⟩

def sized (length : Bytes) : HTTPReqObj :=
  { HTTPReqObj.fresh with header := UnorderedMap.empty.assign contentLength length }

theorem contentLength_agrees_padded :
    (∃ signed, Decimal.stoi (ascii " +007b") = .ok signed ∧ (signed % 2 ^ 64).toNat = 7) ∧
      ∃ taken, dataLen (sized (ascii " +007b")) = .ok taken ∧ taken.getD 0 = 7 := by
  have fits : FitsInt (ascii " +007b") := by
    rw [fitsInt_iff]
    decide
  have agrees := contentLength_agrees_iff (sized (ascii " +007b")) (ascii " +007b") 7 (by decide)
    (by rfl)
  exact ⟨agrees.1.mpr fits, agrees.2.mpr fits⟩

theorem contentLength_throws :
    stoul (ascii "2147483648") = .ok (2 ^ 31) ∧
      ¬∃ signed, Decimal.stoi (ascii "2147483648") = .ok signed ∧
        (signed % 2 ^ 64).toNat = 2 ^ 31 := by
  refine ⟨by rfl, ?_⟩
  rintro ⟨signed, accepted, -⟩
  have refused : Decimal.stoi (ascii "2147483648") = .error .outOfRange := by decide
  rw [refused] at accepted
  cases accepted

end LearnInternet.Http
