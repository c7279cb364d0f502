import LearnInternet.Tcp.Wrap32

/-!
`Wrap32::unwrap` in the arithmetic of `uint64_t`, and the number it finds: the one nearest to the
checkpoint among those that are wrapped to the value.
-/

namespace LearnInternet.Tcp

namespace Wrap32

def leftLowWord (value zeroPoint : Wrap32) : UInt64 :=
  let raw := value.rawValue.toUInt64
  let zeroRaw := zeroPoint.rawValue.toUInt64
  if value.rawValue ≥ zeroPoint.rawValue then raw - zeroRaw
  else (raw + 0xFFFFFFFF + 1 - zeroRaw) &&& 0x00000000FFFFFFFF

/-- `unwrap` with each variable of the source a 64-bit word. -/
def unwrapWord (value zeroPoint : Wrap32) (checkpoint : UInt64) : UInt64 :=
  let left := value.leftLowWord zeroPoint
  let right := left + 0xFFFFFFFF + 1
  let low := checkpoint &&& 0x00000000FFFFFFFF
  -- the correction of the window
  let moved := low + 0x80000000 ≤ left
  let checkpointLow := if moved then low + (0xFFFFFFFF + 1) else low
  let lwindow :=
    if moved then checkpointLow - 0x80000000
    else if low > 0x80000000 then low - 0x80000000 else 0
  let rwindow := checkpointLow + 0x80000000
  let rounds := if checkpoint > checkpointLow then checkpoint - checkpointLow else 0
  if lwindow ≤ left ∧ left < rwindow then left + rounds else right + rounds

theorem toNat_mask (word : UInt64) : (word &&& 0x00000000FFFFFFFF).toNat = word.toNat % 2 ^ 32 := by
  rw [UInt64.toNat_and]
  exact Nat.and_two_pow_sub_one_eq_mod word.toNat 32

theorem leftLow_lt (value zeroPoint : Wrap32) : value.leftLow zeroPoint < 2 ^ 32 := by
  have bound : value.rawValue.toNat < 2 ^ 32 := value.rawValue.toNat_lt
  simp only [leftLow]
  split <;> omega

theorem wrap_eq_iff (n : Nat) (value zeroPoint : Wrap32) :
    wrap n zeroPoint = value ↔ n % 2 ^ 32 = value.leftLow zeroPoint := by
  constructor
  · rintro rfl
    exact (leftLow_wrap n zeroPoint).symm
  · intro same
    have zeroBound : zeroPoint.rawValue.toNat < 2 ^ 32 := zeroPoint.rawValue.toNat_lt
    have bound : value.rawValue.toNat < 2 ^ 32 := value.rawValue.toNat_lt
    have raw : (wrap n zeroPoint).rawValue.toNat = value.rawValue.toNat := by
      rw [toNat_wrap]
      simp only [leftLow] at same
      split at same <;> omega
    have words := UInt32.toNat.inj raw
    cases value
    exact congrArg Wrap32.mk words

theorem toNat_leftLowWord (value zeroPoint : Wrap32) :
    (value.leftLowWord zeroPoint).toNat = value.leftLow zeroPoint := by
  have bound : value.rawValue.toNat < 2 ^ 32 := value.rawValue.toNat_lt
  have zeroBound : zeroPoint.rawValue.toNat < 2 ^ 32 := zeroPoint.rawValue.toNat_lt
  simp only [leftLowWord, leftLow, ge_iff_le, UInt32.le_iff_toNat_le]
  split
  · rw [UInt64.toNat_sub]
    simp only [UInt32.toNat_toUInt64]
    omega
  · rw [toNat_mask, UInt64.toNat_sub, UInt64.toNat_add, UInt64.toNat_add]
    simp only [UInt32.toNat_toUInt64, UInt64.reduceToNat]
    omega

theorem toNat_unwrapWord (value zeroPoint : Wrap32) (checkpoint : UInt64) :
    (value.unwrapWord zeroPoint checkpoint).toNat =
      value.unwrap zeroPoint checkpoint.toNat % 2 ^ 64 := by
  have bound := leftLow_lt value zeroPoint
  have size : checkpoint.toNat < 2 ^ 64 := checkpoint.toNat_lt
  have left := toNat_leftLowWord value zeroPoint
  have low := toNat_mask checkpoint
  simp only [unwrapWord, unwrap]
  generalize value.leftLowWord zeroPoint = leftWord at left
  generalize checkpoint &&& 0x00000000FFFFFFFF = lowWord at low
  generalize value.leftLow zeroPoint = leftLow at bound left
  have rwindow : (checkpoint.toNat % 2 ^ 32 + 2147483648) % 2 ^ 64 =
      checkpoint.toNat % 2 ^ 32 + 2147483648 := by omega
  have round : (checkpoint.toNat % 2 ^ 32 + (4294967295 + 1) % 2 ^ 64) % 2 ^ 64 =
      checkpoint.toNat % 2 ^ 32 + 4294967295 + 1 := by omega
  simp only [UInt64.le_iff_toNat_le, UInt64.lt_iff_toNat_lt, gt_iff_lt, apply_ite UInt64.toNat,
    UInt64.toNat_add, UInt64.toNat_sub, UInt64.reduceToNat, left, low, rwindow, round]
  by_cases moved : checkpoint.toNat % 2 ^ 32 + 2147483648 ≤ leftLow
  · simp only [moved, if_true]
    split <;> split <;> split <;> split <;> omega
  · simp only [moved, if_false]
    split <;> split <;> split <;> split <;> omega

theorem unwrap_spec (value zeroPoint : Wrap32) (checkpoint : Nat) :
    value.unwrap zeroPoint checkpoint % 2 ^ 32 = value.leftLow zeroPoint ∧
      checkpoint ≤ value.unwrap zeroPoint checkpoint + 2 ^ 31 ∧
      (value.unwrap zeroPoint checkpoint ≤ checkpoint + 2 ^ 31 ∨
        value.unwrap zeroPoint checkpoint < 2 ^ 32) := by
  have bound := leftLow_lt value zeroPoint
  simp only [unwrap]
  split <;> split <;> split <;> split <;> omega

theorem unwrap_lt (value zeroPoint : Wrap32) {checkpoint : Nat}
    (room : checkpoint + 2 ^ 32 < 2 ^ 64) : value.unwrap zeroPoint checkpoint < 2 ^ 64 := by
  obtain ⟨-, -, near⟩ := unwrap_spec value zeroPoint checkpoint
  omega

theorem unwrap_nearest (value zeroPoint : Wrap32) {checkpoint other : Nat}
    (residue : other % 2 ^ 32 = value.leftLow zeroPoint) :
    ((value.unwrap zeroPoint checkpoint : Int) - checkpoint).natAbs ≤
      ((other : Int) - checkpoint).natAbs := by
  obtain ⟨found, behind, near⟩ := unwrap_spec value zeroPoint checkpoint
  omega

theorem toNat_unwrapWord_of_room (value zeroPoint : Wrap32) {checkpoint : UInt64}
    (room : checkpoint.toNat + 2 ^ 32 < 2 ^ 64) :
    (value.unwrapWord zeroPoint checkpoint).toNat =
      value.unwrap zeroPoint checkpoint.toNat := by
  rw [toNat_unwrapWord, Nat.mod_eq_of_lt (unwrap_lt value zeroPoint room)]

/-- The word found is wrapped to the value, and is the nearest to the checkpoint that is; a number
within half a round of the checkpoint is found again. -/
theorem unwrapWord_nearest (zeroPoint : Wrap32) (checkpoint : UInt64)
    (room : checkpoint.toNat + 2 ^ 32 < 2 ^ 64) :
    (∀ value : Wrap32,
      wrap (value.unwrapWord zeroPoint checkpoint).toNat zeroPoint = value ∧
        ∀ other : UInt64, wrap other.toNat zeroPoint = value →
          (((value.unwrapWord zeroPoint checkpoint).toNat : Int) - checkpoint.toNat).natAbs ≤
            ((other.toNat : Int) - checkpoint.toNat).natAbs) ∧
      ∀ n : UInt64, ((n.toNat : Int) - checkpoint.toNat).natAbs < 2 ^ 31 →
        (wrap n.toNat zeroPoint).unwrapWord zeroPoint checkpoint = n := by
  constructor
  · intro value
    rw [toNat_unwrapWord_of_room value zeroPoint room]
    refine ⟨(wrap_eq_iff _ value zeroPoint).mpr (unwrap_spec value zeroPoint _).1, ?_⟩
    intro other wrapped
    exact unwrap_nearest value zeroPoint ((wrap_eq_iff _ value zeroPoint).mp wrapped)
  · intro n near
    apply UInt64.toNat.inj
    rw [toNat_unwrapWord_of_room _ zeroPoint room]
    exact unwrap_wrap zeroPoint (by omega) (by omega)

theorem unwrapWord_nearest_second_round :
    wrap ((Wrap32.mk 12).unwrapWord ⟨7⟩ 4294967296).toNat ⟨7⟩ = ⟨12⟩ ∧
      (wrap (4294967301 : UInt64).toNat ⟨7⟩).unwrapWord ⟨7⟩ 4294967296 = 4294967301 := by
  have found := unwrapWord_nearest ⟨7⟩ 4294967296 (by decide)
  exact ⟨(found.1 ⟨12⟩).1, found.2 4294967301 (by decide)⟩

end Wrap32

end LearnInternet.Tcp
