import Mathlib.Algebra.Group.Nat.Defs
import Mathlib.Data.List.Basic
import Mathlib.Tactic.Common

/-!
`Wrap32`: sequence numbers modulo `2 ^ 32`, and the absolute number near a checkpoint.
-/

namespace LearnInternet.Tcp

structure Wrap32 where
  rawValue : UInt32
  deriving DecidableEq, Repr

namespace Wrap32

def add (value : Wrap32) (count : UInt32) : Wrap32 := ⟨value.rawValue + count⟩

def wrap (n : Nat) (zeroPoint : Wrap32) : Wrap32 :=
  (Wrap32.mk (UInt32.ofNat n)).add zeroPoint.rawValue

def leftLow (value zeroPoint : Wrap32) : Nat :=
  let raw := value.rawValue.toNat
  let zeroRaw := zeroPoint.rawValue.toNat
  if raw ≥ zeroRaw then raw - zeroRaw else (raw + 0xFFFFFFFF + 1 - zeroRaw) % 2 ^ 32

def unwrap (value zeroPoint : Wrap32) (checkpoint : Nat) : Nat :=
  let left := value.leftLow zeroPoint
  let right := left + 0xFFFFFFFF + 1
  let low := checkpoint % 2 ^ 32
  -- the window around the checkpoint, moved up by one round when it lies below `left`
  let moved := low + 0x80000000 ≤ left
  let checkpointLow := if moved then low + 0xFFFFFFFF + 1 else low
  let lwindow := if checkpointLow > 0x80000000 then checkpointLow - 0x80000000 else 0
  let rwindow := checkpointLow + 0x80000000
  let rounds := if checkpoint > checkpointLow then checkpoint - checkpointLow else 0
  if lwindow ≤ left ∧ left < rwindow then left + rounds else right + rounds

theorem toNat_wrap (n : Nat) (zeroPoint : Wrap32) :
    (wrap n zeroPoint).rawValue.toNat = (n + zeroPoint.rawValue.toNat) % 2 ^ 32 := by
  simp [wrap, add]

theorem leftLow_wrap (n : Nat) (zeroPoint : Wrap32) :
    (wrap n zeroPoint).leftLow zeroPoint = n % 2 ^ 32 := by
  have bound : zeroPoint.rawValue.toNat < 2 ^ 32 := zeroPoint.rawValue.toNat_lt
  simp only [leftLow, toNat_wrap]
  split <;> omega

theorem unwrap_wrap {n checkpoint : Nat} (zeroPoint : Wrap32) (behind : checkpoint ≤ n + 2 ^ 31)
    (ahead : n < checkpoint + 2 ^ 31) : (wrap n zeroPoint).unwrap zeroPoint checkpoint = n := by
  simp only [unwrap, leftLow_wrap]
  split <;> split <;> split <;> split <;> omega

theorem wrap_eq_wrap_iff (left right : Nat) (zeroPoint : Wrap32) :
    wrap left zeroPoint = wrap right zeroPoint ↔ left % 2 ^ 32 = right % 2 ^ 32 := by
  constructor
  · intro same
    rw [← leftLow_wrap left zeroPoint, ← leftLow_wrap right zeroPoint, same]
  · intro same
    have raw : UInt32.ofNat left = UInt32.ofNat right := by
      apply UInt32.toNat.inj
      simpa using same
    rw [wrap, wrap, raw]

end Wrap32

end LearnInternet.Tcp
