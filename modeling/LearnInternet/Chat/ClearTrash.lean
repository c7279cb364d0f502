import Mathlib.Data.List.Basic
import Mathlib.Tactic.Common

/-!
`MyThreadPool::ClearTrash`. The `Unlock` stands inside the loop over the workers, and so does the
count of what is removed.
-/

namespace LearnInternet.Chat

abbrev ThreadStat := Int32

def killedTd : ThreadStat := 0

def waitTd : ThreadStat := 1

def runningTd : ThreadStat := 2

structure MyMutex where
  held : Bool
  locks : Nat
  unlocks : Nat
  /-- How many of the unlocks met a mutex that nobody held, which is undefined. -/
  strayUnlocks : Nat
  deriving DecidableEq, Repr

namespace MyMutex

/-- Without a value where the caller waits for ever: it holds the mutex itself. -/
def lock (mutex : MyMutex) : Option MyMutex :=
  if mutex.held then none else some { mutex with held := true, locks := mutex.locks + 1 }

def unlock (mutex : MyMutex) : MyMutex :=
  if mutex.held then { mutex with held := false, unlocks := mutex.unlocks + 1 }
  else { mutex with unlocks := mutex.unlocks + 1, strayUnlocks := mutex.strayUnlocks + 1 }

end MyMutex

structure PoolThread where
  tid : Nat
  stat : ThreadStat
  deriving DecidableEq, Repr

structure Cleared where
  threadList : List PoolThread
  mutex : MyMutex
  cnt : Nat
  deriving DecidableEq, Repr

def clearFrom (mutex : MyMutex) (cnt : Nat) : List PoolThread → Cleared
  | [] => ⟨[], mutex, cnt⟩
  | it :: rest =>
      let cleared := clearFrom mutex.unlock (cnt + 1) rest
      if it.stat = killedTd then cleared
      else { cleared with threadList := it :: cleared.threadList }

def clearTrash (threadList : List PoolThread) (mutex : MyMutex) : Option Cleared :=
  mutex.lock.map fun locked => clearFrom locked 0 threadList

/-- The first unlock frees a mutex that is held, all others are stray. -/
theorem clearFrom_eq (mutex : MyMutex) (cnt : Nat) (threadList : List PoolThread) :
    clearFrom mutex cnt threadList =
      ⟨threadList.filter fun thread => thread.stat ≠ killedTd,
        ⟨mutex.held && threadList.isEmpty, mutex.locks, mutex.unlocks + threadList.length,
          mutex.strayUnlocks + (threadList.length - mutex.held.toNat)⟩,
        cnt + threadList.length⟩ := by
  induction threadList generalizing mutex cnt with
  | nil => simp [clearFrom]
  | cons it rest ih =>
      have unlocked : mutex.unlock = ⟨false, mutex.locks, mutex.unlocks + 1,
          mutex.strayUnlocks + (1 - mutex.held.toNat)⟩ := by
        cases held : mutex.held <;> simp [MyMutex.unlock, held]
      have stray : mutex.strayUnlocks + (1 - mutex.held.toNat) + rest.length =
          mutex.strayUnlocks + (rest.length + 1 - mutex.held.toNat) := by
        cases mutex.held
        · simp only [Bool.toNat_false]
          omega
        · simp only [Bool.toNat_true]
          omega
      have unlocks : mutex.unlocks + 1 + rest.length = mutex.unlocks + (rest.length + 1) := by omega
      have counted : cnt + 1 + rest.length = cnt + (rest.length + 1) := by omega
      simp only [clearFrom, ih, unlocked, Bool.false_and, Bool.toNat_false, Nat.sub_zero, stray,
        unlocks, counted, List.length_cons, List.isEmpty_cons, Bool.and_false]
      by_cases killed : it.stat = killedTd
      · simp [killed]
      · simp [killed]

/-- One lock and one unlock that frees the mutex; the workers that are not killed stay as they are,
and the count is that of the others. -/
structure Balanced (threadList : List PoolThread) (mutex : MyMutex) (cleared : Cleared) : Prop where
  locks : cleared.mutex.locks = mutex.locks + 1
  unlocks : cleared.mutex.unlocks = mutex.unlocks + 1
  noStray : cleared.mutex.strayUnlocks = mutex.strayUnlocks
  free : cleared.mutex.held = false
  kept : cleared.threadList = threadList.filter fun thread => thread.stat ≠ killedTd
  cnt : cleared.cnt = threadList.countP fun thread => thread.stat = killedTd

theorem clearTrash_free {mutex : MyMutex} (free : mutex.held = false)
    (threadList : List PoolThread) :
    clearTrash threadList mutex =
      some ⟨threadList.filter fun thread => thread.stat ≠ killedTd,
        ⟨threadList.isEmpty, mutex.locks + 1, mutex.unlocks + threadList.length,
          mutex.strayUnlocks + (threadList.length - 1)⟩, threadList.length⟩ := by
  simp [clearTrash, MyMutex.lock, free, clearFrom_eq]

theorem clearTrash_keeps {mutex : MyMutex} {threadList : List PoolThread} {cleared : Cleared}
    (returned : clearTrash threadList mutex = some cleared) :
    cleared.threadList = threadList.filter fun thread => thread.stat ≠ killedTd := by
  obtain ⟨locked, -, rfl⟩ := Option.map_eq_some_iff.mp returned
  rw [clearFrom_eq]

theorem clearTrash_twice {mutex : MyMutex} (free : mutex.held = false)
    (threadList : List PoolThread) :
    ∃ cleared, clearTrash [] mutex = some cleared ∧ clearTrash threadList cleared.mutex = none := by
  refine ⟨_, clearTrash_free free [], ?_⟩
  simp [clearTrash, MyMutex.lock]

theorem clearTrash_balanced_iff (threadList : List PoolThread) (mutex : MyMutex)
    (free : mutex.held = false) :
    (∃ cleared, clearTrash threadList mutex = some cleared ∧
        Balanced threadList mutex cleared) ↔
      ∃ thread, threadList = [thread] ∧ thread.stat = killedTd := by
  rw [clearTrash_free free]
  constructor
  · rintro ⟨cleared, returned, balanced⟩
    cases returned
    have single : threadList.length = 1 := by
      have unlocks := balanced.unlocks
      simp only at unlocks
      omega
    obtain ⟨thread, rfl⟩ := List.length_eq_one_iff.mp single
    refine ⟨thread, rfl, ?_⟩
    by_contra alive
    have counted := balanced.cnt
    simp [alive] at counted
  · rintro ⟨thread, rfl, killed⟩
    exact ⟨_, rfl, rfl, rfl, rfl, rfl, rfl, by simp [killed]⟩

def freeMutex : MyMutex := ⟨false, 3, 3, 0⟩

theorem clearTrash_balanced_single :
    ∃ cleared, clearTrash [⟨7, 0⟩] freeMutex = some cleared ∧
      Balanced [⟨7, 0⟩] freeMutex cleared :=
  (clearTrash_balanced_iff [⟨7, 0⟩] freeMutex rfl).mpr ⟨⟨7, 0⟩, rfl, rfl⟩

theorem clearTrash_unbalanced :
    ¬∀ (threadList : List PoolThread) (mutex : MyMutex), mutex.held = false →
      ∃ cleared, clearTrash threadList mutex = some cleared ∧
        Balanced threadList mutex cleared := by
  intro balances
  obtain ⟨cleared, returned, balanced⟩ := balances [⟨7, 0⟩, ⟨8, 1⟩, ⟨9, 2⟩] freeMutex rfl
  cases returned
  have noStray := balanced.noStray
  revert noStray
  decide

end LearnInternet.Chat
