import Mathlib.Data.List.Perm.Subperm
import Mathlib.Tactic.Common

/-!
Descriptor tables of processes: open files under numbers, and the lowest number that is free.
-/

namespace Descriptors

variable {δ : Type}

abbrev Table (δ : Type) := List (Nat × δ)

def numbers (table : Table δ) : List Nat := table.map Prod.fst

/-- A number that was not found below is never free: there are more candidates than entries. -/
def lowestFree (table : Table δ) : Nat :=
  ((List.range (table.length + 1)).find? fun number => decide (number ∉ numbers table)).getD 0

def close (number : Nat) (table : Table δ) : Table δ :=
  table.filter fun entry => decide (entry.1 ≠ number)

theorem exists_free (table : Table δ) :
    ∃ number ∈ List.range (table.length + 1), number ∉ numbers table := by
  by_contra full
  push Not at full
  have contained : List.range (table.length + 1) ⊆ numbers table := full
  have count := (List.subperm_of_subset List.nodup_range contained).length_le
  rw [List.length_range, numbers, List.length_map] at count
  omega

theorem lowestFree_spec (table : Table δ) :
    lowestFree table ∉ numbers table ∧ lowestFree table ≤ table.length ∧
      ∀ number < lowestFree table, number ∈ numbers table := by
  cases found : (List.range (table.length + 1)).find? fun number =>
      decide (number ∉ numbers table) with
  | none =>
      obtain ⟨number, inside, free⟩ := exists_free table
      have taken := List.find?_eq_none.mp found number inside
      simp [free] at taken
  | some number =>
      have same : lowestFree table = number := by
        rw [lowestFree, found]
        rfl
      rw [same]
      obtain ⟨free, before, after, split, earlier⟩ := List.find?_eq_some_iff_append.mp found
      have inside : number ∈ List.range (table.length + 1) := by simp [split]
      rw [List.mem_range] at inside
      refine ⟨by simpa using free, by omega, ?_⟩
      intro lower below
      have member : lower ∈ List.range (table.length + 1) := List.mem_range.mpr (by omega)
      have sorted : (before ++ number :: after).Pairwise (· < ·) := by
        rw [← split]
        exact List.pairwise_lt_range
      rw [split] at member
      rcases List.mem_append.mp member with ahead | behind
      · simpa using earlier lower ahead
      · rcases List.mem_cons.mp behind with rfl | behind
        · exact absurd below (Nat.lt_irrefl _)
        · have order := (List.pairwise_cons.mp (List.pairwise_append.mp sorted).2.1).1 lower behind
          omega

theorem close_eq_self {table : Table δ} {number : Nat} (free : number ∉ numbers table) :
    close number table = table := by
  rw [close, List.filter_eq_self]
  intro entry member
  rw [decide_eq_true_eq]
  intro same
  exact free (List.mem_map.mpr ⟨entry, member, same⟩)

theorem close_cons_same {table : Table δ} {number : Nat} (file : δ)
    (free : number ∉ numbers table) : close number ((number, file) :: table) = table := by
  have rest := close_eq_self free
  rw [close, List.filter_cons_of_neg (by simp)]
  exact rest

theorem close_cons_ne {number other : Nat} (file : δ) (table : Table δ) (different : other ≠ number) :
    close number ((other, file) :: table) = (other, file) :: close number table := by
  rw [close, List.filter_cons_of_pos (by simpa using different)]
  rfl

theorem numbers_append (table later : Table δ) :
    numbers (table ++ later) = numbers table ++ numbers later := List.map_append

theorem close_append (number : Nat) (table later : Table δ) :
    close number (table ++ later) = close number table ++ close number later :=
  List.filter_append _ _

end Descriptors
