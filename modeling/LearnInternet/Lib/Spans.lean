import Mathlib.Algebra.GroupWithZero.Nat
import Mathlib.Algebra.BigOperators.Group.List.Basic
import Mathlib.Order.Interval.Finset.Nat
import Mathlib.Tactic.Common

/-!
Half-open spans of positions in a text: the positions a list of spans covers, counted without a
sum over positions when the spans are ordered, and the slices of a text the spans stand for.
-/

namespace Spans

structure Span where
  first : Nat
  stop : Nat
  deriving DecidableEq, Repr

def Span.positions (span : Span) : Finset Nat := Finset.Ico span.first span.stop

def covered : List Span → Finset Nat
  | [] => ∅
  | span :: rest => span.positions ∪ covered rest

/-- Ordered by position and disjoint; of two spans that begin together neither is before the
other. -/
def Before (left right : Span) : Prop := left.first < right.first ∧ left.stop ≤ right.first

def Ordered (spans : List Span) : Prop := spans.Pairwise Before

def total (spans : List Span) : Nat := (spans.map fun span => span.stop - span.first).sum

@[simp] theorem mem_positions {span : Span} {position : Nat} :
    position ∈ span.positions ↔ span.first ≤ position ∧ position < span.stop :=
  Finset.mem_Ico

theorem mem_covered {spans : List Span} {position : Nat} :
    position ∈ covered spans ↔
      ∃ span ∈ spans, span.first ≤ position ∧ position < span.stop := by
  induction spans with
  | nil => simp [covered]
  | cons span rest ih => simp [covered, ih]

@[simp] theorem covered_nil : covered [] = ∅ := rfl

@[simp] theorem covered_append (left right : List Span) :
    covered (left ++ right) = covered left ∪ covered right := by
  ext position
  simp only [mem_covered, List.mem_append, Finset.mem_union]
  constructor
  · rintro ⟨span, member | member, inside⟩
    · exact Or.inl ⟨span, member, inside⟩
    · exact Or.inr ⟨span, member, inside⟩
  · rintro (⟨span, member, inside⟩ | ⟨span, member, inside⟩)
    · exact ⟨span, Or.inl member, inside⟩
    · exact ⟨span, Or.inr member, inside⟩

theorem covered_perm {left right : List Span} (same : left.Perm right) :
    covered left = covered right := by
  ext position
  simp only [mem_covered, same.mem_iff]

@[simp] theorem total_nil : total [] = 0 := rfl

@[simp] theorem total_cons (span : Span) (rest : List Span) :
    total (span :: rest) = span.stop - span.first + total rest := by
  simp [total]

@[simp] theorem total_append (left right : List Span) :
    total (left ++ right) = total left + total right := by
  simp [total]

theorem total_eq_zero {spans : List Span} (empty : ∀ span ∈ spans, span.stop ≤ span.first) :
    total spans = 0 := by
  induction spans with
  | nil => rfl
  | cons span rest ih =>
      have here := empty span (by simp)
      rw [total_cons, ih fun other member => empty other (by simp [member])]
      omega

theorem card_covered {spans : List Span} (ordered : Ordered spans) :
    (covered spans).card = total spans := by
  induction spans with
  | nil => rfl
  | cons span rest ih =>
      obtain ⟨ahead, restOrdered⟩ := List.pairwise_cons.mp ordered
      have apart : Disjoint span.positions (covered rest) := by
        rw [Finset.disjoint_left]
        intro position inside outside
        obtain ⟨other, member, range⟩ := mem_covered.mp outside
        have before := ahead other member
        rw [mem_positions] at inside
        exact absurd (before.2.trans range.1) (by omega)
      rw [covered, Finset.card_union_of_disjoint apart, ih restOrdered, total_cons]
      simp [Span.positions]

section Edge

variable {edge : Nat} {spans : List Span}

theorem range_subset_iff (uncovered : edge ∉ covered spans) (bound : Nat) :
    Finset.range bound ⊆ Finset.range edge ∪ covered spans ↔ bound ≤ edge := by
  constructor
  · intro subset
    by_contra beyond
    have member := subset (Finset.mem_range.mpr (Nat.lt_of_not_le beyond))
    rw [Finset.mem_union, Finset.mem_range] at member
    rcases member with below | inside
    · omega
    · exact uncovered inside
  · intro below
    exact (Finset.range_subset_range.mpr below).trans Finset.subset_union_left

/-- How far a set reaches from zero without a gap is one number. -/
theorem eq_of_range_subset_iff {known : Finset Nat} {left right : Nat}
    (reachesLeft : ∀ count, Finset.range count ⊆ known ↔ count ≤ left)
    (reachesRight : ∀ count, Finset.range count ⊆ known ↔ count ≤ right) : left = right := by
  apply Nat.le_antisymm
  · rw [← reachesRight, reachesLeft]
  · rw [← reachesLeft, reachesRight]

theorem card_range_union (ordered : Ordered spans) (ahead : ∀ span ∈ spans, edge ≤ span.first) :
    (Finset.range edge ∪ covered spans).card = edge + total spans := by
  have apart : Disjoint (Finset.range edge) (covered spans) := by
    rw [Finset.disjoint_left]
    intro position below inside
    obtain ⟨span, member, range⟩ := mem_covered.mp inside
    have bound := ahead span member
    rw [Finset.mem_range] at below
    omega
  rw [Finset.card_union_of_disjoint apart, card_covered ordered, Finset.card_range]

theorem range_union_covered_cons {stop : Nat} (forward : edge ≤ stop) :
    Finset.range edge ∪ covered (⟨edge, stop⟩ :: spans) = Finset.range stop ∪ covered spans := by
  ext position
  simp only [covered, Finset.mem_union, Finset.mem_range, mem_positions]
  constructor
  · rintro (below | inside | elsewhere)
    · exact Or.inl (by omega)
    · exact Or.inl inside.2
    · exact Or.inr elsewhere
  · rintro (below | elsewhere)
    · by_cases early : position < edge
      · exact Or.inl early
      · exact Or.inr (Or.inl ⟨by omega, below⟩)
    · exact Or.inr (Or.inr elsewhere)

end Edge

section Slices

variable {α : Type}

def slice (text : List α) (first stop : Nat) : List α := (text.take stop).drop first

theorem length_slice {text : List α} {first stop : Nat} (inside : stop ≤ text.length) :
    (slice text first stop).length = stop - first := by
  simp only [slice, List.length_drop, List.length_take]
  omega

@[simp] theorem slice_self (text : List α) (first : Nat) : slice text first first = [] := by
  simp [slice]

theorem slice_zero (text : List α) (stop : Nat) : slice text 0 stop = text.take stop := rfl

theorem drop_slice (text : List α) (first stop count : Nat) :
    (slice text first stop).drop count = slice text (first + count) stop := by
  simp [slice]

theorem take_slice (text : List α) {first stop middle : Nat} (before : middle ≤ stop) :
    (slice text first stop).take (middle - first) = slice text first middle := by
  rw [slice, slice, ← List.drop_take, List.take_take, min_eq_left before]

theorem take_slice_count (text : List α) (first stop count : Nat) :
    (slice text first stop).take count = slice text first (min stop (first + count)) := by
  rw [slice, slice, List.take_drop, List.take_take, min_comm]

theorem slice_append_slice (text : List α) {first middle stop : Nat} (left : first ≤ middle)
    (right : middle ≤ stop) :
    slice text first middle ++ slice text middle stop = slice text first stop := by
  have cut := List.take_append_drop (middle - first) (slice text first stop)
  rw [take_slice text right, drop_slice, Nat.add_sub_cancel' left] at cut
  exact cut

theorem take_append_slice (text : List α) {middle stop : Nat} (order : middle ≤ stop) :
    text.take middle ++ slice text middle stop = text.take stop := by
  have joined := slice_append_slice text (Nat.zero_le middle) order
  rwa [slice_zero, slice_zero] at joined

end Slices

end Spans
