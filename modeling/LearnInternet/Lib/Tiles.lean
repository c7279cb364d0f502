import LearnInternet.Lib.Spans

/-!
Spans that follow each other without a gap: what a window of unanswered numbers is, before and after
its front is dropped.
-/

namespace Spans

/-- Each span begins where the one before it stops, from `first` to `stop`. -/
def Tiles : Nat → List Span → Nat → Prop
  | first, [], stop => first = stop
  | first, span :: rest, stop => span.first = first ∧ span.first ≤ span.stop ∧ Tiles span.stop rest stop

variable {first stop : Nat} {span : Span} {spans : List Span}

theorem Tiles.le (tiles : Tiles first spans stop) : first ≤ stop := by
  induction spans generalizing first with
  | nil => exact Nat.le_of_eq tiles
  | cons span rest ih =>
      obtain ⟨begins, order, later⟩ := tiles
      have ends := ih later
      omega

theorem Tiles.concat (tiles : Tiles first spans stop) (span : Span) (begins : span.first = stop)
    (order : span.first ≤ span.stop) : Tiles first (spans ++ [span]) span.stop := by
  induction spans generalizing first with
  | nil => exact ⟨begins.trans (Eq.symm tiles), order, rfl⟩
  | cons head rest ih => exact ⟨tiles.1, tiles.2.1, ih tiles.2.2⟩

theorem Tiles.between (tiles : Tiles first spans stop) (member : span ∈ spans) :
    first ≤ span.first ∧ span.first ≤ span.stop ∧ span.stop ≤ stop := by
  induction spans generalizing first with
  | nil => cases member
  | cons head rest ih =>
      obtain ⟨begins, order, later⟩ := tiles
      have ends := later.le
      rcases List.mem_cons.mp member with rfl | inside
      · omega
      · have between := ih later inside
        omega

theorem Tiles.covered_eq (tiles : Tiles first spans stop) :
    covered spans = Finset.Ico first stop := by
  induction spans generalizing first with
  | nil =>
      have same : first = stop := tiles
      simp [same]
  | cons head rest ih =>
      obtain ⟨begins, order, later⟩ := tiles
      have ends := later.le
      rw [covered, ih later, Span.positions, begins]
      exact Finset.Ico_union_Ico_eq_Ico (begins ▸ order) ends

theorem Tiles.dropBefore (tiles : Tiles first spans stop) (mark : Nat) (below : first ≤ mark) :
    (∃ begins ≤ mark,
      Tiles begins (spans.dropWhile fun span => decide (span.stop ≤ mark)) stop) ∧
      ∀ span ∈ spans.dropWhile fun span => decide (span.stop ≤ mark), mark < span.stop := by
  induction spans generalizing first with
  | nil => exact ⟨⟨first, below, tiles⟩, by simp⟩
  | cons head rest ih =>
      by_cases gone : head.stop ≤ mark
      · simp only [List.dropWhile_cons, gone, decide_true, if_true]
        exact ih tiles.2.2 gone
      · simp only [List.dropWhile_cons, gone, decide_false, Bool.false_eq_true, if_false]
        refine ⟨⟨first, below, tiles⟩, ?_⟩
        intro span member
        have behind := Nat.lt_of_not_le gone
        rcases List.mem_cons.mp member with rfl | inside
        · exact behind
        · have between := tiles.2.2.between inside
          omega

end Spans
