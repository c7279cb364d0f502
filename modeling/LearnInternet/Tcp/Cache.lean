import LearnInternet.Tcp.Reassembler

/-!
`cache_in` as an operation on sets of positions: whichever of its six cases the loop meets, the
cache stays an ordered list of slices of the stream, covers what it covered and the new string,
and `size_` follows.
-/

namespace LearnInternet.Tcp

open Spans

structure Entry.SliceOf (stream : Bytes) (entry : Entry) : Prop where
  order : entry.first ≤ entry.stop
  inside : entry.stop ≤ stream.length
  data_eq : entry.data = slice stream entry.first entry.stop

theorem Entry.SliceOf.length_eq {stream : Bytes} {entry : Entry} (slices : entry.SliceOf stream) :
    entry.data.length = entry.stop - entry.first := by
  rw [slices.data_eq, length_slice slices.inside]

theorem Entry.SliceOf.join {stream : Bytes} {left right : Entry} (leftSlices : left.SliceOf stream)
    (rightSlices : right.SliceOf stream) (overlap : right.first ≤ left.stop) (ends : left.stop ≤ right.stop) :
    substr right.data (left.stop - right.first) = .ok (slice stream left.stop right.stop) ∧
      Entry.SliceOf stream
        ⟨left.first, right.stop, left.data ++ slice stream left.stop right.stop⟩ := by
  have inside : left.stop - right.first ≤ right.data.length := by
    rw [rightSlices.length_eq]
    omega
  have order := leftSlices.order
  constructor
  · rw [substr, if_pos inside, rightSlices.data_eq, drop_slice, Nat.add_sub_cancel' overlap]
  · refine ⟨by simp only; omega, rightSlices.inside, ?_⟩
    rw [leftSlices.data_eq, slice_append_slice stream order ends]

theorem join_positions {left right : Entry} (starts : left.first ≤ right.first) (overlap : right.first ≤ left.stop)
    (ends : left.stop ≤ right.stop) :
    left.span.positions ∪ right.span.positions = (Span.mk left.first right.stop).positions := by
  ext position
  simp only [Finset.mem_union, mem_positions, Entry.span]
  omega

/-- The cache holds slices of the stream, in order, between `edge` and `limit`. -/
structure Stored (stream : Bytes) (edge limit : Nat) (cache : List Entry) : Prop where
  slices : ∀ entry ∈ cache, entry.SliceOf stream
  ordered : Ordered (cache.map Entry.span)
  ahead : ∀ entry ∈ cache, edge ≤ entry.first
  within : ∀ entry ∈ cache, entry.stop ≤ limit

theorem before_span {left right : Entry} :
    Before left.span right.span ↔ left.first < right.first ∧ left.stop ≤ right.first := Iff.rfl

theorem ordered_between (passed rest : List Entry) (entry : Entry) :
    Ordered ((passed ++ entry :: rest).map Entry.span) ↔
      Ordered ((passed ++ rest).map Entry.span) ∧
        (∀ other ∈ passed, Before other.span entry.span) ∧
        ∀ other ∈ rest, Before entry.span other.span := by
  simp only [Ordered, List.map_append, List.map_cons, List.pairwise_append, List.pairwise_cons,
    List.mem_cons, List.mem_map, forall_exists_index, and_imp, forall_apply_eq_imp_iff₂]
  constructor
  · rintro ⟨passedOrdered, ⟨behind, restOrdered⟩, across⟩
    exact ⟨⟨passedOrdered, restOrdered, fun left member right inside =>
        across left member _ (Or.inr ⟨right, inside, rfl⟩)⟩,
      fun other member => across other member _ (Or.inl rfl), behind⟩
  · rintro ⟨⟨passedOrdered, restOrdered, across⟩, ahead, behind⟩
    refine ⟨passedOrdered, ⟨behind, restOrdered⟩, ?_⟩
    rintro left member span (rfl | ⟨right, inside, rfl⟩)
    · exact ahead left member
    · exact across left member right inside

theorem insertEntry_between {entry : Entry} {passed rest : List Entry}
    (ahead : ∀ other ∈ passed, other.first < entry.first)
    (behind : ∀ other ∈ rest, entry.first < other.first) :
    insertEntry entry (passed ++ rest) = passed ++ entry :: rest := by
  induction passed with
  | nil =>
      cases rest with
      | nil => rfl
      | cons it rest => simp [insertEntry, behind it (by simp)]
  | cons it passed ih =>
      have lower := ahead it (by simp)
      rw [List.cons_append, insertEntry, if_neg (by omega), if_pos lower,
        ih fun other member => ahead other (by simp [member])]
      rfl

structure Absorbs (stream : Bytes) (edge limit : Nat) (cache : List Entry) (size : Int)
    (span : Span) (cached : Reassembler.CachedIn) : Prop where
  stored : Stored stream edge limit cached.cache
  covers : covered (cached.cache.map Entry.span) = covered (cache.map Entry.span) ∪ span.positions
  size_eq : cached.size - total (cached.cache.map Entry.span) =
    size - total (cache.map Entry.span)
  kept : cached.result = false → ∀ entry ∈ cached.cache, entry ∈ cache

section Loop

variable {stream : Bytes} {edge limit : Nat} {passed rest : List Entry} {it : Entry}

theorem covered_between :
    covered ((passed ++ it :: rest).map Entry.span) =
      covered ((passed ++ rest).map Entry.span) ∪ it.span.positions := by
  rw [List.map_append, List.map_append, covered_append, covered_append, List.map_cons, covered]
  ac_rfl

theorem total_between :
    total ((passed ++ it :: rest).map Entry.span) =
      total ((passed ++ rest).map Entry.span) + (it.stop - it.first) := by
  simp only [List.map_append, List.map_cons, total_append, total_cons, Entry.span]
  omega

theorem Stored.erase (stored : Stored stream edge limit (passed ++ it :: rest)) :
    Stored stream edge limit (passed ++ rest) := by
  have fewer : ∀ entry ∈ passed ++ rest, entry ∈ passed ++ it :: rest := by
    intro entry member
    rcases List.mem_append.mp member with left | right
    · exact List.mem_append_left _ left
    · exact List.mem_append_right _ (List.mem_cons_of_mem _ right)
  exact ⟨fun entry member => stored.slices entry (fewer entry member),
    ((ordered_between passed rest it).mp stored.ordered).1,
    fun entry member => stored.ahead entry (fewer entry member),
    fun entry member => stored.within entry (fewer entry member)⟩

theorem Stored.insert {entry : Entry} (stored : Stored stream edge limit (passed ++ rest))
    (slices : entry.SliceOf stream) (edge_le : edge ≤ entry.first) (le_limit : entry.stop ≤ limit)
    (ahead : ∀ other ∈ passed, Before other.span entry.span)
    (behind : ∀ other ∈ rest, Before entry.span other.span) :
    Stored stream edge limit (passed ++ entry :: rest) := by
  have cases {motive : Entry → Prop} (here : motive entry)
      (there : ∀ other ∈ passed ++ rest, motive other) :
      ∀ other ∈ passed ++ entry :: rest, motive other := by
    intro other member
    simp only [List.mem_append, List.mem_cons] at member there
    rcases member with left | rfl | right
    · exact there other (Or.inl left)
    · exact here
    · exact there other (Or.inr right)
  exact ⟨cases slices stored.slices, (ordered_between passed rest entry).mpr ⟨stored.ordered, ahead, behind⟩,
    cases edge_le stored.ahead, cases le_limit stored.within⟩

theorem settle_absorbs {entry : Entry} (stored : Stored stream edge limit (passed ++ rest))
    (slices : entry.SliceOf stream) (edge_le : edge ≤ entry.first) (le_limit : entry.stop ≤ limit)
    (ahead : ∀ other ∈ passed, Before other.span entry.span)
    (behind : ∀ other ∈ rest, Before entry.span other.span) (size : Int) :
    Absorbs stream edge limit (passed ++ rest) size entry.span
      (Reassembler.settle (passed ++ rest) entry.first entry.stop entry.data size) := by
  have inserted : insertEntry entry (passed ++ rest) = passed ++ entry :: rest :=
    insertEntry_between (fun other member => (ahead other member).1)
      (fun other member => (behind other member).1)
  refine ⟨?_, ?_, ?_, by simp [Reassembler.settle]⟩
  · rw [Reassembler.settle, inserted]
    exact stored.insert slices edge_le le_limit ahead behind
  · rw [Reassembler.settle, inserted, covered_between]
  · have order := slices.order
    simp only [Reassembler.settle, inserted, total_between, slices.length_eq]
    omega

theorem Absorbs.of_erased {size : Int} {span merged : Span} {cached : Reassembler.CachedIn}
    (absorbs : Absorbs stream edge limit (passed ++ rest) (size - it.data.length) merged cached)
    (slices : it.SliceOf stream)
    (same : it.span.positions ∪ span.positions = merged.positions) :
    Absorbs stream edge limit (passed ++ it :: rest) size span cached := by
  refine ⟨absorbs.stored, ?_, ?_, ?_⟩
  · rw [absorbs.covers, covered_between, Finset.union_assoc, same]
  · have order := slices.order
    have sizes := absorbs.size_eq
    rw [slices.length_eq] at sizes
    rw [sizes, total_between]
    omega
  · intro refused entry member
    have old := absorbs.kept refused entry member
    rcases List.mem_append.mp old with left | right
    · exact List.mem_append_left _ left
    · exact List.mem_append_right _ (List.mem_cons_of_mem _ right)

/-- The loop, by the six ways in which the new string can lie to the entry it meets. -/
theorem cacheInFrom_absorbs (rest passed : List Entry) (entry : Entry) (size : Int)
    (slices : entry.SliceOf stream) (edge_le : edge ≤ entry.first) (le_limit : entry.stop ≤ limit)
    (stored : Stored stream edge limit (passed ++ rest))
    (ahead : ∀ other ∈ passed, Before other.span entry.span) :
    ∃ cached, Reassembler.cacheInFrom passed entry.first entry.stop entry.data size rest =
        .ok cached ∧
      Absorbs stream edge limit (passed ++ rest) size entry.span cached := by
  induction rest generalizing passed entry size with
  | nil =>
      rw [List.append_nil] at stored ⊢
      have whole : Stored stream edge limit (passed ++ []) := by simpa using stored
      have settled := settle_absorbs whole slices edge_le le_limit ahead (by simp) size
      rw [List.append_nil] at settled
      exact ⟨_, rfl, settled⟩
  | cons it rest ih =>
      have itSlices := stored.slices it (by simp)
      have itOrder := itSlices.order
      have order := slices.order
      have itLength := itSlices.length_eq
      have length := slices.length_eq
      obtain ⟨-, passedBefore, restBehind⟩ := (ordered_between passed rest it).mp stored.ordered
      simp only [before_span] at passedBefore restBehind ahead
      simp only [Reassembler.cacheInFrom]
      by_cases contained : it.first ≤ entry.first ∧ entry.stop ≤ it.stop
      · rw [if_pos contained]
        refine ⟨_, rfl, stored, ?_, rfl, fun _ _ member => member⟩
        rw [covered_between, Finset.union_assoc]
        congr 1
        exact (Finset.union_eq_left.mpr
          (Finset.Ico_subset_Ico contained.1 contained.2)).symm
      rw [if_neg contained]
      by_cases contains : entry.first ≤ it.first ∧ it.stop ≤ entry.stop
      · rw [if_pos contains]
        obtain ⟨cached, result, absorbs⟩ := ih passed entry (size - it.data.length) slices edge_le
          le_limit stored.erase ahead
        exact ⟨cached, result, absorbs.of_erased itSlices
          (Finset.union_eq_right.mpr (Finset.Ico_subset_Ico contains.1 contains.2))⟩
      rw [if_neg contains]
      by_cases right : entry.first < it.first ∧ it.first < entry.stop ∧ entry.stop < it.stop
      · rw [if_pos right]
        obtain ⟨cut, joined⟩ := slices.join itSlices right.2.1.le right.2.2.le
        have merged := settle_absorbs stored.erase joined edge_le (stored.within it (by simp)) ahead
          (fun other member =>
            ⟨right.1.trans (restBehind other member).1, (restBehind other member).2⟩)
          (size - it.data.length)
        have stop_eq : entry.first + (entry.data ++ slice stream entry.stop it.stop).length =
            it.stop := by
          rw [joined.length_eq]
          simp only
          omega
        simp only [cut, stop_eq]
        refine ⟨_, rfl, merged.of_erased itSlices ?_⟩
        rw [Finset.union_comm]
        exact join_positions right.1.le right.2.1.le right.2.2.le
      rw [if_neg right]
      by_cases left : it.first < entry.first ∧ entry.first < it.stop ∧ it.stop < entry.stop
      · rw [if_pos left]
        obtain ⟨cut, joined⟩ := itSlices.join slices left.2.1.le left.2.2.le
        simp only [cut]
        obtain ⟨cached, result, absorbs⟩ := ih passed _ (size - it.data.length) joined
          (stored.ahead it (by simp)) le_limit stored.erase passedBefore
        exact ⟨cached, result, absorbs.of_erased itSlices
          (join_positions left.1.le left.2.1.le left.2.2.le)⟩
      rw [if_neg left]
      by_cases apart : entry.stop ≤ it.first
      · rw [if_pos apart]
        refine ⟨_, rfl, settle_absorbs stored slices edge_le le_limit ahead ?_ size⟩
        simp only [before_span, List.mem_cons, forall_eq_or_imp]
        refine ⟨⟨by omega, apart⟩, fun other member => ?_⟩
        have behind := restBehind other member
        omega
      · rw [if_neg apart]
        have moved := ih (passed ++ [it]) entry size slices edge_le le_limit (by simpa using stored)
        simp only [List.append_assoc, List.singleton_append] at moved
        refine moved fun other member => ?_
        rw [before_span]
        rcases List.mem_append.mp member with old | new
        · exact ahead other old
        · obtain rfl := List.mem_singleton.mp new
          omega

end Loop

end LearnInternet.Tcp
