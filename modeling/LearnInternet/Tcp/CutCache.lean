import LearnInternet.Tcp.Cache
import LearnInternet.Tcp.ReassemblerV1

/-!
`cut_cache_in` as an operation on sets of positions. Strings without bytes can stay in the map; they
are never inside another string, and one at the first index of a new string is overwritten by it.
-/

namespace LearnInternet.Tcp

open Spans

def MapEntry.entry (it : MapEntry) : Entry := ⟨it.first, it.first + it.second.length, it.second⟩

namespace ReassemblerV1

def entries (cach : List MapEntry) : List Entry := cach.map MapEntry.entry

def spans (cach : List MapEntry) : List Span := (entries cach).map Entry.span

@[simp] theorem entries_append (left right : List MapEntry) :
    entries (left ++ right) = entries left ++ entries right :=
  List.map_append

@[simp] theorem entries_cons (it : MapEntry) (rest : List MapEntry) :
    entries (it :: rest) = it.entry :: entries rest := rfl

theorem mem_entries {cach : List MapEntry} {entry : Entry} :
    entry ∈ entries cach ↔ ∃ it ∈ cach, it.entry = entry :=
  List.mem_map

structure Takes (stream : Bytes) (edge limit : Nat) (cach : List MapEntry) (span : Span)
    (cut : CutIn) : Prop where
  stored : Stored stream edge limit (entries cut.cach)
  covers : covered (spans cut.cach) = covered (spans cach) ∪ span.positions
  size_eq : cut.size = total (spans cut.cach)

theorem assign_between {first : Nat} {second : Bytes} {left same right : List MapEntry}
    (ahead : ∀ other ∈ left, other.first < first)
    (overwritten : same = [] ∨ same = [⟨first, []⟩])
    (behind : ∀ other ∈ right, first < other.first) :
    assign first second (left ++ same ++ right) = left ++ ⟨first, second⟩ :: right := by
  induction left with
  | nil =>
      rcases overwritten with rfl | rfl
      · cases right with
        | nil => rfl
        | cons it right => simp [assign, behind it (by simp)]
      · simp [assign]
  | cons it left ih =>
      have lower := ahead it (by simp)
      simp only [List.cons_append, assign]
      rw [if_neg (by omega), if_pos lower, ih fun other member => ahead other (by simp [member])]

section Loop

variable {stream : Bytes} {edge limit : Nat} {left same right rest : List MapEntry}
  {it : MapEntry} {firstIndex : Nat} {data : Bytes}

theorem covered_entry :
    covered (spans (left ++ it :: rest)) =
      covered (spans (left ++ rest)) ∪ it.entry.span.positions := by
  simp only [spans, entries_append, entries_cons]
  exact covered_between

theorem total_entry :
    total (spans (left ++ it :: rest)) = total (spans (left ++ rest)) + it.second.length := by
  simp only [spans, entries_append, entries_cons, total_between, MapEntry.entry]
  omega

theorem stored_entry (stored : Stored stream edge limit (entries (left ++ it :: rest))) :
    Stored stream edge limit (entries (left ++ rest)) := by
  simp only [entries_append, entries_cons] at stored ⊢
  exact stored.erase

theorem without_same (overwritten : same = [] ∨ same = [⟨firstIndex, []⟩])
    (stored : Stored stream edge limit (entries (left ++ same ++ right))) :
    Stored stream edge limit (entries (left ++ right)) ∧
      covered (spans (left ++ same ++ right)) = covered (spans (left ++ right)) ∧
      total (spans (left ++ same ++ right)) = total (spans (left ++ right)) := by
  rcases overwritten with rfl | rfl
  · rw [List.append_nil] at stored ⊢
    exact ⟨stored, rfl, rfl⟩
  · rw [List.append_assoc, List.singleton_append] at stored ⊢
    refine ⟨stored_entry stored, ?_, ?_⟩
    · rw [covered_entry]
      simp [MapEntry.entry, Entry.span, Span.positions]
    · rw [total_entry]
      rfl

theorem settle_takes (slices : (MapEntry.mk firstIndex data).entry.SliceOf stream)
    (edge_le : edge ≤ firstIndex) (le_limit : firstIndex + data.length ≤ limit)
    (stored : Stored stream edge limit (entries (left ++ same ++ right)))
    (ahead : ∀ other ∈ left, other.first < firstIndex ∧
      other.first + other.second.length ≤ firstIndex)
    (overwritten : same = [] ∨ same = [⟨firstIndex, []⟩])
    (behind : ∀ other ∈ right, firstIndex < other.first ∧
      firstIndex + data.length ≤ other.first) :
    Takes stream edge limit (left ++ same ++ right) (MapEntry.mk firstIndex data).entry.span
      (settle (left ++ same ++ right) firstIndex data (total (spans (left ++ same ++ right)))) := by
  obtain ⟨fewer, covers, totals⟩ := without_same overwritten stored
  have assigned : assign firstIndex data (left ++ same ++ right) =
      left ++ ⟨firstIndex, data⟩ :: right :=
    assign_between (fun other member => (ahead other member).1) overwritten
      (fun other member => (behind other member).1)
  refine ⟨?_, ?_, ?_⟩
  · simp only [settle, assigned, entries_append, entries_cons] at fewer ⊢
    refine fewer.insert slices edge_le le_limit ?_ ?_
    · intro other member
      obtain ⟨entry, inside, rfl⟩ := mem_entries.mp member
      exact ahead entry inside
    · intro other member
      obtain ⟨entry, inside, rfl⟩ := mem_entries.mp member
      exact behind entry inside
  · rw [settle, assigned, covered_entry, covers]
  · simp only [settle, assigned, total_entry, totals]

theorem Takes.of_erased {span merged : Span} {cut : CutIn}
    (takes : Takes stream edge limit (left ++ rest) merged cut)
    (covers : it.entry.span.positions ∪ span.positions = merged.positions) :
    Takes stream edge limit (left ++ it :: rest) span cut := by
  refine ⟨takes.stored, ?_, takes.size_eq⟩
  rw [takes.covers, covered_entry, Finset.union_assoc, covers]

theorem cutCacheInFrom_past {passed : List MapEntry} {size : Nat}
    (past : ∀ other ∈ rest, firstIndex + data.length < other.first) :
    cutCacheInFrom passed firstIndex data size rest =
      .ok (settle (passed ++ rest) firstIndex data size) := by
  induction rest generalizing passed with
  | nil => simp [cutCacheInFrom]
  | cons it rest ih =>
      have beyond := past it (by simp)
      rw [cutCacheInFrom, if_neg (by omega), if_neg (by omega), if_neg (by omega),
        if_neg (by omega), if_neg (by omega), if_neg (by omega),
        ih (fun other member => past other (by simp [member])), List.append_assoc,
        List.singleton_append]

theorem join_head (itSlices : it.entry.SliceOf stream)
    (slices : (MapEntry.mk firstIndex data).entry.SliceOf stream) (starts : it.first ≤ firstIndex)
    (overlap : firstIndex ≤ it.first + it.second.length) :
    (it.second.take (firstIndex - it.first) ++ data).length =
        firstIndex + data.length - it.first ∧
      (MapEntry.mk it.first (it.second.take (firstIndex - it.first) ++ data)).entry.SliceOf
        stream := by
  have inside := slices.inside
  have itData := itSlices.data_eq
  have dataEq := slices.data_eq
  simp only [MapEntry.entry] at inside itData dataEq
  have length : (it.second.take (firstIndex - it.first) ++ data).length =
      firstIndex + data.length - it.first := by
    rw [List.length_append, List.length_take]
    omega
  refine ⟨length, ?_, ?_, ?_⟩
  · simp only [MapEntry.entry]
    omega
  · simp only [MapEntry.entry, length]
    omega
  · simp only [MapEntry.entry, length]
    rw [itData, take_slice stream overlap, Nat.add_sub_cancel' (by omega)]
    refine (congrArg (_ ++ ·) dataEq).trans ?_
    exact slice_append_slice stream starts (Nat.le_add_right _ _)

theorem join_tail (itSlices : it.entry.SliceOf stream)
    (slices : (MapEntry.mk firstIndex data).entry.SliceOf stream)
    (overlap : it.first ≤ firstIndex + data.length)
    (ends : firstIndex + data.length ≤ it.first + it.second.length) :
    ∃ tail, substr it.second (it.second.length -
        (it.first + it.second.length - (firstIndex + data.length))) = .ok tail ∧
      firstIndex + (data ++ tail).length = it.first + it.second.length ∧
      (MapEntry.mk firstIndex (data ++ tail)).entry.SliceOf stream := by
  have inside := itSlices.inside
  have itData := itSlices.data_eq
  have dataEq := slices.data_eq
  simp only [MapEntry.entry] at inside itData dataEq
  have position : it.second.length - (it.first + it.second.length - (firstIndex + data.length)) =
      firstIndex + data.length - it.first := by omega
  have tail : it.second.drop (firstIndex + data.length - it.first) =
      slice stream (firstIndex + data.length) (it.first + it.second.length) := by
    conv_lhs => rw [itData]
    rw [drop_slice, Nat.add_sub_cancel' overlap]
  have length : firstIndex +
      (data ++ it.second.drop (firstIndex + data.length - it.first)).length =
        it.first + it.second.length := by
    rw [List.length_append, List.length_drop]
    omega
  refine ⟨it.second.drop (firstIndex + data.length - it.first), ?_, length, ?_, ?_, ?_⟩
  · rw [position, substr, if_pos (by omega)]
  · simp only [MapEntry.entry]
    omega
  · simp only [MapEntry.entry, length]
    exact inside
  · simp only [MapEntry.entry]
    rw [length, tail]
    refine (congrArg (· ++ _) dataEq).trans ?_
    exact slice_append_slice stream (Nat.le_add_right _ _) ends

/-- The loop, by the ways in which the new string can lie to the entry it meets. -/
theorem cutCacheInFrom_takes (rest left same : List MapEntry) (firstIndex : Nat) (data : Bytes)
    (slices : (MapEntry.mk firstIndex data).entry.SliceOf stream)
    (edge_le : edge ≤ firstIndex) (le_limit : firstIndex + data.length ≤ limit)
    (stored : Stored stream edge limit (entries (left ++ same ++ rest)))
    (ahead : ∀ other ∈ left, other.first < firstIndex ∧
      other.first + other.second.length ≤ firstIndex)
    (overwritten : same = [] ∨ same = [⟨firstIndex, []⟩]) :
    ∃ cut, cutCacheInFrom (left ++ same) firstIndex data
        (total (spans (left ++ same ++ rest))) rest = .ok cut ∧
      Takes stream edge limit (left ++ same ++ rest) (MapEntry.mk firstIndex data).entry.span
        cut := by
  induction rest generalizing left same firstIndex data with
  | nil =>
      rw [List.append_nil] at stored ⊢
      have whole : Stored stream edge limit (entries (left ++ same ++ [])) := by
        rw [List.append_nil]
        exact stored
      have settled := settle_takes slices edge_le le_limit whole ahead overwritten (by simp)
      rw [List.append_nil] at settled
      exact ⟨_, rfl, settled⟩
  | cons it rest ih =>
      have ordered := stored.ordered
      rw [entries_append, entries_cons, ordered_between] at ordered
      obtain ⟨-, passedBefore, restBehind⟩ := ordered
      have behind : ∀ other ∈ rest, it.first < other.first ∧
          it.first + it.second.length ≤ other.first := by
        intro other member
        exact restBehind other.entry (mem_entries.mpr ⟨other, member, rfl⟩)
      have before : ∀ other ∈ left ++ same, other.first < it.first ∧
          other.first + other.second.length ≤ it.first := by
        intro other member
        exact passedBefore other.entry (mem_entries.mpr ⟨other, member, rfl⟩)
      have alone : it.first ≤ firstIndex → same = [] := by
        intro starts
        rcases overwritten with none | one
        · exact none
        · have earlier := before ⟨firstIndex, []⟩ (by simp [one])
          simp only at earlier
          omega
      have itSlices : it.entry.SliceOf stream :=
        stored.slices it.entry (mem_entries.mpr ⟨it, by simp, rfl⟩)
      have erased := stored_entry stored
      have counted : countDown (total (spans (left ++ same ++ it :: rest))) it.second.length =
          .ok (total (spans (left ++ same ++ rest))) := by
        rw [countDown, total_entry, if_pos (by omega), Nat.add_sub_cancel]
      have passes : it.first < firstIndex → it.first + it.second.length ≤ firstIndex →
          ∀ other ∈ left ++ [it], other.first < firstIndex ∧
            other.first + other.second.length ≤ firstIndex := by
        intro starts stops other member
        rcases List.mem_append.mp member with old | new
        · exact ahead other old
        · rw [List.mem_singleton.mp new]
          exact ⟨starts, stops⟩
      have after : firstIndex < it.first → firstIndex + data.length ≤ it.first →
          ∀ other ∈ it :: rest, firstIndex < other.first ∧
            firstIndex + data.length ≤ other.first := by
        intro starts stops other member
        rcases List.mem_cons.mp member with rfl | later
        · exact ⟨starts, stops⟩
        · have beyond := behind other later
          omega
      rw [cutCacheInFrom]
      by_cases contained : it.first ≤ firstIndex ∧
          firstIndex + data.length ≤ it.first + it.second.length
      · rw [if_pos contained]
        refine ⟨_, rfl, stored, ?_, rfl⟩
        rw [covered_entry, Finset.union_assoc]
        congr 1
        exact (Finset.union_eq_left.mpr (Finset.Ico_subset_Ico contained.1 contained.2)).symm
      rw [if_neg contained]
      by_cases head : it.first ≤ firstIndex ∧ firstIndex < it.first + it.second.length ∧
          it.first + it.second.length ≤ firstIndex + data.length
      · rw [if_pos head, counted]
        obtain rfl := alone head.1
        obtain ⟨length, joined⟩ := join_head itSlices slices head.1 head.2.1.le
        rw [List.append_nil] at erased before stored ⊢
        obtain ⟨cut, result, takes⟩ := ih left [] it.first
          (it.second.take (firstIndex - it.first) ++ data) joined
          (stored.ahead it.entry (mem_entries.mpr ⟨it, by simp, rfl⟩)) (by omega)
          (by rwa [List.append_nil]) before (.inl rfl)
        rw [List.append_nil] at result takes
        refine ⟨cut, result, takes.of_erased ?_⟩
        have stop : it.first + (it.second.take (firstIndex - it.first) ++ data).length =
            firstIndex + data.length := by omega
        refine (join_positions head.1 head.2.1.le head.2.2).trans ?_
        simp only [MapEntry.entry, Entry.span, stop]
      rw [if_neg head]
      by_cases tail : firstIndex ≤ it.first ∧ it.first < firstIndex + data.length ∧
          firstIndex + data.length ≤ it.first + it.second.length
      · rw [if_pos tail]
        obtain ⟨rest', cuts, stop, joined⟩ :=
          join_tail itSlices slices tail.2.1.le tail.2.2
        rw [cuts, counted]
        have within := stored.within it.entry (mem_entries.mpr ⟨it, by simp, rfl⟩)
        obtain ⟨cut, result, takes⟩ := ih left same firstIndex (data ++ rest') joined edge_le
          (by rw [stop]; exact within) erased ahead overwritten
        refine ⟨cut, result, takes.of_erased ?_⟩
        rw [Finset.union_comm]
        refine (join_positions tail.1 tail.2.1.le tail.2.2).trans ?_
        simp only [MapEntry.entry, Entry.span, stop]
      rw [if_neg tail]
      by_cases inside : firstIndex < it.first ∧
          it.first + it.second.length < firstIndex + data.length
      · rw [if_pos inside, counted]
        obtain ⟨cut, result, takes⟩ :=
          ih left same firstIndex data slices edge_le le_limit erased ahead overwritten
        exact ⟨cut, result, takes.of_erased
          (Finset.union_eq_right.mpr (Finset.Ico_subset_Ico inside.1.le inside.2.le))⟩
      rw [if_neg inside]
      by_cases next : firstIndex = it.first + it.second.length
      · rw [if_pos next]
        obtain rfl := alone (by omega)
        rw [List.append_nil] at before stored ⊢
        by_cases starts : it.first < firstIndex
        · have moved := ih (left ++ [it]) [] firstIndex data slices edge_le le_limit
            (by simpa using stored) (passes starts next.ge) (.inl rfl)
          simpa using moved
        · have same : it = ⟨firstIndex, []⟩ := by
            have empty : it.second = [] := List.eq_nil_of_length_eq_zero (by omega)
            rw [empty, List.length_nil, Nat.add_zero] at next
            rw [next, ← empty]
          have moved := ih left [it] firstIndex data slices edge_le le_limit
            (by simpa using stored) ahead (.inr (by rw [same]))
          simpa using moved
      rw [if_neg next]
      by_cases touches : firstIndex + data.length = it.first
      · rw [if_pos touches]
        exact ⟨_, rfl, settle_takes slices edge_le le_limit stored ahead overwritten
          (after (by omega) (by omega))⟩
      rw [if_neg touches]
      by_cases apart : firstIndex + data.length < it.first
      · rw [cutCacheInFrom_past (fun other member => apart.trans (behind other member).1),
          List.append_assoc, List.singleton_append]
        exact ⟨_, rfl, settle_takes slices edge_le le_limit stored ahead overwritten
          (after (by omega) (by omega))⟩
      · obtain rfl := alone (by omega)
        rw [List.append_nil] at before stored ⊢
        have moved := ih (left ++ [it]) [] firstIndex data slices edge_le le_limit
          (by simpa using stored) (passes (by omega) (by omega)) (.inl rfl)
        simpa using moved

end Loop

end ReassemblerV1

end LearnInternet.Tcp
