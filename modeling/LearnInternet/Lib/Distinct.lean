import Mathlib.Data.List.Induction
import Mathlib.Data.List.Nodup

/-!
The distinct members of a growing list in the order of their first occurrences, and lists without
repetitions that grow in order.
-/

namespace Distinct

variable {α : Type} [DecidableEq α]

theorem eraseDups_concat (items : List α) (item : α) :
    (items ++ [item]).eraseDups =
      if item ∈ items then items.eraseDups else items.eraseDups ++ [item] := by
  rw [List.eraseDups_append, List.removeAll]
  split
  · rename_i old
    simp [old]
  · rename_i new
    simp [new, List.eraseDups_cons]

theorem nodup_eraseDups (items : List α) : items.eraseDups.Nodup := by
  induction items using List.reverseRecOn with
  | nil => exact List.nodup_nil
  | append_singleton items item ih =>
      rw [eraseDups_concat]
      split
      · exact ih
      · rename_i new
        rw [List.nodup_append]
        refine ⟨ih, List.nodup_singleton item, ?_⟩
        rintro old oldMember same sameMember rfl
        rw [List.mem_singleton] at sameMember
        exact new (sameMember ▸ List.mem_eraseDups.mp oldMember)

theorem nodup_of_increasing {β : Type} {key : β → Nat} {items : List β}
    (increasing : (items.map key).Pairwise (· < ·)) : items.Nodup := by
  apply List.Nodup.of_map key
  exact increasing.imp Nat.ne_of_lt

/-- A prefix of an increasing list grows by the least of the items that it lacks. -/
theorem concat_prefix_iff {β : Type} {key : β → Nat} {items front : List β} {item : β}
    (increasing : (items.map key).Pairwise (· < ·)) (starts : front <+: items)
    (member : item ∈ items) (fresh : item ∉ front) :
    front ++ [item] <+: items ↔ ∀ other ∈ items, other ∉ front → key item ≤ key other := by
  obtain ⟨rest, rfl⟩ := starts
  have later : item ∈ rest := (List.mem_append.mp member).resolve_left fresh
  have nodup := nodup_of_increasing increasing
  rw [List.map_append, List.pairwise_append] at increasing
  rw [List.prefix_append_right_inj]
  constructor
  · rintro ⟨more, rfl⟩ other otherMember otherFresh
    rcases (List.mem_append.mp otherMember).resolve_left otherFresh with _ | ⟨_, behind⟩
    · exact Nat.le_refl _
    · have tail := increasing.2.1
      rw [List.singleton_append, List.map_cons, List.pairwise_cons] at tail
      exact Nat.le_of_lt (tail.1 _ (List.mem_map_of_mem behind))
  · intro least
    cases rest with
    | nil => cases later
    | cons first more =>
        have firstFresh : first ∉ front := by
          intro old
          exact (List.nodup_append.mp nodup).2.2 first old first (by simp) rfl
        have bound := least first (by simp) firstFresh
        rcases List.mem_cons.mp later with rfl | behind
        · exact ⟨more, rfl⟩
        · have tail := increasing.2.1
          rw [List.map_cons, List.pairwise_cons] at tail
          have above := tail.1 _ (List.mem_map_of_mem behind)
          omega

/-! One member of a list changes, and keeps its key. -/

section Keys

variable {β κ : Type} {key : β → κ} {items : List β} {index : Nat} {before after : β}

theorem keys_set (present : items[index]? = some before) (same : key after = key before) :
    (items.set index after).map key = items.map key := by
  obtain ⟨bound, here⟩ := List.getElem?_eq_some_iff.mp present
  apply List.ext_getElem?
  intro other
  rw [List.getElem?_map, List.getElem?_map, List.getElem?_set]
  split
  · rename_i equal
    subst equal
    simp [bound, here, same]
  · rfl

theorem forall_mem_set_of_keys (distinct : (items.map key).Nodup)
    (present : items[index]? = some before) {holds : β → Prop} (changed : holds after)
    (others : ∀ other ∈ items, key other ≠ key before → holds other) :
    ∀ item ∈ items.set index after, holds item := by
  intro item member
  obtain ⟨place, found⟩ := List.mem_iff_getElem?.mp member
  by_cases same : place = index
  · subst same
    rw [List.getElem?_set_self (List.getElem?_eq_some_iff.mp present).1] at found
    cases found
    exact changed
  · rw [List.getElem?_set_ne (Ne.symm same)] at found
    apply others item (List.mem_of_getElem? found)
    intro equal
    have here : (items.map key)[index]? = some (key before) := by
      rw [List.getElem?_map, present]
      rfl
    have there : (items.map key)[place]? = some (key item) := by
      rw [List.getElem?_map, found]
      rfl
    have bound := (List.getElem?_eq_some_iff.mp there).1
    apply same
    rw [← List.getElem?_inj bound distinct, there, here, equal]

end Keys

end Distinct
