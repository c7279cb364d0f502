import Mathlib.Data.List.Perm.Basic
import Mathlib.Tactic.Common

/-!
What becomes of a list of states when states change in place: how many of them satisfy a predicate,
and what they hold together.
-/

namespace Counting

variable {α : Type} {p : α → Bool}

theorem countP_set {items : List α} {index : Nat} {before : α}
    (present : items[index]? = some before) (after : α) :
    (items.set index after).countP p + (p before).toNat = items.countP p + (p after).toNat := by
  obtain ⟨bound, rfl⟩ := List.getElem?_eq_some_iff.mp present
  rw [List.countP_set bound]
  cases counted : p items[index] with
  | false => cases p after <;> simp
  | true =>
      have pos : 0 < items.countP p :=
        List.countP_pos_iff.mpr ⟨items[index], List.getElem_mem bound, counted⟩
      cases p after
      · simp only [Bool.toNat_true, Bool.toNat_false, if_true, Bool.false_eq_true, if_false]
        omega
      · simp only [Bool.toNat_true, if_true]
        omega

theorem countP_mapIdx_eq {items : List α} {change : Nat → α → α}
    (same : ∀ index item, p (change index item) = p item) :
    (items.mapIdx change).countP p = items.countP p := by
  induction items generalizing change with
  | nil => simp
  | cons first rest ih =>
      have later : (rest.mapIdx fun index => change (index + 1)).countP p = rest.countP p :=
        ih (fun index => same (index + 1))
      simp only [List.mapIdx_cons, List.countP_cons, later, same]

theorem countP_mapIdx_le {items : List α} {change : Nat → α → α}
    (keeps : ∀ index item, p item = true → p (change index item) = true) :
    items.countP p ≤ (items.mapIdx change).countP p := by
  induction items generalizing change with
  | nil => simp
  | cons first rest ih =>
      have later : rest.countP p ≤ (rest.mapIdx fun index => change (index + 1)).countP p :=
        ih (fun index => keeps (index + 1))
      have kept := keeps 0 first
      simp only [List.mapIdx_cons, List.countP_cons]
      split
      · rename_i counted
        rw [if_pos (kept counted)]
        omega
      · omega

theorem countP_mapIdx_lt {items : List α} {change : Nat → α → α} {index : Nat} {item : α}
    (keeps : ∀ index item, p item = true → p (change index item) = true)
    (present : items[index]? = some item) (before : p item = false)
    (after : p (change index item) = true) :
    items.countP p < (items.mapIdx change).countP p := by
  induction items generalizing change index with
  | nil => simp at present
  | cons first rest ih =>
      cases index with
      | zero =>
          simp only [List.getElem?_cons_zero, Option.some.injEq] at present
          subst present
          have later : rest.countP p ≤ (rest.mapIdx fun index => change (index + 1)).countP p :=
            countP_mapIdx_le (fun index => keeps (index + 1))
          simp only [List.mapIdx_cons, List.countP_cons, before, after, Bool.false_eq_true,
            if_false, if_true]
          omega
      | succ index =>
          simp only [List.getElem?_cons_succ] at present
          have later : rest.countP p < (rest.mapIdx fun index => change (index + 1)).countP p :=
            ih (fun index => keeps (index + 1)) present after
          have kept := keeps 0 first
          simp only [List.mapIdx_cons, List.countP_cons]
          split
          · rename_i counted
            rw [if_pos (kept counted)]
            omega
          · omega

theorem flatMap_set_perm {β : Type} (f : α → List β) {items : List α} {index : Nat} {before : α}
    (present : items[index]? = some before) (after : α) :
    ((items.set index after).flatMap f ++ f before).Perm (items.flatMap f ++ f after) := by
  induction items generalizing index with
  | nil => simp at present
  | cons first rest ih =>
      cases index with
      | zero =>
          simp only [List.getElem?_cons_zero, Option.some.injEq] at present
          subst present
          simp only [List.set_cons_zero, List.flatMap_cons, List.append_assoc]
          refine List.perm_append_comm.trans ?_
          rw [List.append_assoc]
          exact List.perm_append_comm_assoc _ _ _
      | succ index =>
          simp only [List.getElem?_cons_succ] at present
          simp only [List.set_cons_succ, List.flatMap_cons, List.append_assoc]
          exact (ih present).append_left (f first)

theorem count_flatMap_set {β : Type} [DecidableEq β] (f : α → List β) {items : List α}
    {index : Nat} {before : α} (present : items[index]? = some before) (after : α) (part : β) :
    ((items.set index after).flatMap f).count part + (f before).count part =
      (items.flatMap f).count part + (f after).count part := by
  have counted := (flatMap_set_perm f present after).count_eq part
  rw [List.count_append, List.count_append] at counted
  exact counted

theorem existsUnique_of_count_flatMap {β : Type} [DecidableEq β] {f : α → List β} {items : List α}
    {part : β} (single : (items.flatMap f).count part = 1) :
    ∃! index : Nat, ∃ item, items[index]? = some item ∧ part ∈ f item := by
  induction items with
  | nil => simp at single
  | cons first rest ih =>
      rw [List.flatMap_cons, List.count_append] at single
      by_cases here : part ∈ f first
      · have some := List.count_pos_iff.mpr here
        have others : part ∉ rest.flatMap f := by
          rw [← List.count_eq_zero]
          omega
        refine ⟨0, ⟨first, rfl, here⟩, ?_⟩
        rintro index ⟨item, present, member⟩
        cases index with
        | zero => rfl
        | succ index =>
            have inside := List.mem_of_getElem? (List.getElem?_cons_succ ▸ present)
            exact absurd (List.mem_flatMap.mpr ⟨item, inside, member⟩) others
      · have none := List.count_eq_zero.mpr here
        obtain ⟨index, ⟨item, present, member⟩, unique⟩ := ih (by omega)
        refine ⟨index + 1, ⟨item, by simpa using present, member⟩, ?_⟩
        rintro other ⟨otherItem, otherPresent, otherMember⟩
        cases other with
        | zero =>
            cases otherPresent
            exact absurd otherMember here
        | succ other =>
            have same := unique other ⟨otherItem, by simpa using otherPresent, otherMember⟩
            rw [same]

end Counting
