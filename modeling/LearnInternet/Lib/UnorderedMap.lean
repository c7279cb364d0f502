import Mathlib.Data.List.Basic
import Mathlib.Data.List.Nodup
import Mathlib.Data.List.Perm.Basic

/-! Finite maps as lists of entries with distinct keys, in some order of iteration. -/

structure UnorderedMap (κ υ : Type) where
  entries : List (κ × υ)
  unique : (entries.map Prod.fst).Nodup

namespace UnorderedMap

variable {κ υ : Type} [DecidableEq κ]

def empty : UnorderedMap κ υ := ⟨[], List.nodup_nil⟩

def findIn (key : κ) : List (κ × υ) → Option υ
  | [] => none
  | (other, value) :: rest => if other = key then some value else findIn key rest

def assignIn (key : κ) (value : υ) : List (κ × υ) → List (κ × υ)
  | [] => [(key, value)]
  | (other, old) :: rest =>
      if other = key then (other, value) :: rest else (other, old) :: assignIn key value rest

theorem mem_keys_assignIn (key query : κ) (value : υ) (entries : List (κ × υ)) :
    query ∈ (assignIn key value entries).map Prod.fst ↔
      query = key ∨ query ∈ entries.map Prod.fst := by
  induction entries with
  | nil => simp [assignIn]
  | cons entry rest ih =>
      obtain ⟨other, old⟩ := entry
      simp only [assignIn]
      split
      · rename_i same
        subst same
        simp
      · simp only [List.map_cons, List.mem_cons, ih]
        tauto

theorem unique_assignIn (key : κ) (value : υ) (entries : List (κ × υ))
    (unique : (entries.map Prod.fst).Nodup) :
    ((assignIn key value entries).map Prod.fst).Nodup := by
  induction entries with
  | nil => simp [assignIn]
  | cons entry rest ih =>
      obtain ⟨other, old⟩ := entry
      simp only [List.map_cons, List.nodup_cons] at unique
      simp only [assignIn]
      split
      · simpa using unique
      · rename_i different
        simp only [List.map_cons, List.nodup_cons, mem_keys_assignIn, not_or]
        exact ⟨⟨different, unique.1⟩, ih unique.2⟩

theorem mem_assignIn {key : κ} {value : υ} {entries : List (κ × υ)} {entry : κ × υ}
    (member : entry ∈ assignIn key value entries) : entry = (key, value) ∨ entry ∈ entries := by
  induction entries with
  | nil => exact .inl (List.mem_singleton.mp member)
  | cons first rest ih =>
      obtain ⟨other, old⟩ := first
      simp only [assignIn] at member
      split at member
      · rename_i same
        rcases List.mem_cons.mp member with rfl | inside
        · exact .inl (by rw [same])
        · exact .inr (List.mem_cons_of_mem _ inside)
      · rcases List.mem_cons.mp member with rfl | inside
        · exact .inr (by simp)
        · exact (ih inside).imp id (List.mem_cons_of_mem _)

def find (map : UnorderedMap κ υ) (key : κ) : Option υ := findIn key map.entries

def assign (map : UnorderedMap κ υ) (key : κ) (value : υ) : UnorderedMap κ υ :=
  ⟨assignIn key value map.entries, unique_assignIn key value map.entries map.unique⟩

def Same (left right : UnorderedMap κ υ) : Prop := ∀ key, left.find key = right.find key

omit [DecidableEq κ] in
theorem ext {left right : UnorderedMap κ υ} (same : left.entries = right.entries) :
    left = right := by
  cases left
  cases right
  simpa using same

@[simp] theorem find_empty (key : κ) : (empty : UnorderedMap κ υ).find key = none := rfl

@[simp] theorem find_assign (map : UnorderedMap κ υ) (key query : κ) (value : υ) :
    (map.assign key value).find query = if query = key then some value else map.find query := by
  obtain ⟨entries, unique⟩ := map
  simp only [find, assign]
  clear unique
  induction entries with
  | nil => simp [assignIn, findIn, eq_comm]
  | cons entry rest ih =>
      obtain ⟨other, old⟩ := entry
      simp only [assignIn]
      split
      · rename_i same
        subst same
        by_cases here : query = other
        · simp [findIn, here]
        · simp [findIn, here, Ne.symm here]
      · rename_i different
        simp only [findIn, ih]
        by_cases here : other = query
        · subst here
          simp [different]
        · simp [here]

theorem findIn_eq_some_mem {key : κ} {value : υ} {entries : List (κ × υ)}
    (found : findIn key entries = some value) : (key, value) ∈ entries := by
  induction entries with
  | nil => simp [findIn] at found
  | cons entry rest ih =>
      obtain ⟨other, old⟩ := entry
      simp only [findIn] at found
      split at found
      · rename_i same
        simp_all
      · exact List.mem_cons_of_mem _ (ih found)

theorem assignIn_fresh {key : κ} {entries : List (κ × υ)} (value : υ)
    (fresh : key ∉ entries.map Prod.fst) : assignIn key value entries = entries ++ [(key, value)] := by
  induction entries with
  | nil => rfl
  | cons entry rest ih =>
      obtain ⟨other, old⟩ := entry
      simp only [List.map_cons, List.mem_cons, not_or] at fresh
      simp [assignIn, Ne.symm fresh.1, ih fresh.2]

theorem findIn_eq_none_iff {key : κ} {entries : List (κ × υ)} :
    findIn key entries = none ↔ key ∉ entries.map Prod.fst := by
  induction entries with
  | nil => simp [findIn]
  | cons entry rest ih =>
      obtain ⟨other, old⟩ := entry
      simp only [findIn, List.map_cons, List.mem_cons, not_or]
      split
      · rename_i same
        simp [same]
      · rename_i different
        simp [ih, Ne.symm different]

theorem findIn_concat (query key : κ) (value : υ) (entries : List (κ × υ)) :
    findIn query (entries ++ [(key, value)]) =
      (findIn query entries).or (if key = query then some value else none) := by
  induction entries with
  | nil => simp [findIn]
  | cons entry rest ih =>
      obtain ⟨other, old⟩ := entry
      simp only [List.cons_append, findIn, ih]
      split <;> simp

theorem findIn_of_mem {key : κ} {value : υ} {entries : List (κ × υ)}
    (unique : (entries.map Prod.fst).Nodup) (member : (key, value) ∈ entries) :
    findIn key entries = some value := by
  induction entries with
  | nil => simp at member
  | cons entry rest ih =>
      obtain ⟨other, old⟩ := entry
      simp only [List.map_cons, List.nodup_cons] at unique
      simp only [findIn]
      rcases List.mem_cons.mp member with same | later
      · simp_all
      · have different : other ≠ key := by
          rintro rfl
          exact unique.1 (List.mem_map_of_mem later)
        rw [if_neg different]
        exact ih unique.2 later

theorem same_of_perm {left right : UnorderedMap κ υ} (perm : left.entries.Perm right.entries) :
    left.Same right := by
  intro key
  cases found : right.find key with
  | none =>
      have absent := findIn_eq_none_iff.mp found
      exact findIn_eq_none_iff.mpr fun member => absent ((perm.map Prod.fst).mem_iff.mp member)
  | some value =>
      have member := findIn_eq_some_mem found
      exact findIn_of_mem left.unique (perm.mem_iff.mpr member)

end UnorderedMap
