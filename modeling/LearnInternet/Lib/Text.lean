import Mathlib.Data.List.Basic
import Mathlib.Data.List.Infix
import Mathlib.Data.List.TakeWhile

/-!
Searching in strings over an arbitrary alphabet. `find` is the leftmost occurrence of a pattern,
`takeUntil` the text a zero-terminated copy keeps.
-/

namespace Text

variable {α : Type} [DecidableEq α]

def find (pattern : List α) : List α → Option Nat
  | [] => if pattern = [] then some 0 else none
  | head :: tail =>
      if pattern.isPrefixOf (head :: tail) then some 0 else (find pattern tail).map (· + 1)

def findFirstOf (letters : List α) (text : List α) : Option Nat :=
  text.findIdx? (fun letter => decide (letter ∈ letters))

def takeUntil (stop : α) (text : List α) : List α :=
  text.takeWhile (fun letter => decide (letter ≠ stop))

theorem find_eq_some_iff (pattern text : List α) (index : Nat) :
    find pattern text = some index ↔
      index ≤ text.length ∧ pattern <+: text.drop index ∧
        ∀ earlier < index, ¬pattern <+: text.drop earlier := by
  induction text generalizing index with
  | nil =>
      by_cases empty : pattern = []
      · simp only [find, empty, if_true, Option.some.injEq]
        constructor
        · rintro rfl
          simp
        · rintro ⟨bound, -, -⟩
          simp only [List.length_nil] at bound
          omega
      · simp [find, empty]
  | cons head tail ih =>
      simp only [find]
      by_cases here : pattern <+: head :: tail
      · rw [if_pos (List.isPrefixOf_iff_prefix.mpr here)]
        constructor
        · intro same
          obtain rfl : 0 = index := Option.some.inj same
          exact ⟨by omega, here, by omega⟩
        · rintro ⟨-, -, none⟩
          cases index with
          | zero => rfl
          | succ index => exact absurd here (none 0 (by omega))
      · rw [if_neg (fun found => here (List.isPrefixOf_iff_prefix.mp found))]
        cases index with
        | zero => simp [here]
        | succ index =>
            rw [Option.map_eq_some_iff]
            constructor
            · rintro ⟨found, foundTail, same⟩
              obtain rfl : found = index := by omega
              obtain ⟨bound, occurs, first⟩ := (ih found).mp foundTail
              refine ⟨by simpa using bound, by simpa using occurs, ?_⟩
              intro earlier below
              cases earlier with
              | zero => exact here
              | succ earlier => exact first earlier (by omega)
            · rintro ⟨bound, occurs, first⟩
              refine ⟨index, (ih index).mpr ⟨by simpa using bound, by simpa using occurs, ?_⟩, rfl⟩
              intro earlier below
              exact first (earlier + 1) (by omega)

theorem find_eq_none_iff (pattern text : List α) :
    find pattern text = none ↔ ¬pattern <:+: text := by
  induction text with
  | nil => by_cases empty : pattern = [] <;> simp [find, empty]
  | cons head tail ih =>
      simp only [find, List.infix_cons_iff]
      by_cases here : pattern <+: head :: tail
      · simp [here]
      · simp [here, ih]

theorem find_isSome_iff (pattern text : List α) :
    (find pattern text).isSome ↔ pattern <:+: text := by
  rw [Option.isSome_iff_ne_none, Ne, find_eq_none_iff, not_not]

theorem find_bound {pattern text : List α} {index : Nat}
    (found : find pattern text = some index) : index + pattern.length ≤ text.length := by
  obtain ⟨bound, occurs, -⟩ := (find_eq_some_iff pattern text index).mp found
  have fits := occurs.length_le
  rw [List.length_drop] at fits
  omega

theorem find_split {pattern text : List α} {index : Nat}
    (found : find pattern text = some index) :
    text = text.take index ++ pattern ++ text.drop (index + pattern.length) := by
  obtain ⟨-, occurs, -⟩ := (find_eq_some_iff pattern text index).mp found
  have around := List.prefix_iff_eq_append.mp occurs
  rw [List.drop_drop] at around
  rw [List.append_assoc, around, List.take_append_drop]

theorem find_append {pattern text : List α} {index : Nat}
    (found : find pattern text = some index) (more : List α) :
    find pattern (text ++ more) = some index := by
  have inside := find_bound found
  obtain ⟨bound, occurs, first⟩ := (find_eq_some_iff pattern text index).mp found
  refine (find_eq_some_iff _ _ _).mpr ⟨by rw [List.length_append]; omega, ?_, ?_⟩
  · rw [List.drop_append_of_le_length bound]
    exact occurs.trans (List.prefix_append _ _)
  · intro earlier below occursEarlier
    apply first earlier below
    rw [List.drop_append_of_le_length (by omega)] at occursEarlier
    refine List.prefix_of_prefix_length_le occursEarlier (List.prefix_append _ _) ?_
    rw [List.length_drop]
    omega

theorem find_take {pattern text : List α} {index : Nat}
    (found : find pattern text = some index) :
    find pattern (text.take (index + pattern.length)) = some index := by
  have inside := find_bound found
  obtain ⟨bound, occurs, first⟩ := (find_eq_some_iff pattern text index).mp found
  refine (find_eq_some_iff _ _ _).mpr ⟨by rw [List.length_take]; omega, ?_, ?_⟩
  · rw [List.drop_take, Nat.add_sub_cancel_left]
    exact List.prefix_take_iff.mpr ⟨occurs, Nat.le_refl _⟩
  · intro earlier below occursEarlier
    rw [List.drop_take] at occursEarlier
    exact first earlier below (occursEarlier.trans (List.take_prefix _ _))

theorem find_skip {letter : α} {rest lead : List α} (absent : letter ∉ lead) (text : List α) :
    find (letter :: rest) (lead ++ text) = (find (letter :: rest) text).map (· + lead.length) := by
  induction lead with
  | nil => simp
  | cons head lead ih =>
      have different : letter ≠ head := fun same => absent (by simp [same])
      simp only [List.cons_append, find]
      rw [if_neg (by simp [different]), ih (fun member => absent (by simp [member]))]
      rw [Option.map_map]
      rfl

theorem find_cons_of_not_prefix {pattern text : List α} {letter : α}
    (elsewhere : ¬pattern <+: letter :: text) :
    find pattern (letter :: text) = (find pattern text).map (· + 1) := by
  rw [find, if_neg (fun found => elsewhere (List.isPrefixOf_iff_prefix.mp found))]

theorem find_of_prefix {pattern text : List α} (occurs : pattern <+: text) :
    find pattern text = some 0 := by
  refine (find_eq_some_iff _ _ _).mpr ⟨by omega, by simpa using occurs, by omega⟩

theorem find_lead {letter : α} (rest : List α) {lead : List α} (absent : letter ∉ lead)
    (text : List α) :
    find (letter :: rest) (lead ++ (letter :: rest) ++ text) = some lead.length := by
  rw [List.append_assoc, find_skip absent, find_of_prefix (List.prefix_append _ _)]
  simp

theorem find_letter_eq_some_iff {letter : α} {text : List α} {index : Nat} :
    find [letter] text = some index ↔
      ∃ lead rest, text = lead ++ letter :: rest ∧ letter ∉ lead ∧ lead.length = index := by
  constructor
  · intro found
    have member : letter ∈ text := by
      rw [find_split found]
      simp
    obtain ⟨lead, rest, rfl, absent⟩ := List.eq_append_cons_of_mem member
    have atLead := find_lead [] absent rest
    rw [List.append_assoc, List.singleton_append, found] at atLead
    exact ⟨lead, rest, rfl, absent, (Option.some.inj atLead).symm⟩
  · rintro ⟨lead, rest, rfl, absent, rfl⟩
    have found := find_lead [] absent rest
    rwa [List.append_assoc, List.singleton_append] at found

theorem find_pair_lead {first second : α} (different : first ≠ second) {lead : List α}
    (absent : ¬[first, second] <:+: lead) (text : List α) :
    find [first, second] (lead ++ [first, second] ++ text) = some lead.length := by
  induction lead with
  | nil => exact find_of_prefix (List.prefix_append _ _)
  | cons head lead ih =>
      have tail := ih (fun inside => absent (List.infix_cons inside))
      have elsewhere : ¬[first, second] <+: head :: (lead ++ [first, second] ++ text) := by
        intro occurs
        obtain ⟨rfl, rest⟩ := List.cons_prefix_cons.mp occurs
        cases lead with
        | nil =>
            rw [List.nil_append, List.cons_append, List.cons_prefix_cons] at rest
            exact different rest.1.symm
        | cons next lead =>
            rw [List.cons_append, List.cons_append, List.cons_prefix_cons] at rest
            obtain ⟨rfl, -⟩ := rest
            exact absent (List.IsPrefix.isInfix (by simp))
      rw [List.cons_append, List.cons_append, find_cons_of_not_prefix elsewhere, tail]
      simp

theorem findFirstOf_lead {letters lead : List α} {letter : α}
    (absent : ∀ other ∈ lead, other ∉ letters) (member : letter ∈ letters) (text : List α) :
    findFirstOf letters (lead ++ letter :: text) = some lead.length := by
  induction lead with
  | nil => simp [findFirstOf, List.findIdx?_cons, member]
  | cons head lead ih =>
      have skipped : head ∉ letters := absent head (by simp)
      have tail := ih (fun other inside => absent other (by simp [inside]))
      simp only [findFirstOf, List.cons_append, List.findIdx?_cons] at tail ⊢
      simp [skipped, tail]

theorem findFirstOf_eq_none {letters text : List α} :
    findFirstOf letters text = none ↔ ∀ letter ∈ text, letter ∉ letters := by
  simp [findFirstOf]

theorem not_mem_takeUntil (stop : α) (text : List α) : stop ∉ takeUntil stop text := by
  intro member
  have kept := List.mem_takeWhile_imp member
  simp at kept

theorem takeUntil_eq_self {stop : α} {text : List α} (absent : stop ∉ text) :
    takeUntil stop text = text := by
  refine List.takeWhile_eq_self_iff.mpr ?_
  intro letter member
  rw [decide_eq_true_eq]
  rintro rfl
  exact absent member

theorem takeUntil_eq_self_iff {stop : α} {text : List α} :
    takeUntil stop text = text ↔ stop ∉ text := by
  constructor
  · intro whole
    rw [← whole]
    exact not_mem_takeUntil stop text
  · exact takeUntil_eq_self

theorem takeUntil_append_stop (stop : α) (text rest : List α) :
    takeUntil stop (text ++ stop :: rest) = takeUntil stop text := by
  induction text with
  | nil => simp [takeUntil]
  | cons letter text ih =>
      rw [takeUntil, takeUntil] at ih ⊢
      simp only [List.cons_append, List.takeWhile_cons, ih]

theorem takeUntil_prefix (stop : α) (text : List α) : takeUntil stop text <+: text :=
  List.takeWhile_prefix _

section Joined

variable {ι β : Type}

theorem flatten_length_le_of_prefix {pieces : List ι} {cut whole : ι → List β}
    (shorter : ∀ piece ∈ pieces, cut piece <+: whole piece) :
    ((pieces.map cut).flatten).length ≤ ((pieces.map whole).flatten).length := by
  induction pieces with
  | nil => simp
  | cons piece pieces ih =>
      have here := (shorter piece (by simp)).length_le
      have later := ih fun other member => shorter other (by simp [member])
      simp only [List.map_cons, List.flatten_cons, List.length_append]
      omega

theorem flatten_eq_iff_of_prefix {pieces : List ι} {cut whole : ι → List β}
    (shorter : ∀ piece ∈ pieces, cut piece <+: whole piece) :
    (pieces.map cut).flatten = (pieces.map whole).flatten ↔
      ∀ piece ∈ pieces, cut piece = whole piece := by
  induction pieces with
  | nil => simp
  | cons piece pieces ih =>
      have here := shorter piece (by simp)
      have later : ∀ other ∈ pieces, cut other <+: whole other :=
        fun other member => shorter other (by simp [member])
      rw [List.forall_mem_cons, ← ih later, List.map_cons, List.map_cons, List.flatten_cons,
        List.flatten_cons]
      constructor
      · intro same
        have lengths := congrArg List.length same
        have hereLength := here.length_le
        have laterLength := flatten_length_le_of_prefix later
        rw [List.length_append, List.length_append] at lengths
        exact List.append_inj same (by omega)
      · rintro ⟨hereWhole, laterWhole⟩
        rw [hereWhole, laterWhole]

end Joined

end Text
