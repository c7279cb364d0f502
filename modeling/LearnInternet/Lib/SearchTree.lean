import Mathlib.Data.List.Basic
import Mathlib.Data.List.Nodup
import Mathlib.Data.List.Perm.Basic
import Mathlib.Tactic.Common
import LearnInternet.Lib.UnorderedMap

/-!
Binary search trees that consult nothing but a comparison function: the descent of
`std::map::find` (a lower bound, then one comparison the other way) and of `std::map::insert`
(left below a greater key, right otherwise, then one comparison with the predecessor).

The comparison need not be an ordering. `Comparison` is what is left of a strict total order
without asymmetry, and `find_fill_iff` says that exactly asymmetry is missing for the tree to find
what was put into it.
-/

inductive SearchTree (κ υ : Type) where
  | leaf
  | node (left : SearchTree κ υ) (key : κ) (value : υ) (right : SearchTree κ υ)

namespace SearchTree

variable {κ υ : Type}

def toList : SearchTree κ υ → List (κ × υ)
  | leaf => []
  | node left key value right => left.toList ++ (key, value) :: right.toList

def keys (tree : SearchTree κ υ) : List κ := tree.toList.map Prod.fst

@[simp] theorem keys_leaf : (leaf : SearchTree κ υ).keys = [] := rfl

@[simp] theorem keys_node (left right : SearchTree κ υ) (key : κ) (value : υ) :
    (node left key value right).keys = left.keys ++ key :: right.keys := by
  simp [keys, toList]

/-- The first entry, in order, whose key is not less than `key`. -/
def lowerBound (less : κ → κ → Bool) (key : κ) : SearchTree κ υ → Option (κ × υ)
  | leaf => none
  | node left other value right =>
      if less other key then lowerBound less key right
      else (lowerBound less key left).or (some (other, value))

def find (less : κ → κ → Bool) (key : κ) (tree : SearchTree κ υ) : Option υ :=
  match lowerBound less key tree with
  | none => none
  | some (other, value) => if less key other then none else some value

def insertAfter (less : κ → κ → Bool) (key : κ) (value : υ) :
    Option κ → SearchTree κ υ → Option (SearchTree κ υ)
  | none, leaf => some (node leaf key value leaf)
  | some before, leaf => if less before key then some (node leaf key value leaf) else none
  | before, node left other old right =>
      if less key other then
        (insertAfter less key value before left).map fun left => node left other old right
      else (insertAfter less key value (some other) right).map fun right => node left other old right

def insert (less : κ → κ → Bool) (key : κ) (value : υ) (tree : SearchTree κ υ) : SearchTree κ υ :=
  (insertAfter less key value none tree).getD tree

/-- What every descent relies on: keys on the left compared less, keys on the right did not. -/
def Placed (less : κ → κ → Bool) : SearchTree κ υ → Prop
  | leaf => True
  | node left key _ right =>
      (∀ other ∈ left.keys, less other key = true) ∧
      (∀ other ∈ right.keys, less other key = false) ∧ Placed less left ∧ Placed less right

/-- A strict total order short of asymmetry. -/
structure Comparison (less : κ → κ → Bool) : Prop where
  irrefl : ∀ key, less key key = false
  connected : ∀ first second, less first second = false → less second first = false → first = second
  split : ∀ first second middle, less first second = true →
    less first middle = true ∨ less middle second = true

def Crossed (less : κ → κ → Bool) (first second : κ) : Prop :=
  less first second = true ∧ less second first = true

theorem Crossed.symm {less : κ → κ → Bool} {first second : κ} (crossed : Crossed less first second) :
    Crossed less second first := ⟨crossed.2, crossed.1⟩

structure OrderLaws (equal less : κ → κ → Bool) (first second third : κ) : Prop where
  irrefl : less first first = false
  asymm : less first second = true → less second first = false
  trans : less first second = true → less second third = true → less first third = true
  equivalent : equal first second = true ↔
    less first second = false ∧ less second first = false

theorem Comparison.less_of_ne {less : κ → κ → Bool} (comparison : Comparison less) {first second : κ}
    (differ : first ≠ second) (notLess : less second first = false) : less first second = true := by
  by_contra missing
  exact differ (comparison.connected first second (by simpa using missing) notLess)

theorem Comparison.less_of_absent {less : κ → κ → Bool} (comparison : Comparison less) {key : κ}
    {keys : List κ} (absent : key ∉ keys) (notLess : ∀ other ∈ keys, less other key = false) :
    ∀ other ∈ keys, less key other = true := by
  intro other inside
  exact comparison.less_of_ne (ne_of_mem_of_not_mem inside absent).symm (notLess other inside)

theorem Comparison.trans_of_not_crossed {less : κ → κ → Bool} (comparison : Comparison less)
    {first second third : κ} (uncrossed : ¬Crossed less first second)
    (early : less first second = true) (late : less second third = true) :
    less first third = true := by
  rcases comparison.split second third first late with back | onward
  · exact absurd ⟨early, back⟩ uncrossed
  · exact onward

/-- Asymmetry is all that is missing, and where it holds of two keys the rest holds of every
third. -/
theorem Comparison.laws_iff_not_crossed {less : κ → κ → Bool} (comparison : Comparison less)
    {equal : κ → κ → Bool} (equality : ∀ first second, equal first second = true ↔ first = second)
    (first second third : κ) :
    OrderLaws equal less first second third ↔ ¬Crossed less first second := by
  constructor
  · rintro laws ⟨early, late⟩
    rw [laws.asymm early] at late
    cases late
  · intro uncrossed
    refine ⟨comparison.irrefl first, ?_, comparison.trans_of_not_crossed uncrossed, ?_⟩
    · intro early
      cases late : less second first with
      | false => rfl
      | true => exact absurd ⟨early, late⟩ uncrossed
    · rw [equality]
      constructor
      · rintro rfl
        exact ⟨comparison.irrefl first, comparison.irrefl first⟩
      · exact fun neither => comparison.connected first second neither.1 neither.2

section Find

variable {less : κ → κ → Bool}

theorem lowerBound_mem {key : κ} {entry : κ × υ} {tree : SearchTree κ υ}
    (found : lowerBound less key tree = some entry) :
    entry ∈ tree.toList ∧ less entry.1 key = false := by
  induction tree with
  | leaf => simp [lowerBound] at found
  | node left other value right ihLeft ihRight =>
      simp only [lowerBound] at found
      split at found
      · have inside := ihRight found
        exact ⟨by simp [toList, inside.1], inside.2⟩
      · rename_i notLess
        rcases Option.or_eq_some_iff.mp found with inLeft | ⟨-, here⟩
        · have inside := ihLeft inLeft
          exact ⟨by simp [toList, inside.1], inside.2⟩
        · obtain rfl := Option.some.inj here
          exact ⟨by simp [toList], by simpa using notLess⟩

theorem lowerBound_none {key : κ} {tree : SearchTree κ υ}
    (below : ∀ other ∈ tree.keys, less other key = true) : lowerBound less key tree = none := by
  induction tree with
  | leaf => rfl
  | node left other value right _ ihRight =>
      simp only [lowerBound, below other (by simp), if_true]
      exact ihRight (fun inner member => below inner (by simp [member]))

theorem find_mem (comparison : Comparison less) {key : κ} {value : υ} {tree : SearchTree κ υ}
    (found : find less key tree = some value) : (key, value) ∈ tree.toList := by
  simp only [find] at found
  split at found
  · contradiction
  · rename_i other stored bound
    split at found
    · contradiction
    · rename_i notLess
      obtain rfl := Option.some.inj found
      have inside := lowerBound_mem bound
      have same : key = other := comparison.connected key other (by simpa using notLess) inside.2
      rw [same]
      exact inside.1

theorem find_eq_none (comparison : Comparison less) {key : κ} {tree : SearchTree κ υ}
    (absent : key ∉ tree.keys) : find less key tree = none := by
  by_contra present
  obtain ⟨value, found⟩ := Option.ne_none_iff_exists'.mp present
  exact absent (List.mem_map_of_mem (find_mem comparison found))

theorem find_node_right {left right : SearchTree κ υ} {key other : κ} {value : υ}
    (rightward : less other key = true) :
    find less key (node left other value right) = find less key right := by
  simp [find, lowerBound, rightward]

theorem lowerBound_of_mem (comparison : Comparison less) {key : κ} {value : υ}
    {tree : SearchTree κ υ} (placed : tree.Placed less) (unique : tree.keys.Nodup)
    (uncrossed : ∀ other ∈ tree.keys, ¬Crossed less key other)
    (member : (key, value) ∈ tree.toList) : lowerBound less key tree = some (key, value) := by
  induction tree with
  | leaf => simp [toList] at member
  | node left other old right ihLeft ihRight =>
      obtain ⟨leftLess, rightNotLess, leftPlaced, rightPlaced⟩ := placed
      rw [keys_node, List.nodup_append] at unique
      obtain ⟨leftUnique, restUnique, -⟩ := unique
      rw [List.nodup_cons] at restUnique
      simp only [keys_node, List.mem_append, List.mem_cons] at uncrossed
      simp only [toList, List.mem_append, List.mem_cons] at member
      rcases member with inLeft | here | inRight
      · have less₁ : less key other = true := leftLess key (List.mem_map_of_mem inLeft)
        have less₂ : less other key = false := by
          by_contra crossed
          exact uncrossed other (Or.inr (Or.inl rfl)) ⟨less₁, by simpa using crossed⟩
        have deeper := ihLeft leftPlaced leftUnique
          (fun inner member => uncrossed inner (Or.inl member)) inLeft
        simp [lowerBound, less₂, deeper]
      · obtain ⟨rfl, rfl⟩ := Prod.mk.inj here
        simp [lowerBound, comparison.irrefl key, lowerBound_none leftLess]
      · have inside : key ∈ right.keys := List.mem_map_of_mem inRight
        have less₁ : less key other = false := rightNotLess key inside
        have less₂ := comparison.less_of_absent restUnique.1 rightNotLess key inside
        have deeper := ihRight rightPlaced restUnique.2
          (fun inner member => uncrossed inner (Or.inr (Or.inr member))) inRight
        simp [lowerBound, less₂, deeper]

theorem find_of_mem (comparison : Comparison less) {key : κ} {value : υ}
    {tree : SearchTree κ υ} (placed : tree.Placed less) (unique : tree.keys.Nodup)
    (uncrossed : ∀ other ∈ tree.keys, ¬Crossed less key other)
    (member : (key, value) ∈ tree.toList) : find less key tree = some value := by
  simp [find, lowerBound_of_mem comparison placed unique uncrossed member, comparison.irrefl key]

/-- The descent turns right at a key it is crossed with, away from where it was put. -/
theorem find_lost {left right : SearchTree κ υ} (comparison : Comparison less) {key other : κ}
    {value : υ} (placed : (node left other value right).Placed less) (inside : key ∈ left.keys)
    (rightward : less other key = true) : find less key (node left other value right) = none := by
  obtain ⟨leftLess, rightNotLess, -, -⟩ := placed
  rw [find_node_right rightward]
  apply find_eq_none comparison
  intro inRight
  have notLess := rightNotLess key inRight
  rw [leftLess key inside] at notLess
  contradiction

theorem exists_lost (comparison : Comparison less) {tree : SearchTree κ υ}
    (placed : tree.Placed less) (unique : tree.keys.Nodup) {first second : κ}
    (firstIn : first ∈ tree.keys) (secondIn : second ∈ tree.keys)
    (crossed : Crossed less first second) :
    ∃ key ∈ tree.keys, find less key tree = none := by
  induction tree generalizing first second with
  | leaf => simp at firstIn
  | node left other value right ihLeft ihRight =>
      have whole := placed
      obtain ⟨leftLess, rightNotLess, leftPlaced, rightPlaced⟩ := placed
      rw [keys_node, List.nodup_append] at unique
      obtain ⟨leftUnique, restUnique, -⟩ := unique
      rw [List.nodup_cons] at restUnique
      have lostLeft (key : κ) (inside : key ∈ left.keys) (rightward : less other key = true) :
          ∃ key ∈ (node left other value right).keys,
            find less key (node left other value right) = none :=
        ⟨key, by simp [inside], find_lost comparison whole inside rightward⟩
      -- The pair is separated by the root, which is then crossed with its left member.
      have separated (low high : κ) (inLeft : low ∈ left.keys) (inRight : high ∈ right.keys)
          (cross : Crossed less low high) :
          ∃ key ∈ (node left other value right).keys,
            find less key (node left other value right) = none := by
        apply lostLeft low inLeft
        rcases comparison.split high low other cross.2 with early | late
        · rw [rightNotLess high inRight] at early
          contradiction
        · exact late
      rw [keys_node, List.mem_append, List.mem_cons] at firstIn secondIn
      rcases firstIn with firstLeft | rfl | firstRight
      · rcases secondIn with secondLeft | rfl | secondRight
        · obtain ⟨key, inside, missed⟩ := ihLeft leftPlaced leftUnique firstLeft secondLeft crossed
          by_cases rightward : less other key = true
          · exact lostLeft key inside rightward
          · refine ⟨key, by simp [inside], ?_⟩
            have toRoot : less key other = true := leftLess key inside
            simp only [find, lowerBound, rightward, Bool.false_eq_true, if_false] at missed ⊢
            cases bound : lowerBound less key left with
            | none => simp [toRoot]
            | some entry => simpa [bound] using missed
        · exact lostLeft first firstLeft crossed.2
        · exact separated first second firstLeft secondRight crossed
      · rcases secondIn with secondLeft | rfl | secondRight
        · exact lostLeft second secondLeft crossed.1
        · have irreflexive := comparison.irrefl second
          rw [crossed.1] at irreflexive
          contradiction
        · have notLess := rightNotLess second secondRight
          rw [crossed.2] at notLess
          contradiction
      · rcases secondIn with secondLeft | rfl | secondRight
        · exact separated second first secondLeft firstRight crossed.symm
        · have notLess := rightNotLess first firstRight
          rw [crossed.1] at notLess
          contradiction
        · obtain ⟨key, inside, missed⟩ :=
            ihRight rightPlaced restUnique.2 firstRight secondRight crossed
          refine ⟨key, by simp [inside], ?_⟩
          rw [find_node_right ?_]
          · exact missed
          · exact comparison.less_of_absent restUnique.1 rightNotLess key inside

end Find

section Insert

variable {less : κ → κ → Bool}

theorem insertAfter_same {key : κ} (value : υ) (irrefl : less key key = false)
    {tree : SearchTree κ υ} (above : ∀ other ∈ tree.keys, less key other = true) :
    insertAfter less key value (some key) tree = none := by
  induction tree with
  | leaf => simp [insertAfter, irrefl]
  | node left other old right ihLeft _ =>
      have deeper := ihLeft (fun inner member => above inner (by simp [member]))
      simp [insertAfter, above other (by simp), deeper]

theorem insertAfter_of_mem (comparison : Comparison less) {key : κ} {value : υ}
    {tree : SearchTree κ υ} (placed : tree.Placed less) (unique : tree.keys.Nodup)
    (member : key ∈ tree.keys) (before : Option κ) :
    insertAfter less key value before tree = none := by
  induction tree generalizing before with
  | leaf => simp at member
  | node left other old right ihLeft ihRight =>
      obtain ⟨leftLess, rightNotLess, leftPlaced, rightPlaced⟩ := placed
      rw [keys_node, List.nodup_append] at unique
      obtain ⟨leftUnique, restUnique, -⟩ := unique
      rw [List.nodup_cons] at restUnique
      rw [keys_node, List.mem_append, List.mem_cons] at member
      rcases member with inLeft | rfl | inRight
      · have deeper := ihLeft leftPlaced leftUnique inLeft before
        simp [insertAfter, leftLess key inLeft, deeper]
      · have above := comparison.less_of_absent restUnique.1 rightNotLess
        have deeper := insertAfter_same value (comparison.irrefl key) above
        simp [insertAfter, comparison.irrefl key, deeper]
      · have deeper := ihRight rightPlaced restUnique.2 inRight (some other)
        simp [insertAfter, rightNotLess key inRight, deeper]

theorem insertAfter_of_not_mem (comparison : Comparison less) {key : κ} (value : υ)
    {tree : SearchTree κ υ} (placed : tree.Placed less) (absent : key ∉ tree.keys)
    (before : Option κ) (after : ∀ other, before = some other → less other key = true) :
    ∃ grown, insertAfter less key value before tree = some grown ∧ grown.Placed less ∧
      grown.toList.Perm ((key, value) :: tree.toList) := by
  induction tree generalizing before with
  | leaf =>
      refine ⟨node leaf key value leaf, ?_, by simp [Placed], by simp [toList]⟩
      cases before with
      | none => rfl
      | some other => simp [insertAfter, after other rfl]
  | node left other old right ihLeft ihRight =>
      obtain ⟨leftLess, rightNotLess, leftPlaced, rightPlaced⟩ := placed
      simp only [keys_node, List.mem_append, List.mem_cons, not_or] at absent
      obtain ⟨notLeft, different, notRight⟩ := absent
      cases descent : less key other with
      | true =>
          obtain ⟨grown, computed, grownPlaced, perm⟩ := ihLeft leftPlaced notLeft before after
          refine ⟨node grown other old right, by simp [insertAfter, descent, computed], ?_, ?_⟩
          · refine ⟨?_, rightNotLess, grownPlaced, rightPlaced⟩
            intro inner member
            have origin := (perm.map Prod.fst).subset member
            rcases List.mem_cons.mp origin with rfl | old
            · exact descent
            · exact leftLess inner old
          · simpa [toList] using perm.append_right _
      | false =>
          have later : ∀ between, some other = some between → less between key = true := by
            rintro between same
            obtain rfl := Option.some.inj same
            exact comparison.less_of_ne (Ne.symm different) descent
          obtain ⟨grown, computed, grownPlaced, perm⟩ :=
            ihRight rightPlaced notRight (some other) later
          refine ⟨node left other old grown, by simp [insertAfter, descent, computed], ?_, ?_⟩
          · refine ⟨leftLess, ?_, leftPlaced, grownPlaced⟩
            intro inner member
            have origin := (perm.map Prod.fst).subset member
            rcases List.mem_cons.mp origin with rfl | old
            · exact descent
            · exact rightNotLess inner old
          · have moved := (perm.cons (other, old)).append_left left.toList
            refine moved.trans ?_
            have swapped : ((other, old) :: (key, value) :: right.toList).Perm
                ((key, value) :: (other, old) :: right.toList) := List.Perm.swap _ _ _
            refine (swapped.append_left left.toList).trans ?_
            exact List.perm_middle

theorem insert_of_mem (comparison : Comparison less) {key : κ} (value : υ)
    {tree : SearchTree κ υ} (placed : tree.Placed less) (unique : tree.keys.Nodup)
    (member : key ∈ tree.keys) : tree.insert less key value = tree := by
  rw [insert, insertAfter_of_mem comparison placed unique member none, Option.getD_none]

theorem insert_of_not_mem (comparison : Comparison less) {key : κ} (value : υ)
    {tree : SearchTree κ υ} (placed : tree.Placed less) (absent : key ∉ tree.keys) :
    (tree.insert less key value).Placed less ∧
      (tree.insert less key value).toList.Perm ((key, value) :: tree.toList) := by
  obtain ⟨grown, computed, grownPlaced, perm⟩ :=
    insertAfter_of_not_mem comparison value placed absent none (by simp)
  rw [insert, computed, Option.getD_some]
  exact ⟨grownPlaced, perm⟩

end Insert

/-! A tree filled entry by entry, rearranged after each entry in any way that keeps the order of
its entries. -/

section Fill

variable {less : κ → κ → Bool} [DecidableEq κ]

def fillFrom (balance : SearchTree κ υ → SearchTree κ υ) (less : κ → κ → Bool)
    (entries : List (κ × υ)) (tree : SearchTree κ υ) : SearchTree κ υ :=
  entries.foldl (fun tree entry => balance (tree.insert less entry.1 entry.2)) tree

def fill (balance : SearchTree κ υ → SearchTree κ υ) (less : κ → κ → Bool)
    (entries : List (κ × υ)) : SearchTree κ υ := fillFrom balance less entries leaf

structure Holds (less : κ → κ → Bool) (entries : List (κ × υ)) (tree : SearchTree κ υ) : Prop where
  placed : tree.Placed less
  unique : tree.keys.Nodup
  first : ∀ key value, (key, value) ∈ tree.toList ↔ UnorderedMap.findIn key entries = some value

theorem Holds.mem_keys {entries : List (κ × υ)} {tree : SearchTree κ υ}
    (holds : Holds less entries tree) (key : κ) : key ∈ tree.keys ↔ key ∈ entries.map Prod.fst := by
  rw [← not_iff_not, ← UnorderedMap.findIn_eq_none_iff, Option.eq_none_iff_forall_ne_some]
  constructor
  · intro absent value found
    exact absent (List.mem_map_of_mem ((holds.first key value).mpr found))
  · intro absent member
    obtain ⟨⟨other, value⟩, inside, rfl⟩ := List.mem_map.mp member
    exact absent value ((holds.first other value).mp inside)

theorem Holds.insert (comparison : Comparison less) {entries : List (κ × υ)}
    {tree : SearchTree κ υ} (holds : Holds less entries tree) (key : κ) (value : υ) :
    Holds less (entries ++ [(key, value)]) (tree.insert less key value) := by
  by_cases member : key ∈ tree.keys
  · rw [insert_of_mem comparison value holds.placed holds.unique member]
    refine ⟨holds.placed, holds.unique, ?_⟩
    intro query stored
    rw [holds.first, UnorderedMap.findIn_concat]
    by_cases here : key = query
    · subst here
      have known : UnorderedMap.findIn key entries ≠ none := by
        rw [Ne, UnorderedMap.findIn_eq_none_iff, ← holds.mem_keys]
        exact not_not.mpr member
      obtain ⟨old, found⟩ := Option.ne_none_iff_exists'.mp known
      simp [found]
    · simp [here]
  · obtain ⟨placed, perm⟩ := insert_of_not_mem comparison value holds.placed member
    refine ⟨placed, ?_, ?_⟩
    · have keysPerm := perm.map Prod.fst
      refine keysPerm.nodup_iff.mpr ?_
      rw [List.map_cons, List.nodup_cons]
      exact ⟨member, holds.unique⟩
    · intro query stored
      have unknown : UnorderedMap.findIn key entries = none := by
        rw [UnorderedMap.findIn_eq_none_iff, ← holds.mem_keys]
        exact member
      rw [perm.mem_iff, List.mem_cons, holds.first, UnorderedMap.findIn_concat]
      by_cases here : key = query
      · subst here
        simp [unknown, eq_comm]
      · simp [here, Ne.symm here]

theorem Holds.find_eq (comparison : Comparison less) {entries : List (κ × υ)}
    {tree : SearchTree κ υ} (holds : Holds less entries tree)
    (uncrossed : ∀ first ∈ entries.map Prod.fst, ∀ second ∈ entries.map Prod.fst,
      ¬Crossed less first second) (key : κ) :
    find less key tree = UnorderedMap.findIn key entries := by
  cases found : UnorderedMap.findIn key entries with
  | none =>
      apply find_eq_none comparison
      rw [holds.mem_keys]
      exact UnorderedMap.findIn_eq_none_iff.mp found
  | some value =>
      have inside := (holds.first key value).mpr found
      have keyIn := (holds.mem_keys key).mp (List.mem_map_of_mem inside)
      exact find_of_mem comparison holds.placed holds.unique
        (fun other member => uncrossed key keyIn other ((holds.mem_keys other).mp member)) inside

theorem fill_id_holds (comparison : Comparison less) (entries : List (κ × υ)) :
    Holds less entries (fill id less entries) := by
  have run (done rest : List (κ × υ)) (tree : SearchTree κ υ) (holds : Holds less done tree) :
      Holds less (done ++ rest) (fillFrom id less rest tree) := by
    induction rest generalizing done tree with
    | nil => simpa [fillFrom] using holds
    | cons entry rest ih =>
        have next := ih (done ++ [entry]) _ (holds.insert comparison entry.1 entry.2)
        simpa [fillFrom] using next
  exact run [] entries leaf ⟨trivial, by simp, by simp [toList, UnorderedMap.findIn]⟩

theorem find_fill_iff (comparison : Comparison less) (entries : List (κ × υ)) :
    (∀ key, find less key (fill id less entries) = UnorderedMap.findIn key entries) ↔
      ∀ first ∈ entries.map Prod.fst, ∀ second ∈ entries.map Prod.fst,
        ¬Crossed less first second := by
  have holds := fill_id_holds comparison entries
  constructor
  · intro exact first firstIn second secondIn crossed
    obtain ⟨key, inside, missed⟩ := exists_lost comparison holds.placed holds.unique
      ((holds.mem_keys first).mpr firstIn) ((holds.mem_keys second).mpr secondIn) crossed
    rw [exact key, UnorderedMap.findIn_eq_none_iff] at missed
    exact missed ((holds.mem_keys key).mp inside)
  · exact fun uncrossed key => holds.find_eq comparison uncrossed key

omit [DecidableEq κ] in
/-- Rearranging keeps the places of keys when none are crossed: they then depend on the order of
the entries alone. -/
theorem placed_iff_pairwise (comparison : Comparison less) {tree : SearchTree κ υ}
    (unique : tree.keys.Nodup)
    (uncrossed : ∀ first ∈ tree.keys, ∀ second ∈ tree.keys, ¬Crossed less first second) :
    tree.Placed less ↔ tree.keys.Pairwise (fun first second => less first second = true) := by
  induction tree with
  | leaf => simp [Placed]
  | node left key value right ihLeft ihRight =>
      simp only [keys_node, List.mem_append, List.mem_cons] at uncrossed
      rw [keys_node, List.nodup_append] at unique
      obtain ⟨leftUnique, restUnique, -⟩ := unique
      rw [List.nodup_cons] at restUnique
      have leftIff := ihLeft leftUnique
        (fun first firstIn second secondIn => uncrossed first (Or.inl firstIn) second
          (Or.inl secondIn))
      have rightIff := ihRight restUnique.2
        (fun first firstIn second secondIn => uncrossed first (Or.inr (Or.inr firstIn)) second
          (Or.inr (Or.inr secondIn)))
      rw [Placed, keys_node, List.pairwise_append, List.pairwise_cons, leftIff, rightIff]
      constructor
      · rintro ⟨leftLess, rightNotLess, leftPairs, rightPairs⟩
        have keyLess := comparison.less_of_absent restUnique.1 rightNotLess
        refine ⟨leftPairs, ⟨keyLess, rightPairs⟩, ?_⟩
        intro low lowIn high highIn
        rcases List.mem_cons.mp highIn with rfl | inRight
        · exact leftLess low lowIn
        · rcases comparison.split low key high (leftLess low lowIn) with early | late
          · exact early
          · rw [rightNotLess high inRight] at late
            contradiction
      · rintro ⟨leftPairs, ⟨keyLess, rightPairs⟩, across⟩
        refine ⟨fun other inside => across other inside key (by simp), ?_, leftPairs, rightPairs⟩
        intro other inside
        by_contra less₁
        exact uncrossed key (Or.inr (Or.inl rfl)) other (Or.inr (Or.inr inside))
          ⟨keyLess other inside, by simpa using less₁⟩

theorem Holds.balance (comparison : Comparison less) {entries : List (κ × υ)}
    {tree : SearchTree κ υ} (holds : Holds less entries tree) {balanced : SearchTree κ υ}
    (same : balanced.toList = tree.toList)
    (uncrossed : ∀ first ∈ entries.map Prod.fst, ∀ second ∈ entries.map Prod.fst,
      ¬Crossed less first second) : Holds less entries balanced := by
  have sameKeys : balanced.keys = tree.keys := by rw [keys, same, keys]
  have treeUncrossed : ∀ first ∈ tree.keys, ∀ second ∈ tree.keys, ¬Crossed less first second :=
    fun first firstIn second secondIn => uncrossed first ((holds.mem_keys first).mp firstIn)
      second ((holds.mem_keys second).mp secondIn)
  refine ⟨?_, by rw [sameKeys]; exact holds.unique, by rw [same]; exact holds.first⟩
  rw [placed_iff_pairwise comparison (by rw [sameKeys]; exact holds.unique)
    (by rw [sameKeys]; exact treeUncrossed), sameKeys]
  exact (placed_iff_pairwise comparison holds.unique treeUncrossed).mp holds.placed

theorem find_fill_balanced (comparison : Comparison less)
    (balance : SearchTree κ υ → SearchTree κ υ)
    (keepsOrder : ∀ tree : SearchTree κ υ, (balance tree).toList = tree.toList)
    (entries : List (κ × υ))
    (uncrossed : ∀ first ∈ entries.map Prod.fst, ∀ second ∈ entries.map Prod.fst,
      ¬Crossed less first second) (key : κ) :
    find less key (fill balance less entries) = UnorderedMap.findIn key entries := by
  have run (done rest : List (κ × υ)) (tree : SearchTree κ υ) (holds : Holds less done tree)
      (uncrossed : ∀ first ∈ (done ++ rest).map Prod.fst, ∀ second ∈ (done ++ rest).map Prod.fst,
        ¬Crossed less first second) :
      Holds less (done ++ rest) (fillFrom balance less rest tree) := by
    induction rest generalizing done tree with
    | nil => simpa [fillFrom] using holds
    | cons entry rest ih =>
        have inserted := holds.insert comparison entry.1 entry.2
        have next := ih (done ++ [entry]) _
          (inserted.balance comparison (keepsOrder _) (fun first firstIn second secondIn =>
            uncrossed first (by simp at firstIn ⊢; tauto) second (by simp at secondIn ⊢; tauto)))
          (by simpa using uncrossed)
        simpa [fillFrom] using next
  have holds : Holds less entries (fill balance less entries) :=
    run [] entries leaf ⟨trivial, by simp, by simp [toList, UnorderedMap.findIn]⟩ uncrossed
  exact holds.find_eq comparison uncrossed key

end Fill

end SearchTree
