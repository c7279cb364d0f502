import Mathlib.Algebra.Ring.Int.Defs
import Mathlib.Data.List.Basic
import Mathlib.Data.List.Infix
import Mathlib.Tactic.Common

/-!
Relative paths as lists of components, resolved lexically. `resolve_below_iff` says when the
resolved path starts at a given directory, by counting names and climbs along the path.
-/

namespace LexicalPath

variable {α : Type}

inductive Component (α : Type) where
  | here
  | up
  | name (label : α)
  deriving DecidableEq

/-- A resolved path: how often it leaves the starting directory, then names, innermost first. -/
structure Place (α : Type) where
  above : Nat
  names : List α

def start : Place α := ⟨0, []⟩

def step (place : Place α) : Component α → Place α
  | .here => place
  | .name label => { place with names := label :: place.names }
  | .up =>
      match place.names with
      | [] => { place with above := place.above + 1 }
      | _ :: names => { place with names := names }

def resolve (path : List (Component α)) : Place α := path.foldl step start

def Place.Below (root : α) (place : Place α) : Prop :=
  place.above = 0 ∧ place.names.getLast? = some root

def change : Component α → Int
  | .here => 0
  | .up => -1
  | .name _ => 1

def depth (path : List (Component α)) : Int := (path.map change).sum

/-- No part of the path from its beginning climbs out of where it began. -/
def Contained (path : List (Component α)) : Prop := ∀ lead, lead <+: path → 0 ≤ depth lead

@[simp] theorem depth_nil : depth ([] : List (Component α)) = 0 := rfl

@[simp] theorem depth_append (first second : List (Component α)) :
    depth (first ++ second) = depth first + depth second := by
  simp [depth]

@[simp] theorem depth_singleton (component : Component α) : depth [component] = change component := by
  simp [depth]

theorem contained_nil : Contained ([] : List (Component α)) := by
  intro lead prefixed
  have empty := List.prefix_nil.mp prefixed
  simp [empty]

theorem contained_concat_iff (path : List (Component α)) (last : Component α) :
    Contained (path ++ [last]) ↔ Contained path ∧ 0 ≤ depth path + change last := by
  constructor
  · intro contained
    refine ⟨fun lead prefixed => contained lead (prefixed.trans (List.prefix_append _ _)), ?_⟩
    simpa using contained _ (List.prefix_refl _)
  · rintro ⟨contained, final⟩ lead prefixed
    rcases List.prefix_concat_iff.mp prefixed with rfl | inside
    · simpa using final
    · exact contained lead inside

@[simp] theorem resolve_concat (path : List (Component α)) (last : Component α) :
    resolve (path ++ [last]) = step (resolve path) last := by
  simp [resolve]

theorem resolve_contained (path : List (Component α)) :
    ((resolve path).above = 0 ↔ Contained path) ∧
      ((resolve path).above = 0 → ((resolve path).names.length : Int) = depth path) := by
  induction path using List.reverseRecOn with
  | nil => simp [resolve, start, contained_nil]
  | append_singleton path last ih =>
      obtain ⟨leaves, length⟩ := ih
      rw [resolve_concat, contained_concat_iff, depth_append, depth_singleton]
      cases last with
      | here =>
          simp only [step, change, Int.add_zero]
          refine ⟨?_, length⟩
          rw [leaves]
          exact ⟨fun contained => ⟨contained, contained path (List.prefix_refl _)⟩, And.left⟩
      | name label =>
          simp only [step, change]
          refine ⟨?_, ?_⟩
          · rw [leaves]
            refine ⟨fun contained => ⟨contained, ?_⟩, And.left⟩
            have whole := contained path (List.prefix_refl _)
            omega
          · intro inside
            rw [List.length_cons, ← length inside]
            omega
      | up =>
          simp only [step, change]
          cases names : (resolve path).names with
          | nil =>
              simp only [Nat.add_eq_zero_iff, Nat.one_ne_zero, and_false, false_iff, not_and,
                IsEmpty.forall_iff, and_true]
              intro contained
              have none := length (leaves.mpr contained)
              rw [names, List.length_nil] at none
              omega
          | cons label rest =>
              rw [names] at length
              simp only [List.length_cons] at length
              refine ⟨?_, ?_⟩
              · rw [leaves]
                refine ⟨fun contained => ⟨contained, ?_⟩, And.left⟩
                have some := length (leaves.mpr contained)
                omega
              · intro inside
                have some := length inside
                change (rest.length : Int) = depth path + -1
                omega

theorem foldl_contained (path : List (Component α)) (base : List α) (contained : Contained path) :
    path.foldl step ⟨0, base⟩ = ⟨0, (resolve path).names ++ base⟩ := by
  induction path using List.reverseRecOn with
  | nil => rfl
  | append_singleton path last ih =>
      have parts := (contained_concat_iff path last).mp contained
      have inside := (resolve_contained path).1.mpr parts.1
      have length := (resolve_contained path).2 inside
      rw [List.foldl_append, ih parts.1, resolve_concat, List.foldl_cons, List.foldl_nil]
      cases last with
      | here => rfl
      | name label => rfl
      | up =>
          cases names : (resolve path).names with
          | nil =>
              rw [names, List.length_nil] at length
              have final := parts.2
              simp only [change] at final
              omega
          | cons label rest => simp [step, names]

/-- A path resolves to a place below `root` exactly if it enters a directory of that name from
its starting directory and never climbs out of it again. -/
theorem resolve_below_iff (root : α) (path : List (Component α)) :
    (resolve path).Below root ↔
      ∃ before after, path = before ++ Component.name root :: after ∧
        Contained before ∧ depth before = 0 ∧ Contained after := by
  constructor
  · induction path using List.reverseRecOn with
    | nil => simp [resolve, start, Place.Below]
    | append_singleton path last ih =>
        intro below
        have counts := resolve_contained path
        rw [resolve_concat] at below
        cases last with
        | here =>
            obtain ⟨before, after, rfl, containedBefore, level, containedAfter⟩ := ih below
            refine ⟨before, after ++ [.here], by simp, containedBefore, level, ?_⟩
            rw [contained_concat_iff]
            have whole := containedAfter after (List.prefix_refl _)
            exact ⟨containedAfter, by simpa [change] using whole⟩
        | name label =>
            obtain ⟨inside, outermost⟩ := below
            simp only [step] at inside outermost
            cases names : (resolve path).names with
            | nil =>
                rw [names] at outermost
                obtain rfl : label = root := by simpa using outermost
                have level := counts.2 inside
                rw [names] at level
                exact ⟨path, [], rfl, counts.1.mp inside, by simpa using level.symm, contained_nil⟩
            | cons first rest =>
                rw [names, List.getLast?_cons_cons] at outermost
                obtain ⟨before, after, rfl, containedBefore, level, containedAfter⟩ :=
                  ih ⟨inside, by rw [names]; exact outermost⟩
                refine ⟨before, after ++ [.name label], by simp, containedBefore, level, ?_⟩
                rw [contained_concat_iff]
                have whole := containedAfter after (List.prefix_refl _)
                refine ⟨containedAfter, ?_⟩
                simp only [change]
                omega
        | up =>
            obtain ⟨inside, outermost⟩ := below
            cases names : (resolve path).names with
            | nil => simp [step, names] at inside
            | cons first rest =>
                simp only [step, names] at inside outermost
                cases rest with
                | nil => simp at outermost
                | cons second rest =>
                    obtain ⟨before, after, rfl, containedBefore, level, containedAfter⟩ :=
                      ih ⟨inside, by rw [names, List.getLast?_cons_cons]; exact outermost⟩
                    refine ⟨before, after ++ [.up], by simp, containedBefore, level, ?_⟩
                    rw [contained_concat_iff]
                    refine ⟨containedAfter, ?_⟩
                    have total := counts.2 inside
                    rw [names] at total
                    have split : depth (before ++ Component.name root :: after) =
                        depth before + 1 + depth after := by
                      simp [depth, change]
                      omega
                    rw [split, level] at total
                    simp only [List.length_cons] at total
                    simp only [change]
                    omega
  · rintro ⟨before, after, rfl, containedBefore, level, containedAfter⟩
    have inside := (resolve_contained before).1.mpr containedBefore
    have length := (resolve_contained before).2 inside
    have reached : resolve before = ⟨0, []⟩ := by
      rw [level] at length
      have none : (resolve before).names = [] := List.length_eq_zero_iff.mp (by omega)
      rw [← inside, ← none]
    have walked : resolve (before ++ Component.name root :: after) =
        ⟨0, (resolve after).names ++ [root]⟩ := by
      rw [resolve, List.foldl_append, List.foldl_cons]
      change after.foldl step (step (resolve before) (.name root)) = _
      rw [reached]
      exact foldl_contained after [root] containedAfter
    rw [walked]
    exact ⟨rfl, by simp⟩

end LexicalPath
