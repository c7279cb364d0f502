import Mathlib.Data.List.Perm.Basic
import Mathlib.Tactic.Common

/-!
A network of datagrams: what was put on it, what is under way, and what has arrived, in this order.
What is under way may be lost, be doubled, and overtake the rest.
-/

structure Network (α : Type) where
  sent : List α
  underway : List α
  arrived : List α
  deriving DecidableEq

namespace Network

variable {α : Type} {network : Network α} {item : α} {index : Nat}

def empty : Network α := ⟨[], [], []⟩

def send (network : Network α) (items : List α) : Network α :=
  ⟨network.sent ++ items, network.underway ++ items, network.arrived⟩

def arrive (network : Network α) (index : Nat) (item : α) : Network α :=
  ⟨network.sent, network.underway.eraseIdx index, network.arrived ++ [item]⟩

inductive Mishap where
  | lose (index : Nat)
  | double (index : Nat)
  deriving DecidableEq

def befall (network : Network α) (mishap : Mishap) : Network α :=
  match mishap with
  | .lose index => { network with underway := network.underway.eraseIdx index }
  | .double index =>
      { network with underway := network.underway ++ network.underway[index]?.toList }

def Genuine (network : Network α) : Prop :=
  ∀ item ∈ network.arrived ++ network.underway, item ∈ network.sent

/-- What was sent is under way or has arrived, and once. -/
def Complete (network : Network α) : Prop :=
  (network.arrived ++ network.underway).Perm network.sent

theorem empty_genuine : Genuine (empty : Network α) := by
  simp [Genuine, empty]

theorem empty_complete : Complete (empty : Network α) := List.Perm.refl []

theorem Genuine.of_subset {next : Network α} (genuine : network.Genuine)
    (sent : network.sent ⊆ next.sent)
    (subset : ∀ item ∈ next.arrived ++ next.underway,
      item ∈ network.arrived ++ network.underway ∨ item ∈ next.sent) : next.Genuine := by
  intro item member
  rcases subset item member with old | new
  · exact sent (genuine item old)
  · exact new

theorem Genuine.send (genuine : network.Genuine) (items : List α) :
    (network.send items).Genuine := by
  apply genuine.of_subset (List.subset_append_left _ _)
  intro item member
  simp only [Network.send, List.mem_append] at member ⊢
  rcases member with arrived | underway | new
  · exact .inl (.inl arrived)
  · exact .inl (.inr underway)
  · exact .inr (.inr new)

theorem Genuine.arrive (genuine : network.Genuine) (present : network.underway[index]? = some item) :
    (network.arrive index item).Genuine := by
  refine genuine.of_subset (fun _ known => known) ?_
  intro other member
  simp only [Network.arrive, List.mem_append, List.mem_singleton] at member ⊢
  rcases member with (arrived | rfl) | underway
  · exact .inl (.inl arrived)
  · exact .inl (.inr (List.mem_of_getElem? present))
  · exact .inl (.inr (List.mem_of_mem_eraseIdx underway))

@[simp] theorem befall_sent (network : Network α) (mishap : Mishap) :
    (network.befall mishap).sent = network.sent := by
  cases mishap <;> rfl

@[simp] theorem befall_arrived (network : Network α) (mishap : Mishap) :
    (network.befall mishap).arrived = network.arrived := by
  cases mishap <;> rfl

theorem Genuine.befall (genuine : network.Genuine) (mishap : Mishap) :
    (network.befall mishap).Genuine := by
  refine genuine.of_subset (fun _ known => by rwa [befall_sent]) ?_
  intro other member
  cases mishap with
  | lose index =>
      simp only [Network.befall, List.mem_append] at member ⊢
      exact .inl (member.imp_right List.mem_of_mem_eraseIdx)
  | double index =>
      simp only [Network.befall, List.mem_append, Option.mem_toList] at member ⊢
      rcases member with arrived | underway | copied
      · exact .inl (.inl arrived)
      · exact .inl (.inr underway)
      · exact .inl (.inr (List.mem_of_getElem? copied))

theorem Complete.send (complete : network.Complete) (items : List α) :
    (network.send items).Complete := by
  simp only [Complete, Network.send, ← List.append_assoc]
  exact complete.append_right items

theorem Complete.arrive (complete : network.Complete)
    (present : network.underway[index]? = some item) : (network.arrive index item).Complete := by
  obtain ⟨bound, rfl⟩ := List.getElem?_eq_some_iff.mp present
  simp only [Complete, Network.arrive, List.append_assoc, List.singleton_append]
  exact ((List.getElem_cons_eraseIdx_perm bound).append_left _).trans complete

theorem Complete.perm (complete : network.Complete) (none : network.underway = []) :
    network.arrived.Perm network.sent := by
  rw [Complete, none, List.append_nil] at complete
  exact complete

/-! Some of what is under way. -/

section Filter

variable (chosen : α → Bool)

theorem filter_arrive_other (present : network.underway[index]? = some item)
    (other : chosen item = false) :
    (network.arrive index item).underway.filter chosen = network.underway.filter chosen := by
  obtain ⟨bound, rfl⟩ := List.getElem?_eq_some_iff.mp present
  have split := List.take_append_drop index network.underway
  rw [List.drop_eq_getElem_cons bound] at split
  have parts := congrArg (List.filter chosen) split
  rw [List.filter_append, List.filter_cons_of_neg (by simp [other])] at parts
  rw [← parts, Network.arrive, List.eraseIdx_eq_take_drop_succ, List.filter_append]

theorem filter_arrive_own (present : network.underway[index]? = some item)
    (own : chosen item = true) : ∃ before after,
      network.underway.filter chosen = before ++ item :: after ∧
        (network.arrive index item).underway.filter chosen = before ++ after := by
  obtain ⟨bound, rfl⟩ := List.getElem?_eq_some_iff.mp present
  have split := List.take_append_drop index network.underway
  rw [List.drop_eq_getElem_cons bound] at split
  have parts := congrArg (List.filter chosen) split
  rw [List.filter_append, List.filter_cons_of_pos own] at parts
  refine ⟨_, _, parts.symm, ?_⟩
  rw [Network.arrive, List.eraseIdx_eq_take_drop_succ, List.filter_append]

end Filter

end Network
